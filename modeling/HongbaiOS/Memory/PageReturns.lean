import HongbaiOS.Memory.ArenaSteps
import HongbaiOS.Memory.Tlb

/-!
# Pages that are given back

`mfree_page` gives back the pages of its run and no others: their address bits, their entries
and the bits of their frames.
-/

namespace HongbaiOS.Memory

open HongbaiOS.Library HongbaiOS.Kernel HongbaiOS.Lib HongbaiOS.Thread

/-- The page tables, the frames in use and the address bits are the same. -/
structure SamePages (m m' : Mem) : Prop where
  fixed : m'.fixed = m.fixed
  words : m'.words = m.words
  frames : ∀ pf, (m'.pool pf).poolBitmap = (m.pool pf).poolBitmap
  ranges : ∀ t pf, m'.rangeOf t pf = m.rangeOf t pf

namespace SamePages

variable {m m' m'' : Mem} {pf : PoolFlags}

theorem trans (first : SamePages m m') (second : SamePages m' m'') : SamePages m m'' :=
  ⟨second.fixed.trans first.fixed, second.words.trans first.words,
    fun pf => (second.frames pf).trans (first.frames pf),
    fun t pf => (second.ranges t pf).trans (first.ranges t pf)⟩

theorem setFreeList (m : Mem) (ref : DescRef) (list : List Address) :
    SamePages m (m.setFreeList ref list) := by
  refine ⟨(setFreeList_frame m ref list).fixed, setFreeList_words m ref list, ?_, ?_⟩
  · intro pf
    cases ref <;> cases pf <;> rfl
  · intro t pf
    cases ref with
    | kernel descIdx => cases pf <;> rfl
    | user t' descIdx =>
        cases pf with
        | kernel => rfl
        | user =>
            by_cases same : t = t'
            · subst same
              simp [Mem.rangeOf, Mem.setFreeList, Mem.setTask]
            · simp [Mem.rangeOf, Mem.setFreeList, Mem.setTask, Function.update_of_ne same]

theorem setArena (m : Mem) (frame : Nat) (ar : Arena) : SamePages m (m.setArena frame ar) := by
  refine ⟨rfl, rfl, fun pf => ?_, fun t pf => ?_⟩ <;> cases pf <;> rfl

theorem setLock (m : Mem) (pf : PoolFlags) (plock : Lock) : SamePages m (m.setLock pf plock) := by
  refine ⟨setLock_fixed m pf plock, ?_, fun pf' => ?_, (KeepsBits.setLock m pf plock).rangeOf⟩
  · cases pf <;> rfl
  · cases pf <;> cases pf' <;> rfl

theorem acquirePool (ran : Memory.acquirePool m pf = .ok m') : SamePages m m' := by
  obtain ⟨plock, -, result⟩ := except_bind_eq_ok.mp ran
  rw [← Except.ok.inj result]
  exact setLock m pf plock

theorem releasePool (ran : Memory.releasePool m pf = .ok m') : SamePages m m' := by
  obtain ⟨plock, -, result⟩ := except_bind_eq_ok.mp ran
  rw [← Except.ok.inj result]
  exact setLock m pf plock

end SamePages

/-- A run of pages is given back, and nothing else: their address bits are clear, they are not
mapped, and their frames are free. -/
structure Returned (m : Mem) (pf : PoolFlags) (page cnt : Nat) (m' : Mem) : Prop where
  bits : Marked m pf page cnt false m'
  maps : ∀ page' ∈ heapPages, ∀ frame, m'.Maps page' frame ↔
    m.Maps page' frame ∧ ¬ (page ≤ page' ∧ page' < page + cnt)
  frames : ∀ pf' frame, m'.InPool pf' frame ↔
    m.InPool pf' frame ∧ ∀ i < cnt, ¬ m.Maps (page + i) frame

section Returning

variable {b b' : Book} {m m' m'' : Mem} {pf : PoolFlags} {page cnt frame : Nat}

theorem Owned.maps_of_held (owned : Owned b m) {pf' : PoolFlags}
    (holds : b.held m (m.place pf page) = some (pf', frame)) : m.Maps page frame := by
  have inRange := owned.inRange_of_uses (Book.held_eq_some.mp holds).1
  obtain rfl : pf' = pf := by
    rw [← pool_place m pf page]
    exact (owned.inPool holds).2
  obtain ⟨small, isPage⟩ := inRange.address (by decide : 0 < 4096)
  rw [Nat.add_zero] at small isPage
  exact owned.translate_eq inRange small isPage holds

/-- The bits of the frames of a run are cleared. -/
theorem Owned.freePages_frames {inPool : Address → Bool} (owned : Owned b m)
    (plain : b.Plain m pf page cnt) (ran : Memory.freePages inPool cnt (page * 4096) m = .ok m')
    (pf' : PoolFlags) (frame : Nat) : m'.InPool pf' frame ↔
      m.InPool pf' frame ∧ ∀ i < cnt, b.held m (m.place pf (page + i)) ≠ some (pf', frame) := by
  induction cnt generalizing b m page with
  | zero =>
      cases ran
      simp
  | succ cnt inductionHypothesis =>
      obtain ⟨inRange, phyaddr, holds, notDir⟩ := plain 0 (Nat.succ_pos cnt)
      rw [Nat.add_zero] at inRange holds
      obtain ⟨phyaddr', isFrame, ran⟩ := except_bind_eq_ok.mp ran
      rw [owned.addrV2p_eq inRange holds] at isFrame
      obtain rfl := Except.ok.inj isFrame
      obtain ⟨_, -, ran⟩ := except_bind_eq_ok.mp ran
      obtain ⟨m₁, freed, ran⟩ := except_bind_eq_ok.mp ran
      obtain ⟨m₂, removed, ran⟩ := except_bind_eq_ok.mp ran
      have first := owned.freePage inRange holds notDir freed removed
      have isTaken := (owned.inPool holds).1
      rw [pool_place] at isTaken
      have pools := (owned.pfree isTaken freed).2.2
      have unmapped : m₂.InPool pf' frame ↔ m₁.InPool pf' frame := by
        obtain ⟨pte, -, result⟩ := except_bind_eq_ok.mp removed
        rw [← Except.ok.inj result]
        rfl
      rw [inRange.wrap_next] at ran
      rw [inductionHypothesis first.owned (first.plain plain) ran, unmapped, pools]
      have others : ∀ i < cnt, (b.revoke pf page).held m₂ (m₂.place pf (page + 1 + i)) =
          b.held m (m.place pf (page + (i + 1))) := by
        intro i inside
        rw [place_congr first.fixed, Nat.add_assoc, Nat.add_comm 1 i]
        refine first.others _ fun j one same => ?_
        have samePage := Memory.place_inj same
        omega
      constructor
      · rintro ⟨⟨notFirst, taken⟩, notLater⟩
        refine ⟨taken, ?_⟩
        rintro (_ | i) inside here
        · rw [Nat.add_zero, holds, Option.some.injEq, Prod.mk.injEq] at here
          exact notFirst ⟨here.1.symm, here.2.symm⟩
        · rw [← others i (by omega)] at here
          exact notLater i (by omega) here
      · rintro ⟨taken, none⟩
        refine ⟨⟨?_, taken⟩, fun i inside here => ?_⟩
        · rintro ⟨rfl, rfl⟩
          exact none 0 (Nat.succ_pos cnt) (by rw [Nat.add_zero, holds])
        · rw [others i inside] at here
          exact none (i + 1) (by omega) here

theorem Withdrawn.maps_iff (withdrawn : Withdrawn b m pf page cnt b' m') (owned : Owned b m)
    (plain : b.Plain m pf page cnt) {page' : Nat} (isHeap : page' ∈ heapPages) (frame : Nat) :
    m'.Maps page' frame ↔ m.Maps page' frame ∧ ¬ (page ≤ page' ∧ page' < page + cnt) := by
  have cr3 : m'.cr3 = m.cr3 := congrArg Fixed.cr3 withdrawn.fixed
  by_cases inRun : page ≤ page' ∧ page' < page + cnt
  · -- the pages of the run are not mapped
    obtain ⟨i, rfl⟩ := Nat.exists_eq_add_of_le inRun.1
    have inside : i < cnt := by omega
    obtain ⟨inRange, -⟩ := plain i inside
    refine iff_of_false (fun maps => ?_) fun both => both.2 inRun
    cases pf with
    | kernel =>
        rw [withdrawn.owned.maps_kernel_iff inRange, withdrawn.absent rfl i inside] at maps
        cases maps.1
    | user =>
        have gone : b'.held m' (.userPage m.cr3 (page + i)) = none := withdrawn.gone i inside
        rw [withdrawn.owned.maps_user_iff inRange, cr3, gone] at maps
        cases maps
  · obtain ⟨pf', inRange⟩ := isHeap
    have other : ∀ i < cnt, m.place pf' page' ≠ m.place pf (page + i) := by
      intro i inside same
      have samePool : pf' = pf := by
        rw [← pool_place m pf' page', same, pool_place]
      subst samePool
      have samePage := Memory.place_inj same
      omega
    rw [and_iff_left inRun]
    cases pf' with
    | kernel =>
        rw [owned.maps_kernel_iff inRange, withdrawn.owned.maps_kernel_iff inRange,
          withdrawn.kernelEntry page' inRange other]
    | user =>
        have held : b'.held m' (.userPage m.cr3 page') = b.held m (.userPage m.cr3 page') :=
          withdrawn.others _ other
        rw [owned.maps_user_iff inRange, withdrawn.owned.maps_user_iff inRange, cr3, held]

theorem Owned.returned (owned : Owned b m) (plain : b.Plain m pf page cnt)
    (ran : Memory.mfreePage m pf (page * 4096) cnt = .ok m') : Returned m pf page cnt m' := by
  obtain ⟨b', withdrawn⟩ := owned.withdrawn plain ran
  refine ⟨withdrawn.marked,
    fun page' isHeap frame => withdrawn.maps_iff owned plain isHeap frame, ?_⟩
  intro pf' frame
  obtain ⟨-, inPool, m₁, freed, removed⟩ := mfreePage_eq_ok ran
  obtain ⟨btmp, -, result⟩ := except_bind_eq_ok.mp removed
  have pools : m'.InPool pf' frame ↔ m₁.InPool pf' frame := by
    rw [← Except.ok.inj result]
    cases pf <;> cases pf' <;> rfl
  rw [pools, owned.freePages_frames plain freed]
  refine and_congr_right fun taken => forall₂_congr fun i inside => not_congr ?_
  obtain ⟨-, phyaddr, holds, -⟩ := plain i inside
  have maps := owned.maps_of_held holds
  have unique : m.Maps (page + i) frame ↔ phyaddr = frame := by
    constructor
    · exact fun maps' => Except.ok.inj (maps.symm.trans maps')
    · rintro rfl
      exact maps
  rw [holds, unique, Option.some.injEq, Prod.mk.injEq]
  refine and_iff_right_of_imp fun same => ?_
  subst same
  have isTaken : m.InPool pf phyaddr := owned.owns.taken _ _ holds
  exact isTaken.pool_eq taken owned.layout

namespace SamePages

variable (same : SamePages m m')

include same

theorem maps (page frame : Nat) : m'.Maps page frame ↔ m.Maps page frame := by
  have cr3 : m'.cr3 = m.cr3 := congrArg Fixed.cr3 same.fixed
  have translate : m'.translate (page * pgSize) = m.translate (page * pgSize) := by
    simp only [Mem.translate, Mem.pte, Mem.pteTable, Mem.pde, same.words, cr3]
    rfl
  rw [Mem.Maps, Mem.Maps, translate]

theorem inPool (pf : PoolFlags) (frame : Nat) : m'.InPool pf frame ↔ m.InPool pf frame := by
  have start := congrFun (start_congr same.fixed) pf
  have frames := congrFun (frames_congr same.fixed) pf
  rw [Mem.InPool, Mem.InPool, same.frames, start, frames]

theorem pageBit (t : Tid) (pf : PoolFlags) (i : Nat) : m'.pageBit t pf i = m.pageBit t pf i := by
  rw [Mem.pageBit, Mem.pageBit, same.ranges]

theorem requests (t : Tid) (pf pf' : PoolFlags) : m'.Requests t pf pf' ↔ m.Requests t pf pf' := by
  have running : m'.runningThread = m.runningThread := congrArg Fixed.runningThread same.fixed
  rw [Mem.Requests, Mem.Requests, running]

end SamePages

/-- Something else than the pages may change before. -/
theorem Returned.from (returned : Returned m' pf page cnt m'') (same : SamePages m m') :
    Returned m pf page cnt m'' := by
  refine ⟨fun t pf' i => ?_, fun page' isHeap frame => ?_, fun pf' frame => ?_⟩
  · rw [returned.bits, same.pageBit, firstPage_congr same.fixed]
    exact if_congr (and_congr_left' (same.requests t pf' pf)) rfl rfl
  · rw [returned.maps page' isHeap, same.maps]
  · simp only [returned.frames, same.maps, same.inPool]

/-- Something else than the pages may change afterwards. -/
theorem Returned.to (returned : Returned m pf page cnt m') (same : SamePages m' m'') :
    Returned m pf page cnt m'' := by
  refine ⟨fun t pf' i => ?_, fun page' isHeap frame => ?_, fun pf' frame => ?_⟩
  · rw [same.pageBit, returned.bits]
  · rw [same.maps, returned.maps page' isHeap]
  · rw [same.inPool, returned.frames]

/-- Nothing is given back where the pages are the same. -/
theorem SamePages.returned (same : SamePages m m') (pf : PoolFlags) (page : Nat) :
    Returned m pf page 0 m' := by
  refine ⟨fun t pf' i => ?_, fun page' isHeap frame => ?_, fun pf' frame => ?_⟩
  · rw [same.pageBit, if_neg (by omega)]
  · rw [same.maps, and_iff_left (by omega)]
  · simp [same.inPool]

end Returning
end HongbaiOS.Memory
