import HongbaiOS.Memory.PageOwners

/-!
# Arenas and the page operations

Pages that are handed out or given back leave the arenas in all other pages alone: what is
cleared is a frame that nobody held before, as a page table or as one of the new pages.
-/

namespace HongbaiOS.Memory

open HongbaiOS.Library HongbaiOS.Kernel HongbaiOS.Lib HongbaiOS.Thread

/-- The frames that were in use hold the arenas they held. -/
def KeepsArenas (b : Book) (m m' : Mem) : Prop :=
  ∀ p r, b.held m p = some r → m'.arena r.2 = m.arena r.2

section Arenas

variable {b b' : Book} {m m' m'' : Mem} {pf : PoolFlags} {page vaddr phyaddr cnt pgCnt : Nat}
  {result : Option Address}

theorem KeepsArenas.of_eq (same : m'.arena = m.arena) : KeepsArenas b m m' :=
  fun _ r _ => congrFun same r.2

theorem KeepsArenas.trans (first : KeepsArenas b m m') (mapped : Mapped b m pf page cnt b' m')
    (second : KeepsArenas b' m' m'') : KeepsArenas b m m'' :=
  fun p r holds => (second p r (mapped.keeps p r holds)).trans (first p r holds)

theorem palloc_arena (ran : palloc m pf = .ok (result, m')) : m'.arena = m.arena := by
  obtain ⟨bitIdx, -, -, -, rfl⟩ := palloc_eq_ok ran
  cases pf <;> rfl

theorem setPte_arena (ran : setPte m vaddr phyaddr = .ok m') : m'.arena = m.arena := by
  obtain ⟨-, rfl⟩ := setPte_eq_ok.mp ran
  rfl

theorem setVaddrBitmap_arena (m : Mem) (pf : PoolFlags) (btmp : Bitmap) :
    (m.setVaddrBitmap pf btmp).arena = m.arena := by
  cases pf <;> rfl

theorem setLock_arena (m : Mem) (pf : PoolFlags) (plock : Lock) :
    (m.setLock pf plock).arena = m.arena := by
  cases pf <;> rfl

/-- A new page table is cleared, and nobody held its frame. -/
theorem Owned.pageTableAdd_arenas (owned : Owned b m) (inRange : InRange pf page)
    (small : vaddr < 2 ^ 32) (isPage : vaddr / 4096 = page)
    (ran : Memory.pageTableAdd m vaddr phyaddr = .ok m') : KeepsArenas b m m' := by
  unfold Memory.pageTableAdd at ran
  split at ran
  next => exact .of_eq (setPte_arena ran)
  next missing =>
    rw [Bool.not_eq_true] at missing
    cases pf with
    | kernel => cases missing.symm.trans (owned.pde_present inRange small isPage)
    | user =>
        obtain ⟨⟨allocated, m₁⟩, took, ran⟩ := except_bind_eq_ok.mp ran
        obtain ⟨table, rfl, taken⟩ := owned.palloc took
        obtain ⟨aligned, -, below, -⟩ := taken.inPool.frame taken.owned.layout
        let linked := m₁.setWord m₁.cr3 (pdeIndex vaddr) (pageEntry table)
        have isTable : linked.pteTable vaddr = table := by
          change entryFrame (linked.words m₁.cr3 (pdeIndex vaddr)) = table
          rw [Mem.words_setWord, if_pos ⟨rfl, rfl⟩, entryFrame_pageEntry aligned below]
        change Memory.setPte (linked.clearFrame (linked.pteTable vaddr)) vaddr phyaddr = _ at ran
        rw [isTable] at ran
        rintro p ⟨pool, frame⟩ holds
        have other : frame ≠ table := by
          rintro rfl
          have inPool := taken.grown _ _ (owned.owns.taken p _ holds)
          obtain rfl := inPool.pool_eq taken.inPool taken.owned.layout
          rw [← taken.held] at holds
          exact taken.spare p holds
        rw [setPte_arena ran, ← palloc_arena took]
        exact Function.update_of_ne other _ _

theorem Owned.mapPages_arenas {ok : Bool} (owned : Owned b m)
    (inRange : ∀ i < cnt, InRange pf (page + i)) (isPage : vaddr = page * 4096)
    (ran : Memory.mapPages pf cnt vaddr m = .ok (ok, m')) : KeepsArenas b m m' := by
  induction cnt generalizing b m page vaddr with
  | zero =>
      simp only [Memory.mapPages, Except.ok.injEq, Prod.mk.injEq] at ran
      obtain ⟨-, rfl⟩ := ran
      exact .of_eq rfl
  | succ cnt inductionHypothesis =>
      obtain ⟨⟨allocated, m₁⟩, took, ran⟩ := except_bind_eq_ok.mp ran
      obtain ⟨frame, rfl, taken⟩ := owned.palloc took
      obtain ⟨m₂, added, ran⟩ := except_bind_eq_ok.mp ran
      have here := inRange 0 (Nat.succ_pos cnt)
      rw [Nat.add_zero] at here
      obtain ⟨small, back⟩ := here.address (by decide : 0 < 4096)
      rw [Nat.add_zero] at small back
      subst isPage
      have mapped := taken.owned.pageTableAdd here small back taken.inPool taken.spare added
      rw [here.wrap_next] at ran
      have later : ∀ i < cnt, InRange pf (page + 1 + i) := by
        intro i less
        have inRange' := inRange (i + 1) (by omega)
        rwa [show page + (i + 1) = page + 1 + i by omega] at inRange'
      have first : KeepsArenas b m m₁ := .of_eq (palloc_arena took)
      have second := taken.owned.pageTableAdd_arenas here small back added
      have rest := inductionHypothesis mapped.owned later rfl ran
      exact first.trans (taken.mapped pf page) (second.trans mapped rest)

theorem Owned.mallocPage_arenas (owned : Owned b m)
    (ran : Memory.mallocPage m pf pgCnt = .ok (result, m')) : KeepsArenas b m m' := by
  obtain ⟨page, btmp, -, inRange, marked, mapped⟩ := owned.mallocPage_run ran
  have first : KeepsArenas b m (m.setVaddrBitmap pf btmp) := .of_eq (setVaddrBitmap_arena m pf btmp)
  exact first.trans marked (marked.owned.mapPages_arenas inRange rfl mapped)

theorem Owned.memsetPages_arenas (owned : Owned b m) (plain : b.Plain m pf page cnt)
    (ran : Memory.memsetPages cnt (page * 4096) m = .ok m') {p : Place} {pool : PoolFlags}
    {frame : Nat} (holds : b.held m p = some (pool, frame))
    (other : ∀ i < cnt, p ≠ m.place pf (page + i)) : m'.arena frame = m.arena frame := by
  induction cnt generalizing m page with
  | zero =>
      cases ran
      rfl
  | succ cnt inductionHypothesis =>
      obtain ⟨_, translated, ran⟩ := except_bind_eq_ok.mp ran
      obtain ⟨inRange, phyaddr, isHere, notDir⟩ := plain 0 (Nat.succ_pos cnt)
      rw [Nat.add_zero] at inRange isHere
      obtain ⟨small, isPage⟩ := inRange.address (by decide : 0 < 4096)
      rw [Nat.add_zero] at small isPage
      rw [owned.translate_eq inRange small isPage isHere] at translated
      obtain rfl := Except.ok.inj translated
      have cleared := owned.clearFrame isHere notDir pf (page + 1)
      rw [inRange.wrap_next] at ran
      have rest : b.Plain (m.clearFrame phyaddr) pf (page + 1) cnt := by
        intro i less
        obtain ⟨inRange', phyaddr', holds', notDir'⟩ := plain (i + 1) (by omega)
        rw [show page + (i + 1) = page + 1 + i by omega] at inRange' holds'
        exact ⟨inRange', phyaddr', cleared.keeps _ _ holds', notDir'⟩
      have later := inductionHypothesis cleared.owned rest ran (cleared.keeps _ _ holds)
        fun i less same => other (i + 1) (by omega) (by
          rw [same, place_congr cleared.fixed, show page + (i + 1) = page + 1 + i by omega])
      have otherFrame : frame ≠ phyaddr := by
        rintro rfl
        have mine : m.InPool pool frame := owned.owns.taken p _ holds
        have here : m.InPool pf frame := owned.owns.taken _ _ isHere
        obtain rfl := mine.pool_eq here owned.layout
        have samePlace := owned.owns.once _ _ _ holds isHere
        exact other 0 (Nat.succ_pos cnt) samePlace
      rw [later]
      exact Function.update_of_ne otherFrame _ _

theorem Owned.getKernelPages_arenas (owned : Owned b m)
    (ran : Memory.getKernelPages m pgCnt = .ok (result, m')) : KeepsArenas b m m' := by
  obtain ⟨⟨start, m₁⟩, allocated, ran⟩ := except_bind_eq_ok.mp ran
  have first := owned.mallocPage_arenas allocated
  obtain ⟨page, b', rfl, mapped⟩ := owned.mallocPage allocated
  obtain ⟨m₂, cleared, ran⟩ := except_bind_eq_ok.mp ran
  simp only [pure_eq_ok, Except.ok.injEq, Prod.mk.injEq] at ran
  obtain ⟨-, rfl⟩ := ran
  intro p r holds
  refine Eq.trans ?_ (first p r holds)
  refine mapped.owned.memsetPages_arenas (mapped.plain owned) cleared (mapped.keeps p r holds)
    fun i inside same => ?_
  have fresh := mapped.fresh i inside
  rw [← place_congr mapped.fixed, ← same, holds] at fresh
  cases fresh

/-- `get_a_page` clears at most the frame of a new page table. -/
theorem Owned.getAPage_arenas (owned : Owned b m) (small : vaddr < 2 ^ 32)
    (ran : Memory.getAPage m pf vaddr = .ok (result, m')) : KeepsArenas b m m' := by
  obtain ⟨-, b', mapped⟩ := owned.getAPage small ran
  have inRange : InRange pf (vaddr / 4096) := mapped.inRange 0 Nat.one_pos
  obtain ⟨held, btmp, phyaddr, taken, added, acquired, -, -, set, allocated, add, -, released⟩ :=
    getAPage_eq_ok ran
  obtain ⟨plock, -, acquired⟩ := except_bind_eq_ok.mp acquired
  obtain rfl := Except.ok.inj acquired
  obtain ⟨plock', -, released⟩ := except_bind_eq_ok.mp released
  obtain rfl := Except.ok.inj released
  obtain ⟨-, rfl⟩ := bitmapSet_eq_ok.mp set
  have locked := owned.setLock pf plock pf 0
  have sameLen : (((m.setLock pf plock).vaddrPool pf).vaddrBitmap.put
      (wrapSub vaddr ((m.setLock pf plock).vaddrPool pf).vaddrStart / pgSize) true).btmpBytesLen =
      ((m.setLock pf plock).vaddrPool pf).vaddrBitmap.btmpBytesLen := Bitmap.put_btmpBytesLen _ true
  have marked := locked.owned.setVaddrBitmap sameLen pf 0
  obtain ⟨frame, -, took⟩ := marked.owned.palloc allocated
  have start : taken.arena = m.arena := by
    rw [palloc_arena allocated, setVaddrBitmap_arena, setLock_arena]
  have kept := ((locked.trans marked).trans (took.mapped pf _))
  have last := took.owned.pageTableAdd_arenas inRange small rfl add
  intro p r holds
  rw [setLock_arena, last p r (kept.keeps p r holds), start]

theorem pfree_arena (ran : pfree m phyaddr = .ok m') : m'.arena = m.arena := by
  obtain ⟨btmp, -, result⟩ := except_bind_eq_ok.mp ran
  rw [← Except.ok.inj result]
  generalize (if phyaddr ≥ m.userPool.phyAddrStart then PoolFlags.user else .kernel) = pf
  cases pf <;> rfl

theorem freePages_arena {inPool : Address → Bool}
    (ran : freePages inPool cnt vaddr m = .ok m') : m'.arena = m.arena := by
  induction cnt generalizing vaddr m with
  | zero =>
      cases ran
      rfl
  | succ cnt inductionHypothesis =>
      obtain ⟨_, -, ran⟩ := except_bind_eq_ok.mp ran
      obtain ⟨_, -, ran⟩ := except_bind_eq_ok.mp ran
      obtain ⟨freed, free, ran⟩ := except_bind_eq_ok.mp ran
      obtain ⟨removed, remove, ran⟩ := except_bind_eq_ok.mp ran
      obtain ⟨pte, -, result⟩ := except_bind_eq_ok.mp remove
      have unmapped : removed.arena = freed.arena := by
        rw [← Except.ok.inj result]
        rfl
      rw [inductionHypothesis ran, unmapped, pfree_arena free]

theorem mfreePage_arena (ran : mfreePage m pf vaddr pgCnt = .ok m') : m'.arena = m.arena := by
  obtain ⟨-, inPool, m₁, freed, removed⟩ := mfreePage_eq_ok ran
  obtain ⟨btmp, -, result⟩ := except_bind_eq_ok.mp removed
  rw [← Except.ok.inj result, setVaddrBitmap_arena, freePages_arena freed]

end Arenas

end HongbaiOS.Memory
