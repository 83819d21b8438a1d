import HongbaiOS.Library.Cache
import HongbaiOS.Memory.Directories

/-!
# The translation buffer

`page_table_pte_remove` is meant to flush the translation of the page whose entry it clears.
The operand of its `invlpg` is the parameter `vaddr` as an object in memory, so that the
page flushed is the one in which the parameter lies: the kernel stack.
-/

namespace HongbaiOS.Memory

open HongbaiOS.Library HongbaiOS.Kernel HongbaiOS.Lib HongbaiOS.Thread

/-- The pairs of page and frame that the TLB may hold: all that have been used and not been
flushed since. -/
abbrev Tlb := Set (Nat × Nat)

/-- `invlpg` with a memory operand at `operand` -/
def invlpg (operand : Address) (tlb : Tlb) : Tlb := invalidate (operand / pgSize) tlb

/-- `page_table_pte_remove(vaddr)`; `slot` is the address of the parameter. -/
def pteRemove (slot : Address) (m : Mem) (tlb : Tlb) (vaddr : Address) :
    Except Halt (Mem × Tlb) := do
  let m ← pageTablePteRemove m vaddr
  return (m, invlpg slot tlb)

/-- The loops of `mfree_page`, with the TLB. -/
def freePagesTlb (slot : Address) (inPool : Address → Bool) : (cnt : Nat) → (vaddr : Address) →
    Mem → Tlb → Except Halt (Mem × Tlb)
  | 0, _, m, tlb => .ok (m, tlb)
  | cnt + 1, vaddr, m, tlb => do
      let pgPhyAddr ← addrV2p m vaddr
      check .mfreePage (inPool pgPhyAddr && pgPhyAddr % pgSize == 0)
      let m ← pfree m pgPhyAddr
      let (m, tlb) ← pteRemove slot m tlb vaddr
      freePagesTlb slot inPool cnt (wrap (vaddr + pgSize)) m tlb

/-- `mfree_page(pf, _vaddr, pg_cnt)`, with the TLB. -/
def mfreePageTlb (slot : Address) (m : Mem) (tlb : Tlb) (pf : PoolFlags) (vaddr : Address)
    (pgCnt : Nat) : Except Halt (Mem × Tlb) := do
  check .mfreePage (pgCnt ≥ 1 ∧ vaddr % pgSize = 0)
  let pgPhyAddr ← addrV2p m vaddr
  check .mfreePage (pgPhyAddr ≥ 0x102000 ∧ pgPhyAddr % pgSize = 0)
  let kernelStart := m.kernelPool.phyAddrStart
  let userStart := m.userPool.phyAddrStart
  let (m, tlb) ← if pgPhyAddr ≥ userStart then
      freePagesTlb slot (fun a => a ≥ userStart) pgCnt vaddr m tlb
    else freePagesTlb slot (fun a => a ≥ kernelStart && a < userStart) pgCnt vaddr m tlb
  let m ← vaddrRemove m pf vaddr pgCnt
  return (m, tlb)

section Refines

variable {m m' : Mem} {tlb tlb' : Tlb} {slot vaddr : Address} {pf : PoolFlags} {cnt : Nat}

theorem freePagesTlb_eq_ok {inPool : Address → Bool}
    (ran : freePagesTlb slot inPool cnt vaddr m tlb = .ok (m', tlb')) :
    freePages inPool cnt vaddr m = .ok m' ∧ (0 < cnt → tlb' = invlpg slot tlb) := by
  induction cnt generalizing m tlb vaddr with
  | zero =>
      cases ran
      exact ⟨rfl, fun impossible => absurd impossible (Nat.lt_irrefl 0)⟩
  | succ cnt inductionHypothesis =>
      obtain ⟨phyaddr, isFrame, ran⟩ := except_bind_eq_ok.mp ran
      obtain ⟨_, checked, ran⟩ := except_bind_eq_ok.mp ran
      obtain ⟨m₁, freed, ran⟩ := except_bind_eq_ok.mp ran
      obtain ⟨⟨m₂, tlb₂⟩, removed, ran⟩ := except_bind_eq_ok.mp ran
      obtain ⟨m₃, cleared, flushed⟩ := except_bind_eq_ok.mp removed
      simp only [pure_eq_ok, Except.ok.injEq, Prod.mk.injEq] at flushed
      obtain ⟨rfl, rfl⟩ := flushed
      obtain ⟨rest, flushed⟩ := inductionHypothesis ran
      refine ⟨?_, fun _ => ?_⟩
      · simp only [freePages, isFrame, ok_bind, checked, freed, cleared, rest]
      · rcases Nat.eq_zero_or_pos cnt with rfl | more
        · cases ran
          rfl
        · rw [flushed more, invlpg, invlpg, invalidate_idem]

theorem mfreePageTlb_eq_ok (ran : mfreePageTlb slot m tlb pf vaddr cnt = .ok (m', tlb')) :
    mfreePage m pf vaddr cnt = .ok m' ∧ tlb' = invlpg slot tlb := by
  obtain ⟨_, bounds, ran⟩ := except_bind_eq_ok.mp ran
  obtain ⟨phyaddr, isFrame, ran⟩ := except_bind_eq_ok.mp ran
  obtain ⟨_, checked, ran⟩ := except_bind_eq_ok.mp ran
  have positive : 0 < cnt := by
    simp only [check_eq_ok, decide_eq_true_eq] at bounds
    exact bounds.1
  simp only [mfreePage, bounds, isFrame, checked, ok_bind]
  dsimp only at ran
  split at ran
  next upper =>
    obtain ⟨⟨m₁, tlb₁⟩, freed, ran⟩ := except_bind_eq_ok.mp ran
    obtain ⟨m₂, removed, ran⟩ := except_bind_eq_ok.mp ran
    simp only [pure_eq_ok, Except.ok.injEq, Prod.mk.injEq] at ran
    obtain ⟨rfl, rfl⟩ := ran
    obtain ⟨rest, flushed⟩ := freePagesTlb_eq_ok freed
    simp only [if_pos upper, rest, ok_bind, removed]
    exact ⟨trivial, flushed positive⟩
  next lower =>
    obtain ⟨⟨m₁, tlb₁⟩, freed, ran⟩ := except_bind_eq_ok.mp ran
    obtain ⟨m₂, removed, ran⟩ := except_bind_eq_ok.mp ran
    simp only [pure_eq_ok, Except.ok.injEq, Prod.mk.injEq] at ran
    obtain ⟨rfl, rfl⟩ := ran
    obtain ⟨rest, flushed⟩ := freePagesTlb_eq_ok freed
    simp only [if_neg lower, rest, ok_bind, removed]
    exact ⟨trivial, flushed positive⟩

theorem freePagesTlb_returns (slot : Address) (tlb : Tlb) {inPool : Address → Bool}
    (ran : freePages inPool cnt vaddr m = .ok m') :
    ∃ tlb', freePagesTlb slot inPool cnt vaddr m tlb = .ok (m', tlb') := by
  induction cnt generalizing m tlb vaddr with
  | zero =>
      cases ran
      exact ⟨tlb, rfl⟩
  | succ cnt inductionHypothesis =>
      obtain ⟨phyaddr, isFrame, ran⟩ := except_bind_eq_ok.mp ran
      obtain ⟨_, checked, ran⟩ := except_bind_eq_ok.mp ran
      obtain ⟨m₁, freed, ran⟩ := except_bind_eq_ok.mp ran
      obtain ⟨m₂, removed, ran⟩ := except_bind_eq_ok.mp ran
      obtain ⟨tlb', rest⟩ := inductionHypothesis (invlpg slot tlb) ran
      refine ⟨tlb', ?_⟩
      simp only [freePagesTlb, isFrame, ok_bind, checked, freed, pteRemove, removed, pure_eq_ok]
      exact rest

theorem mfreePageTlb_returns (slot : Address) (tlb : Tlb)
    (ran : mfreePage m pf vaddr cnt = .ok m') :
    ∃ tlb', mfreePageTlb slot m tlb pf vaddr cnt = .ok (m', tlb') := by
  obtain ⟨_, bounds, ran⟩ := except_bind_eq_ok.mp ran
  obtain ⟨phyaddr, isFrame, ran⟩ := except_bind_eq_ok.mp ran
  obtain ⟨_, checked, ran⟩ := except_bind_eq_ok.mp ran
  simp only [mfreePageTlb, bounds, isFrame, checked, ok_bind]
  dsimp only at ran
  split at ran
  next upper =>
    obtain ⟨m₁, freed, ran⟩ := except_bind_eq_ok.mp ran
    obtain ⟨tlb', rest⟩ := freePagesTlb_returns slot tlb freed
    exact ⟨tlb', by simp only [if_pos upper, rest, ok_bind, ran, pure_eq_ok]⟩
  next lower =>
    obtain ⟨m₁, freed, ran⟩ := except_bind_eq_ok.mp ran
    obtain ⟨tlb', rest⟩ := freePagesTlb_returns slot tlb freed
    exact ⟨tlb', by simp only [if_neg lower, rest, ok_bind, ran, pure_eq_ok]⟩

end Refines

/-- The page tables map a page to a frame. -/
def Mem.Maps (m : Mem) (page frame : Nat) : Prop := m.translate (page * pgSize) = .ok frame

/-- The pages that are allocated and released. -/
def heapPages : Set Nat := {page | ∃ pf, InRange pf page}

theorem translate_page (m : Mem) (vaddr : Nat) :
    m.translate vaddr = m.translate (vaddr / pgSize * pgSize) := by
  have pde : pdeIndex (vaddr / pgSize * pgSize) = pdeIndex vaddr := by
    change vaddr / 4096 * 4096 / 2 ^ 22 % 1024 = vaddr / 2 ^ 22 % 1024
    omega
  have pte : pteIndex (vaddr / pgSize * pgSize) = pteIndex vaddr := by
    change vaddr / 4096 * 4096 / 2 ^ 12 % 1024 = vaddr / 2 ^ 12 % 1024
    omega
  simp only [Mem.translate, Mem.pte, Mem.pteTable, Mem.pde, pde, pte]
  rfl

section Maps

variable {b b' : Book} {m m' : Mem} {pf : PoolFlags} {page cnt frame : Nat}

theorem Owned.maps_kernel_iff (owned : Owned b m) (inRange : InRange .kernel page) :
    m.Maps page frame ↔ isPresent (m.entry (.kernelPage page)) = true ∧
      entryFrame (m.entry (.kernelPage page)) = frame := by
  obtain ⟨small, isPage⟩ := inRange.address (by decide : 0 < 4096)
  rw [Nat.add_zero] at small isPage
  have entry : m.words (m.pteTable (page * 4096)) (pteIndex (page * 4096)) =
      m.entry (.kernelPage page) := by
    rw [owned.pteTable_eq inRange small isPage, pteIndex_eq, isPage]
    rfl
  change m.translate (page * 4096) = _ ↔ _
  rw [Mem.translate, Mem.pte, if_pos (owned.pde_present inRange small isPage), ok_bind, entry]
  split
  next present => simp [present]
  next absent => simp [absent]

theorem Owned.maps_user_iff (owned : Owned b m) (inRange : InRange .user page) :
    m.Maps page frame ↔ b.held m (.userPage m.cr3 page) = some (.user, frame) := by
  obtain ⟨small, isPage⟩ := inRange.address (by decide : 0 < 4096)
  obtain ⟨low, high⟩ := inRange.pdeIndex
  rw [Nat.add_zero] at small isPage
  have entry : m.words (m.pteTable (page * 4096)) (pteIndex (page * 4096)) =
      m.entry (.userPage m.cr3 page) := by
    rw [owned.pteTable_eq inRange small isPage, pteIndex_eq, isPage]
    rfl
  change m.translate (page * 4096) = _ ↔ _
  rw [Book.held_eq_some, Mem.translate, Mem.pte, pde_eq small isPage, entry]
  split
  next linked =>
    have has : b.HasTable m m.cr3 (page / 1024) := ⟨owned.current, low, high, linked⟩
    rw [ok_bind]
    split
    next present =>
      simp [Book.Uses, has, present, Place.pool]
    next absent =>
      simp [Book.Uses, absent]
  next missing =>
    have hasNot : ¬ b.HasTable m m.cr3 (page / 1024) := fun has => missing has.2.2.2
    simp [Book.Uses, hasNot]

theorem Mapped.maps (mapped : Mapped b m pf page cnt b' m') (owned : Owned b m) {page' : Nat}
    (isHeap : page' ∈ heapPages) (maps : m.Maps page' frame) : m'.Maps page' frame := by
  obtain ⟨pf', inRange⟩ := isHeap
  have cr3 : m'.cr3 = m.cr3 := congrArg Fixed.cr3 mapped.fixed
  cases pf' with
  | kernel =>
      rw [owned.maps_kernel_iff inRange] at maps
      rw [mapped.owned.maps_kernel_iff inRange, mapped.kernelEntry page' inRange, ← maps.2]
      · exact ⟨maps.1, rfl⟩
      · intro i small same
        cases pf with
        | kernel =>
            have absent := mapped.absent rfl i small
            rw [← Place.kernelPage.inj same, maps.1] at absent
            cases absent
        | user => cases same
  | user =>
      rw [owned.maps_user_iff inRange] at maps
      rw [mapped.owned.maps_user_iff inRange, cr3]
      exact mapped.keeps _ _ maps

/-- Nor is a page that is not released by a release. -/
theorem Unmapped.maps (unmapped : Unmapped b m pf page cnt b' m') (owned : Owned b m)
    {page' : Nat} (isHeap : page' ∈ heapPages)
    (other : ∀ pf', ∀ i < cnt, m.place pf' page' ≠ m.place pf (page + i))
    (maps : m.Maps page' frame) : m'.Maps page' frame := by
  obtain ⟨pf', inRange⟩ := isHeap
  have cr3 : m'.cr3 = m.cr3 := congrArg Fixed.cr3 unmapped.fixed
  cases pf' with
  | kernel =>
      rw [owned.maps_kernel_iff inRange] at maps
      rw [unmapped.owned.maps_kernel_iff inRange,
        unmapped.kernelEntry page' inRange (other .kernel)]
      exact maps
  | user =>
      rw [owned.maps_user_iff inRange] at maps
      rw [unmapped.owned.maps_user_iff inRange, cr3]
      exact (unmapped.others (m.place .user page') (other .user)).trans maps

end Maps

/-- Memory and what the TLB may hold of it. -/
structure TlbState where
  pages : PageState
  tlb : Tlb

/-- What the task does; an access is named with the frame that it reaches. -/
inductive TlbCall where
  | mallocPage (pf : PoolFlags) (pgCnt : UInt32)
  | mfreePage (pf : PoolFlags) (vaddr pgCnt : UInt32)
  | access (vaddr : UInt32) (frame : Nat)
  | reloadCr3

/-- What a call touches itself (its stack, page tables and bitmaps) is not handed out. -/
def PageState.OwnAccess (s : PageState) (touched : Tlb) : Prop :=
  ∀ page frame, (page, frame) ∈ touched → page ∈ heapPages →
    s.mem.Maps page frame ∧ ∀ pf, s.mem.place pf page ∉ s.granted

inductive TlbStep : TlbState → TlbCall → TlbState → Prop
  | mallocPage {s : PageState} {tlb touched : Tlb} {pf : PoolFlags} {pgCnt : UInt32}
      {vaddr : Option Address} {m' : Mem} (own : s.OwnAccess touched)
      (ran : mallocPage s.mem pf pgCnt.toNat = .ok (vaddr, m')) :
      TlbStep ⟨s, tlb⟩ (.mallocPage pf pgCnt)
        ⟨⟨m', s.granted ∪ s.mem.pages pf vaddr pgCnt.toNat, s.threads⟩, tlb ∪ touched⟩
  | mfreePage {s : PageState} {tlb tlb' touched : Tlb} {pf : PoolFlags} {vaddr pgCnt : UInt32}
      {slot : Address} {m' : Mem} (own : s.OwnAccess touched)
      (isSlot : slot / pgSize * pgSize = s.mem.runningThread)
      (owns : s.mem.pages pf (some vaddr.toNat) pgCnt.toNat ⊆ s.granted)
      (ran : mfreePageTlb slot s.mem tlb pf vaddr.toNat pgCnt.toNat = .ok (m', tlb')) :
      TlbStep ⟨s, tlb⟩ (.mfreePage pf vaddr pgCnt)
        ⟨⟨m', s.granted \ s.mem.pages pf (some vaddr.toNat) pgCnt.toNat, s.threads⟩,
          tlb' ∪ touched⟩
  | access {s : PageState} {tlb : Tlb} {vaddr : UInt32} {frame : Nat}
      (reaches : CachedRead tlb s.mem.Maps (vaddr.toNat / pgSize) frame) :
      TlbStep ⟨s, tlb⟩ (.access vaddr frame) ⟨s, insert (vaddr.toNat / pgSize, frame) tlb⟩
  | reloadCr3 {s : PageState} {tlb : Tlb} : TlbStep ⟨s, tlb⟩ .reloadCr3 ⟨s, ∅⟩

inductive TlbRun : TlbState → List (TlbState × TlbCall × TlbState) → Prop
  | nil {s : TlbState} : TlbRun s []
  | cons {s s' : TlbState} {call : TlbCall} {rest : List (TlbState × TlbCall × TlbState)}
      (first : TlbStep s call s') (others : TlbRun s' rest) : TlbRun s ((s, call, s') :: rest)

/-- `mfree_page` leaves no translation of the pages it releases, and an access to a page that
is handed out reaches the frame that its entry names. -/
def TlbCorrect : TlbState × TlbCall × TlbState → Prop
  | (_, .mfreePage _ vaddr pgCnt, s') =>
      ∀ i < pgCnt.toNat, ∀ frame, (vaddr.toNat / pgSize + i, frame) ∉ s'.tlb
  | (s, .access vaddr frame, _) =>
      (∃ pf, s.pages.mem.place pf (vaddr.toNat / pgSize) ∈ s.pages.granted) →
        s.pages.mem.translate vaddr.toNat = .ok frame
  | _ => True

/-- No page that is released has been used since the TLB was last flushed of it. -/
def Untouched : TlbState × TlbCall × TlbState → Prop
  | (s, .mfreePage _ vaddr pgCnt, _) =>
      ∀ i < pgCnt.toNat, ∀ frame, (vaddr.toNat / pgSize + i, frame) ∉ s.tlb
  | _ => True

section Runs

variable {b : Book} {s s' : TlbState} {call : TlbCall}

theorem TlbStep.pages (step : TlbStep s call s') :
    s'.pages = s.pages ∨ Step s.pages s'.pages := by
  cases step with
  | mallocPage _ ran => exact Or.inr (.mallocPage ran)
  | mfreePage _ _ owns ran => exact Or.inr (.mfreePage owns (mfreePageTlb_eq_ok ran).1)
  | access _ => exact Or.inl rfl
  | reloadCr3 => exact Or.inl rfl

theorem Coherent.stack_kept {s : PageState} (coherent : Coherent b s.mem s.granted s.threads)
    {pf : PoolFlags} {page : Nat} (isGranted : s.mem.place pf page ∈ s.granted) :
    page ≠ s.mem.runningThread / pgSize := by
  obtain ⟨phyaddr, holds, -⟩ := coherent.inUse _ isGranted
  have inRange := coherent.owned.inRange_of_uses (Book.held_eq_some.mp holds).1
  rintro rfl
  rcases coherent.pcbs _ coherent.running with isMain | ⟨pcb, used, isPage, notGranted⟩
  · have value : s.mem.runningThread / pgSize = 0xc009e := by
      rw [isMain]
      rfl
    rw [value] at inRange
    cases pf with
    | kernel => exact absurd inRange.1 (by decide)
    | user => exact absurd inRange.2 (by decide)
  · have value : s.mem.runningThread / pgSize = pcb := by
      rw [isPage]
      exact Nat.mul_div_cancel pcb (by decide)
    rw [value] at inRange isGranted
    cases pf with
    | kernel => exact notGranted isGranted
    | user =>
        have above := (coherent.owned.inRange pcb used).1
        have below := inRange.2
        simp only [kHeapPage] at above
        omega

/-- Whatever is flushed, the translations of the released pages are still there. -/
theorem Coherent.correct_iff (coherent : Coherent b s.pages.mem s.pages.granted s.pages.threads)
    {pf : PoolFlags} {vaddr pgCnt : UInt32} (step : TlbStep s (.mfreePage pf vaddr pgCnt) s') :
    TlbCorrect (s, .mfreePage pf vaddr pgCnt, s') ↔
      Untouched (s, .mfreePage pf vaddr pgCnt, s') := by
  cases step with
  | @mfreePage s tlb tlb' touched pf vaddr pgCnt slot m' own isSlot owns ran =>
      obtain ⟨-, rfl⟩ := mfreePageTlb_eq_ok ran
      refine forall₂_congr fun i small => forall_congr' fun frame => not_congr ?_
      have isGranted : s.mem.place pf (vaddr.toNat / pgSize + i) ∈ s.granted :=
        owns ⟨vaddr.toNat, rfl, i, small, rfl⟩
      constructor
      · rintro (kept | isOwn)
        · exact kept.1
        · obtain ⟨phyaddr, holds, -⟩ := coherent.inUse _ isGranted
          have isHeap : vaddr.toNat / pgSize + i ∈ heapPages :=
            ⟨pf, coherent.owned.inRange_of_uses (Book.held_eq_some.mp holds).1⟩
          exact absurd isGranted ((own _ frame isOwn isHeap).2 pf)
      · intro held
        refine Or.inl ⟨held, ?_⟩
        have slotPage : slot / pgSize = s.mem.runningThread / pgSize := by
          rw [← isSlot]
          exact (Nat.mul_div_cancel _ (by decide)).symm
        change _ ≠ slot / pgSize
        rw [slotPage]
        exact coherent.stack_kept isGranted

theorem Coherent.tlb_current (coherent : Coherent b s.pages.mem s.pages.granted s.pages.threads)
    (current : Current heapPages s.tlb s.pages.mem.Maps) (step : TlbStep s call s')
    (untouched : Untouched (s, call, s')) : Current heapPages s'.tlb s'.pages.mem.Maps := by
  have size : pgSize = 4096 := rfl
  cases step with
  | @mallocPage s tlb touched pf pgCnt vaddr m' own ran =>
      obtain ⟨page, b', -, mapped⟩ := coherent.owned.mallocPage ran
      have grown := current.union fun page' isHeap frame held => (own page' frame held isHeap).1
      refine grown.change ?_
      exact fun page' isHeap frame _ maps => mapped.maps coherent.owned isHeap maps
  | @mfreePage s tlb tlb' touched pf vaddr pgCnt slot m' own isSlot owns ran =>
      obtain ⟨freed, rfl⟩ := mfreePageTlb_eq_ok ran
      have owns' : ∀ i < pgCnt.toNat, s.mem.place pf (vaddr.toNat / 4096 + i) ∈ s.granted :=
        fun i small => owns ⟨vaddr.toNat, rfl, i, small, rfl⟩
      obtain ⟨_, bounds, -⟩ := except_bind_eq_ok.mp freed
      simp only [check_eq_ok, decide_eq_true_eq] at bounds
      have aligned : vaddr.toNat % 4096 = 0 := bounds.2
      have whole : vaddr.toNat = vaddr.toNat / 4096 * 4096 := by omega
      rw [whole] at freed
      obtain ⟨b', unmapped⟩ := coherent.owned.mfreePage (coherent.plain owns') freed
      have current' := (current.invalidate (slot / pgSize)).union
        fun page' isHeap frame held => (own page' frame held isHeap).1
      refine current'.change fun page' isHeap frame held maps => ?_
      refine unmapped.maps coherent.owned isHeap (fun pf' i small same => ?_) maps
      rcases held with kept | isOwn
      · have samePage : page' = vaddr.toNat / pgSize + i := by
          cases pf <;> cases pf' <;> cases same <;> rfl
        rw [samePage] at kept
        exact untouched i small frame kept.1
      · exact (own page' frame isOwn isHeap).2 pf' (same ▸ owns' i small)
  | access reaches => exact current.keep reaches
  | reloadCr3 => exact Current.empty

theorem Coherent.access_correct {s : PageState} {tlb : Tlb} {vaddr : UInt32} {frame : Nat}
    (coherent : Coherent b s.mem s.granted s.threads)
    (current : Current heapPages tlb s.mem.Maps)
    (reaches : CachedRead tlb s.mem.Maps (vaddr.toNat / pgSize) frame) (s' : TlbState) :
    TlbCorrect (⟨s, tlb⟩, .access vaddr frame, s') := by
  rintro ⟨pf, isGranted⟩
  obtain ⟨phyaddr, holds, -⟩ := coherent.inUse _ isGranted
  have isHeap : vaddr.toNat / pgSize ∈ heapPages :=
    ⟨pf, coherent.owned.inRange_of_uses (Book.held_eq_some.mp holds).1⟩
  change s.mem.translate vaddr.toNat = _
  rw [translate_page]
  exact current.read isHeap reaches

/-- Over a whole run of one task, whatever happened before it: the released pages are flushed
and all accesses reach the right frame exactly if no released page has been used. -/
theorem tlbCorrect_iff (m : Mem) (memBytesTotal : Nat) {s : PageState} {tlb : Tlb}
    {run : List (TlbState × TlbCall × TlbState)}
    (reached : Relation.ReflTransGen Step (.boot m memBytesTotal) s)
    (current : Current heapPages tlb s.mem.Maps) (ran : TlbRun ⟨s, tlb⟩ run) :
    (∀ step ∈ run, TlbCorrect step) ↔ ∀ step ∈ run, Untouched step := by
  obtain ⟨b, coherent, -⟩ := (Coherent.boot m memBytesTotal).run reached
  clear reached
  generalize isStart : (⟨s, tlb⟩ : TlbState) = start at ran
  replace coherent : Coherent b start.pages.mem start.pages.granted start.pages.threads := by
    rw [← isStart]
    exact coherent
  replace current : Current heapPages start.tlb start.pages.mem.Maps := by
    rw [← isStart]
    exact current
  clear isStart
  induction ran generalizing b with
  | nil => simp
  | @cons s s' call rest first others inductionHypothesis =>
      have sameFirst : TlbCorrect (s, call, s') ↔ Untouched (s, call, s') := by
        cases call with
        | mfreePage pf vaddr pgCnt => exact coherent.correct_iff first
        | mallocPage pf pgCnt => exact Iff.rfl
        | access vaddr frame =>
            cases first with
            | access reaches =>
                exact iff_of_true (coherent.access_correct current reaches _) trivial
        | reloadCr3 => exact Iff.rfl
      have next : ∃ b', Coherent b' s'.pages.mem s'.pages.granted s'.pages.threads := by
        rcases first.pages with same | stepped
        · rw [same]
          exact ⟨b, coherent⟩
        · obtain ⟨b', coherent', -⟩ := coherent.step stepped
          exact ⟨b', coherent'⟩
      obtain ⟨b', coherent'⟩ := next
      rw [List.forall_mem_cons, List.forall_mem_cons, sameFirst]
      refine and_congr_right fun untouched => ?_
      exact inductionHypothesis b' coherent' (coherent.tlb_current current first untouched)

end Runs

section FirstPage

variable {s : PageState} {m₁ m₂ : Mem} {tlb tlb' : Tlb} {vaddr pgCnt : UInt32} {slot : Address}

theorem PageState.ownAccess_empty (s : PageState) : s.OwnAccess ∅ :=
  fun _ _ impossible => absurd impossible (Set.notMem_empty _)

theorem TlbStep.take (taken : Memory.mallocPage s.mem .kernel pgCnt.toNat =
    .ok (some vaddr.toNat, m₁)) :
    TlbStep ⟨s, tlb⟩ (.mallocPage .kernel pgCnt)
      ⟨⟨m₁, s.granted ∪ s.mem.pages .kernel (some vaddr.toNat) pgCnt.toNat, s.threads⟩, tlb⟩ := by
  have step : TlbStep ⟨s, tlb⟩ _ ⟨_, tlb ∪ ∅⟩ := .mallocPage s.ownAccess_empty taken
  rwa [Set.union_empty] at step

theorem TlbStep.giveBack (isSlot : slot / pgSize * pgSize = m₁.runningThread)
    (freed : mfreePageTlb slot m₁ tlb .kernel vaddr.toNat pgCnt.toNat = .ok (m₂, tlb')) :
    ∃ s', TlbStep
      ⟨⟨m₁, s.granted ∪ s.mem.pages .kernel (some vaddr.toNat) pgCnt.toNat, s.threads⟩, tlb⟩
      (.mfreePage .kernel vaddr pgCnt) s' ∧ s'.tlb = tlb' :=
  ⟨_, .mfreePage (PageState.ownAccess_empty _) isSlot Set.subset_union_right freed,
    Set.union_empty tlb'⟩

/-- The main thread takes a page of the heap, looks its frame up and gives it back. -/
def firstPageUse : Except Halt (Option Address × Address × Tid) := do
  let (vaddr, m) ← mallocPage (boot powerOn 0x2000000) .kernel 1
  let frame ← m.translate (0xc0100 * pgSize)
  let _ ← mfreePage m .kernel 0xc0100000 1
  return (vaddr, frame, m.runningThread)

theorem firstPage_returns (tlb : Tlb) : ∃ m₁ m₂ tlb',
    mallocPage (boot powerOn 0x2000000) .kernel (1 : UInt32).toNat =
        .ok (some (0xc0100000 : UInt32).toNat, m₁) ∧
      m₁.Maps ((0xc0100000 : UInt32).toNat / pgSize) 0x200000 ∧
      0xc009effc / pgSize * pgSize = m₁.runningThread ∧
      mfreePageTlb 0xc009effc m₁ tlb .kernel (0xc0100000 : UInt32).toNat (1 : UInt32).toNat =
        .ok (m₂, tlb') := by
  have returns : firstPageUse.toOption = some (some 0xc0100000, 0x200000, 0xc009e000) := by
    decide +kernel
  generalize isRun : firstPageUse = run at returns
  cases run with
  | error reason => cases returns
  | ok result =>
      obtain ⟨⟨vaddr, m₁⟩, taken, ran⟩ := except_bind_eq_ok.mp isRun
      obtain ⟨frame, translated, ran⟩ := except_bind_eq_ok.mp ran
      obtain ⟨m₂, freed, ran⟩ := except_bind_eq_ok.mp ran
      cases returns
      simp only [pure_eq_ok, Except.ok.injEq, Prod.mk.injEq] at ran
      obtain ⟨rfl, rfl, running⟩ := ran
      obtain ⟨tlb', freed'⟩ := mfreePageTlb_returns 0xc009effc tlb freed
      exact ⟨m₁, m₂, tlb', taken, translated, running.symm, freed'⟩

end FirstPage

/-- The main thread takes a page, uses it and gives it back. -/
theorem usedPage_stale : ∃ run,
    TlbRun ⟨.boot powerOn 0x2000000, ∅⟩ run ∧ ¬ ∀ step ∈ run, TlbCorrect step := by
  obtain ⟨m₁, m₂, tlb', taken, maps, isSlot, freed⟩ :=
    firstPage_returns (insert ((0xc0100000 : UInt32).toNat / pgSize, 0x200000) ∅)
  obtain ⟨s', release, flushed⟩ := TlbStep.giveBack (s := .boot powerOn 0x2000000) isSlot freed
  refine ⟨_, .cons (.take taken) (.cons (.access (Or.inr maps)) (.cons release .nil)), ?_⟩
  intro correct
  have gone := correct _ (List.mem_cons_of_mem _ (List.mem_cons_of_mem _ List.mem_cons_self))
    0 (by decide) 0x200000
  refine gone ?_
  rw [flushed, (mfreePageTlb_eq_ok freed).2]
  exact ⟨Set.mem_insert _ _, by decide⟩

theorem tlbCorrect_iff_unusedPage : ∃ run,
    TlbRun ⟨.boot powerOn 0x2000000, ∅⟩ run ∧ run ≠ [] ∧ ∀ step ∈ run, TlbCorrect step := by
  obtain ⟨m₁, m₂, tlb', taken, maps, isSlot, freed⟩ := firstPage_returns ∅
  obtain ⟨s', release, -⟩ := TlbStep.giveBack (s := .boot powerOn 0x2000000) isSlot freed
  have ran := TlbRun.cons (.take taken) (.cons release .nil)
  refine ⟨_, ran, List.cons_ne_nil _ _, ?_⟩
  rw [tlbCorrect_iff powerOn 0x2000000 .refl .empty ran]
  intro step isStep
  rcases List.mem_cons.mp isStep with rfl | isStep
  · trivial
  · rcases List.mem_singleton.mp isStep with rfl
    exact fun _ _ _ => Set.notMem_empty _

end HongbaiOS.Memory
