import HongbaiOS.Memory.Locks

/-!
# Requests that cannot be met

The callers of `malloc_page` test its result for `NULL`, and the comment in its loop
promises that everything taken so far is rolled back.  Neither comes to pass: the scan
of a bitmap asserts that it finds something, so a request for pages either succeeds or
stops the kernel.
-/

namespace HongbaiOS.Memory

open HongbaiOS.Library HongbaiOS.Kernel HongbaiOS.Lib HongbaiOS.Thread

/-- A call that asks for pages. -/
inductive PageRequest where
  | mallocPage (pf : PoolFlags) (pgCnt : UInt32)
  | sysMalloc (size : UInt32)

namespace PageRequest

def run (m : Mem) : PageRequest → Except Halt (Option Address × Mem)
  | mallocPage pf pgCnt => Memory.mallocPage m pf pgCnt.toNat
  | sysMalloc size => Memory.sysMalloc m size.toNat

/-- The argument of the `malloc_page` in `sys_malloc(size)`, if it is reached. -/
def wantedPages (m : Mem) (size : Nat) : Option Nat :=
  if size = 0 ∨ (m.pool m.ownFlags).poolSize ≤ size then none
  else if 1024 < size then some (divRoundUp (wrap (size + arenaSize)) pgSize)
  else match findDesc m size with
    | none => none
    | some descIdx => if (m.desc (m.ownDesc descIdx)).freeList = [] then some 1 else none

end PageRequest

/-- `pgCnt` free virtual pages from `bitIdx` on. -/
def FreeRun (m : Mem) (pf : PoolFlags) (pgCnt bitIdx : Nat) : Prop :=
  bitIdx + pgCnt ≤ (m.vaddrPool pf).vaddrBitmap.bitLen ∧
    ∀ j, bitIdx ≤ j → j < bitIdx + pgCnt → (m.vaddrPool pf).vaddrBitmap.bit j = false

/-- The entries of the page directory that a run of pages finds empty. -/
def missingTables (m : Mem) (pf : PoolFlags) (pgCnt bitIdx : Nat) : Finset Nat :=
  ((Finset.range pgCnt).image fun i =>
    pdeIndex (wrap ((m.vaddrPool pf).vaddrStart + (bitIdx + i) * pgSize))).filter
    fun pdeIdx => isPresent (m.words m.cr3 pdeIdx) = false

/-- What keeps `pgCnt` pages from being allocated. -/
inductive Lacks (m : Mem) (pf : PoolFlags) (pgCnt : Nat) : Prop
  | virtualPages (noRun : ∀ bitIdx, ¬ FreeRun m pf pgCnt bitIdx)
  | frames (few : (m.pool pf).poolBitmap.freeCount < pgCnt)
  /-- Kernel frames for the page tables that every free run needs, on top of the frames
  that the pages themselves take from the kernel pool. -/
  | tableFrames (few : ∀ bitIdx, FreeRun m pf pgCnt bitIdx →
      m.kernelPool.poolBitmap.freeCount <
        (missingTables m pf pgCnt bitIdx).card + if pf = .kernel then pgCnt else 0)

inductive CannotBeMet (m : Mem) : PageRequest → Prop
  | pages {pf : PoolFlags} {pgCnt : UInt32} (lacks : Lacks m pf pgCnt.toNat) :
      CannotBeMet m (.mallocPage pf pgCnt)
  | heap {size : UInt32} {pgCnt : Nat} (wanted : PageRequest.wantedPages m size.toNat = some pgCnt)
      (lacks : Lacks m m.ownFlags pgCnt) : CannotBeMet m (.sysMalloc size)
  /-- `malloc_page` accepts fewer than 3840 pages. -/
  | tooLarge {size : UInt32} (pgCnt : Nat)
      (wanted : PageRequest.wantedPages m size.toNat = some pgCnt)
      (many : 3840 ≤ pgCnt) : CannotBeMet m (.sysMalloc size)

structure SameMaps (m m' : Mem) : Prop where
  virtualPages : ∀ pf, (m'.vaddrPool pf).vaddrBitmap = (m.vaddrPool pf).vaddrBitmap
  frames : ∀ pf, (m'.pool pf).poolBitmap = (m.pool pf).poolBitmap
  tables : m'.words = m.words

/-- `NULL` is returned and nothing has changed. -/
def Refused (m : Mem) (request : PageRequest) : Prop :=
  ∃ m', request.run m = .ok (none, m') ∧ SameMaps m m'

section

variable {m m' : Mem} {pf : PoolFlags} {pgCnt : Nat} {vaddr phyaddr : Address}
  {result : Option Address}

theorem pageTableAdd_freeCount_le (added : pageTableAdd m vaddr phyaddr = .ok m') :
    (m'.pool pf).poolBitmap.freeCount ≤ (m.pool pf).poolBitmap.freeCount := by
  have kept : ∀ {m m' : Mem}, setPte m vaddr phyaddr = .ok m' → m'.pool = m.pool := by
    intro m m' stored
    obtain ⟨-, rfl⟩ := setPte_eq_ok.mp stored
    rfl
  rcases pageTableAdd_eq_ok added with ⟨-, stored⟩ | ⟨-, bitIdx, inside, free, stored⟩
  · rw [kept stored]
  · rw [kept stored]
    have less := Bitmap.freeCount_put_true inside free
    cases pf with
    | kernel =>
        change (m.kernelPool.poolBitmap.put bitIdx true).freeCount ≤
          m.kernelPool.poolBitmap.freeCount
        omega
    | user => exact le_refl _

/-- Every page takes a frame. -/
theorem mapPages_freeCount {mapped : Bool} (ran : mapPages pf pgCnt vaddr m = .ok (mapped, m')) :
    pgCnt ≤ (m.pool pf).poolBitmap.freeCount := by
  induction pgCnt generalizing vaddr m with
  | zero => exact Nat.zero_le _
  | succ pgCnt inductionHypothesis =>
      obtain ⟨bitIdx, inside, free, next, added, ran⟩ := mapPages_succ_eq_ok ran
      have less := Bitmap.freeCount_put_true inside free
      have rest := (inductionHypothesis ran).trans (pageTableAdd_freeCount_le added)
      have taken : ((m.setPoolBitmap pf ((m.pool pf).poolBitmap.put bitIdx true)).pool
          pf).poolBitmap = (m.pool pf).poolBitmap.put bitIdx true := by
        cases pf <;> rfl
      rw [taken] at rest
      omega

theorem mallocPage_supplied (ran : mallocPage m pf pgCnt = .ok (result, m')) :
    pgCnt < 3840 ∧ (∃ bitIdx, FreeRun m pf pgCnt bitIdx) ∧
      pgCnt ≤ (m.pool pf).poolBitmap.freeCount := by
  obtain ⟨-, few, bitIdx, btmp, taken, -, mapped⟩ := mallocPage_eq_ok ran
  refine ⟨few, ⟨bitIdx, taken.fits, taken.free⟩, ?_⟩
  have enough := mapPages_freeCount mapped
  have same : (m.setVaddrBitmap pf btmp).pool = m.pool := by
    cases pf <;> rfl
  rwa [same] at enough

theorem mallocPage_ne_null : mallocPage m pf pgCnt ≠ .ok (none, m') := by
  intro ran
  obtain ⟨-, -, bitIdx, btmp, -, null, -⟩ := mallocPage_eq_ok ran
  cases null

theorem wantedPages_positive {size : Nat} (wanted : PageRequest.wantedPages m size = some pgCnt) :
    0 < size ∧ size < (m.pool m.ownFlags).poolSize := by
  unfold PageRequest.wantedPages at wanted
  split at wanted
  next => cases wanted
  next inRange => omega

theorem sysMalloc_ne_null {size : Nat} (positive : 0 < size)
    (below : size < (m.pool m.ownFlags).poolSize) : sysMalloc m size ≠ .ok (none, m') := by
  intro ran
  rcases sysMalloc_eq_ok ran with ⟨rejected, -, -⟩ | ⟨-, held, -, ⟨-, large⟩ | ⟨-, small⟩⟩
  · exact rejected ⟨positive, below⟩
  · obtain ⟨⟨start, mapped⟩, allocated, ran⟩ := except_bind_eq_ok.mp large
    cases start with
    | none => exact mallocPage_ne_null allocated
    | some start =>
        obtain ⟨cleared, -, ran⟩ := except_bind_eq_ok.mp ran
        obtain ⟨headed, -, ran⟩ := except_bind_eq_ok.mp ran
        cases ran
  · obtain ⟨_, _, _, _, -, -, -, null, -⟩ := mallocSmall_eq_ok small
    cases null

end

/-- Sixteen megabytes fit into the kernel pool of a machine with 512 of them, and need
4097 pages. -/
theorem sixteenMegabytes_cannotBeMet :
    CannotBeMet (boot powerOn 0x20000000) (.sysMalloc 0x1000000) :=
  .tooLarge 4097 (by decide +kernel) (by decide)

/-- No request that cannot be met is refused. -/
theorem not_refused (m : Mem) (request : PageRequest) (unmet : CannotBeMet m request) :
    ¬ Refused m request := by
  rintro ⟨m', ran, -⟩
  cases unmet with
  | pages lacks => exact mallocPage_ne_null ran
  | heap wanted lacks =>
      obtain ⟨positive, below⟩ := wantedPages_positive wanted
      exact sysMalloc_ne_null positive below ran
  | tooLarge pgCnt wanted many =>
      obtain ⟨positive, below⟩ := wantedPages_positive wanted
      exact sysMalloc_ne_null positive below ran

theorem not_refused_boot : ¬ Refused (boot powerOn 0x20000000) (.sysMalloc 0x1000000) :=
  not_refused _ _ sixteenMegabytes_cannotBeMet

/-- The main thread asks for them right after boot and an assertion fails. -/
theorem sixteenMegabytes_stop :
    ¬ (∀ m request, CannotBeMet m request → Refused m request) ∧
      PageRequest.run (boot powerOn 0x20000000) (.sysMalloc 0x1000000) =
        .error (.panic .mallocPage) := by
  have stops : PageRequest.run (boot powerOn 0x20000000) (.sysMalloc 0x1000000) =
      .error (.panic .mallocPage) := by
    have failed : (PageRequest.run (boot powerOn 0x20000000) (.sysMalloc 0x1000000)).map
        (fun _ => ()) = .error (.panic .mallocPage) := by decide +kernel
    cases ran : PageRequest.run (boot powerOn 0x20000000) (.sysMalloc 0x1000000) with
    | error reason =>
        rw [ran] at failed
        exact congrArg Except.error (Except.error.inj failed)
    | ok after =>
        rw [ran] at failed
        cases failed
  refine ⟨fun refused => ?_, stops⟩
  obtain ⟨m', ran, -⟩ := refused _ _ sixteenMegabytes_cannotBeMet
  rw [stops] at ran
  cases ran

end HongbaiOS.Memory
