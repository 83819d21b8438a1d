import HongbaiOS.Memory.Heap

/-!
# What a page operation can do

One inversion lemma for each function of `Paging.lean`: what a returning call has
done, and why a call can fail to return.  `PageFrame` is what all of them leave
alone.
-/

namespace HongbaiOS.Memory

open HongbaiOS.Library HongbaiOS.Kernel HongbaiOS.Lib HongbaiOS.Thread

/-- The members that are set once and never changed by an allocation or a release. -/
structure Fixed where
  runningThread : Tid
  cr3 : Address
  phyAddrStart : PoolFlags → Address
  poolSize : PoolFlags → Nat
  poolLen : PoolFlags → Nat
  kernelVaddrStart : Address
  kernelVaddrLen : Nat
  vaddrStart : Tid → Address
  vaddrLen : Tid → Nat
  pgdir : Tid → Option Address
  blockSize : DescRef → Nat
  blockPerArena : DescRef → Nat

namespace Mem

def fixed (m : Mem) : Fixed where
  runningThread := m.runningThread
  cr3 := m.cr3
  phyAddrStart := fun pf => (m.pool pf).phyAddrStart
  poolSize := fun pf => (m.pool pf).poolSize
  poolLen := fun pf => (m.pool pf).poolBitmap.btmpBytesLen
  kernelVaddrStart := m.kernelVaddr.vaddrStart
  kernelVaddrLen := m.kernelVaddr.vaddrBitmap.btmpBytesLen
  vaddrStart := fun t => (m.task t).userprogVaddr.vaddrStart
  vaddrLen := fun t => (m.task t).userprogVaddr.vaddrBitmap.btmpBytesLen
  pgdir := fun t => (m.task t).pgdir
  blockSize := fun ref => (m.desc ref).blockSize
  blockPerArena := fun ref => (m.desc ref).blockPerArena

def locks (m : Mem) : PoolFlags → Lock := fun pf => (m.pool pf).lock

end Mem

/-- No page operation touches these. -/
structure PageFrame (m m' : Mem) : Prop where
  fixed : m'.fixed = m.fixed
  locks : m'.locks = m.locks
  desc : m'.desc = m.desc

namespace PageFrame

variable {m m' m'' : Mem}

theorem refl (m : Mem) : PageFrame m m := ⟨rfl, rfl, rfl⟩

theorem trans (first : PageFrame m m') (second : PageFrame m' m'') : PageFrame m m'' :=
  ⟨second.fixed.trans first.fixed, second.locks.trans first.locks,
    second.desc.trans first.desc⟩

theorem setWord (m : Mem) (frame : Address) (idx : Nat) (word : UInt32) :
    PageFrame m (m.setWord frame idx word) := ⟨rfl, rfl, rfl⟩

theorem clearFrame (m : Mem) (frame : Address) : PageFrame m (m.clearFrame frame) :=
  ⟨rfl, rfl, rfl⟩

theorem setPoolBitmap (m : Mem) (pf : PoolFlags) {btmp : Bitmap}
    (sameLen : btmp.btmpBytesLen = (m.pool pf).poolBitmap.btmpBytesLen) :
    PageFrame m (m.setPoolBitmap pf btmp) := by
  have pools : ∀ pf', ((m.setPoolBitmap pf btmp).pool pf').phyAddrStart =
        (m.pool pf').phyAddrStart ∧
      ((m.setPoolBitmap pf btmp).pool pf').poolSize = (m.pool pf').poolSize ∧
      ((m.setPoolBitmap pf btmp).pool pf').poolBitmap.btmpBytesLen =
        (m.pool pf').poolBitmap.btmpBytesLen ∧
      ((m.setPoolBitmap pf btmp).pool pf').lock = (m.pool pf').lock := by
    intro pf'
    cases pf <;> cases pf' <;> first | exact ⟨rfl, rfl, rfl, rfl⟩ | exact ⟨rfl, rfl, sameLen, rfl⟩
  have rest : (m.setPoolBitmap pf btmp).task = m.task ∧
      (m.setPoolBitmap pf btmp).kBlockDescs = m.kBlockDescs ∧
      (m.setPoolBitmap pf btmp).kernelVaddr = m.kernelVaddr ∧
      (m.setPoolBitmap pf btmp).runningThread = m.runningThread ∧
      (m.setPoolBitmap pf btmp).cr3 = m.cr3 := by
    cases pf <;> exact ⟨rfl, rfl, rfl, rfl, rfl⟩
  obtain ⟨task, descs, kernelVaddr, running, cr3⟩ := rest
  have sameDesc : (m.setPoolBitmap pf btmp).desc = m.desc := by
    funext ref
    cases ref <;> simp only [Mem.desc, task, descs]
  refine ⟨?_, ?_, sameDesc⟩
  · simp only [Mem.fixed, pools, sameDesc, task, kernelVaddr, running, cr3]
  · funext pf'
    exact (pools pf').2.2.2

theorem setVaddrBitmap (m : Mem) (pf : PoolFlags) {btmp : Bitmap}
    (sameLen : btmp.btmpBytesLen = (m.vaddrPool pf).vaddrBitmap.btmpBytesLen) :
    PageFrame m (m.setVaddrBitmap pf btmp) := by
  cases pf with
  | kernel =>
      refine ⟨?_, rfl, rfl⟩
      change { m.fixed with kernelVaddrLen := btmp.btmpBytesLen } = m.fixed
      rw [sameLen]
      rfl
  | user =>
      have tasks : ∀ t, ((m.setVaddrBitmap .user btmp).task t).pgdir = (m.task t).pgdir ∧
          ((m.setVaddrBitmap .user btmp).task t).userprogVaddr.vaddrStart =
            (m.task t).userprogVaddr.vaddrStart ∧
          ((m.setVaddrBitmap .user btmp).task t).userprogVaddr.vaddrBitmap.btmpBytesLen =
            (m.task t).userprogVaddr.vaddrBitmap.btmpBytesLen ∧
          ((m.setVaddrBitmap .user btmp).task t).uBlockDesc = (m.task t).uBlockDesc := by
        intro t
        by_cases same : t = m.runningThread
        · subst same
          simp only [Mem.setVaddrBitmap, Mem.setTask, Function.update_self]
          exact ⟨trivial, trivial, sameLen, trivial⟩
        · simp only [Mem.setVaddrBitmap, Mem.setTask, Function.update_of_ne same]
          exact ⟨trivial, trivial, trivial, trivial⟩
      have sameDesc : (m.setVaddrBitmap .user btmp).desc = m.desc := by
        funext ref
        cases ref with
        | kernel descIdx => rfl
        | user t descIdx => simp only [Mem.desc, tasks]
      refine ⟨?_, rfl, sameDesc⟩
      simp only [Mem.fixed, tasks, sameDesc]
      rfl

end PageFrame

section BitmapSetRun

variable {value : Bool} {left bitIdx : Nat} {btmp btmp' : Bitmap}

theorem bitmapSetRun_eq_ok (ran : bitmapSetRun value left bitIdx btmp = .ok btmp') :
    btmp'.btmpBytesLen = btmp.btmpBytesLen ∧ (0 < left → bitIdx + left ≤ btmp.bitLen) ∧
      ∀ j, btmp'.bit j = if bitIdx ≤ j ∧ j < bitIdx + left then value else btmp.bit j := by
  induction left generalizing bitIdx btmp with
  | zero =>
      cases ran
      refine ⟨rfl, fun impossible => absurd impossible (lt_irrefl 0), fun j => ?_⟩
      rw [if_neg (by omega)]
  | succ left inductionHypothesis =>
      obtain ⟨first, set, rest⟩ := except_bind_eq_ok.mp ran
      obtain ⟨inside, rfl⟩ := bitmapSet_eq_ok.mp set
      obtain ⟨sameLen, fits, bits⟩ := inductionHypothesis rest
      refine ⟨sameLen, fun _ => ?_, fun j => ?_⟩
      · rcases Nat.eq_zero_or_pos left with rfl | more
        · omega
        · have bound := fits more
          rw [Bitmap.put_bitLen] at bound
          omega
      · rw [bits j, Bitmap.bit_put]
        by_cases first : j = bitIdx
        · rw [if_neg (by omega), if_pos first, if_pos (by omega)]
        · rw [if_neg first]
          by_cases later : bitIdx + 1 ≤ j ∧ j < bitIdx + 1 + left
          · rw [if_pos later, if_pos (by omega)]
          · rw [if_neg later, if_neg (by omega)]

end BitmapSetRun

section Inversion

variable {m m' : Mem} {pf : PoolFlags} {pgCnt : Nat} {vaddr phyaddr : Address}
  {result : Option Address} {reason : Halt}

/-- The page run that a successful `vaddr_get` takes. -/
structure VaddrTaken (m : Mem) (pf : PoolFlags) (pgCnt bitIdx : Nat) (btmp : Bitmap) :
    Prop where
  fits : bitIdx + pgCnt ≤ (m.vaddrPool pf).vaddrBitmap.bitLen
  free : ∀ j, bitIdx ≤ j → j < bitIdx + pgCnt → (m.vaddrPool pf).vaddrBitmap.bit j = false
  sameLen : btmp.btmpBytesLen = (m.vaddrPool pf).vaddrBitmap.btmpBytesLen
  bits : ∀ j, btmp.bit j = if bitIdx ≤ j ∧ j < bitIdx + pgCnt then true
    else (m.vaddrPool pf).vaddrBitmap.bit j
  below : pf = .user → wrap ((m.vaddrPool pf).vaddrStart + bitIdx * pgSize) < 0xc0000000 - pgSize

theorem vaddrGet_eq_ok (positive : 0 < pgCnt) (ran : vaddrGet m pf pgCnt = .ok (result, m')) :
    ∃ bitIdx btmp, VaddrTaken m pf pgCnt bitIdx btmp ∧
      result = some (wrap ((m.vaddrPool pf).vaddrStart + bitIdx * pgSize)) ∧
      m' = m.setVaddrBitmap pf btmp := by
  obtain ⟨scanned, scan, ran⟩ := except_bind_eq_ok.mp ran
  cases scanned with
  | none => exact absurd scan (bitmapScan_asserts_ne_none _ _)
  | some bitIdx =>
      obtain ⟨fits, free⟩ := bitmapScan_eq_some positive scan
      obtain ⟨btmp, set, ran⟩ := except_bind_eq_ok.mp ran
      obtain ⟨_, below, ran⟩ := except_bind_eq_ok.mp ran
      obtain ⟨sameLen, -, bits⟩ := bitmapSetRun_eq_ok set
      simp only [check_eq_ok, decide_eq_true_eq] at below
      simp only [pure_eq_ok, Except.ok.injEq, Prod.mk.injEq] at ran
      refine ⟨bitIdx, btmp, ⟨fits, free, sameLen, bits, fun user => ?_⟩, ran.1.symm, ran.2.symm⟩
      rcases below with kernel | below
      · rw [user] at kernel
        cases kernel
      · exact below

theorem palloc_eq_ok (ran : palloc m pf = .ok (result, m')) :
    ∃ bitIdx < (m.pool pf).poolBitmap.bitLen, (m.pool pf).poolBitmap.bit bitIdx = false ∧
      result = some (wrap ((m.pool pf).phyAddrStart + bitIdx * pgSize)) ∧
      m' = m.setPoolBitmap pf ((m.pool pf).poolBitmap.put bitIdx true) := by
  obtain ⟨scanned, scan, ran⟩ := except_bind_eq_ok.mp ran
  cases scanned with
  | none => exact absurd scan (bitmapScan_asserts_ne_none _ _)
  | some bitIdx =>
      obtain ⟨inside, free⟩ := bitmapScan_eq_some Nat.one_pos scan
      obtain ⟨btmp, set, ran⟩ := except_bind_eq_ok.mp ran
      obtain ⟨-, rfl⟩ := bitmapSet_eq_ok.mp set
      simp only [pure_eq_ok, Except.ok.injEq, Prod.mk.injEq] at ran
      exact ⟨bitIdx, by omega, free bitIdx (le_refl _) (by omega), ran.1.symm, ran.2.symm⟩

theorem setPte_eq_ok : setPte m vaddr phyaddr = .ok m' ↔
    isPresent (m.words (m.pteTable vaddr) (pteIndex vaddr)) = false ∧
      m' = m.setWord (m.pteTable vaddr) (pteIndex vaddr) (pageEntry phyaddr) := by
  constructor
  · intro ran
    obtain ⟨_, absent, result⟩ := except_bind_eq_ok.mp ran
    simp only [check_eq_ok, Bool.not_eq_true'] at absent
    exact ⟨absent, (Except.ok.inj result).symm⟩
  · rintro ⟨absent, rfl⟩
    rw [setPte, absent]
    rfl

/-- The state in which a missing page table has been put into the directory. -/
def Mem.withTable (m : Mem) (vaddr table : Address) : Mem :=
  let linked := m.setWord m.cr3 (pdeIndex vaddr) (pageEntry table)
  linked.clearFrame (linked.pteTable vaddr)

theorem pageTableAdd_eq_ok (ran : pageTableAdd m vaddr phyaddr = .ok m') :
    isPresent (m.pde vaddr) = true ∧ setPte m vaddr phyaddr = .ok m' ∨
      isPresent (m.pde vaddr) = false ∧
      ∃ bitIdx < m.kernelPool.poolBitmap.bitLen, m.kernelPool.poolBitmap.bit bitIdx = false ∧
        setPte ((m.setPoolBitmap .kernel (m.kernelPool.poolBitmap.put bitIdx true)).withTable
          vaddr (wrap (m.kernelPool.phyAddrStart + bitIdx * pgSize))) vaddr phyaddr = .ok m' := by
  unfold pageTableAdd at ran
  split at ran
  next there => exact Or.inl ⟨there, ran⟩
  next missing =>
    obtain ⟨⟨table, taken⟩, allocated, ran⟩ := except_bind_eq_ok.mp ran
    obtain ⟨bitIdx, inside, free, rfl, rfl⟩ := palloc_eq_ok allocated
    exact Or.inr ⟨by simpa using missing, bitIdx, inside, free, ran⟩

theorem mapPages_succ_eq_ok {cnt : Nat} {mapped : Bool}
    (ran : mapPages pf (cnt + 1) vaddr m = .ok (mapped, m')) :
    ∃ bitIdx < (m.pool pf).poolBitmap.bitLen, (m.pool pf).poolBitmap.bit bitIdx = false ∧
      ∃ next, pageTableAdd (m.setPoolBitmap pf ((m.pool pf).poolBitmap.put bitIdx true)) vaddr
          (wrap ((m.pool pf).phyAddrStart + bitIdx * pgSize)) = .ok next ∧
        mapPages pf cnt (wrap (vaddr + pgSize)) next = .ok (mapped, m') := by
  obtain ⟨⟨page, taken⟩, allocated, ran⟩ := except_bind_eq_ok.mp ran
  obtain ⟨bitIdx, inside, free, rfl, rfl⟩ := palloc_eq_ok allocated
  obtain ⟨next, added, ran⟩ := except_bind_eq_ok.mp ran
  exact ⟨bitIdx, inside, free, next, added, ran⟩

/-- The return of `NULL` inside the loop is never reached. -/
theorem mapPages_true {cnt : Nat} {mapped : Bool}
    (ran : mapPages pf cnt vaddr m = .ok (mapped, m')) : mapped = true := by
  induction cnt generalizing vaddr m with
  | zero =>
      simp only [mapPages, Except.ok.injEq, Prod.mk.injEq] at ran
      exact ran.1.symm
  | succ cnt inductionHypothesis =>
      obtain ⟨_, -, -, next, -, ran⟩ := mapPages_succ_eq_ok ran
      exact inductionHypothesis ran

theorem mallocPage_eq_ok (ran : mallocPage m pf pgCnt = .ok (result, m')) :
    0 < pgCnt ∧ pgCnt < 3840 ∧ ∃ bitIdx btmp, VaddrTaken m pf pgCnt bitIdx btmp ∧
      result = some (wrap ((m.vaddrPool pf).vaddrStart + bitIdx * pgSize)) ∧
      mapPages pf pgCnt (wrap ((m.vaddrPool pf).vaddrStart + bitIdx * pgSize))
        (m.setVaddrBitmap pf btmp) = .ok (true, m') := by
  obtain ⟨_, bounds, ran⟩ := except_bind_eq_ok.mp ran
  simp only [check_eq_ok, decide_eq_true_eq] at bounds
  obtain ⟨⟨start, taken⟩, got, ran⟩ := except_bind_eq_ok.mp ran
  obtain ⟨bitIdx, btmp, isTaken, rfl, rfl⟩ := vaddrGet_eq_ok bounds.1 got
  obtain ⟨⟨mapped, last⟩, mapRan, result⟩ := except_bind_eq_ok.mp ran
  obtain rfl := mapPages_true mapRan
  simp only [if_true, pure_eq_ok, Except.ok.injEq, Prod.mk.injEq] at result
  obtain ⟨rfl, rfl⟩ := result
  exact ⟨bounds.1, bounds.2, bitIdx, btmp, isTaken, rfl, mapRan⟩

theorem setPte_frame (ran : setPte m vaddr phyaddr = .ok m') : PageFrame m m' := by
  obtain ⟨-, rfl⟩ := setPte_eq_ok.mp ran
  exact PageFrame.setWord _ _ _ _

theorem withTable_frame (m : Mem) (vaddr table : Address) :
    PageFrame m (m.withTable vaddr table) :=
  (PageFrame.setWord m _ _ _).trans (PageFrame.clearFrame _ _)

theorem pageTableAdd_frame (ran : pageTableAdd m vaddr phyaddr = .ok m') : PageFrame m m' := by
  rcases pageTableAdd_eq_ok ran with ⟨-, added⟩ | ⟨-, bitIdx, -, -, added⟩
  · exact setPte_frame added
  · have taken : PageFrame m
        (m.setPoolBitmap .kernel (m.kernelPool.poolBitmap.put bitIdx true)) :=
      PageFrame.setPoolBitmap m .kernel (Bitmap.put_btmpBytesLen bitIdx true)
    exact (taken.trans (withTable_frame _ _ _)).trans (setPte_frame added)

theorem mapPages_frame {cnt : Nat} {mapped : Bool}
    (ran : mapPages pf cnt vaddr m = .ok (mapped, m')) : PageFrame m m' := by
  induction cnt generalizing vaddr m with
  | zero =>
      simp only [mapPages, Except.ok.injEq, Prod.mk.injEq] at ran
      rw [ran.2]
      exact PageFrame.refl m'
  | succ cnt inductionHypothesis =>
      obtain ⟨bitIdx, -, -, next, added, ran⟩ := mapPages_succ_eq_ok ran
      have taken := PageFrame.setPoolBitmap m pf (Bitmap.put_btmpBytesLen bitIdx true)
      exact (taken.trans (pageTableAdd_frame added)).trans (inductionHypothesis ran)

theorem mallocPage_frame (ran : mallocPage m pf pgCnt = .ok (result, m')) :
    PageFrame m m' := by
  obtain ⟨-, -, bitIdx, btmp, taken, -, mapped⟩ := mallocPage_eq_ok ran
  exact (PageFrame.setVaddrBitmap m pf taken.sameLen).trans (mapPages_frame mapped)

theorem memsetPages_frame {cnt : Nat} (ran : memsetPages cnt vaddr m = .ok m') :
    PageFrame m m' := by
  induction cnt generalizing vaddr m with
  | zero =>
      cases ran
      exact PageFrame.refl _
  | succ cnt inductionHypothesis =>
      obtain ⟨frame, -, ran⟩ := except_bind_eq_ok.mp ran
      exact (PageFrame.clearFrame m frame).trans (inductionHypothesis ran)

theorem pfree_frame (ran : pfree m phyaddr = .ok m') : PageFrame m m' := by
  obtain ⟨btmp, set, result⟩ := except_bind_eq_ok.mp ran
  obtain ⟨-, rfl⟩ := bitmapSet_eq_ok.mp set
  rw [← Except.ok.inj result]
  exact PageFrame.setPoolBitmap m _ (Bitmap.put_btmpBytesLen _ false)

theorem pageTablePteRemove_frame (ran : pageTablePteRemove m vaddr = .ok m') :
    PageFrame m m' := by
  obtain ⟨pte, -, result⟩ := except_bind_eq_ok.mp ran
  rw [← Except.ok.inj result]
  exact PageFrame.setWord m _ _ _

theorem freePages_frame {inPool : Address → Bool} {cnt : Nat}
    (ran : freePages inPool cnt vaddr m = .ok m') : PageFrame m m' := by
  induction cnt generalizing vaddr m with
  | zero =>
      cases ran
      exact PageFrame.refl _
  | succ cnt inductionHypothesis =>
      obtain ⟨phyaddr, -, ran⟩ := except_bind_eq_ok.mp ran
      obtain ⟨_, -, ran⟩ := except_bind_eq_ok.mp ran
      obtain ⟨freed, free, ran⟩ := except_bind_eq_ok.mp ran
      obtain ⟨removed, remove, ran⟩ := except_bind_eq_ok.mp ran
      exact ((pfree_frame free).trans (pageTablePteRemove_frame remove)).trans
        (inductionHypothesis ran)

theorem vaddrRemove_frame (ran : vaddrRemove m pf vaddr pgCnt = .ok m') : PageFrame m m' := by
  obtain ⟨btmp, set, result⟩ := except_bind_eq_ok.mp ran
  rw [← Except.ok.inj result]
  exact PageFrame.setVaddrBitmap m pf (bitmapSetRun_eq_ok set).1

/-- A returning `mfree_page` has unmapped the pages in one of its two loops, and cleared
their bits then. -/
theorem mfreePage_eq_ok (ran : mfreePage m pf vaddr pgCnt = .ok m') :
    (1 ≤ pgCnt ∧ vaddr % pgSize = 0) ∧ ∃ inPool unmapped,
      freePages inPool pgCnt vaddr m = .ok unmapped ∧
      vaddrRemove unmapped pf vaddr pgCnt = .ok m' := by
  obtain ⟨_, bounds, ran⟩ := except_bind_eq_ok.mp ran
  simp only [check_eq_ok, decide_eq_true_eq] at bounds
  refine ⟨bounds, ?_⟩
  obtain ⟨phyaddr, -, ran⟩ := except_bind_eq_ok.mp ran
  obtain ⟨_, -, ran⟩ := except_bind_eq_ok.mp ran
  dsimp only at ran
  split at ran
  next =>
    obtain ⟨unmapped, freed, ran⟩ := except_bind_eq_ok.mp ran
    exact ⟨_, unmapped, freed, ran⟩
  next =>
    obtain ⟨unmapped, freed, ran⟩ := except_bind_eq_ok.mp ran
    exact ⟨_, unmapped, freed, ran⟩

theorem mfreePage_frame (ran : mfreePage m pf vaddr pgCnt = .ok m') : PageFrame m m' := by
  obtain ⟨-, inPool, unmapped, freed, removed⟩ := mfreePage_eq_ok ran
  exact (freePages_frame freed).trans (vaddrRemove_frame removed)

end Inversion

end HongbaiOS.Memory
