import HongbaiOS.Memory.Boot
import HongbaiOS.Memory.PageSteps

/-!
# Who holds the pools' locks after a call

Each of `sys_malloc`, `sys_free`, `get_user_page` and `get_a_page` takes the lock
of one pool.  All of them give it back before they return, except `sys_malloc` for
a request that is served by whole pages.
-/

namespace HongbaiOS.Memory

open HongbaiOS.Library HongbaiOS.Kernel HongbaiOS.Lib HongbaiOS.Thread

/-- What no operation of the heap touches. -/
structure HeapFrame (m m' : Mem) : Prop where
  fixed : m'.fixed = m.fixed
  locks : m'.locks = m.locks

section

variable {m m' m'' : Mem} {ref : DescRef} {a b : Address}

theorem PageFrame.heap (frame : PageFrame m m') : HeapFrame m m' := ⟨frame.fixed, frame.locks⟩

theorem HeapFrame.refl (m : Mem) : HeapFrame m m := ⟨rfl, rfl⟩

theorem HeapFrame.trans (first : HeapFrame m m') (second : HeapFrame m' m'') :
    HeapFrame m m'' :=
  ⟨second.fixed.trans first.fixed, second.locks.trans first.locks⟩

theorem pgdir_congr (same : m'.fixed = m.fixed) : m'.pgdir = m.pgdir := by
  have running := congrArg Fixed.runningThread same
  have pgdirs := congrArg Fixed.pgdir same
  simp only [Mem.fixed] at running pgdirs
  rw [Mem.pgdir, Mem.pgdir, running]
  exact congrFun pgdirs m.runningThread

theorem ownFlags_congr (same : m'.fixed = m.fixed) : m'.ownFlags = m.ownFlags := by
  rw [Mem.ownFlags, Mem.ownFlags, pgdir_congr same]

@[simp]
theorem Mem.desc_setFreeList (m : Mem) (ref : DescRef) (list : List Address) (ref' : DescRef) :
    (m.setFreeList ref list).desc ref' =
      if ref' = ref then { m.desc ref with freeList := list } else m.desc ref' := by
  split
  next same =>
    subst same
    cases ref' with
    | kernel descIdx => simp [Mem.setFreeList, Mem.desc]
    | user t descIdx => simp [Mem.setFreeList, Mem.desc, Mem.setTask]
  next different =>
    cases ref with
    | kernel descIdx =>
        cases ref' with
        | kernel descIdx' =>
            have other : descIdx' ≠ descIdx := fun same => different (same ▸ rfl)
            simp [Mem.setFreeList, Mem.desc, Function.update_of_ne other]
        | user t descIdx' => rfl
    | user t descIdx =>
        cases ref' with
        | kernel descIdx' => rfl
        | user t' descIdx' =>
            by_cases sameTask : t' = t
            · subst sameTask
              have other : descIdx' ≠ descIdx := fun same => different (same ▸ rfl)
              simp [Mem.setFreeList, Mem.desc, Mem.setTask, Function.update_of_ne other]
            · simp [Mem.setFreeList, Mem.desc, Mem.setTask, Function.update_of_ne sameTask]

theorem setFreeList_frame (m : Mem) (ref : DescRef) (list : List Address) :
    HeapFrame m (m.setFreeList ref list) := by
  have sizes : ∀ ref', ((m.setFreeList ref list).desc ref').blockSize = (m.desc ref').blockSize ∧
      ((m.setFreeList ref list).desc ref').blockPerArena = (m.desc ref').blockPerArena := by
    intro ref'
    rw [Mem.desc_setFreeList]
    split
    next same =>
      subst same
      exact ⟨rfl, rfl⟩
    next => exact ⟨rfl, rfl⟩
  have tasks : ∀ t, ((m.setFreeList ref list).task t).pgdir = (m.task t).pgdir ∧
      ((m.setFreeList ref list).task t).userprogVaddr = (m.task t).userprogVaddr := by
    intro t
    cases ref with
    | kernel descIdx => exact ⟨rfl, rfl⟩
    | user owner descIdx =>
        by_cases same : t = owner
        · subst same
          simp [Mem.setFreeList, Mem.setTask]
        · simp [Mem.setFreeList, Mem.setTask, Function.update_of_ne same]
  have rest : (m.setFreeList ref list).pool = m.pool ∧
      (m.setFreeList ref list).kernelVaddr = m.kernelVaddr ∧
      (m.setFreeList ref list).runningThread = m.runningThread ∧
      (m.setFreeList ref list).cr3 = m.cr3 := by
    cases ref <;> exact ⟨rfl, rfl, rfl, rfl⟩
  obtain ⟨pool, kernelVaddr, running, cr3⟩ := rest
  constructor
  · simp only [Mem.fixed, sizes, tasks, pool, kernelVaddr, running, cr3]
  · change (fun pf => ((m.setFreeList ref list).pool pf).lock) = _
    rw [pool]
    rfl

theorem writeArena_frame {ar : Arena} (ran : m.writeArena a ar = .ok m') : PageFrame m m' := by
  obtain ⟨frame, -, result⟩ := except_bind_eq_ok.mp ran
  rw [← Except.ok.inj result]
  exact ⟨rfl, rfl, rfl⟩

theorem appendBlocks_frame {left blockIdx : Nat}
    (ran : appendBlocks ref a left blockIdx m = .ok m') : HeapFrame m m' := by
  induction left generalizing blockIdx m with
  | zero =>
      cases ran
      exact HeapFrame.refl _
  | succ left inductionHypothesis =>
      obtain ⟨_, -, ran⟩ := except_bind_eq_ok.mp ran
      exact (setFreeList_frame m ref _).trans (inductionHypothesis ran)

theorem removeBlocks_frame {left blockIdx : Nat}
    (ran : removeBlocks ref a left blockIdx m = .ok m') : HeapFrame m m' := by
  induction left generalizing blockIdx m with
  | zero =>
      cases ran
      exact HeapFrame.refl _
  | succ left inductionHypothesis =>
      obtain ⟨_, -, ran⟩ := except_bind_eq_ok.mp ran
      exact (setFreeList_frame m ref _).trans (inductionHypothesis ran)

theorem newArena_eq_ok {supplied : Bool} (ran : newArena m ref = .ok (supplied, m')) :
    supplied = true ∧ ∃ start mapped cleared headed,
      mallocPage m m.ownFlags 1 = .ok (some start, mapped) ∧
      memsetPages 1 start mapped = .ok cleared ∧
      cleared.writeArena start
        ⟨some ref, false, UInt32.ofNat (cleared.desc ref).blockPerArena⟩ = .ok headed ∧
      appendBlocks ref start (cleared.desc ref).blockPerArena 0 headed = .ok m' := by
  obtain ⟨⟨got, mapped⟩, allocated, ran⟩ := except_bind_eq_ok.mp ran
  obtain ⟨-, -, bitIdx, btmp, -, rfl, -⟩ := mallocPage_eq_ok allocated
  obtain ⟨cleared, clear, ran⟩ := except_bind_eq_ok.mp ran
  obtain ⟨headed, write, ran⟩ := except_bind_eq_ok.mp ran
  obtain ⟨last, append, result⟩ := except_bind_eq_ok.mp ran
  simp only [pure_eq_ok, Except.ok.injEq, Prod.mk.injEq] at result
  obtain ⟨rfl, rfl⟩ := result
  exact ⟨rfl, _, mapped, cleared, headed, allocated, clear, write, append⟩

theorem newArena_frame {supplied : Bool} (ran : newArena m ref = .ok (supplied, m')) :
    HeapFrame m m' := by
  obtain ⟨-, start, mapped, cleared, headed, allocated, clear, write, append⟩ := newArena_eq_ok ran
  exact (((mallocPage_frame allocated).trans (memsetPages_frame clear)).trans
    (writeArena_frame write)).heap.trans (appendBlocks_frame append)

theorem popBlock_eq_ok (ran : popBlock m ref = .ok (b, m')) :
    ∃ rest ar, (m.desc ref).freeList = b :: rest ∧
      (m.setFreeList ref rest).readArena (block2arena b) = .ok ar ∧
      (m.setFreeList ref rest).writeArena (block2arena b) { ar with cnt := ar.cnt - 1 } =
        .ok m' := by
  unfold popBlock at ran
  split at ran
  next => cases ran
  next first rest list =>
    obtain ⟨ar, read, ran⟩ := except_bind_eq_ok.mp ran
    obtain ⟨last, write, result⟩ := except_bind_eq_ok.mp ran
    simp only [pure_eq_ok, Except.ok.injEq, Prod.mk.injEq] at result
    obtain ⟨rfl, rfl⟩ := result
    exact ⟨rest, ar, list, read, write⟩

theorem popBlock_frame (ran : popBlock m ref = .ok (b, m')) : HeapFrame m m' := by
  obtain ⟨rest, ar, -, -, write⟩ := popBlock_eq_ok ran
  exact (setFreeList_frame m ref rest).trans (writeArena_frame write).heap

theorem freeBlock_frame (ran : freeBlock m ref a b = .ok m') : HeapFrame m m' := by
  obtain ⟨ar, -, ran⟩ := except_bind_eq_ok.mp ran
  obtain ⟨counted, write, ran⟩ := except_bind_eq_ok.mp ran
  have frame := (setFreeList_frame m ref _).trans (writeArena_frame write).heap
  dsimp only at ran
  split at ran
  next =>
    obtain ⟨removed, remove, ran⟩ := except_bind_eq_ok.mp ran
    exact (frame.trans (removeBlocks_frame remove)).trans (mfreePage_frame ran).heap
  next =>
    rw [← Except.ok.inj ran]
    exact frame

end

/-- The four functions that take a lock, with their arguments. -/
inductive AllocCall where
  | sysMalloc (size : UInt32)
  | sysFree (ptr : UInt32)
  | getUserPage (pgCnt : UInt32)
  | getAPage (pf : PoolFlags) (vaddr : UInt32)

/-- The result and the state after a call of the running thread. -/
def AllocCall.run (m : Mem) : AllocCall → Except Halt (Option Address × Mem)
  | sysMalloc size => Memory.sysMalloc m size.toNat
  | sysFree ptr => do
      let m ← Memory.sysFree m ptr.toNat
      return (none, m)
  | getUserPage pgCnt => Memory.getUserPage m pgCnt.toNat
  | getAPage pf vaddr => Memory.getAPage m pf vaddr.toNat

/-- Both locks have the same holder and the same count as before. -/
def KeepsHolds (m m' : Mem) : Prop := ∀ pf, (m.locks pf).SameHold (m'.locks pf)

/-- The lock that a call takes.  A request of a size out of range takes none. -/
def AllocCall.Takes (m : Mem) (pf : PoolFlags) : AllocCall → Prop
  | sysMalloc size =>
      (0 < size.toNat ∧ size.toNat < (m.pool m.ownFlags).poolSize) ∧ pf = m.ownFlags
  | sysFree _ => pf = m.ownFlags
  | getUserPage _ => pf = .user
  | getAPage pf' _ => pf = pf'

/-- A request that `sys_malloc` serves with whole pages. -/
def AllocCall.WantsPages : AllocCall → Prop
  | sysMalloc size => 1024 < size.toNat
  | _ => False

/-- Another task has the lock of the pool. -/
def Mem.HeldByOther (m : Mem) (pf : PoolFlags) : Prop :=
  ∃ t, (m.locks pf).holder = some t ∧ t ≠ m.runningThread

/-- What a call that returns finds and leaves. -/
inductive AllocCall.Returns (call : AllocCall) : Mem → Option Address → Mem → Prop where
  | atOnce {m m' : Mem} {result : Option Address} (ran : call.run m = .ok (result, m')) :
      Returns call m result m'
  /-- The call sleeps in `sema_down` until it is woken and finds the lock free, and goes on as if
  it were made then (`LockUse.executes_lockAcquire_waited`).  The other tasks have changed what
  they like by then, but for the directory of this one and the sizes of the pools. -/
  | waited {m woken m' : Mem} {result : Option Address} {pf : PoolFlags}
      (takes : call.Takes m pf) (held : m.HeldByOther pf)
      (asleep : lockAcquire m.runningThread (m.locks pf) = .error .blocked)
      (running : woken.runningThread = m.runningThread) (directory : woken.pgdir = m.pgdir)
      (sizes : ∀ pf, (woken.pool pf).poolSize = (m.pool pf).poolSize)
      (woke : (woken.locks pf).holder ≠ some m.runningThread)
      (ran : call.run woken = .ok (result, m')) : Returns call m result m'

section

variable {m m' held worked : Mem} {pf : PoolFlags} {result : Option Address}

@[simp]
theorem Mem.locks_setLock (m : Mem) (pf : PoolFlags) (plock : Lock) :
    (m.setLock pf plock).locks = Function.update m.locks pf plock := by
  funext pf'
  cases pf <;> cases pf' <;> rfl

theorem setLock_fixed (m : Mem) (pf : PoolFlags) (plock : Lock) :
    (m.setLock pf plock).fixed = m.fixed := by
  have pools : ∀ pf', ((m.setLock pf plock).pool pf').phyAddrStart = (m.pool pf').phyAddrStart ∧
      ((m.setLock pf plock).pool pf').poolSize = (m.pool pf').poolSize ∧
      ((m.setLock pf plock).pool pf').poolBitmap = (m.pool pf').poolBitmap := by
    intro pf'
    cases pf <;> cases pf' <;> exact ⟨rfl, rfl, rfl⟩
  have rest : (m.setLock pf plock).task = m.task ∧ (m.setLock pf plock).desc = m.desc ∧
      (m.setLock pf plock).kernelVaddr = m.kernelVaddr ∧
      (m.setLock pf plock).runningThread = m.runningThread ∧
      (m.setLock pf plock).cr3 = m.cr3 := by
    cases pf <;> refine ⟨rfl, ?_, rfl, rfl, rfl⟩ <;> funext ref <;> cases ref <;> rfl
  obtain ⟨task, desc, kernelVaddr, running, cr3⟩ := rest
  simp only [Mem.fixed, pools, task, desc, kernelVaddr, running, cr3]

theorem acquirePool_eq_ok (ran : acquirePool m pf = .ok held) :
    held.fixed = m.fixed ∧ ∃ plock, lockAcquire m.runningThread (m.locks pf) = .ok plock ∧
      held.locks = Function.update m.locks pf plock := by
  obtain ⟨plock, acquired, result⟩ := except_bind_eq_ok.mp ran
  rw [← Except.ok.inj result]
  exact ⟨setLock_fixed m pf plock, plock, acquired, Mem.locks_setLock m pf plock⟩

theorem releasePool_eq_ok (ran : releasePool worked pf = .ok m') :
    ∃ plock, lockRelease worked.runningThread (worked.locks pf) = .ok plock ∧
      m'.locks = Function.update worked.locks pf plock := by
  obtain ⟨plock, released, result⟩ := except_bind_eq_ok.mp ran
  rw [← Except.ok.inj result]
  exact ⟨plock, released, Mem.locks_setLock worked pf plock⟩

theorem keepsHolds_bracket (acquired : acquirePool m pf = .ok held)
    (frame : HeapFrame held worked) (released : releasePool worked pf = .ok m') :
    KeepsHolds m m' ↔ (m.locks pf).Valid := by
  obtain ⟨fixed, taken, acquire, heldLocks⟩ := acquirePool_eq_ok acquired
  obtain ⟨given, release, lastLocks⟩ := releasePool_eq_ok released
  have running : worked.runningThread = m.runningThread :=
    congrArg Fixed.runningThread (frame.fixed.trans fixed)
  have workedLock : worked.locks pf = taken := by
    rw [frame.locks, heldLocks, Function.update_self]
  rw [running, workedLock] at release
  rw [← sameHold_iff_valid acquire release]
  constructor
  · intro kept
    have same := kept pf
    rwa [lastLocks, Function.update_self] at same
  · intro kept pf'
    rw [lastLocks]
    by_cases same : pf' = pf
    · subst same
      rwa [Function.update_self]
    · rw [Function.update_of_ne same, frame.locks, heldLocks, Function.update_of_ne same]
      exact ⟨rfl, rfl⟩

/-- Taking a lock and working without giving it back. -/
theorem not_keepsHolds_of_held (acquired : acquirePool m pf = .ok held)
    (frame : HeapFrame held m') : ¬ KeepsHolds m m' := by
  obtain ⟨-, taken, acquire, heldLocks⟩ := acquirePool_eq_ok acquired
  intro kept
  have same := kept pf
  rw [frame.locks, heldLocks, Function.update_self] at same
  exact lockAcquire_not_sameHold acquire same

theorem mallocLarge_frame {size : Nat} (ran : mallocLarge m size = .ok (result, m')) :
    HeapFrame m m' := by
  obtain ⟨⟨got, mapped⟩, allocated, ran⟩ := except_bind_eq_ok.mp ran
  obtain ⟨-, -, bitIdx, btmp, -, rfl, -⟩ := mallocPage_eq_ok allocated
  obtain ⟨cleared, clear, ran⟩ := except_bind_eq_ok.mp ran
  obtain ⟨headed, write, ran⟩ := except_bind_eq_ok.mp ran
  simp only [pure_eq_ok, Except.ok.injEq, Prod.mk.injEq] at ran
  rw [← ran.2]
  exact (((mallocPage_frame allocated).trans (memsetPages_frame clear)).trans
    (writeArena_frame write)).heap

theorem mallocSmall_eq_ok {size : Nat} (ran : mallocSmall m size = .ok (result, m')) :
    ∃ descIdx supplied b popped, findDesc m size = some descIdx ∧
      ((m.desc (m.ownDesc descIdx)).freeList ≠ [] ∧ supplied = m ∨
        (m.desc (m.ownDesc descIdx)).freeList = [] ∧
          newArena m (m.ownDesc descIdx) = .ok (true, supplied)) ∧
      popBlock supplied (m.ownDesc descIdx) = .ok (b, popped) ∧ result = some b ∧
      releasePool popped popped.ownFlags = .ok m' := by
  unfold mallocSmall at ran
  split at ran
  next => cases ran
  next descIdx found =>
    dsimp only at ran
    split at ran
    next empty =>
      obtain ⟨⟨supplied, filled⟩, created, ran⟩ := except_bind_eq_ok.mp ran
      obtain ⟨rfl, -⟩ := newArena_eq_ok created
      simp only [Bool.not_true, Bool.false_eq_true, if_false] at ran
      obtain ⟨⟨b, popped⟩, pop, ran⟩ := except_bind_eq_ok.mp ran
      obtain ⟨last, release, ran⟩ := except_bind_eq_ok.mp ran
      simp only [pure_eq_ok, Except.ok.injEq, Prod.mk.injEq] at ran
      obtain ⟨rfl, rfl⟩ := ran
      exact ⟨descIdx, filled, b, popped, found, Or.inr ⟨empty, created⟩, pop, rfl, release⟩
    next stocked =>
      simp only [pure_eq_ok, ok_bind, Bool.not_true, Bool.false_eq_true, if_false] at ran
      obtain ⟨⟨b, popped⟩, pop, ran⟩ := except_bind_eq_ok.mp ran
      obtain ⟨last, release, ran⟩ := except_bind_eq_ok.mp ran
      simp only [Except.ok.injEq, Prod.mk.injEq] at ran
      obtain ⟨rfl, rfl⟩ := ran
      exact ⟨descIdx, m, b, popped, found, Or.inl ⟨stocked, rfl⟩, pop, rfl, release⟩

theorem sysMalloc_eq_ok {size : Nat} (ran : sysMalloc m size = .ok (result, m')) :
    ¬ (0 < size ∧ size < (m.pool m.ownFlags).poolSize) ∧ result = none ∧ m' = m ∨
      (0 < size ∧ size < (m.pool m.ownFlags).poolSize) ∧
        ∃ held, acquirePool m m.ownFlags = .ok held ∧
          (1024 < size ∧ mallocLarge held size = .ok (result, m') ∨
            size ≤ 1024 ∧ mallocSmall held size = .ok (result, m')) := by
  unfold sysMalloc at ran
  dsimp only at ran
  split at ran
  next rejected =>
    simp only [pure_eq_ok, Except.ok.injEq, Prod.mk.injEq] at ran
    simp only [gt_iff_lt, Bool.not_eq_true', Bool.and_eq_false_imp, decide_eq_true_eq,
      decide_eq_false_iff_not] at rejected
    exact Or.inl ⟨fun range => rejected range.1 range.2, ran.1.symm, ran.2.symm⟩
  next accepted =>
    obtain ⟨held, acquired, ran⟩ := except_bind_eq_ok.mp ran
    simp only [gt_iff_lt, Bool.not_eq_true', Bool.not_eq_false, Bool.and_eq_true,
      decide_eq_true_eq] at accepted
    refine Or.inr ⟨accepted, held, acquired, ?_⟩
    split at ran
    next large => exact Or.inl ⟨large, ran⟩
    next small => exact Or.inr ⟨by omega, ran⟩

theorem sysFree_eq_ok {ptr : Address} (ran : sysFree m ptr = .ok m') :
    ptr ≠ 0 ∧ (m.pgdir ≠ none ∨ ptr ≥ kHeapStart) ∧
      ∃ held ar worked, acquirePool m m.ownFlags = .ok held ∧
        held.readArena (block2arena ptr) = .ok ar ∧
        ((∃ ref, ar.desc = some ref ∧ ar.large = false ∧
            freeBlock held ref (block2arena ptr) ptr = .ok worked) ∨
          (ar.desc = none ∨ ar.large = true) ∧
            mfreePage held held.ownFlags (block2arena ptr) ar.cnt.toNat = .ok worked) ∧
        releasePool worked worked.ownFlags = .ok m' := by
  obtain ⟨_, notNull, ran⟩ := except_bind_eq_ok.mp ran
  obtain ⟨_, inHeap, ran⟩ := except_bind_eq_ok.mp ran
  obtain ⟨held, acquired, ran⟩ := except_bind_eq_ok.mp ran
  obtain ⟨ar, read, ran⟩ := except_bind_eq_ok.mp ran
  simp only [check_eq_ok, decide_eq_true_eq] at notNull inHeap
  refine ⟨notNull, inHeap, held, ar, ?_⟩
  split at ran
  next ref desc large =>
    obtain ⟨worked, freed, release⟩ := except_bind_eq_ok.mp ran
    exact ⟨worked, acquired, read, Or.inl ⟨ref, desc, large, freed⟩, release⟩
  next notSmall =>
    obtain ⟨worked, freed, release⟩ := except_bind_eq_ok.mp ran
    refine ⟨worked, acquired, read, Or.inr ⟨?_, freed⟩, release⟩
    cases desc : ar.desc with
    | none => exact Or.inl rfl
    | some ref =>
        right
        by_contra small
        exact notSmall ref desc (by simpa using small)

theorem getUserPage_eq_ok {pgCnt : Nat} (ran : getUserPage m pgCnt = .ok (result, m')) :
    ∃ held start mapped cleared, acquirePool m .user = .ok held ∧
      mallocPage held .user pgCnt = .ok (some start, mapped) ∧
      memsetPages pgCnt start mapped = .ok cleared ∧ result = some start ∧
      releasePool cleared .user = .ok m' := by
  obtain ⟨held, acquired, ran⟩ := except_bind_eq_ok.mp ran
  obtain ⟨⟨got, mapped⟩, allocated, ran⟩ := except_bind_eq_ok.mp ran
  obtain ⟨-, -, bitIdx, btmp, -, rfl, -⟩ := mallocPage_eq_ok allocated
  obtain ⟨cleared, clear, ran⟩ := except_bind_eq_ok.mp ran
  obtain ⟨last, release, ran⟩ := except_bind_eq_ok.mp ran
  simp only [pure_eq_ok, Except.ok.injEq, Prod.mk.injEq] at ran
  obtain ⟨rfl, rfl⟩ := ran
  exact ⟨held, _, mapped, cleared, acquired, allocated, clear, rfl, release⟩

theorem getAPage_eq_ok {vaddr : Address} (ran : getAPage m pf vaddr = .ok (result, m')) :
    ∃ held btmp phyaddr taken added, acquirePool m pf = .ok held ∧
      ((m.pgdir ≠ none ∧ pf = .user) ∨ (m.pgdir = none ∧ pf = .kernel)) ∧
      0 < wrapSub vaddr (held.vaddrPool pf).vaddrStart / pgSize ∧
      bitmapSet (held.vaddrPool pf).vaddrBitmap
        (wrapSub vaddr (held.vaddrPool pf).vaddrStart / pgSize) true = .ok btmp ∧
      palloc (held.setVaddrBitmap pf btmp) pf = .ok (some phyaddr, taken) ∧
      pageTableAdd taken vaddr phyaddr = .ok added ∧ result = some vaddr ∧
      releasePool added pf = .ok m' := by
  obtain ⟨held, acquired, ran⟩ := except_bind_eq_ok.mp ran
  obtain ⟨_, kind, ran⟩ := except_bind_eq_ok.mp ran
  obtain ⟨_, notFirst, ran⟩ := except_bind_eq_ok.mp ran
  obtain ⟨btmp, set, ran⟩ := except_bind_eq_ok.mp ran
  obtain ⟨⟨got, taken⟩, allocated, ran⟩ := except_bind_eq_ok.mp ran
  obtain ⟨bitIdx, -, -, rfl, -⟩ := palloc_eq_ok allocated
  obtain ⟨added, add, ran⟩ := except_bind_eq_ok.mp ran
  obtain ⟨last, release, ran⟩ := except_bind_eq_ok.mp ran
  simp only [pure_eq_ok, Except.ok.injEq, Prod.mk.injEq] at ran
  obtain ⟨rfl, rfl⟩ := ran
  simp only [check_eq_ok, decide_eq_true_eq, pgdir_congr (acquirePool_eq_ok acquired).1]
    at kind notFirst
  exact ⟨held, btmp, _, taken, added, acquired, kind, notFirst, set, allocated, add, rfl, release⟩

/-- A call that is not kept waiting takes no lock, or works between taking one and giving it
back, or keeps it. -/
theorem AllocCall.run_cases {call : AllocCall} (ran : call.run m = .ok (result, m')) :
    (∀ pf, ¬ call.Takes m pf) ∧ m'.locks = m.locks ∨
      ∃ pf held worked, (∀ pf', call.Takes m pf' ↔ pf' = pf) ∧ acquirePool m pf = .ok held ∧
        HeapFrame held worked ∧ (¬ call.WantsPages ∧ releasePool worked pf = .ok m' ∨
          call.WantsPages ∧ m' = worked) := by
  cases call with
  | sysMalloc size =>
      rcases sysMalloc_eq_ok ran with ⟨rejected, -, rfl⟩ | ⟨accepted, held, acquired, served⟩
      · exact Or.inl ⟨fun pf takes => rejected takes.1, rfl⟩
      · have takes : ∀ pf', (AllocCall.sysMalloc size).Takes m pf' ↔ pf' = m.ownFlags :=
          fun pf' => and_iff_right accepted
        rcases served with ⟨large, served⟩ | ⟨small, served⟩
        · exact Or.inr ⟨_, held, m', takes, acquired, mallocLarge_frame served,
            Or.inr ⟨large, rfl⟩⟩
        · obtain ⟨descIdx, supplied, b, popped, -, supply, pop, -, released⟩ :=
            mallocSmall_eq_ok served
          have frame : HeapFrame held popped := by
            rcases supply with ⟨-, rfl⟩ | ⟨-, created⟩
            · exact popBlock_frame pop
            · exact (newArena_frame created).trans (popBlock_frame pop)
          rw [ownFlags_congr (frame.fixed.trans (acquirePool_eq_ok acquired).1)] at released
          exact Or.inr ⟨_, held, popped, takes, acquired, frame,
            Or.inl ⟨Nat.not_lt.mpr small, released⟩⟩
  | sysFree ptr =>
      obtain ⟨last, freed, ran⟩ := except_bind_eq_ok.mp ran
      simp only [pure_eq_ok, Except.ok.injEq, Prod.mk.injEq] at ran
      rw [← ran.2]
      obtain ⟨-, -, held, ar, worked, acquired, -, freed, released⟩ := sysFree_eq_ok freed
      have frame : HeapFrame held worked := by
        rcases freed with ⟨ref, -, -, freed⟩ | ⟨-, freed⟩
        · exact freeBlock_frame freed
        · exact (mfreePage_frame freed).heap
      rw [ownFlags_congr (frame.fixed.trans (acquirePool_eq_ok acquired).1)] at released
      exact Or.inr ⟨_, held, worked, fun _ => Iff.rfl, acquired, frame, Or.inl ⟨id, released⟩⟩
  | getUserPage pgCnt =>
      obtain ⟨held, start, mapped, cleared, acquired, allocated, clear, -, released⟩ :=
        getUserPage_eq_ok ran
      exact Or.inr ⟨_, held, cleared, fun _ => Iff.rfl, acquired,
        ((mallocPage_frame allocated).trans (memsetPages_frame clear)).heap,
        Or.inl ⟨id, released⟩⟩
  | getAPage pf vaddr =>
      obtain ⟨held, btmp, phyaddr, taken, added, acquired, -, -, set, allocated, add, -,
        released⟩ := getAPage_eq_ok ran
      obtain ⟨-, rfl⟩ := bitmapSet_eq_ok.mp set
      obtain ⟨bitIdx, -, -, -, rfl⟩ := palloc_eq_ok allocated
      have frame := ((PageFrame.setVaddrBitmap held pf (Bitmap.put_btmpBytesLen _ true)).trans
        (PageFrame.setPoolBitmap _ pf (Bitmap.put_btmpBytesLen bitIdx true))).trans
        (pageTableAdd_frame add)
      exact Or.inr ⟨_, held, added, fun _ => Iff.rfl, acquired, frame.heap,
        Or.inl ⟨id, released⟩⟩

theorem keepsHolds_run_iff {call : AllocCall} (ran : call.run m = .ok (result, m')) :
    KeepsHolds m m' ↔ ∀ pf, call.Takes m pf → (m.locks pf).Valid ∧ ¬ call.WantsPages := by
  rcases AllocCall.run_cases ran with ⟨none, same⟩ |
    ⟨pf, held, worked, takes, acquired, frame, ⟨small, released⟩ | ⟨large, rfl⟩⟩
  · refine iff_of_true (fun pf => ?_) fun pf isTaken => absurd isTaken (none pf)
    rw [same]
    exact ⟨rfl, rfl⟩
  · simp only [takes, forall_eq]
    rw [keepsHolds_bracket acquired frame released]
    exact (and_iff_left small).symm
  · refine iff_of_false (not_keepsHolds_of_held acquired frame) fun all => ?_
    exact (all pf ((takes pf).mpr rfl)).2 large

theorem AllocCall.run_holder {call : AllocCall} (ran : call.run m = .ok (result, m'))
    (taken : call.Takes m pf) (notOwn : (m.locks pf).holder ≠ some m.runningThread) :
    (m'.locks pf).holder = none ∨ (m'.locks pf).holder = some m.runningThread := by
  rcases AllocCall.run_cases ran with ⟨none, -⟩ |
    ⟨pf', held, worked, takes, acquired, frame, finished⟩
  · exact absurd taken (none pf)
  · obtain rfl := (takes pf).mp taken
    obtain ⟨-, plock, acquire, heldLocks⟩ := acquirePool_eq_ok acquired
    have workedLock : worked.locks pf = plock := by
      rw [frame.locks, heldLocks, Function.update_self]
    rcases lockAcquire_cases acquire with ⟨own, -⟩ | ⟨-, -, -, rfl⟩
    · exact absurd own notOwn
    · rcases finished with ⟨-, released⟩ | ⟨-, rfl⟩
      · obtain ⟨given, release, lastLocks⟩ := releasePool_eq_ok released
        rw [workedLock] at release
        rw [lastLocks, Function.update_self]
        rcases (lockRelease_cases release).2 with ⟨nested, -⟩ | ⟨-, -, rfl⟩
        · exact absurd nested (UInt32.lt_irrefl 1)
        · exact Or.inl rfl
      · rw [workedLock]
        exact Or.inr rfl

theorem AllocCall.Takes.congr {call : AllocCall} (takes : call.Takes m pf)
    (directory : m'.pgdir = m.pgdir)
    (sizes : ∀ pf, (m'.pool pf).poolSize = (m.pool pf).poolSize) : call.Takes m' pf := by
  have flags : m'.ownFlags = m.ownFlags := by
    rw [Mem.ownFlags, Mem.ownFlags, directory]
  cases call with
  | sysMalloc size =>
      refine ⟨?_, takes.2.trans flags.symm⟩
      rw [flags, sizes]
      exact takes.1
  | sysFree ptr => exact Eq.trans takes flags.symm
  | getUserPage pgCnt => exact takes
  | getAPage pf' vaddr => exact takes

/-- The main thread right after boot asks for a block and for a page. -/
theorem boot_returns (size : UInt32) (isSize : size = 100 ∨ size = 2000) :
    ∃ result m', (AllocCall.sysMalloc size).run (boot powerOn 0x2000000) =
      .ok (result, m') := by
  have returns : ((AllocCall.sysMalloc size).run (boot powerOn 0x2000000)).toOption.isSome := by
    rcases isSize with rfl | rfl <;> decide +kernel
  cases ran : (AllocCall.sysMalloc size).run (boot powerOn 0x2000000) with
  | error reason =>
      rw [ran] at returns
      cases returns
  | ok after => exact ⟨after.1, after.2, rfl⟩

/-- A call that returns leaves the locks as they were, unless it has taken one for a request
that is served with whole pages, one that was held with a count of 0, or one that it had to wait
for: the other task has given that back. -/
theorem keepsHolds_iff {call : AllocCall} (returned : call.Returns m result m') :
    KeepsHolds m m' ↔ ∀ pf, call.Takes m pf →
      ¬ m.HeldByOther pf ∧ (m.locks pf).Valid ∧ ¬ call.WantsPages := by
  cases returned with
  | atOnce ran =>
      rw [keepsHolds_run_iff ran]
      refine forall₂_congr fun pf taken => (and_iff_right_of_imp fun right => ?_).symm
      rintro ⟨t, holds, other⟩
      -- a lock that could be taken from another holder had a count of 0
      rcases AllocCall.run_cases ran with ⟨none, -⟩ | ⟨pf', held, _, takes, acquired, -⟩
      · exact none pf taken
      · obtain rfl := (takes pf).mp taken
        obtain ⟨-, plock, acquire, -⟩ := acquirePool_eq_ok acquired
        rcases lockAcquire_cases acquire with ⟨own, -⟩ | ⟨-, -, unused, -⟩
        · exact other (Option.some.inj (holds.symm.trans own))
        · refine right.1 ?_ unused
          rw [holds]
          exact Option.some_ne_none t
  | waited takes held asleep running directory sizes woke ran =>
      rename_i woken pf
      refine iff_of_false (fun kept => ?_) fun all => (all pf takes).1 held
      obtain ⟨t, holds, other⟩ := held
      have same := (kept pf).1
      rw [holds] at same
      rcases AllocCall.run_holder ran (takes.congr directory sizes) (by rwa [running]) with
        free | own
      · rw [free] at same
        cases same
      · rw [own, running] at same
        exact other (Option.some.inj same).symm

/-- Right after boot, except that thread 2 has the lock of the kernel's pool. -/
def bootHeld : Mem := (boot powerOn 0x2000000).setLock .kernel ⟨⟨0, []⟩, some 2, 1⟩

/-- A block requested by the main thread right after boot, and when it has to wait. -/
theorem keepsHolds_iff_boot : ∃ result m',
    (AllocCall.sysMalloc 100).Returns (boot powerOn 0x2000000) result m' ∧
      KeepsHolds (boot powerOn 0x2000000) m' ∧
      (AllocCall.sysMalloc 100).Returns bootHeld result m' ∧ ¬ KeepsHolds bootHeld m' := by
  obtain ⟨result, m', ran⟩ := boot_returns 100 (Or.inl rfl)
  have atOnce : (AllocCall.sysMalloc 100).Returns (boot powerOn 0x2000000) result m' :=
    .atOnce ran
  have takes : (AllocCall.sysMalloc 100).Takes bootHeld .kernel := by
    unfold AllocCall.Takes
    decide +kernel
  have plock : bootHeld.locks .kernel = ⟨⟨0, []⟩, some 2, 1⟩ := by
    rw [bootHeld, Mem.locks_setLock, Function.update_self]
  have running : (boot powerOn 0x2000000).runningThread = mainThread := by decide +kernel
  have sameFixed : bootHeld.fixed = (boot powerOn 0x2000000).fixed := setLock_fixed _ _ _
  have runningHeld : bootHeld.runningThread = mainThread :=
    (congrArg Fixed.runningThread sameFixed).trans running
  have held : bootHeld.HeldByOther .kernel := by
    refine ⟨2, by rw [plock], ?_⟩
    rw [runningHeld]
    decide
  have asleep : lockAcquire bootHeld.runningThread (bootHeld.locks .kernel) =
      .error .blocked := by
    rw [plock, runningHeld]
    rfl
  have free : ∀ pf, ((boot powerOn 0x2000000).locks pf).holder = none := by
    intro pf
    cases pf <;> rfl
  have waited : (AllocCall.sysMalloc 100).Returns bootHeld result m' := by
    refine .waited takes held asleep (running.trans runningHeld.symm)
      (pgdir_congr sameFixed.symm) (fun pf => ?_) ?_ ran
    · exact congrFun (congrArg Fixed.poolSize sameFixed.symm) pf
    · rw [free]
      exact (Option.some_ne_none _).symm
  refine ⟨result, m', atOnce, (keepsHolds_iff atOnce).mpr fun pf _ => ?_, waited,
    fun kept => ((keepsHolds_iff waited).mp kept .kernel takes).1 held⟩
  refine ⟨?_, fun isHeld => absurd (free pf) isHeld, ?_⟩
  · rintro ⟨t, holds, -⟩
    cases (free pf).symm.trans holds
  · unfold AllocCall.WantsPages
    decide

/-- A page requested there: the call returns and the main thread keeps the lock. -/
theorem lock_kept_by_large_request : ∃ result m',
    (AllocCall.sysMalloc 2000).Returns (boot powerOn 0x2000000) result m' ∧
      ¬ KeepsHolds (boot powerOn 0x2000000) m' := by
  obtain ⟨result, m', ran⟩ := boot_returns 2000 (Or.inr rfl)
  refine ⟨result, m', .atOnce ran, fun kept => ?_⟩
  have takes : (AllocCall.sysMalloc 2000).Takes (boot powerOn 0x2000000) .kernel := by
    unfold AllocCall.Takes
    decide +kernel
  have wants : (AllocCall.sysMalloc 2000).WantsPages := by
    unfold AllocCall.WantsPages
    decide
  exact ((keepsHolds_run_iff ran).mp kept .kernel takes).2 wants

end

end HongbaiOS.Memory
