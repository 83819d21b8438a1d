import HongbaiOS.Device.IoQueue
import HongbaiOS.Library.SavedFlag
import HongbaiOS.Memory.Processes

/-!
# The interrupt flag

The functions that turn interrupts off and set them to what they were, with everything they
call, statement by statement.  `switch_to` does not save the flag, so a thread that sleeps
in one of them comes back with whatever flag the thread before it left.  A thread that is
dispatched for the first time starts in its own code, which is `kernel_thread`.
-/

namespace HongbaiOS.Kernel

open HongbaiOS.Library HongbaiOS.Library.SavedFlag HongbaiOS.Thread HongbaiOS.Memory
  HongbaiOS.Device

/-- The functions that are called. -/
inductive KernelFn where
  | listInsertBefore | listPush | listAppend | listRemove | listPop
  | elemFind | listLen | listEmpty | listTraversal
  | schedule | threadBlock | threadUnblock | threadYield
  | semaDown | semaUp | lockAcquire | lockRelease
  | ioqWait | wakeUp | ioqGetchar | ioqPutchar
  | sysFree | inodeClose
  | intrTimerHandler | intrHdHandler | intrKeyboardHandler
  deriving DecidableEq

/-- The locks: those of the pools, those of the queues, and others. -/
inductive LockName where
  | pool (pf : PoolFlags)
  | queue (q : Nat)
  | other (n : Nat)

/-- The semaphores: those of the locks, and others. -/
inductive SemaName where
  | ofLock (l : LockName)
  | other (n : Nat)

/-- The lists that the functions change. -/
inductive ListName where
  | ready
  | waiters (psema : SemaName)
  | freeList (ref : DescRef)
  | openInodes
  | other (n : Nat)

/-- What the functions share.  A list is the sequence of the nodes it links. -/
structure KernelData where
  task : Tid → TaskStruct
  readyList : List Nat
  idleThread : Tid
  ticks : Nat
  /-- The memory manager, with the locks of the pools and the free lists. -/
  mem : Mem
  ioq : Nat → IoQueue
  lock : Nat → Lock
  sema : Nat → Semaphore
  openInodes : List Nat
  list : Nat → List Nat
  iOpenCnts : Memory.Address → UInt32
  /-- `channel->expecting_intr` -/
  expectingIntr : Nat → Bool
  /-- What the last call of a function returned to the thread. -/
  eax : Tid → Nat

namespace KernelData

def getLock (d : KernelData) : LockName → Lock
  | .pool pf => (d.mem.pool pf).lock
  | .queue q => (d.ioq q).lock
  | .other n => d.lock n

def setLock (d : KernelData) (l : LockName) (plock : Lock) : KernelData :=
  match l with
  | .pool pf => { d with mem := d.mem.setLock pf plock }
  | .queue q => { d with ioq := Function.update d.ioq q ((d.ioq q).setLock plock) }
  | .other n => { d with lock := Function.update d.lock n plock }

def getSema (d : KernelData) : SemaName → Semaphore
  | .ofLock l => (d.getLock l).semaphore
  | .other n => d.sema n

def setSema (d : KernelData) (k : SemaName) (psema : Semaphore) : KernelData :=
  match k with
  | .ofLock l => d.setLock l { d.getLock l with semaphore := psema }
  | .other n => { d with sema := Function.update d.sema n psema }

def getList (d : KernelData) : ListName → List Nat
  | .ready => d.readyList
  | .waiters k => (d.getSema k).waiters
  | .freeList ref => (d.mem.desc ref).freeList
  | .openInodes => d.openInodes
  | .other n => d.list n

def setList (d : KernelData) (l : ListName) (list : List Nat) : KernelData :=
  match l with
  | .ready => { d with readyList := list }
  | .waiters k => d.setSema k { d.getSema k with waiters := list }
  | .freeList ref => { d with mem := d.mem.setFreeList ref list }
  | .openInodes => { d with openInodes := list }
  | .other n => { d with list := Function.update d.list n list }

def setIoq (d : KernelData) (q : Nat) (ioq : IoQueue) : KernelData :=
  { d with ioq := Function.update d.ioq q ioq }

def onTask (d : KernelData) (t : Tid) (f : TaskStruct → TaskStruct) : KernelData :=
  { d with task := Function.update d.task t (f (d.task t)) }

def setStatus (d : KernelData) (t : Tid) (status : ThreadStatus) : KernelData :=
  d.onTask t fun p => { p with status := status }

def setPgdir (d : KernelData) (t : Tid) (pgdir : Option Memory.Address) : KernelData :=
  { d with mem := d.mem.setTask t { d.mem.task t with pgdir := pgdir } }

def setEax (d : KernelData) (t : Tid) (value : Nat) : KernelData :=
  { d with eax := Function.update d.eax t value }

end KernelData

abbrev KernelCode := Code Tid KernelData Halt KernelFn

namespace KernelCode

/-- A statement that neither looks at the flag nor fails. -/
def set (f : Tid → KernelData → KernelData) : KernelCode := .act fun cur _ d => .ok (f cur d)

def skip : KernelCode := set fun _ d => d

/-- `ASSERT(condition)` -/
def assert (fn : Fn) (condition : Tid → KernelData → Bool) : KernelCode :=
  .act fun cur _ d => do
    check fn (condition cur d)
    return d

/-- `ASSERT(intr_get_status() == INTR_OFF)` -/
def assertIntrOff (fn : Fn) : KernelCode := .act fun _ on d => do
  check fn (!on)
  return d

def block : List KernelCode → KernelCode
  | [] => skip
  | code :: rest => .seq code (block rest)

def branch (condition : Tid → KernelData → Bool) (yes no : KernelCode) : KernelCode :=
  .eval fun cur d => if condition cur d then yes else no

/-- The list with `elem` before the node `before`, or before the tail. -/
def insertBefore (before : Option Nat) (elem : Nat) : List Nat → List Nat
  | [] => [elem]
  | node :: rest =>
      if before = some node then elem :: node :: rest
      else node :: insertBefore before elem rest

/-- `list_insert_before(before, elem)` -/
def listInsertBefore (l : ListName) (before : Option Nat) (elem : Nat) : KernelCode :=
  block [.disable, set fun _ d => d.setList l (insertBefore before elem (d.getList l)), .restore]

/-- `list_push(plist, elem)` -/
def listPush (l : ListName) (elem : Nat) : KernelCode := .eval fun _ d =>
  .call .listInsertBefore (listInsertBefore l (d.getList l).head? elem)

/-- `list_append(plist, elem)` -/
def listAppend (l : ListName) (elem : Nat) : KernelCode :=
  .call .listInsertBefore (listInsertBefore l none elem)

/-- `list_remove(pelem)`, with the list that `pelem` is in -/
def listRemove (l : ListName) (pelem : Nat) : KernelCode :=
  block [.disable, set fun _ d => d.setList l ((d.getList l).erase pelem), .restore]

/-- `list_pop(plist)` -/
def listPop (l : ListName) : KernelCode := block [
  assert .listPop fun _ d => d.getList l ≠ [],
  .eval fun _ d =>
    let elem := (d.getList l).headD 0
    block [.call .listRemove (listRemove l elem), set fun cur d => d.setEax cur elem]]

/-- `elem_find(plist, obj_elem)` -/
def elemFind (l : ListName) (objElem : Nat) : KernelCode :=
  set fun cur d => d.setEax cur (if objElem ∈ d.getList l then 1 else 0)

/-- `list_len(plist)` -/
def listLen (l : ListName) : KernelCode := set fun cur d => d.setEax cur (d.getList l).length

/-- `list_empty(plist)` -/
def listEmpty (l : ListName) : KernelCode :=
  set fun cur d => d.setEax cur (if d.getList l = [] then 1 else 0)

/-- The loop of `list_traversal` from the node `elem` on. -/
def traverse (func : Nat → KernelCode) : List Nat → KernelCode
  | [] => set fun cur d => d.setEax cur 0
  | elem :: rest => block [func elem,
      branch (fun cur d => d.eax cur ≠ 0) (set fun cur d => d.setEax cur elem)
        (traverse func rest)]

/-- `list_traversal(plist, func, arg)` for a `func` that leaves the list as it is -/
def listTraversal (l : ListName) (func : Nat → KernelCode) : KernelCode :=
  .eval fun _ d => traverse func (d.getList l)

/-- `ASSERT(!elem_find(plist, obj_elem))` -/
def assertNotIn (fn : Fn) (l : ListName) (objElem : Tid → Nat) : KernelCode := .eval fun cur _ =>
  block [.call .elemFind (elemFind l (objElem cur)), assert fn fun cur d => d.eax cur = 0]

/-- `thread_unblock(pthread)` -/
def threadUnblock (pthread : Tid) : KernelCode := block [
  .disable,
  assert .threadUnblock fun _ d => (d.task pthread).status.isBlocked,
  branch (fun _ d => (d.task pthread).status ≠ .ready)
    (block [
      assertNotIn .threadUnblock .ready fun _ => pthread,
      .call .listPush (listPush .ready pthread),
      set fun _ d => d.setStatus pthread .ready])
    skip,
  .restore]

/-- `schedule()` -/
def schedule : KernelCode := block [
  assertIntrOff .schedule,
  branch (fun cur d => (d.task cur).status = .running)
    (block [
      assertNotIn .schedule .ready fun cur => cur,
      .eval fun cur _ => .call .listAppend (listAppend .ready cur),
      set fun cur d => d.onTask cur fun p => { p with status := .ready, ticks := p.priority }])
    skip,
  .call .listEmpty (listEmpty .ready),
  branch (fun cur d => d.eax cur ≠ 0)
    (.eval fun _ d => .call .threadUnblock (threadUnblock d.idleThread))
    skip,
  .call .listPop (listPop .ready),
  .eval fun cur d =>
    let next := d.eax cur
    block [
      set fun _ d => d.setStatus next .running,
      .act fun _ _ d => do
        let mem ← pageDirActivate d.mem next
        return { d with mem := { mem with runningThread := next } },
      .switch fun d => d.mem.runningThread]]

/-- `thread_block(stat)` -/
def threadBlock (stat : ThreadStatus) : KernelCode := block [
  assert .threadBlock fun _ _ => stat.isBlocked,
  .disable,
  set fun cur d => d.setStatus cur stat,
  .call .schedule schedule,
  .restore]

/-- `thread_yield()` -/
def threadYield : KernelCode := block [
  .disable,
  assertNotIn .threadYield .ready fun cur => cur,
  set fun cur d => d.setStatus cur .ready,
  .call .schedule schedule,
  .restore]

/-- `sema_down(psema)` -/
def semaDown (k : SemaName) : KernelCode := block [
  .disable,
  .loop (fun _ d => (d.getSema k).value = 0) (block [
    assertNotIn .semaDown (.waiters k) fun cur => cur,
    .eval fun cur _ => .call .listAppend (listAppend (.waiters k) cur),
    .call .threadBlock (threadBlock .blocked)]),
  set fun _ d => d.setSema k { d.getSema k with value := (d.getSema k).value - 1 },
  assert .semaDown fun _ d => (d.getSema k).value = 0,
  .restore]

/-- `sema_up(psema)` -/
def semaUp (k : SemaName) : KernelCode := block [
  .disable,
  assert .semaUp fun _ d => (d.getSema k).value = 0,
  .call .listEmpty (listEmpty (.waiters k)),
  branch (fun cur d => d.eax cur = 0)
    (block [
      .call .listPop (listPop (.waiters k)),
      .eval fun cur d => .call .threadUnblock (threadUnblock (d.eax cur))])
    skip,
  set fun _ d => d.setSema k { d.getSema k with value := (d.getSema k).value + 1 },
  assert .semaUp fun _ d => (d.getSema k).value = 1,
  .restore]

def setRepeatNr (l : LockName) (f : UInt32 → UInt32) : KernelCode := set fun _ d =>
  d.setLock l { d.getLock l with holderRepeatNr := f (d.getLock l).holderRepeatNr }

def setHolder (l : LockName) (holder : Tid → Option Tid) : KernelCode := set fun cur d =>
  d.setLock l { d.getLock l with holder := holder cur }

/-- `lock_acquire(plock)` -/
def lockAcquire (l : LockName) : KernelCode :=
  branch (fun cur d => (d.getLock l).holder = some cur)
    (setRepeatNr l fun n => n + 1)
    (block [
      .call .semaDown (semaDown (.ofLock l)),
      setHolder l fun cur => some cur,
      assert .lockAcquire fun _ d => (d.getLock l).holderRepeatNr = 0,
      setRepeatNr l fun _ => 1])

/-- `lock_release(plock)` -/
def lockRelease (l : LockName) : KernelCode := block [
  assert .lockRelease fun cur d => (d.getLock l).holder = some cur,
  branch (fun _ d => (d.getLock l).holderRepeatNr > 1)
    (setRepeatNr l fun n => n - 1)
    (block [
      assert .lockRelease fun _ d => (d.getLock l).holderRepeatNr = 1,
      setHolder l fun _ => none,
      setRepeatNr l fun _ => 0,
      .call .semaUp (semaUp (.ofLock l))])]

/-- `ioq_wait(waiter)` -/
def ioqWait (q : Nat) (side : Side) : KernelCode := block [
  assert .ioqWait fun _ d => (d.ioq q).waiter side = none,
  set fun cur d => d.setIoq q ((d.ioq q).setWaiter side (some cur)),
  .call .threadBlock (threadBlock .blocked)]

/-- `wake_up(waiter)` -/
def wakeUp (q : Nat) (side : Side) : KernelCode := block [
  assert .wakeUp fun _ d => (d.ioq q).waiter side ≠ none,
  .eval fun _ d => .call .threadUnblock (threadUnblock (((d.ioq q).waiter side).getD 0)),
  set fun _ d => d.setIoq q ((d.ioq q).setWaiter side none)]

/-- The loop of both functions; its condition asserts that interrupts are off. -/
def ioqLoop (q : Nat) (side : Side) (fn : Fn) : KernelCode := block [
  assertIntrOff fn,
  .loop (fun _ d => (d.ioq q).blocks side) (block [
    .call .lockAcquire (lockAcquire (.queue q)),
    .call .ioqWait (ioqWait q side),
    .call .lockRelease (lockRelease (.queue q)),
    assertIntrOff fn])]

def wakeWaiter (q : Nat) (side : Side) : KernelCode :=
  branch (fun _ d => (d.ioq q).waiter side ≠ none) (.call .wakeUp (wakeUp q side)) skip

/-- `ioq_getchar(ioq)` -/
def ioqGetchar (q : Nat) : KernelCode := block [
  assertIntrOff .ioqGetchar,
  ioqLoop q .consumer .ioqEmpty,
  .eval fun _ d =>
    let byte := (d.ioq q).buf (d.ioq q).tail
    block [
      set fun _ d => d.setIoq q { d.ioq q with tail := IoQueue.nextPos (d.ioq q).tail },
      wakeWaiter q .producer,
      set fun cur d => d.setEax cur byte.toNat]]

/-- `ioq_putchar(ioq, byte)` -/
def ioqPutchar (q : Nat) (byte : UInt8) : KernelCode := block [
  assertIntrOff .ioqPutchar,
  ioqLoop q .producer .ioqFull,
  set fun _ d => d.setIoq q
    { d.ioq q with buf := Function.update (d.ioq q).buf (d.ioq q).head byte },
  set fun _ d => d.setIoq q { d.ioq q with head := IoQueue.nextPos (d.ioq q).head },
  wakeWaiter q .consumer]

/-- `mfree_page(pf, a, pg_cnt)` -/
def mfreePage (pf : PoolFlags) (a : Memory.Address) (pgCnt : Nat) : KernelCode :=
  .act fun _ _ d => do
    let mem ← Memory.mfreePage d.mem pf a pgCnt
    return { d with mem }

/-- The loop of `sys_free` that takes the blocks of an arena off the free list. -/
def removeBlocks (ref : DescRef) (a : Memory.Address) : (left blockIdx : Nat) → KernelCode
  | 0, _ => skip
  | left + 1, blockIdx => .eval fun _ d =>
      let b := arena2block d.mem ref a blockIdx
      block [
        .call .elemFind (elemFind (.freeList ref) b),
        assert .sysFree fun cur d => d.eax cur ≠ 0,
        .call .listRemove (listRemove (.freeList ref) b),
        removeBlocks ref a left (blockIdx + 1)]

/-- The branch of `sys_free` for a small block. -/
def freeBlock (pf : PoolFlags) (ref : DescRef) (a ptr : Memory.Address) : KernelCode := block [
  .call .listAppend (listAppend (.freeList ref) ptr),
  .act fun _ _ d => do
    let ar ← d.mem.readArena a
    let mem ← d.mem.writeArena a { ar with cnt := ar.cnt + 1 }
    return { d with mem },
  .eval fun _ d =>
    match d.mem.readArena a with
    | .error reason => .act fun _ _ _ => .error reason
    | .ok ar =>
        if ar.cnt.toNat = (d.mem.desc ref).blockPerArena then
          block [removeBlocks ref a (d.mem.desc ref).blockPerArena 0, mfreePage pf a 1]
        else skip]

/-- `sys_free(ptr)` -/
def sysFree (ptr : Memory.Address) : KernelCode := block [
  assert .sysFree fun _ _ => ptr ≠ 0,
  assert .sysFree fun cur d => (d.mem.task cur).pgdir.isSome || ptr ≥ kHeapStart,
  .eval fun cur d =>
    let pf := if (d.mem.task cur).pgdir = none then PoolFlags.kernel else .user
    block [
      .call .lockAcquire (lockAcquire (.pool pf)),
      .eval fun _ d =>
        let a := block2arena ptr
        match d.mem.readArena a with
        | .error reason => .act fun _ _ _ => .error reason
        | .ok ar =>
            match ar.desc, ar.large with
            | some ref, false => freeBlock pf ref a ptr
            | _, _ => mfreePage pf a ar.cnt.toNat,
      .call .lockRelease (lockRelease (.pool pf))]]

/-- `inode_close(inode)` -/
def inodeClose (inode : Memory.Address) : KernelCode := block [
  .disable,
  set fun _ d =>
    { d with iOpenCnts := Function.update d.iOpenCnts inode (d.iOpenCnts inode - 1) },
  branch (fun _ d => d.iOpenCnts inode = 0)
    (block [
      .call .listRemove (listRemove .openInodes inode),
      .eval fun cur d =>
        let curPagedirBak := (d.mem.task cur).pgdir
        block [
          set fun cur d => d.setPgdir cur none,
          .call .sysFree (sysFree inode),
          set fun cur d => d.setPgdir cur curPagedirBak]])
    skip,
  .restore]

/-- `intr_timer_handler()` -/
def intrTimerHandler : KernelCode := block [
  assert .intrTimerHandler fun cur d => (d.task cur).stackMagic = 0x20250325,
  set fun cur d => d.onTask cur fun p => { p with elapsedTicks := (p.elapsedTicks + 1) % 2 ^ 32 },
  set fun _ d => { d with ticks := (d.ticks + 1) % 2 ^ 32 },
  branch (fun cur d => (d.task cur).ticks = 0)
    (.call .schedule schedule)
    (set fun cur d => d.onTask cur fun p => { p with ticks := p.ticks - 1 })]

/-- `intr_hd_handler(irq_no)`, with the semaphore of the channel -/
def intrHdHandler (channel : Nat) : KernelCode :=
  branch (fun _ d => d.expectingIntr channel)
    (block [
      set fun _ d => { d with expectingIntr := Function.update d.expectingIntr channel false },
      .call .semaUp (semaUp (.other channel))])
    skip

/-- `intr_keyboard_handler()` for a scancode that stands for the character `curChar`, or for
none; its queue is `kbdBuf`. -/
def intrKeyboardHandler (kbdBuf : Nat) : Option UInt8 → KernelCode
  | none => skip
  | some curChar => block [
      assertIntrOff .ioqFull,
      branch (fun _ d => (d.ioq kbdBuf).full) skip
        (.call .ioqPutchar (ioqPutchar kbdBuf curChar))]

/-- The functions that are only entered with interrupts off. -/
def NeedsIntrOff (fn : KernelFn) : Prop := fn = .schedule ∨ fn = .intrTimerHandler

section

variable {inOff : Prop} {m m' : Mode}

theorem keeps_branch {condition : Tid → KernelData → Bool} {yes no : KernelCode}
    (keepsYes : Keeps NeedsIntrOff inOff m yes m') (keepsNo : Keeps NeedsIntrOff inOff m no m') :
    Keeps NeedsIntrOff inOff m (branch condition yes no) m' :=
  .eval fun cur d => by
    by_cases holds : condition cur d = true
    · rw [if_pos holds]
      exact keepsYes
    · rw [if_neg holds]
      exact keepsNo

theorem keeps_call {fn : KernelFn} {body : KernelCode} (free : ¬ NeedsIntrOff fn)
    (keeps : ∀ inOff, Keeps NeedsIntrOff inOff .same body .same) :
    Keeps NeedsIntrOff inOff m (.call fn body) m :=
  .call (keeps _) fun needs => absurd needs free

theorem keeps_skip : Keeps NeedsIntrOff inOff m skip m := .act m _

theorem keeps_assertNotIn (fn : Fn) (l : ListName) (objElem : Tid → Nat) :
    Keeps NeedsIntrOff inOff m (assertNotIn fn l objElem) m :=
  .eval fun _ _ => .seq (keeps_call (by simp [NeedsIntrOff]) fun _ => .act _ _)
    (.seq (.act _ _) keeps_skip)

theorem keeps_guarded {code : KernelCode}
    (keeps : Keeps NeedsIntrOff inOff .cleared code .cleared) :
    Keeps NeedsIntrOff inOff .same (block [.disable, code, .restore]) .same :=
  .seq .disable (.seq keeps (.seq .restore keeps_skip))

theorem listInsertBefore_keeps (l : ListName) (before : Option Nat) (elem : Nat) :
    Keeps NeedsIntrOff inOff .same (listInsertBefore l before elem) .same :=
  keeps_guarded (.act _ _)

theorem listPush_keeps (l : ListName) (elem : Nat) :
    Keeps NeedsIntrOff inOff .same (listPush l elem) .same :=
  .eval fun _ _ => keeps_call (by simp [NeedsIntrOff]) fun _ => listInsertBefore_keeps l _ elem

theorem listAppend_keeps (l : ListName) (elem : Nat) :
    Keeps NeedsIntrOff inOff .same (listAppend l elem) .same :=
  keeps_call (by simp [NeedsIntrOff]) fun _ => listInsertBefore_keeps l none elem

theorem listRemove_keeps (l : ListName) (pelem : Nat) :
    Keeps NeedsIntrOff inOff .same (listRemove l pelem) .same :=
  keeps_guarded (.act _ _)

theorem listPop_keeps (l : ListName) : Keeps NeedsIntrOff inOff .same (listPop l) .same :=
  .seq (.act _ _) (.seq (.eval fun _ _ =>
    .seq (keeps_call (by simp [NeedsIntrOff]) fun _ => listRemove_keeps l _)
      (.seq (.act _ _) keeps_skip)) keeps_skip)

theorem traverse_keeps {func : Nat → KernelCode}
    (keeps : ∀ elem, Keeps NeedsIntrOff inOff .same (func elem) .same) (elems : List Nat) :
    Keeps NeedsIntrOff inOff .same (traverse func elems) .same := by
  induction elems with
  | nil => exact .act _ _
  | cons elem rest inductionHypothesis =>
      exact .seq (keeps elem) (.seq (keeps_branch (.act _ _) inductionHypothesis) keeps_skip)

theorem threadUnblock_keeps (pthread : Tid) :
    Keeps NeedsIntrOff inOff .same (threadUnblock pthread) .same := by
  have ready : Keeps NeedsIntrOff inOff .cleared
      (branch (fun _ d => (d.task pthread).status ≠ .ready)
        (block [
          assertNotIn .threadUnblock .ready fun _ => pthread,
          .call .listPush (listPush .ready pthread),
          set fun _ d => d.setStatus pthread .ready])
        skip) .cleared :=
    keeps_branch (.seq (keeps_assertNotIn _ _ _)
      (.seq (keeps_call (by simp [NeedsIntrOff]) fun _ => listPush_keeps _ _)
        (.seq (.act _ _) keeps_skip))) keeps_skip
  exact .seq .disable (.seq (.act _ _) (.seq ready (.seq .restore keeps_skip)))

/-- `schedule` switches with the flag as it was at the call. -/
theorem schedule_keeps : Keeps NeedsIntrOff (NeedsIntrOff .schedule) .same schedule .same := by
  have requeued : Keeps NeedsIntrOff (NeedsIntrOff .schedule) .same
      (block [
        assertNotIn .schedule .ready fun cur => cur,
        .eval fun cur _ => .call .listAppend (listAppend .ready cur),
        set fun cur d => d.onTask cur fun p => { p with status := .ready, ticks := p.priority }])
      .same :=
    .seq (keeps_assertNotIn _ _ _) (.seq (.eval fun _ _ =>
      keeps_call (by simp [NeedsIntrOff]) fun _ => listAppend_keeps _ _)
        (.seq (.act _ _) keeps_skip))
  have emptied : Keeps NeedsIntrOff (NeedsIntrOff .schedule) .same
      (.call .listEmpty (listEmpty .ready)) .same :=
    keeps_call (by simp [NeedsIntrOff]) fun _ => .act _ _
  have idle : Keeps NeedsIntrOff (NeedsIntrOff .schedule) .same
      (.eval fun _ d => .call .threadUnblock (threadUnblock d.idleThread)) .same :=
    .eval fun _ _ => keeps_call (by simp [NeedsIntrOff]) fun _ => threadUnblock_keeps _
  have popped : Keeps NeedsIntrOff (NeedsIntrOff .schedule) .same
      (.call .listPop (listPop .ready)) .same :=
    keeps_call (by simp [NeedsIntrOff]) fun _ => listPop_keeps _
  exact .seq (.act _ _) (.seq (keeps_branch requeued keeps_skip) (.seq emptied
    (.seq (keeps_branch idle keeps_skip) (.seq popped (.seq (.eval fun _ _ =>
      .seq (.act _ _) (.seq (.act _ _) (.seq (.switch _ (Or.inr (Or.inl rfl))) keeps_skip)))
        keeps_skip)))))

theorem keeps_schedule : Keeps NeedsIntrOff inOff .cleared (.call .schedule schedule) .cleared :=
  .call schedule_keeps fun _ => Or.inl rfl

theorem threadBlock_keeps (stat : ThreadStatus) :
    Keeps NeedsIntrOff inOff .same (threadBlock stat) .same :=
  .seq (.act _ _) (.seq .disable (.seq (.act _ _) (.seq keeps_schedule
    (.seq .restore keeps_skip))))

theorem threadYield_keeps : Keeps NeedsIntrOff inOff .same threadYield .same :=
  .seq .disable (.seq (keeps_assertNotIn _ _ _) (.seq (.act _ _) (.seq keeps_schedule
    (.seq .restore keeps_skip))))

theorem semaDown_keeps (k : SemaName) : Keeps NeedsIntrOff inOff .same (semaDown k) .same := by
  have sleeps : Keeps NeedsIntrOff inOff .cleared
      (block [
        assertNotIn .semaDown (.waiters k) fun cur => cur,
        .eval fun cur _ => .call .listAppend (listAppend (.waiters k) cur),
        .call .threadBlock (threadBlock .blocked)]) .cleared :=
    .seq (keeps_assertNotIn _ _ _)
      (.seq (.eval fun _ _ => keeps_call (by simp [NeedsIntrOff]) fun _ => listAppend_keeps _ _)
        (.seq (keeps_call (by simp [NeedsIntrOff]) fun _ => threadBlock_keeps _) keeps_skip))
  exact .seq .disable (.seq (.loop sleeps) (.seq (.act _ _) (.seq (.act _ _)
    (.seq .restore keeps_skip))))

theorem semaUp_keeps (k : SemaName) : Keeps NeedsIntrOff inOff .same (semaUp k) .same := by
  have emptied : Keeps NeedsIntrOff inOff .cleared
      (.call .listEmpty (listEmpty (.waiters k))) .cleared :=
    keeps_call (by simp [NeedsIntrOff]) fun _ => .act _ _
  have wakes : Keeps NeedsIntrOff inOff .cleared
      (block [
        .call .listPop (listPop (.waiters k)),
        .eval fun cur d => .call .threadUnblock (threadUnblock (d.eax cur))]) .cleared :=
    .seq (keeps_call (by simp [NeedsIntrOff]) fun _ => listPop_keeps _)
      (.seq (.eval fun _ _ => keeps_call (by simp [NeedsIntrOff]) fun _ => threadUnblock_keeps _)
        keeps_skip)
  exact .seq .disable (.seq (.act _ _) (.seq emptied (.seq (keeps_branch wakes keeps_skip)
    (.seq (.act _ _) (.seq (.act _ _) (.seq .restore keeps_skip))))))

theorem lockAcquire_keeps (l : LockName) :
    Keeps NeedsIntrOff inOff .same (lockAcquire l) .same :=
  keeps_branch (.act _ _)
    (.seq (keeps_call (by simp [NeedsIntrOff]) fun _ => semaDown_keeps _)
      (.seq (.act _ _) (.seq (.act _ _) (.seq (.act _ _) keeps_skip))))

theorem lockRelease_keeps (l : LockName) :
    Keeps NeedsIntrOff inOff .same (lockRelease l) .same :=
  .seq (.act _ _) (.seq (keeps_branch (.act _ _) (.seq (.act _ _) (.seq (.act _ _)
    (.seq (.act _ _) (.seq (keeps_call (by simp [NeedsIntrOff]) fun _ => semaUp_keeps _)
      keeps_skip))))) keeps_skip)

theorem ioqWait_keeps (q : Nat) (side : Side) :
    Keeps NeedsIntrOff inOff .same (ioqWait q side) .same :=
  .seq (.act _ _) (.seq (.act _ _)
    (.seq (keeps_call (by simp [NeedsIntrOff]) fun _ => threadBlock_keeps _) keeps_skip))

theorem wakeUp_keeps (q : Nat) (side : Side) :
    Keeps NeedsIntrOff inOff .same (wakeUp q side) .same :=
  .seq (.act _ _)
    (.seq (.eval fun _ _ => keeps_call (by simp [NeedsIntrOff]) fun _ => threadUnblock_keeps _)
      (.seq (.act _ _) keeps_skip))

theorem wakeWaiter_keeps (q : Nat) (side : Side) :
    Keeps NeedsIntrOff inOff .same (wakeWaiter q side) .same :=
  keeps_branch (keeps_call (by simp [NeedsIntrOff]) fun _ => wakeUp_keeps _ _) keeps_skip

theorem ioqLoop_keeps (q : Nat) (side : Side) (fn : Fn) :
    Keeps NeedsIntrOff inOff .same (ioqLoop q side fn) .same := by
  have sleeps : Keeps NeedsIntrOff inOff .same
      (block [
        .call .lockAcquire (lockAcquire (.queue q)),
        .call .ioqWait (ioqWait q side),
        .call .lockRelease (lockRelease (.queue q)),
        assertIntrOff fn]) .same :=
    .seq (keeps_call (by simp [NeedsIntrOff]) fun _ => lockAcquire_keeps _)
      (.seq (keeps_call (by simp [NeedsIntrOff]) fun _ => ioqWait_keeps _ _)
        (.seq (keeps_call (by simp [NeedsIntrOff]) fun _ => lockRelease_keeps _)
          (.seq (.act _ _) keeps_skip)))
  exact .seq (.act _ _) (.seq (.loop sleeps) keeps_skip)

theorem ioqGetchar_keeps (q : Nat) : Keeps NeedsIntrOff inOff .same (ioqGetchar q) .same :=
  .seq (.act _ _) (.seq (ioqLoop_keeps q _ _) (.seq (.eval fun _ _ =>
    .seq (.act _ _) (.seq (wakeWaiter_keeps q _) (.seq (.act _ _) keeps_skip))) keeps_skip))

theorem ioqPutchar_keeps (q : Nat) (byte : UInt8) :
    Keeps NeedsIntrOff inOff .same (ioqPutchar q byte) .same :=
  .seq (.act _ _) (.seq (ioqLoop_keeps q _ _) (.seq (.act _ _) (.seq (.act _ _)
    (.seq (wakeWaiter_keeps q _) keeps_skip))))

theorem removeBlocks_keeps (ref : DescRef) (a : Memory.Address) (left blockIdx : Nat) :
    Keeps NeedsIntrOff inOff .same (removeBlocks ref a left blockIdx) .same := by
  induction left generalizing blockIdx with
  | zero => exact keeps_skip
  | succ left inductionHypothesis =>
      exact .eval fun _ _ =>
        .seq (keeps_call (by simp [NeedsIntrOff]) fun _ => .act _ _) (.seq (.act _ _)
          (.seq (keeps_call (by simp [NeedsIntrOff]) fun _ => listRemove_keeps _ _)
            (.seq (inductionHypothesis (blockIdx + 1)) keeps_skip)))

theorem freeBlock_keeps (pf : PoolFlags) (ref : DescRef) (a ptr : Memory.Address) :
    Keeps NeedsIntrOff inOff .same (freeBlock pf ref a ptr) .same := by
  refine .seq (keeps_call (by simp [NeedsIntrOff]) fun _ => listAppend_keeps _ _)
    (.seq (.act _ _) (.seq (.eval fun _ d => ?_) keeps_skip))
  cases d.mem.readArena a with
  | error reason => exact .act _ _
  | ok ar =>
      dsimp only
      split
      next => exact .seq (removeBlocks_keeps ref a _ 0) (.seq (.act _ _) keeps_skip)
      next => exact keeps_skip

theorem sysFree_keeps (ptr : Memory.Address) :
    Keeps NeedsIntrOff inOff .same (sysFree ptr) .same := by
  refine .seq (.act _ _) (.seq (.act _ _) (.seq (.eval fun _ _ =>
    .seq (keeps_call (by simp [NeedsIntrOff]) fun _ => lockAcquire_keeps _)
      (.seq (.eval fun _ d => ?_)
        (.seq (keeps_call (by simp [NeedsIntrOff]) fun _ => lockRelease_keeps _) keeps_skip)))
    keeps_skip))
  dsimp only
  cases d.mem.readArena (block2arena ptr) with
  | error reason => exact .act _ _
  | ok ar =>
      dsimp only
      split
      next => exact freeBlock_keeps _ _ _ _
      next => exact .act _ _

theorem inodeClose_keeps (inode : Memory.Address) :
    Keeps NeedsIntrOff inOff .same (inodeClose inode) .same := by
  have frees : Keeps NeedsIntrOff inOff .cleared
      (block [
        .call .listRemove (listRemove .openInodes inode),
        .eval fun cur d =>
          let curPagedirBak := (d.mem.task cur).pgdir
          block [
            set fun cur d => d.setPgdir cur none,
            .call .sysFree (sysFree inode),
            set fun cur d => d.setPgdir cur curPagedirBak]]) .cleared :=
    .seq (keeps_call (by simp [NeedsIntrOff]) fun _ => listRemove_keeps _ _)
      (.seq (.eval fun _ _ => .seq (.act _ _)
        (.seq (keeps_call (by simp [NeedsIntrOff]) fun _ => sysFree_keeps _)
          (.seq (.act _ _) keeps_skip))) keeps_skip)
  exact .seq .disable (.seq (.act _ _) (.seq (keeps_branch frees keeps_skip)
    (.seq .restore keeps_skip)))

/-- The timer handler calls `schedule` with the flag as the interrupt left it. -/
theorem intrTimerHandler_keeps :
    Keeps NeedsIntrOff (NeedsIntrOff .intrTimerHandler) .same intrTimerHandler .same :=
  .seq (.act _ _) (.seq (.act _ _) (.seq (.act _ _) (.seq
    (keeps_branch (.call schedule_keeps fun _ => Or.inr (Or.inr rfl)) (.act _ _)) keeps_skip)))

theorem intrHdHandler_keeps (channel : Nat) :
    Keeps NeedsIntrOff inOff .same (intrHdHandler channel) .same :=
  keeps_branch (.seq (.act _ _)
    (.seq (keeps_call (by simp [NeedsIntrOff]) fun _ => semaUp_keeps _) keeps_skip)) keeps_skip

theorem intrKeyboardHandler_keeps (kbdBuf : Nat) (curChar : Option UInt8) :
    Keeps NeedsIntrOff inOff .same (intrKeyboardHandler kbdBuf curChar) .same := by
  cases curChar with
  | none => exact keeps_skip
  | some curChar =>
      exact .seq (.act _ _) (.seq (keeps_branch keeps_skip
        (keeps_call (by simp [NeedsIntrOff]) fun _ => ioqPutchar_keeps _ _)) keeps_skip)

end

end KernelCode

open KernelCode

/-- A function as a thread's own code calls it. -/
inductive KernelCall where
  | listInsertBefore (l : ListName) (before : Option Nat) (elem : Nat)
  | listPush (l : ListName) (elem : Nat)
  | listAppend (l : ListName) (elem : Nat)
  | listRemove (l : ListName) (pelem : Nat)
  | listPop (l : ListName)
  | elemFind (l : ListName) (objElem : Nat)
  | listLen (l : ListName)
  | listEmpty (l : ListName)
  /-- The function that is called for each element leaves the flag as it is. -/
  | listTraversal (l : ListName) (func : Nat → KernelCode)
      (keeps : ∀ inOff elem, Keeps NeedsIntrOff inOff .same (func elem) .same)
  | threadBlock (stat : ThreadStatus)
  | threadUnblock (pthread : Tid)
  | threadYield
  | semaDown (k : SemaName)
  | semaUp (k : SemaName)
  | lockAcquire (l : LockName)
  | lockRelease (l : LockName)
  | ioqGetchar (q : Nat)
  | ioqPutchar (q : Nat) (byte : UInt8)
  | sysFree (ptr : Memory.Address)
  | inodeClose (inode : Memory.Address)

/-- The function and its body. -/
def KernelCall.code : KernelCall → KernelFn × KernelCode
  | .listInsertBefore l before elem =>
      (.listInsertBefore, KernelCode.listInsertBefore l before elem)
  | .listPush l elem => (.listPush, KernelCode.listPush l elem)
  | .listAppend l elem => (.listAppend, KernelCode.listAppend l elem)
  | .listRemove l pelem => (.listRemove, KernelCode.listRemove l pelem)
  | .listPop l => (.listPop, KernelCode.listPop l)
  | .elemFind l objElem => (.elemFind, KernelCode.elemFind l objElem)
  | .listLen l => (.listLen, KernelCode.listLen l)
  | .listEmpty l => (.listEmpty, KernelCode.listEmpty l)
  | .listTraversal l func _ => (.listTraversal, KernelCode.listTraversal l func)
  | .threadBlock stat => (.threadBlock, KernelCode.threadBlock stat)
  | .threadUnblock pthread => (.threadUnblock, KernelCode.threadUnblock pthread)
  | .threadYield => (.threadYield, KernelCode.threadYield)
  | .semaDown k => (.semaDown, KernelCode.semaDown k)
  | .semaUp k => (.semaUp, KernelCode.semaUp k)
  | .lockAcquire l => (.lockAcquire, KernelCode.lockAcquire l)
  | .lockRelease l => (.lockRelease, KernelCode.lockRelease l)
  | .ioqGetchar q => (.ioqGetchar, KernelCode.ioqGetchar q)
  | .ioqPutchar q byte => (.ioqPutchar, KernelCode.ioqPutchar q byte)
  | .sysFree ptr => (.sysFree, KernelCode.sysFree ptr)
  | .inodeClose inode => (.inodeClose, KernelCode.inodeClose inode)

/-- The interrupts. -/
inductive IrqLine where
  | timer
  | disk (channel : Nat)
  | keyboard (curChar : Option UInt8)

def IrqLine.code (kbdBuf : Nat) : IrqLine → KernelFn × KernelCode
  | .timer => (.intrTimerHandler, intrTimerHandler)
  | .disk channel => (.intrHdHandler, intrHdHandler channel)
  | .keyboard curChar => (.intrKeyboardHandler, intrKeyboardHandler kbdBuf curChar)

theorem kernel_wellformed (kbdBuf : Nat) :
    State.Wellformed NeedsIntrOff KernelCall.code (IrqLine.code kbdBuf) := by
  constructor
  · intro call
    refine ⟨?_, by cases call <;> simp [NeedsIntrOff, KernelCall.code]⟩
    cases call with
    | listInsertBefore l before elem => exact listInsertBefore_keeps l before elem
    | listPush l elem => exact listPush_keeps l elem
    | listAppend l elem => exact listAppend_keeps l elem
    | listRemove l pelem => exact listRemove_keeps l pelem
    | listPop l => exact listPop_keeps l
    | elemFind l objElem => exact .act _ _
    | listLen l => exact .act _ _
    | listEmpty l => exact .act _ _
    | listTraversal l func keeps => exact .eval fun _ _ => traverse_keeps (keeps _) _
    | threadBlock stat => exact threadBlock_keeps stat
    | threadUnblock pthread => exact threadUnblock_keeps pthread
    | threadYield => exact threadYield_keeps
    | semaDown k => exact semaDown_keeps k
    | semaUp k => exact semaUp_keeps k
    | lockAcquire l => exact lockAcquire_keeps l
    | lockRelease l => exact lockRelease_keeps l
    | ioqGetchar q => exact ioqGetchar_keeps q
    | ioqPutchar q byte => exact ioqPutchar_keeps q byte
    | sysFree ptr => exact sysFree_keeps ptr
    | inodeClose inode => exact inodeClose_keeps inode
  · intro line
    cases line with
    | timer => exact intrTimerHandler_keeps
    | disk channel => exact intrHdHandler_keeps channel
    | keyboard curChar => exact intrKeyboardHandler_keeps kbdBuf curChar

/-- In every run, whatever the threads' own code does and whenever interrupts come, a
function about to return finds the interrupt flag as it was at the call, and `schedule` has
been entered with interrupts off. -/
theorem flag_restored {kbdBuf : Nat} {data : KernelData} {flag : Bool} {running : Tid}
    {events : List (Event KernelData KernelCall IrqLine)}
    {states : List (State Tid KernelData Halt KernelFn)}
    (ran : trace (State.step .disabled KernelCall.code (IrqLine.code kbdBuf))
      (State.start data flag running) events = .ok states) :
    ∀ s ∈ states,
      (∀ frame below, s.stack s.running = frame :: below → frame.code = [] →
        s.flag = frame.atCall) ∧
      ∀ t, ∀ frame ∈ s.stack t, frame.name = .schedule → frame.atCall = false := by
  intro s member
  obtain ⟨returns, off⟩ := State.run_keeps (kernel_wellformed kbdBuf) ran s member
  exact ⟨returns, fun t frame inStack isSchedule => off t frame inStack (Or.inl isSchedule)⟩

/-- Thread 1 runs, thread 2 is ready, and all semaphores are taken. -/
def twoThreads : KernelData where
  task t := { initThread 31 with status := if t = 1 then .running else .ready }
  readyList := [2]
  idleThread := 3
  ticks := 0
  mem := { powerOn with runningThread := 1 }
  ioq _ := ⟨lockInit, none, none, fun _ => 0, 0, 0⟩
  lock _ := lockInit
  sema _ := ⟨0, []⟩
  openInodes := []
  list _ := []
  iOpenCnts _ := 0
  expectingIntr _ := false
  eax _ := 0

/-- Thread 1 calls `sema_down` with interrupts on, and sleeps. -/
def fallsAsleep : List (Event KernelData KernelCall IrqLine) :=
  .call (.semaDown (.other 0)) :: List.replicate 77 .statement

/-- What the threads share when thread 1 sleeps. -/
def asleep : KernelData :=
  ((trace (State.step .disabled KernelCall.code (IrqLine.code 0))
    (State.start (φ := KernelFn) twoThreads true 1) fallsAsleep).toOption.bind
      List.getLast?).elim twoThreads State.data

/-- Thread 2 finds the flag clear, sets it, wakes thread 1 and goes to sleep itself. -/
def wakesUp : List (Event KernelData KernelCall IrqLine) :=
  .own asleep true :: .call (.semaUp (.other 0)) :: List.replicate 78 .statement ++
    .call (.semaDown (.other 1)) :: List.replicate 94 .statement

set_option maxRecDepth 4000 in
theorem wakesUp_runs : ∃ states : List (State Tid KernelData Halt KernelFn),
    trace (State.step .disabled KernelCall.code (IrqLine.code 0))
        (State.start twoThreads true 1) (fallsAsleep ++ wakesUp) = .ok states ∧
      (states.getLast?.map fun s => (s.running, s.flag, s.data.sema 0)) =
        some (1, true, ⟨0, []⟩) := by
  have last : ((trace (State.step .disabled KernelCall.code (IrqLine.code 0))
      (State.start (φ := KernelFn) twoThreads true 1)
      (fallsAsleep ++ wakesUp)).toOption.bind fun states =>
        states.getLast?.map fun s => (s.running, s.flag, s.data.sema 0)) =
      some (1, true, ⟨0, []⟩) := by decide +kernel
  cases ran : trace (State.step .disabled KernelCall.code (IrqLine.code 0))
      (State.start (φ := KernelFn) twoThreads true 1) (fallsAsleep ++ wakesUp) with
  | error reason =>
      rw [ran] at last
      cases last
  | ok states =>
      rw [ran] at last
      exact ⟨states, rfl, last⟩

/-- A whole call of `sema_down` that sleeps while another thread sets the flag. -/
theorem flag_restored_semaDown : ∃ states : List (State Tid KernelData Halt KernelFn),
    trace (State.step .disabled KernelCall.code (IrqLine.code 0))
        (State.start twoThreads true 1) (fallsAsleep ++ wakesUp) = .ok states ∧
      (states.getLast?.map fun s => (s.running, s.flag, s.data.sema 0)) =
        some (1, true, ⟨0, []⟩) ∧
      ∀ s ∈ states,
        (∀ frame below, s.stack s.running = frame :: below → frame.code = [] →
          s.flag = frame.atCall) ∧
        ∀ t, ∀ frame ∈ s.stack t, frame.name = .schedule → frame.atCall = false := by
  obtain ⟨states, ran, last⟩ := wakesUp_runs
  exact ⟨states, ran, last, flag_restored ran⟩

end HongbaiOS.Kernel
