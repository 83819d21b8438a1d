import HongbaiOS.Library.Ring
import HongbaiOS.Library.Run
import HongbaiOS.Thread.Cpu

/-!
# The queue between a device and its readers

`ioq_getchar` and `ioq_putchar` as called by any number of threads.  Interrupts are off
during a call, so a thread gives the CPU away only where it goes to sleep: on the
queue's lock, or as the one waiting consumer or producer.
-/

namespace HongbaiOS.Device

open HongbaiOS.Library HongbaiOS.Kernel HongbaiOS.Thread

/-- `bufsize` -/
def bufsize : Nat := 64

/-- The two waiter slots of a queue. -/
inductive Side where
  | consumer | producer
  deriving DecidableEq

/-- `struct ioqueue` -/
structure IoQueue where
  lock : Lock
  producer : Option Tid
  consumer : Option Tid
  buf : Nat → UInt8
  head : Nat
  tail : Nat

namespace IoQueue

/-- `next_pos(pos)` -/
def nextPos (pos : Nat) : Nat := Ring.next bufsize pos

/-- `ioq_full(ioq)` -/
def full (ioq : IoQueue) : Bool := nextPos ioq.head = ioq.tail

/-- `ioq_empty(ioq)` -/
def empty (ioq : IoQueue) : Bool := ioq.head = ioq.tail

/-- The condition under which a thread may sleep in a slot. -/
def blocks (ioq : IoQueue) : Side → Bool
  | .consumer => ioq.empty
  | .producer => ioq.full

def waiter (ioq : IoQueue) : Side → Option Tid
  | .consumer => ioq.consumer
  | .producer => ioq.producer

def setWaiter (ioq : IoQueue) (side : Side) (t : Option Tid) : IoQueue :=
  match side with
  | .consumer => { ioq with consumer := t }
  | .producer => { ioq with producer := t }

def setLock (ioq : IoQueue) (lock : Lock) : IoQueue := { ioq with lock := lock }

/-- The lock after `cur` has taken it from nobody. -/
def lockTaken (ioq : IoQueue) (cur : Tid) : Lock :=
  ⟨{ ioq.lock.semaphore with value := 0 }, some cur, 1⟩

/-- The lock after `cur` has joined the sleepers. -/
def lockAwaited (ioq : IoQueue) (cur : Tid) : Lock :=
  { ioq.lock with semaphore :=
    { ioq.lock.semaphore with waiters := ioq.lock.semaphore.waiters ++ [cur] } }

/-- The characters from `tail` to `head`. -/
def contents (ioq : IoQueue) : List UInt8 := Ring.contents bufsize ioq.buf ioq.head ioq.tail

end IoQueue

inductive IoCall where
  | getchar
  | putchar (byte : UInt8)
  deriving DecidableEq

namespace IoCall

/-- The slot in which the call waits. -/
def side : IoCall → Side
  | getchar => .consumer
  | putchar _ => .producer

/-- The condition of its `while` loop. -/
def mustWait (ioq : IoQueue) (call : IoCall) : Bool := ioq.blocks call.side

end IoCall

/-- Where a thread stands that has given the CPU away inside a call. -/
inductive IoFrame where
  /-- In the `lock_acquire` of the loop. -/
  | locking (call : IoCall)
  /-- In the `ioq_wait` of the loop, with the lock held. -/
  | waiting (call : IoCall)
  deriving DecidableEq

def IoFrame.call : IoFrame → IoCall
  | locking call | waiting call => call

structure IoUse where
  cpu : Cpu
  ioq : IoQueue
  frame : Tid → Option IoFrame
  /-- The characters stored so far, oldest first. -/
  accepted : List UInt8
  /-- The characters that calls of `ioq_getchar` have returned. -/
  returned : List UInt8

namespace IoUse

def setFrame (s : IoUse) (t : Tid) (frame : Option IoFrame) : IoUse :=
  { s with frame := Function.update s.frame t frame }

/-- `ioq_wait(waiter)` up to the switch. -/
def ioqWait (s : IoUse) (cur : Tid) (call : IoCall) : Except Halt IoUse := do
  check .ioqWait (s.ioq.waiter call.side = none)
  let cpu ← s.cpu.threadBlock
  return { s with cpu, ioq := s.ioq.setWaiter call.side (some cur) }.setFrame cur
    (some (.waiting call))

/-- `wake_up(waiter)` -/
def wakeUp (s : IoUse) (side : Side) : Except Halt IoUse :=
  match s.ioq.waiter side with
  | none => .error (.panic .wakeUp)
  | some t => do
      let cpu ← s.cpu.threadUnblock t
      return { s with cpu, ioq := s.ioq.setWaiter side none }

/-- The end of both functions. -/
def wakeWaiter (s : IoUse) (side : Side) : Except Halt IoUse :=
  if s.ioq.waiter side ≠ none then s.wakeUp side else .ok s

/-- `ioq_getchar` behind its loop. -/
def takeChar (s : IoUse) : Except Halt IoUse :=
  let byte := s.ioq.buf s.ioq.tail
  { s with
    ioq := { s.ioq with tail := IoQueue.nextPos s.ioq.tail }
    returned := s.returned ++ [byte] }.wakeWaiter .producer

/-- `ioq_putchar` behind its loop. -/
def storeChar (s : IoUse) (byte : UInt8) : Except Halt IoUse :=
  { s with
    ioq := { s.ioq with
      buf := Function.update s.ioq.buf s.ioq.head byte
      head := IoQueue.nextPos s.ioq.head }
    accepted := s.accepted ++ [byte] }.wakeWaiter .consumer

/-- The body of the loop behind `lock_acquire`, if the lock was taken. -/
def afterLock (s : IoUse) (cur : Tid) (call : IoCall) (taken : Bool) : Except Halt IoUse :=
  if taken then s.ioqWait cur call else .ok (s.setFrame cur (some (.locking call)))

def loop (s : IoUse) (cur : Tid) (call : IoCall) : Except Halt IoUse :=
  if call.mustWait s.ioq then do
    let (taken, lock, cpu) ← s.cpu.lockAcquire cur s.ioq.lock
    { s with cpu, ioq := s.ioq.setLock lock }.afterLock cur call taken
  else match call with
    | .getchar => s.takeChar
    | .putchar byte => s.storeChar byte

/-- `ioq_getchar(ioq)` called by `cur` -/
def ioqGetchar (s : IoUse) (cur : Tid) : Except Halt IoUse := s.loop cur .getchar

/-- `ioq_putchar(ioq, byte)` called by `cur` -/
def ioqPutchar (s : IoUse) (cur : Tid) (byte : UInt8) : Except Halt IoUse :=
  s.loop cur (.putchar byte)

/-- A thread that was switched to goes on inside its call. -/
def resume (s : IoUse) (cur : Tid) : Except Halt IoUse :=
  match s.frame cur with
  | none => .error .disabled
  | some (.locking call) => do
      let (taken, lock, cpu) ← s.cpu.lockDown cur s.ioq.lock
      { s with cpu, ioq := s.ioq.setLock lock }.afterLock cur call taken
  | some (.waiting call) => do
      let (lock, cpu) ← s.cpu.lockRelease cur s.ioq.lock
      ({ s with cpu, ioq := s.ioq.setLock lock }.setFrame cur none).loop cur call

end IoUse

inductive IoAction where
  /-- `schedule` switches to a ready thread. -/
  | dispatch (next : Tid)
  /-- The timer interrupt takes the CPU from the running thread. -/
  | preempt
  | ioqGetchar
  | ioqPutchar (byte : UInt8)
  /-- The running thread goes on inside the call in which it slept. -/
  | resume
  /-- `intr_keyboard_handler` puts a character, on top of whatever runs. -/
  | keyPress (byte : UInt8)
  /-- The running thread goes to sleep for another reason. -/
  | threadBlock
  /-- The running thread wakes one that sleeps for another reason. -/
  | threadUnblock (t : Tid)

def IoAction.isResume : IoAction → Bool
  | resume => true
  | _ => false

namespace IoUse

/-- Interrupts are on: the running thread, if there is one, is in its own code. -/
def InOwnCode (s : IoUse) : Prop := ∀ t, s.cpu.runningThread = some t → s.frame t = none

instance (s : IoUse) : Decidable s.InOwnCode :=
  match runs : s.cpu.runningThread with
  | none => isTrue fun t same => by simp [runs] at same
  | some cur =>
      if own : s.frame cur = none then
        isTrue fun t same => by
          rw [runs] at same
          rwa [← Option.some.inj same]
      else isFalse fun all => own (all cur runs)

/-- One step of the threads that use the queue. -/
def step (s : IoUse) (a : IoAction) : Except Halt IoUse :=
  match a, s.cpu.runningThread with
  | .dispatch next, none => do
      let cpu ← s.cpu.dispatch next
      return { s with cpu }
  | .resume, some cur => s.resume cur
  | .keyPress byte, _ =>
      if s.InOwnCode then if s.ioq.full then .ok s else s.storeChar byte
      else .error .disabled
  | .preempt, some cur =>
      if s.frame cur = none then do
        let cpu ← s.cpu.preempt
        return { s with cpu }
      else .error .disabled
  | .ioqGetchar, some cur =>
      if s.frame cur = none then s.ioqGetchar cur else .error .disabled
  | .ioqPutchar byte, some cur =>
      if s.frame cur = none then s.ioqPutchar cur byte else .error .disabled
  | .threadBlock, some cur =>
      if s.frame cur = none then do
        let cpu ← s.cpu.threadBlock
        return { s with cpu }
      else .error .disabled
  | .threadUnblock t, some cur =>
      if s.frame cur = none ∧ s.frame t = none ∧ s.cpu.status t = .blocked then do
        let cpu ← s.cpu.threadUnblock t
        return { s with cpu }
      else .error .disabled
  | _, _ => .error .disabled

/-- After `ioqueue_init(ioq)`; `buf` is what the buffer held before. -/
def start (threads : List Tid) (buf : Nat → UInt8) : IoUse where
  cpu := Cpu.start threads
  ioq := ⟨lockInit, none, none, buf, 0, 0⟩
  frame := fun _ => none
  accepted := []
  returned := []

end IoUse

namespace IoQueue

variable {ioq : IoQueue} {side side' : Side} {t : Option Tid}

@[simp]
theorem waiter_setWaiter :
    (ioq.setWaiter side t).waiter side' = if side' = side then t else ioq.waiter side' := by
  cases side <;> cases side' <;> rfl

@[simp]
theorem waiter_setLock (lock : Lock) : (ioq.setLock lock).waiter side = ioq.waiter side := by
  cases side <;> rfl

@[simp]
theorem blocks_setWaiter : (ioq.setWaiter side t).blocks side' = ioq.blocks side' := by
  cases side <;> cases side' <;> rfl

@[simp]
theorem blocks_setLock (lock : Lock) : (ioq.setLock lock).blocks side = ioq.blocks side := by
  cases side <;> rfl

theorem setWaiter_lock (ioq : IoQueue) (side : Side) (t : Option Tid) :
    (ioq.setWaiter side t).lock = ioq.lock := by
  cases side <;> rfl

theorem setWaiter_ring (ioq : IoQueue) (side : Side) (t : Option Tid) :
    (ioq.setWaiter side t).head = ioq.head ∧
    (ioq.setWaiter side t).tail = ioq.tail ∧ (ioq.setWaiter side t).buf = ioq.buf := by
  cases side <;> exact ⟨rfl, rfl, rfl⟩

end IoQueue

namespace IoUse

/-- A thread is in a slot only while the buffer is empty, or full. -/
def Honest (s : IoUse) : Prop :=
  ∀ side t, s.ioq.waiter side = some t → s.ioq.blocks side = true

/-- The thread slept in the `lock_acquire` of its loop and gets the lock now, when the
condition it tested before no longer holds. -/
def StaleTest (s : IoUse) (cur : Tid) : Prop :=
  ∃ call, s.frame cur = some (.locking call) ∧ s.ioq.lock.semaphore.value = 1 ∧
    call.mustWait s.ioq = false

/-- The step is the continuation of such a thread. -/
def Stale (s : IoUse) (a : IoAction) : Prop :=
  a = .resume ∧ ∃ cur, s.cpu.runningThread = some cur ∧ s.StaleTest cur

theorem stale_iff (s : IoUse) (a : IoAction) : s.Stale a ↔ a.isResume = true ∧
    ∃ cur ∈ s.cpu.runningThread.toList, ∃ inside ∈ (s.frame cur).toList,
      inside = .locking inside.call ∧ s.ioq.lock.semaphore.value = 1 ∧
        inside.call.mustWait s.ioq = false := by
  have isResume : a = .resume ↔ a.isResume = true := by
    cases a <;> simp [IoAction.isResume]
  rw [Stale, isResume]
  simp only [StaleTest, Option.mem_toList]
  refine and_congr_right fun _ => exists_congr fun cur => and_congr_right fun _ => ?_
  constructor
  · rintro ⟨call, frame, stale⟩
    exact ⟨_, frame, rfl, stale⟩
  · rintro ⟨inside, frame, locking, stale⟩
    exact ⟨inside.call, frame.trans (congrArg some locking), stale⟩

instance (s : IoUse) (a : IoAction) : Decidable (s.Stale a) :=
  decidable_of_iff' _ (stale_iff s a)

/-- The buffer holds what has been accepted and not yet returned. -/
structure Fifo (ioq : IoQueue) (accepted returned : List UInt8) : Prop where
  head : ioq.head < bufsize
  tail : ioq.tail < bufsize
  order : accepted = returned ++ ioq.contents

structure Ordered (s : IoUse) : Prop where
  cpu : s.cpu.Consistent
  waits : Cpu.Waits s.cpu s.ioq.lock.semaphore fun t => ∃ call, s.frame t = some (.locking call)
  holder : ∀ t, s.ioq.lock.holder = some t ↔ ∃ call, s.frame t = some (.waiting call)
  free : s.ioq.lock.holder = none ↔ s.ioq.lock.semaphore.value = 1
  count : s.ioq.lock.holderRepeatNr = if s.ioq.lock.holder = none then 0 else 1
  slot : ∀ side t, s.ioq.waiter side = some t ↔ s.cpu.status t = .blocked ∧
    ∃ call, s.frame t = some (.waiting call) ∧ call.side = side
  fifo : Fifo s.ioq s.accepted s.returned

variable {s s' : IoUse} {cur t : Tid} {call : IoCall} {side : Side} {byte : UInt8}

theorem Fifo.setWaiter {ioq : IoQueue} {accepted returned : List UInt8} {t : Option Tid}
    (fifo : Fifo ioq accepted returned) :
    Fifo (ioq.setWaiter side t) accepted returned := by
  obtain ⟨head, tail, buf⟩ := IoQueue.setWaiter_ring ioq side t
  refine ⟨by rw [head]; exact fifo.head, by rw [tail]; exact fifo.tail, ?_⟩
  rw [IoQueue.contents, head, tail, buf]
  exact fifo.order

theorem Fifo.setLock {ioq : IoQueue} {accepted returned : List UInt8}
    (fifo : Fifo ioq accepted returned) (lock : Lock) :
    Fifo (ioq.setLock lock) accepted returned := ⟨fifo.head, fifo.tail, fifo.order⟩

theorem start_ordered {threads : List Tid} (nodup : threads.Nodup) (buf : Nat → UInt8) :
    (start threads buf).Ordered := by
  refine ⟨Cpu.start_consistent nodup, ⟨Or.inr rfl, List.nodup_nil, fun t => ?_, ?_⟩, fun t => ?_,
    iff_of_true rfl rfl, rfl, fun side t => ?_, ⟨Nat.zero_lt_succ 63, Nat.zero_lt_succ 63, ?_⟩⟩
  · simp [start, lockInit]
  · exact fun _ some => absurd rfl some
  · simp [start, lockInit]
  · cases side <;> simp [start, IoQueue.waiter]
  · rfl

namespace Ordered

/-- Steps of the scheduler that neither wake nor put to sleep a thread inside a call. -/
theorem setCpu (ordered : s.Ordered) {cpu : Cpu} (consistent : cpu.Consistent)
    (same : ∀ t, s.frame t ≠ none →
      (cpu.status t = .blocked ↔ s.cpu.status t = .blocked)) :
    Ordered { s with cpu } := by
  refine ⟨consistent, ordered.waits.of_status fun t locking => ?_, ordered.holder, ordered.free,
    ordered.count, fun side t => ?_, ordered.fifo⟩
  · obtain ⟨call, frame⟩ := locking
    exact same t (by simp [frame])
  · refine (ordered.slot side t).trans (and_congr_left fun waiting => ?_)
    obtain ⟨call, frame, -⟩ := waiting
    exact (same t (by simp [frame])).symm

/-- A thread in a slot is waiting, so it holds the lock. -/
theorem holder_of_waiter (ordered : s.Ordered) (waiter : s.ioq.waiter side = some t) :
    s.ioq.lock.holder = some t := by
  obtain ⟨-, call, frame, -⟩ := (ordered.slot side t).mp waiter
  exact (ordered.holder t).mpr ⟨call, frame⟩

theorem setFifo (ordered : s.Ordered) {ioq : IoQueue} {accepted returned : List UInt8}
    (fifo : Fifo ioq accepted returned) (sameLock : ioq.lock = s.ioq.lock)
    (sameWaiter : ioq.waiter = s.ioq.waiter) :
    Ordered { s with ioq, accepted, returned } := by
  refine ⟨ordered.cpu, ?_, ?_, ?_, ?_, ?_, fifo⟩
  · simpa only [sameLock] using ordered.waits
  · simpa only [sameLock] using ordered.holder
  · simpa only [sameLock] using ordered.free
  · simpa only [sameLock] using ordered.count
  · simpa only [sameWaiter] using ordered.slot

/-- Waking the thread in a slot empties the slot. -/
theorem wakeWaiter (ordered : s.Ordered) (side : Side) :
    ∃ s', s.wakeWaiter side = .ok s' ∧ s'.Ordered ∧
      ∀ side', s'.ioq.waiter side' = if side' = side then none else s.ioq.waiter side' := by
  cases waiter : s.ioq.waiter side with
  | none =>
      refine ⟨s, by simp [IoUse.wakeWaiter, waiter], ordered, fun side' => ?_⟩
      split
      next same => rw [same, waiter]
      next => rfl
  | some t =>
      obtain ⟨asleep, call, frame, onSide⟩ := (ordered.slot side t).mp waiter
      refine ⟨{ s with cpu := s.cpu.wake t, ioq := s.ioq.setWaiter side none }, ?_,
        ⟨ordered.cpu.wake asleep, ?_, ?_, ?_, ?_, fun side' u => ?_, ordered.fifo.setWaiter⟩,
        fun side' => IoQueue.waiter_setWaiter⟩
      · simp [IoUse.wakeWaiter, wakeUp, waiter, ordered.cpu.threadUnblock_eq asleep]
      · change Cpu.Waits _ (s.ioq.setWaiter side none).lock.semaphore _
        rw [IoQueue.setWaiter_lock]
        refine ordered.waits.of_status fun u locking => ?_
        obtain ⟨other, isLocking⟩ := locking
        have different : u ≠ t := by
          rintro rfl
          rw [frame] at isLocking
          cases isLocking
        simp [different]
      · simpa only [IoQueue.setWaiter_lock] using ordered.holder
      · simpa only [IoQueue.setWaiter_lock] using ordered.free
      · simpa only [IoQueue.setWaiter_lock] using ordered.count
      · have slot := ordered.slot side' u
        simp only [IoQueue.waiter_setWaiter, Cpu.wake_status]
        by_cases same : u = t
        · subst same
          have gone : side' = side ∨ s.ioq.waiter side' ≠ some u := by
            by_contra both
            rw [not_or, not_not] at both
            obtain ⟨-, other, otherFrame, otherSide⟩ := slot.mp both.2
            rw [frame] at otherFrame
            cases otherFrame
            exact both.1 (otherSide.symm.trans onSide)
          rcases gone with rfl | absent
          · simp
          · simp [absent]
        · by_cases sameSide : side' = side
          · subst sameSide
            have absent : s.ioq.waiter side' ≠ some u := by
              rw [waiter]
              exact fun equal => same (Option.some.inj equal).symm
            simpa [same, absent] using slot
          · simpa [same, sameSide] using slot

theorem takeChar (ordered : s.Ordered) (some : s.ioq.empty = false) :
    ∃ s', s.takeChar = .ok s' ∧ s'.Ordered ∧
      ∀ side, s'.ioq.waiter side = if side = .producer then none else s.ioq.waiter side := by
  have apart : s.ioq.head ≠ s.ioq.tail := by simpa [IoQueue.empty] using some
  obtain ⟨head, tail, order⟩ := ordered.fifo
  have first := Ring.contents_take s.ioq.buf head tail apart
  have ring : Fifo { s.ioq with tail := IoQueue.nextPos s.ioq.tail } s.accepted
      (s.returned ++ [s.ioq.buf s.ioq.tail]) := by
    refine ⟨head, Ring.next_lt tail, ?_⟩
    rw [order, IoQueue.contents, first]
    simp [IoQueue.contents, IoQueue.nextPos]
  have sameWaiter : ∀ side, IoQueue.waiter { s.ioq with
      tail := IoQueue.nextPos s.ioq.tail } side = s.ioq.waiter side := by
    intro side
    cases side <;> rfl
  obtain ⟨s', ran, kept, waiters⟩ :=
    (ordered.setFifo ring rfl (funext sameWaiter)).wakeWaiter .producer
  refine ⟨s', ran, kept, fun side => ?_⟩
  rw [waiters side, ← sameWaiter side]

theorem storeChar (ordered : s.Ordered) (room : s.ioq.full = false) (byte : UInt8) :
    ∃ s', s.storeChar byte = .ok s' ∧ s'.Ordered ∧
      ∀ side, s'.ioq.waiter side = if side = .consumer then none else s.ioq.waiter side := by
  have notFull : Ring.next bufsize s.ioq.head ≠ s.ioq.tail := of_decide_eq_false room
  obtain ⟨head, tail, order⟩ := ordered.fifo
  have last := Ring.contents_put s.ioq.buf byte head tail notFull
  have ring : Fifo { s.ioq with
      buf := Function.update s.ioq.buf s.ioq.head byte
      head := IoQueue.nextPos s.ioq.head } (s.accepted ++ [byte]) s.returned := by
    refine ⟨Ring.next_lt head, tail, ?_⟩
    rw [order, List.append_assoc]
    exact congrArg (s.returned ++ ·) last.symm
  have sameWaiter : ∀ side, IoQueue.waiter { s.ioq with
      buf := Function.update s.ioq.buf s.ioq.head byte
      head := IoQueue.nextPos s.ioq.head } side = s.ioq.waiter side := by
    intro side
    cases side <;> rfl
  obtain ⟨s', ran, kept, waiters⟩ :=
    (ordered.setFifo ring rfl (funext sameWaiter)).wakeWaiter .consumer
  refine ⟨s', ran, kept, fun side => ?_⟩
  rw [waiters side, ← sameWaiter side]

theorem lockAsleep (ordered : s.Ordered) (runs : s.cpu.runningThread = some cur)
    (notWaiting : ∀ call, s.frame cur ≠ some (.waiting call))
    (zero : s.ioq.lock.semaphore.value = 0) (call : IoCall) :
    Ordered ({ s with
      cpu := s.cpu.sleep cur
      ioq := s.ioq.setLock (s.ioq.lockAwaited cur) }.setFrame cur (some (.locking call))) := by
  have awake : s.cpu.status cur ≠ .blocked := by
    rw [(ordered.cpu.running cur).mp runs]
    decide
  have frames : ∀ t other, Function.update s.frame cur (some (.locking call)) t =
      some (.waiting other) ↔ s.frame t = some (.waiting other) := by
    intro t other
    by_cases same : t = cur
    · subst same
      simp [notWaiting other]
    · rw [Function.update_of_ne same]
  refine ⟨ordered.cpu.sleep runs, ?_, fun t => ?_, ordered.free, ordered.count, fun side t => ?_,
    ordered.fifo.setLock _⟩
  · refine ordered.waits.sleep zero awake fun t => ?_
    by_cases same : t = cur
    · subst same
      simp [setFrame]
    · simp [setFrame, same]
  · exact (ordered.holder t).trans (exists_congr fun other => (frames t other).symm)
  · have slot := ordered.slot side t
    simp only [setFrame, IoQueue.waiter_setLock, Cpu.sleep_status, frames]
    refine slot.trans (and_congr_left fun waiting => ?_)
    obtain ⟨other, frame, -⟩ := waiting
    have different : t ≠ cur := by
      rintro rfl
      exact notWaiting other frame
    simp [different]

/-- The lock is free: the thread takes it and goes to sleep in its slot, which nobody is
in. -/
theorem ioqWait (ordered : s.Ordered) (runs : s.cpu.runningThread = some cur)
    (one : s.ioq.lock.semaphore.value = 1) (call : IoCall) :
    ∃ s', IoUse.ioqWait { s with ioq := s.ioq.setLock (s.ioq.lockTaken cur) } cur call = .ok s' ∧
      s'.Ordered ∧ (∀ side, s'.ioq.blocks side = s.ioq.blocks side) ∧
      ∀ side, s'.ioq.waiter side = if side = call.side then some cur else none := by
  have nobody := ordered.free.mpr one
  have noWaiting : ∀ t other, s.frame t ≠ some (.waiting other) := by
    intro t other frame
    have holds := (ordered.holder t).mpr ⟨other, frame⟩
    rw [nobody] at holds
    cases holds
  have noWaiter : ∀ side, s.ioq.waiter side = none := by
    intro side
    cases waiter : s.ioq.waiter side with
    | none => rfl
    | some t =>
        have holds := ordered.holder_of_waiter waiter
        rw [nobody] at holds
        cases holds
  have awake : s.cpu.status cur ≠ .blocked := by
    rw [(ordered.cpu.running cur).mp runs]
    decide
  have frames : ∀ t other, Function.update s.frame cur (some (.waiting call)) t =
      some (.waiting other) ↔ t = cur ∧ other = call := by
    intro t other
    by_cases same : t = cur
    · subst same
      simp [eq_comm]
    · simp [same, noWaiting t other]
  refine ⟨{ s with
      cpu := s.cpu.sleep cur
      ioq := (s.ioq.setLock (s.ioq.lockTaken cur)).setWaiter call.side (some cur) }.setFrame cur
        (some (.waiting call)), ?_,
    ⟨ordered.cpu.sleep runs, ?_, fun t => ?_, ?_, ?_, fun side t => ?_, ?_⟩, fun side => ?_,
    fun side => ?_⟩
  · simp [IoUse.ioqWait, noWaiter, Cpu.threadBlock_eq runs]
  · simp only [setFrame, IoQueue.setWaiter_lock]
    have taken : Cpu.Waits s.cpu { s.ioq.lock.semaphore with value := 0 } fun t =>
        ∃ other, Function.update s.frame cur (some (.waiting call)) t =
          some (.locking other) := by
      refine ordered.waits.take awake fun t => ?_
      by_cases same : t = cur
      · subst same
        simp
      · simp [same]
    refine taken.of_status fun t locking => ?_
    have different : t ≠ cur := by
      rintro rfl
      obtain ⟨other, frame⟩ := locking
      simp at frame
    simp [different]
  · simp only [setFrame, IoQueue.setWaiter_lock, frames]
    constructor
    · intro holds
      exact ⟨call, (Option.some.inj holds).symm, rfl⟩
    · rintro ⟨other, rfl, -⟩
      rfl
  · simp only [setFrame, IoQueue.setWaiter_lock]
    exact iff_of_false (Option.some_ne_none cur) Nat.zero_ne_one
  · simp only [setFrame, IoQueue.setWaiter_lock]
    rfl
  · simp only [setFrame, IoQueue.waiter_setWaiter, IoQueue.waiter_setLock, noWaiter,
      Cpu.sleep_status, frames]
    by_cases onSide : side = call.side
    · subst onSide
      by_cases same : t = cur
      · subst same
        simp
      · simp [same, Ne.symm same]
    · simp [onSide, Ne.symm onSide]
  · exact (ordered.fifo.setLock _).setWaiter
  · simp [setFrame]
  · simp [setFrame, noWaiter]

/-- The part of `lock_acquire` behind the test for the holder, and the rest of the loop's
body. -/
theorem lockDown (ordered : s.Ordered) (runs : s.cpu.runningThread = some cur)
    (notWaiting : ∀ call, s.frame cur ≠ some (.waiting call)) (call : IoCall) :
    ∃ s', (do
        let (taken, lock, cpu) ← s.cpu.lockDown cur s.ioq.lock
        { s with cpu, ioq := s.ioq.setLock lock }.afterLock cur call taken) = .ok s' ∧
      s'.Ordered ∧ (s.Honest →
        (s'.Honest ↔ (s.ioq.lock.semaphore.value = 1 → call.mustWait s.ioq = true))) := by
  rcases ordered.waits.binary with zero | one
  · have awake : s.cpu.status cur ≠ .blocked := by
      rw [(ordered.cpu.running cur).mp runs]
      decide
    have absent : cur ∉ s.ioq.lock.semaphore.waiters :=
      fun waiting => awake ((ordered.waits.mem cur).mp waiting).2
    refine ⟨_, ?_, ordered.lockAsleep runs notWaiting zero call, fun honest => ?_⟩
    · simp [Cpu.lockDown, Cpu.semaDown_zero runs zero absent, afterLock, IoQueue.lockAwaited]
    · refine iff_of_true (fun side t waiter => ?_) fun one => absurd one (by simp [zero])
      simp only [setFrame, IoQueue.waiter_setLock, IoQueue.blocks_setLock] at waiter ⊢
      exact honest side t waiter
  · have unused : s.ioq.lock.holderRepeatNr = 0 := by
      rw [ordered.count, if_pos (ordered.free.mpr one)]
    obtain ⟨s', ran, kept, blocks, waiters⟩ := ordered.ioqWait runs one call
    refine ⟨s', ?_, kept, fun _ => ?_⟩
    · rw [← ran]
      simp [Cpu.lockDown, Cpu.semaDown_one one, afterLock, IoQueue.lockTaken, unused]
    · constructor
      · intro honest _
        rw [IoCall.mustWait, ← blocks]
        exact honest call.side cur (by rw [waiters, if_pos rfl])
      · intro waits side t waiter
        rw [waiters] at waiter
        split at waiter
        next same =>
          rw [same, blocks]
          exact waits one
        next => cases waiter

/-- A call that does not wait empties the other slot, and its own slot was empty. -/
theorem honest_of_woken (honest : s.Honest) {woken : Side} (test : s.ioq.blocks side = false)
    (other : side ≠ woken)
    (waiters : ∀ side', s'.ioq.waiter side' =
      if side' = woken then none else s.ioq.waiter side') : s'.Honest := by
  intro side' t waiter
  rw [waiters] at waiter
  split at waiter
  next => cases waiter
  next notWoken =>
    have same : side' = side := by
      cases side <;> cases side' <;> cases woken <;> simp_all
    have full := honest side' t waiter
    rw [same, test] at full
    cases full

theorem loop (ordered : s.Ordered) (runs : s.cpu.runningThread = some cur)
    (own : s.frame cur = none) (call : IoCall) :
    ∃ s', s.loop cur call = .ok s' ∧ s'.Ordered ∧ (s.Honest → s'.Honest) := by
  have notWaiting : ∀ other, s.frame cur ≠ some (.waiting other) := by simp [own]
  cases test : call.mustWait s.ioq with
  | true =>
      have notHolder : s.ioq.lock.holder ≠ some cur := by
        rw [ne_eq, ordered.holder]
        rintro ⟨other, frame⟩
        exact notWaiting other frame
      obtain ⟨s', ran, kept, stays⟩ := ordered.lockDown runs notWaiting call
      refine ⟨s', ?_, kept, fun honest => (stays honest).mpr fun _ => test⟩
      simpa [IoUse.loop, test, Cpu.lockAcquire, notHolder] using ran
  | false =>
      cases call with
      | getchar =>
          obtain ⟨s', ran, kept, waiters⟩ := ordered.takeChar test
          exact ⟨s', by simpa [IoUse.loop, test] using ran, kept,
            fun honest => honest_of_woken honest test (by decide) waiters⟩
      | putchar byte =>
          obtain ⟨s', ran, kept, waiters⟩ := ordered.storeChar test byte
          exact ⟨s', by simpa [IoUse.loop, test] using ran, kept,
            fun honest => honest_of_woken honest test (by simp [IoCall.side]) waiters⟩

/-- A thread that is woken in its slot gives the lock back before it tests again. -/
theorem lockRelease (ordered : s.Ordered) (runs : s.cpu.runningThread = some cur)
    (waiting : s.frame cur = some (.waiting call)) :
    ∃ lock cpu, s.cpu.lockRelease cur s.ioq.lock = .ok (lock, cpu) ∧
      cpu.runningThread = some cur ∧ (∀ side, s.ioq.waiter side = none) ∧
      Ordered ({ s with cpu, ioq := s.ioq.setLock lock }.setFrame cur none) := by
  have holds := (ordered.holder cur).mpr ⟨call, waiting⟩
  have status := (ordered.cpu.running cur).mp runs
  have zero : s.ioq.lock.semaphore.value = 0 := by
    rcases ordered.waits.binary with zero | one
    · exact zero
    · have nobody := ordered.free.mpr one
      rw [holds] at nobody
      cases nobody
  have once : s.ioq.lock.holderRepeatNr = 1 := by
    rw [ordered.count, holds]
    rfl
  obtain ⟨semaphore, cpu, up, waits, consistent, raised, running, others⟩ :=
    ordered.waits.semaUp ordered.cpu zero
  have noWaiting : ∀ t other, Function.update s.frame cur none t ≠ some (.waiting other) := by
    intro t other frame
    by_cases same : t = cur
    · subst same
      simp at frame
    · rw [Function.update_of_ne same] at frame
      have alsoHolds := (ordered.holder t).mpr ⟨other, frame⟩
      rw [holds] at alsoHolds
      exact same (Option.some.inj alsoHolds).symm
  have noWaiter : ∀ side, s.ioq.waiter side = none := by
    intro side
    cases waiter : s.ioq.waiter side with
    | none => rfl
    | some t =>
        have alsoHolds := ordered.holder_of_waiter waiter
        rw [holds] at alsoHolds
        have asleep := ((ordered.slot side t).mp waiter).1
        rw [← Option.some.inj alsoHolds, status] at asleep
        cases asleep
  refine ⟨⟨semaphore, none, 0⟩, cpu, ?_, running.trans runs, noWaiter, consistent, ?_,
    fun t => ?_, ?_, ?_, fun side t => ?_, ordered.fifo.setLock _⟩
  · simp [Cpu.lockRelease, holds, once, up]
  · refine waits.congr fun t => ?_
    by_cases same : t = cur
    · subst same
      simp [setFrame, waiting]
    · simp [setFrame, same]
  · exact iff_of_false (by simp [setFrame, IoQueue.setLock])
      (fun some => noWaiting t some.choose some.choose_spec)
  · exact iff_of_true rfl raised
  · rfl
  · simp only [setFrame, IoQueue.waiter_setLock, noWaiter]
    refine iff_of_false (by simp) fun asleep => ?_
    obtain ⟨-, other, frame, -⟩ := asleep
    exact noWaiting t other frame

/-- A thread that was switched to inside a call goes on without an assertion. -/
theorem resume (ordered : s.Ordered) (runs : s.cpu.runningThread = some cur) :
    s.resume cur = .error .disabled ∨
    ∃ s', s.resume cur = .ok s' ∧ s'.Ordered ∧
      (s.Honest → (s'.Honest ↔ ¬ s.StaleTest cur)) := by
  cases frame : s.frame cur with
  | none => exact Or.inl (by simp [IoUse.resume, frame])
  | some inside =>
      right
      cases inside with
      | locking call =>
          obtain ⟨s', ran, kept, stays⟩ := ordered.lockDown runs (by simp [frame]) call
          refine ⟨s', by simpa [IoUse.resume, frame] using ran, kept, fun honest => ?_⟩
          rw [stays honest]
          simp [StaleTest, frame]
      | waiting call =>
          obtain ⟨lock, cpu, release, running, noWaiter, kept⟩ := ordered.lockRelease runs frame
          obtain ⟨s', ran, last, honest⟩ := kept.loop running (by simp [setFrame]) call
          refine ⟨s', by simpa [IoUse.resume, frame, release] using ran, last, fun _ => ?_⟩
          refine iff_of_true (honest fun side t waiter => ?_) (by simp [StaleTest, frame])
          simp [setFrame, noWaiter] at waiter

/-- The keyboard handler puts a character only where there is room. -/
theorem keyPress (ordered : s.Ordered) (byte : UInt8) :
    s.step (.keyPress byte) = .error .disabled ∨
    ∃ s', s.step (.keyPress byte) = .ok s' ∧ s'.Ordered ∧
      (s.Honest → (s'.Honest ↔ ¬ s.Stale (.keyPress byte))) := by
  have notStale : ¬ s.Stale (.keyPress byte) := fun stale => by cases stale.1
  by_cases own : s.InOwnCode
  · right
    cases room : s.ioq.full with
    | true =>
        exact ⟨s, by simp [IoUse.step, own, room], ordered,
          fun honest => iff_of_true honest notStale⟩
    | false =>
        obtain ⟨s', ran, kept, waiters⟩ := ordered.storeChar room byte
        have test : s.ioq.blocks .producer = false := room
        exact ⟨s', by simpa [IoUse.step, own, room] using ran, kept, fun honest =>
          iff_of_true (honest_of_woken honest test (by decide) waiters) notStale⟩
  · exact Or.inl (by simp [IoUse.step, own])

/-- Every step goes through without an assertion or is not possible at all, and it leaves
the slots honest unless it is the continuation behind a stale test. -/
theorem step (ordered : s.Ordered) (a : IoAction) :
    s.step a = .error .disabled ∨
    ∃ s', s.step a = .ok s' ∧ s'.Ordered ∧ (s.Honest → (s'.Honest ↔ ¬ s.Stale a)) := by
  have keeps : ∀ {s' : IoUse}, a ≠ .resume → s'.Ordered → (s.Honest → s'.Honest) →
      s'.Ordered ∧ (s.Honest → (s'.Honest ↔ ¬ s.Stale a)) :=
    fun other kept stays => ⟨kept, fun honest => iff_of_true (stays honest) fun stale =>
      other stale.1⟩
  -- Threads outside the two functions move without touching the queue.
  have moves : ∀ {cpu : Cpu}, a ≠ .resume → cpu.Consistent →
      (∀ t, s.frame t ≠ none → (cpu.status t = .blocked ↔ s.cpu.status t = .blocked)) →
      Ordered { s with cpu } ∧
        (s.Honest → (Honest { s with cpu } ↔ ¬ s.Stale a)) :=
    fun other consistent same => keeps other (ordered.setCpu consistent same) id
  have outside : ∀ {cur t}, s.frame cur = none → s.frame t ≠ none → t ≠ cur := by
    rintro cur t own inside rfl
    exact inside own
  have awake : ∀ {cur}, s.cpu.runningThread = some cur → s.cpu.status cur = .running :=
    fun {cur} runs => (ordered.cpu.running cur).mp runs
  cases runs : s.cpu.runningThread with
  | none =>
      cases a with
      | dispatch next =>
          by_cases ready : next ∈ s.cpu.threadReadyList
          · right
            refine ⟨{ s with cpu := s.cpu.switchTo next },
              by simp [IoUse.step, runs, Cpu.dispatch, ready],
              moves (by simp) (ordered.cpu.switchTo runs) fun t _ => ?_⟩
            rw [Cpu.switchTo_status]
            split
            next same => simp [same, (ordered.cpu.ready next).mp ready]
            next => exact Iff.rfl
          · exact Or.inl (by simp [IoUse.step, runs, Cpu.dispatch, ready])
      | keyPress byte => exact ordered.keyPress byte
      | _ => exact Or.inl (by simp [IoUse.step, runs])
  | some cur =>
      by_cases own : s.frame cur = none
      · cases a with
        | dispatch next => exact Or.inl (by simp [IoUse.step, runs])
        | keyPress byte => exact ordered.keyPress byte
        | preempt =>
            right
            refine ⟨_, by simp [IoUse.step, runs, own, ordered.cpu.preempt_eq runs],
              moves (by simp) (ordered.cpu.putBack runs) fun t inside => ?_⟩
            simp [outside own inside]
        | ioqGetchar =>
            obtain ⟨s', ran, kept, stays⟩ := ordered.loop runs own .getchar
            exact Or.inr ⟨s', by simpa [IoUse.step, runs, own, IoUse.ioqGetchar] using ran,
              keeps (by simp) kept stays⟩
        | ioqPutchar byte =>
            obtain ⟨s', ran, kept, stays⟩ := ordered.loop runs own (.putchar byte)
            exact Or.inr ⟨s', by simpa [IoUse.step, runs, own, IoUse.ioqPutchar] using ran,
              keeps (by simp) kept stays⟩
        | resume => exact Or.inl (by simp [IoUse.step, runs, IoUse.resume, own])
        | threadBlock =>
            right
            refine ⟨_, by simp [IoUse.step, runs, own, Cpu.threadBlock_eq runs],
              moves (by simp) (ordered.cpu.sleep runs) fun t inside => ?_⟩
            simp [outside own inside]
        | threadUnblock t =>
            by_cases able : s.frame t = none ∧ s.cpu.status t = .blocked
            · right
              refine ⟨_, by simp [IoUse.step, runs, own, able,
                ordered.cpu.threadUnblock_eq able.2],
                moves (by simp) (ordered.cpu.wake able.2) fun u inside => ?_⟩
              simp [outside able.1 inside]
            · exact Or.inl (by simp [IoUse.step, runs, own, able])
      · cases a with
        | keyPress byte => exact ordered.keyPress byte
        | resume =>
            rcases ordered.resume runs with disabled | ⟨s', ran, kept, stays⟩
            · exact Or.inl (by simpa [IoUse.step, runs] using disabled)
            · refine Or.inr ⟨s', by simpa [IoUse.step, runs] using ran, kept,
                fun honest => (stays honest).trans (not_congr ?_)⟩
              simp [Stale, runs]
        | _ => exact Or.inl (by simp [IoUse.step, runs, own])

end Ordered

theorem Ordered.of_step (ordered : s.Ordered) {a : IoAction} (stepped : s.step a = .ok s') :
    s'.Ordered ∧ (s.Honest → (s'.Honest ↔ ¬ s.Stale a)) := by
  rcases ordered.step a with disabled | ⟨next, went, kept⟩
  · rw [disabled] at stepped
    cases stepped
  · rw [went] at stepped
    rwa [← Except.ok.inj stepped]

/-- Threads 1 and 2 find the buffer empty; thread 1 sleeps in the slot, with the lock, and
thread 2 on the lock.  Thread 3 puts two characters.  Thread 1 takes the first, and thread 2
then goes to sleep in the slot behind its old test. -/
def staleConsumer : List IoAction :=
  [.dispatch 1, .ioqGetchar, .dispatch 2, .ioqGetchar, .dispatch 3, .ioqPutchar 97,
    .ioqPutchar 98, .preempt, .dispatch 1, .resume, .preempt, .dispatch 2, .resume]

/-- What was accepted comes back in its order, what is missing is in the buffer, and no
assertion stops any step. -/
theorem queue_fifo {threads : List Tid} (nodup : threads.Nodup) {buf : Nat → UInt8}
    {actions : List IoAction} {states : List IoUse}
    (ran : trace IoUse.step (start threads buf) actions = .ok states) :
    ∀ s ∈ start threads buf :: states,
      s.returned <+: s.accepted ∧ s.accepted = s.returned ++ s.ioq.contents ∧
      s.ioq.contents.length ≤ bufsize - 1 ∧ ∀ a fn, s.step a ≠ .error (.panic fn) := by
  have started := start_ordered nodup buf
  have preserved : ∀ s a s', Ordered s → True → s.step a = .ok s' → Ordered s' :=
    fun s a s' ordered _ stepped => (ordered.of_step stepped).1
  have ordered : ∀ s ∈ start threads buf :: states, s.Ordered :=
    invariant_of_guarded_trace preserved started ran fun _ _ => trivial
  intro s membership
  obtain ⟨head, tail, order⟩ := (ordered s membership).fifo
  have room : s.ioq.contents.length < bufsize := by
    rw [IoQueue.contents, Ring.length_contents]
    exact Ring.count_lt head tail
  refine ⟨⟨_, order.symm⟩, order, Nat.le_pred_of_lt room, ?_⟩
  intro a fn panics
  rcases (ordered s membership).step a with disabled | ⟨next, went, -⟩
  · rw [disabled] at panics
    cases panics
  · rw [went] at panics
    cases panics

theorem staleConsumer_runs : ∃ states,
    trace IoUse.step (start [1, 2, 3] fun _ => 0) staleConsumer = .ok states := ⟨_, rfl⟩

theorem queue_fifo_contended : ∃ states,
    trace IoUse.step (start [1, 2, 3] fun _ => 0) staleConsumer = .ok states ∧
      ∀ s ∈ start [1, 2, 3] (fun _ => 0) :: states,
        s.returned <+: s.accepted ∧ s.accepted = s.returned ++ s.ioq.contents ∧
        s.ioq.contents.length ≤ bufsize - 1 ∧ ∀ a fn, s.step a ≠ .error (.panic fn) := by
  obtain ⟨states, ran⟩ := staleConsumer_runs
  exact ⟨states, ran, queue_fifo (by decide) ran⟩

/-- No thread sleeps in a slot past the moment in which it could go on. -/
structure NoLostWakeup (s : IoUse) : Prop where
  consumer : ∀ t, s.ioq.consumer = some t → s.cpu.status t = .blocked → s.ioq.empty = true
  producer : ∀ t, s.ioq.producer = some t → s.cpu.status t = .blocked → s.ioq.full = true

theorem Ordered.noLostWakeup_iff (ordered : s.Ordered) : s.NoLostWakeup ↔ s.Honest := by
  have asleep : ∀ {side t}, s.ioq.waiter side = some t → s.cpu.status t = .blocked :=
    fun waiter => ((ordered.slot _ _).mp waiter).1
  constructor
  · intro none side t waiter
    cases side with
    | consumer => exact none.consumer t waiter (asleep waiter)
    | producer => exact none.producer t waiter (asleep waiter)
  · intro honest
    exact ⟨fun t waiter _ => honest .consumer t waiter,
      fun t waiter _ => honest .producer t waiter⟩

/-- A wake-up is lost in a run exactly where a thread that slept on the lock goes on behind
a test that no longer holds. -/
theorem no_lost_wakeup_iff {threads : List Tid} (nodup : threads.Nodup) {buf : Nat → UInt8}
    {actions : List IoAction} {states : List IoUse}
    (ran : trace IoUse.step (start threads buf) actions = .ok states) :
    (∀ s ∈ start threads buf :: states, s.NoLostWakeup) ↔
      ∀ p ∈ (start threads buf :: states).zip actions, ¬ p.1.Stale p.2 := by
  have started := start_ordered nodup buf
  have nobody : (start threads buf).Honest := fun side t waiter => by
    cases side <;> cases waiter
  refine forall_trace_iff ?_ started (started.noLostWakeup_iff.mpr nobody) ran
  intro s a s' ordered none stepped
  obtain ⟨kept, stays⟩ := ordered.of_step stepped
  exact ⟨fun _ => kept, kept.noLostWakeup_iff.trans (stays (ordered.noLostWakeup_iff.mp none))⟩

/-- Thread 3 puts one character, which thread 1 takes: the old test of thread 2 is still right
when it gets the lock, and the second character wakes it. -/
def freshConsumer : List IoAction :=
  [.dispatch 1, .ioqGetchar, .dispatch 2, .ioqGetchar, .dispatch 3, .ioqPutchar 97, .preempt,
    .dispatch 1, .resume, .preempt, .dispatch 2, .resume, .dispatch 3, .ioqPutchar 98, .preempt,
    .dispatch 1, .preempt, .dispatch 2, .resume]

theorem no_lost_wakeup_freshTest : ∃ states,
    trace IoUse.step (start [1, 2, 3] fun _ => 0) freshConsumer = .ok states ∧
      ∀ s ∈ start [1, 2, 3] (fun _ => 0) :: states, s.NoLostWakeup := by
  obtain ⟨states, ran, fresh⟩ : ∃ states,
      trace IoUse.step (start [1, 2, 3] fun _ => 0) freshConsumer = .ok states ∧
        ∀ p ∈ (start [1, 2, 3] (fun _ => 0) :: states).zip freshConsumer, ¬ p.1.Stale p.2 :=
    ⟨_, rfl, by decide +kernel⟩
  exact ⟨states, ran, (no_lost_wakeup_iff (by decide) ran).mpr fresh⟩

theorem wakeup_lost_behind_lock : ∃ states,
    trace IoUse.step (start [1, 2, 3] fun _ => 0) staleConsumer = .ok states ∧
      ∃ s ∈ states, s.ioq.consumer = some 2 ∧ s.cpu.status 2 = .blocked ∧
        s.ioq.empty = false := by
  refine ⟨_, rfl, _, List.mem_of_getLast? rfl, rfl, rfl, rfl⟩

end IoUse

end HongbaiOS.Device
