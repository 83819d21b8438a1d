import HongbaiOS.Thread.Lock

/-!
# Threads that sleep and wake

The part of the thread system that the code of a lock or of a queue depends on: who
runs, who is ready, who sleeps.  `Scheduler.lean` follows `schedule` to the thread it
picks; here any ready thread may be the next one, so that a result holds for every
order in which threads are dispatched.
-/

namespace HongbaiOS.Thread

open HongbaiOS.Library HongbaiOS.Kernel

structure Cpu where
  /-- `none` while the CPU is in `schedule` or runs the idle thread. -/
  runningThread : Option Tid
  threadReadyList : List Tid
  status : Tid → ThreadStatus

namespace Cpu

variable (cpu : Cpu) (t u : Tid)

/-- `t` becomes ready and goes to the front of the ready list. -/
def wake : Cpu :=
  { cpu with
    threadReadyList := t :: cpu.threadReadyList
    status := Function.update cpu.status t .ready }

/-- `t` leaves the CPU and sleeps. -/
def sleep : Cpu :=
  { cpu with runningThread := none, status := Function.update cpu.status t .blocked }

/-- `t` leaves the CPU and goes to the end of the ready list. -/
def putBack : Cpu where
  runningThread := none
  threadReadyList := cpu.threadReadyList ++ [t]
  status := Function.update cpu.status t .ready

/-- `t` leaves the ready list and runs. -/
def switchTo : Cpu where
  runningThread := some t
  threadReadyList := cpu.threadReadyList.erase t
  status := Function.update cpu.status t .running

@[simp]
theorem wake_status : (cpu.wake t).status u = if u = t then .ready else cpu.status u :=
  Function.update_apply ..

@[simp]
theorem sleep_status : (cpu.sleep t).status u = if u = t then .blocked else cpu.status u :=
  Function.update_apply ..

@[simp]
theorem putBack_status : (cpu.putBack t).status u = if u = t then .ready else cpu.status u :=
  Function.update_apply ..

@[simp]
theorem switchTo_status :
    (cpu.switchTo t).status u = if u = t then .running else cpu.status u :=
  Function.update_apply ..

/-- `thread_unblock(pthread)` -/
def threadUnblock (pthread : Tid) : Except Halt Cpu := do
  check .threadUnblock (cpu.status pthread).isBlocked
  check .threadUnblock (pthread ∉ cpu.threadReadyList)
  return cpu.wake pthread

/-- `thread_block(TASK_BLOCKED)` up to the switch. -/
def threadBlock : Except Halt Cpu :=
  match cpu.runningThread with
  | none => .error .disabled
  | some cur => .ok (cpu.sleep cur)

/-- The timer interrupt takes the CPU away: first part of `schedule`. -/
def preempt : Except Halt Cpu :=
  match cpu.runningThread with
  | none => .error .disabled
  | some cur => do
      check .schedule (cur ∉ cpu.threadReadyList)
      return cpu.putBack cur

/-- The end of `schedule`, with `next` as the thread that is switched to. -/
def dispatch (next : Tid) : Except Halt Cpu :=
  if cpu.runningThread = none ∧ next ∈ cpu.threadReadyList then .ok (cpu.switchTo next)
  else .error .disabled

/-- One round of the loop of `sema_down(psema)` called by `cur`: with the value at 0 the
thread goes to sleep, and the result is `false`. -/
def semaDown (cur : Tid) (psema : Semaphore) :
    Except Halt (Bool × Semaphore × Cpu) :=
  if psema.value = 0 then do
    check .semaDown (cur ∉ psema.waiters)
    let cpu ← cpu.threadBlock
    return (false, { psema with waiters := psema.waiters ++ [cur] }, cpu)
  else do
    check .semaDown (psema.value - 1 = 0)
    return (true, { psema with value := psema.value - 1 }, cpu)

/-- `sema_up(psema)` -/
def semaUp (psema : Semaphore) : Except Halt (Semaphore × Cpu) := do
  check .semaUp (psema.value = 0)
  match psema.waiters with
  | [] => return (⟨psema.value + 1, []⟩, cpu)
  | threadBlocked :: rest =>
      let cpu ← cpu.threadUnblock threadBlocked
      check .semaUp (psema.value + 1 = 1)
      return (⟨psema.value + 1, rest⟩, cpu)

/-- `lock_acquire(plock)` from the call of `sema_down` on, and again after each wake-up,
with interrupts off; `false` says that the thread sleeps. -/
def lockDown (cur : Tid) (plock : Lock) : Except Halt (Bool × Lock × Cpu) := do
  let (taken, semaphore, cpu) ← cpu.semaDown cur plock.semaphore
  if taken then
    check .lockAcquire (plock.holderRepeatNr = 0)
    return (true, ⟨semaphore, some cur, 1⟩, cpu)
  else return (false, { plock with semaphore }, cpu)

/-- `lock_acquire(plock)` called by `cur` with interrupts off -/
def lockAcquire (cur : Tid) (plock : Lock) : Except Halt (Bool × Lock × Cpu) :=
  if plock.holder = some cur then
    .ok (true, { plock with holderRepeatNr := plock.holderRepeatNr + 1 }, cpu)
  else cpu.lockDown cur plock

/-- `lock_release(plock)` called by `cur` with interrupts off -/
def lockRelease (cur : Tid) (plock : Lock) : Except Halt (Lock × Cpu) := do
  check .lockRelease (plock.holder = some cur)
  if plock.holderRepeatNr > 1 then
    return ({ plock with holderRepeatNr := plock.holderRepeatNr - 1 }, cpu)
  else
    check .lockRelease (plock.holderRepeatNr = 1)
    let (semaphore, cpu) ← cpu.semaUp plock.semaphore
    return (⟨semaphore, none, 0⟩, cpu)

/-- Before any thread has run: those in `threads` are ready, no other exists. -/
def start (threads : List Tid) : Cpu where
  runningThread := none
  threadReadyList := threads
  status := fun t => if t ∈ threads then .ready else .died

/-- The ready list and the running thread agree with the statuses. -/
structure Consistent : Prop where
  nodup : cpu.threadReadyList.Nodup
  ready : ∀ t, t ∈ cpu.threadReadyList ↔ cpu.status t = .ready
  running : ∀ t, cpu.runningThread = some t ↔ cpu.status t = .running

end Cpu

namespace Cpu

variable {cpu cpu' : Cpu} {cur t u : Tid} {psema : Semaphore}

theorem start_consistent {threads : List Tid} (nodup : threads.Nodup) :
    (start threads).Consistent := by
  refine ⟨nodup, fun t => ?_, fun t => ?_⟩
  · simp only [start]
    split <;> simp [*]
  · simp only [start]
    split <;> simp

theorem dispatch_eq_ok (ran : cpu.dispatch t = .ok cpu') :
    cpu.runningThread = none ∧ t ∈ cpu.threadReadyList ∧ cpu' = cpu.switchTo t := by
  unfold Cpu.dispatch at ran
  split at ran
  next enabled => exact ⟨enabled.1, enabled.2, (Except.ok.inj ran).symm⟩
  next => cases ran

theorem threadBlock_eq (runs : cpu.runningThread = some cur) :
    cpu.threadBlock = .ok (cpu.sleep cur) := by
  simp [Cpu.threadBlock, runs]

namespace Consistent

theorem not_ready (consistent : cpu.Consistent) (other : cpu.status t ≠ .ready) :
    t ∉ cpu.threadReadyList :=
  fun inList => other ((consistent.ready t).mp inList)

theorem running_unique (consistent : cpu.Consistent) (runs : cpu.runningThread = some cur)
    (other : t ≠ cur) : cpu.status t ≠ .running := by
  intro alsoRuns
  rw [← consistent.running, runs] at alsoRuns
  exact other (Option.some.inj alsoRuns).symm

theorem threadUnblock_eq (consistent : cpu.Consistent) (asleep : cpu.status t = .blocked) :
    cpu.threadUnblock t = .ok (cpu.wake t) := by
  have absent : t ∉ cpu.threadReadyList := consistent.not_ready (by rw [asleep]; decide)
  simp [Cpu.threadUnblock, asleep, ThreadStatus.isBlocked, absent]

theorem wake (consistent : cpu.Consistent) (asleep : cpu.status t = .blocked) :
    (cpu.wake t).Consistent := by
  have absent : t ∉ cpu.threadReadyList := consistent.not_ready (by rw [asleep]; decide)
  refine ⟨List.nodup_cons.mpr ⟨absent, consistent.nodup⟩, fun u => ?_, fun u => ?_⟩
  · rw [wake_status, Cpu.wake, List.mem_cons, consistent.ready]
    split
    next same => simp [same]
    next other => simp [other]
  · rw [wake_status]
    refine (consistent.running u).trans ?_
    split
    next same =>
      subst same
      simp [asleep]
    next => exact Iff.rfl

theorem sleep (consistent : cpu.Consistent) (runs : cpu.runningThread = some cur) :
    (cpu.sleep cur).Consistent := by
  have status := (consistent.running cur).mp runs
  refine ⟨consistent.nodup, fun u => ?_, fun u => ?_⟩
  · rw [sleep_status]
    refine (consistent.ready u).trans ?_
    split
    next same =>
      subst same
      simp [status]
    next => exact Iff.rfl
  · rw [sleep_status]
    split
    next => simp [Cpu.sleep]
    next other => simp [Cpu.sleep, consistent.running_unique runs other]

theorem preempt_eq (consistent : cpu.Consistent) (runs : cpu.runningThread = some cur) :
    cpu.preempt = .ok (cpu.putBack cur) := by
  have status := (consistent.running cur).mp runs
  have absent : cur ∉ cpu.threadReadyList := consistent.not_ready (by rw [status]; decide)
  simp [Cpu.preempt, runs, absent]

theorem putBack (consistent : cpu.Consistent) (runs : cpu.runningThread = some cur) :
    (cpu.putBack cur).Consistent := by
  have status := (consistent.running cur).mp runs
  have absent : cur ∉ cpu.threadReadyList := consistent.not_ready (by rw [status]; decide)
  refine ⟨?_, fun u => ?_, fun u => ?_⟩
  · refine List.nodup_append.mpr ⟨consistent.nodup, by simp, ?_⟩
    intro a inList b inNew same
    rw [List.mem_singleton] at inNew
    exact absent (inNew ▸ same ▸ inList)
  · rw [putBack_status, Cpu.putBack, List.mem_append, List.mem_singleton, consistent.ready]
    split
    next same => simp [same]
    next other => simp [other]
  · rw [putBack_status]
    split
    next => simp [Cpu.putBack]
    next other => simp [Cpu.putBack, consistent.running_unique runs other]

theorem switchTo (consistent : cpu.Consistent) (idle : cpu.runningThread = none) :
    (cpu.switchTo t).Consistent := by
  refine ⟨consistent.nodup.erase t, fun u => ?_, fun u => ?_⟩
  · rw [switchTo_status, Cpu.switchTo, consistent.nodup.mem_erase_iff, consistent.ready]
    split
    next same => simp [same]
    next other => simp [other]
  · rw [switchTo_status]
    split
    next same => simp [Cpu.switchTo, same]
    next other =>
      have notRunning : cpu.status u ≠ .running := by
        rw [ne_eq, ← consistent.running, idle]
        simp
      simp [Cpu.switchTo, notRunning, Ne.symm other]

end Consistent

/-- A semaphore used as a lock, with `testing` as the threads inside the loop of
`sema_down`: they wait asleep, or have been woken and still have to test the value. -/
structure Waits (cpu : Cpu) (psema : Semaphore) (testing : Tid → Prop) : Prop where
  binary : psema.value = 0 ∨ psema.value = 1
  nodup : psema.waiters.Nodup
  mem : ∀ t, t ∈ psema.waiters ↔ testing t ∧ cpu.status t = .blocked
  woken : psema.value = 1 → psema.waiters ≠ [] → ∃ t, testing t ∧ cpu.status t ≠ .blocked

variable {testing testing' : Tid → Prop}

theorem semaDown_zero (runs : cpu.runningThread = some cur) (zero : psema.value = 0)
    (absent : cur ∉ psema.waiters) :
    cpu.semaDown cur psema =
      .ok (false, { psema with waiters := psema.waiters ++ [cur] }, cpu.sleep cur) := by
  simp [Cpu.semaDown, zero, absent, threadBlock_eq runs]

theorem semaDown_one (one : psema.value = 1) :
    cpu.semaDown cur psema = .ok (true, { psema with value := 0 }, cpu) := by
  simp [Cpu.semaDown, one]

namespace Waits

/-- Steps that put no thread of the loop to sleep and wake none. -/
theorem of_status (waits : Waits cpu psema testing)
    (same : ∀ t, testing t → (cpu'.status t = .blocked ↔ cpu.status t = .blocked)) :
    Waits cpu' psema testing := by
  refine ⟨waits.binary, waits.nodup, fun t => ?_, fun one some => ?_⟩
  · rw [waits.mem]
    exact ⟨fun asleep => ⟨asleep.1, (same t asleep.1).mpr asleep.2⟩,
      fun asleep => ⟨asleep.1, (same t asleep.1).mp asleep.2⟩⟩
  · obtain ⟨t, tests, awake⟩ := waits.woken one some
    exact ⟨t, tests, fun asleep => awake ((same t tests).mp asleep)⟩

theorem congr (waits : Waits cpu psema testing) (same : ∀ t, testing' t ↔ testing t) :
    Waits cpu psema testing' := by
  have equal : testing' = testing := funext fun t => propext (same t)
  rwa [equal]

theorem sleep (waits : Waits cpu psema testing) (zero : psema.value = 0)
    (awake : cpu.status cur ≠ .blocked) (grown : ∀ t, testing' t ↔ t = cur ∨ testing t) :
    Waits (cpu.sleep cur) { psema with waiters := psema.waiters ++ [cur] } testing' := by
  have absent : cur ∉ psema.waiters := fun waiting => awake ((waits.mem cur).mp waiting).2
  refine ⟨Or.inl zero, ?_, fun t => ?_, fun one => ?_⟩
  · refine List.nodup_append.mpr ⟨waits.nodup, by simp, ?_⟩
    intro a inList b inNew same
    rw [List.mem_singleton] at inNew
    exact absent (inNew ▸ same ▸ inList)
  · rw [List.mem_append, List.mem_singleton, waits.mem, grown, sleep_status]
    split
    next same => simp [same]
    next other => simp [other]
  · exact absurd (zero.symm.trans one) (by decide)

/-- The value is 1: the thread takes it and leaves the loop. -/
theorem take (waits : Waits cpu psema testing) (awake : cpu.status cur ≠ .blocked)
    (shrunk : ∀ t, testing' t ↔ t ≠ cur ∧ testing t) :
    Waits cpu { psema with value := 0 } testing' := by
  refine ⟨Or.inl rfl, waits.nodup, fun t => ?_, fun one => absurd one (by simp)⟩
  rw [waits.mem, shrunk]
  constructor
  · rintro ⟨tests, asleep⟩
    refine ⟨⟨?_, tests⟩, asleep⟩
    rintro rfl
    exact awake asleep
  · exact fun both => ⟨both.1.2, both.2⟩

theorem semaUp (waits : Waits cpu psema testing) (consistent : cpu.Consistent)
    (zero : psema.value = 0) :
    ∃ psema' cpu', cpu.semaUp psema = .ok (psema', cpu') ∧ Waits cpu' psema' testing ∧
      cpu'.Consistent ∧ psema'.value = 1 ∧ cpu'.runningThread = cpu.runningThread ∧
      ∀ u, ¬ testing u → cpu'.status u = cpu.status u := by
  cases list : psema.waiters with
  | nil =>
      refine ⟨⟨1, []⟩, cpu, ?_, ?_, consistent, rfl, rfl, fun u _ => rfl⟩
      · simp [Cpu.semaUp, zero, list]
      · refine ⟨Or.inr rfl, List.nodup_nil, fun t => ?_, fun _ some => absurd rfl some⟩
        rw [← waits.mem, list]
  | cons first rest =>
      have waiting : first ∈ psema.waiters := by
        rw [list]
        exact List.mem_cons_self
      obtain ⟨tests, asleep⟩ := (waits.mem first).mp waiting
      have nodup := waits.nodup
      rw [list, List.nodup_cons] at nodup
      refine ⟨⟨1, rest⟩, cpu.wake first, ?_, ?_, consistent.wake asleep, rfl, rfl, ?_⟩
      · simp [Cpu.semaUp, zero, list, consistent.threadUnblock_eq asleep]
      · refine ⟨Or.inr rfl, nodup.2, fun t => ?_, fun _ _ => ⟨first, tests, by simp⟩⟩
        have mem := waits.mem t
        rw [list, List.mem_cons] at mem
        rw [wake_status]
        split
        next same => simp [same, nodup.1]
        next other => simpa [other] using mem
      · intro u outside
        rw [wake_status, if_neg]
        rintro rfl
        exact outside tests

end Waits

end Cpu

end HongbaiOS.Thread
