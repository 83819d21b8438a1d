import HongbaiOS.Thread.Readiness

/-!
# The idle thread

`idle` blocks itself and halts the CPU when it is woken, for ever.  It is in the ready
list, running, or `TASK_BLOCKED`, so that a `schedule` which finds nobody ready can wake it,
also when it is the idle thread itself that has just blocked.
-/

namespace HongbaiOS.Thread

open HongbaiOS.Kernel HongbaiOS.Library

/-- What can happen while the idle thread has the CPU: `thread_block(TASK_BLOCKED)`, `sti`,
and interrupts on top of them, which may wake threads. -/
def idleDoes : Action → Bool
  | .threadBlock stat => stat = .blocked
  | .intrSetStatus on => on
  | .timerTick | .semaUp _ | .threadUnblock _ | .resume => true
  | _ => false

/-- One step of the system with `idle` as the idle thread. -/
def idleStep (s : Sched) (a : Action) : Except Halt Sched :=
  if s.runningThread = s.idleThread ∧ idleDoes a = false then .error .disabled else step s a

/-- The round of `sema_down` that goes to sleep. -/
def downCall (k : SemaId) (oldStatus : Bool) (s : Sched) : Option (Suspended × Sched) :=
  if (s.sema k).value = 0 ∧ s.runningThread ∉ (s.sema k).waiters then
    let s := s.setSema k ⟨(s.sema k).value, (s.sema k).waiters ++ [s.runningThread]⟩
    some (.inDown k oldStatus, (s.setIntr false).setStatus s.runningThread .blocked)
  else none

/-- The call of `schedule` that a step makes, with the state at its entry. -/
def scheduleCall (s : Sched) (a : Action) : Option (Suspended × Sched) :=
  match s.suspended s.runningThread, a with
  | none, .timerTick =>
      match s.task s.runningThread with
      | none => none
      | some p =>
          if s.intrOn ∧ p.stackMagic = 0x20250325 ∧ p.ticks = 0 then
            some (.inTimer, ({ s with ticks := (s.ticks + 1) % 2 ^ 32 }.onTask s.runningThread
              fun p => { p with elapsedTicks := (p.elapsedTicks + 1) % 2 ^ 32 }).setIntr false)
          else none
  | none, .threadBlock stat =>
      if stat.isBlocked then
        some (.inBlock s.intrOn, (s.setIntr false).setStatus s.runningThread stat)
      else none
  | none, .threadYield =>
      if s.runningThread ≠ s.idleThread ∧ s.runningThread ∉ s.threadReadyList then
        some (.inYield s.intrOn, (s.setIntr false).setStatus s.runningThread .ready)
      else none
  | none, .semaDown k =>
      if s.runningThread ≠ s.idleThread then downCall k s.intrOn (s.setIntr false) else none
  | some (.inDown k oldStatus), .resume =>
      downCall k oldStatus (s.suspend s.runningThread none)
  | _, _ => none

theorem downCall_eq {k : SemaId} {oldStatus : Bool} {s sc : Sched} {frame : Suspended}
    (calls : downCall k oldStatus s = some (frame, sc)) :
    semaDownLoop k oldStatus s = schedule frame sc := by
  unfold downCall at calls
  split at calls
  next sleeps =>
    simp only [Option.some.injEq, Prod.mk.injEq] at calls
    obtain ⟨rfl, rfl⟩ := calls
    rw [semaDownLoop]
    simp only [sleeps.1, if_true, if_neg sleeps.2]
    rfl
  next => cases calls

theorem step_of_scheduleCall {s sc : Sched} {a : Action} {frame : Suspended}
    (calls : scheduleCall s a = some (frame, sc)) : step s a = schedule frame sc := by
  unfold scheduleCall at calls
  split at calls
  next own =>
    split at calls
    next => cases calls
    next p found =>
      split at calls
      next spent =>
        simp only [Option.some.injEq, Prod.mk.injEq] at calls
        obtain ⟨rfl, rfl⟩ := calls
        simp [step, own, ownCode, intrTimerHandler, found, spent]
      next => cases calls
  next stat own =>
    split at calls
    next blocked =>
      simp only [Option.some.injEq, Prod.mk.injEq] at calls
      obtain ⟨rfl, rfl⟩ := calls
      simp [step, own, ownCode, threadBlock, blocked]
    next => cases calls
  next own =>
    split at calls
    next free =>
      simp only [Option.some.injEq, Prod.mk.injEq] at calls
      obtain ⟨rfl, rfl⟩ := calls
      simp [step, own, ownCode, threadYield, free]
    next => cases calls
  next k own =>
    split at calls
    next other => simpa [step, own, ownCode, semaDown, other] using downCall_eq calls
    next => cases calls
  next k oldStatus own => simpa [step, own, resume] using downCall_eq calls
  next => cases calls

/-- The idle thread is ready and queued, running, or blocked. -/
structure IdleSettled (s : Sched) : Prop where
  place : s.idleThread ∈ s.threadReadyList ∨ s.runningThread = s.idleThread ∨
    s.status s.idleThread = some .blocked
  notBuilding : s.idleThread ∉ s.building

/-- What `schedule` needs to know at its entry. -/
structure IdleEntry (s : Sched) : Prop where
  intrOff : s.intrOn = false
  place : s.idleThread ∈ s.threadReadyList ∨
    (s.runningThread = s.idleThread ∧ s.status s.runningThread = some .running) ∨
    s.status s.idleThread = some .blocked
  free : s.status s.runningThread = some .running → s.runningThread ∉ s.threadReadyList
  notBuilding : s.idleThread ∉ s.building

/-- Where the idle thread is when `schedule` has put the running thread back. -/
def IdleAvailable (s : Sched) : Prop :=
  s.idleThread ∈ s.threadReadyList ∨ s.status s.idleThread = some .blocked

theorem IdleEntry.requeue {s : Sched} (entry : IdleEntry s) :
    ∃ s', requeue s = .ok s' ∧ IdleAvailable s' ∧ s'.idleThread = s.idleThread ∧
      s'.building = s.building := by
  unfold Thread.requeue
  by_cases running : s.status s.runningThread = some .running
  · rw [if_pos running, if_neg (entry.free running)]
    refine ⟨_, rfl, ?_, rfl, rfl⟩
    rcases entry.place with queued | ⟨same, -⟩ | blocked
    · exact .inl (List.mem_append_left _ queued)
    · exact .inl (List.mem_append_right _ (List.mem_singleton.mpr same.symm))
    · have different : s.idleThread ≠ s.runningThread := by
        intro same
        rw [same, running] at blocked
        cases blocked
      exact .inr (by simpa [different] using blocked)
  · rw [if_neg running]
    refine ⟨s, rfl, ?_, rfl, rfl⟩
    rcases entry.place with queued | ⟨-, runs⟩ | blocked
    · exact .inl queued
    · exact absurd runs running
    · exact .inr blocked

theorem IdleAvailable.blocked {s : Sched} (available : IdleAvailable s)
    (empty : s.threadReadyList = []) : s.status s.idleThread = some .blocked := by
  rcases available with queued | blocked
  · rw [empty] at queued
    cases queued
  · exact blocked

theorem IdleAvailable.wakeIdle {s : Sched} (available : IdleAvailable s) :
    ∃ s', wakeIdle s = .ok s' ∧ IdleAvailable s' ∧ s'.threadReadyList ≠ [] ∧
      s'.idleThread = s.idleThread ∧ s'.building = s.building := by
  unfold Thread.wakeIdle
  by_cases empty : s.threadReadyList = []
  · obtain ⟨p, found, isBlocked⟩ := Option.map_eq_some_iff.mp (available.blocked empty)
    rw [if_pos empty, threadUnblock, found]
    simp only [isBlocked, ThreadStatus.isBlocked, if_true, empty, List.not_mem_nil, if_false]
    exact ⟨_, rfl, .inl (List.mem_cons_self), by simp, rfl, rfl⟩
  · rw [if_neg empty]
    exact ⟨s, rfl, available, empty, rfl, rfl⟩

theorem IdleAvailable.dispatch {s : Sched} (available : IdleAvailable s)
    (nonempty : s.threadReadyList ≠ []) (notBuilding : s.idleThread ∉ s.building) :
    ∃ s', dispatch s = .ok s' ∧ IdleSettled s' := by
  unfold Thread.dispatch
  cases ready : s.threadReadyList with
  | nil => exact absurd ready nonempty
  | cons next rest =>
    refine ⟨_, rfl, ?_, notBuilding⟩
    by_cases same : s.idleThread = next
    · exact .inr (.inl same.symm)
    · rcases available with queued | blocked
      · rw [ready] at queued
        exact .inl ((List.mem_cons.mp queued).resolve_left same)
      · exact .inr (.inr (by simpa [same] using blocked))

/-- `schedule` finds a thread to switch to. -/
theorem IdleEntry.schedule {s : Sched} (entry : IdleEntry s) (frame : Suspended) :
    ∃ s', schedule frame s = .ok s' ∧ IdleSettled s' := by
  have suspended : IdleEntry (s.suspend s.runningThread (some frame)) :=
    ⟨entry.intrOff, entry.place, entry.free, entry.notBuilding⟩
  obtain ⟨s₁, requeued, available, idle, building⟩ := suspended.requeue
  obtain ⟨s₂, woken, available₂, nonempty, idle₂, building₂⟩ := available.wakeIdle
  have notBuilding : s₂.idleThread ∉ s₂.building := by
    rw [idle₂, building₂, idle, building]
    exact entry.notBuilding
  obtain ⟨s', dispatched, settled⟩ := available₂.dispatch nonempty notBuilding
  refine ⟨s', ?_, settled⟩
  rw [Thread.schedule, entry.intrOff]
  simp only [Bool.false_eq_true, if_false, requeued, woken, dispatched]

section Entry

variable {s : Sched}

/-- The timer finds the time slice of the running thread used up. -/
theorem IdleSettled.timerEntry (settled : IdleSettled s) (steady : Steady s) (ticks : Nat)
    {f : TaskStruct → TaskStruct} (sameStatus : ∀ p, (f p).status = p.status) :
    IdleEntry (({ s with ticks := ticks }.onTask s.runningThread f).setIntr false) := by
  have status : ∀ t, (({ s with ticks := ticks }.onTask s.runningThread f).setIntr
      false).status t = s.status t := by
    intro t
    by_cases same : t = s.runningThread
    · subst same
      simp [Sched.status, sameStatus, Function.comp_def]
    · simp [Sched.status, same]
  refine ⟨rfl, ?_, fun _ => steady.not_queued, settled.notBuilding⟩
  rw [status, status]
  rcases settled.place with queued | runs | blocked
  · exact .inl queued
  · exact .inr (.inl ⟨runs, steady.marked.1⟩)
  · exact .inr (.inr blocked)

theorem IdleSettled.statusEntry (settled : IdleSettled s) {stat : ThreadStatus}
    (notRunning : stat ≠ .running) (idle : s.runningThread = s.idleThread → stat = .blocked)
    (exists_ : ∃ p, s.task s.runningThread = some p) :
    IdleEntry ((s.setIntr false).setStatus s.runningThread stat) := by
  obtain ⟨p, found⟩ := exists_
  have own : ((s.setIntr false).setStatus s.runningThread stat).status s.runningThread =
      some stat := by
    simp [Sched.setStatus, Sched.status, found]
  refine ⟨rfl, ?_, ?_, settled.notBuilding⟩
  · by_cases same : s.idleThread = s.runningThread
    · refine .inr (.inr ?_)
      rw [idle same.symm] at own ⊢
      change Sched.status _ s.idleThread = _
      rw [same]
      exact own
    · rcases settled.place with queued | runs | blocked
      · exact .inl queued
      · exact absurd runs.symm same
      · exact .inr (.inr (by simpa [same] using blocked))
  · intro runs
    change Sched.status _ s.runningThread = _ at runs
    rw [own] at runs
    exact absurd (Option.some.inj runs) notRunning

theorem IdleSettled.of_same {s' : Sched} (settled : IdleSettled s)
    (status : ∀ t, s'.status t = s.status t) (ready : s'.threadReadyList = s.threadReadyList)
    (building : s'.building = s.building) (idle : s'.idleThread = s.idleThread)
    (running : s'.runningThread = s.runningThread) : IdleSettled s' := by
  constructor
  · rw [idle, ready, running, status]
    exact settled.place
  · rw [idle, building]
    exact settled.notBuilding

theorem IdleSettled.setSema (settled : IdleSettled s) (k : SemaId) (sem : Semaphore) :
    IdleSettled (s.setSema k sem) :=
  settled.of_same (fun _ => rfl) rfl rfl rfl rfl

theorem scheduleCall_entry {sc : Sched} {a : Action} {frame : Suspended} (steady : Steady s)
    (settled : IdleSettled s) (loop : s.runningThread = s.idleThread → idleDoes a = true)
    (calls : scheduleCall s a = some (frame, sc)) : IdleEntry sc := by
  obtain ⟨p, found, -⟩ := steady.task
  have down {k : SemaId} {oldStatus : Bool} {s' : Sched} (settled' : IdleSettled s')
      (other : s'.runningThread ≠ s'.idleThread) (found' : ∃ p, s'.task s'.runningThread = some p)
      (calls : downCall k oldStatus s' = some (frame, sc)) : IdleEntry sc := by
    unfold downCall at calls
    split at calls
    next =>
      simp only [Option.some.injEq, Prod.mk.injEq] at calls
      rw [← calls.2]
      exact (settled'.setSema k _).statusEntry (by decide) (fun same => absurd same other) found'
    next => cases calls
  unfold scheduleCall at calls
  split at calls
  next own =>
    rw [found] at calls
    dsimp only at calls
    split at calls
    next =>
      simp only [Option.some.injEq, Prod.mk.injEq] at calls
      rw [← calls.2]
      exact settled.timerEntry steady _ fun _ => rfl
    next => cases calls
  next stat own =>
    split at calls
    next blocked =>
      simp only [Option.some.injEq, Prod.mk.injEq] at calls
      rw [← calls.2]
      refine settled.statusEntry (fun runs => ?_) (fun same => ?_) ⟨p, found⟩
      · rw [runs] at blocked
        cases blocked
      · simpa [idleDoes] using loop same
    next => cases calls
  next own =>
    split at calls
    next free =>
      simp only [Option.some.injEq, Prod.mk.injEq] at calls
      rw [← calls.2]
      exact settled.statusEntry (by decide) (fun same => absurd same free.1) ⟨p, found⟩
    next => cases calls
  next k own =>
    split at calls
    next other =>
      exact down (settled.of_same (fun _ => rfl) rfl rfl rfl rfl) other ⟨p, found⟩ calls
    next => cases calls
  next k oldStatus own =>
    have unsuspended : IdleSettled (s.suspend s.runningThread none) :=
      settled.of_same (fun _ => rfl) rfl rfl rfl rfl
    have notIdle : s.runningThread ≠ s.idleThread := fun same =>
      steady.linked.idleFree k oldStatus (same ▸ own)
    exact down unsuspended notIdle ⟨p, found⟩ calls
  next => cases calls

end Entry

/-- The result of a step that does not pop an empty list and leaves the idle thread settled. -/
def KeepsIdle (result : Except Halt Sched) : Prop :=
  match result with
  | .ok s' => IdleSettled s'
  | .error reason => reason ≠ .panic .listPop

section Steps

variable {s : Sched}

theorem IdleSettled.task (steady : Steady s) (settled : IdleSettled s) :
    s.task s.idleThread ≠ none := by
  intro missing
  have noStatus : s.status s.idleThread = none := by simp [Sched.status, missing]
  rcases settled.place with queued | runs | blocked
  · simpa [noStatus] using steady.linked.readyStatus _ queued
  · have running := steady.marked.1
    rw [runs, noStatus] at running
    cases running
  · simp [noStatus] at blocked

theorem IdleSettled.threadUnblock (settled : IdleSettled s) (t : Tid) :
    KeepsIdle (threadUnblock t s) := by
  unfold Thread.threadUnblock
  cases s.task t with
  | none => simp [KeepsIdle]
  | some p =>
    dsimp only
    split
    next blocked =>
      split
      next => simp [KeepsIdle]
      next free =>
        refine ⟨?_, settled.notBuilding⟩
        by_cases same : s.idleThread = t
        · exact .inl (List.mem_cons.mpr (.inl same))
        · rcases settled.place with queued | runs | blocked
          · exact .inl (List.mem_cons_of_mem t queued)
          · exact .inr (.inl runs)
          · exact .inr (.inr (by simpa [same] using blocked))
    next => simp [KeepsIdle]

theorem IdleSettled.semaUp (settled : IdleSettled s) (k : SemaId) : KeepsIdle (semaUp k s) := by
  unfold Thread.semaUp
  dsimp only
  split
  next zero =>
    split
    next => exact settled.setSema k _
    next t rest waits =>
      have woken := (settled.setSema k ⟨(s.sema k).value, rest⟩).threadUnblock t
      cases ran : Thread.threadUnblock t (s.setSema k ⟨(s.sema k).value, rest⟩) with
      | error reason =>
        rw [ran] at woken
        exact woken
      | ok s' =>
        rw [ran] at woken
        exact IdleSettled.setSema woken k _
  next => simp [KeepsIdle]

theorem IdleSettled.semaDownLoop {k : SemaId} {oldStatus : Bool} (settled : IdleSettled s)
    (passes : downCall k oldStatus s = none) : KeepsIdle (semaDownLoop k oldStatus s) := by
  unfold downCall at passes
  unfold Thread.semaDownLoop
  dsimp only
  by_cases zero : (s.sema k).value = 0
  · by_cases waits : s.runningThread ∈ (s.sema k).waiters
    · rw [if_pos zero, if_pos waits]
      simp [KeepsIdle]
    · simp [zero, waits] at passes
  · rw [if_neg zero]
    split
    next one =>
      have taken := settled.setSema k ⟨(s.sema k).value - 1, (s.sema k).waiters⟩
      exact taken.of_same (fun _ => rfl) rfl rfl rfl rfl
    next => simp [KeepsIdle]

theorem IdleSettled.initThread {t : Tid} {prio : Nat} (steady : Steady s)
    (settled : IdleSettled s) (missing : s.task t = none) :
    IdleSettled (((s.addTask t (initThread prio)).suspend t (some .fresh)).setBuilding
      (t :: s.building)) := by
  have different : s.idleThread ≠ t := by
    rintro rfl
    exact settled.task steady missing
  constructor
  · rcases settled.place with queued | runs | blocked
    · exact .inl queued
    · exact .inr (.inl runs)
    · exact .inr (.inr (by simpa [different] using blocked))
  · simpa [different] using settled.notBuilding

theorem IdleSettled.readyAppend (settled : IdleSettled s) (t : Tid) :
    IdleSettled ((s.setBuilding (s.building.erase t)).setReadyList (s.threadReadyList ++ [t])) := by
  constructor
  · rcases settled.place with queued | elsewhere
    · exact .inl (List.mem_append_left [t] queued)
    · exact .inr elsewhere
  · exact fun remains => settled.notBuilding (List.mem_of_mem_erase remains)

theorem IdleSettled.timerTick (settled : IdleSettled s) (steady : Steady s)
    (own : s.suspended s.runningThread = none) (calls : scheduleCall s .timerTick = none) :
    KeepsIdle (ownCode s .timerTick) := by
  obtain ⟨p, found, -⟩ := steady.task
  simp only [ownCode, intrTimerHandler, found]
  split
  next on =>
    split
    next magic =>
      split
      next spent => simp [scheduleCall, own, found, on, magic, spent] at calls
      next left =>
        refine settled.of_same ?_ rfl rfl rfl rfl
        intro t
        by_cases same : t = s.runningThread <;> simp [Sched.status, same, found]
    next => simp [KeepsIdle]
  next => simp [KeepsIdle]

theorem IdleSettled.resume (settled : IdleSettled s) (calls : scheduleCall s .resume = none) :
    KeepsIdle (resume s) := by
  have unsuspended : IdleSettled (s.suspend s.runningThread none) :=
    settled.of_same (fun _ => rfl) rfl rfl rfl rfl
  unfold Thread.resume
  cases own : s.suspended s.runningThread with
  | none => simp [KeepsIdle]
  | some frame =>
    cases frame with
    | inDown k oldStatus =>
      simp only [scheduleCall, own] at calls
      exact unsuspended.semaDownLoop calls
    | fresh | inTimer | inBlock oldStatus | inYield oldStatus =>
      exact unsuspended.of_same (fun _ => rfl) rfl rfl rfl rfl

theorem IdleSettled.ownCode {a : Action} (settled : IdleSettled s) (steady : Steady s)
    (own : s.suspended s.runningThread = none) (calls : scheduleCall s a = none) :
    KeepsIdle (ownCode s a) := by
  cases a with
  | initThread t prio =>
    simp only [Thread.ownCode]
    split
    next missing => exact settled.initThread steady missing
    next => simp [KeepsIdle]
  | readyAppend t =>
    simp only [Thread.ownCode]
    split
    next =>
      split
      next => simp [KeepsIdle]
      next => exact settled.readyAppend t
    next => simp [KeepsIdle]
  | allAppend t =>
    simp only [Thread.ownCode]
    split
    next => simp [KeepsIdle]
    next =>
      split
      next => simp [KeepsIdle]
      next => exact settled.of_same (fun _ => rfl) rfl rfl rfl rfl
  | timerTick => exact settled.timerTick steady own calls
  | threadBlock stat =>
    simp only [scheduleCall, own] at calls
    split at calls
    next => cases calls
    next notBlocked => simp [Thread.ownCode, threadBlock, notBlocked, KeepsIdle]
  | threadUnblock t =>
    simp only [Thread.ownCode]
    split
    next => simp [KeepsIdle]
    next => exact settled.threadUnblock t
  | threadYield =>
    simp only [scheduleCall, own] at calls
    split at calls
    next => cases calls
    next notFree =>
      by_cases idle : s.runningThread = s.idleThread
      · simp [Thread.ownCode, idle, KeepsIdle]
      · have queued : s.runningThread ∈ s.threadReadyList := by
          by_contra free
          exact notFree ⟨idle, free⟩
        simp [Thread.ownCode, threadYield, idle, queued, KeepsIdle]
  | semaDown k =>
    simp only [Thread.ownCode]
    split
    next => simp [KeepsIdle]
    next other =>
      simp only [scheduleCall, own, ne_eq, other, not_false_eq_true, if_true] at calls
      have off : IdleSettled (s.setIntr false) := settled.of_same (fun _ => rfl) rfl rfl rfl rfl
      exact off.semaDownLoop calls
  | semaUp k => exact settled.semaUp k
  | intrSetStatus on => exact settled.of_same (fun _ => rfl) rfl rfl rfl rfl
  | resume => simp [Thread.ownCode, KeepsIdle]

/-- No step pops an empty ready list, and the idle thread stays ready, running or blocked. -/
theorem IdleSettled.idleStep (settled : IdleSettled s) (steady : Steady s) (a : Action) :
    KeepsIdle (idleStep s a) := by
  unfold Thread.idleStep
  split
  next => simp [KeepsIdle]
  next loop =>
    cases calls : scheduleCall s a with
    | some call =>
      obtain ⟨frame, sc⟩ := call
      have goesOn : s.runningThread = s.idleThread → idleDoes a = true := by
        intro idle
        by_contra other
        exact loop ⟨idle, by simpa using other⟩
      have entry := scheduleCall_entry steady settled goesOn calls
      obtain ⟨s', scheduled, after⟩ := entry.schedule frame
      rw [step_of_scheduleCall calls, scheduled]
      exact after
    | none =>
      unfold step
      cases own : s.suspended s.runningThread with
      | none => exact settled.ownCode steady own calls
      | some frame =>
        dsimp only
        split
        next resumes => exact settled.resume (resumes ▸ calls)
        next => simp [KeepsIdle]

end Steps

/-- The idle thread can be woken: it is blocked, in no list, and `thread_unblock` takes it. -/
structure IdleBlocked (s : Sched) : Prop where
  blocked : s.status s.idleThread = some .blocked
  notQueued : s.idleThread ∉ s.threadReadyList
  notWaiting : ∀ k, s.idleThread ∉ (s.sema k).waiters
  woken : ∃ s', threadUnblock s.idleThread s = .ok s'

/-- The call of `schedule` by action `a` goes through, and where its own thread put back
leaves the ready list empty, the idle thread can be woken. -/
def FindsThread (s : Sched) (a : Action) : Prop :=
  ∀ frame sc, scheduleCall s a = some (frame, sc) →
    (∃ s', schedule frame sc = .ok s') ∧
      ∀ s₁, requeue (sc.suspend sc.runningThread (some frame)) = .ok s₁ →
        s₁.threadReadyList = [] → IdleBlocked s₁

theorem downCall_notWaiting {k j : SemaId} {oldStatus : Bool} {s sc : Sched} {frame : Suspended}
    (waits : s.idleThread ∉ (s.sema j).waiters) (other : s.runningThread ≠ s.idleThread)
    (calls : downCall k oldStatus s = some (frame, sc)) :
    sc.idleThread ∉ (sc.sema j).waiters := by
  unfold downCall at calls
  split at calls
  next =>
    simp only [Option.some.injEq, Prod.mk.injEq] at calls
    rw [← calls.2]
    by_cases same : j = k
    · subst same
      simpa [waits] using fun same : s.idleThread = s.runningThread => other same.symm
    · simpa [same] using waits
  next => cases calls

theorem scheduleCall_notWaiting {s sc : Sched} {a : Action} {frame : Suspended}
    (steady : Steady s) (calls : scheduleCall s a = some (frame, sc)) (j : SemaId) :
    sc.idleThread ∉ (sc.sema j).waiters := by
  have waits := steady.linked.idle_not_waiting j
  unfold scheduleCall at calls
  split at calls
  next own =>
    split at calls
    next => cases calls
    next p found =>
      split at calls
      next =>
        simp only [Option.some.injEq, Prod.mk.injEq] at calls
        rw [← calls.2]
        exact waits
      next => cases calls
  next stat own =>
    split at calls
    next =>
      simp only [Option.some.injEq, Prod.mk.injEq] at calls
      rw [← calls.2]
      exact waits
    next => cases calls
  next own =>
    split at calls
    next =>
      simp only [Option.some.injEq, Prod.mk.injEq] at calls
      rw [← calls.2]
      exact waits
    next => cases calls
  next k own =>
    split at calls
    next other =>
      exact downCall_notWaiting (s := s.setIntr false) waits other calls
    next => cases calls
  next k oldStatus own =>
    have notIdle : s.runningThread ≠ s.idleThread := fun same =>
      steady.linked.idleFree k oldStatus (same ▸ own)
    exact downCall_notWaiting (s := s.suspend s.runningThread none) waits notIdle calls
  next => cases calls

theorem IdleSettled.findsThread {s : Sched} {a : Action} (settled : IdleSettled s)
    (steady : Steady s) (loop : s.runningThread = s.idleThread → idleDoes a = true) :
    FindsThread s a := by
  intro frame sc calls
  have entry := scheduleCall_entry steady settled loop calls
  obtain ⟨after, scheduled, -⟩ := entry.schedule frame
  refine ⟨⟨after, scheduled⟩, fun s₁ requeued empty => ?_⟩
  have suspended : IdleEntry (sc.suspend sc.runningThread (some frame)) :=
    ⟨entry.intrOff, entry.place, entry.free, entry.notBuilding⟩
  obtain ⟨s₂, again, available, -, -⟩ := suspended.requeue
  rw [requeued, Except.ok.injEq] at again
  subst again
  obtain ⟨s', woken, -⟩ := available.wakeIdle
  refine ⟨available.blocked empty, by simp [empty], fun k => ?_, s', ?_⟩
  · have notWaiting := scheduleCall_notWaiting steady calls k
    obtain ⟨-, -, rfl⟩ | ⟨-, rfl⟩ := requeue_cases requeued
    · exact notWaiting
    · exact notWaiting
  · rwa [Thread.wakeIdle, if_pos empty] at woken

theorem threadInit_idleSettled (mainThread idleThread : Tid) (value : SemaId → Nat) :
    IdleSettled (threadInit mainThread idleThread value) :=
  ⟨.inl (by simp [threadInit]), by simp [threadInit]⟩

theorem IdleSettled.step {s s' : Sched} {a : Action} (holds : Steady s ∧ IdleSettled s)
    (ran : Thread.idleStep s a = .ok s') : Steady s' ∧ IdleSettled s' := by
  obtain ⟨steady, settled⟩ := holds
  have kept := settled.idleStep steady a
  rw [ran] at kept
  unfold Thread.idleStep at ran
  split at ran
  next => cases ran
  next => exact ⟨steady.step ran, kept⟩

/-- In every state reached from `thread_init`, whatever happens next: `list_pop` is not
called on an empty list, and a `schedule` that finds the ready list empty can wake the idle
thread. -/
theorem idle_found {mainThread idleThread : Tid} (different : mainThread ≠ idleThread)
    (value : SemaId → Nat) {actions : List Action} {states : List Sched}
    (ran : trace idleStep (threadInit mainThread idleThread value) actions = .ok states)
    {s : Sched} (reached : s ∈ threadInit mainThread idleThread value :: states) (a : Action) :
    idleStep s a ≠ .error (.panic .listPop) ∧
      ((s.runningThread = s.idleThread → idleDoes a = true) → FindsThread s a) := by
  have start : Steady (threadInit mainThread idleThread value) ∧
      IdleSettled (threadInit mainThread idleThread value) :=
    ⟨threadInit_steady different value, threadInit_idleSettled mainThread idleThread value⟩
  have preserved : ∀ s a s', Steady s ∧ IdleSettled s → True → idleStep s a = .ok s' →
      Steady s' ∧ IdleSettled s' := fun _ _ _ holds _ ran => IdleSettled.step holds ran
  obtain ⟨steady, settled⟩ : Steady s ∧ IdleSettled s := by
    rcases List.mem_cons.mp reached with rfl | later
    · exact start
    · exact invariant_of_trace preserved start (fun _ _ => trivial) ran s later
  refine ⟨fun panics => ?_, settled.findsThread steady⟩
  have kept := settled.idleStep steady a
  rw [panics] at kept
  exact kept rfl

/-- The main thread blocks, the idle thread starts and blocks itself, and is switched to
itself. -/
theorem idle_found_alone :
    ∃ states, trace idleStep (threadInit 0xc009e000 0xc0100000 fun _ => 0)
        [.threadBlock .waiting, .resume, .threadBlock .blocked, .resume] = .ok states ∧
      ∀ s ∈ threadInit 0xc009e000 0xc0100000 (fun _ => 0) :: states,
        idleStep s (.threadBlock .blocked) ≠ .error (.panic .listPop) ∧
          ((s.runningThread = s.idleThread → idleDoes (.threadBlock .blocked) = true) →
            FindsThread s (.threadBlock .blocked)) := by
  obtain ⟨states, ran⟩ : ∃ states, trace idleStep (threadInit 0xc009e000 0xc0100000 fun _ => 0)
      [.threadBlock .waiting, .resume, .threadBlock .blocked, .resume] = .ok states := ⟨_, rfl⟩
  exact ⟨states, ran, fun s reached => idle_found (by decide) _ ran reached _⟩

end HongbaiOS.Thread
