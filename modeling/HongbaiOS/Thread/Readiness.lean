import HongbaiOS.Thread.Scheduler
import HongbaiOS.Library.Run
import Mathlib.Data.List.Nodup

/-!
# Statuses and lists of the threads

`Linked` says that every `general_tag` is in at most one list; it holds in every
run.  `Balanced` adds the two facts that make a thread reachable by the
scheduler: only the running thread is `TASK_RUNNING`, and every thread that is
`TASK_READY` is in the ready list.
-/

namespace HongbaiOS.Thread

open HongbaiOS.Kernel HongbaiOS.Library

namespace Sched

@[simp]
theorem status_onTask (s : Sched) (t u : Tid) (f : TaskStruct → TaskStruct) :
    (s.onTask t f).status u =
      if u = t then (s.task t).map (fun p => (f p).status) else s.status u := by
  by_cases same : u = t
  · subst same
    simp [status, onTask, Function.comp_def]
  · simp [status, onTask, same]

@[simp]
theorem status_setStatus (s : Sched) (t u : Tid) (stat : ThreadStatus) :
    (s.setStatus t stat).status u =
      if u = t then (s.status t).map (fun _ => stat) else s.status u := by
  by_cases same : u = t <;> simp [setStatus, status, onTask, same, Function.comp_def]

@[simp]
theorem setStatus_threadReadyList (s : Sched) (t : Tid) (stat : ThreadStatus) :
    (s.setStatus t stat).threadReadyList = s.threadReadyList := rfl

@[simp]
theorem setStatus_building (s : Sched) (t : Tid) (stat : ThreadStatus) :
    (s.setStatus t stat).building = s.building := rfl

@[simp]
theorem setStatus_sema (s : Sched) (t : Tid) (stat : ThreadStatus) :
    (s.setStatus t stat).sema = s.sema := rfl

@[simp]
theorem setStatus_suspended (s : Sched) (t : Tid) (stat : ThreadStatus) :
    (s.setStatus t stat).suspended = s.suspended := rfl

@[simp]
theorem setStatus_runningThread (s : Sched) (t : Tid) (stat : ThreadStatus) :
    (s.setStatus t stat).runningThread = s.runningThread := rfl

@[simp]
theorem setStatus_idleThread (s : Sched) (t : Tid) (stat : ThreadStatus) :
    (s.setStatus t stat).idleThread = s.idleThread := rfl

@[simp]
theorem setStatus_intrOn (s : Sched) (t : Tid) (stat : ThreadStatus) :
    (s.setStatus t stat).intrOn = s.intrOn := rfl

@[simp]
theorem status_addTask (s : Sched) (t u : Tid) (p : TaskStruct) :
    (s.addTask t p).status u = if u = t then some p.status else s.status u := by
  by_cases same : u = t <;> simp [status, addTask, same]

@[simp]
theorem status_setBuilding (s : Sched) (list : List Tid) (u : Tid) :
    (s.setBuilding list).status u = s.status u := rfl

@[simp]
theorem status_setReadyList (s : Sched) (list : List Tid) (u : Tid) :
    (s.setReadyList list).status u = s.status u := rfl

@[simp]
theorem status_setSema (s : Sched) (k : SemaId) (sem : Semaphore) (u : Tid) :
    (s.setSema k sem).status u = s.status u := rfl

@[simp]
theorem status_setIntr (s : Sched) (on : Bool) (u : Tid) :
    (s.setIntr on).status u = s.status u := rfl

@[simp]
theorem status_switchTo (s : Sched) (next u : Tid) :
    (s.switchTo next).status u = s.status u := rfl

@[simp]
theorem status_suspend (s : Sched) (t u : Tid) (frame : Option Suspended) :
    (s.suspend t frame).status u = s.status u := rfl

end Sched

/-- A PCB that `thread_start` or `process_execute` has handed to the scheduler. -/
def IsThread (s : Sched) (t : Tid) : Prop := s.task t ≠ none ∧ t ∉ s.building

/-- Every node is in at most one list, and the list it is in agrees with the
thread's status. -/
structure Linked (s : Sched) : Prop where
  readyNodup : s.threadReadyList.Nodup
  readyStatus : ∀ t ∈ s.threadReadyList, s.status t = some .ready
  buildingNodup : s.building.Nodup
  buildingFree : ∀ t ∈ s.building,
    t ∉ s.threadReadyList ∧ s.status t = some .ready
  waitersNodup : ∀ k, (s.sema k).waiters.Nodup
  waiting : ∀ k, ∀ t ∈ (s.sema k).waiters,
    s.status t = some .blocked ∧ ∃ oldStatus, s.suspended t = some (.inDown k oldStatus)
  /-- The idle thread never waits on a semaphore. -/
  idleFree : ∀ k oldStatus, s.suspended s.idleThread ≠ some (.inDown k oldStatus)
  /-- Threads that were never created are suspended nowhere. -/
  suspendedTask : ∀ t, s.task t = none → s.suspended t = none

/-- The running thread is marked so and has been handed to the scheduler. -/
def RunsMarked (s : Sched) : Prop :=
  s.status s.runningThread = some .running ∧ s.runningThread ∉ s.building

/-- Nothing but `runner` is running, and what is ready is queued. -/
structure Balanced (s : Sched) (runner : Option Tid) : Prop where
  running : ∀ t, s.status t = some .running → runner = some t
  queued : ∀ t, t ∉ s.building → s.status t = some .ready → t ∈ s.threadReadyList

theorem Linked.not_waiting {s : Sched} (linked : Linked s) {t : Tid} {stat : ThreadStatus}
    (status : s.status t = some stat) (other : stat ≠ .blocked) (k : SemaId) :
    t ∉ (s.sema k).waiters := by
  intro waits
  have blocked := (linked.waiting k t waits).1
  rw [status, Option.some.injEq] at blocked
  exact other blocked

theorem Linked.waiters_disjoint {s : Sched} (linked : Linked s) {j k : SemaId} {t : Tid}
    (first : t ∈ (s.sema j).waiters) (second : t ∈ (s.sema k).waiters) : j = k := by
  obtain ⟨-, oldStatus, atFirst⟩ := linked.waiting j t first
  obtain ⟨-, oldStatus', atSecond⟩ := linked.waiting k t second
  rw [atFirst] at atSecond
  cases atSecond
  rfl

theorem threadUnblock_cases {pthread : Tid} {s s' : Sched}
    (ran : threadUnblock pthread s = .ok s') :
    ∃ p, s.task pthread = some p ∧ p.status.isBlocked = true ∧
      pthread ∉ s.threadReadyList ∧
      s' = (s.setReadyList (pthread :: s.threadReadyList)).setStatus pthread .ready := by
  unfold threadUnblock at ran
  cases found : s.task pthread with
  | none => simp [found] at ran
  | some p =>
      simp only [found] at ran
      split at ran
      next blocked =>
        split at ran
        next queued => cases ran
        next free =>
          cases ran
          exact ⟨p, rfl, blocked, free, rfl⟩
      next notBlocked => cases ran

theorem requeue_cases {s s' : Sched} (ran : requeue s = .ok s') :
    (s.status s.runningThread = some .running ∧
      s.runningThread ∉ s.threadReadyList ∧
      s' = (s.setReadyList (s.threadReadyList ++ [s.runningThread])).onTask
        s.runningThread fun p => { p with status := .ready, ticks := p.priority }) ∨
    (s.status s.runningThread ≠ some .running ∧ s' = s) := by
  unfold requeue at ran
  split at ran
  next running =>
    split at ran
    next queued => cases ran
    next free =>
      cases ran
      exact .inl ⟨running, free, rfl⟩
  next notRunning =>
    cases ran
    exact .inr ⟨notRunning, rfl⟩

theorem wakeIdle_cases {s s' : Sched} (ran : wakeIdle s = .ok s') :
    (s.threadReadyList = [] ∧ threadUnblock s.idleThread s = .ok s') ∨
    (s.threadReadyList ≠ [] ∧ s' = s) := by
  unfold wakeIdle at ran
  split at ran
  next empty => exact .inl ⟨empty, ran⟩
  next nonempty =>
    cases ran
    exact .inr ⟨nonempty, rfl⟩

theorem dispatch_cases {s s' : Sched} (ran : dispatch s = .ok s') :
    ∃ next rest, s.threadReadyList = next :: rest ∧
      s' = ((s.setReadyList rest).setStatus next .running).switchTo next := by
  unfold dispatch at ran
  cases ready : s.threadReadyList with
  | nil => simp [ready] at ran
  | cons next rest =>
      simp only [ready, Except.ok.injEq] at ran
      exact ⟨next, rest, rfl, ran.symm⟩

theorem schedule_cases {frame : Suspended} {s s' : Sched}
    (ran : schedule frame s = .ok s') :
    ∃ s₁ s₂, requeue (s.suspend s.runningThread (some frame)) = .ok s₁ ∧
      wakeIdle s₁ = .ok s₂ ∧ dispatch s₂ = .ok s' := by
  unfold schedule at ran
  split at ran
  next on => cases ran
  next off =>
    cases requeued : requeue (s.suspend s.runningThread (some frame)) with
    | error h => simp [requeued] at ran
    | ok s₁ =>
        simp only [requeued] at ran
        cases woken : wakeIdle s₁ with
        | error h => simp [woken] at ran
        | ok s₂ =>
            simp only [woken] at ran
            exact ⟨s₁, s₂, rfl, woken, ran⟩

theorem threadBlock_cases {stat : ThreadStatus} {frame : Suspended} {s s' : Sched}
    (ran : threadBlock stat frame s = .ok s') :
    stat.isBlocked = true ∧
      schedule frame ((s.setIntr false).setStatus s.runningThread stat) = .ok s' := by
  unfold threadBlock at ran
  split at ran
  next blocked => exact ⟨blocked, ran⟩
  next notBlocked => cases ran

theorem threadYield_cases {s s' : Sched} (ran : threadYield s = .ok s') :
    s.runningThread ∉ s.threadReadyList ∧
      schedule (.inYield s.intrOn)
        ((s.setIntr false).setStatus s.runningThread .ready) = .ok s' := by
  unfold threadYield at ran
  split at ran
  next queued => cases ran
  next free => exact ⟨free, ran⟩

theorem semaDownLoop_cases {k : SemaId} {oldStatus : Bool} {s s' : Sched}
    (ran : semaDownLoop k oldStatus s = .ok s') :
    (s.runningThread ∉ (s.sema k).waiters ∧
      threadBlock .blocked (.inDown k oldStatus) (s.setSema k
        ⟨(s.sema k).value, (s.sema k).waiters ++ [s.runningThread]⟩) = .ok s') ∨
    s' = (s.setSema k ⟨(s.sema k).value - 1, (s.sema k).waiters⟩).setIntr
      oldStatus := by
  unfold semaDownLoop at ran
  simp only at ran
  split at ran
  next zero =>
    split at ran
    next waits => cases ran
    next free => exact .inl ⟨free, ran⟩
  next positive =>
    split at ran
    next one =>
      cases ran
      exact .inr rfl
    next more => cases ran

theorem semaUp_cases {k : SemaId} {s s' : Sched} (ran : semaUp k s = .ok s') :
    ((s.sema k).waiters = [] ∧
      s' = s.setSema k ⟨(s.sema k).value + 1, []⟩) ∨
    ∃ t rest s₁, (s.sema k).waiters = t :: rest ∧
      threadUnblock t (s.setSema k ⟨(s.sema k).value, rest⟩) = .ok s₁ ∧
      s' = s₁.setSema k ⟨(s.sema k).value + 1, rest⟩ := by
  unfold semaUp at ran
  simp only at ran
  split at ran
  next zero =>
    cases waits : (s.sema k).waiters with
    | nil =>
        simp only [waits, Except.ok.injEq] at ran
        exact .inl ⟨rfl, ran.symm⟩
    | cons t rest =>
        simp only [waits] at ran
        cases woken : threadUnblock t (s.setSema k ⟨(s.sema k).value, rest⟩) with
        | error h => simp [woken] at ran
        | ok s₁ =>
            simp only [woken, Except.ok.injEq] at ran
            exact .inr ⟨t, rest, s₁, rfl, woken, ran.symm⟩
  next positive => cases ran

theorem intrTimerHandler_cases {s s' : Sched} (ran : intrTimerHandler s = .ok s') :
    ∃ p s₁, s.task s.runningThread = some p ∧
      s₁ = { s with ticks := (s.ticks + 1) % 2 ^ 32 }.onTask s.runningThread
        (fun p => { p with elapsedTicks := (p.elapsedTicks + 1) % 2 ^ 32 }) ∧
      (schedule .inTimer (s₁.setIntr false) = .ok s' ∨
        s' = s₁.onTask s.runningThread fun p => { p with ticks := p.ticks - 1 }) := by
  unfold intrTimerHandler at ran
  cases found : s.task s.runningThread with
  | none => simp [found] at ran
  | some p =>
      simp only [found] at ran
      split at ran
      next magic =>
        refine ⟨p, _, rfl, rfl, ?_⟩
        split at ran
        next spent => exact .inl ran
        next left =>
          cases ran
          exact .inr rfl
      next clobbered => cases ran

theorem Linked.threadUnblock {s s' : Sched} {t : Tid} (linked : Linked s)
    (notDown : ∀ k, t ∉ (s.sema k).waiters) (ran : threadUnblock t s = .ok s') :
    Linked s' := by
  obtain ⟨p, found, blocked, free, rfl⟩ := threadUnblock_cases ran
  have status : s.status t = some p.status := by simp [Sched.status, found]
  have notBuilding : t ∉ s.building := by
    intro building
    have ready := (linked.buildingFree t building).2
    rw [status, Option.some.injEq] at ready
    simp [ready, ThreadStatus.isBlocked] at blocked
  refine ⟨?_, ?_, linked.buildingNodup, ?_, linked.waitersNodup, ?_, linked.idleFree, ?_⟩
  · exact List.nodup_cons.mpr ⟨free, linked.readyNodup⟩
  · intro u queued
    by_cases same : u = t
    · subst same
      simp only [Sched.status_setStatus, if_pos]
      change (s.status u).map _ = _
      simp [status]
    · have inOld : u ∈ s.threadReadyList := by
        simpa [Sched.setStatus, Sched.onTask, same] using queued
      simpa [same] using linked.readyStatus u inOld
  · intro u building
    have different : u ≠ t := fun same => notBuilding (same ▸ building)
    obtain ⟨notQueued, ready⟩ := linked.buildingFree u building
    exact ⟨by simp [Sched.setStatus, Sched.onTask, different, notQueued],
      by simpa [different] using ready⟩
  · intro k u waits
    have different : u ≠ t := fun same => notDown k (same ▸ waits)
    simpa [different] using linked.waiting k u waits
  · intro u missing
    apply linked.suspendedTask u
    by_cases same : u = t
    · subst same
      simp [Sched.setStatus, Sched.onTask, found] at missing
    · simpa [Sched.setStatus, Sched.onTask, same] using missing

theorem Balanced.threadUnblock {s s' : Sched} {t : Tid} {runner : Option Tid}
    (balanced : Balanced s runner) (ran : threadUnblock t s = .ok s') :
    Balanced s' runner := by
  obtain ⟨p, found, -, -, rfl⟩ := threadUnblock_cases ran
  constructor
  · intro u running
    by_cases same : u = t
    · subst same
      simp at running
    · exact balanced.running u (by simpa [same] using running)
  · intro u notBuilding ready
    by_cases same : u = t
    · simp [Sched.setStatus, Sched.onTask, same]
    · have inOld := balanced.queued u notBuilding (by simpa [same] using ready)
      simp [Sched.setStatus, Sched.onTask, inOld]

/-- What `requeue` needs to know about the thread that gives the CPU away. -/
structure GivesAway (s : Sched) : Prop where
  linked : Linked s
  notBuilding : s.runningThread ∉ s.building
  notWaiting : s.status s.runningThread = some .running →
    ∀ k, s.runningThread ∉ (s.sema k).waiters

theorem GivesAway.requeue {s s' : Sched} (gives : GivesAway s)
    (ran : requeue s = .ok s') : Linked s' := by
  obtain ⟨running, free, rfl⟩ | ⟨-, rfl⟩ := requeue_cases ran
  · have linked := gives.linked
    refine ⟨?_, ?_, linked.buildingNodup, ?_, linked.waitersNodup, ?_, linked.idleFree, ?_⟩
    · exact linked.readyNodup.append (List.nodup_singleton _)
        (List.disjoint_singleton.mpr free)
    · intro u queued
      obtain ⟨p, found, -⟩ := Option.map_eq_some_iff.mp running
      by_cases same : u = s.runningThread
      · subst same
        simp [found]
      · have inOld : u ∈ s.threadReadyList := by
          simpa [Sched.onTask, same] using queued
        simpa [same] using linked.readyStatus u inOld
    · intro u building
      have different : u ≠ s.runningThread :=
        fun same => gives.notBuilding (same ▸ building)
      obtain ⟨notQueued, ready⟩ := linked.buildingFree u building
      exact ⟨by simp [Sched.onTask, different, notQueued], by simpa [different] using ready⟩
    · intro k u waits
      have different : u ≠ s.runningThread :=
        fun same => gives.notWaiting running k (same ▸ waits)
      simpa [different] using linked.waiting k u waits
    · intro u missing
      apply linked.suspendedTask u
      by_cases same : u = s.runningThread
      · subst same
        simpa [Sched.onTask] using missing
      · simpa [Sched.onTask, same] using missing
  · exact gives.linked

theorem Linked.idle_not_waiting {s : Sched} (linked : Linked s) (k : SemaId) :
    s.idleThread ∉ (s.sema k).waiters := by
  intro waits
  obtain ⟨-, oldStatus, frame⟩ := linked.waiting k _ waits
  exact linked.idleFree k oldStatus frame

theorem Linked.wakeIdle {s s' : Sched} (linked : Linked s) (ran : wakeIdle s = .ok s') :
    Linked s' := by
  obtain ⟨-, woken⟩ | ⟨-, rfl⟩ := wakeIdle_cases ran
  · exact linked.threadUnblock linked.idle_not_waiting woken
  · exact linked

theorem Linked.dispatch {s s' : Sched} (linked : Linked s) (ran : dispatch s = .ok s') :
    Linked s' ∧ RunsMarked s' := by
  obtain ⟨next, rest, ready, rfl⟩ := dispatch_cases ran
  have isReady : s.status next = some .ready := linked.readyStatus next (by simp [ready])
  obtain ⟨p, found, -⟩ := Option.map_eq_some_iff.mp isReady
  have notBuilding : next ∉ s.building := fun building =>
    (linked.buildingFree next building).1 (by simp [ready])
  have nodup : (next :: rest).Nodup := ready ▸ linked.readyNodup
  refine ⟨⟨?_, ?_, linked.buildingNodup, ?_, linked.waitersNodup, ?_, linked.idleFree, ?_⟩,
    ?_, notBuilding⟩
  · exact (List.nodup_cons.mp nodup).2
  · intro u queued
    have inRest : u ∈ rest := queued
    have different : u ≠ next := fun same =>
      (List.nodup_cons.mp nodup).1 (same ▸ inRest)
    have old := linked.readyStatus u (by simp [ready, inRest])
    simpa [Sched.status, Sched.setStatus, Sched.onTask, different] using old
  · intro u building
    have different : u ≠ next := fun same => notBuilding (same ▸ building)
    obtain ⟨notQueued, old⟩ := linked.buildingFree u building
    refine ⟨fun inRest => notQueued ?_, ?_⟩
    · have inRest : u ∈ rest := inRest
      simp [ready, inRest]
    · simpa [Sched.status, Sched.setStatus, Sched.onTask, different] using old
  · intro k u waits
    have different : u ≠ next := fun same =>
      linked.not_waiting isReady (by decide) k (same ▸ waits)
    have old := linked.waiting k u waits
    simpa [Sched.status, Sched.setStatus, Sched.onTask, different] using old
  · intro u missing
    apply linked.suspendedTask u
    by_cases same : u = next
    · subst same
      simp [Sched.setStatus, Sched.onTask, found] at missing
    · simpa [Sched.setStatus, Sched.onTask, same] using missing
  · simp [Sched.status, Sched.setStatus, Sched.onTask, found]

theorem Linked.schedule {frame : Suspended} {s s' : Sched}
    (gives : GivesAway (s.suspend s.runningThread (some frame)))
    (ran : schedule frame s = .ok s') : Linked s' ∧ RunsMarked s' := by
  obtain ⟨s₁, s₂, requeued, woken, dispatched⟩ := schedule_cases ran
  exact ((gives.requeue requeued).wakeIdle woken).dispatch dispatched

/-- With the running thread either still running or already blocked, nothing is
left behind when it gives the CPU away. -/
theorem Balanced.requeue {s s' : Sched} (balanced : Balanced s (some s.runningThread))
    (ran : requeue s = .ok s') : Balanced s' none := by
  obtain ⟨isRunning, -, rfl⟩ | ⟨notRunning, rfl⟩ := requeue_cases ran
  · constructor
    · intro u running
      by_cases same : u = s.runningThread
      · subst same
        simp at running
      · have runs := balanced.running u (by simpa [same] using running)
        rw [Option.some.injEq] at runs
        exact absurd runs.symm same
    · intro u notBuilding ready
      by_cases same : u = s.runningThread
      · simp [same]
      · have inOld := balanced.queued u notBuilding (by simpa [same] using ready)
        simp [inOld]
  · constructor
    · intro u running
      have runs := balanced.running u running
      rw [Option.some.injEq] at runs
      exact absurd (runs ▸ running) notRunning
    · exact balanced.queued

theorem Balanced.wakeIdle {s s' : Sched} (balanced : Balanced s none)
    (ran : wakeIdle s = .ok s') : Balanced s' none := by
  obtain ⟨-, woken⟩ | ⟨-, rfl⟩ := wakeIdle_cases ran
  · exact balanced.threadUnblock woken
  · exact balanced

theorem Balanced.dispatch {s s' : Sched} (balanced : Balanced s none)
    (ran : dispatch s = .ok s') : Balanced s' (some s'.runningThread) := by
  obtain ⟨next, rest, ready, rfl⟩ := dispatch_cases ran
  constructor
  · intro u running
    by_cases same : u = next
    · simp [same]
    · have old := balanced.running u (by simpa [same] using running)
      cases old
  · intro u notBuilding isReady
    by_cases same : u = next
    · subst same
      simp at isReady
    · have inOld := balanced.queued u notBuilding (by simpa [same] using isReady)
      simpa [ready, same] using inOld

theorem Balanced.schedule {frame : Suspended} {s s' : Sched}
    (balanced : Balanced s (some s.runningThread)) (ran : schedule frame s = .ok s') :
    Balanced s' (some s'.runningThread) := by
  obtain ⟨s₁, s₂, requeued, woken, dispatched⟩ := schedule_cases ran
  have suspended : Balanced (s.suspend s.runningThread (some frame))
      (some s.runningThread) := ⟨balanced.running, balanced.queued⟩
  exact ((suspended.requeue requeued).wakeIdle woken).dispatch dispatched

/-- What holds between two steps in every run. -/
structure Steady (s : Sched) : Prop where
  linked : Linked s
  marked : RunsMarked s

theorem Steady.not_waiting {s : Sched} (steady : Steady s) (k : SemaId) :
    s.runningThread ∉ (s.sema k).waiters :=
  steady.linked.not_waiting steady.marked.1 (by decide) k

theorem Steady.not_queued {s : Sched} (steady : Steady s) :
    s.runningThread ∉ s.threadReadyList := by
  intro queued
  have ready := steady.linked.readyStatus _ queued
  rw [steady.marked.1] at ready
  cases ready

theorem Steady.task {s : Sched} (steady : Steady s) :
    ∃ p, s.task s.runningThread = some p ∧ p.status = .running :=
  Option.map_eq_some_iff.mp steady.marked.1

/-- The running thread may change its own PCB and leave a frame that is not a
wait on a semaphore before it gives the CPU away. -/
theorem Steady.givesAway {s s' : Sched} {f : TaskStruct → TaskStruct} {frame : Suspended}
    (steady : Steady s) (notDown : ∀ k oldStatus, frame ≠ .inDown k oldStatus)
    (ran : schedule frame ((s.setIntr false).onTask s.runningThread f) = .ok s') :
    Steady s' := by
  obtain ⟨p, found, -⟩ := steady.task
  have linked := steady.linked
  have notQueued := steady.not_queued
  have scheduled := Linked.schedule ⟨⟨?_, ?_, ?_, ?_, ?_, ?_, ?_, ?_⟩, ?_, ?_⟩ ran
  · exact ⟨scheduled.1, scheduled.2⟩
  · exact linked.readyNodup
  · intro u queued
    have different : u ≠ s.runningThread := fun same => notQueued (same ▸ queued)
    simpa [different] using linked.readyStatus u queued
  · exact linked.buildingNodup
  · intro u building
    have different : u ≠ s.runningThread := fun same => steady.marked.2 (same ▸ building)
    simpa [different] using linked.buildingFree u building
  · exact linked.waitersNodup
  · intro k u waits
    have different : u ≠ s.runningThread := fun same => steady.not_waiting k (same ▸ waits)
    simpa [different] using linked.waiting k u waits
  · intro k oldStatus idles
    by_cases same : s.idleThread = s.runningThread
    · refine notDown k oldStatus ?_
      simpa [same] using idles
    · exact linked.idleFree k oldStatus (by simpa [same] using idles)
  · intro u missing
    by_cases same : u = s.runningThread
    · subst same
      simp [found] at missing
    · simpa [same] using linked.suspendedTask u (by simpa [same] using missing)
  · exact steady.marked.2
  · exact fun _ k => steady.not_waiting k

/-- Changes that concern neither a status nor a list nor a frame. -/
theorem Steady.of_same {s s' : Sched} (steady : Steady s)
    (status : ∀ t, s'.status t = s.status t) (ready : s'.threadReadyList = s.threadReadyList)
    (building : s'.building = s.building) (waiters : ∀ k, (s'.sema k).waiters = (s.sema k).waiters)
    (suspended : s'.suspended = s.suspended) (idle : s'.idleThread = s.idleThread)
    (running : s'.runningThread = s.runningThread) : Steady s' := by
  obtain ⟨linked, marked⟩ := steady
  have exists_iff : ∀ t, s'.task t = none ↔ s.task t = none := by
    intro t
    have same := status t
    simp only [Sched.status] at same
    cases old : s.task t <;> cases new : s'.task t <;> simp_all
  refine ⟨⟨?_, ?_, ?_, ?_, ?_, ?_, ?_, ?_⟩, ?_⟩
  · rw [ready]; exact linked.readyNodup
  · rw [ready]; simpa [status] using linked.readyStatus
  · rw [building]; exact linked.buildingNodup
  · rw [building, ready]; simpa only [status] using linked.buildingFree
  · simpa only [waiters] using linked.waitersNodup
  · simpa only [waiters, status, suspended] using linked.waiting
  · rw [idle, suspended]; exact linked.idleFree
  · simpa only [exists_iff, suspended] using linked.suspendedTask
  · rw [RunsMarked, running, status, building]
    exact marked

theorem Balanced.of_same {s s' : Sched} {runner : Option Tid} (balanced : Balanced s runner)
    (status : ∀ t, s'.status t = s.status t) (ready : s'.threadReadyList = s.threadReadyList)
    (building : s'.building = s.building) : Balanced s' runner := by
  constructor
  · simpa only [status] using balanced.running
  · rw [building, ready]
    simpa only [status] using balanced.queued

theorem Steady.semaDownLoop {k : SemaId} {oldStatus : Bool} {s s' : Sched}
    (steady : Steady s) (notIdle : s.runningThread ≠ s.idleThread)
    (ran : semaDownLoop k oldStatus s = .ok s') : Steady s' := by
  obtain ⟨free, blocked⟩ | rfl := semaDownLoop_cases ran
  · obtain ⟨-, scheduled⟩ := threadBlock_cases blocked
    obtain ⟨p, found, -⟩ := steady.task
    have linked := steady.linked
    have notQueued := steady.not_queued
    have ends := Linked.schedule ⟨⟨?_, ?_, ?_, ?_, ?_, ?_, ?_, ?_⟩, ?_, ?_⟩ scheduled
    · exact ⟨ends.1, ends.2⟩
    · exact linked.readyNodup
    · intro u queued
      have different : u ≠ s.runningThread := fun same => notQueued (same ▸ queued)
      simpa [different] using linked.readyStatus u queued
    · exact linked.buildingNodup
    · intro u building
      have different : u ≠ s.runningThread := fun same => steady.marked.2 (same ▸ building)
      simpa [different] using linked.buildingFree u building
    · intro j
      by_cases same : j = k
      · subst same
        simpa using (linked.waitersNodup j).append (List.nodup_singleton _)
          (List.disjoint_singleton.mpr free)
      · simpa [same] using linked.waitersNodup j
    · intro j u waits
      by_cases self : u = s.runningThread
      · -- the running thread was in no list, so the new one is its only one
        subst self
        by_cases same : j = k
        · subst same
          have isRunning := steady.marked.1
          simp [isRunning]
        · exact absurd (by simpa [same] using waits) (steady.not_waiting j)
      · have inOld : u ∈ (s.sema j).waiters := by
          by_cases same : j = k
          · subst same
            simpa [self] using waits
          · simpa [same] using waits
        simpa [self] using linked.waiting j u inOld
    · intro j old idles
      have different : s.idleThread ≠ s.runningThread := fun same => notIdle same.symm
      exact linked.idleFree j old (by simpa [different] using idles)
    · intro u missing
      by_cases same : u = s.runningThread
      · subst same
        simp [Sched.setStatus, found] at missing
      · simpa [same] using
          linked.suspendedTask u (by simpa [Sched.setStatus, same] using missing)
    · exact steady.marked.2
    · intro running
      simp at running
  · refine steady.of_same (fun _ => rfl) rfl rfl ?_ rfl rfl rfl
    intro j
    by_cases same : j = k
    · subst same
      simp
    · simp [same]

theorem Steady.unsuspend {s : Sched} (steady : Steady s) :
    Steady (s.suspend s.runningThread none) := by
  obtain ⟨linked, marked⟩ := steady
  refine ⟨⟨linked.readyNodup, linked.readyStatus, linked.buildingNodup, linked.buildingFree,
    linked.waitersNodup, ?_, ?_, ?_⟩, marked⟩
  · intro k u waits
    have different : u ≠ s.runningThread := fun same =>
      Steady.not_waiting ⟨linked, marked⟩ k (same ▸ waits)
    simpa [different] using linked.waiting k u waits
  · intro k oldStatus idles
    by_cases same : s.idleThread = s.runningThread
    · simp [same] at idles
    · exact linked.idleFree k oldStatus (by simpa [same] using idles)
  · intro u missing
    by_cases same : u = s.runningThread
    · simp [same]
    · simpa [same] using linked.suspendedTask u missing

theorem Steady.resume {s s' : Sched} (steady : Steady s) (ran : resume s = .ok s') :
    Steady s' := by
  unfold Thread.resume at ran
  cases frame : s.suspended s.runningThread with
  | none => simp [frame] at ran
  | some frame' =>
      simp only [frame] at ran
      cases frame' with
      | inDown k oldStatus =>
          refine steady.unsuspend.semaDownLoop ?_ ran
          intro same
          have same : s.runningThread = s.idleThread := same
          exact steady.linked.idleFree k oldStatus (same ▸ frame)
      | fresh | inTimer | inBlock oldStatus | inYield oldStatus =>
          cases ran
          exact steady.unsuspend.of_same (fun _ => rfl) rfl rfl (fun _ => rfl) rfl rfl rfl

theorem Steady.threadUnblock {s s' : Sched} {t : Tid} (steady : Steady s)
    (notDown : ∀ k, t ∉ (s.sema k).waiters) (ran : threadUnblock t s = .ok s') :
    Steady s' := by
  refine ⟨steady.linked.threadUnblock notDown ran, ?_⟩
  obtain ⟨p, found, blocked, -, rfl⟩ := threadUnblock_cases ran
  obtain ⟨q, running, isRunning⟩ := steady.task
  have different : s.runningThread ≠ t := by
    intro same
    rw [same, found, Option.some.injEq] at running
    subst running
    simp [isRunning, ThreadStatus.isBlocked] at blocked
  refine ⟨?_, steady.marked.2⟩
  simpa [different] using steady.marked.1

/-- Taking the first waiter out of a semaphore leaves every node in one list. -/
theorem Steady.popWaiter {s : Sched} {k : SemaId} {t : Tid} {rest : List Tid}
    (steady : Steady s) (waits : (s.sema k).waiters = t :: rest) (value : Nat) :
    Steady (s.setSema k ⟨value, rest⟩) ∧
      ∀ j, t ∉ ((s.setSema k ⟨value, rest⟩).sema j).waiters := by
  obtain ⟨linked, marked⟩ := steady
  have nodup : (t :: rest).Nodup := waits ▸ linked.waitersNodup k
  have subset : ∀ j, ∀ u ∈ ((s.setSema k ⟨value, rest⟩).sema j).waiters,
      u ∈ (s.sema j).waiters := by
    intro j u inNew
    by_cases same : j = k
    · subst same
      have inRest : u ∈ rest := by simpa using inNew
      simp [waits, inRest]
    · simpa [same] using inNew
  refine ⟨⟨⟨linked.readyNodup, linked.readyStatus, linked.buildingNodup, linked.buildingFree,
    ?_, ?_, linked.idleFree, linked.suspendedTask⟩, marked⟩, ?_⟩
  · intro j
    by_cases same : j = k
    · subst same
      simpa using (List.nodup_cons.mp nodup).2
    · simpa [same] using linked.waitersNodup j
  · intro j u inNew
    exact linked.waiting j u (subset j u inNew)
  · intro j inNew
    by_cases same : j = k
    · subst same
      exact (List.nodup_cons.mp nodup).1 (by simpa using inNew)
    · exact same (linked.waiters_disjoint (subset j t inNew) (by simp [waits]))

theorem Steady.semaUp {s s' : Sched} {k : SemaId} (steady : Steady s)
    (ran : semaUp k s = .ok s') : Steady s' := by
  obtain ⟨empty, rfl⟩ | ⟨t, rest, s₁, waits, woken, rfl⟩ := semaUp_cases ran
  · refine steady.of_same (fun _ => rfl) rfl rfl ?_ rfl rfl rfl
    intro j
    by_cases same : j = k
    · subst same
      simp [empty]
    · simp [same]
  · obtain ⟨popped, free⟩ := steady.popWaiter waits (s.sema k).value
    have waiters : s₁.sema = (s.setSema k ⟨(s.sema k).value, rest⟩).sema := by
      obtain ⟨p, -, -, -, rfl⟩ := threadUnblock_cases woken
      rfl
    refine (popped.threadUnblock free woken).of_same (fun _ => rfl) rfl rfl ?_ rfl rfl rfl
    intro j
    by_cases same : j = k
    · subst same
      simp [waiters]
    · simp [same]

theorem Steady.intrTimerHandler {s s' : Sched} (steady : Steady s)
    (ran : intrTimerHandler s = .ok s') : Steady s' := by
  obtain ⟨p, s₁, found, rfl, scheduled | rfl⟩ := intrTimerHandler_cases ran
  · have ticked : Steady { s with ticks := (s.ticks + 1) % 2 ^ 32 } :=
      steady.of_same (fun _ => rfl) rfl rfl (fun _ => rfl) rfl rfl rfl
    exact ticked.givesAway (by simp) scheduled
  · refine steady.of_same ?_ rfl rfl (fun _ => rfl) rfl rfl rfl
    intro t
    by_cases same : t = s.runningThread
    · subst same
      simp [Sched.status, found]
    · simp [Sched.status, same]

theorem Balanced.threadBlock {s s' : Sched} {stat : ThreadStatus} {frame : Suspended}
    (balanced : Balanced s (some s.runningThread)) (ran : threadBlock stat frame s = .ok s') :
    Balanced s' (some s'.runningThread) := by
  obtain ⟨blocked, scheduled⟩ := threadBlock_cases ran
  refine Balanced.schedule ⟨?_, ?_⟩ scheduled
  · intro u running
    by_cases same : u = s.runningThread
    · exact congrArg some same.symm
    · exact balanced.running u (by simpa [same] using running)
  · intro u notBuilding ready
    by_cases same : u = s.runningThread
    · subst same
      obtain ⟨-, -, isReady⟩ : ∃ p, s.status s.runningThread = some p ∧ stat = .ready := by
        simpa using ready
      simp [isReady, ThreadStatus.isBlocked] at blocked
    · exact balanced.queued u notBuilding (by simpa [same] using ready)

theorem Balanced.semaDownLoop {k : SemaId} {oldStatus : Bool} {s s' : Sched}
    (balanced : Balanced s (some s.runningThread))
    (ran : semaDownLoop k oldStatus s = .ok s') : Balanced s' (some s'.runningThread) := by
  obtain ⟨-, blocked⟩ | rfl := semaDownLoop_cases ran
  · exact Balanced.threadBlock (s := s.setSema k _)
      (balanced.of_same (fun _ => rfl) rfl rfl) blocked
  · exact balanced.of_same (fun _ => rfl) rfl rfl

theorem Balanced.semaUp {s s' : Sched} {k : SemaId} {runner : Option Tid}
    (balanced : Balanced s runner) (ran : semaUp k s = .ok s') : Balanced s' runner := by
  obtain ⟨-, rfl⟩ | ⟨t, rest, s₁, -, woken, rfl⟩ := semaUp_cases ran
  · exact balanced.of_same (fun _ => rfl) rfl rfl
  · have popped : Balanced (s.setSema k ⟨(s.sema k).value, rest⟩) runner :=
      balanced.of_same (fun _ => rfl) rfl rfl
    exact (popped.threadUnblock woken).of_same (fun _ => rfl) rfl rfl

theorem Balanced.intrTimerHandler {s s' : Sched} (balanced : Balanced s (some s.runningThread))
    (ran : intrTimerHandler s = .ok s') : Balanced s' (some s'.runningThread) := by
  obtain ⟨p, s₁, found, rfl, scheduled | rfl⟩ := intrTimerHandler_cases ran
  · refine Balanced.schedule ?_ scheduled
    refine balanced.of_same ?_ rfl rfl
    intro t
    by_cases same : t = s.runningThread <;> simp [Sched.status, same, found]
  · refine balanced.of_same ?_ rfl rfl
    intro t
    by_cases same : t = s.runningThread <;> simp [Sched.status, same, found]

theorem Balanced.resume {s s' : Sched} (balanced : Balanced s (some s.runningThread))
    (ran : resume s = .ok s') : Balanced s' (some s'.runningThread) := by
  have own : Balanced (s.suspend s.runningThread none) (some s.runningThread) :=
    balanced.of_same (fun _ => rfl) rfl rfl
  unfold Thread.resume at ran
  cases frame : s.suspended s.runningThread with
  | none => simp [frame] at ran
  | some frame' =>
      simp only [frame] at ran
      cases frame' with
      | inDown k oldStatus => exact Balanced.semaDownLoop own ran
      | fresh | inTimer | inBlock oldStatus | inYield oldStatus =>
          cases ran
          exact own.of_same (fun _ => rfl) rfl rfl

theorem step_cases {s s' : Sched} {a : Action} (ran : step s a = .ok s') :
    (s.suspended s.runningThread = none ∧ ownCode s a = .ok s') ∨
    (a = .resume ∧ resume s = .ok s') := by
  unfold step at ran
  cases frame : s.suspended s.runningThread with
  | none =>
      simp only [frame] at ran
      exact .inl ⟨rfl, ran⟩
  | some frame' =>
      simp only [frame] at ran
      split at ran
      next resumes => exact .inr ⟨resumes, ran⟩
      next other => cases ran

theorem Steady.initThread {s : Sched} {t : Tid} {prio : Nat} (steady : Steady s)
    (missing : s.task t = none) :
    Steady (((s.addTask t (initThread prio)).suspend t (some .fresh)).setBuilding
      (t :: s.building)) := by
  obtain ⟨linked, marked⟩ := steady
  have noStatus : s.status t = none := by simp [Sched.status, missing]
  have notQueued : t ∉ s.threadReadyList := by
    intro queued
    have ready := linked.readyStatus t queued
    simp [noStatus] at ready
  have notBuilding : t ∉ s.building := by
    intro building
    have ready := (linked.buildingFree t building).2
    simp [noStatus] at ready
  have notRunning : s.runningThread ≠ t := by
    rintro rfl
    simpa [noStatus] using marked.1
  refine ⟨⟨linked.readyNodup, ?_, ?_, ?_, linked.waitersNodup, ?_, ?_, ?_⟩, ?_, ?_⟩
  · intro u queued
    have different : u ≠ t := fun same => notQueued (same ▸ queued)
    simpa [different] using linked.readyStatus u queued
  · exact List.nodup_cons.mpr ⟨notBuilding, linked.buildingNodup⟩
  · intro u building
    by_cases same : u = t
    · subst same
      exact ⟨notQueued, by simp [Thread.initThread]⟩
    · have old : u ∈ s.building := by simpa [same] using building
      simpa [same] using linked.buildingFree u old
  · intro k u waits
    have old := linked.waiting k u waits
    have different : u ≠ t := by
      rintro rfl
      simp [noStatus] at old
    simpa [different] using old
  · intro k oldStatus idles
    by_cases same : s.idleThread = t
    · simp [same] at idles
    · exact linked.idleFree k oldStatus (by simpa [same] using idles)
  · intro u stillMissing
    by_cases same : u = t
    · subst same
      simp at stillMissing
    · simpa [same] using linked.suspendedTask u (by simpa [same] using stillMissing)
  · simpa [notRunning] using marked.1
  · simpa [notRunning] using marked.2

theorem Steady.readyAppend {s : Sched} {t : Tid} (steady : Steady s)
    (building : t ∈ s.building) :
    Steady ((s.setBuilding (s.building.erase t)).setReadyList (s.threadReadyList ++ [t])) := by
  obtain ⟨linked, marked⟩ := steady
  obtain ⟨notQueued, ready⟩ := linked.buildingFree t building
  refine ⟨⟨?_, ?_, linked.buildingNodup.erase t, ?_, linked.waitersNodup, linked.waiting,
    linked.idleFree, linked.suspendedTask⟩, marked.1, ?_⟩
  · exact linked.readyNodup.append (List.nodup_singleton t)
      (List.disjoint_singleton.mpr notQueued)
  · intro u queued
    rcases List.mem_append.mp queued with old | new
    · exact linked.readyStatus u old
    · rw [List.mem_singleton.mp new]
      exact ready
  · intro u remains
    obtain ⟨different, old⟩ := (linked.buildingNodup.mem_erase_iff).mp remains
    obtain ⟨free, isReady⟩ := linked.buildingFree u old
    exact ⟨by simp [free, different], isReady⟩
  · exact fun remains => marked.2 (List.mem_of_mem_erase remains)

theorem Steady.step {s s' : Sched} {a : Action} (steady : Steady s)
    (ran : step s a = .ok s') : Steady s' := by
  obtain ⟨-, own⟩ | ⟨-, resumed⟩ := step_cases ran
  · cases a with
    | initThread t prio =>
        simp only [ownCode] at own
        split at own
        next missing =>
          cases own
          exact steady.initThread missing
        next taken => cases own
    | readyAppend t =>
        simp only [ownCode] at own
        split at own
        next building =>
          split at own
          next queued => cases own
          next free =>
            cases own
            exact steady.readyAppend building
        next finished => cases own
    | allAppend t =>
        simp only [ownCode] at own
        split at own
        next building => cases own
        next finished =>
          split at own
          next listed => cases own
          next free =>
            cases own
            exact steady.of_same (fun _ => rfl) rfl rfl (fun _ => rfl) rfl rfl rfl
    | timerTick =>
        simp only [ownCode] at own
        split at own
        next on => exact steady.intrTimerHandler own
        next off => cases own
    | threadBlock stat =>
        obtain ⟨-, scheduled⟩ := threadBlock_cases own
        exact steady.givesAway (by simp) scheduled
    | threadUnblock t =>
        refine steady.threadUnblock (t := t) ?_ ?_
        · intro k waits
          obtain ⟨-, oldStatus, frame⟩ := steady.linked.waiting k t waits
          simp [ownCode, frame] at own
        · simp only [ownCode] at own
          split at own
          next waiting => cases own
          next other => exact own
    | threadYield =>
        simp only [ownCode] at own
        split at own
        next idle => cases own
        next other => exact steady.givesAway (by simp) (threadYield_cases own).2
    | semaDown k =>
        simp only [ownCode] at own
        split at own
        next idle => cases own
        next other =>
          have off : Steady (s.setIntr false) :=
            steady.of_same (fun _ => rfl) rfl rfl (fun _ => rfl) rfl rfl rfl
          exact off.semaDownLoop other own
    | semaUp k => exact steady.semaUp own
    | intrSetStatus on =>
        cases own
        exact steady.of_same (fun _ => rfl) rfl rfl (fun _ => rfl) rfl rfl rfl
    | resume => cases own
  · exact steady.resume resumed

theorem Balanced.step {s s' : Sched} {a : Action} (steady : Steady s)
    (balanced : Balanced s (some s.runningThread)) (noYield : a ≠ .threadYield)
    (ran : step s a = .ok s') : Balanced s' (some s'.runningThread) := by
  obtain ⟨-, own⟩ | ⟨-, resumed⟩ := step_cases ran
  · cases a with
    | initThread t prio =>
        simp only [ownCode] at own
        split at own
        next missing =>
          cases own
          have notRunning : s.runningThread ≠ t := by
            rintro rfl
            simpa [Sched.status, missing] using steady.marked.1
          constructor
          · intro u running
            by_cases same : u = t
            · subst same
              simp [initThread] at running
            · exact balanced.running u (by simpa [same] using running)
          · intro u notBuilding ready
            simp only [Sched.setBuilding_building, List.mem_cons, not_or] at notBuilding
            exact balanced.queued u notBuilding.2 (by simpa [notBuilding.1] using ready)
        next taken => cases own
    | readyAppend t =>
        simp only [ownCode] at own
        split at own
        next building =>
          split at own
          next queued => cases own
          next free =>
            cases own
            refine ⟨balanced.running, ?_⟩
            intro u notBuilding ready
            by_cases same : u = t
            · simp [same]
            · have old : u ∉ s.building := fun inOld =>
                notBuilding ((List.mem_erase_of_ne same).mpr inOld)
              simp [balanced.queued u old ready]
        next finished => cases own
    | allAppend t =>
        simp only [ownCode] at own
        split at own
        next building => cases own
        next finished =>
          split at own
          next listed => cases own
          next free =>
            cases own
            exact balanced.of_same (fun _ => rfl) rfl rfl
    | timerTick =>
        simp only [ownCode] at own
        split at own
        next on => exact balanced.intrTimerHandler own
        next off => cases own
    | threadBlock stat => exact balanced.threadBlock own
    | threadUnblock t =>
        have same : s'.runningThread = s.runningThread ∧
            Thread.threadUnblock t s = .ok s' := by
          simp only [ownCode] at own
          split at own
          next waiting => cases own
          next other =>
            obtain ⟨p, -, -, -, rfl⟩ := threadUnblock_cases own
            exact ⟨rfl, own⟩
        rw [same.1]
        exact balanced.threadUnblock same.2
    | threadYield => exact absurd rfl noYield
    | semaDown k =>
        simp only [ownCode] at own
        split at own
        next idle => cases own
        next other =>
          exact Balanced.semaDownLoop (s := s.setIntr false)
            (balanced.of_same (fun _ => rfl) rfl rfl) own
    | semaUp k =>
        have same : s'.runningThread = s.runningThread := by
          obtain ⟨-, rfl⟩ | ⟨t, rest, s₁, -, woken, rfl⟩ := semaUp_cases own
          · rfl
          · obtain ⟨p, -, -, -, rfl⟩ := threadUnblock_cases woken
            rfl
        rw [same]
        exact balanced.semaUp own
    | intrSetStatus on =>
        cases own
        exact balanced.of_same (fun _ => rfl) rfl rfl
    | resume => cases own
  · exact balanced.resume resumed

theorem threadInit_steady {mainThread idleThread : Tid} (different : mainThread ≠ idleThread)
    (value : SemaId → Nat) : Steady (threadInit mainThread idleThread value) := by
  refine ⟨⟨by simp [threadInit], ?_, by simp [threadInit], by simp [threadInit],
    by simp [threadInit], by simp [threadInit], ?_, ?_⟩, ?_, by simp [threadInit]⟩
  · simp [threadInit, Sched.status, initThread]
  · simp [threadInit]
  · intro t missing
    by_cases same : t = idleThread
    · subst same
      simp [threadInit] at missing
    · simp [threadInit, same]
  · simp [threadInit, Sched.status, different]

theorem threadInit_balanced {mainThread idleThread : Tid}
    (value : SemaId → Nat) :
    Balanced (threadInit mainThread idleThread value) (some mainThread) := by
  constructor
  · intro t running
    by_cases isIdle : t = idleThread
    · subst isIdle
      simp [threadInit, Sched.status, initThread] at running
    · by_cases isMain : t = mainThread
      · simp [isMain]
      · simp [threadInit, Sched.status, isIdle, isMain] at running
  · intro t _ ready
    by_cases isIdle : t = idleThread
    · simp [threadInit, isIdle]
    · by_cases isMain : t = mainThread
      · subst isMain
        simp [threadInit, Sched.status, isIdle] at ready
      · simp [threadInit, Sched.status, isIdle, isMain] at ready

end HongbaiOS.Thread
