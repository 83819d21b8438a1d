import HongbaiOS.Library.Except
import HongbaiOS.Thread.Readiness
import Mathlib.Algebra.BigOperators.Group.Finset.Basic
import Mathlib.Algebra.Order.BigOperators.Group.Finset
import Mathlib.Data.Finset.Card

/-!
# How long a ready thread waits

A thread that is woken goes to the front of the ready list, so others can pass a waiting
thread any number of times.  They pass it on what is left of their time slices: only the
`schedule` of a thread whose slice is used up fills it again, and that puts the thread to
the end of the list.  The threads that can still run before the waiting one therefore only
become fewer, and the timer uses up their ticks.
-/

namespace HongbaiOS.Thread

open HongbaiOS.Kernel HongbaiOS.Library

/-- What comes after `t` in a list. -/
def behind (t : Tid) (list : List Tid) : List Tid := list.drop (list.idxOf t + 1)

/-- The ticks left of the time slice of `t`. -/
def Sched.ticksOf (s : Sched) (t : Tid) : Nat := ((s.task t).map (·.ticks)).getD 0

/-- `u` can still run before `t`, which waits in the ready list. -/
structure Ahead (s : Sched) (t u : Tid) : Prop where
  isThread : IsThread s u
  other : u ≠ t
  notBehind : u ∉ behind t s.threadReadyList

instance (s : Sched) (t : Tid) : Decidable (IsThread s t) :=
  inferInstanceAs (Decidable (s.task t ≠ none ∧ t ∉ s.building))

instance (s : Sched) (t u : Tid) : Decidable (Ahead s t u) :=
  decidable_of_iff (IsThread s u ∧ u ≠ t ∧ u ∉ behind t s.threadReadyList)
    ⟨fun ⟨isThread, other, notBehind⟩ => ⟨isThread, other, notBehind⟩,
      fun ahead => ⟨ahead.isThread, ahead.other, ahead.notBehind⟩⟩

/-- The timer interrupts that can come before `t` is switched to, where `threads` are all
the threads there are. -/
def waitingTicks (threads : Finset Tid) (s : Sched) (t : Tid) : Nat :=
  ∑ u ∈ threads with Ahead s t u, (s.ticksOf u + 1)

theorem behind_cons_of_ne {t u : Tid} (other : u ≠ t) (list : List Tid) :
    behind t (u :: list) = behind t list := by
  simp [behind, other]

theorem behind_append {t : Tid} {list : List Tid} (queued : t ∈ list) (more : List Tid) :
    behind t (list ++ more) = behind t list ++ more := by
  have inside : list.idxOf t + 1 ≤ list.length := List.idxOf_lt_length_iff.mpr queued
  rw [behind, List.idxOf_append_of_mem queued, List.drop_append_of_le_length inside, behind]

/-- From `s` to `s'` no thread has come ahead of `t`, and those still ahead have no more
ticks than before. -/
structure Nears (t : Tid) (s s' : Sched) : Prop where
  queued : t ∈ s'.threadReadyList
  ahead : ∀ u, Ahead s' t u → Ahead s t u ∧ s'.ticksOf u ≤ s.ticksOf u

namespace Nears

variable {t : Tid} {s s' s'' : Sched}

theorem trans (first : Nears t s s') (second : Nears t s' s'') : Nears t s s'' := by
  refine ⟨second.queued, fun u ahead => ?_⟩
  obtain ⟨between, fewer⟩ := second.ahead u ahead
  obtain ⟨before, few⟩ := first.ahead u between
  exact ⟨before, fewer.trans few⟩

theorem of_same (queued : t ∈ s.threadReadyList)
    (ready : s'.threadReadyList = s.threadReadyList) (building : s'.building = s.building)
    (tasks : ∀ u, s.task u = none → s'.task u = none)
    (ticks : ∀ u, s'.ticksOf u ≤ s.ticksOf u) : Nears t s s' := by
  refine ⟨by rwa [ready], fun u ahead => ⟨⟨⟨fun missing => ?_, ?_⟩, ahead.other, ?_⟩, ticks u⟩⟩
  · exact ahead.isThread.1 (tasks u missing)
  · simpa only [building] using ahead.isThread.2
  · simpa only [ready] using ahead.notBehind

theorem of_task (queued : t ∈ s.threadReadyList)
    (ready : s'.threadReadyList = s.threadReadyList) (building : s'.building = s.building)
    (task : s'.task = s.task) : Nears t s s' :=
  .of_same queued ready building (fun u missing => by rwa [task])
    fun u => by simp only [Sched.ticksOf, task, Nat.le_refl]

end Nears

theorem Sched.ticksOf_onTask (s : Sched) (t u : Tid) (f : TaskStruct → TaskStruct) :
    (s.onTask t f).ticksOf u =
      if u = t then ((s.task t).map fun p => (f p).ticks).getD 0 else s.ticksOf u := by
  by_cases same : u = t
  · subst same
    simp [Sched.ticksOf, Function.comp_def]
  · simp [Sched.ticksOf, same]

theorem Sched.onTask_missing {s : Sched} {u : Tid} (t : Tid) (f : TaskStruct → TaskStruct)
    (missing : s.task u = none) : (s.onTask t f).task u = none := by
  by_cases same : u = t
  · subst same
    simp [missing]
  · simp [same, missing]

@[simp]
theorem Sched.ticksOf_setStatus (s : Sched) (t u : Tid) (stat : ThreadStatus) :
    (s.setStatus t stat).ticksOf u = s.ticksOf u := by
  rw [Sched.setStatus, Sched.ticksOf_onTask]
  split
  next same => rw [same, Sched.ticksOf]
  next other => rfl

theorem Nears.onTask {t u : Tid} {s : Sched} {f : TaskStruct → TaskStruct}
    (queued : t ∈ s.threadReadyList) (fewer : ∀ p, (f p).ticks ≤ p.ticks) :
    Nears t s (s.onTask u f) := by
  refine .of_same queued rfl rfl (fun v => Sched.onTask_missing u f) fun v => ?_
  rw [Sched.ticksOf_onTask]
  split
  next same =>
    subst same
    rw [Sched.ticksOf]
    cases s.task v with
    | none => simp
    | some p => simpa using fewer p
  next other => exact Nat.le_refl _

theorem Nears.setStatus {t u : Tid} {s : Sched} (queued : t ∈ s.threadReadyList)
    (stat : ThreadStatus) : Nears t s (s.setStatus u stat) :=
  .onTask queued fun _ => Nat.le_refl _

/-- A woken thread goes to the front of the list with the ticks it had. -/
theorem threadUnblock_nears {t u : Tid} {s s' : Sched} (queued : t ∈ s.threadReadyList)
    (ran : threadUnblock u s = .ok s') : Nears t s s' := by
  obtain ⟨p, found, -, free, rfl⟩ := threadUnblock_cases ran
  have other : u ≠ t := fun same => free (same ▸ queued)
  have front : Nears t s (s.setReadyList (u :: s.threadReadyList)) := by
    refine ⟨List.mem_cons_of_mem u queued, fun v ahead => ⟨⟨ahead.isThread, ahead.other, ?_⟩,
      Nat.le_refl _⟩⟩
    simpa [behind_cons_of_ne other] using ahead.notBehind
  exact front.trans (.setStatus front.queued .ready)

theorem wakeIdle_nears {t : Tid} {s s' : Sched} (queued : t ∈ s.threadReadyList)
    (ran : wakeIdle s = .ok s') : Nears t s s' := by
  obtain ⟨empty, -⟩ | ⟨-, rfl⟩ := wakeIdle_cases ran
  · rw [empty] at queued
    cases queued
  · exact .of_task queued rfl rfl rfl

theorem dispatch_nears {t : Tid} {s s' : Sched} (queued : t ∈ s.threadReadyList)
    (ran : dispatch s = .ok s') (waits : s'.runningThread ≠ t) : Nears t s s' := by
  obtain ⟨next, rest, ready, rfl⟩ := dispatch_cases ran
  have other : next ≠ t := waits
  have inRest : t ∈ rest := by
    rw [ready] at queued
    exact (List.mem_cons.mp queued).resolve_left other.symm
  have popped : Nears t s (s.setReadyList rest) := by
    refine ⟨inRest, fun u ahead => ⟨⟨ahead.isThread, ahead.other, ?_⟩, Nat.le_refl _⟩⟩
    simpa [ready, behind_cons_of_ne other] using ahead.notBehind
  have marked : Nears t s ((s.setReadyList rest).setStatus next .running) :=
    popped.trans (.setStatus popped.queued .running)
  exact marked.trans (.of_task marked.queued rfl rfl rfl)

theorem requeue_nears {t : Tid} {s s' : Sched} (queued : t ∈ s.threadReadyList)
    (ran : requeue s = .ok s') :
    Nears t s s' ∧
      (s.status s.runningThread = some .running → ¬ Ahead s' t s.runningThread) := by
  obtain ⟨running, free, rfl⟩ | ⟨notRunning, rfl⟩ := requeue_cases ran
  · have last : s.runningThread ∈ behind t (s.threadReadyList ++ [s.runningThread]) := by
      simp [behind_append queued]
    refine ⟨⟨by simp [queued], fun u ahead => ?_⟩, fun _ ahead => ahead.notBehind last⟩
    have different : u ≠ s.runningThread := by
      rintro rfl
      exact ahead.notBehind last
    refine ⟨⟨⟨fun missing => ?_, ahead.isThread.2⟩, ahead.other, fun after => ?_⟩, ?_⟩
    · exact ahead.isThread.1 (Sched.onTask_missing s.runningThread _ missing)
    · refine ahead.notBehind ?_
      change u ∈ behind t (s.threadReadyList ++ [s.runningThread])
      rw [behind_append queued]
      exact List.mem_append_left _ after
    · rw [Sched.ticksOf_onTask, if_neg different]
      exact Nat.le_refl _
  · exact ⟨.of_task queued rfl rfl rfl, fun running => absurd running notRunning⟩

theorem schedule_nears {t : Tid} {frame : Suspended} {s s' : Sched}
    (queued : t ∈ s.threadReadyList) (ran : schedule frame s = .ok s')
    (waits : s'.runningThread ≠ t) :
    Nears t s s' ∧
      (s.status s.runningThread = some .running → ¬ Ahead s' t s.runningThread) := by
  obtain ⟨s₁, s₂, requeued, woken, dispatched⟩ := schedule_cases ran
  have suspended : Nears t s (s.suspend s.runningThread (some frame)) :=
    .of_task queued rfl rfl rfl
  obtain ⟨toEnd, leaves⟩ := requeue_nears suspended.queued requeued
  have awake := wakeIdle_nears toEnd.queued woken
  have switched := dispatch_nears awake.queued dispatched waits
  have rest := awake.trans switched
  exact ⟨(suspended.trans toEnd).trans rest,
    fun running ahead => leaves running (rest.ahead _ ahead).1⟩

theorem threadBlock_nears {t : Tid} {stat : ThreadStatus} {frame : Suspended} {s s' : Sched}
    (queued : t ∈ s.threadReadyList) (ran : threadBlock stat frame s = .ok s')
    (waits : s'.runningThread ≠ t) : Nears t s s' := by
  obtain ⟨-, scheduled⟩ := threadBlock_cases ran
  have off : Nears t s (s.setIntr false) := .of_task queued rfl rfl rfl
  have blocked := off.trans (.setStatus (u := s.runningThread) off.queued stat)
  exact blocked.trans (schedule_nears blocked.queued scheduled waits).1

theorem threadYield_nears {t : Tid} {s s' : Sched} (queued : t ∈ s.threadReadyList)
    (ran : threadYield s = .ok s') (waits : s'.runningThread ≠ t) : Nears t s s' := by
  obtain ⟨-, scheduled⟩ := threadYield_cases ran
  have off : Nears t s (s.setIntr false) := .of_task queued rfl rfl rfl
  have yielding := off.trans (.setStatus (u := s.runningThread) off.queued .ready)
  exact yielding.trans (schedule_nears yielding.queued scheduled waits).1

theorem semaDownLoop_nears {t : Tid} {k : SemaId} {oldStatus : Bool} {s s' : Sched}
    (queued : t ∈ s.threadReadyList) (ran : semaDownLoop k oldStatus s = .ok s')
    (waits : s'.runningThread ≠ t) : Nears t s s' := by
  obtain ⟨-, blocked⟩ | rfl := semaDownLoop_cases ran
  · have joined : Nears t s (s.setSema k
        ⟨(s.sema k).value, (s.sema k).waiters ++ [s.runningThread]⟩) :=
      .of_task queued rfl rfl rfl
    exact joined.trans (threadBlock_nears joined.queued blocked waits)
  · exact .of_task queued rfl rfl rfl

theorem semaUp_nears {t : Tid} {k : SemaId} {s s' : Sched} (queued : t ∈ s.threadReadyList)
    (ran : semaUp k s = .ok s') : Nears t s s' := by
  obtain ⟨-, rfl⟩ | ⟨u, rest, s₁, -, woken, rfl⟩ := semaUp_cases ran
  · exact .of_task queued rfl rfl rfl
  · have popped : Nears t s (s.setSema k ⟨(s.sema k).value, rest⟩) :=
      .of_task queued rfl rfl rfl
    have awake := threadUnblock_nears popped.queued woken
    exact (popped.trans awake).trans (.of_task awake.queued rfl rfl rfl)

theorem resume_nears {t : Tid} {s s' : Sched} (queued : t ∈ s.threadReadyList)
    (ran : resume s = .ok s') (waits : s'.runningThread ≠ t) : Nears t s s' := by
  unfold resume at ran
  dsimp only at ran
  split at ran
  next => cases ran
  next => cases ran; exact .of_task queued rfl rfl rfl
  next => cases ran; exact .of_task queued rfl rfl rfl
  next oldStatus => cases ran; exact .of_task queued rfl rfl rfl
  next oldStatus => cases ran; exact .of_task queued rfl rfl rfl
  next k oldStatus =>
    have own : Nears t s (s.suspend s.runningThread none) := .of_task queued rfl rfl rfl
    exact own.trans (semaDownLoop_nears own.queued ran waits)

theorem initThread_nears {t u : Tid} {s : Sched} (queued : t ∈ s.threadReadyList)
    (p : TaskStruct) (frame : Option Suspended) :
    Nears t s (((s.addTask u p).suspend u frame).setBuilding (u :: s.building)) := by
  refine ⟨queued, fun v ahead => ?_⟩
  have notBuilding : v ≠ u ∧ v ∉ s.building := by simpa using ahead.isThread.2
  have task : (((s.addTask u p).suspend u frame).setBuilding (u :: s.building)).task v =
      s.task v := by simp [notBuilding.1]
  refine ⟨⟨⟨?_, notBuilding.2⟩, ahead.other, ahead.notBehind⟩, ?_⟩
  · exact task ▸ ahead.isThread.1
  · rw [Sched.ticksOf, task, Sched.ticksOf]

theorem readyAppend_nears {t u : Tid} {s : Sched} (queued : t ∈ s.threadReadyList) :
    Nears t s ((s.setBuilding (s.building.erase u)).setReadyList
      (s.threadReadyList ++ [u])) := by
  refine ⟨by simp [queued], fun v ahead => ?_⟩
  have notAfter : v ∉ behind t s.threadReadyList ∧ v ≠ u := by
    have after := ahead.notBehind
    simpa [behind_append queued] using after
  refine ⟨⟨⟨ahead.isThread.1, fun building => ahead.isThread.2 ?_⟩, ahead.other,
    notAfter.1⟩, Nat.le_refl _⟩
  exact (List.mem_erase_of_ne notAfter.2).mpr building

/-- One of the threads ahead pays for the timer interrupt with a tick, or goes behind
`t`. -/
structure Pays (t : Tid) (s s' : Sched) : Prop where
  before : Ahead s t s.runningThread
  after : Ahead s' t s.runningThread → s'.ticksOf s.runningThread < s.ticksOf s.runningThread

theorem Steady.running_ahead {s : Sched} {t : Tid} (steady : Steady s)
    (queued : t ∈ s.threadReadyList) : Ahead s t s.runningThread := by
  obtain ⟨p, found, -⟩ := steady.task
  have notQueued := steady.not_queued
  refine ⟨⟨by simp [found], steady.marked.2⟩, fun same => notQueued (same ▸ queued), ?_⟩
  exact fun after => notQueued (List.mem_of_mem_drop after)

theorem intrTimerHandler_nears {t : Tid} {s s' : Sched} (steady : Steady s)
    (queued : t ∈ s.threadReadyList) (ran : intrTimerHandler s = .ok s')
    (waits : s'.runningThread ≠ t) : Nears t s s' ∧ Pays t s s' := by
  have before := steady.running_ahead queued
  obtain ⟨p, found, isRunning⟩ := steady.task
  simp only [intrTimerHandler, found] at ran
  split at ran
  next magic =>
    have counted : Nears t s { s with ticks := (s.ticks + 1) % 2 ^ 32 } :=
      .of_task queued rfl rfl rfl
    have elapsed : Nears t s ({ s with ticks := (s.ticks + 1) % 2 ^ 32 }.onTask
        s.runningThread fun p => { p with elapsedTicks := (p.elapsedTicks + 1) % 2 ^ 32 }) :=
      counted.trans (.onTask counted.queued fun _ => Nat.le_refl _)
    split at ran
    next spent =>
      have off : Nears t s (({ s with ticks := (s.ticks + 1) % 2 ^ 32 }.onTask s.runningThread
          fun p => { p with elapsedTicks := (p.elapsedTicks + 1) % 2 ^ 32 }).setIntr false) :=
        elapsed.trans (.of_task elapsed.queued rfl rfl rfl)
      obtain ⟨nears, leaves⟩ := schedule_nears off.queued ran waits
      refine ⟨off.trans nears, before, fun ahead => absurd ahead (leaves ?_)⟩
      simp [found, isRunning]
    next left =>
      cases ran
      refine ⟨elapsed.trans (.onTask elapsed.queued fun q => Nat.sub_le _ _), before,
        fun _ => ?_⟩
      rw [Sched.ticksOf_onTask]
      simp only [Sched.ticksOf, found, Sched.onTask_task, Function.update_self,
        Option.map_some, Option.getD_some, if_true]
      omega
  next clobbered => cases ran

/-- What the running thread's own code can do. -/
inductive OwnStep (s : Sched) : Action → Sched → Prop where
  | initThread {t : Tid} {prio : Nat} (free : s.task t = none) :
      OwnStep s (.initThread t prio)
        (((s.addTask t (initThread prio)).suspend t (some .fresh)).setBuilding (t :: s.building))
  | readyAppend {t : Tid} (building : t ∈ s.building) (notReady : t ∉ s.threadReadyList) :
      OwnStep s (.readyAppend t)
        ((s.setBuilding (s.building.erase t)).setReadyList (s.threadReadyList ++ [t]))
  | allAppend {t : Tid} (finished : t ∉ s.building) (notListed : t ∉ s.threadAllList) :
      OwnStep s (.allAppend t) { s with threadAllList := s.threadAllList ++ [t] }
  | timerTick {s' : Sched} (on : s.intrOn = true) (ran : intrTimerHandler s = .ok s') :
      OwnStep s .timerTick s'
  | threadBlock {stat : ThreadStatus} {s' : Sched}
      (ran : threadBlock stat (.inBlock s.intrOn) s = .ok s') : OwnStep s (.threadBlock stat) s'
  | threadUnblock {t : Tid} {s' : Sched}
      (notDown : ∀ k oldStatus, s.suspended t ≠ some (.inDown k oldStatus))
      (ran : threadUnblock t s = .ok s') : OwnStep s (.threadUnblock t) s'
  | threadYield {s' : Sched} (notIdle : s.runningThread ≠ s.idleThread)
      (ran : threadYield s = .ok s') : OwnStep s .threadYield s'
  | semaDown (k : SemaId) {s' : Sched} (notIdle : s.runningThread ≠ s.idleThread)
      (ran : semaDown k s = .ok s') : OwnStep s (.semaDown k) s'
  | semaUp (k : SemaId) {s' : Sched} (ran : semaUp k s = .ok s') : OwnStep s (.semaUp k) s'
  | intrSetStatus {on : Bool} : OwnStep s (.intrSetStatus on) (s.setIntr on)

theorem OwnStep.of_ownCode {s s' : Sched} {a : Action} (own : ownCode s a = .ok s') :
    OwnStep s a s' := by
  cases a with
  | initThread t prio =>
      simp only [ownCode] at own
      split at own
      next free =>
        cases own
        exact .initThread free
      next taken => cases own
  | readyAppend t =>
      simp only [ownCode] at own
      split at own
      next building =>
        split at own
        next => cases own
        next notReady =>
          cases own
          exact .readyAppend building notReady
      next finished => cases own
  | allAppend t =>
      simp only [ownCode] at own
      split at own
      next building => cases own
      next finished =>
        split at own
        next listed => cases own
        next notListed =>
          cases own
          exact .allAppend finished notListed
  | timerTick =>
      simp only [ownCode] at own
      split at own
      next on => exact .timerTick on own
      next off => cases own
  | threadBlock stat => exact .threadBlock own
  | threadUnblock t =>
      simp only [ownCode] at own
      split at own
      next => cases own
      next notDown => exact .threadUnblock notDown own
  | threadYield =>
      simp only [ownCode] at own
      split at own
      next => cases own
      next notIdle => exact .threadYield notIdle own
  | semaDown k =>
      simp only [ownCode] at own
      split at own
      next => cases own
      next notIdle => exact .semaDown k notIdle own
  | semaUp k => exact .semaUp k own
  | intrSetStatus on =>
      cases own
      exact .intrSetStatus
  | resume => cases own

theorem step_nears {t : Tid} {s s' : Sched} {a : Action} (steady : Steady s)
    (queued : t ∈ s.threadReadyList) (ran : step s a = .ok s')
    (waits : s'.runningThread ≠ t) :
    Nears t s s' ∧ (a = .timerTick → Pays t s s') := by
  obtain ⟨-, own⟩ | ⟨rfl, resumed⟩ := step_cases ran
  · cases OwnStep.of_ownCode own with
    | initThread free => exact ⟨initThread_nears queued _ _, by simp⟩
    | readyAppend building notReady => exact ⟨readyAppend_nears queued, by simp⟩
    | allAppend finished notListed => exact ⟨.of_task queued rfl rfl rfl, by simp⟩
    | timerTick on ran =>
        obtain ⟨nears, pays⟩ := intrTimerHandler_nears steady queued ran waits
        exact ⟨nears, fun _ => pays⟩
    | threadBlock ran => exact ⟨threadBlock_nears queued ran waits, by simp⟩
    | threadUnblock notDown ran => exact ⟨threadUnblock_nears queued ran, by simp⟩
    | threadYield notIdle ran => exact ⟨threadYield_nears queued ran waits, by simp⟩
    | semaDown k notIdle ran =>
        have off : Nears t s (s.setIntr false) := .of_task queued rfl rfl rfl
        exact ⟨off.trans (semaDownLoop_nears off.queued ran waits), by simp⟩
    | semaUp k ran => exact ⟨semaUp_nears queued ran, by simp⟩
    | intrSetStatus => exact ⟨.of_task queued rfl rfl rfl, by simp⟩
  · exact ⟨resume_nears queued resumed waits, by simp⟩

/-- The threads are among `threads`, and `priority` and `ticks` are bytes. -/
def Sliced (threads : Finset Tid) (s : Sched) : Prop :=
  ∀ u p, s.task u = some p → u ∈ threads ∧ p.priority < 2 ^ 8 ∧ p.ticks < 2 ^ 8

/-- What an operation may do to the PCBs: it makes none, keeps the priorities, and sets
`ticks` only to less than it was or to the priority. -/
def TasksKept (s s' : Sched) : Prop :=
  ∀ u p', s'.task u = some p' → ∃ p, s.task u = some p ∧ p'.priority = p.priority ∧
    (p'.ticks ≤ p.ticks ∨ p'.ticks ≤ p.priority)

namespace TasksKept

variable {s s' s'' : Sched}

theorem refl (s : Sched) : TasksKept s s :=
  fun _ p found => ⟨p, found, rfl, .inl (Nat.le_refl _)⟩

theorem trans (first : TasksKept s s') (second : TasksKept s' s'') : TasksKept s s'' := by
  intro u p'' found
  obtain ⟨p', between, samePriority, ticks⟩ := second u p'' found
  obtain ⟨p, before, same, fewer⟩ := first u p' between
  refine ⟨p, before, samePriority.trans same, ?_⟩
  rcases ticks with less | less
  · rcases fewer with few | few
    · exact .inl (less.trans few)
    · exact .inr (less.trans few)
  · exact .inr (same ▸ less)

theorem onTask (t : Tid) {f : TaskStruct → TaskStruct}
    (priority : ∀ p, (f p).priority = p.priority)
    (ticks : ∀ p, (f p).ticks ≤ p.ticks ∨ (f p).ticks ≤ p.priority) :
    TasksKept s (s.onTask t f) := by
  intro u p' found
  by_cases same : u = t
  · subst same
    simp only [Sched.onTask_task, Function.update_self, Option.map_eq_some_iff] at found
    obtain ⟨p, before, rfl⟩ := found
    exact ⟨p, before, priority p, ticks p⟩
  · refine ⟨p', ?_, rfl, .inl (Nat.le_refl _)⟩
    simpa [same] using found

theorem setStatus (s : Sched) (t : Tid) (stat : ThreadStatus) :
    TasksKept s (s.setStatus t stat) :=
  onTask t (fun _ => rfl) fun _ => .inl (Nat.le_refl _)

theorem sliced (kept : TasksKept s s') {threads : Finset Tid} (sliced : Sliced threads s) :
    Sliced threads s' := by
  intro u p' found
  obtain ⟨p, before, priority, ticks⟩ := kept u p' found
  obtain ⟨known, small, few⟩ := sliced u p before
  exact ⟨known, by omega, by omega⟩

end TasksKept

theorem threadUnblock_tasks {t : Tid} {s s' : Sched} (ran : threadUnblock t s = .ok s') :
    TasksKept s s' := by
  obtain ⟨p, -, -, -, rfl⟩ := threadUnblock_cases ran
  exact .setStatus (s.setReadyList (t :: s.threadReadyList)) t .ready

theorem schedule_tasks {frame : Suspended} {s s' : Sched} (ran : schedule frame s = .ok s') :
    TasksKept s s' := by
  obtain ⟨s₁, s₂, requeued, woken, dispatched⟩ := schedule_cases ran
  have first : TasksKept s s₁ := by
    obtain ⟨-, -, rfl⟩ | ⟨-, rfl⟩ := requeue_cases requeued
    · exact .onTask (s := (s.suspend s.runningThread (some frame)).setReadyList
        (s.threadReadyList ++ [s.runningThread])) _ (fun _ => rfl)
        fun _ => .inr (Nat.le_refl _)
    · exact .refl s
  have second : TasksKept s₁ s₂ := by
    obtain ⟨-, idle⟩ | ⟨-, rfl⟩ := wakeIdle_cases woken
    · exact threadUnblock_tasks idle
    · exact .refl s₂
  obtain ⟨next, rest, -, rfl⟩ := dispatch_cases dispatched
  exact (first.trans second).trans (.setStatus (s₂.setReadyList rest) next .running)

theorem threadBlock_tasks {stat : ThreadStatus} {frame : Suspended} {s s' : Sched}
    (ran : threadBlock stat frame s = .ok s') : TasksKept s s' :=
  (TasksKept.setStatus (s.setIntr false) s.runningThread stat).trans
    (schedule_tasks (threadBlock_cases ran).2)

theorem semaDownLoop_tasks {k : SemaId} {oldStatus : Bool} {s s' : Sched}
    (ran : semaDownLoop k oldStatus s = .ok s') : TasksKept s s' := by
  obtain ⟨-, blocked⟩ | rfl := semaDownLoop_cases ran
  · have joined : TasksKept s (s.setSema k
        ⟨(s.sema k).value, (s.sema k).waiters ++ [s.runningThread]⟩) := .refl s
    exact joined.trans (threadBlock_tasks blocked)
  · exact .refl s

theorem resume_tasks {s s' : Sched} (ran : resume s = .ok s') : TasksKept s s' := by
  unfold resume at ran
  dsimp only at ran
  split at ran
  next => cases ran
  next => cases ran; exact .refl s
  next => cases ran; exact .refl s
  next oldStatus => cases ran; exact .refl s
  next oldStatus => cases ran; exact .refl s
  next k oldStatus =>
    have own : TasksKept s (s.suspend s.runningThread none) := .refl s
    exact own.trans (semaDownLoop_tasks ran)

theorem intrTimerHandler_tasks {s s' : Sched} (ran : intrTimerHandler s = .ok s') :
    TasksKept s s' := by
  obtain ⟨p, s₁, -, rfl, ends⟩ := intrTimerHandler_cases ran
  have charged : TasksKept s ({ s with ticks := (s.ticks + 1) % 2 ^ 32 }.onTask
      s.runningThread fun p => { p with elapsedTicks := (p.elapsedTicks + 1) % 2 ^ 32 }) :=
    .onTask (s := { s with ticks := (s.ticks + 1) % 2 ^ 32 }) _ (fun _ => rfl)
      fun _ => .inl (Nat.le_refl _)
  rcases ends with scheduled | rfl
  · have off : TasksKept s (({ s with ticks := (s.ticks + 1) % 2 ^ 32 }.onTask s.runningThread
        fun p => { p with elapsedTicks := (p.elapsedTicks + 1) % 2 ^ 32 }).setIntr false) :=
      charged
    exact off.trans (schedule_tasks scheduled)
  · exact charged.trans (.onTask _ (fun _ => rfl) fun _ => .inl (Nat.sub_le _ _))

def Action.makes : Action → Option Tid
  | .initThread t _ => some t
  | _ => none

theorem step_tasks {s s' : Sched} {a : Action} (ran : step s a = .ok s') :
    TasksKept s s' ∨ ∃ t prio, a = .initThread t prio ∧
      s'.task = Function.update s.task t (some (initThread prio)) := by
  obtain ⟨-, own⟩ | ⟨-, resumed⟩ := step_cases ran
  · cases OwnStep.of_ownCode own with
    | initThread free => exact .inr ⟨_, _, rfl, rfl⟩
    | readyAppend building notReady => exact .inl (.refl s)
    | allAppend finished notListed => exact .inl (.refl s)
    | timerTick on ran => exact .inl (intrTimerHandler_tasks ran)
    | threadBlock ran => exact .inl (threadBlock_tasks ran)
    | threadUnblock notDown ran => exact .inl (threadUnblock_tasks ran)
    | threadYield notIdle ran =>
        have yielding : TasksKept s ((s.setIntr false).setStatus s.runningThread .ready) :=
          .setStatus (s.setIntr false) s.runningThread .ready
        exact .inl (yielding.trans (schedule_tasks (threadYield_cases ran).2))
    | semaDown k notIdle ran =>
        have off : TasksKept s (s.setIntr false) := .refl s
        exact .inl (off.trans (semaDownLoop_tasks ran))
    | semaUp k ran =>
        obtain ⟨-, rfl⟩ | ⟨t, rest, s₁, -, woken, rfl⟩ := semaUp_cases ran
        · exact .inl (.refl s)
        · have popped : TasksKept s (s.setSema k ⟨(s.sema k).value, rest⟩) := .refl s
          have awake : TasksKept s s₁ := popped.trans (threadUnblock_tasks woken)
          exact .inl awake
    | intrSetStatus => exact .inl (.refl s)
  · exact .inl (resume_tasks resumed)

/-- The threads of a run from `thread_init`. -/
def pcbs (mainThread idleThread : Tid) (actions : List Action) : Finset Tid :=
  (mainThread :: idleThread :: actions.filterMap Action.makes).toFinset

theorem Sliced.step {threads : Finset Tid} {s s' : Sched} {a : Action}
    (sliced : Sliced threads s) (known : ∀ t, a.makes = some t → t ∈ threads)
    (ran : step s a = .ok s') : Sliced threads s' := by
  rcases step_tasks ran with kept | ⟨t, prio, rfl, task⟩
  · exact kept.sliced sliced
  · intro u p found
    rw [task] at found
    by_cases same : u = t
    · subst same
      rw [Function.update_self, Option.some.injEq] at found
      subst found
      exact ⟨known u rfl, Nat.mod_lt _ (by decide), Nat.mod_lt _ (by decide)⟩
    · rw [Function.update_of_ne same] at found
      exact sliced u p found

theorem threadInit_sliced {mainThread idleThread : Tid} {threads : Finset Tid}
    (main : mainThread ∈ threads) (idle : idleThread ∈ threads) (value : SemaId → Nat) :
    Sliced threads (threadInit mainThread idleThread value) := by
  intro u p found
  by_cases isIdle : u = idleThread
  · subst isIdle
    simp only [threadInit, Function.update_self, Option.some.injEq] at found
    subst found
    exact ⟨idle, by decide, by decide⟩
  · by_cases isMain : u = mainThread
    · subst isMain
      simp only [threadInit, Function.update_of_ne isIdle, Function.update_self,
        Option.some.injEq] at found
      subst found
      exact ⟨main, by decide, by decide⟩
    · simp [threadInit, isIdle, isMain] at found

theorem waitingTicks_step {threads : Finset Tid} {t : Tid} {s s' : Sched} {a : Action}
    (steady : Steady s) (known : ∀ u, Ahead s t u → u ∈ threads)
    (queued : t ∈ s.threadReadyList) (ran : step s a = .ok s')
    (waits : s'.runningThread ≠ t) :
    waitingTicks threads s' t + (if a = .timerTick then 1 else 0) ≤
      waitingTicks threads s t := by
  obtain ⟨nears, paying⟩ := step_nears steady queued ran waits
  have fewer : threads.filter (Ahead s' t) ⊆ threads.filter (Ahead s t) := by
    intro u member
    obtain ⟨isKnown, ahead⟩ := Finset.mem_filter.mp member
    exact Finset.mem_filter.mpr ⟨isKnown, (nears.ahead u ahead).1⟩
  have slices : ∀ u ∈ threads.filter (Ahead s' t), s'.ticksOf u + 1 ≤ s.ticksOf u + 1 :=
    fun u member => Nat.succ_le_succ (nears.ahead u (Finset.mem_filter.mp member).2).2
  have shrinks : waitingTicks threads s' t ≤
      ∑ u ∈ threads.filter (Ahead s' t), (s.ticksOf u + 1) := Finset.sum_le_sum slices
  split
  next ticks =>
    obtain ⟨before, after⟩ := paying ticks
    have inside : s.runningThread ∈ threads.filter (Ahead s t) :=
      Finset.mem_filter.mpr ⟨known _ before, before⟩
    by_cases still : Ahead s' t s.runningThread
    · have stays : s.runningThread ∈ threads.filter (Ahead s' t) :=
        Finset.mem_filter.mpr ⟨known _ before, still⟩
      have less : waitingTicks threads s' t <
          ∑ u ∈ threads.filter (Ahead s' t), (s.ticksOf u + 1) :=
        Finset.sum_lt_sum slices ⟨_, stays, Nat.succ_lt_succ (after still)⟩
      exact less.trans_le (Finset.sum_le_sum_of_subset fewer)
    · have leaves : s.runningThread ∉ threads.filter (Ahead s' t) :=
        fun member => still (Finset.mem_filter.mp member).2
      have less : ∑ u ∈ threads.filter (Ahead s' t), (s.ticksOf u + 1) <
          waitingTicks threads s t :=
        Finset.sum_lt_sum_of_subset fewer inside leaves (Nat.succ_pos _)
          fun _ _ _ => Nat.zero_le _
      exact shrinks.trans_lt less
  next others => exact shrinks.trans (Finset.sum_le_sum_of_subset fewer)

/-- The states in which `t` still waits. -/
structure Waits (threads : Finset Tid) (t : Tid) (s : Sched) : Prop where
  steady : Steady s
  queued : t ∈ s.threadReadyList
  known : ∀ u, Ahead s t u → u ∈ threads

theorem Waits.waitingTicks_pos {threads : Finset Tid} {t : Tid} {s : Sched}
    (waits : Waits threads t s) : 0 < waitingTicks threads s t := by
  have ahead := waits.steady.running_ahead waits.queued
  exact Finset.sum_pos (fun _ _ => Nat.succ_pos _)
    ⟨_, Finset.mem_filter.mpr ⟨waits.known _ ahead, ahead⟩⟩

theorem Waits.count_lt {threads : Finset Tid} {t : Tid} {s : Sched} {actions : List Action}
    {states : List Sched} (waits : Waits threads t s)
    (ran : trace step s actions = .ok states) (never : ∀ s' ∈ states, s'.runningThread ≠ t) :
    actions.count .timerTick < waitingTicks threads s t := by
  have pays : ∀ (s : Sched) (a : Action) (s' : Sched), Waits threads t s →
      step s a = .ok s' → s'.runningThread ≠ t → Waits threads t s' ∧
        waitingTicks threads s' t + (if a == .timerTick then 1 else 0) ≤
          waitingTicks threads s t := ?_
  · obtain ⟨last, paid⟩ := countP_add_potential_le pays waits ran never
    have positive := last.waitingTicks_pos
    rw [List.count]
    omega
  intro s a s' here stepped other
  have nears := (step_nears here.steady here.queued stepped other).1
  have paid := waitingTicks_step here.steady here.known here.queued stepped other
  refine ⟨⟨here.steady.step stepped, nears.queued, fun u ahead => ?_⟩, by simpa using paid⟩
  exact here.known u (nears.ahead u ahead).1

theorem Sliced.waitingTicks_le {threads : Finset Tid} {t : Tid} {s : Sched}
    (sliced : Sliced threads s) (member : t ∈ threads) :
    waitingTicks threads s t ≤ 256 * (threads.card - 1) := by
  have others : threads.filter (Ahead s t) ⊆ threads.erase t := by
    intro u inFilter
    obtain ⟨known, ahead⟩ := Finset.mem_filter.mp inFilter
    exact Finset.mem_erase.mpr ⟨ahead.other, known⟩
  have slice : ∀ u ∈ threads.filter (Ahead s t), s.ticksOf u + 1 ≤ 256 := by
    intro u _
    rw [Sched.ticksOf]
    cases found : s.task u with
    | none => simp
    | some p =>
        have few := (sliced u p found).2.2
        simp only [Option.map_some, Option.getD_some]
        omega
  calc waitingTicks threads s t
      ≤ (threads.filter (Ahead s t)).card * 256 := Finset.sum_le_card_nsmul _ _ _ slice
    _ ≤ (threads.erase t).card * 256 := Nat.mul_le_mul_right 256 (Finset.card_le_card others)
    _ = 256 * (threads.card - 1) := by rw [Finset.card_erase_of_mem member, Nat.mul_comm]

/-- In every run from `thread_init`, a thread in the ready list is switched to by the time
the timer has interrupted as often as the threads that can still run before it have ticks
left, once more for each of them, whatever threads are woken or made in the meantime; and
that is never more than 256 interrupts for each other thread. -/
theorem ready_thread_is_dispatched {mainThread idleThread : Tid}
    (different : mainThread ≠ idleThread) (value : SemaId → Nat) {before after : List Action}
    {states tail : List Sched} {s : Sched} {t : Tid}
    (ran : trace step (threadInit mainThread idleThread value) before = .ok states)
    (reached : states.getLastD (threadInit mainThread idleThread value) = s)
    (queued : t ∈ s.threadReadyList) (goesOn : trace step s after = .ok tail) :
    (waitingTicks (pcbs mainThread idleThread before) s t ≤ after.count .timerTick →
      ∃ s' ∈ tail, s'.runningThread = t) ∧
    waitingTicks (pcbs mainThread idleThread before) s t ≤
      256 * ((pcbs mainThread idleThread before).card - 1) := by
  have start : Steady (threadInit mainThread idleThread value) ∧
      Sliced (pcbs mainThread idleThread before) (threadInit mainThread idleThread value) :=
    ⟨threadInit_steady different value, threadInit_sliced (by simp [pcbs]) (by simp [pcbs]) value⟩
  have known : ∀ a ∈ before, ∀ u, a.makes = some u → u ∈ pcbs mainThread idleThread before := by
    intro a inRun u makes
    have made : u ∈ before.filterMap Action.makes := List.mem_filterMap.mpr ⟨a, inRun, makes⟩
    simp [pcbs, List.mem_filterMap.mp made]
  have preserved : ∀ (s : Sched) (a : Action) (s' : Sched),
      (Steady s ∧ Sliced (pcbs mainThread idleThread before) s) →
      (∀ u, a.makes = some u → u ∈ pcbs mainThread idleThread before) → step s a = .ok s' →
      Steady s' ∧ Sliced (pcbs mainThread idleThread before) s' :=
    fun s a s' holds makes stepped => ⟨holds.1.step stepped, holds.2.step makes stepped⟩
  have all := invariant_of_trace preserved start known ran
  obtain ⟨steady, sliced⟩ : Steady s ∧ Sliced (pcbs mainThread idleThread before) s := by
    rcases List.eq_nil_or_concat states with rfl | ⟨front, last, rfl⟩
    · rw [← reached]
      exact start
    · refine all s ?_
      simp [← reached]
  have exists_iff : ∀ u, s.task u ≠ none → u ∈ pcbs mainThread idleThread before := by
    intro u made
    obtain ⟨p, found⟩ := Option.ne_none_iff_exists'.mp made
    exact (sliced u p found).1
  obtain ⟨p, found, -⟩ := Option.map_eq_some_iff.mp (steady.linked.readyStatus t queued)
  have waits : Waits (pcbs mainThread idleThread before) t s :=
    ⟨steady, queued, fun u ahead => exists_iff u ahead.isThread.1⟩
  refine ⟨fun enough => ?_, sliced.waitingTicks_le (exists_iff t (by simp [found]))⟩
  by_contra never
  push Not at never
  exact absurd (waits.count_lt goesOn never) (by omega)

/-- The idle thread waits behind the main thread of priority 31 and is switched to by the
32nd timer interrupt. -/
theorem ready_thread_is_dispatched_boot :
    ∃ tail, trace step (threadInit 0xc009e000 0xc0100000 fun _ => 1)
        (.intrSetStatus true :: List.replicate 32 .timerTick) = .ok tail ∧
      ∃ s' ∈ tail, s'.runningThread = 0xc0100000 := by
  have runs : (trace step (threadInit 0xc009e000 0xc0100000 fun _ => 1)
      (.intrSetStatus true :: List.replicate 32 .timerTick)).isOk = true := by decide +kernel
  obtain ⟨tail, ran⟩ := exists_of_isOk runs
  refine ⟨tail, ran, ?_⟩
  have start : trace step (threadInit 0xc009e000 0xc0100000 fun _ => 1) [] = .ok [] := rfl
  exact (ready_thread_is_dispatched (by decide) (fun _ => 1) start rfl (by decide) ran).1
    (by decide)

end HongbaiOS.Thread
