import HongbaiOS.Thread.Idle

/-!
# Threads that the scheduler loses

What the scheduler owes to every thread whenever a switch is done.  It owes it in vain to a
thread that calls `thread_yield`, and to one that `init_thread` has made `TASK_READY` and that
`thread_start` or `process_execute` has not yet appended to the ready list.
-/

namespace HongbaiOS.Thread

open HongbaiOS.Kernel HongbaiOS.Library

/-- One thread runs, and the ready list holds exactly the ready threads, each once. -/
structure NoneLost (s : Sched) : Prop where
  oneRunning : ∃! t, s.status t = some .running
  queued : ∀ t, t ∈ s.threadReadyList ↔ s.status t = some .ready
  once : ∀ t ∈ s.threadReadyList, s.threadReadyList.count t = 1

/-- The states of a run that a switch leads to. -/
def afterSwitches : Sched → List Action → List Sched → List Sched
  | s, a :: actions, s' :: states =>
      if (scheduleCall s a).isSome then s' :: afterSwitches s' actions states
      else afterSwitches s' actions states
  | _, _, _ => []

/-- A call of `thread_yield`, or a switch while a PCB that is `TASK_READY` has yet to be
appended to the ready list. -/
def LosesThread (s : Sched) (a : Action) : Prop :=
  a = .threadYield ∨ (scheduleCall s a).isSome ∧ s.building ≠ []

instance (s : Sched) (a : Action) : Decidable (LosesThread s a) :=
  inferInstanceAs (Decidable (_ ∨ _))

/-- Where no PCB is being made, what is ready is queued. -/
theorem NoneLost.of_balanced {s : Sched} (steady : Steady s)
    (balanced : Balanced s (some s.runningThread)) (noneBuilding : s.building = []) :
    NoneLost s := by
  obtain ⟨linked, marked⟩ := steady
  refine ⟨⟨s.runningThread, marked.1, fun t running => ?_⟩, fun t => ?_, fun t queued => ?_⟩
  · exact (Option.some.inj (balanced.running t running)).symm
  · refine ⟨linked.readyStatus t, balanced.queued t ?_⟩
    rw [noneBuilding]
    exact List.not_mem_nil
  · exact List.count_eq_one_of_mem linked.readyNodup queued

structure Lost (s : Sched) (t : Tid) : Prop where
  ready : s.status t = some .ready
  unqueued : t ∉ s.threadReadyList

theorem Lost.not_noneLost {s : Sched} {t : Tid} (lost : Lost s t) : ¬ NoneLost s :=
  fun noneLost => lost.unqueued ((noneLost.queued t).mpr lost.ready)

/-- A PCB that is being made is ready and not in the list. -/
theorem Steady.lost_of_building {s : Sched} (steady : Steady s) (some : s.building ≠ []) :
    ∃ t, Lost s t := by
  obtain ⟨t, building⟩ := List.exists_mem_of_ne_nil _ some
  obtain ⟨unqueued, ready⟩ := steady.linked.buildingFree t building
  exact ⟨t, ready, unqueued⟩

theorem Lost.requeue {s s' : Sched} (lost : Lost s s.runningThread)
    (ran : requeue s = .ok s') : Lost s' s.runningThread := by
  obtain ⟨running, -, -⟩ | ⟨-, rfl⟩ := requeue_cases ran
  · rw [lost.ready] at running
    cases running
  · exact lost

theorem Lost.wakeIdle {s s' : Sched} {t : Tid} (lost : Lost s t)
    (ran : wakeIdle s = .ok s') : Lost s' t := by
  obtain ⟨-, woken⟩ | ⟨-, rfl⟩ := wakeIdle_cases ran
  · obtain ⟨p, found, blocked, -, rfl⟩ := threadUnblock_cases woken
    have different : t ≠ s.idleThread := by
      rintro rfl
      have ready := lost.ready
      simp only [Sched.status, found, Option.map_some, Option.some.injEq] at ready
      simp [ready, ThreadStatus.isBlocked] at blocked
    exact ⟨by simpa [different] using lost.ready, by simp [different, lost.unqueued]⟩
  · exact lost

theorem Lost.dispatch {s s' : Sched} {t : Tid} (lost : Lost s t)
    (ran : dispatch s = .ok s') : Lost s' t := by
  obtain ⟨next, rest, ready, rfl⟩ := dispatch_cases ran
  have unqueued : t ≠ next ∧ t ∉ rest := by simpa [ready] using lost.unqueued
  exact ⟨by simpa [unqueued.1] using lost.ready, unqueued.2⟩

/-- `thread_yield` loses the thread that calls it: `schedule` appends a thread to
the ready list only while it is still `TASK_RUNNING`. -/
theorem threadYield_loses {s s' : Sched} (steady : Steady s)
    (ran : threadYield s = .ok s') : Lost s' s.runningThread := by
  obtain ⟨unqueued, scheduled⟩ := threadYield_cases ran
  obtain ⟨s₁, s₂, requeued, woken, dispatched⟩ := schedule_cases scheduled
  obtain ⟨p, found, -⟩ := steady.task
  have lost : Lost (((s.setIntr false).setStatus s.runningThread .ready).suspend
      s.runningThread (some (.inYield s.intrOn))) s.runningThread := by
    refine ⟨?_, unqueued⟩
    simp [Sched.status, found, Sched.setStatus]
  exact ((Lost.requeue lost requeued).wakeIdle woken).dispatch dispatched

section Steps

variable {s s' sc : Sched} {a : Action} {frame : Suspended}

theorem downCall_building {k : SemaId} {oldStatus : Bool}
    (calls : downCall k oldStatus s = some (frame, sc)) : sc.building = s.building := by
  unfold downCall at calls
  split at calls
  next =>
    simp only [Option.some.injEq, Prod.mk.injEq] at calls
    rw [← calls.2]
    rfl
  next => cases calls

theorem scheduleCall_building (calls : scheduleCall s a = some (frame, sc)) :
    sc.building = s.building := by
  unfold scheduleCall at calls
  split at calls
  next own =>
    split at calls
    next => cases calls
    next p found =>
      split at calls
      next =>
        simp only [Option.some.injEq, Prod.mk.injEq] at calls
        rw [← calls.2]
        rfl
      next => cases calls
  next stat own =>
    split at calls
    next =>
      simp only [Option.some.injEq, Prod.mk.injEq] at calls
      rw [← calls.2]
      rfl
    next => cases calls
  next own =>
    split at calls
    next =>
      simp only [Option.some.injEq, Prod.mk.injEq] at calls
      rw [← calls.2]
      rfl
    next => cases calls
  next k own =>
    split at calls
    next => exact downCall_building calls
    next => cases calls
  next k oldStatus own =>
    exact downCall_building (s := s.suspend s.runningThread none) calls
  next => cases calls

theorem schedule_building (ran : schedule frame s = .ok s') : s'.building = s.building := by
  obtain ⟨s₁, s₂, requeued, woken, dispatched⟩ := schedule_cases ran
  have first : s₁.building = s.building := by
    obtain ⟨-, -, rfl⟩ | ⟨-, rfl⟩ := requeue_cases requeued
    · rfl
    · rfl
  have second : s₂.building = s₁.building := by
    obtain ⟨-, idle⟩ | ⟨-, rfl⟩ := wakeIdle_cases woken
    · obtain ⟨p, -, -, -, rfl⟩ := threadUnblock_cases idle
      rfl
    · rfl
  obtain ⟨next, rest, -, rfl⟩ := dispatch_cases dispatched
  exact second.trans first

/-- A switch leaves the PCBs that are being made as they are. -/
theorem step_building (switches : (scheduleCall s a).isSome) (ran : step s a = .ok s') :
    s'.building = s.building := by
  obtain ⟨⟨frame, sc⟩, calls⟩ := Option.isSome_iff_exists.mp switches
  rw [step_of_scheduleCall calls] at ran
  exact (schedule_building ran).trans (scheduleCall_building calls)

theorem step_threadYield (steady : Steady s) (ran : step s .threadYield = .ok s') :
    (scheduleCall s .threadYield).isSome ∧ Lost s' s.runningThread := by
  obtain ⟨own, code⟩ | ⟨impossible, -⟩ := step_cases ran
  · simp only [ownCode] at code
    split at code
    next => cases code
    next notIdle =>
      refine ⟨?_, threadYield_loses steady code⟩
      simp [scheduleCall, own, notIdle, (threadYield_cases code).1]
  · cases impossible

/-- From a state in which everybody is where they should be, a switch loses a thread exactly
in the two ways. -/
theorem noneLost_step_iff (steady : Steady s) (balanced : Balanced s (some s.runningThread))
    (switches : (scheduleCall s a).isSome) (ran : step s a = .ok s') :
    NoneLost s' ↔ ¬ LosesThread s a := by
  have steady' := steady.step ran
  have building := step_building switches ran
  by_cases yields : a = .threadYield
  · subst yields
    exact iff_of_false (step_threadYield steady ran).2.not_noneLost (not_not_intro (Or.inl rfl))
  · by_cases noneBuilding : s.building = []
    · refine iff_of_true ?_ ?_
      · exact NoneLost.of_balanced steady' (balanced.step steady yields ran)
          (building.trans noneBuilding)
      · exact not_or.mpr ⟨yields, fun both => both.2 noneBuilding⟩
    · obtain ⟨t, lost⟩ := steady'.lost_of_building (by rwa [building])
      exact iff_of_false lost.not_noneLost (not_not_intro (Or.inr ⟨switches, noneBuilding⟩))

end Steps

theorem noneLost_trace_iff {s : Sched} {actions : List Action} {states : List Sched}
    (steady : Steady s) (balanced : Balanced s (some s.runningThread))
    (ran : trace step s actions = .ok states) :
    (∀ s' ∈ afterSwitches s actions states, NoneLost s') ↔
      ∀ p ∈ (s :: states).zip actions, ¬ LosesThread p.1 p.2 := by
  induction actions generalizing s states with
  | nil =>
      simp only [trace_nil, Except.ok.injEq] at ran
      subst ran
      simp [afterSwitches]
  | cons a actions inductionHypothesis =>
      obtain ⟨s', tail, stepped, restRan, rfl⟩ := trace_cons_eq_ok.mp ran
      have steady' := steady.step stepped
      rw [List.zip_cons_cons, List.forall_mem_cons]
      by_cases loses : LosesThread s a
      · -- the step is a switch, and what comes later does not matter
        have switches : (scheduleCall s a).isSome := by
          rcases loses with rfl | both
          · exact (step_threadYield steady stepped).1
          · exact both.1
        refine iff_of_false (fun all => ?_) fun none => none.1 loses
        rw [afterSwitches, if_pos switches] at all
        exact (noneLost_step_iff steady balanced switches stepped).mp
          (all s' List.mem_cons_self) loses
      · have balanced' := balanced.step steady (fun yields => loses (Or.inl yields)) stepped
        rw [and_iff_right loses, ← inductionHypothesis steady' balanced' restRan, afterSwitches]
        split
        next switches =>
          rw [List.forall_mem_cons]
          exact and_iff_right ((noneLost_step_iff steady balanced switches stepped).mpr loses)
        next => exact Iff.rfl

/-- In a run from `thread_init` every switch leaves one running thread and all ready ones in
the list, each once, if and only if nobody calls `thread_yield` and no switch comes between
`init_thread` and the `list_append` of a new thread. -/
theorem no_thread_lost_iff {mainThread idleThread : Tid} (different : mainThread ≠ idleThread)
    (value : SemaId → Nat) {actions : List Action} {states : List Sched}
    (ran : trace step (threadInit mainThread idleThread value) actions = .ok states) :
    (∀ s ∈ afterSwitches (threadInit mainThread idleThread value) actions states, NoneLost s) ↔
      ∀ p ∈ (threadInit mainThread idleThread value :: states).zip actions,
        ¬ LosesThread p.1 p.2 :=
  noneLost_trace_iff (threadInit_steady different value) (threadInit_balanced value) ran

/-- A thread is made, one waits for a semaphore and is woken, and one blocks. -/
def contended : List Action :=
  [.initThread 0xc0101000 31, .readyAppend 0xc0101000, .allAppend 0xc0101000, .semaDown 0,
    .resume, .semaUp 0, .threadBlock .blocked, .resume, .semaUp 0]

theorem no_thread_lost_contended :
    ∃ states, trace step (threadInit 0xc009e000 0xc0100000 fun _ => 0) contended = .ok states ∧
      (afterSwitches (threadInit 0xc009e000 0xc0100000 fun _ => 0) contended states).length = 2 ∧
      ∀ s ∈ afterSwitches (threadInit 0xc009e000 0xc0100000 fun _ => 0) contended states,
        NoneLost s := by
  have checked : (trace step (threadInit 0xc009e000 0xc0100000 fun _ => 0) contended).toOption.map
      (fun states => ((afterSwitches (threadInit 0xc009e000 0xc0100000 fun _ => 0) contended
        states).length, ((threadInit 0xc009e000 0xc0100000 (fun _ => 0) :: states).zip
          contended).all fun p => !decide (LosesThread p.1 p.2))) = some (2, true) := by
    decide +kernel
  cases ran : trace step (threadInit 0xc009e000 0xc0100000 fun _ => 0) contended with
  | error reason =>
      rw [ran] at checked
      cases checked
  | ok states =>
      rw [ran] at checked
      obtain ⟨switches, none⟩ := Prod.mk.inj (Option.some.inj checked)
      simp only [List.all_eq_true, Bool.not_eq_true', decide_eq_false_iff_not] at none
      exact ⟨states, rfl, switches, (no_thread_lost_iff (by decide) _ ran).mpr none⟩

/-- The main thread yields right after `thread_init` and is gone. -/
theorem thread_lost_by_yield :
    ∃ states, trace step (threadInit 0xc009e000 0xc0100000 fun _ => 1)
        [.threadYield] = .ok states ∧
      ¬ ∀ s ∈ afterSwitches (threadInit 0xc009e000 0xc0100000 fun _ => 1) [.threadYield] states,
        NoneLost s := by
  obtain ⟨states, ran⟩ : ∃ states, trace step (threadInit 0xc009e000 0xc0100000 fun _ => 1)
      [.threadYield] = .ok states := ⟨_, rfl⟩
  refine ⟨states, ran, fun all => ?_⟩
  obtain ⟨s', tail, -, -, rfl⟩ := trace_cons_eq_ok.mp ran
  have none := (noneLost_trace_iff (threadInit_steady (by decide) _) (threadInit_balanced _)
    ran).mp all
  exact none _ List.mem_cons_self (Or.inl rfl)

end HongbaiOS.Thread
