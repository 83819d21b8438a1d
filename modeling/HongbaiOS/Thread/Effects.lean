import HongbaiOS.Thread.Readiness

/-!
# Semaphores and frames under the scheduler

What an operation of the thread system does to the value of a semaphore and to the frames
of the threads inside `sema_down`.  Code that uses a semaphore of its own needs no more of
the scheduler than this.
-/

namespace HongbaiOS.Thread

open HongbaiOS.Kernel

/-- Semaphore `k` has the same value, and no thread has gone to sleep on it. -/
structure Untouched (k : SemaId) (s s' : Sched) : Prop where
  value : (s'.sema k).value = (s.sema k).value
  frames : ∀ t oldStatus, s'.suspended t = some (.inDown k oldStatus) →
    s.suspended t = some (.inDown k oldStatus)

namespace Untouched

variable {k : SemaId} {s s' s'' : Sched}

theorem of_same (sema : s'.sema k = s.sema k) (suspended : s'.suspended = s.suspended) :
    Untouched k s s' :=
  ⟨by rw [sema], fun t oldStatus frame => by rwa [suspended] at frame⟩

theorem trans (first : Untouched k s s') (second : Untouched k s' s'') : Untouched k s s'' :=
  ⟨second.value.trans first.value,
    fun t oldStatus frame => first.frames t oldStatus (second.frames t oldStatus frame)⟩

/-- A thread gets another frame, or none. -/
theorem of_suspend {t : Tid} {frame : Option Suspended}
    (value : (s'.sema k).value = (s.sema k).value)
    (other : ∀ oldStatus, frame ≠ some (.inDown k oldStatus))
    (suspended : s'.suspended = Function.update s.suspended t frame) : Untouched k s s' := by
  refine ⟨value, fun u oldStatus inDown => ?_⟩
  rw [suspended] at inDown
  by_cases same : u = t
  · subst same
    rw [Function.update_self] at inDown
    exact absurd inDown (other oldStatus)
  · rwa [Function.update_of_ne same] at inDown

end Untouched

theorem threadUnblock_keeps {t : Tid} {s s' : Sched} (ran : threadUnblock t s = .ok s') :
    s'.sema = s.sema ∧ s'.suspended = s.suspended ∧ s'.runningThread = s.runningThread := by
  obtain ⟨p, -, -, -, rfl⟩ := threadUnblock_cases ran
  exact ⟨rfl, rfl, rfl⟩

/-- The semaphores are not changed by a switch; the thread that gives the CPU away gets its
frame. -/
theorem schedule_keeps {frame : Suspended} {s s' : Sched} (ran : schedule frame s = .ok s') :
    s'.sema = s.sema ∧
      s'.suspended = Function.update s.suspended s.runningThread (some frame) := by
  obtain ⟨s₁, s₂, requeued, woken, dispatched⟩ := schedule_cases ran
  have first : s₁.sema = s.sema ∧
      s₁.suspended = Function.update s.suspended s.runningThread (some frame) := by
    obtain ⟨-, -, rfl⟩ | ⟨-, rfl⟩ := requeue_cases requeued
    · exact ⟨rfl, rfl⟩
    · exact ⟨rfl, rfl⟩
  have second : s₂.sema = s₁.sema ∧ s₂.suspended = s₁.suspended := by
    obtain ⟨-, idle⟩ | ⟨-, rfl⟩ := wakeIdle_cases woken
    · exact ⟨(threadUnblock_keeps idle).1, (threadUnblock_keeps idle).2.1⟩
    · exact ⟨rfl, rfl⟩
  obtain ⟨next, rest, -, rfl⟩ := dispatch_cases dispatched
  exact ⟨second.1.trans first.1, second.2.trans first.2⟩

theorem schedule_untouched {k : SemaId} {frame : Suspended} {s sc s' : Sched}
    (ran : schedule frame sc = .ok s') (sema : sc.sema k = s.sema k)
    (suspended : sc.suspended = s.suspended)
    (other : ∀ oldStatus, frame ≠ .inDown k oldStatus) : Untouched k s s' := by
  obtain ⟨sameSema, frames⟩ := schedule_keeps ran
  rw [suspended] at frames
  exact .of_suspend (by rw [sameSema, sema]) (fun oldStatus => by simp [other oldStatus]) frames

/-- A round of `sema_down` sleeps at 0 and takes the value at 1. -/
inductive DownRound (k : SemaId) (oldStatus : Bool) (s s' : Sched) : Prop where
  | sleeps (zero : (s.sema k).value = 0) (values : ∀ j, (s'.sema j).value = (s.sema j).value)
      (frames : s'.suspended =
        Function.update s.suspended s.runningThread (some (.inDown k oldStatus)))
  | passes (one : (s.sema k).value = 1) (taken : (s'.sema k).value = 0)
      (others : ∀ j, j ≠ k → (s'.sema j).value = (s.sema j).value)
      (frames : s'.suspended = Function.update s.suspended s.runningThread none)

theorem semaDownLoop_round {k : SemaId} {oldStatus : Bool} {s s' : Sched}
    (own : s.suspended s.runningThread = none) (ran : semaDownLoop k oldStatus s = .ok s') :
    DownRound k oldStatus s s' := by
  unfold semaDownLoop at ran
  dsimp only at ran
  split at ran
  next zero =>
    split at ran
    next => cases ran
    next free =>
      obtain ⟨-, scheduled⟩ := threadBlock_cases ran
      obtain ⟨sema, frames⟩ := schedule_keeps scheduled
      refine .sleeps zero (fun j => ?_) frames
      rw [sema]
      by_cases same : j = k
      · subst same
        simp
      · simp [same]
  next positive =>
    split at ran
    next one =>
      cases ran
      refine .passes (by omega) (by simp [one]) (fun j other => by simp [other]) ?_
      change s.suspended = _
      rw [← own, Function.update_eq_self]
    next => cases ran

theorem semaUp_raises {k : SemaId} {s s' : Sched} (ran : semaUp k s = .ok s') :
    (s'.sema k).value = (s.sema k).value + 1 ∧
      (∀ j, j ≠ k → (s'.sema j).value = (s.sema j).value) ∧
      s'.suspended = s.suspended ∧ s'.runningThread = s.runningThread := by
  obtain ⟨-, rfl⟩ | ⟨t, rest, s₁, waits, woken, rfl⟩ := semaUp_cases ran
  · exact ⟨by simp, fun j other => by simp [other], rfl, rfl⟩
  · obtain ⟨sema, suspended, running⟩ := threadUnblock_keeps woken
    refine ⟨by simp, fun j other => ?_, suspended, running⟩
    simp [sema, other]

/-- The functions whose assertions a switch can end in. -/
theorem schedule_panics {frame : Suspended} {s : Sched} {fn : Fn}
    (ran : schedule frame s = .error (.panic fn)) :
    fn = .schedule ∨ fn = .threadUnblock ∨ fn = .listPop := by
  have unblock : ∀ {t : Tid} {s : Sched}, threadUnblock t s = .error (.panic fn) →
      fn = .threadUnblock := by
    intro t s ran
    unfold threadUnblock at ran
    split at ran
    next => cases ran
    next p found =>
      split at ran
      next =>
        split at ran
        next =>
          cases ran
          rfl
        next => cases ran
      next =>
        cases ran
        rfl
  unfold schedule at ran
  split at ran
  next =>
    cases ran
    exact .inl rfl
  next =>
    cases requeued : requeue (s.suspend s.runningThread (some frame)) with
    | error reason =>
      rw [requeued] at ran
      unfold requeue at requeued
      split at requeued
      next =>
        split at requeued
        next =>
          cases requeued
          cases ran
          exact .inl rfl
        next => cases requeued
      next => cases requeued
    | ok s₁ =>
      simp only [requeued] at ran
      cases woken : wakeIdle s₁ with
      | error reason =>
        rw [woken] at ran
        cases ran
        unfold wakeIdle at woken
        split at woken
        next => exact .inr (.inl (unblock woken))
        next => cases woken
      | ok s₂ =>
        simp only [woken] at ran
        unfold dispatch at ran
        split at ran
        next =>
          cases ran
          exact .inr (.inr rfl)
        next => cases ran

namespace Steady

variable {k : SemaId} {oldStatus : Bool} {s : Sched}

theorem semaUp_ok (steady : Steady s) (zero : (s.sema k).value = 0) :
    ∃ s', Thread.semaUp k s = .ok s' := by
  unfold Thread.semaUp
  dsimp only
  rw [if_pos zero]
  cases waits : (s.sema k).waiters with
  | nil => exact ⟨_, rfl⟩
  | cons t rest =>
    have blocked := (steady.linked.waiting k t (by simp [waits])).1
    have free : t ∉ s.threadReadyList := by
      intro queued
      have ready := steady.linked.readyStatus t queued
      rw [blocked] at ready
      cases ready
    obtain ⟨p, found, isBlocked⟩ := Option.map_eq_some_iff.mp blocked
    simp [Thread.threadUnblock, found, isBlocked, ThreadStatus.isBlocked, free]

theorem semaDownLoop_safe (steady : Steady s) (binary : (s.sema k).value ≤ 1) :
    Thread.semaDownLoop k oldStatus s ≠ .error (.panic .semaDown) := by
  intro panics
  unfold Thread.semaDownLoop at panics
  dsimp only at panics
  split at panics
  next zero =>
    rw [if_neg (steady.not_waiting k)] at panics
    rcases schedule_panics (by simpa [threadBlock, ThreadStatus.isBlocked] using panics) with
      impossible | impossible | impossible <;> cases impossible
  next positive =>
    rw [if_pos (by omega)] at panics
    cases panics

end Steady

theorem DownRound.untouched {j k : SemaId} {oldStatus : Bool} {s s' : Sched}
    (round : DownRound j oldStatus s s') (different : k ≠ j) : Untouched k s s' := by
  cases round with
  | sleeps zero values frames =>
    refine .of_suspend (values k) (fun oldStatus' same => ?_) frames
    simp only [Option.some.injEq, Suspended.inDown.injEq] at same
    exact different same.1.symm
  | passes one taken others frames => exact .of_suspend (others k different) (by simp) frames

theorem resume_untouched {k : SemaId} {s s' : Sched}
    (other : ∀ oldStatus, s.suspended s.runningThread ≠ some (.inDown k oldStatus))
    (ran : resume s = .ok s') : Untouched k s s' := by
  have unsuspended : Untouched k s (s.suspend s.runningThread none) :=
    .of_suspend rfl (by simp) rfl
  unfold resume at ran
  cases frame : s.suspended s.runningThread with
  | none => simp [frame] at ran
  | some frame' =>
    simp only [frame] at ran
    cases frame' with
    | inDown j oldStatus =>
      have different : k ≠ j := by
        rintro rfl
        exact other oldStatus frame
      have round := semaDownLoop_round (by simp) ran
      exact unsuspended.trans (round.untouched different)
    | fresh | inTimer | inBlock oldStatus | inYield oldStatus =>
      cases ran
      exact unsuspended.trans (.of_same rfl rfl)

theorem intrTimerHandler_untouched {k : SemaId} {s s' : Sched}
    (ran : intrTimerHandler s = .ok s') : Untouched k s s' := by
  obtain ⟨p, s₁, -, rfl, scheduled | rfl⟩ := intrTimerHandler_cases ran
  · exact schedule_untouched scheduled rfl rfl (by simp)
  · exact .of_same rfl rfl

theorem step_untouched {k : SemaId} {s s' : Sched} {a : Action}
    (notUp : a ≠ .semaUp k) (notDown : a ≠ .semaDown k)
    (other : ∀ oldStatus, s.suspended s.runningThread ≠ some (.inDown k oldStatus))
    (ran : step s a = .ok s') : Untouched k s s' := by
  obtain ⟨own, code⟩ | ⟨-, resumed⟩ := step_cases ran
  · cases a with
    | initThread t prio =>
      simp only [ownCode] at code
      split at code
      next missing =>
        cases code
        exact .of_suspend rfl (by simp) rfl
      next => cases code
    | readyAppend t =>
      simp only [ownCode] at code
      split at code
      next =>
        split at code
        next => cases code
        next =>
          cases code
          exact .of_same rfl rfl
      next => cases code
    | allAppend t =>
      simp only [ownCode] at code
      split at code
      next => cases code
      next =>
        split at code
        next => cases code
        next =>
          cases code
          exact .of_same rfl rfl
    | timerTick =>
      simp only [ownCode] at code
      split at code
      next => exact intrTimerHandler_untouched code
      next => cases code
    | threadBlock stat =>
      obtain ⟨-, scheduled⟩ := threadBlock_cases code
      exact schedule_untouched scheduled rfl rfl (by simp)
    | threadUnblock t =>
      simp only [ownCode] at code
      split at code
      next => cases code
      next =>
        obtain ⟨sema, suspended, -⟩ := threadUnblock_keeps code
        exact .of_same (by rw [sema]) suspended
    | threadYield =>
      simp only [ownCode] at code
      split at code
      next => cases code
      next => exact schedule_untouched (threadYield_cases code).2 rfl rfl (by simp)
    | semaDown j =>
      simp only [ownCode] at code
      split at code
      next => cases code
      next =>
        have different : k ≠ j := by
          rintro rfl
          exact notDown rfl
        have masked : Untouched k s (s.setIntr false) := .of_same rfl rfl
        have round := semaDownLoop_round (s := s.setIntr false) own code
        exact masked.trans (round.untouched different)
    | semaUp j =>
      have different : k ≠ j := by
        rintro rfl
        exact notUp rfl
      obtain ⟨-, others, suspended, -⟩ := semaUp_raises code
      exact ⟨others k different, fun t oldStatus frame => by rwa [suspended] at frame⟩
    | intrSetStatus on =>
      cases code
      exact .of_same rfl rfl
    | resume => cases code
  · exact resume_untouched other resumed

theorem step_semaDown_round {k : SemaId} {s s' : Sched}
    (own : s.suspended s.runningThread = none) (ran : step s (.semaDown k) = .ok s') :
    DownRound k s.intrOn s s' := by
  simp only [step, own, ownCode] at ran
  split at ran
  next => cases ran
  next =>
    cases semaDownLoop_round (s := s.setIntr false) own ran with
    | sleeps zero values frames => exact .sleeps zero values frames
    | passes one taken others frames => exact .passes one taken others frames

theorem step_resume_round {k : SemaId} {oldStatus : Bool} {s s' : Sched}
    (frame : s.suspended s.runningThread = some (.inDown k oldStatus))
    (ran : step s .resume = .ok s') : DownRound k oldStatus s s' := by
  simp only [step, frame, resume, if_true] at ran
  cases semaDownLoop_round (s := s.suspend s.runningThread none) (by simp) ran with
  | sleeps zero values frames => exact .sleeps zero values (frames.trans (Function.update_idem ..))
  | passes one taken others frames =>
    exact .passes one taken others (frames.trans (Function.update_idem ..))

theorem step_semaDown_safe {k : SemaId} {s : Sched} (steady : Steady s)
    (binary : (s.sema k).value ≤ 1) (own : s.suspended s.runningThread = none) :
    step s (.semaDown k) ≠ .error (.panic .semaDown) := by
  have off : Steady (s.setIntr false) :=
    steady.of_same (fun _ => rfl) rfl rfl (fun _ => rfl) rfl rfl rfl
  simp only [step, own, ownCode]
  split
  next => simp
  next => exact off.semaDownLoop_safe binary

theorem step_resume_safe {k : SemaId} {oldStatus : Bool} {s : Sched} (steady : Steady s)
    (binary : (s.sema k).value ≤ 1)
    (frame : s.suspended s.runningThread = some (.inDown k oldStatus)) :
    step s .resume ≠ .error (.panic .semaDown) := by
  simp only [step, frame, resume, if_true]
  exact steady.unsuspend.semaDownLoop_safe binary

end HongbaiOS.Thread
