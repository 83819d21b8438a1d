import HongbaiOS.Thread.Mutual

/-!
# Whole calls of the lock functions

`lock_acquire` and `lock_release` of `Lock.lean` are one step, those of `Mutual.lean` are
statements.  A call that gets the lock does the same in both, whether it gets it at once or has
slept for it, and so does a call that gives the lock back.
-/

namespace HongbaiOS.Thread.LockUse

open HongbaiOS.Library HongbaiOS.Kernel

/-- The running thread executes its next statements, and nothing comes in between. -/
def Executes (s s' : LockUse) : Prop :=
  ∃ n states, trace LockUse.step s (List.replicate n .statement) = .ok states ∧
    states.getLastD s = s'

variable {s s' s'' : LockUse} {cur : Tid} {plock : Lock}

/-- What a call finds that goes to sleep. -/
theorem lockAcquire_blocked (ran : lockAcquire cur plock = .error .blocked) :
    plock.holder ≠ some cur ∧ plock.semaphore.value = 0 ∧ cur ∉ plock.semaphore.waiters := by
  unfold lockAcquire at ran
  split at ran
  next own => cases ran
  next other =>
    refine ⟨other, ?_⟩
    by_cases zero : plock.semaphore.value = 0
    · refine ⟨zero, fun waiting => ?_⟩
      simp [Semaphore.down, zero, waiting] at ran
    · by_cases one : plock.semaphore.value - 1 = 0
      · by_cases unused : plock.holderRepeatNr = 0
        · simp [Semaphore.down, zero, one, unused] at ran
        · simp [Semaphore.down, zero, one, unused] at ran
      · simp [Semaphore.down, zero, one] at ran

theorem semaUp_fst {cpu cpu' : Cpu} {psema psema' : Semaphore} (zero : psema.value = 0)
    (ran : cpu.semaUp psema = .ok (psema', cpu')) : psema' = ⟨1, psema.waiters.tail⟩ := by
  obtain ⟨_, -, ran⟩ := except_bind_eq_ok.mp ran
  cases list : psema.waiters with
  | nil =>
      rw [list, zero] at ran
      exact (Prod.mk.inj (Except.ok.inj ran)).1.symm
  | cons first rest =>
      rw [list, zero] at ran
      obtain ⟨_, -, ran⟩ := except_bind_eq_ok.mp ran
      obtain ⟨_, -, ran⟩ := except_bind_eq_ok.mp ran
      exact (Prod.mk.inj (Except.ok.inj ran)).1.symm

theorem Executes.head (runs : s.cpu.runningThread = some cur)
    (first : s.statement cur = .ok s') (rest : s'.Executes s'') : s.Executes s'' := by
  obtain ⟨n, states, ran, rfl⟩ := rest
  have moved : s.step .statement = .ok s' := by
    simp only [LockUse.step, runs]
    exact first
  refine ⟨n + 1, s' :: states, ?_, List.getLastD_cons⟩
  simp only [List.replicate_succ, trace, moved, ran]

theorem executes_down (runs : s.cpu.runningThread = some cur)
    (here : s.point cur = .acquireDown ∨ s.point cur = .acquireRetest)
    (one : s.plock.semaphore.value = 1) (unused : s.plock.holderRepeatNr = 0) :
    s.Executes ({ s with
      plock := ⟨{ s.plock.semaphore with value := 0 }, some cur, 1⟩ }.leave cur
        (s.depth cur + 1)) := by
  have down : s.cpu.semaDown cur s.plock.semaphore =
      .ok (true, { s.plock.semaphore with value := 0 }, s.cpu) := Cpu.semaDown_one one
  refine ⟨4, ?_⟩
  rcases here with here | here
  · simp [trace, List.replicate, LockUse.step, runs, LockUse.statement, here, down, goto, setLock,
      leave, unused]
  · simp [trace, List.replicate, LockUse.step, runs, LockUse.statement, here, down, goto, setLock,
      leave, unused]

/-- A call that returns without having slept. -/
theorem executes_lockAcquire (runs : s.cpu.runningThread = some cur)
    (here : s.point cur = .acquireTest) (ran : lockAcquire cur s.plock = .ok plock) :
    s.Executes ({ s with plock }.leave cur (s.depth cur + 1)) := by
  rcases lockAcquire_cases ran with ⟨own, rfl⟩ | ⟨other, one, unused, rfl⟩
  · refine ⟨2, ?_⟩
    simp [trace, List.replicate, LockUse.step, runs, LockUse.statement, here, own, goto, setLock,
      leave]
  · have first : s.statement cur = .ok (s.goto cur .acquireDown) := by
      simp [LockUse.statement, here, other]
    have rest := executes_down (s := s.goto cur .acquireDown) runs
      (Or.inl (Function.update_self _ _ _)) one unused
    refine .head runs first ?_
    simpa [goto, leave] using rest

/-- A call that has slept and finds the lock free: it goes on as if it were called now. -/
theorem executes_lockAcquire_woken (runs : s.cpu.runningThread = some cur)
    (here : s.point cur = .acquireRetest) (woke : s.plock.holder ≠ some cur)
    (ran : lockAcquire cur s.plock = .ok plock) :
    s.Executes ({ s with plock }.leave cur (s.depth cur + 1)) := by
  rcases lockAcquire_cases ran with ⟨own, -⟩ | ⟨-, one, unused, rfl⟩
  · exact absurd own woke
  · exact executes_down runs (Or.inr here) one unused

/-- A call that does not return: the thread sleeps among the waiters, and the lock is as it
was. -/
theorem executes_lockAcquire_blocked (runs : s.cpu.runningThread = some cur)
    (here : s.point cur = .acquireTest) (ran : lockAcquire cur s.plock = .error .blocked) :
    s.Executes ({ s with
      cpu := s.cpu.sleep cur
      plock := { s.plock with semaphore :=
        { s.plock.semaphore with waiters := s.plock.semaphore.waiters ++ [cur] } } }.goto cur
          .acquireRetest) := by
  obtain ⟨other, zero, absent⟩ := lockAcquire_blocked ran
  have down := Cpu.semaDown_zero runs zero absent
  refine ⟨2, ?_⟩
  simp [trace, List.replicate, LockUse.step, runs, LockUse.statement, here, other, down, goto]

/-- While the others run, a thread stays where it is. -/
theorem getLastD_point {actions : List LockAction} {states : List LockUse}
    (ran : trace LockUse.step s actions = .ok states)
    (away : ∀ s' ∈ (s :: states).dropLast, s'.cpu.runningThread ≠ some cur) :
    (states.getLastD s).point cur = s.point cur ∧
      (states.getLastD s).depth cur = s.depth cur := by
  induction actions generalizing s states with
  | nil =>
      simp only [trace_nil, Except.ok.injEq] at ran
      subst ran
      exact ⟨rfl, rfl⟩
  | cons a rest inductionHypothesis =>
      obtain ⟨s', tail, stepped, restRan, rfl⟩ := trace_cons_eq_ok.mp ran
      rw [List.dropLast_cons_cons] at away
      obtain ⟨first, later⟩ := List.forall_mem_cons.mp away
      obtain ⟨samePoint, sameDepth⟩ := (step_moves stepped cur).2 first
      obtain ⟨point, depth⟩ := inductionHypothesis restRan later
      rw [List.getLastD_cons]
      exact ⟨point.trans samePoint, depth.trans sameDepth⟩

/-- A call that has to wait: whatever the other threads do until it is switched to and finds the
lock free, it goes on as a call made in that state. -/
theorem executes_lockAcquire_waited (runs : s.cpu.runningThread = some cur)
    (here : s.point cur = .acquireTest) (asleep : lockAcquire cur s.plock = .error .blocked) :
    ∃ slept, s.Executes slept ∧ ∀ actions states,
      trace LockUse.step slept actions = .ok states →
      (∀ s' ∈ (slept :: states).dropLast, s'.cpu.runningThread ≠ some cur) →
      ∀ woken, states.getLastD slept = woken → woken.cpu.runningThread = some cur →
        woken.plock.holder ≠ some cur → ∀ plock, lockAcquire cur woken.plock = .ok plock →
        woken.Executes ({ woken with plock }.leave cur (s.depth cur + 1)) := by
  refine ⟨_, executes_lockAcquire_blocked runs here asleep, ?_⟩
  rintro actions states ran away woken rfl running woke plock acquired
  obtain ⟨point, depth⟩ := getLastD_point ran away
  have goesOn := executes_lockAcquire_woken running (point.trans (Function.update_self _ _ _))
    woke acquired
  rw [depth] at goesOn
  exact goesOn

theorem executes_lockRelease (ordered : s.Ordered) (runs : s.cpu.runningThread = some cur)
    (here : s.point cur = .releaseAssert) (ran : lockRelease cur s.plock = .ok plock) :
    ∃ cpu, s.Executes ({ s with cpu, plock }.leave cur (s.depth cur - 1)) := by
  obtain ⟨own, ⟨nested, rfl⟩ | ⟨one, zero, rfl⟩⟩ := lockRelease_cases ran
  · refine ⟨s.cpu, 3, ?_⟩
    simp [trace, List.replicate, LockUse.step, runs, LockUse.statement, here, own, nested, goto,
      setLock, leave]
  · obtain ⟨psema, cpu, up, -⟩ := ordered.waits.semaUp ordered.cpu zero
    obtain rfl := semaUp_fst zero up
    refine ⟨cpu, 6, ?_⟩
    simp [trace, List.replicate, LockUse.step, runs, LockUse.statement, here, own, one, up, goto,
      setLock, leave]

end HongbaiOS.Thread.LockUse
