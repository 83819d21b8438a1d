import HongbaiOS.Thread.Pids

/-!
# Critical sections

Calls that do their work between `lock_acquire` and `lock_release` of one lock, a piece at a
time, with other threads coming in at every statement.  `log` and `called` are the history of
the run: the calls in the order in which they got the lock, and those of each thread in the
order in which it made them.
-/

namespace HongbaiOS.Thread

open HongbaiOS.Library HongbaiOS.Kernel

/-- Calls `κ` on what a lock guards, made of pieces `ι`. -/
structure SectionCode (σ ι κ : Type) where
  pieces : κ → List ι
  apply : σ → ι → Except Halt σ

inductive SectionPoint (ι κ : Type) where
  /-- In the thread's own code. -/
  | outside
  /-- Inside `lock_acquire`. -/
  | acquire (call : κ)
  /-- Between the two calls, with this left to do. -/
  | inside (left : List ι)
  /-- Inside `lock_release`. -/
  | release

structure SectionUse (σ ι κ : Type) where
  lock : LockUse
  /-- What the lock guards. -/
  shared : σ
  point : Tid → SectionPoint ι κ
  log : List (Tid × κ)
  called : Tid → List κ

inductive SectionAction (κ : Type) where
  /-- `schedule` switches to a ready thread. -/
  | dispatch (next : Tid)
  /-- The timer interrupt takes the CPU from the running thread. -/
  | preempt
  /-- The running thread makes a call. -/
  | call (call : κ)
  | statement
  /-- The running thread goes to sleep in its own code. -/
  | threadBlock
  /-- The running thread wakes one that sleeps in its own code. -/
  | threadUnblock (t : Tid)

section Steps

variable {σ ι κ : Type}

/-- The thread is in its own code. -/
def SectionPoint.IsOutside : SectionPoint ι κ → Prop
  | .outside => True
  | _ => False

instance (point : SectionPoint ι κ) : Decidable point.IsOutside := by
  cases point <;> unfold SectionPoint.IsOutside <;> infer_instance

namespace SectionUse

def goto (s : SectionUse σ ι κ) (t : Tid) (point : SectionPoint ι κ) : SectionUse σ ι κ :=
  { s with point := Function.update s.point t point }

/-- The running thread `cur` goes on in its call. -/
def statement (code : SectionCode σ ι κ) (s : SectionUse σ ι κ) (cur : Tid) :
    Except Halt (SectionUse σ ι κ) :=
  match s.point cur with
  | .outside => .error .disabled
  | .acquire call => do
      let lock ← s.lock.step .statement
      if lock.point cur = LockPoint.outside then
        return { s with lock, log := s.log ++ [(cur, call)] }.goto cur
          (.inside (code.pieces call))
      else return { s with lock }
  | .inside (piece :: left) => do
      let shared ← code.apply s.shared piece
      return { s with shared }.goto cur (.inside left)
  | .inside [] => do
      let lock ← s.lock.step .lockRelease
      return { s with lock }.goto cur .release
  | .release => do
      let lock ← s.lock.step .statement
      if lock.point cur = LockPoint.outside then return { s with lock }.goto cur .outside
      else return { s with lock }

def step (code : SectionCode σ ι κ) (s : SectionUse σ ι κ) (a : SectionAction κ) :
    Except Halt (SectionUse σ ι κ) :=
  match a, s.lock.cpu.runningThread with
  | .dispatch next, _ => do
      let lock ← s.lock.step (.dispatch next)
      return { s with lock }
  | .preempt, _ => do
      let lock ← s.lock.step .preempt
      return { s with lock }
  | .call call, some cur =>
      if (s.point cur).IsOutside then do
        let lock ← s.lock.step .lockAcquire
        return { s with
          lock
          called := Function.update s.called cur (s.called cur ++ [call]) }.goto cur
            (.acquire call)
      else .error .disabled
  | .statement, some cur => s.statement code cur
  | .threadBlock, some cur =>
      if (s.point cur).IsOutside then do
        let lock ← s.lock.step .threadBlock
        return { s with lock }
      else .error .disabled
  | .threadUnblock t, some cur =>
      if (s.point cur).IsOutside ∧ (s.point t).IsOutside then do
        let lock ← s.lock.step (.threadUnblock t)
        return { s with lock }
      else .error .disabled
  | _, none => .error .disabled

/-- `threads` run; no call has been made. -/
def start (threads : List Tid) (shared : σ) : SectionUse σ ι κ where
  lock := .start threads
  shared := shared
  point := fun _ => .outside
  log := []
  called := fun _ => []

end SectionUse

/-- Where a thread stands at the lock when it stands at a point of a call. -/
def SectionPoint.Fits (place : LockPoint) (depth : Nat) : SectionPoint ι κ → Prop
  | .outside => place = .outside ∧ depth = 0
  | .acquire _ => place.acquiring = true ∧ depth = 0
  | .inside _ => place = .outside ∧ depth = 1
  | .release => place.releasing = true ∧ depth = 1

def SectionPoint.waiting : SectionPoint ι κ → List κ
  | .acquire call => [call]
  | _ => []

namespace SectionUse

/-- The pieces of the calls that have got the lock, in their order. -/
def pieces (code : SectionCode σ ι κ) (s : SectionUse σ ι κ) : List ι :=
  s.log.flatMap fun entry => code.pieces entry.2

/-- The calls of a thread that have got the lock. -/
def logOf (s : SectionUse σ ι κ) (t : Tid) : List κ :=
  (s.log.filter (·.1 = t)).map Prod.snd

/-- What is guarded has seen the work of one call after the other, all of it but what the
thread inside has left to do. -/
structure Serial (code : SectionCode σ ι κ) (initial : σ) (s : SectionUse σ ι κ) : Prop where
  done : ∃ done left, s.pieces code = done ++ left ∧
    done.foldlM code.apply initial = .ok s.shared ∧
    (∀ t rest, s.point t = .inside rest → rest = left ∧
      ∃ call front, s.log.getLast? = some (t, call) ∧ code.pieces call = front ++ rest) ∧
    ((∀ t rest, s.point t ≠ .inside rest) → left = [])
  history : ∀ t, s.called t = s.logOf t ++ (s.point t).waiting

structure Sound (code : SectionCode σ ι κ) (initial : σ) (s : SectionUse σ ι κ) : Prop where
  ordered : s.lock.Ordered
  fits : ∀ t, (s.point t).Fits (s.lock.point t) (s.lock.depth t)
  serial : s.Serial code initial

variable {code : SectionCode σ ι κ} {initial : σ} {s s' : SectionUse σ ι κ} {cur : Tid}
  {lock : LockUse}

@[simp]
theorem goto_point (s : SectionUse σ ι κ) (t : Tid) (point : SectionPoint ι κ) :
    (s.goto t point).point = Function.update s.point t point := rfl

theorem isOutside_iff {point : SectionPoint ι κ} : point.IsOutside ↔ point = .outside := by
  cases point <;> simp [SectionPoint.IsOutside]

theorem step_cases {a : SectionAction κ} (ran : s.step code a = .ok s') :
    (∃ lockAction lock, s.lock.step lockAction = .ok lock ∧
      (lockAction ≠ .statement ∧ lockAction ≠ .lockAcquire ∧ lockAction ≠ .lockRelease) ∧
      s' = { s with lock }) ∨
    (∃ cur call lock, s.lock.cpu.runningThread = some cur ∧ s.point cur = .outside ∧
      s.lock.step .lockAcquire = .ok lock ∧
      s' = { s with
        lock
        called := Function.update s.called cur (s.called cur ++ [call]) }.goto cur
          (.acquire call)) ∨
    ∃ cur, s.lock.cpu.runningThread = some cur ∧ s.statement code cur = .ok s' := by
  unfold SectionUse.step at ran
  split at ran
  next =>
    obtain ⟨lock, stepped, ran⟩ := except_bind_eq_ok.mp ran
    exact .inl ⟨_, lock, stepped, by simp, (Except.ok.inj ran).symm⟩
  next =>
    obtain ⟨lock, stepped, ran⟩ := except_bind_eq_ok.mp ran
    exact .inl ⟨_, lock, stepped, by simp, (Except.ok.inj ran).symm⟩
  next call cur runs =>
    split at ran
    · next here =>
        obtain ⟨lock, stepped, ran⟩ := except_bind_eq_ok.mp ran
        exact .inr (.inl ⟨cur, call, lock, runs, isOutside_iff.mp here, stepped,
          (Except.ok.inj ran).symm⟩)
    · cases ran
  next cur runs => exact .inr (.inr ⟨cur, runs, ran⟩)
  next =>
    split at ran
    · obtain ⟨lock, stepped, ran⟩ := except_bind_eq_ok.mp ran
      exact .inl ⟨_, lock, stepped, by simp, (Except.ok.inj ran).symm⟩
    · cases ran
  next =>
    split at ran
    · obtain ⟨lock, stepped, ran⟩ := except_bind_eq_ok.mp ran
      exact .inl ⟨_, lock, stepped, by simp, (Except.ok.inj ran).symm⟩
    · cases ran
  next => cases ran

namespace Serial

/-- A thread that is not at work goes to a place where it is not at work. -/
theorem moveOn (serial : s.Serial code initial) (lock : LockUse) {point : SectionPoint ι κ}
    (before : ∀ rest, s.point cur = .inside rest → rest = [])
    (after : ∀ rest, point ≠ .inside rest)
    (waits : point.waiting = (s.point cur).waiting) :
    Serial code initial ({ s with lock }.goto cur point) := by
  obtain ⟨⟨done, left, split, shared, inside, free⟩, history⟩ := serial
  refine ⟨⟨done, left, split, shared, fun t rest here => ?_, fun none => ?_⟩, fun t => ?_⟩
  · by_cases same : t = cur
    · subst same
      rw [goto_point, Function.update_self] at here
      exact absurd here (after rest)
    · rw [goto_point, Function.update_of_ne same] at here
      exact inside t rest here
  · by_cases atWork : ∃ rest, s.point cur = .inside rest
    · obtain ⟨rest, here⟩ := atWork
      rw [← (inside cur rest here).1]
      exact before rest here
    · refine free fun t rest here => ?_
      by_cases same : t = cur
      · subst same
        exact atWork ⟨rest, here⟩
      · refine none t rest ?_
        rw [goto_point, Function.update_of_ne same]
        exact here
  · by_cases same : t = cur
    · subst same
      rw [goto_point, Function.update_self, waits]
      exact history t
    · rw [goto_point, Function.update_of_ne same]
      exact history t

theorem call (serial : s.Serial code initial) (here : s.point cur = .outside) (call : κ)
    (lock : LockUse) :
    Serial code initial ({ s with
      lock
      called := Function.update s.called cur (s.called cur ++ [call]) }.goto cur
        (.acquire call)) := by
  obtain ⟨⟨done, left, split, shared, inside, free⟩, history⟩ := serial
  refine ⟨⟨done, left, split, shared, fun t rest at' => ?_, fun none => ?_⟩, fun t => ?_⟩
  · by_cases same : t = cur
    · subst same
      simp at at'
    · rw [goto_point, Function.update_of_ne same] at at'
      exact inside t rest at'
  · refine free fun t rest at' => ?_
    have different : t ≠ cur := by
      rintro rfl
      rw [here] at at'
      cases at'
    refine none t rest ?_
    rw [goto_point, Function.update_of_ne different]
    exact at'
  · have old := history t
    by_cases same : t = cur
    · subst same
      rw [here] at old
      simp only [SectionPoint.waiting, List.append_nil] at old
      simp only [goto, Function.update_self, SectionPoint.waiting, old]
      rfl
    · simp only [goto, Function.update_of_ne same]
      exact old

theorem enter (serial : s.Serial code initial) {call : κ}
    (here : s.point cur = .acquire call) (alone : ∀ t rest, s.point t ≠ .inside rest)
    (lock : LockUse) :
    Serial code initial ({ s with lock, log := s.log ++ [(cur, call)] }.goto cur
      (.inside (code.pieces call))) := by
  obtain ⟨⟨done, left, split, shared, -, free⟩, history⟩ := serial
  obtain rfl := free alone
  refine ⟨⟨done, code.pieces call, ?_, shared, fun t rest at' => ?_, fun none => ?_⟩, fun t => ?_⟩
  · have old : s.pieces code = done := by simpa using split
    simp only [SectionUse.pieces] at old
    simp [SectionUse.pieces, goto, old]
  · by_cases same : t = cur
    · subst same
      rw [goto_point, Function.update_self, SectionPoint.inside.injEq] at at'
      subst at'
      exact ⟨rfl, call, [], by simp [goto], rfl⟩
    · rw [goto_point, Function.update_of_ne same] at at'
      exact absurd at' (alone t rest)
  · exact absurd (by simp : (Function.update s.point cur (.inside (code.pieces call))) cur = _)
      (none cur (code.pieces call))
  · have old := history t
    by_cases same : t = cur
    · subst same
      rw [here] at old
      simp only [SectionPoint.waiting] at old
      simpa [goto, logOf, SectionPoint.waiting] using old
    · have other : ¬ cur = t := fun isCur => same isCur.symm
      simpa [goto, logOf, Function.update_of_ne same, other] using old

theorem piece (serial : s.Serial code initial) {first : ι} {left : List ι} {shared : σ}
    (here : s.point cur = .inside (first :: left)) (alone : ∀ t rest, t ≠ cur →
      s.point t ≠ .inside rest) (did : code.apply s.shared first = .ok shared) :
    Serial code initial ({ s with shared }.goto cur (.inside left)) := by
  obtain ⟨⟨done, old, split, reached, inside, -⟩, history⟩ := serial
  obtain ⟨isLeft, call, front, last, whole⟩ := inside cur _ here
  subst isLeft
  refine ⟨⟨done ++ [first], left, ?_, ?_, fun t rest at' => ?_, fun none => ?_⟩, fun t => ?_⟩
  · simpa [SectionUse.pieces, goto] using split
  · rw [List.foldlM_append, reached]
    simp [goto, did]
  · by_cases same : t = cur
    · subst same
      rw [goto_point, Function.update_self, SectionPoint.inside.injEq] at at'
      subst at'
      exact ⟨rfl, call, front ++ [first], last, by simpa using whole⟩
    · rw [goto_point, Function.update_of_ne same] at at'
      exact absurd at' (alone t rest same)
  · exact absurd (by simp : (Function.update s.point cur (.inside left)) cur = _) (none cur left)
  · have old := history t
    by_cases same : t = cur
    · subst same
      rw [here] at old
      simpa [goto, logOf, SectionPoint.waiting] using old
    · simpa [goto, logOf, Function.update_of_ne same] using old

end Serial

namespace Sound

theorem depth_le (sound : s.Sound code initial) (t : Tid) : s.lock.depth t < 2 ^ 32 := by
  have fits := sound.fits t
  cases point : s.point t <;> rw [point] at fits <;> simp only [SectionPoint.Fits] at fits <;>
    omega

theorem lockStep (sound : s.Sound code initial) {a : LockAction}
    (ran : s.lock.step a = .ok lock) : lock.Ordered := by
  rcases sound.ordered.step sound.depth_le a with ⟨next, went, ordered⟩ | disabled
  · rw [went] at ran
    exact Except.ok.inj ran ▸ ordered
  · cases disabled.symm.trans ran

/-- The places fit again after one thread has moved on. -/
theorem fits_goto (sound : s.Sound code initial) (same : LockUse.SameOthers s.lock lock cur)
    {point : SectionPoint ι κ} (fits : point.Fits (lock.point cur) (lock.depth cur)) (t : Tid) :
    (Function.update s.point cur point t).Fits (lock.point t) (lock.depth t) := by
  by_cases here : t = cur
  · subst here
    rw [Function.update_self]
    exact fits
  · obtain ⟨samePoint, sameDepth⟩ := same t here
    rw [Function.update_of_ne here, samePoint, sameDepth]
    exact sound.fits t

/-- Two threads do not work at the same time, nor does one get the lock meanwhile. -/
theorem alone (sound : s.Sound code initial) (ordered : lock.Ordered)
    (same : LockUse.SameOthers s.lock lock cur) (owns : lock.Owns cur) {t : Tid} {rest : List ι}
    (other : t ≠ cur) : s.point t ≠ .inside rest := by
  intro here
  have fits := sound.fits t
  rw [here] at fits
  have owns' : lock.Owns t := by
    refine Or.inl ?_
    rw [(same t other).2, fits.2]
    exact Nat.one_pos
  exact other (ordered.exclusive t cur owns' owns)

/-- A step within the lock function that the thread is in. -/
theorem stays (sound : s.Sound code initial) (ordered : lock.Ordered)
    (same : LockUse.SameOthers s.lock lock cur)
    (fits : (s.point cur).Fits (lock.point cur) (lock.depth cur)) :
    Sound code initial { s with lock } := by
  refine ⟨ordered, fun t => ?_, ⟨sound.serial.done, sound.serial.history⟩⟩
  have places := sound.fits_goto same fits t
  rwa [Function.update_eq_self] at places

theorem statement (sound : s.Sound code initial) (runs : s.lock.cpu.runningThread = some cur)
    (ran : s.statement code cur = .ok s') : s'.Sound code initial := by
  have fits := sound.fits cur
  have isStatement : s.lock.step .statement = s.lock.statement cur := by simp [LockUse.step, runs]
  unfold SectionUse.statement at ran
  split at ran
  next => cases ran
  next call here =>
    rw [here] at fits
    obtain ⟨lock, stepped, ran⟩ := except_bind_eq_ok.mp ran
    have ordered := sound.lockStep stepped
    rw [isStatement] at stepped
    obtain ⟨same, goes⟩ := LockUse.statement_acquiring fits.1 stepped
    split at ran
    next outside =>
      rw [← Except.ok.inj ran]
      have depth : lock.depth cur = 1 := by
        rcases goes with ⟨within, -⟩ | ⟨-, depth⟩
        · rw [outside] at within
          cases within
        · rw [depth, fits.2]
      have owns : lock.Owns cur := Or.inl (by rw [depth]; exact Nat.one_pos)
      refine ⟨ordered, sound.fits_goto same ⟨outside, depth⟩,
        sound.serial.enter here (fun t rest => ?_) lock⟩
      by_cases isCur : t = cur
      · subst isCur
        rw [here]
        simp
      · exact sound.alone ordered same owns isCur
    next within =>
      rw [← Except.ok.inj ran]
      have still : (SectionPoint.acquire call : SectionPoint ι κ).Fits (lock.point cur)
          (lock.depth cur) := by
        rcases goes with ⟨acquiring, depth⟩ | ⟨outside, -⟩
        · exact ⟨acquiring, depth.trans fits.2⟩
        · exact absurd outside within
      exact sound.stays ordered same (by rw [here]; exact still)
  next first left here =>
    rw [here] at fits
    obtain ⟨shared, did, ran⟩ := except_bind_eq_ok.mp ran
    rw [← Except.ok.inj ran]
    have same : LockUse.SameOthers s.lock s.lock cur := fun _ _ => ⟨rfl, rfl⟩
    have owns : s.lock.Owns cur := Or.inl (by rw [fits.2]; exact Nat.one_pos)
    exact ⟨sound.ordered, sound.fits_goto same fits, sound.serial.piece here
      (fun t rest other => sound.alone sound.ordered same owns other) did⟩
  next here =>
    rw [here] at fits
    obtain ⟨lock, stepped, ran⟩ := except_bind_eq_ok.mp ran
    have ordered := sound.lockStep stepped
    have entered : lock = s.lock.goto cur .releaseAssert := by
      simpa [LockUse.step, runs, fits.1, fits.2, eq_comm] using stepped
    rw [← Except.ok.inj ran]
    subst entered
    refine ⟨ordered, sound.fits_goto
      (LockUse.sameOthers_goto s.lock.cpu s.lock.plock _) ⟨?_, fits.2⟩,
      sound.serial.moveOn _ (fun rest at' => ?_) (by simp) (by rw [here]; rfl)⟩
    · simp [LockUse.goto, LockPoint.releasing]
    · rw [here] at at'
      exact (SectionPoint.inside.inj at').symm
  next here =>
    rw [here] at fits
    obtain ⟨lock, stepped, ran⟩ := except_bind_eq_ok.mp ran
    have ordered := sound.lockStep stepped
    rw [isStatement] at stepped
    obtain ⟨same, goes⟩ := LockUse.statement_releasing fits.1 stepped
    split at ran
    next outside =>
      rw [← Except.ok.inj ran]
      have depth : lock.depth cur = 0 := by
        rcases goes with ⟨within, -⟩ | ⟨-, depth⟩
        · rw [outside] at within
          cases within
        · rw [depth, fits.2]
      refine ⟨ordered, sound.fits_goto same ⟨outside, depth⟩,
        sound.serial.moveOn _ (fun rest at' => ?_) (by simp) (by rw [here]; rfl)⟩
      rw [here] at at'
      cases at'
    next within =>
      rw [← Except.ok.inj ran]
      have still : (SectionPoint.release : SectionPoint ι κ).Fits (lock.point cur)
          (lock.depth cur) := by
        rcases goes with ⟨releasing, depth⟩ | ⟨outside, -⟩
        · exact ⟨releasing, depth.trans fits.2⟩
        · exact absurd outside within
      exact sound.stays ordered same (by rw [here]; exact still)

theorem step (sound : s.Sound code initial) {a : SectionAction κ}
    (ran : s.step code a = .ok s') : s'.Sound code initial := by
  rcases step_cases ran with ⟨lockAction, lock, stepped, other, rfl⟩ |
    ⟨cur, call, lock, runs, here, stepped, rfl⟩ | ⟨cur, runs, ran⟩
  · obtain ⟨samePoint, sameDepth⟩ := LockUse.step_samePlaces stepped other
    refine ⟨sound.lockStep stepped, fun t => ?_,
      ⟨sound.serial.done, sound.serial.history⟩⟩
    simp only [samePoint, sameDepth]
    exact sound.fits t
  · have ordered := sound.lockStep stepped
    have fits := sound.fits cur
    rw [here] at fits
    have entered : lock = s.lock.goto cur .acquireTest := by
      simpa [LockUse.step, runs, fits.1, eq_comm] using stepped
    subst entered
    refine ⟨ordered, sound.fits_goto
      (LockUse.sameOthers_goto s.lock.cpu s.lock.plock _) ⟨?_, fits.2⟩,
      sound.serial.call here call _⟩
    simp [LockUse.goto, LockPoint.acquiring]
  · exact sound.statement runs ran

theorem lockStep_or (sound : s.Sound code initial) (a : LockAction) :
    (∃ lock, s.lock.step a = .ok lock) ∨ s.lock.step a = .error .disabled := by
  rcases sound.ordered.step sound.depth_le a with ⟨lock, went, -⟩ | disabled
  · exact .inl ⟨lock, went⟩
  · exact .inr disabled

/-- No assertion of the lock fails: what stops a call is a piece of its own. -/
theorem statement_or (sound : s.Sound code initial) (cur : Tid) :
    (∃ s', s.statement code cur = .ok s') ∨ s.statement code cur = .error .disabled ∨
      ∃ piece left, s.point cur = .inside (piece :: left) ∧
        s.statement code cur = (code.apply s.shared piece).map fun shared =>
          { s with shared }.goto cur (.inside left) := by
  have fits := sound.fits cur
  unfold SectionUse.statement
  split
  next => exact .inr (.inl rfl)
  next call here =>
    rcases sound.lockStep_or .statement with ⟨lock, stepped⟩ | disabled
    · rw [stepped]
      by_cases outside : lock.point cur = LockPoint.outside
      · exact .inl ⟨_, if_pos outside⟩
      · exact .inl ⟨_, if_neg outside⟩
    · rw [disabled]
      exact .inr (.inl rfl)
  next piece left here =>
    refine .inr (.inr ⟨piece, left, here, ?_⟩)
    cases code.apply s.shared piece <;> rfl
  next here =>
    rcases sound.lockStep_or .lockRelease with ⟨lock, stepped⟩ | disabled
    · rw [stepped]
      exact .inl ⟨_, rfl⟩
    · rw [disabled]
      exact .inr (.inl rfl)
  next here =>
    rcases sound.lockStep_or .statement with ⟨lock, stepped⟩ | disabled
    · rw [stepped]
      by_cases outside : lock.point cur = LockPoint.outside
      · exact .inl ⟨_, if_pos outside⟩
      · exact .inl ⟨_, if_neg outside⟩
    · rw [disabled]
      exact .inr (.inl rfl)

theorem step_or (sound : s.Sound code initial) (a : SectionAction κ) :
    (∃ s', s.step code a = .ok s') ∨ s.step code a = .error .disabled ∨
      ∃ cur piece left, s.point cur = .inside (piece :: left) ∧
        s.step code a = (code.apply s.shared piece).map fun shared =>
          { s with shared }.goto cur (.inside left) := by
  have lockOnly (lockAction : LockAction) (next : LockUse → SectionUse σ ι κ) :
      (∃ s', (do let lock ← s.lock.step lockAction; return next lock) = Except.ok s') ∨
        (do let lock ← s.lock.step lockAction; return next lock) = Except.error .disabled := by
    rcases sound.lockStep_or lockAction with ⟨lock, stepped⟩ | disabled
    · rw [stepped]
      exact .inl ⟨_, rfl⟩
    · rw [disabled]
      exact .inr rfl
  unfold SectionUse.step
  split
  next => exact (lockOnly (.dispatch _) _).imp_right Or.inl
  next => exact (lockOnly .preempt _).imp_right Or.inl
  next =>
    split
    · exact (lockOnly .lockAcquire _).imp_right Or.inl
    · exact .inr (.inl rfl)
  next cur _ =>
    rcases sound.statement_or cur with went | disabled | ⟨piece, left, here, same⟩
    · exact .inl went
    · exact .inr (.inl disabled)
    · exact .inr (.inr ⟨cur, piece, left, here, same⟩)
  next =>
    split
    · exact (lockOnly .threadBlock _).imp_right Or.inl
    · exact .inr (.inl rfl)
  next =>
    split
    · exact (lockOnly (.threadUnblock _) _).imp_right Or.inl
    · exact .inr (.inl rfl)
  next => exact .inr (.inl rfl)

end Sound

theorem start_sound {threads : List Tid} (nodup : threads.Nodup) (initial : σ) :
    (start threads initial : SectionUse σ ι κ).Sound code initial where
  ordered := LockUse.start_ordered nodup
  fits _ := ⟨rfl, rfl⟩
  serial := by
    refine ⟨⟨[], [], rfl, rfl, fun t rest here => ?_, fun _ => rfl⟩, fun t => rfl⟩
    cases here

/-- Every state of a run is one with a sound lock and whole calls behind it. -/
theorem run_sound {threads : List Tid} (nodup : threads.Nodup) {initial : σ}
    {actions : List (SectionAction κ)} {states : List (SectionUse σ ι κ)}
    (ran : trace (SectionUse.step code) (start threads initial) actions = .ok states) :
    ∀ s ∈ start threads initial :: states, s.Sound code initial := by
  have first : (start threads initial : SectionUse σ ι κ).Sound code initial :=
    start_sound nodup initial
  intro s member
  rcases List.mem_cons.mp member with rfl | later
  · exact first
  · have preserved : ∀ (s : SectionUse σ ι κ) (a : SectionAction κ) (s' : SectionUse σ ι κ),
        s.Sound code initial → True → s.step code a = .ok s' → s'.Sound code initial :=
      fun _ _ _ sound _ stepped => sound.step stepped
    exact invariant_of_trace preserved first (fun _ _ => trivial) ran s later

end SectionUse

end Steps

end HongbaiOS.Thread
