import HongbaiOS.Thread.Mutual
import Mathlib.Data.List.Infix
import Mathlib.Data.List.Nodup
import Mathlib.Data.List.Perm.Subperm

/-!
# Handing out pids

`allocate_pid` counts under a lock, but reads the counter for its result after it has given
the lock back.
-/

namespace HongbaiOS.Thread

open HongbaiOS.Library HongbaiOS.Kernel

/-- Where a thread stands in `allocate_pid`. -/
inductive PidPoint where
  /-- In the thread's own code. -/
  | outside
  /-- Inside `lock_acquire(&pid_lock)`. -/
  | acquire
  /-- `next_pid++` -/
  | increment
  /-- Before the call of `lock_release(&pid_lock)`. -/
  | callRelease
  /-- Inside `lock_release(&pid_lock)`. -/
  | release
  /-- `return next_pid` -/
  | read
  deriving DecidableEq

structure PidUse where
  /-- `pid_lock`, and the threads with it. -/
  lock : LockUse
  /-- `pid_t` is `int16_t`. -/
  nextPid : Int16
  point : Tid → PidPoint
  /-- The pids returned so far. -/
  pids : List Int16

namespace PidUse

def goto (s : PidUse) (t : Tid) (point : PidPoint) : PidUse :=
  { s with point := Function.update s.point t point }

/-- The running thread `cur` executes the statement of `allocate_pid` it stands at, or one of
the lock function that it is in. -/
def statement (s : PidUse) (cur : Tid) : Except Halt PidUse :=
  match s.point cur with
  | .outside => .error .disabled
  | .acquire => do
      let lock ← s.lock.step .statement
      return { s with lock }.goto cur
        (if lock.point cur = LockPoint.outside then .increment else .acquire)
  | .increment => .ok ({ s with nextPid := s.nextPid + 1 }.goto cur .callRelease)
  | .callRelease => do
      let lock ← s.lock.step .lockRelease
      return { s with lock }.goto cur .release
  | .release => do
      let lock ← s.lock.step .statement
      return { s with lock }.goto cur
        (if lock.point cur = LockPoint.outside then .read else .release)
  | .read => .ok ({ s with pids := s.pids ++ [s.nextPid] }.goto cur .outside)

end PidUse

inductive PidAction where
  /-- `schedule` switches to a ready thread. -/
  | dispatch (next : Tid)
  /-- The timer interrupt takes the CPU from the running thread. -/
  | preempt
  /-- The running thread calls `allocate_pid`. -/
  | allocatePid
  | statement
  /-- The running thread goes to sleep in its own code. -/
  | threadBlock
  /-- The running thread wakes one that sleeps in its own code. -/
  | threadUnblock (t : Tid)
  deriving DecidableEq

namespace PidUse

/-- One step of the threads that allocate pids. -/
def step (s : PidUse) (a : PidAction) : Except Halt PidUse :=
  match a, s.lock.cpu.runningThread with
  | .dispatch next, _ => do
      let lock ← s.lock.step (.dispatch next)
      return { s with lock }
  | .preempt, _ => do
      let lock ← s.lock.step .preempt
      return { s with lock }
  | .allocatePid, some cur =>
      if s.point cur = .outside then do
        let lock ← s.lock.step .lockAcquire
        return { s with lock }.goto cur .acquire
      else .error .disabled
  | .statement, some cur => s.statement cur
  | .threadBlock, some cur =>
      if s.point cur = .outside then do
        let lock ← s.lock.step .threadBlock
        return { s with lock }
      else .error .disabled
  | .threadUnblock t, some cur =>
      if s.point cur = .outside ∧ s.point t = .outside then do
        let lock ← s.lock.step (.threadUnblock t)
        return { s with lock }
      else .error .disabled
  | _, none => .error .disabled

/-- `threads` run; no pid has been handed out. -/
def start (threads : List Tid) : PidUse where
  lock := .start threads
  nextPid := 0
  point := fun _ => .outside
  pids := []

/-- The step increments the counter while another call has given back the lock and has not
yet read its own result. -/
def Overtakes (s : PidUse) (a : PidAction) : Prop :=
  a = .statement ∧ ∃ cur, s.lock.cpu.runningThread = some cur ∧ s.point cur = .increment ∧
    ∃ t, s.point t = .read

end PidUse

/-- Points inside `lock_acquire`. -/
def LockPoint.acquiring : LockPoint → Bool
  | .acquireTest | .acquireAgain | .acquireDown | .acquireRetest | .acquireHolder
  | .acquireAssert | .acquireCount => true
  | _ => false

/-- Points inside `lock_release`. -/
def LockPoint.releasing : LockPoint → Bool
  | .releaseAssert | .releaseTest | .releaseAgain | .releaseLast | .releaseHolder
  | .releaseCount | .releaseUp => true
  | _ => false

namespace LockUse

variable {s s' : LockUse} {cur t : Tid}

/-- The other threads stand where they stood. -/
def SameOthers (s s' : LockUse) (cur : Tid) : Prop :=
  ∀ t, t ≠ cur → s'.point t = s.point t ∧ s'.depth t = s.depth t

theorem sameOthers_goto (cpu : Cpu) (plock : Lock) (point : LockPoint) :
    SameOthers s ({ s with cpu, plock }.goto cur point) cur :=
  fun _ other => ⟨Function.update_of_ne other _ _, rfl⟩

theorem sameOthers_leave (cpu : Cpu) (plock : Lock) (depth : Nat) :
    SameOthers s ({ s with cpu, plock }.leave cur depth) cur :=
  fun _ other => ⟨Function.update_of_ne other _ _, Function.update_of_ne other _ _⟩

/-- What a statement does to the place of the thread: it goes on inside the function with the
depth it had, or returns with a new one. -/
def Goes (s s' : LockUse) (cur : Tid) (inside : LockPoint → Bool) (depth : Nat) : Prop :=
  SameOthers s s' cur ∧
    (inside (s'.point cur) = true ∧ s'.depth cur = s.depth cur ∨
      s'.point cur = .outside ∧ s'.depth cur = depth)

theorem goes_goto {inside : LockPoint → Bool} {point : LockPoint} (depth : Nat) (cpu : Cpu)
    (plock : Lock) (stays : inside point = true) :
    Goes s ({ s with cpu, plock }.goto cur point) cur inside depth := by
  refine ⟨sameOthers_goto cpu plock point, Or.inl ⟨?_, rfl⟩⟩
  simpa [goto] using stays

theorem goes_leave (inside : LockPoint → Bool) (depth : Nat) (cpu : Cpu) (plock : Lock) :
    Goes s ({ s with cpu, plock }.leave cur depth) cur inside depth :=
  ⟨sameOthers_leave cpu plock depth, Or.inr ⟨by simp [leave], by simp [leave]⟩⟩

theorem statement_acquiring (here : (s.point cur).acquiring = true)
    (ran : s.statement cur = .ok s') :
    Goes s s' cur LockPoint.acquiring (s.depth cur + 1) := by
  unfold statement at ran
  cases point : s.point cur <;> rw [point] at here ran <;> try cases here
  case acquireTest =>
    dsimp only at ran
    split at ran
    · rw [← Except.ok.inj ran]
      exact goes_goto _ s.cpu s.plock rfl
    · rw [← Except.ok.inj ran]
      exact goes_goto _ s.cpu s.plock rfl
  case acquireAgain =>
    rw [← Except.ok.inj ran]
    exact goes_leave _ _ s.cpu _
  case acquireDown =>
    obtain ⟨⟨taken, semaphore, cpu⟩, -, ran⟩ := except_bind_eq_ok.mp ran
    rw [← Except.ok.inj ran]
    exact goes_goto _ cpu _ (by cases taken <;> rfl)
  case acquireRetest =>
    obtain ⟨⟨taken, semaphore, cpu⟩, -, ran⟩ := except_bind_eq_ok.mp ran
    rw [← Except.ok.inj ran]
    exact goes_goto _ cpu _ (by cases taken <;> rfl)
  case acquireHolder =>
    rw [← Except.ok.inj ran]
    exact goes_goto _ s.cpu _ rfl
  case acquireAssert =>
    obtain ⟨_, -, ran⟩ := except_bind_eq_ok.mp ran
    rw [← Except.ok.inj ran]
    exact goes_goto _ s.cpu s.plock rfl
  case acquireCount =>
    rw [← Except.ok.inj ran]
    exact goes_leave _ _ s.cpu _

theorem statement_releasing (here : (s.point cur).releasing = true)
    (ran : s.statement cur = .ok s') :
    Goes s s' cur LockPoint.releasing (s.depth cur - 1) := by
  unfold statement at ran
  cases point : s.point cur <;> rw [point] at here ran <;> try cases here
  case releaseAssert =>
    obtain ⟨_, -, ran⟩ := except_bind_eq_ok.mp ran
    rw [← Except.ok.inj ran]
    exact goes_goto _ s.cpu s.plock rfl
  case releaseTest =>
    dsimp only at ran
    split at ran
    · rw [← Except.ok.inj ran]
      exact goes_goto _ s.cpu s.plock rfl
    · rw [← Except.ok.inj ran]
      exact goes_goto _ s.cpu s.plock rfl
  case releaseAgain =>
    rw [← Except.ok.inj ran]
    exact goes_leave _ _ s.cpu _
  case releaseLast =>
    obtain ⟨_, -, ran⟩ := except_bind_eq_ok.mp ran
    rw [← Except.ok.inj ran]
    exact goes_goto _ s.cpu s.plock rfl
  case releaseHolder =>
    rw [← Except.ok.inj ran]
    exact goes_goto _ s.cpu _ rfl
  case releaseCount =>
    rw [← Except.ok.inj ran]
    exact goes_goto _ s.cpu _ rfl
  case releaseUp =>
    obtain ⟨⟨semaphore, cpu⟩, -, ran⟩ := except_bind_eq_ok.mp ran
    rw [← Except.ok.inj ran]
    exact goes_leave _ _ cpu _

/-- Steps of the scheduler leave all threads where they stand. -/
def SamePlaces (s s' : LockUse) : Prop := s'.point = s.point ∧ s'.depth = s.depth

theorem step_samePlaces {a : LockAction} (ran : s.step a = .ok s')
    (other : a ≠ .statement ∧ a ≠ .lockAcquire ∧ a ≠ .lockRelease) : SamePlaces s s' := by
  unfold LockUse.step at ran
  split at ran
  next =>
    obtain ⟨_, -, ran⟩ := except_bind_eq_ok.mp ran
    rw [← Except.ok.inj ran]
    exact ⟨rfl, rfl⟩
  next =>
    split at ran
    · cases ran
    · obtain ⟨_, -, ran⟩ := except_bind_eq_ok.mp ran
      rw [← Except.ok.inj ran]
      exact ⟨rfl, rfl⟩
  next => exact absurd rfl other.2.1
  next => exact absurd rfl other.2.2
  next => exact absurd rfl other.1
  next =>
    split at ran
    · obtain ⟨_, -, ran⟩ := except_bind_eq_ok.mp ran
      rw [← Except.ok.inj ran]
      exact ⟨rfl, rfl⟩
    · cases ran
  next =>
    split at ran
    · obtain ⟨_, -, ran⟩ := except_bind_eq_ok.mp ran
      rw [← Except.ok.inj ran]
      exact ⟨rfl, rfl⟩
    · cases ran
  next => cases ran

end LockUse

/-- Where a thread stands at the lock when it stands at a point of `allocate_pid`. -/
def PidPoint.Fits (place : LockPoint) (depth : Nat) : PidPoint → Prop
  | .outside | .read => place = .outside ∧ depth = 0
  | .acquire => place.acquiring = true ∧ depth = 0
  | .increment | .callRelease => place = .outside ∧ depth = 1
  | .release => place.releasing = true ∧ depth = 1

/-- Points of a call that has counted and not yet returned. -/
def PidPoint.counted : PidPoint → Bool
  | .callRelease | .release | .read => true
  | _ => false

/-- The pid of the call number `i`. -/
def pidOf (i : Nat) : Int16 := Int16.ofNat (i + 1)

namespace PidUse

/-- Every call has returned, or will return, the number that it has counted to. -/
structure InOrder (s : PidUse) : Prop where
  ordered : s.lock.Ordered
  fits : ∀ t, (s.point t).Fits (s.lock.point t) (s.lock.depth t)
  one : ∀ t u, (s.point t).counted = true → (s.point u).counted = true → t = u
  pids : s.pids = (List.range s.pids.length).map pidOf
  own : ∀ t, (s.point t).counted = true → s.nextPid = pidOf s.pids.length
  free : (∀ t, (s.point t).counted = false) → s.nextPid = Int16.ofNat s.pids.length

variable {s s' : PidUse} {cur : Tid} {lock : LockUse}

theorem step_cases {a : PidAction} (ran : s.step a = .ok s') :
    (∃ lockAction lock, s.lock.step lockAction = .ok lock ∧
      (lockAction ≠ .statement ∧ lockAction ≠ .lockAcquire ∧ lockAction ≠ .lockRelease) ∧
      a ≠ .allocatePid ∧ s' = { s with lock }) ∨
    (∃ cur lock, a = .allocatePid ∧ s.lock.cpu.runningThread = some cur ∧
      s.point cur = .outside ∧ s.lock.step .lockAcquire = .ok lock ∧
      s' = { s with lock }.goto cur .acquire) ∨
    ∃ cur, a = .statement ∧ s.lock.cpu.runningThread = some cur ∧ s.statement cur = .ok s' := by
  unfold PidUse.step at ran
  split at ran
  next =>
    obtain ⟨lock, stepped, ran⟩ := except_bind_eq_ok.mp ran
    exact .inl ⟨_, lock, stepped, by simp, by simp, (Except.ok.inj ran).symm⟩
  next =>
    obtain ⟨lock, stepped, ran⟩ := except_bind_eq_ok.mp ran
    exact .inl ⟨_, lock, stepped, by simp, by simp, (Except.ok.inj ran).symm⟩
  next cur runs =>
    split at ran
    · next here =>
        obtain ⟨lock, stepped, ran⟩ := except_bind_eq_ok.mp ran
        exact .inr (.inl ⟨cur, lock, rfl, runs, here, stepped, (Except.ok.inj ran).symm⟩)
    · cases ran
  next cur runs => exact .inr (.inr ⟨cur, rfl, runs, ran⟩)
  next =>
    split at ran
    · obtain ⟨lock, stepped, ran⟩ := except_bind_eq_ok.mp ran
      exact .inl ⟨_, lock, stepped, by simp, by simp, (Except.ok.inj ran).symm⟩
    · cases ran
  next =>
    split at ran
    · obtain ⟨lock, stepped, ran⟩ := except_bind_eq_ok.mp ran
      exact .inl ⟨_, lock, stepped, by simp, by simp, (Except.ok.inj ran).symm⟩
    · cases ran
  next => cases ran

theorem start_inOrder {threads : List Tid} (nodup : threads.Nodup) : (start threads).InOrder where
  ordered := LockUse.start_ordered nodup
  fits _ := ⟨rfl, rfl⟩
  one _ _ counted := by cases counted
  pids := rfl
  own _ counted := by cases counted
  free _ := rfl

namespace InOrder

theorem depth_le (inOrder : s.InOrder) (t : Tid) : s.lock.depth t < 2 ^ 32 := by
  have fits := inOrder.fits t
  cases point : s.point t <;> rw [point] at fits <;> simp only [PidPoint.Fits] at fits <;> omega

theorem lockStep (inOrder : s.InOrder) {a : LockAction} (ran : s.lock.step a = .ok lock) :
    lock.Ordered := by
  rcases inOrder.ordered.step inOrder.depth_le a with ⟨next, went, ordered⟩ | disabled
  · rw [went] at ran
    exact Except.ok.inj ran ▸ ordered
  · cases disabled.symm.trans ran

theorem samePlaces (inOrder : s.InOrder) {a : LockAction} (ran : s.lock.step a = .ok lock)
    (other : a ≠ .statement ∧ a ≠ .lockAcquire ∧ a ≠ .lockRelease) :
    InOrder { s with lock } := by
  obtain ⟨samePoint, sameDepth⟩ := LockUse.step_samePlaces ran other
  refine ⟨inOrder.lockStep ran, fun t => ?_, inOrder.one, inOrder.pids, inOrder.own, inOrder.free⟩
  simp only [samePoint, sameDepth]
  exact inOrder.fits t

/-- A step of the lock in which one thread moves on, without counting or reading. -/
theorem moveOn (inOrder : s.InOrder) (ordered : lock.Ordered)
    (same : LockUse.SameOthers s.lock lock cur) {point : PidPoint}
    (fits : point.Fits (lock.point cur) (lock.depth cur))
    (counts : point.counted = (s.point cur).counted) :
    InOrder ({ s with lock }.goto cur point) := by
  have counted : ∀ t, ((({ s with lock } : PidUse).goto cur point).point t).counted =
      (s.point t).counted := by
    intro t
    by_cases here : t = cur
    · subst here
      simpa [goto] using counts
    · simp [goto, Function.update_of_ne here]
  refine ⟨ordered, fun t => ?_, fun t u ofT ofU => ?_, inOrder.pids, fun t ofT => ?_,
    fun none => ?_⟩
  · by_cases here : t = cur
    · subst here
      simpa [goto] using fits
    · obtain ⟨samePoint, sameDepth⟩ := same t here
      simp only [goto, Function.update_of_ne here, samePoint, sameDepth]
      exact inOrder.fits t
  · exact inOrder.one t u ((counted t).symm.trans ofT) ((counted u).symm.trans ofU)
  · exact inOrder.own t ((counted t).symm.trans ofT)
  · exact inOrder.free fun t => (counted t).symm.trans (none t)

/-- A thread that is about to count is alone, unless another one is about to read. -/
theorem none_counted (inOrder : s.InOrder) (here : s.point cur = .increment)
    (notReading : ∀ t, s.point t ≠ .read) (t : Tid) : (s.point t).counted = false := by
  have mine := inOrder.fits cur
  rw [here] at mine
  have inside : s.lock.Owns cur := Or.inl (by rw [mine.2]; exact Nat.one_pos)
  have theirs := inOrder.fits t
  cases point : s.point t with
  | outside | acquire | increment => rfl
  | callRelease | release =>
      rw [point] at theirs
      have inside' : s.lock.Owns t := Or.inl (by rw [theirs.2]; exact Nat.one_pos)
      obtain rfl := inOrder.ordered.exclusive cur t inside inside'
      cases here.symm.trans point
  | read => exact absurd point (notReading t)

theorem increment (inOrder : s.InOrder) (here : s.point cur = .increment)
    (notReading : ∀ t, s.point t ≠ .read) :
    InOrder ({ s with nextPid := s.nextPid + 1 }.goto cur .callRelease) := by
  have none := inOrder.none_counted here notReading
  have only : ∀ t, ((({ s with nextPid := s.nextPid + 1 } : PidUse).goto cur
      .callRelease).point t).counted = true → t = cur := by
    intro t counted
    by_contra other
    simp only [goto, Function.update_of_ne other, none] at counted
    cases counted
  refine ⟨inOrder.ordered, fun t => ?_, fun t u ofT ofU => ?_, inOrder.pids, fun t _ => ?_,
    fun free => ?_⟩
  · by_cases same : t = cur
    · subst same
      have fits := inOrder.fits t
      rw [here] at fits
      have after : PidPoint.Fits (s.lock.point t) (s.lock.depth t) .callRelease := fits
      simpa [goto] using after
    · simp only [goto, Function.update_of_ne same]
      exact inOrder.fits t
  · rw [only t ofT, only u ofU]
  · simp [goto, inOrder.free none, pidOf]
  · have counted := free cur
    simp [goto, PidPoint.counted] at counted

theorem read (inOrder : s.InOrder) (here : s.point cur = .read) :
    InOrder ({ s with pids := s.pids ++ [s.nextPid] }.goto cur .outside) := by
  have mine : (s.point cur).counted = true := by
    rw [here]
    rfl
  have own := inOrder.own cur mine
  have none : ∀ t, (({ s with pids := s.pids ++ [s.nextPid] }.goto cur .outside).point
      t).counted = false := by
    intro t
    by_cases same : t = cur
    · subst same
      simp [goto, PidPoint.counted]
    · simp only [goto, Function.update_of_ne same]
      by_contra counted
      exact same (inOrder.one t cur (by simpa using counted) mine)
  refine ⟨inOrder.ordered, fun t => ?_, fun t u ofT => ?_, ?_, fun t ofT => ?_, fun _ => ?_⟩
  · by_cases same : t = cur
    · subst same
      have fits := inOrder.fits t
      rw [here] at fits
      have after : PidPoint.Fits (s.lock.point t) (s.lock.depth t) .outside := fits
      simpa [goto] using after
    · simp only [goto, Function.update_of_ne same]
      exact inOrder.fits t
  · rw [none t] at ofT
    cases ofT
  · simp only [goto, List.length_append, List.length_singleton, List.range_succ, List.map_append,
      List.map_singleton, ← inOrder.pids, own]
  · rw [none t] at ofT
    cases ofT
  · simp [goto, own, pidOf]

theorem goesOn (inOrder : s.InOrder) (ordered : lock.Ordered) {stay after : PidPoint}
    {inside : LockPoint → Bool} {depth : Nat} (here : s.point cur = stay)
    (goes : LockUse.Goes s.lock lock cur inside depth) (notOutside : inside .outside = false)
    (fits : ∀ point, inside point = true → stay.Fits point (s.lock.depth cur))
    (fitsAfter : after.Fits .outside depth) (counts : after.counted = stay.counted) :
    InOrder ({ s with lock }.goto cur
      (if lock.point cur = LockPoint.outside then after else stay)) := by
  obtain ⟨same, ⟨within, sameDepth⟩ | ⟨outside, newDepth⟩⟩ := goes
  · have stays : lock.point cur ≠ .outside := by
      intro outside
      rw [outside, notOutside] at within
      cases within
    rw [if_neg stays]
    exact inOrder.moveOn ordered same (by rw [sameDepth]; exact fits _ within) (by rw [here])
  · rw [if_pos outside]
    exact inOrder.moveOn ordered same (by rw [outside, newDepth]; exact fitsAfter)
      (by rw [here]; exact counts)

theorem statement (inOrder : s.InOrder) (runs : s.lock.cpu.runningThread = some cur)
    (notReading : s.point cur = .increment → ∀ t, s.point t ≠ .read)
    (ran : s.statement cur = .ok s') : s'.InOrder := by
  have fits := inOrder.fits cur
  have code : s.lock.step .statement = s.lock.statement cur := by simp [LockUse.step, runs]
  unfold PidUse.statement at ran
  cases here : s.point cur <;> rw [here] at fits ran
  case outside => cases ran
  case acquire =>
    obtain ⟨lock, stepped, ran⟩ := except_bind_eq_ok.mp ran
    have ordered := inOrder.lockStep stepped
    rw [code] at stepped
    rw [← Except.ok.inj ran]
    exact inOrder.goesOn ordered here (LockUse.statement_acquiring fits.1 stepped) rfl
      (fun _ within => ⟨within, fits.2⟩) ⟨rfl, by rw [fits.2]⟩ rfl
  case increment =>
    rw [← Except.ok.inj ran]
    exact inOrder.increment here (notReading here)
  case callRelease =>
    obtain ⟨lock, stepped, ran⟩ := except_bind_eq_ok.mp ran
    have ordered := inOrder.lockStep stepped
    have entered : lock = s.lock.goto cur .releaseAssert := by
      simpa [LockUse.step, runs, fits.1, fits.2, eq_comm] using stepped
    subst entered
    rw [← Except.ok.inj ran]
    refine inOrder.moveOn ordered (LockUse.sameOthers_goto s.lock.cpu s.lock.plock _) ⟨?_, fits.2⟩
      (by rw [here]; rfl)
    simp [LockUse.goto, LockPoint.releasing]
  case release =>
    obtain ⟨lock, stepped, ran⟩ := except_bind_eq_ok.mp ran
    have ordered := inOrder.lockStep stepped
    rw [code] at stepped
    rw [← Except.ok.inj ran]
    exact inOrder.goesOn ordered here (LockUse.statement_releasing fits.1 stepped) rfl
      (fun _ within => ⟨within, fits.2⟩) ⟨rfl, by rw [fits.2]⟩ rfl
  case read =>
    rw [← Except.ok.inj ran]
    exact inOrder.read here

theorem step (inOrder : s.InOrder) {a : PidAction} (own : ¬ s.Overtakes a)
    (ran : s.step a = .ok s') : s'.InOrder := by
  rcases step_cases ran with ⟨lockAction, lock, stepped, other, -, rfl⟩ |
    ⟨cur, lock, -, runs, here, stepped, rfl⟩ | ⟨cur, rfl, runs, ran⟩
  · exact inOrder.samePlaces stepped other
  · have ordered := inOrder.lockStep stepped
    have fits := inOrder.fits cur
    rw [here] at fits
    have entered : lock = s.lock.goto cur .acquireTest := by
      simpa [LockUse.step, runs, fits.1, eq_comm] using stepped
    subst entered
    refine inOrder.moveOn ordered (LockUse.sameOthers_goto s.lock.cpu s.lock.plock _)
      ⟨?_, fits.2⟩ (by rw [here]; rfl)
    simp [LockUse.goto, LockPoint.acquiring]
  · refine inOrder.statement runs (fun here t reading => own ?_) ran
    exact ⟨rfl, cur, runs, here, t, reading⟩

end InOrder

/-- `calls` are the threads that are in a call. -/
def InCall (s : PidUse) (calls : List Tid) : Prop :=
  calls.Nodup ∧ ∀ t, t ∈ calls ↔ s.point t ≠ .outside

theorem InCall.goto {calls : List Tid} (inCall : s.InCall calls) (here : s.point cur ≠ .outside)
    {point : PidPoint} (stays : point ≠ .outside) (lock : LockUse) (nextPid : Int16)
    (pids : List Int16) : InCall ({ s with lock, nextPid, pids }.goto cur point) calls := by
  refine ⟨inCall.1, fun t => ?_⟩
  by_cases same : t = cur
  · subst same
    simpa [PidUse.goto, stays] using (inCall.2 t).mpr here
  · simpa [PidUse.goto, Function.update_of_ne same] using inCall.2 t

theorem step_calls {calls : List Tid} {a : PidAction} (inCall : s.InCall calls)
    (ran : s.step a = .ok s') :
    ∃ calls', s'.InCall calls' ∧
      s'.pids.length + calls'.length ≤
        s.pids.length + calls.length + if a = .allocatePid then 1 else 0 := by
  rcases step_cases ran with ⟨_, lock, -, -, -, rfl⟩ | ⟨cur, lock, rfl, -, here, -, rfl⟩ |
    ⟨cur, rfl, -, ran⟩
  · exact ⟨calls, inCall, Nat.le_add_right _ _⟩
  · have absent : cur ∉ calls := fun present => (inCall.2 cur).mp present here
    refine ⟨cur :: calls, ⟨List.nodup_cons.mpr ⟨absent, inCall.1⟩, fun t => ?_⟩, ?_⟩
    · by_cases same : t = cur
      · subst same
        simp [PidUse.goto]
      · simpa [PidUse.goto, Function.update_of_ne same, same] using inCall.2 t
    · simp only [PidUse.goto, List.length_cons, if_pos]
      omega
  · have stays : ∀ (here : s.point cur ≠ .outside) {point : PidPoint} (_ : point ≠ .outside)
        (lock : LockUse) (nextPid : Int16),
        ∃ calls', ({ s with lock, nextPid }.goto cur point).InCall calls' ∧
          s.pids.length + calls'.length ≤ s.pids.length + calls.length + 0 :=
      fun here _ inside lock nextPid =>
        ⟨calls, inCall.goto here inside lock nextPid s.pids, Nat.le_refl _⟩
    unfold PidUse.statement at ran
    cases here : s.point cur <;> rw [here] at stays ran
    case outside => cases ran
    case acquire =>
      obtain ⟨lock, -, ran⟩ := except_bind_eq_ok.mp ran
      rw [← Except.ok.inj ran]
      exact stays (by decide) (by split <;> decide) lock s.nextPid
    case increment =>
      rw [← Except.ok.inj ran]
      exact stays (by decide) (by decide) s.lock _
    case callRelease =>
      obtain ⟨lock, -, ran⟩ := except_bind_eq_ok.mp ran
      rw [← Except.ok.inj ran]
      exact stays (by decide) (by decide) lock s.nextPid
    case release =>
      obtain ⟨lock, -, ran⟩ := except_bind_eq_ok.mp ran
      rw [← Except.ok.inj ran]
      exact stays (by decide) (by split <;> decide) lock s.nextPid
    case read =>
      rw [← Except.ok.inj ran]
      have present : cur ∈ calls := (inCall.2 cur).mpr (by rw [here]; decide)
      refine ⟨calls.erase cur, ⟨inCall.1.erase cur, fun t => ?_⟩, ?_⟩
      · rw [inCall.1.mem_erase_iff]
        by_cases same : t = cur
        · subst same
          simp [PidUse.goto]
        · simpa [PidUse.goto, Function.update_of_ne same, same] using inCall.2 t
      · have some := List.length_pos_of_mem present
        rw [List.length_erase_of_mem present]
        simp only [PidUse.goto, List.length_append, List.length_singleton]
        omega

/-- No more pids are returned, and no more calls are going on, than have been made so far. -/
theorem trace_calls {calls : List Tid} {actions : List PidAction} {states : List PidUse}
    (inCall : s.InCall calls) (ran : trace step s actions = .ok states) :
    ∀ p ∈ (s :: states).zip actions.inits, ∃ calls', p.1.InCall calls' ∧
      p.1.pids.length + calls'.length ≤
        s.pids.length + calls.length + p.2.count .allocatePid := by
  have first : ∃ calls', s.InCall calls' ∧ s.pids.length + calls'.length ≤
      s.pids.length + calls.length + [].count PidAction.allocatePid :=
    ⟨calls, inCall, Nat.le_add_right _ _⟩
  induction actions generalizing s calls states with
  | nil =>
      simp only [trace_nil, Except.ok.injEq] at ran
      subst ran
      simpa using first
  | cons a rest inductionHypothesis =>
      obtain ⟨next, tail, stepped, restRan, rfl⟩ := trace_cons_eq_ok.mp ran
      obtain ⟨calls₁, inCall₁, bound⟩ := step_calls inCall stepped
      have later := inductionHypothesis inCall₁ restRan ⟨calls₁, inCall₁, Nat.le_add_right _ _⟩
      rw [List.inits_cons, List.zip_cons_cons, List.forall_mem_cons]
      refine ⟨first, fun p inRest => ?_⟩
      rw [List.zip_map_right, List.mem_map] at inRest
      obtain ⟨q, inRun, rfl⟩ := inRest
      obtain ⟨calls', inCall', bound'⟩ := later q inRun
      refine ⟨calls', inCall', ?_⟩
      rw [Prod.map_snd, List.count_cons]
      split at bound
      next call =>
        rw [call, if_pos (by simp)]
        simp only [Prod.map_fst, id_eq]
        omega
      next =>
        simp only [Prod.map_fst, id_eq]
        omega

theorem mem_zip_inits {actions : List PidAction} {states : List PidUse}
    (ran : trace step s actions = .ok states) (inRun : s' ∈ s :: states) :
    ∃ soFar, (s', soFar) ∈ (s :: states).zip actions.inits := by
  have enough : (s :: states).length ≤ actions.inits.length := by
    rw [List.length_inits, List.length_cons, length_trace ran]
  rw [← List.map_fst_zip enough, List.mem_map] at inRun
  obtain ⟨p, inRun, rfl⟩ := inRun
  exact ⟨p.2, inRun⟩

theorem start_inCall (threads : List Tid) : (start threads).InCall [] :=
  ⟨List.nodup_nil, fun t => by simp [start]⟩

/-- In a run with fewer than `2 ^ 16` calls, where the counter never moves on while another
call has yet to read it, all pids are different. -/
theorem pids_nodup {threads : List Tid} (nodup : threads.Nodup) {actions : List PidAction}
    {states : List PidUse} (ran : trace step (start threads) actions = .ok states)
    (few : actions.count .allocatePid < 65536)
    (own : ∀ p ∈ (start threads :: states).zip actions, ¬ p.1.Overtakes p.2) :
    ∀ s ∈ start threads :: states, s.pids.Nodup := by
  intro s inRun
  have inOrder := invariant_of_allowed_trace
    (fun s a s' (inOrder : s.InOrder) own stepped => inOrder.step own stepped)
    (start_inOrder nodup) ran own s inRun
  obtain ⟨soFar, here⟩ := mem_zip_inits ran inRun
  obtain ⟨calls, -, bound⟩ := trace_calls (start_inCall threads) ran _ here
  have length : s.pids.length < 65536 := by
    have prefixOf : soFar <+: actions := (List.mem_inits _ _).mp (List.of_mem_zip here).2
    have fewer := prefixOf.sublist.count_le PidAction.allocatePid
    simp only [start, List.length_nil] at bound
    omega
  rw [inOrder.pids]
  refine List.Nodup.map_on (fun i inRange j inRange' same => ?_) List.nodup_range
  rw [List.mem_range] at inRange inRange'
  have numbers := congrArg (fun pid => pid.toBitVec.toNat) same
  simp only [pidOf, Int16.toBitVec_ofNat', BitVec.toNat_ofNat] at numbers
  omega

/-- Where a call begins only when the last one has returned, none overtakes another. -/
theorem not_overtakes_of_turns {threads : List Tid} {actions : List PidAction}
    {states : List PidUse} (ran : trace step (start threads) actions = .ok states)
    (turns : ∀ p ∈ (start threads :: states).zip actions.inits,
      p.2.count .allocatePid ≤ p.1.pids.length + 1) :
    ∀ p ∈ (start threads :: states).zip actions, ¬ p.1.Overtakes p.2 := by
  rintro p inRun ⟨-, cur, -, here, t, reading⟩
  obtain ⟨soFar, place⟩ := mem_zip_inits ran (List.of_mem_zip inRun).1
  obtain ⟨calls, inCall, bound⟩ := trace_calls (start_inCall threads) ran _ place
  have both : [cur, t] ⊆ calls := by
    intro u isOne
    simp only [List.mem_cons, List.not_mem_nil, or_false] at isOne
    rcases isOne with rfl | rfl
    · exact (inCall.2 u).mpr (by rw [here]; decide)
    · exact (inCall.2 u).mpr (by rw [reading]; decide)
  have different : [cur, t].Nodup := by
    simp only [List.nodup_cons, List.mem_singleton, List.not_mem_nil, not_false_eq_true,
      List.nodup_nil, and_true]
    rintro rfl
    cases here.symm.trans reading
  have two := (different.subperm both).length_le
  have one := turns _ place
  simp only [start, List.length_cons, List.length_nil] at bound one two
  omega

/-- One call, with the statements of the lock functions in it. -/
def oneCall (t : Tid) : List PidAction :=
  [.dispatch t, .allocatePid] ++ List.replicate 14 .statement

/-- Thread 2 calls when thread 1 has its pid. -/
theorem pids_nodup_turns : ∃ states,
    trace step (start [1, 2]) (oneCall 1 ++ .preempt :: oneCall 2) = .ok states ∧
    (states.getLastD (start [1, 2])).pids = [1, 2] ∧
    ∀ s ∈ start [1, 2] :: states, s.pids.Nodup := by
  have result : (trace step (start [1, 2]) (oneCall 1 ++ .preempt :: oneCall 2)).toOption.map
      (fun states => ((states.getLastD (start [1, 2])).pids,
        ((start [1, 2] :: states).zip (oneCall 1 ++ .preempt :: oneCall 2).inits).all
          fun p => p.2.count .allocatePid ≤ p.1.pids.length + 1)) = some ([1, 2], true) := by
    decide +kernel
  cases ran : trace step (start [1, 2]) (oneCall 1 ++ .preempt :: oneCall 2) with
  | error reason =>
      rw [ran] at result
      cases result
  | ok states =>
      rw [ran] at result
      obtain ⟨pids, turns⟩ := Prod.mk.inj (Option.some.inj result)
      simp only [List.all_eq_true, decide_eq_true_eq] at turns
      exact ⟨states, rfl, pids,
        pids_nodup (by decide) ran (by decide) (not_overtakes_of_turns ran turns)⟩

/-- The first thread has given back the lock when the second one comes in. -/
def overtaken : List PidAction :=
  [.dispatch 1, .allocatePid] ++ List.replicate 13 .statement ++ [.preempt] ++ oneCall 2 ++
    [.preempt, .dispatch 1, .statement]

theorem overtaken_same_pid : ∃ states, trace step (start [1, 2]) overtaken = .ok states ∧
    overtaken.count .allocatePid = 2 ∧ (states.getLastD (start [1, 2])).pids = [2, 2] := by
  have result : (trace step (start [1, 2]) overtaken).toOption.map
      (fun states => (states.getLastD (start [1, 2])).pids) = some [2, 2] := by
    decide +kernel
  cases ran : trace step (start [1, 2]) overtaken with
  | error reason =>
      rw [ran] at result
      cases result
  | ok states =>
      rw [ran] at result
      exact ⟨states, rfl, by decide, Option.some.inj result⟩

end PidUse

end HongbaiOS.Thread
