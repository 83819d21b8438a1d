import HongbaiOS.Library.Run
import HongbaiOS.Thread.Cpu

/-!
# Threads that share a lock

`lock_acquire` and `lock_release` statement by statement.  Interrupts are on between
the statements, so another thread can come in at each of these points; only the bodies
of `sema_down` and `sema_up` run with interrupts off.
-/

namespace HongbaiOS.Thread

open HongbaiOS.Library HongbaiOS.Kernel

/-- The statement a thread executes next. -/
inductive LockPoint where
  /-- In the thread's own code. -/
  | outside
  /-- `if (plock->holder == running_thread())` -/
  | acquireTest
  /-- `plock->holder_repeat_nr++` -/
  | acquireAgain
  /-- `sema_down(&plock->semaphore)` -/
  | acquireDown
  /-- Back from the `thread_block` of `sema_down`, with interrupts off. -/
  | acquireRetest
  /-- `plock->holder = running_thread()` -/
  | acquireHolder
  /-- `ASSERT(plock->holder_repeat_nr == 0)` -/
  | acquireAssert
  /-- `plock->holder_repeat_nr = 1` -/
  | acquireCount
  /-- `ASSERT(plock->holder == running_thread())` -/
  | releaseAssert
  /-- `if (plock->holder_repeat_nr > 1)` -/
  | releaseTest
  /-- `plock->holder_repeat_nr--` -/
  | releaseAgain
  /-- `ASSERT(plock->holder_repeat_nr == 1)` -/
  | releaseLast
  /-- `plock->holder = NULL` -/
  | releaseHolder
  /-- `plock->holder_repeat_nr = 0` -/
  | releaseCount
  /-- `sema_up(&plock->semaphore)` -/
  | releaseUp
  deriving DecidableEq

structure LockUse where
  cpu : Cpu
  plock : Lock
  point : Tid → LockPoint
  /-- How many acquires of the thread have returned and are not yet released. -/
  depth : Tid → Nat

namespace LockUse

def goto (s : LockUse) (t : Tid) (point : LockPoint) : LockUse :=
  { s with point := Function.update s.point t point }

def setLock (s : LockUse) (plock : Lock) : LockUse := { s with plock := plock }

/-- The return from `lock_acquire` or `lock_release`. -/
def leave (s : LockUse) (t : Tid) (depth : Nat) : LockUse :=
  { s with
    point := Function.update s.point t .outside
    depth := Function.update s.depth t depth }

/-- The running thread `cur` executes the statement it stands at. -/
def statement (s : LockUse) (cur : Tid) : Except Halt LockUse :=
  match s.point cur with
  | .outside => .error .disabled
  | .acquireTest =>
      if s.plock.holder = some cur then .ok (s.goto cur .acquireAgain)
      else .ok (s.goto cur .acquireDown)
  | .acquireAgain =>
      .ok ((s.setLock { s.plock with holderRepeatNr := s.plock.holderRepeatNr + 1 }).leave cur
        (s.depth cur + 1))
  | .acquireDown | .acquireRetest => do
      let (taken, semaphore, cpu) ← s.cpu.semaDown cur s.plock.semaphore
      return { s with cpu, plock := { s.plock with semaphore } }.goto cur
        (if taken then .acquireHolder else .acquireRetest)
  | .acquireHolder =>
      .ok ((s.setLock { s.plock with holder := some cur }).goto cur .acquireAssert)
  | .acquireAssert => do
      check .lockAcquire (s.plock.holderRepeatNr = 0)
      return s.goto cur .acquireCount
  | .acquireCount =>
      .ok ((s.setLock { s.plock with holderRepeatNr := 1 }).leave cur (s.depth cur + 1))
  | .releaseAssert => do
      check .lockRelease (s.plock.holder = some cur)
      return s.goto cur .releaseTest
  | .releaseTest =>
      if s.plock.holderRepeatNr > 1 then .ok (s.goto cur .releaseAgain)
      else .ok (s.goto cur .releaseLast)
  | .releaseAgain =>
      .ok ((s.setLock { s.plock with holderRepeatNr := s.plock.holderRepeatNr - 1 }).leave cur
        (s.depth cur - 1))
  | .releaseLast => do
      check .lockRelease (s.plock.holderRepeatNr = 1)
      return s.goto cur .releaseHolder
  | .releaseHolder =>
      .ok ((s.setLock { s.plock with holder := none }).goto cur .releaseCount)
  | .releaseCount =>
      .ok ((s.setLock { s.plock with holderRepeatNr := 0 }).goto cur .releaseUp)
  | .releaseUp => do
      let (semaphore, cpu) ← s.cpu.semaUp s.plock.semaphore
      return { s with cpu, plock := { s.plock with semaphore } }.leave cur (s.depth cur - 1)

end LockUse

inductive LockAction where
  /-- `schedule` switches to a ready thread. -/
  | dispatch (next : Tid)
  /-- The timer interrupt takes the CPU from the running thread. -/
  | preempt
  | lockAcquire
  /-- The running thread, which is inside the lock, calls `lock_release`. -/
  | lockRelease
  | statement
  /-- The running thread goes to sleep for another reason. -/
  | threadBlock
  /-- The running thread wakes one that sleeps for another reason. -/
  | threadUnblock (t : Tid)
  deriving DecidableEq

def LockUse.step (s : LockUse) (a : LockAction) : Except Halt LockUse :=
  match a, s.cpu.runningThread with
  | .dispatch next, none => do
      let cpu ← s.cpu.dispatch next
      return { s with cpu }
  | .preempt, some cur =>
      if s.point cur = .acquireRetest then .error .disabled
      else do
        let cpu ← s.cpu.preempt
        return { s with cpu }
  | .lockAcquire, some cur =>
      if s.point cur = .outside then .ok (s.goto cur .acquireTest) else .error .disabled
  | .lockRelease, some cur =>
      if s.point cur = .outside ∧ 0 < s.depth cur then .ok (s.goto cur .releaseAssert)
      else .error .disabled
  | .statement, some cur => s.statement cur
  | .threadBlock, some cur =>
      if s.point cur = .outside then do
        let cpu ← s.cpu.threadBlock
        return { s with cpu }
      else .error .disabled
  | .threadUnblock t, some cur =>
      if s.point cur = .outside ∧ s.point t = .outside ∧ s.cpu.status t = .blocked then do
        let cpu ← s.cpu.threadUnblock t
        return { s with cpu }
      else .error .disabled
  | _, _ => .error .disabled

/-- After `lock_init(plock)`, with `threads` as the threads that will use the lock. -/
def LockUse.start (threads : List Tid) : LockUse where
  cpu := Cpu.start threads
  plock := lockInit
  point := fun _ => .outside
  depth := fun _ => 0

/-- Points at which the thread has the semaphore and has not yet returned. -/
def LockPoint.owns : LockPoint → Bool
  | .acquireHolder | .acquireAssert | .acquireCount => true
  | _ => false

/-- What the lock looks like to a thread that stands at a point. -/
def LockPoint.Fits (plock : Lock) (t : Tid) (depth : Nat) : LockPoint → Prop
  | .outside | .acquireTest =>
      0 < depth → plock.holder = some t ∧ plock.holderRepeatNr = UInt32.ofNat depth
  | .acquireAgain | .releaseAssert | .releaseTest =>
      0 < depth ∧ plock.holder = some t ∧ plock.holderRepeatNr = UInt32.ofNat depth
  | .acquireDown | .acquireRetest => depth = 0
  | .acquireHolder => depth = 0 ∧ plock.holderRepeatNr = 0
  | .acquireAssert | .acquireCount =>
      depth = 0 ∧ plock.holder = some t ∧ plock.holderRepeatNr = 0
  | .releaseAgain =>
      1 < depth ∧ plock.holder = some t ∧ plock.holderRepeatNr = UInt32.ofNat depth
  | .releaseLast => depth = 1 ∧ plock.holder = some t ∧ plock.holderRepeatNr = 1
  | .releaseHolder => depth = 1
  | .releaseCount => depth = 1 ∧ plock.holder = none
  | .releaseUp => depth = 1 ∧ plock.holder = none ∧ plock.holderRepeatNr = 0

/-- A thread that does not have the lock sees nothing of it. -/
theorem LockPoint.Fits.of_not_owner {plock plock' : Lock} {t : Tid} {depth : Nat}
    {point : LockPoint} (fits : point.Fits plock t depth)
    (outside : ¬ (0 < depth ∨ point.owns = true)) : point.Fits plock' t depth := by
  rw [not_or, Nat.not_lt, Nat.le_zero] at outside
  obtain ⟨rfl, none⟩ := outside
  cases point <;> simp [Fits, owns] at fits none ⊢

namespace LockUse

/-- The thread has the semaphore of the lock. -/
def Owns (s : LockUse) (t : Tid) : Prop := 0 < s.depth t ∨ (s.point t).owns = true

/-- The state with a new lock, point and depth for one thread. -/
def moved (s : LockUse) (t : Tid) (plock : Lock) (point : LockPoint) (depth : Nat) :
    LockUse where
  cpu := s.cpu
  plock := plock
  point := Function.update s.point t point
  depth := Function.update s.depth t depth

theorem goto_eq_moved (s : LockUse) (t : Tid) (plock : Lock) (point : LockPoint) :
    (s.setLock plock).goto t point = s.moved t plock point (s.depth t) := by
  simp [goto, setLock, moved]

theorem goto_eq_moved_self (s : LockUse) (t : Tid) (point : LockPoint) :
    s.goto t point = s.moved t s.plock point (s.depth t) :=
  goto_eq_moved s t s.plock point

structure Ordered (s : LockUse) : Prop where
  cpu : s.cpu.Consistent
  waits : Cpu.Waits s.cpu s.plock.semaphore fun t => s.point t = .acquireRetest
  exclusive : ∀ t u, s.Owns t → s.Owns u → t = u
  taken : ∀ t, s.Owns t → s.plock.semaphore.value = 0
  unused : s.plock.semaphore.value = 1 → s.plock.holderRepeatNr = 0
  holder : ∀ t, s.plock.holder = some t → s.Owns t
  fits : ∀ t, (s.point t).Fits s.plock t (s.depth t)

variable {s s' : LockUse} {cur t : Tid} {plock : Lock} {point : LockPoint} {depth : Nat}

theorem start_ordered {threads : List Tid} (nodup : threads.Nodup) :
    (start threads).Ordered := by
  have nobody : ∀ t, ¬ (start threads).Owns t := by
    intro t
    simp [start, Owns, LockPoint.owns]
  refine ⟨Cpu.start_consistent nodup, ⟨Or.inr rfl, List.nodup_nil, fun t => ?_, ?_⟩, ?_, ?_, ?_,
    ?_, ?_⟩
  · simp [start, lockInit]
  · exact fun _ some => absurd rfl some
  · exact fun t _ owns => absurd owns (nobody t)
  · exact fun t owns => absurd owns (nobody t)
  · exact fun _ => rfl
  · intro t holds
    cases holds
  · intro t
    simp [start, LockPoint.Fits]

namespace Ordered

theorem not_owner (ordered : s.Ordered) (owner : s.Owns cur) (other : t ≠ cur) : ¬ s.Owns t :=
  fun owns => other (ordered.exclusive t cur owns owner)

theorem moved (ordered : s.Ordered) (sameSema : plock.semaphore = s.plock.semaphore)
    (sameOwner : (0 < depth ∨ point.owns = true) ↔ s.Owns cur)
    (byOwner : s.Owns cur ∨ plock = s.plock)
    (holder : ∀ u, plock.holder = some u → s.Owns u)
    (fits : point.Fits plock cur depth)
    (before : s.point cur ≠ .acquireRetest) (after : point ≠ .acquireRetest) :
    (s.moved cur plock point depth).Ordered := by
  have owns : ∀ u, (s.moved cur plock point depth).Owns u ↔ s.Owns u := by
    intro u
    by_cases same : u = cur
    · subst same
      simpa [Owns, LockUse.moved] using sameOwner
    · simp [Owns, LockUse.moved, Function.update_of_ne same]
  refine ⟨ordered.cpu, ?_, ?_, ?_, ?_, ?_, ?_⟩
  · change Cpu.Waits s.cpu plock.semaphore _
    rw [sameSema]
    refine ordered.waits.congr fun u => ?_
    by_cases same : u = cur
    · subst same
      simp [LockUse.moved, before, after]
    · simp [LockUse.moved, Function.update_of_ne same]
  · intro t u ownsT ownsU
    exact ordered.exclusive t u ((owns t).mp ownsT) ((owns u).mp ownsU)
  · intro t ownsT
    change plock.semaphore.value = 0
    rw [sameSema]
    exact ordered.taken t ((owns t).mp ownsT)
  · change plock.semaphore.value = 1 → plock.holderRepeatNr = 0
    rw [sameSema]
    intro one
    rcases byOwner with owner | rfl
    · rw [ordered.taken cur owner] at one
      cases one
    · exact ordered.unused one
  · exact fun u holds => (owns u).mpr (holder u holds)
  · intro u
    by_cases same : u = cur
    · subst same
      simpa [LockUse.moved] using fits
    · simp only [LockUse.moved, Function.update_of_ne same]
      rcases byOwner with owner | rfl
      · exact (ordered.fits u).of_not_owner (ordered.not_owner owner same)
      · exact ordered.fits u

/-- Steps of the scheduler that leave the threads at the lock where they are. -/
theorem setCpu (ordered : s.Ordered) {cpu : Cpu} (consistent : cpu.Consistent)
    (same : ∀ t, s.point t = .acquireRetest →
      (cpu.status t = .blocked ↔ s.cpu.status t = .blocked)) :
    Ordered { s with cpu } :=
  ⟨consistent, ordered.waits.of_status same, ordered.exclusive, ordered.taken, ordered.unused,
    ordered.holder, ordered.fits⟩

theorem semaDown (ordered : s.Ordered) (runs : s.cpu.runningThread = some cur)
    (here : s.point cur = .acquireDown ∨ s.point cur = .acquireRetest) :
    ∃ s', s.statement cur = .ok s' ∧ s'.Ordered := by
  have code : s.statement cur = (do
      let (taken, semaphore, cpu) ← s.cpu.semaDown cur s.plock.semaphore
      return { s with cpu, plock := { s.plock with semaphore } }.goto cur
        (if taken then .acquireHolder else .acquireRetest)) := by
    rcases here with here | here <;> simp [statement, here]
  have nothing : s.depth cur = 0 := by
    have fits := ordered.fits cur
    rcases here with here | here <;> rw [here] at fits <;> exact fits
  have outside : ¬ s.Owns cur := by
    rcases here with here | here <;> simp [Owns, here, nothing, LockPoint.owns]
  have awake : s.cpu.status cur ≠ .blocked := by
    rw [(ordered.cpu.running cur).mp runs]
    decide
  rcases ordered.waits.binary with zero | one
  · have absent : cur ∉ s.plock.semaphore.waiters :=
      fun waiting => awake ((ordered.waits.mem cur).mp waiting).2
    refine ⟨_, by rw [code, Cpu.semaDown_zero runs zero absent]; rfl, ?_⟩
    have owns : ∀ u, LockUse.Owns (goto { s with
        cpu := s.cpu.sleep cur
        plock := { s.plock with semaphore :=
          { s.plock.semaphore with waiters := s.plock.semaphore.waiters ++ [cur] } } }
        cur .acquireRetest) u ↔ s.Owns u := by
      intro u
      by_cases same : u = cur
      · subst same
        simpa [Owns, goto, nothing, LockPoint.owns] using outside
      · simp [Owns, goto, Function.update_of_ne same]
    refine ⟨ordered.cpu.sleep runs, ?_, ?_, ?_, ?_, ?_, ?_⟩
    · refine ordered.waits.sleep zero awake fun u => ?_
      by_cases same : u = cur
      · subst same
        simp [goto]
      · simp [goto, same]
    · intro t u ownsT ownsU
      exact ordered.exclusive t u ((owns t).mp ownsT) ((owns u).mp ownsU)
    · exact fun t ownsT => ordered.taken t ((owns t).mp ownsT)
    · exact ordered.unused
    · exact fun t holds => (owns t).mpr (ordered.holder t holds)
    · intro u
      by_cases same : u = cur
      · subst same
        simpa [goto, LockPoint.Fits] using nothing
      · have fits := ordered.fits u
        simp only [goto, Function.update_of_ne same]
        cases point : s.point u <;> rw [point] at fits <;> exact fits
  · refine ⟨_, by rw [code, Cpu.semaDown_one one]; rfl, ?_⟩
    have nobody : ∀ u, ¬ s.Owns u := by
      intro u owns
      rw [ordered.taken u owns] at one
      cases one
    have unused := ordered.unused one
    have owns : ∀ u, LockUse.Owns (goto { s with
        plock := { s.plock with semaphore := { s.plock.semaphore with value := 0 } } }
        cur .acquireHolder) u ↔ u = cur := by
      intro u
      by_cases same : u = cur
      · subst same
        simp [Owns, goto, LockPoint.owns]
      · have free := nobody u
        simpa [Owns, goto, Function.update_of_ne same, same] using free
    refine ⟨ordered.cpu, ?_, ?_, ?_, ?_, ?_, ?_⟩
    · refine ordered.waits.take awake fun u => ?_
      by_cases same : u = cur
      · subst same
        simp [goto]
      · simp [goto, same]
    · intro t u ownsT ownsU
      exact ((owns t).mp ownsT).trans ((owns u).mp ownsU).symm
    · exact fun _ _ => rfl
    · exact fun impossible => absurd impossible (by simp [goto])
    · exact fun t holds => absurd (ordered.holder t holds) (nobody t)
    · intro u
      by_cases same : u = cur
      · subst same
        simpa [goto, LockPoint.Fits] using ⟨nothing, unused⟩
      · simp only [goto, Function.update_of_ne same]
        exact (ordered.fits u).of_not_owner (nobody u)

/-- `sema_up` gives the semaphore back and wakes the first waiter. -/
theorem semaUp (ordered : s.Ordered) (here : s.point cur = .releaseUp) :
    ∃ s', s.statement cur = .ok s' ∧ s'.Ordered := by
  have fits := ordered.fits cur
  rw [here] at fits
  obtain ⟨one, free, unused⟩ := fits
  have owner : s.Owns cur := Or.inl (by omega)
  obtain ⟨semaphore, cpu, up, waits, consistent, raised, -, -⟩ :=
    ordered.waits.semaUp ordered.cpu (ordered.taken cur owner)
  have ran : s.statement cur = .ok (leave { s with
      cpu, plock := { s.plock with semaphore } } cur (s.depth cur - 1)) := by
    simp [statement, here, up]
  refine ⟨_, ran, ?_⟩
  have nobody : ∀ u, ¬ LockUse.Owns (leave { s with
      cpu, plock := { s.plock with semaphore } } cur (s.depth cur - 1)) u := by
    intro u
    by_cases same : u = cur
    · subst same
      simp [Owns, leave, one, LockPoint.owns]
    · have outside := ordered.not_owner owner same
      simpa [Owns, leave, Function.update_of_ne same] using outside
  refine ⟨consistent, ?_, ?_, ?_, ?_, ?_, ?_⟩
  · refine waits.congr fun u => ?_
    by_cases same : u = cur
    · subst same
      simp [leave, here]
    · simp [leave, Function.update_of_ne same]
  · exact fun t _ owns => absurd owns (nobody t)
  · exact fun t owns => absurd owns (nobody t)
  · exact fun _ => unused
  · intro t holds
    exact absurd (free.symm.trans holds) (by simp)
  · intro u
    by_cases same : u = cur
    · subst same
      simp [leave, LockPoint.Fits, one]
    · simp only [leave, Function.update_of_ne same]
      exact (ordered.fits u).of_not_owner (ordered.not_owner owner same)

theorem ownerMoves (ordered : s.Ordered) (owner : s.Owns cur)
    (sameSema : plock.semaphore = s.plock.semaphore) (keeps : 0 < depth ∨ point.owns = true)
    (holder : ∀ u, plock.holder = some u → s.Owns u) (fits : point.Fits plock cur depth)
    (before : s.point cur ≠ .acquireRetest) (after : point ≠ .acquireRetest) :
    (s.moved cur plock point depth).Ordered :=
  ordered.moved sameSema (iff_of_true keeps owner) (Or.inl owner) holder fits before after

theorem fitsAt (ordered : s.Ordered) (here : s.point cur = point) :
    point.Fits s.plock cur (s.depth cur) :=
  here ▸ ordered.fits cur

section Points

variable (ordered : s.Ordered)

include ordered

/-- The holder is inside the lock already, any other thread has to take it. -/
theorem acquireTest (here : s.point cur = .acquireTest) :
    ∃ s', s.statement cur = .ok s' ∧ s'.Ordered := by
  have fits := ordered.fitsAt here
  by_cases own : s.plock.holder = some cur
  · have owner : s.Owns cur := ordered.holder cur own
    have inside : 0 < s.depth cur := by simpa [Owns, here, LockPoint.owns] using owner
    refine ⟨_, by rw [LockUse.statement, here]; exact if_pos own, ?_⟩
    rw [goto_eq_moved_self]
    exact ordered.ownerMoves owner rfl (Or.inl inside) ordered.holder ⟨inside, fits inside⟩
      (by simp [here]) (by simp)
  · have nothing : s.depth cur = 0 := by
      by_contra some
      exact own (fits (by omega)).1
    refine ⟨_, by rw [LockUse.statement, here]; exact if_neg own, ?_⟩
    rw [goto_eq_moved_self]
    exact ordered.moved rfl (by simp [Owns, here, LockPoint.owns]) (Or.inr rfl) ordered.holder
      nothing (by simp [here]) (by simp)

theorem acquireAgain (here : s.point cur = .acquireAgain) :
    ∃ s', s.statement cur = .ok s' ∧ s'.Ordered := by
  obtain ⟨inside, holds, count⟩ := ordered.fitsAt here
  have next : s.plock.holderRepeatNr + 1 = UInt32.ofNat (s.depth cur + 1) := by
    rw [count, UInt32.ofNat_add]
    rfl
  refine ⟨_, by rw [LockUse.statement, here], ?_⟩
  exact ordered.ownerMoves (Or.inl inside) rfl (Or.inl (Nat.succ_pos _)) ordered.holder
    (fun _ => ⟨holds, next⟩) (by simp [here]) (by simp)

theorem acquireHolder (here : s.point cur = .acquireHolder) :
    ∃ s', s.statement cur = .ok s' ∧ s'.Ordered := by
  obtain ⟨nothing, unused⟩ := ordered.fitsAt here
  have owner : s.Owns cur := by simp [Owns, here, LockPoint.owns]
  refine ⟨_, by rw [LockUse.statement, here], ?_⟩
  rw [goto_eq_moved]
  refine ordered.ownerMoves owner rfl (Or.inr rfl) (fun u holds => ?_) ⟨nothing, rfl, unused⟩
    (by simp [here]) (by simp)
  rwa [← Option.some.inj holds]

theorem acquireAssert (here : s.point cur = .acquireAssert) :
    ∃ s', s.statement cur = .ok s' ∧ s'.Ordered := by
  have fits := ordered.fitsAt here
  have owner : s.Owns cur := by simp [Owns, here, LockPoint.owns]
  refine ⟨s.goto cur .acquireCount, by simp [LockUse.statement, here, fits.2.2], ?_⟩
  rw [goto_eq_moved_self]
  exact ordered.ownerMoves owner rfl (Or.inr rfl) ordered.holder fits (by simp [here]) (by simp)

theorem acquireCount (here : s.point cur = .acquireCount) :
    ∃ s', s.statement cur = .ok s' ∧ s'.Ordered := by
  obtain ⟨nothing, holds, -⟩ := ordered.fitsAt here
  have owner : s.Owns cur := by simp [Owns, here, LockPoint.owns]
  refine ⟨_, by rw [LockUse.statement, here], ?_⟩
  exact ordered.ownerMoves owner rfl (Or.inl (Nat.succ_pos _)) ordered.holder
    (fun _ => ⟨holds, by rw [nothing]; rfl⟩) (by simp [here]) (by simp)

theorem releaseAssert (here : s.point cur = .releaseAssert) :
    ∃ s', s.statement cur = .ok s' ∧ s'.Ordered := by
  have fits := ordered.fitsAt here
  refine ⟨s.goto cur .releaseTest, by simp [LockUse.statement, here, fits.2.1], ?_⟩
  rw [goto_eq_moved_self]
  exact ordered.ownerMoves (Or.inl fits.1) rfl (Or.inl fits.1) ordered.holder fits
    (by simp [here]) (by simp)

/-- The count does not wrap, so it tells whether this release is the last. -/
theorem releaseTest (shallow : s.depth cur < 2 ^ 32) (here : s.point cur = .releaseTest) :
    ∃ s', s.statement cur = .ok s' ∧ s'.Ordered := by
  obtain ⟨inside, holds, count⟩ := ordered.fitsAt here
  have nested : s.plock.holderRepeatNr > 1 ↔ 1 < s.depth cur := by
    rw [count, gt_iff_lt, UInt32.lt_iff_toNat_lt, UInt32.toNat_ofNat_of_lt' shallow]
    exact Iff.rfl
  by_cases more : 1 < s.depth cur
  · refine ⟨_, by rw [LockUse.statement, here]; exact if_pos (nested.mpr more), ?_⟩
    rw [goto_eq_moved_self]
    exact ordered.ownerMoves (Or.inl inside) rfl (Or.inl inside) ordered.holder
      ⟨more, holds, count⟩ (by simp [here]) (by simp)
  · have last : s.depth cur = 1 := by omega
    refine ⟨_, by rw [LockUse.statement, here]; exact if_neg (mt nested.mp more), ?_⟩
    rw [goto_eq_moved_self]
    exact ordered.ownerMoves (Or.inl inside) rfl (Or.inl inside) ordered.holder
      ⟨last, holds, by rw [count, last]; rfl⟩ (by simp [here]) (by simp)

theorem releaseAgain (here : s.point cur = .releaseAgain) :
    ∃ s', s.statement cur = .ok s' ∧ s'.Ordered := by
  obtain ⟨nested, holds, count⟩ := ordered.fitsAt here
  have inside : 0 < s.depth cur - 1 := by omega
  have previous : s.plock.holderRepeatNr - 1 = UInt32.ofNat (s.depth cur - 1) := by
    have split : s.depth cur = (s.depth cur - 1) + 1 := by omega
    rw [count, split, UInt32.ofNat_add, Nat.add_sub_cancel]
    exact UInt32.add_sub_cancel _ _
  refine ⟨_, by rw [LockUse.statement, here], ?_⟩
  exact ordered.ownerMoves (Or.inl (by omega)) rfl (Or.inl inside) ordered.holder
    (fun _ => ⟨holds, previous⟩) (by simp [here]) (by simp)

theorem releaseLast (here : s.point cur = .releaseLast) :
    ∃ s', s.statement cur = .ok s' ∧ s'.Ordered := by
  obtain ⟨one, holds, count⟩ := ordered.fitsAt here
  refine ⟨s.goto cur .releaseHolder, by simp [LockUse.statement, here, count], ?_⟩
  rw [goto_eq_moved_self]
  exact ordered.ownerMoves (Or.inl (by omega)) rfl (Or.inl (by omega)) ordered.holder one
    (by simp [here]) (by simp)

theorem releaseHolder (here : s.point cur = .releaseHolder) :
    ∃ s', s.statement cur = .ok s' ∧ s'.Ordered := by
  have one : s.depth cur = 1 := ordered.fitsAt here
  refine ⟨_, by rw [LockUse.statement, here], ?_⟩
  rw [goto_eq_moved]
  refine ordered.ownerMoves (Or.inl (by omega)) rfl (Or.inl (by omega)) (fun u holds => ?_)
    ⟨one, rfl⟩ (by simp [here]) (by simp)
  cases holds

theorem releaseCount (here : s.point cur = .releaseCount) :
    ∃ s', s.statement cur = .ok s' ∧ s'.Ordered := by
  obtain ⟨one, free⟩ := ordered.fitsAt here
  refine ⟨_, by rw [LockUse.statement, here], ?_⟩
  rw [goto_eq_moved]
  exact ordered.ownerMoves (Or.inl (by omega)) rfl (Or.inl (by omega)) ordered.holder
    ⟨one, free, rfl⟩ (by simp [here]) (by simp)

end Points

theorem statement (ordered : s.Ordered) (runs : s.cpu.runningThread = some cur)
    (shallow : s.depth cur < 2 ^ 32) (inCode : s.point cur ≠ .outside) :
    ∃ s', s.statement cur = .ok s' ∧ s'.Ordered := by
  cases here : s.point cur with
  | outside => exact absurd here inCode
  | acquireTest => exact ordered.acquireTest here
  | acquireAgain => exact ordered.acquireAgain here
  | acquireDown => exact ordered.semaDown runs (Or.inl here)
  | acquireRetest => exact ordered.semaDown runs (Or.inr here)
  | acquireHolder => exact ordered.acquireHolder here
  | acquireAssert => exact ordered.acquireAssert here
  | acquireCount => exact ordered.acquireCount here
  | releaseAssert => exact ordered.releaseAssert here
  | releaseTest => exact ordered.releaseTest shallow here
  | releaseAgain => exact ordered.releaseAgain here
  | releaseLast => exact ordered.releaseLast here
  | releaseHolder => exact ordered.releaseHolder here
  | releaseCount => exact ordered.releaseCount here
  | releaseUp => exact ordered.semaUp here

/-- A thread that stands in its own code calls one of the two functions. -/
theorem enter (ordered : s.Ordered) (outside : s.point cur = .outside)
    (fits : point.Fits s.plock cur (s.depth cur)) (before : point.owns = false)
    (after : point ≠ .acquireRetest) : (s.goto cur point).Ordered := by
  have owner : s.Owns cur ↔ 0 < s.depth cur := by simp [Owns, outside, LockPoint.owns]
  rw [goto_eq_moved_self]
  refine ordered.moved rfl ?_ (Or.inr rfl) ordered.holder fits (by simp [outside]) after
  rw [owner, before]
  simp

/-- One step: it goes through and keeps the invariant, or it is not one the threads can
take. -/
theorem step (ordered : s.Ordered) (shallow : ∀ t, s.depth t < 2 ^ 32) (a : LockAction) :
    (∃ s', s.step a = .ok s' ∧ s'.Ordered) ∨ s.step a = .error .disabled := by
  cases runs : s.cpu.runningThread with
  | none =>
      cases a with
      | dispatch next =>
          cases ran : s.cpu.dispatch next with
          | error reason =>
              right
              simp only [LockUse.step, runs, ran, error_bind]
              unfold Cpu.dispatch at ran
              split at ran
              next => cases ran
              next => rw [← Except.error.inj ran]
          | ok cpu =>
              obtain ⟨-, inList, rfl⟩ := Cpu.dispatch_eq_ok ran
              have ready := (ordered.cpu.ready next).mp inList
              refine Or.inl ⟨{ s with cpu := s.cpu.switchTo next }, ?_, ?_⟩
              · simp [LockUse.step, runs, ran]
              · refine ordered.setCpu (ordered.cpu.switchTo runs) fun t _ => ?_
                rw [Cpu.switchTo_status]
                split
                next same => simp [same, ready]
                next => exact Iff.rfl
      | _ => exact Or.inr (by simp [LockUse.step, runs])
  | some cur =>
      have status := (ordered.cpu.running cur).mp runs
      have fits := ordered.fits cur
      cases a with
      | dispatch next => exact Or.inr (by simp [LockUse.step, runs])
      | preempt =>
          by_cases off : s.point cur = .acquireRetest
          · exact Or.inr (by simp [LockUse.step, runs, off])
          · refine Or.inl ⟨{ s with cpu := s.cpu.putBack cur }, ?_, ?_⟩
            · simp [LockUse.step, runs, off, ordered.cpu.preempt_eq runs]
            · refine ordered.setCpu (ordered.cpu.putBack runs) fun t _ => ?_
              rw [Cpu.putBack_status]
              split
              next same => simp [same, status]
              next => exact Iff.rfl
      | lockAcquire =>
          by_cases outside : s.point cur = .outside
          · rw [outside] at fits
            refine Or.inl ⟨s.goto cur .acquireTest, by simp [LockUse.step, runs, outside], ?_⟩
            exact ordered.enter outside fits rfl (by decide)
          · exact Or.inr (by simp [LockUse.step, runs, outside])
      | lockRelease =>
          by_cases inside : s.point cur = .outside ∧ 0 < s.depth cur
          · rw [inside.1] at fits
            refine Or.inl ⟨s.goto cur .releaseAssert, by simp [LockUse.step, runs, inside], ?_⟩
            exact ordered.enter inside.1 ⟨inside.2, fits inside.2⟩ rfl (by decide)
          · right
            simp only [LockUse.step, runs, if_neg inside]
      | statement =>
          by_cases outside : s.point cur = .outside
          · exact Or.inr (by simp [LockUse.step, runs, LockUse.statement, outside])
          · left
            simpa [LockUse.step, runs] using ordered.statement runs (shallow cur) outside
      | threadBlock =>
          by_cases outside : s.point cur = .outside
          · refine Or.inl ⟨{ s with cpu := s.cpu.sleep cur }, ?_, ?_⟩
            · simp [LockUse.step, runs, outside, Cpu.threadBlock_eq runs]
            · refine ordered.setCpu (ordered.cpu.sleep runs) fun t testing => ?_
              have other : t ≠ cur := by
                rintro rfl
                rw [outside] at testing
                cases testing
              simp [other]
          · exact Or.inr (by simp [LockUse.step, runs, outside])
      | threadUnblock t =>
          by_cases apart : s.point cur = .outside ∧ s.point t = .outside ∧
              s.cpu.status t = .blocked
          · refine Or.inl ⟨{ s with cpu := s.cpu.wake t }, ?_, ?_⟩
            · simp [LockUse.step, runs, apart, ordered.cpu.threadUnblock_eq apart.2.2]
            · refine ordered.setCpu (ordered.cpu.wake apart.2.2) fun u testing => ?_
              have other : u ≠ t := by
                rintro rfl
                rw [apart.2.1] at testing
                cases testing
              simp [other]
          · right
            simp only [LockUse.step, runs, if_neg apart]

end Ordered

/-- What a lock is for, and what `sema_up` promises to the waiters. -/
structure Safe (s : LockUse) : Prop where
  exclusive : ∀ t u, 0 < s.depth t → 0 < s.depth u → t = u
  binary : s.plock.semaphore.value = 0 ∨ s.plock.semaphore.value = 1
  taken : ∀ t, 0 < s.depth t → s.plock.semaphore.value = 0
  onceWaiting : s.plock.semaphore.waiters.Nodup
  asleep : ∀ t ∈ s.plock.semaphore.waiters, s.cpu.status t = .blocked
  woken : s.plock.semaphore.waiters ≠ [] → s.plock.semaphore.value = 1 →
    ∃ t, s.point t = .acquireRetest ∧ s.cpu.status t ≠ .blocked

theorem Ordered.safe (ordered : s.Ordered) : s.Safe where
  exclusive t u insideT insideU := ordered.exclusive t u (Or.inl insideT) (Or.inl insideU)
  binary := ordered.waits.binary
  taken t inside := ordered.taken t (Or.inl inside)
  onceWaiting := ordered.waits.nodup
  asleep t waiting := ((ordered.waits.mem t).mp waiting).2
  woken some one := ordered.waits.woken one some

/-- A statement changes no point and no depth but those of the thread, and adds at most one to
the depth. -/
theorem statement_moves (ran : s.statement cur = .ok s') :
    ∃ point, ∃ depth ≤ s.depth cur + 1, s'.point = Function.update s.point cur point ∧
      s'.depth = Function.update s.depth cur depth := by
  have goes : ∀ {r : LockUse} {point : LockPoint},
      r.point = Function.update s.point cur point → r.depth = s.depth →
      ∃ point, ∃ depth ≤ s.depth cur + 1, r.point = Function.update s.point cur point ∧
        r.depth = Function.update s.depth cur depth :=
    fun moved same => ⟨_, s.depth cur, by omega, moved, by rw [same, Function.update_eq_self]⟩
  unfold LockUse.statement at ran
  split at ran
  next => cases ran
  next =>
    split at ran
    · rw [← Except.ok.inj ran]
      exact goes rfl rfl
    · rw [← Except.ok.inj ran]
      exact goes rfl rfl
  next =>
    rw [← Except.ok.inj ran]
    exact ⟨_, s.depth cur + 1, Nat.le_refl _, rfl, rfl⟩
  next =>
    obtain ⟨_, -, ran⟩ := except_bind_eq_ok.mp ran
    rw [← Except.ok.inj ran]
    exact goes rfl rfl
  next =>
    obtain ⟨_, -, ran⟩ := except_bind_eq_ok.mp ran
    rw [← Except.ok.inj ran]
    exact goes rfl rfl
  next =>
    rw [← Except.ok.inj ran]
    exact goes rfl rfl
  next =>
    obtain ⟨_, -, ran⟩ := except_bind_eq_ok.mp ran
    rw [← Except.ok.inj ran]
    exact goes rfl rfl
  next =>
    rw [← Except.ok.inj ran]
    exact ⟨_, s.depth cur + 1, Nat.le_refl _, rfl, rfl⟩
  next =>
    obtain ⟨_, -, ran⟩ := except_bind_eq_ok.mp ran
    rw [← Except.ok.inj ran]
    exact goes rfl rfl
  next =>
    split at ran
    · rw [← Except.ok.inj ran]
      exact goes rfl rfl
    · rw [← Except.ok.inj ran]
      exact goes rfl rfl
  next =>
    rw [← Except.ok.inj ran]
    exact ⟨_, s.depth cur - 1, by omega, rfl, rfl⟩
  next =>
    obtain ⟨_, -, ran⟩ := except_bind_eq_ok.mp ran
    rw [← Except.ok.inj ran]
    exact goes rfl rfl
  next =>
    rw [← Except.ok.inj ran]
    exact goes rfl rfl
  next =>
    rw [← Except.ok.inj ran]
    exact goes rfl rfl
  next =>
    obtain ⟨_, -, ran⟩ := except_bind_eq_ok.mp ran
    rw [← Except.ok.inj ran]
    exact ⟨_, s.depth cur - 1, by omega, rfl, rfl⟩

/-- A step changes at most the point and the depth of the running thread, and adds at most one
to the depth. -/
theorem step_moves {a : LockAction} (ran : s.step a = .ok s') (t : Tid) :
    s'.depth t ≤ s.depth t + 1 ∧
      (s.cpu.runningThread ≠ some t → s'.point t = s.point t ∧ s'.depth t = s.depth t) := by
  have stays : ∀ {r : LockUse}, r.point = s.point → r.depth = s.depth →
      r.depth t ≤ s.depth t + 1 ∧
        (s.cpu.runningThread ≠ some t → r.point t = s.point t ∧ r.depth t = s.depth t) := by
    intro r samePoint sameDepth
    rw [samePoint, sameDepth]
    exact ⟨by omega, fun _ => ⟨rfl, rfl⟩⟩
  have goes : ∀ {r : LockUse} {cur : Tid} {point : LockPoint},
      s.cpu.runningThread = some cur → r.point = Function.update s.point cur point →
      r.depth = s.depth → r.depth t ≤ s.depth t + 1 ∧
        (s.cpu.runningThread ≠ some t → r.point t = s.point t ∧ r.depth t = s.depth t) := by
    intro r cur point runs moved sameDepth
    rw [moved, sameDepth]
    refine ⟨by omega, fun other => ⟨Function.update_of_ne ?_ _ _, rfl⟩⟩
    rintro rfl
    exact other runs
  unfold LockUse.step at ran
  split at ran
  next =>
    obtain ⟨_, -, ran⟩ := except_bind_eq_ok.mp ran
    rw [← Except.ok.inj ran]
    exact stays rfl rfl
  next =>
    split at ran
    · cases ran
    · obtain ⟨_, -, ran⟩ := except_bind_eq_ok.mp ran
      rw [← Except.ok.inj ran]
      exact stays rfl rfl
  next runs =>
    split at ran
    · rw [← Except.ok.inj ran]
      exact goes runs rfl rfl
    · cases ran
  next runs =>
    split at ran
    · rw [← Except.ok.inj ran]
      exact goes runs rfl rfl
    · cases ran
  next cur runs =>
    obtain ⟨point, depth, bound, samePoint, sameDepth⟩ := statement_moves ran
    rw [samePoint, sameDepth]
    by_cases here : t = cur
    · subst here
      exact ⟨by simpa using bound, fun other => absurd runs other⟩
    · rw [Function.update_of_ne here, Function.update_of_ne here]
      exact ⟨by omega, fun _ => ⟨rfl, rfl⟩⟩
  next =>
    split at ran
    · obtain ⟨_, -, ran⟩ := except_bind_eq_ok.mp ran
      rw [← Except.ok.inj ran]
      exact stays rfl rfl
    · cases ran
  next =>
    split at ran
    · obtain ⟨_, -, ran⟩ := except_bind_eq_ok.mp ran
      rw [← Except.ok.inj ran]
      exact stays rfl rfl
    · cases ran
  next => cases ran

/-- No thread nests its calls deeper than the run is long. -/
theorem depth_le_length {actions : List LockAction} {states : List LockUse}
    (ran : trace LockUse.step s actions = .ok states) :
    ∀ s' ∈ s :: states, ∀ t, s'.depth t ≤ s.depth t + actions.length := by
  induction actions generalizing s states with
  | nil =>
      simp only [trace_nil, Except.ok.injEq] at ran
      subst ran
      simp
  | cons a rest inductionHypothesis =>
      obtain ⟨next, tail, stepped, restRan, rfl⟩ := trace_cons_eq_ok.mp ran
      intro s' membership t
      rcases List.mem_cons.mp membership with rfl | later
      · omega
      · have bound := inductionHypothesis restRan s' later t
        have first := (step_moves stepped t).1
        rw [List.length_cons]
        omega

/-- Every run in which no thread nests `2 ^ 32` calls is safe, and no assertion stops
it. -/
theorem lock_safe {threads : List Tid} (nodup : threads.Nodup) {actions : List LockAction}
    {states : List LockUse}
    (ran : trace LockUse.step (start threads) actions = .ok states)
    (shallow : ∀ s ∈ start threads :: states, ∀ t, s.depth t < 2 ^ 32) :
    ∀ s ∈ start threads :: states,
      s.Safe ∧ ∀ a fn, s.step a ≠ .error (.panic fn) := by
  have ordered : ∀ s ∈ start threads :: states, s.Ordered := by
    refine invariant_of_guarded_trace ?_ (start_ordered nodup) ran shallow
    intro s a s' ordered shallow stepped
    rcases ordered.step shallow a with ⟨next, went, kept⟩ | disabled
    · rw [went] at stepped
      rwa [← Except.ok.inj stepped]
    · rw [disabled] at stepped
      cases stepped
  intro s membership
  refine ⟨(ordered s membership).safe, fun a fn panics => ?_⟩
  rcases (ordered s membership).step (shallow s membership) a with ⟨next, went, -⟩ | disabled
  · rw [went] at panics
    cases panics
  · rw [disabled] at panics
    cases panics

/-- Thread 1 takes the lock and is preempted; thread 2 goes to sleep on it. -/
def contended : List LockAction :=
  [.dispatch 1, .lockAcquire, .statement, .statement, .statement, .statement, .statement,
    .preempt, .dispatch 2, .lockAcquire, .statement, .statement, .dispatch 1, .lockRelease,
    .statement, .statement, .statement, .statement, .statement, .statement]

theorem lock_safe_contended : ∃ states,
    trace LockUse.step (start [1, 2]) contended = .ok states ∧
      ∀ s ∈ start [1, 2] :: states, s.Safe ∧ ∀ a fn, s.step a ≠ .error (.panic fn) := by
  have returns : (trace LockUse.step (start [1, 2]) contended).toOption.isSome := by
    decide +kernel
  cases ran : trace LockUse.step (start [1, 2]) contended with
  | error reason =>
      rw [ran] at returns
      cases returns
  | ok states =>
      refine ⟨states, rfl, lock_safe (by decide) ran fun s membership t => ?_⟩
      have bound := depth_le_length ran s membership t
      have short : contended.length < 2 ^ 32 := by decide
      have zero : (start [1, 2]).depth t = 0 := rfl
      omega

/-- A thread inside the lock that has nothing else to do than to call its functions. -/
structure Inside (s : LockUse) (t : Tid) : Prop where
  runs : s.cpu.runningThread = some t
  outside : s.point t = .outside
  holder : s.plock.holder = some t
  inside : 0 < s.depth t

theorem Inside.acquireAgain (here : s.Inside t) : ∃ s₁ s₂ s₃,
    trace LockUse.step s [.lockAcquire, .statement, .statement] = .ok [s₁, s₂, s₃] ∧
      s₃.Inside t ∧ s₃.plock.holderRepeatNr = s.plock.holderRepeatNr + 1 := by
  refine ⟨s.goto t .acquireTest, (s.goto t .acquireTest).goto t .acquireAgain,
    (((s.goto t .acquireTest).goto t .acquireAgain).setLock
      { s.plock with holderRepeatNr := s.plock.holderRepeatNr + 1 }).leave t (s.depth t + 1),
    ?_, ⟨here.runs, ?_, here.holder, ?_⟩, rfl⟩
  · simp [trace, LockUse.step, here.runs, here.outside, here.holder, LockUse.statement, goto]
  · simp [leave]
  · simp [leave]

/-- When the count has come to 0, the next release ends in the assertion. -/
theorem Inside.release_panics (here : s.Inside t) (wrapped : s.plock.holderRepeatNr = 0) :
    ∃ s₁ s₂ s₃, trace LockUse.step s [.lockRelease, .statement, .statement] =
        .ok [s₁, s₂, s₃] ∧ s₃.step .statement = .error (.panic .lockRelease) := by
  refine ⟨s.goto t .releaseAssert, (s.goto t .releaseAssert).goto t .releaseTest,
    ((s.goto t .releaseAssert).goto t .releaseTest).goto t .releaseLast, ?_, ?_⟩
  · simp [trace, LockUse.step, here.runs, here.outside, here.holder, here.inside,
      LockUse.statement, goto, wrapped]
  · simp [LockUse.step, here.runs, LockUse.statement, goto, wrapped, check]

/-- `left` more nested calls and the count is 0. -/
theorem Inside.reaches_panic (here : s.Inside t) {left : Nat}
    (wraps : s.plock.holderRepeatNr + UInt32.ofNat left = 0) : ∃ actions states,
    trace LockUse.step s actions = .ok states ∧
      ∃ s' ∈ s :: states, s'.step .statement = .error (.panic .lockRelease) := by
  induction left generalizing s with
  | zero =>
      have wrapped : s.plock.holderRepeatNr = 0 := by simpa using wraps
      obtain ⟨s₁, s₂, s₃, ran, panics⟩ := here.release_panics wrapped
      exact ⟨_, _, ran, s₃, by simp, panics⟩
  | succ left inductionHypothesis =>
      obtain ⟨s₁, s₂, s₃, ran, next, count⟩ := here.acquireAgain
      have rest : s₃.plock.holderRepeatNr + UInt32.ofNat left = 0 := by
        rw [count, UInt32.add_assoc, UInt32.add_comm 1, ← wraps, UInt32.ofNat_add]
        rfl
      obtain ⟨actions, states, goesOn, s', membership, panics⟩ := inductionHypothesis next rest
      refine ⟨_, _, trace_append ran goesOn, s', ?_, panics⟩
      rcases List.mem_cons.mp membership with rfl | later
      · simp
      · simp [later]

/-- A single thread nests `2 ^ 32` calls and then releases the lock. -/
theorem lock_count_wraps : ∃ actions states,
    trace LockUse.step (start [1]) actions = .ok states ∧
      ∃ s ∈ start [1] :: states, s.step .statement = .error (.panic .lockRelease) := by
  have ran : ∃ s₁ s₂ s₃ s₄ s₅ s₆ s₇, trace LockUse.step (start [1]) [.dispatch 1, .lockAcquire,
      .statement, .statement, .statement, .statement, .statement] =
        .ok [s₁, s₂, s₃, s₄, s₅, s₆, s₇] ∧ s₇.Inside 1 ∧ s₇.plock.holderRepeatNr = 1 :=
    ⟨_, _, _, _, _, _, _, rfl, ⟨rfl, rfl, rfl, by decide⟩, rfl⟩
  obtain ⟨s₁, s₂, s₃, s₄, s₅, s₆, s₇, ran, here, count⟩ := ran
  have wraps : s₇.plock.holderRepeatNr + UInt32.ofNat (2 ^ 32 - 1) = 0 := by
    rw [count]
    rfl
  obtain ⟨actions, states, goesOn, s, membership, panics⟩ := here.reaches_panic wraps
  refine ⟨_, _, trace_append ran goesOn, s, ?_, panics⟩
  rcases List.mem_cons.mp membership with rfl | later
  · simp
  · simp [later]

end LockUse

end HongbaiOS.Thread
