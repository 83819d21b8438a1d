import HongbaiOS.Device.Channel
import HongbaiOS.Thread.Effects

/-!
# The handshake with the disk

At most one thread has a command out; `expecting_intr` and `disk_done` say whether its
interrupt has come, and it passes `sema_down` once for it.
-/

namespace HongbaiOS.Device

open HongbaiOS.Library HongbaiOS.Kernel HongbaiOS.Thread

/-- Points between the `sema_down` of `lock_acquire` and the `sema_up` of `lock_release`. -/
def IdePoint.owns : IdePoint → Bool
  | .outside | .assertLba | .assertCnt | .acquireTest | .acquireAgain | .acquireDown => false
  | _ => true

/-- Points between `expecting_intr = true` and the return of `sema_down(&disk_done)`. -/
def IdePoint.awaits (write : Bool) : IdePoint → Bool
  | .cmdOut | .semaDown => true
  | .busyWait | .busyTest | .busyReady | .sleepTest | .transfer => write
  | _ => false

/-- What the fields of the lock are for a thread that stands at a point. -/
def IdePoint.Fits (holder : Option Tid) (holderRepeatNr : UInt32) (t : Tid) : IdePoint → Prop
  | .outside | .assertLba | .assertCnt | .acquireTest | .acquireDown => True
  | .acquireAgain | .releaseAgain => False
  | .acquireHolder => holderRepeatNr = 0
  | .acquireAssert | .acquireCount => holder = some t ∧ holderRepeatNr = 0
  | .releaseHolder => holderRepeatNr = 1
  | .releaseCount => holder = none
  | .releaseUp => holder = none ∧ holderRepeatNr = 0
  | _ => holder = some t ∧ holderRepeatNr = 1

theorem IdePoint.Fits.of_not_owns {holder holder' : Option Tid} {nr nr' : UInt32} {t : Tid}
    {point : IdePoint} (fits : point.Fits holder nr t) (outside : point.owns = false) :
    point.Fits holder' nr' t := by
  cases point <;> simp [Fits, owns] at fits outside ⊢

/-- The two points differ neither in the lock nor in the handshake. -/
structure IdePoint.Beside (before point : IdePoint) (write : Bool) : Prop where
  owns : point.owns = before.owns
  awaits : point.awaits write = before.awaits write
  notCmd : point ≠ .cmdOut ∧ before ≠ .cmdOut

namespace IdeUse

/-- The thread has the lock of the channel. -/
def Owns (s : IdeUse) (t : Tid) : Prop := (s.point t).owns = true

/-- The thread has said that it expects an interrupt, and `sema_down` has not let it through. -/
def Awaits (s : IdeUse) (t : Tid) : Prop := (s.point t).awaits (s.call t).write = true

/-- The thread has sent a command that `sema_down` has not let it through for. -/
def Outstanding (s : IdeUse) (t : Tid) : Prop := s.Awaits t ∧ s.point t ≠ .cmdOut

instance (s : IdeUse) (t : Tid) : Decidable (s.Outstanding t) :=
  inferInstanceAs (Decidable (_ = true ∧ _ ≠ _))

/-- `expecting_intr` and the value of `disk_done` before and after the interrupt. -/
def Armed (s : IdeUse) : Prop :=
  s.expectingIntr = true ∧ (s.sched.sema diskDone).value = 0 ∨
    s.expectingIntr = false ∧ (s.sched.sema diskDone).value = 1

/-- The lock of the channel does its work. -/
structure LockSound (s : IdeUse) : Prop where
  frames : ∀ t oldStatus, s.sched.suspended t = some (.inDown lockSema oldStatus) →
    s.point t = .acquireDown
  exclusive : ∀ t u, s.Owns t → s.Owns u → t = u
  binary : (s.sched.sema lockSema).value ≤ 1
  taken : ∀ t, s.Owns t → (s.sched.sema lockSema).value = 0
  unused : (s.sched.sema lockSema).value = 1 → s.holderRepeatNr = 0
  holder : ∀ t, s.holder = some t → s.Owns t
  fits : ∀ t, (s.point t).Fits s.holder s.holderRepeatNr t

/-- `expecting_intr` and `disk_done` agree with where the threads are. -/
structure DoneSound (s : IdeUse) : Prop where
  frames : ∀ t oldStatus, s.sched.suspended t = some (.inDown diskDone oldStatus) →
    s.point t = .semaDown
  armed : ∀ t, s.Awaits t → s.Armed
  quiet : (∀ t, ¬ s.Awaits t) →
    s.expectingIntr = false ∧ (s.sched.sema diskDone).value = 0
  issued : ∀ t, s.issued t = s.passed t + if s.Outstanding t then 1 else 0
  answers : s.answers = s.downs + (s.sched.sema diskDone).value

structure Sound (s : IdeUse) : Prop where
  steady : Steady s.sched
  irqNo : s.irqNo = 0x2e ∨ s.irqNo = 0x2f
  lock : s.LockSound
  done : s.DoneSound

theorem start_sound {mainThread idleThread : Tid} (different : mainThread ≠ idleThread)
    (value : SemaId → Nat) (channelNo : Fin 2) :
    (start mainThread idleThread value channelNo).Sound := by
  have nobody : ∀ t, ¬ (start mainThread idleThread value channelNo).Awaits t := by
    simp [start, Awaits, IdePoint.awaits]
  refine ⟨threadInit_steady different _, ?_, ⟨?_, ?_, ?_, ?_, ?_, ?_, ?_⟩, ⟨?_, ?_, ?_, ?_, ?_⟩⟩
  · simp only [start]
    split
    · exact .inl rfl
    · exact .inr rfl
  · intro t oldStatus frame
    by_cases same : t = idleThread <;> simp [start, threadInit, same] at frame
  · intro t u owns
    simp [start, Owns, IdePoint.owns] at owns
  · simp [start, threadInit, semaInit]
  · intro t owns
    simp [start, Owns, IdePoint.owns] at owns
  · exact fun _ => rfl
  · intro t holds
    cases holds
  · intro t
    simp [start, IdePoint.Fits]
  · intro t oldStatus frame
    by_cases same : t = idleThread <;> simp [start, threadInit, same] at frame
  · exact fun t awaits => absurd awaits (nobody t)
  · exact fun _ => ⟨rfl, by simp [start, threadInit, semaInit, lockSema, diskDone]⟩
  · intro t
    simp [start, Outstanding, Awaits, IdePoint.awaits]
  · simp [start, threadInit, semaInit, lockSema, diskDone]

variable {s s' : IdeUse} {cur : Tid} {before point : IdePoint}

theorem Awaits.owns {t : Tid} (awaits : s.Awaits t) : s.Owns t := by
  unfold Awaits IdePoint.awaits at awaits
  unfold Owns
  cases here : s.point t <;> simp [here, IdePoint.owns] at awaits ⊢

/-- A thread moves on, and the semaphore `k` is not involved. -/
structure Moves (s s' : IdeUse) (cur : Tid) (k : SemaId) (point : IdePoint) : Prop where
  points : s'.point = Function.update s.point cur point
  frames : ∀ t oldStatus, s'.sched.suspended t = some (.inDown k oldStatus) →
    t ≠ cur ∧ s.sched.suspended t = some (.inDown k oldStatus)
  value : (s'.sched.sema k).value = (s.sched.sema k).value

namespace LockSound

theorem moves (sound : s.LockSound) (moves : Moves s s' cur lockSema point)
    (sameOwner : point.owns = (s.point cur).owns)
    (byOwner : s.Owns cur ∨ s'.holder = s.holder ∧ s'.holderRepeatNr = s.holderRepeatNr)
    (holds : ∀ u, s'.holder = some u → s.Owns u)
    (fits : point.Fits s'.holder s'.holderRepeatNr cur) : s'.LockSound := by
  obtain ⟨points, frames, value⟩ := moves
  have owns : ∀ u, s'.Owns u ↔ s.Owns u := by
    intro u
    by_cases same : u = cur
    · subst same
      simp [Owns, points, sameOwner]
    · simp [Owns, points, same]
  refine ⟨?_, ?_, value.trans_le sound.binary, ?_, ?_, ?_, ?_⟩
  · intro t oldStatus frame
    obtain ⟨different, before⟩ := frames t oldStatus frame
    simpa [points, different] using sound.frames t oldStatus before
  · exact fun t u ownsT ownsU => sound.exclusive t u ((owns t).mp ownsT) ((owns u).mp ownsU)
  · exact fun t ownsT => value.trans (sound.taken t ((owns t).mp ownsT))
  · intro one
    rw [value] at one
    rcases byOwner with owner | ⟨-, sameCount⟩
    · rw [sound.taken cur owner] at one
      cases one
    · exact sameCount.trans (sound.unused one)
  · exact fun u holdsU => (owns u).mpr (holds u holdsU)
  · intro u
    by_cases same : u = cur
    · subst same
      simpa [points] using fits
    · simp only [points, Function.update_of_ne same]
      rcases byOwner with owner | ⟨sameHolder, sameCount⟩
      · refine (sound.fits u).of_not_owns ?_
        by_contra alsoOwns
        rw [Bool.not_eq_false] at alsoOwns
        exact same (sound.exclusive u cur alsoOwns owner)
      · rw [sameHolder, sameCount]
        exact sound.fits u

theorem setSched (sound : s.LockSound) {sched : Sched}
    (value : (sched.sema lockSema).value = (s.sched.sema lockSema).value)
    (frames : ∀ t oldStatus, sched.suspended t = some (.inDown lockSema oldStatus) →
      s.point t = .acquireDown) : (s.setSched sched).LockSound :=
  ⟨frames, sound.exclusive, value.trans_le sound.binary,
    fun t owns => value.trans (sound.taken t owns),
    fun one => sound.unused (value.symm.trans one), sound.holder, sound.fits⟩

theorem takes (sound : s.LockSound) (one : (s.sched.sema lockSema).value = 1)
    (points : s'.point = Function.update s.point cur .acquireHolder)
    (frames : ∀ t oldStatus, s'.sched.suspended t = some (.inDown lockSema oldStatus) →
      t ≠ cur ∧ s.sched.suspended t = some (.inDown lockSema oldStatus))
    (taken : (s'.sched.sema lockSema).value = 0) (sameHolder : s'.holder = s.holder)
    (sameCount : s'.holderRepeatNr = s.holderRepeatNr) : s'.LockSound := by
  have nobody : ∀ t, ¬ s.Owns t := by
    intro t owns
    rw [sound.taken t owns] at one
    cases one
  have owns : ∀ t, s'.Owns t → t = cur := by
    intro t owns
    by_contra other
    exact nobody t (by simpa [Owns, points, other] using owns)
  refine ⟨?_, ?_, taken.trans_le (Nat.zero_le 1), fun _ _ => taken, ?_, ?_, ?_⟩
  · intro t oldStatus frame
    obtain ⟨different, before⟩ := frames t oldStatus frame
    simpa [points, different] using sound.frames t oldStatus before
  · exact fun t u ownsT ownsU => (owns t ownsT).trans (owns u ownsU).symm
  · intro impossible
    rw [taken] at impossible
    cases impossible
  · intro t holds
    rw [sameHolder] at holds
    exact absurd (sound.holder t holds) (nobody t)
  · intro t
    by_cases same : t = cur
    · subst same
      simpa [points, sameCount, IdePoint.Fits] using sound.unused one
    · simpa [points, same, sameHolder, sameCount] using sound.fits t

theorem gives (sound : s.LockSound) (here : s.point cur = .releaseUp)
    (points : s'.point = Function.update s.point cur .outside)
    (frames : ∀ t oldStatus, s'.sched.suspended t = some (.inDown lockSema oldStatus) →
      t ≠ cur ∧ s.sched.suspended t = some (.inDown lockSema oldStatus))
    (one : (s'.sched.sema lockSema).value = 1) (sameHolder : s'.holder = s.holder)
    (sameCount : s'.holderRepeatNr = s.holderRepeatNr) : s'.LockSound := by
  have owner : s.Owns cur := by simp [Owns, here, IdePoint.owns]
  have fits := sound.fits cur
  rw [here] at fits
  have others : ∀ t, t ≠ cur → ¬ s.Owns t := fun t other owns =>
    other (sound.exclusive t cur owns owner)
  have nobody : ∀ t, ¬ s'.Owns t := by
    intro t
    by_cases same : t = cur
    · subst same
      simp [Owns, points, IdePoint.owns]
    · simpa [Owns, points, same] using others t same
  refine ⟨?_, ?_, one.le, ?_, ?_, ?_, ?_⟩
  · intro t oldStatus frame
    obtain ⟨different, before⟩ := frames t oldStatus frame
    simpa [points, different] using sound.frames t oldStatus before
  · exact fun t u owns => absurd owns (nobody t)
  · exact fun t owns => absurd owns (nobody t)
  · exact fun _ => sameCount.trans fits.2
  · intro t holds
    rw [sameHolder, fits.1] at holds
    cases holds
  · intro t
    by_cases same : t = cur
    · subst same
      simp [points, IdePoint.Fits]
    · simp only [points, Function.update_of_ne same]
      exact (sound.fits t).of_not_owns (by simpa [Owns] using others t same)

end LockSound

namespace DoneSound

theorem expecting_zero (sound : s.DoneSound) (expects : s.expectingIntr = true) :
    (s.sched.sema diskDone).value = 0 := by
  by_cases nobody : ∀ t, ¬ s.Awaits t
  · have quiet := (sound.quiet nobody).1
    rw [expects] at quiet
    cases quiet
  · rw [not_forall_not] at nobody
    obtain ⟨t, awaits⟩ := nobody
    rcases sound.armed t awaits with before | after
    · exact before.2
    · rw [expects] at after
      cases after.1

theorem le_one (sound : s.DoneSound) : (s.sched.sema diskDone).value ≤ 1 := by
  by_cases nobody : ∀ t, ¬ s.Awaits t
  · rw [(sound.quiet nobody).2]
    exact Nat.zero_le 1
  · rw [not_forall_not] at nobody
    obtain ⟨t, awaits⟩ := nobody
    rcases sound.armed t awaits with before | after
    · omega
    · omega

/-- The counters and the flag stay as they are. -/
structure Same (s s' : IdeUse) : Prop where
  expectingIntr : s'.expectingIntr = s.expectingIntr
  issued : s'.issued = s.issued
  passed : s'.passed = s.passed
  downs : s'.downs = s.downs
  answers : s'.answers = s.answers

/-- A thread moves on, and its part in the handshake stays the same. -/
theorem moves (sound : s.DoneSound) (moves : Moves s s' cur diskDone point) (same : Same s s')
    (calls : ∀ t, t ≠ cur → s'.call t = s.call t)
    (sameAwaits : point.awaits (s'.call cur).write = (s.point cur).awaits (s.call cur).write)
    (sameCmd : point = .cmdOut ↔ s.point cur = .cmdOut) : s'.DoneSound := by
  obtain ⟨points, frames, value⟩ := moves
  have awaits : ∀ u, s'.Awaits u ↔ s.Awaits u := by
    intro u
    by_cases same : u = cur
    · subst same
      simp [Awaits, points, sameAwaits]
    · simp [Awaits, points, calls u same, same]
  have outstanding : ∀ u, s'.Outstanding u ↔ s.Outstanding u := by
    intro u
    unfold Outstanding
    rw [awaits]
    by_cases same : u = cur
    · subst same
      simp [points, sameCmd]
    · simp [points, same]
  refine ⟨?_, ?_, ?_, ?_, ?_⟩
  · intro t oldStatus frame
    obtain ⟨different, before⟩ := frames t oldStatus frame
    simpa [points, different] using sound.frames t oldStatus before
  · intro t waits
    unfold Armed
    rw [same.expectingIntr, value]
    exact sound.armed t ((awaits t).mp waits)
  · intro nobody
    rw [same.expectingIntr, value]
    exact sound.quiet fun t waits => nobody t ((awaits t).mpr waits)
  · intro t
    rw [if_congr (outstanding t) rfl rfl, same.issued, same.passed]
    exact sound.issued t
  · rw [same.answers, same.downs, value]
    exact sound.answers

theorem setSched (sound : s.DoneSound) {sched : Sched}
    (value : (sched.sema diskDone).value = (s.sched.sema diskDone).value)
    (frames : ∀ t oldStatus, sched.suspended t = some (.inDown diskDone oldStatus) →
      s.point t = .semaDown) : (s.setSched sched).DoneSound := by
  refine ⟨frames, fun t awaits => ?_, fun nobody => ?_, sound.issued, ?_⟩
  · have armed := sound.armed t awaits
    unfold Armed at armed ⊢
    change s.expectingIntr = true ∧ (sched.sema diskDone).value = 0 ∨
      s.expectingIntr = false ∧ (sched.sema diskDone).value = 1
    rwa [value]
  · exact ⟨(sound.quiet nobody).1, value.trans (sound.quiet nobody).2⟩
  · exact sound.answers.trans (congrArg (s.downs + ·) value.symm)

theorem expects (sound : s.DoneSound) (nobody : ∀ t, ¬ s.Awaits t)
    (moves : Moves s s' cur diskDone .cmdOut) (expects : s'.expectingIntr = true)
    (calls : s'.call = s.call) (issued : s'.issued = s.issued) (passed : s'.passed = s.passed)
    (downs : s'.downs = s.downs) (answers : s'.answers = s.answers) : s'.DoneSound := by
  obtain ⟨points, frames, value⟩ := moves
  have quiet := sound.quiet nobody
  refine ⟨?_, fun _ _ => .inl ⟨expects, value.trans quiet.2⟩, ?_, ?_, ?_⟩
  · intro t oldStatus frame
    obtain ⟨different, before⟩ := frames t oldStatus frame
    simpa [points, different] using sound.frames t oldStatus before
  · intro none
    exact absurd (show s'.Awaits cur by simp [Awaits, points, IdePoint.awaits]) (none cur)
  · intro t
    have after : ¬ s'.Outstanding t := by
      rintro ⟨awaits, notCmd⟩
      by_cases same : t = cur
      · subst same
        exact notCmd (by simp [points])
      · exact nobody t (by simpa [Awaits, points, calls, same] using awaits)
    have counts := sound.issued t
    rw [if_neg fun out => nobody t out.1] at counts
    rw [if_neg after, issued, passed]
    exact counts
  · rw [answers, downs, value]
    exact sound.answers

/-- The command goes out. -/
theorem sends (sound : s.DoneSound) (here : s.point cur = .cmdOut)
    (moves : Moves s s' cur diskDone point) (awaits : point.awaits (s.call cur).write = true)
    (notCmd : point ≠ .cmdOut) (calls : s'.call = s.call)
    (expecting : s'.expectingIntr = s.expectingIntr)
    (issued : s'.issued = Function.update s.issued cur (s.issued cur + 1))
    (passed : s'.passed = s.passed) (downs : s'.downs = s.downs)
    (answers : s'.answers = s.answers) : s'.DoneSound := by
  obtain ⟨points, frames, value⟩ := moves
  have waited : s.Awaits cur := by simp [Awaits, here, IdePoint.awaits]
  have waits : s'.Awaits cur := by simpa [Awaits, points, calls] using awaits
  have waiting : ∀ t, s'.Awaits t ↔ s.Awaits t := by
    intro t
    by_cases same : t = cur
    · subst same
      exact iff_of_true waits waited
    · simp [Awaits, points, calls, same]
  refine ⟨?_, ?_, ?_, ?_, ?_⟩
  · intro t oldStatus frame
    obtain ⟨different, before⟩ := frames t oldStatus frame
    simpa [points, different] using sound.frames t oldStatus before
  · intro t awaits
    unfold Armed
    rw [expecting, value]
    exact sound.armed t ((waiting t).mp awaits)
  · intro nobody
    rw [expecting, value]
    exact sound.quiet fun t waits => nobody t ((waiting t).mpr waits)
  · intro t
    have counts := sound.issued t
    rw [passed]
    by_cases same : t = cur
    · subst same
      have before : ¬ s.Outstanding t := fun out => out.2 here
      have after : s'.Outstanding t := ⟨waits, by simpa [points] using notCmd⟩
      rw [if_neg before] at counts
      rw [if_pos after, issued, Function.update_self, counts]
    · have iff : s'.Outstanding t ↔ s.Outstanding t := by
        simp [Outstanding, waiting, points, same]
      rw [if_congr iff rfl rfl, issued, Function.update_of_ne same]
      exact counts
  · rw [answers, downs, value]
    exact sound.answers

theorem passes (sound : s.DoneSound) (here : s.point cur = .semaDown)
    (alone : ∀ t, s.Awaits t → t = cur) (one : (s.sched.sema diskDone).value = 1)
    (points : s'.point = Function.update s.point cur point)
    (frames : ∀ t oldStatus, s'.sched.suspended t = some (.inDown diskDone oldStatus) →
      t ≠ cur ∧ s.sched.suspended t = some (.inDown diskDone oldStatus))
    (taken : (s'.sched.sema diskDone).value = 0) (calls : s'.call = s.call)
    (leaves : point.awaits (s.call cur).write = false)
    (expecting : s'.expectingIntr = s.expectingIntr) (issued : s'.issued = s.issued)
    (passed : s'.passed = Function.update s.passed cur (s.passed cur + 1))
    (downs : s'.downs = s.downs + 1) (answers : s'.answers = s.answers) : s'.DoneSound := by
  have waited : s.Awaits cur := by simp [Awaits, here, IdePoint.awaits]
  have nobody : ∀ t, ¬ s'.Awaits t := by
    intro t
    by_cases same : t = cur
    · subst same
      simp [Awaits, points, calls, leaves]
    · intro awaits
      exact same (alone t (by simpa [Awaits, points, calls, same] using awaits))
  have quiet : s.expectingIntr = false := by
    rcases sound.armed cur waited with before | after
    · rw [before.2] at one
      cases one
    · exact after.1
  refine ⟨?_, fun t awaits => absurd awaits (nobody t), fun _ => ⟨expecting.trans quiet, taken⟩,
    ?_, ?_⟩
  · intro t oldStatus frame
    obtain ⟨different, before⟩ := frames t oldStatus frame
    simpa [points, different] using sound.frames t oldStatus before
  · intro t
    have counts := sound.issued t
    rw [if_neg fun out => nobody t out.1, issued, passed]
    by_cases same : t = cur
    · subst same
      rw [if_pos ⟨waited, by simp [here]⟩] at counts
      rw [Function.update_self, counts]
    · rw [if_neg fun out => same (alone t out.1)] at counts
      rw [Function.update_of_ne same]
      exact counts
  · rw [answers, downs, taken, sound.answers, one]

theorem answered (sound : s.DoneSound) (expects : s.expectingIntr = true) {sched : Sched}
    (one : (sched.sema diskDone).value = 1) (frames : sched.suspended = s.sched.suspended) :
    DoneSound { s with sched, expectingIntr := false, answers := s.answers + 1 } := by
  have zero := sound.expecting_zero expects
  refine ⟨?_, fun t _ => .inr ⟨rfl, one⟩, fun nobody => ?_, sound.issued, ?_⟩
  · intro t oldStatus frame
    rw [frames] at frame
    exact sound.frames t oldStatus frame
  · have quiet := (sound.quiet nobody).1
    rw [expects] at quiet
    cases quiet
  · have answers := sound.answers
    change s.answers + 1 = s.downs + (sched.sema diskDone).value
    omega

end DoneSound

namespace Sound

theorem alone (sound : s.Sound) (owner : s.Owns cur) (t : Tid) (awaits : s.Awaits t) : t = cur :=
  sound.lock.exclusive t cur awaits.owns owner

/-- A thread in its own code has no frame. -/
theorem moves_of_own (own : s.sched.suspended cur = none) (sched : s'.sched = s.sched)
    (points : s'.point = Function.update s.point cur point) (k : SemaId) :
    Moves s s' cur k point := by
  refine ⟨points, fun t oldStatus frame => ?_, by rw [sched]⟩
  rw [sched] at frame
  refine ⟨?_, frame⟩
  rintro rfl
  rw [own] at frame
  cases frame

/-- A thread moves on with what only it may change: the lock fields when it has the lock, and
the locals of its call. -/
theorem goto (sound : s.Sound) (own : s.sched.suspended cur = none)
    (sched : s'.sched = s.sched) (irqNo : s'.irqNo = s.irqNo)
    (points : s'.point = Function.update s.point cur point) (same : DoneSound.Same s s')
    (calls : ∀ t, t ≠ cur → s'.call t = s.call t) (sameOwner : point.owns = (s.point cur).owns)
    (byOwner : s.Owns cur ∨ s'.holder = s.holder ∧ s'.holderRepeatNr = s.holderRepeatNr)
    (holds : ∀ u, s'.holder = some u → s.Owns u)
    (fits : point.Fits s'.holder s'.holderRepeatNr cur)
    (sameAwaits : point.awaits (s'.call cur).write = (s.point cur).awaits (s.call cur).write)
    (sameCmd : point = .cmdOut ↔ s.point cur = .cmdOut) : s'.Sound := by
  refine ⟨sched ▸ sound.steady, irqNo ▸ sound.irqNo, ?_, ?_⟩
  · exact sound.lock.moves (moves_of_own own sched points _) sameOwner byOwner holds fits
  · exact sound.done.moves (moves_of_own own sched points _) same calls sameAwaits sameCmd

/-- The scheduler does something that does not concern the channel. -/
theorem untouched (sound : s.Sound) {sched : Sched} (steady : Steady sched)
    (lock : Untouched lockSema s.sched sched) (done : Untouched diskDone s.sched sched) :
    (s.setSched sched).Sound where
  steady := steady
  irqNo := sound.irqNo
  lock := sound.lock.setSched lock.value fun t oldStatus frame =>
    sound.lock.frames t oldStatus (lock.frames t oldStatus frame)
  done := sound.done.setSched done.value fun t oldStatus frame =>
    sound.done.frames t oldStatus (done.frames t oldStatus frame)

/-- The running thread goes to sleep on one of the two semaphores. -/
theorem sleeps (sound : s.Sound) {sched : Sched} {k : SemaId} {oldStatus : Bool}
    (steady : Steady sched) (values : ∀ j, (sched.sema j).value = (s.sched.sema j).value)
    (frames : sched.suspended =
      Function.update s.sched.suspended cur (some (.inDown k oldStatus)))
    (lock : k = lockSema → s.point cur = .acquireDown)
    (done : k = diskDone → s.point cur = .semaDown) : (s.setSched sched).Sound := by
  have cases {j : SemaId} {t : Tid} {old : Bool}
      (frame : sched.suspended t = some (.inDown j old)) :
      t = cur ∧ k = j ∨ s.sched.suspended t = some (.inDown j old) := by
    rw [frames] at frame
    by_cases same : t = cur
    · subst same
      simp only [Function.update_self, Option.some.injEq, Suspended.inDown.injEq] at frame
      exact .inl ⟨rfl, frame.1⟩
    · rw [Function.update_of_ne same] at frame
      exact .inr frame
  refine ⟨steady, sound.irqNo, sound.lock.setSched (values _) fun t old frame => ?_,
    sound.done.setSched (values _) fun t old frame => ?_⟩
  · rcases cases frame with ⟨rfl, isLock⟩ | before
    · exact lock isLock
    · exact sound.lock.frames t old before
  · rcases cases frame with ⟨rfl, isDone⟩ | before
    · exact done isDone
    · exact sound.done.frames t old before

theorem frame_of_update {sched : Sched} {t : Tid} {frame : Suspended}
    (frames : sched.suspended = Function.update s.sched.suspended cur none)
    (suspended : sched.suspended t = some frame) :
    t ≠ cur ∧ s.sched.suspended t = some frame := by
  have different : t ≠ cur := by
    rintro rfl
    simp [frames] at suspended
  rw [frames, Function.update_of_ne different] at suspended
  exact ⟨different, suspended⟩

theorem takesLock (sound : s.Sound) {sched : Sched} (steady : Steady sched)
    (here : s.point cur = .acquireDown) (one : (s.sched.sema lockSema).value = 1)
    (taken : (sched.sema lockSema).value = 0)
    (others : ∀ j, j ≠ lockSema → (sched.sema j).value = (s.sched.sema j).value)
    (frames : sched.suspended = Function.update s.sched.suspended cur none) :
    ((s.setSched sched).goto cur .acquireHolder).Sound := by
  refine ⟨steady, sound.irqNo, ?_, ?_⟩
  · exact sound.lock.takes one rfl (fun t old => frame_of_update frames) taken rfl rfl
  · have moves : Moves s ((s.setSched sched).goto cur .acquireHolder) cur diskDone .acquireHolder :=
      ⟨rfl, fun t old => frame_of_update frames, others diskDone (by decide)⟩
    refine sound.done.moves moves ⟨rfl, rfl, rfl, rfl, rfl⟩ (fun _ _ => rfl) ?_ ?_
    · rw [here]
      rfl
    · simp [here]

/-- `sema_down` lets the thread through after its command has been answered. -/
theorem takesDone (sound : s.Sound) {sched : Sched} (steady : Steady sched)
    (here : s.point cur = .semaDown) (one : (s.sched.sema diskDone).value = 1)
    (taken : (sched.sema diskDone).value = 0)
    (others : ∀ j, j ≠ diskDone → (sched.sema j).value = (s.sched.sema j).value)
    (frames : sched.suspended = Function.update s.sched.suspended cur none) :
    ((s.setSched sched).afterDown cur diskDone).Sound := by
  have owner : s.Owns cur := by simp [Owns, here, IdePoint.owns]
  have fits := sound.lock.fits cur
  rw [here] at fits
  rw [afterDown, if_neg (by decide), if_pos rfl]
  refine ⟨steady, sound.irqNo, ?_, ?_⟩
  · refine sound.lock.moves ⟨rfl, fun t old => frame_of_update frames, others _ (by decide)⟩ ?_
      (.inl owner) sound.lock.holder ?_
    · rw [here]
      split <;> rfl
    · split <;> exact fits
  · refine sound.done.passes here (sound.alone owner) one rfl
      (fun t old => frame_of_update frames) taken rfl ?_ rfl rfl rfl rfl rfl
    change IdePoint.awaits (s.call cur).write
      (if (s.call cur).write = true then .advance else .busyWait) = false
    cases (s.call cur).write <;> rfl

theorem semaDown (sound : s.Sound) {k : SemaId} {a : Action}
    (runs : s.sched.runningThread = cur)
    (round : ∀ sched, Thread.step s.sched a = .ok sched →
      ∃ oldStatus, DownRound k oldStatus s.sched sched)
    (lock : k = lockSema → s.point cur = .acquireDown)
    (done : k = diskDone → s.point cur = .semaDown) (ran : s.semaDown cur k a = .ok s') :
    s'.Sound := by
  obtain ⟨sched, stepped, ran⟩ := except_bind_eq_ok.mp ran
  have steady := sound.steady.step stepped
  obtain ⟨oldStatus, rounded⟩ := round sched stepped
  have apart : ∀ j, j ≠ k → Untouched j s.sched sched := fun j => rounded.untouched
  by_cases zero : (s.sched.sema k).value = 0
  · rw [if_pos zero] at ran
    rw [← Except.ok.inj ran]
    cases rounded with
    | sleeps _ values frames => exact sound.sleeps steady values (runs ▸ frames) lock done
    | passes one => exact absurd (zero.symm.trans one) (by decide)
  · rw [if_neg zero] at ran
    rw [← Except.ok.inj ran]
    cases rounded with
    | sleeps isZero => exact absurd isZero zero
    | passes one taken others frames =>
      by_cases isLock : k = lockSema
      · subst isLock
        rw [afterDown, if_pos rfl]
        exact sound.takesLock steady (lock rfl) one taken others (runs ▸ frames)
      · by_cases isDone : k = diskDone
        · subst isDone
          exact sound.takesDone steady (done rfl) one taken others (runs ▸ frames)
        · rw [afterDown, if_neg isLock, if_neg isDone]
          exact sound.untouched steady (apart lockSema (Ne.symm isLock))
            (apart diskDone (Ne.symm isDone))

theorem intrHdHandler (sound : s.Sound) {irqNo : UInt8} (ran : s.intrHdHandler irqNo = .ok s') :
    s'.Sound := by
  obtain ⟨_, -, ran⟩ := except_bind_eq_ok.mp ran
  obtain ⟨_, -, ran⟩ := except_bind_eq_ok.mp ran
  by_cases expects : s.expectingIntr = true
  · rw [if_pos expects] at ran
    obtain ⟨sched, up, ran⟩ := except_bind_eq_ok.mp ran
    rw [← Except.ok.inj ran]
    obtain ⟨raised, others, frames, -⟩ := semaUp_raises up
    have lockValue : (sched.sema lockSema).value = (s.sched.sema lockSema).value :=
      others lockSema (by decide)
    rw [sound.done.expecting_zero expects] at raised
    refine ⟨sound.steady.semaUp up, sound.irqNo, ?_, sound.done.answered expects raised frames⟩
    exact ⟨fun t old frame => sound.lock.frames t old (by rwa [← frames]), sound.lock.exclusive,
      lockValue.trans_le sound.lock.binary, fun t owns => lockValue.trans (sound.lock.taken t owns),
      fun one => sound.lock.unused (lockValue.symm.trans one), sound.lock.holder,
      sound.lock.fits⟩
  · rw [if_neg expects] at ran
    rwa [← Except.ok.inj ran]

theorem fitsAt (sound : s.Sound) (here : s.point cur = before) :
    before.Fits s.holder s.holderRepeatNr cur :=
  here ▸ sound.lock.fits cur

/-- The thread goes from one statement to another and changes nothing else. -/
theorem stepsTo (sound : s.Sound) (own : s.sched.suspended cur = none)
    (here : s.point cur = before) (beside : before.Beside point (s.call cur).write)
    (fits : before.Fits s.holder s.holderRepeatNr cur →
      point.Fits s.holder s.holderRepeatNr cur) : (s.goto cur point).Sound := by
  subst here
  obtain ⟨sameOwner, sameAwaits, notCmd⟩ := beside
  exact sound.goto own rfl rfl rfl ⟨rfl, rfl, rfl, rfl, rfl⟩ (fun _ _ => rfl) sameOwner
    (.inr ⟨rfl, rfl⟩) sound.lock.holder (fits (sound.lock.fits cur)) sameAwaits
    (iff_of_false notCmd.1 notCmd.2)

theorem computes (sound : s.Sound) (own : s.sched.suspended cur = none) {c : IdeCall}
    (here : s.point cur = before) (sameWrite : c.write = (s.call cur).write)
    (beside : before.Beside point (s.call cur).write)
    (fits : before.Fits s.holder s.holderRepeatNr cur →
      point.Fits s.holder s.holderRepeatNr cur) :
    ((s.setCall cur c).goto cur point).Sound := by
  subst here
  obtain ⟨sameOwner, sameAwaits, notCmd⟩ := beside
  refine sound.goto own rfl rfl rfl ⟨rfl, rfl, rfl, rfl, rfl⟩ (fun t other => ?_) sameOwner
    (.inr ⟨rfl, rfl⟩) sound.lock.holder (fits (sound.lock.fits cur)) ?_
    (iff_of_false notCmd.1 notCmd.2)
  · exact Function.update_of_ne other ..
  · simpa [IdeUse.goto, setCall, sameWrite] using sameAwaits

theorem writesLock (sound : s.Sound) (own : s.sched.suspended cur = none)
    (here : s.point cur = before) {holder : Option Tid} {holderRepeatNr : UInt32}
    (owns : before.owns = true) (beside : before.Beside point (s.call cur).write)
    (holds : ∀ u, holder = some u → u = cur) (fits : point.Fits holder holderRepeatNr cur) :
    ({ s with holder, holderRepeatNr }.goto cur point).Sound := by
  subst here
  obtain ⟨sameOwner, sameAwaits, notCmd⟩ := beside
  exact sound.goto own rfl rfl rfl ⟨rfl, rfl, rfl, rfl, rfl⟩ (fun _ _ => rfl) sameOwner
    (.inl owns) (fun u held => holds u held ▸ owns) fits sameAwaits
    (iff_of_false notCmd.1 notCmd.2)

section Points

variable {status : UInt8} (sound : s.Sound) (own : s.sched.suspended cur = none)
  (ran : s.statement cur status = .ok s')

include sound own ran

theorem assertLba (here : s.point cur = .assertLba) : s'.Sound := by
  simp only [IdeUse.statement, here] at ran
  obtain ⟨_, -, ran⟩ := except_bind_eq_ok.mp ran
  rw [← Except.ok.inj ran]
  exact sound.stepsTo own here ⟨rfl, rfl, by decide⟩ id

theorem assertCnt (here : s.point cur = .assertCnt) : s'.Sound := by
  simp only [IdeUse.statement, here] at ran
  obtain ⟨_, -, ran⟩ := except_bind_eq_ok.mp ran
  rw [← Except.ok.inj ran]
  exact sound.stepsTo own here ⟨rfl, rfl, by decide⟩ id

/-- The thread does not have the lock, so it is not its holder. -/
theorem acquireTest (here : s.point cur = .acquireTest) : s'.Sound := by
  have notHolder : s.holder ≠ some cur := by
    intro holds
    have owner := sound.lock.holder cur holds
    simp [Owns, here, IdePoint.owns] at owner
  simp only [IdeUse.statement, here, if_neg notHolder] at ran
  rw [← Except.ok.inj ran]
  exact sound.stepsTo own here ⟨rfl, rfl, by decide⟩ id

theorem acquireDown (runs : s.sched.runningThread = cur) (here : s.point cur = .acquireDown) :
    s'.Sound := by
  simp only [IdeUse.statement, here] at ran
  refine sound.semaDown runs (fun sched stepped => ?_) (fun _ => here) (fun same => ?_) ran
  · exact ⟨_, step_semaDown_round (runs ▸ own) stepped⟩
  · exact absurd same (by decide)

theorem acquireHolder (here : s.point cur = .acquireHolder) : s'.Sound := by
  simp only [IdeUse.statement, here] at ran
  rw [← Except.ok.inj ran]
  exact sound.writesLock own here rfl ⟨rfl, rfl, by decide⟩
    (fun u holds => (Option.some.inj holds).symm) ⟨rfl, sound.fitsAt here⟩

theorem acquireAssert (here : s.point cur = .acquireAssert) : s'.Sound := by
  simp only [IdeUse.statement, here] at ran
  obtain ⟨_, -, ran⟩ := except_bind_eq_ok.mp ran
  rw [← Except.ok.inj ran]
  exact sound.stepsTo own here ⟨rfl, rfl, by decide⟩ id

theorem acquireCount (here : s.point cur = .acquireCount) : s'.Sound := by
  have holder := (sound.fitsAt here).1
  simp only [IdeUse.statement, here] at ran
  rw [← Except.ok.inj ran]
  refine sound.writesLock own here rfl ⟨rfl, rfl, by decide⟩ (fun u holds => ?_) ⟨holder, rfl⟩
  exact Option.some.inj (holds.symm.trans holder)

theorem selectDisk (here : s.point cur = .selectDisk) : s'.Sound := by
  simp only [IdeUse.statement, here] at ran
  rw [← Except.ok.inj ran]
  exact sound.computes own here rfl ⟨rfl, rfl, by decide⟩ id

theorem loopTest (here : s.point cur = .loopTest) : s'.Sound := by
  simp only [IdeUse.statement, here] at ran
  rw [← Except.ok.inj ran]
  split
  · exact sound.stepsTo own here ⟨rfl, rfl, by decide⟩ id
  · exact sound.stepsTo own here ⟨rfl, rfl, by decide⟩ id

theorem selectSector (here : s.point cur = .selectSector) : s'.Sound := by
  simp only [IdeUse.statement, here] at ran
  obtain ⟨_, -, ran⟩ := except_bind_eq_ok.mp ran
  rw [← Except.ok.inj ran]
  exact sound.stepsTo own here ⟨rfl, rfl, by decide⟩ id

/-- `expecting_intr = true`: the thread has the lock, so no other command is under way. -/
theorem expectIntr (here : s.point cur = .expectIntr) : s'.Sound := by
  simp only [IdeUse.statement, here] at ran
  rw [← Except.ok.inj ran]
  have owner : s.Owns cur := by simp [Owns, here, IdePoint.owns]
  have fits := sound.lock.fits cur
  rw [here] at fits
  have nobody : ∀ t, ¬ s.Awaits t := by
    intro t awaits
    have same := sound.alone owner t awaits
    subst same
    simp [Awaits, here, IdePoint.awaits] at awaits
  have moves : ∀ k, Moves s ({ s with expectingIntr := true }.goto cur .cmdOut) cur k .cmdOut :=
    moves_of_own own rfl rfl
  refine ⟨sound.steady, sound.irqNo, ?_, ?_⟩
  · exact sound.lock.moves (moves _) (by simp [here, IdePoint.owns]) (.inl owner)
      sound.lock.holder fits
  · exact sound.done.expects nobody (moves _) rfl rfl rfl rfl rfl rfl

/-- The command goes out. -/
theorem cmdOut (here : s.point cur = .cmdOut) : s'.Sound := by
  simp only [IdeUse.statement, here] at ran
  rw [← Except.ok.inj ran]
  have owner : s.Owns cur := by simp [Owns, here, IdePoint.owns]
  have fits := sound.lock.fits cur
  rw [here] at fits
  have moves : ∀ k, Moves s
      ({ s with issued := Function.update s.issued cur (s.issued cur + 1) }.goto cur
        (if (s.call cur).write then .busyWait else .semaDown)) cur k
      (if (s.call cur).write then .busyWait else .semaDown) := moves_of_own own rfl rfl
  refine ⟨sound.steady, sound.irqNo, ?_, ?_⟩
  · refine sound.lock.moves (moves _) ?_ (.inl owner) sound.lock.holder ?_
    · rw [here]
      split <;> rfl
    · split <;> exact fits
  · refine sound.done.sends here (moves _) ?_ ?_ rfl rfl rfl rfl rfl rfl
    · cases (s.call cur).write <;> rfl
    · split <;> simp

theorem diskDown (runs : s.sched.runningThread = cur) (here : s.point cur = .semaDown) :
    s'.Sound := by
  simp only [IdeUse.statement, here] at ran
  refine sound.semaDown runs (fun sched stepped => ?_) (fun same => ?_) (fun _ => here) ran
  · exact ⟨_, step_semaDown_round (runs ▸ own) stepped⟩
  · exact absurd same (by decide)

theorem busyWait (here : s.point cur = .busyWait) : s'.Sound := by
  simp only [IdeUse.statement, here] at ran
  rw [← Except.ok.inj ran]
  exact sound.computes own here rfl ⟨rfl, rfl, by decide⟩ id

theorem busyTest (here : s.point cur = .busyTest) : s'.Sound := by
  simp only [IdeUse.statement, here] at ran
  split at ran
  next => cases ran
  next =>
    split at ran
    · rw [← Except.ok.inj ran]
      exact sound.computes own here rfl ⟨rfl, rfl, by decide⟩ id
    · rw [← Except.ok.inj ran]
      exact sound.computes own here rfl ⟨rfl, rfl, by decide⟩ id

theorem busyReady (here : s.point cur = .busyReady) : s'.Sound := by
  simp only [IdeUse.statement, here] at ran
  split at ran
  next => cases ran
  next =>
    rw [← Except.ok.inj ran]
    exact sound.stepsTo own here ⟨rfl, rfl, by decide⟩ id

theorem sleepTest (runs : s.sched.runningThread = cur) (here : s.point cur = .sleepTest) :
    s'.Sound := by
  simp only [IdeUse.statement, here] at ran
  split at ran
  next =>
    obtain ⟨sched, stepped, ran⟩ := except_bind_eq_ok.mp ran
    rw [← Except.ok.inj ran]
    have none : ∀ k oldStatus, s.sched.suspended s.sched.runningThread ≠
        some (.inDown k oldStatus) := by
      intro k oldStatus frame
      rw [runs, own] at frame
      cases frame
    exact sound.untouched (sound.steady.step stepped)
      (step_untouched (by simp) (by simp) (none _) stepped)
      (step_untouched (by simp) (by simp) (none _) stepped)
  next =>
    rw [← Except.ok.inj ran]
    exact sound.stepsTo own here ⟨rfl, rfl, by decide⟩ id

/-- A reading call has waited for its interrupt by then, a writing one has not. -/
theorem transfer (here : s.point cur = .transfer) : s'.Sound := by
  simp only [IdeUse.statement, here] at ran
  rw [← Except.ok.inj ran]
  split
  next write =>
    exact sound.stepsTo own here ⟨rfl, write.symm, by decide⟩ id
  next read =>
    rw [Bool.not_eq_true] at read
    exact sound.stepsTo own here ⟨rfl, read.symm, by decide⟩ id

theorem advance (here : s.point cur = .advance) : s'.Sound := by
  simp only [IdeUse.statement, here] at ran
  rw [← Except.ok.inj ran]
  exact sound.computes own here rfl ⟨rfl, rfl, by decide⟩ id

theorem releaseAssert (here : s.point cur = .releaseAssert) : s'.Sound := by
  simp only [IdeUse.statement, here] at ran
  obtain ⟨_, -, ran⟩ := except_bind_eq_ok.mp ran
  rw [← Except.ok.inj ran]
  exact sound.stepsTo own here ⟨rfl, rfl, by decide⟩ id

theorem releaseTest (here : s.point cur = .releaseTest) : s'.Sound := by
  have last : ¬ s.holderRepeatNr > 1 := by
    rw [(sound.fitsAt here).2]
    decide
  simp only [IdeUse.statement, here, if_neg last] at ran
  rw [← Except.ok.inj ran]
  exact sound.stepsTo own here ⟨rfl, rfl, by decide⟩ id

theorem releaseLast (here : s.point cur = .releaseLast) : s'.Sound := by
  simp only [IdeUse.statement, here] at ran
  obtain ⟨_, -, ran⟩ := except_bind_eq_ok.mp ran
  rw [← Except.ok.inj ran]
  exact sound.stepsTo own here ⟨rfl, rfl, by decide⟩ And.right

theorem releaseHolder (here : s.point cur = .releaseHolder) : s'.Sound := by
  simp only [IdeUse.statement, here] at ran
  rw [← Except.ok.inj ran]
  exact sound.writesLock own here rfl ⟨rfl, rfl, by decide⟩ (fun u holds => by cases holds) rfl

theorem releaseCount (here : s.point cur = .releaseCount) : s'.Sound := by
  have nobody : s.holder = none := sound.fitsAt here
  simp only [IdeUse.statement, here] at ran
  rw [← Except.ok.inj ran]
  refine sound.writesLock own here rfl ⟨rfl, rfl, by decide⟩ (fun u holds => ?_) ⟨nobody, rfl⟩
  rw [nobody] at holds
  cases holds

/-- `sema_up(&plock->semaphore)` -/
theorem releaseUp (here : s.point cur = .releaseUp) : s'.Sound := by
  simp only [IdeUse.statement, here] at ran
  obtain ⟨sched, up, ran⟩ := except_bind_eq_ok.mp ran
  rw [← Except.ok.inj ran]
  have owner : s.Owns cur := by simp [Owns, here, IdePoint.owns]
  obtain ⟨raised, others, suspended, -⟩ := semaUp_raises up
  rw [sound.lock.taken cur owner] at raised
  have frames {k : SemaId} : ∀ t old, sched.suspended t = some (.inDown k old) →
      t ≠ cur ∧ s.sched.suspended t = some (.inDown k old) := by
    intro t old frame
    rw [suspended] at frame
    refine ⟨?_, frame⟩
    rintro rfl
    rw [own] at frame
    cases frame
  refine ⟨sound.steady.semaUp up, sound.irqNo, ?_, ?_⟩
  · exact sound.lock.gives here rfl frames raised rfl rfl
  · have moves : Moves s ((s.setSched sched).goto cur .outside) cur diskDone .outside :=
      ⟨rfl, frames, others diskDone (by decide)⟩
    refine sound.done.moves moves ⟨rfl, rfl, rfl, rfl, rfl⟩ (fun _ _ => rfl) ?_ ?_
    · rw [here]
      rfl
    · simp [here]

end Points

theorem statement {status : UInt8} (sound : s.Sound) (runs : s.sched.runningThread = cur)
    (own : s.sched.suspended cur = none) (ran : s.statement cur status = .ok s') : s'.Sound := by
  cases here : s.point cur with
  | outside =>
    simp only [IdeUse.statement, here] at ran
    cases ran
  | assertLba => exact sound.assertLba own ran here
  | assertCnt => exact sound.assertCnt own ran here
  | acquireTest => exact sound.acquireTest own ran here
  | acquireDown => exact sound.acquireDown own ran runs here
  | acquireHolder => exact sound.acquireHolder own ran here
  | acquireAssert => exact sound.acquireAssert own ran here
  | acquireCount => exact sound.acquireCount own ran here
  | selectDisk => exact sound.selectDisk own ran here
  | loopTest => exact sound.loopTest own ran here
  | selectSector => exact sound.selectSector own ran here
  | expectIntr => exact sound.expectIntr own ran here
  | cmdOut => exact sound.cmdOut own ran here
  | semaDown => exact sound.diskDown own ran runs here
  | busyWait => exact sound.busyWait own ran here
  | busyTest => exact sound.busyTest own ran here
  | busyReady => exact sound.busyReady own ran here
  | sleepTest => exact sound.sleepTest own ran runs here
  | transfer => exact sound.transfer own ran here
  | advance => exact sound.advance own ran here
  | releaseAssert => exact sound.releaseAssert own ran here
  | releaseTest => exact sound.releaseTest own ran here
  | releaseLast => exact sound.releaseLast own ran here
  | releaseHolder => exact sound.releaseHolder own ran here
  | releaseCount => exact sound.releaseCount own ran here
  | releaseUp => exact sound.releaseUp own ran here
  -- no call acquires the lock twice
  | acquireAgain | releaseAgain => exact (sound.fitsAt here).elim

theorem resume (sound : s.Sound) (runs : s.sched.runningThread = cur)
    (ran : s.resume cur = .ok s') : s'.Sound := by
  unfold IdeUse.resume at ran
  split at ran
  next k oldStatus frame =>
    refine sound.semaDown runs (fun sched stepped => ?_) (fun same => ?_) (fun same => ?_) ran
    · exact ⟨oldStatus, step_resume_round (runs ▸ frame) stepped⟩
    · exact sound.lock.frames cur oldStatus (same ▸ frame)
    · exact sound.done.frames cur oldStatus (same ▸ frame)
  next notDown =>
    obtain ⟨sched, stepped, ran⟩ := except_bind_eq_ok.mp ran
    rw [← Except.ok.inj ran]
    have other : ∀ k oldStatus, s.sched.suspended s.sched.runningThread ≠
        some (.inDown k oldStatus) := fun k oldStatus frame => notDown k oldStatus (runs ▸ frame)
    exact sound.untouched (sound.steady.step stepped)
      (step_untouched (by simp) (by simp) (other _) stepped)
      (step_untouched (by simp) (by simp) (other _) stepped)

/-- Other interrupts and other code. -/
theorem other (sound : s.Sound) {a : Action} {sched : Sched} (allowed : s.allows a = true)
    (stepped : Thread.step s.sched a = .ok sched) : (s.setSched sched).Sound := by
  have notResume : a ≠ .resume := by
    rintro rfl
    cases allowed
  have apart : ∀ k, k = lockSema ∨ k = diskDone → a ≠ .semaUp k ∧ a ≠ .semaDown k := by
    rintro k (rfl | rfl)
    · constructor <;>
      · rintro rfl
        simp [allows] at allowed
    · constructor <;>
      · rintro rfl
        simp [allows] at allowed
  have noFrame : ∀ k oldStatus, s.sched.suspended s.sched.runningThread ≠
      some (.inDown k oldStatus) := by
    intro k oldStatus frame
    obtain ⟨own, -⟩ | ⟨same, -⟩ := step_cases stepped
    · rw [own] at frame
      cases frame
    · exact notResume same
  obtain ⟨lockUp, lockDown⟩ := apart lockSema (.inl rfl)
  obtain ⟨doneUp, doneDown⟩ := apart diskDone (.inr rfl)
  exact sound.untouched (sound.steady.step stepped)
    (step_untouched lockUp lockDown (noFrame _) stepped)
    (step_untouched doneUp doneDown (noFrame _) stepped)

theorem step {a : IdeAction} (sound : s.Sound) (ran : s.step a = .ok s') : s'.Sound := by
  unfold IdeUse.step at ran
  dsimp only at ran
  cases a with
  | call write lba secCnt =>
    dsimp only at ran
    split at ran
    next free =>
      obtain ⟨own, here⟩ := free
      rw [← Except.ok.inj ran]
      refine sound.goto own rfl rfl rfl ⟨rfl, rfl, rfl, rfl, rfl⟩ (fun t other => ?_) ?_
        (.inr ⟨rfl, rfl⟩) sound.lock.holder trivial ?_ (by simp [here])
      · exact Function.update_of_ne other ..
      · simp [here, IdePoint.owns]
      · simp [here, IdePoint.awaits]
    next => cases ran
  | statement status =>
    dsimp only at ran
    split at ran
    next own => exact sound.statement rfl own ran
    next => cases ran
  | hdInterrupt =>
    dsimp only at ran
    split at ran
    next => exact sound.intrHdHandler ran
    next => cases ran
  | resume => exact sound.resume rfl ran
  | other a =>
    dsimp only at ran
    split at ran
    next allowed =>
      obtain ⟨sched, stepped, ran⟩ := except_bind_eq_ok.mp ran
      rw [← Except.ok.inj ran]
      exact sound.other allowed stepped
    next => cases ran

/-- The interrupt handler runs to its end. -/
theorem hdInterrupt_safe (sound : s.Sound) (fn : Fn) :
    s.step .hdInterrupt ≠ .error (.panic fn) := by
  have disk : s.irqNo = 0x2e ∨ s.irqNo = 0x2f := sound.irqNo
  simp only [IdeUse.step]
  split
  next =>
    by_cases expects : s.expectingIntr = true
    · obtain ⟨sched, up⟩ := sound.steady.semaUp_ok (sound.done.expecting_zero expects)
      simp [IdeUse.intrHdHandler, disk, expects, up]
    · simp [IdeUse.intrHdHandler, disk, expects]
  next => simp

theorem semaDown_safe {a : Action}
    (safe : Thread.step s.sched a ≠ .error (.panic .semaDown)) {k : SemaId} :
    s.semaDown cur k a ≠ .error (.panic .semaDown) := by
  unfold IdeUse.semaDown
  cases stepped : Thread.step s.sched a with
  | error reason =>
    intro panics
    rw [error_bind, Except.error.injEq] at panics
    exact safe (by rw [stepped, panics])
  | ok sched =>
    rw [ok_bind]
    split <;> simp

end Sound

/-- What the handshake guarantees in a state. -/
structure Handshake (s : IdeUse) : Prop where
  /-- At most one command is outstanding. -/
  exclusive : ∀ t u, s.Outstanding t → s.Outstanding u → t = u
  /-- `disk_done` is raised by an expected interrupt, for a thread that still has to pass. -/
  raised : (s.sched.sema diskDone).value ≠ 0 → (s.sched.sema diskDone).value = 1 ∧
    s.expectingIntr = false ∧ s.answers = s.downs + 1 ∧ ∃ t, s.Awaits t
  /-- A thread has passed once for each command of its own, but the outstanding one.  A writer
  that `busy_wait` loses to `thread_yield` keeps its command outstanding. -/
  once : ∀ t, s.issued t = s.passed t + if s.Outstanding t then 1 else 0
  /-- Nothing in `sema_up`, called by the interrupt handler, fails. -/
  up : ∀ fn, s.step .hdInterrupt ≠ .error (.panic fn)
  /-- Nor does an assertion of `sema_down`, when it is called or goes on after a wake-up. -/
  down : ∀ status, s.point s.sched.runningThread = .semaDown →
    s.step (.statement status) ≠ .error (.panic .semaDown)
  again : ∀ oldStatus, s.sched.suspended s.sched.runningThread =
      some (.inDown diskDone oldStatus) → s.step .resume ≠ .error (.panic .semaDown)

theorem Sound.handshake (sound : s.Sound) : s.Handshake where
  exclusive t u outT outU := sound.lock.exclusive t u outT.1.owns outU.1.owns
  raised some := by
    have binary := sound.done.le_one
    have one : (s.sched.sema diskDone).value = 1 := by omega
    have waits : ∃ t, s.Awaits t := by
      by_contra nobody
      exact some (sound.done.quiet (not_exists.mp nobody)).2
    obtain ⟨t, awaits⟩ := waits
    refine ⟨one, ?_, by rw [sound.done.answers, one], t, awaits⟩
    rcases sound.done.armed t awaits with before | after
    · exact absurd before.2 some
    · exact after.1
  once := sound.done.issued
  up := sound.hdInterrupt_safe
  down status here := by
    simp only [IdeUse.step]
    split
    next own =>
      simp only [IdeUse.statement, here]
      exact semaDown_safe (step_semaDown_safe sound.steady sound.done.le_one own)
    next => simp
  again oldStatus frame := by
    simp only [IdeUse.step, IdeUse.resume, frame]
    exact semaDown_safe (step_resume_safe sound.steady sound.done.le_one frame)

/-- Whatever the threads and the interrupts do, the handshake holds in every state. -/
theorem handshake_trace {mainThread idleThread : Tid} (different : mainThread ≠ idleThread)
    (value : SemaId → Nat) (channelNo : Fin 2) {actions : List IdeAction}
    {states : List IdeUse}
    (ran : trace step (start mainThread idleThread value channelNo) actions = .ok states) :
    ∀ s ∈ start mainThread idleThread value channelNo :: states, s.Handshake := by
  have sound := start_sound different value channelNo
  intro s reached
  rcases List.mem_cons.mp reached with rfl | later
  · exact sound.handshake
  · have preserved : ∀ s a s', Sound s → True → step s a = .ok s' → Sound s' :=
      fun _ _ _ sound _ ran => sound.step ran
    exact (invariant_of_trace preserved sound (fun _ _ => trivial) ran s later).handshake

/-- A read whose interrupt comes early and twice, and a write that sleeps. -/
def earlyAndLate : List IdeAction :=
  [.other (.intrSetStatus true), .call false 5 1] ++ List.replicate 11 (.statement 8) ++
    [.hdInterrupt, .hdInterrupt, .statement 8, .hdInterrupt] ++
    List.replicate 13 (.statement 8) ++ [.call true 5 2] ++ List.replicate 17 (.statement 8) ++
    [.resume, .hdInterrupt, .hdInterrupt, .other (.threadBlock .blocked), .resume] ++
    List.replicate 8 (.statement 8)

theorem handshake_trace_earlyAndLate : ∃ states,
    trace step (start 0xc009e000 0xc0100000 (fun _ => 0) 0) earlyAndLate = .ok states ∧
      ∀ s ∈ start 0xc009e000 0xc0100000 (fun _ => 0) 0 :: states, s.Handshake := by
  have returns : (trace step (start 0xc009e000 0xc0100000 (fun _ => 0) 0)
      earlyAndLate).toOption.isSome := by
    decide +kernel
  cases ran : trace step (start 0xc009e000 0xc0100000 (fun _ => 0) 0) earlyAndLate with
  | error reason =>
    rw [ran] at returns
    cases returns
  | ok states => exact ⟨states, rfl, handshake_trace (by decide) _ _ ran⟩

end IdeUse

end HongbaiOS.Device
