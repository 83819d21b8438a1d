import HongbaiOS.Kernel.Debug
import Mathlib.Algebra.Group.Nat.Defs
import Mathlib.Tactic.Common

/-!
# The timer

`frequency_set` and the counter it programs, the interrupts that follow, and `mtime_sleep`,
which counts them in a variable of 32 bits.
-/

namespace HongbaiOS.Device

open HongbaiOS.Library HongbaiOS.Kernel

structure Counter where
  /-- The bytes of a count that are written: the low one, the high one, both. -/
  rwl : UInt8
  mode : UInt8
  /-- The low byte of a count whose high byte is to come. -/
  low : Option UInt8
  count : UInt16

/-- The three counters, by their numbers. -/
abbrev Pit := UInt8 → Counter

def pitControlPort : UInt16 := 0x43

def counter0Port : UInt8 := 0x40

namespace Counter

def write (c : Counter) (byte : UInt8) : Counter :=
  if c.rwl = 1 then { c with count := byte.toUInt16 }
  else if c.rwl = 2 then { c with count := byte.toUInt16 <<< 8 }
  else if c.rwl = 3 then
    match c.low with
    | none => { c with low := some byte }
    | some low => { c with low := none, count := byte.toUInt16 <<< 8 ||| low.toUInt16 }
  else c

/-- The input clocks in between two interrupts; a count of 0 stands for `2 ^ 16`. -/
def period (count : UInt16) : Nat := if count = 0 then 0x10000 else count.toNat

end Counter

/-- `outb` -/
def Pit.outb (pit : Pit) (port : UInt16) (byte : UInt8) : Pit :=
  if port = pitControlPort then
    Function.update pit (byte >>> 6)
      { pit (byte >>> 6) with rwl := byte >>> 4 &&& 3, mode := byte >>> 1 &&& 7, low := none }
  else
    let counterNo := (port - counter0Port.toUInt16).toUInt8
    Function.update pit counterNo ((pit counterNo).write byte)

/-- `frequency_set`; the cast binds before the shift, which is one of a whole `int`. -/
def frequencySet (counterPort counterNo rwl counterMode : UInt8) (counterValue : UInt16)
    (pit : Pit) : Pit :=
  let pit := pit.outb pitControlPort
    (UInt8.ofNat (counterNo.toNat <<< 6 ||| rwl.toNat <<< 4 ||| counterMode.toNat <<< 1))
  let pit := pit.outb counterPort.toUInt16 counterValue.toUInt8
  pit.outb counterPort.toUInt16 (UInt8.ofNat (counterValue.toUInt8.toNat >>> 8))

/-- `COUNTER0_VALUE` -/
def counter0Value : UInt16 := UInt16.ofNat (1193180 / 100)

/-- The call in `timer_init`, for any divisor. -/
def setCounter0 (counterValue : UInt16) (pit : Pit) : Pit :=
  frequencySet counter0Port 0 3 2 counterValue pit

/-- `timer_init` -/
def timerInit (pit : Pit) : Pit := setCounter0 counter0Value pit

/-- A counter that runs, seen from some moment on. -/
structure Timer where
  period : Nat
  /-- The input clocks since the counter was loaded. -/
  loaded : Nat
  /-- The value of `ticks`. -/
  ticks : UInt32

namespace Timer

/-- The timer interrupt comes. -/
def Fires (timer : Timer) (time : Nat) : Prop := (timer.loaded + time) % timer.period = 0

instance (timer : Timer) (time : Nat) : Decidable (timer.Fires time) :=
  inferInstanceAs (Decidable (_ = _))

/-- `ticks` after some input clocks; `intr_timer_handler` counts it up. -/
def ticksAt (timer : Timer) : Nat → UInt32
  | 0 => timer.ticks
  | time + 1 => if timer.Fires (time + 1) then timer.ticksAt time + 1 else timer.ticksAt time

/-- The interrupts are a number of input clocks apart. -/
def FiresEvery (timer : Timer) (clocks : Nat) : Prop :=
  ∀ time, timer.Fires time →
    timer.Fires (time + clocks) ∧ ∀ between, time < between → between < time + clocks →
      ¬ timer.Fires between

/-- The loop of `ticks_to_sleep`, tested at the times at which the thread runs; the answer is
the time it leaves the loop. -/
def sleepLoop (timer : Timer) (startTick sleepTicks : UInt32) : List Nat → Option Nat
  | [] => none
  | time :: times =>
      if timer.ticksAt time - startTick < sleepTicks then
        sleepLoop timer startTick sleepTicks times
      else some time

/-- `ticks_to_sleep` -/
def ticksToSleep (timer : Timer) (sleepTicks : UInt32) (call : Nat) (times : List Nat) :
    Option Nat :=
  timer.sleepLoop (timer.ticksAt call) sleepTicks times

/-- `mil_second_per_intr` -/
def milSecondPerIntr : UInt32 := 1000 / 100

/-- `mtime_sleep`, called at a time by a thread that then runs at some more times. -/
def mtimeSleep (timer : Timer) (mSecond : UInt32) (call : Nat) (times : List Nat) :
    Except Halt (Option Nat) := do
  let sleepTicks := (mSecond + milSecondPerIntr - 1) / milSecondPerIntr
  check .mtimeSleep (0 < sleepTicks)
  return timer.ticksToSleep sleepTicks call times

end Timer

/-- The counter keeps the interrupts as far apart as the divisor says. -/
def TickRight (pit : Pit) (divisor : UInt16) : Prop :=
  ∀ timer : Timer, timer.period = Counter.period (setCounter0 divisor pit 0).count →
    timer.FiresEvery (Counter.period divisor)

/-- A sleep takes its ticks, less the one that had begun, whatever runs meanwhile. -/
def SleepRight (pit : Pit) (divisor : UInt16) (mSecond : UInt32) : Prop :=
  ∀ (timer : Timer) (call : Nat) (times : List Nat) (returned : Nat),
    timer.period = Counter.period (setCounter0 divisor pit 0).count →
    (call :: times).Pairwise (· ≤ ·) →
    timer.mtimeSleep mSecond call times = .ok (some returned) →
    call + ((mSecond.toNat + 9) / 10 - 1) * Counter.period divisor ≤ returned

section Programmed

variable {divisor : UInt16}

theorem outb_counter0 (pit : Pit) (byte : UInt8) :
    pit.outb counter0Port.toUInt16 byte = Function.update pit 0 ((pit 0).write byte) := rfl

/-- The high byte written is always zero. -/
theorem setCounter0_count (divisor : UInt16) (pit : Pit) :
    (setCounter0 divisor pit 0).count = divisor % 256 := by
  have high : divisor.toUInt8.toNat >>> 8 = 0 :=
    Nat.shiftRight_eq_zero _ _ divisor.toUInt8.toNat_lt
  have command : pit.outb pitControlPort 0x34 =
      Function.update pit 0 { pit 0 with rwl := 3, mode := 2, low := none } := rfl
  have programmed : setCounter0 divisor pit = ((pit.outb pitControlPort 0x34).outb
      counter0Port.toUInt16 divisor.toUInt8).outb counter0Port.toUInt16
        (UInt8.ofNat (divisor.toUInt8.toNat >>> 8)) := rfl
  rw [programmed, high, command, outb_counter0, outb_counter0, Function.update_self,
    Function.update_self, Function.update_self]
  simp [Counter.write]

theorem count_right (pit : Pit) :
    (setCounter0 divisor pit 0).count = divisor ↔ divisor.toNat < 256 := by
  have low : (divisor % 256).toNat = divisor.toNat % 256 := UInt16.toNat_mod ..
  rw [setCounter0_count, ← UInt16.toNat_inj, low]
  exact Nat.mod_eq_iff_lt (by decide)

theorem period_pos (count : UInt16) : 0 < Counter.period count := by
  rw [Counter.period]
  split
  next => decide
  next notZero => exact Nat.pos_of_ne_zero fun isZero => notZero (UInt16.toNat_inj.mp isZero)

theorem period_injective {count count' : UInt16}
    (same : Counter.period count = Counter.period count') : count = count' := by
  have small := count.toNat_lt
  have small' := count'.toNat_lt
  rw [Counter.period, Counter.period] at same
  split at same
  next isZero =>
    split at same
    next isZero' => rw [isZero, isZero']
    next => omega
  next =>
    split at same
    next => omega
    next => exact UInt16.toNat_inj.mp same

/-- No bit is lost, or only zeros are left, which stand for the longest period. -/
theorem period_enough (enough : divisor.toNat < 256 ∨ divisor.toNat % 256 = 0) :
    Counter.period divisor ≤ Counter.period (divisor % 256) := by
  have low : (divisor % 256).toNat = divisor.toNat % 256 := UInt16.toNat_mod ..
  have small := divisor.toNat_lt
  have zero (count : UInt16) : count = 0 ↔ count.toNat = 0 := UInt16.toNat_inj.symm
  simp only [Counter.period, zero, low]
  split <;> split <;> omega

theorem period_short (large : ¬ divisor.toNat < 256) (mixed : ¬ divisor.toNat % 256 = 0) :
    Counter.period (divisor % 256) + 256 ≤ Counter.period divisor := by
  have low : (divisor % 256).toNat = divisor.toNat % 256 := UInt16.toNat_mod ..
  have zero (count : UInt16) : count = 0 ↔ count.toNat = 0 := UInt16.toNat_inj.symm
  simp only [Counter.period, zero, low, if_neg mixed]
  split <;> omega

end Programmed

section Counting

namespace Timer

variable {timer : Timer}

/-- Between two multiples of the period that follow each other there is none. -/
theorem fires_next {time : Nat} (pos : 0 < timer.period) (here : timer.Fires time) :
    timer.Fires (time + timer.period) ∧ ∀ between, time < between →
      between < time + timer.period → ¬ timer.Fires between := by
  constructor
  · rw [Fires, ← Nat.add_assoc, Nat.add_mod_right]
    exact here
  · intro between after before fires
    have apart : timer.period ∣ (timer.loaded + between) - (timer.loaded + time) :=
      Nat.dvd_sub (Nat.dvd_of_mod_eq_zero fires) (Nat.dvd_of_mod_eq_zero here)
    have := Nat.le_of_dvd (by omega) apart
    omega

theorem firesEvery_iff {clocks : Nat} (pos : 0 < timer.period) (clocksPos : 0 < clocks)
    (fires : timer.Fires 0) : timer.FiresEvery clocks ↔ timer.period = clocks := by
  constructor
  · intro every
    obtain ⟨again, quiet⟩ := every 0 fires
    obtain ⟨next, none⟩ := fires_next pos fires
    rcases Nat.lt_trichotomy timer.period clocks with less | same | greater
    · exact absurd next (quiet _ (by omega) (by omega))
    · exact same
    · exact absurd again (none _ (by omega) (by omega))
  · rintro rfl time here
    exact fires_next pos here

def interrupts (timer : Timer) (time : Nat) : Nat :=
  (timer.loaded + time) / timer.period - timer.loaded / timer.period

theorem ticksAt_eq (timer : Timer) (time : Nat) :
    timer.ticksAt time = timer.ticks + UInt32.ofNat (timer.interrupts time) := by
  induction time with
  | zero => simp [ticksAt, interrupts]
  | succ time inductionHypothesis =>
      have more : timer.loaded / timer.period ≤ (timer.loaded + time) / timer.period :=
        Nat.div_le_div_right (Nat.le_add_right _ _)
      have next := @Nat.succ_div (timer.loaded + time) timer.period
      rw [ticksAt]
      split
      next fires =>
        rw [inductionHypothesis, interrupts, interrupts, ← Nat.add_assoc, next,
          if_pos (show timer.period ∣ timer.loaded + time + 1 from Nat.dvd_of_mod_eq_zero fires),
          Nat.sub_add_comm more, UInt32.ofNat_add,
          UInt32.add_assoc]
        rfl
      next quiet =>
        rw [inductionHypothesis, interrupts, interrupts, ← Nat.add_assoc, next,
          if_neg (show ¬ timer.period ∣ timer.loaded + time + 1 from
            mt Nat.mod_eq_zero_of_dvd quiet), Nat.add_zero]

theorem ticksAt_sub (timer : Timer) {call time : Nat} (later : call ≤ time) :
    timer.ticksAt time - timer.ticksAt call =
      UInt32.ofNat ((timer.loaded + time) / timer.period -
        (timer.loaded + call) / timer.period) := by
  have first : timer.loaded / timer.period ≤ (timer.loaded + call) / timer.period :=
    Nat.div_le_div_right (Nat.le_add_right _ _)
  have second : (timer.loaded + call) / timer.period ≤ (timer.loaded + time) / timer.period :=
    Nat.div_le_div_right (Nat.add_le_add_left later _)
  have split : timer.interrupts time = timer.interrupts call +
      ((timer.loaded + time) / timer.period - (timer.loaded + call) / timer.period) := by
    simp only [interrupts]
    omega
  rw [ticksAt_eq, ticksAt_eq, split, UInt32.ofNat_add, ← UInt32.add_assoc, UInt32.add_comm,
    UInt32.add_sub_cancel]

theorem elapsed_of_ticks {call time : Nat} {sleepTicks : UInt32} (pos : 0 < timer.period)
    (later : call ≤ time) (reached : ¬ timer.ticksAt time - timer.ticksAt call < sleepTicks) :
    call + (sleepTicks.toNat - 1) * timer.period ≤ time := by
  rw [timer.ticksAt_sub later, UInt32.not_lt, UInt32.le_iff_toNat_le,
    UInt32.toNat_ofNat'] at reached
  have counted : sleepTicks.toNat ≤ (timer.loaded + time) / timer.period -
      (timer.loaded + call) / timer.period :=
    Nat.le_trans reached (Nat.mod_le ..)
  rcases Nat.eq_zero_or_pos sleepTicks.toNat with none | some
  · rw [none]
    omega
  · have last : ((timer.loaded + call) / timer.period + sleepTicks.toNat) * timer.period ≤
        timer.loaded + time :=
      Nat.le_trans (Nat.mul_le_mul_right _ (by omega)) (Nat.div_mul_le_self _ _)
    have first := Nat.lt_div_mul_add pos (a := timer.loaded + call)
    obtain ⟨count, isCount⟩ : ∃ count, sleepTicks.toNat = count + 1 :=
      ⟨sleepTicks.toNat - 1, by omega⟩
    rw [isCount, ← Nat.add_assoc, Nat.add_mul, Nat.add_mul] at last
    rw [isCount, Nat.add_sub_cancel]
    omega

theorem sleepLoop_eq_some {startTick sleepTicks : UInt32} {times : List Nat} {returned : Nat}
    (woke : timer.sleepLoop startTick sleepTicks times = some returned) :
    returned ∈ times ∧ ¬ timer.ticksAt returned - startTick < sleepTicks := by
  induction times with
  | nil => contradiction
  | cons time times inductionHypothesis =>
      rw [sleepLoop] at woke
      split at woke
      next =>
        obtain ⟨isTime, reached⟩ := inductionHypothesis woke
        exact ⟨List.mem_cons_of_mem _ isTime, reached⟩
      next reached =>
        obtain rfl := Option.some.inj woke
        exact ⟨List.mem_cons_self, reached⟩

theorem sleepTicks_toNat {mSecond : UInt32} (fits : mSecond.toNat + 9 < 2 ^ 32) :
    ((mSecond + milSecondPerIntr - 1) / milSecondPerIntr).toNat = (mSecond.toNat + 9) / 10 := by
  have sum : (mSecond + milSecondPerIntr - 1).toNat = mSecond.toNat + 9 := by
    have shifted : mSecond + milSecondPerIntr - 1 = mSecond + 9 := by
      rw [UInt32.sub_eq_add_neg, UInt32.add_assoc]
      rfl
    rw [shifted, UInt32.toNat_add]
    exact Nat.mod_eq_of_lt fits
  rw [UInt32.toNat_div, sum]
  rfl

theorem mtimeSleep_eq {mSecond : UInt32} (pos : 0 < mSecond.toNat)
    (fits : mSecond.toNat + 9 < 2 ^ 32) (call : Nat) (times : List Nat) :
    timer.mtimeSleep mSecond call times = .ok (timer.ticksToSleep
      ((mSecond + milSecondPerIntr - 1) / milSecondPerIntr) call times) := by
  have some : 0 < (mSecond + milSecondPerIntr - 1) / milSecondPerIntr := by
    rw [UInt32.lt_iff_toNat_lt, sleepTicks_toNat fits]
    show 0 < _
    omega
  rw [mtimeSleep, decide_eq_true some, check_true]
  rfl

end Timer

end Counting

section Delays

variable {divisor : UInt16} {mSecond : UInt32}

theorem tickRight_iff (pit : Pit) (divisor : UInt16) :
    TickRight pit divisor ↔ divisor.toNat < 256 := by
  have pos := period_pos (setCounter0 divisor pit 0).count
  rw [← count_right pit]
  constructor
  · intro right
    let timer : Timer := ⟨Counter.period (setCounter0 divisor pit 0).count, 0, 0⟩
    have fires : timer.Fires 0 := Nat.zero_mod _
    exact period_injective ((Timer.firesEvery_iff pos (period_pos divisor) fires).mp
      (right timer rfl))
  · intro same timer isPeriod time here
    rw [same] at isPeriod
    have next := Timer.fires_next (isPeriod ▸ period_pos divisor) here
    rwa [isPeriod] at next

/-- A sleep called one clock before an interrupt and tested as soon as the ticks are reached. -/
theorem sleep_shortest (pit : Pit) (pos : 0 < mSecond.toNat) (fits : mSecond.toNat + 9 < 2 ^ 32)
    (right : SleepRight pit divisor mSecond) :
    ((mSecond.toNat + 9) / 10 - 1) * Counter.period divisor ≤
      ((mSecond.toNat + 9) / 10 - 1) * Counter.period (setCounter0 divisor pit 0).count + 1 := by
  let timer : Timer := ⟨Counter.period (setCounter0 divisor pit 0).count,
    Counter.period (setCounter0 divisor pit 0).count - 1, 0⟩
  have periodPos : 0 < timer.period := period_pos _
  obtain ⟨more, isMore⟩ : ∃ more, (mSecond.toNat + 9) / 10 = more + 1 :=
    ⟨(mSecond.toNat + 9) / 10 - 1, by omega⟩
  let returned := more * timer.period + 1
  have counted : timer.ticksAt returned - timer.ticksAt 0 = UInt32.ofNat (more + 1) := by
    have all : timer.loaded + returned = (more + 1) * timer.period := by
      rw [Nat.add_mul, Nat.one_mul]
      show timer.period - 1 + (more * timer.period + 1) = _
      omega
    have none : (timer.loaded + 0) / timer.period = 0 :=
      Nat.div_eq_of_lt (Nat.sub_lt periodPos Nat.one_pos)
    rw [timer.ticksAt_sub (Nat.zero_le _), all, none, Nat.mul_div_cancel _ periodPos,
      Nat.sub_zero]
  have reached : ¬ timer.ticksAt returned - timer.ticksAt 0 <
      (mSecond + Timer.milSecondPerIntr - 1) / Timer.milSecondPerIntr := by
    rw [counted, UInt32.lt_iff_toNat_lt, Timer.sleepTicks_toNat fits, UInt32.toNat_ofNat',
      Nat.mod_eq_of_lt (by omega)]
    omega
  have slept : timer.mtimeSleep mSecond 0 [returned] = .ok (some returned) := by
    rw [Timer.mtimeSleep_eq pos fits]
    exact congrArg Except.ok (if_neg reached)
  have bound := right timer 0 [returned] returned rfl (by simp) slept
  rw [Nat.zero_add] at bound
  rw [isMore] at bound ⊢
  exact bound

theorem sleepRight_iff (pit : Pit) (pos : 0 < mSecond.toNat)
    (fits : mSecond.toNat + 9 < 2 ^ 32) :
    SleepRight pit divisor mSecond ↔
      divisor.toNat < 256 ∨ divisor.toNat % 256 = 0 ∨ mSecond.toNat ≤ 10 := by
  have low := setCounter0_count divisor pit
  constructor
  · intro right
    have bound := sleep_shortest pit pos fits right
    by_contra fails
    obtain ⟨large, rest⟩ := not_or.mp fails
    obtain ⟨mixed, long⟩ := not_or.mp rest
    have longer := period_short large mixed
    have twice : 1 ≤ (mSecond.toNat + 9) / 10 - 1 := by omega
    rw [low] at bound
    have := Nat.mul_le_mul_left ((mSecond.toNat + 9) / 10 - 1) longer
    rw [Nat.mul_add] at this
    omega
  · intro enough timer call times returned isPeriod sorted slept
    rw [Timer.mtimeSleep_eq pos fits] at slept
    obtain ⟨isTime, reached⟩ := Timer.sleepLoop_eq_some (Except.ok.inj slept)
    have later := (List.pairwise_cons.mp sorted).1 returned isTime
    have elapsed := Timer.elapsed_of_ticks (isPeriod ▸ period_pos _) later reached
    rw [Timer.sleepTicks_toNat fits, isPeriod, low] at elapsed
    by_cases short : mSecond.toNat ≤ 10
    · have one : (mSecond.toNat + 9) / 10 - 1 = 0 := by omega
      rw [one] at elapsed ⊢
      omega
    · have enough : divisor.toNat < 256 ∨ divisor.toNat % 256 = 0 := by omega
      exact Nat.le_trans
        (Nat.add_le_add_left (Nat.mul_le_mul_left _ (period_enough enough)) _) elapsed

/-- A divisor gets into the counter exactly if it has one byte; delays are as long as they have
to be for these, for those whose low byte is zero, and where one tick is enough. -/
theorem timer_iff (pit : Pit) (divisor : UInt16) (mSecond : UInt32) (pos : 0 < mSecond.toNat)
    (fits : mSecond.toNat + 9 < 2 ^ 32) :
    ((setCounter0 divisor pit 0).count = divisor ↔ divisor.toNat < 256) ∧
      (TickRight pit divisor ↔ divisor.toNat < 256) ∧
      (SleepRight pit divisor mSecond ↔
        divisor.toNat < 256 ∨ divisor.toNat % 256 = 0 ∨ mSecond.toNat ≤ 10) :=
  ⟨count_right pit, tickRight_iff pit divisor, sleepRight_iff pit pos fits⟩

/-- A divisor of one byte, and two ticks. -/
theorem sleepRight_twenty : SleepRight (fun _ => ⟨0, 0, none, 0⟩) 200 20 :=
  (timer_iff (fun _ => ⟨0, 0, none, 0⟩) 200 20 (by decide) (by decide)).2.2.mpr
    (Or.inl (by decide))

/-- The divisor 11931 of `timer_init` ends up as 155. -/
theorem timerInit_tooFast :
    (timerInit (fun _ => ⟨0, 0, none, 0⟩) 0).count = 155 ∧
      ¬ TickRight (fun _ => ⟨0, 0, none, 0⟩) counter0Value ∧
      ¬ SleepRight (fun _ => ⟨0, 0, none, 0⟩) counter0Value 20 :=
  ⟨setCounter0_count counter0Value _,
    mt (tickRight_iff _ counter0Value).mp (by decide),
    mt (sleepRight_iff _ (by decide) (by decide)).mp (by decide)⟩

end Delays

end HongbaiOS.Device
