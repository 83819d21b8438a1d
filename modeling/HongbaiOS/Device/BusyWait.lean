import Mathlib.Data.Nat.Find
import Mathlib.Tactic.Common

/-!
# Waiting for a busy disk

The loop of `busy_wait` over the values its reads of the status port give.  The sleep of
10 ms in between only lets time pass.
-/

namespace HongbaiOS.Device

/-- `BIT_ALT_STAT_BSY` -/
def bitAltStatBsy : UInt8 := 0x80

/-- `BIT_ALT_STAT_DRQ` -/
def bitAltStatDrq : UInt8 := 0x8

def Busy (status : UInt8) : Prop := status &&& bitAltStatBsy ≠ 0

instance (status : UInt8) : Decidable (Busy status) := inferInstanceAs (Decidable (_ ≠ _))

def drqBit (status : UInt8) : Bool := status &&& bitAltStatDrq ≠ 0

/-- What a call of `busy_wait` returns and how it got there. -/
structure Waited where
  drq : Bool
  /-- The reads that are tested for `BIT_ALT_STAT_BSY`. -/
  samples : Nat
  /-- The countdown has gone below zero. -/
  wrapped : Bool

/-- `10 >= 0`, which is what `time_limit -= 10 >= 0` takes off. -/
def timeStep : UInt16 := if (10 : Int) ≥ 0 then 1 else 0

/-- The loop of `busy_wait`; `status` has the values of the reads in order. -/
def busyLoop (status : Nat → UInt8) (timeLimit : UInt16) (samples : Nat) : Waited :=
  let wrapped := decide (timeLimit < timeStep)
  if timeLimit - timeStep = 0 then { drq := false, samples := samples, wrapped := wrapped }
  else if ¬ Busy (status samples) then
    { drq := drqBit (status (samples + 1)), samples := samples + 1, wrapped := wrapped }
  else
    let rest := busyLoop status (timeLimit - timeStep) (samples + 1)
    { rest with wrapped := wrapped || rest.wrapped }
termination_by (timeLimit - 1).toNat
decreasing_by
  next more _ =>
    have pos : 0 < (timeLimit - 1).toNat :=
      Nat.pos_of_ne_zero fun isZero => more (UInt16.toNat_inj.mp isZero)
    show (timeLimit - 1 - 1).toNat < (timeLimit - 1).toNat
    rw [UInt16.toNat_sub_of_le (timeLimit - 1) 1 (UInt16.le_iff_toNat_le.mpr pos)]
    exact Nat.sub_lt pos Nat.one_pos

/-- `busy_wait` -/
def busyWait (status : Nat → UInt8) : Waited := busyLoop status (30 * 1000) 0

section Loop

variable {status : Nat → UInt8} {timeLimit : UInt16} {samples : Nat}

end Loop

section Wait

variable {status : Nat → UInt8}

end Wait

end HongbaiOS.Device
