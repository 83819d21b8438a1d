import HongbaiOS.Lib.Bitmap
import Mathlib.Order.Bounds.Defs

/-!
# The search for free runs

`bitmap_scan` finds the lowest run of clear bits whenever there is one.  Without one it
never returns: a full map runs into the assertion behind its first loop, any other map into
the one of `bitmap_scan_test`, as the last loop goes one bit too far.  Bit indices are
numbers here; they would leave `int` with a map of `2 ^ 28` bytes.
-/

namespace HongbaiOS.Lib

open HongbaiOS.Library HongbaiOS.Kernel

/-- The `cnt` bits from `i` on are in the map and clear. -/
def Bitmap.FreeRun (btmp : Bitmap) (cnt i : Nat) : Prop :=
  i + cnt ≤ btmp.bitLen ∧ ∀ j, i ≤ j → j < i + cnt → btmp.bit j = false

/-- Where the last loop stands: `count` clear bits lie before `nextBit`, and the loop may
still test the bit behind the last one. -/
structure ScanState (btmp : Bitmap) (cnt bitLeft nextBit count : Nat) : Prop where
  before : count ≤ nextBit
  clear : ∀ j, nextBit - count ≤ j → j < nextBit → btmp.bit j = false
  short : count < cnt
  left : nextBit + bitLeft = btmp.bitLen + 1

section ScanRun

variable {btmp : Bitmap} {cnt bitLeft nextBit count i : Nat}

namespace ScanState

theorem of_set (state : ScanState btmp cnt (bitLeft + 1) nextBit count) :
    ScanState btmp cnt bitLeft (nextBit + 1) 0 where
  before := Nat.zero_le _
  clear j low high := by omega
  short := Nat.zero_lt_of_lt state.short
  left := by
    have left := state.left
    omega

theorem clear_succ (state : ScanState btmp cnt (bitLeft + 1) nextBit count)
    (isClear : btmp.bit nextBit = false) :
    ∀ j, nextBit + 1 - (count + 1) ≤ j → j < nextBit + 1 → btmp.bit j = false := by
  intro j low high
  rcases Nat.lt_succ_iff_lt_or_eq.mp high with earlier | rfl
  · exact state.clear j (by omega) earlier
  · exact isClear

theorem of_clear (state : ScanState btmp cnt (bitLeft + 1) nextBit count)
    (isClear : btmp.bit nextBit = false) (incomplete : count + 1 ≠ cnt) :
    ScanState btmp cnt bitLeft (nextBit + 1) (count + 1) where
  before := Nat.succ_le_succ state.before
  clear := state.clear_succ isClear
  short := Nat.lt_of_le_of_ne state.short incomplete
  left := by
    have left := state.left
    omega

theorem freeRun (state : ScanState btmp cnt (bitLeft + 1) nextBit count)
    (inside : nextBit < btmp.bitLen) (isClear : btmp.bit nextBit = false)
    (complete : count + 1 = cnt) : btmp.FreeRun cnt (nextBit + 1 - cnt) := by
  have before := state.before
  refine ⟨by omega, fun j low high => ?_⟩
  exact state.clear_succ isClear j (by omega) (by omega)

end ScanState

theorem bitmapScanTest_eq (inside : i < btmp.bitLen) :
    bitmapScanTest btmp i = .ok (btmp.bit i) :=
  bitmapScanTest_eq_ok.mpr ⟨inside, rfl⟩

theorem scanRun_of_least (state : ScanState btmp cnt bitLeft nextBit count)
    (least : IsLeast {i | btmp.FreeRun cnt i} i) (behind : nextBit - count ≤ i) :
    scanRun btmp cnt bitLeft nextBit count = .ok (some i) := by
  obtain ⟨⟨fits, run⟩, lowest⟩ := least
  induction bitLeft generalizing nextBit count with
  | zero =>
      have left := state.left
      have short := state.short
      omega
  | succ bitLeft inductionHypothesis =>
      have short := state.short
      have before := state.before
      have inside : nextBit < btmp.bitLen := by omega
      rw [scanRun, bitmapScanTest_eq inside, ok_bind]
      cases isSet : btmp.bit nextBit with
      | true =>
          have later : nextBit < i := by
            by_contra early
            have isClear := run nextBit (by omega) (by omega)
            rw [isSet] at isClear
            cases isClear
          have nonzero : ¬ 0 = cnt := by omega
          simp only [if_true, nonzero, if_false]
          exact inductionHypothesis state.of_set (by omega)
      | false =>
          simp only [Bool.false_eq_true, if_false]
          by_cases complete : count + 1 = cnt
          · have found : i ≤ nextBit + 1 - cnt :=
              lowest (state.freeRun inside isSet complete)
            have same : nextBit + 1 - cnt = i := by omega
            rw [if_pos complete, same]
            rfl
          · rw [if_neg complete]
            exact inductionHypothesis (state.of_clear isSet complete) (by omega)

theorem scanRun_of_none (state : ScanState btmp cnt bitLeft nextBit count)
    (more : nextBit ≤ btmp.bitLen) (noRun : ∀ i, ¬ btmp.FreeRun cnt i) :
    scanRun btmp cnt bitLeft nextBit count = .error (.panic .bitmapScanTest) := by
  induction bitLeft generalizing nextBit count with
  | zero =>
      have left := state.left
      omega
  | succ bitLeft inductionHypothesis =>
      have short := state.short
      rw [scanRun]
      rcases Nat.lt_or_eq_of_le more with inside | past
      · rw [bitmapScanTest_eq inside, ok_bind]
        cases isSet : btmp.bit nextBit with
        | true =>
            have nonzero : ¬ 0 = cnt := by omega
            simp only [if_true, nonzero, if_false]
            exact inductionHypothesis state.of_set inside
        | false =>
            have incomplete : count + 1 ≠ cnt := fun complete =>
              noRun _ (state.freeRun inside isSet complete)
            simp only [Bool.false_eq_true, if_false, incomplete]
            exact inductionHypothesis (state.of_clear isSet incomplete) inside
      · have fails : ¬ nextBit < btmp.btmpBytesLen * 8 := by
          rw [past, Bitmap.bitLen]
          exact lt_irrefl _
        simp [bitmapScanTest, check, fails]

end ScanRun

section Scan

variable {btmp : Bitmap} {cnt i : Nat}

/-- Behind the first two loops: the last loop starts with the first clear bit counted. -/
theorem bitmapScan_eq_scanRun (several : 1 < cnt)
    (short : skipFullBytes btmp.btmpBits btmp.btmpBytesLen 0 < btmp.btmpBytesLen) :
    ∃ start, bitmapScan .asserts btmp cnt =
        scanRun btmp cnt (btmp.bitLen - start) (start + 1) 1 ∧
      start < btmp.bitLen ∧ (∀ j < start, btmp.bit j = true) ∧
      ScanState btmp cnt (btmp.bitLen - start) (start + 1) 1 := by
  obtain ⟨inside, isClear, set⟩ := firstClear_spec btmp short
  refine ⟨_, ?_, inside, set, Nat.le_add_left 1 _, fun j low high => ?_, several, by omega⟩
  · have notSingle : ¬ cnt = 1 := by omega
    simp [bitmapScan, Bitmap.bitLen, check, short, short.ne, notSingle]
  · obtain rfl := Nat.le_antisymm (Nat.le_of_lt_succ high) low
    exact isClear

theorem Bitmap.FreeRun.one (inside : i < btmp.bitLen) (isClear : btmp.bit i = false) :
    btmp.FreeRun 1 i := by
  refine ⟨inside, fun j low high => ?_⟩
  obtain rfl := Nat.le_antisymm low (Nat.le_of_lt_succ high)
  exact isClear

theorem Bitmap.FreeRun.behind (run : btmp.FreeRun cnt i) (positive : 0 < cnt) {start : Nat}
    (set : ∀ j < start, btmp.bit j = true) : start ≤ i := by
  by_contra early
  have isClear := run.2 i le_rfl (by omega)
  rw [set i (by omega)] at isClear
  cases isClear

theorem bitmapScan_of_least (positive : 0 < cnt) (least : IsLeast {i | btmp.FreeRun cnt i} i) :
    bitmapScan .asserts btmp cnt = .ok (some i) := by
  have run : btmp.FreeRun cnt i := least.1
  have inside : i < btmp.bitLen := by
    have fits := run.1
    omega
  rcases Nat.lt_or_ge 1 cnt with several | single
  · have bound := (skipFullBytes_spec btmp.btmpBits btmp.btmpBytesLen 0).2.1
    have short : skipFullBytes btmp.btmpBits btmp.btmpBytesLen 0 < btmp.btmpBytesLen := by
      by_contra all
      have all' : skipFullBytes btmp.btmpBits btmp.btmpBytesLen 0 = btmp.btmpBytesLen := by
        omega
      have set := allSet_of_skip all' i inside
      rw [run.2 i le_rfl (by omega)] at set
      cases set
    obtain ⟨start, scan, -, set, state⟩ := bitmapScan_eq_scanRun several short
    rw [scan]
    exact scanRun_of_least state least (run.behind positive set)
  · obtain rfl : cnt = 1 := by omega
    refine bitmapScan_one_of_free .asserts inside (run.2 i le_rfl (by omega)) fun j earlier => ?_
    by_contra isClear
    have other : btmp.FreeRun 1 j := .one (earlier.trans inside) (eq_false_of_ne_true isClear)
    exact absurd (least.2 other) (Nat.not_le.mpr earlier)

/-- In every map with a run of `cnt` clear bits the lowest one is found.  The code's `int` holds
every index in a map of less than 2^28 bytes; the kernel has no memory for a larger one. -/
theorem bitmapScan_finds_lowest (positive : 0 < cnt) (hasRun : ∃ i, btmp.FreeRun cnt i) :
    ∃ i, bitmapScan .asserts btmp cnt = .ok (some i) ∧ IsLeast {i | btmp.FreeRun cnt i} i := by
  classical
  have least : IsLeast {i | btmp.FreeRun cnt i} (Nat.find hasRun) :=
    ⟨Nat.find_spec hasRun, fun _ run => Nat.find_min' hasRun run⟩
  exact ⟨_, bitmapScan_of_least positive least, least⟩

/-- Bits 7 and 8 of a map of two bytes. -/
theorem bitmapScan_finds_lowest_two : ∃ i,
    bitmapScan .asserts ⟨2, fun a => if a = 0 then 0x7f else 0xfe⟩ 2 = .ok (some i) ∧
      IsLeast {i | Bitmap.FreeRun ⟨2, fun a => if a = 0 then 0x7f else 0xfe⟩ 2 i} i :=
  bitmapScan_finds_lowest (by decide) ⟨7, by decide, fun j low high => by
    interval_cases j <;> decide⟩

/-- In a map without one an assertion fails: the one of `bitmap_scan` if all bits are set,
else the one of `bitmap_scan_test`. -/
theorem bitmapScan_without_run (positive : 0 < cnt) (noRun : ∀ i, ¬ btmp.FreeRun cnt i) :
    bitmapScan .asserts btmp cnt =
      .error (.panic (if ∀ i < btmp.bitLen, btmp.bit i = true then .bitmapScan
        else .bitmapScanTest)) := by
  have bound := (skipFullBytes_spec btmp.btmpBits btmp.btmpBytesLen 0).2.1
  by_cases short : skipFullBytes btmp.btmpBits btmp.btmpBytesLen 0 < btmp.btmpBytesLen
  · obtain ⟨inside, isClear, -⟩ := firstClear_spec btmp short
    have notFull : ¬ ∀ i < btmp.bitLen, btmp.bit i = true := by
      intro full
      rw [full _ inside] at isClear
      cases isClear
    have several : 1 < cnt := by
      by_contra single
      obtain rfl : cnt = 1 := by omega
      exact noRun _ (.one inside isClear)
    obtain ⟨start, scan, inside', -, state⟩ := bitmapScan_eq_scanRun several short
    rw [scan, if_neg notFull]
    exact scanRun_of_none state inside' noRun
  · have all : skipFullBytes btmp.btmpBits btmp.btmpBytesLen 0 = btmp.btmpBytesLen := by omega
    rw [if_pos (allSet_of_skip all)]
    simp [bitmapScan, check, short]

/-- A map of one byte with all bits set. -/
theorem bitmapScan_without_run_full :
    bitmapScan .asserts ⟨1, Bytes.fill 0xff⟩ 1 = .error (.panic (
      if ∀ i < Bitmap.bitLen ⟨1, Bytes.fill 0xff⟩, Bitmap.bit ⟨1, Bytes.fill 0xff⟩ i = true
      then .bitmapScan else .bitmapScanTest)) := by
  refine bitmapScan_without_run (by decide) fun i run => ?_
  have isClear := run.2 i le_rfl (Nat.lt_succ_self i)
  have set : ∀ j < 8, Bitmap.bit ⟨1, Bytes.fill 0xff⟩ j = true := by decide
  rw [set i run.1] at isClear
  cases isClear

/-- Nor does it return for two bits when only the last one is free. -/
theorem bitmapScan_one_bit_too_far :
    (∀ i, ¬ Bitmap.FreeRun ⟨1, Bytes.fill 0x7f⟩ 2 i) ∧
      bitmapScan .asserts ⟨1, Bytes.fill 0x7f⟩ 2 ≠ .ok none := by
  refine ⟨fun i run => ?_, by decide⟩
  have isClear := run.2 i le_rfl (by omega)
  have set : ∀ j < 7, Bitmap.bit ⟨1, Bytes.fill 0x7f⟩ j = true := by decide
  have fits : i + 2 ≤ 8 := run.1
  rw [set i (by omega)] at isClear
  cases isClear

end Scan

end HongbaiOS.Lib
