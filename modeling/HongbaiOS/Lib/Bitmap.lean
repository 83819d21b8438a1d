import HongbaiOS.Kernel.Debug
import HongbaiOS.Library.Bytes
import HongbaiOS.Library.Except
import Mathlib.Data.Finset.Card
import Mathlib.Data.Finset.Range
import Mathlib.Data.Nat.Bitwise

/-!
# Bitmaps

`bitmap.c`: allocation maps kept as arrays of bytes, bit `i` in byte `i / 8`.
`bitmap_scan` is modelled with its assertion that some byte is not `0xff`, and
with the reading its callers rely on, where a full map gives `-1`.
-/

namespace HongbaiOS.Lib

open HongbaiOS.Library HongbaiOS.Kernel

/-- `struct bitmap`. -/
structure Bitmap where
  btmpBytesLen : Nat
  btmpBits : Bytes

/-- What `bitmap_scan` does when every byte is `0xff`. -/
inductive FullScan where
  /-- The code: `ASSERT(idx_byte < btmp->btmp_bytes_len)` fires. -/
  | asserts
  /-- The `return -1` after the assertion is reached. -/
  | returnsMinusOne
  deriving DecidableEq, Repr

/-- `BITMAP_MASK << bit_odd`. -/
def bitmapMask (bitOdd : Nat) : UInt8 := 1 <<< UInt8.ofNat bitOdd

namespace Bitmap

/-- Bit `i` of the map, without the bound check. -/
def bit (btmp : Bitmap) (i : Nat) : Bool :=
  (btmp.btmpBits (i / 8) &&& bitmapMask (i % 8)) != 0

def bitLen (btmp : Bitmap) : Nat := btmp.btmpBytesLen * 8

/-- Store `value` in byte `byteIdx`. -/
def setByte (btmp : Bitmap) (byteIdx : Nat) (value : UInt8) : Bitmap :=
  { btmp with btmpBits := Function.update btmp.btmpBits byteIdx value }

end Bitmap

/-- `bitmap_scan_test(btmp, bit_idx)`. -/
def bitmapScanTest (btmp : Bitmap) (bitIdx : Nat) : Except Halt Bool := do
  check .bitmapScanTest (bitIdx < btmp.btmpBytesLen * 8)
  return btmp.bit bitIdx

/-- `bitmap_set(btmp, bit_idx, value)`. -/
def bitmapSet (btmp : Bitmap) (bitIdx : Nat) (value : Bool) : Except Halt Bitmap := do
  check .bitmapSet (bitIdx < btmp.btmpBytesLen * 8)
  let byteIdx := bitIdx / 8
  let mask := bitmapMask (bitIdx % 8)
  return btmp.setByte byteIdx
    (if value then btmp.btmpBits byteIdx ||| mask else btmp.btmpBits byteIdx &&& ~~~mask)

/-- The first loop of `bitmap_scan`: the first byte from `idxByte` on, of the
next `left` ones, that is not `0xff`. -/
def skipFullBytes (bits : Bytes) : (left idxByte : Nat) → Nat
  | 0, idxByte => idxByte
  | left + 1, idxByte =>
      if bits idxByte = 0xff then skipFullBytes bits left (idxByte + 1) else idxByte

/-- The second loop: the first clear bit of a byte, among bits `idxBit ..`. -/
def skipSetBits (byte : UInt8) : (left idxBit : Nat) → Nat
  | 0, idxBit => idxBit
  | left + 1, idxBit =>
      if byte &&& bitmapMask idxBit ≠ 0 then skipSetBits byte left (idxBit + 1) else idxBit

/-- The third loop: count clear bits from `nextBit` on until `cnt` stand in a
row.  The bits are read by `bitmap_scan_test`, one past the end included. -/
def scanRun (btmp : Bitmap) (cnt : Nat) : (bitLeft nextBit count : Nat) →
    Except Halt (Option Nat)
  | 0, _, _ => .ok none
  | bitLeft + 1, nextBit, count => do
      let taken ← bitmapScanTest btmp nextBit
      let count := if taken then 0 else count + 1
      if count = cnt then
        return some (nextBit + 1 - cnt)
      scanRun btmp cnt bitLeft (nextBit + 1) count

/-- `bitmap_scan(btmp, cnt)`; `none` is the result `-1`. -/
def bitmapScan (full : FullScan) (btmp : Bitmap) (cnt : Nat) :
    Except Halt (Option Nat) := do
  let idxByte := skipFullBytes btmp.btmpBits btmp.btmpBytesLen 0
  check .bitmapScan (full = .returnsMinusOne ∨ idxByte < btmp.btmpBytesLen)
  if idxByte = btmp.btmpBytesLen then
    return none
  let bitIdxStart := idxByte * 8 + skipSetBits (btmp.btmpBits idxByte) 8 0
  if cnt = 1 then
    return some bitIdxStart
  scanRun btmp cnt (btmp.btmpBytesLen * 8 - bitIdxStart) (bitIdxStart + 1) 1

theorem Bitmap.bit_fill_zero (len i : Nat) : (⟨len, Bytes.fill 0⟩ : Bitmap).bit i = false := by
  simp only [bit, Bytes.fill_apply, UInt8.zero_and, bne_self_eq_false]

theorem bitmapMask_toNat {k : Nat} (small : k < 8) : (bitmapMask k).toNat = 2 ^ k := by
  interval_cases k <;> rfl

theorem and_bitmapMask_ne_zero {k : Nat} (small : k < 8) (byte : UInt8) :
    (byte &&& bitmapMask k != 0) = byte.toNat.testBit k := by
  have value : (byte &&& bitmapMask k).toNat = (byte.toNat.testBit k).toNat * 2 ^ k := by
    rw [UInt8.toNat_and, bitmapMask_toNat small, Nat.and_two_pow, Nat.mul_comm]
  have zero_iff : byte &&& bitmapMask k = 0 ↔ byte.toNat.testBit k = false := by
    rw [← UInt8.toNat_inj, value]
    cases byte.toNat.testBit k <;> simp
  cases set : byte.toNat.testBit k with
  | false => simp [zero_iff.mpr set]
  | true => simp [bne_iff_ne, zero_iff, set]

theorem testBit_or_bitmapMask {k : Nat} (small : k < 8) (byte : UInt8) (j : Nat) :
    (byte ||| bitmapMask k).toNat.testBit j = (byte.toNat.testBit j || decide (k = j)) := by
  rw [UInt8.toNat_or, bitmapMask_toNat small, Nat.testBit_or, Nat.testBit_two_pow]

theorem testBit_and_not_bitmapMask {k : Nat} (small : k < 8) (byte : UInt8) {j : Nat}
    (inside : j < 8) :
    (byte &&& ~~~bitmapMask k).toNat.testBit j =
      (byte.toNat.testBit j && decide (k ≠ j)) := by
  have power : 2 ^ k < 2 ^ 8 := Nat.pow_lt_pow_right (by decide) small
  rw [UInt8.toNat_and, UInt8.toNat_not, bitmapMask_toNat small, Nat.testBit_and]
  congr 1
  rw [show UInt8.size - 1 - 2 ^ k = 2 ^ 8 - (2 ^ k + 1) by
      simp only [UInt8.size]
      omega,
    Nat.testBit_two_pow_sub_succ power, Nat.testBit_two_pow]
  simp [inside]

theorem byte_ext {byte byte' : UInt8}
    (same : ∀ k < 8, byte.toNat.testBit k = byte'.toNat.testBit k) : byte = byte' := by
  apply UInt8.toNat_inj.mp
  apply Nat.eq_of_testBit_eq
  intro j
  by_cases inside : j < 8
  · exact same j inside
  · have large : 2 ^ 8 ≤ 2 ^ j := Nat.pow_le_pow_right (by decide) (by omega)
    rw [Nat.testBit_lt_two_pow (lt_of_lt_of_le byte.toNat_lt large),
      Nat.testBit_lt_two_pow (lt_of_lt_of_le byte'.toNat_lt large)]

theorem eq_ff_iff (byte : UInt8) : byte = 0xff ↔ ∀ k < 8, byte.toNat.testBit k = true := by
  have full : ∀ k < 8, (0xff : UInt8).toNat.testBit k = true := by decide
  constructor
  · rintro rfl
    exact full
  · intro all
    exact byte_ext fun k small => (all k small).trans (full k small).symm

namespace Bitmap

variable {btmp btmp' : Bitmap}

theorem bit_eq_testBit (btmp : Bitmap) (i : Nat) :
    btmp.bit i = (btmp.btmpBits (i / 8)).toNat.testBit (i % 8) :=
  and_bitmapMask_ne_zero (Nat.mod_lt _ (by decide)) _

@[simp]
theorem setByte_btmpBytesLen (byteIdx : Nat) (value : UInt8) :
    (btmp.setByte byteIdx value).btmpBytesLen = btmp.btmpBytesLen := rfl

@[simp]
theorem setByte_bitLen (byteIdx : Nat) (value : UInt8) :
    (btmp.setByte byteIdx value).bitLen = btmp.bitLen := rfl

/-- The map with bit `i` stored as `value`. -/
def put (btmp : Bitmap) (i : Nat) (value : Bool) : Bitmap :=
  btmp.setByte (i / 8)
    (if value then btmp.btmpBits (i / 8) ||| bitmapMask (i % 8)
      else btmp.btmpBits (i / 8) &&& ~~~bitmapMask (i % 8))

@[simp]
theorem put_bitLen (i : Nat) (value : Bool) : (btmp.put i value).bitLen = btmp.bitLen := rfl

@[simp]
theorem put_btmpBytesLen (i : Nat) (value : Bool) :
    (btmp.put i value).btmpBytesLen = btmp.btmpBytesLen := rfl

theorem bit_put (btmp : Bitmap) (i : Nat) (value : Bool) (j : Nat) :
    (btmp.put i value).bit j = if j = i then value else btmp.bit j := by
  have small : i % 8 < 8 := Nat.mod_lt _ (by decide)
  have inside : j % 8 < 8 := Nat.mod_lt _ (by decide)
  rw [bit_eq_testBit, bit_eq_testBit, put, setByte]
  by_cases sameByte : j / 8 = i / 8
  · have sameBit : i % 8 = j % 8 ↔ j = i := by omega
    simp only [sameByte, Function.update_self]
    cases value with
    | true =>
        simp only [if_true, testBit_or_bitmapMask small, sameBit]
        split <;> simp [*]
    | false =>
        simp only [Bool.false_eq_true, if_false, testBit_and_not_bitmapMask small _ inside,
          ne_eq, sameBit]
        split <;> simp [*]
  · have different : j ≠ i := by
      rintro rfl
      exact sameByte rfl
    simp [different, Function.update_of_ne sameByte]

@[simp]
theorem bit_put_self (i : Nat) (value : Bool) : (btmp.put i value).bit i = value := by
  simp [bit_put]

theorem bit_put_of_ne {i j : Nat} (different : j ≠ i) (value : Bool) :
    (btmp.put i value).bit j = btmp.bit j := by
  simp [bit_put, different]

theorem ext_bit (sameLen : btmp.btmpBytesLen = btmp'.btmpBytesLen)
    (sameBits : ∀ i, btmp.bit i = btmp'.bit i) : btmp = btmp' := by
  have sameBytes : btmp.btmpBits = btmp'.btmpBits := by
    funext a
    apply byte_ext
    intro k small
    have quotient : (8 * a + k) / 8 = a := by omega
    have remainder : (8 * a + k) % 8 = k := by omega
    have same := sameBits (8 * a + k)
    rwa [bit_eq_testBit, bit_eq_testBit, quotient, remainder] at same
  cases btmp
  cases btmp'
  simp only at sameLen sameBytes
  rw [sameLen, sameBytes]

/-- Taking a free bit and giving it back restores the map. -/
theorem put_put_cancel {i : Nat} (free : btmp.bit i = false) :
    (btmp.put i true).put i false = btmp := by
  refine ext_bit ?_ fun j => ?_
  · rfl
  · rw [bit_put, bit_put]
    split
    next same => rw [same, free]
    next => rfl

end Bitmap

theorem bitmapSet_eq_ok {btmp btmp' : Bitmap} {i : Nat} {value : Bool} :
    bitmapSet btmp i value = .ok btmp' ↔ i < btmp.bitLen ∧ btmp' = btmp.put i value := by
  constructor
  · intro ran
    obtain ⟨_, passed, result⟩ := except_bind_eq_ok.mp ran
    simp only [check_eq_ok, decide_eq_true_eq] at passed
    exact ⟨passed, (Except.ok.inj result).symm⟩
  · rintro ⟨inside, rfl⟩
    simp only [Bitmap.bitLen] at inside
    simp [bitmapSet, inside, Bitmap.put]

theorem bitmapSet_eq {btmp : Bitmap} {i : Nat} (inside : i < btmp.bitLen) (value : Bool) :
    bitmapSet btmp i value = .ok (btmp.put i value) :=
  bitmapSet_eq_ok.mpr ⟨inside, rfl⟩

/-- Clearing the bit just taken. -/
theorem bitmapSet_put_cancel {btmp : Bitmap} {i : Nat} (inside : i < btmp.bitLen)
    (free : btmp.bit i = false) : bitmapSet (btmp.put i true) i false = .ok btmp := by
  have inside' : i < (btmp.put i true).bitLen := inside
  rw [bitmapSet_eq inside', Bitmap.put_put_cancel free]

theorem bitmapScanTest_eq_ok {btmp : Bitmap} {i : Nat} {value : Bool} :
    bitmapScanTest btmp i = .ok value ↔ i < btmp.bitLen ∧ btmp.bit i = value := by
  simp [bitmapScanTest, except_bind_eq_ok, Bitmap.bitLen]

namespace Bitmap

variable {btmp : Bitmap}

/-- The positions of the clear bits. -/
def freeBits (btmp : Bitmap) : Finset Nat :=
  (Finset.range btmp.bitLen).filter fun i => btmp.bit i = false

/-- How many more bits can be taken. -/
def freeCount (btmp : Bitmap) : Nat := btmp.freeBits.card

@[simp]
theorem mem_freeBits {i : Nat} :
    i ∈ btmp.freeBits ↔ i < btmp.bitLen ∧ btmp.bit i = false := by
  simp [freeBits]

theorem freeCount_eq_zero_iff :
    btmp.freeCount = 0 ↔ ∀ i < btmp.bitLen, btmp.bit i = true := by
  rw [freeCount, Finset.card_eq_zero, Finset.eq_empty_iff_forall_notMem]
  constructor
  · intro none i inside
    by_contra clear
    exact none i (mem_freeBits.mpr ⟨inside, by simpa using clear⟩)
  · intro all i isFree
    obtain ⟨inside, clear⟩ := mem_freeBits.mp isFree
    rw [all i inside] at clear
    cases clear

theorem exists_free_of_pos (some : 0 < btmp.freeCount) :
    ∃ i < btmp.bitLen, btmp.bit i = false := by
  obtain ⟨i, isFree⟩ := Finset.card_pos.mp some
  exact ⟨i, mem_freeBits.mp isFree⟩

theorem freeCount_put_true {i : Nat} (inside : i < btmp.bitLen) (free : btmp.bit i = false) :
    (btmp.put i true).freeCount + 1 = btmp.freeCount := by
  have erased : (btmp.put i true).freeBits = btmp.freeBits.erase i := by
    ext j
    rw [Finset.mem_erase, mem_freeBits, mem_freeBits, put_bitLen, bit_put]
    by_cases same : j = i
    · simp [same]
    · simp [same]
  rw [freeCount, freeCount, erased]
  exact Finset.card_erase_add_one (mem_freeBits.mpr ⟨inside, free⟩)

/-- The bit that a scan for a single one gives. -/
structure LowestFree (btmp : Bitmap) (i : Nat) : Prop where
  inside : i < btmp.bitLen
  free : btmp.bit i = false
  before : ∀ j < i, btmp.bit j = true

theorem exists_lowestFree (some : 0 < btmp.freeCount) : ∃ i, btmp.LowestFree i := by
  classical
  have exists_free : ∃ i, i < btmp.bitLen ∧ btmp.bit i = false := exists_free_of_pos some
  obtain ⟨inside, free⟩ := Nat.find_spec exists_free
  refine ⟨Nat.find exists_free, inside, free, fun j earlier => ?_⟩
  by_contra clear
  exact Nat.find_min exists_free earlier ⟨by omega, by simpa using clear⟩

theorem LowestFree.le {i j : Nat} (lowest : btmp.LowestFree i) (free : btmp.bit j = false) :
    i ≤ j := by
  by_contra earlier
  rw [lowest.before j (by omega)] at free
  cases free

theorem LowestFree.next {i j : Nat} (lowest : btmp.LowestFree i)
    (next : (btmp.put i true).LowestFree j) : i < j ∧ btmp.bit j = false := by
  have free := next.free
  rw [bit_put] at free
  split at free
  next => cases free
  next different =>
    have atMost := lowest.le free
    exact ⟨by omega, free⟩

end Bitmap

/-- Where the first loop stops: every byte before is full, and the byte there is
not, unless the end was reached. -/
theorem skipFullBytes_spec (bits : Bytes) (left idxByte : Nat) :
    idxByte ≤ skipFullBytes bits left idxByte ∧
      skipFullBytes bits left idxByte ≤ idxByte + left ∧
      (∀ a, idxByte ≤ a → a < skipFullBytes bits left idxByte → bits a = 0xff) ∧
      (skipFullBytes bits left idxByte < idxByte + left →
        bits (skipFullBytes bits left idxByte) ≠ 0xff) := by
  induction left generalizing idxByte with
  | zero =>
      simp only [skipFullBytes, Nat.add_zero, le_refl, lt_irrefl, false_implies, and_true,
        true_and]
      intro a low high
      omega
  | succ left inductionHypothesis =>
      obtain ⟨low, high, full, stopped⟩ := inductionHypothesis (idxByte + 1)
      simp only [skipFullBytes]
      split
      next isFull =>
        refine ⟨by omega, by omega, ?_, ?_⟩
        · intro a above below
          rcases Nat.eq_or_lt_of_le above with rfl | later
          · exact isFull
          · exact full a later below
        · intro short
          exact stopped (by omega)
      next notFull =>
        refine ⟨le_refl _, by omega, ?_, fun _ => notFull⟩
        intro a above below
        omega

/-- Where the second loop stops. -/
theorem skipSetBits_spec (byte : UInt8) (left idxBit : Nat) (bounded : idxBit + left ≤ 8) :
    idxBit ≤ skipSetBits byte left idxBit ∧
      skipSetBits byte left idxBit ≤ idxBit + left ∧
      (∀ k, idxBit ≤ k → k < skipSetBits byte left idxBit → byte.toNat.testBit k = true) ∧
      (skipSetBits byte left idxBit < idxBit + left →
        byte.toNat.testBit (skipSetBits byte left idxBit) = false) := by
  induction left generalizing idxBit with
  | zero =>
      simp only [skipSetBits, Nat.add_zero, le_refl, lt_irrefl, false_implies, and_true,
        true_and]
      intro a low high
      omega
  | succ left inductionHypothesis =>
      obtain ⟨low, high, full, stopped⟩ := inductionHypothesis (idxBit + 1) (by omega)
      have tested := and_bitmapMask_ne_zero (by omega : idxBit < 8) byte
      simp only [skipSetBits]
      split
      next isSet =>
        refine ⟨by omega, by omega, ?_, ?_⟩
        · intro k above below
          rcases Nat.eq_or_lt_of_le above with rfl | later
          · rw [← tested]
            simpa using isSet
          · exact full k later below
        · intro short
          exact stopped (by omega)
      next isClear =>
        refine ⟨le_refl _, by omega, ?_, fun _ => ?_⟩
        · intro k above below
          omega
        · rw [← tested]
          simpa using isClear

/-- The run found by the third loop: `count` clear bits stand right before
`nextBit` when it starts. -/
theorem scanRun_eq_some {btmp : Bitmap} {cnt bitLeft nextBit count i : Nat}
    (before : count ≤ nextBit)
    (clear : ∀ j, nextBit - count ≤ j → j < nextBit → btmp.bit j = false)
    (found : scanRun btmp cnt bitLeft nextBit count = .ok (some i)) :
    nextBit - count ≤ i ∧ i + cnt ≤ btmp.bitLen ∧
      ∀ j, i ≤ j → j < i + cnt → btmp.bit j = false := by
  induction bitLeft generalizing nextBit count with
  | zero => simp [scanRun] at found
  | succ bitLeft inductionHypothesis =>
      obtain ⟨taken, tested, rest⟩ := except_bind_eq_ok.mp found
      obtain ⟨inside, bitValue⟩ := bitmapScanTest_eq_ok.mp tested
      have clear' : ∀ j, nextBit + 1 - (if taken then 0 else count + 1) ≤ j →
          j < nextBit + 1 → btmp.bit j = false := by
        intro j low high
        cases taken with
        | true =>
            simp only [if_true] at low
            omega
        | false =>
            rcases Nat.lt_succ_iff_lt_or_eq.mp high with earlier | rfl
            · simp only [Bool.false_eq_true, if_false] at low
              exact clear j (by omega) earlier
            · exact bitValue
      have shrinks : nextBit - count ≤ nextBit + 1 - (if taken then 0 else count + 1) := by
        split <;> omega
      by_cases complete : (if taken then 0 else count + 1) = cnt
      · simp only [complete, if_true, pure_eq_ok, Except.ok.injEq, Option.some.injEq] at rest
        rw [complete] at clear' shrinks
        have long : cnt ≤ nextBit + 1 := by
          rw [← complete]
          split <;> omega
        refine ⟨by omega, by omega, fun j low high => clear' j (by omega) (by omega)⟩
      · simp only [complete, if_false] at rest
        have start : (if taken then 0 else count + 1) ≤ nextBit + 1 := by
          split <;> omega
        obtain ⟨low, high, run⟩ := inductionHypothesis start clear' rest
        exact ⟨by omega, high, run⟩

theorem scanRun_ne_none {btmp : Bitmap} {cnt bitLeft nextBit count : Nat}
    (nonempty : 0 < bitLeft) (past : btmp.bitLen ≤ nextBit + bitLeft - 1) :
    scanRun btmp cnt bitLeft nextBit count ≠ .ok none := by
  induction bitLeft generalizing nextBit count with
  | zero => omega
  | succ bitLeft inductionHypothesis =>
      intro ended
      obtain ⟨taken, tested, rest⟩ := except_bind_eq_ok.mp ended
      obtain ⟨inside, -⟩ := bitmapScanTest_eq_ok.mp tested
      by_cases complete : (if taken then 0 else count + 1) = cnt
      · simp [complete] at rest
      · simp only [complete, if_false] at rest
        exact inductionHypothesis (by omega) (by omega) rest

theorem firstClear_spec (btmp : Bitmap)
    (short : skipFullBytes btmp.btmpBits btmp.btmpBytesLen 0 < btmp.btmpBytesLen) :
    let idxByte := skipFullBytes btmp.btmpBits btmp.btmpBytesLen 0
    let start := idxByte * 8 + skipSetBits (btmp.btmpBits idxByte) 8 0
    start < btmp.bitLen ∧ btmp.bit start = false ∧ ∀ j < start, btmp.bit j = true := by
  intro idxByte start
  obtain ⟨-, -, full, stopped⟩ := skipFullBytes_spec btmp.btmpBits btmp.btmpBytesLen 0
  obtain ⟨-, atMost, set, clear⟩ := skipSetBits_spec (btmp.btmpBits idxByte) 8 0 (by decide)
  have notFull : btmp.btmpBits idxByte ≠ 0xff := stopped (by omega)
  have inByte : skipSetBits (btmp.btmpBits idxByte) 8 0 < 8 := by
    by_contra past
    apply notFull
    rw [eq_ff_iff]
    intro k small
    exact set k (by omega) (by omega)
  have quotient : start / 8 = idxByte := by omega
  have remainder : start % 8 = skipSetBits (btmp.btmpBits idxByte) 8 0 := by omega
  refine ⟨?_, ?_, ?_⟩
  · simp only [Bitmap.bitLen]
    omega
  · rw [Bitmap.bit_eq_testBit, quotient, remainder]
    exact clear (by omega)
  · intro j earlier
    rw [Bitmap.bit_eq_testBit]
    by_cases sameByte : j / 8 = idxByte
    · rw [sameByte]
      exact set (j % 8) (by omega) (by omega)
    · rw [full (j / 8) (by omega) (by omega)]
      exact (eq_ff_iff 0xff).mp rfl (j % 8) (Nat.mod_lt _ (by decide))

theorem allSet_of_skip {btmp : Bitmap}
    (all : skipFullBytes btmp.btmpBits btmp.btmpBytesLen 0 = btmp.btmpBytesLen) :
    ∀ i < btmp.bitLen, btmp.bit i = true := by
  intro i inside
  obtain ⟨-, -, full, -⟩ := skipFullBytes_spec btmp.btmpBits btmp.btmpBytesLen 0
  simp only [Bitmap.bitLen] at inside
  rw [Bitmap.bit_eq_testBit, full (i / 8) (by omega) (by omega)]
  exact (eq_ff_iff 0xff).mp rfl (i % 8) (Nat.mod_lt _ (by decide))

theorem bitmapScan_eq_some {full : FullScan} {btmp : Bitmap} {cnt i : Nat}
    (positive : 0 < cnt) (found : bitmapScan full btmp cnt = .ok (some i)) :
    i + cnt ≤ btmp.bitLen ∧ ∀ j, i ≤ j → j < i + cnt → btmp.bit j = false := by
  have bound := (skipFullBytes_spec btmp.btmpBits btmp.btmpBytesLen 0).2.1
  simp only [bitmapScan] at found
  obtain ⟨-, -, found⟩ := except_bind_eq_ok.mp found
  split at found
  next => cases found
  next some =>
    obtain ⟨inside, clear, -⟩ := firstClear_spec btmp (by omega)
    split at found
    next single =>
      simp only [pure_eq_ok, Except.ok.injEq, Option.some.injEq] at found
      subst found single
      refine ⟨inside, fun j low high => ?_⟩
      obtain rfl := Nat.le_antisymm low (Nat.le_of_lt_succ high)
      exact clear
    next several =>
      obtain ⟨-, fits, run⟩ := scanRun_eq_some (by omega)
        (fun j low high => by
          obtain rfl := Nat.le_antisymm low (Nat.le_of_lt_succ high)
          exact clear) found
      exact ⟨fits, run⟩

/-- Only a full map gives `-1`, and only when the assertion is read away. -/
theorem bitmapScan_eq_none {full : FullScan} {btmp : Bitmap} {cnt : Nat}
    (failed : bitmapScan full btmp cnt = .ok none) :
    full = .returnsMinusOne ∧ ∀ i < btmp.bitLen, btmp.bit i = true := by
  have bound := (skipFullBytes_spec btmp.btmpBits btmp.btmpBytesLen 0).2.1
  simp only [bitmapScan] at failed
  obtain ⟨_, passed, failed⟩ := except_bind_eq_ok.mp failed
  split at failed
  next all =>
    refine ⟨?_, allSet_of_skip all⟩
    simp only [check_eq_ok, decide_eq_true_eq, all, lt_irrefl, or_false] at passed
    exact passed
  next some =>
    obtain ⟨inside, -, -⟩ := firstClear_spec btmp (by omega)
    simp only [Bitmap.bitLen] at inside
    split at failed
    next => cases failed
    next =>
      refine absurd failed (scanRun_ne_none (by omega) ?_)
      simp only [Bitmap.bitLen]
      omega

/-- The scan as the code has it never returns `-1`. -/
theorem bitmapScan_asserts_ne_none (btmp : Bitmap) (cnt : Nat) :
    bitmapScan .asserts btmp cnt ≠ .ok none := by
  intro failed
  cases (bitmapScan_eq_none failed).1

theorem bitmapScan_one_of_free {btmp : Bitmap} {i : Nat} (full : FullScan)
    (inside : i < btmp.bitLen) (free : btmp.bit i = false)
    (first : ∀ j < i, btmp.bit j = true) :
    bitmapScan full btmp 1 = .ok (some i) := by
  have bound := (skipFullBytes_spec btmp.btmpBits btmp.btmpBytesLen 0).2.1
  have some : skipFullBytes btmp.btmpBits btmp.btmpBytesLen 0 ≠ btmp.btmpBytesLen := by
    intro all
    rw [allSet_of_skip all i inside] at free
    cases free
  obtain ⟨-, clear, earlier⟩ := firstClear_spec btmp (by omega)
  have least : skipFullBytes btmp.btmpBits btmp.btmpBytesLen 0 * 8 +
      skipSetBits (btmp.btmpBits (skipFullBytes btmp.btmpBits btmp.btmpBytesLen 0)) 8 0 = i := by
    rcases Nat.lt_trichotomy (skipFullBytes btmp.btmpBits btmp.btmpBytesLen 0 * 8 +
      skipSetBits (btmp.btmpBits (skipFullBytes btmp.btmpBits btmp.btmpBytesLen 0)) 8 0) i
      with less | equal | greater
    · rw [first _ less] at clear
      cases clear
    · exact equal
    · rw [earlier _ greater] at free
      cases free
  have passed : full = .returnsMinusOne ∨
      skipFullBytes btmp.btmpBits btmp.btmpBytesLen 0 < btmp.btmpBytesLen := by
    omega
  simp only [bitmapScan, passed, decide_true, check_true, ok_bind, some, if_false, if_true,
    least, pure_eq_ok]

theorem bitmapScan_one_of_full {btmp : Bitmap}
    (all : ∀ i < btmp.bitLen, btmp.bit i = true) :
    bitmapScan .returnsMinusOne btmp 1 = .ok none := by
  have bound := (skipFullBytes_spec btmp.btmpBits btmp.btmpBytesLen 0).2.1
  have ended : skipFullBytes btmp.btmpBits btmp.btmpBytesLen 0 = btmp.btmpBytesLen := by
    by_contra short
    obtain ⟨inside, clear, -⟩ := firstClear_spec btmp (by omega)
    rw [all _ inside] at clear
    cases clear
  simp [bitmapScan, ended]

end HongbaiOS.Lib
