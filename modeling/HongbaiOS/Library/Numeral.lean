import Mathlib.Data.List.Induction
import Mathlib.Tactic.Common

/-!
# Numerals

Texts of digits and upper-case letters in a base.  `decode` reads a text as a number; a text
is canonical if it has no leading zero, and then the number determines it.
-/

namespace HongbaiOS.Library

/-- The value of a digit, `'0'` to `'9'` or `'A'` to `'Z'`. -/
def digitValue (c : UInt8) : Option Nat :=
  if 48 ≤ c.toNat ∧ c.toNat ≤ 57 then some (c.toNat - 48)
  else if 65 ≤ c.toNat ∧ c.toNat ≤ 90 then some (c.toNat - 55)
  else none

/-- A digit behind a number. -/
def decodeDigit (base n : Nat) (c : UInt8) : Option Nat :=
  match digitValue c with
  | some m => if m < base then some (n * base + m) else none
  | none => none

/-- A text behind a number. -/
def decodeFrom (base : Nat) : (n : Nat) → List UInt8 → Option Nat
  | n, [] => some n
  | n, c :: text => (decodeDigit base n c).bind fun n => decodeFrom base n text

/-- The number a text stands for. -/
def decode (base : Nat) (text : List UInt8) : Option Nat :=
  if text = [] then none else decodeFrom base 0 text

/-- Only the text `"0"` begins with a zero. -/
def Canonical (text : List UInt8) : Prop := text ≠ [] ∧ (text.head? = some 48 → text = [48])

section Numerals

variable {base n m : Nat} {c : UInt8} {text : List UInt8}

theorem digitValue_injective {first second : UInt8} (isFirst : digitValue first = some m)
    (isSecond : digitValue second = some m) : first = second := by
  apply UInt8.toNat_inj.mp
  unfold digitValue at isFirst isSecond
  grind

theorem digitValue_zero (isDigit : digitValue c = some 0) : c = 48 :=
  digitValue_injective isDigit rfl

theorem decodeDigit_eq_some {value : Nat} : decodeDigit base n c = some value ↔
    ∃ m, digitValue c = some m ∧ m < base ∧ value = n * base + m := by
  unfold decodeDigit
  cases digitValue c with
  | none => simp
  | some m =>
    by_cases small : m < base
    · simp [small, eq_comm]
    · simp [small]

theorem decodeDigit_of (isDigit : digitValue c = some m) (small : m < base) :
    decodeDigit base n c = some (n * base + m) :=
  decodeDigit_eq_some.mpr ⟨m, isDigit, small, rfl⟩

theorem decodeFrom_append (base n : Nat) (text more : List UInt8) :
    decodeFrom base n (text ++ more) =
      (decodeFrom base n text).bind fun n => decodeFrom base n more := by
  induction text generalizing n with
  | nil => rfl
  | cons c text inductionHypothesis =>
    rw [List.cons_append, decodeFrom, decodeFrom, Option.bind_assoc]
    congr 1
    funext n
    exact inductionHypothesis n

theorem decodeFrom_snoc (base n : Nat) (text : List UInt8) (c : UInt8) :
    decodeFrom base n (text ++ [c]) =
      (decodeFrom base n text).bind fun n => decodeDigit base n c := by
  rw [decodeFrom_append]
  congr 1
  funext n
  rw [decodeFrom]
  cases decodeDigit base n c <;> rfl

theorem decode_eq_some (isNumber : decode base text = some n) :
    text ≠ [] ∧ decodeFrom base 0 text = some n := by
  unfold decode at isNumber
  split at isNumber
  next => cases isNumber
  next nonempty => exact ⟨nonempty, isNumber⟩

theorem decode_of (nonempty : text ≠ []) (isNumber : decodeFrom base 0 text = some n) :
    decode base text = some n := by
  rw [decode, if_neg nonempty, isNumber]

theorem decodeFrom_le (positive : 0 < base) (isNumber : decodeFrom base n text = some m) :
    n ≤ m := by
  induction text generalizing n with
  | nil => exact Nat.le_of_eq (Option.some.inj isNumber)
  | cons c text inductionHypothesis =>
    obtain ⟨next, isNext, isNumber⟩ := Option.bind_eq_some_iff.mp isNumber
    obtain ⟨digit, -, -, rfl⟩ := decodeDigit_eq_some.mp isNext
    have le := inductionHypothesis isNumber
    have grows : n ≤ n * base := Nat.le_mul_of_pos_right n positive
    omega

theorem Canonical.pos (canonical : Canonical text) (positive : 0 < base)
    (isNumber : decodeFrom base 0 text = some n) (notZero : text ≠ [48]) : 0 < n := by
  cases text with
  | nil => exact absurd rfl canonical.1
  | cons c text =>
    obtain ⟨first, isFirst, isNumber⟩ := Option.bind_eq_some_iff.mp isNumber
    obtain ⟨digit, isDigit, -, rfl⟩ := decodeDigit_eq_some.mp isFirst
    have le := decodeFrom_le positive isNumber
    rcases Nat.eq_zero_or_pos digit with rfl | large
    · have leading : c = 48 := digitValue_zero isDigit
      exact absurd (canonical.2 (congrArg some leading)) notZero
    · omega

theorem Canonical.front (canonical : Canonical (text ++ [c])) (nonempty : text ≠ []) :
    Canonical text ∧ text ≠ [48] := by
  cases text with
  | nil => exact absurd rfl nonempty
  | cons first rest =>
    have notLeading : first ≠ 48 := fun leading => by
      have short := canonical.2 (congrArg some leading)
      simp at short
    exact ⟨⟨nonempty, fun leading => absurd (Option.some.inj leading) notLeading⟩,
      fun isZero => notLeading (List.cons.inj isZero).1⟩

theorem Canonical.unique {other : List UInt8} (positive : 0 < base) (canonical : Canonical text)
    (canonical' : Canonical other) (isNumber : decodeFrom base 0 text = some n)
    (isNumber' : decodeFrom base 0 other = some n) : text = other := by
  induction text using List.reverseRecOn generalizing other n with
  | nil => exact absurd rfl canonical.1
  | append_singleton text c inductionHypothesis =>
    cases other using List.reverseRecOn with
    | nil => exact absurd rfl canonical'.1
    | append_singleton other d =>
      rw [decodeFrom_snoc] at isNumber isNumber'
      obtain ⟨high, isHigh, isNumber⟩ := Option.bind_eq_some_iff.mp isNumber
      obtain ⟨high', isHigh', isNumber'⟩ := Option.bind_eq_some_iff.mp isNumber'
      obtain ⟨low, isLow, small, rfl⟩ := decodeDigit_eq_some.mp isNumber
      obtain ⟨low', isLow', small', same⟩ := decodeDigit_eq_some.mp isNumber'
      obtain ⟨rfl, rfl⟩ : high = high' ∧ low = low' := by
        have sameHigh := congrArg (· / base) same
        have sameLow := congrArg (· % base) same
        simp only [Nat.mul_comm _ base, Nat.mul_add_div positive, Nat.mul_add_mod,
          Nat.div_eq_of_lt, Nat.mod_eq_of_lt, small, small', Nat.add_zero] at sameHigh sameLow
        exact ⟨sameHigh, sameLow⟩
      rw [digitValue_injective isLow isLow']
      congr 1
      -- a text in front of the last digit is positive, and no text is zero
      by_cases empty : text = [] <;> by_cases empty' : other = []
      · rw [empty, empty']
      · obtain ⟨front, notZero⟩ := canonical'.front empty'
        have large := front.pos positive isHigh' notZero
        rw [empty] at isHigh
        exact absurd (Option.some.inj isHigh) (Nat.ne_of_lt large)
      · obtain ⟨front, notZero⟩ := canonical.front empty
        have large := front.pos positive isHigh notZero
        rw [empty'] at isHigh'
        exact absurd (Option.some.inj isHigh') (Nat.ne_of_lt large)
      · exact inductionHypothesis (canonical.front empty).1 (canonical'.front empty').1 isHigh
          isHigh'

end Numerals

end HongbaiOS.Library
