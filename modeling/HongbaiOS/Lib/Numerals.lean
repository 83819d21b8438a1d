import HongbaiOS.Kernel.PrintCalls
import HongbaiOS.Lib.Stdio
import HongbaiOS.Library.Numeral

/-!
# Numbers as texts

`itoa` calls itself for the digits in front and writes its own on the way back; `put_int`
fills a buffer with eight hexadecimal digits and skips the zeros at its start.  Both come to
the canonical text of the number.
-/

namespace HongbaiOS.Lib

open HongbaiOS.Library HongbaiOS.Kernel HongbaiOS.Kernel.Console

/-- `itoa(value, buf_ptr_addr, base)` where the stack has room for `depth` nested calls. -/
def itoaCalls (base : UInt8) : (depth : Nat) → (value : UInt32) → Out → Option Out
  | 0, _, _ => none
  | depth + 1, value, out => do
      let m := value % base.toUInt32
      let i := value / base.toUInt32
      let out ← if i ≠ 0 then itoaCalls base depth i out else some out
      if m < 10 then return out.put (m + 48).toUInt8
      else return out.put (m - 10 + 65).toUInt8

/-- `text` has been written at the pointer, which is behind it now. -/
structure Wrote (out out' : Out) (text : List UInt8) : Prop where
  bufPtr : out'.bufPtr = out.bufPtr + text.length
  inside : ∀ (k : Nat) (isIn : k < text.length), out'.str (out.bufPtr + k) = text.get ⟨k, isIn⟩
  outside : ∀ k, k < out.bufPtr ∨ out'.bufPtr ≤ k → out'.str k = out.str k

/-- A decimal number with its sign. -/
def decodeInt : List UInt8 → Option Int
  | 45 :: text => (decode 10 text).map fun n : Nat => -(n : Int)
  | text => (decode 10 text).map fun n : Nat => (n : Int)

section Itoa

variable {base value m : Nat}

theorem digitValue_digit (small : m < 36) : digitValue (digit m) = some m := by
  have all : ∀ m < 36, digitValue (digit m) = some m := by decide
  exact all m small

theorem canonical_snoc {text : List UInt8} (canonical : Canonical text)
    (isNumber : decodeFrom base 0 text = some value) (positive : 0 < value) (c : UInt8) :
    Canonical (text ++ [c]) := by
  cases text with
  | nil => exact absurd rfl canonical.1
  | cons first rest =>
    refine ⟨List.cons_ne_nil _ _, fun leading => ?_⟩
    have isZero := canonical.2 leading
    rw [isZero] at isNumber
    obtain ⟨_, isDigit, isNumber⟩ := Option.bind_eq_some_iff.mp isNumber
    obtain ⟨digit, isZero, -, rfl⟩ := decodeDigit_eq_some.mp isDigit
    have none : digit = 0 := (Option.some.inj isZero).symm
    rw [none, Nat.zero_mul] at isNumber
    exact absurd (Option.some.inj isNumber) (Nat.ne_of_lt positive)

theorem itoa_text (large : 1 < base) (fits : base ≤ 36) (value : Nat) :
    ∃ text, Canonical text ∧ decodeFrom base 0 text = some value ∧
      ∀ out, itoa value base out = out.puts text := by
  induction value using Nat.strong_induction_on with
  | _ value inductionHypothesis =>
    by_cases small : value < base
    · refine ⟨[digit value], ⟨List.cons_ne_nil _ _, fun leading => ?_⟩, ?_, fun out => ?_⟩
      · rw [Option.some.inj leading]
      · rw [decodeFrom, decodeDigit_of (digitValue_digit (by omega)) small, Nat.zero_mul,
          Nat.zero_add]
        rfl
      · rw [itoa, Nat.div_eq_of_lt small, Nat.mod_eq_of_lt small]
        rfl
    · have smaller : value / base < value := Nat.div_lt_self (by omega) large
      have positive : 0 < value / base := Nat.div_pos (by omega) (by omega)
      have remainder := Nat.mod_lt value (by omega : base > 0)
      obtain ⟨text, canonical, isNumber, writes⟩ := inductionHypothesis _ smaller
      refine ⟨text ++ [digit (value % base)], canonical_snoc canonical isNumber positive _, ?_,
        fun out => ?_⟩
      · rw [decodeFrom_snoc, isNumber, Option.bind_some,
          decodeDigit_of (digitValue_digit (by omega)) remainder, Nat.div_add_mod']
      · rw [itoa]
        simp only [positive, large, and_self, dite_true]
        rw [writes, Out.puts, Out.puts, List.foldl_append]
        rfl

theorem toUInt8_digit (m : UInt32) :
    (if m < 10 then (m + 48).toUInt8 else (m - 10 + 65).toUInt8) = digit m.toNat := by
  have bound := m.toNat_lt
  have isSmall : m < 10 ↔ m.toNat < 10 := UInt32.lt_iff_toNat_lt
  rw [digit]
  by_cases small : m.toNat < 10
  · rw [if_pos small, if_pos (isSmall.mpr small)]
    apply UInt8.toNat_inj.mp
    rw [UInt32.toNat_toUInt8, UInt32.toNat_add, UInt8.toNat_ofNat']
    change (m.toNat + 48) % 2 ^ 32 % 2 ^ 8 = _
    omega
  · rw [if_neg small, if_neg (mt isSmall.mp small)]
    apply UInt8.toNat_inj.mp
    rw [UInt32.toNat_toUInt8, UInt32.toNat_add, UInt32.toNat_sub, UInt8.toNat_ofNat']
    change ((2 ^ 32 - 10 + m.toNat) % 2 ^ 32 + 65) % 2 ^ 32 % 2 ^ 8 = _
    omega

theorem itoaCalls_succ (base : UInt8) (depth : Nat) (value : UInt32) (out : Out) :
    itoaCalls base (depth + 1) value out =
      (if 0 < value.toNat / base.toNat then itoaCalls base depth (value / base.toUInt32) out
        else some out).map fun out => out.put (digit (value.toNat % base.toNat)) := by
  have remainder : (value % base.toUInt32).toNat = value.toNat % base.toNat := by
    rw [UInt32.toNat_mod, UInt8.toNat_toUInt32]
  have again : value / base.toUInt32 ≠ 0 ↔ 0 < value.toNat / base.toNat := by
    rw [ne_eq, ← UInt32.toNat_inj, UInt32.toNat_div, UInt8.toNat_toUInt32, UInt32.toNat_zero]
    exact Nat.pos_iff_ne_zero.symm
  have lastDigit (out : Out) :
      (if value % base.toUInt32 < 10 then some (out.put (value % base.toUInt32 + 48).toUInt8)
        else some (out.put (value % base.toUInt32 - 10 + 65).toUInt8)) =
      some (out.put (digit (value.toNat % base.toNat))) := by
    rw [← remainder, ← toUInt8_digit]
    split <;> rfl
  simp only [itoaCalls, again, pure, lastDigit]
  split
  next => cases itoaCalls base depth (value / base.toUInt32) out <;> rfl
  next => rfl

theorem itoaCalls_eq {base : UInt8} (large : 1 < base.toNat) {depth : Nat} {value : UInt32}
    (enough : value.toNat < 2 ^ (depth + 1)) (out : Out) :
    itoaCalls base (depth + 1) value out = some (itoa value.toNat base.toNat out) := by
  have halves (value : Nat) : value / base.toNat ≤ value / 2 :=
    Nat.div_le_div_left large (by decide)
  induction depth generalizing value out with
  | zero =>
    have least := halves value.toNat
    have ends : ¬ 0 < value.toNat / base.toNat := by omega
    rw [itoaCalls_succ, if_neg ends, itoa]
    simp only [ends, false_and, dite_false]
    rfl
  | succ depth inductionHypothesis =>
    have quotient : (value / base.toUInt32).toNat = value.toNat / base.toNat := by
      rw [UInt32.toNat_div, UInt8.toNat_toUInt32]
    have least := halves value.toNat
    have shorter : (value / base.toUInt32).toNat < 2 ^ (depth + 1) := by
      rw [quotient]
      omega
    rw [itoaCalls_succ, itoa]
    by_cases again : 0 < value.toNat / base.toNat
    · rw [if_pos again, inductionHypothesis shorter, quotient]
      simp only [again, large, and_self, dite_true]
      rfl
    · rw [if_neg again]
      simp only [again, false_and, dite_false]
      rfl

theorem wrote_puts (out : Out) {text : List UInt8} (nonempty : text ≠ []) :
    Wrote out (out.puts text) text := by
  have all : out.puts text = out.after text false := by
    have written := out.after_puts [] text false nonempty
    rw [Out.after_nil, List.nil_append] at written
    exact written
  rw [all]
  refine ⟨rfl, fun k isIn => ?_, fun k isOut => ?_⟩
  · simp [Out.after, isIn]
  · have outside : ¬ (out.bufPtr ≤ k ∧ k < out.bufPtr + text.length) := by
      rcases isOut with before | behind
      · omega
      · exact fun between => Nat.not_lt.mpr behind between.2
    simp [Out.after, outside]

end Itoa

section Formats

variable (value : UInt32) (format : List UInt8) (ap : List Arg) (out : Out)

theorem vsprintfLoop_hex : vsprintfLoop (37 :: 120 :: format) (.word value :: ap) out =
    vsprintfLoop format ap (itoa value.toNat 16 out) := by
  rw [vsprintfLoop.eq_def]
  rfl

theorem vsprintfLoop_dec : vsprintfLoop (37 :: 100 :: format) (.word value :: ap) out =
    vsprintfLoop format ap
      (if value.toInt32 < 0 then itoa (0 - value).toNat 10 (out.put 45)
        else itoa value.toNat 10 out) := by
  rw [vsprintfLoop.eq_def]
  dsimp only
  rw [if_neg (not_not_intro rfl), if_neg (by decide), if_pos rfl, vaArgInt, ok_bind]
  split <;> rfl

variable {value format ap out} in
theorem decodeInt_eq {text : List UInt8} {n : Nat} (isNumber : decode 10 text = some n) :
    decodeInt text = some (n : Int) := by
  unfold decodeInt
  split
  next rest =>
    obtain ⟨-, isNumber⟩ := decode_eq_some isNumber
    cases isNumber
  next => rw [isNumber, Option.map_some]

/-- What `%d` writes reads back as the number, the smallest one included. -/
theorem dec_text : ∃ text out', Wrote out out' text ∧
    decodeInt text = some value.toInt32.toInt ∧
    vsprintfLoop (37 :: 100 :: format) (.word value :: ap) out = vsprintfLoop format ap out' := by
  rw [vsprintfLoop_dec]
  by_cases negative : value.toInt32.toInt < 0
  · obtain ⟨text, canonical, isNumber, writes⟩ :=
      itoa_text (by decide : 1 < 10) (by decide) (0 - value).toNat
    refine ⟨45 :: text, _, wrote_puts out (List.cons_ne_nil _ _), ?_, ?_⟩
    · rw [decodeInt, decode_of canonical.1 isNumber, neg_toNat negative, Option.map_some]
      congr 1
      omega
    · rw [if_pos ((toInt32_neg_iff value).mpr negative), writes]
      rfl
  · obtain ⟨text, canonical, isNumber, writes⟩ :=
      itoa_text (by decide : 1 < 10) (by decide) value.toNat
    refine ⟨text, _, wrote_puts out canonical.1, ?_, ?_⟩
    · rw [decodeInt_eq (decode_of canonical.1 isNumber), nonneg_toNat negative]
      congr 1
      omega
    · rw [if_neg ((toInt32_neg_iff value).not.mpr negative), writes]

end Formats

section PutInt

theorem digitValue_hexDigit (edx : Word) :
    digitValue (hexDigit edx) = some (edx.toNat % 16) := by
  have all : ∀ k < 16, digitValue (hexDigit (BitVec.ofNat 32 k)) = some k := by decide
  have masked : hexDigit edx = hexDigit (edx &&& 0xf) := by
    simp only [hexDigit, BitVec.and_assoc, BitVec.and_self]
  have low : (edx &&& 0xf).toNat = edx.toNat % 16 := by
    rw [BitVec.toNat_and]
    exact Nat.and_two_pow_sub_one_eq_mod edx.toNat 4
  have isMasked : BitVec.ofNat 32 (edx &&& 0xf).toNat = edx &&& 0xf := BitVec.ofNat_toNat ..
  rw [masked, ← isMasked, low]
  exact all _ (Nat.mod_lt _ (by decide))

/-- The digits of the lower part of a number stand in front of those stored before. -/
theorem decode_storeDigits (ecx : Nat) (eax : Word) (stored : List UInt8) :
    decodeFrom 16 0 (storeDigits ecx eax stored) =
      decodeFrom 16 (eax.toNat % 16 ^ ecx) stored := by
  induction ecx generalizing eax stored with
  | zero => rw [storeDigits, Nat.pow_zero, Nat.mod_one]
  | succ ecx inductionHypothesis =>
    have shifted : (eax >>> 4).toNat = eax.toNat / 16 := by
      rw [BitVec.toNat_ushiftRight, Nat.shiftRight_eq_div_pow]
    have lastDigit : eax.toNat / 16 % 16 ^ ecx * 16 + eax.toNat % 16 =
        eax.toNat % 16 ^ (ecx + 1) := by
      rw [Nat.pow_succ', Nat.mod_mul]
      omega
    rw [storeDigits, inductionHypothesis, shifted, decodeFrom,
      decodeDigit_of (digitValue_hexDigit eax) (Nat.mod_lt _ (by decide)), Option.bind_some,
      lastDigit]

/-- Zeros in front do not count. -/
theorem decode_skipPrefix0 (buffer : List UInt8) :
    decodeFrom 16 0 (skipPrefix0 buffer) = decodeFrom 16 0 buffer := by
  induction buffer with
  | nil => rfl
  | cons cl rest inductionHypothesis =>
    rw [skipPrefix0]
    split
    next isZero =>
      rw [inductionHypothesis, isZero]
      rfl
    next => rfl

theorem canonical_skipPrefix0 (buffer : List UInt8) : Canonical (skipPrefix0 buffer) := by
  induction buffer with
  | nil => exact ⟨List.cons_ne_nil _ _, fun _ => rfl⟩
  | cons cl rest inductionHypothesis =>
    rw [skipPrefix0]
    split
    next => exact inductionHypothesis
    next notZero =>
      exact ⟨List.cons_ne_nil _ _, fun leading => absurd (Option.some.inj leading) notZero⟩

variable {c : Console} {words : List Word} {back : Word}

theorem putChar_screen {character : Word}
    (onStack : c.machine.OnStack (back :: character :: words)) (short : words.length < 30) :
    c.putChar.map Console.screen = c.screen.putChar (clOf character) := by
  have pushed := pushad_onStack onStack (by simp only [List.length_cons]; omega)
  have found : c.machine.pushad.slot 9 = character := pushed.slot 9 rfl
  rw [Console.putChar, found]
  cases c.screen.putChar (clOf character) with
  | error reason => rfl
  | ok screen =>
    refine congrArg Except.ok ?_
    simp only [Console.setCursor, Screen.setCursor, BitVec.setWidth_append_eq_right]

theorem callPutChar_screen (afterCall : Word) (onStack : c.machine.OnStack words)
    (short : words.length < 28) :
    (c.callPutChar afterCall).map Console.screen =
      c.screen.putChar (clOf c.machine.regs.ecx) := by
  have called := (onStack.push (by omega) c.machine.regs.ecx).push
    (by simp only [List.length_cons]; omega) afterCall
  have screen := @putChar_screen
    { c with machine := (c.machine.push c.machine.regs.ecx).push afterCall } words afterCall _
    called (by omega)
  rw [← screen, Console.callPutChar]
  cases Console.putChar { c with
    machine := (c.machine.push c.machine.regs.ecx).push afterCall } <;> rfl

theorem putEachNum_screen (afterCall : Word) (digits : List UInt8)
    (onStack : c.machine.OnStack words) (short : words.length < 28) :
    (c.putEachNum afterCall digits).map Console.screen =
      digits.foldlM Screen.putChar c.screen := by
  induction digits generalizing c with
  | nil => rfl
  | cons cl rest inductionHypothesis =>
    have screen := @callPutChar_screen
      { c with machine.regs.ecx := withCl c.machine.regs.ecx cl } words afterCall onStack short
    rw [clOf_withCl] at screen
    rw [List.foldlM_cons, ← screen, putEachNum]
    by_cases writable : Writable c.screen.cursor cl
    · obtain ⟨c', ran, kept, -⟩ := @printed_cl c words afterCall cl onStack short writable
      rw [ran]
      exact @inductionHypothesis { c' with machine.regs.edi := c'.machine.regs.edi + 1 }
        kept.onStack
    · rw [fault_cl cl onStack short writable]
      rfl

theorem enterPutInt_screen (c : Console) : c.enterPutInt.screen = c.screen := by
  simp only [Console.enterPutInt]

theorem enterPutInt_argument (c : Console) :
    c.enterPutInt.machine.slot 9 = c.machine.slot 1 := by
  have pushed := pushad_onStack (call_onStack c) (by simp)
  exact pushed.slot 9 rfl

theorem converted_eq {text : List UInt8} {value : Word} (canonical : Canonical text)
    (isNumber : decodeFrom 16 0 text = some value.toNat) :
    skipPrefix0 (storeDigits 8 value []) = text := by
  have below : value.toNat < 16 ^ 8 := value.isLt
  refine (canonical_skipPrefix0 _).unique (by decide) canonical ?_ isNumber
  rw [decode_skipPrefix0, decode_storeDigits, decodeFrom, Nat.mod_eq_of_lt below]

theorem putInt_screen (afterCall : Word) (c : Console) {text : List UInt8}
    (canonical : Canonical text)
    (isNumber : decodeFrom 16 0 text = some (c.machine.slot 1).toNat) :
    (c.putInt afterCall).map Console.screen = text.foldlM Screen.putChar c.screen := by
  have pushed := pushad_onStack (call_onStack c) (by simp)
  have digits : skipPrefix0 (storeDigits 8 (c.enterPutInt.machine.slot 9) []) = text := by
    rw [enterPutInt_argument]
    exact converted_eq canonical isNumber
  have screen := @putEachNum_screen c.enterPutInt _ afterCall text pushed (by simp [Regs.saved])
  rw [enterPutInt_screen] at screen
  rw [putInt_eq afterCall c digits, ← screen]
  generalize putEachNum afterCall text c.enterPutInt = ran
  cases ran <;> rfl

end PutInt

/-- `itoa` returns and writes the canonical text of the number, `%d` a text that reads back as
its argument, and `%x` the text that `put_int` prints. -/
theorem numerals_agree :
    (∀ (base : UInt8) (value : UInt32) (out : Out), 2 ≤ base → base ≤ 36 →
      ∃ text out', (∀ depth ≥ 32, itoaCalls base depth value out = some out') ∧
        Wrote out out' text ∧ Canonical text ∧ decode base.toNat text = some value.toNat) ∧
    (∀ (value : UInt32) (format : List UInt8) (ap : List Arg) (out : Out),
      ∃ text out', Wrote out out' text ∧ decodeInt text = some value.toInt32.toInt ∧
        vsprintfLoop (37 :: 100 :: format) (.word value :: ap) out =
          vsprintfLoop format ap out') ∧
    ∀ (value : UInt32) (format : List UInt8) (ap : List Arg) (out : Out),
      ∃ text out', Wrote out out' text ∧
        vsprintfLoop (37 :: 120 :: format) (.word value :: ap) out =
          vsprintfLoop format ap out' ∧
        ∀ (afterCall : Word) (c : Console), c.machine.slot 1 = value.toBitVec →
          (c.putInt afterCall).map Console.screen = text.foldlM Screen.putChar c.screen := by
  refine ⟨fun base value out least most => ?_, dec_text, fun value format ap out => ?_⟩
  · have large : 1 < base.toNat := UInt8.le_iff_toNat_le.mp least
    obtain ⟨text, canonical, isNumber, writes⟩ :=
      itoa_text large (UInt8.le_iff_toNat_le.mp most) value.toNat
    refine ⟨text, _, fun depth enough => ?_, wrote_puts out canonical.1, canonical,
      decode_of canonical.1 isNumber⟩
    obtain ⟨more, rfl⟩ := Nat.exists_eq_add_of_le' enough
    have fits : value.toNat < 2 ^ (more + 31 + 1) :=
      value.toNat_lt.trans_le (Nat.pow_le_pow_right (by decide) (by omega))
    rw [← writes]
    exact itoaCalls_eq large fits out
  · obtain ⟨text, canonical, isNumber, writes⟩ :=
      itoa_text (by decide : 1 < 16) (by decide) value.toNat
    refine ⟨text, _, wrote_puts out canonical.1, ?_, fun afterCall c isArgument =>
      putInt_screen afterCall c canonical ?_⟩
    · rw [vsprintfLoop_hex, writes]
    · rw [isArgument]
      exact isNumber

/-- The largest value in binary, the smallest number, and an address. -/
theorem numerals_agree_ends :
    (∃ text out', itoaCalls 2 32 0xffffffff ⟨Bytes.fill 0, 0⟩ = some out' ∧
      Wrote ⟨Bytes.fill 0, 0⟩ out' text ∧ decode 2 text = some 0xffffffff) ∧
    (∃ text out', Wrote ⟨Bytes.fill 0, 0⟩ out' text ∧ decodeInt text = some (-2147483648) ∧
      vsprintfLoop [37, 100] [.word 0x80000000] ⟨Bytes.fill 0, 0⟩ = .ok out') ∧
    ∃ text out', Wrote ⟨Bytes.fill 0, 0⟩ out' text ∧
      vsprintfLoop [37, 120] [.word 0xc009f000] ⟨Bytes.fill 0, 0⟩ = .ok out' ∧
      (Console.putInt 0xc0001500 ⟨⟨⟨0, 0, 0, 0, 0xc009e000, 0, 0, 0, 0x10, 0x10, 0x10, 0x18, 0x08,
        0x10, 0, 2⟩, fun _ => 0xc009f000⟩, ⟨Bytes.fill 0, 0, []⟩⟩).map Console.screen =
          text.foldlM Screen.putChar ⟨Bytes.fill 0, 0, []⟩ := by
  obtain ⟨itoa, dec, hex⟩ := numerals_agree
  obtain ⟨text, out, returns, wrote, -, isNumber⟩ :=
    itoa 2 0xffffffff ⟨Bytes.fill 0, 0⟩ (by decide) (by decide)
  obtain ⟨decText, decOut, decWrote, isInt, decRan⟩ := dec 0x80000000 [] [] ⟨Bytes.fill 0, 0⟩
  obtain ⟨hexText, hexOut, hexWrote, hexRan, prints⟩ := hex 0xc009f000 [] [] ⟨Bytes.fill 0, 0⟩
  exact ⟨⟨text, out, returns 32 (by decide), wrote, isNumber⟩,
    ⟨decText, decOut, decWrote, isInt, decRan⟩,
    ⟨hexText, hexOut, hexWrote, hexRan, prints _ _ rfl⟩⟩

end HongbaiOS.Lib
