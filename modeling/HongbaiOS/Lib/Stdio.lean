import HongbaiOS.Fs.DirEntry

/-!
# Formatted output

`vsprintf` of `lib/stdio.c` copies the characters of the format and expands `%x`, `%d`, `%c`
and `%s`.  Only the copy of a string argument brings a terminator with it.
-/

namespace HongbaiOS.Lib

open HongbaiOS.Library HongbaiOS.Kernel HongbaiOS.Fs

/-- An argument behind `ap`: a word, or a pointer to a string. -/
inductive Arg where
  | word (value : UInt32)
  | string (str : CString)

/-- The memory from `str` on, and `buf_ptr - str`. -/
structure Out where
  str : Bytes
  bufPtr : Nat

namespace Out

/-- `*buf_ptr = c; buf_ptr++` -/
def put (out : Out) (c : UInt8) : Out :=
  ⟨Function.update out.str out.bufPtr c, out.bufPtr + 1⟩

end Out

/-- The character for the digit `m`, `'0'` or `'A'` on. -/
def digit (m : Nat) : UInt8 :=
  if m < 10 then UInt8.ofNat (m + 48) else UInt8.ofNat (m - 10 + 65)

/-- `itoa(value, buf_ptr_addr, base)`; the base is 10 or 16. -/
def itoa (value base : Nat) (out : Out) : Out :=
  let m := value % base
  let i := value / base
  if _again : 0 < i ∧ 1 < base then (itoa i base out).put (digit m) else out.put (digit m)
termination_by value
decreasing_by
  exact Nat.div_lt_self (Nat.pos_of_div_pos _again.1) _again.2

/-- `strcpy(dst_, src_)`, with `dst_` at the offset `dst` of the memory. -/
def strcpy (store : Bytes) (dst : Nat) : List UInt8 → Bytes
  | [] => Function.update store dst 0
  | c :: src => strcpy (Function.update store dst c) (dst + 1) src

/-- `strlen(str_)` from offset `k` on, in a memory of which `left` more bytes exist. -/
def strlenFrom (str : Bytes) : (left k : Nat) → Except Halt Nat
  | 0, _ => .error .outOfBounds
  | left + 1, k => if str k = 0 then .ok k else strlenFrom str left (k + 1)

/-- `va_arg(ap, int)` and `va_arg(ap, char)`, and what is behind.  What a missing argument or
one of the other kind is taken for is left open. -/
def vaArgInt : List Arg → Except Halt (UInt32 × List Arg)
  | .word value :: ap => .ok (value, ap)
  | _ => .error .disabled

/-- `va_arg(ap, char *)` -/
def vaArgStr : List Arg → Except Halt (CString × List Arg)
  | .string str :: ap => .ok (str, ap)
  | _ => .error .disabled

/-- The loop of `vsprintf`. -/
def vsprintfLoop : (format : List UInt8) → (ap : List Arg) → Out → Except Halt Out
  | [], _, out => .ok out
  | c :: format, ap, out =>
      if c ≠ 37 then vsprintfLoop format ap (out.put c)
      else
        match format with
        | [] => .error (.panic .vsprintf)
        | c :: format =>
            if c = 120 then do
              let (value, ap) ← vaArgInt ap
              vsprintfLoop format ap (itoa value.toNat 16 out)
            else if c = 100 then do
              let (value, ap) ← vaArgInt ap
              if value.toInt32 < 0 then
                vsprintfLoop format ap (itoa (0 - value).toNat 10 (out.put 45))
              else vsprintfLoop format ap (itoa value.toNat 10 out)
            else if c = 99 then do
              let (value, ap) ← vaArgInt ap
              vsprintfLoop format ap (out.put value.toUInt8)
            else if c = 115 then do
              let (str, ap) ← vaArgStr ap
              vsprintfLoop format ap
                ⟨strcpy out.str out.bufPtr str.chars, out.bufPtr + strlen str⟩
            else .error (.panic .vsprintf)

/-- `vsprintf(str, format, ap)`: the result and the memory from `str` on, of which there are
`size` bytes. -/
def vsprintf (size : Nat) (str : Bytes) (format : CString) (ap : List Arg) :
    Except Halt (Nat × Bytes) := do
  let out ← vsprintfLoop format.chars ap ⟨str, 0⟩
  let length ← strlenFrom out.str size 0
  return (length, out.str)

/-- `sprintf(buf, format, ...)` -/
def sprintf (size : Nat) (buf : Bytes) (format : CString) (args : List Arg) :
    Except Halt (Nat × Bytes) := do
  let (retval, buf) ← vsprintf size buf format args
  return (retval, buf)

/-- A part of a format with its argument. -/
inductive Piece where
  | char (c : UInt8)
  | hex (value : UInt32)
  | dec (value : UInt32)
  | chr (value : UInt32)
  | str (s : CString)

/-- The numeral of `n`, with upper-case digits. -/
def numeral (base n : Nat) : List UInt8 :=
  (Nat.toDigits base n).map fun c => c.toUpper.toUInt8

namespace Piece

def text : Piece → List UInt8
  | char c => [c]
  | hex value => numeral 16 value.toNat
  | dec value =>
      (if value.toInt32.toInt < 0 then [45] else []) ++ numeral 10 value.toInt32.toInt.natAbs
  | chr value => [value.toUInt8]
  | str s => s.chars

def isString : Piece → Bool
  | str _ => true
  | _ => false

end Piece

def directive : (c : UInt8) → Arg → Option Piece
  | c, .word value =>
      if c = 120 then some (.hex value)
      else if c = 100 then some (.dec value)
      else if c = 99 then some (.chr value)
      else none
  | c, .string s => if c = 115 then some (.str s) else none

/-- A format that uses only the four directives, with the arguments that belong to it. -/
inductive Matches : (format : List UInt8) → (args : List Arg) → List Piece → Prop where
  | nil {args : List Arg} : Matches [] args []
  | char {c : UInt8} {format : List UInt8} {args : List Arg} {parts : List Piece}
      (plain : c ≠ 37) (rest : Matches format args parts) :
      Matches (c :: format) args (.char c :: parts)
  | directive {c : UInt8} {format : List UInt8} {arg : Arg} {args : List Arg} {p : Piece}
      {parts : List Piece} (means : directive c arg = some p) (rest : Matches format args parts) :
      Matches (37 :: c :: format) (arg :: args) (p :: parts)

def expansion (parts : List Piece) : List UInt8 := parts.flatMap Piece.text

/-- The text stands at the start of the memory with a NUL behind it, its length has been
returned, and nothing else has changed. -/
def Formats (result : Except Halt (Nat × Bytes)) (str : Bytes) (text : List UInt8) : Prop :=
  ∃ str', result = .ok (text.length, str') ∧
    (∀ (k : Nat) (inside : k < text.length), str' k = text.get ⟨k, inside⟩) ∧
    str' text.length = 0 ∧ ∀ k, text.length < k → str' k = str k

namespace Out

def puts (out : Out) (text : List UInt8) : Out := text.foldl put out

/-- The state after `text`, with a NUL behind it if `ended`. -/
def after (out : Out) (text : List UInt8) (ended : Bool) : Out where
  str := fun k =>
    if out.bufPtr ≤ k ∧ k < out.bufPtr + text.length then text.getD (k - out.bufPtr) 0
    else if ended ∧ k = out.bufPtr + text.length then 0 else out.str k
  bufPtr := out.bufPtr + text.length

variable (out : Out) (text more : List UInt8) (ended : Bool)

theorem after_nil : out.after [] false = out := by
  simp only [after, List.length_nil, Nat.add_zero, Bool.false_eq_true, false_and, if_false]
  congr 1
  funext k
  exact if_neg (by omega)

theorem after_put (c : UInt8) : (out.after text ended).put c = out.after (text ++ [c]) false := by
  simp only [after, put, List.length_append, List.length_singleton, Nat.add_assoc]
  congr 1
  funext k
  rcases Nat.lt_trichotomy k (out.bufPtr + text.length) with below | rfl | above
  · rw [Function.update_of_ne (Nat.ne_of_lt below)]
    by_cases start : out.bufPtr ≤ k
    · rw [if_pos ⟨start, below⟩, if_pos ⟨start, by omega⟩, List.getD_append _ _ _ _ (by omega)]
    · simp [start, Nat.ne_of_lt below]
  · rw [Function.update_self, if_pos ⟨Nat.le_add_right _ _, by omega⟩,
      List.getD_append_right _ _ _ _ (by omega)]
    simp
  · rw [Function.update_of_ne (Nat.ne_of_gt above), if_neg (by omega), if_neg (by omega),
      if_neg (by omega), if_neg (by simp)]

theorem after_puts (some : more ≠ []) :
    (out.after text ended).puts more = out.after (text ++ more) false := by
  induction more generalizing text ended with
  | nil => exact absurd rfl some
  | cons c more inductionHypothesis =>
      rw [puts, List.foldl_cons, after_put]
      cases more with
      | nil => rfl
      | cons c' more =>
          have rest := inductionHypothesis (text ++ [c]) false (List.cons_ne_nil c' more)
          rw [puts] at rest
          rw [rest, List.append_assoc, List.singleton_append]

theorem after_strcpy (s : List UInt8) :
    strcpy (out.after text ended).str (out.after text ended).bufPtr s =
      (out.after (text ++ s) true).str := by
  induction s generalizing text ended with
  | nil =>
      rw [List.append_nil]
      funext k
      by_cases here : k = out.bufPtr + text.length
      · subst here
        simp [strcpy, after]
      · have other : k ≠ (out.after text ended).bufPtr := here
        rw [strcpy, Function.update_of_ne other]
        simp [after, here]
  | cons c s inductionHypothesis =>
      have first := after_put out text ended c
      have rest := inductionHypothesis (text ++ [c]) false
      rw [List.append_assoc, List.singleton_append, ← first] at rest
      exact rest

end Out

theorem digit_eq {m : Nat} (small : m < 16) : digit m = m.digitChar.toUpper.toUInt8 := by
  interval_cases m <;> decide

theorem numeral_eq {base : Nat} (large : 1 < base) (n : Nat) (fits : base ≤ 16) :
    numeral base n =
      if n < base then [digit n] else numeral base (n / base) ++ [digit (n % base)] := by
  rw [numeral, Nat.toDigits_eq_if large]
  split
  next small => rw [List.map_singleton, digit_eq (by omega)]
  next =>
    have remainder := Nat.mod_lt n (by omega : base > 0)
    rw [List.map_append, List.map_singleton, digit_eq (by omega)]
    rfl

theorem numeral_ne_nil (base n : Nat) : numeral base n ≠ [] := by
  simp [numeral, Nat.toDigits_ne_nil]

theorem itoa_eq {base : Nat} (large : 1 < base) (fits : base ≤ 16) (value : Nat) (out : Out) :
    itoa value base out = out.puts (numeral base value) := by
  induction value using Nat.strong_induction_on generalizing out with
  | _ value inductionHypothesis =>
      rw [itoa, numeral_eq large value fits]
      by_cases small : value < base
      · rw [if_pos small, Nat.div_eq_of_lt small, Nat.mod_eq_of_lt small]
        rfl
      · have smaller : value / base < value := Nat.div_lt_self (by omega) large
        have positive : 0 < value / base := Nat.div_pos (by omega) (by omega)
        simp only [positive, large, and_self, dite_true, if_neg small]
        rw [inductionHypothesis _ smaller, Out.puts, Out.puts, List.foldl_append]
        rfl

/-- The number of a word as a signed one. -/
theorem toInt32_toInt (value : UInt32) : value.toInt32.toInt =
    if 2 * value.toNat < 2 ^ 32 then (value.toNat : Int) else (value.toNat : Int) - 2 ^ 32 :=
  BitVec.toInt_eq_toNat_cond value.toBitVec

theorem toInt32_neg_iff (value : UInt32) : value.toInt32 < 0 ↔ value.toInt32.toInt < 0 := by
  rw [Int32.lt_iff_toInt_lt, Int32.toInt_zero]

/-- `0 - arg_int` is the magnitude of a negative number, the smallest one included. -/
theorem neg_toNat {value : UInt32} (negative : value.toInt32.toInt < 0) :
    (0 - value).toNat = value.toInt32.toInt.natAbs := by
  have bound := value.toNat_lt
  rw [toInt32_toInt] at negative ⊢
  rw [UInt32.toNat_sub, UInt32.toNat_zero]
  split at negative
  next => omega
  next large =>
    rw [if_neg large]
    omega

theorem nonneg_toNat {value : UInt32} (nonneg : ¬ value.toInt32.toInt < 0) :
    value.toNat = value.toInt32.toInt.natAbs := by
  have bound := value.toNat_lt
  rw [toInt32_toInt] at nonneg ⊢
  split at nonneg
  next small =>
    rw [if_pos small]
    omega
  next => omega

/-- Whether a NUL stands behind what has been written, `ended` telling whether one stood there
before. -/
def endedBy (parts : List Piece) (ended : Bool) : Bool :=
  (parts.getLast?.map Piece.isString).getD ended

theorem endedBy_cons (p : Piece) (parts : List Piece) (ended : Bool) :
    endedBy (p :: parts) ended = endedBy parts p.isString := by
  rw [endedBy, endedBy, List.getLast?_cons]
  cases parts.getLast? <;> rfl

theorem vsprintfLoop_char {c : UInt8} (plain : c ≠ 37) (format : List UInt8) (ap : List Arg)
    (out : Out) : vsprintfLoop (c :: format) ap out = vsprintfLoop format ap (out.put c) := by
  rw [vsprintfLoop.eq_def]
  exact if_pos plain

theorem vsprintfLoop_eq {format : List UInt8} {ap : List Arg} {parts : List Piece}
    (matching : Matches format ap parts) (out : Out) (text : List UInt8) (ended : Bool) :
    vsprintfLoop format ap (out.after text ended) =
      .ok (out.after (text ++ expansion parts) (endedBy parts ended)) := by
  induction matching generalizing text ended with
  | nil => simp [vsprintfLoop, expansion, endedBy]
  | @char c format args parts plain _ inductionHypothesis =>
      rw [vsprintfLoop_char plain, Out.after_put, inductionHypothesis, endedBy_cons]
      simp [expansion, Piece.text, Piece.isString]
  | @directive c format arg args p parts means _ inductionHypothesis =>
      have goesOn : ∀ {out' : Out}, out' = out.after (text ++ p.text) p.isString →
          vsprintfLoop format args out' =
            .ok (out.after (text ++ expansion (p :: parts)) (endedBy (p :: parts) ended)) := by
        rintro _ rfl
        rw [inductionHypothesis, endedBy_cons]
        simp [expansion]
      rw [vsprintfLoop.eq_def]
      dsimp only
      rw [if_neg (not_not_intro rfl)]
      cases arg with
      | word value =>
          simp only [directive] at means
          split_ifs at means with isHex isDec isChr
          · cases means
            subst isHex
            refine goesOn ?_
            rw [itoa_eq (by decide) (by decide), Out.after_puts _ _ _ _ (numeral_ne_nil _ _)]
            rfl
          · cases means
            subst isDec
            dsimp only [vaArgInt]
            rw [if_neg (by decide), if_pos rfl, ok_bind]
            dsimp only
            by_cases negative : value.toInt32.toInt < 0
            · rw [if_pos ((toInt32_neg_iff value).mpr negative)]
              refine goesOn ?_
              rw [itoa_eq (by decide) (by decide), Out.after_put,
                Out.after_puts _ _ _ _ (numeral_ne_nil _ _), neg_toNat negative, Piece.text,
                if_pos negative, List.append_assoc]
              rfl
            · rw [if_neg ((toInt32_neg_iff value).not.mpr negative)]
              refine goesOn ?_
              rw [itoa_eq (by decide) (by decide), Out.after_puts _ _ _ _ (numeral_ne_nil _ _),
                nonneg_toNat negative, Piece.text, if_neg negative, List.nil_append]
              rfl
          · cases means
            subst isChr
            exact goesOn (Out.after_put out text ended value.toUInt8)
      | string s =>
          simp only [directive] at means
          split_ifs at means with isStr
          cases means
          subst isStr
          refine goesOn ?_
          rw [Out.after_strcpy]
          simp [Out.after, Piece.text, strlen, Nat.add_assoc, Piece.isString]

/-- The format ends in `%s`. -/
def EndsInString (parts : List Piece) : Prop := ∃ s, parts.getLast? = some (Piece.str s)

theorem endedBy_false_iff (parts : List Piece) :
    endedBy parts false = true ↔ EndsInString parts := by
  rw [endedBy, EndsInString]
  cases parts.getLast? with
  | none => simp
  | some p => cases p <;> simp [Piece.isString]

theorem strlenFrom_eq_ok {str : Bytes} {left k n : Nat} :
    strlenFrom str left k = .ok n ↔
      k ≤ n ∧ n < k + left ∧ str n = 0 ∧ ∀ j, k ≤ j → j < n → str j ≠ 0 := by
  induction left generalizing k with
  | zero =>
      simp only [strlenFrom, reduceCtorEq, false_iff]
      omega
  | succ left inductionHypothesis =>
      rw [strlenFrom]
      by_cases ends : str k = 0
      · rw [if_pos ends, Except.ok.injEq]
        constructor
        · rintro rfl
          exact ⟨le_refl k, by omega, ends, fun j low high => by omega⟩
        · rintro ⟨low, -, -, before⟩
          by_contra differs
          exact before k (le_refl k) (by omega) ends
      · rw [if_neg ends, inductionHypothesis]
        constructor
        · rintro ⟨low, high, zero, before⟩
          refine ⟨by omega, by omega, zero, fun j fromK below => ?_⟩
          rcases Nat.eq_or_lt_of_le fromK with rfl | later
          · exact ends
          · exact before j later below
        · rintro ⟨low, high, zero, before⟩
          have later : k ≠ n := by
            rintro rfl
            exact ends zero
          exact ⟨by omega, by omega, zero, fun j above below => before j (by omega) below⟩

theorem numeral_ne_zero {base : Nat} (large : 1 < base) (fits : base ≤ 16) (n : Nat) :
    (0 : UInt8) ∉ numeral base n := by
  have nonzero : ∀ m < 16, digit m ≠ 0 := by decide
  induction n using Nat.strong_induction_on with
  | _ n inductionHypothesis =>
      rw [numeral_eq large n fits]
      split
      next small =>
        rw [List.mem_singleton]
        exact (nonzero n (by omega)).symm
      next big =>
        have remainder := Nat.mod_lt n (by omega : base > 0)
        rw [List.mem_append, List.mem_singleton, not_or]
        exact ⟨inductionHypothesis _ (Nat.div_lt_self (by omega) large),
          (nonzero _ (by omega)).symm⟩

theorem directive_ne_char (c c' : UInt8) (arg : Arg) : directive c arg ≠ some (.char c') := by
  cases arg with
  | word value =>
      rw [directive]
      split_ifs <;> simp
  | string s =>
      rw [directive]
      split_ifs <;> simp

theorem zero_notMem_expansion {format : List UInt8} {args : List Arg} {parts : List Piece}
    (matching : Matches format args parts) (noNul : ∀ c ∈ format, c ≠ 0) :
    0 ∉ expansion parts ↔ ∀ value, Piece.chr value ∈ parts → value.toUInt8 ≠ 0 := by
  induction matching with
  | nil => simp [expansion]
  | @char c format args parts plain _ inductionHypothesis =>
      have rest := inductionHypothesis fun c' inRest => noNul c' (List.mem_cons_of_mem c inRest)
      have here := noNul c List.mem_cons_self
      simpa [expansion, Piece.text, here.symm] using rest
  | @directive c format arg args p parts means _ inductionHypothesis =>
      have rest := inductionHypothesis fun c' inRest =>
        noNul c' (List.mem_cons_of_mem 37 (List.mem_cons_of_mem c inRest))
      have cut : expansion (p :: parts) = p.text ++ expansion parts := by simp [expansion]
      rw [cut, List.mem_append, not_or, rest]
      cases p with
      | char c' => exact absurd means (directive_ne_char c c' arg)
      | hex value => simp [Piece.text, numeral_ne_zero]
      | dec value =>
          have sign : (0 : UInt8) ∉ if value.toInt32.toInt < 0 then [(45 : UInt8)] else [] := by
            split <;> simp
          simp [Piece.text, numeral_ne_zero, sign]
      | chr value =>
          have here : (0 : UInt8) ∉ (Piece.chr value).text ↔ value.toUInt8 ≠ 0 := by
            simp [Piece.text, eq_comm]
          rw [here]
          constructor
          · rintro ⟨nonzero, others⟩ value' (_ | ⟨_, inRest⟩)
            · exact nonzero
            · exact others value' inRest
          · intro all
            exact ⟨all value List.mem_cons_self,
              fun value' inRest => all value' (List.mem_cons_of_mem _ inRest)⟩
      | str s =>
          have absent : (0 : UInt8) ∉ s.chars := fun inString => s.noNul 0 inString rfl
          simp [Piece.text, absent]

/-- `vsprintf` and `sprintf` leave the expansion with its terminator and return its length
exactly if no `%c` gets a NUL and the terminator is either that of a string argument at the
end or was there before. -/
theorem vsprintf_formats_iff {size : Nat} {str : Bytes} {format : CString} {args : List Arg}
    {parts : List Piece} (matching : Matches format.chars args parts)
    (fits : (expansion parts).length < size) :
    (Formats (vsprintf size str format args) str (expansion parts) ∧
        Formats (sprintf size str format args) str (expansion parts)) ↔
      (∀ value, Piece.chr value ∈ parts → value.toUInt8 ≠ 0) ∧
        (EndsInString parts ∨ str (expansion parts).length = 0) := by
  have loop := vsprintfLoop_eq matching ⟨str, 0⟩ [] false
  rw [Out.after_nil, List.nil_append] at loop
  generalize result : (⟨str, 0⟩ : Out).after (expansion parts) (endedBy parts false) = out at loop
  have code : vsprintf size str format args =
      strlenFrom out.str size 0 >>= fun length => .ok (length, out.str) := by
    rw [vsprintf, loop, ok_bind]
    rfl
  have same : sprintf size str format args = vsprintf size str format args := by
    rw [sprintf]
    cases vsprintf size str format args <;> rfl
  have inText : ∀ (k : Nat) (inside : k < (expansion parts).length),
      out.str k = (expansion parts).get ⟨k, inside⟩ := by
    intro k inside
    rw [← result]
    simp [Out.after, inside]
  have atEnd : out.str (expansion parts).length = 0 ↔
      EndsInString parts ∨ str (expansion parts).length = 0 := by
    rw [← result, ← endedBy_false_iff]
    cases ended : endedBy parts false <;> simp [Out.after]
  have behind : ∀ k, (expansion parts).length < k → out.str k = str k := by
    intro k above
    rw [← result]
    have outside : ¬ k < (expansion parts).length := by omega
    have notEnd : k ≠ (expansion parts).length := by omega
    simp [Out.after, outside, notEnd]
  have noZero : (∀ j < (expansion parts).length, out.str j ≠ 0) ↔
      ∀ value, Piece.chr value ∈ parts → value.toUInt8 ≠ 0 := by
    rw [← zero_notMem_expansion matching format.noNul]
    constructor
    · intro all inText'
      obtain ⟨k, zero⟩ := List.get_of_mem inText'
      exact all k.val k.isLt ((inText k.val k.isLt).trans zero)
    · intro absent j inside zero
      rw [inText j inside] at zero
      exact absent (zero ▸ List.get_mem _ _)
  rw [same, and_self, ← atEnd, ← noZero]
  constructor
  · rintro ⟨str', ran, -, zero, -⟩
    rw [code] at ran
    obtain ⟨length, found, ran⟩ := except_bind_eq_ok.mp ran
    simp only [Except.ok.injEq, Prod.mk.injEq] at ran
    obtain ⟨rfl, rfl⟩ := ran
    obtain ⟨-, -, -, before⟩ := strlenFrom_eq_ok.mp found
    exact ⟨fun j below => before j (Nat.zero_le j) below, zero⟩
  · rintro ⟨before, zero⟩
    have found : strlenFrom out.str size 0 = .ok (expansion parts).length :=
      strlenFrom_eq_ok.mpr ⟨Nat.zero_le _, by omega, zero, fun j _ below => before j below⟩
    exact ⟨out.str, by rw [code, found, ok_bind], inText, zero, behind⟩

/-- `vsprintf(buf, "%s%d", "ide", 1)` in a cleared array of 8 bytes. -/
theorem vsprintf_formats_iff_ide :
    Formats (vsprintf 8 (Bytes.fill 0) ⟨[37, 115, 37, 100], by simp⟩
      [.string ⟨[105, 100, 101], by simp⟩, .word 1]) (Bytes.fill 0) [105, 100, 101, 49] := by
  have matching : Matches [37, 115, 37, 100] [.string ⟨[105, 100, 101], by simp⟩, .word 1]
      [.str ⟨[105, 100, 101], by simp⟩, .dec 1] :=
    .directive rfl (.directive rfl .nil)
  have text : expansion [.str ⟨[105, 100, 101], by simp⟩, .dec 1] = [105, 100, 101, 49] := by
    decide
  have formats := (@vsprintf_formats_iff 8 (Bytes.fill 0) ⟨[37, 115, 37, 100], by simp⟩ _ _
    matching (by decide)).mpr ⟨by simp, Or.inr rfl⟩
  rw [text] at formats
  exact formats.1

/-- `vsprintf(buf, "a")` in an array of 64 bytes `'x'`, with a 0 behind it. -/
theorem vsprintf_unterminated :
    vsprintf 65 (fun k => if k < 64 then 120 else 0) ⟨[97], by simp⟩ [] =
        .ok (64, Function.update (fun k => if k < 64 then 120 else 0) 0 97) ∧
      expansion [.char 97] = [97] ∧ Matches [97] [] [.char 97] := by
  refine ⟨?_, rfl, .char (by decide) .nil⟩
  rw [vsprintf, vsprintfLoop_char (by decide), vsprintfLoop, ok_bind]
  have found : strlenFrom (Out.put ⟨fun k => if k < 64 then 120 else 0, 0⟩ 97).str 65 0 =
      .ok 64 := by
    decide
  rw [found]
  rfl

end HongbaiOS.Lib
