import HongbaiOS.Fs.Search
import HongbaiOS.Lib.Stdio

/-!
# Strings in memory

`strcat` copies the characters of its second string behind those of the first and stops; what
then ends the string is whatever the buffer held there.  The functions that read the result,
`strlen`, `strrchr`, `path_depth_cnt` and `strcat` itself, go on to the next NUL.
-/

namespace HongbaiOS.Fs

open HongbaiOS.Library HongbaiOS.Kernel HongbaiOS.Lib

section Code

-- how many bytes of memory there are, and what they hold
variable (memEnd : Nat) (mem : Bytes)

/-- `strlen(str_)` -/
def strlenAt (str : Nat) : Except Halt Nat := do
  check .strlen (str ≠ 0)
  let s ← strlenFrom mem (memEnd - str) str
  return s - str

/-- The second loop of `strcat`. -/
def strcatLoop : (left : Nat) → (mem : Bytes) → (str src : Nat) → Except Halt Bytes
  | 0, _, _, _ => .error .outOfBounds
  | left + 1, mem, str, src =>
      if mem src = 0 then .ok mem
      else strcatLoop left (Function.update mem str (mem src)) (str + 1) (src + 1)

/-- `strcat(dsc_, src_)` -/
def strcat (dsc src : Nat) : Except Halt (Nat × Bytes) := do
  check .strcat (dsc ≠ 0 ∧ src ≠ 0)
  let str ← strlenFrom mem (memEnd - dsc) dsc
  let mem ← strcatLoop (memEnd - src) mem str src
  return (dsc, mem)

/-- The loop of `strrchr`; a `char` is signed, `ch` is not. -/
def strrchrLoop (ch : UInt8) : (left : Nat) → (lastCharPtr : Option Nat) → (str : Nat) →
    Except Halt (Option Nat)
  | 0, _, _ => .error .outOfBounds
  | left + 1, lastCharPtr, str =>
      if mem str = 0 then .ok lastCharPtr
      else
        strrchrLoop ch left
          (if (mem str).toInt8.toInt = ch.toNat then some str else lastCharPtr) (str + 1)

/-- `strrchr(str_, ch)` -/
def strrchrAt (str : Nat) (ch : UInt8) : Except Halt (Option Nat) := do
  check .strrchr (str ≠ 0)
  strrchrLoop mem ch (memEnd - str) none str

/-- `while (*pathname == '/')` -/
def skipSlashes : (left pathname : Nat) → Except Halt Nat
  | 0, _ => .error .outOfBounds
  | left + 1, pathname =>
      if mem pathname = slash then skipSlashes left (pathname + 1) else .ok pathname

/-- The `if` of `path_paser` around that loop. -/
def skipLeading (pathname : Nat) : Except Halt Nat :=
  if mem pathname = slash then skipSlashes mem (memEnd - pathname) pathname else .ok pathname

/-- `while (*pathname != '/' && *pathname != 0)`: what goes to `name_store`, and the pointer. -/
def takeName : (left pathname : Nat) → Except Halt (List UInt8 × Nat)
  | 0, _ => .error .outOfBounds
  | left + 1, pathname =>
      if mem pathname ≠ slash ∧ mem pathname ≠ 0 then do
        let (name, behind) ← takeName left (pathname + 1)
        return (mem pathname :: name, behind)
      else .ok ([], pathname)

/-- `path_paser(pathname, name_store)`; the array behind `name_store` has `MAX_FILE_NAME_LEN`
bytes. -/
def pathPaserAt (pathname : Nat) : Except Halt (List UInt8 × Option Nat) := do
  let pathname ← skipLeading memEnd mem pathname
  let (name, pathname) ← takeName mem (memEnd - pathname) pathname
  if maxFileNameLen < name.length then .error .outOfBounds
  else if mem pathname = 0 then return (name, none)
  else return (name, some pathname)

/-- The loop of `path_depth_cnt`. -/
def pathDepthLoopAt : (left : Nat) → (name : List UInt8) → (p : Option Nat) → (depth : Nat) →
    Except Halt Nat
  | 0, _, _, _ => .error .disabled
  | left + 1, name, p, depth =>
      if name = [] then .ok depth
      else
        match p with
        | none => pathDepthLoopAt left [] none (depth + 1)
        | some p => do
            let (name, p) ← pathPaserAt memEnd mem p
            pathDepthLoopAt left name p (depth + 1)

/-- `path_depth_cnt(pathname)`, with `junk` in the first byte of `name`. -/
def pathDepthCntAt (junk : UInt8) (pathname : Nat) : Except Halt Nat := do
  check .pathDepthCnt (pathname ≠ 0)
  let (name, p) ← pathPaserAt memEnd mem pathname
  let name := if name = [] ∧ junk ≠ 0 then [junk] else name
  pathDepthLoopAt memEnd mem (memEnd + 2) name p 0

end Code

/-- The bytes from `p` on are these. -/
def HoldsChars (mem : Bytes) : (p : Nat) → List UInt8 → Prop
  | _, [] => True
  | p, c :: chars => mem p = c ∧ HoldsChars mem (p + 1) chars

structure HoldsString (mem : Bytes) (p : Nat) (str : List UInt8) : Prop where
  chars : HoldsChars mem p str
  noNul : ∀ c ∈ str, c ≠ 0
  ended : mem (p + str.length) = 0

section Strings

variable {mem mem' : Bytes} {p q left : Nat} {c : UInt8} {str more : List UInt8}

theorem HoldsChars.congr (holds : HoldsChars mem p str)
    (same : ∀ a, p ≤ a → a < p + str.length → mem' a = mem a) : HoldsChars mem' p str := by
  induction str generalizing p with
  | nil => trivial
  | cons c str inductionHypothesis =>
    rw [List.length_cons] at same
    refine ⟨(same p (Nat.le_refl p) (by omega)).trans holds.1, inductionHypothesis holds.2 ?_⟩
    exact fun a low high => same a (by omega) (by omega)

theorem holdsChars_append :
    HoldsChars mem p (str ++ more) ↔
      HoldsChars mem p str ∧ HoldsChars mem (p + str.length) more := by
  induction str generalizing p with
  | nil => simp [HoldsChars]
  | cons c str inductionHypothesis =>
    rw [List.cons_append, HoldsChars, HoldsChars, inductionHypothesis, List.length_cons,
      and_assoc, Nat.add_assoc, Nat.add_comm 1]

theorem HoldsString.head (holds : HoldsString mem p (c :: str)) : mem p = c ∧ c ≠ 0 :=
  ⟨holds.chars.1, holds.noNul c List.mem_cons_self⟩

theorem HoldsString.tail (holds : HoldsString mem p (c :: str)) :
    HoldsString mem (p + 1) str where
  chars := holds.chars.2
  noNul c inStr := holds.noNul c (List.mem_cons_of_mem _ inStr)
  ended := by
    have ended := holds.ended
    rw [List.length_cons] at ended
    rw [Nat.add_assoc, Nat.add_comm 1]
    exact ended

theorem HoldsString.drop (holds : HoldsString mem p (str ++ more)) :
    HoldsString mem (p + str.length) more where
  chars := (holdsChars_append.mp holds.chars).2
  noNul c inMore := holds.noNul c (List.mem_append_right str inMore)
  ended := by
    have ended := holds.ended
    rw [List.length_append, ← Nat.add_assoc] at ended
    exact ended

theorem HoldsString.congr (holds : HoldsString mem p str)
    (same : ∀ a, p ≤ a → a ≤ p + str.length → mem' a = mem a) : HoldsString mem' p str where
  chars := holds.chars.congr fun a low high => same a low high.le
  noNul := holds.noNul
  ended := (same _ (Nat.le_add_right _ _) (Nat.le_refl _)).trans holds.ended

/-- The scan for the NUL. -/
theorem HoldsString.strlenFrom_eq (holds : HoldsString mem p str) (enough : str.length < left) :
    strlenFrom mem left p = .ok (p + str.length) := by
  induction str generalizing p left with
  | nil =>
    obtain ⟨left, rfl⟩ := Nat.exists_eq_succ_of_ne_zero (Nat.ne_zero_of_lt enough)
    rw [strlenFrom]
    exact if_pos holds.ended
  | cons c str inductionHypothesis =>
    obtain ⟨left, rfl⟩ := Nat.exists_eq_succ_of_ne_zero (Nat.ne_zero_of_lt enough)
    obtain ⟨isHead, notNul⟩ := holds.head
    rw [strlenFrom, if_neg (isHead ▸ notNul),
      inductionHypothesis holds.tail (Nat.lt_of_succ_lt_succ enough), List.length_cons,
      Nat.add_assoc, Nat.add_comm 1]

/-- The copying loop writes the string without its terminator, and nothing else. -/
theorem HoldsString.strcatLoop_eq (holds : HoldsString mem q str) (enough : str.length < left)
    (apart : q + str.length < p ∨ p + str.length ≤ q) :
    ∃ mem', strcatLoop left mem p q = .ok mem' ∧ HoldsChars mem' p str ∧
      ∀ a, a < p ∨ p + str.length ≤ a → mem' a = mem a := by
  induction str generalizing mem p q left with
  | nil =>
    obtain ⟨left, rfl⟩ := Nat.exists_eq_succ_of_ne_zero (Nat.ne_zero_of_lt enough)
    exact ⟨mem, if_pos holds.ended, trivial, fun _ _ => rfl⟩
  | cons c str inductionHypothesis =>
    obtain ⟨left, rfl⟩ := Nat.exists_eq_succ_of_ne_zero (Nat.ne_zero_of_lt enough)
    obtain ⟨isHead, notNul⟩ := holds.head
    rw [List.length_cons] at apart
    have rest : HoldsString (Function.update mem p (mem q)) (q + 1) str :=
      holds.tail.congr fun a low high => Function.update_of_ne (by omega) _ _
    obtain ⟨mem', ran, written, others⟩ := @inductionHypothesis _ (p + 1) _ _ rest
      (Nat.lt_of_succ_lt_succ enough) (by omega)
    refine ⟨mem', ?_, ⟨?_, written⟩, fun a outside => ?_⟩
    · rw [strcatLoop, if_neg (isHead ▸ notNul), ran]
    · rw [others p (.inl (Nat.lt_succ_self p)), Function.update_self, isHead]
    · rw [List.length_cons] at outside
      rw [others a (by omega), Function.update_of_ne (by omega)]

end Strings

section Readers

variable {memEnd : Nat} {mem : Bytes} {p left : Nat} {str name rest : List UInt8}

theorem isSlash_eq_true {c : UInt8} : isSlash c = true ↔ c = slash := beq_iff_eq

theorem toInt8_slash (c : UInt8) : c.toInt8.toInt = slash.toNat ↔ c = slash := by
  have value : c.toInt8.toInt =
      if 2 * c.toNat < 2 ^ 8 then (c.toNat : Int) else (c.toNat : Int) - 2 ^ 8 :=
    BitVec.toInt_eq_toNat_cond c.toBitVec
  have isSlash : slash.toNat = 47 := rfl
  have bound := c.toNat_lt
  rw [value, ← UInt8.toNat_inj, isSlash]
  split
  next => exact Int.ofNat_inj
  next => constructor <;> intro same <;> omega

/-- A pointer to the end of the string is as good as what is there. -/
theorem HoldsString.strrchrLoop_eq (holds : HoldsString mem p str) (enough : str.length < left)
    (found : Option (List UInt8)) :
    strrchrLoop mem slash left (found.map fun rest => p + str.length - rest.length) p =
      .ok ((strrchrFrom slash found str).map fun rest => p + str.length - rest.length) := by
  induction str generalizing p left found with
  | nil =>
    obtain ⟨left, rfl⟩ := Nat.exists_eq_succ_of_ne_zero (Nat.ne_zero_of_lt enough)
    exact if_pos holds.ended
  | cons c str inductionHypothesis =>
    obtain ⟨left, rfl⟩ := Nat.exists_eq_succ_of_ne_zero (Nat.ne_zero_of_lt enough)
    obtain ⟨isHead, notNul⟩ := holds.head
    have sameEnd : p + (c :: str).length = p + 1 + str.length := by
      rw [List.length_cons]
      omega
    have rest := inductionHypothesis holds.tail (Nat.lt_of_succ_lt_succ enough)
      (if c = slash then some (c :: str) else found)
    rw [strrchrLoop, if_neg (isHead ▸ notNul), isHead, strrchrFrom, sameEnd, ← rest]
    congr 1
    by_cases isSlash : c = slash
    · rw [if_pos ((toInt8_slash c).mpr isSlash), if_pos isSlash, Option.map_some,
        List.length_cons]
      congr 1
      omega
    · rw [if_neg (mt (toInt8_slash c).mp isSlash), if_neg isSlash]

theorem HoldsString.skipSlashes_eq (holds : HoldsString mem p str) (enough : str.length < left) :
    skipSlashes mem left p = .ok (p + (str.takeWhile isSlash).length) := by
  induction str generalizing p left with
  | nil =>
    obtain ⟨left, rfl⟩ := Nat.exists_eq_succ_of_ne_zero (Nat.ne_zero_of_lt enough)
    have ended : mem p = 0 := holds.ended
    rw [skipSlashes, ended]
    exact if_neg (by decide)
  | cons c str inductionHypothesis =>
    obtain ⟨left, rfl⟩ := Nat.exists_eq_succ_of_ne_zero (Nat.ne_zero_of_lt enough)
    rw [skipSlashes, holds.head.1]
    by_cases here : c = slash
    · rw [if_pos here, inductionHypothesis holds.tail (Nat.lt_of_succ_lt_succ enough),
        List.takeWhile_cons_of_pos (isSlash_eq_true.mpr here), List.length_cons, Nat.add_assoc,
        Nat.add_comm 1]
    · rw [if_neg here, List.takeWhile_cons_of_neg (mt isSlash_eq_true.mp here)]
      rfl

theorem HoldsString.takeName_eq (holds : HoldsString mem p str) (enough : str.length < left) :
    takeName mem left p = .ok (str.takeWhile fun c => !isSlash c,
      p + (str.takeWhile fun c => !isSlash c).length) := by
  induction str generalizing p left with
  | nil =>
    obtain ⟨left, rfl⟩ := Nat.exists_eq_succ_of_ne_zero (Nat.ne_zero_of_lt enough)
    exact if_neg fun more => more.2 holds.ended
  | cons c str inductionHypothesis =>
    obtain ⟨left, rfl⟩ := Nat.exists_eq_succ_of_ne_zero (Nat.ne_zero_of_lt enough)
    obtain ⟨isHead, notNul⟩ := holds.head
    rw [takeName, isHead]
    by_cases here : c = slash
    · have stops : (c :: str).takeWhile (fun c => !isSlash c) = [] :=
        List.takeWhile_cons_of_neg (by simp [isSlash_eq_true.mpr here])
      rw [if_neg fun more => more.1 here, stops]
      rfl
    · have goesOn : (c :: str).takeWhile (fun c => !isSlash c) =
          c :: str.takeWhile fun c => !isSlash c :=
        List.takeWhile_cons_of_pos (by simpa using mt isSlash_eq_true.mp here)
      rw [if_pos ⟨here, notNul⟩, inductionHypothesis holds.tail (Nat.lt_of_succ_lt_succ enough),
        ok_bind, goesOn, List.length_cons, ← Nat.add_assoc, Nat.add_right_comm]
      rfl

/-- The pointer to what is left of a path, `NULL` if nothing is. -/
def pointerTo (bound : Nat) (rest : List UInt8) : Option Nat :=
  if rest = [] then none else some (bound - rest.length)

theorem HoldsString.skipLeading_eq (holds : HoldsString mem p str)
    (inside : p + str.length < memEnd) :
    skipLeading memEnd mem p = .ok (p + (str.takeWhile isSlash).length) := by
  rw [skipLeading]
  split
  next => exact holds.skipSlashes_eq (by omega)
  next noSlash =>
    cases str with
    | nil => rfl
    | cons c str =>
      have stops : (c :: str).takeWhile isSlash = [] :=
        List.takeWhile_cons_of_neg fun isSlash =>
          noSlash (holds.head.1.trans (isSlash_eq_true.mp isSlash))
      rw [stops]
      rfl

theorem HoldsString.pathPaserAt_eq (holds : HoldsString mem p str)
    (inside : p + str.length < memEnd) :
    pathPaserAt memEnd mem p =
      (pathPaser str).map fun r => (r.1, pointerTo (p + str.length) r.2) := by
  let start := str.dropWhile isSlash
  let name := start.takeWhile fun c => !isSlash c
  let rest := start.dropWhile fun c => !isSlash c
  have cut : str.takeWhile isSlash ++ start = str := List.takeWhile_append_dropWhile
  have cut' : name ++ rest = start := List.takeWhile_append_dropWhile
  have length := congrArg List.length cut
  have length' := congrArg List.length cut'
  rw [List.length_append] at length length'
  have holdsStart : HoldsString mem (p + (str.takeWhile isSlash).length) start := by
    rw [← cut] at holds
    exact holds.drop
  have holdsRest : HoldsString mem (p + (str.takeWhile isSlash).length + name.length) rest := by
    have whole := holdsStart
    rw [← cut'] at whole
    exact whole.drop
  have taken : takeName mem (memEnd - (p + (str.takeWhile isSlash).length))
      (p + (str.takeWhile isSlash).length) =
        .ok (name, p + (str.takeWhile isSlash).length + name.length) :=
    holdsStart.takeName_eq (by omega)
  rw [pathPaserAt, holds.skipLeading_eq inside, ok_bind, taken, ok_bind, pathPaser]
  change (if maxFileNameLen < name.length then _ else _) =
    (if name.length ≤ maxFileNameLen then Except.ok (name, rest)
      else .error Halt.outOfBounds).map _
  by_cases fits : name.length ≤ maxFileNameLen
  · rw [if_neg (Nat.not_lt.mpr fits), if_pos fits]
    have atEnd : p + str.length - rest.length =
        p + (str.takeWhile isSlash).length + name.length := by omega
    by_cases last : rest = []
    · have ended : mem (p + (str.takeWhile isSlash).length + name.length) = 0 := by
        have ended := holdsRest.ended
        rw [last] at ended
        exact ended
      have isNull : pointerTo (p + str.length) rest = none := if_pos last
      rw [if_pos ended]
      exact congrArg (fun ptr => Except.ok (name, ptr)) isNull.symm
    · have more : mem (p + (str.takeWhile isSlash).length + name.length) ≠ 0 := by
        obtain ⟨c, rest', isRest⟩ := List.exists_cons_of_ne_nil last
        rw [isRest] at holdsRest
        exact holdsRest.head.1 ▸ holdsRest.head.2
      have isPointer : pointerTo (p + str.length) rest =
          some (p + (str.takeWhile isSlash).length + name.length) := by
        rw [pointerTo, if_neg last, atEnd]
      rw [if_neg more]
      exact congrArg (fun ptr => Except.ok (name, ptr)) isPointer.symm
  · rw [if_pos (Nat.not_le.mp fits), if_neg fits]
    rfl

theorem pathPaser_suffix (ran : pathPaser str = .ok (name, rest)) :
    ∃ front, str = front ++ rest := by
  unfold pathPaser at ran
  dsimp only at ran
  split at ran
  next =>
    simp only [Except.ok.injEq, Prod.mk.injEq] at ran
    obtain ⟨-, rfl⟩ := ran
    obtain ⟨skipped, isSkipped⟩ := List.dropWhile_suffix isSlash (l := str)
    obtain ⟨front, isFront⟩ := List.dropWhile_suffix (fun c => !isSlash c)
      (l := str.dropWhile isSlash)
    exact ⟨skipped ++ front, by rw [List.append_assoc, isFront, isSkipped]⟩
  next => cases ran

theorem HoldsString.pathDepthLoopAt_eq (holds : HoldsString mem p str)
    (inside : p + str.length < memEnd) (front : List UInt8) (isSuffix : str = front ++ rest)
    (depth : Nat) :
    pathDepthLoopAt memEnd mem left name (pointerTo (p + str.length) rest) depth =
      pathDepthLoop left name rest depth := by
  induction left generalizing front name rest depth with
  | zero => rfl
  | succ left inductionHypothesis =>
    rw [pathDepthLoopAt.eq_def, pathDepthLoop]
    dsimp only
    split
    next => rfl
    next =>
      by_cases last : rest = []
      · have isNull : pointerTo (p + str.length) rest = none := if_pos last
        have again := @inductionHypothesis [] [] str (List.append_nil str).symm (depth + 1)
        rw [if_pos last, isNull]
        exact again
      · have length := congrArg List.length isSuffix
        rw [List.length_append] at length
        have isPointer : pointerTo (p + str.length) rest = some (p + front.length) := by
          rw [pointerTo, if_neg last]
          congr 1
          omega
        have holdsRest : HoldsString mem (p + front.length) rest := by
          rw [isSuffix] at holds
          exact holds.drop
        have sameEnd : p + front.length + rest.length = p + str.length := by omega
        rw [if_neg last, isPointer]
        dsimp only
        rw [holdsRest.pathPaserAt_eq (by omega), sameEnd]
        cases parsed : pathPaser rest with
        | error reason => rfl
        | ok cut =>
          obtain ⟨name', rest'⟩ := cut
          obtain ⟨front', isFront⟩ := pathPaser_suffix parsed
          exact inductionHypothesis (front ++ front')
            (by rw [isSuffix, isFront, List.append_assoc]) (depth + 1)

/-- Once there are passes enough, more of them change nothing. -/
theorem pathDepthLoop_enough {left' depth : Nat} (enough : rest.length + 2 ≤ left)
    (enough' : rest.length + 2 ≤ left') :
    pathDepthLoop left name rest depth = pathDepthLoop left' name rest depth := by
  have ends : ∀ (left : Nat) (p : List UInt8) (depth : Nat), 0 < left →
      pathDepthLoop left [] p depth = .ok depth := by
    intro left p depth positive
    obtain ⟨left, rfl⟩ := Nat.exists_eq_succ_of_ne_zero (Nat.ne_of_gt positive)
    rw [pathDepthLoop, if_pos rfl]
  induction left generalizing left' name rest depth with
  | zero => omega
  | succ left inductionHypothesis =>
    obtain ⟨left', rfl⟩ := Nat.exists_eq_succ_of_ne_zero (by omega : left' ≠ 0)
    rw [pathDepthLoop, pathDepthLoop]
    split
    next => rfl
    next =>
      split
      next => rw [ends left [] _ (by omega), ends left' [] _ (by omega)]
      next =>
        cases parsed : pathPaser rest with
        | error reason => rfl
        | ok cut =>
          obtain ⟨name', rest'⟩ := cut
          obtain ⟨-, -, ⟨rfl, rfl, -⟩ | ⟨-, -, shorter⟩⟩ := pathPaser_eq_ok parsed
          · rw [ok_bind, ok_bind]
            exact (ends left [] _ (by omega)).trans (ends left' [] _ (by omega)).symm
          · exact inductionHypothesis (by omega) (by omega)

theorem HoldsString.pathDepthCntAt_eq (holds : HoldsString mem p str) (notNull : p ≠ 0)
    (inside : p + str.length < memEnd) (junk : UInt8) :
    pathDepthCntAt memEnd mem junk p = pathDepthCnt junk str := by
  rw [pathDepthCntAt, decide_eq_true notNull, check_true, ok_bind, holds.pathPaserAt_eq inside,
    pathDepthCnt]
  cases parsed : pathPaser str with
  | error reason => rfl
  | ok cut =>
    obtain ⟨name, rest⟩ := cut
    obtain ⟨front, isSuffix⟩ := pathPaser_suffix parsed
    have shorter := (pathPaser_eq_ok parsed).2.1
    refine (holds.pathDepthLoopAt_eq inside front isSuffix 0).trans ?_
    exact pathDepthLoop_enough (by omega) (by omega)

end Readers

/-- A string in a buffer of `size` bytes with room for another one, which lies outside. -/
structure HasRoom (memEnd : Nat) (mem : Bytes) (dsc size : Nat) (d : List UInt8) (src : Nat)
    (s : List UInt8) : Prop where
  notNull : dsc ≠ 0 ∧ src ≠ 0
  buffer : dsc + size ≤ memEnd
  source : src + s.length < memEnd
  holds : HoldsString mem dsc d
  holdsSource : HoldsString mem src s
  room : d.length + s.length < size
  apart : src + s.length < dsc ∨ dsc + size ≤ src

/-- `strcat` leaves the concatenation with a terminator, and whatever reads the buffer next
sees it. -/
def Concatenates (memEnd : Nat) (mem : Bytes) (dsc size : Nat) (d : List UInt8) (src : Nat)
    (s : List UInt8) : Prop :=
  ∃ mem', strcat memEnd mem dsc src = .ok (dsc, mem') ∧ HoldsString mem' dsc (d ++ s) ∧
    strlenAt memEnd mem' dsc = .ok (d.length + s.length) ∧
    strrchrAt memEnd mem' dsc slash = .ok ((strrchr (d ++ s) slash).map fun rest =>
      dsc + (d ++ s).length - rest.length) ∧
    (∀ junk, pathDepthCntAt memEnd mem' junk dsc = pathDepthCnt junk (d ++ s)) ∧
    ∀ src' t, HasRoom memEnd mem' dsc size (d ++ s) src' t →
      ∃ mem'', strcat memEnd mem' dsc src' = .ok (dsc, mem'') ∧ HoldsChars mem'' dsc (d ++ s ++ t)

section Strcat

variable {memEnd dsc size src : Nat} {mem : Bytes} {d s : List UInt8}

/-- What `strcat` writes: the characters, but no terminator. -/
theorem HasRoom.strcat_eq (room : HasRoom memEnd mem dsc size d src s) :
    ∃ mem', strcat memEnd mem dsc src = .ok (dsc, mem') ∧ HoldsChars mem' dsc (d ++ s) ∧
      ∀ a, a < dsc + d.length ∨ dsc + d.length + s.length ≤ a → mem' a = mem a := by
  have fits := room.room
  have buffer := room.buffer
  have source := room.source
  have apart := room.apart
  have found := room.holds.strlenFrom_eq (show d.length < memEnd - dsc by omega)
  obtain ⟨mem', ran, written, others⟩ :=
    @HoldsString.strcatLoop_eq mem (dsc + d.length) src (memEnd - src) s room.holdsSource
      (by omega) (by omega)
  refine ⟨mem', ?_, holdsChars_append.mpr ⟨?_, written⟩, others⟩
  · rw [strcat, decide_eq_true room.notNull, check_true, ok_bind, found, ok_bind, ran]
    rfl
  · exact room.holds.chars.congr fun a _ high => others a (.inl high)

theorem HoldsString.strlenAt_eq {p : Nat} {str : List UInt8} (holds : HoldsString mem p str)
    (notNull : p ≠ 0) (inside : p + str.length < memEnd) :
    strlenAt memEnd mem p = .ok str.length := by
  rw [strlenAt, decide_eq_true notNull, check_true, ok_bind, holds.strlenFrom_eq (by omega),
    ok_bind, Nat.add_sub_cancel_left]
  rfl

theorem HoldsString.strrchrAt_eq {p : Nat} {str : List UInt8} (holds : HoldsString mem p str)
    (notNull : p ≠ 0) (inside : p + str.length < memEnd) :
    strrchrAt memEnd mem p slash =
      .ok ((strrchr str slash).map fun rest => p + str.length - rest.length) := by
  rw [strrchrAt, decide_eq_true notNull, check_true, ok_bind]
  exact holds.strrchrLoop_eq (by omega) none

/-- `strcat` does what its name says exactly if the buffer happens to hold a NUL where the
concatenation ends. -/
theorem strcat_concatenates_iff (room : HasRoom memEnd mem dsc size d src s) :
    Concatenates memEnd mem dsc size d src s ↔ mem (dsc + d.length + s.length) = 0 := by
  obtain ⟨mem', ran, written, others⟩ := room.strcat_eq
  have behind : mem' (dsc + d.length + s.length) = mem (dsc + d.length + s.length) :=
    others _ (.inr (Nat.le_refl _))
  constructor
  · rintro ⟨mem'', ran', holds, -⟩
    obtain rfl : mem' = mem'' := (Prod.mk.inj (Except.ok.inj (ran.symm.trans ran'))).2
    have ended := holds.ended
    rw [List.length_append, ← Nat.add_assoc, behind] at ended
    exact ended
  · intro isNul
    have holds : HoldsString mem' dsc (d ++ s) := by
      refine ⟨written, fun c inBoth => ?_, ?_⟩
      · rcases List.mem_append.mp inBoth with inFirst | inSecond
        · exact room.holds.noNul c inFirst
        · exact room.holdsSource.noNul c inSecond
      · rw [List.length_append, ← Nat.add_assoc, behind, isNul]
    have inside : dsc + (d ++ s).length < memEnd := by
      have fits := room.room
      have buffer := room.buffer
      rw [List.length_append]
      omega
    refine ⟨mem', ran, holds, ?_, holds.strrchrAt_eq room.notNull.1 inside,
      holds.pathDepthCntAt_eq room.notNull.1 inside, fun src' t further => ?_⟩
    · rw [holds.strlenAt_eq room.notNull.1 inside, List.length_append]
    · obtain ⟨mem'', ran', written', -⟩ := further.strcat_eq
      exact ⟨mem'', ran', written'⟩

/-- `strcat(buf, "a")` in a cleared buffer of 8 bytes. -/
theorem strcat_concatenates_iff_cleared :
    Concatenates 0x3000 (fun a => if a = 0x2000 then 97 else 0) 0x1000 8 [] 0x2000 [97] := by
  have room : HasRoom 0x3000 (fun a => if a = 0x2000 then 97 else 0) 0x1000 8 [] 0x2000 [97] :=
    ⟨by decide, by decide, by decide, ⟨trivial, nofun, rfl⟩, ⟨⟨rfl, trivial⟩, by simp, rfl⟩,
      by decide, by decide⟩
  exact (strcat_concatenates_iff room).mpr rfl

/-- Memory with a buffer that begins with an empty string and two characters behind it, and
the string `"a"`. -/
def usedBuffer : Bytes := fun a =>
  if a = 0x1001 ∨ a = 0x1002 then 120 else if a = 0x2000 then 97 else 0

/-- `strcat(buf, "a")` makes `"axx"` of that buffer. -/
theorem usedBuffer_not_concatenates :
    HasRoom 0x3000 usedBuffer 0x1000 8 [] 0x2000 [97] ∧
      ¬ Concatenates 0x3000 usedBuffer 0x1000 8 [] 0x2000 [97] := by
  refine ⟨⟨by decide, by decide, by decide, ⟨trivial, nofun, rfl⟩,
    ⟨⟨rfl, trivial⟩, by simp, rfl⟩, by decide, by decide⟩, ?_⟩
  rintro ⟨mem', ran, -, length, -⟩
  have result : strcat 0x3000 usedBuffer 0x1000 0x2000 =
      .ok (0x1000, Function.update usedBuffer 0x1000 97) := rfl
  obtain rfl := (Prod.mk.inj (Except.ok.inj (result.symm.trans ran))).2
  have isThree : strlenAt 0x3000 (Function.update usedBuffer 0x1000 97) 0x1000 = .ok 3 := rfl
  cases isThree.symm.trans length

/-- A string in a buffer with nothing but zeros behind it, as `sys_open` prepares
`searched_path`. -/
structure Cleared (mem : Bytes) (dsc size : Nat) (str : List UInt8) : Prop where
  holds : HoldsString mem dsc str
  zero : ∀ k, str.length ≤ k → k < size → mem (dsc + k) = 0

theorem Cleared.strcat (cleared : Cleared mem dsc size d)
    (room : HasRoom memEnd mem dsc size d src s) :
    ∃ mem', strcat memEnd mem dsc src = .ok (dsc, mem') ∧ Cleared mem' dsc size (d ++ s) ∧
      ∀ a, a < dsc ∨ dsc + size ≤ a → mem' a = mem a := by
  obtain ⟨mem', ran, written, others⟩ := room.strcat_eq
  have fits := room.room
  have zero : ∀ k, d.length + s.length ≤ k → k < size → mem' (dsc + k) = 0 := by
    intro k low high
    rw [others _ (.inr (by omega)), cleared.zero k (by omega) high]
  refine ⟨mem', ran, ⟨⟨written, fun c inBoth => ?_, ?_⟩, fun k low high => ?_⟩,
    fun a outside => others a ?_⟩
  · rcases List.mem_append.mp inBoth with inFirst | inSecond
    · exact cleared.holds.noNul c inFirst
    · exact room.holdsSource.noNul c inSecond
  · rw [List.length_append]
    exact zero _ (Nat.le_refl _) fits
  · rw [List.length_append] at low
    exact zero k low high
  · omega

/-- The calls of `strcat` for a list of strings, one after the other. -/
def strcatAll (memEnd dsc : Nat) : List Nat → Bytes → Except Halt Bytes
  | [], mem => .ok mem
  | src :: rest, mem => do
      let (_, mem) ← strcat memEnd mem dsc src
      strcatAll memEnd dsc rest mem

/-- All of them come behind each other. -/
theorem Cleared.strcatAll {sources : List (Nat × List UInt8)} (cleared : Cleared mem dsc size d)
    (notNull : dsc ≠ 0) (buffer : dsc + size ≤ memEnd)
    (holds : ∀ p ∈ sources, HoldsString mem p.1 p.2 ∧ p.1 ≠ 0 ∧ p.1 + p.2.length < memEnd ∧
      (p.1 + p.2.length < dsc ∨ dsc + size ≤ p.1))
    (room : d.length + (sources.flatMap Prod.snd).length < size) :
    ∃ mem', strcatAll memEnd dsc (sources.map Prod.fst) mem = .ok mem' ∧
      Cleared mem' dsc size (d ++ sources.flatMap Prod.snd) := by
  induction sources generalizing mem d with
  | nil => exact ⟨mem, rfl, by rw [List.flatMap_nil, List.append_nil]; exact cleared⟩
  | cons first rest inductionHypothesis =>
    obtain ⟨⟨isString, notNull', inside, apart⟩, holds⟩ := List.forall_mem_cons.mp holds
    rw [List.flatMap_cons, List.length_append] at room
    have here : HasRoom memEnd mem dsc size d first.1 first.2 :=
      ⟨⟨notNull, notNull'⟩, buffer, inside, cleared.holds, isString, by omega, apart⟩
    obtain ⟨mem₁, ran, cleared₁, others⟩ := cleared.strcat here
    have holds₁ : ∀ p ∈ rest, HoldsString mem₁ p.1 p.2 ∧ p.1 ≠ 0 ∧ p.1 + p.2.length < memEnd ∧
        (p.1 + p.2.length < dsc ∨ dsc + size ≤ p.1) := by
      intro p inRest
      obtain ⟨isString', notNull'', inside', apart'⟩ := holds p inRest
      exact ⟨isString'.congr fun a low high => others a (by omega), notNull'', inside', apart'⟩
    obtain ⟨mem₂, rest', cleared₂⟩ := inductionHypothesis cleared₁ holds₁
      (by rw [List.length_append]; omega)
    refine ⟨mem₂, ?_, by rw [List.flatMap_cons, ← List.append_assoc]; exact cleared₂⟩
    rw [List.map_cons, Fs.strcatAll, ran]
    exact rest'

/-- So the paths of `search_file` may be taken as plain strings. -/
theorem Cleared.strcatPath (cleared : Cleared mem dsc maxPathLen d)
    (room : HasRoom memEnd mem dsc maxPathLen d src s) :
    ∃ path mem', strcatPath d s = .ok path ∧ Fs.strcat memEnd mem dsc src = .ok (dsc, mem') ∧
      Cleared mem' dsc maxPathLen path := by
  obtain ⟨mem', ran, cleared', -⟩ := cleared.strcat room
  refine ⟨d ++ s, mem', if_pos ?_, ran, cleared'⟩
  rw [List.length_append]
  exact room.room

end Strcat

end HongbaiOS.Fs
