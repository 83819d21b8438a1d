import HongbaiOS.Fs.DirEntry
import HongbaiOS.Library.Pieces

/-!
# Taking paths apart

`fs.c` does this in three ways: `search_file` calls `path_paser` for one name after the
other, `path_depth_cnt` counts how often that works, and `sys_open` takes what stands behind
the last slash.  All three read the components of the path as long as none is longer than a
name array.
-/

namespace HongbaiOS.Fs

open HongbaiOS.Library HongbaiOS.Kernel

/-- `'/'` -/
def slash : UInt8 := 47

def isSlash (c : UInt8) : Bool := c == slash

/-- `path_paser(pathname, name_store)`: what is written to `name_store`, an array of
`MAX_FILE_NAME_LEN`, and the subpath, which is empty where the function returns `NULL`. -/
def pathPaser (pathname : List UInt8) : Except Halt (List UInt8 × List UInt8) :=
  let start := pathname.dropWhile isSlash
  let name := start.takeWhile fun c => !isSlash c
  if name.length ≤ maxFileNameLen then .ok (name, start.dropWhile fun c => !isSlash c)
  else .error .outOfBounds

/-- The loop of `path_depth_cnt`; `left` bounds the passes. -/
def pathDepthLoop : (left : Nat) → (name p : List UInt8) → (depth : Nat) → Except Halt Nat
  | 0, _, _, _ => .error .disabled
  | left + 1, name, p, depth =>
      if name = [] then .ok depth
      else if p = [] then pathDepthLoop left [] [] (depth + 1)
      else do
        let (name, p) ← pathPaser p
        pathDepthLoop left name p (depth + 1)

/-- `path_depth_cnt(pathname)`.  `junk` is the first byte of the array `name`, which is not
initialised. -/
def pathDepthCnt (junk : UInt8) (pathname : List UInt8) : Except Halt Nat := do
  let (name, p) ← pathPaser pathname
  let name := if name = [] ∧ junk ≠ 0 then [junk] else name
  pathDepthLoop (pathname.length + 2) name p 0

/-- The loop of `strrchr`; `lastCharPtr` is the string from the last find on. -/
def strrchrFrom (ch : UInt8) (lastCharPtr : Option (List UInt8)) :
    List UInt8 → Option (List UInt8)
  | [] => lastCharPtr
  | c :: rest => strrchrFrom ch (if c = ch then some (c :: rest) else lastCharPtr) rest

/-- `strrchr(str_, ch)`: the string from the last `ch` on. -/
def strrchr (str : List UInt8) (ch : UInt8) : Option (List UInt8) := strrchrFrom ch none str

def components (path : List UInt8) : List (List UInt8) := pieces isSlash path

variable {path name rest : List UInt8}

theorem mem_components (inPath : name ∈ components path) : name ≠ [] :=
  pieces_ne_nil_of_mem inPath

theorem pathPaser_eq_ok (ran : pathPaser path = .ok (name, rest)) :
    name.length ≤ maxFileNameLen ∧ rest.length ≤ path.length ∧
      (name = [] ∧ rest = [] ∧ components path = [] ∨
        name ≠ [] ∧ components path = name :: components rest ∧ rest.length < path.length) := by
  unfold pathPaser at ran
  dsimp only at ran
  split at ran
  next fits =>
    simp only [Except.ok.injEq, Prod.mk.injEq] at ran
    obtain ⟨rfl, rfl⟩ := ran
    have cut : components path = _ := pieces_cut path
    have shorter := (List.dropWhile_suffix isSlash (l := path)).length_le
    have split := congrArg List.length (List.takeWhile_append_dropWhile (p := fun c => !isSlash c)
      (l := path.dropWhile isSlash))
    rw [List.length_append] at split
    refine ⟨fits, by omega, ?_⟩
    by_cases none : (path.dropWhile isSlash).takeWhile (fun c => !isSlash c) = []
    · rw [if_pos none] at cut
      refine Or.inl ⟨none, ?_, cut⟩
      cases start : path.dropWhile isSlash with
      | nil => rfl
      | cons c s =>
          have nonempty : path.dropWhile isSlash ≠ [] := by simp [start]
          have head := List.head_dropWhile_not isSlash nonempty
          simp only [start, List.head_cons] at head
          rw [start, List.takeWhile_cons_of_pos (by rw [head]; rfl)] at none
          cases none
    · rw [if_neg none] at cut
      have some := List.length_pos_of_ne_nil none
      exact Or.inr ⟨none, cut, by omega⟩
  next => cases ran

theorem pathPaser_of_short (short : ∀ c ∈ components path, c.length ≤ maxFileNameLen) :
    ∃ name rest, pathPaser path = .ok (name, rest) := by
  refine ⟨_, _, if_pos ?_⟩
  have cut : components path = _ := pieces_cut path
  split at cut
  next none =>
    rw [none]
    exact Nat.zero_le _
  next => exact short _ (by rw [cut]; exact List.mem_cons_self)

theorem pathPaser_short (ran : pathPaser path = .ok (name, rest)) :
    (∀ c ∈ components path, c.length ≤ maxFileNameLen) ↔
      ∀ c ∈ components rest, c.length ≤ maxFileNameLen := by
  obtain ⟨short, -, ⟨-, rfl, none⟩ | ⟨-, first, -⟩⟩ := pathPaser_eq_ok ran
  · rw [none]
    simp [components]
  · rw [first]
    exact ⟨fun all c inRest => all c (List.mem_cons_of_mem name inRest),
      fun all => List.forall_mem_cons.mpr ⟨short, all⟩⟩

theorem pathPaser_halts {reason : Halt} (ran : pathPaser path = .error reason) :
    ¬ ∀ c ∈ components path, c.length ≤ maxFileNameLen := by
  intro all
  obtain ⟨name, rest, fine⟩ := pathPaser_of_short all
  cases fine.symm.trans ran

theorem pathDepthLoop_eq_ok {left depth d : Nat} {p : List UInt8} (enough : p.length + 2 ≤ left)
    (some : name ≠ []) :
    pathDepthLoop left name p depth = .ok d ↔
      (∀ c ∈ components p, c.length ≤ maxFileNameLen) ∧
        d = depth + 1 + (components p).length := by
  induction left generalizing name p depth with
  | zero => omega
  | succ left inductionHypothesis =>
      have last : ∀ p, pathDepthLoop left [] p (depth + 1) = .ok (depth + 1) := by
        intro p
        obtain ⟨left, rfl⟩ := Nat.exists_eq_succ_of_ne_zero (by omega : left ≠ 0)
        rw [pathDepthLoop, if_pos rfl]
      rw [pathDepthLoop, if_neg some]
      split
      next atEnd =>
        subst atEnd
        rw [last]
        simp [components, eq_comm]
      next =>
        cases parsed : pathPaser p with
        | error reason =>
            rw [error_bind]
            exact iff_of_false (by simp) fun all => pathPaser_halts parsed all.1
        | ok cut =>
            obtain ⟨name', rest⟩ := cut
            rw [ok_bind, pathPaser_short parsed]
            obtain ⟨-, -, ⟨rfl, rfl, none⟩ | ⟨some', first, shorter⟩⟩ := pathPaser_eq_ok parsed
            · simp only [last, none]
              simp [components, eq_comm]
            · rw [inductionHypothesis (by omega) some', first, List.length_cons]
              exact and_congr_right fun _ => by omega

theorem pathDepthCnt_eq_ok (junk : UInt8) {d : Nat} (some : components path ≠ []) :
    pathDepthCnt junk path = .ok d ↔
      (∀ c ∈ components path, c.length ≤ maxFileNameLen) ∧ d = (components path).length := by
  unfold pathDepthCnt
  cases parsed : pathPaser path with
  | error reason =>
      rw [error_bind]
      exact iff_of_false (by simp) fun all => pathPaser_halts parsed all.1
  | ok cut =>
      obtain ⟨name, rest⟩ := cut
      obtain ⟨-, shorter, ⟨-, -, none⟩ | ⟨some', first, -⟩⟩ := pathPaser_eq_ok parsed
      · exact absurd none some
      · rw [ok_bind, pathPaser_short parsed, first, List.length_cons]
        have named : ¬ (name = [] ∧ junk ≠ 0) := fun both => some' both.1
        simp only [if_neg named]
        rw [pathDepthLoop_eq_ok (by omega) some']
        exact and_congr_right fun _ => by omega

theorem strrchrFrom_append {ch : UInt8} (x : List UInt8) (found : Option (List UInt8))
    (w : List UInt8) (none : ch ∉ w) :
    strrchrFrom ch found (x ++ ch :: w) = some (ch :: w) := by
  induction x generalizing found with
  | nil =>
      rw [List.nil_append, strrchrFrom, if_pos rfl]
      generalize some (ch :: w) = found
      induction w generalizing found with
      | nil => rfl
      | cons c w inductionHypothesis =>
          rw [List.mem_cons, not_or] at none
          rw [strrchrFrom, if_neg fun same => none.1 same.symm]
          exact inductionHypothesis none.2 found
  | cons c x inductionHypothesis => exact inductionHypothesis _

theorem strrchrFrom_none {ch : UInt8} (found : Option (List UInt8)) (none : ch ∉ path) :
    strrchrFrom ch found path = found := by
  induction path with
  | nil => rfl
  | cons c path inductionHypothesis =>
      rw [List.mem_cons, not_or] at none
      rw [strrchrFrom, if_neg fun same => none.1 same.symm]
      exact inductionHypothesis none.2

/-- What stands behind the last slash of a path. -/
def lastComponent (path : List UInt8) : List UInt8 := (path.splitOnP isSlash).getLastD []

theorem exists_last_slash (inPath : slash ∈ path) :
    ∃ x w, path = x ++ slash :: w ∧ slash ∉ w := by
  induction path with
  | nil => cases inPath
  | cons c path inductionHypothesis =>
      by_cases later : slash ∈ path
      · obtain ⟨x, w, rfl, none⟩ := inductionHypothesis later
        exact ⟨c :: x, w, rfl, none⟩
      · rcases List.mem_cons.mp inPath with rfl | again
        · exact ⟨[], path, rfl, later⟩
        · exact absurd again later

theorem isSlash_eq_false {w : List UInt8} (none : slash ∉ w) : ∀ c ∈ w, isSlash c = false := by
  intro c inList
  exact beq_eq_false_iff_ne.mpr (ne_of_mem_of_not_mem inList none)

theorem lastComponent_append {w : List UInt8} (x : List UInt8) (none : slash ∉ w) :
    lastComponent (x ++ slash :: w) = w := by
  have cut : (x ++ slash :: w).splitOnP isSlash = x.splitOnP isSlash ++ [w] := by
    rw [List.splitOnP_append_cons x w (by decide),
      List.splitOnP_eq_singleton (isSlash_eq_false none)]
  rw [lastComponent, cut, List.getLastD_eq_getLast?, List.getLast?_concat]
  rfl

theorem lastComponent_of_none (none : slash ∉ path) : lastComponent path = path := by
  rw [lastComponent, List.splitOnP_eq_singleton (isSlash_eq_false none)]
  rfl

theorem strrchr_slash (inPath : slash ∈ path) :
    strrchr path slash = some (slash :: lastComponent path) := by
  obtain ⟨x, w, rfl, none⟩ := exists_last_slash inPath
  rw [lastComponent_append x none]
  exact strrchrFrom_append x _ w none

theorem strrchr_of_none (none : slash ∉ path) : strrchr path slash = Option.none :=
  strrchrFrom_none _ none

theorem components_last (some : path ≠ []) (noSlash : path.getLast some ≠ slash) :
    lastComponent path ≠ [] ∧
      ∃ front, components path = front ++ [lastComponent path] := by
  by_cases inPath : slash ∈ path
  · obtain ⟨x, w, rfl, none⟩ := exists_last_slash inPath
    have nonempty : w ≠ [] := by
      rintro rfl
      simp at noSlash
    rw [lastComponent_append x none]
    exact ⟨nonempty, components x, pieces_last (by decide) nonempty (isSlash_eq_false none) x⟩
  · rw [lastComponent_of_none inPath]
    exact ⟨some, [], pieces_of_none some (isSlash_eq_false inPath)⟩

end HongbaiOS.Fs
