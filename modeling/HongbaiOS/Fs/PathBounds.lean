import HongbaiOS.Fs.Search

/-!
# The arrays that paths are taken apart in

`path_paser` copies a name into an array of `MAX_FILE_NAME_LEN` bytes without a bound and
without a terminator, and `search_file` puts the names together again in an array of
`MAX_PATH_LEN` bytes.  Here the calls and the appended strings are listed with what the
arrays hold, for every path and whatever the directories contain.
-/

namespace HongbaiOS.Fs

open HongbaiOS.Library HongbaiOS.Kernel

/-- What a call of `path_paser` copies to `name_store`. -/
def parsedName (pathname : List UInt8) : List UInt8 :=
  (pathname.dropWhile isSlash).takeWhile fun c => !isSlash c

/-- What it returns; the empty path stands for `NULL`. -/
def subPathOf (pathname : List UInt8) : List UInt8 :=
  (pathname.dropWhile isSlash).dropWhile fun c => !isSlash c

/-- One call of `path_paser`: the memory from `name_store` on, and the path. -/
structure PaserCall where
  nameStore : Bytes
  pathname : List UInt8

namespace PaserCall

/-- The memory from `name_store` on after the call. -/
def after (call : PaserCall) : Bytes :=
  fun i => (parsedName call.pathname).getD i (call.nameStore i)

/-- Nothing is written outside the array, and it holds a string afterwards. -/
def Safe (call : PaserCall) : Prop :=
  (parsedName call.pathname).length ≤ maxFileNameLen ∧ ∃ i < maxFileNameLen, call.after i = 0

end PaserCall

/-- The calls in the loop of `path_depth_cnt`; `left` bounds the passes. -/
def depthLoopCalls : (left : Nat) → (name : Bytes) → (p : List UInt8) → List PaserCall
  | 0, _, _ => []
  | left + 1, name, p =>
      if name 0 = 0 then []
      else if p = [] then depthLoopCalls left (Bytes.fill 0) []
      else
        let call : PaserCall := ⟨Bytes.fill 0, p⟩
        call :: depthLoopCalls left call.after (subPathOf p)

/-- The calls of `path_paser` in `path_depth_cnt(pathname)`.  `junk` is what the array `name`
holds, which is not initialised. -/
def depthCalls (junk : Bytes) (pathname : List UInt8) : List PaserCall :=
  let call : PaserCall := ⟨junk, pathname⟩
  call :: depthLoopCalls (pathname.length + 2) call.after (subPathOf pathname)

/-- A call of `path_paser` in `search_file`, or a string that `strcat` leaves in
`searched_path`. -/
inductive SearchEvent where
  | paser (call : PaserCall)
  | append (searchedPath : List UInt8)

/-- The string, with its terminator, is inside the array. -/
def SearchEvent.Safe : SearchEvent → Prop
  | paser call => call.Safe
  | append searchedPath => searchedPath.length + 1 ≤ maxPathLen

@[simp]
theorem safe_paser (call : PaserCall) : (SearchEvent.paser call).Safe ↔ call.Safe := Iff.rfl

@[simp]
theorem safe_append (searchedPath : List UInt8) :
    (SearchEvent.append searchedPath).Safe ↔ searchedPath.length + 1 ≤ maxPathLen := Iff.rfl

/-- The string in the array `name`. -/
def nameString (name : Bytes) : List UInt8 :=
  ((List.range maxFileNameLen).map name).takeWhile (· ≠ 0)

/-- What `search_dir_entry` gives in a pass of the loop of `search_file`: the `f_type` of
the entry, or that there is none. -/
abbrev FoundTypes := Nat → Option UInt32

/-- The loop of `search_file`. -/
def searchEvents (found : FoundTypes) : (left pass : Nat) → (searchedPath : List UInt8) →
    (name : Bytes) → (subPath : List UInt8) → List SearchEvent
  | 0, _, _, _, _ => []
  | left + 1, pass, searchedPath, name, subPath =>
      if name 0 = 0 then []
      else
        let slashed := searchedPath ++ [slash]
        let named := slashed ++ nameString name
        .append slashed :: .append named :: match found pass with
          | none => []
          | some fType =>
              let call : PaserCall := ⟨Bytes.fill 0, subPath⟩
              let parsed := if subPath = [] then [] else [SearchEvent.paser call]
              let name := if subPath = [] then Bytes.fill 0 else call.after
              let rest := if fType = FileType.regular.code then []
                else searchEvents found left (pass + 1) named name (subPathOf subPath)
              parsed ++ rest

/-- `search_file(pathname, search_record)` with a cleared record. -/
def searchFileEvents (found : FoundTypes) (pathname : List UInt8) : List SearchEvent :=
  if pathname ∈ rootNames then []
  else
    let call : PaserCall := ⟨Bytes.fill 0, pathname⟩
    .paser call :: searchEvents found (pathname.length + 2) 0 [] call.after (subPathOf pathname)

/-- `path_depth_cnt` and `search_file` stay inside their arrays on this path. -/
def PathSafe (junk : Bytes) (found : FoundTypes) (pathname : List UInt8) : Prop :=
  (∀ call ∈ depthCalls junk pathname, call.Safe) ∧
    ∀ event ∈ searchFileEvents found pathname, event.Safe

/-- The search goes on behind the name of this pass. -/
def GoesOn (found : FoundTypes) (pass : Nat) : Prop :=
  ∃ fType, found pass = some fType ∧ fType ≠ FileType.regular.code

/-- The length that `searched_path` reaches from a pass on with these names left. -/
def searchedLength (found : FoundTypes) : (pass : Nat) → (names : List (List UInt8)) → Nat
  | _, [] => 0
  | pass, name :: names =>
      name.length + 1 + match found pass with
        | none => 0
        | some fType => if fType = FileType.regular.code then 0
            else searchedLength found (pass + 1) names

section Calls

variable {path : List UInt8}

theorem components_cut (path : List UInt8) : components path =
    if parsedName path = [] then [] else parsedName path :: components (subPathOf path) :=
  pieces_cut path

theorem pathPaser_eq_parsed (fits : (parsedName path).length ≤ maxFileNameLen) :
    pathPaser path = .ok (parsedName path, subPathOf path) :=
  if_pos fits

theorem subPathOf_length_lt (named : parsedName path ≠ []) :
    (subPathOf path).length < path.length := by
  have shorter := (List.dropWhile_suffix isSlash (l := path)).length_le
  have split := congrArg List.length (List.takeWhile_append_dropWhile (p := fun c => !isSlash c)
    (l := path.dropWhile isSlash))
  have some := List.length_pos_of_ne_nil named
  rw [List.length_append] at split
  rw [subPathOf]
  rw [parsedName] at some
  omega

theorem subPathOf_of_none (unnamed : parsedName path = []) : subPathOf path = [] := by
  rw [parsedName] at unnamed
  rw [subPathOf]
  cases start : path.dropWhile isSlash with
  | nil => rfl
  | cons c s =>
      have nonempty : path.dropWhile isSlash ≠ [] := by simp [start]
      have head := List.head_dropWhile_not isSlash nonempty
      simp only [start, List.head_cons] at head
      rw [start, List.takeWhile_cons_of_pos (by rw [head]; rfl)] at unnamed
      cases unnamed

/-- A string without a `0` in it. -/
def NoNul (path : List UInt8) : Prop := ∀ c ∈ path, c ≠ 0

theorem NoNul.parsedName (noNul : NoNul path) : NoNul (parsedName path) := by
  intro c inName
  exact noNul c ((List.dropWhile_suffix isSlash).subset (List.takeWhile_subset _ inName))

theorem NoNul.subPathOf (noNul : NoNul path) : NoNul (subPathOf path) := by
  intro c inRest
  exact noNul c ((List.dropWhile_suffix isSlash).subset
    ((List.dropWhile_suffix _).subset inRest))

namespace PaserCall

variable {nameStore : Bytes}

theorem after_eq_zero_iff (noNul : NoNul path) (i : Nat) :
    (⟨nameStore, path⟩ : PaserCall).after i = 0 ↔
      (parsedName path).length ≤ i ∧ nameStore i = 0 := by
  change (parsedName path).getD i (nameStore i) = 0 ↔ _
  by_cases inside : i < (parsedName path).length
  · rw [List.getD_eq_getElem _ _ inside]
    exact iff_of_false (noNul.parsedName _ (List.getElem_mem inside))
      fun both => absurd both.1 (Nat.not_le.mpr inside)
  · rw [List.getD_eq_default _ _ (Nat.not_lt.mp inside)]
    exact (and_iff_right (Nat.not_lt.mp inside)).symm

/-- The terminator has to be there already, behind the name. -/
theorem safe_iff (noNul : NoNul path) : (⟨nameStore, path⟩ : PaserCall).Safe ↔
    ∃ i < maxFileNameLen, (parsedName path).length ≤ i ∧ nameStore i = 0 := by
  simp only [Safe, after_eq_zero_iff noNul]
  constructor
  · exact fun safe => safe.2
  · rintro ⟨i, inside, behind, isZero⟩
    exact ⟨behind.trans inside.le, i, inside, behind, isZero⟩

theorem safe_cleared_iff (noNul : NoNul path) : (⟨Bytes.fill 0, path⟩ : PaserCall).Safe ↔
    (parsedName path).length < maxFileNameLen := by
  rw [safe_iff noNul]
  constructor
  · rintro ⟨i, inside, behind, -⟩
    exact behind.trans_lt inside
  · intro short
    exact ⟨_, short, le_rfl, rfl⟩

theorem after_zero_ne (noNul : NoNul path) (named : parsedName path ≠ []) :
    (⟨nameStore, path⟩ : PaserCall).after 0 ≠ 0 := by
  rw [Ne, after_eq_zero_iff noNul]
  intro both
  exact named (List.eq_nil_of_length_eq_zero (Nat.le_zero.mp both.1))

/-- Without a name a cleared array stays empty. -/
theorem after_zero_eq (noNul : NoNul path) (unnamed : parsedName path = []) :
    (⟨Bytes.fill 0, path⟩ : PaserCall).after 0 = 0 := by
  rw [after_eq_zero_iff noNul, unnamed]
  exact ⟨le_rfl, rfl⟩

/-- What `strcat` reads from the array. -/
theorem nameString_after (noNul : NoNul path) (short : (parsedName path).length < maxFileNameLen) :
    nameString (⟨Bytes.fill 0, path⟩ : PaserCall).after = parsedName path := by
  have bytes : (List.range maxFileNameLen).map (⟨Bytes.fill 0, path⟩ : PaserCall).after =
      parsedName path ++ List.replicate (maxFileNameLen - (parsedName path).length) 0 := by
    apply List.ext_getElem
    · simp only [List.length_map, List.length_range, List.length_append, List.length_replicate]
      omega
    · intro i inside inside'
      rw [List.getElem_map, List.getElem_range]
      change (parsedName path).getD i 0 = _
      by_cases inName : i < (parsedName path).length
      · rw [List.getD_eq_getElem _ _ inName, List.getElem_append_left inName]
      · rw [List.getD_eq_default _ _ (Nat.not_lt.mp inName),
          List.getElem_append_right (Nat.not_lt.mp inName), List.getElem_replicate]
  obtain ⟨left, more⟩ : ∃ left, maxFileNameLen - (parsedName path).length = left + 1 :=
    ⟨maxFileNameLen - (parsedName path).length - 1, by omega⟩
  rw [nameString, bytes, more, List.takeWhile_append_of_pos, List.replicate_succ,
    List.takeWhile_cons_of_neg, List.append_nil]
  · decide
  · intro c inName
    simpa using noNul.parsedName c inName

end PaserCall

end Calls

section Depth

variable {path : List UInt8}

/-- All names are short enough to be terminated. -/
def AllShort (path : List UInt8) : Prop :=
  ∀ name ∈ components path, name.length < maxFileNameLen

theorem allShort_cut (path : List UInt8) : AllShort path ↔
    parsedName path = [] ∨
      (parsedName path).length < maxFileNameLen ∧ AllShort (subPathOf path) := by
  rw [AllShort, components_cut]
  by_cases unnamed : parsedName path = []
  · simp [unnamed]
  · simp [unnamed, AllShort]

theorem depthLoopCalls_nil (left : Nat) (p : List UInt8) {name : Bytes} (ended : name 0 = 0) :
    depthLoopCalls left name p = [] := by
  cases left with
  | zero => rfl
  | succ left => exact if_pos ended

theorem depthLoopCalls_safe {left : Nat} {name : Bytes} {p : List UInt8} (noNul : NoNul p)
    (enough : p.length + 1 ≤ left) (named : name 0 ≠ 0) :
    (∀ call ∈ depthLoopCalls left name p, call.Safe) ↔ AllShort p := by
  induction left generalizing name p with
  | zero => omega
  | succ left inductionHypothesis =>
      rw [depthLoopCalls, if_neg named]
      split
      next atEnd =>
        subst atEnd
        rw [depthLoopCalls_nil left [] rfl]
        exact iff_of_true (by simp) (by simp [AllShort, components])
      next more =>
        simp only
        rw [List.forall_mem_cons, PaserCall.safe_cleared_iff noNul, allShort_cut]
        by_cases unnamed : parsedName p = []
        · rw [depthLoopCalls_nil left _ (PaserCall.after_zero_eq noNul unnamed)]
          simp [unnamed, maxFileNameLen]
        · have shorter := subPathOf_length_lt unnamed
          rw [inductionHypothesis noNul.subPathOf (by omega)
            (PaserCall.after_zero_ne noNul unnamed)]
          simp [unnamed]

/-- The first call needs a `0` that happens to be in the array. -/
theorem depthCalls_safe (junk : Bytes) (noNul : NoNul path) :
    (∀ call ∈ depthCalls junk path, call.Safe) ↔
      AllShort path ∧ ∃ i < maxFileNameLen, (parsedName path).length ≤ i ∧ junk i = 0 := by
  simp only [depthCalls]
  rw [List.forall_mem_cons, PaserCall.safe_iff noNul, and_comm]
  refine and_congr_left fun terminated => ?_
  by_cases unnamed : parsedName path = []
  · have none : ∀ call ∈ depthLoopCalls (path.length + 2)
        (⟨junk, path⟩ : PaserCall).after (subPathOf path), call.Safe := by
      rw [subPathOf_of_none unnamed, depthLoopCalls]
      split
      next => simp
      next => rw [if_pos rfl, depthLoopCalls_nil _ [] rfl]; simp
    exact iff_of_true none ((allShort_cut path).mpr (Or.inl unnamed))
  · have shorter := subPathOf_length_lt unnamed
    obtain ⟨i, inside, behind, -⟩ := terminated
    rw [depthLoopCalls_safe noNul.subPathOf (by omega) (PaserCall.after_zero_ne noNul unnamed),
      allShort_cut path]
    simp [unnamed, behind.trans_lt inside]

/-- Without a component `path_paser` leaves the array as it is, and `path_depth_cnt` looks at
what happens to be in it. -/
theorem pathDepthCnt_unnamed (junk : UInt8) (unnamed : components path = []) :
    pathDepthCnt junk path = .ok (if junk = 0 then 0 else 1) := by
  have noName : parsedName path = [] := by
    by_contra some
    rw [components_cut, if_neg some] at unnamed
    cases unnamed
  have parsed : pathPaser path = .ok ([], []) := by
    rw [pathPaser_eq_parsed (by rw [noName]; exact Nat.zero_le _), noName,
      subPathOf_of_none noName]
  rw [pathDepthCnt, parsed, ok_bind]
  by_cases cleared : junk = 0
  · simp [cleared, pathDepthLoop]
  · simp [cleared, pathDepthLoop]

/-- `path_depth_cnt` counts the components, unless there is none and the array `name` does not
happen to start with a `0`. -/
theorem pathDepthCnt_counts_iff (junk : Bytes) (path : CString) (short : AllShort path.chars) :
    pathDepthCnt (junk 0) path.chars = .ok (components path.chars).length ↔
      components path.chars ≠ [] ∨ junk 0 = 0 := by
  by_cases unnamed : components path.chars = []
  · rw [pathDepthCnt_unnamed (junk 0) unnamed, unnamed]
    by_cases cleared : junk 0 = 0
    · simp [cleared]
    · simp [cleared]
  · refine iff_of_true ?_ (Or.inl unnamed)
    exact (pathDepthCnt_eq_ok (junk 0) unnamed).mpr ⟨fun c inPath => (short c inPath).le, rfl⟩

/-- `"/a//b/"` -/
theorem pathDepthCnt_counts_iff_two :
    pathDepthCnt 1 [slash, 97, slash, slash, 98, slash] = .ok 2 := by
  have cut : components [slash, 97, slash, slash, 98, slash] = [[97], [98]] := by decide
  have counted := (pathDepthCnt_counts_iff (Bytes.fill 1)
    ⟨[slash, 97, slash, slash, 98, slash], by simp [slash]⟩
    (by rw [AllShort, cut]; decide)).mpr (Or.inl (by rw [cut]; simp))
  rwa [cut] at counted

/-- `path_depth_cnt("/")` returns 1 where the stack holds something else than `0`. -/
theorem pathDepthCnt_root_miscounts : AllShort [slash] ∧ components [slash] = [] ∧
    pathDepthCnt (Bytes.fill 1 0) [slash] = .ok 1 := by
  have unnamed : components [slash] = [] := by decide
  exact ⟨by simp [AllShort, unnamed], unnamed, pathDepthCnt_unnamed 1 unnamed⟩

end Depth

section Search

variable {found : FoundTypes} {path : List UInt8}

theorem searchEvents_nil (left pass : Nat) (searchedPath subPath : List UInt8) {name : Bytes}
    (ended : name 0 = 0) : searchEvents found left pass searchedPath name subPath = [] := by
  cases left with
  | zero => rfl
  | succ left => exact if_pos ended

theorem searchEvents_safe {left pass : Nat} {searchedPath p : List UInt8} (noNul : NoNul p)
    (enough : (subPathOf p).length + 1 ≤ left) (short : AllShort p) (named : parsedName p ≠ []) :
    (∀ event ∈ searchEvents found left pass searchedPath
        (⟨Bytes.fill 0, p⟩ : PaserCall).after (subPathOf p), event.Safe) ↔
      searchedPath.length + searchedLength found pass (components p) < maxPathLen := by
  induction left generalizing p pass searchedPath with
  | zero => omega
  | succ left inductionHypothesis =>
      obtain ⟨shortHere, shortRest⟩ := ((allShort_cut p).mp short).resolve_left named
      have noNulRest := noNul.subPathOf
      rw [searchEvents, if_neg (PaserCall.after_zero_ne noNul named), components_cut,
        if_neg named, PaserCall.nameString_after noNul shortHere]
      simp only [List.forall_mem_cons, safe_append, List.length_append, List.length_singleton,
        searchedLength]
      cases result : found pass with
      | none =>
          simp only [List.not_mem_nil, false_imp_iff, implies_true, and_true]
          omega
      | some fType =>
          simp only [List.forall_mem_append]
          have parsed : ∀ event ∈ (if subPathOf p = [] then []
              else [SearchEvent.paser ⟨Bytes.fill 0, subPathOf p⟩]), event.Safe := by
            split
            next => simp
            next =>
              rw [List.forall_mem_singleton]
              refine (PaserCall.safe_cleared_iff noNulRest).mpr ?_
              rcases (allShort_cut _).mp shortRest with unnamed | ⟨fits, -⟩
              · rw [unnamed]
                decide
              · exact fits
          rw [iff_true_intro parsed, true_and]
          by_cases isRegular : fType = FileType.regular.code
          · rw [if_pos isRegular, if_pos isRegular]
            simp only [List.not_mem_nil, false_imp_iff, implies_true, and_true]
            omega
          · rw [if_neg isRegular, if_neg isRegular]
            by_cases unnamed : parsedName (subPathOf p) = []
            · have ended : (if subPathOf p = [] then Bytes.fill 0
                  else (⟨Bytes.fill 0, subPathOf p⟩ : PaserCall).after) 0 = 0 := by
                split
                next => rfl
                next => exact PaserCall.after_zero_eq noNulRest unnamed
              rw [searchEvents_nil _ _ _ _ ended, components_cut, if_pos unnamed]
              simp only [List.not_mem_nil, false_imp_iff, implies_true, and_true, searchedLength]
              omega
            · have more : subPathOf p ≠ [] := by
                intro atEnd
                rw [atEnd] at unnamed
                exact unnamed rfl
              have shorter := subPathOf_length_lt unnamed
              rw [if_neg more, inductionHypothesis noNulRest (by omega) shortRest unnamed]
              simp only [List.length_append, List.length_singleton]
              omega

theorem searchFileEvents_safe (noNul : NoNul path) (short : AllShort path)
    (small : path ∉ rootNames) :
    (∀ event ∈ searchFileEvents found path, event.Safe) ↔
      searchedLength found 0 (components path) < maxPathLen := by
  rw [searchFileEvents, if_neg small]
  simp only [List.forall_mem_cons, safe_paser]
  rw [PaserCall.safe_cleared_iff noNul]
  by_cases unnamed : parsedName path = []
  · rw [searchEvents_nil _ _ _ _ (PaserCall.after_zero_eq noNul unnamed), components_cut,
      if_pos unnamed, unnamed]
    exact iff_of_true ⟨by decide, by simp⟩ (Nat.succ_pos 511)
  · have shortHere := ((allShort_cut path).mp short).resolve_left unnamed
    have shorter := subPathOf_length_lt unnamed
    rw [and_iff_right shortHere.1, searchEvents_safe noNul (by omega) short unnamed]
    simp only [List.length_nil, Nat.zero_add]

theorem searchedLength_cons (pass : Nat) (name : List UInt8) (names : List (List UInt8)) :
    searchedLength found pass (name :: names) = name.length + 1 ∧ ¬ GoesOn found pass ∨
      searchedLength found pass (name :: names) =
        name.length + 1 + searchedLength found (pass + 1) names ∧ GoesOn found pass := by
  rw [searchedLength, GoesOn]
  cases found pass with
  | none => exact Or.inl ⟨rfl, by simp⟩
  | some fType =>
      by_cases isRegular : fType = FileType.regular.code
      · exact Or.inl ⟨by simp [isRegular], by simp [isRegular]⟩
      · exact Or.inr ⟨by simp [isRegular], fType, rfl, isRegular⟩

theorem searchedLength_le (pass : Nat) (names : List (List UInt8)) :
    searchedLength found pass names ≤ (names.map fun name => name.length + 1).sum ∧
      (searchedLength found pass names = (names.map fun name => name.length + 1).sum ↔
        ∀ i, i + 1 < names.length → GoesOn found (pass + i)) := by
  induction names generalizing pass with
  | nil => exact ⟨le_rfl, iff_of_true rfl (by simp)⟩
  | cons name names inductionHypothesis =>
      obtain ⟨atMost, same⟩ := inductionHypothesis (pass + 1)
      have rest : (∀ i, i + 1 < (name :: names).length → GoesOn found (pass + i)) ↔
          (names ≠ [] → GoesOn found pass) ∧
            ∀ i, i + 1 < names.length → GoesOn found (pass + 1 + i) := by
        constructor
        · intro all
          refine ⟨fun some => ?_, fun i inside => ?_⟩
          · exact all 0 (Nat.succ_lt_succ (List.length_pos_of_ne_nil some))
          · have goesOn := all (i + 1) (Nat.succ_lt_succ inside)
            rwa [show pass + (i + 1) = pass + 1 + i by omega] at goesOn
        · rintro ⟨first, later⟩ i inside
          rw [List.length_cons] at inside
          cases i with
          | zero => exact first (List.ne_nil_of_length_pos (by omega))
          | succ i =>
              have goesOn := later i (by omega)
              rwa [show pass + (i + 1) = pass + 1 + i by omega]
      rw [rest, List.map_cons, List.sum_cons, ← same]
      rcases searchedLength_cons pass name names with ⟨length, stops⟩ | ⟨length, goesOn⟩
      · rw [length]
        refine ⟨Nat.le_add_right _ _, ?_⟩
        cases names with
        | nil => simp [searchedLength]
        | cons next names =>
            have positive : 0 < ((next :: names).map fun name => name.length + 1).sum := by
              rw [List.map_cons, List.sum_cons]
              omega
            refine iff_of_false (by omega) fun both => ?_
            exact stops (both.1 (List.cons_ne_nil next names))
      · rw [length]
        refine ⟨by omega, ?_⟩
        rw [Nat.add_left_cancel_iff]
        exact (and_iff_right fun _ => goesOn).symm

/-- What `search_file` puts together is longer than the path, by the slash in front of it,
only if there is no slash to spare in the path and all names are visited. -/
theorem searchedLength_lt_iff (small : path.length < maxPathLen) :
    searchedLength found 0 (components path) < maxPathLen ↔
      ¬ (path.length + 1 = maxPathLen ∧ [] ∉ path.splitOnP isSlash ∧
        ∀ pass, pass + 1 < (components path).length → GoesOn found pass) := by
  have atMost : searchedLength found 0 (components path) ≤ _ := (searchedLength_le 0 _).1
  have visits : searchedLength found 0 (components path) = _ ↔ _ := (searchedLength_le 0 _).2
  have bound : ((components path).map fun name => name.length + 1).sum ≤ path.length + 1 :=
    sum_length_pieces_le path
  have whole : ((components path).map fun name => name.length + 1).sum = path.length + 1 ↔
      [] ∉ path.splitOnP isSlash := sum_length_pieces_eq_iff path
  simp only [Nat.zero_add] at visits
  rw [← whole, ← visits]
  omega

end Search

/-- A path is safe exactly if its names are short, the array of `path_depth_cnt` happens to
hold a `0` behind the first name, and the slash that `search_file` adds has room. -/
theorem pathSafe_iff (junk : Bytes) (found : FoundTypes) (path : CString)
    (small : path.chars.length < maxPathLen) :
    PathSafe junk found path.chars ↔
      AllShort path.chars ∧
      (∃ i < maxFileNameLen, (parsedName path.chars).length ≤ i ∧ junk i = 0) ∧
      ¬ (path.chars.length + 1 = maxPathLen ∧ [] ∉ path.chars.splitOnP isSlash ∧
        ∀ pass, pass + 1 < (components path.chars).length → GoesOn found pass) := by
  rw [PathSafe, depthCalls_safe junk path.noNul, and_assoc]
  refine and_congr_right fun short => and_congr_right fun _ => ?_
  by_cases isRoot : path.chars ∈ rootNames
  · rw [searchFileEvents, if_pos isRoot]
    have tiny : path.chars.length ≤ 3 := by
      have all : ∀ name ∈ rootNames, name.length ≤ 3 := by decide
      exact all _ isRoot
    refine iff_of_true (by simp) fun long => ?_
    have value : maxPathLen = 512 := rfl
    omega
  · rw [searchFileEvents_safe path.noNul short isRoot, searchedLength_lt_iff small]

/-- `"/a"`, in memory that was cleared before. -/
theorem pathSafe_iff_cleared :
    (⟨[slash, 97], by simp [slash]⟩ : CString).chars.length < maxPathLen ∧
      PathSafe (Bytes.fill 0) (fun _ => none) [slash, 97] := by
  refine ⟨by decide, (pathSafe_iff (Bytes.fill 0) (fun _ => none) ⟨[slash, 97], by simp [slash]⟩
    (by decide)).mpr ⟨?_, ⟨1, by decide, by decide, rfl⟩, ?_⟩⟩
  · unfold AllShort
    decide
  · exact fun long => absurd long.1 (by decide)

/-- A name of 17 characters: its last one is written behind the array. -/
theorem long_name_overflows :
    (⟨List.replicate 17 97, by simp⟩ : CString).chars.length < maxPathLen ∧
      ∃ call ∈ depthCalls (Bytes.fill 0) (List.replicate 17 97),
        maxFileNameLen < (parsedName call.pathname).length ∧
          ¬ PathSafe (Bytes.fill 0) (fun _ => none) (List.replicate 17 97) := by
  refine ⟨by decide, ⟨Bytes.fill 0, List.replicate 17 97⟩, List.mem_cons_self, by decide, ?_⟩
  intro safe
  have inBounds := (safe.1 _ List.mem_cons_self).1
  exact absurd inBounds (by decide)

end HongbaiOS.Fs
