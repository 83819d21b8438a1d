import Mathlib.Algebra.GroupWithZero.Nat
import Mathlib.Data.List.Induction
import Mathlib.Data.List.TakeWhile
import Mathlib.Tactic.Common

/-!
# Lists cut at separators

The non-empty pieces of a list between its separators, and three ways to come by them: cut
at one separator, take the first piece off the front, and read the last piece off the end.
-/

namespace HongbaiOS.Library

universe u

variable {α : Type u} {sep : α → Bool} {c : α} {l x y w : List α}

/-- The non-empty pieces of `l` between separators. -/
def pieces (sep : α → Bool) (l : List α) : List (List α) :=
  (l.splitOnP sep).filter fun piece => !piece.isEmpty

@[simp]
theorem pieces_nil : pieces sep [] = [] := by
  simp [pieces, List.splitOnP_nil]

/-- Cutting at a separator cuts the pieces. -/
theorem pieces_append_sep (isSep : sep c = true) (x y : List α) :
    pieces sep (x ++ c :: y) = pieces sep x ++ pieces sep y := by
  rw [pieces, List.splitOnP_append_cons x y isSep, List.filter_append]
  rfl

theorem pieces_cons_sep (isSep : sep c = true) (l : List α) :
    pieces sep (c :: l) = pieces sep l :=
  pieces_append_sep isSep [] l

/-- A list without separators is its only piece. -/
theorem pieces_of_none (some : w ≠ []) (none : ∀ a ∈ w, sep a = false) : pieces sep w = [w] := by
  rw [pieces, List.splitOnP_eq_singleton none]
  simp [some]

theorem pieces_dropWhile (l : List α) : pieces sep (l.dropWhile sep) = pieces sep l := by
  induction l with
  | nil => rfl
  | cons a l inductionHypothesis =>
      by_cases isSep : sep a = true
      · rw [List.dropWhile_cons_of_pos isSep, inductionHypothesis, pieces_cons_sep isSep]
      · rw [List.dropWhile_cons_of_neg isSep]

/-- What is left behind the leading separators starts with the first piece. -/
theorem pieces_cut (l : List α) :
    pieces sep l =
      if (l.dropWhile sep).takeWhile (fun a => !sep a) = [] then []
      else (l.dropWhile sep).takeWhile (fun a => !sep a) ::
        pieces sep ((l.dropWhile sep).dropWhile fun a => !sep a) := by
  rw [← pieces_dropWhile l]
  have front : ∀ a s, l.dropWhile sep = a :: s → sep a = false := fun a s start => by
    have nonempty : l.dropWhile sep ≠ [] := by simp [start]
    have head := List.head_dropWhile_not sep nonempty
    simpa [start] using head
  generalize l.dropWhile sep = rest at front
  have split := List.takeWhile_append_dropWhile (p := fun a => !sep a) (l := rest)
  have noSep : ∀ a ∈ rest.takeWhile (fun a => !sep a), sep a = false := fun a inPiece => by
    simpa using List.mem_takeWhile_imp inPiece
  split
  next none =>
    cases rest with
    | nil => rfl
    | cons a s => simp [front a s rfl] at none
  next some =>
    cases behind : rest.dropWhile fun a => !sep a with
    | nil =>
        rw [behind, List.append_nil] at split
        rw [pieces_nil, split]
        rw [split] at some noSep
        exact pieces_of_none some noSep
    | cons a s =>
        have isSep : sep a = true := by
          have head := List.head_dropWhile_not (fun a => !sep a)
            (show rest.dropWhile (fun a => !sep a) ≠ [] by simp [behind])
          simpa [behind] using head
        rw [behind] at split
        conv_lhs => rw [← split]
        rw [pieces_append_sep isSep, pieces_of_none some noSep, pieces_cons_sep isSep,
          List.singleton_append]

theorem pieces_last (isSep : sep c = true) (some : w ≠ []) (none : ∀ a ∈ w, sep a = false)
    (x : List α) : pieces sep (x ++ c :: w) = pieces sep x ++ [w] := by
  rw [pieces_append_sep isSep, pieces_of_none some none]

theorem pieces_ne_nil_of_mem {piece : List α} (inPieces : piece ∈ pieces sep l) : piece ≠ [] := by
  have nonempty := (List.mem_filter.mp inPieces).2
  simpa using nonempty

theorem mem_of_mem_pieces {piece : List α} (inPieces : piece ∈ pieces sep l) :
    ∀ a ∈ piece, a ∈ l ∧ sep a = false := by
  have inCut : piece ∈ l.splitOnP sep := (List.mem_filter.mp inPieces).1
  clear inPieces
  induction l generalizing piece with
  | nil =>
      rw [List.splitOnP_nil, List.mem_singleton] at inCut
      rw [inCut]
      simp
  | cons c l inductionHypothesis =>
      rw [List.splitOnP_cons_eq_if_modifyHead] at inCut
      have later : piece ∈ l.splitOnP sep → ∀ a ∈ piece, a ∈ c :: l ∧ sep a = false :=
        fun inCut a inPiece => (inductionHypothesis inCut a inPiece).imp_left
          (List.mem_cons_of_mem c)
      split at inCut
      next =>
        rcases List.mem_cons.mp inCut with rfl | inRest
        · simp
        · exact later inRest
      next notSep =>
        cases cut : l.splitOnP sep with
        | nil => exact absurd cut (List.splitOnP_ne_nil sep l)
        | cons first rest =>
            rw [cut] at inCut later inductionHypothesis
            rcases List.mem_cons.mp inCut with rfl | inRest
            · rintro a (_ | ⟨_, inFirst⟩)
              · exact ⟨List.mem_cons_self, eq_false_of_ne_true notSep⟩
              · exact (inductionHypothesis List.mem_cons_self a inFirst).imp_left
                  (List.mem_cons_of_mem c)
            · exact later (List.mem_cons_of_mem first inRest)

theorem sum_length_splitOnP (l : List α) :
    ((l.splitOnP sep).map fun piece => piece.length + 1).sum = l.length + 1 := by
  induction l with
  | nil => simp [List.splitOnP_nil]
  | cons a l inductionHypothesis =>
      rw [List.splitOnP_cons_eq_if_modifyHead]
      split
      next => simp [inductionHypothesis, Nat.add_comm]
      next =>
        cases cut : l.splitOnP sep with
        | nil => exact absurd cut (List.splitOnP_ne_nil sep l)
        | cons first rest =>
            rw [cut] at inductionHypothesis
            simp only [List.modifyHead_cons, List.map_cons, List.sum_cons, List.length_cons] at *
            omega

theorem sum_length_pieces_le (l : List α) :
    ((pieces sep l).map fun piece => piece.length + 1).sum ≤ l.length + 1 := by
  have fewer : ∀ cut : List (List α), ((cut.filter fun piece => !piece.isEmpty).map
      fun piece => piece.length + 1).sum ≤ (cut.map fun piece => piece.length + 1).sum := by
    intro cut
    induction cut with
    | nil => exact le_refl _
    | cons first rest inductionHypothesis =>
        rw [List.filter_cons]
        split
        next => simpa using inductionHypothesis
        next =>
          rw [List.map_cons, List.sum_cons]
          omega
  exact (fewer _).trans (le_of_eq (sum_length_splitOnP l))

/-- They are as long as the list only where no two separators meet and none is at an end. -/
theorem sum_length_pieces_eq_iff (l : List α) :
    ((pieces sep l).map fun piece => piece.length + 1).sum = l.length + 1 ↔
      [] ∉ l.splitOnP sep := by
  have whole : ((l.splitOnP sep).map fun piece => piece.length + 1).sum = l.length + 1 :=
    sum_length_splitOnP l
  rw [← whole, pieces]
  generalize l.splitOnP sep = cut
  have fewer : ∀ cut : List (List α), ((cut.filter fun piece => !piece.isEmpty).map
      fun piece => piece.length + 1).sum + (cut.filter fun piece => piece.isEmpty).length =
        (cut.map fun piece => piece.length + 1).sum := by
    intro cut
    induction cut with
    | nil => rfl
    | cons first rest inductionHypothesis =>
        cases first with
        | nil =>
            simp only [List.filter_cons, List.isEmpty_nil, Bool.not_true, Bool.false_eq_true,
              if_false, if_true, List.length_cons, List.map_cons, List.sum_cons, List.length_nil]
            omega
        | cons a first =>
            simp only [List.filter_cons, List.isEmpty_cons, Bool.not_false, Bool.false_eq_true,
              if_false, if_true, List.map_cons, List.sum_cons]
            omega
  have empty : (cut.filter fun piece => piece.isEmpty).length = 0 ↔ [] ∉ cut := by
    rw [List.length_eq_zero_iff, List.filter_eq_nil_iff]
    constructor
    · exact fun none isIn => none [] isIn rfl
    · intro none piece isIn isEmpty
      exact none (List.isEmpty_iff.mp isEmpty ▸ isIn)
  rw [← empty, ← fewer cut]
  omega

/-- Pieces with a separator in front of each, one behind the other. -/
theorem pieces_flatMap (isSep : sep c = true) {ws : List (List α)}
    (clean : ∀ w ∈ ws, w ≠ [] ∧ ∀ a ∈ w, sep a = false) :
    pieces sep (ws.flatMap (c :: ·)) = ws := by
  induction ws using List.reverseRecOn with
  | nil => rfl
  | append_singleton ws w inductionHypothesis =>
      obtain ⟨some, none⟩ := clean w (by simp)
      rw [List.flatMap_append, List.flatMap_singleton, pieces_last isSep some none,
        inductionHypothesis fun v inRest => clean v (by simp [inRest])]

end HongbaiOS.Library
