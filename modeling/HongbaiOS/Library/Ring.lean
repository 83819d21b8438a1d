import Mathlib.Data.List.Basic
import Mathlib.Data.List.Range
import Mathlib.Logic.Function.Basic
import Mathlib.Tactic.Common

/-!
# Ring buffers

An array of `size` cells with a position to write next and a position to read next.
One cell always stays free, so equal positions mean that the buffer is empty.
-/

namespace HongbaiOS.Library.Ring

universe u

variable {α : Type u} {size head tail i : Nat} {buf : Nat → α} {a : α}

/-- The position after `pos`. -/
def next (size pos : Nat) : Nat := (pos + 1) % size

/-- How many cells from `tail` to `head` are in use. -/
def count (size head tail : Nat) : Nat :=
  if tail ≤ head then head - tail else head + size - tail

/-- The cell `i` places behind `tail`. -/
def cell (size tail i : Nat) : Nat := if tail + i < size then tail + i else tail + i - size

/-- What stands in `length` cells from `tail` on. -/
def window (size : Nat) (buf : Nat → α) (tail length : Nat) : List α :=
  (List.range length).map fun i => buf (cell size tail i)

/-- What stands between `tail` and `head`. -/
def contents (size : Nat) (buf : Nat → α) (head tail : Nat) : List α :=
  window size buf tail (count size head tail)

theorem next_eq {pos : Nat} (inside : pos < size) :
    next size pos = if pos + 1 = size then 0 else pos + 1 := by
  unfold next
  split
  next last => rw [last, Nat.mod_self]
  next more => exact Nat.mod_eq_of_lt (by omega)

theorem next_lt {pos : Nat} (inside : pos < size) : next size pos < size :=
  Nat.mod_lt _ (by omega)

theorem count_lt (headInside : head < size) (tailInside : tail < size) :
    count size head tail < size := by
  unfold count
  split <;> omega

theorem count_next_head (headInside : head < size) (tailInside : tail < size)
    (room : next size head ≠ tail) :
    count size (next size head) tail = count size head tail + 1 := by
  rw [next_eq headInside] at room ⊢
  unfold count
  split_ifs at room ⊢ <;> omega

theorem count_next_tail (headInside : head < size) (tailInside : tail < size)
    (some : head ≠ tail) :
    count size head tail = count size head (next size tail) + 1 := by
  rw [next_eq tailInside]
  unfold count
  split_ifs <;> omega

theorem count_full (headInside : head < size) (tailInside : tail < size)
    (full : next size head = tail) : count size head tail = size - 1 := by
  rw [next_eq headInside] at full
  unfold count
  split_ifs at full ⊢ <;> omega

theorem cell_count (headInside : head < size) (tailInside : tail < size) :
    cell size tail (count size head tail) = head := by
  unfold cell count
  split_ifs <;> omega

theorem cell_next (tailInside : tail < size) (inside : i + 1 < size) :
    cell size (next size tail) i = cell size tail (i + 1) := by
  rw [next_eq tailInside]
  unfold cell
  split_ifs <;> omega

theorem cell_ne_head (headInside : head < size) (tailInside : tail < size)
    (inside : i < count size head tail) : cell size tail i ≠ head := by
  have short := count_lt headInside tailInside
  unfold count at inside short
  unfold cell
  split_ifs at inside short ⊢ <;> omega

theorem length_contents : (contents size buf head tail).length = count size head tail := by
  simp [contents, window]

/-- Writing a cell and moving on appends to the contents. -/
theorem contents_put (buf : Nat → α) (a : α) (headInside : head < size) (tailInside : tail < size)
    (room : next size head ≠ tail) :
    contents size (Function.update buf head a) (next size head) tail =
      contents size buf head tail ++ [a] := by
  have old : (List.range (count size head tail)).map
      (fun i => Function.update buf head a (cell size tail i)) =
      window size buf tail (count size head tail) := by
    refine List.map_congr_left fun i inRange => ?_
    exact Function.update_of_ne
      (cell_ne_head headInside tailInside (List.mem_range.mp inRange)) a buf
  have new : Function.update buf head a (cell size tail (count size head tail)) = a := by
    rw [cell_count headInside tailInside, Function.update_self]
  rw [contents, window, count_next_head headInside tailInside room, List.range_succ,
    List.map_append, old, List.map_cons, List.map_nil, new]
  rfl

/-- Reading a cell and moving on takes the first of the contents. -/
theorem contents_take (buf : Nat → α) (headInside : head < size) (tailInside : tail < size)
    (some : head ≠ tail) :
    contents size buf head tail =
      buf tail :: contents size buf head (next size tail) := by
  have counted := count_next_tail headInside tailInside some
  have bound := count_lt headInside tailInside
  have first : cell size tail 0 = tail := by
    unfold cell
    split <;> omega
  rw [contents, window, counted, List.range_succ_eq_map, List.map_cons, first, List.map_map]
  refine congrArg (buf tail :: ·) (List.map_congr_left fun i inRange => ?_)
  have small := List.mem_range.mp inRange
  exact congrArg buf (cell_next tailInside (by omega)).symm

end HongbaiOS.Library.Ring
