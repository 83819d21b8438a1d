import Mathlib.Algebra.Group.Nat.Defs
import Mathlib.Logic.Function.Basic

/-!
# Words on a downward stack

What a memory of words holds from an address upwards, with addresses of 32 bits that step
by four.  Writes below the address extend the list at its head, reads take it from there.
-/

namespace HongbaiOS.Library

variable {β : Type} {memory memory' : BitVec 32 → β} {pointer : BitVec 32}
  {words more : List β} {word : β}

/-- The address of the word `index` places above `pointer`. -/
def wordAddress (pointer : BitVec 32) (index : Nat) : BitVec 32 :=
  pointer + BitVec.ofNat 32 (4 * index)

theorem wordAddress_zero (pointer : BitVec 32) : wordAddress pointer 0 = pointer := by
  simp [wordAddress]

theorem wordAddress_wordAddress (pointer : BitVec 32) (first second : Nat) :
    wordAddress (wordAddress pointer first) second = wordAddress pointer (first + second) := by
  rw [wordAddress, wordAddress, wordAddress, BitVec.add_assoc, ← BitVec.ofNat_add, Nat.mul_add]

theorem sub_four_wordAddress (pointer : BitVec 32) (index : Nat) :
    wordAddress (pointer - 4) (index + 1) = wordAddress pointer index := by
  simp only [wordAddress]
  bv_omega

/-- Fewer than `2 ^ 30` words do not wrap around. -/
theorem wordAddress_ne {first second : Nat} (firstSmall : first < 2 ^ 30)
    (secondSmall : second < 2 ^ 30) (different : first ≠ second) :
    wordAddress pointer first ≠ wordAddress pointer second := by
  simp only [wordAddress]
  bv_omega

theorem foldl_update_wordAddress (memory : BitVec 32 → β) (pointer : BitVec 32)
    (writes : List (Nat × β))
    (small : ∀ write ∈ writes, write.1 < 2 ^ 30) {index : Nat} (indexSmall : index < 2 ^ 30) :
    writes.foldl (fun memory write =>
        Function.update memory (wordAddress pointer write.1) write.2) memory
        (wordAddress pointer index) =
      writes.foldl (fun value write => if write.1 = index then write.2 else value)
        (memory (wordAddress pointer index)) := by
  induction writes generalizing memory with
  | nil => rfl
  | cons write rest inductionHypothesis =>
    rw [List.foldl_cons, List.foldl_cons,
      inductionHypothesis _ fun later isLater => small later (List.mem_cons_of_mem _ isLater)]
    by_cases same : write.1 = index
    · rw [same, Function.update_self, if_pos rfl]
    · have writeSmall := small write List.mem_cons_self
      rw [Function.update_of_ne (wordAddress_ne indexSmall writeSmall (Ne.symm same)),
        if_neg same]

/-- The memory holds the words from `pointer` on. -/
def HoldsWords (memory : BitVec 32 → β) (pointer : BitVec 32) (words : List β) : Prop :=
  ∀ index word, words[index]? = some word → memory (wordAddress pointer index) = word

namespace HoldsWords

theorem nil : HoldsWords memory pointer [] := by
  intro index word found
  simp at found

theorem head (holds : HoldsWords memory pointer (word :: words)) : memory pointer = word := by
  have first := holds 0 word rfl
  rwa [wordAddress_zero] at first

theorem cons (holds : HoldsWords memory (wordAddress pointer 1) words) :
    HoldsWords memory pointer (memory pointer :: words) := by
  intro index word found
  cases index with
  | zero =>
    rw [wordAddress_zero]
    exact Option.some.inj found
  | succ index =>
    rw [Nat.add_comm, ← wordAddress_wordAddress]
    exact holds index word found

/-- What lies there anyway. -/
theorem self (memory : BitVec 32 → β) (pointer : BitVec 32) (count : Nat) :
    HoldsWords memory pointer
      ((List.range count).map fun index => memory (wordAddress pointer index)) := by
  intro index word found
  obtain ⟨inside, isWord⟩ := List.getElem?_eq_some_iff.mp found
  rwa [List.getElem_map, List.getElem_range] at isWord

theorem drop (holds : HoldsWords memory pointer (words ++ more)) :
    HoldsWords memory (wordAddress pointer words.length) more := by
  intro index word found
  rw [wordAddress_wordAddress]
  exact holds _ word (by simpa [List.getElem?_append_right] using found)

theorem push (holds : HoldsWords memory pointer words) (short : words.length + 1 < 2 ^ 30)
    (word : β) :
    HoldsWords (Function.update memory (pointer - 4) word) (pointer - 4) (word :: words) := by
  intro index found isFound
  cases index with
  | zero =>
    rw [wordAddress_zero, Function.update_self]
    exact Option.some.inj isFound
  | succ index =>
    have inside : index < words.length := by
      simpa using (List.getElem?_eq_some_iff.mp isFound).1
    have apart : wordAddress (pointer - 4) (index + 1) ≠ pointer - 4 := by
      have apart := @wordAddress_ne (pointer - 4) (index + 1) 0
        (by omega) (by omega) (by omega)
      rwa [wordAddress_zero] at apart
    rw [Function.update_of_ne apart, sub_four_wordAddress]
    exact holds index found isFound

theorem store (holds : HoldsWords memory pointer words) (short : words.length ≤ 2 ^ 30)
    {slot : Nat} (inside : slot < words.length) (word : β) :
    HoldsWords (Function.update memory (wordAddress pointer slot) word) pointer
      (words.set slot word) := by
  intro index found isFound
  have indexInside : index < words.length := by
    have bound := (List.getElem?_eq_some_iff.mp isFound).1
    rwa [List.length_set] at bound
  by_cases same : slot = index
  · subst same
    rw [Function.update_self]
    rw [List.getElem?_set_self inside] at isFound
    exact Option.some.inj isFound
  · rw [Function.update_of_ne (wordAddress_ne (by omega) (by omega) (Ne.symm same))]
    rw [List.getElem?_set_ne same] at isFound
    exact holds index found isFound

theorem frame (holds : HoldsWords memory pointer (words ++ more))
    (unchanged : ∀ index, words.length ≤ index → index < words.length + more.length →
      memory' (wordAddress pointer index) = memory (wordAddress pointer index)) :
    HoldsWords memory' (wordAddress pointer words.length) more := by
  intro index word found
  have inside : index < more.length := (List.getElem?_eq_some_iff.mp found).1
  have kept := holds.drop index word found
  rw [wordAddress_wordAddress] at kept ⊢
  rw [unchanged _ (by omega) (by omega), kept]

end HoldsWords

end HongbaiOS.Library
