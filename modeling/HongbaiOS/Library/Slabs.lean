import Mathlib.Data.List.Count
import Mathlib.Data.List.Nodup
import Mathlib.Data.Set.Insert

/-!
# Slabs and their free blocks

Slabs that are cut into blocks of one size, one list of the free blocks of all of them, and
a counter of its free blocks for each slab.  The rules say how the counters follow the list
when a block is taken or put back and when a slab is added or given up.
-/

namespace HongbaiOS.Library

universe u v

variable {β : Type u} {κ : Type v}

/-- The blocks of a slab are different, and each knows its slab. -/
structure CutInto (home : β → κ) (blocks : κ → List β) : Prop where
  nodup : ∀ a, (blocks a).Nodup
  home : ∀ a, ∀ x ∈ blocks a, home x = a

/-- The free list holds blocks of the slabs, each once, and the counters count them. -/
structure Slabs [DecidableEq κ] (home : β → κ) (blocks : κ → List β) (slabs : Set κ)
    (free : List β) (count : κ → Nat) : Prop where
  nodup : free.Nodup
  belongs : ∀ x ∈ free, home x ∈ slabs ∧ x ∈ blocks (home x)
  counted : ∀ a ∈ slabs, count a = free.countP (home · = a)

namespace Slabs

variable [DecidableEq κ] {home : β → κ} {blocks : κ → List β} {slabs : Set κ} {free rest : List β}
  {count count' : κ → Nat} {x : β} {a : κ}

theorem empty : Slabs home blocks ∅ [] count :=
  ⟨List.nodup_nil, fun _ impossible => absurd impossible List.not_mem_nil,
    fun _ impossible => absurd impossible (Set.notMem_empty _)⟩

theorem congr (held : Slabs home blocks slabs free count)
    (same : ∀ a ∈ slabs, count' a = count a) : Slabs home blocks slabs free count' :=
  ⟨held.nodup, held.belongs, fun a isSlab => (same a isSlab).trans (held.counted a isSlab)⟩

/-- The first free block is taken. -/
theorem pop (held : Slabs home blocks slabs (x :: rest) count)
    (counts : ∀ a ∈ slabs, count a = count' a + if a = home x then 1 else 0) :
    Slabs home blocks slabs rest count' := by
  have belongs := held.belongs
  refine ⟨held.nodup.of_cons, fun y isFree => belongs y (List.mem_cons_of_mem x isFree), ?_⟩
  intro a isSlab
  have before := held.counted a isSlab
  have after := counts a isSlab
  rw [List.countP_cons] at before
  by_cases isHome : a = home x
  · rw [if_pos isHome] at after
    rw [if_pos (decide_eq_true isHome.symm)] at before
    omega
  · rw [if_neg isHome] at after
    rw [if_neg (by simpa using Ne.symm isHome)] at before
    omega

theorem push (held : Slabs home blocks slabs free count) (cut : CutInto home blocks)
    (isSlab : a ∈ slabs) (isBlock : x ∈ blocks a) (taken : x ∉ free)
    (counts : ∀ a' ∈ slabs, count' a' = count a' + if a' = a then 1 else 0) :
    Slabs home blocks slabs (free ++ [x]) count' := by
  have isHome : home x = a := cut.home a x isBlock
  refine ⟨?_, ?_, ?_⟩
  · rw [List.nodup_append]
    refine ⟨held.nodup, List.nodup_singleton x, ?_⟩
    rintro y isFree z isNew rfl
    rw [List.mem_singleton.mp isNew] at isFree
    exact taken isFree
  · intro y isFree
    rcases List.mem_append.mp isFree with old | isNew
    · exact held.belongs y old
    · obtain rfl := List.mem_singleton.mp isNew
      rw [isHome]
      exact ⟨isSlab, isBlock⟩
  · intro a' isSlab'
    rw [counts a' isSlab', held.counted a' isSlab', List.countP_append, List.countP_singleton,
      isHome]
    by_cases same : a' = a
    · simp [same]
    · simp [same, Ne.symm same]

theorem add (held : Slabs home blocks slabs free count) (cut : CutInto home blocks)
    (isNew : a ∉ slabs)
    (counts : ∀ a' ∈ slabs, count' a' = count a') (full : count' a = (blocks a).length) :
    Slabs home blocks (insert a slabs) (free ++ blocks a) count' := by
  have apart : ∀ y ∈ free, home y ≠ a := by
    rintro y isFree rfl
    exact isNew (held.belongs y isFree).1
  refine ⟨?_, ?_, ?_⟩
  · rw [List.nodup_append]
    refine ⟨held.nodup, cut.nodup a, ?_⟩
    rintro y isFree z isBlock rfl
    exact apart y isFree (cut.home a y isBlock)
  · intro y isFree
    rcases List.mem_append.mp isFree with old | isBlock
    · obtain ⟨isSlab, inSlab⟩ := held.belongs y old
      exact ⟨Set.mem_insert_of_mem a isSlab, inSlab⟩
    · rw [cut.home a y isBlock]
      exact ⟨Set.mem_insert a slabs, isBlock⟩
  · rintro a' (rfl | isSlab')
    · have none : free.countP (home · = a') = 0 := by
        rw [List.countP_eq_zero]
        intro y isFree
        simpa using apart y isFree
      have all : (blocks a').countP (home · = a') = (blocks a').length := by
        rw [List.countP_eq_length]
        intro y isBlock
        simpa using cut.home a' y isBlock
      rw [List.countP_append, none, all, full, Nat.zero_add]
    · have other : a' ≠ a := fun same => isNew (same ▸ isSlab')
      have none : (blocks a).countP (home · = a') = 0 := by
        rw [List.countP_eq_zero]
        intro y isBlock
        rw [cut.home a y isBlock]
        simpa using Ne.symm other
      rw [List.countP_append, none, Nat.add_zero, counts a' isSlab', held.counted a' isSlab']

theorem filter_subperm (held : Slabs home blocks slabs free count) (a : κ) :
    (free.filter (home · = a)).Subperm (blocks a) := by
  refine List.subperm_of_subset (held.nodup.filter _) fun y isFree => ?_
  obtain ⟨isFree, isHome⟩ := List.mem_filter.mp isFree
  rw [decide_eq_true_eq] at isHome
  rw [← isHome]
  exact (held.belongs y isFree).2

theorem count_le (held : Slabs home blocks slabs free count) (isSlab : a ∈ slabs) :
    count a ≤ (blocks a).length := by
  rw [held.counted a isSlab, List.countP_eq_length_filter]
  exact (held.filter_subperm a).length_le

theorem full_iff (held : Slabs home blocks slabs free count) (cut : CutInto home blocks)
    (isSlab : a ∈ slabs) : count a = (blocks a).length ↔ ∀ x ∈ blocks a, x ∈ free := by
  rw [held.counted a isSlab, List.countP_eq_length_filter]
  constructor
  · intro full x isBlock
    have perm := (held.filter_subperm a).perm_of_length_le full.ge
    exact List.mem_of_mem_filter (perm.mem_iff.mpr isBlock)
  · intro all
    refine le_antisymm (held.filter_subperm a).length_le ?_
    refine (List.subperm_of_subset (cut.nodup a) fun x isBlock => ?_).length_le
    exact List.mem_filter.mpr ⟨all x isBlock, by simpa using cut.home a x isBlock⟩

theorem remove [DecidableEq β] (held : Slabs home blocks slabs free count)
    (cut : CutInto home blocks) (a : κ) :
    Slabs home blocks (slabs \ {a}) (free.diff (blocks a)) count := by
  have mem : ∀ y, y ∈ free.diff (blocks a) ↔ y ∈ free ∧ y ∉ blocks a :=
    fun y => held.nodup.mem_sdiff_iff
  refine ⟨held.nodup.diff, ?_, ?_⟩
  · intro y isFree
    obtain ⟨isFree, notBlock⟩ := (mem y).mp isFree
    obtain ⟨isSlab, inSlab⟩ := held.belongs y isFree
    refine ⟨⟨isSlab, fun isHome => notBlock ?_⟩, inSlab⟩
    rw [← Set.mem_singleton_iff.mp isHome]
    exact inSlab
  · rintro a' ⟨isSlab', other⟩
    rw [held.counted a' isSlab', held.nodup.sdiff_eq_filter, List.countP_filter]
    refine List.countP_congr fun y _ => ?_
    simp only [decide_eq_true_eq, Bool.and_eq_true]
    refine (and_iff_left_of_imp ?_).symm
    rintro rfl isBlock
    exact other (cut.home a y isBlock)

end Slabs

end HongbaiOS.Library
