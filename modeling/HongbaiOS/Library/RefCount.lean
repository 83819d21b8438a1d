import Mathlib.Data.List.Count
import Mathlib.Tactic.Common

/-!
# Reference-counted entries

A cache with one entry for each key in use: `users` lists the keys of all users, and every
entry counts those of its key.  The rules say what a user that finds an entry, a user that
brings one and a user that leaves do to this.
-/

namespace HongbaiOS.Library

universe u v

/-- One entry for each key, counting its users. -/
structure Counted {ε : Type u} {κ : Type v} [DecidableEq κ] (entries : List ε) (key : ε → κ)
    (count : ε → Nat) (users : List κ) : Prop where
  nodup : entries.Nodup
  single : ∀ e ∈ entries, ∀ f ∈ entries, key e = key f → e = f
  counted : ∀ e ∈ entries, count e = users.count (key e)

namespace Counted

variable {ε : Type u} {κ : Type v} [DecidableEq κ] {entries : List ε} {key key' : ε → κ}
  {count count' : ε → Nat} {users : List κ} {e : ε} {k : κ}

theorem congr (counted : Counted entries key count users)
    (sameKey : ∀ f ∈ entries, key' f = key f) (sameCount : ∀ f ∈ entries, count' f = count f) :
    Counted entries key' count' users := by
  refine ⟨counted.nodup, fun e inList f inList' same => ?_, fun e inList => ?_⟩
  · rw [sameKey e inList, sameKey f inList'] at same
    exact counted.single e inList f inList' same
  · rw [sameCount e inList, sameKey e inList]
    exact counted.counted e inList

theorem perm {users' : List κ} (counted : Counted entries key count users)
    (same : users.Perm users') : Counted entries key count users' :=
  ⟨counted.nodup, counted.single, fun e inList => by
    rw [← same.count_eq]
    exact counted.counted e inList⟩

theorem hit_iff (count' : ε → Nat) (counted : Counted entries key count users)
    (listed : e ∈ entries)
    (sameKey : ∀ f ∈ entries, key' f = key f)
    (others : ∀ f ∈ entries, f ≠ e → count' f = count f) :
    Counted entries key' count' (key e :: users) ↔ count' e = count e + 1 := by
  constructor
  · intro after
    rw [after.counted e listed, sameKey e listed, List.count_cons_self,
      counted.counted e listed]
  · intro grown
    refine ⟨counted.nodup, fun f inList g inList' same => ?_, fun f inList => ?_⟩
    · rw [sameKey f inList, sameKey g inList'] at same
      exact counted.single f inList g inList' same
    · rw [sameKey f inList]
      by_cases here : f = e
      · rw [here, grown, List.count_cons_self, counted.counted e listed]
      · have otherKey : key e ≠ key f := fun same =>
          here (counted.single f inList e listed same.symm)
        rw [List.count_cons_of_ne otherKey, others f inList here]
        exact counted.counted f inList

/-- A user that brings a new entry: it must carry the user's key, and no entry may have that
key already. -/
theorem insert_iff (counted : Counted entries key count users) (fresh : e ∉ entries)
    (present : ∀ k ∈ users, ∃ f ∈ entries, key f = k)
    (sameKey : ∀ f ∈ entries, key' f = key f) (sameCount : ∀ f ∈ entries, count' f = count f)
    (one : count' e = 1) :
    Counted (e :: entries) key' count' (k :: users) ↔
      key' e = k ∧ ∀ f ∈ entries, key f ≠ k := by
  constructor
  · intro after
    have apart : ∀ f ∈ entries, key f ≠ key' e := by
      intro f inList same
      rw [← sameKey f inList] at same
      have equal := after.single f (List.mem_cons_of_mem e inList) e List.mem_cons_self same
      exact fresh (equal ▸ inList)
    have noUser : users.count (key' e) = 0 := by
      refine List.count_eq_zero.mpr fun used => ?_
      obtain ⟨f, inList, same⟩ := present _ used
      exact apart f inList same
    have counts := after.counted e List.mem_cons_self
    rw [one, List.count_cons, noUser] at counts
    have ofKey : key' e = k := by
      by_contra other
      rw [if_neg fun same => other (eq_of_beq same).symm] at counts
      cases counts
    exact ⟨ofKey, fun f inList => ofKey ▸ apart f inList⟩
  · rintro ⟨ofKey, apart⟩
    refine ⟨List.nodup_cons.mpr ⟨fresh, counted.nodup⟩, fun f inList g inList' same => ?_,
      fun f inList => ?_⟩
    · rcases List.mem_cons.mp inList with rfl | old <;>
        rcases List.mem_cons.mp inList' with rfl | old'
      · rfl
      · rw [ofKey, sameKey g old'] at same
        exact absurd same.symm (apart g old')
      · rw [ofKey, sameKey f old] at same
        exact absurd same (apart f old)
      · rw [sameKey f old, sameKey g old'] at same
        exact counted.single f old g old' same
    · rcases List.mem_cons.mp inList with rfl | old
      · have noUser : users.count k = 0 := by
          refine List.count_eq_zero.mpr fun used => ?_
          obtain ⟨f, inList, same⟩ := present _ used
          exact apart f inList same
        rw [one, ofKey, List.count_cons_self, noUser]
      · rw [sameCount f old, sameKey f old, List.count_cons_of_ne (apart f old).symm]
        exact counted.counted f old

theorem leave (counted : Counted entries key count users) (listed : e ∈ entries)
    (sameKey : ∀ f ∈ entries, key' f = key f)
    (others : ∀ f ∈ entries, f ≠ e → count' f = count f) (less : count' e + 1 = count e) :
    Counted entries key' count' (users.erase (key e)) := by
  refine ⟨counted.nodup, fun f inList g inList' same => ?_, fun f inList => ?_⟩
  · rw [sameKey f inList, sameKey g inList'] at same
    exact counted.single f inList g inList' same
  · rw [sameKey f inList]
    by_cases here : f = e
    · rw [here, List.count_erase_self, ← counted.counted e listed, ← less]
      rfl
    · have otherKey : key e ≠ key f := fun same =>
        here (counted.single f inList e listed same.symm)
      rw [List.count_erase_of_ne otherKey.symm, others f inList here]
      exact counted.counted f inList

variable [DecidableEq ε]

theorem leave_last (counted : Counted entries key count users) (listed : e ∈ entries)
    (sameKey : ∀ f ∈ entries, key' f = key f)
    (others : ∀ f ∈ entries, f ≠ e → count' f = count f) :
    Counted (entries.erase e) key' count' (users.erase (key e)) := by
  have old : ∀ f ∈ entries.erase e, f ∈ entries ∧ f ≠ e := fun f inList =>
    ⟨List.mem_of_mem_erase inList, fun same => by
      subst same
      exact counted.nodup.not_mem_erase inList⟩
  refine ⟨counted.nodup.erase e, fun f inList g inList' same => ?_, fun f inList => ?_⟩
  · rw [sameKey f (old f inList).1, sameKey g (old g inList').1] at same
    exact counted.single f (old f inList).1 g (old g inList').1 same
  · obtain ⟨before, other⟩ := old f inList
    have otherKey : key e ≠ key f := fun same => other (counted.single f before e listed same.symm)
    rw [sameKey f before, List.count_erase_of_ne otherKey.symm, others f before other]
    exact counted.counted f before

end Counted

end HongbaiOS.Library
