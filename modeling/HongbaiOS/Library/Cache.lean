import Mathlib.Data.Set.Insert
import Mathlib.Tactic.Common

/-!
# A cache that is not told of changes

A cache may hold any pair of key and value that was looked up, until the key is
invalidated.  It is current where what it may hold is still what a lookup gives.  The
rules say which changes of the lookup leave it so.
-/

namespace HongbaiOS.Library

universe u v

section

variable {κ : Type u} {ν : Type v} {keys : Set κ} {cache cache' : Set (κ × ν)}
  {lookup lookup' : κ → ν → Prop}

/-- What the cache may hold for these keys is what a lookup gives. -/
def Current (keys : Set κ) (cache : Set (κ × ν)) (lookup : κ → ν → Prop) : Prop :=
  ∀ k ∈ keys, ∀ v, (k, v) ∈ cache → lookup k v

/-- A read is served from the cache or by a lookup. -/
def CachedRead (cache : Set (κ × ν)) (lookup : κ → ν → Prop) (k : κ) (v : ν) : Prop :=
  (k, v) ∈ cache ∨ lookup k v

/-- Remove what is held for one key. -/
def invalidate (k : κ) (cache : Set (κ × ν)) : Set (κ × ν) := {t | t ∈ cache ∧ t.1 ≠ k}

namespace Current

theorem read (current : Current keys cache lookup) {k : κ} {v : ν} (isKey : k ∈ keys)
    (served : CachedRead cache lookup k v) : lookup k v := by
  rcases served with cached | fresh
  · exact current k isKey v cached
  · exact fresh

theorem empty : Current keys ∅ lookup :=
  fun _ _ _ impossible => absurd impossible (Set.notMem_empty _)

theorem keep (current : Current keys cache lookup) {k : κ} {v : ν}
    (served : CachedRead cache lookup k v) : Current keys (insert (k, v) cache) lookup := by
  rintro k' isKey v' (isNew | old)
  · cases isNew
    exact current.read isKey served
  · exact current k' isKey v' old

theorem union (first : Current keys cache lookup) (second : Current keys cache' lookup) :
    Current keys (cache ∪ cache') lookup := by
  rintro k isKey v (one | other)
  · exact first k isKey v one
  · exact second k isKey v other

theorem change (current : Current keys cache lookup)
    (same : ∀ k ∈ keys, ∀ v, (k, v) ∈ cache → lookup k v → lookup' k v) :
    Current keys cache lookup' :=
  fun k isKey v held => same k isKey v held (current k isKey v held)

theorem invalidate (current : Current keys cache lookup) (k : κ) :
    Current keys (invalidate k cache) lookup :=
  fun k' isKey v held => current k' isKey v held.1

end Current

@[simp]
theorem mem_invalidate {k k' : κ} {v : ν} :
    (k', v) ∈ invalidate k cache ↔ (k', v) ∈ cache ∧ k' ≠ k := Iff.rfl

@[simp]
theorem invalidate_idem (k : κ) (cache : Set (κ × ν)) :
    invalidate k (invalidate k cache) = invalidate k cache := by
  ext t
  exact ⟨fun held => held.1, fun held => ⟨held, held.2⟩⟩

end

end HongbaiOS.Library
