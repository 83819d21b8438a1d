import Mathlib.Logic.Basic
import Mathlib.Tactic.Common

/-!
# Exclusive ownership

Places that hold resources: a resource that is held is taken, and no two places hold the
same one.  The rules say how this survives taking a free resource and letting one go.
-/

namespace HongbaiOS.Library

universe u v

/-- `held p` is the resource at place `p`. -/
structure Owns {π : Type u} {ρ : Type v} (taken : ρ → Prop) (held : π → Option ρ) : Prop where
  taken : ∀ p r, held p = some r → taken r
  once : ∀ p q r, held p = some r → held q = some r → p = q

namespace Owns

variable {π : Type u} {ρ : Type v} {taken taken' : ρ → Prop} {held held' : π → Option ρ}

theorem shrink (owns : Owns taken held) (fewer : ∀ p r, held' p = some r → held p = some r)
    (stay : ∀ p r, held' p = some r → taken r → taken' r) : Owns taken' held' :=
  ⟨fun p r holds => stay p r holds (owns.taken p r (fewer p r holds)),
    fun p q r first second => owns.once p q r (fewer p r first) (fewer q r second)⟩

theorem claim (owns : Owns taken held) (place : π) {new : ρ} (isTaken : taken new)
    (spare : ∀ p, held p ≠ some new)
    (held_new : ∀ p r, held' p = some r → held p = some r ∨ p = place ∧ r = new) :
    Owns taken held' := by
  constructor
  · intro p r holds
    rcases held_new p r holds with old | ⟨-, isNew⟩
    · exact owns.taken p r old
    · rw [isNew]
      exact isTaken
  · intro p q r first second
    rcases held_new p r first with oldFirst | ⟨atFirst, isNew⟩
    · rcases held_new q r second with oldSecond | ⟨-, isNew⟩
      · exact owns.once p q r oldFirst oldSecond
      · exact absurd (isNew ▸ oldFirst) (spare p)
    · rcases held_new q r second with oldSecond | ⟨atSecond, -⟩
      · exact absurd (isNew ▸ oldSecond) (spare q)
      · rw [atFirst, atSecond]

theorem take (owns : Owns taken held) (place : π) {new : ρ} (free : ¬ taken new)
    (held_new : ∀ p r, held' p = some r → held p = some r ∨ p = place ∧ r = new)
    (grown : ∀ r, taken r ∨ r = new → taken' r) : Owns taken' held' := by
  have reserved : Owns taken' held :=
    owns.shrink (fun _ _ holds => holds) fun _ r _ isTaken => grown r (Or.inl isTaken)
  have spare : ∀ p, held p ≠ some new := fun p holds => free (owns.taken p new holds)
  exact reserved.claim place (grown new (Or.inr rfl)) spare held_new

end Owns

end HongbaiOS.Library
