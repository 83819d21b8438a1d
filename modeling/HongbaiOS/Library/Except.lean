import Mathlib.Tactic.Common

/-!
# Computations that may stop for good

The inversion lemmas peel a run in `Except` apart bind by bind, so that no proof
has to unfold the monad.
-/

namespace HongbaiOS.Library

universe u v w

variable {ε : Type u} {α β : Type v}

@[simp]
theorem ok_bind (a : α) (f : α → Except ε β) : (Except.ok a >>= f) = f a := rfl

@[simp]
theorem error_bind (reason : ε) (f : α → Except ε β) :
    ((Except.error reason : Except ε α) >>= f) = .error reason := rfl

@[simp]
theorem pure_eq_ok (a : α) : (pure a : Except ε α) = .ok a := rfl

theorem except_bind_eq_ok {m : Except ε α} {f : α → Except ε β} {b : β} :
    (m >>= f) = .ok b ↔ ∃ a, m = .ok a ∧ f a = .ok b := by
  cases m <;> simp

theorem exists_of_isOk {m : Except ε α} (ok : m.isOk = true) : ∃ a, m = .ok a := by
  cases m with
  | ok a => exact ⟨a, rfl⟩
  | error reason => cases ok

/-- The computation does not stop for a bad reason. -/
def Avoids (bad : ε → Prop) (m : Except ε α) : Prop :=
  ∀ reason, m = .error reason → ¬ bad reason

section Avoids

variable {bad : ε → Prop} {m : Except ε α} {f : α → Except ε β}

theorem avoids_ok (a : α) : Avoids bad (.ok a : Except ε α) :=
  fun _ impossible => nomatch impossible

theorem avoids_error {reason : ε} (good : ¬ bad reason) :
    Avoids bad (.error reason : Except ε α) := by
  rintro _ ⟨⟩
  exact good

/-- What runs second may rely on the result of what runs first. -/
theorem Avoids.bind (first : Avoids bad m) (rest : ∀ a, m = .ok a → Avoids bad (f a)) :
    Avoids bad (m >>= f) := by
  cases m with
  | ok a => exact rest a rfl
  | error reason =>
      rintro _ ⟨⟩
      exact first reason rfl

/-- The computation does not stop for a bad reason, and what it returns is as wanted. -/
def Serves (bad : ε → Prop) (m : Except ε α) (post : α → Prop) : Prop :=
  Avoids bad m ∧ ∀ a, m = .ok a → post a

theorem Serves.bind {post : α → Prop} {post' : β → Prop} (first : Serves bad m post)
    (rest : ∀ a, post a → Serves bad (f a) post') : Serves bad (m >>= f) post' := by
  refine ⟨first.1.bind fun a ran => (rest a (first.2 a ran)).1, fun b ran => ?_⟩
  obtain ⟨a, ran₁, ran₂⟩ := except_bind_eq_ok.mp ran
  exact (rest a (first.2 a ran₁)).2 b ran₂

theorem serves_ok {post : α → Prop} {a : α} (holds : post a) :
    Serves bad (.ok a : Except ε α) post :=
  ⟨avoids_ok a, fun _ same => Except.ok.inj same ▸ holds⟩

end Avoids

section Loop

variable {ι : Type w} {pass : α → ι → Except ε α} {xs : List ι} {a b : α}

/-- What every pass keeps, given the elements still to come, holds after the loop. -/
theorem foldlM_rest (I : List ι → α → Prop)
    (keeps : ∀ x rest c d, I (x :: rest) c → pass c x = .ok d → I rest d)
    (start : I xs a) (ran : xs.foldlM pass a = .ok b) : I [] b := by
  induction xs generalizing a with
  | nil =>
      cases ran
      exact start
  | cons x rest inductionHypothesis =>
      rw [List.foldlM_cons] at ran
      obtain ⟨c, first, ran⟩ := except_bind_eq_ok.mp ran
      exact inductionHypothesis (keeps x rest a c start first) ran

/-- If the invariant decides whether a pass returns by its element alone, the loop returns
exactly if all elements let it. -/
theorem foldlM_returns_iff (I : List ι → α → Prop) (Ready : ι → Prop)
    (keeps : ∀ x rest c d, I (x :: rest) c → pass c x = .ok d → I rest d)
    (returns : ∀ x rest c, I (x :: rest) c → ((∃ d, pass c x = .ok d) ↔ Ready x))
    (start : I xs a) : (∃ b, xs.foldlM pass a = .ok b) ↔ ∀ x ∈ xs, Ready x := by
  induction xs generalizing a with
  | nil => exact ⟨fun _ _ member => absurd member List.not_mem_nil, fun _ => ⟨a, rfl⟩⟩
  | cons x rest inductionHypothesis =>
      rw [List.forall_mem_cons, ← returns x rest a start, List.foldlM_cons]
      constructor
      · rintro ⟨b, ran⟩
        obtain ⟨c, first, ran⟩ := except_bind_eq_ok.mp ran
        exact ⟨⟨c, first⟩, (inductionHypothesis (keeps x rest a c start first)).mp ⟨b, ran⟩⟩
      · rintro ⟨⟨c, first⟩, ready⟩
        obtain ⟨b, ran⟩ := (inductionHypothesis (keeps x rest a c start first)).mpr ready
        exact ⟨b, except_bind_eq_ok.mpr ⟨c, first, ran⟩⟩

end Loop

end HongbaiOS.Library
