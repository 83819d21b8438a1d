import Mathlib.Data.List.Basic
import Mathlib.Tactic.Common

/-!
# Runs of a partial step function

`trace` follows a list of actions through a step function that may halt and
collects every state on the way.  An invariant is proved once for one step and
carried to all of them by `invariant_of_trace`.
-/

namespace HongbaiOS.Library

universe u v w

section

variable {σ : Type u} {ι : Type v} {ε : Type w}

/-- The states after each action, oldest first; a halt anywhere is the result. -/
def trace (step : σ → ι → Except ε σ) : σ → List ι → Except ε (List σ)
  | _, [] => .ok []
  | s, a :: rest =>
      match step s a with
      | .error reason => .error reason
      | .ok s' =>
          match trace step s' rest with
          | .error reason => .error reason
          | .ok states => .ok (s' :: states)

@[simp]
theorem trace_nil (step : σ → ι → Except ε σ) (s : σ) :
    trace step s [] = .ok [] := rfl

theorem trace_cons_eq_ok {step : σ → ι → Except ε σ} {s : σ} {a : ι}
    {rest : List ι} {states : List σ} :
    trace step s (a :: rest) = .ok states ↔
      ∃ s' tail, step s a = .ok s' ∧ trace step s' rest = .ok tail ∧
        states = s' :: tail := by
  simp only [trace]
  cases step s a with
  | error reason => simp
  | ok s' =>
      cases ran : trace step s' rest with
      | error reason => simp [ran]
      | ok tail => simp [ran, eq_comm]

theorem length_trace {step : σ → ι → Except ε σ} {s : σ} {actions : List ι} {states : List σ}
    (ran : trace step s actions = .ok states) : states.length = actions.length := by
  induction actions generalizing s states with
  | nil =>
      simp only [trace_nil, Except.ok.injEq] at ran
      rw [← ran]
      rfl
  | cons a rest inductionHypothesis =>
      obtain ⟨s', tail, -, restRan, rfl⟩ := trace_cons_eq_ok.mp ran
      rw [List.length_cons, List.length_cons, inductionHypothesis restRan]

theorem trace_append {step : σ → ι → Except ε σ} {s : σ} {first second : List ι}
    {states tail : List σ} (ran : trace step s first = .ok states)
    (goesOn : trace step (states.getLastD s) second = .ok tail) :
    trace step s (first ++ second) = .ok (states ++ tail) := by
  induction first generalizing s states with
  | nil =>
      simp only [trace_nil, Except.ok.injEq] at ran
      subst ran
      exact goesOn
  | cons a rest inductionHypothesis =>
      obtain ⟨s', after, stepped, restRan, rfl⟩ := trace_cons_eq_ok.mp ran
      rw [List.getLastD_cons] at goesOn
      exact trace_cons_eq_ok.mpr
        ⟨s', after ++ tail, stepped, inductionHypothesis restRan goesOn, rfl⟩

/-- A property that holds at the start and survives every allowed action holds
in every state of the run. -/
theorem invariant_of_trace {step : σ → ι → Except ε σ} {invariant : σ → Prop}
    {allowed : ι → Prop}
    (preserved : ∀ s a s', invariant s → allowed a → step s a = .ok s' → invariant s')
    {s : σ} {actions : List ι} {states : List σ}
    (start : invariant s) (ok : ∀ a ∈ actions, allowed a)
    (ran : trace step s actions = .ok states) :
    ∀ s' ∈ states, invariant s' := by
  induction actions generalizing s states with
  | nil =>
      simp only [trace_nil, Except.ok.injEq] at ran
      subst ran
      simp
  | cons a rest inductionHypothesis =>
      obtain ⟨s', tail, stepped, restRan, rfl⟩ := trace_cons_eq_ok.mp ran
      have next : invariant s' := preserved s a s' start (ok a (by simp)) stepped
      intro t membership
      rcases List.mem_cons.mp membership with rfl | later
      · exact next
      · exact inductionHypothesis next (fun b hb => ok b (by simp [hb])) restRan t later

/-- The same for an invariant that needs a second property of the states it is carried
across: where all states of the run have that property, they have the invariant. -/
theorem invariant_of_guarded_trace {step : σ → ι → Except ε σ} {invariant guard : σ → Prop}
    (preserved : ∀ s a s', invariant s → guard s → step s a = .ok s' → invariant s')
    {s : σ} {actions : List ι} {states : List σ}
    (start : invariant s) (ran : trace step s actions = .ok states)
    (guarded : ∀ s' ∈ s :: states, guard s') :
    ∀ s' ∈ s :: states, invariant s' := by
  induction actions generalizing s states with
  | nil =>
      simp only [trace_nil, Except.ok.injEq] at ran
      subst ran
      simpa using start
  | cons a rest inductionHypothesis =>
      obtain ⟨s', tail, stepped, restRan, rfl⟩ := trace_cons_eq_ok.mp ran
      have next : invariant s' := preserved s a s' start (guarded s (by simp)) stepped
      intro t membership
      rcases List.mem_cons.mp membership with rfl | later
      · exact start
      · exact inductionHypothesis next restRan
          (fun u inTail => guarded u (List.mem_cons_of_mem s inTail)) t later

theorem invariant_of_allowed_trace {step : σ → ι → Except ε σ} {invariant : σ → Prop}
    {allowed : σ → ι → Prop}
    (preserved : ∀ s a s', invariant s → allowed s a → step s a = .ok s' → invariant s')
    {s : σ} {actions : List ι} {states : List σ} (start : invariant s)
    (ran : trace step s actions = .ok states)
    (ok : ∀ p ∈ (s :: states).zip actions, allowed p.1 p.2) :
    ∀ s' ∈ s :: states, invariant s' := by
  induction actions generalizing s states with
  | nil =>
      simp only [trace_nil, Except.ok.injEq] at ran
      subst ran
      simpa using start
  | cons a rest inductionHypothesis =>
      obtain ⟨s', tail, stepped, restRan, rfl⟩ := trace_cons_eq_ok.mp ran
      rw [List.zip_cons_cons] at ok
      obtain ⟨first, others⟩ := List.forall_mem_cons.mp ok
      exact List.forall_mem_cons.mpr ⟨start,
        inductionHypothesis (preserved s a s' start first stepped) restRan others⟩

/-- Where each step keeps `good` if and only if it is not `bad`, the states of a run are
all `good` if and only if none of its steps is `bad`.  The invariant is needed only as long
as all has gone well. -/
theorem forall_trace_iff {step : σ → ι → Except ε σ} {invariant good : σ → Prop}
    {bad : σ → ι → Prop}
    (preserved : ∀ s a s', invariant s → good s → step s a = .ok s' →
      (good s' → invariant s') ∧ (good s' ↔ ¬ bad s a))
    {s : σ} {actions : List ι} {states : List σ} (start : invariant s) (startGood : good s)
    (ran : trace step s actions = .ok states) :
    (∀ s' ∈ s :: states, good s') ↔
      ∀ p ∈ (s :: states).zip actions, ¬ bad p.1 p.2 := by
  induction actions generalizing s states with
  | nil =>
      simp only [trace_nil, Except.ok.injEq] at ran
      subst ran
      simp [startGood]
  | cons a rest inductionHypothesis =>
      obtain ⟨s', tail, stepped, restRan, rfl⟩ := trace_cons_eq_ok.mp ran
      obtain ⟨next, keeps⟩ := preserved s a s' start startGood stepped
      rw [List.zip_cons_cons]
      constructor
      · intro all
        have first : good s' := all s' (by simp)
        exact List.forall_mem_cons.mpr ⟨keeps.mp first,
          (inductionHypothesis (next first) first restRan).mp
            fun t later => all t (List.mem_cons_of_mem s later)⟩
      · intro none
        obtain ⟨notBad, others⟩ := List.forall_mem_cons.mp none
        have first : good s' := keeps.mpr notBad
        exact List.forall_mem_cons.mpr
          ⟨startGood, (inductionHypothesis (next first) first restRan).mpr others⟩

/-- A potential that every counted step lowers, and none raises, pays for the counted steps
of a run while its states have `good`. -/
theorem countP_add_potential_le {step : σ → ι → Except ε σ} {invariant good : σ → Prop}
    {potential : σ → Nat} {counts : ι → Bool}
    (pays : ∀ s a s', invariant s → step s a = .ok s' → good s' →
      invariant s' ∧ potential s' + (if counts a then 1 else 0) ≤ potential s)
    {s : σ} {actions : List ι} {states : List σ} (start : invariant s)
    (ran : trace step s actions = .ok states) (allGood : ∀ s' ∈ states, good s') :
    invariant (states.getLastD s) ∧
      actions.countP counts + potential (states.getLastD s) ≤ potential s := by
  induction actions generalizing s states with
  | nil =>
      simp only [trace_nil, Except.ok.injEq] at ran
      subst ran
      simpa using start
  | cons a rest inductionHypothesis =>
      obtain ⟨s', tail, stepped, restRan, rfl⟩ := trace_cons_eq_ok.mp ran
      obtain ⟨next, paid⟩ := pays s a s' start stepped (allGood s' (by simp))
      obtain ⟨last, later⟩ := inductionHypothesis next restRan
        fun t inTail => allGood t (by simp [inTail])
      rw [List.getLastD_cons, List.countP_cons]
      exact ⟨last, by omega⟩

/-- Two computations stop for the same reason or return related values. -/
inductive Agrees {τ : Type u} (r : σ → τ → Prop) : Except ε σ → Except ε τ → Prop
  | ok {s : σ} {t : τ} (related : r s t) : Agrees r (.ok s) (.ok t)
  | error (reason : ε) : Agrees r (.error reason) (.error reason)

section Agrees

variable {τ : Type u} {r r' : σ → τ → Prop}

/-- What runs second may rely on the result of what runs first. -/
theorem Agrees.bind {m : Except ε σ} {m' : Except ε τ} {f : σ → Except ε σ}
    {f' : τ → Except ε τ} (first : Agrees r m m')
    (rest : ∀ s t, m' = .ok t → r s t → Agrees r' (f s) (f' t)) :
    Agrees r' (m >>= f) (m' >>= f') := by
  cases first with
  | ok related => exact rest _ _ rfl related
  | error reason => exact .error reason

theorem Agrees.imp {m : Except ε σ} {m' : Except ε τ} (weaker : ∀ s t, r s t → r' s t)
    (agrees : Agrees r m m') : Agrees r' m m' := by
  cases agrees with
  | ok related => exact .ok (weaker _ _ related)
  | error reason => exact .error reason

theorem agrees_trace {step : σ → ι → Except ε σ} {step' : τ → ι → Except ε τ}
    {invariant : τ → Prop} {allowed : ι → Prop}
    (preserved : ∀ t a t', invariant t → allowed a → step' t a = .ok t' → invariant t')
    (simulates : ∀ s t a, invariant t → r s t → allowed a → Agrees r (step s a) (step' t a))
    {s : σ} {t : τ} (start : invariant t) (related : r s t) {actions : List ι}
    (ok : ∀ a ∈ actions, allowed a) :
    Agrees (List.Forall₂ r) (trace step s actions) (trace step' t actions) := by
  induction actions generalizing s t with
  | nil => exact .ok .nil
  | cons a rest inductionHypothesis =>
      obtain ⟨first, others⟩ := List.forall_mem_cons.mp ok
      have stepped := simulates s t a start related first
      rw [trace, trace]
      cases ran : step' t a with
      | error reason =>
          rw [ran] at stepped
          generalize step s a = m at stepped
          cases stepped
          exact .error reason
      | ok t' =>
          rw [ran] at stepped
          generalize step s a = m at stepped
          cases stepped with
          | ok related' =>
              have later := inductionHypothesis (preserved t a t' start first ran) related' others
              simp only
              generalize trace step _ rest = m at later
              generalize trace step' t' rest = m' at later
              cases later with
              | ok all => exact .ok (.cons related' all)
              | error reason => exact .error reason

end Agrees

end

end HongbaiOS.Library
