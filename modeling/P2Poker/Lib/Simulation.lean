import Mathlib.Logic.Relation
import P2Poker.Lib.Trace

/-!
# Views of a run

A component sees only part of the state of the system it runs in. Where every
step of the system is one of its steps or leaves its part alone, a run of the
system is a run of the component.
-/

namespace P2Poker.Lib
variable {σ ε τ δ : Type} {step : σ → ε → Option σ} {ok : σ → ε → Prop} {s t : σ} {es : List ε}

theorem Trace.view {R : τ → τ → Prop} (f : σ → τ) (h : Trace step ok s es t)
    (hstep : ∀ fs t e t', Trace step ok s fs t → ok t e → step t e = some t' → f t' = f t ∨ R (f t) (f t')) :
    Relation.ReflTransGen R (f s) (f t) := by
  induction h with
  | nil => exact .refl
  | snoc e ht he hs ih =>
    rcases hstep _ _ e _ ht he hs with hsame | hmove
    · rwa [hsame]
    · exact ih.tail hmove

/-- Where `g` names the component's own step, the run of the component takes the steps named. -/
theorem Trace.project {step' : τ → δ → Option τ} (f : σ → τ) (g : ε → Option δ) (h : Trace step ok s es t)
    (hstep : ∀ fs t e t', Trace step ok s fs t → ok t e → step t e = some t' →
      (g e = none ∧ f t' = f t) ∨ ∃ d, g e = some d ∧ step' (f t) d = some (f t')) :
    Trace step' Free (f s) (es.filterMap g) (f t) := by
  induction h with
  | nil => exact .nil
  | snoc e ht he hs ih =>
    rw [List.filterMap_append]
    rcases hstep _ _ e _ ht he hs with ⟨hnone, hsame⟩ | ⟨d, hsome, hmove⟩
    · rw [List.filterMap_cons_none hnone, List.filterMap_nil, List.append_nil, hsame]
      exact ih
    · rw [List.filterMap_cons_some hsome, List.filterMap_nil]
      exact .snoc d ih trivial hmove

end P2Poker.Lib
