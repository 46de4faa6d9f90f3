import Mathlib.Data.List.Basic

/-!
# Traces of a transition system

A system takes events; one that is not enabled is refused. A trace is the list
of events taken from a state, each of them under a condition on the state it is
taken in.
-/

namespace P2Poker.Lib
variable {σ ε : Type} (step : σ → ε → Option σ) (ok : σ → ε → Prop)

inductive Trace (s : σ) : List ε → σ → Prop where
  | nil : Trace s [] s
  | snoc {es : List ε} {t t' : σ} (e : ε) :
      Trace s es t → ok t e → step t e = some t' → Trace s (es ++ [e]) t'

/- No condition. -/
abbrev Free : σ → ε → Prop := fun _ _ => True

def exec [∀ s e, Decidable (ok s e)] (s : σ) : List ε → Option σ
  | [] => some s
  | e :: es => if ok s e then (step s e).bind fun t => exec t es else none

/- Where a list of events leads, if it can be taken. -/
def run [∀ s e, Decidable (ok s e)] (s : σ) (es : List ε) : σ := (exec step ok s es).getD s

variable {step ok} {s t u : σ} {es fs : List ε}

namespace Trace

theorem cons {e : ε} (he : ok s e) (hs : step s e = some t) (h : Trace step ok t es u) :
    Trace step ok s (e :: es) u := by
  induction h with
  | nil => exact (Trace.nil : Trace step ok s [] s).snoc e he hs
  | snoc f _ hf hstep ih => exact ih.snoc f hf hstep

theorem append (h : Trace step ok s es t) (h' : Trace step ok t fs u) :
    Trace step ok s (es ++ fs) u := by
  induction h' with
  | nil => simpa using h
  | snoc e _ he hs ih =>
    rw [← List.append_assoc]
    exact ih.snoc e he hs

theorem mono {ok' : σ → ε → Prop} (himp : ∀ t e, ok t e → ok' t e) (h : Trace step ok s es t) :
    Trace step ok' s es t := by
  induction h with
  | nil => exact .nil
  | snoc e _ he hs ih => exact ih.snoc e (himp _ _ he) hs

/- A condition that the events of the run meet wherever they happen. -/
theorem restrict {ok' : σ → ε → Prop} (h : Trace step ok s es t) (hall : ∀ e ∈ es, ∀ t, ok' t e) :
    Trace step ok' s es t := by
  induction h with
  | nil => exact .nil
  | snoc e _ _ hs ih =>
    exact .snoc e (ih fun f hf => hall f (List.mem_append_left _ hf)) (hall e (by simp) _) hs

/-- What every step keeps holds in every state reached. -/
theorem keeps {P : σ → Prop} (h : Trace step ok s es t) (h0 : P s)
    (hstep : ∀ t e t', ok t e → step t e = some t' → P t → P t') : P t := by
  induction h with
  | nil => exact h0
  | snoc e _ he hs ih => exact hstep _ e _ he hs ih

end Trace

theorem exec_trace [∀ s e, Decidable (ok s e)] (h : exec step ok s es = some t) :
    Trace step ok s es t := by
  induction es generalizing s with
  | nil =>
    obtain rfl := Option.some.inj h
    exact .nil
  | cons e es ih =>
    rw [exec] at h
    split_ifs at h with he
    obtain ⟨t', hs, ht⟩ := Option.bind_eq_some_iff.mp h
    exact .cons he hs (ih ht)

theorem exec_snoc [∀ s e, Decidable (ok s e)] (s : σ) (es : List ε) (e : ε) :
    exec step ok s (es ++ [e]) =
      (exec step ok s es).bind fun t => if ok t e then step t e else none := by
  induction es generalizing s with
  | nil =>
    simp only [List.nil_append, exec, Option.bind_some]
    split_ifs
    · exact Option.bind_fun_some _
    · rfl
  | cons f es ih =>
    rw [List.cons_append, exec, exec]
    split_ifs
    · simp only [ih, Option.bind_assoc]
    · rfl

theorem Trace.exec_eq [∀ s e, Decidable (ok s e)] (h : Trace step ok s es t) :
    exec step ok s es = some t := by
  induction h with
  | nil => rfl
  | snoc e _ he hs ih => rw [exec_snoc, ih, Option.bind_some, if_pos he, hs]

theorem run_trace [∀ s e, Decidable (ok s e)] (h : (exec step ok s es).isSome) :
    Trace step ok s es (run step ok s es) := by
  obtain ⟨t, ht⟩ := Option.isSome_iff_exists.mp h
  rw [run, ht]
  exact exec_trace ht

end P2Poker.Lib
