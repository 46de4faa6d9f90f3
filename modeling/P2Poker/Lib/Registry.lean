import Mathlib.Data.Set.Basic
import Mathlib.Logic.Function.Basic

/-!
# Names from a counter

A registry holds names that are taken. A client asks for a name of its own or
has one drawn from a counter; between the request and the moment the name is
taken, other clients move.
-/

namespace P2Poker.Lib

structure Registry (ι N : Type) where
  taken : Set N
  counter : ℕ
  -- the name each client is about to take
  pending : ι → Option N

namespace Registry
variable {ι N : Type} (gen : ℕ → N) {r r' : Registry ι N}

inductive Move (r r' : Registry ι N) : Prop where
  -- names are given back, requests dropped
  | release (htaken : r'.taken ⊆ r.taken) (hcounter : r'.counter = r.counter)
      (hpending : ∀ c, r'.pending c = r.pending c ∨ r'.pending c = none)
  | draw (c : ι) (htaken : r'.taken ⊆ r.taken) (hcounter : r'.counter = r.counter + 1)
      (hself : r'.pending c = some (gen (r.counter + 1))) (hother : ∀ d, d ≠ c → r'.pending d = r.pending d)
  -- a name the counter never gives
  | choose (c : ι) (n : N) (htaken : r'.taken ⊆ r.taken) (hcounter : r'.counter = r.counter)
      (hn : ∀ i, n ≠ gen i) (hself : r'.pending c = some n) (hother : ∀ d, d ≠ c → r'.pending d = r.pending d)
  | take (c : ι) (n : N) (hc : r.pending c = some n) (htaken : r'.taken ⊆ insert n r.taken)
      (hcounter : r'.counter = r.counter) (hself : r'.pending c = none)
      (hother : ∀ d, d ≠ c → r'.pending d = r.pending d)

/-- Drawn names come from below the counter, and those still to be taken are free
and of one client each. -/
structure Fresh (r : Registry ι N) : Prop where
  taken_le : ∀ i, gen i ∈ r.taken → i ≤ r.counter
  pending_le : ∀ c i, r.pending c = some (gen i) → i ≤ r.counter
  free : ∀ c i, r.pending c = some (gen i) → gen i ∉ r.taken
  apart : ∀ c d i, r.pending c = some (gen i) → r.pending d = some (gen i) → c = d

variable {gen}

theorem Fresh.empty (htaken : ∀ n, n ∉ r.taken) (hpending : ∀ c, r.pending c = none) : Fresh gen r := by
  have hnone : ∀ c i, r.pending c ≠ some (gen i) := by
    intro c i hc
    rw [hpending] at hc
    cases hc
  exact ⟨fun i hi => absurd hi (htaken _), fun c i hc => absurd hc (hnone c i),
    fun _ _ _ => htaken _, fun c _ i hc => absurd hc (hnone c i)⟩

theorem Fresh.of_pending (hf : Fresh gen r) (htaken : r'.taken ⊆ r.taken) (hcounter : r'.counter = r.counter)
    (hpending : ∀ c i, r'.pending c = some (gen i) → r.pending c = some (gen i)) : Fresh gen r' where
  taken_le i hi := by
    rw [hcounter]
    exact hf.taken_le i (htaken hi)
  pending_le c i hc := by
    rw [hcounter]
    exact hf.pending_le c i (hpending c i hc)
  free c i hc hi := hf.free c i (hpending c i hc) (htaken hi)
  apart c d i hc hd := hf.apart c d i (hpending c i hc) (hpending d i hd)

theorem Fresh.draw (hgen : Function.Injective gen) (hf : Fresh gen r) {c : ι} (htaken : r'.taken ⊆ r.taken)
    (hcounter : r'.counter = r.counter + 1) (hself : r'.pending c = some (gen (r.counter + 1)))
    (hother : ∀ d, d ≠ c → r'.pending d = r.pending d) : Fresh gen r' := by
  -- a request for a name is the new one, or was there and is below the counter
  have hcases : ∀ d i, r'.pending d = some (gen i) →
      d = c ∧ i = r.counter + 1 ∨ d ≠ c ∧ r.pending d = some (gen i) := by
    intro d i hd
    by_cases hdc : d = c
    · rw [hdc, hself] at hd
      exact .inl ⟨hdc, (hgen (Option.some.inj hd)).symm⟩
    · rw [hother d hdc] at hd
      exact .inr ⟨hdc, hd⟩
  refine ⟨?_, ?_, ?_, ?_⟩
  · intro i hi
    have hle := hf.taken_le i (htaken hi)
    omega
  · intro d i hd
    rcases hcases d i hd with ⟨-, hi⟩ | ⟨-, hold⟩
    · omega
    · have hle := hf.pending_le d i hold
      omega
  · intro d i hd hi
    rcases hcases d i hd with ⟨-, rfl⟩ | ⟨-, hold⟩
    · have hle := hf.taken_le _ (htaken hi)
      omega
    · exact hf.free d i hold (htaken hi)
  · intro d d' i hd hd'
    rcases hcases d i hd with ⟨rfl, hi⟩ | ⟨-, hold⟩
    · rcases hcases d' i hd' with ⟨rfl, -⟩ | ⟨-, hold'⟩
      · rfl
      · have hle := hf.pending_le d' i hold'
        omega
    · rcases hcases d' i hd' with ⟨rfl, hi⟩ | ⟨-, hold'⟩
      · have hle := hf.pending_le d i hold
        omega
      · exact hf.apart d d' i hold hold'

theorem Fresh.take (hf : Fresh gen r) {c : ι} {n : N} (hc : r.pending c = some n)
    (htaken : r'.taken ⊆ insert n r.taken) (hcounter : r'.counter = r.counter) (hself : r'.pending c = none)
    (hother : ∀ d, d ≠ c → r'.pending d = r.pending d) : Fresh gen r' := by
  have hold : ∀ d i, r'.pending d = some (gen i) → d ≠ c ∧ r.pending d = some (gen i) := by
    intro d i hd
    by_cases hdc : d = c
    · rw [hdc, hself] at hd
      cases hd
    · rw [hother d hdc] at hd
      exact ⟨hdc, hd⟩
  refine ⟨?_, ?_, ?_, ?_⟩
  · intro i hi
    rw [hcounter]
    rcases htaken hi with rfl | hi
    · exact hf.pending_le c i hc
    · exact hf.taken_le i hi
  · intro d i hd
    rw [hcounter]
    exact hf.pending_le d i (hold d i hd).2
  · intro d i hd hi
    obtain ⟨hdc, hd⟩ := hold d i hd
    rcases htaken hi with rfl | hi
    · exact hdc (hf.apart d c i hd hc)
    · exact hf.free d i hd hi
  · intro d d' i hd hd'
    exact hf.apart d d' i (hold d i hd).2 (hold d' i hd').2

theorem Fresh.move (hgen : Function.Injective gen) (hf : Fresh gen r) (hm : Move gen r r') : Fresh gen r' := by
  cases hm with
  | release htaken hcounter hpending =>
    refine hf.of_pending htaken hcounter ?_
    intro c i hc
    rcases hpending c with heq | hnone
    · rwa [heq] at hc
    · rw [hnone] at hc
      cases hc
  | draw c htaken hcounter hself hother => exact hf.draw hgen htaken hcounter hself hother
  | choose c n htaken hcounter hn hself hother =>
    refine hf.of_pending htaken hcounter ?_
    intro d i hd
    by_cases hdc : d = c
    · rw [hdc, hself] at hd
      exact absurd (Option.some.inj hd) (hn i)
    · rwa [hother d hdc] at hd
  | take c n hc htaken hcounter hself hother => exact hf.take hc htaken hcounter hself hother

end Registry

end P2Poker.Lib
