import Mathlib.Data.List.Basic
import Mathlib.Tactic

/-!
# Bounded mailboxes

A sender that finds the mailbox full drops what it has. What was offered is kept on
record, with the number of items that were waiting then.
-/

namespace P2Poker.Lib

structure Mailbox (α : Type) where
  queue : List α := []
  taken : List α := []
  offers : List (α × ℕ) := []

namespace Mailbox
variable {α : Type} {cap : ℕ} {m : Mailbox α}

def offer (cap : ℕ) (m : Mailbox α) (x : α) : Mailbox α :=
  { m with
    queue := if m.queue.length < cap then m.queue ++ [x] else m.queue
    offers := m.offers ++ [(x, m.queue.length)] }

def offered (m : Mailbox α) : List α := m.offers.map Prod.fst

/- Whatever did not find the mailbox full. -/
def accepted (cap : ℕ) (m : Mailbox α) : List α := (m.offers.filter fun o => decide (o.2 < cap)).map Prod.fst

/-- What comes out is what was accepted, in that order. -/
structure Kept (cap : ℕ) (m : Mailbox α) : Prop where
  fifo : m.accepted cap = m.taken ++ m.queue
  waiting : ∀ o ∈ m.offers, o.2 ≤ cap
  bound : m.queue.length ≤ cap

theorem Kept.new : ({} : Mailbox α).Kept cap := ⟨rfl, by simp, Nat.zero_le cap⟩

@[simp] theorem offered_offer (x : α) : (m.offer cap x).offered = m.offered ++ [x] := by
  rw [offered, offer, List.map_append]
  rfl

theorem Kept.offer (h : m.Kept cap) (x : α) : (m.offer cap x).Kept cap := by
  have hold := h.fifo
  unfold accepted at hold
  refine ⟨?_, ?_, ?_⟩
  · unfold accepted Mailbox.offer
    dsimp only
    rw [List.filter_append, List.map_append, hold]
    by_cases hroom : m.queue.length < cap
    · rw [if_pos hroom, List.filter_cons_of_pos (by simpa using hroom)]
      exact List.append_assoc ..
    · rw [if_neg hroom, List.filter_cons_of_neg (by simpa using hroom)]
      exact List.append_nil _
  · intro o ho
    rcases List.mem_append.mp ho with hin | hnew
    · exact h.waiting o hin
    · rw [List.mem_singleton.mp hnew]
      exact h.bound
  · unfold Mailbox.offer
    dsimp only
    split_ifs with hroom
    · rw [List.length_append]
      exact hroom
    · exact h.bound

theorem Kept.take {x : α} {rest : List α} (h : m.Kept cap) (hq : m.queue = x :: rest) :
    { m with queue := rest, taken := m.taken ++ [x] }.Kept cap := by
  refine ⟨?_, h.waiting, ?_⟩
  · have hfifo := h.fifo
    rw [hq] at hfifo
    show m.accepted cap = m.taken ++ [x] ++ rest
    rw [hfifo, List.append_assoc]
    rfl
  · have hbound := h.bound
    rw [hq, List.length_cons] at hbound
    exact (Nat.le_succ _).trans hbound

theorem Kept.offered_of_taken {x : α} (h : m.Kept cap) (hx : x ∈ m.taken) : x ∈ m.offered := by
  have hin : x ∈ m.accepted cap := by
    rw [h.fifo]
    exact List.mem_append_left _ hx
  obtain ⟨o, ho, rfl⟩ := List.mem_map.mp hin
  exact List.mem_map_of_mem (List.mem_of_mem_filter ho)

end Mailbox

end P2Poker.Lib
