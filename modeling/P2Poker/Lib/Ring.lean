import Mathlib

/-!
# A ring of stations

Station `i` of `n` sends to station `i + 1` and receives from station `i - 1`,
over channels that hold `cap` messages. Each sends first and then receives and
sends in turn, until it has received `rounds` messages. Only the counts matter
for who can move: a message is the `k`-th that its station has sent, and it is
the `k`-th that the next one receives.
-/

namespace P2Poker.Lib

structure Ring where
  sent : ℕ → ℕ
  received : ℕ → ℕ

namespace Ring

def next (n i : ℕ) : ℕ := (i + 1) % n

def prev (n i : ℕ) : ℕ := (n + i - 1) % n

section Cycle
variable {n i j : ℕ}

theorem next_lt (hi : i < n) : next n i < n := Nat.mod_lt _ (by omega)

theorem prev_lt (hi : i < n) : prev n i < n := Nat.mod_lt _ (by omega)

theorem next_prev (hi : i < n) : next n (prev n i) = i := by
  rw [next, prev, Nat.mod_add_mod]
  have hsum : n + i - 1 + 1 = i + n := by omega
  rw [hsum, Nat.add_mod_right, Nat.mod_eq_of_lt hi]

theorem prev_next (hi : i < n) : prev n (next n i) = i := by
  rw [next, prev]
  rcases Nat.lt_or_ge (i + 1) n with hlt | hge
  · rw [Nat.mod_eq_of_lt hlt]
    have hsum : n + (i + 1) - 1 = i + n := by omega
    rw [hsum, Nat.add_mod_right, Nat.mod_eq_of_lt hi]
  · have hlast : i + 1 = n := by omega
    rw [hlast, Nat.mod_self, Nat.add_zero, Nat.mod_eq_of_lt (by omega)]
    omega

theorem next_inj (hi : i < n) (hj : j < n) (h : next n i = next n j) : i = j := by
  rw [← prev_next hi, ← prev_next hj, h]

end Cycle

def start : Ring := ⟨fun _ => 0, fun _ => 0⟩

section Moves
variable (n rounds cap : ℕ)

def CanSend (r : Ring) (i : ℕ) : Prop :=
  r.sent i = r.received i ∧ r.sent i < rounds ∧ r.sent i < r.received (next n i) + cap

def CanReceive (r : Ring) (i : ℕ) : Prop :=
  r.sent i = r.received i + 1 ∧ r.received i < r.sent (prev n i)

def send (r : Ring) (i : ℕ) : Ring := { r with sent := Function.update r.sent i (r.sent i + 1) }

def receive (r : Ring) (i : ℕ) : Ring :=
  { r with received := Function.update r.received i (r.received i + 1) }

inductive Move (r : Ring) : Ring → Prop where
  | send {i : ℕ} (hi : i < n) (h : r.CanSend n rounds cap i) : Move r (r.send i)
  | receive {i : ℕ} (hi : i < n) (h : r.CanReceive n i) : Move r (r.receive i)

/-- A station is in turn, and a channel holds what was sent and not received. -/
structure Paced (r : Ring) : Prop where
  received_le : ∀ i < n, r.received i ≤ r.sent i
  sent_le : ∀ i < n, r.sent i ≤ r.received i + 1
  sent_rounds : ∀ i < n, r.sent i ≤ rounds
  arrived_le : ∀ i < n, r.received (next n i) ≤ r.sent i
  flight_le : ∀ i < n, r.sent i ≤ r.received (next n i) + cap

/- How many times the stations have moved. -/
def moves (r : Ring) : ℕ := ∑ i ∈ Finset.range n, r.sent i + ∑ i ∈ Finset.range n, r.received i

end Moves

variable {n rounds cap : ℕ} {r r' : Ring} {i j : ℕ}

theorem send_self : (r.send i).sent i = r.sent i + 1 := Function.update_self ..

theorem send_ne (h : j ≠ i) : (r.send i).sent j = r.sent j := Function.update_of_ne h ..

theorem receive_self : (r.receive i).received i = r.received i + 1 := Function.update_self ..

theorem receive_ne (h : j ≠ i) : (r.receive i).received j = r.received j := Function.update_of_ne h ..

theorem Paced.start : start.Paced n rounds cap where
  received_le _ _ := Nat.le_refl 0
  sent_le _ _ := Nat.zero_le _
  sent_rounds _ _ := Nat.zero_le _
  arrived_le _ _ := Nat.le_refl 0
  flight_le _ _ := Nat.zero_le _

theorem Paced.send (hp : r.Paced n rounds cap) (h : r.CanSend n rounds cap i) :
    (r.send i).Paced n rounds cap := by
  obtain ⟨hturn, hmore, hroom⟩ := h
  -- the counts of the sender grow by one, all others stay
  have hsent : ∀ j, (r.send i).sent j = r.sent j ∨ j = i ∧ (r.send i).sent j = r.sent i + 1 := by
    intro j
    by_cases hj : j = i
    · subst hj
      exact .inr ⟨rfl, send_self⟩
    · exact .inl (send_ne hj)
  refine ⟨?_, ?_, ?_, ?_, ?_⟩
  · intro j hj
    have hold : r.received j ≤ r.sent j := hp.received_le j hj
    show r.received j ≤ _
    rcases hsent j with heq | ⟨rfl, heq⟩ <;> omega
  · intro j hj
    have hold := hp.sent_le j hj
    show _ ≤ r.received j + 1
    rcases hsent j with heq | ⟨rfl, heq⟩ <;> omega
  · intro j hj
    have hold := hp.sent_rounds j hj
    rcases hsent j with heq | ⟨rfl, heq⟩ <;> omega
  · intro j hj
    have hold := hp.arrived_le j hj
    show r.received _ ≤ _
    rcases hsent j with heq | ⟨rfl, heq⟩ <;> omega
  · intro j hj
    have hold := hp.flight_le j hj
    show _ ≤ r.received _ + cap
    rcases hsent j with heq | ⟨rfl, heq⟩ <;> omega

theorem Paced.receive (hp : r.Paced n rounds cap) (hi : i < n) (h : r.CanReceive n i) :
    (r.receive i).Paced n rounds cap := by
  obtain ⟨hturn, hmsg⟩ := h
  have hreceived : ∀ j, (r.receive i).received j = r.received j ∨
      j = i ∧ (r.receive i).received j = r.received i + 1 := by
    intro j
    by_cases hj : j = i
    · subst hj
      exact .inr ⟨rfl, receive_self⟩
    · exact .inl (receive_ne hj)
  refine ⟨?_, ?_, hp.sent_rounds, ?_, ?_⟩
  · intro j hj
    have hold := hp.received_le j hj
    show _ ≤ r.sent j
    rcases hreceived j with heq | ⟨rfl, heq⟩ <;> omega
  · intro j hj
    have hold := hp.sent_le j hj
    show r.sent j ≤ _
    rcases hreceived j with heq | ⟨rfl, heq⟩ <;> omega
  · intro j hj
    have hold := hp.arrived_le j hj
    show _ ≤ r.sent j
    rcases hreceived (next n j) with heq | ⟨rfl, heq⟩
    · omega
    · rw [prev_next hj] at hmsg
      omega
  · intro j hj
    have hold := hp.flight_le j hj
    show r.sent j ≤ _
    rcases hreceived (next n j) with heq | ⟨rfl, heq⟩ <;> omega

theorem Paced.move (hp : r.Paced n rounds cap) (hm : r.Move n rounds cap r') : r'.Paced n rounds cap := by
  cases hm with
  | send hi h => exact hp.send h
  | receive hi h => exact hp.receive hi h

/-- A station is never ahead of an earlier one by more than the way between them. -/
theorem Paced.received_add (hp : r.Paced n rounds cap) (hi : i < n) (t : ℕ) :
    r.received ((i + t) % n) ≤ r.received i + t := by
  induction t with
  | zero =>
    rw [Nat.add_zero, Nat.mod_eq_of_lt hi]
    omega
  | succ t ih =>
    have hlt : (i + t) % n < n := Nat.mod_lt _ (by omega)
    have harrived := hp.arrived_le _ hlt
    have hsent := hp.sent_le _ hlt
    rw [next, Nat.mod_add_mod] at harrived
    rw [← Nat.add_assoc]
    omega

/-- Some station can move until all have received their last message: the one
furthest behind, or the one before it. -/
theorem Paced.progress (hp : r.Paced n rounds cap) (hcap : 0 < cap) (hn : 0 < n) :
    (∀ i < n, r.received i = rounds) ∨ ∃ i < n, r.CanSend n rounds cap i ∨ r.CanReceive n i := by
  obtain ⟨i, hi, hmin⟩ := Finset.exists_min_image (Finset.range n) r.received ⟨0, Finset.mem_range.mpr hn⟩
  rw [Finset.mem_range] at hi
  have hleast : ∀ j < n, r.received i ≤ r.received j := fun j hj => hmin j (Finset.mem_range.mpr hj)
  have hsent := hp.sent_le i hi
  have hreceived := hp.received_le i hi
  have hrounds := hp.sent_rounds i hi
  rcases Nat.lt_or_ge (r.received i) rounds with hlt | hge
  · refine .inr ?_
    by_cases hturn : r.sent i = r.received i
    · have hahead := hleast _ (next_lt hi)
      exact ⟨i, hi, .inl ⟨hturn, by omega, by omega⟩⟩
    · by_cases hmsg : r.received i < r.sent (prev n i)
      · exact ⟨i, hi, .inr ⟨by omega, hmsg⟩⟩
      · -- nothing has come, so the station before is as far behind and has yet to send
        have hprev := prev_lt hi
        have hbehind := hleast _ hprev
        have hpast := hp.received_le _ hprev
        have hback : next n (prev n i) = i := next_prev hi
        exact ⟨prev n i, hprev, .inl ⟨by omega, by omega, by rw [hback]; omega⟩⟩
  · refine .inl ?_
    intro j hj
    have hall := hleast j hj
    have hlast := hp.received_le j hj
    have hmost := hp.sent_rounds j hj
    omega

theorem moves_start : start.moves n = 0 := by
  have hnone : ∑ i ∈ Finset.range n, start.sent i = 0 := Finset.sum_eq_zero fun _ _ => rfl
  exact congrArg₂ (· + ·) hnone hnone

theorem sum_update_succ (f : ℕ → ℕ) (hi : i < n) :
    ∑ j ∈ Finset.range n, Function.update f i (f i + 1) j = ∑ j ∈ Finset.range n, f j + 1 := by
  have hmem : i ∈ Finset.range n := Finset.mem_range.mpr hi
  rw [Finset.sum_update_of_mem hmem, ← Finset.add_sum_erase _ f hmem, Finset.sdiff_singleton_eq_erase]
  omega

theorem Move.moves_eq (hm : r.Move n rounds cap r') : r'.moves n = r.moves n + 1 := by
  cases hm with
  | @send i hi h =>
    have hsum := sum_update_succ r.sent hi
    show ∑ j ∈ Finset.range n, Function.update r.sent i (r.sent i + 1) j + _ = _
    rw [hsum, moves]
    exact Nat.add_right_comm ..
  | @receive i hi h =>
    have hsum := sum_update_succ r.received hi
    show _ + ∑ j ∈ Finset.range n, Function.update r.received i (r.received i + 1) j = _
    rw [hsum]
    rfl

theorem Paced.moves_le (hp : r.Paced n rounds cap) : r.moves n ≤ 2 * n * rounds := by
  have hsent : ∑ i ∈ Finset.range n, r.sent i ≤ n * rounds := by
    have hsum := Finset.sum_le_card_nsmul (Finset.range n) r.sent rounds
      fun i hi => hp.sent_rounds i (Finset.mem_range.mp hi)
    rwa [Finset.card_range, smul_eq_mul] at hsum
  have hreceived : ∑ i ∈ Finset.range n, r.received i ≤ ∑ i ∈ Finset.range n, r.sent i :=
    Finset.sum_le_sum fun i hi => hp.received_le i (Finset.mem_range.mp hi)
  rw [moves, Nat.mul_assoc]
  omega

end Ring

end P2Poker.Lib
