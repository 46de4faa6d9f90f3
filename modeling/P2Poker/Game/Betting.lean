import P2Poker.Game.Play
import P2Poker.Game.Turn

/-!
# Betting arithmetic

Chips are neither made nor lost, no seat has put in more than the bet level of
the street, and so none of the unchecked `uint64` operations of `Replay` and
`ValidateAction` wraps.
-/

namespace P2Poker.Game
open P2Poker.Lib P2Poker.Crypto

/-! ### Payments -/

theorem toNat_min (a b : UInt64) : (min a b).toNat = min a.toNat b.toNat := by
  show (if a ≤ b then a else b).toNat = min a.toNat b.toNat
  split_ifs with h
  · exact (min_eq_left (UInt64.le_iff_toNat_le.mp h)).symm
  · rw [UInt64.le_iff_toNat_le] at h
    exact (min_eq_right (by omega)).symm

def State.chips (s : State) : ℕ := (s.seatStacks.map UInt64.toNat).sum

theorem sum_map_set (l : List UInt64) (p : ℕ) (x : UInt64) (hp : p < l.length) :
    ((l.set p x).map UInt64.toNat).sum + (l.getD p 0).toNat =
      (l.map UInt64.toNat).sum + x.toNat := by
  induction l generalizing p with
  | nil => simp at hp
  | cons y l ih =>
    cases p with
    | zero =>
      simp only [List.set_cons_zero, List.map_cons, List.sum_cons, List.getD_cons_zero]
      omega
    | succ p =>
      have := ih p (by simpa using hp)
      simp only [List.set_cons_succ, List.map_cons, List.sum_cons, List.getD_cons_succ]
      omega

theorem getD_toNat_le_sum (l : List UInt64) (p : ℕ) :
    (l.getD p 0).toNat ≤ (l.map UInt64.toNat).sum := by
  by_cases hp : p < l.length
  · rw [List.getD_eq_getElem _ _ hp]
    exact List.single_le_sum (fun _ _ => Nat.zero_le _) _
      (List.mem_map.mpr ⟨_, List.getElem_mem hp, rfl⟩)
  · rw [List.getD_eq_default _ _ (by omega)]
    exact Nat.zero_le _

structure State.PaySafe (s : State) (p : ℕ) (cost : UInt64) : Prop where
  stack : cost.toNat ≤ (s.stack p).toNat
  contribution : (s.contribution p).toNat + cost.toNat < 2 ^ 64
  pot : s.pot.toNat + cost.toNat < 2 ^ 64

theorem State.pay_chips {s : State} {p : ℕ} {cost : UInt64} (hp : p < s.seatStacks.length)
    (h : s.PaySafe p cost) :
    (s.pay p cost).chips + (s.pay p cost).pot.toNat = s.chips + s.pot.toNat := by
  have hsum := sum_map_set s.seatStacks p (s.stack p - cost) hp
  have hsub : (s.stack p - cost).toNat = (s.stack p).toNat - cost.toNat :=
    UInt64.toNat_sub_of_le _ _ (UInt64.le_iff_toNat_le.mpr h.stack)
  have hpot : (s.pot + cost).toNat = s.pot.toNat + cost.toNat := by
    rw [UInt64.toNat_add, Nat.mod_eq_of_lt h.pot]
  have hstack := h.stack
  have hget : (s.seatStacks.getD p 0).toNat = (s.stack p).toNat := rfl
  simp only [State.pay, State.chips, hpot]
  rw [hsub, hget] at hsum
  omega

theorem State.pay_contribution {s : State} {p : ℕ} {cost : UInt64}
    (hp : p < s.contributions.length) (q : ℕ) :
    (s.pay p cost).contribution q =
      if p = q then s.contribution p + cost else s.contribution q := by
  simp only [State.contribution, State.pay, getD_set, hp, and_true]

/-! ### The invariant -/

structure State.Leveled (s : State) (n : ℕ) : Prop where
  shaped : s.Shaped n
  level : ∀ p, (s.contribution p).toNat ≤ s.currentBet.toNat

structure State.Solvent (s : State) (n total : ℕ) : Prop extends s.Leveled n where
  conserved : s.chips + s.pot.toNat = total

/-- No `uint64` operation of the replay loop wraps on `e`. -/
def State.ReplaySafe (s : State) (e : Entry) : Prop :=
  let p := e.playerID.toNat
  match e.action.kind with
  | .call => (s.contribution p).toNat ≤ s.currentBet.toNat ∧ s.PaySafe p (s.callCost p)
  | .raise =>
    (s.contribution p).toNat ≤ e.action.amount.toNat ∧ s.PaySafe p (s.raiseCost p e.action.amount)
  | _ => True

/-- No `uint64` operation of `ValidateAction` wraps; the raise cost is computed
only once the raise is known to exceed the bet. -/
def State.ValidateSafe (s : State) (p : ℕ) (a : Action) : Prop :=
  match a.kind with
  | .check => s.contribution p < s.currentBet → (s.contribution p).toNat ≤ s.currentBet.toNat
  | .call => (s.contribution p).toNat ≤ s.currentBet.toNat
  | .raise => s.currentBet < a.amount → (s.contribution p).toNat ≤ a.amount.toNat
  | _ => True

section Leveled
variable {s : State} {n : ℕ}

theorem State.Leveled.callCost_toNat (h : s.Leveled n) (p : ℕ) :
    (s.callCost p).toNat =
      min (s.currentBet.toNat - (s.contribution p).toNat) (s.stack p).toNat := by
  rw [State.callCost, toNat_min, UInt64.toNat_sub_of_le _ _ (UInt64.le_iff_toNat_le.mpr (h.level p))]

theorem State.Leveled.raiseCost_toNat (h : s.Leveled n) (p : ℕ) {raiseTo : UInt64}
    (hr : s.currentBet < raiseTo) :
    (s.raiseCost p raiseTo).toNat =
      min (raiseTo.toNat - (s.contribution p).toNat) (s.stack p).toNat := by
  have hlevel := h.level p
  have hlt := UInt64.lt_iff_toNat_lt.mp hr
  rw [State.raiseCost, toNat_min,
    UInt64.toNat_sub_of_le _ _ (UInt64.le_iff_toNat_le.mpr (by omega))]

theorem State.Leveled.called (h : s.Leveled n) (p : ℕ) :
    (s.contribution p + s.callCost p).toNat = (s.contribution p).toNat + (s.callCost p).toNat ∧
      (s.contribution p + s.callCost p).toNat ≤ s.currentBet.toNat ∧
      (s.contribution p + s.callCost p = s.currentBet ∨ s.stack p - s.callCost p = 0) := by
  have hlevel := h.level p
  have hcost := h.callCost_toNat p
  have hbet := s.currentBet.toNat_lt
  have hsum : (s.contribution p + s.callCost p).toNat =
      (s.contribution p).toNat + (s.callCost p).toNat := by
    rw [UInt64.toNat_add, Nat.mod_eq_of_lt (by omega)]
  refine ⟨hsum, by omega, ?_⟩
  rcases Nat.le_total (s.currentBet.toNat - (s.contribution p).toNat) (s.stack p).toNat with hle | hle
  · left
    apply UInt64.toNat_inj.mp
    omega
  · right
    have heq : s.callCost p = s.stack p := UInt64.toNat_inj.mp (by omega)
    rw [heq, UInt64.sub_self]

theorem State.Leveled.raised (h : s.Leveled n) {p : ℕ} {raiseTo : UInt64}
    (hr : s.currentBet < raiseTo) (hc : raiseTo - s.contribution p ≤ s.stack p) :
    s.contribution p + s.raiseCost p raiseTo = raiseTo := by
  have hlevel := h.level p
  have hlt := UInt64.lt_iff_toNat_lt.mp hr
  have hcost := h.raiseCost_toNat p hr
  have hdiff : (raiseTo - s.contribution p).toNat = raiseTo.toNat - (s.contribution p).toNat :=
    UInt64.toNat_sub_of_le _ _ (UInt64.le_iff_toNat_le.mpr (by omega))
  have hpay := UInt64.le_iff_toNat_le.mp hc
  have hbound := raiseTo.toNat_lt
  apply UInt64.toNat_inj.mp
  rw [UInt64.toNat_add, Nat.mod_eq_of_lt (by omega)]
  omega

theorem State.Leveled.validateSafe (h : s.Leveled n) (p : ℕ) (a : Action) :
    s.ValidateSafe p a := by
  unfold State.ValidateSafe
  have hlevel := h.level p
  cases a.kind with
  | check => exact fun _ => hlevel
  | call => exact hlevel
  | raise =>
    intro hr
    have := UInt64.lt_iff_toNat_lt.mp hr
    omega
  | _ => trivial

end Leveled

section Solvent
variable {s : State} {n total : ℕ}

theorem State.Solvent.pot_le (h : s.Solvent n total) (p : ℕ) :
    s.pot.toNat + (s.stack p).toNat ≤ total := by
  have hstack : (s.stack p).toNat ≤ s.chips := getD_toNat_le_sum s.seatStacks p
  have hc := h.conserved
  omega

theorem State.Solvent.callSafe (h : s.Solvent n total) (ht : total < 2 ^ 64) (p : ℕ) :
    s.PaySafe p (s.callCost p) := by
  have hlevel := h.level p
  have hpot := h.pot_le p
  have hcost := h.callCost_toNat p
  have hbet := s.currentBet.toNat_lt
  exact ⟨by omega, by omega, by omega⟩

theorem State.Solvent.raiseSafe (h : s.Solvent n total) (ht : total < 2 ^ 64) {p : ℕ}
    {raiseTo : UInt64} (hr : s.currentBet < raiseTo) :
    (s.contribution p).toNat ≤ raiseTo.toNat ∧ s.PaySafe p (s.raiseCost p raiseTo) := by
  have hlevel := h.level p
  have hpot := h.pot_le p
  have hlt := UInt64.lt_iff_toNat_lt.mp hr
  have hcost := h.raiseCost_toNat p hr
  have hbound := raiseTo.toNat_lt
  exact ⟨by omega, by omega, by omega, by omega⟩

theorem State.Solvent.replaySafe (h : s.Solvent n total) (ht : total < 2 ^ 64) {e : Entry}
    (hl : e.action.kind = .fold ∨ s.Legal e.playerID.toNat e.action) : s.ReplaySafe e := by
  unfold State.ReplaySafe State.Legal at *
  cases hk : e.action.kind with
  | call => exact ⟨h.level _, h.callSafe ht _⟩
  | raise =>
    rw [hk] at hl
    have hr := hl.resolve_left (by simp)
    exact h.raiseSafe ht hr.1
  | _ => trivial

end Solvent

/-! ### The invariant along the loop -/

theorem Replay.start_leveled (n : UInt8) (stack : UInt64) :
    (Replay.start n stack).state.Leveled n.toNat where
  shaped := Replay.start_shaped n stack
  level p := by simp [Replay.start, State.contribution]

theorem Replay.act_leveled {r : Replay} {n : ℕ} {e : Entry} (h : r.state.Leveled n)
    (hp : e.playerID.toNat < n)
    (hl : e.action.kind = .fold ∨ r.state.Legal e.playerID.toNat e.action) :
    (r.act e).state.Leveled n := by
  have hpc : e.playerID.toNat < r.state.contributions.length := by
    rw [h.shaped.contributions]; exact hp
  refine ⟨Replay.act_shaped h.shaped e, ?_⟩
  intro q
  have hlevel := h.level q
  unfold Replay.act State.Legal at *
  cases hk : e.action.kind with
  | call =>
    simp only [State.pay_contribution hpc, State.pay_currentBet]
    split_ifs with heq
    · exact (h.called e.playerID.toNat).2.1
    · exact hlevel
  | raise =>
    rw [hk] at hl
    obtain ⟨hr, hc⟩ := hl.resolve_left (by simp)
    have hraised := h.raised hr hc
    have hlt := UInt64.lt_iff_toNat_lt.mp hr
    simp only [State.contribution, State.pay, getD_set, hpc, and_true, if_true] at *
    rw [hraised]
    split_ifs with heq
    · exact le_rfl
    · omega
  | _ => exact hlevel

theorem Replay.settle_leveled {r : Replay} {n : ℕ} (h : r.state.Leveled n) :
    r.settle.state.Leveled n := by
  refine ⟨Replay.settle_shaped h.shaped, ?_⟩
  intro p
  have hlevel := h.level p
  unfold Replay.settle
  dsimp only
  split_ifs
  · exact hlevel
  · exact hlevel
  · -- a new street: every contribution is reset to zero
    simp only [State.contribution, List.getD_eq_getElem?_getD, List.getElem?_map]
    cases r.state.contributions[p]? <;> simp
  · exact hlevel

theorem Replay.act_conserved {r : Replay} {n total : ℕ} {e : Entry}
    (h : r.state.Solvent n total) (ht : total < 2 ^ 64) (hp : e.playerID.toNat < n)
    (hl : e.action.kind = .fold ∨ r.state.Legal e.playerID.toNat e.action) :
    (r.act e).state.chips + (r.act e).state.pot.toNat = total := by
  have hsafe := h.replaySafe ht hl
  have hps : e.playerID.toNat < r.state.seatStacks.length := by rw [h.shaped.seatStacks]; exact hp
  unfold Replay.act State.ReplaySafe at *
  cases hk : e.action.kind with
  | call =>
    rw [hk] at hsafe
    exact (State.pay_chips hps hsafe.2).trans h.conserved
  | raise =>
    rw [hk] at hsafe
    exact (State.pay_chips hps hsafe.2).trans h.conserved
  | _ => exact h.conserved

theorem Replay.settle_chips (r : Replay) :
    r.settle.state.chips + r.settle.state.pot.toNat = r.state.chips + r.state.pot.toNat := by
  unfold Replay.settle
  dsimp only
  split_ifs <;> rfl

section Reachable
variable {c : Primitives} {P : Log → Entry → Prop} {n : UInt8} {stack : UInt64} {l : Log}

theorem Grows.leveled (h : Grows c P n stack l) : l.state.Leveled n.toNat := by
  refine h.replayed_induction (fun r => r.state.Leveled n.toNat) (Replay.start_leveled n stack) ?_
  intro l e hg hp _ ih _
  have hseat := hp.seat_lt
  rw [hg.numPlayers] at hseat
  exact Replay.settle_leveled (Replay.act_leveled ih hseat hp.legal)

theorem Grows.solvent (h : Grows c P n stack l) (hS : n.toNat * stack.toNat < 2 ^ 64) :
    l.state.Solvent n.toNat (n.toNat * stack.toNat) := by
  refine h.replayed_induction (fun r => r.state.Solvent n.toNat (n.toNat * stack.toNat))
    ⟨Replay.start_leveled n stack, by simp [Replay.start, State.chips]⟩ ?_
  intro l e hg hp _ ih _
  have hseat := hp.seat_lt
  rw [hg.numPlayers] at hseat
  refine ⟨Replay.settle_leveled (Replay.act_leveled ih.toLeveled hseat hp.legal), ?_⟩
  rw [Replay.settle_chips]
  exact Replay.act_conserved ih hS hseat hp.legal

end Reachable

/-- What `Replay` and `ValidateAction` compute on a log is exact arithmetic. -/
structure BettingSound (n : UInt8) (stack : UInt64) (l : Log) : Prop where
  conserved : l.state.chips + l.state.pot.toNat = n.toNat * stack.toNat
  level : ∀ p < n.toNat, l.state.contribution p ≤ l.state.currentBet
  replaySafe : ∀ pre e post, l.entries = pre ++ e :: post →
    (replay pre n stack).handOver = false → (replay pre n stack).ReplaySafe e
  validateSafe : ∀ p < n.toNat, ∀ a, l.state.ValidateSafe p a
  checkOrCall : l.state.handOver = false →
    Xor (l.state.validateAction l.expectedNextPlayer ⟨.check, 0⟩ = .ok ())
      (l.state.validateAction l.expectedNextPlayer ⟨.call, 0⟩ = .ok ())

theorem State.Leveled.check_xor_call {s : State} {n : ℕ} (h : s.Leveled n) {p : UInt8}
    (hover : s.handOver = false) (hp : p.toNat < n) (hf : s.isFolded p.toNat = false) :
    Xor (s.validateAction p ⟨.check, 0⟩ = .ok ()) (s.validateAction p ⟨.call, 0⟩ = .ok ()) := by
  have hlevel := h.level p.toNat
  have howed : (s.currentBet - s.contribution p.toNat).toNat =
      s.currentBet.toNat - (s.contribution p.toNat).toNat :=
    UInt64.toNat_sub_of_le _ _ (UInt64.le_iff_toNat_le.mpr hlevel)
  have hzero : s.currentBet - s.contribution p.toNat = 0 ↔
      s.currentBet ≤ s.contribution p.toNat := by
    rw [← UInt64.toNat_inj, howed, UInt64.le_iff_toNat_le]
    simp only [UInt64.toNat_zero]
    omega
  rw [State.validateAction_ok_iff, State.validateAction_ok_iff, h.shaped.seatStacks]
  simp only [hover, hp, hf, State.Legal, true_and, ne_eq, hzero]
  by_cases hle : s.currentBet ≤ s.contribution p.toNat
  · exact Or.inl ⟨hle, not_not.mpr hle⟩
  · exact Or.inr ⟨hle, hle⟩

theorem betting_arithmetic_sound (c : Primitives) (n : UInt8) (stack : UInt64) (hn : 2 ≤ n.toNat)
    (hS : n.toNat * stack.toNat < 2 ^ 64) (l : Log) (hl : Reachable c n stack l) :
    BettingSound n stack l where
  conserved := (hl.solvent hS).conserved
  level p _ := UInt64.le_iff_toNat_le.mpr (hl.leveled.level p)
  replaySafe pre e post hsplit _ := by
    obtain ⟨l₀, hg, hpre, ha, _⟩ := hl.split hsplit
    have hsafe := (hg.solvent hS).replaySafe hS ha.playable.legal
    rwa [hg.state_eq_replay, hpre] at hsafe
  validateSafe p _ a := hl.leveled.validateSafe p a
  checkOrCall hover := by
    obtain ⟨hlt, hf⟩ := expectedNextPlayer_unfolded hl hn hover
    exact hl.leveled.check_xor_call hover hlt hf

theorem betting_arithmetic_sound_all_in :
    BettingSound 3 100 ((newLog 3 100).play .transparent seatKey
      [⟨.raise, 40⟩, ⟨.raise, 100⟩, ⟨.call, 0⟩]) :=
  betting_arithmetic_sound .transparent 3 100 (by decide) (by decide) _
    (TurnReachable.play .new (by decide +kernel) (by decide)).reachable

end P2Poker.Game
