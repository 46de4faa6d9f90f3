import P2Poker.Game.AutoFold
import P2Poker.Game.Betting

/-!
# Every hand ends

The counter of owed actions stays between one and the number of unfolded
seats. A raise refills it, but moves at least one chip into the pot, so the
actions made, the actions owed and the streets left are paid for by the pot.
-/

namespace P2Poker.Game
open P2Poker.Lib P2Poker.Crypto

/-! ### The counter -/

def Replay.Paced (r : Replay) : Prop :=
  r.state.handOver = false → 1 ≤ r.unsettled ∧ r.unsettled ≤ r.state.numNonFolded

theorem Replay.settle_paced {r : Replay} (h : 0 ≤ r.unsettled)
    (hle : r.unsettled ≤ r.state.numNonFolded) : r.settle.Paced := by
  unfold Replay.Paced Replay.settle
  dsimp only
  split_ifs with h1 h2 h3
  · intro hover
    simp at hover
  · intro hover
    simp at hover
  · intro _
    refine ⟨?_, le_rfl⟩
    show (1 : ℤ) ≤ (r.state.numNonFolded : ℤ)
    omega
  · exact fun _ => ⟨by omega, hle⟩

theorem Replay.act_unsettled {r : Replay} {e : Entry} :
    (r.act e).unsettled =
      match e.action.kind with
      | .raise => (r.state.numNonFolded : ℤ) - 1
      | .unknown _ => r.unsettled
      | _ => r.unsettled - 1 := by
  unfold Replay.act
  cases e.action.kind <;> rfl

theorem Replay.act_numNonFolded_of_ne {r : Replay} {e : Entry} (h : e.action.kind ≠ .fold) :
    (r.act e).state.numNonFolded = r.state.numNonFolded := by
  unfold State.numNonFolded
  rw [Replay.act_folded_of_ne h]

theorem Replay.act_numNonFolded_fold {r : Replay} {e : Entry} (h : e.action.kind = .fold)
    (hp : e.playerID.toNat < r.state.folded.length)
    (hf : r.state.isFolded e.playerID.toNat = false) :
    (r.act e).state.numNonFolded + 1 = r.state.numNonFolded := by
  unfold State.numNonFolded
  rw [Replay.act_folded_fold h]
  exact countP_not_set_true _ _ hp hf

theorem Replay.act_paced {l : Log} {e : Entry} (hp : Playable l e) (h : l.replayed.Paced)
    (hlive : l.replayed.Live) (hover : l.replayed.state.handOver = false) :
    0 ≤ (l.replayed.act e).unsettled ∧
      (l.replayed.act e).unsettled ≤ (l.replayed.act e).state.numNonFolded := by
  obtain ⟨hlow, hhigh⟩ := h hover
  have htwo := (hlive hover).1
  rw [Replay.act_unsettled]
  cases hk : e.action.kind with
  | fold =>
    have hlen := l.state_shaped.folded
    rw [Log.state_eq] at hlen
    have hcount := Replay.act_numNonFolded_fold (r := l.replayed) hk
      (by rw [hlen]; exact hp.seat_lt) hp.unfolded
    exact ⟨by dsimp only; omega, by dsimp only; omega⟩
  | unknown k =>
    have hl := hp.legal
    simp only [hk, State.Legal] at hl
    simp at hl
  | raise =>
    rw [Replay.act_numNonFolded_of_ne (by rw [hk]; simp)]
    exact ⟨by dsimp only; omega, by dsimp only; omega⟩
  | _ =>
    rw [Replay.act_numNonFolded_of_ne (by rw [hk]; simp)]
    exact ⟨by dsimp only; omega, by dsimp only; omega⟩

section Reachable
variable {c : Primitives} {P : Log → Entry → Prop} {n : UInt8} {stack : UInt64} {l : Log}

theorem Replay.start_paced (hn : 2 ≤ n.toNat) : (Replay.start n stack).Paced := by
  intro _
  simp only [Replay.start, State.numNonFolded, List.countP_replicate, Bool.not_false, if_true]
  omega

theorem Grows.paced (h : Grows c P n stack l) (hn : 2 ≤ n.toNat) : l.replayed.Paced := by
  refine h.replayed_induction Replay.Paced (Replay.start_paced hn) ?_
  intro l e hg hp _ ih hover
  obtain ⟨hlow, hhigh⟩ := Replay.act_paced hp ih (hg.live hn) hover
  exact Replay.settle_paced hlow hhigh

/-! ### The measure -/

theorem Street.index_le_three {s : Street} (h : s ≠ .showdown) : s.index ≤ 3 := by
  cases s <;> simp [Street.index] at *

theorem Street.next_index {s : Street} (h : s ≠ .showdown) : s.next.index = s.index + 1 := by
  cases s <;> simp [Street.index, Street.next] at *

theorem Street.index_next_le (s : Street) : s.next.index ≤ s.index + 1 := by
  cases s <;> decide

/-- `used` actions made, those owed and those of the streets to come are covered
by four rounds of the table and `n - 1` actions for every chip in the pot. -/
def Replay.Covered (n used : ℕ) (r : Replay) : Prop :=
  r.state.handOver = false →
    (used : ℤ) + r.unsettled + n * (3 - r.state.street.index : ℤ) ≤
      4 * n + (n - 1 : ℤ) * r.state.pot.toNat

theorem Replay.settle_covered {n used : ℕ} {r : Replay} (hle : r.state.numNonFolded ≤ n)
    (hstreet : r.state.street ≠ .showdown)
    (h : (used : ℤ) + r.unsettled + n * (3 - r.state.street.index : ℤ) ≤
      4 * n + (n - 1 : ℤ) * r.state.pot.toNat) : r.settle.Covered n used := by
  unfold Replay.Covered Replay.settle
  dsimp only
  split_ifs with h1 h2 h3
  · intro hover
    simp at hover
  · intro hover
    simp at hover
  · intro _
    show (used : ℤ) + (r.state.numNonFolded : ℤ) + n * (3 - (r.state.street.next.index : ℤ)) ≤ _
    rw [Street.next_index hstreet]
    push_cast
    have hmul : (n : ℤ) * (3 - (r.state.street.index + 1 : ℤ)) =
        n * (3 - r.state.street.index : ℤ) - n := by ring
    rw [hmul]
    have : (r.state.numNonFolded : ℤ) ≤ n := by exact_mod_cast hle
    rw [h2] at h
    omega
  · exact fun _ => h

theorem State.Solvent.raise_pot {s : State} {n total p : ℕ} {raiseTo : UInt64}
    (h : s.Solvent n total) (ht : total < 2 ^ 64) (hr : s.currentBet < raiseTo)
    (hc : raiseTo - s.contribution p ≤ s.stack p) :
    s.pot.toNat + 1 ≤ (s.pay p (s.raiseCost p raiseTo)).pot.toNat := by
  have hsafe := (h.raiseSafe ht (p := p) hr).2
  have hraised := congrArg UInt64.toNat (h.raised hr hc)
  rw [UInt64.toNat_add, Nat.mod_eq_of_lt hsafe.contribution] at hraised
  have hlevel := h.level p
  have hlt := UInt64.lt_iff_toNat_lt.mp hr
  have hpot : (s.pot + s.raiseCost p raiseTo).toNat =
      s.pot.toNat + (s.raiseCost p raiseTo).toNat := by
    rw [UInt64.toNat_add, Nat.mod_eq_of_lt hsafe.pot]
  simp only [State.pay, hpot]
  omega

theorem State.Solvent.call_pot {s : State} {n total p : ℕ} (h : s.Solvent n total)
    (ht : total < 2 ^ 64) : s.pot.toNat ≤ (s.pay p (s.callCost p)).pot.toNat := by
  have hsafe := h.callSafe ht p
  have hpot : (s.pot + s.callCost p).toNat = s.pot.toNat + (s.callCost p).toNat := by
    rw [UInt64.toNat_add, Nat.mod_eq_of_lt hsafe.pot]
  simp only [State.pay, hpot]
  omega

theorem Replay.act_covered {l : Log} {e : Entry} {n used total : ℕ} (hn : 2 ≤ n)
    (hp : Playable l e) (hsolv : l.state.Solvent n total) (ht : total < 2 ^ 64)
    (hpaced : l.replayed.Paced) (hle : l.state.numNonFolded ≤ n)
    (hover : l.replayed.state.handOver = false) (h : l.replayed.Covered n used) :
    ((used + 1 : ℕ) : ℤ) + (l.replayed.act e).unsettled +
        n * (3 - (l.replayed.act e).state.street.index : ℤ) ≤
      4 * n + (n - 1 : ℤ) * (l.replayed.act e).state.pot.toNat := by
  have hcov := h hover
  have hlow := (hpaced hover).1
  have hnpos : (0 : ℤ) ≤ (n : ℤ) - 1 := by omega
  rw [Replay.act_unsettled, Replay.act_street]
  push_cast
  -- what is left to show, once the pot is known to have grown by `gain`
  have key : ∀ (gain owed : ℤ) (pot : ℕ), (l.replayed.state.pot.toNat : ℤ) + gain ≤ pot →
      owed + 1 ≤ l.replayed.unsettled + (n - 1 : ℤ) * gain →
      (used : ℤ) + 1 + owed + n * (3 - l.replayed.state.street.index : ℤ) ≤
        4 * n + (n - 1 : ℤ) * pot := by
    intro gain owed pot hpot howed
    have hmul := mul_le_mul_of_nonneg_left hpot hnpos
    rw [mul_add] at hmul
    omega
  cases hk : e.action.kind with
  | unknown k =>
    have hl := hp.legal
    simp only [hk, State.Legal] at hl
    simp at hl
  | raise =>
    have hl := hp.legal.resolve_left (by rw [hk]; simp)
    simp only [State.Legal, hk] at hl
    have hpot := hsolv.raise_pot ht hl.1 hl.2
    have hact : (l.replayed.act e).state.pot =
        (l.state.pay e.playerID.toNat (l.state.raiseCost e.playerID.toNat e.action.amount)).pot := by
      simp only [Replay.act, hk]
      rfl
    rw [hact]
    refine key 1 _ _ (by exact_mod_cast hpot) ?_
    have : (l.replayed.state.numNonFolded : ℤ) ≤ n := by exact_mod_cast hle
    dsimp only
    omega
  | call =>
    have hpot := hsolv.call_pot (p := e.playerID.toNat) ht
    have hact : (l.replayed.act e).state.pot =
        (l.state.pay e.playerID.toNat (l.state.callCost e.playerID.toNat)).pot := by
      simp only [Replay.act, hk]
      rfl
    rw [hact]
    refine key 0 _ _ (by rw [add_zero]; exact_mod_cast hpot) ?_
    dsimp only
    omega
  | _ =>
    have hact : (l.replayed.act e).state.pot = l.replayed.state.pot := by
      simp only [Replay.act, hk]
    rw [hact]
    refine key 0 _ _ (by rw [add_zero]) ?_
    dsimp only
    omega

theorem Grows.covered (h : Grows c P n stack l) (hn : 2 ≤ n.toNat)
    (hS : n.toNat * stack.toNat < 2 ^ 64) : l.replayed.Covered n.toNat l.entries.length := by
  induction h with
  | new =>
    intro _
    simp only [newLog, Log.replayed, Replay.run, List.foldl_nil, Replay.start, List.length_nil,
      Street.index]
    push_cast
    ring_nf
    simp
  | @append l e hg ha hp ih =>
    have hlen : (l.append e).entries.length = l.entries.length + 1 := by
      simp only [Log.append, List.length_append, List.length_cons, List.length_nil]
    rw [Log.replayed_append, hlen]
    cases hover : l.replayed.state.handOver with
    | true =>
      rw [Replay.step_of_over hover]
      intro hfalse
      rw [hover] at hfalse
      cases hfalse
    | false =>
      rw [Replay.step_of_live hover]
      have hle : l.state.numNonFolded ≤ n.toNat := by
        have := numNonFolded_le l
        rwa [hg.numPlayers] at this
      have hplay := ha.playable
      have hact := Replay.act_covered hn hplay (hg.solvent hS) hS (hg.paced hn) hle hover ih
      have hstreet := (hg.live hn hover).2
      refine Replay.settle_covered ?_ (by rw [Replay.act_street]; exact hstreet) hact
      have hn' := numNonFolded_le (l.append e)
      have hcount : (l.append e).state.numNonFolded = (l.replayed.act e).state.numNonFolded := by
        unfold State.numNonFolded
        rw [Log.state_eq, Log.replayed_append, Replay.step_of_live hover, Replay.settle_folded]
      rw [hcount] at hn'
      have hnum : (l.append e).numPlayers = n := hg.numPlayers
      rwa [hnum] at hn'

end Reachable

theorem hand_ends (c : Primitives) (n : UInt8) (stack : UInt64) (hn : 2 ≤ n.toNat)
    (hS : n.toNat * stack.toNat < 2 ^ 64) (l : Log) (hl : Reachable c n stack l) :
    (4 * n.toNat + n.toNat * (n.toNat - 1) * stack.toNat ≤ l.entries.length →
      l.state.handOver = true) ∧
    ∀ pre e post, l.entries = pre ++ e :: post →
      (replay (pre ++ [e]) n stack).handOver = false →
      1 ≤ (Replay.run n stack (pre ++ [e])).unsettled ∧
        (Replay.run n stack (pre ++ [e])).unsettled ≤
          (replay (pre ++ [e]) n stack).numNonFolded := by
  constructor
  · intro hlen
    by_contra hover
    have hlive : l.replayed.state.handOver = false := by simpa [Log.state_eq] using hover
    have hcov := hl.covered hn hS hlive
    have hlow := (hl.paced hn hlive).1
    have hstreet := Street.index_le_three (hl.live hn hlive).2
    have hpot : l.replayed.state.pot.toNat ≤ n.toNat * stack.toNat := by
      have := (hl.solvent hS).conserved
      rw [Log.state_eq] at this
      omega
    have hleft : (0 : ℤ) ≤ n.toNat * (3 - l.replayed.state.street.index : ℤ) :=
      mul_nonneg (by omega) (by omega)
    have hpaid : ((n.toNat : ℤ) - 1) * l.replayed.state.pot.toNat ≤
        (n.toNat - 1 : ℤ) * (n.toNat * stack.toNat : ℕ) :=
      mul_le_mul_of_nonneg_left (by exact_mod_cast hpot) (by omega)
    have hbound : (4 * n.toNat : ℤ) + (n.toNat - 1 : ℤ) * (n.toNat * stack.toNat : ℕ) ≤
        l.entries.length := by
      have hcast : ((n.toNat - 1 : ℕ) : ℤ) = (n.toNat : ℤ) - 1 := by omega
      calc (4 * n.toNat : ℤ) + (n.toNat - 1 : ℤ) * (n.toNat * stack.toNat : ℕ)
          = ((4 * n.toNat + n.toNat * (n.toNat - 1) * stack.toNat : ℕ) : ℤ) := by
            push_cast
            rw [hcast]
            ring
        _ ≤ l.entries.length := by exact_mod_cast hlen
    omega
  · intro pre e post hsplit hover
    obtain ⟨l₀, hg, hpre, ha, hp⟩ := hl.split hsplit
    have hpaced := (Grows.append hg ha hp).paced hn
    have hrun : (l₀.append e).replayed = Replay.run n stack (pre ++ [e]) := by
      simp only [Log.replayed, Log.append, hg.numPlayers, hg.startingStack, hpre]
    rw [hrun] at hpaced
    exact hpaced hover

/-- Two seats with one chip each: one is raised to its last chip, and both check to the end. -/
def calledDown : Log :=
  (newLog 2 1).play .transparent seatKey ([⟨.check, 0⟩, ⟨.raise, 1⟩, ⟨.call, 0⟩] ++ List.replicate 6 ⟨.check, 0⟩)

theorem calledDown_reachable : Reachable .transparent 2 1 calledDown :=
  (TurnReachable.play .new (by decide +kernel) (by decide)).reachable

theorem calledDown_folded :
    calledDown.verifyAutoFoldEntry .transparent (calledDown.autoFoldBy 0 [1]) seatPublicKeys = .ok () :=
  autoFoldBy_accepted ⟨rfl, rfl, by decide, by decide +kernel, by decide +kernel⟩ (by decide +kernel)

/- Seat 1 folds seat 0 after the showdown, and the log has as many entries as a hand can need. -/
theorem hand_ends_checked_down :
    (calledDown.append (calledDown.autoFoldBy 0 [1])).entries.length = 10 ∧
      (calledDown.append (calledDown.autoFoldBy 0 [1])).state.handOver = true :=
  ⟨by decide +kernel,
    (hand_ends .transparent 2 1 (by decide) (by decide) _
      (.append calledDown_reachable (.of_autoFold calledDown_folded) trivial)).1 (by decide +kernel)⟩

/-! ### How a hand ends -/

theorem Replay.settle_street_cases (r : Replay) :
    r.settle.state.street = r.state.street ∨ r.settle.state.street = r.state.street.next := by
  unfold Replay.settle
  dsimp only
  split_ifs
  · exact .inl rfl
  · exact .inr rfl
  · exact .inr rfl
  · exact .inl rfl

theorem Log.street_append (l : Log) (e : Entry) :
    (l.append e).state.street = l.state.street ∨ (l.append e).state.street = l.state.street.next := by
  rw [Log.state_eq, Log.state_eq, Log.replayed_append]
  cases hover : l.replayed.state.handOver with
  | true =>
    rw [Replay.step_of_over hover]
    exact .inl rfl
  | false =>
    rw [Replay.step_of_live hover, ← Replay.act_street l.replayed e]
    exact Replay.settle_street_cases _

section Over
variable {c : Primitives} {P : Log → Entry → Prop} {n : UInt8} {stack : UInt64} {l : Log}

/- A hand ends by folds, with the last seat still in, or at the showdown. -/
def Replay.Ended (r : Replay) : Prop :=
  1 ≤ r.state.numNonFolded ∧
    (r.state.handOver = true → r.state.street = .showdown ∨ r.state.numNonFolded = 1)

theorem Replay.settle_ended {r : Replay} (hpos : 1 ≤ r.state.numNonFolded)
    (hlive : r.state.handOver = false) : r.settle.Ended := by
  have hsame : r.settle.state.numNonFolded = r.state.numNonFolded := by
    rw [State.numNonFolded, State.numNonFolded, Replay.settle_folded]
  refine ⟨hsame ▸ hpos, ?_⟩
  rw [hsame]
  unfold Replay.settle
  dsimp only
  split_ifs with h1 h2 h3
  · exact fun _ => .inr (by omega)
  · exact fun _ => .inl h3
  · intro hover
    rw [show r.state.handOver = true from hover] at hlive
    cases hlive
  · intro hover
    rw [hover] at hlive
    cases hlive

theorem Replay.act_handOver (r : Replay) (e : Entry) : (r.act e).state.handOver = r.state.handOver := by
  unfold Replay.act
  cases e.action.kind <;> rfl

theorem Grows.ended (h : Grows c P n stack l) (hn : 2 ≤ n.toNat) : l.replayed.Ended := by
  refine h.replayed_induction Replay.Ended ⟨?_, fun hover => (by cases hover)⟩ ?_
  · have := (Replay.start_live stack hn rfl).1
    omega
  · intro l e hg hp _ _ hover
    refine Replay.settle_ended ?_ (by rw [Replay.act_handOver, hover])
    have htwo := (hg.live hn hover).1
    by_cases hk : e.action.kind = .fold
    · have hlen := l.state_shaped.folded
      rw [Log.state_eq] at hlen
      have := Replay.act_numNonFolded_fold (r := l.replayed) hk (by rw [hlen]; exact hp.seat_lt) hp.unfolded
      omega
    · rw [Replay.act_numNonFolded_of_ne hk]
      omega

theorem Grows.handOver_iff (h : Grows c P n stack l) (hn : 2 ≤ n.toNat) :
    l.state.handOver = true ↔ l.state.street = .showdown ∨ l.state.numNonFolded = 1 := by
  refine ⟨(h.ended hn).2, fun hend => ?_⟩
  by_contra hnot
  have hlive : l.replayed.state.handOver = false := Bool.not_eq_true _ ▸ hnot
  obtain ⟨htwo, hstreet⟩ := h.live hn hlive
  rcases hend with hshow | hone
  · exact hstreet hshow
  · rw [Log.state_eq] at hone
    omega

end Over

end P2Poker.Game
