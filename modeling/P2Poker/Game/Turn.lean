import P2Poker.Game.Accept

/-!
# Whose turn it is

While the hand is on, at least two seats are unfolded, and `ExpectedNextPlayer`
is the first unfolded seat met from the round number on.
-/

namespace P2Poker.Game
open P2Poker.Lib P2Poker.Crypto

/-! ### Lists indexed by seat -/

theorem getD_set {α : Type*} (l : List α) (p q : ℕ) (x d : α) :
    (l.set p x).getD q d = if p = q ∧ p < l.length then x else l.getD q d := by
  simp only [List.getD_eq_getElem?_getD, List.getElem?_set]
  by_cases hpq : p = q
  · by_cases hlt : p < l.length
    · simp [hpq, hpq ▸ hlt]
    · simp [hpq, hpq ▸ hlt]
  · simp [hpq]

theorem countP_not_set_true (l : List Bool) (p : ℕ) (hp : p < l.length) (hf : l.getD p false = false) :
    (l.set p true).countP (fun f => !f) + 1 = l.countP fun f => !f := by
  induction l generalizing p with
  | nil => simp at hp
  | cons b l ih =>
    cases p with
    | zero =>
      have hb : b = false := by simpa using hf
      simp [hb]
    | succ p =>
      have := ih p (by simpa using hp) (by simpa using hf)
      simp only [List.set_cons_succ, List.countP_cons]
      omega

theorem exists_unfolded_ne (l : List Bool) (h : 2 ≤ l.countP fun f => !f) (p : ℕ) :
    ∃ q, q < l.length ∧ q ≠ p ∧ l.getD q false = false := by
  by_contra hn
  push Not at hn
  have hall : ∀ q, q < l.length → q ≠ p → l.getD q false = true := fun q hq hne => by
    simpa using hn q hq hne
  have hle : (l.countP fun f => !f) ≤ 1 := by
    clear h hn
    induction l generalizing p with
    | nil => simp
    | cons b l ih =>
      simp only [List.countP_cons]
      cases p with
      | zero =>
        have hz : (l.countP fun f => !f) = 0 := by
          rw [List.countP_eq_zero]
          intro f hf
          obtain ⟨i, hi, hget⟩ := List.getElem_of_mem hf
          have := hall (i + 1) (by simpa using hi) (by omega)
          simp only [List.getD_cons_succ, List.getD_eq_getElem _ _ hi, hget] at this
          simp [this]
        rw [hz]
        cases b <;> simp
      | succ p =>
        have hb : b = true := by simpa using hall 0 (by simp) (by omega)
        have := ih p (fun q hq hne => by simpa using hall (q + 1) (by simpa using hq) (by omega))
        simpa [hb] using this
  omega

theorem two_le_countP_not {l : List Bool} {p q : ℕ} (hne : p ≠ q) (hp : p < l.length) (hq : q < l.length)
    (hpf : l.getD p false = false) (hqf : l.getD q false = false) : 2 ≤ l.countP fun f => !f := by
  have hfirst := countP_not_set_true l p hp hpf
  have hsecond := countP_not_set_true (l.set p true) q (by rwa [List.length_set])
    (by rwa [getD_set, if_neg fun h => hne h.1])
  omega

/-! ### Folds -/

theorem numNonFolded_le (l : Log) : l.state.numNonFolded ≤ l.numPlayers.toNat := by
  rw [← l.state_shaped.folded]
  exact List.countP_le_length

@[simp] theorem State.pay_folded (s : State) (p : ℕ) (cost : UInt64) :
    (s.pay p cost).folded = s.folded := rfl

@[simp] theorem State.pay_currentBet (s : State) (p : ℕ) (cost : UInt64) :
    (s.pay p cost).currentBet = s.currentBet := rfl

@[simp] theorem State.pay_handOver (s : State) (p : ℕ) (cost : UInt64) :
    (s.pay p cost).handOver = s.handOver := rfl

@[simp] theorem State.pay_street (s : State) (p : ℕ) (cost : UInt64) :
    (s.pay p cost).street = s.street := rfl

theorem Replay.act_folded_of_ne {r : Replay} {e : Entry} (h : e.action.kind ≠ .fold) :
    (r.act e).state.folded = r.state.folded := by
  unfold Replay.act
  cases hk : e.action.kind with
  | fold => exact absurd hk h
  | _ => rfl

theorem Replay.act_folded_fold {r : Replay} {e : Entry} (h : e.action.kind = .fold) :
    (r.act e).state.folded = r.state.folded.set e.playerID.toNat true := by
  simp only [Replay.act, h]

theorem Replay.act_street (r : Replay) (e : Entry) : (r.act e).state.street = r.state.street := by
  unfold Replay.act
  cases e.action.kind <;> rfl

@[simp] theorem Replay.settle_folded (r : Replay) : r.settle.state.folded = r.state.folded := by
  unfold Replay.settle
  dsimp only
  split_ifs <;> rfl

/-! ### The hand is on -/

/-- A hand that is not over has at least two unfolded seats and is before the
showdown. -/
def Replay.Live (r : Replay) : Prop :=
  r.state.handOver = false → 2 ≤ r.state.numNonFolded ∧ r.state.street ≠ .showdown

theorem Replay.settle_live {r : Replay} (h : r.state.street ≠ .showdown) : r.settle.Live := by
  unfold Replay.Live Replay.settle
  dsimp only
  split_ifs with h1 h2 h3
  · intro hover
    simp at hover
  · intro hover
    simp at hover
  · exact fun _ => ⟨Nat.lt_of_not_le h1, h3⟩
  · exact fun _ => ⟨by omega, h⟩

theorem Replay.start_live {n : UInt8} (stack : UInt64) (hn : 2 ≤ n.toNat) :
    (Replay.start n stack).Live := by
  intro _
  refine ⟨?_, by simp [Replay.start]⟩
  simpa [Replay.start, State.numNonFolded, List.countP_replicate] using hn

section Live
variable {c : Primitives} {P : Log → Entry → Prop} {n : UInt8} {stack : UInt64} {l : Log}

theorem Grows.live (h : Grows c P n stack l) (hn : 2 ≤ n.toNat) : l.replayed.Live := by
  refine h.replayed_induction Replay.Live (Replay.start_live stack hn) ?_
  intro l e _ _ _ ih hover
  apply Replay.settle_live
  rw [Replay.act_street]
  exact (ih hover).2

theorem expectedNextPlayer_first (h : Grows c P n stack l) (hn : 2 ≤ n.toNat)
    (hover : l.state.handOver = false) :
    ∃ d, FirstAt n.toNat l.roundID.toNat (fun p => !l.state.isFolded p) d
      l.expectedNextPlayer.toNat := by
  have hlive := (h.live hn hover).1
  have hshape := l.state_shaped.folded
  rw [h.numPlayers] at hshape
  obtain ⟨q, hq, _, hfold⟩ := exists_unfolded_ne l.state.folded hlive n.toNat
  rw [hshape] at hq
  obtain ⟨q', hq'⟩ := firstFrom_isSome (n := n.toNat) (r := l.roundID.toNat % n.toNat)
    (p := fun p => !l.state.isFolded p) hq (by simp only [State.isFolded, hfold, Bool.not_false])
  obtain ⟨d, hd⟩ := firstFrom_eq_some_iff.mp hq'
  have hne : n ≠ 0 := by
    rintro rfl
    simp at hn
  have hnext : l.expectedNextPlayer.toNat = q' := by
    have hlt := hd.lt
    have hbound := n.toNat_lt
    simp only [Log.expectedNextPlayer, h.numPlayers, hne, if_false, hq', Option.getD_some]
    rw [toNat_ofNat_byte, Nat.mod_eq_of_lt (by omega)]
  rw [hnext]
  exact ⟨d, FirstAt.mod_start.mp hd⟩

theorem expectedNextPlayer_unfolded (h : Grows c P n stack l) (hn : 2 ≤ n.toNat)
    (hover : l.state.handOver = false) :
    l.expectedNextPlayer.toNat < n.toNat ∧
      l.state.isFolded l.expectedNextPlayer.toNat = false := by
  obtain ⟨d, hd⟩ := expectedNextPlayer_first h hn hover
  exact ⟨hd.lt, by simpa using hd.2.2.1⟩

end Live

end P2Poker.Game
