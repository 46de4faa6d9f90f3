import P2Poker.Game.Play
import P2Poker.Game.Turn

/-!
# Turn rotation

`ExpectedNextPlayer` starts from the round number and skips folded seats. It
rotates as long as the seat the round number points at is the one that acts.
When that seat is folded, a later seat acts in its place and, unless it folds,
is asked again in the next round.
-/

namespace P2Poker.Game
open P2Poker.Lib P2Poker.Crypto

def State.NextAfter (st : State) (n s q : ℕ) : Prop :=
  ∃ d, FirstAt n (s + 1) (fun p => !st.isFolded p) d q

/-- The turn after the last entry `e`: the first unfolded seat after the one
that acted, which is not that seat again. -/
def Log.Rotates (l : Log) (n : ℕ) (e : Entry) : Prop :=
  l.state.NextAfter n e.playerID.toNat l.expectedNextPlayer.toNat ∧
    l.expectedNextPlayer ≠ e.playerID

theorem State.nextAfter_congr {st : State} {n s r q d : ℕ} (h : r % n = s % n)
    (hq : FirstAt n (r + 1) (fun p => !st.isFolded p) d q) : st.NextAfter n s q := by
  refine ⟨d, FirstAt.mod_start.mp ?_⟩
  rw [Nat.add_mod, ← h, ← Nat.add_mod]
  exact FirstAt.mod_start.mpr hq

section Turns
variable {c : Primitives} {n : UInt8} {stack : UInt64} {l : Log} {e : Entry}

theorem TurnReachable.length_lt (h : TurnReachable c n stack l) : l.entries.length < 2 ^ 63 := by
  cases h with
  | new => simp [newLog]
  | append _ _ hp => simpa [Log.append] using hp.2

theorem roundID_toNat (h : l.entries.length < 2 ^ 63) : l.roundID.toNat = l.entries.length := by
  rw [Log.roundID, UInt64.toNat_ofNat', Nat.mod_eq_of_lt (by omega)]

theorem isFolded_append (hover : l.state.handOver = false)
    (hp : e.playerID.toNat < l.numPlayers.toNat) (q : ℕ) :
    (l.append e).state.isFolded q =
      if e.action.kind = .fold ∧ q = e.playerID.toNat then true else l.state.isFolded q := by
  have hlen := l.state_shaped.folded
  rw [Log.state_eq, Log.replayed_append, Replay.step_of_live (r := l.replayed) hover]
  unfold State.isFolded
  rw [Replay.settle_folded]
  by_cases hk : e.action.kind = .fold
  · rw [Replay.act_folded_fold hk, getD_set, ← Log.state_eq, hlen]
    by_cases hq : q = e.playerID.toNat
    · simp [hk, hq, hp]
    · simp [hk, hq, Ne.symm hq]
  · rw [Replay.act_folded_of_ne hk, ← Log.state_eq]
    simp [hk]

theorem Log.isFolded_append_of_folded {q : ℕ} (h : l.state.isFolded q = true) :
    (l.append e).state.isFolded q = true := by
  cases hover : l.state.handOver with
  | true =>
    rw [Log.state_eq, Log.replayed_append, Replay.step_of_over (r := l.replayed) hover]
    exact h
  | false =>
    rw [Log.state_eq, Log.replayed_append, Replay.step_of_live (r := l.replayed) hover]
    unfold State.isFolded at h ⊢
    rw [Replay.settle_folded]
    by_cases hk : e.action.kind = .fold
    · rw [Replay.act_folded_fold hk, getD_set]
      split_ifs
      · rfl
      · exact h
    · rwa [Replay.act_folded_of_ne hk]

theorem Log.isFolded_of_upTo {j k q : ℕ} (hjk : j ≤ k) (h : (l.upTo j).state.isFolded q = true) :
    (l.upTo k).state.isFolded q = true :=
  Log.upTo_induct (P := fun l => l.state.isFolded q = true) hjk h
    fun _ _ _ hi => Log.isFolded_append_of_folded hi

theorem handOver_of_append (h : (l.append e).state.handOver = false) :
    l.state.handOver = false := by
  cases hover : l.state.handOver with
  | false => rfl
  | true =>
    rw [Log.state_eq, Log.replayed_append, Replay.step_of_over (r := l.replayed) hover] at h
    exact absurd h (by rw [← Log.state_eq, hover]; simp)

theorem expectedNextPlayer_ne_of_nextAfter (hl : TurnReachable c n stack l) (hn : 2 ≤ n.toNat)
    (hover : l.state.handOver = false) {s : UInt8} (hs : s.toNat < n.toNat)
    (h : l.state.NextAfter n.toNat s.toNat l.expectedNextPlayer.toNat) :
    l.expectedNextPlayer ≠ s := by
  obtain ⟨d, hd⟩ := h
  obtain ⟨q, hq, hne, hf⟩ := exists_unfolded_ne l.state.folded (hl.live hn hover).1 s.toNat
  have hlen := l.state_shaped.folded
  rw [hl.numPlayers] at hlen
  have hval := hd.ne_start hs (hlen ▸ hq) hne (by simp only [State.isFolded, hf, Bool.not_false])
  exact fun heq => hval (by rw [heq])

theorem turn_step (hl : TurnReachable c n stack (l.append e)) (hg : TurnReachable c n stack l)
    (ha : l.Accepts c e) (ht : InTurn l e) (hn : 2 ≤ n.toNat)
    (hover : (l.append e).state.handOver = false) :
    (l.append e).Rotates n.toNat e ↔
      e.playerID.toNat = l.entries.length % n.toNat ∨ e.action.kind = .fold := by
  have hover₀ := handOver_of_append hover
  have hseat : e.playerID.toNat < n.toNat := by
    have := ha.playable.seat_lt
    rwa [hg.numPlayers] at this
  have hfold := isFolded_append hover₀ (e := e) (by rw [hg.numPlayers]; exact hseat)
  obtain ⟨d, hd⟩ := expectedNextPlayer_first hg hn hover₀
  rw [← ht.1, roundID_toNat hg.length_lt] at hd
  obtain ⟨d', hd'⟩ := expectedNextPlayer_first hl hn hover
  have hlen : (l.append e).entries.length = l.entries.length + 1 := by
    simp only [Log.append, List.length_append, List.length_cons, List.length_nil]
  rw [roundID_toNat hl.length_lt, hlen] at hd'
  have hsr : e.playerID.toNat = (l.entries.length + d) % n.toNat := hd.2.1
  cases d with
  | zero =>
    -- the seat the round number points at acted: the next walk starts right after it
    rw [Nat.add_zero] at hsr
    have hnext : (l.append e).state.NextAfter n.toNat e.playerID.toNat
        (l.append e).expectedNextPlayer.toNat :=
      State.nextAfter_congr (by rw [hsr, Nat.mod_mod]) hd'
    exact ⟨fun _ => Or.inl hsr, fun _ =>
      ⟨hnext, expectedNextPlayer_ne_of_nextAfter hl hn hover hseat hnext⟩⟩
  | succ d =>
    have hskipped : e.playerID.toNat ≠ l.entries.length % n.toNat := by
      intro heq
      have hfree := hd.2.2.1
      rw [heq] at hfree
      have hbusy := hd.2.2.2 0 (by omega)
      rw [Nat.add_zero, hfree] at hbusy
      cases hbusy
    by_cases hk : e.action.kind = .fold
    · -- the seat is out: the next walk passes it and everything skipped before it
      have hpass : ∀ j < d + 1,
          (!(l.append e).state.isFolded ((l.entries.length + 1 + j) % n.toNat)) = false := by
        intro j hj
        rw [hfold]
        rcases Nat.lt_or_ge j d with hlt | hge
        · have hbusy := hd.2.2.2 (j + 1) (by omega)
          rw [show l.entries.length + 1 + j = l.entries.length + (j + 1) by omega]
          have hb : l.state.isFolded ((l.entries.length + (j + 1)) % n.toNat) = true := by
            simpa using hbusy
          split_ifs
          · rfl
          · rw [hb]
            rfl
        · have hjd : l.entries.length + 1 + j = l.entries.length + (d + 1) := by omega
          rw [hjd, ← hsr, if_pos ⟨hk, rfl⟩]
          rfl
      have hle : d + 1 ≤ d' := by
        by_contra hlt
        have hhit := hd'.2.2.1
        have hmiss := hpass d' (by omega)
        rw [← hd'.2.1] at hmiss
        exact Bool.false_ne_true (hmiss.symm.trans hhit)
      obtain ⟨k, rfl⟩ := Nat.exists_eq_add_of_le hle
      have hdrop := hd'.drop
      rw [show l.entries.length + 1 + (d + 1) = l.entries.length + (d + 1) + 1 by omega] at hdrop
      have hnext : (l.append e).state.NextAfter n.toNat e.playerID.toNat
          (l.append e).expectedNextPlayer.toNat :=
        State.nextAfter_congr (by rw [hsr, Nat.mod_mod]) hdrop
      exact ⟨fun _ => Or.inr hk, fun _ =>
        ⟨hnext, expectedNextPlayer_ne_of_nextAfter hl hn hover hseat hnext⟩⟩
    · -- the seat stays in: the next walk comes to it again
      have hsame : (fun p => !(l.append e).state.isFolded p) = fun p => !l.state.isFolded p := by
        funext q
        rw [hfold, if_neg (fun h => hk h.1)]
      rw [hsame] at hd'
      rw [Nat.add_comm d 1] at hd
      have hagain := (hd.drop.unique hd').2
      refine ⟨fun hrot => absurd (UInt8.toNat_inj.mp hagain).symm hrot.2, ?_⟩
      rintro (h | h)
      · exact absurd h hskipped
      · exact absurd h hk

end Turns

theorem rotates_iff (c : Primitives) (n : UInt8) (stack : UInt64) (hn : 2 ≤ n.toNat) (l : Log)
    (hl : TurnReachable c n stack l) (e : Entry) (he : l.entries.getLast? = some e)
    (hover : l.state.handOver = false) :
    l.Rotates n.toNat e ↔
      e.playerID.toNat = (l.entries.length - 1) % n.toNat ∨ e.action.kind = .fold := by
  have hcopy := hl
  cases hl with
  | new => simp [newLog] at he
  | @append l₀ e' hg ha ht =>
    have hee : e' = e := by simpa [Log.append] using he
    subst hee
    have hlen : (l₀.append e').entries.length - 1 = l₀.entries.length := by
      simp only [Log.append, List.length_append, List.length_cons, List.length_nil]
      omega
    rw [hlen]
    exact turn_step hcopy hg ha ht hn hover

/-- Three seats; seat 0 folded and seat 1 checked, so seat 2 is to act. -/
def oneFolded : Log := (newLog 3 100).play .transparent seatKey [⟨.fold, 0⟩, ⟨.check, 0⟩]

/-- Seat 2 checked too, and in round 3 seat 1 acts in the place of seat 0. -/
def skippedTurn : Log := oneFolded.play .transparent seatKey [⟨.check, 0⟩]

theorem skippedTurn_reachable : TurnReachable .transparent 3 100 skippedTurn :=
  TurnReachable.play (TurnReachable.play .new (by decide +kernel) (by decide)) (by decide +kernel)
    (by decide +kernel)

theorem rotates_skippedTurn :
    skippedTurn.Rotates 3 (oneFolded.nextEntry .transparent seatKey ⟨.check, 0⟩) :=
  (rotates_iff .transparent 3 100 (by decide) skippedTurn skippedTurn_reachable _
    List.getLast?_concat (by decide +kernel)).mpr (Or.inl (by decide +kernel))

theorem rotation_fails_after_fold :
    ¬ ∀ (c : Primitives) (n : UInt8) (stack : UInt64) (l : Log) (e : Entry), 2 ≤ n.toNat →
      TurnReachable c n stack l → l.entries.getLast? = some e → l.state.handOver = false →
      l.Rotates n.toNat e := by
  intro h
  -- in round 3 seat 1 checks, and round 4 asks seat 1 again while seat 2 waits
  have hreach : TurnReachable .transparent 3 100
      (skippedTurn.play .transparent seatKey [⟨.check, 0⟩]) :=
    TurnReachable.play skippedTurn_reachable (by decide +kernel) (by decide +kernel)
  have hrot := h .transparent 3 100 _ (skippedTurn.nextEntry .transparent seatKey ⟨.check, 0⟩)
    (by decide) hreach List.getLast?_concat (by decide +kernel)
  exact hrot.2 (by decide +kernel)

end P2Poker.Game
