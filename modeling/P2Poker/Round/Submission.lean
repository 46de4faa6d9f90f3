import P2Poker.Round.Certified

/-!
# The round an action is submitted for

`SubmitAction` looks at the log as it stands, with an entry on probation in it or
not, and later leaves the action in a channel of one place. The proposer takes it
from there when it comes to choose, in whatever round that is.
-/

namespace P2Poker.Round
open P2Poker.Lib P2Poker.Crypto P2Poker.Game P2Poker.Ephemeral

/- The stages from taking up an entry to the end of the attempt, or of the round if it commits. -/
def Stage.busy : Stage → Bool
  | .hosted _ => true
  | st => st.extended

def Phase.busy : Phase → Bool
  | .inRound _ _ _ st => st.busy
  | _ => false

/-- The node is the proposer by its log, and has not taken up an entry in the round. -/
def Clear {c : Primitives} (u : Setup c) (r : Runner) : Prop := r.isProposer u = true ∧ r.phase.busy = false

instance {c : Primitives} (u : Setup c) (r : Runner) : Decidable (Clear u r) := inferInstanceAs (Decidable (_ ∧ _))

namespace Runner
variable {c : Primitives} {u : Setup c} {r r' : Runner} {i : Input} {a : Action} {k : ℕ}

/-- The call of `SubmitAction` is at its send and finds the channel empty: it returns nil. -/
def Accepts (r : Runner) (call : ℕ) (a : Action) : Prop := r.submitting[call]? = some ⟨a, true⟩ ∧ r.actionCh = none

instance (r : Runner) (call : ℕ) (a : Action) : Decidable (r.Accepts call a) := inferInstanceAs (Decidable (_ ∧ _))

theorem Accepts.send {call : ℕ} (h : r.Accepts call a) :
    r.step u (.submit (.send call)) = some { r with actionCh := some a, submitting := r.submitting.eraseIdx call } := by
  simp only [step, submitAction, h.1, h.2]

theorem propose_spec {k : UInt64} {p : UInt8} {b : UInt32} {e : Entry} (h : r.propose u = some r')
    (hphase : r'.phase = .inRound k p b (.hosted e)) :
    ∃ action, r.actionCh = some action ∧ e.action = action ∧ r.phase = .inRound k p b .choosing := by
  unfold propose at h
  split at h
  case h_1 hph hch =>
    dsimp only at h
    split at h
    · obtain rfl := Option.some.inj h
      rw [hph] at hphase
      cases hphase
    · obtain rfl := Option.some.inj h
      obtain ⟨rfl, rfl, rfl, hst⟩ := Phase.inRound.inj hphase
      exact ⟨_, hch, by rw [← Stage.hosted.inj hst]; rfl, hph⟩
  case h_2 => cases h

end Runner

/-! ### Where a submitted action goes -/

section Parked
variable {c : Primitives} (u : Setup c) {r r' : Runner} {i : Input} {a : Action} {k : ℕ}

/-- The node has committed `k` rounds and is the proposer of the next, and has not taken up an
action in it. -/
structure Due (k : ℕ) (r : Runner) : Prop where
  rounds : r.rounds = k
  clear : Clear u r

/-- The node will not propose again: its seat is folded, or its last round failed. -/
def Gone (r : Runner) : Prop :=
  r.phase = .failed ∨ 2 ≤ r.log.numPlayers.toNat ∧ r.base.state.isFolded u.seatIdx = true

variable {u}

theorem Gone.not_choosing {k : UInt64} {p : UInt8} {b : UInt32} (hg : Gone u r) (hs : Sound u r)
    (hphase : r.phase = .inRound k p b .choosing) : False := by
  obtain ⟨_, _, _, hlive, _, hprop⟩ := hs.inRound hphase
  rcases hg with hfail | ⟨hn, hfold⟩
  · rw [hphase] at hfail
    cases hfail
  · have hbase := hs.log_eq_base hphase rfl
    have hprop : r.isProposer u = true := hprop
    rw [Runner.isProposer, hbase, beq_iff_eq] at hprop
    have hreach := (hs.certified.upTo r.rounds).reachable
    have hun := (expectedNextPlayer_unfolded hreach hn hlive).2
    have hfold' : r.base.state.isFolded r.base.expectedNextPlayer.toNat = true := by rwa [hprop]
    exact absurd (hun.symm.trans hfold') (by decide)

theorem Gone.move (hg : Gone u r) (hs : Sound u r) (hm : Runner.Move u r i r') : Gone u r' := by
  rcases hg with hfail | ⟨hn, hfold⟩
  · cases hm with
    | submit _ => exact Or.inl hfail
    | _ => simp_all
  · right
    have hnum : r'.log.numPlayers = r.log.numPlayers := by
      rcases hm.log_cases with hlog | ⟨e, hlog⟩ | ⟨hlog, _⟩ <;> rw [hlog] <;> rfl
    refine ⟨hnum ▸ hn, ?_⟩
    refine Log.isFolded_of_upTo hm.rounds_le ?_
    rwa [hs.move_upTo hm le_rfl]

theorem Due.inRound {k' : UInt64} {p : UInt8} {b : UInt32} {st : Stage} (hrounds : r.rounds = k)
    (hprop : r.isProposer u = true) (hphase : r.phase = .inRound k' p b st) (hst : st.busy = false) :
    Due u k r := by
  refine ⟨hrounds, hprop, ?_⟩
  rw [hphase]
  exact hst

/-- From a node that is due every step but the taking of the action leads to one
that is due, or out of the game. -/
theorem Due.move (hd : Due u k r) (hs : Sound u r) (hi : i ≠ .propose) (hm : Runner.Move u r i r') :
    Due u k r' ∨ Gone u r' := by
  have hrounds := hd.rounds
  obtain ⟨hprop, hidle⟩ := hd.clear
  have hnot : r.isProposer u ≠ false := by rw [hprop]; decide
  have hstart : r.startStage u = .choosing := if_pos hprop
  cases hm with
  | submit _ => exact Or.inl ⟨hrounds, hprop, hidle⟩
  | reject => exact absurd rfl hi
  | propose => exact absurd rfl hi
  | beginRound hphase => exact Or.inl (.inRound hrounds hprop rfl (by rw [hstart]; rfl))
  | proposal hphase => exact absurd (hs.stage hphase) hnot
  | appendOwn hphase =>
    rw [hphase] at hidle
    cases hidle
  | undecoded hphase => exact absurd (hs.stage hphase) hnot
  | invalid hphase => exact absurd (hs.stage hphase) hnot
  | appendFetched hphase => exact absurd (hs.stage hphase) hnot
  | hostReceipt hphase =>
    rw [hphase] at hidle
    cases hidle
  | receipt hphase =>
    rw [hphase] at hidle
    cases hidle
  | collected hphase =>
    rw [hphase] at hidle
    cases hidle
  | receiptFailed hphase =>
    rw [hphase] at hidle
    cases hidle
  | deadline => exact Or.inl (.inRound hrounds hprop rfl rfl)
  | @cleanup k' p b timeout hphase =>
    cases timeout with
    | none =>
      rw [hphase] at hidle
      cases hidle
    | some reason => exact Or.inl (.inRound hrounds hprop rfl rfl)
  | commit hphase =>
    rw [hphase] at hidle
    cases hidle
  | nextAttempt hphase =>
    refine Or.inl (.inRound hrounds hprop rfl ?_)
    rw [hstart]
    split_ifs <;> rfl
  | noAttestors => exact Or.inr (Or.inl rfl)
  | attest => exact Or.inl (.inRound hrounds hprop rfl rfl)
  | attestation => exact Or.inl (.inRound hrounds hprop rfl rfl)
  | attestationFailed => exact Or.inr (Or.inl rfl)
  | foldRefused => exact Or.inr (Or.inl rfl)
  | @fold k' p b cosigs signed log hphase hsigned happ =>
    -- the others fold this seat
    obtain ⟨_, _, hp, hlive, hlen, _⟩ := hs.inRound hphase
    obtain ⟨hok, rfl⟩ := appendAutoFold_ok happ
    have hfold := (verifyAutoFoldEntry_ok_iff.mp hok).1
    have hbase := hs.log_eq_base hphase rfl
    have hseat : p.toNat = u.seatIdx := by
      rw [Runner.isProposer, beq_iff_eq, hbase, ← hp] at hprop
      exact hprop
    refine Or.inr (Or.inr ⟨?_, ?_⟩)
    · exact hfold.two_unfolded.trans (numNonFolded_le r.log)
    · have hlen : r.log.entries.length = r.rounds := hlen
      have hup : Runner.base { r with
          log := r.log.append (Runner.autoFoldEntry k' p signed),
          events := r.events ++ [⟨k', 0, .autoFold, []⟩], rounds := r.rounds + 1, phase := .idle } =
          r.log.append (Runner.autoFoldEntry k' p signed) :=
        Log.upTo_eq_self (by simp [Log.append, hlen])
      rw [hup, isFolded_append (by rw [hbase]; exact hlive) (UInt8.lt_iff_toNat_lt.mp hfold.seat_lt),
        if_pos ⟨rfl, hseat.symm⟩]

theorem parked_runs (hch : r.actionCh = some a) (hs : Sound u r) (hd : Due u k r)
    (hrun : Runner.Runs u (fun _ i => i ≠ .propose) r r') :
    r'.actionCh = some a ∧ Sound u r' ∧ (Due u k r' ∨ Gone u r') := by
  induction hrun with
  | refl => exact ⟨hch, hs, Or.inl hd⟩
  | tail _ hstep ih =>
    obtain ⟨i, hi, hstep⟩ := hstep
    obtain ⟨hch, hs, hplace⟩ := ih
    have hm := Runner.step_move hstep
    refine ⟨?_, hs.move hm, ?_⟩
    · cases hm <;> simp_all [Runner.failAutoFold]
    · rcases hplace with hd | hg
      · exact hd.move hs hi hm
      · exact Or.inr (hg.move hs hm)

end Parked

/-- Accepted at `r₀` and taken at `r₂`, an action is proposed in the round after the log that
was committed at `r₀`, whatever the other calls do. -/
theorem action_used_in_its_round (c : Primitives) (u : Setup c) (n : UInt8) (stack : UInt64) (call : ℕ) (a : Action)
    (r₀ r₁ r₂ r₃ : Runner) (k : UInt64) (p : UInt8) (b : UInt32) (e : Entry)
    (hr : Runner.Runs u (fun _ _ => True) (.start n stack) r₀) (haccept : r₀.Accepts call a) (hclear : Clear u r₀)
    (hsend : r₀.step u (.submit (.send call)) = some r₁)
    (hpark : Runner.Runs u (fun _ i => i ≠ .propose) r₁ r₂)
    (hpropose : r₂.step u .propose = some r₃) (hphase : r₃.phase = .inRound k p b (.hosted e)) :
    e.action = a ∧ k.toNat = r₀.committed.length := by
  have hs₀ := (Sound.start n stack).runs hr
  have hr₁ := Option.some.inj (haccept.send.symm.trans hsend)
  have hs₁ := hs₀.move (Runner.step_move hsend)
  have hdue : Due u r₀.rounds r₁ := by
    rw [← hr₁]
    exact ⟨rfl, hclear⟩
  obtain ⟨hch, hs₂, hplace⟩ := parked_runs (a := a) (by rw [← hr₁]) hs₁ hdue hpark
  obtain ⟨action, hact, he, hchoosing⟩ := Runner.propose_spec hpropose hphase
  refine ⟨he.trans (Option.some.inj (hact.symm.trans hch)), ?_⟩
  rcases hplace with hd | hg
  · rw [hs₀.committed_length]
    exact (hs₂.inRound hchoosing).1.trans hd.rounds
  · exact (hg.not_choosing hs₂ hchoosing).elim

def sampleSeat (seat : ℕ) : Setup .transparent := (Table.sample 2 two_seats_lt 1 100).setup seat

/- A proposal is hosted for this round. -/
def Phase.hostsIn (ph : Phase) (k : UInt64) : Bool :=
  match ph with
  | .inRound k' _ _ (.hosted _) => k' == k
  | _ => false

theorem Phase.of_hostsIn {ph : Phase} {k : UInt64} (h : ph.hostsIn k = true) :
    ∃ p b e, ph = .inRound k p b (.hosted e) := by
  unfold Phase.hostsIn at h
  split at h
  · exact ⟨_, _, _, by rw [beq_iff_eq.mp h]⟩
  · cases h

/- Two calls pass their checks; the second comes too late. -/
theorem action_used_in_its_round_first :
    ∃ (r₀ r₁ r₂ r₃ : Runner) (p : UInt8) (b : UInt32) (e : Entry),
      (Runner.start 2 100).feed (sampleSeat 0) [.beginRound, .submit (.turn ⟨.check, 0⟩), .submit (.turn ⟨.raise, 5⟩),
        .submit (.rules 0), .submit (.rules 1)] = some r₀ ∧
      r₀.step (sampleSeat 0) (.submit (.send 0)) = some r₁ ∧
      r₁.feed (sampleSeat 0) [.submit (.send 0)] = some r₂ ∧ r₂.step (sampleSeat 0) .propose = some r₃ ∧
      r₃.phase = .inRound 0 p b (.hosted e) ∧ e.action = ⟨.check, 0⟩ ∧ (0 : UInt64).toNat = r₀.committed.length := by
  have hrun : ((Runner.start 2 100).feed (sampleSeat 0) [.beginRound, .submit (.turn ⟨.check, 0⟩),
      .submit (.turn ⟨.raise, 5⟩), .submit (.rules 0), .submit (.rules 1)]).bind (fun r₀ =>
      (r₀.step (sampleSeat 0) (.submit (.send 0))).bind fun r₁ =>
      (r₁.feed (sampleSeat 0) [.submit (.send 0)]).bind fun r₂ =>
      (r₂.step (sampleSeat 0) .propose).bind fun r₃ =>
      some (decide (r₃.phase.hostsIn 0 = true ∧ r₀.Accepts 0 ⟨.check, 0⟩ ∧ Clear (sampleSeat 0) r₀))) = some true := by
    decide +kernel
  obtain ⟨r₀, hr₀, hrun⟩ := Option.bind_eq_some_iff.mp hrun
  obtain ⟨r₁, hr₁, hrun⟩ := Option.bind_eq_some_iff.mp hrun
  obtain ⟨r₂, hr₂, hrun⟩ := Option.bind_eq_some_iff.mp hrun
  obtain ⟨r₃, hr₃, hrun⟩ := Option.bind_eq_some_iff.mp hrun
  obtain ⟨hhosts, haccept, hclear⟩ := of_decide_eq_true (Option.some.inj hrun)
  obtain ⟨p, b, e, hphase⟩ := Phase.of_hostsIn hhosts
  exact ⟨r₀, r₁, r₂, r₃, p, b, e, hr₀, hr₁, hr₂, hr₃, hphase, action_used_in_its_round .transparent (sampleSeat 0) 2 100
    0 ⟨.check, 0⟩ r₀ r₁ r₂ r₃ 0 p b e (Runner.feed_runs (fun _ _ _ => trivial) hr₀) haccept hclear hr₁
    (Runner.feed_runs (by simp) hr₂) hr₃ hphase⟩

/- The check of the seat, signed at a log of checks. -/
def checkAt (l : Log) (seat : UInt8) : Entry :=
  l.buildProposal .transparent seat ⟨.check, 0⟩ (sampleSeat seat.toNat).sk

/-- What the node of seat 1 goes through until the entry of seat 0 is on probation
in its log, and it has checked an action of its own against that log. -/
def untilProbation : List Input :=
  [.beginRound, .proposal ((sampleSeat 0).entryCodec.encode (checkAt (newLog 2 100) 0)), .append, .hostReceipt,
    .submit (.turn ⟨.check, 0⟩), .submit (.rules 0)]

/-- And from there to the next round, in which it proposes. -/
def untilProposing : List Input := [.receipt 0 [], .collected, .cleanup, .conclude, .beginRound]

/-- A check that seat 1 submits while only the empty log is committed is proposed
in round 1. -/
theorem action_outlives_its_round :
    ¬ ∀ (c : Primitives) (u : Setup c) (n : UInt8) (stack : UInt64) (call : ℕ) (a : Action) (r₀ r₁ r₂ r₃ : Runner)
      (k : UInt64) (p : UInt8) (b : UInt32) (e : Entry), Runner.Runs u (fun _ _ => True) (.start n stack) r₀ →
      r₀.Accepts call a → r₀.step u (.submit (.send call)) = some r₁ → Runner.Runs u (fun _ i => i ≠ .propose) r₁ r₂ →
      r₂.step u .propose = some r₃ → r₃.phase = .inRound k p b (.hosted e) →
      k.toNat = r₀.committed.length := by
  intro h
  have hrun : ((Runner.start 2 100).feed (sampleSeat 1) untilProbation).bind (fun r₀ =>
      (r₀.step (sampleSeat 1) (.submit (.send 0))).bind fun r₁ =>
      (r₁.feed (sampleSeat 1) untilProposing).bind fun r₂ =>
      (r₂.step (sampleSeat 1) .propose).bind fun r₃ =>
      some (decide (r₃.phase.hostsIn 1 = true ∧ r₀.Accepts 0 ⟨.check, 0⟩ ∧ r₀.committed.length = 0))) = some true := by
    decide +kernel
  obtain ⟨r₀, hr₀, hrun⟩ := Option.bind_eq_some_iff.mp hrun
  obtain ⟨r₁, hr₁, hrun⟩ := Option.bind_eq_some_iff.mp hrun
  obtain ⟨r₂, hr₂, hrun⟩ := Option.bind_eq_some_iff.mp hrun
  obtain ⟨r₃, hr₃, hrun⟩ := Option.bind_eq_some_iff.mp hrun
  obtain ⟨hhosts, haccept, hlength⟩ := of_decide_eq_true (Option.some.inj hrun)
  obtain ⟨p, b, e, hphase⟩ := Phase.of_hostsIn hhosts
  have hk := h .transparent (sampleSeat 1) 2 100 0 ⟨.check, 0⟩ r₀ r₁ r₂ r₃ 1 p b e
    (Runner.feed_runs (fun _ _ _ => trivial) hr₀) haccept hr₁
    (Runner.feed_runs (by simp [untilProposing]) hr₂) hr₃ hphase
  rw [hlength] at hk
  exact absurd hk (by decide)

/- Both calls of seat 0 have passed their checks before it takes up an action. The second
sends while the first is hosted, and is proposed two rounds later. -/
example : ((Runner.start 2 100).feed (sampleSeat 0) (List.flatten [
    [.beginRound, .submit (.turn ⟨.check, 0⟩), .submit (.turn ⟨.check, 0⟩), .submit (.rules 0), .submit (.rules 1)],
    [.submit (.send 0), .propose, .submit (.send 0), .append, .hostReceipt, .receipt 1 []],
    [.collected, .cleanup, .conclude, .beginRound],
    [.proposal ((sampleSeat 0).entryCodec.encode (checkAt ((newLog 2 100).append (checkAt (newLog 2 100) 0)) 1))],
    [.append, .hostReceipt, .receipt 1 [], .collected, .cleanup, .conclude, .beginRound, .propose]])).map
    (fun r => r.phase.hostsIn 2) = some true := by decide +kernel

end P2Poker.Round
