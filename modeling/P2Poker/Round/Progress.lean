import P2Poker.Round.Cleanup

/-!
# The rounds go on

Without deadlines, the seats that are in never wait for each other in a circle:
as long as the hand is not over, one of them can take a step, or the seat whose
turn it is has no action yet. The proof looks at those with the fewest rounds;
what they wait for is still hosted by the seat they poll. This is about polls and
stores: `ExpectedNextPlayer` takes the lock of the log twice for reading, and a call
of `SubmitAction` can block in between behind a writer, which the model leaves out.
-/

namespace P2Poker.Round
open P2Poker.Lib P2Poker.Crypto P2Poker.Game P2Poker.Ephemeral

/-! ### What a node keeps hosting -/

def Runner.Hosts (r : Runner) (x : KeyName) : Prop := (r.store.get x.key).isSome = true

section Hosting
variable {c : Primitives} {u : Setup c} {r r' : Runner} {i : Input} {x : KeyName} {k : UInt64} {a : UInt32}

theorem Runner.Hosts.of_delete {store : Store Bytes} {y : KeyName} (h : (store.get x.key).isSome = true)
    (hne : x ≠ y) : ((store.delete y.key).get x.key).isSome = true := by
  rw [show (store.delete y.key).get x.key = store.get x.key from if_neg fun h => hne (KeyName.key_injective h)]
  exact h

/- The clean-up of an attempt deletes its proposal and the receipts of the others. -/
theorem Runner.Hosts.cleanupAttempt (h : r.Hosts x) (hprop : x ≠ .proposal k a)
    (hother : ∀ seat, u.nodeID seat ≠ u.nodeID u.seatIdx → x ≠ .verify k a (u.nodeID seat)) :
    ((r.cleanupAttempt u k a).get x.key).isSome = true := by
  have hfold : ∀ (seats : List ℕ) (store : Store Bytes), (∀ s ∈ seats, u.nodeID s ≠ u.nodeID u.seatIdx) →
      (store.get x.key).isSome = true →
      ((seats.foldl (fun s seat => s.delete (verifyKey k a (u.nodeID seat))) store).get x.key).isSome = true := by
    intro seats
    induction seats with
    | nil => exact fun _ _ h => h
    | cons seat seats ih =>
      intro store hseats hstore
      refine ih _ (fun s hs => hseats s (List.mem_cons_of_mem _ hs)) ?_
      exact of_delete (y := .verify k a (u.nodeID seat)) hstore (hother seat (hseats seat List.mem_cons_self))
  refine hfold _ _ (fun s hs => ?_) (of_delete (y := .proposal k a) h hprop)
  simpa using (List.mem_filter.mp hs).2

/- A commit drops the files of the round before. -/
theorem Runner.Hosts.pruneStore (h : r.Hosts x) (hround : 0 < k → x.round ≠ some (k - 1)) :
    ((r.pruneStore k).get x.key).isSome = true := by
  unfold Runner.pruneStore
  split_ifs with hk
  · obtain ⟨v, hv⟩ := Option.isSome_iff_exists.mp h
    have hkept := Store.get_deletePrefix_iff.mpr ⟨Store.get_deletePrefix_iff.mpr
      ⟨hv, fun hpre => hround hk (KeyName.round_of_roundPrefix hpre)⟩,
      fun hpre => hround hk (KeyName.round_of_autoFoldPrefix hpre)⟩
    exact Option.isSome_of_eq_some hkept
  · exact h

theorem Runner.Hosts.hostAttestation (h : r.Hosts x) (k : UInt64) (p : UInt8) :
    ((r.hostAttestation u k p).get x.key).isSome = true := by
  unfold Runner.hostAttestation
  split_ifs
  · exact Store.isSome_put _ _ h
  · exact h

/-- A file stays until the attempt it belongs to is cleaned up, or the next round is committed. -/
theorem Runner.Move.hosts (hm : Runner.Move u r i r') (h : r.Hosts x) :
    r'.Hosts x ∨
      (∃ k p a timeout, r.phase = .inRound k p a (.returned timeout) ∧
        (x = .proposal k a ∨ ∃ seat, u.nodeID seat ≠ u.nodeID u.seatIdx ∧ x = .verify k a (u.nodeID seat))) ∨
      (r'.rounds = r.rounds + 1 ∧
        ∃ k p a, r.phase = .inRound k p a (.cleaned none) ∧ 0 < k ∧ x.round = some (k - 1)) := by
  cases hm with
  | propose => exact .inl (Store.isSome_put _ _ h)
  | hostReceipt => exact .inl (Store.isSome_put _ _ h)
  | @cleanup k p a timeout hphase =>
    by_cases hdel : x = .proposal k a ∨
        ∃ seat, u.nodeID seat ≠ u.nodeID u.seatIdx ∧ x = .verify k a (u.nodeID seat)
    · exact .inr (.inl ⟨k, p, a, timeout, hphase, hdel⟩)
    · push Not at hdel
      exact .inl (h.cleanupAttempt hdel.1 hdel.2)
  | @commit k p a hphase =>
    by_cases hdel : 0 < k ∧ x.round = some (k - 1)
    · exact .inr (.inr ⟨rfl, k, p, a, hphase, hdel⟩)
    · exact .inl (h.pruneStore fun hk hx => hdel ⟨hk, hx⟩)
  | noAttestors => exact .inl (h.hostAttestation _ _)
  | attest => exact .inl (h.hostAttestation _ _)
  | _ => exact .inl h

end Hosting

section Live
variable {c : Primitives} (t : Table c) (net : Net)

/-! ### The invariant -/

/- The files of an attempt are there while it goes on, and who has sent a receipt
has the proposal. -/
def StageLive (s : ℕ) (r : Runner) (k : UInt64) (p : UInt8) (a : UInt32) : Stage → Prop
  | .hosted _ => r.Hosts (.proposal k a)
  | .appended => p.toNat = s → r.Hosts (.proposal k a)
  | .collecting _ => (p.toNat = s → r.Hosts (.proposal k a)) ∧ r.Hosts (.verify k a (t.nodeID s))
  | .returned none =>
    (p.toNat = s → r.Hosts (.proposal k a)) ∧ r.Hosts (.verify k a (t.nodeID s)) ∧
      ∀ q ∈ r.receiptSeats (t.setup s), (net q).hasFetched k a = true
  | .cleaned none =>
    r.Hosts (.verify k a (t.nodeID s)) ∧ ∀ q ∈ r.receiptSeats (t.setup s), (net q).hasFetched k a = true
  | _ => True

structure LiveInv (s : ℕ) : Prop where
  stage : ∀ k p a st, (net s).phase = .inRound k p a st → StageLive t net s (net s) k p a st
  -- the receipt of the round before is kept
  last : ∀ k : UInt64, k.toNat + 1 = (net s).rounds → (net s).Hosts (.verify k 0 (t.nodeID s))
  past : ∀ k : UInt64, k.toNat < (net s).rounds → ∀ q < t.size, q ≠ s →
    ((net s).log.upTo (k.toNat + 1)).state.isFolded q = false → (net q).hasFetched k 0 = true
  live : ∀ j < (net s).rounds, ((net s).log.upTo j).state.handOver = false
  healthy : (net s).phase ≠ .failed

variable {t net} {G : List Entry} {prop : UInt64 → UInt32 → Option Entry} {s : ℕ} {i : Input} {r : Runner}
  {k : UInt64} {p : UInt8} {a : UInt32} {st : Stage}

theorem StageLive.later {net' : Net} {r' : Runner} (h : StageLive t net s r k p a st) (hstore : r'.store = r.store)
    (hlog : r'.log = r.log) (hl : ∀ q, (net q).hasFetched k a = true → (net' q).hasFetched k a = true) :
    StageLive t net' s r' k p a st := by
  unfold StageLive Runner.Hosts Runner.receiptSeats at h ⊢
  rw [hstore, hlog]
  split at h
  · exact h
  · exact h
  · exact h
  · exact ⟨h.1, h.2.1, fun q hq => hl q (h.2.2 q hq)⟩
  · exact ⟨h.1, fun q hq => hl q (h.2 q hq)⟩
  · trivial

/- Nobody times out, so there is one attempt. -/
theorem FetchInv.attempt_zero (h : FetchInv t net s) (hnode : NodeInv t net G prop s)
    (hphase : (net s).phase = .inRound k p a st) : a = 0 := by
  obtain ⟨_, _, hout, _⟩ := hnode.inRound hphase
  by_contra hne
  have hlt : 0 < a := UInt32.pos_iff_ne_zero.mpr hne
  have := hout 0 hlt
  rw [h.quiet k 0] at this
  cases this

theorem FetchInv.proposer (h : FetchInv t net s) (hphase : (net s).phase = .inRound k p a st)
    (hst : st.extended = false) : (net s).isProposer (t.setup s) = decide (p.toNat = s) := by
  have hp := (h.sound.inRound hphase).2.2.1
  rw [Runner.isProposer, h.sound.log_eq_base hphase hst, ← hp]
  rfl

/- The files that `StageLive` speaks of survive a step inside the attempt. -/
theorem hosts_in_attempt {x : KeyName} (hm : Runner.Move (t.setup s) (net s) i r)
    (hphase : (net s).phase = .inRound k p a st) (hst : ∀ timeout, st ≠ .returned timeout ∧ st ≠ .cleaned timeout)
    (h : (net s).Hosts x) : r.Hosts x := by
  rcases hm.hosts h with hkept | ⟨_, _, _, timeout, hret, _⟩ | ⟨_, _, _, _, hclean, _⟩
  · exact hkept
  · rw [hphase] at hret
    exact absurd (Phase.inRound.inj hret).2.2.2 (hst timeout).1
  · rw [hphase] at hclean
    exact absurd (Phase.inRound.inj hclean).2.2.2 (hst none).2

theorem LiveInv.stage_move (hall : ∀ q, FetchInv t net q) (h : LiveInv t net s)
    (hm : Runner.Move (t.setup s) (net s) i r)
    (hl : ∀ q k a, (net q).hasFetched k a = true → (Function.update net s r q).hasFetched k a = true)
    (hst : r.phase = .inRound k p a st) : StageLive t (Function.update net s r) s r k p a st := by
  have hhosts := fun {x st'} (hphase : (net s).phase = .inRound k p a st') hst' =>
    hosts_in_attempt (x := x) hm hphase hst'
  cases hm with
  | submit => exact (h.stage k p a st hst).later rfl rfl fun q => hl q k a
  | beginRound =>
    cases hst
    unfold Runner.startStage
    split_ifs <;> trivial
  | reject => exact (h.stage k p a st hst).later rfl rfl fun q => hl q k a
  | propose =>
    cases hst
    show (Store.get _ (KeyName.proposal k a).key).isSome = true
    exact Option.isSome_of_eq_some (if_pos rfl)
  | appendOwn hphase =>
    cases hst
    exact fun _ => h.stage k p a _ hphase
  | appendFetched hphase =>
    cases hst
    -- a verifier fetches, so this is not the proposer
    have hrole : (net s).isProposer (t.setup s) = false := (hall s).sound.stage hphase
    rw [(hall s).proposer hphase rfl, decide_eq_false_iff_not] at hrole
    exact fun hp => absurd hp hrole
  | hostReceipt hphase =>
    cases hst
    have hlive : StageLive t net s (net s) k p a .appended := h.stage k p a _ hphase
    exact ⟨fun hp => hhosts hphase (by simp) (hlive hp), Option.isSome_of_eq_some (if_pos rfl)⟩
  | receipt hphase =>
    cases hst
    exact h.stage k p a _ hphase
  | collected hphase hgot =>
    cases hst
    obtain ⟨hprop, hown⟩ : StageLive t net s (net s) k p a (.collecting _) := h.stage k p a _ hphase
    have hread : StageFetched t net s k p a (.collecting _) := (hall s).stage k p a _ hphase
    exact ⟨hprop, hown, fun q hq => hl q k a (hread q (hgot q hq))⟩
  | @cleanup k' p' a' timeout hphase =>
    cases hst
    cases timeout with
    | some reason => trivial
    | none =>
      obtain ⟨_, hown, hread⟩ : StageLive t net s (net s) k p a (.returned none) := h.stage k p a _ hphase
      refine ⟨hown.cleanupAttempt (by simp) ?_, fun q hq => hl q k a (hread q hq)⟩
      rintro seat hne heq
      exact hne (KeyName.verify.inj heq).2.2.symm
  | nextAttempt hphase => exact ((hall s).stage _ _ _ _ hphase).elim
  | attest hphase => exact ((hall s).stage _ _ _ _ hphase).elim
  | attestation hphase => exact ((hall s).stage _ _ _ _ hphase).elim
  | commit => cases hst
  | noAttestors => cases hst
  | attestationFailed => cases hst
  | foldRefused => cases hst
  | fold => cases hst
  | _ =>
    cases hst
    trivial

/- A step that is not a commit leaves the number of rounds alone. -/
theorem FetchInv.rounds_move (h : FetchInv t net s) (hm : Runner.Move (t.setup s) (net s) i r) :
    (r.rounds = (net s).rounds ∧ r.log.upTo (net s).rounds = (net s).log.upTo (net s).rounds) ∨
      r.rounds = (net s).rounds + 1 ∧ r.log = (net s).log ∧
        ∃ k p a, (net s).phase = .inRound k p a (.cleaned none) ∧ r.store = (net s).pruneStore k := by
  have hlen : (net s).rounds ≤ (net s).log.entries.length := by
    have hp := h.sound.phase
    cases hphase : (net s).phase with
    | inRound k p a st =>
      obtain ⟨_, _, _, _, hlen, _⟩ := h.sound.inRound hphase
      omega
    | idle =>
      rw [hphase] at hp
      exact hp.1.ge
    | failed =>
      rw [hphase] at hp
      exact hp.1.ge
  cases hm with
  | appendOwn => exact .inl ⟨rfl, Log.upTo_append hlen _⟩
  | appendFetched => exact .inl ⟨rfl, Log.upTo_append hlen _⟩
  | @receiptFailed k p a got seat reason hphase =>
    obtain ⟨_, _, _, _, hlen, _⟩ := h.sound.inRound hphase
    exact .inl ⟨rfl, Log.upTo_rollbackLast (by rw [hlen]; exact Nat.lt_succ_self _)⟩
  | commit hphase => exact .inr ⟨rfl, rfl, _, _, _, hphase, rfl⟩
  | fold hphase => exact (h.stage _ _ _ _ hphase).elim
  | _ => exact .inl ⟨rfl, rfl⟩

theorem LiveInv.last_move (hall : ∀ q, FetchInv t net q) (hinv : Inv t net G prop) (h : LiveInv t net s)
    (hs : s < t.size) (hm : Runner.Move (t.setup s) (net s) i r) (hk : k.toNat + 1 = r.rounds) :
    r.Hosts (.verify k 0 (t.nodeID s)) := by
  rcases (hall s).rounds_move hm with ⟨hrounds, _⟩ | ⟨hrounds, _, k', p, a, hphase, hstore⟩
  · rcases hm.hosts (h.last k (by omega)) with hkept | ⟨_, _, _, _, _, hx | ⟨seat, hne, hx⟩⟩ | ⟨hadd, _⟩
    · exact hkept
    · cases hx
    · exact absurd (KeyName.verify.inj hx).2.2.symm hne
    · omega
  · have hk' := ((hall s).sound.inRound hphase).1
    obtain rfl : k' = k := UInt64.toNat_inj.mp (by omega)
    obtain rfl := (hall s).attempt_zero (hinv.node s hs) hphase
    obtain ⟨hown, _⟩ : StageLive t net s (net s) k' p 0 (.cleaned none) := h.stage _ _ _ _ hphase
    rw [Runner.Hosts, hstore]
    refine hown.pruneStore fun hpos hround => ?_
    have heq : k' = k' - 1 := Option.some.inj hround
    have hsub : (k' - 1).toNat = k'.toNat - 1 :=
      UInt64.toNat_sub_of_le _ _ (by rw [UInt64.le_iff_toNat_le]; exact UInt64.lt_iff_toNat_lt.mp hpos)
    have hpos' : 0 < k'.toNat := UInt64.lt_iff_toNat_lt.mp hpos
    rw [← heq] at hsub
    omega

theorem LiveInv.past_move (hall : ∀ q, FetchInv t net q) (hinv : Inv t net G prop) (h : LiveInv t net s)
    (hs : s < t.size) (hm : Runner.Move (t.setup s) (net s) i r)
    (hl : ∀ q k a, (net q).hasFetched k a = true → (Function.update net s r q).hasFetched k a = true)
    (hk : k.toNat < r.rounds) {q : ℕ} (hq : q < t.size) (hne : q ≠ s)
    (hfold : (r.log.upTo (k.toNat + 1)).state.isFolded q = false) :
    (Function.update net s r q).hasFetched k 0 = true := by
  apply hl
  rcases (hall s).rounds_move hm with ⟨hrounds, hlog⟩ | ⟨hrounds, hlog, k', p, a, hphase, _⟩
  · refine h.past k (by omega) q hq hne ?_
    rw [hrounds] at hk
    rw [← Log.upTo_upTo hk, ← hlog, Log.upTo_upTo hk]
    exact hfold
  · rw [hlog] at hfold
    obtain ⟨hk', _, _, _, hlen, _⟩ := (hall s).sound.inRound hphase
    rcases Nat.lt_or_ge k.toNat (net s).rounds with hlt | hge
    · exact h.past k hlt q hq hne hfold
    · obtain rfl : k' = k := UInt64.toNat_inj.mp (by omega)
      obtain rfl := (hall s).attempt_zero (hinv.node s hs) hphase
      obtain ⟨_, hread⟩ : StageLive t net s (net s) k' p 0 (.cleaned none) := h.stage _ _ _ _ hphase
      refine hread q ((t.mem_receiptSeats hs).mpr ⟨hq, hne, ?_⟩)
      rw [Log.upTo_eq_self (by rw [hlen, hk']; exact le_rfl)] at hfold
      exact hfold

theorem LiveInv.live_move (hall : ∀ q, FetchInv t net q) (h : LiveInv t net s)
    (hm : Runner.Move (t.setup s) (net s) i r) {j : ℕ} (hj : j < r.rounds) :
    (r.log.upTo j).state.handOver = false := by
  rcases (hall s).rounds_move hm with ⟨hrounds, hlog⟩ | ⟨hrounds, hlog, k', p, a, hphase, _⟩
  · rw [hrounds] at hj
    rw [← Log.upTo_upTo hj.le, hlog, Log.upTo_upTo hj.le]
    exact h.live j hj
  · rw [hlog]
    rcases Nat.lt_or_ge j (net s).rounds with hlt | hge
    · exact h.live j hlt
    · obtain rfl : j = (net s).rounds := by omega
      exact ((hall s).sound.inRound hphase).2.2.2.1

theorem FetchInv.healthy_move (hall : ∀ q, FetchInv t net q) (h : (net s).phase ≠ .failed)
    (hm : Runner.Move (t.setup s) (net s) i r) (hi : i.isDeadline = false) : r.phase ≠ .failed := by
  cases hm with
  | submit => exact h
  | reject => exact h
  | noAttestors hphase => exact ((hall s).stage _ _ _ _ hphase).elim
  | attestationFailed => cases hi
  | foldRefused hphase => exact ((hall s).stage _ _ _ _ hphase).elim
  | _ => simp

theorem LiveInv.step {net' : Net} (hlive : ∀ q < t.size, LiveInv t net q) (hall : ∀ q, FetchInv t net q)
    (hinv : Inv t net G prop) (hstep : Step t (fun _ => true) (FoldedHaveFetched t) net net') :
    ∀ q < t.size, LiveInv t net' q := by
  cases hstep with
  | @node s i r hs _ hserved hP hrun =>
    have hm := Runner.step_move hrun
    have hl : ∀ q k a, (net q).hasFetched k a = true →
        (Function.update net s r q).hasFetched k a = true := by
      intro q k a hq
      by_cases hqs : q = s
      · subst hqs
        rw [Function.update_self]
        exact (hall q).hasFetched_mono hm hP.1 hq
      · rwa [Function.update_of_ne hqs]
    intro q hqt
    have hq := hlive q hqt
    by_cases hqs : q = s
    · subst hqs
      refine ⟨?_, ?_, ?_, ?_, ?_⟩ <;> rw [Function.update_self]
      · exact fun k p a st hst => hq.stage_move hall hm hl hst
      · exact fun k hk => hq.last_move hall hinv hs hm hk
      · exact fun k hk q' hq' hne hfold => hq.past_move hall hinv hs hm hl hk hq' hne hfold
      · exact fun j hj => hq.live_move hall hm hj
      · exact FetchInv.healthy_move hall hq.healthy hm hP.1
    · have hsame : Function.update net s r q = net q := Function.update_of_ne hqs ..
      refine ⟨?_, ?_, ?_, ?_, ?_⟩ <;> rw [hsame]
      · exact fun k p a st hst => (hq.stage k p a st hst).later rfl rfl fun q' => hl q' k a
      · exact hq.last
      · exact fun k hk q' hq' hne hfold => hl q' k 0 (hq.past k hk q' hq' hne hfold)
      · exact hq.live
      · exact hq.healthy

theorem LiveInv.start (s : ℕ) : LiveInv t (Net.start (newLog t.numPlayers t.startingStack)) s where
  stage _ _ _ _ h := by cases h
  last k hk := by cases hk
  past k hk := by cases hk
  live j hj := by cases hj
  healthy h := by cases h

/-- What holds along a run without deadlines. -/
structure Going (t : Table c) (net : Net) (G : List Entry) (prop : UInt64 → UInt32 → Option Entry) : Prop where
  fetch : ∀ q, FetchInv t net q
  chain : Inv t net G prop
  live : ∀ q < t.size, LiveInv t net q

theorem Going.reaches (hn : 2 ≤ t.size) (h : Reaches t (fun _ => true) (FoldedHaveFetched t)
    (Net.start (newLog t.numPlayers t.startingStack)) net) : ∃ G prop, Going t net G prop := by
  induction h with
  | refl => exact ⟨_, _, FetchInv.start, Inv.start t, fun q _ => LiveInv.start q⟩
  | tail _ hstep ih =>
    obtain ⟨G, prop, hall, hinv, hlive⟩ := ih
    have hfetch := FetchInv.step hall hinv hstep
    have hlive' := LiveInv.step hlive hall hinv hstep
    cases hstep with
    | node hs hh hserved hP hrun =>
      obtain ⟨G', prop', hinv'⟩ :=
        hinv.step (.node hs hh hserved (FetchInv.verifierRemains hall hinv hn hs hP.1) hrun)
      exact ⟨G', prop', hfetch, hinv', hlive'⟩

/-! ### The chain -/

/- The seat is in after these entries. -/
def Table.In (t : Table c) (es : List Entry) (q : ℕ) : Prop := (t.logAt es).state.isFolded q = false

theorem Table.In.of_take {j m q : ℕ} (h : t.In (G.take m) q) (hj : j ≤ m) : t.In (G.take j) q := by
  unfold Table.In at h ⊢
  by_contra hc
  have hup : ∀ i, t.logAt (G.take i) = (t.logAt G).upTo i := fun i => rfl
  rw [hup] at h hc
  rw [Log.isFolded_of_upTo hj (by simpa using hc)] at h
  cases h

theorem take_append_entry {j : ℕ} {e : Entry} (he : G[j]? = some e) : G.take (j + 1) = G.take j ++ [e] := by
  rw [List.take_add_one, he]
  rfl

section Facts
variable (hg : Going t net G prop)
include hg

theorem Going.upTo_eq {q j : ℕ} (hq : q < t.size) (hj : j ≤ (net q).rounds) :
    (net q).log.upTo j = t.logAt (G.take j) := (hg.chain.node q hq).upTo_eq hj

theorem Going.log_idle {q : ℕ} (hq : q < t.size) (hphase : (net q).phase = .idle) :
    (net q).log = t.logAt (G.take (net q).rounds) := by
  have hent := (hg.chain.node q hq).phase
  rw [hphase] at hent
  rw [(hg.chain.node q hq).log_eq]
  exact congrArg t.logAt hent

theorem Going.live_at {q j : ℕ} (hq : q < t.size) (hj : j < (net q).rounds) :
    (t.logAt (G.take j)).state.handOver = false := by
  rw [← hg.upTo_eq hq hj.le]
  exact (hg.live q hq).live j hj

theorem Going.reachable {q j : ℕ} (hq : q < t.size) (hj : j ≤ (net q).rounds) :
    Reachable c t.numPlayers t.startingStack (t.logAt (G.take j)) := by
  rw [← hg.upTo_eq hq hj]
  have h := ((hg.fetch q).sound.certified.upTo j).reachable
  rwa [show ((net q).log.upTo j).numPlayers = t.numPlayers from (hg.chain.node q hq).numPlayers,
    show ((net q).log.upTo j).startingStack = t.startingStack from (hg.chain.node q hq).startingStack] at h

theorem Going.proposer_in (hn : 2 ≤ t.size) {q j : ℕ} (hq : q < t.size) (hj : j ≤ (net q).rounds)
    (hlive : (t.logAt (G.take j)).state.handOver = false) :
    (t.proposer (G.take j)).toNat < t.size ∧ t.In (G.take j) (t.proposer (G.take j)).toNat := by
  have h := expectedNextPlayer_unfolded (hg.reachable hq hj) (by rw [t.numPlayers_toNat]; exact hn) hlive
  rwa [t.numPlayers_toNat] at h

theorem Going.exists_attestor (hn : 2 ≤ t.size) {q j : ℕ} (hq : q < t.size) (hj : j ≤ (net q).rounds)
    (hlive : (t.logAt (G.take j)).state.handOver = false) : ∃ w, t.Attestor (G.take j) w := by
  have htwo := ((hg.reachable hq hj).live (by rw [t.numPlayers_toNat]; exact hn) hlive).1
  obtain ⟨w, hw, hne, hfold⟩ := exists_unfolded_ne _ htwo (t.proposer (G.take j)).toNat
  have hlen := (t.logAt (G.take j)).state_shaped.folded
  rw [show (t.logAt (G.take j)).numPlayers = t.numPlayers from rfl, t.numPlayers_toNat] at hlen
  exact ⟨w, hlen ▸ hw, hne, hfold⟩

/- Where nobody times out, a committed entry is the proposal of the one attempt. -/
theorem Going.decided (hn : 2 ≤ t.size) {q : ℕ} (hq : q < t.size) (hk : k.toNat < (net q).rounds) :
    ∃ e, G[k.toNat]? = some e ∧ prop k 0 = some e := by
  have hlt : k.toNat < G.length := hk.trans_le (hg.chain.node q hq).rounds_le
  obtain ⟨e, he⟩ : ∃ e, G[k.toNat]? = some e := ⟨_, List.getElem?_eq_getElem hlt⟩
  refine ⟨e, he, ?_⟩
  -- an attestor that has gone through an attempt would have timed out in it
  have hquiet : ∀ a w, t.Attestor (G.take k.toNat) w → OutBelow (net w) k a → a = 0 := by
    intro a w _ hout
    by_contra hne
    have := hout 0 (UInt32.pos_iff_ne_zero.mpr hne)
    rw [(hg.fetch w).quiet k 0] at this
    cases this
  rcases hg.chain.decided k e he with ⟨a, _, hp, ⟨w, _, hatt, _⟩, hout, _⟩ | ⟨_, hout⟩
  · rwa [hquiet a w hatt (hout w hatt)] at hp
  · obtain ⟨w, hatt⟩ := hg.exists_attestor hn hq hk.le (hg.live_at hq hk)
    have hzero := hquiet _ w hatt (hout w hatt)
    exact absurd hzero (by unfold Table.maxAttempts Setup.maxAttempts; split_ifs with h <;> simp_all)

theorem Going.playerID {e : Entry} (he : prop k a = some e) : e.playerID = t.proposer (G.take k.toNat) := by
  obtain ⟨pk, hok⟩ := (hg.chain.proposed k a e he).verified
  exact (verifyProposal_ok hok).2.1

/- A proposal folds nobody but its proposer. -/
theorem Going.in_append (hn : 2 ≤ t.size) {w q : ℕ} {e : Entry} (hw : w < t.size)
    (hk : k.toNat ≤ (net w).rounds) (hlive : (t.logAt (G.take k.toNat)).state.handOver = false)
    (he : prop k a = some e) (hne : q ≠ (t.proposer (G.take k.toNat)).toNat) (hin : t.In (G.take k.toNat) q) :
    t.In (G.take k.toNat ++ [e]) q := by
  have hseat : e.playerID.toNat < (t.logAt (G.take k.toNat)).numPlayers.toNat := by
    rw [hg.playerID he, show (t.logAt (G.take k.toNat)).numPlayers = t.numPlayers from rfl, t.numPlayers_toNat]
    exact (hg.proposer_in hn hw hk hlive).1
  show ((t.logAt (G.take k.toNat)).append e).state.isFolded q = false
  rw [isFolded_append hlive hseat, if_neg]
  · exact hin
  · rintro ⟨_, hq⟩
    rw [hg.playerID he] at hq
    exact hne hq

/-- The log of a node that is behind is a piece of the chain of the one ahead. -/
theorem Going.log_behind (hn : 2 ≤ t.size) {q w : ℕ} (hq : q < t.size) (hw : w < t.size)
    (hlt : (net q).rounds < (net w).rounds) :
    ∃ j ≤ (net w).rounds, (net q).log = t.logAt (G.take j) := by
  have hnode := hg.chain.node q hq
  have hphase := hnode.phase
  cases hph : (net q).phase with
  | inRound k p a st =>
    cases hst : st.extended with
    | false => exact ⟨_, hlt.le, hnode.log_base hph hst⟩
    | true =>
      obtain ⟨hk, _, _, _, hlog, _⟩ := hnode.inRound hph
      rw [LogInv, if_pos hst] at hlog
      obtain ⟨e, hlog, he⟩ := hlog
      rw [(hg.fetch q).attempt_zero hnode hph] at he
      obtain ⟨e', hG, he'⟩ := hg.decided hn hw (k := k) (by omega)
      obtain rfl := Option.some.inj (he.symm.trans he')
      refine ⟨(net q).rounds + 1, hlt, ?_⟩
      rw [hnode.log_eq, hlog, ← hk, take_append_entry hG]
  | idle =>
    rw [hph] at hphase
    exact ⟨_, hlt.le, by rw [hnode.log_eq]; exact congrArg t.logAt hphase⟩
  | failed =>
    rw [hph] at hphase
    exact ⟨_, hlt.le, by rw [hnode.log_eq]; exact congrArg t.logAt hphase⟩

end Facts

/-! ### Who can go on -/

/-- The seat is in, by its own log. -/
def Standing (t : Table c) (net : Net) (q : ℕ) : Prop := q < t.size ∧ (net q).log.state.isFolded q = false

def Input.isSubmit : Input → Bool
  | .submit _ => true
  | _ => false

/-- The node can take a step without a deadline and without its player. -/
def CanStep (t : Table c) (net : Net) (q : ℕ) : Prop :=
  ∃ i r, i.isSubmit = false ∧ i.isDeadline = false ∧ Served t (fun _ => true) net q i ∧
    (net q).step (t.setup q) i = some r

/-- The node waits for the action of its player. -/
def AwaitsAction (net : Net) (q : ℕ) : Prop :=
  ∃ k p a, (net q).phase = .inRound k p a .choosing ∧ (net q).actionCh = none

section Stages
variable {q : ℕ}

theorem canStep_append {e : Entry} (hphase : (net q).phase = .inRound k p a (.hosted e)) : CanStep t net q :=
  ⟨.append, _, rfl, rfl, trivial, by simp only [Runner.step, Runner.append, hphase]; rfl⟩

theorem canStep_fetched {data : Bytes} (h : FetchInv t net q)
    (hphase : (net q).phase = .inRound k p a (.fetched data)) : CanStep t net q := by
  obtain ⟨e, hdec, hok⟩ : Verified t (net q).log data := h.stage _ _ _ _ hphase
  exact ⟨.append, _, rfl, rfl, trivial, append_of_verified hphase hdec hok⟩

theorem canStep_appended (hphase : (net q).phase = .inRound k p a .appended) : CanStep t net q :=
  ⟨.hostReceipt, _, rfl, rfl, trivial, by simp only [Runner.step, Runner.hostReceipt, hphase]; rfl⟩

theorem canStep_returned {timeout : Option Bytes} (hphase : (net q).phase = .inRound k p a (.returned timeout)) :
    CanStep t net q :=
  ⟨.cleanup, _, rfl, rfl, trivial, by simp only [Runner.step, Runner.cleanup, hphase]; rfl⟩

theorem canStep_cleaned (hphase : (net q).phase = .inRound k p a (.cleaned none)) : CanStep t net q :=
  ⟨.conclude, _, rfl, rfl, trivial, by simp only [Runner.step, Runner.conclude, hphase]; rfl⟩

theorem canStep_choosing (hphase : (net q).phase = .inRound k p a .choosing) :
    CanStep t net q ∨ AwaitsAction net q := by
  cases hch : (net q).actionCh with
  | none => exact .inr ⟨k, p, a, hphase, hch⟩
  | some action =>
    left
    refine ⟨.propose, ?_⟩
    simp only [Runner.step, Runner.propose, hphase, hch]
    split
    · exact ⟨_, rfl, rfl, trivial, rfl⟩
    · exact ⟨_, rfl, rfl, trivial, rfl⟩

theorem canStep_idle (hphase : (net q).phase = .idle) (hlive : (net q).log.state.handOver = false)
    (hshort : (net q).log.entries.length + 1 < 2 ^ 63) : CanStep t net q :=
  ⟨.beginRound, _, rfl, rfl, trivial, by
    simp only [Runner.step, Runner.beginRound, hphase, if_pos (And.intro hlive hshort)]; rfl⟩

theorem canStep_polling (hphase : (net q).phase = .inRound k p a .polling)
    (hhosts : (net (net q).log.expectedNextPlayer.toNat).Hosts (.proposal k a)) : CanStep t net q := by
  obtain ⟨data, hdata⟩ := Option.isSome_iff_exists.mp hhosts
  refine ⟨.proposal data, _, rfl, rfl, ?_, by simp only [Runner.step, Runner.proposal, hphase]; rfl⟩
  simp only [Served, hphase]
  exact fun _ => hdata

theorem canStep_receipt {got : List ℕ} {w : ℕ} (hphase : (net q).phase = .inRound k p a (.collecting got))
    (hw : w ∈ (net q).receiptSeats (t.setup q)) (hnew : w ∉ got) (hhosts : (net w).Hosts (.verify k a (t.nodeID w))) :
    CanStep t net q := by
  obtain ⟨data, hdata⟩ := Option.isSome_iff_exists.mp hhosts
  refine ⟨.receipt w data, _, rfl, rfl, ?_, by
    simp only [Runner.step, Runner.receipt, hphase, if_pos (And.intro hw hnew)]; rfl⟩
  simp only [Served, hphase]
  exact fun _ => hdata

theorem canStep_collected {got : List ℕ} (hphase : (net q).phase = .inRound k p a (.collecting got))
    (hall : ∀ w ∈ (net q).receiptSeats (t.setup q), w ∈ got) : CanStep t net q :=
  ⟨.collected, _, rfl, rfl, trivial, by simp only [Runner.step, Runner.collected, hphase, if_pos hall]; rfl⟩

end Stages

/-- A seat that is in and has so many rounds can go on, or waits for its player. -/
def SomeoneGoes (t : Table c) (net : Net) (n : ℕ) : Prop :=
  ∃ q, Standing t net q ∧ (net q).rounds = n ∧ (CanStep t net q ∨ AwaitsAction net q)

section Progress
variable (hg : Going t net G prop)
include hg

/- Nothing is appended yet. -/
theorem Going.standing_base {q : ℕ} (hq : q < t.size) (hphase : (net q).phase = .inRound k p a st)
    (hst : st.extended = false) (hin : t.In (G.take (net q).rounds) q) : Standing t net q := by
  refine ⟨hq, ?_⟩
  rw [(hg.chain.node q hq).log_base hphase hst]
  exact hin

theorem Going.in_of_standing {q : ℕ} (hst : Standing t net q) : t.In (G.take (net q).rounds) q := by
  obtain ⟨hq, hfold⟩ := hst
  unfold Table.In
  rw [← hg.upTo_eq hq le_rfl]
  by_contra hc
  have hle := le_max_left (net q).rounds (net q).log.entries.length
  have := Log.isFolded_of_upTo hle (by simpa using hc)
  rw [Log.upTo_eq_self (le_max_right ..), hfold] at this
  cases this

/- In a round, the log it was begun with and the seat to act. -/
theorem Going.in_round {q : ℕ} (hq : q < t.size) (hphase : (net q).phase = .inRound k p a st) :
    k.toNat = (net q).rounds ∧ a = 0 ∧ p = t.proposer (G.take k.toNat) ∧
      (t.logAt (G.take k.toNat)).state.handOver = false := by
  obtain ⟨hk, _, hp, hlive, _, _⟩ := (hg.fetch q).sound.inRound hphase
  rw [Runner.base, hg.upTo_eq hq le_rfl, ← hk] at hp hlive
  exact ⟨hk, (hg.fetch q).attempt_zero (hg.chain.node q hq) hphase, hp, hlive⟩

/- The log of a node that has appended the entry of its round. -/
theorem Going.log_extended {q : ℕ} (hq : q < t.size) (hphase : (net q).phase = .inRound k p a st)
    (hst : st.extended = true) :
    ∃ e, prop k 0 = some e ∧ (net q).log = t.logAt (G.take k.toNat ++ [e]) := by
  have hnode := hg.chain.node q hq
  obtain ⟨hk, _, _, _, hlog, _⟩ := hnode.inRound hphase
  rw [LogInv, if_pos hst] at hlog
  obtain ⟨e, hlog, he⟩ := hlog
  rw [(hg.fetch q).attempt_zero hnode hphase] at he
  exact ⟨e, he, by rw [hnode.log_eq, hlog, hk]⟩

variable (hn : 2 ≤ t.size)
include hn

theorem Going.standing_behind {q w : ℕ} (hq : q < t.size) (hw : w < t.size)
    (hlt : (net q).rounds < (net w).rounds) (hin : t.In (G.take (net w).rounds) q) : Standing t net q := by
  obtain ⟨j, hj, hlog⟩ := hg.log_behind hn hq hw hlt
  refine ⟨hq, ?_⟩
  rw [hlog]
  exact hin.of_take hj

/-- A commit has waited for the receipts of the seats that are in, so they have the proposal. -/
theorem Going.fetched_of_commit {q w : ℕ} (hq : q < t.size) (hw : w < t.size) (hne : q ≠ w)
    (hlive : (t.logAt (G.take k.toNat)).state.handOver = false)
    (hcom : k.toNat < (net w).rounds ∨ ∃ p a, (net w).phase = .inRound k p a (.cleaned none))
    (hnot : q ≠ (t.proposer (G.take k.toNat)).toNat) (hin : t.In (G.take k.toNat) q) :
    (net q).hasFetched k 0 = true := by
  rcases hcom with hlt | ⟨p, a, hphase⟩
  · obtain ⟨e, hG, he⟩ := hg.decided hn hw hlt
    refine (hg.live w hw).past k hlt q hq hne ?_
    rw [hg.upTo_eq hw hlt, take_append_entry hG]
    exact hg.in_append hn hw hlt.le hlive he hnot hin
  · obtain ⟨hk, rfl, _, _⟩ := hg.in_round hw hphase
    obtain ⟨e, he, hlog⟩ := hg.log_extended hw hphase rfl
    obtain ⟨_, hread⟩ : StageLive t net w (net w) k p 0 (.cleaned none) := (hg.live w hw).stage _ _ _ _ hphase
    refine hread q ((t.mem_receiptSeats hw).mpr ⟨hq, hne, ?_⟩)
    rw [hlog]
    exact hg.in_append hn hw hk.le hlive he hnot hin

variable (hshort : ∀ q < t.size, (net q).log.entries.length + 1 < 2 ^ 63)
include hshort

omit hn in
/-- A seat that has not begun the round of another one begins it. -/
theorem Going.idle_goes {w : ℕ} (hw : w < t.size) (hphase : (net w).phase = .idle)
    (hlive : (t.logAt (G.take (net w).rounds)).state.handOver = false) (hin : t.In (G.take (net w).rounds) w) :
    SomeoneGoes t net (net w).rounds := by
  have hlog := hg.log_idle hw hphase
  refine ⟨w, ⟨hw, ?_⟩, rfl, .inl (canStep_idle hphase ?_ (hshort w hw))⟩
  · rw [hlog]
    exact hin
  · rwa [hlog]

omit hn in
/-- The proposer of a round hosts its proposal, or goes on itself, or has committed. -/
theorem Going.proposer_goes {q : ℕ} (hq : q < t.size) (hin : t.In (G.take (net q).rounds) q)
    (hlive : (t.logAt (G.take (net q).rounds)).state.handOver = false)
    (hturn : (t.proposer (G.take (net q).rounds)).toNat = q) :
    SomeoneGoes t net (net q).rounds ∨
      (∃ k : UInt64, k.toNat = (net q).rounds ∧ (net q).Hosts (.proposal k 0)) ∨
      ∃ k p a, (net q).phase = .inRound k p a (.cleaned none) := by
  cases hph : (net q).phase with
  | failed => exact absurd hph (hg.live q hq).healthy
  | idle => exact .inl (hg.idle_goes hshort hq hph hlive hin)
  | inRound k p a st =>
    obtain ⟨hk, rfl, hp, _⟩ := hg.in_round hq hph
    have hself : p.toNat = q := by rw [hp, hk, hturn]
    have hstage := (hg.live q hq).stage _ _ _ _ hph
    have hfetch := (hg.fetch q).stage _ _ _ _ hph
    have hsound := (hg.fetch q).sound.stage hph
    -- it is not a verifier
    have hrole : st.extended = false → (net q).isProposer (t.setup q) = true := by
      intro hst
      rw [(hg.fetch q).proposer hph hst, hself, decide_eq_true rfl]
    cases st with
    | choosing => exact .inl ⟨q, hg.standing_base hq hph rfl hin, rfl, canStep_choosing hph⟩
    | hosted e => exact .inl ⟨q, hg.standing_base hq hph rfl hin, rfl, .inl (canStep_append hph)⟩
    | polling => exact absurd hsound (by rw [StageSound, hrole rfl]; simp)
    | fetched data => exact absurd hsound (by rw [StageSound, hrole rfl]; simp)
    | appended => exact .inr (.inl ⟨k, hk, hstage hself⟩)
    | collecting got => exact .inr (.inl ⟨k, hk, hstage.1 hself⟩)
    | returned timeout =>
      cases timeout with
      | none => exact .inr (.inl ⟨k, hk, hstage.1 hself⟩)
      | some reason => exact hfetch.elim
    | cleaned timeout =>
      cases timeout with
      | none => exact .inr (.inr ⟨k, p, 0, rfl⟩)
      | some reason => exact hfetch.elim
    | silent reason => exact hfetch.elim
    | attesting => exact hfetch.elim
    | gathering cosigs => exact hfetch.elim

theorem Going.polling_goes {q : ℕ} (hst : Standing t net q)
    (hmin : ∀ w, Standing t net w → (net q).rounds ≤ (net w).rounds)
    (hphase : (net q).phase = .inRound k p a .polling) : SomeoneGoes t net (net q).rounds := by
  have hq := hst.1
  obtain ⟨hk, rfl, hp, hlive⟩ := hg.in_round hq hphase
  obtain ⟨hps, hpin⟩ := hg.proposer_in hn hq hk.le hlive
  rw [← hp] at hps hpin
  have hrole : (net q).isProposer (t.setup q) = false := (hg.fetch q).sound.stage hphase
  rw [(hg.fetch q).proposer hphase rfl, decide_eq_false_iff_not] at hrole
  -- who is polling has not fetched, so the proposer has not committed
  have hnot : ¬ (k.toNat < (net p.toNat).rounds ∨
      ∃ p' a', (net p.toNat).phase = .inRound k p' a' (.cleaned none)) := by
    intro hcom
    have hfetched := hg.fetched_of_commit hn hq hps (Ne.symm hrole) hlive hcom (by rw [← hp]; exact Ne.symm hrole)
      (hk ▸ hg.in_of_standing hst)
    simp [Runner.hasFetched, hphase, Stage.hasFetched, hk] at hfetched
  rcases Nat.lt_trichotomy (net p.toNat).rounds k.toNat with hlt | heq | hgt
  · have := hmin _ (hg.standing_behind hn hps hq (hk ▸ hlt) (hk ▸ hpin))
    omega
  · rcases hg.proposer_goes hshort hps (heq ▸ hpin) (heq ▸ hlive) (by rw [heq, ← hp]) with
      hgoes | ⟨k', hk', hhosts⟩ | ⟨k', p', a', hclean⟩
    · rwa [heq, hk] at hgoes
    · obtain rfl : k' = k := UInt64.toNat_inj.mp (by omega)
      refine ⟨q, hst, rfl, .inl (canStep_polling hphase ?_)⟩
      rw [(hg.chain.node q hq).log_base hphase rfl, ← hk]
      rw [hp] at hhosts
      exact hhosts
    · obtain rfl : k' = k := UInt64.toNat_inj.mp (((hg.in_round hps hclean).1).trans heq)
      exact absurd (.inr ⟨p', a', hclean⟩) hnot
  · exact absurd (.inl hgt) hnot

omit hshort in
/-- A node that is not done with a round keeps the others from dropping its files. -/
theorem Going.not_two_ahead {q w : ℕ} {e : Entry} (hq : q < t.size) (hw : w < t.size) (hne : q ≠ w)
    (hphase : (net q).phase = .inRound k p a st) (he : prop k 0 = some e) (hin : t.In (G.take k.toNat ++ [e]) q) :
    (net w).rounds ≤ k.toNat + 1 := by
  obtain ⟨hk, _, _, _⟩ := hg.in_round hq hphase
  by_contra hgt
  have hbound := ((hg.fetch q).sound.inRound hphase).2.1
  have hnext : (k + 1).toNat = k.toNat + 1 := by
    rw [UInt64.toNat_add, UInt64.toNat_one, Nat.mod_eq_of_lt (by omega)]
  obtain ⟨e', hG, he'⟩ := hg.decided hn hw (k := k) (by omega)
  obtain rfl := Option.some.inj (he.symm.trans he')
  obtain ⟨e2, _, he2⟩ := hg.decided hn hw (k := k + 1) (by omega)
  -- the entry after this round is not of a seat that is still in it
  have hnot : q ≠ (t.proposer (G.take (k + 1).toNat)).toNat := by
    intro heq
    have hpassed := (hg.chain.proposed _ _ _ he2).passed
    rw [← heq] at hpassed
    rcases hpassed with hlt | hfail | ⟨p', b, st', hph, _⟩
    · omega
    · rw [hphase] at hfail
      cases hfail
    · rw [hphase] at hph
      have := congrArg UInt64.toNat (Phase.inRound.inj hph).1
      omega
  have hfetched := hg.fetched_of_commit hn (k := k + 1) hq hw hne (hg.live_at hw (by omega)) (.inl (by omega)) hnot
    (by rw [hnext, take_append_entry hG]; exact hin)
  simp only [Runner.hasFetched, hphase, Bool.or_eq_true, decide_eq_true_eq, Bool.and_eq_true, beq_iff_eq] at hfetched
  rcases hfetched with hlt | ⟨⟨heq, _⟩, _⟩
  · omega
  · have := congrArg UInt64.toNat heq
    omega

theorem Going.collecting_goes {q : ℕ} {got : List ℕ} (hst : Standing t net q)
    (hmin : ∀ w, Standing t net w → (net q).rounds ≤ (net w).rounds)
    (hphase : (net q).phase = .inRound k p a (.collecting got)) : SomeoneGoes t net (net q).rounds := by
  have hq := hst.1
  obtain ⟨hk, rfl, _, hlive⟩ := hg.in_round hq hphase
  obtain ⟨e, he, hlog⟩ := hg.log_extended hq hphase rfl
  have hinq : t.In (G.take k.toNat ++ [e]) q := by
    have h := hst.2
    rwa [hlog] at h
  by_cases hall : ∀ w ∈ (net q).receiptSeats (t.setup q), w ∈ got
  · exact ⟨q, hst, rfl, .inl (canStep_collected hphase hall)⟩
  push Not at hall
  obtain ⟨w, hmem, hnew⟩ := hall
  obtain ⟨hw, hne, hfold⟩ := (t.mem_receiptSeats hq).mp hmem
  rw [hlog] at hfold
  have hinw : t.In (G.take k.toNat) w := by
    by_contra hc
    have hfolded := Log.isFolded_append_of_folded (e := e) (l := t.logAt (G.take k.toNat))
      (by simpa [Table.In] using hc)
    rw [show ((t.logAt (G.take k.toNat)).append e).state.isFolded w = false from hfold] at hfolded
    cases hfolded
  have hreceipt : (net w).Hosts (.verify k 0 (t.nodeID w)) → SomeoneGoes t net (net q).rounds :=
    fun hhosts => ⟨q, hst, rfl, .inl (canStep_receipt hphase hmem hnew hhosts)⟩
  rcases Nat.lt_trichotomy (net w).rounds k.toNat with hlt | heq | hgt
  · have := hmin _ (hg.standing_behind hn hw hq (hk ▸ hlt) (hk ▸ hinw))
    omega
  · have hlevel : (net w).rounds = (net q).rounds := heq.trans hk
    cases hph : (net w).phase with
    | failed => exact absurd hph (hg.live w hw).healthy
    | idle => exact hlevel ▸ hg.idle_goes hshort hw hph (heq ▸ hlive) (heq ▸ hinw)
    | inRound k' p' a' st' =>
      obtain ⟨hk', rfl, _, _⟩ := hg.in_round hw hph
      obtain rfl : k' = k := UInt64.toNat_inj.mp (by omega)
      have hbase := fun h => hg.standing_base hw hph h (heq ▸ hinw)
      have hstage := (hg.live w hw).stage _ _ _ _ hph
      have hfetch := (hg.fetch w).stage _ _ _ _ hph
      cases st' with
      | choosing => exact ⟨w, hbase rfl, hlevel, canStep_choosing hph⟩
      | hosted e => exact ⟨w, hbase rfl, hlevel, .inl (canStep_append hph)⟩
      | polling =>
        refine hlevel ▸ hg.polling_goes hn hshort (hbase rfl) (fun v hv => ?_) hph
        have := hmin v hv
        omega
      | fetched data => exact ⟨w, hbase rfl, hlevel, .inl (canStep_fetched (hg.fetch w) hph)⟩
      | appended =>
        obtain ⟨e', he', hlog'⟩ := hg.log_extended hw hph rfl
        obtain rfl := Option.some.inj (he.symm.trans he')
        exact ⟨w, ⟨hw, by rw [hlog']; exact hfold⟩, hlevel, .inl (canStep_appended hph)⟩
      | collecting got' => exact hreceipt hstage.2
      | returned timeout =>
        cases timeout with
        | none => exact hreceipt hstage.2.1
        | some reason => exact hfetch.elim
      | cleaned timeout =>
        cases timeout with
        | none => exact hreceipt hstage.1
        | some reason => exact hfetch.elim
      | silent reason => exact hfetch.elim
      | attesting => exact hfetch.elim
      | gathering cosigs => exact hfetch.elim
  · have hle := hg.not_two_ahead hn hq hw hne.symm hphase he hinq
    exact hreceipt ((hg.live w hw).last k (by omega))

/-- The seats with the fewest rounds go on, unless the hand is over for them. -/
theorem Going.lowest_goes {q : ℕ} (hst : Standing t net q)
    (hmin : ∀ w, Standing t net w → (net q).rounds ≤ (net w).rounds) :
    SomeoneGoes t net (net q).rounds ∨
      ∀ w, Standing t net w → (net w).phase = .idle ∧ (net w).log.state.handOver = true := by
  have hq := hst.1
  cases hph : (net q).phase with
  | failed => exact absurd hph (hg.live q hq).healthy
  | idle =>
    cases hover : (t.logAt (G.take (net q).rounds)).state.handOver with
    | false => exact .inl (hg.idle_goes hshort hq hph hover (hg.in_of_standing hst))
    | true =>
      -- nobody begins a round after the hand is over
      right
      intro w hstw
      have hw := hstw.1
      rcases (hmin w hstw).eq_or_lt with heq | hlt
      · cases hphw : (net w).phase with
        | failed => exact absurd hphw (hg.live w hw).healthy
        | idle =>
          refine ⟨rfl, ?_⟩
          rw [hg.log_idle hw hphw, ← heq]
          exact hover
        | inRound k p a st =>
          obtain ⟨hk, _, _, hlive⟩ := hg.in_round hw hphw
          rw [hk, ← heq, hover] at hlive
          cases hlive
      · rw [hg.live_at hw hlt] at hover
        cases hover
  | inRound k p a st =>
    left
    have hfetch := (hg.fetch q).stage _ _ _ _ hph
    cases st with
    | choosing => exact ⟨q, hst, rfl, canStep_choosing hph⟩
    | hosted e => exact ⟨q, hst, rfl, .inl (canStep_append hph)⟩
    | polling => exact hg.polling_goes hn hshort hst hmin hph
    | fetched data => exact ⟨q, hst, rfl, .inl (canStep_fetched (hg.fetch q) hph)⟩
    | appended => exact ⟨q, hst, rfl, .inl (canStep_appended hph)⟩
    | collecting got => exact hg.collecting_goes hn hshort hst hmin hph
    | returned timeout => exact ⟨q, hst, rfl, .inl (canStep_returned hph)⟩
    | cleaned timeout =>
      cases timeout with
      | none => exact ⟨q, hst, rfl, .inl (canStep_cleaned hph)⟩
      | some reason => exact hfetch.elim
    | silent reason => exact hfetch.elim
    | attesting => exact hfetch.elim
    | gathering cosigs => exact hfetch.elim

end Progress

end Live

/-- Without deadlines the betting never stands still: a seat that is in can take a
step, or waits for its player, until the hand is over for all that are in. -/
theorem betting_progress (c : Primitives) (t : Table c) (hn : 2 ≤ t.size) (net : Net)
    (h : Reaches t (fun _ => true) (FoldedHaveFetched t)
      (Net.start (newLog t.numPlayers t.startingStack)) net)
    (hshort : ∀ q < t.size, (net q).log.entries.length + 1 < 2 ^ 63) :
    (∃ q, Standing t net q ∧ (CanStep t net q ∨ AwaitsAction net q)) ∨
      ∀ q, Standing t net q → (net q).phase = .idle ∧ (net q).log.state.handOver = true := by
  classical
  obtain ⟨G, prop, hg⟩ := Going.reaches hn h
  by_cases hsome : ∃ q, Standing t net q
  · obtain ⟨q, hq⟩ := hsome
    have hne : ((Finset.range t.size).filter fun q => Standing t net q).Nonempty :=
      ⟨q, Finset.mem_filter.mpr ⟨Finset.mem_range.mpr hq.1, hq⟩⟩
    obtain ⟨m, hm, hmin⟩ := Finset.exists_min_image _ (fun q => (net q).rounds) hne
    have hlow := hg.lowest_goes hn hshort (Finset.mem_filter.mp hm).2 fun w hw =>
      hmin w (Finset.mem_filter.mpr ⟨Finset.mem_range.mpr hw.1, hw⟩)
    refine hlow.imp_left ?_
    rintro ⟨w, hw, _, hgoes⟩
    exact ⟨w, hw, hgoes⟩
  · exact .inr fun q hq => absurd ⟨q, hq⟩ hsome

/- Without folds, a run without deadlines is one in which nobody loses an entry. -/
theorem reaches_of_none_folded {c : Primitives} {t : Table c} {start net : Net}
    (h : Reaches t (fun _ => true) withoutDeadlines start net)
    (hin : ∀ s < t.size, ∀ q < t.size, (net s).log.state.isFolded q = false) :
    Reaches t (fun _ => true) (FoldedHaveFetched t) start net := by
  induction h with
  | refl => exact .refl
  | @tail net net' _ hstep ih =>
    cases hstep with
    | @node s i r hs hh hserved hP hrun =>
      -- a log never loses a fold
      have hlog : r.log = (net s).log ∨ ∃ e, r.log = (net s).log.append e := by
        cases Runner.step_move hrun with
        | receiptFailed => cases hP
        | appendOwn => exact .inr ⟨_, rfl⟩
        | appendFetched => exact .inr ⟨_, rfl⟩
        | fold _ _ happ => exact .inr ⟨_, (appendAutoFold_ok happ).2⟩
        | _ => exact .inl rfl
      have hbefore : ∀ v < t.size, ∀ q < t.size, (net v).log.state.isFolded q = false := by
        intro v hv q hq
        have hafter := hin v hv q hq
        rcases eq_or_ne v s with rfl | hne
        · rw [Function.update_self] at hafter
          rcases hlog with hsame | ⟨e, happend⟩
          · rwa [hsame] at hafter
          · by_contra hc
            rw [happend, Log.isFolded_append_of_folded (by simpa using hc)] at hafter
            cases hafter
        · rwa [Function.update_of_ne hne] at hafter
      refine (ih hbefore).tail (.node hs hh hserved ⟨hP, ?_⟩ hrun)
      split
      · intro _ q hq _ hfold
        rw [hbefore s hs q hq] at hfold
        cases hfold
      · trivial

theorem checkTaken_runs : (exec threeHanded (fun _ => true) (FoldedHaveFetched threeHanded)
    (Net.start (newLog 3 100)) (followed 0 ⟨.check, 0⟩ [1, 2] ++ commitsAfter 0 [1, 2])).isSome = true := by
  decide +kernel

/-- Seat 0 has checked and committed; seats 1 and 2 have taken its entry. -/
def checkTaken : Net := runTo threeHanded (fun _ => true) (FoldedHaveFetched threeHanded) _ _ checkTaken_runs

theorem betting_progress_check :
    (∃ q, Standing threeHanded checkTaken q ∧ (CanStep threeHanded checkTaken q ∨ AwaitsAction checkTaken q)) ∨
      ∀ q, Standing threeHanded checkTaken q →
        (checkTaken q).phase = .idle ∧ (checkTaken q).log.state.handOver = true :=
  betting_progress .transparent threeHanded (by decide) checkTaken (runTo_reaches ..) (by decide +kernel)

end P2Poker.Round
