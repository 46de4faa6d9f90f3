import P2Poker.Round.Network

/-!
# What a step can do

Every step of a node is one of the moves below: the stage it starts from, what
was checked, and the node afterwards. The facts about a node's history follow.
-/

namespace P2Poker.Round
open P2Poker.Lib P2Poker.Crypto P2Poker.Game P2Poker.Ephemeral

/- The stages in which the attempt's deadline ends it with nothing to roll back. -/
def Stage.waiting : Stage → Bool
  | .choosing => true
  | .polling => true
  | .fetched _ => true
  | .silent _ => true
  | _ => false

/- The stages with the attempt's entry in the log. -/
def Stage.extended : Stage → Bool
  | .appended => true
  | .collecting _ => true
  | .returned none => true
  | .cleaned none => true
  | _ => false

def Stage.folding : Stage → Bool
  | .attesting => true
  | .gathering _ => true
  | _ => false

theorem Stage.flags_of_waiting {st : Stage} (h : st.waiting = true) :
    st.folding = false ∧ st.extended = false := by
  cases st <;> simp_all [Stage.waiting, Stage.folding, Stage.extended]

namespace Runner
variable {c : Primitives}

@[simp] theorem startStage_extended (u : Setup c) (r : Runner) : (r.startStage u).extended = false := by
  unfold startStage
  split_ifs <;> rfl

inductive Move (u : Setup c) (r : Runner) : Input → Runner → Prop
  | submit {s ch calls} : (∀ a, r.actionCh = some a → ch = some a) →
      Move u r (.submit s) { r with actionCh := ch, submitting := calls }
  | beginRound : r.phase = .idle → r.log.state.handOver = false → r.log.entries.length + 1 < 2 ^ 63 →
      Move u r .beginRound
        { r with phase := .inRound r.log.roundID r.log.expectedNextPlayer 0 (r.startStage u) }
  | reject {k p a event} : r.phase = .inRound k p a .choosing → event.outcome = .rejected →
      Move u r .propose { r with actionCh := none, events := r.events ++ [event] }
  | propose {k p a action} : r.phase = .inRound k p a .choosing →
      r.log.verifyProposal c (r.log.buildProposal c u.mySeat action u.sk) u.pk = .ok () →
      Move u r .propose
        { r with
          actionCh := none
          store := r.store.put (proposalKey k a)
            (u.entryCodec.encode (r.log.buildProposal c u.mySeat action u.sk))
          phase := .inRound k p a (.hosted (r.log.buildProposal c u.mySeat action u.sk)) }
  | proposal {k p a data} : r.phase = .inRound k p a .polling →
      Move u r (.proposal data) { r with phase := .inRound k p a (.fetched data) }
  | appendOwn {k p a e} : r.phase = .inRound k p a (.hosted e) →
      Move u r .append { r with log := r.log.append e, phase := .inRound k p a .appended }
  | undecoded {k p a data reason} : r.phase = .inRound k p a (.fetched data) →
      u.entryCodec.decode data = none →
      Move u r .append { r with phase := .inRound k p a (.returned (some reason)) }
  | invalid {k p a data reason} : r.phase = .inRound k p a (.fetched data) →
      Move u r .append { r with phase := .inRound k p a (.silent reason) }
  | appendFetched {k p a data e} : r.phase = .inRound k p a (.fetched data) →
      u.entryCodec.decode data = some e →
      r.log.verifyProposal c e ((u.peerPK (u.nodeID r.log.expectedNextPlayer.toNat)).getD []) =
        .ok () →
      Move u r .append { r with log := r.log.append e, phase := .inRound k p a .appended }
  | hostReceipt {k p a} : r.phase = .inRound k p a .appended →
      Move u r .hostReceipt
        { r with
          store := r.store.put (verifyKey k a (u.nodeID u.seatIdx))
            (u.receiptCodec.encode (r.log.buildVerifyReceipt c u.mySeat u.sk))
          phase := .inRound k p a (.collecting []) }
  | receipt {k p a got seat data} : r.phase = .inRound k p a (.collecting got) →
      seat ∈ r.receiptSeats u → seat ∉ got →
      Move u r (.receipt seat data) { r with phase := .inRound k p a (.collecting (seat :: got)) }
  | collected {k p a got} : r.phase = .inRound k p a (.collecting got) →
      (∀ seat ∈ r.receiptSeats u, seat ∈ got) →
      Move u r .collected { r with phase := .inRound k p a (.returned none) }
  | deadline {k p a st reason} : r.phase = .inRound k p a st → st.waiting = true →
      Move u r .deadline { r with phase := .inRound k p a (.returned (some reason)) }
  | receiptFailed {k p a got seat reason} : r.phase = .inRound k p a (.collecting got) →
      Move u r (.receiptFailed seat)
        { r with
          log := r.log.rollbackLast, phase := .inRound k p a (.returned (some reason)) }
  | cleanup {k p a timeout} : r.phase = .inRound k p a (.returned timeout) →
      Move u r .cleanup
        { r with store := r.cleanupAttempt u k a, phase := .inRound k p a (.cleaned timeout) }
  | commit {k p a} : r.phase = .inRound k p a (.cleaned none) →
      Move u r .conclude
        { r with
          store := r.pruneStore k
          events := r.events ++ [⟨k, a, .committed, []⟩]
          rounds := r.rounds + 1
          phase := .idle }
  | nextAttempt {k p a reason} : r.phase = .inRound k p a (.cleaned (some reason)) →
      Move u r .conclude
        { r with
          events := r.events ++ [⟨k, a, .timeout, reason⟩]
          phase := .inRound k p (a + 1)
            (if a + 1 < u.maxAttempts then r.startStage u else .attesting) }
  | noAttestors {k p a err} : r.phase = .inRound k p a .attesting →
      Move u r .attest (({ r with store := r.hostAttestation u k p }).failAutoFold k err)
  | attest {k p a} : r.phase = .inRound k p a .attesting →
      Move u r .attest
        { r with
          store := r.hostAttestation u k p, phase := .inRound k p a (.gathering (r.ownCosigs u k p)) }
  | attestation {k p a cosigs seat data} : r.phase = .inRound k p a (.gathering cosigs) →
      Move u r (.attestation seat data)
        { r with
          phase := .inRound k p a (.gathering
            (cosigs.map fun x => if x = (seat, none) then (seat, some data) else x)) }
  | attestationFailed {k p a cosigs seat err} : r.phase = .inRound k p a (.gathering cosigs) →
      Move u r (.attestationFailed seat) (r.failAutoFold k err)
  | foldRefused {k p a cosigs err} : r.phase = .inRound k p a (.gathering cosigs) →
      Move u r .foldProposer (r.failAutoFold k err)
  | fold {k p a cosigs signed log} : r.phase = .inRound k p a (.gathering cosigs) →
      cosigs.mapM (fun x => x.2.map fun sig => (x.1, sig)) = some signed →
      r.log.appendAutoFold c (autoFoldEntry k p signed) (attestorPKs u (cosigs.map Prod.fst)) =
        .ok log →
      Move u r .foldProposer
        { r with
          log := log
          events := r.events ++ [⟨k, 0, .autoFold, []⟩]
          rounds := r.rounds + 1
          phase := .idle }

/-- A section of `SubmitAction` touches the calls under way and an empty channel only. -/
theorem submitAction_spec {u : Setup c} {r r' : Runner} {s : Submit} (h : r.submitAction u s = some r') :
    ∃ ch calls, (∀ a, r.actionCh = some a → ch = some a) ∧ r' = { r with actionCh := ch, submitting := calls } := by
  cases s with
  | turn a =>
    simp only [submitAction] at h
    split_ifs at h
    exact ⟨r.actionCh, _, fun _ h => h, (Option.some.inj h).symm⟩
  | rules call =>
    simp only [submitAction] at h
    split at h
    · split at h
      · exact ⟨r.actionCh, _, fun _ h => h, (Option.some.inj h).symm⟩
      · exact ⟨r.actionCh, _, fun _ h => h, (Option.some.inj h).symm⟩
    · cases h
  | send call =>
    simp only [submitAction] at h
    split at h
    · split at h
      · exact ⟨r.actionCh, _, fun _ h => h, (Option.some.inj h).symm⟩
      · rename_i hnone
        exact ⟨_, _, by simp [hnone], (Option.some.inj h).symm⟩
    · cases h

theorem propose_move {u : Setup c} {r r' : Runner} (h : r.propose u = some r') :
    Move u r .propose r' := by
  unfold propose at h
  split at h
  case h_1 hphase hch =>
    dsimp only at h
    split at h
    · cases h
      exact .reject hphase rfl
    · cases h
      exact .propose hphase (by assumption)
  case h_2 => cases h

theorem append_move {u : Setup c} {r r' : Runner} (h : r.append u = some r') :
    Move u r .append r' := by
  unfold append at h
  split at h
  case h_1 hphase =>
    cases h
    exact .appendOwn hphase
  case h_2 hphase =>
    split at h
    · cases h
      exact .undecoded hphase (by assumption)
    · dsimp only at h
      split at h
      · cases h
        exact .invalid hphase
      · cases h
        exact .appendFetched hphase (by assumption) (by assumption)
  case h_3 => cases h

theorem deadline_move {u : Setup c} {r r' : Runner} (h : r.deadline u = some r') :
    Move u r .deadline r' := by
  unfold deadline at h
  dsimp only at h
  split at h
  case h_5 => cases h
  all_goals
    cases h
    exact .deadline (by assumption) rfl

theorem attest_move {u : Setup c} {r r' : Runner} (h : r.attest u = some r') :
    Move u r .attest r' := by
  unfold attest at h
  split at h
  case h_1 hphase =>
    dsimp only at h
    split at h
    · cases h
      exact .noAttestors hphase
    · cases h
      exact .attest hphase
  case h_2 => cases h

theorem foldProposer_move {u : Setup c} {r r' : Runner} (h : r.foldProposer u = some r') :
    Move u r .foldProposer r' := by
  unfold foldProposer at h
  split at h
  case h_1 hphase =>
    split at h
    · cases h
    · dsimp only at h
      split at h
      · cases h
        exact .foldRefused hphase
      · cases h
        exact .fold hphase (by assumption) (by assumption)
  case h_2 => cases h

theorem step_move {u : Setup c} {r r' : Runner} {i : Input} (h : r.step u i = some r') :
    Move u r i r' := by
  cases i with
  | propose => exact propose_move h
  | append => exact append_move h
  | deadline => exact deadline_move h
  | attest => exact attest_move h
  | foldProposer => exact foldProposer_move h
  | submit a =>
    obtain ⟨ch, calls, hch, rfl⟩ := submitAction_spec h
    exact .submit hch
  | beginRound =>
    simp only [step, Runner.beginRound] at h
    split at h
    · split_ifs at h with hc
      cases h
      exact .beginRound (by assumption) hc.1 hc.2
    · cases h
  | proposal data =>
    simp only [step, Runner.proposal] at h
    split at h
    · cases h
      exact .proposal (by assumption)
    · cases h
  | hostReceipt =>
    simp only [step, Runner.hostReceipt] at h
    split at h
    · cases h
      exact .hostReceipt (by assumption)
    · cases h
  | receipt seat data =>
    simp only [step, Runner.receipt] at h
    split at h
    · split_ifs at h with hc
      cases h
      exact .receipt (by assumption) hc.1 hc.2
    · cases h
  | collected =>
    simp only [step, Runner.collected] at h
    split at h
    · split_ifs at h with hc
      cases h
      exact .collected (by assumption) hc
    · cases h
  | receiptFailed seat =>
    simp only [step, Runner.receiptFailed] at h
    split at h
    · split_ifs at h
      cases h
      exact .receiptFailed (by assumption)
    · cases h
  | cleanup =>
    simp only [step, Runner.cleanup] at h
    split at h
    · cases h
      exact .cleanup (by assumption)
    · cases h
  | conclude =>
    simp only [step, Runner.conclude] at h
    split at h
    · cases h
      exact .commit (by assumption)
    · cases h
      exact .nextAttempt (by assumption)
    · cases h
  | attestation seat data =>
    simp only [step, Runner.attestation] at h
    split at h
    · split_ifs at h
      cases h
      exact .attestation (by assumption)
    · cases h
  | attestationFailed seat =>
    simp only [step, Runner.attestationFailed] at h
    split at h
    · split_ifs at h
      cases h
      exact .attestationFailed (by assumption)
    · cases h

end Runner

/-! ### History -/

def Phase.timedOut (ph : Phase) (k : UInt64) (a : UInt32) : Bool :=
  match ph with
  | .inRound k' _ a' (.returned (some _)) => k' == k && a' == a
  | .inRound k' _ a' (.cleaned (some _)) => k' == k && a' == a
  | _ => false

def Phase.didCommit (ph : Phase) (k : UInt64) (a : UInt32) : Bool :=
  match ph with
  | .inRound k' _ a' (.returned none) => k' == k && a' == a
  | .inRound k' _ a' (.cleaned none) => k' == k && a' == a
  | _ => false

namespace Runner
variable {c : Primitives} {u : Setup c} {r r' : Runner} {i : Input} {k : UInt64} {a : UInt32}

def reported (r : Runner) (k : UInt64) (a : UInt32) (o : Outcome) : Bool :=
  r.events.any fun ev => ev.roundID == k && ev.attempt == a && ev.outcome == o

/-- Attempt `a` of round `k` ended at this node without a commit. -/
def timedOut (r : Runner) (k : UInt64) (a : UInt32) : Bool :=
  r.reported k a .timeout || r.phase.timedOut k a

/-- This node committed attempt `a` of round `k`. -/
def didCommit (r : Runner) (k : UInt64) (a : UInt32) : Bool :=
  r.reported k a .committed || r.phase.didCommit k a

@[simp] theorem timedOut_startStage (k' : UInt64) (p : UInt8) (a' : UInt32) :
    (Phase.inRound k' p a' (r.startStage u)).timedOut k a = false := by
  unfold startStage
  split_ifs <;> rfl

/-- Where a node in an attempt can go: on in the attempt, to the next attempt, out
of the round, or to a failure. -/
theorem Move.within {p : UInt8} {st : Stage} (h : Move u r i r') (hphase : r.phase = .inRound k p a st) :
    (∃ st', r'.phase = .inRound k p a st' ∧ (st' = .choosing → st = .choosing)) ∨
      (∃ st' reason, r'.phase = .inRound k p (a + 1) st' ∧ st = .cleaned (some reason)) ∨
      (r'.phase = .idle ∧ r'.rounds = r.rounds + 1) ∨ r'.phase = .failed := by
  cases h with
  | nextAttempt hc =>
    rw [hphase] at hc
    obtain ⟨rfl, rfl, rfl, rfl⟩ := Phase.inRound.inj hc
    exact Or.inr (Or.inl ⟨_, _, rfl, rfl⟩)
  | _ => simp_all [failAutoFold]

/-- What a step can do to the log. -/
theorem Move.log_cases (h : Move u r i r') :
    r'.log = r.log ∨ (∃ e, r'.log = r.log.append e) ∨
      (r'.log = r.log.rollbackLast ∧ ∃ k p a got, r.phase = .inRound k p a (.collecting got)) := by
  cases h with
  | appendOwn hphase => exact Or.inr (Or.inl ⟨_, rfl⟩)
  | appendFetched hphase _ _ => exact Or.inr (Or.inl ⟨_, rfl⟩)
  | fold hphase _ happ => exact Or.inr (Or.inl ⟨_, (appendAutoFold_ok happ).2⟩)
  | receiptFailed hphase => exact Or.inr (Or.inr ⟨rfl, _, _, _, _, hphase⟩)
  | _ => exact Or.inl rfl

/-- A commit is reported when its round is over. -/
theorem Move.reported_committed (h : Move u r i r') (hr : r'.reported k a .committed = true) :
    r.reported k a .committed = true ∨
      (∃ p, r.phase = .inRound k p a (.cleaned none)) ∧ r'.log = r.log ∧
        r'.rounds = r.rounds + 1 := by
  unfold reported at hr ⊢
  cases h with
  | commit hphase =>
    simp only [List.any_append, Bool.or_eq_true, List.any_cons, List.any_nil, Bool.or_false,
      Bool.and_eq_true, beq_iff_eq] at hr
    rcases hr with hold | ⟨⟨rfl, rfl⟩, _⟩
    · exact Or.inl hold
    · exact Or.inr ⟨⟨_, hphase⟩, rfl, rfl⟩
  | reject hphase hev => simp_all
  | _ => simp_all [failAutoFold]

theorem Move.rounds_le (h : Move u r i r') : r.rounds ≤ r'.rounds := by
  cases h <;> simp [failAutoFold]

theorem Move.events_mono (h : Move u r i r') : r.events ⊆ r'.events := by
  cases h <;> simp [failAutoFold]

theorem Move.reported_mono (h : Move u r i r') {o : Outcome} (hr : r.reported k a o = true) :
    r'.reported k a o = true := by
  unfold reported at hr ⊢
  rw [List.any_eq_true] at hr ⊢
  obtain ⟨ev, hmem, hev⟩ := hr
  exact ⟨ev, h.events_mono hmem, hev⟩

theorem Move.timedOut_mono (h : Move u r i r') (ht : r.timedOut k a = true) :
    r'.timedOut k a = true := by
  unfold timedOut at ht ⊢
  rw [Bool.or_eq_true] at ht ⊢
  rcases ht with hr | hp
  · exact Or.inl (h.reported_mono hr)
  -- only the clean-up and the end of a failed attempt start from such a phase
  cases h with
  | submit => exact Or.inr hp
  | cleanup hphase =>
    right
    rw [hphase] at hp
    rename_i timeout
    cases timeout with
    | none => exact absurd hp (by simp [Phase.timedOut])
    | some reason => exact hp
  | nextAttempt hphase =>
    left
    rw [hphase] at hp
    simp only [Phase.timedOut, Bool.and_eq_true, beq_iff_eq] at hp
    simp [reported, hp.1, hp.2]
  | deadline hphase hst =>
    rw [hphase] at hp
    rename_i st _
    cases st <;> simp [Phase.timedOut, Stage.waiting] at hp hst
  | _ =>
    rename_i hphase
    simp_all [Phase.timedOut]

theorem Move.didCommit_mono (h : Move u r i r') (hc : r.didCommit k a = true) :
    r'.didCommit k a = true := by
  unfold didCommit at hc ⊢
  rw [Bool.or_eq_true] at hc ⊢
  rcases hc with hr | hp
  · exact Or.inl (h.reported_mono hr)
  cases h with
  | submit => exact Or.inr hp
  | cleanup hphase =>
    right
    rw [hphase] at hp
    rename_i timeout
    cases timeout with
    | none => exact hp
    | some reason => exact absurd hp (by simp [Phase.didCommit])
  | commit hphase =>
    left
    rw [hphase] at hp
    simp only [Phase.didCommit, Bool.and_eq_true, beq_iff_eq] at hp
    simp [reported, hp.1, hp.2]
  | deadline hphase hst =>
    rw [hphase] at hp
    rename_i st _
    cases st <;> simp [Phase.didCommit, Stage.waiting] at hp hst
  | _ =>
    rename_i hphase
    simp_all [Phase.didCommit]

/-- A new timeout comes from a deadline, or from a proposal that does not decode. -/
theorem Move.timedOut_new (h : Move u r i r') (ht : r'.timedOut k a = true) :
    r.timedOut k a = true ∨
      ∃ p st, r.phase = .inRound k p a st ∧
        (i = .deadline ∨ (∃ seat, i = .receiptFailed seat) ∨
          ∃ data, st = .fetched data ∧ u.entryCodec.decode data = none) := by
  unfold timedOut reported at ht ⊢
  cases h with
  | submit => exact Or.inl ht
  | cleanup hphase =>
    left
    rename_i timeout
    cases timeout with
    | none => simpa [Phase.timedOut, hphase] using ht
    | some reason => simpa [Phase.timedOut, hphase] using ht
  | nextAttempt hphase =>
    left
    rw [hphase]
    simp only [List.any_append, List.any_cons, List.any_nil, Bool.or_false, beq_self_eq_true,
      Bool.and_true] at ht
    split_ifs at ht
    · rw [timedOut_startStage] at ht
      simpa [Phase.timedOut, Bool.or_assoc] using ht
    · simpa [Phase.timedOut, Bool.or_assoc] using ht
  | beginRound hphase =>
    rw [timedOut_startStage] at ht
    simpa [hphase, Phase.timedOut] using ht
  | undecoded hphase hdec =>
    simp only [Phase.timedOut, Bool.or_eq_true, Bool.and_eq_true, beq_iff_eq] at ht
    rcases ht with hold | ⟨rfl, rfl⟩
    · exact Or.inl (by simp [hold])
    · exact Or.inr ⟨_, _, hphase, Or.inr (Or.inr ⟨_, rfl, hdec⟩)⟩
  | deadline hphase hst =>
    simp only [Phase.timedOut, Bool.or_eq_true, Bool.and_eq_true, beq_iff_eq] at ht
    rcases ht with hold | ⟨rfl, rfl⟩
    · exact Or.inl (by simp [hold])
    · exact Or.inr ⟨_, _, hphase, Or.inl rfl⟩
  | receiptFailed hphase =>
    simp only [Phase.timedOut, Bool.or_eq_true, Bool.and_eq_true, beq_iff_eq] at ht
    rcases ht with hold | ⟨rfl, rfl⟩
    · exact Or.inl (by simp [hold])
    · exact Or.inr ⟨_, _, hphase, Or.inr (Or.inl ⟨_, rfl⟩)⟩
  | _ =>
    left
    simp_all [Phase.timedOut, failAutoFold]

/-! ### Hosted files -/

theorem get_cleanupAttempt {x : Key} {v : Bytes} (r : Runner)
    (h : (r.cleanupAttempt u k a).get x = some v) : r.store.get x = some v := by
  unfold Runner.cleanupAttempt at h
  dsimp only at h
  generalize (List.range u.order.length).filter _ = others at h
  have hfold : ∀ (l : List ℕ) (st : Store Bytes),
      (l.foldl (fun s seat => s.delete (verifyKey k a (u.nodeID seat))) st).get x = some v →
        st.get x = some v := by
    intro l
    induction l with
    | nil => exact fun st h => h
    | cons seat l ih => exact fun st h => (Store.of_get_delete (ih _ h)).2
  exact (Store.of_get_delete (hfold others _ h)).2

theorem get_pruneStore {x : Key} {v : Bytes} (r : Runner) (h : (r.pruneStore k).get x = some v) :
    r.store.get x = some v := by
  unfold Runner.pruneStore at h
  split_ifs at h
  · exact Store.of_get_deletePrefix (Store.of_get_deletePrefix h)
  · exact h

/-- A file that is new in the store is a checked proposal, the receipt of an entry just
appended, or an attestation. -/
theorem Move.hosted_new (h : Move u r i r') {x : KeyName} {v : Bytes} (hx : r'.store.get x.key = some v) :
    r.store.get x.key = some v ∨
      (∃ k p a e, x = .proposal k a ∧ v = u.entryCodec.encode e ∧ r.phase = .inRound k p a .choosing ∧
        r.log.verifyProposal c e u.pk = .ok ()) ∨
      (∃ k p a id, x = .verify k a id ∧ r'.phase = .inRound k p a (.collecting [])) ∨
      ∃ k id, x = .autoFold k id := by
  have hattest : ∀ k p, (r.hostAttestation u k p).get x.key = some v →
      r.store.get x.key = some v ∨ ∃ k id, x = .autoFold k id := by
    intro k p hx
    unfold hostAttestation at hx
    split_ifs at hx
    · exact (Store.of_get_put (x := .autoFold k (u.nodeID u.seatIdx)) hx).symm.imp_right fun h => ⟨_, _, h.1⟩
    · exact Or.inl hx
  cases h with
  | @propose k p a action hphase hok =>
    rcases Store.of_get_put (x := .proposal k a) hx with ⟨rfl, rfl⟩ | hold
    · exact Or.inr (Or.inl ⟨_, _, _, _, rfl, rfl, hphase, hok⟩)
    · exact Or.inl hold
  | @hostReceipt k p a hphase =>
    rcases Store.of_get_put (x := .verify k a (u.nodeID u.seatIdx)) hx with ⟨rfl, rfl⟩ | hold
    · exact Or.inr (Or.inr (Or.inl ⟨_, _, _, _, rfl, rfl⟩))
    · exact Or.inl hold
  | cleanup => exact Or.inl (get_cleanupAttempt _ hx)
  | commit => exact Or.inl (get_pruneStore _ hx)
  | noAttestors => exact (hattest _ _ hx).imp_right fun h => Or.inr (Or.inr h)
  | attest => exact (hattest _ _ hx).imp_right fun h => Or.inr (Or.inr h)
  | _ => exact Or.inl hx

end Runner

end P2Poker.Round
