import P2Poker.Round.Agreement

/-!
# An equivocating proposer

`collectVerifyReceipts` waits for the receipts to be there and drops what they
say, and `VerifyVerifyReceipt` is never called. So nothing ties the entries of
two verifiers together but the proposer itself, and a proposer that signs two
actions splits them. If it serves one entry in all attempts of the round, the
verifiers that commit have committed that entry.
-/

namespace P2Poker.Round
open P2Poker.Lib P2Poker.Crypto P2Poker.Game P2Poker.Ephemeral

/-! ### The log along the rounds of one node -/

def Phase.tentative : Phase → ℕ
  | .inRound _ _ _ st => if st.extended then 1 else 0
  | _ => 0

/-- The log has one entry for each round played, and the tentative one. -/
structure Runner.Shaped (r : Runner) : Prop where
  length : r.log.entries.length = r.rounds + r.phase.tentative
  round : ∀ k p a st, r.phase = .inRound k p a st → k.toNat = r.rounds

section Shaped
variable {c : Primitives} {u : Setup c} {r r' : Runner} {i : Input} {k : UInt64} {p : UInt8}
  {a a' : UInt32} {st st' : Stage}

theorem Runner.Shaped.inRound (h : r.Shaped) (hphase : r.phase = .inRound k p a st) :
    r.log.entries.length = r.rounds + (if st.extended then 1 else 0) := by
  have hlen := h.length
  rwa [hphase] at hlen

/- A step that goes on in the round. -/
variable (st') in
theorem Runner.Shaped.resize (h : r.Shaped) (hphase : r.phase = .inRound k p a st)
    (hrounds : r'.rounds = r.rounds) (hphase' : r'.phase = .inRound k p a' st')
    (hlen : r'.log.entries.length = r.rounds + (if st'.extended then 1 else 0)) : r'.Shaped := by
  refine ⟨?_, ?_⟩
  · rw [hphase', hrounds]
    exact hlen
  · intro k' p' b st'' heq
    obtain ⟨rfl, _⟩ := Phase.inRound.inj (hphase'.symm.trans heq)
    rw [hrounds]
    exact h.round _ _ _ _ hphase

variable (st') in
theorem Runner.Shaped.restage (h : r.Shaped) (hphase : r.phase = .inRound k p a st) (hlog : r'.log = r.log)
    (hrounds : r'.rounds = r.rounds) (hphase' : r'.phase = .inRound k p a' st')
    (hext : st'.extended = st.extended) : r'.Shaped := by
  refine h.resize st' hphase hrounds hphase' ?_
  rw [hlog, hext]
  exact h.inRound hphase

/- A step out of the round. -/
theorem Runner.Shaped.finish (hphase' : r'.phase = .idle ∨ r'.phase = .failed)
    (hlen : r'.log.entries.length = r'.rounds) : r'.Shaped := by
  rcases hphase' with hphase' | hphase' <;>
    exact ⟨by rw [hphase']; exact hlen, fun k p a st heq => by rw [hphase'] at heq; cases heq⟩

theorem Runner.Move.shaped (hm : Runner.Move u r i r') (h : r.Shaped) : r'.Shaped := by
  cases hm with
  | submit => exact ⟨h.length, h.round⟩
  | reject => exact ⟨h.length, h.round⟩
  | beginRound hphase _ hbound =>
    have hlen := h.length
    rw [hphase] at hlen
    have hlen : r.log.entries.length = r.rounds := hlen
    refine ⟨by simp [Phase.tentative, hlen], ?_⟩
    intro k p a st heq
    obtain ⟨rfl, _⟩ := Phase.inRound.inj heq
    rw [roundID_toNat (by omega), hlen]
  | propose hphase _ => exact h.restage _ hphase rfl rfl rfl rfl
  | proposal hphase => exact h.restage _ hphase rfl rfl rfl rfl
  | appendOwn hphase =>
    have hlen : r.log.entries.length = r.rounds := h.inRound hphase
    exact h.resize .appended hphase rfl rfl (by simp [Log.append, Stage.extended, hlen])
  | undecoded hphase _ => exact h.restage _ hphase rfl rfl rfl rfl
  | invalid hphase => exact h.restage _ hphase rfl rfl rfl rfl
  | appendFetched hphase _ _ =>
    have hlen : r.log.entries.length = r.rounds := h.inRound hphase
    exact h.resize .appended hphase rfl rfl (by simp [Log.append, Stage.extended, hlen])
  | hostReceipt hphase => exact h.restage _ hphase rfl rfl rfl rfl
  | receipt hphase _ => exact h.restage _ hphase rfl rfl rfl rfl
  | collected hphase _ => exact h.restage _ hphase rfl rfl rfl rfl
  | deadline hphase hst =>
    exact h.restage _ hphase rfl rfl rfl (Stage.flags_of_waiting hst).2.symm
  | receiptFailed hphase =>
    have hlen : r.log.entries.length = r.rounds + 1 := h.inRound hphase
    exact h.resize _ hphase rfl rfl (by simp [Log.rollbackLast, Stage.extended, hlen])
  | @cleanup k p a timeout hphase =>
    refine h.restage _ hphase rfl rfl rfl ?_
    cases timeout <;> rfl
  | commit hphase => exact .finish (Or.inl rfl) (h.inRound hphase)
  | nextAttempt hphase =>
    refine h.restage _ hphase rfl rfl rfl ?_
    split_ifs
    · exact r.startStage_extended u
    · rfl
  | noAttestors hphase => exact .finish (Or.inr rfl) (h.inRound hphase)
  | attest hphase => exact h.restage _ hphase rfl rfl rfl rfl
  | attestation hphase => exact h.restage _ hphase rfl rfl rfl rfl
  | attestationFailed hphase => exact .finish (Or.inr rfl) (h.inRound hphase)
  | foldRefused hphase => exact .finish (Or.inr rfl) (h.inRound hphase)
  | fold hphase _ happ =>
    obtain ⟨_, rfl⟩ := appendAutoFold_ok happ
    have hlen : r.log.entries.length = r.rounds := h.inRound hphase
    exact .finish (Or.inl rfl) (by simp [Log.append, hlen])

end Shaped

/-! ### One proposal for the round -/

section OneProposal
variable {c : Primitives} (t : Table c) (l : Log) (e : Entry)

/-- The verifiers' check of a proposal for the round after `l`. -/
def Table.verifies (e : Entry) : Bool :=
  match l.verifyProposal c e ((t.peerPK (t.nodeID l.expectedNextPlayer.toNat)).getD []) with
  | .ok _ => true
  | .error _ => false

/-- Whatever is served as a proposal in the round after `l` and passes the check is `e`. -/
def OneProposal (net : Net) (s : ℕ) (i : Input) : Prop :=
  match i, (net s).phase with
  | .proposal data, .inRound k _ _ _ =>
    k = l.roundID → ∀ e' ∈ t.entryCodec.decode data, t.verifies l e' = true → e' = e
  | _, _ => True

/-- Two honest verifiers that commit the round after `l` have the same entry for it. -/
def CommitsAlike (honest : ℕ → Bool) (net : Net) : Prop :=
  ∀ (s s' : ℕ) (a a' : UInt32), s < t.size → s' < t.size → honest s = true → honest s' = true →
    s ≠ l.expectedNextPlayer.toNat → s' ≠ l.expectedNextPlayer.toNat →
    (net s).didCommit l.roundID a = true → (net s').didCommit l.roundID a' = true →
    (net s).log.entries[l.entries.length]? = (net s').log.entries[l.entries.length]?

/- A verifier's stage in the round after `l`. -/
def FirstRound (log : Log) : Stage → Prop
  | .choosing => False
  | .hosted _ => False
  | .fetched data =>
    log = l ∧ ∀ e' ∈ t.entryCodec.decode data, t.verifies l e' = true → e' = e
  | st => log = if st.extended then l.append e else l

structure VerifierInv (r : Runner) : Prop where
  shaped : r.Shaped
  started : l.entries.length ≤ r.rounds
  idle : r.rounds = l.entries.length → (∀ k p a st, r.phase ≠ .inRound k p a st) → r.log = l
  first : r.rounds = l.entries.length → ∀ k p a st, r.phase = .inRound k p a st →
    FirstRound t l e r.log st
  reported : ∀ a, r.reported l.roundID a .committed = true →
    l.entries.length < r.rounds ∧ r.log.entries[l.entries.length]? = some e

variable {t l e} {s : ℕ} {r r' : Runner} {i : Input}

theorem startStage_verifier (hs : s ≠ l.expectedNextPlayer.toNat) (hlog : r.log = l) :
    r.startStage (t.setup s) = .polling := by
  have hne : r.isProposer (t.setup s) = false := by
    unfold Runner.isProposer
    rw [hlog, beq_eq_false_iff_ne]
    exact hs.symm
  simp only [Runner.startStage, hne, Bool.false_eq_true, if_false]

theorem verifies_of_ok {x : Entry} (hlog : r.log = l)
    (h : r.log.verifyProposal c x
      (((t.setup s).peerPK ((t.setup s).nodeID r.log.expectedNextPlayer.toNat)).getD []) = .ok ()) :
    t.verifies l x = true := by
  rw [hlog] at h
  unfold Table.verifies
  rw [show l.verifyProposal c x ((t.peerPK (t.nodeID l.expectedNextPlayer.toNat)).getD []) = .ok () from h]

/-- One step of a verifier inside the round after `l`. -/
theorem FirstRound.move (hs : s ≠ l.expectedNextPlayer.toNat)
    (hm : Runner.Move (t.setup s) r i r') {k : UInt64} {p : UInt8} {a : UInt32} {st : Stage}
    (hphase : r.phase = .inRound k p a st) (hf : FirstRound t l e r.log st)
    (hcond : ∀ data, i = .proposal data →
      ∀ e' ∈ t.entryCodec.decode data, t.verifies l e' = true → e' = e)
    {k' : UInt64} {p' : UInt8} {a' : UInt32} {st' : Stage}
    (hphase' : r'.phase = .inRound k' p' a' st') : FirstRound t l e r'.log st' := by
  cases hm with
  | submit _ =>
    obtain ⟨_, _, _, rfl⟩ := Phase.inRound.inj (hphase.symm.trans hphase')
    exact hf
  | beginRound hidle => rw [hidle] at hphase; cases hphase
  | reject hc _ =>
    obtain ⟨_, _, _, rfl⟩ := Phase.inRound.inj (hphase.symm.trans hphase')
    exact hf
  | propose hc _ =>
    obtain ⟨_, _, _, rfl⟩ := Phase.inRound.inj (hphase.symm.trans hc)
    exact hf.elim
  | proposal hc =>
    obtain ⟨_, _, _, rfl⟩ := Phase.inRound.inj (hphase.symm.trans hc)
    obtain ⟨_, _, _, rfl⟩ := Phase.inRound.inj hphase'
    exact ⟨hf, hcond _ rfl⟩
  | appendOwn hc =>
    obtain ⟨_, _, _, rfl⟩ := Phase.inRound.inj (hphase.symm.trans hc)
    exact hf.elim
  | undecoded hc _ =>
    obtain ⟨_, _, _, rfl⟩ := Phase.inRound.inj (hphase.symm.trans hc)
    obtain ⟨_, _, _, rfl⟩ := Phase.inRound.inj hphase'
    exact hf.1
  | invalid hc =>
    obtain ⟨_, _, _, rfl⟩ := Phase.inRound.inj (hphase.symm.trans hc)
    obtain ⟨_, _, _, rfl⟩ := Phase.inRound.inj hphase'
    exact hf.1
  | appendFetched hc hdec hok =>
    obtain ⟨_, _, _, rfl⟩ := Phase.inRound.inj (hphase.symm.trans hc)
    obtain ⟨_, _, _, rfl⟩ := Phase.inRound.inj hphase'
    have hx := hf.2 _ hdec (verifies_of_ok hf.1 hok)
    simp only [FirstRound, Stage.extended, if_true]
    rw [hx, hf.1]
  | hostReceipt hc =>
    obtain ⟨_, _, _, rfl⟩ := Phase.inRound.inj (hphase.symm.trans hc)
    obtain ⟨_, _, _, rfl⟩ := Phase.inRound.inj hphase'
    exact hf
  | receipt hc _ =>
    obtain ⟨_, _, _, rfl⟩ := Phase.inRound.inj (hphase.symm.trans hc)
    obtain ⟨_, _, _, rfl⟩ := Phase.inRound.inj hphase'
    exact hf
  | collected hc _ =>
    obtain ⟨_, _, _, rfl⟩ := Phase.inRound.inj (hphase.symm.trans hc)
    obtain ⟨_, _, _, rfl⟩ := Phase.inRound.inj hphase'
    exact hf
  | deadline hc hst =>
    obtain ⟨_, _, _, rfl⟩ := Phase.inRound.inj (hphase.symm.trans hc)
    obtain ⟨_, _, _, rfl⟩ := Phase.inRound.inj hphase'
    cases st with
    | choosing => exact hf.elim
    | polling => exact hf
    | fetched data => exact hf.1
    | silent reason => exact hf
    | _ => cases hst
  | receiptFailed hc =>
    obtain ⟨_, _, _, rfl⟩ := Phase.inRound.inj (hphase.symm.trans hc)
    obtain ⟨_, _, _, rfl⟩ := Phase.inRound.inj hphase'
    have hlog : r.log = l.append e := hf
    show r.log.rollbackLast = l
    rw [hlog]
    simp [Log.rollbackLast, Log.append]
  | @cleanup _ _ _ timeout hc =>
    obtain ⟨_, _, _, rfl⟩ := Phase.inRound.inj (hphase.symm.trans hc)
    obtain ⟨_, _, _, rfl⟩ := Phase.inRound.inj hphase'
    cases timeout with
    | none => exact hf
    | some reason => exact hf
  | commit hc => cases hphase'
  | nextAttempt hc =>
    obtain ⟨_, _, _, rfl⟩ := Phase.inRound.inj (hphase.symm.trans hc)
    obtain ⟨_, _, _, rfl⟩ := Phase.inRound.inj hphase'
    have hlog : r.log = l := hf
    rw [startStage_verifier hs hlog]
    split_ifs <;> exact hlog
  | noAttestors hc => cases hphase'
  | attest hc =>
    obtain ⟨_, _, _, rfl⟩ := Phase.inRound.inj (hphase.symm.trans hc)
    obtain ⟨_, _, _, rfl⟩ := Phase.inRound.inj hphase'
    exact hf
  | attestation hc =>
    obtain ⟨_, _, _, rfl⟩ := Phase.inRound.inj (hphase.symm.trans hc)
    obtain ⟨_, _, _, rfl⟩ := Phase.inRound.inj hphase'
    exact hf
  | attestationFailed hc => cases hphase'
  | foldRefused hc => cases hphase'
  | fold hc _ _ => cases hphase'

theorem roundID_le (l : Log) : l.roundID.toNat ≤ l.entries.length := by
  rw [Log.roundID, UInt64.toNat_ofNat']
  exact Nat.mod_le _ _

/-- An entry below the rounds played stays where it is. -/
theorem Runner.Move.getElem_keeps {u : Setup c} {j : ℕ} {x : Entry} (hm : Runner.Move u r i r')
    (hshape : r.Shaped) (hj : j < r.rounds) (h : r.log.entries[j]? = some x) :
    r'.log.entries[j]? = some x := by
  rcases hm.log_cases with hlog | ⟨y, hlog⟩ | ⟨hlog, k, p, a, got, hphase⟩
  · rwa [hlog]
  · have hlt : j < r.log.entries.length := by
      rw [hshape.length]
      omega
    rw [hlog]
    simp only [Log.append]
    rwa [List.getElem?_append_left hlt]
  · have hlen := hshape.length
    rw [hphase] at hlen
    simp only [Phase.tentative, Stage.extended, if_true] at hlen
    rw [hlog]
    simp only [Log.rollbackLast]
    rwa [List.getElem?_dropLast, if_pos (by omega)]

theorem VerifierInv.move (h : VerifierInv t l e r) (hs : s ≠ l.expectedNextPlayer.toNat)
    (hm : Runner.Move (t.setup s) r i r')
    (hcond : ∀ data k p a st, i = .proposal data → r.phase = .inRound k p a st → k = l.roundID →
      ∀ e' ∈ t.entryCodec.decode data, t.verifies l e' = true → e' = e) : VerifierInv t l e r' := by
  have hle := hm.rounds_le
  have hstarted := h.started
  have hround : ∀ k p a st, r.phase = .inRound k p a st → r.rounds = l.entries.length →
      k = l.roundID := by
    intro k p a st hphase hr
    have hk := h.shaped.round k p a st hphase
    rw [Log.roundID, ← hr, ← hk, UInt64.ofNat_toNat]
  refine ⟨hm.shaped h.shaped, by omega, ?_, ?_, ?_⟩
  · intro hr hout
    have hfirst := h.first (by omega)
    cases hm with
    | submit _ => exact h.idle hr hout
    | noAttestors hc => exact hfirst _ _ _ _ hc
    | attestationFailed hc => exact hfirst _ _ _ _ hc
    | foldRefused hc => exact hfirst _ _ _ _ hc
    | commit hc =>
      simp only at hr
      omega
    | fold hc _ _ =>
      simp only at hr
      omega
    | reject hc _ => exact absurd hc (hout _ _ _ _)
    | _ => exact absurd rfl (hout _ _ _ _)
  · intro hr k' p' a' st' hphase'
    have hr0 : r.rounds = l.entries.length := by omega
    cases hphase : r.phase with
    | inRound k p a st =>
      exact FirstRound.move hs hm hphase (h.first hr0 _ _ _ _ hphase)
        (fun data hi => hcond data k p a st hi hphase (hround k p a st hphase hr0)) hphase'
    | idle =>
      have hlog := h.idle hr0 (by simp [hphase])
      cases hm with
      | beginRound _ _ _ =>
        obtain ⟨_, _, _, rfl⟩ := Phase.inRound.inj hphase'
        rw [startStage_verifier hs hlog]
        exact hlog
      | submit _ =>
        rw [hphase] at hphase'
        cases hphase'
      | _ => simp_all
    | failed =>
      cases hm <;> simp_all
  · intro a hrep
    rcases hm.reported_committed hrep with hold | ⟨⟨p, hphase⟩, hlog, hrounds⟩
    · obtain ⟨hlt, hget⟩ := h.reported a hold
      exact ⟨by omega, hm.getElem_keeps h.shaped hlt hget⟩
    · have hk := h.shaped.round _ _ _ _ hphase
      have hr0 : r.rounds = l.entries.length := by
        have := roundID_le l
        omega
      have hfirst : r.log = l.append e := h.first hr0 _ _ _ _ hphase
      refine ⟨by omega, ?_⟩
      rw [hlog, hfirst]
      simp [Log.append]

theorem VerifierInv.committed (h : VerifierInv t l e r) {a : UInt32}
    (hc : r.didCommit l.roundID a = true) : r.log.entries[l.entries.length]? = some e := by
  unfold Runner.didCommit at hc
  rw [Bool.or_eq_true] at hc
  rcases hc with hrep | hph
  · exact (h.reported a hrep).2
  · -- the commit is decided and its round still open
    have hopen : ∃ p b st, r.phase = .inRound l.roundID p b st ∧
        (st = .returned none ∨ st = .cleaned none) := by
      unfold Phase.didCommit at hph
      split at hph
      · rename_i hphase
        rw [Bool.and_eq_true, beq_iff_eq] at hph
        exact ⟨_, _, _, by rw [hphase, hph.1], Or.inl rfl⟩
      · rename_i hphase
        rw [Bool.and_eq_true, beq_iff_eq] at hph
        exact ⟨_, _, _, by rw [hphase, hph.1], Or.inr rfl⟩
      · cases hph
    obtain ⟨p, b, st, hphase, hst⟩ := hopen
    have hr0 : r.rounds = l.entries.length := by
      have hk := h.shaped.round _ _ _ _ hphase
      have hle := roundID_le l
      have hstarted := h.started
      omega
    have hfirst := h.first hr0 _ _ _ _ hphase
    have hlog : r.log = l.append e := by
      rcases hst with rfl | rfl
      · exact hfirst
      · exact hfirst
    rw [hlog]
    simp [Log.append]

/-- Along a run with one proposal, every honest verifier keeps the invariant. -/
theorem VerifierInv.reaches {honest : ℕ → Bool} {net : Net}
    (h : Reaches t honest (OneProposal t l e) (Net.start l) net) (hs : s ≠ l.expectedNextPlayer.toNat) :
    VerifierInv t l e (net s) := by
  induction h with
  | refl =>
    refine ⟨⟨rfl, by simp [Net.start]⟩, le_rfl, fun _ _ => rfl, by simp [Net.start], ?_⟩
    simp [Net.start, Runner.reported]
  | tail _ hstep ih =>
    cases hstep with
    | @node s' i r _ _ _ hcond hrun =>
      by_cases hss : s = s'
      · subst hss
        rw [Function.update_self]
        refine ih.move hs (Runner.step_move hrun) ?_
        intro data k p a st hi hphase hk
        subst hi
        simp only [OneProposal, hphase] at hcond
        exact hcond hk
      · rwa [Function.update_of_ne hss]

end OneProposal

theorem commits_alike_of_one_proposal (c : Primitives) (t : Table c) (honest : ℕ → Bool) (l : Log)
    (e : Entry) (net : Net) (h : Reaches t honest (OneProposal t l e) (Net.start l) net) :
    CommitsAlike t l honest net := by
  intro s s' a a' _ _ _ _ hs hs' hc hc'
  rw [(VerifierInv.reaches h hs).committed hc, (VerifierInv.reaches h hs').committed hc']

instance {c : Primitives} (t : Table c) (l : Log) (e : Entry) (net : Net) (s : ℕ) (i : Input) :
    Decidable (OneProposal t l e net s i) := by
  delta OneProposal
  induction i using Input.casesOn <;> induction (net s).phase using Phase.casesOn <;> infer_instance

/-- Three seats with one attempt for each round; seat 0 is to act first and does
not follow the program. -/
def threeSeats : Table .transparent := .sample 3 three_seats_lt 1 100

def followers : ℕ → Bool := fun s => s != 0

def signedBySeat0 (a : Action) : Entry := (newLog 3 100).buildProposal .transparent 0 a (0 : Byte)

def receiptOfSeat0 : Bytes :=
  receiptWire.put (((newLog 3 100).append (signedBySeat0 ⟨.check, 0⟩)).buildVerifyReceipt
    .transparent 0 (0 : Byte))

/- Seats 1 and 2 take these proposals and exchange receipts. -/
def bothCommit (a b : Action) : List (ℕ × Input) :=
  [(1, .beginRound), (1, .proposal (entryWire.put (signedBySeat0 a))), (1, .append), (1, .hostReceipt),
    (2, .beginRound), (2, .proposal (entryWire.put (signedBySeat0 b))), (2, .append), (2, .hostReceipt),
    (1, .receipt 0 receiptOfSeat0), (1, .receipt 2 []), (1, .collected),
    (2, .receipt 0 receiptOfSeat0), (2, .receipt 1 []), (2, .collected)]

theorem commits_alike_check :
    CommitsAlike threeSeats (newLog 3 100) followers
      (runTo threeSeats followers (OneProposal threeSeats (newLog 3 100) (signedBySeat0 ⟨.check, 0⟩))
        (Net.start (newLog 3 100)) (bothCommit ⟨.check, 0⟩ ⟨.check, 0⟩) (by decide +kernel)) :=
  commits_alike_of_one_proposal .transparent threeSeats followers (newLog 3 100) _ _ (runTo_reaches ..)

/-- A seat that does not follow the program holds only its own key: it serves
records and attestations that it has signed itself. -/
def OwnSignatures {c : Primitives} (t : Table c) (honest : ℕ → Bool) (net : Net) (s : ℕ) : Input → Prop
  | .proposal data =>
    let q := (net s).log.expectedNextPlayer.toNat
    honest q = false →
      ∃ e payload, data = t.entryCodec.encode e ∧ e.signature = c.sign (t.secretKey q) payload
  | .receipt q data => honest q = false →
      ∃ v payload, data = t.receiptCodec.encode v ∧ v.signature = c.sign (t.secretKey q) payload
  | .attestation q data => honest q.toNat = false →
      ∃ payload, data = c.sign (t.secretKey q.toNat) payload
  | _ => True

/- What seat 0 serves in the run below. -/
def TwoActions (_ : Net) (_ : ℕ) : Input → Prop
  | .proposal data => data = entryWire.put (signedBySeat0 ⟨.check, 0⟩) ∨
      data = entryWire.put (signedBySeat0 ⟨.raise, 10⟩)
  | .receipt q data => q = 0 → data = receiptOfSeat0
  | .attestation _ _ => False
  | _ => True

instance (net : Net) (s : ℕ) (i : Input) : Decidable (TwoActions net s i) := by
  delta TwoActions
  induction i using Input.casesOn <;> infer_instance

theorem TwoActions.ownSignatures (net : Net) (s : ℕ) (i : Input) (h : TwoActions net s i) :
    OwnSignatures threeSeats followers net s i := by
  cases i with
  | proposal data =>
    intro hq
    have hq0 : (net s).log.expectedNextPlayer.toNat = 0 := by simpa [followers] using hq
    rw [hq0]
    rcases h with rfl | rfl
    · exact ⟨_, _, rfl, rfl⟩
    · exact ⟨_, _, rfl, rfl⟩
  | receipt q data =>
    intro hq
    have hq0 : q = 0 := by simpa [followers] using hq
    exact ⟨_, _, h hq0, by rw [hq0]; rfl⟩
  | attestation q data => exact h.elim
  | _ => trivial

def equivocated : Net :=
  runTo threeSeats followers TwoActions (Net.start (newLog 3 100))
    (bothCommit ⟨.check, 0⟩ ⟨.raise, 10⟩) (by decide +kernel)

theorem verifiers_split_by_equivocation :
    ¬ ∀ (c : Primitives) (t : Table c) (honest : ℕ → Bool) (l : Log) (net : Net), c.Ideal → 3 ≤ t.size →
      Reachable c t.numPlayers t.startingStack l →
      (∀ s, honest s = true ↔ s ≠ l.expectedNextPlayer.toNat) →
      Reaches t honest (OwnSignatures t honest) (Net.start l) net → CommitsAlike t l honest net := by
  intro h
  have hrun : Reaches threeSeats followers TwoActions (Net.start (newLog 3 100)) equivocated :=
    runTo_reaches ..
  have halike := h .transparent threeSeats followers (newLog 3 100) equivocated
    Primitives.transparent_ideal (by decide) .new
    (fun s => show followers s = true ↔ s ≠ 0 by simp [followers]) (hrun.mono TwoActions.ownSignatures)
  exact absurd (halike 1 2 0 0 (by decide) (by decide) rfl rfl (by decide) (by decide)
    (by decide +kernel) (by decide +kernel)) (by decide +kernel)

end P2Poker.Round
