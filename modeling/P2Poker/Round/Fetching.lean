import P2Poker.Round.Agreement
import P2Poker.Round.Certified

/-!
# Who has fetched a proposal before it is deleted

The proposer deletes a committed proposal. It has waited for the receipts of the
seats that are not folded, so these have fetched it. A folded seat follows the
hand too, but nobody waits for it; when it comes late the proposal is gone.
Without deadlines all nodes work on one chain, so what was fetched is accepted.
-/

namespace P2Poker.Round
open P2Poker.Lib P2Poker.Crypto P2Poker.Game P2Poker.Ephemeral

/-- The stages in which the proposal of the attempt is at hand. -/
def Stage.hasFetched : Stage → Bool
  | .hosted _ => true
  | .fetched _ => true
  | .silent _ => true
  | .appended => true
  | .collecting _ => true
  | .returned none => true
  | .cleaned none => true
  | _ => false

/-- The node has got the proposal of attempt `a`, or is done with round `k`. -/
def Runner.hasFetched (r : Runner) (k : UInt64) (a : UInt32) : Bool :=
  decide (k.toNat < r.rounds) ||
    match r.phase with
    | .inRound k' _ a' st => k' == k && a' == a && st.hasFetched
    | _ => false

def Input.isDeadline : Input → Bool
  | .deadline => true
  | .receiptFailed _ => true
  | .attestationFailed _ => true
  | _ => false

section Fetching
variable {c : Primitives} (t : Table c)

/-- The node of seat `q` has the entry of round `k` in its log, or appends it in its
next step. -/
def CanAppend (q : ℕ) (r : Runner) (k : UInt64) (e : Entry) : Prop :=
  r.log.entries[k.toNat]? = some e ∨
    ∃ r', r.step (t.setup q) .append = some r' ∧ r'.log.entries[k.toNat]? = some e

/-- No proposal that its proposer has committed and deleted is still to be fetched,
and all seats have the entry or can append it. -/
def NoneLost (net : Net) : Prop :=
  ∀ s < t.size, ∀ k p a, (net s).phase = .inRound k p a (.cleaned none) → p.toNat = s →
    ∀ q < t.size, q ≠ s → (net q).hasFetched k a = true ∧
      ∃ e, (net s).log.entries[k.toNat]? = some e ∧ CanAppend t q (net q) k e

/-- No deadline fires, and a proposer that has all receipts commits only when the
folded seats have fetched its proposal as well. -/
def FoldedHaveFetched (net : Net) (s : ℕ) (i : Input) : Prop :=
  i.isDeadline = false ∧
    match i, (net s).phase with
    | .collected, .inRound k p a _ => p.toNat = s → ∀ q < t.size, q ≠ s →
        (net s).log.state.isFolded q = true → (net q).hasFetched k a = true
    | _, _ => True

instance (net : Net) (s : ℕ) (i : Input) : Decidable (FoldedHaveFetched t net s i) := by
  delta FoldedHaveFetched
  refine @instDecidableAnd _ _ _ ?_
  induction i using Input.casesOn <;> induction (net s).phase using Phase.casesOn <;> infer_instance

/-! ### The invariant -/

/- What a verifier with this log does not reject. -/
def Verified (l : Log) (data : Bytes) : Prop :=
  ∃ e, t.entryCodec.decode data = some e ∧
    l.verifyProposal c e ((t.peerPK (t.nodeID l.expectedNextPlayer.toNat)).getD []) = .ok ()

variable (net : Net)

def StageFetched (s : ℕ) (k : UInt64) (p : UInt8) (a : UInt32) : Stage → Prop
  | .fetched data => Verified t (net s).log data
  | .silent _ => False
  | .collecting got => ∀ q ∈ got, (net q).hasFetched k a = true
  | .returned none => p.toNat = s → ∀ q < t.size, q ≠ s → (net q).hasFetched k a = true
  | .cleaned none => p.toNat = s → ∀ q < t.size, q ≠ s → (net q).hasFetched k a = true
  -- no attempt ends without a commit
  | .returned (some _) => False
  | .cleaned (some _) => False
  | .attesting => False
  | .gathering _ => False
  | _ => True

structure FetchInv (s : ℕ) : Prop where
  sound : Sound (t.setup s) (net s)
  quiet : ∀ k a, (net s).timedOut k a = false
  proposal : ∀ k a v, (net s).store.get (KeyName.proposal k a).key = some v →
    k.toNat ≤ (net s).rounds ∧ ∃ e, t.entryCodec.decode v = some e ∧
      ((net s).log.upTo k.toNat).verifyProposal c e (c.publicKey (t.secretKey s)) = .ok ()
  receipt : ∀ k a id v, (net s).store.get (KeyName.verify k a id).key = some v →
    (net s).hasFetched k a = true
  stage : ∀ k p a st, (net s).phase = .inRound k p a st → StageFetched t net s k p a st

variable {t net}

theorem StageFetched.later {net' : Net} {s : ℕ} {k : UInt64} {p : UInt8} {a : UInt32} {st : Stage}
    (h : StageFetched t net s k p a st) (hlog : (net' s).log = (net s).log)
    (hl : ∀ q, (net q).hasFetched k a = true → (net' q).hasFetched k a = true) :
    StageFetched t net' s k p a st := by
  cases st with
  | collecting got => exact fun q hq => hl q (h q hq)
  | returned timeout =>
    cases timeout with
    | none => exact fun hp q hq hne => hl q (h hp q hq hne)
    | some reason => exact h
  | cleaned timeout =>
    cases timeout with
    | none => exact fun hp q hq hne => hl q (h hp q hq hne)
    | some reason => exact h
  | fetched data =>
    simp only [StageFetched, hlog]
    exact h
  | silent reason => exact h
  | attesting => exact h
  | gathering cosigs => exact h
  | _ => trivial

theorem Table.peerPK_nodeID {q : ℕ} (hq : q < t.size) :
    t.peerPK (t.nodeID q) = some (c.publicKey (t.secretKey q)) := by
  have hq : q < t.order.length := hq
  have hget : t.nodeID q = t.order[q] := List.getD_eq_getElem _ _ hq
  rw [Table.peerPK, hget, if_pos (List.getElem_mem hq), t.order_nodup.idxOf_getElem]

theorem append_of_verified {s : ℕ} {r : Runner} {k : UInt64} {p : UInt8} {a : UInt32} {data : Bytes} {e : Entry}
    (hphase : r.phase = .inRound k p a (.fetched data)) (hdec : t.entryCodec.decode data = some e)
    (hok : r.log.verifyProposal c e ((t.peerPK (t.nodeID r.log.expectedNextPlayer.toNat)).getD []) = .ok ()) :
    r.step (t.setup s) .append =
      some { r with log := r.log.append e, phase := .inRound k p a .appended } := by
  show r.append (t.setup s) = _
  unfold Runner.append
  rw [hphase]
  simp only [show (t.setup s).entryCodec.decode data = some e from hdec]
  rw [show r.log.verifyProposal c e (((t.setup s).peerPK
    ((t.setup s).nodeID r.log.expectedNextPlayer.toNat)).getD []) = .ok () from hok]

/-! ### The chain -/

section Chain
variable {G : List Entry} {prop : UInt64 → UInt32 → Option Entry} {s : ℕ}

theorem NodeInv.upTo_eq (h : NodeInv t net G prop s) {m : ℕ} (hm : m ≤ (net s).rounds) :
    (net s).log.upTo m = t.logAt (G.take m) := by
  have hcom := congrArg (List.take m) h.committed_eq
  rw [Runner.committed, List.take_take, List.take_take, Nat.min_eq_left hm] at hcom
  rw [h.log_eq, Log.upTo]
  show t.logAt _ = _
  rw [← hcom]
  rfl

/-- The appended entry is the proposal of the attempt. -/
theorem NodeInv.getElem_extended {k : UInt64} {p : UInt8} {a : UInt32} {st : Stage} {e : Entry}
    (h : NodeInv t net G prop s) (hphase : (net s).phase = .inRound k p a st) (hext : st.extended = true)
    (he : prop k a = some e) : (net s).log.entries[k.toNat]? = some e := by
  obtain ⟨hk, _, _, _, hlog, _⟩ := h.inRound hphase
  rw [LogInv, if_pos hext] at hlog
  obtain ⟨e', hlog, he'⟩ := hlog
  obtain rfl := Option.some.inj (he.symm.trans he')
  have hlen : (G.take (net s).rounds).length = k.toNat := by
    rw [List.length_take, Nat.min_eq_left h.rounds_le, hk]
  rw [hlog, ← hlen]
  simp

theorem NodeInv.getElem_append {k : UInt64} {p : UInt8} {a : UInt32} {st : Stage} (e : Entry)
    (h : NodeInv t net G prop s) (hphase : (net s).phase = .inRound k p a st) (hext : st.extended = false) :
    ((net s).log.append e).entries[k.toNat]? = some e := by
  obtain ⟨hk, _, _, _, hlog, _⟩ := h.inRound hphase
  rw [hext] at hlog
  have hlog : (net s).log.entries = G.take (net s).rounds := hlog
  have hlen : (net s).log.entries.length = k.toNat := by
    rw [hlog, List.length_take, Nat.min_eq_left h.rounds_le, hk]
  rw [Log.append, ← hlen]
  simp

/-- A hand that is on has a verifier that is not folded. -/
theorem NodeInv.exists_attestor {k : UInt64} {p : UInt8} {a : UInt32} {st : Stage} (hn : 2 ≤ t.size)
    (h : NodeInv t net G prop s) (hsound : Sound (t.setup s) (net s))
    (hphase : (net s).phase = .inRound k p a st) : ∃ q, t.Attestor (net s).committed q := by
  obtain ⟨_, _, _, hlive, _, _⟩ := hsound.inRound hphase
  have hbase : (net s).base = t.logAt (net s).committed := by
    rw [h.committed_eq]
    exact h.upTo_eq le_rfl
  have hreach := (hsound.certified.upTo (net s).rounds).reachable
  have hnum : (net s).base.numPlayers.toNat = t.size := by
    rw [hbase]
    exact t.numPlayers_toNat
  have htwo := (hreach.live (by rw [← hnum] at hn; exact hn) hlive).1
  obtain ⟨q, hq, hne, hfold⟩ := exists_unfolded_ne _ htwo (t.proposer (net s).committed).toNat
  refine ⟨q, ?_, hne, ?_⟩
  · have hlen := (net s).base.state_shaped.folded
    rw [← hnum, ← hlen]
    exact hq
  · rw [← hbase]
    exact hfold

end Chain

/-! ### A step of one node -/

section Moving
variable {G : List Entry} {prop : UInt64 → UInt32 → Option Entry} {s : ℕ} {i : Input} {r : Runner}

theorem FetchInv.not_undecoded (h : FetchInv t net s) {k : UInt64} {p : UInt8} {a : UInt32} {data : Bytes}
    (hphase : (net s).phase = .inRound k p a (.fetched data)) (hdec : t.entryCodec.decode data = none) :
    False := by
  obtain ⟨e, he, _⟩ : Verified t (net s).log data := h.stage _ _ _ _ hphase
  rw [hdec] at he
  cases he

theorem FetchInv.hasFetched_mono (h : FetchInv t net s) (hm : Runner.Move (t.setup s) (net s) i r)
    (hi : i.isDeadline = false) {k : UInt64} {a : UInt32} (hf : (net s).hasFetched k a = true) :
    r.hasFetched k a = true := by
  unfold Runner.hasFetched at hf ⊢
  rw [Bool.or_eq_true] at hf ⊢
  rcases hf with hlt | hf
  · exact Or.inl (decide_eq_true ((of_decide_eq_true hlt).trans_le hm.rounds_le))
  cases hm with
  | submit => exact Or.inr hf
  | commit hphase =>
    left
    rw [hphase] at hf
    simp only [Bool.and_eq_true, beq_iff_eq] at hf
    have hk := (h.sound.inRound hphase).1
    rw [← hf.1.1]
    exact decide_eq_true (by simp only; omega)
  | undecoded hphase hdec => exact (h.not_undecoded hphase hdec).elim
  | cleanup hphase =>
    right
    rw [hphase] at hf
    rename_i timeout
    cases timeout with
    | none => exact hf
    | some reason => simp [Stage.hasFetched] at hf
  | deadline => cases hi
  | receiptFailed => cases hi
  | attestationFailed => cases hi
  | _ =>
    right
    rename_i hphase
    simp_all [Stage.hasFetched]

theorem FetchInv.quiet_move (h : FetchInv t net s) (hm : Runner.Move (t.setup s) (net s) i r)
    (hi : i.isDeadline = false) (k : UInt64) (a : UInt32) : r.timedOut k a = false := by
  by_contra hc
  rcases hm.timedOut_new (Bool.not_eq_false _ ▸ hc) with
    hold | ⟨p, st, hphase, rfl | ⟨seat, rfl⟩ | ⟨data, rfl, hdec⟩⟩
  · rw [h.quiet k a] at hold
    cases hold
  · cases hi
  · cases hi
  · exact h.not_undecoded hphase hdec

theorem FetchInv.collected (h : FetchInv t net s) (hs : s < t.size) {k : UInt64} {p : UInt8} {a : UInt32}
    {got : List ℕ} (hphase : (net s).phase = .inRound k p a (.collecting got))
    (hgot : ∀ seat ∈ (net s).receiptSeats (t.setup s), seat ∈ got)
    (hP : FoldedHaveFetched t net s .collected) (hp : p.toNat = s) {q : ℕ} (hq : q < t.size) (hne : q ≠ s) :
    (net q).hasFetched k a = true := by
  cases hfold : (net s).log.state.isFolded q with
  | true =>
    have hcond := hP.2
    rw [hphase] at hcond
    exact hcond hp q hq hne hfold
  | false =>
    -- a seat that is not folded is one whose receipt was waited for
    have hgot' : ∀ q ∈ got, (net q).hasFetched k a = true := h.stage _ _ _ _ hphase
    exact hgot' q (hgot q ((t.mem_receiptSeats hs).mpr ⟨hq, hne, hfold⟩))

/-- What is fetched has been checked by the proposer against the same log. -/
theorem FetchInv.fetched (hall : ∀ q, FetchInv t net q) (hinv : Inv t net G prop) (hs : s < t.size)
    {k : UInt64} {p : UInt8} {a : UInt32} {data : Bytes} (hphase : (net s).phase = .inRound k p a .polling)
    (hserved : Served t (fun _ => true) net s (.proposal data)) : Verified t (net s).log data := by
  have hnode := hinv.node s hs
  obtain ⟨hk, _⟩ := hnode.inRound hphase
  simp only [Served, hphase, forall_const] at hserved
  have hq : (net s).log.expectedNextPlayer.toNat < t.size := hnode.expectedNextPlayer_lt hs
  obtain ⟨hle, e, hdec, hok⟩ := (hall _).proposal k a data hserved
  refine ⟨e, hdec, ?_⟩
  rw [(hinv.node _ hq).upTo_eq hle] at hok
  rw [t.peerPK_nodeID hq, Option.getD_some]
  have hlog : (net s).log = t.logAt (G.take k.toNat) := by rw [hk, hnode.log_base hphase rfl]
  rw [hlog] at hok ⊢
  exact hok

theorem FetchInv.stage_move (hall : ∀ q, FetchInv t net q) (hinv : Inv t net G prop) (hs : s < t.size)
    (hserved : Served t (fun _ => true) net s i) (hP : FoldedHaveFetched t net s i)
    (hrun : (net s).step (t.setup s) i = some r)
    (hl : ∀ q k a, (net q).hasFetched k a = true → (Function.update net s r q).hasFetched k a = true)
    (k : UInt64) (p : UInt8) (a : UInt32) (st : Stage) (hst : r.phase = .inRound k p a st) :
    StageFetched t (Function.update net s r) s k p a st := by
  have h := hall s
  have hself : Function.update net s r s = r := Function.update_self ..
  have hm := Runner.step_move hrun
  cases hm with
  | submit => exact (h.stage _ _ _ _ hst).later (by rw [hself]) fun q => hl q _ _
  | reject => exact (h.stage _ _ _ _ hst).later (by rw [hself]) fun q => hl q _ _
  | beginRound hphase =>
    obtain ⟨rfl, rfl, rfl, rfl⟩ := Phase.inRound.inj hst
    unfold Runner.startStage
    split_ifs <;> trivial
  | @proposal k p a data hphase =>
    obtain ⟨rfl, rfl, rfl, rfl⟩ := Phase.inRound.inj hst
    simp only [StageFetched, hself]
    exact FetchInv.fetched hall hinv hs hphase hserved
  | @receipt k p a got seat data hphase hseat =>
    obtain ⟨rfl, rfl, rfl, rfl⟩ := Phase.inRound.inj hst
    simp only [Served, hphase, forall_const] at hserved
    have hgot : ∀ q ∈ got, (net q).hasFetched k a = true := h.stage _ _ _ _ hphase
    intro q hq
    rcases List.mem_cons.mp hq with rfl | hq
    · exact hl _ _ _ ((hall _).receipt k a _ data hserved)
    · exact hl _ _ _ (hgot q hq)
  | collected hphase hgot =>
    obtain ⟨rfl, rfl, rfl, rfl⟩ := Phase.inRound.inj hst
    exact fun hp q hq hne => hl q _ _ (h.collected hs hphase hgot hP hp hq hne)
  | @cleanup k p a timeout hphase =>
    obtain ⟨rfl, rfl, rfl, rfl⟩ := Phase.inRound.inj hst
    have hold := (h.stage _ _ _ _ hphase).later (by rw [hself]) fun q => hl q _ _
    cases timeout with
    | none => exact hold
    | some reason => exact hold
  | hostReceipt hphase =>
    obtain ⟨rfl, rfl, rfl, rfl⟩ := Phase.inRound.inj hst
    exact List.forall_mem_nil _
  | propose hphase hok =>
    obtain ⟨rfl, rfl, rfl, rfl⟩ := Phase.inRound.inj hst
    trivial
  | appendOwn hphase =>
    obtain ⟨rfl, rfl, rfl, rfl⟩ := Phase.inRound.inj hst
    trivial
  | appendFetched hphase =>
    obtain ⟨rfl, rfl, rfl, rfl⟩ := Phase.inRound.inj hst
    trivial
  | invalid hphase =>
    -- a checked proposal is not met with silence
    obtain ⟨e, hdec, hok⟩ : Verified t (net s).log _ := h.stage _ _ _ _ hphase
    have hphase' := congrArg Runner.phase (Option.some.inj (hrun.symm.trans (append_of_verified hphase hdec hok)))
    cases hphase'
  | undecoded hphase hdec => exact (h.not_undecoded hphase hdec).elim
  | commit => cases hst
  | nextAttempt hphase => exact (h.stage _ _ _ _ hphase).elim
  | noAttestors hphase => exact (h.stage _ _ _ _ hphase).elim
  | attest hphase => exact (h.stage _ _ _ _ hphase).elim
  | attestation hphase => exact (h.stage _ _ _ _ hphase).elim
  | foldRefused hphase => exact (h.stage _ _ _ _ hphase).elim
  | fold hphase => exact (h.stage _ _ _ _ hphase).elim
  | deadline => cases hP.1
  | receiptFailed => cases hP.1
  | attestationFailed => cases hP.1

theorem FetchInv.proposal_move (h : FetchInv t net s) (hm : Runner.Move (t.setup s) (net s) i r)
    (k : UInt64) (a : UInt32) (v : Bytes) (hv : r.store.get (KeyName.proposal k a).key = some v) :
    k.toNat ≤ r.rounds ∧ ∃ e, t.entryCodec.decode v = some e ∧
      (r.log.upTo k.toNat).verifyProposal c e (c.publicKey (t.secretKey s)) = .ok () := by
  rcases hm.hosted_new hv with hold | ⟨_, _, _, e, hx, rfl, hphase, hok⟩ | ⟨_, _, _, _, hx, _⟩ | ⟨_, _, hx⟩
  · obtain ⟨hle, e, hdec, hok⟩ := h.proposal k a v hold
    refine ⟨hle.trans hm.rounds_le, e, hdec, ?_⟩
    rwa [h.sound.move_upTo hm hle]
  · cases hx
    have hk := (h.sound.inRound hphase).1
    refine ⟨hk.le.trans hm.rounds_le, e, t.entryCodec.decode_encode e, ?_⟩
    rw [h.sound.move_upTo hm hk.le, hk]
    rwa [h.sound.log_eq_base hphase rfl] at hok
  · cases hx
  · cases hx

theorem FetchInv.receipt_move (h : FetchInv t net s) (hm : Runner.Move (t.setup s) (net s) i r)
    (hi : i.isDeadline = false) (k : UInt64) (a : UInt32) (id v : Bytes)
    (hv : r.store.get (KeyName.verify k a id).key = some v) : r.hasFetched k a = true := by
  rcases hm.hosted_new hv with hold | ⟨_, _, _, _, hx, _⟩ | ⟨_, p, _, _, hx, hphase⟩ | ⟨_, _, hx⟩
  · exact h.hasFetched_mono hm hi (h.receipt k a id v hold)
  · cases hx
  · cases hx
    simp [Runner.hasFetched, hphase, Stage.hasFetched]
  · cases hx

theorem FetchInv.step {net' : Net} (hall : ∀ q, FetchInv t net q) (hinv : Inv t net G prop)
    (hstep : Step t (fun _ => true) (FoldedHaveFetched t) net net') : ∀ q, FetchInv t net' q := by
  cases hstep with
  | @node s i r hs _ hserved hP hrun =>
    have hm := Runner.step_move hrun
    have hl : ∀ q k a, (net q).hasFetched k a = true →
        (Function.update net s r q).hasFetched k a = true := by
      intro q k a hq
      by_cases hqs : q = s
      · subst hqs
        rw [Function.update_self]
        exact (hall q).hasFetched_mono hm hP.1 hq
      · rwa [Function.update_of_ne hqs]
    intro q
    have hq := hall q
    by_cases hqs : q = s
    · subst hqs
      refine ⟨?_, ?_, ?_, ?_, ?_⟩ <;> rw [Function.update_self]
      · exact hq.sound.move hm
      · exact hq.quiet_move hm hP.1
      · exact hq.proposal_move hm
      · exact hq.receipt_move hm hP.1
      · exact FetchInv.stage_move hall hinv hs hserved hP hrun hl
    · have hsame : Function.update net s r q = net q := Function.update_of_ne hqs ..
      refine ⟨?_, ?_, ?_, ?_, ?_⟩ <;> rw [hsame]
      · exact hq.sound
      · exact hq.quiet
      · exact hq.proposal
      · exact hq.receipt
      · exact fun k p a st hst => (hq.stage k p a st hst).later (by rw [hsame]) fun q' => hl q' _ _

/-- Nobody times out, so a verifier remains in every attempt. -/
theorem FetchInv.verifierRemains (hall : ∀ q, FetchInv t net q) (hinv : Inv t net G prop) (hn : 2 ≤ t.size)
    (hs : s < t.size) (hi : i.isDeadline = false) : VerifierRemains t net s i := by
  unfold VerifierRemains
  split
  case h_1 k p a st hphase =>
    obtain ⟨q, hatt⟩ := (hinv.node s hs).exists_attestor hn (hall s).sound hphase
    exact ⟨q, hatt.1, hatt, (hall q).quiet k a, by simp⟩
  case h_2 => cases hi
  case h_3 => cases hi
  case h_4 => trivial

end Moving

/-! ### Runs -/

theorem FetchInv.start (s : ℕ) : FetchInv t (Net.start (newLog t.numPlayers t.startingStack)) s where
  sound := Sound.start _ _
  quiet _ _ := rfl
  proposal _ _ _ h := by cases h
  receipt _ _ _ _ h := by cases h
  stage _ _ _ _ h := by cases h

theorem FetchInv.reaches (hn : 2 ≤ t.size) (h : Reaches t (fun _ => true) (FoldedHaveFetched t)
      (Net.start (newLog t.numPlayers t.startingStack)) net) :
    (∀ q, FetchInv t net q) ∧ ∃ G prop, Inv t net G prop := by
  induction h with
  | refl => exact ⟨FetchInv.start, _, _, Inv.start t⟩
  | tail _ hstep ih =>
    obtain ⟨hall, G, prop, hinv⟩ := ih
    refine ⟨FetchInv.step hall hinv hstep, ?_⟩
    cases hstep with
    | node hs hh hserved hP hrun =>
      exact hinv.step (.node hs hh hserved (FetchInv.verifierRemains hall hinv hn hs hP.1) hrun)

/-- A node that has fetched the proposal of an attempt has it in its log or can
append it. -/
theorem FetchInv.canAppend {G : List Entry} {prop : UInt64 → UInt32 → Option Entry} {q : ℕ} {k : UInt64}
    {a : UInt32} {e : Entry} (h : FetchInv t net q) (hnode : NodeInv t net G prop q)
    (hf : (net q).hasFetched k a = true) (he : prop k a = some e) (hG : G[k.toNat]? = some e) :
    CanAppend t q (net q) k e := by
  unfold Runner.hasFetched at hf
  rw [Bool.or_eq_true] at hf
  rcases hf with hlt | hf
  · left
    have hlt := of_decide_eq_true hlt
    have hcom := congrArg (fun l : List Entry => l[k.toNat]?) hnode.committed_eq
    simp only [Runner.committed, List.getElem?_take, if_pos hlt] at hcom
    rw [hcom, hG]
  · cases hphase : (net q).phase with
    | idle => simp [hphase] at hf
    | failed => simp [hphase] at hf
    | inRound k' p b st =>
      simp only [hphase, Bool.and_eq_true, beq_iff_eq] at hf
      obtain ⟨⟨rfl, rfl⟩, hst⟩ := hf
      have hstage := h.stage _ _ _ _ hphase
      cases st with
      | hosted e' =>
        obtain ⟨_, _, _, _, _, hprop⟩ := hnode.inRound hphase
        obtain rfl := Option.some.inj (he.symm.trans hprop)
        right
        exact ⟨{ net q with log := (net q).log.append e, phase := .inRound k' p b .appended },
          by simp only [Runner.step, Runner.append, hphase], hnode.getElem_append _ hphase rfl⟩
      | fetched data =>
        obtain ⟨_, _, _, _, _, e', rfl, hprop⟩ := hnode.inRound hphase
        obtain rfl := Option.some.inj (he.symm.trans hprop)
        obtain ⟨e', hdec, hok⟩ : Verified t (net q).log _ := hstage
        obtain rfl := Option.some.inj ((t.entryCodec.decode_encode e).symm.trans hdec)
        right
        exact ⟨_, append_of_verified hphase hdec hok, hnode.getElem_append _ hphase rfl⟩
      | silent reason => exact hstage.elim
      | appended => exact Or.inl (hnode.getElem_extended hphase rfl he)
      | collecting got => exact Or.inl (hnode.getElem_extended hphase rfl he)
      | returned timeout =>
        cases timeout with
        | none => exact Or.inl (hnode.getElem_extended hphase rfl he)
        | some reason => cases hst
      | cleaned timeout =>
        cases timeout with
        | none => exact Or.inl (hnode.getElem_extended hphase rfl he)
        | some reason => cases hst
      | _ => cases hst

end Fetching

theorem no_proposal_lost (c : Primitives) (t : Table c) (net : Net)
    (h : Reaches t (fun _ => true) (FoldedHaveFetched t)
      (Net.start (newLog t.numPlayers t.startingStack)) net) : NoneLost t net := by
  intro s hs k p a hphase hp q hq hne
  obtain ⟨hall, G, prop, hinv⟩ := FetchInv.reaches (by omega) h
  have hfetched : (net q).hasFetched k a = true := (hall s).stage k p a _ hphase hp q hq hne
  obtain ⟨hk, _, _, _, ⟨e, _, he⟩, hlt, hlog⟩ := (hinv.node s hs).inRound hphase
  have hget := (hinv.node s hs).getElem_extended hphase rfl he
  have hG : G[k.toNat]? = some e := by
    rwa [hlog, List.getElem?_take, if_pos (by omega)] at hget
  exact ⟨hfetched, e, hget, (hall q).canAppend (hinv.node q hq) hfetched he hG⟩

def threeHanded : Table .transparent := .sample 3 three_seats_lt 1 100

/- A round in which one seat proposes an action and the other two follow up to
their receipts. -/
def followed (proposer : ℕ) (action : Action) (others : List ℕ) : List (ℕ × Input) :=
  submitsAt proposer action ++ [(proposer, .beginRound), (proposer, .propose), (proposer, .append),
    (proposer, .hostReceipt)] ++
  others.flatMap fun s => [(s, .beginRound), (s, .proposal []), (s, .append), (s, .hostReceipt)]

/- A seat reads the receipts of some others and deletes the files of the attempt. -/
def commitsAfter (s : ℕ) (others : List ℕ) : List (ℕ × Input) :=
  others.map (fun q => (s, .receipt q [])) ++ [(s, .collected), (s, .cleanup)]

/- Seat 0 folds and all commit. -/
def zeroFoldsFirst : List (ℕ × Input) :=
  followed 0 ⟨.fold, 0⟩ [1, 2] ++ commitsAfter 0 [1, 2] ++ commitsAfter 1 [2] ++ commitsAfter 2 [1] ++
    [(0, .conclude), (1, .conclude), (2, .conclude), (0, .beginRound)]

/- In the next round seat 0 has the proposal before seat 1 commits and deletes it. -/
def foldedSeatInTime : Net :=
  runTo threeHanded (fun _ => true) (FoldedHaveFetched threeHanded) (Net.start (newLog 3 100))
    (zeroFoldsFirst ++ followed 1 ⟨.check, 0⟩ [2] ++ [(0, .proposal [])] ++ commitsAfter 1 [2]) (by decide +kernel)

theorem no_proposal_lost_after_fold :
    (foldedSeatInTime 1).log.state.isFolded 0 = true ∧ (foldedSeatInTime 1).didCommit 1 0 = true ∧
      NoneLost threeHanded foldedSeatInTime :=
  ⟨by decide +kernel, by decide +kernel, no_proposal_lost .transparent threeHanded _ (runTo_reaches ..)⟩

def withoutDeadlines : Net → ℕ → Input → Prop := fun _ _ i => i.isDeadline = false

instance (net : Net) (s : ℕ) (i : Input) : Decidable (withoutDeadlines net s i) :=
  inferInstanceAs (Decidable (_ = _))

/- Seat 0 has just begun to poll when seat 1 has the receipt of seat 2 and deletes its
proposal. -/
def foldedSeatLate : Net :=
  runTo threeHanded (fun _ => true) withoutDeadlines (Net.start (newLog 3 100))
    (zeroFoldsFirst ++ followed 1 ⟨.check, 0⟩ [2] ++ commitsAfter 1 [2]) (by decide +kernel)

theorem folded_seat_loses_entry :
    ¬ ∀ (c : Primitives) (t : Table c) (net : Net),
      Reaches t (fun _ => true) withoutDeadlines (Net.start (newLog t.numPlayers t.startingStack)) net →
      NoneLost t net := by
  intro h
  have hlost := h .transparent threeHanded foldedSeatLate (runTo_reaches ..) 1 (by decide) 1 1 0
    (by decide +kernel) (by decide) 0 (by decide) (by decide)
  exact absurd hlost.1 (by decide +kernel)

end P2Poker.Round
