import P2Poker.Game.AutoFold

/-!
# What a signature ties an entry to

A proposal is signed over the log and the action, an auto-fold over the log, the
round and the target. Two hands start with the same empty log, so what was signed
in the first round of one is good in the first round of the other; and the data
of an entry is not signed at all.
-/

namespace P2Poker.Game
open P2Poker.Lib P2Poker.Crypto

/-! ### Points of play -/

/-- The hands of the same seats, each with the log it ends with. -/
structure Session (c : Primitives) (n : UInt8) where
  stack : ℕ → UInt64
  log : ℕ → Log
  reachable : ∀ i, Reachable c n (stack i) (log i)

structure Session.Point {c : Primitives} {n : UInt8} (play : Session c n) where
  hand : ℕ
  round : ℕ
  round_le : round ≤ (play.log hand).entries.length

def Session.Point.log {c : Primitives} {n : UInt8} {play : Session c n} (p : play.Point) : Log :=
  (play.log p.hand).upTo p.round

theorem Session.Point.numPlayers {c : Primitives} {n : UInt8} {play : Session c n} (p : play.Point) :
    p.log.numPlayers = n := (play.reachable p.hand).numPlayers

/-- Accepted under these keys, by one path or the other. -/
def Log.AcceptsUnder (c : Primitives) (pks : UInt8 → Option Bytes) (l : Log) (e : Entry) : Prop :=
  (∃ pk, pks e.playerID = some pk ∧ l.verifyProposal c e pk = .ok ()) ∨
    l.verifyAutoFoldEntry c e pks = .ok ()

/-- What the replayed state has to say about an entry, apart from its signatures. -/
def Log.Admits (l : Log) (e : Entry) : Prop :=
  if e.isAutoFold then
    l.state.isFolded e.playerID.toNat = false ∧ e.coSigners = l.expectedAutoFoldAttestors e.playerID
  else l.OnTurn e ∧ l.state.validateAction e.playerID e.action = .ok ()

section Accept
variable {c : Primitives} {pks : UInt8 → Option Bytes} {l l' : Log} {e : Entry}

theorem isAutoFold_of_verifyProposal (hc : c.OnePayload) {pk : Bytes} (h : l.verifyProposal c e pk = .ok ()) :
    e.isAutoFold = false := by
  obtain ⟨_, _, _, hsig, _⟩ := verifyProposal_ok h
  have hne := hc.nonempty hsig
  simp [Entry.isAutoFold, hne]

theorem verifyProposal_ok_iff {pk : Bytes} :
    l.verifyProposal c e pk = .ok () ↔ e.roundID = l.roundID ∧ e.playerID = l.expectedNextPlayer ∧
      pk.length = publicKeySize ∧ c.verify pk (l.proposalPayload e.action) e.signature = true ∧
      l.state.validateAction e.playerID e.action = .ok () := by
  refine ⟨verifyProposal_ok, ?_⟩
  rintro ⟨hr, hp, hk, hsig, hval⟩
  unfold Log.verifyProposal
  rw [if_neg (not_not.mpr hr), if_neg (not_not.mpr hp), if_neg (not_not.mpr hk), if_neg (by simp [hsig]), hval]

/-- An entry that two logs accept was signed over the same bytes. -/
theorem AcceptsUnder.bytes_eq (hc : c.OnePayload) (h : l.AcceptsUnder c pks e) (h' : l'.AcceptsUnder c pks e) :
    l'.roundID = l.roundID ∧ l'.bytes = l.bytes := by
  rcases h with ⟨pk, hpk, h⟩ | h
  · rcases h' with ⟨pk', hpk', h'⟩ | h'
    · obtain rfl := Option.some.inj (hpk.symm.trans hpk')
      obtain ⟨hr, _, _, hsig, _⟩ := verifyProposal_ok h
      obtain ⟨hr', _, _, hsig', _⟩ := verifyProposal_ok h'
      exact ⟨hr'.symm.trans hr, (List.append_inj' (hc.payload_eq hsig' hsig) rfl).1⟩
    · have hself := isAutoFold_of_verifyProposal hc h
      rw [(verifyAutoFoldEntry_ok_iff.mp h').1.shape] at hself
      cases hself
  · obtain ⟨hfold, hco⟩ := verifyAutoFoldEntry_ok_iff.mp h
    rcases h' with ⟨pk', _, h'⟩ | h'
    · have hself := isAutoFold_of_verifyProposal hc h'
      rw [hfold.shape] at hself
      cases hself
    · obtain ⟨hfold', hco'⟩ := verifyAutoFoldEntry_ok_iff.mp h'
      -- any one co-signature ties the two logs together
      obtain ⟨seat, hseat⟩ := List.exists_mem_of_ne_nil _ hfold.attestors
      obtain ⟨sig, hx⟩ := hco.exists_mem_zip hseat
      obtain ⟨pk, hpk, _, hver⟩ := hco.attest _ hx
      obtain ⟨pk', hpk', _, hver'⟩ := hco'.attest _ hx
      obtain rfl := Option.some.inj (hpk.symm.trans hpk')
      have hpay := hc.payload_eq hver' hver
      simp only [Log.autoFoldPayload, List.append_assoc] at hpay
      exact ⟨hfold'.round.symm.trans hfold.round, (List.append_inj' hpay rfl).1⟩

/-- Where round and bytes are the same, only the replayed state can refuse. -/
theorem acceptsUnder_iff_admits (hc : c.OnePayload) (hn : l'.numPlayers = l.numPlayers)
    (hround : l'.roundID = l.roundID) (hbytes : l'.bytes = l.bytes) (h : l.AcceptsUnder c pks e) :
    l'.AcceptsUnder c pks e ↔ l'.Admits e := by
  unfold Log.Admits
  rcases h with ⟨pk, hpk, h⟩ | h
  · have hself := isAutoFold_of_verifyProposal hc h
    obtain ⟨hr, _, hsize, hsig, _⟩ := verifyProposal_ok h
    rw [if_neg (by simp [hself])]
    constructor
    · rintro (⟨pk', _, h'⟩ | h')
      · obtain ⟨_, hturn, _, _, hval⟩ := verifyProposal_ok h'
        exact ⟨⟨((State.validateAction_ok_iff _ _ _).mp hval).1, hturn⟩, hval⟩
      · rw [(verifyAutoFoldEntry_ok_iff.mp h').1.shape] at hself
        cases hself
    · rintro ⟨⟨_, hturn⟩, hval⟩
      refine Or.inl ⟨pk, hpk, verifyProposal_ok_iff.mpr ⟨hr.trans hround.symm, hturn, hsize, ?_, hval⟩⟩
      rwa [Log.proposalPayload, hbytes]
  · obtain ⟨hfold, hco⟩ := verifyAutoFoldEntry_ok_iff.mp h
    rw [if_pos hfold.shape]
    constructor
    · rintro (⟨pk', _, h'⟩ | h')
      · have hself := isAutoFold_of_verifyProposal hc h'
        rw [hfold.shape] at hself
        cases hself
      · obtain ⟨hfold', hco'⟩ := verifyAutoFoldEntry_ok_iff.mp h'
        exact ⟨hfold'.unfolded, hco'.coSigners⟩
    · rintro ⟨hunfolded, hsigners⟩
      refine Or.inr (verifyAutoFoldEntry_ok_iff.mpr ⟨⟨hfold.round.trans hround.symm, hfold.shape, ?_,
        hunfolded, ?_⟩, hsigners, hco.coSignatures, ?_⟩)
      · rw [hn]
        exact hfold.seat_lt
      · rw [← hsigners, hco.coSigners]
        exact hfold.attestors
      · intro x hx
        have hatt := hco.attest x hx
        rwa [Log.autoFoldPayload, ← hbytes] at hatt

end Accept

/-! ### Replays -/

/- Two rounds of one hand have logs of different length. -/
theorem Session.Point.bytes_ne {c : Primitives} {n : UInt8} {play : Session c n} {p q : play.Point}
    (hpq : p ≠ q) (hhand : p.hand = q.hand) : p.log.bytes ≠ q.log.bytes := by
  obtain ⟨i, a, ha⟩ := p
  obtain ⟨j, b, hb⟩ := q
  obtain rfl : i = j := hhand
  have hlt : ∀ a b, a < b → b ≤ (play.log i).entries.length →
      ((play.log i).upTo a).bytes.length < ((play.log i).upTo b).bytes.length := by
    intro a b hab hb
    rw [← Log.upTo_upTo hab.le]
    refine Log.bytes_upTo_length_lt _ ?_
    simpa [Log.upTo] using ⟨hab, hab.trans_le hb⟩
  intro heq
  have hlen := congrArg List.length heq
  have hne : a ≠ b := by
    rintro rfl
    exact hpq rfl
  rcases lt_or_gt_of_ne hne with hab | hab
  · exact absurd hlen (hlt a b hab hb).ne
  · exact absurd hlen (hlt b a hab ha).ne'

/-- An entry accepted at one point is refused at another exactly when both are in
one hand, or the logs differ in length or in bytes, or the state there does not
admit it. -/
theorem replay_rejected_iff (c : Primitives) (hc : c.OnePayload) (n : UInt8) (play : Session c n)
    (pks : UInt8 → Option Bytes) (p q : play.Point) (hpq : p ≠ q) (e : Entry)
    (h : p.log.AcceptsUnder c pks e) :
    ¬ q.log.AcceptsUnder c pks e ↔ p.hand = q.hand ∨ q.log.roundID ≠ p.log.roundID ∨
      q.log.bytes ≠ p.log.bytes ∨ ¬ q.log.Admits e := by
  constructor
  · intro hrej
    by_contra hcond
    push Not at hcond
    obtain ⟨_, hround, hbytes, hadm⟩ := hcond
    have hn : q.log.numPlayers = p.log.numPlayers := q.numPlayers.trans p.numPlayers.symm
    exact hrej ((acceptsUnder_iff_admits hc hn hround hbytes h).mpr hadm)
  · intro hcond hacc
    obtain ⟨hround, hbytes⟩ := AcceptsUnder.bytes_eq hc h hacc
    rcases hcond with hhand | hne | hne | hadm
    · exact Session.Point.bytes_ne hpq hhand hbytes.symm
    · exact hne hround
    · exact hne hbytes
    · have hn : q.log.numPlayers = p.log.numPlayers := q.numPlayers.trans p.numPlayers.symm
      exact hadm ((acceptsUnder_iff_admits hc hn hround hbytes h).mp hacc)

def oneCheck : Log := (newLog 2 100).play .transparent seatKey [⟨.check, 0⟩]

/-- Every hand is one check long. -/
def checkSession : Session .transparent 2 where
  stack _ := 100
  log _ := oneCheck
  reachable _ := (TurnReachable.play .new (by decide +kernel) (by decide)).reachable

def checkEntry : Entry := (newLog 2 100).nextEntry .transparent seatKey ⟨.check, 0⟩

theorem checkEntry_accepted : (oneCheck.upTo 0).AcceptsUnder .transparent seatPublicKeys checkEntry :=
  Or.inl ⟨_, rfl, by decide +kernel⟩

theorem replay_rejected_next_round :
    ¬ (⟨0, 1, by decide⟩ : checkSession.Point).log.AcceptsUnder .transparent seatPublicKeys checkEntry :=
  (replay_rejected_iff .transparent Primitives.transparent_onePayload 2 checkSession seatPublicKeys
    ⟨0, 0, by decide⟩ ⟨0, 1, by decide⟩ (by simp) checkEntry checkEntry_accepted).mpr (Or.inl rfl)

/-- The check of the first round of a hand is accepted in the first round of the
next. -/
theorem check_replayed :
    ¬ ∀ (c : Primitives), c.OnePayload → ∀ (n : UInt8) (play : Session c n) (pks : UInt8 → Option Bytes)
      (p q : play.Point), p ≠ q → ∀ e, p.log.AcceptsUnder c pks e → ¬ q.log.AcceptsUnder c pks e := by
  intro h
  exact h .transparent Primitives.transparent_onePayload 2 checkSession seatPublicKeys ⟨0, 0, Nat.zero_le _⟩
    ⟨1, 0, Nat.zero_le _⟩ (by simp) checkEntry checkEntry_accepted checkEntry_accepted

/-! ### One signature, two entries -/

theorem data_eq_of_field {a b : Bytes} (h : beBytes 4 a.length ++ a = beBytes 4 b.length ++ b) : a = b :=
  (List.append_inj h (by simp only [beBytes_length])).2

/-- Two accepted entries with one signature are encoded alike exactly when they
carry the same data. -/
theorem same_signature_iff (c : Primitives) (hc : c.OnePayload) (l : Log) (pk : Bytes) (e e' : Entry)
    (h : l.verifyProposal c e pk = .ok ()) (h' : l.verifyProposal c e' pk = .ok ())
    (hsig : e.signature = e'.signature) : e.bytes = e'.bytes ↔ e.data = e'.data := by
  obtain ⟨hr, hp, _, hver, _⟩ := verifyProposal_ok h
  obtain ⟨hr', hp', _, hver', _⟩ := verifyProposal_ok h'
  rw [← hsig] at hver'
  have haction : e.action = e'.action :=
    Action.bytes_injective (List.append_cancel_left (hc.payload_eq hver hver'))
  have hself := isAutoFold_of_verifyProposal hc h
  have hself' := isAutoFold_of_verifyProposal hc h'
  unfold Entry.bytes
  rw [hr, hr', hp, hp', haction, hsig, hself, hself', if_neg Bool.false_ne_true, if_neg Bool.false_ne_true,
    List.append_assoc, List.append_assoc _ _ e'.data, List.append_cancel_left_eq]
  exact ⟨data_eq_of_field, fun hdata => by rw [hdata]⟩

/- The same signature with other data beside it. -/
def taggedCheck : Entry := { checkEntry with data := [1] }

theorem same_signature_tagged_check : checkEntry.bytes ≠ taggedCheck.bytes := by
  have hiff := same_signature_iff .transparent Primitives.transparent_onePayload (newLog 2 100)
    (Primitives.transparent.publicKey (seatKey 0)) checkEntry taggedCheck (by decide +kernel)
    (by decide +kernel) rfl
  exact fun h => absurd (hiff.mp h) (by decide)

/-- Data added to a signed check goes into the log. -/
theorem data_not_signed :
    ¬ ∀ (c : Primitives), c.OnePayload → ∀ (n : UInt8) (stack : UInt64) (l : Log), Reachable c n stack l →
      ∀ pk e e', l.verifyProposal c e pk = .ok () → l.verifyProposal c e' pk = .ok () →
        e.signature = e'.signature → e.bytes = e'.bytes := by
  intro h
  have heq := h .transparent Primitives.transparent_onePayload 2 100 (newLog 2 100) .new
    (Primitives.transparent.publicKey (seatKey 0)) checkEntry taggedCheck (by decide +kernel) (by decide +kernel) rfl
  exact absurd heq (by decide +kernel)

end P2Poker.Game
