import P2Poker.Game.Play
import P2Poker.Game.Turn

/-!
# Auto-folds

What `VerifyAutoFoldEntry` checks, as one equivalence, and what it leaves to the
seats that co-sign: neither the turn nor the end of the hand is looked at, and
with two seats left one signature is enough.
-/

namespace P2Poker.Game
open P2Poker.Lib P2Poker.Crypto

/-! ### What is checked -/

theorem mem_expectedAutoFoldAttestors {l : Log} {target q : UInt8} :
    q ∈ l.expectedAutoFoldAttestors target ↔
      q.toNat < l.numPlayers.toNat ∧ q ≠ target ∧ l.state.isFolded q.toNat = false := by
  have hn := l.numPlayers.toNat_lt
  unfold Log.expectedAutoFoldAttestors
  rw [List.mem_map]
  constructor
  · rintro ⟨seat, hseat, rfl⟩
    rw [List.mem_filter, List.mem_range] at hseat
    obtain ⟨hlt, hfree⟩ := hseat
    have hval : (UInt8.ofNat seat).toNat = seat := by
      rw [toNat_ofNat_byte, Nat.mod_eq_of_lt (by omega)]
    simp only [Bool.not_eq_true', Bool.or_eq_false_iff, beq_eq_false_iff_ne, ne_eq] at hfree
    refine ⟨by rwa [hval], ?_, by rw [hval]; exact hfree.2⟩
    intro heq
    exact hfree.1 (by rw [← heq, hval])
  · rintro ⟨hlt, hne, hf⟩
    refine ⟨q.toNat, ?_, UInt8.ofNat_toNat⟩
    rw [List.mem_filter, List.mem_range]
    refine ⟨hlt, ?_⟩
    have hval : q.toNat ≠ target.toNat := fun h => hne (UInt8.toNat_inj.mp h)
    simp [hval, hf]

theorem expectedAutoFoldAttestors_nodup (l : Log) (target : UInt8) :
    (l.expectedAutoFoldAttestors target).Nodup := by
  have hn := l.numPlayers.toNat_lt
  refine (List.nodup_range.filter _).map_on ?_
  intro i hi j hj heq
  have hi' := List.mem_range.mp (List.mem_filter.mp hi).1
  have hj' := List.mem_range.mp (List.mem_filter.mp hj).1
  have hval := congrArg UInt8.toNat heq
  rwa [toNat_ofNat_byte, toNat_ofNat_byte, Nat.mod_eq_of_lt (by omega), Nat.mod_eq_of_lt (by omega)]
    at hval

theorem expectedAutoFoldAttestors_length (l : Log) (target : UInt8) :
    (l.expectedAutoFoldAttestors target).length < 256 := by
  have hle := List.length_filter_le
    (fun seat => !(seat == target.toNat || l.state.isFolded seat)) (List.range l.numPlayers.toNat)
  have hn := l.numPlayers.toNat_lt
  simp only [Log.expectedAutoFoldAttestors, List.length_map, List.length_range] at hle ⊢
  omega

/-- The entry has the shape of an auto-fold of this round, of a seat still in
that is not alone. -/
structure Foldable (l : Log) (e : Entry) : Prop where
  round : e.roundID = l.roundID
  shape : e.isAutoFold = true
  seat_lt : e.playerID < l.numPlayers
  unfolded : l.state.isFolded e.playerID.toNat = false
  attestors : l.expectedAutoFoldAttestors e.playerID ≠ []

/-- A seat's signature under an attestation. -/
def Attests (c : Primitives) (pks : UInt8 → Option Bytes) (payload : Bytes) (x : UInt8 × Bytes) : Prop :=
  ∃ pk, pks x.1 = some pk ∧ pk.length = publicKeySize ∧ c.verify pk payload x.2 = true

/-- Every other seat still in has co-signed. -/
structure CoSigned (c : Primitives) (pks : UInt8 → Option Bytes) (l : Log) (e : Entry) : Prop where
  coSigners : e.coSigners = l.expectedAutoFoldAttestors e.playerID
  coSignatures : e.coSignatures.length = e.coSigners.length
  attest : ∀ x ∈ e.coSigners.zip e.coSignatures, Attests c pks (l.autoFoldPayload e.roundID e.playerID) x

theorem CoSigned.exists_coSigner {c : Primitives} {pks : UInt8 → Option Bytes} {l : Log} {e : Entry}
    (h : CoSigned c pks l e) {sig : Bytes} (hsig : sig ∈ e.coSignatures) :
    ∃ seat, Attests c pks (l.autoFoldPayload e.roundID e.playerID) (seat, sig) := by
  have hzip : (e.coSigners.zip e.coSignatures).map Prod.snd = e.coSignatures :=
    List.map_snd_zip h.coSignatures.le
  rw [← hzip, List.mem_map] at hsig
  obtain ⟨x, hx, rfl⟩ := hsig
  exact ⟨x.1, h.attest x hx⟩

theorem CoSigned.exists_mem_zip {c : Primitives} {pks : UInt8 → Option Bytes} {l : Log} {e : Entry}
    (h : CoSigned c pks l e) {seat : UInt8} (hseat : seat ∈ l.expectedAutoFoldAttestors e.playerID) :
    ∃ sig, (seat, sig) ∈ e.coSigners.zip e.coSignatures := by
  have hzip : (e.coSigners.zip e.coSignatures).map Prod.fst = e.coSigners :=
    List.map_fst_zip h.coSignatures.ge
  rw [← h.coSigners, ← hzip, List.mem_map] at hseat
  obtain ⟨x, hx, rfl⟩ := hseat
  exact ⟨x.2, hx⟩

theorem CoSigned.exists_coSignature {c : Primitives} {pks : UInt8 → Option Bytes} {l : Log} {e : Entry}
    (h : CoSigned c pks l e) {seat : UInt8} (hseat : seat ∈ l.expectedAutoFoldAttestors e.playerID) :
    ∃ sig ∈ e.coSignatures, Attests c pks (l.autoFoldPayload e.roundID e.playerID) (seat, sig) := by
  obtain ⟨sig, hx⟩ := h.exists_mem_zip hseat
  exact ⟨sig, (List.of_mem_zip hx).2, h.attest _ hx⟩

section Checks
variable {c : Primitives} {pks : UInt8 → Option Bytes} {l : Log} {e : Entry}

theorem verifyAutoFoldAttestation_ok_iff {r : UInt64} {target : UInt8} {pk sig : Bytes} :
    l.verifyAutoFoldAttestation c r target pk sig = .ok () ↔
      pk.length = publicKeySize ∧ c.verify pk (l.autoFoldPayload r target) sig = true := by
  unfold Log.verifyAutoFoldAttestation
  split_ifs with hsize hsig <;> simp_all

theorem verifyCoSigners_ok_iff (i : ℕ) (seats wants : List UInt8) (sigs : List Bytes)
    (hw : seats.length = wants.length) (hs : sigs.length = seats.length) :
    l.verifyCoSigners c e pks i seats wants sigs = .ok () ↔
      seats = wants ∧ ∀ x ∈ seats.zip sigs, Attests c pks (l.autoFoldPayload e.roundID e.playerID) x := by
  induction seats generalizing i wants sigs with
  | nil =>
    obtain rfl := List.length_eq_zero_iff.mp hw.symm
    simp [Log.verifyCoSigners]
  | cons seat seats ih =>
    cases wants with
    | nil => cases hw
    | cons want wants =>
      cases sigs with
      | nil => cases hs
      | cons sig sigs =>
        have ih := ih (i + 1) wants sigs (Nat.succ.inj hw) (Nat.succ.inj hs)
        unfold Log.verifyCoSigners
        by_cases hseat : seat = want
        · subst hseat
          rw [if_neg (not_not.mpr rfl), List.zip_cons_cons, List.forall_mem_cons]
          cases hpk : pks seat with
          | none => simp [Attests, hpk]
          | some pk =>
            have hatt : l.verifyAutoFoldAttestation c e.roundID e.playerID pk sig = .ok () ↔ _ :=
              verifyAutoFoldAttestation_ok_iff
            cases hv : l.verifyAutoFoldAttestation c e.roundID e.playerID pk sig with
            | error err =>
              have hno : ¬ Attests c pks (l.autoFoldPayload e.roundID e.playerID) (seat, sig) := by
                rintro ⟨pk', hpk', hok⟩
                obtain rfl := Option.some.inj (hpk.symm.trans hpk')
                have := hv.symm.trans (hatt.mpr hok)
                cases this
              simp [hno, hv]
            | ok u =>
              have hhead : Attests c pks (l.autoFoldPayload e.roundID e.playerID) (seat, sig) :=
                ⟨pk, hpk, hatt.mp hv⟩
              simp [ih, hhead, hv]
        · simp [hseat]

theorem verifyAutoFoldEntry_ok_iff :
    l.verifyAutoFoldEntry c e pks = .ok () ↔ Foldable l e ∧ CoSigned c pks l e := by
  constructor
  · intro h
    obtain ⟨hr, ha, hp, hf, hpos, hcount, hlen, hok⟩ := verifyAutoFoldEntry_ok h
    obtain ⟨hseats, hsigs⟩ := (verifyCoSigners_ok_iff 0 _ _ _ hcount hlen).mp hok
    exact ⟨⟨hr, ha, hp, hf, List.length_pos_iff.mp hpos⟩, hseats, hlen, hsigs⟩
  · rintro ⟨hfold, hco⟩
    have hcount := congrArg List.length hco.coSigners
    unfold Log.verifyAutoFoldEntry
    dsimp only
    rw [if_neg (not_not.mpr hfold.round), if_neg (by simp [hfold.shape]),
      if_neg (UInt8.not_le.mpr hfold.seat_lt), if_neg (by simp [hfold.unfolded]),
      if_neg (by simpa using hfold.attestors), if_neg (not_not.mpr hcount),
      if_neg (not_not.mpr hco.coSignatures)]
    exact (verifyCoSigners_ok_iff 0 _ _ _ hcount hco.coSignatures).mpr ⟨hco.coSigners, hco.attest⟩

end Checks

/-! ### Whose turn it is -/

/-- The hand is on and the entry is the one of the seat whose turn it is. -/
def Log.OnTurn (l : Log) (e : Entry) : Prop :=
  l.state.handOver = false ∧ e.playerID = l.expectedNextPlayer

theorem onTurn_of_verifyProposal {c : Primitives} {l : Log} {e : Entry} {pk : Bytes}
    (h : l.verifyProposal c e pk = .ok ()) : l.OnTurn e := by
  obtain ⟨_, hturn, _, _, hval⟩ := verifyProposal_ok h
  exact ⟨((State.validateAction_ok_iff _ _ _).mp hval).1, hturn⟩

/-- The auto-fold of a seat, co-signed by the seats given with their keys. -/
def Log.autoFoldWith (c : Primitives) (key : UInt8 → c.PrivateKey) (l : Log) (target : UInt8) (seats : List UInt8) :
    Entry where
  roundID := l.roundID
  playerID := target
  action := ⟨.fold, 0⟩
  coSigners := seats
  coSignatures := seats.map fun s => l.buildAutoFoldAttestation c l.roundID target (key s)

theorem autoFoldWith_accepted {c : Primitives} {key : UInt8 → c.PrivateKey} {l : Log} {target : UInt8}
    {seats : List UInt8} (h : Foldable l (l.autoFoldWith c key target seats))
    (hseats : seats = l.expectedAutoFoldAttestors target) :
    l.verifyAutoFoldEntry c (l.autoFoldWith c key target seats) (fun s => some (c.publicKey (key s))) = .ok () := by
  refine verifyAutoFoldEntry_ok_iff.mpr ⟨h, hseats, List.length_map .., ?_⟩
  intro x hx
  rw [Log.autoFoldWith, ← List.map_prod_left_eq_zip, List.mem_map] at hx
  obtain ⟨s, _, rfl⟩ := hx
  exact ⟨_, rfl, c.publicKey_length _, c.verify_of_sign _ _⟩

/- An auto-fold needs its target and a seat that attests. -/
theorem Foldable.two_unfolded {l : Log} {e : Entry} (h : Foldable l e) : 2 ≤ l.state.numNonFolded := by
  obtain ⟨q, hq⟩ := List.exists_mem_of_ne_nil _ h.attestors
  obtain ⟨hqn, hqe, hqf⟩ := mem_expectedAutoFoldAttestors.mp hq
  have hen := UInt8.lt_iff_toNat_lt.mp h.seat_lt
  rw [← l.state_shaped.folded] at hqn hen
  have hne : q.toNat ≠ e.playerID.toNat := fun heq => hqe (UInt8.toNat_inj.mp heq)
  exact two_le_countP_not hne hqn hen hqf h.unfolded

/-- Two unfolded seats are enough for an auto-fold of a seat that is not in turn. -/
theorem exists_fold_out_of_turn {l : Log} (h : 2 ≤ l.state.numNonFolded) :
    ∃ target : UInt8, target ≠ l.expectedNextPlayer ∧ ∀ (c : Primitives) (key : UInt8 → c.PrivateKey),
      Foldable l (l.autoFoldWith c key target (l.expectedAutoFoldAttestors target)) := by
  have hbound := l.numPlayers.toNat_lt
  obtain ⟨p, hp, hne, hpf⟩ := exists_unfolded_ne l.state.folded h l.expectedNextPlayer.toNat
  obtain ⟨q, hq, hqp, hqf⟩ := exists_unfolded_ne l.state.folded h p
  rw [l.state_shaped.folded] at hp hq
  have hpval : (UInt8.ofNat p).toNat = p := by rw [toNat_ofNat_byte, Nat.mod_eq_of_lt (by omega)]
  have hqval : (UInt8.ofNat q).toNat = q := by rw [toNat_ofNat_byte, Nat.mod_eq_of_lt (by omega)]
  have hattests : UInt8.ofNat q ∈ l.expectedAutoFoldAttestors (UInt8.ofNat p) := by
    refine mem_expectedAutoFoldAttestors.mpr ⟨by rwa [hqval], ?_, by rw [hqval]; exact hqf⟩
    intro heq
    exact hqp (by rw [← hqval, heq, hpval])
  refine ⟨UInt8.ofNat p, ?_, fun c key => ⟨rfl, rfl, ?_, ?_, List.ne_nil_of_mem hattests⟩⟩
  · intro heq
    exact hne (by rw [← heq, hpval])
  · exact UInt8.lt_iff_toNat_lt.mpr (by rw [Log.autoFoldWith, hpval]; exact hp)
  · rw [Log.autoFoldWith, hpval]
    exact hpf

/-- `VerifyProposal` holds to the turn on every log. `VerifyAutoFoldEntry` does on exactly
those logs that it accepts nothing on, with fewer than two seats unfolded: on every other
log some co-signed auto-fold out of turn passes it. -/
theorem turn_agreed_iff (c : Primitives) (sk : c.PrivateKey) (l : Log) :
    (∀ (e : Entry) (pk : Bytes), l.verifyProposal c e pk = .ok () → l.OnTurn e) ∧
    ((∀ (e : Entry) (pks : UInt8 → Option Bytes),
        (∃ pk, l.verifyProposal c e pk = .ok ()) ∨ l.verifyAutoFoldEntry c e pks = .ok () → l.OnTurn e) ↔
      l.state.numNonFolded < 2) := by
  refine ⟨fun e pk h => onTurn_of_verifyProposal h, ?_, ?_⟩
  · intro hagree
    by_contra htwo
    obtain ⟨target, hne, hfold⟩ := exists_fold_out_of_turn (not_lt.mp htwo)
    have haccepted := autoFoldWith_accepted (hfold c fun _ => sk) rfl
    exact hne (hagree _ _ (.inr haccepted)).2
  · rintro hfew e pks (⟨pk, hprop⟩ | hauto)
    · exact onTurn_of_verifyProposal hprop
    · have htwo := (verifyAutoFoldEntry_ok_iff.mp hauto).1.two_unfolded
      omega

/-- The keys of seats that sign with `seatKey`. -/
def seatPublicKeys (s : UInt8) : Option Bytes := some (Primitives.transparent.publicKey (seatKey s))

/-- The auto-fold of a seat as the seats given co-sign it. -/
def Log.autoFoldBy (l : Log) (target : UInt8) (seats : List UInt8) : Entry :=
  l.autoFoldWith .transparent seatKey target seats

theorem autoFoldBy_accepted {l : Log} {target : UInt8} {seats : List UInt8}
    (h : Foldable l (l.autoFoldBy target seats)) (hseats : seats = l.expectedAutoFoldAttestors target) :
    l.verifyAutoFoldEntry .transparent (l.autoFoldBy target seats) seatPublicKeys = .ok () :=
  autoFoldWith_accepted h hseats

def checkedDown : Log := (newLog 2 100).play .transparent seatKey (List.replicate 8 ⟨.check, 0⟩)

theorem checkedDown_reachable : TurnReachable .transparent 2 100 checkedDown :=
  TurnReachable.play .new (by decide +kernel) (by decide)

instance (l : Log) (e : Entry) : Decidable (l.OnTurn e) := inferInstanceAs (Decidable (_ ∧ _))

/-- Seats 0 and 2 fold seat 1 when seat 0 is to act; after a showdown of two
seats one of them folds the other. -/
theorem folded_out_of_turn :
    (Reachable .transparent 3 100 (newLog 3 100) ∧
      (newLog 3 100).verifyAutoFoldEntry .transparent ((newLog 3 100).autoFoldBy 1 [0, 2]) seatPublicKeys =
        .ok () ∧ ¬ (newLog 3 100).OnTurn ((newLog 3 100).autoFoldBy 1 [0, 2])) ∧
    (Reachable .transparent 2 100 checkedDown ∧ checkedDown.state.handOver = true ∧
      checkedDown.verifyAutoFoldEntry .transparent (checkedDown.autoFoldBy 0 [1]) seatPublicKeys = .ok ()) :=
  ⟨⟨.new, autoFoldBy_accepted ⟨rfl, rfl, by decide, by decide, by decide⟩ (by decide), by decide +kernel⟩,
    checkedDown_reachable.reachable, by decide +kernel,
    autoFoldBy_accepted ⟨rfl, rfl, by decide, by decide +kernel, by decide +kernel⟩ (by decide +kernel)⟩

/-! ### A lone attacker -/

/-- What the seats sign during a hand, with the number of entries that the log
had then. -/
inductive Statement where
  | proposal (k : ℕ) (action : Action)
  | attestation (k : ℕ) (roundID : UInt64) (target : UInt8)
  | receipt (hash : Bytes) (roundID : UInt64)

def Statement.payload (l : Log) : Statement → Bytes
  | .proposal k action => (l.upTo k).proposalPayload action
  | .attestation k roundID target => (l.upTo k).autoFoldPayload roundID target
  | .receipt hash roundID => Log.receiptPayload hash roundID

theorem Entry.bytes_ne_nil (e : Entry) : e.bytes ≠ [] := by
  intro h
  have hlen := congrArg List.length h
  simp [Entry.bytes] at hlen

theorem Log.bytes_upTo (l : Log) (k : ℕ) :
    l.bytes = (l.upTo k).bytes ++ (l.entries.drop k).flatMap Entry.bytes := by
  unfold Log.bytes Log.upTo
  rw [← List.flatMap_append, List.take_append_drop]

theorem Log.bytes_upTo_length_le (l : Log) (k : ℕ) : (l.upTo k).bytes.length ≤ l.bytes.length := by
  rw [l.bytes_upTo k, List.length_append]
  omega

theorem Log.bytes_upTo_length_lt (l : Log) {k : ℕ} (h : k < l.entries.length) :
    (l.upTo k).bytes.length < l.bytes.length := by
  rw [l.bytes_upTo k, List.length_append, List.drop_eq_getElem_cons h, List.flatMap_cons, List.length_append]
  have hpos := List.length_pos_iff.mpr (Entry.bytes_ne_nil l.entries[k])
  omega

theorem receiptPayload_ne_autoFoldPayload (hash : Bytes) (r r' : UInt64) (l : Log) (target : UInt8) :
    Log.receiptPayload hash r ≠ l.autoFoldPayload r' target := by
  intro h
  have hl : Log.receiptPayload hash r = (hash ++ ascii "veri") ++ (ascii "fy" ++ be64 r) := by
    rw [Log.receiptPayload, show ascii "verify" = ascii "veri" ++ ascii "fy" by decide]
    simp only [List.append_assoc]
  have hr : l.autoFoldPayload r' target =
      (l.bytes ++ ascii "auto_fol") ++ (ascii "d" ++ (be64 r' ++ [target])) := by
    rw [Log.autoFoldPayload, Log.autoFoldTag, show ascii "auto_fold" = ascii "auto_fol" ++ ascii "d" by decide]
    simp only [List.append_assoc]
  rw [hl, hr] at h
  -- ten bytes from the end one has an f and the other a d
  have htail := (List.append_inj' h (by simp [ascii])).2
  exact absurd (List.cons.inj htail).1 (by decide)

/-- Only an attestation for this log, round and target is worth one. -/
theorem Statement.eq_of_payload {l : Log} {r : UInt64} {target : UInt8} {st : Statement}
    (h : st.payload l = l.autoFoldPayload r target) :
    ∃ k, l.entries.length ≤ k ∧ st = .attestation k r target := by
  cases st with
  | proposal k action =>
    have hlen := congrArg List.length h
    have hle := l.bytes_upTo_length_le k
    simp [Statement.payload, Log.proposalPayload, Log.autoFoldPayload, Log.autoFoldTag, ascii] at hlen
    omega
  | attestation k r' target' =>
    obtain ⟨hhead, htarget⟩ := List.append_inj' h rfl
    obtain ⟨hhead, hround⟩ := List.append_inj' hhead (by simp only [be64_length])
    have hbytes := congrArg List.length (List.append_inj' hhead rfl).1
    refine ⟨k, ?_, by rw [be64_injective hround, List.singleton_inj.mp htarget]⟩
    by_contra hlt
    have := l.bytes_upTo_length_lt (not_le.mp hlt)
    omega
  | receipt hash r' => exact absurd h (receiptPayload_ne_autoFoldPayload hash r' r l target)

section Attack
variable (c : Primitives) (key : UInt8 → c.PrivateKey) (made : UInt8 → Statement → Prop)

/-- A signature the attacker can come by: what verifies under another seat's key
was signed by that seat. -/
def Obtainable (l : Log) (attacker : UInt8) (sig : Bytes) : Prop :=
  ∀ s ≠ attacker, ∀ payload, c.verify (c.publicKey (key s)) payload sig = true →
    ∃ st, made s st ∧ st.payload l = payload

/-- An auto-fold of the target with co-signatures the attacker can come by. -/
def ForgedFold (l : Log) (attacker target : UInt8) (e : Entry) : Prop :=
  e.playerID = target ∧ ∀ sig ∈ e.coSignatures, Obtainable c key made l attacker sig

/-- The hand is on, every seat has a key of its own, and no seat but the attacker
has attested against the target in this round. -/
structure LoneAttack (l : Log) (attacker target : UInt8) : Prop where
  live : l.state.handOver = false
  attacker_lt : attacker.toNat < l.numPlayers.toNat
  target_lt : target.toNat < l.numPlayers.toNat
  ne : target ≠ attacker
  keys : ∀ s s', c.publicKey (key s) = c.publicKey (key s') → s = s'
  unattested : ∀ s ≠ attacker, ∀ k, l.entries.length ≤ k → ¬ made s (.attestation k l.roundID target)

variable {c key made} {l : Log} {attacker target : UInt8}

theorem obtainable_own (hc : c.Ideal) (h : LoneAttack c key made l attacker target) (payload : Bytes) :
    Obtainable c key made l attacker (c.sign (key attacker) payload) := by
  intro s hs payload' hver
  have hsig := hc.verify_eq hver
  exact absurd (h.keys _ _ (hc.sign_inj hsig).1).symm hs

/-- With nobody else left the attacker is the only one who is asked. -/
theorem attestors_eq_attacker {P : Log → Entry → Prop} {n : UInt8} {stack : UInt64}
    (hl : Grows c P n stack l) (h : LoneAttack c key made l attacker target)
    (halone : ∀ s : UInt8, s.toNat < l.numPlayers.toNat → s ≠ target →
      l.state.isFolded s.toNat = false → s = attacker) :
    l.expectedAutoFoldAttestors target = [attacker] := by
  have hn : 2 ≤ n.toNat := by
    have hne : attacker.toNat ≠ target.toNat := fun heq => h.ne (UInt8.toNat_inj.mp heq).symm
    have ha := h.attacker_lt
    have ht := h.target_lt
    rw [hl.numPlayers] at ha ht
    omega
  have hall : ∀ s ∈ l.expectedAutoFoldAttestors target, s = attacker := by
    intro s hs
    obtain ⟨hlt, hne, hf⟩ := mem_expectedAutoFoldAttestors.mp hs
    exact halone s hlt hne hf
  obtain ⟨q, hq, hqt, hqf⟩ := exists_unfolded_ne l.state.folded (hl.live hn h.live).1 target.toNat
  rw [l.state_shaped.folded] at hq
  have hval : (UInt8.ofNat q).toNat = q := by
    have := l.numPlayers.toNat_lt
    rw [toNat_ofNat_byte, Nat.mod_eq_of_lt (by omega)]
  have hmem : UInt8.ofNat q ∈ l.expectedAutoFoldAttestors target := by
    refine mem_expectedAutoFoldAttestors.mpr ⟨by rwa [hval], ?_, by rw [hval]; exact hqf⟩
    intro heq
    exact hqt (by rw [← heq, hval])
  rw [hall _ hmem] at hmem
  exact List.perm_singleton.mp ((List.perm_ext_iff_of_nodup (expectedAutoFoldAttestors_nodup l target)
    (List.nodup_singleton attacker)).mpr fun s =>
      ⟨fun hs => List.mem_singleton.mpr (hall s hs), fun hs => List.mem_singleton.mp hs ▸ hmem⟩)

end Attack

/-- A lone attacker fails exactly when the target is folded already or somebody
else is still in who would have to co-sign. -/
theorem lone_forgery_rejected_iff (c : Primitives) (hc : c.Ideal) (n : UInt8) (stack : UInt64) (l : Log)
    (hl : Reachable c n stack l) (key : UInt8 → c.PrivateKey) (made : UInt8 → Statement → Prop)
    (attacker target : UInt8) (h : LoneAttack c key made l attacker target) :
    (∀ e, ForgedFold c key made l attacker target e →
      l.verifyAutoFoldEntry c e (fun s => some (c.publicKey (key s))) ≠ .ok ()) ↔
      l.state.isFolded target.toNat = true ∨ ∃ s : UInt8, s.toNat < n.toNat ∧ s ≠ target ∧ s ≠ attacker ∧
        l.state.isFolded s.toNat = false := by
  rw [← hl.numPlayers]
  constructor
  · intro hrej
    by_contra hcond
    push Not at hcond
    obtain ⟨htarget, halone⟩ := hcond
    have hatt := attestors_eq_attacker hl h fun s hlt hne hf => by
      by_contra hs
      exact halone s hlt hne hs hf
    -- the attacker's own signature completes the entry
    let e : Entry :=
      { roundID := l.roundID, playerID := target, action := ⟨.fold, 0⟩, coSigners := [attacker],
        coSignatures := [l.buildAutoFoldAttestation c l.roundID target (key attacker)] }
    refine hrej e ⟨rfl, ?_⟩ (verifyAutoFoldEntry_ok_iff.mpr ⟨⟨rfl, rfl, ?_, ?_, ?_⟩, hatt.symm, rfl, ?_⟩)
    · intro sig hsig
      rw [List.mem_singleton.mp hsig]
      exact obtainable_own hc h _
    · exact UInt8.lt_iff_toNat_lt.mpr h.target_lt
    · simpa using htarget
    · simp [e, hatt]
    · intro x hx
      rw [List.mem_singleton.mp hx]
      exact ⟨_, rfl, c.publicKey_length _, c.verify_of_sign _ _⟩
  · rintro hcond e ⟨rfl, hobt⟩ hok
    obtain ⟨hfold, hco⟩ := verifyAutoFoldEntry_ok_iff.mp hok
    obtain ⟨s, hlt, hst, hsa, hsf⟩ := hcond.resolve_left (by simp [hfold.unfolded])
    obtain ⟨sig, hsig, pk, hpk, _, hver⟩ :=
      hco.exists_coSignature (mem_expectedAutoFoldAttestors.mpr ⟨hlt, hst, hsf⟩)
    obtain rfl := Option.some.inj hpk
    rw [hfold.round] at hver
    obtain ⟨st, hmade, hpay⟩ := hobt sig hsig s hsa _ hver
    obtain ⟨k, hk, rfl⟩ := Statement.eq_of_payload hpay
    exact h.unattested s hsa k hk hmade

theorem seatKey_loneAttack {n target attacker : UInt8} (hon : (newLog n 100).state.handOver = false)
    (ha : attacker.toNat < n.toNat) (ht : target.toNat < n.toNat) (hne : target ≠ attacker) :
    LoneAttack .transparent seatKey (fun _ _ => False) (newLog n 100) attacker target where
  live := hon
  attacker_lt := ha
  target_lt := ht
  ne := hne
  keys _ _ heq := (List.cons.inj heq).1
  unattested _ _ _ _ hmade := hmade

theorem autoFoldBy_forged {n target attacker : UInt8}
    (h : LoneAttack .transparent seatKey (fun _ _ => False) (newLog n 100) attacker target) :
    ForgedFold .transparent seatKey (fun _ _ => False) (newLog n 100) attacker target
      ((newLog n 100).autoFoldBy target [attacker]) := by
  refine ⟨rfl, fun sig hsig => ?_⟩
  rw [List.mem_singleton.mp hsig]
  exact obtainable_own Primitives.transparent_ideal h _

theorem lone_forgery_rejected_three_seats :
    (newLog 3 100).verifyAutoFoldEntry .transparent ((newLog 3 100).autoFoldBy 0 [1])
      (fun s => some (Primitives.transparent.publicKey (seatKey s))) ≠ .ok () :=
  have hlone := seatKey_loneAttack rfl (by decide) (by decide) (by decide)
  (lone_forgery_rejected_iff .transparent Primitives.transparent_ideal 3 100 (newLog 3 100) .new seatKey _ 1 0
    hlone).mpr (Or.inr ⟨2, by decide, by decide, by decide, by decide⟩) _ (autoFoldBy_forged hlone)

/-- Heads up, seat 1 folds seat 0 with its own signature alone. -/
theorem heads_up_fold_forged :
    ¬ ∀ (c : Primitives), c.Ideal → ∀ (n : UInt8) (stack : UInt64) (l : Log), Reachable c n stack l →
      ∀ (key : UInt8 → c.PrivateKey) (made : UInt8 → Statement → Prop) (attacker target : UInt8),
        LoneAttack c key made l attacker target → ∀ e, ForgedFold c key made l attacker target e →
          l.verifyAutoFoldEntry c e (fun s => some (c.publicKey (key s))) ≠ .ok () := by
  intro h
  have hlone : LoneAttack .transparent seatKey (fun _ _ => False) (newLog 2 100) 1 0 :=
    seatKey_loneAttack rfl (by decide) (by decide) (by decide)
  exact h .transparent Primitives.transparent_ideal 2 100 (newLog 2 100) .new seatKey _ 1 0 hlone
    ((newLog 2 100).autoFoldBy 0 [1]) (autoFoldBy_forged hlone)
    (autoFoldBy_accepted ⟨rfl, rfl, by decide, by decide, by decide⟩ (by decide))

end P2Poker.Game
