import P2Poker.Round.Moves
import P2Poker.Game.Rotation

/-!
# The chain of committed entries

The invariant behind the agreement of replicas: all committed logs are cut from
one chain, every node of an attempt works on the proposal made in it, and what a
node hosts tells how far it has come.
-/

namespace P2Poker.Round
open P2Poker.Lib P2Poker.Crypto P2Poker.Game P2Poker.Ephemeral

section Agreement
variable {c : Primitives} (t : Table c)

/-- No two nodes hold different committed entries at the same index. -/
def Agreement (net : Net) : Prop :=
  ∀ (s s' i : ℕ) (e e' : Entry), s < t.size → s' < t.size → (net s).committed[i]? = some e →
    (net s').committed[i]? = some e' → e = e'

def Table.logAt (es : List Entry) : Log := ⟨es, t.numPlayers, t.startingStack⟩

def Table.proposer (es : List Entry) : UInt8 := (t.logAt es).expectedNextPlayer

/-- The unfolded verifiers of the round after `es`, whose attestations fold the proposer. -/
def Table.Attestor (es : List Entry) (q : ℕ) : Prop :=
  q < t.size ∧ q ≠ (t.proposer es).toNat ∧ (t.logAt es).state.isFolded q = false

instance (es : List Entry) (q : ℕ) : Decidable (t.Attestor es q) :=
  inferInstanceAs (Decidable (_ ∧ _ ∧ _))

/-- A verifier other than `except` has not timed out in attempt `a` of round `k`. -/
def Table.Remains (net : Net) (es : List Entry) (k : UInt64) (a : UInt32) (except : Option ℕ) : Prop :=
  ∃ q < t.size, t.Attestor es q ∧ (net q).timedOut k a = false ∧ except ≠ some q

/-- Before a node commits an attempt, some unfolded verifier has not timed out in
it; and once an attempt is committed, a deadline in it leaves another one. -/
def VerifierRemains (net : Net) (s : ℕ) (i : Input) : Prop :=
  match i, (net s).phase with
  | .collected, .inRound k _ a _ => t.Remains net (net s).committed k a none
  | .deadline, .inRound k _ a _ =>
    (∃ q < t.size, (net q).didCommit k a = true) → t.Remains net (net s).committed k a (some s)
  | .receiptFailed _, .inRound k _ a _ =>
    (∃ q < t.size, (net q).didCommit k a = true) → t.Remains net (net s).committed k a (some s)
  | _, _ => True

instance (net : Net) (es : List Entry) (k : UInt64) (a : UInt32) (x : Option ℕ) :
    Decidable (t.Remains net es k a x) := by
  unfold Table.Remains
  infer_instance

instance (net : Net) (s : ℕ) (i : Input) : Decidable (VerifierRemains t net s i) := by
  delta VerifierRemains
  induction i using Input.casesOn <;> induction (net s).phase using Phase.casesOn <;> infer_instance

/-! ### The invariant -/

/- The invariant speaks of the chain `G` of all committed entries and of the
proposal made in each attempt. -/

def Table.maxAttempts : UInt32 := (t.setup 0).maxAttempts

def Table.attestation (es : List Entry) (k : UInt64) (q : ℕ) : Bytes :=
  (t.logAt es).buildAutoFoldAttestation c k (t.proposer es) (t.secretKey q)

/-- The one auto-fold entry of the round after `es`. -/
def Table.foldEntry (es : List Entry) (k : UInt64) : Entry :=
  Runner.autoFoldEntry k (t.proposer es)
    (((t.logAt es).expectedAutoFoldAttestors (t.proposer es)).map fun q =>
      (q, t.attestation es k q.toNat))

/- The node went through attempts `0, …, a - 1` of round `k` without a commit. -/
def OutBelow (r : Runner) (k : UInt64) (a : UInt32) : Prop := ∀ b < a, r.timedOut k b = true

variable (net : Net) (G : List Entry) (prop : UInt64 → UInt32 → Option Entry)

/-- The log is the chain of the rounds played, with the proposal of the attempt
behind it when it is appended. -/
def LogInv (r : Runner) (k : UInt64) (a : UInt32) (extended : Bool) : Prop :=
  if extended then ∃ e, r.log.entries = G.take r.rounds ++ [e] ∧ prop k a = some e
  else r.log.entries = G.take r.rounds

def StageInv (s : ℕ) (k : UInt64) (p : UInt8) (a : UInt32) : Stage → Prop
  | .choosing => p.toNat = s
  | .hosted e => prop k a = some e
  | .fetched data => ∃ e, data = t.entryCodec.encode e ∧ prop k a = some e
  | .collecting got => ∀ q ∈ got, OutBelow (net q) k a
  | .returned none => (net s).rounds < G.length ∧ (net s).log.entries = G.take ((net s).rounds + 1)
  | .cleaned none => (net s).rounds < G.length ∧ (net s).log.entries = G.take ((net s).rounds + 1)
  | .gathering cosigs =>
    cosigs.map Prod.fst =
        (t.logAt (G.take (net s).rounds)).expectedAutoFoldAttestors p ∧
      ∀ q sig, (q, some sig) ∈ cosigs →
        sig = t.attestation (G.take (net s).rounds) k q.toNat ∧ OutBelow (net q.toNat) k t.maxAttempts
  | _ => True

def PhaseInv (s : ℕ) : Phase → Prop
  | .inRound k p a st =>
    k.toNat = (net s).rounds ∧ p = t.proposer (G.take (net s).rounds) ∧ OutBelow (net s) k a ∧
      (if st.folding then a = t.maxAttempts else a < t.maxAttempts) ∧
      LogInv G prop (net s) k a st.extended ∧ StageInv t net G prop s k p a st
  | _ => (net s).log.entries = G.take (net s).rounds

/-- What a hosted file says. -/
def HostInv (s : ℕ) (v : Bytes) : KeyName → Prop
  | .proposal k a => ∃ e, v = t.entryCodec.encode e ∧ prop k a = some e
  | .verify k a _ => OutBelow (net s) k a
  | .autoFold k _ =>
    k.toNat ≤ G.length ∧ v = t.attestation (G.take k.toNat) k s ∧ OutBelow (net s) k t.maxAttempts
  | _ => True

structure NodeInv (s : ℕ) : Prop where
  numPlayers : (net s).log.numPlayers = t.numPlayers
  startingStack : (net s).log.startingStack = t.startingStack
  rounds_le : (net s).rounds ≤ G.length
  phase : PhaseInv t net G prop s (net s).phase
  store : ∀ x v, (net s).store.get (KeyName.key x) = some v → HostInv t net G prop s v x

/-- The node is past the choice of its proposal in attempt `a` of round `k`. -/
def Passed (r : Runner) (k : UInt64) (a : UInt32) : Prop :=
  k.toNat < r.rounds ∨ r.phase = .failed ∨
    ∃ p b st, r.phase = .inRound k p b st ∧ (a < b ∨ a = b ∧ st ≠ .choosing)

structure PropInv (k : UInt64) (a : UInt32) (e : Entry) : Prop where
  round_le : k.toNat ≤ G.length
  verified : ∃ pk, (t.logAt (G.take k.toNat)).verifyProposal c e pk = .ok ()
  passed : Passed (net (t.proposer (G.take k.toNat)).toNat) k a

/-- How the entry of round `k` came about: by an attempt in which a verifier
remains, or by the auto-fold after all attempts. -/
def Decided (k : UInt64) (e : Entry) : Prop :=
  (∃ a < t.maxAttempts, prop k a = some e ∧ t.Remains net (G.take k.toNat) k a none ∧
      (∀ q, t.Attestor (G.take k.toNat) q → OutBelow (net q) k a) ∧
      ∃ q < t.size, (net q).didCommit k a = true) ∨
    (e = t.foldEntry (G.take k.toNat) k ∧
      ∀ q, t.Attestor (G.take k.toNat) q → OutBelow (net q) k t.maxAttempts)

structure Inv : Prop where
  node : ∀ s < t.size, NodeInv t net G prop s
  proposed : ∀ k a e, prop k a = some e → PropInv t net G k a e
  decided : ∀ (k : UInt64) e, G[k.toNat]? = some e → Decided t net G prop k e

/-! ### The invariant is kept by the steps of other nodes -/

variable {t net G prop}
variable {net' : Net} {G' : List Entry} {prop' : UInt64 → UInt32 → Option Entry}

/-- The chain and the proposals grow, and no timeout is forgotten. -/
structure Later (net net' : Net) (G G' : List Entry)
    (prop prop' : UInt64 → UInt32 → Option Entry) : Prop where
  chain : G <+: G'
  proposals : ∀ k a e, prop k a = some e → prop' k a = some e
  out : ∀ q k a, (net q).timedOut k a = true → (net' q).timedOut k a = true

theorem Later.take {m : ℕ} (h : Later net net' G G' prop prop') (hm : m ≤ G.length) :
    G'.take m = G.take m := by
  obtain ⟨rest, rfl⟩ := h.chain
  rw [List.take_append_of_le_length hm]

theorem Later.outBelow {q : ℕ} {k : UInt64} {a : UInt32} (h : Later net net' G G' prop prop')
    (ho : OutBelow (net q) k a) : OutBelow (net' q) k a :=
  fun b hb => h.out q k b (ho b hb)

theorem HostInv.later {s : ℕ} {v : Bytes} {x : KeyName} (h : Later net net' G G' prop prop')
    (hx : HostInv t net G prop s v x) : HostInv t net' G' prop' s v x := by
  cases x with
  | proposal k a =>
    obtain ⟨e, hv, he⟩ := hx
    exact ⟨e, hv, h.proposals k a e he⟩
  | verify k a id => exact h.outBelow hx
  | autoFold k id =>
    obtain ⟨hk, hv, ho⟩ := hx
    refine ⟨hk.trans h.chain.length_le, ?_, h.outBelow ho⟩
    rw [h.take hk]
    exact hv
  | _ => trivial

theorem LogInv.later {r : Runner} {k : UInt64} {a : UInt32} {b : Bool}
    (h : Later net net' G G' prop prop') (hr : r.rounds ≤ G.length) (hi : LogInv G prop r k a b) :
    LogInv G' prop' r k a b := by
  unfold LogInv at hi ⊢
  rw [h.take hr]
  cases b with
  | false => exact hi
  | true =>
    obtain ⟨e, hlog, he⟩ := hi
    exact ⟨e, hlog, h.proposals k a e he⟩

theorem StageInv.later {s : ℕ} {k : UInt64} {p : UInt8} {a : UInt32} {st : Stage}
    (h : Later net net' G G' prop prop') (hlog : (net' s).log = (net s).log)
    (hrounds : (net' s).rounds = (net s).rounds) (hr : (net s).rounds ≤ G.length)
    (hi : StageInv t net G prop s k p a st) : StageInv t net' G' prop' s k p a st := by
  have hcommit : ((net s).rounds < G.length ∧ (net s).log.entries = G.take ((net s).rounds + 1)) →
      (net' s).rounds < G'.length ∧ (net' s).log.entries = G'.take ((net' s).rounds + 1) := by
    rintro ⟨hlt, he⟩
    rw [hlog, hrounds, h.take hlt]
    exact ⟨hlt.trans_le h.chain.length_le, he⟩
  cases st with
  | hosted e => exact h.proposals k a e hi
  | fetched data =>
    obtain ⟨e, hd, he⟩ := hi
    exact ⟨e, hd, h.proposals k a e he⟩
  | collecting got => exact fun q hq => h.outBelow (hi q hq)
  | returned o =>
    cases o with
    | none => exact hcommit hi
    | some reason => trivial
  | cleaned o =>
    cases o with
    | none => exact hcommit hi
    | some reason => trivial
  | gathering cosigs =>
    obtain ⟨hseats, hsigs⟩ := hi
    simp only [StageInv, hrounds, h.take hr]
    exact ⟨hseats, fun q sig hq => ⟨(hsigs q sig hq).1, h.outBelow (hsigs q sig hq).2⟩⟩
  | choosing => exact hi
  | _ => trivial

/-- A step that leaves a node's log, rounds, phase and store alone keeps its invariant. -/
theorem NodeInv.later {s : ℕ} (h : Later net net' G G' prop prop')
    (hlog : (net' s).log = (net s).log) (hrounds : (net' s).rounds = (net s).rounds)
    (hphase : (net' s).phase = (net s).phase) (hstore : (net' s).store = (net s).store)
    (hi : NodeInv t net G prop s) : NodeInv t net' G' prop' s := by
  have hr := hi.rounds_le
  refine ⟨hlog ▸ hi.numPlayers, hlog ▸ hi.startingStack, ?_, ?_, ?_⟩
  · rw [hrounds]
    exact hr.trans h.chain.length_le
  · have hp := hi.phase
    rw [hphase]
    cases hph : (net s).phase with
    | inRound k p a st =>
      rw [hph] at hp
      obtain ⟨hk, hpr, ho, ha, hl, hst⟩ := hp
      refine ⟨hrounds ▸ hk, ?_, h.outBelow ho, ha, ?_, hst.later h hlog hrounds hr⟩
      · rw [hrounds, h.take hr]
        exact hpr
      · have hl' := hl.later h hr
        unfold LogInv at hl' ⊢
        rwa [hlog, hrounds]
    | idle =>
      rw [hph] at hp
      simp only [PhaseInv, hlog, hrounds, h.take hr]
      exact hp
    | failed =>
      rw [hph] at hp
      simp only [PhaseInv, hlog, hrounds, h.take hr]
      exact hp
  · intro x v hx
    rw [hstore] at hx
    exact (hi.store x v hx).later h

/-! ### The node that takes the step -/

section Moving
variable {s : ℕ} {i : Input} {r : Runner} {k : UInt64} {p : UInt8} {a : UInt32} {st st' : Stage}

theorem Later.of_move (hm : Runner.Move (t.setup s) (net s) i r) (hG : G <+: G')
    (hp : ∀ k a e, prop k a = some e → prop' k a = some e) :
    Later net (Function.update net s r) G G' prop prop' := by
  refine ⟨hG, hp, ?_⟩
  intro q k a hq
  by_cases hqs : q = s
  · subst hqs
    rw [Function.update_self]
    exact hm.timedOut_mono hq
  · rwa [Function.update_of_ne hqs]

theorem Later.refl_move (hm : Runner.Move (t.setup s) (net s) i r) :
    Later net (Function.update net s r) G G prop prop :=
  .of_move hm (List.prefix_refl G) fun _ _ _ h => h

/-- Files that were there before keep their meaning. -/
theorem NodeInv.store_later (hi : NodeInv t net G prop s)
    (hl : Later net (Function.update net s r) G G' prop prop')
    (hsub : ∀ x v, r.store.get (KeyName.key x) = some v → (net s).store.get (KeyName.key x) = some v)
    (x : KeyName) (v : Bytes) (hx : r.store.get x.key = some v) :
    HostInv t (Function.update net s r) G' prop' s v x :=
  (hi.store x v (hsub x v hx)).later hl

/- A move inside an attempt that leaves the rounds and the attempt as they are. -/
variable (st') in
theorem NodeInv.restage (hi : NodeInv t net G prop s)
    (hl : Later net (Function.update net s r) G G' prop prop')
    (hphase : (net s).phase = .inRound k p a st) (hphase' : r.phase = .inRound k p a st')
    (hfold : st'.folding = st.folding) (hnum : r.log.numPlayers = (net s).log.numPlayers)
    (hstack : r.log.startingStack = (net s).log.startingStack) (hrounds : r.rounds = (net s).rounds)
    (hlog : LogInv G' prop' r k a st'.extended)
    (hstage : StageInv t (Function.update net s r) G' prop' s k p a st')
    (hstore : ∀ x v, r.store.get (KeyName.key x) = some v →
      HostInv t (Function.update net s r) G' prop' s v x) :
    NodeInv t (Function.update net s r) G' prop' s := by
  have hr := hi.rounds_le
  have hp := hi.phase
  rw [hphase] at hp
  obtain ⟨hk, hpr, ho, ha, _, _⟩ := hp
  have hself : Function.update net s r s = r := Function.update_self ..
  refine ⟨?_, ?_, ?_, ?_, ?_⟩
  · rw [hself, hnum]
    exact hi.numPlayers
  · rw [hself, hstack]
    exact hi.startingStack
  · rw [hself, hrounds]
    exact hr.trans hl.chain.length_le
  · rw [hself, hphase']
    refine ⟨?_, ?_, hl.outBelow ho, ?_, ?_, hstage⟩
    · rw [hself, hrounds]
      exact hk
    · rw [hself, hrounds, hl.take hr]
      exact hpr
    · rw [hfold]
      exact ha
    · rw [hself]
      exact hlog
  · intro x v hx
    rw [hself] at hx
    exact hstore x v hx

/-- What the invariant says of a node inside an attempt. -/
theorem NodeInv.inRound (hi : NodeInv t net G prop s) (hphase : (net s).phase = .inRound k p a st) :
    k.toNat = (net s).rounds ∧ p = t.proposer (G.take (net s).rounds) ∧ OutBelow (net s) k a ∧
      (if st.folding then a = t.maxAttempts else a < t.maxAttempts) ∧
      LogInv G prop (net s) k a st.extended ∧ StageInv t net G prop s k p a st := by
  have hp := hi.phase
  rwa [hphase] at hp

theorem NodeInv.log_eq (hi : NodeInv t net G prop s) : (net s).log = t.logAt (net s).log.entries := by
  have h1 := hi.numPlayers
  have h2 := hi.startingStack
  cases hlog : (net s).log
  rw [hlog] at h1 h2
  simp only at h1 h2
  rw [h1, h2]
  rfl

/-- Between appending and rolling back, the log is the chain so far. -/
theorem NodeInv.log_base (hi : NodeInv t net G prop s) (hphase : (net s).phase = .inRound k p a st)
    (hst : st.extended = false) : (net s).log = t.logAt (G.take (net s).rounds) := by
  obtain ⟨_, _, _, _, hlog, _⟩ := hi.inRound hphase
  unfold LogInv at hlog
  simp only [hst, Bool.false_eq_true, if_false] at hlog
  rw [hi.log_eq, hlog]

theorem NodeInv.committed_eq (hi : NodeInv t net G prop s) :
    (net s).committed = G.take (net s).rounds := by
  have hr := hi.rounds_le
  have hp := hi.phase
  unfold Runner.committed
  have hclean : (net s).log.entries = G.take (net s).rounds →
      (net s).log.entries.take (net s).rounds = G.take (net s).rounds := by
    intro h
    rw [h, List.take_take, Nat.min_self]
  cases hphase : (net s).phase with
  | inRound k p a st =>
    rw [hphase] at hp
    obtain ⟨_, _, _, _, hlog, _⟩ := hp
    unfold LogInv at hlog
    split_ifs at hlog
    · obtain ⟨e, hlog, _⟩ := hlog
      rw [hlog, List.take_left' (by rw [List.length_take, Nat.min_eq_left hr])]
    · exact hclean hlog
  | idle =>
    rw [hphase] at hp
    exact hclean hp
  | failed =>
    rw [hphase] at hp
    exact hclean hp

theorem maxAttempts_succ {b : UInt32} (h : b < t.maxAttempts) : (b + 1).toNat = b.toNat + 1 := by
  have h1 := UInt32.lt_iff_toNat_lt.mp h
  have h2 := t.maxAttempts.toNat_lt
  rw [UInt32.toNat_add, UInt32.toNat_one, Nat.mod_eq_of_lt (by omega)]

theorem Passed.move (hi : NodeInv t net G prop s) (hm : Runner.Move (t.setup s) (net s) i r)
    (h : Passed (net s) k a) : Passed r k a := by
  rcases h with hlt | hfail | ⟨p, b, st, hphase, hpos⟩
  · exact Or.inl (hlt.trans_le hm.rounds_le)
  · right
    left
    cases hm <;> simp_all
  · obtain ⟨hk, _, _, hb, _, _⟩ := hi.inRound hphase
    rcases hm.within hphase with ⟨st', hph, hst⟩ | ⟨st', reason, hph, rfl⟩ | ⟨_, hr⟩ | hfail
    · refine Or.inr (Or.inr ⟨p, b, st', hph, ?_⟩)
      exact hpos.imp_right fun h => ⟨h.1, fun hc => h.2 (hst hc)⟩
    · refine Or.inr (Or.inr ⟨p, b + 1, st', hph, Or.inl ?_⟩)
      have hsucc := maxAttempts_succ (t := t) hb
      rw [UInt32.lt_iff_toNat_lt, hsucc]
      rcases hpos with hab | ⟨rfl, _⟩
      · have := UInt32.lt_iff_toNat_lt.mp hab
        omega
      · omega
    · exact Or.inl (by omega)
    · exact Or.inr (Or.inl hfail)

/-! ### Putting the invariant together again -/

theorem PropInv.later {e : Entry} (hi : Inv t net G prop) (hs : s < t.size)
    (hm : Runner.Move (t.setup s) (net s) i r)
    (hl : Later net (Function.update net s r) G G' prop prop') (h : PropInv t net G k a e) :
    PropInv t (Function.update net s r) G' k a e := by
  obtain ⟨hk, hv, hp⟩ := h
  refine ⟨hk.trans hl.chain.length_le, ?_, ?_⟩
  · rwa [hl.take hk]
  · rw [hl.take hk]
    by_cases hq : (t.proposer (G.take k.toNat)).toNat = s
    · rw [hq] at hp ⊢
      rw [Function.update_self]
      exact hp.move (hi.node s hs) hm
    · rwa [Function.update_of_ne hq]

theorem Remains.quiet {es : List Entry} {x : Option ℕ}
    (hquiet : r.timedOut k a = true → (net s).timedOut k a = true)
    (h : t.Remains net es k a x) : t.Remains (Function.update net s r) es k a x := by
  obtain ⟨q, hq, hatt, hout, hx⟩ := h
  refine ⟨q, hq, hatt, ?_, hx⟩
  by_cases hqs : q = s
  · subst hqs
    rw [Function.update_self]
    by_contra hc
    rw [hquiet (by simpa using hc)] at hout
    cases hout
  · rwa [Function.update_of_ne hqs]

theorem didCommit_update (hm : Runner.Move (t.setup s) (net s) i r) {q : ℕ}
    (h : (net q).didCommit k a = true) : (Function.update net s r q).didCommit k a = true := by
  by_cases hqs : q = s
  · subst hqs
    rw [Function.update_self]
    exact hm.didCommit_mono h
  · rwa [Function.update_of_ne hqs]

/-- The invariant after a step, from what the step can change. -/
theorem Inv.of_move (hi : Inv t net G prop) (hs : s < t.size)
    (hm : Runner.Move (t.setup s) (net s) i r)
    (hl : Later net (Function.update net s r) G G' prop prop')
    (hnode : NodeInv t (Function.update net s r) G' prop' s)
    (hnew : ∀ k a e, prop' k a = some e →
      prop k a = some e ∨ PropInv t (Function.update net s r) G' k a e)
    (hrem : ∀ k a, (∃ q < t.size, (net q).didCommit k a = true) → k.toNat < G.length →
      t.Remains net (G.take k.toNat) k a none →
      t.Remains (Function.update net s r) (G.take k.toNat) k a none)
    (hdec : ∀ (k : UInt64) e, G'[k.toNat]? = some e → G.length ≤ k.toNat →
      Decided t (Function.update net s r) G' prop' k e) :
    Inv t (Function.update net s r) G' prop' := by
  refine ⟨?_, ?_, ?_⟩
  · intro q hq
    by_cases hqs : q = s
    · rw [hqs]
      exact hnode
    · have hsame : Function.update net s r q = net q := Function.update_of_ne hqs ..
      exact (hi.node q hq).later hl (by rw [hsame]) (by rw [hsame]) (by rw [hsame]) (by rw [hsame])
  · intro k a e he
    rcases hnew k a e he with hold | hinv
    · exact (hi.proposed k a e hold).later hi hs hm hl
    · exact hinv
  · intro k e he
    rcases Nat.lt_or_ge k.toNat G.length with hlt | hge
    · obtain ⟨rest, rfl⟩ := hl.chain
      rw [List.getElem?_append_left hlt] at he
      have htake : (G ++ rest).take k.toNat = G.take k.toNat := hl.take hlt.le
      rcases hi.decided k e he with ⟨a, ha, hp, hrm, hout, q, hq, hc⟩ | ⟨hfold, hout⟩
      · refine Or.inl ⟨a, ha, hl.proposals k a e hp, ?_, ?_, q, hq, didCommit_update hm hc⟩
        · rw [htake]
          exact hrem k a ⟨q, hq, hc⟩ hlt hrm
        · rw [htake]
          exact fun q' hq' => hl.outBelow (hout q' hq')
      · refine Or.inr ⟨?_, ?_⟩
        · rw [htake]
          exact hfold
        · rw [htake]
          exact fun q' hq' => hl.outBelow (hout q' hq')
    · exact hdec k e he hge

/-- The same for a step without a timeout, a proposal or a commit. -/
theorem Inv.of_quiet_move (hi : Inv t net G prop) (hs : s < t.size)
    (hm : Runner.Move (t.setup s) (net s) i r)
    (hquiet : ∀ k a, r.timedOut k a = true → (net s).timedOut k a = true)
    (hnode : NodeInv t (Function.update net s r) G prop s) :
    Inv t (Function.update net s r) G prop := by
  refine hi.of_move hs hm (.refl_move hm) hnode (fun _ _ _ h => Or.inl h) ?_ ?_
  · exact fun k a _ _ h => Remains.quiet (hquiet k a) h
  · intro k e he hge
    rw [List.getElem?_eq_none hge] at he
    cases he

end Moving

end Agreement

end P2Poker.Round
