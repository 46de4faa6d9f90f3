import P2Poker.Game.AutoFold
import P2Poker.Round.Chain

/-!
# Agreement between replicas

Each node commits or rolls an attempt back on its own deadline, and the auto-fold
of a stalled proposer needs no word from the proposer. When every unfolded
verifier times out in an attempt that the proposer or a folded seat commits,
the verifiers fold the proposer while that node keeps the action. As long as
one of them stays in every attempt that is committed, all committed logs agree.
-/

namespace P2Poker.Round
open P2Poker.Lib P2Poker.Crypto P2Poker.Game P2Poker.Ephemeral

section Steps
variable {c : Primitives} {t : Table c} {net : Net} {G : List Entry}
variable {prop : UInt64 → UInt32 → Option Entry} {s : ℕ} {i : Input} {r : Runner}
variable {k : UInt64} {p : UInt8} {a : UInt32} {st : Stage}

/-- Proposals of this table always decode, so only a deadline ends an attempt. -/
theorem NodeInv.quiet (hi : NodeInv t net G prop s) (hm : Runner.Move (t.setup s) (net s) i r)
    (hd : i ≠ .deadline) (hf : ∀ seat, i ≠ .receiptFailed seat) (k : UInt64) (a : UInt32)
    (h : r.timedOut k a = true) : (net s).timedOut k a = true := by
  rcases hm.timedOut_new h with hold | ⟨p, st, hphase, hdl | ⟨seat, hrf⟩ | ⟨data, rfl, hdec⟩⟩
  · exact hold
  · exact absurd hdl hd
  · exact absurd hrf (hf seat)
  · obtain ⟨_, _, _, _, _, e, rfl, _⟩ := hi.inRound hphase
    rw [show (t.setup s).entryCodec = t.entryCodec from rfl, t.entryCodec.decode_encode] at hdec
    cases hdec

/- The first stage of an attempt. -/
variable (prop k a) in
theorem startStage_inv (hlog : (net s).log = t.logAt (G.take (net s).rounds))
    (hp : p = t.proposer (G.take (net s).rounds)) :
    ((net s).startStage (t.setup s)).folding = false ∧
      ((net s).startStage (t.setup s)).extended = false ∧
      ∀ net', StageInv t net' G prop s k p a ((net s).startStage (t.setup s)) := by
  unfold Runner.startStage
  split_ifs with h
  · refine ⟨rfl, rfl, fun _ => ?_⟩
    unfold Runner.isProposer at h
    rw [beq_iff_eq, hlog] at h
    rw [hp]
    exact h
  · exact ⟨rfl, rfl, fun _ => trivial⟩

theorem NodeInv.beginRound (hi : NodeInv t net G prop s)
    (hm : Runner.Move (t.setup s) (net s) .beginRound r) :
    NodeInv t (Function.update net s r) G prop s := by
  have hl : Later net (Function.update net s r) G G prop prop := .refl_move hm
  have hr := hi.rounds_le
  cases hm with
  | beginRound hphase hover hlen =>
    have hp := hi.phase
    rw [hphase] at hp
    have hlog : (net s).log = t.logAt (G.take (net s).rounds) := by rw [hi.log_eq, hp]
    have hlength : (net s).log.entries.length = (net s).rounds := by
      rw [hp, List.length_take, Nat.min_eq_left hr]
    have hprop : (net s).log.expectedNextPlayer = t.proposer (G.take (net s).rounds) := by
      rw [hlog]
      rfl
    obtain ⟨hfold, hext, hst⟩ := startStage_inv prop (net s).log.roundID 0 hlog hprop
    refine ⟨?_, ?_, ?_, ?_, ?_⟩
    · rw [Function.update_self]
      exact hi.numPlayers
    · rw [Function.update_self]
      exact hi.startingStack
    · rw [Function.update_self]
      exact hr
    · rw [Function.update_self]
      refine ⟨?_, ?_, ?_, ?_, ?_, hst _⟩
      · rw [Function.update_self, roundID_toNat (by omega), hlength]
      · rw [Function.update_self]
        exact hprop
      · intro b hb
        exact absurd (UInt32.lt_iff_toNat_lt.mp hb) (Nat.not_lt_zero _)
      · rw [hfold]
        show 0 < t.maxAttempts
        unfold Table.maxAttempts Setup.maxAttempts
        split_ifs with hz
        · decide
        · exact UInt32.pos_iff_ne_zero.mpr hz
      · rw [hext, Function.update_self]
        exact hp
    · intro x v hx
      rw [Function.update_self] at hx
      exact (hi.store x v hx).later hl

/-- The proposer has made no proposal in this attempt yet. -/
theorem Inv.not_proposed (hi : Inv t net G prop) (hs : s < t.size)
    (hphase : (net s).phase = .inRound k p a .choosing) : prop k a = none := by
  obtain ⟨hk, hp, _, _, _, hps⟩ := (hi.node s hs).inRound hphase
  cases hprop : prop k a with
  | none => rfl
  | some e =>
    have hpassed := (hi.proposed k a e hprop).passed
    rw [hk, ← hp, show p.toNat = s from hps] at hpassed
    rcases hpassed with hlt | hfail | ⟨p', b, st, hph, hpos⟩
    · omega
    · rw [hphase] at hfail
      cases hfail
    · rw [hphase] at hph
      obtain ⟨_, _, rfl, rfl⟩ := Phase.inRound.inj hph
      rcases hpos with hlt | ⟨_, hst⟩
      · exact absurd hlt (UInt32.lt_irrefl _)
      · exact absurd rfl hst

theorem Inv.propose (hi : Inv t net G prop) (hs : s < t.size)
    (hm : Runner.Move (t.setup s) (net s) .propose r) :
    ∃ prop', Inv t (Function.update net s r) G prop' := by
  have hnode := hi.node s hs
  have hcopy := hm
  cases hm with
  | reject hphase hev =>
    refine ⟨prop, hi.of_quiet_move hs hcopy (hnode.quiet hcopy (by simp) (by simp)) ?_⟩
    exact hnode.later (.refl_move hcopy) (by rw [Function.update_self]) (by rw [Function.update_self])
      (by rw [Function.update_self]) (by rw [Function.update_self])
  | @propose k p a action hphase hok =>
    obtain ⟨hk, hp, ho, ha, hlog, hps⟩ := hnode.inRound hphase
    have hbase := hnode.log_base hphase rfl
    have hnone := hi.not_proposed hs hphase
    -- the new proposal enters the record of proposals
    let e := (net s).log.buildProposal c (t.setup s).mySeat action (t.setup s).sk
    let prop' : UInt64 → UInt32 → Option Entry := fun k' a' =>
      if k' = k ∧ a' = a then some e else prop k' a'
    have hkeep : ∀ k' a' e', prop k' a' = some e' → prop' k' a' = some e' := by
      intro k' a' e' he'
      show (if k' = k ∧ a' = a then some e else prop k' a') = some e'
      rw [if_neg ?_]
      · exact he'
      · rintro ⟨rfl, rfl⟩
        rw [hnone] at he'
        cases he'
    have hnew : prop' k a = some e := if_pos ⟨rfl, rfl⟩
    have hl := Later.of_move hcopy (List.prefix_refl G) hkeep
    refine ⟨prop', hi.of_move hs hcopy hl ?_ ?_ ?_ ?_⟩
    · refine hnode.restage (.hosted e) hl hphase rfl rfl rfl rfl rfl ?_ hnew ?_
      · exact hlog.later hl hnode.rounds_le
      · intro x v hx
        rcases Store.of_get_put (x := .proposal k a) hx with ⟨rfl, rfl⟩ | hold
        · exact ⟨e, rfl, hnew⟩
        · exact (hnode.store x v hold).later hl
    · intro k' a' e' he'
      by_cases hc : k' = k ∧ a' = a
      · right
        obtain ⟨rfl, rfl⟩ := hc
        have hee : e' = e := Option.some.inj (he'.symm.trans hnew)
        subst hee
        refine ⟨hk.le.trans hnode.rounds_le, ⟨(t.setup s).pk, ?_⟩, ?_⟩
        · rw [hk, ← hbase]
          exact hok
        · rw [hk, ← hp, show p.toNat = s from hps, Function.update_self]
          exact Or.inr (Or.inr ⟨p, a', _, rfl, Or.inr ⟨rfl, by simp⟩⟩)
      · left
        exact (if_neg hc).symm.trans he'
    · intro k' a' _ _ hrem
      exact Remains.quiet (hnode.quiet hcopy (by simp) (by simp) k' a') hrem
    · intro k' e' he' hge
      rw [List.getElem?_eq_none hge] at he'
      cases he'

theorem expectedNextPlayer_lt {l : Log} (h : 0 < l.numPlayers.toNat) :
    l.expectedNextPlayer.toNat < l.numPlayers.toNat := by
  have hn := l.numPlayers.toNat_lt
  have hz : l.numPlayers ≠ 0 := fun hz => by rw [hz] at h; exact absurd h (by decide)
  have hstart : l.roundID.toNat % l.numPlayers.toNat < l.numPlayers.toNat := Nat.mod_lt _ h
  unfold Log.expectedNextPlayer
  rw [if_neg hz]
  dsimp only
  cases hf : firstFrom l.numPlayers.toNat (l.roundID.toNat % l.numPlayers.toNat)
      (fun p => !l.state.isFolded p) with
  | none => rwa [Option.getD_none, toNat_ofNat_byte, Nat.mod_eq_of_lt (by omega)]
  | some q =>
    obtain ⟨d, hd⟩ := firstFrom_eq_some_iff.mp hf
    have hq := hd.lt
    rwa [Option.getD_some, toNat_ofNat_byte, Nat.mod_eq_of_lt (by omega)]

theorem NodeInv.expectedNextPlayer_lt (hi : NodeInv t net G prop s) (hs : s < t.size) :
    (net s).log.expectedNextPlayer.toNat < t.size := by
  have hlt := Round.expectedNextPlayer_lt (l := (net s).log)
    (by rw [hi.numPlayers, t.numPlayers_toNat]; omega)
  rwa [hi.numPlayers, t.numPlayers_toNat] at hlt

/-- The poll of the proposal is answered with the proposal of the attempt. -/
theorem Inv.proposal {data : Bytes} (hi : Inv t net G prop) (hs : s < t.size)
    (hserved : Served t (fun _ => true) net s (.proposal data))
    (hm : Runner.Move (t.setup s) (net s) (.proposal data) r) :
    NodeInv t (Function.update net s r) G prop s := by
  have hnode := hi.node s hs
  have hl : Later net (Function.update net s r) G G prop prop := .refl_move hm
  cases hm with
  | @proposal k p a _ hphase =>
    obtain ⟨hk, hp, ho, ha, hlog, _⟩ := hnode.inRound hphase
    simp only [Served, hphase, forall_const] at hserved
    have hq := hnode.expectedNextPlayer_lt hs
    have hhost := (hi.node _ hq).store (.proposal k a) data hserved
    exact hnode.restage (.fetched data) hl hphase rfl rfl rfl rfl rfl hlog hhost
      (hnode.store_later hl fun _ _ h => h)

/-- The receipt of a seat shows that it reached this attempt. -/
theorem Inv.receipt {seat : ℕ} {data : Bytes} (hi : Inv t net G prop) (hs : s < t.size)
    (hserved : Served t (fun _ => true) net s (.receipt seat data))
    (hm : Runner.Move (t.setup s) (net s) (.receipt seat data) r) :
    NodeInv t (Function.update net s r) G prop s := by
  have hnode := hi.node s hs
  have hl : Later net (Function.update net s r) G G prop prop := .refl_move hm
  cases hm with
  | @receipt k p a got _ _ hphase hseat =>
    obtain ⟨hk, hp, ho, ha, hlog, hgot⟩ := hnode.inRound hphase
    simp only [Served, hphase, forall_const] at hserved
    have hq : seat < t.size := ((t.mem_receiptSeats hs).mp hseat).1
    have hhost := (hi.node _ hq).store (.verify k a (t.nodeID seat)) data hserved
    refine hnode.restage (.collecting (seat :: got)) hl hphase rfl rfl rfl rfl rfl hlog ?_
      (hnode.store_later hl fun _ _ h => h)
    intro q hq
    rcases List.mem_cons.mp hq with rfl | hq
    · exact hl.outBelow hhost
    · exact hl.outBelow (hgot q hq)

theorem LogInv.append {r r' : Runner} {e : Entry} (h : LogInv G prop r k a false)
    (hlog : r'.log = r.log.append e) (hrounds : r'.rounds = r.rounds) (he : prop k a = some e) :
    LogInv G prop r' k a true := by
  refine ⟨e, ?_, he⟩
  have hclean : r.log.entries = G.take r.rounds := h
  rw [hlog, hrounds, ← hclean]
  rfl

theorem NodeInv.append (hi : NodeInv t net G prop s)
    (hm : Runner.Move (t.setup s) (net s) .append r) :
    NodeInv t (Function.update net s r) G prop s := by
  have hl : Later net (Function.update net s r) G G prop prop := .refl_move hm
  have hstore : ∀ x v, (net s).store.get (KeyName.key x) = some v →
      HostInv t (Function.update net s r) G prop s v x :=
    fun x v hx => (hi.store x v hx).later hl
  cases hm with
  | @appendOwn k p a e hphase =>
    obtain ⟨_, _, _, _, hlog, he⟩ := hi.inRound hphase
    exact hi.restage .appended hl hphase rfl rfl rfl rfl rfl (hlog.append rfl rfl he)
      trivial hstore
  | @undecoded k p a data reason hphase hdec =>
    obtain ⟨_, _, _, _, hlog, _⟩ := hi.inRound hphase
    exact hi.restage (.returned (some reason)) hl hphase rfl rfl rfl rfl rfl hlog trivial hstore
  | @invalid k p a data reason hphase =>
    obtain ⟨_, _, _, _, hlog, _⟩ := hi.inRound hphase
    exact hi.restage (.silent reason) hl hphase rfl rfl rfl rfl rfl hlog trivial hstore
  | @appendFetched k p a data e hphase hdec hok =>
    obtain ⟨_, _, _, _, hlog, e', rfl, he⟩ := hi.inRound hphase
    rw [show (t.setup s).entryCodec = t.entryCodec from rfl, t.entryCodec.decode_encode] at hdec
    cases hdec
    exact hi.restage .appended hl hphase rfl rfl rfl rfl rfl (hlog.append rfl rfl he)
      trivial hstore

theorem NodeInv.hostReceipt (hi : NodeInv t net G prop s)
    (hm : Runner.Move (t.setup s) (net s) .hostReceipt r) :
    NodeInv t (Function.update net s r) G prop s := by
  have hl : Later net (Function.update net s r) G G prop prop := .refl_move hm
  cases hm with
  | @hostReceipt k p a hphase =>
    obtain ⟨_, _, ho, _, hlog, _⟩ := hi.inRound hphase
    refine hi.restage (.collecting []) hl hphase rfl rfl rfl rfl rfl hlog (by simp [StageInv]) ?_
    intro x v hx
    rcases Store.of_get_put (x := .verify k a ((t.setup s).nodeID (t.setup s).seatIdx)) hx with
      ⟨rfl, rfl⟩ | hold
    · exact hl.outBelow ho
    · exact (hi.store x v hold).later hl

/-- The deadline leaves the log as it was before the attempt. -/
theorem NodeInv.deadline (hi : NodeInv t net G prop s)
    (hm : Runner.Move (t.setup s) (net s) .deadline r) :
    NodeInv t (Function.update net s r) G prop s := by
  have hl : Later net (Function.update net s r) G G prop prop := .refl_move hm
  cases hm with
  | @deadline k p a st reason hphase hst =>
    obtain ⟨_, _, _, _, hlog, _⟩ := hi.inRound hphase
    have hflags := Stage.flags_of_waiting hst
    rw [hflags.2] at hlog
    exact hi.restage (.returned (some reason)) hl hphase rfl hflags.1.symm rfl rfl rfl hlog
      trivial (hi.store_later hl fun _ _ h => h)

theorem NodeInv.receiptFailed {seat : ℕ} (hi : NodeInv t net G prop s)
    (hm : Runner.Move (t.setup s) (net s) (.receiptFailed seat) r) :
    NodeInv t (Function.update net s r) G prop s := by
  have hl : Later net (Function.update net s r) G G prop prop := .refl_move hm
  cases hm with
  | @receiptFailed k p a got _ reason hphase =>
    obtain ⟨_, _, _, _, ⟨e, hlog, _⟩, _⟩ := hi.inRound hphase
    refine hi.restage (.returned (some reason)) hl hphase rfl rfl rfl rfl rfl ?_ trivial
      (hi.store_later hl fun _ _ h => h)
    show (net s).log.entries.dropLast = G.take (net s).rounds
    rw [hlog, List.dropLast_concat]

theorem NodeInv.cleanup (hi : NodeInv t net G prop s)
    (hm : Runner.Move (t.setup s) (net s) .cleanup r) :
    NodeInv t (Function.update net s r) G prop s := by
  have hl : Later net (Function.update net s r) G G prop prop := .refl_move hm
  cases hm with
  | @cleanup k p a timeout hphase =>
    obtain ⟨_, _, _, _, hlog, hst⟩ := hi.inRound hphase
    have hsub := hi.store_later (r := { net s with
        store := (net s).cleanupAttempt (t.setup s) k a, phase := .inRound k p a (.cleaned timeout) })
      hl fun _ _ h => Runner.get_cleanupAttempt _ h
    cases timeout with
    | none =>
      refine hi.restage (.cleaned none) hl hphase rfl rfl rfl rfl rfl hlog ?_ hsub
      simp only [StageInv, Function.update_self]
      exact hst
    | some reason =>
      exact hi.restage (.cleaned (some reason)) hl hphase rfl rfl rfl rfl rfl hlog trivial hsub

theorem NodeInv.conclude (hi : NodeInv t net G prop s)
    (hm : Runner.Move (t.setup s) (net s) .conclude r) :
    NodeInv t (Function.update net s r) G prop s := by
  have hl : Later net (Function.update net s r) G G prop prop := .refl_move hm
  have hcopy := hm
  cases hm with
  | @commit k p a hphase =>
    obtain ⟨_, _, _, _, _, hlt, hlog⟩ := hi.inRound hphase
    refine ⟨?_, ?_, ?_, ?_, ?_⟩
    · rw [Function.update_self]
      exact hi.numPlayers
    · rw [Function.update_self]
      exact hi.startingStack
    · rw [Function.update_self]
      exact hlt
    · rw [Function.update_self]
      simp only [PhaseInv, Function.update_self]
      exact hlog
    · intro x v hx
      rw [Function.update_self] at hx
      exact (hi.store x v (Runner.get_pruneStore _ hx)).later hl
  | @nextAttempt k p a reason hphase =>
    obtain ⟨hk, hp, ho, ha, hlog, _⟩ := hi.inRound hphase
    have hbase := hi.log_base hphase rfl
    have hsucc := maxAttempts_succ (t := t) ha
    have hout : OutBelow (net s) k (a + 1) := by
      intro b hb
      rw [UInt32.lt_iff_toNat_lt, hsucc] at hb
      by_cases hba : b = a
      · subst hba
        unfold Runner.timedOut
        rw [hphase]
        simp [Phase.timedOut]
      · refine ho b (UInt32.lt_iff_toNat_lt.mpr ?_)
        have : b.toNat ≠ a.toNat := fun h => hba (UInt32.toNat_inj.mp h)
        omega
    obtain ⟨hfold, hext, hst⟩ := startStage_inv prop k (a + 1) hbase hp
    refine ⟨?_, ?_, ?_, ?_, ?_⟩
    · rw [Function.update_self]
      exact hi.numPlayers
    · rw [Function.update_self]
      exact hi.startingStack
    · rw [Function.update_self]
      exact hi.rounds_le
    · rw [Function.update_self]
      refine ⟨?_, ?_, hl.outBelow hout, ?_, ?_, ?_⟩
      · rw [Function.update_self]
        exact hk
      · rw [Function.update_self]
        exact hp
      · split_ifs with hmore hfolding hfolding
        · rw [hfold] at hfolding
          cases hfolding
        · exact hmore
        · apply UInt32.toNat_inj.mp
          have h1 := UInt32.lt_iff_toNat_lt.mp ha
          have h2 : ¬ (a + 1).toNat < t.maxAttempts.toNat := fun h => hmore (UInt32.lt_iff_toNat_lt.mpr h)
          omega
        · exact absurd rfl hfolding
      · rw [Function.update_self]
        split_ifs
        · rw [hext]
          exact hlog
        · exact hlog
      · split_ifs
        · exact hst _
        · trivial
    · intro x v hx
      rw [Function.update_self] at hx
      exact (hi.store x v hx).later hl

/-! ### The auto-fold -/

theorem mySeat_toNat (hs : s < t.size) : (t.setup s).mySeat.toNat = s := by
  have hlen : t.size < 256 := t.order_length
  rw [Setup.mySeat, toNat_ofNat_byte]
  exact Nat.mod_eq_of_lt (hs.trans hlen)

/-- The attestors of the round are the seats that are asked to co-sign. -/
theorem attestor_iff {es : List Entry} {q : ℕ} :
    t.Attestor es q ↔ q < t.size ∧
      UInt8.ofNat q ∈ (t.logAt es).expectedAutoFoldAttestors (t.proposer es) := by
  have hsize : (t.logAt es).numPlayers.toNat = t.size := t.numPlayers_toNat
  have hlen : t.size < 256 := t.order_length
  rw [mem_expectedAutoFoldAttestors, hsize]
  unfold Table.Attestor
  constructor
  · rintro ⟨hq, hne, hf⟩
    have hval : (UInt8.ofNat q).toNat = q := by rw [toNat_ofNat_byte, Nat.mod_eq_of_lt (by omega)]
    rw [hval]
    exact ⟨hq, hq, fun h => hne (by rw [← h, hval]), hf⟩
  · rintro ⟨hq, _, hne, hf⟩
    have hval : (UInt8.ofNat q).toNat = q := by rw [toNat_ofNat_byte, Nat.mod_eq_of_lt (by omega)]
    rw [hval] at hf
    exact ⟨hq, fun h => hne (UInt8.toNat_inj.mp (by rw [hval]; exact h)), hf⟩

theorem attestation_eq (hi : NodeInv t net G prop s) (hphase : (net s).phase = .inRound k p a st)
    (hst : st.extended = false) :
    (net s).log.buildAutoFoldAttestation c k p (t.setup s).sk =
      t.attestation (G.take (net s).rounds) k s := by
  obtain ⟨_, hp, _⟩ := hi.inRound hphase
  rw [hi.log_base hphase hst, hp]
  rfl

theorem NodeInv.hostAttestation (hi : NodeInv t net G prop s)
    (hphase : (net s).phase = .inRound k p a .attesting)
    (hl : Later net (Function.update net s r) G G prop prop)
    (hr : r.store = (net s).hostAttestation (t.setup s) k p) (x : KeyName) (v : Bytes)
    (hx : r.store.get x.key = some v) : HostInv t (Function.update net s r) G prop s v x := by
  obtain ⟨hk, _, ho, ha, _, _⟩ := hi.inRound hphase
  rw [hr] at hx
  unfold Runner.hostAttestation at hx
  split_ifs at hx
  · rcases Store.of_get_put (x := .autoFold k ((t.setup s).nodeID (t.setup s).seatIdx)) hx with
      ⟨rfl, rfl⟩ | hold
    · refine ⟨hk.le.trans hi.rounds_le, ?_, hl.outBelow ?_⟩
      · rw [hk]
        exact attestation_eq hi hphase rfl
      · rw [← show a = t.maxAttempts from ha]
        exact ho
    · exact (hi.store x v hold).later hl
  · exact (hi.store x v hx).later hl

/-- A round that fails leaves the log as it was. -/
theorem NodeInv.fail {err : Bytes} {store : Store Bytes} (hi : NodeInv t net G prop s)
    (hphase : (net s).phase = .inRound k p a st) (hst : st.extended = false)
    (hr : r = ({ net s with store := store } : Runner).failAutoFold k err)
    (hstore : ∀ x v, r.store.get (KeyName.key x) = some v →
      HostInv t (Function.update net s r) G prop s v x) :
    NodeInv t (Function.update net s r) G prop s := by
  obtain ⟨_, _, _, _, hlog, _⟩ := hi.inRound hphase
  rw [hst] at hlog
  subst hr
  refine ⟨?_, ?_, ?_, ?_, ?_⟩
  · rw [Function.update_self]
    exact hi.numPlayers
  · rw [Function.update_self]
    exact hi.startingStack
  · rw [Function.update_self]
    exact hi.rounds_le
  · rw [Function.update_self]
    simp only [PhaseInv, Runner.failAutoFold, Function.update_self]
    exact hlog
  · intro x v hx
    rw [Function.update_self] at hx
    exact hstore x v hx

theorem NodeInv.attest (hi : NodeInv t net G prop s) (hs : s < t.size)
    (hm : Runner.Move (t.setup s) (net s) .attest r) :
    NodeInv t (Function.update net s r) G prop s := by
  have hl : Later net (Function.update net s r) G G prop prop := .refl_move hm
  cases hm with
  | @noAttestors k p a err hphase =>
    exact hi.fail hphase rfl rfl (hi.hostAttestation hphase hl rfl)
  | @attest k p a hphase =>
    obtain ⟨hk, hp, ho, ha, hlog, _⟩ := hi.inRound hphase
    have hbase := hi.log_base hphase rfl
    refine hi.restage (.gathering _) hl hphase rfl rfl rfl rfl rfl hlog ?_
      (hi.hostAttestation hphase hl rfl)
    simp only [StageInv, Function.update_self]
    refine ⟨?_, ?_⟩
    · rw [← hbase]
      simp [Runner.ownCosigs, Function.comp_def]
    · intro q sig hq
      unfold Runner.ownCosigs at hq
      rw [List.mem_map] at hq
      obtain ⟨seat, _, heq⟩ := hq
      obtain ⟨rfl, hsig⟩ := Prod.mk.inj heq
      split_ifs at hsig with hmine
      rw [hmine, mySeat_toNat hs]
      refine ⟨?_, ?_⟩
      · rw [← attestation_eq hi hphase rfl]
        exact (Option.some.inj hsig).symm
      · rw [← show a = t.maxAttempts from ha]
        exact hl.outBelow ho

theorem Inv.attestation {seat : UInt8} {data : Bytes} (hi : Inv t net G prop) (hs : s < t.size)
    (hserved : Served t (fun _ => true) net s (.attestation seat data))
    (hm : Runner.Move (t.setup s) (net s) (.attestation seat data) r) :
    NodeInv t (Function.update net s r) G prop s := by
  have hnode := hi.node s hs
  have hl : Later net (Function.update net s r) G G prop prop := .refl_move hm
  cases hm with
  | @attestation k p a cosigs _ _ hphase =>
    obtain ⟨hk, hp, ho, ha, hlog, hseats, hsigs⟩ := hnode.inRound hphase
    simp only [Served, hphase, forall_const] at hserved
    refine hnode.restage (.gathering _) hl hphase rfl rfl rfl rfl rfl hlog ?_
      (hnode.store_later hl fun _ _ h => h)
    simp only [StageInv, Function.update_self]
    refine ⟨?_, ?_⟩
    · rw [← hseats, List.map_map]
      apply List.map_congr_left
      intro x _
      simp only [Function.comp_apply]
      split_ifs with hx
      · rw [hx]
      · rfl
    · intro q sig hq
      rw [List.mem_map] at hq
      obtain ⟨x, hx, heq⟩ := hq
      split_ifs at heq with hxs
      · obtain ⟨rfl, hsig⟩ := Prod.mk.inj heq
        have hmem : seat ∈ (t.logAt (G.take (net s).rounds)).expectedAutoFoldAttestors p := by
          rw [← hseats]
          exact List.mem_map.mpr ⟨x, hx, by rw [hxs]⟩
        have hlt : seat.toNat < t.size := by
          have := (mem_expectedAutoFoldAttestors.mp hmem).1
          rwa [show (t.logAt (G.take (net s).rounds)).numPlayers.toNat = t.size from
            t.numPlayers_toNat] at this
        obtain ⟨_, hdata, hout⟩ := (hi.node _ hlt).store (.autoFold k (t.nodeID seat.toNat)) data hserved
        rw [hk] at hdata
        exact ⟨by rw [← hdata]; exact (Option.some.inj hsig).symm, hl.outBelow hout⟩
      · obtain ⟨hsig, hout⟩ := hsigs q sig (heq ▸ hx)
        exact ⟨hsig, hl.outBelow hout⟩

theorem signed_eq {cosigs : List (UInt8 × Option Bytes)} {signed : List (UInt8 × Bytes)}
    {f : UInt8 → Bytes} (h : cosigs.mapM (fun x => x.2.map fun sig => (x.1, sig)) = some signed)
    (hf : ∀ q sig, (q, some sig) ∈ cosigs → sig = f q) :
    signed = (cosigs.map Prod.fst).map (fun q => (q, f q)) ∧
      ∀ q ∈ cosigs.map Prod.fst, ∃ sig, (q, some sig) ∈ cosigs := by
  induction cosigs generalizing signed with
  | nil =>
    have hnil : [] = signed := by simpa using h
    subst hnil
    simp
  | cons x cosigs ih =>
    obtain ⟨q, o⟩ := x
    rw [List.mapM_cons, Option.bind_eq_bind, Option.bind_eq_some_iff] at h
    obtain ⟨y, hy, h⟩ := h
    rw [Option.bind_eq_bind, Option.bind_eq_some_iff] at h
    obtain ⟨rest, hrest, h⟩ := h
    obtain ⟨sig, ho, rfl⟩ := Option.map_eq_some_iff.mp hy
    have ho : o = some sig := ho
    subst ho
    obtain ⟨hsigned, hpresent⟩ := ih hrest fun q sig hq => hf q sig (List.mem_cons_of_mem _ hq)
    have hsig := hf q sig (List.mem_cons_self ..)
    refine ⟨?_, ?_⟩
    · rw [List.map_cons, List.map_cons, ← hsigned, ← hsig]
      exact (Option.some.inj h).symm
    · intro q' hq'
      rw [List.map_cons] at hq'
      rcases List.mem_cons.mp hq' with rfl | hq'
      · exact ⟨sig, List.mem_cons_self ..⟩
      · obtain ⟨sig', hs'⟩ := hpresent q' hq'
        exact ⟨sig', List.mem_cons_of_mem _ hs'⟩

/-- With every attestation gathered, the entry is the auto-fold of the round, and
all attestors are through their attempts. -/
theorem NodeInv.gathered {cosigs : List (UInt8 × Option Bytes)} {signed : List (UInt8 × Bytes)}
    (hi : NodeInv t net G prop s) (hphase : (net s).phase = .inRound k p a (.gathering cosigs))
    (hsigned : cosigs.mapM (fun x => x.2.map fun sig => (x.1, sig)) = some signed) :
    Runner.autoFoldEntry k p signed = t.foldEntry (G.take (net s).rounds) k ∧
      ∀ q, t.Attestor (G.take (net s).rounds) q → OutBelow (net q) k t.maxAttempts := by
  obtain ⟨hk, hp, _, _, _, hseats, hsigs⟩ := hi.inRound hphase
  obtain ⟨heq, hpresent⟩ := signed_eq
    (f := fun q => t.attestation (G.take (net s).rounds) k q.toNat) hsigned
    fun q sig hq => (hsigs q sig hq).1
  refine ⟨?_, ?_⟩
  · unfold Table.foldEntry
    rw [heq, hseats, ← hp]
  · intro q hq
    obtain ⟨hlt, hmem⟩ := attestor_iff.mp hq
    rw [← hp, ← hseats] at hmem
    obtain ⟨sig, hsig⟩ := hpresent _ hmem
    have hval : (UInt8.ofNat q).toNat = q := by
      have hlen : t.size < 256 := t.order_length
      rw [toNat_ofNat_byte, Nat.mod_eq_of_lt (by omega)]
    have hout := (hsigs _ sig hsig).2
    rwa [hval] at hout

/-! ### Commits -/

/-- A chain that has entry `e` at position `m`, or ends there, goes on with `e`. -/
theorem exists_chain {m : ℕ} {e : Entry} (hm : m ≤ G.length) (he : ∀ e', G[m]? = some e' → e' = e) :
    ∃ G', G <+: G' ∧ m < G'.length ∧ G'.take (m + 1) = G.take m ++ [e] ∧
      ∀ j e', G'[j]? = some e' → G.length ≤ j → j = m ∧ e' = e := by
  rcases Nat.lt_or_ge m G.length with hlt | hge
  · have hget : G[m] = e := he _ (List.getElem?_eq_getElem hlt)
    refine ⟨G, List.prefix_refl G, hlt, ?_, ?_⟩
    · rw [List.take_add_one, List.getElem?_eq_getElem hlt, hget]
      rfl
    · intro j e' hj hge
      rw [List.getElem?_eq_none hge] at hj
      cases hj
  · have hlen : m = G.length := by omega
    subst hlen
    refine ⟨G ++ [e], List.prefix_append G [e], by simp, ?_, ?_⟩
    · rw [List.take_length, List.take_of_length_le (by simp)]
    · intro j e' hj hge
      rw [List.getElem?_append_right hge, List.getElem?_singleton] at hj
      split_ifs at hj with hz
      exact ⟨by omega, (Option.some.inj hj).symm⟩

/-- All receipts polled: every attestor went through the earlier attempts. -/
theorem NodeInv.receipts (hi : NodeInv t net G prop s) (hinv : Inv t net G prop) (hs : s < t.size)
    {got : List ℕ} (hphase : (net s).phase = .inRound k p a (.collecting got))
    (hgot : ∀ seat ∈ (net s).receiptSeats (t.setup s), seat ∈ got) :
    ∃ e, (net s).log.entries = G.take (net s).rounds ++ [e] ∧ prop k a = some e ∧
      ∀ q, t.Attestor (G.take (net s).rounds) q → OutBelow (net q) k a := by
  obtain ⟨hk, hp, ho, ha, ⟨e, hlog, he⟩, hcol⟩ := hi.inRound hphase
  refine ⟨e, hlog, he, ?_⟩
  rintro q ⟨hq, hne, hfold⟩
  by_cases hqs : q = s
  · rw [hqs]
    exact ho
  -- the proposal folds at most the proposer, so the attestor is still polled
  obtain ⟨pk, hok⟩ := (hinv.proposed k a e he).verified
  rw [hk] at hok
  obtain ⟨_, hplayer, _, _, hvalid⟩ := verifyProposal_ok hok
  obtain ⟨hover, hseat, _, _⟩ := (State.validateAction_ok_iff _ _ _).mp hvalid
  rw [Log.state_shaped _ |>.seatStacks] at hseat
  have hbase : (net s).log = (t.logAt (G.take (net s).rounds)).append e := by
    rw [hi.log_eq, hlog]
    rfl
  have hstill : (net s).log.state.isFolded q = false := by
    rw [hbase, isFolded_append hover hseat, if_neg ?_]
    · exact hfold
    · rintro ⟨_, heq⟩
      exact hne (by rw [heq, hplayer]; rfl)
  exact hcol q (hgot q ((t.mem_receiptSeats hs).mpr ⟨hq, hqs, hstill⟩))

theorem OutBelow.not_remains {es : List Entry} {b : UInt32} {x : Option ℕ}
    (h : ∀ q, t.Attestor es q → OutBelow (net q) k b) (hlt : a < b) (hr : t.Remains net es k a x) :
    False := by
  obtain ⟨q, _, hatt, hout, _⟩ := hr
  rw [h q hatt a hlt] at hout
  cases hout

/-- An entry that is already in the chain is the one this node is about to commit. -/
theorem Inv.commit_unique {e e' : Entry} (hi : Inv t net G prop) (ha : a < t.maxAttempts)
    (he : prop k a = some e) (hout : ∀ q, t.Attestor (G.take k.toNat) q → OutBelow (net q) k a)
    (hrem : t.Remains net (G.take k.toNat) k a none) (he' : G[k.toNat]? = some e') : e' = e := by
  rcases hi.decided k e' he' with ⟨b, hb, hp, hrem', hout', _⟩ | ⟨_, hout'⟩
  · rcases Nat.lt_trichotomy a.toNat b.toNat with hlt | heq | hgt
    · exact (OutBelow.not_remains hout' (UInt32.lt_iff_toNat_lt.mpr hlt) hrem).elim
    · rw [UInt32.toNat_inj.mp heq, hp] at he
      exact Option.some.inj he
    · exact (OutBelow.not_remains hout (UInt32.lt_iff_toNat_lt.mpr hgt) hrem').elim
  · exact (OutBelow.not_remains hout' ha hrem).elim

theorem Inv.collected (hi : Inv t net G prop) (hs : s < t.size)
    (hcond : VerifierRemains t net s .collected)
    (hm : Runner.Move (t.setup s) (net s) .collected r) :
    ∃ G', Inv t (Function.update net s r) G' prop := by
  have hnode := hi.node s hs
  have hcopy := hm
  cases hm with
  | @collected k p a got hphase hgot =>
    obtain ⟨hk, hp, ho, ha, hlogInv, _⟩ := hnode.inRound hphase
    obtain ⟨e, hlog, he, hout⟩ := hnode.receipts hi hs hphase hgot
    simp only [VerifierRemains, hphase, hnode.committed_eq] at hcond
    rw [← hk] at hout hcond
    have hquiet := hnode.quiet hcopy (by simp) (by simp)
    obtain ⟨G', hpre, hlt, htake, hlast⟩ := exists_chain (m := (net s).rounds) (e := e)
      hnode.rounds_le fun e' he' => hi.commit_unique ha he hout hcond (by rwa [hk])
    have hl : Later net _ G G' prop prop := .of_move hcopy hpre fun _ _ _ h => h
    refine ⟨G', hi.of_move hs hcopy hl ?_ (fun _ _ _ h => Or.inl h) ?_ ?_⟩
    · refine hnode.restage (.returned none) hl hphase rfl rfl rfl rfl rfl
        (hlogInv.later hl hnode.rounds_le) ?_ (hnode.store_later hl fun _ _ h => h)
      simp only [StageInv, Function.update_self]
      exact ⟨hlt, by rw [htake]; exact hlog⟩
    · exact fun k' a' _ _ h => Remains.quiet (hquiet k' a') h
    · intro k' e' he' hge
      obtain ⟨hk', rfl⟩ := hlast _ _ he' hge
      have hkk : k' = k := UInt64.toNat_inj.mp (by omega)
      subst hkk
      have htk : G'.take k'.toNat = G.take k'.toNat := hl.take (by rw [hk]; exact hnode.rounds_le)
      rw [← htk] at hout hcond
      refine Or.inl ⟨a, ha, he, Remains.quiet (hquiet k' a) hcond,
        fun q hq => hl.outBelow (hout q hq), s, hs, ?_⟩
      rw [Function.update_self]
      simp [Runner.didCommit, Phase.didCommit]

theorem Inv.fold (hi : Inv t net G prop) (hs : s < t.size)
    (hm : Runner.Move (t.setup s) (net s) .foldProposer r) :
    ∃ G', Inv t (Function.update net s r) G' prop := by
  have hnode := hi.node s hs
  have hcopy := hm
  have hquiet := hnode.quiet hcopy (by simp) (by simp)
  cases hm with
  | foldRefused hphase =>
    refine ⟨G, hi.of_quiet_move hs hcopy hquiet (hnode.fail hphase rfl rfl ?_)⟩
    exact hnode.store_later (.refl_move hcopy) fun _ _ h => h
  | @fold k p a cosigs signed log hphase hsigned happ =>
    obtain ⟨hk, hp, ho, ha, hlogInv, _⟩ := hnode.inRound hphase
    obtain ⟨hentry, hout⟩ := hnode.gathered hphase hsigned
    have hclean : (net s).log.entries = G.take (net s).rounds := hlogInv
    have hlog : log = (net s).log.append (t.foldEntry (G.take (net s).rounds) k) := by
      rw [← hentry]
      exact (appendAutoFold_ok happ).2
    rw [← hk] at hout
    have hsame : ∀ e', G[(net s).rounds]? = some e' → e' = t.foldEntry (G.take (net s).rounds) k := by
      -- a committed attempt keeps a verifier, so the round was decided by the same auto-fold
      intro e' he'
      rw [← hk] at he' ⊢
      rcases hi.decided k e' he' with ⟨b, hb, _, hrem, _⟩ | ⟨hfold, _⟩
      · exact (OutBelow.not_remains hout hb hrem).elim
      · exact hfold
    obtain ⟨G', hpre, hlt, htake, hlast⟩ := exists_chain hnode.rounds_le hsame
    have hl : Later net _ G G' prop prop := .of_move hcopy hpre fun _ _ _ h => h
    refine ⟨G', hi.of_move hs hcopy hl ?_ (fun _ _ _ h => Or.inl h) ?_ ?_⟩
    · refine ⟨?_, ?_, ?_, ?_, ?_⟩
      · rw [Function.update_self, hlog]
        exact hnode.numPlayers
      · rw [Function.update_self, hlog]
        exact hnode.startingStack
      · rw [Function.update_self]
        exact hlt
      · rw [Function.update_self]
        simp only [PhaseInv, Function.update_self]
        rw [htake, hlog, ← hclean]
        rfl
      · intro x v hx
        rw [Function.update_self] at hx
        exact (hnode.store x v hx).later hl
    · exact fun k' a' _ _ h => Remains.quiet (hquiet k' a') h
    · intro k' e' he' hge
      obtain ⟨hk', rfl⟩ := hlast _ _ he' hge
      have hkk : k' = k := UInt64.toNat_inj.mp (by omega)
      subst hkk
      have htk : G'.take k'.toNat = G.take k'.toNat := hl.take (by rw [hk]; exact hnode.rounds_le)
      refine Or.inr ⟨?_, ?_⟩
      · rw [htk, hk]
      · rw [htk]
        exact fun q hq => hl.outBelow (hout q hq)

/-! ### Runs -/

/-- A deadline in an attempt that is committed leaves another verifier in it. -/
theorem Inv.timeout (hi : Inv t net G prop) (hs : s < t.size)
    (hm : Runner.Move (t.setup s) (net s) i r) (hphase : (net s).phase = .inRound k p a st)
    (hcond : (∃ q < t.size, (net q).didCommit k a = true) →
      t.Remains net (net s).committed k a (some s))
    (hnode : NodeInv t (Function.update net s r) G prop s) :
    Inv t (Function.update net s r) G prop := by
  -- only the attempt the node is in can have timed out
  have hother : ∀ k' a', r.timedOut k' a' = true → (net s).timedOut k' a' = true ∨ k' = k ∧ a' = a := by
    intro k' a' h
    refine (hm.timedOut_new h).imp_right ?_
    rintro ⟨p', st', hph, _⟩
    rw [hphase] at hph
    obtain ⟨hk, _, ha, _⟩ := Phase.inRound.inj hph
    exact ⟨hk.symm, ha.symm⟩
  obtain ⟨hk, _⟩ := (hi.node s hs).inRound hphase
  refine hi.of_move hs hm (.refl_move hm) hnode (fun _ _ _ h => Or.inl h) ?_ ?_
  · intro k' a' hcommit hlt hrem
    by_cases hc : k' = k ∧ a' = a
    · obtain ⟨rfl, rfl⟩ := hc
      obtain ⟨q, hq, hatt, hout, hne⟩ := hcond hcommit
      rw [(hi.node s hs).committed_eq, ← hk] at hatt
      have hqs : q ≠ s := fun h => hne (by rw [h])
      refine ⟨q, hq, hatt, ?_, by simp⟩
      rwa [Function.update_of_ne hqs]
    · exact Remains.quiet (fun h => (hother k' a' h).resolve_right hc) hrem
  · intro k' e he hge
    rw [List.getElem?_eq_none hge] at he
    cases he

theorem Inv.step {net' : Net} (hi : Inv t net G prop)
    (hstep : Step t (fun _ => true) (VerifierRemains t) net net') :
    ∃ G' prop', Inv t net' G' prop' := by
  cases hstep with
  | @node s i r hs _ hserved hcond hrun =>
    have hm := Runner.step_move hrun
    have hnode := hi.node s hs
    have hquiet := hnode.quiet hm
    cases i with
    | submit a =>
      refine ⟨G, prop, hi.of_quiet_move hs hm (hquiet (by simp) (by simp)) ?_⟩
      have hl : Later net (Function.update net s r) G G prop prop := .refl_move hm
      cases hm with
      | submit _ =>
        exact hnode.later hl (by rw [Function.update_self]) (by rw [Function.update_self])
          (by rw [Function.update_self]) (by rw [Function.update_self])
    | beginRound =>
      exact ⟨G, prop, hi.of_quiet_move hs hm (hquiet (by simp) (by simp)) (hnode.beginRound hm)⟩
    | propose =>
      obtain ⟨prop', h⟩ := hi.propose hs hm
      exact ⟨G, prop', h⟩
    | append =>
      exact ⟨G, prop, hi.of_quiet_move hs hm (hquiet (by simp) (by simp)) (hnode.append hm)⟩
    | hostReceipt =>
      exact ⟨G, prop, hi.of_quiet_move hs hm (hquiet (by simp) (by simp)) (hnode.hostReceipt hm)⟩
    | proposal data =>
      exact ⟨G, prop, hi.of_quiet_move hs hm (hquiet (by simp) (by simp))
        (hi.proposal hs hserved hm)⟩
    | receipt seat data =>
      exact ⟨G, prop, hi.of_quiet_move hs hm (hquiet (by simp) (by simp)) (hi.receipt hs hserved hm)⟩
    | collected =>
      obtain ⟨G', h⟩ := hi.collected hs hcond hm
      exact ⟨G', prop, h⟩
    | deadline =>
      have hinv := hnode.deadline hm
      have hcopy := hm
      cases hm with
      | deadline hphase _ =>
        simp only [VerifierRemains, hphase] at hcond
        exact ⟨G, prop, hi.timeout hs hcopy hphase hcond hinv⟩
    | receiptFailed seat =>
      have hinv := hnode.receiptFailed hm
      have hcopy := hm
      cases hm with
      | receiptFailed hphase =>
        simp only [VerifierRemains, hphase] at hcond
        exact ⟨G, prop, hi.timeout hs hcopy hphase hcond hinv⟩
    | cleanup =>
      exact ⟨G, prop, hi.of_quiet_move hs hm (hquiet (by simp) (by simp)) (hnode.cleanup hm)⟩
    | conclude =>
      exact ⟨G, prop, hi.of_quiet_move hs hm (hquiet (by simp) (by simp)) (hnode.conclude hm)⟩
    | attest =>
      exact ⟨G, prop, hi.of_quiet_move hs hm (hquiet (by simp) (by simp)) (hnode.attest hs hm)⟩
    | attestation seat data =>
      exact ⟨G, prop, hi.of_quiet_move hs hm (hquiet (by simp) (by simp))
        (hi.attestation hs hserved hm)⟩
    | attestationFailed seat =>
      refine ⟨G, prop, hi.of_quiet_move hs hm (hquiet (by simp) (by simp)) ?_⟩
      have hl : Later net (Function.update net s r) G G prop prop := .refl_move hm
      cases hm with
      | attestationFailed hphase =>
        exact hnode.fail hphase rfl rfl (hnode.store_later hl fun _ _ h => h)
    | foldProposer =>
      obtain ⟨G', h⟩ := hi.fold hs hm
      exact ⟨G', prop, h⟩

end Steps

section Runs
variable {c : Primitives} (t : Table c)

theorem Inv.start :
    Inv t (Net.start (newLog t.numPlayers t.startingStack)) [] fun _ _ => none := by
  refine ⟨?_, by simp, by simp⟩
  intro s _
  exact ⟨rfl, rfl, le_rfl, rfl, by simp [Net.start, Store.new, Store.get]⟩

theorem Inv.reaches {net : Net}
    (h : Reaches t (fun _ => true) (VerifierRemains t)
      (Net.start (newLog t.numPlayers t.startingStack)) net) :
    ∃ G prop, Inv t net G prop := by
  induction h with
  | refl => exact ⟨_, _, Inv.start t⟩
  | tail _ hstep ih =>
    obtain ⟨G, prop, hi⟩ := ih
    exact hi.step hstep

end Runs

theorem replicas_agree (c : Primitives) (t : Table c) (net : Net)
    (h : Reaches t (fun _ => true) (VerifierRemains t)
      (Net.start (newLog t.numPlayers t.startingStack)) net) : Agreement t net := by
  obtain ⟨G, prop, hi⟩ := Inv.reaches t h
  intro s s' j e e' hs hs' he he'
  rw [(hi.node s hs).committed_eq, List.getElem?_take] at he
  rw [(hi.node s' hs').committed_eq, List.getElem?_take] at he'
  split_ifs at he he'
  exact Option.some.inj (he.symm.trans he')

/-- Heads-up, with a single attempt for each round. -/
def headsUp : Table .transparent := .sample 2 two_seats_lt 1 100

/- Seat 0 checks; seat 1 appends the check and hosts its receipt, seat 0 commits. -/
def proposerCommits : List (ℕ × Input) :=
  submitsAt 0 ⟨.check, 0⟩ ++ [(0, .beginRound), (0, .propose), (0, .append), (0, .hostReceipt),
    (1, .beginRound), (1, .proposal []), (1, .append), (1, .hostReceipt), (0, .receipt 1 []),
    (0, .collected), (0, .cleanup), (0, .conclude)]

/-- Seat 1 reads the receipt of seat 0 and commits too. -/
theorem replicas_agree_heads_up :
    Agreement headsUp (runTo headsUp (fun _ => true) (VerifierRemains headsUp)
      (Net.start (newLog 2 100))
      (proposerCommits ++ [(1, .receipt 0 []), (1, .collected), (1, .cleanup), (1, .conclude)])
      (by decide +kernel)) :=
  replicas_agree .transparent headsUp _ (runTo_reaches ..)

def everyStep : Net → ℕ → Input → Prop := fun _ _ _ => True

instance (net : Net) (s : ℕ) (i : Input) : Decidable (everyStep net s i) := .isTrue trivial

/- The receipt of seat 0 comes too late for seat 1: its only attempt ends, and
alone it attests and folds seat 0, which has committed its check. -/
def verifierFolds : Net :=
  runTo headsUp (fun _ => true) everyStep (Net.start (newLog 2 100))
    (proposerCommits ++ [(1, .receiptFailed 0), (1, .cleanup), (1, .conclude), (1, .attest),
      (1, .foldProposer)]) (by decide +kernel)

theorem replicas_disagree_after_timeout :
    ¬ ∀ (c : Primitives) (t : Table c) (net : Net), 2 ≤ t.size →
      Reaches t (fun _ => true) everyStep (Net.start (newLog t.numPlayers t.startingStack)) net →
      Agreement t net := by
  intro h
  have hagree := h .transparent headsUp verifierFolds (by decide) (runTo_reaches ..) 0 1 0
    ((newLog 2 100).buildProposal .transparent 0 ⟨.check, 0⟩ (0 : Byte)) (headsUp.foldEntry [] 0)
    (by decide) (by decide) (by decide +kernel) (by decide +kernel)
  exact absurd hagree (by decide +kernel)

end P2Poker.Round
