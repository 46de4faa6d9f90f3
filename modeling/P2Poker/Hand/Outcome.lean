import P2Poker.Hand.Parts

/-!
# The outcome of a hand

All nodes of a table that come to the end of `Run` report the same result: their
logs have led to the same state, and the claims they check show the cards that
were dealt. Nothing else than a round can fail.
-/

namespace P2Poker.Peer
open P2Poker.Lib P2Poker.Crypto P2Poker.Ephemeral P2Poker.Cards

/-! ### What lies in the deck -/

/-- The slots of a seat's two cards and of the board. -/
def Table.slots {K : Type} (t : Table K) (s : ℕ) : List ℕ :=
  2 * s :: (2 * s + 1) :: (List.range 5).map fun i => 2 * t.size + i

/-- The best hand of a seat, as the cards lie in the final deck. -/
def Table.Holds {K : Type} (t : Table K) (s : ℕ) (h : HandRank) : Prop :=
  ∃ cards : List Card, ((t.slots s).map fun k => decimal (t.cardAt k)).map parseDeckString = cards.map Except.ok ∧
    best cards = .ok h

section Deck
variable {gob : Codec (List Bytes)} {t : Table Deck.Key} (hn : 2 ≤ t.size) (hcap : 2 * t.size + 5 ≤ 52)
  (hkey : ∀ s < t.size, Deck.Generates PRIME (t.key s))
include hn hcap

/- A deal that comes to its end tells what lies in the deck. -/
theorem exists_honest_end (gob : Codec (List Bytes)) : ∃ net : Net Bytes,
    (∀ s, NodeInv (wire PRIME gob) t s (net s)) ∧ ∀ s < t.size, (net s).Finished := by
  have hlaw := wire_lawful gob
  obtain ⟨net, hreach, hfin⟩ := exists_finished (o := wire PRIME gob) (t := t) hn hcap hlaw.isEmpty_empty
    hlaw.decode_encode .refl
  exact ⟨net, NodeInv.reaches hn hcap hlaw.isEmpty_empty hlaw.decode_encode hreach, hfin⟩

include hkey

theorem Table.exists_holds {s : ℕ} (hs : s < t.size) : ∃ h, t.Holds s h ∧ h.Full := by
  obtain ⟨net, hinv, hfin⟩ := exists_honest_end hn hcap deckWire.codec
  obtain ⟨h, ⟨cards, hcards, hbest⟩, hfull⟩ := exists_hand hcap hkey hinv hfin hs
  obtain ⟨hcard1, hcard2⟩ := (hinv s).cards_of_finished hcap hkey hs (hfin s hs)
  rw [shownTexts, hcard1, hcard2, (hinv s).board_of_finished hcap hkey (hfin s hs), List.map_map] at hcards
  refine ⟨h, ⟨cards, ?_, hbest⟩, hfull⟩
  rw [slots, List.map_cons, List.map_cons, List.map_map]
  exact hcards

/-- A hole relay of the last stripper is the card under the owner's layer, whenever it is hosted. -/
theorem NodeInv.last_relay {s q slot : ℕ} {r : Node Bytes} {v : Bytes} (hs : s < t.size)
    (hslot : slot / 2 = s) (hq : (nonOwnerRing t.size s).getLast? = some q)
    (hinv : NodeInv (wire PRIME gob) t q r) (hv : r.store.get (holeRelayKey slot q) = some v) :
    v = Deck.encryptCard (decimal (t.cardAt slot)) (t.key s) PRIME := by
  obtain ⟨net, hnet, hfin⟩ := exists_honest_end hn hcap gob
  obtain ⟨q', hq', _, hread⟩ := relay_of_finished hn hcap hkey hnet hfin hs slot hslot
  obtain rfl := Option.some.inj (hq.symm.trans hq')
  have hend := (hnet q).stored (.holeRelay slot q) _ hread
  exact Option.some.inj ((hinv.stored (.holeRelay slot q) v hv).symm.trans hend)

end Deck

/-! ### Checking a claim in the middle of a hand -/

section Check
variable {gob : Codec (List Bytes)} {gobClaim : Codec ShowdownClaim} {t : Table Deck.Key}
  {read : ℕ → Key → Option Bytes} {s q : ℕ} {hand : HandRank}

/-- What a check of a seat's claim comes to: it shows the hand that was dealt, or
one of the keys it reads is not hosted yet. -/
inductive Checks (read : ℕ → Key → Option Bytes) (s q : ℕ) (hand : HandRank) :
    Except ClaimError VerifiedClaim → Prop
  | shown : Checks read s q hand (.ok ⟨s, hand⟩)
  | noClaim : read s (showdownClaimKey s) = none → Checks read s q hand (.error .fetchClaim)
  | noRelay1 {slot : ℕ} : slot / 2 = s → read q (holeRelayKey slot q) = none →
      Checks read s q hand (.error (.verifyCard1 .fetchRelay))
  | noRelay2 {slot : ℕ} : slot / 2 = s → read q (holeRelayKey slot q) = none →
      Checks read s q hand (.error (.verifyCard2 .fetchRelay))

theorem verifyClaimCard_error {n w slot : ℕ} {fetch : ℕ → Key → Option Bytes} (prime y : ℕ) (claimed : Bytes)
    (hq : (nonOwnerRing n w).getLast? = some q) (hnone : fetch q (holeRelayKey slot q) = none) :
    verifyClaimCard n prime fetch w slot claimed y = .error .fetchRelay := by
  simp only [verifyClaimCard, hq, hnone]

/-- The claim of a seat, with the cards that were dealt to it. -/
def Table.claim (t : Table Deck.Key) (s : ℕ) : ShowdownClaim :=
  ⟨UInt8.ofNat s, decimal (t.cardAt (2 * s)), decimal (t.cardAt (2 * s + 1)),
    natBytes (t.key s).inverseExponent⟩

def Table.boardTexts (t : Table Deck.Key) : List Bytes :=
  (List.range 5).map fun i => decimal (t.cardAt (2 * t.size + i))

theorem Table.boardTexts_filter (t : Table Deck.Key) :
    t.boardTexts.filter (fun s => s ≠ []) = t.boardTexts := by
  refine List.filter_eq_self.mpr fun w hw => ?_
  obtain ⟨i, _, rfl⟩ := List.mem_map.mp hw
  exact decide_eq_true (decimal_ne_nil _)

theorem Table.Holds.checks (hholds : t.Holds s hand) (hcap : 2 * t.size + 5 ≤ 52)
    (hkey : ∀ s < t.size, Deck.Generates PRIME (t.key s)) (hs : s < t.size)
    (hq : (nonOwnerRing t.size s).getLast? = some q)
    (hclaim : ∀ data, read s (showdownClaimKey s) = some data → data = gobClaim.encode (t.claim s))
    (hrelay : ∀ slot v, slot / 2 = s → read q (holeRelayKey slot q) = some v →
      v = Deck.encryptCard (decimal (t.cardAt slot)) (t.key s) PRIME) :
    Checks read s q hand (pollAndVerifyClaim t.size PRIME read gobClaim t.boardTexts s) := by
  have hseat : (t.claim s).seat.toNat = s := by
    rw [claim, toNat_ofNat_byte]
    exact Nat.mod_eq_of_lt (show s < 256 by omega)
  have hmod : (t.key s).exponent * (t.key s).inverseExponent ≡ 1 [MOD PRIME - 1] := (hkey s hs).inverse.mul_eq
  -- a relay that is hosted comes out as claimed
  have hcard : ∀ slot < 52, slot / 2 = s → ∀ v, read q (holeRelayKey slot q) = some v →
      verifyClaimCard t.size PRIME read s slot (decimal (t.cardAt slot)) (beVal (t.claim s).invExp) = .ok () := by
    intro slot hslot hown v hv
    rw [verifyClaimCard_ok hq hv, hrelay slot v hown hv, raised_encryptCard, claim, beVal_natBytes,
      raised_congr (t.cardAt_mem hslot) hmod, raised_one (t.cardAt_mem hslot)]
  cases hdata : read s (showdownClaimKey s) with
  | none =>
    simp only [pollAndVerifyClaim, hdata]
    exact .noClaim hdata
  | some data =>
    obtain rfl := hclaim data hdata
    have hdec := gobClaim.decode_encode (t.claim s)
    cases hv1 : read q (holeRelayKey (2 * s) q) with
    | none =>
      have herr := verifyClaimCard_error PRIME (beVal (t.claim s).invExp) (t.claim s).card1 hq hv1
      simp only [pollAndVerifyClaim, hdata, Option.elim_some, bind, Except.bind, hdec, hseat, ne_eq,
        not_true_eq_false, if_false, herr]
      exact .noRelay1 (show 2 * s / 2 = s by omega) hv1
    | some v1 =>
      have h1 : verifyClaimCard t.size PRIME read s (2 * s) (t.claim s).card1 (beVal (t.claim s).invExp) =
          .ok () := hcard (2 * s) (by omega) (by omega) v1 hv1
      cases hv2 : read q (holeRelayKey (2 * s + 1) q) with
      | none =>
        have herr := verifyClaimCard_error PRIME (beVal (t.claim s).invExp) (t.claim s).card2 hq hv2
        simp only [pollAndVerifyClaim, hdata, Option.elim_some, bind, Except.bind, hdec, hseat, ne_eq,
          not_true_eq_false, if_false, h1, herr]
        exact .noRelay2 (show (2 * s + 1) / 2 = s by omega) hv2
      | some v2 =>
        have h2 := hcard (2 * s + 1) (by omega) (by omega) v2 hv2
        obtain ⟨cards, hcards, hbest⟩ := hholds
        have htexts : ((t.slots s).map fun k => decimal (t.cardAt k)) =
            [(t.claim s).card1, (t.claim s).card2] ++ t.boardTexts := by
          rw [slots, boardTexts, List.map_cons, List.map_cons, List.map_map]
          rfl
        rw [htexts, List.map_append] at hcards
        rw [pollAndVerifyClaim_ok (cards.take 2) (cards.drop 2) hdata hdec hseat h1 h2 ?_ ?_ ?_]
        · exact .shown
        · have := congrArg (List.take 2) hcards
          rwa [← List.map_take] at this
        · have := congrArg (List.drop 2) hcards
          rw [t.boardTexts_filter]
          rwa [← List.map_drop] at this
        · rwa [List.take_append_drop]

end Check

end P2Poker.Peer

namespace P2Poker.Game

/- `Replay` stops where the hand is over. -/
theorem Replay.foldl_of_over {r : Replay} (h : r.state.handOver = true) (es : List Entry) :
    es.foldl Replay.step r = r := by
  induction es with
  | nil => rfl
  | cons e es ih => rw [List.foldl_cons, Replay.step_of_over h, ih]

theorem Log.state_of_prefix {n : UInt8} {stack : UInt64} {es es' : List Entry} (hpre : es <+: es')
    (hover : (⟨es, n, stack⟩ : Log).state.handOver = true) :
    (⟨es', n, stack⟩ : Log).state = (⟨es, n, stack⟩ : Log).state := by
  obtain ⟨rest, rfl⟩ := hpre
  rw [Log.state_eq, Log.state_eq, Log.replayed, Log.replayed, Replay.run, List.foldl_append]
  exact congrArg Replay.state (Replay.foldl_of_over hover rest)

end P2Poker.Game

namespace P2Poker.Hand
open P2Poker.Lib P2Poker.Crypto P2Poker.Game P2Poker.Ephemeral P2Poker.Cards

/-- How a hand ends in a state, when the seats hold these hands. -/
def outcome (n : ℕ) (hand : ℕ → HandRank) (state : State) : Place :=
  if state.numNonFolded ≤ 1 then .uncontested (uncontestedWinner state.folded)
  else .showdown state.folded (.returned (.ok ⟨Peer.bestSeats hand (Peer.stillIn n state.folded),
    (Peer.stillIn n state.folded).map fun s => ⟨s, hand s⟩⟩))

/-! ### What the places of the end are entered with -/

section Cases
variable {c : Primitives} {u : Seat c} {h h' : Play}

theorem Play.back_cases {k : Peer.Call} (hs : h.back k = some h') :
    (∃ err, h.node.phase = .failed err) ∨ h' = h.call .dealHoleCards ∨ h' = { h with place := .loop } := by
  unfold Play.back at hs
  split at hs
  · exact .inl ⟨_, ‹_›⟩
  · split at hs
    · exact .inr (.inl (Option.some.inj hs).symm)
    · exact .inr (.inr (Option.some.inj hs).symm)
  · cases hs

/- A seat that is in hosts its claim when it goes to the showdown. -/
def Play.shows (u : Seat c) (h : Play) : Play :=
  let folded := h.runner.log.state.folded
  { h with
    node := if folded[u.idx]? = some false then Peer.publishShowdownClaim u.claimGob u.deal h.node else h.node
    place := .showdown folded (Peer.awaitClaims (Peer.stillIn u.table.size folded) []) }

theorem Play.head_cases (hlen : h.runner.log.state.folded.length = u.table.size) (hs : h.head u = some h') :
    (h.runner.log.state.handOver = true ∧ h.runner.log.state.numNonFolded ≤ 1 ∧
        h' = { h with place := .uncontested (uncontestedWinner h.runner.log.state.folded) }) ∨
      (h.runner.log.state.handOver = true ∧ ¬ h.runner.log.state.numNonFolded ≤ 1 ∧ h' = h.shows u) ∨
      ∃ r, h' = { h with runner := r, place := .round h.runner.log.state.street } := by
  unfold Play.head at hs
  dsimp only at hs
  split_ifs at hs with hover
  · obtain rfl := Option.some.inj hs
    unfold finishHand
    split_ifs with hone
    · exact .inl ⟨hover, hone, rfl⟩
    · refine .inr (.inl ⟨hover, hone, ?_⟩)
      have hidx := u.idx_lt
      rw [runShowdown, if_neg (by omega)]
      dsimp only
      rw [if_neg (show ¬ h.runner.log.state.folded.length < u.table.size by omega)]
      rfl
  · obtain ⟨r, _, rfl⟩ := Option.map_eq_some_iff.mp hs
    exact .inr (.inr ⟨r, rfl⟩)

theorem Play.settle_cases {street : Street} (hs : h.settle street = some h') :
    (h.runner.phase = .failed ∧ ∃ err, h' = { h with place := .failed err }) ∨ h' = { h with place := .loop } ∨
      ∃ k, h' = h.call k := by
  unfold Play.settle at hs
  split at hs
  · dsimp only at hs
    split_ifs at hs
    · exact .inr (.inl (Option.some.inj hs).symm)
    · split at hs
      · exact .inr (.inl (Option.some.inj hs).symm)
      · exact .inr (.inr ⟨_, (Option.some.inj hs).symm⟩)
  · exact .inl ⟨‹_›, _, (Option.some.inj hs).symm⟩
  · cases hs

/-! ### What the places of the end say -/

def PlaceSays (u : Seat c) (hand : ℕ → HandRank) (h : Play) : Place → Prop
  | .showdown folded stage =>
    folded = h.runner.log.state.folded ∧ h.runner.log.state.handOver = true ∧
      ¬ h.runner.log.state.numNonFolded ≤ 1 ∧
      (folded[u.idx]? = some false → (h.node.store.get (showdownClaimKey u.idx)).isSome = true) ∧
      ∃ seen waiting : List ℕ, (seen ++ waiting).Perm (Peer.stillIn u.table.size folded) ∧
        stage = Peer.awaitClaims waiting (seen.map fun s => ⟨s, hand s⟩)
  | .uncontested winner =>
    h.runner.log.state.handOver = true ∧ h.runner.log.state.numNonFolded ≤ 1 ∧
      winner = uncontestedWinner h.runner.log.state.folded
  | .failed _ => h.runner.phase = .failed
  | _ => True

/-- A seat hosts a claim from the showdown on, and it shows the node's two cards. -/
structure Says (u : Seat c) (hand : ℕ → HandRank) (h : Play) : Prop where
  place : PlaceSays u hand h h.place
  claim : ∀ data, h.node.store.get (showdownClaimKey u.idx) = some data →
    (∃ folded stage, h.place = .showdown folded stage) ∧ data = u.claimGob.encode
      ⟨UInt8.ofNat u.idx, h.node.card1, h.node.card2, natBytes u.modKey.inverseExponent⟩

variable {hand : ℕ → HandRank}

/- No claim is hosted outside the showdown. -/
theorem Says.no_claim (hs : Says u hand h) (hp : ∀ folded stage, h.place ≠ .showdown folded stage) :
    h.node.store.get (showdownClaimKey u.idx) = none := by
  cases hget : h.node.store.get (showdownClaimKey u.idx) with
  | none => rfl
  | some data =>
    obtain ⟨⟨folded, stage, hplace⟩, _⟩ := hs.claim data hget
    exact absurd hplace (hp folded stage)

/- A place that says nothing, with the store as it was. -/
theorem Says.enter {place : Place} (hs : Says u hand h) (hp : ∀ folded stage, h.place ≠ .showdown folded stage)
    (hstore : h'.node.store = h.node.store) (hplace : h'.place = place) (hsaid : PlaceSays u hand h' place) :
    Says u hand h' := by
  subst hplace
  refine ⟨hsaid, fun data hdata => ?_⟩
  rw [hstore, hs.no_claim hp] at hdata
  cases hdata

theorem puts_not_claim {r : Peer.Node Bytes} {v : Peer.Setup Deck.Key} {i : Peer.Input} {s : ℕ} :
    showdownClaimKey s ∉ r.puts v i := by
  obtain ⟨hstep, hhole, hrelay, hcard⟩ := Peer.Node.offDeal_showdownClaim s
  intro hmem
  cases i with
  | shuffle => exact hstep _ (List.mem_singleton.mp hmem)
  | stripSlot slot =>
    simp only [Peer.Node.puts] at hmem
    split_ifs at hmem
    · cases hmem
    · exact hhole _ _ (List.mem_singleton.mp hmem)
  | stripCard =>
    simp only [Peer.Node.puts] at hmem
    split at hmem
    · rcases List.mem_cons.mp hmem with heq | hmem
      · exact hrelay _ _ heq
      · split_ifs at hmem
        · exact hcard _ (List.mem_singleton.mp hmem)
        · cases hmem
    · cases hmem
  | _ => cases hmem

theorem Says.enter_showdown (hs : Says u hand h) (hp : h.place = .loop)
    (hover : h.runner.log.state.handOver = true) (hmany : ¬ h.runner.log.state.numNonFolded ≤ 1) :
    Says u hand (h.shows u) := by
  have hnone := hs.no_claim (by simp [hp])
  by_cases hin : h.runner.log.state.folded[u.idx]? = some false
  · have hnode : (h.shows u).node = Peer.publishShowdownClaim u.claimGob u.deal h.node := if_pos hin
    have hget : (h.shows u).node.store.get (showdownClaimKey u.idx) = some (u.claimGob.encode
        ⟨UInt8.ofNat u.idx, h.node.card1, h.node.card2, natBytes u.modKey.inverseExponent⟩) := by
      rw [hnode]
      exact if_pos rfl
    refine ⟨⟨rfl, hover, hmany, fun _ => by rw [hget]; rfl, [], _, List.Perm.refl _, rfl⟩, ?_⟩
    intro data hdata
    refine ⟨⟨_, _, rfl⟩, ?_⟩
    rw [hnode]
    exact Option.some.inj (hdata.symm.trans hget)
  · have hnode : (h.shows u).node = h.node := if_neg hin
    refine ⟨⟨rfl, hover, hmany, fun h => absurd h hin, [], _, List.Perm.refl _, rfl⟩, ?_⟩
    intro data hdata
    rw [hnode, hnone] at hdata
    cases hdata

/- The check of a seat's claim has come back with its hand. -/
def Play.checked (h : Play) (folded : List Bool) (waiting : List ℕ) (claims : List Peer.VerifiedClaim)
    (vc : Peer.VerifiedClaim) : Play :=
  { h with place := .showdown folded (Peer.awaitClaims (waiting.erase vc.seat) (claims ++ [vc])) }

theorem Says.claimed {folded : List Bool} {waiting : List ℕ} {claims : List Peer.VerifiedClaim} {seat : ℕ}
    (hs : Says u hand h) (hp : h.place = .showdown folded (.polling waiting claims)) (hmem : seat ∈ waiting) :
    Says u hand (h.checked folded waiting claims ⟨seat, hand seat⟩) := by
  have hplace := hs.place
  rw [hp] at hplace
  obtain ⟨hfolded, hover, hmany, hhosts, seen, waiting', hperm, hst⟩ := hplace
  obtain ⟨rfl, rfl⟩ := Peer.awaitClaims_eq_polling hst.symm
  refine ⟨⟨hfolded, hover, hmany, hhosts, seen ++ [seat], waiting'.erase seat, ?_, ?_⟩, ?_⟩
  · rw [List.append_assoc, List.singleton_append]
    exact ((List.perm_cons_erase hmem).symm.append_left seen).trans hperm
  · rw [List.map_append]
    rfl
  · exact fun data hdata => ⟨⟨_, _, rfl⟩, (hs.claim data hdata).2⟩

/-- What a seat says is kept by its steps, if the deal does not fail and a claim
that is checked shows the seat's hand. -/
theorem Says.step {e : Event} (hs : Says u hand h) (hstep : h.step u e = some h')
    (halive : ∀ err, h.node.phase ≠ .failed err)
    (hlen : h.runner.log.state.folded.length = u.table.size)
    (hclaim : ∀ seat read folded waiting claims, e = .claim seat read →
      h.place = .showdown folded (.polling waiting claims) → seat ∈ waiting →
      h.claim u read folded waiting claims seat = some h' →
      h' = h.checked folded waiting claims ⟨seat, hand seat⟩) :
    Says u hand h' := by
  cases e with
  | gameStart =>
    simp only [Play.step] at hstep
    split at hstep
    · obtain rfl := Option.some.inj hstep
      exact hs.enter (by simp [*]) rfl rfl trivial
    · cases hstep
  | deal i read =>
    simp only [Play.step] at hstep
    split at hstep
    · rename_i hp
      obtain ⟨r, hr, rfl⟩ := Option.map_eq_some_iff.mp hstep
      refine ⟨by rw [hp]; trivial, fun data hdata => ?_⟩
      have hnone := hs.no_claim (by simp [hp])
      rcases Peer.Node.of_step hr (Option.isSome_of_eq_some hdata) with hold | hput
      · rw [hnone] at hold
        cases hold
      · exact absurd hput puts_not_claim
    · cases hstep
  | back =>
    simp only [Play.step] at hstep
    split at hstep
    · rename_i hp
      have hne : ∀ folded stage, h.place ≠ .showdown folded stage := by simp [hp]
      rcases Play.back_cases hstep with ⟨err, hfail⟩ | rfl | rfl
      · exact absurd hfail (halive err)
      · exact hs.enter hne rfl rfl trivial
      · exact hs.enter hne rfl rfl trivial
    · cases hstep
  | head =>
    simp only [Play.step] at hstep
    split at hstep
    · rename_i hp
      have hne : ∀ folded stage, h.place ≠ .showdown folded stage := by simp [hp]
      rcases Play.head_cases hlen hstep with ⟨hover, hone, rfl⟩ | ⟨hover, hmany, rfl⟩ | ⟨r, rfl⟩
      · exact hs.enter hne rfl rfl ⟨hover, hone, rfl⟩
      · exact hs.enter_showdown hp hover hmany
      · exact hs.enter hne rfl rfl trivial
    · cases hstep
  | submit a =>
    obtain ⟨r, hr, rfl⟩ := Option.map_eq_some_iff.mp hstep
    obtain ⟨_, _, _, rfl⟩ := Round.Runner.submitAction_spec hr
    exact ⟨hs.place, hs.claim⟩
  | round i =>
    simp only [Play.step] at hstep
    split at hstep
    · rename_i hp
      split_ifs at hstep
      obtain ⟨r, _, rfl⟩ := Option.map_eq_some_iff.mp hstep
      exact hs.enter (by simp [hp]) rfl rfl (by rw [hp]; trivial)
    · cases hstep
  | settle =>
    simp only [Play.step] at hstep
    split at hstep
    · rename_i hp
      have hne : ∀ folded stage, h.place ≠ .showdown folded stage := by simp [hp]
      rcases Play.settle_cases hstep with ⟨hfail, err, rfl⟩ | rfl | ⟨k, rfl⟩
      · exact hs.enter hne rfl rfl hfail
      · exact hs.enter hne rfl rfl trivial
      · exact hs.enter hne rfl rfl trivial
    · cases hstep
  | claim seat read =>
    simp only [Play.step] at hstep
    split at hstep
    · rename_i hp
      split_ifs at hstep with hmem
      rw [hclaim seat read _ _ _ rfl hp hmem hstep]
      exact hs.claimed hp hmem
    · cases hstep

end Cases

section Table
variable {c : Primitives} {p : Party c} {σ σ' : Room} {x : ℕ × Event} {hand : ℕ → HandRank}
  {ok : Room → ℕ × Event → Prop} {es : List (ℕ × Event)}

/- What a seat hosts of the deal is seen in the deal. -/
theorem deals_get {q : ℕ} (name : KeyName) (hname : name.key ≠ showdownClaimKey q) :
    (σ.deals q).store.get name.key = σ.read q name.key := if_neg hname

theorem fetch_eq (σ : Room) {s : ℕ} (hs : s < p.table.size) :
    (σ.plays s).fetch (p.seat s hs) σ.read = σ.read := by
  funext q key
  unfold Play.fetch
  split_ifs with hq
  · rw [hq]
    rfl
  · rfl

/- A seat at the showdown has made all calls, and all have returned. -/
theorem finished_of_showdown (ht : Trace p.step ok p.start es σ) {s : ℕ} (hs : s < p.table.size)
    {folded : List Bool} {stage : Peer.ShowStage} (hp : (σ.plays s).place = .showdown folded stage) :
    (σ.deals s).Finished := by
  obtain ⟨hi, hr⟩ := Party.inv ht hs
  obtain ⟨hidle, htodo⟩ := hr.node (by rw [hp]; rfl)
  have hplace := hi.place
  rw [hp] at hplace
  refine ⟨hidle, ?_⟩
  show (σ.plays s).node.todo ++ Peer.hand.drop (σ.plays s).calls.length = []
  rw [htodo, hplace.1]
  rfl

variable (hn : 2 ≤ p.table.size) (hcap : 2 * p.table.size + 5 ≤ 52)
  (hkey : ∀ s < p.table.size, Deck.Generates Peer.PRIME (p.modKey s)) (ht : Trace p.step ok p.start es σ)
include hn hcap ht

theorem deals_inv (s : ℕ) : Peer.NodeInv (Peer.wire Peer.PRIME p.deckGob) p.cards s (σ.deals s) :=
  Peer.NodeInv.reaches hn hcap (Peer.wire_lawful p.deckGob).isEmpty_empty
    (Peer.wire_lawful p.deckGob).decode_encode (deals_reaches ht) s

/- A node at the showdown has the relays it should host itself. -/
theorem hosts_own_relay {s v slot : ℕ} (hv : v < p.table.size) {folded : List Bool} {stage : Peer.ShowStage}
    (hp : (σ.plays v).place = .showdown folded stage) (hs : s < p.table.size) (hslot : slot / 2 = s)
    (hq : (Peer.nonOwnerRing p.table.size s).getLast? = some v) : σ.read v (holeRelayKey slot v) ≠ none := by
  have hmem : v ∈ p.cards.ring slot := by
    rw [Peer.Table.ring, hslot]
    exact List.mem_of_getLast? hq
  have hlt : slot < p.table.size * 2 := by omega
  have hhosts := (deals_inv hn hcap ht v).hosts_of_finished hv (finished_of_showdown ht hv hp)
    (Peer.Task.holeRelay hmem hlt)
  rw [Peer.Node.Hosts, deals_get (.holeRelay slot v)
    fun h => (Peer.Node.offDeal_showdownClaim v).2.1 _ _ h.symm] at hhosts
  intro hnone
  rw [show σ.read v (KeyName.holeRelay slot v).key = none from hnone] at hhosts
  cases hhosts

include hkey

/-- A claim that is checked at a table of honest nodes shows the hand that lies
in the deck, or is not there yet. -/
theorem checks_at_table (hholds : ∀ s < p.table.size, p.cards.Holds s (hand s))
    (hsaid : ∀ s (hs : s < p.table.size), Says (p.seat s hs) hand (σ.plays s)) {s q : ℕ} (hs : s < p.table.size)
    (hq : (Peer.nonOwnerRing p.table.size s).getLast? = some q) :
    Peer.Checks σ.read s q (hand s) (Peer.pollAndVerifyClaim p.table.size Peer.PRIME σ.read p.claimGob
      p.cards.boardTexts s) := by
  refine (hholds s hs).checks hcap hkey hs hq ?_ ?_
  · intro data hdata
    obtain ⟨⟨folded, stage, hp⟩, hval⟩ := (hsaid s hs).claim data hdata
    obtain ⟨hcard1, hcard2⟩ := (deals_inv hn hcap ht s).cards_of_finished hcap hkey hs
      (finished_of_showdown ht hs hp)
    have h1 : (σ.plays s).node.card1 = _ := hcard1
    have h2 : (σ.plays s).node.card2 = _ := hcard2
    rw [hval, h1, h2]
    rfl
  · intro slot v hslot hv
    refine Peer.NodeInv.last_relay hn hcap hkey hs hslot hq (deals_inv hn hcap ht q) ?_
    rw [← hv]
    exact deals_get (.holeRelay slot q) fun h => (Peer.Node.offDeal_showdownClaim q).2.1 _ _ h.symm

theorem claim_at_table (hholds : ∀ s < p.table.size, p.cards.Holds s (hand s))
    (hsaid : ∀ s (hs : s < p.table.size), Says (p.seat s hs) hand (σ.plays s)) {v seat : ℕ}
    (hv : v < p.table.size) {folded : List Bool} {waiting : List ℕ} {claims : List Peer.VerifiedClaim} {h' : Play}
    (hp : (σ.plays v).place = .showdown folded (.polling waiting claims)) (hmem : seat ∈ waiting)
    (hs : (σ.plays v).claim (p.seat v hv) σ.read folded waiting claims seat = some h') :
    h' = (σ.plays v).checked folded waiting claims ⟨seat, hand seat⟩ := by
  have hplace := (hsaid v hv).place
  rw [hp] at hplace
  obtain ⟨_, _, _, hown, seen, waiting', hperm, hst⟩ := hplace
  obtain ⟨rfl, rfl⟩ := Peer.awaitClaims_eq_polling hst.symm
  obtain ⟨hseat, hin⟩ := Peer.mem_stillIn.mp (hperm.mem_iff.mp (List.mem_append_right _ hmem))
  obtain ⟨q, hq⟩ : ∃ q, (Peer.nonOwnerRing p.table.size seat).getLast? = some q :=
    ⟨_, List.getLast?_eq_some_getLast (Peer.nonOwnerRing_ne_nil hn seat)⟩
  have hboard : (σ.plays v).node.communityCards = p.cards.boardTexts := by
    have h := (deals_inv hn hcap ht v).board_of_finished hcap hkey (finished_of_showdown ht hv hp)
    rw [List.map_map] at h
    exact h
  have hrelay : ∀ slot, slot / 2 = seat → (Peer.nonOwnerRing p.table.size seat).getLast? = some v →
      σ.read q (holeRelayKey slot q) ≠ none := by
    intro slot hslot hlast
    obtain rfl := Option.some.inj (hq.symm.trans hlast)
    exact hosts_own_relay hn hcap ht hv hp hseat hslot hq
  have hcheck := checks_at_table hn hcap hkey ht hholds hsaid hseat hq
  unfold Play.claim at hs
  dsimp only at hs
  rw [fetch_eq, hboard] at hs
  generalize hres : Peer.pollAndVerifyClaim p.table.size Peer.PRIME σ.read p.claimGob p.cards.boardTexts seat = res
    at hcheck
  have hres' : Peer.pollAndVerifyClaim (p.seat v hv).table.size Peer.PRIME σ.read (p.seat v hv).claimGob
    p.cards.boardTexts seat = res := hres
  rw [hres'] at hs
  -- a key that is missing is polled again unless the node should host it itself
  cases hcheck with
  | shown => exact (Option.some.inj hs).symm
  | noClaim hnone =>
    dsimp only at hs
    split_ifs at hs with hself
    obtain rfl : seat = v := hself
    have hsome : (σ.read seat (showdownClaimKey seat)).isSome = true := hown hin
    rw [hnone] at hsome
    cases hsome
  | noRelay1 hslot hnone =>
    dsimp only at hs
    split_ifs at hs with hlast
    exact absurd hnone (hrelay _ hslot hlast)
  | noRelay2 hslot hnone =>
    dsimp only at hs
    split_ifs at hs with hlast
    exact absurd hnone (hrelay _ hslot hlast)

theorem says_at_table (hholds : ∀ s < p.table.size, p.cards.Holds s (hand s)) :
    ∀ s (hs : s < p.table.size), Says (p.seat s hs) hand (σ.plays s) := by
  induction ht with
  | nil => exact fun s hs => ⟨trivial, fun data hdata => by cases hdata⟩
  | @snoc es σ σ' x ht _ hstep ih =>
    obtain ⟨hx, e, h, he, hh, rfl⟩ := Party.step_eq hstep
    intro s hs
    dsimp only
    rcases eq_or_ne s x.1 with rfl | hne
    · rw [Function.update_self]
      refine (ih x.1 hs).step hh ?_ ?_ ?_
      · intro err hfail
        have hphase := (deals_inv hn hcap ht x.1).phase
        rw [show (σ.deals x.1).phase = .failed err from hfail] at hphase
        exact hphase
      · rw [(σ.plays x.1).runner.log.state_shaped.folded, (Party.inv ht hx).1.seats]
        exact p.table.numPlayers_toNat
      · intro seat read folded waiting claims hev hp hmem hclaim
        subst hev
        obtain rfl := answer_claim he
        exact claim_at_table hn hcap hkey ht hholds ih hx hp hmem hclaim
    · rw [Function.update_of_ne hne]
      exact ih s hs

end Table

section Agreement
variable {c : Primitives} {p : Party c} {σ : Room} {hand : ℕ → HandRank}

theorem Says.ended {u : Seat c} {h : Play} (hs : Says u hand h) (hfull : ∀ s < u.table.size, (hand s).Full)
    (hend : h.place.ended = true) :
    h.runner.log.state.handOver = true ∧ h.place = outcome u.table.size hand h.runner.log.state := by
  have hplace := hs.place
  cases hp : h.place with
  | showdown folded stage =>
    rw [hp] at hend hplace
    obtain ⟨rfl, hover, hmany, _, seen, waiting, hperm, hst⟩ := hplace
    refine ⟨hover, ?_⟩
    rw [hst, Peer.awaitClaims] at hend ⊢
    split_ifs at hend ⊢ with hw
    · rw [hw, List.append_nil] at hperm
      rw [outcome, if_neg hmany, Peer.pickWinners_seen hperm hfull]
    · cases hend
  | uncontested w =>
    rw [hp] at hplace
    obtain ⟨hover, hone, rfl⟩ := hplace
    exact ⟨hover, (if_pos hone).symm⟩
  | _ =>
    rw [hp] at hend
    cases hend

/- Two seats whose hand is over have come to the same state. -/
theorem state_agrees {es : List (ℕ × Event)}
    (ht : Trace p.step (p.Under (Round.VerifierRemains p.table)) p.start es σ) {s s' : ℕ}
    (hs : s < p.table.size) (hs' : s' < p.table.size)
    (hrest : (σ.plays s).runner.phase = .idle) (hrest' : (σ.plays s').runner.phase = .idle)
    (hover : (σ.plays s).runner.log.state.handOver = true)
    (hover' : (σ.plays s').runner.log.state.handOver = true) :
    (σ.plays s).runner.log.state = (σ.plays s').runner.log.state := by
  obtain ⟨G, prop, hi⟩ := Round.Inv.reaches p.table (runners_reaches ht)
  have hlog : ∀ q, q < p.table.size → (σ.plays q).runner.phase = .idle →
      (σ.plays q).runner.log = p.table.logAt (G.take (σ.plays q).runner.rounds) := by
    intro q hq hidle
    have hnode := hi.node q hq
    have hphase := hnode.phase
    rw [show (σ.runners q).phase = .idle from hidle] at hphase
    have hn : (σ.plays q).runner.log.numPlayers = _ := hnode.numPlayers
    have hst : (σ.plays q).runner.log.startingStack = _ := hnode.startingStack
    have hes : (σ.plays q).runner.log.entries = _ := hphase
    rw [Round.Table.logAt, ← hn, ← hst]
    exact congrArg (fun es => (⟨es, _, _⟩ : Log)) hes
  rw [hlog s hs hrest] at hover ⊢
  rw [hlog s' hs' hrest'] at hover' ⊢
  -- the shorter log is cut from the longer one
  rcases le_total (σ.plays s).runner.rounds (σ.plays s').runner.rounds with hle | hle
  · exact (Log.state_of_prefix (List.take_prefix_take_left hle) hover).symm
  · exact Log.state_of_prefix (List.take_prefix_take_left hle) hover'

/-- What the seats that are done report, and why one may have failed. -/
structure Party.Ends (p : Party c) (hand : ℕ → HandRank) (σ : Room) : Prop where
  isOver : ∀ s < p.table.size, (σ.plays s).place.ended = true → (σ.plays s).runner.log.state.handOver = true
  result : ∀ s < p.table.size, (σ.plays s).place.ended = true →
    (σ.plays s).place = outcome p.table.size hand (σ.plays s).runner.log.state
  agree : ∀ s < p.table.size, ∀ s' < p.table.size, (σ.plays s).place.ended = true →
    (σ.plays s').place.ended = true → (σ.plays s).place = (σ.plays s').place
  failed : ∀ s < p.table.size, ∀ err, (σ.plays s).place = .failed err → (σ.plays s).runner.phase = .failed
  panicked : ∀ s < p.table.size, ∀ folded, (σ.plays s).place ≠ .showdown folded .panicked

theorem Place.runnerRests_of_ended {place : Place} (h : place.ended = true) : place.runnerRests = true := by
  cases place <;> first | rfl | cases h

end Agreement

/-- In every run of a hand among honest nodes, those that come to its end report
one result: the seat that is left, or the seats with the best of the hands that
lie in the deck. A node fails in a round or not at all. -/
theorem one_outcome (c : Primitives) (p : Party c) (hn : 2 ≤ p.table.size) (hcap : 2 * p.table.size + 5 ≤ 52)
    (hkey : ∀ s < p.table.size, Deck.Generates Peer.PRIME (p.modKey s)) :
    ∃ hand : ℕ → HandRank, (∀ s < p.table.size, p.cards.Holds s (hand s)) ∧
      ∀ es σ, Trace p.step (p.Under (Round.VerifierRemains p.table)) p.start es σ → p.Ends hand σ := by
  have hex : ∀ s, s < p.table.size → ∃ h, p.cards.Holds s h ∧ h.Full :=
    fun s hs => Peer.Table.exists_holds (t := p.cards) hn hcap hkey hs
  have : Nonempty HandRank := ⟨rank5 []⟩
  choose! hand hholds hfull using hex
  refine ⟨hand, hholds, fun es σ ht => ?_⟩
  have hsaid := says_at_table hn hcap hkey ht hholds
  have hended : ∀ s, s < p.table.size → (σ.plays s).place.ended = true →
      (σ.plays s).runner.log.state.handOver = true ∧
        (σ.plays s).place = outcome p.table.size hand (σ.plays s).runner.log.state :=
    fun s hs hend => (hsaid s hs).ended hfull hend
  refine ⟨fun s hs hend => (hended s hs hend).1, fun s hs hend => (hended s hs hend).2, ?_, ?_, ?_⟩
  · intro s hs s' hs' hend hend'
    have hidle := (Party.inv ht hs).2.runner (Place.runnerRests_of_ended hend)
    have hidle' := (Party.inv ht hs').2.runner (Place.runnerRests_of_ended hend')
    rw [(hended s hs hend).2, (hended s' hs' hend').2,
      state_agrees ht hs hs' hidle hidle' (hended s hs hend).1 (hended s' hs' hend').1]
  · intro s hs err hp
    have hplace := (hsaid s hs).place
    rw [hp] at hplace
    exact hplace
  · intro s hs folded hp
    have hplace := (hsaid s hs).place
    rw [hp] at hplace
    obtain ⟨_, _, _, _, seen, waiting, _, hst⟩ := hplace
    rw [Peer.awaitClaims] at hst
    split_ifs at hst

/- Seat 0 has folded, and both nodes have come to the end. -/
theorem one_outcome_after_fold : ∃ hand σ, twoNodes.Ends hand σ ∧
    ∀ s < 2, (σ.plays s).place.ended = true := by
  obtain ⟨hand, _, hends⟩ := one_outcome _ twoNodes (by decide) (by decide) fun _ _ => Peer.generates_three
  exact ⟨hand, _, hends _ _ zeroFolds_under, by decide +kernel⟩

end P2Poker.Hand
