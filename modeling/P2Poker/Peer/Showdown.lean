import P2Poker.Peer.Progress
import P2Poker.Cards.Eval

/-!
# Showdown claims (internal/peer/showdown.go)

A claimant publishes its two cards and an exponent. A verifier raises the last
hole relays, which are still under the claimant's layer, to that exponent and
compares. Any exponent is accepted, so what binds the claimant is only that few
exponents take both of its cards to texts that are read as cards.
-/

namespace P2Poker.Peer
open P2Poker.Lib P2Poker.Crypto P2Poker.Ephemeral P2Poker.Cards

structure ShowdownClaim where
  seat : UInt8
  card1 : Bytes
  card2 : Bytes
  invExp : Bytes
  deriving DecidableEq

structure VerifiedClaim where
  seat : ℕ
  hand : HandRank

inductive CardClaimError where
  -- "empty ring for slot %d"
  | emptyRing (slot : ℕ)
  -- "fetch hole relay"
  | fetchRelay
  -- "mismatch: got %q, claimed %q"
  | mismatch (got claimed : Bytes)

inductive ClaimError where
  -- "fetch claim"
  | fetchClaim
  -- "decode claim"
  | decodeClaim
  -- "seat mismatch: got %d, want %d"
  | seatMismatch (got : UInt8) (want : ℕ)
  -- "verify card1", "verify card2"
  | verifyCard1 (err : CardClaimError)
  | verifyCard2 (err : CardClaimError)
  -- "parse hole %q"
  | parseHole (s : Bytes) (err : CardError)
  -- "parse community %q"
  | parseCommunity (s : Bytes) (err : CardError)
  -- "hand eval"
  | handEval (err : BestError)

section Verify
variable (numPlayers prime : ℕ) (fetch : ℕ → Key → Option Bytes)

def verifyClaimCard (ownerSeat slot : ℕ) (claimed : Bytes) (invExp : ℕ) : Except CardClaimError Unit :=
  match (nonOwnerRing numPlayers ownerSeat).getLast? with
  | none => .error (.emptyRing slot)
  | some lastStripper =>
    match fetch lastStripper (holeRelayKey slot lastStripper) with
    | none => .error .fetchRelay
    | some data =>
      let got := natBytes (Deck.exp (beVal data) invExp prime)
      if got ≠ claimed then .error (.mismatch got claimed) else .ok ()

def parseCards (err : Bytes → CardError → ClaimError) (texts : List Bytes) :
    Except ClaimError (List Card) :=
  texts.mapM fun s => (parseDeckString s).mapError (err s)

/-- A node with this board polls and checks the claim of a seat. -/
def pollAndVerifyClaim (gob : Codec ShowdownClaim) (community : List Bytes) (seat : ℕ) :
    Except ClaimError VerifiedClaim := do
  let data ← (fetch seat (showdownClaimKey seat)).elim (.error .fetchClaim) .ok
  let claim ← (gob.decode data).elim (.error .decodeClaim) .ok
  if claim.seat.toNat ≠ seat then .error (.seatMismatch claim.seat seat)
  let invExp := beVal claim.invExp
  (verifyClaimCard numPlayers prime fetch seat (2 * seat) claim.card1 invExp).mapError .verifyCard1
  (verifyClaimCard numPlayers prime fetch seat (2 * seat + 1) claim.card2 invExp).mapError .verifyCard2
  let hole ← parseCards .parseHole [claim.card1, claim.card2]
  let board ← parseCards .parseCommunity (community.filter fun s => s ≠ [])
  let hand ← (best (hole ++ board)).mapError .handEval
  return ⟨seat, hand⟩

end Verify

/-! ### Which claims are accepted -/

section Accept
variable {α β ε ε' : Type}

theorem bind_ok {x : Except ε α} {f : α → Except ε β} {b : β} :
    x >>= f = .ok b ↔ ∃ a, x = .ok a ∧ f a = .ok b := by
  cases x with
  | error e => simp [bind, Except.bind]
  | ok a => simp [bind, Except.bind]

theorem mapError_ok {x : Except ε α} {f : ε → ε'} {a : α} : x.mapError f = .ok a ↔ x = .ok a := by
  cases x <;> simp [Except.mapError]

theorem elim_ok {x : Option α} {e : ε} {a : α} : x.elim (.error e) (Except.ok (ε := ε)) = .ok a ↔ x = some a := by
  cases x <;> simp

theorem parseCards_ok {err : Bytes → CardError → ClaimError} {texts : List Bytes} {cards : List Card} :
    parseCards err texts = .ok cards ↔ texts.map parseDeckString = cards.map Except.ok := by
  unfold parseCards
  induction texts generalizing cards with
  | nil =>
    cases cards <;> simp [pure, Except.pure]
  | cons s texts ih =>
    rw [List.mapM_cons, bind_ok]
    constructor
    · rintro ⟨c, hc, hrest⟩
      rw [mapError_ok] at hc
      obtain ⟨cs, hcs, hret⟩ := bind_ok.mp hrest
      obtain rfl := Except.ok.inj hret
      rw [List.map_cons, List.map_cons, hc, ih.mp hcs]
    · intro h
      cases cards with
      | nil => cases h
      | cons c cs =>
        rw [List.map_cons, List.map_cons, List.cons.injEq] at h
        exact ⟨c, mapError_ok.mpr h.1, bind_ok.mpr ⟨cs, ih.mpr h.2, rfl⟩⟩

end Accept

theorem pollAndVerifyClaim_ok {n p seat : ℕ} {fetch : ℕ → Key → Option Bytes}
    {gob : Codec ShowdownClaim} {community : List Bytes} {data : Bytes} {claim : ShowdownClaim}
    (hole board : List Card) {hand : HandRank} (hdata : fetch seat (showdownClaimKey seat) = some data)
    (hclaim : gob.decode data = some claim) (hseat : claim.seat.toNat = seat)
    (h1 : verifyClaimCard n p fetch seat (2 * seat) claim.card1 (beVal claim.invExp) = .ok ())
    (h2 : verifyClaimCard n p fetch seat (2 * seat + 1) claim.card2 (beVal claim.invExp) = .ok ())
    (hhole : [claim.card1, claim.card2].map parseDeckString = hole.map Except.ok)
    (hboard : (community.filter fun s => s ≠ []).map parseDeckString = board.map Except.ok)
    (hhand : best (hole ++ board) = .ok hand) :
    pollAndVerifyClaim n p fetch gob community seat = .ok ⟨seat, hand⟩ := by
  unfold pollAndVerifyClaim
  refine bind_ok.mpr ⟨data, elim_ok.mpr hdata, bind_ok.mpr ⟨claim, elim_ok.mpr hclaim, ?_⟩⟩
  rw [if_neg (not_not.mpr hseat)]
  exact bind_ok.mpr ⟨(), mapError_ok.mpr h1, bind_ok.mpr ⟨(), mapError_ok.mpr h2,
    bind_ok.mpr ⟨hole, parseCards_ok.mpr hhole, bind_ok.mpr ⟨board, parseCards_ok.mpr hboard,
      bind_ok.mpr ⟨hand, mapError_ok.mpr hhand, rfl⟩⟩⟩⟩⟩

/-- A claim is accepted when both relays come out as claimed and the texts, with
the board, are read as distinct cards. -/
theorem pollAndVerifyClaim_ok_iff {n p seat : ℕ} {fetch : ℕ → Key → Option Bytes}
    {gob : Codec ShowdownClaim} {community : List Bytes} :
    (∃ vc, pollAndVerifyClaim n p fetch gob community seat = .ok vc) ↔
      ∃ data claim, fetch seat (showdownClaimKey seat) = some data ∧ gob.decode data = some claim ∧
        claim.seat.toNat = seat ∧
        verifyClaimCard n p fetch seat (2 * seat) claim.card1 (beVal claim.invExp) = .ok () ∧
        verifyClaimCard n p fetch seat (2 * seat + 1) claim.card2 (beVal claim.invExp) = .ok () ∧
        ∃ hole board : List Card, [claim.card1, claim.card2].map parseDeckString = hole.map Except.ok ∧
          (community.filter fun s => s ≠ []).map parseDeckString = board.map Except.ok ∧
          5 ≤ (hole ++ board).length ∧ (hole ++ board).length ≤ 7 ∧ (hole ++ board).Nodup := by
  constructor
  · rintro ⟨vc, h⟩
    unfold pollAndVerifyClaim at h
    obtain ⟨data, hdata, h⟩ := bind_ok.mp h
    obtain ⟨claim, hclaim, h⟩ := bind_ok.mp h
    split_ifs at h with hseat
    · obtain ⟨_, hf, _⟩ := bind_ok.mp h
      cases hf
    · obtain ⟨_, h1, h⟩ := bind_ok.mp h
      obtain ⟨_, h2, h⟩ := bind_ok.mp h
      obtain ⟨hole, hhole, h⟩ := bind_ok.mp h
      obtain ⟨board, hboard, h⟩ := bind_ok.mp h
      obtain ⟨hand, hhand, _⟩ := bind_ok.mp h
      have hbest := (best_ok_iff _).mp ⟨hand, mapError_ok.mp hhand⟩
      exact ⟨data, claim, elim_ok.mp hdata, elim_ok.mp hclaim, not_not.mp hseat, mapError_ok.mp h1,
        mapError_ok.mp h2, hole, board, parseCards_ok.mp hhole, parseCards_ok.mp hboard, hbest⟩
  · rintro ⟨data, claim, hdata, hclaim, hseat, h1, h2, hole, board, hhole, hboard, hbest⟩
    obtain ⟨hand, hhand⟩ := (best_ok_iff _).mpr hbest
    exact ⟨⟨seat, hand⟩, pollAndVerifyClaim_ok hole board hdata hclaim hseat h1 h2 hhole hboard hhand⟩

/-! ### Claims after an honest deal -/

/-- The claimant hosts these bytes as its claim. -/
def publish (net : Net Bytes) (s : ℕ) (data : Bytes) : Net Bytes :=
  Function.update net s { net s with store := (net s).store.put (showdownClaimKey s) data }

def Accepts (t : Table Deck.Key) (gob : Codec ShowdownClaim) (net : Net Bytes) (v s : ℕ) : Prop :=
  ∃ vc, pollAndVerifyClaim t.size PRIME net.read gob (net v).communityCards s = .ok vc

/-- A text raised to an exponent. -/
def raised (x : ℕ) (text : Bytes) : Bytes := natBytes (Deck.exp (beVal text) x PRIME)

def ReadAsDistinct (texts : List Bytes) : Prop :=
  ∃ cards : List Card, cards.Nodup ∧ texts.map parseDeckString = cards.map Except.ok

/-- Some exponent takes the two texts to other ones that, with the board, are
still read as distinct cards. -/
def Forgeable (text₁ text₂ : Bytes) (board : List Bytes) : Prop :=
  ∃ x < PRIME - 1, (raised x text₁ ≠ text₁ ∨ raised x text₂ ≠ text₂) ∧
    ReadAsDistinct (raised x text₁ :: raised x text₂ :: board)

theorem raised_encryptCard (text : Bytes) (k : Deck.Key) (y : ℕ) :
    raised y (Deck.encryptCard text k PRIME) = raised (k.exponent * y) text := by
  rw [raised, raised, Deck.encryptCard, beVal_natBytes, Deck.exp_exp]

theorem raised_congr {m n c : ℕ} (hc : c ∈ List.range' 1 52) (h : m ≡ n [MOD PRIME - 1]) :
    raised m (decimal c) = raised n (decimal c) := by
  have hpos : ∀ c ∈ List.range' 1 52, 0 < beVal (decimal c) ∧ beVal (decimal c) < PRIME := by
    decide +kernel
  rw [raised, raised, Deck.exp_congr (by norm_num [PRIME]) (Nat.not_dvd_of_pos_of_lt (hpos c hc).1 (hpos c hc).2) h]

theorem verifyClaimCard_ok {n q w slot y : ℕ} {fetch : ℕ → Key → Option Bytes} {data claimed : Bytes}
    (hq : (nonOwnerRing n w).getLast? = some q) (hdata : fetch q (holeRelayKey slot q) = some data) :
    verifyClaimCard n PRIME fetch w slot claimed y = .ok () ↔ claimed = raised y data := by
  simp only [verifyClaimCard, hq, hdata]
  split_ifs with h
  · simp only [false_iff]
    exact fun heq => h heq.symm
  · simp only [true_iff]
    exact (not_not.mp h).symm

section HonestDeal
variable {gob : Codec (List Bytes)} {t : Table Deck.Key} {net : Net Bytes} (hn : 2 ≤ t.size)
  (hcap : 2 * t.size + 5 ≤ 52) (hkey : ∀ s < t.size, Deck.Generates PRIME (t.key s))
  (hinv : ∀ s, NodeInv (wire PRIME gob) t s (net s)) (hfin : ∀ s < t.size, (net s).Finished)
include hn hcap hkey hinv hfin

/-- The last relay of a hole slot is the card under the owner's layer. -/
theorem relay_of_finished {s : ℕ} (hs : s < t.size) (slot : ℕ) (hslot : slot / 2 = s) :
    ∃ q, (nonOwnerRing t.size s).getLast? = some q ∧ q ≠ s ∧
      net.read q (holeRelayKey slot q) =
        some (Deck.encryptCard (decimal (t.cardAt slot)) (t.key s) PRIME) := by
  obtain ⟨q, hq⟩ : ∃ q, (nonOwnerRing t.size s).getLast? = some q :=
    ⟨_, List.getLast?_eq_some_getLast (nonOwnerRing_ne_nil hn s)⟩
  obtain ⟨hmem, hidx⟩ := idxOf_getLast hq
  obtain ⟨hqn, hqs⟩ := mem_nonOwnerRing.mp hmem
  refine ⟨q, hq, hqs, ?_⟩
  have hring : t.ring slot = nonOwnerRing t.size s := by rw [Table.ring, hslot]
  have htask : Task t q (.holeRelay slot q) := .holeRelay (hring ▸ hmem) (by omega)
  have hhosts := (hinv q).hosts_of_finished hqn (hfin q hqn) htask
  obtain ⟨v, hv⟩ := Option.isSome_iff_exists.mp hhosts
  have hval := (hinv q).stored (.holeRelay slot q) v hv
  have hall : (t.ring slot).take ((t.ring slot).idxOf q + 1) = t.ring slot := by
    rw [hring, hidx, idxOf_owner, List.take_length]
  have hperm : (List.range t.size).Perm (t.ring slot ++ [s]) := by
    rw [hring]
    exact nonOwnerRing_perm hs
  rw [Table.value, hall, (wire_lawful gob).strippedBy (fun s hs => (hkey s hs).inverse) hperm (by omega)]
    at hval
  exact hv.trans hval.symm

/-- After an honest deal, only the exponent and what it makes of the two dealt
texts decide about a claim. -/
theorem accepts_iff {gobClaim : Codec ShowdownClaim} {s v : ℕ} (hs : s < t.size) (hv : v < t.size)
    (data : Bytes) :
    Accepts t gobClaim (publish net s data) v s ↔
      ∃ claim, gobClaim.decode data = some claim ∧ claim.seat.toNat = s ∧
        claim.card1 = raised ((t.key s).exponent * beVal claim.invExp) (net s).card1 ∧
        claim.card2 = raised ((t.key s).exponent * beVal claim.invExp) (net s).card2 ∧
        ReadAsDistinct (claim.card1 :: claim.card2 :: (net v).communityCards) := by
  obtain ⟨hcard1, hcard2⟩ := (hinv s).cards_of_finished hcap hkey hs (hfin s hs)
  obtain ⟨q, hq, hqs, hrelay1⟩ := relay_of_finished hn hcap hkey hinv hfin hs (2 * s) (by omega)
  obtain ⟨q', hq', hqs', hrelay2⟩ := relay_of_finished hn hcap hkey hinv hfin hs (2 * s + 1)
    (by omega)
  -- what the verifier reads
  have hread : ∀ q ≠ s, ∀ k, (publish net s data).read q k = net.read q k := by
    intro q hqs k
    rw [Net.read, publish, Function.update_of_ne hqs]
    rfl
  have hown : (publish net s data).read s (showdownClaimKey s) = some data := by
    rw [Net.read, publish, Function.update_self]
    exact if_pos rfl
  have hcomm : ((publish net s data) v).communityCards = (net v).communityCards := by
    unfold publish
    by_cases hvs : v = s
    · rw [hvs, Function.update_self]
      rfl
    · rw [Function.update_of_ne hvs]
  have hboard : (net v).communityCards.filter (fun s => s ≠ []) = (net v).communityCards := by
    refine List.filter_eq_self.mpr fun w hw => ?_
    rw [(hinv v).board_of_finished hcap hkey (hfin v hv), List.mem_map] at hw
    obtain ⟨i, _, rfl⟩ := hw
    exact decide_eq_true (decimal_ne_nil _)
  have hlen : (net v).communityCards.length = 5 := by
    rw [(hinv v).board_of_finished hcap hkey (hfin v hv), List.length_map, List.length_map,
      List.length_range]
  rw [Accepts, hcomm, pollAndVerifyClaim_ok_iff, hown, hboard]
  have h1 : ∀ claimed y, verifyClaimCard t.size PRIME (publish net s data).read s (2 * s) claimed y =
      .ok () ↔ claimed = raised ((t.key s).exponent * y) (net s).card1 := by
    intro claimed y
    rw [verifyClaimCard_ok hq ((hread q hqs _).trans hrelay1), raised_encryptCard, hcard1]
  have h2 : ∀ claimed y, verifyClaimCard t.size PRIME (publish net s data).read s (2 * s + 1) claimed y =
      .ok () ↔ claimed = raised ((t.key s).exponent * y) (net s).card2 := by
    intro claimed y
    rw [verifyClaimCard_ok hq' ((hread q' hqs' _).trans hrelay2), raised_encryptCard, hcard2]
  simp only [h1, h2]
  constructor
  · rintro ⟨data', claim, hdata, hclaim, hseat, hc1, hc2, hole, board, hhole, hbrd, _, _, hnodup⟩
    obtain rfl := Option.some.inj hdata
    refine ⟨claim, hclaim, hseat, hc1, hc2, hole ++ board, hnodup, ?_⟩
    rw [List.map_append, ← hhole, ← hbrd]
    rfl
  · rintro ⟨claim, hclaim, hseat, hc1, hc2, cards, hnodup, hcards⟩
    have hcl : cards.length = 7 := by
      have := congrArg List.length hcards
      simpa [hlen] using this.symm
    refine ⟨data, claim, rfl, hclaim, hseat, hc1, hc2, cards.take 2, cards.drop 2, ?_, ?_, ?_⟩
    · have := congrArg (List.take 2) hcards
      rwa [← List.map_take, ← List.map_take] at this
    · have := congrArg (List.drop 2) hcards
      rwa [← List.map_drop, ← List.map_drop] at this
    · rw [List.take_append_drop, hcl]
      exact ⟨by omega, by omega, hnodup⟩

/-- A claimant that knows such an exponent has its claim accepted. -/
theorem accepts_raised (gobClaim : Codec ShowdownClaim) {s v x : ℕ} (hs : s < t.size) (hv : v < t.size)
    (hread : ReadAsDistinct
      (raised x (net s).card1 :: raised x (net s).card2 :: (net v).communityCards)) :
    ∃ claim : ShowdownClaim, claim.card1 = raised x (net s).card1 ∧ claim.card2 = raised x (net s).card2 ∧
      Accepts t gobClaim (publish net s (gobClaim.encode claim)) v s := by
  obtain ⟨hcard1, hcard2⟩ := (hinv s).cards_of_finished hcap hkey hs (hfin s hs)
  have hmod : (t.key s).exponent * ((t.key s).inverseExponent * x) ≡ x [MOD PRIME - 1] := by
    have h := (hkey s hs).inverse.mul_eq.mul_right x
    rwa [Nat.one_mul, Nat.mul_assoc] at h
  have hraised : ∀ slot < 52, raised ((t.key s).exponent * ((t.key s).inverseExponent * x))
      (decimal (t.cardAt slot)) = raised x (decimal (t.cardAt slot)) :=
    fun slot hslot => raised_congr (t.cardAt_mem hslot) hmod
  refine ⟨⟨UInt8.ofNat s, raised x (net s).card1, raised x (net s).card2,
    natBytes ((t.key s).inverseExponent * x)⟩, rfl, rfl, ?_⟩
  rw [accepts_iff hn hcap hkey hinv hfin hs hv]
  refine ⟨_, gobClaim.decode_encode _, ?_, ?_, ?_, hread⟩
  · rw [toNat_ofNat_byte, Nat.mod_eq_of_lt (by omega)]
  · rw [beVal_natBytes, hcard1, hraised _ (by omega)]
  · rw [beVal_natBytes, hcard2, hraised _ (by omega)]

end HonestDeal

/-- A seat's accepted claims are its own two cards exactly when no exponent turns
these into other cards. -/
theorem claims_binding_iff (gob : Codec (List Bytes)) (gobClaim : Codec ShowdownClaim)
    (t : Table Deck.Key) (hn : 2 ≤ t.size) (hcap : 2 * t.size + 5 ≤ 52)
    (hkey : ∀ s < t.size, Deck.Generates PRIME (t.key s)) (net : Net Bytes)
    (hreach : Reaches (wire PRIME gob) t (Net.start (wire PRIME gob)) net)
    (hfin : ∀ s < t.size, (net s).Finished) (s v : ℕ) (hs : s < t.size) (hv : v < t.size) :
    (∀ data claim, gobClaim.decode data = some claim → Accepts t gobClaim (publish net s data) v s →
      claim.card1 = (net s).card1 ∧ claim.card2 = (net s).card2) ↔
      ¬ Forgeable (net s).card1 (net s).card2 (net v).communityCards := by
  have hinv := NodeInv.reaches hn hcap (wire_lawful gob).isEmpty_empty (wire_lawful gob).decode_encode
    hreach
  constructor
  · rintro hbind ⟨x, _, hne, hread⟩
    obtain ⟨claim, hc1, hc2, hacc⟩ :=
      accepts_raised hn hcap hkey hinv hfin gobClaim hs hv hread
    obtain ⟨h1, h2⟩ := hbind _ claim (gobClaim.decode_encode claim) hacc
    rcases hne with hne | hne
    · exact hne (hc1.symm.trans h1)
    · exact hne (hc2.symm.trans h2)
  · intro hforge data claim hdec hacc
    obtain ⟨claim', hdec', _, hc1, hc2, hread⟩ := (accepts_iff hn hcap hkey hinv hfin hs hv data).mp hacc
    obtain rfl := Option.some.inj (hdec.symm.trans hdec')
    obtain ⟨hcard1, hcard2⟩ := (hinv s).cards_of_finished hcap hkey hs (hfin s hs)
    -- the exponent counts modulo the order of the group only
    have hred : ∀ slot < 52, raised ((t.key s).exponent * beVal claim.invExp) (decimal (t.cardAt slot)) =
        raised ((t.key s).exponent * beVal claim.invExp % (PRIME - 1)) (decimal (t.cardAt slot)) :=
      fun slot hslot => raised_congr (t.cardAt_mem hslot) (Nat.mod_modEq _ _).symm
    rw [hcard1, hred _ (by omega), ← hcard1] at hc1
    rw [hcard2, hred _ (by omega), ← hcard2] at hc2
    by_contra hne
    refine hforge ⟨(t.key s).exponent * beVal claim.invExp % (PRIME - 1), Nat.mod_lt _ (by decide), ?_, ?_⟩
    · rw [← hc1, ← hc2]
      exact not_and_or.mp hne
    · rwa [← hc1, ← hc2]

def claimWire : Wire ShowdownClaim :=
  let text := Wire.many Wire.byte
  (Wire.byte.pair (text.pair (text.pair text))).map
    (fun p => ⟨p.1, p.2.1, p.2.2.1, p.2.2.2⟩) (fun c => (c.seat, c.card1, c.card2, c.invExp)) fun _ => rfl

theorem claims_binding_iff_heads_up :
    ∃ net, Reaches (wire PRIME deckWire.codec) headsUpDeal (Net.start (wire PRIME deckWire.codec)) net ∧
      ((∀ data claim, claimWire.codec.decode data = some claim →
          Accepts headsUpDeal claimWire.codec (publish net 1 data) 0 1 →
          claim.card1 = (net 1).card1 ∧ claim.card2 = (net 1).card2) ↔
        ¬ Forgeable (net 1).card1 (net 1).card2 (net 0).communityCards) := by
  obtain ⟨net, hreach, hfin⟩ := exists_finished (o := wire PRIME deckWire.codec) (t := headsUpDeal)
    (by decide) (by decide) rfl deckWire.codec.decode_encode .refl
  exact ⟨net, hreach, claims_binding_iff deckWire.codec claimWire.codec headsUpDeal (by decide) (by decide)
    (fun _ _ => generates_three) net hreach hfin 1 0 (by decide) (by decide)⟩

/-- Dealt a 1 and a 10, a seat shows an 11 and a 33. -/
theorem claim_forged :
    ¬ ∀ (gob : Codec (List Bytes)) (gobClaim : Codec ShowdownClaim) (t : Table Deck.Key), 2 ≤ t.size →
      2 * t.size + 5 ≤ 52 → (∀ s < t.size, Deck.Generates PRIME (t.key s)) → ∀ net,
      Reaches (wire PRIME gob) t (Net.start (wire PRIME gob)) net → (∀ s < t.size, (net s).Finished) →
      ∀ s v, s < t.size → v < t.size → v ≠ s → ∀ data claim, gobClaim.decode data = some claim →
      Accepts t gobClaim (publish net s data) v s →
      claim.card1 = (net s).card1 ∧ claim.card2 = (net s).card2 := by
  intro h
  obtain ⟨net, hreach, hfin⟩ := exists_finished (o := wire PRIME deckWire.codec) (t := headsUpDeal)
    (by decide) (by decide) rfl deckWire.codec.decode_encode .refl
  have hinv := NodeInv.reaches (t := headsUpDeal) (by decide) (by decide)
    (wire_lawful deckWire.codec).isEmpty_empty deckWire.codec.decode_encode hreach
  have hkey : ∀ s < headsUpDeal.size, Deck.Generates PRIME (headsUpDeal.key s) :=
    fun _ _ => generates_three
  obtain ⟨hcard1, hcard2⟩ := (hinv 0).cards_of_finished (by decide) hkey (by decide) (hfin 0 (by decide))
  have hslots : (List.range 5).map (fun i => headsUpDeal.cardAt (2 * headsUpDeal.size + i)) =
      [5, 6, 7, 8, 9] := by decide +kernel
  have hboard := (hinv 1).board_of_finished (by decide) hkey (hfin 1 (by decide))
  rw [hslots] at hboard
  have hone : (net 0).card1 = decimal 1 := hcard1.trans (by decide +kernel)
  have hten : (net 0).card2 = decimal 10 := hcard2.trans (by decide +kernel)
  have hread : ReadAsDistinct
      (raised 2806 (net 0).card1 :: raised 2806 (net 0).card2 :: (net 1).communityCards) := by
    rw [hone, hten, hboard]
    exact ⟨[⟨0, 10⟩, ⟨2, 6⟩, ⟨0, 4⟩, ⟨0, 5⟩, ⟨0, 6⟩, ⟨0, 7⟩, ⟨0, 8⟩], by decide, by decide +kernel⟩
  obtain ⟨claim, hc1, _, hacc⟩ := accepts_raised (t := headsUpDeal)
    (by decide) (by decide) hkey hinv hfin claimWire.codec (s := 0) (v := 1) (by decide) (by decide) hread
  obtain ⟨h1, _⟩ := h deckWire.codec claimWire.codec headsUpDeal (by decide) (by decide) hkey net hreach hfin
    0 1 (by decide) (by decide) (by decide) _ claim (claimWire.codec.decode_encode claim) hacc
  rw [hc1, hone] at h1
  exact absurd h1 (by decide +kernel)

end P2Poker.Peer
