import P2Poker.Peer.Showdown
import P2Poker.Cards.Best

/-!
# The showdown of an honest hand (internal/peer/showdown.go)

Every node that is still in hosts its claim, and every node, folded ones too,
checks the claims of all seats that are in, one goroutine for each seat. The
claims come in any order and are sorted by seat before the winners are picked.
-/

namespace P2Poker.Peer
open P2Poker.Lib P2Poker.Crypto P2Poker.Ephemeral P2Poker.Cards

structure ShowdownResult where
  winners : List ℕ
  claims : List VerifiedClaim

inductive ShowdownError where
  -- "folded slice shorter than seat count"
  | foldedShort

/-! ### Picking the winners -/

/-- The best claim up to now and the seats that hold a hand as good. -/
def keepWinners (acc : VerifiedClaim × List ℕ) (c : VerifiedClaim) : VerifiedClaim × List ℕ :=
  match compare c.hand acc.1.hand with
  | 1 => (c, [c.seat])
  | 0 => (acc.1, acc.2 ++ [c.seat])
  | _ => acc

def pickWinners (claims : List VerifiedClaim) : ShowdownResult :=
  match claims.insertionSort fun c d => c.seat ≤ d.seat with
  | [] => ⟨[], []⟩
  | c :: cs => ⟨(cs.foldl keepWinners (c, [c.seat])).2, c :: cs⟩

def VerifiedClaim.Unbeaten (claims : List VerifiedClaim) (c : VerifiedClaim) : Prop :=
  ∀ d ∈ claims, compare d.hand c.hand ≤ 0

instance (claims : List VerifiedClaim) : DecidablePred (VerifiedClaim.Unbeaten claims) :=
  fun c => inferInstanceAs (Decidable (∀ d ∈ claims, compare d.hand c.hand ≤ 0))

/- What `keepWinners` has found in the claims it has seen. -/
structure Leads (seen : List VerifiedClaim) (acc : VerifiedClaim × List ℕ) : Prop where
  mem : acc.1 ∈ seen
  upper : ∀ d ∈ seen, d.hand.strength ≤ acc.1.hand.strength
  winners : acc.2 = (seen.filter fun d => d.hand.strength = acc.1.hand.strength).map VerifiedClaim.seat

theorem keepWinners_eq {acc : VerifiedClaim × List ℕ} {c : VerifiedClaim} (hacc : acc.1.hand.Full)
    (hc : c.hand.Full) :
    keepWinners acc c =
      if acc.1.hand.strength < c.hand.strength then (c, [c.seat])
      else if c.hand.strength < acc.1.hand.strength then acc
      else (acc.1, acc.2 ++ [c.seat]) := by
  unfold keepWinners
  rw [compare_eq hc hacc]
  split_ifs <;> rfl

theorem Leads.step {seen : List VerifiedClaim} {acc : VerifiedClaim × List ℕ} {c : VerifiedClaim}
    (h : Leads seen acc) (hc : c.hand.Full) (hfull : ∀ d ∈ seen, d.hand.Full) :
    Leads (seen ++ [c]) (keepWinners acc c) := by
  rw [keepWinners_eq (hfull _ h.mem) hc]
  rcases lt_trichotomy acc.1.hand.strength c.hand.strength with hlt | heq | hgt
  · -- none of the hands seen before is as good
    rw [if_pos hlt]
    refine ⟨by simp, ?_, ?_⟩
    · intro d hd
      rcases List.mem_append.mp hd with hd | hd
      · exact (h.upper d hd).trans hlt.le
      · rw [List.mem_singleton.mp hd]
    · have hnone : seen.filter (fun d => d.hand.strength = c.hand.strength) = [] := by
        refine List.filter_eq_nil_iff.mpr fun d hd => ?_
        simpa using ((h.upper d hd).trans_lt hlt).ne
      rw [List.filter_append, hnone]
      simp
  · rw [if_neg heq.not_lt, if_neg heq.not_gt]
    refine ⟨List.mem_append_left _ h.mem, ?_, ?_⟩
    · intro d hd
      rcases List.mem_append.mp hd with hd | hd
      · exact h.upper d hd
      · rw [List.mem_singleton.mp hd, heq]
    · rw [List.filter_append, List.map_append, ← h.winners]
      simp [heq]
  · rw [if_neg hgt.not_gt, if_pos hgt]
    refine ⟨List.mem_append_left _ h.mem, ?_, ?_⟩
    · intro d hd
      rcases List.mem_append.mp hd with hd | hd
      · exact h.upper d hd
      · rw [List.mem_singleton.mp hd]
        exact hgt.le
    · rw [List.filter_append, List.map_append, ← h.winners]
      simp [hgt.ne]

theorem Leads.foldl {seen : List VerifiedClaim} {acc : VerifiedClaim × List ℕ} (h : Leads seen acc)
    (claims : List VerifiedClaim) (hfull : ∀ d ∈ seen ++ claims, d.hand.Full) :
    Leads (seen ++ claims) (claims.foldl keepWinners acc) := by
  induction claims generalizing seen acc with
  | nil => rwa [List.append_nil]
  | cons c claims ih =>
    have hstep := h.step (hfull c (by simp)) fun d hd => hfull d (List.mem_append_left _ hd)
    have hall : ∀ d ∈ seen ++ [c] ++ claims, d.hand.Full := by
      rwa [List.append_assoc, List.singleton_append]
    have hrest := ih hstep hall
    rwa [List.append_assoc, List.singleton_append] at hrest

theorem Leads.winners_eq {claims : List VerifiedClaim} {acc : VerifiedClaim × List ℕ}
    (h : Leads claims acc) (hfull : ∀ d ∈ claims, d.hand.Full) :
    acc.2 = (claims.filter fun c => c.Unbeaten claims).map VerifiedClaim.seat := by
  rw [h.winners]
  congr 1
  refine List.filter_congr fun c hc => decide_eq_decide.mpr ?_
  have hle : ∀ d ∈ claims, compare d.hand c.hand ≤ 0 ↔ d.hand.strength ≤ c.hand.strength := by
    intro d hd
    rw [← not_lt, compare_pos_iff (hfull d hd) (hfull c hc), not_lt]
  constructor
  · intro heq d hd
    rw [hle d hd, heq]
    exact h.upper d hd
  · intro hun
    exact le_antisymm (h.upper c hc) ((hle _ h.mem).mp (hun _ h.mem))

/-- However the claims came in, the winners are the unbeaten ones in the order of
the seats. -/
theorem pickWinners_perm {arrived claims : List VerifiedClaim} (hp : arrived.Perm claims)
    (hseats : claims.Pairwise fun c d => c.seat < d.seat) (hfull : ∀ d ∈ claims, d.hand.Full) :
    pickWinners arrived = ⟨(claims.filter fun c => c.Unbeaten claims).map VerifiedClaim.seat, claims⟩ := by
  have hsort : (arrived.insertionSort fun c d => c.seat ≤ d.seat) = claims := by
    have hperm := (List.perm_insertionSort (fun c d : VerifiedClaim => c.seat ≤ d.seat) arrived).trans hp
    refine hperm.eq_of_pairwise ?_ (List.pairwise_insertionSort _ _) (hseats.imp fun h => h.le)
    have hnodup : (claims.map VerifiedClaim.seat).Nodup := List.pairwise_map.mpr (hseats.imp fun h => h.ne)
    intro c d hc hd hcd hdc
    exact List.inj_on_of_nodup_map hnodup (hperm.mem_iff.mp hc) hd (le_antisymm hcd hdc)
  unfold pickWinners
  rw [hsort]
  cases claims with
  | nil => rfl
  | cons c cs =>
    have hfirst : Leads [c] (c, [c.seat]) := ⟨by simp, by simp, by simp⟩
    have hlead := hfirst.foldl cs hfull
    simp only [hlead.winners_eq hfull, List.singleton_append]

/-! ### The nodes at showdown -/

/-- The seats whose flag is down. -/
def stillIn (numPlayers : ℕ) (folded : List Bool) : List ℕ :=
  (List.range numPlayers).filter fun seat => folded[seat]? = some false

/-- A node's call of `RunShowdown`. -/
inductive ShowStage where
  | before
  -- the seats whose goroutines have not come back
  | polling (waiting : List ℕ) (claims : List VerifiedClaim)
  | returned (result : Except ShowdownError ShowdownResult)
  -- the flags are indexed out of range
  | panicked

structure Showdown where
  net : Net Bytes
  stage : ℕ → ShowStage

def Showdown.start (net : Net Bytes) : Showdown := ⟨net, fun _ => .before⟩

def publishShowdownClaim (gob : Codec ShowdownClaim) (u : Setup Deck.Key) (r : Node Bytes) : Node Bytes :=
  let claim : ShowdownClaim :=
    ⟨UInt8.ofNat u.seatIdx, r.card1, r.card2, natBytes u.modKey.inverseExponent⟩
  { r with store := r.store.put (showdownClaimKey u.seatIdx) (gob.encode claim) }

/- `wg.Wait` lets the call go on when no goroutine is left. -/
def awaitClaims (waiting : List ℕ) (claims : List VerifiedClaim) : ShowStage :=
  if waiting = [] then .returned (.ok (pickWinners claims)) else .polling waiting claims

section Run
variable (t : Table Deck.Key) (gob : Codec ShowdownClaim) (folded : List Bool)

namespace Showdown
variable (σ : Showdown)

/-- The call up to the point where the goroutines run. -/
def enter (v : ℕ) : Showdown :=
  if folded.length ≤ v then
    { σ with stage := Function.update σ.stage v (.returned (.error .foldedShort)) }
  else
    let r := if folded[v]? = some false then publishShowdownClaim gob (t.setup v) (σ.net v) else σ.net v
    let st := if folded.length < t.size then .panicked else awaitClaims (stillIn t.size folded) []
    ⟨Function.update σ.net v r, Function.update σ.stage v st⟩

/-- What the goroutine of a node comes to when it checks a seat's claim now. -/
def verify (v seat : ℕ) : Except ClaimError VerifiedClaim :=
  pollAndVerifyClaim t.size PRIME σ.net.read gob (σ.net v).communityCards seat

/-- A key that another node does not host yet is polled again; a key the node
should host itself is an error. -/
def waits (v seat : ℕ) : Bool :=
  match σ.verify t gob v seat with
  | .error .fetchClaim => seat ≠ v
  | .error (.verifyCard1 .fetchRelay) => (nonOwnerRing t.size seat).getLast? ≠ some v
  | .error (.verifyCard2 .fetchRelay) => (nonOwnerRing t.size seat).getLast? ≠ some v
  | _ => false

def collect (v seat : ℕ) (waiting : List ℕ) (claims : List VerifiedClaim) : Showdown :=
  let claims := match σ.verify t gob v seat with
    | .error _ => claims
    | .ok vc => claims ++ [vc]
  { σ with stage := Function.update σ.stage v (awaitClaims (waiting.erase seat) claims) }

end Showdown

inductive ShowStep : Showdown → Showdown → Prop
  | enter {σ : Showdown} {v : ℕ} : v < t.size → σ.stage v = .before →
      ShowStep σ (σ.enter t gob folded v)
  | collect {σ : Showdown} {v seat : ℕ} {waiting : List ℕ} {claims : List VerifiedClaim} : v < t.size →
      σ.stage v = .polling waiting claims → seat ∈ waiting → σ.waits t gob v seat = false →
      ShowStep σ (σ.collect t gob v seat waiting claims)

def ShowReaches : Showdown → Showdown → Prop := Relation.ReflTransGen (ShowStep t gob folded)

end Run

/-! ### Every call returns -/

section Work
variable {t : Table Deck.Key} {gob : Codec ShowdownClaim} {folded : List Bool}

def ShowStage.work (numPlayers : ℕ) : ShowStage → ℕ
  | .before => numPlayers + 2
  | .polling waiting _ => waiting.length + 1
  | _ => 0

theorem work_awaitClaims_le (n : ℕ) (waiting : List ℕ) (claims : List VerifiedClaim) :
    (awaitClaims waiting claims).work n ≤ waiting.length + 1 := by
  unfold awaitClaims
  split_ifs <;> simp [ShowStage.work]

theorem stillIn_length_le (n : ℕ) (folded : List Bool) : (stillIn n folded).length ≤ n := by
  simpa [stillIn] using List.length_filter_le (fun seat => decide (folded[seat]? = some false)) (List.range n)

/- A step changes the stage of one seat and makes its work less. -/
theorem ShowStep.stage {σ σ' : Showdown} (h : ShowStep t gob folded σ σ') :
    ∃ v < t.size, ∃ st : ShowStage, σ'.stage = Function.update σ.stage v st ∧
      st.work t.size < (σ.stage v).work t.size := by
  cases h with
  | @enter v hv hst =>
    have hlen := stillIn_length_le t.size folded
    have hle := work_awaitClaims_le t.size (stillIn t.size folded) []
    unfold Showdown.enter
    by_cases hshort : folded.length ≤ v
    · rw [if_pos hshort]
      exact ⟨v, hv, _, rfl, by simp [ShowStage.work, hst]⟩
    · rw [if_neg hshort]
      refine ⟨v, hv, _, rfl, ?_⟩
      rw [hst]
      split_ifs
      · exact Nat.succ_pos _
      · exact hle.trans_lt (show _ < t.size + 2 by omega)
  | @collect v seat waiting claims hv hst hmem _ =>
    refine ⟨v, hv, _, rfl, ?_⟩
    rw [hst]
    have hlen := List.length_erase_of_mem hmem
    have hpos := List.length_pos_of_mem hmem
    refine (work_awaitClaims_le ..).trans_lt ?_
    simp only [ShowStage.work]
    omega

def Showdown.work (n : ℕ) (σ : Showdown) : ℕ := ∑ s ∈ Finset.range n, (σ.stage s).work n

theorem ShowStep.work_lt {σ σ' : Showdown} (h : ShowStep t gob folded σ σ') :
    σ'.work t.size < σ.work t.size := by
  obtain ⟨v, hv, st, hst, hlt⟩ := h.stage
  unfold Showdown.work
  rw [hst]
  refine Finset.sum_lt_sum ?_ ⟨v, Finset.mem_range.mpr hv, by rwa [Function.update_self]⟩
  intro q _
  by_cases hq : q = v
  · rw [hq, Function.update_self]
    exact hlt.le
  · rw [Function.update_of_ne hq]

theorem showStep_wellFounded : WellFounded fun σ' σ => ShowStep t gob folded σ σ' :=
  Subrelation.wf (fun h => ShowStep.work_lt h) (InvImage.wf (Showdown.work t.size) Nat.lt_wfRel.wf)

end Work

/-! ### What an honest claim is checked against -/

/-- The texts of a seat's two cards and of the board. -/
def shownTexts (net : Net Bytes) (s : ℕ) : List Bytes :=
  (net s).card1 :: (net s).card2 :: (net s).communityCards

def HoldsHand (net : Net Bytes) (s : ℕ) (h : HandRank) : Prop :=
  ∃ cards : List Card, (shownTexts net s).map parseDeckString = cards.map Except.ok ∧ best cards = .ok h

theorem raised_one {c : ℕ} (hc : c ∈ List.range' 1 52) : raised 1 (decimal c) = decimal c := by
  have hall : ∀ c ∈ List.range' 1 52, raised 1 (decimal c) = decimal c := by decide +kernel
  exact hall c hc

section HonestDeal
variable {gobDeck : Codec (List Bytes)} {t : Table Deck.Key} {net : Net Bytes} (hn : 2 ≤ t.size)
  (hcap : 2 * t.size + 5 ≤ 52) (hkey : ∀ s < t.size, Deck.Generates PRIME (t.key s))
  (hinv : ∀ s, NodeInv (wire PRIME gobDeck) t s (net s)) (hfin : ∀ s < t.size, (net s).Finished)
include hcap hkey hinv hfin

theorem exists_hand {s : ℕ} (hs : s < t.size) :
    ∃ h, HoldsHand net s h ∧ h.Full := by
  obtain ⟨hcard1, hcard2⟩ := (hinv s).cards_of_finished hcap hkey hs (hfin s hs)
  have hboard := (hinv s).board_of_finished hcap hkey (hfin s hs)
  let slots := 2 * s :: (2 * s + 1) :: (List.range 5).map fun i => 2 * t.size + i
  have htexts : shownTexts net s = slots.map fun k => decimal (t.cardAt k) := by
    rw [shownTexts, hcard1, hcard2, hboard]
    simp [slots]
  have hlt : ∀ k ∈ slots, k < 52 := by
    intro k hk
    simp only [slots, List.mem_cons, List.mem_map, List.mem_range] at hk
    omega
  have hnodup : slots.Nodup := by
    simp only [slots, List.nodup_cons, List.mem_cons, List.mem_map, List.mem_range]
    refine ⟨by omega, by omega, List.nodup_range.map fun i j hij => ?_⟩
    simpa using hij
  obtain ⟨cards, hcn, hcards⟩ := t.exists_cards hlt hnodup
  have hlen : cards.length = 7 := by
    have := congrArg List.length hcards
    simpa [slots] using this.symm
  have hranked : Ranked cards := ⟨by omega, by omega, hcn⟩
  obtain ⟨h, hbest, hs⟩ := best_strongest hranked
  exact ⟨h, ⟨cards, htexts ▸ hcards, hbest⟩, hs.full⟩

include hn

/-- Whoever checks it, the claim an honest seat hosts shows the hand it was dealt. -/
theorem verify_of_hosted {gob : Codec ShowdownClaim} {σ : Showdown} {s v : ℕ} {h : HandRank}
    (hs : s < t.size) (hv : v < t.size) (hhand : HoldsHand net s h)
    (hown : σ.net.read s (showdownClaimKey s) = (publishShowdownClaim gob (t.setup s) (net s)).store.get
      (showdownClaimKey s))
    (hrelays : ∀ q slot, σ.net.read q (holeRelayKey slot q) = net.read q (holeRelayKey slot q))
    (hcomm : (σ.net v).communityCards = (net v).communityCards) :
    σ.verify t gob v s = .ok ⟨s, h⟩ := by
  obtain ⟨hcard1, hcard2⟩ := (hinv s).cards_of_finished hcap hkey hs (hfin s hs)
  have hmod : (t.key s).exponent * (t.key s).inverseExponent ≡ 1 [MOD PRIME - 1] := (hkey s hs).inverse.mul_eq
  have hcard : ∀ slot < 52, slot / 2 = s → verifyClaimCard t.size PRIME σ.net.read s slot
      (decimal (t.cardAt slot)) (t.key s).inverseExponent = .ok () := by
    intro slot hslot hown
    obtain ⟨q, hq, _, hrelay⟩ := relay_of_finished hn hcap hkey hinv hfin hs slot hown
    rw [verifyClaimCard_ok hq ((hrelays q slot).trans hrelay), raised_encryptCard,
      raised_congr (t.cardAt_mem hslot) hmod, raised_one (t.cardAt_mem hslot)]
  have hboard : (net v).communityCards = (net s).communityCards := by
    rw [(hinv v).board_of_finished hcap hkey (hfin v hv), (hinv s).board_of_finished hcap hkey (hfin s hs)]
  have hfilter : (net s).communityCards.filter (fun s => s ≠ []) = (net s).communityCards := by
    refine List.filter_eq_self.mpr fun w hw => ?_
    rw [(hinv s).board_of_finished hcap hkey (hfin s hs), List.mem_map] at hw
    obtain ⟨i, _, rfl⟩ := hw
    exact decide_eq_true (decimal_ne_nil _)
  obtain ⟨cards, hcards, hbest⟩ := hhand
  rw [Showdown.verify, hcomm, hboard]
  refine pollAndVerifyClaim_ok (cards.take 2) (cards.drop 2) (hown.trans (if_pos rfl))
    (gob.decode_encode _) ?_ ?_ ?_ ?_ ?_ ?_
  · rw [toNat_ofNat_byte]
    exact Nat.mod_eq_of_lt (show s < 256 by omega)
  · rw [beVal_natBytes, hcard1]
    exact hcard _ (by omega) (by omega)
  · rw [beVal_natBytes, hcard2]
    exact hcard _ (by omega) (by omega)
  · have := congrArg (List.take 2) hcards
    rwa [← List.map_take, ← List.map_take] at this
  · have := congrArg (List.drop 2) hcards
    rw [hfilter]
    rwa [← List.map_drop, ← List.map_drop] at this
  · rwa [List.take_append_drop]

end HonestDeal

/-! ### What holds throughout -/

section Invariant
variable {gobDeck : Codec (List Bytes)} {t : Table Deck.Key} {gob : Codec ShowdownClaim}
  {folded : List Bool} {net : Net Bytes} {hand : ℕ → HandRank}

/-- Exactly the nodes that are in and have made the call host a claim, and every
node has checked some of the claims and found the hands that were dealt. -/
structure ShowInv (t : Table Deck.Key) (gob : Codec ShowdownClaim) (folded : List Bool) (net : Net Bytes)
    (hand : ℕ → HandRank) (σ : Showdown) : Prop where
  hosts : ∀ q, σ.stage q ≠ .before → q ∈ stillIn t.size folded →
    σ.net q = publishShowdownClaim gob (t.setup q) (net q)
  rest : ∀ q, σ.stage q = .before ∨ q ∉ stillIn t.size folded → σ.net q = net q
  stage : ∀ v, σ.stage v = .before ∨ ∃ seen waiting : List ℕ,
    (seen ++ waiting).Perm (stillIn t.size folded) ∧
      σ.stage v = awaitClaims waiting (seen.map fun s => ⟨s, hand s⟩)

theorem mem_stillIn {n s : ℕ} : s ∈ stillIn n folded ↔ s < n ∧ folded[s]? = some false := by
  simp [stillIn]

theorem awaitClaims_ne_before (waiting : List ℕ) (claims : List VerifiedClaim) :
    awaitClaims waiting claims ≠ .before := by
  unfold awaitClaims
  split_ifs <;> simp

theorem awaitClaims_eq_polling {waiting waiting' : List ℕ} {claims claims' : List VerifiedClaim}
    (h : awaitClaims waiting claims = .polling waiting' claims') : waiting = waiting' ∧ claims = claims' := by
  unfold awaitClaims at h
  split_ifs at h
  exact ShowStage.polling.inj h

theorem communityCards_publish (u : Setup Deck.Key) (r : Node Bytes) :
    (publishShowdownClaim gob u r).communityCards = r.communityCards := rfl

theorem read_relay_publish (u : Setup Deck.Key) (r : Node Bytes) (slot q : ℕ) :
    (publishShowdownClaim gob u r).store.get (holeRelayKey slot q) = r.store.get (holeRelayKey slot q) := by
  have hne : (KeyName.holeRelay slot q).key ≠ (KeyName.showdownClaim u.seatIdx).key :=
    fun h => nomatch KeyName.key_injective h
  exact (Store.get_put _ (.showdownClaim _) (.holeRelay slot q) _).trans (if_neg hne)

variable {σ : Showdown} (h : ShowInv t gob folded net hand σ)
include h

/- A node's claim is all that is added to what the deal left. -/
theorem ShowInv.net_eq (q : ℕ) :
    σ.net q = publishShowdownClaim gob (t.setup q) (net q) ∨ σ.net q = net q := by
  by_cases hq : σ.stage q = .before ∨ q ∉ stillIn t.size folded
  · exact Or.inr (h.rest q hq)
  · push Not at hq
    exact Or.inl (h.hosts q hq.1 hq.2)

theorem ShowInv.communityCards (v : ℕ) : (σ.net v).communityCards = (net v).communityCards := by
  rcases h.net_eq v with hv | hv
  · rw [hv, communityCards_publish]
  · rw [hv]

theorem ShowInv.read_relay (q slot : ℕ) :
    σ.net.read q (holeRelayKey slot q) = net.read q (holeRelayKey slot q) := by
  unfold Net.read
  rcases h.net_eq q with hq | hq
  · rw [hq, read_relay_publish]
  · rw [hq]

/- A seat that has not made the call hosts no claim, so the others wait for it. -/
theorem ShowInv.waits (hinv : ∀ s, NodeInv (wire PRIME gobDeck) t s (net s)) {s v : ℕ}
    (hs : σ.stage s = .before) (hsv : s ≠ v) :
    σ.waits t gob v s = true := by
  have hnone : σ.net.read s (showdownClaimKey s) = none := by
    rw [Net.read, h.rest s (Or.inl hs)]
    cases hget : (net s).store.get (KeyName.showdownClaim s).key with
    | none => exact hget
    | some w => cases (hinv s).stored _ w hget
  have herr : σ.verify t gob v s = .error .fetchClaim := by
    rw [Showdown.verify, pollAndVerifyClaim, hnone]
    rfl
  rw [Showdown.waits, herr]
  simpa using hsv

/- Another stage for one node, which has made the call. -/
theorem ShowInv.update (v : ℕ) (r : Node Bytes) (seen : List ℕ) {waiting : List ℕ}
    (hperm : (seen ++ waiting).Perm (stillIn t.size folded))
    (hr : v ∈ stillIn t.size folded → r = publishShowdownClaim gob (t.setup v) (net v))
    (hr' : v ∉ stillIn t.size folded → r = net v) :
    ShowInv t gob folded net hand ⟨Function.update σ.net v r,
      Function.update σ.stage v (awaitClaims waiting (seen.map fun s => ⟨s, hand s⟩))⟩ := by
  refine ⟨?_, ?_, ?_⟩
  · intro q
    by_cases hq : q = v
    · subst hq
      simpa using fun _ => hr
    · simpa [Function.update_of_ne hq] using h.hosts q
  · intro q
    by_cases hq : q = v
    · subst hq
      simpa [awaitClaims_ne_before] using hr'
    · simpa [Function.update_of_ne hq] using h.rest q
  · intro q
    by_cases hq : q = v
    · subst hq
      exact Or.inr ⟨seen, waiting, hperm, Function.update_self ..⟩
    · simpa [Function.update_of_ne hq] using h.stage q

variable (hn : 2 ≤ t.size) (hcap : 2 * t.size + 5 ≤ 52)
  (hkey : ∀ s < t.size, Deck.Generates PRIME (t.key s))
  (hinv : ∀ s, NodeInv (wire PRIME gobDeck) t s (net s)) (hfin : ∀ s < t.size, (net s).Finished)
  (hhand : ∀ s < t.size, HoldsHand net s (hand s))
include hn hcap hkey hinv hfin hhand

theorem ShowInv.verify {s v : ℕ} (hv : v < t.size) (hs : s ∈ stillIn t.size folded)
    (hentered : σ.stage s ≠ .before) : σ.verify t gob v s = .ok ⟨s, hand s⟩ := by
  have hst := (mem_stillIn.mp hs).1
  refine verify_of_hosted hn hcap hkey hinv hfin hst hv (hhand s hst) ?_ h.read_relay (h.communityCards v)
  rw [Net.read, h.hosts s hentered hs]

theorem ShowInv.step {σ' : Showdown} (hlen : t.size ≤ folded.length)
    (hstep : ShowStep t gob folded σ σ') : ShowInv t gob folded net hand σ' := by
  cases hstep with
  | @enter v hv hbefore =>
    have hnet : σ.net v = net v := h.rest v (Or.inl hbefore)
    have hupd := h.update v
      (if folded[v]? = some false then publishShowdownClaim gob (t.setup v) (σ.net v) else σ.net v) []
      (List.Perm.refl _)
      (fun hin => by rw [if_pos (mem_stillIn.mp hin).2, hnet])
      (fun hout => by rw [if_neg fun hf => hout (mem_stillIn.mpr ⟨hv, hf⟩), hnet])
    unfold Showdown.enter
    rwa [if_neg (by omega), if_neg (show ¬ folded.length < t.size by omega)]
  | @collect v seat waiting claims hv hpoll hmem hready =>
    obtain ⟨seen, waiting', hperm, hst⟩ : ∃ seen waiting' : List ℕ,
        (seen ++ waiting').Perm (stillIn t.size folded) ∧
          σ.stage v = awaitClaims waiting' (seen.map fun s => ⟨s, hand s⟩) :=
      (h.stage v).resolve_left (by simp [hpoll])
    obtain ⟨rfl, rfl⟩ := awaitClaims_eq_polling (hst.symm.trans hpoll)
    have hin : seat ∈ stillIn t.size folded := hperm.mem_iff.mp (List.mem_append_right _ hmem)
    have hentered : σ.stage seat ≠ .before := by
      intro hb
      by_cases hsv : seat = v
      · rw [hsv, hpoll] at hb
        cases hb
      · rw [h.waits hinv hb hsv] at hready
        cases hready
    have hvc := h.verify hn hcap hkey hinv hfin hhand hv hin hentered
    have hperm' : (seen ++ [seat] ++ waiting'.erase seat).Perm (stillIn t.size folded) := by
      rw [List.append_assoc, List.singleton_append]
      exact ((List.perm_cons_erase hmem).symm.append_left seen).trans hperm
    have hmade : σ.stage v ≠ .before := by simp [hpoll]
    have hupd := h.update v (σ.net v) _ hperm' (fun hv => h.hosts v hmade hv)
      (fun hv => h.rest v (Or.inr hv))
    rw [Function.update_eq_self, List.map_append] at hupd
    rwa [Showdown.collect, hvc]

/-- While a node has not returned, some node can go on. -/
theorem ShowInv.returned_or_step :
    (∀ v < t.size, ∃ result, σ.stage v = .returned result) ∨ ∃ σ', ShowStep t gob folded σ σ' := by
  by_cases hbefore : ∃ v < t.size, σ.stage v = .before
  · obtain ⟨v, hv, hb⟩ := hbefore
    exact Or.inr ⟨_, .enter hv hb⟩
  · push Not at hbefore
    refine or_iff_not_imp_right.mpr fun hstuck v hv => ?_
    obtain ⟨seen, waiting, hperm, hst⟩ := (h.stage v).resolve_left (hbefore v hv)
    cases waiting with
    | nil => exact ⟨_, hst⟩
    | cons s waiting =>
      have hin : s ∈ stillIn t.size folded := hperm.mem_iff.mp (by simp)
      have hvc := h.verify hn hcap hkey hinv hfin hhand hv hin (hbefore s (mem_stillIn.mp hin).1)
      refine absurd ⟨_, ShowStep.collect hv hst List.mem_cons_self ?_⟩ hstuck
      rw [Showdown.waits, hvc]

end Invariant

/-! ### Agreement -/

/-- The seats that are in and hold a hand no seat that is in beats. -/
def bestSeats (hand : ℕ → HandRank) (seats : List ℕ) : List ℕ :=
  seats.filter fun s => ∀ q ∈ seats, compare (hand q) (hand s) ≤ 0

theorem pickWinners_seen {hand : ℕ → HandRank} {n : ℕ} {folded : List Bool} {seen : List ℕ}
    (hp : seen.Perm (stillIn n folded)) (hfull : ∀ s < n, (hand s).Full) :
    pickWinners (seen.map fun s => ⟨s, hand s⟩) =
      ⟨bestSeats hand (stillIn n folded), (stillIn n folded).map fun s => ⟨s, hand s⟩⟩ := by
  have hseats : ((stillIn n folded).map fun s => (⟨s, hand s⟩ : VerifiedClaim)).Pairwise
      fun c d => c.seat < d.seat := by
    rw [List.pairwise_map]
    exact List.pairwise_lt_range.filter _
  have hall : ∀ d ∈ (stillIn n folded).map fun s => (⟨s, hand s⟩ : VerifiedClaim), d.hand.Full := by
    intro d hd
    obtain ⟨s, hs, rfl⟩ := List.mem_map.mp hd
    exact hfull s (mem_stillIn.mp hs).1
  rw [pickWinners_perm (hp.map _) hseats hall, List.filter_map, List.map_map]
  simp [bestSeats, VerifiedClaim.Unbeaten, Function.comp_def]

/-- Every node returns, whatever the order of the steps, with the claims of all
seats that are in and with the same winners. -/
structure ShowsOneResult (t : Table Deck.Key) (gob : Codec ShowdownClaim) (folded : List Bool)
    (net : Net Bytes) (hand : ℕ → HandRank) : Prop where
  dealt : ∀ s < t.size, HoldsHand net s (hand s)
  returned : ∀ σ, ShowReaches t gob folded (.start net) σ → ∀ v < t.size, ∀ result,
    σ.stage v = .returned result → result = .ok ⟨bestSeats hand (stillIn t.size folded),
      (stillIn t.size folded).map fun s => ⟨s, hand s⟩⟩
  progress : ∀ σ, ShowReaches t gob folded (.start net) σ →
    (∀ v < t.size, ∃ result, σ.stage v = .returned result) ∨ ∃ σ', ShowStep t gob folded σ σ'
  ends : WellFounded fun σ' σ => ShowStep t gob folded σ σ'

theorem showdown_agreement (gobDeck : Codec (List Bytes)) (gob : Codec ShowdownClaim)
    (t : Table Deck.Key) (hn : 2 ≤ t.size) (hcap : 2 * t.size + 5 ≤ 52)
    (hkey : ∀ s < t.size, Deck.Generates PRIME (t.key s)) (net : Net Bytes)
    (hreach : Reaches (wire PRIME gobDeck) t (Net.start (wire PRIME gobDeck)) net)
    (hfin : ∀ s < t.size, (net s).Finished) (folded : List Bool) (hlen : t.size ≤ folded.length) :
    ∃ hand, ShowsOneResult t gob folded net hand := by
  have hinv := NodeInv.reaches hn hcap (wire_lawful gobDeck).isEmpty_empty
    (wire_lawful gobDeck).decode_encode hreach
  have hex : ∀ s, s < t.size → ∃ h, HoldsHand net s h ∧ h.Full :=
    fun s hs => exists_hand hcap hkey hinv hfin hs
  have : Nonempty HandRank := ⟨rank5 []⟩
  choose! hand hhand hfull using hex
  have hshow : ∀ σ, ShowReaches t gob folded (.start net) σ → ShowInv t gob folded net hand σ := by
    intro σ hσ
    induction hσ with
    | refl => exact ⟨fun q hq => absurd rfl hq, fun q _ => rfl, fun v => Or.inl rfl⟩
    | tail _ hstep ih => exact ih.step hn hcap hkey hinv hfin hhand hlen hstep
  refine ⟨hand, hhand, ?_, ?_, showStep_wellFounded⟩
  · intro σ hσ v hv result hres
    obtain ⟨seen, waiting, hperm, hst⟩ := ((hshow σ hσ).stage v).resolve_left (by simp [hres])
    rw [hst, awaitClaims] at hres
    split_ifs at hres with hw
    rw [hw, List.append_nil] at hperm
    rw [← ShowStage.returned.inj hres, pickWinners_seen hperm hfull]
  · intro σ hσ
    exact (hshow σ hσ).returned_or_step hn hcap hkey hinv hfin hhand

theorem showdown_agreement_heads_up :
    ∃ net, Reaches (wire PRIME deckWire.codec) headsUpDeal (Net.start (wire PRIME deckWire.codec)) net ∧
      ∃ hand, ShowsOneResult headsUpDeal claimWire.codec [false, false] net hand := by
  obtain ⟨net, hreach, hfin⟩ := exists_finished (o := wire PRIME deckWire.codec) (t := headsUpDeal)
    (by decide) (by decide) rfl deckWire.codec.decode_encode .refl
  exact ⟨net, hreach, showdown_agreement deckWire.codec claimWire.codec headsUpDeal (by decide) (by decide)
    (fun _ _ => generates_three) net hreach hfin [false, false] (by decide)⟩

end P2Poker.Peer
