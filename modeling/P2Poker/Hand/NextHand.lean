import P2Poker.Hand.Streets
import P2Poker.Peer.Recognition

/-!
# The next hand (internal/peer/game.go, cmd/node/main.go)

The nodes of a table play a hand, and polls are answered with what the polled
node hosts. At the next game start the handler makes a new `Runner` over the same
node. `GameStart` sets the order, the seat and the session rules; it is
`DetachDispatch` that calls `resetGameState`. So the store, the board and the key
are those of the hand before, and no name in the store carries the hand.
-/

namespace P2Poker.Peer.Node
open P2Poker.Ephemeral
variable {K V : Type} (u : Setup K) (r : Node V)

/- The seats and keys that a step reads. -/
def asks : Input → List (ℕ × Key)
  | .pollStep => [(u.seatIdx - 1, shuffleStepKey (u.seatIdx - 1))]
  | .pollFinal => [(u.lastSeat, shuffleStepKey u.lastSeat)]
  | .pollHole slot =>
    match r.phase with
    | .holes slots =>
      match slots[slot]? with
      | some (.polling seat) => [(seat, holeRelayKey slot seat)]
      | _ => []
    | _ => []
  | .pollRelay =>
    match r.phase with
    | .pollRelay cardIdx _ => [(u.seatIdx - 1, communityRelayKey cardIdx (u.seatIdx - 1))]
    | _ => []
  | .pollCard =>
    match r.phase with
    | .pollCard cardIdx _ => [(u.lastSeat, communityCardKey cardIdx)]
    | _ => []
  | _ => []

/- The keys that a step hosts. -/
def puts : Input → List Key
  | .shuffle => [shuffleStepKey u.seatIdx]
  | .stripSlot slot => if u.seatIdx = slot / 2 then [] else [holeRelayKey slot u.seatIdx]
  | .stripCard =>
    match r.phase with
    | .stripping cardIdx _ _ =>
      communityRelayKey cardIdx u.seatIdx ::
        if u.seatIdx = u.lastSeat then [communityCardKey cardIdx] else []
    | _ => []
  | _ => []

variable {o : Values K V} {u r} {r' : Node V} {read : ℕ → Key → Option V} {key : Key}

theorem of_shuffle {d : List V} (h : ((r.shuffle o u d).store.get key).isSome = true) :
    (r.store.get key).isSome = true ∨ key = shuffleStepKey u.seatIdx := by
  simp only [Node.shuffle] at h
  split_ifs at h <;> exact (Store.of_isSome_put h).symm

theorem of_stripSlot {slot : ℕ} {data : V}
    (h : ((r.stripSlot o u slot data).store.get key).isSome = true) :
    (r.store.get key).isSome = true ∨ key ∈ r.puts u (.stripSlot slot) := by
  simp only [Node.stripSlot] at h
  split_ifs at h with hown
  · rw [setHole_store] at h
    exact .inl h
  · rcases Store.of_isSome_put h with rfl | h
    · exact .inr (by simp [puts, hown])
    · exact .inl h

theorem of_stripCard {cardIdx : ℕ} {layered : V} {rest : List ℕ} (hph : r.phase = .stripping cardIdx layered rest)
    (h : ((r.stripCard o u cardIdx layered rest).store.get key).isSome = true) :
    (r.store.get key).isSome = true ∨ key ∈ r.puts u .stripCard := by
  simp only [Node.stripCard] at h
  simp only [puts, hph]
  split_ifs at h ⊢ with hlast
  · rw [reveal_store, setCommunity_store] at h
    rcases Store.of_isSome_put h with rfl | h
    · exact .inr (by simp)
    · rcases Store.of_isSome_put h with rfl | h
      · exact .inr (by simp)
      · exact .inl h
  · rcases Store.of_isSome_put h with rfl | h
    · exact .inr (by simp)
    · exact .inl h

/-- What a node hosts after a step it hosted before, or the step has hosted it. -/
theorem of_step {i : Input} (hs : r.step o u read i = some r') (h : (r'.store.get key).isSome = true) :
    (r.store.get key).isSome = true ∨ key ∈ r.puts u i := by
  cases i with
  | shuffle =>
    simp only [step] at hs
    split at hs
    · obtain rfl := Option.some.inj hs
      simpa [puts] using of_shuffle h
    · cases hs
  | stripSlot slot =>
    simp only [step] at hs
    split at hs
    · split at hs
      · obtain rfl := Option.some.inj hs
        exact of_stripSlot h
      · cases hs
    · cases hs
  | stripCard =>
    simp only [step] at hs
    split at hs
    · rename_i hph
      obtain rfl := Option.some.inj hs
      exact of_stripCard hph h
    · cases hs
  | begin =>
    left
    simp only [step, begin] at hs
    split at hs
    · split_ifs at hs <;> (obtain rfl := Option.some.inj hs; exact h)
    · obtain rfl := Option.some.inj hs
      exact h
    · obtain rfl := Option.some.inj hs
      rwa [reveal_store] at h
    · cases hs
  | pollStep =>
    simp only [step] at hs
    split at hs
    · split at hs <;> (obtain rfl := Option.some.inj hs; exact .inl h)
    · cases hs
  | pollFinal =>
    simp only [step] at hs
    split at hs
    · split at hs <;> (obtain rfl := Option.some.inj hs; exact .inl h)
    · cases hs
  | pollHole slot =>
    simp only [step] at hs
    split at hs
    · split at hs
      · split at hs
        · obtain rfl := Option.some.inj hs
          exact .inl h
        · cases hs
      · cases hs
    · cases hs
  | holesDone =>
    simp only [step] at hs
    split at hs
    · split_ifs at hs
      split at hs <;> (obtain rfl := Option.some.inj hs; exact .inl h)
    · cases hs
  | pollRelay =>
    simp only [step] at hs
    split at hs
    · split at hs
      · obtain rfl := Option.some.inj hs
        exact .inl h
      · cases hs
    · cases hs
  | pollCard =>
    simp only [step] at hs
    split at hs
    · split at hs
      · obtain rfl := Option.some.inj hs
        rw [reveal_store, setCommunity_store] at h
        exact .inl h
      · cases hs
    · cases hs

/- Nothing that is hosted is taken back. -/
theorem Move.hosts {name : KeyName} (hm : Move o u read r r') (h : r.Hosts name) : r'.Hosts name := by
  unfold Hosts at h ⊢
  cases hm with
  | shuffle =>
    simp only [Node.shuffle]
    split_ifs <;> exact Store.isSome_put _ _ h
  | stripSlot =>
    simp only [Node.stripSlot]
    split_ifs
    · rwa [setHole_store]
    · exact Store.isSome_put _ _ h
  | stripCard =>
    simp only [Node.stripCard]
    split_ifs
    · rw [reveal_store, setCommunity_store]
      exact Store.isSome_put _ _ (Store.isSome_put _ _ h)
    · exact Store.isSome_put _ _ h
  | openReveal => rwa [reveal_store]
  | gotCard => rwa [reveal_store, setCommunity_store]
  | _ => exact h

/-- `RunShuffle` up to its return: the step of the seat is hosted, or it is still
to come. -/
def Shuffling (u : Setup K) (r : Node V) : Prop :=
  r.Hosts (.shuffleStep u.seatIdx) ∨ r.phase.hasFailed = true ∨ r.phase.inShuffle = true ∨
    r.phase = .idle ∧ r.todo = [.runShuffle]

theorem Shuffling.move (h : Shuffling u r) (hm : Move o u read r r') : Shuffling u r' := by
  rcases h with hh | hfail | hin | ⟨hidle, htodo⟩
  · exact .inl (hm.hosts hh)
  · rw [move_alive hm] at hfail
    cases hfail
  · cases hm with
    | gotStep => exact .inr (.inr (.inl rfl))
    | badStep => exact .inr (.inl rfl)
    | shuffle =>
      left
      simp only [Node.shuffle, Hosts]
      split_ifs <;> exact hosts_put r (.shuffleStep u.seatIdx) _ r.phase
    | _ => simp_all [Phase.inShuffle]
  · cases hm with
    | tooFew => exact .inr (.inl rfl)
    | openDeck => exact .inr (.inr (.inl rfl))
    | awaitStep => exact .inr (.inr (.inl rfl))
    | _ => simp_all

theorem Shuffling.hosts (h : Shuffling u r) (hidle : r.phase = .idle) (htodo : r.todo = []) :
    r.Hosts (.shuffleStep u.seatIdx) := by
  rcases h with hh | hfail | hin | ⟨_, hnot⟩
  · exact hh
  · rw [hidle] at hfail
    cases hfail
  · rw [hidle] at hin
    cases hin
  · rw [htodo] at hnot
    cases hnot

/-! ### The board -/

/- A slot that is taken stays so. -/
theorem setCommunity_keeps {cardIdx j : ℕ} {card card' : V} (hcard : o.isEmpty card = false)
    (hj : r.community[j]? = some card) : (r.setCommunity o u cardIdx card').community[j]? = some card := by
  have hlt := (List.getElem?_eq_some_iff.mp hj).1
  simp only [setCommunity]
  split_ifs with hempty
  · by_cases hslot : cardIdx - u.communityBase = j
    · rw [hslot, List.getD_append _ _ _ _ hlt, List.getD_eq_getElem?_getD, hj] at hempty
      exact absurd (hcard.symm.trans hempty) (by simp)
    · rw [List.getElem?_set_ne hslot, List.getElem?_append_left hlt, hj]
  · rw [List.getElem?_append_left hlt, hj]

theorem Move.keeps_board {j : ℕ} {card : V} (hm : Move o u read r r') (hcard : o.isEmpty card = false)
    (hj : r.community[j]? = some card) : r'.community[j]? = some card := by
  cases hm with
  | openReveal =>
    rw [reveal_community]
    exact hj
  | shuffle =>
    simp only [Node.shuffle]
    split_ifs <;> exact hj
  | @stripSlot slots slot data =>
    simp only [Node.stripSlot]
    split_ifs
    · rw [setHole_community]
      exact hj
    · exact hj
  | stripCard =>
    simp only [Node.stripCard]
    split_ifs
    · rw [reveal_community]
      exact setCommunity_keeps hcard hj
    · exact hj
  | gotCard =>
    rw [reveal_community]
    exact setCommunity_keeps hcard hj
  | _ => exact hj

end P2Poker.Peer.Node

namespace P2Poker.Round.Runner
open P2Poker.Crypto P2Poker.Ephemeral
variable {c : Primitives} (u : Setup c) (r : Runner)

/- The seats and keys that a step reads. -/
def asks (i : Input) : List (ℕ × Key) :=
  match i, r.phase with
  | .proposal _, .inRound roundID _ attempt _ =>
    [(r.log.expectedNextPlayer.toNat, proposalKey roundID attempt)]
  | .receipt seat _, .inRound roundID _ attempt _ => [(seat, verifyKey roundID attempt (u.nodeID seat))]
  | .attestation seat _, .inRound roundID _ _ _ =>
    [(seat.toNat, autoFoldKey roundID (u.nodeID seat.toNat))]
  | _, _ => []

/- The keys that a step to `r'` hosts. -/
def puts (i : Input) (r' : Runner) : List Key :=
  match i, r.phase with
  | .propose, .inRound roundID _ attempt _ =>
    match r'.phase with
    | .inRound _ _ _ (.hosted _) => [proposalKey roundID attempt]
    | _ => []
  | .hostReceipt, .inRound roundID _ attempt _ => [verifyKey roundID attempt (u.nodeID u.seatIdx)]
  | .attest, .inRound roundID targetSeat _ _ =>
    if u.mySeat ≠ targetSeat then [autoFoldKey roundID (u.nodeID u.seatIdx)] else []
  | _, _ => []

variable {u r} {r' : Runner} {key : Key}

theorem of_hostAttestation {roundID : UInt64} {targetSeat : UInt8} {attempt : UInt32}
    (hph : r.phase = .inRound roundID targetSeat attempt .attesting)
    (h : ((r.hostAttestation u roundID targetSeat).get key).isSome = true) :
    (r.store.get key).isSome = true ∨ key ∈ r.puts u .attest r' := by
  unfold hostAttestation at h
  simp only [puts, hph]
  split_ifs at h ⊢ with hother
  · rcases Store.of_isSome_put h with rfl | h
    · exact .inr (by simp)
    · exact .inl h
  · exact .inl h

theorem of_step {i : Input} (hs : r.step u i = some r') (h : (r'.store.get key).isSome = true) :
    (r.store.get key).isSome = true ∨ key ∈ r.puts u i r' := by
  cases step_move hs with
  | propose hph =>
    rcases Store.of_isSome_put h with rfl | h
    · exact .inr (by simp [puts, hph])
    · exact .inl h
  | hostReceipt hph =>
    rcases Store.of_isSome_put h with rfl | h
    · exact .inr (by simp [puts, hph])
    · exact .inl h
  | cleanup =>
    obtain ⟨v, hv⟩ := Option.isSome_iff_exists.mp h
    exact .inl (Option.isSome_of_eq_some (get_cleanupAttempt r hv))
  | commit =>
    obtain ⟨v, hv⟩ := Option.isSome_iff_exists.mp h
    exact .inl (Option.isSome_of_eq_some (get_pruneStore r hv))
  | noAttestors hph => exact of_hostAttestation hph h
  | attest hph => exact of_hostAttestation hph h
  | _ => exact .inl h

end P2Poker.Round.Runner

namespace P2Poker.Hand
open P2Poker.Lib P2Poker.Crypto P2Poker.Game P2Poker.Ephemeral

/-! ### A table of nodes -/

/-- What the nodes of a table bring to a hand. -/
structure Party (c : Primitives) where
  table : Round.Table c
  modKey : ℕ → Deck.Key
  draws : ℕ → Deck.Draws
  deckGob : Codec (List Bytes)
  claimGob : Codec Peer.ShowdownClaim

structure Room where
  plays : ℕ → Play
  -- seats and keys hosted since the game start
  hosted : List (ℕ × Key) := []

namespace Play
variable {c : Primitives} (u : Seat c) (h : Play)

/- The store that node and runner share. -/
def Has (key : Key) : Prop := (h.node.store.get key).isSome = true ∨ (h.runner.store.get key).isSome = true

def asks : Event → List (ℕ × Key)
  | .deal i _ => h.node.asks u.deal i
  | .round i => h.runner.asks u.rounds i
  | .claim seat _ =>
    (seat, showdownClaimKey seat) :: (Peer.nonOwnerRing u.table.size seat).getLast?.toList.flatMap
      fun last => [(last, holeRelayKey (2 * seat) last), (last, holeRelayKey (2 * seat + 1) last)]
  | _ => []

def puts (e : Event) (h' : Play) : List Key :=
  match e with
  | .deal i _ => h.node.puts u.deal i
  | .round i => h.runner.puts u.rounds i h'.runner
  | .head =>
    match h'.place with
    | .showdown folded _ => if folded[u.idx]? = some false then [showdownClaimKey u.idx] else []
    | _ => []
  | _ => []

/-- The next game start: a new runner over the node as it is. -/
def again (t : Round.Table c) : Play where
  runner := { Round.Runner.start t.numPlayers t.startingStack with store := h.runner.store }
  node := { h.node with phase := .idle, todo := [] }

end Play

/- `Run` has returned without an error. -/
def Place.ended : Place → Bool
  | .showdown _ (.returned _) => true
  | .uncontested _ => true
  | _ => false

namespace Party
variable {c : Primitives} (p : Party c)

def seat (s : ℕ) (hs : s < p.table.size) : Seat c where
  table := p.table
  idx := s
  idx_lt := hs
  modKey := p.modKey s
  draws := p.draws s
  deckGob := p.deckGob
  claimGob := p.claimGob

def cards : Peer.Table Deck.Key := ⟨p.table.size, p.modKey, p.draws⟩

/- A poll is answered with what the polled node hosts. -/
def answer (plays : ℕ → Play) (s : ℕ) : Event → Option Event
  | .deal i _ => some (.deal i fun q key => (plays q).node.store.get key)
  | .claim seat _ => some (.claim seat fun q key => (plays q).node.store.get key)
  | .round i =>
    let runners : Round.Net := fun q => (plays q).runner
    let i := Round.answered p.table (fun _ => true) runners s i
    if Round.Served p.table (fun _ => true) runners s i then some (.round i) else none
  | e => some e

/-- An event at a seat. -/
def step (σ : Room) (x : ℕ × Event) : Option Room :=
  if hs : x.1 < p.table.size then
    let u := p.seat x.1 hs
    (p.answer σ.plays x.1 x.2).bind fun e =>
      ((σ.plays x.1).step u e).map fun h =>
        ⟨Function.update σ.plays x.1 h, σ.hosted ++ ((σ.plays x.1).puts u e h).map (Prod.mk x.1)⟩
  else none

def start : Room where
  plays _ :=
    { runner := .start p.table.numPlayers p.table.startingStack
      node := { card1 := [], card2 := [], todo := [] } }

def again (σ : Room) : Room := ⟨fun s => (σ.plays s).again p.table, []⟩

/-- What an event reads was hosted since the game start. -/
def Fresh (σ : Room) (s : ℕ) (e : Event) : Prop :=
  ∀ hs : s < p.table.size, ∀ x ∈ (σ.plays s).asks (p.seat s hs) e, (σ.plays x.1).Has x.2 → x ∈ σ.hosted

/-- The board shows the cards that lie in the deck of this hand. -/
def BoardOf (σ : Room) (s : ℕ) : Prop :=
  let h := σ.plays s
  h.place = .loop → ∀ j < shown h.runner.log.state.street, h.node.community[j]? =
    (h.node.finalDeck[p.table.size * 2 + j]?).map (p.cards.opened (Peer.wire Peer.PRIME p.deckGob))

/- The random sources return something else. -/
def redraw (draws : ℕ → Deck.Draws) : Party c := { p with draws := draws }

/-- The hand after the one that ended in `σ₁`. -/
def Later (draws : ℕ → Deck.Draws) (σ₁ : Room) (es : List (ℕ × Event)) (σ : Room) : Prop :=
  Trace (p.redraw draws).step Free (p.again σ₁) es σ

/-- A node that encrypts the deck has not published the inverse of its key. -/
def NewKeys (σ₁ : Room) : Prop :=
  ∀ draws es σ s read σ', p.Later draws σ₁ es σ →
    (p.redraw draws).step σ (s, .deal .shuffle read) = some σ' → (s, showdownClaimKey s) ∉ σ₁.hosted

structure Independent (σ₁ : Room) : Prop where
  reads : ∀ draws es σ x σ', p.Later draws σ₁ es σ → (p.redraw draws).step σ x = some σ' →
    p.Fresh σ x.1 x.2
  board : ∀ draws es σ, p.Later draws σ₁ es σ → ∀ s < p.table.size, p.BoardOf σ s
  keys : p.NewKeys σ₁

end Party

/-! ### What is hosted -/

section Hosted
variable {c : Primitives} {u : Seat c} {h h' : Play} {e : Event} {key : Key}

theorem Play.of_publish (folded : List Bool) (stage : Peer.ShowStage)
    (hk : ({ h with
      node := if folded[u.idx]? = some false then Peer.publishShowdownClaim u.claimGob u.deal h.node else h.node
      place := .showdown folded stage } : Play).Has key) :
    h.Has key ∨ folded[u.idx]? = some false ∧ key = showdownClaimKey u.idx := by
  rcases hk with hk | hk
  · dsimp only at hk
    split_ifs at hk with hin
    · rcases Store.of_isSome_put hk with heq | hk
      · exact .inr ⟨hin, heq⟩
      · exact .inl (.inl hk)
    · exact .inl (.inl hk)
  · exact .inl (.inr hk)

theorem Play.of_head (hs : h.head u = some h') (hk : h'.Has key) : h.Has key ∨ key ∈ h.puts u .head h' := by
  unfold Play.head at hs
  dsimp only at hs
  split_ifs at hs with hover
  · obtain rfl := Option.some.inj hs
    unfold finishHand at hk ⊢
    split_ifs at hk ⊢ with hone
    · exact .inl hk
    · unfold runShowdown at hk ⊢
      by_cases hlen : h.runner.log.state.folded.length ≤ u.idx
      · rw [if_pos hlen] at hk
        exact .inl hk
      · rw [if_neg hlen] at hk ⊢
        rcases of_publish _ _ hk with hk | ⟨hin, rfl⟩
        · exact .inl hk
        · exact .inr (by simp [puts, hin])
  · obtain ⟨r, hr, rfl⟩ := Option.map_eq_some_iff.mp hs
    rcases hk with hk | hk
    · exact .inl (.inl hk)
    · rcases Round.Runner.of_step (i := .beginRound) hr hk with hk | hnew
      · exact .inl (.inr hk)
      · cases hnew

theorem Play.of_step (hs : h.step u e = some h') (hk : h'.Has key) : h.Has key ∨ key ∈ h.puts u e h' := by
  cases e with
  | deal i read =>
    simp only [step] at hs
    split at hs
    · obtain ⟨r, hr, rfl⟩ := Option.map_eq_some_iff.mp hs
      rcases hk with hk | hk
      · rcases Peer.Node.of_step hr hk with hk | hnew
        · exact .inl (.inl hk)
        · exact .inr hnew
      · exact .inl (.inr hk)
    · cases hs
  | round i =>
    simp only [step] at hs
    split at hs
    · split_ifs at hs
      obtain ⟨r, hr, rfl⟩ := Option.map_eq_some_iff.mp hs
      rcases hk with hk | hk
      · exact .inl (.inl hk)
      · rcases Round.Runner.of_step hr hk with hk | hnew
        · exact .inl (.inr hk)
        · exact .inr hnew
    · cases hs
  | head =>
    simp only [step] at hs
    split at hs
    · exact of_head hs hk
    · cases hs
  | submit a =>
    obtain ⟨r, hr, rfl⟩ := Option.map_eq_some_iff.mp hs
    rcases hk with hk | hk
    · exact .inl (.inl hk)
    · rcases Round.Runner.of_step (i := .submit a) hr hk with hk | hnew
      · exact .inl (.inr hk)
      · cases hnew
  | _ =>
    left
    cases step_move hs <;> exact hk

/- Whatever a node hosts was hosted in this hand. -/
def Room.Recorded (σ : Room) : Prop := ∀ q key, (σ.plays q).Has key → (q, key) ∈ σ.hosted

end Hosted

section Run
variable {c : Primitives} {p : Party c} {σ σ' : Room} {x : ℕ × Event}

theorem Party.step_eq (hs : p.step σ x = some σ') : ∃ (hx : x.1 < p.table.size) (e : Event) (h : Play),
    p.answer σ.plays x.1 x.2 = some e ∧ (σ.plays x.1).step (p.seat x.1 hx) e = some h ∧
      σ' = ⟨Function.update σ.plays x.1 h,
        σ.hosted ++ ((σ.plays x.1).puts (p.seat x.1 hx) e h).map (Prod.mk x.1)⟩ := by
  unfold step at hs
  split_ifs at hs with hx
  obtain ⟨e, he, hs⟩ := Option.bind_eq_some_iff.mp hs
  obtain ⟨h, hh, rfl⟩ := Option.map_eq_some_iff.mp hs
  exact ⟨hx, e, h, he, hh, rfl⟩

theorem Room.Recorded.step (hr : σ.Recorded) (hs : p.step σ x = some σ') : σ'.Recorded := by
  obtain ⟨hx, e, h, _, hh, rfl⟩ := Party.step_eq hs
  intro q key hk
  rw [List.mem_append]
  rcases eq_or_ne q x.1 with rfl | hq
  · dsimp only at hk
    rw [Function.update_self] at hk
    rcases Play.of_step hh hk with hk | hnew
    · exact .inl (hr _ _ hk)
    · exact .inr (List.mem_map_of_mem hnew)
  · dsimp only at hk
    rw [Function.update_of_ne hq] at hk
    exact .inl (hr _ _ hk)

/- The first hand begins with empty stores. -/
theorem fresh_first_hand {es : List (ℕ × Event)} (ht : Trace p.step Free p.start es σ) (s : ℕ) (e : Event) :
    p.Fresh σ s e := by
  have hrec : σ.Recorded := ht.keeps (by rintro q key (hk | hk) <;> cases hk)
    fun _ _ _ _ hs hr => hr.step hs
  exact fun _ x _ hk => hrec _ _ hk

/-! ### What the first hand leaves -/

/- `RunShuffle` has returned. -/
def Place.shuffled : Place → Bool
  | .waiting => false
  | .calling .runShuffle => false
  | .failed _ => false
  | _ => true

structure Began (u : Seat c) (h : Play) : Prop where
  inv : Inv u h
  shuffling : h.place = .calling .runShuffle → Peer.Node.Shuffling u.deal h.node
  shuffled : h.place.shuffled = true → 2 ≤ u.table.size ∧ h.node.Hosts (.shuffleStep u.idx)

variable {u : Seat c} {h h' : Play} {e : Event}

theorem Began.back (hb : Began u h) (hp : h.place = .calling .runShuffle) (hidle : h.node.phase = .idle)
    (htodo : h.node.todo = []) : 2 ≤ u.table.size ∧ h.node.Hosts (.shuffleStep u.idx) := by
  refine ⟨?_, (hb.shuffling hp).hosts hidle htodo⟩
  have hplace := hb.inv.place
  rw [hp] at hplace
  obtain ⟨⟨hnot, _⟩ | ⟨_, htwo⟩, _⟩ := hplace
  · rw [htodo] at hnot
    cases hnot
  · rcases htwo rfl with hfail | htwo
    · rw [hidle] at hfail
      cases hfail
    · exact htwo

theorem Began.move (hb : Began u h) (hm : Play.Move u h e h') : Began u h' := by
  have hi := hb.inv.move hm
  cases hm with
  | gameStart hp =>
    have hplace := hb.inv.place
    rw [hp] at hplace
    exact ⟨hi, fun _ => .inr (.inr (.inr ⟨hplace.2.2.1, rfl⟩)), nofun⟩
  | @deal k i read r hp hr =>
    have hm := Peer.Node.step_move hr
    refine ⟨hi, fun hp => (hb.shuffling hp).move hm, fun hsh => ?_⟩
    exact ⟨(hb.shuffled hsh).1, hm.hosts (hb.shuffled hsh).2⟩
  | callFailed => exact ⟨hi, nofun, nofun⟩
  | shuffled hp hidle htodo => exact ⟨hi, nofun, fun _ => hb.back hp hidle htodo⟩
  | @returned k hp hk =>
    refine ⟨hi, nofun, fun _ => hb.shuffled ?_⟩
    rw [hp]
    cases k <;> first | rfl | exact absurd rfl hk
  | uncontested hp => exact ⟨hi, nofun, fun _ => hb.shuffled (by rw [hp]; rfl)⟩
  | showdown hp _ _ hnode =>
    refine ⟨hi, nofun, fun _ => ?_⟩
    obtain ⟨htwo, hhosts⟩ := hb.shuffled (by rw [hp]; rfl)
    rcases hnode with rfl | rfl
    · exact ⟨htwo, hhosts⟩
    · exact ⟨htwo, Store.isSome_put _ _ hhosts⟩
  | showdownFailed => exact ⟨hi, nofun, nofun⟩
  | beginRound hp => exact ⟨hi, nofun, fun _ => hb.shuffled (by rw [hp]; rfl)⟩
  | submit => exact ⟨hi, hb.shuffling, hb.shuffled⟩
  | round => exact ⟨hi, hb.shuffling, hb.shuffled⟩
  | roundFailed => exact ⟨hi, nofun, nofun⟩
  | settled hp => exact ⟨hi, nofun, fun _ => hb.shuffled (by rw [hp]; rfl)⟩
  | newStreet hp _ _ hk =>
    refine ⟨hi, fun heq => ?_, fun _ => hb.shuffled (by rw [hp]; rfl)⟩
    rw [Place.calling.inj heq] at hk
    revert hk
    cases h.runner.log.state.street <;> nofun
  | claim hp => exact ⟨hi, nofun, fun _ => hb.shuffled (by rw [hp]; rfl)⟩

theorem Began.of_trace {es : List (ℕ × Event)} (ht : Trace p.step Free p.start es σ) {s : ℕ}
    (hs : s < p.table.size) : Began (p.seat s hs) (σ.plays s) := by
  refine ht.keeps (P := fun σ => Began (p.seat s hs) (σ.plays s)) ⟨Inv.start _, nofun, nofun⟩ ?_
  intro σ x σ' _ hstep hb
  obtain ⟨hx, e, h, _, hh, rfl⟩ := Party.step_eq hstep
  rcases eq_or_ne s x.1 with rfl | hne
  · dsimp only
    rw [Function.update_self]
    exact hb.move (Play.step_move hh)
  · dsimp only
    rwa [Function.update_of_ne hne]

theorem Place.shuffled_of_ended {place : Place} (h : place.ended = true) : place.shuffled = true := by
  cases place <;> first | rfl | cases h

/-! ### The second hand -/

/- The node waits for the step of the seat before it. -/
def Play.waits (h : Play) : Play :=
  { h.call .runShuffle with node := { h.node with phase := .pollStep, todo := [] } }

theorem Play.call_waits (htwo : 2 ≤ u.table.size) (hidx : u.idx ≠ 0) (hidle : h.node.phase = .idle)
    (read : ℕ → Key → Option Bytes) :
    (h.call .runShuffle).step u (.deal .begin read) = some h.waits := by
  have hfew : ¬ u.deal.numPlayers < 2 := by
    show ¬ u.table.size < 2
    omega
  have hseat : u.deal.seatIdx ≠ 0 := hidx
  simp only [step, call, Peer.Node.step, Peer.Node.begin, hidle]
  rw [if_neg hfew, if_neg hseat]
  rfl

theorem Play.waits_polls (read : ℕ → Key → Option Bytes) {data : Bytes}
    (hread : read (u.idx - 1) (shuffleStepKey (u.idx - 1)) = some data) :
    ∃ h', h.waits.step u (.deal .pollStep read) = some h' := by
  have hread' : read (u.deal.seatIdx - 1) (shuffleStepKey (u.deal.seatIdx - 1)) = some data := hread
  simp only [step, waits, call, Peer.Node.step, hread']
  cases u.values.decodeDeck data <;> exact ⟨_, rfl⟩

theorem Party.step_of {s : ℕ} {e e' : Event} (hs : s < p.table.size) (he : p.answer σ.plays s e = some e')
    (hh : (σ.plays s).step (p.seat s hs) e' = some h) : p.step σ (s, e) =
      some ⟨Function.update σ.plays s h,
        σ.hosted ++ ((σ.plays s).puts (p.seat s hs) e' h).map (Prod.mk s)⟩ := by
  simp only [step, dif_pos hs, he, Option.bind_some, hh, Option.map_some]

theorem Party.step_begin {s : ℕ} (hs : s < p.table.size) (htwo : 2 ≤ p.table.size) (h0 : s ≠ 0)
    (hcall : σ.plays s = h.call .runShuffle) (hidle : h.node.phase = .idle) :
    p.step σ (s, .deal .begin fun _ _ => none) = some ⟨Function.update σ.plays s h.waits, σ.hosted⟩ := by
  have hh (read : ℕ → Key → Option Bytes) :
      (σ.plays s).step (p.seat s hs) (.deal .begin read) = some h.waits := by
    rw [hcall]
    exact Play.call_waits htwo h0 hidle read
  rw [Party.step_of hs rfl (hh _)]
  simp [Play.puts, Peer.Node.puts]

/- Seat 1 is the first to begin. -/
def secondBegins : List (ℕ × Event) := [(1, .gameStart), (1, .deal .begin fun _ _ => none)]

def Party.waiting (p : Party c) (σ₁ : Room) : Room :=
  ⟨Function.update (p.again σ₁).plays 1 ((p.again σ₁).plays 1).waits, []⟩

theorem Party.later_waiting (htwo : 2 ≤ p.table.size) (draws : ℕ → Deck.Draws) (σ₁ : Room) :
    p.Later draws σ₁ secondBegins (p.waiting σ₁) := by
  have hone : 1 < (p.redraw draws).table.size := htwo
  have hstart := Party.step_of (σ := p.again σ₁) (e := .gameStart) hone rfl rfl
  refine .cons trivial hstart (.cons trivial ?_ .nil)
  rw [Party.step_begin (h := (p.again σ₁).plays 1) hone htwo one_ne_zero (by simp) rfl, Function.update_idem]
  rfl

/-- The step that seat 0 has hosted in the first hand is read in the second. -/
theorem Party.stale_step {σ₁ : Room} (htwo : 2 ≤ p.table.size) (draws : ℕ → Deck.Draws)
    (hold : (σ₁.plays 0).node.Hosts (.shuffleStep 0)) :
    (∃ σ', (p.redraw draws).step (p.waiting σ₁) (1, .deal .pollStep fun _ _ => none) = some σ') ∧
      ¬ p.Fresh (p.waiting σ₁) 1 (.deal .pollStep fun _ _ => none) := by
  have hone : 1 < (p.redraw draws).table.size := htwo
  have hplay : (p.waiting σ₁).plays 1 = ((p.again σ₁).plays 1).waits := by simp [waiting]
  have hzero : (p.waiting σ₁).plays 0 = (p.again σ₁).plays 0 := by simp [waiting]
  have hhosts : (((p.waiting σ₁).plays 0).node.store.get (shuffleStepKey 0)).isSome = true := by
    rw [hzero]
    exact hold
  constructor
  · obtain ⟨data, hdata⟩ := Option.isSome_iff_exists.mp hhosts
    obtain ⟨h', hh'⟩ := Play.waits_polls (u := (p.redraw draws).seat 1 hone) (h := (p.again σ₁).plays 1)
      (fun q key => ((p.waiting σ₁).plays q).node.store.get key) hdata
    rw [← hplay] at hh'
    exact ⟨_, Party.step_of hone rfl hh'⟩
  · intro hfresh
    have hmem := hfresh hone (0, shuffleStepKey 0) (List.mem_singleton.mpr rfl) (.inl hhosts)
    cases hmem

/-! ### The keys of the second hand -/

theorem Party.moves {s : ℕ} {e e' : Event} (hs : s < p.table.size) (he : p.answer σ.plays s e = some e')
    (hh : (σ.plays s).step (p.seat s hs) e' = some h) :
    ∃ σ', p.step σ (s, e) = some σ' ∧ σ'.plays s = h ∧ ∀ q ≠ s, σ'.plays q = σ.plays q :=
  ⟨_, Party.step_of hs he hh, Function.update_self .., fun _ hq => Function.update_of_ne hq ..⟩

/-- A seat is about to encrypt the deck. -/
def Play.Shuffling (h : Play) : Prop :=
  h.place = .calling .runShuffle ∧ ∃ d, h.node.phase = .shuffling d

theorem Play.Shuffling.hosts (hsh : h.Shuffling) (read : ℕ → Key → Option Bytes) :
    ∃ h' d, h.step u (.deal .shuffle read) = some h' ∧
      h'.node.store.get (shuffleStepKey u.idx) = some (u.deckGob.encode d) := by
  obtain ⟨hp, d, hd⟩ := hsh
  refine ⟨{ h with node := h.node.shuffle u.values u.deal d },
    Peer.Node.encryptDeck u.values u.deal (Deck.shuffle u.draws d), ?_, ?_⟩
  · simp only [step, hp, Peer.Node.step, hd, Option.map_some]
  · simp only [Peer.Node.shuffle]
    split_ifs <;> exact if_pos rfl

theorem Play.call_shuffling (htwo : 2 ≤ u.table.size) (hidx : u.idx = 0) (hidle : h.node.phase = .idle)
    (read : ℕ → Key → Option Bytes) :
    ∃ h', (h.call .runShuffle).step u (.deal .begin read) = some h' ∧ h'.Shuffling := by
  have hfew : ¬ u.deal.numPlayers < 2 := by
    show ¬ u.table.size < 2
    omega
  have hseat : u.deal.seatIdx = 0 := hidx
  simp only [step, call, Peer.Node.step, Peer.Node.begin, hidle]
  rw [if_neg hfew, if_pos hseat]
  exact ⟨_, rfl, rfl, _, rfl⟩

theorem Play.waits_shuffling (read : ℕ → Key → Option Bytes) {d : List Bytes}
    (hread : read (u.idx - 1) (shuffleStepKey (u.idx - 1)) = some (u.deckGob.encode d)) :
    ∃ h', h.waits.step u (.deal .pollStep read) = some h' ∧ h'.Shuffling := by
  have hread' : read (u.deal.seatIdx - 1) (shuffleStepKey (u.deal.seatIdx - 1)) = some (u.deckGob.encode d) := hread
  have hdecode : u.values.decodeDeck (u.deckGob.encode d) = some d := u.deckGob.decode_encode d
  simp only [step, waits, call, Peer.Node.step, hread', hdecode]
  exact ⟨_, rfl, rfl, d, rfl⟩

/-- Seat after seat comes to encrypt the deck of the second hand. -/
theorem Party.later_shuffling (htwo : 2 ≤ p.table.size) (draws : ℕ → Deck.Draws) (σ₁ : Room) (s : ℕ)
    (hs : s < p.table.size) : ∃ es σ, p.Later draws σ₁ es σ ∧ (σ.plays s).Shuffling ∧
      ∀ q, s < q → σ.plays q = (p.again σ₁).plays q := by
  induction s with
  | zero =>
    have hzero : 0 < (p.redraw draws).table.size := hs
    obtain ⟨σ₂, hstart, hcall, hrest⟩ := Party.moves (σ := p.again σ₁) (e := .gameStart) hzero rfl rfl
    obtain ⟨h', hbegin, hshuffling⟩ := Play.call_shuffling (u := (p.redraw draws).seat 0 hzero)
      (h := (p.again σ₁).plays 0) htwo rfl rfl fun q key => (σ₂.plays q).node.store.get key
    rw [← hcall] at hbegin
    obtain ⟨σ₃, hstep, hplay, hrest'⟩ :=
      Party.moves (e := .deal .begin fun _ _ => none) hzero rfl hbegin
    refine ⟨_, σ₃, .cons trivial hstart (.cons trivial hstep .nil), hplay ▸ hshuffling, fun q hq => ?_⟩
    rw [hrest' q (by omega), hrest q (by omega)]
  | succ s ih =>
    obtain ⟨es, σ, ht, hshuffling, hafter⟩ := ih (by omega)
    have hat : s < (p.redraw draws).table.size := by
      show s < p.table.size
      omega
    have hnext : s + 1 < (p.redraw draws).table.size := hs
    -- the seat before hosts its step
    obtain ⟨h₁, d, hshuffle, hhosts⟩ := hshuffling.hosts (u := (p.redraw draws).seat s hat)
      fun q key => (σ.plays q).node.store.get key
    obtain ⟨σ₁', hstep₁, hplay₁, hrest₁⟩ := Party.moves (e := .deal .shuffle fun _ _ => none) hat rfl hshuffle
    -- the seat begins and takes it
    have hfresh : σ₁'.plays (s + 1) = (p.again σ₁).plays (s + 1) := by
      rw [hrest₁ _ (by omega), hafter _ (by omega)]
    obtain ⟨σ₂, hstep₂, hplay₂, hrest₂⟩ := Party.moves (σ := σ₁') (e := .gameStart) hnext rfl
      (h := ((p.again σ₁).plays (s + 1)).call .runShuffle) (by rw [hfresh]; rfl)
    obtain ⟨σ₃, hstep₃, hplay₃, hrest₃⟩ := Party.moves (e := .deal .begin fun _ _ => none) hnext rfl
      (h := ((p.again σ₁).plays (s + 1)).waits) (by rw [hplay₂]; exact Play.call_waits htwo s.succ_ne_zero rfl _)
    have hread : (σ₃.plays s).node.store.get (shuffleStepKey s) = some (p.deckGob.encode d) := by
      rw [hrest₃ s (by omega), hrest₂ s (by omega), hplay₁]
      exact hhosts
    obtain ⟨h₄, hpoll, hshuffling₄⟩ := Play.waits_shuffling (u := (p.redraw draws).seat (s + 1) hnext)
      (h := (p.again σ₁).plays (s + 1)) (fun q key => (σ₃.plays q).node.store.get key) hread
    rw [← hplay₃] at hpoll
    obtain ⟨σ₄, hstep₄, hplay₄, hrest₄⟩ := Party.moves (e := .deal .pollStep fun _ _ => none) hnext rfl hpoll
    refine ⟨_, σ₄, ht.append (.cons trivial hstep₁ (.cons trivial hstep₂ (.cons trivial hstep₃
      (.cons trivial hstep₄ .nil)))), hplay₄ ▸ hshuffling₄, fun q hq => ?_⟩
    rw [hrest₄ q (by omega), hrest₃ q (by omega), hrest₂ q (by omega), hrest₁ q (by omega), hafter q (by omega)]

/-- The keys of the second hand are unpublished exactly if nobody has shown cards in the first. -/
theorem Party.newKeys_iff (htwo : 2 ≤ p.table.size) (σ₁ : Room) :
    p.NewKeys σ₁ ↔ ∀ s < p.table.size, (s, showdownClaimKey s) ∉ σ₁.hosted := by
  constructor
  · intro hnew s hs
    obtain ⟨es, σ, ht, hshuffling, _⟩ := Party.later_shuffling htwo p.draws σ₁ s hs
    have hat : s < (p.redraw p.draws).table.size := hs
    obtain ⟨h', d, hshuffle, _⟩ := hshuffling.hosts (u := (p.redraw p.draws).seat s hat)
      fun q key => (σ.plays q).node.store.get key
    obtain ⟨σ', hstep, _⟩ := Party.moves (e := .deal .shuffle fun _ _ => none) hat rfl hshuffle
    exact hnew _ _ _ _ _ _ ht hstep
  · intro hnone draws es σ s read σ' _ hstep
    obtain ⟨hs, _⟩ := Party.step_eq hstep
    exact hnone s hs

/-! ### The board of the second hand -/

theorem Play.Move.keeps_board {j : ℕ} {card : Bytes} (hm : Play.Move u h e h') (hcard : card ≠ [])
    (hj : h.node.community[j]? = some card) : h'.node.community[j]? = some card := by
  cases hm with
  | deal _ hr => exact (Peer.Node.step_move hr).keeps_board (List.isEmpty_eq_false_iff.mpr hcard) hj
  | showdown _ _ _ hnode =>
    rcases hnode with rfl | rfl
    · exact hj
    · exact hj
  | _ => exact hj

/-- What lies on a board when a hand ends lies there in the next. -/
theorem Party.Later.keeps_board {draws : ℕ → Deck.Draws} {σ₁ : Room} {es : List (ℕ × Event)} {s j : ℕ} {card : Bytes}
    (ht : p.Later draws σ₁ es σ) (hcard : card ≠ []) (hj : (σ₁.plays s).node.community[j]? = some card) :
    (σ.plays s).node.community[j]? = some card := by
  refine ht.keeps (P := fun σ => (σ.plays s).node.community[j]? = some card) hj ?_
  intro σ x σ' _ hstep hj
  obtain ⟨hx, e, h, _, hh, rfl⟩ := Party.step_eq hstep
  rcases eq_or_ne s x.1 with rfl | hne
  · dsimp only
    rw [Function.update_self]
    exact (Play.step_move hh).keeps_board hcard hj
  · dsimp only
    rwa [Function.update_of_ne hne]

/-- After every first hand the reads fail. The keys fail exactly if somebody has shown cards in
it; and a card that it has left on a board is still there in the second hand, so the board is
right only where the new deck has the same card. -/
theorem hands_never_independent {es : List (ℕ × Event)} (h0 : 0 < p.table.size)
    (ht : Trace p.step Free p.start es σ) (hend : ∀ s < p.table.size, (σ.plays s).place.ended = true) :
    ¬ p.Independent σ ∧
    (p.NewKeys σ ↔ ∀ s < p.table.size, (s, showdownClaimKey s) ∉ σ.hosted) ∧
    ∀ draws fs σ', p.Later draws σ fs σ' → ∀ s j card, (σ.plays s).node.community[j]? = some card → card ≠ [] →
      (σ'.plays s).place = .loop → j < shown (σ'.plays s).runner.log.state.street → p.BoardOf σ' s →
      ((σ'.plays s).node.finalDeck[p.table.size * 2 + j]?).map (p.cards.opened (Peer.wire Peer.PRIME p.deckGob)) =
        some card := by
  obtain ⟨htwo, hold⟩ := (Began.of_trace ht h0).shuffled (Place.shuffled_of_ended (hend 0 h0))
  refine ⟨fun hind => ?_, Party.newKeys_iff htwo σ, ?_⟩
  · obtain ⟨⟨σ', hstep⟩, hstale⟩ := Party.stale_step htwo p.draws hold
    exact hstale (hind.reads _ _ _ _ _ (Party.later_waiting htwo p.draws σ) hstep)
  · intro draws fs σ' hlater s j card hcard hne hloop hj hboard
    rw [← hboard hloop j hj]
    exact hlater.keeps_board hne hcard

end Run

/- Two nodes; seat 0 folds at once. -/
def twoNodes : Party .transparent where
  table := Round.Table.sample 2 Round.two_seats_lt 1 100
  modKey _ := ⟨3, 9079⟩
  draws _ i := ⟨0, i.succ_pos⟩
  deckGob := Peer.deckWire.codec
  claimGob := Peer.claimWire.codec

def dealsAt (s : ℕ) (inputs : List Peer.Input) : List (ℕ × Event) :=
  inputs.map fun i => (s, .deal i fun _ _ => none)

def roundAt (s : ℕ) (inputs : List Round.Input) : List (ℕ × Event) := inputs.map fun i => (s, .round i)

def submitsAt (s : ℕ) (a : Action) : List (ℕ × Event) := (submitted a).map fun e => (s, e)

def bothDeal : List (ℕ × Event) := List.flatten [
  [(0, .gameStart), (1, .gameStart)], dealsAt 0 [.begin, .shuffle], dealsAt 1 [.begin, .pollStep, .shuffle],
  dealsAt 0 [.pollFinal], [(0, .back), (1, .back)],
  dealsAt 0 [.begin, .stripSlot 2, .stripSlot 3], dealsAt 1 [.begin, .stripSlot 0, .stripSlot 1],
  dealsAt 0 [.pollHole 0, .pollHole 1, .stripSlot 0, .stripSlot 1, .holesDone],
  dealsAt 1 [.pollHole 2, .pollHole 3, .stripSlot 2, .stripSlot 3, .holesDone], [(0, .back), (1, .back)]]

def zeroFoldsNow : List (ℕ × Event) := List.flatten [
  [(0, .head), (1, .head)], submitsAt 0 ⟨.fold, 0⟩,
  roundAt 0 [.propose, .append, .hostReceipt], roundAt 1 [.proposal [], .append, .hostReceipt, .collected],
  roundAt 0 [.receipt 1 [], .collected, .cleanup, .conclude], roundAt 1 [.cleanup, .conclude],
  [(0, .settle), (1, .settle), (0, .head), (1, .head)]]

def zeroFolds : List (ℕ × Event) := bothDeal ++ zeroFoldsNow

def afterFold : Room := run twoNodes.step Free twoNodes.start zeroFolds

theorem zeroFolds_trace : Trace twoNodes.step Free twoNodes.start zeroFolds afterFold :=
  run_trace (by decide +kernel)

theorem afterFold_ended : ∀ s < twoNodes.table.size, (afterFold.plays s).place.ended = true := by
  decide +kernel

/- Two nodes with signatures of a fixed size. -/
def twoSized : Party .truncated where
  table := Round.Table.sampleWith (fun seat => UInt8.ofNat seat) 2 Round.two_seats_lt 1 100
  modKey _ := ⟨3, 9079⟩
  draws _ i := ⟨0, i.succ_pos⟩
  deckGob := Peer.deckWire.codec
  claimGob := Peer.claimWire.codec

/- Both nodes commit a check of seat `s`. -/
def bothCheck (s : ℕ) : List (ℕ × Event) := List.flatten [
  [(0, .head), (1, .head)], submitsAt s ⟨.check, 0⟩, roundAt s [.propose, .append, .hostReceipt],
  roundAt (1 - s) [.proposal [], .append, .hostReceipt, .receipt s []], roundAt s [.receipt (1 - s) []],
  roundAt 0 [.collected, .cleanup, .conclude], roundAt 1 [.collected, .cleanup, .conclude],
  [(0, .settle), (1, .settle)]]

/- A hand of two nodes until the flop is on their boards. -/
def toFlop : List (ℕ × Event) := List.flatten [
  bothDeal, bothCheck 0, bothCheck 1, dealsAt 0 [.begin], dealsAt 1 [.begin],
  (List.replicate 3 (dealsAt 0 [.stripCard] ++ dealsAt 1 [.pollRelay, .stripCard] ++ dealsAt 0 [.pollCard])).flatten,
  [(0, .back), (1, .back)]]

/- Seat 0 folds on the flop. -/
def afterFlop : Room := run twoSized.step Free twoSized.start (toFlop ++ zeroFoldsNow)

/- Nobody moves a card in the second hand. -/
def unmoved : ℕ → Deck.Draws := fun _ i => Fin.last i

def secondFlop : Room := run (twoSized.redraw unmoved).step Free (twoSized.again afterFlop) toFlop

def Place.isLoop : Place → Bool
  | .loop => true
  | _ => false

theorem Place.of_isLoop {place : Place} (h : place.isLoop = true) : place = .loop := by
  cases place <;> first | rfl | cases h

/- The second hand shows the flop of the first. -/
theorem fold_not_independent : ¬ twoSized.Independent afterFlop ∧ twoSized.NewKeys afterFlop ∧
    twoSized.Later unmoved afterFlop toFlop secondFlop ∧ ¬ twoSized.BoardOf secondFlop 0 := by
  have hfirst : Trace twoSized.step Free twoSized.start (toFlop ++ zeroFoldsNow) afterFlop :=
    run_trace (by decide +kernel)
  -- the first slot has a card, and nobody has shown cards
  have hleft : (∀ s < twoSized.table.size, (afterFlop.plays s).place.ended = true) ∧
      ((afterFlop.plays 0).node.community[0]?.any fun card => !card.isEmpty) = true ∧
      ∀ s < twoSized.table.size, (s, showdownClaimKey s) ∉ afterFlop.hosted := by decide +kernel
  have hlater : twoSized.Later unmoved afterFlop toFlop secondFlop := run_trace (by decide +kernel)
  -- the new deck has another card there
  have hflop : (secondFlop.plays 0).place.isLoop = true ∧ 0 < shown (secondFlop.plays 0).runner.log.state.street ∧
      ((secondFlop.plays 0).node.finalDeck[twoSized.table.size * 2 + 0]?).map
        (twoSized.cards.opened (Peer.wire Peer.PRIME twoSized.deckGob)) ≠ (afterFlop.plays 0).node.community[0]? := by
    decide +kernel
  obtain ⟨hend, hcard, hunshown⟩ := hleft
  obtain ⟨hloop, hshown, hother⟩ := hflop
  obtain ⟨hdepends, hkeys, hboard⟩ := hands_never_independent (by decide) hfirst hend
  refine ⟨hdepends, hkeys.mpr hunshown, hlater, fun hright => hother ?_⟩
  cases hslot : (afterFlop.plays 0).node.community[0]? with
  | none =>
    rw [hslot] at hcard
    cases hcard
  | some card =>
    rw [hslot] at hcard
    exact hboard _ _ _ hlater 0 0 card hslot (by simpa using hcard) (Place.of_isLoop hloop) hshown hright

/- The second hand: seat 1 takes the deck that seat 0 hosted in the first. -/
theorem first_deck_read_again : ∃ es fs σ₁ σ σ', Trace twoNodes.step Free twoNodes.start es σ₁ ∧
    (∀ s < 2, (σ₁.plays s).place.ended = true) ∧ twoNodes.Later twoNodes.draws σ₁ fs σ ∧
    twoNodes.step σ (1, .deal .pollStep fun _ _ => none) = some σ' ∧
    ¬ twoNodes.Fresh σ 1 (.deal .pollStep fun _ _ => none) := by
  have hzero : 0 < twoNodes.table.size := by decide
  have hold := ((Began.of_trace zeroFolds_trace hzero).shuffled
    (Place.shuffled_of_ended (afterFold_ended 0 hzero))).2
  obtain ⟨⟨σ', hstep⟩, hstale⟩ := Party.stale_step (p := twoNodes) (by decide) twoNodes.draws hold
  exact ⟨zeroFolds, secondBegins, afterFold, twoNodes.waiting afterFold, σ', zeroFolds_trace, afterFold_ended,
    Party.later_waiting (by decide) _ _, hstep, hstale⟩

end P2Poker.Hand
