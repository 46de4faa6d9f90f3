import P2Poker.Crypto.Deck
import P2Poker.Ephemeral.Store
import P2Poker.Lib.Wire

/-!
# Dealing (internal/peer/shuffle.go, deal.go, community.go)

One node's part in shuffling, dealing the hole cards and revealing the board, as
a state machine. A poll reads another node's store; a step that waits for a key
that is not hosted yet cannot be taken. Between the answer to a poll and what
the node does with it, other nodes may move.

The node is written over the operations it uses on the values it hosts. `wire`
gives the program's own: byte strings, exponents modulo a prime, gob.
-/

namespace P2Poker.Peer
open P2Poker.Lib P2Poker.Crypto P2Poker.Ephemeral

structure Values (K V : Type) extends Cipher K V where
  -- the plain card of a number
  card : ℕ → V
  -- the empty string
  empty : V
  isEmpty : V → Bool
  encodeDeck : List V → V
  decodeDeck : V → Option (List V)

def wire (prime : ℕ) (gob : Codec (List Bytes)) : Values Deck.Key Bytes where
  toCipher := Deck.cipher prime
  card := decimal
  empty := []
  isEmpty := List.isEmpty
  encodeDeck := gob.encode
  decodeDeck := gob.decode

/-- The public prime of all nodes. -/
def PRIME : ℕ := 13619

/-! ### The node -/

/-- What a node brings to the hand: its seat at the table, its key, and what its
random source returns to `Shuffle`. -/
structure Setup (K : Type) where
  numPlayers : ℕ
  seatIdx : ℕ
  modKey : K
  draws : Deck.Draws

/-- The calls of `Runner.Run` in a hand that goes to the river. -/
inductive Call where
  | runShuffle
  | dealHoleCards
  | revealFlop
  | revealTurn
  | revealRiver
  deriving DecidableEq

def hand : List Call := [.runShuffle, .dealHoleCards, .revealFlop, .revealTurn, .revealRiver]

/-- A goroutine of `dealHoleSlot`. -/
inductive SlotStage (V : Type) where
  -- waiting for the relay of a seat
  | polling (seat : ℕ)
  | layered (data : V)
  | returned (err : Option Bytes)

def SlotStage.err {V : Type} : SlotStage V → Option Bytes
  | .returned err => err
  | _ => none

def SlotStage.isReturned {V : Type} : SlotStage V → Bool
  | .returned _ => true
  | _ => false

inductive Phase (V : Type) where
  | idle
  -- `RunShuffle`: waiting for the seat before, about to shuffle, waiting for the last seat
  | pollStep
  | shuffling (d : List V)
  | pollFinal
  -- `DealHoleCards`, one goroutine for each slot
  | holes (slots : List (SlotStage V))
  -- `RevealCommunityCard`, with the cards that follow in the same call
  | pollRelay (cardIdx : ℕ) (rest : List ℕ)
  | stripping (cardIdx : ℕ) (layered : V) (rest : List ℕ)
  | pollCard (cardIdx : ℕ) (rest : List ℕ)
  -- a call returned an error
  | failed (err : Bytes)

structure Node (V : Type) where
  store : Store V := Store.new
  finalDeck : List V := []
  card1 : V
  card2 : V
  community : List V := []
  phase : Phase V := .idle
  -- the calls still to come
  todo : List Call := hand

inductive Input where
  | begin
  | pollStep
  | shuffle
  | pollFinal
  | pollHole (slot : ℕ)
  | stripSlot (slot : ℕ)
  | holesDone
  | pollRelay
  | stripCard
  | pollCard

def nonOwnerRing (numPlayers ownerSeat : ℕ) : List ℕ :=
  (List.range numPlayers).filter fun i => i != ownerSeat

def ringPosition (ring : List ℕ) (seat : ℕ) : Option ℕ := ring.idxOf? seat

namespace Setup
variable {K : Type} (u : Setup K)

/-- Hole cards take the first two slots of every player. -/
def communityBase : ℕ := u.numPlayers * 2

def lastSeat : ℕ := u.numPlayers - 1

end Setup

def Call.cards {K : Type} (u : Setup K) : Call → List ℕ
  | .revealFlop => [u.communityBase, u.communityBase + 1, u.communityBase + 2]
  | .revealTurn => [u.communityBase + 3]
  | .revealRiver => [u.communityBase + 4]
  | _ => []

namespace Node
variable {K V : Type} (o : Values K V) (u : Setup K) (r : Node V)

def holeCards : V × V := (r.card1, r.card2)

def communityCards : List V := r.community

/-! ### RunShuffle -/

def buildOrderedDeck : List V := (List.range 52).map fun i => o.card (i + 1)

def encryptDeck (d : List V) : List V := d.map (o.enc u.modKey)

/-- Shuffle, encrypt and host; the last seat then has the final deck. -/
def shuffle (d : List V) : Node V :=
  let d := encryptDeck o u (Deck.shuffle u.draws d)
  let r := { r with store := r.store.put (shuffleStepKey u.seatIdx) (o.encodeDeck d) }
  if u.seatIdx = u.lastSeat then { r with finalDeck := d, phase := .idle }
  else { r with phase := .pollFinal }

/-! ### DealHoleCards -/

/- Where the goroutine of a slot first waits. -/
def dealHoleSlot (slot : ℕ) : SlotStage V :=
  let ownerSeat := slot / 2
  let ring := nonOwnerRing u.numPlayers ownerSeat
  match r.finalDeck[slot]? with
  | none => .returned (some (ascii "slot " ++ decimal slot ++ ascii " out of bounds"))
  | some card =>
    if u.numPlayers ≤ ownerSeat then
      .returned (some (ascii "slot " ++ decimal slot ++ ascii " has no owner seat"))
    else
      match ring.getLast? with
      | none => .returned (some (ascii "empty ring for slot " ++ decimal slot))
      | some lastStripper =>
        if u.seatIdx = ownerSeat then .polling lastStripper
        else
          match ringPosition ring u.seatIdx with
          | none =>
            .returned (some (ascii "seat " ++ decimal u.seatIdx ++ ascii " not in ring for slot "
              ++ decimal slot))
          | some 0 => .layered card
          | some (i + 1) => .polling (ring.getD i 0)

def setHole (slot : ℕ) (card : V) : Node V :=
  if slot % 2 = 0 then { r with card1 := card } else { r with card2 := card }

/- The owner keeps the plain card, the others host what is left. -/
def stripSlot (slot : ℕ) (layered : V) : Node V :=
  let stripped := o.dec u.modKey layered
  if u.seatIdx = slot / 2 then r.setHole slot stripped
  else { r with store := r.store.put (holeRelayKey slot u.seatIdx) stripped }

/-! ### RevealCommunityCard -/

/- Start on the next card of a reveal, or return. -/
def reveal : List ℕ → Node V
  | [] => { r with phase := .idle }
  | cardIdx :: rest =>
    match r.finalDeck[cardIdx]? with
    | none =>
      { r with phase := .failed (ascii "card index " ++ decimal cardIdx ++ ascii " out of bounds") }
    | some card =>
      if u.seatIdx = 0 then { r with phase := .stripping cardIdx card rest }
      else { r with phase := .pollRelay cardIdx rest }

/-- A board slot keeps the first card written to it. -/
def setCommunity (cardIdx : ℕ) (card : V) : Node V :=
  let boardIdx := cardIdx - u.communityBase
  let community := r.community ++ List.replicate (boardIdx + 1 - r.community.length) o.empty
  if o.isEmpty (community.getD boardIdx o.empty) then
    { r with community := community.set boardIdx card }
  else { r with community := community }

def stripCard (cardIdx : ℕ) (layered : V) (rest : List ℕ) : Node V :=
  let stripped := o.dec u.modKey layered
  let store := r.store.put (communityRelayKey cardIdx u.seatIdx) stripped
  if u.seatIdx = u.lastSeat then
    let r := { r with store := store.put (communityCardKey cardIdx) stripped }
    (r.setCommunity o u cardIdx stripped).reveal u rest
  else { r with store := store, phase := .pollCard cardIdx rest }

/-! ### Steps -/

/-- The next call of the hand. -/
def begin : Option (Node V) :=
  match r.phase, r.todo with
  | .idle, .runShuffle :: todo =>
    let r := { r with todo := todo }
    if u.numPlayers < 2 then
      some { r with phase := .failed (ascii "not enough players to shuffle") }
    else if u.seatIdx = 0 then some { r with phase := .shuffling (buildOrderedDeck o) }
    else some { r with phase := .pollStep }
  | .idle, .dealHoleCards :: todo =>
    some { r with
      phase := .holes ((List.range (u.numPlayers * 2)).map (r.dealHoleSlot u)), todo := todo }
  | .idle, call :: todo => some ({ r with todo := todo }.reveal u (call.cards u))
  | _, _ => none

/-- One step; `read` is what the seats host at this moment. -/
def step (read : ℕ → Key → Option V) : Input → Option (Node V)
  | .begin => r.begin o u
  | .pollStep =>
    match r.phase, read (u.seatIdx - 1) (shuffleStepKey (u.seatIdx - 1)) with
    | .pollStep, some data =>
      match o.decodeDeck data with
      | some d => some { r with phase := .shuffling d }
      -- the error goes on with gob's own text
      | none =>
        some { r with
          phase := .failed (ascii "decode shuffle step " ++ decimal (u.seatIdx - 1) ++ ascii ": ") }
    | _, _ => none
  | .shuffle =>
    match r.phase with
    | .shuffling d => some (r.shuffle o u d)
    | _ => none
  | .pollFinal =>
    match r.phase, read u.lastSeat (shuffleStepKey u.lastSeat) with
    | .pollFinal, some data =>
      match o.decodeDeck data with
      | some d => some { r with finalDeck := d, phase := .idle }
      | none => some { r with phase := .failed (ascii "decode final deck: ") }
    | _, _ => none
  | .pollHole slot =>
    match r.phase with
    | .holes slots =>
      match slots[slot]? with
      | some (.polling seat) =>
        match read seat (holeRelayKey slot seat) with
        | some data => some { r with phase := .holes (slots.set slot (.layered data)) }
        | none => none
      | _ => none
    | _ => none
  | .stripSlot slot =>
    match r.phase with
    | .holes slots =>
      match slots[slot]? with
      | some (.layered data) =>
        some { r.stripSlot o u slot data with phase := .holes (slots.set slot (.returned none)) }
      | _ => none
    | _ => none
  | .holesDone =>
    match r.phase with
    | .holes slots =>
      if slots.all SlotStage.isReturned then
        -- an error that some goroutine reported
        match slots.filterMap SlotStage.err with
        | [] => some { r with phase := .idle }
        | err :: _ => some { r with phase := .failed err }
      else none
    | _ => none
  | .pollRelay =>
    match r.phase with
    | .pollRelay cardIdx rest =>
      match read (u.seatIdx - 1) (communityRelayKey cardIdx (u.seatIdx - 1)) with
      | some data => some { r with phase := .stripping cardIdx data rest }
      | none => none
    | _ => none
  | .stripCard =>
    match r.phase with
    | .stripping cardIdx layered rest => some (r.stripCard o u cardIdx layered rest)
    | _ => none
  | .pollCard =>
    match r.phase with
    | .pollCard cardIdx rest =>
      match read u.lastSeat (communityCardKey cardIdx) with
      | some data => some ((r.setCommunity o u cardIdx data).reveal u rest)
      | none => none
    | _ => none

end Node

end P2Poker.Peer
