import P2Poker.Lib.Trace
import P2Poker.Peer.Winners
import P2Poker.Round.Certified

/-!
# One node's hand (internal/round/runner.go, Run)

`Run` shuffles and deals, and then plays round after round. After each round it
compares the street with the one before it and reveals what has come. What it
calls are the machines of `Peer.Node` and `Round.Runner`; every poll is answered
with any bytes. The two machines share a store in the source, under different
names; here each has its own.
-/

namespace P2Poker.Hand
open P2Poker.Lib P2Poker.Crypto P2Poker.Game P2Poker.Ephemeral

/-- A seat at a table, with what its node brings to the hand. -/
structure Seat (c : Primitives) where
  table : Round.Table c
  idx : ℕ
  idx_lt : idx < table.size
  modKey : Deck.Key
  draws : Deck.Draws
  deckGob : Codec (List Bytes)
  claimGob : Codec Peer.ShowdownClaim

namespace Seat
variable {c : Primitives} (u : Seat c)

def rounds : Round.Setup c := u.table.setup u.idx

def deal : Peer.Setup Deck.Key where
  numPlayers := u.table.size
  seatIdx := u.idx
  modKey := u.modKey
  draws := u.draws

def values : Peer.Values Deck.Key Bytes := Peer.wire Peer.PRIME u.deckGob

end Seat

/-- Where `Run` is. -/
inductive Place where
  -- WaitForGameStart
  | waiting
  -- in a call of the node
  | calling (call : Peer.Call)
  -- at the head of the loop
  | loop
  -- in runRound; the street before it
  | round (street : Street)
  -- in RunShowdown, or back from it
  | showdown (folded : List Bool) (stage : Peer.ShowStage)
  -- nobody else is left; the winner that finishHand names
  | uncontested (winner : ℤ)
  | failed (err : Bytes)

structure Play where
  runner : Round.Runner
  node : Peer.Node Bytes
  place : Place := .waiting
  -- the calls of the node up to now
  calls : List Peer.Call := []

inductive Event where
  | gameStart
  -- a step of the node, with what the seats host at this moment
  | deal (i : Peer.Input) (read : ℕ → Key → Option Bytes)
  -- the call returns
  | back
  | head
  | submit (s : Round.Submit)
  | round (i : Round.Input)
  -- runRound returns
  | settle
  -- the goroutine for a seat's claim comes back
  | claim (seat : ℕ) (read : ℕ → Key → Option Bytes)

/- revealStreet -/
def revealCall : Street → Option Peer.Call
  | .flop => some .revealFlop
  | .turn => some .revealTurn
  | .river => some .revealRiver
  | _ => none

/- What `Run` puts before the error of a call. -/
def callError : Peer.Call → Bytes
  | .runShuffle => ascii "shuffle: "
  | .dealHoleCards => ascii "deal: "
  | .revealFlop => ascii "reveal street 1: "
  | .revealTurn => ascii "reveal street 2: "
  | .revealRiver => ascii "reveal street 3: "

/- The first seat that is not folded. -/
def uncontestedWinner (folded : List Bool) : ℤ :=
  match folded.findIdx? fun f => !f with
  | some seat => seat
  | none => -1

namespace Play
variable {c : Primitives} (u : Seat c) (h : Play)

def start (u : Seat c) : Play where
  runner := .start u.table.numPlayers u.table.startingStack
  node := { card1 := [], card2 := [], todo := [] }

def call (k : Peer.Call) : Play :=
  { h with node := { h.node with todo := [k] }, place := .calling k, calls := h.calls ++ [k] }

/-- A call that has returned leads to the next one or into the loop. -/
def back (k : Peer.Call) : Option Play :=
  match h.node.phase, h.node.todo with
  | .failed err, _ => some { h with place := .failed (callError k ++ err) }
  | .idle, [] =>
    match k with
    | .runShuffle => some (h.call .dealHoleCards)
    | _ => some { h with place := .loop }
  | _, _ => none

def runShowdown (folded : List Bool) : Play :=
  if folded.length ≤ u.idx then
    { h with place := .failed (ascii "finish hand: folded slice shorter than seat count") }
  else
    let node := if folded[u.idx]? = some false then Peer.publishShowdownClaim u.claimGob u.deal h.node
      else h.node
    let stage := if folded.length < u.table.size then .panicked
      else Peer.awaitClaims (Peer.stillIn u.table.size folded) []
    { h with node := node, place := .showdown folded stage }

def finishHand (state : State) : Play :=
  if state.numNonFolded ≤ 1 then { h with place := .uncontested (uncontestedWinner state.folded) }
  else h.runShowdown u state.folded

def head : Option Play :=
  let preState := h.runner.log.state
  if preState.handOver then some (h.finishHand u preState)
  else (h.runner.beginRound u.rounds).map fun r => { h with runner := r, place := .round preState.street }

/- The text of the error runRound returned. -/
def roundError : Bytes :=
  ascii "round " ++ decimal h.runner.log.roundID.toNat ++ ascii ": auto-fold: " ++
    (h.runner.events.getLast?.map Round.AttemptEvent.reason).getD []

/-- After a round: reveal the street if it is a new one. -/
def settle (street : Street) : Option Play :=
  match h.runner.phase with
  | .idle =>
    let postStreet := h.runner.log.state.street
    if postStreet = street then some { h with place := .loop }
    else
      match revealCall postStreet with
      | none => some { h with place := .loop }
      | some k => some (h.call k)
  | .failed => some { h with place := .failed h.roundError }
  | .inRound _ _ _ _ => none

/- The own store is read directly. -/
def fetch (read : ℕ → Key → Option Bytes) (seat : ℕ) (key : Key) : Option Bytes :=
  if seat = u.idx then h.node.store.get key else read seat key

/-- The goroutine of a seat checks its claim. A key that another node does not
host yet is polled again; one the node should host itself is an error. -/
def claim (read : ℕ → Key → Option Bytes) (folded : List Bool) (waiting : List ℕ)
    (claims : List Peer.VerifiedClaim) (seat : ℕ) : Option Play :=
  let last := (Peer.nonOwnerRing u.table.size seat).getLast?
  let done (claims : List Peer.VerifiedClaim) : Play :=
    { h with place := .showdown folded (Peer.awaitClaims (waiting.erase seat) claims) }
  match Peer.pollAndVerifyClaim u.table.size Peer.PRIME (h.fetch u read) u.claimGob
      h.node.communityCards seat with
  | .ok vc => some (done (claims ++ [vc]))
  | .error .fetchClaim => if seat = u.idx then some (done claims) else none
  | .error (.verifyCard1 .fetchRelay) => if last = some u.idx then some (done claims) else none
  | .error (.verifyCard2 .fetchRelay) => if last = some u.idx then some (done claims) else none
  | .error _ => some (done claims)

def step : Event → Option Play
  | .gameStart =>
    match h.place with
    | .waiting => some (h.call .runShuffle)
    | _ => none
  | .deal i read =>
    match h.place with
    | .calling _ => (h.node.step u.values u.deal read i).map fun r => { h with node := r }
    | _ => none
  | .back =>
    match h.place with
    | .calling k => h.back k
    | _ => none
  | .head =>
    match h.place with
    | .loop => h.head u
    | _ => none
  | .submit s => (h.runner.submitAction u.rounds s).map fun r => { h with runner := r }
  | .round i =>
    match h.place with
    | .round _ =>
      if h.runner.phase.inside then (h.runner.step u.rounds i).map fun r => { h with runner := r }
      else none
    | _ => none
  | .settle =>
    match h.place with
    | .round street => h.settle street
    | _ => none
  | .claim seat read =>
    match h.place with
    | .showdown folded (.polling waiting claims) =>
      if seat ∈ waiting then h.claim u read folded waiting claims seat else none
    | _ => none

/-! ### What an event does -/

inductive Move (h : Play) : Event → Play → Prop where
  | gameStart (hp : h.place = .waiting) : Move h .gameStart (h.call .runShuffle)
  | deal {k : Peer.Call} {i : Peer.Input} {read : ℕ → Key → Option Bytes} {r : Peer.Node Bytes}
      (hp : h.place = .calling k) (hr : h.node.step u.values u.deal read i = some r) :
      Move h (.deal i read) { h with node := r }
  | callFailed {k : Peer.Call} {err : Bytes} (hp : h.place = .calling k) :
      Move h .back { h with place := .failed err }
  | shuffled (hp : h.place = .calling .runShuffle) (hidle : h.node.phase = .idle)
      (htodo : h.node.todo = []) : Move h .back (h.call .dealHoleCards)
  | returned {k : Peer.Call} (hp : h.place = .calling k) (hk : k ≠ .runShuffle)
      (hidle : h.node.phase = .idle) (htodo : h.node.todo = []) : Move h .back { h with place := .loop }
  | uncontested (hp : h.place = .loop) (hover : h.runner.log.state.handOver = true)
      (hone : h.runner.log.state.numNonFolded ≤ 1) :
      Move h .head { h with place := .uncontested (uncontestedWinner h.runner.log.state.folded) }
  | showdown {node : Peer.Node Bytes} {stage : Peer.ShowStage} (hp : h.place = .loop)
      (hover : h.runner.log.state.handOver = true) (htwo : 2 ≤ h.runner.log.state.numNonFolded)
      (hnode : node = h.node ∨ node = Peer.publishShowdownClaim u.claimGob u.deal h.node)
      (hstage : stage = .panicked ∨
        stage = Peer.awaitClaims (Peer.stillIn u.table.size h.runner.log.state.folded) []) :
      Move h .head { h with node := node, place := .showdown h.runner.log.state.folded stage }
  | showdownFailed {err : Bytes} (hp : h.place = .loop) : Move h .head { h with place := .failed err }
  | beginRound {r : Round.Runner} (hp : h.place = .loop) (hover : h.runner.log.state.handOver = false)
      (hr : h.runner.beginRound u.rounds = some r) :
      Move h .head { h with runner := r, place := .round h.runner.log.state.street }
  | submit {s : Round.Submit} {r : Round.Runner} (hr : h.runner.submitAction u.rounds s = some r) :
      Move h (.submit s) { h with runner := r }
  | round {street : Street} {i : Round.Input} {r : Round.Runner} (hp : h.place = .round street)
      (hin : h.runner.phase.inside = true) (hr : h.runner.step u.rounds i = some r) :
      Move h (.round i) { h with runner := r }
  | roundFailed {street : Street} {err : Bytes} (hp : h.place = .round street) :
      Move h .settle { h with place := .failed err }
  | settled {street : Street} (hp : h.place = .round street) (hidle : h.runner.phase = .idle)
      (hold : h.runner.log.state.street = street ∨ revealCall h.runner.log.state.street = none) :
      Move h .settle { h with place := .loop }
  | newStreet {street : Street} {k : Peer.Call} (hp : h.place = .round street)
      (hidle : h.runner.phase = .idle) (hnew : h.runner.log.state.street ≠ street)
      (hk : revealCall h.runner.log.state.street = some k) : Move h .settle (h.call k)
  | claim {folded : List Bool} {waiting : List ℕ} {claims claims' : List Peer.VerifiedClaim} {seat : ℕ}
      {read : ℕ → Key → Option Bytes} (hp : h.place = .showdown folded (.polling waiting claims)) :
      Move h (.claim seat read)
        { h with place := .showdown folded (Peer.awaitClaims (waiting.erase seat) claims') }

variable {u h} {h' : Play} {e : Event}

theorem Move.back {k : Peer.Call} (hp : h.place = .calling k) (hs : h.back k = some h') :
    Move u h .back h' := by
  unfold Play.back at hs
  split at hs
  · obtain rfl := Option.some.inj hs
    exact .callFailed hp
  · rename_i hidle htodo
    split at hs
    · obtain rfl := Option.some.inj hs
      exact .shuffled hp hidle htodo
    · rename_i hk
      obtain rfl := Option.some.inj hs
      exact .returned hp hk hidle htodo
  · cases hs

theorem Move.head (hp : h.place = .loop) (hs : h.head u = some h') : Move u h .head h' := by
  unfold Play.head at hs
  dsimp only at hs
  split_ifs at hs with hover
  · obtain rfl := Option.some.inj hs
    unfold finishHand
    split_ifs with hone
    · exact .uncontested hp hover hone
    · unfold runShowdown
      split_ifs
      · exact .showdownFailed hp
      · exact .showdown hp hover (by omega) (.inr rfl) (.inl rfl)
      · exact .showdown hp hover (by omega) (.inr rfl) (.inr rfl)
      · exact .showdown hp hover (by omega) (.inl rfl) (.inl rfl)
      · exact .showdown hp hover (by omega) (.inl rfl) (.inr rfl)
  · obtain ⟨r, hr, rfl⟩ := Option.map_eq_some_iff.mp hs
    exact .beginRound hp (by simpa using hover) hr

theorem Move.settle {street : Street} (hp : h.place = .round street) (hs : h.settle street = some h') :
    Move u h .settle h' := by
  unfold Play.settle at hs
  split at hs
  · rename_i hidle
    dsimp only at hs
    split_ifs at hs with hold
    · obtain rfl := Option.some.inj hs
      exact .settled hp hidle (.inl hold)
    · split at hs
      · rename_i hnone
        obtain rfl := Option.some.inj hs
        exact .settled hp hidle (.inr hnone)
      · rename_i k hk
        obtain rfl := Option.some.inj hs
        exact .newStreet hp hidle hold hk
  · obtain rfl := Option.some.inj hs
    exact .roundFailed hp
  · cases hs

theorem Move.claimed {folded : List Bool} {waiting : List ℕ} {claims : List Peer.VerifiedClaim} {seat : ℕ}
    {read : ℕ → Key → Option Bytes} (hp : h.place = .showdown folded (.polling waiting claims))
    (hs : h.claim u read folded waiting claims seat = some h') : Move u h (.claim seat read) h' := by
  unfold Play.claim at hs
  dsimp only at hs
  split at hs
  · obtain rfl := Option.some.inj hs
    exact .claim hp
  · split_ifs at hs
    obtain rfl := Option.some.inj hs
    exact .claim hp
  · split_ifs at hs
    obtain rfl := Option.some.inj hs
    exact .claim hp
  · split_ifs at hs
    obtain rfl := Option.some.inj hs
    exact .claim hp
  · obtain rfl := Option.some.inj hs
    exact .claim hp

theorem step_move (hs : h.step u e = some h') : Move u h e h' := by
  cases e with
  | gameStart =>
    simp only [step] at hs
    split at hs
    · rename_i hp
      obtain rfl := Option.some.inj hs
      exact .gameStart hp
    · cases hs
  | deal i read =>
    simp only [step] at hs
    split at hs
    · rename_i hp
      obtain ⟨r, hr, rfl⟩ := Option.map_eq_some_iff.mp hs
      exact .deal hp hr
    · cases hs
  | back =>
    simp only [step] at hs
    split at hs
    · rename_i hp
      exact .back hp hs
    · cases hs
  | head =>
    simp only [step] at hs
    split at hs
    · rename_i hp
      exact .head hp hs
    · cases hs
  | submit a =>
    obtain ⟨r, hr, rfl⟩ := Option.map_eq_some_iff.mp hs
    exact .submit hr
  | round i =>
    simp only [step] at hs
    split at hs
    · rename_i hp
      split_ifs at hs with hin
      obtain ⟨r, hr, rfl⟩ := Option.map_eq_some_iff.mp hs
      exact .round hp hin hr
    · cases hs
  | settle =>
    simp only [step] at hs
    split at hs
    · rename_i hp
      exact .settle hp hs
    · cases hs
  | claim seat read =>
    simp only [step] at hs
    split at hs
    · rename_i hp
      split_ifs at hs
      exact .claimed hp hs
    · cases hs

end Play

end P2Poker.Hand
