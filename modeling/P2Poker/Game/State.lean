import P2Poker.Game.Entry

/-!
# Derived game state (internal/game/state.go)

`replay` walks the log and returns the derived state. The walk keeps, beside
the state, the counter `unsettled` of actions still owed on the street.
-/

namespace P2Poker.Game
open P2Poker.Lib

inductive Street where
  | preflop
  | flop
  | turn
  | river
  | showdown
  deriving DecidableEq, Repr

/-- `Street++`; the source never increments past showdown, the hand being over. -/
def Street.next : Street → Street
  | .preflop => .flop
  | .flop => .turn
  | .turn => .river
  | .river => .showdown
  | .showdown => .showdown

def Street.index : Street → ℕ
  | .preflop => 0
  | .flop => 1
  | .turn => 2
  | .river => 3
  | .showdown => 4

structure State where
  /-- `Stacks`, remaining chips per seat. -/
  seatStacks : List UInt64
  pot : UInt64
  currentBet : UInt64
  contributions : List UInt64
  folded : List Bool
  numPlayers : UInt8
  street : Street
  handOver : Bool
  deriving DecidableEq, Repr

namespace State

def stack (s : State) (p : ℕ) : UInt64 := s.seatStacks.getD p 0

def contribution (s : State) (p : ℕ) : UInt64 := s.contributions.getD p 0

def isFolded (s : State) (p : ℕ) : Bool := s.folded.getD p false

def numNonFolded (s : State) : ℕ := s.folded.countP fun f => !f

def pay (s : State) (p : ℕ) (cost : UInt64) : State :=
  { s with
    seatStacks := s.seatStacks.set p (s.stack p - cost)
    contributions := s.contributions.set p (s.contribution p + cost)
    pot := s.pot + cost }

def callCost (s : State) (p : ℕ) : UInt64 := min (s.currentBet - s.contribution p) (s.stack p)

def raiseCost (s : State) (p : ℕ) (raiseTo : UInt64) : UInt64 :=
  min (raiseTo - s.contribution p) (s.stack p)

end State

structure Replay where
  state : State
  unsettled : ℤ
  deriving DecidableEq, Repr

namespace Replay

def start (numPlayers : UInt8) (startingStack : UInt64) : Replay where
  state :=
    { seatStacks := List.replicate numPlayers.toNat startingStack
      pot := 0
      currentBet := 0
      contributions := List.replicate numPlayers.toNat 0
      folded := List.replicate numPlayers.toNat false
      numPlayers := numPlayers
      street := .preflop
      handOver := false }
  unsettled := numPlayers.toNat

/-- The switch on the action's kind. -/
def act (r : Replay) (e : Entry) : Replay :=
  let p := e.playerID.toNat
  match e.action.kind with
  | .fold => ⟨{ r.state with folded := r.state.folded.set p true }, r.unsettled - 1⟩
  | .check => ⟨r.state, r.unsettled - 1⟩
  | .call => ⟨r.state.pay p (r.state.callCost p), r.unsettled - 1⟩
  | .raise =>
    let s := r.state.pay p (r.state.raiseCost p e.action.amount)
    let s := { s with currentBet := s.contribution p }
    ⟨s, (s.numNonFolded : ℤ) - 1⟩
  | .unknown _ => r

/-- The end of the loop body: hand over by folds, or the street closes. -/
def settle (r : Replay) : Replay :=
  if r.state.numNonFolded ≤ 1 then { r with state := { r.state with handOver := true } }
  else if r.unsettled = 0 then
    let s := { r.state with street := r.state.street.next }
    if s.street = .showdown then { r with state := { s with handOver := true } }
    else
      ⟨{ s with currentBet := 0, contributions := s.contributions.map fun _ => 0 },
        s.numNonFolded⟩
  else r

/-- One turn of the loop; after the hand is over the loop is left. -/
def step (r : Replay) (e : Entry) : Replay :=
  if r.state.handOver then r else (r.act e).settle

def run (numPlayers : UInt8) (startingStack : UInt64) (entries : List Entry) : Replay :=
  entries.foldl step (start numPlayers startingStack)

end Replay

def replay (entries : List Entry) (numPlayers : UInt8) (startingStack : UInt64) : State :=
  (Replay.run numPlayers startingStack entries).state

def State.validateAction (s : State) (playerID : UInt8) (action : Action) : Except String Unit :=
  let p := playerID.toNat
  let bet := s.currentBet
  let owed := bet - s.contribution p
  let raiseTo := action.amount
  let cost := raiseTo - s.contribution p
  let have_ := s.stack p
  if s.handOver then .error "hand is over"
  else if s.seatStacks.length ≤ p then .error s!"player {p} out of range"
  else if s.isFolded p then .error s!"player {p} already folded"
  else
    match action.kind with
    | .fold => if action.amount ≠ 0 then .error "fold must have amount 0" else .ok ()
    | .check =>
      if action.amount ≠ 0 then .error "check must have amount 0"
      else if s.contribution p < bet then
        .error s!"cannot check: must call or raise (owe {owed})"
      else .ok ()
    | .call =>
      if action.amount ≠ 0 then .error "call must have amount 0 (cost is computed)"
      else if owed = 0 then .error "nothing to call, use check"
      else .ok ()
    | .raise =>
      if raiseTo ≤ bet then .error s!"raise-to {raiseTo} must exceed current bet {bet}"
      else if s.stack p < cost then
        .error s!"raise costs {cost} but player only has {have_}"
      else .ok ()
    | .unknown k => .error s!"unknown action kind {k.val}"

end P2Poker.Game
