import P2Poker.Lib.Cyclic
import P2Poker.Crypto.Log
import P2Poker.Game.State

/-!
# The action log (internal/game/log.go)

The replicated log, the turn it derives, and the two ways an entry is accepted:
a proposal signed by the acting seat, and an auto-fold attested by every other
seat still in the hand. Every method is one step; the read-write lock is left out.
-/

namespace P2Poker.Game
open P2Poker.Lib P2Poker.Crypto

structure Log where
  entries : List Entry
  numPlayers : UInt8
  startingStack : UInt64
  deriving DecidableEq, Repr

def newLog (numPlayers : UInt8) (startingStack : UInt64) : Log := ⟨[], numPlayers, startingStack⟩

namespace Log

def roundID (l : Log) : UInt64 := UInt64.ofNat l.entries.length

def bytes (l : Log) : Bytes := l.entries.flatMap Entry.bytes

def hash (c : Primitives) (l : Log) : Bytes := c.sha256 l.bytes

def state (l : Log) : State := replay l.entries l.numPlayers l.startingStack

/-- `ExpectedNextPlayer`: the turn starts at the round number modulo the seats
and moves past folded seats. -/
def expectedNextPlayer (l : Log) : UInt8 :=
  if l.numPlayers = 0 then 0
  else
    let start := l.roundID.toNat % l.numPlayers.toNat
    UInt8.ofNat ((firstFrom l.numPlayers.toNat start fun p => !l.state.isFolded p).getD start)

def append (l : Log) (e : Entry) : Log := { l with entries := l.entries ++ [e] }

def rollbackLast (l : Log) : Log := { l with entries := l.entries.dropLast }

/-! ### Auto-folds -/

def autoFoldTag : Bytes := ascii "auto_fold"

def autoFoldPayload (l : Log) (roundID : UInt64) (targetSeat : UInt8) : Bytes :=
  l.bytes ++ autoFoldTag ++ be64 roundID ++ [targetSeat]

def buildAutoFoldAttestation (c : Primitives) (l : Log) (roundID : UInt64) (targetSeat : UInt8)
    (sk : c.PrivateKey) : Bytes :=
  c.sign sk (l.autoFoldPayload roundID targetSeat)

def verifyAutoFoldAttestation (c : Primitives) (l : Log) (roundID : UInt64) (targetSeat : UInt8)
    (pk sig : Bytes) : Except String Unit :=
  if pk.length ≠ publicKeySize then .error "attestor has no public key"
  else if c.verify pk (l.autoFoldPayload roundID targetSeat) sig = false then
    .error "invalid auto-fold attestation signature"
  else .ok ()

/-- `ExpectedAutoFoldAttestors`: non-folded seats minus the target, ascending. -/
def expectedAutoFoldAttestors (l : Log) (targetSeat : UInt8) : List UInt8 :=
  ((List.range l.numPlayers.toNat).filter fun seat =>
    !(seat == targetSeat.toNat || l.state.isFolded seat)).map UInt8.ofNat

/-- The co-signer loop of `VerifyAutoFoldEntry`, from position `i` on. -/
def verifyCoSigners (c : Primitives) (l : Log) (e : Entry) (pks : UInt8 → Option Bytes) :
    ℕ → List UInt8 → List UInt8 → List Bytes → Except String Unit
  | i, seat :: seats, want :: wants, sig :: sigs =>
    if seat ≠ want then .error s!"auto-fold co-signer[{i}] = {seat}, want {want}"
    else
      match pks seat with
      | none => .error s!"auto-fold attestor {seat}: no public key registered"
      | some pk =>
        match l.verifyAutoFoldAttestation c e.roundID e.playerID pk sig with
        | .error err => .error s!"auto-fold attestor {seat}: {err}"
        | .ok _ => verifyCoSigners c l e pks (i + 1) seats wants sigs
  | _, _, _, _ => .ok ()

def verifyAutoFoldEntry (c : Primitives) (l : Log) (e : Entry) (pks : UInt8 → Option Bytes) :
    Except String Unit :=
  let got := e.roundID
  let round := l.roundID
  let target := e.playerID
  let expected := l.expectedAutoFoldAttestors target
  let signers := e.coSigners.length
  let sigs := e.coSignatures.length
  let count := expected.length
  if got ≠ round then .error s!"auto-fold round mismatch: got {got}, want {round}"
  else if e.isAutoFold = false then .error "entry is not an auto-fold"
  else if l.numPlayers ≤ target then .error s!"auto-fold target seat {target} out of range"
  else if l.state.isFolded target.toNat then
    .error s!"auto-fold target seat {target} already folded"
  else if count = 0 then .error "no eligible attestors for auto-fold"
  else if signers ≠ count then .error s!"auto-fold co-signer count {signers}, want {count}"
  else if sigs ≠ signers then
    .error s!"auto-fold co-signatures/co-signers length mismatch ({sigs} vs {signers})"
  else verifyCoSigners c l e pks 0 e.coSigners expected e.coSignatures

def appendAutoFold (c : Primitives) (l : Log) (e : Entry) (pks : UInt8 → Option Bytes) :
    Except String Log :=
  match l.verifyAutoFoldEntry c e pks with
  | .error err => .error err
  | .ok _ => .ok (l.append e)

/-! ### Proposals -/

def proposalPayload (l : Log) (action : Action) : Bytes := l.bytes ++ action.bytes

def buildProposal (c : Primitives) (l : Log) (playerID : UInt8) (action : Action)
    (sk : c.PrivateKey) : Entry :=
  { roundID := l.roundID
    playerID := playerID
    action := action
    signature := c.sign sk (l.proposalPayload action) }

def verifyProposal (c : Primitives) (l : Log) (p : Entry) (pk : Bytes) : Except String Unit :=
  if p.roundID ≠ l.roundID then .error "round id mismatch"
  else if p.playerID ≠ l.expectedNextPlayer then .error "player id mismatch"
  else if pk.length ≠ publicKeySize then .error "verifier has no public key for proposer"
  else if c.verify pk (l.proposalPayload p.action) p.signature = false then
    .error "invalid proposal signature"
  else
    match l.state.validateAction p.playerID p.action with
    | .error err => .error s!"illegal action: {err}"
    | .ok _ => .ok ()

/-! ### Verify receipts -/

def receiptPayload (hash : Bytes) (roundID : UInt64) : Bytes :=
  hash ++ ascii "verify" ++ be64 roundID

end Log

structure VerifyReceipt where
  roundID : UInt64
  playerID : UInt8
  postLogHash : Bytes
  signature : Bytes
  deriving DecidableEq, Repr

namespace Log

def buildVerifyReceipt (c : Primitives) (l : Log) (playerID : UInt8) (sk : c.PrivateKey) :
    VerifyReceipt :=
  { roundID := l.roundID - 1
    playerID := playerID
    postLogHash := l.hash c
    signature := c.sign sk (receiptPayload (l.hash c) (l.roundID - 1)) }

end Log

end P2Poker.Game
