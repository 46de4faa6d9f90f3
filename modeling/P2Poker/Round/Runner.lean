import P2Poker.Lib.Wire
import P2Poker.Ephemeral.Store
import P2Poker.Game.Accept

/-!
# One node's rounds (internal/round/runner.go)

`runRound` as a state machine. A step goes from one interaction with the rest of
the system to the next: a read answered by a peer, a deadline, a write to the
node's own store. The parent context is never cancelled.
-/

namespace P2Poker.Round
open P2Poker.Lib P2Poker.Crypto P2Poker.Game P2Poker.Ephemeral

/-- What a `Runner` is made with: its node's seat and peers, its keys, the
session rules, and `encoding/gob` for the two records it exchanges. -/
structure Setup (c : Primitives) where
  order : List Bytes
  seatIdx : ℕ
  sk : c.PrivateKey
  pk : Bytes
  peerPK : Bytes → Option Bytes
  cfgMaxAttempts : UInt32
  entryCodec : Codec Entry
  receiptCodec : Codec VerifyReceipt

namespace Setup
variable {c : Primitives} (u : Setup c)

/- `New` replaces an unset limit. -/
def maxAttempts : UInt32 := if u.cfgMaxAttempts = 0 then 3 else u.cfgMaxAttempts

def nodeID (seat : ℕ) : Bytes := u.order.getD seat []

def mySeat : UInt8 := UInt8.ofNat u.seatIdx

end Setup

inductive Outcome where
  | committed
  | rejected
  | timeout
  | autoFold
  deriving DecidableEq, Repr

structure AttemptEvent where
  roundID : UInt64
  attempt : UInt32 := 0
  outcome : Outcome
  reason : Bytes := []
  deriving DecidableEq, Repr

/-- Where a node stands inside an attempt, or in `driveAutoFold` after the last. -/
inductive Stage where
  -- proposer: waiting for an action
  | choosing
  -- proposer: the proposal is hosted, the log untouched
  | hosted (e : Entry)
  -- verifier: polling the proposer
  | polling
  -- verifier: the proposer's store answered
  | fetched (data : Bytes)
  -- verifier: the proposal is invalid, waiting for the deadline
  | silent (reason : Bytes)
  -- the entry is appended, the receipt not yet hosted
  | appended
  -- polling receipts; the seats that answered
  | collecting (got : List ℕ)
  -- the attempt returned; `none` is a commit, else the reason of the timeout
  | returned (timeout : Option Bytes)
  | cleaned (timeout : Option Bytes)
  | attesting
  | gathering (cosigs : List (UInt8 × Option Bytes))
  deriving DecidableEq, Repr

inductive Phase where
  | idle
  | inRound (roundID : UInt64) (proposerSeat : UInt8) (attempt : UInt32) (stage : Stage)
  -- `runRound` returned an error
  | failed
  deriving DecidableEq, Repr

/-- A call of `SubmitAction` that has found its node to be the proposer. -/
structure Submission where
  action : Action
  -- `ValidateAction` has passed
  legal : Bool := false
  deriving DecidableEq, Repr

/-- The sections of a call of `SubmitAction`. It looks at the turn and then at the
rules, each time at the log as it stands, and then sends; nothing is held in between. -/
inductive Submit where
  | turn (a : Action)
  | rules (call : ℕ)
  | send (call : ℕ)
  deriving DecidableEq, Repr

structure Runner where
  log : Log
  store : Store Bytes := Store.new
  -- the calls of `SubmitAction` under way
  submitting : List Submission := []
  actionCh : Option Action := none
  events : List AttemptEvent := []
  -- how often `runRound` returned nil
  rounds : ℕ
  phase : Phase := .idle

inductive Input where
  | submit (s : Submit)
  | beginRound
  | propose
  | append
  | hostReceipt
  | proposal (data : Bytes)
  | receipt (seat : ℕ) (data : Bytes)
  | collected
  | deadline
  | receiptFailed (seat : ℕ)
  | cleanup
  | conclude
  | attest
  | attestation (seat : UInt8) (data : Bytes)
  | attestationFailed (seat : UInt8)
  | foldProposer

/- A call of `SubmitAction` with nothing in between. -/
def submits (a : Action) : List Input := [.submit (.turn a), .submit (.rules 0), .submit (.send 0)]

namespace Runner
variable {c : Primitives} (u : Setup c) (r : Runner)

def isProposer : Bool := r.log.expectedNextPlayer.toNat == u.seatIdx

/-- `SubmitAction`; the channel holds one action. A call that fails returns its error. -/
def submitAction : Submit → Option Runner
  | .turn a =>
    if r.isProposer u then some { r with submitting := r.submitting ++ [{ action := a }] } else none
  | .rules call =>
    match r.submitting[call]? with
    | some ⟨a, false⟩ =>
      match r.log.state.validateAction u.mySeat a with
      | .error _ => some { r with submitting := r.submitting.eraseIdx call }
      | .ok _ => some { r with submitting := r.submitting.set call ⟨a, true⟩ }
    | _ => none
  | .send call =>
    match r.submitting[call]? with
    | some ⟨a, true⟩ =>
      match r.actionCh with
      | some _ => some { r with submitting := r.submitting.eraseIdx call }
      | none => some { r with actionCh := some a, submitting := r.submitting.eraseIdx call }
    | _ => none

/- The stage an attempt starts in, by role. -/
def startStage : Stage := if r.isProposer u then .choosing else .polling

/-- `Run` enters `runRound` unless the hand is over. A slice never has 2^63 elements. -/
def beginRound : Option Runner :=
  match r.phase with
  | .idle =>
    if r.log.state.handOver = false ∧ r.log.entries.length + 1 < 2 ^ 63 then
      some { r with
        phase := .inRound r.log.roundID r.log.expectedNextPlayer 0 (r.startStage u) }
    else none
  | _ => none

/-- The proposer takes an action: an illegal one is rejected in place, a legal
one is hosted as a proposal. -/
def propose : Option Runner :=
  match r.phase, r.actionCh with
  | .inRound roundID p attempt .choosing, some action =>
    let entry := r.log.buildProposal c u.mySeat action u.sk
    match r.log.verifyProposal c entry u.pk with
    | .error err =>
      let event : AttemptEvent := ⟨roundID, attempt, .rejected, ascii err⟩
      some { r with actionCh := none, events := r.events ++ [event] }
    | .ok _ =>
      let store := r.store.put (proposalKey roundID attempt) (u.entryCodec.encode entry)
      some { r with
        actionCh := none, store := store, phase := .inRound roundID p attempt (.hosted entry) }
  | _, _ => none

/-- The verifier's poll of the proposal is answered. -/
def proposal (data : Bytes) : Option Runner :=
  match r.phase with
  | .inRound roundID p attempt .polling =>
    some { r with phase := .inRound roundID p attempt (.fetched data) }
  | _ => none

/-- Append the proposal: the proposer its own, the verifier the fetched one if
it decodes and verifies. An invalid proposal is met with silence. -/
def append : Option Runner :=
  match r.phase with
  | .inRound roundID p attempt (.hosted entry) =>
    some { r with log := r.log.append entry, phase := .inRound roundID p attempt .appended }
  | .inRound roundID p attempt (.fetched data) =>
    match u.entryCodec.decode data with
    | none =>
      -- the reason goes on with gob's own error text
      some { r with phase := .inRound roundID p attempt (.returned (some (ascii "decode proposal: "))) }
    | some entry =>
      let proposerID := u.nodeID r.log.expectedNextPlayer.toNat
      match r.log.verifyProposal c entry ((u.peerPK proposerID).getD []) with
      | .error err => some { r with phase := .inRound roundID p attempt (.silent (ascii err)) }
      | .ok _ =>
        some { r with log := r.log.append entry, phase := .inRound roundID p attempt .appended }
  | _ => none

def hostReceipt : Option Runner :=
  match r.phase with
  | .inRound roundID p attempt .appended =>
    let receipt := u.receiptCodec.encode (r.log.buildVerifyReceipt c u.mySeat u.sk)
    some { r with
      store := r.store.put (verifyKey roundID attempt (u.nodeID u.seatIdx)) receipt
      phase := .inRound roundID p attempt (.collecting []) }
  | _ => none

/-- The seats `collectVerifyReceipts` polls: the others that are not folded in
the log with the new entry. -/
def receiptSeats : List ℕ :=
  (List.range u.order.length).filter fun seat =>
    !(u.nodeID seat == u.nodeID u.seatIdx || r.log.state.isFolded seat)

/- Only the presence of a receipt counts; its contents are dropped. A seat is polled until
it answers. -/
def receipt (seat : ℕ) : Option Runner :=
  match r.phase with
  | .inRound roundID p attempt (.collecting got) =>
    if seat ∈ r.receiptSeats u ∧ seat ∉ got then
      some { r with phase := .inRound roundID p attempt (.collecting (seat :: got)) }
    else none
  | _ => none

def collected : Option Runner :=
  match r.phase with
  | .inRound roundID p attempt (.collecting got) =>
    if ∀ seat ∈ r.receiptSeats u, seat ∈ got then
      some { r with phase := .inRound roundID p attempt (.returned none) }
    else none
  | _ => none

def contextError : Bytes := ascii "context deadline exceeded"

/-- The attempt's deadline while nothing is appended. An answer that is on its
way may be too late. -/
def deadline : Option Runner :=
  let pollError := ascii "poll proposal from " ++ u.nodeID r.log.expectedNextPlayer.toNat ++
    ascii ": " ++ contextError
  match r.phase with
  | .inRound roundID p attempt .choosing =>
    some { r with
      phase := .inRound roundID p attempt (.returned (some (ascii "no legal action before deadline"))) }
  | .inRound roundID p attempt .polling =>
    some { r with phase := .inRound roundID p attempt (.returned (some pollError)) }
  | .inRound roundID p attempt (.fetched _) =>
    some { r with phase := .inRound roundID p attempt (.returned (some pollError)) }
  | .inRound roundID p attempt (.silent reason) =>
    some { r with phase := .inRound roundID p attempt (.returned (some reason)) }
  | _ => none

/-- The deadline while receipts are polled: the entry is rolled back. -/
def receiptFailed (seat : ℕ) : Option Runner :=
  match r.phase with
  | .inRound roundID p attempt (.collecting got) =>
    if seat ∈ r.receiptSeats u ∧ seat ∉ got then
      let reason := ascii "poll verify from " ++ u.nodeID seat ++ ascii ": " ++ contextError
      some { r with
        log := r.log.rollbackLast, phase := .inRound roundID p attempt (.returned (some reason)) }
    else none
  | _ => none

/- The own receipt stays for slower peers. -/
def cleanupAttempt (roundID : UInt64) (attempt : UInt32) : Store Bytes :=
  let others := (List.range u.order.length).filter fun s => u.nodeID s != u.nodeID u.seatIdx
  others.foldl (fun s seat => s.delete (verifyKey roundID attempt (u.nodeID seat)))
    (r.store.delete (proposalKey roundID attempt))

def cleanup : Option Runner :=
  match r.phase with
  | .inRound roundID p attempt (.returned timeout) =>
    some { r with
      store := r.cleanupAttempt u roundID attempt
      phase := .inRound roundID p attempt (.cleaned timeout) }
  | _ => none

/- On a commit the files of the round before are dropped. -/
def pruneStore (roundID : UInt64) : Store Bytes :=
  if 0 < roundID then
    (r.store.deletePrefix (roundPrefix (roundID - 1))).deletePrefix (autoFoldPrefix (roundID - 1))
  else r.store

/-- After an attempt: a commit ends the round, a timeout leads to the next
attempt or, after the last, to the auto-fold. -/
def conclude : Option Runner :=
  match r.phase with
  | .inRound roundID _ attempt (.cleaned none) =>
    let event : AttemptEvent := ⟨roundID, attempt, .committed, []⟩
    some { r with
      store := r.pruneStore roundID
      events := r.events ++ [event]
      rounds := r.rounds + 1
      phase := .idle }
  | .inRound roundID p attempt (.cleaned (some reason)) =>
    let event : AttemptEvent := ⟨roundID, attempt, .timeout, reason⟩
    let stage := if attempt + 1 < u.maxAttempts then r.startStage u else .attesting
    some { r with
      events := r.events ++ [event], phase := .inRound roundID p (attempt + 1) stage }
  | _ => none

/-- `driveAutoFold` fails, and `runRound` with it. -/
def failAutoFold (roundID : UInt64) (err : Bytes) : Runner :=
  { r with events := r.events ++ [⟨roundID, 0, .autoFold, err⟩], phase := .failed }

/- The attestation is hosted unless this node is the target. -/
def hostAttestation (roundID : UInt64) (targetSeat : UInt8) : Store Bytes :=
  if u.mySeat ≠ targetSeat then
    r.store.put (autoFoldKey roundID (u.nodeID u.seatIdx))
      (r.log.buildAutoFoldAttestation c roundID targetSeat u.sk)
  else r.store

/- The co-signatures to gather, in the order of the attestors; the own one is there. -/
def ownCosigs (roundID : UInt64) (targetSeat : UInt8) : List (UInt8 × Option Bytes) :=
  (r.log.expectedAutoFoldAttestors targetSeat).map fun seat =>
    (seat, if seat = u.mySeat then some (r.log.buildAutoFoldAttestation c roundID targetSeat u.sk)
      else none)

/-- The start of `driveAutoFold`. -/
def attest : Option Runner :=
  match r.phase with
  | .inRound roundID targetSeat attempt .attesting =>
    let hosted := { r with store := r.hostAttestation u roundID targetSeat }
    if r.log.expectedAutoFoldAttestors targetSeat = [] then
      some (hosted.failAutoFold roundID (ascii "no eligible attestors"))
    else
      some { hosted with
        phase := .inRound roundID targetSeat attempt (.gathering (r.ownCosigs u roundID targetSeat)) }
  | _ => none

def attestation (seat : UInt8) (data : Bytes) : Option Runner :=
  match r.phase with
  | .inRound roundID targetSeat attempt (.gathering cosigs) =>
    if seat ≠ u.mySeat ∧ (seat, none) ∈ cosigs then
      let cosigs := cosigs.map fun p => if p = (seat, none) then (seat, some data) else p
      some { r with phase := .inRound roundID targetSeat attempt (.gathering cosigs) }
    else none
  | _ => none

def attestationFailed (seat : UInt8) : Option Runner :=
  match r.phase with
  | .inRound roundID _ _ (.gathering cosigs) =>
    if seat ≠ u.mySeat ∧ (seat, none) ∈ cosigs then
      some (r.failAutoFold roundID
        (ascii "poll auto-fold from " ++ u.nodeID seat.toNat ++ ascii ": " ++ contextError))
    else none
  | _ => none

def autoFoldEntry (roundID : UInt64) (targetSeat : UInt8) (cosigs : List (UInt8 × Bytes)) : Entry :=
  { roundID := roundID
    playerID := targetSeat
    action := ⟨.fold, 0⟩
    coSigners := cosigs.map Prod.fst
    coSignatures := cosigs.map Prod.snd }

def attestorPKs (u : Setup c) (expected : List UInt8) (seat : UInt8) : Option Bytes :=
  if seat ∈ expected then u.peerPK (u.nodeID seat.toNat) else none

/-- The end of `driveAutoFold`, once every attestation is there. -/
def foldProposer : Option Runner :=
  match r.phase with
  | .inRound roundID targetSeat _ (.gathering cosigs) =>
    match cosigs.mapM fun p => p.2.map fun sig => (p.1, sig) with
    | none => none
    | some signed =>
      let entry := autoFoldEntry roundID targetSeat signed
      match r.log.appendAutoFold c entry (attestorPKs u (cosigs.map Prod.fst)) with
      | .error err => some (r.failAutoFold roundID (ascii err))
      | .ok log =>
        let event : AttemptEvent := ⟨roundID, 0, .autoFold, []⟩
        some { r with
          log := log, events := r.events ++ [event], rounds := r.rounds + 1, phase := .idle }
  | _ => none

def step (r : Runner) : Input → Option Runner
  | .submit s => r.submitAction u s
  | .beginRound => r.beginRound u
  | .propose => r.propose u
  | .append => r.append u
  | .hostReceipt => r.hostReceipt u
  | .proposal data => r.proposal data
  | .receipt seat _ => r.receipt u seat
  | .collected => r.collected u
  | .deadline => r.deadline u
  | .receiptFailed seat => r.receiptFailed u seat
  | .cleanup => r.cleanup u
  | .conclude => r.conclude u
  | .attest => r.attest u
  | .attestation seat data => r.attestation u seat data
  | .attestationFailed seat => r.attestationFailed u seat
  | .foldProposer => r.foldProposer u

/-- The entries of the rounds that `runRound` returned nil for. -/
def committed : List Entry := r.log.entries.take r.rounds

end Runner

end P2Poker.Round
