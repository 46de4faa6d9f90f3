import P2Poker.Round.Runner

/-!
# A table of nodes

The nodes of one hand take steps in any order. A poll is answered with what the
polled node hosts at that moment; a seat that does not follow the program
answers with any bytes. Between the answer and the step that uses it any number
of other steps may fall, so messages are delayed arbitrarily.
-/

namespace P2Poker.Round
open P2Poker.Lib P2Poker.Crypto P2Poker.Game P2Poker.Ephemeral

/-- What dispatch hands to every node at the start. Seats are `uint8`. -/
structure Table (c : Primitives) where
  order : List Bytes
  order_nodup : order.Nodup
  order_length : order.length < 256
  secretKey : ℕ → c.PrivateKey
  cfgMaxAttempts : UInt32
  startingStack : UInt64
  entryCodec : Codec Entry
  receiptCodec : Codec VerifyReceipt

namespace Table
variable {c : Primitives} (t : Table c)

def size : ℕ := t.order.length

def numPlayers : UInt8 := UInt8.ofNat t.size

theorem numPlayers_toNat : t.numPlayers.toNat = t.size := by
  rw [numPlayers, toNat_ofNat_byte]
  exact Nat.mod_eq_of_lt t.order_length

/- Every node has the keys of all seats. -/
def peerPK (id : Bytes) : Option Bytes :=
  if id ∈ t.order then some (c.publicKey (t.secretKey (t.order.idxOf id))) else none

def setup (seat : ℕ) : Setup c where
  order := t.order
  seatIdx := seat
  sk := t.secretKey seat
  pk := c.publicKey (t.secretKey seat)
  peerPK := t.peerPK
  cfgMaxAttempts := t.cfgMaxAttempts
  entryCodec := t.entryCodec
  receiptCodec := t.receiptCodec

def nodeID (seat : ℕ) : Bytes := t.order.getD seat []

theorem nodeID_inj {p q : ℕ} (hp : p < t.size) (hq : q < t.size) (h : t.nodeID p = t.nodeID q) :
    p = q := by
  unfold nodeID at h
  rw [List.getD_eq_getElem _ _ hp, List.getD_eq_getElem _ _ hq] at h
  exact (List.Nodup.getElem_inj_iff t.order_nodup).mp h

theorem mem_receiptSeats {r : Runner} {s q : ℕ} (hs : s < t.size) :
    q ∈ r.receiptSeats (t.setup s) ↔ q < t.size ∧ q ≠ s ∧ r.log.state.isFolded q = false := by
  unfold Runner.receiptSeats
  rw [List.mem_filter, List.mem_range]
  refine and_congr_right fun hq => ?_
  have hid : (t.setup s).nodeID q = (t.setup s).nodeID (t.setup s).seatIdx ↔ q = s :=
    ⟨t.nodeID_inj hq hs, fun h => by rw [h]; rfl⟩
  simp [hid]

end Table

/-- The nodes by seat. -/
abbrev Net := ℕ → Runner

variable {c : Primitives} (t : Table c)

/-- All nodes between rounds, with the same log. -/
def Net.start (l : Log) : Net := fun _ => { log := l, rounds := l.entries.length }

/-- The bytes a poll returns, if the polled seat follows the program, are the
ones it hosts. -/
def Served (honest : ℕ → Bool) (net : Net) (s : ℕ) (i : Input) : Prop :=
  match i, (net s).phase with
  | .proposal data, .inRound roundID _ attempt _ =>
    let q := (net s).log.expectedNextPlayer.toNat
    honest q = true → (net q).store.get (proposalKey roundID attempt) = some data
  | .receipt q data, .inRound roundID _ attempt _ =>
    honest q = true → (net q).store.get (verifyKey roundID attempt (t.nodeID q)) = some data
  | .attestation q data, .inRound roundID _ _ _ =>
    honest q.toNat = true →
      (net q.toNat).store.get (autoFoldKey roundID (t.nodeID q.toNat)) = some data
  | _, _ => True

instance (honest : ℕ → Bool) (net : Net) (s : ℕ) (i : Input) : Decidable (Served t honest net s i) := by
  delta Served
  induction i using Input.casesOn <;> induction (net s).phase using Phase.casesOn <;> infer_instance

/-- One step of an honest node, taken only when `P` holds before it. -/
inductive Step (honest : ℕ → Bool) (P : Net → ℕ → Input → Prop) : Net → Net → Prop
  | node {net : Net} {s : ℕ} {i : Input} {r : Runner} : s < t.size → honest s = true →
      Served t honest net s i → P net s i → (net s).step (t.setup s) i = some r →
      Step honest P net (Function.update net s r)

/-- The states a run from `start` goes through. -/
def Reaches (honest : ℕ → Bool) (P : Net → ℕ → Input → Prop) : Net → Net → Prop :=
  Relation.ReflTransGen (Step t honest P)

variable {t} in
theorem Reaches.mono {honest : ℕ → Bool} {P Q : Net → ℕ → Input → Prop} {net net' : Net}
    (h : Reaches t honest P net net') (hPQ : ∀ net s i, P net s i → Q net s i) :
    Reaches t honest Q net net' := by
  refine Relation.ReflTransGen.mono ?_ _ _ h
  rintro _ _ ⟨hs, hh, hserved, hp, hrun⟩
  exact .node hs hh hserved (hPQ _ _ _ hp) hrun

/-! ### Running a schedule -/

section Exec
variable (honest : ℕ → Bool) (P : Net → ℕ → Input → Prop) [∀ net s i, Decidable (P net s i)]

/- A poll of an honest seat is scheduled without its answer. -/
def answered (net : Net) (s : ℕ) (i : Input) : Input :=
  match i, (net s).phase with
  | .proposal data, .inRound roundID _ attempt _ =>
    let q := (net s).log.expectedNextPlayer.toNat
    if honest q then .proposal (((net q).store.get (proposalKey roundID attempt)).getD data)
    else i
  | .receipt q data, .inRound roundID _ attempt _ =>
    if honest q then
      .receipt q (((net q).store.get (verifyKey roundID attempt (t.nodeID q))).getD data)
    else i
  | .attestation q data, .inRound roundID _ _ _ =>
    if honest q.toNat then
      .attestation q
        (((net q.toNat).store.get (autoFoldKey roundID (t.nodeID q.toNat))).getD data)
    else i
  | _, _ => i

def turn (net : Net) (s : ℕ) (i : Input) : Option Net :=
  let i := answered t honest net s i
  if s < t.size ∧ honest s = true ∧ Served t honest net s i ∧ P net s i then
    ((net s).step (t.setup s) i).map (Function.update net s)
  else none

def exec (net : Net) (schedule : List (ℕ × Input)) : Option Net :=
  schedule.foldlM (fun net m => turn t honest P net m.1 m.2) net

variable {t honest P}

theorem turn_step {net net' : Net} {s : ℕ} {i : Input} (h : turn t honest P net s i = some net') :
    Step t honest P net net' := by
  unfold turn at h
  dsimp only at h
  split_ifs at h with hc
  obtain ⟨hs, hh, hserved, hP⟩ := hc
  rw [Option.map_eq_some_iff] at h
  obtain ⟨r, hr, rfl⟩ := h
  exact .node hs hh hserved hP hr

theorem exec_reaches {net net' : Net} {schedule : List (ℕ × Input)}
    (h : exec t honest P net schedule = some net') : Reaches t honest P net net' := by
  unfold exec at h
  induction schedule generalizing net with
  | nil =>
    have heq : net = net' := by simpa using h
    rw [heq]
    exact .refl
  | cons m rest ih =>
    rw [List.foldlM_cons, Option.bind_eq_bind, Option.bind_eq_some_iff] at h
    obtain ⟨mid, hturn, hrest⟩ := h
    exact .head (turn_step hturn) (ih hrest)

def submitsAt (s : ℕ) (a : Action) : List (ℕ × Input) := (submits a).map fun i => (s, i)

variable (t honest P)

def runTo (net : Net) (schedule : List (ℕ × Input))
    (h : (exec t honest P net schedule).isSome = true) : Net :=
  (exec t honest P net schedule).get h

theorem runTo_reaches (net : Net) (schedule : List (ℕ × Input))
    (h : (exec t honest P net schedule).isSome = true) :
    Reaches t honest P net (runTo t honest P net schedule h) :=
  exec_reaches (Option.some_get h).symm

end Exec

/-! ### A table to evaluate -/

theorem ActionKind.ofByte_toByte (k : ActionKind) :
    (if h : 4 ≤ k.toByte then ActionKind.unknown ⟨k.toByte, h⟩
      else if k.toByte = 0 then .fold else if k.toByte = 1 then .check
      else if k.toByte = 2 then .call else .raise) = k := by
  cases k with
  | unknown k => simp [ActionKind.toByte, k.property]
  | _ => rfl

def actionWire : Wire Action :=
  (Wire.byte.pair Wire.word64).map
    (fun x => ⟨if h : 4 ≤ x.1 then .unknown ⟨x.1, h⟩
      else if x.1 = 0 then .fold else if x.1 = 1 then .check
      else if x.1 = 2 then .call else .raise, x.2⟩)
    (fun a => (a.kind.toByte, a.amount))
    (fun a => by simp only [ActionKind.ofByte_toByte])

def bytesWire : Wire Bytes := Wire.byte.many

def entryWire : Wire Entry :=
  (Wire.word64.pair (Wire.byte.pair (actionWire.pair (bytesWire.pair (Wire.byte.many.pair
    (bytesWire.many.pair bytesWire)))))).map
    (fun x => ⟨x.1, x.2.1, x.2.2.1, x.2.2.2.1, x.2.2.2.2.1, x.2.2.2.2.2.1, x.2.2.2.2.2.2⟩)
    (fun e => (e.roundID, e.playerID, e.action, e.signature, e.coSigners, e.coSignatures, e.data))
    (fun _ => rfl)

def receiptWire : Wire VerifyReceipt :=
  (Wire.word64.pair (Wire.byte.pair (bytesWire.pair bytesWire))).map
    (fun x => ⟨x.1, x.2.1, x.2.2.1, x.2.2.2⟩)
    (fun v => (v.roundID, v.playerID, v.postLogHash, v.signature))
    (fun _ => rfl)

theorem two_seats_lt : 2 < 256 := by decide

theorem three_seats_lt : 3 < 256 := by decide

/-- `n` seats with their numbers as ids, for evaluating the model. -/
def Table.sampleWith {c : Primitives} (key : ℕ → c.PrivateKey) (n : ℕ) (h : n < 256) (maxAttempts : UInt32)
    (stack : UInt64) : Table c where
  order := (List.range n).map decimal
  order_nodup := List.nodup_range.map decimal_injective
  order_length := by simpa using h
  secretKey := key
  cfgMaxAttempts := maxAttempts
  startingStack := stack
  entryCodec := entryWire.codec
  receiptCodec := receiptWire.codec

/-- The seats' numbers are their keys, too. -/
def Table.sample (n : ℕ) (h : n < 256) (maxAttempts : UInt32) (stack : UInt64) : Table .transparent :=
  .sampleWith (fun seat => (UInt8.ofNat seat : Byte)) n h maxAttempts stack

end P2Poker.Round
