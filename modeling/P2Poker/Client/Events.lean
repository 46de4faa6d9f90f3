import P2Poker.Game.Entry
import P2Poker.Lib.Decimal

/-!
# The event feed (internal/peer/events.go, internal/clientrpc/server.go)

A node puts what happens on its bus as texts in string maps. The client's server
reads the maps again and sends typed messages; what it does not recognise goes
out as a log line.
-/

namespace P2Poker.Client
open P2Poker.Lib P2Poker.Game

/-! ### The bus -/

/-- A `map[string]string`: its pairs, no key twice. -/
abbrev StringMap := List (Bytes × Bytes)

/- A missing key reads as the empty string. -/
def StringMap.read (m : StringMap) (key : Bytes) : Bytes := (m.lookup key).getD []

inductive Kind where
  | log
  | gameStart
  | shuffle
  | deal
  | community
  | round
  | attempt
  | autoFold
  | showdown
  deriving DecidableEq, Repr

def Kind.text : Kind → Bytes
  | .log => ascii "log"
  | .gameStart => ascii "game_start"
  | .shuffle => ascii "shuffle"
  | .deal => ascii "deal"
  | .community => ascii "community"
  | .round => ascii "round"
  | .attempt => ascii "attempt"
  | .autoFold => ascii "auto_fold"
  | .showdown => ascii "showdown"

/-- `peer.Event` as the bus delivers it. -/
structure BusEvent where
  timestamp : ℤ
  nodeID : Bytes
  sessionID : Bytes
  kind : Kind
  component : Bytes
  message : Bytes
  fields : StringMap := []
  cards : StringMap := []
  deriving DecidableEq, Repr

/-- What `Emit` adds to an event: who emits it, and when. -/
structure Emitter where
  id : Bytes
  sessionID : Bytes
  now : ℤ

namespace Emitter
variable (n : Emitter) (kind : Kind) (component message : Bytes)

def emitKind : BusEvent := ⟨n.now, n.id, n.sessionID, kind, component, message, [], []⟩

def emitCards (cards : StringMap) : BusEvent := { n.emitKind kind component message with cards := cards }

def emitFields (fields : StringMap) : BusEvent := { n.emitKind kind component message with fields := fields }

end Emitter

/-! ### Field parsers -/

/- The digit loop of `strconv.ParseUint`: the value it leaves, its error dropped. -/
def parseUintFrom (maxVal : ℕ) : Bytes → ℕ → ℕ
  | [], n => n
  | c :: rest, n =>
    if isDigit c = false then 0
    else if maxVal < n * 10 + (c.toNat - 48) then maxVal
    else parseUintFrom maxVal rest (n * 10 + (c.toNat - 48))

def parseUint (bitSize : ℕ) (s : Bytes) : ℕ := parseUintFrom (2 ^ bitSize - 1) s 0

/- `strconv.ParseInt`, which clips at both ends. -/
def parseInt (bitSize : ℕ) : Bytes → ℤ
  | 43 :: rest => min (parseUint bitSize rest) (2 ^ (bitSize - 1) - 1)
  | 45 :: rest => -min (parseUint bitSize rest) (2 ^ (bitSize - 1))
  | s => min (parseUint bitSize s) (2 ^ (bitSize - 1) - 1)

def atou64 (s : Bytes) : UInt64 := UInt64.ofNat (parseUint 64 s)

def atou32 (s : Bytes) : UInt32 := UInt32.ofNat (parseUint 32 s)

def atoi32 (s : Bytes) : ℤ := parseInt 32 s

def firstNonEmpty (a b : Bytes) : Bytes := if a ≠ [] then a else b

/- strings.Join and strings.Split with a comma -/
def joinCSV (parts : List Bytes) : Bytes := [44].intercalate parts

def splitCSV (s : Bytes) : List Bytes := if s = [] then [] else s.splitOn 44

def cardKey (i : ℕ) : Bytes := ascii "card" ++ decimal i

/- The loop of `orderedCardList` from card `i` on, for at most `fuel` cards. -/
def orderedFrom (cards : StringMap) : ℕ → ℕ → List Bytes
  | 0, _ => []
  | fuel + 1, i =>
    match cards.lookup (cardKey i) with
    | none => []
    | some v => v :: orderedFrom cards fuel (i + 1)

/-- No more cards than keys are found. -/
def orderedCardList (cards : StringMap) : List Bytes := orderedFrom cards cards.length 1

def actionKindName : ActionKind → Bytes
  | .fold => ascii "fold"
  | .check => ascii "check"
  | .call => ascii "call"
  | .raise => ascii "raise"
  | .unknown _ => ascii "unknown"

/- The kinds of the protocol buffer are the four named ones. -/
def actionKindFromName (name : Bytes) : ActionKind :=
  if name = ascii "fold" then .fold
  else if name = ascii "check" then .check
  else if name = ascii "call" then .call
  else if name = ascii "raise" then .raise
  else .fold

/-! ### Translation -/

/-- The messages of clientrpc.proto's `Event`. -/
inductive Message where
  | gameStart (nodeID sessionID : Bytes) (order : List Bytes) (mySeat : ℤ)
  | holeCards (nodeID card1 card2 : Bytes)
  | communityCards (nodeID : Bytes) (cards : List Bytes)
  | roundStarted (nodeID : Bytes) (roundID : UInt64) (proposerSeat : UInt32) (mySeat : ℤ)
  | action (nodeID : Bytes) (roundID : UInt64) (attempt : UInt32) (seat : ℤ) (kind : ActionKind)
      (amount : UInt64) (outcome reason : Bytes)
  | autoFold (nodeID : Bytes) (roundID : UInt64) (targetSeat : UInt32)
  | log (timestampNs : ℤ) (nodeID sessionID kind component message : Bytes) (fields cards : StringMap)
  deriving DecidableEq, Repr

def BusEvent.logMessage (ev : BusEvent) : Message :=
  .log ev.timestamp ev.nodeID ev.sessionID ev.kind.text ev.component ev.message ev.fields ev.cards

def translateBusEvent (ev : BusEvent) : Message :=
  match ev.kind with
  | .gameStart =>
    .gameStart ev.nodeID (firstNonEmpty ev.sessionID (ev.fields.read (ascii "session_id")))
      (splitCSV (ev.fields.read (ascii "order"))) (atoi32 (ev.fields.read (ascii "my_seat")))
  | .deal =>
    let hole1 := ev.cards.read (ascii "hole1")
    let hole2 := ev.cards.read (ascii "hole2")
    if ev.cards ≠ [] ∧ (hole1 ≠ [] ∨ hole2 ≠ []) then .holeCards ev.nodeID hole1 hole2
    else ev.logMessage
  | .community =>
    if ev.cards ≠ [] then .communityCards ev.nodeID (orderedCardList ev.cards) else ev.logMessage
  | .round =>
    .roundStarted ev.nodeID (atou64 (ev.fields.read (ascii "round_id")))
      (atou32 (ev.fields.read (ascii "proposer_seat"))) (atoi32 (ev.fields.read (ascii "my_seat")))
  | .attempt =>
    .action ev.nodeID (atou64 (ev.fields.read (ascii "round_id")))
      (atou32 (ev.fields.read (ascii "attempt"))) (atoi32 (ev.fields.read (ascii "seat")))
      (actionKindFromName (ev.fields.read (ascii "action_kind")))
      (atou64 (ev.fields.read (ascii "action_amount"))) (ev.fields.read (ascii "outcome"))
      (ev.fields.read (ascii "reason"))
  | .autoFold =>
    if ev.fields.read (ascii "target_seat") ≠ [] then
      .autoFold ev.nodeID (atou64 (ev.fields.read (ascii "round_id")))
        (atou32 (ev.fields.read (ascii "target_seat")))
    else ev.logMessage
  | _ => ev.logMessage

/-! ### Reading back what was written -/

theorem le_decFold (s : Bytes) (n : ℕ) : n ≤ s.foldl (fun acc x => acc * 10 + (x.toNat - 48)) n := by
  induction s generalizing n with
  | nil => exact le_rfl
  | cons c rest ih =>
    have hrest := ih (n * 10 + (c.toNat - 48))
    rw [List.foldl_cons]
    omega

theorem parseUintFrom_digits {maxVal : ℕ} {s : Bytes} (hs : ∀ b ∈ s, isDigit b = true) {n : ℕ}
    (hv : s.foldl (fun acc x => acc * 10 + (x.toNat - 48)) n ≤ maxVal) :
    parseUintFrom maxVal s n = s.foldl (fun acc x => acc * 10 + (x.toNat - 48)) n := by
  induction s generalizing n with
  | nil => rfl
  | cons c rest ih =>
    rw [List.foldl_cons] at hv ⊢
    have hle := le_decFold rest (n * 10 + (c.toNat - 48))
    rw [parseUintFrom, if_neg (by rw [hs c (List.mem_cons_self ..)]; decide), if_neg (by omega)]
    exact ih (fun b hb => hs b (List.mem_cons_of_mem _ hb)) hv

theorem parseUint_decimal {bitSize m : ℕ} (h : m < 2 ^ bitSize) : parseUint bitSize (decimal m) = m := by
  have hval : (decimal m).foldl (fun acc x => acc * 10 + (x.toNat - 48)) 0 = m := decVal_decimal m
  rw [parseUint, parseUintFrom_digits (fun b hb => isDigit_of_mem_decimal hb) (by rw [hval]; omega), hval]

@[simp] theorem atou64_decimal (v : UInt64) : atou64 (decimal v.toNat) = v := by
  rw [atou64, parseUint_decimal v.toNat_lt, UInt64.ofNat_toNat]

@[simp] theorem atou32_decimal (v : UInt32) : atou32 (decimal v.toNat) = v := by
  rw [atou32, parseUint_decimal v.toNat_lt, UInt32.ofNat_toNat]

theorem atoi32_decimal {m : ℕ} (h : m < 2 ^ 31) : atoi32 (decimal m) = m := by
  unfold atoi32 parseInt
  split
  · rename_i heq
    exact absurd heq (decimal_ne_cons m rfl _)
  · rename_i heq
    exact absurd heq (decimal_ne_cons m rfl _)
  · rw [parseUint_decimal (by omega)]
    omega

@[simp] theorem actionKindFromName_name {k : ActionKind} (h : ∀ b, k ≠ .unknown b) :
    actionKindFromName (actionKindName k) = k := by
  cases k with
  | unknown b => exact absurd rfl (h b)
  | _ => rfl

theorem not_mem_of_mem_splitOn {x : Byte} {s piece : Bytes} (h : piece ∈ s.splitOn x) : x ∉ piece := by
  induction s generalizing piece with
  | nil =>
    rw [List.splitOn_nil, List.mem_singleton] at h
    rw [h]
    exact List.not_mem_nil
  | cons c rest ih =>
    rw [List.splitOn_cons_eq_if_modifyHead] at h
    split_ifs at h with hc
    · rcases List.mem_cons.mp h with rfl | h
      · exact List.not_mem_nil
      · exact ih h
    · obtain ⟨first, others, hsplit⟩ := List.exists_cons_of_ne_nil (List.splitOn_ne_nil x rest)
      rw [hsplit, List.modifyHead_cons, List.mem_cons] at h
      rw [hsplit] at ih
      rcases h with rfl | h
      · rw [List.mem_cons, not_or]
        refine ⟨fun hx => hc (by rw [hx, beq_self_eq_true]), ih (List.mem_cons_self ..)⟩
      · exact ih (List.mem_cons_of_mem _ h)

/-- A list is read back when no part of it has a comma, the list of one empty part apart. -/
theorem splitCSV_joinCSV_iff (parts : List Bytes) :
    splitCSV (joinCSV parts) = parts ↔ (∀ part ∈ parts, 44 ∉ part) ∧ parts ≠ [[]] := by
  constructor
  · intro h
    refine ⟨?_, ?_⟩
    · intro part hpart
      rw [← h, splitCSV] at hpart
      split_ifs at hpart
      · cases hpart
      · exact not_mem_of_mem_splitOn hpart
    · rintro rfl
      cases h
  · rintro ⟨hcomma, hone⟩
    rcases List.eq_nil_or_concat' parts with rfl | ⟨_, _, hne⟩
    · rfl
    · have hsplit := List.splitOn_intercalate 44 hcomma (by rw [hne]; simp)
      rw [splitCSV, if_neg]
      · exact hsplit
      · intro hempty
        rw [joinCSV] at hempty
        rw [hempty, List.splitOn_nil] at hsplit
        exact hone hsplit.symm

/-! ### The cards of a map -/

theorem cardKey_injective : Function.Injective cardKey := by
  intro i j h
  exact decimal_injective (List.append_cancel_left h)

/-- The walk over a map that holds the cards of a list, and only those, gives the list. -/
theorem orderedFrom_eq {cards : StringMap} {l : List Bytes} {fuel i : ℕ} (hfuel : l.length ≤ fuel)
    (h : ∀ j, cards.lookup (cardKey (i + j)) = l[j]?) : orderedFrom cards fuel i = l := by
  induction l generalizing fuel i with
  | nil =>
    have hfirst := h 0
    cases fuel with
    | zero => rfl
    | succ fuel =>
      rw [Nat.add_zero, List.getElem?_nil] at hfirst
      rw [orderedFrom, hfirst]
  | cons v rest ih =>
    cases fuel with
    | zero => cases hfuel
    | succ fuel =>
      have hfirst := h 0
      rw [Nat.add_zero, List.getElem?_cons_zero] at hfirst
      rw [orderedFrom, hfirst]
      dsimp only
      rw [ih (Nat.le_of_succ_le_succ hfuel)]
      intro j
      rw [Nat.add_assoc, Nat.add_comm 1 j, h (j + 1), List.getElem?_cons_succ]

end P2Poker.Client
