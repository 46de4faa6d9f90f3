import P2Poker.Client.Events
import P2Poker.Hand.Streets
import P2Poker.Peer.Seating

/-!
# What a client is told of a hand

The node and the runner write string maps in many places: when a game starts, when
a round starts, when the hand is over, for every attempt and along an auto-fold.
One function reads them all. What a map does not have reads as nought.
-/

namespace P2Poker.Client
open P2Poker.Lib P2Poker.Game P2Poker.Hand P2Poker.Crypto

/-! ### Producers -/

/- The verb `%d` for an int. -/
def intText (v : ℤ) : Bytes := if v < 0 then ascii "-" ++ decimal v.natAbs else decimal v.natAbs

/- The verb `%v` for a list of seats. -/
def seatsText (seats : List UInt8) : Bytes :=
  ascii "[" ++ (ascii " ").intercalate (seats.map fun s => decimal s.toNat) ++ ascii "]"

def streetNumber : Street → ℕ
  | .preflop => 0
  | .flop => 1
  | .turn => 2
  | .river => 3
  | .showdown => 4

def outcomeName : Round.Outcome → Bytes
  | .committed => ascii "committed"
  | .rejected => ascii "rejected"
  | .timeout => ascii "timeout"
  | .autoFold => ascii "auto_fold"

namespace Emitter
variable (n : Emitter)

/- GameStart -/
def gameStart (sessionID : Bytes) (order : List Bytes) : BusEvent :=
  n.emitFields .gameStart (ascii "game") (ascii "[" ++ n.id ++ ascii "] GAME START")
    [(ascii "session_id", sessionID), (ascii "order", joinCSV order),
      (ascii "my_seat", intText (Seating.seatOf order n.id))]

/- runRound -/
def roundStart (mySeat : ℕ) (roundID : UInt64) (proposerSeat : UInt8) : BusEvent :=
  n.emitFields .round (ascii "runner")
    (ascii "[" ++ decimal mySeat ++ ascii "] RUN_ROUND # " ++ decimal roundID.toNat ++
      ascii " (proposer seat " ++ decimal proposerSeat.toNat ++ ascii ")")
    [(ascii "round_id", decimal roundID.toNat), (ascii "proposer_seat", decimal proposerSeat.toNat),
      (ascii "my_seat", decimal mySeat)]

/- Run, when the hand is over: no fields -/
def handOver (state : State) : BusEvent :=
  n.emitKind .round (ascii "runner")
    (ascii "[" ++ n.id ++ ascii "] hand over (street " ++ decimal (streetNumber state.street) ++
      ascii ", non-folded " ++ decimal state.numNonFolded ++ ascii ")")

/- finishHand -/
def uncontested (winner : ℤ) : BusEvent :=
  n.emitFields .showdown (ascii "runner")
    (ascii "[" ++ n.id ++ ascii "] uncontested winner seat " ++ intText winner)
    [(ascii "winner", intText winner), (ascii "reason", ascii "uncontested")]

end Emitter

/- On a commit, the action is the tail of the log. -/
def attemptFields (log : Log) (ev : Round.AttemptEvent) : StringMap :=
  let fields : StringMap :=
    [(ascii "round_id", decimal ev.roundID.toNat), (ascii "attempt", decimal ev.attempt.toNat),
      (ascii "outcome", outcomeName ev.outcome), (ascii "reason", ev.reason)]
  if ev.outcome = .committed then
    match log.entries.getLast? with
    | none => fields
    | some last =>
      fields ++ [(ascii "seat", decimal last.playerID.toNat),
        (ascii "action_kind", actionKindName last.action.kind),
        (ascii "action_amount", decimal last.action.amount.toNat)]
  else fields

namespace Emitter
variable (n : Emitter)

/- Runner.emit -/
def attempt (log : Log) (ev : Round.AttemptEvent) : BusEvent :=
  n.emitFields .attempt (ascii "runner")
    (ascii "[attempt " ++ n.id ++ ascii "] round " ++ decimal ev.roundID.toNat ++ ascii " attempt " ++
      decimal ev.attempt.toNat ++ ascii ": " ++ outcomeName ev.outcome ++ ascii " " ++ ev.reason)
    (attemptFields log ev)

def autoFoldLine (text : Bytes) : BusEvent :=
  n.emitKind .autoFold (ascii "runner") (ascii "[autoFold " ++ n.id ++ ascii "] " ++ text)

def folded (roundID : UInt64) (targetSeat : UInt8) : BusEvent :=
  n.emitFields .autoFold (ascii "runner")
    (ascii "[autoFold " ++ n.id ++ ascii "] round " ++ decimal roundID.toNat ++ ascii ": target seat " ++
      decimal targetSeat.toNat ++ ascii " folded")
    [(ascii "round_id", decimal roundID.toNat), (ascii "target_seat", decimal targetSeat.toNat)]

end Emitter

section Feed
variable {c : Primitives}

/-- The lines of `driveAutoFold`. The polls run at the same time, in any order. -/
def autoFoldEvents (u : Round.Setup c) (n : Emitter) (r r' : Round.Runner) : Round.Input → List BusEvent
  | .attest =>
    match r.phase with
    | .inRound roundID targetSeat _ _ =>
      let expected := r.log.expectedAutoFoldAttestors targetSeat
      let round := ascii "round " ++ decimal roundID.toNat ++ ascii ": "
      let key (seat : UInt8) := Ephemeral.autoFoldKey roundID (u.nodeID seat.toNat)
      (if u.mySeat ≠ targetSeat then
        [n.autoFoldLine (round ++ ascii "hosted attestation key=" ++ key u.mySeat)] else []) ++
      [n.autoFoldLine (round ++ ascii "target=seat" ++ decimal targetSeat.toNat ++ ascii " expected=" ++
        seatsText expected)] ++
      (expected.filter fun seat => seat ≠ u.mySeat).map fun seat =>
        n.autoFoldLine (ascii "polling " ++ u.nodeID seat.toNat ++ ascii " key=" ++ key seat)
    | _ => []
  | .attestation seat data =>
    [n.autoFoldLine (ascii "poll " ++ u.nodeID seat.toNat ++ ascii " OK (" ++ decimal data.length ++
      ascii " bytes)")]
  | .attestationFailed seat =>
    [n.autoFoldLine (ascii "poll " ++ u.nodeID seat.toNat ++ ascii " FAILED: " ++
      Round.Runner.contextError)]
  | .foldProposer =>
    match r.phase, r'.phase with
    | .inRound roundID targetSeat _ _, .idle => [n.folded roundID targetSeat]
    | _, _ => []
  | _ => []

/- The attempts that a step of the runner reports. -/
def reports (r r' : Round.Runner) : List Round.AttemptEvent := r'.events.drop r.events.length

/-- What a step of `Run` puts on the bus. -/
def playEvents (u : Seat c) (n : Emitter) (h h' : Play) : Hand.Event → List BusEvent
  | .head =>
    let preState := h.runner.log.state
    if preState.handOver then
      n.handOver preState ::
        match h'.place with
        | .uncontested winner => [n.uncontested winner]
        | _ => []
    else [n.roundStart u.idx h.runner.log.roundID h.runner.log.expectedNextPlayer]
  | .round i =>
    autoFoldEvents u.rounds n h.runner h'.runner i ++
      (reports h.runner h'.runner).map (n.attempt h'.runner.log)
  | _ => []

/-! ### Runs -/

/-- The seat and the action that the report of a step is about, given the one that the
attempt is about so far. -/
def subject (u : Round.Setup c) (r : Round.Runner) (about : Option (UInt8 × Action)) :
    Round.Input → Option (UInt8 × Action)
  | .propose => r.actionCh.map fun a => (u.mySeat, a)
  | .attest | .attestationFailed _ | .foldProposer =>
    match r.phase with
    | .inRound _ targetSeat _ _ => some (targetSeat, ⟨.fold, 0⟩)
    | _ => none
  | _ => about

/- What the attempt is about after a step. -/
def noted (u : Round.Setup c) (r : Round.Runner) (about : Option (UInt8 × Action)) :
    Round.Input → Option (UInt8 × Action)
  | .propose => r.actionCh.map fun a => (u.mySeat, a)
  | .append =>
    match r.phase with
    | .inRound _ _ _ (.fetched data) => (u.entryCodec.decode data).map fun e => (e.playerID, e.action)
    | _ => about
  -- the attempt, or the round, is over
  | .conclude | .foldProposer => none
  | _ => about

/-- A hand, with the action that the attempt is about once there is one. -/
structure Feed where
  play : Play
  about : Option (UInt8 × Action) := none

inductive FeedEvent where
  -- the node is told of a game start, at any time
  | gameStart (sessionID : Bytes) (order : List Bytes)
  -- a line of the shuffle, the deal, the board or the showdown, with any text and cards
  | line (kind : Kind) (component message : Bytes) (fields cards : StringMap)
  | play (e : Hand.Event)

namespace Feed
variable (u : Seat c) (f : Feed)

def note : Hand.Event → Option (UInt8 × Action)
  | .round i => noted u.rounds f.play.runner f.about i
  | _ => f.about

def topic : FeedEvent → Option (UInt8 × Action)
  | .play (.round i) => subject u.rounds f.play.runner f.about i
  | _ => none

def start : Feed := { play := .start u }

def step : FeedEvent → Option Feed
  | .gameStart _ _ => some f
  | .line kind _ _ _ _ =>
    if kind ∈ [Kind.shuffle, .deal, .community, .showdown] then some f else none
  | .play e => (f.play.step u e).map fun h => ⟨h, f.note u e⟩

def events (n : Emitter) (f' : Feed) : FeedEvent → List BusEvent
  | .gameStart sessionID order => [n.gameStart sessionID order]
  | .line kind component message fields cards =>
    [{ n.emitKind kind component message with fields := fields, cards := cards }]
  | .play e => playEvents u n f.play f'.play e

def messages (n : Emitter) (f' : Feed) (e : FeedEvent) : List Message :=
  (f.events u n f' e).map translateBusEvent

/- The call of runRound that an event has led to: its round and proposer. -/
def calls : FeedEvent → List (UInt64 × UInt8)
  | .play .head =>
    match f.play.place, f.play.runner.phase with
    | .round _, .inRound roundID proposerSeat _ _ => [(roundID, proposerSeat)]
    | _, _ => []
  | _ => []

end Feed

def Message.isRoundStarted : Message → Bool
  | .roundStarted _ _ _ _ => true
  | _ => false

/-- The messages of a step say what has happened in it. -/
structure Feed.Faithful (u : Seat c) (n : Emitter) (f f' : Feed) (e : FeedEvent) : Prop where
  rounds : (f.messages u n f' e).filter Message.isRoundStarted =
    (f'.calls e).map fun x => .roundStarted n.id x.1 x.2.toUInt32 u.idx
  actions : ∀ nodeID roundID attempt (seat : ℤ) kind amount outcome reason,
    .action nodeID roundID attempt seat kind amount outcome reason ∈ f.messages u n f' e →
    ∃ who : UInt8, f.topic u e = some (who, ⟨kind, amount⟩) ∧ seat = who.toNat
  order : ∀ nodeID sessionID order mySeat,
    .gameStart nodeID sessionID order mySeat ∈ f.messages u n f' e → ∃ sid, e = .gameStart sid order

/-- What an event has to keep to: no id with a comma, no end of a hand, and no report
but of a commit or of the fold of seat 0. -/
def Feed.Plain (u : Seat c) (f : Feed) : FeedEvent → Prop
  | .gameStart _ order => (∀ id ∈ order, 44 ∉ id) ∧ order ≠ [[]]
  | .play .head => f.play.runner.log.state.handOver = false
  | .play (.round i) =>
    ∀ r ∈ f.play.runner.step u.rounds i, ∀ ev ∈ reports f.play.runner r,
      ev.outcome = .committed ∨ subject u.rounds f.play.runner f.about i = some (0, ⟨.fold, 0⟩)
  | _ => True

/-! ### Reading the maps -/

@[simp] theorem read_here (key v : Bytes) (m : StringMap) : StringMap.read ((key, v) :: m) key = v := by
  simp [StringMap.read]

theorem read_there {key key' : Bytes} (h : key ≠ key') (v : Bytes) (m : StringMap) :
    StringMap.read ((key', v) :: m) key = StringMap.read m key := by
  have hne : (key == key') = false := beq_eq_false_iff_ne.mpr h
  simp only [StringMap.read, List.lookup, hne]

@[simp] theorem read_nil (key : Bytes) : StringMap.read [] key = [] := rfl

/- Neither a game start, nor a round, nor an action. -/
def Message.isLine : Message → Bool
  | .gameStart _ _ _ _ => false
  | .roundStarted _ _ _ _ => false
  | .action _ _ _ _ _ _ _ _ => false
  | _ => true

theorem Message.not_round_of_line {msg : Message} (h : msg.isLine = true) : ¬ msg.isRoundStarted = true := by
  cases msg with
  | roundStarted => cases h
  | _ => nofun

theorem translate_line {ev : BusEvent} (hgame : ev.kind ≠ .gameStart) (hround : ev.kind ≠ .round)
    (hattempt : ev.kind ≠ .attempt) : (translateBusEvent ev).isLine = true := by
  unfold translateBusEvent
  cases hk : ev.kind with
  | gameStart => exact absurd hk hgame
  | round => exact absurd hk hround
  | attempt => exact absurd hk hattempt
  | deal =>
    dsimp only
    split_ifs <;> rfl
  | community =>
    dsimp only
    split_ifs <;> rfl
  | autoFold =>
    dsimp only
    split_ifs <;> rfl
  | _ => rfl

theorem atou32_byte (p : UInt8) : atou32 (decimal p.toNat) = p.toUInt32 := by
  rw [← UInt8.toNat_toUInt32, atou32_decimal]

theorem translate_gameStart (n : Emitter) (sid : Bytes) (order : List Bytes) :
    translateBusEvent (n.gameStart sid order) = .gameStart n.id (firstNonEmpty n.sessionID sid)
      (splitCSV (joinCSV order)) (atoi32 (intText (Seating.seatOf order n.id))) := by
  show Message.gameStart n.id _ _ _ = _
  simp (disch := decide) only [Emitter.gameStart, Emitter.emitFields, Emitter.emitKind, read_here, read_there]

theorem translate_roundStart (n : Emitter) {mySeat : ℕ} (hseat : mySeat < 256) (k : UInt64) (p : UInt8) :
    translateBusEvent (n.roundStart mySeat k p) = .roundStarted n.id k p.toUInt32 mySeat := by
  show Message.roundStarted n.id _ _ _ = _
  rw [Emitter.roundStart, Emitter.emitFields]
  dsimp only
  rw [read_here, read_there (by decide), read_here, read_there (by decide), read_there (by decide), read_here,
    atou64_decimal, atou32_byte, atoi32_decimal (by omega)]

theorem translate_commit (n : Emitter) {log : Log} {last : Entry} {ev : Round.AttemptEvent}
    (hev : ev.outcome = .committed) (hlast : log.entries.getLast? = some last)
    (hkind : ∀ b, last.action.kind ≠ .unknown b) :
    translateBusEvent (n.attempt log ev) = .action n.id ev.roundID ev.attempt last.playerID.toNat
      last.action.kind last.action.amount (outcomeName ev.outcome) ev.reason := by
  have hseat : last.playerID.toNat < 2 ^ 31 := by
    have := last.playerID.toNat_lt
    omega
  show Message.action n.id _ _ _ _ _ _ _ = _
  simp (disch := decide) only [Emitter.attempt, Emitter.emitFields, attemptFields, if_pos hev, hlast,
    List.cons_append, List.nil_append, read_here, read_there, atou64_decimal, atou32_decimal, atoi32_decimal hseat,
    actionKindFromName_name hkind]

theorem translate_uncommitted (n : Emitter) (log : Log) {ev : Round.AttemptEvent} (hev : ev.outcome ≠ .committed) :
    translateBusEvent (n.attempt log ev) = .action n.id ev.roundID ev.attempt 0 .fold 0
      (outcomeName ev.outcome) ev.reason := by
  show Message.action n.id _ _ _ _ _ _ _ = _
  simp (disch := decide) only [Emitter.attempt, Emitter.emitFields, attemptFields, if_neg hev, read_here,
    read_there, read_nil, atou64_decimal, atou32_decimal]
  rfl

/-! ### What a step reports -/

/- At most one attempt is reported, and a commit from where the attempt has been cleaned up. -/
theorem reports_cases {u : Round.Setup c} {r r' : Round.Runner} {i : Round.Input}
    (hm : Round.Runner.Move u r i r') : reports r r' = [] ∨ ∃ ev, reports r r' = [ev] ∧
      (ev.outcome = .committed → i = .conclude ∧ r'.log = r.log ∧
        ∃ k p a, r.phase = .inRound k p a (.cleaned none)) := by
  have hnone : ∀ s : Round.Runner, s.events = r.events → reports r s = [] := by
    intro s hs
    rw [reports, hs, List.drop_length]
  have hone : ∀ (s : Round.Runner) ev, s.events = r.events ++ [ev] → reports r s = [ev] := by
    intro s ev hs
    rw [reports, hs, List.drop_left]
  cases hm with
  | reject hphase hev =>
    refine .inr ⟨_, hone _ _ rfl, ?_⟩
    rw [hev]
    nofun
  | commit hphase => exact .inr ⟨_, hone _ _ rfl, fun _ => ⟨rfl, rfl, _, _, _, hphase⟩⟩
  | nextAttempt => exact .inr ⟨_, hone _ _ rfl, nofun⟩
  | noAttestors => exact .inr ⟨_, hone _ _ rfl, nofun⟩
  | attestationFailed => exact .inr ⟨_, hone _ _ rfl, nofun⟩
  | foldRefused => exact .inr ⟨_, hone _ _ rfl, nofun⟩
  | fold => exact .inr ⟨_, hone _ _ rfl, nofun⟩
  | _ => exact .inl (hnone _ rfl)

theorem autoFoldEvents_kind {u : Round.Setup c} {n : Emitter} {r r' : Round.Runner} {i : Round.Input}
    {ev : BusEvent} (hev : ev ∈ autoFoldEvents u n r r' i) : ev.kind = .autoFold := by
  unfold autoFoldEvents at hev
  split at hev
  · split at hev
    · rcases List.mem_append.mp hev with hleft | hpoll
      · rcases List.mem_append.mp hleft with hhost | hline
        · split_ifs at hhost
          · rw [List.mem_singleton.mp hhost]
            rfl
          · cases hhost
        · rw [List.mem_singleton.mp hline]
          rfl
      · obtain ⟨seat, _, rfl⟩ := List.mem_map.mp hpoll
        rfl
    · cases hev
  · rw [List.mem_singleton.mp hev]
    rfl
  · rw [List.mem_singleton.mp hev]
    rfl
  · split at hev
    · rw [List.mem_singleton.mp hev]
      rfl
    · cases hev
  · cases hev

/-! ### What an attempt is about -/

/- The entry that the attempt has in the log, or is about to put there. -/
def StageAbout (about : Option (UInt8 × Action)) (l : Log) : Round.Stage → Prop
  | .hosted e => about = some (e.playerID, e.action)
  | .appended | .collecting _ | .returned none | .cleaned none =>
    ∀ e, l.entries.getLast? = some e → about = some (e.playerID, e.action)
  | _ => True

structure About (u : Round.Setup c) (r : Round.Runner) (about : Option (UInt8 × Action)) : Prop where
  sound : Round.Sound u r
  stage : ∀ k p a st, r.phase = .inRound k p a st → StageAbout about r.log st

section About
variable {u : Round.Setup c} {r r' : Round.Runner} {i : Round.Input} {about : Option (UInt8 × Action)}

theorem stageAbout_append {l : Log} {e : Entry} (h : about = some (e.playerID, e.action)) :
    StageAbout about (l.append e) .appended := by
  intro e' he'
  rw [Log.append, List.getLast?_append, List.getLast?_singleton, Option.some_or] at he'
  rw [← Option.some.inj he']
  exact h

theorem stageAbout_startStage (l : Log) : StageAbout about l (r.startStage u) := by
  unfold Round.Runner.startStage
  split_ifs <;> trivial

theorem stageAbout_propose (hs : r.propose u = some r') :
    ∀ k p a st, r'.phase = .inRound k p a st → StageAbout (noted u r about .propose) r'.log st := by
  intro k p a st hst
  unfold Round.Runner.propose at hs
  split at hs
  · rename_i hphase hch
    dsimp only at hs
    split at hs
    · obtain rfl := Option.some.inj hs
      rw [show r.phase = .inRound k p a st from hst] at hphase
      cases hphase
      trivial
    · obtain rfl := Option.some.inj hs
      cases hst
      rw [noted, hch]
      rfl
  · cases hs

theorem About.step (h : About u r about) (hs : r.step u i = some r') : About u r' (noted u r about i) := by
  have hm := Round.Runner.step_move hs
  refine ⟨h.sound.move hm, ?_⟩
  intro k p a st hst
  cases hm with
  | submit => exact h.stage _ _ _ _ hst
  | reject => exact stageAbout_propose hs _ _ _ _ hst
  | propose => exact stageAbout_propose hs _ _ _ _ hst
  | beginRound =>
    cases hst
    exact stageAbout_startStage _
  | proposal hphase =>
    cases hst
    trivial
  | appendOwn hphase =>
    cases hst
    have habout := h.stage _ _ _ _ hphase
    rw [noted, hphase]
    exact stageAbout_append habout
  | undecoded hphase hdec =>
    cases hst
    trivial
  | invalid hphase =>
    cases hst
    trivial
  | appendFetched hphase hdec =>
    cases hst
    rw [noted, hphase]
    dsimp only
    rw [hdec]
    exact stageAbout_append rfl
  | hostReceipt hphase =>
    cases hst
    have habout := h.stage _ _ _ _ hphase
    exact habout
  | receipt hphase =>
    cases hst
    have habout := h.stage _ _ _ _ hphase
    exact habout
  | collected hphase =>
    cases hst
    have habout := h.stage _ _ _ _ hphase
    exact habout
  | deadline hphase =>
    cases hst
    trivial
  | receiptFailed hphase =>
    cases hst
    trivial
  | @cleanup _ _ _ timeout hphase =>
    cases hst
    have habout := h.stage _ _ _ _ hphase
    cases timeout with
    | none => exact habout
    | some reason => trivial
  | commit => cases hst
  | nextAttempt hphase =>
    cases hst
    split_ifs
    · exact stageAbout_startStage _
    · trivial
  | noAttestors => cases hst
  | attest hphase =>
    cases hst
    trivial
  | attestation hphase =>
    cases hst
    trivial
  | attestationFailed => cases hst
  | foldRefused => cases hst
  | fold => cases hst

theorem About.begin (h : About u r about) (hs : r.beginRound u = some r') : About u r' about := by
  have hstep : r.step u .beginRound = some r' := hs
  have hm := Round.Runner.step_move hstep
  refine ⟨h.sound.move hm, ?_⟩
  intro k p a st hst
  cases hm with
  | beginRound =>
    cases hst
    exact stageAbout_startStage _

/- The action just committed is a known one, and the one that the attempt is about. -/
theorem About.committed (h : About u r about) {k : UInt64} {p : UInt8} {a : UInt32}
    (hphase : r.phase = .inRound k p a (.cleaned none)) : ∃ e, r.log.entries.getLast? = some e ∧
      about = some (e.playerID, e.action) ∧ ∀ b, e.action.kind ≠ .unknown b := by
  obtain ⟨_, _, _, _, hlen, _⟩ := h.sound.inRound hphase
  have hlen' : r.log.entries.length = r.rounds + 1 := hlen
  obtain ⟨e, he⟩ : ∃ e, r.log.entries[r.rounds]? = some e :=
    ⟨_, List.getElem?_eq_getElem (by omega)⟩
  have hlast : r.log.entries.getLast? = some e := by
    rw [List.getLast?_eq_getElem?, hlen']
    exact he
  refine ⟨e, hlast, h.stage _ _ _ _ hphase e hlast, ?_⟩
  intro b hb
  obtain ⟨_, hcert⟩ := h.sound.certified _ _ he
  rcases hcert.accepts.playable.legal with hfold | hlegal
  · rw [hb] at hfold
    cases hfold
  · rw [State.Legal, hb] at hlegal
    exact hlegal

end About

/-! ### Faithful steps -/

namespace Feed
variable {u : Seat c} {n : Emitter} {f f' : Feed} {e : FeedEvent}

/- Only lines. -/
theorem Faithful.of_lines (hcalls : f'.calls e = []) (h : ∀ ev ∈ f.events u n f' e,
    ev.kind ≠ .gameStart ∧ ev.kind ≠ .round ∧ ev.kind ≠ .attempt) : Faithful u n f f' e := by
  have hline : ∀ msg ∈ f.messages u n f' e, msg.isLine = true := by
    intro msg hmsg
    obtain ⟨ev, hev, rfl⟩ := List.mem_map.mp hmsg
    obtain ⟨hgame, hround, hattempt⟩ := h ev hev
    exact translate_line hgame hround hattempt
  refine ⟨?_, ?_, ?_⟩
  · rw [hcalls, List.map_nil, List.filter_eq_nil_iff]
    exact fun msg hmsg => Message.not_round_of_line (hline msg hmsg)
  · intro nodeID roundID attempt seat kind amount outcome reason hmsg
    cases hline _ hmsg
  · intro nodeID sessionID order mySeat hmsg
    cases hline _ hmsg

theorem faithful_gameStart (sid : Bytes) (order : List Bytes) :
    Faithful u n f f' (.gameStart sid order) ↔ (∀ id ∈ order, 44 ∉ id) ∧ order ≠ [[]] := by
  have hmsg : f.messages u n f' (.gameStart sid order) = [.gameStart n.id (firstNonEmpty n.sessionID sid)
      (splitCSV (joinCSV order)) (atoi32 (intText (Seating.seatOf order n.id)))] := by
    rw [← translate_gameStart]
    rfl
  rw [← splitCSV_joinCSV_iff]
  constructor
  · intro h
    obtain ⟨sid', heq⟩ := h.order _ _ _ _ (by rw [hmsg]; exact List.mem_singleton.mpr rfl)
    exact (FeedEvent.gameStart.inj heq).2.symm
  · intro h
    refine ⟨?_, ?_, ?_⟩
    · rw [hmsg]
      rfl
    · intro _ _ _ _ _ _ _ _ hmem
      rw [hmsg, List.mem_singleton] at hmem
      cases hmem
    · intro _ _ _ _ hmem
      rw [hmsg, List.mem_singleton] at hmem
      obtain ⟨_, _, rfl, _⟩ := Message.gameStart.inj hmem
      exact ⟨sid, by rw [h]⟩

theorem no_call_after_hand {h' : Play} {about : Option (UInt8 × Action)}
    (hover : f.play.runner.log.state.handOver = true) (hs : f.play.step u .head = some h') :
    calls ⟨h', about⟩ (.play .head) = [] := by
  cases Play.step_move hs with
  | beginRound _ hlive =>
    rw [hover] at hlive
    cases hlive
  | _ => rfl

theorem call_of_round {h' : Play} {about : Option (UInt8 × Action)}
    (hlive : f.play.runner.log.state.handOver = false) (hs : f.play.step u .head = some h') :
    calls ⟨h', about⟩ (.play .head) = [(f.play.runner.log.roundID, f.play.runner.log.expectedNextPlayer)] := by
  cases Play.step_move hs with
  | beginRound _ _ hr =>
    cases Round.Runner.step_move (i := .beginRound) hr with
    | beginRound => rfl
  | uncontested _ hover =>
    rw [hover] at hlive
    cases hlive
  | showdown _ hover =>
    rw [hover] at hlive
    cases hlive
  | showdownFailed hp =>
    rw [Play.step, hp] at hs
    dsimp only at hs
    rw [Play.head, if_neg (by simp [hlive])] at hs
    obtain ⟨r, _, heq⟩ := Option.map_eq_some_iff.mp hs
    cases congrArg Play.place heq

theorem faithful_head (hs : f.step u (.play .head) = some f') :
    Faithful u n f f' (.play .head) ↔ f.play.runner.log.state.handOver = false := by
  obtain ⟨h', hstep, rfl⟩ := Option.map_eq_some_iff.mp hs
  cases hover : f.play.runner.log.state.handOver with
  | true =>
    refine iff_of_false ?_ nofun
    intro h
    have hcalls : calls ⟨h', f.note u .head⟩ (.play .head) = [] := no_call_after_hand hover hstep
    have hrounds := h.rounds
    rw [hcalls, List.map_nil, List.filter_eq_nil_iff] at hrounds
    -- the line that ends the hand is read as a round
    have hfirst : translateBusEvent (n.handOver f.play.runner.log.state) ∈
        f.messages u n ⟨h', f.note u .head⟩ (.play .head) := by
      refine List.mem_map_of_mem ?_
      show _ ∈ playEvents u n f.play h' .head
      rw [playEvents, if_pos hover]
      exact List.mem_cons_self ..
    exact hrounds _ hfirst rfl
  | false =>
    refine iff_of_true ?_ rfl
    have hmsg : f.messages u n ⟨h', f.note u .head⟩ (.play .head) = [.roundStarted n.id
        f.play.runner.log.roundID f.play.runner.log.expectedNextPlayer.toUInt32 u.idx] := by
      rw [← translate_roundStart n (u.idx_lt.trans u.table.order_length)]
      show (playEvents u n f.play h' .head).map translateBusEvent = _
      rw [playEvents, if_neg (by rw [hover]; nofun)]
      rfl
    refine ⟨?_, ?_, ?_⟩
    · rw [hmsg, call_of_round hover hstep]
      rfl
    · intro _ _ _ _ _ _ _ _ hmem
      rw [hmsg, List.mem_singleton] at hmem
      cases hmem
    · intro _ _ _ _ hmem
      rw [hmsg, List.mem_singleton] at hmem
      cases hmem

/- The lines of an auto-fold say nothing of rounds and actions. -/
theorem mem_round_messages {i : Round.Input} {h' : Play} {about : Option (UInt8 × Action)} {msg : Message}
    (hmsg : msg ∈ f.messages u n ⟨h', about⟩ (.play (.round i))) : msg.isLine = true ∨
      ∃ ev ∈ reports f.play.runner h'.runner, msg = translateBusEvent (n.attempt h'.runner.log ev) := by
  obtain ⟨bus, hbus, rfl⟩ := List.mem_map.mp hmsg
  rcases List.mem_append.mp hbus with hline | hattempt
  · have hkind := autoFoldEvents_kind hline
    exact .inl (translate_line (by rw [hkind]; nofun) (by rw [hkind]; nofun) (by rw [hkind]; nofun))
  · obtain ⟨ev, hev, rfl⟩ := List.mem_map.mp hattempt
    exact .inr ⟨ev, hev, rfl⟩

/- A round step is faithful if each action it reports is the one it is about. -/
theorem faithful_round_iff {i : Round.Input} {h' : Play} {about : Option (UInt8 × Action)} :
    Faithful u n f ⟨h', about⟩ (.play (.round i)) ↔
      ∀ ev ∈ reports f.play.runner h'.runner, ∀ nodeID roundID attempt seat kind amount outcome reason,
        translateBusEvent (n.attempt h'.runner.log ev) =
          .action nodeID roundID attempt seat kind amount outcome reason →
        ∃ who : UInt8, subject u.rounds f.play.runner f.about i = some (who, ⟨kind, amount⟩) ∧
          seat = who.toNat := by
  constructor
  · intro h ev hev nodeID roundID attempt seat kind amount outcome reason heq
    refine h.actions nodeID roundID attempt seat kind amount outcome reason ?_
    rw [← heq]
    refine List.mem_map_of_mem ?_
    exact List.mem_append_right _ (List.mem_map_of_mem hev)
  · intro h
    refine ⟨?_, ?_, ?_⟩
    · show _ = []
      rw [List.filter_eq_nil_iff]
      intro msg hmsg
      rcases mem_round_messages hmsg with hline | ⟨ev, _, rfl⟩
      · exact Message.not_round_of_line hline
      · exact nofun
    · intro nodeID roundID attempt seat kind amount outcome reason hmsg
      rcases mem_round_messages hmsg with hline | ⟨ev, hev, heq⟩
      · cases hline
      · exact h ev hev _ _ _ _ _ _ _ _ heq.symm
    · intro nodeID sessionID order mySeat hmsg
      rcases mem_round_messages hmsg with hline | ⟨ev, _, heq⟩
      · cases hline
      · cases heq

theorem faithful_round {i : Round.Input} (ha : About u.rounds f.play.runner f.about)
    (hs : f.step u (.play (.round i)) = some f') :
    Faithful u n f f' (.play (.round i)) ↔ f.Plain u (.play (.round i)) := by
  obtain ⟨h', hstep, rfl⟩ := Option.map_eq_some_iff.mp hs
  have hr : f.play.runner.step u.rounds i = some h'.runner := by
    cases Play.step_move hstep with
    | round _ _ hr => exact hr
  have hplain : f.Plain u (.play (.round i)) ↔ ∀ ev ∈ reports f.play.runner h'.runner,
      ev.outcome = .committed ∨ subject u.rounds f.play.runner f.about i = some (0, ⟨.fold, 0⟩) := by
    constructor
    · exact fun h => h h'.runner hr
    · intro h r hr'
      rw [Option.some.inj (hr'.symm.trans hr)]
      exact h
  rw [faithful_round_iff, hplain]
  rcases reports_cases (Round.Runner.step_move hr) with hnone | ⟨ev, hone, hcommit⟩
  · rw [hnone]
    exact iff_of_true nofun nofun
  rw [hone]
  simp only [List.forall_mem_singleton]
  by_cases hev : ev.outcome = .committed
  · refine iff_of_true ?_ (.inl hev)
    obtain ⟨rfl, hlog, k, p, a, hphase⟩ := hcommit hev
    obtain ⟨last, hlast, habout, hkind⟩ := ha.committed hphase
    rw [hlog, translate_commit n hev hlast hkind]
    intro _ _ _ _ _ _ _ _ heq
    cases heq
    exact ⟨last.playerID, habout, rfl⟩
  · rw [translate_uncommitted n _ hev]
    constructor
    · intro h
      obtain ⟨who, hsubject, hseat⟩ := h _ _ _ _ _ _ _ _ rfl
      have hwho : who = 0 := by
        apply UInt8.toNat_inj.mp
        exact (Int.ofNat_inj.mp hseat).symm
      rw [hwho] at hsubject
      exact .inr hsubject
    · intro h _ _ _ _ _ _ _ _ heq
      cases heq
      exact ⟨0, h.resolve_left hev, rfl⟩

theorem about_of_trace {es : List FeedEvent} (ht : Trace (Feed.step u) Free (Feed.start u) es f) :
    About u.rounds f.play.runner f.about := by
  refine ht.keeps (P := fun f => About u.rounds f.play.runner f.about) ⟨Round.Sound.start _ _, nofun⟩ ?_
  intro f e f' _ hs ha
  cases e with
  | gameStart sid order =>
    obtain rfl := Option.some.inj hs
    exact ha
  | line =>
    rw [Feed.step] at hs
    split_ifs at hs
    obtain rfl := Option.some.inj hs
    exact ha
  | play e =>
    obtain ⟨h', hstep, rfl⟩ := Option.map_eq_some_iff.mp hs
    cases Play.step_move hstep with
    | beginRound _ _ hr => exact ha.begin hr
    | submit hr => exact ha.step (i := .submit _) hr
    | round _ _ hr => exact ha.step hr
    | _ => exact ha

theorem translation_faithful_iff (u : Seat c) (n : Emitter) {es : List FeedEvent} {f f' : Feed}
    (ht : Trace (Feed.step u) Free (Feed.start u) es f) {e : FeedEvent} (hs : f.step u e = some f') :
    Faithful u n f f' e ↔ f.Plain u e := by
  cases e with
  | gameStart sid order => exact faithful_gameStart sid order
  | line kind component message fields cards =>
    refine iff_of_true (.of_lines rfl ?_) trivial
    rw [Feed.step] at hs
    split_ifs at hs with hkind
    intro ev hev
    rw [List.mem_singleton.mp hev]
    refine ⟨?_, ?_, ?_⟩
    · rintro rfl
      exact absurd hkind (by decide)
    · rintro rfl
      exact absurd hkind (by decide)
    · rintro rfl
      exact absurd hkind (by decide)
  | play e =>
    cases e with
    | head => exact faithful_head hs
    | round i => exact faithful_round (about_of_trace ht) hs
    | _ => exact iff_of_true (.of_lines rfl nofun) trivial

instance (u : Seat c) (f : Feed) (e : FeedEvent) : Decidable (f.Plain u e) := by
  delta Plain
  induction e using FeedEvent.casesOn with
  | play e => induction e using Event.casesOn <;> infer_instance
  | _ => infer_instance

/- Where an event leads, if it can be taken. -/
def next (u : Seat c) (f : Feed) (e : FeedEvent) : Feed := (f.step u e).getD f

theorem step_next (h : (f.step u e).isSome) : f.step u e = some (f.next u e) := by
  obtain ⟨f', hs⟩ := Option.isSome_iff_exists.mp h
  rw [next, hs]
  rfl

def played (es : List Hand.Event) : List FeedEvent := es.map .play

/- Seat 0 checks and has the receipt of seat 1. -/
def checks : List FeedEvent :=
  played (seatZeroDeals ++ proposes ⟨.check, 0⟩ ++ [.round .append, .round .hostReceipt,
    .round (.receipt 1 []), .round .collected, .round .cleanup])

def checked : Feed := run (Feed.step seatZero) Free (Feed.start seatZero) checks

def seatZeroEmitter : Emitter := ⟨ascii "alice", ascii "table", 0⟩

theorem check_told : Faithful seatZero seatZeroEmitter checked
    (checked.next seatZero (.play (.round .conclude))) (.play (.round .conclude)) := by
  have ht : Trace (Feed.step seatZero) Free (Feed.start seatZero) checks checked :=
    run_trace (by decide +kernel)
  exact (translation_faithful_iff seatZero _ ht (step_next (by decide +kernel))).mpr (by decide +kernel)

/- Seat 0 folds, and the hand is over. -/
def folds : List FeedEvent := played (seatZeroDeals ++ proposes ⟨.fold, 0⟩ ++ committed [1])

def handEnded : Feed := run (Feed.step seatZero) Free (Feed.start seatZero) folds

/- Seat 0 does not act in its only attempt. -/
def dozes : List FeedEvent := played (seatZeroDeals ++ [.head, .round .deadline, .round .cleanup])

def timedOut : Feed := run (Feed.step seatZero) Free (Feed.start seatZero) dozes

theorem client_misled :
    (∃ f f', Trace (Feed.step seatZero) Free (Feed.start seatZero) folds f ∧
      f.step seatZero (.play .head) = some f' ∧ f'.calls (.play .head) = [] ∧
      .roundStarted (ascii "alice") 0 0 0 ∈ f.messages seatZero seatZeroEmitter f' (.play .head) ∧
      ¬ Faithful seatZero seatZeroEmitter f f' (.play .head)) ∧
    (∃ f f', Trace (Feed.step seatZero) Free (Feed.start seatZero) dozes f ∧
      f.step seatZero (.play (.round .conclude)) = some f' ∧ f.topic seatZero (.play (.round .conclude)) = none ∧
      f.messages seatZero seatZeroEmitter f' (.play (.round .conclude)) =
        [.action (ascii "alice") 0 0 0 .fold 0 (ascii "timeout") (ascii "no legal action before deadline")] ∧
      ¬ Faithful seatZero seatZeroEmitter f f' (.play (.round .conclude))) ∧
    ¬ Faithful seatZero seatZeroEmitter (Feed.start seatZero) (Feed.start seatZero)
      (.gameStart (ascii "table") [ascii "a,b"]) := by
  have hover : handEnded.step seatZero (.play .head) = some (handEnded.next seatZero (.play .head)) :=
    step_next (by decide +kernel)
  have hlate : timedOut.step seatZero (.play (.round .conclude)) =
      some (timedOut.next seatZero (.play (.round .conclude))) := step_next (by decide +kernel)
  have hfolds : Trace (Feed.step seatZero) Free (Feed.start seatZero) folds handEnded :=
    run_trace (by decide +kernel)
  have hdozes : Trace (Feed.step seatZero) Free (Feed.start seatZero) dozes timedOut :=
    run_trace (by decide +kernel)
  refine ⟨⟨handEnded, _, hfolds, hover, by decide +kernel, by decide +kernel, ?_⟩,
    ⟨timedOut, _, hdozes, hlate, by decide +kernel, by decide +kernel, ?_⟩, ?_⟩
  · rw [faithful_head hover]
    decide +kernel
  · rw [faithful_round (about_of_trace hdozes) hlate]
    decide +kernel
  · rw [faithful_gameStart]
    decide +kernel

end Feed

end Feed

end P2Poker.Client
