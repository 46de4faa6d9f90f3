import P2Poker.Lib.Mailbox
import P2Poker.Lib.Trace
import P2Poker.Client.Events

/-!
# Event streams (internal/peer/events.go: Subscribe, Emit; internal/clientrpc/server.go: SubscribeEvents)

Goroutines of the node call Emit, each one call after the other, and walk through the
subscribers under the read lock of the bus. A stream takes events from its channel and
sends them to its client; it is put on the list and taken off under the write lock.
Chat messages of peers go to the handler that was set last.
-/

namespace P2Poker.Streams
open P2Poker.Lib P2Poker.Client

structure PeerMessage where
  src : Bytes
  type : Bytes
  payload : Bytes
  deriving DecidableEq

/- What a stream sends: an event with the number of its call of Emit, or a chat message
with its number among those that came in. -/
inductive Item where
  | bus (x : ℕ × BusEvent)
  | peerMessage (x : ℕ × PeerMessage)
  deriving DecidableEq

def Item.ofBus : Item → Option (ℕ × BusEvent)
  | .bus x => some x
  | .peerMessage _ => none

def Item.ofPeer : Item → Option (ℕ × PeerMessage)
  | .bus _ => none
  | .peerMessage x => some x

inductive Stage where
  | unopened
  -- the handler is set, Subscribe is not called yet
  | opening
  -- at the select
  | streaming
  -- out of the loop, the deferred unsubscribe has not run
  | leaving
  | ended
  deriving DecidableEq

structure Stream where
  stage : Stage := .unopened
  busCh : Mailbox (ℕ × BusEvent) := {}
  closed : Bool := false
  ch : Mailbox (ℕ × PeerMessage) := {}
  told : List Item := []
  -- taken from its channel, but the client was gone
  failed : Option Item := none

/- `stream.Send` of an item; an error ends the loop. -/
def Stream.send (x : Stream) (item : Item) (ok : Bool) : Stream :=
  if ok then { x with told := x.told ++ [item] } else { x with stage := .leaving, failed := some item }

inductive CallStage where
  | waiting
  -- in the loop: the subscribers that are left
  | sending (left : List ℕ)
  | returned
  deriving DecidableEq

structure Call where
  goroutine : ℕ
  ev : BusEvent
  stage : CallStage := .waiting
  -- the subscribers when the lock was taken
  audience : List ℕ := []

def Call.left (call : Call) : List ℕ :=
  match call.stage with
  | .sending left => left
  | _ => []

def Call.inLoop (call : Call) : Bool :=
  match call.stage with
  | .sending _ => true
  | _ => false

structure Server where
  streams : ℕ → Stream := fun _ => {}
  opened : ℕ := 0
  subs : List ℕ := []
  calls : List Call := []
  handler : Option ℕ := none
  -- the chat messages that came in, with the handler that the read loop found
  received : List (PeerMessage × Option ℕ) := []
  -- handlers that are running: the stream and the message
  handling : List (ℕ × ℕ × PeerMessage) := []
  panicked : Bool := false

inductive Event where
  | openStream
  | subscribe (c : ℕ)
  | emit (g : ℕ) (ev : BusEvent)
  | lock (k : ℕ)
  | offer (k c : ℕ)
  | unlock (k : ℕ)
  | sendBus (c : ℕ) (ok : Bool)
  | sendChat (c : ℕ) (ok : Bool)
  | closedBus (c : ℕ)
  | done (c : ℕ)
  | unsubscribe (c : ℕ)
  | chat (msg : PeerMessage)
  | handle (i : ℕ)
  deriving DecidableEq

/- The size of both channels of a stream. -/
def chanCap : ℕ := 128

namespace Server

def setStream (s : Server) (c : ℕ) (x : Stream) : Server := { s with streams := Function.update s.streams c x }

def setCall (s : Server) (k : ℕ) (call : Call) : Server := { s with calls := s.calls.set k call }

/- Nobody holds the read lock. -/
def quiet (s : Server) : Bool := s.calls.all fun call => !call.inLoop

/- SubscribeEvents sets the handler first. -/
def openStream (s : Server) : Server :=
  { s.setStream s.opened { stage := .opening } with opened := s.opened + 1, handler := some s.opened }

def subscribe (s : Server) (c : ℕ) : Option Server :=
  if (s.streams c).stage = .opening ∧ s.quiet then
    some { s.setStream c { s.streams c with stage := .streaming } with subs := s.subs ++ [c] }
  else none

/- A goroutine calls Emit when its call before has returned. -/
def emit (s : Server) (g : ℕ) (ev : BusEvent) : Option Server :=
  if ∀ call ∈ s.calls, call.goroutine = g → call.stage = .returned then
    some { s with calls := s.calls ++ [{ goroutine := g, ev := ev }] }
  else none

def lock (s : Server) (k : ℕ) : Option Server :=
  match s.calls[k]? with
  | some call =>
    if call.stage = .waiting then some (s.setCall k { call with stage := .sending s.subs, audience := s.subs })
    else none
  | none => none

/- One turn of the loop; a map is walked through in any order. -/
def offer (s : Server) (k c : ℕ) : Option Server :=
  match s.calls[k]? with
  | some call =>
    if c ∈ call.left then
      if (s.streams c).closed then some { s with panicked := true }
      else
        some ((s.setCall k { call with stage := .sending (call.left.erase c) }).setStream c
          { s.streams c with busCh := (s.streams c).busCh.offer chanCap (k, call.ev) })
    else none
  | none => none

def unlock (s : Server) (k : ℕ) : Option Server :=
  match s.calls[k]? with
  | some call =>
    if call.stage = .sending [] then some (s.setCall k { call with stage := .returned }) else none
  | none => none

def sendBus (s : Server) (c : ℕ) (ok : Bool) : Option Server :=
  match (s.streams c).busCh.queue with
  | item :: rest =>
    if (s.streams c).stage = .streaming then
      let busCh := { (s.streams c).busCh with queue := rest, taken := (s.streams c).busCh.taken ++ [item] }
      some (s.setStream c (Stream.send { s.streams c with busCh := busCh } (.bus item) ok))
    else none
  | [] => none

def sendChat (s : Server) (c : ℕ) (ok : Bool) : Option Server :=
  match (s.streams c).ch.queue with
  | item :: rest =>
    if (s.streams c).stage = .streaming then
      let ch := { (s.streams c).ch with queue := rest, taken := (s.streams c).ch.taken ++ [item] }
      some (s.setStream c (Stream.send { s.streams c with ch := ch } (.peerMessage item) ok))
    else none
  | [] => none

/- The receive from a closed channel: the loop returns. -/
def closedBus (s : Server) (c : ℕ) : Option Server :=
  if (s.streams c).stage = .streaming ∧ (s.streams c).closed ∧ (s.streams c).busCh.queue = [] then
    some (s.setStream c { s.streams c with stage := .leaving })
  else none

def done (s : Server) (c : ℕ) : Option Server :=
  if (s.streams c).stage = .streaming then some (s.setStream c { s.streams c with stage := .leaving }) else none

/- cancel, which closes the channel once. -/
def unsubscribe (s : Server) (c : ℕ) : Option Server :=
  if (s.streams c).stage = .leaving ∧ s.quiet then
    if c ∈ s.subs then
      some { s.setStream c { s.streams c with stage := .ended, closed := true } with subs := s.subs.erase c }
    else some (s.setStream c { s.streams c with stage := .ended })
  else none

/- peerReadLoop looks the handler up. -/
def chat (s : Server) (msg : PeerMessage) : Server :=
  { s with
    received := s.received ++ [(msg, s.handler)]
    handling :=
      match s.handler with
      | some c => s.handling ++ [(c, s.received.length, msg)]
      | none => s.handling }

def handle (s : Server) (i : ℕ) : Option Server :=
  match s.handling[i]? with
  | some (c, item) =>
    some { s.setStream c { s.streams c with ch := (s.streams c).ch.offer chanCap item } with
      handling := s.handling.eraseIdx i }
  | none => none

def step (s : Server) : Event → Option Server
  | .openStream => some s.openStream
  | .subscribe c => s.subscribe c
  | .emit g ev => s.emit g ev
  | .lock k => s.lock k
  | .offer k c => s.offer k c
  | .unlock k => s.unlock k
  | .sendBus c ok => s.sendBus c ok
  | .sendChat c ok => s.sendChat c ok
  | .closedBus c => s.closedBus c
  | .done c => s.done c
  | .unsubscribe c => s.unsubscribe c
  | .chat msg => some (s.chat msg)
  | .handle i => s.handle i

/-! ### Steps -/

/-- What each event does, and when it can happen. -/
inductive Acts (s : Server) : Event → Server → Prop
  | openStream : Acts s .openStream s.openStream
  | subscribe {c : ℕ} : (s.streams c).stage = .opening → s.quiet = true → Acts s (.subscribe c)
      { s.setStream c { s.streams c with stage := .streaming } with subs := s.subs ++ [c] }
  | emit {g : ℕ} {ev : BusEvent} : (∀ call ∈ s.calls, call.goroutine = g → call.stage = .returned) →
      Acts s (.emit g ev) { s with calls := s.calls ++ [{ goroutine := g, ev := ev }] }
  | lock {k : ℕ} {call : Call} : s.calls[k]? = some call → call.stage = .waiting →
      Acts s (.lock k) (s.setCall k { call with stage := .sending s.subs, audience := s.subs })
  | panic {k c : ℕ} {call : Call} : s.calls[k]? = some call → c ∈ call.left → (s.streams c).closed = true →
      Acts s (.offer k c) { s with panicked := true }
  | offer {k c : ℕ} {call : Call} : s.calls[k]? = some call → c ∈ call.left → Acts s (.offer k c)
      ((s.setCall k { call with stage := .sending (call.left.erase c) }).setStream c
        { s.streams c with busCh := (s.streams c).busCh.offer chanCap (k, call.ev) })
  | unlock {k : ℕ} {call : Call} : s.calls[k]? = some call → call.stage = .sending [] →
      Acts s (.unlock k) (s.setCall k { call with stage := .returned })
  | sendBus {c : ℕ} {item : ℕ × BusEvent} {rest : List (ℕ × BusEvent)} (ok : Bool) :
      (s.streams c).stage = .streaming → (s.streams c).busCh.queue = item :: rest → Acts s (.sendBus c ok)
      (s.setStream c (Stream.send { s.streams c with
        busCh := { (s.streams c).busCh with queue := rest, taken := (s.streams c).busCh.taken ++ [item] } }
        (.bus item) ok))
  | sendChat {c : ℕ} {item : ℕ × PeerMessage} {rest : List (ℕ × PeerMessage)} (ok : Bool) :
      (s.streams c).stage = .streaming → (s.streams c).ch.queue = item :: rest → Acts s (.sendChat c ok)
      (s.setStream c (Stream.send { s.streams c with
        ch := { (s.streams c).ch with queue := rest, taken := (s.streams c).ch.taken ++ [item] } }
        (.peerMessage item) ok))
  | closedBus {c : ℕ} : (s.streams c).stage = .streaming →
      Acts s (.closedBus c) (s.setStream c { s.streams c with stage := .leaving })
  | done {c : ℕ} : (s.streams c).stage = .streaming →
      Acts s (.done c) (s.setStream c { s.streams c with stage := .leaving })
  | unsubscribe {c : ℕ} : (s.streams c).stage = .leaving → s.quiet = true → c ∈ s.subs → Acts s (.unsubscribe c)
      { s.setStream c { s.streams c with stage := .ended, closed := true } with subs := s.subs.erase c }
  | unlisted {c : ℕ} : (s.streams c).stage = .leaving → c ∉ s.subs →
      Acts s (.unsubscribe c) (s.setStream c { s.streams c with stage := .ended })
  | chat {msg : PeerMessage} : Acts s (.chat msg) (s.chat msg)
  | handle {i c : ℕ} {item : ℕ × PeerMessage} : s.handling[i]? = some (c, item) → Acts s (.handle i)
      { s.setStream c { s.streams c with ch := (s.streams c).ch.offer chanCap item } with
        handling := s.handling.eraseIdx i }

theorem acts_of_step {s s' : Server} {e : Event} (h : s.step e = some s') : Acts s e s' := by
  cases e with
  | openStream =>
    obtain rfl := Option.some.inj h
    exact .openStream
  | subscribe c =>
    rw [step, subscribe] at h
    split_ifs at h with hcond
    obtain rfl := Option.some.inj h
    exact .subscribe hcond.1 hcond.2
  | emit g ev =>
    rw [step, emit] at h
    split_ifs at h with hidle
    obtain rfl := Option.some.inj h
    exact .emit hidle
  | lock k =>
    rw [step, lock] at h
    split at h
    · rename_i call hk
      split_ifs at h with hwaiting
      obtain rfl := Option.some.inj h
      exact .lock hk hwaiting
    · cases h
  | offer k c =>
    rw [step, offer] at h
    split at h
    · rename_i call hk
      split_ifs at h with hmem hclosed
      · obtain rfl := Option.some.inj h
        exact .panic hk hmem hclosed
      · obtain rfl := Option.some.inj h
        exact .offer hk hmem
    · cases h
  | unlock k =>
    rw [step, unlock] at h
    split at h
    · rename_i call hk
      split_ifs at h with hsending
      obtain rfl := Option.some.inj h
      exact .unlock hk hsending
    · cases h
  | sendBus c ok =>
    rw [step, sendBus] at h
    split at h
    · rename_i hqueue
      split_ifs at h with hstage
      obtain rfl := Option.some.inj h
      exact .sendBus ok hstage hqueue
    · cases h
  | sendChat c ok =>
    rw [step, sendChat] at h
    split at h
    · rename_i hqueue
      split_ifs at h with hstage
      obtain rfl := Option.some.inj h
      exact .sendChat ok hstage hqueue
    · cases h
  | closedBus c =>
    rw [step, closedBus] at h
    split_ifs at h with hcond
    obtain rfl := Option.some.inj h
    exact .closedBus hcond.1
  | done c =>
    rw [step, done] at h
    split_ifs at h with hstage
    obtain rfl := Option.some.inj h
    exact .done hstage
  | unsubscribe c =>
    rw [step, unsubscribe] at h
    split_ifs at h with hcond hmem
    · obtain rfl := Option.some.inj h
      exact .unsubscribe hcond.1 hcond.2 hmem
    · obtain rfl := Option.some.inj h
      exact .unlisted hcond.1 hmem
  | chat msg =>
    obtain rfl := Option.some.inj h
    exact .chat
  | handle i =>
    rw [step, handle] at h
    split at h
    · rename_i c item hitem
      obtain rfl := Option.some.inj h
      exact .handle hitem
    · cases h

/-! ### What a step does to a stream -/

/-- Everything that happens to an open stream, but for the offers of events. -/
inductive Move (x : Stream) : Stream → Prop
  | subscribe : x.stage = .opening → Move x { x with stage := .streaming }
  | sendBus {item : ℕ × BusEvent} {rest : List (ℕ × BusEvent)} (ok : Bool) : x.stage = .streaming →
      x.busCh.queue = item :: rest →
      Move x (Stream.send { x with busCh := { x.busCh with queue := rest, taken := x.busCh.taken ++ [item] } }
        (.bus item) ok)
  | sendChat {item : ℕ × PeerMessage} {rest : List (ℕ × PeerMessage)} (ok : Bool) : x.stage = .streaming →
      x.ch.queue = item :: rest →
      Move x (Stream.send { x with ch := { x.ch with queue := rest, taken := x.ch.taken ++ [item] } }
        (.peerMessage item) ok)
  | leave : x.stage = .streaming → Move x { x with stage := .leaving }
  | finish (closed : Bool) : x.stage = .leaving → Move x { x with stage := .ended, closed := closed }
  | handle (item : ℕ × PeerMessage) : Move x { x with ch := x.ch.offer chanCap item }

variable {s s' : Server} {e : Event}

theorem setStream_self (s : Server) (c : ℕ) (x : Stream) : (s.setStream c x).streams c = x := Function.update_self ..

theorem setStream_ne {c d : ℕ} (x : Stream) (h : d ≠ c) : (s.setStream c x).streams d = s.streams d :=
  Function.update_of_ne h ..

/- A step that puts a new value for one stream moves that stream. -/
theorem moved_of_setStream {c : ℕ} {x : Stream} (h : s'.streams = (s.setStream c x).streams) (hm : Move (s.streams c) x)
    (d : ℕ) : s'.streams d = s.streams d ∨ Move (s.streams d) (s'.streams d) := by
  by_cases hd : d = c
  · subst hd
    rw [h, setStream_self]
    exact .inr hm
  · rw [h, setStream_ne x hd]
    exact .inl rfl

theorem step_streams (h : s.step e = some s') (hoffer : ∀ k d, e ≠ .offer k d) (c : ℕ) :
    s'.streams c = s.streams c ∨ Move (s.streams c) (s'.streams c) ∨
      e = .openStream ∧ c = s.opened ∧ s'.streams c = { stage := .opening } := by
  rw [← or_assoc]
  cases acts_of_step h with
  | openStream =>
    by_cases hc : c = s.opened
    · subst hc
      exact .inr ⟨rfl, rfl, setStream_self ..⟩
    · exact .inl (.inl (setStream_ne _ hc))
  | subscribe hstage _ => exact .inl (moved_of_setStream rfl (.subscribe hstage) c)
  | panic _ _ _ => exact absurd rfl (hoffer _ _)
  | offer _ _ => exact absurd rfl (hoffer _ _)
  | sendBus ok hstage hqueue => exact .inl (moved_of_setStream rfl (.sendBus ok hstage hqueue) c)
  | sendChat ok hstage hqueue => exact .inl (moved_of_setStream rfl (.sendChat ok hstage hqueue) c)
  | closedBus hstage => exact .inl (moved_of_setStream rfl (.leave hstage) c)
  | done hstage => exact .inl (moved_of_setStream rfl (.leave hstage) c)
  | unsubscribe hstage _ _ => exact .inl (moved_of_setStream rfl (.finish true hstage) c)
  | unlisted hstage _ => exact .inl (moved_of_setStream rfl (.finish _ hstage) c)
  | handle _ => exact .inl (moved_of_setStream rfl (.handle _) c)
  | emit _ => exact .inl (.inl rfl)
  | lock _ _ => exact .inl (.inl rfl)
  | unlock _ _ => exact .inl (.inl rfl)
  | chat => exact .inl (.inl rfl)

/-! ### What a client is told -/

/-- The items that a stream has taken from its channels are told, but for the one that the
client was gone for. -/
structure Kept (x : Stream) : Prop where
  bus : x.busCh.Kept chanCap
  chat : x.ch.Kept chanCap
  toldBus : x.told.filterMap Item.ofBus ++ (x.failed.bind Item.ofBus).toList = x.busCh.taken
  toldChat : x.told.filterMap Item.ofPeer ++ (x.failed.bind Item.ofPeer).toList = x.ch.taken
  there : x.stage = .opening ∨ x.stage = .streaming → x.failed = none

theorem Kept.opening : Kept { stage := .opening } :=
  ⟨.new, .new, rfl, rfl, fun _ => rfl⟩

theorem Kept.move {x x' : Stream} (h : Kept x) (hm : Move x x') : Kept x' := by
  cases hm with
  | subscribe hstage => exact ⟨h.bus, h.chat, h.toldBus, h.toldChat, fun _ => h.there (.inl hstage)⟩
  | @sendBus item rest ok hstage hqueue =>
    have hnone := h.there (.inr hstage)
    have hbus := h.toldBus
    have hchat := h.toldChat
    rw [hnone] at hbus hchat
    cases ok with
    | true =>
      refine ⟨h.bus.take hqueue, h.chat, ?_, ?_, h.there⟩
      · simpa [Stream.send, hnone, List.filterMap_cons, Item.ofBus] using hbus
      · simpa [Stream.send, hnone, List.filterMap_cons, Item.ofPeer] using hchat
    | false =>
      refine ⟨h.bus.take hqueue, h.chat, ?_, ?_, by simp [Stream.send]⟩
      · simpa [Stream.send, Item.ofBus] using hbus
      · simpa [Stream.send, Item.ofPeer] using hchat
  | @sendChat item rest ok hstage hqueue =>
    have hnone := h.there (.inr hstage)
    have hbus := h.toldBus
    have hchat := h.toldChat
    rw [hnone] at hbus hchat
    cases ok with
    | true =>
      refine ⟨h.bus, h.chat.take hqueue, ?_, ?_, h.there⟩
      · simpa [Stream.send, hnone, List.filterMap_cons, Item.ofBus] using hbus
      · simpa [Stream.send, hnone, List.filterMap_cons, Item.ofPeer] using hchat
    | false =>
      refine ⟨h.bus, h.chat.take hqueue, ?_, ?_, by simp [Stream.send]⟩
      · simpa [Stream.send, Item.ofBus] using hbus
      · simpa [Stream.send, Item.ofPeer] using hchat
  | leave hstage => exact ⟨h.bus, h.chat, h.toldBus, h.toldChat, by simp⟩
  | finish closed hstage => exact ⟨h.bus, h.chat, h.toldBus, h.toldChat, by simp⟩
  | handle item => exact ⟨h.bus, h.chat.offer item, h.toldBus, h.toldChat, h.there⟩

theorem Kept.offer {x : Stream} (h : Kept x) (item : ℕ × BusEvent) :
    Kept { x with busCh := x.busCh.offer chanCap item } :=
  ⟨h.bus.offer item, h.chat, h.toldBus, h.toldChat, h.there⟩

theorem Move.offered {x x' : Stream} (hm : Move x x') : x'.busCh.offered = x.busCh.offered := by
  cases hm with
  | sendBus ok _ _ => cases ok <;> rfl
  | sendChat ok _ _ => cases ok <;> rfl
  | subscribe _ => rfl
  | leave _ => rfl
  | finish _ _ => rfl
  | handle _ => rfl

theorem step_offer {k c : ℕ} (h : s.step (.offer k c) = some s') :
    ∃ call, s.calls[k]? = some call ∧ c ∈ call.left ∧
      ((s.streams c).closed = true ∨
        s' = (s.setCall k { call with stage := .sending (call.left.erase c) }).setStream c
          { s.streams c with busCh := (s.streams c).busCh.offer chanCap (k, call.ev) }) := by
  cases acts_of_step h with
  | panic hk hmem hclosed => exact ⟨_, hk, hmem, .inl hclosed⟩
  | offer hk hmem => exact ⟨_, hk, hmem, .inr rfl⟩

/-! ### What holds in every run -/

def Stream.listed (x : Stream) : Prop := x.stage = .streaming ∨ x.stage = .leaving

/- The calls of Emit that a stream was offered the event of, in that order. -/
def heard (s : Server) (c : ℕ) : List ℕ := (s.streams c).busCh.offered.map Prod.fst

/-- In the order of the calls, as far as one goroutine made them. -/
def InOrder (calls : List Call) (j k : ℕ) : Prop :=
  ∀ callj callk, calls[j]? = some callj → calls[k]? = some callk → callj.goroutine = callk.goroutine → j < k

structure Inv (s : Server) : Prop where
  fresh : ∀ c, s.opened ≤ c → s.streams c = {}
  subs : ∀ c, c ∈ s.subs ↔ Stream.listed (s.streams c)
  nodup : s.subs.Nodup
  closed : ∀ c, (s.streams c).closed = true ↔ (s.streams c).stage = .ended
  left : ∀ (k : ℕ) (call : Call), s.calls[k]? = some call → (∀ c ∈ call.left, c ∈ s.subs) ∧ call.left.Nodup
  turns : ∀ (j k : ℕ) (callj callk : Call), j < k → s.calls[j]? = some callj → s.calls[k]? = some callk →
    callj.goroutine = callk.goroutine → callj.stage = .returned
  sound : ∀ c, ∀ x ∈ (s.streams c).busCh.offered, ∃ call : Call, s.calls[x.1]? = some call ∧ call.ev = x.2 ∧
    call.stage ≠ .waiting ∧ c ∉ call.left
  complete : ∀ (c k : ℕ) (call : Call), s.calls[k]? = some call → c ∈ call.audience → c ∉ call.left → k ∈ s.heard c
  order : ∀ c, (s.heard c).Pairwise (InOrder s.calls)
  kept : ∀ c, Kept (s.streams c)
  running : s.panicked = false

theorem Inv.start : Inv ({} : Server) where
  fresh _ _ := rfl
  subs c := by simp [Stream.listed]
  nodup := List.nodup_nil
  closed c := by simp
  left k call h := by simp at h
  turns j k callj callk _ h := by simp at h
  sound c x h := by simp [Mailbox.offered] at h
  complete c k call h := by simp at h
  order c := by simp [heard, Mailbox.offered]
  kept c := ⟨.new, .new, rfl, rfl, fun _ => rfl⟩
  running := rfl

theorem Inv.opened_of_stage (hi : Inv s) {c : ℕ} (h : (s.streams c).stage ≠ .unopened) : c < s.opened := by
  by_contra hle
  rw [hi.fresh c (not_lt.mp hle)] at h
  exact h rfl

/-- One stream changes, and the list of subscribers with it. -/
theorem Inv.replace (hi : Inv s) {c opened : ℕ} {x : Stream} {subs : List ℕ}
    (hstreams : s'.streams = Function.update s.streams c x) (hsubs' : s'.subs = subs) (hopened' : s'.opened = opened)
    (hcalls : s'.calls = s.calls) (hpanicked : s'.panicked = s.panicked)
    (hc : c < opened) (hopened : s.opened ≤ opened)
    (hsubs : ∀ d, d ∈ subs ↔ if d = c then Stream.listed x else d ∈ s.subs) (hnodup : subs.Nodup)
    (hleft : ∀ (k : ℕ) (call : Call), s.calls[k]? = some call → ∀ d ∈ call.left, d ∈ subs)
    (hclosed : x.closed = true ↔ x.stage = .ended) (hoffered : x.busCh.offered = (s.streams c).busCh.offered)
    (hkept : Kept x) : Inv s' := by
  have hself : s'.streams c = x := by rw [hstreams, Function.update_self]
  have hne : ∀ d, d ≠ c → s'.streams d = s.streams d := by
    intro d hd
    rw [hstreams, Function.update_of_ne hd]
  have hoff : ∀ d, (s'.streams d).busCh.offered = (s.streams d).busCh.offered := by
    intro d
    by_cases hd : d = c
    · rw [hd, hself, hoffered]
    · rw [hne d hd]
  have hheard : ∀ d, s'.heard d = s.heard d := fun d => congrArg (List.map Prod.fst) (hoff d)
  refine ⟨?_, ?_, ?_, ?_, ?_, ?_, ?_, ?_, ?_, ?_, ?_⟩
  · intro d hd
    rw [hopened'] at hd
    rw [hne d (by omega)]
    exact hi.fresh d (hopened.trans hd)
  · intro d
    rw [hsubs', hsubs d]
    by_cases hd : d = c
    · rw [if_pos hd, hd, hself]
    · rw [if_neg hd, hne d hd]
      exact hi.subs d
  · rw [hsubs']
    exact hnodup
  · intro d
    by_cases hd : d = c
    · rw [hd, hself]
      exact hclosed
    · rw [hne d hd]
      exact hi.closed d
  · intro k call hk
    rw [hcalls] at hk
    rw [hsubs']
    exact ⟨hleft k call hk, (hi.left k call hk).2⟩
  · rw [hcalls]
    exact hi.turns
  · intro d y hy
    rw [hoff d] at hy
    rw [hcalls]
    exact hi.sound d y hy
  · intro d k call hk
    rw [hcalls] at hk
    rw [hheard d]
    exact hi.complete d k call hk
  · intro d
    rw [hheard d, hcalls]
    exact hi.order d
  · intro d
    by_cases hd : d = c
    · rw [hd, hself]
      exact hkept
    · rw [hne d hd]
      exact hi.kept d
  · exact hpanicked.trans hi.running

/- A stream goes on, and stays on the list or off it. -/
theorem Inv.setStream (hi : Inv s) {c : ℕ} {x : Stream} (hstreams : s'.streams = Function.update s.streams c x)
    (hsubs : s'.subs = s.subs) (hopened : s'.opened = s.opened) (hcalls : s'.calls = s.calls)
    (hpanicked : s'.panicked = s.panicked) (hc : c < s.opened)
    (hlisted : Stream.listed x ↔ Stream.listed (s.streams c)) (hclosed : x.closed = true ↔ x.stage = .ended)
    (hoffered : x.busCh.offered = (s.streams c).busCh.offered) (hkept : Kept x) : Inv s' := by
  refine hi.replace hstreams hsubs hopened hcalls hpanicked hc le_rfl ?_ hi.nodup
    (fun k call hk => (hi.left k call hk).1) hclosed hoffered hkept
  intro d
  by_cases hd : d = c
  · rw [if_pos hd, hd, hlisted]
    exact hi.subs c
  · rw [if_neg hd]

theorem left_of_quiet (hq : s.quiet = true) {k : ℕ} {call : Call} (hk : s.calls[k]? = some call) : call.left = [] := by
  have hnot := List.all_eq_true.mp hq call (List.mem_of_getElem? hk)
  unfold Call.inLoop at hnot
  unfold Call.left
  cases hstage : call.stage with
  | sending left => simp [hstage] at hnot
  | waiting => rfl
  | returned => rfl

theorem Inv.openStream (hi : Inv s) : Inv s.openStream := by
  have hold : s.streams s.opened = {} := hi.fresh s.opened le_rfl
  refine hi.replace rfl rfl rfl rfl rfl (Nat.lt_succ_self _) (Nat.le_succ _) ?_ hi.nodup
    (fun k call hk => (hi.left k call hk).1) (by simp) (by rw [hold]) .opening
  intro d
  by_cases hd : d = s.opened
  · show d ∈ s.subs ↔ _
    rw [if_pos hd, hi.subs d, hd, hold]
    simp [Stream.listed]
  · rw [if_neg hd]
    exact Iff.rfl

/- The list changes while nobody is in the loop. -/
theorem left_mem_of_quiet (hq : s.quiet = true) (subs : List ℕ) (k : ℕ) (call : Call) (hk : s.calls[k]? = some call) :
    ∀ d ∈ call.left, d ∈ subs := by
  rw [left_of_quiet hq hk]
  simp

theorem Inv.subscribe {c : ℕ} (hi : Inv s) (hstage : (s.streams c).stage = .opening) (hq : s.quiet = true) :
    Inv { s.setStream c { s.streams c with stage := .streaming } with subs := s.subs ++ [c] } := by
  have hnot : c ∉ s.subs := by
    rw [hi.subs c, Stream.listed, hstage]
    simp
  refine hi.replace rfl rfl rfl rfl rfl (hi.opened_of_stage (by rw [hstage]; simp)) le_rfl ?_ ?_
    (left_mem_of_quiet hq _) ?_ rfl ((hi.kept c).move (.subscribe hstage))
  · intro d
    by_cases hd : d = c
    · simp [hd, Stream.listed]
    · simp [hd]
  · exact List.Nodup.append hi.nodup (List.nodup_singleton c) (by simpa using hnot)
  · have hclosed := hi.closed c
    rw [hstage] at hclosed
    simpa using hclosed

theorem Inv.unsubscribe {c : ℕ} (hi : Inv s) (hstage : (s.streams c).stage = .leaving) (hq : s.quiet = true) :
    Inv { s.setStream c { s.streams c with stage := .ended, closed := true } with subs := s.subs.erase c } := by
  refine hi.replace rfl rfl rfl rfl rfl (hi.opened_of_stage (by rw [hstage]; simp)) le_rfl ?_ (hi.nodup.erase c)
    (left_mem_of_quiet hq _) (by simp) rfl ((hi.kept c).move (.finish true hstage))
  intro d
  by_cases hd : d = c
  · rw [if_pos hd, hd]
    simp [Stream.listed, hi.nodup.mem_erase_iff]
  · rw [if_neg hd]
    exact List.mem_erase_of_ne hd

theorem Inv.streaming (hi : Inv s) {c : ℕ} {x : Stream} (hstage : (s.streams c).stage = .streaming)
    (hstreams : s'.streams = Function.update s.streams c x) (hsubs : s'.subs = s.subs) (hopened : s'.opened = s.opened)
    (hcalls : s'.calls = s.calls) (hpanicked : s'.panicked = s.panicked) (hlisted : Stream.listed x)
    (hclosed : x.closed = (s.streams c).closed) (hm : Move (s.streams c) x) : Inv s' := by
  have hopen : (s.streams c).closed = false := by
    have hiff := hi.closed c
    rw [hstage] at hiff
    simpa using hiff
  refine hi.setStream hstreams hsubs hopened hcalls hpanicked (hi.opened_of_stage (by rw [hstage]; simp))
    ⟨fun _ => .inl hstage, fun _ => hlisted⟩ ?_ hm.offered ((hi.kept c).move hm)
  rw [hclosed, hopen]
  rcases hlisted with h | h
  · simp [h]
  · simp [h]

theorem send_listed (x : Stream) (item : Item) (ok : Bool) (h : x.stage = .streaming) :
    Stream.listed (x.send item ok) := by
  cases ok with
  | true => exact .inl h
  | false => exact .inr rfl

theorem send_closed (x : Stream) (item : Item) (ok : Bool) : (x.send item ok).closed = x.closed := by
  cases ok with
  | true => rfl
  | false => rfl

/-! ### The calls of Emit -/

theorem getCall_set {calls : List Call} {k : ℕ} {call call' : Call} (hk : calls[k]? = some call) (j : ℕ) :
    (calls.set k call')[j]? = if j = k then some call' else calls[j]? := by
  have hlt := (List.getElem?_eq_some_iff.mp hk).1
  rw [List.getElem?_set]
  by_cases hj : j = k
  · rw [if_pos hj.symm, if_pos hj, if_pos hlt]
  · rw [if_neg (Ne.symm hj), if_neg hj]

/- A call goes on; its goroutine is the same. -/
theorem InOrder.set {calls : List Call} {k i j : ℕ} {call call' : Call} (hk : calls[k]? = some call)
    (hg : call'.goroutine = call.goroutine) (h : InOrder calls i j) : InOrder (calls.set k call') i j := by
  have hback : ∀ (m : ℕ) (callm : Call), (calls.set k call')[m]? = some callm →
      ∃ old : Call, calls[m]? = some old ∧ old.goroutine = callm.goroutine := by
    intro m callm hm
    rw [getCall_set hk] at hm
    split_ifs at hm with hmk
    · obtain rfl := Option.some.inj hm
      rw [hmk]
      exact ⟨call, hk, hg.symm⟩
    · exact ⟨callm, hm, rfl⟩
  intro calli callj hi hj hsame
  obtain ⟨oldi, hi', hgi⟩ := hback i calli hi
  obtain ⟨oldj, hj', hgj⟩ := hback j callj hj
  exact h oldi oldj hi' hj' (hgi.trans (hsame.trans hgj.symm))

/-- A call that has not returned goes on. -/
theorem Inv.setCall (hi : Inv s) {k : ℕ} {call call' : Call} (hk : s.calls[k]? = some call)
    (hcalls : s'.calls = s.calls.set k call') (hnot : call.stage ≠ .returned) (hg : call'.goroutine = call.goroutine)
    (hstreams : ∀ d, s'.streams d = s.streams d ∨ Kept (s'.streams d) ∧ (s'.streams d).stage = (s.streams d).stage ∧
      (s'.streams d).closed = (s.streams d).closed ∧ d < s.opened)
    (hsubs : s'.subs = s.subs) (hopened : s'.opened = s.opened) (hpanicked : s'.panicked = s.panicked)
    (hleft : (∀ c ∈ call'.left, c ∈ s.subs) ∧ call'.left.Nodup)
    (hsound : ∀ c, ∀ x ∈ (s'.streams c).busCh.offered, ∃ call : Call, s'.calls[x.1]? = some call ∧ call.ev = x.2 ∧
      call.stage ≠ .waiting ∧ c ∉ call.left)
    (hcomplete : ∀ (c j : ℕ) (callj : Call), s'.calls[j]? = some callj → c ∈ callj.audience → c ∉ callj.left →
      j ∈ s'.heard c)
    (horder : ∀ c, (s'.heard c).Pairwise (InOrder s.calls)) : Inv s' := by
  have hstage : ∀ d, (s'.streams d).stage = (s.streams d).stage := by
    intro d
    rcases hstreams d with hsame | ⟨_, hstage, _, _⟩
    · rw [hsame]
    · exact hstage
  refine ⟨?_, ?_, ?_, ?_, ?_, ?_, hsound, hcomplete, ?_, ?_, hpanicked.trans hi.running⟩
  · intro d hd
    rw [hopened] at hd
    rcases hstreams d with hsame | ⟨_, _, _, hlt⟩
    · rw [hsame]
      exact hi.fresh d hd
    · omega
  · intro d
    rw [hsubs, hi.subs d, Stream.listed, Stream.listed, hstage d]
  · rw [hsubs]
    exact hi.nodup
  · intro d
    rw [hstage d]
    rcases hstreams d with hsame | ⟨_, _, hclosed, _⟩
    · rw [hsame]
      exact hi.closed d
    · rw [hclosed]
      exact hi.closed d
  · intro j callj hj
    rw [hcalls, getCall_set hk] at hj
    rw [hsubs]
    split_ifs at hj
    · obtain rfl := Option.some.inj hj
      exact hleft
    · exact hi.left j callj hj
  · intro i j calli callj hij hi' hj' hsame
    rw [hcalls, getCall_set hk] at hi' hj'
    -- the call that goes on is the last of its goroutine
    have hlast : i ≠ k := by
      rintro rfl
      rw [if_pos rfl] at hi'
      obtain rfl := Option.some.inj hi'
      rw [if_neg (by omega)] at hj'
      exact hnot (hi.turns i j call callj hij hk hj' (hg.symm.trans hsame))
    rw [if_neg hlast] at hi'
    by_cases hjk : j = k
    · rw [if_pos hjk] at hj'
      obtain rfl := Option.some.inj hj'
      subst hjk
      exact hi.turns i j calli call hij hi' hk (hsame.trans hg)
    · rw [if_neg hjk] at hj'
      exact hi.turns i j calli callj hij hi' hj' hsame
  · intro c
    rw [hcalls]
    exact (horder c).imp fun h => h.set hk hg
  · intro d
    rcases hstreams d with hsame | ⟨hkept, _⟩
    · rw [hsame]
      exact hi.kept d
    · exact hkept

theorem Inv.lock {k : ℕ} {call : Call} (hi : Inv s) (hk : s.calls[k]? = some call) (hwaiting : call.stage = .waiting) :
    Inv (s.setCall k { call with stage := .sending s.subs, audience := s.subs }) := by
  refine hi.setCall hk rfl (by rw [hwaiting]; simp) rfl (fun d => .inl rfl) rfl rfl rfl
    ⟨fun c hc => hc, hi.nodup⟩ ?_ ?_ hi.order
  · intro c x hx
    obtain ⟨callx, hcall, hev, hstage, hleft⟩ := hi.sound c x hx
    have hne : x.1 ≠ k := by
      intro heq
      rw [heq, hk] at hcall
      obtain rfl := Option.some.inj hcall
      exact hstage hwaiting
    exact ⟨callx, (getCall_set hk _).trans ((if_neg hne).trans hcall), hev, hstage, hleft⟩
  · intro c j callj hj haud hleft
    rw [show (Server.setCall s k _).calls[j]? = _ from getCall_set hk j] at hj
    split_ifs at hj with hjk
    · obtain rfl := Option.some.inj hj
      exact absurd haud hleft
    · exact hi.complete c j callj hj haud hleft

theorem Inv.unlock {k : ℕ} {call : Call} (hi : Inv s) (hk : s.calls[k]? = some call)
    (hsending : call.stage = .sending []) : Inv (s.setCall k { call with stage := .returned }) := by
  have hempty : call.left = [] := by rw [Call.left, hsending]
  refine hi.setCall hk rfl (by rw [hsending]; simp) rfl (fun d => .inl rfl) rfl rfl rfl
    ⟨by simp [Call.left], by simp [Call.left]⟩ ?_ ?_ hi.order
  · intro c x hx
    obtain ⟨callx, hcall, hev, hstage, hleft⟩ := hi.sound c x hx
    by_cases hxk : x.1 = k
    · rw [hxk, hk] at hcall
      obtain rfl := Option.some.inj hcall
      exact ⟨_, (getCall_set hk _).trans (if_pos hxk), hev, by simp, by simp [Call.left]⟩
    · exact ⟨callx, (getCall_set hk _).trans ((if_neg hxk).trans hcall), hev, hstage, hleft⟩
  · intro c j callj hj haud hleft
    rw [show (Server.setCall s k _).calls[j]? = _ from getCall_set hk j] at hj
    split_ifs at hj with hjk
    · obtain rfl := Option.some.inj hj
      subst hjk
      exact hi.complete c j call hk haud (by rw [hempty]; simp)
    · exact hi.complete c j callj hj haud hleft

theorem stage_of_left {call : Call} {c : ℕ} (h : c ∈ call.left) : call.stage = .sending call.left := by
  unfold Call.left at h ⊢
  cases hstage : call.stage with
  | sending left => rfl
  | waiting => simp [hstage] at h
  | returned => simp [hstage] at h

/- A channel that a call walks to is open, since its stream cannot leave the list before. -/
theorem Inv.left_open (hi : Inv s) {k c : ℕ} {call : Call} (hk : s.calls[k]? = some call) (hc : c ∈ call.left) :
    (s.streams c).closed = false ∧ c < s.opened := by
  have hlisted := (hi.subs c).mp ((hi.left k call hk).1 c hc)
  constructor
  · rw [← Bool.not_eq_true, hi.closed c]
    rcases hlisted with h | h
    · simp [h]
    · simp [h]
  · apply hi.opened_of_stage
    rcases hlisted with h | h
    · simp [h]
    · simp [h]

theorem Inv.offer {k c : ℕ} (hi : Inv s) (h : s.step (.offer k c) = some s') : Inv s' := by
  obtain ⟨call, hk, hmem, hs'⟩ := step_offer h
  obtain ⟨hopen, hlt⟩ := hi.left_open hk hmem
  have hstage := stage_of_left hmem
  obtain ⟨hsubs, hnodup⟩ := hi.left k call hk
  rcases hs' with hclosed | rfl
  · rw [hopen] at hclosed
    cases hclosed
  -- the call was not offered to this stream before
  have hnew : k ∉ s.heard c := by
    intro hin
    obtain ⟨x, hx, rfl⟩ := List.mem_map.mp hin
    obtain ⟨callx, hcall, _, _, hnot⟩ := hi.sound c x hx
    rw [hk] at hcall
    obtain rfl := Option.some.inj hcall
    exact hnot hmem
  have hcalls : ∀ j, ((s.setCall k { call with stage := .sending (call.left.erase c) }).setStream c
      { s.streams c with busCh := (s.streams c).busCh.offer chanCap (k, call.ev) }).calls[j]? =
        if j = k then some { call with stage := .sending (call.left.erase c) } else s.calls[j]? :=
    fun j => getCall_set hk j
  have hself := setStream_self (s.setCall k { call with stage := .sending (call.left.erase c) }) c
    { s.streams c with busCh := (s.streams c).busCh.offer chanCap (k, call.ev) }
  have hother : ∀ d, d ≠ c → ((s.setCall k { call with stage := .sending (call.left.erase c) }).setStream c
      { s.streams c with busCh := (s.streams c).busCh.offer chanCap (k, call.ev) }).streams d = s.streams d :=
    fun d hd => setStream_ne _ hd
  refine hi.setCall hk rfl (by rw [hstage]; simp) rfl ?_ rfl rfl rfl ?_ ?_ ?_ ?_
  · intro d
    by_cases hd : d = c
    · subst hd
      rw [hself]
      exact .inr ⟨(hi.kept d).offer _, rfl, rfl, hlt⟩
    · exact .inl (hother d hd)
  · exact ⟨fun d hd => hsubs d (List.mem_of_mem_erase hd), hnodup.erase c⟩
  · intro d x hx
    rw [hcalls]
    by_cases hd : d = c
    · subst hd
      rw [hself, Mailbox.offered_offer] at hx
      rcases List.mem_append.mp hx with hin | hlast
      · obtain ⟨callx, hcall, hev, hwait, hnot⟩ := hi.sound d x hin
        by_cases hxk : x.1 = k
        · exact absurd (hxk ▸ List.mem_map_of_mem hin) hnew
        · exact ⟨callx, (if_neg hxk).trans hcall, hev, hwait, hnot⟩
      · rw [List.mem_singleton.mp hlast]
        exact ⟨_, if_pos rfl, rfl, by simp, hnodup.not_mem_erase⟩
    · rw [hother d hd] at hx
      obtain ⟨callx, hcall, hev, hwait, hnot⟩ := hi.sound d x hx
      by_cases hxk : x.1 = k
      · rw [hxk, hk] at hcall
        obtain rfl := Option.some.inj hcall
        exact ⟨_, if_pos hxk, hev, by simp, fun hin => hnot (List.mem_of_mem_erase hin)⟩
      · exact ⟨callx, (if_neg hxk).trans hcall, hev, hwait, hnot⟩
  · intro d j callj hj haud hleft
    rw [hcalls] at hj
    unfold heard
    by_cases hd : d = c
    · subst hd
      rw [hself, Mailbox.offered_offer, List.map_append, List.mem_append]
      split_ifs at hj with hjk
      · rw [hjk]
        exact .inr (List.mem_singleton.mpr rfl)
      · exact .inl (hi.complete d j callj hj haud hleft)
    · rw [hother d hd]
      split_ifs at hj with hjk
      · obtain rfl := Option.some.inj hj
        rw [hjk]
        exact hi.complete d k call hk haud fun hin => hleft ((List.mem_erase_of_ne hd).mpr hin)
      · exact hi.complete d j callj hj haud hleft
  · intro d
    unfold heard
    by_cases hd : d = c
    · subst hd
      rw [hself, Mailbox.offered_offer, List.map_append]
      refine List.pairwise_append.mpr ⟨hi.order d, List.pairwise_singleton _ _, ?_⟩
      intro j hj m hm callj callm hcallj hcallm hsame
      obtain rfl : m = k := List.mem_singleton.mp hm
      rw [hk] at hcallm
      obtain rfl := Option.some.inj hcallm
      rcases Nat.lt_trichotomy j m with hlt | rfl | hgt
      · exact hlt
      · exact absurd hj hnew
      · have hret := hi.turns m j call callj hgt hk hcallj hsame.symm
        rw [hstage] at hret
        cases hret
    · rw [hother d hd]
      exact hi.order d

theorem getCall_of_append {calls : List Call} {new call : Call} {k : ℕ} (h : (calls ++ [new])[k]? = some call) :
    calls[k]? = some call ∨ k = calls.length ∧ call = new := by
  rcases Nat.lt_trichotomy k calls.length with hlt | rfl | hgt
  · rw [List.getElem?_append_left hlt] at h
    exact .inl h
  · rw [List.getElem?_append_right le_rfl, Nat.sub_self] at h
    exact .inr ⟨rfl, (Option.some.inj h).symm⟩
  · rw [List.getElem?_eq_none (by simp; omega)] at h
    cases h

theorem Inv.emit {g : ℕ} {ev : BusEvent} (hi : Inv s)
    (hidle : ∀ call ∈ s.calls, call.goroutine = g → call.stage = .returned) :
    Inv { s with calls := s.calls ++ [{ goroutine := g, ev := ev }] } := by
  have hkeep : ∀ {k : ℕ} {call : Call}, s.calls[k]? = some call →
      (s.calls ++ [{ goroutine := g, ev := ev }])[k]? = some call :=
    fun hk => (List.getElem?_append_left (List.getElem?_eq_some_iff.mp hk).1).trans hk
  refine ⟨hi.fresh, hi.subs, hi.nodup, hi.closed, ?_, ?_, ?_, ?_, ?_, hi.kept, hi.running⟩
  · intro k call hk
    rcases getCall_of_append hk with hold | ⟨_, rfl⟩
    · exact hi.left k call hold
    · exact ⟨by simp [Call.left], by simp [Call.left]⟩
  · intro j k callj callk hjk hj hk hsame
    have hlt : k < (s.calls ++ [({ goroutine := g, ev := ev } : Call)]).length := (List.getElem?_eq_some_iff.mp hk).1
    rw [List.length_append, List.length_singleton] at hlt
    rcases getCall_of_append hj with hold | ⟨rfl, _⟩
    · rcases getCall_of_append hk with hold' | ⟨_, rfl⟩
      · exact hi.turns j k callj callk hjk hold hold' hsame
      · exact hidle callj (List.mem_of_getElem? hold) hsame
    · omega
  · intro c x hx
    obtain ⟨call, hcall, hev, hwait, hnot⟩ := hi.sound c x hx
    exact ⟨call, hkeep hcall, hev, hwait, hnot⟩
  · intro c k call hk haud hleft
    rcases getCall_of_append hk with hold | ⟨_, rfl⟩
    · exact hi.complete c k call hold haud hleft
    · simp at haud
  · intro c
    refine (hi.order c).imp_of_mem ?_
    intro j k hj hk horder callj callk hcallj hcallk hsame
    obtain ⟨x, hx, rfl⟩ := List.mem_map.mp hj
    obtain ⟨y, hy, rfl⟩ := List.mem_map.mp hk
    obtain ⟨callx, hcallx, _⟩ := hi.sound c x hx
    obtain ⟨cally, hcally, _⟩ := hi.sound c y hy
    obtain rfl := Option.some.inj ((hkeep hcallx).symm.trans hcallj)
    obtain rfl := Option.some.inj ((hkeep hcally).symm.trans hcallk)
    exact horder callx cally hcallx hcally hsame

end Server

end P2Poker.Streams
