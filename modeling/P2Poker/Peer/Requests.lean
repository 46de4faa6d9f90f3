import P2Poker.Dispatch.Answers
import P2Poker.Peer.Remote
import P2Poker.Peer.Seating

/-!
# Requests to dispatch (internal/peer: dispatch.go, node.go, message.go)

Several goroutines ask dispatch on one connection. `dispatchRequest` lists a
response channel under a fresh request id, sends its frame and waits; the read loop
of the connection looks the id of a frame up and sends the frame to the channel that
it finds. `closeAllPending` closes the channels of everybody who waits, when a read
loop ends and when the node detaches. An event is one section of a goroutine: what
is done under one lock, or on one channel.
-/

namespace P2Poker.Requests
open P2Poker.Lib P2Poker.Dispatch

inductive Request where
  | createSession (sessionID : Bytes)
  | joinSession (sessionID : Bytes)
  | listSessions
  | heartbeat
  | listPeers

def Request.frame : Request → Frame
  | .createSession sessionID => { kind := .createSessionReq, sessionID := sessionID }
  | .joinSession sessionID => { kind := .joinSessionReq, sessionID := sessionID }
  | .listSessions => { kind := .listSessionsReq }
  | .heartbeat => { kind := .heartbeatReq }
  | .listPeers => { kind := .listPeersReq }

inductive Reply where
  | done
  | session (sessionID : Bytes)
  | sessions (sessionIDs : List Bytes)
  | peers (infos : List (Bytes × Bytes))

/-- What a caller makes of the frame that it gets. `ListPeers` reads an address for
every id, and panics where there is none. -/
def Request.reply (request : Request) (resp : Frame) : Option (Except Bytes Reply) :=
  if resp.success = false then some (.error resp.error)
  else
    match request with
    | .createSession _ => some (.ok (.session resp.sessionID))
    | .joinSession _ => some (.ok .done)
    | .listSessions => some (.ok (.sessions resp.sessionIDs))
    | .heartbeat => some (.ok .done)
    | .listPeers =>
      if resp.peerIDs.length ≤ resp.peerAddresses.length then
        some (.ok (.peers (resp.peerIDs.zip resp.peerAddresses)))
      else none

def errNotAttached : Bytes := ascii "node not attached to dispatch"

def errClosed : Bytes := ascii "dispatch connection closed"

/- A channel that holds one frame. -/
structure Channel where
  buf : Option Frame := none
  closed : Bool := false

/-- Where a goroutine is in `dispatchRequest`. -/
inductive Stage where
  | entered
  -- nextRequestID: the counter is drawn, the node's id not read
  | numbered
  | named
  | listed
  -- dispatchSend: the connection is read, the frame not sent
  | sending (c : ℕ)
  | waiting
  -- before the deferred delete
  | returning (result : Except Bytes Frame)
  | returned (result : Except Bytes Frame)
  -- CreateSession, JoinSession: the session is set
  | stored (resp : Frame)

structure Call where
  request : Request
  stage : Stage
  number : Option UInt64 := none
  requestID : Bytes := []
  respCh : Channel := {}
  -- history: where it was sent, and whether a read loop has read a frame with its id there
  conn : Option ℕ := none
  answered : Bool := false

def Call.frame (call : Call) : Frame := { call.request.frame with requestID := call.requestID }

structure Client where
  node : Seating.Node
  session : Bytes := []
  requestCounter : UInt64 := 0
  -- the call whose channel is listed
  pending : Bytes → Option ℕ := fun _ => none
  calls : List Call := []
  -- StartGame: the connection is read, the frame not sent
  startGames : List ℕ := []
  -- what is sent on a connection and not received by dispatch
  wire : ℕ → List Frame := fun _ => []
  -- dispatchReadLoop: the channel is looked up, the frame not sent to it
  delivering : ℕ → Option (ℕ × Frame) := fun _ => none
  -- DetachDispatch: before closeAllPending, and before the session is given up
  failing : ℕ := 0
  clearing : ℕ := 0
  panicked : Bool := false

inductive Event where
  | seat (e : Seating.Event)
  | receive (c : ℕ) (now : ℤ)
  | call (request : Request)
  | number (k : ℕ)
  | name (k : ℕ)
  | list (k : ℕ)
  | pick (k : ℕ)
  | send (k : ℕ) (err : Option Bytes)
  | await (k : ℕ)
  | cancel (k : ℕ) (err : Bytes)
  | delete (k : ℕ)
  | store (k : ℕ)
  | startGame
  | sendStart (c : ℕ) (err : Bool)
  | readRemote
  | read (c : ℕ)
  | deliver (c : ℕ)
  | stop (c : ℕ)
  | failPending
  | clearSession

namespace Client

def new (prefNodeID : Bytes) (cfg : Config) : Client := { node := .new prefNodeID cfg }

variable (n : Client)

/- What the node does beside its requests. -/
def seats : Seating.Event → Bool
  | .act (.receive c _ _) => c ∉ n.node.own
  | .read _ _ => false
  | .stop _ => false
  | .reset => n.failing + n.clearing < n.node.resetting
  | _ => true

def listens (k : ℕ) (call : Call) : Bool := n.pending call.requestID = some k

/- A channel that is closed twice panics as well. -/
def closeAllPending : Client :=
  { n with
    pending := fun _ => none
    calls := n.calls.mapIdx fun k call =>
      if n.listens k call then { call with respCh := { call.respCh with closed := true } } else call
    panicked := (n.calls.mapIdx fun k call => n.listens k call && call.respCh.closed).any id }

/- The read loop of a connection has read a frame. -/
def mark (c : ℕ) (frame : Frame) : List Call :=
  n.calls.map fun call =>
    if call.conn = some c ∧ call.requestID = frame.requestID then { call with answered := true } else call

def send (c : ℕ) (frame : Frame) : ℕ → List Frame := Function.update n.wire c (n.wire c ++ [frame])

/-- One section of the goroutine of a call. -/
def act (k : ℕ) (call : Call) : Event → Option Client
  | .number _ =>
    match call.stage with
    | .entered =>
      some { n with
        requestCounter := n.requestCounter + 1
        calls := n.calls.set k { call with stage := .numbered, number := some (n.requestCounter + 1) } }
    | _ => none
  | .name _ =>
    match call.stage, call.number with
    | .numbered, some v =>
      some { n with
        calls := n.calls.set k { call with stage := .named, requestID := Remote.requestID n.node.id v } }
    | _, _ => none
  | .list _ =>
    match call.stage with
    | .named =>
      some { n with
        pending := Function.update n.pending call.requestID (some k)
        calls := n.calls.set k { call with stage := .listed } }
    | _ => none
  | .pick _ =>
    match call.stage with
    | .listed =>
      match n.node.dispatchConn with
      | some c => some { n with calls := n.calls.set k { call with stage := .sending c } }
      | none => some { n with calls := n.calls.set k { call with stage := .returning (.error errNotAttached) } }
    | _ => none
  | .send _ err =>
    match call.stage, err with
    | .sending _, some err => some { n with calls := n.calls.set k { call with stage := .returning (.error err) } }
    | .sending c, none =>
      -- nothing is sent on a connection that is closed
      match n.node.buffered c with
      | none =>
        some { n with
          wire := n.send c call.frame
          calls := n.calls.set k { call with stage := .waiting, conn := some c } }
      | some _ => none
    | _, _ => none
  | .await _ =>
    match call.stage with
    | .waiting =>
      match call.respCh.buf with
      | some resp =>
        some { n with
          calls := n.calls.set k
            { call with stage := .returning (.ok resp), respCh := { call.respCh with buf := none } } }
      | none =>
        if call.respCh.closed then
          some { n with calls := n.calls.set k { call with stage := .returning (.error errClosed) } }
        else none
    | _ => none
  | .cancel _ err =>
    match call.stage with
    | .waiting => some { n with calls := n.calls.set k { call with stage := .returning (.error err) } }
    | _ => none
  | .delete _ =>
    match call.stage with
    | .returning result =>
      some { n with
        pending := Function.update n.pending call.requestID none
        calls := n.calls.set k { call with stage := .returned result } }
    | _ => none
  | .store _ =>
    match call.stage, call.request with
    | .returned (.ok resp), .createSession _ | .returned (.ok resp), .joinSession _ =>
      if resp.success then
        some { n with
          session := resp.sessionID
          calls := n.calls.set k { call with stage := .stored resp } }
      else none
    | _, _ => none
  | _ => none

/-- One section of the read loop of a connection. -/
def readLoop (c : ℕ) : Event → Option Client
  | .read _ =>
    if n.delivering c = none then
      (n.node.next c).bind fun frame =>
        match if frame.requestID = [] then none else n.pending frame.requestID with
        | some k =>
          (n.node.step (.read c true)).map fun node =>
            { n with
              node := node
              calls := n.mark c frame
              delivering := Function.update n.delivering c (some (k, frame)) }
        | none => (n.node.step (.read c false)).map fun node => { n with node := node, calls := n.mark c frame }
    else none
  | .deliver _ =>
    (n.delivering c).bind fun (k, frame) =>
      n.calls[k]?.bind fun call =>
        -- a closed channel panics, a full one blocks
        if call.respCh.closed then some { n with panicked := true }
        else
          match call.respCh.buf with
          | some _ => none
          | none =>
            some { n with
              calls := n.calls.set k { call with respCh := { call.respCh with buf := some frame } }
              delivering := Function.update n.delivering c none }
  | .stop _ =>
    if n.delivering c = none then
      (n.node.step (.stop c)).map fun node => { n with node := node }.closeAllPending
    else none
  | _ => none

def stepSeat (e : Seating.Event) : Option Client :=
  if n.seats e then
    (n.node.step e).map fun node =>
      match e with
      | .close _ _ => { n with node := node, failing := n.failing + 1 }
      | _ => { n with node := node }
  else none

def move (e : Event) : Option Client :=
  match e with
  | .seat e => n.stepSeat e
  | .receive c now =>
    match n.wire c with
    | [] => none
    | frame :: rest =>
      (n.node.step (.act (.receive c frame now))).map fun node =>
        { n with node := node, wire := Function.update n.wire c rest }
  | .call request =>
    match n.node.dispatchConn with
    | some _ => some { n with calls := n.calls ++ [{ request := request, stage := .entered }] }
    | none =>
      some { n with
        calls := n.calls ++ [{ request := request, stage := .returned (.error errNotAttached) }] }
  | .startGame =>
    match n.node.dispatchConn with
    | some c => some { n with startGames := c :: n.startGames }
    | none => some n
  | .sendStart c err =>
    if c ∈ n.startGames then
      match err, n.node.buffered c with
      | true, _ => some { n with startGames := n.startGames.erase c }
      | false, none =>
        some { n with startGames := n.startGames.erase c, wire := n.send c { kind := .gameStart } }
      | false, some _ => none
    else none
  | .readRemote => some { n with requestCounter := n.requestCounter + 1 }
  | .read c | .deliver c | .stop c => n.readLoop c e
  | .failPending =>
    if 0 < n.failing then
      some { n with failing := n.failing - 1, clearing := n.clearing + 1 }.closeAllPending
    else none
  | .clearSession =>
    if 0 < n.clearing then some { n with clearing := n.clearing - 1, session := [] } else none
  | .number k | .name k | .list k | .pick k | .send k _ | .await k | .cancel k _ | .delete k | .store k =>
    n.calls[k]?.bind fun call => n.act k call e

/- A node that has panicked does nothing. -/
def step (n : Client) (e : Event) : Option Client := if n.panicked then none else n.move e

theorem move_of_step {n n' : Client} {e : Event} (hs : n.step e = some n') :
    n.panicked = false ∧ n.move e = some n' := by
  unfold step at hs
  split_ifs at hs with hrun
  exact ⟨Bool.eq_false_iff.mpr hrun, hs⟩

/-- The counter does not wrap. -/
def NoWrap (n : Client) : Event → Prop
  | .number _ => n.requestCounter.toNat + 1 < 2 ^ 64
  | .readRemote => n.requestCounter.toNat + 1 < 2 ^ 64
  | _ => True

instance instDecidableNoWrap (n : Client) (e : Event) : Decidable (n.NoWrap e) := by
  delta NoWrap
  induction e using Event.casesOn <;> infer_instance

end Client

/-! ### Requests on their way -/

/-- A request that was sent. -/
structure Trip where
  conn : ℕ
  frame : Frame
  answered : Bool

def Call.trip (call : Call) : Option Trip := call.conn.map fun c => ⟨c, call.frame, call.answered⟩

def Client.trips (n : Client) : List Trip := n.calls.filterMap Call.trip

/- The request as it is handled: a session that has no name is given one. -/
def Handled (req f : Frame) : Prop :=
  f = req ∨ req.kind = .createSessionReq ∧ req.sessionID = [] ∧ ∃ sid, sid ≠ [] ∧ f = { req with sessionID := sid }

theorem Handled.answers {req f g : Frame} (h : Handled req f) (ha : f.Answers g) : req.Answers g := by
  rcases h with rfl | ⟨_, hnil, sid, _, rfl⟩
  · exact ha
  · exact ⟨ha.id, ha.kind, ha.failed, fun hok hreq => ⟨(ha.session hok hreq).1, fun hne => absurd hnil hne⟩, ha.peers⟩

/- What is sent on a connection. -/
def Asks (ts : List Trip) (c : ℕ) (f : Frame) : Prop :=
  (f.kind = .gameStart → f.requestID = []) ∧ (f.requestID ≠ [] → ∃ t ∈ ts, t.conn = c ∧ Handled t.frame f)

/- What comes back on it. -/
def IsAnswer (ts : List Trip) (c : ℕ) (f : Frame) : Prop :=
  f.requestID ≠ [] → ∃ t ∈ ts, t.conn = c ∧ t.frame.Answers f

theorem asked (ts : List Trip) (c : ℕ) : Asked (Asks ts c) (IsAnswer ts c) where
  silent f hid hne := absurd hid hne
  start f hq := hq.1
  named f sid hq hkind hnil hsid := by
    refine ⟨hq.1, fun hne => ?_⟩
    obtain ⟨t, ht, hc, hhand⟩ := hq.2 hne
    rcases hhand with rfl | ⟨_, _, sid', hsid', rfl⟩
    · exact ⟨t, ht, hc, .inr ⟨hkind, hnil, sid, hsid, rfl⟩⟩
    · exact absurd hnil hsid'
  answer f g hq ha hne := by
    obtain ⟨t, ht, hc, hhand⟩ := hq.2 (ha.id ▸ hne)
    exact ⟨t, ht, hc, hhand.answers ha⟩

/- A frame with the id of a request has come on its connection. -/
def markTrips (c : ℕ) (f : Frame) (ts : List Trip) : List Trip :=
  ts.map fun t => if t.conn = c ∧ t.frame.requestID = f.requestID then { t with answered := true } else t

/- The ids on their way between the node and dispatch, on one connection. -/
def under (h : Hub) (buffered : Option (List Frame)) (w : List Frame) (c : ℕ) : Multiset Bytes :=
  match buffered with
  | some frames => idsOf frames
  | none => idsOf w + h.ids c

/-- What is on its way on a connection belongs to a request that was sent there and not
answered, and nothing is on its way twice. A request stays on its way until its answer
is read, unless the node closes the connection. -/
structure Flow (h : Hub) (buf : Option (List Frame)) (w : List Frame) (ts : List Trip) (c : ℕ) : Prop where
  sent : ∀ f ∈ w, Asks ts c f
  dispatch : h.Carries (Asks ts c) (IsAnswer ts c) c
  buffered : ∀ frames, buf = some frames → ∀ f ∈ frames, IsAnswer ts c f
  nodup : (under h buf w c).Nodup
  owed : ∀ r ∈ under h buf w c, ∃ t ∈ ts, t.conn = c ∧ t.frame.requestID = r ∧ t.answered = false
  sure : buf = none → ∀ t ∈ ts, t.conn = c → t.answered = false → t.frame.requestID ∈ under h buf w c

def Client.underWay (n : Client) (c : ℕ) : Multiset Bytes := under n.node.hub (n.node.buffered c) (n.wire c) c

theorem Asks.mono {ts ts' : List Trip} {c : ℕ} {f : Frame} (h : Asks ts c f)
    (hmono : ∀ t ∈ ts, t.conn = c → ∃ t' ∈ ts', t'.conn = c ∧ t'.frame = t.frame) : Asks ts' c f := by
  refine ⟨h.1, fun hne => ?_⟩
  obtain ⟨t, ht, hc, hhand⟩ := h.2 hne
  obtain ⟨t', ht', hc', hframe⟩ := hmono t ht hc
  exact ⟨t', ht', hc', hframe ▸ hhand⟩

theorem IsAnswer.mono {ts ts' : List Trip} {c : ℕ} {f : Frame} (h : IsAnswer ts c f)
    (hmono : ∀ t ∈ ts, t.conn = c → ∃ t' ∈ ts', t'.conn = c ∧ t'.frame = t.frame) : IsAnswer ts' c f := by
  intro hne
  obtain ⟨t, ht, hc, hans⟩ := h hne
  obtain ⟨t', ht', hc', hframe⟩ := hmono t ht hc
  exact ⟨t', ht', hc', hframe ▸ hans⟩

theorem carries_mono {Q R Q' R' : Frame → Prop} {h : Hub} {c : ℕ} (hc : h.Carries Q R c) (hQ : ∀ f, Q f → Q' f)
    (hR : ∀ f, R f → R' f) : h.Carries Q' R' c := by
  intro k hk
  obtain ⟨hplace, hin⟩ := hc k hk
  refine ⟨?_, fun f hf => hR f (hin f hf)⟩
  cases hp : k.place with
  | handling frame =>
    rw [hp] at hplace
    exact hQ frame hplace
  | replying frames =>
    rw [hp] at hplace
    exact fun f hf => hR f (hplace f hf)
  | refusing frames =>
    rw [hp] at hplace
    exact fun f hf => hR f (hplace f hf)
  | _ => trivial

namespace Flow
variable {h h' : Hub} {buf : Option (List Frame)} {w : List Frame} {ts ts' : List Trip} {c : ℕ} {f : Frame}

/- Only the requests that were sent on the connection count. -/
theorem congr (hf : Flow h buf w ts c) (hts : ∀ t, t.conn = c → (t ∈ ts' ↔ t ∈ ts)) : Flow h buf w ts' c := by
  have hmono : ∀ t ∈ ts, t.conn = c → ∃ t' ∈ ts', t'.conn = c ∧ t'.frame = t.frame :=
    fun t ht hc => ⟨t, (hts t hc).mpr ht, hc, rfl⟩
  refine ⟨fun f hw => (hf.sent f hw).mono hmono,
    carries_mono hf.dispatch (fun _ hq => hq.mono hmono) (fun _ hr => hr.mono hmono),
    fun fs hfs f hmem => (hf.buffered fs hfs f hmem).mono hmono, hf.nodup, ?_, ?_⟩
  · intro r hr
    obtain ⟨t, ht, hc, hrest⟩ := hf.owed r hr
    exact ⟨t, (hts t hc).mpr ht, hc, hrest⟩
  · intro hopen t ht hc
    exact hf.sure hopen t ((hts t hc).mp ht) hc

/- The ids on the connection are the same. -/
theorem of_under {buf' : Option (List Frame)} {w' : List Frame} (hf : Flow h buf w ts c)
    (hsent : ∀ f ∈ w', Asks ts c f) (hdispatch : h'.Carries (Asks ts c) (IsAnswer ts c) c)
    (hbuf : buf' = buf) (hsame : under h' buf w' c = under h buf w c) : Flow h' buf' w' ts c := by
  subst hbuf
  exact ⟨hsent, hdispatch, hf.buffered, hsame ▸ hf.nodup, hsame ▸ hf.owed, hsame ▸ hf.sure⟩

/- A step at dispatch that neither receives on the connection nor is read from it. -/
theorem hub {e : Dispatch.Event} (hf : Flow h buf w ts c) (hm : h.Mute) (hc : c < h.conns.length)
    (hs : h.step e = some h') (hreceive : ∀ frame now, e ≠ .receive c frame now) (hprocess : e ≠ .process c) :
    Flow h' buf w ts c := by
  have hids : h'.ids c = h.ids c := Hub.ids_step hf.dispatch (asked ts c) hm hc hs hreceive hprocess
  refine hf.of_under hf.sent
    (hf.dispatch.step (asked ts c) hm hs fun frame now he => absurd he (hreceive frame now)) rfl ?_
  unfold under
  rw [hids]

theorem receive {now : ℤ} (hf : Flow h buf (f :: w) ts c) (hm : h.Mute)
    (hs : h.step (.receive c f now) = some h') : Flow h' buf w ts c := by
  have hcarries : h'.Carries (Asks ts c) (IsAnswer ts c) c := by
    refine hf.dispatch.step (asked ts c) hm hs ?_
    intro frame now' he
    cases he
    exact hf.sent f (List.mem_cons_self ..)
  refine hf.of_under (fun g hg => hf.sent g (List.mem_cons_of_mem _ hg)) hcarries rfl ?_
  cases buf with
  | some frames => rfl
  | none =>
    unfold under
    rw [Hub.ids_receive hs, idsOf_cons f w, add_left_comm, ← add_assoc]

/- A frame without an id that is taken from the connection. -/
theorem drop (hf : Flow h none w ts c) (hm : h.Mute) (hs : h.step (.process c) = some h')
    (hnext : ∀ k, h.conns[c]? = some k → idsOf k.inbox.head?.toList = 0) (hc : c < h.conns.length) :
    Flow h' none w ts c := by
  have hk := List.getElem?_eq_getElem hc
  have hids : h.ids c = h'.ids c := by
    rw [Hub.ids_process hs hk, hnext _ hk, zero_add]
  refine hf.of_under hf.sent
    (hf.dispatch.step (asked ts c) hm hs fun frame now he => (by cases he)) rfl ?_
  unfold under
  rw [hids]

/- The ids before a frame is read are those after, and its own. -/
theorem read_under {buf' : Option (List Frame)} (hf : Flow h buf w ts c)
    (hsplit : under h buf w c = idsOf [f] + under h' buf' w c)
    (hcarries : h'.Carries (Asks ts c) (IsAnswer ts c) c) (hbuf : buf' = none → buf = none)
    (hbuffered : ∀ frames, buf' = some frames → ∀ f ∈ frames, IsAnswer ts c f)
    (hids : ∀ t ∈ ts, t.frame.requestID ≠ []) : Flow h' buf' w (markTrips c f ts) c := by
  have hmark : ∀ t ∈ ts, t.conn = c → ∃ t' ∈ markTrips c f ts, t'.conn = c ∧ t'.frame = t.frame := by
    intro t ht hc
    refine ⟨_, List.mem_map_of_mem ht, ?_⟩
    split_ifs
    · exact ⟨hc, rfl⟩
    · exact ⟨hc, rfl⟩
  have hnodup := hf.nodup
  rw [hsplit] at hnodup
  refine ⟨fun g hg => (hf.sent g hg).mono hmark,
    carries_mono hcarries (fun _ hq => hq.mono hmark) (fun _ hr => hr.mono hmark),
    fun fs hfs g hg => (hbuffered fs hfs g hg).mono hmark, (Multiset.nodup_add.mp hnodup).2.1, ?_, ?_⟩
  · intro r hr
    obtain ⟨t, ht, hc, rfl, hans⟩ := hf.owed r (by rw [hsplit]; exact Multiset.mem_add.mpr (.inr hr))
    have hne : t.frame.requestID ≠ f.requestID := by
      intro heq
      have hmem : t.frame.requestID ∈ idsOf [f] := heq ▸ mem_idsOf (List.mem_singleton_self f) (heq ▸ hids t ht)
      exact Multiset.disjoint_left.mp (Multiset.nodup_add.mp hnodup).2.2 hmem hr
    refine ⟨t, ?_, hc, rfl, hans⟩
    have hmem := List.mem_map_of_mem (f := fun t : Trip =>
      if t.conn = c ∧ t.frame.requestID = f.requestID then { t with answered := true } else t) ht
    rwa [if_neg fun h => hne h.2] at hmem
  · intro hopen t' ht' hc hans
    obtain ⟨t, ht, rfl⟩ := List.mem_map.mp ht'
    split_ifs at hc hans ⊢ with hmatch
    have hmem := hf.sure (hbuf hopen) t ht hc hans
    rw [hsplit] at hmem
    rcases Multiset.mem_add.mp hmem with hmem | hmem
    · have heq : t.frame.requestID = f.requestID := by
        have := List.mem_of_mem_filter (Multiset.mem_coe.mp hmem)
        simpa using this
      exact absurd ⟨hc, heq⟩ hmatch
    · exact hmem

theorem process {k : Conn} (hf : Flow h none w ts c) (hm : h.Mute) (hk : h.conns[c]? = some k)
    (hnext : k.inbox.head? = some f) (hs : h.step (.process c) = some h')
    (hids : ∀ t ∈ ts, t.frame.requestID ≠ []) : Flow h' none w (markTrips c f ts) c := by
  refine hf.read_under ?_ (hf.dispatch.step (asked ts c) hm hs fun frame now he => (by cases he)) id
    (by simp) hids
  unfold under
  rw [Hub.ids_process hs hk, hnext, Option.toList_some, add_left_comm]

theorem tail {frames : List Frame} (hf : Flow h (some frames) w ts c) (hnext : frames.head? = some f)
    (hids : ∀ t ∈ ts, t.frame.requestID ≠ []) : Flow h (some frames.tail) w (markTrips c f ts) c := by
  obtain ⟨fs, rfl⟩ : ∃ fs, frames = f :: fs := List.head?_eq_some_iff.mp hnext
  refine hf.read_under (idsOf_cons f fs) hf.dispatch (by simp) ?_ hids
  intro gs hgs g hg
  obtain rfl := Option.some.inj hgs
  exact hf.buffered _ rfl g (List.mem_cons_of_mem _ hg)

/- What the decoder keeps of a connection that is closed. -/
theorem close {k : Conn} (hf : Flow h none w ts c) (hk : h.conns[c]? = some k) (m : ℕ) :
    Flow h (some (k.inbox.take m)) w ts c := by
  have hle : idsOf (k.inbox.take m) ≤ under h none w c := by
    unfold under
    rw [Hub.ids_of_conn hk]
    calc idsOf (k.inbox.take m) ≤ idsOf k.inbox := idsOf_le_of_sublist (List.take_sublist ..)
      _ ≤ k.ids := Multiset.le_add_left ..
      _ ≤ idsOf w + k.ids := Multiset.le_add_left ..
  refine ⟨hf.sent, hf.dispatch, ?_, Multiset.nodup_of_le hle hf.nodup,
    fun r hr => hf.owed r (Multiset.mem_of_le hle hr), by simp⟩
  intro frames hframes g hg
  obtain rfl := Option.some.inj hframes
  exact (hf.dispatch k hk).2 g (List.mem_of_mem_take hg)

/- A game start carries no id. -/
theorem start (hf : Flow h none w ts c) : Flow h none (w ++ [{ kind := .gameStart }]) ts c := by
  refine hf.of_under ?_ hf.dispatch rfl ?_
  · intro g hg
    rcases List.mem_append.mp hg with hg | hg
    · exact hf.sent g hg
    · rw [List.mem_singleton.mp hg]
      exact ⟨fun _ => rfl, fun hne => absurd rfl hne⟩
  · unfold under
    rw [idsOf_append, idsOf_silent rfl, add_zero]

theorem send {t : Trip} (hf : Flow h none w ts c) (hts : ∀ u, u ∈ ts' ↔ u ∈ ts ∨ u = t) (hc : t.conn = c)
    (hans : t.answered = false) (hid : t.frame.requestID ≠ []) (hkind : t.frame.kind ≠ .gameStart)
    (hnew : ∀ u ∈ ts, u.frame.requestID ≠ t.frame.requestID) : Flow h none (w ++ [t.frame]) ts' c := by
  have hmono : ∀ u ∈ ts, u.conn = c → ∃ u' ∈ ts', u'.conn = c ∧ u'.frame = u.frame :=
    fun u hu hc => ⟨u, (hts u).mpr (.inl hu), hc, rfl⟩
  have hone : idsOf [t.frame] = {t.frame.requestID} := by simp [idsOf, hid]
  have hunder : under h none (w ++ [t.frame]) c = {t.frame.requestID} + under h none w c := by
    unfold under
    rw [idsOf_append, hone, add_assoc, add_left_comm]
  refine ⟨?_, carries_mono hf.dispatch (fun _ hq => hq.mono hmono) (fun _ hr => hr.mono hmono), by simp, ?_, ?_, ?_⟩
  · intro g hg
    rcases List.mem_append.mp hg with hg | hg
    · exact (hf.sent g hg).mono hmono
    · rw [List.mem_singleton.mp hg]
      exact ⟨fun hstart => absurd hstart hkind, fun _ => ⟨t, (hts t).mpr (.inr rfl), hc, .inl rfl⟩⟩
  · rw [hunder, Multiset.singleton_add]
    refine Multiset.nodup_cons.mpr ⟨fun hmem => ?_, hf.nodup⟩
    obtain ⟨u, hu, _, heq, _⟩ := hf.owed _ hmem
    exact hnew u hu heq
  · intro r hr
    rw [hunder, Multiset.singleton_add] at hr
    rcases Multiset.mem_cons.mp hr with rfl | hr
    · exact ⟨t, (hts t).mpr (.inr rfl), hc, rfl, hans⟩
    · obtain ⟨u, hu, hrest⟩ := hf.owed r hr
      exact ⟨u, (hts u).mpr (.inl hu), hrest⟩
  · intro _ u hu huc huans
    rw [hunder, Multiset.singleton_add]
    rcases (hts u).mp hu with hu | rfl
    · exact Multiset.mem_cons_of_mem (hf.sure rfl u hu huc huans)
    · exact Multiset.mem_cons_self ..

/- A frame that comes next belongs to a request that was sent on its connection. -/
theorem next (hf : Flow h buf w ts c) (hmem : f ∈ buf.getD ((h.conns[c]?.map Conn.inbox).getD []))
    (hid : f.requestID ≠ []) (hdist : ∀ t ∈ ts, ∀ u ∈ ts, t.frame.requestID = u.frame.requestID → t = u) :
    ∃ t ∈ ts, t.conn = c ∧ t.answered = false ∧ t.frame.Answers f := by
  have hunder : f.requestID ∈ under h buf w c ∧ IsAnswer ts c f := by
    cases buf with
    | some frames => exact ⟨mem_idsOf hmem hid, hf.buffered frames rfl f hmem⟩
    | none =>
      cases hk : h.conns[c]? with
      | none =>
        rw [hk] at hmem
        cases hmem
      | some k =>
        rw [hk] at hmem
        refine ⟨?_, (hf.dispatch k hk).2 f hmem⟩
        unfold under
        rw [Hub.ids_of_conn hk]
        exact Multiset.mem_add.mpr (.inr (Multiset.mem_add.mpr (.inr (mem_idsOf hmem hid))))
  obtain ⟨t, ht, hc, hans⟩ := hunder.2 hid
  obtain ⟨u, hu, _, heq, hfalse⟩ := hf.owed _ hunder.1
  obtain rfl := hdist t ht u hu (hans.id.symm.trans heq.symm)
  exact ⟨t, ht, hc, hfalse, hans⟩

end Flow

/-! ### The connections of a node -/

/- A connection that the node has been attached by. -/
def Used (n : Seating.Node) (c : ℕ) : Prop := c ∈ n.own ∧ c ∉ n.attaching

structure Phases (n : Seating.Node) : Prop where
  mute : n.hub.Mute
  bound : ∀ c ∈ n.own, c < n.hub.conns.length
  dialled : ∀ c ∈ n.attaching, c ∈ n.own
  attaching : n.attaching.Nodup
  attached : ∀ c, n.dispatchConn = some c → Used n c ∧ c ∉ n.closing ∧ n.buffered c = none
  closing : ∀ c ∈ n.closing, Used n c ∧ n.buffered c = none
  once : n.closing.Nodup
  buffered : ∀ c, n.buffered c ≠ none → Used n c
  loops : ∀ c, n.loop c ≠ .ended → Used n c

namespace Phases
variable {n n' : Seating.Node} {e : Seating.Event} {c : ℕ}

theorem new (prefNodeID : Bytes) (cfg : Config) : Phases (.new prefNodeID cfg) where
  mute := Hub.Mute.start cfg
  bound := by simp [Seating.Node.new]
  dialled := by simp [Seating.Node.new]
  attaching := List.nodup_nil
  attached := by simp [Seating.Node.new]
  closing := by simp [Seating.Node.new]
  once := List.nodup_nil
  buffered c h := absurd rfl h
  loops c h := absurd rfl h

/- An event at dispatch leaves the node as it is. -/
theorem hub {e : Dispatch.Event} {h : Hub} (hp : Phases n) (hs : n.hub.step e = some h) :
    Phases { n with hub := h } :=
  ⟨hp.mute.step hs, fun c hc => (hp.bound c hc).trans_le (Hub.length_le_step hs), hp.dialled, hp.attaching,
    hp.attached, hp.closing, hp.once, hp.buffered, hp.loops⟩

theorem setLoop (hp : Phases n) (l : Seating.Loop) (hl : l ≠ .ended → Used n c) :
    Phases { n with loop := Function.update n.loop c l } := by
  refine ⟨hp.mute, hp.bound, hp.dialled, hp.attaching, hp.attached, hp.closing, hp.once, hp.buffered, ?_⟩
  intro d hd
  by_cases hdc : d = c
  · subst hdc
    refine hl ?_
    simpa using hd
  · exact hp.loops d (by simpa [Function.update_of_ne hdc] using hd)

theorem dial (hp : Phases n) (hs : n.step .dial = some n') :
    Phases n' ∧ (∀ c, Used n c → Used n' c) ∧ (∀ c ∈ n'.own, c ∈ n.own ∨ c = n.hub.conns.length) := by
  rw [Seating.Node.step] at hs
  split_ifs at hs with hfree
  obtain ⟨h, hstep, rfl⟩ := Option.map_eq_some_iff.mp hs
  have hh := hp.hub hstep
  have hmono : ∀ c, Used n c → Used { n with
      hub := h
      own := n.hub.conns.length :: n.own
      attaching := n.hub.conns.length :: n.attaching } c := by
    rintro c ⟨hown, hatt⟩
    refine ⟨List.mem_cons_of_mem _ hown, fun hmem => ?_⟩
    rcases List.mem_cons.mp hmem with rfl | hmem
    · exact (hp.bound _ hown).ne rfl
    · exact hatt hmem
  refine ⟨⟨hh.mute, ?_, ?_, ?_, ?_, ?_, hp.once, fun c hc => hmono c (hp.buffered c hc),
    fun c hc => hmono c (hp.loops c hc)⟩, hmono, fun c hc => (List.mem_cons.mp hc).symm⟩
  · intro c hc
    rcases List.mem_cons.mp hc with rfl | hc
    · obtain rfl := Option.some.inj hstep
      simp
    · exact hh.bound c hc
  · intro c hc
    rcases List.mem_cons.mp hc with rfl | hc
    · exact List.mem_cons_self ..
    · exact List.mem_cons_of_mem _ (hp.dialled c hc)
  · refine List.nodup_cons.mpr ⟨fun hmem => ?_, hp.attaching⟩
    exact (hp.bound _ (hp.dialled _ hmem)).ne rfl
  · intro c hc
    obtain ⟨hused, hrest⟩ := hp.attached c hc
    exact ⟨hmono c hused, hrest⟩
  · intro c hc
    obtain ⟨hused, hrest⟩ := hp.closing c hc
    exact ⟨hmono c hused, hrest⟩

/- A connection that is being attached was never used. -/
theorem attach (hp : Phases n) (hs : n.step (.attach c) = some n') :
    Phases n' ∧ (∀ d, Used n d → Used n' d) ∧ n'.own = n.own ∧ n'.buffered = n.buffered ∧
      c ∈ n.attaching ∧ n.hub.step (.process c) = some n'.hub := by
  rw [Seating.Node.step] at hs
  split_ifs at hs with hmem
  obtain ⟨resp, _, hs⟩ := Option.bind_eq_some_iff.mp hs
  obtain ⟨h, hstep, rfl⟩ := Option.map_eq_some_iff.mp hs
  have hmono : ∀ d, Used n d → Used { n with hub := h, attaching := n.attaching.erase c } d :=
    fun d hd => ⟨hd.1, fun hd' => hd.2 (List.mem_of_mem_erase hd')⟩
  have hnow : Used { n with hub := h, attaching := n.attaching.erase c } c :=
    ⟨hp.dialled c hmem, fun hc => (hp.attaching.mem_erase_iff.mp hc).1 rfl⟩
  have hless : Phases { n with hub := h, attaching := n.attaching.erase c } := by
    have hh := hp.hub hstep
    refine ⟨hh.mute, hh.bound, fun d hd => hp.dialled d (List.mem_of_mem_erase hd), hp.attaching.erase c, ?_, ?_,
      hp.once, fun d hd => hmono d (hp.buffered d hd), fun d hd => hmono d (hp.loops d hd)⟩
    · intro d hd
      obtain ⟨hused, hrest⟩ := hp.attached d hd
      exact ⟨hmono d hused, hrest⟩
    · intro d hd
      obtain ⟨hused, hrest⟩ := hp.closing d hd
      exact ⟨hmono d hused, hrest⟩
  unfold Seating.Node.attach
  split_ifs
  · refine ⟨?_, hmono, rfl, rfl, hmem, hstep⟩
    have hloop := hless.setLoop .reading fun _ => hnow
    refine ⟨hloop.mute, hloop.bound, hloop.dialled, hloop.attaching, ?_, hloop.closing, hloop.once,
      hloop.buffered, hloop.loops⟩
    intro d hd
    obtain rfl := Option.some.inj hd
    refine ⟨hnow, fun hclosing => (hp.closing c hclosing).1.2 hmem, ?_⟩
    by_contra hbuf
    exact (hp.buffered c hbuf).2 hmem
  · exact ⟨hless, hmono, rfl, rfl, hmem, hstep⟩

theorem detach (hp : Phases n) (hs : n.step .detach = some n') : Phases n' := by
  rw [Seating.Node.step] at hs
  split at hs
  · rename_i hconn
    obtain rfl := Option.some.inj hs
    exact ⟨hp.mute, hp.bound, hp.dialled, hp.attaching, hp.attached, hp.closing, hp.once, hp.buffered, hp.loops⟩
  · rename_i c hconn
    obtain rfl := Option.some.inj hs
    obtain ⟨hused, hclosing, hbuf⟩ := hp.attached c hconn
    refine ⟨hp.mute, hp.bound, hp.dialled, hp.attaching, by simp, ?_, List.nodup_cons.mpr ⟨hclosing, hp.once⟩,
      hp.buffered, hp.loops⟩
    intro d hd
    rcases List.mem_cons.mp hd with rfl | hd
    · exact ⟨hused, hbuf⟩
    · exact hp.closing d hd

theorem close {m : ℕ} (hp : Phases n) (hs : n.step (.close c m) = some n') :
    Phases n' ∧ c ∈ n.closing ∧ n'.own = n.own ∧ n'.attaching = n.attaching ∧ n'.hub = n.hub ∧
      n'.buffered = Function.update n.buffered c (some ((n.inbox c).take m)) := by
  rw [Seating.Node.step] at hs
  split_ifs at hs with hmem
  obtain rfl := Option.some.inj hs
  obtain ⟨hused, _⟩ := hp.closing c hmem
  refine ⟨⟨hp.mute, hp.bound, hp.dialled, hp.attaching, ?_, ?_, hp.once.erase c, ?_, hp.loops⟩, hmem, rfl, rfl,
    rfl, rfl⟩
  · intro d hd
    obtain ⟨hd', hnot, hbuf⟩ := hp.attached d hd
    refine ⟨hd', fun h => hnot (List.mem_of_mem_erase h), ?_⟩
    have hdc : d ≠ c := fun heq => hnot (heq ▸ hmem)
    exact (Function.update_of_ne hdc ..).trans hbuf
  · intro d hd
    obtain ⟨hdc, hd⟩ := hp.once.mem_erase_iff.mp hd
    obtain ⟨hd', hbuf⟩ := hp.closing d hd
    exact ⟨hd', (Function.update_of_ne hdc ..).trans hbuf⟩
  · intro d hd
    by_cases hdc : d = c
    · exact hdc ▸ hused
    · exact hp.buffered d (by simpa [Function.update_of_ne hdc] using hd)

/- What a read takes: from the decoder of a closed connection, or from the connection. -/
inductive Takes (n n' : Seating.Node) (c : ℕ) : Prop
  | buffered {frames : List Frame} (hbuf : n.buffered c = some frames) (hhub : n'.hub = n.hub)
      (hrest : n'.buffered = Function.update n.buffered c (some frames.tail))
  | inbox (hbuf : n.buffered c = none) (hhub : n.hub.step (.process c) = some n'.hub)
      (hrest : n'.buffered = n.buffered)

theorem receive (hp : Phases n) (hused : Used n c) (hs : n.receive c = some n') :
    Phases n' ∧ Takes n n' c ∧ n' = { n with hub := n'.hub, buffered := n'.buffered } := by
  unfold Seating.Node.receive at hs
  split at hs
  · rename_i frames hbuf
    obtain rfl := Option.some.inj hs
    refine ⟨⟨hp.mute, hp.bound, hp.dialled, hp.attaching, ?_, ?_, hp.once, ?_, hp.loops⟩, .buffered hbuf rfl rfl, rfl⟩
    · intro d hd
      obtain ⟨hd', hnot, hnone⟩ := hp.attached d hd
      have hdc : d ≠ c := by
        rintro rfl
        rw [hbuf] at hnone
        cases hnone
      exact ⟨hd', hnot, (Function.update_of_ne hdc ..).trans hnone⟩
    · intro d hd
      obtain ⟨hd', hnone⟩ := hp.closing d hd
      have hdc : d ≠ c := by
        rintro rfl
        rw [hbuf] at hnone
        cases hnone
      exact ⟨hd', (Function.update_of_ne hdc ..).trans hnone⟩
    · intro d hd
      by_cases hdc : d = c
      · exact hdc ▸ hused
      · exact hp.buffered d (by simpa [Function.update_of_ne hdc] using hd)
  · rename_i hbuf
    obtain ⟨h, hstep, rfl⟩ := Option.map_eq_some_iff.mp hs
    exact ⟨hp.hub hstep, .inbox hbuf hstep rfl, rfl⟩

theorem read {awaited : Bool} (hp : Phases n) (hs : n.step (.read c awaited) = some n') :
    Phases n' ∧ Takes n n' c ∧ n.loop c = .reading ∧
      n' = { n with hub := n'.hub, buffered := n'.buffered, loop := n'.loop } ∧
      (n'.loop = n.loop ∨ awaited = false ∧ ∃ l, n'.loop = Function.update n.loop c l) := by
  rw [Seating.Node.step] at hs
  split_ifs at hs with hloop
  have hused : Used n c := hp.loops c (by rw [hloop]; simp)
  obtain ⟨frame, hframe, hs⟩ := Option.bind_eq_some_iff.mp hs
  split_ifs at hs
  obtain ⟨n₁, hrecv, rfl⟩ := Option.map_eq_some_iff.mp hs
  obtain ⟨hp₁, htakes, hn₁⟩ := hp.receive hused hrecv
  have hused₁ : Used n₁ c := by rwa [hn₁]
  unfold Seating.Node.read
  split_ifs with hstart
  · refine ⟨hp₁.setLoop _ fun _ => hused₁, ?_, hloop, by rw [hn₁],
      .inr ⟨hstart.1, .starting frame.peerIDs (Seating.seatOf frame.peerIDs n₁.id), by rw [hn₁]⟩⟩
    cases htakes with
    | buffered hbuf hhub hrest => exact .buffered hbuf hhub hrest
    | inbox hbuf hhub hrest => exact .inbox hbuf hhub hrest
  · exact ⟨hp₁, htakes, hloop, by rw [hn₁], .inl (by rw [hn₁])⟩

end Phases

end P2Poker.Requests
