import P2Poker.Lib.Trace
import P2Poker.Dispatch.Membership

/-!
# Connections at dispatch (internal/dispatch/server.go)

Each connection has a goroutine, and the lease reaper has its own. They meet in
the server's tables, under a lock that is given back between the sections of one
handler. The node table holds pointers: a goroutine keeps the record it made when
the table has lost it. An event is one section, or one frame sent or received.
-/

namespace P2Poker.Dispatch
open P2Poker.Lib

/-- Where the goroutine of a connection is. -/
inductive Place where
  -- register: no frame received yet
  | fresh
  -- register: the id is chosen, the lock not taken
  | registering (frame : Frame)
  -- register failed; the answer is to be sent before the connection is closed
  | refusing (frames : List Frame)
  -- handleConn: waiting for a frame
  | reading
  -- handleFrame: the lease is renewed, the handler's section not begun
  | handling (frame : Frame)
  -- the handler is done but for its answer
  | replying (frames : List Frame)
  -- handleGameStart: the members are listed, the read lock given back
  | starting (start : Frame)
  -- handleGameStart: under the read lock again, with the members still to be sent the frame
  | sending (start : Frame) (rest : List Bytes)
  -- handleConn returned: the deferred disconnect is to run
  | leaving
  | ended

/-- A connection and its two ends: the goroutine and its record at the server, and
the node with the frames on their way to it and what GameStart left there. -/
structure Conn where
  place : Place := .fresh
  record : NodeConn
  inbox : List Frame := []
  started : Bool := false
  order : List Bytes := []

structure Hub where
  -- sessions and counters; the nodes are not kept here
  tables : Server
  -- the record registered under an id, by the number of its connection
  nodes : Finmap fun _ : Bytes => ℕ := ∅
  conns : List Conn := []
  -- ids the reaper is about to disconnect; it keeps the id, and not the record it saw
  expired : List (Bytes × ℕ) := []

inductive Event where
  | accept
  | hello (c : ℕ) (frame : Frame)
  | register (c : ℕ) (now : ℤ)
  | receive (c : ℕ) (frame : Frame) (now : ℤ)
  | handle (c : ℕ) (now : ℤ)
  | broadcast (c : ℕ)
  | send (c : ℕ)
  | reply (c : ℕ)
  | hangUp (c : ℕ)
  | disconnect (c : ℕ)
  | scan (now : ℤ)
  | reap (id : Bytes) (c : ℕ)
  | process (c : ℕ)

def Place.isSending : Place → Bool
  | .sending _ _ => true
  | _ => false

/- The order of players that every listed member is sent. -/
def startFrame (sessionID : Bytes) (sess : Session) : Frame :=
  { kind := .gameStart
    sessionID := sessionID
    peerIDs := sess.members.sort (· ≤ ·)
    success := true
    timeoutIntervalMS := UInt64.ofInt (sess.timeoutInterval.tdiv 1000000)
    maxAttempts := sess.maxAttempts }

namespace Hub
variable (h : Hub)

def modify (c : ℕ) (f : Conn → Conn) : Hub := { h with conns := h.conns.modify c f }

def setPlace (c : ℕ) (p : Place) : Hub := h.modify c fun k => { k with place := p }

/- No goroutine holds the read lock over a broadcast. -/
def writable : Bool := h.conns.all fun k => !k.place.isSending

/- The tables with the registered records in place of the pointers. -/
def view : Server :=
  h.conns.foldl (fun s k => if h.nodes.lookup k.record.id = some k.record.conn then s.setNode k.record else s)
    h.tables

def hello (c : ℕ) (frame : Frame) : Hub :=
  if frame.kind ≠ .registerReq then
    h.setPlace c (.refusing [{ kind := .registerResp, error := ascii "first frame must be register_req" }])
  else
    let (nodeID, s) := if frame.nodeID = [] then h.tables.nextNodeID else (frame.nodeID, h.tables)
    { h with tables := s }.setPlace c (.registering { frame with nodeID := nodeID })

def register (c : ℕ) (frame : Frame) (now : ℤ) : Hub :=
  if (h.nodes.lookup frame.nodeID).isSome then
    h.setPlace c (.refusing [{ kind := .registerResp, error := ascii "node id already connected" }])
  else
    let nc : NodeConn :=
      { id := frame.nodeID
        peerAddr := frame.peerAddr
        leaseUntil := now + h.tables.cfg.leaseTTL
        conn := c }
    let resp : Frame :=
      { kind := .registerResp
        success := true
        nodeID := frame.nodeID
        leaseExpiresUnix := nc.leaseUntil / 1000000000 }
    { h with nodes := h.nodes.insert frame.nodeID c }.modify c fun k =>
      { k with record := nc, place := .replying [resp] }

def renewLease (nodeID : Bytes) (now : ℤ) : Hub :=
  match h.nodes.lookup nodeID with
  | none => h
  | some c => h.modify c fun k =>
    { k with record := { k.record with leaseUntil := now + h.tables.cfg.leaseTTL } }

def answer (c : ℕ) (sent : List Sent) : Hub := h.setPlace c (.replying (sent.map Prod.snd))

/-- A handler that writes: it goes by the goroutine's own record, and writes to it
whether or not the table still has it. -/
def commit (c : ℕ) (run : Server → Server × List Sent) : Hub :=
  let r := run { h.tables with nodes := ∅ }
  { h with tables := { r.1 with nodes := ∅ } }.modify c fun k =>
    { k with
      record := (r.1.nodes.lookup k.record.id).getD k.record
      place := .replying (r.2.map Prod.snd) }

/- The zero time, where there is no record to renew. -/
def heartbeat (nc : NodeConn) (frame : Frame) (now : ℤ) : List Sent :=
  if (h.nodes.lookup nc.id).isSome then h.tables.handleHeartbeat nc frame now
  else
    [(nc.conn,
      { kind := .heartbeatResp
        requestID := frame.requestID
        success := true
        leaseExpiresUnix := -62135596800 })]

def handleGameStart (c : ℕ) (nc : NodeConn) : Hub :=
  match h.tables.sessions.lookup nc.sessionID with
  | none => h.answer c [(c, { kind := .gameStart, error := ascii "node is not in a session" })]
  | some sess => h.setPlace c (.starting (startFrame nc.sessionID sess))

def handle (c : ℕ) (nc : NodeConn) (frame : Frame) (now : ℤ) : Option Hub :=
  match frame.kind with
  | .createSessionReq =>
    -- the name is drawn before the lock is taken
    if frame.sessionID = [] then
      some ({ h with tables := h.tables.nextSessionID.2 }.setPlace c
        (.handling { frame with sessionID := h.tables.nextSessionID.1 }))
    else if h.writable then some (h.commit c (·.handleCreateSession nc frame))
    else none
  | .joinSessionReq =>
    if frame.sessionID = [] then some (h.answer c (h.tables.handleJoinSession nc frame).2)
    else if h.writable then some (h.commit c (·.handleJoinSession nc frame))
    else none
  | .listPeersReq => (h.view.handleListPeers nc frame).map (h.answer c)
  | .listSessionsReq => some (h.answer c (h.tables.handleListSessions nc frame))
  | .heartbeatReq =>
    if h.writable then some ((h.renewLease nc.id now).answer c (h.heartbeat nc frame now)) else none
  | .gameStart => some (h.handleGameStart c nc)
  | kind =>
    some (h.answer c [(c, { kind := kind, requestID := frame.requestID, error := ascii "unknown frame kind" })])

def post (c : ℕ) (frames : List Frame) : Hub := h.modify c fun k => { k with inbox := k.inbox ++ frames }

/- One more member is sent the frame, if it is registered. -/
def send (c : ℕ) (start : Frame) : List Bytes → Hub
  | [] => h.setPlace c .reading
  | id :: rest =>
    match h.nodes.lookup id with
    | none => h.setPlace c (.sending start rest)
    | some d => (h.post d [start]).setPlace c (.sending start rest)

def disconnect (nodeID : Bytes) : Hub :=
  match h.nodes.lookup nodeID with
  | none => h
  | some c =>
    match h.conns[c]? with
    | none => h
    | some k => { h with nodes := h.nodes.erase nodeID, tables := h.tables.leave k.record }

/- The registered records whose lease is over. -/
def overdue (now : ℤ) : List (Bytes × ℕ) :=
  (h.nodes.keys.sort (· ≤ ·)).filterMap fun id =>
    (h.nodes.lookup id).bind fun c =>
      h.conns[c]?.bind fun k => if k.record.leaseUntil < now then some (id, c) else none

/- GameStart at the node: the last frame wins. -/
def process (k : Conn) : Conn :=
  match k.inbox with
  | [] => k
  | frame :: rest =>
    if frame.kind = .gameStart then { k with inbox := rest, started := true, order := frame.peerIDs }
    else { k with inbox := rest }

def step : Event → Option Hub
  | .accept => some { h with conns := h.conns ++
      [{ record := { id := [], peerAddr := [], leaseUntil := 0, conn := h.conns.length } }] }
  | .hello c frame =>
    h.conns[c]?.bind fun k =>
      match k.place with
      | .fresh => some (h.hello c frame)
      | _ => none
  | .register c now =>
    h.conns[c]?.bind fun k =>
      match k.place with
      | .registering frame => if h.writable then some (h.register c frame now) else none
      | _ => none
  | .receive c frame now =>
    h.conns[c]?.bind fun k =>
      match k.place with
      | .reading =>
        if h.writable then some ((h.renewLease k.record.id now).setPlace c (.handling frame)) else none
      | _ => none
  | .handle c now =>
    h.conns[c]?.bind fun k =>
      match k.place with
      | .handling frame => h.handle c k.record frame now
      | _ => none
  | .broadcast c =>
    h.conns[c]?.bind fun k =>
      match k.place with
      | .starting start => some (h.setPlace c (.sending start start.peerIDs))
      | _ => none
  | .send c =>
    h.conns[c]?.bind fun k =>
      match k.place with
      | .sending start rest => some (h.send c start rest)
      | _ => none
  | .reply c =>
    h.conns[c]?.bind fun k =>
      match k.place with
      | .replying frames => some ((h.post c frames).setPlace c .reading)
      | .refusing frames => some ((h.post c frames).setPlace c .ended)
      | _ => none
  | .hangUp c =>
    h.conns[c]?.bind fun k =>
      match k.place with
      | .fresh => some (h.setPlace c .ended)
      | .reading => some (h.setPlace c .leaving)
      | _ => none
  | .disconnect c =>
    h.conns[c]?.bind fun k =>
      match k.place with
      | .leaving => if h.writable then some ((h.disconnect k.record.id).setPlace c .ended) else none
      | _ => none
  | .scan now => if h.expired = [] then some { h with expired := h.overdue now } else none
  | .reap id c =>
    if (id, c) ∈ h.expired ∧ h.writable then
      some ({ h with expired := h.expired.erase (id, c) }.disconnect id)
    else none
  | .process c => if c < h.conns.length then some (h.modify c process) else none

end Hub

def Hub.start (cfg : Config) : Hub := { tables := { cfg := cfg } }

/-! ### What the handlers that write do -/

namespace Server
variable {s : Server} {nc : NodeConn} {id sid : Bytes}

theorem mem_of_leave (h : id ∈ (s.leave nc).memberSet sid) :
    id ∈ s.memberSet sid ∧ (sid ≠ [] → sid = nc.sessionID → id ≠ nc.id) := by
  unfold leave at h
  split_ifs at h with hin
  · obtain ⟨hmem, hnot⟩ := mem_removeNode.mp h
    exact ⟨hmem, fun _ hs hid => hnot ⟨hs, hid⟩⟩
  · refine ⟨h, fun hne hs _ => hne ?_⟩
    rw [hs]
    exact not_not.mp hin

theorem mem_of_enter {nodeID sid' : Bytes} (h : id ∈ (s.enter sid nodeID).memberSet sid') :
    id ∈ s.memberSet sid' ∨ sid' = sid ∧ id = nodeID := by
  cases hs : s.sessions.lookup sid with
  | none =>
    rw [enter, hs] at h
    exact .inl h
  | some sess => exact (mem_enter (by rw [hs]; rfl)).mp h

/-- A node that creates or joins a session is refused, or leaves its own session
for that one. -/
def Outcome (s : Server) (nc : NodeConn) (sid : Bytes) (s' : Server) : Prop :=
  s'.sessions = s.sessions ∧ s'.nodes = s.nodes ∨
  sid ≠ [] ∧ s'.nodes = s.nodes.insert nc.id { nc with sessionID := sid } ∧
    ∀ id k, id ∈ s'.memberSet k →
      id ∈ s.memberSet k ∧ (k ≠ [] → k = nc.sessionID → id ≠ nc.id) ∨ k = sid ∧ id = nc.id

theorem handleCreateSession_outcome {frame : Frame} (hname : frame.sessionID ≠ []) :
    Outcome s nc frame.sessionID (s.handleCreateSession nc frame).1 := by
  unfold handleCreateSession
  rw [if_neg hname]
  dsimp only
  split_ifs with hdup
  · exact .inl ⟨rfl, rfl⟩
  · refine .inr ⟨hname, ?_, ?_⟩
    · show (s.leave nc).nodes.insert _ _ = _
      rw [leave_nodes]
    · intro id k hid
      have hid' : id ∈ ((s.leave nc).setSession frame.sessionID
          ⟨{nc.id}, s.cfg.timeoutInterval, s.cfg.maxAttempts⟩).memberSet k := hid
      rw [memberSet_setSession] at hid'
      split_ifs at hid' with hk
      · exact .inr ⟨hk, Finset.mem_singleton.mp hid'⟩
      · exact .inl (mem_of_leave hid')

theorem handleJoinSession_outcome {frame : Frame} :
    Outcome s nc frame.sessionID (s.handleJoinSession nc frame).1 := by
  unfold handleJoinSession
  split_ifs with hname hnone
  · exact .inl ⟨rfl, rfl⟩
  · exact .inl ⟨rfl, rfl⟩
  · refine .inr ⟨hname, ?_, ?_⟩
    · show ((s.leave nc).enter frame.sessionID nc.id).nodes.insert _ _ = _
      rw [enter_nodes, leave_nodes]
    · intro id k hid
      have hid' : id ∈ ((s.leave nc).enter frame.sessionID nc.id).memberSet k := hid
      rcases mem_of_enter hid' with hold | hnew
      · exact .inl (mem_of_leave hold)
      · exact .inr hnew

theorem handleCreateSession_kind {frame : Frame} :
    ∀ sent ∈ (s.handleCreateSession nc frame).2, sent.2.kind = .createSessionResp := by
  unfold handleCreateSession
  split_ifs <;> dsimp only <;> split_ifs <;> simp

theorem handleJoinSession_kind {frame : Frame} :
    ∀ sent ∈ (s.handleJoinSession nc frame).2, sent.2.kind = .joinSessionResp := by
  unfold handleJoinSession
  split_ifs <;> simp

theorem handleListPeers_kind {frame : Frame} {sents : List Sent}
    (h : s.handleListPeers nc frame = some sents) : ∀ sent ∈ sents, sent.2.kind = .listPeersResp := by
  unfold handleListPeers at h
  split_ifs at h
  · obtain rfl := Option.some.inj h
    simp
  · split at h
    · cases h
    · obtain rfl := Option.some.inj h
      simp

end Server

/-! ### What an event does -/

/- Registered, and the deferred disconnect has not run. -/
def Place.live : Place → Bool
  | .fresh | .registering _ | .refusing _ | .ended => false
  | _ => true

/- Past its registration. -/
def Place.enrolled : Place → Bool
  | .fresh | .registering _ | .refusing _ => false
  | _ => true

/- No answer to a single connection is a game start. -/
def Place.Plain : Place → Prop
  | .replying frames => ∀ f ∈ frames, f.kind ≠ .gameStart
  | .refusing frames => ∀ f ∈ frames, f.kind ≠ .gameStart
  | .starting start => start.kind = .gameStart
  | .sending start _ => start.kind = .gameStart
  | _ => True

namespace Hub

/- What a handler does, branch by branch. -/
inductive Handles (h : Hub) (c : ℕ) (nc : NodeConn) (frame : Frame) (now : ℤ) : Hub → Prop where
  | draw (hkind : frame.kind = .createSessionReq) (hname : frame.sessionID = []) :
      Handles h c nc frame now ({ h with tables := h.tables.nextSessionID.2 }.setPlace c
        (.handling { frame with sessionID := h.tables.nextSessionID.1 }))
  | create (hkind : frame.kind = .createSessionReq) (hname : frame.sessionID ≠ []) (hw : h.writable = true) :
      Handles h c nc frame now (h.commit c (·.handleCreateSession nc frame))
  | joinNowhere (hkind : frame.kind = .joinSessionReq) (hname : frame.sessionID = []) :
      Handles h c nc frame now (h.answer c (h.tables.handleJoinSession nc frame).2)
  | join (hkind : frame.kind = .joinSessionReq) (hname : frame.sessionID ≠ []) (hw : h.writable = true) :
      Handles h c nc frame now (h.commit c (·.handleJoinSession nc frame))
  | listPeers {sents : List Sent} (hkind : frame.kind = .listPeersReq)
      (hsents : h.view.handleListPeers nc frame = some sents) : Handles h c nc frame now (h.answer c sents)
  | listSessions (hkind : frame.kind = .listSessionsReq) :
      Handles h c nc frame now (h.answer c (h.tables.handleListSessions nc frame))
  | heartbeat (hkind : frame.kind = .heartbeatReq) (hw : h.writable = true) :
      Handles h c nc frame now ((h.renewLease nc.id now).answer c (h.heartbeat nc frame now))
  | startRefused (hkind : frame.kind = .gameStart) (hnone : h.tables.sessions.lookup nc.sessionID = none) :
      Handles h c nc frame now
        (h.answer c [(c, { kind := .gameStart, error := ascii "node is not in a session" })])
  | start {sess : Session} (hkind : frame.kind = .gameStart)
      (hsess : h.tables.sessions.lookup nc.sessionID = some sess) :
      Handles h c nc frame now (h.setPlace c (.starting (startFrame nc.sessionID sess)))
  | unknown (hkind : frame.kind ≠ .gameStart) (hbeat : frame.kind ≠ .heartbeatReq) :
      Handles h c nc frame now (h.answer c
        [(c, { kind := frame.kind, requestID := frame.requestID, error := ascii "unknown frame kind" })])

/- What a step does, branch by branch. -/
inductive Acts (h : Hub) : Event → Hub → Prop where
  | accept : Acts h .accept { h with conns := h.conns ++
      [{ record := { id := [], peerAddr := [], leaseUntil := 0, conn := h.conns.length } }] }
  | hello {c : ℕ} {k : Conn} {frame : Frame} (hk : h.conns[c]? = some k) (hp : k.place = .fresh) :
      Acts h (.hello c frame) (h.hello c frame)
  | register {c : ℕ} {k : Conn} {frame : Frame} {now : ℤ} (hk : h.conns[c]? = some k)
      (hp : k.place = .registering frame) (hw : h.writable = true) :
      Acts h (.register c now) (h.register c frame now)
  | receive {c : ℕ} {k : Conn} {frame : Frame} {now : ℤ} (hk : h.conns[c]? = some k)
      (hp : k.place = .reading) (hw : h.writable = true) :
      Acts h (.receive c frame now) ((h.renewLease k.record.id now).setPlace c (.handling frame))
  | handle {c : ℕ} {k : Conn} {frame : Frame} {now : ℤ} {h' : Hub} (hk : h.conns[c]? = some k)
      (hp : k.place = .handling frame) (hh : Handles h c k.record frame now h') : Acts h (.handle c now) h'
  | broadcast {c : ℕ} {k : Conn} {start : Frame} (hk : h.conns[c]? = some k)
      (hp : k.place = .starting start) :
      Acts h (.broadcast c) (h.setPlace c (.sending start start.peerIDs))
  | send {c : ℕ} {k : Conn} {start : Frame} {rest : List Bytes} (hk : h.conns[c]? = some k)
      (hp : k.place = .sending start rest) : Acts h (.send c) (h.send c start rest)
  | reply {c : ℕ} {k : Conn} {frames : List Frame} (hk : h.conns[c]? = some k)
      (hp : k.place = .replying frames) : Acts h (.reply c) ((h.post c frames).setPlace c .reading)
  | refuse {c : ℕ} {k : Conn} {frames : List Frame} (hk : h.conns[c]? = some k)
      (hp : k.place = .refusing frames) : Acts h (.reply c) ((h.post c frames).setPlace c .ended)
  | forget {c : ℕ} {k : Conn} (hk : h.conns[c]? = some k) (hp : k.place = .fresh) :
      Acts h (.hangUp c) (h.setPlace c .ended)
  | leave {c : ℕ} {k : Conn} (hk : h.conns[c]? = some k) (hp : k.place = .reading) :
      Acts h (.hangUp c) (h.setPlace c .leaving)
  | disconnect {c : ℕ} {k : Conn} (hk : h.conns[c]? = some k) (hp : k.place = .leaving)
      (hw : h.writable = true) : Acts h (.disconnect c) ((h.disconnect k.record.id).setPlace c .ended)
  | scan {now : ℤ} (hdone : h.expired = []) : Acts h (.scan now) { h with expired := h.overdue now }
  | reap {id : Bytes} {c : ℕ} (hmem : (id, c) ∈ h.expired) (hw : h.writable = true) :
      Acts h (.reap id c) ({ h with expired := h.expired.erase (id, c) }.disconnect id)
  | process {c : ℕ} (hc : c < h.conns.length) : Acts h (.process c) (h.modify c process)

inductive Move (h : Hub) : Event → Hub → Prop where
  | accept : Move h .accept { h with conns := h.conns ++
      [{ record := { id := [], peerAddr := [], leaseUntil := 0, conn := h.conns.length } }] }
  -- a goroutine goes on, and may have drawn an id
  | place {e : Event} {s : Server} {c : ℕ} {k : Conn} {p : Place} (hk : h.conns[c]? = some k)
      (hsess : s.sessions = h.tables.sessions) (hlive : p.live = true → k.place.live = true)
      (henr : p.enrolled = k.place.enrolled ∨ p = .ended) (hfrom : k.place.isSending = false)
      (hsend : p.isSending = false)
      (hplain : p.Plain ∨ ∃ now frame, e = .handle c now ∧ k.place = .handling frame ∧
        frame.kind = .gameStart ∧ h.tables.sessions.lookup k.record.sessionID = none) :
      Move h e ({ h with tables := s }.setPlace c p)
  | lease {e : Event} {c : ℕ} {k : Conn} {p : Place} {id : Bytes} {now : ℤ}
      (hk : h.conns[c]? = some k) (hlive : p.live = true → k.place.live = true)
      (henr : p.enrolled = k.place.enrolled) (hfrom : k.place.isSending = false)
      (hsend : p.isSending = false) (hplain : p.Plain) :
      Move h e ((h.renewLease id now).setPlace c p)
  | register {c : ℕ} {k : Conn} {frame : Frame} {now : ℤ} {nc : NodeConn} {resp : Frame}
      (hk : h.conns[c]? = some k) (hp : k.place = .registering frame)
      (hnew : h.nodes.lookup frame.nodeID = none) (hid : nc.id = frame.nodeID)
      (hout : nc.sessionID = []) (hkind : resp.kind ≠ .gameStart) (hw : h.writable = true) :
      Move h (.register c now)
        ({ h with nodes := h.nodes.insert frame.nodeID c }.modify c fun k =>
          { k with record := nc, place := .replying [resp] })
  | commit {c : ℕ} {k : Conn} {frame : Frame} {now : ℤ} {run : Server → Server × List Sent}
      (hk : h.conns[c]? = some k) (hp : k.place = .handling frame)
      (hkind : frame.kind = .createSessionReq ∨ frame.kind = .joinSessionReq)
      (hout : ∀ s : Server, s.Outcome k.record frame.sessionID (run s).1)
      (hsent : ∀ s, ∀ f ∈ (run s).2.map Prod.snd, f.kind ≠ .gameStart) (hw : h.writable = true) :
      Move h (.handle c now) (h.commit c run)
  | broadcast {c : ℕ} {k : Conn} {start : Frame} (hk : h.conns[c]? = some k)
      (hp : k.place = .starting start) :
      Move h (.broadcast c) (h.setPlace c (.sending start start.peerIDs))
  | send {c : ℕ} {k : Conn} {start : Frame} {rest : List Bytes} (hk : h.conns[c]? = some k)
      (hp : k.place = .sending start rest) : Move h (.send c) (h.send c start rest)
  | reply {c : ℕ} {k : Conn} {frames : List Frame} {p : Place} (hk : h.conns[c]? = some k)
      (hp : k.place = .replying frames ∧ p = .reading ∨ k.place = .refusing frames ∧ p = .ended) :
      Move h (.reply c) ((h.post c frames).setPlace c p)
  | disconnect {c : ℕ} {k : Conn} (hk : h.conns[c]? = some k) (hp : k.place = .leaving)
      (hw : h.writable = true) :
      Move h (.disconnect c) ((h.disconnect k.record.id).setPlace c .ended)
  | scan {now : ℤ} : Move h (.scan now) { h with expired := h.overdue now }
  | reap {id : Bytes} {c : ℕ} (hmem : (id, c) ∈ h.expired) (hw : h.writable = true) :
      Move h (.reap id c) ({ h with expired := h.expired.erase (id, c) }.disconnect id)
  | process {c : ℕ} : Move h (.process c) (h.modify c process)

variable {h h' : Hub} {e : Event} {c : ℕ} {k : Conn}

theorem handle_handles {nc : NodeConn} {frame : Frame} {now : ℤ} (hh : h.handle c nc frame now = some h') :
    Handles h c nc frame now h' := by
  unfold Hub.handle at hh
  split at hh
  · rename_i hkind
    split_ifs at hh with hname hw
    · obtain rfl := Option.some.inj hh
      exact .draw hkind hname
    · obtain rfl := Option.some.inj hh
      exact .create hkind hname hw
  · rename_i hkind
    split_ifs at hh with hname hw
    · obtain rfl := Option.some.inj hh
      exact .joinNowhere hkind hname
    · obtain rfl := Option.some.inj hh
      exact .join hkind hname hw
  · rename_i hkind
    obtain ⟨sents, hsents, rfl⟩ := Option.map_eq_some_iff.mp hh
    exact .listPeers hkind hsents
  · rename_i hkind
    obtain rfl := Option.some.inj hh
    exact .listSessions hkind
  · rename_i hkind
    split_ifs at hh with hw
    obtain rfl := Option.some.inj hh
    exact .heartbeat hkind hw
  · rename_i hkind
    obtain rfl := Option.some.inj hh
    unfold Hub.handleGameStart
    split
    · rename_i hnone
      exact .startRefused hkind hnone
    · rename_i hsess
      exact .start hkind hsess
  · rename_i hbeat hstart
    obtain rfl := Option.some.inj hh
    exact .unknown hstart hbeat

theorem step_acts (hs : h.step e = some h') : Acts h e h' := by
  cases e with
  | accept =>
    obtain rfl := Option.some.inj hs
    exact .accept
  | hello c frame =>
    obtain ⟨k, hk, hs⟩ := Option.bind_eq_some_iff.mp hs
    split at hs
    · rename_i hp
      obtain rfl := Option.some.inj hs
      exact .hello hk hp
    · cases hs
  | register c now =>
    obtain ⟨k, hk, hs⟩ := Option.bind_eq_some_iff.mp hs
    split at hs
    · rename_i hp
      split_ifs at hs with hw
      obtain rfl := Option.some.inj hs
      exact .register hk hp hw
    · cases hs
  | receive c frame now =>
    obtain ⟨k, hk, hs⟩ := Option.bind_eq_some_iff.mp hs
    split at hs
    · rename_i hp
      split_ifs at hs with hw
      obtain rfl := Option.some.inj hs
      exact .receive hk hp hw
    · cases hs
  | handle c now =>
    obtain ⟨k, hk, hs⟩ := Option.bind_eq_some_iff.mp hs
    split at hs
    · rename_i hp
      exact .handle hk hp (handle_handles hs)
    · cases hs
  | broadcast c =>
    obtain ⟨k, hk, hs⟩ := Option.bind_eq_some_iff.mp hs
    split at hs
    · rename_i hp
      obtain rfl := Option.some.inj hs
      exact .broadcast hk hp
    · cases hs
  | send c =>
    obtain ⟨k, hk, hs⟩ := Option.bind_eq_some_iff.mp hs
    split at hs
    · rename_i hp
      obtain rfl := Option.some.inj hs
      exact .send hk hp
    · cases hs
  | reply c =>
    obtain ⟨k, hk, hs⟩ := Option.bind_eq_some_iff.mp hs
    split at hs
    · rename_i hp
      obtain rfl := Option.some.inj hs
      exact .reply hk hp
    · rename_i hp
      obtain rfl := Option.some.inj hs
      exact .refuse hk hp
    · cases hs
  | hangUp c =>
    obtain ⟨k, hk, hs⟩ := Option.bind_eq_some_iff.mp hs
    split at hs
    · rename_i hp
      obtain rfl := Option.some.inj hs
      exact .forget hk hp
    · rename_i hp
      obtain rfl := Option.some.inj hs
      exact .leave hk hp
    · cases hs
  | disconnect c =>
    obtain ⟨k, hk, hs⟩ := Option.bind_eq_some_iff.mp hs
    split at hs
    · rename_i hp
      split_ifs at hs with hw
      obtain rfl := Option.some.inj hs
      exact .disconnect hk hp hw
    · cases hs
  | scan now =>
    rw [step] at hs
    split_ifs at hs with hdone
    obtain rfl := Option.some.inj hs
    exact .scan hdone
  | reap id c =>
    rw [step] at hs
    split_ifs at hs with hreap
    obtain rfl := Option.some.inj hs
    exact .reap hreap.1 hreap.2
  | process c =>
    rw [step] at hs
    split_ifs at hs with hc
    obtain rfl := Option.some.inj hs
    exact .process hc

theorem Move.hello (hk : h.conns[c]? = some k) (hp : k.place = .fresh) (frame : Frame) :
    Move h e (h.hello c frame) := by
  have henr : false = k.place.enrolled := by rw [hp]; rfl
  have hfrom : k.place.isSending = false := by rw [hp]; rfl
  unfold Hub.hello
  split_ifs with hkind hname
  · exact .place hk rfl nofun (.inl henr) hfrom rfl (.inl (by simp [Place.Plain]))
  · exact .place hk rfl nofun (.inl henr) hfrom rfl (.inl trivial)
  · exact .place hk rfl nofun (.inl henr) hfrom rfl (.inl trivial)

theorem Move.of_register {frame : Frame} {now : ℤ} (hk : h.conns[c]? = some k)
    (hp : k.place = .registering frame) (hw : h.writable = true) :
    Move h (.register c now) (h.register c frame now) := by
  unfold Hub.register
  split_ifs with hdup
  · exact .place hk rfl nofun (.inl (by rw [hp]; rfl)) (by rw [hp]; rfl) rfl (.inl (by simp [Place.Plain]))
  · exact .register hk hp (by simpa using hdup) rfl rfl nofun hw

theorem not_start_of_kind {sents : List Sent} {kind : Kind}
    (hkind : ∀ sent ∈ sents, sent.2.kind = kind) (hne : kind ≠ .gameStart) :
    ∀ f ∈ sents.map Prod.snd, f.kind ≠ .gameStart := by
  intro f hf
  obtain ⟨sent, hsent, rfl⟩ := List.mem_map.mp hf
  rwa [hkind sent hsent]

theorem heartbeat_kind (nc : NodeConn) (frame : Frame) (now : ℤ) :
    ∀ sent ∈ h.heartbeat nc frame now, sent.2.kind = .heartbeatResp := by
  unfold heartbeat
  split_ifs <;> simp [Server.handleHeartbeat]

theorem Move.handle {frame : Frame} {now : ℤ} (hk : h.conns[c]? = some k)
    (hp : k.place = .handling frame) (hh : Handles h c k.record frame now h') : Move h (.handle c now) h' := by
  have hlive : k.place.live = true := by rw [hp]; rfl
  have henr : true = k.place.enrolled := by rw [hp]; rfl
  have hfrom : k.place.isSending = false := by rw [hp]; rfl
  have answered : ∀ {sents : List Sent}, (Place.replying (sents.map Prod.snd)).Plain →
      Move h (.handle c now) (h.answer c sents) :=
    fun hplain => .place hk rfl (fun _ => hlive) (.inl henr) hfrom rfl (.inl hplain)
  cases hh with
  | draw => exact .place hk rfl (fun _ => hlive) (.inl henr) hfrom rfl (.inl trivial)
  | create hkind hname hw =>
    exact .commit hk hp (.inl hkind) (fun _ => Server.handleCreateSession_outcome hname)
      (fun _ => not_start_of_kind Server.handleCreateSession_kind (by nofun)) hw
  | joinNowhere => exact answered (not_start_of_kind Server.handleJoinSession_kind (by nofun))
  | join hkind _ hw =>
    exact .commit hk hp (.inr hkind) (fun _ => Server.handleJoinSession_outcome)
      (fun _ => not_start_of_kind Server.handleJoinSession_kind (by nofun)) hw
  | listPeers _ hsents => exact answered (not_start_of_kind (Server.handleListPeers_kind hsents) (by nofun))
  | listSessions => exact answered (by simp [Place.Plain, Server.handleListSessions])
  | heartbeat =>
    exact .lease hk (fun _ => hlive) henr hfrom rfl (not_start_of_kind (heartbeat_kind _ _ _) (by nofun))
  | startRefused hkind hnone =>
    exact .place hk rfl (fun _ => hlive) (.inl henr) hfrom rfl (.inr ⟨now, frame, rfl, hp, hkind, hnone⟩)
  | start => exact .place hk rfl (fun _ => hlive) (.inl henr) hfrom rfl (.inl rfl)
  | unknown hkind => exact answered (by simpa [Place.Plain] using hkind)

theorem modify_self (f : Conn → Conn) (hk : h.conns[c]? = some k) :
    (h.modify c f).conns[c]? = some (f k) := by
  rw [modify, List.getElem?_modify_eq, hk]
  rfl

theorem modify_ne (f : Conn → Conn) {d : ℕ} (hd : d ≠ c) : (h.modify c f).conns[d]? = h.conns[d]? :=
  List.getElem?_modify_ne _ _ hd.symm

theorem of_modify {f : Conn → Conn} {d : ℕ} {k' : Conn} (hk' : (h.modify c f).conns[d]? = some k') :
    (∃ k, d = c ∧ h.conns[c]? = some k ∧ k' = f k) ∨ d ≠ c ∧ h.conns[d]? = some k' := by
  by_cases hd : d = c
  · subst hd
    rw [modify, List.getElem?_modify_eq] at hk'
    obtain ⟨k, hk, rfl⟩ := Option.map_eq_some_iff.mp hk'
    exact .inl ⟨k, rfl, hk, rfl⟩
  · rw [modify_ne f hd] at hk'
    exact .inr ⟨hd, hk'⟩

theorem process_record (k : Conn) : (process k).record = k.record ∧ (process k).place = k.place := by
  unfold process
  split
  · exact ⟨rfl, rfl⟩
  · split_ifs
    · exact ⟨rfl, rfl⟩
    · exact ⟨rfl, rfl⟩

theorem of_renewLease {nodeID : Bytes} {now : ℤ} {d : ℕ} {k' : Conn}
    (hk' : (h.renewLease nodeID now).conns[d]? = some k') :
    ∃ k t, h.conns[d]? = some k ∧ k' = { k with record := { k.record with leaseUntil := t } } := by
  unfold renewLease at hk'
  split at hk'
  · exact ⟨k', _, hk', rfl⟩
  · rcases of_modify hk' with ⟨k, rfl, hk, rfl⟩ | ⟨_, hk⟩
    · exact ⟨k, _, hk, rfl⟩
    · exact ⟨k', _, hk, rfl⟩

/- The record that a refused goroutine keeps, or the one it moves with. -/
theorem record_of_outcome {s s' : Server} {nc : NodeConn} {sid : Bytes}
    (hout : Server.Outcome { s with nodes := ∅ } nc sid s') :
    s'.sessions = s.sessions ∧ (s'.nodes.lookup nc.id).getD nc = nc ∨
    sid ≠ [] ∧ (s'.nodes.lookup nc.id).getD nc = { nc with sessionID := sid } ∧
      ∀ id k, id ∈ s'.memberSet k →
        id ∈ s.memberSet k ∧ (k ≠ [] → k = nc.sessionID → id ≠ nc.id) ∨ k = sid ∧ id = nc.id := by
  rcases hout with ⟨hsess, hnodes⟩ | ⟨hsid, hnodes, hmem⟩
  · refine .inl ⟨hsess, ?_⟩
    rw [hnodes]
    rfl
  · refine .inr ⟨hsid, ?_, hmem⟩
    rw [hnodes, Finmap.lookup_insert, Option.getD_some]

theorem step_move (hs : h.step e = some h') : Move h e h' := by
  cases step_acts hs with
  | accept => exact .accept
  | hello hk hp => exact .hello hk hp _
  | register hk hp hw => exact .of_register hk hp hw
  | receive hk hp =>
    exact .lease hk (fun _ => by rw [hp]; rfl) (by rw [hp]; rfl) (by rw [hp]; rfl) rfl trivial
  | handle hk hp hh => exact .handle hk hp hh
  | broadcast hk hp => exact .broadcast hk hp
  | send hk hp => exact .send hk hp
  | reply hk hp => exact .reply hk (.inl ⟨hp, rfl⟩)
  | refuse hk hp => exact .reply hk (.inr ⟨hp, rfl⟩)
  | forget hk hp => exact .place hk rfl nofun (.inr rfl) (by rw [hp]; rfl) rfl (.inl trivial)
  | leave hk hp =>
    exact .place hk rfl (fun _ => by rw [hp]; rfl) (.inl (by rw [hp]; rfl)) (by rw [hp]; rfl) rfl (.inl trivial)
  | disconnect hk hp hw => exact .disconnect hk hp hw
  | scan => exact .scan
  | reap hmem hw => exact .reap hmem hw
  | process => exact .process

end Hub

end P2Poker.Dispatch
