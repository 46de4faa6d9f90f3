import Mathlib.Data.Finmap
import Mathlib.Data.Finset.Sort
import P2Poker.Lib.Decimal

/-!
# The dispatch server (internal/dispatch/server.go)

The server keeps a table of connected nodes and a table of sessions. Which
session a node is in is stored twice: with the node, and as the members of the
session. Every handler runs under the server's lock.
-/

namespace P2Poker.Dispatch
open P2Poker.Lib

inductive Kind where
  | registerReq
  | registerResp
  | createSessionReq
  | createSessionResp
  | joinSessionReq
  | joinSessionResp
  | listPeersReq
  | listPeersResp
  | listSessionsReq
  | listSessionsResp
  | heartbeatReq
  | heartbeatResp
  | gameStart
  | other (text : Bytes)
  deriving DecidableEq

structure Frame where
  kind : Kind
  requestID : Bytes := []
  nodeID : Bytes := []
  sessionID : Bytes := []
  peerAddr : Bytes := []
  success : Bool := false
  error : Bytes := []
  peerIDs : List Bytes := []
  peerAddresses : List Bytes := []
  sessionIDs : List Bytes := []
  leaseExpiresUnix : ℤ := 0
  timeoutIntervalMS : UInt64 := 0
  maxAttempts : UInt32 := 0

/- Times and durations are in nanoseconds. -/
structure Config where
  address : Bytes
  leaseTTL : ℤ
  timeoutInterval : ℤ
  maxAttempts : UInt32

structure Session where
  members : Finset Bytes
  timeoutInterval : ℤ
  maxAttempts : UInt32

structure NodeConn where
  id : Bytes
  peerAddr : Bytes
  sessionID : Bytes := []
  leaseUntil : ℤ
  -- the connection its frames go to
  conn : ℕ

structure Server where
  cfg : Config
  sessions : Finmap fun _ : Bytes => Session := ∅
  nodes : Finmap fun _ : Bytes => NodeConn := ∅
  nodeCounter : UInt64 := 0
  sessionCounter : UInt64 := 0

def newServer (cfg : Config) : Except Bytes Server :=
  if cfg.address = [] then .error (ascii "address must be set")
  else if cfg.leaseTTL ≤ 0 then .error (ascii "lease ttl must be positive")
  else .ok { cfg := cfg }

/-- A frame and the connection it is sent on. -/
abbrev Sent := ℕ × Frame

namespace Server
variable (s : Server)

def setNode (nc : NodeConn) : Server := { s with nodes := s.nodes.insert nc.id nc }

def setSession (sessionID : Bytes) (sess : Session) : Server :=
  { s with sessions := s.sessions.insert sessionID sess }

def nextNodeID : Bytes × Server :=
  let v := s.nodeCounter + 1
  (ascii "node-" ++ decimal v.toNat, { s with nodeCounter := v })

def nextSessionID : Bytes × Server :=
  let v := s.sessionCounter + 1
  (ascii "session-" ++ decimal v.toNat, { s with sessionCounter := v })

/-- The first frame of a connection. -/
def register (conn : ℕ) (frame : Frame) (now : ℤ) : Server × List Sent :=
  if frame.kind ≠ .registerReq then
    (s, [(conn, { kind := .registerResp, error := ascii "first frame must be register_req" })])
  else
    let (nodeID, s) := if frame.nodeID = [] then s.nextNodeID else (frame.nodeID, s)
    let nc : NodeConn :=
      { id := nodeID, peerAddr := frame.peerAddr, leaseUntil := now + s.cfg.leaseTTL, conn := conn }
    if (s.nodes.lookup nodeID).isSome then
      (s, [(conn, { kind := .registerResp, error := ascii "node id already connected" })])
    else
      (s.setNode nc, [(conn,
        { kind := .registerResp
          success := true
          nodeID := nodeID
          leaseExpiresUnix := nc.leaseUntil / 1000000000 })])

/-- Membership goes, and with the last member the session. -/
def removeNodeFromSessionLocked (nodeID sessionID : Bytes) : Server :=
  match s.sessions.lookup sessionID with
  | none => s
  | some sess =>
    let members := sess.members.erase nodeID
    if members = ∅ then { s with sessions := s.sessions.erase sessionID }
    else s.setSession sessionID { sess with members := members }

/- What a node in a session does before it enters another. -/
def leave (nc : NodeConn) : Server :=
  if nc.sessionID ≠ [] then s.removeNodeFromSessionLocked nc.id nc.sessionID else s

def handleCreateSession (nc : NodeConn) (frame : Frame) : Server × List Sent :=
  let (sessionID, s) := if frame.sessionID = [] then s.nextSessionID else (frame.sessionID, s)
  if (s.sessions.lookup sessionID).isSome then
    (s, [(nc.conn,
      { kind := .createSessionResp
        requestID := frame.requestID
        error := ascii "session already exists" })])
  else
    let sess : Session :=
      { members := {nc.id}
        timeoutInterval := s.cfg.timeoutInterval
        maxAttempts := s.cfg.maxAttempts }
    (((s.leave nc).setSession sessionID sess).setNode { nc with sessionID := sessionID },
      [(nc.conn,
        { kind := .createSessionResp
          requestID := frame.requestID
          success := true
          sessionID := sessionID })])

/-- The session is looked up before the node leaves its own, and the node added
to what was found. If leaving deleted it, no table holds what it is added to. -/
def enter (sessionID nodeID : Bytes) : Server :=
  match s.sessions.lookup sessionID with
  | none => s
  | some sess => s.setSession sessionID { sess with members := insert nodeID sess.members }

def handleJoinSession (nc : NodeConn) (frame : Frame) : Server × List Sent :=
  if frame.sessionID = [] then
    (s, [(nc.conn,
      { kind := .joinSessionResp
        requestID := frame.requestID
        error := ascii "session id required" })])
  else if (s.sessions.lookup frame.sessionID).isNone then
    (s, [(nc.conn,
      { kind := .joinSessionResp
        requestID := frame.requestID
        error := ascii "session not found" })])
  else
    (((s.leave nc).enter frame.sessionID nc.id).setNode { nc with sessionID := frame.sessionID },
      [(nc.conn,
        { kind := .joinSessionResp
          requestID := frame.requestID
          success := true
          sessionID := frame.sessionID })])

/- A map is walked in no particular order; here it is ascending. -/
def peers (sess : Session) : List NodeConn := (sess.members.sort (· ≤ ·)).filterMap s.nodes.lookup

/-- `none` when a session that is not in the table is dereferenced. -/
def handleListPeers (nc : NodeConn) (frame : Frame) : Option (List Sent) :=
  if nc.sessionID = [] then
    some [(nc.conn,
      { kind := .listPeersResp
        requestID := frame.requestID
        error := ascii "node is not in session" })]
  else
    match s.sessions.lookup nc.sessionID with
    | none => none
    | some sess =>
      some [(nc.conn,
        { kind := .listPeersResp
          requestID := frame.requestID
          success := true
          sessionID := nc.sessionID
          peerIDs := (s.peers sess).map NodeConn.id
          peerAddresses := (s.peers sess).map NodeConn.peerAddr })]

def handleListSessions (nc : NodeConn) (frame : Frame) : List Sent :=
  [(nc.conn,
    { kind := .listSessionsResp
      requestID := frame.requestID
      success := true
      sessionIDs := s.sessions.keys.sort (· ≤ ·) })]

def renewLease (nodeID : Bytes) (now : ℤ) : Server :=
  match s.nodes.lookup nodeID with
  | none => s
  | some nc => { s with nodes := s.nodes.insert nodeID { nc with leaseUntil := now + s.cfg.leaseTTL } }

def handleHeartbeat (nc : NodeConn) (frame : Frame) (now : ℤ) : List Sent :=
  [(nc.conn,
    { kind := .heartbeatResp
      requestID := frame.requestID
      success := true
      leaseExpiresUnix := (now + s.cfg.leaseTTL) / 1000000000 })]

/-- Every member gets the same order of players. -/
def handleGameStart (nc : NodeConn) : List Sent :=
  match s.sessions.lookup nc.sessionID with
  | none => [(nc.conn, { kind := .gameStart, error := ascii "node is not in a session" })]
  | some sess =>
    (s.peers sess).map fun node => (node.conn,
      { kind := .gameStart
        sessionID := nc.sessionID
        peerIDs := sess.members.sort (· ≤ ·)
        success := true
        timeoutIntervalMS := UInt64.ofInt (sess.timeoutInterval.tdiv 1000000)
        maxAttempts := sess.maxAttempts })

def disconnect (nodeID : Bytes) : Server :=
  match s.nodes.lookup nodeID with
  | none => s
  | some nc => { s with nodes := s.nodes.erase nodeID }.leave nc

/-- A frame on the connection of a registered node: `nc` is the node in the
table, and has its lease renewed there. -/
def handleFrame (nc : NodeConn) (frame : Frame) (now : ℤ) : Option (Server × List Sent) :=
  let s := s.renewLease nc.id now
  let nc := { nc with leaseUntil := now + s.cfg.leaseTTL }
  match frame.kind with
  | .createSessionReq => some (s.handleCreateSession nc frame)
  | .joinSessionReq => some (s.handleJoinSession nc frame)
  | .listPeersReq => (s.handleListPeers nc frame).map fun sent => (s, sent)
  | .listSessionsReq => some (s, s.handleListSessions nc frame)
  | .heartbeatReq => some (s, s.handleHeartbeat nc frame now)
  | .gameStart => some (s, s.handleGameStart nc)
  | kind =>
    some (s, [(nc.conn,
      { kind := kind, requestID := frame.requestID, error := ascii "unknown frame kind" })])

end Server

end P2Poker.Dispatch
