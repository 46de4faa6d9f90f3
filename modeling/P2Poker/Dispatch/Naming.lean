import P2Poker.Lib.Registry
import P2Poker.Dispatch.Registration

/-!
# Names given by the server

A client that leaves its node id or its session id empty has one drawn from a
counter. The names drawn and the names clients choose stand in the same tables,
and the server takes its lock only after it has drawn.
-/

namespace P2Poker.Dispatch
open P2Poker.Lib

def nodeName (i : ℕ) : Bytes := ascii "node-" ++ decimal i

def sessionName (i : ℕ) : Bytes := ascii "session-" ++ decimal i

theorem nodeName_injective : Function.Injective nodeName :=
  fun _ _ h => decimal_injective (List.append_cancel_left h)

theorem sessionName_injective : Function.Injective sessionName :=
  fun _ _ h => decimal_injective (List.append_cancel_left h)

/- The name has the form of a drawn one. -/
def generated (stem name : Bytes) : Bool := name = stem ++ decimal (decVal (name.drop stem.length))

theorem generated_append (stem : Bytes) (i : ℕ) : generated stem (stem ++ decimal i) = true := by
  rw [generated, List.drop_left, decVal_decimal]
  exact decide_eq_true rfl

/-! ### Requests that leave the name open -/

structure Watch where
  hub : Hub
  -- the last request on a connection left its name to the server
  blank : ℕ → Bool := fun _ => false

namespace Watch
variable (w : Watch)

def note : Event → ℕ → Bool
  | .hello c frame => Function.update w.blank c (frame.nodeID = [])
  | .receive c frame _ => Function.update w.blank c (frame.kind = .createSessionReq ∧ frame.sessionID = [])
  | _ => w.blank

def step (e : Event) : Option Watch := (w.hub.step e).map fun h => ⟨h, w.note e⟩

def start (cfg : Config) : Watch := { hub := Hub.start cfg }

end Watch

/- The two ways to be told that a name is not free. -/
def Frame.Refuses (f : Frame) : Prop :=
  f.error = ascii "node id already connected" ∨ f.error = ascii "session already exists"

instance (f : Frame) : Decidable f.Refuses := inferInstanceAs (Decidable (_ ∨ _))

/- What a goroutine is about to answer. -/
def Place.answers : Place → List Frame
  | .refusing frames => frames
  | .replying frames => frames
  | _ => []

/-- Nobody who left the name to the server is told that it is not free. -/
def Watch.Usable (w : Watch) : Prop :=
  ∀ c k, w.hub.conns[c]? = some k → w.blank c = true → ∀ f ∈ k.place.answers, ¬ f.Refuses

/-- Clients choose no name of the form the server draws, and the counters do not wrap. -/
def Watch.OwnNames (w : Watch) : Event → Prop
  | .hello _ frame =>
    generated (ascii "node-") frame.nodeID = false ∧ w.hub.tables.nodeCounter.toNat + 1 < 2 ^ 64
  | .receive _ frame _ =>
    frame.kind = .createSessionReq → generated (ascii "session-") frame.sessionID = false
  | .handle _ _ => w.hub.tables.sessionCounter.toNat + 1 < 2 ^ 64
  | _ => True

instance (w : Watch) (e : Event) : Decidable (w.OwnNames e) := by
  delta Watch.OwnNames
  induction e using Event.casesOn <;> infer_instance

/-! ### The handlers -/

namespace Server
variable {s : Server} {nc : NodeConn} {frame : Frame} {sid : Bytes}

theorem lookup_removeNode_none {nodeID sid' : Bytes} (h : s.sessions.lookup sid = none) :
    (s.removeNodeFromSessionLocked nodeID sid').sessions.lookup sid = none := by
  unfold removeNodeFromSessionLocked
  split
  · exact h
  · rename_i sess hsess
    have hne : sid ≠ sid' := by
      rintro rfl
      rw [h] at hsess
      cases hsess
    dsimp only
    split_ifs
    · rw [lookup_erase_eq, if_neg hne]
      exact h
    · rw [setSession, lookup_insert_eq, if_neg hne]
      exact h

theorem lookup_leave_none (h : s.sessions.lookup sid = none) : (s.leave nc).sessions.lookup sid = none := by
  unfold leave
  split_ifs
  · exact lookup_removeNode_none h
  · exact h

theorem lookup_enter_none {nodeID sid' : Bytes} (h : s.sessions.lookup sid = none) :
    (s.enter sid' nodeID).sessions.lookup sid = none := by
  unfold enter
  split
  · exact h
  · rename_i sess hsess
    rw [setSession, lookup_insert_eq, if_neg]
    · exact h
    · rintro rfl
      rw [h] at hsess
      cases hsess

theorem lookup_join_none (h : s.sessions.lookup sid = none) :
    (s.handleJoinSession nc frame).1.sessions.lookup sid = none := by
  unfold handleJoinSession
  split_ifs
  · exact h
  · exact h
  · exact lookup_enter_none (lookup_leave_none h)

theorem join_not_refused : ∀ sent ∈ (s.handleJoinSession nc frame).2, ¬ sent.2.Refuses := by
  unfold handleJoinSession
  split_ifs <;> simp only [List.forall_mem_singleton, Frame.Refuses] <;> decide +kernel

theorem listPeers_not_refused {sents : List Sent} (h : s.handleListPeers nc frame = some sents) :
    ∀ sent ∈ sents, ¬ sent.2.Refuses := by
  unfold handleListPeers at h
  split_ifs at h
  · obtain rfl := Option.some.inj h
    simp only [List.forall_mem_singleton, Frame.Refuses]
    decide +kernel
  · split at h
    · cases h
    · obtain rfl := Option.some.inj h
      simp only [List.forall_mem_singleton, Frame.Refuses]
      decide +kernel

theorem create_dup (s : Server) (nc : NodeConn) (hname : frame.sessionID ≠ [])
    (hdup : (s.sessions.lookup frame.sessionID).isSome = true) :
    s.handleCreateSession nc frame = (s, [(nc.conn,
      { kind := .createSessionResp
        requestID := frame.requestID
        error := ascii "session already exists" })]) := by
  unfold handleCreateSession
  rw [if_neg hname]
  dsimp only
  rw [if_pos hdup]

theorem create_new (s : Server) (nc : NodeConn) (hname : frame.sessionID ≠ [])
    (hnew : s.sessions.lookup frame.sessionID = none) :
    (∀ sent ∈ (s.handleCreateSession nc frame).2, ¬ sent.2.Refuses) ∧
      ∀ sid, s.sessions.lookup sid = none → sid ≠ frame.sessionID →
        (s.handleCreateSession nc frame).1.sessions.lookup sid = none := by
  unfold handleCreateSession
  rw [if_neg hname]
  dsimp only
  rw [if_neg (by rw [hnew]; decide)]
  constructor
  · simp only [List.forall_mem_singleton, Frame.Refuses]
    decide +kernel
  · intro sid hsid hne
    show ((s.leave nc).setSession _ _).sessions.lookup sid = none
    rw [setSession, lookup_insert_eq, if_neg hne]
    exact lookup_leave_none hsid

theorem removeNode_counters (s : Server) (nodeID sid : Bytes) :
    (s.removeNodeFromSessionLocked nodeID sid).nodeCounter = s.nodeCounter ∧
      (s.removeNodeFromSessionLocked nodeID sid).sessionCounter = s.sessionCounter := by
  unfold removeNodeFromSessionLocked
  split
  · exact ⟨rfl, rfl⟩
  · dsimp only
    split_ifs <;> exact ⟨rfl, rfl⟩

theorem leave_counters (s : Server) (nc : NodeConn) :
    (s.leave nc).nodeCounter = s.nodeCounter ∧ (s.leave nc).sessionCounter = s.sessionCounter := by
  unfold leave
  split_ifs
  · exact removeNode_counters s _ _
  · exact ⟨rfl, rfl⟩

theorem join_counters (s : Server) (nc : NodeConn) (frame : Frame) :
    (s.handleJoinSession nc frame).1.nodeCounter = s.nodeCounter ∧
      (s.handleJoinSession nc frame).1.sessionCounter = s.sessionCounter := by
  have hleave := leave_counters s nc
  unfold handleJoinSession
  split_ifs
  · exact ⟨rfl, rfl⟩
  · exact ⟨rfl, rfl⟩
  · simp only [setNode, enter]
    split <;> exact hleave

theorem create_counters (s : Server) (nc : NodeConn) {frame : Frame} (hname : frame.sessionID ≠ []) :
    (s.handleCreateSession nc frame).1.nodeCounter = s.nodeCounter ∧
      (s.handleCreateSession nc frame).1.sessionCounter = s.sessionCounter := by
  unfold handleCreateSession
  rw [if_neg hname]
  dsimp only
  split_ifs
  · exact ⟨rfl, rfl⟩
  · exact leave_counters s nc

end Server

/-! ### What an event does to the names -/

/- Neither a request for a name nor a refusal. -/
def Place.Quiet : Place → Prop
  | .registering _ => False
  | .handling _ => False
  | .refusing frames => ∀ f ∈ frames, ¬ f.Refuses
  | .replying frames => ∀ f ∈ frames, ¬ f.Refuses
  | _ => True

namespace Hub

def placeAt (h : Hub) (c : ℕ) : Option Place := h.conns[c]?.map Conn.place

/- One goroutine goes on. -/
structure Goes (h h' : Hub) (c : ℕ) (p : Place) : Prop where
  self : h'.placeAt c = some p
  other : ∀ d, d ≠ c → h'.placeAt d = h.placeAt d

/- No name is added to the tables but these, and none drawn. -/
structure Kept (h h' : Hub) (node session : Option Bytes) : Prop where
  nodes : ∀ id, h.nodes.lookup id = none → some id ≠ node → h'.nodes.lookup id = none
  sessions : ∀ sid, h.tables.sessions.lookup sid = none → some sid ≠ session →
    h'.tables.sessions.lookup sid = none

def counters (h : Hub) : UInt64 × UInt64 := (h.tables.nodeCounter, h.tables.sessionCounter)

inductive Named (h h' : Hub) : Event → Prop where
  | quiet {e : Event} (hnote : ∀ w : Watch, w.note e = w.blank) (hkept : h.Kept h' none none)
      (hcount : h'.counters = h.counters)
      (hplaces : ∀ d, h'.placeAt d = h.placeAt d ∨ ∃ p, h'.placeAt d = some p ∧ p.Quiet) : Named h h' e
  | unfit {c : ℕ} {frame : Frame} {p : Place} (hkept : h.Kept h' none none)
      (hcount : h'.counters = h.counters) (hgoes : h.Goes h' c p) (hp : p.Quiet) : Named h h' (.hello c frame)
  | drawNode {c : ℕ} {frame : Frame} (hblank : frame.nodeID = []) (hkept : h.Kept h' none none)
      (hcount : h'.counters = (h.counters.1 + 1, h.counters.2))
      (hgoes : h.Goes h' c (.registering { frame with nodeID := nodeName (h.counters.1 + 1).toNat })) :
      Named h h' (.hello c frame)
  | chooseNode {c : ℕ} {frame : Frame} (hname : frame.nodeID ≠ []) (hkept : h.Kept h' none none)
      (hcount : h'.counters = h.counters) (hgoes : h.Goes h' c (.registering frame)) :
      Named h h' (.hello c frame)
  | enrol {c : ℕ} {now : ℤ} {frame : Frame} {p : Place} (hfrom : h.placeAt c = some (.registering frame))
      (hkept : h.Kept h' (some frame.nodeID) none) (hcount : h'.counters = h.counters)
      (hgoes : h.Goes h' c p) (hp : p.Quiet) : Named h h' (.register c now)
  | refuseNode {c : ℕ} {now : ℤ} {frame : Frame} {frames : List Frame}
      (hfrom : h.placeAt c = some (.registering frame)) (hdup : h.nodes.lookup frame.nodeID ≠ none)
      (hkept : h.Kept h' none none) (hcount : h'.counters = h.counters)
      (hgoes : h.Goes h' c (.refusing frames)) : Named h h' (.register c now)
  | receive {c : ℕ} {frame : Frame} {now : ℤ} (hkept : h.Kept h' none none)
      (hcount : h'.counters = h.counters) (hgoes : h.Goes h' c (.handling frame)) :
      Named h h' (.receive c frame now)
  | drawSession {c : ℕ} {now : ℤ} {frame : Frame} (hfrom : h.placeAt c = some (.handling frame))
      (hkind : frame.kind = .createSessionReq) (hblank : frame.sessionID = []) (hkept : h.Kept h' none none)
      (hcount : h'.counters = (h.counters.1, h.counters.2 + 1))
      (hgoes : h.Goes h' c (.handling { frame with sessionID := sessionName (h.counters.2 + 1).toNat })) :
      Named h h' (.handle c now)
  | create {c : ℕ} {now : ℤ} {frame : Frame} {p : Place} (hfrom : h.placeAt c = some (.handling frame))
      (hkind : frame.kind = .createSessionReq) (hname : frame.sessionID ≠ [])
      (hkept : h.Kept h' none (some frame.sessionID)) (hcount : h'.counters = h.counters)
      (hgoes : h.Goes h' c p) (hp : p.Quiet) : Named h h' (.handle c now)
  | refuseSession {c : ℕ} {now : ℤ} {frame : Frame} {frames : List Frame}
      (hfrom : h.placeAt c = some (.handling frame)) (hkind : frame.kind = .createSessionReq)
      (hname : frame.sessionID ≠ []) (hdup : h.tables.sessions.lookup frame.sessionID ≠ none)
      (hkept : h.Kept h' none none) (hcount : h'.counters = h.counters)
      (hgoes : h.Goes h' c (.replying frames)) : Named h h' (.handle c now)

variable {h h' : Hub} {e : Event} {c : ℕ} {k : Conn} {p : Place}

theorem placeAt_eq (hk : h.conns[c]? = some k) : h.placeAt c = some k.place := by
  rw [placeAt, hk]
  rfl

theorem placeAt_modify_ne (f : Conn → Conn) {d : ℕ} (hd : d ≠ c) :
    (h.modify c f).placeAt d = h.placeAt d := by
  rw [placeAt, modify_ne f hd, placeAt]

/- The tables may change in the same section. -/
theorem Goes.modify {b : Hub} {f : Conn → Conn} (hb : b.conns = h.conns) (hk : h.conns[c]? = some k)
    (hp : (f k).place = p) : h.Goes (b.modify c f) c p := by
  constructor
  · rw [placeAt, modify_self f (by rw [hb]; exact hk), Option.map_some, hp]
  · intro d hd
    rw [placeAt_modify_ne f hd, placeAt, hb, placeAt]

theorem Goes.quiet (hgoes : h.Goes h' c p) (hp : p.Quiet) (d : ℕ) :
    h'.placeAt d = h.placeAt d ∨ ∃ p, h'.placeAt d = some p ∧ p.Quiet := by
  by_cases hd : d = c
  · rw [hd]
    exact .inr ⟨p, hgoes.self, hp⟩
  · exact .inl (hgoes.other d hd)

/- An update that leaves the places alone. -/
theorem placeAt_modify (f : Conn → Conn) (hf : ∀ k, (f k).place = k.place) (d : ℕ) :
    (h.modify c f).placeAt d = h.placeAt d := by
  by_cases hd : d = c
  · subst hd
    rw [placeAt, placeAt, modify, List.getElem?_modify_eq]
    cases h.conns[d]? with
    | none => rfl
    | some k => exact congrArg some (hf k)
  · exact placeAt_modify_ne f hd

theorem placeAt_renewLease (nodeID : Bytes) (now : ℤ) (d : ℕ) :
    (h.renewLease nodeID now).placeAt d = h.placeAt d := by
  unfold renewLease
  split
  · rfl
  · apply placeAt_modify
    intro k
    rfl

theorem placeAt_post (c : ℕ) (frames : List Frame) (d : ℕ) : (h.post c frames).placeAt d = h.placeAt d := by
  apply placeAt_modify
  intro k
  rfl

theorem Goes.setPlace {b : Hub} (hb : ∀ d, b.placeAt d = h.placeAt d) (hk : h.conns[c]? = some k) (p : Place) :
    h.Goes (b.setPlace c p) c p := by
  obtain ⟨k', hk', -⟩ := Option.map_eq_some_iff.mp ((hb c).trans (placeAt_eq hk))
  have hgoes : b.Goes (b.setPlace c p) c p := .modify rfl hk' rfl
  refine ⟨hgoes.self, ?_⟩
  intro d hd
  rw [hgoes.other d hd, hb d]

/- The tables are as they were. -/
theorem Kept.of_eq (hnodes : h'.nodes = h.nodes) (hsess : h'.tables.sessions = h.tables.sessions) :
    h.Kept h' none none := by
  refine ⟨?_, ?_⟩
  · intro id hid _
    rwa [hnodes]
  · intro sid hsid _
    rwa [hsess]

theorem renewLease_tables (nodeID : Bytes) (now : ℤ) : (h.renewLease nodeID now).tables = h.tables := by
  unfold renewLease
  split <;> rfl

theorem Kept.disconnect (h : Hub) (nodeID : Bytes) : h.Kept (h.disconnect nodeID) none none := by
  refine ⟨?_, ?_⟩
  · intro id hid _
    cases hc : (h.disconnect nodeID).nodes.lookup id with
    | none => rfl
    | some c =>
      rw [lookup_of_disconnect hc] at hid
      cases hid
  · intro sid hsid _
    unfold Hub.disconnect
    split
    · exact hsid
    · split
      · exact hsid
      · exact Server.lookup_leave_none hsid

theorem disconnect_counters (nodeID : Bytes) : (h.disconnect nodeID).counters = h.counters := by
  unfold Hub.disconnect
  split
  · rfl
  · split
    · rfl
    · rename_i k _
      obtain ⟨hn, hs⟩ := Server.leave_counters h.tables k.record
      exact Prod.ext hn hs

theorem Named.hello {frame : Frame} (hk : h.conns[c]? = some k) : Named h (h.hello c frame) (.hello c frame) := by
  unfold Hub.hello
  split_ifs with hkind hname
  · refine .unfit (.of_eq rfl rfl) rfl (.modify rfl hk rfl) ?_
    simp only [Place.Quiet, List.forall_mem_singleton, Frame.Refuses]
    decide +kernel
  · exact .drawNode hname (.of_eq rfl rfl) rfl (.modify rfl hk rfl)
  · exact .chooseNode hname (.of_eq rfl rfl) rfl (.modify rfl hk rfl)

theorem Named.register {frame : Frame} {now : ℤ} (hk : h.conns[c]? = some k)
    (hp : k.place = .registering frame) : Named h (h.register c frame now) (.register c now) := by
  have hfrom : h.placeAt c = some (.registering frame) := by rw [placeAt_eq hk, hp]
  unfold Hub.register
  split_ifs with hdup
  · exact .refuseNode hfrom (Option.isSome_iff_ne_none.mp hdup) (.of_eq rfl rfl) rfl (.modify rfl hk rfl)
  · refine .enrol hfrom ⟨?_, fun _ hsid _ => hsid⟩ rfl (.modify rfl hk rfl) ?_
    · intro id hid hne
      show (h.nodes.insert frame.nodeID c).lookup id = none
      rw [lookup_insert_eq, if_neg fun heq => hne (congrArg some heq)]
      exact hid
    · simp only [Place.Quiet, List.forall_mem_singleton, Frame.Refuses]
      decide +kernel

/- An answer without a refusal. -/
theorem quiet_replying {sents : List Sent} (hsents : ∀ sent ∈ sents, ¬ sent.2.Refuses) :
    (Place.replying (sents.map Prod.snd)).Quiet := by
  intro f hf
  obtain ⟨sent, hsent, rfl⟩ := List.mem_map.mp hf
  exact hsents sent hsent

theorem Named.answer {now : ℤ} {sents : List Sent} (hk : h.conns[c]? = some k)
    (hsents : ∀ sent ∈ sents, ¬ sent.2.Refuses) : Named h (h.answer c sents) (.handle c now) := by
  have hgoes : h.Goes (h.answer c sents) c (.replying (sents.map Prod.snd)) := .modify rfl hk rfl
  exact .quiet (fun _ => rfl) (.of_eq rfl rfl) rfl (hgoes.quiet (quiet_replying hsents))

theorem heartbeat_not_refused (nc : NodeConn) (frame : Frame) (now : ℤ) :
    ∀ sent ∈ h.heartbeat nc frame now, ¬ sent.2.Refuses := by
  unfold heartbeat Server.handleHeartbeat
  split_ifs <;> simp only [List.forall_mem_singleton, Frame.Refuses] <;> decide +kernel

theorem Named.of_create {frame : Frame} {now : ℤ} (hk : h.conns[c]? = some k)
    (hp : k.place = .handling frame) (hkind : frame.kind = .createSessionReq) (hname : frame.sessionID ≠ []) :
    Named h (h.commit c (·.handleCreateSession k.record frame)) (.handle c now) := by
  have hfrom : h.placeAt c = some (.handling frame) := by rw [placeAt_eq hk, hp]
  have hcount := Server.create_counters { h.tables with nodes := ∅ } k.record hname
  cases hdup : h.tables.sessions.lookup frame.sessionID with
  | none =>
    obtain ⟨hsents, hsess⟩ := Server.create_new { h.tables with nodes := ∅ } k.record hname hdup
    refine .create hfrom hkind hname ⟨fun _ hid _ => hid, ?_⟩ (Prod.ext hcount.1 hcount.2) (.modify rfl hk rfl)
      (quiet_replying hsents)
    intro sid hsid hne
    exact hsess sid hsid fun heq => hne (congrArg some heq)
  | some sess =>
    have hrun := Server.create_dup { h.tables with nodes := ∅ } k.record hname (by rw [hdup]; rfl)
    refine .refuseSession hfrom hkind hname (by rw [hdup]; nofun) ⟨fun _ hid _ => hid, ?_⟩
      (Prod.ext hcount.1 hcount.2) (.modify rfl hk rfl)
    intro sid hsid _
    show (Server.handleCreateSession _ k.record frame).1.sessions.lookup sid = none
    rw [hrun]
    exact hsid

theorem Named.join {frame : Frame} {now : ℤ} (hk : h.conns[c]? = some k) :
    Named h (h.commit c (·.handleJoinSession k.record frame)) (.handle c now) := by
  have hcount := Server.join_counters { h.tables with nodes := ∅ } k.record frame
  have hgoes : h.Goes (h.commit c (·.handleJoinSession k.record frame)) c (.replying
      ((Server.handleJoinSession { h.tables with nodes := ∅ } k.record frame).2.map Prod.snd)) :=
    .modify rfl hk rfl
  refine .quiet (fun _ => rfl) ⟨fun _ hid _ => hid, ?_⟩ (Prod.ext hcount.1 hcount.2)
    (hgoes.quiet (quiet_replying Server.join_not_refused))
  intro sid hsid _
  exact Server.lookup_join_none (s := { h.tables with nodes := ∅ }) hsid

/- Renewing a lease names nothing. -/
theorem Kept.renewed {nodeID : Bytes} {now : ℤ} (p : Place) :
    h.Kept ((h.renewLease nodeID now).setPlace c p) none none :=
  .of_eq (renewLease_nodes ..) (congrArg Server.sessions (renewLease_tables ..))

theorem counters_renewed {nodeID : Bytes} {now : ℤ} (p : Place) :
    ((h.renewLease nodeID now).setPlace c p).counters = h.counters := by
  exact congrArg (fun s : Server => (s.nodeCounter, s.sessionCounter)) (renewLease_tables ..)

theorem Named.handle {frame : Frame} {now : ℤ} (hk : h.conns[c]? = some k)
    (hp : k.place = .handling frame) (hh : Handles h c k.record frame now h') :
    Named h h' (.handle c now) := by
  have hfrom : h.placeAt c = some (.handling frame) := by rw [placeAt_eq hk, hp]
  cases hh with
  | draw hkind hname => exact .drawSession hfrom hkind hname (.of_eq rfl rfl) rfl (.modify rfl hk rfl)
  | create hkind hname => exact .of_create hk hp hkind hname
  | joinNowhere => exact .answer hk Server.join_not_refused
  | join => exact .join hk
  | listPeers _ hsents => exact .answer hk (Server.listPeers_not_refused hsents)
  | listSessions =>
    refine .answer hk ?_
    simp only [Server.handleListSessions, List.forall_mem_singleton, Frame.Refuses]
    decide +kernel
  | heartbeat =>
    exact .quiet (fun _ => rfl) (.renewed _) (counters_renewed _)
      ((Goes.setPlace (placeAt_renewLease _ _) hk _).quiet (quiet_replying (heartbeat_not_refused _ _ _)))
  | startRefused =>
    refine .answer hk ?_
    simp only [List.forall_mem_singleton, Frame.Refuses]
    decide +kernel
  | start => exact .quiet (fun _ => rfl) (.of_eq rfl rfl) rfl (Goes.quiet (.modify rfl hk rfl) trivial)
  | unknown =>
    refine .answer hk ?_
    simp only [List.forall_mem_singleton, Frame.Refuses]
    decide +kernel

/- A step of one goroutine that has nothing to do with names. -/
theorem Named.goes {e : Event} (hnote : ∀ w : Watch, w.note e = w.blank) (hgoes : h.Goes h' c p) (hp : p.Quiet)
    (hnodes : h'.nodes = h.nodes) (htables : h'.tables = h.tables) : Named h h' e :=
  .quiet hnote (.of_eq hnodes (congrArg Server.sessions htables))
    (congrArg (fun s : Server => (s.nodeCounter, s.sessionCounter)) htables) (hgoes.quiet hp)

theorem Named.send {start : Frame} (hk : h.conns[c]? = some k) (rest : List Bytes) :
    Named h (h.send c start rest) (.send c) := by
  cases rest with
  | nil => exact .goes (fun _ => rfl) (.modify rfl hk rfl) trivial rfl rfl
  | cons id rest =>
    rw [Hub.send]
    split
    · exact .goes (fun _ => rfl) (.modify rfl hk rfl) trivial rfl rfl
    · exact .goes (fun _ => rfl) (.setPlace (placeAt_post _ _) hk _) trivial rfl rfl

/- A connection is fresh when it comes. -/
theorem Named.accept (hs : h.step .accept = some h') : Named h h' .accept := by
  obtain rfl := Option.some.inj hs
  refine .quiet (fun _ => rfl) (.of_eq rfl rfl) rfl ?_
  intro d
  rcases Nat.lt_trichotomy d h.conns.length with hd | rfl | hd
  · refine .inl ?_
    rw [placeAt, List.getElem?_append_left hd, placeAt]
  · refine .inr ⟨.fresh, ?_, trivial⟩
    rw [placeAt, List.getElem?_append_right (le_refl _), Nat.sub_self]
    rfl
  · refine .inl ?_
    rw [placeAt, placeAt, List.getElem?_eq_none (Nat.le_of_lt hd),
      List.getElem?_eq_none (by rw [List.length_append]; exact hd)]

theorem step_named (hs : h.step e = some h') : Named h h' e := by
  cases step_acts hs with
  | accept => exact .accept hs
  | hello hk => exact .hello hk
  | register hk hp => exact .register hk hp
  | receive hk => exact .receive (.renewed _) (counters_renewed _) (.setPlace (placeAt_renewLease _ _) hk _)
  | handle hk hp hh => exact .handle hk hp hh
  | broadcast hk => exact .goes (fun _ => rfl) (.modify rfl hk rfl) trivial rfl rfl
  | send hk => exact .send hk _
  | reply hk => exact .goes (fun _ => rfl) (.setPlace (placeAt_post _ _) hk _) trivial rfl rfl
  | refuse hk => exact .goes (fun _ => rfl) (.setPlace (placeAt_post _ _) hk _) trivial rfl rfl
  | forget hk => exact .goes (fun _ => rfl) (.modify rfl hk rfl) trivial rfl rfl
  | leave hk => exact .goes (fun _ => rfl) (.modify rfl hk rfl) trivial rfl rfl
  | @disconnect c k hk =>
    have hgoes : h.Goes ((h.disconnect k.record.id).setPlace c .ended) c .ended :=
      .modify (disconnect_conns _) hk rfl
    have hkept := Kept.disconnect h k.record.id
    exact .quiet (fun _ => rfl) ⟨hkept.nodes, hkept.sessions⟩ (disconnect_counters _) (hgoes.quiet trivial)
  | scan => exact .quiet (fun _ => rfl) (.of_eq rfl rfl) rfl fun _ => .inl rfl
  | @reap id c =>
    have hkept := Kept.disconnect { h with expired := h.expired.erase (id, c) } id
    refine .quiet (fun _ => rfl) ⟨hkept.nodes, hkept.sessions⟩ (disconnect_counters _) fun d => .inl ?_
    rw [placeAt, disconnect_conns]
    rfl
  | process =>
    refine .quiet (fun _ => rfl) (.of_eq rfl rfl) rfl fun d => .inl ?_
    exact placeAt_modify _ (fun k => (process_record k).2) d

end Hub

/-! ### The two registries -/

/- The id a goroutine is about to register. -/
def Place.nodeRequest : Place → Option Bytes
  | .registering frame => some frame.nodeID
  | _ => none

/- The session a goroutine is about to create, once it has a name. -/
def Place.sessionRequest : Place → Option Bytes
  | .handling frame =>
    if frame.kind = .createSessionReq ∧ frame.sessionID ≠ [] then some frame.sessionID else none
  | _ => none

namespace Hub

def nodeDesk (h : Hub) : Registry ℕ Bytes where
  taken := {id | h.nodes.lookup id ≠ none}
  counter := h.counters.1.toNat
  pending c := (h.placeAt c).bind Place.nodeRequest

def sessionDesk (h : Hub) : Registry ℕ Bytes where
  taken := {sid | h.tables.sessions.lookup sid ≠ none}
  counter := h.counters.2.toNat
  pending c := (h.placeAt c).bind Place.sessionRequest

variable {h h' : Hub} {e : Event} {c : ℕ} {p : Place} {node session : Option Bytes}

theorem quiet_requests (hp : p.Quiet) : p.nodeRequest = none ∧ p.sessionRequest = none := by
  cases p <;> first | exact ⟨rfl, rfl⟩ | exact absurd hp id

theorem Goes.request (hgoes : h.Goes h' c p) (req : Place → Option Bytes) :
    (h'.placeAt c).bind req = req p ∧ ∀ d, d ≠ c → (h'.placeAt d).bind req = (h.placeAt d).bind req := by
  refine ⟨by rw [hgoes.self]; rfl, ?_⟩
  intro d hd
  rw [hgoes.other d hd]

/- A goroutine that goes on without a request. -/
theorem Goes.dropped (hgoes : h.Goes h' c p) {req : Place → Option Bytes} (hreq : req p = none) (d : ℕ) :
    (h'.placeAt d).bind req = (h.placeAt d).bind req ∨ (h'.placeAt d).bind req = none := by
  by_cases hd : d = c
  · rw [hd, (hgoes.request req).1]
    exact .inr hreq
  · exact .inl ((hgoes.request req).2 d hd)

theorem requests_dropped
    (hplaces : ∀ d, h'.placeAt d = h.placeAt d ∨ ∃ p, h'.placeAt d = some p ∧ p.Quiet)
    {req : Place → Option Bytes} (hreq : ∀ {p}, p.Quiet → req p = none) (d : ℕ) :
    (h'.placeAt d).bind req = (h.placeAt d).bind req ∨ (h'.placeAt d).bind req = none := by
  rcases hplaces d with heq | ⟨p, hp, hquiet⟩
  · rw [heq]
    exact .inl rfl
  · rw [hp]
    exact .inr (hreq hquiet)

theorem Kept.taken_nodes (hkept : h.Kept h' none session) : h'.nodeDesk.taken ⊆ h.nodeDesk.taken := by
  intro id hid hnone
  exact hid (hkept.nodes id hnone nofun)

theorem Kept.taken_sessions (hkept : h.Kept h' node none) : h'.sessionDesk.taken ⊆ h.sessionDesk.taken := by
  intro sid hsid hnone
  exact hsid (hkept.sessions sid hnone nofun)

theorem counter_succ {v : UInt64} (h : v.toNat + 1 < 2 ^ 64) : (v + 1).toNat = v.toNat + 1 := by
  rw [UInt64.toNat_add]
  exact Nat.mod_eq_of_lt h

theorem ne_of_not_generated {stem name : Bytes} (h : generated stem name = false) (i : ℕ) :
    name ≠ stem ++ decimal i := by
  rintro rfl
  rw [generated_append] at h
  cases h

theorem nodeDesk_move {w : Watch} (hok : w.OwnNames e) (hm : Named w.hub h' e) :
    Registry.Move nodeName w.hub.nodeDesk h'.nodeDesk := by
  cases hm with
  | quiet _ hkept hcount hplaces =>
    exact .release hkept.taken_nodes (congrArg (·.1.toNat) hcount)
      (requests_dropped hplaces fun hp => (quiet_requests hp).1)
  | unfit hkept hcount hgoes hp =>
    exact .release hkept.taken_nodes (congrArg (·.1.toNat) hcount) (hgoes.dropped (quiet_requests hp).1)
  | @drawNode c frame hblank hkept hcount hgoes =>
    have hsucc : h'.nodeDesk.counter = w.hub.nodeDesk.counter + 1 :=
      (congrArg (·.1.toNat) hcount).trans (counter_succ hok.2)
    refine .draw c hkept.taken_nodes hsucc ?_ (hgoes.request _).2
    exact (hgoes.request _).1.trans (congrArg (fun i => some (nodeName i)) (counter_succ hok.2))
  | @chooseNode c frame hname hkept hcount hgoes =>
    exact .choose c frame.nodeID hkept.taken_nodes (congrArg (·.1.toNat) hcount) (ne_of_not_generated hok.1)
      (hgoes.request _).1 (hgoes.request _).2
  | @enrol c now frame p hfrom hkept hcount hgoes hp =>
    refine .take c frame.nodeID ?_ ?_ (congrArg (·.1.toNat) hcount)
      ((hgoes.request _).1.trans (quiet_requests hp).1) (hgoes.request _).2
    · show (w.hub.placeAt c).bind _ = _
      rw [hfrom]
      rfl
    · intro id hid
      by_cases heq : id = frame.nodeID
      · exact .inl heq
      · exact .inr fun hnone => hid (hkept.nodes id hnone fun h => heq (Option.some.inj h))
  | refuseNode _ _ hkept hcount hgoes =>
    exact .release hkept.taken_nodes (congrArg (·.1.toNat) hcount) (hgoes.dropped rfl)
  | receive hkept hcount hgoes =>
    exact .release hkept.taken_nodes (congrArg (·.1.toNat) hcount) (hgoes.dropped rfl)
  | drawSession _ _ _ hkept hcount hgoes =>
    exact .release hkept.taken_nodes (congrArg (·.1.toNat) hcount) (hgoes.dropped rfl)
  | create _ _ _ hkept hcount hgoes hp =>
    exact .release hkept.taken_nodes (congrArg (·.1.toNat) hcount) (hgoes.dropped (quiet_requests hp).1)
  | refuseSession _ _ _ _ hkept hcount hgoes =>
    exact .release hkept.taken_nodes (congrArg (·.1.toNat) hcount) (hgoes.dropped rfl)

theorem sessionDesk_move {w : Watch} (hok : w.OwnNames e) (hm : Named w.hub h' e) :
    Registry.Move sessionName w.hub.sessionDesk h'.sessionDesk := by
  cases hm with
  | quiet _ hkept hcount hplaces =>
    exact .release hkept.taken_sessions (congrArg (·.2.toNat) hcount)
      (requests_dropped hplaces fun hp => (quiet_requests hp).2)
  | unfit hkept hcount hgoes hp =>
    exact .release hkept.taken_sessions (congrArg (·.2.toNat) hcount) (hgoes.dropped (quiet_requests hp).2)
  | drawNode _ hkept hcount hgoes =>
    exact .release hkept.taken_sessions (congrArg (·.2.toNat) hcount) (hgoes.dropped rfl)
  | chooseNode _ hkept hcount hgoes =>
    exact .release hkept.taken_sessions (congrArg (·.2.toNat) hcount) (hgoes.dropped rfl)
  | enrol _ hkept hcount hgoes hp =>
    exact .release hkept.taken_sessions (congrArg (·.2.toNat) hcount) (hgoes.dropped (quiet_requests hp).2)
  | refuseNode _ _ hkept hcount hgoes =>
    exact .release hkept.taken_sessions (congrArg (·.2.toNat) hcount) (hgoes.dropped rfl)
  | @receive c frame now hkept hcount hgoes =>
    by_cases hask : frame.kind = .createSessionReq ∧ frame.sessionID ≠ []
    · refine .choose c frame.sessionID hkept.taken_sessions (congrArg (·.2.toNat) hcount)
        (ne_of_not_generated (hok hask.1)) ?_ (hgoes.request _).2
      exact (hgoes.request _).1.trans (if_pos hask)
    · exact .release hkept.taken_sessions (congrArg (·.2.toNat) hcount) (hgoes.dropped (if_neg hask))
  | @drawSession c now frame _ hkind _ hkept hcount hgoes =>
    have hsucc : h'.sessionDesk.counter = w.hub.sessionDesk.counter + 1 :=
      (congrArg (·.2.toNat) hcount).trans (counter_succ hok)
    refine .draw c hkept.taken_sessions hsucc ?_ (hgoes.request _).2
    refine (hgoes.request _).1.trans ((if_pos ⟨hkind, List.cons_ne_nil _ _⟩).trans ?_)
    exact congrArg (fun i => some (sessionName i)) (counter_succ hok)
  | @create c now frame p hfrom hkind hname hkept hcount hgoes hp =>
    refine .take c frame.sessionID ?_ ?_ (congrArg (·.2.toNat) hcount)
      ((hgoes.request _).1.trans (quiet_requests hp).2) (hgoes.request _).2
    · show (w.hub.placeAt c).bind _ = _
      rw [hfrom]
      exact if_pos ⟨hkind, hname⟩
    · intro sid hsid
      by_cases heq : sid = frame.sessionID
      · exact .inl heq
      · exact .inr fun hnone => hsid (hkept.sessions sid hnone fun h => heq (Option.some.inj h))
  | refuseSession _ _ _ _ hkept hcount hgoes =>
    exact .release hkept.taken_sessions (congrArg (·.2.toNat) hcount) (hgoes.dropped rfl)

end Hub

/-! ### Names left to the server are free -/

/- Where a request that left its name open can be. -/
def Place.Told : Place → Prop
  | .registering frame => ∃ i, frame.nodeID = nodeName i
  | .handling frame =>
    frame.kind = .createSessionReq ∧ (frame.sessionID = [] ∨ ∃ i, frame.sessionID = sessionName i)
  | .refusing frames => ∀ f ∈ frames, ¬ f.Refuses
  | .replying frames => ∀ f ∈ frames, ¬ f.Refuses
  | _ => True

theorem Place.Quiet.told {p : Place} (hp : p.Quiet) : p.Told := by
  cases p <;> first | exact hp | exact absurd hp id

namespace Watch

structure Served (w : Watch) : Prop where
  nodes : Registry.Fresh nodeName w.hub.nodeDesk
  sessions : Registry.Fresh sessionName w.hub.sessionDesk
  told : ∀ c p, w.hub.placeAt c = some p → w.blank c = true → p.Told

variable {w w' : Watch} {e : Event} {c : ℕ} {frame : Frame}

theorem Served.node_free (hs : w.Served) (hfrom : w.hub.placeAt c = some (.registering frame))
    (hblank : w.blank c = true) : w.hub.nodes.lookup frame.nodeID = none := by
  obtain ⟨i, hi⟩ := hs.told c _ hfrom hblank
  have hpending : w.hub.nodeDesk.pending c = some (nodeName i) := by
    show (w.hub.placeAt c).bind _ = _
    rw [hfrom, ← hi]
    rfl
  rw [hi]
  exact not_not.mp (hs.nodes.free c i hpending)

theorem Served.session_free (hs : w.Served) (hfrom : w.hub.placeAt c = some (.handling frame))
    (hname : frame.sessionID ≠ []) (hblank : w.blank c = true) :
    w.hub.tables.sessions.lookup frame.sessionID = none := by
  obtain ⟨hkind, hopen | ⟨i, hi⟩⟩ := hs.told c _ hfrom hblank
  · exact absurd hopen hname
  · have hpending : w.hub.sessionDesk.pending c = some (sessionName i) := by
      show (w.hub.placeAt c).bind _ = _
      rw [hfrom, ← hi]
      exact if_pos ⟨hkind, hname⟩
    rw [hi]
    exact not_not.mp (hs.sessions.free c i hpending)

theorem Served.told_step {h' : Hub} (hs : w.Served) (hm : Hub.Named w.hub h' e) {d : ℕ} {p : Place}
    (hp : h'.placeAt d = some p) (hblank : w.note e d = true) : p.Told := by
  -- the goroutine that moved, or another one, whose request is the old one
  have hother : ∀ {c : ℕ} {q : Place}, w.hub.Goes h' c q → (d ≠ c → w.note e d = w.blank d) →
      (d = c → q.Told) → p.Told := by
    intro c q hgoes hnote hq
    by_cases hd : d = c
    · subst hd
      rw [hgoes.self] at hp
      exact Option.some.inj hp ▸ hq rfl
    · rw [hgoes.other d hd] at hp
      rw [hnote hd] at hblank
      exact hs.told d p hp hblank
  cases hm with
  | quiet hnote _ _ hplaces =>
    rcases hplaces d with heq | ⟨q, hq, hquiet⟩
    · rw [heq] at hp
      rw [hnote] at hblank
      exact hs.told d p hp hblank
    · rw [hq] at hp
      exact Option.some.inj hp ▸ hquiet.told
  | unfit _ _ hgoes hquiet => exact hother hgoes (fun hd => Function.update_of_ne hd _ _) fun _ => hquiet.told
  | drawNode _ _ _ hgoes => exact hother hgoes (fun hd => Function.update_of_ne hd _ _) fun _ => ⟨_, rfl⟩
  | chooseNode hname _ _ hgoes =>
    refine hother hgoes (fun hd => Function.update_of_ne hd _ _) ?_
    rintro rfl
    rw [note, Function.update_self, decide_eq_true_eq] at hblank
    exact absurd hblank hname
  | enrol _ _ _ hgoes hquiet => exact hother hgoes (fun _ => rfl) fun _ => hquiet.told
  | refuseNode hfrom hdup _ _ hgoes =>
    refine hother hgoes (fun _ => rfl) ?_
    rintro rfl
    exact absurd (hs.node_free hfrom hblank) hdup
  | receive _ _ hgoes =>
    refine hother hgoes (fun hd => Function.update_of_ne hd _ _) ?_
    rintro rfl
    rw [note, Function.update_self, decide_eq_true_eq] at hblank
    exact ⟨hblank.1, .inl hblank.2⟩
  | drawSession hfrom hkind _ _ _ hgoes => exact hother hgoes (fun _ => rfl) fun _ => ⟨hkind, .inr ⟨_, rfl⟩⟩
  | create _ _ _ _ _ hgoes hquiet => exact hother hgoes (fun _ => rfl) fun _ => hquiet.told
  | refuseSession hfrom _ hname hdup _ _ hgoes =>
    refine hother hgoes (fun _ => rfl) ?_
    rintro rfl
    exact absurd (hs.session_free hfrom hname hblank) hdup

theorem Served.step (hs : w.Served) (hok : w.OwnNames e) (hstep : w.step e = some w') : w'.Served := by
  obtain ⟨h', hh, rfl⟩ := Option.map_eq_some_iff.mp hstep
  have hm := Hub.step_named hh
  exact ⟨hs.nodes.move nodeName_injective (Hub.nodeDesk_move hok hm),
    hs.sessions.move sessionName_injective (Hub.sessionDesk_move hok hm), fun _ _ => hs.told_step hm⟩

theorem Served.start (cfg : Config) : (Watch.start cfg).Served where
  nodes := .empty (fun _ hn => hn rfl) fun _ => rfl
  sessions := .empty (fun _ hn => hn rfl) fun _ => rfl
  told c p hp := by
    have hnone : (Watch.start cfg).hub.placeAt c = none := rfl
    rw [hnone] at hp
    cases hp

theorem Served.usable (hs : w.Served) : w.Usable := by
  intro c k hk hblank f hf
  have htold := hs.told c _ (Hub.placeAt_eq hk) hblank
  cases hp : k.place <;> rw [hp] at hf htold <;> first | exact htold f hf | cases hf

/-- A name the server draws is free when it is used. -/
theorem generated_names_usable {cfg : Config} {es : List Event}
    (ht : Trace Watch.step OwnNames (Watch.start cfg) es w) : w.Usable :=
  (ht.keeps (Served.start cfg) fun _ _ _ hok hstep hs => hs.step hok hstep).usable

/- A connection that has its id drawn and then the name of its session. -/
def unnamed : List Event :=
  Hub.enrol 0 [] 0 ++ [.receive 0 { kind := .createSessionReq } 0, .handle 0 0, .handle 0 0]

theorem unnamed_usable : (run Watch.step OwnNames (Watch.start sampleConfig) unnamed).Usable :=
  generated_names_usable (run_trace (by decide +kernel))

/- A client calls itself "node-1" and its session "session-1"; the next one leaves both to the server. -/
def squatted : List Event :=
  Hub.enrol 0 (nodeName 1) 0 ++ [.accept, .hello 1 { kind := .registerReq }, .register 1 0]

def squattedSession : List Event :=
  Hub.enrol 0 Hub.aliceID 0 ++ Hub.enrol 1 [] 0 ++
    [.receive 0 { kind := .createSessionReq, sessionID := sessionName 1 } 0, .handle 0 0,
      .receive 1 { kind := .createSessionReq } 0, .handle 1 0, .handle 1 0]

theorem generated_names_refused :
    (∃ w, Trace Watch.step Free (Watch.start sampleConfig) squatted w ∧ ¬ w.Usable) ∧
    ∃ w, Trace Watch.step Free (Watch.start sampleConfig) squattedSession w ∧ ¬ w.Usable := by
  have hrefused : ∀ w : Watch, w.blank 1 = true →
      ((w.hub.conns[1]?.map fun k => k.place.answers.map fun f => decide f.Refuses) = some [true]) → ¬ w.Usable := by
    intro w hblank hanswers husable
    obtain ⟨k, hk, hfs⟩ := Option.map_eq_some_iff.mp hanswers
    obtain ⟨f, hf, hrefuses⟩ := List.map_eq_singleton_iff.mp hfs
    exact husable 1 k hk hblank f (by rw [hf]; exact List.mem_cons_self ..) (of_decide_eq_true hrefuses)
  exact ⟨⟨run Watch.step Free (Watch.start sampleConfig) squatted, run_trace (by decide +kernel),
      hrefused _ (by decide +kernel) (by decide +kernel)⟩,
    ⟨run Watch.step Free (Watch.start sampleConfig) squattedSession, run_trace (by decide +kernel),
      hrefused _ (by decide +kernel) (by decide +kernel)⟩⟩

end Watch

end P2Poker.Dispatch
