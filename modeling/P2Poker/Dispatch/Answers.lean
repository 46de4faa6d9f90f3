import P2Poker.Dispatch.Delivery

/-!
# Requests and their answers

The goroutine of a connection handles one frame after the other, and answers each
of them with at most one frame, which carries its request id. Broadcasts carry no
request id. So of the ids that a node has sent on a connection, none is on its way
back more often than it was sent.
-/

namespace P2Poker.Dispatch
open P2Poker.Lib

/- The kind of the answer to a frame. -/
def Kind.answer : Kind → Kind
  | .createSessionReq => .createSessionResp
  | .joinSessionReq => .joinSessionResp
  | .listPeersReq => .listPeersResp
  | .listSessionsReq => .listSessionsResp
  | .heartbeatReq => .heartbeatResp
  | kind => kind

/-- What the caller of a request relies on in its answer. -/
structure Frame.Answers (req f : Frame) : Prop where
  id : f.requestID = req.requestID
  kind : f.kind = req.kind.answer
  failed : f.success = false → f.error ≠ []
  session : f.success = true → req.kind = .createSessionReq ∨ req.kind = .joinSessionReq →
    f.sessionID ≠ [] ∧ (req.sessionID ≠ [] → f.sessionID = req.sessionID)
  -- ListPeers reads an address for every id
  peers : f.kind = .listPeersResp → f.peerIDs.length = f.peerAddresses.length

/- The request ids that frames carry. -/
def idsOf (frames : List Frame) : Multiset Bytes := ((frames.map Frame.requestID).filter fun r => r ≠ [] : List Bytes)

theorem idsOf_append (fs gs : List Frame) : idsOf (fs ++ gs) = idsOf fs + idsOf gs := by
  simp [idsOf]

theorem idsOf_cons (f : Frame) (fs : List Frame) : idsOf (f :: fs) = idsOf [f] + idsOf fs := idsOf_append [f] fs

theorem idsOf_silent {f : Frame} (h : f.requestID = []) : idsOf [f] = 0 := by
  simp [idsOf, h]

theorem idsOf_le_of_sublist {fs gs : List Frame} (h : fs.Sublist gs) : idsOf fs ≤ idsOf gs :=
  Multiset.coe_le.mpr ((h.map _).filter _).subperm

theorem mem_idsOf {fs : List Frame} {f : Frame} (hf : f ∈ fs) (hid : f.requestID ≠ []) : f.requestID ∈ idsOf fs :=
  Multiset.mem_coe.mpr (List.mem_filter.mpr ⟨List.mem_map_of_mem hf, by simpa using hid⟩)

/-! ### What a handler answers -/

/-- The place of a goroutine after its handler's section. -/
inductive Replies (frame : Frame) : Place → Prop
  | named {sid : Bytes} : frame.kind = .createSessionReq → frame.sessionID = [] → sid ≠ [] →
      Replies frame (.handling { frame with sessionID := sid })
  | answer {f : Frame} : frame.Answers f → Replies frame (.replying [f])
  -- a game start is not answered, it is broadcast or refused
  | silent {f : Frame} : frame.kind = .gameStart → f.requestID = [] → Replies frame (.replying [f])
  | start {f : Frame} : frame.kind = .gameStart → f.requestID = [] → Replies frame (.starting f)

namespace Server
variable {s : Server} {nc : NodeConn} {frame : Frame}

theorem nextSessionID_ne_nil (s : Server) : s.nextSessionID.1 ≠ [] := by
  simp [nextSessionID, ascii]

theorem handleCreateSession_replies (hkind : frame.kind = .createSessionReq) (hname : frame.sessionID ≠ []) :
    Replies frame (.replying ((s.handleCreateSession nc frame).2.map Prod.snd)) := by
  unfold handleCreateSession
  rw [if_neg hname]
  dsimp only
  split_ifs
  · exact .answer ⟨rfl, by rw [hkind]; rfl, fun _ => by simp [ascii], by simp, by simp⟩
  · exact .answer ⟨rfl, by rw [hkind]; rfl, by simp, fun _ _ => ⟨hname, fun _ => rfl⟩, by simp⟩

theorem handleJoinSession_replies (hkind : frame.kind = .joinSessionReq) :
    Replies frame (.replying ((s.handleJoinSession nc frame).2.map Prod.snd)) := by
  unfold handleJoinSession
  split_ifs with hname
  · exact .answer ⟨rfl, by rw [hkind]; rfl, fun _ => by simp [ascii], by simp, by simp⟩
  · exact .answer ⟨rfl, by rw [hkind]; rfl, fun _ => by simp [ascii], by simp, by simp⟩
  · exact .answer ⟨rfl, by rw [hkind]; rfl, by simp, fun _ _ => ⟨hname, fun _ => rfl⟩, by simp⟩

theorem handleListPeers_replies {sents : List Sent} (hkind : frame.kind = .listPeersReq)
    (h : s.handleListPeers nc frame = some sents) : Replies frame (.replying (sents.map Prod.snd)) := by
  have hnot : ¬ (frame.kind = .createSessionReq ∨ frame.kind = .joinSessionReq) := by simp [hkind]
  unfold handleListPeers at h
  split_ifs at h
  · obtain rfl := Option.some.inj h
    exact .answer ⟨rfl, by rw [hkind]; rfl, fun _ => by simp [ascii], fun _ hk => absurd hk hnot, fun _ => rfl⟩
  · split at h
    · cases h
    · obtain rfl := Option.some.inj h
      exact .answer ⟨rfl, by rw [hkind]; rfl, by simp, fun _ hk => absurd hk hnot, fun _ => by simp⟩

end Server

theorem Hub.heartbeat_replies {h : Hub} {nc : NodeConn} {frame : Frame} {now : ℤ}
    (hkind : frame.kind = .heartbeatReq) : Replies frame (.replying ((h.heartbeat nc frame now).map Prod.snd)) := by
  have hnot : ¬ (frame.kind = .createSessionReq ∨ frame.kind = .joinSessionReq) := by simp [hkind]
  unfold Hub.heartbeat
  split_ifs
  · exact .answer ⟨rfl, by rw [hkind]; rfl, by simp, fun _ hk => absurd hk hnot, by simp⟩
  · exact .answer ⟨rfl, by rw [hkind]; rfl, by simp, fun _ hk => absurd hk hnot, by simp⟩

namespace Hub
variable {h h' : Hub} {c d : ℕ} {k k' : Conn} {e : Event}

theorem of_setPlace {p : Place} (hk' : (h.setPlace c p).conns[d]? = some k') :
    ∃ k, h.conns[d]? = some k ∧ k'.inbox = k.inbox ∧ (d = c ∧ k'.place = p ∨ d ≠ c ∧ k'.place = k.place) := by
  rcases of_modify hk' with ⟨k, rfl, hk, rfl⟩ | ⟨hne, hk⟩
  · exact ⟨k, hk, rfl, .inl ⟨rfl, rfl⟩⟩
  · exact ⟨k', hk, rfl, .inr ⟨hne, rfl⟩⟩

theorem of_commit {run : Server → Server × List Sent} (hk' : (h.commit c run).conns[d]? = some k') :
    ∃ k, h.conns[d]? = some k ∧ k'.inbox = k.inbox ∧
      (d = c ∧ k'.place = .replying ((run { h.tables with nodes := ∅ }).2.map Prod.snd) ∨
        d ≠ c ∧ k'.place = k.place) := by
  rcases of_modify hk' with ⟨k, rfl, hk, rfl⟩ | ⟨hne, hk⟩
  · exact ⟨k, hk, rfl, .inl ⟨rfl, rfl⟩⟩
  · exact ⟨k', hk, rfl, .inr ⟨hne, rfl⟩⟩

theorem listSessions_replies {s : Server} {nc : NodeConn} {frame : Frame} (hkind : frame.kind = .listSessionsReq) :
    Replies frame (.replying ((s.handleListSessions nc frame).map Prod.snd)) := by
  have hnot : ¬ (frame.kind = .createSessionReq ∨ frame.kind = .joinSessionReq) := by simp [hkind]
  exact .answer ⟨rfl, by rw [hkind]; rfl, by simp, fun _ hk => absurd hk hnot, by simp⟩

theorem unknown_replies {frame : Frame} (hcreate : frame.kind ≠ .createSessionReq)
    (hjoin : frame.kind ≠ .joinSessionReq) (hpeers : frame.kind ≠ .listPeersReq)
    (hsessions : frame.kind ≠ .listSessionsReq) (hbeat : frame.kind ≠ .heartbeatReq) :
    Replies frame (.replying
      [{ kind := frame.kind, requestID := frame.requestID, error := ascii "unknown frame kind" }]) := by
  have hkind : frame.kind = frame.kind.answer := by
    unfold Kind.answer
    split <;> first | rfl | contradiction
  refine .answer ⟨rfl, hkind, fun _ => by simp [ascii], fun _ hk => ?_, fun _ => rfl⟩
  rcases hk with hk | hk
  · exact absurd hk hcreate
  · exact absurd hk hjoin

/-- A handler's section moves its own goroutine only, to an answer. -/
theorem handle_replies {nc : NodeConn} {frame : Frame} {now : ℤ} (hh : h.handle c nc frame now = some h')
    (hk' : h'.conns[d]? = some k') :
    ∃ k, h.conns[d]? = some k ∧ k'.inbox = k.inbox ∧
      (d = c ∧ Replies frame k'.place ∨ d ≠ c ∧ k'.place = k.place) := by
  -- where only the place is set
  have hset : ∀ {h : Hub} {p : Place}, Replies frame p → (h.setPlace c p).conns[d]? = some k' →
      ∃ k, h.conns[d]? = some k ∧ k'.inbox = k.inbox ∧
        (d = c ∧ Replies frame k'.place ∨ d ≠ c ∧ k'.place = k.place) := by
    intro h p hp hk'
    obtain ⟨k, hk, hin, hplace⟩ := of_setPlace hk'
    refine ⟨k, hk, hin, hplace.imp_left ?_⟩
    rintro ⟨hd, heq⟩
    exact ⟨hd, heq ▸ hp⟩
  have hcommit : ∀ {run : Server → Server × List Sent},
      Replies frame (.replying ((run { h.tables with nodes := ∅ }).2.map Prod.snd)) →
      (h.commit c run).conns[d]? = some k' → ∃ k, h.conns[d]? = some k ∧ k'.inbox = k.inbox ∧
        (d = c ∧ Replies frame k'.place ∨ d ≠ c ∧ k'.place = k.place) := by
    intro run hp hk'
    obtain ⟨k, hk, hin, hplace⟩ := of_commit hk'
    refine ⟨k, hk, hin, hplace.imp_left ?_⟩
    rintro ⟨hd, heq⟩
    exact ⟨hd, heq ▸ hp⟩
  unfold Hub.handle at hh
  split at hh
  · rename_i hkind
    split_ifs at hh with hname hw
    · obtain rfl := Option.some.inj hh
      exact hset (.named hkind hname (Server.nextSessionID_ne_nil _)) hk'
    · obtain rfl := Option.some.inj hh
      exact hcommit (Server.handleCreateSession_replies hkind hname) hk'
  · rename_i hkind
    split_ifs at hh with hname hw
    · obtain rfl := Option.some.inj hh
      exact hset (Server.handleJoinSession_replies hkind) hk'
    · obtain rfl := Option.some.inj hh
      exact hcommit (Server.handleJoinSession_replies hkind) hk'
  · rename_i hkind
    obtain ⟨sents, hsents, rfl⟩ := Option.map_eq_some_iff.mp hh
    exact hset (Server.handleListPeers_replies hkind hsents) hk'
  · rename_i hkind
    obtain rfl := Option.some.inj hh
    exact hset (listSessions_replies hkind) hk'
  · rename_i hkind
    split_ifs at hh with hw
    obtain rfl := Option.some.inj hh
    obtain ⟨k₁, hk₁, hin₁, hplace₁⟩ := hset (heartbeat_replies hkind) hk'
    obtain ⟨k, _, hk, rfl⟩ := of_renewLease hk₁
    exact ⟨k, hk, hin₁, hplace₁⟩
  · rename_i hkind
    obtain rfl := Option.some.inj hh
    unfold Hub.handleGameStart at hk'
    split at hk'
    · exact hset (.silent hkind rfl) hk'
    · exact hset (.start hkind rfl) hk'
  · rename_i hcreate hjoin hpeers hsessions hbeat _
    obtain rfl := Option.some.inj hh
    exact hset (unknown_replies hcreate hjoin hpeers hsessions hbeat) hk'

end Hub

/-! ### What a step does to a connection -/

/- The frames that a goroutine works on carry no request id. -/
def Place.Silent : Place → Prop
  | .handling _ => False
  | .replying frames => ∀ f ∈ frames, f.requestID = []
  | .refusing frames => ∀ f ∈ frames, f.requestID = []
  | .starting f => f.requestID = []
  | .sending f _ => f.requestID = []
  | _ => True

/- No broadcast carries a request id. -/
def Place.Mute : Place → Prop
  | .starting f => f.requestID = []
  | .sending f _ => f.requestID = []
  | _ => True

theorem Place.Silent.mute {p : Place} (h : p.Silent) : p.Mute := by
  cases p <;> first | exact h | trivial

theorem Replies.mute {frame : Frame} {p : Place} (h : Replies frame p) : p.Mute := by
  cases h with
  | start _ hf => exact hf
  | _ => trivial

/- The request ids that a goroutine works on. -/
def Place.ids : Place → Multiset Bytes
  | .handling frame => idsOf [frame]
  | .replying frames => idsOf frames
  | .refusing frames => idsOf frames
  | _ => 0

/- What is on its way at dispatch, in the goroutine of a connection or sent to it. -/
def Conn.ids (k : Conn) : Multiset Bytes := k.place.ids + idsOf k.inbox

theorem idsOf_eq_zero {frames : List Frame} (h : ∀ f ∈ frames, f.requestID = []) : idsOf frames = 0 := by
  rw [idsOf, Multiset.coe_eq_zero, List.filter_eq_nil_iff]
  intro r hr
  obtain ⟨f, hf, rfl⟩ := List.mem_map.mp hr
  simp [h f hf]

theorem Place.Silent.ids {p : Place} (h : p.Silent) : p.ids = 0 := by
  cases p with
  | handling frame => exact h.elim
  | replying frames => exact idsOf_eq_zero h
  | refusing frames => exact idsOf_eq_zero h
  | _ => rfl

def Hub.Mute (h : Hub) : Prop := ∀ (c : ℕ) (k : Conn), h.conns[c]? = some k → k.place.Mute

inductive Conn.Turn (e : Event) (d : ℕ) (k k' : Conn) : Prop
  | same (hin : k'.inbox = k.inbox) (hplace : k'.place = k.place)
  | silent (hfrom : k.place.ids = 0) (hin : k'.inbox = k.inbox) (hplace : k'.place.Silent)
  | receive {frame : Frame} {now : ℤ} (he : e = .receive d frame now) (hfrom : k.place.ids = 0)
      (hin : k'.inbox = k.inbox) (hplace : k'.place = .handling frame)
  | handle {frame : Frame} (hfrom : k.place = .handling frame) (hin : k'.inbox = k.inbox)
      (hplace : Replies frame k'.place)
  | reply {frames : List Frame} (hfrom : k.place = .replying frames ∨ k.place = .refusing frames)
      (hin : k'.inbox = k.inbox ++ frames) (hplace : k'.place.Silent)
  | told {f : Frame} (hf : f.requestID = []) (hin : k'.inbox = k.inbox ++ [f])
      (hplace : k'.place = k.place ∨ k.place.ids = 0 ∧ k'.place.Silent)
  | process (he : e = .process d) (hin : k'.inbox = k.inbox.tail) (hplace : k'.place = k.place)

namespace Hub
variable {h h' : Hub} {c d : ℕ} {k k' : Conn} {e : Event}

/- The goroutine of a connection has no request to answer. -/
def Unasked (h : Hub) (c : ℕ) : Prop := ∀ k, h.conns[c]? = some k → k.place.ids = 0

theorem Unasked.of_place {p : Place} (hk : h.conns[c]? = some k) (hplace : k.place = p) (hp : p.ids = 0) :
    h.Unasked c := by
  intro k' hk'
  rw [← Option.some.inj (hk.symm.trans hk'), hplace, hp]

/- Only the place of one goroutine is set. -/
theorem turn_setPlace {p : Place} (hunasked : h.Unasked c) (hk' : (h.setPlace c p).conns[d]? = some k')
    (hp : p.Silent) : ∃ k, h.conns[d]? = some k ∧ Conn.Turn e d k k' := by
  obtain ⟨k, hk, hin, ⟨rfl, hplace⟩ | ⟨_, hplace⟩⟩ := of_setPlace hk'
  · exact ⟨k, hk, .silent (hunasked k hk) hin (hplace ▸ hp)⟩
  · exact ⟨k, hk, .same hin hplace⟩

theorem turn_hello {frame : Frame} (hunasked : h.Unasked c) (hk' : (h.hello c frame).conns[d]? = some k') :
    ∃ k, h.conns[d]? = some k ∧ Conn.Turn e d k k' := by
  unfold Hub.hello at hk'
  split_ifs at hk'
  · exact turn_setPlace hunasked hk' (by simp [Place.Silent])
  · exact turn_setPlace (h := { h with tables := _ }) hunasked hk' trivial
  · exact turn_setPlace (h := { h with tables := _ }) hunasked hk' trivial

theorem turn_register {frame : Frame} {now : ℤ} (hunasked : h.Unasked c)
    (hk' : (h.register c frame now).conns[d]? = some k') : ∃ k, h.conns[d]? = some k ∧ Conn.Turn e d k k' := by
  unfold Hub.register at hk'
  split_ifs at hk'
  · exact turn_setPlace hunasked hk' (by simp [Place.Silent])
  · rcases of_modify hk' with ⟨k, rfl, hk, rfl⟩ | ⟨_, hk⟩
    · exact ⟨k, hk, .silent (hunasked k hk) rfl (by simp [Place.Silent])⟩
    · exact ⟨k', hk, .same rfl rfl⟩

theorem turn_send {start : Frame} {rest : List Bytes} (hunasked : h.Unasked c) (hstart : start.requestID = [])
    (hk' : (h.send c start rest).conns[d]? = some k') : ∃ k, h.conns[d]? = some k ∧ Conn.Turn e d k k' := by
  cases rest with
  | nil => exact turn_setPlace hunasked hk' trivial
  | cons id rest =>
    rw [Hub.send] at hk'
    split at hk'
    · exact turn_setPlace hunasked hk' hstart
    · obtain ⟨k₁, hk₁, hin₁, hplace₁⟩ := of_setPlace hk'
      have hplace : k'.place = k₁.place ∨ d = c ∧ k'.place.Silent := by
        rcases hplace₁ with ⟨hd, heq⟩ | ⟨_, heq⟩
        · exact .inr ⟨hd, heq ▸ hstart⟩
        · exact .inl heq
      rcases of_modify hk₁ with ⟨k, rfl, hk, rfl⟩ | ⟨_, hk⟩
      · refine ⟨k, hk, .told hstart hin₁ (hplace.imp_right ?_)⟩
        rintro ⟨rfl, hsilent⟩
        exact ⟨hunasked k hk, hsilent⟩
      · rcases hplace with heq | ⟨rfl, hsilent⟩
        · exact ⟨k₁, hk, .same hin₁ heq⟩
        · exact ⟨k₁, hk, .silent (hunasked k₁ hk) hin₁ hsilent⟩

theorem turn_reply {frames : List Frame} {p : Place} (hk : h.conns[c]? = some k)
    (hfrom : k.place = .replying frames ∨ k.place = .refusing frames)
    (hk' : ((h.post c frames).setPlace c p).conns[d]? = some k') (hp : p.Silent) :
    ∃ k, h.conns[d]? = some k ∧ Conn.Turn e d k k' := by
  obtain ⟨k₁, hk₁, hin₁, hplace₁⟩ := of_setPlace hk'
  rcases of_modify hk₁ with ⟨k₂, rfl, hk₂, rfl⟩ | ⟨hne, hk₂⟩
  · obtain rfl := Option.some.inj (hk₂.symm.trans hk)
    refine ⟨k₂, hk, .reply hfrom hin₁ ?_⟩
    rcases hplace₁ with ⟨_, heq⟩ | ⟨hne, _⟩
    · exact heq ▸ hp
    · exact absurd rfl hne
  · rcases hplace₁ with ⟨rfl, _⟩ | ⟨_, heq⟩
    · exact absurd rfl hne
    · exact ⟨k₁, hk₂, .same hin₁ heq⟩

theorem process_inbox (k : Conn) : (process k).inbox = k.inbox.tail := by
  unfold Hub.process
  split
  · rename_i hnil
    rw [hnil]
    rfl
  · rename_i hcons
    rw [hcons]
    split_ifs <;> rfl

/-- A step finds every connection it does not open, and does one thing to it. -/
theorem turn (hq : h.Mute) (hs : h.step e = some h') (hk' : h'.conns[d]? = some k') :
    (∃ k, h.conns[d]? = some k ∧ Conn.Turn e d k k') ∨
      d = h.conns.length ∧ k'.inbox = [] ∧ k'.place = .fresh := by
  -- the section of a handler is read off the step itself
  by_cases hhandle : ∃ c now, e = .handle c now
  · obtain ⟨c, now, rfl⟩ := hhandle
    obtain ⟨k, hk, hs⟩ := Option.bind_eq_some_iff.mp hs
    split at hs
    · rename_i frame hplace
      obtain ⟨k₁, hk₁, hin, ⟨rfl, hrep⟩ | ⟨_, hsame⟩⟩ := handle_replies hs hk'
      · obtain rfl := Option.some.inj (hk₁.symm.trans hk)
        exact .inl ⟨k₁, hk, .handle hplace hin hrep⟩
      · exact .inl ⟨k₁, hk₁, .same hin hsame⟩
    · cases hs
  cases step_acts hs with
  | accept =>
    by_cases hd : d < h.conns.length
    · rw [List.getElem?_append_left hd] at hk'
      exact .inl ⟨k', hk', .same rfl rfl⟩
    · rw [List.getElem?_append_right (not_lt.mp hd), List.getElem?_singleton] at hk'
      split_ifs at hk' with hlast
      obtain rfl := Option.some.inj hk'
      exact .inr ⟨by omega, rfl, rfl⟩
  | hello hk hplace => exact .inl (turn_hello (.of_place hk hplace rfl) hk')
  | register hk hplace => exact .inl (turn_register (.of_place hk hplace rfl) hk')
  | receive hkc hplace =>
    obtain ⟨k₁, hk₁, hin₁, hplace₁⟩ := of_setPlace hk'
    obtain ⟨k, _, hk, rfl⟩ := of_renewLease hk₁
    rcases hplace₁ with ⟨rfl, heq⟩ | ⟨_, heq⟩
    · exact .inl ⟨k, hk, .receive rfl (Unasked.of_place hkc hplace rfl k hk) hin₁ heq⟩
    · exact .inl ⟨k, hk, .same hin₁ heq⟩
  | handle => exact absurd ⟨_, _, rfl⟩ hhandle
  | @broadcast c k start hk hplace =>
    have hstart := hq c k hk
    rw [hplace] at hstart
    exact .inl (turn_setPlace (.of_place hk hplace rfl) hk' hstart)
  | @send c k start rest hk hplace =>
    have hstart := hq c k hk
    rw [hplace] at hstart
    exact .inl (turn_send (.of_place hk hplace rfl) hstart hk')
  | reply hk hplace => exact .inl (turn_reply hk (.inl hplace) hk' trivial)
  | refuse hk hplace => exact .inl (turn_reply hk (.inr hplace) hk' trivial)
  | forget hk hplace => exact .inl (turn_setPlace (.of_place hk hplace rfl) hk' trivial)
  | leave hk hplace => exact .inl (turn_setPlace (.of_place hk hplace rfl) hk' trivial)
  | @disconnect c k hk hplace =>
    have hunasked : (h.disconnect k.record.id).Unasked c := by
      rw [Unasked, disconnect_conns]
      exact Unasked.of_place hk hplace rfl
    obtain ⟨k₁, hk₁, hturn⟩ := turn_setPlace (e := .disconnect c) hunasked hk' trivial
    rw [disconnect_conns] at hk₁
    exact .inl ⟨k₁, hk₁, hturn⟩
  | scan => exact .inl ⟨k', hk', .same rfl rfl⟩
  | reap =>
    rw [disconnect_conns] at hk'
    exact .inl ⟨k', hk', .same rfl rfl⟩
  | process =>
    rcases of_modify hk' with ⟨k, rfl, hk, rfl⟩ | ⟨_, hk⟩
    · exact .inl ⟨k, hk, .process rfl (process_inbox k) (process_record k).2⟩
    · exact .inl ⟨k', hk, .same rfl rfl⟩

theorem length_modify (f : Conn → Conn) : (h.modify c f).conns.length = h.conns.length := List.length_modify ..

theorem length_setPlace (p : Place) : (h.setPlace c p).conns.length = h.conns.length := length_modify _

theorem length_renewLease (id : Bytes) (now : ℤ) : (h.renewLease id now).conns.length = h.conns.length := by
  unfold renewLease
  split
  · rfl
  · exact length_modify _

theorem length_send (start : Frame) (rest : List Bytes) : (h.send c start rest).conns.length = h.conns.length := by
  cases rest with
  | nil => exact length_setPlace _
  | cons id rest =>
    rw [Hub.send]
    split
    · exact length_setPlace _
    · exact (length_setPlace _).trans (length_modify _)

/- A connection stays in the list. -/
theorem length_le_step (hs : h.step e = some h') : h.conns.length ≤ h'.conns.length := by
  cases step_move hs with
  | accept => exact List.length_append.symm ▸ Nat.le_add_right _ _
  | place => exact (length_setPlace _).ge
  | lease => exact ((length_setPlace _).trans (length_renewLease _ _)).ge
  | register => exact (length_modify _).ge
  | commit => exact (length_modify _).ge
  | broadcast => exact (length_setPlace _).ge
  | send => exact (length_send _ _).ge
  | reply => exact ((length_setPlace _).trans (length_modify _)).ge
  | disconnect => exact ((length_setPlace _).trans (congrArg List.length (disconnect_conns _))).ge
  | scan => exact le_rfl
  | reap => rw [disconnect_conns]
  | process => exact (length_modify _).ge

theorem Mute.start (cfg : Config) : (start cfg).Mute := by
  intro c k hk
  cases hk

theorem Mute.step (hq : h.Mute) (hs : h.step e = some h') : h'.Mute := by
  intro d k' hk'
  rcases turn hq hs hk' with ⟨k, hk, hturn⟩ | ⟨_, _, hplace⟩
  · cases hturn with
    | same _ hplace => exact hplace ▸ hq d k hk
    | silent _ _ hplace => exact hplace.mute
    | receive _ _ _ hplace =>
      rw [hplace]
      trivial
    | handle _ _ hrep => exact hrep.mute
    | reply _ _ hplace => exact hplace.mute
    | told _ _ hplace =>
      rcases hplace with heq | ⟨_, hsilent⟩
      · exact heq ▸ hq d k hk
      · exact hsilent.mute
    | process _ _ hplace => exact hplace ▸ hq d k hk
  · rw [hplace]
    trivial

end Hub

/-! ### Requests and answers on their way -/

/- The request of a handler, and every frame that goes back. -/
def Place.Carries (Q R : Frame → Prop) : Place → Prop
  | .handling frame => Q frame
  | .replying frames => ∀ f ∈ frames, R f
  | .refusing frames => ∀ f ∈ frames, R f
  | _ => True

def Conn.Carries (Q R : Frame → Prop) (k : Conn) : Prop := k.place.Carries Q R ∧ ∀ f ∈ k.inbox, R f

/-- What is asked on a connection, and what is an answer there. -/
structure Asked (Q R : Frame → Prop) : Prop where
  silent : ∀ f, f.requestID = [] → R f
  start : ∀ f, Q f → f.kind = .gameStart → f.requestID = []
  named : ∀ f sid, Q f → f.kind = .createSessionReq → f.sessionID = [] → sid ≠ [] →
    Q { f with sessionID := sid }
  answer : ∀ f g, Q f → f.Answers g → R g

namespace Conn.Turn
variable {Q R : Frame → Prop} {e : Event} {d : ℕ} {k k' : Conn}

theorem silent_carries (ha : Asked Q R) {p : Place} (hp : p.Silent) : p.Carries Q R := by
  cases p with
  | handling frame => exact hp.elim
  | replying frames => exact fun f hf => ha.silent f (hp f hf)
  | refusing frames => exact fun f hf => ha.silent f (hp f hf)
  | _ => trivial

theorem replies_carries (ha : Asked Q R) {frame : Frame} {p : Place} (hq : Q frame) (hrep : Replies frame p) :
    p.Carries Q R := by
  cases hrep with
  | named hkind hname hsid => exact ha.named frame _ hq hkind hname hsid
  | answer hans =>
    intro f hf
    rw [List.mem_singleton.mp hf]
    exact ha.answer frame _ hq hans
  | silent _ hid =>
    intro f hf
    rw [List.mem_singleton.mp hf]
    exact ha.silent _ hid
  | start => trivial

/- The ids of a request and of its answer are the same. -/
theorem replies_ids (ha : Asked Q R) {frame : Frame} {p : Place} (hq : Q frame) (hrep : Replies frame p) :
    p.ids = idsOf [frame] := by
  cases hrep with
  | named => rfl
  | answer hans => simp only [Place.ids, idsOf, List.map_cons, List.map_nil, hans.id]
  | silent hkind hid =>
    rw [idsOf_silent (ha.start frame hq hkind)]
    exact idsOf_silent hid
  | start hkind => rw [idsOf_silent (ha.start frame hq hkind)]; rfl

theorem carries_step (ha : Asked Q R) (ht : k.Carries Q R) (hturn : Conn.Turn e d k k')
    (hasked : ∀ frame now, e = .receive d frame now → Q frame) : k'.Carries Q R := by
  obtain ⟨hplace₀, hin₀⟩ := ht
  cases hturn with
  | same hin hplace => exact ⟨hplace ▸ hplace₀, hin ▸ hin₀⟩
  | silent _ hin hplace => exact ⟨silent_carries ha hplace, hin ▸ hin₀⟩
  | receive he _ hin hplace =>
    refine ⟨?_, hin ▸ hin₀⟩
    rw [hplace]
    exact hasked _ _ he
  | handle hfrom hin hrep =>
    rw [hfrom] at hplace₀
    exact ⟨replies_carries ha hplace₀ hrep, hin ▸ hin₀⟩
  | @reply frames hfrom hin hplace =>
    have hframes : ∀ f ∈ frames, R f := by
      rcases hfrom with hfrom | hfrom
      · rw [hfrom] at hplace₀
        exact hplace₀
      · rw [hfrom] at hplace₀
        exact hplace₀
    refine ⟨silent_carries ha hplace, ?_⟩
    intro f hf
    rw [hin] at hf
    exact (List.mem_append.mp hf).elim (hin₀ f) (hframes f)
  | @told f hf hin hplace =>
    refine ⟨?_, ?_⟩
    · rcases hplace with heq | ⟨_, hsilent⟩
      · exact heq ▸ hplace₀
      · exact silent_carries ha hsilent
    · intro g hg
      rw [hin] at hg
      rcases List.mem_append.mp hg with hg | hg
      · exact hin₀ g hg
      · rw [List.mem_singleton.mp hg]
        exact ha.silent f hf
  | process _ hin hplace =>
    refine ⟨hplace ▸ hplace₀, ?_⟩
    intro f hf
    rw [hin] at hf
    exact hin₀ f (List.mem_of_mem_tail hf)

/-- Nothing is lost at dispatch, and nothing is answered twice. -/
theorem ids_eq (ha : Asked Q R) (hc : k.Carries Q R) (hturn : Conn.Turn e d k k')
    (hreceive : ∀ frame now, e ≠ .receive d frame now) (hprocess : e ≠ .process d) : k'.ids = k.ids := by
  unfold Conn.ids
  cases hturn with
  | same hin hplace => rw [hin, hplace]
  | silent hfrom hin hplace => rw [hin, hfrom, hplace.ids]
  | receive he => exact absurd he (hreceive _ _)
  | handle hfrom hin hrep =>
    have hq := hc.1
    rw [hfrom] at hq
    rw [hin, replies_ids ha hq hrep, hfrom]
    rfl
  | @reply frames hfrom hin hplace =>
    have hids : k.place.ids = idsOf frames := by
      rcases hfrom with hfrom | hfrom
      · rw [hfrom]
        rfl
      · rw [hfrom]
        rfl
    rw [hin, hplace.ids, hids, idsOf_append, zero_add, add_comm]
  | told hf hin hplace =>
    have hids : k'.place.ids = k.place.ids := by
      rcases hplace with heq | ⟨hzero, hsilent⟩
      · rw [heq]
      · rw [hzero, hsilent.ids]
    rw [hin, hids, idsOf_append, idsOf_silent hf, add_zero]
  | process he => exact absurd he hprocess

end Conn.Turn

namespace Hub
variable {Q R : Frame → Prop} {h h' : Hub} {e : Event} {c : ℕ} {k : Conn}

def ids (h : Hub) (c : ℕ) : Multiset Bytes := (h.conns[c]?.map Conn.ids).getD 0

def Carries (Q R : Frame → Prop) (h : Hub) (c : ℕ) : Prop := ∀ k, h.conns[c]? = some k → k.Carries Q R

theorem ids_of_conn (hk : h.conns[c]? = some k) : h.ids c = k.ids := by
  rw [ids, hk]
  rfl

theorem Carries.step (hc : h.Carries Q R c) (ha : Asked Q R) (hm : h.Mute) (hs : h.step e = some h')
    (hasked : ∀ frame now, e = .receive c frame now → Q frame) : h'.Carries Q R c := by
  intro k' hk'
  rcases turn hm hs hk' with ⟨k, hk, hturn⟩ | ⟨_, hin, hplace⟩
  · exact Conn.Turn.carries_step ha (hc k hk) hturn hasked
  · refine ⟨by rw [hplace]; trivial, ?_⟩
    rw [hin]
    simp

theorem ids_step (hc : h.Carries Q R c) (ha : Asked Q R) (hm : h.Mute) (hlt : c < h.conns.length)
    (hs : h.step e = some h') (hreceive : ∀ frame now, e ≠ .receive c frame now) (hprocess : e ≠ .process c) :
    h'.ids c = h.ids c := by
  have hk' := List.getElem?_eq_getElem (hlt.trans_le (length_le_step hs))
  rcases turn hm hs hk' with ⟨k, hk, hturn⟩ | ⟨hlast, _⟩
  · rw [ids_of_conn hk, ids_of_conn hk']
    exact Conn.Turn.ids_eq ha (hc k hk) hturn hreceive hprocess
  · exact absurd hlast hlt.ne

/- What is received was not on its way at dispatch before. -/
theorem ids_receive {frame : Frame} {now : ℤ} (hs : h.step (.receive c frame now) = some h') :
    h'.ids c = idsOf [frame] + h.ids c := by
  cases step_acts hs with
  | @receive _ k _ _ hk hplace =>
    have hlt : c < h.conns.length := (List.getElem?_eq_some_iff.mp hk).1
    have hk' := List.getElem?_eq_getElem (hlt.trans_le (length_le_step hs))
    obtain ⟨k₁, hk₁, hin, ⟨_, heq⟩ | ⟨hne, _⟩⟩ := of_setPlace hk'
    · obtain ⟨k₀, _, hk₀, rfl⟩ := of_renewLease hk₁
      obtain rfl := Option.some.inj (hk₀.symm.trans hk)
      rw [ids_of_conn hk, ids_of_conn hk', Conn.ids, heq, hin, Conn.ids, hplace]
      exact congrArg (idsOf [frame] + ·) (zero_add _).symm
    · exact absurd rfl hne

theorem ids_process (hs : h.step (.process c) = some h') (hk : h.conns[c]? = some k) :
    h.ids c = idsOf k.inbox.head?.toList + h'.ids c := by
  cases step_acts hs with
  | process =>
    rw [ids_of_conn hk, ids_of_conn (modify_self _ hk)]
    unfold Conn.ids
    rw [(process_record k).2, process_inbox, add_left_comm]
    congr 1
    cases k.inbox with
    | nil => rfl
    | cons f fs => exact idsOf_cons f fs

end Hub

end P2Poker.Dispatch
