import P2Poker.Dispatch.Registration

/-!
# What reaches a node

Every frame on its way to a node was put there by the answer of its own goroutine
or by a broadcast. A registration is answered with the id of the record that was
made, and a broadcast goes to the ids that it lists.
-/

namespace P2Poker.Dispatch
open P2Poker.Lib

/-- A frame for the node registered as `id`: a registration names that id and, on a
connection of one's own, a game start lists it. -/
structure Frame.Proper (mine : Prop) (id : Bytes) (f : Frame) : Prop where
  named : f.kind = .registerResp → f.success = true → f.nodeID = id
  listed : mine → f.kind = .gameStart → id ∈ f.peerIDs

def Place.Proper (mine : Prop) (id : Bytes) : Place → Prop
  | .replying frames => ∀ f ∈ frames, f.Proper mine id
  | .refusing frames => ∀ f ∈ frames, f.Proper mine id
  | .starting start => start.kind = .gameStart
  | .sending start rest => start.kind = .gameStart ∧ ∀ id ∈ rest, id ∈ start.peerIDs
  | _ => True

structure Conn.Proper (mine : Prop) (k : Conn) : Prop where
  unregistered : k.place.enrolled = false → k.inbox = []
  inbox : ∀ f ∈ k.inbox, f.Proper mine k.record.id
  place : k.place.Proper mine k.record.id

namespace Hub

def Proper (own : List ℕ) (h : Hub) : Prop :=
  ∀ (c : ℕ) (k : Conn), h.conns[c]? = some k → k.Proper (c ∈ own)

/-- One's own requests for a game start are handled while the session exists. -/
def StartsInSession (own : List ℕ) (h : Hub) : Event → Prop
  | .handle c _ =>
    c ∈ own → ∀ k ∈ h.conns[c]?,
      match k.place with
      | .handling frame => frame.kind = .gameStart → h.tables.sessions.lookup k.record.sessionID ≠ none
      | _ => True
  | _ => True

instance (own : List ℕ) (h : Hub) (e : Event) : Decidable (h.StartsInSession own e) := by
  delta StartsInSession
  induction e using Event.casesOn with
  | handle c =>
    have : ∀ k : Conn, Decidable (match k.place with
      | .handling frame => frame.kind = .gameStart → h.tables.sessions.lookup k.record.sessionID ≠ none
      | _ => True) := fun k => by induction k.place using Place.casesOn <;> infer_instance
    infer_instance
  | _ => infer_instance

end Hub

variable {mine : Prop} {k : Conn} {id : Bytes} {p : Place}

theorem Frame.Proper.of_kind {f : Frame} (hresp : f.kind ≠ .registerResp) (hstart : f.kind ≠ .gameStart) :
    f.Proper mine id :=
  ⟨fun heq => absurd heq hresp, fun _ heq => absurd heq hstart⟩

theorem Frame.Proper.of_failure {f : Frame} (hfail : f.success = false) (hstart : f.kind ≠ .gameStart) :
    f.Proper mine id := by
  refine ⟨?_, fun _ heq => absurd heq hstart⟩
  intro _ hok
  rw [hfail] at hok
  cases hok

/- The answers of a handler are of one kind. -/
theorem Place.Proper.answer {sents : List Sent} {kind : Kind} (hkind : ∀ sent ∈ sents, sent.2.kind = kind)
    (hresp : kind ≠ .registerResp) (hstart : kind ≠ .gameStart) :
    (Place.replying (sents.map Prod.snd)).Proper mine id := by
  intro f hf
  obtain ⟨sent, hsent, rfl⟩ := List.mem_map.mp hf
  have hk := hkind sent hsent
  exact .of_kind (by rwa [hk]) (by rwa [hk])

theorem Conn.Proper.setPlace (hk : k.Proper mine) (hp : p.Proper mine k.record.id)
    (henr : p.enrolled = false → k.place.enrolled = false) : Conn.Proper mine { k with place := p } :=
  ⟨fun hout => hk.unregistered (henr hout), hk.inbox, hp⟩

theorem Conn.Proper.post {frames : List Frame} (hk : k.Proper mine) (hp : p.Proper mine k.record.id)
    (henr : p.enrolled = true) (hframes : ∀ f ∈ frames, f.Proper mine k.record.id) :
    Conn.Proper mine { k with inbox := k.inbox ++ frames, place := p } := by
  refine ⟨?_, ?_, hp⟩
  · intro hout
    rw [henr] at hout
    cases hout
  · intro f hf
    rcases List.mem_append.mp hf with hold | hnew
    · exact hk.inbox f hold
    · exact hframes f hnew

theorem Conn.Proper.process (hk : k.Proper mine) : (Hub.process k).Proper mine := by
  unfold Hub.process
  split
  · exact hk
  · rename_i frame rest hin
    have hrest : k.place.enrolled = false → rest = [] := by
      intro hout
      rw [hk.unregistered hout] at hin
      cases hin
    have hmem : ∀ f ∈ rest, f.Proper mine k.record.id :=
      fun f hf => hk.inbox f (by rw [hin]; exact List.mem_cons_of_mem _ hf)
    split_ifs
    · exact ⟨hrest, hmem, hk.place⟩
    · exact ⟨hrest, hmem, hk.place⟩

namespace Hub
variable {own : List ℕ} {h h' : Hub} {e : Event} {c : ℕ} {k : Conn} {id : Bytes}

theorem Proper.modify {f : Conn → Conn} (hp : h.Proper own)
    (hf : ∀ k, h.conns[c]? = some k → k.Proper (c ∈ own) → (f k).Proper (c ∈ own)) :
    (h.modify c f).Proper own := by
  intro d k' hk'
  rcases of_modify hk' with ⟨k, rfl, hk, rfl⟩ | ⟨_, hk⟩
  · exact hf k hk (hp d k hk)
  · exact hp d k' hk

theorem Proper.setPlace {p : Place} (hp : h.Proper own)
    (hk : ∀ k, h.conns[c]? = some k →
      p.Proper (c ∈ own) k.record.id ∧ (p.enrolled = false → k.place.enrolled = false)) :
    (h.setPlace c p).Proper own :=
  hp.modify fun k hk' hproper => hproper.setPlace (hk k hk').1 (hk k hk').2

/- A place past the registration, with nothing to say. -/
theorem Proper.goOn {p : Place} (hp : h.Proper own) (hplace : ∀ mine id, p.Proper mine id)
    (henr : p.enrolled = true) : (h.setPlace c p).Proper own := by
  apply hp.setPlace
  intro k _
  refine ⟨hplace _ _, ?_⟩
  intro hout
  rw [henr] at hout
  cases hout

theorem Proper.renewLease (hp : h.Proper own) (nodeID : Bytes) (now : ℤ) :
    (h.renewLease nodeID now).Proper own := by
  unfold Hub.renewLease
  split
  · exact hp
  · exact hp.modify fun k _ hk => ⟨hk.unregistered, hk.inbox, hk.place⟩

/- A connection that nothing has been said on yet becomes one's own. -/
theorem Proper.cons (hp : h.Proper own)
    (hnew : ∀ k, h.conns[c]? = some k → k.inbox = [] ∧ k.place = .fresh) : h.Proper (c :: own) := by
  intro d k hk
  by_cases hd : d = c
  · subst hd
    obtain ⟨hin, hplace⟩ := hnew k hk
    refine ⟨fun _ => hin, ?_, ?_⟩
    · rw [hin]
      exact nofun
    · rw [hplace]
      trivial
  · simp only [List.mem_cons, hd, false_or]
    exact hp d k hk

theorem Proper.disconnect (hp : h.Proper own) (nodeID : Bytes) : (h.disconnect nodeID).Proper own := by
  intro c k hk
  rw [disconnect_conns] at hk
  exact hp c k hk

theorem Proper.hello {frame : Frame} (hp : h.Proper own) (hk : h.conns[c]? = some k)
    (hplace : k.place = .fresh) : (h.hello c frame).Proper own := by
  have henr : ∀ k', h.conns[c]? = some k' → k'.place.enrolled = false := by
    intro k' hk'
    rw [Option.some.inj (hk'.symm.trans hk), hplace]
    rfl
  unfold Hub.hello
  split_ifs
  · refine hp.setPlace fun k' hk' => ⟨?_, fun _ => henr k' hk'⟩
    simp only [Place.Proper, List.forall_mem_singleton]
    exact .of_failure rfl nofun
  · exact Proper.setPlace (h := { h with tables := _ }) hp fun k' hk' => ⟨trivial, fun _ => henr k' hk'⟩
  · exact Proper.setPlace (h := { h with tables := _ }) hp fun k' hk' => ⟨trivial, fun _ => henr k' hk'⟩

theorem Proper.register {frame : Frame} {now : ℤ} (hp : h.Proper own) (hk : h.conns[c]? = some k)
    (hplace : k.place = .registering frame) : (h.register c frame now).Proper own := by
  have henr : k.place.enrolled = false := by rw [hplace]; rfl
  unfold Hub.register
  split_ifs
  · refine hp.setPlace fun k' hk' => ⟨?_, fun _ => ?_⟩
    · simp only [Place.Proper, List.forall_mem_singleton]
      exact .of_failure rfl nofun
    · rw [Option.some.inj (hk'.symm.trans hk), henr]
  · refine Proper.modify (h := { h with nodes := _ }) hp ?_
    intro k' hk' hproper
    obtain rfl := Option.some.inj (hk'.symm.trans hk)
    -- nothing was sent to the connection before it was registered
    have hempty : k'.inbox = [] := hproper.unregistered henr
    refine ⟨nofun, ?_, ?_⟩
    · intro f hf
      have hf' : f ∈ k'.inbox := hf
      rw [hempty] at hf'
      cases hf'
    · simp only [Place.Proper, List.forall_mem_singleton]
      exact ⟨fun _ _ => rfl, fun _ => nofun⟩

theorem Proper.commit {sid : Bytes} {run : Server → Server × List Sent} {kind : Kind}
    (hp : h.Proper own) (hk : h.conns[c]? = some k) (hout : ∀ s : Server, s.Outcome k.record sid (run s).1)
    (hkind : ∀ s, ∀ sent ∈ (run s).2, sent.2.kind = kind) (hresp : kind ≠ .registerResp)
    (hstart : kind ≠ .gameStart) : (h.commit c run).Proper own := by
  refine Proper.modify (h := { h with tables := _ }) hp ?_
  intro k' hk' hproper
  obtain rfl := Option.some.inj (hk'.symm.trans hk)
  have hid : (((run { h.tables with nodes := ∅ }).1.nodes.lookup k'.record.id).getD k'.record).id =
      k'.record.id := by
    rcases record_of_outcome (hout _) with ⟨_, hrec⟩ | ⟨_, hrec, _⟩
    · exact congrArg NodeConn.id hrec
    · exact (congrArg NodeConn.id hrec).trans rfl
  refine ⟨nofun, ?_, .answer (hkind _) hresp hstart⟩
  intro f hf
  show f.Proper _ (((run { h.tables with nodes := ∅ }).1.nodes.lookup k'.record.id).getD k'.record).id
  rw [hid]
  exact hproper.inbox f hf

theorem Proper.handle {frame : Frame} {now : ℤ} (hp : h.Proper own) (hk : h.conns[c]? = some k)
    (hok : c ∈ own → frame.kind = .gameStart → h.tables.sessions.lookup k.record.sessionID ≠ none)
    (hh : Handles h c k.record frame now h') : h'.Proper own := by
  cases hh with
  | draw => exact Proper.goOn (h := { h with tables := _ }) hp (fun _ _ => trivial) rfl
  | create _ hname =>
    exact hp.commit hk (fun _ => Server.handleCreateSession_outcome hname)
      (fun _ => Server.handleCreateSession_kind) (by decide) (by decide)
  | joinNowhere => exact hp.goOn (fun _ _ => .answer Server.handleJoinSession_kind (by decide) (by decide)) rfl
  | join =>
    exact hp.commit hk (fun _ => Server.handleJoinSession_outcome)
      (fun _ => Server.handleJoinSession_kind) (by decide) (by decide)
  | listPeers _ hsents =>
    exact hp.goOn (fun _ _ => .answer (Server.handleListPeers_kind hsents) (by decide) (by decide)) rfl
  | listSessions =>
    refine hp.goOn (fun _ _ => ?_) rfl
    simp only [Place.Proper, Server.handleListSessions, List.map_cons, List.map_nil, List.forall_mem_singleton]
    exact .of_kind (by simp) (by simp)
  | heartbeat => exact (hp.renewLease _ _).goOn (fun _ _ => .answer (heartbeat_kind _ _ _) (by decide) (by decide)) rfl
  | startRefused hkind hnone =>
    refine hp.setPlace fun k' _ => ⟨?_, fun h => by cases h⟩
    simp only [Place.Proper, List.map_cons, List.map_nil, List.forall_mem_singleton]
    exact ⟨by simp, fun hmine _ => absurd hnone (hok hmine hkind)⟩
  | start => exact hp.goOn (fun _ _ => rfl) rfl
  | unknown hkind =>
    refine hp.goOn (fun _ _ => ?_) rfl
    simp only [Place.Proper, List.map_cons, List.map_nil, List.forall_mem_singleton]
    exact .of_failure rfl hkind

/- The frame goes to the connection registered under a listed id. -/
theorem Proper.send {start : Frame} {rest : List Bytes} (hp : h.Proper own) (hpoint : h.Pointed)
    (hk : h.conns[c]? = some k) (hplace : k.place = .sending start rest) : (h.send c start rest).Proper own := by
  have hstart : start.kind = .gameStart ∧ ∀ id ∈ rest, id ∈ start.peerIDs := by
    have hproper := (hp c k hk).place
    rwa [hplace] at hproper
  cases rest with
  | nil => exact hp.goOn (fun _ _ => trivial) rfl
  | cons id rest =>
    have hnext : ∀ mine id', (Place.sending start rest).Proper mine id' :=
      fun _ _ => ⟨hstart.1, fun id' hid' => hstart.2 id' (List.mem_cons_of_mem _ hid')⟩
    rw [Hub.send]
    split
    · exact hp.goOn hnext rfl
    · rename_i d hd
      obtain ⟨k', hk', hid, henr⟩ := hpoint id d hd
      have hpost : (h.post d [start]).Proper own := by
        refine hp.modify ?_
        intro k'' hk'' hproper
        obtain rfl := Option.some.inj (hk''.symm.trans hk')
        refine hproper.post hproper.place henr ?_
        rw [List.forall_mem_singleton]
        refine ⟨fun heq => absurd (hstart.1.symm.trans heq) (by decide), fun _ _ => ?_⟩
        rw [hid]
        exact hstart.2 id (List.mem_cons_self ..)
      exact hpost.goOn hnext rfl

theorem Proper.reply {frames : List Frame} (hp : h.Proper own) (hk : h.conns[c]? = some k)
    (hframes : ∀ f ∈ frames, f.Proper (c ∈ own) k.record.id) {p : Place}
    (hplace : ∀ mine id, p.Proper mine id) (henr : p.enrolled = true) :
    ((h.post c frames).setPlace c p).Proper own := by
  intro d k' hk'
  rcases of_modify hk' with ⟨k₁, rfl, hk₁, rfl⟩ | ⟨hd, hk₁⟩
  · rcases of_modify hk₁ with ⟨k₂, _, hk₂, rfl⟩ | ⟨hd, _⟩
    · obtain rfl := Option.some.inj (hk₂.symm.trans hk)
      exact (hp d k₂ hk₂).post (hplace _ _) henr hframes
    · exact absurd rfl hd
  · rcases of_modify hk₁ with ⟨k₂, rfl, _⟩ | ⟨_, hk₂⟩
    · exact absurd rfl hd
    · exact hp d k' hk₂

theorem Proper.start (cfg : Config) : (Hub.start cfg).Proper own := by
  intro c k hk
  have hnone : (Hub.start cfg).conns[c]? = none := List.getElem?_nil
  rw [hnone] at hk
  cases hk

theorem Proper.accept (hp : h.Proper own) (hs : h.step .accept = some h') : h'.Proper own := by
  obtain rfl := Option.some.inj hs
  intro d k hk
  by_cases hd : d < h.conns.length
  · rw [List.getElem?_append_left hd] at hk
    exact hp d k hk
  · rw [List.getElem?_append_right (not_lt.mp hd), List.getElem?_singleton] at hk
    split_ifs at hk
    obtain rfl := Option.some.inj hk
    exact ⟨fun _ => rfl, nofun, trivial⟩

theorem Proper.step (hp : h.Proper own) (hpoint : h.Pointed) (hok : h.StartsInSession own e)
    (hs : h.step e = some h') : h'.Proper own := by
  cases step_acts hs with
  | accept => exact hp.accept hs
  | hello hk hplace => exact hp.hello hk hplace
  | register hk hplace => exact hp.register hk hplace
  | receive => exact (hp.renewLease _ _).goOn (fun _ _ => trivial) rfl
  | @handle c k frame now _ hk hplace hh =>
    refine hp.handle hk ?_ hh
    intro hmine hkind
    have hin := hok hmine k hk
    rw [hplace] at hin
    exact hin hkind
  | @broadcast c k start hk hplace =>
    have hkind : start.kind = .gameStart := by
      have hproper := (hp c k hk).place
      rwa [hplace] at hproper
    exact hp.goOn (fun _ _ => ⟨hkind, fun _ hid => hid⟩) rfl
  | send hk hplace => exact hp.send hpoint hk hplace
  | @reply c k frames hk hplace =>
    have hproper := (hp c k hk).place
    rw [hplace] at hproper
    exact hp.reply hk hproper (fun _ _ => trivial) rfl
  | @refuse c k frames hk hplace =>
    have hproper := (hp c k hk).place
    rw [hplace] at hproper
    exact hp.reply hk hproper (fun _ _ => trivial) rfl
  | forget => exact hp.goOn (fun _ _ => trivial) rfl
  | leave => exact hp.goOn (fun _ _ => trivial) rfl
  | disconnect => exact (hp.disconnect _).goOn (fun _ _ => trivial) rfl
  | scan => exact hp
  | @reap id c => exact Proper.disconnect (h := { h with expired := h.expired.erase (id, c) }) hp id
  | process => exact hp.modify fun _ _ hk => hk.process

end Hub

end P2Poker.Dispatch
