import P2Poker.Dispatch.Registration

/-!
# Leases and the reaper

The reaper lists the ids whose lease is over in one pass and disconnects them
one by one afterwards, by id. In between, any frame of such a node renews its
lease, and the id may be registered again with a lease of its own.
-/

namespace P2Poker.Dispatch
open P2Poker.Lib

namespace Hub

/- When the lease of a connection's record is over. -/
def leaseAt (h : Hub) (d : ℕ) : Option ℤ := h.conns[d]?.map fun k => k.record.leaseUntil

/-- The id whose lease an event sets. -/
def renews (h : Hub) : Event → Option Bytes
  | .register c _ =>
    h.conns[c]?.bind fun k =>
      match k.place with
      | .registering frame => some frame.nodeID
      | _ => none
  | .receive c _ _ => h.conns[c]?.map fun k => k.record.id
  | .handle c _ =>
    h.conns[c]?.bind fun k =>
      match k.place with
      | .handling frame => if frame.kind = .heartbeatReq then some k.record.id else none
      | _ => none
  | _ => none

/- The records registered, and their leases, are as they were. -/
structure Still (h h' : Hub) : Prop where
  nodes : h'.nodes = h.nodes
  leases : ∀ d, h'.leaseAt d = h.leaseAt d

variable {h h' : Hub} {e : Event} {c d : ℕ} {k : Conn} {id : Bytes}

theorem leaseAt_eq (hk : h.conns[c]? = some k) : h.leaseAt c = some k.record.leaseUntil := by
  rw [leaseAt, hk]
  rfl

theorem leaseAt_modify_ne (f : Conn → Conn) (hd : d ≠ c) : (h.modify c f).leaseAt d = h.leaseAt d := by
  rw [leaseAt, modify_ne f hd, leaseAt]

theorem leaseAt_modify {f : Conn → Conn}
    (hf : ∀ k, h.conns[c]? = some k → (f k).record.leaseUntil = k.record.leaseUntil) (d : ℕ) :
    (h.modify c f).leaseAt d = h.leaseAt d := by
  by_cases hd : d = c
  · subst hd
    rw [leaseAt, leaseAt, modify, List.getElem?_modify_eq]
    cases hk : h.conns[d]? with
    | none => rfl
    | some k => exact congrArg some (hf k hk)
  · exact leaseAt_modify_ne f hd

theorem leaseAt_setPlace (h : Hub) (c : ℕ) (p : Place) (d : ℕ) : (h.setPlace c p).leaseAt d = h.leaseAt d :=
  leaseAt_modify (f := fun k => { k with place := p }) (fun _ _ => rfl) d

theorem Still.modify {b : Hub} {f : Conn → Conn} (hb : h.Still b)
    (hf : ∀ k, b.conns[c]? = some k → (f k).record.leaseUntil = k.record.leaseUntil) :
    h.Still (b.modify c f) := by
  refine ⟨hb.nodes, ?_⟩
  intro d
  rw [leaseAt_modify hf, hb.leases]

theorem Still.refl (h : Hub) : h.Still h := ⟨rfl, fun _ => rfl⟩

/- Sessions and counters may change. -/
theorem Still.tables (h : Hub) (s : Server) : h.Still { h with tables := s } := ⟨rfl, fun _ => rfl⟩

theorem Still.setPlace {b : Hub} (hb : h.Still b) (c : ℕ) (p : Place) : h.Still (b.setPlace c p) :=
  hb.modify fun _ _ => rfl

theorem Still.post {b : Hub} (hb : h.Still b) (c : ℕ) (frames : List Frame) : h.Still (b.post c frames) :=
  hb.modify fun _ _ => rfl

theorem Still.hello (h : Hub) (c : ℕ) (frame : Frame) : h.Still (h.hello c frame) := by
  unfold Hub.hello
  split_ifs
  · exact (Still.refl h).setPlace c _
  · exact (Still.tables h _).setPlace c _
  · exact (Still.tables h _).setPlace c _

theorem Still.send (h : Hub) (c : ℕ) (start : Frame) (rest : List Bytes) : h.Still (h.send c start rest) := by
  cases rest with
  | nil => exact (Still.refl h).setPlace c _
  | cons id rest =>
    rw [Hub.send]
    split
    · exact (Still.refl h).setPlace c _
    · exact ((Still.refl h).post _ _).setPlace c _

/- A handler that writes changes the session of the record alone. -/
theorem Still.commit {sid : Bytes} {run : Server → Server × List Sent} (hk : h.conns[c]? = some k)
    (hout : ∀ s : Server, s.Outcome k.record sid (run s).1) : h.Still (h.commit c run) := by
  refine (Still.tables h _).modify ?_
  intro k' hk'
  obtain rfl := Option.some.inj (hk'.symm.trans hk)
  rcases record_of_outcome (hout _) with ⟨_, hrec⟩ | ⟨_, hrec, _⟩
  · exact congrArg NodeConn.leaseUntil hrec
  · exact (congrArg NodeConn.leaseUntil hrec).trans rfl

theorem Still.handle {frame : Frame} {now : ℤ} (hk : h.conns[c]? = some k)
    (hkind : frame.kind ≠ .heartbeatReq) (hh : Handles h c k.record frame now h') : h.Still h' := by
  cases hh with
  | draw => exact (Still.tables h _).setPlace c _
  | create _ hname => exact .commit hk fun _ => Server.handleCreateSession_outcome hname
  | join => exact .commit hk fun _ => Server.handleJoinSession_outcome
  | heartbeat hbeat => exact absurd hbeat hkind
  | _ => exact (Still.refl h).setPlace c _

theorem leaseAt_renewLease {nodeID : Bytes} {now : ℤ} (hd : h.nodes.lookup nodeID ≠ some d) :
    (h.renewLease nodeID now).leaseAt d = h.leaseAt d := by
  unfold renewLease
  split
  · rfl
  · rename_i c hc
    apply leaseAt_modify_ne
    rintro rfl
    exact hd hc

/- Nobody else's lease is renewed: an id stands for a connection of that id. -/
theorem Pointed.lease_renewed {nodeID : Bytes} {now : ℤ} {p : Place} (hp : h.Pointed) (hne : id ≠ nodeID)
    (hd : ((h.renewLease nodeID now).setPlace c p).nodes.lookup id = some d) :
    h.nodes.lookup id = some d ∧ ((h.renewLease nodeID now).setPlace c p).leaseAt d = h.leaseAt d := by
  have hd' : (h.renewLease nodeID now).nodes.lookup id = some d := hd
  rw [renewLease_nodes] at hd'
  have hother : h.nodes.lookup nodeID ≠ some d := by
    intro hnode
    obtain ⟨k, hk, hkid, _⟩ := hp id d hd'
    obtain ⟨k', hk', hkid', _⟩ := hp nodeID d hnode
    rw [Option.some.inj (hk'.symm.trans hk)] at hkid'
    exact hne (hkid.symm.trans hkid')
  rw [leaseAt_setPlace, leaseAt_renewLease hother]
  exact ⟨hd', rfl⟩

/-- A registered id whose lease the event does not set stands for the same record as
before, with the same lease. -/
theorem Pointed.lease_kept (hp : h.Pointed) (hs : h.step e = some h') (hid : h.renews e ≠ some id)
    (hd : h'.nodes.lookup id = some d) : h.nodes.lookup id = some d ∧ h'.leaseAt d = h.leaseAt d := by
  have still : h.Still h' → h.nodes.lookup id = some d ∧ h'.leaseAt d = h.leaseAt d :=
    fun hstill => ⟨by rwa [← hstill.nodes], hstill.leases d⟩
  cases step_acts hs with
  | accept =>
    obtain ⟨k, hk, _⟩ := hp id d hd
    refine ⟨hd, ?_⟩
    rw [leaseAt, leaseAt, List.getElem?_append_left (List.getElem?_eq_some_iff.mp hk).1]
  | hello => exact still (.hello h _ _)
  | @register c k frame now hk hplace =>
    rw [renews, hk, Option.bind_some, hplace] at hid
    unfold Hub.register at hd ⊢
    split_ifs at hd ⊢ with hdup
    · exact ⟨hd, leaseAt_setPlace h c _ d⟩
    · have hd' : (h.nodes.insert frame.nodeID c).lookup id = some d := hd
      rw [lookup_insert_eq, if_neg fun heq => hid (congrArg some heq.symm)] at hd'
      exact ⟨hd', leaseAt_modify_ne _ (hp.ne hk hplace hd')⟩
  | @receive c k frame now hk =>
    rw [renews, hk, Option.map_some] at hid
    exact hp.lease_renewed (fun heq => hid (congrArg some heq.symm)) hd
  | @handle c k frame now _ hk hplace hh =>
    rw [renews, hk, Option.bind_some, hplace] at hid
    by_cases hkind : frame.kind = .heartbeatReq
    · dsimp only at hid
      rw [if_pos hkind] at hid
      cases hh with
      | heartbeat => exact hp.lease_renewed (fun heq => hid (congrArg some heq.symm)) hd
      | unknown _ hbeat => exact absurd hkind hbeat
      | _ hother => cases hkind.symm.trans hother
    · exact still (.handle hk hkind hh)
  | broadcast => exact still ((Still.refl h).setPlace _ _)
  | send => exact still (.send h _ _ _)
  | reply => exact still (((Still.refl h).post _ _).setPlace _ _)
  | refuse => exact still (((Still.refl h).post _ _).setPlace _ _)
  | forget => exact still ((Still.refl h).setPlace _ _)
  | leave => exact still ((Still.refl h).setPlace _ _)
  | disconnect =>
    refine ⟨lookup_of_disconnect hd, ?_⟩
    rw [leaseAt_setPlace, leaseAt, disconnect_conns, leaseAt]
  | scan => exact ⟨hd, rfl⟩
  | @reap id' c =>
    have hd' : h.nodes.lookup id = some d :=
      lookup_of_disconnect (h := { h with expired := h.expired.erase (id', c) }) hd
    refine ⟨hd', ?_⟩
    rw [leaseAt, disconnect_conns, leaseAt]
  | process => exact still ((Still.refl h).modify fun k _ => by rw [(process_record k).1])

end Hub

/-! ### The clock -/

def Event.now : Event → Option ℤ
  | .register _ now | .receive _ _ now | .handle _ now | .scan now => some now
  | _ => none

/-- Time passes between the sections. A time that a goroutine holds was read from the
clock, at any moment before. -/
structure Timed where
  hub : Hub
  clock : ℤ := 0

namespace Timed

inductive Happening where
  | tick (clock : ℤ)
  | act (e : Event)

def step (s : Timed) : Happening → Option Timed
  | .tick clock => if s.clock ≤ clock then some { s with clock := clock } else none
  | .act e =>
    if ∀ now ∈ e.now, now ≤ s.clock then (s.hub.step e).map fun h => { s with hub := h } else none

def start (cfg : Config) : Timed := { hub := Hub.start cfg }

/-- Nobody on the reaper's list has its lease renewed or its id registered again. -/
def Undisturbed (s : Timed) : Happening → Prop
  | .tick _ => True
  | .act e => ∀ id ∈ s.hub.renews e, id ∉ s.hub.expired.map Prod.fst

instance (s : Timed) (e : Happening) : Decidable (s.Undisturbed e) := by
  delta Undisturbed
  induction e using Happening.casesOn <;> infer_instance

/-- A record that the reaper removes by this event is past its lease. -/
def EvictsExpired (s : Timed) : Happening → Prop
  | .act (.reap id _) => ∀ d k, s.hub.nodes.lookup id = some d → s.hub.conns[d]? = some k →
      k.record.leaseUntil < s.clock
  | _ => True

/- Every id on the reaper's list that is registered is past its lease. -/
structure Due (s : Timed) : Prop where
  pointed : s.hub.Pointed
  past : ∀ id c, (id, c) ∈ s.hub.expired → ∀ d t, s.hub.nodes.lookup id = some d →
    s.hub.leaseAt d = some t → t < s.clock

variable {s s' : Timed} {cfg : Config} {es : List Happening} {e : Happening}

theorem Due.start : (Timed.start cfg).Due := ⟨(nofun : (Hub.start cfg).Pointed), nofun⟩

theorem Due.step (hdue : s.Due) (hok : s.Undisturbed e) (hs : s.step e = some s') : s'.Due := by
  cases e with
  | tick clock =>
    rw [Timed.step] at hs
    split_ifs at hs with hle
    obtain rfl := Option.some.inj hs
    refine ⟨hdue.pointed, ?_⟩
    intro id c hid d t hd ht
    exact lt_of_lt_of_le (hdue.past id c hid d t hd ht) hle
  | act e =>
    rw [Timed.step] at hs
    split_ifs at hs with hnow
    obtain ⟨h', hstep, rfl⟩ := Option.map_eq_some_iff.mp hs
    refine ⟨hdue.pointed.move (Hub.step_move hstep), ?_⟩
    intro id c hid d t hd ht
    rcases (Hub.step_move hstep).mem_expired hid with hold | ⟨now, rfl, hnew⟩
    · have hfree : s.hub.renews e ≠ some id :=
        fun heq => hok id heq (List.mem_map_of_mem (f := Prod.fst) hold)
      obtain ⟨hd', hlease⟩ := hdue.pointed.lease_kept hstep hfree hd
      rw [hlease] at ht
      exact hdue.past id c hold d t hd' ht
    · -- the scan has just compared this lease with a time it had read
      obtain ⟨hd', hlease⟩ := hdue.pointed.lease_kept hstep nofun hd
      obtain ⟨hc, k, hk, hlt⟩ := Hub.mem_overdue hnew
      obtain rfl := Option.some.inj (hd'.symm.trans hc)
      rw [hlease, Hub.leaseAt_eq hk] at ht
      rw [← Option.some.inj ht]
      exact lt_of_lt_of_le hlt (hnow now rfl)

theorem due_of_trace (ht : Trace step Undisturbed (start cfg) es s) : s.Due :=
  ht.keeps Due.start fun _ _ _ hok hs hdue => hdue.step hok hs

theorem reaper_evicts_expired (ht : Trace step Undisturbed (start cfg) es s) (e : Happening)
    (hs : s.step e = some s') : s.EvictsExpired e := by
  have hdue : s.Due := due_of_trace ht
  unfold EvictsExpired
  split
  · rename_i id c
    intro d k hd hk
    have hmem : (id, c) ∈ s.hub.expired := by
      rw [Timed.step] at hs
      split_ifs at hs
      obtain ⟨h', hstep, -⟩ := Option.map_eq_some_iff.mp hs
      rw [Hub.step] at hstep
      split_ifs at hstep with hreap
      exact hreap.1
    exact hdue.past id c hmem d _ hd (Hub.leaseAt_eq hk)
  · trivial

def quietNode : List Happening :=
  (Hub.enrol 0 Hub.aliceID 0).map .act ++ [.tick 100000000000, .act (.scan 100000000000)]

theorem quietNode_evicted :
    (run step Undisturbed (start sampleConfig) quietNode).EvictsExpired (.act (.reap Hub.aliceID 0)) ∧
      (run step Undisturbed (start sampleConfig) quietNode).hub.leaseAt 0 = some 15000000000 := by
  have ht : Trace step Undisturbed (start sampleConfig) quietNode
      (run step Undisturbed (start sampleConfig) quietNode) := run_trace (by decide +kernel)
  have hsome : ((run step Undisturbed (start sampleConfig) quietNode).step
      (.act (.reap Hub.aliceID 0))).isSome := by decide +kernel
  obtain ⟨s', hs⟩ := Option.isSome_iff_exists.mp hsome
  exact ⟨reaper_evicts_expired ht _ hs, by decide +kernel⟩

/- A heartbeat comes in after the scan: the node is evicted with 15 s of lease left. -/
def renewedNode : List Happening :=
  quietNode ++ [.act (.receive 0 { kind := .heartbeatReq } 100000000000)]

theorem renewed_node_evicted : ∃ s s', Trace step Free (start sampleConfig) renewedNode s ∧
    Trace step Free s [.act (.reap Hub.aliceID 0)] s' ∧ s.hub.nodes.lookup Hub.aliceID = some 0 ∧
    s'.hub.nodes.lookup Hub.aliceID = none ∧ s.clock = 100000000000 ∧
    s.hub.leaseAt 0 = some 115000000000 ∧ ¬ s.EvictsExpired (.act (.reap Hub.aliceID 0)) := by
  have hreg : (run step Free (start sampleConfig) renewedNode).hub.nodes.lookup Hub.aliceID = some 0 := by
    decide +kernel
  have hclock : (run step Free (start sampleConfig) renewedNode).clock = 100000000000 := by decide +kernel
  have hlease : (run step Free (start sampleConfig) renewedNode).hub.leaseAt 0 = some 115000000000 := by
    decide +kernel
  refine ⟨run step Free (start sampleConfig) renewedNode, run step Free _ _, run_trace (by decide +kernel),
    run_trace (by decide +kernel), hreg, by decide +kernel, hclock, hlease, ?_⟩
  intro hexp
  obtain ⟨k, hk, hk'⟩ := Option.map_eq_some_iff.mp hlease
  have hlt := hexp 0 k hreg hk
  rw [hk', hclock] at hlt
  exact absurd hlt (by decide)

end Timed

end P2Poker.Dispatch
