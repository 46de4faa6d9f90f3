import P2Poker.Dispatch.Connections

/-!
# Which record an id stands for

`disconnect` removes by id whatever record the table has, and a handler goes on
with the record it was given. Both are safe as long as an id stands for one
connection at a time.
-/

namespace P2Poker.Dispatch
open P2Poker.Lib

namespace Hub
variable {h h' : Hub} {e : Event} {c : ℕ} {k : Conn} {id : Bytes}

/-! ### Who removes a record -/

theorem disconnect_nodes (h : Hub) (nodeID : Bytes) :
    (h.disconnect nodeID).nodes = h.nodes ∨ (h.disconnect nodeID).nodes = h.nodes.erase nodeID := by
  unfold disconnect
  split
  · exact .inl rfl
  · split
    · exact .inl rfl
    · exact .inr rfl

theorem lookup_of_disconnect {nodeID : Bytes} (hc : (h.disconnect nodeID).nodes.lookup id = some c) :
    h.nodes.lookup id = some c := by
  rcases disconnect_nodes h nodeID with heq | heq
  · rwa [heq] at hc
  · rw [heq, lookup_erase_eq] at hc
    split_ifs at hc
    exact hc

theorem lookup_disconnect_ne {nodeID : Bytes} (hne : id ≠ nodeID) :
    (h.disconnect nodeID).nodes.lookup id = h.nodes.lookup id := by
  rcases disconnect_nodes h nodeID with heq | heq
  · rw [heq]
  · rw [heq, lookup_erase_eq, if_neg hne]

@[simp] theorem disconnect_conns (nodeID : Bytes) : (h.disconnect nodeID).conns = h.conns := by
  unfold disconnect
  split
  · rfl
  · split <;> rfl

@[simp] theorem disconnect_expired (nodeID : Bytes) : (h.disconnect nodeID).expired = h.expired := by
  unfold disconnect
  split
  · rfl
  · split <;> rfl

@[simp] theorem renewLease_nodes (nodeID : Bytes) (now : ℤ) : (h.renewLease nodeID now).nodes = h.nodes := by
  unfold renewLease
  split <;> rfl

theorem renewLease_expired (nodeID : Bytes) (now : ℤ) : (h.renewLease nodeID now).expired = h.expired := by
  unfold renewLease
  split <;> rfl

theorem send_nodes (c : ℕ) (start : Frame) (rest : List Bytes) : (h.send c start rest).nodes = h.nodes := by
  cases rest with
  | nil => rfl
  | cons id rest =>
    rw [send]
    split <;> rfl

theorem send_expired (c : ℕ) (start : Frame) (rest : List Bytes) :
    (h.send c start rest).expired = h.expired := by
  cases rest with
  | nil => rfl
  | cons id rest =>
    rw [send]
    split <;> rfl

theorem Move.removes (hm : Move h e h') (hreg : h.nodes.lookup id = some c)
    (hgone : h'.nodes.lookup id ≠ some c) :
    (∃ d k, e = .disconnect d ∧ h.conns[d]? = some k ∧ k.place = .leaving ∧ k.record.id = id) ∨
    ∃ d, e = .reap id d ∧ (id, d) ∈ h.expired := by
  cases hm with
  | register hk hp hnew =>
    refine absurd ?_ hgone
    show (h.nodes.insert _ _).lookup id = some c
    rw [lookup_insert_eq, if_neg, hreg]
    rintro rfl
    rw [hreg] at hnew
    cases hnew
  | @disconnect d k hk hp _ =>
    by_cases hid : id = k.record.id
    · exact .inl ⟨d, k, rfl, hk, hp, hid.symm⟩
    · refine absurd ?_ hgone
      show (h.disconnect k.record.id).nodes.lookup id = some c
      rw [lookup_disconnect_ne hid, hreg]
  | @reap id' d hmem _ =>
    by_cases hid : id = id'
    · subst hid
      exact .inr ⟨d, rfl, hmem⟩
    · refine absurd ?_ hgone
      rw [lookup_disconnect_ne hid]
      exact hreg
  | lease =>
    refine absurd ?_ hgone
    show (h.renewLease _ _).nodes.lookup id = some c
    rw [renewLease_nodes, hreg]
  | send =>
    rw [send_nodes] at hgone
    exact absurd hreg hgone
  | _ => exact absurd hreg hgone

/-! ### One connection at a time -/

/-- An id registers again only when the goroutines of its earlier connections have
ended and the reaper is not about to disconnect it. -/
def FreshID (h : Hub) : Event → Prop
  | .register c _ =>
    ∀ k ∈ h.conns[c]?,
      match k.place with
      | .registering frame =>
        (∀ k' ∈ h.conns, k'.place.live = true → k'.record.id ≠ frame.nodeID) ∧
        ∀ x ∈ h.expired, x.1 ≠ frame.nodeID
      | _ => True
  | _ => True

structure Settled (h : Hub) : Prop where
  own : ∀ (d : ℕ) k, h.conns[d]? = some k → k.place.live = true →
    ∀ c, h.nodes.lookup k.record.id = some c → c = d
  due : ∀ id d, (id, d) ∈ h.expired → ∀ c, h.nodes.lookup id = some c → c = d

instance : Decidable (h.FreshID e) := by
  delta FreshID
  induction e using Event.casesOn with
  | register =>
    have : ∀ k : Conn, Decidable (match k.place with
      | .registering frame =>
        (∀ k' ∈ h.conns, k'.place.live = true → k'.record.id ≠ frame.nodeID) ∧
        ∀ x ∈ h.expired, x.1 ≠ frame.nodeID
      | _ => True) := fun k => by induction k.place using Place.casesOn <;> infer_instance
    infer_instance
  | _ => infer_instance

theorem Settled.modify {f : Conn → Conn} (hs : h.Settled)
    (hf : ∀ k, h.conns[c]? = some k →
      (f k).record.id = k.record.id ∧ ((f k).place.live = true → k.place.live = true)) :
    (h.modify c f).Settled := by
  refine ⟨?_, hs.due⟩
  intro d k' hk' hlive x hx
  rcases of_modify hk' with ⟨k, rfl, hk, rfl⟩ | ⟨_, hk⟩
  · rw [(hf k hk).1] at hx
    exact hs.own _ k hk ((hf k hk).2 hlive) x hx
  · exact hs.own d k' hk hlive x hx

theorem Settled.fewer (hs : h.Settled) (hconns : h'.conns = h.conns)
    (hnodes : ∀ id c, h'.nodes.lookup id = some c → h.nodes.lookup id = some c)
    (hexp : ∀ x ∈ h'.expired, x ∈ h.expired) : h'.Settled := by
  constructor
  · intro d k hk hlive x hx
    rw [hconns] at hk
    exact hs.own d k hk hlive x (hnodes _ _ hx)
  · intro id d hd x hx
    exact hs.due id d (hexp _ hd) x (hnodes _ _ hx)

theorem Settled.disconnect (hs : h.Settled) (nodeID : Bytes) : (h.disconnect nodeID).Settled :=
  hs.fewer (disconnect_conns _) (fun _ _ => lookup_of_disconnect) fun x hx => by
    rwa [disconnect_expired] at hx

theorem Settled.renewLease (hs : h.Settled) (nodeID : Bytes) (now : ℤ) :
    (h.renewLease nodeID now).Settled := by
  unfold Hub.renewLease
  split
  · exact hs
  · exact hs.modify fun _ _ => ⟨rfl, fun hlive => hlive⟩

/- A change to one connection at a place where nothing is registered or removed. -/
theorem Settled.setPlace {p : Place} (hs : h.Settled)
    (hlive : ∀ k, h.conns[c]? = some k → p.live = true → k.place.live = true) :
    (h.setPlace c p).Settled :=
  hs.modify fun k hk => ⟨rfl, hlive k hk⟩

theorem Settled.post (hs : h.Settled) (frames : List Frame) : (h.post c frames).Settled :=
  hs.modify fun _ _ => ⟨rfl, fun hlive => hlive⟩

theorem mem_overdue {now : ℤ} (hmem : (id, c) ∈ h.overdue now) :
    h.nodes.lookup id = some c ∧ ∃ k, h.conns[c]? = some k ∧ k.record.leaseUntil < now := by
  obtain ⟨id', _, hid'⟩ := List.mem_filterMap.mp hmem
  obtain ⟨c', hc', hrest⟩ := Option.bind_eq_some_iff.mp hid'
  obtain ⟨k, hk, hlt⟩ := Option.bind_eq_some_iff.mp hrest
  split_ifs at hlt with hover
  cases hlt
  exact ⟨hc', k, hk, hover⟩

theorem Settled.send (hs : h.Settled) (hk : h.conns[c]? = some k) (hlive : k.place.live = true)
    (start : Frame) (rest : List Bytes) : (h.send c start rest).Settled := by
  have hset : ∀ p : Place, (h.setPlace c p).Settled := fun p => hs.setPlace fun k' hk' _ => by
    rwa [Option.some.inj (hk'.symm.trans hk)]
  cases rest with
  | nil => exact hset _
  | cons id rest =>
    rw [Hub.send]
    split
    · exact hset _
    · refine (hs.post [start]).setPlace fun k' hk' _ => ?_
      rcases of_modify hk' with ⟨k₀, rfl, hk₀, rfl⟩ | ⟨_, hk₀⟩
      · rwa [Option.some.inj (hk₀.symm.trans hk)]
      · rwa [Option.some.inj (hk₀.symm.trans hk)]

theorem Settled.move (hs : h.Settled) (hok : h.FreshID e) (hm : Move h e h') : h'.Settled := by
  cases hm with
  | accept =>
    refine ⟨?_, hs.due⟩
    intro d k hk hlive
    rw [List.getElem?_append] at hk
    split_ifs at hk
    · exact hs.own d k hk hlive
    · obtain rfl := List.mem_singleton.mp (List.mem_of_getElem? hk)
      cases hlive
  | place hk _ hlive =>
    refine Settled.setPlace (hs.fewer rfl (fun _ _ hx => hx) fun _ hx => hx) fun k' hk' hp => ?_
    rw [Option.some.inj (hk'.symm.trans hk)]
    exact hlive hp
  | lease hk hlive =>
    refine (hs.renewLease _ _).setPlace fun k' hk' hp => ?_
    obtain ⟨k₀, _, hk₀, rfl⟩ := of_renewLease hk'
    rw [Option.some.inj (hk₀.symm.trans hk)]
    exact hlive hp
  | @register c k frame now nc resp hk hp hnew hid =>
    obtain ⟨hconns, hexp⟩ := by simpa only [hp] using hok k hk
    constructor
    · intro d k' hk' hlive x hx
      rcases of_modify hk' with ⟨_, rfl, _, rfl⟩ | ⟨hd, hk'⟩
      · have hx' : (h.nodes.insert frame.nodeID d).lookup nc.id = some x := hx
        rw [hid, Finmap.lookup_insert] at hx'
        exact (Option.some.inj hx').symm
      · have hne := hconns k' (List.mem_of_getElem? hk') hlive
        have hx' : (h.nodes.insert frame.nodeID c).lookup k'.record.id = some x := hx
        rw [Finmap.lookup_insert_of_ne _ hne] at hx'
        exact hs.own d k' hk' hlive x hx'
    · intro id d hd x hx
      have hx' : (h.nodes.insert frame.nodeID c).lookup id = some x := hx
      rw [Finmap.lookup_insert_of_ne _ (hexp _ hd)] at hx'
      exact hs.due id d hd x hx'
  | commit hk hp _ hout =>
    refine Settled.modify (hs.fewer rfl (fun _ _ hx => hx) fun _ hx => hx) fun k' hk' => ?_
    obtain rfl := Option.some.inj (hk'.symm.trans hk)
    refine ⟨?_, fun _ => by rw [hp]; rfl⟩
    rcases record_of_outcome (hout _) with ⟨_, hrec⟩ | ⟨_, hrec, _⟩
    · exact congrArg NodeConn.id hrec
    · exact (congrArg NodeConn.id hrec).trans rfl
  | broadcast hk hp =>
    refine hs.setPlace fun k' hk' _ => ?_
    rw [Option.some.inj (hk'.symm.trans hk), hp]
    rfl
  | send hk hp => exact hs.send hk (by rw [hp]; rfl) _ _
  | reply hk hp =>
    refine (hs.post _).setPlace fun k' hk' hlive => ?_
    rcases hp with ⟨hp, _⟩ | ⟨_, rfl⟩
    · rcases of_modify hk' with ⟨k₀, _, hk₀, rfl⟩ | ⟨hne, _⟩
      · rw [Option.some.inj (hk₀.symm.trans hk), hp]
        rfl
      · exact absurd rfl hne
    · cases hlive
  | disconnect hk hp => exact (hs.disconnect _).setPlace fun _ _ hlive => by cases hlive
  | scan =>
    refine ⟨hs.own, ?_⟩
    intro id d hd x hx
    have := (mem_overdue hd).1
    exact Option.some.inj (hx.symm.trans this)
  | @reap id c hmem _ =>
    have hless : Settled { h with expired := h.expired.erase (id, c) } :=
      hs.fewer rfl (fun _ _ hx => hx) fun _ hx => List.mem_of_mem_erase hx
    exact hless.disconnect id
  | process =>
    refine hs.modify fun k _ => ?_
    rw [(process_record k).1, (process_record k).2]
    exact ⟨rfl, fun hlive => hlive⟩

theorem Settled.start (cfg : Config) : (Hub.start cfg).Settled := by
  constructor
  · intro d k hk
    cases hk
  · intro id d hd
    cases hd

theorem Settled.of_trace {cfg : Config} {es : List Event} (ht : Trace step FreshID (Hub.start cfg) es h) :
    h.Settled :=
  ht.keeps (Settled.start cfg) fun _ _ _ hok hstep hs => hs.move hok (step_move hstep)

/-- A scan of the reaper in this history found the lease of the record over. -/
def FoundOverdue (cfg : Config) (es : List Event) (id : Bytes) (c : ℕ) : Prop :=
  ∃ es₁ now es₂ h k, es = es₁ ++ .scan now :: es₂ ∧ Trace step Free (Hub.start cfg) es₁ h ∧
    h.nodes.lookup id = some c ∧ h.conns[c]? = some k ∧ k.record.leaseUntil < now

theorem FoundOverdue.snoc {cfg : Config} {es : List Event} (ho : FoundOverdue cfg es id c) :
    FoundOverdue cfg (es ++ [e]) id c := by
  obtain ⟨es₁, now, es₂, h, k, rfl, hrest⟩ := ho
  exact ⟨es₁, now, es₂ ++ [e], h, k, by simp, hrest⟩

theorem Move.mem_expired (hm : Move h e h') {x : Bytes × ℕ} (hx : x ∈ h'.expired) :
    x ∈ h.expired ∨ ∃ now, e = .scan now ∧ x ∈ h.overdue now := by
  cases hm with
  | @scan now => exact .inr ⟨now, rfl, hx⟩
  | disconnect =>
    left
    simpa [setPlace, modify] using hx
  | reap =>
    rw [disconnect_expired] at hx
    exact .inl (List.mem_of_mem_erase hx)
  | lease =>
    left
    simpa [setPlace, modify, renewLease_expired] using hx
  | send =>
    rw [send_expired] at hx
    exact .inl hx
  | _ => exact .inl hx

theorem found_of_expired {cfg : Config} {es : List Event} {ok : Hub → Event → Prop}
    (ht : Trace step ok (Hub.start cfg) es h) (hmem : (id, c) ∈ h.expired) : FoundOverdue cfg es id c := by
  induction ht with
  | nil => cases hmem
  | snoc e ht _ hstep ih =>
    rcases (step_move hstep).mem_expired hmem with hold | ⟨now, rfl, hnew⟩
    · exact (ih hold).snoc
    · obtain ⟨hreg, k, hk, hover⟩ := mem_overdue hnew
      exact ⟨_, now, [], _, k, rfl, ht.mono fun _ _ _ => trivial, hreg, hk, hover⟩

theorem record_removed_by_own_end {cfg : Config} {es : List Event}
    (ht : Trace step FreshID (Hub.start cfg) es h) (hstep : h.step e = some h')
    (hreg : h.nodes.lookup id = some c) (hgone : h'.nodes.lookup id ≠ some c) :
    e = .disconnect c ∨ e = .reap id c ∧ FoundOverdue cfg es id c := by
  have hs := Settled.of_trace ht
  rcases (step_move hstep).removes hreg hgone with ⟨d, k, rfl, hk, hp, rfl⟩ | ⟨d, rfl, hmem⟩
  · obtain rfl := hs.own d k hk (by rw [hp]; rfl) c hreg
    exact .inl rfl
  · obtain rfl := hs.due id d hmem c hreg
    exact .inr ⟨rfl, found_of_expired ht hmem⟩

/- A node registers as `id` on connection `c`. -/
def enrol (c : ℕ) (id : Bytes) (now : ℤ) : List Event :=
  [.accept, .hello c { kind := .registerReq, nodeID := id }, .register c now, .reply c]

def aliceID : Bytes := ascii "alice"

/- Alice hangs up, registers again and is found overdue. -/
def returnedAndLapsed : List Event :=
  enrol 0 aliceID 0 ++ [.hangUp 0, .disconnect 0] ++ enrol 1 aliceID 0 ++ [.scan 100000000000]

theorem lapsed_record_removed : FoundOverdue sampleConfig returnedAndLapsed aliceID 1 := by
  have ht : Trace step FreshID (Hub.start sampleConfig) returnedAndLapsed
      (run step FreshID (Hub.start sampleConfig) returnedAndLapsed) := run_trace (by decide +kernel)
  have hreap : ((run step FreshID (Hub.start sampleConfig) returnedAndLapsed).step (.reap aliceID 1)).map
      (fun h => h.nodes.lookup aliceID) = some none := by decide +kernel
  have hreg : (run step FreshID (Hub.start sampleConfig) returnedAndLapsed).nodes.lookup aliceID = some 1 := by
    decide +kernel
  obtain ⟨h', hstep, hgone⟩ := Option.map_eq_some_iff.mp hreap
  have hend := record_removed_by_own_end ht hstep hreg (by rw [hgone]; nofun)
  exact (hend.resolve_left nofun).2

/- Alice's lease lapses and she registers again, before the goroutine of her first
connection has ended. -/
def reconnected : List Event :=
  enrol 0 aliceID 0 ++ [.scan 100000000000, .reap aliceID 0] ++ enrol 1 aliceID 100000000000 ++ [.hangUp 0]

theorem newer_record_evicted : ∃ h h' : Hub,
    Trace step Free (Hub.start sampleConfig) reconnected h ∧ Trace step Free h [.disconnect 0] h' ∧
    h.nodes.lookup aliceID = some 1 ∧ h'.nodes.lookup aliceID = none := by
  refine ⟨run step Free (Hub.start sampleConfig) reconnected, run step Free _ _,
    run_trace (by decide +kernel), run_trace (by decide +kernel), ?_⟩
  decide +kernel

/-! ### Who is listed -/

/-- A session is created or joined only while the table has the goroutine's own
record under its id. -/
def OwnsRecord (h : Hub) : Event → Prop
  | .handle c _ =>
    ∀ k ∈ h.conns[c]?,
      match k.place with
      | .handling frame =>
        frame.kind = .createSessionReq ∨ frame.kind = .joinSessionReq → h.nodes.lookup k.record.id = some c
      | _ => True
  | _ => True

instance : Decidable (h.OwnsRecord e) := by
  delta OwnsRecord
  induction e using Event.casesOn with
  | handle c =>
    have : ∀ k : Conn, Decidable (match k.place with
      | .handling frame =>
        frame.kind = .createSessionReq ∨ frame.kind = .joinSessionReq → h.nodes.lookup k.record.id = some c
      | _ => True) := fun k => by induction k.place using Place.casesOn <;> infer_instance
    infer_instance
  | _ => infer_instance

/- The goroutine of a connection has its record, whether or not the table has it. -/
def Enrolled (h : Hub) (c : ℕ) (id : Bytes) : Prop :=
  ∃ k, h.conns[c]? = some k ∧ k.record.id = id ∧ k.place.enrolled = true

theorem Enrolled.modify {d : ℕ} {f : Conn → Conn} (he : h.Enrolled c id)
    (hf : ∀ k, h.conns[d]? = some k → k.place.enrolled = true →
      (f k).record.id = k.record.id ∧ (f k).place.enrolled = true) : (h.modify d f).Enrolled c id := by
  obtain ⟨k, hk, hid, henr⟩ := he
  by_cases hcd : c = d
  · subst hcd
    exact ⟨f k, modify_self f hk, (hf k hk henr).1.trans hid, (hf k hk henr).2⟩
  · exact ⟨k, by rwa [modify_ne f hcd], hid, henr⟩

theorem Enrolled.setPlace {d : ℕ} {p : Place} (he : h.Enrolled c id) (hp : ∀ k, h.conns[d]? = some k →
    k.place.enrolled = true → p.enrolled = true) : (h.setPlace d p).Enrolled c id :=
  he.modify fun k hk henr => ⟨rfl, hp k hk henr⟩

theorem Enrolled.post {d : ℕ} {frames : List Frame} (he : h.Enrolled c id) :
    (h.post d frames).Enrolled c id :=
  he.modify fun _ _ henr => ⟨rfl, henr⟩

theorem Enrolled.of_conns (he : h.Enrolled c id) (hconns : h'.conns = h.conns) : h'.Enrolled c id := by
  unfold Enrolled
  rwa [hconns]

theorem Enrolled.renewLease (he : h.Enrolled c id) (nodeID : Bytes) (now : ℤ) :
    (h.renewLease nodeID now).Enrolled c id := by
  unfold Hub.renewLease
  split
  · exact he
  · exact he.modify fun _ _ henr => ⟨rfl, henr⟩

theorem Enrolled.send {d : ℕ} (he : h.Enrolled c id) (start : Frame) (rest : List Bytes) :
    (h.send d start rest).Enrolled c id := by
  cases rest with
  | nil => exact he.setPlace fun _ _ _ => rfl
  | cons id' rest =>
    rw [Hub.send]
    split
    · exact he.setPlace fun _ _ _ => rfl
    · exact he.post.setPlace fun _ _ _ => rfl

/- A record is made once for a connection. -/
theorem Enrolled.move (he : h.Enrolled c id) (hm : Move h e h') : h'.Enrolled c id := by
  cases hm with
  | accept =>
    obtain ⟨k, hk, hrest⟩ := he
    exact ⟨k, by rw [List.getElem?_append_left (List.getElem?_eq_some_iff.mp hk).1, hk], hrest⟩
  | place hk _ _ henr =>
    refine Enrolled.setPlace (he.of_conns rfl) fun k' hk' hp => ?_
    rw [Option.some.inj (hk'.symm.trans hk)] at hp
    rcases henr with heq | rfl
    · rw [heq, hp]
    · rfl
  | lease hk _ henr =>
    refine (he.renewLease _ _).setPlace fun k' hk' hp => ?_
    obtain ⟨k₀, _, hk₀, rfl⟩ := of_renewLease hk'
    rw [henr, ← Option.some.inj (hk₀.symm.trans hk)]
    exact hp
  | register hk hplace =>
    refine Enrolled.modify (he.of_conns rfl) fun k' hk' henr => ?_
    rw [Option.some.inj (hk'.symm.trans hk), hplace] at henr
    cases henr
  | commit hk _ _ hout =>
    refine Enrolled.modify (he.of_conns rfl) fun k' hk' _ => ?_
    obtain rfl := Option.some.inj (hk'.symm.trans hk)
    refine ⟨?_, rfl⟩
    rcases record_of_outcome (hout _) with ⟨_, hrec⟩ | ⟨_, hrec, _⟩
    · exact congrArg NodeConn.id hrec
    · exact (congrArg NodeConn.id hrec).trans rfl
  | broadcast => exact he.setPlace fun _ _ _ => rfl
  | send => exact he.send _ _
  | reply _ hplace =>
    refine he.post.setPlace fun _ _ _ => ?_
    rcases hplace with ⟨_, rfl⟩ | ⟨_, rfl⟩ <;> rfl
  | disconnect => exact (he.of_conns (disconnect_conns _)).setPlace fun _ _ _ => rfl
  | scan => exact he.of_conns rfl
  | reap => exact he.of_conns (disconnect_conns _)
  | process =>
    refine he.modify fun k _ henr => ?_
    rw [(process_record k).1, (process_record k).2]
    exact ⟨rfl, henr⟩

/- The table points at records that were registered under that id. -/
def Pointed (h : Hub) : Prop :=
  ∀ id c, h.nodes.lookup id = some c →
    ∃ k, h.conns[c]? = some k ∧ k.record.id = id ∧ k.place.enrolled = true

/- Nothing points at a connection that is still registering. -/
theorem Pointed.ne {frame : Frame} (hp : h.Pointed) (hk : h.conns[c]? = some k)
    (hplace : k.place = .registering frame) {d : ℕ} (hd : h.nodes.lookup id = some d) : d ≠ c := by
  rintro rfl
  obtain ⟨k', hk', _, henr⟩ := hp id d hd
  rw [Option.some.inj (hk'.symm.trans hk), hplace] at henr
  cases henr

/- The table gains an entry by a registration only. -/
theorem Move.entry {d : ℕ} (hm : Move h e h') (hd : h'.nodes.lookup id = some d) :
    h.nodes.lookup id = some d ∨ h'.Enrolled d id := by
  cases hm with
  | @register _ _ frame _ nc resp hk _ _ hid =>
    have hd' : (h.nodes.insert frame.nodeID _).lookup id = some d := hd
    rw [lookup_insert_eq] at hd'
    split_ifs at hd' with heq
    · obtain rfl := Option.some.inj hd'
      exact .inr ⟨_, modify_self _ hk, hid.trans heq.symm, rfl⟩
    · exact .inl hd'
  | send =>
    rw [send_nodes] at hd
    exact .inl hd
  | @lease _ c _ _ nodeID now =>
    have hd' : (h.renewLease nodeID now).nodes.lookup id = some d := hd
    rw [renewLease_nodes] at hd'
    exact .inl hd'
  | disconnect => exact .inl (lookup_of_disconnect (h := h) hd)
  | @reap nodeID c =>
    exact .inl (lookup_of_disconnect (h := { h with expired := h.expired.erase (nodeID, c) }) hd)
  | accept => exact .inl hd
  | place => exact .inl hd
  | commit => exact .inl hd
  | broadcast => exact .inl hd
  | reply => exact .inl hd
  | scan => exact .inl hd
  | process => exact .inl hd

theorem Pointed.move (hp : h.Pointed) (hm : Move h e h') : h'.Pointed := by
  intro id d hd
  rcases hm.entry hd with hold | hnew
  · exact Enrolled.move (hp id d hold) hm
  · exact hnew

theorem Pointed.of_trace {cfg : Config} {es : List Event} {ok : Hub → Event → Prop}
    (ht : Trace step ok (Hub.start cfg) es h) : h.Pointed :=
  ht.keeps (fun _ _ hd => nomatch hd) fun _ _ _ _ hstep hp => hp.move (step_move hstep)

/-- Every listed member is registered, with a record that says so. -/
structure Listed (h : Hub) : Prop where
  unnamed : h.tables.memberSet [] = ∅
  members : ∀ sid id, id ∈ h.tables.memberSet sid →
    ∃ c k, h.nodes.lookup id = some c ∧ h.conns[c]? = some k ∧ k.record.sessionID = sid

theorem Listed.modify {f : Conn → Conn} (hl : h.Listed)
    (hf : ∀ k, h.conns[c]? = some k → (f k).record.sessionID = k.record.sessionID) :
    (h.modify c f).Listed := by
  refine ⟨hl.unnamed, ?_⟩
  intro sid id hid
  obtain ⟨d, k, hd, hk, hs⟩ := hl.members sid id hid
  by_cases hdc : d = c
  · subst hdc
    exact ⟨d, f k, hd, modify_self f hk, (hf k hk).trans hs⟩
  · exact ⟨d, k, hd, by rwa [modify_ne f hdc], hs⟩

theorem Listed.congr (hl : h.Listed) (hconns : h'.conns = h.conns) (hnodes : h'.nodes = h.nodes)
    (hsess : h'.tables.sessions = h.tables.sessions) : h'.Listed := by
  have hmem : h'.tables.memberSet = h.tables.memberSet := by
    funext k
    rw [Server.memberSet, Server.memberSet, hsess]
  refine ⟨hmem ▸ hl.unnamed, ?_⟩
  rw [hnodes, hconns, hmem]
  exact hl.members

theorem Listed.setPlace (hl : h.Listed) (p : Place) : (h.setPlace c p).Listed :=
  hl.modify fun _ _ => rfl

theorem Listed.post (hl : h.Listed) (frames : List Frame) : (h.post c frames).Listed :=
  hl.modify fun _ _ => rfl

theorem Listed.sid_ne (hl : h.Listed) {sid : Bytes} (hid : id ∈ h.tables.memberSet sid) : sid ≠ [] := by
  rintro rfl
  rw [hl.unnamed] at hid
  exact Finset.notMem_empty _ hid

/- A node leaves the one session that lists it. -/
theorem Listed.mem_leave (hl : h.Listed) (hreg : h.nodes.lookup k.record.id = some c)
    (hk : h.conns[c]? = some k) {sid : Bytes} (hid : id ∈ h.tables.memberSet sid)
    (hnot : sid ≠ [] → sid = k.record.sessionID → id ≠ k.record.id) : id ≠ k.record.id := by
  rintro rfl
  obtain ⟨d, kd, hd, hkd, hs⟩ := hl.members sid _ hid
  obtain rfl := Option.some.inj (hd.symm.trans hreg)
  obtain rfl := Option.some.inj (hkd.symm.trans hk)
  exact hnot (hl.sid_ne hid) hs.symm rfl

theorem Listed.disconnect (hl : h.Listed) (hp : h.Pointed) (nodeID : Bytes) :
    (h.disconnect nodeID).Listed := by
  unfold Hub.disconnect
  split
  · exact hl
  · rename_i c hc
    obtain ⟨k, hk, rfl, _⟩ := hp nodeID c hc
    simp only [hk]
    have hold : ∀ sid id, id ∈ (h.tables.leave k.record).memberSet sid →
        id ∈ h.tables.memberSet sid ∧ id ≠ k.record.id := by
      intro sid id hid
      obtain ⟨hid, hnot⟩ := Server.mem_of_leave hid
      exact ⟨hid, hl.mem_leave hc hk hid hnot⟩
    constructor
    · refine Finset.eq_empty_of_forall_notMem fun id hid => ?_
      exact hl.sid_ne (hold [] id hid).1 rfl
    · intro sid id hid
      obtain ⟨hid, hne⟩ := hold sid id hid
      obtain ⟨d, kd, hd, hrest⟩ := hl.members sid id hid
      refine ⟨d, kd, ?_, hrest⟩
      show (h.nodes.erase k.record.id).lookup id = some d
      rw [lookup_erase_eq, if_neg hne, hd]

theorem Listed.register {frame : Frame} {nc : NodeConn} {resp : Frame} (hl : h.Listed) (hp : h.Pointed)
    (hk : h.conns[c]? = some k) (hplace : k.place = .registering frame)
    (hnew : h.nodes.lookup frame.nodeID = none) :
    ({ h with nodes := h.nodes.insert frame.nodeID c }.modify c fun k =>
      { k with record := nc, place := .replying [resp] }).Listed := by
  refine ⟨hl.unnamed, ?_⟩
  intro sid id hid
  obtain ⟨d, kd, hd, hkd, hs⟩ := hl.members sid id hid
  refine ⟨d, kd, ?_, by rwa [modify_ne _ (hp.ne hk hplace hd)], hs⟩
  show (h.nodes.insert frame.nodeID c).lookup id = some d
  rw [lookup_insert_eq, if_neg, hd]
  rintro rfl
  rw [hnew] at hd
  cases hd

theorem Listed.commit {frame : Frame} {run : Server → Server × List Sent} (hl : h.Listed)
    (hp : h.Pointed) (hk : h.conns[c]? = some k) (hreg : h.nodes.lookup k.record.id = some c)
    (hout : ∀ s : Server, s.Outcome k.record frame.sessionID (run s).1) : (h.commit c run).Listed := by
  rcases record_of_outcome (hout _) with ⟨hsess, hrec⟩ | ⟨hsid, hrec, hmem⟩
  · refine Listed.modify (hl.congr rfl rfl hsess) fun k' hk' => ?_
    obtain rfl := Option.some.inj (hk'.symm.trans hk)
    exact congrArg NodeConn.sessionID hrec
  · -- the node is listed where it went, and nowhere else
    have hold : ∀ sid id, id ∈ (h.commit c run).tables.memberSet sid →
        (id ∈ h.tables.memberSet sid ∧ id ≠ k.record.id) ∨ sid = frame.sessionID ∧ id = k.record.id := by
      intro sid id hid
      rcases hmem id sid hid with ⟨hid, hnot⟩ | hnew
      · exact .inl ⟨hid, hl.mem_leave hreg hk hid hnot⟩
      · exact .inr hnew
    constructor
    · refine Finset.eq_empty_of_forall_notMem fun id hid => ?_
      rcases hold [] id hid with ⟨hid, _⟩ | ⟨hnil, _⟩
      · exact hl.sid_ne hid rfl
      · exact hsid hnil.symm
    · intro sid id hid
      rcases hold sid id hid with ⟨hid, hne⟩ | ⟨rfl, rfl⟩
      · obtain ⟨d, kd, hd, hkd, hs⟩ := hl.members sid id hid
        refine ⟨d, kd, hd, ?_, hs⟩
        rw [Hub.commit, modify_ne _ ?_]
        · exact hkd
        · rintro rfl
          obtain ⟨kc, hkc, hidc, _⟩ := hp id d hd
          rw [Option.some.inj (hkc.symm.trans hk)] at hidc
          exact hne hidc.symm
      · exact ⟨c, _, hreg, modify_self _ hk, congrArg NodeConn.sessionID hrec⟩

theorem Listed.send (hl : h.Listed) (start : Frame) (rest : List Bytes) : (h.send c start rest).Listed := by
  cases rest with
  | nil => exact hl.setPlace _
  | cons id rest =>
    rw [Hub.send]
    split
    · exact hl.setPlace _
    · exact (hl.post [start]).setPlace _

theorem Listed.move (hl : h.Listed) (hp : h.Pointed) (hok : h.OwnsRecord e) (hm : Move h e h') :
    h'.Listed := by
  cases hm with
  | accept =>
    refine ⟨hl.unnamed, ?_⟩
    intro sid id hid
    obtain ⟨d, k, hd, hk, hs⟩ := hl.members sid id hid
    exact ⟨d, k, hd, by rw [List.getElem?_append_left (List.getElem?_eq_some_iff.mp hk).1, hk], hs⟩
  | place _ hsess =>
    refine Listed.setPlace ?_ _
    exact hl.congr rfl rfl hsess
  | lease =>
    refine Listed.setPlace ?_ _
    unfold Hub.renewLease
    split
    · exact hl
    · exact hl.modify fun _ _ => rfl
  | register hk hplace hnew => exact hl.register hp hk hplace hnew
  | commit hk hplace hkind hout =>
    have hreg := hok _ hk
    simp only [hplace] at hreg
    exact hl.commit hp hk (hreg hkind) hout
  | broadcast => exact hl.setPlace _
  | send => exact hl.send _ _
  | reply => exact (hl.post _).setPlace _
  | disconnect => exact (hl.disconnect hp _).setPlace _
  | scan => exact hl.congr rfl rfl rfl
  | @reap id c =>
    have hless : Listed { h with expired := h.expired.erase (id, c) } := hl.congr rfl rfl rfl
    exact hless.disconnect hp id
  | process => exact hl.modify fun k _ => by rw [(process_record k).1]

theorem Listed.start (cfg : Config) : (Hub.start cfg).Listed := by
  refine ⟨rfl, ?_⟩
  intro sid id hid
  exact absurd hid (Finset.notMem_empty _)

theorem Listed.of_trace {cfg : Config} {es : List Event}
    (ht : Trace step OwnsRecord (Hub.start cfg) es h) : h.Listed := by
  induction ht with
  | nil => exact Listed.start cfg
  | snoc e ht hok hstep ih => exact ih.move (Pointed.of_trace ht) hok (step_move hstep)

/- The list a game start goes by is the one of its session. -/
theorem handleGameStart_place {nc : NodeConn} {start : Frame}
    (hk : (h.handleGameStart c nc).conns[c]? = some k) (hp : k.place = .starting start) :
    ∃ sess, h.tables.sessions.lookup nc.sessionID = some sess ∧ start = startFrame nc.sessionID sess := by
  unfold handleGameStart at hk
  split at hk
  · rcases of_modify hk with ⟨_, _, _, rfl⟩ | ⟨hne, _⟩
    · cases hp
    · exact absurd rfl hne
  · rename_i sess hsess
    rcases of_modify hk with ⟨_, _, _, rfl⟩ | ⟨hne, _⟩
    · cases hp
      exact ⟨sess, hsess, rfl⟩
    · exact absurd rfl hne

theorem handleGameStart_lists {nc : NodeConn} (hk : h.conns[c]? = some k)
    (hid : id ∈ h.tables.memberSet nc.sessionID) :
    ∃ k' start, (h.handleGameStart c nc).conns[c]? = some k' ∧ k'.place = .starting start ∧
      id ∈ start.peerIDs := by
  unfold Server.memberSet at hid
  split at hid
  · exact absurd hid (Finset.notMem_empty _)
  · rename_i sess hsess
    refine ⟨{ k with place := .starting (startFrame nc.sessionID sess) }, _, ?_, rfl,
      (Finset.mem_sort _).mpr hid⟩
    rw [handleGameStart, hsess]
    exact modify_self _ hk

theorem no_ghost_members {cfg : Config} {es : List Event}
    (ht : Trace step OwnsRecord (Hub.start cfg) es h) (hgone : h.nodes.lookup id = none) :
    (∀ sid, id ∉ h.tables.memberSet sid) ∧
    ∀ c nc k start, (h.handleGameStart c nc).conns[c]? = some k → k.place = .starting start →
      id ∉ start.peerIDs := by
  have hout : ∀ sid, id ∉ h.tables.memberSet sid := by
    intro sid hid
    obtain ⟨c, _, hc, _⟩ := (Listed.of_trace ht).members sid id hid
    rw [hgone] at hc
    cases hc
  refine ⟨hout, ?_⟩
  intro c nc k start hk hp hid
  obtain ⟨sess, hsess, rfl⟩ := handleGameStart_place hk hp
  refine hout nc.sessionID ?_
  rw [Server.memberSet, hsess]
  exact (Finset.mem_sort _).mp hid

/- Alice asks for a session, and her frame has been received. -/
def tableID : Bytes := ascii "t"
def bobID : Bytes := ascii "bob"
def asked : List Event := enrol 0 aliceID 0 ++ [.receive 0 { kind := .createSessionReq, sessionID := tableID } 0]
def reaped : List Event := [.scan 100000000000, .reap aliceID 0]

theorem alice_not_listed :
    aliceID ∉ (run step OwnsRecord (Hub.start sampleConfig)
      (asked ++ [.handle 0 0, .reply 0] ++ reaped)).tables.memberSet tableID :=
  (no_ghost_members (run_trace (by decide +kernel)) (by decide +kernel)).1 tableID

/- Bob joins Alice's session and sends a game start. -/
def bobJoins (now : ℤ) : List Event :=
  enrol 1 bobID now ++
    [.receive 1 { kind := .joinSessionReq, sessionID := tableID } now, .handle 1 now, .reply 1,
      .receive 1 { kind := .gameStart } now]

/- The reaper runs between the two sections of Alice's frame. -/
def haunted : List Event := asked ++ reaped ++ [.handle 0 0] ++ bobJoins 100000000000
def hauntedHub : Hub := run step Free (Hub.start sampleConfig) haunted

theorem ghost_listed : ∃ (h : Hub) (bob : Conn),
    Trace step Free (Hub.start sampleConfig) haunted h ∧
    h.nodes.lookup aliceID = none ∧ aliceID ∈ h.tables.memberSet tableID ∧ h.conns[1]? = some bob ∧
    ∃ k start, (h.handleGameStart 1 bob.record).conns[1]? = some k ∧ k.place = .starting start ∧
      aliceID ∈ start.peerIDs := by
  have hbob : (hauntedHub.conns[1]?.map fun k => k.record.sessionID) = some tableID := by decide +kernel
  have hghost : aliceID ∈ hauntedHub.tables.memberSet tableID := by decide +kernel
  obtain ⟨bob, hconn, hsess⟩ := Option.map_eq_some_iff.mp hbob
  have hgone : hauntedHub.nodes.lookup aliceID = none := by decide +kernel
  have hlists : aliceID ∈ hauntedHub.tables.memberSet bob.record.sessionID := by rwa [hsess]
  exact ⟨hauntedHub, bob, run_trace (by decide +kernel), hgone, hghost, hconn,
    handleGameStart_lists hconn hlists⟩

end Hub

end P2Poker.Dispatch
