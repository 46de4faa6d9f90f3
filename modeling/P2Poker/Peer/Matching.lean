import P2Poker.Peer.Requests

/-!
# Every caller gets its own answer

The ids of the calls are drawn from one counter, so no two calls have the same. An
answer that comes back is for a call that was sent on that connection and has none
yet, and the read loop that looks its channel up finds it empty. Only a channel that
`closeAllPending` has closed in between stops it, and there the node panics.
-/

namespace P2Poker.Requests
open P2Poker.Lib P2Poker.Dispatch

/-! ### The calls -/

/- The frame is not sent yet. -/
def Stage.opening : Stage → Bool
  | .entered | .numbered | .named | .listed | .sending _ => true
  | _ => false

/- The request id is given, the frame not sent. -/
def Stage.ready : Stage → Bool
  | .named | .listed | .sending _ => true
  | _ => false

/- The channel is not listed yet. -/
def Stage.unlisted : Stage → Bool
  | .entered | .numbered | .named => true
  | _ => false

theorem Stage.opening_of_ready {s : Stage} (h : s.ready = true) : s.opening = true := by
  cases s <;> first | rfl | cases h

theorem Stage.opening_of_unlisted {s : Stage} (h : s.unlisted = true) : s.opening = true := by
  cases s <;> first | rfl | cases h

def Stage.resp : Stage → Option Frame
  | .returning (.ok resp) => some resp
  | .returned (.ok resp) => some resp
  | .stored resp => some resp
  | _ => none

structure Call.Ok (counter : UInt64) (call : Call) : Prop where
  bound : ∀ v, call.number = some v → v.toNat ≤ counter.toNat
  entered : call.stage = .entered → call.number = none
  unnamed : call.stage = .entered ∨ call.stage = .numbered → call.requestID = []
  numbered : call.requestID ≠ [] → ∃ x v, call.number = some v ∧ call.requestID = Remote.requestID x v
  ready : call.stage.ready = true → call.requestID ≠ []
  opening : call.stage.opening = true → call.conn = none
  sent : call.conn ≠ none → call.requestID ≠ []
  unsent : call.conn = none → call.answered = false
  unlisted : call.stage.unlisted = true → call.respCh.closed = false
  empty : call.answered = false → call.respCh.buf = none
  held : ∀ f, call.respCh.buf = some f → call.frame.Answers f
  result : ∀ f, call.stage.resp = some f → call.frame.Answers f

/-- A call goes on and keeps what others see of it. -/
structure Call.Goes (call call' : Call) : Prop where
  trip : call.conn ≠ none → call'.trip = call.trip
  requestID : call.requestID ≠ [] → call'.requestID = call.requestID
  listed : call.stage.unlisted = false → call'.stage.unlisted = false
  closed : call'.respCh.closed = call.respCh.closed

structure Client.Inv (n : Client) : Prop where
  phases : Phases n.node
  calls : ∀ (k : ℕ) (call : Call), n.calls[k]? = some call → call.Ok n.requestCounter
  numbers : ∀ (k k' : ℕ) (call call' : Call) (v : UInt64), n.calls[k]? = some call → n.calls[k']? = some call' →
    call.number = some v → call'.number = some v → k = k'
  used : ∀ (k : ℕ) (call : Call) (c : ℕ), n.calls[k]? = some call →
    call.conn = some c ∨ call.stage = .sending c → Used n.node c
  starts : ∀ c ∈ n.startGames, Used n.node c
  wired : ∀ c, n.wire c ≠ [] → Used n.node c
  pending : ∀ r k, n.pending r = some k →
    r ≠ [] ∧ ∃ call, n.calls[k]? = some call ∧ call.requestID = r ∧ call.stage.unlisted = false ∧
      call.respCh.closed = false
  delivering : ∀ c k f, n.delivering c = some (k, f) →
    ∃ call, n.calls[k]? = some call ∧ call.conn = some c ∧ call.answered = true ∧ call.respCh.buf = none ∧
      call.frame.Answers f
  flow : ∀ c ∈ n.node.own, Flow n.node.hub (n.node.buffered c) (n.wire c) n.trips c

theorem of_set {α : Type} {l : List α} {k k' : ℕ} {x y : α} (h : (l.set k x)[k']? = some y) :
    k' = k ∧ y = x ∨ k' ≠ k ∧ l[k']? = some y := by
  by_cases hk : k' = k
  · subst hk
    rw [List.getElem?_set_self'] at h
    obtain ⟨_, _, rfl⟩ := Option.map_eq_some_iff.mp h
    exact .inl ⟨rfl, rfl⟩
  · rw [List.getElem?_set_ne (Ne.symm hk)] at h
    exact .inr ⟨hk, h⟩

theorem filterMap_congr {α β : Type} {f : α → Option β} {l l' : List α}
    (h : ∀ i : ℕ, l[i]?.map f = l'[i]?.map f) :
    l.filterMap f = l'.filterMap f := by
  have hmap : l.map f = l'.map f := by
    refine List.ext_getElem? fun i => ?_
    rw [List.getElem?_map, List.getElem?_map, h i]
  have hid := congrArg (List.filterMap id) hmap
  rwa [List.filterMap_map, List.filterMap_map] at hid

namespace Client
variable {n n' : Client} {k k' : ℕ} {call call' : Call} {c : ℕ}

theorem Inv.ids_inj (hi : n.Inv) (hk : n.calls[k]? = some call) (hk' : n.calls[k']? = some call')
    (hid : call.requestID ≠ []) (heq : call.requestID = call'.requestID) : k = k' := by
  obtain ⟨x, v, hv, hx⟩ := (hi.calls k call hk).numbered hid
  obtain ⟨x', v', hv', hx'⟩ := (hi.calls k' call' hk').numbered (heq ▸ hid)
  have hsame : Remote.requestID x v = Remote.requestID x' v' := hx.symm.trans (heq.trans hx')
  have hown := (Remote.owner_requestID x v).symm.trans (hsame ▸ Remote.owner_requestID x' v')
  obtain rfl := Option.some.inj hown
  obtain rfl := Remote.requestID_inj hsame
  exact hi.numbers k k' call call' v hk hk' hv hv'

theorem mem_trips {t : Trip} : t ∈ n.trips ↔ ∃ (k : ℕ) (call : Call), n.calls[k]? = some call ∧ call.trip = some t := by
  rw [trips, List.mem_filterMap]
  constructor
  · rintro ⟨call, hmem, ht⟩
    obtain ⟨k, hk⟩ := List.mem_iff_getElem?.mp hmem
    exact ⟨k, call, hk, ht⟩
  · rintro ⟨k, call, hk, ht⟩
    exact ⟨call, List.mem_of_getElem? hk, ht⟩

theorem of_trip {t : Trip} (ht : call.trip = some t) :
    call.conn = some t.conn ∧ t.frame = call.frame ∧ t.answered = call.answered := by
  obtain ⟨c, hc, rfl⟩ := Option.map_eq_some_iff.mp ht
  exact ⟨hc, rfl, rfl⟩

theorem Inv.trip_ids (hi : n.Inv) : ∀ t ∈ n.trips, t.frame.requestID ≠ [] := by
  intro t ht
  obtain ⟨k, call, hk, htrip⟩ := mem_trips.mp ht
  obtain ⟨hc, hframe, _⟩ := of_trip htrip
  rw [hframe]
  exact (hi.calls k call hk).sent (by rw [hc]; simp)

theorem Inv.trips_inj (hi : n.Inv) :
    ∀ t ∈ n.trips, ∀ u ∈ n.trips, t.frame.requestID = u.frame.requestID → t = u := by
  intro t ht u hu heq
  have hid := hi.trip_ids t ht
  obtain ⟨k, call, hk, htrip⟩ := mem_trips.mp ht
  obtain ⟨k', call', hk', hutrip⟩ := mem_trips.mp hu
  rw [(of_trip htrip).2.1] at heq hid
  rw [(of_trip hutrip).2.1] at heq
  obtain rfl := hi.ids_inj hk hk' hid heq
  rw [hk] at hk'
  rw [Option.some.inj hk', hutrip] at htrip
  exact (Option.some.inj htrip).symm

theorem Inv.new (prefNodeID : Bytes) (cfg : Config) : (new prefNodeID cfg).Inv where
  phases := .new prefNodeID cfg
  calls := by simp [Client.new]
  numbers := by simp [Client.new]
  used := by simp [Client.new]
  starts := by simp [Client.new]
  wired c h := absurd rfl h
  pending := by simp [Client.new]
  delivering := by simp [Client.new]
  flow := by simp [Client.new, Seating.Node.new]

theorem trip_of_conn (hc : call.conn = some c) : call.trip = some ⟨c, call.frame, call.answered⟩ := by
  rw [Call.trip, hc]
  rfl

/- What else the node holds. -/
theorem Inv.aside (hi : n.Inv) (session : Bytes) (failing clearing : ℕ) (panicked : Bool) :
    { n with session := session, failing := failing, clearing := clearing, panicked := panicked }.Inv :=
  ⟨hi.phases, hi.calls, hi.numbers, hi.used, hi.starts, hi.wired, hi.pending, hi.delivering, hi.flow⟩

/- A call goes on. -/
theorem Inv.replace {wire : ℕ → List Frame} (hi : n.Inv) (hk : n.calls[k]? = some call) (hgoes : call.Goes call')
    (hok : call'.Ok n.requestCounter)
    (hused : ∀ c, call'.conn = some c ∨ call'.stage = .sending c → Used n.node c)
    (hbuf : ∀ c f, n.delivering c = some (k, f) → call'.respCh.buf = none)
    (hnew : ∀ v, call'.number = some v → ∀ (j : ℕ) (call₀ : Call), n.calls[j]? = some call₀ →
      call₀.number = some v → j = k)
    (hwired : ∀ c, wire c ≠ [] → Used n.node c)
    (hflow : ∀ c ∈ n.node.own,
      Flow n.node.hub (n.node.buffered c) (wire c) ((n.calls.set k call').filterMap Call.trip) c) :
    { n with wire := wire, calls := n.calls.set k call' }.Inv := by
  have hself : (n.calls.set k call')[k]? = some call' := List.getElem?_set_self (List.getElem?_eq_some_iff.mp hk).1
  -- a call that others look at is there still
  have hlook : ∀ {k₀ : ℕ} {call₀ : Call}, n.calls[k₀]? = some call₀ →
      ∃ call₁, (n.calls.set k call')[k₀]? = some call₁ ∧ call₀.Goes call₁ := by
    intro k₀ call₀ hk₀
    by_cases heq : k₀ = k
    · subst heq
      obtain rfl := Option.some.inj (hk₀.symm.trans hk)
      exact ⟨call', hself, hgoes⟩
    · exact ⟨call₀, (List.getElem?_set_ne (Ne.symm heq)).trans hk₀, ⟨fun _ => rfl, fun _ => rfl, id, rfl⟩⟩
  refine ⟨hi.phases, ?_, ?_, ?_, hi.starts, hwired, ?_, ?_, hflow⟩
  · intro k₀ call₀ hk₀
    rcases of_set hk₀ with ⟨_, rfl⟩ | ⟨_, h₀⟩
    · exact hok
    · exact hi.calls k₀ call₀ h₀
  · intro k₀ k₁ call₀ call₁ v hk₀ hk₁ hv₀ hv₁
    rcases of_set hk₀ with ⟨rfl, rfl⟩ | ⟨_, h₀⟩
    · rcases of_set hk₁ with ⟨rfl, rfl⟩ | ⟨_, h₁⟩
      · rfl
      · exact (hnew v hv₀ k₁ call₁ h₁ hv₁).symm
    · rcases of_set hk₁ with ⟨rfl, rfl⟩ | ⟨_, h₁⟩
      · exact hnew v hv₁ k₀ call₀ h₀ hv₀
      · exact hi.numbers _ _ _ _ v h₀ h₁ hv₀ hv₁
  · intro k₀ call₀ c hk₀ hc
    rcases of_set hk₀ with ⟨_, rfl⟩ | ⟨_, h₀⟩
    · exact hused c hc
    · exact hi.used k₀ call₀ c h₀ hc
  · intro r k₀ hr
    obtain ⟨hne, call₀, hk₀, hid, hlisted, hclosed⟩ := hi.pending r k₀ hr
    obtain ⟨call₁, hk₁, hg⟩ := hlook hk₀
    exact ⟨hne, call₁, hk₁, (hg.requestID (hid ▸ hne)).trans hid, hg.listed hlisted, hg.closed.trans hclosed⟩
  · intro c k₀ f hf
    obtain ⟨call₀, hk₀, hc, hans, hempty, hanswer⟩ := hi.delivering c k₀ f hf
    obtain ⟨call₁, hk₁, hg⟩ := hlook hk₀
    obtain ⟨hc₁, hframe, hans₁⟩ := of_trip ((hg.trip (by rw [hc]; simp)).trans (trip_of_conn hc))
    refine ⟨call₁, hk₁, hc₁, hans₁.symm.trans hans, ?_, hframe ▸ hanswer⟩
    rcases of_set hk₁ with ⟨rfl, rfl⟩ | ⟨_, h₁⟩
    · exact hbuf c f hf
    · rwa [Option.some.inj (h₁.symm.trans hk₀)]

/- A call goes on, and nothing is sent. -/
theorem Inv.set (hi : n.Inv) (hk : n.calls[k]? = some call) (hgoes : call.Goes call') (htrip : call'.trip = call.trip)
    (hok : call'.Ok n.requestCounter) (hsend : ∀ c, call'.stage = .sending c → Used n.node c)
    (hbuf : ∀ c f, n.delivering c = some (k, f) → call'.respCh.buf = none)
    (hnew : ∀ v, call'.number = some v → ∀ (j : ℕ) (call₀ : Call), n.calls[j]? = some call₀ →
      call₀.number = some v → j = k) : { n with calls := n.calls.set k call' }.Inv := by
  have htrips : (n.calls.set k call').filterMap Call.trip = n.trips := by
    refine filterMap_congr fun i => ?_
    by_cases hik : k = i
    · subst hik
      rw [List.getElem?_set_self (List.getElem?_eq_some_iff.mp hk).1, hk]
      exact congrArg some htrip
    · rw [List.getElem?_set_ne hik]
  refine hi.replace hk hgoes hok ?_ hbuf hnew hi.wired fun c hc => htrips ▸ hi.flow c hc
  rintro c (hc | hc)
  · exact hi.used k call c hk (.inl (of_trip (htrip.symm.trans (trip_of_conn hc))).1)
  · exact hsend c hc

/- Nothing is delivered to a call that has not sent its frame. -/
theorem Inv.undelivered {f : Frame} {p : Prop} (hi : n.Inv) (hk : n.calls[k]? = some call) (hconn : call.conn = none)
    (hf : n.delivering c = some (k, f)) : p := by
  obtain ⟨call₀, hk₀, hc, _⟩ := hi.delivering c k f hf
  rw [← Option.some.inj (hk.symm.trans hk₀), hconn] at hc
  cases hc

theorem Inv.count {counter : UInt64} (hi : n.Inv) (hle : n.requestCounter.toNat ≤ counter.toNat) :
    { n with requestCounter := counter }.Inv := by
  refine ⟨hi.phases, ?_, hi.numbers, hi.used, hi.starts, hi.wired, hi.pending, hi.delivering, hi.flow⟩
  intro k call hk
  have hok := hi.calls k call hk
  exact { hok with bound := fun v hv => (hok.bound v hv).trans hle }

theorem toNat_succ {v : UInt64} (hwrap : v.toNat + 1 < 2 ^ 64) : (v + 1).toNat = v.toNat + 1 := by
  rw [UInt64.toNat_add]
  exact Nat.mod_eq_of_lt hwrap

theorem Inv.number (hi : n.Inv) (hk : n.calls[k]? = some call) (hst : call.stage = .entered)
    (hwrap : n.requestCounter.toNat + 1 < 2 ^ 64) :
    { n with
      requestCounter := n.requestCounter + 1
      calls := n.calls.set k { call with stage := .numbered, number := some (n.requestCounter + 1) } }.Inv := by
  have hsucc := toNat_succ hwrap
  have hok := hi.calls k call hk
  have hnil : call.requestID = [] := hok.unnamed (.inl hst)
  have hcount := hi.count (hsucc ▸ Nat.le_succ _ : n.requestCounter.toNat ≤ (n.requestCounter + 1).toNat)
  have hconn : call.conn = none := hok.opening (by rw [hst]; rfl)
  have hopen : call.respCh.closed = false := hok.unlisted (by rw [hst]; rfl)
  refine hcount.set hk ⟨fun _ => rfl, fun hne => absurd hnil hne, by simp [hst, Stage.unlisted], rfl⟩ rfl ?_ (by simp)
    (fun c f hf => hi.undelivered hk hconn hf) ?_
  · refine ⟨?_, by simp, fun _ => hnil, fun hne => absurd hnil hne, by simp [Stage.ready],
      fun _ => hconn, hok.sent, hok.unsent, fun _ => hopen, hok.empty, hok.held, by simp [Stage.resp]⟩
    intro v hv
    rw [← Option.some.inj hv]
  · intro v hv j call₀ hj hv₀
    have hle := (hi.calls j call₀ hj).bound v hv₀
    rw [← Option.some.inj hv, hsucc] at hle
    exact absurd hle (Nat.not_succ_le_self _)

theorem Inv.name {v : UInt64} (hi : n.Inv) (hk : n.calls[k]? = some call) (hst : call.stage = .numbered)
    (hv : call.number = some v) (x : Bytes) :
    { n with calls := n.calls.set k { call with stage := .named, requestID := Remote.requestID x v } }.Inv := by
  have hok := hi.calls k call hk
  have hnil : call.requestID = [] := hok.unnamed (.inr hst)
  have hconn : call.conn = none := hok.opening (by rw [hst]; rfl)
  have hempty := hok.empty (hok.unsent hconn)
  have hid : Remote.requestID x v ≠ [] := by simp [Remote.requestID, ascii]
  have hopen : call.respCh.closed = false := hok.unlisted (by rw [hst]; rfl)
  have htrip : Call.trip { call with stage := .named, requestID := Remote.requestID x v } = call.trip := by
    simp [Call.trip, hconn]
  refine hi.set hk ⟨fun _ => htrip, fun hne => absurd hnil hne, by simp [hst, Stage.unlisted], rfl⟩ htrip ?_ (by simp)
    (fun c f hf => hi.undelivered hk hconn hf) ?_
  · refine ⟨hok.bound, by simp, by simp, fun _ => ⟨x, v, hv, rfl⟩, fun _ => hid, fun _ => hconn, fun _ => hid,
      hok.unsent, fun _ => hopen, hok.empty, ?_, by simp [Stage.resp]⟩
    intro f hf
    rw [show call.respCh.buf = some f from hf] at hempty
    cases hempty
  · intro u hu j call₀ hj hu₀
    exact hi.numbers j k call₀ call u hj hk hu₀ hu

/- A call that keeps its number and does not fill its channel. -/
theorem Inv.goOn (hi : n.Inv) (hk : n.calls[k]? = some call) (hgoes : call.Goes call') (htrip : call'.trip = call.trip)
    (hok : call'.Ok n.requestCounter) (hsend : ∀ c, call'.stage = .sending c → Used n.node c)
    (hnumber : call'.number = call.number) (hbuf : call.respCh.buf = none → call'.respCh.buf = none) :
    { n with calls := n.calls.set k call' }.Inv := by
  refine hi.set hk hgoes htrip hok hsend ?_ ?_
  · intro c f hf
    obtain ⟨call₀, hk₀, _, _, hempty, _⟩ := hi.delivering c k f hf
    rw [Option.some.inj (hk₀.symm.trans hk)] at hempty
    exact hbuf hempty
  · intro v hv j call₀ hj hv₀
    exact hi.numbers j k call₀ call v hj hk hv₀ (hnumber ▸ hv)

/- Only the stage changes, past the point where the frame is sent. -/
theorem Inv.past (hi : n.Inv) (hk : n.calls[k]? = some call) {s : Stage} (hs : s.opening = false)
    (hresp : ∀ f, s.resp = some f → call.frame.Answers f) :
    { n with calls := n.calls.set k { call with stage := s } }.Inv := by
  have hok := hi.calls k call hk
  have hnot : ¬ s.opening = true := by simp [hs]
  have hlisted : ¬ s.unlisted = true := fun h => hnot (Stage.opening_of_unlisted h)
  refine hi.goOn hk ⟨fun _ => rfl, fun _ => rfl, fun _ => Bool.eq_false_iff.mpr hlisted, rfl⟩ rfl ?_ ?_ rfl id
  · refine ⟨hok.bound, ?_, ?_, hok.numbered, fun h => absurd (Stage.opening_of_ready h) hnot, fun h => absurd h hnot,
      hok.sent, hok.unsent, fun h => absurd h hlisted, hok.empty, hok.held, hresp⟩
    · rintro rfl
      cases hs
    · rintro (rfl | rfl)
      · cases hs
      · cases hs
  · rintro c rfl
    cases hs

/- Only the stage changes, before the frame is sent. -/
theorem Inv.before (hi : n.Inv) (hk : n.calls[k]? = some call) {s : Stage} (hready : call.stage.ready = true)
    (hs : s = .listed ∨ ∃ c, s = .sending c ∧ Used n.node c) :
    { n with calls := n.calls.set k { call with stage := s } }.Inv := by
  have hok := hi.calls k call hk
  have hshape : s.resp = none ∧ s.unlisted = false ∧ s ≠ .entered ∧ s ≠ .numbered := by
    rcases hs with rfl | ⟨c, rfl, _⟩
    · exact ⟨rfl, rfl, by simp, by simp⟩
    · exact ⟨rfl, rfl, by simp, by simp⟩
  obtain ⟨hresp, hlisted, hentered, hnumbered⟩ := hshape
  refine hi.goOn hk ⟨fun _ => rfl, fun _ => rfl, fun _ => hlisted, rfl⟩ rfl ?_ ?_ rfl id
  · refine ⟨hok.bound, fun h => absurd h hentered, ?_, hok.numbered, fun _ => hok.ready hready,
      fun _ => hok.opening (Stage.opening_of_ready hready), hok.sent, hok.unsent, ?_, hok.empty, hok.held, ?_⟩
    · rintro (h | h)
      · exact absurd h hentered
      · exact absurd h hnumbered
    · intro h
      rw [show s.unlisted = true from h] at hlisted
      cases hlisted
    · intro f hf
      rw [show s.resp = some f from hf] at hresp
      cases hresp
  · rintro c rfl
    simpa using hs

theorem Inv.list (hi : n.Inv) (hk : n.calls[k]? = some call) (hst : call.stage = .named) :
    { n with
      pending := Function.update n.pending call.requestID (some k)
      calls := n.calls.set k { call with stage := .listed } }.Inv := by
  have hok := hi.calls k call hk
  have hready : call.stage.ready = true := by rw [hst]; rfl
  have hset := hi.before hk hready (.inl rfl : Stage.listed = .listed ∨ _)
  refine ⟨hset.phases, hset.calls, hset.numbers, hset.used, hset.starts, hset.wired, ?_, hset.delivering, hset.flow⟩
  intro r k₀ hr
  by_cases hrid : r = call.requestID
  · subst hrid
    obtain rfl : k = k₀ := by simpa using hr
    exact ⟨hok.ready hready, _, List.getElem?_set_self (List.getElem?_eq_some_iff.mp hk).1, rfl, rfl,
      hok.unlisted (by rw [hst]; rfl)⟩
  · exact hset.pending r k₀ (by simpa [Function.update_of_ne hrid] using hr)

theorem Inv.unlist (hi : n.Inv) (r : Bytes) : { n with pending := Function.update n.pending r none }.Inv := by
  refine ⟨hi.phases, hi.calls, hi.numbers, hi.used, hi.starts, hi.wired, ?_, hi.delivering, hi.flow⟩
  intro r' k hr
  by_cases hrid : r' = r
  · subst hrid
    simp at hr
  · exact hi.pending r' k (by simpa [Function.update_of_ne hrid] using hr)

theorem Inv.await {resp : Frame} (hi : n.Inv) (hk : n.calls[k]? = some call) (hbuf : call.respCh.buf = some resp) :
    { n with
      calls := n.calls.set k
        { call with stage := .returning (.ok resp), respCh := { call.respCh with buf := none } } }.Inv := by
  have hok := hi.calls k call hk
  refine hi.goOn hk ⟨fun _ => rfl, fun _ => rfl, fun _ => rfl, rfl⟩ rfl ?_ (by simp) rfl fun _ => rfl
  refine ⟨hok.bound, by simp, by simp, hok.numbered, by simp [Stage.ready], by simp [Stage.opening], hok.sent,
    hok.unsent, by simp [Stage.unlisted], fun _ => rfl, by simp, ?_⟩
  intro f hf
  obtain rfl : resp = f := by simpa [Stage.resp] using hf
  exact hok.held resp hbuf

theorem trips_send (hk : n.calls[k]? = some call) (hconn : call.conn = none) (hconn' : call'.conn = some c)
    (hframe : call'.frame = call.frame) (hans : call'.answered = false) (u : Trip) :
    u ∈ (n.calls.set k call').filterMap Call.trip ↔ u ∈ n.trips ∨ u = ⟨c, call.frame, false⟩ := by
  have hnew : call'.trip = some ⟨c, call.frame, false⟩ := by rw [trip_of_conn hconn', hframe, hans]
  have hself := List.getElem?_set_self (a := call') (List.getElem?_eq_some_iff.mp hk).1
  rw [mem_trips, List.mem_filterMap]
  constructor
  · rintro ⟨call₀, hmem, hu⟩
    obtain ⟨j, hj⟩ := List.mem_iff_getElem?.mp hmem
    rcases of_set hj with ⟨_, rfl⟩ | ⟨_, hj⟩
    · exact .inr (Option.some.inj (hu.symm.trans hnew))
    · exact .inl ⟨j, call₀, hj, hu⟩
  · rintro (⟨j, call₀, hj, hu⟩ | rfl)
    · refine ⟨call₀, List.mem_of_getElem? ((List.getElem?_set_ne ?_).trans hj), hu⟩
      rintro rfl
      have hc := (of_trip hu).1
      rw [← Option.some.inj (hk.symm.trans hj), hconn] at hc
      cases hc
    · exact ⟨call', List.mem_of_getElem? hself, hnew⟩

theorem Inv.flow_send (hi : n.Inv) (hk : n.calls[k]? = some call) (hready : call.requestID ≠ [])
    (hconn : call.conn = none) (hconn' : call'.conn = some c) (hframe : call'.frame = call.frame)
    (hans : call'.answered = false) (hopen : n.node.buffered c = none) {d : ℕ} (hd : d ∈ n.node.own) :
    Flow n.node.hub (n.node.buffered d) (n.send c call.frame d) ((n.calls.set k call').filterMap Call.trip) d := by
  have htrips := trips_send hk hconn hconn' hframe hans
  have hflow := hi.flow d hd
  by_cases hdc : d = c
  · subst hdc
    have hwire : n.send d call.frame d = n.wire d ++ [call.frame] := Function.update_self ..
    rw [hopen] at hflow
    rw [hopen, hwire]
    refine hflow.send (t := ⟨d, call.frame, false⟩) htrips rfl rfl hready ?_ ?_
    · unfold Call.frame Request.frame
      cases call.request <;> simp
    · intro u hu heq
      obtain ⟨j, call₀, hj, htrip⟩ := mem_trips.mp hu
      obtain ⟨hd, hframe₀, _⟩ := of_trip htrip
      rw [hframe₀] at heq
      obtain rfl := hi.ids_inj hk hj hready heq.symm
      rw [← Option.some.inj (hk.symm.trans hj), hconn] at hd
      cases hd
  · have hwire : n.send c call.frame d = n.wire d := Function.update_of_ne hdc ..
    rw [hwire]
    refine hflow.congr fun t ht => (htrips t).trans (or_iff_left ?_)
    rintro rfl
    exact hdc ht.symm

/- The frame is on the connection that the call was given. -/
theorem Inv.send (hi : n.Inv) (hk : n.calls[k]? = some call) (hst : call.stage = .sending c)
    (hopen : n.node.buffered c = none) :
    { n with
      wire := n.send c call.frame
      calls := n.calls.set k { call with stage := .waiting, conn := some c } }.Inv := by
  have hok := hi.calls k call hk
  have hready : call.requestID ≠ [] := hok.ready (by rw [hst]; rfl)
  have hconn : call.conn = none := hok.opening (by rw [hst]; rfl)
  have hans : call.answered = false := hok.unsent hconn
  have hused : Used n.node c := hi.used k call c hk (.inr hst)
  refine hi.replace hk ⟨fun hne => absurd hconn hne, fun _ => rfl, fun _ => rfl, rfl⟩ ?_ ?_
    (fun d f hf => hi.undelivered hk hconn hf)
    (fun v hv j call₀ hj hv₀ => hi.numbers j k call₀ call v hj hk hv₀ hv) ?_ ?_
  · exact ⟨hok.bound, by simp, by simp, hok.numbered, by simp [Stage.ready], by simp [Stage.opening],
      fun _ => hready, by simp, by simp [Stage.unlisted], hok.empty, hok.held, by simp [Stage.resp]⟩
  · intro d hd
    obtain rfl : c = d := by simpa using hd
    exact hused
  · intro d hd
    by_cases hdc : d = c
    · exact hdc ▸ hused
    · exact hi.wired d (by simpa [Client.send, Function.update_of_ne hdc] using hd)
  · intro d hd
    refine hi.flow_send hk hready hconn ?_ ?_ ?_ hopen hd
    · rfl
    · rfl
    · exact hans

theorem Inv.act {e : Event} (hi : n.Inv) (hk : n.calls[k]? = some call) (hwrap : n.NoWrap e)
    (hs : n.act k call e = some n') : n'.Inv := by
  have hok := hi.calls k call hk
  unfold Client.act at hs
  split at hs
  · split at hs
    · rename_i hst
      obtain rfl := Option.some.inj hs
      exact hi.number hk hst hwrap
    · cases hs
  · split at hs
    · rename_i hst hv
      obtain rfl := Option.some.inj hs
      exact hi.name hk hst hv _
    · cases hs
  · split at hs
    · rename_i hst
      obtain rfl := Option.some.inj hs
      exact hi.list hk hst
    · cases hs
  · split at hs
    · rename_i hst
      split at hs
      · rename_i c hconn
        obtain rfl := Option.some.inj hs
        exact hi.before hk (by rw [hst]; rfl) (.inr ⟨c, rfl, (hi.phases.attached c hconn).1⟩)
      · obtain rfl := Option.some.inj hs
        exact hi.past hk rfl (by simp [Stage.resp])
    · cases hs
  · split at hs
    · obtain rfl := Option.some.inj hs
      exact hi.past hk rfl (by simp [Stage.resp])
    · rename_i c hst
      split at hs
      · rename_i hopen
        obtain rfl := Option.some.inj hs
        exact hi.send hk hst hopen
      · cases hs
    · cases hs
  · split at hs
    · split at hs
      · rename_i hbuf
        obtain rfl := Option.some.inj hs
        exact hi.await hk hbuf
      · split_ifs at hs
        obtain rfl := Option.some.inj hs
        exact hi.past hk rfl (by simp [Stage.resp])
    · cases hs
  · split at hs
    · obtain rfl := Option.some.inj hs
      exact hi.past hk rfl (by simp [Stage.resp])
    · cases hs
  · split at hs
    · rename_i result hst
      obtain rfl := Option.some.inj hs
      refine (hi.past hk rfl ?_).unlist call.requestID
      intro f hf
      refine hok.result f ?_
      rw [hst]
      cases result with
      | ok resp => exact hf
      | error err => cases hf
    · cases hs
  · split at hs
    · rename_i resp _ hst _
      split_ifs at hs
      obtain rfl := Option.some.inj hs
      have hstored : ∀ f, (Stage.stored resp).resp = some f → call.frame.Answers f :=
        fun f hf => hok.result f (by rw [hst]; exact hf)
      exact (hi.past hk rfl hstored).aside resp.sessionID _ _ _
    · rename_i resp _ hst _
      split_ifs at hs
      obtain rfl := Option.some.inj hs
      have hstored : ∀ f, (Stage.stored resp).resp = some f → call.frame.Answers f :=
        fun f hf => hok.result f (by rw [hst]; exact hf)
      exact (hi.past hk rfl hstored).aside resp.sessionID _ _ _
    · cases hs
  · cases hs

/-! ### The read loops -/

/- The channel that the loop has looked up is empty. -/
theorem Inv.deliver {f : Frame} (hi : n.Inv) (hf : n.delivering c = some (k, f)) (hk : n.calls[k]? = some call) :
    { n with
      calls := n.calls.set k { call with respCh := { call.respCh with buf := some f } }
      delivering := Function.update n.delivering c none }.Inv := by
  obtain ⟨call₀, hk₀, hc, hans, _, hanswer⟩ := hi.delivering c k f hf
  obtain rfl := Option.some.inj (hk.symm.trans hk₀)
  have hok := hi.calls k call hk
  have hless : { n with delivering := Function.update n.delivering c none }.Inv := by
    refine ⟨hi.phases, hi.calls, hi.numbers, hi.used, hi.starts, hi.wired, hi.pending, ?_, hi.flow⟩
    intro d j g hg
    by_cases hdc : d = c
    · subst hdc
      simp at hg
    · exact hi.delivering d j g (by simpa [Function.update_of_ne hdc] using hg)
  refine hless.set hk ⟨fun _ => rfl, fun _ => rfl, id, rfl⟩ rfl ?_
    (fun d hd => hi.used k call d hk (.inr hd)) ?_ fun v hv j call₀ hj hv₀ => hi.numbers j k call₀ call v hj hk hv₀ hv
  · refine ⟨hok.bound, hok.entered, hok.unnamed, hok.numbered, hok.ready, hok.opening, hok.sent, hok.unsent,
      hok.unlisted, ?_, ?_, hok.result⟩
    · intro h
      rw [show call.answered = false from h] at hans
      cases hans
    · intro g hg
      obtain rfl := Option.some.inj hg
      exact hanswer
  · intro d g hg
    -- the loop of another connection would deliver to a call of its own
    by_cases hdc : d = c
    · subst hdc
      simp at hg
    · obtain ⟨call₁, hk₁, hd, _⟩ := hi.delivering d k g (by simpa [Function.update_of_ne hdc] using hg)
      rw [← Option.some.inj (hk.symm.trans hk₁), hc] at hd
      exact absurd (Option.some.inj hd).symm hdc

theorem closeAllPending_call (h : n.closeAllPending.calls[k]? = some call') :
    ∃ call b, n.calls[k]? = some call ∧ call' = { call with respCh := { call.respCh with closed := b } } ∧
      (b = call.respCh.closed ∨ n.pending call.requestID = some k) := by
  rw [closeAllPending, List.getElem?_mapIdx] at h
  obtain ⟨call, hk, rfl⟩ := Option.map_eq_some_iff.mp h
  by_cases hlisten : n.listens k call = true
  · exact ⟨call, true, hk, if_pos hlisten, .inr (by simpa [listens] using hlisten)⟩
  · exact ⟨call, call.respCh.closed, hk, if_neg hlisten, .inl rfl⟩

theorem call_closeAllPending (h : n.calls[k]? = some call) :
    ∃ b, n.closeAllPending.calls[k]? = some { call with respCh := { call.respCh with closed := b } } := by
  rw [closeAllPending, List.getElem?_mapIdx, h, Option.map_some]
  split_ifs
  · exact ⟨true, rfl⟩
  · exact ⟨call.respCh.closed, rfl⟩

theorem closeAllPending_trips : n.closeAllPending.trips = n.trips := by
  refine filterMap_congr fun i => ?_
  rw [closeAllPending, List.getElem?_mapIdx]
  cases n.calls[i]? with
  | none => rfl
  | some call =>
    simp only [Option.map_some]
    split_ifs
    · rfl
    · rfl

theorem Inv.closeAllPending (hi : n.Inv) : n.closeAllPending.Inv := by
  refine ⟨hi.phases, ?_, ?_, ?_, hi.starts, hi.wired, by simp [Client.closeAllPending], ?_, ?_⟩
  · intro k call' hk'
    obtain ⟨call, b, hk, rfl, hb⟩ := closeAllPending_call hk'
    have hok := hi.calls k call hk
    refine { hok with unlisted := ?_ }
    intro hunlisted
    rcases hb with rfl | hpending
    · exact hok.unlisted hunlisted
    · obtain ⟨_, call₀, hk₀, _, hlisted, _⟩ := hi.pending _ k hpending
      rw [Option.some.inj (hk₀.symm.trans hk), show call.stage.unlisted = true from hunlisted] at hlisted
      cases hlisted
  · intro k k' call₀ call₁ v hk₀ hk₁ hv hv'
    obtain ⟨call, _, hk, rfl, _⟩ := closeAllPending_call hk₀
    obtain ⟨call', _, hk', rfl, _⟩ := closeAllPending_call hk₁
    exact hi.numbers k k' call call' v hk hk' hv hv'
  · intro k call₀ c hk₀ hc
    obtain ⟨call, _, hk, rfl, _⟩ := closeAllPending_call hk₀
    exact hi.used k call c hk hc
  · intro c k f hf
    obtain ⟨call, hk, hrest⟩ := hi.delivering c k f hf
    obtain ⟨b, hk'⟩ := call_closeAllPending hk
    exact ⟨_, hk', hrest⟩
  · intro c hc
    rw [closeAllPending_trips]
    exact hi.flow c hc

theorem mark_call {f : Frame} (h : (n.mark c f)[k]? = some call') :
    ∃ call b, n.calls[k]? = some call ∧ call' = { call with answered := b } ∧
      (b = call.answered ∨ call.conn = some c ∧ b = true) := by
  rw [mark, List.getElem?_map] at h
  obtain ⟨call, hk, rfl⟩ := Option.map_eq_some_iff.mp h
  by_cases hmatch : call.conn = some c ∧ call.requestID = f.requestID
  · exact ⟨call, true, hk, if_pos hmatch, .inr ⟨hmatch.1, rfl⟩⟩
  · exact ⟨call, call.answered, hk, if_neg hmatch, .inl rfl⟩

theorem call_mark {f : Frame} (h : n.calls[k]? = some call) :
    ∃ b, (n.mark c f)[k]? = some { call with answered := b } ∧ (call.answered = true → b = true) ∧
      (call.conn = some c → call.requestID = f.requestID → b = true) := by
  rw [mark, List.getElem?_map, h, Option.map_some]
  split_ifs with hmatch
  · exact ⟨true, rfl, fun _ => rfl, fun _ _ => rfl⟩
  · exact ⟨call.answered, rfl, id, fun hc hid => absurd ⟨hc, hid⟩ hmatch⟩

theorem mark_trips (f : Frame) : (n.mark c f).filterMap Call.trip = markTrips c f n.trips := by
  rw [mark, trips, markTrips, List.filterMap_map, List.map_filterMap]
  congr 1
  funext call
  cases hc : call.conn with
  | none => simp [Call.trip, hc]
  | some d =>
    by_cases hmatch : d = c ∧ call.requestID = f.requestID
    · simp [Call.trip, Call.frame, hc, hmatch]
    · simp [Call.trip, Call.frame, hc, hmatch]

theorem mem_markTrips_of_ne {f : Frame} {ts : List Trip} {t : Trip} (hne : t.conn ≠ c) :
    t ∈ markTrips c f ts ↔ t ∈ ts := by
  constructor
  · intro ht
    obtain ⟨u, hu, rfl⟩ := List.mem_map.mp ht
    split_ifs at hne ⊢ with hmatch
    · exact absurd hmatch.1 hne
    · exact hu
  · intro ht
    refine List.mem_map.mpr ⟨t, ht, if_neg ?_⟩
    exact fun hmatch => hne hmatch.1

/- The connection that is read, and the others. -/
theorem Inv.flow_read {f : Frame} {node : Seating.Node} (hi : n.Inv) (htakes : Phases.Takes n.node node c)
    (hnext : n.node.next c = some f) {d : ℕ} (hd : d ∈ n.node.own) :
    Flow node.hub (node.buffered d) (n.wire d) (markTrips c f n.trips) d := by
  have hflow := hi.flow d hd
  by_cases hdc : d = c
  · subst hdc
    cases htakes with
    | @buffered frames hbuf hhub hrest =>
      rw [Seating.Node.next, hbuf] at hnext
      rw [hbuf] at hflow
      rw [hhub, hrest, Function.update_self]
      exact hflow.tail hnext hi.trip_ids
    | inbox hbuf hhub hrest =>
      have hk := List.getElem?_eq_getElem (hi.phases.bound d hd)
      rw [Seating.Node.next, hbuf, Seating.Node.inbox, hk] at hnext
      rw [hbuf] at hflow
      rw [hrest, hbuf]
      exact hflow.process hi.phases.mute hk hnext hhub hi.trip_ids
  · have hcongr : ∀ t : Trip, t.conn = d → (t ∈ markTrips c f n.trips ↔ t ∈ n.trips) :=
      fun t ht => mem_markTrips_of_ne (ht ▸ hdc)
    cases htakes with
    | buffered hbuf hhub hrest =>
      rw [hhub, hrest, Function.update_of_ne hdc]
      exact hflow.congr hcongr
    | inbox hbuf hhub hrest =>
      have hne : Dispatch.Event.process c ≠ .process d := by
        intro heq
        cases heq
        exact hdc rfl
      rw [hrest]
      exact (hflow.hub hi.phases.mute (hi.phases.bound d hd) hhub (by simp) hne).congr hcongr

theorem Inv.read {f : Frame} {awaited : Bool} {node : Seating.Node} (hi : n.Inv) (hnext : n.node.next c = some f)
    (hs : n.node.step (.read c awaited) = some node) : { n with node := node, calls := n.mark c f }.Inv := by
  obtain ⟨hphases, htakes, _, hnode, _⟩ := hi.phases.read hs
  have hused : ∀ d, Used n.node d → Used node d := by
    intro d hd
    rw [hnode]
    exact hd
  have hown : node.own = n.node.own := by rw [hnode]
  refine ⟨hphases, ?_, ?_, ?_, fun d hd => hused d (hi.starts d hd), fun d hd => hused d (hi.wired d hd), ?_, ?_, ?_⟩
  · intro k call' hk'
    obtain ⟨call, b, hk, rfl, hb⟩ := mark_call hk'
    have hok := hi.calls k call hk
    refine { hok with unsent := ?_, empty := ?_ }
    · intro hconn
      rcases hb with rfl | ⟨hc, _⟩
      · exact hok.unsent hconn
      · rw [show call.conn = none from hconn] at hc
        cases hc
    · intro hans
      rcases hb with rfl | ⟨_, rfl⟩
      · exact hok.empty hans
      · cases hans
  · intro k k' call₀ call₁ v hk₀ hk₁ hv hv'
    obtain ⟨call, _, hk, rfl, _⟩ := mark_call hk₀
    obtain ⟨call', _, hk', rfl, _⟩ := mark_call hk₁
    exact hi.numbers k k' call call' v hk hk' hv hv'
  · intro k call₀ d hk₀ hd
    obtain ⟨call, _, hk, rfl, _⟩ := mark_call hk₀
    exact hused d (hi.used k call d hk hd)
  · intro r k hr
    obtain ⟨hne, call, hk, hrest⟩ := hi.pending r k hr
    obtain ⟨b, hk', _⟩ := call_mark (c := c) (f := f) hk
    exact ⟨hne, _, hk', hrest⟩
  · intro d k g hg
    obtain ⟨call, hk, hc, hans, hrest⟩ := hi.delivering d k g hg
    obtain ⟨b, hk', hb, _⟩ := call_mark (c := c) (f := f) hk
    exact ⟨_, hk', hc, hb hans, hrest⟩
  · intro d hd
    have hflow := hi.flow_read htakes hnext (hown ▸ hd : d ∈ n.node.own)
    rw [← mark_trips] at hflow
    exact hflow

/-- The channel that the loop finds is that of the call which the frame answers. -/
theorem Inv.find {f : Frame} (hi : n.Inv) (hmine : c ∈ n.node.own) (hnext : n.node.next c = some f)
    (hid : f.requestID ≠ []) (hpending : n.pending f.requestID = some k) :
    ∃ call, n.calls[k]? = some call ∧ call.conn = some c ∧ call.requestID = f.requestID ∧
      call.respCh.buf = none ∧ call.respCh.closed = false ∧ call.frame.Answers f := by
  obtain ⟨_, call, hk, hcall, _, hclosed⟩ := hi.pending _ k hpending
  obtain ⟨t, ht, htc, hans, hanswer⟩ := (hi.flow c hmine).next (List.mem_of_head? hnext) hid hi.trips_inj
  obtain ⟨k', call', hk', htrip⟩ := mem_trips.mp ht
  obtain ⟨hconn, hframe, hanswered⟩ := of_trip htrip
  rw [hframe] at hanswer
  have hsame : call.requestID = call'.requestID := hcall.trans hanswer.id
  obtain rfl := hi.ids_inj hk hk' (hcall ▸ hid) hsame
  obtain rfl := Option.some.inj (hk.symm.trans hk')
  exact ⟨call, hk, htc ▸ hconn, hcall, (hi.calls k call hk).empty (hanswered ▸ hans), hclosed, hanswer⟩

theorem Inv.lookUp {f : Frame} (hi : n.Inv) (hk : n.calls[k]? = some call) (hc : call.conn = some c)
    (hans : call.answered = true) (hbuf : call.respCh.buf = none) (hanswer : call.frame.Answers f) :
    { n with delivering := Function.update n.delivering c (some (k, f)) }.Inv := by
  refine ⟨hi.phases, hi.calls, hi.numbers, hi.used, hi.starts, hi.wired, hi.pending, ?_, hi.flow⟩
  intro d j g hg
  by_cases hdc : d = c
  · subst hdc
    obtain ⟨rfl, rfl⟩ : k = j ∧ f = g := by simpa using hg
    exact ⟨call, hk, hc, hans, hbuf, hanswer⟩
  · exact hi.delivering d j g (by simpa [Function.update_of_ne hdc] using hg)

theorem Inv.readLoop {e : Event} (hi : n.Inv) (hs : n.readLoop c e = some n') : n'.Inv := by
  unfold Client.readLoop at hs
  split at hs
  · split_ifs at hs
    obtain ⟨f, hnext, hs⟩ := Option.bind_eq_some_iff.mp hs
    split at hs
    · rename_i k hfound
      split_ifs at hfound with hid
      obtain ⟨node, hstep, rfl⟩ := Option.map_eq_some_iff.mp hs
      obtain ⟨_, _, hloop, _⟩ := hi.phases.read hstep
      have hmine : c ∈ n.node.own := (hi.phases.loops c (by rw [hloop]; simp)).1
      obtain ⟨call, hk, hc, hcall, hbuf, _, hanswer⟩ := hi.find hmine hnext hid hfound
      obtain ⟨b, hk', _, hb⟩ := call_mark (c := c) (f := f) hk
      exact (hi.read hnext hstep).lookUp hk' hc (hb hc hcall) hbuf hanswer
    · obtain ⟨node, hstep, rfl⟩ := Option.map_eq_some_iff.mp hs
      exact hi.read hnext hstep
  · obtain ⟨⟨k, f⟩, hf, hs⟩ := Option.bind_eq_some_iff.mp hs
    obtain ⟨call, hk, hs⟩ := Option.bind_eq_some_iff.mp hs
    split_ifs at hs
    · obtain rfl := Option.some.inj hs
      exact hi.aside _ _ _ true
    · split at hs
      · cases hs
      · obtain rfl := Option.some.inj hs
        exact hi.deliver hf hk
  · split_ifs at hs
    obtain ⟨node, hstep, rfl⟩ := Option.map_eq_some_iff.mp hs
    refine Inv.closeAllPending ?_
    rw [Seating.Node.step] at hstep
    split_ifs at hstep
    obtain rfl := Option.some.inj hstep
    exact ⟨hi.phases.setLoop _ (by simp), hi.calls, hi.numbers, hi.used, hi.starts, hi.wired, hi.pending,
      hi.delivering, hi.flow⟩
  · cases hs

/-! ### The connections -/

/- Only the node moves. -/
theorem Inv.seat {node : Seating.Node} (hi : n.Inv) (hphases : Phases node) (hused : ∀ c, Used n.node c → Used node c)
    (hflow : ∀ c ∈ node.own, Flow node.hub (node.buffered c) (n.wire c) n.trips c) : { n with node := node }.Inv :=
  ⟨hphases, hi.calls, hi.numbers, fun k call c hk hc => hused c (hi.used k call c hk hc),
    fun c hc => hused c (hi.starts c hc), fun c hc => hused c (hi.wired c hc), hi.pending, hi.delivering, hflow⟩

/- Dispatch moves, and nothing of the node's own connections is received or read. -/
theorem Inv.hub {e : Dispatch.Event} {h : Hub} (hi : n.Inv) (hs : n.node.hub.step e = some h)
    (hreceive : ∀ c ∈ n.node.own, ∀ frame now, e ≠ .receive c frame now)
    (hprocess : ∀ c ∈ n.node.own, e ≠ .process c) : { n with node := { n.node with hub := h } }.Inv := by
  refine hi.seat (hi.phases.hub hs) (fun _ hc => hc) ?_
  intro c hc
  exact (hi.flow c hc).hub hi.phases.mute (hi.phases.bound c hc) hs (hreceive c hc) (hprocess c hc)

/- Nothing has been sent on a connection that was not used. -/
theorem Inv.flow_unused (hi : n.Inv) (hunused : ¬ Used n.node c) : n.wire c = [] ∧ ∀ t ∈ n.trips, t.conn ≠ c := by
  refine ⟨?_, ?_⟩
  · by_contra hne
    exact hunused (hi.wired c hne)
  · rintro t ht rfl
    obtain ⟨k, call, hk, htrip⟩ := mem_trips.mp ht
    exact hunused (hi.used k call t.conn hk (.inl (of_trip htrip).1))

theorem Inv.dial {node : Seating.Node} (hi : n.Inv) (hs : n.node.step .dial = some node) :
    { n with node := node }.Inv := by
  obtain ⟨hphases, hused, hown⟩ := hi.phases.dial hs
  refine hi.seat hphases hused ?_
  rw [Seating.Node.step] at hs
  split_ifs at hs
  obtain ⟨h, hstep, rfl⟩ := Option.map_eq_some_iff.mp hs
  intro c hc
  rcases hown c hc with hc | rfl
  · exact (hi.flow c hc).hub hi.phases.mute (hi.phases.bound c hc) hstep (by simp) (by simp)
  · have hunused : ¬ Used n.node n.node.hub.conns.length := fun h => (hi.phases.bound _ h.1).ne rfl
    obtain ⟨hwire, htrips⟩ := hi.flow_unused hunused
    have hbuf : n.node.buffered n.node.hub.conns.length = none := by
      by_contra hne
      exact hunused (hi.phases.buffered _ hne)
    obtain rfl := Option.some.inj hstep
    have hk := List.getElem?_concat_length (l := n.node.hub.conns)
      (a := { record := { id := [], peerAddr := [], leaseUntil := 0, conn := n.node.hub.conns.length } })
    have hzero : Hub.ids { n.node.hub with conns := n.node.hub.conns ++
        [{ record := { id := [], peerAddr := [], leaseUntil := 0, conn := n.node.hub.conns.length } }] }
        n.node.hub.conns.length = 0 := by
      rw [Hub.ids_of_conn hk]
      rfl
    have hunder : under { n.node.hub with conns := n.node.hub.conns ++
        [{ record := { id := [], peerAddr := [], leaseUntil := 0, conn := n.node.hub.conns.length } }] }
        none [] n.node.hub.conns.length = 0 := by
      unfold under
      rw [hzero]
      rfl
    show Flow _ (n.node.buffered n.node.hub.conns.length) _ _ _
    rw [hbuf, hwire]
    refine ⟨by simp, ?_, by simp, ?_, ?_, fun _ t ht hc => absurd hc (htrips t ht)⟩
    · intro k hk'
      obtain rfl := Option.some.inj (hk.symm.trans hk')
      exact ⟨trivial, by simp⟩
    · rw [hunder]
      exact Multiset.nodup_zero
    · rw [hunder]
      simp

theorem Inv.attach {node : Seating.Node} (hi : n.Inv) (hs : n.node.step (.attach c) = some node) :
    { n with node := node }.Inv := by
  obtain ⟨hphases, hused, hown, hbuf, hmem, hstep⟩ := hi.phases.attach hs
  refine hi.seat hphases hused ?_
  intro d hd
  have hd : d ∈ n.node.own := hown ▸ hd
  have hflow := hi.flow d hd
  rw [hbuf]
  by_cases hdc : d = c
  · subst hdc
    have hunused : ¬ Used n.node d := fun h => h.2 hmem
    obtain ⟨_, htrips⟩ := hi.flow_unused hunused
    have hopen : n.node.buffered d = none := by
      by_contra hne
      exact hunused (hi.phases.buffered d hne)
    rw [hopen] at hflow ⊢
    refine hflow.drop hi.phases.mute hstep ?_ (hi.phases.bound d hd)
    -- whatever has an id belongs to a request
    intro k hk
    by_contra hne
    obtain ⟨r, hr⟩ := Multiset.exists_mem_of_ne_zero hne
    have hle : idsOf k.inbox.head?.toList ≤ under n.node.hub none (n.wire d) d := by
      unfold under
      rw [Hub.ids_process hstep hk, add_left_comm]
      exact Multiset.le_add_right _ _
    obtain ⟨t, ht, htd, _⟩ := hflow.owed r (Multiset.mem_of_le hle hr)
    exact htrips t ht htd
  · have hne : Dispatch.Event.process c ≠ .process d := by
      intro heq
      cases heq
      exact hdc rfl
    exact hflow.hub hi.phases.mute (hi.phases.bound d hd) hstep (by simp) hne

theorem Inv.close {m : ℕ} {node : Seating.Node} (hi : n.Inv) (hs : n.node.step (.close c m) = some node) :
    { n with node := node }.Inv := by
  obtain ⟨hphases, hmem, hown, hatt, hhub, hbuf⟩ := hi.phases.close hs
  have hused : ∀ d, Used n.node d → Used node d := by
    intro d hd
    unfold Used
    rw [hown, hatt]
    exact hd
  refine hi.seat hphases hused ?_
  intro d hd
  have hd : d ∈ n.node.own := hown ▸ hd
  have hflow := hi.flow d hd
  rw [hhub, hbuf]
  by_cases hdc : d = c
  · subst hdc
    obtain ⟨_, hopen⟩ := hi.phases.closing d hmem
    have hk := List.getElem?_eq_getElem (hi.phases.bound d hd)
    rw [hopen] at hflow
    rw [Function.update_self, Seating.Node.inbox, hk]
    exact hflow.close hk m
  · rw [Function.update_of_ne hdc]
    exact hflow

theorem Inv.stepSeat {e : Seating.Event} (hi : n.Inv) (hs : n.stepSeat e = some n') : n'.Inv := by
  unfold Client.stepSeat at hs
  split_ifs at hs with hseats
  obtain ⟨node, hstep, rfl⟩ := Option.map_eq_some_iff.mp hs
  cases e with
  | act e =>
    rw [Seating.Node.step] at hstep
    split_ifs at hstep with hothers
    obtain ⟨h, hhub, rfl⟩ := Option.map_eq_some_iff.mp hstep
    refine hi.hub hhub ?_ ?_
    · rintro c hc frame now rfl
      simp [seats, hc] at hseats
    · rintro c hc rfl
      simp [Seating.Node.others, hc] at hothers
  | dial => exact hi.dial hstep
  | register c =>
    rw [Seating.Node.step] at hstep
    split_ifs at hstep
    obtain ⟨h, hhub, rfl⟩ := Option.map_eq_some_iff.mp hstep
    exact hi.hub hhub (by simp) (by simp)
  | attach c => exact hi.attach hstep
  | detach =>
    have hphases := hi.phases.detach hstep
    rw [Seating.Node.step] at hstep
    split at hstep
    · obtain rfl := Option.some.inj hstep
      exact hi.seat hphases (fun _ hc => hc) hi.flow
    · obtain rfl := Option.some.inj hstep
      exact hi.seat hphases (fun _ hc => hc) hi.flow
  | close c m => exact (hi.close hstep).aside _ (n.failing + 1) _ _
  | reset =>
    rw [Seating.Node.step] at hstep
    split_ifs at hstep
    obtain rfl := Option.some.inj hstep
    have hp := hi.phases
    exact hi.seat ⟨hp.mute, hp.bound, hp.dialled, hp.attaching, hp.attached, hp.closing, hp.once, hp.buffered, hp.loops⟩
      (fun _ hc => hc) hi.flow
  | read c awaited => simp [seats] at hseats
  | gameStart c =>
    rw [Seating.Node.step] at hstep
    split at hstep
    · rename_i order seatIdx hloop
      obtain rfl := Option.some.inj hstep
      have hp := hi.phases.setLoop .reading fun _ => hi.phases.loops c (by rw [hloop]; simp)
      exact hi.seat ⟨hp.mute, hp.bound, hp.dialled, hp.attaching, hp.attached, hp.closing, hp.once, hp.buffered,
        hp.loops⟩ (fun _ hc => hc) hi.flow
    · cases hstep
  | stop c => simp [seats] at hseats

theorem Inv.receive {f : Frame} {rest : List Frame} {now : ℤ} {node : Seating.Node} (hi : n.Inv)
    (hwire : n.wire c = f :: rest) (hs : n.node.step (.act (.receive c f now)) = some node) :
    { n with node := node, wire := Function.update n.wire c rest }.Inv := by
  have hused : Used n.node c := hi.wired c (by rw [hwire]; simp)
  rw [Seating.Node.step] at hs
  split_ifs at hs
  obtain ⟨h, hstep, rfl⟩ := Option.map_eq_some_iff.mp hs
  refine ⟨hi.phases.hub hstep, hi.calls, hi.numbers, hi.used, hi.starts, ?_, hi.pending, hi.delivering, ?_⟩
  · intro d hd
    by_cases hdc : d = c
    · exact hdc ▸ hused
    · exact hi.wired d (by simpa [Function.update_of_ne hdc] using hd)
  · intro d hd
    have hflow := hi.flow d hd
    show Flow h (n.node.buffered d) (Function.update n.wire c rest d) n.trips d
    by_cases hdc : d = c
    · subst hdc
      rw [hwire] at hflow
      rw [Function.update_self]
      exact hflow.receive hi.phases.mute hstep
    · rw [Function.update_of_ne hdc]
      refine hflow.hub hi.phases.mute (hi.phases.bound d hd) hstep ?_ (by simp)
      intro frame now' heq
      cases heq
      exact hdc rfl

/- A new call has sent nothing. -/
theorem Inv.append (hi : n.Inv) (hok : call.Ok n.requestCounter) (hnumber : call.number = none)
    (hconn : call.conn = none) (hstage : ∀ c, call.stage ≠ .sending c) : { n with calls := n.calls ++ [call] }.Inv := by
  have hlook : ∀ {j : ℕ} {call₀ : Call}, n.calls[j]? = some call₀ → (n.calls ++ [call])[j]? = some call₀ :=
    fun hj => (List.getElem?_append_left (List.getElem?_eq_some_iff.mp hj).1).trans hj
  have hold : ∀ {j : ℕ} {call₀ : Call}, (n.calls ++ [call])[j]? = some call₀ →
      n.calls[j]? = some call₀ ∨ call₀ = call := by
    intro j call₀ hj
    by_cases hlt : j < n.calls.length
    · rw [List.getElem?_append_left hlt] at hj
      exact .inl hj
    · have hmem := List.mem_of_getElem? (List.getElem?_append_right (not_lt.mp hlt) ▸ hj)
      exact .inr (List.mem_singleton.mp hmem)
  have htrips : (n.calls ++ [call]).filterMap Call.trip = n.trips := by
    simp [List.filterMap_append, Call.trip, hconn, trips]
  refine ⟨hi.phases, ?_, ?_, ?_, hi.starts, hi.wired, ?_, ?_, ?_⟩
  · intro j call₀ hj
    rcases hold hj with hj | rfl
    · exact hi.calls j call₀ hj
    · exact hok
  · intro j j' call₀ call₁ v hj hj' hv hv'
    rcases hold hj with hj | rfl
    · rcases hold hj' with hj' | rfl
      · exact hi.numbers j j' call₀ call₁ v hj hj' hv hv'
      · rw [hnumber] at hv'
        cases hv'
    · rw [hnumber] at hv
      cases hv
  · intro j call₀ c hj hc
    rcases hold hj with hj | rfl
    · exact hi.used j call₀ c hj hc
    · rcases hc with hc | hc
      · rw [hconn] at hc
        cases hc
      · exact absurd hc (hstage c)
  · intro r j hr
    obtain ⟨hne, call₀, hj, hrest⟩ := hi.pending r j hr
    exact ⟨hne, call₀, hlook hj, hrest⟩
  · intro c j f hf
    obtain ⟨call₀, hj, hrest⟩ := hi.delivering c j f hf
    exact ⟨call₀, hlook hj, hrest⟩
  · intro c hc
    have hflow := hi.flow c hc
    rwa [← htrips] at hflow

theorem Inv.startGames (hi : n.Inv) {l : List ℕ} (hl : ∀ c ∈ l, Used n.node c) : { n with startGames := l }.Inv :=
  ⟨hi.phases, hi.calls, hi.numbers, hi.used, hl, hi.wired, hi.pending, hi.delivering, hi.flow⟩

theorem Inv.sendStart (hi : n.Inv) (hused : Used n.node c) (hopen : n.node.buffered c = none) :
    { n with wire := n.send c { kind := .gameStart } }.Inv := by
  refine ⟨hi.phases, hi.calls, hi.numbers, hi.used, hi.starts, ?_, hi.pending, hi.delivering, ?_⟩
  · intro d hd
    by_cases hdc : d = c
    · exact hdc ▸ hused
    · exact hi.wired d (by simpa [Client.send, Function.update_of_ne hdc] using hd)
  · intro d hd
    have hflow := hi.flow d hd
    show Flow n.node.hub (n.node.buffered d) (n.send c _ d) n.trips d
    unfold Client.send
    by_cases hdc : d = c
    · subst hdc
      rw [hopen] at hflow ⊢
      rw [Function.update_self]
      exact hflow.start
    · rw [Function.update_of_ne hdc]
      exact hflow

theorem Inv.fresh (hi : n.Inv) (request : Request) {s : Stage} (hready : s.ready = false) (hresp : s.resp = none) :
    { n with calls := n.calls ++ [({ request := request, stage := s } : Call)] }.Inv := by
  refine hi.append ⟨by simp, fun _ => rfl, fun _ => rfl, by simp, by simp [hready], fun _ => rfl, by simp,
    fun _ => rfl, fun _ => rfl, fun _ => rfl, by simp, by simp [hresp]⟩ rfl rfl ?_
  rintro c rfl
  cases hready

theorem Inv.step {e : Event} (hi : n.Inv) (hwrap : n.NoWrap e) (hs : n.step e = some n') : n'.Inv := by
  replace hs := (move_of_step hs).2
  unfold move at hs
  cases e with
  | seat e => exact hi.stepSeat hs
  | receive c now =>
    dsimp only at hs
    split at hs
    · cases hs
    · rename_i hwire
      obtain ⟨node, hstep, rfl⟩ := Option.map_eq_some_iff.mp hs
      exact hi.receive hwire hstep
  | call request =>
    dsimp only at hs
    split at hs
    · obtain rfl := Option.some.inj hs
      exact hi.fresh request rfl rfl
    · obtain rfl := Option.some.inj hs
      exact hi.fresh request rfl rfl
  | startGame =>
    dsimp only at hs
    split at hs
    · rename_i c hconn
      obtain rfl := Option.some.inj hs
      refine hi.startGames ?_
      intro d hd
      rcases List.mem_cons.mp hd with rfl | hd
      · exact (hi.phases.attached d hconn).1
      · exact hi.starts d hd
    · obtain rfl := Option.some.inj hs
      exact hi
  | sendStart c err =>
    dsimp only at hs
    split_ifs at hs with hmem
    have herase := hi.startGames (l := n.startGames.erase c) fun d hd => hi.starts d (List.mem_of_mem_erase hd)
    split at hs
    · obtain rfl := Option.some.inj hs
      exact herase
    · rename_i _ hopen
      obtain rfl := Option.some.inj hs
      exact herase.sendStart (hi.starts c hmem) hopen
    · cases hs
  | readRemote =>
    obtain rfl := Option.some.inj hs
    exact hi.count ((toNat_succ hwrap) ▸ Nat.le_succ _)
  | read c => exact hi.readLoop hs
  | deliver c => exact hi.readLoop hs
  | stop c => exact hi.readLoop hs
  | failPending =>
    dsimp only at hs
    split_ifs at hs
    obtain rfl := Option.some.inj hs
    exact (hi.aside _ _ _ _).closeAllPending
  | clearSession =>
    dsimp only at hs
    split_ifs at hs
    obtain rfl := Option.some.inj hs
    exact hi.aside _ _ _ _
  | _ =>
    obtain ⟨call, hk, hs⟩ := Option.bind_eq_some_iff.mp hs
    exact hi.act hk hwrap hs

theorem Inv.of_trace {prefNodeID : Bytes} {cfg : Config} {es : List Event}
    (ht : Trace Client.step NoWrap (Client.new prefNodeID cfg) es n) : n.Inv :=
  ht.keeps (.new prefNodeID cfg) fun _ _ _ hwrap hs hi => hi.step hwrap hs

/- A caller can use the answer: there is an address for every peer. -/
theorem reply_of_answers {f : Frame} (h : call.frame.Answers f) : ∃ reply, call.request.reply f = some reply := by
  unfold Request.reply
  by_cases hok : f.success = false
  · exact ⟨_, if_pos hok⟩
  · rw [if_neg hok]
    cases hreq : call.request with
    | listPeers =>
      have hkind : f.kind = .listPeersResp := by
        rw [h.kind, Call.frame, hreq]
        rfl
      exact ⟨_, if_pos (h.peers hkind).le⟩
    | _ => exact ⟨_, rfl⟩

/-- Whatever the calls of a node, the read loops and dispatch do: a call that returns a frame
returns the answer to its own request; the channel that a read loop sends to is empty; and
a request is on its way exactly once until its answer is read or its connection closed. -/
theorem requests_matched (prefNodeID : Bytes) (cfg : Config) (es : List Event) (n : Client)
    (ht : Trace Client.step NoWrap (new prefNodeID cfg) es n) :
    (∀ call ∈ n.calls, ∀ f, call.stage.resp = some f →
      call.frame.Answers f ∧ ∃ reply, call.request.reply f = some reply) ∧
    (∀ c k f, n.delivering c = some (k, f) →
      ∃ call, n.calls[k]? = some call ∧ call.frame.Answers f ∧ call.respCh.buf = none) ∧
    ∀ call ∈ n.calls, ∀ c, call.conn = some c → call.answered = false → n.node.buffered c = none →
      (n.underWay c).count call.requestID = 1 := by
  have hi := Inv.of_trace ht
  refine ⟨?_, ?_, ?_⟩
  · intro call hmem f hf
    obtain ⟨k, hk⟩ := List.mem_iff_getElem?.mp hmem
    have hanswer := (hi.calls k call hk).result f hf
    exact ⟨hanswer, reply_of_answers hanswer⟩
  · intro c k f hf
    obtain ⟨call, hk, _, _, hbuf, hanswer⟩ := hi.delivering c k f hf
    exact ⟨call, hk, hanswer, hbuf⟩
  · intro call hmem c hc hans hopen
    obtain ⟨k, hk⟩ := List.mem_iff_getElem?.mp hmem
    have hflow := hi.flow c (hi.used k call c hk (.inl hc)).1
    have hsure := hflow.sure hopen _ (mem_trips.mpr ⟨k, call, hk, trip_of_conn hc⟩) rfl hans
    exact Multiset.count_eq_one_of_mem hflow.nodup hsure

/- The node attaches as alice. -/
def attaches : List Event :=
  [.seat .dial, .seat (.register 0), .seat (.act (.register 0 0)), .seat (.act (.reply 0)), .seat (.attach 0)]

/- Call `k` sends its request on the connection it finds. -/
def asks (k : ℕ) : List Event := [.number k, .name k, .list k, .pick k, .send k none]

/- The next frame on the connection is received and answered. -/
def serves : List Event := [.receive 0 0, .seat (.act (.handle 0 0)), .seat (.act (.reply 0))]

/- Two calls ask in one order and are answered in the other. -/
def crossed : List Event :=
  [attaches, [.call (.createSession Hub.tableID), .call .listSessions], asks 1, asks 0, serves, serves,
    [.read 0, .deliver 0, .read 0, .deliver 0, .await 0, .await 1, .delete 0, .delete 1, .store 0]].flatten

theorem crossed_requests_matched :
    (run Client.step NoWrap (new Hub.aliceID sampleConfig) crossed).session = Hub.tableID ∧
    ∀ call ∈ (run Client.step NoWrap (new Hub.aliceID sampleConfig) crossed).calls, ∀ f,
      call.stage.resp = some f → call.frame.Answers f ∧ ∃ reply, call.request.reply f = some reply :=
  ⟨by decide +kernel, (requests_matched _ _ _ _ (run_trace (by decide +kernel))).1⟩

end Client

end P2Poker.Requests
