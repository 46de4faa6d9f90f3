import P2Poker.Dispatch.Delivery
import P2Poker.Dispatch.SeatOrder

/-!
# A node's seat (internal/peer: node.go, dispatch.go, game.go)

A node attaches to dispatch, is started and detaches, on one connection after the
other. `GameStart` looks up the seat under the id that the node has when the frame
is read, and writes it under another lock; `DetachDispatch` gives the id up before
it resets the game. An event is one such section, or an event at dispatch.
-/

namespace P2Poker.Seating
open P2Poker.Lib P2Poker.Dispatch

/-- `dispatchReadLoop` of a connection. -/
inductive Loop where
  | ended
  | reading
  -- GameStart: the seat is looked up, the lock not taken
  | starting (order : List Bytes) (seatIdx : ℤ)
  deriving DecidableEq

structure Node where
  prefNodeID : Bytes
  peerAddr : Bytes := []
  hub : Hub
  -- the connections this node has dialled
  own : List ℕ := []
  -- AttachDispatch: waiting for the answer to the registration
  attaching : List ℕ := []
  dispatchConn : Option ℕ := none
  id : Bytes := []
  order : List Bytes := []
  seatIdx : ℤ := -1
  started : Bool := false
  loop : ℕ → Loop := fun _ => .ended
  -- what the decoder of a closed connection still holds
  buffered : ℕ → Option (List Frame) := fun _ => none
  -- DetachDispatch: the id is given up, the connection not closed
  closing : List ℕ := []
  -- DetachDispatch: before resetGameState
  resetting : ℕ := 0

inductive Event where
  | act (e : Dispatch.Event)
  | dial
  | register (c : ℕ)
  | attach (c : ℕ)
  | detach
  | close (c n : ℕ)
  | reset
  | read (c : ℕ) (awaited : Bool)
  | gameStart (c : ℕ)
  | stop (c : ℕ)

/- The first place of the id in the order. -/
def seatOf (order : List Bytes) (myID : Bytes) : ℤ :=
  match order.idxOf? myID with
  | some i => i
  | none => -1

namespace Node
variable (n : Node)

def new (prefNodeID : Bytes) (cfg : Config) : Node := { prefNodeID := prefNodeID, hub := Hub.start cfg }

def inbox (c : ℕ) : List Frame := (n.hub.conns[c]?.map Conn.inbox).getD []

/- What `conn.Receive` returns next. -/
def next (c : ℕ) : Option Frame := ((n.buffered c).getD (n.inbox c)).head?

def receive (c : ℕ) : Option Node :=
  match n.buffered c with
  | some frames => some { n with buffered := Function.update n.buffered c (some frames.tail) }
  | none => (n.hub.step (.process c)).map fun h => { n with hub := h }

/- The node reads its own connections, and registers on them, itself. -/
def others : Dispatch.Event → Bool
  | .hello c _ => c ∉ n.own
  | .process c => c ∉ n.own
  | _ => true

/-- `AttachDispatch` with the answer to its registration. -/
def attach (c : ℕ) (resp : Frame) : Node :=
  if resp.kind = .registerResp ∧ resp.success = true ∧ n.dispatchConn = none then
    { n with
      id := resp.nodeID
      dispatchConn := some c
      loop := Function.update n.loop c .reading }
  else n

/- A frame with a request id goes to the call that waits for it, if there is one. -/
def read (c : ℕ) (awaited : Bool) (frame : Frame) : Node :=
  if awaited = false ∧ frame.kind = .gameStart then
    { n with loop := Function.update n.loop c (.starting frame.peerIDs (seatOf frame.peerIDs n.id)) }
  else n

def step : Event → Option Node
  | .act e => if n.others e then (n.hub.step e).map fun h => { n with hub := h } else none
  | .dial =>
    if n.dispatchConn = none then
      (n.hub.step .accept).map fun h =>
        { n with
          hub := h
          own := n.hub.conns.length :: n.own
          attaching := n.hub.conns.length :: n.attaching }
    else none
  | .register c =>
    if c ∈ n.attaching then
      (n.hub.step (.hello c { kind := .registerReq, nodeID := n.prefNodeID, peerAddr := n.peerAddr })).map
        fun h => { n with hub := h }
    else none
  | .attach c =>
    if c ∈ n.attaching then
      (n.inbox c).head?.bind fun resp =>
        (n.hub.step (.process c)).map fun h =>
          { n with hub := h, attaching := n.attaching.erase c }.attach c resp
    else none
  | .detach =>
    match n.dispatchConn with
    | none => some { n with id := [] }
    | some c => some { n with dispatchConn := none, id := [], closing := c :: n.closing }
  | .close c k =>
    if c ∈ n.closing then
      some { n with
        closing := n.closing.erase c
        buffered := Function.update n.buffered c (some ((n.inbox c).take k))
        resetting := n.resetting + 1 }
    else none
  | .reset =>
    if 0 < n.resetting then
      some { n with resetting := n.resetting - 1, started := false, order := [], seatIdx := -1 }
    else none
  | .read c awaited =>
    if n.loop c = .reading then
      (n.next c).bind fun frame =>
        if awaited = true ∧ frame.requestID = [] then none
        else (n.receive c).map fun n' => n'.read c awaited frame
    else none
  | .gameStart c =>
    match n.loop c with
    | .starting order seatIdx =>
      some { n with
        order := order
        seatIdx := seatIdx
        started := true
        loop := Function.update n.loop c .reading }
    | _ => none
  | .stop c =>
    if n.loop c = .reading then some { n with loop := Function.update n.loop c .ended } else none

end Node

/-! ### Seats -/

def Seat (order : List Bytes) (seatIdx : ℤ) (id : Bytes) : Prop :=
  0 ≤ seatIdx ∧ seatIdx < order.length ∧ order[seatIdx.toNat]? = some id

def Node.Seated (n : Node) : Prop := n.started = true → Seat n.order n.seatIdx n.id

theorem seat_seatOf {order : List Bytes} {id : Bytes} (h : id ∈ order) : Seat order (seatOf order id) id := by
  have hsome : (order.idxOf? id).isSome = true := List.isSome_idxOf?.mpr h
  obtain ⟨i, hi⟩ := Option.isSome_iff_exists.mp hsome
  obtain ⟨hlt, heq, _⟩ := List.findIdx?_eq_some_iff_getElem.mp hi
  rw [seatOf, hi]
  refine ⟨Int.natCast_nonneg i, Int.ofNat_lt.mpr hlt, ?_⟩
  rw [Int.toNat_natCast, List.getElem?_eq_getElem hlt, eq_of_beq heq]

/-- Where a node keeps its seat: it asks for a game start in a session, reads game starts
from the connection it is attached by, and detaches before a game has started. -/
def Node.Steady (n : Node) : Event → Prop
  | .act e => n.hub.StartsInSession n.own e
  | .detach => n.started = false ∧ ∀ c ∈ n.dispatchConn, n.loop c = .reading ∨ n.loop c = .ended
  | .read c _ => (∃ f ∈ n.next c, f.kind = .gameStart) → n.dispatchConn = some c
  | _ => True

instance (n : Node) (e : Event) : Decidable (n.Steady e) := by
  delta Node.Steady
  induction e using Event.casesOn <;> infer_instance

/-! ### What is kept -/

namespace Node

structure Inv (n : Node) : Prop where
  pointed : n.hub.Pointed
  proper : n.hub.Proper n.own
  attaching : ∀ c ∈ n.attaching, c ∈ n.own
  attached : ∀ c, n.dispatchConn = some c → c ∈ n.own ∧ n.hub.Enrolled c n.id
  closing : ∀ c ∈ n.closing, c ∈ n.own ∧ ∃ id, n.hub.Enrolled c id
  buffered : ∀ c frames, n.buffered c = some frames →
    ∃ id, n.hub.Enrolled c id ∧ ∀ f ∈ frames, f.Proper True id
  starting : ∀ c order seatIdx, n.loop c = .starting order seatIdx →
    n.dispatchConn = some c ∧ Seat order seatIdx n.id
  started : n.started = true → n.dispatchConn ≠ none ∧ Seat n.order n.seatIdx n.id

variable {n n' : Node} {e : Event} {c : ℕ}

theorem Inv.new (prefNodeID : Bytes) (cfg : Config) : (Node.new prefNodeID cfg).Inv where
  pointed := (nofun : (Hub.start cfg).Pointed)
  proper := Hub.Proper.start cfg
  attaching := nofun
  attached := nofun
  closing := nofun
  buffered := nofun
  starting := nofun
  started := nofun

theorem of_update {α : Type} {f : ℕ → α} {d : ℕ} {v x : α} (h : Function.update f c v d = x) :
    d = c ∧ v = x ∨ d ≠ c ∧ f d = x := by
  by_cases hd : d = c
  · subst hd
    rw [Function.update_self] at h
    exact .inl ⟨rfl, h⟩
  · rw [Function.update_of_ne hd] at h
    exact .inr ⟨hd, h⟩

/- An event at dispatch leaves the node as it is. -/
theorem Inv.hub {e : Dispatch.Event} {h : Hub} (hi : n.Inv) (hs : n.hub.step e = some h)
    (hok : n.hub.StartsInSession n.own e) : { n with hub := h }.Inv where
  pointed := hi.pointed.move (Hub.step_move hs)
  proper := hi.proper.step hi.pointed hok hs
  attaching := hi.attaching
  attached c hc := ⟨(hi.attached c hc).1, (hi.attached c hc).2.move (Hub.step_move hs)⟩
  closing c hc := by
    obtain ⟨hmine, id, henr⟩ := hi.closing c hc
    exact ⟨hmine, id, henr.move (Hub.step_move hs)⟩
  buffered c frames hframes := by
    obtain ⟨id, henr, hproper⟩ := hi.buffered c frames hframes
    exact ⟨id, henr.move (Hub.step_move hs), hproper⟩
  starting := hi.starting
  started := hi.started

theorem mem_inbox {f : Frame} (hf : f ∈ n.inbox c) : ∃ k, n.hub.conns[c]? = some k ∧ f ∈ k.inbox := by
  unfold inbox at hf
  cases hk : n.hub.conns[c]? with
  | none =>
    rw [hk] at hf
    cases hf
  | some k =>
    rw [hk] at hf
    exact ⟨k, rfl, hf⟩

/- A frame on an own connection is proper for the id that the connection has. -/
theorem Inv.frame {f : Frame} {id : Bytes} (hi : n.Inv) (hmine : c ∈ n.own) (henr : n.hub.Enrolled c id)
    (hf : f ∈ n.inbox c) : f.Proper True id := by
  obtain ⟨k, hk, hid, _⟩ := henr
  obtain ⟨k', hk', hf'⟩ := mem_inbox hf
  obtain rfl := Option.some.inj (hk'.symm.trans hk)
  have hproper := (hi.proper c k' hk').inbox f hf'
  rw [hid] at hproper
  exact ⟨hproper.named, fun _ => hproper.listed hmine⟩

/- A node that is attached has the id it was registered under. -/
theorem Inv.registered {resp : Frame} (hi : n.Inv) (hin : resp ∈ n.inbox c)
    (hkind : resp.kind = .registerResp) (hok : resp.success = true) : n.hub.Enrolled c resp.nodeID := by
  obtain ⟨k, hk, hf⟩ := mem_inbox hin
  have hproper := hi.proper c k hk
  refine ⟨k, hk, ((hproper.inbox resp hf).named hkind hok).symm, ?_⟩
  cases henr : k.place.enrolled with
  | true => rfl
  | false =>
    rw [hproper.unregistered henr] at hf
    cases hf

theorem Inv.attach {resp : Frame} (hi : n.Inv) (hmine : c ∈ n.own)
    (henr : resp.kind = .registerResp → resp.success = true → n.hub.Enrolled c resp.nodeID) :
    (n.attach c resp).Inv := by
  unfold Node.attach
  split_ifs with hok
  · obtain ⟨hkind, hsuccess, hfree⟩ := hok
    -- a node that is not attached is neither started nor being started
    have hidle : n.started = false := by
      cases hstarted : n.started with
      | false => rfl
      | true => exact absurd hfree (hi.started hstarted).1
    refine ⟨hi.pointed, hi.proper, hi.attaching, ?_, hi.closing, hi.buffered, ?_, ?_⟩
    · intro d hd
      obtain rfl := Option.some.inj hd
      exact ⟨hmine, henr hkind hsuccess⟩
    · intro d order seatIdx hloop
      rcases of_update (f := n.loop) (c := c) hloop with ⟨_, hnew⟩ | ⟨_, hold⟩
      · cases hnew
      · have hconn := (hi.starting d order seatIdx hold).1
        rw [hfree] at hconn
        cases hconn
    · intro hstarted
      have hstarted' : n.started = true := hstarted
      rw [hidle] at hstarted'
      cases hstarted'
  · exact hi

theorem Inv.detach (hi : n.Inv) (hok : n.Steady .detach) (hs : n.step .detach = some n') : n'.Inv := by
  obtain ⟨hidle, hloop⟩ := hok
  have hnone : ∀ c order seatIdx, n.loop c ≠ .starting order seatIdx := by
    intro c order seatIdx hst
    obtain ⟨hconn, _⟩ := hi.starting c order seatIdx hst
    rcases hloop c hconn with heq | heq
    · rw [heq] at hst
      cases hst
    · rw [heq] at hst
      cases hst
  have hnot : n.started ≠ true := by rw [hidle]; nofun
  rw [step] at hs
  split at hs
  · rename_i hconn
    obtain rfl := Option.some.inj hs
    refine ⟨hi.pointed, hi.proper, hi.attaching, ?_, hi.closing, hi.buffered,
      fun c o i hst => absurd hst (hnone c o i), fun hst => absurd hst hnot⟩
    intro d hd
    rw [show n.dispatchConn = some d from hd] at hconn
    cases hconn
  · rename_i c hconn
    obtain rfl := Option.some.inj hs
    refine ⟨hi.pointed, hi.proper, hi.attaching, nofun, ?_, hi.buffered,
      fun c o i hst => absurd hst (hnone c o i), fun hst => absurd hst hnot⟩
    intro d hd
    rcases List.mem_cons.mp hd with rfl | hd
    · exact ⟨(hi.attached d hconn).1, _, (hi.attached d hconn).2⟩
    · exact hi.closing d hd

theorem Inv.receive (hi : n.Inv) (hs : n.receive c = some n') :
    n'.Inv ∧ n'.id = n.id ∧ n'.dispatchConn = n.dispatchConn ∧ n'.loop = n.loop := by
  unfold Node.receive at hs
  split at hs
  · rename_i frames hframes
    obtain rfl := Option.some.inj hs
    refine ⟨⟨hi.pointed, hi.proper, hi.attaching, hi.attached, hi.closing, ?_, hi.starting, hi.started⟩,
      rfl, rfl, rfl⟩
    intro d fs hfs
    rcases of_update (f := n.buffered) (c := c) hfs with ⟨rfl, hnew⟩ | ⟨_, hold⟩
    · obtain rfl := Option.some.inj hnew
      obtain ⟨id, henr, hproper⟩ := hi.buffered d frames hframes
      exact ⟨id, henr, fun f hf => hproper f (List.mem_of_mem_tail hf)⟩
    · exact hi.buffered d fs hold
  · obtain ⟨h, hstep, rfl⟩ := Option.map_eq_some_iff.mp hs
    exact ⟨hi.hub hstep trivial, rfl, rfl, rfl⟩

/- What the connection that the node is attached by holds is proper for its id. -/
theorem Inv.next {f : Frame} (hi : n.Inv) (hconn : n.dispatchConn = some c) (hf : n.next c = some f) :
    f.Proper True n.id := by
  obtain ⟨hmine, henr⟩ := hi.attached c hconn
  have hmem := List.mem_of_head? hf
  cases hbuf : n.buffered c with
  | none =>
    rw [hbuf, Option.getD_none] at hmem
    exact hi.frame hmine henr hmem
  | some frames =>
    rw [hbuf, Option.getD_some] at hmem
    obtain ⟨id, henr', hproper⟩ := hi.buffered c frames hbuf
    obtain ⟨k, hk, hid, _⟩ := henr
    obtain ⟨k', hk', hid', _⟩ := henr'
    rw [Option.some.inj (hk'.symm.trans hk), hid] at hid'
    rw [hid']
    exact hproper f hmem

theorem Inv.read {f : Frame} {awaited : Bool} (hi : n.Inv)
    (hstart : f.kind = .gameStart → n.dispatchConn = some c ∧ n.id ∈ f.peerIDs) : (n.read c awaited f).Inv := by
  unfold Node.read
  split_ifs with hkind
  · obtain ⟨hconn, hid⟩ := hstart hkind.2
    refine ⟨hi.pointed, hi.proper, hi.attaching, hi.attached, hi.closing, hi.buffered, ?_, hi.started⟩
    intro d order seatIdx hloop
    rcases of_update (f := n.loop) (c := c) hloop with ⟨rfl, hnew⟩ | ⟨_, hold⟩
    · cases hnew
      exact ⟨hconn, seat_seatOf hid⟩
    · exact hi.starting d order seatIdx hold
  · exact hi

/- A loop that goes back to reading, or ends. -/
theorem Inv.loop {l : Loop} (hi : n.Inv) (c : ℕ) (hl : l = .reading ∨ l = .ended) :
    { n with loop := Function.update n.loop c l }.Inv := by
  refine ⟨hi.pointed, hi.proper, hi.attaching, hi.attached, hi.closing, hi.buffered, ?_, hi.started⟩
  intro d order seatIdx hloop
  rcases of_update (f := n.loop) (c := c) hloop with ⟨_, hnew⟩ | ⟨_, hold⟩
  · rcases hl with rfl | rfl <;> cases hnew
  · exact hi.starting d order seatIdx hold

/- A connection that has just come holds nothing. -/
theorem Inv.dial (hi : n.Inv) (hs : n.step .dial = some n') : n'.Inv := by
  rw [Node.step] at hs
  split_ifs at hs with hfree
  obtain ⟨h, hstep, rfl⟩ := Option.map_eq_some_iff.mp hs
  have hh : { n with hub := h }.Inv := hi.hub hstep trivial
  refine ⟨hh.pointed, ?_, ?_, ?_, ?_, hh.buffered, hh.starting, hh.started⟩
  · apply hh.proper.cons
    intro k hk
    obtain rfl := Option.some.inj hstep
    rw [List.getElem?_concat_length] at hk
    obtain rfl := Option.some.inj hk
    exact ⟨rfl, rfl⟩
  · intro c hc
    rcases List.mem_cons.mp hc with rfl | hc
    · exact List.mem_cons_self ..
    · exact List.mem_cons_of_mem _ (hi.attaching c hc)
  · exact fun c hc => ⟨List.mem_cons_of_mem _ (hh.attached c hc).1, (hh.attached c hc).2⟩
  · exact fun c hc => ⟨List.mem_cons_of_mem _ (hh.closing c hc).1, (hh.closing c hc).2⟩

/- What the decoder has buffered came on an own connection. -/
theorem Inv.close {k : ℕ} (hi : n.Inv) (hs : n.step (.close c k) = some n') : n'.Inv := by
  rw [Node.step] at hs
  split_ifs at hs with hmem
  obtain rfl := Option.some.inj hs
  obtain ⟨hmine, id, henr⟩ := hi.closing c hmem
  refine ⟨hi.pointed, hi.proper, hi.attaching, hi.attached,
    fun d hd => hi.closing d (List.mem_of_mem_erase hd), ?_, hi.starting, hi.started⟩
  intro d frames hframes
  rcases of_update (f := n.buffered) (c := c) hframes with ⟨rfl, hnew⟩ | ⟨_, hold⟩
  · obtain rfl := Option.some.inj hnew
    exact ⟨id, henr, fun f hf => hi.frame hmine henr (List.mem_of_mem_take hf)⟩
  · exact hi.buffered d frames hold

theorem Inv.step (hi : n.Inv) (hok : n.Steady e) (hs : n.step e = some n') : n'.Inv := by
  cases e with
  | act e =>
    rw [Node.step] at hs
    split_ifs at hs
    obtain ⟨h, hstep, rfl⟩ := Option.map_eq_some_iff.mp hs
    exact hi.hub hstep hok
  | dial => exact hi.dial hs
  | register c =>
    rw [Node.step] at hs
    split_ifs at hs
    obtain ⟨h, hstep, rfl⟩ := Option.map_eq_some_iff.mp hs
    exact hi.hub hstep trivial
  | attach c =>
    rw [Node.step] at hs
    split_ifs at hs with hmem
    obtain ⟨resp, hresp, hs⟩ := Option.bind_eq_some_iff.mp hs
    obtain ⟨h, hstep, rfl⟩ := Option.map_eq_some_iff.mp hs
    have hmine := hi.attaching c hmem
    have hh : { n with hub := h }.Inv := hi.hub hstep trivial
    have hless : { n with hub := h, attaching := n.attaching.erase c }.Inv :=
      ⟨hh.pointed, hh.proper, fun d hd => hi.attaching d (List.mem_of_mem_erase hd), hh.attached, hh.closing,
        hh.buffered, hh.starting, hh.started⟩
    refine hless.attach hmine ?_
    intro hkind hsuccess
    have henr := hi.registered (List.mem_of_head? hresp) hkind hsuccess
    exact henr.move (Hub.step_move hstep)
  | detach => exact hi.detach hok hs
  | close c k => exact hi.close hs
  | reset =>
    rw [Node.step] at hs
    split_ifs at hs
    obtain rfl := Option.some.inj hs
    exact ⟨hi.pointed, hi.proper, hi.attaching, hi.attached, hi.closing, hi.buffered, hi.starting, nofun⟩
  | read c awaited =>
    rw [Node.step] at hs
    split_ifs at hs
    obtain ⟨frame, hframe, hs⟩ := Option.bind_eq_some_iff.mp hs
    split_ifs at hs
    obtain ⟨n₁, hrecv, rfl⟩ := Option.map_eq_some_iff.mp hs
    obtain ⟨hi₁, hid, hconn, -⟩ := hi.receive hrecv
    refine hi₁.read ?_
    intro hkind
    have hattached : n.dispatchConn = some c := hok ⟨frame, hframe, hkind⟩
    rw [hid, hconn]
    exact ⟨hattached, (hi.next hattached hframe).listed trivial hkind⟩
  | gameStart c =>
    rw [Node.step] at hs
    split at hs
    · rename_i order seatIdx hloop
      obtain rfl := Option.some.inj hs
      obtain ⟨hconn, hseat⟩ := hi.starting c order seatIdx hloop
      have hback := hi.loop c (.inl rfl : Loop.reading = .reading ∨ _)
      refine ⟨hi.pointed, hi.proper, hi.attaching, hi.attached, hi.closing, hi.buffered, hback.starting, ?_⟩
      intro _
      exact ⟨by rw [hconn]; nofun, hseat⟩
    · cases hs
  | stop c =>
    rw [Node.step] at hs
    split_ifs at hs
    obtain rfl := Option.some.inj hs
    exact hi.loop c (.inr rfl)

theorem Inv.of_trace {prefNodeID : Bytes} {cfg : Config} {es : List Event}
    (ht : Trace Node.step Steady (Node.new prefNodeID cfg) es n) : n.Inv :=
  ht.keeps (.new prefNodeID cfg) fun _ _ _ hok hs hi => hi.step hok hs

theorem started_node_seated (prefNodeID : Bytes) (cfg : Config) (es : List Event) (n : Node)
    (ht : Trace step Steady (Node.new prefNodeID cfg) es n) : n.Seated :=
  fun hstarted => ((Inv.of_trace ht).started hstarted).2

/- The id is gone before the game is: a node that is seated is not while it detaches. -/
theorem detach_unseats (hstarted : n.started = true) (hseat : n.Seated) (hid : n.id ≠ [])
    (hs : n.step .detach = some n') : ¬ n'.Seated := by
  intro hseat'
  obtain ⟨_, _, hold⟩ := hseat hstarted
  have hkept : n'.started = n.started ∧ n'.order = n.order ∧ n'.seatIdx = n.seatIdx ∧ n'.id = [] := by
    rw [step] at hs
    split at hs
    · obtain rfl := Option.some.inj hs
      exact ⟨rfl, rfl, rfl, rfl⟩
    · obtain rfl := Option.some.inj hs
      exact ⟨rfl, rfl, rfl, rfl⟩
  obtain ⟨hst, horder, hidx, hgone⟩ := hkept
  obtain ⟨_, _, hnew⟩ := hseat' (hst.trans hstarted)
  rw [horder, hidx, hold, hgone] at hnew
  exact hid (Option.some.inj hnew)

/- The node attaches on its first connection. -/
def attaches : List Event :=
  [.dial, .register 0, .act (.register 0 0), .act (.reply 0), .attach 0]

/- A request is received, handled and answered. -/
def asks (frame : Frame) : List Event := [.act (.receive 0 frame 0), .act (.handle 0 0)]

def zoeID : Bytes := ascii "zoe"

/- Zoe creates a session; Bob joins it and asks for the start. -/
def bobAtTable : List Event :=
  [attaches, asks { kind := .createSessionReq, sessionID := Hub.tableID, requestID := ascii "zoe-1" },
    [.act (.reply 0), .read 0 true], (Hub.bobJoins 0).map .act].flatten

def bobAndZoe : Session := ⟨{Hub.bobID, zoeID}, sampleConfig.timeoutInterval, sampleConfig.maxAttempts⟩

def bobAndZoeFrame : Frame := { startFrame Hub.tableID bobAndZoe with peerIDs := [Hub.bobID, zoeID] }

theorem sort_bobAndZoe : bobAndZoe.members.sort (· ≤ ·) = [Hub.bobID, zoeID] :=
  Hub.sort_members (by decide +kernel) (by decide +kernel) (by decide +kernel)

def gathered : Node := run step Steady (new zoeID sampleConfig) bobAtTable

/- The frame is made, and Zoe is sent it second. -/
def listed : Node := { gathered with hub := gathered.hub.setPlace 1 (.starting bobAndZoeFrame) }

def startsZoe : List Event :=
  [.act (.broadcast 1), .act (.send 1), .act (.send 1), .act (.send 1), .read 0 false, .gameStart 0]

def zoeStarted : Node := run step Steady listed startsZoe

theorem listed_of_gathered : gathered.step (.act (.handle 1 0)) = some listed := by
  have hsnap : gathered.hub.step (.handle 1 0) = some (gathered.hub.setPlace 1 (.starting bobAndZoeFrame)) :=
    Hub.step_snapshot (by decide +kernel) (by decide +kernel) sort_bobAndZoe
  rw [step, if_pos (by decide +kernel), hsnap]
  rfl

theorem zoe_seated_after_bob :
    zoeStarted.started = true ∧ zoeStarted.order = [Hub.bobID, zoeID] ∧ zoeStarted.seatIdx = 1 ∧
      zoeStarted.Seated := by
  have hgather : Trace step Steady (new zoeID sampleConfig) bobAtTable gathered := run_trace (by decide +kernel)
  have hrest : Trace step Steady listed startsZoe zoeStarted := run_trace (by decide +kernel)
  refine ⟨by decide +kernel, by decide +kernel, by decide +kernel, ?_⟩
  exact started_node_seated _ _ _ _ ((hgather.snoc _ (by decide +kernel) listed_of_gathered).append hrest)

/- Alice asks for a game start without a session: the refusal starts her. -/
def startsOutside : List Event :=
  [attaches, asks { kind := .gameStart }, [.act (.reply 0), .read 0 false, .gameStart 0]].flatten

theorem refused_start_unseated : ∃ n, Trace step Free (new Hub.aliceID sampleConfig) startsOutside n ∧
    n.started = true ∧ n.order = [] ∧ n.seatIdx = -1 ∧ n.id = Hub.aliceID ∧ ¬ n.Seated := by
  have hstarted : (run step Free (new Hub.aliceID sampleConfig) startsOutside).started = true := by
    decide +kernel
  have hseat : (run step Free (new Hub.aliceID sampleConfig) startsOutside).seatIdx = -1 := by
    decide +kernel
  refine ⟨_, run_trace (by decide +kernel), hstarted, by decide +kernel, hseat, by decide +kernel, ?_⟩
  intro h
  obtain ⟨hpos, _⟩ := h hstarted
  rw [hseat] at hpos
  exact absurd hpos (by decide)

end Node

end P2Poker.Seating
