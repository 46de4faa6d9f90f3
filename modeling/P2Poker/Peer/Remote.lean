import Mathlib.Data.Finmap
import P2Poker.Lib.Trace
import P2Poker.Ephemeral.Store

/-!
# Reading a peer's store (internal/peer/ephemeral.go)

A read sends a request and waits for the response that carries its request id.
The nodes that run this code are connected to each other and to outsiders, who
send what they like under any name.
-/

namespace P2Poker.Remote
open P2Poker.Lib P2Poker.Ephemeral

structure ReadRequest where
  requestID : Bytes
  key : Key
  deriving DecidableEq

structure ReadResponse where
  requestID : Bytes
  key : Key
  value : Bytes
  found : Bool
  deriving DecidableEq

inductive Body where
  | request (req : ReadRequest)
  | response (resp : ReadResponse)
  deriving DecidableEq

/-- A peer message on its way. `sender` is the name it carries; `origin` is the
node that sent it, and `none` when that was an outsider. -/
structure Packet where
  origin : Option Bytes
  receiver : Bytes
  sender : Bytes
  body : Body
  deriving DecidableEq

/-- A call of ReadRemote, and the channel it waits on. -/
structure Call where
  target : Bytes
  key : Key
  requestID : Bytes
  ch : Option ReadResponse := none
  returned : Bool := false
  deriving DecidableEq

structure Node where
  requestCounter : UInt64 := 0
  store : Store Bytes := .new
  -- the far end of the connection in each slot, `none` for an outsider
  peers : Finmap fun _ : Bytes => Option Bytes := ∅
  -- the call that waits for a request id
  peerPending : Finmap fun _ : Bytes => ℕ := ∅
  calls : List Call := []

structure Net where
  nodes : Bytes → Node := fun _ => {}
  inFlight : List Packet := []

inductive Event where
  | link (x id : Bytes) (far : Option Bytes)
  | unlink (x id : Bytes)
  | host (x : Bytes) (store : Store Bytes)
  -- a request to dispatch, which draws from the same counter
  | dispatchRequest (x : Bytes)
  | call (x target : Bytes) (key : Key)
  | inject (receiver sender : Bytes) (body : Body)
  | lose (n : ℕ)
  | deliver (n : ℕ)
  | ret (x : Bytes) (c : ℕ)
  | cancel (x : Bytes) (c : ℕ)

def requestID (x : Bytes) (counter : UInt64) : Bytes := x ++ ascii "-" ++ decimal counter.toNat

namespace Net
variable (w : Net)

def setNode (x : Bytes) (n : Node) : Net := { w with nodes := Function.update w.nodes x n }

def push (p : Packet) : Net := { w with inFlight := w.inFlight ++ [p] }

/- `Send`: what goes to an outsider is not followed further. -/
def send (x targetID : Bytes) (body : Body) : Net :=
  match (w.nodes x).peers.lookup targetID with
  | some (some y) => w.push ⟨some x, y, x, body⟩
  | _ => w

/-- The call ends at once when there is no connection to the target. -/
def readRemote (x target : Bytes) (key : Key) : Net :=
  let n := w.nodes x
  let v := n.requestCounter + 1
  if (n.peers.lookup target).isNone then w.setNode x { n with requestCounter := v }
  else
    (w.setNode x
      { n with
        requestCounter := v
        peerPending := n.peerPending.insert (requestID x v) n.calls.length
        calls := n.calls ++ [⟨target, key, requestID x v, none, false⟩] }).send x target
      (.request ⟨requestID x v, key⟩)

/- The handler of a read request. -/
def answer (y : Bytes) (msgFrom : Bytes) (req : ReadRequest) : Net :=
  let value := (w.nodes y).store.get req.key
  w.send y msgFrom (.response ⟨req.requestID, req.key, value.getD [], value.isSome⟩)

/- The handler of a response: the channel takes one, and later ones are dropped. -/
def accept (x : Bytes) (resp : ReadResponse) : Net :=
  let n := w.nodes x
  match n.peerPending.lookup resp.requestID with
  | none => w
  | some c =>
    w.setNode x { n with calls := n.calls.modify c fun call => { call with ch := call.ch.or (some resp) } }

def receive (p : Packet) : Net :=
  match p.body with
  | .request req => w.answer p.receiver p.sender req
  | .response resp => w.accept p.receiver resp

def finish (x : Bytes) (c : ℕ) (call : Call) : Net :=
  let n := w.nodes x
  w.setNode x
    { n with
      peerPending := n.peerPending.erase call.requestID
      calls := n.calls.set c { call with returned := true } }

/- What a waiting call returns. -/
def result (x : Bytes) (c : ℕ) : Option (Bytes × Bool) :=
  (w.nodes x).calls[c]?.bind fun call =>
    if call.returned then none else call.ch.map fun resp => (resp.value, resp.found)

def step (honest : Bytes → Bool) : Event → Option Net
  | .link x id far => some (w.setNode x { w.nodes x with peers := (w.nodes x).peers.insert id far })
  | .unlink x id => some (w.setNode x { w.nodes x with peers := (w.nodes x).peers.erase id })
  | .host x store => some (w.setNode x { w.nodes x with store := store })
  | .dispatchRequest x =>
    some (w.setNode x { w.nodes x with requestCounter := (w.nodes x).requestCounter + 1 })
  | .call x target key => if honest x then some (w.readRemote x target key) else none
  | .inject receiver sender body => some (w.push ⟨none, receiver, sender, body⟩)
  | .lose n => some { w with inFlight := w.inFlight.eraseIdx n }
  | .deliver n =>
    match w.inFlight[n]? with
    | none => none
    | some p =>
      if honest p.receiver then some ({ w with inFlight := w.inFlight.eraseIdx n }.receive p) else none
  | .ret x c =>
    match (w.nodes x).calls[c]? with
    | none => none
    | some call => if (w.result x c).isSome then some (w.finish x c call) else none
  | .cancel x c =>
    match (w.nodes x).calls[c]? with
    | none => none
    | some call => if call.returned then none else some (w.finish x c call)

end Net

/-! ### Request ids -/

/- The node whose id a request id begins with. -/
def owner (r : Bytes) : Option Bytes :=
  match r.reverse.dropWhile isDigit with
  | 45 :: rest => some rest.reverse
  | _ => none

theorem owner_requestID (x : Bytes) (v : UInt64) : owner (requestID x v) = some x := by
  have hrev : (requestID x v).reverse = (decimal v.toNat).reverse ++ 45 :: x.reverse := by
    simp [requestID, ascii]
  have hdrop : (requestID x v).reverse.dropWhile isDigit = 45 :: x.reverse := by
    rw [hrev, List.dropWhile_append_of_pos]
    · rfl
    · intro b hb
      exact isDigit_of_mem_decimal (List.mem_reverse.mp hb)
  rw [owner, hdrop]
  simp

theorem requestID_inj {x : Bytes} {v v' : UInt64} (h : requestID x v = requestID x v') : v = v' := by
  unfold requestID at h
  exact UInt64.toNat_inj.mp (decimal_injective (List.append_cancel_left h))

/-! ### What an event does -/

/- What a call asks for. -/
structure Head where
  target : Bytes
  key : Key
  requestID : Bytes

def Call.head (call : Call) : Head := ⟨call.target, call.key, call.requestID⟩

def Node.heads (n : Node) : List Head := n.calls.map Call.head

/- The call's channel holds the response. -/
def Node.Got (n : Node) (c : ℕ) (resp : ReadResponse) : Prop :=
  ∃ call, n.calls[c]? = some call ∧ call.ch = some resp

structure Node.Keeps (n n' : Node) : Prop where
  heads : n'.heads = n.heads
  got : ∀ c resp, n'.Got c resp → n.Got c resp
  pending : ∀ r c, n'.peerPending.lookup r = some c → n.peerPending.lookup r = some c

theorem Node.Keeps.refl (n : Node) : n.Keeps n := ⟨rfl, fun _ _ h => h, fun _ _ h => h⟩

def Event.Draws (x : Bytes) : Event → Prop
  | .dispatchRequest y => y = x
  | .call y _ _ => y = x
  | _ => False

inductive Move (honest : Bytes → Bool) (w : Net) : Event → Net → Prop where
  | quiet {e : Event} {w' : Net} (hkeeps : ∀ x, (w.nodes x).Keeps (w'.nodes x))
      (hcounter : ∀ x, (w'.nodes x).requestCounter = (w.nodes x).requestCounter ∨
        e.Draws x ∧ (w'.nodes x).requestCounter = (w.nodes x).requestCounter + 1)
      (hflight : ∀ p ∈ w'.inFlight, p ∈ w.inFlight ∨ p.origin = none) : Move honest w e w'
  | call {x target : Bytes} {key : Key} {n : Node} {w' : Net} (hx : honest x = true)
      (hn : w'.nodes = Function.update w.nodes x n)
      (hcounter : n.requestCounter = (w.nodes x).requestCounter + 1)
      (hheads : n.heads = (w.nodes x).heads ++ [⟨target, key, requestID x n.requestCounter⟩])
      (hgot : ∀ c resp, n.Got c resp → (w.nodes x).Got c resp)
      (hpending : n.peerPending =
        (w.nodes x).peerPending.insert (requestID x n.requestCounter) (w.nodes x).heads.length)
      (hflight : ∀ p ∈ w'.inFlight, p ∈ w.inFlight ∨
        p.origin = some x ∧ p.body = .request ⟨requestID x n.requestCounter, key⟩) :
      Move honest w (.call x target key) w'
  | answer {n : ℕ} {p : Packet} {req : ReadRequest} {w' : Net} (hp : w.inFlight[n]? = some p)
      (hbody : p.body = .request req) (hnodes : w'.nodes = w.nodes)
      (hflight : ∀ q ∈ w'.inFlight, q ∈ w.inFlight ∨
        q.origin = some p.receiver ∧ ∃ value, value = (w.nodes p.receiver).store.get req.key ∧
          q.body = .response ⟨req.requestID, req.key, value.getD [], value.isSome⟩) :
      Move honest w (.deliver n) w'
  | accept {n : ℕ} {p : Packet} {resp : ReadResponse} {w' : Net} (hp : w.inFlight[n]? = some p)
      (hx : honest p.receiver = true) (hbody : p.body = .response resp)
      (hheads : ∀ x, (w'.nodes x).heads = (w.nodes x).heads)
      (hgot : ∀ x c resp', (w'.nodes x).Got c resp' → (w.nodes x).Got c resp' ∨
        x = p.receiver ∧ resp' = resp ∧ (w.nodes x).peerPending.lookup resp.requestID = some c)
      (hrest : ∀ x, (w'.nodes x).requestCounter = (w.nodes x).requestCounter ∧
        (w'.nodes x).peerPending = (w.nodes x).peerPending)
      (hflight : ∀ q ∈ w'.inFlight, q ∈ w.inFlight) :
      Move honest w (.deliver n) w'

namespace Net
variable {honest : Bytes → Bool} {w w' : Net} {e : Event}

theorem send_nodes (x target : Bytes) (body : Body) : (w.send x target body).nodes = w.nodes := by
  unfold send
  split <;> rfl

theorem mem_send {x target : Bytes} {body : Body} {p : Packet} (h : p ∈ (w.send x target body).inFlight) :
    p ∈ w.inFlight ∨ p.origin = some x ∧ p.body = body := by
  unfold send at h
  split at h
  · rcases List.mem_append.mp h with hold | hnew
    · exact .inl hold
    · obtain rfl := List.mem_singleton.mp hnew
      exact .inr ⟨rfl, rfl⟩
  · exact .inl h

/- One node changes, and keeps its calls. -/
theorem move_setNode {x : Bytes} {n : Node} (hkeeps : (w.nodes x).Keeps n)
    (hcounter : n.requestCounter = (w.nodes x).requestCounter ∨
      e.Draws x ∧ n.requestCounter = (w.nodes x).requestCounter + 1) :
    Move honest w e (w.setNode x n) := by
  refine .quiet ?_ ?_ (fun p hp => .inl hp)
  · intro y
    by_cases h : y = x
    · subst h
      simpa [setNode] using hkeeps
    · simpa [setNode, h] using Node.Keeps.refl _
  · intro y
    by_cases h : y = x
    · subst h
      simpa [setNode] using hcounter
    · simp [setNode, h]

theorem heads_ext {n n' : Node} (h : ∀ c : ℕ, n'.calls[c]?.map Call.head = n.calls[c]?.map Call.head) :
    n'.heads = n.heads := by
  refine List.ext_getElem? fun c => ?_
  rw [Node.heads, Node.heads, List.getElem?_map, List.getElem?_map, h c]

theorem move_finish {x : Bytes} {c : ℕ} {call : Call} (h : (w.nodes x).calls[c]? = some call) :
    Move honest w e (w.finish x c call) := by
  refine move_setNode ⟨heads_ext fun d => ?_, ?_, ?_⟩ (.inl rfl)
  · dsimp only
    rw [List.getElem?_set]
    split_ifs with hd hlen
    · subst hd
      rw [h]
      rfl
    · subst hd
      rw [List.getElem?_eq_none (Nat.le_of_not_lt hlen)]
    · rfl
  · rintro d resp ⟨call', hcall, hch⟩
    dsimp only at hcall
    rw [List.getElem?_set] at hcall
    split_ifs at hcall with hd hlen
    · subst hd
      obtain rfl := Option.some.inj hcall
      exact ⟨call, h, hch⟩
    · exact ⟨call', hcall, hch⟩
  · intro r d hr
    dsimp only at hr
    by_cases hrc : r = call.requestID
    · subst hrc
      rw [Finmap.lookup_erase] at hr
      cases hr
    · rwa [Finmap.lookup_erase_ne hrc] at hr

theorem move_readRemote {x target : Bytes} {key : Key} (hx : honest x = true) :
    Move honest w (.call x target key) (w.readRemote x target key) := by
  unfold readRemote
  dsimp only
  split_ifs with hslot
  · exact move_setNode ⟨rfl, fun _ _ h => h, fun _ _ h => h⟩ (.inr ⟨rfl, rfl⟩)
  · refine .call hx (send_nodes ..) rfl ?_ ?_ ?_ ?_
    · simp [Node.heads, Call.head]
    · rintro c resp ⟨call, hcall, hch⟩
      dsimp only at hcall
      rw [List.getElem?_append] at hcall
      split_ifs at hcall with hlen
      · exact ⟨call, hcall, hch⟩
      · obtain rfl := List.mem_singleton.mp (List.mem_of_getElem? hcall)
        cases hch
    · simp [Node.heads]
    · intro p hp
      have hsent := mem_send hp
      exact hsent

theorem move_answer {n : ℕ} {p : Packet} {req : ReadRequest} (hp : w.inFlight[n]? = some p)
    (hbody : p.body = .request req) :
    Move honest w (.deliver n)
      ({ w with inFlight := w.inFlight.eraseIdx n }.answer p.receiver p.sender req) := by
  refine .answer hp hbody (send_nodes ..) ?_
  intro q hq
  rcases mem_send hq with hold | ⟨horigin, hbody'⟩
  · exact .inl (List.mem_of_mem_eraseIdx hold)
  · exact .inr ⟨horigin, _, rfl, hbody'⟩

theorem move_accept {n : ℕ} {p : Packet} {resp : ReadResponse} (hp : w.inFlight[n]? = some p)
    (hx : honest p.receiver = true) (hbody : p.body = .response resp) :
    Move honest w (.deliver n)
      ({ w with inFlight := w.inFlight.eraseIdx n }.accept p.receiver resp) := by
  unfold accept
  dsimp only
  split
  · exact .accept hp hx hbody (fun _ => rfl) (fun _ _ _ h => .inl h) (fun _ => ⟨rfl, rfl⟩)
      fun q hq => List.mem_of_mem_eraseIdx hq
  · rename_i c hc
    refine .accept hp hx hbody ?_ ?_ ?_ fun q hq => List.mem_of_mem_eraseIdx hq
    · intro x
      by_cases h : x = p.receiver
      · subst h
        refine heads_ext fun d => ?_
        simp only [setNode, Function.update_self, List.getElem?_modify]
        split_ifs
        · cases (w.nodes p.receiver).calls[d]? <;> rfl
        · simp
      · simp [setNode, h]
    · rintro x d resp' ⟨call, hcall, hch⟩
      by_cases h : x = p.receiver
      · subst h
        simp only [setNode, Function.update_self, List.getElem?_modify] at hcall
        obtain ⟨old, hold, rfl⟩ := Option.map_eq_some_iff.mp hcall
        split_ifs at hch with hd
        · subst hd
          cases hold' : old.ch with
          | none =>
            rw [hold'] at hch
            exact .inr ⟨rfl, (Option.some.inj hch).symm, hc⟩
          | some resp₀ =>
            rw [hold'] at hch
            obtain rfl := Option.some.inj hch
            exact .inl ⟨old, hold, hold'⟩
        · exact .inl ⟨old, hold, hch⟩
      · simp only [setNode, Function.update_of_ne h] at hcall
        exact .inl ⟨call, hcall, hch⟩
    · intro x
      by_cases h : x = p.receiver
      · subst h
        simp [setNode]
      · simp [setNode, h]

theorem step_move (h : w.step honest e = some w') : Move honest w e w' := by
  cases e with
  | link x id far =>
    obtain rfl := Option.some.inj h
    exact move_setNode ⟨rfl, fun _ _ h => h, fun _ _ h => h⟩ (.inl rfl)
  | unlink x id =>
    obtain rfl := Option.some.inj h
    exact move_setNode ⟨rfl, fun _ _ h => h, fun _ _ h => h⟩ (.inl rfl)
  | host x store =>
    obtain rfl := Option.some.inj h
    exact move_setNode ⟨rfl, fun _ _ h => h, fun _ _ h => h⟩ (.inl rfl)
  | dispatchRequest x =>
    obtain rfl := Option.some.inj h
    exact move_setNode ⟨rfl, fun _ _ h => h, fun _ _ h => h⟩ (.inr ⟨rfl, rfl⟩)
  | call x target key =>
    rw [step] at h
    split_ifs at h with hx
    obtain rfl := Option.some.inj h
    exact move_readRemote hx
  | inject receiver sender body =>
    obtain rfl := Option.some.inj h
    refine .quiet (fun _ => Node.Keeps.refl _) (fun _ => .inl rfl) ?_
    intro p hp
    rcases List.mem_append.mp hp with hold | hnew
    · exact .inl hold
    · obtain rfl := List.mem_singleton.mp hnew
      exact .inr rfl
  | lose n =>
    obtain rfl := Option.some.inj h
    exact .quiet (fun _ => Node.Keeps.refl _) (fun _ => .inl rfl)
      fun p hp => .inl (List.mem_of_mem_eraseIdx hp)
  | deliver n =>
    rw [step] at h
    split at h
    · cases h
    · rename_i p hp
      split_ifs at h with hx
      obtain rfl := Option.some.inj h
      unfold receive
      split
      · exact move_answer hp (by assumption)
      · exact move_accept hp hx (by assumption)
  | ret x c =>
    rw [step] at h
    split at h
    · cases h
    · rename_i call hcall
      split_ifs at h
      obtain rfl := Option.some.inj h
      exact move_finish hcall
  | cancel x c =>
    rw [step] at h
    split at h
    · cases h
    · rename_i call hcall
      split_ifs at h
      obtain rfl := Option.some.inj h
      exact move_finish hcall

end Net

/-! ### Histories -/

section
variable (honest : Bytes → Bool) (w₀ : Net)

abbrev Run (ok : Net → Event → Prop) : List Event → Net → Prop :=
  Trace (fun w e => w.step honest e) ok w₀

/- The call was made in this history, as the node's `c`-th. -/
def CalledAt (es : List Event) (x : Bytes) (c : ℕ) (head : Head) : Prop :=
  ∃ es₁ es₂ w, es = es₁ ++ .call x head.target head.key :: es₂ ∧ Run honest w₀ Free es₁ w ∧
    (w.nodes x).heads.length = c

/-- After the call was made, `y` handled the request it had sent, with the value
in its store. -/
def AnsweredBy (es : List Event) (x : Bytes) (c : ℕ) (head : Head) (y value : Bytes) :
    Prop :=
  ∃ es₁ n es₂ w p, es = es₁ ++ .deliver n :: es₂ ∧ CalledAt honest w₀ es₁ x c head ∧
    Run honest w₀ Free es₁ w ∧ w.inFlight[n]? = some p ∧ p.origin = some x ∧ p.receiver = y ∧
    p.body = .request ⟨head.requestID, head.key⟩ ∧ (w.nodes y).store.get head.key = some value

end

variable {honest : Bytes → Bool} {w₀ w w' : Net} {es : List Event} {e : Event}

theorem CalledAt.snoc {x : Bytes} {c : ℕ} {head : Head}
    (h : CalledAt honest w₀ es x c head) : CalledAt honest w₀ (es ++ [e]) x c head := by
  obtain ⟨es₁, es₂, w, rfl, hrun, hlen⟩ := h
  exact ⟨es₁, es₂ ++ [e], w, by simp, hrun, hlen⟩

theorem AnsweredBy.snoc {x : Bytes} {c : ℕ} {head : Head} {y value : Bytes}
    (h : AnsweredBy honest w₀ es x c head y value) :
    AnsweredBy honest w₀ (es ++ [e]) x c head y value := by
  obtain ⟨es₁, n, es₂, w, p, rfl, hrest⟩ := h
  exact ⟨es₁, n, es₂ ++ [e], w, p, by simp, hrest⟩

/-! ### Sincere traffic -/

/- A request under a node's request id comes from that node. -/
def FromOwner (honest : Bytes → Bool) (p : Packet) (req : ReadRequest) : Prop :=
  ∀ x ∈ owner req.requestID, honest x = true → p.origin = some x

/- A response that a call waits for comes from the node the call is about. -/
def FromTarget (w : Net) (p : Packet) (resp : ReadResponse) : Prop :=
  ∀ c ∈ (w.nodes p.receiver).peerPending.lookup resp.requestID,
    ∀ call ∈ (w.nodes p.receiver).calls[c]?, p.origin = some call.target

/-- No message but a node's own carries a request id of that node to another, no
node but its target answers a pending request, and no request counter wraps. -/
def Sincere (honest : Bytes → Bool) (w : Net) : Event → Prop
  | .deliver n =>
    ∀ p ∈ w.inFlight[n]?,
      match p.body with
      | .request req => FromOwner honest p req
      | .response resp => FromTarget w p resp
  | .call x _ _ => (w.nodes x).requestCounter.toNat + 1 < 2 ^ 64
  | .dispatchRequest x => (w.nodes x).requestCounter.toNat + 1 < 2 ^ 64
  | _ => True

instance (p : Packet) (req : ReadRequest) : Decidable (FromOwner honest p req) := by
  unfold FromOwner
  infer_instance

instance (p : Packet) (resp : ReadResponse) : Decidable (FromTarget w p resp) := by
  unfold FromTarget
  infer_instance

instance : Decidable (Sincere honest w e) := by
  delta Sincere
  induction e using Event.casesOn with
  | deliver =>
    have : ∀ p : Packet, Decidable (match p.body with
        | .request req => FromOwner honest p req
        | .response resp => FromTarget w p resp) := fun p => by
      induction p.body using Body.casesOn <;> infer_instance
    infer_instance
  | _ => infer_instance

theorem Sincere.counter_succ {x : Bytes} (h : Sincere honest w e) (hd : e.Draws x) :
    ((w.nodes x).requestCounter + 1).toNat = (w.nodes x).requestCounter.toNat + 1 := by
  have hlt : (w.nodes x).requestCounter.toNat + 1 < 2 ^ 64 := by
    cases e with
    | call y target key =>
      obtain rfl : y = x := hd
      exact h
    | dispatchRequest y =>
      obtain rfl : y = x := hd
      exact h
    | _ => exact hd.elim
  rw [UInt64.toNat_add, UInt64.toNat_one, Nat.mod_eq_of_lt hlt]

structure Inv (honest : Bytes → Bool) (w₀ : Net) (es : List Event) (w : Net) : Prop where
  called : ∀ x (c : ℕ) head, (w.nodes x).heads[c]? = some head → CalledAt honest w₀ es x c head
  counted : ∀ x (c : ℕ) head, (w.nodes x).heads[c]? = some head →
    ∃ v : UInt64, v.toNat ≤ (w.nodes x).requestCounter.toNat ∧ head.requestID = requestID x v
  distinct : ∀ x (c c' : ℕ) head head', (w.nodes x).heads[c]? = some head →
    (w.nodes x).heads[c']? = some head' → head.requestID = head'.requestID → c = c'
  pending : ∀ x r c, (w.nodes x).peerPending.lookup r = some c →
    ∃ target key, (w.nodes x).heads[c]? = some ⟨target, key, r⟩
  request : ∀ p ∈ w.inFlight, ∀ x r key, p.origin = some x → p.body = .request ⟨r, key⟩ →
    ∃ (c : ℕ) (target : Bytes), (w.nodes x).heads[c]? = some ⟨target, key, r⟩
  response : ∀ p ∈ w.inFlight, ∀ y resp x, p.origin = some y → p.body = .response resp →
    owner resp.requestID = some x → honest x = true →
    ∃ (c : ℕ) (target : Bytes), (w.nodes x).heads[c]? = some ⟨target, resp.key, resp.requestID⟩ ∧
      (resp.found = true →
        AnsweredBy honest w₀ es x c ⟨target, resp.key, resp.requestID⟩ y resp.value)
  got : ∀ x c resp, (w.nodes x).Got c resp → resp.found = true →
    ∃ head, (w.nodes x).heads[c]? = some head ∧
      AnsweredBy honest w₀ es x c head head.target resp.value

theorem Inv.quiet (h : Inv honest w₀ es w) (hok : Sincere honest w e)
    (hkeeps : ∀ x, (w.nodes x).Keeps (w'.nodes x))
    (hcounter : ∀ x, (w'.nodes x).requestCounter = (w.nodes x).requestCounter ∨
      e.Draws x ∧ (w'.nodes x).requestCounter = (w.nodes x).requestCounter + 1)
    (hflight : ∀ p ∈ w'.inFlight, p ∈ w.inFlight ∨ p.origin = none) :
    Inv honest w₀ (es ++ [e]) w' := by
  have hheads := fun x => (hkeeps x).heads
  constructor
  · intro x c head hc
    rw [hheads] at hc
    exact (h.called x c head hc).snoc
  · intro x c head hc
    rw [hheads] at hc
    obtain ⟨v, hv, hr⟩ := h.counted x c head hc
    refine ⟨v, ?_, hr⟩
    rcases hcounter x with hsame | ⟨hd, hnext⟩
    · rwa [hsame]
    · rw [hnext, hok.counter_succ hd]
      omega
  · intro x
    rw [hheads]
    exact h.distinct x
  · intro x r c hc
    rw [hheads]
    exact h.pending x r c ((hkeeps x).pending r c hc)
  · intro p hp x r key horigin hbody
    rw [hheads]
    rcases hflight p hp with hold | hnone
    · exact h.request p hold x r key horigin hbody
    · rw [hnone] at horigin
      cases horigin
  · intro p hp y resp x horigin hbody howner hx
    rw [hheads]
    rcases hflight p hp with hold | hnone
    · obtain ⟨c, target, hc, hans⟩ := h.response p hold y resp x horigin hbody howner hx
      exact ⟨c, target, hc, fun hf => (hans hf).snoc⟩
    · rw [hnone] at horigin
      cases horigin
  · intro x c resp hgot hf
    rw [hheads]
    obtain ⟨head, hc, hans⟩ := h.got x c resp ((hkeeps x).got c resp hgot) hf
    exact ⟨head, hc, hans.snoc⟩

section Call
variable {x target : Bytes} {key : Key} {n : Node} (hn : w'.nodes = Function.update w.nodes x n)
  (hheads : n.heads = (w.nodes x).heads ++ [⟨target, key, requestID x n.requestCounter⟩])
include hn hheads

/- The calls that were there keep their place. -/
theorem heads_call_mono {y : Bytes} {c : ℕ} {head : Head} (hc : (w.nodes y).heads[c]? = some head) :
    (w'.nodes y).heads[c]? = some head := by
  rw [hn]
  by_cases hy : y = x
  · subst hy
    rw [Function.update_self, hheads, List.getElem?_append_left (List.getElem?_eq_some_iff.mp hc).1, hc]
  · rwa [Function.update_of_ne hy]

theorem heads_call_new : (w'.nodes x).heads[(w.nodes x).heads.length]? =
    some ⟨target, key, requestID x n.requestCounter⟩ := by
  rw [hn, Function.update_self, hheads, List.getElem?_concat_length]

theorem heads_call_cases {y : Bytes} {c : ℕ} {head : Head} (hc : (w'.nodes y).heads[c]? = some head) :
    (w.nodes y).heads[c]? = some head ∨
      y = x ∧ c = (w.nodes x).heads.length ∧ head = ⟨target, key, requestID x n.requestCounter⟩ := by
  rw [hn] at hc
  by_cases hy : y = x
  · subst hy
    rw [Function.update_self, hheads, List.getElem?_append] at hc
    split_ifs at hc with hlen
    · exact .inl hc
    · obtain ⟨hone, rfl⟩ := List.getElem?_eq_some_iff.mp hc
      rw [List.length_singleton] at hone
      exact .inr ⟨rfl, by omega, by simp⟩
  · rw [Function.update_of_ne hy] at hc
    exact .inl hc

end Call

/- The counter has passed every request id of the node. -/
theorem Inv.fresh_request (h : Inv honest w₀ es w) {x : Bytes} {v : UInt64}
    (hv : (w.nodes x).requestCounter.toNat < v.toNat) {c : ℕ} {head : Head}
    (hc : (w.nodes x).heads[c]? = some head) : head.requestID ≠ requestID x v := by
  intro heq
  obtain ⟨v', hle, hr⟩ := h.counted x c head hc
  rw [requestID_inj (hr.symm.trans heq)] at hle
  omega

theorem Inv.call (h : Inv honest w₀ es w) (hrun : Run honest w₀ (Sincere honest) es w)
    {x target : Bytes} {key : Key} {n : Node} (hok : Sincere honest w (.call x target key))
    (hn : w'.nodes = Function.update w.nodes x n)
    (hcounter : n.requestCounter = (w.nodes x).requestCounter + 1)
    (hheads : n.heads = (w.nodes x).heads ++ [⟨target, key, requestID x n.requestCounter⟩])
    (hgot : ∀ c resp, n.Got c resp → (w.nodes x).Got c resp)
    (hpending : n.peerPending =
      (w.nodes x).peerPending.insert (requestID x n.requestCounter) (w.nodes x).heads.length)
    (hflight : ∀ p ∈ w'.inFlight, p ∈ w.inFlight ∨
      p.origin = some x ∧ p.body = .request ⟨requestID x n.requestCounter, key⟩) :
    Inv honest w₀ (es ++ [.call x target key]) w' := by
  have hsucc : n.requestCounter.toNat = (w.nodes x).requestCounter.toNat + 1 := by
    rw [hcounter, hok.counter_succ rfl]
  have hself : w'.nodes x = n := by rw [hn, Function.update_self]
  have hother : ∀ y, y ≠ x → w'.nodes y = w.nodes y := fun y hy => by rw [hn, Function.update_of_ne hy]
  have hmono {y : Bytes} {c : ℕ} {head : Head} (hc : (w.nodes y).heads[c]? = some head) :=
    heads_call_mono hn hheads hc
  have hcases {y : Bytes} {c : ℕ} {head : Head} (hc : (w'.nodes y).heads[c]? = some head) :=
    heads_call_cases hn hheads hc
  have hfresh {c : ℕ} {head : Head} (hc : (w.nodes x).heads[c]? = some head) :=
    h.fresh_request (v := n.requestCounter) (by omega) hc
  constructor
  · intro y c head hc
    rcases hcases hc with hold | ⟨rfl, rfl, rfl⟩
    · exact (h.called y c head hold).snoc
    · exact ⟨es, [], w, rfl, hrun.mono fun _ _ _ => trivial, rfl⟩
  · intro y c head hc
    rcases hcases hc with hold | ⟨rfl, rfl, rfl⟩
    · obtain ⟨v, hv, hr⟩ := h.counted y c head hold
      refine ⟨v, ?_, hr⟩
      by_cases hy : y = x
      · subst hy
        rw [hself]
        omega
      · rwa [hother y hy]
    · exact ⟨n.requestCounter, by rw [hself], rfl⟩
  · intro y c c' head head' hc hc' heq
    rcases hcases hc with hold | ⟨rfl, rfl, rfl⟩
    · rcases hcases hc' with hold' | ⟨rfl, rfl, rfl⟩
      · exact h.distinct y c c' head head' hold hold' heq
      · exact absurd heq (hfresh hold)
    · rcases hcases hc' with hold' | ⟨_, rfl, _⟩
      · exact absurd heq.symm (hfresh hold')
      · rfl
  · intro y r c hc
    by_cases hy : y = x
    · subst hy
      rw [hself, hpending] at hc
      by_cases hr : r = requestID y n.requestCounter
      · subst hr
        rw [Finmap.lookup_insert] at hc
        obtain rfl := Option.some.inj hc
        exact ⟨target, key, heads_call_new hn hheads⟩
      · rw [Finmap.lookup_insert_of_ne _ hr] at hc
        obtain ⟨t, k, hold⟩ := h.pending y r c hc
        exact ⟨t, k, hmono hold⟩
    · rw [hother y hy] at hc ⊢
      exact h.pending y r c hc
  · intro p hp y r k horigin hbody
    rcases hflight p hp with hold | ⟨horigin', hbody'⟩
    · obtain ⟨c, t, hc⟩ := h.request p hold y r k horigin hbody
      exact ⟨c, t, hmono hc⟩
    · obtain rfl : y = x := Option.some.inj (horigin.symm.trans horigin')
      rw [hbody'] at hbody
      cases hbody
      exact ⟨_, target, heads_call_new hn hheads⟩
  · intro p hp y resp z horigin hbody howner hz
    rcases hflight p hp with hold | ⟨_, hbody'⟩
    · obtain ⟨c, t, hc, hans⟩ := h.response p hold y resp z horigin hbody howner hz
      exact ⟨c, t, hmono hc, fun hf => (hans hf).snoc⟩
    · rw [hbody'] at hbody
      cases hbody
  · intro y c resp hg hf
    have hold : (w.nodes y).Got c resp := by
      by_cases hy : y = x
      · subst hy
        rw [hself] at hg
        exact hgot c resp hg
      · rwa [hother y hy] at hg
    obtain ⟨head, hc, hans⟩ := h.got y c resp hold hf
    exact ⟨head, hmono hc, hans.snoc⟩

theorem Inv.answer (h : Inv honest w₀ es w) (hrun : Run honest w₀ (Sincere honest) es w)
    {n : ℕ} {p : Packet} {req : ReadRequest} (hok : Sincere honest w (.deliver n))
    (hp : w.inFlight[n]? = some p) (hbody : p.body = .request req) (hnodes : w'.nodes = w.nodes)
    (hflight : ∀ q ∈ w'.inFlight, q ∈ w.inFlight ∨
      q.origin = some p.receiver ∧ ∃ value, value = (w.nodes p.receiver).store.get req.key ∧
        q.body = .response ⟨req.requestID, req.key, value.getD [], value.isSome⟩) :
    Inv honest w₀ (es ++ [.deliver n]) w' := by
  have hown : FromOwner honest p req := by
    have := hok p hp
    rwa [hbody] at this
  constructor
  · intro x c head hc
    rw [hnodes] at hc
    exact (h.called x c head hc).snoc
  · rw [hnodes]
    exact h.counted
  · rw [hnodes]
    exact h.distinct
  · rw [hnodes]
    exact h.pending
  · intro q hq x r key horigin hqbody
    rw [hnodes]
    rcases hflight q hq with hold | ⟨_, _, _, hqbody'⟩
    · exact h.request q hold x r key horigin hqbody
    · rw [hqbody'] at hqbody
      cases hqbody
  · intro q hq y resp x horigin hqbody howner hx
    rw [hnodes]
    rcases hflight q hq with hold | ⟨horigin', value, hvalue, hqbody'⟩
    · obtain ⟨c, t, hc, hans⟩ := h.response q hold y resp x horigin hqbody howner hx
      exact ⟨c, t, hc, fun hf => (hans hf).snoc⟩
    · obtain rfl : y = p.receiver := Option.some.inj (horigin.symm.trans horigin')
      rw [hqbody'] at hqbody
      cases hqbody
      have hpx : p.origin = some x := hown x howner hx
      obtain ⟨c, t, hc⟩ := h.request p (List.mem_of_getElem? hp) x _ _ hpx hbody
      refine ⟨c, t, hc, fun hf => ?_⟩
      obtain ⟨v, rfl⟩ := Option.isSome_iff_exists.mp hf
      exact ⟨es, n, [], w, p, rfl, h.called x c _ hc, hrun.mono fun _ _ _ => trivial, hp, hpx, rfl,
        hbody, hvalue.symm⟩
  · intro x c resp hg hf
    rw [hnodes] at hg ⊢
    obtain ⟨head, hc, hans⟩ := h.got x c resp hg hf
    exact ⟨head, hc, hans.snoc⟩

theorem Inv.accept (h : Inv honest w₀ es w) {n : ℕ} {p : Packet} {resp : ReadResponse}
    (hok : Sincere honest w (.deliver n)) (hp : w.inFlight[n]? = some p)
    (hx : honest p.receiver = true) (hbody : p.body = .response resp)
    (hheads : ∀ x, (w'.nodes x).heads = (w.nodes x).heads)
    (hgot : ∀ x c resp', (w'.nodes x).Got c resp' → (w.nodes x).Got c resp' ∨
      x = p.receiver ∧ resp' = resp ∧ (w.nodes x).peerPending.lookup resp.requestID = some c)
    (hrest : ∀ x, (w'.nodes x).requestCounter = (w.nodes x).requestCounter ∧
      (w'.nodes x).peerPending = (w.nodes x).peerPending)
    (hflight : ∀ q ∈ w'.inFlight, q ∈ w.inFlight) :
    Inv honest w₀ (es ++ [.deliver n]) w' := by
  have htarget : FromTarget w p resp := by
    have := hok p hp
    rwa [hbody] at this
  constructor
  · intro x c head hc
    rw [hheads] at hc
    exact (h.called x c head hc).snoc
  · intro x c head hc
    rw [hheads] at hc
    rw [(hrest x).1]
    exact h.counted x c head hc
  · intro x
    rw [hheads]
    exact h.distinct x
  · intro x r c hc
    rw [(hrest x).2] at hc
    rw [hheads]
    exact h.pending x r c hc
  · intro q hq x
    rw [hheads]
    exact h.request q (hflight q hq) x
  · intro q hq y resp' x horigin hqbody howner hx
    rw [hheads]
    obtain ⟨c, t, hc, hans⟩ := h.response q (hflight q hq) y resp' x horigin hqbody howner hx
    exact ⟨c, t, hc, fun hf => (hans hf).snoc⟩
  · intro x c resp' hg hf
    rw [hheads]
    rcases hgot x c resp' hg with hold | ⟨rfl, rfl, hpend⟩
    · obtain ⟨head, hc, hans⟩ := h.got x c resp' hold hf
      exact ⟨head, hc, hans.snoc⟩
    · -- the response of the target, which answered the request of this very call
      obtain ⟨t, k, hc⟩ := h.pending _ _ c hpend
      obtain ⟨v, _, hr⟩ := h.counted _ c _ hc
      have howner : owner resp'.requestID = some p.receiver := by
        rw [show resp'.requestID = requestID p.receiver v from hr, owner_requestID]
      obtain ⟨call, hcall, hhead⟩ : ∃ call, (w.nodes p.receiver).calls[c]? = some call ∧
          call.head = ⟨t, k, resp'.requestID⟩ := by
        rw [Node.heads, List.getElem?_map] at hc
        exact Option.map_eq_some_iff.mp hc
      have horigin : p.origin = some call.target := htarget c hpend call hcall
      have ht : call.target = t := congrArg Head.target hhead
      obtain ⟨c', t', hc', hans⟩ := h.response p (List.mem_of_getElem? hp) _ resp' _ horigin hbody howner hx
      obtain rfl := h.distinct _ c c' _ _ hc hc' rfl
      obtain rfl : t = t' := congrArg Head.target (Option.some.inj (hc.symm.trans hc'))
      rw [ht] at hans
      exact ⟨_, hc', (hans hf).snoc⟩

/-- Nothing is being read, and no message is on its way. -/
def Net.Idle (w : Net) : Prop := w.inFlight = [] ∧ ∀ x, (w.nodes x).calls = [] ∧ (w.nodes x).peerPending = ∅

theorem Inv.idle (h : w₀.Idle) : Inv honest w₀ [] w₀ := by
  obtain ⟨hflight, hnodes⟩ := h
  have hheads : ∀ x, (w₀.nodes x).heads = [] := fun x => by rw [Node.heads, (hnodes x).1, List.map_nil]
  constructor
  · intro x c head hc
    simp [hheads] at hc
  · intro x c head hc
    simp [hheads] at hc
  · intro x c c' head head' hc
    simp [hheads] at hc
  · intro x r c hc
    rw [(hnodes x).2, Finmap.lookup_empty] at hc
    cases hc
  · intro p hp
    simp [hflight] at hp
  · intro p hp
    simp [hflight] at hp
  · rintro x c resp ⟨call, hcall, _⟩
    simp [(hnodes x).1] at hcall

theorem Inv.of_run (h0 : w₀.Idle) (hrun : Run honest w₀ (Sincere honest) es w) :
    Inv honest w₀ es w := by
  induction hrun with
  | nil => exact .idle h0
  | snoc e hrun hok hstep ih =>
    cases Net.step_move hstep with
    | quiet hkeeps hcounter hflight => exact ih.quiet hok hkeeps hcounter hflight
    | call hx hn hcounter hheads hgot hpending hflight =>
      exact ih.call hrun hok hn hcounter hheads hgot hpending hflight
    | answer hp hbody hnodes hflight => exact ih.answer hrun hok hp hbody hnodes hflight
    | accept hp hx hbody hheads hgot hrest hflight =>
      exact ih.accept hok hp hx hbody hheads hgot hrest hflight

theorem remote_read_authentic (h0 : w₀.Idle) (hrun : Run honest w₀ (Sincere honest) es w)
    {x v : Bytes} {c : ℕ} {call : Call} (hcall : (w.nodes x).calls[c]? = some call)
    (hres : w.result x c = some (v, true)) :
    AnsweredBy honest w₀ es x c call.head call.target v := by
  rw [Net.result, hcall, Option.bind_some] at hres
  split_ifs at hres
  obtain ⟨resp, hch, hv⟩ := Option.map_eq_some_iff.mp hres
  obtain ⟨rfl, hf⟩ := Prod.mk.inj hv
  obtain ⟨head, hc, hans⟩ := (Inv.of_run h0 hrun).got x c resp ⟨call, hcall, hch⟩ hf
  rw [Node.heads, List.getElem?_map, hcall] at hc
  obtain rfl := Option.some.inj hc
  exact hans

/- Alice reads Bob's store; Mallory is connected to her too. -/
def aliceID : Bytes := ascii "alice"
def bobID : Bytes := ascii "bob"
def hosts (x : Bytes) : Bool := x = aliceID ∨ x = bobID
def cardKey : Key := ascii "card"
def ace : Bytes := ascii "ace"

def reading : List Event :=
  [.link aliceID bobID (some bobID), .link bobID aliceID (some aliceID), .call aliceID bobID cardKey]

def answered : List Event :=
  [.host bobID (Store.new.put cardKey ace)] ++ reading ++ [.deliver 0, .deliver 0]

theorem idle_new : Net.Idle {} := ⟨rfl, fun _ => ⟨rfl, rfl⟩⟩

def aliceCall (ch : ReadResponse) : Call := ⟨bobID, cardKey, requestID aliceID 1, some ch, false⟩

theorem bob_answered :
    AnsweredBy hosts {} answered aliceID 0 ⟨bobID, cardKey, requestID aliceID 1⟩ bobID ace := by
  have hrun : Run hosts {} (Sincere hosts) answered
      (run (fun w e => Net.step w hosts e) (Sincere hosts) {} answered) := run_trace (by decide +kernel)
  have hcall : ((run (fun w e => Net.step w hosts e) (Sincere hosts) {} answered).nodes aliceID).calls[0]? =
      some (aliceCall ⟨requestID aliceID 1, cardKey, ace, true⟩) := by decide +kernel
  exact remote_read_authentic idle_new hrun hcall (by decide +kernel)

/- Mallory answers in Bob's place. -/
def forged : List Event :=
  reading ++ [.inject aliceID (ascii "mallory") (.response ⟨requestID aliceID 1, cardKey, ace, true⟩),
    .deliver 1]

theorem deliver_forged {es₁ es₂ : List Event} {n : ℕ} (h : forged = es₁ ++ .deliver n :: es₂) :
    es₁ = forged.take 4 ∧ n = 1 := by
  have hget : forged[es₁.length]? = some (.deliver n) := by rw [h]; simp
  have htake : es₁ = forged.take es₁.length := by rw [h]; simp
  have hlt : es₁.length < 5 := by
    have := congrArg List.length h
    simp only [forged, reading, List.length_append, List.length_cons, List.length_nil] at this
    omega
  generalize es₁.length = i at hget htake hlt
  interval_cases i <;> simp [forged, reading] at hget
  exact ⟨htake, hget.symm⟩

theorem forged_read : ∃ w : Net,
    Run hosts {} Free forged w ∧ w.result aliceID 0 = some (ace, true) ∧
    (w.nodes aliceID).calls[0]?.map Call.target = some bobID ∧
    ¬ ∃ c head v, AnsweredBy hosts {} forged aliceID c head bobID v := by
  refine ⟨run (fun w e => Net.step w hosts e) Free {} forged, run_trace (by decide +kernel),
    by decide +kernel, by decide +kernel, ?_⟩
  rintro ⟨c, head, v, es₁, n, es₂, w, p, heq, _, hrun, hp, horigin, _⟩
  obtain ⟨rfl, rfl⟩ := deliver_forged heq
  have hw : (exec (fun w e => Net.step w hosts e) Free {} (forged.take 4)).map
      (fun w => w.inFlight[1]?.bind Packet.origin) = some none := by decide +kernel
  rw [hrun.exec_eq, Option.map_some, hp, Option.bind_some, horigin] at hw
  cases hw

end P2Poker.Remote
