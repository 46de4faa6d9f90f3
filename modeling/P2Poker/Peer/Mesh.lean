import Mathlib.Data.Finmap
import P2Poker.Lib.Trace
import P2Poker.Round.Runner

/-!
# The peer mesh (internal/peer/mesh.go)

A node keeps one slot per peer id for the connection it sends on, and one key per
id to verify signatures with. Connections come from the listener and from dials,
each with a goroutine of its own. An event is what one goroutine does between two
points at which another may run: a frame received, a section under a lock.
-/

namespace P2Poker.Peers
open P2Poker.Lib P2Poker.Crypto

inductive Kind where
  | peerHandshake
  | peerMessage
  | other (text : Bytes)
  deriving DecidableEq

structure Frame where
  kind : Kind
  nodeID : Bytes := []
  publicKey : Bytes := []

/-- Where the goroutine of a connection is. -/
inductive Stage where
  -- handleIncomingPeer: no frame received yet
  | accepted
  -- handleIncomingPeer: the key is set, the answer not sent
  | replying (peerID : Bytes)
  -- ConnectToPeers: there was no slot for the peer, which is about to be dialled
  | chosen (peerID : Bytes)
  -- dialPeer: waiting for the answer to its handshake
  | dialed (peerID : Bytes)
  -- about to take the slot
  | handshaken (peerID : Bytes)
  -- peerReadLoop
  | reading (peerID : Bytes)
  -- peerReadLoop's deferred function has given up the slot
  | leaving
  | ended
  deriving DecidableEq

structure Link where
  stage : Stage
  isOpen : Bool := true
  deriving DecidableEq

structure Mesh where
  id : Bytes := []
  pk : Bytes
  -- ids under which AttachDispatch is about to set the node's own key
  owed : List Bytes := []
  peerPKs : Finmap fun _ : Bytes => Bytes := ∅
  -- slots hold the number of a connection
  peers : Finmap fun _ : Bytes => ℕ := ∅
  links : List Link := []

inductive Event where
  | attach (id : Bytes)
  | ownKey (id : Bytes)
  | accept
  | choose (selfID peerID : Bytes)
  | connect (c : ℕ)
  | giveUp (c : ℕ)
  | receive (c : ℕ) (frame : Frame)
  | reply (c : ℕ)
  | register (c : ℕ)
  | close (c : ℕ)
  | hangUp (c : ℕ)
  | shut (c : ℕ)
  | detach
  | closePeers

namespace Mesh
variable (m : Mesh)

def setPeerPK (id pk : Bytes) : Mesh := { m with peerPKs := m.peerPKs.insert id pk }

def peerPK (id : Bytes) : Option Bytes := m.peerPKs.lookup id

def setLink (c : ℕ) (l : Link) : Mesh := { m with links := m.links.set c l }

/- The connection a frame for the peer goes to. -/
def send (targetID : Bytes) : Except Bytes ℕ :=
  match m.peers.lookup targetID with
  | none => .error (ascii "no connection to peer " ++ targetID)
  | some c => .ok c

def isHandshake (frame : Frame) : Bool :=
  frame.kind = .peerHandshake ∧ frame.publicKey.length = publicKeySize

/-- The id and the key that a goroutine takes from the frame it was waiting for.
An accepted connection is filed under the id it claims, a dialled one under the
id that was dialled. -/
def claimed (stage : Stage) (frame : Frame) : Option (Bytes × Bytes) :=
  match stage with
  | .accepted =>
    if isHandshake frame ∧ frame.nodeID ≠ [] then some (frame.nodeID, frame.publicKey) else none
  | .dialed peerID => if isHandshake frame then some (peerID, frame.publicKey) else none
  | _ => none

/- The next stage, once the key is set. -/
def admitted (stage : Stage) (peerID : Bytes) : Stage :=
  match stage with
  | .accepted => .replying peerID
  | _ => .handshaken peerID

/- Both functions close a connection whose first frame is not a handshake. -/
def receive (c : ℕ) (l : Link) (frame : Frame) : Mesh :=
  match claimed l.stage frame with
  | none => m.setLink c { stage := .ended, isOpen := false }
  | some (peerID, pk) => (m.setPeerPK peerID pk).setLink c { l with stage := admitted l.stage peerID }

def inSlot (c : ℕ) : Bool := ∃ id ∈ m.peers.keys, m.peers.lookup id = some c

/- The part of DetachDispatch under peersMu. -/
def closePeers : Mesh :=
  { m with
    peers := ∅
    links := m.links.mapIdx fun c l => if m.inSlot c then { l with isOpen := false } else l }

def step : Event → Option Mesh
  | .attach id => if m.id = [] then some { m with id := id, owed := id :: m.owed } else none
  | .ownKey id => if id ∈ m.owed then some ({ m with owed := m.owed.erase id }.setPeerPK id m.pk) else none
  | .accept => some { m with links := m.links ++ [{ stage := .accepted }] }
  | .choose selfID peerID =>
    if peerID = selfID ∨ (m.peers.lookup peerID).isSome then none
    else some { m with links := m.links ++ [{ stage := .chosen peerID, isOpen := false }] }
  | .connect c =>
    match m.links[c]? with
    | some ⟨.chosen peerID, _⟩ => some (m.setLink c { stage := .dialed peerID })
    | _ => none
  -- a dial, a send or a receive failed before the connection had a slot
  | .giveUp c =>
    match m.links[c]? with
    | some ⟨.accepted, _⟩ | some ⟨.replying _, _⟩ | some ⟨.chosen _, _⟩ | some ⟨.dialed _, _⟩ =>
      some (m.setLink c { stage := .ended, isOpen := false })
    | _ => none
  | .receive c frame =>
    match m.links[c]? with
    | some ⟨.accepted, o⟩ => some (m.receive c ⟨.accepted, o⟩ frame)
    | some ⟨.dialed peerID, o⟩ => some (m.receive c ⟨.dialed peerID, o⟩ frame)
    | _ => none
  | .reply c =>
    match m.links[c]? with
    | some ⟨.replying peerID, o⟩ => some (m.setLink c ⟨.handshaken peerID, o⟩)
    | _ => none
  | .register c =>
    match m.links[c]? with
    | some ⟨.handshaken peerID, o⟩ =>
      some ({ m with peers := m.peers.insert peerID c }.setLink c ⟨.reading peerID, o⟩)
    | _ => none
  -- the far end or the network
  | .close c =>
    match m.links[c]? with
    | some l => some (m.setLink c { l with isOpen := false })
    | none => none
  -- a receive failed in peerReadLoop
  | .hangUp c =>
    match m.links[c]? with
    | some ⟨.reading peerID, o⟩ =>
      some ({ m with peers := m.peers.erase peerID }.setLink c ⟨.leaving, o⟩)
    | _ => none
  | .shut c =>
    match m.links[c]? with
    | some ⟨.leaving, _⟩ => some (m.setLink c { stage := .ended, isOpen := false })
    | _ => none
  | .detach => some { m with id := [] }
  | .closePeers => some m.closePeers

end Mesh

/- A new node listens before it is attached to dispatch. -/
def new (pk : Bytes) : Mesh := { pk := pk }

namespace Mesh
variable {m m' : Mesh} {e : Event}

/-! ### Keys -/

/- What an event writes to the key table. -/
def written (m : Mesh) : Event → Option (Bytes × Bytes)
  | .ownKey id => some (id, m.pk)
  | .receive c frame => m.links[c]?.bind fun l => claimed l.stage frame
  | _ => none

theorem peerPK_setPeerPK (id pk x : Bytes) :
    (m.setPeerPK id pk).peerPK x = if x = id then some pk else m.peerPK x := by
  unfold peerPK setPeerPK
  dsimp only
  split_ifs with h
  · rw [h, Finmap.lookup_insert]
  · rw [Finmap.lookup_insert_of_ne _ h]

theorem receive_peerPK (c : ℕ) (l : Link) (frame : Frame) (x : Bytes) :
    (m.receive c l frame).peerPK x =
      match claimed l.stage frame with
      | none => m.peerPK x
      | some (id, pk) => if x = id then some pk else m.peerPK x := by
  unfold receive
  split
  · rfl
  · exact peerPK_setPeerPK ..

theorem step_peerPK (h : m.step e = some m') (x : Bytes) :
    m'.peerPK x =
      match m.written e with
      | none => m.peerPK x
      | some (id, pk) => if x = id then some pk else m.peerPK x := by
  cases e with
  | ownKey id =>
    rw [step] at h
    split_ifs at h
    obtain rfl := Option.some.inj h
    exact peerPK_setPeerPK ..
  | receive c frame =>
    rw [step] at h
    split at h
    · rename_i o hl
      obtain rfl := Option.some.inj h
      rw [receive_peerPK, written, hl, Option.bind_some]
    · rename_i id o hl
      obtain rfl := Option.some.inj h
      rw [receive_peerPK, written, hl, Option.bind_some]
    · cases h
  | _ =>
    rw [step] at h
    -- the other events write no key
    (try split at h) <;> first
      | (obtain rfl := Option.some.inj h; rfl)
      | cases h

/-- The handshake carries the key that is already known for the id it is filed
under, if one is. -/
def KeepsKey (m : Mesh) (e : Event) : Prop :=
  match m.written e with
  | none => True
  | some (id, pk) => m.peerPK id = none ∨ m.peerPK id = some pk

instance : Decidable (m.KeepsKey e) := by
  delta KeepsKey
  induction m.written e using Option.casesOn <;> infer_instance

theorem step_keeps_iff (h : m.step e = some m') :
    (∀ id pk, m.peerPK id = some pk → m'.peerPK id = some pk) ↔ m.KeepsKey e := by
  simp only [step_peerPK h, KeepsKey]
  cases m.written e with
  | none => simp
  | some w =>
    obtain ⟨id, pk⟩ := w
    dsimp only
    constructor
    · intro hall
      cases hk : m.peerPK id with
      | none => exact .inl rfl
      | some known =>
        have hnew := hall id known hk
        rw [if_pos rfl] at hnew
        exact .inr hnew.symm
    · intro hkeep x known hk
      split_ifs with hx
      · subst hx
        rcases hkeep with hnone | hsame
        · rw [hnone] at hk
          cases hk
        · rw [← hsame, hk]
      · exact hk

theorem keys_kept {es : List Event} (h : Trace step KeepsKey m es m') {id pk : Bytes}
    (hk : m.peerPK id = some pk) : m'.peerPK id = some pk :=
  h.keeps (P := fun m => m.peerPK id = some pk) hk
    fun _ _ _ hok hstep => (step_keeps_iff hstep).mpr hok id pk

/- A runner over this mesh looks its peers' keys up here. -/
def setup {c : Primitives} (m : Mesh) (u : Round.Setup c) : Round.Setup c := { u with peerPK := m.peerPK }

theorem peer_keys_pinned_iff (m : Mesh) :
    (∀ (m' : Mesh) (e : Event), m.step e = some m' →
      ((∀ id pk, m.peerPK id = some pk → m'.peerPK id = some pk) ↔ m.KeepsKey e)) ∧
    ∀ (m' : Mesh) (es : List Event), Trace step KeepsKey m es m' →
      ∀ id pk, m.peerPK id = some pk →
        m'.peerPK id = some pk ∧
        ∀ (c : Primitives) (u : Round.Setup c) (seat : UInt8), u.nodeID seat.toNat = id →
          (m'.setup u).peerPK (u.nodeID seat.toNat) = some pk ∧
          ∀ expected, seat ∈ expected →
            Round.Runner.attestorPKs (m'.setup u) expected seat = some pk := by
  refine ⟨fun _ _ => step_keeps_iff, ?_⟩
  intro m' es hrun id pk hk
  have hk' := keys_kept hrun hk
  refine ⟨hk', ?_⟩
  rintro c u seat rfl
  refine ⟨hk', ?_⟩
  intro expected hseat
  rw [Round.Runner.attestorPKs, if_pos hseat]
  exact hk'

/- Alice's node, attached under her id, and Bob's handshake. -/
def aliceID : Bytes := ascii "alice"
def bobID : Bytes := ascii "bob"
def aliceKey : Bytes := List.replicate 32 1
def bobKey : Bytes := List.replicate 32 2
def claim (id pk : Bytes) : Frame := { kind := .peerHandshake, nodeID := id, publicKey := pk }
def attached : List Event := [.attach aliceID, .ownKey aliceID, .accept]
def alice : Mesh := run step Free (new aliceKey) attached
def redialed : List Event :=
  [.receive 0 (claim bobID bobKey), .reply 0, .register 0, .accept, .receive 1 (claim bobID bobKey)]

theorem own_key_kept : (run step KeepsKey alice redialed).peerPK aliceID = some aliceKey :=
  ((peer_keys_pinned_iff alice).2 _ redialed (run_trace (by decide +kernel)) aliceID aliceKey
    (by decide +kernel)).1

theorem own_key_replaced : ∃ m m' : Mesh,
    Trace step Free (new aliceKey) attached m ∧
    Trace step Free m [.receive 0 (claim aliceID bobKey)] m' ∧
    m.peerPK aliceID = some aliceKey ∧ m'.peerPK aliceID = some bobKey ∧ aliceKey ≠ bobKey := by
  refine ⟨alice, run step Free alice _, run_trace (by decide +kernel), run_trace (by decide +kernel), ?_⟩
  decide +kernel

/-! ### Slots -/

/- The goroutine of the connection is in the peer's read loop. -/
def Reads (m : Mesh) (c : ℕ) (id : Bytes) (isOpen : Bool) : Prop :=
  m.links[c]? = some ⟨.reading id, isOpen⟩

/-- What an event does to the slots and the read loops. -/
inductive Move (m : Mesh) : Event → Mesh → Prop where
  -- no loop begins
  | quiet {e : Event} {m' : Mesh} (hpeers : m'.peers = m.peers)
      (hreads : ∀ c id o, m'.Reads c id o → ∃ o', m.Reads c id o' ∧ (o = true → o' = true)) :
      Move m e m'
  | register {c : ℕ} {id : Bytes} {o : Bool} {m' : Mesh}
      (hlink : m.links[c]? = some ⟨.handshaken id, o⟩) (hpeers : m'.peers = m.peers.insert id c)
      (hreads : ∀ c' id' o', m'.Reads c' id' o' → c' = c ∧ id' = id ∨ c' ≠ c ∧ m.Reads c' id' o') :
      Move m (.register c) m'
  | hangUp {c : ℕ} {id : Bytes} {o : Bool} {m' : Mesh} (hlink : m.Reads c id o)
      (hpeers : m'.peers = m.peers.erase id)
      (hreads : ∀ c' id' o', m'.Reads c' id' o' → c' ≠ c ∧ m.Reads c' id' o') :
      Move m (.hangUp c) m'
  | closePeers {m' : Mesh}
      (hreads : ∀ c id o, m'.Reads c id o →
        ∃ o', m.Reads c id o' ∧ (o = true → o' = true ∧ m.inSlot c = false)) :
      Move m .closePeers m'

variable {c c' : ℕ} {id : Bytes} {o : Bool}

theorem reads_setLink {l : Link} (h : (m.setLink c l).Reads c' id o) :
    c' = c ∧ l = ⟨.reading id, o⟩ ∨ c' ≠ c ∧ m.Reads c' id o := by
  unfold Reads setLink at h
  dsimp only at h
  rw [List.getElem?_set] at h
  split_ifs at h with hc hlen
  · exact .inl ⟨hc.symm, Option.some.inj h⟩
  · exact .inr ⟨fun heq => hc heq.symm, h⟩

/- A connection that is not in the loop afterwards. -/
theorem Move.of_setLink {l : Link} (hl : ∀ id, l.stage ≠ .reading id) (hpeers : m'.peers = m.peers)
    (hlinks : m'.links = (m.setLink c l).links) : Move m e m' := by
  refine .quiet hpeers ?_
  intro c' id o hr
  have hr' : (m.setLink c l).Reads c' id o := by rwa [Reads, ← hlinks]
  rcases reads_setLink hr' with ⟨_, rfl⟩ | ⟨_, hold⟩
  · exact absurd rfl (hl id)
  · exact ⟨o, hold, fun h => h⟩

theorem Move.of_concat {l : Link} (hl : ∀ id, l.stage ≠ .reading id) :
    Move m e { m with links := m.links ++ [l] } := by
  refine .quiet rfl ?_
  intro c id o hr
  unfold Reads at hr
  dsimp only at hr
  rw [List.getElem?_append] at hr
  split_ifs at hr with hc
  · exact ⟨o, hr, fun h => h⟩
  · obtain rfl := List.mem_singleton.mp (List.mem_of_getElem? hr)
    exact absurd rfl (hl id)

theorem Move.of_same (hpeers : m'.peers = m.peers) (hlinks : m'.links = m.links) : Move m e m' := by
  refine .quiet hpeers ?_
  intro c id o hr
  exact ⟨o, by rwa [Reads, ← hlinks], fun h => h⟩

theorem admitted_ne (stage : Stage) (peerID id : Bytes) : admitted stage peerID ≠ .reading id := by
  cases stage <;> nofun

theorem Move.of_receive (l : Link) (frame : Frame) : Move m e (m.receive c l frame) := by
  unfold receive
  split
  · exact .of_setLink (by nofun) rfl rfl
  · exact .of_setLink (admitted_ne _ _) rfl rfl

theorem Move.of_closePeers : Move m .closePeers m.closePeers := by
  refine .closePeers ?_
  intro c id o hr
  unfold Reads Mesh.closePeers at hr
  dsimp only at hr
  rw [List.getElem?_mapIdx] at hr
  obtain ⟨⟨stage, isOpen⟩, hl, heq⟩ := Option.map_eq_some_iff.mp hr
  split_ifs at heq with hslot
  · cases heq
    exact ⟨isOpen, hl, nofun⟩
  · cases heq
    exact ⟨o, hl, fun ho => ⟨ho, by simpa using hslot⟩⟩

theorem step_move (h : m.step e = some m') : Move m e m' := by
  cases e with
  | attach id =>
    rw [step] at h
    split_ifs at h
    obtain rfl := Option.some.inj h
    exact .of_same rfl rfl
  | ownKey id =>
    rw [step] at h
    split_ifs at h
    obtain rfl := Option.some.inj h
    exact .of_same rfl rfl
  | accept =>
    obtain rfl := Option.some.inj h
    exact .of_concat nofun
  | choose selfID peerID =>
    rw [step] at h
    split_ifs at h
    obtain rfl := Option.some.inj h
    exact .of_concat nofun
  | receive c frame =>
    rw [step] at h
    split at h
    · obtain rfl := Option.some.inj h
      exact .of_receive _ _
    · obtain rfl := Option.some.inj h
      exact .of_receive _ _
    · cases h
  | register c =>
    rw [step] at h
    split at h
    · rename_i peerID o hl
      obtain rfl := Option.some.inj h
      refine .register hl rfl ?_
      intro c' id' o' hr
      rcases reads_setLink hr with ⟨hc, hlink⟩ | hold
      · cases hlink
        exact .inl ⟨hc, rfl⟩
      · exact .inr hold
    · cases h
  | close c =>
    rw [step] at h
    split at h
    · rename_i l hl
      obtain rfl := Option.some.inj h
      refine .quiet rfl ?_
      intro c' id o hr
      rcases reads_setLink hr with ⟨rfl, hlink⟩ | ⟨_, hold⟩
      · obtain ⟨stage, isOpen⟩ := l
        cases hlink
        exact ⟨isOpen, hl, nofun⟩
      · exact ⟨o, hold, fun h => h⟩
    · cases h
  | hangUp c =>
    rw [step] at h
    split at h
    · rename_i peerID o hl
      obtain rfl := Option.some.inj h
      refine .hangUp hl rfl ?_
      intro c' id' o' hr
      rcases reads_setLink hr with ⟨_, hlink⟩ | hold
      · cases hlink
      · exact hold
    · cases h
  | detach =>
    obtain rfl := Option.some.inj h
    exact .of_same rfl rfl
  | closePeers =>
    obtain rfl := Option.some.inj h
    exact .of_closePeers
  | _ =>
    -- connect, giveUp, reply, shut: the goroutine goes on outside the loop
    rw [step] at h
    split at h <;> first
      | (obtain rfl := Option.some.inj h; exact .of_setLink (by nofun) rfl rfl)
      | cases h

/-- An open connection in its read loop leaves its peer reachable. -/
def Live (m : Mesh) : Prop :=
  ∀ c id, m.Reads c id true → ∃ c' l, m.send id = .ok c' ∧ m.links[c']? = some l ∧ l.isOpen = true

/-- A connection takes the slot of a peer only while no other connection to that
peer is in its read loop. -/
def OneReader (m : Mesh) : Event → Prop
  | .register c =>
    match m.links[c]? with
    | some ⟨.handshaken id, _⟩ => ∀ l ∈ m.links, l.stage ≠ .reading id
    | _ => True
  | _ => True

instance : Decidable (m.OneReader e) := by
  unfold OneReader
  split
  · split <;> infer_instance
  · infer_instance

theorem OneReader.not_reads (h : m.OneReader (.register c))
    (hl : m.links[c]? = some ⟨.handshaken id, o⟩) (c' : ℕ) (o' : Bool) : ¬ m.Reads c' id o' := by
  intro hr
  unfold OneReader at h
  simp only [hl] at h
  exact h _ (List.mem_of_getElem? hr) rfl

structure Slotted (m : Mesh) : Prop where
  unique : ∀ c c' id o o', m.Reads c id o → m.Reads c' id o' → c = c'
  slot : ∀ c id, m.Reads c id true → m.peers.lookup id = some c

theorem Slotted.live (h : m.Slotted) : m.Live := by
  intro c id hr
  refine ⟨c, _, ?_, hr, rfl⟩
  rw [send, h.slot c id hr]

theorem mem_inSlot (h : m.peers.lookup id = some c) : m.inSlot c = true := by
  unfold inSlot
  rw [decide_eq_true_eq]
  exact ⟨id, Finmap.mem_keys.mpr (Finmap.mem_of_lookup_eq_some h), h⟩

theorem Slotted.move (h : m.Slotted) (hok : m.OneReader e) (hm : Move m e m') : m'.Slotted := by
  cases hm with
  | quiet hpeers hreads =>
    constructor
    · intro c c' id o o' hr hr'
      obtain ⟨_, hold, _⟩ := hreads _ _ _ hr
      obtain ⟨_, hold', _⟩ := hreads _ _ _ hr'
      exact h.unique _ _ _ _ _ hold hold'
    · intro c id hr
      obtain ⟨o', hold, ho⟩ := hreads _ _ _ hr
      rw [ho rfl] at hold
      rw [hpeers, h.slot _ _ hold]
  | register hlink hpeers hreads =>
    have hnone := hok.not_reads hlink
    constructor
    · intro c₁ c₂ id' o₁ o₂ hr₁ hr₂
      rcases hreads _ _ _ hr₁ with ⟨rfl, rfl⟩ | ⟨_, hold₁⟩
      · rcases hreads _ _ _ hr₂ with ⟨rfl, _⟩ | ⟨_, hold₂⟩
        · rfl
        · exact absurd hold₂ (hnone _ _)
      · rcases hreads _ _ _ hr₂ with ⟨rfl, rfl⟩ | ⟨_, hold₂⟩
        · exact absurd hold₁ (hnone _ _)
        · exact h.unique _ _ _ _ _ hold₁ hold₂
    · intro c' id' hr
      rw [hpeers]
      rcases hreads _ _ _ hr with ⟨rfl, rfl⟩ | ⟨_, hold⟩
      · exact Finmap.lookup_insert _
      · rw [Finmap.lookup_insert_of_ne, h.slot _ _ hold]
        rintro rfl
        exact hnone _ _ hold
  | hangUp hlink hpeers hreads =>
    constructor
    · intro c₁ c₂ id' o₁ o₂ hr₁ hr₂
      exact h.unique _ _ _ _ _ (hreads _ _ _ hr₁).2 (hreads _ _ _ hr₂).2
    · intro c' id' hr
      obtain ⟨hne, hold⟩ := hreads _ _ _ hr
      rw [hpeers, Finmap.lookup_erase_ne, h.slot _ _ hold]
      rintro rfl
      exact hne (h.unique _ _ _ _ _ hold hlink)
  | closePeers hreads =>
    constructor
    · intro c c' id o o' hr hr'
      obtain ⟨_, hold, _⟩ := hreads _ _ _ hr
      obtain ⟨_, hold', _⟩ := hreads _ _ _ hr'
      exact h.unique _ _ _ _ _ hold hold'
    · intro c id hr
      -- an open reader was in its slot, and what was in a slot is closed
      obtain ⟨o', hold, ho⟩ := hreads _ _ _ hr
      obtain ⟨rfl, hslot⟩ := ho rfl
      rw [mem_inSlot (h.slot _ _ hold)] at hslot
      cases hslot

theorem slotted_new (pk : Bytes) : (new pk).Slotted := by
  constructor
  · intro c c' id o o' hr
    exact absurd (List.mem_of_getElem? hr) List.not_mem_nil
  · intro c id hr
    exact absurd (List.mem_of_getElem? hr) List.not_mem_nil

theorem slotted_of_trace {pk : Bytes} {es : List Event} (h : Trace step OneReader (new pk) es m) :
    m.Slotted :=
  h.keeps (slotted_new pk) fun _ _ _ hok hstep hs => hs.move hok (step_move hstep)

theorem links_setLink_self {l l₀ : Link} (h : m.links[c]? = some l₀) :
    (m.setLink c l).links[c]? = some l :=
  List.getElem?_set_self (List.getElem?_eq_some_iff.mp h).1

theorem links_setLink_ne {l : Link} (h : c' ≠ c) : (m.setLink c l).links[c']? = m.links[c']? :=
  List.getElem?_set_ne h.symm

/- Another loop for the same peer ends after the slot was taken, and empties it. -/
theorem register_hangUp (hl : m.links[c]? = some ⟨.handshaken id, true⟩) (hr : m.Reads c' id o) :
    ∃ m', Trace step Free m [.register c, .hangUp c'] m' ∧ ¬ m'.Live := by
  have hne : c' ≠ c := by
    rintro rfl
    rw [Reads, hl] at hr
    cases hr
  let m₁ := { m with peers := m.peers.insert id c }.setLink c ⟨.reading id, true⟩
  let m₂ := { m₁ with peers := m₁.peers.erase id }.setLink c' ⟨.leaving, o⟩
  have h₁ : m.step (.register c) = some m₁ := by
    rw [step, hl]
  have h₂ : m₁.step (.hangUp c') = some m₂ := by
    rw [step, show m₁.links[c']? = some ⟨.reading id, o⟩ from (links_setLink_ne hne).trans hr]
  refine ⟨m₂, .cons trivial h₁ (.cons trivial h₂ .nil), ?_⟩
  intro hlive
  have hread : m₂.Reads c id true := (links_setLink_ne hne.symm).trans (links_setLink_self hl)
  obtain ⟨d, l, hsend, _⟩ := hlive c id hread
  have hnone : m₂.peers.lookup id = none := Finmap.lookup_erase _ _
  rw [send, hnone] at hsend
  cases hsend

theorem live_link_kept_iff (pk : Bytes) :
    (∀ es m, Trace step OneReader (new pk) es m → m.Live) ∧
    ∀ m c id, m.links[c]? = some ⟨.handshaken id, true⟩ → ¬ m.OneReader (.register c) →
      ∃ c' m', Trace step Free m [.register c, .hangUp c'] m' ∧ ¬ m'.Live := by
  refine ⟨fun _ _ h => (slotted_of_trace h).live, ?_⟩
  intro m c id hl hnot
  unfold OneReader at hnot
  simp only [hl, not_forall, not_not] at hnot
  obtain ⟨⟨stage, o⟩, hmem, rfl⟩ := hnot
  obtain ⟨c', hc'⟩ := List.getElem?_of_mem hmem
  exact ⟨c', register_hangUp hl hc'⟩

/- Bob dials in, and dials in again before his first connection is gone. -/
def dialedIn (c : ℕ) : List Event :=
  [.accept, .receive c (claim bobID bobKey), .reply c, .register c]

theorem live_after_reconnect :
    (run step OneReader (new aliceKey)
      (dialedIn 0 ++ [.close 0, .hangUp 0] ++ dialedIn 1)).Live :=
  (live_link_kept_iff aliceKey).1 _ _ (run_trace (by decide +kernel))

theorem live_link_forgotten : ∃ m : Mesh,
    Trace step Free (new aliceKey) (dialedIn 0 ++ dialedIn 1 ++ [.close 0, .hangUp 0]) m ∧
    m.Reads 1 bobID true ∧ m.send bobID = .error (ascii "no connection to peer bob") := by
  refine ⟨run step Free (new aliceKey) _, run_trace (by decide +kernel), ?_⟩
  unfold Reads
  decide +kernel

end Mesh

end P2Poker.Peers
