import P2Poker.Lib.Ring
import P2Poker.Lib.Trace
import P2Poker.Crypto.Keys

/-!
# The simulator's deal (internal/sim/sim.go: NewNetwork, setupGrids, dealCards)

Every node sends a request for its two cards around the ring. A node takes its
layer off what comes in and passes it on, until its own request is back; then it
returns and reads no more. A goroutine stands at a channel operation or has
returned. What it has sent and received determines everything else, so that the
runs are those of a ring of counters.
-/

namespace P2Poker.Sim
open P2Poker.Lib P2Poker.Crypto

structure Config where
  numNodes : ℤ
  prime : Option ℤ

structure DealingRequest where
  ownerID : ℕ
  index1 : ℕ
  index2 : ℕ
  value1 : Bytes
  value2 : Bytes
  deriving DecidableEq

structure Network where
  numNodes : ℕ
  prime : ℕ
  two_le : 2 ≤ numNodes
  prime_pos : 0 < prime

theorem Config.two_le_numNodes (cfg : Config) (h : ¬ cfg.numNodes < 2) : 2 ≤ cfg.numNodes.toNat := by omega

theorem toNat_pos_of_not_le (p : ℤ) (h : ¬ p ≤ 0) : 0 < p.toNat := by omega

def newNetwork (cfg : Config) : Except Bytes Network :=
  if hn : cfg.numNodes < 2 then .error (ascii "num nodes must be at least 2")
  else
    match cfg.prime with
    | none => .error (ascii "prime must be set")
    | some p =>
      if hp : p ≤ 0 then .error (ascii "prime must be set")
      else .ok ⟨cfg.numNodes.toNat, p.toNat, cfg.two_le_numNodes hn, toNat_pos_of_not_le p hp⟩

/- The second argument of `make` in setupGrids. -/
def chanCap : ℕ := 1

/-- Where a goroutine of `dealCards` stands. -/
inductive Player where
  -- at a send to the next node
  | sending (request : DealingRequest)
  -- at the receive from the node before
  | receiving
  | returned (card1 card2 : Bytes)
  -- the deck is too short
  | panicked
  deriving DecidableEq

structure Deal where
  players : ℕ → Player
  dealingGrid : ℕ → ℕ → List DealingRequest

def myRequest (finalDeck : List Bytes) (id : ℕ) : Option DealingRequest :=
  match finalDeck[2 * id]?, finalDeck[2 * id + 1]? with
  | some value1, some value2 => some ⟨id, 2 * id, 2 * id + 1, value1, value2⟩
  | _, _ => none

inductive Event where
  | send (id : ℕ)
  | receive (id : ℕ)
  deriving DecidableEq

def setChan (grid : ℕ → ℕ → List DealingRequest) (src dst : ℕ) (queue : List DealingRequest) :
    ℕ → ℕ → List DealingRequest :=
  fun i j => if i = src ∧ j = dst then queue else grid i j

namespace Network
variable (net : Network) (key : ℕ → Deck.Key)

def dst (id : ℕ) : ℕ := (id + 1) % net.numNodes

def prev (id : ℕ) : ℕ := (net.numNodes + id - 1) % net.numNodes

/- What a node does with a request it has received. -/
def decrypt (id : ℕ) (request : DealingRequest) : Player :=
  let decryptedCard1 := Deck.decryptCard request.value1 (key id) net.prime
  let decryptedCard2 := Deck.decryptCard request.value2 (key id) net.prime
  if request.ownerID = id then .returned decryptedCard1 decryptedCard2
  else .sending { request with value1 := decryptedCard1, value2 := decryptedCard2 }

def start (finalDeck : List Bytes) : Deal where
  players id :=
    match myRequest finalDeck id with
    | some request => .sending request
    | none => .panicked
  dealingGrid _ _ := []

def step (s : Deal) : Event → Option Deal
  | .send id =>
    if id < net.numNodes then
      match s.players id with
      | .sending request =>
        if (s.dealingGrid id (net.dst id)).length < chanCap then
          some ⟨Function.update s.players id .receiving,
            setChan s.dealingGrid id (net.dst id) (s.dealingGrid id (net.dst id) ++ [request])⟩
        else none
      | _ => none
    else none
  | .receive id =>
    if id < net.numNodes then
      match s.players id, s.dealingGrid (net.prev id) id with
      | .receiving, request :: rest =>
        some ⟨Function.update s.players id (net.decrypt key id request),
          setChan s.dealingGrid (net.prev id) id rest⟩
      | _, _ => none
    else none

/-! ### What is asked of the deal -/

/- A request of `owner` is in the hands of a node, or in its channel. -/
def Holds (s : Deal) (id owner : ℕ) : Prop :=
  (∃ request, s.players id = .sending request ∧ request.ownerID = owner) ∨
    ∃ request ∈ s.dealingGrid id (net.dst id), request.ownerID = owner

/- How many nodes a request at `id` has yet to come to, the owner being the last. -/
def hops (id owner : ℕ) : ℕ := if id < owner then owner - id else net.numNodes + owner - id

/-- The request of `owner` is on its way and has yet to pass through `id`. -/
def HasToPass (s : Deal) (owner id : ℕ) : Prop :=
  ∃ place < net.numNodes, net.Holds s place owner ∧
    ∃ t < net.hops place owner, id = (place + 1 + t) % net.numNodes

/-- A card with all layers taken off. It is the plaintext, if that was locked under all keys. -/
structure FullyDecrypted (value card : Bytes) : Prop where
  stripped : card = (Deck.cipher net.prime).strip ((List.range net.numNodes).map key) value
  plain : net.prime.Prime → (∀ id < net.numNodes, (key id).Inverse net.prime) →
    ∀ (order : List ℕ) (m : Bytes), order.Perm (List.range net.numNodes) → Deck.Canonical net.prime m →
      value = (Deck.cipher net.prime).lock (order.map key) m → card = m

end Network

/-! ### The picture of the counters -/

/- Whose request is the `k`-th that a node sends: its own first, then those of the nodes before it. -/
def origin (n id k : ℕ) : ℕ := if k ≤ id then id - k else n + id - k

namespace Network
variable (net : Network) (key : ℕ → Deck.Key) (finalDeck : List Bytes)

/- The keys of the nodes that a request comes to first. -/
def layers (owner k : ℕ) : List Deck.Key := (List.range k).map fun t => key ((owner + 1 + t) % net.numNodes)

/- A card of the deck after that many nodes. -/
def cardAfter (index owner k : ℕ) : Bytes :=
  (Deck.cipher net.prime).strip (net.layers key owner k) (finalDeck.getD index [])

def requestAfter (owner k : ℕ) : DealingRequest :=
  ⟨owner, 2 * owner, 2 * owner + 1, net.cardAfter key finalDeck (2 * owner) owner k,
    net.cardAfter key finalDeck (2 * owner + 1) owner k⟩

def message (id k : ℕ) : DealingRequest := net.requestAfter key finalDeck (origin net.numNodes id k) k

def playerAt (id sent received : ℕ) : Player :=
  if received = net.numNodes then
    .returned (net.cardAfter key finalDeck (2 * id) id net.numNodes)
      (net.cardAfter key finalDeck (2 * id + 1) id net.numNodes)
  else if sent = received then .sending (net.message key finalDeck id received)
  else .receiving

structure Shows (r : Ring) (s : Deal) : Prop where
  players : ∀ id < net.numNodes, s.players id = net.playerAt key finalDeck id (r.sent id) (r.received id)
  channels : ∀ id < net.numNodes, s.dealingGrid id (net.dst id) =
    (List.range' (r.received (net.dst id)) (r.sent id - r.received (net.dst id))).map
      (net.message key finalDeck id)

variable {net key finalDeck} {r r' : Ring} {s s' : Deal} {id owner k : ℕ}

theorem dst_prev (hid : id < net.numNodes) : net.dst (net.prev id) = id := Ring.next_prev hid

theorem dst_lt (hid : id < net.numNodes) : net.dst id < net.numNodes := Ring.next_lt hid

theorem prev_lt (hid : id < net.numNodes) : net.prev id < net.numNodes := Ring.prev_lt hid

theorem dst_inj {id' : ℕ} (hid : id < net.numNodes) (hid' : id' < net.numNodes) (h : net.dst id = net.dst id') :
    id = id' := Ring.next_inj hid hid' h

/- A message has one more node behind it when it arrives. -/
theorem origin_prev {n : ℕ} (hid : id < n) (hk : k < n) : origin n (Ring.prev n id) k = origin n id (k + 1) := by
  unfold Ring.prev
  rcases Nat.eq_zero_or_pos id with rfl | hpos
  · rw [Nat.add_zero, Nat.mod_eq_of_lt (by omega)]
    unfold origin
    split_ifs <;> omega
  · have hsum : n + id - 1 = id - 1 + n := by omega
    rw [hsum, Nat.add_mod_right, Nat.mod_eq_of_lt (by omega)]
    unfold origin
    split_ifs <;> omega

theorem origin_add {n : ℕ} (hid : id < n) (hk : k ≤ n) : (origin n id k + k) % n = id := by
  unfold origin
  split_ifs with hle
  · rw [Nat.sub_add_cancel hle, Nat.mod_eq_of_lt hid]
  · have hsum : n + id - k + k = id + n := by omega
    rw [hsum, Nat.add_mod_right, Nat.mod_eq_of_lt hid]

theorem origin_eq_self {n : ℕ} (hid : id < n) (hpos : 0 < k) (hk : k ≤ n) : origin n id k = id ↔ k = n := by
  unfold origin
  split_ifs with hle
  · omega
  · omega

theorem hops_origin (hid : id < net.numNodes) (hk : k < net.numNodes) :
    net.hops id (origin net.numNodes id k) = net.numNodes - k := by
  unfold hops origin
  split_ifs <;> omega

theorem layers_succ (owner k : ℕ) :
    net.layers key owner (k + 1) = net.layers key owner k ++ [key ((owner + 1 + k) % net.numNodes)] := by
  rw [layers, List.range_succ, List.map_append]
  rfl

/- A node takes its layer off. -/
theorem cardAfter_succ (hid : id < net.numNodes) (hk : k < net.numNodes) (index : ℕ) :
    net.cardAfter key finalDeck index (origin net.numNodes id (k + 1)) (k + 1) =
      Deck.decryptCard (net.cardAfter key finalDeck index (origin net.numNodes id (k + 1)) k) (key id) net.prime := by
  have hsum : origin net.numNodes id (k + 1) + 1 + k = origin net.numNodes id (k + 1) + (k + 1) := by omega
  rw [cardAfter, layers_succ, Cipher.strip_concat, hsum, origin_add hid hk]
  rfl

/-- The `k`-th message that arrives at a node makes it the player of the next count. -/
theorem decrypt_message (hid : id < net.numNodes) (hk : k < net.numNodes) :
    net.decrypt key id (net.message key finalDeck (net.prev id) k) =
      net.playerAt key finalDeck id (k + 1) (k + 1) := by
  have horigin : origin net.numNodes (net.prev id) k = origin net.numNodes id (k + 1) := origin_prev hid hk
  have howner := origin_eq_self hid (Nat.succ_pos k) hk
  unfold decrypt playerAt message requestAfter
  simp only [horigin]
  rw [← cardAfter_succ hid hk, ← cardAfter_succ hid hk]
  by_cases hlast : k + 1 = net.numNodes
  · rw [if_pos (howner.mpr hlast), if_pos hlast, howner.mpr hlast, hlast]
  · rw [if_neg fun h => hlast (howner.mp h), if_neg hlast, if_pos trivial]

/-! ### The deal is a run of the ring -/

theorem step_send (h : net.step key s (.send id) = some s') :
    id < net.numNodes ∧ ∃ request, s.players id = .sending request ∧
      (s.dealingGrid id (net.dst id)).length < chanCap ∧
      s' = ⟨Function.update s.players id .receiving,
        setChan s.dealingGrid id (net.dst id) (s.dealingGrid id (net.dst id) ++ [request])⟩ := by
  rw [step] at h
  by_cases hid : id < net.numNodes
  · rw [if_pos hid] at h
    split at h
    · rename_i request hplayer
      split_ifs at h with hroom
      exact ⟨hid, request, hplayer, hroom, (Option.some.inj h).symm⟩
    · cases h
  · rw [if_neg hid] at h
    cases h

theorem step_receive (h : net.step key s (.receive id) = some s') :
    id < net.numNodes ∧ s.players id = .receiving ∧ ∃ request rest,
      s.dealingGrid (net.prev id) id = request :: rest ∧
      s' = ⟨Function.update s.players id (net.decrypt key id request),
        setChan s.dealingGrid (net.prev id) id rest⟩ := by
  rw [step] at h
  by_cases hid : id < net.numNodes
  · rw [if_pos hid] at h
    split at h
    · rename_i request rest hplayer hqueue
      exact ⟨hid, hplayer, request, rest, hqueue, (Option.some.inj h).symm⟩
    · cases h
  · rw [if_neg hid] at h
    cases h

theorem Shows.start (hdeck : 2 * net.numNodes ≤ finalDeck.length) :
    net.Shows key finalDeck Ring.start (start finalDeck) := by
  constructor
  · intro id hid
    have h1 : 2 * id < finalDeck.length := by omega
    have h2 : 2 * id + 1 < finalDeck.length := by omega
    have hne : (0 : ℕ) ≠ net.numNodes := by omega
    show _ = net.playerAt key finalDeck id 0 0
    rw [playerAt, if_neg hne, if_pos rfl]
    simp only [Network.start, myRequest, List.getElem?_eq_getElem h1, List.getElem?_eq_getElem h2, message,
      requestAfter, cardAfter, layers, origin, List.range_zero, List.map_nil, Cipher.strip_nil, Nat.zero_le,
      if_true, Nat.sub_zero, List.getD_eq_getElem _ _ h1, List.getD_eq_getElem _ _ h2]
  · intro id _
    rfl

theorem playerAt_sending {sent received : ℕ} {request : DealingRequest}
    (h : net.playerAt key finalDeck id sent received = .sending request) :
    received ≠ net.numNodes ∧ sent = received ∧ request = net.message key finalDeck id received := by
  unfold playerAt at h
  split_ifs at h with hlast hturn
  exact ⟨hlast, hturn, (Player.sending.inj h).symm⟩

theorem playerAt_receiving {sent received : ℕ} (h : net.playerAt key finalDeck id sent received = .receiving) :
    received ≠ net.numNodes ∧ sent ≠ received := by
  unfold playerAt at h
  split_ifs at h with hlast hturn
  exact ⟨hlast, hturn⟩

theorem playerAt_returned {sent received : ℕ} {card1 card2 : Bytes}
    (h : net.playerAt key finalDeck id sent received = .returned card1 card2) :
    received = net.numNodes ∧ card1 = net.cardAfter key finalDeck (2 * id) id net.numNodes ∧
      card2 = net.cardAfter key finalDeck (2 * id + 1) id net.numNodes := by
  unfold playerAt at h
  split_ifs at h with hlast hturn
  obtain ⟨h1, h2⟩ := Player.returned.inj h
  exact ⟨hlast, h1.symm, h2.symm⟩

theorem setChan_self (grid : ℕ → ℕ → List DealingRequest) (src dst : ℕ) (queue : List DealingRequest) :
    setChan grid src dst queue src dst = queue := if_pos ⟨rfl, rfl⟩

theorem setChan_ne {grid : ℕ → ℕ → List DealingRequest} {src dst i j : ℕ} {queue : List DealingRequest}
    (h : i ≠ src) : setChan grid src dst queue i j = grid i j := if_neg fun heq => h heq.1

theorem Shows.send (hs : net.Shows key finalDeck r s) (hp : r.Paced net.numNodes net.numNodes chanCap)
    (hstep : net.step key s (.send id) = some s') :
    id < net.numNodes ∧ r.CanSend net.numNodes net.numNodes chanCap id ∧
      net.Shows key finalDeck (r.send id) s' := by
  obtain ⟨hid, request, hplayer, hroom, rfl⟩ := step_send hstep
  rw [hs.players id hid] at hplayer
  obtain ⟨hlast, hturn, rfl⟩ := playerAt_sending hplayer
  have hrounds := hp.sent_rounds id hid
  have harrived : r.received (net.dst id) ≤ r.sent id := hp.arrived_le id hid
  have hchan := hs.channels id hid
  rw [hchan, List.length_map, List.length_range'] at hroom
  refine ⟨hid, ⟨hturn, by omega, ?_⟩, ?_, ?_⟩
  · show r.sent id < r.received (net.dst id) + chanCap
    omega
  · intro i hi
    by_cases heq : i = id
    · subst heq
      show Function.update s.players i _ i = net.playerAt key finalDeck i ((r.send i).sent i) (r.received i)
      rw [Function.update_self, Ring.send_self, playerAt, if_neg hlast, if_neg (by omega)]
    · show Function.update s.players id _ i = net.playerAt key finalDeck i ((r.send id).sent i) (r.received i)
      rw [Function.update_of_ne heq, Ring.send_ne heq]
      exact hs.players i hi
  · intro i hi
    by_cases heq : i = id
    · subst heq
      show setChan _ i (net.dst i) _ i (net.dst i) = (List.range' (r.received (net.dst i))
        ((r.send i).sent i - r.received (net.dst i))).map _
      have hlen : r.sent i + 1 - r.received (net.dst i) = r.sent i - r.received (net.dst i) + 1 := by omega
      have hnew : r.received (net.dst i) + (r.sent i - r.received (net.dst i)) = r.received i := by omega
      rw [setChan_self, Ring.send_self, hlen, List.range'_concat, List.map_append, hchan, Nat.one_mul, hnew]
      rfl
    · show setChan _ id (net.dst id) _ i (net.dst i) = (List.range' (r.received (net.dst i))
        ((r.send id).sent i - r.received (net.dst i))).map _
      rw [setChan_ne heq, Ring.send_ne heq]
      exact hs.channels i hi

theorem Shows.receive (hs : net.Shows key finalDeck r s) (hp : r.Paced net.numNodes net.numNodes chanCap)
    (hstep : net.step key s (.receive id) = some s') :
    id < net.numNodes ∧ r.CanReceive net.numNodes id ∧ net.Shows key finalDeck (r.receive id) s' := by
  obtain ⟨hid, hplayer, request, rest, hqueue, rfl⟩ := step_receive hstep
  rw [hs.players id hid] at hplayer
  obtain ⟨hlast, hturn⟩ := playerAt_receiving hplayer
  have hsent := hp.sent_le id hid
  have hreceived := hp.received_le id hid
  have hrounds := hp.sent_rounds id hid
  have hprev := prev_lt hid
  have hchan := hs.channels _ hprev
  rw [dst_prev hid, hqueue] at hchan
  obtain ⟨len, hlen⟩ : ∃ len, r.sent (net.prev id) - r.received id = len + 1 := by
    cases hlen : r.sent (net.prev id) - r.received id with
    | zero =>
      rw [hlen] at hchan
      cases hchan
    | succ len => exact ⟨len, rfl⟩
  rw [hlen, List.range'_succ, List.map_cons] at hchan
  obtain ⟨hrequest, hrest⟩ := List.cons.inj hchan
  have hmsg : r.received id < r.sent (net.prev id) := by omega
  refine ⟨hid, ⟨by omega, hmsg⟩, ?_, ?_⟩
  · intro i hi
    by_cases heq : i = id
    · subst heq
      show Function.update s.players i _ i = net.playerAt key finalDeck i (r.sent i) ((r.receive i).received i)
      have hsucc : r.sent i = r.received i + 1 := by omega
      rw [Function.update_self, Ring.receive_self, hrequest, hsucc]
      exact decrypt_message hi (by omega)
    · show Function.update s.players id _ i = net.playerAt key finalDeck i (r.sent i) ((r.receive id).received i)
      rw [Function.update_of_ne heq, Ring.receive_ne heq]
      exact hs.players i hi
  · intro i hi
    by_cases heq : i = net.prev id
    · subst heq
      show setChan _ (net.prev id) id _ (net.prev id) (net.dst (net.prev id)) =
        (List.range' ((r.receive id).received (net.dst (net.prev id)))
          (r.sent (net.prev id) - (r.receive id).received (net.dst (net.prev id)))).map _
      have hless : r.sent (net.prev id) - (r.received id + 1) = len := by omega
      rw [dst_prev hid, setChan_self, Ring.receive_self, hless]
      exact hrest
    · have hdst : net.dst i ≠ id := by
        intro hdst
        rw [← dst_prev hid] at hdst
        exact heq (dst_inj hi hprev hdst)
      show setChan _ (net.prev id) id _ i (net.dst i) = (List.range' ((r.receive id).received (net.dst i))
        (r.sent i - (r.receive id).received (net.dst i))).map _
      rw [setChan_ne heq, Ring.receive_ne hdst]
      exact hs.channels i hi

/-- Every step of the deal is a move of the counters it shows. -/
theorem Shows.step {e : Event} (hs : net.Shows key finalDeck r s)
    (hp : r.Paced net.numNodes net.numNodes chanCap) (hstep : net.step key s e = some s') :
    ∃ r', r.Move net.numNodes net.numNodes chanCap r' ∧ net.Shows key finalDeck r' s' := by
  cases e with
  | send id =>
    obtain ⟨hid, hcan, hshows⟩ := hs.send hp hstep
    exact ⟨_, .send hid hcan, hshows⟩
  | receive id =>
    obtain ⟨hid, hcan, hshows⟩ := hs.receive hp hstep
    exact ⟨_, .receive hid hcan, hshows⟩

/-- A deal after `es` shows counters that have moved as often. -/
theorem shows_of_trace {es : List Event} (hdeck : 2 * net.numNodes ≤ finalDeck.length)
    (ht : Trace (net.step key) Free (start finalDeck) es s) :
    ∃ r, r.Paced net.numNodes net.numNodes chanCap ∧ net.Shows key finalDeck r s ∧
      r.moves net.numNodes = es.length := by
  induction ht with
  | nil => exact ⟨Ring.start, .start, .start hdeck, Ring.moves_start⟩
  | snoc e _ _ hstep ih =>
    obtain ⟨r, hp, hs, hmoves⟩ := ih
    obtain ⟨r', hm, hs'⟩ := hs.step hp hstep
    refine ⟨r', hp.move hm, hs', ?_⟩
    rw [hm.moves_eq, hmoves, List.length_append]
    rfl

/-! ### No deadlock -/

theorem Shows.can_send (hs : net.Shows key finalDeck r s) (hid : id < net.numNodes)
    (h : r.CanSend net.numNodes net.numNodes chanCap id) : (net.step key s (.send id)).isSome = true := by
  obtain ⟨hturn, hmore, hroom⟩ := h
  have hplayer := hs.players id hid
  rw [playerAt, if_neg (by omega), if_pos hturn] at hplayer
  have hchan := hs.channels id hid
  have hspace : (s.dealingGrid id (net.dst id)).length < chanCap := by
    have hroom' : r.sent id < r.received (net.dst id) + chanCap := hroom
    rw [hchan, List.length_map, List.length_range']
    unfold chanCap at hroom' ⊢
    omega
  rw [Network.step, if_pos hid, hplayer]
  dsimp only
  rw [if_pos hspace]
  rfl

theorem Shows.can_receive (hs : net.Shows key finalDeck r s) (hp : r.Paced net.numNodes net.numNodes chanCap)
    (hid : id < net.numNodes) (h : r.CanReceive net.numNodes id) :
    (net.step key s (.receive id)).isSome = true := by
  obtain ⟨hturn, hmsg⟩ := h
  have hrounds := hp.sent_rounds id hid
  have hplayer := hs.players id hid
  rw [playerAt, if_neg (by omega), if_neg (by omega)] at hplayer
  have hchan := hs.channels _ (prev_lt hid)
  have hmsg' : r.received id < r.sent (net.prev id) := hmsg
  have hlen : r.sent (net.prev id) - r.received id = r.sent (net.prev id) - r.received id - 1 + 1 := by omega
  rw [dst_prev hid, hlen, List.range'_succ, List.map_cons] at hchan
  rw [Network.step, if_pos hid, hplayer, hchan]
  rfl

theorem Shows.progress (hs : net.Shows key finalDeck r s) (hp : r.Paced net.numNodes net.numNodes chanCap) :
    (∀ id < net.numNodes, ∃ card1 card2, s.players id = .returned card1 card2) ∨
      ∃ e, (net.step key s e).isSome = true := by
  have hn : 0 < net.numNodes := by
    have := net.two_le
    omega
  rcases hp.progress Nat.one_pos hn with hall | ⟨id, hid, hsend | hreceive⟩
  · refine .inl ?_
    intro id hid
    rw [hs.players id hid, playerAt, if_pos (hall id hid)]
    exact ⟨_, _, rfl⟩
  · exact .inr ⟨_, hs.can_send hid hsend⟩
  · exact .inr ⟨_, hs.can_receive hp hid hreceive⟩

/-! ### The own request comes last -/

/-- A node on the way of a request has not received its last message. -/
theorem Shows.not_returned (hs : net.Shows key finalDeck r s) (hp : r.Paced net.numNodes net.numNodes chanCap)
    (h : net.HasToPass s owner id) : r.received id < net.numNodes := by
  obtain ⟨place, hplace, hholds, t, ht, rfl⟩ := h
  -- the request is the k-th message of the place, and the next node has not received more
  obtain ⟨k, hk, rfl, harrived⟩ : ∃ k < net.numNodes, origin net.numNodes place k = owner ∧
      r.received (net.dst place) ≤ k := by
    rcases hholds with ⟨request, hplayer, howner⟩ | ⟨request, hmem, howner⟩
    · rw [hs.players place hplace] at hplayer
      obtain ⟨hlast, hturn, rfl⟩ := playerAt_sending hplayer
      have hrounds := hp.sent_rounds place hplace
      have harrived : r.received (net.dst place) ≤ r.sent place := hp.arrived_le place hplace
      exact ⟨r.received place, by omega, howner, by omega⟩
    · rw [hs.channels place hplace] at hmem
      obtain ⟨k, hk, rfl⟩ := List.mem_map.mp hmem
      rw [List.mem_range'_1] at hk
      have hrounds := hp.sent_rounds place hplace
      exact ⟨k, by omega, howner, hk.1⟩
  rw [hops_origin hplace hk] at ht
  have hway := hp.received_add (dst_lt hplace) t
  have hmod : (net.dst place + t) % net.numNodes = (place + 1 + t) % net.numNodes := Nat.mod_add_mod ..
  rw [hmod] at hway
  omega

/-! ### What is returned -/

/- One round from a node comes to every node once. -/
theorem round_perm (owner n : ℕ) :
    ((List.range n).map fun t => (owner + 1 + t) % n).Perm (List.range n) := by
  have hnodup : ((List.range n).map fun t => (owner + 1 + t) % n).Nodup := by
    refine List.Nodup.map_on ?_ List.nodup_range
    intro t ht t' ht' h
    have hmod : t ≡ t' [MOD n] := Nat.ModEq.add_left_cancel' (owner + 1) h
    exact hmod.eq_of_lt_of_lt (List.mem_range.mp ht) (List.mem_range.mp ht')
  have hsub : ((List.range n).map fun t => (owner + 1 + t) % n) ⊆ List.range n := by
    intro q hq
    obtain ⟨t, ht, rfl⟩ := List.mem_map.mp hq
    rw [List.mem_range] at ht ⊢
    exact Nat.mod_lt _ (by omega)
  exact (hnodup.subperm hsub).perm_of_length_le (by rw [List.length_map])

theorem fullyDecrypted (value : Bytes) (owner : ℕ) : net.FullyDecrypted key value
    ((Deck.cipher net.prime).strip (net.layers key owner net.numNodes) value) := by
  have hperm : (net.layers key owner net.numNodes).Perm ((List.range net.numNodes).map key) := by
    have hmap := (round_perm owner net.numNodes).map key
    rwa [List.map_map] at hmap
  refine ⟨Deck.strip_perm hperm value, ?_⟩
  intro hprime hkeys order m horder hm hvalue
  have hall : (order.map key).Perm (net.layers key owner net.numNodes ++ []) := by
    rw [List.append_nil]
    exact (horder.map key).trans hperm.symm
  rw [hvalue]
  refine (Deck.cipher_commutes hprime).strip_lock hall ?_ hm
  intro k hk
  obtain ⟨id, hid, rfl⟩ := List.mem_map.mp hk
  exact hkeys id (List.mem_range.mp (horder.mem_iff.mp hid))

theorem Shows.cards {card1 card2 : Bytes} (hs : net.Shows key finalDeck r s)
    (hdeck : 2 * net.numNodes ≤ finalDeck.length) (hid : id < net.numNodes)
    (h : s.players id = .returned card1 card2) :
    ∃ value1 value2, finalDeck[2 * id]? = some value1 ∧ finalDeck[2 * id + 1]? = some value2 ∧
      net.FullyDecrypted key value1 card1 ∧ net.FullyDecrypted key value2 card2 := by
  rw [hs.players id hid] at h
  obtain ⟨_, rfl, rfl⟩ := playerAt_returned h
  have h1 : 2 * id < finalDeck.length := by omega
  have h2 : 2 * id + 1 < finalDeck.length := by omega
  refine ⟨_, _, List.getElem?_eq_getElem h1, List.getElem?_eq_getElem h2, ?_, ?_⟩
  · rw [cardAfter, List.getD_eq_getElem _ _ h1]
    exact fullyDecrypted _ id
  · rw [cardAfter, List.getD_eq_getElem _ _ h2]
    exact fullyDecrypted _ id

theorem ring_deal_correct (net : Network) (key : ℕ → Deck.Key) (finalDeck : List Bytes)
    (hdeck : 2 * net.numNodes ≤ finalDeck.length) {es : List Event} {s : Deal}
    (ht : Trace (net.step key) Free (start finalDeck) es s) :
    es.length ≤ 2 * net.numNodes * net.numNodes ∧
    ((∀ id < net.numNodes, ∃ card1 card2, s.players id = .returned card1 card2) ∨
      ∃ e, (net.step key s e).isSome = true) ∧
    (∀ id < net.numNodes, ∀ card1 card2, s.players id = .returned card1 card2 →
      ∀ owner < net.numNodes, owner ≠ id → ¬ net.HasToPass s owner id) ∧
    ∀ id < net.numNodes, ∀ card1 card2, s.players id = .returned card1 card2 →
      ∃ value1 value2, finalDeck[2 * id]? = some value1 ∧ finalDeck[2 * id + 1]? = some value2 ∧
        net.FullyDecrypted key value1 card1 ∧ net.FullyDecrypted key value2 card2 := by
  obtain ⟨r, hp, hs, hmoves⟩ := shows_of_trace hdeck ht
  refine ⟨?_, hs.progress hp, ?_, fun id hid card1 card2 h => hs.cards hdeck hid h⟩
  · rw [← hmoves]
    exact hp.moves_le
  · intro id hid card1 card2 h owner _ _ hpass
    have hwaits := hs.not_returned hp hpass
    rw [hs.players id hid] at h
    have hdone := (playerAt_returned h).1
    omega

/- Two nodes, the cards 1 to 4 under both keys. -/
def headsUp : Network := ⟨2, 11, by decide, by decide⟩

def headsUpKey : ℕ → Deck.Key := fun _ => ⟨3, 7⟩

def headsUpDeck : List Bytes := [[1], [6], [4], [3]]

def headsUpDeal : List Event :=
  [.send 0, .send 1, .receive 1, .receive 0, .send 1, .send 0, .receive 0, .receive 1]

def dealt : Deal := run (headsUp.step headsUpKey) Free (start headsUpDeck) headsUpDeal

theorem heads_up_dealt : newNetwork ⟨2, some 11⟩ = .ok headsUp ∧ dealt.players 0 = .returned [1] [2] ∧
    dealt.players 1 = .returned [3] [4] ∧ ¬ headsUp.HasToPass dealt 1 0 ∧
    ∃ value1 value2, headsUpDeck[2 * 1]? = some value1 ∧ headsUpDeck[2 * 1 + 1]? = some value2 ∧
      headsUp.FullyDecrypted headsUpKey value1 [3] ∧ headsUp.FullyDecrypted headsUpKey value2 [4] := by
  have ht : Trace (headsUp.step headsUpKey) Free (start headsUpDeck) headsUpDeal dealt :=
    run_trace (by decide +kernel)
  have h0 : dealt.players 0 = .returned [1] [2] := by decide +kernel
  have h1 : dealt.players 1 = .returned [3] [4] := by decide +kernel
  obtain ⟨_, _, hpass, hcards⟩ := ring_deal_correct headsUp headsUpKey headsUpDeck (by decide) ht
  exact ⟨rfl, h0, h1, hpass 0 (by decide) _ _ h0 1 (by decide) (by decide), hcards 1 (by decide) _ _ h1⟩

end Network

end P2Poker.Sim
