import P2Poker.Peer.Table

/-!
# An honest deal

When every seat follows the program, what it hosts does not depend on the order
of the steps. The cards lie in the order that all the shuffles put them in, a
relay is the final deck's card without the layers of the seats it has passed,
and every node is somewhere on its way through the hand with just these values
in its store.
-/

namespace P2Poker.Peer
open P2Poker.Lib P2Poker.Crypto P2Poker.Ephemeral

/-! ### The ring of a hole slot -/

section Ring
variable {n w s q : ℕ}

theorem mem_nonOwnerRing : q ∈ nonOwnerRing n w ↔ q < n ∧ q ≠ w := by
  simp [nonOwnerRing]

theorem nonOwnerRing_nodup (n w : ℕ) : (nonOwnerRing n w).Nodup := List.nodup_range.filter _

theorem nonOwnerRing_perm (hw : w < n) : (List.range n).Perm (nonOwnerRing n w ++ [w]) := by
  refine (List.perm_ext_iff_of_nodup List.nodup_range ?_).mpr ?_
  · refine List.Nodup.append (nonOwnerRing_nodup n w) (List.nodup_singleton w) ?_
    simp [List.disjoint_singleton, mem_nonOwnerRing]
  · intro q
    simp only [List.mem_range, List.mem_append, mem_nonOwnerRing, List.mem_singleton]
    omega

theorem nonOwnerRing_ne_nil (hn : 2 ≤ n) (w : ℕ) : nonOwnerRing n w ≠ [] := by
  refine List.ne_nil_of_mem (a := if w = 0 then 1 else 0) (mem_nonOwnerRing.mpr ?_)
  split_ifs <;> omega

/-- The owner comes after the whole ring. -/
theorem idxOf_owner (n w : ℕ) : (nonOwnerRing n w).idxOf w = (nonOwnerRing n w).length :=
  List.idxOf_eq_length fun h => (mem_nonOwnerRing.mp h).2 rfl

theorem idxOf_getLast (h : (nonOwnerRing n w).getLast? = some q) :
    q ∈ nonOwnerRing n w ∧ (nonOwnerRing n w).idxOf q + 1 = (nonOwnerRing n w).idxOf w := by
  have hmem := List.mem_of_getLast? h
  rw [List.getLast?_eq_getElem?] at h
  obtain ⟨hlt, rfl⟩ := List.getElem?_eq_some_iff.mp h
  rw [(nonOwnerRing_nodup n w).idxOf_getElem, idxOf_owner]
  exact ⟨hmem, by omega⟩

theorem ringPosition_eq (hs : s ∈ nonOwnerRing n w) :
    ringPosition (nonOwnerRing n w) s = some ((nonOwnerRing n w).idxOf s) := by
  have hlt := List.idxOf_lt_length_iff.mpr hs
  rw [ringPosition, List.idxOf?_eq_some_iff]
  refine ⟨hlt, List.getElem_idxOf hlt, ?_⟩
  intro j hj heq
  have := (nonOwnerRing_nodup n w).idxOf_getElem j (by omega)
  rw [heq] at this
  omega

theorem take_idxOf_succ (hs : s ∈ nonOwnerRing n w) :
    (nonOwnerRing n w).take ((nonOwnerRing n w).idxOf s + 1) =
      (nonOwnerRing n w).take ((nonOwnerRing n w).idxOf s) ++ [s] := by
  have hlt := List.idxOf_lt_length_iff.mpr hs
  rw [List.take_add_one, List.getElem?_eq_getElem hlt, List.getElem_idxOf hlt]
  rfl

end Ring

/-! ### What is hosted -/

namespace Table
variable {K V : Type} (o : Values K V) (t : Table K)

/- The order of the cards when the deck comes to a seat. -/
def arrangement : ℕ → List ℕ
  | 0 => List.range' 1 52
  | s + 1 => Deck.shuffle (t.draws s) (arrangement s)

/- The deck as it comes to a seat. -/
def deckAt : ℕ → List V
  | 0 => Node.buildOrderedDeck o
  | s + 1 => Node.encryptDeck o (t.setup s) (Deck.shuffle (t.draws s) (deckAt s))

def keys (seats : List ℕ) : List K := seats.map t.key

def final : List V := t.deckAt o t.size

/-- The card of a slot without the layers of some seats. -/
def strippedBy (seats : List ℕ) (slot : ℕ) : V :=
  o.strip (t.keys seats) ((t.final o).getD slot o.empty)

def ring (slot : ℕ) : List ℕ := nonOwnerRing t.size (slot / 2)

theorem ring_nodup (slot : ℕ) : (t.ring slot).Nodup := nonOwnerRing_nodup ..

/-- The value every key of the deal is hosted with. -/
def value : KeyName → Option V
  | .shuffleStep s => some (o.encodeDeck (t.deckAt o (s + 1)))
  | .holeRelay slot s => some (t.strippedBy o ((t.ring slot).take ((t.ring slot).idxOf s + 1)) slot)
  | .communityRelay cardIdx s => some (t.strippedBy o (List.range (s + 1)) cardIdx)
  | .communityCard cardIdx => some (t.strippedBy o (List.range t.size) cardIdx)
  | _ => none

theorem arrangement_perm (s : ℕ) : (t.arrangement s).Perm (List.range' 1 52) := by
  induction s with
  | zero => exact List.Perm.refl _
  | succ s ih => exact (Deck.shuffle_perm _ _).trans ih

theorem deckAt_eq (s : ℕ) :
    t.deckAt o s = (t.arrangement s).map fun m => o.lock (t.keys (List.range s)) (o.card m) := by
  induction s with
  | zero => simp [deckAt, arrangement, Node.buildOrderedDeck, keys, List.range'_eq_map_range,
      Nat.add_comm]
  | succ s ih =>
    rw [deckAt, ih, Deck.shuffle_map, Node.encryptDeck, List.map_map, arrangement]
    refine List.map_congr_left fun m _ => ?_
    simp only [Function.comp_apply, keys, List.range_succ, List.map_append, List.map_cons,
      List.map_nil, Cipher.lock_concat]
    rfl

theorem final_length : (t.final o).length = 52 := by
  rw [final, deckAt_eq, List.length_map, (t.arrangement_perm _).length_eq, List.length_range']

/-- The card in a slot of the final deck. -/
def cardAt (slot : ℕ) : ℕ := (t.arrangement t.size).getD slot 0

theorem cardAt_mem {slot : ℕ} (h : slot < 52) : t.cardAt slot ∈ List.range' 1 52 := by
  have hlen : (t.arrangement t.size).length = 52 := (t.arrangement_perm _).length_eq
  rw [cardAt, List.getD_eq_getElem _ _ (by omega)]
  exact (t.arrangement_perm _).mem_iff.mp (List.getElem_mem _)

theorem final_getD {slot : ℕ} (h : slot < 52) :
    (t.final o).getD slot o.empty = o.lock (t.keys (List.range t.size)) (o.card (t.cardAt slot)) := by
  have hlen : (t.arrangement t.size).length = 52 := (t.arrangement_perm _).length_eq
  rw [final, deckAt_eq, cardAt, List.getD_eq_getElem _ _ (by simpa using by omega),
    List.getD_eq_getElem _ _ (by omega), List.getElem_map]

theorem strippedBy_concat (seats : List ℕ) (s slot : ℕ) :
    t.strippedBy o (seats ++ [s]) slot = o.dec (t.key s) (t.strippedBy o seats slot) := by
  simp only [strippedBy, keys, List.map_append, List.map_cons, List.map_nil, Cipher.strip_concat]

end Table

/-- What the deal relies on: decryption undoes encryption in any order, on all
plain cards; only the empty string is empty; decks come back as they were sent. -/
structure Values.Lawful {K V : Type} (o : Values K V) (good : K → Prop) (valid : V → Prop) : Prop where
  commutes : o.Commutes good valid
  valid_card : ∀ m ∈ List.range' 1 52, valid (o.card m)
  isEmpty_empty : o.isEmpty o.empty = true
  decode_encode : ∀ d, o.decodeDeck (o.encodeDeck d) = some d

/-- Stripping some seats leaves the layers of the others. -/
theorem Values.Lawful.strippedBy {K V : Type} {o : Values K V} {t : Table K} {good : K → Prop}
    {valid : V → Prop} (h : o.Lawful good valid) (hk : ∀ s < t.size, good (t.key s))
    {seats rest : List ℕ} {slot : ℕ} (hp : (List.range t.size).Perm (seats ++ rest)) (hslot : slot < 52) :
    t.strippedBy o seats slot = o.lock (t.keys rest) (o.card (t.cardAt slot)) := by
  have hperm : (t.keys (List.range t.size)).Perm (t.keys seats ++ t.keys rest) := by
    rw [Table.keys, Table.keys, Table.keys, ← List.map_append]
    exact hp.map _
  have hgood : ∀ k ∈ t.keys (List.range t.size), good k := by
    simp only [Table.keys, List.mem_map, List.mem_range]
    rintro _ ⟨s, hs, rfl⟩
    exact hk s hs
  rw [Table.strippedBy, Table.final_getD _ _ hslot]
  exact h.commutes.strip_lock hperm hgood (h.valid_card _ (t.cardAt_mem hslot))

/-! ### Where a node stands -/

def Phase.cards {V : Type} : Phase V → List ℕ
  | .pollRelay cardIdx rest => cardIdx :: rest
  | .stripping cardIdx _ rest => cardIdx :: rest
  | .pollCard cardIdx rest => cardIdx :: rest
  | _ => []

namespace Node
variable {V : Type} (r : Node V)

def Hosts (name : KeyName) : Prop := (r.store.get name.key).isSome = true

def hole (slot : ℕ) : V := if slot % 2 = 0 then r.card1 else r.card2

/- The community cards that are not on this node's board yet. -/
def left {K : Type} (u : Setup K) : List ℕ := r.phase.cards ++ r.todo.flatMap (Call.cards u)

end Node

section Invariant
variable {K V : Type} (o : Values K V) (t : Table K) (s : ℕ)

structure Shuffled (r : Node V) : Prop where
  hosted : r.Hosts (.shuffleStep s)
  deck : r.finalDeck = t.final o

/- The seat has done its part for a hole slot. -/
def SlotDone (r : Node V) (slot : ℕ) : Prop :=
  if slot / 2 = s then r.hole slot = t.strippedBy o (t.ring slot ++ [s]) slot
  else r.Hosts (.holeRelay slot s)

def Dealt (r : Node V) : Prop := ∀ slot < t.size * 2, SlotDone o t s r slot

def SlotInv (r : Node V) (slot : ℕ) : SlotStage V → Prop
  | .polling q => q ∈ t.ring slot ∧ (t.ring slot).idxOf q + 1 = (t.ring slot).idxOf s
  | .layered v => v = t.strippedBy o ((t.ring slot).take ((t.ring slot).idxOf s)) slot
  | .returned err => err = none ∧ SlotDone o t s r slot

/- The first `j` community cards are on the board. -/
structure Revealed (r : Node V) (j : ℕ) : Prop where
  community : r.community =
    (List.range j).map fun i => t.strippedBy o (List.range t.size) (t.size * 2 + i)
  relays : ∀ i < j, r.Hosts (.communityRelay (t.size * 2 + i) s)
  cards : s + 1 = t.size → ∀ i < j, r.Hosts (.communityCard (t.size * 2 + i))

structure Revealing (r : Node V) : Prop where
  shuffled : Shuffled o t s r
  dealt : Dealt o t s r
  todo : ∃ k, 3 ≤ k ∧ k ≤ 5 ∧ r.todo = hand.drop k

def PhaseInv (r : Node V) : Phase V → Prop
  | .idle => ∃ k ≤ 5, r.todo = hand.drop k ∧ (1 ≤ k → Shuffled o t s r) ∧ (2 ≤ k → Dealt o t s r)
  | .pollStep => r.todo = hand.drop 1 ∧ s ≠ 0
  | .shuffling d => r.todo = hand.drop 1 ∧ d = t.deckAt o s
  | .pollFinal => r.todo = hand.drop 1 ∧ s + 1 ≠ t.size ∧ r.Hosts (.shuffleStep s)
  | .holes slots => r.todo = hand.drop 2 ∧ Shuffled o t s r ∧ slots.length = t.size * 2 ∧
      ∀ slot st, slots[slot]? = some st → SlotInv o t s r slot st
  | .pollRelay _ _ => Revealing o t s r ∧ s ≠ 0
  | .stripping cardIdx v _ => Revealing o t s r ∧ v = t.strippedBy o (List.range s) cardIdx
  | .pollCard cardIdx _ =>
    Revealing o t s r ∧ s + 1 ≠ t.size ∧ r.Hosts (.communityRelay cardIdx s)
  | .failed _ => False

structure NodeInv (r : Node V) : Prop where
  stored : ∀ name v, r.store.get name.key = some v → t.value o name = some v
  phase : PhaseInv o t s r r.phase
  board : ∃ j ≤ 5, r.left (t.setup s) = List.range' (t.size * 2 + j) (5 - j) ∧ Revealed o t s r j

variable {o t s} {r r' : Node V}

/- Nothing that is hosted is taken back; the deck and the board stay. -/
structure Keeps (r r' : Node V) : Prop where
  hosts : ∀ {name}, r.Hosts name → r'.Hosts name
  finalDeck : r'.finalDeck = r.finalDeck
  community : r'.community = r.community

theorem keeps_put (r : Node V) (key : Key) (v : V) (ph : Phase V) :
    Keeps r { r with store := r.store.put key v, phase := ph } := by
  refine ⟨?_, rfl, rfl⟩
  intro name h
  exact Store.isSome_put key v h

theorem hosts_put (r : Node V) (name : KeyName) (v : V) (ph : Phase V) :
    Node.Hosts { r with store := r.store.put name.key v, phase := ph } name := by
  unfold Node.Hosts Store.put Store.get
  dsimp only
  rw [if_pos rfl]
  rfl

theorem Shuffled.keeps (h : Shuffled o t s r) (hk : Keeps r r') : Shuffled o t s r' :=
  ⟨hk.hosts h.hosted, hk.finalDeck.trans h.deck⟩

theorem SlotDone.keeps {slot : ℕ} (h : SlotDone o t s r slot) (hk : Keeps r r')
    (hhole : slot / 2 = s → r'.hole slot = r.hole slot) : SlotDone o t s r' slot := by
  unfold SlotDone at h ⊢
  split_ifs at h ⊢ with hw
  · rwa [hhole hw]
  · exact hk.hosts h

theorem Dealt.keeps (h : Dealt o t s r) (hk : Keeps r r') (hhole : r'.hole = r.hole) :
    Dealt o t s r' :=
  fun slot hslot => (h slot hslot).keeps hk fun _ => congrFun hhole slot

theorem Revealed.keeps {j : ℕ} (h : Revealed o t s r j) (hk : Keeps r r') : Revealed o t s r' j :=
  ⟨hk.community.trans h.community, fun i hi => hk.hosts (h.relays i hi),
    fun hl i hi => hk.hosts (h.cards hl i hi)⟩

theorem Revealing.keeps (h : Revealing o t s r) (hk : Keeps r r') (hhole : r'.hole = r.hole)
    (htodo : r'.todo = r.todo) : Revealing o t s r' :=
  ⟨h.shuffled.keeps hk, h.dealt.keeps hk hhole, by rw [htodo]; exact h.todo⟩

theorem stored_put {store : Store V} (name : KeyName) {v : V}
    (h : ∀ name v, store.get name.key = some v → t.value o name = some v)
    (hv : t.value o name = some v) (name' : KeyName) (v' : V)
    (hget : (store.put name.key v).get name'.key = some v') : t.value o name' = some v' := by
  rcases Store.of_get_put hget with ⟨rfl, rfl⟩ | hold
  · exact hv
  · exact h name' v' hold

/- The call at the head of what is left of the hand. -/
theorem hand_drop {k : ℕ} {call : Call} {todo : List Call} (hk : k ≤ 5) (h : hand.drop k = call :: todo) :
    k < 5 ∧ todo = hand.drop (k + 1) ∧ (call = .runShuffle ↔ k = 0) ∧ (call = .dealHoleCards ↔ k = 1) := by
  have hlt : k < 5 := by
    refine lt_of_le_of_ne hk ?_
    rintro rfl
    cases h
  interval_cases k <;>
    (obtain ⟨rfl, rfl⟩ := List.cons.inj h; exact ⟨by decide, rfl, by decide, by decide⟩)

/-! ### One step -/

/-- Going on with the cards of a reveal, or returning from it. -/
theorem NodeInv.reveal {cards : List ℕ} {j : ℕ} (hcap : 2 * t.size + 5 ≤ 52)
    (hstored : ∀ name v, r.store.get name.key = some v → t.value o name = some v)
    (hrev : Revealing o t s r) (hj : j ≤ 5)
    (hleft : cards ++ r.todo.flatMap (Call.cards (t.setup s)) = List.range' (t.size * 2 + j) (5 - j))
    (hboard : Revealed o t s r j) : NodeInv o t s (r.reveal (t.setup s) cards) := by
  have hkeep : ∀ ph, Keeps r { r with phase := ph } := fun _ => ⟨id, rfl, rfl⟩
  cases cards with
  | nil =>
    obtain ⟨k, hk3, hk5, htodo⟩ := hrev.todo
    exact ⟨hstored, ⟨k, hk5, htodo, fun _ => hrev.shuffled.keeps (hkeep _),
      fun _ => hrev.dealt.keeps (hkeep _) rfl⟩, j, hj, hleft, hboard.keeps (hkeep _)⟩
  | cons cardIdx rest =>
    obtain ⟨hidx, hpos, _⟩ := List.range'_eq_cons_iff.mp hleft.symm
    have hlt : cardIdx < (t.final o).length := by
      rw [t.final_length]
      omega
    have hget : r.finalDeck[cardIdx]? = some ((t.final o).getD cardIdx o.empty) := by
      rw [hrev.shuffled.deck, List.getElem?_eq_getElem hlt, List.getD_eq_getElem _ _ hlt]
    simp only [Node.reveal, hget]
    split_ifs with h0
    · refine ⟨hstored, ⟨hrev.keeps (hkeep _) rfl rfl, ?_⟩, j, hj, hleft, hboard.keeps (hkeep _)⟩
      have hs0 : s = 0 := h0
      rw [hs0]
      rfl
    · exact ⟨hstored, ⟨hrev.keeps (hkeep _) rfl rfl, h0⟩, j, hj, hleft, hboard.keeps (hkeep _)⟩

theorem NodeInv.at_phase {ph : Phase V} (h : NodeInv o t s r) (hph : r.phase = ph) :
    PhaseInv o t s r ph := hph ▸ h.phase

/- A step inside the shuffle or the hole deal does not touch the board. -/
theorem NodeInv.early (h : NodeInv o t s r) (hph : r.phase.cards = []) (hph' : r'.phase.cards = [])
    (htodo : r'.todo.flatMap (Call.cards (t.setup s)) = r.todo.flatMap (Call.cards (t.setup s)))
    (hcommunity : r'.community = r.community) (hhosts : ∀ {name}, r.Hosts name → r'.Hosts name)
    (hstored : ∀ name v, r'.store.get name.key = some v → t.value o name = some v)
    (hphase : PhaseInv o t s r' r'.phase) : NodeInv o t s r' := by
  obtain ⟨j, hj, hleft, hboard⟩ := h.board
  refine ⟨hstored, hphase, j, hj, ?_, hcommunity.trans hboard.community,
    fun i hi => hhosts (hboard.relays i hi), fun hl i hi => hhosts (hboard.cards hl i hi)⟩
  rw [Node.left, hph] at hleft
  rw [Node.left, hph', htodo]
  exact hleft

theorem NodeInv.shuffle {d : List V} (h : NodeInv o t s r) (hs : s < t.size)
    (hph : r.phase = .shuffling d) : NodeInv o t s (r.shuffle o (t.setup s) d) := by
  obtain ⟨htodo, rfl⟩ := h.at_phase hph
  have hv : t.value o (.shuffleStep s) = some (o.encodeDeck (t.deckAt o (s + 1))) := rfl
  have hstored := stored_put (.shuffleStep s) h.stored hv
  have hkeep := keeps_put r (shuffleStepKey s) (o.encodeDeck (t.deckAt o (s + 1)))
  have hown := hosts_put r (.shuffleStep s) (o.encodeDeck (t.deckAt o (s + 1)))
  simp only [Node.shuffle]
  split_ifs with hl
  · have hlast : s + 1 = t.size := by
      have : s = t.size - 1 := hl
      omega
    refine h.early (by rw [hph]; rfl) rfl rfl rfl (hkeep .idle).hosts hstored
      ⟨1, by decide, htodo, ?_, by omega⟩
    intro _
    refine ⟨hown .idle, ?_⟩
    show t.deckAt o (s + 1) = t.final o
    rw [hlast]
    rfl
  · refine h.early (by rw [hph]; rfl) rfl rfl rfl (hkeep _).hosts hstored ⟨htodo, ?_, hown _⟩
    intro hlast
    exact hl (show s = t.size - 1 by omega)

theorem slotInv_dealHoleSlot (hn : 2 ≤ t.size) (hcap : 2 * t.size + 5 ≤ 52) (hs : s < t.size)
    (hdeck : r.finalDeck = t.final o) {slot : ℕ} (hslot : slot < t.size * 2) (r' : Node V) :
    SlotInv o t s r' slot (r.dealHoleSlot (t.setup s) slot) := by
  have hlt : slot < (t.final o).length := by
    rw [t.final_length]
    omega
  have hget : r.finalDeck[slot]? = some ((t.final o).getD slot o.empty) := by
    rw [hdeck, List.getElem?_eq_getElem hlt, List.getD_eq_getElem _ _ hlt]
  obtain ⟨q, hq⟩ : ∃ q, (t.ring slot).getLast? = some q :=
    ⟨_, List.getLast?_eq_some_getLast (nonOwnerRing_ne_nil hn (slot / 2))⟩
  have howner : ¬ (t.setup s).numPlayers ≤ slot / 2 := by
    show ¬ t.size ≤ slot / 2
    omega
  have hring : nonOwnerRing (t.setup s).numPlayers (slot / 2) = t.ring slot := rfl
  simp only [Node.dealHoleSlot, hget, hring, hq, if_neg howner]
  split_ifs with hw
  · have hw' : s = slot / 2 := hw
    obtain ⟨hmem, hidx⟩ := idxOf_getLast hq
    refine ⟨hmem, ?_⟩
    rw [hw']
    exact hidx
  · have hmem : s ∈ t.ring slot := mem_nonOwnerRing.mpr ⟨hs, hw⟩
    have hpos : ringPosition (t.ring slot) (t.setup s).seatIdx = some ((t.ring slot).idxOf s) :=
      ringPosition_eq hmem
    have hidx := List.idxOf_lt_length_iff.mpr hmem
    rw [hpos]
    cases hj : (t.ring slot).idxOf s with
    | zero =>
      show _ = _
      rw [hj]
      rfl
    | succ j =>
      have hjlt : j < (t.ring slot).length := by omega
      refine ⟨?_, ?_⟩
      · rw [List.getD_eq_getElem _ _ hjlt]
        exact List.getElem_mem hjlt
      · rw [List.getD_eq_getElem _ _ hjlt, (t.ring_nodup slot).idxOf_getElem, hj]

/- The other slots of a node are not affected by what it does for one. -/
theorem SlotInv.set {slots : List (SlotStage V)} {slot : ℕ} {st : SlotStage V}
    (h : ∀ i x, slots[i]? = some x → SlotInv o t s r i x) (hst : SlotInv o t s r' slot st)
    (hkeep : ∀ i, i ≠ slot → SlotDone o t s r i → SlotDone o t s r' i) (i : ℕ) (x : SlotStage V)
    (hx : (slots.set slot st)[i]? = some x) : SlotInv o t s r' i x := by
  rw [List.getElem?_set] at hx
  split_ifs at hx with heq
  · obtain rfl := Option.some.inj hx
    rwa [← heq]
  · have hold := h i x hx
    cases x with
    | polling q => exact hold
    | layered v => exact hold
    | returned err => exact ⟨hold.1, hkeep i (Ne.symm heq) hold.2⟩

theorem NodeInv.gotHole {slots : List (SlotStage V)} {slot q : ℕ} {v : V} (h : NodeInv o t s r)
    (hph : r.phase = .holes slots) (hslot : slots[slot]? = some (.polling q))
    (hv : t.value o (.holeRelay slot q) = some v) :
    NodeInv o t s { r with phase := .holes (slots.set slot (.layered v)) } := by
  obtain ⟨htodo, hshuffled, hlen, hslots⟩ := h.at_phase hph
  obtain ⟨_, hidx⟩ := hslots slot _ hslot
  have hkeep : Keeps r { r with phase := .holes (slots.set slot (.layered v)) } := ⟨id, rfl, rfl⟩
  have hnew : SlotInv o t s { r with phase := .holes (slots.set slot (.layered v)) } slot (.layered v) := by
    obtain rfl := Option.some.inj hv
    show _ = _
    rw [hidx]
  exact h.early (by rw [hph]; rfl) rfl rfl rfl id h.stored ⟨htodo, hshuffled.keeps hkeep,
    by simpa using hlen, SlotInv.set hslots hnew fun i _ hd => hd.keeps hkeep fun _ => rfl⟩

/- The two hole cards of a seat are kept apart by their slots' parity. -/
theorem hole_setHole_of_ne {slot i : ℕ} (card : V) (hw : i / 2 = slot / 2) (hne : i ≠ slot) :
    (r.setHole slot card).hole i = r.hole i := by
  unfold Node.setHole Node.hole
  split_ifs <;> first | rfl | omega

theorem hole_setHole (slot : ℕ) (card : V) : (r.setHole slot card).hole slot = card := by
  unfold Node.setHole Node.hole
  split_ifs <;> rfl

theorem NodeInv.stripSlot {slots : List (SlotStage V)} {slot : ℕ} {v : V} (h : NodeInv o t s r)
    (hs : s < t.size) (hph : r.phase = .holes slots) (hslot : slots[slot]? = some (.layered v)) :
    NodeInv o t s { r.stripSlot o (t.setup s) slot v with
      phase := .holes (slots.set slot (.returned none)) } := by
  obtain ⟨htodo, hshuffled, hlen, hslots⟩ := h.at_phase hph
  obtain rfl := hslots slot _ hslot
  have hlen' : (slots.set slot (.returned none)).length = t.size * 2 := by simpa using hlen
  simp only [Node.stripSlot]
  split_ifs with hw
  · -- the owner: all the ring's layers are off, and its own
    have hw' : slot / 2 = s := hw.symm
    have hall : (t.ring slot).take ((t.ring slot).idxOf s) = t.ring slot :=
      List.take_of_length_le (by rw [← hw']; exact (idxOf_owner _ _).ge)
    have hcard : o.dec (t.setup s).modKey
        (t.strippedBy o ((t.ring slot).take ((t.ring slot).idxOf s)) slot) =
        t.strippedBy o (t.ring slot ++ [s]) slot := by
      rw [hall]
      exact (t.strippedBy_concat o _ _ _).symm
    rw [hcard]
    generalize hc : t.strippedBy o (t.ring slot ++ [s]) slot = card
    have hhosts : ∀ {name}, r.Hosts name → (r.setHole slot card).Hosts name := by
      intro name hn
      rwa [Node.Hosts, Node.setHole_store]
    have hkeep : Keeps r { r.setHole slot card with phase := .holes (slots.set slot (.returned none)) } :=
      ⟨hhosts, Node.setHole_finalDeck .., Node.setHole_community ..⟩
    refine h.early (by rw [hph]; rfl) rfl (by rw [Node.setHole_todo]) (Node.setHole_community ..) hhosts
      (by rw [Node.setHole_store]; exact h.stored)
      ⟨(Node.setHole_todo ..).trans htodo, hshuffled.keeps hkeep, hlen', SlotInv.set hslots ?_ ?_⟩
    · refine ⟨rfl, ?_⟩
      rw [SlotDone, if_pos hw', hc]
      exact hole_setHole slot card
    · intro i hne hd
      exact hd.keeps hkeep fun hi => hole_setHole_of_ne card (hi.trans hw'.symm) hne
  · have hmem : s ∈ t.ring slot := mem_nonOwnerRing.mpr ⟨hs, hw⟩
    have hstrip : o.dec (t.setup s).modKey
        (t.strippedBy o ((t.ring slot).take ((t.ring slot).idxOf s)) slot) =
        t.strippedBy o ((t.ring slot).take ((t.ring slot).idxOf s + 1)) slot := by
      have htake : (t.ring slot).take ((t.ring slot).idxOf s + 1) =
          (t.ring slot).take ((t.ring slot).idxOf s) ++ [s] := take_idxOf_succ hmem
      rw [htake]
      exact (t.strippedBy_concat o _ _ _).symm
    rw [hstrip]
    have hkeep := keeps_put r (holeRelayKey slot s)
      (t.strippedBy o ((t.ring slot).take ((t.ring slot).idxOf s + 1)) slot)
      (.holes (slots.set slot (.returned none)))
    refine h.early (by rw [hph]; rfl) rfl rfl rfl hkeep.hosts
      (stored_put (.holeRelay slot s) h.stored rfl)
      ⟨htodo, hshuffled.keeps hkeep, hlen', SlotInv.set hslots ?_ ?_⟩
    · have hw' : ¬ slot / 2 = s := fun heq => hw heq.symm
      refine ⟨rfl, ?_⟩
      rw [SlotDone, if_neg hw']
      exact hosts_put r (.holeRelay slot s) _ _
    · exact fun i _ hd => hd.keeps hkeep fun _ => rfl

/- Board slots are filled in order. -/
theorem setCommunity_eq (he : o.isEmpty o.empty = true) {u : Setup K} {cardIdx : ℕ} (card : V)
    (hlen : r.community.length = cardIdx - u.communityBase) :
    r.setCommunity o u cardIdx card = { r with community := r.community ++ [card] } := by
  have hone : cardIdx - u.communityBase + 1 - r.community.length = 1 := by omega
  simp only [Node.setCommunity, hone, List.replicate_one]
  rw [← hlen, if_pos]
  · simp
  · simpa using he

/-- A card is put on the board, and the reveal goes on. -/
theorem NodeInv.onBoard {cardIdx : ℕ} {rest : List ℕ} {j : ℕ} (he : o.isEmpty o.empty = true)
    (hcap : 2 * t.size + 5 ≤ 52)
    (hstored : ∀ name v, r.store.get name.key = some v → t.value o name = some v)
    (hrev : Revealing o t s r) (hj : j ≤ 5)
    (hleft : cardIdx :: rest ++ r.todo.flatMap (Call.cards (t.setup s)) =
      List.range' (t.size * 2 + j) (5 - j))
    (hboard : Revealed o t s r j) (hrelay : r.Hosts (.communityRelay cardIdx s))
    (hcard : s + 1 = t.size → r.Hosts (.communityCard cardIdx)) :
    NodeInv o t s ((r.setCommunity o (t.setup s) cardIdx
      (t.strippedBy o (List.range t.size) cardIdx)).reveal (t.setup s) rest) := by
  obtain ⟨hidx, hpos, htail⟩ := List.range'_eq_cons_iff.mp hleft.symm
  have hlen : r.community.length = cardIdx - (t.setup s).communityBase := by
    rw [hboard.community, List.length_map, List.length_range, ← hidx]
    show j = t.size * 2 + j - t.size * 2
    omega
  rw [setCommunity_eq he _ hlen]
  refine NodeInv.reveal (j := j + 1) hcap hstored ⟨⟨hrev.shuffled.hosted, hrev.shuffled.deck⟩,
    hrev.dealt, hrev.todo⟩ (by omega) ?_ ⟨?_, ?_, ?_⟩
  · have hcount : 5 - (j + 1) = 5 - j - 1 := by omega
    rw [hcount, ← Nat.add_assoc, hidx]
    exact htail
  · rw [List.range_succ, List.map_append, ← hboard.community, ← hidx]
    rfl
  · intro i hi
    rcases Nat.lt_succ_iff_lt_or_eq.mp hi with hlt | rfl
    · exact hboard.relays i hlt
    · rw [hidx]
      exact hrelay
  · intro hl i hi
    rcases Nat.lt_succ_iff_lt_or_eq.mp hi with hlt | rfl
    · exact hboard.cards hl i hlt
    · rw [hidx]
      exact hcard hl

theorem NodeInv.stripCard {cardIdx : ℕ} {v : V} {rest : List ℕ} (h : NodeInv o t s r)
    (he : o.isEmpty o.empty = true) (hcap : 2 * t.size + 5 ≤ 52) (hs : s < t.size)
    (hph : r.phase = .stripping cardIdx v rest) :
    NodeInv o t s (r.stripCard o (t.setup s) cardIdx v rest) := by
  obtain ⟨hrev, rfl⟩ := h.at_phase hph
  obtain ⟨j, hj, hleft, hboard⟩ := h.board
  rw [Node.left, hph] at hleft
  have hstrip : o.dec (t.setup s).modKey (t.strippedBy o (List.range s) cardIdx) =
      t.strippedBy o (List.range (s + 1)) cardIdx := by
    rw [List.range_succ]
    exact (t.strippedBy_concat o _ _ _).symm
  simp only [Node.stripCard, hstrip]
  have hstored := stored_put (.communityRelay cardIdx s) h.stored rfl
  have hkeep := keeps_put r (communityRelayKey cardIdx s) (t.strippedBy o (List.range (s + 1)) cardIdx)
  have hown := hosts_put r (.communityRelay cardIdx s) (t.strippedBy o (List.range (s + 1)) cardIdx)
  split_ifs with hl
  · have hlast : s + 1 = t.size := by
      have : s = t.size - 1 := hl
      omega
    rw [hlast] at hstored hkeep hown ⊢
    -- the relay is hosted, and then the plain card
    let r₁ : Node V :=
      { r with
        store := r.store.put (communityRelayKey cardIdx s) (t.strippedBy o (List.range t.size) cardIdx) }
    have hkeep₁ : Keeps r r₁ := hkeep r.phase
    have hkeep₂ := keeps_put r₁ (communityCardKey cardIdx) (t.strippedBy o (List.range t.size) cardIdx)
      r.phase
    exact NodeInv.onBoard he hcap (stored_put (.communityCard cardIdx) hstored rfl)
      ((hrev.keeps hkeep₁ rfl rfl).keeps hkeep₂ rfl rfl) hj hleft ((hboard.keeps hkeep₁).keeps hkeep₂)
      (hkeep₂.hosts (hown r.phase)) fun _ => hosts_put r₁ (.communityCard cardIdx) _ r.phase
  · refine ⟨hstored, ⟨hrev.keeps (hkeep _) rfl rfl, ?_, hown _⟩, j, hj, hleft, hboard.keeps (hkeep _)⟩
    intro hlast
    exact hl (show s = t.size - 1 by omega)

/-- Every step keeps a node on its way, if polls return what the keys are hosted with. -/
theorem NodeInv.move {read : ℕ → Key → Option V} (h : NodeInv o t s r) (hn : 2 ≤ t.size)
    (hcap : 2 * t.size + 5 ≤ 52) (hs : s < t.size) (he : o.isEmpty o.empty = true)
    (hgob : ∀ d, o.decodeDeck (o.encodeDeck d) = some d)
    (hread : ∀ q name v, read q name.key = some v → t.value o name = some v)
    (hm : Node.Move o (t.setup s) read r r') : NodeInv o t s r' := by
  cases hm with
  | tooFew hph _ hfew => exact absurd hfew (not_lt.mpr hn)
  | openDeck hph htodo h0 =>
    obtain ⟨k, hk, hk', _⟩ := h.at_phase hph
    obtain ⟨_, hrest, hcall, _⟩ := hand_drop hk (hk'.symm.trans htodo)
    obtain rfl : k = 0 := hcall.mp rfl
    refine h.early (by rw [hph]; rfl) rfl (by rw [htodo]; rfl) rfl id h.stored ⟨hrest, ?_⟩
    rw [show s = 0 from h0]
    rfl
  | awaitStep hph htodo h0 =>
    obtain ⟨k, hk, hk', _⟩ := h.at_phase hph
    obtain ⟨_, hrest, hcall, _⟩ := hand_drop hk (hk'.symm.trans htodo)
    obtain rfl : k = 0 := hcall.mp rfl
    exact h.early (by rw [hph]; rfl) rfl (by rw [htodo]; rfl) rfl id h.stored ⟨hrest, h0⟩
  | openHoles hph htodo =>
    obtain ⟨k, hk, hk', hshuffled, _⟩ := h.at_phase hph
    obtain ⟨_, hrest, _, hcall⟩ := hand_drop hk (hk'.symm.trans htodo)
    obtain rfl : k = 1 := hcall.mp rfl
    have hsh := hshuffled le_rfl
    refine h.early (by rw [hph]; rfl) rfl (by rw [htodo]; rfl) rfl id h.stored
      ⟨hrest, hsh.keeps ⟨id, rfl, rfl⟩, by simp [Table.setup], ?_⟩
    intro slot st hst
    rw [List.getElem?_map, Option.map_eq_some_iff] at hst
    obtain ⟨i, hi, rfl⟩ := hst
    obtain ⟨hlt, rfl⟩ := List.getElem?_eq_some_iff.mp hi
    rw [List.getElem_range]
    exact slotInv_dealHoleSlot hn hcap hs hsh.deck (by simpa [Table.setup] using hlt) _
  | openReveal hph htodo hc1 hc2 =>
    obtain ⟨k, hk, hk', hshuffled, hdealt⟩ := h.at_phase hph
    obtain ⟨hk5, hrest, hcall1, hcall2⟩ := hand_drop hk (hk'.symm.trans htodo)
    have hk2 : 2 ≤ k := by
      have h0 : k ≠ 0 := fun h0 => hc1 (hcall1.mpr h0)
      have h1 : k ≠ 1 := fun h1 => hc2 (hcall2.mpr h1)
      omega
    obtain ⟨j, hj, hleft, hboard⟩ := h.board
    refine NodeInv.reveal hcap h.stored ⟨(hshuffled (by omega)).keeps ⟨id, rfl, rfl⟩,
      (hdealt hk2).keeps ⟨id, rfl, rfl⟩ rfl, k + 1, by omega, hk5, hrest⟩ hj ?_
      (hboard.keeps ⟨id, rfl, rfl⟩)
    rw [Node.left, hph, htodo] at hleft
    exact hleft
  | gotStep hph hr hdec =>
    obtain ⟨htodo, h0⟩ := h.at_phase hph
    have hv := Option.some.inj (hread _ (.shuffleStep _) _ hr)
    rw [← hv, hgob] at hdec
    refine h.early (by rw [hph]; rfl) rfl rfl rfl id h.stored ⟨htodo, ?_⟩
    rw [← Option.some.inj hdec]
    show t.deckAt o (s - 1 + 1) = t.deckAt o s
    rw [Nat.sub_add_cancel (Nat.pos_of_ne_zero h0)]
  | badStep hph hr hdec =>
    have hv := Option.some.inj (hread _ (.shuffleStep _) _ hr)
    rw [← hv, hgob] at hdec
    cases hdec
  | shuffle hph => exact h.shuffle hs hph
  | gotFinal hph hr hdec =>
    obtain ⟨htodo, _, hown⟩ := h.at_phase hph
    have hv := Option.some.inj (hread _ (.shuffleStep _) _ hr)
    rw [← hv, hgob] at hdec
    refine h.early (by rw [hph]; rfl) rfl rfl rfl id h.stored
      ⟨1, by decide, htodo, fun _ => ⟨hown, ?_⟩, by omega⟩
    rw [← Option.some.inj hdec]
    show t.deckAt o (t.size - 1 + 1) = t.deckAt o t.size
    rw [Nat.sub_add_cancel (by omega)]
  | badFinal hph hr hdec =>
    have hv := Option.some.inj (hread _ (.shuffleStep _) _ hr)
    rw [← hv, hgob] at hdec
    cases hdec
  | gotHole hph hslot hr => exact h.gotHole hph hslot (hread _ (.holeRelay _ _) _ hr)
  | stripSlot hph hslot => exact h.stripSlot hs hph hslot
  | holesDone hph hret _ =>
    obtain ⟨htodo, hshuffled, hlen, hslots⟩ := h.at_phase hph
    refine h.early (by rw [hph]; rfl) rfl rfl rfl id h.stored
      ⟨2, by decide, htodo, fun _ => hshuffled.keeps ⟨id, rfl, rfl⟩, fun _ slot hslot => ?_⟩
    obtain ⟨st, hst⟩ : ∃ st, _ = some st :=
      ⟨_, List.getElem?_eq_getElem (by rw [hlen]; exact hslot)⟩
    have hreturned := List.all_eq_true.mp hret st (List.mem_of_getElem? hst)
    cases st with
    | returned err => exact (hslots slot _ hst).2.keeps ⟨id, rfl, rfl⟩ fun _ => rfl
    | polling q => cases hreturned
    | layered v => cases hreturned
  | holesFailed hph herr =>
    obtain ⟨_, _, _, hslots⟩ := h.at_phase hph
    obtain ⟨l₁, st, l₂, hl, _, hst, _⟩ := List.filterMap_eq_cons_iff.mp herr
    obtain ⟨i, hi⟩ := List.mem_iff_getElem?.mp (hl ▸ List.mem_append_right l₁ (List.mem_cons_self ..))
    cases st with
    | returned err =>
      obtain ⟨rfl, _⟩ := hslots i _ hi
      cases hst
    | polling q => cases hst
    | layered v => cases hst
  | gotRelay hph hr =>
    obtain ⟨hrev, h0⟩ := h.at_phase hph
    obtain ⟨j, hj, hleft, hboard⟩ := h.board
    have hv := Option.some.inj (hread _ (.communityRelay _ _) _ hr)
    refine ⟨h.stored, ⟨hrev.keeps ⟨id, rfl, rfl⟩ rfl rfl, ?_⟩, j, hj, ?_, hboard.keeps ⟨id, rfl, rfl⟩⟩
    · rw [← hv]
      show t.strippedBy o (List.range (s - 1 + 1)) _ = _
      rw [Nat.sub_add_cancel (Nat.pos_of_ne_zero h0)]
    · rw [Node.left, hph] at hleft
      exact hleft
  | stripCard hph => exact h.stripCard he hcap hs hph
  | gotCard hph hr =>
    obtain ⟨hrev, hlast, hrelay⟩ := h.at_phase hph
    obtain ⟨j, hj, hleft, hboard⟩ := h.board
    obtain rfl := Option.some.inj (hread _ (.communityCard _) _ hr)
    rw [Node.left, hph] at hleft
    exact NodeInv.onBoard he hcap h.stored hrev hj hleft hboard hrelay fun hl => absurd hl hlast

theorem nodeInv_start (s : ℕ) : NodeInv o t s (Net.start o s) := by
  refine ⟨?_, ⟨0, by decide, rfl, by omega, by omega⟩, 0, by decide, ?_, rfl, ?_, ?_⟩
  · intro name v hget
    cases hget
  · simp [Node.left, Net.start, Phase.cards, hand, Call.cards, List.range', Setup.communityBase,
      Table.setup]
  · intro i hi
    omega
  · intro _ i hi
    omega

theorem NodeInv.reaches {net : Net V} (hn : 2 ≤ t.size) (hcap : 2 * t.size + 5 ≤ 52)
    (he : o.isEmpty o.empty = true) (hgob : ∀ d, o.decodeDeck (o.encodeDeck d) = some d)
    (h : Reaches o t (Net.start o) net) (s : ℕ) : NodeInv o t s (net s) := by
  induction h generalizing s with
  | refl => exact nodeInv_start s
  | tail _ hstep ih =>
    cases hstep with
    | @node q i r hq hrun =>
      by_cases hs : s = q
      · subst hs
        rw [Function.update_self]
        exact (ih s).move hn hcap hq he hgob (fun q name v hv => (ih q).stored name v hv)
          (Node.step_move hrun)
      · rw [Function.update_of_ne hs]
        exact ih s

end Invariant

end P2Poker.Peer
