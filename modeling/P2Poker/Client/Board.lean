import P2Poker.Client.Events
import P2Poker.Peer.Progress

/-!
# Board updates (internal/peer/community.go, setCommunity)

A slot of the board is written once. Each write sends the filled slots up to the
first gap, under the names the client's server walks through.
-/

namespace P2Poker.Client
open P2Poker.Lib P2Poker.Crypto P2Poker.Peer

/- The loop over the snapshot, up to the first empty slot. -/
def boardFrom : List Bytes → ℕ → StringMap
  | [], _ => []
  | c :: rest, i => if c = [] then [] else (cardKey i, c) :: boardFrom rest (i + 1)

def boardCards (snapshot : List Bytes) : StringMap := boardFrom snapshot 1

/-- A call of `setCommunity`, and who the event is from. -/
structure BoardCall where
  emitter : Emitter
  cardIdx : ℕ
  card : Bytes

section
variable (prime : ℕ) (gob : Codec (List Bytes)) (u : Setup Deck.Key)

def boardMessage (call : BoardCall) (filled : ℕ) : Bytes :=
  ascii "[" ++ call.emitter.id ++ ascii "] community card revealed: " ++ call.card ++ ascii " (slot " ++
    decimal (call.cardIdx - u.communityBase + 1) ++ ascii ", total " ++ decimal filled ++ ascii ")"

def BoardCall.apply (call : BoardCall) (r : Node Bytes) : Node Bytes :=
  r.setCommunity (wire prime gob) u call.cardIdx call.card

/-- What the call emits: a slot that is taken is left alone, without an event. -/
def BoardCall.events (call : BoardCall) (r : Node Bytes) : List BusEvent :=
  if r.community.getD (call.cardIdx - u.communityBase) [] = [] then
    let cards := boardCards (call.apply prime gob u r).community
    [call.emitter.emitCards .community (ascii "community") (boardMessage u call cards.length) cards]
  else []

def boardAfter (r : Node Bytes) (calls : List BoardCall) : Node Bytes :=
  calls.foldl (fun r call => call.apply prime gob u r) r

def boardFeed : Node Bytes → List BoardCall → List BusEvent
  | _, [] => []
  | r, call :: rest => call.events prime gob u r ++ boardFeed (call.apply prime gob u r) rest

end

/-- The filled slots before the first gap. -/
def revealed (board : List Bytes) : List Bytes := board.takeWhile fun c => c ≠ []

@[simp] theorem revealed_gap (rest : List Bytes) : revealed ([] :: rest) = [] := by
  simp [revealed]

theorem revealed_cons {c : Bytes} (hc : c ≠ []) (rest : List Bytes) :
    revealed (c :: rest) = c :: revealed rest := by
  simp [revealed, hc]

/-- The longest prefix of the board without an empty slot. -/
def RevealedPrefix (board l : List Bytes) : Prop :=
  l <+: board ∧ (∀ c ∈ l, c ≠ []) ∧ ∀ l', l' <+: board → (∀ c ∈ l', c ≠ []) → l' <+: l

theorem revealed_longest (board : List Bytes) : RevealedPrefix board (revealed board) := by
  refine ⟨List.takeWhile_prefix _, ?_, ?_⟩
  · intro c hc
    have hfilled := List.mem_takeWhile_imp hc
    simpa using hfilled
  · intro l' hl' hfilled
    induction board generalizing l' with
    | nil =>
      rw [List.prefix_nil.mp hl']
      exact List.nil_prefix
    | cons c rest ih =>
      cases l' with
      | nil => exact List.nil_prefix
      | cons c' rest' =>
        obtain ⟨rfl, hrest⟩ := List.cons_prefix_cons.mp hl'
        rw [revealed_cons (hfilled c' (List.mem_cons_self ..)), List.cons_prefix_cons]
        exact ⟨rfl, ih rest' hrest fun x hx => hfilled x (List.mem_cons_of_mem _ hx)⟩

theorem revealed_prefix_of_kept {board board' : List Bytes}
    (h : ∀ slot, board.getD slot [] ≠ [] → board'.getD slot [] = board.getD slot []) :
    revealed board <+: revealed board' := by
  induction board generalizing board' with
  | nil => exact List.nil_prefix
  | cons c rest ih =>
    by_cases hc : c = []
    · rw [hc, revealed_gap]
      exact List.nil_prefix
    · have hfirst := h 0 hc
      cases board' with
      | nil => exact absurd hfirst.symm hc
      | cons c' rest' =>
        obtain rfl : c' = c := hfirst
        rw [revealed_cons hc, revealed_cons hc, List.cons_prefix_cons]
        exact ⟨rfl, ih fun slot hslot => h (slot + 1) hslot⟩

/-! ### What the map holds -/

theorem boardFrom_lookup (board : List Bytes) (i j : ℕ) :
    (boardFrom board i).lookup (cardKey (i + j)) = (revealed board)[j]? := by
  induction board generalizing i j with
  | nil => rfl
  | cons c rest ih =>
    rw [boardFrom]
    split_ifs with hc
    · rw [hc, revealed_gap]
      rfl
    · rw [revealed_cons hc, List.lookup_cons]
      cases j with
      | zero => simp
      | succ j =>
        have hkey : (cardKey (i + (j + 1)) == cardKey i) = false := by
          rw [beq_eq_false_iff_ne]
          intro h
          have hij := cardKey_injective h
          omega
        have hrest := ih (i + 1) j
        rw [Nat.add_assoc, Nat.add_comm 1 j] at hrest
        rw [hkey, List.getElem?_cons_succ]
        exact hrest

theorem boardFrom_length (board : List Bytes) (i : ℕ) :
    (boardFrom board i).length = (revealed board).length := by
  induction board generalizing i with
  | nil => rfl
  | cons c rest ih =>
    rw [boardFrom]
    split_ifs with hc
    · rw [hc, revealed_gap]
      rfl
    · rw [revealed_cons hc, List.length_cons, List.length_cons, ih]

theorem orderedCardList_boardCards (board : List Bytes) : orderedCardList (boardCards board) = revealed board :=
  orderedFrom_eq (boardFrom_length board 1).ge (boardFrom_lookup board 1)

/-! ### Writes -/

theorem getD_grown (board : List Bytes) (n k : ℕ) :
    (board ++ List.replicate n []).getD k [] = board.getD k [] := by
  rw [List.getD_eq_getElem?_getD, List.getD_eq_getElem?_getD, List.getElem?_append]
  split_ifs with hk
  · rfl
  · rw [List.getElem?_eq_none (Nat.le_of_not_lt hk), List.getElem?_replicate]
    split_ifs <;> rfl

theorem getD_written {board : List Bytes} {boardIdx : ℕ} (h : boardIdx < board.length) (card : Bytes) (k : ℕ) :
    (board.set boardIdx card).getD k [] = if k = boardIdx then card else board.getD k [] := by
  rw [List.getD_eq_getElem?_getD, List.getElem?_set]
  split_ifs with hk hk' hk'
  · rfl
  · exact absurd hk.symm hk'
  · exact absurd hk'.symm hk
  · rw [List.getD_eq_getElem?_getD]

section
variable (prime : ℕ) (gob : Codec (List Bytes)) (u : Setup Deck.Key)

/-- A write fills its slot if that is empty, and leaves the other slots alone. -/
theorem slot_apply (call : BoardCall) (r : Node Bytes) (slot : ℕ) :
    (call.apply prime gob u r).community.getD slot [] =
      if slot = call.cardIdx - u.communityBase ∧ r.community.getD slot [] = [] then call.card
      else r.community.getD slot [] := by
  simp only [BoardCall.apply, Node.setCommunity, wire, List.isEmpty_iff, getD_grown]
  by_cases hempty : r.community.getD (call.cardIdx - u.communityBase) [] = []
  · rw [if_pos hempty, getD_written (by rw [List.length_append, List.length_replicate]; omega), getD_grown]
    by_cases hslot : slot = call.cardIdx - u.communityBase
    · rw [if_pos hslot, if_pos ⟨hslot, by rw [hslot]; exact hempty⟩]
    · rw [if_neg hslot, if_neg fun h => hslot h.1]
  · rw [if_neg hempty, getD_grown, if_neg]
    rintro ⟨rfl, h⟩
    exact hempty h

theorem slot_kept (call : BoardCall) {r : Node Bytes} {slot : ℕ} (h : r.community.getD slot [] ≠ []) :
    (call.apply prime gob u r).community.getD slot [] = r.community.getD slot [] := by
  rw [slot_apply, if_neg fun hw => h hw.2]

variable {prime gob u}

theorem boardAfter_kept (calls : List BoardCall) {r : Node Bytes} {slot : ℕ}
    (h : r.community.getD slot [] ≠ []) :
    (boardAfter prime gob u r calls).community.getD slot [] = r.community.getD slot [] := by
  induction calls generalizing r with
  | nil => rfl
  | cons call rest ih =>
    have hkept := slot_kept prime gob u call h
    rw [boardAfter, List.foldl_cons]
    rw [← hkept] at h ⊢
    exact ih h

/- The first card written to an empty slot stays. -/
theorem boardAfter_first {calls : List BoardCall}
    (hcalls : ∀ call ∈ calls, u.communityBase ≤ call.cardIdx ∧ call.card ≠ []) {r : Node Bytes} {slot : ℕ}
    (h : r.community.getD slot [] = []) :
    (boardAfter prime gob u r calls).community.getD slot [] =
      ((calls.find? fun call => call.cardIdx = u.communityBase + slot).map BoardCall.card).getD [] := by
  induction calls generalizing r with
  | nil => exact h
  | cons call rest ih =>
    obtain ⟨hbase, hcard⟩ := hcalls call (List.mem_cons_self ..)
    have hwrite := slot_apply prime gob u call r slot
    rw [boardAfter, List.foldl_cons]
    by_cases hslot : call.cardIdx = u.communityBase + slot
    · rw [if_pos ⟨by omega, h⟩] at hwrite
      rw [List.find?_cons_of_pos (by simpa using hslot)]
      exact (boardAfter_kept rest (by rw [hwrite]; exact hcard)).trans hwrite
    · rw [if_neg fun hw => hslot (by omega)] at hwrite
      rw [List.find?_cons_of_neg (by simpa using hslot)]
      exact ih (fun c hc => hcalls c (List.mem_cons_of_mem _ hc)) (hwrite.trans h)

/-! ### The feed -/

theorem BoardCall.read_event {call : BoardCall} {r : Node Bytes} {ev : BusEvent}
    (h : ev ∈ call.events prime gob u r) :
    orderedCardList ev.cards = revealed (call.apply prime gob u r).community := by
  unfold BoardCall.events at h
  split_ifs at h
  · rw [List.mem_singleton.mp h]
    exact orderedCardList_boardCards _
  · cases h

theorem revealed_boardAfter (prime : ℕ) (gob : Codec (List Bytes)) (u : Setup Deck.Key)
    (r : Node Bytes) (calls : List BoardCall) :
    revealed r.community <+: revealed (boardAfter prime gob u r calls).community :=
  revealed_prefix_of_kept fun _ hslot => boardAfter_kept calls hslot

/- Every event shows at least what the board showed before the calls. -/
theorem revealed_boardFeed {r : Node Bytes} {calls : List BoardCall} {ev : BusEvent}
    (h : ev ∈ boardFeed prime gob u r calls) : revealed r.community <+: orderedCardList ev.cards := by
  induction calls generalizing r with
  | nil => cases h
  | cons call rest ih =>
    have hgrow := revealed_boardAfter prime gob u r [call]
    rcases List.mem_append.mp h with h | h
    · rw [call.read_event h]
      exact hgrow
    · exact hgrow.trans (ih h)

theorem boardFeed_extends (r : Node Bytes) (calls : List BoardCall) :
    (boardFeed prime gob u r calls).Pairwise fun ev ev' =>
      orderedCardList ev.cards <+: orderedCardList ev'.cards := by
  induction calls generalizing r with
  | nil => exact List.Pairwise.nil
  | cons call rest ih =>
    rw [boardFeed, List.pairwise_append]
    refine ⟨?_, ih _, ?_⟩
    · unfold BoardCall.events
      split_ifs
      · exact List.pairwise_singleton _ _
      · exact List.Pairwise.nil
    · intro ev hev ev' hev'
      rw [call.read_event hev]
      exact revealed_boardFeed hev'

/-- The board is written once and its feed is cumulative. -/
theorem board_write_once_cumulative (r : Node Bytes) (calls : List BoardCall)
    (hcalls : ∀ call ∈ calls, u.communityBase ≤ call.cardIdx ∧ call.card ≠ []) :
    (∀ slot, (boardAfter prime gob u r calls).community.getD slot [] =
      if r.community.getD slot [] ≠ [] then r.community.getD slot []
      else ((calls.find? fun call => call.cardIdx = u.communityBase + slot).map BoardCall.card).getD []) ∧
    (∀ before call after, calls = before ++ call :: after →
      ∀ ev ∈ call.events prime gob u (boardAfter prime gob u r before),
        RevealedPrefix (boardAfter prime gob u r (before ++ [call])).community (orderedCardList ev.cards)) ∧
    (boardFeed prime gob u r calls).Pairwise fun ev ev' =>
      orderedCardList ev.cards <+: orderedCardList ev'.cards := by
  refine ⟨?_, ?_, boardFeed_extends r calls⟩
  · intro slot
    split_ifs with hslot
    · exact boardAfter_kept calls hslot
    · exact boardAfter_first hcalls (not_not.mp hslot)
  · intro before call after _ ev hev
    rw [call.read_event hev, boardAfter, List.foldl_append]
    exact revealed_longest _

end

/- The second slot of a two-seat board is filled before the first; the first is written twice. -/
def gapBoard : List BoardCall :=
  [⟨⟨[], [], 0⟩, 5, decimal 7⟩, ⟨⟨[], [], 0⟩, 4, decimal 3⟩, ⟨⟨[], [], 0⟩, 4, decimal 9⟩]

def twoSeats : Setup Deck.Key := ⟨2, 0, ⟨1, 1⟩, fun i => ⟨0, i.succ_pos⟩⟩

theorem gapBoard_feed : ((boardFeed PRIME deckWire.codec twoSeats ⟨.new, [], [], [], [], .idle, []⟩ gapBoard).map
      fun ev => orderedCardList ev.cards) = [[], [decimal 3, decimal 7]] ∧
    (boardFeed PRIME deckWire.codec twoSeats ⟨.new, [], [], [], [], .idle, []⟩ gapBoard).Pairwise fun ev ev' =>
      orderedCardList ev.cards <+: orderedCardList ev'.cards :=
  ⟨by decide +kernel, (board_write_once_cumulative _ gapBoard (by decide)).2.2⟩

end P2Poker.Client
