import P2Poker.Peer.Progress

/-!
# One call after another

Between the calls of the deal the nodes bet, so a node may be in a call before
others have begun it. The keys of a call rank below those of the calls after it:
once all nodes are done with the calls before, one of those that are in the call
can go on.
-/

namespace P2Poker.Peer
open P2Poker.Lib P2Poker.Crypto P2Poker.Ephemeral

section Calls
variable {K V : Type} {o : Values K V} {t : Table K} {u : Setup K} {s c : ℕ} {r r' : Node V}
  {read : ℕ → Key → Option V}

/-- The node is done with the first `c` calls. -/
def Node.Past (r : Node V) (c : ℕ) : Prop :=
  r.phase = .idle ∧ r.todo.length + c ≤ 5 ∨ r.todo.length + c < 5

/- The number of cards that the first calls put on the board. -/
def boardAfter (c : ℕ) : ℕ := if c ≤ 2 then 0 else c

/- Above the ranks of the keys of the first calls. -/
def Table.rankAfter (t : Table K) : ℕ → ℕ
  | 0 => 0
  | 1 => t.size
  | c => t.size * 2 + boardAfter c * (t.size + 1)

theorem boardAfter_mono {c d : ℕ} (h : c ≤ d) : boardAfter c ≤ boardAfter d := by
  unfold boardAfter
  split_ifs <;> omega

/-! ### The call a node is in -/

/-- The cards a node reveals belong to the call before those to come. -/
structure InOrder (u : Setup K) (r : Node V) : Prop where
  todo : r.todo <:+ hand
  cards : r.phase.cards = [] ∨ ∃ call, call :: r.todo <:+ hand ∧ r.phase.cards <:+ call.cards u

theorem reveal_cards (r : Node V) (cards : List ℕ) :
    (r.reveal u cards).phase.cards = [] ∨ (r.reveal u cards).phase.cards = cards := by
  unfold Node.reveal
  split
  · exact .inl rfl
  · split
    · exact .inl rfl
    · split_ifs
      · exact .inr rfl
      · exact .inr rfl

theorem InOrder.reveal {call : Call} {cards : List ℕ} (hcall : call :: r.todo <:+ hand)
    (hcards : cards <:+ call.cards u) : InOrder u (r.reveal u cards) := by
  have htodo : (r.reveal u cards).todo = r.todo := Node.reveal_todo ..
  refine ⟨?_, ?_⟩
  · rw [htodo]
    exact (List.suffix_cons ..).trans hcall
  · rw [htodo]
    rcases reveal_cards (u := u) r cards with hnil | hsame
    · exact .inl hnil
    · exact .inr ⟨call, hcall, by rwa [hsame]⟩

/- The head of the cards is on the board. -/
theorem InOrder.shown {cardIdx : ℕ} {rest : List ℕ} (h : InOrder u r) (hcards : r.phase.cards = cardIdx :: rest)
    (x : Node V) (htodo : x.todo = r.todo) (card : V) :
    InOrder u ((x.setCommunity o u cardIdx card).reveal u rest) := by
  rcases h.cards with hnil | ⟨call, hcall, hsuffix⟩
  · rw [hcards] at hnil
    cases hnil
  · rw [hcards] at hsuffix
    have htodo' : call :: (x.setCommunity o u cardIdx card).todo <:+ hand := by
      rw [Node.setCommunity_todo, htodo]
      exact hcall
    exact .reveal htodo' ((List.suffix_cons ..).trans hsuffix)

theorem InOrder.move (h : InOrder u r) (hm : Node.Move o u read r r') : InOrder u r' := by
  have htail : ∀ {call todo}, r.todo = call :: todo → todo <:+ hand :=
    fun heq => (List.suffix_cons ..).trans (heq ▸ h.todo)
  cases hm with
  | tooFew _ htodo => exact ⟨htail htodo, .inl rfl⟩
  | openDeck _ htodo => exact ⟨htail htodo, .inl rfl⟩
  | awaitStep _ htodo => exact ⟨htail htodo, .inl rfl⟩
  | openHoles _ htodo => exact ⟨htail htodo, .inl rfl⟩
  | @openReveal call todo _ htodo =>
    exact .reveal (r := { r with todo := todo }) (htodo ▸ h.todo) (List.suffix_refl _)
  | gotStep => exact ⟨h.todo, .inl rfl⟩
  | badStep => exact ⟨h.todo, .inl rfl⟩
  | shuffle =>
    simp only [Node.shuffle]
    split_ifs <;> exact ⟨h.todo, .inl rfl⟩
  | gotFinal => exact ⟨h.todo, .inl rfl⟩
  | badFinal => exact ⟨h.todo, .inl rfl⟩
  | gotHole => exact ⟨h.todo, .inl rfl⟩
  | stripSlot =>
    refine ⟨?_, .inl rfl⟩
    rw [Node.stripSlot_todo]
    exact h.todo
  | holesDone => exact ⟨h.todo, .inl rfl⟩
  | holesFailed => exact ⟨h.todo, .inl rfl⟩
  | gotRelay hph =>
    refine ⟨h.todo, ?_⟩
    have hcards := h.cards
    rwa [hph] at hcards
  | stripCard hph =>
    simp only [Node.stripCard]
    split_ifs
    · refine h.shown (by rw [hph]; rfl) _ ?_ _
      rfl
    · refine ⟨h.todo, ?_⟩
      have hcards := h.cards
      rwa [hph] at hcards
  | gotCard hph => exact h.shown (by rw [hph]; rfl) _ rfl _

theorem InOrder.reaches {net : Net V} (h : Reaches o t (Net.start o) net) (q : ℕ) :
    InOrder (t.setup q) (net q) := by
  induction h with
  | refl => exact ⟨List.suffix_refl _, .inl rfl⟩
  | tail _ hstep ih =>
    obtain ⟨hs, hrun⟩ := hstep
    rename_i net s i r
    rcases eq_or_ne q s with rfl | hne
    · rw [Function.update_self]
      exact ih.move (Node.step_move hrun)
    · rwa [Function.update_of_ne hne]

/- The calls to come, and the cards of the one before them. -/
theorem call_of_suffix {call : Call} {todo : List Call} (h : call :: todo <:+ hand) :
    ∃ k < 5, todo = hand.drop (k + 1) ∧
      call.cards u = List.range' (u.communityBase + boardAfter k) (boardAfter (k + 1) - boardAfter k) := by
  have hlen := h.length_le
  have hdrop := List.suffix_iff_eq_drop.mp h
  simp only [List.length_cons, hand, List.length_nil] at hlen hdrop
  obtain ⟨k, hk⟩ : ∃ k, 0 + 1 + 1 + 1 + 1 + 1 - (todo.length + 1) = k := ⟨_, rfl⟩
  have hk5 : k < 5 := by omega
  rw [hk] at hdrop
  refine ⟨k, hk5, ?_, ?_⟩
  · have htail := congrArg List.tail hdrop
    rw [List.tail_cons, List.tail_drop] at htail
    exact htail
  · interval_cases k <;> (obtain rfl := (List.cons.inj hdrop).1; rfl)

theorem board_length {k : ℕ} (hk : k ≤ 5) : ((hand.drop k).flatMap (Call.cards u)).length = 5 - boardAfter k := by
  interval_cases k <;> rfl

/-- What a node that is done with the first calls has put on its board. -/
theorem NodeInv.revealed_of_past (h : NodeInv o t s r) (hord : InOrder (t.setup s) r) (hpast : r.Past c) :
    ∃ j, boardAfter c ≤ j ∧ Revealed o t s r j := by
  obtain ⟨j, hj, hleft, hboard⟩ := h.board
  refine ⟨j, ?_, hboard⟩
  have hlen := congrArg List.length hleft
  rw [Node.left, List.length_append, List.length_range'] at hlen
  have htodo := List.suffix_iff_eq_drop.mp hord.todo
  have hle := hord.todo.length_le
  rw [show hand.length = 5 from rfl] at htodo hle
  by_cases hnil : r.phase.cards = []
  · -- no card is worked on
    rw [hnil, List.length_nil, htodo, board_length (by omega)] at hlen
    have hmono := boardAfter_mono (c := c) (d := 5 - r.todo.length) (by rcases hpast with h | h <;> omega)
    have hmost := boardAfter_mono (c := 5 - r.todo.length) (d := 5) (by omega)
    have hfive : boardAfter 5 = 5 := rfl
    omega
  · -- the node is in a call after the first ones
    obtain ⟨call, hcall, hsuffix⟩ := hord.cards.resolve_left hnil
    obtain ⟨k, hk, hdrop, hcards⟩ := call_of_suffix (u := t.setup s) hcall
    have hshort := hsuffix.length_le
    rw [hcards, List.length_range'] at hshort
    rw [hdrop, board_length (by omega)] at hlen
    have hlast : r.todo.length = 4 - k := by
      rw [hdrop, List.length_drop, show hand.length = 5 from rfl]
      omega
    have hck : c ≤ k := by
      rcases hpast with ⟨hidle, _⟩ | hlt
      · exact absurd (by rw [hidle]; rfl) hnil
      · omega
    have hmono := boardAfter_mono hck
    have hnext := boardAfter_mono (c := k) (d := k + 1) (by omega)
    have hmost := boardAfter_mono (c := k + 1) (d := 5) (by omega)
    have hfive : boardAfter 5 = 5 := rfl
    omega

/-! ### What the first calls host -/

theorem Table.board_lt_rankAfter {j i : ℕ} (hj : j < boardAfter c) (hi : i ≤ t.size) :
    t.size * 2 + j * (t.size + 1) + i < t.rankAfter c := by
  have hmul : (j + 1) * (t.size + 1) ≤ boardAfter c * (t.size + 1) := Nat.mul_le_mul_right _ hj
  rw [Nat.succ_mul] at hmul
  rcases c with _ | _ | c
  · cases hj
  · cases hj
  · simp only [Table.rankAfter]
    omega

theorem Table.lt_boardAfter {j i : ℕ} (h : t.size * 2 + j * (t.size + 1) + i < t.rankAfter c) :
    j < boardAfter c := by
  rcases c with _ | _ | c
  · cases h
  · simp only [Table.rankAfter] at h
    omega
  · simp only [Table.rankAfter] at h
    have hmul : j * (t.size + 1) < boardAfter (c + 1 + 1) * (t.size + 1) := by omega
    exact lt_of_mul_lt_mul_right hmul (Nat.zero_le _)

/- The parts of the deal before the board. -/
theorem NodeInv.dealt_of_past (h : NodeInv o t s r) (hpast : r.Past c) :
    (1 ≤ c → Shuffled o t s r) ∧ (2 ≤ c → Dealt o t s r) := by
  have hdrop : ∀ k, (hand.drop k).length = 5 - k := fun k => List.length_drop
  have hbusy : r.phase ≠ .idle → r.todo.length + c < 5 := fun hne => by
    rcases hpast with ⟨hidle, _⟩ | hlt
    · exact absurd hidle hne
    · exact hlt
  have hrev : Revealing o t s r → (1 ≤ c → Shuffled o t s r) ∧ (2 ≤ c → Dealt o t s r) :=
    fun hrev => ⟨fun _ => hrev.shuffled, fun _ => hrev.dealt⟩
  cases hph : r.phase with
  | idle =>
    obtain ⟨k, hk, htodo, hshuffled, hdealt⟩ := h.at_phase hph
    have hck : c ≤ k := by
      rw [Node.Past, htodo, hdrop] at hpast
      omega
    exact ⟨fun hc => hshuffled (by omega), fun hc => hdealt (by omega)⟩
  | pollStep =>
    have hlt := hbusy (by simp [hph])
    rw [(h.at_phase hph).1, hdrop] at hlt
    exact ⟨fun hc => by omega, fun hc => by omega⟩
  | shuffling d =>
    have hlt := hbusy (by simp [hph])
    rw [(h.at_phase hph).1, hdrop] at hlt
    exact ⟨fun hc => by omega, fun hc => by omega⟩
  | pollFinal =>
    have hlt := hbusy (by simp [hph])
    rw [(h.at_phase hph).1, hdrop] at hlt
    exact ⟨fun hc => by omega, fun hc => by omega⟩
  | holes slots =>
    have hlt := hbusy (by simp [hph])
    obtain ⟨htodo, hshuffled, _⟩ := h.at_phase hph
    rw [htodo, hdrop] at hlt
    exact ⟨fun _ => hshuffled, fun hc => by omega⟩
  | pollRelay cardIdx rest => exact hrev (h.at_phase hph).1
  | stripping cardIdx v rest => exact hrev (h.at_phase hph).1
  | pollCard cardIdx rest => exact hrev (h.at_phase hph).1
  | failed err => exact (h.at_phase hph).elim

theorem NodeInv.hosts_of_past {name : KeyName} (h : NodeInv o t s r) (hord : InOrder (t.setup s) r) (hn : 2 ≤ t.size)
    (hpast : r.Past c) (htask : Task t s name) (hrank : t.rank name < t.rankAfter c) : r.Hosts name := by
  obtain ⟨hshuffled, hdealt⟩ := h.dealt_of_past hpast
  obtain ⟨j, hj, hboard⟩ := h.revealed_of_past hord hpast
  cases htask with
  | shuffleStep =>
    refine (hshuffled ?_).hosted
    by_contra hc
    obtain rfl : c = 0 := by omega
    cases hrank
  | @holeRelay _ slot hq hslot =>
    have hdone := hdealt (by
      by_contra hc
      have hle := (rank_holeRelay hq).1
      interval_cases c
      · cases hrank
      · exact absurd hrank (by simpa [Table.rankAfter] using hle)) slot hslot
    rwa [SlotDone, if_neg (Ne.symm (mem_nonOwnerRing.mp hq).2)] at hdone
  | @communityRelay _ i hq hi =>
    rw [rank_communityRelay] at hrank
    have := Table.lt_boardAfter hrank
    exact hboard.relays i (by omega)
  | @communityCard i hi =>
    rw [rank_communityCard] at hrank
    have := Table.lt_boardAfter hrank
    exact hboard.cards (by omega) i (by omega)

/-! ### One of those in the call goes on -/

/- A card that is worked on belongs to the call that is not over. -/
theorem NodeInv.card_lt {cardIdx : ℕ} {rest : List ℕ} (h : NodeInv o t s r) (hord : InOrder (t.setup s) r)
    (hcards : r.phase.cards = cardIdx :: rest) (hnot : ¬ r.Past (c + 1)) :
    ∃ j < 5, cardIdx = t.size * 2 + j ∧ j < boardAfter (c + 1) := by
  obtain ⟨j, hj, hleft, hboard⟩ := h.board
  rw [Node.left, hcards, List.cons_append] at hleft
  obtain ⟨rfl, hpos, _⟩ := List.range'_eq_cons_iff.mp hleft.symm
  refine ⟨j, by omega, rfl, ?_⟩
  obtain ⟨call, hcall, hsuffix⟩ := hord.cards.resolve_left (by simp [hcards])
  obtain ⟨k, hk, hdrop, hrange⟩ := call_of_suffix (u := t.setup s) hcall
  have hmem : t.size * 2 + j ∈ call.cards (t.setup s) := hsuffix.subset (by simp [hcards])
  rw [hrange, List.mem_range'_1, show (t.setup s).communityBase = t.size * 2 from rfl] at hmem
  have hlast : r.todo.length = 4 - k := by
    rw [hdrop, List.length_drop, show hand.length = 5 from rfl]
    omega
  have hkc : k ≤ c := by
    by_contra hc
    exact hnot (.inr (by omega))
  have hmono := boardAfter_mono (c := k + 1) (d := c + 1) (by omega)
  have hnext := boardAfter_mono (c := k) (d := k + 1) (by omega)
  omega

/-- A node that is in the next call can take a step, or waits for a key of that
call or of one before it. -/
theorem NodeInv.next_call (h : NodeInv o t s r) (hord : InOrder (t.setup s) r) (hn : 2 ≤ t.size) (hs : s < t.size)
    (hc : c < 5) (hpast : r.Past c) (hnot : ¬ r.Past (c + 1)) (read : ℕ → Key → Option V) :
    (∃ i r', r.step o (t.setup s) read i = some r') ∨
      ∃ q name, Task t q name ∧ t.rank name < t.rankAfter (c + 1) ∧ read q name.key = none := by
  have hdrop : ∀ k, (hand.drop k).length = 5 - k := fun k => List.length_drop
  have hbusy : r.phase ≠ .idle → r.todo.length + c < 5 := fun hne => by
    rcases hpast with ⟨hidle, _⟩ | hlt
    · exact absurd hidle hne
    · exact hlt
  cases hph : r.phase with
  | idle =>
    have htodo : r.todo ≠ [] := by
      intro hnil
      refine hnot (.inl ⟨hph, ?_⟩)
      rw [hnil, List.length_nil]
      omega
    obtain ⟨r', hr'⟩ := begin_isSome (o := o) (u := t.setup s) hph htodo
    exact .inl ⟨.begin, r', hr'⟩
  | pollStep =>
    obtain ⟨htodo, h0⟩ := h.at_phase hph
    have hlt := hbusy (by simp [hph])
    rw [htodo, hdrop] at hlt
    obtain rfl : c = 0 := by omega
    cases hread : read (s - 1) (shuffleStepKey (s - 1)) with
    | some data =>
      refine .inl ⟨.pollStep, ?_⟩
      simp only [Node.step, hph, show (t.setup s).seatIdx = s from rfl, hread]
      split <;> exact ⟨_, rfl⟩
    | none => exact .inr ⟨s - 1, .shuffleStep (s - 1), .shuffleStep (by omega), show s - 1 < t.size by omega, hread⟩
  | shuffling d =>
    refine .inl ⟨.shuffle, ?_⟩
    simp only [Node.step, hph]
    exact ⟨_, rfl⟩
  | pollFinal =>
    obtain ⟨htodo, _⟩ := h.at_phase hph
    have hlt := hbusy (by simp [hph])
    rw [htodo, hdrop] at hlt
    obtain rfl : c = 0 := by omega
    cases hread : read (t.size - 1) (shuffleStepKey (t.size - 1)) with
    | some data =>
      refine .inl ⟨.pollFinal, ?_⟩
      simp only [Node.step, hph, show (t.setup s).lastSeat = t.size - 1 from rfl, hread]
      split <;> exact ⟨_, rfl⟩
    | none =>
      exact .inr ⟨t.size - 1, .shuffleStep (t.size - 1), .shuffleStep (by omega),
        show t.size - 1 < t.size by omega, hread⟩
  | holes slots =>
    obtain ⟨htodo, _, hlen, hslots⟩ := h.at_phase hph
    have hlt := hbusy (by simp [hph])
    rw [htodo, hdrop] at hlt
    have hone : c = 1 := by
      by_contra hne
      refine hnot (.inr ?_)
      rw [htodo, hdrop]
      omega
    by_cases hall : slots.all SlotStage.isReturned = true
    · refine .inl ⟨.holesDone, ?_⟩
      simp only [Node.step, hph, hall, if_true]
      split <;> exact ⟨_, rfl⟩
    rw [List.all_eq_true] at hall
    push Not at hall
    obtain ⟨st, hmem, hret⟩ := hall
    obtain ⟨slot, hst⟩ := List.mem_iff_getElem?.mp hmem
    have hinv := hslots slot st hst
    cases st with
    | returned err => exact absurd rfl hret
    | layered v =>
      refine .inl ⟨.stripSlot slot, ?_⟩
      simp only [Node.step, hph, hst]
      exact ⟨_, rfl⟩
    | polling q =>
      cases hread : read q (holeRelayKey slot q) with
      | some data =>
        refine .inl ⟨.pollHole slot, ?_⟩
        simp only [Node.step, hph, hst, hread]
        exact ⟨_, rfl⟩
      | none =>
        have hlt : slot < t.size * 2 := by
          rw [← hlen]
          exact (List.getElem?_eq_some_iff.mp hst).1
        refine .inr ⟨q, .holeRelay slot q, .holeRelay hinv.1 hlt, ?_, hread⟩
        subst hone
        simpa [Table.rankAfter, boardAfter] using (rank_holeRelay hinv.1).2
  | pollRelay cardIdx rest =>
    obtain ⟨_, h0⟩ := h.at_phase hph
    obtain ⟨j, hj, rfl, hlt⟩ := h.card_lt hord (by rw [hph]; rfl) hnot
    cases hread : read (s - 1) (communityRelayKey (t.size * 2 + j) (s - 1)) with
    | some data =>
      refine .inl ⟨.pollRelay, ?_⟩
      simp only [Node.step, hph, show (t.setup s).seatIdx = s from rfl, hread]
      exact ⟨_, rfl⟩
    | none =>
      refine .inr ⟨s - 1, .communityRelay (t.size * 2 + j) (s - 1), .communityRelay (by omega) hj, ?_, hread⟩
      rw [rank_communityRelay]
      exact Table.board_lt_rankAfter hlt (by omega)
  | stripping cardIdx v rest =>
    refine .inl ⟨.stripCard, ?_⟩
    simp only [Node.step, hph]
    exact ⟨_, rfl⟩
  | pollCard cardIdx rest =>
    obtain ⟨j, hj, rfl, hlt⟩ := h.card_lt hord (by rw [hph]; rfl) hnot
    cases hread : read (t.size - 1) (communityCardKey (t.size * 2 + j)) with
    | some data =>
      refine .inl ⟨.pollCard, ?_⟩
      simp only [Node.step, hph, show (t.setup s).lastSeat = t.size - 1 from rfl, hread]
      exact ⟨_, rfl⟩
    | none =>
      refine .inr ⟨t.size - 1, .communityCard (t.size * 2 + j), .communityCard hj, ?_, hread⟩
      rw [rank_communityCard]
      exact Table.board_lt_rankAfter hlt le_rfl
  | failed err => exact (h.at_phase hph).elim

/-- When all nodes are done with the first `c` calls and one is not done with the
next, one that is not done with it can take a step. -/
theorem call_progress {net : Net V} (hn : 2 ≤ t.size) (hc : c < 5) (hinv : ∀ q, NodeInv o t q (net q))
    (hord : ∀ q, InOrder (t.setup q) (net q)) (hpast : ∀ q < t.size, (net q).Past c) {w : ℕ} (hw : w < t.size)
    (hnot : ¬ (net w).Past (c + 1)) :
    ∃ q < t.size, ¬ (net q).Past (c + 1) ∧ ∃ i r', (net q).step o (t.setup q) net.read i = some r' := by
  by_contra hstuck
  have hno : ∀ q < t.size, ¬ (net q).Past (c + 1) → ¬ ∃ i r', (net q).step o (t.setup q) net.read i = some r' :=
    fun q hq hcall hstep => hstuck ⟨q, hq, hcall, hstep⟩
  -- the key of lowest rank that is missing belongs to a seat that can move
  have hhosts : ∀ n q name, Task t q name → t.rank name < t.rankAfter (c + 1) → t.rank name = n →
      (net q).Hosts name := by
    intro n
    induction n using Nat.strongRecOn with
    | ind n ih =>
      intro q name htask hrank hn'
      by_contra hmiss
      have hq := htask.seat_lt hn
      by_cases hcall : (net q).Past (c + 1)
      · exact hmiss ((hinv q).hosts_of_past (hord q) hn hcall htask hrank)
      · rcases (hinv q).advance net.read (some name) hn hq ⟨htask, hmiss⟩ with
          hstep | ⟨q', name', htask', hnone, hlt⟩
        · exact hno q hq hcall hstep
        · have hlow := hlt name rfl
          have hhosted := ih _ (hn' ▸ hlow) q' name' htask' (hlow.trans hrank) rfl
          rw [Node.Hosts, show (net q').store.get name'.key = none from hnone] at hhosted
          cases hhosted
  rcases (hinv w).next_call (hord w) hn hw hc (hpast w hw) hnot net.read with hstep | ⟨q, name, htask, hrank, hnone⟩
  · exact hno w hw hnot hstep
  · have hhosted := hhosts _ q name htask hrank rfl
    rw [Node.Hosts, show (net q).store.get name.key = none from hnone] at hhosted
    cases hhosted

end Calls

end P2Poker.Peer
