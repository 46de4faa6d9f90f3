import P2Poker.Peer.Honest
import P2Poker.Cards.Card

/-!
# The deal comes to its end

A node that is not finished can take a step or waits for a key of another seat.
Every key has a rank, in the order of the hand, and the keys a seat waits for
rank below the ones it has still to host. So the key of lowest rank that is not
hosted belongs to a seat that can move, and no state before the end is stuck.
-/

namespace P2Poker.Peer
open P2Poker.Lib P2Poker.Crypto P2Poker.Ephemeral

def Node.Finished {V : Type} (r : Node V) : Prop := r.phase = .idle ∧ r.todo = []

/-! ### The keys of a hand -/

section Tasks
variable {K V : Type} {o : Values K V} {t : Table K}

/-- The keys a seat hosts in the course of the deal. -/
inductive Task (t : Table K) : ℕ → KeyName → Prop
  | shuffleStep {q : ℕ} : q < t.size → Task t q (.shuffleStep q)
  | holeRelay {q slot : ℕ} : q ∈ t.ring slot → slot < t.size * 2 → Task t q (.holeRelay slot q)
  | communityRelay {q j : ℕ} : q < t.size → j < 5 → Task t q (.communityRelay (t.size * 2 + j) q)
  | communityCard {j : ℕ} : j < 5 → Task t (t.size - 1) (.communityCard (t.size * 2 + j))

def Table.rank (t : Table K) : KeyName → ℕ
  | .shuffleStep q => q
  | .holeRelay slot q => t.size + (t.ring slot).idxOf q
  | .communityRelay cardIdx q => t.size * 2 + (cardIdx - t.size * 2) * (t.size + 1) + q
  | .communityCard cardIdx => t.size * 2 + (cardIdx - t.size * 2) * (t.size + 1) + t.size
  | _ => 0

theorem Task.seat_lt {q : ℕ} {name : KeyName} (hn : 2 ≤ t.size) (h : Task t q name) : q < t.size := by
  cases h with
  | shuffleStep hq => exact hq
  | holeRelay hq _ => exact (mem_nonOwnerRing.mp hq).1
  | communityRelay hq _ => exact hq
  | communityCard _ => omega

/- The relays of the hole slots rank between the shuffle and the board. -/
theorem rank_holeRelay {q slot : ℕ} (hq : q ∈ t.ring slot) :
    t.size ≤ t.rank (.holeRelay slot q) ∧ t.rank (.holeRelay slot q) < t.size * 2 := by
  have hidx := List.idxOf_lt_length_iff.mpr hq
  have hlen : (t.ring slot).length ≤ t.size := by
    simpa [Table.ring, nonOwnerRing] using List.length_filter_le (· != slot / 2) (List.range t.size)
  simp only [Table.rank]
  omega

theorem rank_communityRelay (t : Table K) (j q : ℕ) :
    t.rank (.communityRelay (t.size * 2 + j) q) = t.size * 2 + j * (t.size + 1) + q := by
  simp [Table.rank]

theorem rank_communityCard (t : Table K) (j : ℕ) :
    t.rank (.communityCard (t.size * 2 + j)) = t.size * 2 + j * (t.size + 1) + t.size := by
  simp [Table.rank]

/- A key past the shuffle. -/
theorem Task.size_le_rank {q : ℕ} {name : KeyName} (h : Task t q name) (hne : name ≠ .shuffleStep q) :
    t.size ≤ t.rank name := by
  cases h with
  | shuffleStep _ => exact absurd rfl hne
  | holeRelay hq _ => exact (rank_holeRelay hq).1
  | communityRelay _ _ =>
    rw [rank_communityRelay]
    omega
  | communityCard _ =>
    rw [rank_communityCard]
    omega

/- A seat that is dealt its part of the holes has only the board in front of it. -/
theorem Task.of_dealt {s : ℕ} {name : KeyName} {r : Node V} (h : Task t s name)
    (hshuffled : r.Hosts (.shuffleStep s)) (hdealt : Dealt o t s r) (hnot : ¬ r.Hosts name) :
    ∃ j < 5, name = .communityRelay (t.size * 2 + j) s ∨
      (s = t.size - 1 ∧ name = .communityCard (t.size * 2 + j)) := by
  cases h with
  | shuffleStep _ => exact absurd hshuffled hnot
  | @holeRelay _ slot hq hslot =>
    have hdone := hdealt slot hslot
    rw [SlotDone, if_neg (Ne.symm (mem_nonOwnerRing.mp hq).2)] at hdone
    exact absurd hdone hnot
  | communityRelay _ hj => exact ⟨_, hj, Or.inl rfl⟩
  | communityCard hj => exact ⟨_, hj, Or.inr ⟨rfl, rfl⟩⟩

theorem Revealed.le_of_not_hosts {s i j : ℕ} {name : KeyName} {r : Node V} (h : Revealed o t s r j)
    (hs : s < t.size)
    (hname : name = .communityRelay (t.size * 2 + i) s ∨
      (s = t.size - 1 ∧ name = .communityCard (t.size * 2 + i)))
    (hnot : ¬ r.Hosts name) : j ≤ i := by
  by_contra hlt
  rcases hname with rfl | ⟨hl, rfl⟩
  · exact hnot (h.relays i (by omega))
  · exact hnot (h.cards (by omega) i (by omega))

/- Ranks of the board keys grow with the card. -/
theorem rank_board_mono {s i j : ℕ} {name : KeyName}
    (hname : name = .communityRelay (t.size * 2 + i) s ∨
      (s = t.size - 1 ∧ name = .communityCard (t.size * 2 + i))) (hij : j ≤ i) :
    t.size * 2 + j * (t.size + 1) + s ≤ t.rank name := by
  have hmul : j * (t.size + 1) ≤ i * (t.size + 1) := Nat.mul_le_mul_right _ hij
  rcases hname with rfl | ⟨hl, rfl⟩
  · rw [rank_communityRelay]
    omega
  · rw [rank_communityCard]
    omega

/-! ### A node that can move, or waits -/

theorem begin_isSome {u : Setup K} {r : Node V} (hph : r.phase = .idle) (htodo : r.todo ≠ []) :
    ∃ r', r.begin o u = some r' := by
  unfold Node.begin
  cases hl : r.todo with
  | nil => exact absurd hl htodo
  | cons call todo =>
    rw [hph]
    cases call with
    | runShuffle =>
      dsimp only
      split_ifs <;> exact ⟨_, rfl⟩
    | dealHoleCards => exact ⟨_, rfl⟩
    | revealFlop => exact ⟨_, rfl⟩
    | revealTurn => exact ⟨_, rfl⟩
    | revealRiver => exact ⟨_, rfl⟩

/- The keys a seat polls while it deals. -/
def Waits (t : Table K) (read : ℕ → Key → Option V) (goal : Option KeyName) : Prop :=
  ∃ q name, Task t q name ∧ read q name.key = none ∧ ∀ name' ∈ goal, t.rank name < t.rank name'

/- What a node is after: a key it has to host, or the end of the hand. -/
def Goal (t : Table K) (s : ℕ) (r : Node V) : Option KeyName → Prop
  | none => ¬ r.Finished
  | some name => Task t s name ∧ ¬ r.Hosts name

variable {s : ℕ} {r : Node V} {read : ℕ → Key → Option V} {goal : Option KeyName}

/- All calls of the hand have returned. -/
theorem NodeInv.of_finished (h : NodeInv o t s r) (hfin : r.Finished) :
    Shuffled o t s r ∧ Dealt o t s r ∧ Revealed o t s r 5 := by
  obtain ⟨k, hk, htodo, hshuffled, hdealt⟩ := h.at_phase hfin.1
  have hk5 : k = 5 := by
    rw [hfin.2] at htodo
    have hlen := congrArg List.length htodo
    rw [List.length_drop] at hlen
    simp only [List.length_nil, hand, List.length_cons] at hlen
    omega
  obtain ⟨j, hj, hleft, hboard⟩ := h.board
  have hj5 : j = 5 := by
    rw [Node.left, hfin.1, hfin.2] at hleft
    have hlen := congrArg List.length hleft
    rw [List.length_range'] at hlen
    simp only [Phase.cards, List.flatMap_nil, List.append_nil, List.length_nil] at hlen
    omega
  rw [hj5] at hboard
  exact ⟨hshuffled (by omega), hdealt (by omega), hboard⟩

theorem NodeInv.hosts_of_finished (h : NodeInv o t s r) (hs : s < t.size) (hfin : r.Finished)
    {name : KeyName} (htask : Task t s name) : r.Hosts name := by
  by_contra hnot
  obtain ⟨hshuffled, hdealt, hboard⟩ := h.of_finished hfin
  obtain ⟨i, hi, hname⟩ := htask.of_dealt hshuffled.hosted hdealt hnot
  have hji := hboard.le_of_not_hosts hs hname hnot
  omega

theorem Goal.not_finished (hg : Goal t s r goal) (h : NodeInv o t s r) (hs : s < t.size) :
    ¬ r.Finished := by
  cases goal with
  | none => exact hg
  | some name => exact fun hfin => hg.2 (h.hosts_of_finished hs hfin hg.1)

theorem NodeInv.holes_advance {slots : List (SlotStage V)} (h : NodeInv o t s r) (hs : s < t.size)
    (hph : r.phase = .holes slots) (hg : Goal t s r goal) :
    (∃ i r', r.step o (t.setup s) read i = some r') ∨ Waits t read goal := by
  obtain ⟨_, hshuffled, hlen, hslots⟩ := h.at_phase hph
  -- a slot that is worked on moves, or waits below every goal for which it was picked
  have hslot : ∀ slot st, slots[slot]? = some st → st.isReturned = false →
      (∀ q ∈ t.ring slot, (t.ring slot).idxOf q + 1 = (t.ring slot).idxOf s →
        ∀ name ∈ goal, t.rank (.holeRelay slot q) < t.rank name) →
      (∃ i r', r.step o (t.setup s) read i = some r') ∨ Waits t read goal := by
    intro slot st hst hret hbelow
    have hinv := hslots slot st hst
    cases st with
    | returned err => cases hret
    | layered v =>
      refine Or.inl ⟨.stripSlot slot, ?_⟩
      simp only [Node.step, hph, hst]
      exact ⟨_, rfl⟩
    | polling q =>
      cases hread : read q (holeRelayKey slot q) with
      | some data =>
        refine Or.inl ⟨.pollHole slot, ?_⟩
        simp only [Node.step, hph, hst, hread]
        exact ⟨_, rfl⟩
      | none =>
        have hlt : slot < t.size * 2 := by
          rw [← hlen]
          exact (List.getElem?_eq_some_iff.mp hst).1
        exact Or.inr ⟨q, .holeRelay slot q, .holeRelay hinv.1 hlt, hread, hbelow q hinv.1 hinv.2⟩
  by_cases hown : ∃ slot, goal = some (.holeRelay slot s)
  · -- the goal is a hole relay: its own slot is not returned
    obtain ⟨slot, rfl⟩ := hown
    obtain ⟨htask, hnot⟩ := hg
    cases htask with
    | holeRelay hmem hlt =>
      have hst := List.getElem?_eq_getElem (l := slots) (i := slot) (by omega)
      refine hslot slot _ hst ?_ ?_
      · cases hstage : slots[slot] with
        | returned err =>
          rw [hstage] at hst
          have hdone := (hslots slot _ hst).2
          rw [SlotDone, if_neg (Ne.symm (mem_nonOwnerRing.mp hmem).2)] at hdone
          exact absurd hdone hnot
        | polling q => rfl
        | layered v => rfl
      · intro q _ hidx name hname
        obtain rfl := Option.some.inj hname
        simp only [Table.rank]
        omega
  · by_cases hall : slots.all SlotStage.isReturned = true
    · refine Or.inl ⟨.holesDone, ?_⟩
      simp only [Node.step, hph, hall, if_true]
      split <;> exact ⟨_, rfl⟩
    · -- any slot that is worked on; the goal is a key of the board
      rw [List.all_eq_true] at hall
      push Not at hall
      obtain ⟨st, hmem, hret⟩ := hall
      obtain ⟨slot, hst⟩ := List.mem_iff_getElem?.mp hmem
      refine hslot slot st hst (by simpa using hret) ?_
      intro q hq _ name hname
      subst hname
      have hupper := (rank_holeRelay hq).2
      obtain ⟨htask, hnot⟩ := hg
      cases htask with
      | shuffleStep _ => exact absurd hshuffled.hosted hnot
      | holeRelay _ _ => exact absurd ⟨_, rfl⟩ hown
      | communityRelay _ _ =>
        rw [rank_communityRelay]
        omega
      | communityCard _ =>
        rw [rank_communityCard]
        omega

/- A node that is not finished can take a step, or waits for a key that ranks
below the one it is after. -/
variable (read goal) in
theorem NodeInv.advance (h : NodeInv o t s r) (hn : 2 ≤ t.size) (hs : s < t.size)
    (hg : Goal t s r goal) :
    (∃ i r', r.step o (t.setup s) read i = some r') ∨ Waits t read goal := by
  have hfin := hg.not_finished h hs
  -- the board keys a revealing node has still to host
  have hboardGoal : Revealing o t s r → ∀ j, Revealed o t s r j → ∀ name ∈ goal,
      ∃ i, j ≤ i ∧ (name = .communityRelay (t.size * 2 + i) s ∨
        (s = t.size - 1 ∧ name = .communityCard (t.size * 2 + i))) := by
    rintro hrev j hboard name rfl
    obtain ⟨i, _, hname⟩ := hg.1.of_dealt hrev.shuffled.hosted hrev.dealt hg.2
    exact ⟨i, hboard.le_of_not_hosts hs hname hg.2, hname⟩
  cases hph : r.phase with
  | idle =>
    obtain ⟨r', hr'⟩ := begin_isSome (o := o) (u := t.setup s) hph fun htodo => hfin ⟨hph, htodo⟩
    exact Or.inl ⟨.begin, r', hr'⟩
  | pollStep =>
    obtain ⟨_, h0⟩ := h.at_phase hph
    cases hread : read (s - 1) (shuffleStepKey (s - 1)) with
    | some data =>
      refine Or.inl ⟨.pollStep, ?_⟩
      simp only [Node.step, hph, show (t.setup s).seatIdx = s from rfl, hread]
      split <;> exact ⟨_, rfl⟩
    | none =>
      refine Or.inr ⟨s - 1, .shuffleStep (s - 1), .shuffleStep (by omega), hread, ?_⟩
      rintro name rfl
      show s - 1 < t.rank name
      by_cases hname : name = .shuffleStep s
      · rw [hname]
        show s - 1 < s
        omega
      · have := hg.1.size_le_rank hname
        omega
  | shuffling d =>
    refine Or.inl ⟨.shuffle, ?_⟩
    simp only [Node.step, hph]
    exact ⟨_, rfl⟩
  | pollFinal =>
    obtain ⟨_, _, hown⟩ := h.at_phase hph
    cases hread : read (t.size - 1) (shuffleStepKey (t.size - 1)) with
    | some data =>
      refine Or.inl ⟨.pollFinal, ?_⟩
      simp only [Node.step, hph, show (t.setup s).lastSeat = t.size - 1 from rfl, hread]
      split <;> exact ⟨_, rfl⟩
    | none =>
      refine Or.inr ⟨t.size - 1, .shuffleStep (t.size - 1), .shuffleStep (by omega), hread, ?_⟩
      rintro name rfl
      have hle := hg.1.size_le_rank fun hname => hg.2 (hname ▸ hown)
      show t.size - 1 < t.rank name
      omega
  | holes slots => exact h.holes_advance hs hph hg
  | pollRelay cardIdx rest =>
    obtain ⟨hrev, h0⟩ := h.at_phase hph
    obtain ⟨j, hj, hleft, hboard⟩ := h.board
    rw [Node.left, hph] at hleft
    obtain ⟨rfl, hpos, _⟩ := List.range'_eq_cons_iff.mp hleft.symm
    cases hread : read (s - 1) (communityRelayKey (t.size * 2 + j) (s - 1)) with
    | some data =>
      refine Or.inl ⟨.pollRelay, ?_⟩
      simp only [Node.step, hph, show (t.setup s).seatIdx = s from rfl, hread]
      exact ⟨_, rfl⟩
    | none =>
      refine Or.inr ⟨s - 1, .communityRelay (t.size * 2 + j) (s - 1),
        .communityRelay (by omega) (by omega), hread, ?_⟩
      intro name hname
      obtain ⟨i, hij, hname⟩ := hboardGoal hrev j hboard name hname
      have hrank := rank_board_mono hname hij
      rw [rank_communityRelay]
      omega
  | stripping cardIdx v rest =>
    refine Or.inl ⟨.stripCard, ?_⟩
    simp only [Node.step, hph]
    exact ⟨_, rfl⟩
  | pollCard cardIdx rest =>
    obtain ⟨hrev, hlast, hrelay⟩ := h.at_phase hph
    obtain ⟨j, hj, hleft, hboard⟩ := h.board
    rw [Node.left, hph] at hleft
    obtain ⟨rfl, hpos, _⟩ := List.range'_eq_cons_iff.mp hleft.symm
    cases hread : read (t.size - 1) (communityCardKey (t.size * 2 + j)) with
    | some data =>
      refine Or.inl ⟨.pollCard, ?_⟩
      simp only [Node.step, hph, show (t.setup s).lastSeat = t.size - 1 from rfl, hread]
      exact ⟨_, rfl⟩
    | none =>
      refine Or.inr ⟨t.size - 1, .communityCard (t.size * 2 + j), .communityCard (by omega), hread, ?_⟩
      rintro name rfl
      obtain ⟨i, hij, hname⟩ := hboardGoal hrev j hboard name rfl
      -- this card's relay is out, so the goal is a later card
      have hne : i ≠ j := by
        rintro rfl
        rcases hname with rfl | ⟨hl, _⟩
        · exact hg.2 hrelay
        · omega
      have hrank := rank_board_mono (j := j + 1) hname (by omega)
      rw [Nat.succ_mul] at hrank
      rw [rank_communityCard]
      omega
  | failed err => exact (h.at_phase hph).elim

/-! ### No state before the end is stuck -/

theorem hosted_or_step {net : Net V} (hn : 2 ≤ t.size) (hinv : ∀ q, NodeInv o t q (net q))
    (hstuck : ¬ ∃ net', Step o t net net') {q : ℕ} {name : KeyName} (htask : Task t q name) :
    (net q).Hosts name := by
  induction hr : t.rank name using Nat.strongRecOn generalizing q name with
  | ind k ih =>
    by_contra hnot
    have hq := htask.seat_lt hn
    rcases (hinv q).advance net.read (some name) hn hq ⟨htask, hnot⟩ with
      ⟨i, r', hstep⟩ | ⟨q', name', htask', hnone, hrank⟩
    · exact hstuck ⟨_, .node hq hstep⟩
    · have hhosted := ih (t.rank name') (hr ▸ hrank name rfl) htask' rfl
      rw [Node.Hosts, show (net q').store.get name'.key = none from hnone] at hhosted
      cases hhosted

theorem finished_or_step {net : Net V} (hn : 2 ≤ t.size) (hinv : ∀ q, NodeInv o t q (net q)) :
    (∀ s < t.size, (net s).Finished) ∨ ∃ net', Step o t net net' := by
  by_contra hno
  push Not at hno
  obtain ⟨⟨s, hs, hfin⟩, hstuck⟩ := hno
  have hstuck' : ¬ ∃ net', Step o t net net' := fun ⟨net', hstep⟩ => hstuck net' hstep
  rcases (hinv s).advance net.read none hn hs hfin with
    ⟨i, r', hstep⟩ | ⟨q, name, htask, hnone, _⟩
  · exact hstuck _ (.node hs hstep)
  · have hhosted := hosted_or_step hn hinv hstuck' htask
    rw [Node.Hosts, show (net q).store.get name.key = none from hnone] at hhosted
    cases hhosted

/-- Every state of a run leads to the end of the deal. -/
theorem exists_finished (hn : 2 ≤ t.size) (hcap : 2 * t.size + 5 ≤ 52) (he : o.isEmpty o.empty = true)
    (hgob : ∀ d, o.decodeDeck (o.encodeDeck d) = some d) {net : Net V}
    (h : Reaches o t (Net.start o) net) :
    ∃ net', Reaches o t net net' ∧ ∀ s < t.size, (net' s).Finished := by
  induction net using (step_wellFounded (o := o) (t := t)).induction with
  | h net ih =>
    rcases finished_or_step hn fun q => NodeInv.reaches hn hcap he hgob h q with hfin | ⟨net', hstep⟩
    · exact ⟨net, .refl, hfin⟩
    · obtain ⟨net'', hreach, hfin⟩ := ih net' hstep (h.tail hstep)
      exact ⟨net'', .head hstep hreach, hfin⟩

end Tasks

/-! ### What everybody holds at the end -/

section Outcome
variable {K V : Type} {o : Values K V} {t : Table K} {good : K → Prop} {valid : V → Prop} {s : ℕ}
  {r : Node V}

theorem NodeInv.hole_of_finished (h : NodeInv o t s r) (hlaw : o.Lawful good valid)
    (hk : ∀ q < t.size, good (t.key q)) (hcap : 2 * t.size + 5 ≤ 52) (hs : s < t.size) (hfin : r.Finished)
    (slot : ℕ) (hslot : slot / 2 = s) : r.hole slot = o.card (t.cardAt slot) := by
  obtain ⟨_, hdealt, _⟩ := h.of_finished hfin
  have hdone := hdealt slot (by omega)
  rw [SlotDone, if_pos hslot] at hdone
  have hperm : (List.range t.size).Perm (t.ring slot ++ [s] ++ []) := by
    rw [List.append_nil, ← hslot]
    exact nonOwnerRing_perm (by omega)
  rw [hdone, hlaw.strippedBy hk hperm (by omega)]
  rfl

theorem NodeInv.community_of_finished (h : NodeInv o t s r) (hlaw : o.Lawful good valid)
    (hk : ∀ q < t.size, good (t.key q)) (hcap : 2 * t.size + 5 ≤ 52) (hfin : r.Finished) :
    r.community = (List.range 5).map fun i => o.card (t.cardAt (t.size * 2 + i)) := by
  obtain ⟨_, _, hboard⟩ := h.of_finished hfin
  rw [hboard.community]
  refine List.map_congr_left fun i hi => ?_
  have hi5 := List.mem_range.mp hi
  have hperm : (List.range t.size).Perm (List.range t.size ++ []) := by rw [List.append_nil]
  rw [hlaw.strippedBy hk hperm (by omega)]
  rfl

end Outcome

/-- The program's own cards satisfy what the deal relies on. -/
theorem wire_lawful (gob : Codec (List Bytes)) :
    (wire PRIME gob).Lawful (fun k => k.Inverse PRIME) (Deck.Canonical PRIME) where
  commutes := Deck.cipher_commutes (by norm_num [PRIME])
  valid_card := by
    show ∀ m ∈ List.range' 1 52, (decimal m).head? ≠ some 0 ∧ beVal (decimal m) < PRIME
    decide +kernel
  isEmpty_empty := rfl
  decode_encode := gob.decode_encode

theorem NodeInv.cards_of_finished {gob : Codec (List Bytes)} {t : Table Deck.Key} {s : ℕ} {r : Node Bytes}
    (h : NodeInv (wire PRIME gob) t s r) (hcap : 2 * t.size + 5 ≤ 52)
    (hkey : ∀ q < t.size, Deck.Generates PRIME (t.key q)) (hs : s < t.size) (hfin : r.Finished) :
    r.card1 = decimal (t.cardAt (2 * s)) ∧ r.card2 = decimal (t.cardAt (2 * s + 1)) := by
  have hgood : ∀ q < t.size, (t.key q).Inverse PRIME := fun q hq => (hkey q hq).inverse
  have h1 := h.hole_of_finished (wire_lawful gob) hgood hcap hs hfin (2 * s) (by omega)
  have h2 := h.hole_of_finished (wire_lawful gob) hgood hcap hs hfin (2 * s + 1) (by omega)
  rw [Node.hole, if_pos (by omega)] at h1
  rw [Node.hole, if_neg (by omega)] at h2
  exact ⟨h1, h2⟩

theorem NodeInv.board_of_finished {gob : Codec (List Bytes)} {t : Table Deck.Key} {s : ℕ} {r : Node Bytes}
    (h : NodeInv (wire PRIME gob) t s r) (hcap : 2 * t.size + 5 ≤ 52)
    (hkey : ∀ q < t.size, Deck.Generates PRIME (t.key q)) (hfin : r.Finished) :
    r.communityCards = ((List.range 5).map fun i => t.cardAt (2 * t.size + i)).map decimal := by
  rw [List.map_map, Nat.mul_comm 2]
  exact h.community_of_finished (wire_lawful gob) (fun q hq => (hkey q hq).inverse) hcap hfin

/-- The texts of all cards dealt in a hand: the seats' hole cards and the board. -/
def dealtTexts (numPlayers : ℕ) (net : Net Bytes) : List Bytes :=
  ((List.range numPlayers).flatMap fun s => [(net s).card1, (net s).card2]) ++ (net 0).communityCards

theorem flatMap_pairs {α : Type} (f : ℕ → α) (n : ℕ) :
    ((List.range n).flatMap fun s => [f (2 * s), f (2 * s + 1)]) = (List.range (2 * n)).map f := by
  induction n with
  | zero => rfl
  | succ n ih =>
    rw [List.range_succ, List.flatMap_append, ih, show 2 * (n + 1) = 2 * n + 1 + 1 by omega,
      List.range_succ, List.range_succ]
    simp

theorem Table.cardAt_inj {K : Type} (t : Table K) {i j : ℕ} (hi : i < 52) (hj : j < 52)
    (h : t.cardAt i = t.cardAt j) : i = j := by
  have hlen : (t.arrangement t.size).length = 52 := (t.arrangement_perm _).length_eq
  have hnodup : (t.arrangement t.size).Nodup :=
    (t.arrangement_perm _).nodup_iff.mpr (by decide)
  unfold Table.cardAt at h
  rw [List.getD_eq_getElem _ _ (by omega), List.getD_eq_getElem _ _ (by omega)] at h
  exact (List.Nodup.getElem_inj_iff hnodup).mp h

/-- The card a deck text stands for. -/
theorem Table.exists_card {K : Type} (t : Table K) :
    ∃ card : ℕ → Cards.Card, (∀ k < 52, Cards.parseDeckString (decimal (t.cardAt k)) = .ok (card k)) ∧
      ∀ i < 52, ∀ j < 52, card i = card j → i = j := by
  have hparse : ∀ k, k < 52 → ∃ c : Cards.Card,
      Cards.parseDeckString (decimal (t.cardAt k)) = .ok c ∧ c.int + 1 = t.cardAt k := by
    intro k hk
    have hmem := List.mem_range'_1.mp (t.cardAt_mem hk)
    obtain ⟨c, hc, hint⟩ := Cards.parse_decimal (m := t.cardAt k - 1) (by omega)
    rw [show t.cardAt k - 1 + 1 = t.cardAt k by omega] at hc
    exact ⟨c, hc, by omega⟩
  choose! card hcard hint using hparse
  refine ⟨card, hcard, ?_⟩
  intro i hi j hj heq
  refine t.cardAt_inj hi hj ?_
  rw [← hint i hi, ← hint j hj, heq]

/-- The texts in distinct slots are read as distinct cards. -/
theorem Table.exists_cards {K : Type} (t : Table K) {slots : List ℕ} (hlt : ∀ k ∈ slots, k < 52)
    (hnodup : slots.Nodup) :
    ∃ cards : List Cards.Card, cards.Nodup ∧
      (slots.map fun k => decimal (t.cardAt k)).map Cards.parseDeckString = cards.map Except.ok := by
  obtain ⟨card, hcard, hinj⟩ := t.exists_card
  refine ⟨slots.map card, ?_, ?_⟩
  · exact hnodup.map_on fun i hi j hj => hinj i (hlt i hi) j (hlt j hj)
  · rw [List.map_map, List.map_map]
    exact List.map_congr_left fun k hk => hcard k (hlt k hk)

theorem dealtTexts_eq {gob : Codec (List Bytes)} {t : Table Deck.Key} {net : Net Bytes}
    (hn : 2 ≤ t.size) (hcap : 2 * t.size + 5 ≤ 52) (hkey : ∀ s < t.size, Deck.Generates PRIME (t.key s))
    (hinv : ∀ s, NodeInv (wire PRIME gob) t s (net s)) (hfin : ∀ s < t.size, (net s).Finished) :
    dealtTexts t.size net = (List.range (2 * t.size + 5)).map fun k => decimal (t.cardAt k) := by
  have hholes : ((List.range t.size).flatMap fun s => [(net s).card1, (net s).card2]) =
      (List.range t.size).flatMap fun s =>
        [decimal (t.cardAt (2 * s)), decimal (t.cardAt (2 * s + 1))] := by
    refine List.flatMap_congr fun s hs => ?_
    have hs' := List.mem_range.mp hs
    obtain ⟨h1, h2⟩ := (hinv s).cards_of_finished hcap hkey hs' (hfin s hs')
    rw [h1, h2]
  rw [dealtTexts, hholes, flatMap_pairs fun k => decimal (t.cardAt k),
    (hinv 0).board_of_finished hcap hkey (hfin 0 (by omega)), List.range_add, List.map_append,
    List.map_map, List.map_map]
  rfl

/-- One order of the deck decides what everybody holds at the end, the cards dealt
are distinct valid cards, no state before the end is stuck, and no run goes on for
ever. -/
def DealsOneOrder (gob : Codec (List Bytes)) (t : Table Deck.Key) : Prop :=
  ∃ π : List ℕ, π.Perm (List.range' 1 52) ∧
    (∀ net, Reaches (wire PRIME gob) t (Net.start (wire PRIME gob)) net →
      (∀ s < t.size, (net s).Finished →
        (net s).holeCards = (decimal (π.getD (2 * s) 0), decimal (π.getD (2 * s + 1) 0)) ∧
        (net s).communityCards = (List.range 5).map fun i => decimal (π.getD (2 * t.size + i) 0)) ∧
      ((∀ s < t.size, (net s).Finished) → ∃ cards : List Cards.Card, cards.Nodup ∧
        (dealtTexts t.size net).map Cards.parseDeckString = cards.map Except.ok) ∧
      ((∀ s < t.size, (net s).Finished) ∨ ∃ net', Step (wire PRIME gob) t net net')) ∧
    WellFounded fun net' net => Step (wire PRIME gob) t net net'

theorem honest_deal (gob : Codec (List Bytes)) (t : Table Deck.Key) (hn : 2 ≤ t.size)
    (hcap : 2 * t.size + 5 ≤ 52) (hkey : ∀ s < t.size, Deck.Generates PRIME (t.key s)) :
    DealsOneOrder gob t := by
  refine ⟨t.arrangement t.size, t.arrangement_perm _, ?_, step_wellFounded⟩
  intro net hreach
  have hinv := NodeInv.reaches hn hcap (wire_lawful gob).isEmpty_empty (wire_lawful gob).decode_encode
    hreach
  refine ⟨?_, ?_, finished_or_step hn hinv⟩
  · intro s hs hfin
    obtain ⟨h1, h2⟩ := (hinv s).cards_of_finished hcap hkey hs hfin
    refine ⟨?_, ?_⟩
    · rw [Node.holeCards, h1, h2]
      rfl
    · rw [(hinv s).board_of_finished hcap hkey hfin, List.map_map]
      rfl
  · intro hfin
    rw [dealtTexts_eq hn hcap hkey hinv hfin]
    refine t.exists_cards (fun k hk => ?_) List.nodup_range
    have := List.mem_range.mp hk
    omega

def deckWire : Wire (List Bytes) := Wire.many (Wire.many Wire.byte)

/-- Two seats with the same small key. Seat 0 swaps the second card with the
tenth, seat 1 leaves the deck as it is. -/
def headsUpDeal : Table Deck.Key where
  size := 2
  key _ := ⟨3, 9079⟩
  draws s i := if s = 0 ∧ i = 9 then Fin.ofNat (i + 1) 1 else Fin.last i

theorem generates_three : Deck.Generates PRIME ⟨3, 9079⟩ := ⟨[3], by decide, by decide +kernel⟩

theorem honest_deal_heads_up : DealsOneOrder deckWire.codec headsUpDeal :=
  honest_deal deckWire.codec headsUpDeal (by decide) (by decide) fun _ _ => generates_three

end P2Poker.Peer
