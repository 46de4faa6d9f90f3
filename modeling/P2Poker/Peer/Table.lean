import P2Poker.Peer.Deal

/-!
# The nodes of one hand

The nodes take steps in any order. Every step is one of the moves below, and
every move uses up some of the work the node has in front of it, so no run of
the deal goes on for ever.
-/

namespace P2Poker.Peer
open P2Poker.Lib P2Poker.Crypto P2Poker.Ephemeral

/-! ### What a step can do -/

namespace Node
variable {K V : Type} (o : Values K V) (u : Setup K) (read : ℕ → Key → Option V)

inductive Move (r : Node V) : Node V → Prop
  | tooFew {todo err} : r.phase = .idle → r.todo = .runShuffle :: todo → u.numPlayers < 2 →
      Move r { r with todo := todo, phase := .failed err }
  | openDeck {todo} : r.phase = .idle → r.todo = .runShuffle :: todo → u.seatIdx = 0 →
      Move r { r with todo := todo, phase := .shuffling (buildOrderedDeck o) }
  | awaitStep {todo} : r.phase = .idle → r.todo = .runShuffle :: todo → u.seatIdx ≠ 0 →
      Move r { r with todo := todo, phase := .pollStep }
  | openHoles {todo} : r.phase = .idle → r.todo = .dealHoleCards :: todo →
      Move r { r with
        todo := todo, phase := .holes ((List.range (u.numPlayers * 2)).map (r.dealHoleSlot u)) }
  | openReveal {call todo} : r.phase = .idle → r.todo = call :: todo → call ≠ .runShuffle →
      call ≠ .dealHoleCards → Move r ({ r with todo := todo }.reveal u (call.cards u))
  | gotStep {data d} : r.phase = .pollStep →
      read (u.seatIdx - 1) (shuffleStepKey (u.seatIdx - 1)) = some data → o.decodeDeck data = some d →
      Move r { r with phase := .shuffling d }
  | badStep {data err} : r.phase = .pollStep →
      read (u.seatIdx - 1) (shuffleStepKey (u.seatIdx - 1)) = some data → o.decodeDeck data = none →
      Move r { r with phase := .failed err }
  | shuffle {d} : r.phase = .shuffling d → Move r (r.shuffle o u d)
  | gotFinal {data d} : r.phase = .pollFinal →
      read u.lastSeat (shuffleStepKey u.lastSeat) = some data → o.decodeDeck data = some d →
      Move r { r with finalDeck := d, phase := .idle }
  | badFinal {data err} : r.phase = .pollFinal →
      read u.lastSeat (shuffleStepKey u.lastSeat) = some data → o.decodeDeck data = none →
      Move r { r with phase := .failed err }
  | gotHole {slots slot seat data} : r.phase = .holes slots → slots[slot]? = some (.polling seat) →
      read seat (holeRelayKey slot seat) = some data →
      Move r { r with phase := .holes (slots.set slot (.layered data)) }
  | stripSlot {slots slot data} : r.phase = .holes slots → slots[slot]? = some (.layered data) →
      Move r { r.stripSlot o u slot data with phase := .holes (slots.set slot (.returned none)) }
  | holesDone {slots} : r.phase = .holes slots → slots.all SlotStage.isReturned = true →
      slots.filterMap SlotStage.err = [] → Move r { r with phase := .idle }
  | holesFailed {slots err errs} : r.phase = .holes slots →
      slots.filterMap SlotStage.err = err :: errs → Move r { r with phase := .failed err }
  | gotRelay {cardIdx rest data} : r.phase = .pollRelay cardIdx rest →
      read (u.seatIdx - 1) (communityRelayKey cardIdx (u.seatIdx - 1)) = some data →
      Move r { r with phase := .stripping cardIdx data rest }
  | stripCard {cardIdx layered rest} : r.phase = .stripping cardIdx layered rest →
      Move r (r.stripCard o u cardIdx layered rest)
  | gotCard {cardIdx rest data} : r.phase = .pollCard cardIdx rest →
      read u.lastSeat (communityCardKey cardIdx) = some data →
      Move r ((r.setCommunity o u cardIdx data).reveal u rest)

variable {o u read} {r r' : Node V}

theorem begin_move (h : r.begin o u = some r') : Move o u read r r' := by
  unfold begin at h
  split at h
  · rename_i todo hphase htodo
    split_ifs at h with h2 h0
    · obtain rfl := Option.some.inj h
      exact .tooFew hphase htodo h2
    · obtain rfl := Option.some.inj h
      exact .openDeck hphase htodo h0
    · obtain rfl := Option.some.inj h
      exact .awaitStep hphase htodo h0
  · rename_i hphase htodo
    obtain rfl := Option.some.inj h
    exact .openHoles hphase htodo
  · rename_i call todo hshuffle hholes hphase htodo
    obtain rfl := Option.some.inj h
    exact .openReveal hphase htodo (fun hc => hshuffle (by rw [hc])) (fun hc => hholes (by rw [hc]))
  · cases h

theorem step_move {i : Input} (h : r.step o u read i = some r') : Move o u read r r' := by
  cases i with
  | begin => exact begin_move h
  | pollStep =>
    simp only [step] at h
    split at h
    · rename_i hphase hread
      split at h
      · rename_i hdec
        obtain rfl := Option.some.inj h
        exact .gotStep hphase hread hdec
      · rename_i hdec
        obtain rfl := Option.some.inj h
        exact .badStep hphase hread hdec
    · cases h
  | shuffle =>
    simp only [step] at h
    split at h
    · rename_i hphase
      obtain rfl := Option.some.inj h
      exact .shuffle hphase
    · cases h
  | pollFinal =>
    simp only [step] at h
    split at h
    · rename_i hphase hread
      split at h
      · rename_i hdec
        obtain rfl := Option.some.inj h
        exact .gotFinal hphase hread hdec
      · rename_i hdec
        obtain rfl := Option.some.inj h
        exact .badFinal hphase hread hdec
    · cases h
  | pollHole slot =>
    simp only [step] at h
    split at h
    · rename_i hphase
      split at h
      · rename_i hslot
        split at h
        · rename_i hread
          obtain rfl := Option.some.inj h
          exact .gotHole hphase hslot hread
        · cases h
      · cases h
    · cases h
  | stripSlot slot =>
    simp only [step] at h
    split at h
    · rename_i hphase
      split at h
      · rename_i hslot
        obtain rfl := Option.some.inj h
        exact .stripSlot hphase hslot
      · cases h
    · cases h
  | holesDone =>
    simp only [step] at h
    split at h
    · rename_i hphase
      split_ifs at h with hret
      split at h
      · rename_i herr
        obtain rfl := Option.some.inj h
        exact .holesDone hphase hret herr
      · rename_i herr
        obtain rfl := Option.some.inj h
        exact .holesFailed hphase herr
    · cases h
  | pollRelay =>
    simp only [step] at h
    split at h
    · rename_i hphase
      split at h
      · rename_i hread
        obtain rfl := Option.some.inj h
        exact .gotRelay hphase hread
      · cases h
    · cases h
  | stripCard =>
    simp only [step] at h
    split at h
    · rename_i hphase
      obtain rfl := Option.some.inj h
      exact .stripCard hphase
    · cases h
  | pollCard =>
    simp only [step] at h
    split at h
    · rename_i hphase
      split at h
      · rename_i hread
        obtain rfl := Option.some.inj h
        exact .gotCard hphase hread
      · cases h
    · cases h

/-! ### What a step leaves alone -/

variable (o u r)

/- Only the phase changes. -/
theorem reveal_phase (cards : List ℕ) : r.reveal u cards = { r with phase := (r.reveal u cards).phase } := by
  unfold reveal
  split
  · rfl
  · split <;> [rfl; (split_ifs <;> rfl)]

@[simp] theorem reveal_todo (cards : List ℕ) : (r.reveal u cards).todo = r.todo := by
  rw [reveal_phase]

@[simp] theorem reveal_store (cards : List ℕ) : (r.reveal u cards).store = r.store := by
  rw [reveal_phase]

theorem reveal_finalDeck (cards : List ℕ) : (r.reveal u cards).finalDeck = r.finalDeck := by
  rw [reveal_phase]

theorem reveal_community (cards : List ℕ) : (r.reveal u cards).community = r.community := by
  rw [reveal_phase]

/- Only the board changes. -/
theorem setCommunity_board (cardIdx : ℕ) (card : V) : r.setCommunity o u cardIdx card =
    { r with community := (r.setCommunity o u cardIdx card).community } := by
  simp only [setCommunity]
  split_ifs <;> rfl

@[simp] theorem setCommunity_todo (cardIdx : ℕ) (card : V) :
    (r.setCommunity o u cardIdx card).todo = r.todo := by
  rw [setCommunity_board]

@[simp] theorem setCommunity_store (cardIdx : ℕ) (card : V) :
    (r.setCommunity o u cardIdx card).store = r.store := by
  rw [setCommunity_board]

theorem setCommunity_finalDeck (cardIdx : ℕ) (card : V) :
    (r.setCommunity o u cardIdx card).finalDeck = r.finalDeck := by
  rw [setCommunity_board]

@[simp] theorem setHole_store (slot : ℕ) (card : V) : (r.setHole slot card).store = r.store := by
  unfold setHole
  split_ifs <;> rfl

@[simp] theorem setHole_finalDeck (slot : ℕ) (card : V) :
    (r.setHole slot card).finalDeck = r.finalDeck := by
  unfold setHole
  split_ifs <;> rfl

@[simp] theorem setHole_community (slot : ℕ) (card : V) :
    (r.setHole slot card).community = r.community := by
  unfold setHole
  split_ifs <;> rfl

@[simp] theorem setHole_todo (slot : ℕ) (card : V) : (r.setHole slot card).todo = r.todo := by
  unfold setHole
  split_ifs <;> rfl

@[simp] theorem stripSlot_todo (slot : ℕ) (layered : V) :
    (r.stripSlot o u slot layered).todo = r.todo := by
  simp only [stripSlot]
  split_ifs
  · exact setHole_todo ..
  · rfl

end Node

/-! ### Work -/

def SlotStage.work {V : Type} : SlotStage V → ℕ
  | .polling _ => 2
  | .layered _ => 1
  | .returned _ => 0

def Phase.work {V : Type} : Phase V → ℕ
  | .idle => 0
  | .pollStep => 3
  | .shuffling _ => 2
  | .pollFinal => 1
  | .holes slots => (slots.map SlotStage.work).sum + 1
  | .pollRelay _ rest => 4 * rest.length + 3
  | .stripping _ _ rest => 4 * rest.length + 2
  | .pollCard _ rest => 4 * rest.length + 1
  | .failed _ => 0

def Call.work {K : Type} (u : Setup K) : Call → ℕ
  | .runShuffle => 4
  | .dealHoleCards => 4 * u.numPlayers + 2
  | call => 4 * (call.cards u).length

theorem SlotStage.work_le {V : Type} (st : SlotStage V) : st.work ≤ 2 := by
  cases st <;> simp [SlotStage.work]

theorem Call.work_reveal {K : Type} {u : Setup K} {call : Call} (hs : call ≠ .runShuffle)
    (hd : call ≠ .dealHoleCards) :
    0 < (call.cards u).length ∧ call.work u = 4 * (call.cards u).length := by
  cases call <;> simp_all [Call.cards, Call.work]

namespace Node
variable {K V : Type} {o : Values K V} {u : Setup K} {read : ℕ → Key → Option V} {r r' : Node V}

/-- An upper bound on the steps a node can still take. -/
def work (u : Setup K) (r : Node V) : ℕ := r.phase.work + (r.todo.map (Call.work u)).sum

theorem work_reveal_le (r : Node V) (cards : List ℕ) :
    (r.reveal u cards).work u ≤ 4 * cards.length - 1 + (r.todo.map (Call.work u)).sum := by
  have hphase : (r.reveal u cards).phase.work ≤ 4 * cards.length - 1 := by
    cases cards with
    | nil => exact le_rfl
    | cons cardIdx rest =>
      simp only [reveal]
      split
      · exact Nat.zero_le _
      · split_ifs
        · simp only [Phase.work, List.length_cons]
          omega
        · simp only [Phase.work, List.length_cons]
          omega
  rw [work, reveal_todo]
  omega

/- Replacing a stage by a lower one lowers the sum. -/
theorem work_set_lt {slots : List (SlotStage V)} {slot : ℕ} {st st' : SlotStage V}
    (h : slots[slot]? = some st) (hlt : st'.work < st.work) :
    ((slots.set slot st').map SlotStage.work).sum < (slots.map SlotStage.work).sum := by
  induction slots generalizing slot with
  | nil => cases h
  | cons x slots ih =>
    cases slot with
    | zero =>
      obtain rfl := Option.some.inj h
      simpa using hlt
    | succ slot => simpa using ih (by simpa using h)

theorem Move.work_lt (hm : Move o u read r r') : r'.work u < r.work u := by
  cases hm with
  | tooFew hphase htodo _ => simp [work, hphase, htodo, Phase.work, Call.work]
  | openDeck hphase htodo _ => simp [work, hphase, htodo, Phase.work, Call.work]
  | awaitStep hphase htodo _ => simp [work, hphase, htodo, Phase.work, Call.work]
  | openHoles hphase htodo =>
    have hsum : (((List.range (u.numPlayers * 2)).map (r.dealHoleSlot u)).map SlotStage.work).sum
        ≤ u.numPlayers * 2 * 2 := by
      refine (List.sum_le_card_nsmul _ 2 ?_).trans (by simp)
      simp only [List.mem_map]
      rintro _ ⟨st, _, rfl⟩
      exact SlotStage.work_le st
    simp only [work, hphase, htodo, Phase.work, Call.work, List.map_cons, List.sum_cons]
    omega
  | @openReveal call todo hphase htodo hs hd =>
    obtain ⟨hpos, hwork⟩ := Call.work_reveal (u := u) hs hd
    refine lt_of_le_of_lt (work_reveal_le ..) ?_
    simp only [work, htodo, List.map_cons, List.sum_cons, hwork]
    omega
  | gotStep hphase _ _ => simp [work, hphase, Phase.work]
  | badStep hphase _ _ => simp [work, hphase, Phase.work]
  | shuffle hphase =>
    simp only [Node.shuffle]
    split_ifs <;> simp [work, hphase, Phase.work]
  | gotFinal hphase _ _ => simp [work, hphase, Phase.work]
  | badFinal hphase _ _ => simp [work, hphase, Phase.work]
  | @gotHole slots slot seat data hphase hslot _ =>
    have := work_set_lt hslot (show (SlotStage.layered data).work < (SlotStage.polling seat).work by
      simp [SlotStage.work])
    simp only [work, hphase, Phase.work]
    omega
  | @stripSlot slots slot data hphase hslot =>
    have := work_set_lt hslot (show (SlotStage.returned none).work < (SlotStage.layered data).work by
      simp [SlotStage.work])
    simp only [work, stripSlot_todo, hphase, Phase.work]
    omega
  | holesDone hphase _ _ => simp [work, hphase, Phase.work]
  | holesFailed hphase _ => simp [work, hphase, Phase.work]
  | gotRelay hphase _ => simp [work, hphase, Phase.work]
  | stripCard hphase =>
    simp only [Node.stripCard]
    split_ifs
    · refine lt_of_le_of_lt (work_reveal_le ..) ?_
      simp only [work, setCommunity_todo, hphase, Phase.work]
      omega
    · simp [work, hphase, Phase.work]
  | gotCard hphase _ =>
    refine lt_of_le_of_lt (work_reveal_le ..) ?_
    simp only [work, setCommunity_todo, hphase, Phase.work]
    omega

end Node

/-! ### The table -/

structure Table (K : Type) where
  size : ℕ
  key : ℕ → K
  draws : ℕ → Deck.Draws

def Table.setup {K : Type} (t : Table K) (seat : ℕ) : Setup K where
  numPlayers := t.size
  seatIdx := seat
  modKey := t.key seat
  draws := t.draws seat

/-- The nodes by seat. -/
abbrev Net (V : Type) := ℕ → Node V

section Net
variable {K V : Type} (o : Values K V) (t : Table K)

/-- Before the hand. -/
def Net.start : Net V := fun _ => { card1 := o.empty, card2 := o.empty }

/-- What a poll of a seat returns. -/
def Net.read (net : Net V) (seat : ℕ) (key : Key) : Option V := (net seat).store.get key

inductive Step : Net V → Net V → Prop
  | node {net : Net V} {s : ℕ} {i : Input} {r : Node V} : s < t.size →
      (net s).step o (t.setup s) net.read i = some r → Step net (Function.update net s r)

def Reaches : Net V → Net V → Prop := Relation.ReflTransGen (Step o t)

def Table.work (net : Net V) : ℕ := ∑ s ∈ Finset.range t.size, (net s).work (t.setup s)

variable {o t}

theorem Step.work_lt {net net' : Net V} (h : Step o t net net') : t.work net' < t.work net := by
  obtain ⟨hs, hstep⟩ := h
  rename_i s i r
  have hlt := (Node.step_move hstep).work_lt
  refine Finset.sum_lt_sum ?_ ⟨s, Finset.mem_range.mpr hs, by rwa [Function.update_self]⟩
  intro q _
  by_cases hq : q = s
  · rw [hq, Function.update_self]
    exact hlt.le
  · rw [Function.update_of_ne hq]

/-- No run of the deal goes on for ever. -/
theorem step_wellFounded : WellFounded fun net' net => Step o t net net' :=
  Subrelation.wf (fun h => Step.work_lt h) (InvImage.wf t.work Nat.lt_wfRel.wf)

end Net

end P2Poker.Peer
