import P2Poker.Sim.Relay

/-!
# What a run of the simulator comes to (internal/sim/sim.go: Run)

The cards that the nodes return are those of a deck shuffled in the clear, whatever
the order of the sends and receives. One failure of a random source and no node that
has not failed returns.
-/

namespace P2Poker.Sim
open P2Poker.Lib P2Poker.Crypto

/- The step of the deal that happens, if it is one. -/
def Happening.dealt : Happening → Option Event
  | .deal e => some e
  | _ => none

/- The draws that a node shuffles with. -/
def drawsOf (luck : ℕ → Luck) (id : ℕ) : Deck.Draws := (luck id).draws.getD fun i => ⟨0, i.succ_pos⟩

/-- The cards in the clear, after the shuffles of the nodes up to `k`. -/
def plainDeck (luck : ℕ → Luck) : ℕ → List ℕ
  | 0 => Deck.shuffle (drawsOf luck 0) (List.range 52)
  | k + 1 => Deck.shuffle (drawsOf luck (k + 1)) (plainDeck luck k)

theorem plainDeck_perm (luck : ℕ → Luck) (k : ℕ) : (plainDeck luck k).Perm (List.range 52) := by
  induction k with
  | zero => exact Deck.shuffle_perm _ _
  | succ k ih => exact (Deck.shuffle_perm _ _).trans ih

namespace Network
variable {net : Network} {luck : ℕ → Luck} {s s' : Running} {id : ℕ} {es : List Happening}

/-! ### The final deck -/

theorem shuffled_of_good (hgood : (luck id).Good) (deck : List Bytes) :
    net.shuffled (luck id) deck =
      some (Deck.encryptDeck (Deck.shuffle (drawsOf luck id) deck) (keyOf luck id) net.prime) := by
  obtain ⟨key, hkey⟩ := Option.isSome_iff_exists.mp hgood.1
  obtain ⟨draws, hdraws⟩ := Option.isSome_iff_exists.mp hgood.2
  rw [shuffled, drawsOf, keyOf, hkey, hdraws]
  rfl

/- The cards in the clear under one layer of each node that has had the deck. -/
theorem deckAfter_eq (net : Network) {k : ℕ} (hgood : ∀ id ≤ k, (luck id).Good) :
    net.deckAfter luck k = some ((plainDeck luck k).map fun card =>
      (Deck.cipher net.prime).lock ((List.range (k + 1)).map (keyOf luck)) (decimal card)) := by
  induction k with
  | zero =>
    rw [deckAfter, shuffled_of_good (hgood 0 le_rfl), freshDeck, Deck.shuffle_map, Deck.encryptDeck, List.map_map]
    rfl
  | succ k ih =>
    rw [deckAfter, ih fun id hid => hgood id (by omega), Option.bind_some, shuffled_of_good (hgood (k + 1) le_rfl),
      Deck.shuffle_map, Deck.encryptDeck, List.map_map, plainDeck]
    refine congrArg some (List.map_congr_left ?_)
    intro card _
    rw [List.range_succ (n := k + 1), List.map_append, List.map_singleton, Cipher.lock_concat]
    rfl

theorem good_of_deckAfter {k : ℕ} {deck : List Bytes} (h : net.deckAfter luck k = some deck) :
    ∀ id ≤ k, (luck id).Good := by
  induction k generalizing deck with
  | zero =>
    intro id hid
    obtain rfl : id = 0 := by omega
    exact good_of_shuffled h
  | succ k ih =>
    obtain ⟨before, hbefore, hshuffled⟩ := Option.bind_eq_some_iff.mp h
    intro id hid
    rcases Nat.lt_or_ge k id with hlt | hge
    · obtain rfl : id = k + 1 := by omega
      exact good_of_shuffled hshuffled
    · exact ih hbefore id hge

/-! ### How long a run is -/

/- What a node has yet to send or receive before it deals. -/
def left (net : Network) (id : ℕ) : Stage → ℕ
  | .failed => 0
  | .awaiting => if id = 0 then net.numNodes + 2 else 3
  | .passing _ => if id = 0 then net.numNodes + 1 else 2
  | .awaitingFinal => if id = 0 then net.numNodes else 1
  | .broadcasting i _ => net.numNodes - i
  | .dealing => 0

def remaining (net : Network) (stages : ℕ → Stage) : ℕ := ∑ id ∈ Finset.range net.numNodes, net.left id (stages id)

theorem remaining_update {stages : ℕ → Stage} {stage : Stage} (hid : id < net.numNodes)
    (h : net.left id stage < net.left id (stages id)) :
    net.remaining (Function.update stages id stage) < net.remaining stages := by
  refine Finset.sum_lt_sum ?_ ⟨id, Finset.mem_range.mpr hid, ?_⟩
  · intro j _
    by_cases hj : j = id
    · rw [hj, Function.update_self]
      exact h.le
    · rw [Function.update_of_ne hj]
  · rwa [Function.update_self]

theorem left_passes (net : Network) (id : ℕ) (luck : Luck) (deck : List Bytes) :
    net.left id (net.passes luck deck) < net.left id .awaiting := by
  rcases passes_cases net luck deck with ⟨deck', _, hpasses⟩ | ⟨hfailed, _⟩
  · rw [hpasses, left, left]
    split_ifs <;> omega
  · rw [hfailed, left, left]
    split_ifs <;> omega

/- Each step before the deal is one of those that are left. -/
theorem Relay.remaining_lt {e : Happening} (hr : net.Relay luck s) (h : net.runStep luck s e = some s')
    (he : e.dealt = none) : net.remaining s'.stages < net.remaining s.stages := by
  have hn := net.one_lt
  cases e with
  | pass id =>
    obtain ⟨hid, deck, hstage, rfl⟩ := step_pass h
    refine remaining_update hid ?_
    rw [hstage, left, left]
    split_ifs <;> omega
  | take id =>
    obtain ⟨hid, hstage, deck, _, _, rfl⟩ := step_take h
    refine remaining_update hid ?_
    rw [hstage]
    exact net.left_passes id _ _
  | final id =>
    obtain ⟨hid, hstage, deck, _, ⟨rfl, _, rfl⟩ | ⟨hne, _, rfl⟩⟩ := step_final h
    · refine remaining_update hid ?_
      rw [hstage, left, left, if_pos rfl]
      omega
    · refine remaining_update hid ?_
      rw [hstage, left, left, if_neg hne]
      exact one_pos
  | broadcast =>
    obtain ⟨i, deck, hstage, ⟨_, rfl⟩ | ⟨_, rfl⟩⟩ := step_broadcast h
    all_goals
      obtain ⟨_, hi, _⟩ := hr.broadcasting hstage
      refine remaining_update (by omega) ?_
      rw [hstage, left, left]
      omega
  | deal e => cases he

theorem remaining_start : net.remaining (net.runStart luck).stages ≤ 4 * net.numNodes - 2 := by
  have hn := net.one_lt
  have hleader : net.left 0 ((net.runStart luck).stages 0) ≤ net.numNodes + 1 := by
    have h := net.left_passes 0 (luck 0) freshDeck
    rw [left, if_pos rfl] at h
    exact Nat.lt_succ_iff.mp h
  have hfollower : ∀ id ∈ Finset.range (net.numNodes - 1),
      net.left (id + 1) ((net.runStart luck).stages (id + 1)) ≤ 3 := by
    intro id _
    show net.left (id + 1) (waits luck (id + 1)) ≤ 3
    rcases waits_cases luck (id + 1) with hwait | ⟨hfail, _⟩
    · rw [hwait]
      exact le_rfl
    · rw [hfail]
      exact Nat.zero_le 3
  have hsum := Finset.sum_le_card_nsmul _ _ _ hfollower
  rw [Finset.card_range, smul_eq_mul] at hsum
  rw [remaining, show net.numNodes = net.numNodes - 1 + 1 by omega, Finset.sum_range_succ']
  have : net.numNodes - 1 + 1 - 1 = net.numNodes - 1 := by omega
  omega

/-- The steps before the deal are at most those that were left in the beginning. -/
theorem length_le (ht : Trace (net.runStep luck) Free (net.runStart luck) es s) :
    es.length + net.remaining s.stages ≤ (es.filterMap Happening.dealt).length + (4 * net.numNodes - 2) := by
  induction ht with
  | nil => exact Nat.add_le_add_left remaining_start _
  | @snoc t _ es e ht _ hs ih =>
    rw [List.filterMap_append, List.length_append, List.length_append, List.length_singleton]
    cases he : e.dealt with
    | none =>
      have hlt := (Relay.of_trace ht).remaining_lt hs he
      rw [List.filterMap_cons_none he]
      simp only [List.filterMap_nil, List.length_nil]
      omega
    | some d =>
      rw [List.filterMap_cons_some he, List.filterMap_nil, List.length_singleton]
      obtain ⟨e, rfl⟩ : ∃ e', e = .deal e' := by
        cases e with
        | deal e => exact ⟨e, rfl⟩
        | pass _ => cases he
        | take _ => cases he
        | final _ => cases he
        | broadcast => cases he
      obtain ⟨_, _, _, rfl⟩ := step_deal hs
      dsimp only
      omega

/-! ### The deal of a run -/

/- The deal as if every node had come to it: those that have not are at their first send. -/
def view (finalDeck : List Bytes) (s : Running) : Deal where
  players id :=
    match s.stages id with
    | .dealing => s.deal.players id
    | _ => (start finalDeck).players id
  dealingGrid := s.deal.dealingGrid

variable {finalDeck : List Bytes}

theorem view_dealing (h : s.stages id = .dealing) : (view finalDeck s).players id = s.deal.players id := by
  unfold view
  dsimp only
  rw [h]

theorem view_other (h : s.stages id ≠ .dealing) :
    (view finalDeck s).players id = (start finalDeck).players id := by
  unfold view
  dsimp only
  split
  · contradiction
  · rfl

theorem deal_eq {d d' : Deal} (hplayers : d.players = d'.players) (hgrid : d.dealingGrid = d'.dealingGrid) :
    d = d' := by
  cases d
  cases hplayers
  cases hgrid
  rfl

theorem view_start : view finalDeck (net.runStart luck) = start finalDeck := by
  have hplayers : (view finalDeck (net.runStart luck)).players = (start finalDeck).players := by
    funext id
    refine view_other ?_
    rcases Nat.eq_zero_or_pos id with rfl | hpos
    · show net.passes (luck 0) freshDeck ≠ _
      rcases passes_cases net (luck 0) freshDeck with ⟨_, _, hpasses⟩ | ⟨hfailed, _⟩
      · rw [hpasses]
        simp
      · rw [hfailed]
        simp
    · rw [show (net.runStart luck).stages id = waits luck id from if_neg hpos.ne']
      rcases waits_cases luck id with hwait | ⟨hfailed, _⟩
      · rw [hwait]
        simp
      · rw [hfailed]
        simp
  exact deal_eq hplayers rfl

/- A node that goes on before the deal, or comes to it, is where it was in the view. -/
theorem view_eq (hdeal : s'.deal.dealingGrid = s.deal.dealingGrid)
    (h : ∀ j, (s'.stages j = s.stages j ∧ s'.deal.players j = s.deal.players j) ∨
      s.stages j ≠ .dealing ∧
        (s'.stages j = .dealing → s'.deal.players j = (start finalDeck).players j)) :
    view finalDeck s' = view finalDeck s := by
  have hplayers : (view finalDeck s').players = (view finalDeck s).players := by
    funext j
    rcases h j with ⟨hstage, hplayer⟩ | ⟨hbefore, hcomes⟩
    · rw [view, view]
      dsimp only
      rw [hstage, hplayer]
    · rw [view_other hbefore]
      by_cases hnow : s'.stages j = .dealing
      · rw [view_dealing hnow, hcomes hnow]
      · exact view_other hnow
  exact deal_eq hplayers hdeal

theorem view_update {stage : Stage} {grid : ℕ → ℕ → List (List Bytes)} (hbefore : s.stages id ≠ .dealing)
    (hafter : stage ≠ .dealing) :
    view finalDeck { s with stages := Function.update s.stages id stage, shuffleGrid := grid } = view finalDeck s := by
  refine view_eq rfl ?_
  intro j
  by_cases hj : j = id
  · subst hj
    exact .inr ⟨hbefore, fun h => absurd ((Function.update_self j stage s.stages).symm.trans h) hafter⟩
  · exact .inl ⟨Function.update_of_ne hj _ s.stages, rfl⟩

theorem view_enter {grid : ℕ → ℕ → List (List Bytes)} (hbefore : s.stages id ≠ .dealing) :
    view finalDeck (enter { s with shuffleGrid := grid } id finalDeck) = view finalDeck s := by
  refine view_eq rfl ?_
  intro j
  by_cases hj : j = id
  · subst hj
    exact .inr ⟨hbefore, fun _ => Function.update_self j _ s.deal.players⟩
  · exact .inl ⟨Function.update_of_ne hj _ s.stages, Function.update_of_ne hj _ s.deal.players⟩

/- What is under way to a follower from the leader is the deck of all nodes. -/
theorem Relay.final_deck {deck : List Bytes} {rest : List (List Bytes)} (hr : net.Relay luck s)
    (hpos : id ≠ 0) (hid : id < net.numNodes) (hstage : s.stages id = .awaitingFinal)
    (hgrid : s.shuffleGrid 0 id = deck :: rest) : net.deckAfter luck (net.numNodes - 1) = some deck := by
  cases hr with
  | held _ _ _ _ _ empty =>
    rw [empty] at hgrid
    cases hgrid
  | @sent k deck' hk hdeck before after grid =>
    have hk0 : 0 = k := by
      by_contra hother
      rw [grid, setDeck_ne fun h => hother h.1] at hgrid
      cases hgrid
    rw [after id (by omega) hid] at hstage
    rcases waits_cases luck id with hother | ⟨hother, _⟩
    all_goals
      rw [hother] at hstage
      cases hstage
  | @spread i deck' _ _ hdeck _ reached ahead =>
    rcases lt_or_ge id i with hlt | hge
    · rcases reached id (by omega) hlt with ⟨_, hqueue⟩ | ⟨_, hqueue⟩
      · rw [hqueue] at hgrid
        obtain ⟨rfl, _⟩ := List.cons_eq_cons.mp hgrid
        exact hdeck
      · rw [hqueue] at hgrid
        cases hgrid
    · rw [(ahead id hge hid).2] at hgrid
      cases hgrid
  | lost _ _ empty =>
    rw [empty] at hgrid
    cases hgrid

/- A step of a node that deals is a step of the view. -/
theorem view_step {key : ℕ → Deck.Key} {deal : Deal} {e : Event} (hstage : s.stages e.id = .dealing)
    (h : net.step key s.deal e = some deal) :
    net.step key (view finalDeck s) e = some (view finalDeck { s with deal := deal }) := by
  have hsame : (view finalDeck s).players e.id = s.deal.players e.id := view_dealing hstage
  have hview : ∀ player grid, deal = ⟨Function.update s.deal.players e.id player, grid⟩ →
      (⟨Function.update (view finalDeck s).players e.id player, grid⟩ : Deal) =
        view finalDeck { s with deal := deal } := by
    intro player grid hdeal
    subst hdeal
    refine deal_eq (funext fun j => ?_) rfl
    dsimp only [view]
    by_cases hj : j = e.id
    · rw [hj, Function.update_self, hstage, Function.update_self]
    · rw [Function.update_of_ne hj, Function.update_of_ne hj]
  cases e with
  | send id =>
    obtain ⟨hid, request, hplayer, hroom, hdeal⟩ := step_send h
    rw [step, if_pos hid, show (view finalDeck s).players id = s.deal.players id from hsame, hplayer]
    exact (if_pos hroom).trans (congrArg some (hview _ _ hdeal))
  | receive id =>
    obtain ⟨hid, hplayer, request, rest, hqueue, hdeal⟩ := step_receive h
    rw [step, if_pos hid, show (view finalDeck s).players id = s.deal.players id from hsame, hplayer,
      show (view finalDeck s).dealingGrid = s.deal.dealingGrid from rfl, hqueue]
    exact congrArg some (hview _ _ hdeal)

theorem view_trace (hdeck : net.deckAfter luck (net.numNodes - 1) = some finalDeck)
    (ht : Trace (net.runStep luck) Free (net.runStart luck) es s) :
    Trace (net.step (keyOf luck)) Free (start finalDeck) (es.filterMap Happening.dealt) (view finalDeck s) := by
  have hstart : view finalDeck (net.runStart luck) = start finalDeck := view_start
  rw [← hstart]
  refine ht.project (view finalDeck) Happening.dealt ?_
  intro fs t e t' hfs _ hs
  have hr := Relay.of_trace hfs
  cases e with
  | pass id =>
    obtain ⟨_, _, hstage, rfl⟩ := step_pass hs
    exact .inl ⟨rfl, view_update (by simp [hstage]) (by simp)⟩
  | take id =>
    obtain ⟨_, hstage, deck, _, _, rfl⟩ := step_take hs
    refine .inl ⟨rfl, view_update (by simp [hstage]) ?_⟩
    rcases passes_cases net (luck id) deck with ⟨_, _, hpasses⟩ | ⟨hfailed, _⟩
    · simp [hpasses]
    · simp [hfailed]
  | final id =>
    obtain ⟨hid, hstage, deck, _, ⟨rfl, _, rfl⟩ | ⟨hne, hgrid, rfl⟩⟩ := step_final hs
    · exact .inl ⟨rfl, view_update (by simp [hstage]) (by simp)⟩
    · obtain rfl := Option.some.inj (hdeck.symm.trans (hr.final_deck hne hid hstage hgrid))
      exact .inl ⟨rfl, view_enter (by simp [hstage])⟩
  | broadcast =>
    obtain ⟨i, deck, hstage, ⟨_, rfl⟩ | ⟨_, rfl⟩⟩ := step_broadcast hs
    · exact .inl ⟨rfl, view_update (by simp [hstage]) (by simp)⟩
    · obtain ⟨_, _, hfinal, _⟩ := hr.broadcasting hstage
      obtain rfl := Option.some.inj (hdeck.symm.trans hfinal)
      exact .inl ⟨rfl, view_enter (by simp [hstage])⟩
  | deal e =>
    obtain ⟨hstage, deal, hdeal, rfl⟩ := step_deal hs
    exact .inr ⟨e, rfl, view_step hstage hdeal⟩

/-! ### No deadlock -/

theorem event_lt {key : ℕ → Deck.Key} {d : Deal} {e : Event} (h : (net.step key d e).isSome = true) :
    e.id < net.numNodes := by
  obtain ⟨_, hstep⟩ := Option.isSome_iff_exists.mp h
  cases e with
  | send id => exact (step_send hstep).1
  | receive id => exact (step_receive hstep).1

/- Whether a node can go on is seen from where it stands and from the channels. -/
theorem step_isSome_congr {key : ℕ → Deck.Key} {d d' : Deal} {e : Event} (hplayer : d.players e.id = d'.players e.id)
    (hgrid : d.dealingGrid = d'.dealingGrid) (h : (net.step key d e).isSome = true) :
    (net.step key d' e).isSome = true := by
  obtain ⟨next, hnext⟩ := Option.isSome_iff_exists.mp h
  cases e with
  | send id =>
    obtain ⟨hid, request, hsending, hroom, _⟩ := step_send hnext
    rw [step, if_pos hid, ← show d.players id = d'.players id from hplayer, hsending, ← hgrid]
    dsimp only
    rw [if_pos hroom]
    rfl
  | receive id =>
    obtain ⟨hid, hreceiving, request, rest, hqueue, _⟩ := step_receive hnext
    rw [step, if_pos hid, ← show d.players id = d'.players id from hplayer, hreceiving, ← hgrid, hqueue]
    rfl

theorem can_pass {deck : List Bytes} (hid : id < net.numNodes) (hstage : s.stages id = .passing deck)
    (hgrid : s.shuffleGrid id (net.dst id) = []) : (net.runStep luck s (.pass id)).isSome = true := by
  rw [runStep, if_pos hid, hstage, hgrid]
  rfl

theorem can_take {deck : List Bytes} {rest : List (List Bytes)} (hid : id < net.numNodes)
    (hstage : s.stages id = .awaiting) (hgrid : s.shuffleGrid (id - 1) id = deck :: rest) :
    (net.runStep luck s (.take id)).isSome = true := by
  rw [runStep, if_pos hid, hstage, hgrid]
  rfl

theorem can_final {deck : List Bytes} {rest : List (List Bytes)} (hid : id < net.numNodes) (hne : id ≠ 0)
    (hstage : s.stages id = .awaitingFinal) (hgrid : s.shuffleGrid 0 id = deck :: rest) :
    (net.runStep luck s (.final id)).isSome = true := by
  rw [runStep, if_pos hid, if_neg hne, hstage, hgrid]
  rfl

theorem Relay.progress (hr : net.Relay luck s) (hgood : ∀ id < net.numNodes, (luck id).Good) :
    (∃ e, (net.runStep luck s e).isSome = true) ∨ ∀ id < net.numNodes, s.stages id = .dealing := by
  have hn := net.one_lt
  cases hr with
  | @held k deck hk hdeck hold before after empty => exact .inl ⟨.pass k, can_pass hk hold (empty _ _)⟩
  | @sent k deck hk hdeck before after grid =>
    rcases Nat.lt_or_ge (k + 1) net.numNodes with hmore | hlast
    · have hdst : net.dst k = k + 1 := Nat.mod_eq_of_lt hmore
      have hstage : s.stages (k + 1) = .awaiting := by
        rw [after (k + 1) (by omega) hmore, waits, if_pos (hgood (k + 1) hmore).1]
      have hqueue : s.shuffleGrid (k + 1 - 1) (k + 1) = [deck] := by
        rw [grid, hdst]
        exact setDeck_self ..
      exact .inl ⟨.take (k + 1), can_take hmore hstage hqueue⟩
    · obtain rfl : k = net.numNodes - 1 := by omega
      have hdst : net.dst (net.numNodes - 1) = 0 := by
        rw [dst, Nat.sub_add_cancel (by omega), Nat.mod_self]
      refine .inl ⟨.final 0, ?_⟩
      rw [runStep, if_pos (by omega), if_pos rfl, before 0 (Nat.zero_le _), grid, hdst, setDeck_self]
      rfl
  | @spread i deck hpos hi hdeck leader reached ahead =>
    by_cases hmore : i < net.numNodes
    · refine .inl ⟨.broadcast, ?_⟩
      rw [if_pos hmore] at leader
      rw [runStep, leader]
      dsimp only
      rw [(ahead i le_rfl hmore).2, if_pos (show [].length < chanCap from one_pos)]
      split_ifs
      · rfl
      · rfl
    · by_cases hall : ∀ id < net.numNodes, s.stages id = .dealing
      · exact .inr hall
      · simp only [not_forall] at hall
        obtain ⟨id, hid, hstage⟩ := hall
        have hne : id ≠ 0 := by
          rintro rfl
          exact hstage (leader.trans (if_neg hmore))
        rcases reached id (by omega) (by omega) with ⟨hwait, hqueue⟩ | ⟨hdeal, _⟩
        · exact .inl ⟨.final id, can_final hid hne hwait hqueue⟩
        · exact absurd hdeal hstage
  | lost bad _ _ =>
    obtain ⟨id, hid, hbad⟩ := bad
    exact absurd (hgood id hid) hbad

/-! ### The cards -/

/- Every card of the deck is a number below the prime, without a zero in front. -/
theorem canonical_decimal {prime card : ℕ} (hprime : 13617 < prime) (hcard : card < 52) :
    Deck.Canonical prime (decimal card) := by
  have hall : ∀ card < 52, (decimal card).head? ≠ some 0 ∧ beVal (decimal card) ≤ 13617 := by decide +kernel
  exact ⟨(hall card hcard).1, (hall card hcard).2.trans_lt hprime⟩

/-- The node has returned with its two cards of the deck shuffled in the clear. -/
def Returned (net : Network) (luck : ℕ → Luck) (s : Running) (id : ℕ) : Prop :=
  s.stages id = .dealing ∧ ∃ card1 card2, (plainDeck luck (net.numNodes - 1))[2 * id]? = some card1 ∧
    (plainDeck luck (net.numNodes - 1))[2 * id + 1]? = some card2 ∧
    s.deal.players id = .returned (decimal card1) (decimal card2)

/- A card at its place in the final deck, once all layers are off. -/
theorem plain_of_fullyDecrypted {i : ℕ} {value card : Bytes} (hprime : net.prime.Prime) (hcards : 13617 < net.prime)
    (hkeys : ∀ id < net.numNodes, (keyOf luck id).Inverse net.prime)
    (hvalue : ((plainDeck luck (net.numNodes - 1)).map fun card =>
      (Deck.cipher net.prime).lock ((List.range net.numNodes).map (keyOf luck)) (decimal card))[i]? = some value)
    (hcard : net.FullyDecrypted (keyOf luck) value card) :
    ∃ c, (plainDeck luck (net.numNodes - 1))[i]? = some c ∧ card = decimal c := by
  rw [List.getElem?_map] at hvalue
  obtain ⟨c, hc, hlock⟩ := Option.map_eq_some_iff.mp hvalue
  have hlt : c < 52 := List.mem_range.mp ((plainDeck_perm luck _).mem_iff.mp (List.mem_of_getElem? hc))
  exact ⟨c, hc, hcard.plain hprime hkeys _ _ (.refl _) (canonical_decimal hcards hlt) hlock.symm⟩

theorem run_deals (net : Network) (luck : ℕ → Luck) (hprime : net.prime.Prime) (hcards : 13617 < net.prime)
    (hdeck : 2 * net.numNodes ≤ 52) (hgood : ∀ id < net.numNodes, (luck id).Good)
    (hkeys : ∀ id < net.numNodes, Deck.Generates net.prime (keyOf luck id)) {es : List Happening} {s : Running}
    (ht : Trace (net.runStep luck) Free (net.runStart luck) es s) :
    (plainDeck luck (net.numNodes - 1)).Perm (List.range 52) ∧
    es.length ≤ 4 * net.numNodes - 2 + 2 * net.numNodes * net.numNodes ∧
    ((∃ e, (net.runStep luck s e).isSome = true) ∨ ∀ id < net.numNodes, net.Returned luck s id) ∧
    ∀ id < net.numNodes, ∀ card1 card2, s.stages id = .dealing → s.deal.players id = .returned card1 card2 →
      net.Returned luck s id := by
  have hn := net.one_lt
  have hfinal := net.deckAfter_eq (k := net.numNodes - 1) fun id hid => hgood id (by omega)
  rw [Nat.sub_add_cancel (by omega)] at hfinal
  have hdeal := view_trace hfinal ht
  have hsize := (plainDeck_perm luck (net.numNodes - 1)).length_eq
  rw [List.length_range] at hsize
  obtain ⟨r, hp, hshows, hmoves⟩ := shows_of_trace (by rw [List.length_map, hsize]; exact hdeck) hdeal
  have hreturned : ∀ id < net.numNodes, ∀ card1 card2, s.stages id = .dealing →
      s.deal.players id = .returned card1 card2 → net.Returned luck s id := by
    intro id hid card1 card2 hstage hplayer
    obtain ⟨value1, value2, hvalue1, hvalue2, hcard1, hcard2⟩ :=
      hshows.cards (by rw [List.length_map, hsize]; exact hdeck) hid ((view_dealing hstage).trans hplayer)
    have hinverse : ∀ id < net.numNodes, (keyOf luck id).Inverse net.prime := fun id hid => (hkeys id hid).inverse
    obtain ⟨c1, hc1, rfl⟩ := plain_of_fullyDecrypted hprime hcards hinverse hvalue1 hcard1
    obtain ⟨c2, hc2, rfl⟩ := plain_of_fullyDecrypted hprime hcards hinverse hvalue2 hcard2
    exact ⟨hstage, c1, c2, hc1, hc2, hplayer⟩
  refine ⟨plainDeck_perm luck _, ?_, ?_, hreturned⟩
  · have hlength := length_le ht
    have hbound := hp.moves_le
    omega
  · rcases (Relay.of_trace ht).progress hgood with hgo | hall
    · exact .inl hgo
    · rcases hshows.progress hp with hdone | ⟨e, he⟩
      · refine .inr ?_
        intro id hid
        obtain ⟨card1, card2, hplayer⟩ := hdone id hid
        rw [view_dealing (hall id hid)] at hplayer
        exact hreturned id hid card1 card2 (hall id hid) hplayer
      · refine .inl ⟨.deal e, ?_⟩
        have hid := event_lt he
        have hstep := step_isSome_congr (view_dealing (hall _ hid)) rfl he
        rw [runStep, hall _ hid]
        dsimp only
        rw [Option.isSome_map]
        exact hstep

/- Two nodes with one key, whose random source draws nothing but 0. -/
def pair : Network := { headsUp with prime := 13619, prime_pos := by decide }

def pairLuck : ℕ → Luck := fun _ => ⟨some ⟨3, 9079⟩, some fun i => ⟨0, i.succ_pos⟩⟩

def pairRun : List Happening :=
  [.pass 0, .take 1, .pass 1, .final 0, .broadcast, .deal (.send 0), .final 1, .deal (.send 1), .deal (.receive 1),
    .deal (.receive 0), .deal (.send 1), .deal (.send 0), .deal (.receive 0), .deal (.receive 1)]

def pairDealt : Running := run (pair.runStep pairLuck) Free (pair.runStart pairLuck) pairRun

theorem pair_deals : newNetwork ⟨2, some 13619⟩ = .ok pair ∧
    pairDealt.deal.players 1 = .returned (ascii "4") (ascii "5") ∧ pair.Returned pairLuck pairDealt 1 := by
  have ht : Trace (pair.runStep pairLuck) Free (pair.runStart pairLuck) pairRun pairDealt :=
    run_trace (by decide +kernel)
  have hkey : Deck.Generates pair.prime ⟨3, 9079⟩ := ⟨[3], by decide, by decide +kernel⟩
  have hplayer : pairDealt.deal.players 1 = .returned (ascii "4") (ascii "5") := by decide +kernel
  have hprime : pair.prime.Prime := by
    rw [pair]
    norm_num
  obtain ⟨_, _, _, hreturned⟩ := run_deals pair pairLuck hprime (by decide) (by decide)
    (fun _ _ => ⟨rfl, rfl⟩) (fun _ _ => hkey) ht
  exact ⟨rfl, hplayer, hreturned 1 (by decide) _ _ (by decide +kernel) hplayer⟩

/-! ### A node that fails -/

/- Nobody gets past the receive of a deck that does not come. -/
theorem Relay.unfinished (hr : net.Relay luck s) (hbad : ∃ id < net.numNodes, ¬ (luck id).Good)
    (id : ℕ) (hid : id < net.numNodes) :
    s.stages id = .awaiting ∨ s.stages id = .awaitingFinal ∨
      (∃ deck, s.stages id = .passing deck ∧ (net.runStep luck s (.pass id)).isSome = true) ∨
      s.stages id = .failed ∧ ¬ (luck id).Good := by
  have hwaits : s.stages id = waits luck id → s.stages id = .awaiting ∨ s.stages id = .failed ∧ ¬ (luck id).Good := by
    intro h
    rw [h]
    exact waits_cases luck id
  cases hr with
  | @held k deck hk _ hold before after empty =>
    rcases lt_trichotomy id k with hlt | rfl | hgt
    · exact .inr (.inl (before id hlt))
    · exact .inr (.inr (.inl ⟨deck, hold, can_pass hid hold (empty _ _)⟩))
    · rcases hwaits (after id hgt hid) with hwait | hfailed
      · exact .inl hwait
      · exact .inr (.inr (.inr hfailed))
  | @sent k _ _ _ before after _ =>
    rcases le_or_gt id k with hle | hgt
    · exact .inr (.inl (before id hle))
    · rcases hwaits (after id hgt hid) with hwait | hfailed
      · exact .inl hwait
      · exact .inr (.inr (.inr hfailed))
  | spread _ _ hdeck _ _ _ =>
    obtain ⟨bad, hlt, hnot⟩ := hbad
    exact absurd (good_of_deckAfter hdeck bad (by omega)) hnot
  | lost _ idle _ =>
    rcases idle id hid with hwait | hwait | hfailed
    · exact .inl hwait
    · exact .inr (.inl hwait)
    · exact .inr (.inr (.inr hfailed))

theorem no_deal (hbad : ∃ id < net.numNodes, ¬ (luck id).Good)
    (ht : Trace (net.runStep luck) Free (net.runStart luck) es s) : es.filterMap Happening.dealt = [] := by
  induction ht with
  | nil => rfl
  | @snoc t _ es e ht _ hs ih =>
    rw [List.filterMap_append, ih, List.nil_append]
    cases e with
    | deal e =>
      obtain ⟨hstage, deal, hdeal, _⟩ := step_deal hs
      have hid := event_lt (Option.isSome_iff_exists.mpr ⟨deal, hdeal⟩)
      rcases (Relay.of_trace ht).unfinished hbad e.id hid with h | h | ⟨_, h, _⟩ | ⟨h, _⟩
      all_goals
        rw [h] at hstage
        cases hstage
    | pass _ => rfl
    | take _ => rfl
    | final _ => rfl
    | broadcast => rfl

theorem failed_node_blocks (net : Network) (luck : ℕ → Luck) (hbad : ∃ id < net.numNodes, ¬ (luck id).Good)
    {es : List Happening} {s : Running} (ht : Trace (net.runStep luck) Free (net.runStart luck) es s) :
    es.length ≤ 4 * net.numNodes - 2 ∧ (∀ id < net.numNodes, s.stages id ≠ .dealing) ∧
    (∀ id < net.numNodes, (luck id).Good → s.stages id ≠ .failed) ∧
    ((∀ e, net.runStep luck s e = none) → ∀ id < net.numNodes, (luck id).Good →
      s.stages id = .awaiting ∨ s.stages id = .awaitingFinal) := by
  have hstages := (Relay.of_trace ht).unfinished hbad
  refine ⟨?_, ?_, ?_, ?_⟩
  · have hlength := length_le ht
    rw [no_deal hbad ht] at hlength
    exact (Nat.le_add_right _ _).trans (hlength.trans (Nat.zero_add _).le)
  · intro id hid hdeal
    rcases hstages id hid with h | h | ⟨_, h, _⟩ | ⟨h, _⟩
    all_goals
      rw [h] at hdeal
      cases hdeal
  · intro id hid hgood hfailed
    rcases hstages id hid with h | h | ⟨_, h, _⟩ | ⟨_, hnot⟩
    · rw [h] at hfailed
      cases hfailed
    · rw [h] at hfailed
      cases hfailed
    · rw [h] at hfailed
      cases hfailed
    · exact hnot hgood
  · intro hstuck id hid hgood
    rcases hstages id hid with h | h | ⟨_, _, hcan⟩ | ⟨_, hnot⟩
    · exact .inl h
    · exact .inr h
    · rw [hstuck] at hcan
      cases hcan
    · exact absurd hgood hnot

/- The source of the second node fails when it comes to shuffle. -/
def poorLuck : ℕ → Luck := fun id => if id = 1 then ⟨some ⟨3, 9079⟩, none⟩ else pairLuck id

def pairStuck : Running := run (pair.runStep poorLuck) Free (pair.runStart poorLuck) [.pass 0, .take 1]

theorem pair_blocks : pairStuck.stages 1 = .failed ∧ pairStuck.stages 0 ≠ .dealing ∧ pairStuck.stages 0 ≠ .failed := by
  have ht : Trace (pair.runStep poorLuck) Free (pair.runStart poorLuck) [.pass 0, .take 1] pairStuck :=
    run_trace (by decide +kernel)
  obtain ⟨_, hdealing, hfailed, _⟩ := failed_node_blocks pair poorLuck
    ⟨1, by decide, fun h => by cases h.2⟩ ht
  exact ⟨by decide +kernel, hdealing 0 (by decide), hfailed 0 (by decide) ⟨rfl, rfl⟩⟩

end Network

end P2Poker.Sim
