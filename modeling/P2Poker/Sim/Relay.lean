import P2Poker.Lib.Decimal
import P2Poker.Lib.Simulation
import P2Poker.Sim.Dealing

/-!
# A run of the simulator (internal/sim/sim.go: Run, runLeader, runFollower, shufflePhase)

The leader sends a shuffled deck around the ring, every node shuffles it and puts a
layer on, and the leader sends what comes back to everybody. A node that has the final
deck deals, while others still wait for it. A node whose random source fails returns,
and leaves the others waiting.
-/

namespace P2Poker.Sim
open P2Poker.Lib P2Poker.Crypto

/- What the random source gives a node: `none` is an error of GenerateKey or Shuffle. -/
structure Luck where
  key : Option Deck.Key
  draws : Option Deck.Draws

def Luck.Good (luck : Luck) : Prop := luck.key.isSome = true ∧ luck.draws.isSome = true

/-- Where the goroutine of a node stands before it deals. -/
inductive Stage where
  | failed
  -- shufflePhaseFollower: at the receive from the node before
  | awaiting
  -- at the send to the next node
  | passing (deck : List Bytes)
  -- at the receive of the final deck
  | awaitingFinal
  -- shufflePhaseLeader: at the send of the final deck to node i
  | broadcasting (i : ℕ) (finalDeck : List Bytes)
  | dealing
  deriving DecidableEq

structure Running where
  stages : ℕ → Stage
  shuffleGrid : ℕ → ℕ → List (List Bytes)
  deal : Deal

inductive Happening where
  | pass (id : ℕ)
  | take (id : ℕ)
  | final (id : ℕ)
  | broadcast
  | deal (e : Event)
  deriving DecidableEq

def Event.id : Event → ℕ
  | .send id => id
  | .receive id => id

def setDeck (grid : ℕ → ℕ → List (List Bytes)) (src dst : ℕ) (queue : List (List Bytes)) :
    ℕ → ℕ → List (List Bytes) :=
  fun i j => if i = src ∧ j = dst then queue else grid i j

def freshDeck : List Bytes := (List.range 52).map decimal

namespace Network
variable (net : Network) (luck : ℕ → Luck)

/- Shuffle and EncryptDeck, with the key that the node has. -/
def shuffled (luck : Luck) (deck : List Bytes) : Option (List Bytes) :=
  match luck.key, luck.draws with
  | some key, some draws => some (Deck.encryptDeck (Deck.shuffle draws deck) key net.prime)
  | _, _ => none

def passes (luck : Luck) (deck : List Bytes) : Stage :=
  match net.shuffled luck deck with
  | some deck => .passing deck
  | none => .failed

/- A follower without a key has returned. -/
def waits (id : ℕ) : Stage := if (luck id).key.isSome then .awaiting else .failed

def runStart : Running where
  stages id := if id = 0 then net.passes (luck 0) freshDeck else waits luck id
  shuffleGrid _ _ := []
  deal := ⟨fun _ => .panicked, fun _ _ => []⟩

def keyOf (id : ℕ) : Deck.Key := (luck id).key.getD ⟨1, 1⟩

/- runPlayer: the node deals with the deck it has. -/
def enter (s : Running) (id : ℕ) (finalDeck : List Bytes) : Running :=
  { s with
    stages := Function.update s.stages id .dealing
    deal := { s.deal with players := Function.update s.deal.players id ((start finalDeck).players id) } }

def runStep (s : Running) : Happening → Option Running
  | .pass id =>
    if id < net.numNodes then
      match s.stages id with
      | .passing deck =>
        if (s.shuffleGrid id (net.dst id)).length < chanCap then
          some { s with
            stages := Function.update s.stages id .awaitingFinal
            shuffleGrid := setDeck s.shuffleGrid id (net.dst id) (s.shuffleGrid id (net.dst id) ++ [deck]) }
        else none
      | _ => none
    else none
  | .take id =>
    if id < net.numNodes then
      match s.stages id, s.shuffleGrid (id - 1) id with
      | .awaiting, deck :: rest =>
        some { s with
          stages := Function.update s.stages id (net.passes (luck id) deck)
          shuffleGrid := setDeck s.shuffleGrid (id - 1) id rest }
      | _, _ => none
    else none
  | .final id =>
    if id < net.numNodes then
      if id = 0 then
        match s.stages 0, s.shuffleGrid (net.numNodes - 1) 0 with
        | .awaitingFinal, finalDeck :: rest =>
          some { s with
            stages := Function.update s.stages 0 (.broadcasting 1 finalDeck)
            shuffleGrid := setDeck s.shuffleGrid (net.numNodes - 1) 0 rest }
        | _, _ => none
      else
        match s.stages id, s.shuffleGrid 0 id with
        | .awaitingFinal, finalDeck :: rest =>
          some (enter { s with shuffleGrid := setDeck s.shuffleGrid 0 id rest } id finalDeck)
        | _, _ => none
    else none
  | .broadcast =>
    match s.stages 0 with
    | .broadcasting i finalDeck =>
      if (s.shuffleGrid 0 i).length < chanCap then
        let sent := { s with shuffleGrid := setDeck s.shuffleGrid 0 i (s.shuffleGrid 0 i ++ [finalDeck]) }
        if i + 1 < net.numNodes then
          some { sent with stages := Function.update s.stages 0 (.broadcasting (i + 1) finalDeck) }
        else some (enter sent 0 finalDeck)
      else none
    | _ => none
  | .deal e =>
    match s.stages e.id with
    | .dealing => (net.step (keyOf luck) s.deal e).map fun deal => { s with deal := deal }
    | _ => none

/-! ### The way of the deck -/

/- The deck after node `k` has had it. -/
def deckAfter : ℕ → Option (List Bytes)
  | 0 => net.shuffled (luck 0) freshDeck
  | k + 1 => (deckAfter k).bind (net.shuffled (luck (k + 1)))

/-- The deck is with a node, between two nodes, with the leader who sends it to everybody,
or it is lost with a node that has failed. -/
inductive Relay (s : Running) : Prop
  | held {k : ℕ} {deck : List Bytes} (hk : k < net.numNodes) (hdeck : net.deckAfter luck k = some deck)
      (hold : s.stages k = .passing deck) (before : ∀ id < k, s.stages id = .awaitingFinal)
      (after : ∀ id, k < id → id < net.numNodes → s.stages id = waits luck id)
      (empty : ∀ i j, s.shuffleGrid i j = [])
  | sent {k : ℕ} {deck : List Bytes} (hk : k < net.numNodes) (hdeck : net.deckAfter luck k = some deck)
      (before : ∀ id ≤ k, s.stages id = .awaitingFinal)
      (after : ∀ id, k < id → id < net.numNodes → s.stages id = waits luck id)
      (grid : s.shuffleGrid = setDeck (fun _ _ => []) k (net.dst k) [deck])
  | spread {i : ℕ} {deck : List Bytes} (hpos : 0 < i) (hi : i ≤ net.numNodes)
      (hdeck : net.deckAfter luck (net.numNodes - 1) = some deck)
      (leader : s.stages 0 = if i < net.numNodes then .broadcasting i deck else .dealing)
      (reached : ∀ id, 0 < id → id < i → s.stages id = .awaitingFinal ∧ s.shuffleGrid 0 id = [deck] ∨
        s.stages id = .dealing ∧ s.shuffleGrid 0 id = [])
      (ahead : ∀ id, i ≤ id → id < net.numNodes → s.stages id = .awaitingFinal ∧ s.shuffleGrid 0 id = [])
  | lost (bad : ∃ id < net.numNodes, ¬ (luck id).Good)
      (idle : ∀ id < net.numNodes, s.stages id = .awaiting ∨ s.stages id = .awaitingFinal ∨
        s.stages id = .failed ∧ ¬ (luck id).Good)
      (empty : ∀ i j, s.shuffleGrid i j = [])

variable {net luck} {s s' : Running} {id : ℕ}

@[simp] theorem enter_stages_self (s : Running) (id : ℕ) (finalDeck : List Bytes) :
    (enter s id finalDeck).stages id = .dealing := Function.update_self ..

theorem enter_stages_ne {j : ℕ} {finalDeck : List Bytes} (h : j ≠ id) :
    (enter s id finalDeck).stages j = s.stages j := Function.update_of_ne h ..

theorem setDeck_self (grid : ℕ → ℕ → List (List Bytes)) (src dst : ℕ) (queue : List (List Bytes)) :
    setDeck grid src dst queue src dst = queue := if_pos ⟨rfl, rfl⟩

theorem setDeck_ne {grid : ℕ → ℕ → List (List Bytes)} {src dst i j : ℕ} {queue : List (List Bytes)}
    (h : ¬ (i = src ∧ j = dst)) : setDeck grid src dst queue i j = grid i j := if_neg h

theorem not_good_of_shuffled {luck : Luck} {deck : List Bytes} (h : net.shuffled luck deck = none) : ¬ luck.Good := by
  rintro ⟨hkey, hdraws⟩
  obtain ⟨key, hkey⟩ := Option.isSome_iff_exists.mp hkey
  obtain ⟨draws, hdraws⟩ := Option.isSome_iff_exists.mp hdraws
  rw [shuffled, hkey, hdraws] at h
  cases h

theorem good_of_shuffled {luck : Luck} {deck deck' : List Bytes} (h : net.shuffled luck deck = some deck') :
    luck.Good := by
  unfold shuffled at h
  split at h
  · rename_i hkey hdraws
    exact ⟨by rw [hkey]; rfl, by rw [hdraws]; rfl⟩
  · cases h

theorem waits_cases (luck : ℕ → Luck) (id : ℕ) :
    waits luck id = .awaiting ∨ waits luck id = .failed ∧ ¬ (luck id).Good := by
  unfold waits
  split_ifs with hkey
  · exact .inl rfl
  · exact .inr ⟨rfl, fun hgood => hkey hgood.1⟩

theorem passes_cases (net : Network) (luck : Luck) (deck : List Bytes) :
    (∃ deck', net.shuffled luck deck = some deck' ∧ net.passes luck deck = .passing deck') ∨
      net.passes luck deck = .failed ∧ ¬ luck.Good := by
  unfold passes
  cases h : net.shuffled luck deck with
  | some deck' => exact .inl ⟨deck', rfl, rfl⟩
  | none => exact .inr ⟨rfl, not_good_of_shuffled h⟩

theorem one_lt (net : Network) : 1 < net.numNodes := net.two_le

theorem Relay.start : net.Relay luck (net.runStart luck) := by
  have hpos : 0 < net.numNodes := by
    have := net.one_lt
    omega
  have hafter : ∀ id, 0 < id → (net.runStart luck).stages id = waits luck id := fun id hid => if_neg hid.ne'
  have hleader : (net.runStart luck).stages 0 = net.passes (luck 0) freshDeck := rfl
  rcases passes_cases net (luck 0) freshDeck with ⟨deck, hdeck, hpasses⟩ | ⟨hfailed, hbad⟩
  · exact .held hpos hdeck (hleader.trans hpasses) (by simp) (fun id hid _ => hafter id hid) fun _ _ => rfl
  · refine .lost ⟨0, hpos, hbad⟩ ?_ fun _ _ => rfl
    intro id _
    rcases Nat.eq_zero_or_pos id with rfl | hid
    · exact .inr (.inr ⟨hleader.trans hfailed, hbad⟩)
    · rw [hafter id hid]
      rcases waits_cases luck id with hwait | hfail
      · exact .inl hwait
      · exact .inr (.inr hfail)

theorem step_pass (h : net.runStep luck s (.pass id) = some s') :
    id < net.numNodes ∧ ∃ deck, s.stages id = .passing deck ∧
      s' = { s with
        stages := Function.update s.stages id .awaitingFinal
        shuffleGrid := setDeck s.shuffleGrid id (net.dst id) (s.shuffleGrid id (net.dst id) ++ [deck]) } := by
  rw [runStep] at h
  split_ifs at h with hid hroom
  · split at h
    · rename_i deck hstage
      exact ⟨hid, deck, hstage, (Option.some.inj h).symm⟩
    · cases h
  · split at h <;> cases h

theorem step_take (h : net.runStep luck s (.take id) = some s') :
    id < net.numNodes ∧ s.stages id = .awaiting ∧ ∃ deck rest, s.shuffleGrid (id - 1) id = deck :: rest ∧
      s' = { s with
        stages := Function.update s.stages id (net.passes (luck id) deck)
        shuffleGrid := setDeck s.shuffleGrid (id - 1) id rest } := by
  rw [runStep] at h
  split_ifs at h with hid
  split at h
  · rename_i deck rest hstage hgrid
    exact ⟨hid, hstage, deck, rest, hgrid, (Option.some.inj h).symm⟩
  · cases h

theorem step_final (h : net.runStep luck s (.final id) = some s') :
    id < net.numNodes ∧ s.stages id = .awaitingFinal ∧ ∃ deck rest,
      (id = 0 ∧ s.shuffleGrid (net.numNodes - 1) 0 = deck :: rest ∧
        s' = { s with
          stages := Function.update s.stages 0 (.broadcasting 1 deck)
          shuffleGrid := setDeck s.shuffleGrid (net.numNodes - 1) 0 rest } ∨
       id ≠ 0 ∧ s.shuffleGrid 0 id = deck :: rest ∧
        s' = enter { s with shuffleGrid := setDeck s.shuffleGrid 0 id rest } id deck) := by
  rw [runStep] at h
  split_ifs at h with hid hzero
  · subst hzero
    split at h
    · rename_i deck rest hstage hgrid
      exact ⟨hid, hstage, deck, rest, .inl ⟨rfl, hgrid, (Option.some.inj h).symm⟩⟩
    · cases h
  · split at h
    · rename_i deck rest hstage hgrid
      exact ⟨hid, hstage, deck, rest, .inr ⟨hzero, hgrid, (Option.some.inj h).symm⟩⟩
    · cases h

theorem step_broadcast (h : net.runStep luck s .broadcast = some s') :
    ∃ i deck, s.stages 0 = .broadcasting i deck ∧
      (i + 1 < net.numNodes ∧ s' = { s with
        shuffleGrid := setDeck s.shuffleGrid 0 i (s.shuffleGrid 0 i ++ [deck])
        stages := Function.update s.stages 0 (.broadcasting (i + 1) deck) } ∨
       ¬ i + 1 < net.numNodes ∧
        s' = enter { s with shuffleGrid := setDeck s.shuffleGrid 0 i (s.shuffleGrid 0 i ++ [deck]) } 0 deck) := by
  rw [runStep] at h
  split at h
  · rename_i i deck hstage
    split_ifs at h with _ hmore
    · exact ⟨i, deck, hstage, .inl ⟨hmore, (Option.some.inj h).symm⟩⟩
    · exact ⟨i, deck, hstage, .inr ⟨hmore, (Option.some.inj h).symm⟩⟩
  · cases h

theorem step_deal {e : Event} (h : net.runStep luck s (.deal e) = some s') :
    s.stages e.id = .dealing ∧ ∃ deal, net.step (keyOf luck) s.deal e = some deal ∧ s' = { s with deal := deal } := by
  rw [runStep] at h
  split at h
  · rename_i hstage
    obtain ⟨deal, hstep, rfl⟩ := Option.map_eq_some_iff.mp h
    exact ⟨hstage, deal, hstep, rfl⟩
  · cases h

/- Once the leader has the deck of all nodes, no node is before the receive of it. -/
theorem spread_stage {i : ℕ} {deck : List Bytes}
    (leader : s.stages 0 = if i < net.numNodes then .broadcasting i deck else .dealing)
    (reached : ∀ id, 0 < id → id < i → s.stages id = .awaitingFinal ∧ s.shuffleGrid 0 id = [deck] ∨
      s.stages id = .dealing ∧ s.shuffleGrid 0 id = [])
    (ahead : ∀ id, i ≤ id → id < net.numNodes → s.stages id = .awaitingFinal ∧ s.shuffleGrid 0 id = [])
    (hid : id < net.numNodes) :
    (∃ i deck, s.stages id = .broadcasting i deck) ∨ s.stages id = .awaitingFinal ∨ s.stages id = .dealing := by
  rcases Nat.eq_zero_or_pos id with rfl | hpos
  · split_ifs at leader
    · exact .inl ⟨i, deck, leader⟩
    · exact .inr (.inr leader)
  · rcases lt_or_ge id i with hlt | hge
    · rcases reached id hpos hlt with ⟨hwait, _⟩ | ⟨hdeal, _⟩
      · exact .inr (.inl hwait)
      · exact .inr (.inr hdeal)
    · exact .inr (.inl (ahead id hge hid).1)

theorem Relay.pass (hr : net.Relay luck s) (h : net.runStep luck s (.pass id) = some s') : net.Relay luck s' := by
  obtain ⟨hid, deck, hstage, rfl⟩ := step_pass h
  cases hr with
  | @held k deck' hk hdeck hold before after empty =>
    -- only the node that has the deck is at that send
    obtain rfl : id = k := by
      rcases lt_trichotomy id k with hlt | heq | hgt
      · rw [before id hlt] at hstage
        cases hstage
      · exact heq
      · rw [after id hgt hid] at hstage
        rcases waits_cases luck id with hother | ⟨hother, _⟩
        all_goals
          rw [hother] at hstage
          cases hstage
    obtain rfl := Stage.passing.inj (hold.symm.trans hstage)
    refine .sent hk hdeck ?_ ?_ ?_
    · intro j hj
      by_cases hjid : j = id
      · rw [hjid]
        exact Function.update_self ..
      · exact (Function.update_of_ne hjid ..).trans (before j (by omega))
    · intro j hj hjn
      exact (Function.update_of_ne (by omega : j ≠ id) ..).trans (after j hj hjn)
    · have hgrid : s.shuffleGrid = fun _ _ => [] := funext fun i => funext fun j => empty i j
      show setDeck s.shuffleGrid id (net.dst id) (s.shuffleGrid id (net.dst id) ++ [deck']) = _
      rw [hgrid]
      rfl
  | @sent k deck' hk _ before after _ =>
    rcases le_or_gt id k with hle | hgt
    · rw [before id hle] at hstage
      cases hstage
    · rw [after id hgt hid] at hstage
      rcases waits_cases luck id with hother | ⟨hother, _⟩
      all_goals
        rw [hother] at hstage
        cases hstage
  | spread _ _ _ leader reached ahead =>
    rcases spread_stage leader reached ahead hid with ⟨_, _, hother⟩ | hother | hother
    all_goals
      rw [hother] at hstage
      cases hstage
  | lost bad idle empty =>
    rcases idle id hid with hother | hother | ⟨hother, _⟩
    all_goals
      rw [hother] at hstage
      cases hstage

theorem Relay.take (hr : net.Relay luck s) (h : net.runStep luck s (.take id) = some s') : net.Relay luck s' := by
  obtain ⟨hid, hstage, deck, rest, hgrid, rfl⟩ := step_take h
  cases hr with
  | held _ _ _ _ _ empty =>
    rw [empty] at hgrid
    cases hgrid
  | @sent k deck' hk hdeck before after grid =>
    have hlate : k < id := by
      by_contra hle
      rw [before id (by omega)] at hstage
      cases hstage
    obtain ⟨hprev, hdst⟩ : id - 1 = k ∧ id = net.dst k := by
      by_contra hother
      rw [grid, setDeck_ne hother] at hgrid
      cases hgrid
    obtain rfl : id = k + 1 := by omega
    rw [grid, hprev, ← hdst, setDeck_self] at hgrid
    obtain ⟨rfl, rfl⟩ := List.cons_eq_cons.mp hgrid
    have hempty : ∀ i j, setDeck s.shuffleGrid (k + 1 - 1) (k + 1) [] i j = [] := by
      intro i j
      rw [hprev]
      by_cases hij : i = k ∧ j = k + 1
      · rw [hij.1, hij.2, setDeck_self]
      · rw [setDeck_ne hij, grid, ← hdst, setDeck_ne hij]
    have hbefore : ∀ j < k + 1, Function.update s.stages (k + 1) (net.passes (luck (k + 1)) deck') j = .awaitingFinal :=
      fun j hj => (Function.update_of_ne (by omega) ..).trans (before j (by omega))
    have hafter : ∀ j, k + 1 < j → j < net.numNodes →
        Function.update s.stages (k + 1) (net.passes (luck (k + 1)) deck') j = waits luck j :=
      fun j hj hjn => (Function.update_of_ne (by omega) ..).trans (after j (by omega) hjn)
    rcases passes_cases net (luck (k + 1)) deck' with ⟨next, hnext, hpasses⟩ | ⟨hfailed, hbad⟩
    · refine .held hid ?_ ((Function.update_self ..).trans hpasses) hbefore hafter hempty
      rw [deckAfter, hdeck]
      exact hnext
    · refine .lost ⟨k + 1, hid, hbad⟩ ?_ hempty
      intro j hj
      rcases lt_trichotomy j (k + 1) with hlt | rfl | hgt
      · exact .inr (.inl (hbefore j hlt))
      · exact .inr (.inr ⟨(Function.update_self ..).trans hfailed, hbad⟩)
      · rw [show Running.stages _ j = _ from hafter j hgt hj]
        rcases waits_cases luck j with hwait | hfail
        · exact .inl hwait
        · exact .inr (.inr hfail)
  | spread _ _ _ leader reached ahead =>
    rcases spread_stage leader reached ahead hid with ⟨_, _, hother⟩ | hother | hother
    all_goals
      rw [hother] at hstage
      cases hstage
  | lost _ _ empty =>
    rw [empty] at hgrid
    cases hgrid

theorem Relay.final (hr : net.Relay luck s) (h : net.runStep luck s (.final id) = some s') : net.Relay luck s' := by
  have hn := net.one_lt
  obtain ⟨hid, hstage, deck, rest, ⟨rfl, hgrid, rfl⟩ | ⟨hne, hgrid, rfl⟩⟩ := step_final h
  · cases hr with
    | held _ _ _ _ _ empty =>
      rw [empty] at hgrid
      cases hgrid
    | @sent k deck' hk hdeck before after grid =>
      obtain ⟨rfl, hdst⟩ : net.numNodes - 1 = k ∧ 0 = net.dst k := by
        by_contra hother
        rw [grid, setDeck_ne hother] at hgrid
        cases hgrid
      rw [grid, ← hdst, setDeck_self] at hgrid
      obtain ⟨rfl, rfl⟩ := List.cons_eq_cons.mp hgrid
      refine .spread one_pos hn.le hdeck ?_ ?_ ?_
      · rw [if_pos hn]
        exact Function.update_self 0 _ s.stages
      · intro j hpos hlt
        omega
      · intro j hj hjn
        refine ⟨(Function.update_of_ne (by omega) ..).trans (before j (by omega)), ?_⟩
        show setDeck s.shuffleGrid (net.numNodes - 1) 0 [] 0 j = []
        rw [setDeck_ne (by omega), grid, ← hdst, setDeck_ne (by omega)]
    | spread _ _ _ leader _ _ =>
      rw [leader] at hstage
      split_ifs at hstage
    | lost _ _ empty =>
      rw [empty] at hgrid
      cases hgrid
  · cases hr with
    | held _ _ _ _ _ empty =>
      rw [empty] at hgrid
      cases hgrid
    | @sent k deck' hk hdeck before after grid =>
      -- the deck from the leader to the first follower is not the final one
      have hk0 : 0 = k := by
        by_contra hother
        rw [grid, setDeck_ne fun h => hother h.1] at hgrid
        cases hgrid
      rw [after id (by omega) hid] at hstage
      rcases waits_cases luck id with hother | ⟨hother, _⟩
      all_goals
        rw [hother] at hstage
        cases hstage
    | @spread i deck' hpos hi hdeck leader reached ahead =>
      have hlt : id < i := by
        by_contra hge
        rw [(ahead id (by omega) hid).2] at hgrid
        cases hgrid
      have hqueue : s.shuffleGrid 0 id = [deck'] := by
        rcases reached id (by omega) hlt with ⟨_, hqueue⟩ | ⟨_, hqueue⟩
        · exact hqueue
        · rw [hqueue] at hgrid
          cases hgrid
      rw [hqueue] at hgrid
      obtain ⟨rfl, rfl⟩ := List.cons_eq_cons.mp hgrid
      have hstages : ∀ j, j ≠ id → Function.update s.stages id .dealing j = s.stages j :=
        fun j hj => Function.update_of_ne hj _ _
      have hgrids : ∀ j, j ≠ id → setDeck s.shuffleGrid 0 id [] 0 j = s.shuffleGrid 0 j :=
        fun j hj => setDeck_ne fun h => hj h.2
      refine .spread hpos hi hdeck ((hstages 0 hne.symm).trans leader) ?_ ?_
      · intro j hjpos hj
        by_cases hjid : j = id
        · rw [hjid]
          exact .inr ⟨enter_stages_self .., setDeck_self ..⟩
        · show Function.update s.stages id .dealing j = _ ∧ setDeck s.shuffleGrid 0 id [] 0 j = _ ∨
            Function.update s.stages id .dealing j = _ ∧ setDeck s.shuffleGrid 0 id [] 0 j = _
          rw [hstages j hjid, hgrids j hjid]
          exact reached j hjpos hj
      · intro j hj hjn
        have hjid : j ≠ id := by omega
        exact ⟨(hstages j hjid).trans (ahead j hj hjn).1, (hgrids j hjid).trans (ahead j hj hjn).2⟩
    | lost _ _ empty =>
      rw [empty] at hgrid
      cases hgrid

/- Only the leader of a spread deck is at the broadcast. -/
theorem Relay.broadcasting {i : ℕ} {deck : List Bytes} (hr : net.Relay luck s)
    (hstage : s.stages 0 = .broadcasting i deck) :
    0 < i ∧ i < net.numNodes ∧ net.deckAfter luck (net.numNodes - 1) = some deck ∧
      (∀ id, 0 < id → id < i → s.stages id = .awaitingFinal ∧ s.shuffleGrid 0 id = [deck] ∨
        s.stages id = .dealing ∧ s.shuffleGrid 0 id = []) ∧
      ∀ id, i ≤ id → id < net.numNodes → s.stages id = .awaitingFinal ∧ s.shuffleGrid 0 id = [] := by
  cases hr with
  | @held k _ _ _ hold before _ _ =>
    rcases Nat.eq_zero_or_pos k with rfl | hk
    · rw [hold] at hstage
      cases hstage
    · rw [before 0 hk] at hstage
      cases hstage
  | sent _ _ before _ _ =>
    rw [before 0 (Nat.zero_le _)] at hstage
    cases hstage
  | spread hpos hi hdeck leader reached ahead =>
    rw [leader] at hstage
    split_ifs at hstage with hlt
    obtain ⟨rfl, rfl⟩ := Stage.broadcasting.inj hstage
    exact ⟨hpos, hlt, hdeck, reached, ahead⟩
  | lost _ idle _ =>
    have hn := net.one_lt
    rcases idle 0 (by omega) with hother | hother | ⟨hother, _⟩
    all_goals
      rw [hother] at hstage
      cases hstage

theorem Relay.broadcast (hr : net.Relay luck s) (h : net.runStep luck s .broadcast = some s') :
    net.Relay luck s' := by
  obtain ⟨i, deck, hstage, hs'⟩ := step_broadcast h
  obtain ⟨hpos, hi, hdeck, reached, ahead⟩ := hr.broadcasting hstage
  -- whatever the leader does next, node i has the deck in its channel
  have hspread : ∀ s', (s'.stages 0 = if i + 1 < net.numNodes then .broadcasting (i + 1) deck else .dealing) →
      (∀ j, 0 < j → s'.stages j = s.stages j) →
      s'.shuffleGrid = setDeck s.shuffleGrid 0 i (s.shuffleGrid 0 i ++ [deck]) → net.Relay luck s' := by
    intro s' hleader hstages hgrid
    have hgrids : ∀ j, j ≠ i → s'.shuffleGrid 0 j = s.shuffleGrid 0 j := by
      intro j hj
      rw [hgrid, setDeck_ne fun h => hj h.2]
    refine .spread (by omega) hi hdeck hleader ?_ ?_
    · intro j hjpos hj
      rw [hstages j hjpos]
      by_cases hji : j = i
      · rw [hji, hgrid, setDeck_self, (ahead i le_rfl hi).2]
        exact .inl ⟨(ahead i le_rfl hi).1, rfl⟩
      · rw [hgrids j hji]
        exact reached j hjpos (by omega)
    · intro j hj hjn
      rw [hstages j (by omega), hgrids j (by omega)]
      exact ahead j (by omega) hjn
  rcases hs' with ⟨hmore, rfl⟩ | ⟨hlast, rfl⟩
  · refine hspread _ ?_ (fun j hj => Function.update_of_ne hj.ne' ..) rfl
    rw [if_pos hmore]
    exact Function.update_self 0 _ s.stages
  · refine hspread _ ?_ (fun j hj => enter_stages_ne hj.ne') rfl
    rw [if_neg hlast]
    exact enter_stages_self ..

/- Where the players of the deal stand is of no matter to it. -/
theorem Relay.deal (hr : net.Relay luck s) (deal : Deal) : net.Relay luck { s with deal := deal } := by
  cases hr with
  | held hk hdeck hold before after empty => exact .held hk hdeck hold before after empty
  | sent hk hdeck before after grid => exact .sent hk hdeck before after grid
  | spread hpos hi hdeck leader reached ahead => exact .spread hpos hi hdeck leader reached ahead
  | lost bad idle empty => exact .lost bad idle empty

theorem Relay.step {e : Happening} (hr : net.Relay luck s) (h : net.runStep luck s e = some s') :
    net.Relay luck s' := by
  cases e with
  | pass id => exact hr.pass h
  | take id => exact hr.take h
  | final id => exact hr.final h
  | broadcast => exact hr.broadcast h
  | deal e =>
    obtain ⟨_, deal, _, rfl⟩ := step_deal h
    exact hr.deal deal

theorem Relay.of_trace {es : List Happening} (ht : Trace (net.runStep luck) Free (net.runStart luck) es s) :
    net.Relay luck s :=
  ht.keeps .start fun _ _ _ _ hs hr => hr.step hs

end Network

end P2Poker.Sim
