import P2Poker.Game.Ending
import P2Poker.Game.Payload
import P2Poker.Hand.Run

/-!
# Streets and reveals

An entry moves the street on by one or not at all, so the reveals that `Run`
infers from two replays come one by one and in order, and the board is full when
the showdown is reached.
-/

namespace P2Poker.Peer
open P2Poker.Lib P2Poker.Crypto P2Poker.Ephemeral

section Board
variable {K V : Type} {o : Values K V} {u : Setup K} {read : ℕ → Key → Option V} {r r' : Node V} {total : ℕ}

def Phase.hasFailed : Phase V → Bool
  | .failed _ => true
  | _ => false

/-- The cards on the board and the ones to come are `total`, in the order of the deck. -/
def OnBoard (u : Setup K) (total : ℕ) (r : Node V) : Prop :=
  r.phase.hasFailed = true ∨
    ∃ m, r.left u = List.range' (u.communityBase + r.community.length) m ∧ r.community.length + m = total

theorem OnBoard.of_left (hb : OnBoard u total r) (hph : r.phase.hasFailed = false)
    (hleft : r'.left u = r.left u) (hcommunity : r'.community = r.community) : OnBoard u total r' := by
  rcases hb with hfail | ⟨m, hm, htotal⟩
  · rw [hph] at hfail
    cases hfail
  · exact .inr ⟨m, by rw [hleft, hcommunity, hm], by rw [hcommunity, htotal]⟩

theorem setCommunity_length {cardIdx : ℕ} (card : V)
    (h : cardIdx = u.communityBase + r.community.length) :
    (r.setCommunity o u cardIdx card).community.length = r.community.length + 1 := by
  have hone : cardIdx - u.communityBase + 1 - r.community.length = 1 := by omega
  simp only [Node.setCommunity, hone]
  split_ifs <;> simp

theorem reveal_left (r : Node V) (cards : List ℕ) : (r.reveal u cards).phase.hasFailed = true ∨
    (r.reveal u cards).left u = cards ++ r.todo.flatMap (Call.cards u) := by
  unfold Node.reveal
  split
  · exact .inr rfl
  · split
    · exact .inl rfl
    · split_ifs
      · exact .inr rfl
      · exact .inr rfl

/- The card at the head is put on the board. -/
theorem OnBoard.shown {cardIdx : ℕ} {rest : List ℕ} (hb : OnBoard u total r)
    (hph : r.phase.hasFailed = false) (hcards : r.phase.cards = cardIdx :: rest) {x : Node V} (card : V)
    (hcommunity : x.community = r.community) (htodo : x.todo = r.todo) :
    OnBoard u total ((x.setCommunity o u cardIdx card).reveal u rest) := by
  rcases hb with hfail | ⟨m, hm, htotal⟩
  · rw [hph] at hfail
    cases hfail
  · rw [Node.left, hcards, List.cons_append] at hm
    obtain ⟨m, rfl⟩ : ∃ k, m = k + 1 := by
      cases m with
      | zero => cases hm
      | succ k => exact ⟨k, rfl⟩
    rw [List.range'_succ] at hm
    obtain ⟨hidx, hrest⟩ := List.cons.inj hm
    have hlen : (x.setCommunity o u cardIdx card).community.length = r.community.length + 1 := by
      rw [setCommunity_length card (by rw [hcommunity, hidx]), hcommunity]
    rcases reveal_left (u := u) (x.setCommunity o u cardIdx card) rest with hfail | hleft
    · exact .inl hfail
    · refine .inr ⟨m, ?_, ?_⟩
      · rw [hleft, Node.setCommunity_todo, htodo, hrest, Node.reveal_community, hlen, Nat.add_assoc]
      · rw [Node.reveal_community, hlen]
        omega

theorem OnBoard.move (hb : OnBoard u total r) (hm : Node.Move o u read r r') : OnBoard u total r' := by
  cases hm with
  | tooFew => exact .inl rfl
  | openDeck hph htodo => exact hb.of_left (by rw [hph]; rfl) (by rw [Node.left, Node.left, hph, htodo]; rfl) rfl
  | awaitStep hph htodo => exact hb.of_left (by rw [hph]; rfl) (by rw [Node.left, Node.left, hph, htodo]; rfl) rfl
  | openHoles hph htodo => exact hb.of_left (by rw [hph]; rfl) (by rw [Node.left, Node.left, hph, htodo]; rfl) rfl
  | @openReveal call todo hph htodo =>
    rcases reveal_left (u := u) { r with todo := todo } (call.cards u) with hfail | hleft
    · exact .inl hfail
    · refine hb.of_left (by rw [hph]; rfl) ?_ (Node.reveal_community ..)
      rw [hleft, Node.left, hph, htodo]
      rfl
  | gotStep hph => exact hb.of_left (by rw [hph]; rfl) (by rw [Node.left, Node.left, hph]; rfl) rfl
  | badStep => exact .inl rfl
  | shuffle hph =>
    simp only [Node.shuffle]
    split_ifs
    · exact hb.of_left (by rw [hph]; rfl) (by rw [Node.left, Node.left, hph]; rfl) rfl
    · exact hb.of_left (by rw [hph]; rfl) (by rw [Node.left, Node.left, hph]; rfl) rfl
  | gotFinal hph => exact hb.of_left (by rw [hph]; rfl) (by rw [Node.left, Node.left, hph]; rfl) rfl
  | badFinal => exact .inl rfl
  | gotHole hph => exact hb.of_left (by rw [hph]; rfl) (by rw [Node.left, Node.left, hph]; rfl) rfl
  | stripSlot hph =>
    refine hb.of_left (by rw [hph]; rfl) ?_ ?_
    · rw [Node.left, Node.left, hph, Node.stripSlot_todo]
      rfl
    · simp only [Node.stripSlot]
      split_ifs
      · exact Node.setHole_community ..
      · rfl
  | holesDone hph => exact hb.of_left (by rw [hph]; rfl) (by rw [Node.left, Node.left, hph]; rfl) rfl
  | holesFailed => exact .inl rfl
  | gotRelay hph => exact hb.of_left (by rw [hph]; rfl) (by rw [Node.left, Node.left, hph]; rfl) rfl
  | stripCard hph =>
    simp only [Node.stripCard]
    split_ifs
    · exact hb.shown (by rw [hph]; rfl) (by rw [hph]; rfl) _ rfl rfl
    · exact hb.of_left (by rw [hph]; rfl) (by rw [Node.left, Node.left, hph]; rfl) rfl
  | gotCard hph => exact hb.shown (by rw [hph]; rfl) (by rw [hph]; rfl) _ rfl rfl

theorem move_alive (hm : Node.Move o u read r r') : r.phase.hasFailed = false := by
  cases hm <;> simp_all [Phase.hasFailed]

/- Only an idle node takes a call. -/
theorem move_todo (hm : Node.Move o u read r r') :
    r'.todo = r.todo ∧ r.phase ≠ .idle ∨ r.phase = .idle ∧ ∃ k, r.todo = k :: r'.todo := by
  cases hm with
  | shuffle hph =>
    simp only [Node.shuffle]
    split_ifs <;> simp [hph]
  | stripCard hph =>
    simp only [Node.stripCard]
    split_ifs <;> simp [hph]
  | _ => simp_all

/- The shuffle is refused to a single player. -/
theorem begin_shuffle {todo : List Call} (htodo : r.todo = .runShuffle :: todo) (hph : r.phase = .idle)
    (hs : r.begin o u = some r') : r'.phase.hasFailed = true ∨ 2 ≤ u.numPlayers := by
  unfold Node.begin at hs
  simp only [htodo, hph] at hs
  split_ifs at hs with hfew
  · obtain rfl := Option.some.inj hs
    exact .inl rfl
  · exact .inr (by omega)
  · exact .inr (by omega)

theorem step_idle {i : Input} (hph : r.phase = .idle) (hs : r.step o u read i = some r') : i = .begin := by
  cases i <;> simp_all [Node.step]

end Board

/-! ### Answers that are cards -/

section Proper
variable {gob : Codec (List Bytes)} {u : Setup Deck.Key} {read : ℕ → Key → Option Bytes}
  {r r' : Node Bytes} {total : ℕ}

/- A value that no layer can turn into the empty string. -/
def Proper (v : Bytes) : Prop := ¬ PRIME ∣ beVal v

structure ProperAnswers (gob : Codec (List Bytes)) (read : ℕ → Key → Option Bytes) : Prop where
  step : ∀ q q' data d, read q (shuffleStepKey q') = some data → gob.decode data = some d → ∀ card ∈ d, Proper card
  relay : ∀ q cardIdx q' v, read q (communityRelayKey cardIdx q') = some v → Proper v
  card : ∀ q cardIdx v, read q (communityCardKey cardIdx) = some v → Proper v

theorem Proper.ne_nil {v : Bytes} (h : Proper v) : v ≠ [] := by
  rintro rfl
  exact h (dvd_zero _)

theorem proper_exp {b : ℕ} (h : ¬ PRIME ∣ b) (e : ℕ) : Proper (natBytes (Deck.exp b e PRIME)) := by
  have hp : PRIME.Prime := by norm_num [PRIME]
  intro hdvd
  rw [beVal_natBytes, Deck.exp, Nat.dvd_mod_iff dvd_rfl] at hdvd
  exact h (hp.dvd_of_dvd_pow hdvd)

def Phase.Handles (P : Bytes → Prop) : Phase Bytes → Prop
  | .shuffling d => ∀ card ∈ d, P card
  | .stripping _ layered _ => P layered
  | _ => True

structure NodeProper (r : Node Bytes) : Prop where
  deck : ∀ card ∈ r.finalDeck, Proper card
  phase : r.phase.Handles Proper
  board : ∀ card ∈ r.community, Proper card

theorem NodeProper.reveal (hdeck : ∀ card ∈ r.finalDeck, Proper card)
    (hboard : ∀ card ∈ r.community, Proper card) (cards : List ℕ) : NodeProper (r.reveal u cards) := by
  unfold Node.reveal
  split
  · exact ⟨hdeck, trivial, hboard⟩
  · split
    · exact ⟨hdeck, trivial, hboard⟩
    · rename_i hcard
      split_ifs
      · exact ⟨hdeck, hdeck _ (List.mem_of_getElem? hcard), hboard⟩
      · exact ⟨hdeck, trivial, hboard⟩

theorem NodeProper.shown {cardIdx : ℕ} {rest : List ℕ} {card : Bytes} (hb : OnBoard u total r)
    (hph : r.phase.hasFailed = false) (hcards : r.phase.cards = cardIdx :: rest) {x : Node Bytes}
    (hcommunity : x.community = r.community) (hdeck : x.finalDeck = r.finalDeck) (hp : NodeProper r)
    (hcard : Proper card) : NodeProper ((x.setCommunity (wire PRIME gob) u cardIdx card).reveal u rest) := by
  have hidx : x.community.length = cardIdx - u.communityBase := by
    rcases hb with hfail | ⟨m, hm, _⟩
    · rw [hph] at hfail
      cases hfail
    · rw [Node.left, hcards, List.cons_append] at hm
      cases m with
      | zero => cases hm
      | succ m =>
        have := (List.cons.inj hm).1
        rw [hcommunity]
        omega
  rw [setCommunity_eq rfl card hidx]
  refine .reveal (by rw [hdeck]; exact hp.deck) ?_ rest
  intro c hc
  rcases List.mem_append.mp hc with hold | hnew
  · exact hp.board c (hcommunity ▸ hold)
  · rwa [List.mem_singleton.mp hnew]

theorem NodeProper.shuffle {d : List Bytes} (hp : NodeProper r) (hph : r.phase = .shuffling d) :
    NodeProper (r.shuffle (wire PRIME gob) u d) := by
  have hd : ∀ card ∈ d, Proper card := by
    have := hp.phase
    rwa [hph] at this
  have henc : ∀ card ∈ Node.encryptDeck (wire PRIME gob) u (Deck.shuffle u.draws d), Proper card := by
    intro card hcard
    obtain ⟨plain, hplain, rfl⟩ := List.mem_map.mp hcard
    exact proper_exp (hd plain ((Deck.shuffle_perm _ _).mem_iff.mp hplain)) _
  simp only [Node.shuffle]
  split_ifs
  · exact ⟨henc, trivial, hp.board⟩
  · exact ⟨hp.deck, trivial, hp.board⟩

theorem NodeProper.move (hp : NodeProper r) (hb : OnBoard u total r) (hread : ProperAnswers gob read)
    (hm : Node.Move (wire PRIME gob) u read r r') : NodeProper r' := by
  cases hm with
  | tooFew => exact ⟨hp.deck, trivial, hp.board⟩
  | openDeck =>
    refine ⟨hp.deck, ?_, hp.board⟩
    have hplain : ∀ m ∈ List.range 52, ¬ PRIME ∣ beVal (decimal (m + 1)) := by decide +kernel
    intro card hcard
    obtain ⟨m, hm, rfl⟩ := List.mem_map.mp hcard
    exact hplain m hm
  | awaitStep => exact ⟨hp.deck, trivial, hp.board⟩
  | openHoles => exact ⟨hp.deck, trivial, hp.board⟩
  | @openReveal call todo => exact NodeProper.reveal (r := { r with todo := todo }) hp.deck hp.board _
  | gotStep _ hr hdec => exact ⟨hp.deck, hread.step _ _ _ _ hr hdec, hp.board⟩
  | badStep => exact ⟨hp.deck, trivial, hp.board⟩
  | shuffle hph => exact hp.shuffle hph
  | gotFinal _ hr hdec => exact ⟨hread.step _ _ _ _ hr hdec, trivial, hp.board⟩
  | badFinal => exact ⟨hp.deck, trivial, hp.board⟩
  | gotHole => exact ⟨hp.deck, trivial, hp.board⟩
  | stripSlot =>
    simp only [Node.stripSlot]
    split_ifs
    · exact ⟨by rw [Node.setHole_finalDeck]; exact hp.deck, trivial, by rw [Node.setHole_community]; exact hp.board⟩
    · exact ⟨hp.deck, trivial, hp.board⟩
  | holesDone => exact ⟨hp.deck, trivial, hp.board⟩
  | holesFailed => exact ⟨hp.deck, trivial, hp.board⟩
  | gotRelay _ hr => exact ⟨hp.deck, hread.relay _ _ _ _ hr, hp.board⟩
  | stripCard hph =>
    have hlayered := hp.phase
    rw [hph] at hlayered
    simp only [Node.stripCard]
    split_ifs
    · exact .shown hb (by rw [hph]; rfl) (by rw [hph]; rfl) rfl rfl hp (proper_exp hlayered _)
    · exact ⟨hp.deck, trivial, hp.board⟩
  | gotCard hph hr =>
    exact .shown hb (by rw [hph]; rfl) (by rw [hph]; rfl) rfl rfl hp (hread.card _ _ _ hr)

end Proper

end P2Poker.Peer

namespace P2Poker.Hand
open P2Poker.Lib P2Poker.Crypto P2Poker.Game P2Poker.Ephemeral

/-! ### Where a hand stands -/

/- The number of cards on the board of a street. -/
def shown : Street → ℕ
  | .preflop => 0
  | .flop => 3
  | .turn => 4
  | _ => 5

/- The calls made up to a street. -/
def due (street : Street) : List Peer.Call := Peer.hand.take (street.index + 2)

theorem due_prefix (street : Street) : due street <+: Peer.hand := List.take_prefix _ _

/- The reveal of a street is the next call. -/
theorem due_next {street : Street} {k : Peer.Call} (hk : revealCall street.next = some k)
    (hne : street.next ≠ street) :
    due street ++ [k] = due street.next ∧ k ≠ .runShuffle ∧
      ∀ {K : Type} (u : Peer.Setup K), k.cards u =
        List.range' (u.communityBase + shown street) (shown street.next - shown street) := by
  cases street with
  | preflop => obtain rfl := Option.some.inj hk; exact ⟨rfl, nofun, fun _ => rfl⟩
  | flop => obtain rfl := Option.some.inj hk; exact ⟨rfl, nofun, fun _ => rfl⟩
  | turn => obtain rfl := Option.some.inj hk; exact ⟨rfl, nofun, fun _ => rfl⟩
  | river => cases hk
  | showdown => exact absurd rfl hne

theorem shown_le_next (street : Street) : shown street ≤ shown street.next := by
  cases street <;> decide

/- A street without a reveal shows nothing new. -/
theorem due_of_no_reveal {street : Street} (hk : revealCall street.next = none) :
    due street.next = due street ∧ shown street.next = shown street := by
  cases street with
  | preflop => cases hk
  | flop => cases hk
  | turn => cases hk
  | river => exact ⟨rfl, rfl⟩
  | showdown => exact ⟨rfl, rfl⟩

section Streets
variable {c : Primitives} {u : Seat c} {h h' : Play} {e : Event}

/- The call has not begun, or the node has taken it. -/
def InCall (u : Seat c) (k : Peer.Call) (r : Peer.Node Bytes) : Prop :=
  r.todo = [k] ∧ r.phase = .idle ∨
    r.todo = [] ∧ (k = .runShuffle → r.phase.hasFailed = true ∨ 2 ≤ u.table.size)

theorem InCall.step {k : Peer.Call} {r r' : Peer.Node Bytes} {i : Peer.Input} {read : ℕ → Key → Option Bytes}
    (hc : InCall u k r) (hr : r.step u.values u.deal read i = some r') : InCall u k r' := by
  have hm := Peer.Node.step_move hr
  right
  rcases hc with ⟨htodo, hph⟩ | ⟨htodo, htwo⟩
  · rcases Peer.move_todo hm with ⟨_, hne⟩ | ⟨_, k', hk'⟩
    · exact absurd hph hne
    · rw [htodo] at hk'
      refine ⟨(List.cons.inj hk').2.symm, ?_⟩
      rintro rfl
      obtain rfl := Peer.step_idle hph hr
      exact Peer.begin_shuffle htodo hph hr
  · rcases Peer.move_todo hm with ⟨hsame, _⟩ | ⟨_, k', hk'⟩
    · refine ⟨hsame.trans htodo, fun hk => .inr ?_⟩
      rcases htwo hk with hfail | htwo
      · rw [Peer.move_alive hm] at hfail
        cases hfail
      · exact htwo
    · rw [htodo] at hk'
      cases hk'

def PlaceInv (u : Seat c) (h : Play) : Place → Prop
  | .waiting =>
    h.calls = [] ∧ h.runner.log.entries = [] ∧ h.node.phase = .idle ∧ h.node.community = []
  | .calling k =>
    InCall u k h.node ∧ Peer.OnBoard u.deal (shown h.runner.log.state.street) h.node ∧
      (k = .runShuffle ∧ h.calls = [.runShuffle] ∧ h.runner.log.entries = [] ∨
        k ≠ .runShuffle ∧ 2 ≤ u.table.size ∧ h.calls = due h.runner.log.state.street)
  | .loop =>
    2 ≤ u.table.size ∧ h.calls = due h.runner.log.state.street ∧
      h.node.phase = .idle ∧ h.node.community.length = shown h.runner.log.state.street
  | .round street =>
    2 ≤ u.table.size ∧ h.calls = due street ∧ h.node.phase = .idle ∧
      h.node.community.length = shown street ∧ ∃ l, Round.Within l h.runner ∧ l.state.street = street
  | .showdown _ _ => h.calls = Peer.hand ∧ h.node.community.length = 5
  | .uncontested winner =>
    ∃ seat : ℕ, winner = seat ∧ seat < u.table.size ∧ h.runner.log.state.isFolded seat = false ∧
      ∀ q < u.table.size, q ≠ seat → h.runner.log.state.isFolded q = true
  | .failed _ => True

structure Inv (u : Seat c) (h : Play) : Prop where
  sound : Round.Sound u.rounds h.runner
  seats : h.runner.log.numPlayers = u.table.numPlayers
  calls : h.calls <+: Peer.hand
  place : PlaceInv u h h.place

theorem Inv.reachable (hi : Inv u h) : Reachable c u.table.numPlayers h.runner.log.startingStack h.runner.log :=
  hi.seats ▸ hi.sound.certified.reachable

/- The runner has taken a step. -/
theorem Inv.runner {r : Round.Runner} {i : Round.Input} (hi : Inv u h) (hr : h.runner.step u.rounds i = some r) :
    Round.Sound u.rounds r ∧ r.log.numPlayers = u.table.numPlayers := by
  have hm := Round.Runner.step_move hr
  refine ⟨hi.sound.move hm, ?_⟩
  rcases hm.log_cases with hlog | ⟨e, hlog⟩ | ⟨hlog, _⟩
  · rw [hlog, hi.seats]
  · rw [hlog]
    exact hi.seats
  · rw [hlog]
    exact hi.seats

theorem Inv.call_first (hi : Inv u h) (hp : h.place = .waiting) : Inv u (h.call .runShuffle) := by
  have hplace := hi.place
  rw [hp] at hplace
  obtain ⟨hcalls, hlog, hph, hboard⟩ := hplace
  have hstreet : h.runner.log.state.street = .preflop := by rw [Log.state, hlog]; rfl
  refine ⟨hi.sound, hi.seats, ?_, .inl ⟨rfl, hph⟩, ?_, .inl ⟨rfl, by rw [Play.call, hcalls]; rfl, hlog⟩⟩
  · rw [Play.call, hcalls]
    exact ⟨_, rfl⟩
  · show Peer.OnBoard u.deal (shown h.runner.log.state.street) { h.node with todo := [.runShuffle] }
    rw [hstreet]
    refine .inr ⟨0, ?_, ?_⟩
    · rw [Peer.Node.left, hph]
      rfl
    · rw [hboard]
      rfl

theorem Inv.call_deal (hi : Inv u h) (hp : h.place = .calling .runShuffle) (hidle : h.node.phase = .idle)
    (htodo : h.node.todo = []) : Inv u (h.call .dealHoleCards) := by
  have hplace := hi.place
  rw [hp] at hplace
  obtain ⟨hin, hboard, ⟨_, hcalls, hlog⟩ | ⟨hne, _⟩⟩ := hplace
  · have hstreet : h.runner.log.state.street = .preflop := by rw [Log.state, hlog]; rfl
    have htwo : 2 ≤ u.table.size := by
      rcases hin with ⟨hnot, _⟩ | ⟨_, htwo⟩
      · rw [htodo] at hnot
        cases hnot
      · rcases htwo rfl with hfail | htwo
        · rw [hidle] at hfail
          cases hfail
        · exact htwo
    have hnew : h.calls ++ [.dealHoleCards] = due h.runner.log.state.street := by
      rw [hcalls, hstreet]
      rfl
    refine ⟨hi.sound, hi.seats, ?_, .inl ⟨rfl, hidle⟩, ?_, .inr ⟨by simp, htwo, hnew⟩⟩
    · rw [Play.call, hnew]
      exact due_prefix _
    · refine hboard.of_left (by rw [hidle]; rfl) ?_ rfl
      simp only [Peer.Node.left, Play.call, hidle, htodo]
      rfl
  · exact absurd rfl hne

theorem Inv.back_to_loop {k : Peer.Call} (hi : Inv u h) (hp : h.place = .calling k) (hk : k ≠ .runShuffle)
    (hidle : h.node.phase = .idle) (htodo : h.node.todo = []) : Inv u { h with place := .loop } := by
  have hplace := hi.place
  rw [hp] at hplace
  obtain ⟨hin, hboard, ⟨heq, _⟩ | ⟨_, htwo, hcalls⟩⟩ := hplace
  · exact absurd heq hk
  · refine ⟨hi.sound, hi.seats, hi.calls, htwo, hcalls, hidle, ?_⟩
    rcases hboard with hfail | ⟨m, hm, htotal⟩
    · rw [hidle] at hfail
      cases hfail
    · rw [Peer.Node.left, hidle, htodo] at hm
      obtain rfl : m = 0 := by simpa [Peer.Phase.cards] using (congrArg List.length hm).symm
      exact htotal

theorem Inv.settled {street : Street} (hi : Inv u h) (hp : h.place = .round street)
    (hidle : h.runner.phase = .idle)
    (hold : h.runner.log.state.street = street ∨ revealCall h.runner.log.state.street = none) :
    Inv u { h with place := .loop } := by
  have hplace := hi.place
  rw [hp] at hplace
  obtain ⟨htwo, hcalls, hph, hboard, l, hw, hstreet⟩ := hplace
  obtain ⟨e, hlog⟩ := hw.append_of_idle hi.sound hidle
  have hcase := l.street_append e
  rw [← hlog, hstreet] at hcase
  have hsame : due h.runner.log.state.street = due street ∧ shown h.runner.log.state.street = shown street := by
    rcases hcase with hsame | hnext
    · rw [hsame]
      exact ⟨rfl, rfl⟩
    · rcases hold with heq | hnone
      · rw [heq]
        exact ⟨rfl, rfl⟩
      · rw [hnext] at hnone ⊢
        exact due_of_no_reveal hnone
  exact ⟨hi.sound, hi.seats, hi.calls, htwo, hcalls.trans hsame.1.symm, hph, hboard.trans hsame.2.symm⟩

theorem Inv.call_reveal {street : Street} {k : Peer.Call} (hi : Inv u h) (hp : h.place = .round street)
    (hidle : h.runner.phase = .idle) (hnew : h.runner.log.state.street ≠ street)
    (hk : revealCall h.runner.log.state.street = some k) : Inv u (h.call k) := by
  have hplace := hi.place
  rw [hp] at hplace
  obtain ⟨htwo, hcalls, hph, hboard, l, hw, hstreet⟩ := hplace
  obtain ⟨e, hlog⟩ := hw.append_of_idle hi.sound hidle
  have hnext : h.runner.log.state.street = street.next := by
    have hcase := l.street_append e
    rw [← hlog, hstreet] at hcase
    exact hcase.resolve_left hnew
  rw [hnext] at hk hnew
  obtain ⟨hdue, hkne, hcards⟩ := due_next hk hnew
  have hcalls' : h.calls ++ [k] = due h.runner.log.state.street := by rw [hcalls, hnext, hdue]
  refine ⟨hi.sound, hi.seats, ?_, .inl ⟨rfl, hph⟩, ?_, .inr ⟨hkne, htwo, hcalls'⟩⟩
  · rw [Play.call, hcalls']
    exact due_prefix _
  · show Peer.OnBoard u.deal (shown h.runner.log.state.street) { h.node with todo := [k] }
    refine .inr ⟨shown street.next - shown street, ?_, ?_⟩
    · rw [Peer.Node.left, hph, hboard, ← hcards]
      simp [Peer.Phase.cards]
    · rw [hboard, hnext]
      have := shown_le_next street
      omega

/- The flags with one seat that is not folded. -/
theorem uncontestedWinner_eq {folded : List Bool} (hone : folded.countP (fun f => !f) = 1) :
    ∃ seat : ℕ, uncontestedWinner folded = seat ∧ seat < folded.length ∧ folded.getD seat false = false ∧
      ∀ q < folded.length, q ≠ seat → folded.getD q false = true := by
  unfold uncontestedWinner
  cases hfind : folded.findIdx? fun f => !f with
  | none =>
    have hnone : folded.countP (fun f => !f) = 0 := by
      rw [List.countP_eq_zero]
      intro f hf
      have := List.findIdx?_eq_none_iff.mp hfind f hf
      simpa using this
    omega
  | some seat =>
    obtain ⟨hlt, hseat, _⟩ := List.findIdx?_eq_some_iff_getElem.mp hfind
    have hout : folded.getD seat false = false := by
      rw [List.getD_eq_getElem _ _ hlt]
      simpa using hseat
    have hrest := countP_not_set_true folded seat hlt hout
    rw [hone] at hrest
    refine ⟨seat, rfl, hlt, hout, ?_⟩
    intro q hq hne
    have hall : ∀ f ∈ folded.set seat true, f = true := by
      simpa using List.countP_eq_zero.mp (Nat.succ.inj hrest)
    have hset : (folded.set seat true).getD q false = folded.getD q false := by
      rw [getD_set, if_neg fun heq => hne heq.1.symm]
    have hlen : q < (folded.set seat true).length := by simpa using hq
    rw [← hset, List.getD_eq_getElem _ _ hlen]
    exact hall _ (List.getElem_mem _)

theorem Inv.uncontested (hi : Inv u h) (hp : h.place = .loop) (hone : h.runner.log.state.numNonFolded ≤ 1) :
    Inv u { h with place := .uncontested (uncontestedWinner h.runner.log.state.folded) } := by
  have hplace := hi.place
  rw [hp] at hplace
  have hn : 2 ≤ u.table.numPlayers.toNat := by
    rw [u.table.numPlayers_toNat]
    exact hplace.1
  have hlen : h.runner.log.state.folded.length = u.table.size := by
    rw [h.runner.log.state_shaped.folded, hi.seats, u.table.numPlayers_toNat]
  have hpos := (hi.reachable.ended hn).1
  rw [← Log.state_eq] at hpos
  have hwinner := uncontestedWinner_eq (Nat.le_antisymm hone hpos)
  rw [hlen] at hwinner
  exact ⟨hi.sound, hi.seats, hi.calls, hwinner⟩

theorem Inv.showdown {node : Peer.Node Bytes} {stage : Peer.ShowStage} (hi : Inv u h) (hp : h.place = .loop)
    (hover : h.runner.log.state.handOver = true) (htwo : 2 ≤ h.runner.log.state.numNonFolded)
    (hnode : node = h.node ∨ node = Peer.publishShowdownClaim u.claimGob u.deal h.node) :
    Inv u { h with node := node, place := .showdown h.runner.log.state.folded stage } := by
  have hplace := hi.place
  rw [hp] at hplace
  obtain ⟨hsize, hcalls, _, hlen⟩ := hplace
  have hn : 2 ≤ u.table.numPlayers.toNat := by
    rw [u.table.numPlayers_toNat]
    exact hsize
  have hstreet : h.runner.log.state.street = .showdown := by
    rcases (hi.reachable.handOver_iff hn).mp hover with hshow | hone
    · exact hshow
    · omega
  rw [hstreet] at hcalls hlen
  refine ⟨hi.sound, hi.seats, hi.calls, hcalls, ?_⟩
  rcases hnode with rfl | rfl
  · exact hlen
  · exact hlen

theorem Inv.submit {a : Round.Submit} {r : Round.Runner} (hi : Inv u h)
    (hr : h.runner.submitAction u.rounds a = some r) : Inv u { h with runner := r } := by
  obtain ⟨hsound, hseats⟩ := hi.runner (i := .submit a) hr
  have hm : Round.Runner.Move u.rounds h.runner (.submit a) r := Round.Runner.step_move hr
  refine ⟨hsound, hseats, hi.calls, ?_⟩
  have hplace := hi.place
  cases hm with
  | submit =>
    show PlaceInv u _ h.place
    cases hp : h.place with
    | round street =>
      rw [hp] at hplace
      obtain ⟨htwo, hcalls, hph, hboard, l, hw, hstreet⟩ := hplace
      exact ⟨htwo, hcalls, hph, hboard, l, ⟨hw.upTo, hw.inside, hw.idle, hw.failed⟩, hstreet⟩
    | _ =>
      rw [hp] at hplace
      exact hplace

theorem Inv.move (hi : Inv u h) (hm : Play.Move u h e h') : Inv u h' := by
  have hplace := hi.place
  cases hm with
  | gameStart hp => exact hi.call_first hp
  | deal hp hr =>
    rw [hp] at hplace
    refine ⟨hi.sound, hi.seats, hi.calls, ?_⟩
    show PlaceInv u _ h.place
    rw [hp]
    exact ⟨hplace.1.step hr, hplace.2.1.move (Peer.Node.step_move hr), hplace.2.2⟩
  | callFailed => exact ⟨hi.sound, hi.seats, hi.calls, trivial⟩
  | shuffled hp hidle htodo => exact hi.call_deal hp hidle htodo
  | returned hp hk hidle htodo => exact hi.back_to_loop hp hk hidle htodo
  | uncontested hp _ hone => exact hi.uncontested hp hone
  | showdown hp hover htwo hnode _ => exact hi.showdown hp hover htwo hnode
  | showdownFailed => exact ⟨hi.sound, hi.seats, hi.calls, trivial⟩
  | beginRound hp hover hr =>
    rw [hp] at hplace
    obtain ⟨hsound, hseats⟩ := hi.runner (i := .beginRound) hr
    obtain ⟨htwo, hcalls, hph, hboard⟩ := hplace
    exact ⟨hsound, hseats, hi.calls, htwo, hcalls, hph, hboard, _, .begin hi.sound hr, rfl⟩
  | submit hr => exact hi.submit hr
  | round hp hin hr =>
    rw [hp] at hplace
    obtain ⟨hsound, hseats⟩ := hi.runner hr
    obtain ⟨htwo, hcalls, hph, hboard, l, hw, hstreet⟩ := hplace
    refine ⟨hsound, hseats, hi.calls, ?_⟩
    show PlaceInv u _ h.place
    rw [hp]
    exact ⟨htwo, hcalls, hph, hboard, l, hw.step hi.sound hin (Round.Runner.step_move hr), hstreet⟩
  | roundFailed => exact ⟨hi.sound, hi.seats, hi.calls, trivial⟩
  | settled hp hidle hold => exact hi.settled hp hidle hold
  | newStreet hp hidle hnew hk => exact hi.call_reveal hp hidle hnew hk
  | claim hp =>
    rw [hp] at hplace
    exact ⟨hi.sound, hi.seats, hi.calls, hplace⟩

theorem Inv.start (u : Seat c) : Inv u (.start u) :=
  ⟨.start _ _, rfl, List.nil_prefix, rfl, rfl, rfl, rfl⟩

theorem Inv.of_trace {ok : Play → Event → Prop} {es : List Event}
    (ht : Trace (Play.step u) ok (.start u) es h) : Inv u h :=
  ht.keeps (.start u) fun _ _ _ _ hs hi => hi.move (Play.step_move hs)

/- The values read in a reveal are cards under layers. -/
def ProperEvent (u : Seat c) (_ : Play) : Event → Prop
  | .deal _ read => Peer.ProperAnswers u.deckGob read
  | _ => True

theorem proper_of_trace {es : List Event} (ht : Trace (Play.step u) (ProperEvent u) (.start u) es h) :
    Peer.NodeProper h.node := by
  refine (ht.keeps (P := fun h => Inv u h ∧ Peer.NodeProper h.node) ⟨.start u, ?_⟩ ?_).2
  · exact ⟨fun _ hc => (by cases hc), trivial, fun _ hc => (by cases hc)⟩
  · rintro h e h' hok hs ⟨hi, hp⟩
    have hm := Play.step_move hs
    refine ⟨hi.move hm, ?_⟩
    have hplace := hi.place
    cases hm with
    | deal hpl hr =>
      rw [hpl] at hplace
      exact hp.move hplace.2.1 hok (Peer.Node.step_move hr)
    | showdown _ _ _ hnode =>
      rcases hnode with rfl | rfl
      · exact hp
      · exact ⟨hp.deck, hp.phase, hp.board⟩
    | gameStart => exact ⟨hp.deck, hp.phase, hp.board⟩
    | shuffled => exact ⟨hp.deck, hp.phase, hp.board⟩
    | newStreet => exact ⟨hp.deck, hp.phase, hp.board⟩
    | _ => exact hp

/-- Streets, reveals and the end of the hand, at any moment of it. -/
structure InOrder (u : Seat c) (h : Play) : Prop where
  streets : ∀ k, (h.runner.log.upTo (k + 1)).state.street.index ≤ (h.runner.log.upTo k).state.street.index + 1
  reveals : h.calls <+: Peer.hand
  players : h.place = .loop → 2 ≤ u.table.size
  ended : 2 ≤ u.table.size → (h.runner.log.state.handOver = true ↔
    h.runner.log.state.street = .showdown ∨ h.runner.log.state.numNonFolded = 1)
  showdown : ∀ folded stage, h.place = .showdown folded stage →
    h.calls = Peer.hand ∧ h.node.community.length = 5
  winner : ∀ w, h.place = .uncontested w → ∃ seat : ℕ, w = seat ∧ seat < u.table.size ∧
    h.runner.log.state.isFolded seat = false ∧
    ∀ q < u.table.size, q ≠ seat → h.runner.log.state.isFolded q = true

theorem Inv.inOrder (hi : Inv u h) : InOrder u h := by
  have hplace := hi.place
  refine ⟨?_, hi.calls, ?_, ?_, ?_, ?_⟩
  · intro k
    cases hk : h.runner.log.entries[k]? with
    | none =>
      have hle := List.getElem?_eq_none_iff.mp hk
      rw [Log.upTo_eq_self hle, Log.upTo_eq_self (hle.trans (Nat.le_succ k))]
      omega
    | some e =>
      rw [Log.upTo_succ hk]
      rcases (h.runner.log.upTo k).street_append e with hsame | hnext
      · rw [hsame]
        omega
      · rw [hnext]
        exact Street.index_next_le _
  · intro hp
    rw [hp] at hplace
    exact hplace.1
  · intro htwo
    refine hi.reachable.handOver_iff ?_
    rw [u.table.numPlayers_toNat]
    exact htwo
  · intro folded stage hp
    rw [hp] at hplace
    exact hplace
  · intro w hp
    rw [hp] at hplace
    exact hplace

theorem streets_in_order (u : Seat c) {es : List Event} (ht : Trace (Play.step u) Free (.start u) es h) :
    InOrder u h ∧
      (Trace (Play.step u) (ProperEvent u) (.start u) es h → ∀ card ∈ h.node.community, card ≠ []) :=
  ⟨(Inv.of_trace ht).inOrder, fun hp card hcard => ((proper_of_trace hp).board card hcard).ne_nil⟩

end Streets

/-! ### Sample hands -/

def sampleSeatWith (key : ℕ → c.PrivateKey) (n idx : ℕ) (hn : n < 256) (hidx : idx < n) : Seat c where
  table := Round.Table.sampleWith key n hn 1 100
  idx := idx
  idx_lt := by simpa [Round.Table.sampleWith, Round.Table.size] using hidx
  modKey := ⟨3, 9079⟩
  draws i := ⟨0, i.succ_pos⟩
  deckGob := Peer.deckWire.codec
  claimGob := Peer.claimWire.codec

def sampleSeat (n idx : ℕ) (hn : n < 256) (hidx : idx < n) : Seat .transparent :=
  sampleSeatWith (fun seat => UInt8.ofNat seat) n idx hn hidx

/- All cards are the same. -/
def sampleRead (_ : ℕ) (key : Key) : Option Bytes :=
  if (ascii "shuffle").isPrefixOf key then some (Peer.deckWire.codec.encode (List.replicate 11 [1]))
  else some [1]

def dealt (inputs : List Peer.Input) : List Event := inputs.map fun i => .deal i sampleRead

/- From the proposal to the end of a round. -/
def committed (others : List ℕ) : List Event :=
  [.round .append, .round .hostReceipt] ++ others.map (fun q => .round (.receipt q [])) ++
    [.round .collected, .round .cleanup, .round .conclude, .settle]

def submitted (a : Action) : List Event := [.submit (.turn a), .submit (.rules 0), .submit (.send 0)]

def proposes (a : Action) : List Event := .head :: submitted a ++ [.round .propose]

/- The node takes the proposal of another seat. -/
def takes (u : Seat c) (l : Log) (a : Action) : List Event :=
  let p := l.expectedNextPlayer
  let e := l.buildProposal c p a (u.table.secretKey p.toNat)
  [.head, .round (.proposal (u.table.entryCodec.encode e))]

/- Seat 0 of two. -/
def seatZero : Seat .transparent := sampleSeat 2 0 Round.two_seats_lt (by decide)

def seatZeroDeals : List Event :=
  [.gameStart] ++ dealt [.begin, .shuffle, .pollFinal] ++ [.back] ++
    dealt [.begin, .pollHole 0, .pollHole 1, .stripSlot 0, .stripSlot 1, .stripSlot 2, .stripSlot 3, .holesDone] ++
    [.back]

/- Seat 0 of two, with signatures of a fixed size: a whole hand up to the showdown. -/
def sizedZero : Seat .truncated := sampleSeatWith (fun seat => UInt8.ofNat seat) 2 0 Round.two_seats_lt (by decide)

def checksStreet (street : ℕ) : List Event :=
  let check : Action := ⟨.check, 0⟩
  let l := (newLog 2 100).play .truncated sizedSeatKey (List.replicate (2 * street + 1) check)
  proposes check ++ committed [1] ++ takes sizedZero l check ++ committed [1]

/- The cards of a street come in, with what the seats host then. -/
def reveals (read : ℕ → Key → Option Bytes) (cards : ℕ) : List Event :=
  (.begin :: (List.replicate cards [.stripCard, .pollCard]).flatten).map (fun i => .deal i read) ++ [.back]

def toShowdown (read : ℕ → Key → Option Bytes) : List Event :=
  List.flatten [seatZeroDeals, checksStreet 0, reveals read 3, checksStreet 1, reveals read 1, checksStreet 2,
    reveals read 1, checksStreet 3, [.head]]

def shownDown (read : ℕ → Key → Option Bytes) : Play :=
  run (Play.step sizedZero) Free (.start sizedZero) (toShowdown read)

def Place.isShowdown : Place → Bool
  | .showdown _ _ => true
  | _ => false

theorem Place.of_isShowdown {p : Place} (h : p.isShowdown = true) : ∃ folded stage, p = .showdown folded stage := by
  cases p with
  | showdown folded stage => exact ⟨folded, stage, rfl⟩
  | _ => cases h

theorem sampleRead_proper : Peer.ProperAnswers Peer.deckWire.codec sampleRead := by
  have hone : Peer.Proper [1] := by
    unfold Peer.Proper
    decide +kernel
  have hdeck : Peer.Proper (Peer.deckWire.codec.encode (List.replicate 11 [1])) := by
    unfold Peer.Proper
    decide +kernel
  have hvalue : ∀ q key v, sampleRead q key = some v → Peer.Proper v := by
    intro q key v hv
    unfold sampleRead at hv
    split_ifs at hv
    · rwa [← Option.some.inj hv]
    · rwa [← Option.some.inj hv]
  refine ⟨?_, fun q cardIdx q' => hvalue q _, fun q cardIdx => hvalue q _⟩
  intro q q' data d hdata hd card hcard
  have hpre : (ascii "shuffle").isPrefixOf (shuffleStepKey q') = true := rfl
  rw [sampleRead, if_pos hpre] at hdata
  rw [← Option.some.inj hdata, Peer.deckWire.codec.decode_encode] at hd
  rw [← Option.some.inj hd] at hcard
  rwa [List.eq_of_mem_replicate hcard]

theorem toShowdown_proper : ∀ e ∈ toShowdown sampleRead, ∀ h, ProperEvent sizedZero h e := by
  intro e he h
  cases e with
  | deal i read =>
    have hread : read = sampleRead := by
      simp [toShowdown, seatZeroDeals, dealt, checksStreet, proposes, submitted, committed, takes, reveals] at he
      grind
    rw [hread]
    exact sampleRead_proper
  | _ => trivial

theorem showdown_in_order : ∃ h : Play, (∃ folded stage, h.place = .showdown folded stage) ∧
    InOrder sizedZero h ∧ ∀ card ∈ h.node.community, card ≠ [] := by
  have hrun : Trace (Play.step sizedZero) Free (.start sizedZero) (toShowdown sampleRead) (shownDown sampleRead) :=
    run_trace (by decide +kernel)
  obtain ⟨horder, hfilled⟩ := streets_in_order sizedZero hrun
  exact ⟨_, Place.of_isShowdown (by decide +kernel), horder, hfilled (hrun.restrict toShowdown_proper)⟩

/- The last seat answers every poll for a card with nothing. -/
def emptyRead (q : ℕ) (key : Key) : Option Bytes :=
  if (ascii "community-card").isPrefixOf key then some [] else sampleRead q key

/-- The showdown is entered with no card on the board. -/
theorem showdown_with_empty_slots : ∃ es h, Trace (Play.step sizedZero) Free (.start sizedZero) es h ∧
    (∃ folded stage, h.place = .showdown folded stage) ∧ h.node.communityCards = [[], [], [], [], []] :=
  ⟨_, shownDown emptyRead, run_trace (by decide +kernel), Place.of_isShowdown (by decide +kernel), by decide +kernel⟩

end P2Poker.Hand
