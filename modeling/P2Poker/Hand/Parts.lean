import P2Poker.Hand.NextHand
import P2Poker.Lib.Simulation
import P2Poker.Round.Agreement
import P2Poker.Round.Submission

/-!
# The parts of a hand

The nodes of a table bet, deal and show their cards in one run, each of them at
its own place in `Run`. Seen from the runners alone, that run is a run of the
betting rounds; seen from the dealing alone, it is a run of the deal in which
all calls lie in front of every node from the start.
-/

namespace P2Poker.Peer
open P2Poker.Lib P2Poker.Crypto P2Poker.Ephemeral

/-! ### A node with more calls to come -/

namespace Node
variable {K V : Type} {o : Values K V} {u : Setup K} {r r' : Node V} (key : Key) (rest : List Call)

/-- More calls in front of the node, and one of its keys out of sight. -/
def before (r : Node V) : Node V := { r with store := r.store.delete key, todo := r.todo ++ rest }

/- None of the keys of the deal. -/
def OffDeal (key : Key) : Prop :=
  (∀ s, key ≠ shuffleStepKey s) ∧ (∀ slot s, key ≠ holeRelayKey slot s) ∧
    (∀ cardIdx s, key ≠ communityRelayKey cardIdx s) ∧ ∀ cardIdx, key ≠ communityCardKey cardIdx

theorem offDeal_showdownClaim (s : ℕ) : OffDeal (showdownClaimKey s) := by
  have hkey : ∀ name : KeyName, name.kind ≠ .showdownClaim → showdownClaimKey s ≠ name.key := by
    intro name hkind h
    rw [← KeyName.key_injective (show (KeyName.showdownClaim s).key = name.key from h)] at hkind
    exact hkind rfl
  exact ⟨fun q => hkey (.shuffleStep q) (by simp [KeyName.kind]),
    fun slot q => hkey (.holeRelay slot q) (by simp [KeyName.kind]),
    fun i q => hkey (.communityRelay i q) (by simp [KeyName.kind]),
    fun i => hkey (.communityCard i) (by simp [KeyName.kind])⟩

variable {key}

theorem delete_put {store : Store V} {key' : Key} (v : V) (h : key ≠ key') :
    (store.put key' v).delete key = (store.delete key).put key' v := by
  unfold Store.put Store.delete
  congr 1
  funext k
  dsimp only
  split_ifs with h1 h2 h2
  · exact absurd (h1.symm.trans h2) h
  · rfl
  · rfl
  · rfl

theorem delete_put_self {store : Store V} (key : Key) (v : V) :
    (store.put key v).delete key = store.delete key := by
  unfold Store.put Store.delete
  congr 1
  funext k
  dsimp only
  split_ifs <;> rfl

theorem before_shuffle (hoff : OffDeal key) (d : List V) :
    (r.before key rest).shuffle o u d = (r.shuffle o u d).before key rest := by
  unfold shuffle before
  dsimp only
  rw [← delete_put _ (hoff.1 _)]
  split_ifs <;> rfl

theorem before_setHole (slot : ℕ) (card : V) :
    (r.before key rest).setHole slot card = (r.setHole slot card).before key rest := by
  unfold setHole
  split_ifs <;> rfl

theorem before_stripSlot (hoff : OffDeal key) (slot : ℕ) (layered : V) :
    (r.before key rest).stripSlot o u slot layered = (r.stripSlot o u slot layered).before key rest := by
  unfold stripSlot
  dsimp only
  split_ifs
  · exact before_setHole rest slot _
  · unfold before
    dsimp only
    rw [delete_put _ (hoff.2.1 _ _)]

theorem before_reveal (cards : List ℕ) :
    (r.before key rest).reveal u cards = (r.reveal u cards).before key rest := by
  unfold reveal
  split
  · rfl
  · have hdeck : (r.before key rest).finalDeck = r.finalDeck := rfl
    rw [hdeck]
    split
    · rfl
    · split_ifs <;> rfl

theorem before_setCommunity (cardIdx : ℕ) (card : V) :
    (r.before key rest).setCommunity o u cardIdx card = (r.setCommunity o u cardIdx card).before key rest := by
  have hcommunity : (r.before key rest).community = r.community := rfl
  simp only [setCommunity, hcommunity]
  split_ifs <;> rfl

theorem before_stripCard (hoff : OffDeal key) (cardIdx : ℕ) (layered : V) (cards : List ℕ) :
    (r.before key rest).stripCard o u cardIdx layered cards =
      (r.stripCard o u cardIdx layered cards).before key rest := by
  have hstore : ∀ v, (r.before key rest).store.put (communityRelayKey cardIdx u.seatIdx) v =
      (r.store.put (communityRelayKey cardIdx u.seatIdx) v).delete key :=
    fun v => (delete_put v (hoff.2.2.1 _ _)).symm
  unfold stripCard
  dsimp only
  rw [hstore]
  split_ifs
  · rw [← delete_put _ (hoff.2.2.2 _), ← before_reveal, ← before_setCommunity]
    rfl
  · rfl

theorem before_begin (hs : r.begin o u = some r') :
    (r.before key rest).begin o u = some (r'.before key rest) := by
  unfold begin at hs ⊢
  have hph : (r.before key rest).phase = r.phase := rfl
  have htodo : (r.before key rest).todo = r.todo ++ rest := rfl
  rw [hph, htodo]
  split at hs
  · rename_i hidle hcall
    simp only [hidle, hcall, List.cons_append]
    split_ifs at hs ⊢ <;> (obtain rfl := Option.some.inj hs; rfl)
  · rename_i hidle hcall
    simp only [hidle, hcall, List.cons_append]
    obtain rfl := Option.some.inj hs
    rfl
  · rename_i call todo hshuffle hdeal hidle hcall
    simp only [hidle, hcall, List.cons_append]
    obtain rfl := Option.some.inj hs
    exact congrArg some (before_reveal (r := { r with todo := todo }) rest _)
  · cases hs

/-- A step of the node is one of the node with more calls to come. -/
theorem before_step {read read' : ℕ → Key → Option V} {i : Input} (hoff : OffDeal key)
    (hread : ∀ q key, (∀ s, key ≠ showdownClaimKey s) → read' q key = read q key)
    (hs : r.step o u read i = some r') :
    (r.before key rest).step o u read' i = some (r'.before key rest) := by
  have hph : (r.before key rest).phase = r.phase := rfl
  cases i with
  | begin => exact before_begin rest hs
  | pollStep =>
    simp only [step, hph] at hs ⊢
    rw [hread _ _ fun s h => (offDeal_showdownClaim s).1 _ h.symm]
    split at hs
    · split at hs
      · obtain rfl := Option.some.inj hs
        rfl
      · obtain rfl := Option.some.inj hs
        rfl
    · cases hs
  | shuffle =>
    simp only [step, hph] at hs ⊢
    split at hs
    · obtain rfl := Option.some.inj hs
      exact congrArg some (before_shuffle rest hoff _)
    · cases hs
  | pollFinal =>
    simp only [step, hph] at hs ⊢
    rw [hread _ _ fun s h => (offDeal_showdownClaim s).1 _ h.symm]
    split at hs
    · split at hs
      · obtain rfl := Option.some.inj hs
        rfl
      · obtain rfl := Option.some.inj hs
        rfl
    · cases hs
  | pollHole slot =>
    simp only [step, hph] at hs ⊢
    split at hs
    · split at hs
      · rw [hread _ _ fun s h => (offDeal_showdownClaim s).2.1 _ _ h.symm]
        split at hs
        · obtain rfl := Option.some.inj hs
          rfl
        · cases hs
      · cases hs
    · cases hs
  | stripSlot slot =>
    simp only [step, hph] at hs ⊢
    split at hs
    · split at hs
      · obtain rfl := Option.some.inj hs
        rw [before_stripSlot rest hoff]
        rfl
      · cases hs
    · cases hs
  | holesDone =>
    simp only [step, hph] at hs ⊢
    split at hs
    · split_ifs at hs ⊢
      split at hs <;> (obtain rfl := Option.some.inj hs; rfl)
    · cases hs
  | pollRelay =>
    simp only [step, hph] at hs ⊢
    split at hs
    · rw [hread _ _ fun s h => (offDeal_showdownClaim s).2.2.1 _ _ h.symm]
      split at hs
      · obtain rfl := Option.some.inj hs
        rfl
      · cases hs
    · cases hs
  | stripCard =>
    simp only [step, hph] at hs ⊢
    split at hs
    · obtain rfl := Option.some.inj hs
      exact congrArg some (before_stripCard rest hoff _ _ _)
    · cases hs
  | pollCard =>
    simp only [step, hph] at hs ⊢
    split at hs
    · rw [hread _ _ fun s h => (offDeal_showdownClaim s).2.2.2 _ h.symm]
      split at hs
      · obtain rfl := Option.some.inj hs
        rw [before_setCommunity, before_reveal]
      · cases hs
    · cases hs

end Node

end P2Poker.Peer

namespace P2Poker.Hand
open P2Poker.Lib P2Poker.Crypto P2Poker.Game P2Poker.Ephemeral

section Parts
variable {c : Primitives} {p : Party c} {σ σ' : Room} {x : ℕ × Event}

def Room.runners (σ : Room) : Round.Net := fun s => (σ.plays s).runner

/-- What a seat has in front of it when the calls of `Run` are one list. -/
def Play.deals (h : Play) (s : ℕ) : Peer.Node Bytes :=
  h.node.before (showdownClaimKey s) (Peer.hand.drop h.calls.length)

def Room.deals (σ : Room) : Peer.Net Bytes := fun s => (σ.plays s).deals s

/-- A condition on the steps of the runners, asked for at the events that are one. -/
def Party.Under (p : Party c) (P : Round.Net → ℕ → Round.Input → Prop) (σ : Room) (x : ℕ × Event) : Prop :=
  match x.2 with
  | .round i => P σ.runners x.1 (Round.answered p.table (fun _ => true) σ.runners x.1 i)
  | .head => P σ.runners x.1 .beginRound
  | .submit a => P σ.runners x.1 (.submit a)
  | _ => True

instance (p : Party c) (P : Round.Net → ℕ → Round.Input → Prop) [∀ net s i, Decidable (P net s i)]
    (σ : Room) (x : ℕ × Event) : Decidable (p.Under P σ x) := by
  delta Party.Under
  induction x.2 using Event.casesOn <;> infer_instance

/-! ### Where a node rests -/

def Place.nodeRests : Place → Bool
  | .calling _ => false
  | .failed _ => false
  | _ => true

def Place.runnerRests : Place → Bool
  | .round _ => false
  | .failed _ => false
  | _ => true

/-- Outside its calls the node is idle, outside its rounds the runner is. -/
structure Rests (h : Play) : Prop where
  node : h.place.nodeRests = true → h.node.phase = .idle ∧ h.node.todo = []
  runner : h.place.runnerRests = true → h.runner.phase = .idle

variable {u : Seat c} {h h' : Play} {e : Event}

theorem Rests.move (hr : Rests h) (hm : Play.Move u h e h') : Rests h' := by
  cases hm with
  | gameStart hp => exact ⟨fun hn => (by cases hn), fun _ => hr.runner (by rw [hp]; rfl)⟩
  | deal hp =>
    refine ⟨fun hn => ?_, hr.runner⟩
    rw [hp] at hn
    cases hn
  | callFailed => exact ⟨fun hn => (by cases hn), fun hn => (by cases hn)⟩
  | shuffled hp => exact ⟨fun hn => (by cases hn), fun _ => hr.runner (by rw [hp]; rfl)⟩
  | returned hp _ hidle htodo => exact ⟨fun _ => ⟨hidle, htodo⟩, fun _ => hr.runner (by rw [hp]; rfl)⟩
  | uncontested hp => exact ⟨fun _ => hr.node (by rw [hp]; rfl), fun _ => hr.runner (by rw [hp]; rfl)⟩
  | showdown hp _ _ hnode =>
    refine ⟨fun _ => ?_, fun _ => hr.runner (by rw [hp]; rfl)⟩
    have hold := hr.node (by rw [hp]; rfl)
    rcases hnode with rfl | rfl <;> exact hold
  | showdownFailed => exact ⟨fun hn => (by cases hn), fun hn => (by cases hn)⟩
  | beginRound hp => exact ⟨fun _ => hr.node (by rw [hp]; rfl), fun hn => (by cases hn)⟩
  | submit hsub =>
    refine ⟨hr.node, fun hn => ?_⟩
    obtain ⟨_, _, _, rfl⟩ := Round.Runner.submitAction_spec hsub
    exact hr.runner hn
  | round hp =>
    refine ⟨hr.node, fun hn => ?_⟩
    rw [hp] at hn
    cases hn
  | roundFailed => exact ⟨fun hn => (by cases hn), fun hn => (by cases hn)⟩
  | settled hp hidle => exact ⟨fun _ => hr.node (by rw [hp]; rfl), fun _ => hidle⟩
  | newStreet hp hidle => exact ⟨fun hn => (by cases hn), fun _ => hidle⟩
  | claim hp => exact ⟨fun _ => hr.node (by rw [hp]; rfl), fun _ => hr.runner (by rw [hp]; rfl)⟩

/-! ### The deal -/

theorem drop_of_prefix {α : Type} {l m : List α} {k : α} (h : l ++ [k] <+: m) :
    m.drop l.length = k :: m.drop (l.length + 1) := by
  obtain ⟨rest, rfl⟩ := h
  simp

/- A call that comes in order was in front of the node all along. -/
theorem deals_call {k : Peer.Call} {s : ℕ} (htodo : h.node.todo = []) (hcalls : (h.call k).calls <+: Peer.hand) :
    (h.call k).deals s = h.deals s := by
  have hdrop := drop_of_prefix hcalls
  simp only [Play.deals, Play.call, Peer.Node.before, htodo, List.nil_append, List.length_append,
    List.length_singleton, hdrop, List.singleton_append]

/-- Only a step of the node itself changes what it has in front of it. -/
theorem deals_move (hr : Rests h) (hi : Inv u h') (hm : Play.Move u h e h') :
    h'.deals u.idx = h.deals u.idx ∨ ∃ i read, e = .deal i read ∧
      ∃ r, h.node.step u.values u.deal read i = some r ∧ h' = { h with node := r } := by
  cases hm with
  | gameStart hp => exact .inl (deals_call (hr.node (by rw [hp]; rfl)).2 hi.calls)
  | deal hp hstep => exact .inr ⟨_, _, rfl, _, hstep, rfl⟩
  | shuffled hp _ htodo => exact .inl (deals_call htodo hi.calls)
  | newStreet hp => exact .inl (deals_call (hr.node (by rw [hp]; rfl)).2 hi.calls)
  | showdown _ _ _ hnode =>
    rcases hnode with rfl | rfl
    · exact .inl rfl
    · left
      exact congrArg (fun store => { h.node.before (showdownClaimKey u.idx) _ with store := store })
        (Peer.Node.delete_put_self (showdownClaimKey u.idx) _)
  | _ => exact .inl rfl

/-! ### The two views -/

def Room.read (σ : Room) (q : ℕ) (key : Key) : Option Bytes := (σ.plays q).node.store.get key

theorem answer_of_round {s : ℕ} {j : Round.Input} {e : Event} (he : p.answer σ.plays s (.round j) = some e) :
    e = .round (Round.answered p.table (fun _ => true) σ.runners s j) ∧
      Round.Served p.table (fun _ => true) σ.runners s
        (Round.answered p.table (fun _ => true) σ.runners s j) := by
  simp only [Party.answer] at he
  split_ifs at he with hserved
  exact ⟨(Option.some.inj he).symm, hserved⟩

theorem answer_deal {s : ℕ} {ev : Event} {i : Peer.Input} {read : ℕ → Key → Option Bytes}
    (he : p.answer σ.plays s ev = some (.deal i read)) : read = σ.read := by
  cases ev with
  | deal j read' => exact (Event.deal.inj (Option.some.inj he)).2.symm
  | round j => cases (answer_of_round he).1
  | _ => cases he

theorem answer_claim {s seat : ℕ} {ev : Event} {read : ℕ → Key → Option Bytes}
    (he : p.answer σ.plays s ev = some (.claim seat read)) : read = σ.read := by
  cases ev with
  | claim j read' => exact (Event.claim.inj (Option.some.inj he)).2.symm
  | round j => cases (answer_of_round he).1
  | _ => cases he

theorem answer_round {s : ℕ} {ev : Event} {i : Round.Input} (he : p.answer σ.plays s ev = some (.round i)) :
    ∃ j, ev = .round j ∧ i = Round.answered p.table (fun _ => true) σ.runners s j ∧
      Round.Served p.table (fun _ => true) σ.runners s i := by
  cases ev with
  | round j =>
    obtain ⟨heq, hserved⟩ := answer_of_round he
    obtain rfl := Event.round.inj heq
    exact ⟨j, rfl, rfl, hserved⟩
  | _ => cases he

theorem answer_head {s : ℕ} {ev : Event} (he : p.answer σ.plays s ev = some .head) : ev = .head := by
  cases ev with
  | head => rfl
  | round j => cases (answer_of_round he).1
  | _ => cases he

theorem answer_submit {s : ℕ} {ev : Event} {a : Round.Submit} (he : p.answer σ.plays s ev = some (.submit a)) :
    ev = .submit a := by
  cases ev with
  | submit b => exact Option.some.inj he
  | round j => cases (answer_of_round he).1
  | _ => cases he

/- What the moves of a seat keep holds at the seat in every run of the table. -/
theorem Party.keeps {ok : Room → ℕ × Event → Prop} {es : List (ℕ × Event)} {s : ℕ} (hs : s < p.table.size)
    {P : Play → Prop} (ht : Trace p.step ok p.start es σ) (h0 : P (p.start.plays s))
    (hmove : ∀ h e h', Play.Move (p.seat s hs) h e h' → P h → P h') : P (σ.plays s) := by
  refine ht.keeps (P := fun σ => P (σ.plays s)) h0 ?_
  intro σ x σ' _ hstep hP
  obtain ⟨hx, e, h, _, hh, rfl⟩ := Party.step_eq hstep
  dsimp only
  rcases eq_or_ne s x.1 with rfl | hne
  · rw [Function.update_self]
    exact hmove _ _ _ (Play.step_move hh) hP
  · rwa [Function.update_of_ne hne]

theorem Party.inv {ok : Room → ℕ × Event → Prop} {es : List (ℕ × Event)} (ht : Trace p.step ok p.start es σ)
    {s : ℕ} (hs : s < p.table.size) : Inv (p.seat s hs) (σ.plays s) ∧ Rests (σ.plays s) :=
  Party.keeps hs (P := fun h => Inv (p.seat s hs) h ∧ Rests h) ht
    ⟨.start (p.seat s hs), fun _ => ⟨rfl, rfl⟩, fun _ => rfl⟩ fun _ _ _ hm hP => ⟨hP.1.move hm, hP.2.move hm⟩

theorem runners_update (σ : Room) (s : ℕ) (h : Play) (hosted : List (ℕ × Key)) :
    Room.runners ⟨Function.update σ.plays s h, hosted⟩ = Function.update σ.runners s h.runner := by
  funext q
  rcases eq_or_ne q s with rfl | hne
  · simp [Room.runners]
  · simp [Room.runners, hne]

theorem deals_update (σ : Room) (s : ℕ) (h : Play) (hosted : List (ℕ × Key)) :
    Room.deals ⟨Function.update σ.plays s h, hosted⟩ = Function.update σ.deals s (h.deals s) := by
  funext q
  rcases eq_or_ne q s with rfl | hne
  · simp [Room.deals]
  · simp [Room.deals, hne]

/-- An event at a seat is a step of the betting, or none. -/
theorem runners_step {P : Round.Net → ℕ → Round.Input → Prop} (hok : p.Under P σ x)
    (hs : p.step σ x = some σ') :
    σ'.runners = σ.runners ∨ Round.Step p.table (fun _ => true) P σ.runners σ'.runners := by
  obtain ⟨hx, e, h, he, hh, rfl⟩ := Party.step_eq hs
  rw [runners_update]
  have hsame : h.runner = (σ.plays x.1).runner →
      Function.update σ.runners x.1 h.runner = σ.runners := fun heq => by
    rw [heq]
    exact Function.update_eq_self ..
  cases Play.step_move hh with
  | beginRound hp _ hr =>
    rw [Party.Under, answer_head he] at hok
    exact .inr (.node (i := .beginRound) hx rfl trivial hok hr)
  | @submit a r hr =>
    rw [Party.Under, answer_submit he] at hok
    exact .inr (.node (i := .submit a) hx rfl trivial hok hr)
  | @round street i r hp hin hr =>
    obtain ⟨j, hev, rfl, hserved⟩ := answer_round he
    rw [Party.Under, hev] at hok
    exact .inr (.node hx rfl hserved hok hr)
  | _ => exact .inl (hsame rfl)

/-- An event at a seat is a step of the deal, or none. -/
theorem deals_step {ok : Room → ℕ × Event → Prop} {es : List (ℕ × Event)} (ht : Trace p.step ok p.start es σ)
    (hs : p.step σ x = some σ') :
    σ'.deals = σ.deals ∨ Peer.Step (Peer.wire Peer.PRIME p.deckGob) p.cards σ.deals σ'.deals := by
  obtain ⟨hx, e, h, he, hh, rfl⟩ := Party.step_eq hs
  obtain ⟨hi, hr⟩ := Party.inv ht hx
  have hm := Play.step_move hh
  rw [deals_update]
  rcases deals_move hr (hi.move hm) hm with hsame | ⟨i, read, rfl, r, hr, rfl⟩
  · left
    rw [show h.deals x.1 = _ from hsame]
    exact Function.update_eq_self ..
  · right
    obtain rfl := answer_deal he
    refine .node (i := i) hx (Peer.Node.before_step _ (Peer.Node.offDeal_showdownClaim _) ?_ hr)
    -- the claims are out of sight, and the deal does not ask for them
    intro q key hkey
    exact if_neg (hkey q)

theorem runners_reaches {P : Round.Net → ℕ → Round.Input → Prop} {es : List (ℕ × Event)}
    (ht : Trace p.step (p.Under P) p.start es σ) : Round.Reaches p.table (fun _ => true) P
      (Round.Net.start (newLog p.table.numPlayers p.table.startingStack)) σ.runners :=
  ht.view Room.runners fun _ _ _ _ _ hok hs => runners_step hok hs

theorem deals_start (p : Party c) : p.start.deals = Peer.Net.start (Peer.wire Peer.PRIME p.deckGob) := by
  funext s
  have hnew : (Store.new : Store Bytes).delete (showdownClaimKey s) = .new := by
    unfold Store.delete Store.new
    simp
  exact congrArg (fun store => ({ store := store, card1 := [], card2 := [] } : Peer.Node Bytes)) hnew

theorem deals_reaches {ok : Room → ℕ × Event → Prop} {es : List (ℕ × Event)}
    (ht : Trace p.step ok p.start es σ) : Peer.Reaches (Peer.wire Peer.PRIME p.deckGob) p.cards
      (Peer.Net.start (Peer.wire Peer.PRIME p.deckGob)) σ.deals :=
  deals_start p ▸ ht.view Room.deals fun _ _ _ _ ht _ hs => deals_step ht hs

end Parts

/-- In whatever order the nodes of a table take their steps, their runners make a
run of the betting, under any condition put on it, and their dealing makes a run
of the deal. -/
theorem hand_refines_parts (c : Primitives) (p : Party c) (P : Round.Net → ℕ → Round.Input → Prop)
    (es : List (ℕ × Event)) (σ : Room) (ht : Trace p.step (p.Under P) p.start es σ) :
    Round.Reaches p.table (fun _ => true) P
        (Round.Net.start (newLog p.table.numPlayers p.table.startingStack)) σ.runners ∧
      Peer.Reaches (Peer.wire Peer.PRIME p.deckGob) p.cards
        (Peer.Net.start (Peer.wire Peer.PRIME p.deckGob)) σ.deals :=
  ⟨runners_reaches ht, deals_reaches ht⟩

/- The hand in which seat 0 folds. -/
theorem zeroFolds_under : Trace twoNodes.step (twoNodes.Under (Round.VerifierRemains twoNodes.table))
    twoNodes.start zeroFolds
    (run twoNodes.step (twoNodes.Under (Round.VerifierRemains twoNodes.table)) twoNodes.start zeroFolds) :=
  run_trace (by decide +kernel)

theorem fold_refines_parts : ∃ σ : Room, (σ.runners 0).rounds = 1 ∧
    Round.Reaches twoNodes.table (fun _ => true) (Round.VerifierRemains twoNodes.table)
      (Round.Net.start (newLog 2 100)) σ.runners ∧
    Peer.Reaches (Peer.wire Peer.PRIME twoNodes.deckGob) twoNodes.cards
      (Peer.Net.start (Peer.wire Peer.PRIME twoNodes.deckGob)) σ.deals :=
  ⟨_, by decide +kernel, hand_refines_parts _ twoNodes _ _ _ zeroFolds_under⟩

end P2Poker.Hand
