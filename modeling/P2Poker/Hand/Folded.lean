import P2Poker.Hand.Streets

/-!
# Which seats a node polls

Receipts and attestations are asked of the seats that are not folded. A reveal
polls the seat before and the last seat, and the showdown the last stripper of
every hole card, folded or not.
-/

namespace P2Poker.Peer
open P2Poker.Lib P2Poker.Crypto P2Poker.Ephemeral

section Revealing
variable {K V : Type} {o : Values K V} {u : Setup K} {read : ℕ → Key → Option V} {r r' : Node V}

def Call.reveals : Call → Bool
  | .runShuffle => false
  | .dealHoleCards => false
  | _ => true

/- Where a node can be in a reveal. -/
def Phase.InReveal (u : Setup K) : Phase V → Prop
  | .idle => True
  | .pollRelay _ _ => u.seatIdx ≠ 0
  | .stripping _ _ _ => True
  | .pollCard _ _ => u.seatIdx ≠ u.lastSeat
  | .failed _ => True
  | _ => False

structure InReveal (u : Setup K) (r : Node V) : Prop where
  todo : ∀ k ∈ r.todo, k.reveals = true
  phase : r.phase.InReveal u

theorem InReveal.reveal (htodo : ∀ k ∈ r.todo, k.reveals = true) (cards : List ℕ) :
    InReveal u (r.reveal u cards) := by
  refine ⟨by rwa [Node.reveal_todo], ?_⟩
  unfold Node.reveal
  split
  · trivial
  · split
    · trivial
    · split_ifs with h0
      · trivial
      · exact h0

theorem InReveal.move (hi : InReveal u r) (hm : Node.Move o u read r r') : InReveal u r' := by
  have hphase := hi.phase
  have htodo := hi.todo
  cases hm with
  | tooFew _ ht =>
    rw [ht] at htodo
    cases htodo _ (List.mem_cons_self ..)
  | openDeck _ ht =>
    rw [ht] at htodo
    cases htodo _ (List.mem_cons_self ..)
  | awaitStep _ ht =>
    rw [ht] at htodo
    cases htodo _ (List.mem_cons_self ..)
  | openHoles _ ht =>
    rw [ht] at htodo
    cases htodo _ (List.mem_cons_self ..)
  | openReveal _ ht =>
    rw [ht] at htodo
    exact .reveal (fun k hk => htodo k (List.mem_cons_of_mem _ hk)) _
  | gotRelay => exact ⟨htodo, trivial⟩
  | stripCard =>
    simp only [Node.stripCard]
    split_ifs with hl
    · exact .reveal (by rw [Node.setCommunity_todo]; exact htodo) _
    · exact ⟨htodo, hl⟩
  | gotCard => exact .reveal (by rw [Node.setCommunity_todo]; exact htodo) _
  -- the phases of the shuffle and of the hole cards
  | _ => simp_all [Phase.InReveal]

end Revealing

end P2Poker.Peer

namespace P2Poker.Round
open P2Poker.Lib P2Poker.Crypto P2Poker.Game P2Poker.Ephemeral

/- Attestations are gathered from seats that are in the hand. -/
def Gathers (r : Runner) : Prop :=
  ∀ k p a cosigs, r.phase = .inRound k p a (.gathering cosigs) →
    ∀ x ∈ cosigs, r.log.state.isFolded x.1.toNat = false

theorem Gathers.move {c : Primitives} {u : Setup c} {r r' : Runner} {i : Input} (hg : Gathers r)
    (hm : Runner.Move u r i r') : Gathers r' := by
  have hstart : ∀ st cosigs, st = r.startStage u → st ≠ .gathering cosigs := by
    rintro _ cosigs rfl
    unfold Runner.startStage
    split_ifs
    · exact nofun
    · exact nofun
  intro k p a cosigs hphase x hx
  cases hm with
  | submit => exact hg k p a cosigs hphase x hx
  | beginRound => exact absurd (Phase.inRound.inj hphase).2.2.2 (hstart _ _ rfl)
  | reject => exact hg k p a cosigs hphase x hx
  | nextAttempt =>
    have hst := (Phase.inRound.inj hphase).2.2.2
    split_ifs at hst
    exact absurd hst (hstart _ _ rfl)
  | attest =>
    obtain ⟨_, _, _, hst⟩ := Phase.inRound.inj hphase
    rw [← Stage.gathering.inj hst] at hx
    obtain ⟨seat, hseat, rfl⟩ := List.mem_map.mp hx
    exact (mem_expectedAutoFoldAttestors.mp hseat).2.2
  | attestation hold =>
    obtain ⟨_, _, _, hst⟩ := Phase.inRound.inj hphase
    rw [← Stage.gathering.inj hst] at hx
    obtain ⟨y, hy, rfl⟩ := List.mem_map.mp hx
    have hout := hg _ _ _ _ hold y hy
    split_ifs with heq
    · rwa [heq] at hout
    · exact hout
  | noAttestors => cases hphase
  | attestationFailed => cases hphase
  | foldRefused => cases hphase
  | fold => cases hphase
  | commit => cases hphase
  | _ => cases (Phase.inRound.inj hphase).2.2.2

end P2Poker.Round

namespace P2Poker.Hand
open P2Poker.Lib P2Poker.Crypto P2Poker.Game P2Poker.Ephemeral

section Polls
variable {c : Primitives} (u : Seat c) (h : Play)

/- The seats that the goroutine of a claim asks: the claimant and the last
stripper of its hole cards. -/
def claimPolls (owner : ℕ) : List ℕ :=
  owner :: (Peer.nonOwnerRing u.table.size owner).getLast?.toList

/-- The seats whose stores the node polls at this moment. -/
def Play.polls : List ℕ :=
  match h.place with
  | .calling _ =>
    match h.node.phase with
    | .pollStep => [u.idx - 1]
    | .pollFinal => [u.table.size - 1]
    | .holes slots => slots.filterMap fun
      | .polling seat => some seat
      | _ => none
    | .pollRelay _ _ => [u.idx - 1]
    | .pollCard _ _ => [u.table.size - 1]
    | _ => []
  | .round _ =>
    match h.runner.phase with
    | .inRound _ _ _ .polling => [h.runner.log.expectedNextPlayer.toNat]
    | .inRound _ _ _ (.collecting got) => (h.runner.receiptSeats u.rounds).filter fun seat => seat ∉ got
    | .inRound _ _ _ (.gathering cosigs) =>
      (cosigs.filter fun x => x.2 = none ∧ x.1 ≠ u.rounds.mySeat).map fun x => x.1.toNat
    | _ => []
  | .showdown _ (.polling waiting _) => (waiting.flatMap (claimPolls u)).filter fun seat => seat ≠ u.idx
  | _ => []

/- Folded in the committed log. -/
def Play.isOut (seat : ℕ) : Bool := h.runner.base.state.isFolded seat

/-- A node that is in the hand polls no seat that is not. -/
def SparesFolded : Prop := h.isOut u.idx = false → ∀ f ∈ h.polls u, h.isOut f = false

/- The seats a reveal polls: the one before and the last. -/
def neighbours : List ℕ :=
  (if u.idx = 0 then [] else [u.idx - 1]) ++ if u.idx + 1 = u.table.size then [] else [u.table.size - 1]

/-- A reveal is entered only while the seat before and the last seat are in the
hand, and the showdown only while the last strippers are. -/
def Clear : Event → Prop
  | .settle =>
    match h.place with
    | .round street =>
      h.runner.log.state.street ≠ street → (revealCall h.runner.log.state.street).isSome →
        h.runner.log.state.isFolded u.idx = false →
        ∀ q ∈ neighbours u, h.runner.log.state.isFolded q = false
    | _ => True
  | .head =>
    match h.place with
    | .loop =>
      h.runner.log.state.handOver = true → 2 ≤ h.runner.log.state.numNonFolded →
        h.runner.log.state.isFolded u.idx = false →
        ∀ owner ∈ Peer.stillIn u.table.size h.runner.log.state.folded,
          ∀ q ∈ (Peer.nonOwnerRing u.table.size owner).getLast?, q ≠ u.idx →
            h.runner.log.state.isFolded q = false
    | _ => True
  | _ => True

variable {u h} {h' : Play} {e : Event}

instance : Decidable (Clear u h e) := by
  delta Clear
  induction e using Event.casesOn <;> induction h.place using Place.casesOn <;> infer_instance

def FoldPlace (u : Seat c) (h : Play) : Place → Prop
  | .waiting => h.runner.phase = .idle ∧ h.runner.log.entries = []
  | .calling k =>
    h.runner.phase = .idle ∧
      (h.runner.log.entries = [] ∧ k.reveals = false ∨
        Peer.InReveal u.deal h.node ∧
          (h.runner.log.state.isFolded u.idx = false →
            ∀ q ∈ neighbours u, h.runner.log.state.isFolded q = false))
  | .loop => h.runner.phase = .idle
  | .round _ => Round.Gathers h.runner
  | .showdown _ stage =>
    h.runner.phase = .idle ∧
      (h.runner.log.state.isFolded u.idx = false → ∀ waiting claims, stage = .polling waiting claims →
        ∀ owner ∈ waiting, ∀ q ∈ claimPolls u owner, q ≠ u.idx → h.runner.log.state.isFolded q = false)
  | _ => True

structure FoldInv (u : Seat c) (h : Play) : Prop where
  inv : Inv u h
  place : FoldPlace u h h.place

theorem Inv.base_of_idle (hi : Inv u h) (hidle : h.runner.phase = .idle) : h.runner.base = h.runner.log := by
  have hp := hi.sound.phase
  rw [hidle] at hp
  exact Log.upTo_eq_self hp.1.le

theorem isFolded_of_stillIn {state : State} {n seat : ℕ} (hs : seat ∈ Peer.stillIn n state.folded) :
    state.isFolded seat = false := by
  have hget : state.folded[seat]? = some false := by simpa [Peer.stillIn] using (List.mem_filter.mp hs).2
  rw [State.isFolded, List.getD_eq_getElem?_getD, hget]
  rfl

theorem FoldInv.showdown {node : Peer.Node Bytes} {stage : Peer.ShowStage} (hf : FoldInv u h)
    (hok : Clear u h .head) (hp : h.place = .loop) (hover : h.runner.log.state.handOver = true)
    (htwo : 2 ≤ h.runner.log.state.numNonFolded)
    (hstage : stage = .panicked ∨
      stage = Peer.awaitClaims (Peer.stillIn u.table.size h.runner.log.state.folded) []) :
    FoldPlace u { h with node := node, place := .showdown h.runner.log.state.folded stage }
      (.showdown h.runner.log.state.folded stage) := by
  have hidle := hf.place
  rw [hp] at hidle
  refine ⟨hidle, ?_⟩
  rintro hown waiting claims rfl owner howner q hq hne
  simp only [Clear, hp] at hok
  have hwaiting : waiting = Peer.stillIn u.table.size h.runner.log.state.folded := by
    rcases hstage with hpan | hawait
    · cases hpan
    · unfold Peer.awaitClaims at hawait
      split_ifs at hawait
      exact (Peer.ShowStage.polling.inj hawait).1
  rw [hwaiting] at howner
  rcases List.mem_cons.mp hq with rfl | hlast
  · exact isFolded_of_stillIn howner
  · exact hok hover htwo hown owner howner q (by simpa using hlast) hne

theorem FoldInv.newStreet {street : Street} {k : Peer.Call} (hf : FoldInv u h) (hok : Clear u h .settle)
    (hp : h.place = .round street) (hidle : h.runner.phase = .idle)
    (hnew : h.runner.log.state.street ≠ street) (hk : revealCall h.runner.log.state.street = some k) :
    FoldPlace u (h.call k) (.calling k) := by
  have hreveals : k.reveals = true := by
    cases hs : h.runner.log.state.street <;> rw [hs] at hk <;> cases hk <;> rfl
  have hplace := hf.inv.place
  rw [hp] at hplace
  simp only [Clear, hp, hk, Option.isSome_some] at hok
  refine ⟨hidle, .inr ⟨⟨?_, ?_⟩, hok hnew trivial⟩⟩
  · intro k' hk'
    rwa [List.mem_singleton.mp hk']
  · show (h.node.phase).InReveal u.deal
    rw [hplace.2.2.1]
    trivial

theorem FoldInv.move (hf : FoldInv u h) (hok : Clear u h e) (hm : Play.Move u h e h') : FoldInv u h' := by
  refine ⟨hf.inv.move hm, ?_⟩
  have hplace := hf.place
  have hinv := hf.inv.place
  cases hm with
  | gameStart hp =>
    rw [hp] at hplace
    exact ⟨hplace.1, .inl ⟨hplace.2, rfl⟩⟩
  | deal hp hr =>
    show FoldPlace u _ h.place
    rw [hp] at hplace ⊢
    refine ⟨hplace.1, hplace.2.imp id fun hrev => ⟨hrev.1.move (Peer.Node.step_move hr), hrev.2⟩⟩
  | callFailed => trivial
  | shuffled hp =>
    rw [hp] at hplace hinv
    obtain ⟨_, _, ⟨_, _, hlog⟩ | ⟨hne, _⟩⟩ := hinv
    · exact ⟨hplace.1, .inl ⟨hlog, rfl⟩⟩
    · exact absurd rfl hne
  | returned hp =>
    rw [hp] at hplace
    exact hplace.1
  | uncontested => trivial
  | showdown hp hover htwo _ hstage => exact hf.showdown hok hp hover htwo hstage
  | showdownFailed => trivial
  | beginRound hp _ hr =>
    rw [hp] at hplace
    have hg : Round.Gathers h.runner := by
      intro k p a cosigs hphase
      rw [show h.runner.phase = .idle from hplace] at hphase
      cases hphase
    exact hg.move (Round.Runner.step_move (i := .beginRound) hr)
  | @submit a r hr =>
    have hm : Round.Runner.Move u.rounds h.runner (.submit a) r := Round.Runner.step_move hr
    show FoldPlace u _ h.place
    cases hp : h.place with
    | round street =>
      rw [hp] at hplace
      exact Round.Gathers.move hplace hm
    | _ =>
      cases hm with
      | submit =>
        rw [hp] at hplace
        exact hplace
  | round hp _ hr =>
    show FoldPlace u _ h.place
    rw [hp] at hplace ⊢
    exact Round.Gathers.move hplace (Round.Runner.step_move hr)
  | roundFailed => trivial
  | settled _ hidle => exact hidle
  | newStreet hp hidle hnew hk => exact hf.newStreet hok hp hidle hnew hk
  | @claim folded waiting claims claims' seat read hp =>
    rw [hp] at hplace
    refine ⟨hplace.1, fun hown waiting' _ hstage owner howner => ?_⟩
    refine hplace.2 hown waiting claims rfl owner ?_
    unfold Peer.awaitClaims at hstage
    split_ifs at hstage
    rw [← (Peer.ShowStage.polling.inj hstage).1] at howner
    exact List.mem_of_mem_erase howner

theorem FoldInv.of_trace {es : List Event} (ht : Trace (Play.step u) (Clear u) (.start u) es h) :
    FoldInv u h :=
  ht.keeps ⟨.start u, rfl, rfl⟩ fun _ _ _ hok hs hf => hf.move hok (Play.step_move hs)

theorem isFolded_new {l : Log} (hl : l.entries = []) (q : ℕ) : l.state.isFolded q = false := by
  have hstate : l.state.folded = List.replicate l.numPlayers.toNat false := by
    rw [Log.state, hl]
    rfl
  rw [State.isFolded, hstate, List.getD_eq_getElem?_getD, List.getElem?_replicate]
  split_ifs <;> rfl

/- The polls of a reveal. -/
theorem mem_neighbours {f : ℕ} (hr : Peer.InReveal u.deal h.node) (hp : ∃ k, h.place = .calling k)
    (hmem : f ∈ h.polls u) : f ∈ neighbours u := by
  obtain ⟨k, hp⟩ := hp
  have hphase := hr.phase
  have hlt := u.idx_lt
  unfold neighbours
  cases hph : h.node.phase with
  | pollRelay cardIdx rest =>
    simp only [Play.polls, hp, hph] at hmem
    rw [hph] at hphase
    rw [List.mem_singleton.mp hmem, if_neg (show u.idx ≠ 0 from hphase)]
    exact List.mem_append_left _ (List.mem_singleton_self _)
  | pollCard cardIdx rest =>
    simp only [Play.polls, hp, hph] at hmem
    rw [hph] at hphase
    have hne : u.idx ≠ u.table.size - 1 := hphase
    rw [List.mem_singleton.mp hmem, if_neg (show u.idx + 1 ≠ u.table.size by omega)]
    exact List.mem_append_right _ (List.mem_singleton_self _)
  | idle =>
    simp only [Play.polls, hp, hph] at hmem
    cases hmem
  | stripping cardIdx layered rest =>
    simp only [Play.polls, hp, hph] at hmem
    cases hmem
  | failed err =>
    simp only [Play.polls, hp, hph] at hmem
    cases hmem
  | _ =>
    rw [hph] at hphase
    exact hphase.elim

/- The polls of a round. -/
theorem FoldInv.spares_round {street : Street} {f : ℕ} (hf : FoldInv u h) (hp : h.place = .round street)
    (hmem : f ∈ h.polls u) : h.isOut f = false := by
  have hplace := hf.place
  have hinv := hf.inv.place
  rw [hp] at hplace hinv
  have hn : 2 ≤ u.table.numPlayers.toNat := by
    rw [u.table.numPlayers_toNat]
    exact hinv.1
  simp only [Play.polls, hp] at hmem
  unfold Play.isOut
  split at hmem
  · rename_i hph
    have hbase := hf.inv.sound.log_eq_base hph rfl
    have hlive := (hf.inv.sound.inRound hph).2.2.2.1
    rw [← hbase] at hlive ⊢
    rw [List.mem_singleton.mp hmem]
    exact (expectedNextPlayer_unfolded hf.inv.reachable hn hlive).2
  · rename_i hph
    -- folded in the committed log is folded in the log with the new entry
    have hseat := (u.table.mem_receiptSeats u.idx_lt).mp (List.mem_filter.mp hmem).1
    have hlen : h.runner.log.entries.length = h.runner.rounds + 1 := (hf.inv.sound.inRound hph).2.2.2.2.1
    by_contra hout
    have := Log.isFolded_of_upTo (l := h.runner.log) (k := h.runner.log.entries.length) (by omega)
      (Bool.not_eq_false _ ▸ hout)
    rw [Log.upTo_eq_self le_rfl, hseat.2.2] at this
    cases this
  · rename_i hph
    obtain ⟨x, hx, rfl⟩ := List.mem_map.mp hmem
    rw [← hf.inv.sound.log_eq_base hph rfl]
    exact hplace _ _ _ _ hph x (List.mem_filter.mp hx).1
  · cases hmem

theorem FoldInv.spares (hf : FoldInv u h) : SparesFolded u h := by
  intro hown f hmem
  have hplace := hf.place
  cases hp : h.place with
  | calling k =>
    rw [hp] at hplace
    obtain ⟨hidle, hcase⟩ := hplace
    unfold Play.isOut at hown ⊢
    rw [hf.inv.base_of_idle hidle] at hown ⊢
    rcases hcase with ⟨hnew, _⟩ | ⟨hreveal, hclear⟩
    · exact isFolded_new hnew f
    · exact hclear hown f (mem_neighbours hreveal ⟨k, hp⟩ hmem)
  | round street => exact hf.spares_round hp hmem
  | showdown folded stage =>
    rw [hp] at hplace
    obtain ⟨hidle, hclear⟩ := hplace
    unfold Play.isOut at hown ⊢
    rw [hf.inv.base_of_idle hidle] at hown ⊢
    cases stage with
    | polling waiting claims =>
      simp only [Play.polls, hp] at hmem
      obtain ⟨hmem, hne⟩ := List.mem_filter.mp hmem
      obtain ⟨owner, howner, hq⟩ := List.mem_flatMap.mp hmem
      exact hclear hown waiting claims rfl owner howner f hq (by simpa using hne)
    | _ =>
      simp only [Play.polls, hp] at hmem
      cases hmem
  | _ =>
    simp only [Play.polls, hp] at hmem
    cases hmem

theorem folded_seats_spared (u : Seat c) {es : List Event}
    (ht : Trace (Play.step u) (Clear u) (.start u) es h) : SparesFolded u h :=
  (FoldInv.of_trace ht).spares

end Polls

def threeLog (acts : List Action) : Log := (newLog 3 100).play .transparent seatKey acts

/- Seat 0 of three. Seat 1 folds and the flop is revealed. -/
def firstOfThree : Seat .transparent := sampleSeat 3 0 Round.three_seats_lt (by decide)

def secondFolds : List Event :=
  let check : Action := ⟨.check, 0⟩
  let fold : Action := ⟨.fold, 0⟩
  List.flatten [
    [.gameStart], dealt [.begin, .shuffle, .pollFinal], [.back],
    dealt [.begin, .pollHole 0, .pollHole 1, .stripSlot 0, .stripSlot 1, .stripSlot 2, .stripSlot 3, .stripSlot 4,
      .stripSlot 5, .holesDone], [.back],
    proposes check, committed [1, 2], takes firstOfThree (threeLog [check]) fold, committed [2],
    takes firstOfThree (threeLog [check, fold]) check, committed [2], dealt [.begin, .stripCard]]

def pollsPastFolded : Play := run (Play.step firstOfThree) (Clear firstOfThree) (.start firstOfThree) secondFolds

theorem folded_neighbour_spared : pollsPastFolded.isOut 1 = true ∧ pollsPastFolded.polls firstOfThree = [2] ∧
    SparesFolded firstOfThree pollsPastFolded :=
  ⟨by decide +kernel, by decide +kernel, folded_seats_spared firstOfThree (run_trace (by decide +kernel))⟩

/- Seat 1 of three. Seat 0 folds, the others check. -/
def seatOne : Seat .transparent := sampleSeat 3 1 Round.three_seats_lt (by decide)

def seatOneDeals : List Event :=
  [.gameStart] ++ dealt [.begin, .pollStep, .shuffle, .pollFinal] ++ [.back] ++
    dealt [.begin, .pollHole 2, .pollHole 3, .pollHole 4, .pollHole 5, .stripSlot 0, .stripSlot 1, .stripSlot 2,
      .stripSlot 3, .stripSlot 4, .stripSlot 5, .holesDone] ++ [.back]

def seatOnePlays (first : Action) (others : List ℕ) : List Event :=
  let check : Action := ⟨.check, 0⟩
  takes seatOne (threeLog []) first ++ committed others ++ proposes check ++ committed others ++
    takes seatOne (threeLog [first, check]) check ++ committed others

def firstFolds : Play :=
  run (Play.step seatOne) Free (.start seatOne)
    (seatOneDeals ++ seatOnePlays ⟨.fold, 0⟩ [2] ++ dealt [.begin])

theorem folded_seat_polled : ∃ es h, Trace (Play.step seatOne) Free (.start seatOne) es h ∧
    h.isOut 1 = false ∧ h.isOut 0 = true ∧ 0 ∈ h.polls seatOne :=
  ⟨_, firstFolds, run_trace (by decide +kernel), by decide +kernel, by decide +kernel, by decide +kernel⟩

end P2Poker.Hand
