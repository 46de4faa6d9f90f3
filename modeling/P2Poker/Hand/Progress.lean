import P2Poker.Hand.Outcome
import P2Poker.Peer.Calls
import P2Poker.Round.Progress

/-!
# A hand goes on to its end

The nodes of a table wait for each other in the deal, in the rounds and at the
showdown, and a node may be in the deal of a street while another is still in the
round before it. As long as nobody folds and no deadline fires, they never all
wait: the seats with the fewest rounds either play on or are in a call that all
others have begun.
-/

namespace P2Poker.Round
open P2Poker.Crypto P2Poker.Game

theorem Table.street_mono {c : Crypto.Primitives} (t : Table c) (G : List Entry) {j k : ℕ} (hjk : j ≤ k) :
    (t.logAt (G.take j)).state.street.index ≤ (t.logAt (G.take k)).state.street.index :=
  Log.upTo_induct (l := t.logAt G)
    (P := fun l => (t.logAt (G.take j)).state.street.index ≤ l.state.street.index) hjk le_rfl fun i e _ hi => by
      refine hi.trans ?_
      rcases Log.street_append ((t.logAt G).upTo i) e with hsame | hnext
      · rw [hsame]
      · rw [hnext]
        generalize ((t.logAt G).upTo i).state.street = street
        cases street <;> decide

/- A poll that is served is scheduled as it is. -/
theorem answered_of_served {c : Crypto.Primitives} {t : Table c} {net : Net} {s : ℕ} {i : Input}
    (h : Served t (fun _ => true) net s i) : answered t (fun _ => true) net s i = i := by
  unfold answered
  split
  · rename_i hph
    simp only [Served, hph, true_implies] at h
    simp [h]
  · rename_i hph
    simp only [Served, hph, true_implies] at h
    simp [h]
  · rename_i hph
    simp only [Served, hph, true_implies] at h
    simp [h]
  · rfl

end P2Poker.Round

namespace P2Poker.Peer
open P2Poker.Ephemeral

/- What can be done inside a call does not depend on the calls after it. -/
theorem Node.step_of_before {K V : Type} {o : Values K V} {u : Setup K} {r r' : Node V} {key : Key}
    {rest : List Call} {read read' : ℕ → Key → Option V} {i : Input}
    (hread : ∀ q key, (∀ s, key ≠ showdownClaimKey s) → read' q key = read q key)
    (hbusy : r.phase = .idle → r.todo ≠ []) (hs : (r.before key rest).step o u read' i = some r') :
    ∃ r', r.step o u read i = some r' := by
  have hph : (r.before key rest).phase = r.phase := rfl
  cases i with
  | begin =>
    have hidle : r.phase = .idle := by
      simp only [step, begin] at hs
      split at hs
      · assumption
      · assumption
      · assumption
      · cases hs
    exact begin_isSome hidle (hbusy hidle)
  | pollStep =>
    simp only [step, hph] at hs ⊢
    rw [hread _ _ fun s h => (offDeal_showdownClaim s).1 _ h.symm] at hs
    split at hs
    · split at hs <;> exact ⟨_, rfl⟩
    · cases hs
  | shuffle =>
    simp only [step, hph] at hs ⊢
    split at hs
    · exact ⟨_, rfl⟩
    · cases hs
  | pollFinal =>
    simp only [step, hph] at hs ⊢
    rw [hread _ _ fun s h => (offDeal_showdownClaim s).1 _ h.symm] at hs
    split at hs
    · split at hs <;> exact ⟨_, rfl⟩
    · cases hs
  | pollHole slot =>
    simp only [step, hph] at hs ⊢
    split at hs
    · split at hs
      · rw [hread _ _ fun s h => (offDeal_showdownClaim s).2.1 _ _ h.symm] at hs
        split at hs
        · exact ⟨_, rfl⟩
        · cases hs
      · cases hs
    · cases hs
  | stripSlot slot =>
    simp only [step, hph] at hs ⊢
    split at hs
    · split at hs
      · exact ⟨_, rfl⟩
      · cases hs
    · cases hs
  | holesDone =>
    simp only [step, hph] at hs ⊢
    split at hs
    · split_ifs at hs ⊢
      split at hs <;> exact ⟨_, rfl⟩
    · cases hs
  | pollRelay =>
    simp only [step, hph] at hs ⊢
    split at hs
    · rw [hread _ _ fun s h => (offDeal_showdownClaim s).2.2.1 _ _ h.symm] at hs
      split at hs
      · exact ⟨_, rfl⟩
      · cases hs
    · cases hs
  | stripCard =>
    simp only [step, hph] at hs ⊢
    split at hs
    · exact ⟨_, rfl⟩
    · cases hs
  | pollCard =>
    simp only [step, hph] at hs ⊢
    split at hs
    · rw [hread _ _ fun s h => (offDeal_showdownClaim s).2.2.2 _ h.symm] at hs
      split at hs
      · exact ⟨_, rfl⟩
      · cases hs
    · cases hs

end P2Poker.Peer

namespace P2Poker.Hand
open P2Poker.Lib P2Poker.Crypto P2Poker.Game P2Poker.Ephemeral P2Poker.Cards

/- Neither a deadline nor an action of the player. -/
def Event.isFree : Event → Bool
  | .submit _ => false
  | .round i => !i.isDeadline
  | _ => true

/-- The node of the seat can do something by itself. -/
def Party.CanGo {c : Primitives} (p : Party c) (σ : Room) (s : ℕ) : Prop :=
  ∃ e σ', e.isFree = true ∧ p.step σ (s, e) = some σ'

/-- What a node waits in. -/
inductive Blocked (h : Play) : Prop
  | calling (k : Peer.Call) : h.place = .calling k → ¬ (h.node.phase = .idle ∧ h.node.todo = []) → Blocked h
  | round (street : Street) : h.place = .round street → h.runner.phase.inside = true → Blocked h
  | polling (folded : List Bool) (waiting : List ℕ) (claims : List Peer.VerifiedClaim) :
      h.place = .showdown folded (.polling waiting claims) → waiting ≠ [] → Blocked h
  | ended : h.place.ended = true → Blocked h

section Seats
variable {c : Primitives} {p : Party c} {σ : Room} {ok : Room → ℕ × Event → Prop} {es : List (ℕ × Event)}
  {s : ℕ} {hand : ℕ → HandRank}

theorem Party.CanGo.of_step {e e' : Event} {h : Play} (hs : s < p.table.size) (hfree : e.isFree = true)
    (he : p.answer σ.plays s e = some e') (hstep : (σ.plays s).step (p.seat s hs) e' = some h) : p.CanGo σ s := by
  obtain ⟨σ', hσ⟩ : ∃ σ', p.step σ (s, e) = some σ' := by
    rw [Party.step, dif_pos (show (s, e).1 < p.table.size from hs)]
    simp only [he, Option.bind_some, hstep, Option.map_some]
    exact ⟨_, rfl⟩
  exact ⟨e, σ', hfree, hσ⟩

theorem canGo_round {street : Street} {i : Round.Input} {r : Round.Runner} (hs : s < p.table.size)
    (hp : (σ.plays s).place = .round street) (hin : (σ.plays s).runner.phase.inside = true)
    (hfree : i.isDeadline = false) (hserved : Round.Served p.table (fun _ => true) σ.runners s i)
    (hr : (σ.runners s).step (p.table.setup s) i = some r) : p.CanGo σ s := by
  have hanswer : p.answer σ.plays s (.round i) = some (.round i) := by
    have heq : Round.answered p.table (fun _ => true) (fun q => (σ.plays q).runner) s i = i :=
      Round.answered_of_served hserved
    simp only [Party.answer, heq]
    exact if_pos hserved
  refine .of_step hs (by simp [Event.isFree, hfree]) hanswer (h := { σ.plays s with runner := r }) ?_
  have hr' : (σ.plays s).runner.step (p.seat s hs).rounds i = some r := hr
  simp only [Play.step, hp, hin, if_true, hr', Option.map_some]

/-- A node that can do nothing by itself waits in a call, in a round or at the
showdown, or is done. -/
theorem blocked_of_stuck (ht : Trace p.step ok p.start es σ) (hs : s < p.table.size)
    (hsaid : Says (p.seat s hs) hand (σ.plays s)) (hhealthy : (σ.plays s).runner.phase ≠ .failed)
    (hshort : (σ.plays s).runner.log.entries.length + 1 < 2 ^ 63) (hstuck : ¬ p.CanGo σ s) :
    Blocked (σ.plays s) := by
  obtain ⟨_, hrests⟩ := Party.inv ht hs
  have hplace := hsaid.place
  cases hp : (σ.plays s).place with
  | waiting => exact absurd (.of_step (e := .gameStart) hs rfl rfl (by simp only [Play.step, hp]; rfl)) hstuck
  | calling k =>
    refine .calling k hp ?_
    rintro ⟨hidle, htodo⟩
    refine hstuck ?_
    obtain ⟨h', hback⟩ : ∃ h', (σ.plays s).back k = some h' := by
      simp only [Play.back, hidle, htodo]
      split <;> exact ⟨_, rfl⟩
    exact .of_step (e := .back) (h := h') hs rfl rfl (by simpa only [Play.step, hp] using hback)
  | loop =>
    have hidle := hrests.runner (by rw [hp]; rfl)
    refine absurd ?_ hstuck
    obtain ⟨h', hhead⟩ : ∃ h', (σ.plays s).head (p.seat s hs) = some h' := by
      unfold Play.head
      dsimp only
      split_ifs with hover
      · exact ⟨_, rfl⟩
      · have hlive : (σ.plays s).runner.log.state.handOver = false := by simpa using hover
        simp only [Round.Runner.beginRound, hidle, if_pos (And.intro hlive hshort)]
        exact ⟨_, rfl⟩
    exact .of_step (e := .head) (h := h') hs rfl rfl (by simpa only [Play.step, hp] using hhead)
  | round street =>
    cases hph : (σ.plays s).runner.phase with
    | failed => exact absurd hph hhealthy
    | idle =>
      refine absurd ?_ hstuck
      obtain ⟨h', hsettle⟩ : ∃ h', (σ.plays s).settle street = some h' := by
        simp only [Play.settle, hph]
        split_ifs
        · exact ⟨_, rfl⟩
        · split <;> exact ⟨_, rfl⟩
      exact .of_step (e := .settle) (h := h') hs rfl rfl (by simpa only [Play.step, hp] using hsettle)
    | inRound k q a st => exact .round street hp (by rw [hph]; rfl)
  | showdown folded stage =>
    rw [hp] at hplace
    obtain ⟨_, _, _, _, seen, waiting, _, hst⟩ := hplace
    unfold Peer.awaitClaims at hst
    split_ifs at hst with hw
    · exact .ended (by rw [hp, hst]; rfl)
    · exact .polling folded waiting _ (by rw [hp, hst]) hw
  | uncontested w => exact .ended (by rw [hp]; rfl)
  | failed err =>
    rw [hp] at hplace
    exact absurd hplace hhealthy

end Seats

section Waiting
variable {c : Primitives} {p : Party c} {σ : Room} {ok : Room → ℕ × Event → Prop} {es : List (ℕ × Event)}
  {G : List Entry} {prop : UInt64 → UInt32 → Option Entry} {hand : ℕ → HandRank}

/- The number of calls that a log asks for. -/
def Party.dueAt (p : Party c) (G : List Entry) (j : ℕ) : ℕ := (due (p.table.logAt (G.take j)).state.street).length

theorem due_length (street : Street) : (due street).length = min (street.index + 2) 5 := by
  cases street <;> rfl

theorem Party.dueAt_mono (p : Party c) (G : List Entry) {j k : ℕ} (hjk : j ≤ k) : p.dueAt G j ≤ p.dueAt G k := by
  have := p.table.street_mono G hjk
  rw [dueAt, dueAt, due_length, due_length]
  omega

variable (ht : Trace p.step ok p.start es σ) (hg : Round.Going p.table σ.runners G prop)
include ht hg

/- A seat that is in a call has made the calls its log asks for, or is shuffling. -/
theorem calls_of_calling {s : ℕ} (hs : s < p.table.size) {k : Peer.Call} (hp : (σ.plays s).place = .calling k) :
    (σ.plays s).calls.length = 1 ∧ (σ.runners s).rounds = 0 ∨
      (σ.plays s).calls.length = p.dueAt G (σ.runners s).rounds := by
  obtain ⟨hi, hrests⟩ := Party.inv ht hs
  have hidle : (σ.runners s).phase = .idle := hrests.runner (by rw [hp]; rfl)
  have hplace := hi.place
  rw [hp] at hplace
  obtain ⟨_, _, ⟨_, hcalls, hlog⟩ | ⟨_, _, hcalls⟩⟩ := hplace
  · left
    have hphase := hi.sound.phase
    rw [show (σ.plays s).runner.phase = .idle from hidle] at hphase
    refine ⟨by rw [hcalls]; rfl, ?_⟩
    have := hphase.1
    rw [hlog] at this
    exact this.symm
  · right
    have hlog : (σ.plays s).runner.log = _ := hg.log_idle hs hidle
    rw [hcalls, hlog]
    rfl

theorem calls_of_round {s : ℕ} (hs : s < p.table.size) {street : Street} (hp : (σ.plays s).place = .round street)
    (hin : (σ.plays s).runner.phase.inside = true) :
    (σ.plays s).calls.length = p.dueAt G (σ.runners s).rounds := by
  obtain ⟨hi, _⟩ := Party.inv ht hs
  have hplace := hi.place
  rw [hp] at hplace
  obtain ⟨_, hcalls, _, _, l, hwithin, rfl⟩ := hplace
  have hrounds : (σ.runners s).rounds = l.entries.length := hwithin.inside hin
  have hlog : l = p.table.logAt (G.take (σ.runners s).rounds) := by
    rw [← hg.upTo_eq hs le_rfl, hrounds]
    exact hwithin.upTo.symm
  rw [hcalls, Party.dueAt, ← hlog]

end Waiting

/-! ### In a call -/

section Calls
variable {c : Primitives} {p : Party c} {σ : Room} {ok : Room → ℕ × Event → Prop} {es : List (ℕ × Event)}
  (ht : Trace p.step ok p.start es σ)
include ht

theorem deals_todo_length {s : ℕ} (hs : s < p.table.size) :
    (σ.deals s).todo.length + (σ.plays s).calls.length = (σ.plays s).node.todo.length + 5 := by
  have hle := (Party.inv ht hs).1.calls.length_le
  have htodo : (σ.deals s).todo = (σ.plays s).node.todo ++ Peer.hand.drop (σ.plays s).calls.length := rfl
  rw [htodo, List.length_append, List.length_drop]
  rw [show Peer.hand.length = 5 from rfl] at hle ⊢
  omega

/- All calls but the last one of a seat are over. -/
theorem past_of_calls {s k : ℕ} (hs : s < p.table.size) (halive : ∀ err, (σ.plays s).place ≠ .failed err)
    (hk : k < (σ.plays s).calls.length) : (σ.deals s).Past k := by
  obtain ⟨hi, hrests⟩ := Party.inv ht hs
  have hlen := deals_todo_length ht hs
  have hphase : (σ.deals s).phase = (σ.plays s).node.phase := rfl
  have hrest : (σ.plays s).place.nodeRests = true → (σ.deals s).Past k := by
    intro hr
    have htodo := (hrests.node hr).2
    rw [htodo, List.length_nil] at hlen
    exact .inr (by omega)
  cases hp : (σ.plays s).place with
  | calling call =>
    have hplace := hi.place
    rw [hp] at hplace
    rcases hplace.1 with ⟨htodo, hidle⟩ | ⟨htodo, _⟩
    · rw [htodo, List.length_singleton] at hlen
      exact .inl ⟨hidle, by omega⟩
    · rw [htodo, List.length_nil] at hlen
      exact .inr (by omega)
  | failed err => exact absurd hp (halive err)
  | _ => exact hrest (by rw [hp]; rfl)

theorem calling_of_not_past {s k : ℕ} (hs : s < p.table.size) (halive : ∀ err, (σ.plays s).place ≠ .failed err)
    (hk : k ≤ (σ.plays s).calls.length) (hnot : ¬ (σ.deals s).Past k) :
    ∃ call, (σ.plays s).place = .calling call ∧ ((σ.plays s).node.phase = .idle → (σ.plays s).node.todo ≠ []) := by
  obtain ⟨_, hrests⟩ := Party.inv ht hs
  have hlen := deals_todo_length ht hs
  have hbusy : (σ.plays s).node.phase = .idle → (σ.plays s).node.todo ≠ [] := by
    intro hidle htodo
    rw [htodo, List.length_nil] at hlen
    exact hnot (.inl ⟨hidle, by omega⟩)
  have hrest : (σ.plays s).place.nodeRests = false := by
    by_contra hr
    obtain ⟨hidle, htodo⟩ := hrests.node (by simpa using hr)
    exact hbusy hidle htodo
  cases hp : (σ.plays s).place with
  | calling call => exact ⟨call, rfl, hbusy⟩
  | failed err => exact absurd hp (halive err)
  | _ =>
    rw [hp] at hrest
    cases hrest

/-- A call that all seats have begun goes on. -/
theorem call_goes (hn : 2 ≤ p.table.size) (hcap : 2 * p.table.size + 5 ≤ 52)
    (halive : ∀ s < p.table.size, ∀ err, (σ.plays s).place ≠ .failed err) {w : ℕ} (hw : w < p.table.size)
    {call : Peer.Call} (hp : (σ.plays w).place = .calling call)
    (hbusy : ¬ ((σ.plays w).node.phase = .idle ∧ (σ.plays w).node.todo = []))
    (hmin : ∀ s < p.table.size, (σ.plays w).calls.length ≤ (σ.plays s).calls.length) :
    ∃ s < p.table.size, p.CanGo σ s := by
  obtain ⟨hi, _⟩ := Party.inv ht hw
  have hplace := hi.place
  rw [hp] at hplace
  have hle := hi.calls.length_le
  rw [show Peer.hand.length = 5 from rfl] at hle
  obtain ⟨k, hk⟩ : ∃ k, (σ.plays w).calls.length = k + 1 := by
    obtain ⟨_, _, ⟨_, hcalls, _⟩ | ⟨_, _, hcalls⟩⟩ := hplace
    · exact ⟨0, by rw [hcalls]; rfl⟩
    · rw [hcalls, due_length]
      exact ⟨min ((σ.plays w).runner.log.state.street.index + 2) 5 - 1, by omega⟩
  have hlen := deals_todo_length ht hw
  have hnot : ¬ (σ.deals w).Past (k + 1) := by
    have hphase : (σ.deals w).phase = (σ.plays w).node.phase := rfl
    rcases hplace.1 with ⟨htodo, _⟩ | ⟨htodo, _⟩
    · rw [htodo, List.length_singleton] at hlen
      rintro (⟨_, h⟩ | h) <;> omega
    · rw [htodo, List.length_nil] at hlen
      rintro (⟨hidle, _⟩ | h)
      · exact hbusy ⟨hidle, htodo⟩
      · omega
  obtain ⟨s, hs, hnots, i, r, hstep⟩ := Peer.call_progress hn (by omega : k < 5) (deals_inv hn hcap ht)
    (Peer.InOrder.reaches (deals_reaches ht))
    (fun s hs => past_of_calls ht hs (halive s hs) (by have := hmin s hs; omega)) hw hnot
  obtain ⟨call', hp', hbusy'⟩ := calling_of_not_past ht hs (halive s hs) (by have := hmin s hs; omega) hnots
  obtain ⟨r', hr'⟩ : ∃ r', (σ.plays s).node.step (p.seat s hs).values (p.seat s hs).deal σ.read i = some r' :=
    Peer.Node.step_of_before (fun q key hkey => if_neg (hkey q)) hbusy' hstep
  refine ⟨s, hs, .of_step (e := .deal i σ.read) hs rfl rfl (h := { σ.plays s with node := r' }) ?_⟩
  have hread : (fun q key => (σ.plays q).node.store.get key) = σ.read := rfl
  simp only [Play.step, hp', hread, hr', Option.map_some]

end Calls

/-! ### At the showdown -/

section Showdown
variable {c : Primitives} {p : Party c} {σ : Room} {ok : Room → ℕ × Event → Prop} {es : List (ℕ × Event)}
  {hand : ℕ → HandRank}

/-- When all seats are at the showdown, every claim that is waited for can be checked. -/
theorem claim_goes (hn : 2 ≤ p.table.size) (hcap : 2 * p.table.size + 5 ≤ 52)
    (hkey : ∀ s < p.table.size, Deck.Generates Peer.PRIME (p.modKey s)) (ht : Trace p.step ok p.start es σ)
    (hholds : ∀ s < p.table.size, p.cards.Holds s (hand s))
    (hall : ∀ s < p.table.size, ∃ folded stage, (σ.plays s).place = .showdown folded stage ∧
      folded[s]? = some false)
    {v : ℕ} (hv : v < p.table.size) {folded : List Bool} {waiting : List ℕ} {claims : List Peer.VerifiedClaim}
    (hp : (σ.plays v).place = .showdown folded (.polling waiting claims)) (hne : waiting ≠ []) : p.CanGo σ v := by
  have hsaid := says_at_table hn hcap hkey ht hholds
  obtain ⟨seat, hmem⟩ := List.exists_mem_of_ne_nil waiting hne
  have hplace := (hsaid v hv).place
  rw [hp] at hplace
  obtain ⟨_, _, _, _, seen, waiting', hperm, hst⟩ := hplace
  obtain ⟨rfl, rfl⟩ := Peer.awaitClaims_eq_polling hst.symm
  obtain ⟨hseat, _⟩ := Peer.mem_stillIn.mp (hperm.mem_iff.mp (List.mem_append_right _ hmem))
  obtain ⟨q, hq⟩ : ∃ q, (Peer.nonOwnerRing p.table.size seat).getLast? = some q :=
    ⟨_, List.getLast?_eq_some_getLast (Peer.nonOwnerRing_ne_nil hn seat)⟩
  have hqs : q < p.table.size := (Peer.mem_nonOwnerRing.mp (List.mem_of_getLast? hq)).1
  have hboard : (σ.plays v).node.communityCards = p.cards.boardTexts := by
    have h := (deals_inv hn hcap ht v).board_of_finished hcap hkey (finished_of_showdown ht hv hp)
    rw [List.map_map] at h
    exact h
  have hclaim : σ.read seat (showdownClaimKey seat) ≠ none := by
    obtain ⟨folded', stage', hp', hin⟩ := hall seat hseat
    have hplace' := (hsaid seat hseat).place
    rw [hp'] at hplace'
    have hhosts : (σ.read seat (showdownClaimKey seat)).isSome = true := hplace'.2.2.2.1 hin
    exact fun hnone => by rw [hnone] at hhosts; cases hhosts
  have hrelay : ∀ slot, slot / 2 = seat → σ.read q (holeRelayKey slot q) ≠ none := by
    intro slot hslot
    obtain ⟨folded', stage', hp', _⟩ := hall q hqs
    exact hosts_own_relay hn hcap ht hqs hp' hseat hslot hq
  have hcheck := checks_at_table hn hcap hkey ht hholds hsaid hseat hq
  generalize hres : Peer.pollAndVerifyClaim p.table.size Peer.PRIME σ.read p.claimGob p.cards.boardTexts seat = res
    at hcheck
  have hok : res = .ok ⟨seat, hand seat⟩ := by
    cases hcheck with
    | shown => rfl
    | noClaim hnone => exact absurd hnone hclaim
    | noRelay1 hslot hnone => exact absurd hnone (hrelay _ hslot)
    | noRelay2 hslot hnone => exact absurd hnone (hrelay _ hslot)
  rw [hok] at hres
  have hres' : Peer.pollAndVerifyClaim (p.seat v hv).table.size Peer.PRIME σ.read (p.seat v hv).claimGob
    p.cards.boardTexts seat = .ok ⟨seat, hand seat⟩ := hres
  refine .of_step (e := .claim seat σ.read) hv rfl rfl
    (h := (σ.plays v).checked folded waiting' (seen.map fun s => ⟨s, hand s⟩) ⟨seat, hand seat⟩) ?_
  have hread : (fun q key => (σ.plays q).node.store.get key) = σ.read := rfl
  simp only [Play.step, hp, hread, if_pos hmem, Play.claim, fetch_eq, hboard, hres']
  rfl

end Showdown

/-! ### Somebody goes on -/

section Progress
variable {c : Primitives} {p : Party c} {σ : Room} {es : List (ℕ × Event)} {hand : ℕ → HandRank}
  {ok : Room → ℕ × Event → Prop} (ht : Trace p.step ok p.start es σ)
  (hin : ∀ s < p.table.size, ∀ q < p.table.size, (σ.plays s).runner.log.state.isFolded q = false)
include ht hin

/- Somebody else is in. -/
theorem not_uncontested (hn : 2 ≤ p.table.size) {s : ℕ} (hs : s < p.table.size) (winner : ℤ) :
    (σ.plays s).place ≠ .uncontested winner := by
  intro hp
  have hplace := (Party.inv ht hs).1.place
  rw [hp] at hplace
  obtain ⟨seat, _, _, _, hothers⟩ := hplace
  obtain ⟨q, hq, hne⟩ : ∃ q < p.table.size, q ≠ seat := by
    by_cases h0 : seat = 0
    · exact ⟨1, by omega, by omega⟩
    · exact ⟨0, by omega, by omega⟩
  have hfold := hothers q hq hne
  rw [hin s hs q hq] at hfold
  cases hfold

theorem blocked_place (hn : 2 ≤ p.table.size) {s : ℕ} (hs : s < p.table.size) (hb : Blocked (σ.plays s)) :
    (∃ k, (σ.plays s).place = .calling k ∧ ¬ ((σ.plays s).node.phase = .idle ∧ (σ.plays s).node.todo = [])) ∨
      (∃ street, (σ.plays s).place = .round street ∧ (σ.plays s).runner.phase.inside = true) ∨
      ∃ folded stage, (σ.plays s).place = .showdown folded stage := by
  cases hb with
  | calling k hp hbusy => exact .inl ⟨k, hp, hbusy⟩
  | round street hp hinside => exact .inr (.inl ⟨street, hp, hinside⟩)
  | polling folded waiting claims hp => exact .inr (.inr ⟨folded, _, hp⟩)
  | ended hend =>
    cases hp : (σ.plays s).place with
    | showdown folded stage => exact .inr (.inr ⟨folded, stage, rfl⟩)
    | uncontested w => exact absurd hp (not_uncontested ht hin hn hs w)
    | _ =>
      rw [hp] at hend
      cases hend

omit hin in
/- Nobody plays on after the hand is over. -/
theorem not_at_showdown {s : ℕ} (hs : s < p.table.size)
    (hsaid : Says (p.seat s hs) hand (σ.plays s)) {i : Round.Input} {r : Round.Runner} (hsub : i.isSubmit = false)
    (hrun : (σ.runners s).step (p.table.setup s) i = some r) {folded : List Bool} {stage : Peer.ShowStage} :
    (σ.plays s).place ≠ .showdown folded stage := by
  intro hp
  have hidle : (σ.runners s).phase = .idle := (Party.inv ht hs).2.runner (by rw [hp]; rfl)
  have hplace := hsaid.place
  rw [hp] at hplace
  have hover : (σ.runners s).log.state.handOver = true := hplace.2.1
  cases Round.Runner.step_move hrun with
  | submit => cases hsub
  | beginRound _ hlive =>
    rw [hover] at hlive
    cases hlive
  | _ => simp_all

variable {G : List Entry} {prop : UInt64 → UInt32 → Option Entry} (hn : 2 ≤ p.table.size)
  (hcap : 2 * p.table.size + 5 ≤ 52) (hkey : ∀ s < p.table.size, Deck.Generates Peer.PRIME (p.modKey s))
  (hholds : ∀ s < p.table.size, p.cards.Holds s (hand s)) (hg : Round.Going p.table σ.runners G prop)
  (hstuck : ∀ s < p.table.size, ¬ p.CanGo σ s) (hblocked : ∀ s < p.table.size, Blocked (σ.plays s))
include hn hblocked

/- The seats whose hand is over, when none of them is in a call. -/
theorem all_at_showdown (hover : ∀ s < p.table.size, (σ.runners s).phase = .idle)
    (hnone : ∀ s < p.table.size, ∀ k, (σ.plays s).place ≠ .calling k) {s : ℕ} (hs : s < p.table.size)
    (hsaid : Says (p.seat s hs) hand (σ.plays s)) :
    ∃ folded stage, (σ.plays s).place = .showdown folded stage ∧ folded[s]? = some false := by
  rcases blocked_place ht hin hn hs (hblocked s hs) with ⟨k, hp, _⟩ | ⟨street, _, hinside⟩ | ⟨folded, stage, hp⟩
  · exact absurd hp (hnone s hs k)
  · rw [show (σ.plays s).runner.phase = .idle from hover s hs] at hinside
    cases hinside
  · refine ⟨folded, stage, hp, ?_⟩
    have hplace := hsaid.place
    rw [hp] at hplace
    have hlen : (σ.plays s).runner.log.state.folded.length = p.table.size := by
      rw [(σ.plays s).runner.log.state_shaped.folded, (Party.inv ht hs).1.seats]
      exact p.table.numPlayers_toNat
    have hfold := hin s hs s hs
    rw [State.isFolded, List.getD_eq_getElem _ _ (by omega)] at hfold
    rw [hplace.1, List.getElem?_eq_getElem (by omega), hfold]

include hg

/-- A seat that is in a call and has the fewest rounds has made no more calls than
another, unless that one is in a call of the same rounds. -/
theorem calls_le {w s : ℕ} (hw : w < p.table.size) {k : Peer.Call} (hp : (σ.plays w).place = .calling k)
    (hs : s < p.table.size) (hle : (σ.runners w).rounds ≤ (σ.runners s).rounds)
    (hcall : (∃ k, (σ.plays s).place = .calling k) → (σ.runners w).rounds < (σ.runners s).rounds) :
    (σ.plays w).calls.length ≤ (σ.plays s).calls.length := by
  have hdue : (σ.plays w).calls.length ≤ p.dueAt G (σ.runners w).rounds := by
    rcases calls_of_calling ht hg hw hp with ⟨hone, _⟩ | heq
    · rw [hone, Party.dueAt, due_length]
      omega
    · exact heq.le
  have hmono := p.dueAt_mono G hle
  rcases blocked_place ht hin hn hs (hblocked s hs) with ⟨k', hp', _⟩ | ⟨street, hp', hinside⟩ | ⟨folded, stage, hp'⟩
  · have hlt := hcall ⟨k', hp'⟩
    rcases calls_of_calling ht hg hs hp' with ⟨_, hzero⟩ | heq
    · omega
    · omega
  · have := calls_of_round ht hg hs hp' hinside
    omega
  · have hplace := (Party.inv ht hs).1.place
    rw [hp'] at hplace
    rw [hplace.1]
    exact (Party.inv ht hw).1.calls.length_le

include hcap hkey hholds hstuck

/-- Who waits waits in a call, at the seats with the fewest rounds. -/
theorem exists_lowest_call (hshort : ∀ s < p.table.size, (σ.plays s).runner.log.entries.length + 1 < 2 ^ 63)
    (hawaits : ∀ s < p.table.size, ¬ Round.AwaitsAction σ.runners s)
    (hend : ∃ s < p.table.size, (σ.plays s).place.ended = false) :
    ∃ w < p.table.size, (∃ k, (σ.plays w).place = .calling k) ∧
      ∀ q < p.table.size, (σ.runners w).rounds ≤ (σ.runners q).rounds := by
  have hsaid := says_at_table hn hcap hkey ht hholds
  obtain ⟨m, hm, hmin⟩ := Finset.exists_min_image (Finset.range p.table.size) (fun q => (σ.runners q).rounds)
    ⟨0, Finset.mem_range.mpr (by omega)⟩
  have hm := Finset.mem_range.mp hm
  have hlow : ∀ q < p.table.size, (σ.runners m).rounds ≤ (σ.runners q).rounds :=
    fun q hq => hmin q (Finset.mem_range.mpr hq)
  have hstands : ∀ s < p.table.size, Round.Standing p.table σ.runners s := fun s hs => ⟨hs, hin s hs s hs⟩
  rcases hg.lowest_goes hn hshort (hstands m hm) (fun w hw => hlow w hw.1) with
    ⟨w, ⟨hw, _⟩, hrounds, ⟨i, r, hsub, hfree, hserved, hrun⟩ | hawait⟩ | hover
  · rcases blocked_place ht hin hn hw (hblocked w hw) with ⟨k, hp, _⟩ | ⟨street, hp, hinside⟩ | ⟨folded, stage, hp⟩
    · exact ⟨w, hw, ⟨k, hp⟩, fun q hq => hrounds ▸ hlow q hq⟩
    · exact absurd (canGo_round hw hp hinside hfree hserved hrun) (hstuck w hw)
    · exact absurd hp (not_at_showdown ht hw (hsaid w hw) hsub hrun)
  · exact absurd hawait (hawaits w hw)
  · by_cases hcall : ∃ w < p.table.size, ∃ k, (σ.plays w).place = .calling k
    · obtain ⟨w, hw, hp⟩ := hcall
      refine ⟨w, hw, hp, fun q hq => ?_⟩
      by_contra hlt
      obtain ⟨hidle, hdone⟩ := hover q (hstands q hq)
      rw [hg.log_idle hq hidle, hg.live_at hw (by omega)] at hdone
      cases hdone
    · push Not at hcall
      obtain ⟨v, hv, hend⟩ := hend
      have hall : ∀ s < p.table.size, ∃ folded stage, (σ.plays s).place = .showdown folded stage ∧
          folded[s]? = some false := fun s hs =>
        all_at_showdown ht hin hn hblocked (fun s hs => (hover s (hstands s hs)).1) hcall hs (hsaid s hs)
      cases hblocked v hv with
      | calling k hp => exact absurd hp (hcall v hv k)
      | round street _ hinside =>
        rw [show (σ.plays v).runner.phase = .idle from (hover v (hstands v hv)).1] at hinside
        cases hinside
      | polling folded waiting claims hp hne =>
        exact absurd (claim_goes hn hcap hkey ht hholds hall hv hp hne) (hstuck v hv)
      | ended h =>
        rw [hend] at h
        cases h

end Progress

/- The cards are dealt, seat 0 has checked, and seat 1 has taken its entry. -/
def zeroChecks : List (ℕ × Event) := List.flatten [
  zeroFolds.take 30, submitsAt 0 ⟨.check, 0⟩, roundAt 0 [.propose, .append, .hostReceipt],
  roundAt 1 [.proposal [], .append, .hostReceipt, .receipt 0 [], .collected]]

end P2Poker.Hand
