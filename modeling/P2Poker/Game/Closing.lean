import P2Poker.Game.Ending
import P2Poker.Game.Rotation

/-!
# Matched bets when a street closes

A street closes when the counter of owed actions reaches zero. The counter does
not record who acted. As long as the turn stays in step with the round number
while a bet is open, the seats that owe an action are the next ones in turn, as
many as the counter says, and so every bet is matched when it reaches zero.
-/

namespace P2Poker.Game
open P2Poker.Lib P2Poker.Crypto

def State.Matched (s : State) (p : ℕ) : Prop :=
  s.contribution p = s.currentBet ∨ s.stack p = 0

instance (s : State) (p : ℕ) : Decidable (s.Matched p) := inferInstanceAs (Decidable (_ ∨ _))

/-- At every entry where the street moves on, every seat still in the hand has
matched the bet just before the bets are reset. -/
def BetsMatched (n : UInt8) (stack : UInt64) (l : Log) : Prop :=
  ∀ pre e post, l.entries = pre ++ e :: post →
    (replay (pre ++ [e]) n stack).street ≠ (replay pre n stack).street →
    ∀ p < n.toNat, ((Replay.run n stack pre).act e).state.isFolded p = false →
      ((Replay.run n stack pre).act e).state.Matched p

/-- The acting seat is the one the round number points at; or it folds, or it
checks with no bet open, or it makes the last owed action of the street. -/
def InStep (l : Log) (e : Entry) : Prop :=
  e.playerID.toNat = l.entries.length % l.numPlayers.toNat ∨ e.action.kind = .fold ∨
    (e.action.kind = .check ∧ l.state.currentBet = 0) ∨
    (e.action.kind ≠ .raise ∧ l.replayed.unsettled = 1)

/-! ### What one action does to the bets -/

section Act
variable {r : Replay} {e : Entry} {n q : ℕ}

theorem Replay.act_currentBet (h : e.action.kind ≠ .raise) :
    (r.act e).state.currentBet = r.state.currentBet := by
  unfold Replay.act
  cases hk : e.action.kind with
  | raise => exact absurd hk h
  | _ => rfl

theorem State.stack_pay_of_ne {s : State} {p : ℕ} {cost : UInt64} (h : p ≠ q) :
    (s.pay p cost).stack q = s.stack q := by
  simp only [State.stack, State.pay, getD_set, h, false_and, if_false]

theorem State.contribution_pay_of_ne {s : State} {p : ℕ} {cost : UInt64} (h : p ≠ q) :
    (s.pay p cost).contribution q = s.contribution q := by
  simp only [State.contribution, State.pay, getD_set, h, false_and, if_false]

theorem Replay.act_matched_other (h : e.action.kind ≠ .raise) (hq : e.playerID.toNat ≠ q)
    (hm : r.state.Matched q) : (r.act e).state.Matched q := by
  have hbet := Replay.act_currentBet (r := r) h
  unfold State.Matched at *
  rw [hbet]
  have hsame : (r.act e).state.contribution q = r.state.contribution q ∧
      (r.act e).state.stack q = r.state.stack q := by
    unfold Replay.act
    cases hk : e.action.kind with
    | call => exact ⟨State.contribution_pay_of_ne hq, State.stack_pay_of_ne hq⟩
    | raise => exact absurd hk h
    | _ => exact ⟨rfl, rfl⟩
  rwa [hsame.1, hsame.2]

theorem Replay.act_matched_self (hlev : r.state.Leveled n) (hp : e.playerID.toNat < n)
    (hl : r.state.Legal e.playerID.toNat e.action) (hf : e.action.kind ≠ .fold)
    (hr : e.action.kind ≠ .raise) : (r.act e).state.Matched e.playerID.toNat := by
  have hpc : e.playerID.toNat < r.state.contributions.length := by
    rw [hlev.shaped.contributions]; exact hp
  have hps : e.playerID.toNat < r.state.seatStacks.length := by
    rw [hlev.shaped.seatStacks]; exact hp
  unfold State.Matched Replay.act State.Legal at *
  cases hk : e.action.kind with
  | fold => exact absurd hk hf
  | raise => exact absurd hk hr
  | unknown k => simp only [hk] at hl
  | check =>
    simp only [hk] at hl
    left
    apply UInt64.toNat_inj.mp
    have := hlev.level e.playerID.toNat
    have := UInt64.le_iff_toNat_le.mp hl.2
    show (r.state.contribution _).toNat = r.state.currentBet.toNat
    omega
  | call =>
    have hcalled := (hlev.called e.playerID.toNat).2.2
    simp only [State.contribution, State.stack, State.pay, getD_set, hpc, hps, and_self,
      if_true] at hcalled ⊢
    exact hcalled

theorem Replay.act_matched_raise (hk : e.action.kind = .raise) : (r.act e).state.Matched e.playerID.toNat := by
  left
  simp only [Replay.act, hk]
  rfl

end Act

/-! ### The seats that owe an action -/

/-- With a bet open, a seat that has not matched it is among the next
`unsettled` unfolded seats from `start` on. -/
def Replay.Owing (r : Replay) (n start : ℕ) : Prop :=
  r.state.currentBet = 0 ∨
    ∀ d < n, r.state.isFolded ((start + d) % n) = false →
      r.state.Matched ((start + d) % n) ∨
        (ahead n start (fun p => !r.state.isFolded p) d : ℤ) < r.unsettled

theorem count_unfolded (s : State) :
    Nat.count (fun p => (!s.isFolded p) = true) s.folded.length = s.numNonFolded := by
  unfold State.isFolded State.numNonFolded
  induction s.folded using List.reverseRecOn with
  | nil => simp
  | append_singleton l b ih =>
    rw [List.length_append, List.length_singleton, Nat.count_succ, List.countP_append, ← ih]
    congr 1
    · rw [Nat.count_eq_card_filter_range, Nat.count_eq_card_filter_range]
      congr 1
      apply Finset.filter_congr
      intro p hp
      rw [List.getD_append _ _ _ _ (Finset.mem_range.mp hp)]
    · simp

section Step
variable {c : Primitives} {P : Log → Entry → Prop} {n : UInt8} {stack : UInt64} {l : Log} {e : Entry}

structure Acting (l : Log) (e : Entry) (n d : ℕ) : Prop where
  playable : Playable l e
  live : l.replayed.state.handOver = false
  seats : l.numPlayers.toNat = n
  first : FirstAt n l.entries.length (fun p => !l.state.isFolded p) d e.playerID.toNat
  leveled : l.state.Leveled n

theorem Acting.seat_lt {n d : ℕ} (h : Acting l e n d) : e.playerID.toNat < n := by
  rw [← h.seats]
  exact h.playable.seat_lt

theorem Acting.legal {n d : ℕ} (h : Acting l e n d) (hk : e.action.kind ≠ .fold) :
    l.replayed.state.Legal e.playerID.toNat e.action := h.playable.legal.resolve_left hk

theorem Acting.unsettled_pred {n d : ℕ} (h : Acting l e n d) (hr : e.action.kind ≠ .raise) :
    (l.replayed.act e).unsettled = l.replayed.unsettled - 1 := by
  rw [Replay.act_unsettled]
  cases hk : e.action.kind with
  | raise => exact absurd hk hr
  | unknown k =>
    have := h.legal (by rw [hk]; simp)
    simp only [State.Legal, hk] at this
  | _ => rfl

theorem Acting.isFolded_act {n d : ℕ} (h : Acting l e n d) (q : ℕ) :
    (l.replayed.act e).state.isFolded q =
      if e.action.kind = .fold ∧ q = e.playerID.toNat then true else l.state.isFolded q := by
  have hfolds := isFolded_append (l := l) h.live h.playable.seat_lt q
  rw [Log.state_eq, Log.replayed_append, Replay.step_of_live h.live] at hfolds
  unfold State.isFolded at hfolds ⊢
  rwa [Replay.settle_folded] at hfolds

theorem Acting.isFolded_same {n d : ℕ} (h : Acting l e n d) (hf : e.action.kind ≠ .fold) :
    (l.replayed.act e).state.isFolded = l.state.isFolded := by
  funext q
  rw [h.isFolded_act, if_neg fun hc => hf hc.1]

theorem Acting.past {n d j : ℕ} (h : Acting l e n d)
    (hunf : l.state.isFolded ((l.entries.length + j) % n) = false)
    (hne : (l.entries.length + j) % n ≠ e.playerID.toNat) : d < j := by
  rcases Nat.lt_trichotomy j d with hlt | heq | hgt
  · have hbusy := h.first.2.2.2 j hlt
    simp only [hunf, Bool.not_false, reduceCtorEq] at hbusy
  · rw [heq, ← h.first.2.1] at hne
    exact absurd rfl hne
  · exact hgt

theorem Acting.offset_succ {n d j : ℕ} (h : Acting l e n d)
    (hj : j < n) (hd : d = 0) (hne : (l.entries.length + 1 + j) % n ≠ e.playerID.toNat) :
    j + 1 < n := by
  rcases Nat.lt_or_ge (j + 1) n with hlt | hge
  · exact hlt
  · have hback : (l.entries.length + 1 + j) % n = e.playerID.toNat := by
      rw [h.first.2.1, hd, show l.entries.length + 1 + j = l.entries.length + n by omega,
        Nat.add_mod_right, Nat.add_zero]
    exact absurd hback hne

theorem Acting.owing_raise {n : ℕ} (h : Acting l e n 0) (hk : e.action.kind = .raise) :
    (l.replayed.act e).Owing n (l.entries.length + 1) := by
  right
  intro j hj hf
  have hsame := h.isFolded_same (by rw [hk]; simp)
  by_cases hq : (l.entries.length + 1 + j) % n = e.playerID.toNat
  · left
    rw [hq]
    exact Replay.act_matched_raise hk
  · right
    have hlt := h.offset_succ hj rfl hq
    rw [hsame] at hf ⊢
    -- around the whole cycle from the next seat on, the raiser comes last
    have hlast : ahead n (l.entries.length + 1) (fun p => !l.state.isFolded p) n =
        ahead n (l.entries.length + 1) (fun p => !l.state.isFolded p) (n - 1) + 1 := by
      have hback : (l.entries.length + 1 + (n - 1)) % n = e.playerID.toNat := by
        rw [h.first.2.1, show l.entries.length + 1 + (n - 1) = l.entries.length + n by omega,
          Nat.add_mod_right, Nat.add_zero]
      have hend := ahead_concat n (l.entries.length + 1) (fun p => !l.state.isFolded p) (n - 1)
      rw [hback, h.playable.unfolded, Nat.sub_add_cancel (by omega)] at hend
      exact hend
    have hown : ahead n (l.entries.length + 1) (fun p => !l.state.isFolded p) (j + 1) =
        ahead n (l.entries.length + 1) (fun p => !l.state.isFolded p) j + 1 := by
      rw [ahead_concat, hf]
      rfl
    have hmono : ahead n (l.entries.length + 1) (fun p => !l.state.isFolded p) (j + 1) ≤
        ahead n (l.entries.length + 1) (fun p => !l.state.isFolded p) (n - 1) :=
      ahead_mono (by omega)
    have hcount := count_unfolded l.state
    rw [h.leveled.shaped.folded] at hcount
    rw [ahead_full, hcount] at hlast
    rw [Replay.act_unsettled, hk]
    show _ < (l.state.numNonFolded : ℤ) - 1
    omega

theorem Acting.owing_settled {n : ℕ} (h : Acting l e n 0) (hf : e.action.kind ≠ .fold)
    (hr : e.action.kind ≠ .raise) (ho : l.replayed.Owing n l.entries.length) :
    (l.replayed.act e).Owing n (l.entries.length + 1) := by
  rcases ho with hbet | ho
  · exact Or.inl (by rw [Replay.act_currentBet hr]; exact hbet)
  right
  intro j hj hunf
  have hsame := h.isFolded_same hf
  by_cases hq : (l.entries.length + 1 + j) % n = e.playerID.toNat
  · left
    rw [hq]
    exact Replay.act_matched_self h.leveled h.seat_lt (h.legal hf) hf hr
  · have hlt := h.offset_succ hj rfl hq
    rw [hsame] at hunf ⊢
    rw [show l.entries.length + 1 + j = l.entries.length + (j + 1) by omega] at hq hunf ⊢
    rcases ho (j + 1) hlt hunf with hm | hcount
    · exact Or.inl (Replay.act_matched_other hr (Ne.symm hq) hm)
    · right
      have hhere : l.state.isFolded (l.entries.length % n) = false := by
        have := h.playable.unfolded
        rwa [h.first.2.1, Nat.add_zero] at this
      have hmove := ahead_succ n l.entries.length (fun p => !l.state.isFolded p) j
      rw [hhere] at hmove
      simp only [Bool.not_false, if_true] at hmove
      rw [h.unsettled_pred hr]
      have hold : (ahead n l.entries.length (fun p => !l.state.isFolded p) (j + 1) : ℤ) <
          l.replayed.unsettled := hcount
      omega

theorem Acting.owing_fold {n d : ℕ} (h : Acting l e n d) (hk : e.action.kind = .fold)
    (ho : l.replayed.Owing n l.entries.length) :
    (l.replayed.act e).Owing n (l.entries.length + 1) := by
  have hr : e.action.kind ≠ .raise := by rw [hk]; simp
  rcases ho with hbet | ho
  · exact Or.inl (by rw [Replay.act_currentBet hr]; exact hbet)
  right
  intro j hj hunf
  have hflag : ∀ q, (l.replayed.act e).state.isFolded q =
      if q = e.playerID.toNat then true else l.state.isFolded q := by
    intro q
    rw [h.isFolded_act]
    simp only [hk, true_and]
  have hne : (l.entries.length + 1 + j) % n ≠ e.playerID.toNat := by
    intro heq
    rw [hflag, if_pos heq] at hunf
    cases hunf
  rw [hflag, if_neg hne] at hunf
  rw [show l.entries.length + 1 + j = l.entries.length + (j + 1) by omega] at hne hunf ⊢
  -- the seat lies past the acting one, so the walk from the round number passes it
  obtain ⟨j', hj', hoff⟩ := exists_offset (n := n) l.entries.length
    (q := (l.entries.length + (j + 1)) % n) (Nat.mod_lt _ (by omega))
  have hpast : d < j' := h.past (hoff ▸ hunf) (hoff ▸ hne)
  have hjj : j' = j + 1 := by
    rcases Nat.lt_or_ge (j + 1) n with hlt | hge
    · exact offset_unique hj' hlt hoff.symm
    · have hzero : (l.entries.length + (j + 1)) % n = (l.entries.length + 0) % n := by
        rw [show l.entries.length + (j + 1) = l.entries.length + n by omega, Nat.add_mod_right,
          Nat.add_zero]
      have := offset_unique (r := l.entries.length) hj' (by omega : 0 < n) (hoff.symm.trans hzero)
      omega
  subst hjj
  rcases ho (j + 1) hj' hunf with hm | hcount
  · exact Or.inl (Replay.act_matched_other hr (Ne.symm hne) hm)
  · right
    have hremove := ahead_remove (n := n) (r := l.entries.length) (d := j + 1) (k := d)
      (p := fun p => !l.state.isFolded p) (q := fun p => !(l.replayed.act e).state.isFolded p)
      hpast (by omega) (by rw [← h.first.2.1]; exact h.first.2.2.1)
      (by rw [← h.first.2.1, hflag, if_pos rfl]; rfl)
      (by intro q hq; rw [← h.first.2.1] at hq; rw [hflag, if_neg hq])
    have hhere : (!(l.replayed.act e).state.isFolded (l.entries.length % n)) = false := by
      rw [hflag]
      cases d with
      | zero => rw [if_pos (by rw [h.first.2.1, Nat.add_zero])]; rfl
      | succ d =>
        have hbusy := h.first.2.2.2 0 (by omega)
        rw [Nat.add_zero] at hbusy
        split_ifs
        · rfl
        · exact hbusy
    have hmove := ahead_succ n l.entries.length
      (fun p => !(l.replayed.act e).state.isFolded p) j
    rw [hhere] at hmove
    simp only [Bool.false_eq_true, if_false] at hmove
    rw [h.unsettled_pred hr]
    have hold : (ahead n l.entries.length (fun p => !l.state.isFolded p) (j + 1) : ℤ) <
        l.replayed.unsettled := hcount
    omega

theorem Replay.settle_owing {r : Replay} {n start : ℕ} (h : r.unsettled = 0 ∨ r.Owing n start) :
    r.settle.state.handOver = false → r.settle.Owing n start := by
  unfold Replay.settle
  dsimp only
  split_ifs with h1 h2 h3
  · intro hover
    simp at hover
  · intro hover
    simp at hover
  · exact fun _ => Or.inl rfl
  · exact fun _ => h.resolve_left h2

theorem Acting.owing_step {n d : ℕ} (h : Acting l e n d) (hs : InStep l e)
    (ho : l.replayed.Owing n l.entries.length) :
    (l.replayed.act e).unsettled = 0 ∨ (l.replayed.act e).Owing n (l.entries.length + 1) := by
  by_cases hf : e.action.kind = .fold
  · exact Or.inr (h.owing_fold hf ho)
  rcases hs with hstep | hfold | ⟨hcheck, hbet⟩ | ⟨hr, hu⟩
  · have hd : d = 0 := by
      rw [h.seats] at hstep
      have hoff := h.first.2.1
      rw [hstep] at hoff
      exact (offset_unique (r := l.entries.length) (by have := h.first.1; omega) h.first.1
        (by rw [Nat.add_zero]; exact hoff)).symm
    subst hd
    by_cases hr : e.action.kind = .raise
    · exact Or.inr (h.owing_raise hr)
    · exact Or.inr (h.owing_settled hf hr ho)
  · exact absurd hfold hf
  · right
    left
    rw [Replay.act_currentBet (by rw [hcheck]; simp)]
    exact hbet
  · left
    rw [h.unsettled_pred hr, hu]
    rfl

theorem Acting.not_raise {n d : ℕ} (h : Acting l e n d) (hu : (l.replayed.act e).unsettled = 0)
    (hmany : 1 < (l.replayed.act e).state.numNonFolded) :
    e.action.kind ≠ .raise ∧ l.replayed.unsettled = 1 := by
  have hr : e.action.kind ≠ .raise := by
    intro hk
    have hfold := Replay.act_folded_of_ne (r := l.replayed) (e := e) (by rw [hk]; simp)
    rw [State.numNonFolded, hfold] at hmany
    rw [Replay.act_unsettled, hk] at hu
    simp only [State.numNonFolded] at hu
    omega
  rw [h.unsettled_pred hr] at hu
  exact ⟨hr, by omega⟩

theorem Acting.matched_at_close {n d : ℕ} (h : Acting l e n d)
    (ho : l.replayed.Owing n l.entries.length) (hu : (l.replayed.act e).unsettled = 0)
    (hmany : 1 < (l.replayed.act e).state.numNonFolded) {p : ℕ} (hp : p < n)
    (hunf : (l.replayed.act e).state.isFolded p = false) :
    (l.replayed.act e).state.Matched p := by
  obtain ⟨hr, hone⟩ := h.not_raise hu hmany
  rcases ho with hbet | ho
  · -- no bet: nothing was put in, before or after the action
    have hlevel := (Replay.act_leveled (r := l.replayed) h.leveled h.seat_lt h.playable.legal).level p
    have hzero : (l.replayed.act e).state.currentBet.toNat = 0 := by
      rw [Replay.act_currentBet hr, hbet]
      rfl
    left
    apply UInt64.toNat_inj.mp
    omega
  rw [h.isFolded_act] at hunf
  by_cases hself : p = e.playerID.toNat
  · have hf : e.action.kind ≠ .fold := by
      intro hf
      rw [if_pos ⟨hf, hself⟩] at hunf
      cases hunf
    rw [hself]
    exact Replay.act_matched_self h.leveled h.seat_lt (h.legal hf) hf hr
  · rw [if_neg fun hc => hself hc.2] at hunf
    obtain ⟨j, hj, rfl⟩ := exists_offset (n := n) l.entries.length hp
    rcases ho j hj hunf with hm | hahead
    · exact Replay.act_matched_other hr (Ne.symm hself) hm
    · -- the acting seat is the only one that owes an action
      have hpast := h.past hunf hself
      have hcount := ahead_concat n l.entries.length (fun p => !l.state.isFolded p) d
      rw [← h.first.2.1, h.playable.unfolded] at hcount
      have hmono : ahead n l.entries.length (fun p => !l.state.isFolded p) (d + 1) ≤
          ahead n l.entries.length (fun p => !l.state.isFolded p) j := ahead_mono hpast
      have hlt : (ahead n l.entries.length (fun p => !l.state.isFolded p) j : ℤ) <
          l.replayed.unsettled := hahead
      simp only [Bool.not_false, if_true] at hcount
      omega

theorem Replay.settle_street {r : Replay} (h : r.settle.state.street ≠ r.state.street) :
    r.unsettled = 0 ∧ 1 < r.state.numNonFolded := by
  unfold Replay.settle at h
  dsimp only at h
  split_ifs at h with h1 h2 h3
  · exact absurd rfl h
  · exact ⟨h2, by omega⟩
  · exact ⟨h2, by omega⟩
  · exact absurd rfl h

end Step

section Run
variable {c : Primitives} {n : UInt8} {stack : UInt64} {l : Log} {e : Entry}

theorem TurnReachable.acting (hl : TurnReachable c n stack l) (hn : 2 ≤ n.toNat)
    (ha : l.Accepts c e) (ht : InTurn l e) (hover : l.replayed.state.handOver = false) :
    ∃ d, Acting l e n.toNat d := by
  obtain ⟨d, hd⟩ := expectedNextPlayer_first hl hn hover
  rw [← ht.1, roundID_toNat hl.length_lt] at hd
  exact ⟨d, ha.playable, hover, by rw [hl.numPlayers], hd, hl.leveled⟩

theorem Grows.owing (hn : 2 ≤ n.toNat)
    (hl : Grows c (fun l e => InTurn l e ∧ InStep l e) n stack l) :
    l.replayed.state.handOver = false → l.replayed.Owing n.toNat l.entries.length := by
  induction hl with
  | new => exact fun _ => Or.inl rfl
  | @append l e hg ha hp ih =>
    intro hover
    have hover₀ : l.replayed.state.handOver = false := handOver_of_append hover
    obtain ⟨d, hact⟩ := TurnReachable.acting (hg.mono fun _ _ h => h.1) hn ha hp.1 hover₀
    have hlen : (l.append e).entries.length = l.entries.length + 1 := by
      simp only [Log.append, List.length_append, List.length_cons, List.length_nil]
    rw [Log.replayed_append, Replay.step_of_live hover₀] at hover ⊢
    rw [hlen]
    exact Replay.settle_owing (hact.owing_step hp.2 (ih hover₀)) hover

end Run

theorem bets_matched_of_inStep (c : Primitives) (n : UInt8) (stack : UInt64) (hn : 2 ≤ n.toNat)
    (l : Log) (hl : Grows c (fun l e => InTurn l e ∧ InStep l e) n stack l) :
    BetsMatched n stack l := by
  intro pre e post hsplit hstreet p hp hunf
  obtain ⟨l₀, hg, hpre, ha, ht, _⟩ := hl.split hsplit
  have hrun : Replay.run n stack pre = l₀.replayed := by
    rw [Log.replayed, hg.numPlayers, hg.startingStack, hpre]
  have hnext : replay (pre ++ [e]) n stack = (l₀.replayed.step e).state := by
    rw [← Log.replayed_append, Log.replayed]
    show _ = (Replay.run l₀.numPlayers l₀.startingStack (l₀.entries ++ [e])).state
    rw [hg.numPlayers, hg.startingStack, hpre]
    rfl
  have hold : replay pre n stack = l₀.replayed.state := by
    rw [← hrun]
    rfl
  rw [hnext, hold] at hstreet
  rw [hrun] at hunf ⊢
  cases hover : l₀.replayed.state.handOver with
  | true =>
    rw [Replay.step_of_over hover] at hstreet
    exact absurd rfl hstreet
  | false =>
    rw [Replay.step_of_live hover, ← Replay.act_street (r := l₀.replayed) (e := e)] at hstreet
    obtain ⟨hu, hmany⟩ := Replay.settle_street hstreet
    obtain ⟨d, hact⟩ := TurnReachable.acting (hg.mono fun _ _ h => h.1) hn ha ht hover
    exact hact.matched_at_close (hg.owing hn hover) hu hmany hp hunf

theorem bets_matched_heads_up :
    BetsMatched 2 100 ((newLog 2 100).play .transparent seatKey [⟨.raise, 10⟩, ⟨.call, 0⟩]) :=
  bets_matched_of_inStep .transparent 2 100 (by decide) _
    (Grows.next (Grows.next .new (by decide +kernel) ⟨⟨rfl, by decide⟩, Or.inl (by decide +kernel)⟩)
      (by decide +kernel) ⟨⟨rfl, by decide +kernel⟩, Or.inl (by decide +kernel)⟩)

/-- Seat 0 folds and seats 1 and 2 check the first street down. In round 3 seat
1, in the place of seat 0, raises. -/
def raisedOutOfStep : Log :=
  (newLog 3 100).play .transparent seatKey [⟨.fold, 0⟩, ⟨.check, 0⟩, ⟨.check, 0⟩, ⟨.raise, 10⟩]

theorem street_closes_unmatched :
    ¬ ∀ (c : Primitives) (n : UInt8) (stack : UInt64) (l : Log), 2 ≤ n.toNat →
      TurnReachable c n stack l → BetsMatched n stack l := by
  intro h
  -- round 4 asks seat 1 again; its check closes the street with seat 2 still owing 10
  have hreach : TurnReachable .transparent 3 100 (raisedOutOfStep.play .transparent seatKey [⟨.check, 0⟩]) :=
    TurnReachable.play (TurnReachable.play .new (by decide +kernel) (by decide))
      (by decide +kernel) (by decide +kernel)
  have hmatched := h .transparent 3 100 _ (by decide) hreach raisedOutOfStep.entries
    (raisedOutOfStep.nextEntry .transparent seatKey ⟨.check, 0⟩) [] rfl (by decide +kernel) 2
    (by decide) (by decide +kernel)
  exact absurd hmatched (by decide +kernel)

end P2Poker.Game
