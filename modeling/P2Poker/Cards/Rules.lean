import P2Poker.Cards.Best

/-!
# The rule book

The categories of poker, said of the multiset of ranks and of the suits alone,
and the ranks that break ties. `Rank5` finds them from a sorted copy of the hand
and the groups of equal ranks.
-/

namespace P2Poker.Cards

/-! ### The rules -/

def handRanks (hand : List Card) : Multiset Rank := hand.map Card.rank

/-- Five consecutive ranks up to `high`, or the wheel, which is five high. -/
def StraightTo (ranks : Multiset Rank) (high : Rank) : Prop :=
  (4 ≤ high.val ∧
    ranks.map Fin.val = {high.val, high.val - 1, high.val - 2, high.val - 3, high.val - 4}) ∨
  (high = .five ∧ ranks = {.ace, .two, .three, .four, .five})

def OneSuit (hand : List Card) : Prop := ∃ s, ∀ c ∈ hand, c.suit = s

/-- How often each rank occurs. -/
def multiplicities (ranks : Multiset Rank) : Multiset ℕ := ranks.dedup.map fun r => ranks.count r

/-- What makes a hand of each category. -/
def Applies (hand : List Card) : Category → Prop
  | .straightFlush => (∃ high, StraightTo (handRanks hand) high) ∧ OneSuit hand
  | .fourOfAKind => multiplicities (handRanks hand) = {4, 1}
  | .fullHouse => multiplicities (handRanks hand) = {3, 2}
  | .flush => OneSuit hand
  | .straight => ∃ high, StraightTo (handRanks hand) high
  | .threeOfAKind => multiplicities (handRanks hand) = {3, 1, 1}
  | .twoPair => multiplicities (handRanks hand) = {2, 2, 1}
  | .onePair => multiplicities (handRanks hand) = {2, 1, 1, 1}
  | .highCard => multiplicities (handRanks hand) = {1, 1, 1, 1, 1}

/-- The ranks of a hand, each once, the more frequent first and then the higher. -/
structure ByMultiplicity (ranks : Multiset Rank) (l : List Rank) : Prop where
  distinct : (l : Multiset Rank) = ranks.dedup
  ordered : l.Pairwise fun a b => ranks.count b < ranks.count a ∨ ranks.count a = ranks.count b ∧ b < a

structure RuleBook (hand : List Card) (category : Category) (tiebreakers : List Rank) : Prop where
  applies : Applies hand category
  strongest : ∀ other, Applies hand other → other.toNat ≤ category.toNat
  straight : category = .straight ∨ category = .straightFlush →
    ∃ high, StraightTo (handRanks hand) high ∧ tiebreakers = pad [high]
  grouped : category ≠ .straight → category ≠ .straightFlush →
    ∃ l, ByMultiplicity (handRanks hand) l ∧ tiebreakers = pad l

/-! ### Groups of equal ranks -/

theorem groupRanks_perm (ranks : List Rank) :
    (groupRanks ranks).Perm (ranks.dedup.map fun r => ⟨r, ranks.count r⟩) :=
  List.perm_insertionSort _ _

theorem groupRanks_count {ranks : List Rank} {g : RankGroup} (h : g ∈ groupRanks ranks) :
    g.count = ranks.count g.rank ∧ g.rank ∈ ranks := by
  obtain ⟨r, hr, rfl⟩ := List.mem_map.mp ((groupRanks_perm ranks).mem_iff.mp h)
  exact ⟨rfl, List.mem_dedup.mp hr⟩

theorem groupRanks_ranks (ranks : List Rank) : ((groupRanks ranks).map RankGroup.rank).Perm ranks.dedup := by
  have h := (groupRanks_perm ranks).map RankGroup.rank
  rwa [List.map_map, List.map_id''] at h
  intro r
  rfl

theorem groupRanks_sorted (ranks : List Rank) : (groupRanks ranks).Pairwise fun g h =>
    h.count < g.count ∨ (g.count = h.count ∧ h.rank ≤ g.rank) := by
  have total : Std.Total fun g h : RankGroup => h.count < g.count ∨ (g.count = h.count ∧ h.rank ≤ g.rank) := by
    constructor
    intro g h
    simp only [Fin.le_def]
    omega
  have trans : IsTrans RankGroup fun g h => h.count < g.count ∨ (g.count = h.count ∧ h.rank ≤ g.rank) := by
    constructor
    intro f g h hfg hgh
    simp only [Fin.le_def] at hfg hgh ⊢
    omega
  exact List.pairwise_insertionSort _ _

theorem groupRanks_counts (ranks : List Rank) : (groupRanks ranks).map RankGroup.count =
    ((groupRanks ranks).map RankGroup.rank).map fun r => ranks.count r := by
  rw [List.map_map]
  apply List.map_congr_left
  intro g hg
  exact (groupRanks_count hg).1

/- The source's relation between two groups, said of their ranks. -/
theorem groupRanks_byMultiplicity (ranks : List Rank) :
    ByMultiplicity ranks ((groupRanks ranks).map RankGroup.rank) where
  distinct := Multiset.coe_eq_coe.mpr (groupRanks_ranks ranks)
  ordered := by
    have hnodup : ((groupRanks ranks).map RankGroup.rank).Nodup :=
      (groupRanks_ranks ranks).nodup_iff.mpr (List.nodup_dedup ranks)
    rw [List.pairwise_map]
    rw [List.Nodup, List.pairwise_map] at hnodup
    refine ((groupRanks_sorted ranks).and hnodup).imp_of_mem ?_
    intro g h hg hh hgh
    rw [Multiset.coe_count, Multiset.coe_count, ← (groupRanks_count hg).1, ← (groupRanks_count hh).1]
    rcases hgh.1 with hlt | ⟨heq, hle⟩
    · exact Or.inl hlt
    · exact Or.inr ⟨heq, lt_of_le_of_ne hle (Ne.symm hgh.2)⟩

theorem multiplicities_eq (ranks : List Rank) :
    multiplicities ranks = ((groupRanks ranks).map RankGroup.count : List ℕ) := by
  rw [groupRanks_counts, multiplicities, ← (groupRanks_byMultiplicity ranks).distinct, Multiset.map_coe]
  simp only [Multiset.coe_count]

/-- The ways five cards fall into groups, no five of one rank. -/
theorem partition_five {counts : List ℕ} (hdesc : counts.Pairwise (· ≥ ·)) (hpos : ∀ n ∈ counts, 1 ≤ n ∧ n ≤ 4)
    (hsum : counts.sum = 5) : counts = [4, 1] ∨ counts = [3, 2] ∨ counts = [3, 1, 1] ∨ counts = [2, 2, 1] ∨
      counts = [2, 1, 1, 1] ∨ counts = [1, 1, 1, 1, 1] := by
  match counts, hdesc, hpos, hsum with
  | [], _, _, h => cases h
  | [a], _, hpos, h => simp at hpos h; omega
  | [a, b], hdesc, hpos, h =>
    simp at hdesc hpos h
    have : a = 4 ∧ b = 1 ∨ a = 3 ∧ b = 2 := by omega
    rcases this with ⟨rfl, rfl⟩ | ⟨rfl, rfl⟩ <;> simp
  | [a, b, c], hdesc, hpos, h =>
    simp at hdesc hpos h
    have : a = 3 ∧ b = 1 ∧ c = 1 ∨ a = 2 ∧ b = 2 ∧ c = 1 := by omega
    rcases this with ⟨rfl, rfl, rfl⟩ | ⟨rfl, rfl, rfl⟩ <;> simp
  | [a, b, c, d], hdesc, hpos, h =>
    simp at hdesc hpos h
    obtain ⟨rfl, rfl, rfl, rfl⟩ : a = 2 ∧ b = 1 ∧ c = 1 ∧ d = 1 := by omega
    simp
  | [a, b, c, d, e], hdesc, hpos, h =>
    simp at hdesc hpos h
    obtain ⟨rfl, rfl, rfl, rfl, rfl⟩ : a = 1 ∧ b = 1 ∧ c = 1 ∧ d = 1 ∧ e = 1 := by omega
    simp
  | a :: b :: c :: d :: e :: f :: l, hdesc, hpos, h =>
    simp at hpos h
    omega

theorem groupRanks_desc (ranks : List Rank) : ((groupRanks ranks).map RankGroup.count).Pairwise (· ≥ ·) := by
  rw [List.pairwise_map]
  refine (groupRanks_sorted ranks).imp ?_
  intro g h hgh
  omega

theorem groupRanks_sum (ranks : List Rank) : ((groupRanks ranks).map RankGroup.count).sum = ranks.length := by
  have hperm : ((groupRanks ranks).map RankGroup.count).Perm (ranks.dedup.map fun r => ranks.count r) := by
    rw [groupRanks_counts]
    exact (groupRanks_ranks ranks).map _
  rw [hperm.sum_eq, List.sum_map_count_dedup_eq_length]

/-! ### Straights and flushes -/

/- A descending list is known from its multiset. -/
theorem eq_of_desc {α : Type} [PartialOrder α] {l l' : List α} (hp : (l : Multiset α) = l')
    (hl : l.Pairwise (· ≥ ·)) (hl' : l'.Pairwise (· ≥ ·)) : l = l' := by
  refine (Multiset.coe_eq_coe.mp hp).eq_of_pairwise ?_ hl hl'
  intro a b _ _ hab hba
  exact le_antisymm hba hab

theorem exists_five {α : Type} {l : List α} (h : l.length = 5) : ∃ a b c d e, l = [a, b, c, d, e] := by
  match l, h with
  | [a, b, c, d, e], _ => exact ⟨a, b, c, d, e, rfl⟩

theorem straight_values {ranks : List Rank} (hlen : ranks.length = 5)
    (h : (ranks.zip ranks.tail).all (fun p => p.1.val = p.2.val + 1) = true) :
    ∃ high ∈ ranks.head?, 4 ≤ high.val ∧
      ranks.map Fin.val = [high.val, high.val - 1, high.val - 2, high.val - 3, high.val - 4] := by
  obtain ⟨a, b, c, d, e, rfl⟩ := exists_five hlen
  simp at h
  refine ⟨a, rfl, by omega, ?_⟩
  simp
  omega

theorem detectStraight_sound {ranks : List Rank} (hlen : ranks.length = 5) {high : Rank}
    (h : detectStraight ranks = some high) : StraightTo ranks high := by
  unfold detectStraight at h
  split_ifs at h with hwheel hall
  · obtain rfl := Option.some.inj h
    right
    refine ⟨rfl, ?_⟩
    rw [hwheel]
    decide
  · obtain ⟨top, htop, hfour, hvals⟩ := straight_values hlen hall
    obtain rfl : high = top := Option.some.inj (h.symm.trans htop)
    left
    refine ⟨hfour, ?_⟩
    rw [Multiset.map_coe, hvals]
    rfl

theorem detectStraight_complete {ranks : List Rank} (hdesc : ranks.Pairwise (· ≥ ·)) {high : Rank}
    (h : StraightTo ranks high) : detectStraight ranks = some high := by
  rcases h with ⟨hfour, hvals⟩ | ⟨rfl, hwheel⟩
  · have hlist : ranks.map Fin.val = [high.val, high.val - 1, high.val - 2, high.val - 3, high.val - 4] := by
      refine eq_of_desc hvals ?_ ?_
      · rw [List.pairwise_map]
        exact hdesc
      · simp
        omega
    have hlen := congrArg List.length hlist
    rw [List.length_map] at hlen
    obtain ⟨a, b, c, d, e, rfl⟩ := exists_five hlen
    simp at hlist
    obtain ⟨ha, hb, hc, hd, he⟩ := hlist
    unfold detectStraight
    rw [if_neg, if_pos]
    · exact congrArg some (Fin.ext ha)
    · simp
      omega
    · intro hwheel
      simp [Rank.ace, Rank.five, Rank.four, Rank.three, Rank.two] at hwheel
      omega
  · have hlist : ranks = [.ace, .five, .four, .three, .two] := by
      refine eq_of_desc (hwheel.trans (by decide)) hdesc (by decide)
    rw [hlist]
    rfl

theorem StraightTo.nodup {ranks : List Rank} {high : Rank} (h : StraightTo ranks high) : ranks.Nodup := by
  rw [← Multiset.coe_nodup]
  rcases h with ⟨hfour, hvals⟩ | ⟨-, hwheel⟩
  · apply Multiset.Nodup.of_map Fin.val
    rw [hvals]
    simp
    omega
  · rw [hwheel]
    decide

theorem isFlush_sorted_iff {hand sorted : List Card} (hp : sorted.Perm hand) :
    isFlush sorted = true ↔ OneSuit hand := by
  rw [isFlush_iff, hp.pairwise_iff fun heq => Eq.symm heq]
  constructor
  · intro hpair
    cases hand with
    | nil => exact ⟨0, nofun⟩
    | cons c hand =>
      refine ⟨c.suit, ?_⟩
      intro d hd
      rcases List.mem_cons.mp hd with rfl | hd
      · rfl
      · exact ((List.pairwise_cons.mp hpair).1 d hd).symm
  · rintro ⟨s, hs⟩
    exact List.pairwise_of_forall_mem_list fun c hc d hd => (hs c hc).trans (hs d hd).symm

/- Distinct cards of one suit have distinct ranks. -/
theorem OneSuit.nodup {hand : List Card} (h : OneSuit hand) (hnd : hand.Nodup) : (hand.map Card.rank).Nodup := by
  obtain ⟨s, hs⟩ := h
  refine List.Nodup.map_on ?_ hnd
  rintro ⟨sc, rc⟩ hc ⟨sd, rd⟩ hd hrank
  have hsuit : sc = sd := (hs _ hc).trans (hs _ hd).symm
  simp only at hrank
  rw [hsuit, hrank]

/- There are four cards of a rank. -/
theorem count_rank_le {hand : List Card} (hnd : hand.Nodup) (r : Rank) : (hand.map Card.rank).count r ≤ 4 := by
  have hsuits : ((hand.filter fun c => c.rank = r).map Card.suit).Nodup := by
    refine List.Nodup.map_on ?_ (hnd.filter _)
    rintro ⟨sc, rc⟩ hc ⟨sd, rd⟩ hd hsuit
    have hrc : rc = r := by simpa using (List.mem_filter.mp hc).2
    have hrd : rd = r := by simpa using (List.mem_filter.mp hd).2
    simp only at hsuit
    rw [hsuit, hrc, hrd]
  have hcard := hsuits.length_le_card
  rw [List.length_map, Fintype.card_fin] at hcard
  have hcount : (hand.map Card.rank).count r = (hand.filter fun c => c.rank = r).length := by
    rw [List.count_eq_countP, List.countP_map, List.countP_eq_length_filter]
    congr 1
  omega

/-! ### Rank5 follows the rules -/

/- The groups of five distinct cards, and that only single ranks make a straight or a flush. -/
theorem groupRanks_five {ranks : List Rank} (hlen : ranks.length = 5) (hfour : ∀ r, ranks.count r ≤ 4) :
    ((groupRanks ranks).map RankGroup.count = [4, 1] ∨ (groupRanks ranks).map RankGroup.count = [3, 2] ∨
      (groupRanks ranks).map RankGroup.count = [3, 1, 1] ∨
      (groupRanks ranks).map RankGroup.count = [2, 2, 1] ∨
      (groupRanks ranks).map RankGroup.count = [2, 1, 1, 1] ∨
      (groupRanks ranks).map RankGroup.count = [1, 1, 1, 1, 1]) := by
  refine partition_five (groupRanks_desc ranks) ?_ ((groupRanks_sum ranks).trans hlen)
  intro n hn
  obtain ⟨g, hg, rfl⟩ := List.mem_map.mp hn
  obtain ⟨hcount, hmem⟩ := groupRanks_count hg
  have hpos := List.count_pos_iff.mpr hmem
  have hle := hfour g.rank
  omega

theorem groupRanks_single {ranks : List Rank} (h : ranks.Nodup) {n : ℕ}
    (hn : n ∈ (groupRanks ranks).map RankGroup.count) : n = 1 := by
  obtain ⟨g, hg, rfl⟩ := List.mem_map.mp hn
  obtain ⟨hcount, hmem⟩ := groupRanks_count hg
  rw [hcount, List.count_eq_one_of_mem h hmem]

theorem nodup_of_single {ranks : List Rank} (hlen : ranks.length = 5)
    (h : (groupRanks ranks).map RankGroup.count = [1, 1, 1, 1, 1]) : ranks.Nodup := by
  have hgroups := congrArg List.length h
  have hdedup := (groupRanks_ranks ranks).length_eq
  rw [List.length_map] at hgroups hdedup
  have hself := (List.dedup_sublist ranks).eq_of_length (by rw [← hdedup, hgroups, hlen]; rfl)
  rw [← hself]
  exact List.nodup_dedup ranks

/- Single ranks in descending order are their own groups. -/
theorem groupRanks_of_nodup {ranks : List Rank} (h : ranks.Nodup) (hdesc : ranks.Pairwise (· ≥ ·)) :
    (groupRanks ranks).map RankGroup.rank = ranks := by
  have hby := groupRanks_byMultiplicity ranks
  refine eq_of_desc ?_ ?_ hdesc
  · rw [hby.distinct, Multiset.coe_dedup, h.dedup]
  · refine hby.ordered.imp_of_mem ?_
    intro a b ha hb hab
    have hone : ∀ r ∈ (groupRanks ranks).map RankGroup.rank, Multiset.count r (ranks : Multiset Rank) = 1 := by
      intro r hr
      rw [Multiset.coe_count]
      exact List.count_eq_one_of_mem h (List.mem_dedup.mp ((groupRanks_ranks ranks).mem_iff.mp hr))
    rw [hone a ha, hone b hb] at hab
    rcases hab with hlt | ⟨-, hlt⟩
    · exact absurd hlt (lt_irrefl 1)
    · exact hlt.le

/- Without a straight or a flush the groups decide. -/
theorem ruleBook_grouped {hand : List Card} {ranks : List Rank} {category : Category}
    (hranks : handRanks hand = ranks) (hnot : ∀ high, ¬ StraightTo (handRanks hand) high)
    (hflush : ¬ OneSuit hand) (happlies : Applies hand category) :
    RuleBook hand category (pad ((groupRanks ranks).map RankGroup.rank)) := by
  refine ⟨happlies, ?_, ?_, ?_⟩
  · intro other hother
    cases other <;> cases category <;> simp only [Applies] at happlies hother <;>
      first
      | exact absurd hother.2 hflush
      | exact absurd hother hflush
      | exact absurd happlies.2 hflush
      | exact absurd happlies hflush
      | exact absurd hother.choose_spec (hnot _)
      | exact absurd happlies.choose_spec (hnot _)
      | exact absurd (happlies.symm.trans hother) (by decide)
      | exact Nat.le_refl _
  · rintro (rfl | rfl)
    · exact absurd happlies.choose_spec (hnot _)
    · exact absurd happlies.1.choose_spec (hnot _)
  · intro _ _
    rw [hranks]
    exact ⟨_, groupRanks_byMultiplicity ranks, rfl⟩

theorem pad_five {ranks : List Rank} (h : ranks.length = 5) : pad ranks = ranks := by
  rw [pad, h, Nat.sub_self, List.replicate_zero, List.append_nil]

theorem ruleBook_straightFlush {hand : List Card} {high : Rank} (hstraight : StraightTo (handRanks hand) high)
    (hflush : OneSuit hand) : RuleBook hand .straightFlush (pad [high]) := by
  refine ⟨⟨⟨high, hstraight⟩, hflush⟩, ?_, fun _ => ⟨high, hstraight, rfl⟩, fun _ h => absurd rfl h⟩
  intro other _
  cases other <;> decide

/- Five single ranks are neither four of a kind nor a full house. -/
theorem ruleBook_flush {hand : List Card} {ranks : List Rank} (hranks : handRanks hand = ranks)
    (hsingle : multiplicities (handRanks hand) = {1, 1, 1, 1, 1})
    (hnot : ∀ high, ¬ StraightTo (handRanks hand) high) (hflush : OneSuit hand) :
    RuleBook hand .flush (pad ((groupRanks ranks).map RankGroup.rank)) := by
  refine ⟨hflush, ?_, nofun, fun _ _ => ?_⟩
  · intro other hother
    cases other <;> simp only [Applies, hsingle] at hother <;>
      first
      | exact absurd hother.1.choose_spec (hnot _)
      | exact absurd hother (by decide)
      | decide
  · rw [hranks]
    exact ⟨_, groupRanks_byMultiplicity ranks, rfl⟩

theorem ruleBook_straight {hand : List Card} {high : Rank}
    (hsingle : multiplicities (handRanks hand) = {1, 1, 1, 1, 1})
    (hstraight : StraightTo (handRanks hand) high) (hflush : ¬ OneSuit hand) :
    RuleBook hand .straight (pad [high]) := by
  refine ⟨⟨high, hstraight⟩, ?_, fun _ => ⟨high, hstraight, rfl⟩, fun h => absurd rfl h⟩
  intro other hother
  cases other <;> simp only [Applies, hsingle] at hother <;>
    first
    | exact absurd hother.2 hflush
    | exact absurd hother hflush
    | exact absurd hother (by decide)
    | decide

/- A category whose tiebreakers are the ranks of all groups. -/
theorem classify_grouped {hand : List Card} {ranks : List Rank} {flush : Bool} {category : Category}
    {counts : List ℕ} (hc : (groupRanks ranks).map RankGroup.count = counts)
    (hclass : classify ranks flush = (category, pad (((groupRanks ranks).take counts.length).map RankGroup.rank)))
    (hrules : RuleBook hand category (pad ((groupRanks ranks).map RankGroup.rank))) :
    RuleBook hand (classify ranks flush).1 (classify ranks flush).2 := by
  rw [hclass, ← hc, List.length_map, List.take_length]
  exact hrules

/-- What is found from the descending ranks is what the rules say. -/
theorem classify_ruleBook {hand : List Card} {ranks : List Rank} {flush : Bool}
    (hranks : handRanks hand = ranks) (hlen : ranks.length = 5) (hdesc : ranks.Pairwise (· ≥ ·))
    (hflush : flush = true ↔ OneSuit hand) (hnd : hand.Nodup) :
    RuleBook hand (classify ranks flush).1 (classify ranks flush).2 := by
  have hperm : ranks.Perm (hand.map Card.rank) := Multiset.coe_eq_coe.mp hranks.symm
  have hfour : ∀ r, ranks.count r ≤ 4 := by
    intro r
    rw [hperm.count_eq]
    exact count_rank_le hnd r
  have hmult : multiplicities (handRanks hand) = ((groupRanks ranks).map RankGroup.count : List ℕ) := by
    rw [hranks, multiplicities_eq]
  have hstraight : ∀ high, detectStraight ranks = some high ↔ StraightTo (handRanks hand) high := by
    rw [hranks]
    exact fun high => ⟨detectStraight_sound hlen, detectStraight_complete hdesc⟩
  by_cases hsingle : ranks.Nodup
  · have hones : (groupRanks ranks).map RankGroup.count = [1, 1, 1, 1, 1] := by
      rcases groupRanks_five hlen hfour with hc | hc | hc | hc | hc | hc
      case inr.inr.inr.inr.inr => exact hc
      all_goals
        have hone := groupRanks_single hsingle (hc ▸ List.mem_cons_self ..)
        omega
    have hself := groupRanks_of_nodup hsingle hdesc
    rw [hones] at hmult
    cases hs : detectStraight ranks with
    | some high =>
      have hto := (hstraight high).mp hs
      cases flush with
      | true =>
        have hrules := ruleBook_straightFlush hto (hflush.mp rfl)
        simpa [classify, hs] using hrules
      | false =>
        have hrules := ruleBook_straight hmult hto fun h => Bool.noConfusion (hflush.mpr h)
        simpa [classify, hs, hones] using hrules
    | none =>
      have hno : ∀ high, ¬ StraightTo (handRanks hand) high := by
        intro high hto
        rw [← hstraight, hs] at hto
        cases hto
      cases flush with
      | true =>
        have hrules := ruleBook_flush hranks hmult hno (hflush.mp rfl)
        rw [hself, pad_five hlen] at hrules
        simpa [classify, hs, hones] using hrules
      | false =>
        have happlies : Applies hand .highCard := hmult
        have hrules := ruleBook_grouped hranks hno (fun h => Bool.noConfusion (hflush.mpr h)) happlies
        rw [hself, pad_five hlen] at hrules
        simpa [classify, hs, hones] using hrules
  · -- a repeated rank: no straight, no flush
    have hnoflush : ¬ OneSuit hand := fun h => hsingle (hperm.nodup_iff.mpr (h.nodup hnd))
    have hno : ∀ high, ¬ StraightTo (handRanks hand) high := fun high h => hsingle (hranks ▸ h).nodup
    have hs : detectStraight ranks = none := by
      cases h : detectStraight ranks with
      | none => rfl
      | some high => exact absurd ((hstraight high).mp h) (hno high)
    have hgrouped : ∀ category, Applies hand category →
        RuleBook hand category (pad ((groupRanks ranks).map RankGroup.rank)) :=
      fun _ happlies => ruleBook_grouped hranks hno hnoflush happlies
    obtain rfl : flush = false := by
      rw [← Bool.not_eq_true, hflush]
      exact hnoflush
    rcases groupRanks_five hlen hfour with hc | hc | hc | hc | hc | hc <;> rw [hc] at hmult
    · exact classify_grouped hc (by simp [classify, hs, hc]) (hgrouped .fourOfAKind hmult)
    · exact classify_grouped hc (by simp [classify, hs, hc]) (hgrouped .fullHouse hmult)
    · exact classify_grouped hc (by simp [classify, hs, hc]) (hgrouped .threeOfAKind hmult)
    · exact classify_grouped hc (by simp [classify, hs, hc]) (hgrouped .twoPair hmult)
    · exact classify_grouped hc (by simp [classify, hs, hc]) (hgrouped .onePair hmult)
    · exact absurd (nodup_of_single hlen hc) hsingle

/-! ### Orders and suits -/

def relabel (suits : Equiv.Perm Suit) (c : Card) : Card := ⟨suits c.suit, c.rank⟩

theorem rank5_relabel (suits : Equiv.Perm Suit) (hand : List Card) :
    SameStrength (rank5 (hand.map (relabel suits))) (rank5 hand) := by
  have hp : ((sortByRank hand).map (relabel suits)).Perm (hand.map (relabel suits)) :=
    (sortByRank_perm hand).map _
  have hdesc : ((sortByRank hand).map (relabel suits)).Pairwise fun c d => d.rank ≤ c.rank :=
    List.pairwise_map.mpr (sortByRank_desc hand)
  have hranks : ((sortByRank hand).map (relabel suits)).map Card.rank = (sortByRank hand).map Card.rank := by
    rw [List.map_map]
    rfl
  have hflush : isFlush ((sortByRank hand).map (relabel suits)) = isFlush (sortByRank hand) := by
    rw [Bool.eq_iff_iff, isFlush_iff, isFlush_iff, List.pairwise_map]
    simp only [relabel, suits.injective.eq_iff]
  have hclass := classify_sorted hp hdesc
  rw [hranks, hflush, ← rank5_classify] at hclass
  exact (Prod.mk.inj hclass).imp Eq.symm Eq.symm

theorem rank5_ruleBook {hand : List Card} (hlen : hand.length = 5) (hnd : hand.Nodup) :
    RuleBook hand (rank5 hand).category (rank5 hand).tiebreakers := by
  have hp := sortByRank_perm hand
  have hranks : handRanks hand = (sortByRank hand).map Card.rank :=
    Multiset.coe_eq_coe.mpr (hp.map Card.rank).symm
  have hrules := classify_ruleBook hranks (by rw [List.length_map, hp.length_eq, hlen])
    (List.pairwise_map.mpr (sortByRank_desc hand)) (isFlush_sorted_iff hp) hnd
  rw [← rank5_classify] at hrules
  exact hrules

/-- `Rank5` implements the poker ranking, whatever the order of the cards and the names of the suits. -/
theorem rank5_implements_rules (hand : List Card) (hlen : hand.length = 5) (hnd : hand.Nodup) :
    RuleBook hand (rank5 hand).category (rank5 hand).tiebreakers ∧
      (∀ hand', hand'.Perm hand → SameStrength (rank5 hand') (rank5 hand)) ∧
      ∀ suits : Equiv.Perm Suit, SameStrength (rank5 (hand.map (relabel suits))) (rank5 hand) :=
  ⟨rank5_ruleBook hlen hnd, fun _ hp => strength_eq_iff.mp (rank5_perm hp), fun suits => rank5_relabel suits hand⟩

/- The wheel in one suit. -/
def steelWheel : List Card := [⟨2, .three⟩, ⟨2, .ace⟩, ⟨2, .five⟩, ⟨2, .two⟩, ⟨2, .four⟩]

theorem rank5_implements_rules_wheel : (rank5 steelWheel).category = .straightFlush ∧
    (rank5 steelWheel).tiebreakers = [.five, 0, 0, 0, 0] ∧
    RuleBook steelWheel (rank5 steelWheel).category (rank5 steelWheel).tiebreakers :=
  ⟨by decide +kernel, by decide +kernel, (rank5_implements_rules steelWheel (by decide) (by decide)).1⟩

end P2Poker.Cards
