import P2Poker.Cards.Rules

/-!
# The displayed hand

`Best` in a `HandRank` holds the five cards that were ranked, rearranged: by
groups of equal ranks, around the ace of the wheel, or as they were sorted.
-/

namespace P2Poker.Cards

def Category.Paired (c : Category) : Prop :=
  c = .onePair ∨ c = .twoPair ∨ c = .threeOfAKind ∨ c = .fullHouse ∨ c = .fourOfAKind

/-- The five cards of a rank in the order a client shows them. -/
structure Displayed (h : HandRank) : Prop where
  -- the ranks of the tiebreakers one after the other, all cards of a rank together
  paired : h.category.Paired → ∃ l : List Rank, l.Nodup ∧ h.tiebreakers = pad l ∧
    (∀ r ∈ l, r ∈ h.best.map Card.rank) ∧
    h.best.map Card.rank = l.flatMap fun r => List.replicate ((h.best.map Card.rank).count r) r
  -- down from the high card; the ace of the wheel comes last
  straight : h.category = .straight ∨ h.category = .straightFlush → ∃ high, h.tiebreakers = pad [high] ∧
    ((high = .five ∧ h.best.map Card.rank = [.five, .four, .three, .two, .ace]) ∨
      (4 ≤ high.val ∧ (h.best.map fun c => c.rank.val) =
        [high.val, high.val - 1, high.val - 2, high.val - 3, high.val - 4]))
  descending : h.category = .flush ∨ h.category = .highCard → (h.best.map Card.rank).Pairwise (· > ·)

/-- The ranked hand is the one that is shown. -/
structure ShownFrom (cards : List Card) (h : HandRank) : Prop where
  five : h.best.length = 5
  distinct : h.best.Nodup
  taken : ∀ c ∈ h.best, c ∈ cards
  ranked : SameStrength (rank5 h.best) h
  displayed : Displayed h

/-! ### Groups -/

theorem ByMultiplicity.unique {ranks : Multiset Rank} {l l' : List Rank} (h : ByMultiplicity ranks l)
    (h' : ByMultiplicity ranks l') : l = l' := by
  refine (Multiset.coe_eq_coe.mp (h.distinct.trans h'.distinct.symm)).eq_of_pairwise ?_ h.ordered h'.ordered
  intro a b _ _ hab hba
  rw [Fin.lt_def] at hab hba
  omega

theorem map_rank_filter (sorted : List Card) (r : Rank) :
    (sorted.filter fun c => c.rank = r).map Card.rank =
      List.replicate ((sorted.map Card.rank).count r) r := by
  rw [List.eq_replicate_iff]
  constructor
  · rw [List.length_map, List.count_eq_countP, List.countP_map, List.countP_eq_length_filter]
    congr 1
  · intro x hx
    obtain ⟨c, hc, rfl⟩ := List.mem_map.mp hx
    simpa using (List.mem_filter.mp hc).2

theorem arrangeByGroups_ranks (sorted : List Card) (groups : List RankGroup) :
    (arrangeByGroups sorted groups).map Card.rank =
      (groups.map RankGroup.rank).flatMap fun r => List.replicate ((sorted.map Card.rank).count r) r := by
  rw [arrangeByGroups, List.map_flatMap, List.flatMap_map]
  simp only [map_rank_filter]

theorem arrangeByGroups_perm {sorted : List Card} (hnd : sorted.Nodup) :
    (arrangeByGroups sorted (groupByRank sorted)).Perm sorted := by
  have hranks := groupRanks_ranks (sorted.map Card.rank)
  have hdistinct : ((groupByRank sorted).map RankGroup.rank).Nodup :=
    hranks.nodup_iff.mpr (List.nodup_dedup _)
  rw [List.perm_ext_iff_of_nodup ?_ hnd]
  · intro c
    rw [arrangeByGroups, List.mem_flatMap]
    constructor
    · rintro ⟨g, -, hc⟩
      exact (List.mem_filter.mp hc).1
    · intro hc
      have hmem : c.rank ∈ (groupByRank sorted).map RankGroup.rank :=
        hranks.mem_iff.mpr (List.mem_dedup.mpr (List.mem_map_of_mem hc))
      obtain ⟨g, hg, hgr⟩ := List.mem_map.mp hmem
      exact ⟨g, hg, List.mem_filter.mpr ⟨hc, by simp [hgr]⟩⟩
  · rw [arrangeByGroups, List.nodup_flatMap]
    refine ⟨fun g _ => hnd.filter _, ?_⟩
    rw [List.Nodup, List.pairwise_map] at hdistinct
    refine hdistinct.imp ?_
    intro g h hgh c hcg hch
    have hg := (List.mem_filter.mp hcg).2
    have hh := (List.mem_filter.mp hch).2
    simp only [decide_eq_true_eq] at hg hh
    exact hgh (hg.symm.trans hh)

/-! ### Straights -/

theorem arrangeStraight_wheel {sorted : List Card}
    (h : sorted.map Card.rank = [.ace, .five, .four, .three, .two]) :
    (arrangeStraight sorted .five).Perm sorted ∧
      (arrangeStraight sorted .five).map Card.rank = [.five, .four, .three, .two, .ace] := by
  have hlen := congrArg List.length h
  rw [List.length_map] at hlen
  obtain ⟨a, b, c, d, e, rfl⟩ := exists_five hlen
  simp only [List.map_cons, List.map_nil, List.cons.injEq, and_true] at h
  obtain ⟨ha, hb, hc, hd, he⟩ := h
  have hback : arrangeStraight [a, b, c, d, e] .five = [b, c, d, e, a] := by
    simp [arrangeStraight, ha, hb, hc, hd, he, Rank.ace, Rank.five, Rank.four, Rank.three, Rank.two]
  rw [hback]
  refine ⟨(List.perm_append_singleton a [b, c, d, e]), ?_⟩
  simp [ha, hb, hc, hd, he]

/- The order of a straight that was found. -/
theorem arrangeStraight_shown {sorted : List Card} (hlen : (sorted.map Card.rank).length = 5) {high : Rank}
    (h : detectStraight (sorted.map Card.rank) = some high) :
    (arrangeStraight sorted high).Perm sorted ∧
      ((high = .five ∧ (arrangeStraight sorted high).map Card.rank = [.five, .four, .three, .two, .ace]) ∨
        (4 ≤ high.val ∧ ((arrangeStraight sorted high).map fun c => c.rank.val) =
          [high.val, high.val - 1, high.val - 2, high.val - 3, high.val - 4])) := by
  unfold detectStraight at h
  split_ifs at h with hwheel hall
  · obtain rfl := Option.some.inj h
    obtain ⟨hp, hranks⟩ := arrangeStraight_wheel hwheel
    exact ⟨hp, Or.inl ⟨rfl, hranks⟩⟩
  · obtain ⟨top, htop, hfour, hvals⟩ := straight_values hlen hall
    obtain rfl : high = top := Option.some.inj (h.symm.trans htop)
    have hne : high ≠ .five := by
      rintro rfl
      exact absurd hfour (by decide)
    rw [arrangeStraight, if_pos hne]
    rw [List.map_map] at hvals
    exact ⟨List.Perm.refl _, Or.inr ⟨hfour, hvals⟩⟩

/-! ### The array of Rank5 -/

/-- Which rearrangement each category uses. -/
structure Arranged (hand : List Card) (h : HandRank) : Prop where
  paired : h.category.Paired → h.best = arrangeByGroups (sortByRank hand) (groupByRank (sortByRank hand))
  straight : h.category = .straight ∨ h.category = .straightFlush →
    ∃ high, detectStraight ((sortByRank hand).map Card.rank) = some high ∧ h.tiebreakers = pad [high] ∧
      h.best = arrangeStraight (sortByRank hand) high
  plain : h.category = .flush ∨ h.category = .highCard → h.best = sortByRank hand

theorem arranged_paired {hand : List Card} {category : Category} (h : category.Paired) (ranks : List Rank) :
    Arranged hand ⟨category, ranks, arrangeByGroups (sortByRank hand) (groupByRank (sortByRank hand))⟩ := by
  refine ⟨fun _ => rfl, ?_, ?_⟩
  · rintro (rfl | rfl) <;> simp [Category.Paired] at h
  · rintro (rfl | rfl) <;> simp [Category.Paired] at h

theorem arranged_straight {hand : List Card} {high : Rank} {category : Category}
    (hs : detectStraight ((sortByRank hand).map Card.rank) = some high)
    (h : category = .straight ∨ category = .straightFlush) :
    Arranged hand ⟨category, pad [high], arrangeStraight (sortByRank hand) high⟩ := by
  refine ⟨?_, fun _ => ⟨high, hs, rfl, rfl⟩, ?_⟩
  · intro hp
    rcases h with rfl | rfl <;> simp [Category.Paired] at hp
  · rintro (rfl | rfl) <;> simp at h

theorem arranged_plain {hand : List Card} {category : Category} (h : category = .flush ∨ category = .highCard)
    (ranks : List Rank) : Arranged hand ⟨category, ranks, sortByRank hand⟩ := by
  refine ⟨?_, ?_, fun _ => rfl⟩
  · intro hp
    rcases h with rfl | rfl <;> simp [Category.Paired] at hp
  · rintro (rfl | rfl) <;> simp at h

theorem rank5_arranged (hand : List Card) : Arranged hand (rank5 hand) := by
  unfold rank5
  dsimp only
  cases hs : detectStraight ((sortByRank hand).map Card.rank) with
  | none =>
    cases isFlush (sortByRank hand) <;> simp only <;> split_ifs <;>
      first
      | exact arranged_plain (by simp) _
      | exact arranged_paired (by simp [Category.Paired]) _
  | some high =>
    cases isFlush (sortByRank hand) with
    | true => exact arranged_straight hs (by simp)
    | false =>
      simp only
      split_ifs <;>
        first
        | exact arranged_straight hs (by simp)
        | exact arranged_paired (by simp [Category.Paired]) _
        | exact arranged_plain (by simp) _

theorem Category.cases (c : Category) :
    c.Paired ∨ (c = .straight ∨ c = .straightFlush) ∨ c = .flush ∨ c = .highCard := by
  cases c <;> simp [Category.Paired]

/- No card is lost or repeated. -/
theorem rank5_best_perm {hand : List Card} (hlen : hand.length = 5) (hnd : hand.Nodup) :
    (rank5 hand).best.Perm hand := by
  have hp := sortByRank_perm hand
  have harr := rank5_arranged hand
  rcases (rank5 hand).category.cases with hcat | hcat | hcat
  · rw [harr.paired hcat]
    exact (arrangeByGroups_perm (hp.nodup_iff.mpr hnd)).trans hp
  · obtain ⟨high, hs, -, hbest⟩ := harr.straight hcat
    rw [hbest]
    exact (arrangeStraight_shown (by rw [List.length_map, hp.length_eq, hlen]) hs).1.trans hp
  · rw [harr.plain hcat]
    exact hp

theorem nodup_of_multiplicities {ranks : Multiset Rank} (h : multiplicities ranks = {1, 1, 1, 1, 1}) :
    ranks.Nodup := by
  rw [Multiset.nodup_iff_count_eq_one]
  intro r hr
  have hcount : ranks.count r ∈ multiplicities ranks :=
    Multiset.mem_map_of_mem (fun r => ranks.count r) (Multiset.mem_dedup.mpr hr)
  rw [h] at hcount
  simpa using hcount

/- The hands that are shown as they were sorted have five ranks. -/
theorem plain_nodup {hand : List Card} {category : Category} (hnd : hand.Nodup)
    (h : category = .flush ∨ category = .highCard) (happlies : Applies hand category) :
    (hand.map Card.rank).Nodup := by
  rcases h with rfl | rfl
  · exact OneSuit.nodup happlies hnd
  · exact Multiset.coe_nodup.mp (nodup_of_multiplicities happlies)

theorem rank5_displayed {hand : List Card} (hlen : hand.length = 5) (hnd : hand.Nodup) :
    Displayed (rank5 hand) := by
  have hp := sortByRank_perm hand
  have harr := rank5_arranged hand
  have hrules := rank5_ruleBook hlen hnd
  refine ⟨?_, ?_, ?_⟩
  · intro hcat
    have hbest := (rank5_best_perm hlen hnd).map Card.rank
    have hranks : handRanks hand = (sortByRank hand).map Card.rank :=
      Multiset.coe_eq_coe.mpr (hp.map Card.rank).symm
    obtain ⟨l, hby, htie⟩ := hrules.grouped
      (by rintro h; simp [h, Category.Paired] at hcat) (by rintro h; simp [h, Category.Paired] at hcat)
    have hl : l = (groupByRank (sortByRank hand)).map RankGroup.rank := by
      rw [hranks] at hby
      exact hby.unique (groupRanks_byMultiplicity _)
    have hmem : ∀ r ∈ l, r ∈ (rank5 hand).best.map Card.rank := by
      intro r hr
      rw [hbest.mem_iff, ← Multiset.mem_coe]
      change r ∈ handRanks hand
      rw [← Multiset.mem_dedup, ← hby.distinct]
      exact hr
    refine ⟨l, Multiset.coe_nodup.mp (hby.distinct ▸ Multiset.nodup_dedup _), htie, hmem, ?_⟩
    simp only [hbest.count_eq, ← (hp.map Card.rank).count_eq]
    rw [harr.paired hcat, arrangeByGroups_ranks, hl]
  · intro hcat
    obtain ⟨high, hs, htie, hbest⟩ := harr.straight hcat
    rw [hbest]
    exact ⟨high, htie, (arrangeStraight_shown (by rw [List.length_map, hp.length_eq, hlen]) hs).2⟩
  · intro hcat
    have hsingle := (hp.map Card.rank).nodup_iff.mpr (plain_nodup hnd hcat hrules.applies)
    have hdesc : ((sortByRank hand).map Card.rank).Pairwise (· ≥ ·) :=
      List.pairwise_map.mpr (sortByRank_desc hand)
    rw [harr.plain hcat]
    refine (hdesc.and hsingle).imp ?_
    intro a b hab
    exact lt_of_le_of_ne hab.1 (Ne.symm hab.2)

/-- What `Best` shows is the hand it ranked. -/
theorem best_shows_ranked_hand (cards : List Card) (hr : Ranked cards) :
    ∃ h, best cards = .ok h ∧ ShownFrom cards h := by
  obtain ⟨h, hbest, hs⟩ := best_strongest hr
  obtain ⟨hand, hsub, hlen, rfl⟩ := hs.attained
  have hnd : hand.Nodup := hr.2.2.sublist hsub
  have hp := rank5_best_perm hlen hnd
  refine ⟨_, hbest, hp.length_eq.trans hlen, hp.nodup_iff.mpr hnd, ?_, ?_, rank5_displayed hlen hnd⟩
  · intro c hc
    exact hsub.subset (hp.mem_iff.mp hc)
  · exact strength_eq_iff.mp (rank5_perm hp)

theorem best_shows_ranked_hand_full_house : Ranked sevenCards ∧
    ∃ h, best sevenCards = .ok h ∧ ShownFrom sevenCards h :=
  ⟨by decide, best_shows_ranked_hand sevenCards (by decide)⟩

end P2Poker.Cards
