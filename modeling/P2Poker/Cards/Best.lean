import Mathlib.Data.List.MinMax
import P2Poker.Cards.Eval

/-!
# The strongest hand

`Compare` orders hands by category and then by their tiebreakers. What `Rank5`
finds does not depend on the order of the five cards, and the masks of `Best`
run through all choices of five, so `Best` finds the strongest of them.
-/

namespace P2Poker.Cards
open P2Poker.Lib

/-! ### Comparing hands -/

/- The source's type has room for exactly five tiebreakers. -/
def HandRank.Full (h : HandRank) : Prop := h.tiebreakers.length = 5

/-- Category first, then the tiebreakers from the left. -/
def HandRank.strength (h : HandRank) : ℕ ×ₗ List Rank := toLex (h.category.toNat, h.tiebreakers)

theorem Category.toNat_injective : Function.Injective Category.toNat := by
  intro a b h
  cases a <;> cases b <;> first | rfl | cases h

theorem compareRanks_eq (as bs : List Rank) (h : as.length = bs.length) :
    compareRanks as bs = if bs < as then 1 else if as < bs then -1 else 0 := by
  induction as generalizing bs with
  | nil =>
    obtain rfl := List.length_eq_zero_iff.mp h.symm
    simp [compareRanks]
  | cons a as ih =>
    cases bs with
    | nil => cases h
    | cons b bs =>
      have ih := ih bs (Nat.succ.inj h)
      rw [compareRanks]
      by_cases hab : a = b
      · subst hab
        rw [if_neg (not_not.mpr rfl), ih]
        simp only [List.cons_lt_cons_iff, lt_irrefl, true_and, false_or]
      · rw [if_pos hab]
        rcases lt_or_gt_of_ne hab with hlt | hgt
        · simp [List.cons_lt_cons_iff, hlt, hlt.not_gt, hab, Ne.symm hab]
        · simp [List.cons_lt_cons_iff, hgt, Ne.symm hab]

theorem compare_eq {a b : HandRank} (ha : a.Full) (hb : b.Full) :
    compare a b = if b.strength < a.strength then 1 else if a.strength < b.strength then -1 else 0 := by
  unfold compare
  by_cases hc : a.category = b.category
  · rw [if_neg (not_not.mpr hc), compareRanks_eq _ _ (ha.trans hb.symm)]
    simp [HandRank.strength, Prod.Lex.toLex_lt_toLex, hc]
  · have hne : a.category.toNat ≠ b.category.toNat := fun h => hc (Category.toNat_injective h)
    rw [if_pos hc]
    rcases lt_or_gt_of_ne hne with hlt | hgt
    · simp [HandRank.strength, Prod.Lex.toLex_lt_toLex, hlt, hlt.not_gt, hne, hne.symm]
    · simp [HandRank.strength, Prod.Lex.toLex_lt_toLex, hgt, hne.symm]

theorem compare_pos_iff {a b : HandRank} (ha : a.Full) (hb : b.Full) :
    0 < compare a b ↔ b.strength < a.strength := by
  rw [compare_eq ha hb]
  split_ifs with h₁ h₂ <;> simp [h₁]

theorem compare_nonneg_iff {a b : HandRank} (ha : a.Full) (hb : b.Full) :
    0 ≤ compare a b ↔ b.strength ≤ a.strength := by
  rw [compare_eq ha hb]
  split_ifs with h₁ h₂
  · simp [h₁.le]
  · simp [h₂.not_ge]
  · simp [not_lt.mp h₂]

theorem strength_eq_iff {a b : HandRank} :
    a.strength = b.strength ↔ a.category = b.category ∧ a.tiebreakers = b.tiebreakers := by
  simp [HandRank.strength, Category.toNat_injective.eq_iff]

/-! ### The order of the five cards -/

def groupRanks (ranks : List Rank) : List RankGroup :=
  (ranks.dedup.map fun r => ⟨r, ranks.count r⟩).insertionSort fun g h =>
    h.count < g.count ∨ (g.count = h.count ∧ h.rank ≤ g.rank)

/- Category and tiebreakers from the ranks in descending order and whether the
hand is a flush. -/
def classify (ranks : List Rank) (flush : Bool) : Category × List Rank :=
  let groups := groupRanks ranks
  let counts := groups.map RankGroup.count
  let byGroups (k : ℕ) : List Rank := pad ((groups.take k).map RankGroup.rank)
  match detectStraight ranks, flush with
  | some high, true => (.straightFlush, pad [high])
  | straight, flush =>
    if counts.head? = some 4 then (.fourOfAKind, byGroups 2)
    else if counts.head? = some 3 ∧ counts[1]? = some 2 then (.fullHouse, byGroups 2)
    else if flush then (.flush, ranks)
    else
      match straight with
      | some high => (.straight, pad [high])
      | none =>
        if counts.head? = some 3 then (.threeOfAKind, byGroups 3)
        else if counts.head? = some 2 ∧ counts[1]? = some 2 then (.twoPair, byGroups 3)
        else if counts.head? = some 2 then (.onePair, byGroups 4)
        else (.highCard, ranks)

theorem rank5_classify (hand : List Card) :
    ((rank5 hand).category, (rank5 hand).tiebreakers) =
      classify ((sortByRank hand).map Card.rank) (isFlush (sortByRank hand)) := by
  have hgroups : groupByRank (sortByRank hand) = groupRanks ((sortByRank hand).map Card.rank) := rfl
  unfold rank5 classify
  dsimp only
  rw [hgroups]
  cases detectStraight ((sortByRank hand).map Card.rank) <;> cases isFlush (sortByRank hand) <;>
    simp only <;> split_ifs <;> rfl

theorem classify_length {ranks : List Rank} (h : ranks.length = 5) (flush : Bool) :
    (classify ranks flush).2.length = 5 := by
  have hpad : ∀ l : List Rank, l.length ≤ 5 → (pad l).length = 5 := by
    intro l hl
    simp only [pad, List.length_append, List.length_replicate]
    omega
  have hgroups : ∀ k ≤ 5, (pad (((groupRanks ranks).take k).map RankGroup.rank)).length = 5 := by
    intro k hk
    refine hpad _ ?_
    rw [List.length_map, List.length_take]
    exact (Nat.min_le_left _ _).trans hk
  unfold classify
  cases detectStraight ranks with
  | none =>
    cases flush <;> simp only <;> split_ifs <;> first | exact h | exact hgroups _ (by decide)
  | some high =>
    have hhigh : (pad [high]).length = 5 := hpad _ (by simp)
    cases flush with
    | true => exact hhigh
    | false =>
      simp only
      split_ifs <;> first | exact hhigh | exact h | exact hgroups 2 (by decide)

theorem sortByRank_perm (hand : List Card) : (sortByRank hand).Perm hand :=
  List.perm_insertionSort _ _

theorem sortByRank_desc (hand : List Card) : (sortByRank hand).Pairwise fun c d => d.rank ≤ c.rank :=
  List.pairwise_insertionSort _ _

theorem rank5_full {hand : List Card} (h : hand.length = 5) : (rank5 hand).Full := by
  have hlen : ((sortByRank hand).map Card.rank).length = 5 := by
    rw [List.length_map, (sortByRank_perm hand).length_eq, h]
  have hclass : (rank5 hand).tiebreakers = _ := congrArg Prod.snd (rank5_classify hand)
  rw [HandRank.Full, hclass]
  exact classify_length hlen _

theorem isFlush_iff (hand : List Card) : isFlush hand = true ↔ hand.Pairwise fun c d => c.suit = d.suit := by
  induction hand with
  | nil => simp [isFlush]
  | cons c hand ih =>
    cases hand with
    | nil => simp [isFlush]
    | cons d hand =>
      have hstep : isFlush (c :: d :: hand) = (decide (c.suit = d.suit) && isFlush (d :: hand)) := rfl
      rw [hstep, Bool.and_eq_true, decide_eq_true_eq, ih]
      constructor
      · rintro ⟨hcd, hpair⟩
        refine List.pairwise_cons.mpr ⟨?_, hpair⟩
        intro x hx
        rcases List.mem_cons.mp hx with rfl | hx
        · exact hcd
        · exact hcd.trans ((List.pairwise_cons.mp hpair).1 x hx)
      · intro hpair
        obtain ⟨hall, hrest⟩ := List.pairwise_cons.mp hpair
        exact ⟨hall d (List.mem_cons_self ..), hrest⟩

/-- However a sort orders cards of equal rank, the same category and tiebreakers
are found. -/
theorem classify_sorted {hand sorted : List Card} (hp : sorted.Perm hand)
    (hdesc : sorted.Pairwise fun c d => d.rank ≤ c.rank) :
    classify (sorted.map Card.rank) (isFlush sorted) = ((rank5 hand).category, (rank5 hand).tiebreakers) := by
  have hsorted : sorted.Perm (sortByRank hand) := hp.trans (sortByRank_perm hand).symm
  have hranks : sorted.map Card.rank = (sortByRank hand).map Card.rank := by
    have hle : ∀ hand : List Card, hand.Pairwise (fun c d => d.rank ≤ c.rank) →
        (hand.map Card.rank).Pairwise fun r s => s ≤ r := fun _ h => List.pairwise_map.mpr h
    refine (hsorted.map Card.rank).eq_of_pairwise ?_ (hle _ hdesc) (hle _ (sortByRank_desc hand))
    intro a b _ _ hab hba
    exact le_antisymm hba hab
  have hflush : isFlush sorted = isFlush (sortByRank hand) := by
    rw [Bool.eq_iff_iff, isFlush_iff, isFlush_iff]
    exact hsorted.pairwise_iff fun heq => Eq.symm heq
  rw [rank5_classify, hranks, hflush]

theorem rank5_perm {hand hand' : List Card} (h : hand.Perm hand') :
    (rank5 hand).strength = (rank5 hand').strength := by
  have hclass := classify_sorted ((sortByRank_perm hand).trans h) (sortByRank_desc hand)
  rw [← rank5_classify] at hclass
  exact strength_eq_iff.mpr (Prod.mk.inj hclass)

/-! ### The masks -/

theorem popcount_eq (x : ℕ) : popcount x = x % 2 + popcount (x / 2) := by
  unfold popcount
  rcases Nat.eq_zero_or_pos x with rfl | hx
  · simp
  · rw [Nat.digits_def' (by decide) hx, List.sum_cons]

theorem choose_cons (c : Card) (cards : List Card) (mask : ℕ) :
    choose (c :: cards) mask = (if mask % 2 = 1 then [c] else []) ++ choose cards (mask / 2) := by
  have hbit : ∀ k, mask.testBit (k + 1) = (mask / 2).testBit k := fun k => Nat.testBit_succ ..
  unfold choose
  rw [List.length_cons, List.range_succ_eq_map, List.filter_cons, List.filter_map]
  simp only [Nat.testBit_zero, decide_eq_true_eq]
  split_ifs with h0
  · simp [List.filterMap_map, Function.comp_def, hbit]
  · simp [List.filterMap_map, Function.comp_def, hbit]

theorem choose_sublist (cards : List Card) (mask : ℕ) : (choose cards mask).Sublist cards := by
  induction cards generalizing mask with
  | nil => exact List.Sublist.refl _
  | cons c cards ih =>
    rw [choose_cons]
    split_ifs
    · exact (ih _).cons_cons c
    · exact (ih _).cons c

theorem choose_length (cards : List Card) (mask : ℕ) (h : mask < 2 ^ cards.length) :
    (choose cards mask).length = popcount mask := by
  induction cards generalizing mask with
  | nil =>
    obtain rfl : mask = 0 := by simpa using h
    rfl
  | cons c cards ih =>
    rw [List.length_cons, pow_succ] at h
    rw [choose_cons, popcount_eq, List.length_append, ih _ (by omega)]
    split_ifs with h1
    · rw [h1]
      rfl
    · rw [show mask % 2 = 0 by omega]
      rfl

theorem exists_mask {hand cards : List Card} (h : hand.Sublist cards) :
    ∃ mask < 2 ^ cards.length, choose cards mask = hand := by
  induction h with
  | slnil => exact ⟨0, by decide, rfl⟩
  | @cons hand cards c _ ih =>
    obtain ⟨mask, hlt, hmask⟩ := ih
    refine ⟨2 * mask, by rw [List.length_cons, pow_succ]; omega, ?_⟩
    rw [choose_cons, if_neg (by omega), Nat.mul_div_cancel_left _ (by decide), hmask]
    rfl
  | @cons_cons hand cards c _ ih =>
    obtain ⟨mask, hlt, hmask⟩ := ih
    refine ⟨2 * mask + 1, by rw [List.length_cons, pow_succ]; omega, ?_⟩
    rw [choose_cons, if_pos (by omega), show (2 * mask + 1) / 2 = mask by omega, hmask]
    rfl

/-- The masks run through all choices of five cards. -/
theorem mem_combos {hand cards : List Card} :
    hand ∈ combos cards ↔ hand.Sublist cards ∧ hand.length = 5 := by
  simp only [combos, List.mem_map, List.mem_filter, List.mem_range, decide_eq_true_eq]
  constructor
  · rintro ⟨mask, ⟨hlt, hpop⟩, rfl⟩
    exact ⟨choose_sublist cards mask, (choose_length cards mask hlt).trans hpop⟩
  · rintro ⟨hsub, hlen⟩
    obtain ⟨mask, hlt, rfl⟩ := exists_mask hsub
    exact ⟨mask, ⟨hlt, (choose_length cards mask hlt).symm.trans hlen⟩, rfl⟩

/-! ### The walk over the masks -/

theorem foldl_keepBest (hands : List (List Card)) (hlen : ∀ hand ∈ hands, hand.length = 5) :
    hands.foldl keepBest none = (hands.argmax fun hand => (rank5 hand).strength).map rank5 := by
  have hwalk : ∀ acc : Option (List Card), (∀ hand ∈ acc, hand.length = 5) →
      hands.foldl keepBest (acc.map rank5) =
        (hands.foldl (List.argAux fun b c => (rank5 c).strength < (rank5 b).strength) acc).map rank5 := by
    induction hands with
    | nil => exact fun _ _ => rfl
    | cons hand hands ih =>
      intro acc hacc
      have hhand := hlen hand (List.mem_cons_self ..)
      have ih := ih fun x hx => hlen x (List.mem_cons_of_mem _ hx)
      rw [List.foldl_cons, List.foldl_cons]
      cases acc with
      | none => exact ih (some hand) (by simpa using hhand)
      | some b =>
        have hb := hacc b rfl
        have hstep : keepBest (some (rank5 b)) hand =
            (List.argAux (fun b c => (rank5 c).strength < (rank5 b).strength) (some b) hand).map rank5 := by
          simp only [keepBest, List.argAux, compare_pos_iff (rank5_full hhand) (rank5_full hb)]
          split_ifs <;> rfl
        rw [Option.map_some, hstep]
        refine ih _ ?_
        intro x hx
        simp only [List.argAux] at hx
        split_ifs at hx
        · obtain rfl := Option.some.inj hx
          exact hhand
        · obtain rfl := Option.some.inj hx
          exact hb
  exact hwalk none nofun

/- The lists that `Best` accepts. -/
def Ranked (cards : List Card) : Prop := 5 ≤ cards.length ∧ cards.length ≤ 7 ∧ cards.Nodup

instance (cards : List Card) : Decidable (Ranked cards) := inferInstanceAs (Decidable (_ ∧ _))

/-- `h` has the strength of some five of the cards, and none is stronger. -/
structure Strongest (cards : List Card) (h : HandRank) : Prop where
  full : h.Full
  attained : ∃ hand, hand.Sublist cards ∧ hand.length = 5 ∧ h = rank5 hand
  upper : ∀ hand, hand.Subperm cards → hand.length = 5 → (rank5 hand).strength ≤ h.strength

theorem best_strongest {cards : List Card} (hr : Ranked cards) :
    ∃ h, best cards = .ok h ∧ Strongest cards h := by
  obtain ⟨h, hbest⟩ := (best_ok_iff cards).mpr hr
  have hfold := foldl_keepBest (combos cards) fun hand hh => (mem_combos.mp hh).2
  have hfive : cards.take 5 ∈ combos cards := by
    refine mem_combos.mpr ⟨List.take_sublist 5 cards, ?_⟩
    rw [List.length_take]
    exact Nat.min_eq_left hr.1
  obtain ⟨hand, hmax⟩ : ∃ hand, (combos cards).argmax (fun hand => (rank5 hand).strength) = some hand := by
    cases hm : (combos cards).argmax fun hand => (rank5 hand).strength with
    | some hand => exact ⟨hand, rfl⟩
    | none =>
      rw [List.argmax_eq_none.mp hm] at hfive
      exact absurd hfive List.not_mem_nil
  obtain ⟨hsub, hlen⟩ := mem_combos.mp (List.argmax_mem hmax)
  refine ⟨h, hbest, ?_⟩
  have hh : h = rank5 hand := by
    rw [hmax] at hfold
    unfold best at hbest
    rw [hfold] at hbest
    split_ifs at hbest
    split at hbest
    · cases hbest
    · exact (Except.ok.inj hbest).symm
  refine ⟨hh ▸ rank5_full hlen, ⟨hand, hsub, hlen, hh⟩, ?_⟩
  rintro x ⟨y, hyx, hy⟩ hx
  rw [hh, ← rank5_perm hyx]
  have hmem : y ∈ combos cards := mem_combos.mpr ⟨hy, hyx.length_eq.trans hx⟩
  exact List.le_of_mem_argmax (f := fun hand => (rank5 hand).strength) hmem hmax

/- More cards, in any order, hold no weaker hand. -/
theorem Strongest.mono {cards cards' : List Card} {h h' : HandRank} (hs : Strongest cards h)
    (hs' : Strongest cards' h') (hsub : cards.Subperm cards') : h.strength ≤ h'.strength := by
  obtain ⟨hand, hhand, hlen, rfl⟩ := hs.attained
  exact hs'.upper hand (hhand.subperm.trans hsub) hlen

/-! ### Best -/

def SameStrength (a b : HandRank) : Prop := a.category = b.category ∧ a.tiebreakers = b.tiebreakers

structure TotalPreorder (rel : HandRank → HandRank → Prop) (dom : HandRank → Prop) : Prop where
  total : ∀ a b, dom a → dom b → rel a b ∨ rel b a
  trans : ∀ a b c, dom a → dom b → dom c → rel a b → rel b c → rel a c

theorem compare_totalPreorder : TotalPreorder (fun a b => 0 ≤ compare a b) HandRank.Full where
  total a b ha hb := by
    rw [compare_nonneg_iff ha hb, compare_nonneg_iff hb ha]
    exact le_total _ _
  trans a b c ha hb hc := by
    rw [compare_nonneg_iff ha hb, compare_nonneg_iff hb hc, compare_nonneg_iff ha hc]
    exact fun hab hbc => hbc.trans hab

/-- What `Best` makes of a list of cards. -/
structure BestOf (cards : List Card) (h : HandRank) : Prop where
  attained : ∃ hand, hand.Sublist cards ∧ hand.length = 5 ∧ SameStrength h (rank5 hand)
  upper : ∀ hand, hand.Subperm cards → hand.length = 5 → 0 ≤ compare h (rank5 hand)
  reordered : ∀ cards', cards'.Perm cards → ∃ h', best cards' = .ok h' ∧ SameStrength h' h
  extended : ∀ cards', cards.Subperm cards' → Ranked cards' → ∃ h', best cards' = .ok h' ∧ 0 ≤ compare h' h

theorem best_is_maximum :
    (∀ cards, Ranked cards → ∃ h, best cards = .ok h ∧ BestOf cards h) ∧
      (∀ cards, ¬ Ranked cards → ∃ err, best cards = .error err) ∧
      TotalPreorder (fun a b => 0 ≤ compare a b) HandRank.Full := by
  refine ⟨?_, ?_, compare_totalPreorder⟩
  · intro cards hr
    obtain ⟨h, hbest, hs⟩ := best_strongest hr
    refine ⟨h, hbest, ?_, ?_, ?_, ?_⟩
    · obtain ⟨hand, hsub, hlen, rfl⟩ := hs.attained
      exact ⟨hand, hsub, hlen, rfl, rfl⟩
    · intro hand hsub hlen
      exact (compare_nonneg_iff hs.full (rank5_full hlen)).mpr (hs.upper hand hsub hlen)
    · intro cards' hp
      have hr' : Ranked cards' := by
        refine ⟨hp.length_eq ▸ hr.1, hp.length_eq ▸ hr.2.1, hp.nodup_iff.mpr hr.2.2⟩
      obtain ⟨h', hbest', hs'⟩ := best_strongest hr'
      have heq : h'.strength = h.strength :=
        le_antisymm (hs'.mono hs hp.subperm) (hs.mono hs' hp.symm.subperm)
      exact ⟨h', hbest', strength_eq_iff.mp heq⟩
    · intro cards' hsub hr'
      obtain ⟨h', hbest', hs'⟩ := best_strongest hr'
      exact ⟨h', hbest', (compare_nonneg_iff hs'.full hs.full).mpr (hs.mono hs' hsub)⟩
  · intro cards hr
    cases hbest : best cards with
    | error err => exact ⟨err, rfl⟩
    | ok h => exact absurd ((best_ok_iff cards).mp ⟨h, hbest⟩) hr

/- Three sixes and two fours with an ace and a king beside them. -/
def sevenCards : List Card := [⟨0, 12⟩, ⟨0, 4⟩, ⟨1, 4⟩, ⟨2, 2⟩, ⟨3, 4⟩, ⟨1, 2⟩, ⟨2, 11⟩]

theorem best_is_maximum_full_house :
    ∃ h, best sevenCards = .ok h ∧ BestOf sevenCards h ∧ h.category = .fullHouse := by
  obtain ⟨h, hbest, hof⟩ := best_is_maximum.1 sevenCards (by decide)
  refine ⟨h, hbest, hof, ?_⟩
  have hcat : (best sevenCards).toOption.map HandRank.category = some .fullHouse := by decide +kernel
  rw [hbest] at hcat
  exact Option.some.inj hcat

end P2Poker.Cards
