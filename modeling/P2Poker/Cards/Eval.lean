import P2Poker.Cards.Card

/-!
# Hand strength (internal/card/eval.go)

A five-card hand is ranked by its category and up to five ranks that break ties;
`best` takes the strongest of all five-card choices.
-/

namespace P2Poker.Cards
open P2Poker.Lib

inductive Category where
  | highCard
  | onePair
  | twoPair
  | threeOfAKind
  | straight
  | flush
  | fullHouse
  | fourOfAKind
  | straightFlush
  deriving DecidableEq, Repr

/- The constants in their order. -/
def Category.toNat : Category → ℕ
  | .highCard => 0
  | .onePair => 1
  | .twoPair => 2
  | .threeOfAKind => 3
  | .straight => 4
  | .flush => 5
  | .fullHouse => 6
  | .fourOfAKind => 7
  | .straightFlush => 8

/-- The tiebreakers are five ranks, zero where a category has fewer; `best` is
the hand in display order. -/
structure HandRank where
  category : Category
  tiebreakers : List Rank
  best : List Card
  deriving DecidableEq, Repr

/- The first difference decides. -/
def compareRanks : List Rank → List Rank → ℤ
  | a :: as, b :: bs => if a ≠ b then (if b < a then 1 else -1) else compareRanks as bs
  | _, _ => 0

def compare (a b : HandRank) : ℤ :=
  if a.category ≠ b.category then (if b.category.toNat < a.category.toNat then 1 else -1)
  else compareRanks a.tiebreakers b.tiebreakers

/-! ### Five cards -/

structure RankGroup where
  rank : Rank
  count : ℕ
  deriving DecidableEq, Repr

/- `sort.Slice` is an insertion sort on so few cards, so it keeps equal ranks in order. -/
def sortByRank (hand : List Card) : List Card :=
  hand.insertionSort fun c d => d.rank ≤ c.rank

def groupByRank (sorted : List Card) : List RankGroup :=
  let ranks := sorted.map Card.rank
  (ranks.dedup.map fun r => ⟨r, ranks.count r⟩).insertionSort fun g h =>
    h.count < g.count ∨ (g.count = h.count ∧ h.rank ≤ g.rank)

/-- Five ranks in descending order; the wheel counts as five high. -/
def detectStraight (r : List Rank) : Option Rank :=
  if r = [.ace, .five, .four, .three, .two] then some .five
  else if (r.zip r.tail).all (fun p => p.1.val = p.2.val + 1) then r.head? else none

def arrangeByGroups (sorted : List Card) (groups : List RankGroup) : List Card :=
  groups.flatMap fun g => sorted.filter fun c => c.rank = g.rank

def arrangeStraight (sorted : List Card) (high : Rank) : List Card :=
  if high ≠ .five then sorted else (sorted.filter fun c => c.rank ≠ .ace) ++ sorted.take 1

def pad (ranks : List Rank) : List Rank := ranks ++ List.replicate (5 - ranks.length) 0

def isFlush (sorted : List Card) : Bool := (sorted.zip sorted.tail).all fun p => p.1.suit = p.2.suit

def rank5 (hand : List Card) : HandRank :=
  let sorted := sortByRank hand
  let ranks := sorted.map Card.rank
  let flush := isFlush sorted
  let straight := detectStraight ranks
  let groups := groupByRank sorted
  let counts := groups.map RankGroup.count
  let byGroups (category : Category) (k : ℕ) : HandRank :=
    ⟨category, pad ((groups.take k).map RankGroup.rank), arrangeByGroups sorted groups⟩
  match straight, flush with
  | some high, true => ⟨.straightFlush, pad [high], arrangeStraight sorted high⟩
  | _, _ =>
    if counts.head? = some 4 then byGroups .fourOfAKind 2
    else if counts.head? = some 3 ∧ counts[1]? = some 2 then byGroups .fullHouse 2
    else if flush then ⟨.flush, ranks, sorted⟩
    else
      match straight with
      | some high => ⟨.straight, pad [high], arrangeStraight sorted high⟩
      | none =>
        if counts.head? = some 3 then byGroups .threeOfAKind 3
        else if counts.head? = some 2 ∧ counts[1]? = some 2 then byGroups .twoPair 3
        else if counts.head? = some 2 then byGroups .onePair 4
        else ⟨.highCard, ranks, sorted⟩

/-! ### Five to seven cards -/

inductive BestError where
  -- "card: Best needs at least 5 cards, got %d"
  | tooFew (n : ℕ)
  -- "card: Best supports at most 7 cards, got %d"
  | tooMany (n : ℕ)
  -- "card: duplicate card %s"
  | duplicate (c : Card)
  deriving DecidableEq, Repr

def firstDuplicateFrom : List Card → List Card → Option Card
  | _, [] => none
  | seen, c :: cards => if c ∈ seen then some c else firstDuplicateFrom (c :: seen) cards

def firstDuplicate (cards : List Card) : Option Card := firstDuplicateFrom [] cards

def popcount (x : ℕ) : ℕ := (Nat.digits 2 x).sum

/- The cards whose index is a bit of the mask. -/
def choose (cards : List Card) (mask : ℕ) : List Card :=
  ((List.range cards.length).filter fun k => mask.testBit k).filterMap fun k => cards[k]?

/- The hands of five in the order of their masks. -/
def combos (cards : List Card) : List (List Card) :=
  ((List.range (2 ^ cards.length)).filter fun mask => popcount mask = 5).map (choose cards)

def keepBest (best : Option HandRank) (hand : List Card) : Option HandRank :=
  let r := rank5 hand
  match best with
  | none => some r
  | some b => if 0 < compare r b then some r else some b

def best (cards : List Card) : Except BestError HandRank :=
  if cards.length < 5 then .error (.tooFew cards.length)
  else if 7 < cards.length then .error (.tooMany cards.length)
  else
    match firstDuplicate cards with
    | some c => .error (.duplicate c)
    | none => .ok (((combos cards).foldl keepBest none).getD ⟨.highCard, pad [], []⟩)

theorem firstDuplicateFrom_eq_none (seen cards : List Card) :
    firstDuplicateFrom seen cards = none ↔ cards.Nodup ∧ ∀ c ∈ cards, c ∉ seen := by
  induction cards generalizing seen with
  | nil => simp [firstDuplicateFrom]
  | cons c cards ih =>
    rw [firstDuplicateFrom]
    split_ifs with hc
    · simp [hc]
    · rw [ih, List.nodup_cons]
      constructor
      · rintro ⟨hnd, hall⟩
        refine ⟨⟨fun hmem => hall c hmem (List.mem_cons_self ..), hnd⟩, ?_⟩
        rintro d (_ | ⟨_, hd⟩)
        · exact hc
        · exact fun hseen => hall d hd (List.mem_cons_of_mem _ hseen)
      · rintro ⟨⟨hnot, hnd⟩, hall⟩
        refine ⟨hnd, ?_⟩
        rintro d hd (_ | ⟨_, hseen⟩)
        · exact hnot hd
        · exact hall d (List.mem_cons_of_mem _ hd) hseen

/-- Hands of five to seven cards without repetition are ranked, and no others. -/
theorem best_ok_iff (cards : List Card) :
    (∃ h, best cards = .ok h) ↔ 5 ≤ cards.length ∧ cards.length ≤ 7 ∧ cards.Nodup := by
  have hdup : firstDuplicate cards = none ↔ cards.Nodup := by
    rw [firstDuplicate, firstDuplicateFrom_eq_none]
    simp
  rw [← hdup]
  unfold best
  split_ifs with h5 h7
  · simp only [exists_false, false_iff]
    omega
  · simp only [exists_false, false_iff]
    omega
  · cases hd : firstDuplicate cards with
    | some c => simp
    | none =>
      simp only [and_true, Except.ok.injEq, exists_eq', true_iff]
      omega

end P2Poker.Cards
