import P2Poker.Lib.Decimal

/-!
# Cards (internal/card/card.go)

A card is a suit and a rank; on the wire it is the decimal text of its place in
the deck, counted from 1.
-/

namespace P2Poker.Cards
open P2Poker.Lib

/-- Clubs, diamonds, hearts, spades. -/
abbrev Suit := Fin 4

/-- From the two up to the ace. -/
abbrev Rank := Fin 13

instance neZero_suits : NeZero 4 := ⟨by decide⟩

instance neZero_ranks : NeZero 13 := ⟨by decide⟩

namespace Rank

def two : Rank := 0
def three : Rank := 1
def four : Rank := 2
def five : Rank := 3
def ace : Rank := 12

end Rank

structure Card where
  suit : Suit
  rank : Rank
  deriving DecidableEq, Repr, Inhabited

inductive CardError where
  -- "card: parse %q"
  | parse (s : Bytes)
  -- "card: int %d out of range [0,52)"
  | outOfRange (i : ℤ)
  deriving DecidableEq, Repr

def Card.int (c : Card) : ℕ := c.suit.val * 13 + c.rank.val

def fromInt (i : ℤ) : Except CardError Card :=
  if i < 0 ∨ 52 ≤ i then .error (.outOfRange i)
  else .ok ⟨Fin.ofNat 4 (i.toNat / 13), Fin.ofNat 13 (i.toNat % 13)⟩

/- The digits of an integer text, without its sign. -/
def atoiDigits (s : Bytes) : Option ℕ :=
  if s ≠ [] ∧ s.all isDigit = true then some (decVal s) else none

def atoiSigned : Bytes → Option ℤ
  | 43 :: rest => (atoiDigits rest).map Int.ofNat
  | 45 :: rest => (atoiDigits rest).map fun n => -Int.ofNat n
  | s => (atoiDigits s).map Int.ofNat

/-- `strconv.Atoi` on 64-bit integers: an optional sign and at least one digit. -/
def atoi (s : Bytes) : Option ℤ := (atoiSigned s).filter fun i => -2 ^ 63 ≤ i ∧ i < 2 ^ 63

def parseDeckString (s : Bytes) : Except CardError Card :=
  match atoi s with
  | none => .error (.parse s)
  -- the subtraction wraps at the least integer
  | some i => fromInt (Int.bmod (i - 1) (2 ^ 64))

def Card.deckString (c : Card) : Bytes := decimal (c.int + 1)

theorem Card.int_lt (c : Card) : c.int < 52 := by
  have hs := c.suit.isLt
  have hr := c.rank.isLt
  unfold Card.int
  omega

theorem Card.int_injective : Function.Injective Card.int := by
  rintro ⟨s, r⟩ ⟨s', r'⟩ h
  have hr := r.isLt
  have hr' := r'.isLt
  simp only [Card.int] at h
  have hs : s = s' := Fin.ext (by omega)
  have hrr : r = r' := Fin.ext (by omega)
  rw [hs, hrr]

theorem fromInt_ok {i : ℤ} {c : Card} (h : fromInt i = .ok c) : (c.int : ℤ) = i := by
  unfold fromInt at h
  split_ifs at h with hi
  obtain rfl := Except.ok.inj h
  simp only [Card.int, Fin.ofNat]
  omega

theorem fromInt_of_lt {m : ℕ} (h : m < 52) : ∃ c, fromInt m = .ok c ∧ c.int = m := by
  have hok : ∃ c, fromInt (m : ℤ) = .ok c := by
    unfold fromInt
    rw [if_neg (by omega)]
    exact ⟨_, rfl⟩
  obtain ⟨c, hc⟩ := hok
  have := fromInt_ok hc
  exact ⟨c, hc, by omega⟩

theorem atoiDigits_eq_some {s : Bytes} {n : ℕ} :
    atoiDigits s = some n ↔ s ≠ [] ∧ (∀ b ∈ s, isDigit b = true) ∧ decVal s = n := by
  unfold atoiDigits
  split_ifs with h
  · rw [Option.some.injEq]
    exact ⟨fun hn => ⟨h.1, List.all_eq_true.mp h.2, hn⟩, fun hn => hn.2.2⟩
  · constructor
    · intro hn
      cases hn
    · intro hn
      exact absurd ⟨hn.1, List.all_eq_true.mpr hn.2.1⟩ h

theorem atoiDigits_decimal (m : ℕ) : atoiDigits (decimal m) = some m :=
  atoiDigits_eq_some.mpr ⟨decimal_ne_nil m, fun _ hb => isDigit_of_mem_decimal hb, decVal_decimal m⟩

theorem atoiSigned_decimal (m : ℕ) : atoiSigned (decimal m) = some (m : ℤ) := by
  unfold atoiSigned
  split
  · rename_i heq
    exact absurd heq (decimal_ne_cons m rfl _)
  · rename_i heq
    exact absurd heq (decimal_ne_cons m rfl _)
  · rw [atoiDigits_decimal]
    rfl

theorem atoi_decimal {m : ℕ} (h : m < 2 ^ 63) : atoi (decimal m) = some (m : ℤ) := by
  rw [atoi, atoiSigned_decimal, Option.filter_some, if_pos]
  exact decide_eq_true (by omega)

/-- The text of a deck number is read back as its card. -/
theorem parse_decimal {m : ℕ} (h : m < 52) : ∃ c, parseDeckString (decimal (m + 1)) = .ok c ∧ c.int = m := by
  obtain ⟨c, hc, hm⟩ := fromInt_of_lt h
  refine ⟨c, ?_, hm⟩
  have hbmod : Int.bmod (((m + 1 : ℕ) : ℤ) - 1) (2 ^ 64) = m := by
    rw [Int.bmod_eq_of_le (by omega) (by omega)]
    omega
  rw [parseDeckString, atoi_decimal (by omega)]
  dsimp only
  rw [hbmod, hc]

/-! ### The accepted texts -/

theorem parseDeckString_ok_iff {s : Bytes} {c : Card} :
    parseDeckString s = .ok c ↔ atoiSigned s = some ((c.int : ℤ) + 1) := by
  have hc := c.int_lt
  constructor
  · intro h
    unfold parseDeckString at h
    split at h
    · cases h
    · rename_i i hi
      obtain ⟨hs, hrange⟩ := Option.filter_eq_some_iff.mp hi
      have hlow := of_decide_eq_true hrange
      have hint := fromInt_ok h
      rw [hs, Option.some.injEq]
      -- at the least integer the subtraction wraps to the greatest, which is no card
      rcases lt_or_ge (i - 1) (-2 ^ 63) with hwrap | hplain
      · have hmin : i = -2 ^ 63 := by omega
        rw [hmin] at hint
        have hval : Int.bmod (-2 ^ 63 - 1) (2 ^ 64) = 2 ^ 63 - 1 := by decide
        omega
      · rw [Int.bmod_eq_of_le (by omega) (by omega)] at hint
        omega
  · intro h
    have hatoi : atoi s = some ((c.int : ℤ) + 1) :=
      Option.filter_eq_some_iff.mpr ⟨h, decide_eq_true (by omega)⟩
    rw [parseDeckString, hatoi]
    dsimp only
    rw [Int.bmod_eq_of_le (by omega) (by omega), Int.add_sub_cancel]
    obtain ⟨c', hc', hint⟩ := fromInt_of_lt hc
    rw [hc', Card.int_injective hint]

theorem atoiDigits_sign {b : Byte} (h : isDigit b = false) (rest : Bytes) : atoiDigits (b :: rest) = none := by
  rw [atoiDigits, if_neg]
  intro hall
  simp [h] at hall

theorem map_ofNat_eq_succ {o : Option ℕ} {m : ℕ} :
    o.map Int.ofNat = some ((m : ℤ) + 1) ↔ o = some (m + 1) := by
  have hcast : ((m : ℤ) + 1) = Int.ofNat (m + 1) := by simp
  rw [hcast, ← Option.map_some]
  exact (Option.map_injective fun _ _ => Int.ofNat.inj).eq_iff

/- A positive value is read off the digits, after a plus sign or from the start. -/
theorem atoiSigned_eq_succ {s : Bytes} {m : ℕ} : atoiSigned s = some ((m : ℤ) + 1) ↔
    (s.head? = some 43 ∧ atoiDigits s.tail = some (m + 1)) ∨ atoiDigits s = some (m + 1) := by
  unfold atoiSigned
  split
  · rw [atoiDigits_sign (by rfl), map_ofNat_eq_succ]
    simp
  · rw [atoiDigits_sign (by rfl), Option.map_eq_some_iff]
    constructor
    · rintro ⟨n, -, h⟩
      rw [Int.ofNat_eq_natCast] at h
      omega
    · simp
  · rename_i hplus _
    have hhead : s.head? ≠ some 43 := by
      intro h
      obtain ⟨rest, rfl⟩ := List.head?_eq_some_iff.mp h
      exact hplus rest rfl
    rw [map_ofNat_eq_succ]
    simp only [hhead, false_and, false_or]

theorem decVal_zero_cons (s : Bytes) : decVal (48 :: s) = decVal s := rfl

/- A positive number after a zero: the zero is dropped. -/
theorem atoiDigits_zero_cons {s : Bytes} {n : ℕ} :
    atoiDigits (48 :: s) = some (n + 1) ↔ atoiDigits s = some (n + 1) := by
  rw [atoiDigits_eq_some, atoiDigits_eq_some, decVal_zero_cons]
  constructor
  · rintro ⟨-, hdigits, hval⟩
    refine ⟨?_, fun b hb => hdigits b (List.mem_cons_of_mem _ hb), hval⟩
    rintro rfl
    cases hval
  · rintro ⟨-, hdigits, hval⟩
    refine ⟨List.cons_ne_nil _ _, ?_, hval⟩
    intro b hb
    rcases List.mem_cons.mp hb with rfl | hb
    · rfl
    · exact hdigits b hb

/-- What is accepted: the text of a card, or a padded one. -/
theorem parseDeckString_cases {s : Bytes} {c : Card} :
    parseDeckString s = .ok c ↔ s = c.deckString ∨
      ((s.head? = some 43 ∨ s.head? = some 48) ∧ atoiDigits s.tail = some (c.int + 1)) := by
  rw [parseDeckString_ok_iff, atoiSigned_eq_succ]
  constructor
  · rintro (⟨hplus, hn⟩ | hn)
    · exact Or.inr ⟨Or.inl hplus, hn⟩
    · by_cases hzero : s.head? = some 48
      · obtain ⟨rest, rfl⟩ := List.head?_eq_some_iff.mp hzero
        exact Or.inr ⟨Or.inr hzero, atoiDigits_zero_cons.mp hn⟩
      · obtain ⟨hne, hdigits, hval⟩ := atoiDigits_eq_some.mp hn
        left
        rw [Card.deckString, ← hval, decimal_decVal hne hdigits hzero]
  · rintro (rfl | ⟨hplus | hzero, hn⟩)
    · exact Or.inr (atoiDigits_decimal _)
    · exact Or.inl ⟨hplus, hn⟩
    · obtain ⟨rest, rfl⟩ := List.head?_eq_some_iff.mp hzero
      exact Or.inr (atoiDigits_zero_cons.mpr hn)

/- The text of a card starts with neither a sign nor a zero. -/
theorem Card.deckString_head (c : Card) : c.deckString.head? ≠ some 43 ∧ c.deckString.head? ≠ some 48 := by
  constructor
  · intro h
    obtain ⟨rest, hrest⟩ := List.head?_eq_some_iff.mp h
    exact decimal_ne_cons _ rfl _ hrest
  · exact decimal_head_ne_zero (Nat.succ_pos _)

/-- A deck number written with a plus sign or with a leading zero. -/
def Padded (s : Bytes) : Prop :=
  (s.head? = some 43 ∨ s.head? = some 48) ∧ ∃ n ∈ atoiDigits s.tail, 1 ≤ n ∧ n ≤ 52

/-- The text is accepted just when it is the text of a card, and is then the text of the card it gives. -/
def Canonical (s : Bytes) : Prop :=
  ((∃ c, parseDeckString s = .ok c) ↔ ∃ c : Card, s = c.deckString) ∧
    ∀ c, parseDeckString s = .ok c → c.deckString = s

theorem not_padded_deckString (c : Card) : ¬ Padded c.deckString := by
  rintro ⟨hhead | hhead, -⟩
  · exact c.deckString_head.1 hhead
  · exact c.deckString_head.2 hhead

/- A padded text is read as the card whose number it spells. -/
theorem Padded.parse {s : Bytes} (h : Padded s) : ∃ c, parseDeckString s = .ok c := by
  obtain ⟨hhead, n, hn, hlow, hhigh⟩ := h
  obtain ⟨c, -, hint⟩ := fromInt_of_lt (m := n - 1) (by omega)
  refine ⟨c, parseDeckString_cases.mpr (Or.inr ⟨hhead, ?_⟩)⟩
  rw [hint, Nat.sub_add_cancel hlow]
  exact hn

theorem deckString_of_parse {s : Bytes} (hs : ¬ Padded s) {c : Card} (h : parseDeckString s = .ok c) :
    s = c.deckString := by
  have hc := c.int_lt
  rcases parseDeckString_cases.mp h with heq | ⟨hhead, hn⟩
  · exact heq
  · exact absurd ⟨hhead, c.int + 1, hn, by omega, by omega⟩ hs

/-- The wire text of a card is canonical but for padded numbers. -/
theorem canonical_iff_not_padded (s : Bytes) : (Canonical s ↔ ¬ Padded s) ∧
    ∀ t c, ¬ Padded s → ¬ Padded t → parseDeckString s = .ok c → parseDeckString t = .ok c → s = t := by
  refine ⟨⟨?_, ?_⟩, ?_⟩
  · rintro ⟨hiff, -⟩ hpad
    obtain ⟨c, rfl⟩ := hiff.mp hpad.parse
    exact not_padded_deckString c hpad
  · intro hs
    refine ⟨⟨?_, ?_⟩, fun c hc => (deckString_of_parse hs hc).symm⟩
    · rintro ⟨c, hc⟩
      exact ⟨c, deckString_of_parse hs hc⟩
    · rintro ⟨c, hc⟩
      exact ⟨c, parseDeckString_cases.mpr (Or.inl hc)⟩
  · intro t c hs ht hsc htc
    rw [deckString_of_parse hs hsc, deckString_of_parse ht htc]

/- "+5" and "05" are the card of "5". -/
theorem not_canonical_plus_five : ¬ Canonical (ascii "+5") ∧ ¬ Canonical (ascii "05") ∧
    parseDeckString (ascii "+5") = .ok ⟨0, 4⟩ ∧ parseDeckString (ascii "05") = .ok ⟨0, 4⟩ ∧
    parseDeckString (ascii "5") = .ok ⟨0, 4⟩ := by
  have hplus : parseDeckString (ascii "+5") = .ok ⟨0, 4⟩ := by rfl
  have hzero : parseDeckString (ascii "05") = .ok ⟨0, 4⟩ := by rfl
  refine ⟨fun h => ?_, fun h => ?_, hplus, hzero, by rfl⟩
  · exact absurd (h.2 _ hplus) (by decide +kernel)
  · exact absurd (h.2 _ hzero) (by decide +kernel)

end P2Poker.Cards
