import P2Poker.Lib.Bytes

/-!
# Decimal texts

The `%d` rendering of a natural number, and reading it back off the front of a
byte string that goes on with anything but a digit.
-/

namespace P2Poker.Lib

def digitByte (d : ℕ) : Byte := UInt8.ofNat (48 + d)

def isDigit (b : Byte) : Bool := 48 ≤ b.toNat && b.toNat ≤ 57

def decimal (n : ℕ) : Bytes :=
  if n = 0 then [digitByte 0] else ((Nat.digits 10 n).map digitByte).reverse

/-- Value of a string of digits. -/
def decVal (b : Bytes) : ℕ := b.foldl (fun acc x => acc * 10 + (x.toNat - 48)) 0

theorem digitByte_toNat {d : ℕ} (h : d < 10) : (digitByte d).toNat = 48 + d := by
  rw [digitByte, toNat_ofNat_byte, Nat.mod_eq_of_lt (by omega)]

theorem isDigit_digitByte {d : ℕ} (h : d < 10) : isDigit (digitByte d) = true := by
  simp only [isDigit, digitByte_toNat h, Bool.and_eq_true, decide_eq_true_eq]
  omega

theorem exists_digit {b : Byte} (h : isDigit b = true) : ∃ d < 10, b = digitByte d := by
  simp only [isDigit, Bool.and_eq_true, decide_eq_true_eq] at h
  refine ⟨b.toNat - 48, by omega, UInt8.toNat_inj.mp ?_⟩
  rw [digitByte_toNat (by omega)]
  omega

theorem decimal_small {n : ℕ} (h : n < 10) : decimal n = [digitByte n] := by
  rcases Nat.eq_zero_or_pos n with rfl | hp
  · rfl
  · rw [decimal, if_neg (by omega), Nat.digits_of_lt 10 n (by omega) h]
    rfl

theorem decimal_large {n : ℕ} (h : 10 ≤ n) :
    decimal n = decimal (n / 10) ++ [digitByte (n % 10)] := by
  rw [decimal, if_neg (by omega), decimal, if_neg (by omega), Nat.digits_def' (by omega) (by omega),
    List.map_cons, List.reverse_cons]

theorem decVal_concat (b : Bytes) (x : Byte) : decVal (b ++ [x]) = decVal b * 10 + (x.toNat - 48) := by
  simp only [decVal, List.foldl_append, List.foldl_cons, List.foldl_nil]

theorem decVal_decimal (n : ℕ) : decVal (decimal n) = n := by
  induction n using Nat.strongRecOn with
  | ind n ih =>
    rcases Nat.lt_or_ge n 10 with h | h
    · simp [decimal_small h, decVal, digitByte_toNat h]
    · rw [decimal_large h, decVal_concat, ih (n / 10) (by omega), digitByte_toNat (by omega)]
      omega

theorem decimal_injective : Function.Injective decimal := by
  intro m n h
  have hv := congrArg decVal h
  rwa [decVal_decimal, decVal_decimal] at hv

theorem isDigit_of_mem_decimal {n : ℕ} {b : Byte} (hb : b ∈ decimal n) : isDigit b = true := by
  induction n using Nat.strongRecOn with
  | ind n ih =>
    rcases Nat.lt_or_ge n 10 with h | h
    · rw [decimal_small h, List.mem_singleton] at hb
      rw [hb]
      exact isDigit_digitByte h
    · rw [decimal_large h, List.mem_append, List.mem_singleton] at hb
      rcases hb with hb | rfl
      · exact ih (n / 10) (by omega) hb
      · exact isDigit_digitByte (by omega)

theorem decimal_ne_nil (n : ℕ) : decimal n ≠ [] := by
  rcases Nat.lt_or_ge n 10 with h | h
  · rw [decimal_small h]
    exact List.cons_ne_nil _ _
  · rw [decimal_large h]
    exact List.append_ne_nil_of_right_ne_nil _ (List.cons_ne_nil _ _)

theorem decimal_head_ne_zero {n : ℕ} (hn : 0 < n) : (decimal n).head? ≠ some (digitByte 0) := by
  induction n using Nat.strongRecOn with
  | ind n ih =>
    rcases Nat.lt_or_ge n 10 with h | h
    · rw [decimal_small h, List.head?_cons]
      intro heq
      have hbyte := congrArg UInt8.toNat (Option.some.inj heq)
      rw [digitByte_toNat h, digitByte_toNat (by omega)] at hbyte
      omega
    · rw [decimal_large h, List.head?_append_of_ne_nil _ (decimal_ne_nil _)]
      exact ih (n / 10) (by omega) (by omega)

/-- A string of digits is the text of its value, unless it starts with a zero. -/
theorem decimal_decVal {s : Bytes} (hne : s ≠ []) (hdigits : ∀ b ∈ s, isDigit b = true)
    (hzero : s.head? ≠ some (digitByte 0)) : decimal (decVal s) = s := by
  induction s using List.reverseRecOn with
  | nil => exact absurd rfl hne
  | append_singleton t x ih =>
    obtain ⟨d, hd, rfl⟩ := exists_digit (hdigits x (by simp))
    rw [decVal_concat, digitByte_toNat hd, Nat.add_sub_cancel_left]
    rcases List.eq_nil_or_concat' t with rfl | ⟨t', y, ht⟩
    · rw [decVal, List.foldl_nil, Nat.zero_mul, Nat.zero_add, decimal_small hd, List.nil_append]
    · have htne : t ≠ [] := by
        rw [ht]
        exact List.append_ne_nil_of_right_ne_nil _ (List.cons_ne_nil _ _)
      have hthead : t.head? ≠ some (digitByte 0) := by
        rwa [List.head?_append_of_ne_nil _ htne] at hzero
      have htdec := ih htne (fun b hb => hdigits b (List.mem_append_left _ hb)) hthead
      have hpos : decVal t ≠ 0 := by
        intro h0
        rw [h0] at htdec
        exact hthead (by rw [← htdec]; rfl)
      rw [decimal_large (by omega)]
      have hdiv : (decVal t * 10 + d) / 10 = decVal t := by omega
      have hmod : (decVal t * 10 + d) % 10 = d := by omega
      rw [hdiv, hmod, htdec]

theorem decimal_ne_cons (n : ℕ) {b : Byte} (hb : isDigit b = false) (rest : Bytes) : decimal n ≠ b :: rest := by
  intro h
  have hdigit := isDigit_of_mem_decimal (n := n) (b := b) (by rw [h]; exact List.mem_cons_self ..)
  rw [hdigit] at hb
  cases hb

/-- The text does not go on with a digit. -/
def NoDigit (s : Bytes) : Prop := ∀ b ∈ s.head?, isDigit b = false

theorem noDigit_cons {b : Byte} {s : Bytes} (h : isDigit b = false) : NoDigit (b :: s) := by
  simpa [NoDigit] using h

theorem takeWhile_decimal_append (n : ℕ) {s : Bytes} (hs : NoDigit s) :
    (decimal n ++ s).takeWhile isDigit = decimal n := by
  rw [List.takeWhile_append_of_pos fun b hb => isDigit_of_mem_decimal hb]
  cases s with
  | nil => simp
  | cons b s =>
    have hb : isDigit b = false := hs b rfl
    simp [hb]

/-- A number is read off the front as far as the digits go. -/
theorem decimal_append_inj {m n : ℕ} {s t : Bytes} (hs : NoDigit s) (ht : NoDigit t)
    (h : decimal m ++ s = decimal n ++ t) : m = n ∧ s = t := by
  have hw := congrArg (List.takeWhile isDigit) h
  rw [takeWhile_decimal_append m hs, takeWhile_decimal_append n ht] at hw
  have hmn := decimal_injective hw
  subst hmn
  exact ⟨rfl, List.append_cancel_left h⟩

end P2Poker.Lib
