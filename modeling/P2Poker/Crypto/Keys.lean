import P2Poker.Crypto.Deck

/-!
# Keys and layers

`GenerateKey` draws below `prime - 1` until it meets a unit other than 0 and 1.
Whoever has such keys can take the layers of a card off in any order.
-/

namespace P2Poker.Crypto.Deck
open P2Poker.Lib

/-! ### Key generation -/

/- What `rand.Int(rand.Reader, phi)` returns. -/
def FromRand (prime : ℤ) (draws : List ℕ) : Prop := ∀ d ∈ draws, (d : ℤ) < prime - 1

/-- A pair that `GenerateKey` is meant to return. -/
structure Key.Proper (k : Key) (prime : ℤ) : Prop where
  one_lt : 1 < k.exponent
  lt : (k.exponent : ℤ) < prime - 1
  coprime : Int.gcd k.exponent (prime - 1) = 1
  mul_eq : (k.exponent : ℤ) * k.inverseExponent ≡ 1 [ZMOD prime - 1]

structure KeysGenerated (prime : ℤ) : Prop where
  accepts : ∃ d : ℕ, (d : ℤ) < prime - 1 ∧ (tryKey (prime - 1).toNat d).isSome = true
  -- whatever was drawn, the next draw can be the last
  ends : ∀ draws, FromRand prime draws →
    ∃ d : ℕ, (d : ℤ) < prime - 1 ∧ ∃ k, generateKey (some prime) (draws ++ [d]) = .key k
  runs : ∀ draws, generateKey (some prime) draws ≠ .panicked
  proper : ∀ draws k, FromRand prime draws → generateKey (some prime) draws = .key k → k.Proper prime

theorem key_proper {prime : ℤ} {draws : List ℕ} {k : Key} (hdraws : FromRand prime draws)
    (h : generateKey (some prime) draws = .key k) : k.Proper prime := by
  obtain ⟨hpos, d, hd, htry⟩ := generateKey_eq_key h
  obtain ⟨hexp, hone, hgcd, hinv⟩ := tryKey_eq_some htry
  have hlt := hdraws d hd
  have hphi : ((prime - 1).toNat : ℤ) = prime - 1 := Int.toNat_of_nonneg hpos.le
  obtain ⟨hmul, _⟩ := modInverse_spec (by omega) hinv
  refine ⟨by omega, by omega, ?_, ?_⟩
  · rw [hexp, ← hphi]
    exact hgcd
  · have hcast := Int.natCast_modEq_iff.mpr hmul
    rwa [hphi, Nat.cast_mul, ← hexp] at hcast

/- The number below the order is its own inverse. -/
theorem tryKey_top {phi : ℕ} (h : 3 ≤ phi) : (tryKey phi (phi - 1)).isSome = true := by
  have hgcd : Nat.gcd (phi - 1) phi = 1 := (Nat.coprime_self_sub_left (by omega)).mpr (Nat.coprime_one_left phi)
  rw [tryKey, if_neg (by omega), if_neg (not_not.mpr hgcd), modInverse, if_pos hgcd]
  rfl

/- Below 3 there is nothing to draw but 0 and 1. -/
theorem tryKey_small {phi d : ℕ} (hd : d < phi) (h : phi < 3) : tryKey phi d = none := by
  rw [tryKey, if_pos (by omega)]

theorem generateKey_ends {prime : ℤ} (hp : 4 ≤ prime) {d : ℕ}
    (hd : (tryKey (prime - 1).toNat d).isSome = true) (draws : List ℕ) :
    ∃ k, generateKey (some prime) (draws ++ [d]) = .key k := by
  obtain ⟨k, hk⟩ := Option.isSome_iff_exists.mp hd
  unfold generateKey
  simp only
  rw [if_neg (by omega), if_neg (by omega), List.findSome?_append]
  cases draws.findSome? (tryKey (prime - 1).toNat) with
  | some k' => exact ⟨k', rfl⟩
  | none =>
    rw [Option.none_or, List.findSome?_cons, hk]
    exact ⟨k, rfl⟩

theorem KeysGenerated.four_le {prime : ℤ} (h : KeysGenerated prime) : 4 ≤ prime := by
  obtain ⟨d, hlt, haccepted⟩ := h.accepts
  by_contra hsmall
  rw [tryKey_small (by omega) (by omega)] at haccepted
  cases haccepted

theorem keys_generated_iff (prime : ℤ) : KeysGenerated prime ↔ 4 ≤ prime := by
  constructor
  · exact KeysGenerated.four_le
  · intro hp
    have htop : (tryKey (prime - 1).toNat ((prime - 1).toNat - 1)).isSome = true := tryKey_top (by omega)
    refine ⟨⟨_, by omega, htop⟩, ?_, ?_, fun _ _ => key_proper⟩
    · intro draws _
      exact ⟨_, by omega, generateKey_ends hp htop draws⟩
    · intro draws h
      unfold generateKey at h
      simp only at h
      rw [if_neg (by omega), if_neg (by omega)] at h
      split at h <;> cases h

theorem keys_generated_seven : generateKey (some 7) [0, 3, 5] = .key ⟨5, 5⟩ ∧ KeysGenerated 7 :=
  ⟨by decide +kernel, (keys_generated_iff 7).mpr (by decide)⟩

/- An empty range, and ranges without a unit to draw. -/
theorem small_moduli_fail : generateKey (some 1) [] = .panicked ∧ generateKey (some 2) [0, 0] = .drawing ∧
    generateKey (some 3) [0, 1, 0, 1] = .drawing ∧
    ¬ KeysGenerated 1 ∧ ¬ KeysGenerated 2 ∧ ¬ KeysGenerated 3 := by
  have hfail : ∀ p : ℤ, p < 4 → ¬ KeysGenerated p := fun p hp h => absurd h.four_le (not_le.mpr hp)
  exact ⟨by decide, by decide, by decide, hfail 1 (by decide), hfail 2 (by decide), hfail 3 (by decide)⟩

/-! ### Layers -/

/- `EncryptDeck` with one key after the other locks every card. -/
theorem encryptDeck_foldl (keys : List Key) (deck : List Bytes) (prime : ℕ) :
    keys.foldl (fun deck k => encryptDeck deck k prime) deck = deck.map ((cipher prime).lock keys) := by
  induction keys generalizing deck with
  | nil => exact (List.map_id deck).symm
  | cons k keys ih =>
    rw [List.foldl_cons, ih, encryptDeck, List.map_map]
    rfl

theorem decryptCard_comm (card : Bytes) (k k' : Key) (p : ℕ) :
    decryptCard (decryptCard card k p) k' p = decryptCard (decryptCard card k' p) k p := by
  simp only [decryptCard, beVal_natBytes, exp_exp]
  rw [Nat.mul_comm]

/- Whatever the modulus and the keys are. -/
theorem strip_perm {p : ℕ} {ks ks' : List Key} (h : ks.Perm ks') (card : Bytes) :
    (cipher p).strip ks card = (cipher p).strip ks' card := by
  refine h.foldl_eq' ?_ card
  intro k _ k' _ v
  exact decryptCard_comm v k k' p

theorem layers_come_off {p : ℕ} (hp : p.Prime) {m : Bytes} (hhead : m.head? ≠ some 0) (hlt : beVal m < p)
    {keys first second : List Key} (hkeys : ∀ k ∈ keys, k.Inverse p) (hfirst : first.Perm keys)
    (hsecond : second.Perm keys) {deck : List Bytes} {i : ℕ} (hi : deck[i]? = some m) :
    ∃ c, (first.foldl (fun deck k => encryptDeck deck k p) deck)[i]? = some c ∧
      second.foldl (fun card k => decryptCard card k p) c = m := by
  refine ⟨(cipher p).lock first m, ?_, ?_⟩
  · rw [encryptDeck_foldl, List.getElem?_map, hi]
    rfl
  · have hall : first.Perm (second ++ []) := by
      rw [List.append_nil]
      exact hfirst.trans hsecond.symm
    exact (cipher_commutes hp).strip_lock hall (fun k hk => hkeys k (hfirst.mem_iff.mp hk)) ⟨hhead, hlt⟩

/- Two keys modulo 7, the card 0 and the top of the range. -/
theorem layers_come_off_seven :
    (∃ c, ([⟨5, 5⟩, ⟨1, 7⟩].foldl (fun deck k => encryptDeck deck k 7) [[], [6]])[0]? = some c ∧
      [⟨1, 7⟩, ⟨5, 5⟩].foldl (fun card k => decryptCard card k 7) c = []) ∧
    ∃ c, ([⟨5, 5⟩, ⟨1, 7⟩].foldl (fun deck k => encryptDeck deck k 7) [[], [6]])[1]? = some c ∧
      [⟨1, 7⟩, ⟨5, 5⟩].foldl (fun card k => decryptCard card k 7) c = [6] := by
  have hkeys : ∀ k ∈ [(⟨5, 5⟩ : Key), ⟨1, 7⟩], k.Inverse 7 := by
    intro k hk
    rcases List.mem_pair.mp hk with rfl | rfl
    · exact ⟨by decide, by decide, by decide⟩
    · exact ⟨by decide, by decide, by decide⟩
  exact ⟨layers_come_off (by decide) (by decide) (by decide) hkeys (.refl _) (.swap ..) rfl,
    layers_come_off (by decide) (by decide) (by decide +kernel) hkeys (.refl _) (.swap ..) rfl⟩

end P2Poker.Crypto.Deck
