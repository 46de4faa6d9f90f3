import P2Poker.Lib.Bytes
import P2Poker.Lib.Layers

/-!
# The deck cipher (internal/crypto/deck/deck.go)

Cards are byte strings read as big-endian numbers and raised to a secret
exponent modulo a public prime. `math/big` is exact: `Exp` is the power's
remainder, `Bytes` writes no leading zeros.
-/

namespace P2Poker.Crypto.Deck
open P2Poker.Lib

structure Key where
  exponent : ℕ
  inverseExponent : ℕ
  deriving DecidableEq

/-! ### Shuffle -/

/-- What `rand.Int` returns for each index of the loop: a number up to the index. -/
abbrev Draws := (i : ℕ) → Fin (i + 1)

section Shuffle
variable {α β : Type}

def swap (deck : List α) (i j : ℕ) : List α :=
  match deck[i]?, deck[j]? with
  | some x, some y => (deck.set i y).set j x
  | _, _ => deck

/- The loop from index `i` down. -/
def shuffleFrom (draws : Draws) : ℕ → List α → List α
  | 0, deck => deck
  | i + 1, deck => shuffleFrom draws i (swap deck (i + 1) (draws (i + 1)))

def shuffle (draws : Draws) (deck : List α) : List α := shuffleFrom draws (deck.length - 1) deck

@[simp] theorem swap_length (deck : List α) (i j : ℕ) : (swap deck i j).length = deck.length := by
  unfold swap
  split <;> simp

theorem swap_map (f : α → β) (deck : List α) (i j : ℕ) :
    swap (deck.map f) i j = (swap deck i j).map f := by
  unfold swap
  simp only [List.getElem?_map]
  cases deck[i]? with
  | none => rfl
  | some x =>
    cases deck[j]? with
    | none => rfl
    | some y => simp [List.map_set]

theorem swap_perm (deck : List α) (i j : ℕ) : (swap deck i j).Perm deck := by
  unfold swap
  split
  · rename_i x y hi hj
    obtain ⟨hil, rfl⟩ := List.getElem?_eq_some_iff.mp hi
    obtain ⟨hjl, rfl⟩ := List.getElem?_eq_some_iff.mp hj
    exact List.set_set_perm hil hjl
  · exact List.Perm.refl _

theorem shuffleFrom_perm (draws : Draws) (i : ℕ) (deck : List α) :
    (shuffleFrom draws i deck).Perm deck := by
  induction i generalizing deck with
  | zero => exact List.Perm.refl _
  | succ i ih => exact (ih _).trans (swap_perm ..)

theorem shuffleFrom_map (f : α → β) (draws : Draws) (i : ℕ) (deck : List α) :
    shuffleFrom draws i (deck.map f) = (shuffleFrom draws i deck).map f := by
  induction i generalizing deck with
  | zero => rfl
  | succ i ih => rw [shuffleFrom, shuffleFrom, swap_map, ih]

theorem shuffle_perm (draws : Draws) (deck : List α) : (shuffle draws deck).Perm deck :=
  shuffleFrom_perm draws _ deck

/-- The swaps depend on the positions only. -/
theorem shuffle_map (f : α → β) (draws : Draws) (deck : List α) :
    shuffle draws (deck.map f) = (shuffle draws deck).map f := by
  rw [shuffle, shuffle, List.length_map, shuffleFrom_map]

end Shuffle

/-! ### Encryption -/

def exp (base exponent modulus : ℕ) : ℕ := base ^ exponent % modulus

def encryptCard (card : Bytes) (key : Key) (prime : ℕ) : Bytes :=
  natBytes (exp (beVal card) key.exponent prime)

def encryptDeck (deck : List Bytes) (key : Key) (prime : ℕ) : List Bytes :=
  deck.map fun card => encryptCard card key prime

def decryptCard (encryptedCard : Bytes) (key : Key) (prime : ℕ) : Bytes :=
  natBytes (exp (beVal encryptedCard) key.inverseExponent prime)

/-! ### Key generation -/

def modInverse (g n : ℕ) : Option ℕ :=
  if Nat.gcd g n = 1 then some (Nat.gcdA g n % n).toNat else none

inductive KeyResult where
  | key (k : Key)
  | error (text : Bytes)
  | panicked
  -- every number drawn so far was rejected
  | drawing
  deriving DecidableEq

/- One pass of the rejection loop. -/
def tryKey (phi k : ℕ) : Option Key :=
  if k ≤ 1 then none
  else if Nat.gcd k phi ≠ 1 then none
  else (modInverse k phi).map fun kInv => ⟨k, kInv⟩

def generateKey (prime : Option ℤ) (draws : List ℕ) : KeyResult :=
  match prime with
  | none => .error (ascii "prime must be set")
  | some p =>
    if p ≤ 0 then .error (ascii "prime must be set")
    -- rand.Int panics on an empty range
    else if p - 1 ≤ 0 then .panicked
    else
      match draws.findSome? (tryKey (p - 1).toNat) with
      | some k => .key k
      | none => .drawing

/-- `GenerateKey(prime)` can return this key. -/
def Generates (prime : ℕ) (k : Key) : Prop :=
  ∃ draws : List ℕ, (∀ d ∈ draws, d < prime - 1) ∧ generateKey (some prime) draws = .key k

theorem modInverse_spec {g n i : ℕ} (hn : 1 < n) (h : modInverse g n = some i) :
    g * i ≡ 1 [MOD n] ∧ 1 ≤ i := by
  unfold modInverse at h
  split_ifs at h with hg
  have hi : (i : ℤ) = Nat.gcdA g n % n := by
    rw [← Option.some.inj h]
    exact Int.toNat_of_nonneg (Int.emod_nonneg _ (by omega))
  have hmod : g * i ≡ 1 [MOD n] := by
    rw [← Int.natCast_modEq_iff, Nat.cast_mul, hi]
    have hbez : (1 : ℤ) = g * Nat.gcdA g n + n * Nat.gcdB g n := by
      rw [← Nat.gcd_eq_gcd_ab, hg]
      rfl
    calc (g : ℤ) * (Nat.gcdA g n % n)
        ≡ g * Nat.gcdA g n [ZMOD n] := (Int.mod_modEq _ _).mul_left _
      _ ≡ g * Nat.gcdA g n + n * Nat.gcdB g n [ZMOD n] := by
        exact (Int.modEq_iff_add_fac.mpr ⟨_, rfl⟩)
      _ = 1 := hbez.symm
  refine ⟨hmod, Nat.pos_of_ne_zero ?_⟩
  rintro rfl
  rw [Nat.mul_zero] at hmod
  have h0 : 0 % n = 1 % n := hmod
  rw [Nat.zero_mod, Nat.mod_eq_of_lt hn] at h0
  omega

/- A draw that is taken, and its inverse. -/
theorem tryKey_eq_some {phi d : ℕ} {k : Key} (h : tryKey phi d = some k) :
    k.exponent = d ∧ 1 < d ∧ Nat.gcd d phi = 1 ∧ modInverse d phi = some k.inverseExponent := by
  unfold tryKey at h
  split_ifs at h with hsmall hgcd
  obtain ⟨i, hi, rfl⟩ := Option.map_eq_some_iff.mp h
  exact ⟨rfl, not_le.mp hsmall, not_not.mp hgcd, hi⟩

theorem generateKey_eq_key {prime : ℤ} {draws : List ℕ} {k : Key}
    (h : generateKey (some prime) draws = .key k) :
    0 < prime - 1 ∧ ∃ d ∈ draws, tryKey (prime - 1).toNat d = some k := by
  unfold generateKey at h
  simp only at h
  split_ifs at h with hset hrange
  refine ⟨not_le.mp hrange, ?_⟩
  split at h
  · rename_i k' hfind
    obtain ⟨d, hd, htry⟩ := List.exists_of_findSome?_eq_some hfind
    rw [← KeyResult.key.inj h]
    exact ⟨d, hd, htry⟩
  · cases h

/-- Exponents that undo each other modulo the order of the group. -/
structure Key.Inverse (k : Key) (prime : ℕ) : Prop where
  exponent_pos : 1 ≤ k.exponent
  inverse_pos : 1 ≤ k.inverseExponent
  mul_eq : k.exponent * k.inverseExponent ≡ 1 [MOD prime - 1]

theorem Generates.inverse {prime : ℕ} {k : Key} (h : Generates prime k) : k.Inverse prime := by
  obtain ⟨draws, hlt, hgen⟩ := h
  obtain ⟨_, d, hd, htry⟩ := generateKey_eq_key hgen
  have hphi : ((prime : ℤ) - 1).toNat = prime - 1 := by omega
  rw [hphi] at htry
  obtain ⟨hexp, hone, _, hinv⟩ := tryKey_eq_some htry
  have hrange : 1 < prime - 1 := hone.trans (hlt d hd)
  obtain ⟨hmul, hpos⟩ := modInverse_spec hrange hinv
  rw [← hexp] at hmul hone
  exact ⟨hone.le, hpos, hmul⟩

/-! ### The layers commute -/

/-- The byte strings `Bytes` writes for the numbers below the prime. -/
def Canonical (prime : ℕ) (b : Bytes) : Prop := b.head? ≠ some 0 ∧ beVal b < prime

def cipher (prime : ℕ) : Cipher Key Bytes where
  enc k v := encryptCard v k prime
  dec k v := decryptCard v k prime

theorem exp_exp (b e f p : ℕ) : exp (exp b e p) f p = exp b (e * f) p := by
  rw [exp, exp, exp, ← Nat.pow_mod, pow_mul]

/-- Exponents count modulo the order of the group. -/
theorem exp_congr {p b m n : ℕ} (hp : p.Prime) (hb : ¬ p ∣ b) (h : m ≡ n [MOD p - 1]) :
    exp b m p = exp b n p := by
  have : Fact p.Prime := ⟨hp⟩
  have hb0 : (b : ZMod p) ≠ 0 := fun h0 => hb ((ZMod.natCast_eq_zero_iff b p).mp h0)
  have hz : ((b ^ m : ℕ) : ZMod p) = ((b ^ n : ℕ) : ZMod p) := by
    rw [Nat.cast_pow, Nat.cast_pow]
    exact pow_eq_pow_of_modEq h (ZMod.pow_card_sub_one_eq_one hb0)
  exact (ZMod.natCast_eq_natCast_iff' _ _ _).mp hz

theorem exp_eq_self {p b n : ℕ} (hp : p.Prime) (hn : 1 ≤ n) (h : n ≡ 1 [MOD p - 1]) (hb : b < p) :
    exp b n p = b := by
  rcases Nat.eq_zero_or_pos b with rfl | hpos
  · rw [exp, zero_pow (by omega), Nat.zero_mod]
  · rw [exp_congr hp (Nat.not_dvd_of_pos_of_lt hpos hb) h, exp, pow_one, Nat.mod_eq_of_lt hb]

theorem canonical_natBytes {p n : ℕ} (h : n < p) : Canonical p (natBytes n) :=
  ⟨natBytes_head n, by rwa [beVal_natBytes]⟩

theorem exp_lt {p : ℕ} (hp : p.Prime) (b e : ℕ) : exp b e p < p := Nat.mod_lt _ hp.pos

theorem cipher_commutes {p : ℕ} (hp : p.Prime) :
    (cipher p).Commutes (fun k => k.Inverse p) (Canonical p) where
  valid_enc _ _ := canonical_natBytes (exp_lt hp _ _)
  dec_enc {k v} hk hv := by
    have hpos : 1 ≤ k.exponent * k.inverseExponent := Nat.mul_pos hk.exponent_pos hk.inverse_pos
    show natBytes (exp (beVal (natBytes _)) _ p) = v
    rw [beVal_natBytes, exp_exp, exp_eq_self hp hpos hk.mul_eq hv.2, natBytes_beVal v hv.1]
  enc_comm {k k' v} _ _ _ := by
    show natBytes (exp (beVal (natBytes _)) _ p) = natBytes (exp (beVal (natBytes _)) _ p)
    rw [beVal_natBytes, beVal_natBytes, exp_exp, exp_exp, Nat.mul_comm]

end P2Poker.Crypto.Deck
