import Mathlib

/-!
# Byte strings, big-endian words and self-delimiting codes

Byte strings are lists of `UInt8`. A word of fixed width is written most
significant byte first; a natural number of any size is written without
leading zero bytes. A code is *prefix free* up to a relation when a code word
followed by anything determines the encoded value (up to the relation) and the
remainder; concatenations of such code words then parse in one way only.
-/

namespace P2Poker.Lib

abbrev Byte := UInt8
abbrev Bytes := List Byte

/-! ### Comparing and sorting byte strings -/

instance lawfulBEq_bytes : @LawfulBEq (List Byte) List.instBEq := inferInstance

instance isTrans_bytes : IsTrans Bytes (· ≤ ·) := inferInstance

instance antisymm_bytes : @Std.Antisymm Bytes (· ≤ ·) := inferInstance

instance total_bytes : @Std.Total Bytes (· ≤ ·) := inferInstance

def ascii (s : String) : Bytes := s.toList.map fun c => UInt8.ofNat c.toNat

/-! ### Big-endian values -/

def beVal (b : Bytes) : ℕ := b.foldl (fun acc x => acc * 256 + x.toNat) 0

def beBytes : ℕ → ℕ → Bytes
  | 0, _ => []
  | w + 1, v => beBytes w (v / 256) ++ [UInt8.ofNat v]

@[simp] theorem beVal_nil : beVal [] = 0 := rfl

theorem beVal_concat (b : Bytes) (x : Byte) : beVal (b ++ [x]) = beVal b * 256 + x.toNat := by
  simp only [beVal, List.foldl_append, List.foldl_cons, List.foldl_nil]

@[simp] theorem beBytes_length (w v : ℕ) : (beBytes w v).length = w := by
  induction w generalizing v with
  | zero => rfl
  | succ w ih => simp only [beBytes, List.length_append, ih, List.length_cons, List.length_nil]

theorem toNat_ofNat_byte (v : ℕ) : (UInt8.ofNat v).toNat = v % 256 := UInt8.toNat_ofNat'

theorem beVal_beBytes (w v : ℕ) : beVal (beBytes w v) = v % 256 ^ w := by
  induction w generalizing v with
  | zero => simp [beBytes, Nat.mod_one]
  | succ w ih =>
    rw [beBytes, beVal_concat, ih, toNat_ofNat_byte, pow_succ', Nat.mod_mul]
    omega

theorem beBytes_inj {w u v : ℕ} (hu : u < 256 ^ w) (hv : v < 256 ^ w)
    (h : beBytes w u = beBytes w v) : u = v := by
  have hval := congrArg beVal h
  rw [beVal_beBytes, beVal_beBytes, Nat.mod_eq_of_lt hu, Nat.mod_eq_of_lt hv] at hval
  exact hval

/-- `binary.BigEndian.PutUint64` on a fresh buffer. -/
def be64 (v : UInt64) : Bytes := beBytes 8 v.toNat

@[simp] theorem be64_length (v : UInt64) : (be64 v).length = 8 := beBytes_length 8 v.toNat

theorem be64_injective : Function.Injective be64 := by
  intro u v h
  have hu := u.toNat_lt
  have hv := v.toNat_lt
  exact UInt64.toNat_inj.mp (beBytes_inj (by omega) (by omega) h)

/-! ### Naturals of any size -/

/-- Big-endian bytes of a natural without leading zeros; zero is the empty string. -/
def natBytes (n : ℕ) : Bytes := ((Nat.digits 256 n).map UInt8.ofNat).reverse

theorem natBytes_zero : natBytes 0 = [] := by simp [natBytes]

theorem natBytes_pos {n : ℕ} (h : 0 < n) :
    natBytes n = natBytes (n / 256) ++ [UInt8.ofNat n] := by
  have hd : Nat.digits 256 n = n % 256 :: Nat.digits 256 (n / 256) :=
    Nat.digits_def' (by norm_num) h
  have hb : UInt8.ofNat (n % 256) = UInt8.ofNat n := by
    apply UInt8.toNat_inj.mp
    rw [toNat_ofNat_byte, toNat_ofNat_byte, Nat.mod_mod]
  rw [natBytes, hd, List.map_cons, List.reverse_cons, hb]
  rfl

@[simp] theorem beVal_natBytes (n : ℕ) : beVal (natBytes n) = n := by
  induction n using Nat.strongRecOn with
  | ind n ih =>
    rcases Nat.eq_zero_or_pos n with rfl | h
    · simp [natBytes_zero]
    · rw [natBytes_pos h, beVal_concat, ih (n / 256) (by omega), toNat_ofNat_byte]
      omega

theorem natBytes_head (n : ℕ) : (natBytes n).head? ≠ some 0 := by
  induction n using Nat.strongRecOn with
  | ind n ih =>
    rcases Nat.eq_zero_or_pos n with rfl | hpos
    · simp [natBytes_zero]
    · rw [natBytes_pos hpos]
      rcases Nat.lt_or_ge n 256 with hlt | hge
      · rw [Nat.div_eq_of_lt hlt, natBytes_zero]
        intro h0
        have hz := congrArg UInt8.toNat (Option.some.inj h0)
        rw [toNat_ofNat_byte, Nat.mod_eq_of_lt hlt] at hz
        exact absurd hz (by simpa using hpos.ne')
      · have hne : natBytes (n / 256) ≠ [] := by
          intro hnil
          have hv := beVal_natBytes (n / 256)
          rw [hnil, beVal_nil] at hv
          omega
        rw [List.head?_append_of_ne_nil _ hne]
        exact ih (n / 256) (by omega)

theorem beVal_pos {b : Bytes} {x : Byte} (hx : b.head? = some x) (h0 : x ≠ 0) : 0 < beVal b := by
  induction b using List.reverseRecOn with
  | nil => simp at hx
  | append_singleton b y ih =>
    rw [beVal_concat]
    cases b with
    | nil =>
      have hy : y = x := by simpa using hx
      have hpos : 0 < x.toNat := by
        rcases Nat.eq_zero_or_pos x.toNat with hz | hz
        · exact absurd (UInt8.toNat_inj.mp hz) h0
        · exact hz
      simp only [beVal_nil, hy]
      omega
    | cons z b =>
      have := ih (by simpa using hx)
      omega

theorem natBytes_beVal (b : Bytes) (h : b.head? ≠ some 0) : natBytes (beVal b) = b := by
  induction b using List.reverseRecOn with
  | nil => exact natBytes_zero
  | append_singleton b x ih =>
    have hx : UInt8.ofNat (beVal b * 256 + x.toNat) = x := by
      apply UInt8.toNat_inj.mp
      rw [toNat_ofNat_byte]
      have := x.toNat_lt
      omega
    have hdiv : (beVal b * 256 + x.toNat) / 256 = beVal b := by
      have := x.toNat_lt
      omega
    have hpos : 0 < beVal (b ++ [x]) := by
      cases hh : (b ++ [x]).head? with
      | none => simp at hh
      | some y => exact beVal_pos hh (fun hy => h (by rw [hh, hy]))
    have hb : b.head? ≠ some 0 := by
      intro hb
      cases b with
      | nil => simp at hb
      | cons z b => exact h (by simpa using hb)
    rw [natBytes_pos hpos, beVal_concat, hdiv, hx, ih hb]

/-! ### Self-delimiting codes -/

/-- `f` is a prefix-free code on `P`, determining its argument up to `R`. -/
def PrefixFree {α : Type*} (P : α → Prop) (R : α → α → Prop) (f : α → Bytes) : Prop :=
  ∀ x y s t, P x → P y → f x ++ s = f y ++ t → R x y ∧ s = t

theorem PrefixFree.flatMap_of_length {α : Type*} {P : α → Prop} {f : α → Bytes}
    (hf : PrefixFree P Eq f) {xs ys : List α} {s t : Bytes} (hx : ∀ x ∈ xs, P x)
    (hy : ∀ y ∈ ys, P y) (hlen : xs.length = ys.length)
    (h : xs.flatMap f ++ s = ys.flatMap f ++ t) : xs = ys ∧ s = t := by
  induction xs generalizing ys with
  | nil =>
    cases ys with
    | nil => exact ⟨rfl, h⟩
    | cons y ys => simp at hlen
  | cons x xs ih =>
    cases ys with
    | nil => simp at hlen
    | cons y ys =>
      simp only [List.flatMap_cons, List.append_assoc] at h
      have ⟨hhead, hrest⟩ :=
        hf x y _ _ (hx x (List.mem_cons_self ..)) (hy y (List.mem_cons_self ..)) h
      have ⟨htail, heq⟩ := ih (fun z hz => hx z (List.mem_cons_of_mem _ hz))
        (fun z hz => hy z (List.mem_cons_of_mem _ hz)) (by simpa using hlen) hrest
      exact ⟨by rw [hhead, htail], heq⟩

theorem lengthField_prefixFree (w : ℕ) :
    PrefixFree (fun b : Bytes => b.length < 256 ^ w) Eq fun b => beBytes w b.length ++ b := by
  intro a b s t ha hb h
  simp only [List.append_assoc] at h
  obtain ⟨hlen, hrest⟩ := List.append_inj h (by simp only [beBytes_length])
  exact List.append_inj hrest (beBytes_inj ha hb hlen)

theorem PrefixFree.flatMap {α : Type*} {P : α → Prop} {R : α → α → Prop} {f : α → Bytes}
    (hf : PrefixFree P R f) {m : ℕ} (hm : ∀ x, P x → m ≤ (f x).length)
    {xs ys : List α} {s t : Bytes} (hx : ∀ x ∈ xs, P x) (hy : ∀ y ∈ ys, P y)
    (hs : s.length < m) (ht : t.length < m) (h : xs.flatMap f ++ s = ys.flatMap f ++ t) :
    List.Forall₂ R xs ys ∧ s = t := by
  induction xs generalizing ys with
  | nil =>
    cases ys with
    | nil => exact ⟨List.Forall₂.nil, by simpa using h⟩
    | cons y ys =>
      have hlen := congrArg List.length h
      have hym := hm y (hy y (List.mem_cons_self ..))
      simp only [List.flatMap_nil, List.flatMap_cons, List.nil_append, List.length_append] at hlen
      omega
  | cons x xs ih =>
    have hxm := hm x (hx x (List.mem_cons_self ..))
    cases ys with
    | nil =>
      have hlen := congrArg List.length h
      simp only [List.flatMap_nil, List.flatMap_cons, List.nil_append, List.length_append] at hlen
      omega
    | cons y ys =>
      simp only [List.flatMap_cons, List.append_assoc] at h
      have ⟨hr, hrest⟩ := hf x y _ _ (hx x (List.mem_cons_self ..)) (hy y (List.mem_cons_self ..)) h
      have ⟨hall, heq⟩ := ih (fun z hz => hx z (List.mem_cons_of_mem _ hz))
        (fun z hz => hy z (List.mem_cons_of_mem _ hz)) hrest
      exact ⟨List.Forall₂.cons hr hall, heq⟩

end P2Poker.Lib
