import Mathlib

/-!
# First match on a cycle

Positions `0, …, n - 1` are arranged on a cycle. `firstFrom n r p` walks once
around it from `r` and returns the first position that satisfies `p`.
-/

namespace P2Poker.Lib

/-- The first of `r, r + 1, …, r + n - 1` (modulo `n`) that satisfies `p`. -/
def firstFrom (n r : ℕ) (p : ℕ → Bool) : Option ℕ :=
  (List.range n).findSome? fun i => if p ((r + i) % n) then some ((r + i) % n) else none

/-- `q` is the first position with `p` met on the cycle when walking from `r`,
`d` steps away. -/
def FirstAt (n r : ℕ) (p : ℕ → Bool) (d q : ℕ) : Prop :=
  d < n ∧ q = (r + d) % n ∧ p q = true ∧ ∀ j < d, p ((r + j) % n) = false

theorem FirstAt.unique {n r d e q q' : ℕ} {p : ℕ → Bool} (h : FirstAt n r p d q)
    (h' : FirstAt n r p e q') : d = e ∧ q = q' := by
  obtain ⟨_, hq, hp, hmin⟩ := h
  obtain ⟨_, hq', hp', hmin'⟩ := h'
  have hde : d = e := by
    rcases Nat.lt_trichotomy d e with hlt | heq | hgt
    · rw [hq, hmin' d hlt] at hp
      cases hp
    · exact heq
    · rw [hq', hmin e hgt] at hp'
      cases hp'
  exact ⟨hde, by rw [hq, hq', hde]⟩

theorem firstFrom_eq_some_iff {n r q : ℕ} {p : ℕ → Bool} :
    firstFrom n r p = some q ↔ ∃ d, FirstAt n r p d q := by
  constructor
  · intro h
    obtain ⟨as, i, bs, hsplit, hi, hpre⟩ := List.findSome?_eq_some_iff.mp h
    have hlen : as.length < n := by
      have := congrArg List.length hsplit
      simp only [List.length_range, List.length_append, List.length_cons] at this
      omega
    have hidx : ∀ j, j < n → (List.range n)[j]? = some j := fun j hj => by simp [hj]
    have hia : i = as.length := by
      have := hidx as.length hlen
      rw [hsplit, List.getElem?_append_right le_rfl] at this
      simpa using this
    have hp : p ((r + i) % n) = true := by
      by_contra hn
      simp [hn] at hi
    refine ⟨i, by omega, ?_, ?_, ?_⟩
    · simpa [hp] using hi.symm
    · have hq : q = (r + i) % n := by simpa [hp] using hi.symm
      rw [hq]
      exact hp
    · intro j hj
      have hmem : j ∈ as := by
        have hget := hidx j (by omega)
        rw [hsplit, List.getElem?_append_left (by omega)] at hget
        exact List.mem_of_getElem? hget
      have hnone := hpre j hmem
      by_contra hn
      simp [Bool.not_eq_false _ ▸ hn] at hnone
  · rintro ⟨d, hd, hq, hp, hmin⟩
    rw [firstFrom, List.findSome?_eq_some_iff]
    refine ⟨List.range d, d, (List.range (n - d - 1)).map (fun i => d + 1 + i), ?_, ?_, ?_⟩
    · have hn : n = d + (1 + (n - d - 1)) := by omega
      conv_lhs => rw [hn, List.range_add, List.range_add]
      simp [Nat.add_assoc]
    · rw [← hq, if_pos hp, hq]
    · intro j hj
      rw [hmin j (List.mem_range.mp hj)]
      rfl

theorem exists_offset {n : ℕ} (r : ℕ) {q : ℕ} (hq : q < n) : ∃ d < n, q = (r + d) % n := by
  refine ⟨(q + n - r % n) % n, Nat.mod_lt _ (by omega), ?_⟩
  have hr : r % n < n := Nat.mod_lt _ (by omega)
  have hsum : r + (q + n - r % n) = q + n * (r / n + 1) := by
    have := Nat.div_add_mod r n
    rw [Nat.mul_add, Nat.mul_one]
    omega
  rw [Nat.add_mod_mod, hsum, Nat.add_mul_mod_self_left, Nat.mod_eq_of_lt hq]

theorem firstFrom_isSome {n r q : ℕ} {p : ℕ → Bool} (hq : q < n) (hp : p q = true) :
    ∃ q', firstFrom n r p = some q' := by
  cases h : firstFrom n r p with
  | some q' => exact ⟨q', rfl⟩
  | none =>
    obtain ⟨d, hd, hoff⟩ := exists_offset r hq
    have hmiss := List.findSome?_eq_none_iff.mp h d (List.mem_range.mpr hd)
    simp [← hoff, hp] at hmiss

theorem FirstAt.lt {n r d q : ℕ} {p : ℕ → Bool} (h : FirstAt n r p d q) : q < n := by
  obtain ⟨hd, hq, _⟩ := h
  rw [hq]
  exact Nat.mod_lt _ (by omega)

theorem FirstAt.drop {n r k d q : ℕ} {p : ℕ → Bool} (h : FirstAt n r p (k + d) q) :
    FirstAt n (r + k) p d q := by
  obtain ⟨hd, hq, hp, hmin⟩ := h
  refine ⟨by omega, by rw [hq, Nat.add_assoc], hp, ?_⟩
  intro j hj
  have := hmin (k + j) (by omega)
  rwa [Nat.add_assoc]

theorem FirstAt.mod_start {n r d q : ℕ} {p : ℕ → Bool} :
    FirstAt n (r % n) p d q ↔ FirstAt n r p d q := by
  simp only [FirstAt, Nat.mod_add_mod]

theorem offset_unique {n r d e : ℕ} (hd : d < n) (he : e < n) (h : (r + d) % n = (r + e) % n) :
    d = e := by
  have hmod : d ≡ e [MOD n] := Nat.ModEq.add_left_cancel' r h
  rwa [Nat.ModEq, Nat.mod_eq_of_lt hd, Nat.mod_eq_of_lt he] at hmod

theorem FirstAt.ne_start {n s d q q' : ℕ} {p : ℕ → Bool} (h : FirstAt n (s + 1) p d q)
    (hs : s < n) (hq' : q' < n) (hne : q' ≠ s) (hp : p q' = true) : q ≠ s := by
  rintro rfl
  obtain ⟨hd, hq, _, hmin⟩ := h
  obtain ⟨e, he, hoff⟩ := exists_offset (q + 1) hq'
  have hback : (q + 1 + (n - 1)) % n = q := by
    rw [show q + 1 + (n - 1) = q + n by omega, Nat.add_mod_right, Nat.mod_eq_of_lt hs]
  have hdn : d = n - 1 := offset_unique hd (by omega) (by rw [← hq, hback])
  have hlt : e < d := by
    rcases Nat.lt_or_ge e d with hlt | hge
    · exact hlt
    · have : e = n - 1 := by omega
      rw [this, hback] at hoff
      exact absurd hoff hne
  have := hmin e hlt
  rw [← hoff, hp] at this
  cases this

/-! ### Counting matches along the walk -/

def ahead (n r : ℕ) (p : ℕ → Bool) (d : ℕ) : ℕ := Nat.count (fun j => p ((r + j) % n) = true) d

theorem ahead_succ (n r : ℕ) (p : ℕ → Bool) (d : ℕ) :
    ahead n r p (d + 1) = (if p (r % n) then 1 else 0) + ahead n (r + 1) p d := by
  unfold ahead
  rw [Nat.count_succ']
  simp only [Nat.add_zero]
  rw [Nat.add_comm]
  congr 2
  funext k
  rw [show r + (k + 1) = r + 1 + k by omega]

theorem ahead_mono {n r : ℕ} {p : ℕ → Bool} {d e : ℕ} (h : d ≤ e) :
    ahead n r p d ≤ ahead n r p e := Nat.count_monotone _ h

theorem ahead_concat (n r : ℕ) (p : ℕ → Bool) (d : ℕ) :
    ahead n r p (d + 1) = ahead n r p d + if p ((r + d) % n) then 1 else 0 := by
  unfold ahead
  rw [Nat.count_succ]

theorem ahead_full (n r : ℕ) (p : ℕ → Bool) :
    ahead n r p n = Nat.count (fun j => p j = true) n := by
  have hper : Function.Periodic (fun j => p (j % n) = true) n := by
    intro j
    simp only [Nat.add_mod_right]
  have hshift := Nat.filter_Ico_card_eq_of_periodic r n (fun j => p (j % n) = true) hper
  have hzero : Nat.count (fun j => p (j % n) = true) n = Nat.count (fun j => p j = true) n := by
    rw [Nat.count_eq_card_filter_range, Nat.count_eq_card_filter_range]
    congr 1
    apply Finset.filter_congr
    intro j hj
    rw [Nat.mod_eq_of_lt (Finset.mem_range.mp hj)]
  rw [← hzero, ← hshift, ahead, Nat.count_eq_card_filter_range]
  symm
  apply Finset.card_bij' (fun j _ => j - r) (fun j _ => r + j)
  · intro j hj
    simp only [Finset.mem_filter, Finset.mem_Ico, Finset.mem_range] at hj ⊢
    rw [show r + (j - r) = j by omega]
    exact ⟨by omega, hj.2⟩
  · intro j hj
    simp only [Finset.mem_filter, Finset.mem_Ico, Finset.mem_range] at hj ⊢
    exact ⟨by omega, hj.2⟩
  · intro j hj
    simp only [Finset.mem_filter, Finset.mem_Ico] at hj
    omega
  · intro j _
    omega

theorem ahead_remove {n r d k : ℕ} {p q : ℕ → Bool} (hk : k < d) (hd : d ≤ n)
    (hp : p ((r + k) % n) = true) (hq : q ((r + k) % n) = false)
    (hsame : ∀ i, i ≠ (r + k) % n → q i = p i) : ahead n r q d + 1 = ahead n r p d := by
  have hbefore : ∀ j ≤ k, ahead n r q j = ahead n r p j := by
    intro j hj
    induction j with
    | zero => rfl
    | succ j ih =>
      have hne : (r + j) % n ≠ (r + k) % n := fun h => by
        have := offset_unique (by omega) (by omega) h
        omega
      rw [ahead_concat, ahead_concat, ih (by omega), hsame _ hne]
  induction d with
  | zero => omega
  | succ d ih =>
    rw [ahead_concat, ahead_concat]
    rcases Nat.lt_or_ge k d with hlt | hge
    · have hne : (r + d) % n ≠ (r + k) % n := fun h => by
        have := offset_unique (by omega) (by omega) h
        omega
      rw [hsame _ hne, ← ih hlt (by omega)]
      omega
    · have hkd : k = d := by omega
      subst hkd
      rw [hbefore k le_rfl, hp, hq]
      simp

end P2Poker.Lib
