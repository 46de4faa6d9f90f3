import P2Poker.Crypto.Deck

/-!
# The law of the shuffle

The swaps of `Shuffle` compose to a permutation of the positions. Its value at
the top index is the draw made there, and the swaps below leave that index
alone, so the draws can be read back one by one.
-/

namespace P2Poker.Crypto.Deck

/- The swaps from index `i` down, as a permutation of all positions. -/
def transpositions (draws : Draws) : ℕ → Equiv.Perm ℕ
  | 0 => 1
  | i + 1 => Equiv.swap (i + 1) (draws (i + 1)) * transpositions draws i

theorem draw_le (draws : Draws) (i : ℕ) : (draws i : ℕ) ≤ i := Nat.lt_succ_iff.mp (draws i).isLt

theorem transpositions_above (draws : Draws) {i k : ℕ} (h : i < k) : transpositions draws i k = k := by
  induction i with
  | zero => rfl
  | succ i ih =>
    have hdraw := draw_le draws (i + 1)
    rw [transpositions, Equiv.Perm.mul_apply, ih (by omega)]
    exact Equiv.swap_apply_of_ne_of_ne (by omega) (by omega)

theorem transpositions_self (draws : Draws) (i : ℕ) : transpositions draws i i = draws i := by
  cases i with
  | zero =>
    have hdraw := draw_le draws 0
    rw [transpositions, Equiv.Perm.one_apply]
    omega
  | succ i =>
    rw [transpositions, Equiv.Perm.mul_apply, transpositions_above draws (Nat.lt_succ_self i)]
    exact Equiv.swap_apply_left _ _

theorem transpositions_le (draws : Draws) {i k : ℕ} (h : k ≤ i) : transpositions draws i k ≤ i := by
  by_contra hlt
  have hfix := transpositions_above draws (not_le.mp hlt)
  have heq := (transpositions draws i).injective hfix
  omega

theorem transpositions_fix (draws : Draws) {m k : ℕ} (h : m ≤ k) : transpositions draws (m - 1) k = k := by
  rcases Nat.eq_zero_or_pos m with rfl | hm
  · rfl
  · exact transpositions_above draws (by omega)

/-- The permutation determines the draws. -/
theorem draws_eq_of_transpositions {draws draws' : Draws} {i : ℕ}
    (h : transpositions draws i = transpositions draws' i) : ∀ k ≤ i, draws k = draws' k := by
  induction i with
  | zero =>
    intro k hk
    obtain rfl := Nat.le_zero.mp hk
    exact Subsingleton.elim (α := Fin 1) _ _
  | succ i ih =>
    have htop : draws (i + 1) = draws' (i + 1) := by
      apply Fin.ext
      rw [← transpositions_self, ← transpositions_self, h]
    intro k hk
    rcases Nat.lt_or_eq_of_le hk with hlt | rfl
    · rw [transpositions, transpositions, htop] at h
      exact ih (mul_left_cancel h) k (by omega)
    · exact htop

section Positions
variable {α : Type}

theorem swap_getElem? {deck : List α} {i j : ℕ} (hi : i < deck.length) (hj : j < deck.length) (k : ℕ) :
    (swap deck i j)[k]? = deck[Equiv.swap i j k]? := by
  rw [swap, List.getElem?_eq_getElem hi, List.getElem?_eq_getElem hj]
  dsimp only
  rw [List.getElem?_set, List.getElem?_set, List.length_set, if_pos hj, if_pos hi, Equiv.swap_apply_def]
  by_cases hkj : j = k
  · subst hkj
    by_cases hji : j = i
    · subst hji
      simp [hj]
    · simp [hji, hi]
  · by_cases hki : i = k
    · subst hki
      simp [hkj, hj]
    · rw [if_neg hkj, if_neg hki, if_neg (Ne.symm hki), if_neg (Ne.symm hkj)]

theorem shuffleFrom_getElem? (draws : Draws) {i : ℕ} {deck : List α} (h : i < deck.length) (k : ℕ) :
    (shuffleFrom draws i deck)[k]? = deck[transpositions draws i k]? := by
  induction i generalizing deck with
  | zero => rfl
  | succ i ih =>
    have hdraw := draw_le draws (i + 1)
    rw [shuffleFrom, ih (by rw [swap_length]; omega), swap_getElem? h (by omega)]
    rfl

end Positions

/-! ### Decks of `m` cards -/

/-- What the loop draws for a deck of `m` cards: a number up to the index, for every index but the first. -/
abbrev Drawn (m : ℕ) := (i : Finset.Ico 1 m) → Fin (i + 1)

def Drawn.draws {m : ℕ} (d : Drawn m) : Draws := fun i =>
  if h : i ∈ Finset.Ico 1 m then d ⟨i, h⟩ else ⟨0, i.succ_pos⟩

theorem transpositions_lt_iff (draws : Draws) (m k : ℕ) : transpositions draws (m - 1) k < m ↔ k < m := by
  rcases Nat.lt_or_ge k m with h | h
  · have hle := transpositions_le draws (show k ≤ m - 1 by omega)
    omega
  · rw [transpositions_fix draws h]

/-- Where the card at each position of the shuffled deck stood before. -/
def rearrangement {m : ℕ} (d : Drawn m) : Equiv.Perm (Fin m) where
  toFun k := ⟨transpositions d.draws (m - 1) k, (transpositions_lt_iff _ _ _).mpr k.isLt⟩
  invFun k := ⟨(transpositions d.draws (m - 1)).symm k, by
    rw [← transpositions_lt_iff d.draws, Equiv.apply_symm_apply]
    exact k.isLt⟩
  left_inv k := Fin.ext (Equiv.symm_apply_apply _ _)
  right_inv k := Fin.ext (Equiv.apply_symm_apply _ _)

theorem shuffle_ofFn {α : Type} {m : ℕ} (d : Drawn m) (deck : Fin m → α) :
    shuffle d.draws (List.ofFn deck) = List.ofFn (deck ∘ rearrangement d) := by
  rw [shuffle, List.length_ofFn]
  apply List.ext_getElem?
  intro k
  rcases Nat.eq_zero_or_pos m with rfl | hm
  · rfl
  · rw [shuffleFrom_getElem? _ (by rw [List.length_ofFn]; omega), List.getElem?_ofFn, List.getElem?_ofFn]
    simp only [transpositions_lt_iff, Function.comp_apply, rearrangement, Equiv.coe_fn_mk]

theorem rearrangement_injective (m : ℕ) : Function.Injective (rearrangement (m := m)) := by
  intro d d' h
  have hperm : transpositions d.draws (m - 1) = transpositions d'.draws (m - 1) := by
    ext k
    rcases Nat.lt_or_ge k m with hk | hk
    · exact congrArg Fin.val (Equiv.congr_fun h ⟨k, hk⟩)
    · rw [transpositions_fix _ hk, transpositions_fix _ hk]
  funext ⟨i, hi⟩
  have hi' := Finset.mem_Ico.mp hi
  have hdraw := draws_eq_of_transpositions hperm i (by omega)
  rwa [Drawn.draws, Drawn.draws, dif_pos hi, dif_pos hi] at hdraw

/- One sequence of draws for every ordering. -/
theorem card_drawn (m : ℕ) : Fintype.card (Drawn m) = m.factorial := by
  rw [Fintype.card_pi]
  simp only [Fintype.card_fin]
  rw [Finset.prod_coe_sort (Finset.Ico 1 m) fun i => i + 1]
  cases m with
  | zero => rfl
  | succ m =>
    rw [← Finset.prod_Ico_id_eq_factorial, Finset.prod_Ico_add' (fun i => i) 1 (m + 1) 1,
      Finset.prod_eq_prod_Ico_succ_bot (show 1 < m + 1 + 1 by omega), one_mul]

theorem rearrangement_bijective (m : ℕ) : Function.Bijective (rearrangement (m := m)) := by
  rw [Fintype.bijective_iff_injective_and_card]
  refine ⟨rearrangement_injective m, ?_⟩
  rw [card_drawn, Fintype.card_perm, Fintype.card_fin]

/-- Every ordering of the deck comes from one sequence of draws, so all are equally likely. -/
theorem shuffle_unbiased (m : ℕ) :
    (∀ (α : Type) (d : Drawn m) (deck : Fin m → α),
      shuffle d.draws (List.ofFn deck) = List.ofFn (deck ∘ rearrangement d)) ∧
    Function.Bijective (rearrangement (m := m)) ∧
    ∀ order, (PMF.uniformOfFintype (Drawn m)).map rearrangement order = (m.factorial : ENNReal)⁻¹ := by
  refine ⟨fun α d deck => shuffle_ofFn d deck, rearrangement_bijective m, ?_⟩
  intro order
  obtain ⟨d, rfl⟩ := (rearrangement_bijective m).2 order
  rw [PMF.map_apply, tsum_eq_single d, if_pos rfl, PMF.uniformOfFintype_apply, card_drawn]
  intro d' hne
  exact if_neg fun h => hne (rearrangement_injective m h).symm

end P2Poker.Crypto.Deck
