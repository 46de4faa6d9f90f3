import P2Poker.Peer.Progress

/-!
# Cards in the encrypted deck

What the shuffle leaves at the seats, for tables of any size, and which cards are
told from their bytes under all keys. The text of one card is the prime less one,
and every key's exponent is odd: it stays as it is under any number of layers.
-/

namespace P2Poker.Peer
open P2Poker.Lib P2Poker.Crypto P2Poker.Ephemeral

/-! ### The shuffle at tables of any size -/

section Shuffle
variable {K V : Type} (o : Values K V) (t : Table K) (s : ℕ)

def Phase.inShuffle : Phase V → Bool
  | .pollStep => true
  | .shuffling _ => true
  | _ => false

structure ShuffleInv (r : Node V) : Prop where
  stored : ∀ q v, r.store.get (shuffleStepKey q) = some v → v = o.encodeDeck (t.deckAt o (q + 1))
  waits : r.phase = .pollStep → s ≠ 0
  takes : ∀ d, r.phase = .shuffling d → d = t.deckAt o s
  deck : r.finalDeck = [] ∨ r.finalDeck = t.final o

variable {o t s} {r r' : Node V}

theorem reveal_outside (u : Setup K) (r : Node V) (cards : List ℕ) :
    (r.reveal u cards).phase.inShuffle = false := by
  unfold Node.reveal
  split
  · rfl
  · split <;> [rfl; (split_ifs <;> rfl)]

/- A step outside the shuffle. -/
theorem ShuffleInv.outside (h : ShuffleInv o t s r)
    (hstore : ∀ q v, r'.store.get (shuffleStepKey q) = some v → r.store.get (shuffleStepKey q) = some v)
    (hphase : r'.phase.inShuffle = false) (hdeck : r'.finalDeck = r.finalDeck) : ShuffleInv o t s r' := by
  refine ⟨fun q v hv => h.stored q v (hstore q v hv), ?_, ?_, by rw [hdeck]; exact h.deck⟩
  · intro hp
    rw [hp] at hphase
    cases hphase
  · intro d hp
    rw [hp] at hphase
    cases hphase

theorem get_shuffleStep_put (name : KeyName) {store : Store V} {v w : V} {q : ℕ}
    (hne : ∀ q, KeyName.shuffleStep q ≠ name)
    (h : (store.put name.key v).get (shuffleStepKey q) = some w) :
    store.get (shuffleStepKey q) = some w := by
  rcases Store.of_get_put (y := .shuffleStep q) h with ⟨heq, _⟩ | hold
  · exact absurd heq (hne q)
  · exact hold

theorem ShuffleInv.shuffle {d : List V} (h : ShuffleInv o t s r) (hs : s < t.size)
    (hph : r.phase = .shuffling d) : ShuffleInv o t s (r.shuffle o (t.setup s) d) := by
  obtain rfl := h.takes d hph
  have hstored : ∀ q v, (r.store.put (shuffleStepKey s) (o.encodeDeck (t.deckAt o (s + 1)))).get
      (shuffleStepKey q) = some v → v = o.encodeDeck (t.deckAt o (q + 1)) := by
    intro q v hv
    rcases Store.of_get_put (x := .shuffleStep s) (y := .shuffleStep q) hv with ⟨heq, rfl⟩ | hold
    · rw [KeyName.shuffleStep.inj heq]
    · exact h.stored q v hold
  simp only [Node.shuffle]
  split_ifs with hl
  · refine ⟨hstored, fun hp => (by cases hp), fun d hp => (by cases hp), .inr ?_⟩
    have hlast : s + 1 = t.size := by
      have : s = t.size - 1 := hl
      omega
    show t.deckAt o (s + 1) = t.final o
    rw [hlast]
    rfl
  · exact ⟨hstored, fun hp => (by cases hp), fun d hp => (by cases hp), h.deck⟩

theorem ShuffleInv.move {read : ℕ → Key → Option V} (h : ShuffleInv o t s r) (hs : s < t.size)
    (hgob : ∀ d, o.decodeDeck (o.encodeDeck d) = some d)
    (hread : ∀ q q' v, read q (shuffleStepKey q') = some v → v = o.encodeDeck (t.deckAt o (q' + 1)))
    (hm : Node.Move o (t.setup s) read r r') : ShuffleInv o t s r' := by
  cases hm with
  | tooFew => exact h.outside (fun _ _ hv => hv) rfl rfl
  | openDeck _ _ h0 =>
    refine ⟨h.stored, fun hp => (by cases hp), fun d hp => ?_, h.deck⟩
    obtain rfl := Phase.shuffling.inj hp
    rw [show s = 0 from h0]
    rfl
  | awaitStep _ _ h0 => exact ⟨h.stored, fun _ => h0, fun d hp => (by cases hp), h.deck⟩
  | openHoles => exact h.outside (fun _ _ hv => hv) rfl rfl
  | openReveal =>
    exact h.outside (fun _ _ hv => by rwa [Node.reveal_store] at hv) (reveal_outside ..)
      (Node.reveal_finalDeck ..)
  | gotStep hph hr hdec =>
    rw [hread _ _ _ hr, hgob] at hdec
    refine ⟨h.stored, fun hp => (by cases hp), fun d hp => ?_, h.deck⟩
    rw [← Phase.shuffling.inj hp, ← Option.some.inj hdec]
    show t.deckAt o (s - 1 + 1) = t.deckAt o s
    rw [Nat.sub_add_cancel (Nat.pos_of_ne_zero (h.waits hph))]
  | badStep => exact h.outside (fun _ _ hv => hv) rfl rfl
  | shuffle hph => exact h.shuffle hs hph
  | gotFinal _ hr hdec =>
    rw [hread _ _ _ hr, hgob] at hdec
    refine ⟨h.stored, fun hp => (by cases hp), fun d hp => (by cases hp), .inr ?_⟩
    rw [← Option.some.inj hdec]
    show t.deckAt o (t.size - 1 + 1) = t.deckAt o t.size
    rw [Nat.sub_add_cancel (by omega)]
  | badFinal => exact h.outside (fun _ _ hv => hv) rfl rfl
  | gotHole => exact h.outside (fun _ _ hv => hv) rfl rfl
  | stripSlot =>
    refine h.outside ?_ rfl ?_
    · intro q v hv
      simp only [Node.stripSlot] at hv
      split_ifs at hv
      · rwa [Node.setHole_store] at hv
      · exact get_shuffleStep_put (.holeRelay _ _) (by simp) hv
    · simp only [Node.stripSlot]
      split_ifs
      · exact Node.setHole_finalDeck ..
      · rfl
  | holesDone => exact h.outside (fun _ _ hv => hv) rfl rfl
  | holesFailed => exact h.outside (fun _ _ hv => hv) rfl rfl
  | gotRelay => exact h.outside (fun _ _ hv => hv) rfl rfl
  | stripCard =>
    simp only [Node.stripCard]
    split_ifs
    · refine h.outside ?_ (reveal_outside ..)
        ((Node.reveal_finalDeck ..).trans (Node.setCommunity_finalDeck ..))
      intro q v hv
      rw [Node.reveal_store, Node.setCommunity_store] at hv
      exact get_shuffleStep_put (.communityRelay _ _) (by simp)
        (get_shuffleStep_put (.communityCard _) (by simp) hv)
    · exact h.outside (fun _ _ hv => get_shuffleStep_put (.communityRelay _ _) (by simp) hv) rfl rfl
  | gotCard =>
    refine h.outside ?_ (reveal_outside ..)
      ((Node.reveal_finalDeck ..).trans (Node.setCommunity_finalDeck ..))
    intro q v hv
    rwa [Node.reveal_store, Node.setCommunity_store] at hv

theorem ShuffleInv.reaches {net : Net V} (hgob : ∀ d, o.decodeDeck (o.encodeDeck d) = some d)
    (h : Reaches o t (Net.start o) net) (s : ℕ) : ShuffleInv o t s (net s) := by
  induction h generalizing s with
  | refl => exact ⟨fun q v hv => (nomatch hv), fun hp => (nomatch hp), fun d hp => (nomatch hp), .inl rfl⟩
  | tail _ hstep ih =>
    cases hstep with
    | @node q i r hq hrun =>
      by_cases hs : s = q
      · subst hs
        rw [Function.update_self]
        exact (ih s).move hq hgob (fun q q' v hv => (ih q).stored q' v hv) (Node.step_move hrun)
      · rw [Function.update_of_ne hs]
        exact ih s

/- The seats up to this one have shuffled, and the ones after it have not begun. -/
structure ShuffledTo (o : Values K V) (t : Table K) (s : ℕ) (net : Net V) : Prop where
  reaches : Reaches o t (Net.start o) net
  rest : ∀ q, s < q → net q = Net.start o q
  hosted : net.read s (shuffleStepKey s) = some (o.encodeDeck (t.deckAt o (s + 1)))
  last : s + 1 = t.size → (net s).finalDeck = t.final o

theorem ShuffledTo.of_shuffling {net : Net V} (hs : s < t.size) (hreach : Reaches o t (Net.start o) net)
    (hrest : ∀ q, s < q → net q = Net.start o q) (hph : (net s).phase = .shuffling (t.deckAt o s)) :
    ∃ net, ShuffledTo o t s net := by
  have hstep : Step o t net (Function.update net s ((net s).shuffle o (t.setup s) (t.deckAt o s))) :=
    .node (i := .shuffle) hs (by simp only [Node.step, hph])
  refine ⟨_, hreach.tail hstep, ?_, ?_, ?_⟩
  · intro q hq
    rw [Function.update_of_ne (by omega)]
    exact hrest q hq
  · rw [Net.read, Function.update_self]
    simp only [Node.shuffle]
    split_ifs <;> exact if_pos rfl
  · intro hlast
    rw [Function.update_self]
    have hl : (t.setup s).seatIdx = (t.setup s).lastSeat := show s = t.size - 1 by omega
    simp only [Node.shuffle, if_pos hl]
    rw [Table.final, ← hlast]
    rfl

/- A node that has begun to shuffle. -/
def Node.begun (o : Values K V) (ph : Phase V) : Node V :=
  { card1 := o.empty, card2 := o.empty, phase := ph, todo := hand.drop 1 }

/- The seats shuffle one after the other. -/
theorem exists_shuffledTo (hn : 2 ≤ t.size) (hgob : ∀ d, o.decodeDeck (o.encodeDeck d) = some d)
    (hs : s < t.size) : ∃ net, ShuffledTo o t s net := by
  have hfew : ∀ s, ¬ (t.setup s).numPlayers < 2 := fun _ => not_lt.mpr hn
  induction s with
  | zero =>
    have hopen : (Net.start o 0).step o (t.setup 0) (Net.start o).read .begin =
        some (.begun o (.shuffling (t.deckAt o 0))) := by
      simp only [Node.step, Node.begin, Net.start, hand, if_neg (hfew 0)]
      rfl
    refine ShuffledTo.of_shuffling hs (.single (.node hs hopen)) ?_ ?_
    · exact fun q hq => Function.update_of_ne (by omega) ..
    · rw [Function.update_self]
      rfl
  | succ s ih =>
    obtain ⟨net, h⟩ := ih (by omega)
    have hawait : (net (s + 1)).step o (t.setup (s + 1)) net.read .begin = some (.begun o .pollStep) := by
      rw [h.rest (s + 1) (by omega)]
      simp only [Node.step, Node.begin, Net.start, hand, if_neg (hfew (s + 1))]
      rfl
    set net' : Net V := Function.update net (s + 1) (.begun o .pollStep) with hnet'
    have hpoll : net'.read s (shuffleStepKey s) = some (o.encodeDeck (t.deckAt o (s + 1))) := by
      rw [Net.read, hnet', Function.update_of_ne (by omega)]
      exact h.hosted
    have hgot : (net' (s + 1)).step o (t.setup (s + 1)) net'.read .pollStep =
        some (.begun o (.shuffling (t.deckAt o (s + 1)))) := by
      rw [hnet', Function.update_self, ← hnet']
      simp only [Node.step, Node.begun, Table.setup, Nat.add_sub_cancel, hpoll, hgob]
    refine ShuffledTo.of_shuffling hs ((h.reaches.tail (.node hs hawait)).tail (.node hs hgot)) ?_ ?_
    · intro q hq
      rw [Function.update_of_ne (by omega), Function.update_of_ne (by omega)]
      exact h.rest q (by omega)
    · rw [Function.update_self]
      rfl

end Shuffle

/-! ### Layers as one exponent -/

section Exponents
open P2Poker.Crypto.Deck

theorem beVal_lock {p : ℕ} (hp : p.Prime) (ks : List Deck.Key) {v : Bytes} (hv : beVal v < p) :
    beVal ((cipher p).lock ks v) = exp (beVal v) (ks.map Deck.Key.exponent).prod p := by
  induction ks generalizing v with
  | nil => rw [Cipher.lock_nil, List.map_nil, List.prod_nil, exp, pow_one, Nat.mod_eq_of_lt hv]
  | cons k ks ih =>
    have henc : beVal ((cipher p).enc k v) = exp (beVal v) k.exponent p := beVal_natBytes _
    rw [Cipher.lock_cons, ih (by rw [henc]; exact exp_lt hp _ _), henc, exp_exp, List.map_cons,
      List.prod_cons]

/- An exponent that can be undone modulo an even number is odd. -/
theorem odd_exponent {p : ℕ} {k : Deck.Key} (hk : k.Inverse p) (hp : 2 ∣ p - 1) : Odd k.exponent := by
  have hmod : k.exponent * k.inverseExponent ≡ 1 [MOD 2] := hk.mul_eq.of_dvd hp
  have hodd : Odd (k.exponent * k.inverseExponent) := Nat.odd_iff.mpr hmod
  exact (Nat.odd_mul.mp hodd).1

theorem exp_pred {p e : ℕ} (hp : 1 < p) (he : Odd e) : exp (p - 1) e p = p - 1 := by
  have hneg : ((p - 1 : ℕ) : ZMod p) = -1 := by
    rw [Nat.cast_sub hp.le, ZMod.natCast_self, Nat.cast_one, zero_sub]
  have hpow : (((p - 1) ^ e : ℕ) : ZMod p) = ((p - 1 : ℕ) : ZMod p) := by
    rw [Nat.cast_pow, hneg, he.neg_one_pow]
  rw [exp, (ZMod.natCast_eq_natCast_iff' _ _ _).mp hpow, Nat.mod_eq_of_lt (by omega)]

/- Two exponents that differ by two, and a power prime to the order: only the two
square roots of one are equal under both. -/
theorem sq_eq_one_of_exp_eq {p b m : ℕ} (hp : p.Prime) (hb : ¬ p ∣ b) (hm : Nat.Coprime m (p - 1))
    (h : exp b (m * 3) p = exp b (m * 5) p) : b ^ 2 % p = 1 % p := by
  have : Fact p.Prime := ⟨hp⟩
  have hb0 : (b : ZMod p) ≠ 0 := fun h0 => hb ((ZMod.natCast_eq_zero_iff b p).mp h0)
  have heq : ((b : ZMod p) ^ m) ^ 3 = ((b : ZMod p) ^ m) ^ 5 := by
    rw [← pow_mul, ← pow_mul]
    have := (ZMod.natCast_eq_natCast_iff' _ _ _).mpr h
    push_cast at this
    exact this
  have hsq : (b : ZMod p) ^ (m * 2) = 1 := by
    rw [pow_mul]
    refine mul_left_cancel₀ (pow_ne_zero 3 (pow_ne_zero m hb0)) ?_
    rw [mul_one, ← pow_add]
    exact heq.symm
  have hone : (b : ZMod p) ^ 2 = 1 := by
    refine orderOf_dvd_iff_pow_eq_one.mp ?_
    have hord : orderOf (b : ZMod p) ∣ p - 1 := orderOf_dvd_of_pow_eq_one (ZMod.pow_card_sub_one_eq_one hb0)
    exact (Nat.Coprime.coprime_dvd_right hord hm).symm.dvd_of_dvd_mul_left (orderOf_dvd_of_pow_eq_one hsq)
  refine (ZMod.natCast_eq_natCast_iff' _ _ _).mp ?_
  push_cast
  exact hone

end Exponents

/-! ### What can be told without a key -/

section Recognition
variable (gob : Codec (List Bytes))

/- What is under all the layers. -/
def Table.opened {K V : Type} (o : Values K V) (t : Table K) (v : V) : V :=
  o.strip (t.keys (List.range t.size)) v

/-- There are bytes that lie in the final deck just where this card does, whatever
the keys and the shuffles. -/
def Recognisable (n : ℕ) (card : Bytes) : Prop :=
  ∃ b : Bytes, ∀ t : Table Deck.Key, t.size = n → (∀ q < n, Deck.Generates PRIME (t.key q)) →
    ∀ net, Reaches (wire PRIME gob) t (Net.start (wire PRIME gob)) net → ∀ s < n,
      ∀ (slot : ℕ) (v : Bytes), (net s).finalDeck[slot]? = some v →
        (v = b ↔ t.opened (wire PRIME gob) v = card)

variable {gob} {t : Table Deck.Key} {n m : ℕ}

theorem keys_inverse (hkey : ∀ q < t.size, Deck.Generates PRIME (t.key q)) :
    ∀ k ∈ t.keys (List.range t.size), k.Inverse PRIME := by
  intro k hk
  obtain ⟨q, hq, rfl⟩ := List.mem_map.mp hk
  exact (hkey q (List.mem_range.mp hq)).inverse

theorem opened_lock (hkey : ∀ q < t.size, Deck.Generates PRIME (t.key q)) (hm : m ∈ List.range' 1 52) :
    t.opened (wire PRIME gob) ((wire PRIME gob).lock (t.keys (List.range t.size)) (decimal m)) =
      decimal m := by
  have hall : (t.keys (List.range t.size)).Perm (t.keys (List.range t.size) ++ []) := by
    rw [List.append_nil]
  exact (wire_lawful gob).commutes.strip_lock hall (keys_inverse hkey) ((wire_lawful gob).valid_card m hm)

/- Whoever holds a final deck holds the cards under all the layers. -/
theorem mem_finalDeck {net : Net Bytes} (h : Reaches (wire PRIME gob) t (Net.start (wire PRIME gob)) net)
    {s slot : ℕ} {v : Bytes} (hv : (net s).finalDeck[slot]? = some v) :
    ∃ m ∈ List.range' 1 52, v = (wire PRIME gob).lock (t.keys (List.range t.size)) (decimal m) := by
  have hmem := List.mem_of_getElem? hv
  rcases (ShuffleInv.reaches gob.decode_encode h s).deck with hnil | hfinal
  · rw [hnil] at hmem
    cases hmem
  · rw [hfinal, Table.final, Table.deckAt_eq] at hmem
    obtain ⟨m, hm, rfl⟩ := List.mem_map.mp hmem
    exact ⟨m, (t.arrangement_perm _).mem_iff.mp hm, rfl⟩

theorem enc_fifty_two {k : Deck.Key} (hk : k.Inverse PRIME) :
    (wire PRIME gob).enc k (decimal 52) = decimal 52 := by
  have hval : beVal (decimal 52) = PRIME - 1 := by decide +kernel
  show natBytes (Deck.exp (beVal (decimal 52)) k.exponent PRIME) = decimal 52
  rw [hval, exp_pred (by decide) (odd_exponent hk (by decide))]
  decide +kernel

theorem recognisable_fifty_two (gob : Codec (List Bytes)) (n : ℕ) : Recognisable gob n (decimal 52) := by
  refine ⟨decimal 52, ?_⟩
  rintro t rfl hkey net hreach s _ slot v hv
  have hlock : (wire PRIME gob).lock (t.keys (List.range t.size)) (decimal 52) = decimal 52 :=
    Cipher.lock_eq_self _ fun k hk => enc_fifty_two (keys_inverse hkey k hk)
  obtain ⟨m, hm, rfl⟩ := mem_finalDeck hreach hv
  rw [opened_lock hkey hm]
  constructor
  · intro heq
    calc decimal m
        = t.opened (wire PRIME gob) (decimal 52) := by rw [← heq, opened_lock hkey hm]
      _ = t.opened (wire PRIME gob) ((wire PRIME gob).lock (t.keys (List.range t.size)) (decimal 52)) := by
        rw [hlock]
      _ = decimal 52 := opened_lock hkey (by decide)
  · intro heq
    rw [heq, hlock]

/- A recognisable card has the same bytes under all layers at every table. -/
theorem Recognisable.lock_eq {b : Bytes} (hn : 2 ≤ t.size)
    (hkey : ∀ q < t.size, Deck.Generates PRIME (t.key q)) (hm : m ∈ List.range' 1 52)
    (hb : ∀ net, Reaches (wire PRIME gob) t (Net.start (wire PRIME gob)) net → ∀ s < t.size,
      ∀ (slot : ℕ) (v : Bytes), (net s).finalDeck[slot]? = some v →
        (v = b ↔ t.opened (wire PRIME gob) v = decimal m)) :
    (wire PRIME gob).lock (t.keys (List.range t.size)) (decimal m) = b := by
  obtain ⟨net, h⟩ := exists_shuffledTo (o := wire PRIME gob) (s := t.size - 1) hn gob.decode_encode (by omega)
  have hdeck : (net (t.size - 1)).finalDeck = t.final (wire PRIME gob) := h.last (by omega)
  have hmem : (wire PRIME gob).lock (t.keys (List.range t.size)) (decimal m) ∈
      (net (t.size - 1)).finalDeck := by
    rw [hdeck, Table.final, Table.deckAt_eq]
    exact List.mem_map.mpr ⟨m, (t.arrangement_perm _).mem_iff.mpr hm, rfl⟩
  obtain ⟨slot, hslot⟩ := List.getElem?_of_mem hmem
  exact (hb net h.reaches _ (by omega) slot _ hslot).mpr (opened_lock hkey hm)

/- All seats have one key but the last. -/
def lastKeyTable (n : ℕ) (k : Deck.Key) : Table Deck.Key where
  size := n
  key q := if q + 1 = n then k else ⟨3, 9079⟩
  draws _ i := Fin.last i

theorem generates_five : Deck.Generates PRIME ⟨5, 8171⟩ := ⟨[5], by decide, by decide +kernel⟩

theorem prod_lastKeyTable (n : ℕ) (k : Deck.Key) :
    (((lastKeyTable (n + 1) k).keys (List.range (n + 1))).map Deck.Key.exponent).prod =
      3 ^ n * k.exponent := by
  have hsame : (List.range n).map (Deck.Key.exponent ∘ (lastKeyTable (n + 1) k).key) =
      List.replicate n 3 := by
    refine List.eq_replicate_iff.mpr ⟨by simp, ?_⟩
    intro e he
    obtain ⟨q, hq, rfl⟩ := List.mem_map.mp he
    have hne : q + 1 ≠ n + 1 := by
      have := List.mem_range.mp hq
      omega
    simp only [Function.comp_apply, lastKeyTable, if_neg hne]
  have hlast : (lastKeyTable (n + 1) k).key n = k := if_pos rfl
  rw [Table.keys, List.map_map, List.range_succ, List.map_append, List.prod_append, hsame,
    List.prod_replicate, List.map_singleton, List.prod_singleton, Function.comp_apply, hlast]

theorem Recognisable.eq_fifty_two (hn : 2 ≤ n) (hm : m ∈ List.range' 1 52)
    (h : Recognisable gob n (decimal m)) : m = 52 := by
  obtain ⟨b, hb⟩ := h
  obtain ⟨n, rfl⟩ : ∃ k, n = k + 1 := ⟨n - 1, by omega⟩
  have hp : PRIME.Prime := by norm_num [PRIME]
  have hone : ∀ k : Deck.Key, Deck.Generates PRIME k →
      beVal b = Deck.exp (beVal (decimal m)) (3 ^ n * k.exponent) PRIME := by
    intro k hk
    have hkey : ∀ q < n + 1, Deck.Generates PRIME ((lastKeyTable (n + 1) k).key q) := by
      intro q _
      simp only [lastKeyTable]
      split_ifs
      · exact hk
      · exact generates_three
    have hlock := Recognisable.lock_eq (t := lastKeyTable (n + 1) k) hn hkey hm (hb _ rfl hkey)
    rw [← hlock]
    refine (beVal_lock hp _ ((wire_lawful gob).valid_card m hm).2).trans ?_
    exact congrArg (fun e => Deck.exp _ e PRIME) (prod_lastKeyTable n k)
  have hsq : beVal (decimal m) ^ 2 % PRIME = 1 % PRIME := by
    refine sq_eq_one_of_exp_eq (m := 3 ^ n) hp ?_ ?_ ?_
    · have hunit : ∀ m ∈ List.range' 1 52, ¬ PRIME ∣ beVal (decimal m) := by decide +kernel
      exact hunit m hm
    · exact Nat.Coprime.pow_left n (by decide)
    · rw [← hone _ generates_three, ← hone _ generates_five]
  have hroots : ∀ m ∈ List.range' 1 52, beVal (decimal m) ^ 2 % PRIME = 1 % PRIME → m = 52 := by
    decide +kernel
  exact hroots m hm hsq

theorem unrecognisable_iff (gob : Codec (List Bytes)) {n : ℕ} {card : Bytes} (hn : 2 ≤ n)
    (hc : card ∈ Node.buildOrderedDeck (wire PRIME gob)) :
    ¬ Recognisable gob n card ↔ card ≠ ascii "52" := by
  have htext : decimal 52 = ascii "52" := by decide +kernel
  rw [not_iff_not]
  constructor
  · intro h
    obtain ⟨i, hi, rfl⟩ := List.mem_map.mp hc
    have hm : i + 1 ∈ List.range' 1 52 := by
      have := List.mem_range.mp hi
      rw [List.mem_range'_1]
      omega
    rw [← htext, ← h.eq_fifty_two hn hm]
    rfl
  · rintro rfl
    rw [← htext]
    exact recognisable_fifty_two gob n

theorem ace_unrecognisable : ¬ Recognisable deckWire.codec 2 (ascii "1") :=
  (unrecognisable_iff deckWire.codec le_rfl (by decide +kernel)).mpr (by decide)

theorem last_card_recognisable : Recognisable deckWire.codec 2 (ascii "52") := by
  have htext : decimal 52 = ascii "52" := by decide +kernel
  rw [← htext]
  exact recognisable_fifty_two deckWire.codec 2

end Recognition

end P2Poker.Peer
