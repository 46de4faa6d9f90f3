import P2Poker.Peer.Honest
import P2Poker.Peer.Symbolic

/-!
# Who can read a hole card

Peers strip their layer off whatever a relay serves them, so a malicious seat
may send a card round the ring of a slot it does not lie in. As long as the
malicious seat keeps every card in its slot, no honest node hosts a plain hole
card of another honest seat.
-/

namespace P2Poker.Peer
open P2Poker.Lib P2Poker.Crypto P2Poker.Ephemeral

/-! ### The final deck is hosted once -/

namespace Node
variable {K V : Type} {o : Values K V} {u : Setup K} {read : ℕ → Key → Option V} {r r' : Node V}

def shuffles : Phase V → Bool
  | .pollStep => true
  | .shuffling _ => true
  | _ => false

/- A node that may still shuffle hosts no deck; and it shuffles only once. -/
def Once (s : ℕ) (r : Node V) : Prop :=
  (∃ todo, r.phase = .idle ∧ r.todo = .runShuffle :: todo ∧ .runShuffle ∉ todo ∧
    ¬ r.Hosts (.shuffleStep s)) ∨
  (.runShuffle ∉ r.todo ∧ (shuffles r.phase = true → ¬ r.Hosts (.shuffleStep s)))

theorem shuffles_reveal (r : Node V) (u : Setup K) (cards : List ℕ) :
    shuffles (r.reveal u cards).phase = false := by
  unfold reveal
  split
  · rfl
  · split <;> [rfl; (split_ifs <;> rfl)]

theorem reveal_hole (r : Node V) (u : Setup K) (cards : List ℕ) : (r.reveal u cards).hole = r.hole := by
  rw [reveal_phase]
  rfl

theorem setCommunity_hole (r : Node V) (o : Values K V) (u : Setup K) (cardIdx : ℕ) (card : V) :
    (r.setCommunity o u cardIdx card).hole = r.hole := by
  rw [setCommunity_board]
  rfl

theorem Once.todo {s : ℕ} (h : Once s r) {call : Call} {todo : List Call} (htodo : r.todo = call :: todo) :
    .runShuffle ∉ todo ∧ (call = .runShuffle → ¬ r.Hosts (.shuffleStep s)) := by
  rcases h with ⟨todo', _, htodo', hnot, hfresh⟩ | ⟨hnot, _⟩
  · obtain ⟨rfl, rfl⟩ := List.cons.inj (htodo'.symm.trans htodo)
    exact ⟨hnot, fun _ => hfresh⟩
  · rw [htodo] at hnot
    exact ⟨fun hm => hnot (List.mem_cons_of_mem _ hm),
      fun hc => absurd (hc ▸ List.mem_cons_self ..) hnot⟩

theorem Once.busy {s : ℕ} (h : Once s r) (hph : r.phase ≠ .idle) :
    .runShuffle ∉ r.todo ∧ (shuffles r.phase = true → ¬ r.Hosts (.shuffleStep s)) := by
  rcases h with ⟨_, hidle, _⟩ | h
  · exact absurd hidle hph
  · exact h

theorem Once.quiet {s : ℕ} (htodo : .runShuffle ∉ r.todo) (hph : shuffles r.phase = false) : Once s r :=
  .inr ⟨htodo, fun h => absurd (hph.symm.trans h) (by decide)⟩

theorem Once.move (h : Once u.seatIdx r) (hm : Move o u read r r') : Once u.seatIdx r' := by
  cases hm with
  | tooFew _ htodo _ => exact .quiet (h.todo htodo).1 rfl
  | openDeck _ htodo _ => exact .inr ⟨(h.todo htodo).1, fun _ => (h.todo htodo).2 rfl⟩
  | awaitStep _ htodo _ => exact .inr ⟨(h.todo htodo).1, fun _ => (h.todo htodo).2 rfl⟩
  | openHoles _ htodo => exact .quiet (h.todo htodo).1 rfl
  | openReveal _ htodo _ _ =>
    refine .quiet ?_ (shuffles_reveal ..)
    rw [reveal_todo]
    exact (h.todo htodo).1
  | gotStep hph _ _ =>
    obtain ⟨htodo, hfresh⟩ := h.busy (by simp [hph])
    exact .inr ⟨htodo, fun _ => hfresh (by rw [hph]; rfl)⟩
  | badStep hph _ _ => exact .quiet (h.busy (by simp [hph])).1 rfl
  | shuffle hph =>
    have htodo := (h.busy (by simp [hph])).1
    simp only [Node.shuffle]
    split_ifs
    · exact .quiet htodo rfl
    · exact .quiet htodo rfl
  | gotFinal hph _ _ => exact .quiet (h.busy (by simp [hph])).1 rfl
  | badFinal hph _ _ => exact .quiet (h.busy (by simp [hph])).1 rfl
  | gotHole hph _ _ => exact .quiet (h.busy (by simp [hph])).1 rfl
  | stripSlot hph _ =>
    refine .quiet ?_ rfl
    rw [stripSlot_todo]
    exact (h.busy (by simp [hph])).1
  | holesDone hph _ _ => exact .quiet (h.busy (by simp [hph])).1 rfl
  | holesFailed hph _ => exact .quiet (h.busy (by simp [hph])).1 rfl
  | gotRelay hph _ => exact .quiet (h.busy (by simp [hph])).1 rfl
  | stripCard hph =>
    have htodo := (h.busy (by simp [hph])).1
    simp only [Node.stripCard]
    split_ifs
    · refine .quiet ?_ (shuffles_reveal ..)
      rw [reveal_todo, setCommunity_todo]
      exact htodo
    · exact .quiet htodo rfl
  | gotCard hph _ =>
    refine .quiet ?_ (shuffles_reveal ..)
    rw [reveal_todo, setCommunity_todo]
    exact (h.busy (by simp [hph])).1

/- What a node has hosted as its step of the shuffle stays there. -/
theorem Once.keeps_step (h : Once u.seatIdx r) (hm : Move o u read r r') {v : V}
    (hv : r.store.get (shuffleStepKey u.seatIdx) = some v) :
    r'.store.get (shuffleStepKey u.seatIdx) = some v := by
  have hother : ∀ (name : KeyName) (store : Store V) (x : V), name ≠ .shuffleStep u.seatIdx →
      store.get (shuffleStepKey u.seatIdx) = some v →
      (store.put name.key x).get (shuffleStepKey u.seatIdx) = some v := by
    intro name store x hne hget
    refine (Store.get_put store name (.shuffleStep u.seatIdx) x).trans ?_
    rw [if_neg fun heq => hne (KeyName.key_injective heq).symm]
    exact hget
  cases hm with
  | shuffle hph =>
    have hfresh := (h.busy (by simp [hph])).2 (by rw [hph]; rfl)
    exact absurd (by rw [Node.Hosts]; exact Option.isSome_of_eq_some hv) hfresh
  | stripSlot =>
    simp only [Node.stripSlot]
    split_ifs
    · rw [setHole_store]
      exact hv
    · exact hother (.holeRelay _ _) _ _ (by simp) hv
  | @stripCard cardIdx layered _ _ =>
    have hrelay := hother (.communityRelay cardIdx u.seatIdx) _ (o.dec u.modKey layered) (by simp) hv
    simp only [Node.stripCard]
    split_ifs
    · rw [reveal_store, setCommunity_store]
      exact hother (.communityCard _) _ _ (by simp) hrelay
    · exact hrelay
  | openReveal => rwa [reveal_store]
  | gotCard => rwa [reveal_store, setCommunity_store]
  | _ => exact hv

end Node

/-! ### Decks -/

section Decks
variable {n : ℕ} (a : ℕ)

/- A card once under the layer of each of the first `k` seats; the malicious
seat's layers do not count. -/
def UnderFirst (k : ℕ) (v : Sym n) (m : ℕ) : Prop :=
  ∃ layers, v = .card m layers ∧ ∀ i : Fin n, i.val ≠ a → layers i = if i.val < k then 1 else 0

/- All the cards after the first `k` seats have shuffled. -/
def DeckAfter (k : ℕ) (d : List (Sym n)) : Prop :=
  ∃ cards, cards.Perm (List.range' 1 52) ∧ List.Forall₂ (UnderFirst a k) d cards

/- The same card up to the layers of the malicious seat. -/
def SameCard (v v' : Sym n) : Prop :=
  ∃ m layers layers', v = .card m layers ∧ v' = .card m layers' ∧
    ∀ i : Fin n, i.val ≠ a → layers i = layers' i

variable {a} {k : ℕ} {d d' : List (Sym n)}

theorem deckAfter_ordered : DeckAfter a 0 (Node.buildOrderedDeck (symbolic n)) := by
  refine ⟨List.range' 1 52, List.Perm.refl _, ?_⟩
  have hmap : Node.buildOrderedDeck (symbolic n) = (List.range' 1 52).map (symbolic n).card := by
    simp [Node.buildOrderedDeck, List.range'_eq_map_range, Nat.add_comm]
  rw [hmap, List.forall₂_map_left_iff, List.forall₂_same]
  exact fun m _ => ⟨0, rfl, fun _ _ => rfl⟩

theorem DeckAfter.perm (h : DeckAfter a k d) (hp : d'.Perm d) : DeckAfter a k d' := by
  obtain ⟨cards, hcards, hd⟩ := h
  obtain ⟨cards', hd', hp'⟩ := List.perm_comp_forall₂ hp hd
  exact ⟨cards', hp'.trans hcards, hd'⟩

/- A relation that each card of a deck is changed by. -/
theorem DeckAfter.change {j : ℕ} {R : Sym n → Sym n → Prop} (h : DeckAfter a k d)
    (hR : List.Forall₂ R d' d) (hstep : ∀ v v' m, R v' v → UnderFirst a k v m → UnderFirst a j v' m) :
    DeckAfter a j d' := by
  obtain ⟨cards, hcards, hd⟩ := h
  refine ⟨cards, hcards, ?_⟩
  clear hcards
  induction hR generalizing cards with
  | nil =>
    cases hd
    exact .nil
  | cons hv _ ih =>
    cases hd with
    | cons hm hd => exact .cons (hstep _ _ _ hv hm) (ih _ hd)

theorem DeckAfter.encrypt [NeZero n] {s : ℕ} (h : DeckAfter a s d) (hs : s < n) :
    DeckAfter a (s + 1) (d.map (Sym.layer (Fin.ofNat n s) 1)) := by
  refine h.change (R := fun v' v => v' = Sym.layer (Fin.ofNat n s) 1 v) ?_ ?_
  · rw [List.forall₂_map_left_iff, List.forall₂_same]
    exact fun _ _ => rfl
  · rintro _ _ m rfl ⟨layers, rfl, hlayers⟩
    refine ⟨_, rfl, ?_⟩
    intro i hi
    have hval : (Fin.ofNat n s).val = s := Nat.mod_eq_of_lt hs
    by_cases his : i = Fin.ofNat n s
    · have hold := hlayers i hi
      rw [his, hval, if_neg (lt_irrefl s)] at hold
      rw [his, Function.update_self, hold, hval, if_pos (Nat.lt_succ_self s)]
      rfl
    · have hne : i.val ≠ s := fun heq => his (Fin.ext (heq.trans hval.symm))
      rw [Function.update_of_ne his, hlayers i hi]
      exact if_congr (by omega) rfl rfl

theorem DeckAfter.reshuffled (h : DeckAfter a a d) (hp : d'.Perm d) {l : List (Sym n)}
    (hl : List.Forall₂ (SameCard a) l d') : DeckAfter a (a + 1) l := by
  refine (h.perm hp).change hl ?_
  rintro _ _ m ⟨m', layers', layers, rfl, rfl, hsame⟩ ⟨layers₀, heq, hlayers⟩
  obtain ⟨rfl, rfl⟩ := Sym.card.inj heq
  refine ⟨layers', rfl, ?_⟩
  intro i hi
  rw [hsame i hi, hlayers i hi]
  exact if_congr (by omega) rfl rfl

theorem DeckAfter.card (h : DeckAfter a k d) {i : ℕ} {v : Sym n} (hv : d[i]? = some v) :
    ∃ m, UnderFirst a k v m := by
  obtain ⟨cards, _, hd⟩ := h
  obtain ⟨hi, rfl⟩ := List.getElem?_eq_some_iff.mp hv
  exact ⟨_, hd.get hi (hd.length_eq ▸ hi)⟩

/- No card lies in two slots. -/
theorem DeckAfter.slot_unique (h : DeckAfter a k d) {i j m : ℕ} {layers layers' : Fin n → ℤ}
    (hi : d[i]? = some (.card m layers)) (hj : d[j]? = some (.card m layers')) : i = j := by
  obtain ⟨cards, hcards, hd⟩ := h
  have hnodup : cards.Nodup := hcards.nodup_iff.mpr List.nodup_range'
  have hcard : ∀ {i : ℕ} {layers : Fin n → ℤ}, d[i]? = some (.card m layers) → cards[i]? = some m := by
    intro i layers hi
    obtain ⟨hlt, heq⟩ := List.getElem?_eq_some_iff.mp hi
    have hlt' : i < cards.length := hd.length_eq ▸ hlt
    obtain ⟨_, hm, _⟩ := hd.get hlt hlt'
    have hmi := (Sym.card.inj (heq.symm.trans hm)).1
    rw [List.getElem?_eq_getElem hlt']
    exact congrArg some hmi.symm
  obtain ⟨hlt, hm⟩ := List.getElem?_eq_some_iff.mp (hcard hi)
  obtain ⟨hlt', hm'⟩ := List.getElem?_eq_some_iff.mp (hcard hj)
  exact (hnodup.getElem_inj_iff).mp (hm.trans hm'.symm)

end Decks

/-! ### Secrecy -/

section Secrecy
variable {n : ℕ} [NeZero n]

/- The deck that the last seat hosts. -/
def Final (net : Net (Sym n)) (d : List (Sym n)) : Prop :=
  net.read (n - 1) (shuffleStepKey (n - 1)) = some (.deck d)

def InSlot (net : Net (Sym n)) (slot m : ℕ) : Prop :=
  ∃ d layers, Final net d ∧ d[slot]? = some (.card m layers)

/-- The card in a slot of the seat, of the deck its node deals from, or in its hand. -/
def HoleCard (net : Net (Sym n)) (seat m : ℕ) : Prop :=
  ∃ slot, slot / 2 = seat ∧
    ((∃ layers, (net seat).finalDeck[slot]? = some (.card m layers)) ∨ (net seat).hole slot = .card m 0)

/-- No seat but `a` hosts a hole card of `seat` in the plain. -/
def Secret (a : ℕ) (net : Net (Sym n)) (seat : ℕ) : Prop :=
  ∀ m, HoleCard net seat m → ∀ s < n, s ≠ a → ∀ key, (net s).store.get key ≠ some (.card m 0)

/- The deck that the program would shuffle at a seat. -/
def Pulled (a : ℕ) (net : Net (Sym n)) (d : List (Sym n)) : Prop :=
  if a = 0 then d = Node.buildOrderedDeck (symbolic n)
  else net.read (a - 1) (shuffleStepKey (a - 1)) = some (.deck d)

/-- The malicious seat `a` keeps every card in its slot, and an honest owner's
layer on it. It may use its key as it likes, and host what it likes under keys
that no node polls it for. -/
structure KeepsSlots (a : ℕ) (w : World n) (key : Key) (v : Sym n) : Prop where
  shuffle : key = shuffleStepKey a →
    ∃ d d' l, Pulled a w.net d ∧ d'.Perm d ∧ List.Forall₂ (SameCard a) l d' ∧ v = .deck l
  once : key = shuffleStepKey a → a = n - 1 → w.net.read a key = none
  hole : ∀ slot < n * 2, slot / 2 ≠ a → key = holeRelayKey slot a →
    ∃ d m layers layers', Final w.net d ∧ d[slot]? = some (.card m layers) ∧ v = .card m layers' ∧
      layers' (Fin.ofNat n (slot / 2)) = layers (Fin.ofNat n (slot / 2))
  community : ∀ cardIdx, key = communityRelayKey cardIdx a →
    ∃ m layers, v = .card m layers ∧ InSlot w.net cardIdx m

/-! ### What is hosted and held -/

variable (a : ℕ) (net : Net (Sym n))

def HoleSafe (slot : ℕ) (v : Sym n) : Prop :=
  slot < n * 2 ∧ ∃ m layers, v = .card m layers ∧ InSlot net slot m ∧
    (slot / 2 ≠ a → layers (Fin.ofNat n (slot / 2)) = 1)

def BoardSafe (cardIdx : ℕ) (v : Sym n) : Prop :=
  n * 2 ≤ cardIdx ∧ ∃ m layers, v = .card m layers ∧ InSlot net cardIdx m

def ValueSafe : KeyName → Sym n → Prop
  | .shuffleStep q, v => ∃ d, v = .deck d ∧ DeckAfter a (q + 1) d
  | .holeRelay slot _, v => HoleSafe a net slot v
  | .communityRelay cardIdx _, v => BoardSafe net cardIdx v
  | .communityCard cardIdx, v => BoardSafe net cardIdx v
  | _, _ => False

def StageSafe (slot : ℕ) : SlotStage (Sym n) → Prop
  | .polling q => slot < n * 2 ∧ q < n ∧ q ≠ slot / 2
  | .layered v => HoleSafe a net slot v
  | .returned _ => True

def PhaseSafe (s : ℕ) : Phase (Sym n) → Prop
  | .pollStep => s ≠ 0
  | .shuffling d => DeckAfter a s d
  | .holes slots => ∀ slot st, slots[slot]? = some st → StageSafe a net slot st
  | .pollRelay cardIdx rest => s ≠ 0 ∧ n * 2 ≤ cardIdx ∧ ∀ i ∈ rest, n * 2 ≤ i
  | .stripping cardIdx v rest => BoardSafe net cardIdx v ∧ ∀ i ∈ rest, n * 2 ≤ i
  | .pollCard _ rest => ∀ i ∈ rest, n * 2 ≤ i
  | _ => True

structure NodeSafe (s : ℕ) (r : Node (Sym n)) : Prop where
  once : r.Once s
  stored : ∀ key v, r.store.get key = some v → ∃ name : KeyName, name.key = key ∧ ValueSafe a net name v
  deck : r.finalDeck ≠ [] → Final net r.finalDeck
  held : ∀ slot, slot / 2 = s → r.hole slot = .blank ∨
    ∃ m layers, r.hole slot = .card m layers ∧ InSlot net slot m
  phase : PhaseSafe a net s r.phase

structure NetSafe : Prop where
  nodes : ∀ s, s ≠ a → NodeSafe a net s (net s)
  shuffle : ∀ v, net.read a (shuffleStepKey a) = some v → ValueSafe a net (.shuffleStep a) v
  hole : ∀ slot < n * 2, slot / 2 ≠ a → ∀ v, net.read a (holeRelayKey slot a) = some v →
    HoleSafe a net slot v
  community : ∀ cardIdx, n * 2 ≤ cardIdx → ∀ v, net.read a (communityRelayKey cardIdx a) = some v →
    BoardSafe net cardIdx v

variable {a net} {net' : Net (Sym n)} {s : ℕ} {r r' : Node (Sym n)}

/-! ### The final deck stays -/

def Stays (net net' : Net (Sym n)) : Prop := ∀ d, Final net d → Final net' d

omit [NeZero n] in
theorem InSlot.stays {slot m : ℕ} (h : InSlot net slot m) (hst : Stays net net') : InSlot net' slot m := by
  obtain ⟨d, layers, hd, hget⟩ := h
  exact ⟨d, layers, hst d hd, hget⟩

theorem HoleSafe.stays {slot : ℕ} {v : Sym n} (h : HoleSafe a net slot v) (hst : Stays net net') :
    HoleSafe a net' slot v := by
  obtain ⟨hlt, m, layers, hv, hin, hown⟩ := h
  exact ⟨hlt, m, layers, hv, hin.stays hst, hown⟩

omit [NeZero n] in
theorem BoardSafe.stays {cardIdx : ℕ} {v : Sym n} (h : BoardSafe net cardIdx v) (hst : Stays net net') :
    BoardSafe net' cardIdx v := by
  obtain ⟨hle, m, layers, hv, hin⟩ := h
  exact ⟨hle, m, layers, hv, hin.stays hst⟩

theorem ValueSafe.stays {name : KeyName} {v : Sym n} (h : ValueSafe a net name v)
    (hst : Stays net net') : ValueSafe a net' name v := by
  cases name with
  | shuffleStep q => exact h
  | holeRelay slot q => exact HoleSafe.stays h hst
  | communityRelay cardIdx q => exact BoardSafe.stays h hst
  | communityCard cardIdx => exact BoardSafe.stays h hst
  | _ => exact h

theorem StageSafe.stays {slot : ℕ} {st : SlotStage (Sym n)} (h : StageSafe a net slot st)
    (hst : Stays net net') : StageSafe a net' slot st := by
  cases st with
  | layered v => exact HoleSafe.stays h hst
  | _ => exact h

theorem PhaseSafe.stays {ph : Phase (Sym n)} (h : PhaseSafe a net s ph) (hst : Stays net net') :
    PhaseSafe a net' s ph := by
  cases ph with
  | holes slots => exact fun slot st hslot => (h slot st hslot).stays hst
  | stripping cardIdx v rest => exact ⟨h.1.stays hst, h.2⟩
  | _ => exact h

theorem NodeSafe.stays (h : NodeSafe a net s r) (hst : Stays net net') : NodeSafe a net' s r where
  once := h.once
  stored := by
    intro key v hv
    obtain ⟨name, hkey, hsafe⟩ := h.stored key v hv
    exact ⟨name, hkey, hsafe.stays hst⟩
  deck hne := hst _ (h.deck hne)
  held := by
    intro slot hslot
    refine (h.held slot hslot).imp_right ?_
    rintro ⟨m, layers, hm, hin⟩
    exact ⟨m, layers, hm, hin.stays hst⟩
  phase := h.phase.stays hst

theorem NodeSafe.value (h : NodeSafe a net s r) (name : KeyName) {v : Sym n}
    (hv : r.store.get name.key = some v) : ValueSafe a net name v := by
  obtain ⟨name', hkey, hsafe⟩ := h.stored _ v hv
  obtain rfl := KeyName.key_injective hkey
  exact hsafe

/-! ### What a poll returns -/

theorem NetSafe.step_value (h : NetSafe a net) {q : ℕ} {v : Sym n}
    (hv : net.read q (shuffleStepKey q) = some v) : ∃ d, v = .deck d ∧ DeckAfter a (q + 1) d := by
  by_cases hq : q = a
  · subst hq
    exact h.shuffle v hv
  · exact (h.nodes q hq).value (.shuffleStep q) hv

theorem NetSafe.hole_value (h : NetSafe a net) {slot q : ℕ} {v : Sym n} (hslot : slot < n * 2)
    (hq : q ≠ slot / 2) (hv : net.read q (holeRelayKey slot q) = some v) : HoleSafe a net slot v := by
  by_cases hqa : q = a
  · subst hqa
    exact h.hole slot hslot (Ne.symm hq) v hv
  · exact (h.nodes q hqa).value (.holeRelay slot q) hv

theorem NetSafe.community_value (h : NetSafe a net) {cardIdx q : ℕ} {v : Sym n} (hidx : n * 2 ≤ cardIdx)
    (hv : net.read q (communityRelayKey cardIdx q) = some v) : BoardSafe net cardIdx v := by
  by_cases hqa : q = a
  · subst hqa
    exact h.community cardIdx hidx v hv
  · exact (h.nodes q hqa).value (.communityRelay cardIdx q) hv

theorem NetSafe.final (h : NetSafe a net) {d : List (Sym n)} (hd : Final net d) : DeckAfter a n d := by
  obtain ⟨d', heq, hafter⟩ := h.step_value hd
  obtain rfl := Sym.deck.inj heq
  rwa [Nat.sub_add_cancel (Nat.pos_of_ne_zero (NeZero.ne n))] at hafter

/- A card straight from the final deck. -/
theorem NetSafe.holeSafe_deck (h : NetSafe a net) {d : List (Sym n)} (hd : Final net d) {slot : ℕ}
    {v : Sym n} (hslot : slot < n * 2) (hv : d[slot]? = some v) : HoleSafe a net slot v := by
  obtain ⟨m, layers, rfl, hlayers⟩ := (h.final hd).card hv
  refine ⟨hslot, m, layers, rfl, ⟨d, layers, hd, hv⟩, ?_⟩
  intro hne
  have hlt : slot / 2 < n := by omega
  have hval : (Fin.ofNat n (slot / 2)).val = slot / 2 := Nat.mod_eq_of_lt hlt
  rw [hlayers _ (by rwa [hval]), hval, if_pos hlt]

theorem NetSafe.boardSafe_deck (h : NetSafe a net) {d : List (Sym n)} (hd : Final net d) {cardIdx : ℕ}
    {v : Sym n} (hidx : n * 2 ≤ cardIdx) (hv : d[cardIdx]? = some v) : BoardSafe net cardIdx v := by
  obtain ⟨m, layers, rfl, _⟩ := (h.final hd).card hv
  exact ⟨hidx, m, layers, rfl, d, layers, hd, hv⟩

/-! ### One step of an honest node -/

section Move
variable {draws : ℕ → Deck.Draws}

theorem NetSafe.stays_move (h : NetSafe a net) (hsa : s ≠ a)
    (hm : Node.Move (symbolic n) ((symbolicTable n draws).setup s) net.read (net s) r') :
    Stays net (Function.update net s r') := by
  intro d hd
  unfold Final Net.read at hd ⊢
  by_cases hs : n - 1 = s
  · rw [hs] at hd ⊢
    rw [Function.update_self]
    exact (h.nodes s hsa).once.keeps_step hm hd
  · rwa [Function.update_of_ne hs]

theorem NodeSafe.stored_put {store : Store (Sym n)} (name : KeyName) {v : Sym n}
    (h : ∀ key v, store.get key = some v → ∃ name : KeyName, name.key = key ∧ ValueSafe a net name v)
    (hv : ValueSafe a net name v) (key : Key) (v' : Sym n)
    (hget : (store.put name.key v).get key = some v') :
    ∃ name : KeyName, name.key = key ∧ ValueSafe a net name v' := by
  unfold Store.put Store.get at hget
  dsimp only at hget
  split_ifs at hget with hkey
  · obtain rfl := Option.some.inj hget
    exact ⟨name, hkey.symm, hv⟩
  · exact h key v' hget

/- A step that hosts nothing and keeps the deck and the hand. -/
theorem NodeSafe.goto (h : NodeSafe a net s r) (honce : r'.Once s) (hstore : r'.store = r.store)
    (hdeck : r'.finalDeck = r.finalDeck) (hhole : r'.hole = r.hole)
    (hphase : PhaseSafe a net s r'.phase) : NodeSafe a net s r' where
  once := honce
  stored := hstore ▸ h.stored
  deck := hdeck ▸ h.deck
  held := hhole ▸ h.held
  phase := hphase

theorem NetSafe.reveal (h : NetSafe a net) (hdeck : r.finalDeck ≠ [] → Final net r.finalDeck)
    {cards : List ℕ} (hcards : ∀ i ∈ cards, n * 2 ≤ i) :
    PhaseSafe a net s (r.reveal ((symbolicTable n draws).setup s) cards).phase := by
  cases cards with
  | nil => trivial
  | cons cardIdx rest =>
    obtain ⟨hidx, hrest⟩ := List.forall_mem_cons.mp hcards
    simp only [Node.reveal]
    split
    · trivial
    · rename_i card hget
      have hne : r.finalDeck ≠ [] := by
        intro hnil
        rw [hnil] at hget
        cases hget
      split_ifs with h0
      · exact ⟨h.boardSafe_deck (hdeck hne) hidx hget, hrest⟩
      · exact ⟨h0, hidx, hrest⟩

theorem NetSafe.dealHoleSlot (h : NetSafe a net) (hdeck : r.finalDeck ≠ [] → Final net r.finalDeck)
    {slot : ℕ} (hslot : slot < n * 2) :
    StageSafe a net slot (r.dealHoleSlot ((symbolicTable n draws).setup s) slot) := by
  simp only [Node.dealHoleSlot]
  split
  · trivial
  · rename_i card hget
    have hne : r.finalDeck ≠ [] := by
      intro hnil
      rw [hnil] at hget
      cases hget
    split_ifs with hown hw
    · trivial
    · split
      · trivial
      · rename_i q hq
        obtain ⟨hq, hqw⟩ := mem_nonOwnerRing.mp (List.mem_of_getLast? hq)
        exact ⟨hslot, hq, hqw⟩
    · split
      · trivial
      · split
        · trivial
        · exact h.holeSafe_deck (hdeck hne) hslot hget
        · rename_i i hpos
          obtain ⟨hlt, _, _⟩ := List.idxOf?_eq_some_iff.mp hpos
          have hi : i < (nonOwnerRing n (slot / 2)).length := Nat.lt_of_succ_lt hlt
          have hmem : (nonOwnerRing n (slot / 2)).getD i 0 ∈ nonOwnerRing n (slot / 2) := by
            rw [List.getD_eq_getElem _ _ hi]
            exact List.getElem_mem hi
          exact ⟨hslot, mem_nonOwnerRing.mp hmem⟩

theorem HoleSafe.strip {slot : ℕ} {v : Sym n} (h : HoleSafe a net slot v) (hs : s < n)
    (hw : s ≠ slot / 2) : HoleSafe a net slot (Sym.layer (Fin.ofNat n s) (-1) v) := by
  obtain ⟨hslot, m, layers, rfl, hin, hown⟩ := h
  refine ⟨hslot, m, _, rfl, hin, ?_⟩
  intro hne
  have hkey : Fin.ofNat n (slot / 2) ≠ Fin.ofNat n s := by
    intro heq
    have hval := congrArg Fin.val heq
    simp only [Fin.val_ofNat] at hval
    rw [Nat.mod_eq_of_lt hs, Nat.mod_eq_of_lt (by omega)] at hval
    exact hw hval.symm
  rw [Function.update_of_ne hkey]
  exact hown hne

omit [NeZero n] in
theorem BoardSafe.strip {cardIdx : ℕ} {v : Sym n} (h : BoardSafe net cardIdx v) (k : Fin n) :
    BoardSafe net cardIdx (Sym.layer k (-1) v) := by
  obtain ⟨hidx, m, layers, rfl, hin⟩ := h
  exact ⟨hidx, m, _, rfl, hin⟩

theorem NodeSafe.at_phase {ph : Phase (Sym n)} (h : NodeSafe a net s r) (hph : r.phase = ph) :
    PhaseSafe a net s ph := hph ▸ h.phase

theorem StageSafe.set {slots : List (SlotStage (Sym n))} {slot : ℕ} {st : SlotStage (Sym n)}
    (h : ∀ i x, slots[i]? = some x → StageSafe a net i x) (hst : StageSafe a net slot st) (i : ℕ)
    (x : SlotStage (Sym n)) (hx : (slots.set slot st)[i]? = some x) : StageSafe a net i x := by
  rw [List.getElem?_set] at hx
  split_ifs at hx with heq
  · obtain rfl := Option.some.inj hx
    rwa [← heq]
  · exact h i x hx

omit [NeZero n] in
theorem decode_deck {v : Sym n} {d : List (Sym n)} (h : (symbolic n).decodeDeck v = some d) :
    v = .deck d := by
  cases v with
  | deck cards => exact congrArg _ (Option.some.inj h)
  | _ => cases h

theorem call_cards_le {call : Call} : ∀ i ∈ call.cards ((symbolicTable n draws).setup s), n * 2 ≤ i := by
  intro i hi
  have hbase : ((symbolicTable n draws).setup s).communityBase = n * 2 := rfl
  cases call <;> simp only [Call.cards, hbase, List.mem_cons, List.not_mem_nil, or_false] at hi <;> omega

theorem NetSafe.shuffle_node (h : NetSafe a net) (hs : s < n) (hsa : s ≠ a) {d : List (Sym n)}
    (hph : (net s).phase = .shuffling d) (r' : Node (Sym n))
    (hr' : r' = (net s).shuffle (symbolic n) ((symbolicTable n draws).setup s) d) :
    NodeSafe a (Function.update net s r') s r' := by
  have hm : Node.Move (symbolic n) ((symbolicTable n draws).setup s) net.read (net s) r' :=
    hr' ▸ .shuffle hph
  have hnode := (h.nodes s hsa).stays (h.stays_move hsa hm)
  have hafter : DeckAfter a (s + 1)
      (Node.encryptDeck (symbolic n) ((symbolicTable n draws).setup s) (Deck.shuffle (draws s) d)) :=
    DeckAfter.encrypt (((h.nodes s hsa).at_phase hph).perm (Deck.shuffle_perm _ _)) hs
  have honce := (h.nodes s hsa).once.move hm
  have hself : (Function.update net s r') s = r' := Function.update_self ..
  generalize Function.update net s r' = net' at hnode hself ⊢
  have hstored := NodeSafe.stored_put (.shuffleStep s) hnode.stored ⟨_, rfl, hafter⟩
  simp only [Node.shuffle] at hr'
  split_ifs at hr' with hl
  · subst hr'
    refine ⟨honce, hstored, fun _ => ?_, hnode.held, trivial⟩
    have hlast : n - 1 = s := (show s = n - 1 from hl).symm
    unfold Final Net.read
    rw [hlast, hself]
    exact (Store.get_put _ (.shuffleStep s) (.shuffleStep s) _).trans (if_pos rfl)
  · subst hr'
    exact ⟨honce, hstored, hnode.deck, hnode.held, trivial⟩

theorem NodeSafe.stripSlot (h : NodeSafe a net s r) (hs : s < n) {slots : List (SlotStage (Sym n))}
    {slot : ℕ} {v : Sym n} (hph : r.phase = .holes slots) (hslot : slots[slot]? = some (.layered v))
    (honce : Node.Once s { r.stripSlot (symbolic n) ((symbolicTable n draws).setup s) slot v with
      phase := .holes (slots.set slot (.returned none)) }) :
    NodeSafe a net s { r.stripSlot (symbolic n) ((symbolicTable n draws).setup s) slot v with
      phase := .holes (slots.set slot (.returned none)) } := by
  have hslots := h.at_phase hph
  have hsafe : HoleSafe a net slot v := hslots slot _ hslot
  have hphase := StageSafe.set hslots (show StageSafe a net slot (.returned none) from trivial)
  simp only [Node.stripSlot] at honce ⊢
  split_ifs at honce ⊢ with hw
  · have hw' : slot / 2 = s := hw.symm
    refine ⟨honce, by rw [Node.setHole_store]; exact h.stored,
      by rw [Node.setHole_finalDeck]; exact h.deck, ?_, hphase⟩
    intro i hi
    by_cases heq : i = slot
    · subst heq
      obtain ⟨_, m, layers, rfl, hin, _⟩ := hsafe
      exact .inr ⟨m, _, hole_setHole .., hin⟩
    · have hold := h.held i hi
      rwa [← hole_setHole_of_ne ((symbolic n).dec _ v) (hi.trans hw'.symm) heq] at hold
  · exact ⟨honce, stored_put (.holeRelay slot s) h.stored (hsafe.strip hs hw), h.deck, h.held,
      hphase⟩

theorem NodeSafe.stripCard (h : NodeSafe a net' s (net s)) (hnet : NetSafe a net) (hsa : s ≠ a)
    (hst : Stays net net') {cardIdx : ℕ} {v : Sym n} {rest : List ℕ}
    (hph : (net s).phase = .stripping cardIdx v rest)
    (honce : ((net s).stripCard (symbolic n) ((symbolicTable n draws).setup s) cardIdx v rest).Once s) :
    NodeSafe a net' s
      ((net s).stripCard (symbolic n) ((symbolicTable n draws).setup s) cardIdx v rest) := by
  obtain ⟨hsafe, hrest⟩ := h.at_phase hph
  have hstrip := hsafe.strip (Fin.ofNat n s)
  have hstored := stored_put (.communityRelay cardIdx s) h.stored hstrip
  simp only [Node.stripCard] at honce ⊢
  split_ifs at honce ⊢ with hl
  · refine ⟨honce, ?_, ?_, ?_, ?_⟩
    · rw [Node.reveal_store, Node.setCommunity_store]
      exact stored_put (.communityCard cardIdx) hstored hstrip
    · rw [Node.reveal_finalDeck, Node.setCommunity_finalDeck]
      exact h.deck
    · rw [Node.reveal_hole, Node.setCommunity_hole]
      exact h.held
    · refine (hnet.reveal ?_ hrest).stays hst
      rw [Node.setCommunity_finalDeck]
      exact (hnet.nodes s hsa).deck
  · exact ⟨honce, hstored, h.deck, h.held, hrest⟩

theorem NetSafe.move (h : NetSafe a net) (hs : s < n) (hsa : s ≠ a)
    (hm : Node.Move (symbolic n) ((symbolicTable n draws).setup s) net.read (net s) r') :
    NodeSafe a (Function.update net s r') s r' := by
  have hold := h.nodes s hsa
  have hst := h.stays_move hsa hm
  have hnode := hold.stays hst
  have honce : r'.Once s := hold.once.move hm
  cases hm with
  | tooFew => exact hnode.goto honce rfl rfl rfl trivial
  | openDeck _ _ h0 =>
    refine hnode.goto honce rfl rfl rfl ?_
    show DeckAfter a s _
    rw [show s = 0 from h0]
    exact deckAfter_ordered
  | awaitStep _ _ h0 => exact hnode.goto honce rfl rfl rfl h0
  | openHoles =>
    refine hnode.goto honce rfl rfl rfl fun slot st hslot => ?_
    rw [List.getElem?_map, Option.map_eq_some_iff] at hslot
    obtain ⟨i, hi, rfl⟩ := hslot
    obtain ⟨hlt, rfl⟩ := List.getElem?_eq_some_iff.mp hi
    rw [List.length_range] at hlt
    rw [List.getElem_range]
    exact (h.dealHoleSlot hold.deck hlt).stays hst
  | openReveal =>
    refine hnode.goto honce (Node.reveal_store ..) (Node.reveal_finalDeck ..) (Node.reveal_hole ..) ?_
    refine PhaseSafe.stays (h.reveal ?_ call_cards_le) hst
    exact hold.deck
  | gotStep hph hread hdec =>
    have h0 : s ≠ 0 := hold.at_phase hph
    obtain rfl := decode_deck hdec
    obtain ⟨d, heq, hafter⟩ := h.step_value hread
    obtain rfl := Sym.deck.inj heq
    refine hnode.goto honce rfl rfl rfl ?_
    have hback : s = s - 1 + 1 := by omega
    show DeckAfter a s _
    rw [hback]
    exact hafter
  | badStep => exact hnode.goto honce rfl rfl rfl trivial
  | shuffle hph => exact h.shuffle_node hs hsa hph _ rfl
  | gotFinal _ hread hdec =>
    obtain rfl := decode_deck hdec
    exact ⟨honce, hnode.stored, fun _ => hst _ hread, hnode.held, trivial⟩
  | badFinal => exact hnode.goto honce rfl rfl rfl trivial
  | @gotHole slots slot q v hph hslot hread =>
    obtain ⟨hlt, _, hq⟩ := hold.at_phase hph slot _ hslot
    exact hnode.goto honce rfl rfl rfl
      (StageSafe.set (hnode.at_phase hph) ((h.hole_value hlt hq hread).stays hst))
  | stripSlot hph hslot => exact hnode.stripSlot hs hph hslot honce
  | holesDone => exact hnode.goto honce rfl rfl rfl trivial
  | holesFailed => exact hnode.goto honce rfl rfl rfl trivial
  | gotRelay hph hread =>
    obtain ⟨_, hidx, hrest⟩ := hold.at_phase hph
    exact hnode.goto honce rfl rfl rfl ⟨(h.community_value hidx hread).stays hst, hrest⟩
  | stripCard hph => exact hnode.stripCard h hsa hst hph honce
  | gotCard hph _ =>
    refine hnode.goto honce (by rw [Node.reveal_store, Node.setCommunity_store])
      (by rw [Node.reveal_finalDeck, Node.setCommunity_finalDeck])
      (by rw [Node.reveal_hole, Node.setCommunity_hole]) ((h.reveal ?_ (hold.at_phase hph)).stays hst)
    rw [Node.setCommunity_finalDeck]
    exact hold.deck

/-! ### Whole runs -/

theorem NetSafe.start (a : ℕ) : NetSafe a (Net.start (symbolic n)) where
  nodes s _ := by
    refine ⟨.inl ⟨_, rfl, rfl, by decide, nofun⟩, nofun, fun hne => absurd rfl hne, ?_, trivial⟩
    intro slot _
    left
    unfold Node.hole
    split_ifs <;> rfl
  shuffle := nofun
  hole := nofun
  community := nofun

theorem Pulled.after (h : NetSafe a net) {d : List (Sym n)} (hd : Pulled a net d) : DeckAfter a a d := by
  unfold Pulled at hd
  split_ifs at hd with h0
  · rw [hd, h0]
    exact deckAfter_ordered
  · obtain ⟨d', heq, hafter⟩ := h.step_value hd
    obtain rfl := Sym.deck.inj heq
    rwa [Nat.sub_add_cancel (Nat.pos_of_ne_zero h0)] at hafter

omit [NeZero n] in
theorem get_hosting (w : World n) (key k : Key) (v : Sym n) :
    (w.hosting a key v).net.read a k = if k = key then some v else w.net.read a k := by
  unfold Net.read World.hosting
  dsimp only
  rw [Function.update_self]
  rfl

theorem NetSafe.host {w : World n} {key : Key} {v : Sym n} (h : NetSafe a w.net)
    (hkeep : KeepsSlots a w key v) : NetSafe a (w.hosting a key v).net := by
  have hst : Stays w.net (w.hosting a key v).net := by
    intro d hd
    unfold Final at hd ⊢
    by_cases ha : a = n - 1
    · rw [← ha] at hd ⊢
      rw [get_hosting, if_neg]
      · exact hd
      · intro hkey
        have hnone := hkeep.once hkey.symm ha
        rw [← hkey, hd] at hnone
        cases hnone
    · unfold Net.read World.hosting
      dsimp only
      rwa [Function.update_of_ne (Ne.symm ha)]
  refine ⟨?_, ?_, ?_, ?_⟩
  · intro s hsa
    have hsame : (w.hosting a key v).net s = w.net s := Function.update_of_ne hsa ..
    rw [hsame]
    exact (h.nodes s hsa).stays hst
  · intro x hx
    rw [get_hosting] at hx
    split_ifs at hx with hkey
    · obtain rfl := Option.some.inj hx
      obtain ⟨d, d', l, hd, hp, hl, rfl⟩ := hkeep.shuffle hkey.symm
      exact ⟨l, rfl, (hd.after h).reshuffled hp hl⟩
    · exact (h.shuffle x hx).stays hst
  · intro slot hslot hne x hx
    rw [get_hosting] at hx
    split_ifs at hx with hkey
    · obtain rfl := Option.some.inj hx
      obtain ⟨d, m, layers, layers', hd, hget, rfl, hown⟩ := hkeep.hole slot hslot hne hkey.symm
      obtain ⟨_, m', layers₀, heq, _, hone⟩ := h.holeSafe_deck hd hslot hget
      obtain ⟨rfl, rfl⟩ := Sym.card.inj heq
      exact ⟨hslot, m, layers', rfl, ⟨d, layers, hst d hd, hget⟩, fun hne => hown.trans (hone hne)⟩
    · exact (h.hole slot hslot hne x hx).stays hst
  · intro cardIdx hidx x hx
    rw [get_hosting] at hx
    split_ifs at hx with hkey
    · obtain rfl := Option.some.inj hx
      obtain ⟨m, layers, rfl, hin⟩ := hkeep.community cardIdx hkey.symm
      exact ⟨hidx, m, layers, rfl, hin.stays hst⟩
    · exact (h.community cardIdx hidx x hx).stays hst

theorem NetSafe.attack {w w' : World n} (h : NetSafe a w.net)
    (hstep : Attack n draws a (KeepsSlots a) w w') : NetSafe a w'.net := by
  cases hstep with
  | @node s i r hs hsa hstep =>
    have hm := Node.step_move hstep
    have hst := h.stays_move hsa hm
    have hown : ∀ key, Net.read (Function.update w.net s r) a key = w.net.read a key := by
      intro key
      unfold Net.read
      rw [Function.update_of_ne (Ne.symm hsa)]
    refine ⟨?_, ?_, ?_, ?_⟩
    · intro q hq
      show NodeSafe a (Function.update w.net s r) q (Function.update w.net s r q)
      by_cases hqs : q = s
      · subst hqs
        rw [Function.update_self]
        exact h.move hs hsa hm
      · rw [Function.update_of_ne hqs]
        exact (h.nodes q hq).stays hst
    · exact fun v hv => (h.shuffle v ((hown _).symm.trans hv)).stays hst
    · exact fun slot hlt hne v hv => (h.hole slot hlt hne v ((hown _).symm.trans hv)).stays hst
    · exact fun i hi v hv => (h.community i hi v ((hown _).symm.trans hv)).stays hst
  | read _ => exact h
  | host _ hkeep => exact h.host hkeep

theorem NetSafe.attacked {w w' : World n} (h : NetSafe a w.net)
    (hrun : Attacked n draws a (KeepsSlots a) w w') : NetSafe a w'.net := by
  induction hrun with
  | refl => exact h
  | tail _ hstep ih => exact ih.attack hstep

theorem NetSafe.inSlot_of_holeCard (h : NetSafe a net) (hsa : s ≠ a) {m : ℕ} (hm : HoleCard net s m) :
    ∃ slot, slot / 2 = s ∧ InSlot net slot m := by
  obtain ⟨slot, hslot, ⟨layers, hget⟩ | hhand⟩ := hm
  · refine ⟨slot, hslot, _, layers, (h.nodes s hsa).deck ?_, hget⟩
    intro hnil
    rw [hnil] at hget
    cases hget
  · rcases (h.nodes s hsa).held slot hslot with hblank | ⟨m', layers, hcard, hin⟩
    · cases hblank.symm.trans hhand
    · obtain ⟨rfl, _⟩ := Sym.card.inj (hcard.symm.trans hhand)
      exact ⟨slot, hslot, hin⟩

theorem NetSafe.slot_unique (h : NetSafe a net) {i j m : ℕ} (hi : InSlot net i m) (hj : InSlot net j m) :
    i = j := by
  obtain ⟨d, layers, hd, hget⟩ := hi
  obtain ⟨d', layers', hd', hget'⟩ := hj
  obtain rfl := Sym.deck.inj (Option.some.inj (hd.symm.trans hd'))
  exact (h.final hd).slot_unique hget hget'

theorem NetSafe.secret (h : NetSafe a net) (hs : s < n) (hsa : s ≠ a) : Secret a net s := by
  intro m hm q _ hqa key hkey
  obtain ⟨slot, hslot, hin⟩ := h.inSlot_of_holeCard hsa hm
  obtain ⟨name, _, hsafe⟩ := (h.nodes q hqa).stored key _ hkey
  -- a board card lies behind all the hole slots
  have hboard : ∀ cardIdx, ¬ BoardSafe net cardIdx (.card m 0) := by
    rintro cardIdx ⟨hidx, m', layers, heq, hin'⟩
    obtain ⟨rfl, _⟩ := Sym.card.inj heq
    have := h.slot_unique hin hin'
    omega
  cases name with
  | shuffleStep _ =>
    obtain ⟨_, heq, _⟩ := hsafe
    cases heq
  | holeRelay slot' _ =>
    obtain ⟨_, m', layers, heq, hin', hown⟩ := hsafe
    obtain ⟨rfl, rfl⟩ := Sym.card.inj heq
    obtain rfl := h.slot_unique hin hin'
    exact (zero_ne_one : (0 : ℤ) ≠ 1) (hown (hslot ▸ hsa))
  | communityRelay cardIdx _ => exact hboard cardIdx hsafe
  | communityCard cardIdx => exact hboard cardIdx hsafe
  | _ => exact hsafe

/-- In every run in which the malicious seat keeps the cards in their slots, no
honest node hosts another honest seat's hole card in the plain. -/
theorem hole_cards_secret {w : World n}
    (hrun : Attacked n draws a (KeepsSlots a) (World.start n) w) (hs : s < n) (hsa : s ≠ a) :
    Secret a w.net s :=
  ((NetSafe.start a).attacked hrun).secret hs hsa

end Move

end Secrecy

/-! ### A card in another slot's ring -/

def Sym.base {n : ℕ} : Sym n → Option ℕ
  | .card m _ => some m
  | _ => none

def Sym.isPlain {n : ℕ} (m : ℕ) : Sym n → Bool
  | .card m' layers => m' == m && decide (layers = 0)
  | _ => false

theorem Sym.eq_card_of_base {n m : ℕ} {v : Sym n} (h : v.base = some m) : ∃ layers, v = .card m layers := by
  cases v with
  | card m' layers => exact ⟨layers, by rw [Option.some.inj h]⟩
  | _ => cases h

theorem Sym.eq_card_of_isPlain {n m : ℕ} {v : Sym n} (h : v.isPlain m = true) : v = .card m 0 := by
  cases v with
  | card m' layers =>
    obtain ⟨hm, hl⟩ := Bool.and_eq_true_iff.mp h
    rw [beq_iff_eq.mp hm, of_decide_eq_true hl]
  | _ => cases h

/- No seat moves a card. -/
def inOrder : ℕ → Deck.Draws := fun _ i => Fin.last i

/- The malicious seat's own shuffle: the ordered deck under its layer. -/
def ownDeck : Recipe :=
  (List.range 52).foldr (fun i deck => .cons (.enc (.card (i + 1))) deck) .nil

def shuffled : List Act :=
  [.node 1 .begin, .node 1 .pollStep, .node 1 .shuffle,
    .node 2 .begin, .node 2 .pollStep, .node 2 .shuffle, .node 1 .pollFinal]

def layered (n : ℕ) (k : Fin n) : List (Sym n) :=
  (Node.buildOrderedDeck (symbolic n)).map (Sym.layer k 1)

theorem eval_ownDeck {n : ℕ} (k : Fin n) (known : List (Sym n)) :
    ownDeck.eval k known = some (.deck (layered n k)) := rfl

theorem keepsSlots_ownDeck (n : ℕ) [NeZero n] (hn : 2 ≤ n) :
    KeepsSlots 0 (World.start n) (shuffleStepKey 0) (.deck (layered n (Fin.ofNat n 0))) where
  shuffle _ := by
    refine ⟨_, _, _, rfl, List.Perm.refl _, ?_, rfl⟩
    rw [layered, List.forall₂_map_left_iff, List.forall₂_same]
    intro v hv
    obtain ⟨i, _, rfl⟩ := List.mem_map.mp hv
    refine ⟨i + 1, _, 0, rfl, rfl, ?_⟩
    intro j hj
    refine Function.update_of_ne ?_ _ _
    rintro rfl
    exact hj (Nat.zero_mod n)
  once _ h0 := by omega
  hole slot _ _ hkey := by
    have := KeyName.key_injective (show (KeyName.shuffleStep 0).key = (KeyName.holeRelay slot 0).key from hkey)
    cases this
  community cardIdx hkey := by
    have := KeyName.key_injective
      (show (KeyName.shuffleStep 0).key = (KeyName.communityRelay cardIdx 0).key from hkey)
    cases this

section Relays
variable {n : ℕ} {a slot m : ℕ} {layers layers' : Fin n → ℤ} {w : World n}

/- The card of a slot, as everybody reads it off the final deck. -/
def slotCard (net : Net (Sym n)) (slot : ℕ) : Option (ℕ × (Fin n → ℤ)) :=
  match net.read (n - 1) (shuffleStepKey (n - 1)) with
  | some (.deck d) =>
    match d[slot]? with
    | some (.card m layers) => some (m, layers)
    | _ => none
  | _ => none

theorem of_slotCard {net : Net (Sym n)} (h : slotCard net slot = some (m, layers)) :
    ∃ d, Final net d ∧ d[slot]? = some (.card m layers) := by
  unfold slotCard at h
  split at h
  · rename_i d hd
    split at h
    · rename_i hget
      obtain ⟨rfl, rfl⟩ := Prod.mk.inj (Option.some.inj h)
      exact ⟨d, hd, hget⟩
    · cases h
  · cases h

variable [NeZero n]

theorem keepsSlots_hole (h : slotCard w.net slot = some (m, layers))
    (hown : layers' (Fin.ofNat n (slot / 2)) = layers (Fin.ofNat n (slot / 2))) :
    KeepsSlots a w (holeRelayKey slot a) (.card m layers') := by
  obtain ⟨d, hd, hget⟩ := of_slotCard h
  have hname : ∀ name : KeyName, holeRelayKey slot a = name.key → name = .holeRelay slot a :=
    fun name hkey => (KeyName.key_injective (show (KeyName.holeRelay slot a).key = name.key from hkey)).symm
  refine ⟨fun hkey => ?_, fun hkey => ?_, fun slot' _ _ hkey => ?_, fun cardIdx hkey => ?_⟩
  · cases hname (.shuffleStep a) hkey
  · cases hname (.shuffleStep a) hkey
  · cases hname (.holeRelay slot' a) hkey
    exact ⟨d, m, layers, layers', hd, hget, rfl, hown⟩
  · cases hname (.communityRelay cardIdx a) hkey

theorem keepsSlots_community (h : slotCard w.net slot = some (m, layers)) :
    KeepsSlots a w (communityRelayKey slot a) (.card m layers') := by
  obtain ⟨d, hd, hget⟩ := of_slotCard h
  have hname : ∀ name : KeyName, communityRelayKey slot a = name.key → name = .communityRelay slot a :=
    fun name hkey => (KeyName.key_injective (show (KeyName.communityRelay slot a).key = name.key from hkey)).symm
  refine ⟨fun hkey => ?_, fun hkey => ?_, fun slot' _ _ hkey => ?_, fun cardIdx hkey => ?_⟩
  · cases hname (.shuffleStep a) hkey
  · cases hname (.shuffleStep a) hkey
  · cases hname (.holeRelay slot' a) hkey
  · cases hname (.communityRelay cardIdx a) hkey
    exact ⟨m, layers', rfl, d, layers, hd, hget⟩

/- A relay of the card that lies in the slot. -/
def relays (a : ℕ) (w : World n) (key : Key) : Sym n → Bool
  | .card m layers => (List.range 52).any fun slot =>
    match slotCard w.net slot with
    | some (m', layers') =>
      m' == m && (key == communityRelayKey slot a || key == holeRelayKey slot a &&
        layers (Fin.ofNat n (slot / 2)) == layers' (Fin.ofNat n (slot / 2)))
    | none => false
  | _ => false

theorem keepsSlots_of_relays {key : Key} {v : Sym n} (h : relays a w key v = true) : KeepsSlots a w key v := by
  cases v with
  | card m layers =>
    obtain ⟨slot, _, h⟩ := List.any_eq_true.mp h
    split at h
    · rename_i hslot
      obtain ⟨hm, hkey⟩ := Bool.and_eq_true_iff.mp h
      obtain rfl := beq_iff_eq.mp hm
      rcases Bool.or_eq_true_iff.mp hkey with hkey | hkey
      · obtain rfl := beq_iff_eq.mp hkey
        exact keepsSlots_community hslot
      · obtain ⟨hkey, hown⟩ := Bool.and_eq_true_iff.mp hkey
        obtain rfl := beq_iff_eq.mp hkey
        exact keepsSlots_hole hslot (beq_iff_eq.mp hown)
    · cases h
  | _ => cases h

end Relays

/- Every card is dealt in its slot, and the first card of the flop comes up. The malicious
seat leaves its layer on the card in slot 3. -/
def dealt : List Act :=
  [[.read 2 (shuffleStepKey 2)],
    [.host (holeRelayKey 2 0) (.dec (.nth 2 (.known 0))), .host (holeRelayKey 3 0) (.nth 3 (.known 0)),
      .host (holeRelayKey 4 0) (.dec (.nth 4 (.known 0))), .host (holeRelayKey 5 0) (.dec (.nth 5 (.known 0)))],
    [.node 1 .begin, .node 1 (.stripSlot 0), .node 1 (.stripSlot 1)],
    [4, 5].flatMap fun slot => [.node 1 (.pollHole slot), .node 1 (.stripSlot slot)],
    [.node 2 .begin],
    (List.range 6).flatMap fun slot => [.node 2 (.pollHole slot), .node 2 (.stripSlot slot)],
    [2, 3].flatMap fun slot => [.node 1 (.pollHole slot), .node 1 (.stripSlot slot)],
    [.node 1 .holesDone, .node 2 .holesDone],
    [.host (communityRelayKey 6 0) (.dec (.nth 6 (.known 0)))],
    [.node 1 .begin, .node 1 .pollRelay, .node 1 .stripCard],
    [.node 2 .begin, .node 2 .pollRelay, .node 2 .stripCard, .node 1 .pollCard]].flatten

theorem hole_cards_secret_three_seats :
    ∃ w, Attacked 3 inOrder 0 (KeepsSlots 0) (World.start 3) w ∧
      (w.net 1).card1 = .card 3 0 ∧ (w.net 1).community.head? = some (.card 7 0) ∧
      HoleCard w.net 1 3 ∧ Secret 0 w.net 1 := by
  have hrun : (attack 3 inOrder 0 (relays 0) ((World.start 3).hosting 0 (shuffleStepKey 0) (.deck (layered 3 0)))
      (shuffled ++ dealt)).map (fun w =>
        ((w.net 1).card1.isPlain 3, (w.net 1).community.head?.map (Sym.isPlain 7))) = some (true, some true) := by
    decide +kernel
  obtain ⟨w, hw, hcheck⟩ := Option.map_eq_some_iff.mp hrun
  obtain ⟨hhand, hboard⟩ := Prod.mk.inj hcheck
  obtain ⟨v, hv, hplain⟩ := Option.map_eq_some_iff.mp hboard
  obtain rfl := Sym.eq_card_of_isPlain hplain
  have hcard := Sym.eq_card_of_isPlain hhand
  have hhost : Attack 3 inOrder 0 (KeepsSlots 0) (World.start 3)
      ((World.start 3).hosting 0 (shuffleStepKey 0) (.deck (layered 3 0))) :=
    .host (eval_ownDeck _ _) (keepsSlots_ownDeck 3 (by decide))
  have hrun : Attacked 3 inOrder 0 (KeepsSlots 0) (World.start 3) w :=
    .head hhost (attack_attacked (fun _ _ _ => keepsSlots_of_relays) hw)
  exact ⟨w, hrun, hcard, hv, ⟨2, rfl, .inr hcard⟩, hole_cards_secret hrun (by decide) (by decide)⟩

/- Slot 2 belongs to seat 1. Seat 2 strips its layer, as it should; then the
card, with only seat 1's layer left, goes to seat 1 as if it were slot 4. -/
def misrouted : List Act :=
  [.read 2 (shuffleStepKey 2), .host (holeRelayKey 2 0) (.dec (.nth 2 (.known 0))),
    .node 2 .begin, .node 2 (.pollHole 2), .node 2 (.stripSlot 2),
    .read 2 (holeRelayKey 2 2), .host (holeRelayKey 4 0) (.known 0),
    .node 1 .begin, .node 1 (.pollHole 4), .node 1 (.stripSlot 4)]

theorem owner_hosts_own_card :
    ∃ w, Attacked 3 inOrder 0 (fun _ _ _ => True) (World.start 3) w ∧ ¬ Secret 0 w.net 1 := by
  have hrun : (attack 3 inOrder 0 (fun _ _ _ => true) (World.start 3)
      (.host (shuffleStepKey 0) ownDeck :: shuffled ++ misrouted)).map (fun w =>
        ((w.net 1).finalDeck[2]?.bind Sym.base, ((w.net 1).store.get (holeRelayKey 4 1)).map (Sym.isPlain 3)))
      = some (some 3, some true) := by decide +kernel
  obtain ⟨w, hw, hcheck⟩ := Option.map_eq_some_iff.mp hrun
  obtain ⟨hslot, hhosted⟩ := Prod.mk.inj hcheck
  obtain ⟨v, hv, hbase⟩ := Option.bind_eq_some_iff.mp hslot
  obtain ⟨layers, rfl⟩ := Sym.eq_card_of_base hbase
  obtain ⟨x, hx, hplain⟩ := Option.map_eq_some_iff.mp hhosted
  obtain rfl := Sym.eq_card_of_isPlain hplain
  refine ⟨w, attack_attacked (fun _ _ _ _ => trivial) hw, ?_⟩
  intro hsecret
  exact hsecret 3 ⟨2, rfl, .inl ⟨layers, hv⟩⟩ 1 (by decide) (by decide) _ hx

end P2Poker.Peer
