import P2Poker.Lib.Decimal

/-!
# The ephemeral store (internal/ephemeral/store.go)

Each node hosts one key-value store that its peers poll. Keys are rendered from
round, attempt, seat and node id; the rendering keeps all of them apart.
-/

namespace P2Poker.Ephemeral
open P2Poker.Lib

/-- Keys and node ids are Go strings, arbitrary bytes. -/
abbrev Key := Bytes

/-- The hosted values are byte strings, or terms that stand for them. -/
structure Store (V : Type) where
  data : Key → Option V

namespace Store
variable {V : Type}

def new : Store V := ⟨fun _ => none⟩

def put (s : Store V) (key : Key) (value : V) : Store V :=
  ⟨fun k => if k = key then some value else s.data k⟩

def get (s : Store V) (key : Key) : Option V := s.data key

def delete (s : Store V) (key : Key) : Store V := ⟨fun k => if k = key then none else s.data k⟩

def deletePrefix (s : Store V) (pre : Key) : Store V :=
  ⟨fun k => if pre.isPrefixOf k then none else s.data k⟩

end Store

def proposalKey (roundID : UInt64) (attempt : UInt32) : Key :=
  ascii "proposal-" ++ decimal roundID.toNat ++ ascii "-" ++ decimal attempt.toNat

def verifyKey (roundID : UInt64) (attempt : UInt32) (nodeID : Bytes) : Key :=
  decimal roundID.toNat ++ ascii "-" ++ decimal attempt.toNat ++ ascii "_verify_" ++ nodeID

def autoFoldKey (roundID : UInt64) (signerID : Bytes) : Key :=
  ascii "auto_fold-" ++ decimal roundID.toNat ++ ascii "-" ++ signerID

def communityRelayKey (cardIdx seat : ℕ) : Key :=
  ascii "community-relay-" ++ decimal cardIdx ++ ascii "-" ++ decimal seat

def communityCardKey (cardIdx : ℕ) : Key := ascii "community-card-" ++ decimal cardIdx

def shuffleStepKey (seat : ℕ) : Key := ascii "shuffle-step-" ++ decimal seat

def holeRelayKey (slot stripperSeat : ℕ) : Key :=
  ascii "hole-relay-" ++ decimal slot ++ ascii "-" ++ decimal stripperSeat

def showdownClaimKey (seat : ℕ) : Key := ascii "showdown-claim-" ++ decimal seat

def autoFoldPrefix (roundID : UInt64) : Key :=
  ascii "auto_fold-" ++ decimal roundID.toNat ++ ascii "-"

def roundPrefix (roundID : UInt64) : Key := decimal roundID.toNat ++ ascii "-"

/-! ### Keys by name -/

inductive KeyName where
  | proposal (roundID : UInt64) (attempt : UInt32)
  | verify (roundID : UInt64) (attempt : UInt32) (nodeID : Bytes)
  | autoFold (roundID : UInt64) (signerID : Bytes)
  | communityRelay (cardIdx seat : ℕ)
  | communityCard (cardIdx : ℕ)
  | shuffleStep (seat : ℕ)
  | holeRelay (slot stripperSeat : ℕ)
  | showdownClaim (seat : ℕ)

def KeyName.key : KeyName → Key
  | .proposal r a => proposalKey r a
  | .verify r a id => verifyKey r a id
  | .autoFold r id => autoFoldKey r id
  | .communityRelay i s => communityRelayKey i s
  | .communityCard i => communityCardKey i
  | .shuffleStep s => shuffleStepKey s
  | .holeRelay i s => holeRelayKey i s
  | .showdownClaim s => showdownClaimKey s

inductive KeyKind where
  | proposal | verify | autoFold | communityRelay | communityCard | shuffleStep | holeRelay
  | showdownClaim
  deriving DecidableEq

def KeyName.kind : KeyName → KeyKind
  | .proposal _ _ => .proposal
  | .verify _ _ _ => .verify
  | .autoFold _ _ => .autoFold
  | .communityRelay _ _ => .communityRelay
  | .communityCard _ => .communityCard
  | .shuffleStep _ => .shuffleStep
  | .holeRelay _ _ => .holeRelay
  | .showdownClaim _ => .showdownClaim

/- The text a key starts with, up to its first number. -/
def KeyKind.tag : KeyKind → Bytes
  | .proposal => ascii "proposal-"
  | .verify => []
  | .autoFold => ascii "auto_fold-"
  | .communityRelay => ascii "community-relay-"
  | .communityCard => ascii "community-card-"
  | .shuffleStep => ascii "shuffle-step-"
  | .holeRelay => ascii "hole-relay-"
  | .showdownClaim => ascii "showdown-claim-"

def KeyKind.ofTag (b : Bytes) : Option KeyKind :=
  [proposal, verify, autoFold, communityRelay, communityCard, shuffleStep, holeRelay,
    showdownClaim].find? fun x => x.tag == b

theorem KeyKind.ofTag_tag (x : KeyKind) : KeyKind.ofTag x.tag = some x := by
  cases x <;> decide +kernel

theorem KeyKind.tag_injective : Function.Injective KeyKind.tag := by
  intro x y h
  have hof := congrArg KeyKind.ofTag h
  rw [KeyKind.ofTag_tag, KeyKind.ofTag_tag] at hof
  exact Option.some.inj hof

theorem KeyKind.tag_noDigit (x : KeyKind) : ∀ b ∈ x.tag, isDigit b = false := by
  have hall : (x.tag.all fun b => !isDigit b) = true := by
    cases x <;> decide +kernel
  simpa using hall

/- What follows the tag. -/
def KeyName.rest : KeyName → Bytes
  | .proposal r a => decimal r.toNat ++ (ascii "-" ++ decimal a.toNat)
  | .verify r a id => decimal r.toNat ++ (ascii "-" ++ (decimal a.toNat ++ (ascii "_verify_" ++ id)))
  | .autoFold r id => decimal r.toNat ++ (ascii "-" ++ id)
  | .communityRelay i s => decimal i ++ (ascii "-" ++ decimal s)
  | .communityCard i => decimal i
  | .shuffleStep s => decimal s
  | .holeRelay i s => decimal i ++ (ascii "-" ++ decimal s)
  | .showdownClaim s => decimal s

theorem KeyName.key_eq (x : KeyName) : x.key = x.kind.tag ++ x.rest := by
  cases x <;>
    simp only [KeyName.key, KeyName.kind, KeyKind.tag, KeyName.rest, proposalKey, verifyKey, autoFoldKey,
      communityRelayKey, communityCardKey, shuffleStepKey, holeRelayKey, showdownClaimKey,
      List.append_assoc, List.nil_append]

theorem KeyName.rest_head (x : KeyName) : ∃ b t, x.rest = b :: t ∧ isDigit b = true := by
  have hnum : ∀ (n : ℕ) (s : Bytes), ∃ b t, decimal n ++ s = b :: t ∧ isDigit b = true := by
    intro n s
    cases hn : decimal n with
    | nil => exact absurd hn (decimal_ne_nil n)
    | cons b t =>
      exact ⟨b, t ++ s, rfl, isDigit_of_mem_decimal (n := n) (by rw [hn]; exact List.mem_cons_self ..)⟩
  cases x with
  | proposal r a => exact hnum _ _
  | verify r a id => exact hnum _ _
  | autoFold r id => exact hnum _ _
  | communityRelay i s => exact hnum _ _
  | holeRelay i s => exact hnum _ _
  | communityCard i => simpa only [KeyName.rest, List.append_nil] using hnum i []
  | shuffleStep s => simpa only [KeyName.rest, List.append_nil] using hnum s []
  | showdownClaim s => simpa only [KeyName.rest, List.append_nil] using hnum s []

/-- The tag of a key is what stands before its first digit. -/
theorem KeyName.tag_eq_takeWhile (x : KeyName) :
    x.kind.tag = x.key.takeWhile fun b => !isDigit b := by
  obtain ⟨b, t, hrest, hb⟩ := x.rest_head
  rw [x.key_eq, List.takeWhile_append_of_pos (by simpa using x.kind.tag_noDigit), hrest]
  simp [hb]

theorem noDigit_dash (s : Bytes) : NoDigit (ascii "-" ++ s) := noDigit_cons (by decide)

theorem noDigit_verify (s : Bytes) : NoDigit (ascii "_verify_" ++ s) := noDigit_cons (by decide)

theorem dash_append_inj {m n : ℕ} {s t : Bytes}
    (h : decimal m ++ (ascii "-" ++ s) = decimal n ++ (ascii "-" ++ t)) : m = n ∧ s = t := by
  obtain ⟨hmn, hst⟩ := decimal_append_inj (noDigit_dash s) (noDigit_dash t) h
  exact ⟨hmn, List.append_cancel_left hst⟩

/-- No two keys are rendered alike, whatever the node ids are. -/
theorem KeyName.key_injective : Function.Injective KeyName.key := by
  intro x y h
  have hkind : x.kind = y.kind :=
    KeyKind.tag_injective (by rw [x.tag_eq_takeWhile, y.tag_eq_takeWhile, h])
  have hrest : x.rest = y.rest := by
    rw [x.key_eq, y.key_eq, hkind] at h
    exact List.append_cancel_left h
  cases x with
  | proposal r a =>
    cases y with
    | proposal r' a' =>
      obtain ⟨hr, ha⟩ := dash_append_inj hrest
      rw [UInt64.toNat_inj.mp hr, UInt32.toNat_inj.mp (decimal_injective ha)]
    | _ => cases hkind
  | verify r a id =>
    cases y with
    | verify r' a' id' =>
      obtain ⟨hr, hrest⟩ := dash_append_inj hrest
      obtain ⟨ha, hid⟩ := decimal_append_inj (noDigit_verify id) (noDigit_verify id') hrest
      rw [UInt64.toNat_inj.mp hr, UInt32.toNat_inj.mp ha, List.append_cancel_left hid]
    | _ => cases hkind
  | autoFold r id =>
    cases y with
    | autoFold r' id' =>
      obtain ⟨hr, hid⟩ := dash_append_inj hrest
      rw [UInt64.toNat_inj.mp hr, hid]
    | _ => cases hkind
  | communityRelay i s =>
    cases y with
    | communityRelay i' s' =>
      obtain ⟨hi, hs⟩ := dash_append_inj hrest
      rw [hi, decimal_injective hs]
    | _ => cases hkind
  | communityCard i =>
    cases y with
    | communityCard i' => rw [decimal_injective hrest]
    | _ => cases hkind
  | shuffleStep s =>
    cases y with
    | shuffleStep s' => rw [decimal_injective hrest]
    | _ => cases hkind
  | holeRelay i s =>
    cases y with
    | holeRelay i' s' =>
      obtain ⟨hi, hs⟩ := dash_append_inj hrest
      rw [hi, decimal_injective hs]
    | _ => cases hkind
  | showdownClaim s =>
    cases y with
    | showdownClaim s' => rw [decimal_injective hrest]
    | _ => cases hkind

/-! ### The files of a round -/

def KeyName.round : KeyName → Option UInt64
  | .proposal r _ => some r
  | .verify r _ _ => some r
  | .autoFold r _ => some r
  | _ => none

/- The prefix and the id make up a key. -/
theorem KeyName.autoFoldPrefix_iff {x : KeyName} {k : UInt64} :
    autoFoldPrefix k <+: x.key ↔ ∃ id, x = .autoFold k id := by
  constructor
  · rintro ⟨id, hid⟩
    have hkey : (KeyName.autoFold k id).key = x.key := hid
    exact ⟨id, (KeyName.key_injective hkey).symm⟩
  · rintro ⟨id, rfl⟩
    exact List.prefix_append ..

/- A key without a tag is the one of a receipt. -/
theorem KeyName.kind_of_roundPrefix {x : KeyName} {k : UInt64} (h : roundPrefix k <+: x.key) :
    x.kind = .verify := by
  obtain ⟨t, ht⟩ := h
  rw [roundPrefix, List.append_assoc] at ht
  apply KeyKind.tag_injective
  obtain ⟨b', l', hdec⟩ := List.exists_cons_of_ne_nil (decimal_ne_nil k.toNat)
  have hdigit : isDigit b' = true := isDigit_of_mem_decimal (n := k.toNat) (by rw [hdec]; exact List.mem_cons_self ..)
  rw [x.tag_eq_takeWhile, ← ht, hdec, List.cons_append, List.takeWhile_cons_of_neg (by simp [hdigit])]
  rfl

theorem KeyName.roundPrefix_iff {x : KeyName} {k : UInt64} :
    roundPrefix k <+: x.key ↔ ∃ a id, x = .verify k a id := by
  constructor
  · intro h
    have hkind := KeyName.kind_of_roundPrefix h
    obtain ⟨t, ht⟩ := h
    rw [roundPrefix, List.append_assoc] at ht
    cases x with
    | verify r a id =>
      have hkey : decimal k.toNat ++ (ascii "-" ++ t) = (KeyName.verify r a id).rest := by
        rw [ht, KeyName.key_eq]
        rfl
      have hr : k.toNat = r.toNat := (dash_append_inj hkey).1
      rw [UInt64.toNat_inj.mp hr]
      exact ⟨a, id, rfl⟩
    | _ => cases hkind
  · rintro ⟨a, id, rfl⟩
    simp only [roundPrefix, KeyName.key, verifyKey, List.append_assoc, List.prefix_append_right_inj,
      List.prefix_append]

theorem KeyName.round_of_autoFoldPrefix {x : KeyName} {k : UInt64} (h : autoFoldPrefix k <+: x.key) :
    x.round = some k := by
  obtain ⟨id, rfl⟩ := KeyName.autoFoldPrefix_iff.mp h
  rfl

theorem KeyName.round_of_roundPrefix {x : KeyName} {k : UInt64} (h : roundPrefix k <+: x.key) :
    x.round = some k := by
  obtain ⟨a, id, rfl⟩ := KeyName.roundPrefix_iff.mp h
  rfl

/-! ### Reading back -/

variable {V : Type}

theorem Store.get_put (s : Store V) (x y : KeyName) (v : V) :
    (s.put x.key v).get y.key = if y.key = x.key then some v else s.get y.key := rfl

theorem Store.of_get_put {s : Store V} {x y : KeyName} {v w : V}
    (h : (s.put x.key v).get y.key = some w) : (y = x ∧ w = v) ∨ s.get y.key = some w := by
  rw [Store.get_put] at h
  split_ifs at h with heq
  · exact Or.inl ⟨KeyName.key_injective heq, (Option.some.inj h).symm⟩
  · exact Or.inr h

theorem Store.of_isSome_put {s : Store V} {k key : Key} {v : V} (h : ((s.put k v).get key).isSome = true) :
    key = k ∨ (s.get key).isSome = true := by
  simp only [Store.put, Store.get] at h
  split_ifs at h with heq
  · exact .inl heq
  · exact .inr h

theorem Store.isSome_put {s : Store V} {key : Key} (k : Key) (v : V) (h : (s.get key).isSome = true) :
    ((s.put k v).get key).isSome = true := by
  simp only [Store.put, Store.get]
  split_ifs
  · rfl
  · exact h

theorem Store.of_get_delete {s : Store V} {key k : Key} {w : V}
    (h : (s.delete key).get k = some w) : k ≠ key ∧ s.get k = some w := by
  simp only [Store.delete, Store.get] at h
  split_ifs at h with heq
  exact ⟨heq, h⟩

theorem Store.of_get_deletePrefix {s : Store V} {pre k : Key} {w : V}
    (h : (s.deletePrefix pre).get k = some w) : s.get k = some w := by
  simp only [Store.deletePrefix, Store.get] at h
  split_ifs at h with heq
  exact h

/-! ### What a prefix deletes -/

/-- Every key that is held was rendered by one of the constructors. -/
def Store.OnlyKeys (s : Store V) : Prop := ∀ key, (s.get key).isSome = true → ∃ x : KeyName, x.key = key

theorem Store.get_deletePrefix_iff {s : Store V} {pre key : Key} {v : V} :
    (s.deletePrefix pre).get key = some v ↔ s.get key = some v ∧ ¬ pre <+: key := by
  show (if pre.isPrefixOf key then none else s.data key) = some v ↔ _
  by_cases hpre : pre <+: key
  · rw [if_pos (List.isPrefixOf_iff_prefix.mpr hpre)]
    exact iff_of_false nofun fun h => h.2 hpre
  · rw [if_neg fun h => hpre (List.isPrefixOf_iff_prefix.mp h)]
    exact ⟨fun h => ⟨h, hpre⟩, And.left⟩

/- Only the keys of one kind start like this. -/
theorem Store.OnlyKeys.deletePrefix {s : Store V} (hs : s.OnlyKeys) {pre : Key} {P : Key → Prop}
    (hP : ∀ x : KeyName, pre <+: x.key ↔ P x.key) (key : Key) (v : V) :
    (s.deletePrefix pre).get key = some v ↔ s.get key = some v ∧ ¬ P key := by
  rw [Store.get_deletePrefix_iff]
  refine and_congr_right fun hget => not_congr ?_
  obtain ⟨x, rfl⟩ := hs key (by rw [hget]; rfl)
  exact hP x

/-- The keys of the eight constructors are injective together: each constructor is, and no
two render alike. The prefixes of a round take its receipts and its attestations. -/
theorem keys_apart_prefixes_exact : Function.Injective KeyName.key ∧
    ∀ {V : Type} (s : Store V), s.OnlyKeys → ∀ (r : UInt64) (key : Key) (v : V),
      ((s.deletePrefix (roundPrefix r)).get key = some v ↔
        s.get key = some v ∧ ¬ ∃ attempt nodeID, key = verifyKey r attempt nodeID) ∧
      ((s.deletePrefix (autoFoldPrefix r)).get key = some v ↔
        s.get key = some v ∧ ¬ ∃ signerID, key = autoFoldKey r signerID) := by
  refine ⟨KeyName.key_injective, ?_⟩
  intro V s hs r key v
  refine ⟨hs.deletePrefix (P := fun key => ∃ a id, key = verifyKey r a id) ?_ key v,
    hs.deletePrefix (P := fun key => ∃ id, key = autoFoldKey r id) ?_ key v⟩
  · intro x
    rw [KeyName.roundPrefix_iff]
    constructor
    · rintro ⟨a, id, rfl⟩
      exact ⟨a, id, rfl⟩
    · rintro ⟨a, id, hkey⟩
      exact ⟨a, id, KeyName.key_injective (hkey : x.key = (KeyName.verify r a id).key)⟩
  · intro x
    rw [KeyName.autoFoldPrefix_iff]
    constructor
    · rintro ⟨id, rfl⟩
      exact ⟨id, rfl⟩
    · rintro ⟨id, hkey⟩
      exact ⟨id, KeyName.key_injective (hkey : x.key = (KeyName.autoFold r id).key)⟩

/- Receipts of the rounds 1 and 10, under an id that looks like a key. -/
def twoRounds : Store Bytes :=
  (Store.new.put (KeyName.verify 1 0 (ascii "10-0_verify_a")).key [1]).put
    (KeyName.verify 10 0 (ascii "1-")).key [2]

theorem twoRounds_prefix :
    (twoRounds.deletePrefix (roundPrefix 1)).get (verifyKey 10 0 (ascii "1-")) = some [2] ∧
    (twoRounds.deletePrefix (roundPrefix 1)).get (verifyKey 1 0 (ascii "10-0_verify_a")) ≠ some [1] := by
  have honly : twoRounds.OnlyKeys := by
    intro key hkey
    rcases Store.of_isSome_put hkey with rfl | hkey
    · exact ⟨_, rfl⟩
    · rcases Store.of_isSome_put hkey with rfl | hkey
      · exact ⟨_, rfl⟩
      · cases hkey
  have hexact := keys_apart_prefixes_exact.2 twoRounds honly 1
  refine ⟨by decide +kernel, fun hget => ?_⟩
  exact ((hexact _ _).1.mp hget).2 ⟨0, _, rfl⟩

end P2Poker.Ephemeral
