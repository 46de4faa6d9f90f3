import P2Poker.Game.AutoFold

/-!
# Signed payloads

Proposals, auto-fold attestations and verify receipts sign plain concatenations
without an outer length or type tag. The code of an entry delimits itself, and
every entry of a log is longer than any of the three tails, so a payload can be
read in one way only.
-/

namespace P2Poker.Game
open P2Poker.Lib P2Poker.Crypto

/-! ### One entry -/

structure Entry.WellFormed (e : Entry) : Prop where
  signature : e.isAutoFold = false → e.signature.length = 64
  coSigners : e.isAutoFold = true → 0 < e.coSigners.length ∧ e.coSigners.length < 256
  coSignatures : e.isAutoFold = true → e.coSignatures.length = e.coSigners.length
  coSignature : e.isAutoFold = true → ∀ s ∈ e.coSignatures, s.length = 64
  data : e.data.length < 2 ^ 32

/-- The part of an entry that is encoded: a self-signed entry loses its
co-signers and co-signatures. -/
def Entry.encoded (e : Entry) : Entry :=
  if e.isAutoFold then e else { e with coSigners := [], coSignatures := [] }

theorem Entry.WellFormed.signature_lt {e : Entry} (h : e.WellFormed) :
    e.signature.length < 256 ^ 2 := by
  cases ha : e.isAutoFold with
  | false =>
    rw [h.signature ha]
    decide
  | true =>
    unfold Entry.isAutoFold at ha
    rw [Bool.and_eq_true, beq_iff_eq, beq_iff_eq] at ha
    rw [ha.2]
    decide

theorem coSigBytes_prefixFree :
    PrefixFree (fun p : UInt8 × Bytes => p.2.length < 256 ^ 2) Eq coSigBytes := by
  rintro ⟨i, a⟩ ⟨j, b⟩ s t ha hb h
  simp only [coSigBytes, List.cons_append, List.cons.injEq] at h
  obtain ⟨hab, hst⟩ := lengthField_prefixFree 2 a b s t ha hb h.2
  exact ⟨by rw [h.1, hab], hst⟩

theorem Entry.WellFormed.coSig_lt {e : Entry} (h : e.WellFormed) (ha : e.isAutoFold = true)
    (p : UInt8 × Bytes) (hp : p ∈ e.coSigners.zip e.coSignatures) : p.2.length < 256 ^ 2 := by
  rw [h.coSignature ha p.2 (List.of_mem_zip hp).2]
  decide

theorem coSigSection_inj {e f : Entry} {s t : Bytes} (he : e.WellFormed) (hf : f.WellFormed)
    (hae : e.isAutoFold = true) (haf : f.isAutoFold = true)
    (h : e.coSigSection ++ s = f.coSigSection ++ t) :
    e.coSigners = f.coSigners ∧ e.coSignatures = f.coSignatures ∧ s = t := by
  simp only [Entry.coSigSection, List.cons_append, List.cons.injEq] at h
  obtain ⟨hcount, hrest⟩ := h
  have hlen : e.coSigners.length = f.coSigners.length := by
    have hval := congrArg UInt8.toNat hcount
    rw [toNat_ofNat_byte, toNat_ofNat_byte, Nat.mod_eq_of_lt (he.coSigners hae).2,
      Nat.mod_eq_of_lt (hf.coSigners haf).2] at hval
    exact hval
  have he2 := he.coSignatures hae
  have hf2 := hf.coSignatures haf
  obtain ⟨hzip, hst⟩ := coSigBytes_prefixFree.flatMap_of_length (he.coSig_lt hae) (hf.coSig_lt haf)
    (by simp only [List.length_zip]; omega) hrest
  have hfst := congrArg (List.map Prod.fst) hzip
  have hsnd := congrArg (List.map Prod.snd) hzip
  rw [List.map_fst_zip (by omega), List.map_fst_zip (by omega)] at hfst
  rw [List.map_snd_zip (by omega), List.map_snd_zip (by omega)] at hsnd
  exact ⟨hfst, hsnd, hst⟩

theorem Entry.isAutoFold_congr {e f : Entry} (ha : e.action = f.action)
    (hs : e.signature = f.signature) : e.isAutoFold = f.isAutoFold := by
  simp only [Entry.isAutoFold, ha, hs]

theorem Entry.bytes_prefixFree :
    PrefixFree Entry.WellFormed (fun e f => e.encoded = f.encoded) Entry.bytes := by
  intro e f s t he hf h
  simp only [Entry.bytes, List.append_assoc, List.cons_append] at h
  obtain ⟨hround, h⟩ := List.append_inj h (by simp only [be64_length])
  obtain ⟨hplayer, h⟩ := List.cons.inj h
  obtain ⟨haction, h⟩ := List.append_inj h (by simp only [Action.bytes_length])
  rw [← List.append_assoc, ← List.append_assoc (beBytes 2 f.signature.length)] at h
  obtain ⟨hsig, h⟩ := lengthField_prefixFree 2 _ _ _ _ he.signature_lt hf.signature_lt h
  have hround := be64_injective hround
  have haction := Action.bytes_injective haction
  have hauto := Entry.isAutoFold_congr haction hsig
  -- whether the co-signature section is there was decided by what is already read
  cases haf : f.isAutoFold with
  | true =>
    have hae : e.isAutoFold = true := hauto.trans haf
    simp only [hae, haf, if_true] at h
    obtain ⟨hsigners, hsigs, h⟩ := coSigSection_inj he hf hae haf h
    rw [← List.append_assoc, ← List.append_assoc (beBytes 4 f.data.length)] at h
    obtain ⟨hdata, hst⟩ := lengthField_prefixFree 4 _ _ _ _ he.data hf.data h
    refine ⟨?_, hst⟩
    cases e
    cases f
    simp_all only [Entry.encoded, if_true]
  | false =>
    have hae : e.isAutoFold = false := hauto.trans haf
    simp only [hae, haf, Bool.false_eq_true, if_false, List.nil_append] at h
    rw [← List.append_assoc, ← List.append_assoc (beBytes 4 f.data.length)] at h
    obtain ⟨hdata, hst⟩ := lengthField_prefixFree 4 _ _ _ _ he.data hf.data h
    refine ⟨?_, hst⟩
    cases e
    cases f
    simp_all only [Entry.encoded, Bool.false_eq_true, if_false]

theorem Entry.WellFormed.bytes_length {e : Entry} (h : e.WellFormed) : 88 ≤ e.bytes.length := by
  simp only [Entry.bytes, List.length_append, List.length_cons, be64_length, Action.bytes_length,
    beBytes_length]
  cases ha : e.isAutoFold with
  | false =>
    have := h.signature ha
    simp only [Bool.false_eq_true, if_false, List.length_nil]
    omega
  | true =>
    have hpos := (h.coSigners ha).1
    have hlen := h.coSignatures ha
    simp only [if_true, Entry.coSigSection, List.length_cons]
    cases hs : e.coSigners with
    | nil => simp [hs] at hpos
    | cons i is =>
      cases hb : e.coSignatures with
      | nil => simp [hs, hb] at hlen
      | cons b bs =>
        have hb64 : b.length = 64 := h.coSignature ha b (by rw [hb]; exact List.mem_cons_self ..)
        simp only [List.zip_cons_cons, List.flatMap_cons, List.length_append, coSigBytes,
          List.length_cons, beBytes_length, hb64]
        omega

/-! ### Entries of a reachable log -/

def Log.ShortData (l : Log) : Prop := ∀ e ∈ l.entries, e.data.length < 2 ^ 32

section Reachable
variable {c : Primitives} {P : Log → Entry → Prop} {n : UInt8} {stack : UInt64} {l : Log} {e : Entry}

theorem Log.Accepts.wellFormed (hc : c.FixedSizes) (h : l.Accepts c e)
    (hd : e.data.length < 2 ^ 32) : e.WellFormed := by
  rcases h with ⟨pk, h⟩ | ⟨pks, l', h⟩
  · obtain ⟨_, _, _, hsig, _⟩ := verifyProposal_ok h
    have h64 : e.signature.length = 64 := hc.signature hsig
    have hself : e.isAutoFold = false := by
      unfold Entry.isAutoFold
      rw [h64]
      simp
    exact ⟨fun _ => h64, by simp [hself], by simp [hself], by simp [hself], hd⟩
  · obtain ⟨hfold, hco⟩ := verifyAutoFoldEntry_ok_iff.mp (appendAutoFold_ok h).1
    have hauto := hfold.shape
    have hpos := List.length_pos_iff.mpr hfold.attestors
    have hlt := expectedAutoFoldAttestors_length l e.playerID
    rw [← hco.coSigners] at hpos hlt
    refine ⟨by simp [hauto], fun _ => ⟨hpos, hlt⟩, fun _ => hco.coSignatures, fun _ sig hsig => ?_, hd⟩
    obtain ⟨_, _, _, _, hver⟩ := hco.exists_coSigner hsig
    exact hc.signature hver

theorem Grows.wellFormed (hc : c.FixedSizes) (h : Grows c P n stack l) (hd : l.ShortData) :
    ∀ e ∈ l.entries, e.WellFormed := by
  intro e he
  obtain ⟨pre, post, hsplit⟩ := List.append_of_mem he
  obtain ⟨l₀, _, _, ha, _⟩ := h.split hsplit
  exact ha.wellFormed hc (hd e he)

end Reachable

/-! ### Payloads -/

def Log.SameEntries (l l' : Log) : Prop :=
  l.entries.map Entry.encoded = l'.entries.map Entry.encoded

section Tails
variable {l l' : Log} {s t : Bytes}

theorem bytes_append_inj (hl : ∀ e ∈ l.entries, e.WellFormed) (hl' : ∀ e ∈ l'.entries, e.WellFormed)
    (hs : s.length < 88) (ht : t.length < 88) (h : l.bytes ++ s = l'.bytes ++ t) :
    l.SameEntries l' ∧ s = t := by
  obtain ⟨hall, htail⟩ := Entry.bytes_prefixFree.flatMap (fun e he => he.bytes_length) hl hl' hs ht h
  refine ⟨?_, htail⟩
  unfold Log.SameEntries
  rw [← List.forall₂_eq_eq_eq, List.forall₂_map_left_iff, List.forall₂_map_right_iff]
  exact hall

theorem bytes_length_gap (hl : ∀ e ∈ l.entries, e.WellFormed) :
    l.bytes.length = 0 ∨ 88 ≤ l.bytes.length := by
  unfold Log.bytes
  cases hes : l.entries with
  | nil => exact Or.inl rfl
  | cons e es =>
    right
    have := (hl e (by rw [hes]; exact List.mem_cons_self ..)).bytes_length
    simp only [List.flatMap_cons, List.length_append]
    omega

end Tails

theorem autoFoldPayload_eq (l : Log) (r : UInt64) (t : UInt8) :
    l.autoFoldPayload r t = l.bytes ++ (Log.autoFoldTag ++ be64 r ++ [t]) := by
  simp only [Log.autoFoldPayload, List.append_assoc]

theorem autoFoldTag_length : Log.autoFoldTag.length = 9 := by decide

theorem receiptPayload_hash_length {c : Primitives} (hc : c.FixedSizes) (l : Log) (r : UInt64) :
    (Log.receiptPayload (l.hash c) r).length = 46 := by
  have htag : (ascii "verify").length = 6 := by decide
  have hhash : (l.hash c).length = 32 := hc.digest l.bytes
  simp only [Log.receiptPayload, List.length_append, be64_length, htag, hhash]

/-- The payloads over two logs determine their arguments, and a payload of one
kind is never a payload of another kind. -/
structure Unambiguous (c : Primitives) (l l' : Log) : Prop where
  log : l.bytes = l'.bytes → l.SameEntries l'
  proposal : ∀ a a', l.proposalPayload a = l'.proposalPayload a' → l.SameEntries l' ∧ a = a'
  autoFold : ∀ r r' t t', l.autoFoldPayload r t = l'.autoFoldPayload r' t' →
    l.SameEntries l' ∧ r = r' ∧ t = t'
  receipt : ∀ h h' r r', Log.receiptPayload h r = Log.receiptPayload h' r' → h = h' ∧ r = r'
  proposal_autoFold : ∀ a r t, l.proposalPayload a ≠ l'.autoFoldPayload r t
  proposal_receipt : ∀ a r, l.proposalPayload a ≠ Log.receiptPayload (l'.hash c) r
  autoFold_receipt : ∀ r t r', l.autoFoldPayload r t ≠ Log.receiptPayload (l'.hash c) r'

theorem payloads_unambiguous (c : Primitives) (hc : c.FixedSizes) (n n' : UInt8)
    (stack stack' : UInt64) (l l' : Log) (hl : Reachable c n stack l)
    (hl' : Reachable c n' stack' l') (hd : l.ShortData) (hd' : l'.ShortData) :
    Unambiguous c l l' := by
  have hwf := hl.wellFormed hc hd
  have hwf' := hl'.wellFormed hc hd'
  have hgap := bytes_length_gap hwf
  have htag := autoFoldTag_length
  refine ⟨?_, ?_, ?_, ?_, ?_, ?_, ?_⟩
  · intro h
    exact (bytes_append_inj (s := []) (t := []) hwf hwf' (by simp) (by simp) (by rw [h])).1
  · intro a a' h
    obtain ⟨hsame, ha⟩ := bytes_append_inj hwf hwf' (by simp) (by simp) h
    exact ⟨hsame, Action.bytes_injective ha⟩
  · intro r r' t t' h
    rw [autoFoldPayload_eq, autoFoldPayload_eq] at h
    obtain ⟨hsame, htail⟩ := bytes_append_inj hwf hwf' (by simp [htag]) (by simp [htag]) h
    obtain ⟨hround, htarget⟩ := List.append_inj' htail rfl
    exact ⟨hsame, be64_injective (List.append_inj hround rfl).2, by simpa using htarget⟩
  · intro h h' r r' heq
    obtain ⟨hhead, hround⟩ := List.append_inj' heq (by simp only [be64_length])
    exact ⟨(List.append_inj' hhead rfl).1, be64_injective hround⟩
  · intro a r t h
    rw [autoFoldPayload_eq] at h
    have htail := (bytes_append_inj hwf hwf' (by simp) (by simp [htag]) h).2
    have hlen := congrArg List.length htail
    simp [htag] at hlen
  · intro a r h
    have hlen := congrArg List.length h
    rw [receiptPayload_hash_length hc] at hlen
    simp only [Log.proposalPayload, List.length_append, Action.bytes_length] at hlen
    omega
  · intro r t r' h
    have hlen := congrArg List.length h
    rw [receiptPayload_hash_length hc, autoFoldPayload_eq] at hlen
    simp only [List.length_append, htag, be64_length, List.length_singleton] at hlen
    omega

def sizedSeatKey (s : UInt8) : Primitives.truncated.PrivateKey := s

theorem payloads_unambiguous_raise_call :
    Unambiguous .truncated
      ((newLog 2 100).play .truncated sizedSeatKey [⟨.raise, 10⟩])
      ((newLog 2 100).play .truncated sizedSeatKey [⟨.raise, 10⟩, ⟨.call, 0⟩]) :=
  payloads_unambiguous .truncated Primitives.truncated_fixedSizes 2 2 100 100 _ _
    (TurnReachable.play .new (by decide +kernel) (by decide)).reachable
    (TurnReachable.play .new (by decide +kernel) (by decide)).reachable
    (by unfold Log.ShortData; decide +kernel) (by unfold Log.ShortData; decide +kernel)

end P2Poker.Game
