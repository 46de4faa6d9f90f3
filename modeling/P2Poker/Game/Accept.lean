import P2Poker.Game.Log

/-!
# Accepted entries and the logs they build

What acceptance by `VerifyProposal` or `VerifyAutoFoldEntry` guarantees about an
entry, and the logs that grow from `NewLog` by accepted entries.
-/

namespace P2Poker.Game
open P2Poker.Lib P2Poker.Crypto

/-! ### Legal actions -/

/-- The amount rules of `ValidateAction`, one branch per kind. -/
def State.Legal (s : State) (p : ℕ) (a : Action) : Prop :=
  match a.kind with
  | .fold => a.amount = 0
  | .check => a.amount = 0 ∧ s.currentBet ≤ s.contribution p
  | .call => a.amount = 0 ∧ s.currentBet - s.contribution p ≠ 0
  | .raise => s.currentBet < a.amount ∧ a.amount - s.contribution p ≤ s.stack p
  | .unknown _ => False

theorem State.validateAction_ok_iff (s : State) (p : UInt8) (a : Action) :
    s.validateAction p a = .ok () ↔
      s.handOver = false ∧ p.toNat < s.seatStacks.length ∧ s.isFolded p.toNat = false ∧
        s.Legal p.toNat a := by
  unfold State.validateAction State.Legal
  by_cases hover : s.handOver = true
  · simp [hover]
  by_cases hrange : s.seatStacks.length ≤ p.toNat
  · simp [hover, hrange]
  by_cases hfold : s.isFolded p.toNat = true
  · simp [hover, hrange, hfold]
  have hlt : p.toNat < s.seatStacks.length := by omega
  simp only [hover, hrange, hfold, hlt, true_and, if_false, Bool.false_eq_true]
  cases a.kind with
  | fold => by_cases h : a.amount = 0 <;> simp [h]
  | check =>
    by_cases h : a.amount = 0
    · by_cases hb : s.contribution p.toNat < s.currentBet
      · simp [h, hb, UInt64.not_le.mpr hb]
      · simp [h, hb, UInt64.not_lt.mp hb]
    · simp [h]
  | call =>
    by_cases h : a.amount = 0
    · by_cases hb : s.currentBet - s.contribution p.toNat = 0 <;> simp [h, hb]
    · simp [h]
  | raise =>
    by_cases h : a.amount ≤ s.currentBet
    · simp [h, UInt64.not_lt.mpr h]
    · by_cases hc : s.stack p.toNat < a.amount - s.contribution p.toNat
      · simp [h, hc, UInt64.not_le.mpr hc]
      · simp [h, hc, UInt64.not_le.mp h, UInt64.not_lt.mp hc]
  | unknown k => simp

/-! ### Shape of the replayed state -/

structure State.Shaped (s : State) (n : ℕ) : Prop where
  seatStacks : s.seatStacks.length = n
  contributions : s.contributions.length = n
  folded : s.folded.length = n

theorem Replay.start_shaped (n : UInt8) (stack : UInt64) :
    (Replay.start n stack).state.Shaped n.toNat := by
  constructor <;> exact List.length_replicate

theorem Replay.act_shaped {r : Replay} {n : ℕ} (h : r.state.Shaped n) (e : Entry) :
    (r.act e).state.Shaped n := by
  obtain ⟨h1, h2, h3⟩ := h
  unfold Replay.act
  cases e.action.kind <;>
    exact ⟨by simpa [State.pay] using h1, by simpa [State.pay] using h2,
      by simpa [State.pay] using h3⟩

theorem Replay.settle_shaped {r : Replay} {n : ℕ} (h : r.state.Shaped n) :
    r.settle.state.Shaped n := by
  obtain ⟨h1, h2, h3⟩ := h
  unfold Replay.settle
  dsimp only
  split_ifs
  · exact ⟨h1, h2, h3⟩
  · exact ⟨h1, h2, h3⟩
  · exact ⟨h1, by simpa using h2, h3⟩
  · exact ⟨h1, h2, h3⟩

theorem Replay.run_shaped (n : UInt8) (stack : UInt64) (entries : List Entry) :
    (Replay.run n stack entries).state.Shaped n.toNat := by
  induction entries using List.reverseRecOn with
  | nil => exact Replay.start_shaped n stack
  | append_singleton es e ih =>
    have hrun : Replay.run n stack (es ++ [e]) = (Replay.run n stack es).step e := by
      simp only [Replay.run, List.foldl_append, List.foldl_cons, List.foldl_nil]
    rw [hrun, Replay.step]
    split_ifs
    · exact ih
    · exact Replay.settle_shaped (Replay.act_shaped ih e)

theorem Log.state_shaped (l : Log) : l.state.Shaped l.numPlayers.toNat :=
  Replay.run_shaped _ _ _

/-! ### Accepted entries -/

/-- `e` is accepted against `l` by one of the two acceptance paths. -/
def Log.Accepts (c : Primitives) (l : Log) (e : Entry) : Prop :=
  (∃ pk, l.verifyProposal c e pk = .ok ()) ∨ (∃ pks l', l.appendAutoFold c e pks = .ok l')

/-- What either path guarantees about the acting seat and its action. An
auto-fold is accepted even when the hand is over and need not be in turn. -/
structure Playable (l : Log) (e : Entry) : Prop where
  round : e.roundID = l.roundID
  seat_lt : e.playerID.toNat < l.numPlayers.toNat
  unfolded : l.state.isFolded e.playerID.toNat = false
  legal : e.action.kind = .fold ∨ l.state.Legal e.playerID.toNat e.action

theorem verifyProposal_ok {c : Primitives} {l : Log} {e : Entry} {pk : Bytes}
    (h : l.verifyProposal c e pk = .ok ()) :
    e.roundID = l.roundID ∧ e.playerID = l.expectedNextPlayer ∧ pk.length = publicKeySize ∧
      c.verify pk (l.proposalPayload e.action) e.signature = true ∧
      l.state.validateAction e.playerID e.action = .ok () := by
  unfold Log.verifyProposal at h
  split_ifs at h with h1 h2 h3 h4
  refine ⟨not_not.mp h1, not_not.mp h2, not_not.mp h3, by simpa using h4, ?_⟩
  cases hv : l.state.validateAction e.playerID e.action with
  | error err => simp [hv] at h
  | ok u => rfl

theorem verifyAutoFoldEntry_ok {c : Primitives} {l : Log} {e : Entry} {pks : UInt8 → Option Bytes}
    (h : l.verifyAutoFoldEntry c e pks = .ok ()) :
    e.roundID = l.roundID ∧ e.isAutoFold = true ∧ e.playerID < l.numPlayers ∧
      l.state.isFolded e.playerID.toNat = false ∧
      0 < (l.expectedAutoFoldAttestors e.playerID).length ∧
      e.coSigners.length = (l.expectedAutoFoldAttestors e.playerID).length ∧
      e.coSignatures.length = e.coSigners.length ∧
      l.verifyCoSigners c e pks 0 e.coSigners (l.expectedAutoFoldAttestors e.playerID)
        e.coSignatures = .ok () := by
  unfold Log.verifyAutoFoldEntry at h
  dsimp only at h
  split_ifs at h with h1 h2 h3 h4 h5 h6 h7
  exact ⟨not_not.mp h1, by simpa using h2, UInt8.not_le.mp h3, by simpa using h4,
    Nat.pos_of_ne_zero h5, not_not.mp h6, not_not.mp h7, h⟩

theorem appendAutoFold_ok {c : Primitives} {l l' : Log} {e : Entry} {pks : UInt8 → Option Bytes}
    (h : l.appendAutoFold c e pks = .ok l') :
    l.verifyAutoFoldEntry c e pks = .ok () ∧ l' = l.append e := by
  unfold Log.appendAutoFold at h
  cases hv : l.verifyAutoFoldEntry c e pks with
  | error err => simp [hv] at h
  | ok u =>
    rw [hv] at h
    exact ⟨rfl, (Except.ok.inj h).symm⟩

theorem Entry.isAutoFold_kind {e : Entry} (h : e.isAutoFold = true) : e.action.kind = .fold := by
  unfold Entry.isAutoFold at h
  rw [Bool.and_eq_true, beq_iff_eq] at h
  exact h.1

theorem Log.Accepts.of_autoFold {c : Primitives} {l : Log} {e : Entry} {pks : UInt8 → Option Bytes}
    (h : l.verifyAutoFoldEntry c e pks = .ok ()) : l.Accepts c e :=
  Or.inr ⟨pks, l.append e, by rw [Log.appendAutoFold, h]⟩

theorem Log.Accepts.playable {c : Primitives} {l : Log} {e : Entry} (h : l.Accepts c e) :
    Playable l e := by
  rcases h with ⟨pk, h⟩ | ⟨pks, l', h⟩
  · obtain ⟨hr, _, _, _, hv⟩ := verifyProposal_ok h
    obtain ⟨_, hp, hf, hl⟩ := (State.validateAction_ok_iff _ _ _).mp hv
    rw [l.state_shaped.seatStacks] at hp
    exact ⟨hr, hp, hf, Or.inr hl⟩
  · obtain ⟨hr, ha, hp, hf, _⟩ := verifyAutoFoldEntry_ok (appendAutoFold_ok h).1
    exact ⟨hr, UInt8.lt_iff_toNat_lt.mp hp, hf, Or.inl (Entry.isAutoFold_kind ha)⟩

/-! ### Logs that grow by accepted entries -/

/-- Logs reachable from `NewLog` by accepted entries that meet `P`. -/
inductive Grows (c : Primitives) (P : Log → Entry → Prop) (n : UInt8) (stack : UInt64) : Log → Prop
  | new : Grows c P n stack (newLog n stack)
  | append {l : Log} {e : Entry} : Grows c P n stack l → l.Accepts c e → P l e →
      Grows c P n stack (l.append e)

def Reachable (c : Primitives) (n : UInt8) (stack : UInt64) (l : Log) : Prop :=
  Grows c (fun _ _ => True) n stack l

/-- The entry is made by, or targets, the seat whose turn it is, and the log
stays short enough for a slice: its length is an `int`. -/
def InTurn (l : Log) (e : Entry) : Prop :=
  e.playerID = l.expectedNextPlayer ∧ l.entries.length + 1 < 2 ^ 63

/-- Auto-folds target the expected player, as `driveAutoFold` has it. -/
def TurnReachable (c : Primitives) (n : UInt8) (stack : UInt64) (l : Log) : Prop :=
  Grows c InTurn n stack l

section Grows
variable {c : Primitives} {P Q : Log → Entry → Prop} {n : UInt8} {stack : UInt64} {l : Log}

theorem Grows.mono (hPQ : ∀ l e, P l e → Q l e) (h : Grows c P n stack l) : Grows c Q n stack l := by
  induction h with
  | new => exact .new
  | append _ ha hp ih => exact .append ih ha (hPQ _ _ hp)

theorem Grows.reachable (h : Grows c P n stack l) : Reachable c n stack l :=
  h.mono fun _ _ _ => trivial

theorem Grows.numPlayers (h : Grows c P n stack l) : l.numPlayers = n := by
  induction h with
  | new => rfl
  | append _ _ _ ih => exact ih

theorem Grows.startingStack (h : Grows c P n stack l) : l.startingStack = stack := by
  induction h with
  | new => rfl
  | append _ _ _ ih => exact ih

theorem Grows.split (h : Grows c P n stack l) {pre post : List Entry} {e : Entry}
    (hl : l.entries = pre ++ e :: post) :
    ∃ l₀, Grows c P n stack l₀ ∧ l₀.entries = pre ∧ l₀.Accepts c e ∧ P l₀ e := by
  induction h generalizing post with
  | new => simp [newLog] at hl
  | @append l e' hg ha hp ih =>
    cases post using List.reverseRecOn with
    | nil =>
      have hlast : l.entries ++ [e'] = pre ++ [e] := hl
      obtain ⟨hpre, he⟩ := List.append_inj' hlast rfl
      have hee : e' = e := by simpa using he
      subst hee
      exact ⟨l, hg, hpre, ha, hp⟩
    | append_singleton post f _ =>
      have hlast : l.entries ++ [e'] = (pre ++ e :: post) ++ [f] := by
        simpa [Log.append] using hl
      exact ih (List.append_inj' hlast rfl).1

theorem Grows.state_eq_replay (h : Grows c P n stack l) :
    l.state = replay l.entries n stack := by
  rw [Log.state, h.numPlayers, h.startingStack]

end Grows

/-! ### The log of earlier rounds -/

/-- The log as it was after some number of rounds. -/
def Log.upTo (l : Log) (k : ℕ) : Log := { l with entries := l.entries.take k }

theorem Log.upTo_eq_self {l : Log} {k : ℕ} (h : l.entries.length ≤ k) : l.upTo k = l := by
  rw [Log.upTo, List.take_of_length_le h]

theorem Log.upTo_append {l : Log} {k : ℕ} (h : k ≤ l.entries.length) (e : Entry) :
    (l.append e).upTo k = l.upTo k := by
  rw [Log.upTo, Log.append, List.take_append_of_le_length h]
  rfl

theorem Log.upTo_append_length (l : Log) (e : Entry) : (l.append e).upTo l.entries.length = l :=
  (Log.upTo_append le_rfl e).trans (Log.upTo_eq_self le_rfl)

theorem Log.upTo_upTo {l : Log} {j k : ℕ} (h : j ≤ k) : (l.upTo k).upTo j = l.upTo j := by
  rw [Log.upTo, Log.upTo, List.take_take, Nat.min_eq_left h]
  rfl

theorem Log.upTo_rollbackLast {l : Log} {k : ℕ} (h : k < l.entries.length) :
    l.rollbackLast.upTo k = l.upTo k := by
  rw [Log.rollbackLast, List.dropLast_eq_take]
  exact Log.upTo_upTo (Nat.le_sub_one_of_lt h)

theorem Log.upTo_succ {l : Log} {k : ℕ} {e : Entry} (h : l.entries[k]? = some e) :
    l.upTo (k + 1) = (l.upTo k).append e := by
  simp [Log.upTo, Log.append, List.take_add_one, h]

/- What the next entry keeps holds of every longer part of the log. -/
theorem Log.upTo_induct {l : Log} {P : Log → Prop} {j k : ℕ} (hjk : j ≤ k) (hj : P (l.upTo j))
    (happend : ∀ i e, l.entries[i]? = some e → P (l.upTo i) → P ((l.upTo i).append e)) : P (l.upTo k) := by
  induction k, hjk using Nat.le_induction with
  | base => exact hj
  | succ k _ ih =>
    cases he : l.entries[k]? with
    | none =>
      have hle := List.getElem?_eq_none_iff.mp he
      rw [Log.upTo_eq_self (by omega)]
      rwa [Log.upTo_eq_self hle] at ih
    | some e =>
      rw [Log.upTo_succ he]
      exact happend k e he ih

/-! ### Replaying one more entry -/

def Log.replayed (l : Log) : Replay := Replay.run l.numPlayers l.startingStack l.entries

theorem Log.state_eq (l : Log) : l.state = l.replayed.state := rfl

theorem Log.replayed_append (l : Log) (e : Entry) : (l.append e).replayed = l.replayed.step e := by
  simp only [Log.replayed, Log.append, Replay.run, List.foldl_append, List.foldl_cons,
    List.foldl_nil]

theorem Replay.step_of_over {r : Replay} (h : r.state.handOver = true) (e : Entry) :
    r.step e = r := by
  simp only [Replay.step, h, if_true]

theorem Replay.step_of_live {r : Replay} (h : r.state.handOver = false) (e : Entry) :
    r.step e = (r.act e).settle := by
  simp only [Replay.step, h, Bool.false_eq_true, if_false]

theorem Grows.replayed_induction {c : Primitives} {P : Log → Entry → Prop} {n : UInt8}
    {stack : UInt64} {l : Log} (I : Replay → Prop) (h : Grows c P n stack l)
    (hstart : I (Replay.start n stack))
    (hstep : ∀ l e, Grows c P n stack l → Playable l e → P l e → I l.replayed →
      l.replayed.state.handOver = false → I ((l.replayed.act e).settle)) : I l.replayed := by
  induction h with
  | new => exact hstart
  | @append l e hg ha hp ih =>
    rw [Log.replayed_append]
    cases hover : l.replayed.state.handOver with
    | true => rwa [Replay.step_of_over hover]
    | false =>
      rw [Replay.step_of_live hover]
      exact hstep l e hg ha.playable hp ih hover

end P2Poker.Game
