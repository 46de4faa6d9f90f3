import P2Poker.Round.Fetching

/-!
# When the files of a round are dropped

A node that commits drops its files of the round before. What it knows of the
others then is what it has read of them for this round: the proposal, and a
receipt of every seat that is not folded, perhaps of an attempt that was rolled
back there. Rounds only go up, so whoever has hosted such a file has done with
the round before.
-/

namespace P2Poker.Round
open P2Poker.Lib P2Poker.Crypto P2Poker.Game P2Poker.Ephemeral

section Cleanup
variable {c : Primitives}

/-- The keys that the polls of a node ask its peers for. -/
def Runner.polls (u : Setup c) (r : Runner) : List KeyName :=
  match r.phase with
  | .inRound k _ a .polling => [.proposal k a]
  | .inRound k _ a (.collecting got) =>
    ((r.receiptSeats u).filter fun seat => seat ∉ got).map fun seat => .verify k a (u.nodeID seat)
  | .inRound k _ _ (.gathering cosigs) =>
    (cosigs.filter fun x => x.1 ≠ u.mySeat ∧ x.2 = none).map fun x => .autoFold k (u.nodeID x.1.toNat)
  | _ => []

variable (t : Table c)

/-- From here on a seat is not in the round and asks for none of its files. -/
def Past (k : UInt64) (net : Net) (q : ℕ) : Prop :=
  ∀ net', Reaches t (fun _ => true) everyStep net net' →
    (∀ p a st, (net' q).phase ≠ .inRound k p a st) ∧
    ∀ x ∈ (net' q).polls (t.setup q),
      x.round ≠ some k ∧ ¬ roundPrefix k <+: x.key ∧ ¬ autoFoldPrefix k <+: x.key

/-- The last entry of the log is a fold of this seat. -/
def FoldedLast (l : Log) (q : ℕ) : Prop :=
  ∃ e ∈ l.entries.getLast?, e.action.kind = .fold ∧ e.playerID.toNat = q

instance (l : Log) (q : ℕ) : Decidable (FoldedLast l q) :=
  inferInstanceAs (Decidable (∃ e ∈ l.entries.getLast?, _))

/-! ### What has been read of the others -/

variable (net : Net)

/- The seat that the last entry is of has reached the round. -/
def LastSeen (l : Log) (k : UInt64) : Prop :=
  ∀ e, l.entries.getLast? = some e → k.toNat ≤ (net e.playerID.toNat).rounds

def StageSeen (s : ℕ) (k : UInt64) (p : UInt8) : Stage → Prop
  | .fetched _ => k.toNat ≤ (net p.toNat).rounds
  | .appended => LastSeen net (net s).log k
  | .collecting got => LastSeen net (net s).log k ∧ ∀ q ∈ got, k.toNat ≤ (net q).rounds
  | .returned none | .cleaned none =>
    LastSeen net (net s).log k ∧ ∀ q ∈ (net s).receiptSeats (t.setup s), k.toNat ≤ (net q).rounds
  | _ => True

/-- Files are hosted in the round they name, or were. -/
structure SeenInv (s : ℕ) : Prop where
  sound : Sound (t.setup s) (net s)
  proposal : ∀ k a v, (net s).store.get (KeyName.proposal k a).key = some v → k.toNat ≤ (net s).rounds
  receipt : ∀ k a id v, (net s).store.get (KeyName.verify k a id).key = some v → k.toNat ≤ (net s).rounds
  stage : ∀ k p a st, (net s).phase = .inRound k p a st → StageSeen t net s k p st

variable {t net} {s : ℕ} {i : Input} {r : Runner} {k : UInt64} {p : UInt8} {a : UInt32}

theorem LastSeen.later {net' : Net} {l : Log} (h : LastSeen net l k)
    (hl : ∀ q, (net q).rounds ≤ (net' q).rounds) : LastSeen net' l k :=
  fun e he => (h e he).trans (hl _)

theorem LastSeen.append {l : Log} {e : Entry} (h : k.toNat ≤ (net e.playerID.toNat).rounds) :
    LastSeen net (l.append e) k := by
  intro e' he'
  rw [Log.append, List.getLast?_append, List.getLast?_singleton, Option.some_or] at he'
  rwa [← Option.some.inj he']

theorem StageSeen.later {net' : Net} {st : Stage} (h : StageSeen t net s k p st)
    (hlog : (net' s).log = (net s).log) (hl : ∀ q, (net q).rounds ≤ (net' q).rounds) :
    StageSeen t net' s k p st := by
  unfold StageSeen at h ⊢
  simp only [Runner.receiptSeats, hlog] at h ⊢
  split at h
  · exact h.trans (hl _)
  · exact h.later hl
  · exact ⟨h.1.later hl, fun q hq => (h.2 q hq).trans (hl q)⟩
  · exact ⟨h.1.later hl, fun q hq => (h.2 q hq).trans (hl q)⟩
  · exact ⟨h.1.later hl, fun q hq => (h.2 q hq).trans (hl q)⟩
  · trivial

theorem SeenInv.proposal_move (h : SeenInv t net s) (hm : Runner.Move (t.setup s) (net s) i r)
    (k : UInt64) (a : UInt32) (v : Bytes) (hx : r.store.get (KeyName.proposal k a).key = some v) :
    k.toNat ≤ r.rounds := by
  rcases hm.hosted_new hx with hold | ⟨k', p', a', e, hx, _, hphase, _⟩ | ⟨_, _, _, _, hx, _⟩ | ⟨_, _, hx⟩
  · exact (h.proposal k a v hold).trans hm.rounds_le
  · cases hx
    rw [(h.sound.inRound hphase).1]
    exact hm.rounds_le
  · cases hx
  · cases hx

theorem SeenInv.receipt_move (h : SeenInv t net s) (hm : Runner.Move (t.setup s) (net s) i r)
    (k : UInt64) (a : UInt32) (id v : Bytes) (hx : r.store.get (KeyName.verify k a id).key = some v) :
    k.toNat ≤ r.rounds := by
  rcases hm.hosted_new hx with hold | ⟨_, _, _, _, hx, _⟩ | ⟨k', p', a', id', hx, hphase⟩ | ⟨_, _, hx⟩
  · exact (h.receipt k a id v hold).trans hm.rounds_le
  · cases hx
  · cases hx
    exact ((h.sound.move hm).inRound hphase).1.le
  · cases hx

/- The seat that proposes is the one whose turn it is in the log. -/
theorem SeenInv.proposer (h : SeenInv t net s) {st : Stage} (hphase : (net s).phase = .inRound k p a st)
    (hst : st.extended = false) : (net s).log.expectedNextPlayer = p := by
  rw [h.sound.log_eq_base hphase hst]
  exact (h.sound.inRound hphase).2.2.1.symm

theorem SeenInv.served_proposal (hall : ∀ q, SeenInv t net q) {data : Bytes}
    (hphase : (net s).phase = .inRound k p a .polling)
    (hserved : Served t (fun _ => true) net s (.proposal data)) : k.toNat ≤ (net p.toNat).rounds := by
  simp only [Served, hphase, forall_const] at hserved
  rw [(hall s).proposer hphase rfl] at hserved
  exact (hall p.toNat).proposal k a data hserved

theorem SeenInv.served_receipt (hall : ∀ q, SeenInv t net q) {data : Bytes} {q : ℕ} {got : List ℕ}
    (hphase : (net s).phase = .inRound k p a (.collecting got))
    (hserved : Served t (fun _ => true) net s (.receipt q data)) : k.toNat ≤ (net q).rounds := by
  simp only [Served, hphase, forall_const] at hserved
  exact (hall q).receipt k a _ data hserved

/- The proposer is in the round itself. -/
theorem SeenInv.hosted (h : SeenInv t net s) {e : Entry} (hphase : (net s).phase = .inRound k p a (.hosted e)) :
    k.toNat ≤ (net e.playerID.toNat).rounds := by
  obtain ⟨hk, _, _, _, _, hturn, _, hok⟩ := h.sound.inRound hphase
  rw [Runner.isProposer, beq_iff_eq] at hturn
  have hplayer : e.playerID.toNat = s := by rw [(verifyProposal_ok hok).2.1, hturn]; rfl
  rw [hplayer, hk]

theorem SeenInv.stage_move (hall : ∀ q, SeenInv t net q)
    (hserved : Served t (fun _ => true) net s i) (hm : Runner.Move (t.setup s) (net s) i r)
    (hl : ∀ q, (net q).rounds ≤ (Function.update net s r q).rounds)
    (k : UInt64) (p : UInt8) (a : UInt32) (st : Stage) (hst : r.phase = .inRound k p a st) :
    StageSeen t (Function.update net s r) s k p st := by
  have hself : Function.update net s r s = r := Function.update_self ..
  have h := hall s
  have hlater : ∀ {st' : Stage}, r.log = (net s).log → StageSeen t net s k p st' →
      StageSeen t (Function.update net s r) s k p st' := fun hlog hst' => hst'.later (by rw [hself, hlog]) hl
  cases hm with
  | submit => exact hlater rfl (h.stage _ _ _ _ hst)
  | beginRound =>
    cases hst
    unfold Runner.startStage
    split_ifs <;> trivial
  | reject => exact hlater rfl (h.stage _ _ _ _ hst)
  | propose hphase hok =>
    cases hst
    trivial
  | proposal hphase =>
    cases hst
    exact hlater rfl (SeenInv.served_proposal hall hphase hserved)
  | appendOwn hphase =>
    cases hst
    rw [StageSeen, hself]
    exact .append ((h.hosted hphase).trans (hl _))
  | undecoded hphase hdec =>
    cases hst
    trivial
  | invalid hphase =>
    cases hst
    trivial
  | appendFetched hphase hdec hok =>
    cases hst
    have hseen : k.toNat ≤ (net p.toNat).rounds := h.stage _ _ _ _ hphase
    have hplayer := (verifyProposal_ok hok).2.1
    rw [h.proposer hphase rfl] at hplayer
    rw [StageSeen, hself]
    exact .append (by rw [hplayer]; exact hseen.trans (hl _))
  | hostReceipt hphase =>
    cases hst
    have hseen : LastSeen net (net s).log k := h.stage _ _ _ _ hphase
    rw [StageSeen, hself]
    exact ⟨hseen.later hl, nofun⟩
  | @receipt _ _ _ got seat data hphase hmem =>
    cases hst
    obtain ⟨hseen, hgot⟩ : StageSeen t net s k p (.collecting got) := h.stage _ _ _ _ hphase
    rw [StageSeen, hself]
    refine ⟨hseen.later hl, ?_⟩
    intro q hq
    rcases List.mem_cons.mp hq with rfl | hq
    · exact (SeenInv.served_receipt hall hphase hserved).trans (hl q)
    · exact (hgot q hq).trans (hl q)
  | @collected _ _ _ got hphase hgot =>
    cases hst
    obtain ⟨hseen, hread⟩ : StageSeen t net s k p (.collecting got) := h.stage _ _ _ _ hphase
    exact hlater rfl (show StageSeen t net s k p (.returned none) from ⟨hseen, fun q hq => hread q (hgot q hq)⟩)
  | deadline hphase =>
    cases hst
    trivial
  | receiptFailed hphase =>
    cases hst
    trivial
  | @cleanup _ _ _ timeout hphase =>
    cases hst
    have hseen := h.stage _ _ _ _ hphase
    cases timeout with
    | none =>
      have hcleaned : StageSeen t net s k p (.cleaned none) := hseen
      exact hlater rfl hcleaned
    | some reason => trivial
  | commit => cases hst
  | nextAttempt hphase =>
    cases hst
    unfold Runner.startStage
    split_ifs <;> trivial
  | noAttestors => cases hst
  | attest hphase =>
    cases hst
    trivial
  | attestation hphase =>
    cases hst
    trivial
  | attestationFailed => cases hst
  | foldRefused => cases hst
  | fold => cases hst

theorem SeenInv.step {net' : Net} (hall : ∀ q, SeenInv t net q)
    (hstep : Step t (fun _ => true) everyStep net net') :
    (∀ q, SeenInv t net' q) ∧ ∀ q, (net q).rounds ≤ (net' q).rounds := by
  cases hstep with
  | @node s i r hs _ hserved _ hrun =>
    have hm := Runner.step_move hrun
    have hl : ∀ q, (net q).rounds ≤ (Function.update net s r q).rounds := by
      intro q
      by_cases hqs : q = s
      · subst hqs
        rw [Function.update_self]
        exact hm.rounds_le
      · rw [Function.update_of_ne hqs]
    refine ⟨?_, hl⟩
    intro q
    have hq := hall q
    by_cases hqs : q = s
    · subst hqs
      refine ⟨?_, ?_, ?_, ?_⟩ <;> rw [Function.update_self]
      · exact hq.sound.move hm
      · exact hq.proposal_move hm
      · exact hq.receipt_move hm
      · exact SeenInv.stage_move hall hserved hm hl
    · have hsame : Function.update net s r q = net q := Function.update_of_ne hqs ..
      refine ⟨?_, ?_, ?_, ?_⟩ <;> rw [hsame]
      · exact hq.sound
      · exact hq.proposal
      · exact hq.receipt
      · exact fun k p a st hst => (hq.stage k p a st hst).later (by rw [hsame]) hl

theorem SeenInv.start (s : ℕ) : SeenInv t (Net.start (newLog t.numPlayers t.startingStack)) s where
  sound := Sound.start _ _
  proposal _ _ _ h := by cases h
  receipt _ _ _ _ h := by cases h
  stage _ _ _ _ h := by cases h

/- The invariant goes on along a run, and rounds only go up. -/
theorem SeenInv.reaches {net' : Net} (hall : ∀ q, SeenInv t net q)
    (h : Reaches t (fun _ => true) everyStep net net') :
    (∀ q, SeenInv t net' q) ∧ ∀ q, (net q).rounds ≤ (net' q).rounds := by
  induction h with
  | refl => exact ⟨hall, fun _ => le_rfl⟩
  | tail _ hstep ih =>
    obtain ⟨hall', hle⟩ := ih
    obtain ⟨hall'', hle'⟩ := SeenInv.step hall' hstep
    exact ⟨hall'', fun q => (hle q).trans (hle' q)⟩

/-! ### Who is past a round -/

theorem round_of_polls {u : Setup c} {r : Runner} {x : KeyName} (hx : x ∈ r.polls u) :
    ∃ k p a st, r.phase = .inRound k p a st ∧ x.round = some k := by
  unfold Runner.polls at hx
  split at hx
  · rename_i k p a hphase
    rw [List.mem_singleton.mp hx]
    exact ⟨k, p, a, _, hphase, rfl⟩
  · rename_i k p a got hphase
    obtain ⟨seat, _, rfl⟩ := List.mem_map.mp hx
    exact ⟨k, p, a, _, hphase, rfl⟩
  · rename_i k p a cosigs hphase
    obtain ⟨seat, _, rfl⟩ := List.mem_map.mp hx
    exact ⟨k, p, a, _, hphase, rfl⟩
  · cases hx

theorem Past.of_rounds (hall : ∀ q, SeenInv t net q) {q : ℕ} (hq : k.toNat < (net q).rounds) :
    Past t k net q := by
  intro net' hreach
  obtain ⟨hall', hle⟩ := SeenInv.reaches hall hreach
  have hout : ∀ p a st, (net' q).phase ≠ .inRound k p a st := by
    intro p a st hphase
    have hk := ((hall' q).sound.inRound hphase).1
    have := hle q
    omega
  refine ⟨hout, ?_⟩
  intro x hx
  have hround : x.round ≠ some k := by
    intro heq
    obtain ⟨k', p, a, st, hphase, hx'⟩ := round_of_polls hx
    rw [heq] at hx'
    cases hx'
    exact hout p a st hphase
  exact ⟨hround, fun hpre => hround (KeyName.round_of_roundPrefix hpre),
    fun hpre => hround (KeyName.round_of_autoFoldPrefix hpre)⟩

/- A commit adds nothing to the log. -/
theorem commit_eq {u : Setup c} {r r' : Runner} (hphase : r.phase = .inRound k p a (.cleaned none))
    (h : r.step u .conclude = some r') : r'.log = r.log ∧ r'.rounds = r.rounds + 1 := by
  rw [Runner.step, Runner.conclude, hphase] at h
  cases h
  exact ⟨rfl, rfl⟩

theorem receipt_cleanup_safe (c : Primitives) (t : Table c) (net : Net)
    (hreach : Reaches t (fun _ => true) everyStep (Net.start (newLog t.numPlayers t.startingStack)) net)
    {s : ℕ} (hs : s < t.size) {k : UInt64} (hk : 0 < k) {p : UInt8} {a : UInt32}
    (hphase : (net s).phase = .inRound k p a (.cleaned none)) {r : Runner}
    (hcommit : (net s).step (t.setup s) .conclude = some r) {q : ℕ} (hq : q < t.size)
    (hseat : r.log.state.isFolded q = false ∨ FoldedLast r.log q) :
    Past t (k - 1) (Function.update net s r) q := by
  obtain ⟨hall, _⟩ := SeenInv.reaches SeenInv.start hreach
  obtain ⟨hall', hle⟩ := SeenInv.step hall (.node (i := .conclude) hs rfl trivial trivial hcommit)
  obtain ⟨hlog, hrounds⟩ := commit_eq hphase hcommit
  obtain ⟨hlast, hread⟩ : StageSeen t net s k p (.cleaned none) := (hall s).stage _ _ _ _ hphase
  rw [hlog] at hseat
  have hreached : k.toNat ≤ (net q).rounds := by
    rcases hseat with hunfolded | ⟨e, he, _, rfl⟩
    · by_cases hqs : q = s
      · rw [hqs, ((hall s).sound.inRound hphase).1]
      · exact hread q ((t.mem_receiptSeats hs).mpr ⟨hq, hqs, hunfolded⟩)
    · exact hlast e he
  apply Past.of_rounds hall'
  have hpos : 0 < k.toNat := UInt64.lt_iff_toNat_lt.mp hk
  have hsub : (k - 1).toNat = k.toNat - 1 := UInt64.toNat_sub_of_le _ _ (by rw [UInt64.le_iff_toNat_le]; exact hpos)
  have := hle q
  omega

/- All commit a check of seat 0; seat 1 folds in the next round, seat 0 has the fold and
the receipt of seat 2. -/
def foldRead : List (ℕ × Input) :=
  followed 0 ⟨.check, 0⟩ [1, 2] ++ commitsAfter 0 [1, 2] ++ commitsAfter 1 [0, 2] ++ commitsAfter 2 [0, 1] ++
    [(0, .conclude), (1, .conclude), (2, .conclude)] ++ followed 1 ⟨.fold, 0⟩ [0, 2] ++ commitsAfter 0 [2]

def foldReadNet : Net :=
  runTo threeHanded (fun _ => true) everyStep (Net.start (newLog 3 100)) foldRead (by decide +kernel)

theorem receipt_cleanup_safe_fold : ∃ r,
    (foldReadNet 0).step (threeHanded.setup 0) .conclude = some r ∧
    Past threeHanded 0 (Function.update foldReadNet 0 r) 1 ∧
    Past threeHanded 0 (Function.update foldReadNet 0 r) 2 := by
  have hphase : (foldReadNet 0).phase = .inRound 1 1 0 (.cleaned none) := by decide +kernel
  obtain ⟨r, hr⟩ : ∃ r, (foldReadNet 0).step (threeHanded.setup 0) .conclude = some r := by
    rw [Runner.step, Runner.conclude, hphase]
    exact ⟨_, rfl⟩
  have hlog : r.log = (foldReadNet 0).log := (commit_eq hphase hr).1
  refine ⟨r, hr, ?_, ?_⟩
  · refine receipt_cleanup_safe .transparent threeHanded foldReadNet (runTo_reaches ..) (k := 1) (by decide)
      (by decide) hphase hr (by decide) (.inr ?_)
    rw [hlog]
    decide +kernel
  · refine receipt_cleanup_safe .transparent threeHanded foldReadNet (runTo_reaches ..) (k := 1) (by decide)
      (by decide) hphase hr (by decide) (.inl ?_)
    rw [hlog]
    decide +kernel

end Cleanup

end P2Poker.Round
