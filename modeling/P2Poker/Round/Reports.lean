import P2Poker.Round.Certified

/-!
# What a node reports of its rounds (internal/round/runner.go: runRound, emit)

A round reports its rejected actions and its timeouts attempt by attempt, and then how
it ended. The reports of a node are read back against its log, and against what the
simulator expects of a round that folds its proposer (internal/sim/rounds.go).
-/

namespace P2Poker.Round
open P2Poker.Lib P2Poker.Crypto P2Poker.Game P2Poker.Ephemeral

/-! ### What the simulator expects -/

structure ExpectedEvent where
  attempt : UInt32
  outcome : Outcome
  deriving DecidableEq

def Outcome.text : Outcome → String
  | .committed => "committed"
  | .rejected => "rejected"
  | .timeout => "timeout"
  | .autoFold => "auto_fold"

def expectedAutoFoldEvents (maxAttempts : UInt32) (includeInitialReject : Bool) : List ExpectedEvent :=
  (if includeInitialReject then [⟨0, .rejected⟩] else []) ++
    (List.range maxAttempts.toNat).map (fun a => ⟨UInt32.ofNat a, .timeout⟩) ++ [⟨0, .autoFold⟩]

/- The loop of verifyExpectedEvents from event `i` on. -/
def verifyFrom : ℕ → List AttemptEvent → List ExpectedEvent → Except String Unit
  | i, ev :: got, ex :: want =>
    let attempt := ev.attempt
    let outcome := ev.outcome.text
    let wantAttempt := ex.attempt
    let wantOutcome := ex.outcome.text
    if ev.attempt ≠ ex.attempt ∨ ev.outcome ≠ ex.outcome then
      .error s!"event {i}: got ({attempt},{outcome}), want ({wantAttempt},{wantOutcome})"
    else verifyFrom (i + 1) got want
  | _, _, _ => .ok ()

def verifyExpectedEvents (got : List AttemptEvent) (want : List ExpectedEvent) : Except String Unit :=
  let gotCount := got.length
  let wantCount := want.length
  if gotCount ≠ wantCount then .error s!"got {gotCount} events, want {wantCount}"
  else verifyFrom 0 got want

def AttemptEvent.expected (ev : AttemptEvent) : ExpectedEvent := ⟨ev.attempt, ev.outcome⟩

theorem verifyFrom_expected (i : ℕ) (got : List AttemptEvent) :
    verifyFrom i got (got.map AttemptEvent.expected) = .ok () := by
  induction got generalizing i with
  | nil => rfl
  | cons ev got ih =>
    rw [List.map_cons, verifyFrom, if_neg (by simp [AttemptEvent.expected])]
    exact ih (i + 1)

theorem verifyExpectedEvents_expected (got : List AttemptEvent) :
    verifyExpectedEvents got (got.map AttemptEvent.expected) = .ok () := by
  rw [verifyExpectedEvents, if_neg (by simp)]
  exact verifyFrom_expected 0 got

/-! ### The reports of a round -/

/-- The reports of round `k` up to its attempt `a`. -/
inductive Attempts (k : UInt64) : ℕ → List AttemptEvent → Prop
  | first : Attempts k 0 []
  | rejected {a : ℕ} {es : List AttemptEvent} (reason : Bytes) : Attempts k a es →
      Attempts k a (es ++ [⟨k, UInt32.ofNat a, .rejected, reason⟩])
  | timeout {a : ℕ} {es : List AttemptEvent} (reason : Bytes) : Attempts k a es →
      Attempts k (a + 1) (es ++ [⟨k, UInt32.ofNat a, .timeout, reason⟩])

/-- The reports of a round that was played on `l` and added `e` to it. -/
inductive Ended {c : Primitives} (u : Setup c) (l : Log) (e : Entry) : List AttemptEvent → Prop
  | committed {a : ℕ} {es : List AttemptEvent} {pk : Bytes} : Attempts l.roundID a es → a < u.maxAttempts.toNat →
      l.verifyProposal c e pk = .ok () →
      Ended u l e (es ++ [⟨l.roundID, UInt32.ofNat a, .committed, []⟩])
  | autoFold {es : List AttemptEvent} {pks : UInt8 → Option Bytes} : Attempts l.roundID u.maxAttempts.toNat es →
      l.verifyAutoFoldEntry c e pks = .ok () →
      Ended u l e (es ++ [⟨l.roundID, 0, .autoFold, []⟩])

def AttemptEvent.kept (ev : AttemptEvent) : Bool := decide (ev.outcome ≠ .rejected)

/- Without the rejected actions there is one timeout for each attempt. -/
theorem Attempts.kept {k : UInt64} {a : ℕ} {es : List AttemptEvent} (h : Attempts k a es) :
    (es.filter AttemptEvent.kept).map AttemptEvent.expected =
      (List.range a).map fun a => ⟨UInt32.ofNat a, .timeout⟩ := by
  induction h with
  | first => rfl
  | rejected reason _ ih =>
    rw [List.filter_append, List.map_append, ih]
    exact List.append_nil _
  | timeout reason _ ih =>
    rw [List.filter_append, List.map_append, ih, List.range_succ, List.map_append]
    rfl

theorem Attempts.unfinished {k : UInt64} {a : ℕ} {es : List AttemptEvent} (h : Attempts k a es) :
    ∀ ev ∈ es, ev.outcome ≠ .autoFold := by
  induction h with
  | first => simp
  | rejected reason _ ih =>
    intro ev hev
    rcases List.mem_append.mp hev with hold | hnew
    · exact ih ev hold
    · rw [List.mem_singleton.mp hnew]
      simp
  | timeout reason _ ih =>
    intro ev hev
    rcases List.mem_append.mp hev with hold | hnew
    · exact ih ev hold
    · rw [List.mem_singleton.mp hnew]
      simp

section Reports
variable {c : Primitives} {u : Setup c} {l : Log} {e : Entry} {es : List AttemptEvent}

/- A round that folds its proposer passes the check of the simulator. -/
theorem Ended.expected (h : Ended u l e es) (hfold : ∃ ev ∈ es, ev.outcome = .autoFold) :
    verifyExpectedEvents (es.filter AttemptEvent.kept) (expectedAutoFoldEvents u.maxAttempts false) = .ok () := by
  obtain ⟨ev, hev, hout⟩ := hfold
  cases h with
  | committed hes _ _ =>
    rcases List.mem_append.mp hev with hold | hnew
    · exact absurd hout (hes.unfinished ev hold)
    · rw [List.mem_singleton.mp hnew] at hout
      cases hout
  | @autoFold es _ hes _ =>
    have hkept : ((es ++ [(⟨l.roundID, 0, .autoFold, []⟩ : AttemptEvent)]).filter AttemptEvent.kept).map
        AttemptEvent.expected = expectedAutoFoldEvents u.maxAttempts false := by
      rw [List.filter_append, List.map_append, hes.kept]
      rfl
    rw [← hkept]
    exact verifyExpectedEvents_expected _

/-! ### A node's reports -/

/- What is reported since the last round that is over. -/
def PhaseTold (u : Setup c) (r : Runner) (current : List AttemptEvent) : Phase → Prop
  | .idle => current = []
  | .inRound k _ a st =>
    Attempts k a.toNat current ∧ (st.folding = true → a = u.maxAttempts) ∧ (st.folding = false → a < u.maxAttempts) ∧
      (st.extended = true → ∃ e pk, r.log = r.base.append e ∧ r.base.verifyProposal c e pk = .ok ())
  | .failed => ∃ es err, current = es ++ [⟨r.base.roundID, 0, .autoFold, err⟩] ∧
      Attempts r.base.roundID u.maxAttempts.toNat es

/-- One list of reports for each round that is over, in the order of the log. -/
structure Told (u : Setup c) (r : Runner) (blocks : List (List AttemptEvent)) (current : List AttemptEvent) : Prop where
  events : r.events = blocks.flatten ++ current
  length : blocks.length = r.rounds
  ended : ∀ i es, blocks[i]? = some es → ∃ e, r.base.entries[i]? = some e ∧ Ended u (r.base.upTo i) e es
  phase : PhaseTold u r current r.phase

variable {r r' : Runner} {i : Input} {blocks : List (List AttemptEvent)} {current : List AttemptEvent}
  {k : UInt64} {p : UInt8} {a : UInt32} {st st' : Stage}

theorem Sound.base_roundID (h : Sound u r) (hphase : r.phase = .inRound k p a st) : r.base.roundID = k := by
  obtain ⟨hk, hbound, _, _, hlen, _⟩ := h.inRound hphase
  have hbase : r.base.entries.length = r.rounds := by
    rw [Runner.base, Log.upTo, List.length_take]
    omega
  apply UInt64.toNat_inj.mp
  rw [roundID_toNat (by omega), hbase, hk]

theorem Told.inRound (h : Told u r blocks current) (hphase : r.phase = .inRound k p a st) :
    Attempts k a.toNat current ∧ (st.folding = true → a = u.maxAttempts) ∧ (st.folding = false → a < u.maxAttempts) ∧
      (st.extended = true → ∃ e pk, r.log = r.base.append e ∧ r.base.verifyProposal c e pk = .ok ()) := by
  have hold := h.phase
  rwa [hphase] at hold

/- The rounds that are over stay as they are, and nothing is reported. -/
theorem Told.goOn (h : Told u r blocks current) (hevents : r'.events = r.events) (hrounds : r'.rounds = r.rounds)
    (hbase : r'.base = r.base) (hphase : PhaseTold u r' current r'.phase) : Told u r' blocks current := by
  refine ⟨hevents.trans h.events, h.length.trans hrounds.symm, ?_, hphase⟩
  rw [hbase]
  exact h.ended

/- One more report in the round. -/
theorem Told.report {ev : AttemptEvent} (h : Told u r blocks current) (hevents : r'.events = r.events ++ [ev])
    (hrounds : r'.rounds = r.rounds) (hbase : r'.base = r.base)
    (hphase : PhaseTold u r' (current ++ [ev]) r'.phase) : Told u r' blocks (current ++ [ev]) := by
  refine ⟨?_, h.length.trans hrounds.symm, ?_, hphase⟩
  · rw [hevents, h.events, List.append_assoc]
  · rw [hbase]
    exact h.ended

/- The round is over, and its last report with it. -/
theorem Told.finish {ev : AttemptEvent} {e : Entry} (h : Told u r blocks current)
    (hevents : r'.events = r.events ++ [ev]) (hrounds : r'.rounds = r.rounds + 1)
    (hlen : r.base.entries.length = r.rounds) (hbase : r'.base = r.base.append e)
    (hended : Ended u r.base e (current ++ [ev])) (hphase : r'.phase = .idle) :
    Told u r' (blocks ++ [current ++ [ev]]) [] := by
  refine ⟨?_, ?_, ?_, ?_⟩
  · rw [hevents, h.events, List.flatten_append, List.flatten_singleton, List.append_nil, List.append_assoc]
  · rw [List.length_append, h.length, hrounds]
    rfl
  · intro i es hi
    rw [hbase]
    rcases Nat.lt_trichotomy i blocks.length with hlt | rfl | hgt
    · rw [List.getElem?_append_left hlt] at hi
      obtain ⟨e', he', hend⟩ := h.ended i es hi
      refine ⟨e', ?_, ?_⟩
      · rw [Log.append, List.getElem?_append_left (by rw [hlen, ← h.length]; exact hlt)]
        exact he'
      · rw [Log.upTo_append (by rw [hlen, ← h.length]; exact hlt.le)]
        exact hend
    · rw [List.getElem?_append_right le_rfl, Nat.sub_self] at hi
      obtain rfl := Option.some.inj hi
      refine ⟨e, ?_, ?_⟩
      · rw [Log.append, h.length, ← hlen]
        simp
      · rw [h.length, ← hlen, Log.upTo_append_length]
        exact hended
    · rw [List.getElem?_eq_none (by rw [List.length_append, List.length_singleton]; omega)] at hi
      cases hi
  · rw [hphase]
    rfl

theorem Sound.base_eq (hs : Sound u r) (hstep : r.step u i = some r') (hrounds : r'.rounds = r.rounds) :
    r'.base = r.base := by
  rw [Runner.base, hrounds, hs.move_upTo (Runner.step_move hstep) le_rfl]
  rfl

theorem Sound.base_length (hs : Sound u r) (hphase : r.phase = .inRound k p a st) :
    r.base.entries.length = r.rounds := by
  obtain ⟨_, _, _, _, hlen, _⟩ := hs.inRound hphase
  rw [Runner.base, Log.upTo, List.length_take]
  omega

theorem Setup.maxAttempts_pos (u : Setup c) : 0 < u.maxAttempts := by
  unfold maxAttempts
  split_ifs with h
  · decide
  · exact UInt32.pos_iff_ne_zero.mpr h

theorem Runner.startStage_folding (u : Setup c) (r : Runner) : (r.startStage u).folding = false := by
  unfold startStage
  split_ifs
  · rfl
  · rfl

/- The node goes on in the attempt it is in. -/
theorem Told.stage (h : Told u r blocks current) (hs : Sound u r) (hstep : r.step u i = some r')
    (hphase : r.phase = .inRound k p a st) (hphase' : r'.phase = .inRound k p a st')
    (hevents : r'.events = r.events) (hrounds : r'.rounds = r.rounds) (hfolding : st'.folding = st.folding)
    (hext : st'.extended = true → ∃ e pk, r'.log = r.base.append e ∧ r.base.verifyProposal c e pk = .ok ()) :
    Told u r' blocks current := by
  obtain ⟨hes, hlast, hmore, _⟩ := h.inRound hphase
  have hbase := hs.base_eq hstep hrounds
  refine h.goOn hevents hrounds hbase ?_
  rw [hphase', PhaseTold, hfolding, hbase]
  exact ⟨hes, hlast, hmore, hext⟩

/- driveAutoFold has failed. -/
theorem Told.fail {err : Bytes} (h : Told u r blocks current) (hs : Sound u r) (hstep : r.step u i = some r')
    (hphase : r.phase = .inRound k p a st) (hst : st.folding = true) (hphase' : r'.phase = .failed)
    (hevents : r'.events = r.events ++ [⟨k, 0, .autoFold, err⟩]) (hrounds : r'.rounds = r.rounds) :
    ∃ current', Told u r' blocks current' := by
  obtain ⟨hes, hlast, _, _⟩ := h.inRound hphase
  rw [hlast hst] at hes
  have hbase := hs.base_eq hstep hrounds
  refine ⟨_, h.report hevents hrounds hbase ?_⟩
  rw [hphase', PhaseTold, hbase, hs.base_roundID hphase]
  exact ⟨current, err, rfl, hes⟩

theorem propose_reports (h : r.propose u = some r') :
    r'.events = r.events ∨ ∃ k p a reason, r.phase = .inRound k p a .choosing ∧ r'.phase = r.phase ∧ r'.log = r.log ∧
      r'.rounds = r.rounds ∧ r'.events = r.events ++ [⟨k, a, .rejected, reason⟩] := by
  unfold Runner.propose at h
  split at h
  · rename_i k p a action hphase _
    dsimp only at h
    split at h
    · obtain rfl := Option.some.inj h
      exact .inr ⟨k, p, a, _, hphase, rfl, rfl, rfl, rfl⟩
    · obtain rfl := Option.some.inj h
      exact .inl rfl
  · cases h

theorem Told.reject (h : Told u r blocks current) (hstep : r.propose u = some r')
    (hne : r'.events ≠ r.events) : ∃ current', Told u r' blocks current' := by
  rcases propose_reports hstep with hsame | ⟨k, p, a, reason, hphase, hphase', hlog, hrounds, hevents⟩
  · exact absurd hsame hne
  · obtain ⟨hes, hlast, hmore, _⟩ := h.inRound hphase
    have hbase : r'.base = r.base := by rw [Runner.base, hlog, hrounds, Runner.base]
    refine ⟨_, h.report hevents hrounds hbase ?_⟩
    rw [hphase', hphase]
    have hreport := Attempts.rejected reason hes
    rw [UInt32.ofNat_toNat] at hreport
    exact ⟨hreport, hlast, hmore, by simp [Stage.extended]⟩

theorem Told.begin (h : Told u r blocks current) (hphase : r.phase = .idle) :
    Told u { r with phase := .inRound r.log.roundID r.log.expectedNextPlayer 0 (r.startStage u) } blocks current := by
  refine h.goOn rfl rfl rfl ?_
  have hold := h.phase
  rw [hphase] at hold
  obtain rfl : current = [] := hold
  refine ⟨.first, ?_, ?_, ?_⟩
  · rw [r.startStage_folding u]
    simp
  · exact fun _ => u.maxAttempts_pos
  · rw [r.startStage_extended u]
    simp

/- The next attempt, or the auto-fold after the last. -/
theorem Told.next {reason : Bytes} (h : Told u r blocks current)
    (hphase : r.phase = .inRound k p a (.cleaned (some reason))) :
    Told u { r with
      events := r.events ++ [⟨k, a, .timeout, reason⟩]
      phase := .inRound k p (a + 1) (if a + 1 < u.maxAttempts then r.startStage u else .attesting) }
      blocks (current ++ [⟨k, a, .timeout, reason⟩]) := by
  obtain ⟨hes, _, hmore, _⟩ := h.inRound hphase
  have hlt := UInt32.lt_iff_toNat_lt.mp (hmore rfl)
  have hsucc : (a + 1).toNat = a.toNat + 1 := by
    have hmax := u.maxAttempts.toNat_lt
    rw [UInt32.toNat_add]
    exact Nat.mod_eq_of_lt (by simpa using (by omega : a.toNat + 1 < 2 ^ 32))
  refine h.report rfl rfl rfl ?_
  have hreport := Attempts.timeout reason hes
  rw [UInt32.ofNat_toNat, ← hsucc] at hreport
  refine ⟨hreport, ?_, ?_, ?_⟩
  · intro hfold
    split_ifs at hfold with hagain
    · rw [r.startStage_folding u] at hfold
      cases hfold
    · apply UInt32.toNat_inj.mp
      rw [UInt32.lt_iff_toNat_lt] at hagain
      omega
  · intro hfold
    split_ifs at hfold with hagain
    · exact hagain
    · cases hfold
  · intro hext
    split_ifs at hext
    · rw [r.startStage_extended u] at hext
      cases hext
    · cases hext

/- An attempt that collected its receipts is committed. -/
theorem Told.commit (h : Told u r blocks current) (hs : Sound u r) (hphase : r.phase = .inRound k p a (.cleaned none))
    (hevents : r'.events = r.events ++ [⟨k, a, .committed, []⟩]) (hrounds : r'.rounds = r.rounds + 1)
    (hlog : r'.log = r.log) (hphase' : r'.phase = .idle) : ∃ blocks' current', Told u r' blocks' current' := by
  obtain ⟨hes, _, hmore, hext⟩ := h.inRound hphase
  obtain ⟨e, pk, happ, hok⟩ := hext rfl
  obtain ⟨_, _, _, _, hlen, _⟩ := hs.inRound hphase
  have hlen : r.log.entries.length = r.rounds + 1 := hlen
  have hbase : r'.base = r.base.append e := by
    rw [Runner.base, hlog, hrounds, Log.upTo_eq_self hlen.le, happ]
  rw [← hs.base_roundID hphase] at hes hevents
  have hended := Ended.committed hes (UInt32.lt_iff_toNat_lt.mp (hmore rfl)) hok
  rw [UInt32.ofNat_toNat] at hended
  exact ⟨_, _, h.finish hevents hrounds (hs.base_length hphase) hbase hended hphase'⟩

/- The attestations are there and the proposer is folded. -/
theorem Told.fold {cosigs : List (UInt8 × Option Bytes)} {e : Entry} {pks : UInt8 → Option Bytes}
    (h : Told u r blocks current) (hs : Sound u r) (hphase : r.phase = .inRound k p a (.gathering cosigs))
    (happ : r.log.appendAutoFold c e pks = .ok r'.log)
    (hevents : r'.events = r.events ++ [⟨k, 0, .autoFold, []⟩]) (hrounds : r'.rounds = r.rounds + 1)
    (hphase' : r'.phase = .idle) : ∃ blocks' current', Told u r' blocks' current' := by
  obtain ⟨hes, hlast, _, _⟩ := h.inRound hphase
  rw [hlast rfl] at hes
  obtain ⟨_, _, _, _, hlen, _⟩ := hs.inRound hphase
  have hlen : r.log.entries.length = r.rounds := hlen
  have hlog : r.log = r.base := hs.log_eq_base hphase rfl
  obtain ⟨hok, happend⟩ := appendAutoFold_ok happ
  have hbase : r'.base = r.base.append e := by
    rw [Runner.base, happend, hrounds, Log.upTo_eq_self (by simp [Log.append, hlen]), ← hlog]
  rw [hlog] at hok
  rw [← hs.base_roundID hphase] at hes hevents
  exact ⟨_, _, h.finish hevents hrounds (hs.base_length hphase) hbase (.autoFold hes hok) hphase'⟩

theorem Told.step (h : Told u r blocks current) (hs : Sound u r) (hstep : r.step u i = some r') :
    ∃ blocks' current', Told u r' blocks' current' := by
  cases Runner.step_move hstep with
  | submit _ => exact ⟨_, _, h.goOn rfl rfl rfl h.phase⟩
  | beginRound hphase _ _ => exact ⟨_, _, h.begin hphase⟩
  | reject hphase hout => exact ⟨blocks, h.reject hstep (by simp)⟩
  | propose hphase _ => exact ⟨_, _, h.stage hs hstep hphase rfl rfl rfl rfl (by simp [Stage.extended])⟩
  | proposal hphase => exact ⟨_, _, h.stage hs hstep hphase rfl rfl rfl rfl (by simp [Stage.extended])⟩
  | appendOwn hphase =>
    obtain ⟨_, _, hok⟩ := hs.stage hphase
    have hlog := hs.log_eq_base hphase rfl
    rw [hlog] at hok
    exact ⟨_, _, h.stage hs hstep hphase rfl rfl rfl rfl fun _ => ⟨_, _, congrArg (Log.append · _) hlog, hok⟩⟩
  | undecoded hphase _ => exact ⟨_, _, h.stage hs hstep hphase rfl rfl rfl rfl (by simp [Stage.extended])⟩
  | invalid hphase => exact ⟨_, _, h.stage hs hstep hphase rfl rfl rfl rfl (by simp [Stage.extended])⟩
  | appendFetched hphase _ hok =>
    have hlog := hs.log_eq_base hphase rfl
    rw [hlog] at hok
    exact ⟨_, _, h.stage hs hstep hphase rfl rfl rfl rfl fun _ => ⟨_, _, congrArg (Log.append · _) hlog, hok⟩⟩
  | hostReceipt hphase => exact ⟨_, _, h.stage hs hstep hphase rfl rfl rfl rfl (h.inRound hphase).2.2.2⟩
  | receipt hphase _ => exact ⟨_, _, h.stage hs hstep hphase rfl rfl rfl rfl (h.inRound hphase).2.2.2⟩
  | collected hphase _ => exact ⟨_, _, h.stage hs hstep hphase rfl rfl rfl rfl (h.inRound hphase).2.2.2⟩
  | deadline hphase hst =>
    have hfolding := (Stage.flags_of_waiting hst).1
    exact ⟨_, _, h.stage hs hstep hphase rfl rfl rfl hfolding.symm (by simp [Stage.extended])⟩
  | receiptFailed hphase => exact ⟨_, _, h.stage hs hstep hphase rfl rfl rfl rfl (by simp [Stage.extended])⟩
  | @cleanup k p a timeout hphase =>
    refine ⟨_, _, h.stage hs hstep hphase rfl rfl rfl rfl fun hext => (h.inRound hphase).2.2.2 ?_⟩
    cases timeout with
    | none => rfl
    | some reason => exact hext
  | commit hphase => exact h.commit hs hphase rfl rfl rfl rfl
  | nextAttempt hphase => exact ⟨_, _, h.next hphase⟩
  | noAttestors hphase => exact ⟨blocks, h.fail hs hstep hphase rfl rfl rfl rfl⟩
  | attest hphase => exact ⟨_, _, h.stage hs hstep hphase rfl rfl rfl rfl (by simp [Stage.extended])⟩
  | attestation hphase => exact ⟨_, _, h.stage hs hstep hphase rfl rfl rfl rfl (by simp [Stage.extended])⟩
  | attestationFailed hphase => exact ⟨blocks, h.fail hs hstep hphase rfl rfl rfl rfl⟩
  | foldRefused hphase => exact ⟨blocks, h.fail hs hstep hphase rfl rfl rfl rfl⟩
  | fold hphase _ happ => exact h.fold hs hphase happ rfl rfl rfl

theorem Told.of_runs {n : UInt8} {stack : UInt64} {P : Runner → Input → Prop}
    (h : Runner.Runs u P (.start n stack) r) : ∃ blocks current, Told u r blocks current := by
  induction h with
  | refl => exact ⟨[], [], rfl, rfl, fun i es hi => (by cases hi), rfl⟩
  | tail hruns hsteps ih =>
    obtain ⟨blocks, current, htold⟩ := ih
    obtain ⟨i, _, hstep⟩ := hsteps
    exact htold.step ((Sound.start n stack).runs hruns) hstep

end Reports

/-- The reports of a run fall into one list for each round that is over, which tells how
many attempts timed out and whether the entry of that round in the log is a proposal or
an auto-fold, and the reports of the round that the node is in. -/
theorem reports_tell_log (c : Primitives) (u : Setup c) (n : UInt8) (stack : UInt64) (r : Runner)
    (h : Runner.Runs u (fun _ _ => True) (.start n stack) r) :
    ∃ (blocks : List (List AttemptEvent)) (current : List AttemptEvent),
      r.events = blocks.flatten ++ current ∧ blocks.length = r.rounds ∧
      (∀ i es, blocks[i]? = some es → ∃ e, r.committed[i]? = some e ∧ Ended u (r.log.upTo i) e es ∧
        ((∃ ev ∈ es, ev.outcome = .autoFold) →
          verifyExpectedEvents (es.filter AttemptEvent.kept) (expectedAutoFoldEvents u.maxAttempts false) = .ok ())) ∧
      PhaseTold u r current r.phase := by
  obtain ⟨blocks, current, htold⟩ := Told.of_runs h
  refine ⟨blocks, current, htold.events, htold.length, ?_, htold.phase⟩
  intro i es hi
  obtain ⟨e, he, hended⟩ := htold.ended i es hi
  have hle : i ≤ r.rounds := by
    rw [← htold.length]
    exact (List.getElem?_eq_some_iff.mp hi).1.le
  rw [Runner.base, Log.upTo_upTo hle] at hended
  exact ⟨e, he, hended, hended.expected⟩

/- Seat 1 of two waits for seat 0 in vain and folds it. -/
def foldsZero : List Input := [.beginRound, .deadline, .cleanup, .conclude, .attest, .foldProposer]

theorem reports_tell_fold :
    ∃ r, Runner.feed ((Table.sample 2 (by decide) 1 100).setup 1) (.start 2 100) foldsZero = some r ∧
      r.events.map AttemptEvent.expected = [⟨0, .timeout⟩, ⟨0, .autoFold⟩] ∧
      ∃ (blocks : List (List AttemptEvent)) (current : List AttemptEvent),
        r.events = blocks.flatten ++ current ∧ blocks.length = r.rounds := by
  have hsome : ((Runner.feed ((Table.sample 2 (by decide) 1 100).setup 1) (.start 2 100) foldsZero).map
      fun r => r.events.map AttemptEvent.expected) = some [⟨0, .timeout⟩, ⟨0, .autoFold⟩] := by
    decide +kernel
  obtain ⟨r, hr, hevents⟩ := Option.map_eq_some_iff.mp hsome
  obtain ⟨blocks, current, hsplit, hlength, _⟩ :=
    reports_tell_log .transparent _ 2 100 r (Runner.feed_runs (fun _ _ _ => trivial) hr)
  exact ⟨r, hr, hevents, blocks, current, hsplit, hlength⟩

end P2Poker.Round
