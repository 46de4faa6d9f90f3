import P2Poker.Game.AutoFold
import P2Poker.Game.Rotation
import P2Poker.Round.Moves

/-!
# A node's log certifies itself

One node, with peers that answer with any bytes at any time. Entries are appended
on probation and rolled back, but whatever is in the log was accepted against the
entries before it, and a round adds one entry or none.
-/

namespace P2Poker.Round
open P2Poker.Lib P2Poker.Crypto P2Poker.Game P2Poker.Ephemeral

/-! ### Runs of one node -/

namespace Runner
variable {c : Primitives}

def start (n : UInt8) (stack : UInt64) : Runner := { log := newLog n stack, rounds := 0 }

/-- A step of the node on some input that meets `P`. -/
def Steps (u : Setup c) (P : Runner → Input → Prop) (r r' : Runner) : Prop :=
  ∃ i, P r i ∧ r.step u i = some r'

def Runs (u : Setup c) (P : Runner → Input → Prop) : Runner → Runner → Prop :=
  Relation.ReflTransGen (Steps u P)

def feed (u : Setup c) (r : Runner) (inputs : List Input) : Option Runner := inputs.foldlM (step u) r

theorem feed_runs {u : Setup c} {P : Runner → Input → Prop} {r r' : Runner} {inputs : List Input}
    (hP : ∀ r, ∀ i ∈ inputs, P r i) (h : r.feed u inputs = some r') : Runs u P r r' := by
  unfold feed at h
  induction inputs generalizing r with
  | nil =>
    obtain rfl : r = r' := by simpa using h
    exact .refl
  | cons i inputs ih =>
    rw [List.foldlM_cons, Option.bind_eq_bind, Option.bind_eq_some_iff] at h
    obtain ⟨mid, hstep, hrest⟩ := h
    exact .head ⟨i, hP r i (by simp), hstep⟩ (ih (fun r j hj => hP r j (List.mem_cons_of_mem _ hj)) hrest)

/-- The log of the rounds that are over. -/
def base (r : Runner) : Log := r.log.upTo r.rounds

end Runner

/-! ### Certified logs -/

section Certified
variable {c : Primitives} (u : Setup c)

/-- The key a proposal of this seat is checked with: the node's own one for its
own seat, else the one it has for the peer. -/
def Setup.HasKey (seat : UInt8) (pk : Bytes) : Prop :=
  seat = u.mySeat ∧ pk = u.pk ∨ u.peerPK (u.nodeID seat.toNat) = some pk

def Certifies (l : Log) (e : Entry) : Prop :=
  (∃ pk, u.HasKey e.playerID pk ∧ l.verifyProposal c e pk = .ok ()) ∨
    l.verifyAutoFoldEntry c e (fun seat => u.peerPK (u.nodeID seat.toNat)) = .ok ()

/-- Every entry has its index as round and was accepted against those before it. -/
def Certified (l : Log) : Prop :=
  ∀ i e, l.entries[i]? = some e → e.roundID.toNat = i ∧ Certifies u (l.upTo i) e

variable {u}

theorem Certifies.accepts {l : Log} {e : Entry} (h : Certifies u l e) : l.Accepts c e := by
  rcases h with ⟨pk, _, h⟩ | h
  · exact Or.inl ⟨pk, h⟩
  · exact .of_autoFold h

theorem Certified.upTo {l : Log} (h : Certified u l) (k : ℕ) : Certified u (l.upTo k) := by
  intro i e he
  have hik : i < k ∧ l.entries[i]? = some e := by
    rw [Log.upTo, List.getElem?_take] at he
    split_ifs at he with hlt
    exact ⟨hlt, he⟩
  rw [Log.upTo_upTo hik.1.le]
  exact h i e hik.2

theorem Certified.append {l : Log} {e : Entry} (h : Certified u l) (hlen : l.entries.length < 2 ^ 63)
    (hround : e.roundID = l.roundID) (he : Certifies u l e) : Certified u (l.append e) := by
  intro i e' he'
  rcases Nat.lt_trichotomy i l.entries.length with hlt | rfl | hgt
  · rw [Log.upTo_append hlt.le]
    refine h i e' ?_
    rwa [Log.append, List.getElem?_append_left hlt] at he'
  · obtain rfl : e = e' := by simpa [Log.append] using he'
    rw [Log.upTo_append_length, hround, roundID_toNat hlen]
    exact ⟨rfl, he⟩
  · rw [List.getElem?_eq_none (by simpa [Log.append] using hgt)] at he'
    cases he'

theorem Certified.reachable {l : Log} (h : Certified u l) :
    Reachable c l.numPlayers l.startingStack l := by
  have hup : Reachable c l.numPlayers l.startingStack (l.upTo l.entries.length) :=
    Log.upTo_induct (P := Reachable c l.numPlayers l.startingStack) (Nat.zero_le _) .new
      fun i e he hi => .append hi (h i e he).2.accepts trivial
  rwa [Log.upTo_eq_self le_rfl] at hup

theorem certifies_fetched {l : Log} {e : Entry}
    (h : l.verifyProposal c e ((u.peerPK (u.nodeID l.expectedNextPlayer.toNat)).getD []) = .ok ()) :
    Certifies u l e := by
  obtain ⟨_, hturn, hsize, _, _⟩ := verifyProposal_ok h
  refine Or.inl ⟨_, Or.inr ?_, h⟩
  rw [hturn]
  cases hpk : u.peerPK (u.nodeID l.expectedNextPlayer.toNat) with
  | none =>
    -- without a key the size check fails
    rw [hpk] at hsize
    cases hsize
  | some pk => rfl

theorem certifies_fold {l l' : Log} {e : Entry} {expected : List UInt8}
    (h : l.appendAutoFold c e (Runner.attestorPKs u expected) = .ok l') : Certifies u l e := by
  obtain ⟨hfold, hco⟩ := verifyAutoFoldEntry_ok_iff.mp (appendAutoFold_ok h).1
  refine Or.inr (verifyAutoFoldEntry_ok_iff.mpr ⟨hfold, hco.coSigners, hco.coSignatures, ?_⟩)
  intro x hx
  obtain ⟨pk, hpk, hok⟩ := hco.attest x hx
  unfold Runner.attestorPKs at hpk
  split_ifs at hpk
  exact ⟨pk, hpk, hok⟩

end Certified

/-! ### What holds at every moment -/

section Sound
variable {c : Primitives} (u : Setup c) (r : Runner)

def StageSound : Stage → Prop
  | .choosing => r.isProposer u = true
  | .hosted e => r.isProposer u = true ∧ e.playerID = u.mySeat ∧ r.log.verifyProposal c e u.pk = .ok ()
  | .polling => r.isProposer u = false
  | .fetched _ => r.isProposer u = false
  | .silent _ => r.isProposer u = false
  | _ => True

/-- Inside a round the log is the one of the rounds that are over, with one entry
more while the attempt has its entry in it. -/
def PhaseSound : Phase → Prop
  | .inRound k p _ st =>
    k.toNat = r.rounds ∧ r.rounds + 1 < 2 ^ 63 ∧ p = r.base.expectedNextPlayer ∧
      r.base.state.handOver = false ∧
      r.log.entries.length = r.rounds + (if st.extended then 1 else 0) ∧ StageSound u r st
  | _ => r.log.entries.length = r.rounds ∧ r.rounds < 2 ^ 63

structure Sound : Prop where
  certified : Certified u r.log
  phase : PhaseSound u r r.phase

variable {u r} {r' : Runner} {i : Input} {k : UInt64} {p : UInt8} {a a' : UInt32} {st st' : Stage}

theorem Sound.inRound (h : Sound u r) (hphase : r.phase = .inRound k p a st) :
    k.toNat = r.rounds ∧ r.rounds + 1 < 2 ^ 63 ∧ p = r.base.expectedNextPlayer ∧
      r.base.state.handOver = false ∧
      r.log.entries.length = r.rounds + (if st.extended then 1 else 0) ∧ StageSound u r st := by
  have := h.phase
  rwa [hphase] at this

theorem Sound.committed_length (h : Sound u r) : r.committed.length = r.rounds := by
  have hle : r.rounds ≤ r.log.entries.length := by
    have hphase := h.phase
    cases hp : r.phase with
    | inRound k p a st =>
      have := (h.inRound hp).2.2.2.2.1
      omega
    | idle =>
      rw [hp] at hphase
      exact hphase.1.ge
    | failed =>
      rw [hp] at hphase
      exact hphase.1.ge
  rw [Runner.committed, List.length_take, Nat.min_eq_left hle]

theorem Sound.stage (h : Sound u r) (hphase : r.phase = .inRound k p a st) : StageSound u r st :=
  (h.inRound hphase).2.2.2.2.2

/- Nothing is appended: the log is the one of the rounds that are over. -/
theorem Sound.log_eq_base (h : Sound u r) (hphase : r.phase = .inRound k p a st)
    (hst : st.extended = false) : r.log = r.base := by
  obtain ⟨_, _, _, _, hlen, _⟩ := h.inRound hphase
  rw [hst] at hlen
  exact (Log.upTo_eq_self hlen.le).symm

theorem Runner.isProposer_congr (hlog : r'.log = r.log) : r'.isProposer u = r.isProposer u := by
  rw [Runner.isProposer, hlog, Runner.isProposer]

theorem StageSound.congr (hlog : r'.log = r.log) (h : StageSound u r st) : StageSound u r' st := by
  have hprop : r'.isProposer u = r.isProposer u := Runner.isProposer_congr hlog
  cases st with
  | hosted e => simpa only [StageSound, hlog, hprop] using h
  | choosing => simpa only [StageSound, hprop] using h
  | polling => simpa only [StageSound, hprop] using h
  | fetched data => simpa only [StageSound, hprop] using h
  | silent reason => simpa only [StageSound, hprop] using h
  | _ => trivial

theorem stageSound_startStage (hlog : r'.log = r.log) : StageSound u r' (r.startStage u) := by
  have hprop : r'.isProposer u = r.isProposer u := Runner.isProposer_congr hlog
  unfold Runner.startStage
  split_ifs with h
  · simpa only [StageSound, hprop] using h
  · simpa only [StageSound, hprop, Bool.not_eq_true] using h

/- A step that goes on in the round and leaves the log alone. -/
variable (st') in
theorem Sound.restage (h : Sound u r) (hphase : r.phase = .inRound k p a st) (hlog : r'.log = r.log)
    (hrounds : r'.rounds = r.rounds) (hphase' : r'.phase = .inRound k p a' st')
    (hext : st'.extended = st.extended) (hst : StageSound u r' st') : Sound u r' := by
  obtain ⟨hk, hbound, hp, hlive, hlen, _⟩ := h.inRound hphase
  have hbase : r'.base = r.base := by rw [Runner.base, hlog, hrounds, Runner.base]
  refine ⟨hlog ▸ h.certified, ?_⟩
  rw [hphase']
  simp only [PhaseSound, hrounds, hbase, hlog, hext]
  exact ⟨hk, hbound, hp, hlive, hlen, hst⟩

/- The round is over, with or without a new entry. -/
theorem Sound.finish (hcert : Certified u r'.log) (hphase' : r'.phase = .idle ∨ r'.phase = .failed)
    (hlen : r'.log.entries.length = r'.rounds) (hbound : r'.rounds < 2 ^ 63) : Sound u r' := by
  refine ⟨hcert, ?_⟩
  rcases hphase' with hphase' | hphase' <;> rw [hphase'] <;> exact ⟨hlen, hbound⟩

theorem Sound.append (h : Sound u r) (hphase : r.phase = .inRound k p a st) (hst : st.extended = false)
    {e : Entry} (hround : e.roundID = r.log.roundID) (he : Certifies u r.log e)
    (hlog : r'.log = r.log.append e) (hrounds : r'.rounds = r.rounds)
    (hphase' : r'.phase = .inRound k p a .appended) : Sound u r' := by
  obtain ⟨hk, hbound, hp, hlive, hlen, _⟩ := h.inRound hphase
  rw [hst] at hlen
  have hlen : r.log.entries.length = r.rounds := hlen
  have hbase : r'.base = r.base := by
    rw [Runner.base, hlog, hrounds, Log.upTo_append hlen.ge, Runner.base]
  refine ⟨?_, ?_⟩
  · rw [hlog]
    exact h.certified.append (by omega) hround he
  · rw [hphase']
    simp only [PhaseSound, hrounds, hbase, hlog]
    exact ⟨hk, hbound, hp, hlive, by simp [Log.append, Stage.extended, hlen], trivial⟩

theorem Sound.fail (h : Sound u r) (hphase : r.phase = .inRound k p a st) (hst : st.extended = false)
    (hlog : r'.log = r.log) (hrounds : r'.rounds = r.rounds) (hphase' : r'.phase = .failed) :
    Sound u r' := by
  obtain ⟨_, hbound, _, _, hlen, _⟩ := h.inRound hphase
  rw [hst] at hlen
  refine Sound.finish (hlog ▸ h.certified) (Or.inr hphase') ?_ (by omega)
  rw [hlog, hrounds]
  exact hlen

theorem Sound.same (h : Sound u r) (hlog : r'.log = r.log) (hrounds : r'.rounds = r.rounds)
    (hphase' : r'.phase = r.phase) : Sound u r' := by
  cases hphase : r.phase with
  | inRound k p a st =>
    exact h.restage st hphase hlog hrounds (hphase'.trans hphase) rfl
      ((h.stage hphase).congr hlog)
  | idle =>
    have hp := h.phase
    rw [hphase] at hp
    refine Sound.finish (hlog ▸ h.certified) (Or.inl (hphase'.trans hphase)) ?_ (hrounds ▸ hp.2)
    rw [hlog, hrounds]
    exact hp.1
  | failed =>
    have hp := h.phase
    rw [hphase] at hp
    refine Sound.finish (hlog ▸ h.certified) (Or.inr (hphase'.trans hphase)) ?_ (hrounds ▸ hp.2)
    rw [hlog, hrounds]
    exact hp.1

theorem Sound.beginRound (h : Sound u r) (hphase : r.phase = .idle) (hlive : r.log.state.handOver = false)
    (hbound : r.log.entries.length + 1 < 2 ^ 63) (hlog : r'.log = r.log) (hrounds : r'.rounds = r.rounds)
    (hphase' : r'.phase = .inRound r.log.roundID r.log.expectedNextPlayer 0 (r.startStage u)) :
    Sound u r' := by
  have hp := h.phase
  rw [hphase] at hp
  have hlen : r.log.entries.length = r.rounds := hp.1
  have hbase : r'.base = r.log := by
    rw [Runner.base, hlog, hrounds, Log.upTo_eq_self hlen.le]
  refine ⟨hlog ▸ h.certified, ?_⟩
  rw [hphase']
  simp only [PhaseSound, hrounds, hbase, hlog, Runner.startStage_extended]
  refine ⟨?_, by omega, trivial, hlive, hlen, stageSound_startStage hlog⟩
  rw [roundID_toNat (by omega), hlen]

theorem Sound.move (h : Sound u r) (hm : Runner.Move u r i r') : Sound u r' := by
  cases hm with
  | submit _ => exact h.same rfl rfl rfl
  | beginRound hphase hlive hbound => exact h.beginRound hphase hlive hbound rfl rfl rfl
  | reject hphase _ => exact h.same rfl rfl rfl
  | propose hphase hok =>
    exact h.restage _ hphase rfl rfl rfl rfl ⟨h.stage hphase, rfl, hok⟩
  | proposal hphase => exact h.restage _ hphase rfl rfl rfl rfl (h.stage hphase)
  | appendOwn hphase =>
    obtain ⟨_, _, _, _, _, _, hseat, hok⟩ := h.inRound hphase
    exact h.append hphase rfl (verifyProposal_ok hok).1 (Or.inl ⟨_, Or.inl ⟨hseat, rfl⟩, hok⟩) rfl rfl rfl
  | undecoded hphase _ => exact h.restage _ hphase rfl rfl rfl rfl trivial
  | invalid hphase => exact h.restage _ hphase rfl rfl rfl rfl (h.stage hphase)
  | appendFetched hphase _ hok =>
    exact h.append hphase rfl (verifyProposal_ok hok).1 (certifies_fetched hok) rfl rfl rfl
  | hostReceipt hphase => exact h.restage _ hphase rfl rfl rfl rfl trivial
  | receipt hphase _ => exact h.restage _ hphase rfl rfl rfl rfl trivial
  | collected hphase _ => exact h.restage _ hphase rfl rfl rfl rfl trivial
  | deadline hphase hst =>
    exact h.restage _ hphase rfl rfl rfl (Stage.flags_of_waiting hst).2.symm trivial
  | @receiptFailed k p a got seat reason hphase =>
    obtain ⟨hk, hbound, hp, hlive, hlen, _⟩ := h.inRound hphase
    have hlen : r.log.entries.length = r.rounds + 1 := hlen
    have hroll : r.log.rollbackLast = r.log.upTo r.rounds := by
      rw [Log.rollbackLast, List.dropLast_eq_take, hlen]
      rfl
    refine ⟨?_, ?_⟩
    · show Certified u r.log.rollbackLast
      rw [hroll]
      exact h.certified.upTo _
    · have hbase : r.log.rollbackLast.upTo r.rounds = r.base := Log.upTo_rollbackLast (by omega)
      simp only [PhaseSound, Runner.base, hbase]
      exact ⟨hk, hbound, hp, hlive, by simp [Log.rollbackLast, Stage.extended, hlen], trivial⟩
  | @cleanup k p a timeout hphase =>
    refine h.restage _ hphase rfl rfl rfl ?_ trivial
    cases timeout <;> rfl
  | commit hphase =>
    obtain ⟨_, hbound, _, _, hlen, _⟩ := h.inRound hphase
    exact Sound.finish h.certified (Or.inl rfl) hlen hbound
  | nextAttempt hphase =>
    refine h.restage _ hphase rfl rfl rfl ?_ ?_
    · split_ifs
      · exact r.startStage_extended u
      · rfl
    · split_ifs
      · exact stageSound_startStage rfl
      · trivial
  | noAttestors hphase => exact h.fail hphase rfl rfl rfl rfl
  | attest hphase => exact h.restage _ hphase rfl rfl rfl rfl trivial
  | attestation hphase => exact h.restage _ hphase rfl rfl rfl rfl trivial
  | attestationFailed hphase => exact h.fail hphase rfl rfl rfl rfl
  | foldRefused hphase => exact h.fail hphase rfl rfl rfl rfl
  | fold hphase _ happ =>
    obtain ⟨_, hbound, _, _, hlen, _⟩ := h.inRound hphase
    have hlen : r.log.entries.length = r.rounds := hlen
    obtain ⟨hok, rfl⟩ := appendAutoFold_ok happ
    refine Sound.finish ?_ (Or.inl rfl) (by simp [Log.append, hlen]) hbound
    exact h.certified.append (by omega) (verifyAutoFoldEntry_ok_iff.mp hok).1.round (certifies_fold happ)

theorem Sound.start (n : UInt8) (stack : UInt64) : Sound u (Runner.start n stack) :=
  Sound.finish (fun i e he => by cases he) (Or.inl rfl) rfl (show 0 < 2 ^ 63 by decide)

theorem Sound.runs {P : Runner → Input → Prop} (h : Sound u r) (hr : Runner.Runs u P r r') :
    Sound u r' := by
  induction hr with
  | refl => exact h
  | tail _ hstep ih =>
    obtain ⟨i, _, hstep⟩ := hstep
    exact ih.move (Runner.step_move hstep)

end Sound

/-! ### One round -/

section Atomic
variable {c : Primitives} {u : Setup c} {r r' : Runner} {i : Input}

def Phase.inside : Phase → Bool
  | .inRound _ _ _ _ => true
  | _ => false

/-- `runRound` has been called at `r` and has got to `r'`, or returned there. -/
def Runner.RunsRound (u : Setup c) (r r' : Runner) : Prop :=
  ∃ r₁, r.beginRound u = some r₁ ∧ Runs u (fun x _ => x.phase.inside = true) r₁ r'

/-- What a step does to the entries of the rounds that are over: nothing. -/
theorem Sound.move_upTo (h : Sound u r) (hm : Runner.Move u r i r') {m : ℕ} (hm' : m ≤ r.rounds) :
    r'.log.upTo m = r.log.upTo m := by
  have hlen : r.rounds ≤ r.log.entries.length := by
    have hp := h.phase
    cases hphase : r.phase with
    | inRound k p a st =>
      have := (h.inRound hphase).2.2.2.2.1
      omega
    | _ =>
      rw [hphase] at hp
      exact hp.1.ge
  rcases hm.log_cases with hlog | ⟨e, hlog⟩ | ⟨hlog, k, p, a, got, hphase⟩
  · rw [hlog]
  · rw [hlog, Log.upTo_append (by omega)]
  · have hext : r.log.entries.length = r.rounds + 1 := (h.inRound hphase).2.2.2.2.1
    rw [hlog, Log.upTo_rollbackLast (by omega)]

theorem Runner.Move.rounds_of_inside (hm : Move u r i r') (h : r.phase.inside = true) :
    r'.phase.inside = true ∧ r'.rounds = r.rounds ∨ r'.phase = .idle ∧ r'.rounds = r.rounds + 1 ∨
      r'.phase = .failed ∧ r'.rounds = r.rounds := by
  cases hm with
  | beginRound hphase =>
    rw [hphase] at h
    cases h
  | _ => simp_all [Phase.inside, failAutoFold]

/-- How far a round that was called with `l` in the log has come. -/
structure Within (l : Log) (r' : Runner) : Prop where
  upTo : r'.log.upTo l.entries.length = l
  inside : r'.phase.inside = true → r'.rounds = l.entries.length
  idle : r'.phase = .idle → r'.rounds = l.entries.length + 1
  failed : r'.phase = .failed → r'.rounds = l.entries.length

theorem Within.step {l : Log} (h : Within l r) (hs : Sound u r) (hin : r.phase.inside = true)
    (hm : Runner.Move u r i r') : Within l r' := by
  have hrounds := h.inside hin
  have hup : r'.log.upTo l.entries.length = l := by
    rw [hs.move_upTo hm hrounds.ge]
    exact h.upTo
  rcases hm.rounds_of_inside hin with ⟨hin', hr⟩ | ⟨hph, hr⟩ | ⟨hph, hr⟩
  · refine ⟨hup, fun _ => hr.trans hrounds, ?_, ?_⟩ <;> intro hph <;> rw [hph] at hin' <;> cases hin'
  · refine ⟨hup, ?_, fun _ => by omega, ?_⟩ <;> intro h' <;> rw [hph] at h' <;> cases h'
  · refine ⟨hup, ?_, ?_, fun _ => by omega⟩ <;> intro h' <;> rw [hph] at h' <;> cases h'

/- A round that is over has added an entry. -/
theorem Within.append_of_idle {l : Log} (h : Within l r) (hs : Sound u r) (hidle : r.phase = .idle) :
    ∃ e, r.log = l.append e := by
  have hp := hs.phase
  rw [hidle] at hp
  have hlen : r.log.entries.length = l.entries.length + 1 := hp.1.trans (h.idle hidle)
  obtain ⟨e, hget⟩ : ∃ e, r.log.entries[l.entries.length]? = some e :=
    ⟨_, List.getElem?_eq_getElem (by omega)⟩
  refine ⟨e, ?_⟩
  rw [← Log.upTo_eq_self hlen.le, Log.upTo_succ hget, h.upTo]

theorem Within.begin (hs : Sound u r) (hbegin : r.beginRound u = some r') : Within r.log r' := by
  have hm : Runner.Move u r .beginRound r' := Runner.step_move hbegin
  cases hm with
  | beginRound hphase _ _ =>
    have hp := hs.phase
    rw [hphase] at hp
    exact ⟨Log.upTo_eq_self le_rfl, fun _ => hp.1.symm, nofun, nofun⟩

theorem Runner.RunsRound.within (h : RunsRound u r r') (hs : Sound u r) : Within r.log r' ∧ Sound u r' := by
  obtain ⟨r₁, hbegin, hrun⟩ := h
  have hs₁ := hs.move (step_move (i := .beginRound) hbegin)
  have hfirst := Within.begin hs hbegin
  induction hrun with
  | refl => exact ⟨hfirst, hs₁⟩
  | tail _ hstep ih =>
    obtain ⟨j, hin, hstep⟩ := hstep
    have hmove := step_move hstep
    exact ⟨ih.1.step ih.2 hin hmove, ih.2.move hmove⟩

end Atomic

/-- The log is certified, and a call of `runRound` from here adds one entry when
it returns nil and changes nothing when it fails. -/
structure SelfCertifying {c : Primitives} (u : Setup c) (r : Runner) : Prop where
  certified : Certified u r.log
  returned : ∀ r', r.RunsRound u r' → r'.phase = .idle → ∃ e, r'.log = r.log.append e
  failed : ∀ r', r.RunsRound u r' → r'.phase = .failed → r'.log = r.log

theorem log_self_certifying (c : Primitives) (u : Setup c) (n : UInt8) (stack : UInt64) (r : Runner)
    (h : Runner.Runs u (fun _ _ => True) (.start n stack) r) : SelfCertifying u r := by
  have hs := (Sound.start n stack).runs h
  refine ⟨hs.certified, ?_, ?_⟩
  · intro r' hround hidle
    obtain ⟨hw, hs'⟩ := hround.within hs
    exact hw.append_of_idle hs' hidle
  · intro r' hround hfail
    obtain ⟨hw, hs'⟩ := hround.within hs
    have hp := hs'.phase
    rw [hfail] at hp
    rw [← Log.upTo_eq_self (hp.1.trans (hw.failed hfail)).le, hw.upTo]

/- Seat 0 of two commits its check. Then it takes the check of seat 1, does not get its
receipt and rolls back. -/
def commitsAndRollsBack : List Input :=
  let u := (Table.sample 2 two_seats_lt 1 100).setup
  let first := (newLog 2 100).append ((newLog 2 100).buildProposal .transparent 0 ⟨.check, 0⟩ (u 0).sk)
  List.flatten [
    [.beginRound], submits ⟨.check, 0⟩,
    [.propose, .append, .hostReceipt, .receipt 1 [], .collected, .cleanup, .conclude],
    [.beginRound, .proposal ((u 0).entryCodec.encode (first.buildProposal .transparent 1 ⟨.check, 0⟩ (u 1).sk)),
      .append, .hostReceipt, .receiptFailed 1]]

theorem log_self_certifying_rolled_back :
    ∃ r, Runner.feed ((Table.sample 2 two_seats_lt 1 100).setup 0) (.start 2 100) commitsAndRollsBack = some r ∧
      r.committed.length = 1 ∧ r.log.entries.length = 1 ∧ r.timedOut 1 0 = true ∧
      SelfCertifying ((Table.sample 2 two_seats_lt 1 100).setup 0) r := by
  have hsome : ((Runner.feed ((Table.sample 2 two_seats_lt 1 100).setup 0) (.start 2 100) commitsAndRollsBack).map
      fun r => (r.committed.length, r.log.entries.length, r.timedOut 1 0)) = some (1, 1, true) := by
    decide +kernel
  obtain ⟨r, hr, hend⟩ := Option.map_eq_some_iff.mp hsome
  simp only [Prod.mk.injEq] at hend
  exact ⟨r, hr, hend.1, hend.2.1, hend.2.2,
    log_self_certifying .transparent _ 2 100 r (Runner.feed_runs (fun _ _ _ => trivial) hr)⟩

end P2Poker.Round
