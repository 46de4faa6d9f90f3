import P2Poker.Dispatch.Server

/-!
# Who is in which session

The two records of membership agree: the members of a session are the nodes that
say they are in it, and no session is empty. A node that joins the session it is
alone in breaks this, since leaving deletes the session it is about to enter.
-/

namespace P2Poker.Dispatch
open P2Poker.Lib

theorem lookup_insert_eq {V : Type} (m : Finmap fun _ : Bytes => V) (k k' : Bytes) (v : V) :
    (m.insert k v).lookup k' = if k' = k then some v else m.lookup k' := by
  by_cases h : k' = k
  · rw [if_pos h, h, Finmap.lookup_insert]
  · rw [if_neg h, Finmap.lookup_insert_of_ne _ h]

theorem lookup_erase_eq {V : Type} (m : Finmap fun _ : Bytes => V) (k k' : Bytes) :
    (m.erase k).lookup k' = if k' = k then none else m.lookup k' := by
  by_cases h : k' = k
  · rw [if_pos h, h, Finmap.lookup_erase]
  · rw [if_neg h, Finmap.lookup_erase_ne h]

namespace Server

/-! ### The two records -/

/- The session table's record. -/
def memberSet (s : Server) (sessionID : Bytes) : Finset Bytes :=
  match s.sessions.lookup sessionID with
  | none => ∅
  | some sess => sess.members

/- The nodes' own record. -/
def IsIn (s : Server) (id sessionID : Bytes) : Prop :=
  ∃ nc, s.nodes.lookup id = some nc ∧ nc.sessionID = sessionID

/- No session in the table is empty. -/
def Populated (s : Server) : Prop :=
  ∀ sessionID sess, s.sessions.lookup sessionID = some sess → sess.members ≠ ∅

variable {s : Server} {nc : NodeConn} {id nodeID sid sid' : Bytes}

theorem memberSet_setSession (sess : Session) :
    (s.setSession sid sess).memberSet sid' = if sid' = sid then sess.members else s.memberSet sid' := by
  unfold memberSet setSession
  dsimp only
  rw [lookup_insert_eq]
  split_ifs
  · rfl
  · rfl

theorem Populated.setSession (h : s.Populated) {sess : Session} (hne : sess.members ≠ ∅) :
    (s.setSession sid sess).Populated := by
  intro k x hx
  unfold Server.setSession at hx
  dsimp only at hx
  rw [lookup_insert_eq] at hx
  split_ifs at hx
  · obtain rfl := Option.some.inj hx
    exact hne
  · exact h k x hx

theorem mem_removeNode : id ∈ (s.removeNodeFromSessionLocked nodeID sid).memberSet sid' ↔
    id ∈ s.memberSet sid' ∧ ¬ (sid' = sid ∧ id = nodeID) := by
  unfold removeNodeFromSessionLocked
  split
  · rename_i hnone
    have hempty : s.memberSet sid = ∅ := by rw [memberSet, hnone]
    constructor
    · intro hid
      refine ⟨hid, ?_⟩
      rintro ⟨rfl, _⟩
      rw [hempty] at hid
      exact Finset.notMem_empty _ hid
    · exact fun hid => hid.1
  · rename_i sess hsess
    have hmembers : s.memberSet sid = sess.members := by rw [memberSet, hsess]
    have herase : id ∈ sess.members.erase nodeID ↔ id ∈ s.memberSet sid ∧ id ≠ nodeID := by
      rw [hmembers, Finset.mem_erase, and_comm]
    dsimp only
    split_ifs with hlast
    · rw [hlast] at herase
      unfold memberSet at herase ⊢
      dsimp only
      rw [lookup_erase_eq]
      by_cases hk : sid' = sid
      · subst hk
        simpa using herase
      · simp [hk]
    · rw [memberSet_setSession]
      by_cases hk : sid' = sid
      · subst hk
        simpa using herase
      · simp [hk]

theorem Populated.removeNode (h : s.Populated) :
    (s.removeNodeFromSessionLocked nodeID sid).Populated := by
  unfold removeNodeFromSessionLocked
  split
  · exact h
  · dsimp only
    split_ifs with hlast
    · intro k x hx
      dsimp only at hx
      rw [lookup_erase_eq] at hx
      split_ifs at hx
      exact h k x hx
    · exact h.setSession hlast

@[simp] theorem removeNode_nodes : (s.removeNodeFromSessionLocked nodeID sid).nodes = s.nodes := by
  unfold removeNodeFromSessionLocked
  split
  · rfl
  · dsimp only
    split_ifs <;> rfl

@[simp] theorem leave_nodes : (s.leave nc).nodes = s.nodes := by
  unfold leave
  split_ifs
  · exact removeNode_nodes
  · rfl

theorem Populated.leave (h : s.Populated) : (s.leave nc).Populated := by
  unfold Server.leave
  split_ifs
  · exact h.removeNode
  · exact h

/-- A node that leaves is no longer a member of the session it was in. -/
theorem mem_leave (hempty : s.memberSet [] = ∅) :
    id ∈ (s.leave nc).memberSet sid ↔ id ∈ s.memberSet sid ∧ ¬ (sid = nc.sessionID ∧ id = nc.id) := by
  unfold leave
  split_ifs with hin
  · exact mem_removeNode
  · constructor
    · intro hid
      refine ⟨hid, ?_⟩
      rintro ⟨rfl, _⟩
      rw [not_not.mp hin, hempty] at hid
      exact Finset.notMem_empty _ hid
    · exact fun hid => hid.1

theorem lookup_isSome_iff (h : s.Populated) :
    (s.sessions.lookup sid).isSome = true ↔ (s.memberSet sid).Nonempty := by
  unfold memberSet
  cases hs : s.sessions.lookup sid with
  | none => simp
  | some sess => simpa using Finset.nonempty_iff_ne_empty.mpr (h sid sess hs)

theorem mem_enter (hsome : (s.sessions.lookup sid).isSome = true) :
    id ∈ (s.enter sid nodeID).memberSet sid' ↔ id ∈ s.memberSet sid' ∨ (sid' = sid ∧ id = nodeID) := by
  obtain ⟨sess, hs⟩ := Option.isSome_iff_exists.mp hsome
  have hmembers : s.memberSet sid = sess.members := by rw [memberSet, hs]
  have henter : s.enter sid nodeID =
      s.setSession sid { sess with members := insert nodeID sess.members } := by
    rw [enter, hs]
  rw [henter, memberSet_setSession]
  by_cases hk : sid' = sid
  · subst hk
    simp [hmembers, or_comm]
  · simp [hk]

theorem Populated.enter (h : s.Populated) : (s.enter sid nodeID).Populated := by
  unfold Server.enter
  split
  · exact h
  · exact h.setSession (Finset.insert_ne_empty _ _)

@[simp] theorem enter_nodes : (s.enter sid nodeID).nodes = s.nodes := by
  unfold enter
  split <;> rfl

/-! ### The records agree -/

structure Sound (s : Server) : Prop where
  agree : ∀ id sessionID, sessionID ≠ [] → (id ∈ s.memberSet sessionID ↔ s.IsIn id sessionID)
  unnamed : s.memberSet [] = ∅
  populated : s.Populated
  ids : ∀ id nc, s.nodes.lookup id = some nc → nc.id = id

theorem Sound.new (cfg : Config) : Sound { cfg := cfg } where
  agree id sessionID _ := by simp [memberSet, IsIn]
  unnamed := by simp [memberSet]
  populated := by
    intro sessionID sess h
    simp at h
  ids := by
    intro id nc h
    simp at h

/- A node that is in the table and in session `from` moves to session `to`. -/
theorem Sound.moved {s' : Server} (h : s.Sound) (hnc : s.nodes.lookup nc.id = some nc) (hsid : sid ≠ [])
    (hnodes : s'.nodes = s.nodes.insert nc.id { nc with sessionID := sid }) (hpop : s'.Populated)
    (hmem : ∀ id k, id ∈ s'.memberSet k ↔
      (id ∈ s.memberSet k ∧ ¬ (k = nc.sessionID ∧ id = nc.id)) ∨ (k = sid ∧ id = nc.id)) :
    s'.Sound := by
  have hown : ∀ k, s.IsIn nc.id k ↔ nc.sessionID = k := by
    intro k
    constructor
    · rintro ⟨nc', hnc', hk⟩
      obtain rfl := Option.some.inj (hnc.symm.trans hnc')
      exact hk
    · exact fun hk => ⟨nc, hnc, hk⟩
  have hisIn : ∀ id k, s'.IsIn id k ↔ if id = nc.id then sid = k else s.IsIn id k := by
    intro id k
    unfold IsIn
    rw [hnodes, lookup_insert_eq]
    split_ifs with hid
    · simp
    · rfl
  refine ⟨?_, ?_, hpop, ?_⟩
  · intro id k hk
    rw [hmem, hisIn]
    split_ifs with hid
    · subst hid
      rw [h.agree _ _ hk, hown]
      constructor
      · rintro (⟨hin, hnot⟩ | ⟨rfl, _⟩)
        · exact absurd ⟨hin.symm, rfl⟩ hnot
        · rfl
      · exact fun heq => .inr ⟨heq.symm, rfl⟩
    · rw [← h.agree _ _ hk]
      simp [hid]
  · refine Finset.eq_empty_of_forall_notMem fun id hid => ?_
    rcases (hmem id []).mp hid with ⟨hold, _⟩ | ⟨heq, _⟩
    · rw [h.unnamed] at hold
      exact Finset.notMem_empty _ hold
    · exact hsid heq.symm
  · intro id x hx
    rw [hnodes, lookup_insert_eq] at hx
    split_ifs at hx with hid
    · obtain rfl := Option.some.inj hx
      exact hid.symm
    · exact h.ids id x hx

/- The counters and the leases are not part of the records. -/
theorem Sound.congr {s' : Server} (h : s.Sound) (hsess : s'.sessions = s.sessions)
    (hids : ∀ id nc, s'.nodes.lookup id = some nc → nc.id = id)
    (hin : ∀ id k, k ≠ [] → (s'.IsIn id k ↔ s.IsIn id k)) : s'.Sound := by
  have hmem : s'.memberSet = s.memberSet := by
    funext k
    rw [memberSet, memberSet, hsess]
  refine ⟨?_, hmem ▸ h.unnamed, ?_, hids⟩
  · intro id k hk
    rw [hmem, hin id k hk]
    exact h.agree id k hk
  · intro k sess hk
    exact h.populated k sess (hsess ▸ hk)

theorem Sound.tick (h : s.Sound) (v w : UInt64) :
    Sound { s with nodeCounter := v, sessionCounter := w } :=
  h.congr rfl h.ids fun _ _ _ => Iff.rfl

theorem Sound.added (h : s.Sound) (hout : nc.sessionID = []) (hnew : s.nodes.lookup nc.id = none) :
    (s.setNode nc).Sound := by
  refine h.congr rfl ?_ ?_
  · intro id x hx
    unfold setNode at hx
    dsimp only at hx
    rw [lookup_insert_eq] at hx
    split_ifs at hx with hid
    · obtain rfl := Option.some.inj hx
      exact hid.symm
    · exact h.ids id x hx
  · intro id k hk
    unfold IsIn setNode
    dsimp only
    rw [lookup_insert_eq]
    split_ifs with hid
    · rw [hid, hnew]
      simpa [hout] using Ne.symm hk
    · rfl

theorem Sound.register (h : s.Sound) (conn : ℕ) (frame : Frame) (now : ℤ) :
    (s.register conn frame now).1.Sound := by
  unfold Server.register
  split_ifs with hkind hname
  · exact h
  · dsimp only [nextNodeID]
    split_ifs with hdup
    · exact h.tick _ _
    · refine (h.tick _ _).added rfl ?_
      simpa using hdup
  · dsimp only
    split_ifs with hdup
    · exact h
    · refine h.added rfl ?_
      simpa using hdup

/-! ### Sessions -/

theorem Sound.created (h : s.Sound) (hnc : s.nodes.lookup nc.id = some nc) (hsid : sid ≠ [])
    (hnew : s.sessions.lookup sid = none) {sess : Session} (hsess : sess.members = {nc.id}) :
    (((s.leave nc).setSession sid sess).setNode { nc with sessionID := sid }).Sound := by
  refine h.moved hnc hsid ?_ ?_ ?_
  · show (s.leave nc).nodes.insert _ _ = _
    rw [leave_nodes]
  · refine h.populated.leave.setSession ?_
    rw [hsess]
    exact Finset.singleton_ne_empty _
  · intro id k
    show id ∈ ((s.leave nc).setSession sid sess).memberSet k ↔ _
    rw [memberSet_setSession, hsess]
    split_ifs with hk
    · have hempty : s.memberSet sid = ∅ := by rw [memberSet, hnew]
      simp [hk, hempty]
    · rw [mem_leave h.unnamed]
      simp [hk]

theorem Sound.handleCreateSession (h : s.Sound) (hnc : s.nodes.lookup nc.id = some nc) (frame : Frame) :
    (s.handleCreateSession nc frame).1.Sound := by
  unfold Server.handleCreateSession
  split_ifs with hname
  · dsimp only [nextSessionID]
    split_ifs with hdup
    · exact h.tick _ _
    · refine (h.tick s.nodeCounter (s.sessionCounter + 1)).created hnc ?_ ?_ rfl
      · exact List.append_ne_nil_of_left_ne_nil (by decide) _
      · simpa using hdup
  · dsimp only
    split_ifs with hdup
    · exact h
    · refine h.created hnc hname ?_ rfl
      simpa using hdup

/-- Unless the node is alone in the session it joins, the session is still there
after it left its own. -/
theorem lookup_leave (h : s.Sound) (hsome : (s.sessions.lookup sid).isSome = true)
    (hstay : nc.sessionID = sid → s.memberSet sid ≠ {nc.id}) :
    ((s.leave nc).sessions.lookup sid).isSome = true := by
  rw [lookup_isSome_iff h.populated] at hsome
  rw [lookup_isSome_iff h.populated.leave]
  by_cases hsame : nc.sessionID = sid
  · obtain ⟨id, hid, hne⟩ : ∃ id ∈ s.memberSet sid, id ≠ nc.id := by
      by_contra hall
      push Not at hall
      exact hstay hsame (Finset.eq_singleton_iff_nonempty_unique_mem.mpr ⟨hsome, hall⟩)
    exact ⟨id, (mem_leave h.unnamed).mpr ⟨hid, fun hc => hne hc.2⟩⟩
  · obtain ⟨id, hid⟩ := hsome
    exact ⟨id, (mem_leave h.unnamed).mpr ⟨hid, fun hc => hsame hc.1.symm⟩⟩

theorem Sound.handleJoinSession (h : s.Sound) (hnc : s.nodes.lookup nc.id = some nc) (frame : Frame)
    (hstay : nc.sessionID = frame.sessionID → s.memberSet frame.sessionID ≠ {nc.id}) :
    (s.handleJoinSession nc frame).1.Sound := by
  unfold Server.handleJoinSession
  split_ifs with hname hnone
  · exact h
  · exact h
  · have hsome := lookup_leave h (by simpa [Option.isSome_iff_ne_none] using hnone) hstay
    refine h.moved hnc hname ?_ h.populated.leave.enter ?_
    · show ((s.leave nc).enter frame.sessionID nc.id).nodes.insert _ _ = _
      rw [enter_nodes, leave_nodes]
    · intro id k
      show id ∈ ((s.leave nc).enter frame.sessionID nc.id).memberSet k ↔ _
      rw [mem_enter hsome, mem_leave h.unnamed]

theorem Sound.disconnect (h : s.Sound) (nodeID : Bytes) : (s.disconnect nodeID).Sound := by
  unfold Server.disconnect
  split
  · exact h
  · rename_i nc hnc
    obtain rfl := h.ids _ _ hnc
    have hmem : ∀ id k, id ∈ ({ s with nodes := s.nodes.erase nc.id }.leave nc).memberSet k ↔
        id ∈ s.memberSet k ∧ ¬ (k = nc.sessionID ∧ id = nc.id) := by
      intro id k
      exact mem_leave (s := { s with nodes := s.nodes.erase nc.id }) h.unnamed
    refine ⟨?_, ?_, ?_, ?_⟩
    · intro id k hk
      rw [hmem, h.agree id k hk]
      unfold IsIn
      rw [leave_nodes]
      dsimp only
      rw [lookup_erase_eq]
      split_ifs with hid
      · rw [hid, hnc]
        simpa [hid] using fun heq => Eq.symm heq
      · simp [hid]
    · refine Finset.eq_empty_of_forall_notMem fun id hid => ?_
      have hold := ((hmem id []).mp hid).1
      rw [h.unnamed] at hold
      exact Finset.notMem_empty _ hold
    · exact Populated.leave h.populated
    · intro id x hx
      rw [leave_nodes] at hx
      dsimp only at hx
      rw [lookup_erase_eq] at hx
      split_ifs at hx
      exact h.ids id x hx

theorem renewLease_sessions (nodeID : Bytes) (now : ℤ) :
    (s.renewLease nodeID now).sessions = s.sessions := by
  unfold renewLease
  split <;> rfl

theorem renewLease_cfg (nodeID : Bytes) (now : ℤ) : (s.renewLease nodeID now).cfg = s.cfg := by
  unfold renewLease
  split <;> rfl

theorem renewLease_lookup (hnc : s.nodes.lookup nc.id = some nc) (now : ℤ) (id : Bytes) :
    (s.renewLease nc.id now).nodes.lookup id =
      if id = nc.id then some { nc with leaseUntil := now + s.cfg.leaseTTL } else s.nodes.lookup id := by
  unfold renewLease
  rw [hnc]
  exact lookup_insert_eq ..

theorem Sound.renewLease (h : s.Sound) (hnc : s.nodes.lookup nc.id = some nc) (now : ℤ) :
    (s.renewLease nc.id now).Sound := by
  refine h.congr (renewLease_sessions _ _) ?_ ?_
  · intro id x hx
    rw [renewLease_lookup hnc] at hx
    split_ifs at hx with hid
    · obtain rfl := Option.some.inj hx
      exact hid.symm
    · exact h.ids id x hx
  · intro id k _
    unfold IsIn
    rw [renewLease_lookup hnc]
    split_ifs with hid
    · rw [hid, hnc]
      simp
    · rfl

end Server

/-! ### Runs -/

/-- A join by the only member of the session it names. -/
def JoinsAlone (s : Server) (nc : NodeConn) (frame : Frame) : Prop :=
  frame.kind = .joinSessionReq ∧ nc.sessionID = frame.sessionID ∧ s.memberSet frame.sessionID = {nc.id}

instance (s : Server) (nc : NodeConn) (frame : Frame) : Decidable (JoinsAlone s nc frame) :=
  inferInstanceAs (Decidable (_ ∧ _))

/-- Frames come from registered nodes, and only when `P` holds before them. A
node is disconnected when its connection ends or its lease runs out. -/
inductive Step (P : Server → NodeConn → Frame → Prop) : Server → Server → Prop
  | register (s : Server) (conn : ℕ) (frame : Frame) (now : ℤ) :
      Step P s (s.register conn frame now).1
  | frame {s s' : Server} {nc : NodeConn} {frame : Frame} {now : ℤ} {sent : List Sent} :
      s.nodes.lookup nc.id = some nc → P s nc frame → s.handleFrame nc frame now = some (s', sent) →
      Step P s s'
  | disconnect (s : Server) (nodeID : Bytes) : Step P s (s.disconnect nodeID)

def Reaches (P : Server → NodeConn → Frame → Prop) : Server → Server → Prop :=
  Relation.ReflTransGen (Step P)

/-- The table of nodes and the table of sessions say the same about who is where. -/
structure Consistent (s : Server) : Prop where
  joined : ∀ id nc, s.nodes.lookup id = some nc → nc.sessionID ≠ [] →
    ∃ sess, s.sessions.lookup nc.sessionID = some sess ∧ id ∈ sess.members
  nonempty : ∀ sessionID sess, s.sessions.lookup sessionID = some sess → sess.members ≠ ∅
  member : ∀ sessionID sess, s.sessions.lookup sessionID = some sess → ∀ id ∈ sess.members,
    ∃ nc, s.nodes.lookup id = some nc ∧ nc.sessionID = sessionID

theorem Server.Sound.consistent {s : Server} (h : s.Sound) : Consistent s where
  joined id nc hnc hin := by
    have hmem := (h.agree id nc.sessionID hin).mpr ⟨nc, hnc, rfl⟩
    unfold memberSet at hmem
    cases hs : s.sessions.lookup nc.sessionID with
    | none =>
      rw [hs] at hmem
      exact absurd hmem (Finset.notMem_empty _)
    | some sess =>
      rw [hs] at hmem
      exact ⟨sess, rfl, hmem⟩
  nonempty := h.populated
  member sessionID sess hs id hid := by
    have hmem : id ∈ s.memberSet sessionID := by
      rw [memberSet, hs]
      exact hid
    refine (h.agree id sessionID ?_).mp hmem
    rintro rfl
    rw [h.unnamed] at hmem
    exact Finset.notMem_empty _ hmem

/-- A registered node's session is in the table. -/
theorem Consistent.listPeers {s : Server} (h : Consistent s) {id : Bytes} {nc : NodeConn}
    (hnc : s.nodes.lookup id = some nc) (frame : Frame) : (s.handleListPeers nc frame).isSome = true := by
  unfold Server.handleListPeers
  split_ifs with hout
  · rfl
  · obtain ⟨sess, hsess, _⟩ := h.joined id nc hnc hout
    rw [hsess]
    rfl

theorem Step.sound {s s' : Server} (hstep : Step (fun s nc frame => ¬ JoinsAlone s nc frame) s s')
    (h : s.Sound) : s'.Sound := by
  cases hstep with
  | register conn frame now => exact h.register conn frame now
  | disconnect nodeID => exact h.disconnect nodeID
  | frame hnc hstay hrun =>
    rename_i nc frame now sent
    have hlease := h.renewLease hnc now
    have hlookup : (s.renewLease nc.id now).nodes.lookup nc.id =
        some { nc with leaseUntil := now + (s.renewLease nc.id now).cfg.leaseTTL } := by
      rw [Server.renewLease_lookup hnc, if_pos rfl, Server.renewLease_cfg]
    have hsess := Server.renewLease_sessions (s := s) nc.id now
    unfold Server.handleFrame at hrun
    dsimp only at hrun
    generalize s.renewLease nc.id now = s₁ at hlease hlookup hsess hrun
    generalize hnc₁ : { nc with leaseUntil := now + s₁.cfg.leaseTTL } = nc₁ at hlookup hrun
    have hid : nc₁.id = nc.id := by rw [← hnc₁]
    have hin : nc₁.sessionID = nc.sessionID := by rw [← hnc₁]
    rw [← hid] at hlookup
    cases hkind : frame.kind <;> simp only [hkind, Option.some.injEq, Option.map_eq_some_iff] at hrun
    case createSessionReq =>
      have hcreated := hlease.handleCreateSession hlookup frame
      rwa [hrun] at hcreated
    case joinSessionReq =>
      have hjoined := hlease.handleJoinSession hlookup frame ?_
      · rwa [hrun] at hjoined
      · intro hsame halone
        refine hstay ⟨hkind, hin ▸ hsame, ?_⟩
        unfold Server.memberSet at halone ⊢
        rwa [hsess, hid] at halone
    case listPeersReq =>
      obtain ⟨_, _, heq⟩ := hrun
      exact (Prod.mk.inj heq).1 ▸ hlease
    all_goals exact (Prod.mk.inj hrun).1 ▸ hlease

theorem Reaches.sound {s s' : Server}
    (hrun : Reaches (fun s nc frame => ¬ JoinsAlone s nc frame) s s') (h : s.Sound) : s'.Sound := by
  induction hrun with
  | refl => exact h
  | tail _ hstep ih => exact hstep.sound ih

/-- In every run in which no node joins a session that it is the only member of,
the two tables agree and no listing of peers meets a missing session. -/
theorem membership_consistent {cfg : Config} {s₀ s : Server} (hnew : newServer cfg = .ok s₀)
    (hrun : Reaches (fun s nc frame => ¬ JoinsAlone s nc frame) s₀ s) :
    Consistent s ∧ ∀ id nc frame, s.nodes.lookup id = some nc → (s.handleListPeers nc frame).isSome = true := by
  have hstart : s₀.Sound := by
    unfold newServer at hnew
    split_ifs at hnew
    obtain rfl := Except.ok.inj hnew
    exact Server.Sound.new cfg
  have hcons := (hrun.sound hstart).consistent
  exact ⟨hcons, fun id nc frame hnc => hcons.listPeers hnc frame⟩

/-! ### Running a schedule -/

section Exec
variable (P : Server → NodeConn → Frame → Prop) [∀ s nc frame, Decidable (P s nc frame)]

inductive Op where
  | register (frame : Frame)
  | frame (nodeID : Bytes) (frame : Frame)
  | disconnect (nodeID : Bytes)

def apply (s : Server) : Op → Option Server
  | .register frame => some (s.register 0 frame 0).1
  | .frame nodeID frame =>
    match s.nodes.lookup nodeID with
    | none => none
    | some nc =>
      if nc.id = nodeID ∧ P s nc frame then (s.handleFrame nc frame 0).map Prod.fst else none
  | .disconnect nodeID => some (s.disconnect nodeID)

def exec (s : Server) (ops : List Op) : Option Server := ops.foldlM (apply P) s

variable {P}

theorem apply_step {s s' : Server} {op : Op} (h : apply P s op = some s') : Step P s s' := by
  cases op with
  | register frame =>
    obtain rfl := Option.some.inj h
    exact .register s 0 frame 0
  | disconnect nodeID =>
    obtain rfl := Option.some.inj h
    exact .disconnect s nodeID
  | frame nodeID frame =>
    simp only [apply] at h
    split at h
    · cases h
    · rename_i nc hnc
      split_ifs at h with hc
      obtain ⟨⟨s₁, sent⟩, hrun, rfl⟩ := Option.map_eq_some_iff.mp h
      exact .frame (hc.1 ▸ hnc) hc.2 hrun

theorem exec_reaches {s s' : Server} {ops : List Op} (h : exec P s ops = some s') : Reaches P s s' := by
  induction ops generalizing s with
  | nil =>
    obtain rfl := Option.some.inj h
    exact .refl
  | cons op ops ih =>
    rw [exec, List.foldlM_cons, Option.bind_eq_bind, Option.bind_eq_some_iff] at h
    obtain ⟨s₁, hop, hrest⟩ := h
    exact .head (apply_step hop) (ih hrest)

end Exec

def sampleConfig : Config where
  address := ascii "127.0.0.1:7000"
  leaseTTL := 15000000000
  timeoutInterval := 30000000000
  maxAttempts := 3

/- Node "a" opens session "t". -/
def opened : List Op :=
  [.register { kind := .registerReq, nodeID := ascii "a" },
    .frame (ascii "a") { kind := .createSessionReq, sessionID := ascii "t" }]

def joinedBy (nodeID : Bytes) : Op := .frame nodeID { kind := .joinSessionReq, sessionID := ascii "t" }

theorem membership_consistent_two_nodes :
    ∃ s₀ s, newServer sampleConfig = .ok s₀ ∧
      Reaches (fun s nc frame => ¬ JoinsAlone s nc frame) s₀ s ∧ s.memberSet (ascii "t") = {ascii "a", ascii "b"} ∧
      Consistent s := by
  have hnew : newServer sampleConfig = .ok { cfg := sampleConfig } := rfl
  have hexec : (exec (fun s nc frame => ¬ JoinsAlone s nc frame) { cfg := sampleConfig }
      (opened ++ [.register { kind := .registerReq, nodeID := ascii "b" },
        joinedBy (ascii "b"), joinedBy (ascii "a")])).map (fun s => s.memberSet (ascii "t")) =
        some {ascii "a", ascii "b"} := by decide +kernel
  obtain ⟨s, hs, hmembers⟩ := Option.map_eq_some_iff.mp hexec
  have hrun := exec_reaches hs
  exact ⟨_, s, hnew, hrun, hmembers, (membership_consistent hnew hrun).1⟩

/- The session is deleted from the table while its only member enters it again. -/
theorem session_lost_by_rejoin :
    ∃ s₀ s nc, newServer sampleConfig = .ok s₀ ∧ Reaches (fun _ _ _ => True) s₀ s ∧
      s.nodes.lookup (ascii "a") = some nc ∧ ¬ Consistent s ∧
      s.handleListPeers nc { kind := .listPeersReq } = none := by
  have hnew : newServer sampleConfig = .ok { cfg := sampleConfig } := rfl
  have hexec : (exec (fun _ _ _ => True) { cfg := sampleConfig }
      (opened ++ [joinedBy (ascii "a")])).bind (fun s =>
        (s.nodes.lookup (ascii "a")).map fun nc =>
          (s.handleListPeers nc { kind := .listPeersReq }).isSome) = some false := by decide +kernel
  obtain ⟨s, hs, hlist⟩ := Option.bind_eq_some_iff.mp hexec
  obtain ⟨nc, hnc, hnone⟩ := Option.map_eq_some_iff.mp hlist
  refine ⟨_, s, nc, hnew, exec_reaches hs, hnc, ?_, ?_⟩
  · intro hcons
    rw [hcons.listPeers hnc] at hnone
    cases hnone
  · rwa [Option.isSome_eq_false_iff, Option.isNone_iff_eq_none] at hnone

end P2Poker.Dispatch
