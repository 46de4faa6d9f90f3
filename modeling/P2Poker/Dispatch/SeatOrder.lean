import P2Poker.Dispatch.Registration

/-!
# The order of players

A game start lists the members of its session, and sends the list in a section of
its own. Nodes keep the list that came last. Two of them agree if every broadcast
found the members as they were listed, and nobody came back to a session after
being sent its order.
-/

namespace P2Poker.Dispatch
open P2Poker.Lib

namespace Conn

def isStart (frame : Frame) : Bool := frame.kind = .gameStart

/- A game start has been sent to the node. -/
def wasStarted (k : Conn) : Bool := k.started || k.inbox.any isStart

def replace (order : List Bytes) (frame : Frame) : List Bytes :=
  if isStart frame then frame.peerIDs else order

/- The order the node holds once it has processed what it was sent. -/
def lastOrder (k : Conn) : List Bytes := k.inbox.foldl replace k.order

theorem foldl_answers {frames : List Frame} (hf : ∀ f ∈ frames, isStart f = false) (order : List Bytes) :
    frames.foldl replace order = order := by
  induction frames with
  | nil => rfl
  | cons f frames ih =>
    rw [List.foldl_cons, replace, hf f (List.mem_cons_self ..), if_neg Bool.false_ne_true]
    exact ih fun g hg => hf g (List.mem_cons_of_mem _ hg)

/- What the node was sent amounts to the same. -/
structure Alike (k k' : Conn) : Prop where
  started : k'.wasStarted = k.wasStarted
  order : k'.lastOrder = k.lastOrder

theorem Alike.of_eq {k k' : Conn} (hi : k'.inbox = k.inbox) (hs : k'.started = k.started)
    (ho : k'.order = k.order) : k.Alike k' :=
  ⟨by rw [wasStarted, wasStarted, hi, hs], by rw [lastOrder, lastOrder, hi, ho]⟩

theorem Alike.process (k : Conn) : k.Alike (Hub.process k) := by
  unfold Hub.process
  split
  · exact .of_eq rfl rfl rfl
  · rename_i f rest hinbox
    split_ifs with hf
    · have hstart : isStart f = true := decide_eq_true hf
      constructor
      · simp [wasStarted, hinbox, hstart]
      · simp [lastOrder, replace, hinbox, hstart]
    · have hstart : isStart f = false := decide_eq_false hf
      constructor
      · simp [wasStarted, hinbox, hstart]
      · simp [lastOrder, replace, hinbox, hstart]

theorem Alike.answered (k : Conn) {frames : List Frame} (hf : ∀ f ∈ frames, f.kind ≠ .gameStart) :
    k.Alike { k with inbox := k.inbox ++ frames } := by
  have hnot : ∀ f ∈ frames, isStart f = false := fun f hmem => decide_eq_false (hf f hmem)
  constructor
  · have hany : frames.any isStart = false := by simpa using hnot
    simp [wasStarted, List.any_append, hany]
  · rw [lastOrder, List.foldl_append, foldl_answers hnot, lastOrder]

/- The node is sent a game start. -/
def sent (k : Conn) (start : Frame) : Conn := { k with inbox := k.inbox ++ [start] }

theorem wasStarted_sent (k : Conn) {start : Frame} (h : start.kind = .gameStart) :
    (k.sent start).wasStarted = true := by
  have hstart : isStart start = true := decide_eq_true h
  simp [sent, wasStarted, hstart]

theorem lastOrder_sent (k : Conn) {start : Frame} (h : start.kind = .gameStart) :
    (k.sent start).lastOrder = start.peerIDs := by
  have hstart : isStart start = true := decide_eq_true h
  simp [sent, lastOrder, replace, hstart]

end Conn

namespace Hub
variable {S : Bytes} {h h' : Hub} {e : Event} {c : ℕ} {k : Conn} {id : Bytes}

/- The list a game start of the session would carry now. -/
def players (h : Hub) (S : Bytes) : List Bytes := (h.tables.memberSet S).sort (· ≤ ·)

theorem mem_players : id ∈ h.players S ↔ id ∈ h.tables.memberSet S := Finset.mem_sort _

/- The connection a member is reached on. -/
def Reached (h : Hub) (S id : Bytes) (k : Conn) : Prop :=
  id ∈ h.tables.memberSet S ∧ ∃ c, h.nodes.lookup id = some c ∧ h.conns[c]? = some k

/-- All members that were sent a game start go by one list, or are being sent the
present one. -/
structure Steady (S : Bytes) (h : Hub) : Prop where
  fresh : ∀ (d : ℕ) k, h.conns[d]? = some k → k.place.enrolled = false → k.wasStarted = false
  plain : ∀ (d : ℕ) k, h.conns[d]? = some k → k.place.Plain
  agree : ∃ L, ∀ id k, h.Reached S id k → k.wasStarted = true →
    k.lastOrder = L ∨ h.writable = false ∧ k.lastOrder = h.players S
  sends : ∀ (d : ℕ) k start rest, h.conns[d]? = some k → k.place = .sending start rest →
    start.peerIDs = h.players S ∧
    ∀ id k, h.Reached S id k → id ∉ rest → k.wasStarted = true ∧ k.lastOrder = h.players S

theorem writable_eq_false_iff : h.writable = false ↔
    ∃ (d : ℕ) (k : Conn), h.conns[d]? = some k ∧ k.place.isSending = true := by
  unfold writable
  rw [List.all_eq_false]
  constructor
  · rintro ⟨k, hmem, hk⟩
    obtain ⟨d, hd⟩ := List.getElem?_of_mem hmem
    exact ⟨d, k, hd, by simpa using hk⟩
  · rintro ⟨d, k, hd, hk⟩
    exact ⟨k, List.mem_of_getElem? hd, by simp [hk]⟩

theorem not_sending_of_writable (hw : h.writable = true) {d : ℕ} (hd : h.conns[d]? = some k) :
    k.place.isSending = false := by
  by_contra hne
  have := writable_eq_false_iff.mpr ⟨d, k, hd, by simpa using hne⟩
  rw [hw] at this
  cases this

/- A goroutine goes on, outside a broadcast. -/
theorem Steady.modify {f : Conn → Conn} (hs : h.Steady S)
    (hf : ∀ k, h.conns[c]? = some k → k.Alike (f k) ∧ (f k).place.Plain ∧
      ((f k).place.enrolled = false → k.place.enrolled = false) ∧
      ((f k).place = k.place ∨ (f k).place.isSending = false ∧ k.place.isSending = false)) :
    (h.modify c f).Steady S := by
  have hreached : ∀ id k', (h.modify c f).Reached S id k' → ∃ k, h.Reached S id k ∧ k.Alike k' := by
    rintro id k' ⟨hid, d, hd, hk'⟩
    rcases of_modify hk' with ⟨k, rfl, hk, rfl⟩ | ⟨_, hk⟩
    · exact ⟨k, ⟨hid, d, hd, hk⟩, (hf k hk).1⟩
    · exact ⟨k', ⟨hid, d, hd, hk⟩, rfl, rfl⟩
  have hwritable : h.writable = false → (h.modify c f).writable = false := by
    rw [writable_eq_false_iff, writable_eq_false_iff]
    rintro ⟨d, k, hk, hsend⟩
    by_cases hd : d = c
    · subst hd
      refine ⟨d, f k, modify_self f hk, ?_⟩
      rcases (hf k hk).2.2.2 with heq | ⟨_, hnot⟩
      · rwa [heq]
      · rw [hsend] at hnot
        cases hnot
    · exact ⟨d, k, by rwa [modify_ne f hd], hsend⟩
  constructor
  · intro d k' hk' henr
    rcases of_modify hk' with ⟨k, rfl, hk, rfl⟩ | ⟨_, hk⟩
    · rw [(hf k hk).1.started]
      exact hs.fresh d k hk ((hf k hk).2.2.1 henr)
    · exact hs.fresh d k' hk henr
  · intro d k' hk'
    rcases of_modify hk' with ⟨k, rfl, hk, rfl⟩ | ⟨_, hk⟩
    · exact (hf k hk).2.1
    · exact hs.plain d k' hk
  · obtain ⟨L, hL⟩ := hs.agree
    refine ⟨L, ?_⟩
    intro id k' hr hst
    obtain ⟨k, hr, halike⟩ := hreached id k' hr
    rw [halike.started] at hst
    rw [halike.order]
    rcases hL id k hr hst with heq | ⟨hw, heq⟩
    · exact .inl heq
    · exact .inr ⟨hwritable hw, heq⟩
  · intro d k' start rest hk' hp
    obtain ⟨k, hk, hpk⟩ : ∃ k, h.conns[d]? = some k ∧ k.place = .sending start rest := by
      rcases of_modify hk' with ⟨k, rfl, hk, rfl⟩ | ⟨_, hk⟩
      · refine ⟨k, hk, ?_⟩
        rcases (hf k hk).2.2.2 with heq | ⟨hnot, _⟩
        · rw [← heq, hp]
        · rw [hp] at hnot
          cases hnot
      · exact ⟨k', hk, hp⟩
    obtain ⟨hlist, hall⟩ := hs.sends d k start rest hk hpk
    refine ⟨hlist, ?_⟩
    intro id k₂ hr hid
    obtain ⟨k₁, hr, halike⟩ := hreached id k₂ hr
    rw [halike.started, halike.order]
    exact hall id k₁ hr hid

theorem Steady.setPlace {p : Place} (hs : h.Steady S) (hplain : p.Plain) (hsend : p.isSending = false)
    (hf : ∀ k, h.conns[c]? = some k →
      (p.enrolled = false → k.place.enrolled = false) ∧ k.place.isSending = false) :
    (h.setPlace c p).Steady S :=
  hs.modify fun k hk => ⟨.of_eq rfl rfl rfl, hplain, (hf k hk).1, .inr ⟨hsend, (hf k hk).2⟩⟩

theorem Steady.renewLease (hs : h.Steady S) (nodeID : Bytes) (now : ℤ) :
    (h.renewLease nodeID now).Steady S := by
  unfold Hub.renewLease
  split
  · exact hs
  · exact hs.modify fun k hk => ⟨.of_eq rfl rfl rfl, hs.plain _ k hk, fun h => h, .inl rfl⟩

theorem Steady.congr (hs : h.Steady S) (hsess : h'.tables.sessions = h.tables.sessions)
    (hnodes : h'.nodes = h.nodes) (hconns : h'.conns = h.conns) : h'.Steady S := by
  have hmembers : h'.tables.memberSet S = h.tables.memberSet S := by
    rw [Server.memberSet, Server.memberSet, hsess]
  have hplayers : h'.players S = h.players S := by rw [players, players, hmembers]
  have hreached : ∀ id k, h'.Reached S id k ↔ h.Reached S id k := by
    intro id k
    rw [Reached, Reached, hmembers, hnodes, hconns]
  have hwritable : h'.writable = h.writable := by rw [writable, writable, hconns]
  constructor
  · rw [hconns]
    exact hs.fresh
  · rw [hconns]
    exact hs.plain
  · simp only [hreached, hwritable, hplayers]
    exact hs.agree
  · simp only [hconns, hreached, hplayers]
    exact hs.sends

/- A section under the write lock: no broadcast is under way. -/
theorem Steady.written (hs : h.Steady S) (hw : h.writable = true)
    (hconns : ∀ (d : ℕ) k', h'.conns[d]? = some k' → ∃ k, h.conns[d]? = some k ∧ k.Alike k' ∧
      (k'.place = k.place ∨ k'.place.Plain ∧ k'.place.enrolled = true ∧ k'.place.isSending = false))
    (hreached : ∀ id k', h'.Reached S id k' → k'.wasStarted = true →
      ∃ k, h.Reached S id k ∧ k.Alike k') : h'.Steady S := by
  have hsending : ∀ (d : ℕ) k', h'.conns[d]? = some k' → k'.place.isSending = false := by
    intro d k' hk'
    obtain ⟨k, hk, _, heq | ⟨_, _, hnot⟩⟩ := hconns d k' hk'
    · rw [heq]
      exact not_sending_of_writable hw hk
    · exact hnot
  constructor
  · intro d k' hk' henr
    obtain ⟨k, hk, halike, hplace⟩ := hconns d k' hk'
    rw [halike.started]
    rcases hplace with heq | ⟨_, htrue, _⟩
    · exact hs.fresh d k hk (by rw [← heq, henr])
    · rw [henr] at htrue
      cases htrue
  · intro d k' hk'
    obtain ⟨k, hk, _, heq | ⟨hplain, _⟩⟩ := hconns d k' hk'
    · rw [heq]
      exact hs.plain d k hk
    · exact hplain
  · obtain ⟨L, hL⟩ := hs.agree
    refine ⟨L, ?_⟩
    intro id k' hr hst
    obtain ⟨k, hr, halike⟩ := hreached id k' hr hst
    rw [halike.started] at hst
    rcases hL id k hr hst with heq | ⟨hnot, _⟩
    · exact .inl (halike.order.trans heq)
    · rw [hw] at hnot
      cases hnot
  · intro d k' start rest hk' hp
    have := hsending d k' hk'
    rw [hp] at this
    cases this

theorem mem_disconnect {nodeID : Bytes} (hid : id ∈ (h.disconnect nodeID).tables.memberSet S) :
    id ∈ h.tables.memberSet S := by
  unfold disconnect at hid
  split at hid
  · exact hid
  · split at hid
    · exact hid
    · exact (Server.mem_of_leave hid).1

theorem Steady.disconnect (hs : h.Steady S) (hw : h.writable = true) (nodeID : Bytes) :
    (h.disconnect nodeID).Steady S := by
  refine hs.written hw ?_ ?_
  · intro d k' hk'
    rw [disconnect_conns] at hk'
    exact ⟨k', hk', ⟨rfl, rfl⟩, .inl rfl⟩
  · rintro id k' ⟨hid, d, hd, hk'⟩ _
    rw [disconnect_conns] at hk'
    exact ⟨k', ⟨mem_disconnect hid, d, lookup_of_disconnect hd, hk'⟩, rfl, rfl⟩

theorem Steady.register {frame : Frame} {nc : NodeConn} {resp : Frame} (hs : h.Steady S)
    (hw : h.writable = true) (hk : h.conns[c]? = some k)
    (hplace : k.place = .registering frame) (hkind : resp.kind ≠ .gameStart) :
    ({ h with nodes := h.nodes.insert frame.nodeID c }.modify c fun k =>
      { k with record := nc, place := .replying [resp] }).Steady S := by
  have hplain : (Place.replying [resp]).Plain := by
    intro f hf
    rwa [List.mem_singleton.mp hf]
  refine hs.written hw ?_ ?_
  · intro d k' hk'
    rcases of_modify hk' with ⟨k₀, rfl, hk₀, rfl⟩ | ⟨_, hk₀⟩
    · exact ⟨k₀, hk₀, .of_eq rfl rfl rfl, .inr ⟨hplain, rfl, rfl⟩⟩
    · exact ⟨k', hk₀, ⟨rfl, rfl⟩, .inl rfl⟩
  · rintro id k' ⟨hid, d, hd, hk'⟩ hst
    have hd' : (h.nodes.insert frame.nodeID c).lookup id = some d := hd
    rw [lookup_insert_eq] at hd'
    rcases of_modify hk' with ⟨k₀, rfl, hk₀, rfl⟩ | ⟨hne, hk₀⟩
    · -- the new record was sent nothing
      obtain rfl := Option.some.inj (hk₀.symm.trans hk)
      have hfresh := hs.fresh _ k₀ hk₀ (by rw [hplace]; rfl)
      have hsame : k₀.wasStarted = true := hst
      rw [hfresh] at hsame
      cases hsame
    · split_ifs at hd'
      · exact absurd (Option.some.inj hd').symm hne
      · exact ⟨k', ⟨hid, d, hd', hk₀⟩, rfl, rfl⟩

theorem Steady.commit {frame : Frame} {run : Server → Server × List Sent} (hs : h.Steady S)
    (hw : h.writable = true) (hk : h.conns[c]? = some k)
    (hout : ∀ s : Server, s.Outcome k.record frame.sessionID (run s).1)
    (hsent : ∀ s, ∀ f ∈ (run s).2.map Prod.snd, f.kind ≠ .gameStart)
    (hback : frame.sessionID = S → ∀ d ∈ h.nodes.lookup k.record.id, ∀ k' ∈ h.conns[d]?,
      k'.wasStarted = false) : (h.commit c run).Steady S := by
  have hconns : ∀ (d : ℕ) k', (h.commit c run).conns[d]? = some k' → ∃ k, h.conns[d]? = some k ∧
      k.Alike k' ∧ (k'.place = k.place ∨ k'.place.Plain ∧ k'.place.enrolled = true ∧
        k'.place.isSending = false) := by
    intro d k' hk'
    rcases of_modify hk' with ⟨k₀, rfl, hk₀, rfl⟩ | ⟨_, hk₀⟩
    · exact ⟨k₀, hk₀, .of_eq rfl rfl rfl, .inr ⟨hsent _, rfl, rfl⟩⟩
    · exact ⟨k', hk₀, ⟨rfl, rfl⟩, .inl rfl⟩
  refine hs.written hw hconns ?_
  rintro id k' ⟨hid, d, hd, hk'⟩ hst
  obtain ⟨k₀, hk₀, halike, _⟩ := hconns d k' hk'
  refine ⟨k₀, ⟨?_, d, hd, hk₀⟩, halike⟩
  rcases record_of_outcome (hout _) with ⟨hsess, _⟩ | ⟨_, _, hmem⟩
  · have hid' : id ∈ ((run { h.tables with nodes := ∅ }).1).memberSet S := hid
    rwa [Server.memberSet, hsess] at hid'
  · rcases hmem id S hid with ⟨hold, _⟩ | ⟨rfl, rfl⟩
    · exact hold
    · -- the one who enters was sent nothing
      have hnot := hback rfl d hd k₀ hk₀
      rw [halike.started, hnot] at hst
      cases hst

theorem Steady.broadcast {start : Frame} (hs : h.Steady S) (hk : h.conns[c]? = some k)
    (hp : k.place = .starting start) (hlist : start.peerIDs = h.players S) :
    (h.setPlace c (.sending start start.peerIDs)).Steady S := by
  have hkind : start.kind = .gameStart := by
    have := hs.plain c k hk
    rwa [hp] at this
  have hconns : ∀ (d : ℕ) k', (h.setPlace c (.sending start start.peerIDs)).conns[d]? = some k' →
      ∃ k, h.conns[d]? = some k ∧ k.Alike k' := by
    intro d k' hk'
    rcases of_modify hk' with ⟨k₀, rfl, hk₀, rfl⟩ | ⟨_, hk₀⟩
    · exact ⟨k₀, hk₀, .of_eq rfl rfl rfl⟩
    · exact ⟨k', hk₀, rfl, rfl⟩
  have hreached : ∀ id k', (h.setPlace c (.sending start start.peerIDs)).Reached S id k' →
      ∃ k, h.Reached S id k ∧ k.Alike k' := by
    rintro id k' ⟨hid, d, hd, hk'⟩
    obtain ⟨k₀, hk₀, halike⟩ := hconns d k' hk'
    exact ⟨k₀, ⟨hid, d, hd, hk₀⟩, halike⟩
  constructor
  · intro d k' hk' henr
    rcases of_modify hk' with ⟨k₀, rfl, hk₀, rfl⟩ | ⟨_, hk₀⟩
    · cases henr
    · exact hs.fresh d k' hk₀ henr
  · intro d k' hk'
    rcases of_modify hk' with ⟨k₀, rfl, hk₀, rfl⟩ | ⟨_, hk₀⟩
    · exact hkind
    · exact hs.plain d k' hk₀
  · obtain ⟨L, hL⟩ := hs.agree
    refine ⟨L, ?_⟩
    intro id k' hr hst
    obtain ⟨k₀, hr, halike⟩ := hreached id k' hr
    rw [halike.started] at hst
    rw [halike.order]
    rcases hL id k₀ hr hst with heq | ⟨_, heq⟩
    · exact .inl heq
    · exact .inr ⟨writable_eq_false_iff.mpr ⟨c, _, modify_self _ hk, rfl⟩, heq⟩
  · intro d k' start' rest hk' hp'
    rcases of_modify hk' with ⟨k₀, rfl, hk₀, rfl⟩ | ⟨_, hk₀⟩
    · cases hp'
      refine ⟨hlist, ?_⟩
      intro id k' hr hid
      rw [hlist, mem_players] at hid
      exact absurd hr.1 hid
    · obtain ⟨hlist', hall⟩ := hs.sends d k' start' rest hk₀ hp'
      refine ⟨hlist', ?_⟩
      intro id k₂ hr hid
      obtain ⟨k₁, hr, halike⟩ := hreached id k₂ hr
      rw [halike.started, halike.order]
      exact hall id k₁ hr hid

/- The last member has been sent the frame: all go by it. -/
theorem Steady.sent_all {start : Frame} (hs : h.Steady S) (hk : h.conns[c]? = some k)
    (hp : k.place = .sending start []) : (h.setPlace c .reading).Steady S := by
  obtain ⟨_, hall⟩ := hs.sends c k start [] hk hp
  have hreached : ∀ id k', (h.setPlace c .reading).Reached S id k' → ∃ k, h.Reached S id k ∧ k.Alike k' := by
    rintro id k' ⟨hid, d, hd, hk'⟩
    rcases of_modify hk' with ⟨k₀, rfl, hk₀, rfl⟩ | ⟨_, hk₀⟩
    · exact ⟨k₀, ⟨hid, d, hd, hk₀⟩, .of_eq rfl rfl rfl⟩
    · exact ⟨k', ⟨hid, d, hd, hk₀⟩, rfl, rfl⟩
  constructor
  · intro d k' hk' henr
    rcases of_modify hk' with ⟨k₀, rfl, hk₀, rfl⟩ | ⟨_, hk₀⟩
    · cases henr
    · exact hs.fresh d k' hk₀ henr
  · intro d k' hk'
    rcases of_modify hk' with ⟨k₀, rfl, hk₀, rfl⟩ | ⟨_, hk₀⟩
    · trivial
    · exact hs.plain d k' hk₀
  · refine ⟨h.players S, ?_⟩
    intro id k' hr _
    obtain ⟨k₀, hr, halike⟩ := hreached id k' hr
    rw [halike.order]
    exact .inl (hall id k₀ hr List.not_mem_nil).2
  · intro d k' start' rest hk' hp'
    rcases of_modify hk' with ⟨k₀, rfl, hk₀, rfl⟩ | ⟨_, hk₀⟩
    · cases hp'
    · refine ⟨(hs.sends d k' start' rest hk₀ hp').1, ?_⟩
      intro id k₂ hr _
      obtain ⟨k₁, hr, halike⟩ := hreached id k₂ hr
      rw [halike.started, halike.order]
      exact hall id k₁ hr List.not_mem_nil

/- One more member is sent the frame. -/
theorem Steady.sent_one {start : Frame} {rest : List Bytes} {x : Bytes} (hs : h.Steady S) (hpt : h.Pointed)
    (hk : h.conns[c]? = some k) (hp : k.place = .sending start (x :: rest))
    (hconns : ∀ (d : ℕ) k', h'.conns[d]? = some k' → ∃ k₀, h.conns[d]? = some k₀ ∧
      (h.nodes.lookup x ≠ some d ∧ k₀.Alike k' ∨
        h.nodes.lookup x = some d ∧ k'.wasStarted = true ∧ k'.lastOrder = start.peerIDs) ∧
      (d = c ∧ k'.place = .sending start rest ∨ d ≠ c ∧ k'.place = k₀.place))
    (hc : ∃ k', h'.conns[c]? = some k') (hnodes : h'.nodes = h.nodes)
    (htables : h'.tables = h.tables) : h'.Steady S := by
  obtain ⟨hlist, hall⟩ := hs.sends c k start (x :: rest) hk hp
  have hplayers : h'.players S = h.players S := by rw [players, players, htables]
  have hwritable : h'.writable = false := by
    obtain ⟨k', hk'⟩ := hc
    obtain ⟨_, _, _, ⟨_, hsend⟩ | ⟨hne, _⟩⟩ := hconns c k' hk'
    · exact writable_eq_false_iff.mpr ⟨c, k', hk', by rw [hsend]; rfl⟩
    · exact absurd rfl hne
  have hreached : ∀ id k', h'.Reached S id k' → ∃ k₀, h.Reached S id k₀ ∧
      (k₀.Alike k' ∧ id ≠ x ∨ k'.wasStarted = true ∧ k'.lastOrder = h.players S) := by
    rintro id k' ⟨hid, d, hd, hk'⟩
    rw [htables] at hid
    rw [hnodes] at hd
    obtain ⟨k₀, hk₀, hcase, _⟩ := hconns d k' hk'
    refine ⟨k₀, ⟨hid, d, hd, hk₀⟩, ?_⟩
    rcases hcase with ⟨hne, halike⟩ | ⟨_, hsent⟩
    · refine .inl ⟨halike, ?_⟩
      rintro rfl
      exact hne hd
    · exact .inr (hlist ▸ hsent)
  constructor
  · intro d k' hk' henr
    obtain ⟨k₀, hk₀, hcase, ⟨_, hsend⟩ | ⟨_, hplace⟩⟩ := hconns d k' hk'
    · rw [hsend] at henr
      cases henr
    · rw [hplace] at henr
      rcases hcase with ⟨_, halike⟩ | ⟨hd, _⟩
      · rw [halike.started]
        exact hs.fresh d k₀ hk₀ henr
      · -- a registered connection is enrolled
        obtain ⟨k₁, hk₁, _, henr₁⟩ := hpt x d hd
        rw [Option.some.inj (hk₁.symm.trans hk₀), henr] at henr₁
        cases henr₁
  · intro d k' hk'
    obtain ⟨k₀, hk₀, _, ⟨_, hsend⟩ | ⟨_, hplace⟩⟩ := hconns d k' hk'
    · have hplain := hs.plain c k hk
      rw [hp] at hplain
      rw [hsend]
      exact hplain
    · rw [hplace]
      exact hs.plain d k₀ hk₀
  · obtain ⟨L, hL⟩ := hs.agree
    refine ⟨L, ?_⟩
    intro id k' hr hst
    rw [hplayers]
    obtain ⟨k₀, hr, ⟨halike, _⟩ | ⟨_, hsent⟩⟩ := hreached id k' hr
    · rw [halike.started] at hst
      rw [halike.order]
      rcases hL id k₀ hr hst with heq | ⟨_, heq⟩
      · exact .inl heq
      · exact .inr ⟨hwritable, heq⟩
    · exact .inr ⟨hwritable, hsent⟩
  · intro d k' start' rest' hk' hp'
    rw [hplayers]
    -- whoever is not to be sent a frame any more was sent one, before or just now
    have hdone : ∀ id k₂, h'.Reached S id k₂ → (∀ k₁, h.Reached S id k₁ → id ≠ x →
        k₁.wasStarted = true ∧ k₁.lastOrder = h.players S) →
        k₂.wasStarted = true ∧ k₂.lastOrder = h.players S := by
      intro id k₂ hr hold
      obtain ⟨k₁, hr, ⟨halike, hne⟩ | hsent⟩ := hreached id k₂ hr
      · rw [halike.started, halike.order]
        exact hold k₁ hr hne
      · exact hsent
    obtain ⟨k₀, hk₀, _, ⟨_, hsend⟩ | ⟨_, hplace⟩⟩ := hconns d k' hk'
    · rw [hp'] at hsend
      cases hsend
      refine ⟨hlist, ?_⟩
      intro id k₂ hr hid
      refine hdone id k₂ hr fun k₁ hr₁ hne => hall id k₁ hr₁ ?_
      rw [List.mem_cons]
      exact fun hmem => hmem.elim hne hid
    · rw [hplace] at hp'
      obtain ⟨hlist', hall'⟩ := hs.sends d k₀ start' rest' hk₀ hp'
      refine ⟨hlist', ?_⟩
      intro id k₂ hr hid
      exact hdone id k₂ hr fun k₁ hr₁ _ => hall' id k₁ hr₁ hid

theorem Steady.send {start : Frame} {rest : List Bytes} (hs : h.Steady S) (hpt : h.Pointed)
    (hk : h.conns[c]? = some k) (hp : k.place = .sending start rest) : (h.send c start rest).Steady S := by
  have hkind : start.kind = .gameStart := by
    have := hs.plain c k hk
    rwa [hp] at this
  cases rest with
  | nil => exact hs.sent_all hk hp
  | cons x rest =>
    rw [Hub.send]
    split
    · rename_i hnone
      refine hs.sent_one hpt hk hp ?_ ⟨_, modify_self _ hk⟩ rfl rfl
      intro d k' hk'
      have hx : h.nodes.lookup x ≠ some d := by simp [hnone]
      rcases of_modify hk' with ⟨k₀, rfl, hk₀, rfl⟩ | ⟨hne, hk₀⟩
      · exact ⟨k₀, hk₀, .inl ⟨hx, .of_eq rfl rfl rfl⟩, .inl ⟨rfl, rfl⟩⟩
      · exact ⟨k', hk₀, .inl ⟨hx, rfl, rfl⟩, .inr ⟨hne, rfl⟩⟩
    · rename_i b hb
      -- what the frame does to any one connection
      have hpost : ∀ (d : ℕ) k', (h.post b [start]).conns[d]? = some k' → ∃ k₀, h.conns[d]? = some k₀ ∧
          k'.place = k₀.place ∧ (h.nodes.lookup x ≠ some d ∧ k₀.Alike k' ∨
            h.nodes.lookup x = some d ∧ k'.wasStarted = true ∧ k'.lastOrder = start.peerIDs) := by
        intro d k' hk'
        rcases of_modify hk' with ⟨k₀, rfl, hk₀, rfl⟩ | ⟨hne, hk₀⟩
        · exact ⟨k₀, hk₀, rfl, .inr ⟨hb, k₀.wasStarted_sent hkind, k₀.lastOrder_sent hkind⟩⟩
        · refine ⟨k', hk₀, rfl, .inl ⟨?_, rfl, rfl⟩⟩
          rw [hb]
          exact fun h => hne (Option.some.inj h).symm
      have hc : ∃ k', ((h.post b [start]).setPlace c (.sending start rest)).conns[c]? = some k' := by
        by_cases hcb : c = b
        · subst hcb
          exact ⟨_, modify_self _ (modify_self _ hk)⟩
        · exact ⟨_, modify_self _ ((modify_ne _ hcb).trans hk)⟩
      refine hs.sent_one hpt hk hp ?_ hc rfl rfl
      intro d k' hk'
      rcases of_modify hk' with ⟨k₁, rfl, hk₁, rfl⟩ | ⟨hne, hk₁⟩
      · obtain ⟨k₀, hk₀, _, ⟨hx, halike⟩ | hsent⟩ := hpost d k₁ hk₁
        · exact ⟨k₀, hk₀, .inl ⟨hx, halike.started, halike.order⟩, .inl ⟨rfl, rfl⟩⟩
        · exact ⟨k₀, hk₀, .inr hsent, .inl ⟨rfl, rfl⟩⟩
      · obtain ⟨k₀, hk₀, hplace, hcase⟩ := hpost d k' hk₁
        exact ⟨k₀, hk₀, hcase, .inr ⟨hne, hplace⟩⟩

/- A start is asked for only from within the session, and finds it. -/
def StartsOnly (S : Bytes) (h : Hub) : Event → Prop
  | .handle c _ =>
    match h.conns[c]? with
    | none => True
    | some k =>
      match k.place with
      | .handling frame => frame.kind = .gameStart → k.record.sessionID = S ∧ (h.tables.sessions.lookup S).isSome
      | _ => True
  | _ => True

/- The session is entered only by nodes that were sent no game start on their
connection, and a broadcast finds the members that were listed for it. -/
def Unmoved (S : Bytes) (h : Hub) : Event → Prop
  | .handle c _ =>
    match h.conns[c]? with
    | none => True
    | some k =>
      match k.place with
      | .handling frame =>
        (frame.kind = .createSessionReq ∨ frame.kind = .joinSessionReq) → frame.sessionID = S →
          ∀ d ∈ h.nodes.lookup k.record.id, ∀ k' ∈ h.conns[d]?, k'.wasStarted = false
      | _ => True
  | .broadcast c =>
    match h.conns[c]? with
    | none => True
    | some k =>
      match k.place with
      | .starting start => start.peerIDs = h.players S
      | _ => True
  | _ => True

/- A new connection was sent nothing, and nothing points at it. -/
theorem Steady.accept {nc : NodeConn} (hs : h.Steady S) (hpt : h.Pointed) :
    Steady S { h with conns := h.conns ++ [{ record := nc }] } := by
  have hconns : ∀ (d : ℕ) k', (h.conns ++ [{ record := nc }])[d]? = some k' →
      h.conns[d]? = some k' ∨ k' = { record := nc } := by
    intro d k' hk'
    rcases lt_or_ge d h.conns.length with hd | hd
    · rw [List.getElem?_append_left hd] at hk'
      exact .inl hk'
    · rw [List.getElem?_append_right hd] at hk'
      exact .inr (List.mem_singleton.mp (List.mem_of_getElem? hk'))
  have hreached : ∀ id k', Reached { h with conns := h.conns ++ [{ record := nc }] } S id k' →
      h.Reached S id k' := by
    rintro id k' ⟨hid, d, hd, hk'⟩
    obtain ⟨k, hk, _⟩ := hpt id d hd
    have hold : (h.conns ++ [{ record := nc }])[d]? = some k := by
      rw [List.getElem?_append_left (List.getElem?_eq_some_iff.mp hk).1, hk]
    obtain rfl := Option.some.inj (hk'.symm.trans hold)
    exact ⟨hid, d, hd, hk⟩
  have hwritable : h.writable = false →
      Hub.writable { h with conns := h.conns ++ [{ record := nc }] } = false := by
    intro hw
    unfold Hub.writable at hw ⊢
    rw [List.all_append, hw, Bool.false_and]
  constructor
  · intro d k' hk' henr
    rcases hconns d k' hk' with hold | rfl
    · exact hs.fresh d k' hold henr
    · rfl
  · intro d k' hk'
    rcases hconns d k' hk' with hold | rfl
    · exact hs.plain d k' hold
    · trivial
  · obtain ⟨L, hL⟩ := hs.agree
    refine ⟨L, fun id k' hr hst => ?_⟩
    rcases hL id k' (hreached id k' hr) hst with heq | ⟨hw, heq⟩
    · exact .inl heq
    · exact .inr ⟨hwritable hw, heq⟩
  · intro d k' start rest hk' hp
    rcases hconns d k' hk' with hold | rfl
    · obtain ⟨hlist, hall⟩ := hs.sends d k' start rest hold hp
      exact ⟨hlist, fun id k₂ hr hid => hall id k₂ (hreached id k₂ hr) hid⟩
    · cases hp

theorem Steady.reply {frames : List Frame} {p : Place} (hs : h.Steady S) (hk : h.conns[c]? = some k)
    (hp : k.place = .replying frames ∧ p = .reading ∨ k.place = .refusing frames ∧ p = .ended) :
    ((h.post c frames).setPlace c p).Steady S := by
  have hanswers : ∀ f ∈ frames, f.kind ≠ .gameStart := by
    have := hs.plain c k hk
    rcases hp with ⟨hp, _⟩ | ⟨hp, _⟩
    · rwa [hp] at this
    · rwa [hp] at this
  have hposted : (h.post c frames).Steady S :=
    hs.modify fun k hk => ⟨.answered k hanswers, hs.plain c k hk, fun h => h, .inl rfl⟩
  have hplace : ∀ k', (h.post c frames).conns[c]? = some k' → k'.place = k.place := by
    intro k' hk'
    rcases of_modify hk' with ⟨k₀, _, hk₀, rfl⟩ | ⟨hne, _⟩
    · rw [Option.some.inj (hk₀.symm.trans hk)]
    · exact absurd rfl hne
  rcases hp with ⟨hp, rfl⟩ | ⟨hp, rfl⟩
  · refine hposted.setPlace trivial rfl fun k' hk' => ⟨fun h => (by cases h), ?_⟩
    rw [hplace k' hk', hp]
    rfl
  · refine hposted.setPlace trivial rfl fun k' hk' => ⟨fun h => (by cases h), ?_⟩
    rw [hplace k' hk', hp]
    rfl

instance : Decidable (h.StartsOnly S e) := by
  delta StartsOnly
  induction e using Event.casesOn with
  | handle c =>
    dsimp only
    induction h.conns[c]? using Option.casesOn with
    | none => infer_instance
    | some k =>
      dsimp only
      induction k.place using Place.casesOn <;> infer_instance
  | _ => infer_instance

instance : Decidable (h.Unmoved S e) := by
  delta Unmoved
  induction e using Event.casesOn with
  | handle c | broadcast c =>
    dsimp only
    induction h.conns[c]? using Option.casesOn with
    | none => infer_instance
    | some k =>
      dsimp only
      induction k.place using Place.casesOn <;> infer_instance
  | _ => infer_instance

theorem Steady.move (hs : h.Steady S) (hpt : h.Pointed) (hin : h.StartsOnly S e) (hok : h.Unmoved S e)
    (hm : Move h e h') : h'.Steady S := by
  cases hm with
  | accept => exact hs.accept hpt
  | @place _ s c k p hk hsess _ henr hfrom hsend hplain =>
    have hplain' : p.Plain := by
      rcases hplain with hplain | ⟨now, frame, rfl, hp, hkind, hnone⟩
      · exact hplain
      · -- a start that finds no session is not from within one
        simp only [StartsOnly, hk, hp] at hin
        obtain ⟨rfl, hsome⟩ := hin hkind
        rw [hnone] at hsome
        cases hsome
    have hsame : Steady S { h with tables := s } := hs.congr hsess rfl rfl
    refine hsame.setPlace hplain' hsend fun k' hk' => ?_
    obtain rfl := Option.some.inj (hk'.symm.trans hk)
    refine ⟨fun hnot => ?_, hfrom⟩
    rcases henr with heq | rfl
    · rw [← heq, hnot]
    · cases hnot
  | lease hk _ henr hfrom hsend hplain =>
    refine (hs.renewLease _ _).setPlace hplain hsend fun k' hk' => ?_
    obtain ⟨k₀, _, hk₀, rfl⟩ := of_renewLease hk'
    obtain rfl := Option.some.inj (hk₀.symm.trans hk)
    exact ⟨fun hnot => henr ▸ hnot, hfrom⟩
  | register hk hp _ _ _ hkind hw => exact hs.register hw hk hp hkind
  | commit hk hp hkind hout hsent hw =>
    refine hs.commit hw hk hout hsent ?_
    simp only [Unmoved, hk, hp] at hok
    exact hok hkind
  | broadcast hk hp =>
    simp only [Unmoved, hk, hp] at hok
    exact hs.broadcast hk hp hok
  | send hk hp => exact hs.send hpt hk hp
  | reply hk hp => exact hs.reply hk hp
  | disconnect hk hp hw =>
    refine (hs.disconnect hw _).setPlace trivial rfl fun k' hk' => ⟨fun h => (by cases h), ?_⟩
    rw [disconnect_conns] at hk'
    rw [Option.some.inj (hk'.symm.trans hk), hp]
    rfl
  | scan => exact hs.congr rfl rfl rfl
  | @reap id c _ hw =>
    have hless : Steady S { h with expired := h.expired.erase (id, c) } := hs.congr rfl rfl rfl
    exact hless.disconnect hw id
  | process =>
    refine hs.modify fun k hk => ⟨.process k, ?_⟩
    rw [(process_record k).2]
    exact ⟨hs.plain _ k hk, fun h => h, .inl rfl⟩

theorem Steady.start (cfg : Config) : (Hub.start cfg).Steady S := by
  constructor
  · exact fun _ _ h => nomatch h
  · exact fun _ _ h => nomatch h
  · exact ⟨[], fun _ _ hr => nomatch hr.1⟩
  · exact fun _ _ _ _ h => nomatch h

theorem Steady.of_trace {cfg : Config} {es : List Event}
    (ht : Trace step (fun h e => h.StartsOnly S e ∧ h.Unmoved S e) (Hub.start cfg) es h) : h.Steady S := by
  have hstart : (Hub.start cfg).Pointed ∧ (Hub.start cfg).Steady S := ⟨fun _ _ hd => (nomatch hd), .start cfg⟩
  refine (ht.keeps (P := fun h => h.Pointed ∧ h.Steady S) hstart ?_).2
  rintro h e h' ⟨hin, hok⟩ hstep ⟨hpt, hs⟩
  exact ⟨hpt.move (step_move hstep), hs.move hpt hin hok (step_move hstep)⟩

/- Nothing of a broadcast is left to be sent or processed. -/
def Quiet (h : Hub) : Bool := h.writable && h.conns.all fun k => !k.inbox.any Conn.isStart

theorem Quiet.lastOrder (hq : h.Quiet = true) (hk : h.conns[c]? = some k) : k.lastOrder = k.order := by
  obtain ⟨_, hall⟩ := Bool.and_eq_true_iff.mp hq
  have hnone : ∀ f ∈ k.inbox, Conn.isStart f = false := by
    simpa using List.all_eq_true.mp hall k (List.mem_of_getElem? hk)
  exact Conn.foldl_answers hnone _

def asksStart (k : Conn) : Bool :=
  match k.place with
  | .handling frame => frame.kind = .gameStart
  | _ => false

/- Sorting does not evaluate: the list is given. -/
theorem step_snapshot {sid : Bytes} {sess : Session} {l : List Bytes} {now : ℤ}
    (hasks : (h.conns[c]?.map fun k => (asksStart k, k.record.sessionID)) = some (true, sid))
    (hfields : ((h.tables.sessions.lookup sid).map fun s => (s.members, s.timeoutInterval, s.maxAttempts)) =
      some (sess.members, sess.timeoutInterval, sess.maxAttempts))
    (hl : sess.members.sort (· ≤ ·) = l) :
    h.step (.handle c now) = some (h.setPlace c (.starting { startFrame sid sess with peerIDs := l })) := by
  obtain ⟨k, hk, hpair⟩ := Option.map_eq_some_iff.mp hasks
  obtain ⟨hask, rfl⟩ := Prod.mk.inj hpair
  obtain ⟨sess', hsess, heq⟩ := Option.map_eq_some_iff.mp hfields
  obtain rfl : sess = sess' := by cases sess'; cases sess; simpa using heq.symm
  unfold asksStart at hask
  split at hask
  · rename_i frame hp
    have hstart : { startFrame k.record.sessionID sess with peerIDs := l } = startFrame k.record.sessionID sess := by
      rw [startFrame, hl]
    rw [hstart]
    simp only [step, hk, hp, Option.bind_some, handle, of_decide_eq_true hask, handleGameStart, hsess]
  · cases hask

theorem sort_members {members : Finset Bytes} {l : List Bytes} (hm : members = l.toFinset) (hnodup : l.Nodup)
    (hsorted : l.Pairwise (· ≤ ·)) : members.sort (· ≤ ·) = l := by
  rw [hm, List.toFinset_sort _ hnodup]
  exact hsorted

theorem step_broadcast {start : Frame} (hk : h.conns[c]? = some k) (hp : k.place = .starting start) :
    h.step (.broadcast c) = some (h.setPlace c (.sending start start.peerIDs)) := by
  simp only [step, hk, hp, Option.bind_some]

/- Alice has a session, and Bob joins it. -/
def hosted : List Event := asked ++ [.handle 0 0, .reply 0]
def pair : Session := ⟨{aliceID, bobID}, sampleConfig.timeoutInterval, sampleConfig.maxAttempts⟩
def pairFrame : Frame := { startFrame tableID pair with peerIDs := [aliceID, bobID] }
def processed (n : ℕ) : List Event := List.replicate n (.process 0) ++ List.replicate n (.process 1)

theorem sort_pair : pair.members.sort (· ≤ ·) = [aliceID, bobID] :=
  sort_members (by decide +kernel) (by decide +kernel) (by decide +kernel)

abbrev Calm (h : Hub) (e : Event) : Prop := h.StartsOnly tableID e ∧ h.Unmoved tableID e

def gathered : Hub := run step Calm (Hub.start sampleConfig) (hosted ++ bobJoins 0)
def listed : Hub := gathered.setPlace 1 (.starting pairFrame)
def announced : Hub := listed.setPlace 1 (.sending pairFrame [aliceID, bobID])
def seated : Hub := run step Calm announced (List.replicate 3 (.send 1) ++ processed 3)

theorem seated_trace : ∃ es, Trace step Calm (Hub.start sampleConfig) es seated := by
  have hgather : Trace step Calm (Hub.start sampleConfig) (hosted ++ bobJoins 0) gathered :=
    run_trace (by decide +kernel)
  have hlist : gathered.step (.handle 1 0) = some listed :=
    step_snapshot (by decide +kernel) (by decide +kernel) sort_pair
  have hmembers : listed.tables.memberSet tableID = pair.members := by decide +kernel
  have hplayers : pairFrame.peerIDs = listed.players tableID := by
    rw [players, hmembers, sort_pair]
    rfl
  obtain ⟨k, hk⟩ : ∃ k, gathered.conns[1]? = some k := Option.isSome_iff_exists.mp (by decide +kernel)
  have hk' : listed.conns[1]? = some { k with place := .starting pairFrame } := modify_self _ hk
  have hannounce : listed.step (.broadcast 1) = some announced := step_broadcast hk' rfl
  have hrest : Trace step Calm announced (List.replicate 3 (.send 1) ++ processed 3) seated :=
    run_trace (by decide +kernel)
  have hcalm : Calm listed (.broadcast 1) := by
    refine ⟨trivial, ?_⟩
    simp only [Unmoved, hk']
    exact hplayers
  exact ⟨_, ((hgather.snoc _ (by decide +kernel) hlist).snoc _ hcalm hannounce).append hrest⟩

/- A member who holds an order. -/
theorem reached_of {id : Bytes} {l : List Bytes} (c : ℕ) (hid : id ∈ h.tables.memberSet S)
    (hc : h.nodes.lookup id = some c)
    (hk : (h.conns[c]?.map fun k => (k.started, k.order)) = some (true, l)) :
    ∃ k, h.Reached S id k ∧ k.started = true ∧ k.order = l := by
  obtain ⟨k, hk, hpair⟩ := Option.map_eq_some_iff.mp hk
  obtain ⟨hst, ho⟩ := Prod.mk.inj hpair
  exact ⟨k, ⟨hid, c, hc, hk⟩, hst, ho⟩

/- Alice lists herself, and Bob's start overtakes hers. -/
def hurried : Hub :=
  run step (StartsOnly tableID) (Hub.start sampleConfig)
    (hosted ++ [.receive 0 { kind := .gameStart } 0, .handle 0 0] ++ bobJoins 0)
def overtaken : Hub := hurried.setPlace 1 (.starting pairFrame)
def divided : Hub :=
  run step (StartsOnly tableID) overtaken
    ([.broadcast 1, .send 1, .send 1, .send 1, .broadcast 0, .send 0, .send 0] ++ processed 4)

end Hub

end P2Poker.Dispatch
