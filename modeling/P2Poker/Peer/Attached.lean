import P2Poker.Peer.Matching

/-!
# A node that stays attached (internal/peer/dispatch.go)

`closeAllPending` closes channels that a read loop may be about to send to. A node
that does not detach has one read loop, which closes the channels when it ends, and
nothing is sent on them afterwards. It also stays attached to the connection that its
loop has given up.
-/

namespace P2Poker.Requests
open P2Poker.Lib P2Poker.Dispatch

/- Where every read loop belongs to the connection that the node is attached by. -/
structure Lone (n : Seating.Node) : Prop where
  closing : n.closing = []
  loops : ∀ c, n.loop c ≠ .ended → n.dispatchConn = some c

/-- What an event other than a detach does to the loops. -/
structure Lone.Goes (n n' : Seating.Node) (e : Seating.Event) : Prop where
  lone : Lone n'
  attached : ∀ c, n.dispatchConn = some c → n'.dispatchConn = some c
  reading : ∀ c, n.loop c = .reading → (∀ b, e ≠ .read c b) → e ≠ .stop c → n'.loop c = .reading
  ended : n.dispatchConn ≠ none → ∀ c, n.loop c = .ended → n'.loop c = .ended

namespace Lone
variable {n n' : Seating.Node} {e : Seating.Event} {c : ℕ}

/- The loops and the connection are not touched. -/
theorem same (hl : Lone n) (hclosing : n'.closing = n.closing) (hloop : n'.loop = n.loop)
    (hconn : n'.dispatchConn = n.dispatchConn) : Goes n n' e :=
  ⟨⟨hclosing.trans hl.closing, fun c hc => hconn.trans (hl.loops c (by rwa [hloop] at hc))⟩,
    fun _ hc => hconn.trans hc, fun c hc _ _ => (congrFun hloop c).trans hc, fun _ c hc => (congrFun hloop c).trans hc⟩

/- The loop of one connection goes on or ends. -/
theorem setLoop {l : Seating.Loop} (hl : Lone n) (hclosing : n'.closing = n.closing)
    (hloop : n'.loop = Function.update n.loop c l) (hconn : n'.dispatchConn = n.dispatchConn)
    (hwas : n.loop c ≠ .ended) (hl' : l = .reading ∨ n.loop c ≠ .reading ∨ (∃ b, e = .read c b) ∨ e = .stop c) :
    Goes n n' e := by
  refine ⟨⟨hclosing.trans hl.closing, ?_⟩, fun _ hc => hconn.trans hc, ?_, ?_⟩
  · intro d hd
    refine hconn.trans (hl.loops d ?_)
    by_cases hdc : d = c
    · exact hdc ▸ hwas
    · rwa [hloop, Function.update_of_ne hdc] at hd
  · intro d hd hread hstop
    rw [hloop]
    by_cases hdc : d = c
    · subst hdc
      rw [Function.update_self]
      rcases hl' with hl' | hnot | ⟨b, he⟩ | he
      · exact hl'
      · exact absurd hd hnot
      · exact absurd he (hread b)
      · exact absurd he hstop
    · rw [Function.update_of_ne hdc]
      exact hd
  · intro _ d hd
    have hdc : d ≠ c := by
      rintro rfl
      exact hwas hd
    rw [hloop, Function.update_of_ne hdc]
    exact hd

theorem attach {resp : Frame} (hl : Lone n) : Goes n (n.attach c resp) e := by
  unfold Seating.Node.attach
  split_ifs with hok
  · obtain ⟨_, _, hfree⟩ := hok
    -- no loop is left of an earlier connection
    have hnone : ∀ d, n.loop d = .ended := by
      intro d
      by_contra hne
      have hconn := hl.loops d hne
      rw [hfree] at hconn
      cases hconn
    refine ⟨⟨hl.closing, ?_⟩, ?_, ?_, fun hconn => absurd hfree hconn⟩
    · intro d hd
      by_cases hdc : d = c
      · rw [hdc]
      · have hd' : n.loop d ≠ .ended := by simpa [Function.update_of_ne hdc] using hd
        exact absurd (hnone d) hd'
    · intro d hd
      rw [hfree] at hd
      cases hd
    · intro d hd
      rw [hnone d] at hd
      cases hd
  · exact hl.same rfl rfl rfl

theorem step (hl : Lone n) (hs : n.step e = some n') (hstay : e ≠ .detach) : Goes n n' e := by
  cases e with
  | act e =>
    rw [Seating.Node.step] at hs
    split_ifs at hs
    obtain ⟨h, _, rfl⟩ := Option.map_eq_some_iff.mp hs
    exact hl.same rfl rfl rfl
  | dial =>
    rw [Seating.Node.step] at hs
    split_ifs at hs
    obtain ⟨h, _, rfl⟩ := Option.map_eq_some_iff.mp hs
    exact hl.same rfl rfl rfl
  | register c =>
    rw [Seating.Node.step] at hs
    split_ifs at hs
    obtain ⟨h, _, rfl⟩ := Option.map_eq_some_iff.mp hs
    exact hl.same rfl rfl rfl
  | attach c =>
    rw [Seating.Node.step] at hs
    split_ifs at hs
    obtain ⟨resp, _, hs⟩ := Option.bind_eq_some_iff.mp hs
    obtain ⟨h, _, rfl⟩ := Option.map_eq_some_iff.mp hs
    have hless : Lone { n with hub := h, attaching := n.attaching.erase c } := ⟨hl.closing, hl.loops⟩
    exact { hless.attach with }
  | detach => exact absurd rfl hstay
  | close c k =>
    rw [Seating.Node.step, hl.closing] at hs
    simp at hs
  | reset =>
    rw [Seating.Node.step] at hs
    split_ifs at hs
    obtain rfl := Option.some.inj hs
    exact hl.same rfl rfl rfl
  | read c awaited =>
    rw [Seating.Node.step] at hs
    split_ifs at hs with hloop
    obtain ⟨frame, _, hs⟩ := Option.bind_eq_some_iff.mp hs
    split_ifs at hs
    obtain ⟨n₁, hrecv, rfl⟩ := Option.map_eq_some_iff.mp hs
    have hsame : n₁.closing = n.closing ∧ n₁.loop = n.loop ∧ n₁.dispatchConn = n.dispatchConn := by
      unfold Seating.Node.receive at hrecv
      split at hrecv
      · obtain rfl := Option.some.inj hrecv
        exact ⟨rfl, rfl, rfl⟩
      · obtain ⟨h, _, rfl⟩ := Option.map_eq_some_iff.mp hrecv
        exact ⟨rfl, rfl, rfl⟩
    obtain ⟨hclosing, hloops, hconn⟩ := hsame
    unfold Seating.Node.read
    split_ifs
    · have hupdate := congrArg
        (Function.update · c (.starting frame.peerIDs (Seating.seatOf frame.peerIDs n₁.id))) hloops
      exact hl.setLoop hclosing hupdate hconn (by rw [hloop]; simp) (.inr (.inr (.inl ⟨awaited, rfl⟩)))
    · exact hl.same hclosing hloops hconn
  | gameStart c =>
    rw [Seating.Node.step] at hs
    split at hs
    · rename_i order seatIdx hloop
      obtain rfl := Option.some.inj hs
      exact hl.setLoop rfl rfl rfl (by rw [hloop]; simp) (.inl rfl)
    · cases hs
  | stop c =>
    rw [Seating.Node.step] at hs
    split_ifs at hs with hloop
    obtain rfl := Option.some.inj hs
    exact hl.setLoop rfl rfl rfl (by rw [hloop]; simp) (.inr (.inr (.inr rfl)))

end Lone

namespace Client
variable {n n' : Client} {k : ℕ} {call : Call} {c : ℕ}

/-- What a section of a call leaves alone. -/
structure Beside (n n' : Client) (k : ℕ) (call call' : Call) : Prop where
  node : n'.node = n.node
  delivering : n'.delivering = n.delivering
  failing : n'.failing = n.failing
  panicked : n'.panicked = n.panicked
  calls : n'.calls = n.calls.set k call'
  closed : call'.respCh.closed = call.respCh.closed
  -- a call that has got nothing returns nothing
  silent : call.respCh.buf = none → call.stage.resp = none → call'.respCh.buf = none ∧ call'.stage.resp = none

theorem act_beside {e : Event} (hs : n.act k call e = some n') : ∃ call', Beside n n' k call call' := by
  unfold Client.act at hs
  split at hs
  · split at hs
    · obtain rfl := Option.some.inj hs
      exact ⟨_, rfl, rfl, rfl, rfl, rfl, rfl, fun hbuf _ => ⟨hbuf, rfl⟩⟩
    · cases hs
  · split at hs
    · obtain rfl := Option.some.inj hs
      exact ⟨_, rfl, rfl, rfl, rfl, rfl, rfl, fun hbuf _ => ⟨hbuf, rfl⟩⟩
    · cases hs
  · split at hs
    · obtain rfl := Option.some.inj hs
      exact ⟨_, rfl, rfl, rfl, rfl, rfl, rfl, fun hbuf _ => ⟨hbuf, rfl⟩⟩
    · cases hs
  · split at hs
    · split at hs
      · obtain rfl := Option.some.inj hs
        exact ⟨_, rfl, rfl, rfl, rfl, rfl, rfl, fun hbuf _ => ⟨hbuf, rfl⟩⟩
      · obtain rfl := Option.some.inj hs
        exact ⟨_, rfl, rfl, rfl, rfl, rfl, rfl, fun hbuf _ => ⟨hbuf, rfl⟩⟩
    · cases hs
  · split at hs
    · obtain rfl := Option.some.inj hs
      exact ⟨_, rfl, rfl, rfl, rfl, rfl, rfl, fun hbuf _ => ⟨hbuf, rfl⟩⟩
    · split at hs
      · obtain rfl := Option.some.inj hs
        exact ⟨_, rfl, rfl, rfl, rfl, rfl, rfl, fun hbuf _ => ⟨hbuf, rfl⟩⟩
      · cases hs
    · cases hs
  · split at hs
    · split at hs
      · rename_i resp hfull
        obtain rfl := Option.some.inj hs
        refine ⟨_, rfl, rfl, rfl, rfl, rfl, rfl, fun hbuf => ?_⟩
        rw [hfull] at hbuf
        cases hbuf
      · split_ifs at hs
        obtain rfl := Option.some.inj hs
        exact ⟨_, rfl, rfl, rfl, rfl, rfl, rfl, fun hbuf _ => ⟨hbuf, rfl⟩⟩
    · cases hs
  · split at hs
    · obtain rfl := Option.some.inj hs
      exact ⟨_, rfl, rfl, rfl, rfl, rfl, rfl, fun hbuf _ => ⟨hbuf, rfl⟩⟩
    · cases hs
  · split at hs
    · rename_i result hst
      obtain rfl := Option.some.inj hs
      refine ⟨_, rfl, rfl, rfl, rfl, rfl, rfl, fun hbuf hresp => ⟨hbuf, ?_⟩⟩
      rw [hst] at hresp
      cases result with
      | ok resp => cases hresp
      | error err => rfl
    · cases hs
  · split at hs
    · rename_i resp _ hst _
      split_ifs at hs
      obtain rfl := Option.some.inj hs
      refine ⟨_, rfl, rfl, rfl, rfl, rfl, rfl, fun _ hresp => ?_⟩
      rw [hst] at hresp
      cases hresp
    · rename_i resp _ hst _
      split_ifs at hs
      obtain rfl := Option.some.inj hs
      refine ⟨_, rfl, rfl, rfl, rfl, rfl, rfl, fun _ hresp => ?_⟩
      rw [hst] at hresp
      cases hresp
    · cases hs
  · cases hs

end Client

def Event.isDetach : Event → Bool
  | .seat .detach => true
  | _ => false

namespace Client

/- The node does not detach, and its counter does not wrap. -/
def Stays (n : Client) (e : Event) : Prop := n.NoWrap e ∧ e.isDetach = false

instance instDecidableStays (n : Client) (e : Event) : Decidable (n.Stays e) := by
  delta Stays
  infer_instance

/-- A channel that a loop sends to is open. -/
structure Safe (n : Client) : Prop where
  lone : Lone n.node
  failing : n.failing = 0
  reading : ∀ c, n.delivering c ≠ none → n.node.loop c = .reading
  opened : ∀ c k f, n.delivering c = some (k, f) → ∀ call, n.calls[k]? = some call → call.respCh.closed = false
  running : n.panicked = false

namespace Safe
variable {n n' : Client} {e : Event} {c k : ℕ} {call : Call}

theorem new (prefNodeID : Bytes) (cfg : Config) : (Client.new prefNodeID cfg).Safe where
  lone := ⟨rfl, fun _ hc => absurd rfl hc⟩
  failing := rfl
  reading c hc := absurd rfl hc
  opened c k f hf := (by cases hf)
  running := rfl

/- The node moves, and no loop of it reads or ends. -/
theorem seat {e : Seating.Event} {node : Seating.Node} (wire : ℕ → List Frame) (hsafe : n.Safe)
    (hs : n.node.step e = some node) (hstay : e ≠ .detach) (hread : ∀ c b, e ≠ .read c b) (hstop : ∀ c, e ≠ .stop c) :
    { n with node := node, wire := wire }.Safe := by
  have hgoes := hsafe.lone.step hs hstay
  refine ⟨hgoes.lone, hsafe.failing, ?_, hsafe.opened, hsafe.running⟩
  exact fun c hc => hgoes.reading c (hsafe.reading c hc) (hread c) (hstop c)

theorem stepSeat {e : Seating.Event} (hsafe : n.Safe) (hstay : e ≠ .detach) (hs : n.stepSeat e = some n') :
    n'.Safe := by
  unfold Client.stepSeat at hs
  split_ifs at hs with hseats
  obtain ⟨node, hstep, rfl⟩ := Option.map_eq_some_iff.mp hs
  have hread : ∀ c b, e ≠ .read c b := by
    rintro c b rfl
    simp [seats] at hseats
  have hstop : ∀ c, e ≠ .stop c := by
    rintro c rfl
    simp [seats] at hseats
  have hsafe' := hsafe.seat n.wire hstep hstay hread hstop
  cases e with
  | close c m =>
    rw [Seating.Node.step, hsafe.lone.closing] at hstep
    simp at hstep
  | _ => exact hsafe'

theorem append (hsafe : n.Safe) (hi : n.Inv) (call : Call) : { n with calls := n.calls ++ [call] }.Safe := by
  refine ⟨hsafe.lone, hsafe.failing, hsafe.reading, ?_, hsafe.running⟩
  intro c k f hf call' hk'
  obtain ⟨call₀, hk, _⟩ := hi.delivering c k f hf
  have hk₀ : (n.calls ++ [call])[k]? = some call₀ :=
    (List.getElem?_append_left (List.getElem?_eq_some_iff.mp hk).1).trans hk
  obtain rfl := Option.some.inj (hk₀.symm.trans hk')
  exact hsafe.opened c k f hf call₀ hk

theorem act (hsafe : n.Safe) (hk : n.calls[k]? = some call) (hs : n.act k call e = some n') : n'.Safe := by
  obtain ⟨call', hb⟩ := act_beside hs
  refine ⟨by rw [hb.node]; exact hsafe.lone, hb.failing.trans hsafe.failing, ?_, ?_, hb.panicked.trans hsafe.running⟩
  · intro c hc
    rw [hb.node]
    exact hsafe.reading c (by rwa [hb.delivering] at hc)
  · intro c j f hf call₀ hj
    rw [hb.delivering] at hf
    rw [hb.calls] at hj
    rcases of_set hj with ⟨rfl, rfl⟩ | ⟨_, hj⟩
    · exact hb.closed.trans (hsafe.opened c j f hf call hk)
    · exact hsafe.opened c j f hf call₀ hj

theorem read (hsafe : n.Safe) (hi : n.Inv) (hs : n.readLoop c (.read c) = some n') : n'.Safe := by
  rw [Client.readLoop] at hs
  split_ifs at hs with hfree
  obtain ⟨f, hnext, hs⟩ := Option.bind_eq_some_iff.mp hs
  have hmark : ∀ d j g, n.delivering d = some (j, g) → ∀ call, (n.mark c f)[j]? = some call →
      call.respCh.closed = false := by
    intro d j g hg call hj
    obtain ⟨call₀, _, hj₀, rfl, _⟩ := mark_call hj
    exact hsafe.opened d j g hg call₀ hj₀
  have hother : ∀ {d : ℕ}, n.delivering d ≠ none → d ≠ c := by
    rintro d hd rfl
    exact hd hfree
  split at hs
  · rename_i k hfound
    split_ifs at hfound with hid
    obtain ⟨node, hstep, rfl⟩ := Option.map_eq_some_iff.mp hs
    have hgoes := hsafe.lone.step hstep (by simp)
    obtain ⟨_, _, hloop, _, hsame⟩ := hi.phases.read hstep
    have hmine : c ∈ n.node.own := (hi.phases.loops c (by rw [hloop]; simp)).1
    refine ⟨hgoes.lone, hsafe.failing, ?_, ?_, hsafe.running⟩
    · intro d hd
      by_cases hdc : d = c
      · subst hdc
        rcases hsame with heq | ⟨hfalse, _⟩
        · exact (congrFun heq d).trans hloop
        · cases hfalse
      · have hd' : n.delivering d ≠ none := by simpa [Function.update_of_ne hdc] using hd
        refine hgoes.reading d (hsafe.reading d hd') (fun b heq => ?_) (by simp)
        cases heq
        exact hdc rfl
    · intro d j g hg call hj
      by_cases hdc : d = c
      · subst hdc
        obtain ⟨rfl, rfl⟩ : k = j ∧ f = g := by simpa using hg
        obtain ⟨call₀, hk₀, _, _, _, hclosed, _⟩ := hi.find hmine hnext hid hfound
        obtain ⟨call₁, _, hk₁, rfl, _⟩ := mark_call hj
        rw [Option.some.inj (hk₁.symm.trans hk₀)]
        exact hclosed
      · exact hmark d j g (by simpa [Function.update_of_ne hdc] using hg) call hj
  · obtain ⟨node, hstep, rfl⟩ := Option.map_eq_some_iff.mp hs
    have hgoes := hsafe.lone.step hstep (by simp)
    refine ⟨hgoes.lone, hsafe.failing, ?_, hmark, hsafe.running⟩
    intro d hd
    refine hgoes.reading d (hsafe.reading d hd) (fun b heq => ?_) (by simp)
    cases heq
    exact hother hd rfl

theorem deliver (hsafe : n.Safe) (hs : n.readLoop c (.deliver c) = some n') : n'.Safe := by
  rw [Client.readLoop] at hs
  obtain ⟨⟨k, f⟩, hf, hs⟩ := Option.bind_eq_some_iff.mp hs
  obtain ⟨call, hk, hs⟩ := Option.bind_eq_some_iff.mp hs
  have hopen := hsafe.opened c k f hf call hk
  rw [if_neg (by simp [hopen])] at hs
  split at hs
  · cases hs
  · obtain rfl := Option.some.inj hs
    refine ⟨hsafe.lone, hsafe.failing, ?_, ?_, hsafe.running⟩
    · intro d hd
      refine hsafe.reading d ?_
      by_cases hdc : d = c
      · subst hdc
        simp at hd
      · simpa [Function.update_of_ne hdc] using hd
    · intro d j g hg call₀ hj
      by_cases hdc : d = c
      · subst hdc
        simp at hg
      · have hg' : n.delivering d = some (j, g) := by simpa [Function.update_of_ne hdc] using hg
        rcases of_set hj with ⟨rfl, rfl⟩ | ⟨_, hj⟩
        · exact hopen
        · exact hsafe.opened d j g hg' call₀ hj

/- A channel that is closed is listed no more. -/
theorem closed_once {node : Seating.Node} (hi : n.Inv) : { n with node := node }.closeAllPending.panicked = false := by
  rw [Bool.eq_false_iff]
  intro hany
  obtain ⟨b, hb, rfl⟩ := List.any_eq_true.mp hany
  obtain ⟨k, hk⟩ := List.mem_iff_getElem?.mp hb
  rw [List.getElem?_mapIdx] at hk
  obtain ⟨call, hcall, hboth⟩ := Option.map_eq_some_iff.mp hk
  obtain ⟨hlisten, hclosed⟩ := Bool.and_eq_true_iff.mp hboth
  have hpending : n.pending call.requestID = some k := by simpa [listens] using hlisten
  obtain ⟨_, call₀, hk₀, _, _, hopen⟩ := hi.pending _ k hpending
  rw [Option.some.inj (hk₀.symm.trans hcall), hclosed] at hopen
  cases hopen

/- The only loop of the node ends, and delivers nothing meanwhile. -/
theorem stop (hsafe : n.Safe) (hi : n.Inv) (hs : n.readLoop c (.stop c) = some n') : n'.Safe := by
  rw [Client.readLoop] at hs
  split_ifs at hs with hfree
  obtain ⟨node, hstep, rfl⟩ := Option.map_eq_some_iff.mp hs
  have hgoes := hsafe.lone.step hstep (by simp)
  have hreading : n.node.loop c = .reading := by
    rw [Seating.Node.step] at hstep
    split_ifs at hstep with hloop
    exact hloop
  have hnone : ∀ d, n.delivering d = none := by
    intro d
    by_contra hd
    have hconn := hsafe.lone.loops d (by rw [hsafe.reading d hd]; simp)
    rw [hsafe.lone.loops c (by rw [hreading]; simp)] at hconn
    exact hd (Option.some.inj hconn ▸ hfree)
  refine ⟨hgoes.lone, hsafe.failing, fun d hd => absurd (hnone d) hd, ?_, closed_once hi⟩
  intro d j g hg
  exact absurd ((hnone d).symm.trans hg) (by simp)

theorem step (hsafe : n.Safe) (hi : n.Inv) (hstay : e.isDetach = false) (hs : n.step e = some n') : n'.Safe := by
  replace hs := (move_of_step hs).2
  unfold move at hs
  cases e with
  | seat e =>
    refine hsafe.stepSeat ?_ hs
    rintro rfl
    cases hstay
  | receive c now =>
    dsimp only at hs
    split at hs
    · cases hs
    · obtain ⟨node, hstep, rfl⟩ := Option.map_eq_some_iff.mp hs
      exact hsafe.seat _ hstep (by simp) (by simp) (by simp)
  | call request =>
    dsimp only at hs
    split at hs
    · obtain rfl := Option.some.inj hs
      exact hsafe.append hi _
    · obtain rfl := Option.some.inj hs
      exact hsafe.append hi _
  | startGame =>
    dsimp only at hs
    split at hs
    · obtain rfl := Option.some.inj hs
      exact ⟨hsafe.lone, hsafe.failing, hsafe.reading, hsafe.opened, hsafe.running⟩
    · obtain rfl := Option.some.inj hs
      exact hsafe
  | sendStart c err =>
    dsimp only at hs
    split_ifs at hs
    split at hs
    · obtain rfl := Option.some.inj hs
      exact ⟨hsafe.lone, hsafe.failing, hsafe.reading, hsafe.opened, hsafe.running⟩
    · obtain rfl := Option.some.inj hs
      exact ⟨hsafe.lone, hsafe.failing, hsafe.reading, hsafe.opened, hsafe.running⟩
    · cases hs
  | readRemote =>
    obtain rfl := Option.some.inj hs
    exact ⟨hsafe.lone, hsafe.failing, hsafe.reading, hsafe.opened, hsafe.running⟩
  | read c => exact hsafe.read hi hs
  | deliver c => exact hsafe.deliver hs
  | stop c => exact hsafe.stop hi hs
  | failPending =>
    dsimp only at hs
    rw [hsafe.failing, if_neg (lt_irrefl 0)] at hs
    cases hs
  | clearSession =>
    dsimp only at hs
    split_ifs at hs
    obtain rfl := Option.some.inj hs
    exact ⟨hsafe.lone, hsafe.failing, hsafe.reading, hsafe.opened, hsafe.running⟩
  | _ =>
    obtain ⟨call, hk, hs⟩ := Option.bind_eq_some_iff.mp hs
    exact hsafe.act hk hs

theorem of_trace {prefNodeID : Bytes} {cfg : Config} {es : List Event}
    (ht : Trace Client.step Stays (Client.new prefNodeID cfg) es n) : n.Inv ∧ n.Safe :=
  ht.keeps (P := fun n => n.Inv ∧ n.Safe) ⟨.new prefNodeID cfg, .new prefNodeID cfg⟩
    fun _ _ _ hok hs h => ⟨h.1.step hok.1 hs, h.2.step h.1 hok.2 hs⟩

end Safe

/-- A node that does not detach does not panic: no read loop sends to a channel that is
closed, and no channel is closed twice. -/
theorem attached_never_panics (prefNodeID : Bytes) (cfg : Config) (es : List Event) (n : Client)
    (ht : Trace Client.step Stays (new prefNodeID cfg) es n) : n.panicked = false :=
  (Safe.of_trace ht).2.running

/- The connection breaks while a call waits. -/
def broken : List Event :=
  [attaches, [.call .heartbeat], asks 0, [.stop 0, .await 0, .delete 0]].flatten

theorem broken_never_panics :
    (exec Client.step Stays (new Hub.aliceID sampleConfig) broken).isSome ∧
    (run Client.step Stays (new Hub.aliceID sampleConfig) broken).panicked = false :=
  ⟨by decide +kernel, attached_never_panics _ _ _ _ (run_trace (by decide +kernel))⟩

/- The loop has looked the channel up when the node detaches and closes it. -/
example : (run Client.step NoWrap (new Hub.aliceID sampleConfig)
    [attaches, [.call .heartbeat], asks 0, serves, [.read 0, .seat .detach, .seat (.close 0 0), .failPending,
      .deliver 0]].flatten).panicked = true := by decide +kernel

/-- The loop has ended, and the calls from `m` on have got nothing. -/
structure Lost (m c : ℕ) (n : Client) : Prop where
  attached : n.node.dispatchConn = some c
  ended : ∀ d, n.node.loop d = .ended
  idle : ∀ d, n.delivering d = none
  silent : ∀ (k : ℕ) (call : Call), m ≤ k → n.calls[k]? = some call → call.respCh.buf = none ∧ call.stage.resp = none

namespace Lost
variable {n n' : Client} {e : Event} {m c k : ℕ} {call : Call}

theorem seat {e : Seating.Event} {node : Seating.Node} {wire : ℕ → List Frame} {failing : ℕ} (hl : Lost m c n)
    (hsafe : n.Safe) (hs : n.node.step e = some node) (hstay : e ≠ .detach) :
    Lost m c { n with node := node, wire := wire, failing := failing } := by
  have hgoes := hsafe.lone.step hs hstay
  refine ⟨hgoes.attached c hl.attached, ?_, hl.idle, hl.silent⟩
  intro d
  exact hgoes.ended (by rw [hl.attached]; simp) d (hl.ended d)

theorem append (hl : Lost m c n) (call : Call) (hbuf : call.respCh.buf = none) (hresp : call.stage.resp = none) :
    Lost m c { n with calls := n.calls ++ [call] } := by
  refine ⟨hl.attached, hl.ended, hl.idle, ?_⟩
  intro k call' hm hk
  by_cases hlt : k < n.calls.length
  · exact hl.silent k call' hm (by rwa [List.getElem?_append_left hlt] at hk)
  · have hmem := List.mem_of_getElem? (List.getElem?_append_right (not_lt.mp hlt) ▸ hk)
    rw [List.mem_singleton.mp hmem]
    exact ⟨hbuf, hresp⟩

theorem act (hl : Lost m c n) (hk : n.calls[k]? = some call) (hs : n.act k call e = some n') : Lost m c n' := by
  obtain ⟨call', hb⟩ := act_beside hs
  refine ⟨by rw [hb.node]; exact hl.attached, by rw [hb.node]; exact hl.ended,
    by rw [hb.delivering]; exact hl.idle, ?_⟩
  intro j call₀ hm hj
  rw [hb.calls] at hj
  rcases of_set hj with ⟨rfl, rfl⟩ | ⟨_, hj⟩
  · obtain ⟨hbuf, hresp⟩ := hl.silent j call hm hk
    exact hb.silent hbuf hresp
  · exact hl.silent j call₀ hm hj

/- There is no loop that could read. -/
theorem readLoop (hl : Lost m c n) {d : ℕ} : n.readLoop d e = none := by
  unfold Client.readLoop
  split
  · split_ifs
    · rw [Option.bind_eq_none_iff]
      intro f _
      split
      · simp [Seating.Node.step, hl.ended d]
      · simp [Seating.Node.step, hl.ended d]
    · rfl
  · rw [hl.idle d]
    rfl
  · split_ifs
    · simp [Seating.Node.step, hl.ended d]
    · rfl
  · rfl

theorem step (hl : Lost m c n) (hsafe : n.Safe) (hstay : e.isDetach = false) (hs : n.step e = some n') :
    Lost m c n' := by
  replace hs := (move_of_step hs).2
  unfold move at hs
  cases e with
  | seat e =>
    have hnot : e ≠ .detach := by
      rintro rfl
      cases hstay
    dsimp only at hs
    unfold Client.stepSeat at hs
    split_ifs at hs
    obtain ⟨node, hstep, rfl⟩ := Option.map_eq_some_iff.mp hs
    cases e with
    | close d j => exact hl.seat hsafe hstep hnot
    | _ => exact hl.seat hsafe hstep hnot
  | receive d now =>
    dsimp only at hs
    split at hs
    · cases hs
    · obtain ⟨node, hstep, rfl⟩ := Option.map_eq_some_iff.mp hs
      exact hl.seat hsafe hstep (by simp)
  | call request =>
    dsimp only at hs
    rw [hl.attached] at hs
    obtain rfl := Option.some.inj hs
    exact hl.append _ rfl rfl
  | startGame =>
    dsimp only at hs
    rw [hl.attached] at hs
    obtain rfl := Option.some.inj hs
    exact ⟨hl.attached, hl.ended, hl.idle, hl.silent⟩
  | sendStart d err =>
    dsimp only at hs
    split_ifs at hs
    split at hs
    · obtain rfl := Option.some.inj hs
      exact ⟨hl.attached, hl.ended, hl.idle, hl.silent⟩
    · obtain rfl := Option.some.inj hs
      exact ⟨hl.attached, hl.ended, hl.idle, hl.silent⟩
    · cases hs
  | readRemote =>
    obtain rfl := Option.some.inj hs
    exact ⟨hl.attached, hl.ended, hl.idle, hl.silent⟩
  | read d => exact absurd (hl.readLoop.symm.trans hs) (by simp)
  | deliver d => exact absurd (hl.readLoop.symm.trans hs) (by simp)
  | stop d => exact absurd (hl.readLoop.symm.trans hs) (by simp)
  | failPending =>
    dsimp only at hs
    rw [hsafe.failing, if_neg (lt_irrefl 0)] at hs
    cases hs
  | clearSession =>
    dsimp only at hs
    split_ifs at hs
    obtain rfl := Option.some.inj hs
    exact ⟨hl.attached, hl.ended, hl.idle, hl.silent⟩
  | _ =>
    obtain ⟨call, hk, hs⟩ := Option.bind_eq_some_iff.mp hs
    exact hl.act hk hs

end Lost

/-- A node whose read loop has ended stays attached to that connection: until it detaches,
no call that it makes is answered. -/
theorem lost_connection_silent (prefNodeID : Bytes) (cfg : Config) (es fs : List Event) (n n' : Client) (c : ℕ)
    (ht : Trace Client.step Stays (new prefNodeID cfg) es n) (hconn : n.node.dispatchConn = some c)
    (hlost : n.node.loop c = .ended) (ht' : Trace Client.step Stays n fs n') :
    n'.node.dispatchConn = some c ∧ ∀ (k : ℕ) (call : Call), n.calls.length ≤ k → n'.calls[k]? = some call →
      call.stage.resp = none := by
  obtain ⟨hi, hsafe⟩ := Safe.of_trace ht
  have hended : ∀ d, n.node.loop d = .ended := by
    intro d
    by_contra hne
    have hd := hsafe.lone.loops d hne
    rw [hconn] at hd
    exact hne (Option.some.inj hd ▸ hlost)
  have hstart : Lost n.calls.length c n := by
    refine ⟨hconn, hended, ?_, ?_⟩
    · intro d
      by_contra hne
      have hd := hsafe.reading d hne
      rw [hended d] at hd
      cases hd
    · intro k call hle hk
      exact absurd (List.getElem?_eq_some_iff.mp hk).1 (not_lt.mpr hle)
  have hkeeps := ht'.keeps (P := fun n' => n'.Inv ∧ n'.Safe ∧ Lost n.calls.length c n') ⟨hi, hsafe, hstart⟩
    fun _ _ _ hok hs h => ⟨h.1.step hok.1 hs, h.2.1.step h.1 hok.2 hs, h.2.2.step h.2.1 hok.2 hs⟩
  refine ⟨hkeeps.2.2.attached, ?_⟩
  intro k call hle hk
  exact (hkeeps.2.2.silent k call hle hk).2

/- Alice asks again after the connection has broken: dispatch answers, nobody reads. -/
def asksAgain : List Event := [[.call .listSessions], asks 1, serves].flatten

theorem asks_again_silent :
    let n := run Client.step Stays (new Hub.aliceID sampleConfig) broken
    let n' := run Client.step Stays n asksAgain
    (n'.node.inbox 0).length = 1 ∧ n'.node.dispatchConn = some 0 ∧
      ∀ (k : ℕ) (call : Call), n.calls.length ≤ k → n'.calls[k]? = some call → call.stage.resp = none :=
  ⟨by decide +kernel, lost_connection_silent _ _ _ _ _ _ _ (run_trace (by decide +kernel)) (by decide +kernel)
    (by decide +kernel) (run_trace (by decide +kernel))⟩

end Client

end P2Poker.Requests
