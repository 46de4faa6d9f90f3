import P2Poker.Client.Streams

/-!
# What the clients of a node are told

Which events and which chat messages of a run reach a client, while its stream is at the
loop of SubscribeEvents.
-/

namespace P2Poker.Streams
open P2Poker.Lib P2Poker.Client

namespace Server
variable {s s' : Server} {e : Event}

/-! ### Runs -/

/-- A message waits for the handler of the stream that it came in for. -/
structure Chats (s : Server) : Prop where
  handler : s.handler = if s.opened = 0 then none else some (s.opened - 1)
  handling : ∀ x ∈ s.handling, x.1 < s.opened ∧ s.received[x.2.1]? = some (x.2.2, some x.1)
  offered : ∀ c, ∀ x ∈ (s.streams c).ch.offered, s.received[x.1]? = some (x.2, some c)

theorem Chats.start : Chats ({} : Server) where
  handler := rfl
  handling x h := by simp at h
  offered c x h := by simp [Mailbox.offered] at h

theorem Inv.step (hi : Inv s) (hc : Chats s) (h : s.step e = some s') : Inv s' := by
  cases acts_of_step h with
  | openStream => exact hi.openStream
  | subscribe hstage hq => exact hi.subscribe hstage hq
  | emit hidle => exact hi.emit hidle
  | lock hk hwaiting => exact hi.lock hk hwaiting
  | panic _ _ _ => exact hi.offer h
  | offer _ _ => exact hi.offer h
  | unlock hk hsending => exact hi.unlock hk hsending
  | sendBus ok hstage hqueue =>
    exact hi.streaming hstage rfl rfl rfl rfl rfl (send_listed _ _ ok hstage) (send_closed _ _ ok)
      (.sendBus ok hstage hqueue)
  | sendChat ok hstage hqueue =>
    exact hi.streaming hstage rfl rfl rfl rfl rfl (send_listed _ _ ok hstage) (send_closed _ _ ok)
      (.sendChat ok hstage hqueue)
  | closedBus hstage => exact hi.streaming hstage rfl rfl rfl rfl rfl (.inr rfl) rfl (.leave hstage)
  | done hstage => exact hi.streaming hstage rfl rfl rfl rfl rfl (.inr rfl) rfl (.leave hstage)
  | unsubscribe hstage hq _ => exact hi.unsubscribe hstage hq
  | @unlisted c hstage hmem =>
    -- a stream that leaves is on the list
    exact absurd ((hi.subs c).mpr (.inr hstage)) hmem
  | chat =>
    exact ⟨hi.fresh, hi.subs, hi.nodup, hi.closed, hi.left, hi.turns, hi.sound, hi.complete, hi.order, hi.kept,
      hi.running⟩
  | @handle i c item hitem =>
    exact hi.setStream rfl rfl rfl rfl rfl (hc.handling _ (List.mem_of_getElem? hitem)).1 Iff.rfl (hi.closed c) rfl
      ((hi.kept c).move (.handle item))

theorem offered_setStream {c : ℕ} {x : Stream} (h : s'.streams = (s.setStream c x).streams)
    (hx : x.ch.offered = (s.streams c).ch.offered) (d : ℕ) :
    (s'.streams d).ch.offered = (s.streams d).ch.offered := by
  by_cases hd : d = c
  · rw [h, hd, setStream_self, hx]
  · rw [h, setStream_ne x hd]

/- What the other steps leave alone. -/
theorem step_chats (h : s.step e = some s') (hopen : e ≠ .openStream) (hchat : ∀ msg, e ≠ .chat msg)
    (hhandle : ∀ i, e ≠ .handle i) :
    s'.opened = s.opened ∧ s'.handler = s.handler ∧ s'.received = s.received ∧ s'.handling = s.handling ∧
      ∀ c, (s'.streams c).ch.offered = (s.streams c).ch.offered := by
  cases acts_of_step h with
  | openStream => exact absurd rfl hopen
  | chat => exact absurd rfl (hchat _)
  | handle _ => exact absurd rfl (hhandle _)
  | subscribe _ _ => exact ⟨rfl, rfl, rfl, rfl, offered_setStream rfl rfl⟩
  | offer _ _ => exact ⟨rfl, rfl, rfl, rfl, offered_setStream rfl rfl⟩
  | sendBus ok _ _ => exact ⟨rfl, rfl, rfl, rfl, offered_setStream rfl (by cases ok <;> rfl)⟩
  | sendChat ok _ _ => exact ⟨rfl, rfl, rfl, rfl, offered_setStream rfl (by cases ok <;> rfl)⟩
  | closedBus _ => exact ⟨rfl, rfl, rfl, rfl, offered_setStream rfl rfl⟩
  | done _ => exact ⟨rfl, rfl, rfl, rfl, offered_setStream rfl rfl⟩
  | unsubscribe _ _ _ => exact ⟨rfl, rfl, rfl, rfl, offered_setStream rfl rfl⟩
  | unlisted _ _ => exact ⟨rfl, rfl, rfl, rfl, offered_setStream rfl rfl⟩
  | emit _ => exact ⟨rfl, rfl, rfl, rfl, fun _ => rfl⟩
  | lock _ _ => exact ⟨rfl, rfl, rfl, rfl, fun _ => rfl⟩
  | panic _ _ _ => exact ⟨rfl, rfl, rfl, rfl, fun _ => rfl⟩
  | unlock _ _ => exact ⟨rfl, rfl, rfl, rfl, fun _ => rfl⟩

theorem Chats.chat (hc : Chats s) (msg : PeerMessage) : Chats (s.chat msg) := by
  have hkeep : ∀ {n : ℕ} {x : PeerMessage × Option ℕ}, s.received[n]? = some x →
      (s.received ++ [(msg, s.handler)])[n]? = some x :=
    fun hn => (List.getElem?_append_left (List.getElem?_eq_some_iff.mp hn).1).trans hn
  refine ⟨hc.handler, ?_, fun c x hx => hkeep (hc.offered c x hx)⟩
  have hhandler := hc.handler
  intro x hx
  unfold Server.chat at hx ⊢
  dsimp only at hx ⊢
  split at hx
  · rename_i c hsome
    rcases List.mem_append.mp hx with hold | hnew
    · exact ⟨(hc.handling x hold).1, hkeep (hc.handling x hold).2⟩
    · rw [List.mem_singleton.mp hnew]
      rw [hsome] at hhandler
      split_ifs at hhandler with hzero
      obtain rfl := Option.some.inj hhandler
      refine ⟨by dsimp only; omega, ?_⟩
      rw [hsome, List.getElem?_append_right le_rfl, Nat.sub_self]
      rfl
  · exact ⟨(hc.handling x hx).1, hkeep (hc.handling x hx).2⟩

theorem Chats.handle {i : ℕ} (hc : Chats s) (h : s.step (.handle i) = some s') : Chats s' := by
  cases acts_of_step h with
  | @handle _ c item hitem =>
    refine ⟨hc.handler, fun x hx => hc.handling x (List.mem_of_mem_eraseIdx hx), ?_⟩
    intro d x hx
    by_cases hd : d = c
    · subst hd
      rw [show (Server.streams _ d) = _ from setStream_self s d _, Mailbox.offered_offer] at hx
      rcases List.mem_append.mp hx with hold | hnew
      · exact hc.offered d x hold
      · rw [List.mem_singleton.mp hnew]
        exact (hc.handling _ (List.mem_of_getElem? hitem)).2
    · rw [show (Server.streams _ d) = _ from setStream_ne _ hd] at hx
      exact hc.offered d x hx

theorem Chats.step (hc : Chats s) (hi : Inv s) (h : s.step e = some s') : Chats s' := by
  by_cases hopen : e = .openStream
  · subst hopen
    obtain rfl := Option.some.inj h
    refine ⟨rfl, fun x hx => ⟨(hc.handling x hx).1.trans (Nat.lt_succ_self _), (hc.handling x hx).2⟩, ?_⟩
    have hsame : ∀ c, (s.openStream.streams c).ch.offered = (s.streams c).ch.offered :=
      offered_setStream rfl (by rw [hi.fresh s.opened le_rfl])
    intro c x hx
    rw [hsame c] at hx
    exact hc.offered c x hx
  by_cases hchat : ∃ msg, e = .chat msg
  · obtain ⟨msg, rfl⟩ := hchat
    obtain rfl := Option.some.inj h
    exact hc.chat msg
  by_cases hhandle : ∃ i, e = .handle i
  · obtain ⟨i, rfl⟩ := hhandle
    exact hc.handle h
  obtain ⟨hopened, hhandler, hreceived, hhandling, hoffered⟩ :=
    step_chats h hopen (fun msg heq => hchat ⟨msg, heq⟩) (fun i heq => hhandle ⟨i, heq⟩)
  refine ⟨?_, ?_, ?_⟩
  · rw [hhandler, hopened]
    exact hc.handler
  · rw [hhandling, hopened, hreceived]
    exact hc.handling
  · intro c
    rw [hoffered c, hreceived]
    exact hc.offered c

theorem of_run {es : List Event} (h : Trace step Free {} es s) : Inv s ∧ Chats s :=
  h.keeps (P := fun s => Inv s ∧ Chats s) ⟨.start, .start⟩ fun _ _ _ _ hs hi => ⟨hi.1.step hi.2 hs, hi.2.step hi.1 hs⟩

/-! ### Streams go one way -/

def Stream.gone (x : Stream) : Prop := x.stage = .leaving ∨ x.stage = .ended

theorem not_gone_of_streaming {x : Stream} (h : x.stage = .streaming) : ¬ Stream.gone x := by
  rw [Stream.gone, h]
  simp

theorem Move.onward {x x' : Stream} (hm : Move x x') :
    (x.stage = .streaming → x'.stage = .streaming ∨ Stream.gone x') ∧
      (Stream.gone x → Stream.gone x' ∧ x'.told = x.told) := by
  cases hm with
  | subscribe hstage =>
    refine ⟨fun _ => .inl rfl, fun hgone => ?_⟩
    rw [Stream.gone, hstage] at hgone
    simp at hgone
  | sendBus ok hstage _ =>
    refine ⟨fun _ => ?_, fun hgone => absurd hgone (not_gone_of_streaming hstage)⟩
    cases ok with
    | true => exact .inl hstage
    | false => exact .inr (.inl rfl)
  | sendChat ok hstage _ =>
    refine ⟨fun _ => ?_, fun hgone => absurd hgone (not_gone_of_streaming hstage)⟩
    cases ok with
    | true => exact .inl hstage
    | false => exact .inr (.inl rfl)
  | leave hstage => exact ⟨fun _ => .inr (.inl rfl), fun hgone => absurd hgone (not_gone_of_streaming hstage)⟩
  | finish closed hstage => exact ⟨fun _ => .inr (.inr rfl), fun _ => ⟨.inr rfl, rfl⟩⟩
  | handle item => exact ⟨.inl, fun hgone => ⟨hgone, rfl⟩⟩

theorem Inv.onward (hi : Inv s) (h : s.step e = some s') (c : ℕ) :
    ((s.streams c).stage = .streaming → (s'.streams c).stage = .streaming ∨ Stream.gone (s'.streams c)) ∧
      (Stream.gone (s.streams c) → Stream.gone (s'.streams c) ∧ (s'.streams c).told = (s.streams c).told) := by
  by_cases hoffer : ∃ k d, e = .offer k d
  · obtain ⟨k, d, rfl⟩ := hoffer
    obtain ⟨call, hk, hmem, hs'⟩ := step_offer h
    rcases hs' with hclosed | rfl
    · rw [(hi.left_open hk hmem).1] at hclosed
      cases hclosed
    by_cases hd : c = d
    · subst hd
      rw [setStream_self]
      exact ⟨.inl, fun hgone => ⟨hgone, rfl⟩⟩
    · rw [setStream_ne _ hd]
      exact ⟨.inl, fun hgone => ⟨hgone, rfl⟩⟩
  rcases step_streams h (fun k d heq => hoffer ⟨k, d, heq⟩) c with hsame | hmove | ⟨_, hnew, _⟩
  · rw [hsame]
    exact ⟨.inl, fun hgone => ⟨hgone, rfl⟩⟩
  · exact hmove.onward
  · -- a stream that is opened was not there before
    rw [hi.fresh c hnew.ge]
    exact ⟨fun hstage => (by cases hstage), fun hgone => (by simp [Stream.gone] at hgone)⟩

/-! ### The calls that a stream is offered -/

theorem step_calls (h : s.step e = some s') :
    s'.calls = s.calls ∨ (∃ new : Call, s'.calls = s.calls ++ [new] ∧ new.stage = .waiting) ∨
      ∃ (k : ℕ) (call call' : Call), s.calls[k]? = some call ∧ s'.calls = s.calls.set k call' ∧
        (call'.audience = s.subs ∨ call'.audience = call.audience ∧ call.stage ≠ .waiting) := by
  cases acts_of_step h with
  | emit _ => exact .inr (.inl ⟨_, rfl, rfl⟩)
  | lock hk _ => exact .inr (.inr ⟨_, _, _, hk, rfl, .inl rfl⟩)
  | offer hk hmem => exact .inr (.inr ⟨_, _, _, hk, rfl, .inr ⟨rfl, by rw [stage_of_left hmem]; simp⟩⟩)
  | unlock hk hsending => exact .inr (.inr ⟨_, _, _, hk, rfl, .inr ⟨rfl, by rw [hsending]; simp⟩⟩)
  | openStream => exact .inl rfl
  | subscribe _ _ => exact .inl rfl
  | panic _ _ _ => exact .inl rfl
  | sendBus _ _ _ => exact .inl rfl
  | sendChat _ _ _ => exact .inl rfl
  | closedBus _ => exact .inl rfl
  | done _ => exact .inl rfl
  | unsubscribe _ _ _ => exact .inl rfl
  | unlisted _ _ => exact .inl rfl
  | chat => exact .inl rfl
  | handle _ => exact .inl rfl

/-- Every call from number `n` on that has the lock, or had it, found the stream on the list. -/
def Attends (n c : ℕ) (s : Server) : Prop :=
  ∀ (k : ℕ) (call : Call), n ≤ k → s.calls[k]? = some call → call.stage ≠ .waiting → c ∈ call.audience

theorem Attends.step {n c : ℕ} (ha : Attends n c s) (hsub : c ∈ s.subs) (h : s.step e = some s') : Attends n c s' := by
  intro j callj hj hcall hstage
  rcases step_calls h with hsame | ⟨new, happend, hwaiting⟩ | ⟨k, call, call', hk, hset, haud⟩
  · rw [hsame] at hcall
    exact ha j callj hj hcall hstage
  · rw [happend] at hcall
    rcases getCall_of_append hcall with hold | ⟨_, rfl⟩
    · exact ha j callj hj hold hstage
    · exact absurd hwaiting hstage
  · rw [hset, getCall_set hk] at hcall
    split_ifs at hcall with hjk
    · obtain rfl := Option.some.inj hcall
      rcases haud with hsubs | ⟨hsame, hnot⟩
      · rw [hsubs]
        exact hsub
      · rw [hsame]
        exact ha k call (hjk ▸ hj) hk hnot
    · exact ha j callj hj hcall hstage

/- While the stream is at its loop, it is on the list. -/
theorem attends_of_run {es fs : List Event} {t : Server} {c : ℕ} (ht : Trace step Free {} es t)
    (h : Trace step Free t fs s) (hin : (t.streams c).stage = .streaming) :
    Stream.gone (s.streams c) ∨ (s.streams c).stage = .streaming ∧ Attends t.calls.length c s := by
  have hstart : Attends t.calls.length c t := by
    intro k call hle hk
    have hlt := (List.getElem?_eq_some_iff.mp hk).1
    omega
  induction h with
  | nil => exact .inr ⟨hin, hstart⟩
  | snoc e hpre _ hs ih =>
    have hi := (of_run (ht.append hpre)).1
    rcases ih with hgone | ⟨hstage, hattends⟩
    · exact .inl ((hi.onward hs c).2 hgone).1
    · rcases (hi.onward hs c).1 hstage with hstays | hgone
      · exact .inr ⟨hstays, hattends.step ((hi.subs c).mpr (.inl hstage)) hs⟩
      · exact .inl hgone

theorem Inv.heard_nodup (hi : Inv s) (c : ℕ) : (s.heard c).Nodup := by
  refine (hi.order c).imp_of_mem ?_
  intro j k hj _ horder hjk
  obtain ⟨x, hx, rfl⟩ := List.mem_map.mp hj
  obtain ⟨call, hcall, _⟩ := hi.sound c x hx
  have hlt := horder call call hcall (hjk ▸ hcall) rfl
  omega

/-- No channel is sent to after it was closed. While a client's stream is at its loop, the client
is told, in this order, the events that found room in its channel, and each call of Emit that
begins and returns meanwhile has offered its event once. The calls of one goroutine are heard in
their order. -/
theorem events_delivered {es fs : List Event} {t s : Server} (ht : Trace step Free {} es t)
    (h : Trace step Free t fs s) :
    s.panicked = false ∧ ∀ c, (t.streams c).stage = .streaming → (s.streams c).stage = .streaming →
      (s.streams c).told.filterMap Item.ofBus ++ (s.streams c).busCh.queue = (s.streams c).busCh.accepted chanCap ∧
      (s.heard c).Nodup ∧ (s.heard c).Pairwise (InOrder s.calls) ∧
      (∀ x ∈ (s.streams c).busCh.offered, ∃ call : Call, s.calls[x.1]? = some call ∧ call.ev = x.2) ∧
      ∀ (k : ℕ) (call : Call), t.calls.length ≤ k → s.calls[k]? = some call → call.stage = .returned →
        (k, call.ev) ∈ (s.streams c).busCh.offered := by
  have hi := (of_run (ht.append h)).1
  refine ⟨hi.running, fun c hin hstays => ?_⟩
  have hkept := hi.kept c
  refine ⟨?_, hi.heard_nodup c, hi.order c, ?_, ?_⟩
  · have htold := hkept.toldBus
    rw [hkept.there (.inr hstays)] at htold
    rw [hkept.bus.fifo, ← htold]
    simp
  · intro x hx
    obtain ⟨call, hcall, hev, _⟩ := hi.sound c x hx
    exact ⟨call, hcall, hev⟩
  · intro k call hle hk hreturned
    have hattends : Attends t.calls.length c s := by
      rcases attends_of_run ht h hin with hgone | ⟨_, hattends⟩
      · exact absurd hgone (not_gone_of_streaming hstays)
      · exact hattends
    have hheard := hi.complete c k call hk (hattends k call hle hk (by rw [hreturned]; simp))
      (by simp [Call.left, hreturned])
    obtain ⟨x, hx, rfl⟩ := List.mem_map.mp hheard
    obtain ⟨callx, hcallx, hev, _⟩ := hi.sound c x hx
    obtain rfl := Option.some.inj (hk.symm.trans hcallx)
    rw [hev]
    exact hx

def sampleEmitter : Emitter := ⟨ascii "alice", ascii "table", 0⟩

def sampleLine : BusEvent := sampleEmitter.emitKind .log (ascii "runner") (ascii "ready")

def sampleNote : BusEvent := sampleEmitter.emitKind .log (ascii "deal") (ascii "shuffled")

/- Two clients open streams. -/
def bothStream : List Event := [.openStream, .subscribe 0, .openStream, .subscribe 1]

/- Two goroutines emit, the second has the lock first, and the first client is told both. -/
def hearBoth : List Event :=
  [.emit 0 sampleLine, .emit 1 sampleNote, .lock 1, .offer 1 1, .offer 1 0, .unlock 1,
    .lock 0, .offer 0 0, .offer 0 1, .unlock 0, .sendBus 0 true, .sendBus 1 true, .sendBus 0 true]

theorem line_delivered :
    let t := run step Free {} bothStream
    let s := run step Free t hearBoth
    (s.streams 0).told = [.bus (1, sampleNote), .bus (0, sampleLine)] ∧
      (s.streams 1).told = [.bus (1, sampleNote)] ∧ s.panicked = false ∧
      ∀ c < 2, (s.heard c).Nodup ∧
        (s.streams c).told.filterMap Item.ofBus ++ (s.streams c).busCh.queue =
          (s.streams c).busCh.accepted chanCap := by
  intro t s
  obtain ⟨hrunning, hheard⟩ := events_delivered (run_trace (by decide +kernel) : Trace step Free {} bothStream t)
    (run_trace (by decide +kernel) : Trace step Free t hearBoth s)
  have hin : ∀ c < 2, (t.streams c).stage = .streaming ∧ (s.streams c).stage = .streaming := by decide +kernel
  refine ⟨by decide +kernel, by decide +kernel, hrunning, fun c hc => ?_⟩
  obtain ⟨htold, hnodup, _⟩ := hheard c (hin c hc).1 (hin c hc).2
  exact ⟨hnodup, htold⟩

/-! ### Chat messages -/

theorem step_received (h : s.step e = some s') (hopen : e ≠ .openStream) :
    s'.handler = s.handler ∧
      (s'.received = s.received ∨ ∃ msg, s'.received = s.received ++ [(msg, s.handler)]) := by
  by_cases hchat : ∃ msg, e = .chat msg
  · obtain ⟨msg, rfl⟩ := hchat
    obtain rfl := Option.some.inj h
    exact ⟨rfl, .inr ⟨msg, rfl⟩⟩
  by_cases hhandle : ∃ i, e = .handle i
  · obtain ⟨i, rfl⟩ := hhandle
    cases acts_of_step h with
    | handle _ => exact ⟨rfl, .inl rfl⟩
  obtain ⟨_, hhandler, hreceived, _⟩ :=
    step_chats h hopen (fun msg heq => hchat ⟨msg, heq⟩) (fun i heq => hhandle ⟨i, heq⟩)
  exact ⟨hhandler, .inl hreceived⟩

/-- No client opens a stream. -/
def NoneOpens (_ : Server) (e : Event) : Prop := e ≠ .openStream

instance instDecidableNoneOpens (s : Server) (e : Event) : Decidable (NoneOpens s e) :=
  inferInstanceAs (Decidable (e ≠ .openStream))

/-- What a run in which no client opens a stream makes of the state `t`. -/
structure Since (t s : Server) : Prop where
  handler : s.handler = t.handler
  received : ∀ n x, t.received.length ≤ n → s.received[n]? = some x → x.2 = t.handler
  gone : ∀ c, Stream.gone (t.streams c) → Stream.gone (s.streams c) ∧ (s.streams c).told = (t.streams c).told

theorem Since.refl (t : Server) : Since t t where
  handler := rfl
  received _ _ hle hn := absurd (List.getElem?_eq_some_iff.mp hn).1 (not_lt.mpr hle)
  gone _ h := ⟨h, rfl⟩

theorem Since.step {t : Server} (hsince : Since t s) (hi : Inv s) (hopen : e ≠ .openStream)
    (h : s.step e = some s') : Since t s' := by
  obtain ⟨hhandler, hreceived⟩ := step_received h hopen
  refine ⟨hhandler.trans hsince.handler, ?_, ?_⟩
  · intro n x hle hn
    rcases hreceived with hsame | ⟨msg, happend⟩
    · rw [hsame] at hn
      exact hsince.received n x hle hn
    · rw [happend] at hn
      by_cases hlt : n < s.received.length
      · rw [List.getElem?_append_left hlt] at hn
        exact hsince.received n x hle hn
      · obtain rfl : x = (msg, s.handler) :=
          List.mem_singleton.mp (List.mem_of_getElem? ((List.getElem?_append_right (not_lt.mp hlt)).symm.trans hn))
        exact hsince.handler
  · intro c hgone
    obtain ⟨hgone', htold⟩ := hsince.gone c hgone
    obtain ⟨hgone'', htold'⟩ := (hi.onward h c).2 hgone'
    exact ⟨hgone'', htold'.trans htold⟩

theorem since_of_run {es fs : List Event} {t : Server} (ht : Trace step Free {} es t)
    (h : Trace step NoneOpens t fs s) : Since t s := by
  induction h with
  | nil => exact .refl t
  | snoc e hpre he hs ih => exact ih.step (of_run (ht.append (hpre.mono fun _ _ _ => trivial))).1 he hs

/- A message that a client was told of had come in for its stream. -/
theorem received_of_told (hi : Inv s) (hc : Chats s) {c n : ℕ} {msg : PeerMessage}
    (h : .peerMessage (n, msg) ∈ (s.streams c).told) : s.received[n]? = some (msg, some c) := by
  have hkept := hi.kept c
  have htaken : (n, msg) ∈ (s.streams c).ch.taken := by
    rw [← hkept.toldChat]
    exact List.mem_append_left _ (List.mem_filterMap.mpr ⟨_, h, rfl⟩)
  exact hc.offered c (n, msg) (hkept.chat.offered_of_taken htaken)

/-- Until another stream is opened, a chat message that comes in is told only to the client of the
stream that was opened last, and to nobody when that one is gone, whoever else still listens. -/
theorem chat_reaches_last {es fs : List Event} {t s : Server} (ht : Trace step Free {} es t)
    (h : Trace step NoneOpens t fs s) (n : ℕ) (msg : PeerMessage) (hn : t.received.length ≤ n) (c : ℕ)
    (htold : .peerMessage (n, msg) ∈ (s.streams c).told) :
    s.received[n]? = some (msg, some c) ∧ c + 1 = t.opened ∧ ¬ Stream.gone (t.streams c) := by
  have hsince := since_of_run ht h
  obtain ⟨hi, hc⟩ := of_run (ht.append (h.mono fun _ _ _ => trivial))
  obtain ⟨hit, hct⟩ := of_run ht
  have hreceived := received_of_told hi hc htold
  refine ⟨hreceived, ?_, ?_⟩
  · have hlast := (hsince.received n _ hn hreceived).trans hct.handler
    split_ifs at hlast with hzero
    have heq := Option.some.inj hlast
    omega
  · intro hgone
    rw [(hsince.gone c hgone).2] at htold
    have hlt := (List.getElem?_eq_some_iff.mp (received_of_told hit hct htold)).1
    omega

def sampleChat : PeerMessage := ⟨ascii "bob", ascii "chat", ascii "hello"⟩

def chats : List Event := [.chat sampleChat, .handle 0, .sendChat 1 true]

theorem chat_reaches_second :
    let t := run step Free {} bothStream
    let s := run step NoneOpens t chats
    (s.streams 0).told = [] ∧ (s.streams 1).told = [.peerMessage (0, sampleChat)] ∧
      s.received[0]? = some (sampleChat, some 1) ∧ 1 + 1 = t.opened ∧ ¬ Stream.gone (t.streams 1) := by
  intro t s
  refine ⟨by decide +kernel, by decide +kernel, ?_⟩
  exact chat_reaches_last (run_trace (by decide +kernel) : Trace step Free {} bothStream t)
    (run_trace (by decide +kernel) : Trace step NoneOpens t chats s) 0 sampleChat (by decide +kernel) 1
    (by decide +kernel)

/- The second client has left: the message goes to its stream, the first client is not told. -/
example :
    let s := run step Free {} (bothStream ++ [.done 1, .unsubscribe 1, .chat sampleChat, .handle 0])
    (s.streams 0).stage = .streaming ∧ (s.streams 0).ch.offers = [] ∧
      (s.streams 1).ch.queue = [(0, sampleChat)] ∧ (s.streams 1).stage = .ended := by decide +kernel

end Server

end P2Poker.Streams
