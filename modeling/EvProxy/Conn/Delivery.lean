import EvProxy.Conn.Relay

/-!
# The request goes upstream once

Descriptor numbers are reused, so "the same socket" is read off the history:
`files` replays opens and closes and names each open file by its turn. `Wire`
says what each event owes to the ones before it: bytes go only to one file, after
its connect was reported; the response is read only after the whole request; no
candidate is tried once a write has failed.
-/

namespace EvProxy
open Text Runs

/-- The descriptor table of a history. A file is named by how many were opened
before it, so a reused number stands for a new file. -/
structure Files where
  next : Nat := 0
  table : Nat → Option Nat := fun _ => none

def Files.step (f : Files) : Event → Files
  | .opened fd => ⟨f.next + 1, Function.update f.table fd (some f.next)⟩
  | .closed fd => ⟨f.next, Function.update f.table fd none⟩
  | _ => f

def files (t : List Event) : Files := t.foldl Files.step {}

/-- The open file a descriptor stands for after `t`. -/
def fileOf (t : List Event) (fd : Fd) : Option Nat := fd.bind (files t).table

/-- The connect of this file was reported successful. -/
def Connected (t : List Event) (file : Nat) : Prop :=
  ∃ past fd rest, t = past ++ .connected fd :: rest ∧ fileOf past fd = some file

/-- What an event owes to its past, for the request `request` sent to `file`. -/
def Wire (request : Bytes) (file : Nat) (past : List Event) : Event → Prop
  | .sentUpstream fd _ => fileOf past fd = some file ∧ Connected past file ∧ .upstreamSendFailed ∉ past
  | .recvUpstream _ => stream .toUpstream past = request
  | .attempt _ => .upstreamSendFailed ∉ past
  | _ => True

/-- An event of the exchange with the origin. -/
def Event.exchange : Event → Bool
  | .sentUpstream _ _ | .upstreamSendFailed | .recvUpstream _ | .upstreamEof | .upstreamRecvFailed => true
  | _ => false

/-- The exchange with the origin has not begun. -/
def Untried (t : List Event) : Prop := ∀ e ∈ t, e.exchange = false

/-- An event that can follow the exchange. -/
def Event.aftermath : Event → Bool
  | .sentClient _ | .clientSendFailed | .upstreamRecvFailed | .upstreamEof => true
  | .closed _ | .released _ | .cachePut _ _ => true
  | _ => false

def Aftermath (t : List Event) : Prop := ∀ e ∈ t, e.aftermath = true

/-- The exchange is over, or never began: what was sent is the front of the one request. -/
def Concluded (t : List Event) (buf : Bytes) (req : Request) : Prop :=
  Untried t ∨ ∃ file, Each (Wire (rebuilt buf req) file) t ∧ parseRequest buf {} = (.ok, req) ∧
    stream .toUpstream t <+: rebuilt buf req

/-- Where the delivery of the request stands in each state. -/
def Delivery (t : List Event) (c : Connection) : State → Prop
  | .connecting => Untried t ∧ (fileOf t c.upstream).isSome
  | .sendingUpstream => ∃ file, Each (Wire (rebuilt c.inClient c.req) file) t ∧ fileOf t c.upstream = some file ∧
      Connected t file ∧ .upstreamSendFailed ∉ t ∧ stream .toUpstream t = c.outUpstream.take c.outUpstreamOff
  | .relaying => ∃ file, Each (Wire (rebuilt c.inClient c.req) file) t ∧ .upstreamSendFailed ∉ t ∧
      stream .toUpstream t = rebuilt c.inClient c.req
  | .failing => Concluded t c.inClient c.req ∧
      (.upstreamSendFailed ∈ t → stream .toClient t ++ c.outClient.drop c.outClientOff = badGateway)
  | .done => Concluded t c.inClient c.req ∧
      (.upstreamSendFailed ∈ t → stream .toClient t <+: badGateway ∧
        (.clientSendFailed ∉ t → stream .toClient t = badGateway))
  | _ => Untried t

/-! ## Histories that grow -/

section Histories
variable {t u : List Event} {request : Bytes} {file : Nat}

theorem files_append (t u : List Event) : files (t ++ u) = u.foldl Files.step (files t) := List.foldl_append

/-- Only opens and closes change the table. -/
theorem fileOf_concat {e : Event} (fd : Fd) (idle : ∀ f, Files.step f e = f) : fileOf (t ++ [e]) fd = fileOf t fd := by
  rw [fileOf, files_append, List.foldl_cons, List.foldl_nil, idle]
  rfl

theorem fileOf_opened (t : List Event) (fd : Nat) : fileOf (t ++ [.opened fd]) (some fd) = some (files t).next := by
  rw [fileOf, files_append]
  exact Function.update_self fd (some (files t).next) (files t).table

theorem connected_concat {fd : Fd} (at_t : fileOf t fd = some file) : Connected (t ++ [.connected fd]) file :=
  ⟨t, fd, [], rfl, at_t⟩

theorem Connected.append (h : Connected t file) (u : List Event) : Connected (t ++ u) file := by
  obtain ⟨past, fd, rest, rfl, at_past⟩ := h
  exact ⟨past, fd, rest ++ u, by simp, at_past⟩

theorem Untried.append (ht : Untried t) (hu : Untried u) : Untried (t ++ u) :=
  List.forall_mem_append.mpr ⟨ht, hu⟩

theorem Untried.cons {e : Event} (he : e.exchange = false) (ht : Untried t) : Untried (e :: t) :=
  List.forall_mem_cons.mpr ⟨he, ht⟩

theorem Silent.untried (silent : Silent t) : Untried t := by
  intro e he
  have quiet := silent e he
  cases e <;> first | rfl | cases quiet

theorem Untried.not_failed (h : Untried t) : .upstreamSendFailed ∉ t := fun mem => by cases h _ mem

theorem Untried.sent (h : Untried t) : stream .toUpstream t = [] := by
  apply stream_eq_nil.mpr
  intro e he
  have quiet := h e he
  cases e <;> first | rfl | cases quiet

theorem Untried.wire (h : Untried t) (request : Bytes) (file : Nat) : Each (Wire request file) t := by
  intro past e rest split
  have quiet : e.exchange = false := h e (by rw [split]; simp)
  have before : .upstreamSendFailed ∉ past := fun mem => h.not_failed (by rw [split]; simp [mem])
  cases e <;> trivial

theorem Aftermath.append (ht : Aftermath t) (hu : Aftermath u) : Aftermath (t ++ u) :=
  List.forall_mem_append.mpr ⟨ht, hu⟩

theorem Aftermath.cons {e : Event} (he : e.aftermath = true) (ht : Aftermath t) : Aftermath (e :: t) :=
  List.forall_mem_cons.mpr ⟨he, ht⟩

theorem aftermath_closing (fd : Fd) : Aftermath (closing fd) := by
  cases fd <;> simp [Aftermath, closing, Event.aftermath]

theorem aftermath_finishEvents (c : Connection) (lastRef : Bool) : Aftermath (c.finishEvents lastRef) := by
  have release : Aftermath (releasing lastRef c.resolveJob) := by
    cases c.resolveJob <;> cases lastRef <;> simp [Aftermath, releasing, Event.aftermath]
  exact (release.append (aftermath_closing _)).append (aftermath_closing _)

theorem Store.aftermath {c : Connection} {cache cache' : Option LruCache} (store : Store c cache u cache') :
    Aftermath u := by
  cases store with
  | skipped => exact nofun
  | stored => exact Aftermath.cons rfl nofun

theorem Aftermath.not_failed (h : Aftermath t) : .upstreamSendFailed ∉ t := fun mem => by cases h _ mem

theorem Aftermath.sent (h : Aftermath t) : stream .toUpstream t = [] := by
  apply stream_eq_nil.mpr
  intro e he
  have quiet := h e he
  cases e <;> first | rfl | cases quiet

/-- The aftermath owes nothing to the past. -/
theorem Each.aftermath (old : Each (Wire request file) t) (after : Aftermath u) :
    Each (Wire request file) (t ++ u) := by
  refine old.append (each_of_forall fun e he past => ?_)
  have quiet := after e he
  cases e <;> trivial

theorem Concluded.append {buf : Bytes} {req : Request} (h : Concluded t buf req) (untried : Untried u)
    (after : Aftermath u) : Concluded (t ++ u) buf req := by
  rcases h with h | ⟨file, each, parse, sub⟩
  · exact Or.inl (h.append untried)
  · refine Or.inr ⟨file, Each.aftermath each after, parse, ?_⟩
    rwa [stream_append, untried.sent, List.append_nil]

end Histories

/-! ## Every step keeps the delivery in order -/

section Steps
variable {cfg : Config} {c c' : Connection} {t events : List Event}

/-- Giving up before the exchange began. -/
theorem Untried.failing (h : Untried t) (c : Connection) : Delivery t c .failing :=
  ⟨Or.inl h, fun failed => absurd failed h.not_failed⟩

theorem Untried.done (h : Untried t) (c : Connection) : Delivery t c .done :=
  ⟨Or.inl h, fun failed => absurd failed h.not_failed⟩

theorem Connect.delivery (dial : Connect c events c') (upstream : c.upstream = none)
    (unsent : c.outUpstreamOff = 0) (h : Untried t) : Delivery (t ++ events) c' c'.state := by
  have still : Untried (t ++ events) := h.append dial.silent.untried
  cases dial with
  | exhausted idx tried => exact still.failing _
  | connected idx fd endpoint tried =>
    rename_i failed
    rw [upstream, closing, List.append_nil] at still ⊢
    have opened := fileOf_opened (t ++ (failed ++ [.attempt endpoint])) fd
    have split : t ++ (failed ++ [.attempt endpoint, .opened fd, .connected (some fd)]) =
        t ++ (failed ++ [.attempt endpoint]) ++ [.opened fd] ++ [.connected (some fd)] := by simp
    refine ⟨(files (t ++ (failed ++ [.attempt endpoint]))).next, still.wire _ _, ?_, ?_, still.not_failed, ?_⟩
    · rw [split, fileOf_concat _ fun _ => rfl]
      exact opened
    · rw [split]
      exact connected_concat opened
    · rw [still.sent]
      simp [Connection.dialled, unsent]
  | inProgress idx fd endpoint tried =>
    rename_i failed
    rw [upstream, closing, List.append_nil] at still ⊢
    refine ⟨still, ?_⟩
    have opened := fileOf_opened (t ++ (failed ++ [.attempt endpoint])) fd
    have split : t ++ (failed ++ [.attempt endpoint, .opened fd]) =
        t ++ (failed ++ [.attempt endpoint]) ++ [.opened fd] := by simp
    rw [split, Connection.dialled, opened]
    rfl

theorem Resolve.delivery (resolve : Resolve c events c') (upstream : c.upstream = none)
    (unsent : c.outUpstreamOff = 0) (h : Untried t) : Delivery (t ++ events) c' c'.state := by
  have still : Untried (t ++ events) := h.append resolve.silent.untried
  cases resolve with
  | failed => exact still.failing _
  | pipeFailed => exact still.failing _
  | pending => exact still
  | connect endpoints dial => exact dial.delivery upstream unsent h

theorem Lookup.untried {req : Request} {cache cache' : Option LruCache} {key : Bytes} {looked : List Event}
    (lookup : Lookup cfg c req cache key looked cache') : Untried looked := by
  cases lookup with
  | off => exact nofun
  | skipped => exact nofun
  | missed => exact Untried.cons rfl nofun

/-- Bytes of the request go out on the connected file, in order. -/
theorem Delivery.sent (h : Delivery t c .sendingUpstream) (n : Nat) :
    Delivery (t ++ [.sentUpstream c.upstream (substr c.outUpstream c.outUpstreamOff n)])
      { c with outUpstreamOff := c.outUpstreamOff + n } .sendingUpstream := by
  obtain ⟨file, each, at_t, connected, fine, sent⟩ := h
  refine ⟨file, each.append (each_singleton ?_), ?_, connected.append _, by simp [fine], ?_⟩
  · simpa [Wire] using ⟨at_t, connected, fine⟩
  · rw [fileOf_concat _ fun _ => rfl]
    exact at_t
  · rw [stream_append, sent]
    simp [Event.flow, substr, List.take_add]

/-- A failed send is the last event of the exchange, and 502 is all the client will see. -/
theorem Delivery.sendFailed (h : Delivery t c .sendingUpstream) (loaded : Loaded cfg c) (mute : Mute t) :
    Delivery (t ++ .upstreamSendFailed :: closing c.upstream) (c.failed badGateway) .failing := by
  obtain ⟨file, each, -, -, -, sent⟩ := h
  have failed : Each (Wire (rebuilt c.inClient c.req) file) (t ++ [.upstreamSendFailed]) :=
    each.append (each_singleton trivial)
  have closed := Each.aftermath failed (aftermath_closing c.upstream)
  rw [List.append_assoc] at closed
  refine ⟨Or.inr ⟨file, closed, loaded.known.parse, ?_⟩, fun _ => ?_⟩
  · rw [stream_append, stream_cons, (silent_closing c.upstream).stream, sent, loaded.request]
    have front := List.take_prefix c.outUpstreamOff (rebuilt c.inClient c.req)
    simpa [Event.flow, Connection.failed] using front
  · simp [Connection.failed, mute.sent, Event.flow, (silent_closing c.upstream).stream]

/-- A relaying connection may end at any time. -/
theorem Delivery.ends (h : Delivery t c .relaying) (parse : parseRequest c.inClient {} = (.ok, c.req))
    (after : Aftermath events) : Delivery (t ++ events) c .done := by
  obtain ⟨file, each, fine, whole⟩ := h
  refine ⟨Or.inr ⟨file, Each.aftermath each after, parse, ?_⟩, fun failed => absurd failed ?_⟩
  · rw [stream_append, after.sent, List.append_nil, whole]
  · simp [fine, after.not_failed]

/-- Bytes for the client do not touch the exchange. -/
theorem Delivery.flush (h : Delivery t c .relaying) (data : Bytes) :
    Delivery (t ++ [.sentClient data]) c .relaying := by
  obtain ⟨file, each, fine, whole⟩ := h
  have after : Aftermath [.sentClient data] := Aftermath.cons rfl nofun
  exact ⟨file, Each.aftermath each after, by simp [fine], by simpa [Event.flow] using whole⟩

/-- The last response, once it is in the buffer. -/
theorem Farewell.delivery (bye : Farewell c events c') (h : Delivery t c .failing) (state : c.state = .failing) :
    Delivery (t ++ events) c' c'.state := by
  obtain ⟨concluded, answer⟩ := h
  have ends (lastRef : Bool) (e : Event) (plain : e.exchange = false) (after : e.aftermath = true) :
      Concluded (t ++ e :: c.finishEvents lastRef) c.inClient c.req :=
    concluded.append ((silent_finishEvents c lastRef).untried.cons plain)
      ((aftermath_finishEvents c lastRef).cons after)
  have old (lastRef : Bool) (e : Event) (plain : e.exchange = false) :
      .upstreamSendFailed ∈ t ++ e :: c.finishEvents lastRef → .upstreamSendFailed ∈ t := by
    intro failed
    rcases List.mem_append.mp failed with failed | failed
    · exact failed
    · exact absurd failed ((silent_finishEvents c lastRef).untried.cons plain).not_failed
  cases bye with
  | idle =>
    rw [state, List.append_nil]
    exact ⟨concluded, answer⟩
  | part n more =>
    simp only [state]
    refine ⟨concluded.append (Untried.cons rfl nofun) (Aftermath.cons rfl nofun), fun failed => ?_⟩
    have pending := answer (by simpa using failed)
    simpa [Event.flow, substr_append_drop] using pending
  | last lastRef n whole =>
    refine ⟨ends lastRef _ rfl rfl, fun failed => ?_⟩
    have sent : stream .toClient (t ++ .sentClient (substr c.outClient c.outClientOff n) :: c.finishEvents lastRef) =
        badGateway := by
      rw [← answer (old lastRef _ rfl failed), ← substr_append_drop c.outClient c.outClientOff n,
        List.drop_eq_nil_of_le whole]
      simp [Event.flow, (silent_finishEvents c lastRef).stream]
    exact ⟨by rw [sent], fun _ => sent⟩
  | failed lastRef =>
    refine ⟨ends lastRef _ rfl rfl, fun failed => ⟨?_, fun fine => absurd ?_ fine⟩⟩
    · rw [← answer (old lastRef _ rfl failed)]
      simp [Event.flow, (silent_finishEvents c lastRef).stream]
    · simp

/-- **Every step keeps the delivery in order.** -/
theorem delivery_step {cache cache' : Option LruCache} (phase : Phase cfg c) (balance : Balance t c c.state)
    (h : Delivery t c c.state) (step : Step cfg c cache events c' cache') :
    Delivery (t ++ events) c' c'.state := by
  cases step with
  | idle => simpa using h
  | hangup lastRef want =>
    have r : Reading cfg c := phase.of_want want
    rw [r.state] at h
    exact (Untried.append h ((silent_finishEvents c lastRef).untried.cons rfl)).done _
  | incomplete data want got unparsed more small =>
    have r : Reading cfg c := phase.of_want want
    simp only [r.state] at h ⊢
    exact Untried.append h (Untried.cons rfl nofun)
  | awaiting data req want got ready short =>
    have r : Reading cfg c := phase.of_want want
    simp only [r.state] at h ⊢
    exact Untried.append h (Untried.cons rfl nofun)
  | rejected data response req want got unparsed error =>
    have r : Reading cfg c := phase.of_want want
    rw [r.state] at h
    exact (Untried.append h ((silent_closing c.upstream).untried.cons rfl)).failing _
  | hit data response req stored want got ready enough cacheable on found =>
    have r : Reading cfg c := phase.of_want want
    rw [r.state] at h
    exact (Untried.append h (((silent_closing c.upstream).untried.cons rfl).cons rfl)).failing _
  | forward data key req want got ready enough lookup resolve =>
    have r : Reading cfg c := phase.of_want want
    rw [r.state] at h
    simpa using resolve.delivery r.upstream rfl (Untried.append h (lookup.untried.cons (e := .recvClient data) rfl))
  | unresolved lastRef want job =>
    have r : Resolving cfg c := phase.of_want want
    rw [r.state] at h
    exact (Untried.append h ((silent_releasing lastRef _).append (silent_closing c.upstream)).untried).failing _
  | resolved lastRef endpoints want job dial =>
    have r : Resolving cfg c := phase.of_want want
    rw [r.state] at h
    simpa using dial.delivery r.upstream r.unsent (Untried.append h (silent_releasing lastRef c.resolveJob).untried)
  | refused want state dial =>
    have r := phase.of_connecting want state
    rw [state] at h
    simpa using dial.delivery rfl r.unsent (h.1.append (silent_closing c.upstream).untried)
  | connected want state =>
    have r := phase.of_connecting want state
    rw [state] at h
    obtain ⟨file, at_t⟩ := Option.isSome_iff_exists.mp h.2
    have still : Untried (t ++ [.connected c.upstream]) := h.1.append (Untried.cons rfl nofun)
    refine ⟨file, still.wire _ _, ?_, connected_concat at_t, still.not_failed, ?_⟩
    · rw [fileOf_concat _ fun _ => rfl]
      exact at_t
    · rw [still.sent]
      simp [r.unsent]
  | sendPart n want state bound more =>
    have r := phase.of_sending want state
    simp only [r.state] at h ⊢
    exact h.sent n
  | sendAll n want state bound whole =>
    have r := phase.of_sending want state
    rw [r.state] at h
    obtain ⟨file, each, -, -, fine, sent⟩ := h.sent n
    refine ⟨file, each, fine, ?_⟩
    rw [sent, ← r.loaded.request]
    exact List.take_of_length_le whole
  | sendFailed want state =>
    have r := phase.of_sending want state
    rw [r.state] at h balance
    exact h.sendFailed r.loaded balance
  | recvFailed lastRef want =>
    have r : Waiting cfg c := phase.of_want want
    rw [r.relaying.state] at h
    exact h.ends r.relaying.known.parse ((aftermath_finishEvents c lastRef).cons rfl)
  | eofDone lastRef want store flushed =>
    have r : Waiting cfg c := phase.of_want want
    rw [r.relaying.state] at h
    exact h.ends r.relaying.known.parse (((aftermath_closing c.upstream).append store.aftermath).append
      (aftermath_finishEvents { c with upstream := none } lastRef) |>.cons rfl)
  | eofFlush want store pending =>
    have r : Waiting cfg c := phase.of_want want
    exact absurd pending r.not_pending
  | recv data want got bound =>
    have r : Waiting cfg c := phase.of_want want
    obtain ⟨accum, tooBig, shape⟩ := c.received_eq cfg data
    rw [shape]
    simp only [r.relaying.state] at h ⊢
    obtain ⟨file, each, fine, whole⟩ := h
    refine ⟨file, each.append (each_singleton ?_), by simp [fine], by simpa [Event.flow] using whole⟩
    simpa [Wire] using whole
  | writePart n want bound more =>
    rcases phase.of_want want with r | r
    · simp only [r.relaying.state] at h ⊢
      exact h.flush _
    · rw [r.state] at h
      exact (Farewell.part n more).delivery h r.state
  | writeMore n want bound whole relaying open_ =>
    rcases phase.of_want want with r | r
    · simp only [r.relaying.state] at h ⊢
      exact h.flush _
    · exact absurd r.state relaying
  | writeLast lastRef n want bound whole last =>
    rcases phase.of_want want with r | r
    · rcases last with last | last
      · cases r.relaying.state.symm.trans last
      · cases r.relaying.eof.symm.trans last
    · rw [r.state] at h
      exact (Farewell.last lastRef n whole).delivery h r.state
  | writeFailed lastRef want =>
    rcases phase.of_want want with r | r
    · rw [r.relaying.state] at h
      exact h.ends r.relaying.known.parse ((aftermath_finishEvents c lastRef).cons rfl)
    · rw [r.state] at h
      exact (Farewell.failed lastRef).delivery h r.state
  | again lastRef want =>
    have r : Done c := phase.of_want want
    rw [r.finishEvents lastRef, List.append_nil]
    rw [r.state] at h
    exact h

/-- In every state the history obeys `Wire` for one file. -/
theorem Delivery.each {state : State} (h : Delivery t c state) :
    ∃ file, Each (Wire (rebuilt c.inClient c.req) file) t := by
  have concluded (h : Concluded t c.inClient c.req) : ∃ file, Each (Wire (rebuilt c.inClient c.req) file) t := by
    rcases h with h | ⟨file, each, -⟩
    · exact ⟨0, h.wire _ 0⟩
    · exact ⟨file, each⟩
  cases state with
  | readingRequest => exact ⟨0, Untried.wire h _ 0⟩
  | resolving => exact ⟨0, Untried.wire h _ 0⟩
  | connecting => exact ⟨0, h.1.wire _ 0⟩
  | sendingUpstream =>
    obtain ⟨file, each, -⟩ := h
    exact ⟨file, each⟩
  | relaying =>
    obtain ⟨file, each, -⟩ := h
    exact ⟨file, each⟩
  | failing => exact concluded h.1
  | done => exact concluded h.1

/-- In every state what was sent is the front of the one request. -/
theorem Delivery.front (phase : Phase cfg c) (h : Delivery t c c.state) :
    stream .toUpstream t <+: rebuilt c.inClient c.req ∧
      (stream .toUpstream t ≠ [] → parseRequest c.inClient {} = (.ok, c.req)) := by
  have untried (h : Untried t) : stream .toUpstream t <+: rebuilt c.inClient c.req ∧
      (stream .toUpstream t ≠ [] → parseRequest c.inClient {} = (.ok, c.req)) := by
    rw [h.sent]
    exact ⟨List.nil_prefix, fun some_sent => absurd rfl some_sent⟩
  have concluded (h : Concluded t c.inClient c.req) : stream .toUpstream t <+: rebuilt c.inClient c.req ∧
      (stream .toUpstream t ≠ [] → parseRequest c.inClient {} = (.ok, c.req)) := by
    rcases h with h | ⟨file, each, parse, sub⟩
    · exact untried h
    · exact ⟨sub, fun _ => parse⟩
  have relayed (r : Relaying cfg c) : stream .toUpstream t <+: rebuilt c.inClient c.req ∧
      (stream .toUpstream t ≠ [] → parseRequest c.inClient {} = (.ok, c.req)) := by
    rw [r.state] at h
    obtain ⟨file, each, fine, whole⟩ := h
    exact ⟨by rw [whole], fun _ => r.known.parse⟩
  cases phase with
  | reading r => rw [r.state] at h; exact untried h
  | resolving r => rw [r.state] at h; exact untried h
  | connecting r => rw [r.state] at h; exact untried h.1
  | sending r =>
    rw [r.state] at h
    obtain ⟨file, each, at_t, connected, fine, sent⟩ := h
    refine ⟨?_, fun _ => r.loaded.known.parse⟩
    rw [sent, r.loaded.request]
    exact List.take_prefix _ _
  | waiting r => exact relayed r.relaying
  | flushing r => exact relayed r.relaying
  | failing r => rw [r.state] at h; exact concluded h.1
  | done r => rw [r.state] at h; exact concluded h.1

/-- After a failed write the answer is 502, and only that. -/
theorem Delivery.answer {state : State} (h : Delivery t c state) (failed : .upstreamSendFailed ∈ t) :
    stream .toClient t <+: badGateway ∧
      (state = .failing ∧ stream .toClient t ++ c.outClient.drop c.outClientOff = badGateway ∨
        state = .done ∧ (.clientSendFailed ∉ t → stream .toClient t = badGateway)) := by
  cases state with
  | readingRequest => exact absurd failed (Untried.not_failed h)
  | resolving => exact absurd failed (Untried.not_failed h)
  | connecting => exact absurd failed h.1.not_failed
  | sendingUpstream =>
    obtain ⟨file, each, at_t, connected, fine, sent⟩ := h
    exact absurd failed fine
  | relaying =>
    obtain ⟨file, each, fine, whole⟩ := h
    exact absurd failed fine
  | failing =>
    have whole := h.2 failed
    exact ⟨by rw [← whole]; exact List.prefix_append _ _, Or.inl ⟨rfl, whole⟩⟩
  | done => exact ⟨(h.2 failed).1, Or.inr ⟨rfl, (h.2 failed).2⟩⟩

end Steps

/-- **The request is delivered upstream at most once and in full.** Through any
calls: all bytes go to one file, whose connect was reported before; they are the
front of the one rebuilt request; the response is read only after all of it; and
after a failed write no candidate is tried and the client is answered 502. -/
theorem upstream_delivery (cfg : Config) (client id : Nat) (calls : List Call) :
    let s := (Session.start client id).drive cfg calls
    (∃ file, ∀ past fd data rest, s.trace = past ++ .sentUpstream fd data :: rest →
      fileOf past fd = some file ∧ Connected past file) ∧
    stream .toUpstream s.trace <+: rebuilt s.conn.inClient s.conn.req ∧
    (stream .toUpstream s.trace ≠ [] → parseRequest s.conn.inClient {} = (.ok, s.conn.req)) ∧
    (∀ past data rest, s.trace = past ++ .recvUpstream data :: rest →
      stream .toUpstream past = rebuilt s.conn.inClient s.conn.req) ∧
    ∀ past rest, s.trace = past ++ .upstreamSendFailed :: rest →
      (∀ e ∈ rest, (∀ endpoint, e ≠ .attempt endpoint) ∧ ∀ fd data, e ≠ .sentUpstream fd data) ∧
      stream .toClient s.trace <+: badGateway ∧
      (s.conn.state = .failing ∧
          stream .toClient s.trace ++ s.conn.outClient.drop s.conn.outClientOff = badGateway ∨
        s.conn.state = .done ∧ (.clientSendFailed ∉ s.trace → stream .toClient s.trace = badGateway)) := by
  intro s
  have inv : Accounted cfg s ∧ Delivery s.trace s.conn s.conn.state :=
    Session.drive_invariant
      (P := fun s => Accounted cfg s ∧ Delivery s.trace s.conn s.conn.state)
      (fun h step => ⟨h.1.step step, delivery_step h.1.phase h.1.balance h.2 step⟩)
      ⟨accounted_start cfg client id, fun _ mem => by cases mem⟩ calls
  obtain ⟨accounted, delivery⟩ := inv
  obtain ⟨file, each⟩ := delivery.each
  obtain ⟨front, known⟩ := delivery.front accounted.phase
  refine ⟨⟨file, fun past fd data rest split => ?_⟩, front, known, fun past data rest split => ?_,
    fun past rest split => ⟨?_, ?_⟩⟩
  · obtain ⟨at_past, connected, -⟩ := each past _ rest split
    exact ⟨at_past, connected⟩
  · exact each past _ rest split
  · -- both events would have to come before the failure
    intro e he
    obtain ⟨before, after, shape⟩ := List.append_of_mem he
    have whole : s.trace = (past ++ .upstreamSendFailed :: before) ++ e :: after := by simp [split, shape]
    have owes := each _ e after whole
    refine ⟨fun endpoint is_attempt => ?_, fun fd data is_write => ?_⟩
    · subst is_attempt
      exact absurd (by simp) owes
    · subst is_write
      exact absurd (by simp) owes.2.2
  · exact delivery.answer (by rw [split]; simp)

end EvProxy
