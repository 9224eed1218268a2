import EvProxy.Conn.Session

/-!
# The phases of a connection

Seven states, six intents, two sockets, a resolver job and two buffers with
offsets agree between any two calls of `on_ready()`: `Phase` lists the
combinations that occur, one structure for each, and `Phase.step` shows that no
branch of a handler leaves the list. It needs no assumption about the kernel,
the resolver or the cache.
-/

namespace EvProxy
open Text

/-- The request the proxy works on: what `buf` parses to, within the limit, with
its whole body in `buf`. The key is set only for a cacheable request. -/
structure Known (cfg : Config) (buf : Bytes) (req : Request) (key : Bytes) : Prop where
  parse : parseRequest buf {} = (.ok, req)
  small : req.contentLength ≤ cfg.maxBodyBytes
  enough : sizeAdd req.headerBytes req.contentLength ≤ buf.length
  key : key = [] ∨ cacheableRequest cfg req = true ∧ key = cacheKey req.method req.host req.port req.path

/-- The request as it goes upstream. -/
def rebuilt (buf : Bytes) (req : Request) : Bytes :=
  buildUpstreamRequest req (substr buf req.headerBytes req.contentLength)

/-- The response side of a connection that has received nothing yet. -/
structure Untouched (outClient : Bytes) (off : Nat) (eof : Bool) (accum : Bytes) (tooBig : Bool) : Prop where
  outClient : outClient = []
  off : off = 0
  eof : eof = false
  accum : accum = []
  small : tooBig = false

/-- Reading the request. -/
structure Reading (cfg : Config) (c : Connection) : Prop where
  state : c.state = .readingRequest
  want : c.want = .readClient
  client : c.client.isSome
  upstream : c.upstream = none
  job : c.resolveJob = none
  untouched : Untouched c.outClient c.outClientOff c.upstreamEof c.cacheAccum c.cacheTooBig
  unsent : c.outUpstream = [] ∧ c.outUpstreamOff = 0
  key : c.cacheKey = []
  unparsed : c.parsed = false → c.req = {} ∧ find [cr, lf, cr, lf] c.inClient = none
  parsed : c.parsed = true → parseRequest c.inClient {} = (.ok, c.req) ∧
    c.req.contentLength ≤ cfg.maxBodyBytes ∧ c.inClient.length < sizeAdd c.req.headerBytes c.req.contentLength

/-- The request is rebuilt; from `off` on it has not been sent. -/
structure Loaded (cfg : Config) (c : Connection) : Prop where
  client : c.client.isSome
  untouched : Untouched c.outClient c.outClientOff c.upstreamEof c.cacheAccum c.cacheTooBig
  parsed : c.parsed = true
  known : Known cfg c.inClient c.req c.cacheKey
  request : c.outUpstream = rebuilt c.inClient c.req

/-- Waiting for the resolver. -/
structure Resolving (cfg : Config) (c : Connection) : Prop where
  state : c.state = .resolving
  want : c.want = .readResolver
  upstream : c.upstream = none
  job : c.resolveJob.isSome
  unsent : c.outUpstreamOff = 0
  loaded : Loaded cfg c

/-- Waiting for a connect to complete. -/
structure Connecting (cfg : Config) (c : Connection) : Prop where
  state : c.state = .connecting
  want : c.want = .writeUpstream
  upstream : c.upstream.isSome
  job : c.resolveJob = none
  unsent : c.outUpstreamOff = 0
  loaded : Loaded cfg c

/-- Sending the request. -/
structure Sending (cfg : Config) (c : Connection) : Prop where
  state : c.state = .sendingUpstream
  want : c.want = .writeUpstream
  upstream : c.upstream.isSome
  job : c.resolveJob = none
  unsent : c.outUpstreamOff < c.outUpstream.length
  loaded : Loaded cfg c

/-- Between the two sockets, in either direction. -/
structure Relaying (cfg : Config) (c : Connection) : Prop where
  state : c.state = .relaying
  client : c.client.isSome
  upstream : c.upstream.isSome
  job : c.resolveJob = none
  eof : c.upstreamEof = false
  parsed : c.parsed = true
  known : Known cfg c.inClient c.req c.cacheKey
  sent : c.outUpstream = [] ∧ c.outUpstreamOff = 0

/-- Waiting for the origin, with everything received so far delivered. -/
structure Waiting (cfg : Config) (c : Connection) : Prop where
  want : c.want = .readUpstream
  relaying : Relaying cfg c
  flushed : c.outClient = [] ∧ c.outClientOff = 0

/-- Reading upstream, everything received has been delivered. -/
theorem Waiting.not_pending {cfg : Config} {c : Connection} (h : Waiting cfg c) :
    ¬ c.outClientOff < c.outClient.length := by
  rw [h.flushed.1]
  exact Nat.not_lt_zero _

/-- Delivering to the client. -/
structure Flushing (cfg : Config) (c : Connection) : Prop where
  want : c.want = .writeClient
  relaying : Relaying cfg c
  pending : c.outClientOff < c.outClient.length

/-- Sending an error or a cached response instead. -/
structure Failing (c : Connection) : Prop where
  state : c.state = .failing
  want : c.want = .writeClient
  client : c.client.isSome
  upstream : c.upstream = none
  job : c.resolveJob = none
  eof : c.upstreamEof = false
  off : c.outClientOff = 0 ∨ c.outClientOff < c.outClient.length

/-- Finished, with nothing left open. -/
structure Done (c : Connection) : Prop where
  state : c.state = .done
  want : c.want = .none
  client : c.client = none
  upstream : c.upstream = none
  job : c.resolveJob = none

/-- Where a connection can be between two calls. -/
inductive Phase (cfg : Config) (c : Connection) : Prop where
  | reading (h : Reading cfg c)
  | resolving (h : Resolving cfg c)
  | connecting (h : Connecting cfg c)
  | sending (h : Sending cfg c)
  | waiting (h : Waiting cfg c)
  | flushing (h : Flushing cfg c)
  | failing (h : Failing c)
  | done (h : Done c)

/-- The phases that can hold an intent. -/
def Intent (cfg : Config) (c : Connection) : Want → Prop
  | .readClient => Reading cfg c
  | .readResolver => Resolving cfg c
  | .writeUpstream => Connecting cfg c ∨ Sending cfg c
  | .readUpstream => Waiting cfg c
  | .writeClient => Flushing cfg c ∨ Failing c
  | .none => Done c

namespace Phase
variable {cfg : Config} {c c' : Connection}

/-- The intent alone tells the phase, up to the two meanings of each write. -/
theorem intent (phase : Phase cfg c) : Intent cfg c c.want := by
  cases phase with
  | reading h => rw [h.want]; exact h
  | resolving h => rw [h.want]; exact h
  | connecting h => rw [h.want]; exact Or.inl h
  | sending h => rw [h.want]; exact Or.inr h
  | waiting h => rw [h.want]; exact h
  | flushing h => rw [h.want]; exact Or.inl h
  | failing h => rw [h.want]; exact Or.inr h
  | done h => rw [h.want]; exact h

theorem of_want (phase : Phase cfg c) {w : Want} (want : c.want = w) : Intent cfg c w := want ▸ phase.intent

theorem of_connecting (phase : Phase cfg c) (want : c.want = .writeUpstream) (state : c.state = .connecting) :
    Connecting cfg c := by
  rcases phase.of_want want with h | h
  · exact h
  · cases h.state.symm.trans state

theorem of_sending (phase : Phase cfg c) (want : c.want = .writeUpstream) (state : c.state ≠ .connecting) :
    Sending cfg c := by
  rcases phase.of_want want with h | h
  · exact absurd h.state state
  · exact h

end Phase

/-! ## Every step leads to a phase -/

theorem phase_init (cfg : Config) (client id : Nat) : Phase cfg (.init client id) :=
  .reading ⟨rfl, rfl, rfl, rfl, rfl, ⟨rfl, rfl, rfl, rfl, rfl⟩, ⟨rfl, rfl⟩, rfl,
    fun _ => ⟨rfl, rfl⟩, fun h => by cases h⟩

section Steps
variable {cfg : Config} {c c' : Connection} {events : List Event}

/-- The request in hand is what the whole buffer parses to. -/
theorem Reading.ready (h : Reading cfg c) {data : Bytes} {req : Request}
    (ready : Ready cfg c (c.inClient ++ data) req) :
    parseRequest (c.inClient ++ data) {} = (.ok, req) ∧ req.contentLength ≤ cfg.maxBodyBytes := by
  cases ready with
  | before parsed =>
    obtain ⟨parse, small, -⟩ := h.parsed parsed
    cases blank : find [cr, lf, cr, lf] c.inClient with
    | none =>
      rw [parseRequest_incomplete blank] at parse
      cases congrArg Prod.fst parse
    | some stop => exact ⟨(parseRequest_append {} data blank).trans parse, small⟩
  | now req unparsed ok small =>
    rw [(h.unparsed unparsed).1] at ok
    exact ⟨ok, small⟩

/-- `fail_with` leads to the failing phase from wherever the client is still there. -/
theorem failing_failed (response : Bytes) (client : c.client.isSome) (job : c.resolveJob = none)
    (eof : c.upstreamEof = false) : Failing (c.failed response) :=
  ⟨rfl, rfl, client, rfl, job, eof, Or.inl rfl⟩

theorem done_finished (c : Connection) : Done c.finished := ⟨rfl, rfl, rfl, rfl, rfl⟩

theorem Connect.phase (dial : Connect c events c') (h : Loaded cfg c) (job : c.resolveJob = none)
    (unsent : c.outUpstreamOff = 0) : Phase cfg c' := by
  have load : ∀ state fd idx, Loaded cfg (c.dialled state fd idx) := fun _ _ _ =>
    ⟨h.client, h.untouched, h.parsed, h.known, h.request⟩
  cases dial with
  | exhausted idx tried => exact .failing (failing_failed _ h.client job h.untouched.eof)
  | connected idx fd endpoint tried =>
    have nonempty : 0 < (c.dialled .sendingUpstream fd idx).outUpstream.length := by
      rw [(load _ fd idx).request, List.length_pos_iff]
      exact buildUpstreamRequest_ne_nil _ _
    exact .sending ⟨rfl, rfl, rfl, job, unsent.trans_lt nonempty, load _ fd idx⟩
  | inProgress idx fd endpoint tried => exact .connecting ⟨rfl, rfl, rfl, job, unsent, load _ fd idx⟩

theorem Resolve.phase (resolve : Resolve c events c') (h : Loaded cfg c) (upstream : c.upstream = none)
    (job : c.resolveJob = none) (unsent : c.outUpstreamOff = 0) : Phase cfg c' := by
  have fail : Phase cfg (c.failed badGateway) := .failing (failing_failed _ h.client job h.untouched.eof)
  cases resolve with
  | failed => exact fail
  | pipeFailed => exact fail
  | pending readEnd writeEnd =>
    exact .resolving ⟨rfl, rfl, upstream, rfl, unsent, ⟨h.client, h.untouched, h.parsed, h.known, h.request⟩⟩
  | connect endpoints dial =>
    exact dial.phase ⟨h.client, h.untouched, h.parsed, h.known, h.request⟩ job unsent

/-- The key the lookup leaves. -/
theorem Lookup.key {req : Request} {cache cache' : Option LruCache} {key : Bytes} {looked : List Event}
    (lookup : Lookup cfg c req cache key looked cache') (none_yet : c.cacheKey = []) :
    key = [] ∨ cacheableRequest cfg req = true ∧ key = cacheKey req.method req.host req.port req.path := by
  cases lookup with
  | off => exact Or.inl none_yet
  | skipped => exact Or.inl none_yet
  | missed cache cacheable absent => exact Or.inr ⟨cacheable, rfl⟩

/-- A read from upstream touches only the response side. -/
theorem Connection.received_eq (c : Connection) (cfg : Config) (data : Bytes) : ∃ accum tooBig,
    c.received cfg data = { c with
      outClient := c.outClient ++ data, want := .writeClient, epoch := c.epoch + 1
      cacheAccum := accum, cacheTooBig := tooBig } := by
  unfold Connection.received accumulate
  split
  · split <;> exact ⟨_, _, rfl⟩
  · exact ⟨_, _, rfl⟩

/-- The request side and the cache side of the exchange are as they were. -/
structure Kept (c c' : Connection) : Prop where
  inClient : c'.inClient = c.inClient
  req : c'.req = c.req
  outUpstream : c'.outUpstream = c.outUpstream
  cacheKey : c'.cacheKey = c.cacheKey
  accum : c'.cacheAccum = c.cacheAccum
  tooBig : c'.cacheTooBig = c.cacheTooBig

/-- Resolving and connecting only move the connection on. -/
theorem Connect.kept (dial : Connect c events c') : Kept c c' ∧ c'.want ≠ .readClient := by
  cases dial <;> exact ⟨⟨rfl, rfl, rfl, rfl, rfl, rfl⟩, nofun⟩

theorem Resolve.kept (resolve : Resolve c events c') : Kept c c' ∧ c'.want ≠ .readClient := by
  cases resolve with
  | failed => exact ⟨⟨rfl, rfl, rfl, rfl, rfl, rfl⟩, nofun⟩
  | pipeFailed => exact ⟨⟨rfl, rfl, rfl, rfl, rfl, rfl⟩, nofun⟩
  | pending => exact ⟨⟨rfl, rfl, rfl, rfl, rfl, rfl⟩, nofun⟩
  | connect endpoints dial =>
    obtain ⟨k, moved⟩ := dial.kept
    exact ⟨⟨k.inClient, k.req, k.outUpstream, k.cacheKey, k.accum, k.tooBig⟩, moved⟩

/-- **Phases are closed under every step.** -/
theorem Phase.step {cache cache' : Option LruCache} (phase : Phase cfg c)
    (step : Step cfg c cache events c' cache') : Phase cfg c' := by
  cases step with
  | idle => exact phase
  | hangup => exact .done (done_finished _)
  | incomplete data want got unparsed more small =>
    have h : Reading cfg c := phase.of_want want
    exact .reading ⟨h.state, h.want, h.client, h.upstream, h.job, h.untouched, h.unsent, h.key,
      fun _ => ⟨(h.unparsed unparsed).1, more⟩, fun parsed => by cases unparsed.symm.trans parsed⟩
  | awaiting data req want got ready short =>
    have h : Reading cfg c := phase.of_want want
    obtain ⟨parse, small⟩ := h.ready ready
    exact .reading ⟨h.state, h.want, h.client, h.upstream, h.job, h.untouched, h.unsent, h.key,
      nofun, fun _ => ⟨parse, small, short⟩⟩
  | rejected data response req want got unparsed error =>
    have h : Reading cfg c := phase.of_want want
    exact .failing (failing_failed _ h.client h.job h.untouched.eof)
  | hit data response req stored want got ready enough cacheable on found =>
    have h : Reading cfg c := phase.of_want want
    exact .failing (failing_failed _ h.client h.job h.untouched.eof)
  | forward data key req want got ready enough lookup resolve =>
    have h : Reading cfg c := phase.of_want want
    obtain ⟨parse, small⟩ := h.ready ready
    have loaded : Loaded cfg (c.accepted (c.inClient ++ data) req key) :=
      ⟨h.client, h.untouched, rfl, ⟨parse, small, enough, lookup.key h.key⟩, rfl⟩
    exact resolve.phase loaded h.upstream h.job rfl
  | unresolved lastRef want job =>
    have h : Resolving cfg c := phase.of_want want
    exact .failing (failing_failed _ h.loaded.client rfl h.loaded.untouched.eof)
  | resolved lastRef endpoints want job dial =>
    have h : Resolving cfg c := phase.of_want want
    have l := h.loaded
    exact dial.phase ⟨l.client, l.untouched, l.parsed, l.known, l.request⟩ rfl h.unsent
  | refused want state dial =>
    have h := phase.of_connecting want state
    have l := h.loaded
    exact dial.phase ⟨l.client, l.untouched, l.parsed, l.known, l.request⟩ h.job h.unsent
  | connected want state =>
    have h := phase.of_connecting want state
    have l := h.loaded
    have nonempty : 0 < c.outUpstream.length := by
      rw [l.request, List.length_pos_iff]
      exact buildUpstreamRequest_ne_nil _ _
    exact .sending ⟨rfl, rfl, h.upstream, h.job, h.unsent.trans_lt nonempty,
      ⟨l.client, l.untouched, l.parsed, l.known, l.request⟩⟩
  | sendPart n want state bound more =>
    have h := phase.of_sending want state
    have l := h.loaded
    exact .sending ⟨h.state, h.want, h.upstream, h.job, more,
      ⟨l.client, l.untouched, l.parsed, l.known, l.request⟩⟩
  | sendAll n want state bound whole =>
    have h := phase.of_sending want state
    have l := h.loaded
    exact .waiting ⟨rfl, ⟨rfl, l.client, h.upstream, h.job, l.untouched.eof, l.parsed, l.known, rfl, rfl⟩,
      l.untouched.outClient, l.untouched.off⟩
  | sendFailed want state =>
    have h := phase.of_sending want state
    exact .failing (failing_failed _ h.loaded.client h.job h.loaded.untouched.eof)
  | recvFailed => exact .done (done_finished _)
  | eofDone => exact .done (done_finished _)
  | eofFlush want store pending =>
    have h : Waiting cfg c := phase.of_want want
    exact absurd pending h.not_pending
  | recv data want got bound =>
    have h : Waiting cfg c := phase.of_want want
    have r := h.relaying
    obtain ⟨accum, tooBig, shape⟩ := c.received_eq cfg data
    rw [shape]
    refine .flushing ⟨rfl, ⟨r.state, r.client, r.upstream, r.job, r.eof, r.parsed, r.known, r.sent⟩, ?_⟩
    simp only [h.flushed, List.nil_append]
    exact List.length_pos_iff.mpr got
  | writePart n want bound more =>
    rcases phase.of_want want with h | h
    · have r := h.relaying
      exact .flushing ⟨h.want, ⟨r.state, r.client, r.upstream, r.job, r.eof, r.parsed, r.known, r.sent⟩, more⟩
    · exact .failing ⟨h.state, h.want, h.client, h.upstream, h.job, h.eof, Or.inr more⟩
  | writeMore n want bound whole relaying open_ =>
    rcases phase.of_want want with h | h
    · have r := h.relaying
      exact .waiting ⟨rfl, ⟨r.state, r.client, r.upstream, r.job, r.eof, r.parsed, r.known, r.sent⟩, rfl, rfl⟩
    · exact absurd h.state relaying
  | writeLast => exact .done (done_finished _)
  | writeFailed => exact .done (done_finished _)
  | again => exact .done (done_finished _)

/-- What a connection can still do once its last response is in the buffer. -/
inductive Farewell (c : Connection) : List Event → Connection → Prop where
  | idle : Farewell c [] c
  | part (n : Nat) (more : c.outClientOff + n < c.outClient.length) :
      Farewell c [.sentClient (substr c.outClient c.outClientOff n)]
        { c with outClientOff := c.outClientOff + n }
  | last (lastRef : Bool) (n : Nat) (whole : c.outClient.length ≤ c.outClientOff + n) :
      Farewell c (.sentClient (substr c.outClient c.outClientOff n) :: c.finishEvents lastRef)
        { c with outClient := [], outClientOff := 0 }.finished
  | failed (lastRef : Bool) : Farewell c (.clientSendFailed :: c.finishEvents lastRef) c.finished

theorem Failing.step {cache cache' : Option LruCache} (h : Failing c)
    (step : Step cfg c cache events c' cache') : Farewell c events c' := by
  have want := h.want
  cases step with
  | idle => exact .idle
  | writePart n _ bound more => exact .part n more
  | writeMore n _ bound whole relaying => exact absurd h.state relaying
  | writeLast lastRef n _ bound whole => exact .last lastRef n whole
  | writeFailed lastRef => exact .failed lastRef
  | _ => simp_all

theorem Done.finishEvents (h : Done c) (lastRef : Bool) : c.finishEvents lastRef = [] := by
  rw [Connection.finishEvents, h.job, h.upstream, h.client]
  rfl

/-- A finished connection does nothing more. -/
theorem Done.step {cache cache' : Option LruCache} (h : Done c) (step : Step cfg c cache events c' cache') :
    events = [] ∧ Done c' ∧ cache' = cache ∧ (c' = c ∨ c' = c.finished) := by
  have want := h.want
  cases step with
  | idle => exact ⟨rfl, h, rfl, Or.inl rfl⟩
  | again lastRef => exact ⟨h.finishEvents lastRef, done_finished c, rfl, Or.inr rfl⟩
  | _ => simp_all

end Steps

/-- Every connection is in a phase after any calls. -/
theorem drive_phase (cfg : Config) (client id : Nat) (calls : List Call) :
    Phase cfg ((Session.start client id).drive cfg calls).conn :=
  Session.drive_invariant (P := fun s => Phase cfg s.conn) (fun phase step => phase.step step)
    (phase_init cfg client id) calls

end EvProxy
