import EvProxy.Http.Framing
import EvProxy.Conn.Buffers
import EvProxy.Conn.CacheUse
import EvProxy.Conn.Fallback
import EvProxy.Conn.Relay

/-!
# Every exchange ends

The machine goes round between reading upstream and writing to the client, and
between connecting and the next candidate, so no counter of its own goes down.
`Limits.measure` does: it prices each phase by all it may still lead to, a byte
still to come from upstream twice, once for its read and once for its delivery.
Every call with a definite outcome lowers it (`measure_call`), and the bound of
`exchange_ends` is its value at the start.
-/

namespace EvProxy
open Text Runs

/-- How much an exchange is given: bytes by the client and by upstream, candidate
addresses, bytes of a cached response. -/
structure Limits where
  client : Nat
  upstream : Nat
  candidates : Nat
  cached : Nat

/-- The world keeps to the limit on candidates, and a write that succeeds takes something. -/
structure Fair (l : Limits) (a : Answers) : Prop where
  lookup : ∀ endpoints, a.lookup = some endpoints → endpoints.length ≤ l.candidates
  start : ∀ endpoints, a.start = .hit endpoints → endpoints.length ≤ l.candidates
  job : a.job.endpoints.length ≤ l.candidates
  accepts : ∀ n, a.send = .accepts n → 0 < n

/-- A history within the limits: both streams are finite, and so is what the cache served. -/
structure Limited (l : Limits) (t : List Event) : Prop where
  client : (stream .fromClient t).length ≤ l.client
  upstream : (stream .fromUpstream t).length ≤ l.upstream
  cached : ∀ key response, .cacheHit key response ∈ t → response.length ≤ l.cached

theorem Limited.front {l : Limits} {t u : List Event} (h : Limited l u) (front : t <+: u) : Limited l t := by
  have fromClient := stream_prefix .fromClient front
  have fromUpstream := stream_prefix .fromUpstream front
  refine ⟨fromClient.length_le.trans h.client, fromUpstream.length_le.trans h.upstream, ?_⟩
  intro key response hit
  exact h.cached key response (front.subset hit)

def Recv.definite : Recv → Bool
  | .wouldBlock => false
  | _ => true

def Send.definite : Send → Bool
  | .wouldBlock => false
  | _ => true

/-- The call comes to something: neither a would-block nor a lookup that is not ready. -/
def Connection.definite (c : Connection) (a : Answers) : Bool :=
  match c.want with
  | .readClient | .readUpstream => a.recv.definite
  | .writeClient => a.send.definite
  | .writeUpstream => c.state = .connecting || a.send.definite
  | .readResolver => a.job.ready
  | .none => true

/-- The calls of a run that come to something. -/
def definiteCalls (cfg : Config) (s : Session) (calls : List Call) : Nat :=
  tally (fun s k => s.conn.definite k.answers) (Session.call cfg) s calls

/-! ## The measure -/

namespace Limits
variable (l : Limits)

/-- The price of the upstream bytes that have not come yet. -/
def toCome (t : List Event) : Nat := 2 * (l.upstream - (stream .fromUpstream t).length)

/-- Room for the error responses of `do_read_client`. -/
def refusalBytes : Nat := badRequest.length + notImplemented.length + payloadTooLarge.length

/-- What is left to do, in calls. -/
def measure (s : Session) : Nat :=
  match s.conn.state with
  | .done => 0
  | .failing => s.conn.outClient.length - s.conn.outClientOff + 1
  | .relaying => l.toCome s.trace + (s.conn.outClient.length - s.conn.outClientOff) + 1
  | .sendingUpstream =>
    s.conn.outUpstream.length - s.conn.outUpstreamOff + l.toCome s.trace + badGateway.length + 2
  | .connecting =>
    s.conn.outUpstream.length + l.toCome s.trace + badGateway.length + (l.candidates - s.conn.endpointIdx) + 3
  | .resolving => s.conn.outUpstream.length + l.toCome s.trace + badGateway.length + l.candidates + 4
  | .readingRequest =>
    l.client - (stream .fromClient s.trace).length + (3 * l.client + 41) + l.toCome s.trace + badGateway.length +
      l.candidates + l.cached + refusalBytes + 5

/-- The bound on the calls of an exchange. -/
def bound : Nat :=
  4 * l.client + 2 * l.upstream + l.candidates + l.cached + refusalBytes + badGateway.length + 46

variable {l}

theorem toCome_append (t events : List Event) : l.toCome (t ++ events) ≤ l.toCome t := by
  simp only [toCome, stream_append, List.length_append]
  omega

theorem measure_finished (c : Connection) (t : List Event) : l.measure ⟨c.finished, t⟩ = 0 := rfl

theorem measure_failed (c : Connection) (response : Bytes) (t : List Event) :
    l.measure ⟨c.failed response, t⟩ = response.length + 1 := rfl

theorem measure_pos {s : Session} (open_ : s.conn.state ≠ .done) : 0 < l.measure s := by
  unfold measure
  split <;> first | omega | contradiction

theorem measure_start (client id : Nat) : l.measure (.start client id) = l.bound := by
  simp only [measure, Session.start, Connection.init, toCome, bound, stream_nil, List.length_nil]
  omega

end Limits

/-! ## Each phase on its own -/

section Phases
variable {l : Limits} {cfg : Config} {a : Answers} {cache cache' : Option LruCache} {c c' : Connection}
  {t events : List Event}

/-- Wherever the candidates lead, it costs less than a lookup. -/
theorem Connect.measure_le (dial : Connect c events c') (t : List Event) :
    l.measure ⟨c', t⟩ ≤ c.outUpstream.length + l.toCome t + badGateway.length + l.candidates + 3 := by
  cases dial with
  | exhausted idx tried =>
    rw [Limits.measure_failed]
    omega
  | connected idx fd endpoint tried =>
    simp only [Limits.measure, Connection.dialled]
    omega
  | inProgress idx fd endpoint tried =>
    simp only [Limits.measure, Connection.dialled]
    omega

theorem Resolve.measure_le (resolve : Resolve c events c') (t : List Event) :
    l.measure ⟨c', t⟩ ≤ c.outUpstream.length + l.toCome t + badGateway.length + l.candidates + 4 := by
  cases resolve with
  | failed =>
    rw [Limits.measure_failed]
    omega
  | pipeFailed =>
    rw [Limits.measure_failed]
    omega
  | pending readEnd writeEnd => simp [Limits.measure, Connection.resolving]
  | connect endpoints dial => exact (dial.measure_le t).trans (Nat.le_succ _)

theorem Rejected.length_le {buf response : Bytes} {old req : Request} (h : Rejected cfg buf old req response) :
    response.length ≤ Limits.refusalBytes := by
  unfold Limits.refusalBytes
  cases h <;> omega

/-- A read of the client that comes to something. -/
theorem Reading.spends (h : Reading cfg c) (fed : c.inClient = stream .fromClient t)
    (step : Step cfg c cache events c' cache') (seen : events ≠ []) (limited : Limited l (t ++ events)) :
    l.measure ⟨c', t ++ events⟩ < l.measure ⟨c, t⟩ := by
  have want := h.want
  have later := Limits.toCome_append (l := l) t events
  have now : stream .fromClient (t ++ events) = c'.inClient := by rw [stream_append, ← fed, ← step.fed]
  have client := limited.client
  rw [now] at client
  obtain ⟨u, all⟩ : ∃ u, t ++ events = u := ⟨_, rfl⟩
  rw [all] at later now limited ⊢
  have size : l.measure ⟨c, t⟩ = l.client - c.inClient.length + (3 * l.client + 41) + l.toCome t + badGateway.length +
      l.candidates + l.cached + Limits.refusalBytes + 5 := by
    simp only [Limits.measure, h.state, fed]
  rw [size]
  -- a byte more is in the buffer, or the request is over
  cases step with
  | idle => exact absurd rfl seen
  | hangup lastRef =>
    rw [Limits.measure_finished]
    omega
  | incomplete data _ got =>
    have some_byte := List.length_pos_iff.mpr got
    simp only [Limits.measure, h.state, now, List.length_append] at client ⊢
    omega
  | awaiting data req _ got =>
    have some_byte := List.length_pos_iff.mpr got
    simp only [Limits.measure, h.state, now, List.length_append] at client ⊢
    omega
  | rejected data response req _ got unparsed error =>
    have short := error.length_le
    rw [Limits.measure_failed]
    omega
  | hit data response req stored =>
    have short := limited.cached (cacheKey req.method req.host req.port req.path) response (by rw [← all]; simp)
    rw [Limits.measure_failed]
    omega
  | forward data key req _ got ready enough lookup resolve =>
    have built := build_length (h.ready ready).1
    have cost := resolve.measure_le (l := l) u
    rw [resolve.kept.1.inClient] at client
    simp only [Connection.accepted] at cost client
    omega
  | _ => simp_all

/-- A read of upstream that comes to something. -/
theorem Waiting.spends (h : Waiting cfg c) (step : Step cfg c cache events c' cache') (seen : events ≠ [])
    (limited : Limited l (t ++ events)) : l.measure ⟨c', t ++ events⟩ < l.measure ⟨c, t⟩ := by
  have want := h.want
  have size : l.measure ⟨c, t⟩ = l.toCome t + 1 := by
    simp [Limits.measure, h.relaying.state, h.flushed.1]
  rw [size]
  cases step with
  | idle => exact absurd rfl seen
  | recvFailed lastRef =>
    rw [Limits.measure_finished]
    omega
  | eofDone lastRef =>
    rw [Limits.measure_finished]
    omega
  | eofFlush _ store pending => exact absurd pending h.not_pending
  | recv data _ got bound =>
    have some_byte := List.length_pos_iff.mpr got
    have upstream := limited.upstream
    obtain ⟨accum, tooBig, shape⟩ := c.received_eq cfg data
    rw [shape]
    simp only [Limits.measure, Limits.toCome, h.relaying.state, h.flushed.1, h.flushed.2, stream_append, stream_cons,
      stream_nil, Event.flow, List.length_append, List.append_nil, List.nil_append] at upstream ⊢
    omega
  | _ => simp_all

/-- A finished lookup. -/
theorem Resolving.spends (h : Resolving cfg c) (step : Step cfg c cache events c' cache') (seen : events ≠ [])
    {u : List Event} (later : l.toCome u ≤ l.toCome t) :
    l.measure ⟨c', u⟩ < l.measure ⟨c, t⟩ := by
  have want := h.want
  have size : l.measure ⟨c, t⟩ = c.outUpstream.length + l.toCome t + badGateway.length + l.candidates + 4 := by
    simp only [Limits.measure, h.state]
  rw [size]
  cases step with
  | idle => exact absurd rfl seen
  | unresolved lastRef =>
    rw [Limits.measure_failed]
    omega
  | resolved lastRef endpoints _ job dial =>
    have cost := dial.measure_le (l := l) u
    simp only [Connection.withEndpoints] at cost
    omega
  | _ => simp_all

/-- What a call with a definite outcome moves on, besides what it shows: the offset
of a partial write, the next candidate. -/
structure Advances (l : Limits) (c c' : Connection) : Prop where
  sends : c.state = .sendingUpstream → c'.state = .sendingUpstream → c.outUpstreamOff < c'.outUpstreamOff
  writes : c.want = .writeClient → c'.want = .writeClient → c.outClientOff < c'.outClientOff
  dials : c.state = .connecting → c'.state = .connecting →
    c.endpointIdx < c'.endpointIdx ∧ c'.endpointIdx ≤ l.candidates

/-- A connect that has succeeded or failed. -/
theorem Connecting.spends (h : Connecting cfg c) (step : Step cfg c cache events c' cache') (seen : events ≠ [])
    {u : List Event} (later : l.toCome u ≤ l.toCome t) (advances : Advances l c c') :
    l.measure ⟨c', u⟩ < l.measure ⟨c, t⟩ := by
  have want := h.want
  have size : l.measure ⟨c, t⟩ =
      c.outUpstream.length + l.toCome t + badGateway.length + (l.candidates - c.endpointIdx) + 3 := by
    simp only [Limits.measure, h.state]
  have dials := advances.dials h.state
  rw [size]
  cases step with
  | idle => exact absurd rfl seen
  | refused _ state dial =>
    cases dial with
    | exhausted idx tried =>
      rw [Limits.measure_failed]
      omega
    | connected idx fd endpoint tried =>
      simp only [Limits.measure, Connection.dialled]
      omega
    | inProgress idx fd endpoint tried =>
      have next := dials rfl
      simp only [Limits.measure, Connection.dialled] at next ⊢
      omega
  | connected _ state =>
    simp only [Limits.measure]
    omega
  | sendPart n _ state => exact absurd h.state state
  | sendAll n _ state => exact absurd h.state state
  | sendFailed _ state => exact absurd h.state state
  | _ => simp_all

/-- A write to upstream that comes to something. -/
theorem Sending.spends (h : Sending cfg c) (step : Step cfg c cache events c' cache') (seen : events ≠ [])
    {u : List Event} (later : l.toCome u ≤ l.toCome t) (advances : Advances l c c') :
    l.measure ⟨c', u⟩ < l.measure ⟨c, t⟩ := by
  have want := h.want
  have unsent := h.unsent
  have size : l.measure ⟨c, t⟩ = c.outUpstream.length - c.outUpstreamOff + l.toCome t + badGateway.length + 2 := by
    simp only [Limits.measure, h.state]
  have sends := advances.sends h.state
  rw [size]
  cases step with
  | idle => exact absurd rfl seen
  | sendPart n _ _ bound more =>
    have moved := sends h.state
    simp only [Limits.measure, h.state] at moved ⊢
    omega
  | sendAll n =>
    simp only [Limits.measure, h.loaded.untouched.outClient, List.length_nil]
    omega
  | sendFailed =>
    rw [Limits.measure_failed]
    omega
  | refused _ state => cases h.state.symm.trans state
  | connected _ state => cases h.state.symm.trans state
  | _ => simp_all

/-- A write to the client that comes to something. -/
theorem Flushing.spends (h : Flushing cfg c) (step : Step cfg c cache events c' cache') (seen : events ≠ [])
    {u : List Event} (later : l.toCome u ≤ l.toCome t) (advances : Advances l c c') :
    l.measure ⟨c', u⟩ < l.measure ⟨c, t⟩ := by
  have want := h.want
  have pending := h.pending
  have state := h.relaying.state
  have size : l.measure ⟨c, t⟩ = l.toCome t + (c.outClient.length - c.outClientOff) + 1 := by
    simp only [Limits.measure, state]
  have writes := advances.writes want
  rw [size]
  cases step with
  | idle => exact absurd rfl seen
  | writePart n _ bound more =>
    have moved := writes want
    simp only [Limits.measure, state] at moved ⊢
    omega
  | writeMore n =>
    simp only [Limits.measure, state, List.length_nil]
    omega
  | writeLast lastRef =>
    rw [Limits.measure_finished]
    omega
  | writeFailed lastRef =>
    rw [Limits.measure_finished]
    omega
  | _ => simp_all

/-- The same for a last response. -/
theorem Failing.spends (h : Failing c) (step : Step cfg c cache events c' cache') (seen : events ≠ [])
    (u : List Event) (advances : Advances l c c') : l.measure ⟨c', u⟩ < l.measure ⟨c, t⟩ := by
  have size : l.measure ⟨c, t⟩ = c.outClient.length - c.outClientOff + 1 := by simp only [Limits.measure, h.state]
  have writes := advances.writes h.want
  rw [size]
  cases h.step step with
  | idle => exact absurd rfl seen
  | part n more =>
    have moved := writes h.want
    simp only [Limits.measure, h.state] at moved ⊢
    omega
  | last lastRef n =>
    rw [Limits.measure_finished]
    omega
  | failed lastRef =>
    rw [Limits.measure_finished]
    omega

end Phases

/-! ## A definite outcome shows something and moves on -/

section Definite
variable {l : Limits} {cfg : Config} {a : Answers} {cache : Option LruCache} {c : Connection}

theorem readSome_definite (definite : a.recv.definite = true) (len : Nat) :
    (readSome len a.recv).1 ≠ .wouldBlock := by
  cases recv : a.recv with
  | bytes available =>
    simp only [readSome]
    split <;> simp
  | wouldBlock => simp [recv, Recv.definite] at definite
  | error => simp [readSome]

theorem doReadClient_seen (definite : a.recv.definite = true) : (doReadClient cfg a ⟨c, cache, []⟩).trace ≠ [] := by
  have some_outcome := readSome_definite definite (chunk cfg)
  cases read : readSome (chunk cfg) a.recv with
  | mk status data =>
    cases status with
    | ok =>
      obtain ⟨rest, whole⟩ := doReadClient_head read c cache
      rw [← whole]
      simp
    | wouldBlock => exact absurd (by rw [read]) some_outcome
    | closed => simp [doReadClient, read, finish_eq, Exec.log]
    | error => simp [doReadClient, read, finish_eq, Exec.log]

theorem doReadUpstream_seen (definite : a.recv.definite = true) :
    (doReadUpstream cfg a ⟨c, cache, []⟩).trace ≠ [] := by
  have some_outcome := readSome_definite definite (chunk cfg)
  cases read : readSome (chunk cfg) a.recv with
  | mk status data =>
    cases status with
    | ok => simp [doReadUpstream, read]
    | wouldBlock => exact absurd (by rw [read]) some_outcome
    | closed =>
      obtain ⟨stored, trace, conn, -⟩ := storeInCache_store
        ⟨{ c with upstreamEof := true, upstream := none }, cache, .upstreamEof :: closing c.upstream⟩
      simp only [doReadUpstream, read, Exec.log, resetUpstream, List.nil_append, List.singleton_append, conn]
      split
      · rw [finish_eq, trace]
        simp
      · rw [trace]
        simp
    | error => simp [doReadUpstream, read, finish_eq, Exec.log]

theorem doWriteUpstream_moves (cache : Option LruCache) (c : Connection) (definite : a.send.definite = true)
    (fair : Fair l a) :
    (doWriteUpstream a ⟨c, cache, []⟩).trace ≠ [] ∧
      ((doWriteUpstream a ⟨c, cache, []⟩).conn.state = .sendingUpstream →
        c.outUpstreamOff < (doWriteUpstream a ⟨c, cache, []⟩).conn.outUpstreamOff) := by
  cases send : a.send with
  | wouldBlock => simp [send, Send.definite] at definite
  | error => simp [doWriteUpstream, send, writeSome, failWith_eq, Exec.log, Connection.failed]
  | accepts n =>
    have some_byte := fair.accepts n send
    simp only [doWriteUpstream, send, writeSome]
    split
    · refine ⟨by simp [Exec.log], fun _ => ?_⟩
      simp only
      omega
    · simp [Exec.log, Connection.setWant]

theorem doWriteClient_moves (cache : Option LruCache) (c : Connection) (definite : a.send.definite = true)
    (fair : Fair l a) :
    (doWriteClient a ⟨c, cache, []⟩).trace ≠ [] ∧
      ((doWriteClient a ⟨c, cache, []⟩).conn.want = .writeClient →
        c.outClientOff < (doWriteClient a ⟨c, cache, []⟩).conn.outClientOff) := by
  cases send : a.send with
  | wouldBlock => simp [send, Send.definite] at definite
  | error => simp [doWriteClient, send, writeSome, finish_eq, Exec.log, Connection.finished]
  | accepts n =>
    have some_byte := fair.accepts n send
    simp only [doWriteClient, send, writeSome]
    split
    · refine ⟨by simp [Exec.log], fun _ => ?_⟩
      simp only
      omega
    · split
      · simp [finish_eq, Exec.log, Connection.finished]
      · simp [Exec.log, Connection.setWant]

/-- A loop that stops at a connect in progress has taken up a candidate. -/
theorem connectLoop_next {rest : List Endpoint} {x : Exec} (state : (connectLoop a rest x).conn.state = .connecting) :
    x.conn.endpointIdx < (connectLoop a rest x).conn.endpointIdx := by
  induction rest generalizing x with
  | nil => simp [connectLoop, failWith_eq, Connection.failed] at state
  | cons endpoint rest ih =>
    rw [connectLoop] at state ⊢
    split at state
    · exact (Nat.lt_succ_self _).trans (ih state)
    · simp [Connection.setWant] at state
    · exact Nat.lt_succ_self _

theorem finishConnect_moves (a : Answers) (cache : Option LruCache) (upstream : c.upstream.isSome)
    (listed : c.endpoints.length ≤ l.candidates) :
    (finishConnect a ⟨c, cache, []⟩).trace ≠ [] ∧
      ((finishConnect a ⟨c, cache, []⟩).conn.state = .connecting →
        c.endpointIdx < (finishConnect a ⟨c, cache, []⟩).conn.endpointIdx ∧
          (finishConnect a ⟨c, cache, []⟩).conn.endpointIdx ≤ l.candidates) := by
  cases answered : a.connectOk with
  | true => simp [finishConnect_succeeds answered]
  | false =>
    obtain ⟨fd, open_⟩ := Option.isSome_iff_exists.mp upstream
    obtain ⟨events, trace, -⟩ := beginConnect_connect a ⟨{ c with upstream := none }, cache, [.closed fd]⟩
    have eq : finishConnect a ⟨c, cache, []⟩ = beginConnect a ⟨{ c with upstream := none }, cache, [.closed fd]⟩ := by
      simp [finishConnect, answered, resetUpstream, closing, open_]
    rw [eq]
    refine ⟨by simp [trace], fun state => ?_⟩
    have next := connectLoop_next state
    have most := (connectLoop_index (a := a) (c.endpoints.drop c.endpointIdx)
      ⟨{ c with upstream := none }, cache, [.closed fd]⟩).2
    simp only [List.length_drop] at most
    simp only [beginConnect] at next ⊢
    omega

theorem finishResolve_seen (job : c.resolveJob.isSome) (ready : a.job.ready = true) :
    (finishResolve a ⟨c, cache, []⟩).trace ≠ [] := by
  have released : releasing a.lastRef c.resolveJob ≠ [] := by
    obtain ⟨j, job⟩ := Option.isSome_iff_exists.mp job
    cases last : a.lastRef <;> simp [releasing, job]
  rcases finishResolve_ready a cache job ready with ⟨-, events, trace, -⟩ | ⟨-, eq⟩
  · simp [trace, released]
  · simp [eq, released]

/-- **A call with a definite outcome** shows something and moves on. -/
theorem Phase.moves (phase : Phase cfg c) (cache : Option LruCache) (live : ¬ Done c)
    (listed : c.endpoints.length ≤ l.candidates) (definite : c.definite a = true) (fair : Fair l a) :
    (onReady cfg a ⟨c, cache, []⟩).trace ≠ [] ∧ Advances l c (onReady cfg a ⟨c, cache, []⟩).conn := by
  cases phase with
  | reading h =>
    simp only [Connection.definite, h.want] at definite
    simp only [onReady, h.want]
    exact ⟨doReadClient_seen definite, by simp [h.state], by simp [h.want], by simp [h.state]⟩
  | resolving h =>
    simp only [Connection.definite, h.want] at definite
    simp only [onReady, h.want]
    exact ⟨finishResolve_seen h.job definite, by simp [h.state], by simp [h.want], by simp [h.state]⟩
  | connecting h =>
    obtain ⟨seen, dials⟩ := finishConnect_moves a cache h.upstream listed
    simp only [onReady, h.want, h.state]
    exact ⟨seen, by simp [h.state], by simp [h.want], fun _ => dials⟩
  | sending h =>
    simp only [Connection.definite, h.want, h.state] at definite
    obtain ⟨seen, sends⟩ := doWriteUpstream_moves cache c (by simpa using definite) fair
    simp only [onReady, h.want, h.state]
    exact ⟨seen, fun _ => sends, by simp [h.want], by simp [h.state]⟩
  | waiting h =>
    simp only [Connection.definite, h.want] at definite
    simp only [onReady, h.want]
    exact ⟨doReadUpstream_seen definite, by simp [h.relaying.state], by simp [h.want], by simp [h.relaying.state]⟩
  | flushing h =>
    simp only [Connection.definite, h.want] at definite
    obtain ⟨seen, writes⟩ := doWriteClient_moves cache c definite fair
    simp only [onReady, h.want]
    exact ⟨seen, by simp [h.relaying.state], fun _ => writes, by simp [h.relaying.state]⟩
  | failing h =>
    simp only [Connection.definite, h.want] at definite
    obtain ⟨seen, writes⟩ := doWriteClient_moves cache c definite fair
    simp only [onReady, h.want]
    exact ⟨seen, by simp [h.state], fun _ => writes, by simp [h.state]⟩
  | done h => exact absurd h live

/-- A call without one changes nothing. -/
theorem onReady_indefinite (indefinite : c.definite a = false) :
    onReady cfg a ⟨c, cache, []⟩ = ⟨c, cache, []⟩ := by
  have recv (blocked : a.recv.definite = false) : a.recv = .wouldBlock := by
    cases recv : a.recv <;> simp [recv, Recv.definite] at blocked ⊢
  have send (blocked : a.send.definite = false) : a.send = .wouldBlock := by
    cases send : a.send <;> simp [send, Send.definite] at blocked ⊢
  unfold Connection.definite at indefinite
  unfold onReady
  split at indefinite <;> rename_i want
  · simp [want, doReadClient, recv indefinite, readSome]
  · simp [want, doReadUpstream, recv indefinite, readSome]
  · simp [want, doWriteClient, send indefinite, writeSome]
  · obtain ⟨state, blocked⟩ := Bool.or_eq_false_iff.mp indefinite
    simp_all [doWriteUpstream, writeSome]
  · simp only [want, finishResolve, indefinite]
    split <;> rfl
  · cases indefinite

end Definite

/-! ## Whole runs -/

/-- What is known between two calls. -/
structure Standing (l : Limits) (cfg : Config) (s : Session) : Prop where
  phase : Phase cfg s.conn
  fed : s.conn.inClient = stream .fromClient s.trace
  listed : s.conn.endpoints.length ≤ l.candidates

section Runs
variable {l : Limits} {cfg : Config} {s : Session} {k : Call}

theorem Connect.endpoints {c c' : Connection} {events : List Event} (dial : Connect c events c') :
    c'.endpoints = c.endpoints := by
  cases dial <;> rfl

theorem LeavesOff.listed {a : Answers} {x y : Exec} (h : LeavesOff cfg a y x) (fair : Fair l a)
    (listed : y.conn.endpoints.length ≤ l.candidates) : x.conn.endpoints.length ≤ l.candidates := by
  cases h with
  | waits => exact listed
  | answers response =>
    rw [failWith_eq]
    exact listed
  | resolves =>
    unfold beginResolve
    split
    · split
      · rw [failWith_eq]
        exact listed
      · rename_i endpoints found
        rw [(connectTo_index a endpoints y).1]
        exact fair.lookup endpoints found
    · split
      · rename_i endpoints hit
        rw [(connectTo_index a endpoints y).1]
        exact fair.start endpoints hit
      · exact listed
      · rw [failWith_eq]
        exact listed
      · rw [failWith_eq]
        exact listed

/-- Outside of a read of the request and of a lookup, the candidates stay the same. -/
theorem Step.endpoints {c c' : Connection} {cache cache' : Option LruCache} {events : List Event}
    (step : Step cfg c cache events c' cache') (read : c.want ≠ .readClient) (resolved : c.want ≠ .readResolver) :
    c'.endpoints = c.endpoints := by
  cases step with
  | forward data key req want => exact absurd want read
  | resolved lastRef endpoints want => exact absurd want resolved
  | refused want state dial => exact dial.endpoints
  | recv data =>
    obtain ⟨accum, tooBig, shape⟩ := c.received_eq cfg data
    rw [shape]
  | _ => rfl

theorem onReady_listed {a : Answers} {cache : Option LruCache} {c : Connection} (fair : Fair l a)
    (listed : c.endpoints.length ≤ l.candidates) :
    (onReady cfg a ⟨c, cache, []⟩).conn.endpoints.length ≤ l.candidates := by
  by_cases read : c.want = .readClient
  · simp only [onReady, read]
    cases got : readSome (chunk cfg) a.recv with
    | mk status data =>
      cases status with
      | ok =>
        obtain ⟨y, off, same, -⟩ := doReadClient_leavesOff got c cache
        exact off.listed fair (same ▸ listed)
      | wouldBlock => simpa only [doReadClient, got] using listed
      | closed =>
        simp only [doReadClient, got, finish_eq]
        exact listed
      | error =>
        simp only [doReadClient, got, finish_eq]
        exact listed
  · by_cases resolver : c.want = .readResolver
    · simp only [onReady, resolver]
      cases job : c.resolveJob with
      | none => simpa only [finishResolve, job] using listed
      | some j =>
        cases ready : a.job.ready with
        | false => simpa [finishResolve, job, ready] using listed
        | true =>
          rcases finishResolve_ready a cache (c := c) (by rw [job]; rfl) ready with
            ⟨-, events, -, -, dial⟩ | ⟨-, eq⟩
          · rw [dial.endpoints]
            exact fair.job
          · rw [eq]
            exact listed
    · rw [(onReady_step cfg a cache c).endpoints read resolver]
      exact listed

theorem Standing.call (h : Standing l cfg s) (fair : Fair l k.answers) : Standing l cfg (s.call cfg k) where
  phase := h.phase.step (onReady_step cfg k.answers k.cache s.conn)
  fed := by
    have fed := (onReady_step cfg k.answers k.cache s.conn).fed
    simp only [Session.call, stream_append, fed, h.fed]
  listed := onReady_listed fair h.listed

theorem standing_drive (client id : Nat) {calls : List Call} (fair : ∀ k ∈ calls, Fair l k.answers) :
    Standing l cfg ((Session.start client id).drive cfg calls) := by
  have legal : Legal (fun _ k => Fair l k.answers) (Session.call cfg) (.start client id) calls :=
    legal_of_splits fun past k rest split => fair k (by rw [split]; simp)
  exact legal.invariant (fun s k h fair => h.call fair) ⟨phase_init cfg client id, rfl, Nat.zero_le _⟩

/-- **Every call with a definite outcome lowers the measure**, and the others leave it. -/
theorem measure_call (h : Standing l cfg s) (fair : Fair l k.answers) (limited : Limited l (s.call cfg k).trace)
    (live : ¬ Done s.conn) :
    l.measure (s.call cfg k) + (s.conn.definite k.answers).toNat ≤ l.measure s := by
  have step := onReady_step cfg k.answers k.cache s.conn
  cases definite : s.conn.definite k.answers with
  | false => simp [Session.call, onReady_indefinite definite]
  | true =>
    obtain ⟨seen, advances⟩ := h.phase.moves k.cache live h.listed definite fair
    have later := Limits.toCome_append (l := l) s.trace (onReady cfg k.answers ⟨s.conn, k.cache, []⟩).trace
    cases h.phase with
    | reading phase => exact phase.spends h.fed step seen limited
    | resolving phase => exact phase.spends step seen later
    | connecting phase => exact phase.spends step seen later advances
    | sending phase => exact phase.spends step seen later advances
    | waiting phase => exact phase.spends step seen limited
    | flushing phase => exact phase.spends step seen later advances
    | failing phase => exact phase.spends step seen _ advances
    | done phase => exact absurd phase live

end Runs

theorem Phase.of_state_done {cfg : Config} {c : Connection} (phase : Phase cfg c) (state : c.state = .done) :
    Done c := by
  cases phase with
  | reading h => cases h.state.symm.trans state
  | resolving h => cases h.state.symm.trans state
  | connecting h => cases h.state.symm.trans state
  | sending h => cases h.state.symm.trans state
  | waiting h => cases h.relaying.state.symm.trans state
  | flushing h => cases h.relaying.state.symm.trans state
  | failing h => cases h.state.symm.trans state
  | done h => exact h

/-- A finished connection stays finished and shows nothing more. -/
theorem Done.drive {cfg : Config} {s : Session} (h : Done s.conn) (calls : List Call) :
    Done (s.drive cfg calls).conn ∧ (s.drive cfg calls).trace = s.trace := by
  apply Session.drive_invariant (P := fun s' => Done s'.conn ∧ s'.trace = s.trace)
  · rintro s' cache cache' events c' ⟨done, same⟩ step
    obtain ⟨rfl, done', -⟩ := done.step step
    exact ⟨done', by simpa using same⟩
  · exact ⟨h, rfl⟩

/-- **Every exchange ends.** If the client and upstream send no more than the limits
say, no lookup gives more candidates, the cache serves nothing longer and a write
that succeeds takes at least a byte, then after `l.bound` calls with a definite
outcome the connection is done and holds nothing any more. Once it is done, no
further call changes that. -/
theorem exchange_ends (cfg : Config) (client id : Nat) (l : Limits) :
    (∀ calls, (∀ k ∈ calls, Fair l k.answers) → Limited l ((Session.start client id).drive cfg calls).trace →
      l.bound ≤ definiteCalls cfg (.start client id) calls → Done ((Session.start client id).drive cfg calls).conn) ∧
    ∀ calls more, ((Session.start client id).drive cfg calls).conn.state = .done →
      Done ((Session.start client id).drive cfg (calls ++ more)).conn := by
  constructor
  · intro calls fair limited enough
    by_contra live
    have spends : Legal (fun s k => ¬ Done s.conn →
        l.measure (s.call cfg k) + (s.conn.definite k.answers).toNat ≤ l.measure s) (Session.call cfg)
        (.start client id) calls := by
      apply legal_of_splits
      intro past k rest split live
      have standing : Standing l cfg ((Session.start client id).drive cfg past) :=
        standing_drive client id fun k mem => fair k (by rw [split]; simp [mem])
      refine measure_call standing (fair k (by rw [split]; simp)) (limited.front ?_) live
      have grows := Session.trace_prefix cfg (((Session.start client id).drive cfg past).call cfg k) rest
      rw [split, Session.drive, run_append, run_cons]
      exact grows
    have stays (s : Session) (k : Call) (done : Done s.conn) : Done (s.call cfg k).conn :=
      (done.step (onReady_step cfg k.answers k.cache s.conn)).2.1
    have paid := tally_le stays spends live
    have left : 0 < l.measure (run (Session.call cfg) (.start client id) calls) :=
      Limits.measure_pos fun done => live ((drive_phase cfg client id calls).of_state_done done)
    rw [Limits.measure_start] at paid
    unfold definiteCalls at enough
    omega
  · intro calls more done
    rw [Session.drive, run_append]
    exact (((drive_phase cfg client id calls).of_state_done done).drive more).1

/-- A request, its response and the end of the stream. -/
def pageCalls : List Call :=
  [⟨{ recv := .bytes (bytes "GET http://h/ HTTP/1.1\r\n\r\n"), start := .hit [⟨[], 0, 0, 0⟩],
      dial := fun _ => .connected 6 }, none⟩,
    ⟨{ send := .accepts 99 }, none⟩,
    ⟨{ recv := .bytes (bytes "HTTP/1.1 200 OK\r\n\r\n") }, none⟩,
    ⟨{ send := .accepts 99 }, none⟩,
    ⟨{ recv := .bytes [] }, none⟩]

/-- The same, and calls that find nothing to do. -/
def patientCalls : List Call := pageCalls ++ List.replicate 700 ⟨{}, none⟩

theorem exchange_ends_page :
    let l : Limits := ⟨26, 19, 1, 0⟩
    l.bound ≤ definiteCalls {} (.start 5 0) patientCalls ∧ Done ((Session.start 5 0).drive {} patientCalls).conn := by
  intro l
  have enough : l.bound ≤ definiteCalls {} (.start 5 0) patientCalls := by decide +kernel
  have trace : ((Session.start 5 0).drive {} patientCalls).trace = ((Session.start 5 0).drive {} pageCalls).trace := by
    have done : Done ((Session.start 5 0).drive {} pageCalls).conn := by constructor <;> decide
    rw [patientCalls, Session.drive, run_append]
    exact (done.drive _).2
  have uncached : Uncached ((Session.start 5 0).drive {} pageCalls).trace := by
    unfold Uncached
    decide
  have limited : Limited l ((Session.start 5 0).drive {} patientCalls).trace := by
    rw [trace]
    exact ⟨by decide, by decide, fun key response hit => absurd hit (uncached.no_hit key response)⟩
  have fair : ∀ k ∈ patientCalls, Fair l k.answers := by
    intro k mem
    rcases List.mem_append.mp mem with early | idle
    · simp only [pageCalls, List.mem_cons, List.not_mem_nil, or_false] at early
      rcases early with rfl | rfl | rfl | rfl | rfl <;> constructor <;> simp [l]
    · rw [(List.mem_replicate.mp idle).2]
      constructor <;> simp
  exact ⟨enough, (exchange_ends {} 5 0 l).1 patientCalls fair limited enough⟩

end EvProxy
