import EvProxy.Http.Accepted
import EvProxy.Conn.Phase

/-!
# How much a connection buffers

The limits are checked at different moments: the header limit only while the
request is incomplete, the body limit when it is parsed, the cache limit before
each append. Each check lets one read more through. `Within` is what survives
every call, and `buffers_bounded` the bound that follows, whatever the client and
the origin send and however slowly the client reads.
-/

namespace EvProxy
open Text Runs

/-! ## What a call takes in -/

section Steps
variable {cfg : Config} {c c' : Connection} {events : List Event} {cache cache' : Option LruCache}

theorem Lookup.fed {req : Request} {key : Bytes} {looked : List Event}
    (lookup : Lookup cfg c req cache key looked cache') : stream .fromClient looked = [] := by
  cases lookup <;> rfl

theorem Store.fed {stored : List Event} (store : Store c cache stored cache') : stream .fromClient stored = [] := by
  cases store <;> rfl

/-- The buffer grows by what the client sent, and by nothing else. -/
theorem Step.fed (step : Step cfg c cache events c' cache') :
    c'.inClient = c.inClient ++ stream .fromClient events := by
  have closed := (silent_closing c.upstream).stream .fromClient
  have finished (lastRef : Bool) := (silent_finishEvents c lastRef).stream .fromClient
  have released (lastRef : Bool) := (silent_releasing lastRef c.resolveJob).stream .fromClient
  cases step with
  | rejected => simp [Event.flow, closed, Connection.failed]
  | hit => simp [Event.flow, closed, Connection.failed, Connection.accepted]
  | forward data key req want got ready enough lookup resolve =>
    rw [resolve.kept.1.inClient]
    simp [Event.flow, lookup.fed, resolve.silent.stream, Connection.accepted]
  | unresolved => simp [closed, released, Connection.failed]
  | resolved lastRef endpoints want job dial =>
    rw [dial.kept.1.inClient]
    simp [released, dial.silent.stream, Connection.withEndpoints]
  | refused want state dial =>
    rw [dial.kept.1.inClient]
    simp [closed, dial.silent.stream]
  | eofDone lastRef want store =>
    have rest := (silent_finishEvents { c with upstream := none } lastRef).stream .fromClient
    simp [Event.flow, closed, store.fed, rest, Connection.finished]
  | eofFlush want store => simp [Event.flow, closed, store.fed]
  | recv data =>
    obtain ⟨accum, tooBig, shape⟩ := c.received_eq cfg data
    simp [shape, Event.flow]
  | sendFailed => simp [Event.flow, closed, Connection.failed]
  | hangup => simp [Event.flow, finished, Connection.finished]
  | recvFailed => simp [Event.flow, finished, Connection.finished]
  | writeLast => simp [Event.flow, finished, Connection.finished]
  | writeFailed => simp [Event.flow, finished, Connection.finished]
  | again => simp [finished, Connection.finished]
  | _ => simp [Event.flow]

/-- Without a read of the client, nothing comes from it. -/
theorem Step.unfed (step : Step cfg c cache events c' cache') (elsewhere : c.want ≠ .readClient) :
    c'.inClient = c.inClient := by
  cases step with
  | forward data key req want => exact absurd want elsewhere
  | resolved lastRef endpoints want job dial => exact dial.kept.1.inClient
  | refused want state dial => exact dial.kept.1.inClient
  | recv data =>
    obtain ⟨accum, tooBig, shape⟩ := c.received_eq cfg data
    rw [shape]
  | incomplete data want => exact absurd want elsewhere
  | awaiting data req want => exact absurd want elsewhere
  | rejected data response req want => exact absurd want elsewhere
  | hit data response req stored want => exact absurd want elsewhere
  | _ => rfl

/-- A call reads the client once. -/
theorem Step.one_read (step : Step cfg c cache events c' cache') (want : c.want = .readClient) {data : Bytes}
    (read : [.recvClient data] <+: events) : stream .fromClient events = data := by
  have closed := (silent_closing c.upstream).stream .fromClient
  cases step with
  | incomplete taken => simp_all [Event.flow]
  | awaiting taken => simp_all [Event.flow]
  | rejected taken => simp_all [Event.flow]
  | hit taken => simp_all [Event.flow]
  | forward taken key req _ got ready enough lookup resolve =>
    have same : data = taken := by simpa using read
    simp [Event.flow, lookup.fed, resolve.silent.stream, same]
  | _ => simp_all

/-- One call takes in at most one buffer. -/
theorem onReady_chunk (cfg : Config) (a : Answers) (cache : Option LruCache) (c : Connection) :
    (stream .fromClient (onReady cfg a ⟨c, cache, []⟩).trace).length ≤ chunk cfg := by
  have step := onReady_step cfg a cache c
  by_cases want : c.want = .readClient
  · cases read : readSome (chunk cfg) a.recv with
    | mk status data =>
      cases status with
      | ok =>
        have head : [.recvClient data] <+: (onReady cfg a ⟨c, cache, []⟩).trace := by
          simp only [onReady, want]
          exact doReadClient_head read c cache
        rw [step.one_read want head]
        exact (readSome_ok read).2
      | wouldBlock => simp [onReady, want, doReadClient, read]
      | closed =>
        simp [onReady, want, doReadClient, read, finish_eq, Exec.log, Event.flow, (silent_finishEvents _ _).stream]
      | error =>
        simp [onReady, want, doReadClient, read, finish_eq, Exec.log, Event.flow, (silent_finishEvents _ _).stream]
  · have same := step.fed
    rw [step.unfed want, List.self_eq_append_right] at same
    rw [same]
    exact Nat.zero_le _

end Steps

/-! ## The bounds -/

/-- The limits a connection keeps, each with the slack of the reads that can pass
before its check. -/
structure Within (cfg : Config) (c : Connection) : Prop where
  unparsed : c.want = .readClient → c.parsed = false → c.inClient.length ≤ cfg.maxHeaderBytes
  header : c.want = .readClient → c.parsed = true → c.req.headerBytes ≤ cfg.maxHeaderBytes + chunk cfg
  inClient : c.inClient.length ≤ cfg.maxHeaderBytes + cfg.maxBodyBytes + 2 * chunk cfg
  outClient : c.state = .relaying → c.outClient.length ≤ chunk cfg
  accum : c.cacheAccum.length ≤ cfg.cacheMaxEntryBytes

theorem within_init (cfg : Config) (client id : Nat) : Within cfg (.init client id) :=
  ⟨fun _ _ => Nat.zero_le _, by rintro - ⟨⟩, Nat.zero_le _, by rintro ⟨⟩, Nat.zero_le _⟩

section Bounds
variable {cfg : Config} {c c' : Connection} {events : List Event} {cache cache' : Option LruCache}

theorem sizeAdd_le (m n : Nat) : sizeAdd m n ≤ m + n := Nat.mod_le _ _

/-- Before a read, the buffer leaves room for one more. -/
theorem Within.room (h : Within cfg c) (reading : Reading cfg c) :
    c.inClient.length ≤ cfg.maxHeaderBytes + cfg.maxBodyBytes + chunk cfg := by
  cases parsed : c.parsed with
  | false =>
    have early := h.unparsed reading.want parsed
    omega
  | true =>
    obtain ⟨-, small, short⟩ := reading.parsed parsed
    have header := h.header reading.want parsed
    have sum := sizeAdd_le c.req.headerBytes c.req.contentLength
    omega

/-- The header of a request in hand ends within one read of the limit. -/
theorem Within.ready (h : Within cfg c) (reading : Reading cfg c) {data : Bytes} {req : Request}
    (ready : Ready cfg c (c.inClient ++ data) req) (bound : data.length ≤ chunk cfg) :
    req.headerBytes ≤ cfg.maxHeaderBytes + chunk cfg := by
  cases ready with
  | before parsed => exact h.header reading.want parsed
  | now req unparsed ok small =>
    rw [(reading.unparsed unparsed).1] at ok
    have inside := headerBytes_le ok
    have early := h.unparsed reading.want unparsed
    rw [List.length_append] at inside
    omega

theorem accumulate_length (cfg : Config) (data : Bytes) (c : Connection)
    (small : c.cacheAccum.length ≤ cfg.cacheMaxEntryBytes) :
    (accumulate cfg data c).cacheAccum.length ≤ cfg.cacheMaxEntryBytes := by
  unfold accumulate
  split
  · split
    · exact Nat.zero_le _
    · rename_i fits
      simpa using fits
  · exact small

theorem Connect.not_relaying (dial : Connect c events c') : c'.state ≠ .relaying := by
  cases dial <;> simp [Connection.failed, Connection.dialled]

theorem Resolve.not_relaying (resolve : Resolve c events c') : c'.state ≠ .relaying := by
  cases resolve with
  | connect endpoints dial => exact dial.not_relaying
  | _ => simp [Connection.failed, Connection.resolving]

/-- While relaying, the buffer to the client holds one read at most: the next one
is made when it is empty. -/
theorem Within.relayed (h : Within cfg c) (phase : Phase cfg c) (step : Step cfg c cache events c' cache')
    (relaying : c'.state = .relaying) : c'.outClient.length ≤ chunk cfg := by
  cases step with
  | idle => exact h.outClient relaying
  | incomplete data want => exact h.outClient relaying
  | awaiting data req want => exact h.outClient relaying
  | forward data key req want got ready enough lookup resolve => exact absurd relaying resolve.not_relaying
  | resolved lastRef endpoints want job dial => exact absurd relaying dial.not_relaying
  | refused want state dial => exact absurd relaying dial.not_relaying
  | sendPart n want => exact h.outClient relaying
  | sendAll n want state =>
    have sending := phase.of_sending want state
    simp [sending.loaded.untouched.outClient]
  | eofFlush => exact h.outClient relaying
  | recv data want got bound =>
    have waiting : Waiting cfg c := phase.of_want want
    obtain ⟨accum, tooBig, shape⟩ := c.received_eq cfg data
    simpa [shape, waiting.flushed.1] using bound
  | writePart => exact h.outClient relaying
  | writeMore => exact Nat.zero_le _
  | _ => simp [Connection.failed, Connection.finished] at relaying

theorem Within.accumulated (h : Within cfg c) (step : Step cfg c cache events c' cache') :
    c'.cacheAccum.length ≤ cfg.cacheMaxEntryBytes := by
  cases step with
  | forward data key req want got ready enough lookup resolve => exact resolve.kept.1.accum ▸ h.accum
  | resolved lastRef endpoints want job dial => exact dial.kept.1.accum ▸ h.accum
  | refused want state dial => exact dial.kept.1.accum ▸ h.accum
  | recv data => exact accumulate_length cfg data c h.accum
  | _ => exact h.accum

/-- A connection that goes on reading had nothing to read, or still waits for the
header block or for the body. -/
theorem Step.reads_on (step : Step cfg c cache events c' cache') (want' : c'.want = .readClient) :
    events = [] ∧ c' = c ∨
    (∃ data, events = [.recvClient data] ∧ (c.inClient ++ data).length ≤ cfg.maxHeaderBytes ∧
      c' = { c with inClient := c.inClient ++ data }) ∨
    (∃ data req, events = [.recvClient data] ∧ Ready cfg c (c.inClient ++ data) req ∧
      c' = { c with inClient := c.inClient ++ data, req := req, parsed := true }) := by
  cases step with
  | idle => exact Or.inl ⟨rfl, rfl⟩
  | incomplete data want got unparsed more small => exact Or.inr (Or.inl ⟨data, rfl, small, rfl⟩)
  | awaiting data req want got ready short => exact Or.inr (Or.inr ⟨data, req, rfl, ready, rfl⟩)
  | forward data key req want got ready enough lookup resolve => exact absurd want' resolve.kept.2
  | resolved lastRef endpoints want job dial => exact absurd want' dial.kept.2
  | refused want state dial => exact absurd want' dial.kept.2
  | _ => simp_all [Connection.failed, Connection.finished, Connection.received]

/-- **The bounds are kept by every step** that takes in at most one buffer. -/
theorem Within.step (h : Within cfg c) (phase : Phase cfg c) (step : Step cfg c cache events c' cache')
    (bound : (stream .fromClient events).length ≤ chunk cfg) : Within cfg c' where
  outClient := h.relayed phase step
  accum := h.accumulated step
  inClient := by
    by_cases want : c.want = .readClient
    · have room := h.room (phase.of_want want)
      rw [step.fed, List.length_append]
      omega
    · rw [step.unfed want]
      exact h.inClient
  unparsed := by
    intro want' unparsed'
    rcases step.reads_on want' with ⟨-, rfl⟩ | ⟨data, -, small, rfl⟩ | ⟨data, req, -, -, rfl⟩
    · exact h.unparsed want' unparsed'
    · exact small
    · cases unparsed'
  header := by
    intro want' parsed'
    rcases step.reads_on want' with ⟨-, rfl⟩ | ⟨data, -, -, rfl⟩ | ⟨data, req, rfl, ready, rfl⟩
    · exact h.header want' parsed'
    · exact h.header want' parsed'
    · rw [stream_cons, stream_nil, List.append_nil] at bound
      exact h.ready (phase.of_want want') ready bound

end Bounds

theorem drive_within (cfg : Config) (client id : Nat) (calls : List Call) :
    Within cfg ((Session.start client id).drive cfg calls).conn := by
  have both : Phase cfg ((Session.start client id).drive cfg calls).conn ∧
      Within cfg ((Session.start client id).drive cfg calls).conn := by
    apply run_invariant (P := fun s : Session => Phase cfg s.conn ∧ Within cfg s.conn)
    · intro s k ⟨phase, within⟩
      have step := onReady_step cfg k.answers k.cache s.conn
      exact ⟨phase.step step, within.step phase step (onReady_chunk cfg k.answers k.cache s.conn)⟩
    · exact ⟨phase_init cfg client id, within_init cfg client id⟩
  exact both.2

/-- **Buffering is bounded.** Whatever the client and the origin send, in every
state a connection can reach: the request buffer is bounded by both limits and
two reads, the buffer to the client by one read while relaying, the accumulator
by the cache's limit on an entry. -/
theorem buffers_bounded (cfg : Config) (client id : Nat) (calls : List Call) :
    let c := ((Session.start client id).drive cfg calls).conn
    c.inClient.length ≤ cfg.maxHeaderBytes + cfg.maxBodyBytes + 2 * min cfg.ioChunkBytes 65536 ∧
    (c.state = .relaying → c.outClient.length ≤ min cfg.ioChunkBytes 65536) ∧
    c.cacheAccum.length ≤ cfg.cacheMaxEntryBytes := by
  have within := drive_within cfg client id calls
  exact ⟨within.inClient, within.outClient, within.accum⟩

end EvProxy
