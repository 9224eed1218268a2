import EvProxy.Conn.Buffers
import EvProxy.Proxy.Credentials
import EvProxy.Proxy.Provenance

/-!
# Request bodies and the cache

Neither `cacheable_request` nor `cache_key` looks at the body of a request, but
the body goes upstream. A GET with a body is stored under the same key as the
GET without one (`body_shared`). What does hold is that a hit comes from an
exchange for the same target; so as long as the cacheable requests for one
target carry one body, the exchange behind a hit carried the body of the client
that is served (`bodies_apart`).
-/

namespace EvProxy
open Text Runs

/-- The body of the request, as it goes upstream. -/
def Connection.body (c : Connection) : Bytes := substr c.inClient c.req.headerBytes c.req.contentLength

/-- The whole request is in, and it is one the cache is asked for. -/
structure Sharable (cfg : Config) (c : Connection) : Prop where
  parse : parseRequest c.inClient {} = (.ok, c.req)
  enough : sizeAdd c.req.headerBytes c.req.contentLength ≤ c.inClient.length
  cacheable : cacheableRequest cfg c.req = true

/-! ## A response is read when the request is complete -/

/-- An upstream stream ends only for a request that is complete. -/
structure Ended (cfg : Config) (s : Session) : Prop where
  accounted : Accounted cfg s
  whole : .upstreamEof ∈ s.trace → sizeAdd s.conn.req.headerBytes s.conn.req.contentLength ≤ s.conn.inClient.length

section Steps
variable {cfg : Config} {c c' : Connection} {cache cache' : Option LruCache} {events : List Event}

/-- The end of the stream is met when it is read. -/
theorem Step.eof_read (step : Step cfg c cache events c' cache') (eof : .upstreamEof ∈ events) :
    c.want = .readUpstream := by
  have closed := (silent_closing c.upstream).not_mem (e := .upstreamEof) rfl
  have finished (lastRef : Bool) := (silent_finishEvents c lastRef).not_mem (e := .upstreamEof) rfl
  have released (lastRef : Bool) := (silent_releasing lastRef c.resolveJob).not_mem (e := .upstreamEof) rfl
  cases step with
  | forward data key req want got ready enough lookup resolve =>
    have resolved := resolve.silent.not_mem (e := .upstreamEof) rfl
    simp [lookup.mute.eof, resolved] at eof
  | resolved lastRef endpoints want job dial =>
    have dialled := dial.silent.not_mem (e := .upstreamEof) rfl
    simp [released, dialled] at eof
  | refused want state dial =>
    have dialled := dial.silent.not_mem (e := .upstreamEof) rfl
    simp [closed, dialled] at eof
  | eofDone lastRef want => exact want
  | eofFlush want => exact want
  | _ => simp [closed, finished, released] at eof

theorem Ended.step {s : Session} (h : Ended cfg s) (step : Step cfg s.conn cache events c' cache') :
    Ended cfg ⟨c', s.trace ++ events⟩ where
  accounted := h.accounted.step step
  whole := by
    intro eof
    -- either way the request has been read, so it stays what it is
    rcases List.mem_append.mp eof with old | new
    · have read : s.conn.want ≠ .readClient := by
        intro reading
        have r : Reading cfg s.conn := h.accounted.phase.of_want reading
        have mute := h.accounted.balance
        rw [r.state] at mute
        exact mute.eof old
      rw [step.keeps_req read, step.unfed read]
      exact h.whole old
    · have want := step.eof_read new
      have read : s.conn.want ≠ .readClient := by simp [want]
      have waiting : Waiting cfg s.conn := h.accounted.phase.of_want want
      rw [step.keeps_req read, step.unfed read]
      exact waiting.relaying.known.enough

theorem ended_start (cfg : Config) (client id : Nat) : Ended cfg (.start client id) :=
  ⟨accounted_start cfg client id, fun eof => absurd eof List.not_mem_nil⟩

/-- The cache answers a request that is complete. -/
theorem Step.hit_whole (step : Step cfg c cache events c' cache') (want : c.want = .readClient) {k response : Bytes}
    (hit : .cacheHit k response ∈ events) :
    sizeAdd c'.req.headerBytes c'.req.contentLength ≤ c'.inClient.length := by
  have closed := (silent_closing c.upstream).not_mem (e := .cacheHit k response) rfl
  have finished (lastRef : Bool) := (silent_finishEvents c lastRef).not_mem (e := .cacheHit k response) rfl
  cases step with
  | hit data response req stored _ got ready enough => exact enough
  | hangup lastRef => simp [finished] at hit
  | forward data key req _ got ready enough lookup resolve =>
    have resolved := resolve.silent.not_mem (e := .cacheHit k response) rfl
    cases lookup <;> simp [resolved] at hit
  | _ => simp_all

end Steps

/-! ## The exchange behind a hit -/

namespace Proxy

/-- Sharable requests for one target carry one body. -/
def OneBody (cfg : Config) (p : Proxy) : Prop :=
  ∀ key e key' e', p.entries key = some e → p.entries key' = some e' → Sharable cfg e.session.conn →
    Sharable cfg e'.session.conn → SameTarget e.session.conn.req e'.session.conn.req →
    e.session.conn.body = e'.session.conn.body

/-- The end of a stream in an entry's history, destroyed or not. -/
structure Closed (cfg : Config) (e : Entry) : Prop where
  ended : e.alive = true → Ended cfg e.session
  whole : .upstreamEof ∈ e.session.trace →
    sizeAdd e.session.conn.req.headerBytes e.session.conn.req.contentLength ≤ e.session.conn.inClient.length

theorem closed_run (cfg : Config) (opened : Finset Nat) (moves : List Move) :
    ∀ key e, (run (next cfg) (start cfg opened) moves).entries key = some e → Closed cfg e := by
  apply run_invariant (P := fun p : Proxy => ∀ key e, p.entries key = some e → Closed cfg e)
  · intro p m all
    refine entry_invariant (fun client id => ⟨fun _ => ended_start cfg client id, (ended_start cfg client id).whole⟩)
      (fun h step => ⟨fun _ => (h.ended rfl).step step, ((h.ended rfl).step step).whole⟩) ?_ all (next_moved cfg p m)
    intro s lastRef h
    refine ⟨by simp, fun eof => h.whole ?_⟩
    have quiet := (silent_finishEvents s.conn lastRef).not_mem (e := .upstreamEof) rfl
    simpa [Session.destroy, quiet] using eof
  · intro key e here
    cases here

end Proxy

/-- **Bodies and the cache.** In every run in which the complete cacheable requests
for one target carry one body, a response served from the cache was produced for
a request with the body of the client it is served to. -/
theorem bodies_apart (cfg : Config) (opened : Finset Nat) (moves : List Move) (key : Nat) (s : Session) (a : Answers)
    (k response : Bytes) :
    let p := run (Proxy.next cfg) (.start cfg opened) moves
    let x := onReady cfg a ⟨s.conn, p.cache, []⟩
    p.entries key = some ⟨s, true⟩ → .cacheHit k response ∈ x.trace → (p.next cfg (.ready key a)).OneBody cfg →
    (∃ key' e, key' ≠ key ∧ p.entries key' = some e ∧ Complete cfg e.session k response) ∧
    ∀ key' e, p.entries key' = some e → Complete cfg e.session k response → e.session.conn.body = x.conn.body := by
  intro p x here hit one
  have prov : Proxy.Provenance cfg p := Proxy.provenance_run cfg opened moves
  have step : Step cfg s.conn p.cache x.trace x.conn x.cache := onReady_step cfg a p.cache s.conn
  obtain ⟨mem, want, reply, data, buf, ready, cacheable, rfl⟩ := step.cacheUse.of_hit prov.cacheWf hit
  have reading : Reading cfg s.conn := (prov.exchange key s here).accounted.phase.of_want want
  have parse : parseRequest x.conn.inClient {} = (.ok, x.conn.req) := by
    rw [buf]
    exact (reading.ready ready).1
  have sharable : Sharable cfg x.conn := ⟨parse, step.hit_whole want hit, cacheable⟩
  have apart {key' : Nat} {e : Entry} (there : p.entries key' = some e)
      (complete : Complete cfg e.session x.conn.req.cacheKey response) : key' ≠ key := by
    -- the one served is still reading its request, the other is done
    rintro rfl
    obtain rfl := Option.some.inj (there.symm.trans here)
    cases reading.state.symm.trans complete.done.state
  have next : p.next cfg (.ready key a) = p.update key ⟨⟨x.conn, s.trace ++ x.trace⟩, true⟩ x.cache x.trace := by
    simp only [Proxy.next, here]
    rfl
  rw [next] at one
  constructor
  · obtain ⟨key', e, there, complete⟩ := prov.stored _ mem
    exact ⟨key', e, apart there complete, there, complete⟩
  · intro key' e there complete
    obtain ⟨method, host, port, path⟩ := cacheKey_inj complete.parse parse complete.key.symm
    have whole := (Proxy.closed_run cfg opened moves key' e there).whole complete.ended
    exact one key' e key ⟨⟨x.conn, s.trace ++ x.trace⟩, true⟩
      ((Proxy.update_other (apart there complete)).trans there) Proxy.update_self
      ⟨complete.parse, whole, complete.cacheable⟩ sharable ⟨method, host, port, path⟩

/-- One client fetches a page with a GET that has a body, a second one connects. -/
def bodyMoves : List Move :=
  exchange 0 5 6 (bytes "GET http://h/ HTTP/1.1\r\nContent-Length: 1\r\n\r\nx") (bytes "HTTP/1.1 200 OK\r\n\r\nx") ++
    [.accept 1 5 1]

/-- The second client sends the same request. -/
def sameBody : Answers := { recv := .bytes (bytes "GET http://h/ HTTP/1.1\r\nContent-Length: 1\r\n\r\nx") }

/-- The second client sends it without the body. -/
def noBody : Answers := { recv := .bytes (bytes "GET http://h/ HTTP/1.1\r\n\r\n") }

theorem bodies_apart_same :
    let p := run (Proxy.next {}) (.start {} ∅) bodyMoves
    (∃ key' e, key' ≠ 1 ∧ p.entries key' = some e ∧
      Complete {} e.session (bytes "GET h:80/") (bytes "HTTP/1.1 200 OK\r\n\r\nx")) ∧
    ∀ key' e, p.entries key' = some e →
      Complete {} e.session (bytes "GET h:80/") (bytes "HTTP/1.1 200 OK\r\n\r\nx") →
      e.session.conn.body = (onReady {} sameBody ⟨.init 5 1, p.cache, []⟩).conn.body := by
  intro p
  have body : ∀ key e, (p.next {} (.ready 1 sameBody)).entries key = some e → e.session.conn.body = bytes "x" := by
    intro key e here
    match key with
    | 0 =>
      obtain rfl := Option.some.inj here
      decide
    | 1 =>
      obtain rfl := Option.some.inj here
      decide
    | _ + 2 => cases here
  have one : (p.next {} (.ready 1 sameBody)).OneBody {} := fun key e key' e' here here' _ _ _ =>
    (body key e here).trans (body key' e' here').symm
  exact bodies_apart {} ∅ bodyMoves 1 (.start 5 1) sameBody _ _ rfl (by decide) one

/-- The response to the GET with a body is stored, and served to the client that sent none. -/
theorem body_shared :
    let p := run (Proxy.next {}) (.start {} ∅) (bodyMoves ++ [.ready 1 noBody])
    (p.entries 0).any (fun e => decide (e.session.conn.body = bytes "x") &&
      decide (bytes "\r\n\r\nx" <:+ stream .toUpstream e.session.trace) &&
      decide (.cachePut (bytes "GET h:80/") (bytes "HTTP/1.1 200 OK\r\n\r\nx") ∈ e.session.trace)) = true ∧
    (p.entries 1).any (fun e => decide (e.session.conn.body = []) &&
      decide (.cacheHit (bytes "GET h:80/") (bytes "HTTP/1.1 200 OK\r\n\r\nx") ∈ e.session.trace)) = true := by
  decide +kernel

end EvProxy
