import EvProxy.Http.Accepted
import EvProxy.Conn.Relay
import EvProxy.Proxy.System

/-!
# Where cached responses come from

Everything in the cache is the whole upstream stream of an exchange that is over:
the stream ended cleanly, it was delivered in full to that exchange's client, and
the exchange was for the very request the key spells. The proof follows the
accumulator beside the relay buffer (`Exchange`), what the store at EOF leaves
behind (`Complete`), and the cache through any interleaving (`Provenance`).
-/

namespace EvProxy
open Text Runs Ledger

/-! ## The key -/

/-- `cache_key` is injective on what the parser accepts: the method has no space,
the authority no slash, the port no colon. -/
theorem cacheKey_inj {buf buf' : Bytes} {r r' : Request} (ok : parseRequest buf {} = (.ok, r))
    (ok' : parseRequest buf' {} = (.ok, r')) (same : r.cacheKey = r'.cacheKey) :
    r.method = r'.method ∧ r.host = r'.host ∧ r.port = r'.port ∧ r.path = r'.path := by
  obtain ⟨_, _, _, _, h⟩ := parseRequest_ok ok
  obtain ⟨_, _, _, _, h'⟩ := parseRequest_ok ok'
  obtain ⟨rest, path⟩ := h.target.path_slash
  obtain ⟨rest', path'⟩ := h'.target.path_slash
  have authority {q : Request} (host : slash ∉ q.host) (digits : allDigits q.port = true) :
      slash ∉ q.host ++ colon :: q.port := by
    simp only [List.mem_append, List.mem_cons, not_or]
    exact ⟨host, by decide, not_mem_of_allDigits digits (by decide)⟩
  have shape (q : Request) {p : Bytes} (path : q.path = slash :: p) :
      q.cacheKey = q.method ++ space :: ((q.host ++ colon :: q.port) ++ slash :: p) := by
    have sp : bytes " " = [space] := by decide
    have co : bytes ":" = [colon] := by decide
    simp [Request.cacheKey, cacheKey, sp, co, path]
  rw [shape r path, shape r' path'] at same
  obtain ⟨method, tail⟩ := append_cons_inj h.method_space h'.method_space same
  obtain ⟨auth, below⟩ := append_cons_inj (authority h.target.host_slash h.target.port_digits)
    (authority h'.target.host_slash h'.target.port_digits) tail
  obtain ⟨host, port⟩ := authority_inj h.target.port_digits h'.target.port_digits auth
  exact ⟨method, host, port, by rw [path, path', below]⟩

/-! ## One exchange -/

/-- An event that ends an exchange badly. -/
def Event.failure : Event → Bool
  | .clientGone | .clientSendFailed | .upstreamRecvFailed | .upstreamSendFailed => true
  | _ => false

def Unfailed (t : List Event) : Prop := ∀ e ∈ t, e.failure = false

theorem Unfailed.append {t u : List Event} (ht : Unfailed t) (hu : Unfailed u) : Unfailed (t ++ u) :=
  List.forall_mem_append.mpr ⟨ht, hu⟩

theorem Unfailed.cons {e : Event} {t : List Event} (he : e.failure = false) (ht : Unfailed t) : Unfailed (e :: t) :=
  List.forall_mem_cons.mpr ⟨he, ht⟩

theorem Silent.unfailed {t : List Event} (silent : Silent t) : Unfailed t := by
  intro e he
  have quiet := silent e he
  cases e <;> first | rfl | cases quiet

/-- The accumulator holds what upstream has sent, as long as it is small enough. -/
def Accumulated (cfg : Config) (t : List Event) (c : Connection) : Prop :=
  c.cacheKey ≠ [] → c.cacheTooBig = false →
    c.cacheAccum = stream .fromUpstream t ∧ c.cacheAccum.length ≤ cfg.cacheMaxEntryBytes

/-- What is known of a session while it lasts. -/
structure Exchange (cfg : Config) (s : Session) : Prop where
  accounted : Accounted cfg s
  accum : Accumulated cfg s.trace s.conn
  unfailed : s.conn.state ≠ .failing → s.conn.state ≠ .done → Unfailed s.trace

section Steps
variable {cfg : Config} {c c' : Connection} {t events : List Event} {cache cache' : Option LruCache}

theorem Accumulated.kept (h : Accumulated cfg t c) (key : c'.cacheKey = c.cacheKey)
    (accum : c'.cacheAccum = c.cacheAccum) (tooBig : c'.cacheTooBig = c.cacheTooBig)
    (quiet : stream .fromUpstream events = []) :
    Accumulated cfg (t ++ events) c' := by
  intro some_key small
  rw [key] at some_key
  rw [tooBig] at small
  rw [accum, stream_append, quiet, List.append_nil]
  exact h some_key small

/-- Before anything came from upstream the accumulator is rightly empty. -/
theorem Mute.accumulated (mute : Mute t) (accum : c.cacheAccum = []) : Accumulated cfg t c := by
  intro _ _
  rw [accum, mute.got]
  exact ⟨rfl, Nat.zero_le _⟩

/-- A read goes into the accumulator or latches it. -/
theorem Accumulated.received (h : Accumulated cfg t c) (data : Bytes) :
    Accumulated cfg (t ++ [.recvUpstream data]) (c.received cfg data) := by
  have grown : stream .fromUpstream (t ++ [.recvUpstream data]) = stream .fromUpstream t ++ data := by
    simp [Event.flow]
  unfold Connection.received accumulate
  split
  · rename_i collecting
    split
    · exact fun _ small => by cases small
    · rename_i fits
      intro some_key small
      obtain ⟨same, -⟩ := h some_key small
      simp only [grown, ← same, List.length_append]
      exact ⟨trivial, by omega⟩
  · rename_i idle
    intro some_key small
    exact absurd ⟨some_key, by simpa using small⟩ idle

/-- **The accumulator follows the upstream stream.** -/
theorem Accumulated.step (accounted : Accounted cfg ⟨c, t⟩) (h : Accumulated cfg t c)
    (step : Step cfg c cache events c' cache') : Accumulated cfg (t ++ events) c' := by
  have after := balance_step accounted.phase accounted.balance step
  cases step with
  | idle => exact h.kept rfl rfl rfl rfl
  | hangup lastRef => exact h.kept rfl rfl rfl (by simp [Event.flow, (silent_finishEvents c lastRef).stream])
  | incomplete => exact h.kept rfl rfl rfl rfl
  | awaiting => exact h.kept rfl rfl rfl rfl
  | rejected => exact h.kept rfl rfl rfl (by simp [Event.flow, (silent_closing c.upstream).stream])
  | hit data response req stored want =>
    -- the key is new, but nothing has come from upstream
    have r : Reading cfg c := accounted.phase.of_want want
    intro _ _
    exact ⟨r.untouched.accum.trans after.2.1.symm, by simp [Connection.failed, Connection.accepted, r.untouched.accum]⟩
  | forward data key req want got ready enough lookup resolve =>
    have r : Reading cfg c := accounted.phase.of_want want
    have mute := accounted.balance
    simp only [r.state] at mute
    have quiet := Mute.append mute ((lookup.mute.append resolve.silent.mute).read data)
    exact quiet.accumulated (resolve.kept.1.accum.trans r.untouched.accum)
  | unresolved lastRef =>
    exact h.kept rfl rfl rfl
      (by simp [(silent_releasing lastRef c.resolveJob).stream, (silent_closing c.upstream).stream])
  | resolved lastRef endpoints want job dial =>
    obtain ⟨k, -⟩ := dial.kept
    exact h.kept k.cacheKey k.accum k.tooBig
      (by simp [(silent_releasing lastRef c.resolveJob).stream, dial.silent.stream])
  | refused want state dial =>
    obtain ⟨k, -⟩ := dial.kept
    exact h.kept k.cacheKey k.accum k.tooBig (by simp [(silent_closing c.upstream).stream, dial.silent.stream])
  | connected => exact h.kept rfl rfl rfl rfl
  | sendPart => exact h.kept rfl rfl rfl rfl
  | sendAll => exact h.kept rfl rfl rfl rfl
  | sendFailed => exact h.kept rfl rfl rfl (by simp [Event.flow, (silent_closing c.upstream).stream])
  | recvFailed lastRef => exact h.kept rfl rfl rfl (by simp [Event.flow, (silent_finishEvents c lastRef).stream])
  | eofDone lastRef want store flushed =>
    exact h.kept rfl rfl rfl (by simp [Event.flow, (silent_closing c.upstream).stream, store.mute.got,
      (silent_finishEvents { c with upstream := none } lastRef).stream])
  | eofFlush want store pending =>
    exact h.kept rfl rfl rfl (by simp [Event.flow, (silent_closing c.upstream).stream, store.mute.got])
  | recv data => exact h.received data
  | writePart => exact h.kept rfl rfl rfl rfl
  | writeMore => exact h.kept rfl rfl rfl rfl
  | writeLast lastRef => exact h.kept rfl rfl rfl (by simp [Event.flow, (silent_finishEvents c lastRef).stream])
  | writeFailed lastRef => exact h.kept rfl rfl rfl (by simp [Event.flow, (silent_finishEvents c lastRef).stream])
  | again lastRef => exact h.kept rfl rfl rfl (by simp [(silent_finishEvents c lastRef).stream])

theorem Lookup.unfailed {req : Request} {key : Bytes} {looked : List Event}
    (lookup : Lookup cfg c req cache key looked cache') : Unfailed looked := by
  cases lookup <;> simp [Unfailed, Event.failure]

theorem Store.unfailed {stored : List Event} (store : Store c cache stored cache') : Unfailed stored := by
  cases store <;> simp [Unfailed, Event.failure]

/-- A step that neither fails nor finishes shows no failure. -/
theorem Step.unfailed (step : Step cfg c cache events c' cache') (live : c'.state ≠ .failing)
    (unfinished : c'.state ≠ .done) : Unfailed events := by
  have one {e : Event} (fine : e.failure = false) : Unfailed [e] := .cons fine nofun
  cases step with
  | idle => exact nofun
  | hangup => exact absurd rfl unfinished
  | incomplete => exact one rfl
  | awaiting => exact one rfl
  | rejected => exact absurd rfl live
  | hit => exact absurd rfl live
  | forward data key req want got ready enough lookup resolve =>
    exact (lookup.unfailed.append resolve.silent.unfailed).cons rfl
  | unresolved => exact absurd rfl live
  | resolved lastRef endpoints want job dial => exact (silent_releasing _ _).unfailed.append dial.silent.unfailed
  | refused want state dial => exact (silent_closing _).unfailed.append dial.silent.unfailed
  | connected => exact one rfl
  | sendPart => exact one rfl
  | sendAll => exact one rfl
  | sendFailed => exact absurd rfl live
  | recvFailed => exact absurd rfl unfinished
  | eofDone => exact absurd rfl unfinished
  | eofFlush want store pending => exact ((silent_closing _).unfailed.append store.unfailed).cons rfl
  | recv => exact one rfl
  | writePart => exact one rfl
  | writeMore => exact one rfl
  | writeLast => exact absurd rfl unfinished
  | writeFailed => exact absurd rfl unfinished
  | again => exact absurd rfl unfinished

theorem exchange_start (cfg : Config) (client id : Nat) : Exchange cfg (.start client id) :=
  ⟨accounted_start cfg client id, fun some_key => absurd rfl some_key, fun _ _ => nofun⟩

theorem Exchange.step {s : Session} (h : Exchange cfg s) (step : Step cfg s.conn cache events c' cache') :
    Exchange cfg ⟨c', s.trace ++ events⟩ where
  accounted := h.accounted.step step
  accum := h.accum.step h.accounted step
  unfailed := by
    intro live unfinished
    have before : ¬ (s.conn.state = .failing ∨ s.conn.state = .done) := fun settled => by
      rcases (silent_after h.accounted.phase settled step).1 with failing | done
      · exact live failing
      · exact unfinished done
    rw [not_or] at before
    exact (h.unfailed before.1 before.2).append (step.unfailed live unfinished)

/-! ## What a store leaves behind -/

/-- A session that is over, whose whole upstream stream is `response`: the stream
ended cleanly, nothing failed, the client has all of it, and the request was a
cacheable one with this key. -/
structure Complete (cfg : Config) (s : Session) (key response : Bytes) : Prop where
  done : Done s.conn
  ended : .upstreamEof ∈ s.trace
  unfailed : Unfailed s.trace
  whole : stream .fromUpstream s.trace = response
  delivered : stream .toClient s.trace = response
  parse : parseRequest s.conn.inClient {} = (.ok, s.conn.req)
  cacheable : cacheableRequest cfg s.conn.req = true
  key : key = s.conn.req.cacheKey
  storable : storable response = true
  small : response.length ≤ cfg.cacheMaxEntryBytes

variable {s : Session} {key response : Bytes}

theorem Complete.step (h : Complete cfg s key response) (step : Step cfg s.conn cache events c' cache') :
    Complete cfg ⟨c', s.trace ++ events⟩ key response := by
  obtain ⟨rfl, done, -, rfl | rfl⟩ := h.done.step step
  · rw [List.append_nil]
    exact h
  · rw [List.append_nil]
    exact ⟨done, h.ended, h.unfailed, h.whole, h.delivered, h.parse, h.cacheable, h.key, h.storable, h.small⟩

theorem Complete.destroy (h : Complete cfg s key response) (lastRef : Bool) :
    Complete cfg (s.destroy lastRef) key response := by
  rw [done_destroy h.done]
  exact h

/-- **Only a complete exchange is stored.** -/
theorem Exchange.put (h : Exchange cfg s) (step : Step cfg s.conn cache events c' cache')
    (put : .cachePut key response ∈ events) : Complete cfg ⟨c', s.trace ++ events⟩ key response := by
  obtain ⟨want, rfl, rfl, some_key, small, ok⟩ := step.cacheUse.of_put put
  have w : Waiting cfg s.conn := h.accounted.phase.of_want want
  have r := w.relaying
  obtain ⟨accum, fits⟩ := h.accum some_key small
  have balance := h.accounted.balance
  rw [r.state] at balance
  have whole : stream .toClient s.trace = stream .fromUpstream s.trace := by simpa [w.flushed.1] using balance.1
  obtain ⟨cacheable, key⟩ := r.known.key.resolve_left some_key
  cases step with
  | eofDone lastRef want store flushed =>
    have tail := ((silent_closing s.conn.upstream).mute.append store.mute).append
      (silent_finishEvents { s.conn with upstream := none } lastRef).mute
    have fine := ((silent_closing s.conn.upstream).unfailed.append store.unfailed).append
      (silent_finishEvents { s.conn with upstream := none } lastRef).unfailed
    have unfailed := h.unfailed (by rw [r.state]; nofun) (by rw [r.state]; nofun)
    refine ⟨done_finished _, by simp, unfailed.append (fine.cons rfl), ?_, ?_, r.known.parse, cacheable, key, ok, fits⟩
    · rw [stream_append, stream_cons, tail.got, accum]
      simp [Event.flow]
    · rw [stream_append, stream_cons, tail.sent, whole, accum]
      simp [Event.flow]
  | eofFlush _ store pending => exact absurd pending w.not_pending
  | recvFailed lastRef =>
    simp [(silent_finishEvents s.conn lastRef).uncached.no_put] at put
  | _ => simp_all

/-- A cacheable request is a GET or a HEAD. -/
theorem cacheable_method {req : Request} (cacheable : cacheableRequest cfg req = true) :
    req.method = bytes "GET" ∨ req.method = bytes "HEAD" := by
  unfold cacheableRequest at cacheable
  split at cacheable
  · cases cacheable
  · split at cacheable
    · cases cacheable
    · rename_i safe
      rwa [not_and_or, not_not, not_not] at safe

end Steps

/-! ## The cache through any interleaving -/

namespace Proxy

/-- Every stored response belongs to a complete exchange. -/
structure Provenance (cfg : Config) (p : Proxy) : Prop where
  cacheWf : CacheWf p.cache
  exchange : ∀ key s, p.entries key = some ⟨s, true⟩ → Exchange cfg s
  stored : ∀ kv ∈ cached p.cache, ∃ key e, p.entries key = some e ∧ Complete cfg e.session kv.1 kv.2

variable {cfg : Config} {p p' : Proxy}

/-- **Provenance survives every move**, evictions and other connections included. -/
theorem Provenance.moved (h : Provenance cfg p) {m : Move} (moved : Moved cfg p m p') : Provenance cfg p' := by
  have exchange := alive_invariant (exchange_start cfg) (fun ex step => ex.step step) h.exchange moved
  have stored {kv : Bytes × Bytes} (old : kv ∈ cached p.cache) :
      ∃ key e, p'.entries key = some e ∧ Complete cfg e.session kv.1 kv.2 := by
    obtain ⟨key, e, here, complete⟩ := h.stored kv old
    exact ⟨key, moved.persists (P := fun e => Complete cfg e.session kv.1 kv.2) (fun done step => done.step step)
      (fun lastRef done => done.destroy lastRef) here complete⟩
  cases moved with
  | stay => exact h
  | accepted => exact ⟨h.cacheWf, exchange, fun _ old => stored old⟩
  | adopted => exact ⟨h.cacheWf, exchange, fun _ old => stored old⟩
  | stepped key a s here trace step =>
    obtain ⟨wf, new⟩ := step.cacheUse.contents h.cacheWf
    refine ⟨wf, exchange, fun kv mem => ?_⟩
    rcases new kv mem with old | put
    · exact stored old
    · exact ⟨key, _, update_self, (h.exchange key s here).put step put⟩
  | destroyed => exact ⟨h.cacheWf, exchange, fun _ old => stored old⟩
  | opened => exact ⟨h.cacheWf, exchange, fun _ old => stored old⟩
  | closed => exact ⟨h.cacheWf, exchange, fun _ old => stored old⟩

theorem provenance_start (cfg : Config) (opened : Finset Nat) : Provenance cfg (start cfg opened) where
  cacheWf := cacheWf_start cfg opened
  exchange := fun _ _ here => absurd here nofun
  stored := by
    rw [cached_start]
    exact nofun

theorem provenance_run (cfg : Config) (opened : Finset Nat) (moves : List Move) :
    Provenance cfg (run (next cfg) (start cfg opened) moves) :=
  run_invariant (fun p m h => h.moved (next_moved cfg p m)) (provenance_start cfg opened) moves

end Proxy

/-- Two requests for the same thing. -/
structure SameTarget (r r' : Request) : Prop where
  method : r.method = r'.method
  host : r.host = r'.host
  port : r.port = r'.port
  path : r.path = r'.path

/-- An earlier exchange that a cached response for `req` may come from. -/
structure Origin (cfg : Config) (s : Session) (req : Request) (response : Bytes) : Prop where
  done : s.conn.state = .done
  ended : .upstreamEof ∈ s.trace
  unfailed : Unfailed s.trace
  whole : stream .fromUpstream s.trace = response
  delivered : stream .toClient s.trace = response
  parse : parseRequest s.conn.inClient {} = (.ok, s.conn.req)
  target : SameTarget s.conn.req req
  method : req.method = bytes "GET" ∨ req.method = bytes "HEAD"
  status : bytes "HTTP/1.1 200" <+: response ∨ bytes "HTTP/1.0 200" <+: response
  small : response.length ≤ cfg.cacheMaxEntryBytes

/-- **Cache provenance.** A response served from the cache is handed over whole,
and is the whole upstream stream of an exchange of another connection, for the
same method, host, port and path, that ended cleanly with its client served in
full; the key tells requests apart that differ in any of these. -/
theorem cache_provenance (cfg : Config) (opened : Finset Nat) :
    (∀ (moves : List Move) (key : Nat) (s : Session) (a : Answers) (k response : Bytes),
      let p := run (Proxy.next cfg) (.start cfg opened) moves
      let x := onReady cfg a ⟨s.conn, p.cache, []⟩
      p.entries key = some ⟨s, true⟩ → .cacheHit k response ∈ x.trace →
      (x.conn.state = .failing ∧ x.conn.outClient = response ∧ x.conn.outClientOff = 0) ∧
      ∃ key' e, key' ≠ key ∧ p.entries key' = some e ∧ Origin cfg e.session x.conn.req response) ∧
    ∀ (buf buf' : Bytes) (r r' : Request), parseRequest buf {} = (.ok, r) → parseRequest buf' {} = (.ok, r') →
      cacheKey r.method r.host r.port r.path = cacheKey r'.method r'.host r'.port r'.path → SameTarget r r' := by
  have inj (buf buf' : Bytes) (r r' : Request) (ok : parseRequest buf {} = (.ok, r))
      (ok' : parseRequest buf' {} = (.ok, r')) (same : r.cacheKey = r'.cacheKey) : SameTarget r r' := by
    obtain ⟨method, host, port, path⟩ := cacheKey_inj ok ok' same
    exact ⟨method, host, port, path⟩
  refine ⟨?_, inj⟩
  intro moves key s a k response p x here hit
  have prov : Proxy.Provenance cfg p := Proxy.provenance_run cfg opened moves
  have step : Step cfg s.conn p.cache x.trace x.conn x.cache := onReady_step cfg a p.cache s.conn
  obtain ⟨mem, want, reply, data, -, ready, cacheable, rfl⟩ := step.cacheUse.of_hit prov.cacheWf hit
  obtain ⟨key', e, there, complete⟩ := prov.stored _ mem
  have reading : Reading cfg s.conn := (prov.exchange key s here).accounted.phase.of_want want
  have target := inj _ _ _ _ complete.parse (reading.ready ready).1 complete.key.symm
  refine ⟨reply, key', e, ?_, there, complete.done.state, complete.ended, complete.unfailed, complete.whole,
    complete.delivered, complete.parse, target, cacheable_method cacheable, storable_prefix complete.storable,
    complete.small⟩
  -- the one served is still reading its request, the other is done
  rintro rfl
  obtain rfl := Option.some.inj (there.symm.trans here)
  cases reading.state.symm.trans complete.done.state

/-- One client fetches a page, a second one connects. -/
def fetchMoves : List Move :=
  exchange 0 5 6 (bytes "GET http://h/ HTTP/1.1\r\n\r\n") (bytes "HTTP/1.1 200 OK\r\n\r\n") ++ [.accept 1 5 1]

theorem cache_provenance_second_client :
    ∃ key' e, key' ≠ 1 ∧ (run (Proxy.next {}) (.start {} ∅) fetchMoves).entries key' = some e ∧
      Origin {} e.session
        (onReady {} { recv := .bytes (bytes "GET http://h:80/ HTTP/1.1\r\n\r\n") }
          ⟨.init 5 1, (run (Proxy.next {}) (.start {} ∅) fetchMoves).cache, []⟩).conn.req
        (bytes "HTTP/1.1 200 OK\r\n\r\n") :=
  ((cache_provenance {} ∅).1 fetchMoves 1 (.start 5 1)
    { recv := .bytes (bytes "GET http://h:80/ HTTP/1.1\r\n\r\n") } (bytes "GET h:80/")
    (bytes "HTTP/1.1 200 OK\r\n\r\n") rfl (by decide)).2

end EvProxy
