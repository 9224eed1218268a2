import EvProxy.Http.Parse
import EvProxy.Conn.Handlers

/-!
# What one `on_ready()` can do

`Step cfg c cache events c' cache'` lists every branch of the nine handlers
once: its guard, the events it shows, the new connection and the new cache.
`onReady_step` says that a call of `onReady` is always one of them, whatever the
world answers. Invariants are proved by cases on `Step` and never unfold a
handler.
-/

namespace EvProxy
open Text

namespace Connection

/-- The connection after `finish()`. -/
def finished (c : Connection) : Connection :=
  { c with
    state := .done, want := .none, epoch := c.epoch + 1
    resolveJob := none, upstream := none, client := none }

/-- The connection after `fail_with(response)`. -/
def failed (c : Connection) (response : Bytes) : Connection :=
  { c with
    upstream := none, outClient := response, outClientOff := 0
    state := .failing, want := .writeClient, epoch := c.epoch + 1 }

/-- The connection waiting on a socket whose connect has been started or has succeeded. -/
def dialled (c : Connection) (state : State) (fd idx : Nat) : Connection :=
  { c with
    endpointIdx := idx, upstream := some fd
    state := state, want := .writeUpstream, epoch := c.epoch + 1 }

/-- The connection once the request in `buf` is complete and rebuilt. -/
def accepted (c : Connection) (buf : Bytes) (req : Request) (key : Bytes) : Connection :=
  { c with
    inClient := buf, req := req, parsed := true
    outUpstream := buildUpstreamRequest req (substr buf req.headerBytes req.contentLength)
    outUpstreamOff := 0, cacheKey := key }

/-- The connection waiting for a lookup. -/
def resolving (c : Connection) (readEnd writeEnd : Nat) : Connection :=
  { c with
    resolveJob := some ⟨readEnd, writeEnd, c.req.host, c.req.port⟩
    state := .resolving, want := .readResolver, epoch := c.epoch + 1 }

/-- The connection with a fresh candidate list. -/
def withEndpoints (c : Connection) (endpoints : List Endpoint) : Connection :=
  { c with endpoints := endpoints, endpointIdx := 0 }

/-- The connection after an upstream read of `data`. -/
def received (c : Connection) (cfg : Config) (data : Bytes) : Connection :=
  { accumulate cfg data c with
    outClient := c.outClient ++ data, want := .writeClient, epoch := c.epoch + 1 }

/-- What `finish()` shows. -/
def finishEvents (c : Connection) (lastRef : Bool) : List Event :=
  releasing lastRef c.resolveJob ++ closing c.upstream ++ closing c.client

end Connection

/-- The request that do_read_client works with once `buf` has been read: the
one parsed before, or the one `buf` parses to now, within the body limit. -/
inductive Ready (cfg : Config) (c : Connection) (buf : Bytes) : Request → Prop where
  | before (parsed : c.parsed = true) : Ready cfg c buf c.req
  | now (req : Request) (unparsed : c.parsed = false) (ok : parseRequest buf c.req = (.ok, req))
      (small : req.contentLength ≤ cfg.maxBodyBytes) : Ready cfg c buf req

/-- Why do_read_client answers with an error once `buf` has been read, and what
that leaves in the request. -/
inductive Rejected (cfg : Config) (buf : Bytes) (old : Request) : Request → Bytes → Prop where
  | tooLong (more : find [cr, lf, cr, lf] buf = none) (long : cfg.maxHeaderBytes < buf.length) :
      Rejected cfg buf old old badRequest
  | malformed (req : Request) (bad : parseRequest buf old = (.badRequest, req)) : Rejected cfg buf old req badRequest
  | unsupported (req : Request) (bad : parseRequest buf old = (.notImplemented, req)) :
      Rejected cfg buf old req notImplemented
  | tooLarge (req : Request) (ok : parseRequest buf old = (.ok, req))
      (large : cfg.maxBodyBytes < req.contentLength) : Rejected cfg buf old req payloadTooLarge

/-- Candidates that failed at once, their sockets opened and closed. -/
inductive Attempts : List Event → Prop where
  | nil : Attempts []
  | noSocket (endpoint : Endpoint) {events : List Event} (rest : Attempts events) :
      Attempts (.attempt endpoint :: events)
  | closed (endpoint : Endpoint) (fd : Nat) {events : List Event} (rest : Attempts events) :
      Attempts (.attempt endpoint :: .opened fd :: .closed fd :: events)

/-- The outcomes of `begin_connect`. -/
inductive Connect (c : Connection) : List Event → Connection → Prop where
  | exhausted {events : List Event} (idx : Nat) (tried : Attempts events) :
      Connect c (events ++ closing c.upstream) ({ c with endpointIdx := idx }.failed badGateway)
  | connected {events : List Event} (idx fd : Nat) (endpoint : Endpoint) (tried : Attempts events) :
      Connect c (events ++ [.attempt endpoint, .opened fd, .connected (some fd)] ++ closing c.upstream)
        (c.dialled .sendingUpstream fd idx)
  | inProgress {events : List Event} (idx fd : Nat) (endpoint : Endpoint) (tried : Attempts events) :
      Connect c (events ++ [.attempt endpoint, .opened fd] ++ closing c.upstream)
        (c.dialled .connecting fd idx)

/-- The outcomes of `begin_resolve`. -/
inductive Resolve (c : Connection) : List Event → Connection → Prop where
  | failed : Resolve c (closing c.upstream) (c.failed badGateway)
  | pipeFailed (readEnd writeEnd : Nat) :
      Resolve c ([.opened readEnd, .opened writeEnd, .closed writeEnd, .closed readEnd] ++ closing c.upstream)
        (c.failed badGateway)
  | pending (readEnd writeEnd : Nat) :
      Resolve c [.opened readEnd, .opened writeEnd, .released writeEnd] (c.resolving readEnd writeEnd)
  | connect (endpoints : List Endpoint) {events : List Event} {c' : Connection}
      (dial : Connect (c.withEndpoints endpoints) events c') : Resolve c events c'

/-- The cache lookup that did not answer: the key it leaves, its event, the cache. -/
inductive Lookup (cfg : Config) (c : Connection) (req : Request) :
    Option LruCache → Bytes → List Event → Option LruCache → Prop where
  | off : Lookup cfg c req none c.cacheKey [] none
  | skipped (cache : LruCache) (private_ : cacheableRequest cfg req = false) :
      Lookup cfg c req (some cache) c.cacheKey [] (some cache)
  | missed (cache : LruCache) (cacheable : cacheableRequest cfg req = true)
      (absent : (cache.get (cacheKey req.method req.host req.port req.path)).1 = none) :
      Lookup cfg c req (some cache) (cacheKey req.method req.host req.port req.path)
        [.cacheMiss (cacheKey req.method req.host req.port req.path)]
        (some (cache.get (cacheKey req.method req.host req.port req.path)).2)

/-- What `store_in_cache` does at upstream EOF. -/
inductive Store (c : Connection) : Option LruCache → List Event → Option LruCache → Prop where
  | skipped (cache : Option LruCache) : Store c cache [] cache
  | stored (cache : LruCache) (key : c.cacheKey ≠ []) (small : c.cacheTooBig = false)
      (ok : storable c.cacheAccum = true) :
      Store c (some cache) [.cachePut c.cacheKey c.cacheAccum] (some (cache.put c.cacheKey c.cacheAccum))

/-- Every branch of `on_ready()`. -/
inductive Step (cfg : Config) (c : Connection) (cache : Option LruCache) :
    List Event → Connection → Option LruCache → Prop where
  /-- A spurious wakeup or a would-block. -/
  | idle : Step cfg c cache [] c cache
  | hangup (lastRef : Bool) (want : c.want = .readClient) :
      Step cfg c cache (.clientGone :: c.finishEvents lastRef) c.finished cache
  | incomplete (data : Bytes) (want : c.want = .readClient) (got : data ≠ []) (unparsed : c.parsed = false)
      (more : find [cr, lf, cr, lf] (c.inClient ++ data) = none)
      (small : (c.inClient ++ data).length ≤ cfg.maxHeaderBytes) :
      Step cfg c cache [.recvClient data] { c with inClient := c.inClient ++ data } cache
  | awaiting (data : Bytes) (req : Request) (want : c.want = .readClient) (got : data ≠ [])
      (ready : Ready cfg c (c.inClient ++ data) req)
      (short : (c.inClient ++ data).length < sizeAdd req.headerBytes req.contentLength) :
      Step cfg c cache [.recvClient data]
        { c with inClient := c.inClient ++ data, req := req, parsed := true } cache
  | rejected (data response : Bytes) (req : Request) (want : c.want = .readClient) (got : data ≠ [])
      (unparsed : c.parsed = false) (error : Rejected cfg (c.inClient ++ data) c.req req response) :
      Step cfg c cache (.recvClient data :: closing c.upstream)
        ({ c with inClient := c.inClient ++ data, req := req }.failed response) cache
  | hit (data response : Bytes) (req : Request) (stored : LruCache) (want : c.want = .readClient) (got : data ≠ [])
      (ready : Ready cfg c (c.inClient ++ data) req)
      (enough : sizeAdd req.headerBytes req.contentLength ≤ (c.inClient ++ data).length)
      (cacheable : cacheableRequest cfg req = true) (on : cache = some stored)
      (found : (stored.get (cacheKey req.method req.host req.port req.path)).1 = some response) :
      Step cfg c cache
        (.recvClient data :: .cacheHit (cacheKey req.method req.host req.port req.path) response ::
          closing c.upstream)
        ((c.accepted (c.inClient ++ data) req (cacheKey req.method req.host req.port req.path)).failed response)
        (some (stored.get (cacheKey req.method req.host req.port req.path)).2)
  | forward (data key : Bytes) (req : Request) {looked events : List Event} {c' : Connection}
      {cache' : Option LruCache} (want : c.want = .readClient) (got : data ≠ [])
      (ready : Ready cfg c (c.inClient ++ data) req)
      (enough : sizeAdd req.headerBytes req.contentLength ≤ (c.inClient ++ data).length)
      (lookup : Lookup cfg c req cache key looked cache')
      (resolve : Resolve (c.accepted (c.inClient ++ data) req key) events c') :
      Step cfg c cache (.recvClient data :: (looked ++ events)) c' cache'
  | unresolved (lastRef : Bool) (want : c.want = .readResolver) (job : c.resolveJob.isSome) :
      Step cfg c cache (releasing lastRef c.resolveJob ++ closing c.upstream)
        ({ c with resolveJob := none }.failed badGateway) cache
  | resolved (lastRef : Bool) (endpoints : List Endpoint) {events : List Event} {c' : Connection}
      (want : c.want = .readResolver) (job : c.resolveJob.isSome)
      (dial : Connect ({ c with resolveJob := none }.withEndpoints endpoints) events c') :
      Step cfg c cache (releasing lastRef c.resolveJob ++ events) c' cache
  | refused {events : List Event} {c' : Connection} (want : c.want = .writeUpstream)
      (state : c.state = .connecting) (dial : Connect { c with upstream := none } events c') :
      Step cfg c cache (closing c.upstream ++ events) c' cache
  | connected (want : c.want = .writeUpstream) (state : c.state = .connecting) :
      Step cfg c cache [.connected c.upstream]
        { c with state := .sendingUpstream, want := .writeUpstream, epoch := c.epoch + 1 } cache
  | sendPart (n : Nat) (want : c.want = .writeUpstream) (state : c.state ≠ .connecting)
      (bound : n ≤ c.outUpstream.length - c.outUpstreamOff)
      (more : c.outUpstreamOff + n < c.outUpstream.length) :
      Step cfg c cache [.sentUpstream c.upstream (substr c.outUpstream c.outUpstreamOff n)]
        { c with outUpstreamOff := c.outUpstreamOff + n } cache
  | sendAll (n : Nat) (want : c.want = .writeUpstream) (state : c.state ≠ .connecting)
      (bound : n ≤ c.outUpstream.length - c.outUpstreamOff)
      (whole : c.outUpstream.length ≤ c.outUpstreamOff + n) :
      Step cfg c cache [.sentUpstream c.upstream (substr c.outUpstream c.outUpstreamOff n)]
        { c with
          outUpstream := [], outUpstreamOff := 0
          state := .relaying, want := .readUpstream, epoch := c.epoch + 1 } cache
  | sendFailed (want : c.want = .writeUpstream) (state : c.state ≠ .connecting) :
      Step cfg c cache (.upstreamSendFailed :: closing c.upstream) (c.failed badGateway) cache
  | recvFailed (lastRef : Bool) (want : c.want = .readUpstream) :
      Step cfg c cache (.upstreamRecvFailed :: c.finishEvents lastRef) c.finished cache
  | eofDone (lastRef : Bool) {stored : List Event} {cache' : Option LruCache} (want : c.want = .readUpstream)
      (store : Store c cache stored cache') (flushed : c.outClient.length ≤ c.outClientOff) :
      Step cfg c cache
        (.upstreamEof :: (closing c.upstream ++ stored ++ { c with upstream := none }.finishEvents lastRef))
        { c with upstreamEof := true }.finished cache'
  | eofFlush {stored : List Event} {cache' : Option LruCache} (want : c.want = .readUpstream)
      (store : Store c cache stored cache') (pending : c.outClientOff < c.outClient.length) :
      Step cfg c cache (.upstreamEof :: (closing c.upstream ++ stored))
        { c with upstreamEof := true, upstream := none, want := .writeClient, epoch := c.epoch + 1 } cache'
  | recv (data : Bytes) (want : c.want = .readUpstream) (got : data ≠ []) (bound : data.length ≤ chunk cfg) :
      Step cfg c cache [.recvUpstream data] (c.received cfg data) cache
  | writePart (n : Nat) (want : c.want = .writeClient)
      (bound : n ≤ c.outClient.length - c.outClientOff)
      (more : c.outClientOff + n < c.outClient.length) :
      Step cfg c cache [.sentClient (substr c.outClient c.outClientOff n)]
        { c with outClientOff := c.outClientOff + n } cache
  | writeMore (n : Nat) (want : c.want = .writeClient)
      (bound : n ≤ c.outClient.length - c.outClientOff)
      (whole : c.outClient.length ≤ c.outClientOff + n)
      (relaying : c.state ≠ .failing) (open_ : c.upstreamEof = false) :
      Step cfg c cache [.sentClient (substr c.outClient c.outClientOff n)]
        { c with outClient := [], outClientOff := 0, want := .readUpstream, epoch := c.epoch + 1 } cache
  | writeLast (lastRef : Bool) (n : Nat) (want : c.want = .writeClient)
      (bound : n ≤ c.outClient.length - c.outClientOff)
      (whole : c.outClient.length ≤ c.outClientOff + n)
      (last : c.state = .failing ∨ c.upstreamEof = true) :
      Step cfg c cache (.sentClient (substr c.outClient c.outClientOff n) :: c.finishEvents lastRef)
        { c with outClient := [], outClientOff := 0 }.finished cache
  | writeFailed (lastRef : Bool) (want : c.want = .writeClient) :
      Step cfg c cache (.clientSendFailed :: c.finishEvents lastRef) c.finished cache
  | again (lastRef : Bool) (want : c.want = .none) :
      Step cfg c cache (c.finishEvents lastRef) c.finished cache

theorem Rejected.error {cfg : Config} {buf response : Bytes} {old req : Request}
    (h : Rejected cfg buf old req response) : response ∈ [badRequest, notImplemented, payloadTooLarge] := by
  cases h <;> simp

/-- A handler's result is one of the steps. -/
def Steps (cfg : Config) (c : Connection) (cache : Option LruCache) (x : Exec) : Prop :=
  Step cfg c cache x.trace x.conn x.cache

/-! ## The handlers make only these steps -/

theorem finish_eq (a : Answers) (x : Exec) :
    finish a x = ⟨x.conn.finished, x.cache, x.trace ++ x.conn.finishEvents a.lastRef⟩ := by
  simp [finish, resetClient, resetUpstream, resetJob, Connection.finished, Connection.finishEvents,
    Connection.setWant]

theorem failWith_eq (response : Bytes) (x : Exec) :
    failWith response x = ⟨x.conn.failed response, x.cache, x.trace ++ closing x.conn.upstream⟩ := by
  simp [failWith, resetUpstream, Connection.failed, Connection.setWant]

theorem Attempts.append {e f : List Event} (first : Attempts e) (second : Attempts f) : Attempts (e ++ f) := by
  induction first with
  | nil => exact second
  | noSocket endpoint _ ih => exact .noSocket endpoint ih
  | closed endpoint fd _ ih => exact .closed endpoint fd ih

/-- The candidate loop, from any point of it. -/
theorem connectLoop_connect (a : Answers) (eps : List Endpoint) (c0 : Connection) (idx : Nat)
    (cache : Option LruCache) (t tried : List Event) (attempts : Attempts tried) :
    ∃ events, (connectLoop a eps ⟨{ c0 with endpointIdx := idx }, cache, t ++ tried⟩).trace = t ++ events ∧
      (connectLoop a eps ⟨{ c0 with endpointIdx := idx }, cache, t ++ tried⟩).cache = cache ∧
      Connect c0 events (connectLoop a eps ⟨{ c0 with endpointIdx := idx }, cache, t ++ tried⟩).conn := by
  induction eps generalizing idx tried with
  | nil =>
    simp only [connectLoop, failWith_eq]
    exact ⟨tried ++ closing c0.upstream, by simp, trivial, .exhausted idx attempts⟩
  | cons endpoint rest ih =>
    simp only [connectLoop]
    cases dial : a.dial idx with
    | noSocket =>
      simp only [startConnect, List.append_assoc]
      exact ih (idx + 1) _ (attempts.append (.noSocket endpoint .nil))
    | noNonblock fd =>
      simp only [startConnect, List.append_assoc]
      exact ih (idx + 1) _ (attempts.append (.closed endpoint fd .nil))
    | refused fd =>
      simp only [startConnect, List.append_assoc]
      exact ih (idx + 1) _ (attempts.append (.closed endpoint fd .nil))
    | connected fd =>
      simp only [startConnect, Connection.setWant]
      exact ⟨tried ++ [.attempt endpoint, .opened fd, .connected (some fd)] ++ closing c0.upstream,
        by simp, trivial, .connected (idx + 1) fd endpoint attempts⟩
    | inProgress fd =>
      simp only [startConnect, Connection.setWant]
      exact ⟨tried ++ [.attempt endpoint, .opened fd] ++ closing c0.upstream,
        by simp, trivial, .inProgress (idx + 1) fd endpoint attempts⟩

theorem beginConnect_connect (a : Answers) (x : Exec) :
    ∃ events, (beginConnect a x).trace = x.trace ++ events ∧ (beginConnect a x).cache = x.cache ∧
      Connect x.conn events (beginConnect a x).conn := by
  have loop := connectLoop_connect a (x.conn.endpoints.drop x.conn.endpointIdx) x.conn x.conn.endpointIdx
    x.cache x.trace [] .nil
  rwa [List.append_nil] at loop

theorem beginResolve_resolve (cfg : Config) (a : Answers) (x : Exec) :
    ∃ events, (beginResolve cfg a x).trace = x.trace ++ events ∧ (beginResolve cfg a x).cache = x.cache ∧
      Resolve x.conn events (beginResolve cfg a x).conn := by
  have dial : ∀ endpoints, ∃ events, (connectTo a endpoints x).trace = x.trace ++ events ∧
      (connectTo a endpoints x).cache = x.cache ∧ Resolve x.conn events (connectTo a endpoints x).conn := by
    intro endpoints
    obtain ⟨events, trace, cache, connect⟩ :=
      beginConnect_connect a ⟨x.conn.withEndpoints endpoints, x.cache, x.trace⟩
    exact ⟨events, trace, cache, .connect endpoints connect⟩
  have fail : ∃ events, (failWith badGateway x).trace = x.trace ++ events ∧
      (failWith badGateway x).cache = x.cache ∧ Resolve x.conn events (failWith badGateway x).conn := by
    rw [failWith_eq]
    exact ⟨_, rfl, rfl, .failed⟩
  unfold beginResolve
  split
  · split
    · exact fail
    · exact dial _
  · split
    · exact dial _
    · exact ⟨_, rfl, rfl, .pending _ _⟩
    · exact fail
    · rw [failWith_eq]
      exact ⟨_, List.append_assoc _ _ _, rfl, .pipeFailed _ _⟩

/-- The tail of `do_read_client` after `data` was read and the request is known. -/
theorem awaitBody_step {cfg : Config} {c : Connection} {data : Bytes} {req : Request} (a : Answers)
    (cache : Option LruCache) (want : c.want = .readClient) (got : data ≠ [])
    (ready : Ready cfg c (c.inClient ++ data) req) :
    Steps cfg c cache
      (awaitBody cfg a ⟨{ c with inClient := c.inClient ++ data, req := req, parsed := true }, cache,
        [.recvClient data]⟩) := by
  simp only [awaitBody]
  split
  · rename_i short
    exact .awaiting data req want got ready short
  · rename_i long
    have enough : sizeAdd req.headerBytes req.contentLength ≤ (c.inClient ++ data).length := by omega
    have forward : ∀ (key : Bytes) (cache' : Option LruCache) (looked : List Event),
        Lookup cfg c req cache key looked cache' →
        Steps cfg c cache
          (beginResolve cfg a
            ⟨c.accepted (c.inClient ++ data) req key, cache', .recvClient data :: looked⟩) := by
      intro key cache' looked lookup
      obtain ⟨events, trace, kept, resolve⟩ :=
        beginResolve_resolve cfg a ⟨c.accepted (c.inClient ++ data) req key, cache', .recvClient data :: looked⟩
      rw [Steps, trace, kept]
      exact .forward data key req want got ready enough lookup resolve
    cases cache with
    | none => exact forward c.cacheKey none [] .off
    | some cache =>
      simp only
      split
      · rename_i cacheable
        split
        · rename_i cached found
          rw [failWith_eq]
          exact .hit data cached req cache want got ready enough cacheable rfl found
        · rename_i absent
          exact forward _ _ _ (.missed cache cacheable absent)
      · rename_i private_
        exact forward c.cacheKey (some cache) [] (.skipped cache (by simpa using private_))

theorem readSome_ok {len : Nat} {r : Recv} {data : Bytes} (h : readSome len r = (.ok, data)) :
    data ≠ [] ∧ data.length ≤ len := by
  cases r with
  | bytes available =>
    simp only [readSome] at h
    split at h
    · simp at h
    · rename_i nonempty
      obtain rfl : available.take len = data := congrArg Prod.snd h
      exact ⟨nonempty, List.length_take_le _ _⟩
  | wouldBlock => simp [readSome] at h
  | error => simp [readSome] at h

theorem writeSome_ok {len n : Nat} {s : Send} (h : writeSome len s = (.ok, n)) : n ≤ len := by
  cases s with
  | accepts m =>
    obtain rfl : min m len = n := congrArg Prod.snd h
    exact Nat.min_le_right _ _
  | wouldBlock => simp [writeSome] at h
  | error => simp [writeSome] at h

theorem doReadClient_step {cfg : Config} {c : Connection} (a : Answers) (cache : Option LruCache)
    (want : c.want = .readClient) :
    Steps cfg c cache (doReadClient cfg a ⟨c, cache, []⟩) := by
  have gone : Steps cfg c cache (finish a ⟨c, cache, [.clientGone]⟩) := by
    rw [finish_eq]
    exact .hangup a.lastRef want
  unfold doReadClient
  split
  · exact .idle
  · exact gone
  · exact gone
  · rename_i data read
    obtain ⟨got, -⟩ := readSome_ok read
    simp only [List.nil_append]
    split
    · rename_i parsed
      have same : { c with inClient := c.inClient ++ data } =
          { c with inClient := c.inClient ++ data, req := c.req, parsed := true } := by rw [← parsed]
      rw [same]
      exact awaitBody_step a cache want got (.before parsed)
    · rename_i unparsed
      rw [Bool.not_eq_true] at unparsed
      have reject : ∀ response req, Rejected cfg (c.inClient ++ data) c.req req response →
          Steps cfg c cache
            (failWith response ⟨{ c with inClient := c.inClient ++ data, req := req }, cache, [.recvClient data]⟩) := by
        intro response req error
        rw [failWith_eq]
        exact .rejected data response req want got unparsed error
      generalize parse : parseRequest (c.inClient ++ data) c.req = p
      obtain ⟨result, req⟩ := p
      cases result with
      | incomplete =>
        have blank := find_eq_none_of_incomplete (congrArg Prod.fst parse)
        rw [parseRequest_incomplete blank] at parse
        obtain rfl : c.req = req := congrArg Prod.snd parse
        simp only
        split
        · rename_i long
          exact reject _ c.req (.tooLong blank long)
        · rename_i small
          exact .incomplete data want got unparsed blank (by simpa using small)
      | badRequest => exact reject _ req (.malformed req parse)
      | notImplemented => exact reject _ req (.unsupported req parse)
      | ok =>
        simp only
        split
        · rename_i large
          exact reject _ req (.tooLarge req parse large)
        · rename_i small
          exact awaitBody_step a cache want got (.now req unparsed parse (by omega))

/-- How do_read_client leaves off at `y`: it waits for more, answers, or starts to resolve. -/
inductive LeavesOff (cfg : Config) (a : Answers) (y : Exec) : Exec → Prop where
  | waits : LeavesOff cfg a y y
  | answers (response : Bytes) : LeavesOff cfg a y (failWith response y)
  | resolves : LeavesOff cfg a y (beginResolve cfg a y)

theorem LeavesOff.trace {cfg : Config} {a : Answers} {x y : Exec} (h : LeavesOff cfg a y x) : y.trace <+: x.trace := by
  cases h with
  | waits => exact List.prefix_refl _
  | answers response =>
    rw [failWith_eq]
    exact List.prefix_append _ _
  | resolves =>
    obtain ⟨events, trace, -⟩ := beginResolve_resolve cfg a y
    rw [trace]
    exact List.prefix_append _ _

/-- Up to where it leaves off, the tail of do_read_client only adds to the history. -/
theorem awaitBody_leavesOff (cfg : Config) (a : Answers) (x : Exec) :
    ∃ y, LeavesOff cfg a y (awaitBody cfg a x) ∧ y.conn.endpoints = x.conn.endpoints ∧ x.trace <+: y.trace := by
  simp only [awaitBody]
  split
  · exact ⟨x, .waits, rfl, List.prefix_refl _⟩
  · split
    · exact ⟨_, .resolves, rfl, List.prefix_refl _⟩
    · split
      · split
        · exact ⟨_, .answers _, rfl, List.prefix_append _ _⟩
        · exact ⟨_, .resolves, rfl, List.prefix_append _ _⟩
      · exact ⟨_, .resolves, rfl, List.prefix_refl _⟩

theorem doReadClient_leavesOff {cfg : Config} {a : Answers} {data : Bytes}
    (read : readSome (chunk cfg) a.recv = (.ok, data)) (c : Connection) (cache : Option LruCache) :
    ∃ y, LeavesOff cfg a y (doReadClient cfg a ⟨c, cache, []⟩) ∧ y.conn.endpoints = c.endpoints ∧
      [.recvClient data] <+: y.trace := by
  simp only [doReadClient, read, List.nil_append]
  split
  · exact awaitBody_leavesOff cfg a _
  · split
    · split
      · exact ⟨_, .answers _, rfl, List.prefix_refl _⟩
      · exact ⟨_, .waits, rfl, List.prefix_refl _⟩
    · exact ⟨_, .answers _, rfl, List.prefix_refl _⟩
    · exact ⟨_, .answers _, rfl, List.prefix_refl _⟩
    · split
      · exact ⟨_, .answers _, rfl, List.prefix_refl _⟩
      · exact awaitBody_leavesOff cfg a _

/-- The bytes the kernel handed over are the ones the history records. -/
theorem doReadClient_head {cfg : Config} {a : Answers} {data : Bytes}
    (read : readSome (chunk cfg) a.recv = (.ok, data)) (c : Connection) (cache : Option LruCache) :
    [.recvClient data] <+: (doReadClient cfg a ⟨c, cache, []⟩).trace := by
  obtain ⟨y, off, -, head⟩ := doReadClient_leavesOff read c cache
  exact head.trans off.trace

theorem storeInCache_store (x : Exec) :
    ∃ events, (storeInCache x).trace = x.trace ++ events ∧ (storeInCache x).conn = x.conn ∧
      Store x.conn x.cache events (storeInCache x).cache := by
  unfold storeInCache
  have skip : ∃ events, x.trace = x.trace ++ events ∧ x.conn = x.conn ∧ Store x.conn x.cache events x.cache :=
    ⟨[], by simp, rfl, .skipped _⟩
  split
  · exact skip
  · rename_i cache on
    split
    · exact skip
    · rename_i keyed
      obtain ⟨key, small⟩ := not_or.mp keyed
      split
      · exact skip
      · split
        · exact skip
        · rename_i ok
          rw [on]
          exact ⟨_, rfl, rfl, .stored cache key (by simpa using small) (by simpa using ok)⟩

/-- `store_in_cache` does not look at the two fields written just before it. -/
theorem Store.atEof {c : Connection} {cache cache' : Option LruCache} {events : List Event}
    (store : Store { c with upstreamEof := true, upstream := none } cache events cache') :
    Store c cache events cache' := by
  cases store with
  | skipped => exact .skipped cache
  | stored cache key small ok => exact .stored cache key small ok

theorem doReadUpstream_step {cfg : Config} {c : Connection} (a : Answers) (cache : Option LruCache)
    (want : c.want = .readUpstream) :
    Steps cfg c cache (doReadUpstream cfg a ⟨c, cache, []⟩) := by
  unfold doReadUpstream
  split
  · exact .idle
  · rw [finish_eq]
    exact .recvFailed a.lastRef want
  · obtain ⟨stored, trace, conn, store⟩ :=
      storeInCache_store ⟨{ c with upstreamEof := true, upstream := none }, cache, .upstreamEof :: closing c.upstream⟩
    simp only [Exec.log, resetUpstream, List.nil_append, List.singleton_append, conn]
    split
    · rename_i flushed
      rw [finish_eq, conn, trace]
      exact .eofDone a.lastRef want store.atEof flushed
    · rename_i pending
      rw [Steps, trace]
      exact .eofFlush want store.atEof (by simpa using pending)
  · rename_i data read
    obtain ⟨got, bound⟩ := readSome_ok read
    have kept : (accumulate cfg data c).outClient = c.outClient ∧ (accumulate cfg data c).epoch = c.epoch := by
      unfold accumulate
      split
      · split <;> exact ⟨rfl, rfl⟩
      · exact ⟨rfl, rfl⟩
    simp only [Connection.setWant, kept.1, kept.2]
    exact .recv data want got bound

theorem doWriteUpstream_step {cfg : Config} {c : Connection} (a : Answers) (cache : Option LruCache)
    (want : c.want = .writeUpstream) (state : c.state ≠ .connecting) :
    Steps cfg c cache (doWriteUpstream a ⟨c, cache, []⟩) := by
  simp only [doWriteUpstream]
  split
  · exact .idle
  · rename_i n write
    have bound := writeSome_ok write
    split
    · rename_i more
      exact .sendPart n want state bound more
    · rename_i whole
      exact .sendAll n want state bound (by omega)
  · rw [failWith_eq]
    exact .sendFailed want state

theorem doWriteClient_step {cfg : Config} {c : Connection} (a : Answers) (cache : Option LruCache)
    (want : c.want = .writeClient) :
    Steps cfg c cache (doWriteClient a ⟨c, cache, []⟩) := by
  simp only [doWriteClient]
  split
  · exact .idle
  · rename_i n write
    have bound := writeSome_ok write
    split
    · rename_i more
      exact .writePart n want bound more
    · rename_i whole
      split
      · rename_i last
        rw [finish_eq]
        exact .writeLast a.lastRef n want bound (by omega) last
      · rename_i more
        obtain ⟨relaying, open_⟩ := not_or.mp more
        exact .writeMore n want bound (by omega) relaying (by simpa using open_)
  · rw [finish_eq]
    exact .writeFailed a.lastRef want

/-- `finish_resolve` on a job that is ready. -/
theorem finishResolve_ready {c : Connection} (a : Answers) (cache : Option LruCache) (job : c.resolveJob.isSome)
    (ready : a.job.ready = true) :
    (a.job.ok = true ∧ ∃ events, (finishResolve a ⟨c, cache, []⟩).trace = releasing a.lastRef c.resolveJob ++ events ∧
      (finishResolve a ⟨c, cache, []⟩).cache = cache ∧
      Connect ({ c with resolveJob := none }.withEndpoints a.job.endpoints) events
        (finishResolve a ⟨c, cache, []⟩).conn) ∨
    (a.job.ok = false ∧ finishResolve a ⟨c, cache, []⟩ = ⟨{ c with resolveJob := none }.failed badGateway, cache,
      releasing a.lastRef c.resolveJob ++ closing c.upstream⟩) := by
  obtain ⟨j, job⟩ := Option.isSome_iff_exists.mp job
  cases ok : a.job.ok with
  | true =>
    obtain ⟨events, trace, kept, dial⟩ := beginConnect_connect a
      ⟨{ c with resolveJob := none }.withEndpoints a.job.endpoints, cache, releasing a.lastRef c.resolveJob⟩
    have eq : finishResolve a ⟨c, cache, []⟩ = beginConnect a
        ⟨{ c with resolveJob := none }.withEndpoints a.job.endpoints, cache, releasing a.lastRef c.resolveJob⟩ := by
      simp [finishResolve, job, ready, ok, resetJob, Connection.withEndpoints]
    rw [← eq] at trace kept dial
    exact .inl ⟨rfl, events, trace, kept, dial⟩
  | false =>
    have eq : finishResolve a ⟨c, cache, []⟩ = failWith badGateway
        ⟨{ c with resolveJob := none }, cache, releasing a.lastRef c.resolveJob⟩ := by
      simp [finishResolve, job, ready, ok, resetJob]
    rw [failWith_eq] at eq
    exact .inr ⟨rfl, eq⟩

theorem finishResolve_step {cfg : Config} {c : Connection} (a : Answers) (cache : Option LruCache)
    (want : c.want = .readResolver) :
    Steps cfg c cache (finishResolve a ⟨c, cache, []⟩) := by
  cases job : c.resolveJob with
  | none =>
    simp only [finishResolve, job]
    exact .idle
  | some j =>
    have isSome : c.resolveJob.isSome := by rw [job]; rfl
    by_cases ready : a.job.ready
    · rcases finishResolve_ready a cache isSome ready with ⟨-, events, trace, kept, dial⟩ | ⟨-, eq⟩
      · rw [Steps, trace, kept]
        exact .resolved a.lastRef a.job.endpoints want isSome dial
      · rw [Steps, eq]
        exact .unresolved a.lastRef want isSome
    · simp only [finishResolve, job, ready]
      exact .idle

theorem finishConnect_step {cfg : Config} {c : Connection} (a : Answers) (cache : Option LruCache)
    (want : c.want = .writeUpstream) (state : c.state = .connecting) :
    Steps cfg c cache (finishConnect a ⟨c, cache, []⟩) := by
  unfold finishConnect
  split
  · obtain ⟨events, trace, kept, dial⟩ := beginConnect_connect a (resetUpstream ⟨c, cache, []⟩)
    rw [Steps, trace, kept]
    exact .refused want state dial
  · exact .connected want state

/-- **Every call of `on_ready()` is one of the listed steps.** -/
theorem onReady_step (cfg : Config) (a : Answers) (cache : Option LruCache) (c : Connection) :
    Step cfg c cache (onReady cfg a ⟨c, cache, []⟩).trace (onReady cfg a ⟨c, cache, []⟩).conn
      (onReady cfg a ⟨c, cache, []⟩).cache := by
  change Steps cfg c cache (onReady cfg a ⟨c, cache, []⟩)
  unfold onReady
  split
  · rename_i want
    exact doReadClient_step a cache want
  · rename_i want
    exact doWriteClient_step a cache want
  · rename_i want
    exact doReadUpstream_step a cache want
  · rename_i want
    exact finishResolve_step a cache want
  · rename_i want
    split
    · rename_i state
      exact finishConnect_step a cache want state
    · rename_i state
      exact doWriteUpstream_step a cache want state
  · rename_i want
    rw [finish_eq]
    exact .again a.lastRef want

end EvProxy
