import EvProxy.Conn.State

/-!
# The handlers of a connection (`connection.cpp`)

Each handler maps the connection, the shared cache and the events so far to
their new values. Logging is left out. The order of assignments and closes is
the source's: `Fd::reset` and a move assignment close the descriptor they
replace, and a dropped job closes its pipe with its last reference.
-/

namespace EvProxy
open Text

/-- A connection in the middle of a handler. -/
structure Exec where
  conn : Connection
  cache : Option LruCache
  trace : List Event

namespace Exec

def log (x : Exec) (events : List Event) : Exec := { x with trace := x.trace ++ events }

end Exec

/-- What closing a descriptor shows: nothing for an invalid one. -/
def closing : Fd → List Event
  | some fd => [.closed fd]
  | none => []

/-- What dropping the job shows: the read end closes with the last reference.
The write end is the resolver's from `start` on. -/
def releasing (lastRef : Bool) : Option ResolveJob → List Event
  | some job => if lastRef then [.closed job.readEnd] else [.released job.readEnd]
  | none => []

def resetUpstream (x : Exec) : Exec :=
  { x with conn := { x.conn with upstream := none }, trace := x.trace ++ closing x.conn.upstream }

def resetClient (x : Exec) : Exec :=
  { x with conn := { x.conn with client := none }, trace := x.trace ++ closing x.conn.client }

def resetJob (a : Answers) (x : Exec) : Exec :=
  { x with
    conn := { x.conn with resolveJob := none }
    trace := x.trace ++ releasing a.lastRef x.conn.resolveJob }

def failWith (response : Bytes) (x : Exec) : Exec :=
  let x := resetUpstream x
  { x with
    conn := { x.conn with
      outClient := response
      outClientOff := 0
      state := .failing }.setWant .writeClient }

def finish (a : Answers) (x : Exec) : Exec :=
  let x := { x with conn := { x.conn with state := .done }.setWant .none }
  resetClient (resetUpstream (resetJob a x))

def badRequest : Bytes := errorResponse 400 (bytes "Bad Request")
def notImplemented : Bytes := errorResponse 501 (bytes "Not Implemented")
def payloadTooLarge : Bytes := errorResponse 413 (bytes "Payload Too Large")
def badGateway : Bytes := errorResponse 502 (bytes "Bad Gateway")

/-- True only for requests whose response may be shared between clients. -/
def cacheableRequest (cfg : Config) (req : Request) : Bool :=
  if !cfg.cacheEnabled then false
  else if req.method ≠ bytes "GET" ∧ req.method ≠ bytes "HEAD" then false
  else if headerValue req (bytes "Authorization") ≠ [] then false
  else if headerValue req (bytes "Cookie") ≠ [] then false
  else true

/-- The response test of `store_in_cache`: a 200 that sets no cookie. -/
def storable (response : Bytes) : Bool :=
  if substr response 0 9 ≠ bytes "HTTP/1.1 " ∧ substr response 0 9 ≠ bytes "HTTP/1.0 " then false
  else if substr response 9 3 ≠ bytes "200" then false
  else if (find (bytes "\r\nSet-Cookie:") response).isSome ∨ (find (bytes "\r\nset-cookie:") response).isSome then
    false
  else true

def storeInCache (x : Exec) : Exec :=
  match x.cache with
  | none => x
  | some cache =>
    if x.conn.cacheKey = [] ∨ x.conn.cacheTooBig then x
    else if !x.conn.upstreamEof then x
    else if !storable x.conn.cacheAccum then x
    else
      { x with cache := some (cache.put x.conn.cacheKey x.conn.cacheAccum) }.log
        [.cachePut x.conn.cacheKey x.conn.cacheAccum]

inductive ConnectStatus where
  | connected
  | inProgress
  | failed

/-- `start_connect`: the socket of a failed attempt is closed on the way out. -/
def startConnect (endpoint : Endpoint) : Dial → ConnectStatus × Fd × List Event
  | .noSocket => (.failed, none, [.attempt endpoint])
  | .noNonblock fd => (.failed, none, [.attempt endpoint, .opened fd, .closed fd])
  | .connected fd => (.connected, some fd, [.attempt endpoint, .opened fd, .connected (some fd)])
  | .inProgress fd => (.inProgress, some fd, [.attempt endpoint, .opened fd])
  | .refused fd => (.failed, none, [.attempt endpoint, .opened fd, .closed fd])

/-- The candidate loop of `begin_connect`, over the candidates not tried yet. -/
def connectLoop (a : Answers) : List Endpoint → Exec → Exec
  | [], x => failWith badGateway x
  | endpoint :: rest, x =>
    let r := startConnect endpoint (a.dial x.conn.endpointIdx)
    let x := { x with
      conn := { x.conn with endpointIdx := x.conn.endpointIdx + 1 }
      trace := x.trace ++ r.2.2 }
    match r.1 with
    | .failed => connectLoop a rest x
    | .connected =>
      { x with
        conn := { x.conn with upstream := r.2.1, state := .sendingUpstream }.setWant .writeUpstream
        trace := x.trace ++ closing x.conn.upstream }
    | .inProgress =>
      { x with
        conn := { x.conn with upstream := r.2.1, state := .connecting }.setWant .writeUpstream
        trace := x.trace ++ closing x.conn.upstream }

def beginConnect (a : Answers) (x : Exec) : Exec :=
  connectLoop a (x.conn.endpoints.drop x.conn.endpointIdx) x

/-- Start on a fresh list of candidates. -/
def connectTo (a : Answers) (endpoints : List Endpoint) (x : Exec) : Exec :=
  beginConnect a { x with conn := { x.conn with endpoints := endpoints, endpointIdx := 0 } }

def finishConnect (a : Answers) (x : Exec) : Exec :=
  if !a.connectOk then beginConnect a (resetUpstream x)
  else
    { x with
      conn := { x.conn with state := .sendingUpstream }.setWant .writeUpstream
      trace := x.trace ++ [.connected x.conn.upstream] }

def beginResolve (cfg : Config) (a : Answers) (x : Exec) : Exec :=
  if !cfg.asyncResolve then
    match a.lookup with
    | none => failWith badGateway x
    | some endpoints => connectTo a endpoints x
  else
    match a.start with
    | .hit endpoints => connectTo a endpoints x
    | .pending readEnd writeEnd =>
      { x with
        conn := { x.conn with
          resolveJob := some ⟨readEnd, writeEnd, x.conn.req.host, x.conn.req.port⟩
          state := .resolving }.setWant .readResolver
        trace := x.trace ++ [.opened readEnd, .opened writeEnd, .released writeEnd] }
    | .failed none => failWith badGateway x
    | .failed (some (readEnd, writeEnd)) =>
      failWith badGateway
        (x.log [.opened readEnd, .opened writeEnd, .closed writeEnd, .closed readEnd])

def finishResolve (a : Answers) (x : Exec) : Exec :=
  match x.conn.resolveJob with
  | none => x  -- the source dereferences the job: it is set in every reachable state that gets here
  | some _ =>
    if !a.job.ready then x
    else
      let x := if a.job.ok then { x with conn := { x.conn with endpoints := a.job.endpoints } } else x
      let x := resetJob a x
      if !a.job.ok then failWith badGateway x
      else beginConnect a { x with conn := { x.conn with endpointIdx := 0 } }

/-- `size_t` addition. -/
def sizeAdd (m n : Nat) : Nat := (m + n) % 2 ^ 64

/-- The tail of `do_read_client`: wait for the body, rebuild the request, ask
the cache, resolve. -/
def awaitBody (cfg : Config) (a : Answers) (x : Exec) : Exec :=
  let req := x.conn.req
  if x.conn.inClient.length < sizeAdd req.headerBytes req.contentLength then x
  else
    let body := substr x.conn.inClient req.headerBytes req.contentLength
    let x := { x with conn := { x.conn with
      outUpstream := buildUpstreamRequest req body
      outUpstreamOff := 0 } }
    match x.cache with
    | none => beginResolve cfg a x
    | some cache =>
      if cacheableRequest cfg req then
        let key := cacheKey req.method req.host req.port req.path
        let got := cache.get key
        let x := { x with conn := { x.conn with cacheKey := key }, cache := some got.2 }
        match got.1 with
        | some cached => failWith cached (x.log [.cacheHit key cached])
        | none => beginResolve cfg a (x.log [.cacheMiss key])
      else beginResolve cfg a x

/-- One read's worth of the buffer size. -/
def chunk (cfg : Config) : Nat := min cfg.ioChunkBytes 65536

def doReadClient (cfg : Config) (a : Answers) (x : Exec) : Exec :=
  match readSome (chunk cfg) a.recv with
  | (.wouldBlock, _) => x
  | (.error, _) => finish a (x.log [.clientGone])
  | (.closed, _) => finish a (x.log [.clientGone])
  | (.ok, data) =>
    let x := { x with
      conn := { x.conn with inClient := x.conn.inClient ++ data }
      trace := x.trace ++ [.recvClient data] }
    if x.conn.parsed then awaitBody cfg a x
    else
      let p := parseRequest x.conn.inClient x.conn.req
      let x := { x with conn := { x.conn with req := p.2 } }
      match p.1 with
      | .incomplete => if cfg.maxHeaderBytes < x.conn.inClient.length then failWith badRequest x else x
      | .badRequest => failWith badRequest x
      | .notImplemented => failWith notImplemented x
      | .ok =>
        if cfg.maxBodyBytes < p.2.contentLength then failWith payloadTooLarge x
        else awaitBody cfg a { x with conn := { x.conn with parsed := true } }

def doWriteUpstream (a : Answers) (x : Exec) : Exec :=
  let c := x.conn
  match writeSome (c.outUpstream.length - c.outUpstreamOff) a.send with
  | (.wouldBlock, _) => x
  | (.ok, n) =>
    let x := x.log [.sentUpstream c.upstream (substr c.outUpstream c.outUpstreamOff n)]
    if c.outUpstreamOff + n < c.outUpstream.length then
      { x with conn := { c with outUpstreamOff := c.outUpstreamOff + n } }
    else
      { x with conn := { c with
          outUpstream := []
          outUpstreamOff := 0
          state := .relaying }.setWant .readUpstream }
  | _ => failWith badGateway (x.log [.upstreamSendFailed])

/-- The cache accumulator takes a read, or latches "too big" and empties. -/
def accumulate (cfg : Config) (data : Bytes) (c : Connection) : Connection :=
  if c.cacheKey ≠ [] ∧ !c.cacheTooBig then
    if cfg.cacheMaxEntryBytes < c.cacheAccum.length + data.length then
      { c with cacheTooBig := true, cacheAccum := [] }
    else { c with cacheAccum := c.cacheAccum ++ data }
  else c

def doReadUpstream (cfg : Config) (a : Answers) (x : Exec) : Exec :=
  match readSome (chunk cfg) a.recv with
  | (.wouldBlock, _) => x
  | (.error, _) => finish a (x.log [.upstreamRecvFailed])
  | (.closed, _) =>
    let x := x.log [.upstreamEof]
    let x := storeInCache (resetUpstream { x with conn := { x.conn with upstreamEof := true } })
    if x.conn.outClient.length ≤ x.conn.outClientOff then finish a x
    else { x with conn := x.conn.setWant .writeClient }
  | (.ok, data) =>
    let c := accumulate cfg data x.conn
    { x with
      conn := { c with outClient := c.outClient ++ data }.setWant .writeClient
      trace := x.trace ++ [.recvUpstream data] }

def doWriteClient (a : Answers) (x : Exec) : Exec :=
  let c := x.conn
  match writeSome (c.outClient.length - c.outClientOff) a.send with
  | (.wouldBlock, _) => x
  | (.ok, n) =>
    let x := x.log [.sentClient (substr c.outClient c.outClientOff n)]
    if c.outClientOff + n < c.outClient.length then
      { x with conn := { c with outClientOff := c.outClientOff + n } }
    else
      let x := { x with conn := { c with outClient := [], outClientOff := 0 } }
      if c.state = .failing ∨ c.upstreamEof then finish a x
      else { x with conn := x.conn.setWant .readUpstream }
  | _ => finish a (x.log [.clientSendFailed])

/-- `Connection::on_ready`. -/
def onReady (cfg : Config) (a : Answers) (x : Exec) : Exec :=
  match x.conn.want with
  | .readClient => doReadClient cfg a x
  | .writeClient => doWriteClient a x
  | .readUpstream => doReadUpstream cfg a x
  | .readResolver => finishResolve a x
  | .writeUpstream => if x.conn.state = .connecting then finishConnect a x else doWriteUpstream a x
  | .none => finish a x

end EvProxy
