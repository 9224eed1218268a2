import EvProxy.Resolver.State
import EvProxy.Socket.Calls

/-!
# The handlers of a connection, one call at a time (`connection.cpp`, `resolver.cpp`)

The same functions as in `Conn.Handlers`, translated again with every call to the
kernel and to the shared objects in its place, and with nothing but the
connection as their state. `serve` is the life of a connection on a thread of its
own, from the constructor to the destructor.
-/

namespace EvProxy.Kernel
open Text Dialogue

/-- Dropping the job. The last reference closes the read end; the worker that let go before has
reset the write end. -/
def resetJob : Option ResolveJob → Sys Unit
  | some job => do
    let last ← ask (.dropJob job)
    if last.ret ≠ 0 then reset (some job.readEnd) else pure ()
  | none => pure ()

def failWith (response : Bytes) (c : Connection) : Sys Connection := do
  reset c.upstream
  pure ({ c with upstream := none, outClient := response, outClientOff := 0, state := .failing }.setWant .writeClient)

def finish (c : Connection) : Sys Connection := do
  let c := { c with state := .done }.setWant .none
  resetJob c.resolveJob
  reset c.upstream
  reset c.client
  pure { c with resolveJob := none, upstream := none, client := none }

/-! ## Connecting -/

def connectLoop : List Endpoint → Connection → Sys Connection
  | [], c => failWith badGateway c
  | endpoint :: rest, c => do
    let st ← startConnect endpoint
    let c := { c with endpointIdx := c.endpointIdx + 1 }
    match st.1 with
    | .failed => connectLoop rest c
    | .connected => do
      reset c.upstream
      pure ({ c with upstream := st.2, state := .sendingUpstream }.setWant .writeUpstream)
    | .inProgress => do
      reset c.upstream
      pure ({ c with upstream := st.2, state := .connecting }.setWant .writeUpstream)

def beginConnect (c : Connection) : Sys Connection := connectLoop (c.endpoints.drop c.endpointIdx) c

def finishConnect (c : Connection) : Sys Connection := do
  let ok ← connectSucceeded c.upstream
  if !ok then do
    reset c.upstream
    beginConnect { c with upstream := none }
  else pure ({ c with state := .sendingUpstream }.setWant .writeUpstream)

/-! ## Resolving -/

def resolveBlocking (host port : Bytes) : Sys (Option (List Endpoint)) := do
  let cached ← ask (.dnsGet (Resolver.key host port))
  if cached.ret ≠ 0 then pure (some cached.addresses)
  else do
    let found ← resolve host port
    match found with
    | none => pure none
    | some endpoints => do
      let _ ← ask (.dnsPut (Resolver.key host port) endpoints)
      pure (some endpoints)

/-- The destructor of a job nobody else has seen. -/
def destroyJob (ends : Nat × Nat) : Sys Unit := do
  reset (some ends.2)
  reset (some ends.1)

/-- `Resolver::start`. -/
def start (host port : Bytes) : Sys Start := do
  let cached ← ask (.dnsGet (Resolver.key host port))
  if cached.ret ≠ 0 then pure (.hit cached.addresses)
  else do
    let made ← makePipe
    match made.2 with
    | none => pure (.failed none)
    | some ends =>
      if !made.1 then do
        destroyJob ends
        pure (.failed (some ends))
      else do
        let pushed ← ask (.queuePush ⟨ends.1, ends.2, host, port⟩)
        if pushed.ret = 0 then do
          destroyJob ends
          pure (.failed (some ends))
        else pure (.pending ends.1 ends.2)

def beginResolve (cfg : Config) (c : Connection) : Sys Connection :=
  if !cfg.asyncResolve then do
    let found ← resolveBlocking c.req.host c.req.port
    match found with
    | none => failWith badGateway c
    | some endpoints => beginConnect { c with endpoints := endpoints, endpointIdx := 0 }
  else do
    let status ← start c.req.host c.req.port
    match status with
    | .hit endpoints => beginConnect { c with endpoints := endpoints, endpointIdx := 0 }
    | .pending readEnd writeEnd =>
      pure ({ c with
        resolveJob := some ⟨readEnd, writeEnd, c.req.host, c.req.port⟩
        state := .resolving }.setWant .readResolver)
    | .failed _ => failWith badGateway c

def finishResolve (c : Connection) : Sys Connection :=
  match c.resolveJob with
  | none => pure c
  | some job => do
    let _ ← ask (.read job.readEnd 8)
    let view ← ask (.jobView job)
    if !view.job.ready then pure c
    else do
      let endpoints := if view.job.ok then view.job.endpoints else c.endpoints
      resetJob (some job)
      let c := { c with endpoints := endpoints, resolveJob := none }
      if !view.job.ok then failWith badGateway c else beginConnect { c with endpointIdx := 0 }

/-! ## The client and the origin -/

/-- `hasCache` is `cache_ != nullptr`. -/
def awaitBody (cfg : Config) (hasCache : Bool) (c : Connection) : Sys Connection :=
  if c.inClient.length < sizeAdd c.req.headerBytes c.req.contentLength then pure c
  else
    let body := substr c.inClient c.req.headerBytes c.req.contentLength
    let c := { c with outUpstream := buildUpstreamRequest c.req body, outUpstreamOff := 0 }
    if hasCache ∧ cacheableRequest cfg c.req then do
      let key := cacheKey c.req.method c.req.host c.req.port c.req.path
      let c := { c with cacheKey := key }
      let got ← ask (.cacheGet key)
      if got.ret ≠ 0 then failWith got.data c else beginResolve cfg c
    else beginResolve cfg c

def doReadClient (cfg : Config) (hasCache : Bool) (c : Connection) : Sys Connection := do
  let r ← readSome .client c.client (chunk cfg)
  match r.1 with
  | .wouldBlock => pure c
  | .error => finish c
  | .closed => finish c
  | .ok =>
    let c := { c with inClient := c.inClient ++ r.2 }
    if c.parsed then awaitBody cfg hasCache c
    else
      let p := parseRequest c.inClient c.req
      let c := { c with req := p.2 }
      match p.1 with
      | .incomplete => if cfg.maxHeaderBytes < c.inClient.length then failWith badRequest c else pure c
      | .badRequest => failWith badRequest c
      | .notImplemented => failWith notImplemented c
      | .ok =>
        if cfg.maxBodyBytes < c.req.contentLength then failWith payloadTooLarge c
        else awaitBody cfg hasCache { c with parsed := true }

def doWriteUpstream (c : Connection) : Sys Connection := do
  let r ← writeSome .upstream c.upstream (c.outUpstream.drop c.outUpstreamOff)
  match r.1 with
  | .wouldBlock => pure c
  | .ok =>
    let off := c.outUpstreamOff + r.2
    if off < c.outUpstream.length then pure { c with outUpstreamOff := off }
    else pure ({ c with outUpstream := [], outUpstreamOff := 0, state := .relaying }.setWant .readUpstream)
  | _ => failWith badGateway c

def storeInCache (hasCache : Bool) (c : Connection) : Sys Unit :=
  if !hasCache ∨ c.cacheKey = [] ∨ c.cacheTooBig then pure ()
  else if !c.upstreamEof then pure ()
  else if !storable c.cacheAccum then pure ()
  else do
    let _ ← ask (.cachePut c.cacheKey c.cacheAccum)
    pure ()

def doReadUpstream (cfg : Config) (hasCache : Bool) (c : Connection) : Sys Connection := do
  let r ← readSome .upstream c.upstream (chunk cfg)
  match r.1 with
  | .wouldBlock => pure c
  | .error => finish c
  | .closed => do
    let c := { c with upstreamEof := true }
    reset c.upstream
    let c := { c with upstream := none }
    storeInCache hasCache c
    if c.outClient.length ≤ c.outClientOff then finish c else pure (c.setWant .writeClient)
  | .ok =>
    let c := accumulate cfg r.2 c
    pure ({ c with outClient := c.outClient ++ r.2 }.setWant .writeClient)

def doWriteClient (c : Connection) : Sys Connection := do
  let r ← writeSome .client c.client (c.outClient.drop c.outClientOff)
  match r.1 with
  | .wouldBlock => pure c
  | .ok =>
    let off := c.outClientOff + r.2
    if off < c.outClient.length then pure { c with outClientOff := off }
    else
      let c := { c with outClient := [], outClientOff := 0 }
      if c.state = .failing ∨ c.upstreamEof then finish c else pure (c.setWant .readUpstream)
  | _ => finish c

/-- `Connection::on_ready`. -/
def onReady (cfg : Config) (hasCache : Bool) (c : Connection) : Sys Connection :=
  match c.want with
  | .readClient => doReadClient cfg hasCache c
  | .writeClient => doWriteClient c
  | .readUpstream => doReadUpstream cfg hasCache c
  | .readResolver => finishResolve c
  | .writeUpstream => if c.state = .connecting then finishConnect c else doWriteUpstream c
  | .none => finish c

/-! ## A connection on a thread of its own -/

/-- The destructor: the members in reverse order. -/
def destroy (c : Connection) : Sys Unit := do
  resetJob c.resolveJob
  reset c.upstream
  reset c.client

/-- One round of the loop of `serve`: whether it goes on, and the connection. -/
def serveRound (cfg : Config) (hasCache : Bool) (c : Connection) : Sys (Bool × Connection) :=
  if c.done then pure (false, c)
  else
    match c.wantFd with
    | none => pure (false, c)
    | some fd => do
      let ready ← waitReady fd c.wantWrite cfg.pollTimeoutMs
      if !ready then pure (false, c)
      else do
        let c ← onReady cfg hasCache c
        pure (true, c)

/-- `serve`, from the constructor to the destructor. -/
def serve (cfg : Config) (hasCache : Bool) (client id : Nat) : Sys Unit := do
  let _ ← setNonblocking client
  let c ← loop (serveRound cfg hasCache) (.init client id)
  destroy c

end EvProxy.Kernel
