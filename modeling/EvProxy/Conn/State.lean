import EvProxy.Config
import EvProxy.Http.Request
import EvProxy.Cache.Lru

/-!
# A connection and its surroundings (`connection.hpp`, `socket.hpp`, `resolver.hpp`)

`Connection` has the fields of the class. What the rest of the world decides
during one `on_ready()` (the kernel, the resolver, the address lookup) is an
`Answers`; what the call does to the world is a list of `Event`s. Descriptors
are numbers the kernel hands out, and the only thing the code does with one is
to pass it back.
-/

namespace EvProxy

/-- An owning descriptor; `none` is the invalid `-1`. -/
abbrev Fd := Option Nat

inductive Want where
  | readClient
  | writeClient
  | readUpstream
  | writeUpstream
  | readResolver
  | none
  deriving DecidableEq

inductive State where
  | readingRequest
  | resolving
  | connecting
  | sendingUpstream
  | relaying
  | failing
  | done
  deriving DecidableEq

/-- One candidate address; the code only hands it to `socket` and `connect`. -/
structure Endpoint where
  addr : Bytes
  family : Int
  socktype : Int
  protocol : Int
  deriving DecidableEq

/-- The connection's handle on an outstanding lookup. The result fields of
`ResolveJob` belong to the resolver; a handler sees them in its `Answers`. -/
structure ResolveJob where
  readEnd : Nat
  writeEnd : Nat
  host : Bytes
  port : Bytes
  deriving DecidableEq

structure Connection where
  client : Fd
  upstream : Fd := none
  id : Nat
  state : State := .readingRequest
  want : Want := .readClient
  epoch : UInt64 := 0
  req : Request := {}
  parsed : Bool := false
  resolveJob : Option ResolveJob := none
  endpoints : List Endpoint := []
  endpointIdx : Nat := 0
  inClient : Bytes := []
  outUpstream : Bytes := []
  outUpstreamOff : Nat := 0
  outClient : Bytes := []
  outClientOff : Nat := 0
  upstreamEof : Bool := false
  cacheKey : Bytes := []
  cacheAccum : Bytes := []
  cacheTooBig : Bool := false
  deriving DecidableEq

namespace Connection

/-- A connection just constructed around an accepted descriptor. -/
def init (client id : Nat) : Connection := { client := some client, id := id }

def wantFd (c : Connection) : Fd :=
  match c.want with
  | .readClient | .writeClient => c.client
  | .readUpstream | .writeUpstream => c.upstream
  | .readResolver => c.resolveJob.map ResolveJob.readEnd
  | .none => Option.none

def wantWrite (c : Connection) : Bool := c.want = .writeClient || c.want = .writeUpstream

def done (c : Connection) : Bool := c.state = .done

/-- Every change of intent goes through here, so none forgets the epoch. -/
def setWant (c : Connection) (w : Want) : Connection := { c with want := w, epoch := c.epoch + 1 }

end Connection

/-! ## Non-blocking input and output -/

inductive IoStatus where
  | ok
  | wouldBlock
  | closed
  | error
  deriving DecidableEq

/-- What the kernel has for one `recv`: bytes (none of them: the peer closed),
nothing yet, or an error. -/
inductive Recv where
  | bytes (available : Bytes)
  | wouldBlock
  | error

/-- What the kernel does with one `send`. -/
inductive Send where
  | accepts (n : Nat)
  | wouldBlock
  | error

/-- `read_some(fd, buf, len)`: at most `len` bytes; a `recv` of 0 bytes is `closed`. -/
def readSome (len : Nat) : Recv → IoStatus × Bytes
  | .bytes available =>
    let got := available.take len
    if got = [] then (.closed, []) else (.ok, got)
  | .wouldBlock => (.wouldBlock, [])
  | .error => (.error, [])

/-- `write_some(fd, buf, len)`: how many of the `len` bytes were taken. -/
def writeSome (len : Nat) : Send → IoStatus × Nat
  | .accepts n => (.ok, min n len)
  | .wouldBlock => (.wouldBlock, 0)
  | .error => (.error, 0)

/-! ## What the world answers, and what it sees -/

/-- The outcomes of `socket`, `fcntl` and `connect` for one candidate. -/
inductive Dial where
  | noSocket
  | noNonblock (fd : Nat)
  | connected (fd : Nat)
  | inProgress (fd : Nat)
  | refused (fd : Nat)

/-- The outcomes of `Resolver::start`. A failure may have opened and closed the
two ends of a pipe. -/
inductive Start where
  | hit (endpoints : List Endpoint)
  | pending (readEnd writeEnd : Nat)
  | failed (ends : Option (Nat × Nat))

/-- The result fields of a `ResolveJob` as `finish_resolve` finds them. -/
structure JobView where
  ready : Bool := false
  ok : Bool := false
  endpoints : List Endpoint := []
  deriving DecidableEq

/-- Everything the world may decide during one `on_ready()`. -/
structure Answers where
  recv : Recv := .wouldBlock
  send : Send := .wouldBlock
  /-- `resolve_blocking`: the endpoints, or a failed lookup. -/
  lookup : Option (List Endpoint) := none
  start : Start := .failed none
  job : JobView := {}
  /-- Dropping the job drops the last reference to it. -/
  lastRef : Bool := true
  /-- The outcome for the candidate at each position of the list. -/
  dial : Nat → Dial := fun _ => .noSocket
  /-- `connect_succeeded`. -/
  connectOk : Bool := false

/-- What an observer of the process sees. -/
inductive Event where
  | recvClient (data : Bytes)
  | clientGone
  | sentClient (data : Bytes)
  | clientSendFailed
  | recvUpstream (data : Bytes)
  | upstreamEof
  | upstreamRecvFailed
  | sentUpstream (fd : Fd) (data : Bytes)
  | upstreamSendFailed
  | attempt (endpoint : Endpoint)
  | connected (fd : Fd)
  | opened (fd : Nat)
  | closed (fd : Nat)
  /-- The connection leaves a descriptor to the resolver. -/
  | released (fd : Nat)
  | cacheHit (key response : Bytes)
  | cacheMiss (key : Bytes)
  | cachePut (key response : Bytes)
  deriving DecidableEq

end EvProxy
