import EvProxy.Dialogue
import EvProxy.Conn.Handlers

/-!
# The calls of `socket.cpp`

The functions of `socket.cpp` one system call at a time. A `Query` is one
question to the rest of the process or to the kernel, a `Reply` holds its return
value, `errno` and out-parameters, and a `Sys` program goes from reply to reply.
The `for (;;)` loops around `EINTR` are `askUntil`. The resolver and the response
cache are shared objects behind their mutexes, so each of their methods is one
query too.
-/

namespace EvProxy.Kernel
open Dialogue

/-- The values of `errno` the code tells apart. -/
inductive Errno where
  | eintr
  | eagain
  | ewouldblock
  | einprogress
  | other (code : Nat)
  deriving DecidableEq

/-- Which member of the connection a descriptor was read from. -/
inductive Side where
  | client
  | upstream
  deriving DecidableEq

inductive Query where
  | recv (side : Side) (fd : Fd) (len : Nat)
  | send (side : Side) (fd : Fd) (data : Bytes)
  | read (fd len : Nat)
  | socket (endpoint : Endpoint)
  /-- `setsockopt` with `SO_NOSIGPIPE`. -/
  | setNosigpipe (fd : Nat)
  | getFlags (fd : Nat)
  | setFlags (fd flags : Nat)
  | connect (fd : Nat) (endpoint : Endpoint)
  | socketError (fd : Fd)
  | pipe
  | close (fd : Nat)
  | poll (fd : Nat) (forWrite : Bool) (timeout : Int)
  | getaddrinfo (host port : Bytes)
  /-- `Resolver::cache_get` and `cache_put`. -/
  | dnsGet (key : Bytes)
  | dnsPut (key : Bytes) (endpoints : List Endpoint)
  /-- The locked block of `Resolver::start`, and the wakeup. -/
  | queuePush (job : ResolveJob)
  /-- `ready` with acquire, then the result fields. -/
  | jobView (job : ResolveJob)
  /-- The connection drops its `shared_ptr`. -/
  | dropJob (job : ResolveJob)
  | cacheGet (key : Bytes)
  | cachePut (key response : Bytes)
  deriving DecidableEq

/-- A return value with the out-parameters that some query has. A method that
returns `bool` returns 0 or not 0. -/
structure Reply where
  ret : Int := 0
  errno : Errno := .other 0
  data : Bytes := []
  ends : Nat × Nat := (0, 0)
  soError : Int := 0
  addresses : List Endpoint := []
  job : JobView := {}
  deriving DecidableEq

abbrev Sys (α : Type) := Program Query Reply α

/-- What the kernel keeps to: it fills at most the buffer it was given, and takes at most what it was offered. -/
def Fits : Query → Reply → Prop
  | .recv _ _ len, r => r.ret ≤ len ∧ (0 < r.ret → (r.data.length : Int) = r.ret)
  | .send _ _ data, r => r.ret ≤ data.length
  | _, _ => True

/-! ## Descriptors -/

/-- `Fd::reset()`, and the destructor. -/
def reset : Fd → Sys Unit
  | some fd => do
    let _ ← ask (.close fd)
    pure ()
  | none => pure ()

/-- `O_NONBLOCK`. -/
def oNonblock : Nat := 4

def setNonblocking (fd : Nat) : Sys Bool := do
  let flags ← ask (.getFlags fd)
  if flags.ret < 0 then pure false
  else do
    let set ← ask (.setFlags fd (flags.ret.toNat ||| oNonblock))
    pure (set.ret = 0)

/-- `make_pipe`: whether it succeeded, and the two ends it leaves in its arguments. -/
def makePipe : Sys (Bool × Option (Nat × Nat)) := do
  let made ← ask .pipe
  if made.ret ≠ 0 then pure (false, none)
  else do
    let set ← setNonblocking made.ends.1
    pure (set, some made.ends)

/-! ## Reading and writing -/

/-- One turn of the loop of `read_some`; `none` is its `continue`. -/
def recvSettle (r : Reply) : Option (IoStatus × Bytes) :=
  if 0 < r.ret then some (.ok, r.data.take r.ret.toNat)
  else if r.ret = 0 then some (.closed, [])
  else if r.errno = .eintr then none
  else if r.errno = .eagain ∨ r.errno = .ewouldblock then some (.wouldBlock, [])
  else some (.error, [])

def readSome (side : Side) (fd : Fd) (len : Nat) : Sys (IoStatus × Bytes) :=
  askUntil (.recv side fd len) recvSettle

/-- One turn of the loop of `write_some`. -/
def sendSettle (r : Reply) : Option (IoStatus × Nat) :=
  if 0 ≤ r.ret then some (.ok, r.ret.toNat)
  else if r.errno = .eintr then none
  else if r.errno = .eagain ∨ r.errno = .ewouldblock then some (.wouldBlock, 0)
  else some (.error, 0)

def writeSome (side : Side) (fd : Fd) (data : Bytes) : Sys (IoStatus × Nat) :=
  askUntil (.send side fd data) sendSettle

def waitReady (fd : Nat) (forWrite : Bool) (timeout : Int) : Sys Bool :=
  askUntil (.poll fd forWrite timeout) fun r =>
    if 0 < r.ret then some true
    else if r.ret = 0 then some false
    else if r.errno = .eintr then none
    else some false

/-! ## Connecting -/

/-- `sizeof(sockaddr_storage)`. -/
def sockaddrStorage : Nat := 128

/-- `resolve`: every address that fits, `none` for a failed lookup or an empty list. -/
def resolve (host port : Bytes) : Sys (Option (List Endpoint)) := do
  let found ← ask (.getaddrinfo host port)
  if found.ret ≠ 0 then pure none
  else
    let out := found.addresses.filter fun e => e.addr.length ≤ sockaddrStorage
    pure (if out = [] then none else some out)

/-- `start_connect`: the status and what it leaves in `out`. The local `Fd` closes its socket on
every way out that did not move it. -/
def startConnect (endpoint : Endpoint) : Sys (ConnectStatus × Fd) := do
  let made ← ask (.socket endpoint)
  if made.ret < 0 then pure (.failed, none)
  else do
    let fd := made.ret.toNat
    let _ ← ask (.setNosigpipe fd)
    let set ← setNonblocking fd
    if !set then do
      reset (some fd)
      pure (.failed, none)
    else do
      let rc ← ask (.connect fd endpoint)
      if rc.ret = 0 then pure (.connected, some fd)
      else if rc.errno = .einprogress ∨ rc.errno = .eintr then pure (.inProgress, some fd)
      else do
        reset (some fd)
        pure (.failed, none)

def connectSucceeded (fd : Fd) : Sys Bool := do
  let got ← ask (.socketError fd)
  pure (got.ret = 0 ∧ got.soError = 0)

end EvProxy.Kernel
