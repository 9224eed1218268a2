import EvProxy.Runs
import EvProxy.Mailbox
import EvProxy.Leases
import EvProxy.Conn.State

/-!
# The resolver (`resolver.cpp`)

One machine for everything that happens to a `Resolver`: the two front ends
`resolve_blocking` and `start`, the threads in `worker_loop`, the four moments
at which `finish_resolve` touches a job, and `shutdown`. Each input is one step
between two points where another thread may run. The clock is the steady clock
in nanoseconds. The counters of lookups and cache hits and the injected delay
are left out.
-/

namespace EvProxy
open Runs Leases

/-- What `do_lookup` returns. -/
structure Found where
  ok : Bool
  endpoints : List Endpoint
  err : Bytes := []
  deriving DecidableEq

namespace Resolver

/-- What a thread does next with a job after the lookup, in the order of `worker_loop`. -/
inductive Stage where
  | endpoints
  | err
  | ok
  | cache
  | ready
  | write
  | close
  | drop
  deriving DecidableEq

def Stage.next : Stage → Option Stage
  | .endpoints => some .err
  | .err => some .ok
  | .ok => some .cache
  | .cache => some .ready
  | .ready => some .write
  | .write => some .close
  | .close => some .drop
  | .drop => none

/-- How many of the steps are done. -/
def Stage.rank : Stage → Nat
  | .endpoints => 0
  | .err => 1
  | .ok => 2
  | .cache => 3
  | .ready => 4
  | .write => 5
  | .close => 6
  | .drop => 7

inductive Duty where
  | looking
  | publishing (found : Found) (stage : Stage)
  deriving DecidableEq

inductive Worker where
  | waiting
  | on (j : Nat) (duty : Duty)
  | exited
  deriving DecidableEq

/-- A thread in `resolve_blocking`. -/
inductive Caller where
  | idle
  | looking (host port : Bytes)
  | storing (host port : Bytes) (endpoints : List Endpoint)
  deriving DecidableEq

/-- Where a job is, seen from the resolver. Proofs read it, the code does not. -/
inductive Status where
  | unmade
  | queued
  | held (i : Nat) (duty : Duty)
  | finished
  | discarded
  deriving DecidableEq

/-- A `ResolveJob` as the threads share it. The last four fields record its history. -/
structure Job where
  host : Bytes := []
  port : Bytes := []
  readEnd : Nat := 0
  writeEnd : Nat := 0
  endpoints : List Endpoint := []
  err : Bytes := []
  ok : Bool := false
  ready : Bool := false
  /-- What is in the pipe. -/
  bytes : Nat := 0
  writeOpen : Bool := true
  /-- The connection that asked. -/
  owner : Nat := 0
  found : Option Found := none
  written : Bool := false
  taken : Bool := false
  status : Status := .unmade

/-- What the lookups were and what went into the cache. -/
inductive Note where
  | looked (host port : Bytes) (found : Found)
  | stored (host port : Bytes) (endpoints : List Endpoint) (time : Int)
  deriving DecidableEq

end Resolver

abbrev CacheEntry := Lease (List Endpoint)

structure Resolver where
  /-- The number of threads. -/
  size : Nat
  cacheTtlS : Int
  jobs : Nat → Resolver.Job := fun _ => {}
  /-- The jobs made so far; they are numbered in that order. -/
  made : Nat := 0
  queue : Mailbox Nat := .empty
  closed : Bool := false
  workers : Nat → Resolver.Worker := fun _ => .waiting
  callers : Nat → Resolver.Caller := fun _ => .idle
  cache : Bytes → Option CacheEntry := fun _ => none
  now : Int := 0
  log : List Resolver.Note := []

namespace Resolver

/-- `start` is `get` and, after a miss, `push`. Nothing below needs the miss, so any `push` is allowed. -/
inductive Act where
  | tick (d : Nat)
  | get (host port : Bytes)
  | push (owner : Nat) (host port : Bytes) (readEnd writeEnd : Nat)
  | ask (c : Nat) (host port : Bytes)
  | lookup (c : Nat) (found : Found)
  | put (c : Nat)
  | work (i : Nat) (found : Found) (wrote : Bool)
  | drain (j : Nat)
  | take (j : Nat)
  | close
  | discard

/-- A second on the clock. -/
def second : Int := 1000000000

def key (host port : Bytes) : Bytes := host ++ bytes ":" ++ port

def note (r : Resolver) (n : Note) : Resolver := { r with log := r.log ++ [n] }

/-- A thread goes on in `resolve_blocking`. -/
def enter (r : Resolver) (c : Nat) (caller : Caller) : Resolver :=
  { r with callers := Function.update r.callers c caller }

def cacheGet (r : Resolver) (key : Bytes) : Option (List Endpoint) × Resolver :=
  match r.cache key with
  | none => (none, r)
  | some e =>
    if e.expires ≤ r.now then (none, { r with cache := Function.update r.cache key none })
    else (some e.value, r)

def cachePut (r : Resolver) (host port : Bytes) (endpoints : List Endpoint) : Resolver :=
  if r.cacheTtlS ≤ 0 then r
  else
    { r with
      cache := Function.update r.cache (key host port) (some ⟨endpoints, r.now + r.cacheTtlS * second⟩)
      log := r.log ++ [.stored host port endpoints r.now] }

/-- The enqueueing half of `start`. -/
def push (r : Resolver) (owner : Nat) (host port : Bytes) (readEnd writeEnd : Nat) : Resolver :=
  if r.closed then r
  else
    { r with
      jobs := Function.update r.jobs r.made
        { host := host, port := port, readEnd := readEnd, writeEnd := writeEnd, owner := owner, status := .queued }
      made := r.made + 1
      queue := r.queue.send r.made }

/-- What a step of `worker_loop` after the lookup does to the job. -/
def Stage.effect (found : Found) (wrote : Bool) : Stage → Job → Job
  | .endpoints, b => { b with endpoints := found.endpoints }
  | .err, b => { b with err := found.err }
  | .ok, b => { b with ok := found.ok }
  | .cache, b => b
  | .ready, b => { b with ready := true }
  | .write, b => { b with bytes := if wrote then b.bytes + 1 else b.bytes, written := true }
  | .close, b => { b with writeOpen := false }
  | .drop, b => b

/-- `if (ok) cache_put(...)` of `worker_loop`. -/
def storeFound (r : Resolver) (j : Nat) (found : Found) (stage : Stage) : Resolver :=
  if stage = .cache ∧ found.ok = true then r.cachePut (r.jobs j).host (r.jobs j).port (r.jobs j).endpoints else r

/-- A thread changes its job and goes on to its next duty. -/
def hold (r : Resolver) (i j : Nat) (duty : Duty) (change : Job → Job) : Resolver :=
  { r with
    workers := Function.update r.workers i (.on j duty)
    jobs := Function.update r.jobs j { change (r.jobs j) with status := .held i duty } }

/-- The end of the loop body: the thread lets go of its job. -/
def letGo (r : Resolver) (i j : Nat) : Resolver :=
  { r with
    workers := Function.update r.workers i .waiting
    jobs := Function.update r.jobs j { r.jobs j with status := .finished } }

/-- The next step of a thread; `found` is what a lookup returns, `wrote` whether the write succeeds. -/
def work (r : Resolver) (i : Nat) (found : Found) (wrote : Bool) : Resolver :=
  match r.workers i with
  | .waiting =>
    match r.queue.takeFront with
    | some (j, queue) => { r with queue := queue }.hold i j .looking id
    | none => if r.closed then { r with workers := Function.update r.workers i .exited } else r
  | .on j .looking =>
    (r.note (.looked (r.jobs j).host (r.jobs j).port found)).hold i j (.publishing found .endpoints) fun b =>
      { b with found := some found }
  | .on j (.publishing f stage) =>
    match stage.next with
    | some stage' => (r.storeFound j f stage).hold i j (.publishing f stage') (stage.effect f wrote)
    | none => r.letGo i j
  | .exited => r

def next (r : Resolver) : Act → Resolver
  | .tick d => { r with now := r.now + d }
  | .get host port => (r.cacheGet (key host port)).2
  | .push owner host port readEnd writeEnd => r.push owner host port readEnd writeEnd
  | .ask c host port =>
    match r.callers c with
    | .idle =>
      match r.cacheGet (key host port) with
      | (some _, r) => r
      | (none, r) => r.enter c (.looking host port)
    | _ => r
  | .lookup c found =>
    match r.callers c with
    | .looking host port =>
      (r.note (.looked host port found)).enter c (if found.ok then .storing host port found.endpoints else .idle)
    | _ => r
  | .put c =>
    match r.callers c with
    | .storing host port endpoints => (r.cachePut host port endpoints).enter c .idle
    | _ => r
  | .work i found wrote => if i < r.size then r.work i found wrote else r
  | .drain j => { r with jobs := Function.update r.jobs j { r.jobs j with bytes := 0 } }
  | .take j =>
    if (r.jobs j).ready then
      { r with
        jobs := Function.update r.jobs j
          { r.jobs j with endpoints := if (r.jobs j).ok then [] else (r.jobs j).endpoints, taken := true } }
    else r
  | .close => { r with closed := true }
  | .discard =>
    -- the destructor drops what is queued once the threads are joined
    if r.closed ∧ ∀ i < r.size, r.workers i = .exited then
      match r.queue.takeFront with
      | some (j, queue) =>
        { r with queue := queue, jobs := Function.update r.jobs j { r.jobs j with status := .discarded } }
      | none => r
    else r

def start (size : Nat) (cacheTtlS now : Int) : Resolver where
  size := size
  cacheTtlS := cacheTtlS
  now := now

end Resolver

end EvProxy
