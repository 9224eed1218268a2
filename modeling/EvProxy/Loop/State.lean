import EvProxy.Proxy.System

/-!
# The event loop (`backend/event_loop.cpp`)

One `EventLoop`: its table of live connections, the kqueue, the batch of events
it is working through, and the hand-off queue of a shard. The kqueue is a map
from a descriptor number and a filter to `udata`; closing a descriptor removes
every entry of its number. The connections themselves live in a `Proxy`, whose
other moves stand for the rest of the process: the resolver's threads, the
acceptor, other shards.
-/

namespace EvProxy
open Runs

/-- The `udata` of a registration: the null pointer of the listener, `INBOX_TAG`,
or a `Connection*`. The `key` is not there at run time: it names the object that
was at the address when the entry was made. -/
inductive Udata where
  | listener
  | inbox
  | conn (ptr key : Nat)
  deriving DecidableEq

/-- A descriptor and a filter, `true` for `EVFILT_WRITE`. -/
abbrev Reg := Nat × Bool

abbrev Kqueue := Reg → Option Udata

/-- What is left of a kqueue after these events: closing removes all entries of a number. -/
def Kqueue.close (kq : Kqueue) (events : List Event) : Kqueue := fun reg =>
  if .closed reg.1 ∈ events then none else kq reg

/-- An entry of `live_`: the connection it owns and the registration made for it. -/
structure Slot where
  key : Nat
  fd : Nat
  write : Bool
  epoch : UInt64

def Slot.reg (slot : Slot) : Reg := (slot.fd, slot.write)

structure Loop where
  proxy : Proxy
  kq : Kqueue
  /-- `live_`, by the address of the connection. -/
  live : Nat → Option Slot := fun _ => none
  /-- The descriptors in the inbox. -/
  queue : List Nat := []
  /-- The rest of the batch `kevent` returned. -/
  pending : List (Reg × Udata) := []
  nextId : Nat := 0
  /-- The descriptor new connections come by: the listener, or the inbox of a shard. -/
  entrance : Nat
  sharded : Bool
  stopping : Bool := false

/-- A descriptor for a new connection, where its object is put, and whether `arm` succeeds. -/
structure Newcomer where
  client : Nat
  ptr : Nat
  armed : Bool

/-- The outcomes of `accept_one`. -/
inductive Accept where
  | ok (newcomer : Newcomer)
  | wouldBlock
  | outOfFds
  | error

/-- Everything the world decides while one event is handled. -/
structure Turn where
  answers : Answers := {}
  /-- The second registration of `service` succeeds. -/
  armed : Bool := true
  /-- For the job that a destroyed connection may still hold. -/
  lastRef : Bool := true
  accepts : List Accept := []
  /-- For each descriptor from the inbox, the address of its connection and the outcome of `arm`. -/
  place : Nat → Nat × Bool := fun client => (client, true)

namespace Loop

/-- The loop once `run` has armed its entrance. -/
def start (cfg : Config) (opened : Finset Nat) (entrance : Nat) (sharded : Bool) : Loop where
  proxy := .start cfg opened
  kq := Function.update (fun _ => none) (entrance, false) (some (if sharded then .inbox else .listener))
  entrance := entrance
  sharded := sharded

def arm (reg : Reg) (udata : Udata) (l : Loop) : Loop := { l with kq := Function.update l.kq reg (some udata) }

def disarm (reg : Reg) (l : Loop) : Loop := { l with kq := Function.update l.kq reg none }

/-- A move of the process; what it closes falls out of the kqueue. -/
def move (cfg : Config) (m : Move) (events : List Event) (l : Loop) : Loop :=
  { l with proxy := l.proxy.next cfg m, kq := l.kq.close events }

/-- The destructor of a connection. -/
def destroy (cfg : Config) (key : Nat) (lastRef : Bool) (l : Loop) : Loop :=
  match l.proxy.entries key with
  | some ⟨s, true⟩ => l.move cfg (.destroy key lastRef) (s.conn.finishEvents lastRef)
  | _ => l

/-- `live_.erase`. -/
def erase (cfg : Config) (ptr : Nat) (slot : Slot) (lastRef : Bool) (l : Loop) : Loop :=
  { l with live := Function.update l.live ptr none }.destroy cfg slot.key lastRef

/-- Arm what the connection waits on and note it in its slot. -/
def attach (ptr key : Nat) (c : Connection) (fd : Nat) (l : Loop) : Loop :=
  { l.arm (fd, c.wantWrite) (.conn ptr key) with
    live := Function.update l.live ptr (some ⟨key, fd, c.wantWrite, c.epoch⟩) }

/-- The body that `do_accept` and `take_from_inbox` share: construct, arm, enter into `live_`. -/
def enrol (cfg : Config) (how : Nat → Nat → Nat → Move) (l : Loop) (n : Newcomer) : Loop :=
  let key := l.nextId
  let c := Connection.init n.client key
  let l := { l with proxy := l.proxy.next cfg (how key n.client key), nextId := key + 1 }
  match c.wantFd with
  | none => l.destroy cfg key true
  | some fd => if n.armed then l.attach n.ptr key c fd else l.destroy cfg key true

/-- The connections accepted before the first result that is not `Ok`. -/
def newcomers : List Accept → List Newcomer
  | .ok n :: rest => n :: newcomers rest
  | _ => []

def doAccept (cfg : Config) (accepts : List Accept) (l : Loop) : Loop := run (enrol cfg .accept) l (newcomers accepts)

/-- What `take_from_inbox` makes of the queue. -/
def handed (place : Nat → Nat × Bool) (queue : List Nat) : List Newcomer :=
  queue.map fun client => ⟨client, (place client).1, (place client).2⟩

def takeFromInbox (cfg : Config) (place : Nat → Nat × Bool) (l : Loop) : Loop :=
  run (enrol cfg .adopt) { l with queue := [] } (handed place l.queue)

def service (cfg : Config) (ptr : Nat) (turn : Turn) (l : Loop) : Loop :=
  match l.live ptr with
  | none => l  -- already finished earlier in this batch
  | some slot =>
    match l.proxy.entries slot.key with
    | some ⟨s, true⟩ =>
      let x := onReady cfg turn.answers ⟨s.conn, l.proxy.cache, []⟩
      let l := l.move cfg (.ready slot.key turn.answers) x.trace
      if x.conn.done then (l.disarm slot.reg).erase cfg ptr slot turn.lastRef
      else
        match x.conn.wantFd with
        | none => (l.disarm slot.reg).erase cfg ptr slot turn.lastRef
        | some fd =>
          if x.conn.epoch ≠ slot.epoch then
            let l := l.disarm slot.reg
            if turn.armed then l.attach ptr slot.key x.conn fd else l.erase cfg ptr slot turn.lastRef
          else l
    | _ => l  -- a slot owns its connection, so there is one

/-- One event of the batch. After `stop` the entrance is no longer armed and `drain` only serves. -/
def handle (cfg : Config) (udata : Udata) (turn : Turn) (l : Loop) : Loop :=
  match udata with
  | .inbox => if l.stopping then l else l.takeFromInbox cfg turn.place
  | .listener => if l.stopping then l else l.doAccept cfg turn.accepts
  | .conn ptr _ => l.service cfg ptr turn

end Loop

/-- What can happen next: `kevent` returns a batch, the next event of the batch is
handled, another thread opens or closes a descriptor or fills the inbox, or the
loop leaves its main part for `drain`. -/
inductive Action where
  | poll (regs : List Reg)
  | dispatch (turn : Turn)
  | opens (fd : Nat)
  | closes (fd : Nat)
  | push (fd : Nat)
  | stop

namespace Loop

def next (cfg : Config) (l : Loop) : Action → Loop
  | .poll regs => { l with pending := regs.filterMap fun reg => (l.kq reg).map fun udata => (reg, udata) }
  | .dispatch turn =>
    match l.pending with
    | [] => l
    | (_, udata) :: rest => { l with pending := rest }.handle cfg udata turn
  | .opens fd => l.move cfg (.opens fd) []
  | .closes fd => l.move cfg (.closes fd) [.closed fd]
  | .push fd => { l.move cfg (.opens fd) [] with queue := l.queue ++ [fd] }
  | .stop =>
    let l := { l.disarm (l.entrance, false) with stopping := true }
    if l.sharded then l else l.move cfg (.closes l.entrance) [.closed l.entrance]

/-- What the allocator promises for a new connection, and the kernel for a new descriptor. -/
def Admits (new : Bool) (l : Loop) (n : Newcomer) : Prop :=
  l.live n.ptr = none ∧ (new = true → n.client ∉ l.proxy.opened)

/-- The promises while one event is handled. -/
def Handles (cfg : Config) (udata : Udata) (turn : Turn) (l : Loop) : Prop :=
  match udata with
  | .inbox => Legal (Admits false) (enrol cfg .adopt) { l with queue := [] } (handed turn.place l.queue)
  | .listener => Legal (Admits true) (enrol cfg .accept) l (newcomers turn.accepts)
  | .conn ptr _ => ∀ slot, l.live ptr = some slot → l.proxy.Allowed cfg (.ready slot.key turn.answers)

/-- What the kernel, the allocator and the rest of the process promise. `kevent`
reports a registration at most once in a batch; nobody closes a descriptor of
a connection, of the inbox, or the entrance before `stop`. -/
def Allowed (cfg : Config) (l : Loop) : Action → Prop
  | .poll regs => l.pending = [] ∧ regs.Nodup
  | .dispatch turn =>
    match l.pending with
    | [] => True
    | (_, udata) :: rest => Handles cfg udata turn { l with pending := rest }
  | .opens fd => fd ∉ l.proxy.opened
  | .closes fd => l.proxy.Allowed cfg (.closes fd) ∧ fd ∉ l.queue ∧ (l.stopping = false → fd ≠ l.entrance)
  | .push fd => fd ∉ l.proxy.opened
  | .stop => l.pending = [] ∧ l.stopping = false

end Loop

end EvProxy
