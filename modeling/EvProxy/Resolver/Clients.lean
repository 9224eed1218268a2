import EvProxy.Proxy.Coherence
import EvProxy.Resolver.Wakeup

/-!
# Connections and the resolver

A `Hub` is a resolver with any number of connections around it. A connection's
`on_ready()` is one step, as everywhere, except in `finish_resolve`, which shares
the job with a thread: it drains the pipe, checks `ready`, takes the result and
drops the job, and others may run between any two of these.
-/

namespace EvProxy
open Runs Ledger

namespace Hub

/-- Where a connection is in `finish_resolve`. -/
inductive Pc where
  | outside
  | drained
  | seen
  | took (view : JobView)

/-- A connection, the job made for it, and what was opened and closed on its behalf. -/
structure Client where
  conn : Connection
  alive : Bool := true
  job : Option Nat := none
  pc : Pc := .outside
  log : List Event

/-- What the thread of a connection does. -/
inductive Turn where
  | call (a : Answers) (cache : Option LruCache)
  | drain
  | check
  | take
  | finish (a : Answers) (cache : Option LruCache)
  | destroy

inductive Act where
  | accept (key client id : Nat)
  | client (key : Nat) (turn : Turn)
  | world (act : Resolver.Act)
  | discard

/-- What happens to a resolver without the connections. -/
def background : Resolver.Act → Bool
  | .push _ _ _ _ _ | .drain _ | .take _ | .discard => false
  | _ => true

end Hub

structure Hub where
  resolver : Resolver
  clients : Nat → Option Hub.Client := fun _ => none

/-- The queue or a thread holds a reference to the job. -/
def Resolver.Job.referenced (b : Resolver.Job) : Bool :=
  match b.status with
  | .queued | .held _ _ => true
  | _ => false

namespace Hub

/-- The connection holds a reference to job `j`. -/
def Client.refers (c : Client) (j : Nat) : Bool := c.job = some j && c.conn.resolveJob.isSome

def refers (h : Hub) (j : Nat) : Bool :=
  match h.clients (h.resolver.jobs j).owner with
  | some c => c.refers j
  | none => false

/-- Dropping the connection's reference drops the last one. -/
def lastRef (h : Hub) (c : Client) : Bool :=
  match c.job with
  | some j => !(h.resolver.jobs j).referenced
  | none => true

def Client.hear (events : List Event) (c : Client) : Client := { c with log := c.log ++ events }

/-- What the step of a thread closes, and for whom. A job closes its pipe with its last reference. -/
def closes (h : Hub) : Resolver.Act → Option (Nat × Event)
  | .work i _ _ =>
    if i < h.resolver.size then
      match h.resolver.workers i with
      | .on j (.publishing _ .close) => some ((h.resolver.jobs j).owner, .closed (h.resolver.jobs j).writeEnd)
      | .on j (.publishing _ .drop) =>
        if h.refers j then none else some ((h.resolver.jobs j).owner, .closed (h.resolver.jobs j).readEnd)
      | _ => none
    else none
  | _ => none

def tell (h : Hub) (key : Nat) (events : List Event) : Nat → Option Client :=
  Function.update h.clients key ((h.clients key).map (Client.hear events))

def worldNext (h : Hub) (act : Resolver.Act) : Hub where
  resolver := h.resolver.next act
  clients :=
    match h.closes act with
    | some (key, e) => h.tell key [e]
    | none => h.clients

/-- The destructor of the resolver drops what is queued; the connections are gone by then. -/
def discard (h : Hub) : Hub :=
  match h.resolver.queue.takeFront with
  | some (j, _) =>
    if h.resolver.closed ∧ (∀ i < h.resolver.size, h.resolver.workers i = .exited) ∧ h.refers j = false then
      { resolver := h.resolver.next .discard
        clients := h.tell (h.resolver.jobs j).owner
          [.closed (h.resolver.jobs j).writeEnd, .closed (h.resolver.jobs j).readEnd] }
    else h
  | none => h

def set (h : Hub) (key : Nat) (c : Client) (resolver : Resolver) : Hub where
  resolver := resolver
  clients := Function.update h.clients key (some c)

/-- An `on_ready()` outside `finish_resolve`. If it calls `start` and the answer is `Pending`, the job is queued; a
resolver that is closed does not answer so. -/
def call (cfg : Config) (h : Hub) (key : Nat) (c : Client) (a : Answers) (cache : Option LruCache) : Hub :=
  let x := onReady cfg a ⟨c.conn, cache, []⟩
  match x.conn.resolveJob with
  | none => h.set key { c with conn := x.conn, log := c.log ++ x.trace } h.resolver
  | some job =>
    if h.resolver.closed then h
    else
      h.set key { c with conn := x.conn, log := c.log ++ x.trace, job := some h.resolver.made }
        (h.resolver.next (.push key job.host job.port job.readEnd job.writeEnd))

def clientNext (cfg : Config) (h : Hub) (key : Nat) (c : Client) : Turn → Hub
  | .call a cache =>
    match c.pc with
    | .outside => if c.conn.want = .readResolver then h else h.call cfg key c a cache
    | _ => h
  | .drain =>
    match c.pc, c.job with
    | .outside, some j =>
      if c.conn.want = .readResolver then h.set key { c with pc := .drained } (h.resolver.next (.drain j)) else h
    | _, _ => h
  | .check =>
    match c.pc, c.job with
    | .drained, some j => h.set key { c with pc := if (h.resolver.jobs j).ready then .seen else .outside } h.resolver
    | _, _ => h
  | .take =>
    match c.pc, c.job with
    | .seen, some j =>
      h.set key { c with pc := .took ⟨true, (h.resolver.jobs j).ok, (h.resolver.jobs j).endpoints⟩ }
        (h.resolver.next (.take j))
    | _, _ => h
  | .finish a cache =>
    match c.pc with
    | .took view =>
      let x := onReady cfg { a with job := view, lastRef := h.lastRef c } ⟨c.conn, cache, []⟩
      h.set key { c with conn := x.conn, log := c.log ++ x.trace, pc := .outside } h.resolver
    | _ => h
  | .destroy =>
    match c.pc with
    | .outside =>
      h.set key { c with
        conn := c.conn.destroyed, alive := false, log := c.log ++ c.conn.finishEvents (h.lastRef c) } h.resolver
    | _ => h

def next (cfg : Config) (h : Hub) : Act → Hub
  | .accept key client id =>
    match h.clients key with
    | none => h.set key { conn := .init client id, log := [.opened client] } h.resolver
    | some _ => h
  | .client key turn =>
    match h.clients key with
    | some c => if c.alive then h.clientNext cfg key c turn else h
    | none => h
  | .world act => if background act then h.worldNext act else h
  | .discard => h.discard

def start (size : Nat) (cacheTtlS now : Int) : Hub where
  resolver := .start size cacheTtlS now

/-! ## What a step can do -/

/-- Everything an input can do. -/
inductive Step (cfg : Config) (h : Hub) : Act → Hub → Prop where
  | stay (act : Act) : Step cfg h act h
  | world (act : Resolver.Act) (bg : background act = true) : Step cfg h (.world act) (h.worldNext act)
  | accepted (key client id : Nat) (unused : h.clients key = none) :
      Step cfg h (.accept key client id) (h.set key { conn := .init client id, log := [.opened client] } h.resolver)
  | called (key : Nat) (c : Client) (a : Answers) (cache : Option LruCache) {events : List Event} {conn : Connection}
      {cache' : Option LruCache} (here : h.clients key = some c) (alive : c.alive = true) (pc : c.pc = .outside)
      (want : c.conn.want ≠ .readResolver) (step : EvProxy.Step cfg c.conn cache events conn cache')
      (job : conn.resolveJob = none) :
      Step cfg h (.client key (.call a cache))
        (h.set key { c with conn := conn, log := c.log ++ events } h.resolver)
  | asked (key : Nat) (c : Client) (a : Answers) (cache : Option LruCache) {events : List Event} {conn : Connection}
      {cache' : Option LruCache} (job : ResolveJob) (here : h.clients key = some c) (alive : c.alive = true)
      (pc : c.pc = .outside) (want : c.conn.want ≠ .readResolver)
      (step : EvProxy.Step cfg c.conn cache events conn cache') (made : conn.resolveJob = some job)
      (open_ : h.resolver.closed = false) :
      Step cfg h (.client key (.call a cache))
        (h.set key { c with conn := conn, log := c.log ++ events, job := some h.resolver.made }
          (h.resolver.next (.push key job.host job.port job.readEnd job.writeEnd)))
  | drained (key : Nat) (c : Client) (j : Nat) (here : h.clients key = some c) (alive : c.alive = true)
      (pc : c.pc = .outside) (job : c.job = some j) (want : c.conn.want = .readResolver) :
      Step cfg h (.client key .drain) (h.set key { c with pc := .drained } (h.resolver.next (.drain j)))
  | checked (key : Nat) (c : Client) (j : Nat) (here : h.clients key = some c) (alive : c.alive = true)
      (pc : c.pc = .drained) (job : c.job = some j) :
      Step cfg h (.client key .check)
        (h.set key { c with pc := if (h.resolver.jobs j).ready then .seen else .outside } h.resolver)
  | took (key : Nat) (c : Client) (j : Nat) (here : h.clients key = some c) (alive : c.alive = true)
      (pc : c.pc = .seen) (job : c.job = some j) :
      Step cfg h (.client key .take)
        (h.set key { c with pc := .took ⟨true, (h.resolver.jobs j).ok, (h.resolver.jobs j).endpoints⟩ }
          (h.resolver.next (.take j)))
  | finished (key : Nat) (c : Client) (a : Answers) (cache : Option LruCache) (view : JobView)
      (here : h.clients key = some c) (alive : c.alive = true) (pc : c.pc = .took view) :
      Step cfg h (.client key (.finish a cache))
        (h.set key { c with
          conn := (onReady cfg { a with job := view, lastRef := h.lastRef c } ⟨c.conn, cache, []⟩).conn
          log := c.log ++ (onReady cfg { a with job := view, lastRef := h.lastRef c } ⟨c.conn, cache, []⟩).trace
          pc := .outside } h.resolver)
  | destroyed (key : Nat) (c : Client) (here : h.clients key = some c) (alive : c.alive = true)
      (pc : c.pc = .outside) :
      Step cfg h (.client key .destroy)
        (h.set key { c with
          conn := c.conn.destroyed, alive := false, log := c.log ++ c.conn.finishEvents (h.lastRef c) } h.resolver)
  | discarded (j : Nat) (queue : Mailbox Nat) (front : h.resolver.queue.takeFront = some (j, queue))
      (closed : h.resolver.closed = true) (joined : ∀ i < h.resolver.size, h.resolver.workers i = .exited)
      (free : h.refers j = false) :
      Step cfg h .discard
        { resolver := h.resolver.next .discard
          clients := h.tell (h.resolver.jobs j).owner
            [.closed (h.resolver.jobs j).writeEnd, .closed (h.resolver.jobs j).readEnd] }

theorem call_step (cfg : Config) (h : Hub) {key : Nat} {c : Client} (a : Answers) (cache : Option LruCache)
    (here : h.clients key = some c) (alive : c.alive = true) (pc : c.pc = .outside)
    (want : c.conn.want ≠ .readResolver) : Step cfg h (.client key (.call a cache)) (h.call cfg key c a cache) := by
  have step := onReady_step cfg a cache c.conn
  cases made : (onReady cfg a ⟨c.conn, cache, []⟩).conn.resolveJob with
  | none =>
    simp only [call, made]
    exact .called key c a cache here alive pc want step made
  | some job =>
    simp only [call, made]
    split
    · exact .stay _
    · rename_i open_
      exact .asked key c a cache job here alive pc want step made (by simpa using open_)

theorem clientNext_step (cfg : Config) (h : Hub) {key : Nat} {c : Client} (turn : Turn)
    (here : h.clients key = some c) (alive : c.alive = true) :
    Step cfg h (.client key turn) (h.clientNext cfg key c turn) := by
  cases turn with
  | call a cache =>
    rw [clientNext]
    split
    · rename_i pc
      split
      · exact .stay _
      · rename_i want
        exact call_step cfg h a cache here alive pc want
    · exact .stay _
  | drain =>
    rw [clientNext]
    split
    · rename_i j pc job
      split
      · rename_i want
        exact .drained key c j here alive pc job want
      · exact .stay _
    · exact .stay _
  | check =>
    rw [clientNext]
    split
    · rename_i j pc job
      exact .checked key c j here alive pc job
    · exact .stay _
  | take =>
    rw [clientNext]
    split
    · rename_i j pc job
      exact .took key c j here alive pc job
    · exact .stay _
  | finish a cache =>
    rw [clientNext]
    split
    · rename_i view pc
      exact .finished key c a cache view here alive pc
    · exact .stay _
  | destroy =>
    rw [clientNext]
    split
    · rename_i pc
      exact .destroyed key c here alive pc
    · exact .stay _

theorem next_step (cfg : Config) (h : Hub) (act : Act) : Step cfg h act (h.next cfg act) := by
  cases act with
  | accept key client id =>
    rw [next]
    split
    · rename_i unused
      exact .accepted key client id unused
    · exact .stay _
  | client key turn =>
    rw [next]
    split
    · rename_i c here
      split
      · rename_i alive
        exact clientNext_step cfg h turn here alive
      · exact .stay _
    · exact .stay _
  | world act =>
    rw [next]
    split
    · rename_i bg
      exact .world act bg
    · exact .stay _
  | discard =>
    rw [next, discard]
    split
    · rename_i j queue front
      split
      · rename_i gone
        exact .discarded j queue front gone.1 gone.2.1 gone.2.2
      · exact .stay _
    · exact .stay _

end Hub

/-! ## The connection's side -/

section Connection
variable {cfg : Config} {c c' : Connection} {events : List Event} {cache cache' : Option LruCache}

theorem Connect.job (dial : Connect c events c') : c'.resolveJob = c.resolveJob := by
  cases dial <;> rfl

/-- A connection asks once: it never reads a request again. -/
theorem Step.not_reading (step : Step cfg c cache events c' cache') (want : c.want ≠ .readClient) :
    c'.want ≠ .readClient := by
  have dialled {d d' : Connection} {tried : List Event} (dial : Connect d tried d') : d'.want ≠ .readClient := by
    cases dial <;> simp [Connection.failed, Connection.dialled]
  cases step with
  | idle => exact want
  | hangup _ reading => exact absurd reading want
  | incomplete _ reading => exact absurd reading want
  | awaiting _ _ reading => exact absurd reading want
  | rejected _ _ _ reading => exact absurd reading want
  | hit _ _ _ _ reading => exact absurd reading want
  | forward _ _ _ reading => exact absurd reading want
  | unresolved => simp [Connection.failed]
  | resolved _ _ _ _ dial => exact dialled dial
  | refused _ _ dial => exact dialled dial
  | connected => simp
  | sendPart => exact want
  | sendAll => simp
  | sendFailed => simp [Connection.failed]
  | recvFailed => simp [Connection.finished]
  | eofDone => simp [Connection.finished]
  | eofFlush => simp
  | recv => simp [Connection.received]
  | writePart => exact want
  | writeMore => simp
  | writeLast => simp [Connection.finished]
  | writeFailed => simp [Connection.finished]
  | again => simp [Connection.finished]

/-- A job appears with a `Pending` answer only. -/
theorem Step.asks (step : Step cfg c cache events c' cache') (before : c.resolveJob = none) {job : ResolveJob}
    (made : c'.resolveJob = some job) :
    c.want = .readClient ∧ c'.want = .readResolver ∧ job.host = c'.req.host ∧ job.port = c'.req.port ∧
      ops events = [.acquire job.readEnd, .acquire job.writeEnd, .handOver job.writeEnd] := by
  have clear : c'.resolveJob ≠ none := by simp [made]
  cases step with
  | forward data key req want got ready enough lookup resolve =>
    cases resolve with
    | pending readEnd writeEnd =>
      obtain rfl := Option.some.inj made
      refine ⟨want, rfl, rfl, rfl, ?_⟩
      rw [ops, List.filterMap_cons_none rfl]
      change ops (_ ++ _) = _
      rw [ops_append, lookup.ops]
      rfl
    | failed => exact absurd before clear
    | pipeFailed => exact absurd before clear
    | connect endpoints dial => exact absurd (dial.job.trans before) clear
  | resolved lastRef endpoints want job dial => exact absurd dial.job clear
  | refused want state dial => exact absurd (dial.job.trans before) clear
  | recv data want got bound =>
    obtain ⟨accum, tooBig, shape⟩ := c.received_eq cfg data
    rw [shape] at clear
    exact absurd before clear
  | unresolved => exact absurd rfl clear
  | hangup => exact absurd rfl clear
  | recvFailed => exact absurd rfl clear
  | eofDone => exact absurd rfl clear
  | writeLast => exact absurd rfl clear
  | writeFailed => exact absurd rfl clear
  | again => exact absurd rfl clear
  | _ => exact absurd before clear

/-- With a result in hand `finish_resolve` drops the job. -/
theorem onReady_gone (cfg : Config) (a : Answers) (cache : Option LruCache) (resolving : Resolving cfg c)
    (ready : a.job.ready = true) : (onReady cfg a ⟨c, cache, []⟩).conn.resolveJob = none := by
  have here : onReady cfg a ⟨c, cache, []⟩ = finishResolve a ⟨c, cache, []⟩ := by simp [onReady, resolving.want]
  rw [here]
  rcases finishResolve_ready a cache resolving.job ready with ⟨-, events, -, -, dial⟩ | ⟨-, eq⟩
  · exact dial.job
  · rw [eq]
    rfl

/-- A connection with a job is waiting for it. -/
theorem Phase.of_job (phase : Phase cfg c) (job : c.resolveJob ≠ none) : Resolving cfg c := by
  cases phase with
  | resolving h => exact h
  | reading h => exact absurd h.job job
  | connecting h => exact absurd h.job job
  | sending h => exact absurd h.job job
  | waiting h => exact absurd h.relaying.job job
  | flushing h => exact absurd h.relaying.job job
  | failing h => exact absurd h.job job
  | done h => exact absurd h.job job

end Connection

namespace Hub

/-- The job is the one the connection's handle stands for. -/
structure Linked (b : Resolver.Job) (c : Connection) (job : ResolveJob) : Prop where
  host : b.host = c.req.host
  port : b.port = c.req.port
  readEnd : b.readEnd = job.readEnd
  writeEnd : b.writeEnd = job.writeEnd

/-- What is true of the job at each point of `finish_resolve`. -/
def Pc.Fits (b : Resolver.Job) : Pc → Prop
  | .outside | .drained => b.taken = false
  | .seen => b.taken = false ∧ b.ready = true
  | .took view => b.ready = true ∧
      ∃ f, b.found = some f ∧ view.ready = true ∧ view.ok = f.ok ∧ (f.ok = true → view.endpoints = f.endpoints)

structure Client.Sound (cfg : Config) (r : Resolver) (key : Nat) (c : Client) : Prop where
  phase : c.alive = true → Phase cfg c.conn
  dead : c.alive = false → c.conn.client = none ∧ c.conn.upstream = none ∧ c.conn.resolveJob = none
  asked : ∀ j, c.job = some j → j < r.made ∧ (r.jobs j).owner = key ∧ c.conn.want ≠ .readClient
  waits : ∀ job, c.conn.resolveJob = some job →
    ∃ j, c.job = some j ∧ Linked (r.jobs j) c.conn job ∧ (r.jobs j).status ≠ .discarded ∧ c.pc.Fits (r.jobs j)
  outside : c.conn.resolveJob = none → c.pc = .outside

/-- The resolver is sound and every connection agrees with it. -/
structure Sound (cfg : Config) (h : Hub) : Prop where
  resolver : h.resolver.Sound
  clients : ∀ key c, h.clients key = some c → c.Sound cfg h.resolver key

section Steps
variable {cfg : Config} {h h' : Hub} {r r' : Resolver} {key : Nat} {c : Client}

theorem Pc.Fits.later {pc : Pc} {b b' : Resolver.Job} (fits : pc.Fits b) (later : b.Later b') : pc.Fits b' := by
  cases pc with
  | outside => exact later.taken.trans fits
  | drained => exact later.taken.trans fits
  | seen => exact ⟨later.taken.trans fits.1, (later.result fits.2).1⟩
  | took view =>
    obtain ⟨ready, f, found, rest⟩ := fits
    exact ⟨(later.result ready).1, f, later.found f found, rest⟩

/-- A connection does not notice what the resolver does elsewhere. -/
theorem Client.Sound.later (sound : c.Sound cfg r key) (made : r.made ≤ r'.made)
    (later : ∀ j, c.job = some j → (r.jobs j).Later (r'.jobs j))
    (kept : ∀ j, c.refers j = true → (r.jobs j).status ≠ .discarded → (r'.jobs j).status ≠ .discarded) :
    c.Sound cfg r' key := by
  refine ⟨sound.phase, sound.dead, fun j job => ?_, fun job waiting => ?_, sound.outside⟩
  · obtain ⟨bound, owner, want⟩ := sound.asked j job
    exact ⟨by omega, (later j job).owner.trans owner, want⟩
  · obtain ⟨j, mine, linked, status, fits⟩ := sound.waits job waiting
    have after := later j mine
    refine ⟨j, mine, ⟨after.host.trans linked.host, after.port.trans linked.port, after.readEnd.trans linked.readEnd,
      after.writeEnd.trans linked.writeEnd⟩, kept j ?_ status, fits.later after⟩
    simp [Client.refers, mine, waiting]

theorem Client.Sound.hear (sound : c.Sound cfg r key) (events : List Event) : (c.hear events).Sound cfg r key :=
  ⟨sound.phase, sound.dead, sound.asked, sound.waits, sound.outside⟩

theorem Client.job_of_refers {j : Nat} (refers : c.refers j = true) : c.job = some j := by
  simp only [Client.refers, Bool.and_eq_true, decide_eq_true_eq] at refers
  exact refers.1

/-- What an input to the resolver does to the job of a connection. -/
theorem Sound.turn (sound : Sound cfg h) (here : h.clients key = some c) (act : Resolver.Act) {j : Nat}
    (job : c.job = some j) :
    Resolver.Turn h.resolver j (h.resolver.jobs j) act ((h.resolver.next act).jobs j) :=
  (Resolver.next_step h.resolver act).turn sound.resolver ((sound.clients key c here).asked j job).1

/-- A connection whose job is neither taken nor thrown away. -/
theorem Sound.keep (sound : Sound cfg h) (act : Resolver.Act) (here : h.clients key = some c)
    (other : ∀ j, c.job = some j → act ≠ .take j)
    (spared : act = .discard → ∀ j queue, h.resolver.queue.takeFront = some (j, queue) → c.refers j = false) :
    c.Sound cfg (h.resolver.next act) key := by
  have grows := (Resolver.next_step h.resolver act).made_le
  refine (sound.clients key c here).later grows (fun j job => ?_) (fun j refers status => ?_)
  · exact (sound.turn here act job).later sound.resolver (other j job)
  · refine (sound.turn here act (Client.job_of_refers refers)).kept (fun throws queue front => ?_) status
    rw [spared throws j queue front] at refers
    cases refers

theorem set_eq_some {key' : Nat} {c' : Client} (here : (h.set key c r).clients key' = some c') :
    c' = c ∧ key' = key ∨ key' ≠ key ∧ h.clients key' = some c' := by
  change Function.update h.clients key (some c) key' = some c' at here
  by_cases same : key' = key
  · rw [same, Function.update_self] at here
    exact .inl ⟨(Option.some.inj here).symm, same⟩
  · rw [Function.update_of_ne same] at here
    exact .inr ⟨same, here⟩

theorem Sound.set (sound : Sound cfg h) {act : Resolver.Act} (mine : c.Sound cfg (h.resolver.next act) key)
    (other : ∀ key' c' j, key' ≠ key → h.clients key' = some c' → c'.job = some j → act ≠ .take j)
    (keeps : act ≠ .discard) : Sound cfg (h.set key c (h.resolver.next act)) := by
  refine ⟨sound.resolver.step (Resolver.next_step _ act), fun key' c' here => ?_⟩
  rcases set_eq_some here with ⟨rfl, rfl⟩ | ⟨different, before⟩
  · exact mine
  · exact sound.keep act before (fun j => other key' c' j different before) fun throws => absurd throws keeps

/-- The resolver stands still. -/
theorem Sound.set_still (sound : Sound cfg h) (mine : c.Sound cfg h.resolver key) :
    Sound cfg (h.set key c h.resolver) := by
  refine ⟨sound.resolver, fun key' c' here => ?_⟩
  rcases set_eq_some here with ⟨rfl, rfl⟩ | ⟨-, before⟩
  · exact mine
  · exact sound.clients key' c' before

/-- Who hears of something is otherwise as before. -/
theorem tell_eq_some {key' : Nat} {events : List Event} {c' : Client} (here : h.tell key events key' = some c') :
    ∃ c, h.clients key' = some c ∧ (c' = c ∧ key' ≠ key ∨ c' = c.hear events ∧ key' = key) := by
  by_cases same : key' = key
  · subst same
    rw [tell, Function.update_self] at here
    obtain ⟨c, before, rfl⟩ := Option.map_eq_some_iff.mp here
    exact ⟨c, before, .inr ⟨rfl, rfl⟩⟩
  · rw [tell, Function.update_of_ne same] at here
    exact ⟨c', here, .inl ⟨rfl, same⟩⟩

theorem refers_eq (sound : Sound cfg h) (here : h.clients key = some c) {j : Nat} (job : c.job = some j) :
    h.refers j = c.refers j := by
  have owner := ((sound.clients key c here).asked j job).2.1
  simp only [Hub.refers, owner, here]

theorem background_ne {act : Resolver.Act} (bg : background act = true) (j : Nat) :
    act ≠ .take j ∧ act ≠ .discard := by
  cases act <;> simp [background] at bg ⊢

theorem push_new (r : Resolver) (open_ : r.closed = false) (owner : Nat) (host port : Bytes) (readEnd writeEnd : Nat) :
    (r.next (.push owner host port readEnd writeEnd)).made = r.made + 1 ∧
      (r.next (.push owner host port readEnd writeEnd)).jobs r.made =
        { host := host, port := port, readEnd := readEnd, writeEnd := writeEnd, owner := owner,
          status := .queued } := by
  simp [Resolver.next, Resolver.push, open_]

theorem take_new {j : Nat} (ready : (r.jobs j).ready = true) :
    (r.next (.take j)).made = r.made ∧ (r.next (.take j)).jobs j =
      { r.jobs j with endpoints := if (r.jobs j).ok then [] else (r.jobs j).endpoints, taken := true } := by
  simp [Resolver.next, ready]

/-- Inside `finish_resolve` there is a job. -/
theorem Client.Sound.waiting (sound : c.Sound cfg r key) (inside : c.pc ≠ .outside) :
    ∃ job, c.conn.resolveJob = some job := by
  cases job : c.conn.resolveJob with
  | none => exact absurd (sound.outside job) inside
  | some handle => exact ⟨handle, rfl⟩

theorem Client.Sound.jobless (sound : c.Sound cfg r key) (alive : c.alive = true) (want : c.conn.want ≠ .readResolver) :
    c.conn.resolveJob = none := by
  by_contra waiting
  exact want ((sound.phase alive).of_job waiting).want

/-- With the result taken, the connection still waits, and the result is that of its own job. -/
theorem Client.Sound.took (sound : c.Sound cfg r key) (alive : c.alive = true) {view : JobView}
    (pc : c.pc = .took view) :
    Resolving cfg c.conn ∧ view.ready = true ∧ ∃ j f, c.job = some j ∧ (r.jobs j).host = c.conn.req.host ∧
      (r.jobs j).port = c.conn.req.port ∧ (r.jobs j).ready = true ∧ (r.jobs j).found = some f ∧ view.ok = f.ok ∧
      (f.ok = true → view.endpoints = f.endpoints) := by
  obtain ⟨handle, waiting⟩ := sound.waiting (by simp [pc])
  obtain ⟨j, job, linked, -, ready, f, found, seen, result⟩ : ∃ j, c.job = some j ∧ _ := pc ▸ sound.waits handle waiting
  have resolving := (sound.phase alive).of_job (by simp [waiting])
  exact ⟨resolving, seen, j, f, job, linked.host, linked.port, ready, found, result⟩

/-- An `on_ready()` after which there is no job to wait for. -/
theorem Client.Sound.moved (sound : c.Sound cfg r key) (alive : c.alive = true) {cache cache' : Option LruCache}
    {events : List Event} {conn : Connection} (step : EvProxy.Step cfg c.conn cache events conn cache')
    (gone : conn.resolveJob = none) {pc : Pc} (outside : pc = .outside) (log : List Event) :
    { c with conn := conn, log := log, pc := pc }.Sound cfg r key := by
  refine ⟨fun _ => (sound.phase alive).step step, fun dead => ?_, fun j asked => ?_, fun job made => ?_,
    fun _ => outside⟩
  · rw [alive] at dead
    cases dead
  · obtain ⟨bound, owner, want⟩ := sound.asked j asked
    exact ⟨bound, owner, step.not_reading want⟩
  · rw [gone] at made
    cases made

/-- The connection has asked, and waits for a new job. -/
theorem Client.Sound.asking (sound : c.Sound cfg r key) (alive : c.alive = true) (pc : c.pc = .outside)
    (want : c.conn.want ≠ .readResolver) {cache cache' : Option LruCache} {events : List Event} {conn : Connection}
    (step : EvProxy.Step cfg c.conn cache events conn cache') {job : ResolveJob} (made : conn.resolveJob = some job)
    (open_ : r.closed = false) (log : List Event) :
    { c with conn := conn, log := log, job := some r.made }.Sound cfg
      (r.next (.push key job.host job.port job.readEnd job.writeEnd)) key := by
  obtain ⟨-, reads, host, port, -⟩ := step.asks (sound.jobless alive want) made
  obtain ⟨grown, new⟩ := push_new r open_ key job.host job.port job.readEnd job.writeEnd
  refine ⟨fun _ => (sound.phase alive).step step, fun dead => ?_, fun j asked => ?_, fun handle waits => ?_,
    fun none_yet => ?_⟩
  · rw [alive] at dead
    cases dead
  · obtain rfl := Option.some.inj asked
    rw [grown, new]
    exact ⟨Nat.lt_succ_self _, rfl, by simp [reads]⟩
  · obtain rfl := Option.some.inj (made.symm.trans waits)
    refine ⟨r.made, rfl, ?_, ?_, ?_⟩
    · rw [new]
      exact ⟨host, port, rfl, rfl⟩
    · simp [new]
    · rw [new, pc]
      rfl
  · rw [made] at none_yet
    cases none_yet

/-- The connection has drained the pipe. -/
theorem Client.Sound.drains (sound : c.Sound cfg r key) (alive : c.alive = true) (pc : c.pc = .outside)
    (want : c.conn.want = .readResolver) : { c with pc := .drained }.Sound cfg r key := by
  have resolving : Resolving cfg c.conn := (sound.phase alive).of_want want
  refine ⟨sound.phase, sound.dead, sound.asked, fun handle waits => ?_, fun none_yet => ?_⟩
  · obtain ⟨j, job, linked, status, fits⟩ := sound.waits handle waits
    rw [pc] at fits
    exact ⟨j, job, linked, status, fits⟩
  · have job := resolving.job
    rw [none_yet] at job
    cases job

/-- The connection has looked at `ready`. -/
theorem Client.Sound.checks (sound : c.Sound cfg r key) (pc : c.pc = .drained) {j : Nat} (job : c.job = some j) :
    { c with pc := if (r.jobs j).ready then .seen else .outside }.Sound cfg r key := by
  refine ⟨sound.phase, sound.dead, sound.asked, fun handle waits => ?_, fun none_yet => ?_⟩
  · obtain ⟨j', job', linked, status, fits⟩ := sound.waits handle waits
    obtain rfl := Option.some.inj (job.symm.trans job')
    rw [pc] at fits
    refine ⟨j, job, linked, status, ?_⟩
    change Pc.Fits (r.jobs j) (if (r.jobs j).ready then .seen else .outside)
    split
    · rename_i ready
      exact ⟨fits, ready⟩
    · exact fits
  · have outside := sound.outside none_yet
    rw [pc] at outside
    cases outside

/-- The connection has taken the result. -/
theorem Client.Sound.takes (sound : c.Sound cfg r key) (resolver : r.Sound) (pc : c.pc = .seen) {j : Nat}
    (job : c.job = some j) :
    { c with pc := .took ⟨true, (r.jobs j).ok, (r.jobs j).endpoints⟩ }.Sound cfg (r.next (.take j)) key := by
  obtain ⟨handle, waiting⟩ := sound.waiting (by simp [pc])
  obtain ⟨j', job', linked, status, free, ready⟩ : ∃ j', c.job = some j' ∧ _ := pc ▸ sound.waits handle waiting
  obtain rfl := Option.some.inj (job.symm.trans job')
  obtain ⟨same, new⟩ := take_new ready
  refine ⟨sound.phase, sound.dead, fun k asked => ?_, fun handle' waits => ?_, fun none_yet => ?_⟩
  · obtain rfl := Option.some.inj (job.symm.trans asked)
    rw [same, new]
    exact sound.asked j job
  · obtain rfl := Option.some.inj (waiting.symm.trans waits)
    refine ⟨j, job, ?_, ?_, ?_⟩
    · rw [new]
      exact ⟨linked.host, linked.port, linked.readEnd, linked.writeEnd⟩
    · rw [new]
      exact status
    · obtain ⟨f, n, far, published, -⟩ := (resolver.fits j).published ready
      rw [new]
      exact ⟨ready, f, published.found, rfl, published.ok (by omega), fun _ => published.endpoints (by omega) free⟩
  · rw [waiting] at none_yet
    cases none_yet

theorem Sound.step {act : Act} (sound : Sound cfg h) (step : Step cfg h act h') : Sound cfg h' := by
  cases step with
  | stay => exact sound
  | world act bg =>
    refine ⟨sound.resolver.step (Resolver.next_step _ act), fun key c' here => ?_⟩
    have keep {c : Client} (before : h.clients key = some c) : c.Sound cfg (h.resolver.next act) key :=
      sound.keep act before (fun j _ => (background_ne bg j).1) fun throws => absurd throws (background_ne bg 0).2
    rw [worldNext] at here
    split at here
    · obtain ⟨c, before, ⟨rfl, -⟩ | ⟨rfl, -⟩⟩ := tell_eq_some here
      · exact keep before
      · exact (keep before).hear _
    · exact keep here
  | accepted key client id unused =>
    exact sound.set_still ⟨fun _ => phase_init cfg client id, nofun, nofun, nofun, fun _ => rfl⟩
  | called key c a cache here alive pc want step job =>
    exact sound.set_still ((sound.clients key c here).moved alive step job pc _)
  | asked key c a cache job here alive pc want step made open_ =>
    exact sound.set ((sound.clients key c here).asking alive pc want step made open_ _) (by simp) (by simp)
  | drained key c j here alive pc job want =>
    have mine := sound.keep (.drain j) here (by simp) (by simp)
    exact sound.set (mine.drains alive pc want) (by simp) (by simp)
  | checked key c j here alive pc job => exact sound.set_still ((sound.clients key c here).checks pc job)
  | took key c j here alive pc job =>
    have mine := sound.clients key c here
    refine sound.set (mine.takes sound.resolver pc job) (fun key' c' k different before asked same => ?_) (by simp)
    have theirs := ((sound.clients key' c' before).asked k asked).2.1
    obtain rfl := Resolver.Act.take.inj same
    exact different (theirs.symm.trans (mine.asked j job).2.1)
  | finished key c a cache view here alive pc =>
    have mine := sound.clients key c here
    obtain ⟨resolving, ready, -⟩ := mine.took alive pc
    have step := onReady_step cfg { a with job := view, lastRef := h.lastRef c } cache c.conn
    have gone := onReady_gone cfg { a with job := view, lastRef := h.lastRef c } cache resolving ready
    exact sound.set_still (mine.moved alive step gone rfl _)
  | destroyed key c here alive pc =>
    have mine := sound.clients key c here
    exact sound.set_still ⟨nofun, fun _ => ⟨rfl, rfl, rfl⟩, mine.asked, nofun, fun _ => pc⟩
  | discarded j queue front closed joined free =>
    refine ⟨sound.resolver.step (Resolver.next_step _ .discard), fun key c' here => ?_⟩
    have keep {c : Client} (before : h.clients key = some c) : c.Sound cfg (h.resolver.next .discard) key := by
      refine sound.keep .discard before (by simp) fun _ j' queue' front' => ?_
      obtain ⟨rfl, -⟩ := Prod.mk.inj (Option.some.inj (front.symm.trans front'))
      cases refers : c.refers j with
      | false => rfl
      | true =>
        rw [refers_eq sound before (Client.job_of_refers refers), refers] at free
        cases free
    obtain ⟨c, before, ⟨rfl, -⟩ | ⟨rfl, -⟩⟩ := tell_eq_some here
    · exact keep before
    · exact (keep before).hear _

end Steps

theorem Sound.start (cfg : Config) (size : Nat) (cacheTtlS now : Int) : Sound cfg (start size cacheTtlS now) :=
  ⟨.start size cacheTtlS now, by simp [Hub.start]⟩

theorem sound_run (cfg : Config) (size : Nat) (cacheTtlS now : Int) (acts : List Act) :
    Sound cfg (run (next cfg) (start size cacheTtlS now) acts) :=
  run_invariant (fun h act sound => sound.step (next_step cfg h act)) (.start cfg size cacheTtlS now) acts

theorem Step.size {cfg : Config} {h h' : Hub} {act : Act} (step : Step cfg h act h') :
    h'.resolver.size = h.resolver.size := by
  cases step with
  | world act => exact (Resolver.next_step _ act).settings.1
  | asked => exact (Resolver.next_step _ _).settings.1
  | drained => exact (Resolver.next_step _ _).settings.1
  | took => exact (Resolver.next_step _ _).settings.1
  | discarded => exact (Resolver.next_step _ _).settings.1
  | _ => rfl

theorem size_run (cfg : Config) (h : Hub) (acts : List Act) :
    (run (next cfg) h acts).resolver.size = h.resolver.size :=
  run_invariant (P := fun h' : Hub => h'.resolver.size = h.resolver.size)
    (fun h' act same => (next_step cfg h' act).size.trans same) rfl acts

/-! ## Leaving the resolving state -/

/-- The connection has gone on with `f`: it has the endpoints found, or answers that there are none. -/
structure Served (f : Found) (c c' : Connection) : Prop where
  found : f.ok = true → c'.endpoints = f.endpoints
  failed : f.ok = false → c' = { c with resolveJob := none }.failed badGateway

theorem onReady_served {cfg : Config} {c : Connection} {f : Found} (a : Answers) (cache : Option LruCache)
    (resolving : Resolving cfg c) (ready : a.job.ready = true) (ok : a.job.ok = f.ok)
    (endpoints : f.ok = true → a.job.endpoints = f.endpoints) :
    Served f c (onReady cfg a ⟨c, cache, []⟩).conn := by
  have here : onReady cfg a ⟨c, cache, []⟩ = finishResolve a ⟨c, cache, []⟩ := by simp [onReady, resolving.want]
  rw [here]
  rcases finishResolve_ready a cache resolving.job ready with ⟨yes, events, -, -, dial⟩ | ⟨no, eq⟩
  · rw [yes] at ok
    refine ⟨fun _ => ?_, fun bad => ?_⟩
    · rw [← endpoints ok.symm]
      generalize (finishResolve a ⟨c, cache, []⟩).conn = c' at dial
      cases dial <;> rfl
    · rw [← ok] at bad
      cases bad
  · rw [no] at ok
    refine ⟨fun good => ?_, fun _ => ?_⟩
    · rw [← ok] at good
      cases good
    · rw [eq]

/-- A connection that leaves the resolving state does so with the result of its own lookup. -/
theorem Sound.leave {cfg : Config} {h h' : Hub} {act : Act} (sound : Sound cfg h) (step : Step cfg h act h')
    {key : Nat} {c c' : Client} (here : h.clients key = some c) (resolving : c.conn.state = .resolving)
    (after : h'.clients key = some c') (alive : c'.alive = true) (left : c'.conn.state ≠ .resolving) :
    ∃ a cache j f, act = .client key (.finish a cache) ∧ c.job = some j ∧ (h.resolver.jobs j).ready = true ∧
      (h.resolver.jobs j).found = some f ∧ .looked c.conn.req.host c.conn.req.port f ∈ h.resolver.log ∧
      Served f c.conn c'.conn := by
  have mine := sound.clients key c here
  have unchanged (before : h.clients key = some c') : False := by
    obtain rfl := Option.some.inj (here.symm.trans before)
    exact left resolving
  have heard {key' : Nat} {events : List Event} (told : h.tell key' events key = some c') : False := by
    obtain ⟨d, before, ⟨rfl, -⟩ | ⟨rfl, -⟩⟩ := tell_eq_some told
    · exact unchanged before
    · obtain rfl := Option.some.inj (here.symm.trans before)
      exact left resolving
  have still {key' : Nat} {d d' : Client} {r : Resolver} (before : h.clients key' = some d)
      (set : (h.set key' d' r).clients key = some c') (state : d = c → d'.conn.state = .resolving) : False := by
    rcases set_eq_some set with ⟨rfl, rfl⟩ | ⟨-, before⟩
    · exact left (state (Option.some.inj (before.symm.trans here)))
    · exact unchanged before
  have reads {d : Client} (living : d.alive = true) (want : d.conn.want ≠ .readResolver) : d ≠ c := by
    rintro rfl
    exact want ((mine.phase living).agree.2.1.mpr resolving)
  cases step with
  | stay => exact (unchanged after).elim
  | world act bg =>
    rw [worldNext] at after
    split at after
    · exact (heard after).elim
    · exact (unchanged after).elim
  | accepted key' client id unused =>
    rcases set_eq_some after with ⟨-, rfl⟩ | ⟨-, before⟩
    · rw [here] at unused
      cases unused
    · exact (unchanged before).elim
  | called key' d a cache before living pc want step job =>
    exact (still before after fun same => absurd same (reads living want)).elim
  | asked key' d a cache job before living pc want step made open_ =>
    exact (still before after fun same => absurd same (reads living want)).elim
  | drained key' d j before => exact (still before after fun same => same ▸ resolving).elim
  | checked key' d j before => exact (still before after fun same => same ▸ resolving).elim
  | took key' d j before => exact (still before after fun same => same ▸ resolving).elim
  | finished key' d a cache view before living pc =>
    rcases set_eq_some after with ⟨rfl, rfl⟩ | ⟨-, before⟩
    · obtain rfl := Option.some.inj (here.symm.trans before)
      obtain ⟨waiting, seen, j, f, job, host, port, ready, found, ok, endpoints⟩ := mine.took living pc
      have looked := sound.resolver.looked j f found
      rw [host, port] at looked
      exact ⟨a, cache, j, f, rfl, job, ready, found, looked, onReady_served _ cache waiting seen ok endpoints⟩
    · exact (unchanged before).elim
  | destroyed key' d before =>
    rcases set_eq_some after with ⟨rfl, -⟩ | ⟨-, before⟩
    · cases alive
    · exact (unchanged before).elim
  | discarded j queue front closed joined free => exact (heard after).elim

/-- **The hand-off is safe.** Over every interleaving: no job is dequeued twice or held by two threads; a connection
leaves the resolving state with the result of the lookup of its own host and port; no thread touches a result once it is
ready; and when `finish_resolve` returns because it is not, the wakeup is still to come. -/
theorem handoff_safe (cfg : Config) (size : Nat) (cacheTtlS now : Int) (acts : List Act) :
    let h := run (next cfg) (start size cacheTtlS now) acts
    (h.resolver.queue.taken.Nodup ∧ ∀ i i' j duty duty', h.resolver.workers i = .on j duty →
      h.resolver.workers i' = .on j duty' → i = i') ∧
    (∀ act key c c', h.clients key = some c → c.conn.state = .resolving →
      (h.next cfg act).clients key = some c' → c'.alive = true → c'.conn.state ≠ .resolving →
      ∃ a cache j f, act = .client key (.finish a cache) ∧ c.job = some j ∧ (h.resolver.jobs j).ready = true ∧
        (h.resolver.jobs j).found = some f ∧ .looked c.conn.req.host c.conn.req.port f ∈ h.resolver.log ∧
        Served f c.conn c'.conn) ∧
    (∀ i found wrote j, (h.resolver.jobs j).ready = true →
      let after := (h.resolver.next (.work i found wrote)).jobs j
      after.ready = true ∧ after.endpoints = (h.resolver.jobs j).endpoints ∧ after.err = (h.resolver.jobs j).err ∧
        after.ok = (h.resolver.jobs j).ok) ∧
    (∀ key c j, h.clients key = some c → c.pc = .drained → c.job = some j → (h.resolver.jobs j).ready = false →
      (h.next cfg (.client key .check)).clients key = some { c with pc := .outside } ∧
        h.resolver.Unsignalled j ∧ (0 < size → ∃ works, Resolver.Works works ∧
        ((run Resolver.next h.resolver works).jobs j).written = true ∧
        ((run Resolver.next h.resolver works).jobs j).writeOpen = false)) := by
  intro h
  have sound : Sound cfg h := sound_run cfg size cacheTtlS now acts
  refine ⟨⟨sound.resolver.nodup.of_append_left, fun i i' j duty duty' on on' => ?_⟩,
    fun act key c c' here resolving after alive left => ?_, fun i found wrote j ready => ?_,
    fun key c j here pc job unready => ?_⟩
  · have status := (sound.resolver.held i j duty).mp on
    rw [(sound.resolver.held i' j duty').mp on'] at status
    exact (Resolver.Status.held.inj status).1.symm
  · exact sound.leave (next_step cfg h act) here resolving after alive left
  · have turn := (Resolver.next_step h.resolver (.work i found wrote)).turn sound.resolver
      (sound.resolver.made_of_ready ready)
    exact (turn.later sound.resolver nofun).result ready
  · have mine := sound.clients key c here
    obtain ⟨handle, waiting⟩ := mine.waiting (by rw [pc]; nofun)
    obtain ⟨j', job', -, kept, -⟩ := mine.waits handle waiting
    obtain rfl := Option.some.inj (job.symm.trans job')
    have pending := sound.resolver.unsignalled (mine.asked j job).1 kept unready
    have alive : c.alive = true := by
      by_contra dead
      rw [(mine.dead (by simpa using dead)).2.2] at waiting
      cases waiting
    refine ⟨?_, pending, fun crew => sound.resolver.signal ((size_run cfg _ acts).symm ▸ crew) pending⟩
    simp [next, here, alive, clientNext, pc, job, unready, set]

end Hub

end EvProxy
