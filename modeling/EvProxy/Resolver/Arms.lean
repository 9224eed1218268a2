import EvProxy.Conn.Buffers
import EvProxy.Conn.Fallback
import EvProxy.Resolver.HandOff

/-!
# The two ways to resolve

`begin_resolve` has a blocking arm, one call of `resolve_blocking`, and an
asynchronous one: `start`, and after a miss a job, a thread that publishes its
result, and `finish_resolve`. `AsyncArm` puts the connection and the resolver
together for the second; what other threads do in between is arbitrary as long as
they leave the DNS cache alone. `arms_agree`: from the same connection and the
same cache, with the same outcome of the lookup, both arms lead to the same
connection apart from its epoch and to the same cache.
-/

namespace EvProxy
open Text Runs

/-- A connection without its epoch. -/
def Connection.ageless (c : Connection) : Connection := { c with epoch := 0 }

/-- A connection that has not resolved anything yet. -/
structure Unresolved (c : Connection) : Prop where
  job : c.resolveJob = none
  endpoints : c.endpoints = []

/-- `begin_resolve` is called while the request is read, and nothing has been resolved then. -/
theorem reading_unresolved (cfg : Config) (client id : Nat) (calls : List Call)
    (reading : ((Session.start client id).drive cfg calls).conn.want = .readClient) :
    Unresolved ((Session.start client id).drive cfg calls).conn := by
  have empty : ((Session.start client id).drive cfg calls).conn.want = .readClient →
      ((Session.start client id).drive cfg calls).conn.endpoints = [] := by
    apply Session.drive_invariant (P := fun s => s.conn.want = .readClient → s.conn.endpoints = [])
    · intro s cache cache' events c' old step want'
      rcases step.reads_on want' with ⟨-, rfl⟩ | ⟨data, -, -, rfl⟩ | ⟨data, req, -, -, rfl⟩
      · exact old want'
      · exact old want'
      · exact old want'
    · intro
      rfl
  have phase : Reading cfg ((Session.start client id).drive cfg calls).conn :=
    (drive_phase cfg client id calls).of_want reading
  exact ⟨phase.job, empty reading⟩

/-! ## Connecting does not look at the epoch -/

section Connection
variable {a : Answers}

theorem attempts_append (t u : List Event) : attempts (t ++ u) = attempts t ++ attempts u :=
  List.filterMap_append

/-- The loop tries the candidates in order. -/
theorem connectLoop_attempts (eps : List Endpoint) (x : Exec) :
    ∃ front, attempts (connectLoop a eps x).trace = attempts x.trace ++ front ∧ front <+: eps := by
  have closed (fd : Fd) : attempts (closing fd) = [] := by cases fd <;> rfl
  induction eps generalizing x with
  | nil => exact ⟨[], by simp [connectLoop, failWith_eq, attempts_append, closed], List.nil_prefix⟩
  | cons endpoint rest ih =>
    have one : attempts (startConnect endpoint (a.dial x.conn.endpointIdx)).2.2 = [endpoint] := by
      cases a.dial x.conn.endpointIdx <;> rfl
    rw [connectLoop]
    split
    · obtain ⟨front, tried, order⟩ := ih ⟨{ x.conn with endpointIdx := x.conn.endpointIdx + 1 }, x.cache,
        x.trace ++ (startConnect endpoint (a.dial x.conn.endpointIdx)).2.2⟩
      refine ⟨endpoint :: front, tried.trans ?_, List.cons_prefix_cons.mpr ⟨rfl, order⟩⟩
      simp [attempts_append, one]
    · exact ⟨[endpoint], by simp [attempts_append, one, closed], rest, rfl⟩
    · exact ⟨[endpoint], by simp [attempts_append, one, closed], rest, rfl⟩

/-- State, intent and epoch of the connection that starts to connect make no difference but to the epoch. -/
theorem connectLoop_ageless (eps : List Endpoint) (c : Connection) (state : State) (want : Want) (epoch : UInt64)
    (cache : Option LruCache) (t u : List Event) :
    ∃ events, (connectLoop a eps ⟨c, cache, t⟩).trace = t ++ events ∧
      (connectLoop a eps ⟨{ c with state := state, want := want, epoch := epoch }, cache, u⟩).trace = u ++ events ∧
      (connectLoop a eps ⟨{ c with state := state, want := want, epoch := epoch }, cache, u⟩).conn.ageless =
        (connectLoop a eps ⟨c, cache, t⟩).conn.ageless := by
  induction eps generalizing c t u with
  | nil => exact ⟨closing c.upstream, by simp [connectLoop, failWith_eq], by simp [connectLoop, failWith_eq],
      by simp [connectLoop, failWith_eq, Connection.failed, Connection.ageless]⟩
  | cons endpoint rest ih =>
    have move (events : List Event) :=
      ih { c with endpointIdx := c.endpointIdx + 1 } (t ++ events) (u ++ events)
    simp only [connectLoop]
    cases a.dial c.endpointIdx with
    | noSocket =>
      obtain ⟨events, first, second, same⟩ := move [.attempt endpoint]
      exact ⟨_, first.trans (List.append_assoc _ _ _), second.trans (List.append_assoc _ _ _), same⟩
    | noNonblock fd =>
      obtain ⟨events, first, second, same⟩ := move [.attempt endpoint, .opened fd, .closed fd]
      exact ⟨_, first.trans (List.append_assoc _ _ _), second.trans (List.append_assoc _ _ _), same⟩
    | refused fd =>
      obtain ⟨events, first, second, same⟩ := move [.attempt endpoint, .opened fd, .closed fd]
      exact ⟨_, first.trans (List.append_assoc _ _ _), second.trans (List.append_assoc _ _ _), same⟩
    | connected fd => exact ⟨_, List.append_assoc _ _ _, List.append_assoc _ _ _, rfl⟩
    | inProgress fd => exact ⟨_, List.append_assoc _ _ _, List.append_assoc _ _ _, rfl⟩

/-- Of what the world decides, the loop looks at the outcomes of the candidates only. -/
theorem connectLoop_congr {b : Answers} (dial : b.dial = a.dial) (eps : List Endpoint) (x : Exec) :
    connectLoop b eps x = connectLoop a eps x := by
  induction eps generalizing x with
  | nil => rfl
  | cons endpoint rest ih => simp only [connectLoop, dial, ih]

/-- The blocking arm of `begin_resolve`. -/
theorem beginResolve_blocking (cfg : Config) (a : Answers) (x : Exec) :
    beginResolve { cfg with asyncResolve := false } a x =
      match a.lookup with
      | none => ⟨x.conn.failed badGateway, x.cache, x.trace ++ closing x.conn.upstream⟩
      | some endpoints => connectLoop a endpoints ⟨x.conn.withEndpoints endpoints, x.cache, x.trace⟩ := by
  rw [beginResolve]
  cases a.lookup with
  | none => exact failWith_eq badGateway x
  | some endpoints => rfl

/-- A hit of the asynchronous arm goes straight to the candidates. -/
theorem beginResolve_hit (cfg : Config) (a : Answers) (x : Exec) (endpoints : List Endpoint) :
    beginResolve { cfg with asyncResolve := true } { a with start := .hit endpoints } x =
      connectLoop a endpoints ⟨x.conn.withEndpoints endpoints, x.cache, x.trace⟩ :=
  connectLoop_congr (a := a) (b := { a with start := .hit endpoints }) rfl _ _

/-- What the asynchronous arm adds to the history: the job's pipe, and what becomes of its read end. -/
def detour (lastRef : Bool) (job : ResolveJob) : List Event :=
  [.opened job.readEnd, .opened job.writeEnd, .released job.writeEnd] ++ releasing lastRef (some job)

theorem attempts_detour (lastRef : Bool) (job : ResolveJob) : attempts (detour lastRef job) = [] := by
  cases lastRef <;> rfl

/-- A job that is ready, finished right after it was started, against the blocking call with the same result. -/
theorem pending_agrees (cfg : Config) {x : Exec} (fresh : Unresolved x.conn) (readEnd writeEnd : Nat) (found : Found) :
    ∃ events,
      (beginResolve { cfg with asyncResolve := false }
        { a with lookup := if found.ok then some found.endpoints else none } x).trace = x.trace ++ events ∧
      (finishResolve { a with job := ⟨true, found.ok, found.endpoints⟩ }
        (beginResolve { cfg with asyncResolve := true } { a with start := .pending readEnd writeEnd } x)).trace =
        x.trace ++ detour a.lastRef ⟨readEnd, writeEnd, x.conn.req.host, x.conn.req.port⟩ ++ events ∧
      (finishResolve { a with job := ⟨true, found.ok, found.endpoints⟩ }
        (beginResolve { cfg with asyncResolve := true } { a with start := .pending readEnd writeEnd } x)).conn.ageless =
      (beginResolve { cfg with asyncResolve := false }
        { a with lookup := if found.ok then some found.endpoints else none } x).conn.ageless := by
  have job := fresh.job
  rw [beginResolve_blocking cfg]
  cases ok : found.ok with
  | true =>
    obtain ⟨events, first, second, same⟩ := connectLoop_ageless (a := a) found.endpoints
      (x.conn.withEndpoints found.endpoints) .resolving .readResolver (x.conn.epoch + 1) x.cache x.trace
      (x.trace ++ detour a.lastRef ⟨readEnd, writeEnd, x.conn.req.host, x.conn.req.port⟩)
    have resumed : finishResolve { a with job := ⟨true, true, found.endpoints⟩ }
        (beginResolve { cfg with asyncResolve := true } { a with start := .pending readEnd writeEnd } x) =
        connectLoop a found.endpoints ⟨{ x.conn.withEndpoints found.endpoints with
          state := .resolving, want := .readResolver, epoch := x.conn.epoch + 1 }, x.cache,
          x.trace ++ detour a.lastRef ⟨readEnd, writeEnd, x.conn.req.host, x.conn.req.port⟩⟩ := by
      rw [← connectLoop_congr (a := a) (b := { a with job := ⟨true, true, found.endpoints⟩ }) rfl]
      simp [beginResolve, finishResolve, resetJob, detour, Connection.setWant, beginConnect,
        Connection.withEndpoints, job]
    rw [resumed]
    simp only [if_true]
    rw [connectLoop_congr (a := a) (b := { a with lookup := some found.endpoints }) rfl]
    exact ⟨events, first, second, same⟩
  | false =>
    refine ⟨closing x.conn.upstream, rfl, ?_, ?_⟩
    · simp [beginResolve, finishResolve, resetJob, failWith_eq, detour, Connection.setWant]
    · simp [beginResolve, finishResolve, resetJob, failWith_eq, Connection.ageless, Connection.setWant,
        Connection.failed, job]

end Connection

/-! ## What a lookup leaves in the DNS cache -/

namespace Resolver
variable {r : Resolver}

theorem cacheGet_frame (r : Resolver) (key : Bytes) :
    (r.cacheGet key).2.callers = r.callers ∧ (r.cacheGet key).2.now = r.now := by
  unfold cacheGet
  split
  · exact ⟨rfl, rfl⟩
  · split <;> exact ⟨rfl, rfl⟩

/-- The DNS cache once a lookup that began in `r` has come to an end `d` later. -/
def settled (r : Resolver) (host port : Bytes) (d : Nat) (found : Found) : Bytes → Option CacheEntry :=
  let got := r.cacheGet (key host port)
  if got.1.isNone ∧ found.ok = true ∧ 0 < r.cacheTtlS then
    Function.update got.2.cache (key host port) (some ⟨found.endpoints, r.now + d + r.cacheTtlS * second⟩)
  else got.2.cache

/-- What `resolve_blocking` returns. -/
def resolveBlocking (r : Resolver) (host port : Bytes) (found : Found) : Option (List Endpoint) :=
  match (r.cacheGet (key host port)).1 with
  | some endpoints => some endpoints
  | none => if found.ok then some found.endpoints else none

/-- The steps of `resolve_blocking` in thread `c`, whose lookup takes `d`. -/
def blockingActs (c : Nat) (host port : Bytes) (d : Nat) (found : Found) : List Act :=
  [.ask c host port, .tick d, .lookup c found, .put c]

theorem blocking_cache {c : Nat} (idle : r.callers c = .idle) (host port : Bytes) (d : Nat) (found : Found) :
    (run next r (blockingActs c host port d found)).cache = r.settled host port d found := by
  obtain ⟨callers, now⟩ := cacheGet_frame r (key host port)
  have ttl := (same_cacheGet r (key host port)).ttl
  cases got : r.cacheGet (key host port) with
  | mk hit s =>
    rw [got] at callers now ttl
    dsimp only at callers now ttl
    cases hit with
    | some endpoints =>
      have still : s.callers c = .idle := by rw [callers, idle]
      simp [blockingActs, next, idle, got, settled, still]
    | none =>
      cases ok : found.ok with
      | false => simp [blockingActs, next, idle, got, settled, ok, enter, note]
      | true =>
        by_cases keeps : r.cacheTtlS ≤ 0
        · have off : ¬ 0 < r.cacheTtlS := by omega
          simp [blockingActs, next, idle, got, settled, ok, enter, note, cachePut, ttl, keeps, off]
        · have on : 0 < r.cacheTtlS := by omega
          simp [blockingActs, next, idle, got, settled, ok, enter, note, cachePut, ttl, keeps, on, now]

/-! ### A thread at work -/

theorem next_looking {i j : Nat} (bound : i < r.size) (here : r.workers i = .on j .looking) (found : Found)
    (wrote : Bool) : r.next (.work i found wrote) =
      (r.note (.looked (r.jobs j).host (r.jobs j).port found)).hold i j (.publishing found .endpoints) fun b =>
        { b with found := some found } := by
  simp [next, bound, work, here]

theorem next_publishing {i j : Nat} {f : Found} {stage stage' : Stage} (bound : i < r.size)
    (here : r.workers i = .on j (.publishing f stage)) (onward : stage.next = some stage') (found : Found)
    (wrote : Bool) : r.next (.work i found wrote) =
      (r.storeFound j f stage).hold i j (.publishing f stage') (stage.effect f wrote) := by
  simp [next, bound, work, here, onward]

/-- Thread `i` has looked job `j` up and is at `stage`; nothing else has happened since `r`. -/
structure Publishing (r : Resolver) (i j : Nat) (f : Found) (stage : Stage) (s : Resolver) : Prop where
  size : s.size = r.size
  ttl : s.cacheTtlS = r.cacheTtlS
  now : s.now = r.now
  thread : s.workers i = .on j (.publishing f stage)
  name : (s.jobs j).host = (r.jobs j).host ∧ (s.jobs j).port = (r.jobs j).port
  endpoints : 1 ≤ stage.rank → (s.jobs j).endpoints = f.endpoints
  ok : 3 ≤ stage.rank → (s.jobs j).ok = f.ok
  ready : 5 ≤ stage.rank → (s.jobs j).ready = true
  cache : s.cache = if 4 ≤ stage.rank ∧ f.ok = true ∧ 0 < r.cacheTtlS then
      Function.update r.cache (key (r.jobs j).host (r.jobs j).port) (some ⟨f.endpoints, r.now + r.cacheTtlS * second⟩)
    else r.cache

theorem publishing_looked {i j : Nat} (bound : i < r.size) (here : r.workers i = .on j .looking) (found : Found)
    (wrote : Bool) : Publishing r i j found .endpoints (r.next (.work i found wrote)) := by
  rw [next_looking bound here]
  constructor <;> simp [hold, note, Stage.rank]

theorem storeFound_now (s : Resolver) (j : Nat) (f : Found) (stage : Stage) :
    (s.storeFound j f stage).now = s.now := by
  unfold storeFound cachePut
  split
  · split <;> rfl
  · rfl

theorem storeFound_cache (s : Resolver) (j : Nat) (f : Found) (stage : Stage) :
    (s.storeFound j f stage).cache = if stage = .cache ∧ f.ok = true ∧ 0 < s.cacheTtlS then
        Function.update s.cache (key (s.jobs j).host (s.jobs j).port)
          (some ⟨(s.jobs j).endpoints, s.now + s.cacheTtlS * second⟩)
      else s.cache := by
  unfold storeFound cachePut
  by_cases off : s.cacheTtlS ≤ 0
  · have not_on : ¬ 0 < s.cacheTtlS := by omega
    simp [off, not_on]
  · have on : 0 < s.cacheTtlS := by omega
    by_cases stores : stage = .cache ∧ f.ok = true
    · simp [stores, off, on]
    · rw [if_neg stores, if_neg fun all => stores ⟨all.1, all.2.1⟩]

/-- One step further. -/
theorem Publishing.next {i j : Nat} {f : Found} {stage stage' : Stage} {s : Resolver}
    (h : Publishing r i j f stage s) (bound : i < r.size) (onward : stage.next = some stage') (found : Found)
    (wrote : Bool) : Publishing r i j f stage' (s.next (.work i found wrote)) := by
  have same := same_storeFound s j f stage
  rw [next_publishing (by rwa [h.size]) h.thread onward]
  have job : ((s.storeFound j f stage).hold i j (.publishing f stage') (stage.effect f wrote)).jobs j =
      { stage.effect f wrote (s.jobs j) with status := .held i (.publishing f stage') } := by
    simp [hold, same.jobs]
  have now := (storeFound_now s j f stage).trans h.now
  refine ⟨same.size.trans h.size, same.ttl.trans h.ttl, now, ?_, ?_, ?_, ?_, ?_, ?_⟩
  · simp [hold]
  · rw [job]
    cases stage <;> exact h.name
  · rw [job]
    have endpoints := h.endpoints
    cases stage <;> cases onward <;> simp_all [Stage.effect, Stage.rank]
  · rw [job]
    have ok := h.ok
    cases stage <;> cases onward <;> simp_all [Stage.effect, Stage.rank]
  · rw [job]
    have ready := h.ready
    cases stage <;> cases onward <;> simp_all [Stage.effect, Stage.rank]
  · have cache := h.cache
    have endpoints := h.endpoints
    change (s.storeFound j f stage).cache = _
    rw [storeFound_cache, h.ttl, h.now, h.name.1, h.name.2]
    cases stage <;> cases onward <;> simp_all [Stage.rank]

/-- Thread `i` looks a job up and publishes what it has found, up to the flag. -/
def publishActs (i : Nat) (found : Found) (wrote : Bool) : List Act := List.replicate 6 (.work i found wrote)

theorem publish_run {i j : Nat} (bound : i < r.size) (here : r.workers i = .on j .looking) (found : Found)
    (wrote : Bool) : Publishing r i j found .write (run next r (publishActs i found wrote)) := by
  have looked := publishing_looked bound here found wrote
  have endpoints := looked.next bound rfl found wrote
  have err := endpoints.next bound rfl found wrote
  have ok := err.next bound rfl found wrote
  have cache := ok.next bound rfl found wrote
  have ready := cache.next bound rfl found wrote
  simp only [publishActs, List.replicate, run_cons, run_nil]
  exact ready

/-! ### A job keeps its name -/

/-- Whatever happens, a job that has been made is for the same host and port. -/
theorem Step.name {r' : Resolver} {act : Act} (step : Step r act r') {j : Nat} (made : j < r.made) :
    j < r'.made ∧ (r'.jobs j).host = (r.jobs j).host ∧ (r'.jobs j).port = (r.jobs j).port := by
  -- a step changes one job, in other fields
  have update {k : Nat} {b : Job} (host : b.host = (r.jobs k).host) (port : b.port = (r.jobs k).port) :
      (Function.update r.jobs k b j).host = (r.jobs j).host ∧
        (Function.update r.jobs k b j).port = (r.jobs j).port := by
    by_cases job : j = k
    · subst job
      rw [Function.update_self]
      exact ⟨host, port⟩
    · rw [Function.update_of_ne job]
      exact ⟨rfl, rfl⟩
  cases step with
  | aside _ _ same _ =>
    rw [same.made, same.jobs]
    exact ⟨made, rfl, rfl⟩
  | closed => exact ⟨made, rfl, rfl⟩
  | pushed owner host port readEnd writeEnd open_ =>
    refine ⟨Nat.lt_succ_of_lt made, ?_⟩
    simp [Function.update_of_ne made.ne]
  | dequeued i found wrote k queue bound here front => exact ⟨made, update rfl rfl⟩
  | exited => exact ⟨made, rfl, rfl⟩
  | went i found wrote k bound here same go noted =>
    rename_i s
    refine ⟨same.made.symm ▸ made, ?_⟩
    simp only [hold, same.jobs]
    cases go with
    | looked => exact update rfl rfl
    | stage f stage stage' next => cases stage <;> exact update rfl rfl
  | letGo i found wrote k f bound here => exact ⟨made, update rfl rfl⟩
  | drained k => exact ⟨made, update rfl rfl⟩
  | taken k ready => exact ⟨made, update rfl rfl⟩
  | discarded k queue closed joined front => exact ⟨made, update rfl rfl⟩

theorem name_run {j : Nat} (made : j < r.made) (acts : List Act) :
    ((run next r acts).jobs j).host = (r.jobs j).host ∧ ((run next r acts).jobs j).port = (r.jobs j).port := by
  have kept : j < (run next r acts).made ∧ ((run next r acts).jobs j).host = (r.jobs j).host ∧
      ((run next r acts).jobs j).port = (r.jobs j).port := by
    apply run_invariant (P := fun s : Resolver => j < s.made ∧ (s.jobs j).host = (r.jobs j).host ∧
      (s.jobs j).port = (r.jobs j).port)
    · rintro s act ⟨made, host, port⟩
      obtain ⟨made', host', port'⟩ := (next_step s act).name made
      exact ⟨made', host'.trans host, port'.trans port⟩
    · exact ⟨made, rfl, rfl⟩
  exact kept.2

/-! ### From `start` to a result -/

/-- `start` after a miss. -/
def started (r : Resolver) (owner : Nat) (host port : Bytes) (readEnd writeEnd : Nat) : Resolver :=
  run next r [.get host port, .push owner host port readEnd writeEnd]

/-- The steps `mid` take thread `i` to the lookup of job `j`, `d` later. Otherwise
they are anything that leaves the DNS cache alone. -/
structure Reaches (r : Resolver) (mid : List Act) (i j d : Nat) : Prop where
  bound : i < r.size
  thread : (run next r mid).workers i = .on j .looking
  now : (run next r mid).now = r.now + d
  cache : (run next r mid).cache = r.cache

/-- The resolver once the job made last is published. -/
def published (r : Resolver) (mid : List Act) (i : Nat) (found : Found) (wrote : Bool) : Resolver :=
  run next r (mid ++ publishActs i found wrote)

/-- The result fields of a job. -/
def Job.view (b : Job) : JobView := ⟨b.ready, b.ok, b.endpoints⟩

theorem started_eq (open_ : r.closed = false) (owner : Nat) (host port : Bytes) (readEnd writeEnd : Nat) :
    r.started owner host port readEnd writeEnd =
      { (r.cacheGet (key host port)).2 with
        jobs := Function.update r.jobs r.made
          { host := host, port := port, readEnd := readEnd, writeEnd := writeEnd, owner := owner, status := .queued }
        made := r.made + 1
        queue := r.queue.send r.made } := by
  have same := same_cacheGet r (key host port)
  simp only [started, run_cons, run_nil, next, push, same.closed, open_, same.jobs, same.made, same.queue]
  rfl

/-- After a miss, the asynchronous arm leaves the same cache and the job has the result. -/
theorem published_spec {host port : Bytes} {owner readEnd writeEnd i d : Nat} {mid : List Act} {found : Found}
    (miss : (r.cacheGet (key host port)).1 = none) (open_ : r.closed = false)
    (reaches : Reaches (r.started owner host port readEnd writeEnd) mid i r.made d) (wrote : Bool) :
    ((r.started owner host port readEnd writeEnd).published mid i found wrote).cache = r.settled host port d found ∧
    (((r.started owner host port readEnd writeEnd).published mid i found wrote).jobs r.made).view =
      ⟨true, found.ok, found.endpoints⟩ := by
  have same := same_cacheGet r (key host port)
  have clock := (cacheGet_frame r (key host port)).2
  have eq := started_eq open_ owner host port readEnd writeEnd
  have made : r.made < (r.started owner host port readEnd writeEnd).made := by
    rw [eq]
    exact Nat.lt_succ_self _
  have name := name_run made mid
  have settings := settings_run (r.started owner host port readEnd writeEnd) mid
  have done := publish_run (settings.1.symm ▸ reaches.bound) reaches.thread found wrote
  have cache := done.cache
  rw [published, run_append]
  constructor
  · rw [cache, reaches.cache, reaches.now, settings.2, name.1, name.2, eq]
    simp [settled, miss, Stage.rank, same.ttl, clock]
  · simp only [Job.view, done.ready (by decide), done.ok (by decide), done.endpoints (by decide)]

/-- An idle thread of an open resolver with nothing else to do is enough. -/
theorem reaches_idle {i : Nat} (bound : i < r.size) (here : r.workers i = .waiting) (empty : r.queue.waiting = [])
    (open_ : r.closed = false) (owner : Nat) (host port : Bytes) (readEnd writeEnd d : Nat) (found : Found)
    (wrote : Bool) :
    Reaches (r.started owner host port readEnd writeEnd) [.work i found wrote, .tick d] i r.made d := by
  have same := same_cacheGet r (key host port)
  rw [started_eq open_]
  cases front : (r.queue.send r.made).takeFront with
  | none => simp [Mailbox.takeFront_eq_none] at front
  | some taken =>
    obtain ⟨j, queue⟩ := taken
    obtain ⟨waiting, -, -⟩ := Mailbox.takeFront_eq_some front
    obtain rfl : r.made = j := by
      rw [Mailbox.send_waiting, empty] at waiting
      exact (List.cons.inj waiting).1
    constructor <;> simp [next, work, same.size, same.workers, bound, here, front, hold]

end Resolver

/-! ## The asynchronous arm from beginning to end -/

/-- `begin_resolve` with `async_resolve`, to its end: a hit, or a job that is looked
up, published and finished. The lookup takes `d` and returns `found`. -/
inductive AsyncArm (cfg : Config) (a : Answers) (x : Exec) (r : Resolver) (d : Nat) (found : Found) :
    Exec → Resolver → Prop where
  | hit (endpoints : List Endpoint)
      (cached : (r.cacheGet (Resolver.key x.conn.req.host x.conn.req.port)).1 = some endpoints) :
      AsyncArm cfg a x r d found
        (beginResolve { cfg with asyncResolve := true } { a with start := .hit endpoints } x)
        (r.next (.get x.conn.req.host x.conn.req.port))
  | looked (owner readEnd writeEnd i : Nat) (mid : List Resolver.Act) (wrote : Bool)
      (miss : (r.cacheGet (Resolver.key x.conn.req.host x.conn.req.port)).1 = none) (open_ : r.closed = false)
      (reaches :
        Resolver.Reaches (r.started owner x.conn.req.host x.conn.req.port readEnd writeEnd) mid i r.made d) :
      AsyncArm cfg a x r d found
        (finishResolve
          { a with job := (((r.started owner x.conn.req.host x.conn.req.port readEnd writeEnd).published mid i found
            wrote).jobs r.made).view }
          (beginResolve { cfg with asyncResolve := true } { a with start := .pending readEnd writeEnd } x))
        ((r.started owner x.conn.req.host x.conn.req.port readEnd writeEnd).published mid i found wrote)

section Arms
variable {cfg : Config} {a : Answers} {x : Exec} {r : Resolver} {d : Nat} {found : Found} {y : Exec} {s : Resolver}

theorem AsyncArm.cache (arm : AsyncArm cfg a x r d found y s) :
    s.cache = r.settled x.conn.req.host x.conn.req.port d found := by
  cases arm with
  | hit endpoints cached => simp [Resolver.next, Resolver.settled, cached]
  | looked owner readEnd writeEnd i mid wrote miss open_ reaches =>
    exact (Resolver.published_spec miss open_ reaches wrote).1

/-- What the blocking arm tries. -/
theorem blocking_attempts (cfg : Config) (a : Answers) (x : Exec) :
    ∃ front, attempts (beginResolve { cfg with asyncResolve := false } a x).trace = attempts x.trace ++ front ∧
      match a.lookup with
      | some endpoints => front <+: endpoints
      | none => front = [] ∧
          (beginResolve { cfg with asyncResolve := false } a x).conn = x.conn.failed badGateway := by
  rw [beginResolve_blocking cfg]
  cases a.lookup with
  | none =>
    have closed : attempts (closing x.conn.upstream) = [] := by cases x.conn.upstream <;> rfl
    exact ⟨[], by simp [attempts_append, closed], rfl, rfl⟩
  | some endpoints => exact connectLoop_attempts endpoints _

/-- The asynchronous arm against the blocking one: the same connection, the same attempts. -/
theorem AsyncArm.conn (fresh : Unresolved x.conn) (arm : AsyncArm cfg a x r d found y s) :
    let b := beginResolve { cfg with asyncResolve := false }
      { a with lookup := r.resolveBlocking x.conn.req.host x.conn.req.port found } x
    y.conn.ageless = b.conn.ageless ∧ attempts y.trace = attempts b.trace := by
  cases arm with
  | hit endpoints cached =>
    have same : beginResolve { cfg with asyncResolve := true } { a with start := .hit endpoints } x =
        beginResolve { cfg with asyncResolve := false }
          { a with lookup := r.resolveBlocking x.conn.req.host x.conn.req.port found } x := by
      rw [beginResolve_hit, beginResolve_blocking cfg]
      simp only [Resolver.resolveBlocking, cached]
      exact (connectLoop_congr (a := a) (b := { a with lookup := some endpoints }) rfl _ _).symm
    simp only [same, and_self]
  | looked owner readEnd writeEnd i mid wrote miss open_ reaches =>
    rw [(Resolver.published_spec miss open_ reaches wrote).2]
    simp only [Resolver.resolveBlocking, miss]
    obtain ⟨events, blocking, async, same⟩ := pending_agrees (a := a) cfg fresh readEnd writeEnd found
    refine ⟨same, ?_⟩
    rw [async, blocking, attempts_append, attempts_append, attempts_append, attempts_detour, List.append_nil]

/-- **The two arms agree.** For every request, every content of the DNS cache and
every outcome of the lookup, the asynchronous arm ends with the connection of the
blocking arm apart from the epoch and with its DNS cache. Both try the same
endpoints in order from the first, or send the same 502. -/
theorem arms_agree {c : Nat} (fresh : Unresolved x.conn) (idle : r.callers c = .idle)
    (arm : AsyncArm cfg a x r d found y s) :
    let result := r.resolveBlocking x.conn.req.host x.conn.req.port found
    let b := beginResolve { cfg with asyncResolve := false } { a with lookup := result } x
    y.conn.ageless = b.conn.ageless ∧
    s.cache = (run Resolver.next r (Resolver.blockingActs c x.conn.req.host x.conn.req.port d found)).cache ∧
    ∃ front, attempts y.trace = attempts x.trace ++ front ∧ attempts b.trace = attempts x.trace ++ front ∧
      match result with
      | some endpoints => front <+: endpoints
      | none => front = [] ∧ b.conn = x.conn.failed badGateway := by
  obtain ⟨conn, tried⟩ := arm.conn fresh
  obtain ⟨front, from_x, shape⟩ := blocking_attempts cfg
    { a with lookup := r.resolveBlocking x.conn.req.host x.conn.req.port found } x
  refine ⟨conn, ?_, front, tried.trans from_x, from_x, shape⟩
  rw [arm.cache, Resolver.blocking_cache idle]

/-- A `POST` whose headers are read and whose body `ab` has just come: a miss with one idle thread, and a lookup
that takes 5 and finds one address. -/
theorem arms_agree_miss :
    let s := (Session.start 3 7).drive {}
      [⟨{ recv := .bytes (bytes "POST http://h:81/ HTTP/1.1\r\nContent-Length: 2\r\n\r\n") }, none⟩]
    let x : Exec := ⟨{ s.conn with
      inClient := s.conn.inClient ++ bytes "ab"
      outUpstream := buildUpstreamRequest s.conn.req (bytes "ab") }, none, s.trace⟩
    let r := Resolver.start 1 60 0
    let found : Found := ⟨true, [⟨bytes "10.0.0.1", 2, 1, 6⟩], []⟩
    let a : Answers := { dial := fun _ => .connected 5 }
    s.conn.parsed = true ∧ (x.conn.req.host, x.conn.req.port) = (bytes "h", bytes "81") ∧
    ∃ y r', AsyncArm {} a x r 5 found y r' ∧
      y.conn.ageless =
        (beginResolve { asyncResolve := false } { a with lookup := some found.endpoints } x).conn.ageless ∧
      r'.cache = (run Resolver.next r (Resolver.blockingActs 0 x.conn.req.host x.conn.req.port 5 found)).cache := by
  intro s x r found a
  have reading : s.conn.want = .readClient := by decide +kernel
  have fresh := reading_unresolved {} 3 7 _ reading
  have reaches := Resolver.reaches_idle (r := r) (i := 0) (by decide) rfl rfl rfl 7 x.conn.req.host x.conn.req.port 8 9
    5 found true
  have arm : AsyncArm {} a x r 5 found _ _ := .looked 7 8 9 0 _ true rfl rfl reaches
  have agree := arms_agree (c := 0) (x := x) ⟨fresh.job, fresh.endpoints⟩ rfl arm
  exact ⟨by decide +kernel, by decide +kernel, _, _, arm, agree.1, agree.2.1⟩

end Arms

end EvProxy
