import EvProxy.Sections
import EvProxy.Cache.Refinement
import EvProxy.Config
import EvProxy.Proxy.System

/-!
# The response cache behind its lock (`cache.hpp`, `cache.cpp`, `factory.cpp`)

`get` and `put` statement by statement, as the bodies of an object that has a
mutex or not (`LockT`). `make_cache` leaves the mutex out for the event loop.
`cacheOf` says which thread of the process calls which cache. Together they give
that no two threads are ever in one cache, whatever the configuration, and that
what the threads see is one recency store (`cache_serialized`).
-/

namespace EvProxy
namespace LruCache
open Runs Recency Sections

/-! ## The bodies -/

/-- A point of `get` or `put`, named after the statement that is next, with the locals in use. -/
inductive Point where
  | get (key : Bytes)
  | countMiss
  | promote (it : Nat)
  | copyOut (it : Nat)
  | countHit (out : Bytes)
  | put (key response : Bytes)
  | subtractOld (it : Nat) (response : Bytes)
  | replace (it : Nat) (response : Bytes)
  | addNew (it : Nat) (response : Bytes)
  | refresh (it : Nat)
  | pushFront (key response : Bytes)
  | enterIndex (key response : Bytes)
  | addSize (response : Bytes)
  | overfull
  | subtractVictim (victim : Nat)
  | eraseIndex (victim : Nat)
  | popBack
  | returned (out : Option Bytes)

/-- One statement. An iterator without its node, which has no meaning in the source, ends the call. -/
def statement : Point → LruCache → Point × LruCache
  | .get key, c =>
    match c.index.lookup key with
    | none => (.countMiss, c)
    | some it => (.promote it, c)
  | .countMiss, c => (.returned none, { c with misses := c.misses + 1 })
  | .promote it, c =>
    match c.deref it with
    | none => (.returned none, c)
    | some n => (.copyOut it, { c with order := splice n c.order })
  | .copyOut it, c =>
    match c.deref it with
    | none => (.returned none, c)
    | some n => (.countHit n.response, c)
  | .countHit out, c => (.returned (some out), { c with hits := c.hits + 1 })
  | .put key response, c =>
    match c.index.lookup key with
    | none => (.pushFront key response, c)
    | some it => (.subtractOld it response, c)
  | .subtractOld it response, c =>
    match c.deref it with
    | none => (.returned none, c)
    | some n => (.replace it response, { c with bytes := c.bytes - n.response.length })
  | .replace it response, c =>
    (.addNew it response,
      { c with order := c.order.map fun n => if n.ident = it then { n with response := response } else n })
  | .addNew it response, c => (.refresh it, { c with bytes := c.bytes + response.length })
  | .refresh it, c =>
    match c.deref it with
    | none => (.returned none, c)
    | some n => (.returned none, { c with order := splice n c.order })
  | .pushFront key response, c =>
    (.enterIndex key response,
      { c with order := ⟨c.nextNode, key, response⟩ :: c.order, nextNode := c.nextNode + 1 })
  | .enterIndex key response, c =>
    match c.order.head? with
    | none => (.returned none, c)
    | some front => (.addSize response, { c with index := c.index.insert key front.ident })
  | .addSize response, c => (.overfull, { c with bytes := c.bytes + response.length })
  | .overfull, c =>
    if c.overfull then
      match c.order.getLast? with
      | none => (.returned none, c)
      | some victim => (.subtractVictim victim.ident, c)
    else (.returned none, c)
  | .subtractVictim it, c =>
    match c.deref it with
    | none => (.returned none, c)
    | some victim => (.eraseIndex it, { c with bytes := c.bytes - victim.response.length })
  | .eraseIndex it, c =>
    match c.deref it with
    | none => (.returned none, c)
    | some victim => (.popBack, { c with index := c.index.erase victim.key })
  | .popBack, c => (.overfull, { c with order := c.order.dropLast })
  | .returned out, c => (.returned out, c)

/-- `LruCacheImpl<LockT>`: `locked` is false for `NullMutex`. -/
def object (locked : Bool) : Object (Op Bytes Bytes) LruCache Point (Option Bytes) where
  step := statement
  result
    | .returned out => some out
    | _ => none
  entry
    | .get key => .get key
    | .put key response => .put key response
  locked := locked

/-! ## Alone, a body does what the call does -/

section Bodies
variable {c d t : LruCache} {locked : Bool} {f g : Point} {r : Option Bytes}

/-- A statement that does not return, and then the rest. -/
theorem returns_after (does : statement f c = (g, d)) (goes_on : (object locked).result f = none)
    (rest : (object locked).Returns g d r t) : (object locked).Returns f c r t :=
  .step goes_on (by rwa [show (object locked).step f c = (g, d) from does])

theorem Wf.deref_of_mem (wf : c.Wf) {n : Node} (mem : n ∈ c.order) : c.deref n.ident = some n := by
  obtain ⟨m, at_it, mem', -, same⟩ := wf.deref_of_lookup ((wf.index n.key n.ident).mpr ⟨n, mem, rfl, rfl⟩)
  rw [at_it, List.inj_on_of_nodup_map wf.idents mem' mem same]

theorem get_returns (wf : c.Wf) (key : Bytes) :
    (object locked).Returns (.get key) c (c.get key).1 (c.get key).2 := by
  cases found : c.index.lookup key with
  | none =>
    rw [LruCache.get, found]
    refine returns_after (g := .countMiss) (d := c) (by rw [statement, found]) rfl ?_
    exact returns_after rfl rfl (Body.returned rfl)
  | some it =>
    obtain ⟨n, at_it, -, -, rfl⟩ := wf.deref_of_lookup found
    let moved : LruCache := { c with order := splice n c.order }
    have front : moved.deref n.ident = some n := by simp [moved, deref, splice]
    rw [LruCache.get, found]
    simp only [at_it]
    refine returns_after (g := .promote n.ident) (d := c) (by rw [statement, found]) rfl ?_
    refine returns_after (g := .copyOut n.ident) (d := moved) (by rw [statement, at_it]) rfl ?_
    refine returns_after (g := .countHit n.response) (d := moved) (by rw [statement, front]) rfl ?_
    exact returns_after rfl rfl (Body.returned rfl)

/-- The eviction loop, from its condition to its end. -/
theorem evict_returns (wf : c.Wf) {rounds : Nat} (enough : c.order.length ≤ rounds) :
    (object locked).Returns .overfull c none (c.evict rounds) := by
  induction rounds generalizing c with
  | zero =>
    have empty : c.order = [] := List.length_eq_zero_iff.mp (Nat.le_zero.mp enough)
    refine returns_after (g := .returned none) (d := c) ?_ rfl (Body.returned rfl)
    rw [statement, empty, List.getLast?_nil, ite_self]
  | succ rounds ih =>
    rw [evict]
    by_cases exceeds : c.overfull = true
    · rw [if_pos exceeds]
      cases last : c.order.getLast? with
      | none =>
        refine returns_after (g := .returned none) (d := c) ?_ rfl (Body.returned rfl)
        rw [statement, if_pos exceeds, last]
      | some victim =>
        let less : LruCache := { c with bytes := c.bytes - victim.response.length }
        have at_it : c.deref victim.ident = some victim := wf.deref_of_mem (List.mem_of_getLast? last)
        have still : less.deref victim.ident = some victim := at_it
        refine returns_after (g := .subtractVictim victim.ident) (d := c) ?_ rfl ?_
        · rw [statement, if_pos exceeds, last]
        refine returns_after (g := .eraseIndex victim.ident) (d := less) (by rw [statement, at_it]) rfl ?_
        refine returns_after (g := .popBack) (d := { less with index := c.index.erase victim.key }) ?_ rfl ?_
        · rw [statement, still]
        refine returns_after rfl rfl (ih (wf.popBack last) ?_)
        show c.order.dropLast.length ≤ rounds
        rw [List.length_dropLast]
        omega
    · rw [if_neg exceeds]
      refine returns_after (g := .returned none) (d := c) ?_ rfl (Body.returned rfl)
      rw [statement, if_neg exceeds]

/-- Assigning through an iterator and then splicing is splicing the new node. -/
theorem splice_assigned (n : Node) (order : List Node) (response : Bytes) :
    splice { n with response := response }
        (order.map fun m => if m.ident = n.ident then { m with response := response } else m) =
      splice { n with response := response } order := by
  unfold splice
  congr 1
  induction order with
  | nil => rfl
  | cons m order ih =>
    by_cases same : m.ident = n.ident
    · simpa [same] using ih
    · simpa [same] using ih

theorem deref_assigned {it : Nat} {n : Node} (at_it : c.deref it = some n) (response : Bytes) :
    LruCache.deref { c with order := c.order.map fun m => if m.ident = it then { m with response := response } else m }
      it = some { n with response := response } := by
  have ident : n.ident = it := by simpa using List.find?_some at_it
  rw [deref, List.find?_map]
  have same : ((fun m : Node => decide (m.ident = it)) ∘
      fun m : Node => if m.ident = it then { m with response := response } else m) =
        fun m : Node => decide (m.ident = it) := by
    funext m
    by_cases here : m.ident = it <;> simp [here]
  rw [same, show c.order.find? _ = some n from at_it, Option.map_some, if_pos ident]

theorem put_returns (wf : c.Wf) (key response : Bytes) :
    (object locked).Returns (.put key response) c none (c.put key response) := by
  cases found : c.index.lookup key with
  | none =>
    rw [put_new found]
    refine returns_after (g := .pushFront key response) (d := c) (by rw [statement, found]) rfl ?_
    refine returns_after rfl rfl (returns_after rfl rfl (returns_after rfl rfl ?_))
    exact evict_returns (wf.pushFront found response) (Nat.le_refl _)
  | some it =>
    obtain ⟨n, at_it, -, -, rfl⟩ := wf.deref_of_lookup found
    let less : LruCache := { c with bytes := c.bytes - n.response.length }
    let assigned : LruCache := { less with
      order := c.order.map fun m => if m.ident = n.ident then { m with response := response } else m }
    let more : LruCache := { assigned with bytes := less.bytes + response.length }
    have there : more.deref n.ident = some { n with response := response } := deref_assigned at_it response
    rw [LruCache.put, found]
    simp only [at_it]
    refine returns_after (g := .subtractOld n.ident response) (d := c) (by rw [statement, found]) rfl ?_
    refine returns_after (g := .replace n.ident response) (d := less) (by rw [statement, at_it]) rfl ?_
    refine returns_after (g := .addNew n.ident response) (d := assigned) rfl rfl ?_
    refine returns_after (g := .refresh n.ident) (d := more) rfl rfl ?_
    refine returns_after (g := .returned none) ?_ rfl (Body.returned rfl)
    rw [statement, there]
    simp only [more, assigned, less, splice_assigned]

end Bodies

/-- The calls as single steps, on the cache and on a recency store. -/
def atomic : Spec (Op Bytes Bytes) LruCache (Option Bytes) := ⟨LruCache.apply, LruCache.answer⟩

def recency (b : Recency.Limits Bytes) : Spec (Op Bytes Bytes) (Recency.Store Bytes Bytes) (Option Bytes) :=
  ⟨Recency.Store.apply b, Recency.Store.answer⟩

theorem implements_atomic (locked : Bool) : (object locked).Implements atomic Wf where
  returns c op wf := by
    cases op with
    | get key => exact get_returns wf key
    | put key response => exact put_returns wf key response
  keeps _ op wf := wf.apply op

theorem Wf.record_eq {c : LruCache} (wf : c.Wf) (ops : List (Op Bytes Bytes)) :
    atomic.record c ops = (recency c.limits).record c.store ops := by
  induction ops generalizing c with
  | nil => rfl
  | cons op ops ih =>
    obtain ⟨store, answer⟩ := wf.apply_refines op
    have rest := ih (wf.apply op)
    rw [apply_limits, store] at rest
    exact congrArg₂ (fun a later => (op, a) :: later) answer rest

end LruCache

/-! ## Who uses which cache -/

open Sections Recency Runs

/-- The thread of `main`, and those the backend starts: one for each connection, worker or shard. -/
inductive Runner where
  | main
  | started (i : Nat)
  deriving DecidableEq

inductive CacheName where
  /-- The one made in `main` and handed to the backend. -/
  | common
  /-- The one `ShardedEventLoop` makes for a shard. -/
  | shard (i : Nat)
  deriving DecidableEq

/-- The cache whose methods a thread calls, after `make_backend` and `make_event_loop`. -/
def cacheOf (cfg : Config) (i : Runner) : Option CacheName :=
  if cfg.cacheEnabled then
    match cfg.backend, i with
    | .threadPerConn, .started _ | .threadPool, .started _ => some .common
    | .threadPerConn, .main | .threadPool, .main => none
    | .eventLoop, .main => if 1 < cfg.eventLoops then none else some .common
    | .eventLoop, .started i => if 1 < cfg.eventLoops then some (.shard i) else none
  else none

/-- The lock policy of `make_cache`: `UnlockedCache` for the event loop, else `LockedCache`. -/
def lockedCache (cfg : Config) : Bool := cfg.backend ≠ .eventLoop

/-- A cache without a lock has one user. -/
theorem cacheOf_guarded (cfg : Config) (name : CacheName) :
    (LruCache.object (lockedCache cfg)).Guarded {i | cacheOf cfg i = some name} := by
  cases kind : cfg.backend with
  | threadPerConn | threadPool => exact Or.inl (by simp [LruCache.object, lockedCache, kind])
  | eventLoop =>
    refine Or.inr fun i mine j theirs => ?_
    simp only [Set.mem_ofPred_eq, cacheOf, kind] at mine theirs
    cases i <;> cases j <;> grind

/-- **The cache in every configuration.** However the threads that call a cache are interleaved, statement by
statement: no two of them are ever inside it, the calls that have returned got the answers of one recency store, in
the order of the returns, and the fields are that store whenever nobody is inside. A thread inside can always come
out, with the store's answer. -/
theorem cache_serialized (cfg : Config) (name : CacheName) {acts : List (Act Runner (Op Bytes Bytes))}
    (users : ∀ a ∈ acts, cacheOf cfg a.thread = some name) :
    let limits : Recency.Limits Bytes := ⟨cfg.cacheMaxEntries, cfg.cacheMaxBytes, List.length⟩
    let object := LruCache.object (lockedCache cfg)
    let m := run object.next { fields := makeCache cfg } acts
    (∀ i j op op' f f', m.threads i = .inside op f → m.threads j = .inside op' f' → i = j) ∧
    m.history.map Prod.snd = (LruCache.recency limits).record {} m.ops ∧
    ((∀ i op f, m.threads i ≠ .inside op f) →
      m.fields.Wf ∧ m.fields.store = run (Recency.Store.apply limits) {} m.ops) ∧
    ∀ i op f, m.threads i = .inside op f →
      ∃ n, (run object.next m (List.replicate n (.step i) ++ [.leave i])).history =
        m.history ++ [(i, op, (run (Recency.Store.apply limits) {} m.ops).answer op)] := by
  intro limits object m
  have good : (makeCache cfg).Wf := LruCache.wf_empty _ _
  have impl := LruCache.implements_atomic (lockedCache cfg)
  have h : object.Serial LruCache.atomic _ (makeCache cfg) m := impl.serial_run (cacheOf_guarded cfg name) good users
  obtain ⟨wf, -, same⟩ := LruCache.run_refines cfg.cacheMaxEntries cfg.cacheMaxBytes m.ops
  refine ⟨h.alone, h.recorded.trans (good.record_eq m.ops), ?_, ?_⟩
  · intro nobody
    rw [h.idle nobody]
    exact ⟨wf, same⟩
  · intro i op f inside
    obtain ⟨n, history⟩ := h.comes_out impl good inside
    refine ⟨n, history.trans ?_⟩
    have answer : LruCache.atomic.answer (run LruCache.atomic.apply (makeCache cfg) m.ops) op =
        (run (Recency.Store.apply limits) {} m.ops).answer op := (wf.apply_refines op).2.trans (by rw [same])
    rw [answer]

/-- Two workers at one key: the second call waits until the first has returned. -/
def contended : List (Act Runner (Op Bytes Bytes)) :=
  [.call (.started 0) (.put [107] [118]), .call (.started 1) (.get [107]), .enter (.started 0), .step (.started 0),
    .enter (.started 1), .step (.started 0), .step (.started 1), .step (.started 0), .step (.started 0),
    .step (.started 0), .leave (.started 0), .enter (.started 1)]

theorem cache_serialized_pool :
    (∀ a ∈ contended, cacheOf { backend := .threadPool } a.thread = some .common) ∧
    (run (LruCache.object true).next { fields := makeCache {} } contended).history.map Prod.snd =
      (LruCache.recency ⟨256, 64 * 1024 * 1024, List.length⟩).record {}
        (run (LruCache.object true).next { fields := makeCache {} } contended).ops :=
  ⟨by decide, (cache_serialized { backend := .threadPool } .common (by decide)).2.1⟩

/-- Without the lock two threads can both find a key absent, and both insert it. -/
example :
    let acts : List (Act Nat (Op Bytes Bytes)) := [.call 0 (.put [107] [118]), .call 1 (.put [107] [119]), .enter 0,
      .enter 1, .step 0, .step 1, .step 0, .step 1]
    ¬ ((run (LruCache.object false).next { fields := makeCache {} } acts).fields.order.map Node.key).Nodup := by
  decide

end EvProxy
