import EvProxy.Recency.Inclusion
import EvProxy.Cache.Lru

/-!
# The response cache refines a recency list

`LruCacheImpl` keeps a list, a map into it and a byte counter. Seen from outside
it is a `Recency.Store`: `get` and `put` give the same answers, and the list is
the store's, most recent first (`apply_refines`). The eviction loop computes the
longest front within both limits (`Wf.evict_contents`). A `put` of a resident key
does not enter that loop, and there alone the limits can be passed.
-/

namespace EvProxy
namespace LruCache
open Runs Recency

/-! ## The cache as a store -/

def limits (c : LruCache) : Limits Bytes := ⟨c.maxEntries, c.maxBytes, List.length⟩

def store (c : LruCache) : Store Bytes Bytes := ⟨c.contents, c.hits, c.misses⟩

def apply (c : LruCache) : Op Bytes Bytes → LruCache
  | .get key => (c.get key).2
  | .put key response => c.put key response

/-- What a call returns; `put` returns nothing. -/
def answer (c : LruCache) : Op Bytes Bytes → Option Bytes
  | .get key => (c.get key).1
  | .put _ _ => none

/-- `put` of a new key in front of its eviction loop. -/
def pushFront (c : LruCache) (key response : Bytes) : LruCache :=
  { c with
    order := ⟨c.nextNode, key, response⟩ :: c.order
    index := c.index.insert key c.nextNode
    bytes := c.bytes + response.length
    nextNode := c.nextNode + 1 }

/-- `entries()`. -/
def size (c : LruCache) : Nat := c.index.entries.length

variable {c : LruCache}

theorem put_new {key : Bytes} (absent : c.index.lookup key = none) (response : Bytes) :
    c.put key response = (c.pushFront key response).evict (c.order.length + 1) := by
  simp only [put, absent]
  rfl

/-- The map has the keys of the list. -/
theorem Wf.index_keys (wf : c.Wf) : c.index.keys.Perm (c.order.map Node.key) := by
  refine (List.perm_ext_iff_of_nodup c.index.keys_nodup wf.keys).mpr fun k => ?_
  rw [← AList.mem_keys, ← AList.lookup_isSome, Option.isSome_iff_exists, List.mem_map]
  constructor
  · rintro ⟨it, found⟩
    obtain ⟨n, mem, key, -⟩ := (wf.index k it).mp found
    exact ⟨n, mem, key⟩
  · rintro ⟨n, mem, key⟩
    exact ⟨n.ident, (wf.index k n.ident).mpr ⟨n, mem, key, rfl⟩⟩

theorem Wf.size_eq (wf : c.Wf) : c.size = c.order.length := by
  have same := wf.index_keys.length_eq
  rwa [List.length_map, AList.keys, List.keys, List.length_map] at same

/-- No subtraction from the counter can wrap. -/
theorem Wf.response_le (wf : c.Wf) {n : Node} (mem : n ∈ c.order) : n.response.length ≤ c.bytes := by
  have total := wf.bytes_split mem
  omega

theorem Wf.weight_eq (wf : c.Wf) (b : Limits Bytes) (lengths : b.size = List.length) :
    b.weight c.contents = c.bytes := by
  rw [wf.bytes, Limits.weight, contents, List.map_map, lengths]
  rfl

/-- A key has one response. -/
theorem Wf.response_eq (wf : c.Wf) {n : Node} (mem : n ∈ c.order) {v : Bytes} (stored : (n.key, v) ∈ c.contents) :
    v = n.response := by
  obtain ⟨m, listed, same⟩ := List.mem_map.mp stored
  obtain ⟨key, rfl⟩ := Prod.mk.inj same
  rw [List.inj_on_of_nodup_map wf.keys listed mem key]

theorem Wf.value_of_mem (wf : c.Wf) {n : Node} (mem : n ∈ c.order) : value n.key c.contents = some n.response := by
  have pair : (n.key, n.response) ∈ c.contents := List.mem_map_of_mem mem
  cases found : value n.key c.contents with
  | none => exact absurd pair (value_eq_none.mp found _)
  | some v => rw [wf.response_eq mem (mem_of_value found)]

theorem Wf.value_of_absent (wf : c.Wf) {key : Bytes} (absent : c.index.lookup key = none) :
    value key c.contents = none := by
  refine value_eq_none.mpr fun v mem => ?_
  obtain ⟨n, listed, same⟩ := List.mem_map.mp mem
  have found := (wf.index key n.ident).mpr ⟨n, listed, (Prod.mk.inj same).1, rfl⟩
  rw [absent] at found
  cases found

/-! ## The operations -/

/-- A splice renews the entry. -/
theorem Wf.contents_splice (wf : c.Wf) {n : Node} (mem : n ∈ c.order) (response : Bytes) :
    (splice { n with response := response } c.order).map (fun m => (m.key, m.response)) =
      renew n.key response c.contents := by
  rw [splice, renew, List.map_cons, contents, List.filter_map]
  congr 2
  refine List.filter_congr fun m listed => ?_
  have same : m.ident = n.ident ↔ m.key = n.key := by
    constructor
    · intro ident
      rw [List.inj_on_of_nodup_map wf.idents listed mem ident]
    · intro key
      rw [List.inj_on_of_nodup_map wf.keys listed mem key]
  simp [same]

theorem Wf.overfull_iff (wf : c.Wf) : c.overfull = true ↔ ¬ c.limits.Fits c.contents := by
  have weight : Limits.weight ⟨c.maxEntries, c.maxBytes, List.length⟩ c.contents = c.bytes := wf.weight_eq _ rfl
  have size : c.index.entries.length = c.order.length := wf.size_eq
  have length : c.contents.length = c.order.length := List.length_map _
  simp only [overfull, Limits.Fits, weight, length, size, limits, Bool.or_eq_true, Bool.and_eq_true,
    decide_eq_true_eq, not_and_or, Classical.not_imp, Nat.not_le]

/-- **The eviction loop** keeps the longest front within both limits. -/
theorem Wf.evict_contents (wf : c.Wf) {rounds : Nat} (enough : c.order.length ≤ rounds) :
    (c.evict rounds).store = ⟨c.limits.keep c.contents, c.hits, c.misses⟩ := by
  induction rounds generalizing c with
  | zero =>
    have empty : c.order = [] := List.eq_nil_of_length_eq_zero (Nat.le_zero.mp enough)
    rw [LruCache.evict, store, contents, empty, List.map_nil, Limits.keep_nil]
  | succ rounds ih =>
    unfold LruCache.evict
    split
    · rename_i overfull
      have full := wf.overfull_iff.mp overfull
      split
      · rename_i empty
        rw [List.getLast?_eq_none_iff] at empty
        rw [contents, empty] at full
        exact absurd Limits.fits_nil full
      · rename_i victim last
        obtain ⟨kept, shape⟩ : ∃ kept, c.order = kept ++ [victim] := List.getLast?_eq_some_iff.mp last
        have popped := ih (wf.popBack last) (by simp only [List.length_dropLast]; omega)
        rw [popped]
        have cut : c.contents = kept.map (fun n => (n.key, n.response)) ++ [(victim.key, victim.response)] := by
          rw [contents, shape, List.map_append]
          rfl
        rw [cut] at full ⊢
        rw [Limits.keep_concat, if_neg full]
        simp only [contents, shape, List.dropLast_concat]
        rfl
    · rename_i fits
      have inside : c.limits.Fits c.contents := by
        by_contra full
        exact fits (wf.overfull_iff.mpr full)
      rw [Limits.keep_eq (List.prefix_refl _) inside fun _ front _ => front]
      rfl

theorem Wf.store_put_new (wf : c.Wf) {key : Bytes} (absent : c.index.lookup key = none) (response : Bytes) :
    (c.put key response).store = ⟨c.limits.keep ((key, response) :: c.contents), c.hits, c.misses⟩ := by
  rw [put_new absent]
  exact Wf.evict_contents (wf.pushFront absent response) (Nat.le_refl _)

/-- **Each call** does to the cache what it does to the store, and gives the same answer. -/
theorem Wf.apply_refines (wf : c.Wf) (op : Op Bytes Bytes) :
    (c.apply op).store = c.store.apply c.limits op ∧ c.answer op = c.store.answer op := by
  cases op with
  | get key =>
    cases found : c.index.lookup key with
    | none =>
      have absent : value key c.store.entries = none := wf.value_of_absent found
      simp only [apply, answer, LruCache.get, found, Store.apply, Store.answer, absent, and_true]
      rfl
    | some it =>
      obtain ⟨n, at_it, mem, rfl, -⟩ := wf.deref_of_lookup found
      have present : value n.key c.store.entries = some n.response := wf.value_of_mem mem
      have moved := wf.contents_splice mem n.response
      simp only [apply, answer, LruCache.get, found, at_it, Store.apply, Store.answer, present, and_true]
      exact congrArg (Store.mk · (c.hits + 1) c.misses) moved
  | put key response =>
    refine ⟨?_, rfl⟩
    cases found : c.index.lookup key with
    | none =>
      have absent : value key c.store.entries = none := wf.value_of_absent found
      simp only [Store.apply, absent]
      exact wf.store_put_new found response
    | some it =>
      obtain ⟨n, at_it, mem, rfl, -⟩ := wf.deref_of_lookup found
      have present : value n.key c.store.entries = some n.response := wf.value_of_mem mem
      have moved := wf.contents_splice mem response
      simp only [apply, LruCache.put, found, at_it, Store.apply, present]
      exact congrArg (Store.mk · c.hits c.misses) moved

theorem Wf.get_answer (wf : c.Wf) (key : Bytes) : (c.get key).1 = c.store.answer (.get key) :=
  (wf.apply_refines (.get key)).2

theorem evict_limits (rounds : Nat) (c : LruCache) : (c.evict rounds).limits = c.limits := by
  induction rounds generalizing c with
  | zero => rfl
  | succ rounds ih =>
    unfold evict
    split
    · split
      · rfl
      · exact ih _
    · rfl

theorem apply_limits (c : LruCache) (op : Op Bytes Bytes) : (c.apply op).limits = c.limits := by
  cases op with
  | get key =>
    simp only [apply, get]
    split
    · rfl
    · split <;> rfl
  | put key response =>
    simp only [apply, put]
    split
    · split <;> rfl
    · exact evict_limits _ _

theorem Wf.apply (wf : c.Wf) (op : Op Bytes Bytes) : (c.apply op).Wf := by
  cases op with
  | get key => exact (wf.get key).1
  | put key response => exact (wf.put key response).1

/-- **Any calls** keep a cache well-formed and in step with the store. -/
theorem Wf.run_refines (wf : c.Wf) (ops : List (Op Bytes Bytes)) :
    (run LruCache.apply c ops).Wf ∧ (run LruCache.apply c ops).limits = c.limits ∧
      (run LruCache.apply c ops).store = run (Store.apply c.limits) c.store ops := by
  induction ops using List.reverseRecOn with
  | nil => exact ⟨wf, rfl, rfl⟩
  | append_singleton ops op ih =>
    obtain ⟨wf, limits, same⟩ := ih
    simp only [run_append, run_cons, run_nil]
    refine ⟨wf.apply op, (apply_limits _ op).trans limits, ?_⟩
    rw [(wf.apply_refines op).1, limits, same]

theorem run_refines (maxEntries maxBytes : Nat) (ops : List (Op Bytes Bytes)) :
    let c := run LruCache.apply { maxEntries, maxBytes } ops
    c.Wf ∧ c.limits = ⟨maxEntries, maxBytes, List.length⟩ ∧
      c.store = run (Store.apply ⟨maxEntries, maxBytes, List.length⟩) {} ops :=
  (wf_empty maxEntries maxBytes).run_refines ops

/-- **The cache refines a recency list.** After any calls the list and the map
have the same keys, once each, the map points at the node of its key, the counter
is the exact total; contents, counters and answers are those of the store, and a
hit returns what was last put. No subtraction from the counter is of more than
it holds, in `put` of a resident key nor in any round of the eviction loop. -/
theorem lru_refines_recency (maxEntries maxBytes : Nat) (ops : List (Op Bytes Bytes)) :
    let c := run LruCache.apply { maxEntries, maxBytes } ops
    let s := run (Store.apply ⟨maxEntries, maxBytes, List.length⟩) {} ops
    (c.Wf ∧ c.index.keys.Perm (c.order.map Node.key) ∧ c.size = c.order.length) ∧
    (c.store = s ∧ ∀ op, c.answer op = s.answer op) ∧
    (∀ key v, (c.get key).1 = some v → lastPut key ops = some v) ∧
    (∀ n ∈ c.order, n.response.length ≤ c.bytes) ∧
    ∀ key response rounds, c.index.lookup key = none →
      ∀ n ∈ ((c.pushFront key response).evict rounds).order,
        n.response.length ≤ ((c.pushFront key response).evict rounds).bytes := by
  intro c s
  obtain ⟨wf, limits, same⟩ : c.Wf ∧ c.limits = _ ∧ c.store = s := run_refines maxEntries maxBytes ops
  refine ⟨⟨wf, wf.index_keys, wf.size_eq⟩, ⟨same, fun op => ?_⟩, fun key v hit => ?_, fun n => wf.response_le, ?_⟩
  · rw [(wf.apply_refines op).2, same]
  · have stored : (key, v) ∈ c.store.entries := (wf.get key).2.2 v hit
    rw [same] at stored
    exact lastPut_of_mem _ ops stored
  · intro key response rounds absent n mem
    have pushed : (c.pushFront key response).Wf := wf.pushFront absent response
    exact (pushed.evict rounds).1.response_le mem

/-! ## The limits -/

/-- Both limits are kept. -/
def Bounded (c : LruCache) : Prop :=
  (c.maxEntries ≠ 0 → c.size ≤ c.maxEntries) ∧
    (c.maxBytes ≠ 0 → (c.contents.map fun p => p.2.length).sum ≤ c.maxBytes)

instance (c : LruCache) : Decidable c.Bounded := inferInstanceAs (Decidable (_ ∧ _))

/-- A call that does not replace a response by one too large for the rest. -/
def Replaces (c : LruCache) : Op Bytes Bytes → Prop
  | .get _ => True
  | .put key response => ∀ old, (key, old) ∈ c.contents → c.maxBytes ≠ 0 →
      c.bytes - old.length + response.length ≤ c.maxBytes

theorem Wf.bounded_iff (wf : c.Wf) :
    c.Bounded ↔ (c.maxEntries ≠ 0 → c.size ≤ c.maxEntries) ∧ (c.maxBytes ≠ 0 → c.bytes ≤ c.maxBytes) := by
  rw [← wf.weight_eq ⟨0, 0, List.length⟩ rfl]
  rfl

theorem Wf.bounded_of_fits (wf : c.Wf) (fits : c.limits.Fits c.contents) : c.Bounded := by
  refine ⟨fun bounded => ?_, fits.2⟩
  rw [wf.size_eq]
  exact (List.length_map _).symm.trans_le (fits.1 bounded)

/-- **One call** on a cache within its limits keeps them unless it replaces too much. -/
theorem Wf.bounded_apply (wf : c.Wf) (bounded : c.Bounded) (op : Op Bytes Bytes) :
    (c.apply op).Bounded ↔ c.Replaces op := by
  have kept := wf.bounded_iff.mp bounded
  rw [(wf.apply op).bounded_iff]
  cases op with
  | get key =>
    refine ⟨fun _ => trivial, fun _ => ?_⟩
    simp only [LruCache.apply, LruCache.get]
    split
    · exact kept
    · split <;> exact kept
  | put key response =>
    cases found : c.index.lookup key with
    | none =>
      have absent := value_eq_none.mp (wf.value_of_absent found)
      refine ⟨fun _ old mem => absurd mem (absent old), fun _ => ?_⟩
      have after := wf.apply (.put key response)
      rw [← after.bounded_iff]
      refine after.bounded_of_fits ?_
      have contents : (c.put key response).contents = _ := congrArg Store.entries (wf.store_put_new found response)
      rw [apply_limits, LruCache.apply, contents]
      exact Limits.fits_keep c.limits _
    | some it =>
      obtain ⟨n, at_it, mem, rfl, -⟩ := wf.deref_of_lookup found
      have listed : (n.key, n.response) ∈ c.contents := List.mem_map_of_mem mem
      simp only [LruCache.apply, LruCache.put, found, at_it]
      constructor
      · intro after old stored limited
        rw [wf.response_eq mem stored]
        exact after.2 limited
      · intro fits
        exact ⟨kept.1, fits n.response listed⟩

theorem Wf.bounded_run (wf : c.Wf) (bounded : c.Bounded) (ops : List (Op Bytes Bytes)) :
    (∀ n, (run LruCache.apply c (ops.take n)).Bounded) ↔ Legal Replaces LruCache.apply c ops := by
  induction ops generalizing c with
  | nil =>
    simp only [List.take_nil, run_nil, Legal, iff_true]
    exact fun _ => bounded
  | cons op ops ih =>
    rw [Legal, ← wf.bounded_apply bounded op]
    constructor
    · intro all
      have next : (c.apply op).Bounded := all 1
      exact ⟨next, (ih (wf.apply op) next).mp fun n => all (n + 1)⟩
    · rintro ⟨next, legal⟩ n
      cases n with
      | zero => exact bounded
      | succ n => exact (ih (wf.apply op) next).mpr legal n

/-- **When the limits hold.** After every call both limits are kept, exactly if
no `put` of a resident key replaces its response by one that brings the total
past `max_bytes_`. -/
theorem lru_bounds_iff (maxEntries maxBytes : Nat) (ops : List (Op Bytes Bytes)) :
    (∀ n, (run LruCache.apply { maxEntries, maxBytes } (ops.take n)).Bounded) ↔
      Legal Replaces LruCache.apply { maxEntries, maxBytes } ops :=
  (wf_empty maxEntries maxBytes).bounded_run ⟨fun _ => Nat.zero_le _, fun _ => Nat.zero_le _⟩ ops

/-- Two puts of one key, the second of two bytes where one is allowed. -/
theorem lru_bounds_replaced :
    ¬ (run LruCache.apply { maxEntries := 0, maxBytes := 1 } [.put [107] [], .put [107] [118, 118]]).Bounded := by
  decide

/-! ## More room -/

/-- **A larger cache misses no more.** Without a limit on the bytes, after the same calls a cache with room for more
entries holds all that a smaller one holds, in the same order; whatever the smaller one answers it answers too, and it
has had no fewer hits and no more misses. The source counts them in a `uint64_t`, so this is its `stats` below `2^64`
calls. -/
theorem lru_inclusion (fewer more : Nat) (some_room : fewer ≠ 0) (larger : more = 0 ∨ fewer ≤ more)
    (ops : List (Op Bytes Bytes)) :
    let c := run LruCache.apply { maxEntries := fewer, maxBytes := 0 } ops
    let d := run LruCache.apply { maxEntries := more, maxBytes := 0 } ops
    c.contents.Sublist d.contents ∧ (∀ key v, (c.get key).1 = some v → (d.get key).1 = some v) ∧
      c.hits ≤ d.hits ∧ d.misses ≤ c.misses := by
  intro c d
  obtain ⟨wf, -, small⟩ : c.Wf ∧ c.limits = _ ∧ c.store = _ := run_refines fewer 0 ops
  obtain ⟨wf', -, large⟩ : d.Wf ∧ d.limits = _ ∧ d.store = _ := run_refines more 0 ops
  have included : Included ⟨fewer, 0, List.length⟩ ⟨more, 0, List.length⟩ c.store d.store := by
    rw [small, large]
    exact included_run rfl rfl some_room larger ops
  refine ⟨included.sublist, fun key v hit => ?_, included.hits, ?_⟩
  · rw [wf.get_answer] at hit
    rw [wf'.get_answer]
    exact included.value hit
  · have hits : c.hits ≤ d.hits := included.hits
    have calls : c.hits + c.misses = d.hits + d.misses := included.calls
    omega

/-- Room for one entry and room for two: only the larger cache still has the first key. -/
theorem lru_inclusion_two :
    let ops : List (Op Bytes Bytes) := [.put [97] [1], .put [98] [2], .get [97], .get [98]]
    (run LruCache.apply { maxEntries := 1, maxBytes := 0 } ops).hits = 1 ∧
      (run LruCache.apply { maxEntries := 1, maxBytes := 0 } ops).hits ≤
        (run LruCache.apply { maxEntries := 2, maxBytes := 0 } ops).hits :=
  ⟨by decide, (lru_inclusion 1 2 (by decide) (Or.inr (by decide)) _).2.2.1⟩

-- With a limit on the bytes it fails: only the larger cache answers the lookup, moves that entry in front of the one
-- both have, and the next `put` pushes the other out of the larger cache alone.
example :
    let ops : List (Op Bytes Bytes) := [.put [97] [1, 1], .put [98] [1, 1], .get [97], .put [99] [1]]
    ¬ (run LruCache.apply { maxEntries := 0, maxBytes := 3 } ops).contents.Sublist
      (run LruCache.apply { maxEntries := 0, maxBytes := 4 } ops).contents := by
  decide

/-- What the connections of one cacheable request after the other do to the cache: `get` and, after a miss, the `put`
of `store_in_cache` once the origin has answered, unless that answer is not to be stored. -/
def read (origin : Bytes → Option Bytes) (c : LruCache) (key : Bytes) : LruCache :=
  run LruCache.apply c (readCalls origin key (c.get key).1)

/-- One read does to the cache what it does to the store. -/
theorem Wf.read_refines (wf : c.Wf) (origin : Bytes → Option Bytes) (key : Bytes) :
    (c.read origin key).Wf ∧ (c.read origin key).limits = c.limits ∧
      (c.read origin key).store = c.store.read c.limits origin key := by
  rw [LruCache.read, wf.get_answer]
  exact wf.run_refines _

theorem reads_refine (maxEntries maxBytes : Nat) (origin : Bytes → Option Bytes) (keys : List Bytes) :
    let c := run (LruCache.read origin) { maxEntries, maxBytes } keys
    c.Wf ∧ c.limits = ⟨maxEntries, maxBytes, List.length⟩ ∧
      c.store = run (Store.read ⟨maxEntries, maxBytes, List.length⟩ origin) {} keys := by
  induction keys using List.reverseRecOn with
  | nil => exact ⟨wf_empty maxEntries maxBytes, rfl, rfl⟩
  | append_singleton keys key ih =>
    obtain ⟨wf, limits, same⟩ := ih
    obtain ⟨after, limits', same'⟩ := wf.read_refines origin key
    simp only [run_append, run_cons, run_nil]
    refine ⟨after, limits'.trans limits, ?_⟩
    rw [same', limits, same]

/-- **A larger cache serves no fewer requests.** One cacheable request after the other, each key with one answer of
its origin: where neither limit is tighter, the larger cache has the entries of the smaller one in front, answers all
that the smaller one answers, and has had no fewer hits and no more misses (below `2^64` requests, as above). Here both
limits may be set. -/
theorem lru_larger_reads (origin : Bytes → Option Bytes) (maxEntries maxEntries' maxBytes maxBytes' : Nat)
    (entries : Looser maxEntries maxEntries') (bytes : Looser maxBytes maxBytes') (keys : List Bytes) :
    let c := run (LruCache.read origin) { maxEntries := maxEntries, maxBytes := maxBytes } keys
    let d := run (LruCache.read origin) { maxEntries := maxEntries', maxBytes := maxBytes' } keys
    c.contents <+: d.contents ∧ (∀ key v, (c.get key).1 = some v → (d.get key).1 = some v) ∧
      c.hits ≤ d.hits ∧ d.misses ≤ c.misses := by
  intro c d
  obtain ⟨wf, -, small⟩ : c.Wf ∧ c.limits = _ ∧ c.store = _ := reads_refine maxEntries maxBytes origin keys
  obtain ⟨wf', -, large⟩ : d.Wf ∧ d.limits = _ ∧ d.store = _ := reads_refine maxEntries' maxBytes' origin keys
  have ahead : Ahead origin c.store d.store := by
    rw [small, large]
    exact ahead_run (fun l fits => fits.looser entries bytes) keys
  refine ⟨ahead.front, fun key v hit => ?_, ahead.hits, ?_⟩
  · rw [wf.get_answer] at hit
    rw [wf'.get_answer]
    exact ahead.value hit
  · have hits : c.hits ≤ d.hits := ahead.hits
    have calls : c.hits + c.misses = d.hits + d.misses := ahead.calls
    omega

/-- Two keys with answers of two bytes each, read in turn, with room for three bytes and for four. -/
theorem lru_larger_reads_turns :
    let origin : Bytes → Option Bytes := fun key => some (key ++ key)
    let keys : List Bytes := [[97], [98], [97], [98]]
    (run (LruCache.read origin) { maxEntries := 2, maxBytes := 3 } keys).hits = 0 ∧
      (run (LruCache.read origin) { maxEntries := 2, maxBytes := 4 } keys).hits = 2 ∧
      (run (LruCache.read origin) { maxEntries := 2, maxBytes := 4 } keys).misses ≤
        (run (LruCache.read origin) { maxEntries := 2, maxBytes := 3 } keys).misses :=
  ⟨by decide, by decide, (lru_larger_reads _ 2 2 3 4 (by decide) (by decide) _).2.2.2⟩

end LruCache
end EvProxy
