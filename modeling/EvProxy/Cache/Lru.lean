import Mathlib.Data.List.AList
import EvProxy.Http.Ascii

/-!
# The response cache (`cache.hpp`, `cache.cpp`)

`LruCacheImpl` as the source has it: a recency list of nodes and a map from key
to list iterator, with the running byte counter. A node keeps its identity, the
iterator the map stores, through splices and replacements. Every operation is
one atomic step here; that the lock policy makes it one is in `Cache.Locking`.
`Wf` says that list and map describe the same entries; `get` and `put` keep it,
and every answer of `get` is an entry that was put.
-/

namespace EvProxy

/-- A list node: its identity (the iterator) and its `Entry`. -/
structure Node where
  ident : Nat
  key : Bytes
  response : Bytes
  deriving DecidableEq

structure LruCache where
  order : List Node := []
  index : AList (fun _ : Bytes => Nat) := ∅
  maxEntries : Nat
  maxBytes : Nat
  bytes : Nat := 0
  hits : Nat := 0
  misses : Nat := 0
  nextNode : Nat := 0

namespace LruCache

/-- The node an iterator points at. -/
def deref (c : LruCache) (it : Nat) : Option Node := c.order.find? fun n => n.ident = it

/-- `order_.splice(order_.begin(), order_, it)`: the node `n` moves to the front. -/
def splice (n : Node) (order : List Node) : List Node := n :: order.filter fun m => m.ident ≠ n.ident

def get (c : LruCache) (key : Bytes) : Option Bytes × LruCache :=
  match c.index.lookup key with
  | none => (none, { c with misses := c.misses + 1 })
  | some it =>
    match c.deref it with
    | none => (none, c)
    | some n => (some n.response, { c with order := splice n c.order, hits := c.hits + 1 })

/-- The loop condition of the eviction: a nonzero bound is exceeded. -/
def overfull (c : LruCache) : Bool :=
  (c.maxEntries ≠ 0 && c.maxEntries < c.index.entries.length) || (c.maxBytes ≠ 0 && c.maxBytes < c.bytes)

/-- The eviction loop. Each round pops one node, so the list's length of rounds is enough. -/
def evict : Nat → LruCache → LruCache
  | 0, c => c
  | rounds + 1, c =>
    if c.overfull then
      match c.order.getLast? with
      | none => c
      | some victim =>
        evict rounds { c with
          bytes := c.bytes - victim.response.length
          index := c.index.erase victim.key
          order := c.order.dropLast }
    else c

def put (c : LruCache) (key response : Bytes) : LruCache :=
  match c.index.lookup key with
  | some it =>
    match c.deref it with
    | none => c
    | some n =>
      { c with
        bytes := c.bytes - n.response.length + response.length
        order := splice { n with response := response } c.order }
  | none =>
    let c := { c with
      order := ⟨c.nextNode, key, response⟩ :: c.order
      index := c.index.insert key c.nextNode
      bytes := c.bytes + response.length
      nextNode := c.nextNode + 1 }
    evict c.order.length c

/-- The stored pairs, most recent first. -/
def contents (c : LruCache) : List (Bytes × Bytes) := c.order.map fun n => (n.key, n.response)

/-- List and map are in step, and the counter is the exact total. -/
structure Wf (c : LruCache) : Prop where
  idents : (c.order.map Node.ident).Nodup
  keys : (c.order.map Node.key).Nodup
  index : ∀ k it, c.index.lookup k = some it ↔ ∃ n ∈ c.order, n.key = k ∧ n.ident = it
  fresh : ∀ n ∈ c.order, n.ident < c.nextNode
  bytes : c.bytes = (c.order.map fun n => n.response.length).sum

theorem wf_empty (maxEntries maxBytes : Nat) : Wf { maxEntries, maxBytes } where
  idents := by simp
  keys := by simp
  index := by simp
  fresh := by simp
  bytes := rfl

/-- In a well-formed cache an indexed key has its node. -/
theorem Wf.deref_of_lookup {c : LruCache} (wf : c.Wf) {k : Bytes} {it : Nat}
    (found : c.index.lookup k = some it) :
    ∃ n, c.deref it = some n ∧ n ∈ c.order ∧ n.key = k ∧ n.ident = it := by
  obtain ⟨n, mem, key, ident⟩ := (wf.index k it).mp found
  cases at_it : c.deref it with
  | none =>
    have absent := List.find?_eq_none.mp at_it n mem
    simp [ident] at absent
  | some m =>
    have mem' := List.mem_of_find?_eq_some at_it
    have ident' : m.ident = it := by simpa using List.find?_some at_it
    have same : m = n := List.inj_on_of_nodup_map wf.idents mem' mem (ident'.trans ident.symm)
    exact ⟨n, by rw [same], mem, key, ident⟩

/-! ## The splice -/

theorem mem_splice {n m : Node} {order : List Node} :
    m ∈ splice n order ↔ m = n ∨ m ∈ order ∧ m.ident ≠ n.ident := by
  simp [splice]

/-- Splicing a version of a listed node takes the old one out. -/
theorem splice_eq {n : Node} (n' : Node) {order : List Node} (mem : n ∈ order)
    (idents : (order.map Node.ident).Nodup) (same : n'.ident = n.ident) :
    splice n' order = n' :: order.erase n := by
  rw [splice, List.cons_eq_cons, same]
  refine ⟨rfl, ?_⟩
  have nodup := List.Nodup.of_map _ idents
  rw [nodup.erase_eq_filter]
  apply List.filter_congr
  intro m hm
  by_cases eq : m = n
  · simp [eq]
  · have ne : m.ident ≠ n.ident := fun e => eq (List.inj_on_of_nodup_map idents hm mem e)
    simp [ne, eq]

/-- The counter split at one node. -/
theorem Wf.bytes_split {c : LruCache} (wf : c.Wf) {n : Node} (mem : n ∈ c.order) :
    c.bytes = n.response.length + ((c.order.erase n).map fun m => m.response.length).sum := by
  have perm := (List.perm_cons_erase mem).map fun m : Node => m.response.length
  rw [wf.bytes, perm.sum_nat, List.map_cons, List.sum_cons]

/-- Replacing a node's response and moving it to the front keeps the cache well-formed. -/
theorem Wf.spliced {c : LruCache} (wf : c.Wf) {n : Node} (mem : n ∈ c.order) (response : Bytes)
    (hits : Nat) :
    Wf { c with
      order := splice { n with response := response } c.order
      bytes := c.bytes - n.response.length + response.length
      hits := hits } := by
  have cut := splice_eq { n with response := response } mem wf.idents rfl
  have perm := List.perm_cons_erase mem
  have nodes : ∀ m, m ∈ splice { n with response := response } c.order ↔
      m = { n with response := response } ∨ m ∈ c.order ∧ m.ident ≠ n.ident := fun m => mem_splice
  constructor
  · have idents := (perm.map Node.ident).nodup_iff.mp wf.idents
    simp only [cut]
    simpa using idents
  · have keys := (perm.map Node.key).nodup_iff.mp wf.keys
    simp only [cut]
    simpa using keys
  · intro k it
    simp only [wf.index k it, nodes]
    constructor
    · rintro ⟨m, hm, key, ident⟩
      by_cases same : m.ident = n.ident
      · have eq : m = n := List.inj_on_of_nodup_map wf.idents hm mem same
        subst eq
        exact ⟨{ m with response := response }, Or.inl rfl, key, ident⟩
      · exact ⟨m, Or.inr ⟨hm, same⟩, key, ident⟩
    · rintro ⟨m, rfl | ⟨hm, -⟩, key, ident⟩
      · exact ⟨n, mem, key, ident⟩
      · exact ⟨m, hm, key, ident⟩
  · intro m hm
    rcases (nodes m).mp hm with rfl | ⟨hm, -⟩
    · exact wf.fresh n mem
    · exact wf.fresh m hm
  · have total := wf.bytes_split mem
    simp only [cut, List.map_cons, List.sum_cons]
    omega

/-! ## Operations -/

/-- **`get`** answers with a stored entry, and changes neither entries nor well-formedness. -/
theorem Wf.get {c : LruCache} (wf : c.Wf) (key : Bytes) :
    (c.get key).2.Wf ∧ (∀ p, p ∈ (c.get key).2.contents ↔ p ∈ c.contents) ∧
      ∀ v, (c.get key).1 = some v → (key, v) ∈ c.contents := by
  cases found : c.index.lookup key with
  | none =>
    simp only [LruCache.get, found]
    exact ⟨⟨wf.idents, wf.keys, wf.index, wf.fresh, wf.bytes⟩, fun p => Iff.rfl, by simp⟩
  | some it =>
    obtain ⟨n, at_it, mem, rfl, -⟩ := wf.deref_of_lookup found
    simp only [LruCache.get, found, at_it]
    have moved := wf.spliced mem n.response (c.hits + 1)
    have size : c.bytes - n.response.length + n.response.length = c.bytes := by
      have total := wf.bytes_split mem
      omega
    rw [size] at moved
    refine ⟨moved, ?_, ?_⟩
    · intro p
      simp only [contents, List.mem_map, mem_splice]
      constructor
      · rintro ⟨m, rfl | ⟨hm, -⟩, rfl⟩
        · exact ⟨m, mem, rfl⟩
        · exact ⟨m, hm, rfl⟩
      · rintro ⟨m, hm, rfl⟩
        by_cases same : m.ident = n.ident
        · rw [List.inj_on_of_nodup_map wf.idents hm mem same]
          exact ⟨n, Or.inl rfl, rfl⟩
        · exact ⟨m, Or.inr ⟨hm, same⟩, rfl⟩
    · rintro v ⟨⟩
      exact List.mem_map.mpr ⟨n, mem, rfl⟩

/-- Popping the back node keeps the cache well-formed. -/
theorem Wf.popBack {c : LruCache} (wf : c.Wf) {victim : Node} (last : c.order.getLast? = some victim) :
    Wf { c with
      bytes := c.bytes - victim.response.length
      index := c.index.erase victim.key
      order := c.order.dropLast } := by
  obtain ⟨kept, shape⟩ : ∃ kept, c.order = kept ++ [victim] := List.getLast?_eq_some_iff.mp last
  have drop : c.order.dropLast = kept := by rw [shape, List.dropLast_concat]
  have idents := wf.idents
  have keys := wf.keys
  have bytes := wf.bytes
  rw [shape, List.map_append] at idents keys bytes
  have others : ∀ m ∈ kept, m.key ≠ victim.key := by
    intro m hm same
    exact (List.nodup_append.mp keys).2.2 m.key (List.mem_map_of_mem hm) victim.key (by simp) same
  constructor
  · simp only [drop]
    exact (List.nodup_append.mp idents).1
  · simp only [drop]
    exact (List.nodup_append.mp keys).1
  · intro k it
    simp only [drop]
    by_cases same : k = victim.key
    · subst same
      rw [AList.lookup_erase]
      simp only [reduceCtorEq, false_iff]
      rintro ⟨m, hm, key, -⟩
      exact others m hm key
    · rw [AList.lookup_erase_ne same, wf.index, shape]
      constructor
      · rintro ⟨m, hm, key, ident⟩
        rcases List.mem_append.mp hm with hm | hm
        · exact ⟨m, hm, key, ident⟩
        · rw [List.mem_singleton.mp hm] at key
          exact absurd key.symm same
      · rintro ⟨m, hm, key, ident⟩
        exact ⟨m, List.mem_append_left _ hm, key, ident⟩
  · intro m hm
    simp only [drop] at hm
    exact wf.fresh m (by rw [shape]; exact List.mem_append_left _ hm)
  · simp only [drop]
    simp only [List.sum_append, List.map_cons, List.map_nil, List.sum_cons, List.sum_nil] at bytes
    omega

/-- Eviction keeps well-formedness and only drops entries. -/
theorem Wf.evict {c : LruCache} (wf : c.Wf) (rounds : Nat) :
    (c.evict rounds).Wf ∧ ∀ p ∈ (c.evict rounds).contents, p ∈ c.contents := by
  induction rounds generalizing c with
  | zero => exact ⟨wf, fun p mem => mem⟩
  | succ rounds ih =>
    unfold LruCache.evict
    split
    · split
      · exact ⟨wf, fun p mem => mem⟩
      · rename_i victim last
        obtain ⟨kept_wf, sub⟩ := ih (wf.popBack last)
        refine ⟨kept_wf, fun p mem => ?_⟩
        obtain ⟨n, hn, rfl⟩ := List.mem_map.mp (sub p mem)
        exact List.mem_map.mpr ⟨n, List.dropLast_subset _ hn, rfl⟩
    · exact ⟨wf, fun p mem => mem⟩

/-- A new node in front, under a key the map does not hold. -/
theorem Wf.pushFront {c : LruCache} (wf : c.Wf) {key : Bytes} (absent : c.index.lookup key = none)
    (response : Bytes) :
    Wf { c with
      order := ⟨c.nextNode, key, response⟩ :: c.order
      index := c.index.insert key c.nextNode
      bytes := c.bytes + response.length
      nextNode := c.nextNode + 1 } := by
  have newKey : ∀ n ∈ c.order, n.key ≠ key := by
    intro n hn same
    have := (wf.index key n.ident).mpr ⟨n, hn, same, rfl⟩
    rw [absent] at this
    cases this
  constructor
  · rw [List.map_cons, List.nodup_cons]
    refine ⟨?_, wf.idents⟩
    intro mem
    obtain ⟨n, hn, same⟩ := List.mem_map.mp mem
    exact absurd (wf.fresh n hn) (by simp only at same; omega)
  · rw [List.map_cons, List.nodup_cons]
    refine ⟨?_, wf.keys⟩
    intro mem
    obtain ⟨n, hn, same⟩ := List.mem_map.mp mem
    exact newKey n hn same
  · intro k it
    by_cases same : k = key
    · subst same
      simp only [AList.lookup_insert, Option.some.injEq, List.mem_cons, exists_eq_or_imp, true_and]
      constructor
      · exact Or.inl
      · rintro (e | ⟨n, hn, other, -⟩)
        · exact e
        · exact absurd other (newKey n hn)
    · rw [AList.lookup_insert_ne same, wf.index]
      simp [Ne.symm same]
  · intro n hn
    rcases List.mem_cons.mp hn with rfl | hn
    · exact Nat.lt_succ_self _
    · exact Nat.lt_succ_of_lt (wf.fresh n hn)
  · rw [List.map_cons, List.sum_cons, ← wf.bytes]
    exact Nat.add_comm _ _

/-- **`put`** keeps well-formedness, and adds at most the pair it was given. -/
theorem Wf.put {c : LruCache} (wf : c.Wf) (key response : Bytes) :
    (c.put key response).Wf ∧
      ∀ p ∈ (c.put key response).contents, p = (key, response) ∨ p ∈ c.contents := by
  cases found : c.index.lookup key with
  | some it =>
    obtain ⟨n, at_it, mem, rfl, -⟩ := wf.deref_of_lookup found
    simp only [LruCache.put, found, at_it]
    refine ⟨wf.spliced mem response c.hits, ?_⟩
    intro p hp
    obtain ⟨m, hm, rfl⟩ := List.mem_map.mp hp
    rcases mem_splice.mp hm with rfl | ⟨hm, -⟩
    · exact Or.inl rfl
    · exact Or.inr (List.mem_map.mpr ⟨m, hm, rfl⟩)
  | none =>
    simp only [LruCache.put, found]
    obtain ⟨kept_wf, sub⟩ := (wf.pushFront found response).evict (c.order.length + 1)
    refine ⟨kept_wf, fun p hp => ?_⟩
    obtain ⟨m, hm, rfl⟩ := List.mem_map.mp (sub p hp)
    rcases List.mem_cons.mp hm with rfl | hm
    · exact Or.inl rfl
    · exact Or.inr (List.mem_map.mpr ⟨m, hm, rfl⟩)

end LruCache

/-- Cache identity of a request (`cache_key`). -/
def cacheKey (method host port path : Bytes) : Bytes :=
  method ++ bytes " " ++ host ++ bytes ":" ++ port ++ path

end EvProxy
