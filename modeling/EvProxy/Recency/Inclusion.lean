import Mathlib.Data.List.Nodup
import EvProxy.Recency

/-!
# More room

A store with room for more entries has all the entries of one with room for fewer,
in the same order, after the same calls (`included_run`). Up to the first entry
that the smaller store pushes out the two are equal, and from then on the smaller
one is full: so when the larger store pushes out an entry that both have, it is
the last one of both, and the smaller store pushes it out too.

With a limit on the weight this holds no more for arbitrary calls. It does where
every lookup that finds nothing is followed by a `put` of the key: then the most
recent entries of both stores are the same (`ahead_run`).
-/

namespace Recency
open Runs

variable {κ ν : Type*}

namespace Limits
variable {b : Limits ν} {l : List (κ × ν)}

theorem keep_all (unweighed : b.total = 0) (unbounded : b.count = 0) : b.keep l = l :=
  keep_eq (List.prefix_refl l) ⟨fun bounded => absurd unbounded bounded, fun weighed => absurd unweighed weighed⟩
    fun _ front _ => front

theorem keep_take (unweighed : b.total = 0) (bounded : b.count ≠ 0) : b.keep l = l.take b.count := by
  refine keep_eq (List.take_prefix _ _) ⟨fun _ => List.length_take_le _ _, fun weighed => absurd unweighed weighed⟩ ?_
  intro p front fits
  rw [List.prefix_iff_eq_take.mp front]
  exact List.take_prefix_take_left (fits.1 bounded)

end Limits

theorem sublist_dropLast {α : Type*} {l m : List α} (sub : l.Sublist m) : l.dropLast.Sublist m.dropLast := by
  rw [← List.reverse_sublist, ← List.tail_reverse, ← List.tail_reverse]
  exact sub.reverse.tail

section Keys
variable [DecidableEq κ] {key : κ} {v w : ν} {l m : List (κ × ν)}

theorem value_of_mem (keys : (l.map Prod.fst).Nodup) (mem : (key, v) ∈ l) : value key l = some v := by
  cases found : value key l with
  | none => exact absurd mem (value_eq_none.mp found v)
  | some w =>
    have same := List.inj_on_of_nodup_map keys (mem_of_value found) mem rfl
    rw [(Prod.mk.inj same).2]

theorem filter_absent (absent : value key l = none) : (l.filter fun p => p.1 ≠ key) = l := by
  rw [List.filter_eq_self]
  rintro ⟨k, v⟩ mem
  simp only [ne_eq, decide_not, Bool.not_eq_true', decide_eq_false_iff_not]
  rintro rfl
  exact value_eq_none.mp absent v mem

theorem renew_keys (keys : (l.map Prod.fst).Nodup) (key : κ) (v : ν) : ((renew key v l).map Prod.fst).Nodup := by
  rw [renew, List.map_cons, List.nodup_cons]
  refine ⟨fun mem => ?_, keys.sublist (List.filter_sublist.map _)⟩
  obtain ⟨p, listed, same⟩ := List.mem_map.mp mem
  simp [same] at listed

/-- Renewing the entry of a key leaves the number of entries. -/
theorem renew_length (keys : (l.map Prod.fst).Nodup) (found : value key l = some v) (w : ν) :
    (renew key w l).length = l.length := by
  induction l with
  | nil => cases found
  | cons p l ih =>
    obtain ⟨fresh, keys⟩ := List.nodup_cons.mp keys
    rw [renew, List.length_cons, List.length_cons]
    by_cases here : p.1 = key
    · have absent : value key l = none := by
        refine value_eq_none.mpr fun v mem => fresh ?_
        rw [here]
        exact List.mem_map_of_mem (f := Prod.fst) mem
      rw [List.filter_cons_of_neg (by simp [here]), filter_absent absent]
    · have later : value key l = some v := by simpa [value, here] using found
      have rest := ih keys later
      rw [renew, List.length_cons] at rest
      rw [List.filter_cons_of_pos (by simp [here]), List.length_cons, rest]

theorem renew_sublist (sub : l.Sublist m) (key : κ) (v : ν) : (renew key v l).Sublist (renew key v m) :=
  (sub.filter _).cons_cons _

end Keys

section Inclusion
variable {b B : Limits ν} {s t : Store κ ν}

/-- The smaller store is within the larger one. -/
structure Included (b B : Limits ν) (s t : Store κ ν) : Prop where
  sublist : s.entries.Sublist t.entries
  keys : (t.entries.map Prod.fst).Nodup
  full : s.entries = t.entries ∨ s.entries.length = b.count
  room : B.count ≠ 0 → t.entries.length ≤ B.count
  hits : s.hits ≤ t.hits
  calls : s.hits + s.misses = t.hits + t.misses

/-- What the two stores keep of a new entry in front of what they had. -/
theorem Included.keep (h : Included b B s t) (unweighed : b.total = 0) (unweighed' : B.total = 0) (some_ : b.count ≠ 0)
    (larger : B.count = 0 ∨ b.count ≤ B.count) (p : κ × ν) :
    (b.keep (p :: s.entries)).Sublist (B.keep (p :: t.entries)) ∧
      (b.keep (p :: s.entries) = B.keep (p :: t.entries) ∨ (b.keep (p :: s.entries)).length = b.count) := by
  rw [Limits.keep_take unweighed some_]
  have length : ((p :: s.entries).take b.count).length = min b.count (s.entries.length + 1) := by
    rw [List.length_take, List.length_cons]
  by_cases unbounded : B.count = 0
  · rw [Limits.keep_all unweighed' unbounded]
    refine ⟨(List.take_sublist _ _).trans (h.sublist.cons_cons p), ?_⟩
    rcases h.full with same | full
    · by_cases fits : s.entries.length + 1 ≤ b.count
      · exact Or.inl (by rw [List.take_of_length_le (by simpa using fits), same])
      · exact Or.inr (by omega)
    · exact Or.inr (by omega)
  · have more := larger.resolve_left unbounded
    rw [Limits.keep_take unweighed' unbounded]
    rcases h.full with same | full
    · rw [same] at length ⊢
      refine ⟨(List.take_prefix_take_left more).sublist, ?_⟩
      by_cases fits : t.entries.length + 1 ≤ b.count
      · refine Or.inl ?_
        rw [List.take_of_length_le (by simpa using fits), List.take_of_length_le (by simp; omega)]
      · exact Or.inr (by omega)
    · refine ⟨?_, Or.inr (by omega)⟩
      -- The smaller store is full: it loses its last entry, and the larger one no other that both have.
      obtain ⟨n, count⟩ := Nat.exists_eq_succ_of_ne_zero some_
      obtain ⟨N, count'⟩ := Nat.exists_eq_succ_of_ne_zero unbounded
      have last : s.entries.take n = s.entries.dropLast := by
        rw [List.dropLast_eq_take, full, count]
        rfl
      rw [count, count', List.take_succ_cons, List.take_succ_cons, last]
      refine List.Sublist.cons_cons p ?_
      by_cases fits : t.entries.length ≤ N
      · rw [List.take_of_length_le fits]
        exact (List.dropLast_sublist _).trans h.sublist
      · have room := h.room unbounded
        have last' : t.entries.take N = t.entries.dropLast := by
          rw [List.dropLast_eq_take]
          congr 1
          omega
        rw [last']
        exact sublist_dropLast h.sublist

variable [DecidableEq κ]

theorem Included.value (h : Included b B s t) {key : κ} {v : ν} (found : value key s.entries = some v) :
    value key t.entries = some v :=
  value_of_mem h.keys (h.sublist.subset (mem_of_value found))

/-- A key that only the larger store has: the smaller one is full. -/
theorem Included.count (h : Included b B s t) {key : κ} {v : ν} (absent : Recency.value key s.entries = none)
    (found : Recency.value key t.entries = some v) : s.entries.length = b.count := by
  rcases h.full with same | full
  · rw [same, found] at absent
    cases absent
  · exact full

/-- What only the larger store renews is not in the smaller one. -/
theorem Included.behind (h : Included b B s t) {key : κ} (absent : Recency.value key s.entries = none) :
    s.entries.Sublist (t.entries.filter fun p => p.1 ≠ key) := by
  have kept := h.sublist.filter fun p => p.1 ≠ key
  rwa [filter_absent absent] at kept

/-- An entry that both stores have is renewed in both. -/
theorem Included.renewed (h : Included b B s t) {key : κ} {old : ν} (found : Recency.value key s.entries = some old)
    (v : ν) :
    Included b B { s with entries := renew key v s.entries } { t with entries := renew key v t.entries } := by
  have keys := h.keys.sublist (h.sublist.map _)
  refine ⟨renew_sublist h.sublist key v, renew_keys h.keys key v, ?_, fun bounded => ?_, h.hits, h.calls⟩
  · rcases h.full with same | full
    · exact Or.inl (by rw [same])
    · exact Or.inr ((renew_length keys found v).trans full)
  · exact (renew_length h.keys (h.value found) v).trans_le (h.room bounded)

theorem Included.get (h : Included b B s t) (key : κ) : Included b B (s.apply b (.get key)) (t.apply B (.get key)) := by
  simp only [Store.apply]
  cases small : Recency.value key s.entries with
  | some v =>
    rw [h.value small]
    have renewed := h.renewed small v
    refine ⟨renewed.sublist, renewed.keys, renewed.full, renewed.room, Nat.succ_le_succ h.hits, ?_⟩
    have := h.calls
    dsimp only
    omega
  | none =>
    have := h.calls
    have := h.hits
    cases large : Recency.value key t.entries with
    | none => exact ⟨h.sublist, h.keys, h.full, h.room, h.hits, by dsimp only; omega⟩
    | some v =>
      refine ⟨(h.behind small).cons _, renew_keys h.keys key v, Or.inr (h.count small large), ?_, ?_, ?_⟩
      · intro bounded
        exact (renew_length h.keys large v).trans_le (h.room bounded)
      · dsimp only
        omega
      · dsimp only
        omega

theorem Included.put (h : Included b B s t) (unweighed : b.total = 0) (unweighed' : B.total = 0) (some_ : b.count ≠ 0)
    (larger : B.count = 0 ∨ b.count ≤ B.count) (key : κ) (v : ν) :
    Included b B (s.apply b (.put key v)) (t.apply B (.put key v)) := by
  simp only [Store.apply]
  cases small : Recency.value key s.entries with
  | some old =>
    rw [h.value small]
    exact h.renewed small v
  | none =>
    cases large : Recency.value key t.entries with
    | none =>
      obtain ⟨sublist, full⟩ := h.keep unweighed unweighed' some_ larger (key, v)
      refine ⟨sublist, ?_, full, (Limits.fits_keep B _).1, h.hits, h.calls⟩
      refine List.Nodup.sublist ((Limits.keep_front B _).sublist.map _) ?_
      rw [List.map_cons, List.nodup_cons]
      refine ⟨fun mem => ?_, h.keys⟩
      obtain ⟨⟨k, w⟩, listed, rfl⟩ := List.mem_map.mp mem
      exact value_eq_none.mp large w listed
    | some old =>
      have full := h.count small large
      rw [Limits.keep_take unweighed some_]
      refine ⟨(List.take_sublist _ _).trans ((h.behind small).cons_cons _), renew_keys h.keys key v, Or.inr ?_, ?_,
        h.hits, h.calls⟩
      · rw [List.length_take, List.length_cons]
        omega
      · intro bounded
        exact (renew_length h.keys large v).trans_le (h.room bounded)

/-- **Inclusion.** After the same calls the smaller store is within the larger one. -/
theorem included_run (unweighed : b.total = 0) (unweighed' : B.total = 0) (some_ : b.count ≠ 0)
    (larger : B.count = 0 ∨ b.count ≤ B.count) (ops : List (Op κ ν)) :
    Included b B (run (Store.apply b) {} ops) (run (Store.apply B) {} ops) := by
  induction ops using List.reverseRecOn with
  | nil => exact ⟨List.Sublist.refl _, List.nodup_nil, Or.inl rfl, fun _ => Nat.zero_le _, Nat.le_refl _, rfl⟩
  | append_singleton ops op ih =>
    simp only [run_append, run_cons, run_nil]
    cases op with
    | get key => exact ih.get key
    | put key v => exact ih.put unweighed unweighed' some_ larger key v

end Inclusion

/-! ## Reading through -/

section Reading
variable [DecidableEq κ] {b B : Limits ν} {origin : κ → Option ν} {s t : Store κ ν} {key : κ} {v : ν}

/-- The calls of one read: the lookup and, if it found nothing, a `put` of what the origin has for the key. -/
def readCalls (origin : κ → Option ν) (key : κ) : Option ν → List (Op κ ν)
  | some _ => [.get key]
  | none => .get key :: ((origin key).map (Op.put key)).toList

def Store.read (b : Limits ν) (origin : κ → Option ν) (s : Store κ ν) (key : κ) : Store κ ν :=
  run (Store.apply b) s (readCalls origin key (s.answer (.get key)))

theorem Store.read_hit (found : value key s.entries = some v) :
    s.read b origin key = { s with entries := renew key v s.entries, hits := s.hits + 1 } := by
  simp only [Store.read, Store.answer, found, readCalls, run_cons, run_nil, Store.apply]

theorem Store.read_kept (absent : value key s.entries = none) (has : origin key = some v) :
    s.read b origin key = { s with entries := b.keep ((key, v) :: s.entries), misses := s.misses + 1 } := by
  simp only [Store.read, Store.answer, absent, readCalls, has, Option.map_some, Option.toList_some, run_cons, run_nil,
    Store.apply]

theorem Store.read_passed (absent : value key s.entries = none) (has : origin key = none) :
    s.read b origin key = { s with misses := s.misses + 1 } := by
  simp only [Store.read, Store.answer, absent, readCalls, has, Option.map_none, Option.toList_none, run_cons, run_nil,
    Store.apply]

theorem value_front {l m : List (κ × ν)} (front : l <+: m) (found : value key l = some v) : value key m = some v := by
  obtain ⟨rest, rfl⟩ := front
  obtain ⟨p, first, rfl⟩ := Option.map_eq_some_iff.mp found
  rw [value, List.find?_append, first]
  rfl

/-- The smaller store is a front of the larger one, which holds only what the origin has. -/
structure Ahead (origin : κ → Option ν) (s t : Store κ ν) : Prop where
  front : s.entries <+: t.entries
  stored : ∀ p ∈ t.entries, origin p.1 = some p.2
  hits : s.hits ≤ t.hits
  calls : s.hits + s.misses = t.hits + t.misses

theorem Ahead.value (h : Ahead origin s t) (found : Recency.value key s.entries = some v) :
    Recency.value key t.entries = some v :=
  value_front h.front found

theorem Ahead.stored_renew (h : Ahead origin s t) (found : Recency.value key t.entries = some v) :
    ∀ p ∈ renew key v t.entries, origin p.1 = some p.2 := by
  intro p mem
  rcases mem_renew.mp mem with rfl | ⟨old, -⟩
  · exact h.stored _ (mem_of_value found)
  · exact h.stored p old

/-- One read of the same key in both. -/
theorem Ahead.read (h : Ahead origin s t) (looser : ∀ l : List (κ × ν), b.Fits l → B.Fits l) (key : κ) :
    Ahead origin (s.read b origin key) (t.read B origin key) := by
  have hits := h.hits
  have calls := h.calls
  cases small : Recency.value key s.entries with
  | some v =>
    have large := h.value small
    rw [Store.read_hit small, Store.read_hit large]
    refine ⟨?_, h.stored_renew large, Nat.succ_le_succ hits, by dsimp only; omega⟩
    exact (List.prefix_cons_inj _).mpr (h.front.filter _)
  | none =>
    cases large : Recency.value key t.entries with
    | some w =>
      -- The smaller store fetches again what the larger one still has, and both have it in front.
      have has : origin key = some w := h.stored _ (mem_of_value large)
      rw [Store.read_kept small has, Store.read_hit large]
      refine ⟨(Limits.keep_front b _).trans ?_, h.stored_renew large, by dsimp only; omega, by dsimp only; omega⟩
      have behind := h.front.filter fun p => p.1 ≠ key
      rw [filter_absent small] at behind
      exact (List.prefix_cons_inj _).mpr behind
    | none =>
      cases has : origin key with
      | none =>
        rw [Store.read_passed small has, Store.read_passed large has]
        exact ⟨h.front, h.stored, hits, by dsimp only; omega⟩
      | some v =>
        rw [Store.read_kept small has, Store.read_kept large has]
        refine ⟨?_, fun p mem => ?_, hits, by dsimp only; omega⟩
        · have front := (Limits.keep_front b _).trans ((List.prefix_cons_inj (key, v)).mpr h.front)
          exact Limits.keep_longest front (looser _ (Limits.fits_keep b _))
        · rcases List.mem_cons.mp ((Limits.keep_front B _).subset mem) with rfl | old
          · exact has
          · exact h.stored p old

/-- **Reading through** stores of different size: the smaller one stays a front of the larger one. -/
theorem ahead_run (looser : ∀ l : List (κ × ν), b.Fits l → B.Fits l) (keys : List κ) :
    Ahead origin (run (Store.read b origin) {} keys) (run (Store.read B origin) {} keys) := by
  induction keys using List.reverseRecOn with
  | nil => exact ⟨List.prefix_refl _, fun _ mem => absurd mem List.not_mem_nil, Nat.le_refl _, rfl⟩
  | append_singleton keys key ih =>
    simp only [run_append, run_cons, run_nil]
    exact ih.read looser key

end Reading

/-- No limit, or one that is at least as large. -/
def Looser (limit limit' : Nat) : Prop := limit' = 0 ∨ limit ≠ 0 ∧ limit ≤ limit'

instance (limit limit' : Nat) : Decidable (Looser limit limit') := inferInstanceAs (Decidable (_ ∨ _))

theorem Limits.Fits.looser {count count' total total' : Nat} {size : ν → Nat} {l : List (κ × ν)}
    (fits : Limits.Fits ⟨count, total, size⟩ l) (counts : Looser count count') (totals : Looser total total') :
    Limits.Fits ⟨count', total', size⟩ l := by
  refine ⟨fun bounded => ?_, fun bounded => ?_⟩
  · obtain ⟨limited, le⟩ := counts.resolve_left bounded
    exact (fits.1 limited).trans le
  · obtain ⟨limited, le⟩ := totals.resolve_left bounded
    exact (fits.2 limited).trans le

end Recency
