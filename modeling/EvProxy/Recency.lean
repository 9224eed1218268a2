import Mathlib.Algebra.Ring.Nat
import Mathlib.Data.List.Infix
import Mathlib.Data.Nat.Find
import EvProxy.Runs

/-!
# Recency lists

The abstract least-recently-used store: a list of entries, most recent first. A
hit moves its entry to the front, a new entry pushes out whatever no longer fits
behind it. Two limits bound the list, its length and its weight; `0` is no limit.
`Limits.keep` is the longest front that fits, and dropping from the back until it
fits computes it (`keep_concat`).
-/

namespace Recency
open Runs

variable {κ ν : Type*}

/-! ## Limits -/

structure Limits (ν : Type*) where
  count : Nat
  total : Nat
  size : ν → Nat

namespace Limits
variable (b : Limits ν)

def weight (l : List (κ × ν)) : Nat := (l.map fun p => b.size p.2).sum

def Fits (l : List (κ × ν)) : Prop :=
  (b.count ≠ 0 → l.length ≤ b.count) ∧ (b.total ≠ 0 → b.weight l ≤ b.total)

instance (l : List (κ × ν)) : Decidable (b.Fits l) := inferInstanceAs (Decidable (_ ∧ _))

/-- The longest front that fits, if need be the empty one. -/
def keep (l : List (κ × ν)) : List (κ × ν) := l.take (Nat.findGreatest (fun n => b.Fits (l.take n)) l.length)

variable {b} {l m : List (κ × ν)}

theorem fits_nil : b.Fits ([] : List (κ × ν)) := ⟨fun _ => Nat.zero_le _, fun _ => Nat.zero_le _⟩

theorem keep_front (b : Limits ν) (l : List (κ × ν)) : b.keep l <+: l := List.take_prefix _ _

theorem fits_keep (b : Limits ν) (l : List (κ × ν)) : b.Fits (b.keep l) :=
  Nat.findGreatest_spec (P := fun n => b.Fits (l.take n)) (Nat.zero_le _) fits_nil

/-- Every front that fits is kept. -/
theorem keep_longest (front : m <+: l) (fits : b.Fits m) : m <+: b.keep l := by
  obtain ⟨rest, rfl⟩ := front
  have here : b.Fits ((m ++ rest).take m.length) := by rwa [List.take_left]
  have bound : m.length ≤ (m ++ rest).length := by simp
  have reach := Nat.le_findGreatest (P := fun n => b.Fits ((m ++ rest).take n)) bound here
  calc m = (m ++ rest).take m.length := List.take_left.symm
    _ <+: b.keep (m ++ rest) := List.take_prefix_take_left reach

theorem keep_eq (front : m <+: l) (fits : b.Fits m) (longest : ∀ p, p <+: l → b.Fits p → p <+: m) : b.keep l = m := by
  have inside : b.keep l <+: m := longest _ (keep_front b l) (fits_keep b l)
  exact inside.eq_of_length_le (keep_longest front fits).length_le

/-- One round of dropping from the back. -/
theorem keep_concat (b : Limits ν) (l : List (κ × ν)) (p : κ × ν) :
    b.keep (l ++ [p]) = if b.Fits (l ++ [p]) then l ++ [p] else b.keep l := by
  split
  · rename_i fits
    exact keep_eq (List.prefix_refl _) fits fun _ front _ => front
  · rename_i full
    refine keep_eq ((keep_front b l).trans (List.prefix_append _ _)) (fits_keep b l) fun m front fits => ?_
    rcases List.prefix_concat_iff.mp front with rfl | front
    · exact absurd fits full
    · exact keep_longest front fits

theorem keep_nil (b : Limits ν) : b.keep ([] : List (κ × ν)) = [] := List.prefix_nil.mp (keep_front b [])

end Limits

/-! ## The store -/

inductive Op (κ ν : Type*) where
  | get (key : κ)
  | put (key : κ) (value : ν)

structure Store (κ ν : Type*) where
  entries : List (κ × ν) := []
  hits : Nat := 0
  misses : Nat := 0

variable [DecidableEq κ]

def value (key : κ) (l : List (κ × ν)) : Option ν := (l.find? fun p => p.1 = key).map Prod.snd

/-- The entry of a key, with this value, in front. -/
def renew (key : κ) (value : ν) (l : List (κ × ν)) : List (κ × ν) := (key, value) :: l.filter fun p => p.1 ≠ key

namespace Store

def answer (s : Store κ ν) : Op κ ν → Option ν
  | .get key => value key s.entries
  | .put _ _ => none

def apply (b : Limits ν) (s : Store κ ν) : Op κ ν → Store κ ν
  | .get key =>
    match value key s.entries with
    | none => { s with misses := s.misses + 1 }
    | some v => { s with entries := renew key v s.entries, hits := s.hits + 1 }
  | .put key v =>
    match value key s.entries with
    | none => { s with entries := b.keep ((key, v) :: s.entries) }
    | some _ => { s with entries := renew key v s.entries }

end Store

/-- The value the last `put` of a key gave it. -/
def lastPut (key : κ) (ops : List (Op κ ν)) : Option ν :=
  ops.foldl (fun last op =>
    match op with
    | .put k v => if k = key then some v else last
    | .get _ => last) none

section Values
variable {key : κ} {l : List (κ × ν)}

theorem mem_of_value {v : ν} (found : value key l = some v) : (key, v) ∈ l := by
  obtain ⟨⟨k, v'⟩, at_key, rfl⟩ := Option.map_eq_some_iff.mp found
  have same : k = key := by simpa using List.find?_some at_key
  subst same
  exact List.mem_of_find?_eq_some at_key

theorem value_eq_none : value key l = none ↔ ∀ v, (key, v) ∉ l := by
  simp only [value, Option.map_eq_none_iff, List.find?_eq_none, decide_eq_true_eq]
  constructor
  · intro absent v mem
    exact absent _ mem rfl
  · rintro absent ⟨k, v⟩ mem rfl
    exact absent v mem

theorem mem_renew {v : ν} {p : κ × ν} : p ∈ renew key v l ↔ p = (key, v) ∨ p ∈ l ∧ p.1 ≠ key := by
  simp [renew]

theorem Store.mem_get {b : Limits ν} {s : Store κ ν} {p : κ × ν} (mem : p ∈ (s.apply b (.get key)).entries) :
    p ∈ s.entries := by
  cases found : value key s.entries with
  | none =>
    simp only [Store.apply, found] at mem
    exact mem
  | some v =>
    simp only [Store.apply, found] at mem
    rcases mem_renew.mp mem with rfl | ⟨old, -⟩
    · exact mem_of_value found
    · exact old

theorem Store.mem_put {b : Limits ν} {s : Store κ ν} {v : ν} {p : κ × ν} (mem : p ∈ (s.apply b (.put key v)).entries) :
    p = (key, v) ∨ p ∈ s.entries ∧ p.1 ≠ key := by
  cases found : value key s.entries with
  | none =>
    simp only [Store.apply, found] at mem
    rcases List.mem_cons.mp ((Limits.keep_front b _).subset mem) with new | old
    · exact Or.inl new
    · refine Or.inr ⟨old, ?_⟩
      rintro rfl
      exact value_eq_none.mp found p.2 old
  | some v' =>
    simp only [Store.apply, found] at mem
    exact mem_renew.mp mem

/-- Every entry holds the value last put under its key. -/
theorem lastPut_of_mem (b : Limits ν) (ops : List (Op κ ν)) {v : ν}
    (mem : (key, v) ∈ (run (Store.apply b) {} ops).entries) : lastPut key ops = some v := by
  induction ops using List.reverseRecOn generalizing v with
  | nil => cases mem
  | append_singleton ops op ih =>
    rw [run_append, run_cons, run_nil] at mem
    rw [lastPut, List.foldl_append, List.foldl_cons, List.foldl_nil]
    cases op with
    | get k => exact ih (Store.mem_get mem)
    | put k v' =>
      rcases Store.mem_put mem with new | ⟨old, other⟩
      · obtain ⟨rfl, rfl⟩ := Prod.mk.inj new
        exact if_pos rfl
      · exact (if_neg (Ne.symm other)).trans (ih old)

end Values

end Recency
