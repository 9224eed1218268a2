import Mathlib.Logic.Function.Basic
import Mathlib.Data.List.Basic

/-!
# Records of independent settings

A record read and written by key, each key with values of its own type. `Fields`
is the interface: a written key reads back, the others are left alone, and the
keys together are the whole record. A list of assignments is carried out in
order (`write`); what a key holds afterwards is its `last` assignment
(`get_write`), so only the order of assignments to one key matters
(`write_congr`, `write_swap`).
-/

namespace Settings

/-- The settings of a record type `σ`: keys `κ`, with values `ν k`. -/
structure Fields (κ : Type*) (ν : κ → Type*) (σ : Type*) where
  get : (k : κ) → σ → ν k
  set : (k : κ) → ν k → σ → σ
  get_set : ∀ k v s, get k (set k v s) = v
  get_set_ne : ∀ k k' v s, k ≠ k' → get k (set k' v s) = get k s
  ext : ∀ s t, (∀ k, get k s = get k t) → s = t

section Assignments
variable {κ : Type*} {ν : κ → Type*} {σ : Type*} (fields : Fields κ ν σ)

/-- Carry out the assignments in order. -/
def write (s : σ) (as : List (Sigma ν)) : σ := as.foldl (fun s a => fields.set a.1 a.2 s) s

@[simp] theorem write_nil (s : σ) : write fields s [] = s := rfl

@[simp] theorem write_cons (s : σ) (a : Sigma ν) (as : List (Sigma ν)) :
    write fields s (a :: as) = write fields (fields.set a.1 a.2 s) as := rfl

theorem write_append (s : σ) (as bs : List (Sigma ν)) :
    write fields s (as ++ bs) = write fields (write fields s as) bs :=
  List.foldl_append

variable [DecidableEq κ]

/-- The value an assignment gives to `k`. -/
def valueOf (k : κ) (a : Sigma ν) : Option (ν k) := if same : a.1 = k then some (same ▸ a.2) else none

/-- The value of the last assignment to `k`. -/
def last (k : κ) (as : List (Sigma ν)) : Option (ν k) := as.reverse.findSome? (valueOf k)

theorem valueOf_self (k : κ) (v : ν k) : valueOf k ⟨k, v⟩ = some v := by simp [valueOf]

theorem valueOf_ne {k : κ} {a : Sigma ν} (other : a.1 ≠ k) : valueOf k a = none := by simp [valueOf, other]

@[simp] theorem last_nil (k : κ) : last k ([] : List (Sigma ν)) = none := rfl

theorem last_append (k : κ) (as bs : List (Sigma ν)) : last k (as ++ bs) = (last k bs).or (last k as) := by
  simp [last, List.findSome?_append]

theorem last_singleton (k : κ) (a : Sigma ν) : last k [a] = valueOf k a := by
  cases given : valueOf k a <;> simp [last, given]

theorem last_eq_none {k : κ} {as : List (Sigma ν)} (others : ∀ a ∈ as, a.1 ≠ k) : last k as = none := by
  rw [last, List.findSome?_eq_none_iff]
  intro a mem
  exact valueOf_ne (others a (List.mem_reverse.mp mem))

/-- A key holds its last assignment, or what it held before. -/
theorem get_write (k : κ) (s : σ) (as : List (Sigma ν)) :
    fields.get k (write fields s as) = (last k as).getD (fields.get k s) := by
  induction as generalizing s with
  | nil => rfl
  | cons a as ih =>
    rw [write_cons, ih, ← List.singleton_append, last_append, last_singleton]
    cases last k as with
    | some v => rfl
    | none =>
      obtain ⟨key, v⟩ := a
      by_cases same : key = k
      · subst same
        simp [valueOf_self, fields.get_set]
      · simp [valueOf_ne (a := ⟨key, v⟩) same, fields.get_set_ne k key v s (Ne.symm same)]

/-- Only the last assignment to each key counts. -/
theorem write_congr {as bs : List (Sigma ν)} (same : ∀ k, last k as = last k bs) (s : σ) :
    write fields s as = write fields s bs := by
  apply fields.ext
  intro k
  rw [get_write, get_write, same k]

/-- Assignments to different keys commute, wherever they stand. -/
theorem write_swap (s : σ) (as bs : List (Sigma ν)) {a b : Sigma ν} (differ : a.1 ≠ b.1) :
    write fields s (as ++ [a] ++ [b] ++ bs) = write fields s (as ++ [b] ++ [a] ++ bs) := by
  apply write_congr
  intro k
  simp only [last_append, last_singleton]
  by_cases first : a.1 = k
  · rw [valueOf_ne (a := b) fun second => differ (first.trans second.symm)]
    simp
  · rw [valueOf_ne first]
    simp

end Assignments

end Settings
