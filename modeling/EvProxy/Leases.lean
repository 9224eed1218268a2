import Mathlib.Logic.Function.Basic

/-!
# Leases

A memory whose entries hold for a term from the moment they were stored. The
history of what was stored is the reference: every entry is the latest thing
stored under its key, and ends its term after that (`Upheld`). Erasing an entry,
storing one and the passing of time keep this, so whatever is read before it ends
is the latest thing stored, and recent (`Upheld.read`).
-/

namespace Leases

variable {κ ν : Type*} [DecidableEq κ]

/-- One thing stored. -/
structure Stored (κ ν : Type*) where
  key : κ
  value : ν
  time : Int

/-- One entry of the memory. -/
structure Lease (ν : Type*) where
  value : ν
  expires : Int

/-- The last thing stored under a key; the history has the newest last. -/
def latest (k : κ) (history : List (Stored κ ν)) : Option (Stored κ ν) :=
  history.reverse.find? fun s => s.key = k

theorem latest_append_self (history : List (Stored κ ν)) (s : Stored κ ν) :
    latest s.key (history ++ [s]) = some s := by
  simp [latest]

theorem latest_append_ne {k : κ} {s : Stored κ ν} (other : s.key ≠ k) (history : List (Stored κ ν)) :
    latest k (history ++ [s]) = latest k history := by
  simp [latest, other]

/-- Every entry is backed by the latest thing stored under its key. -/
def Upheld (term now : Int) (entries : κ → Option (Lease ν)) (history : List (Stored κ ν)) : Prop :=
  ∀ k e, entries k = some e →
    ∃ s, latest k history = some s ∧ s.value = e.value ∧ s.time ≤ now ∧ e.expires = s.time + term

namespace Upheld

variable {term now : Int} {entries : κ → Option (Lease ν)} {history : List (Stored κ ν)}

theorem empty (term now : Int) (history : List (Stored κ ν)) : Upheld term now (fun _ => none) history := by
  intro k e here
  cases here

theorem wait (h : Upheld term now entries history) {later : Int} (after : now ≤ later) :
    Upheld term later entries history := by
  intro k e here
  obtain ⟨s, last, value, past, ends⟩ := h k e here
  exact ⟨s, last, value, Int.le_trans past after, ends⟩

theorem erase (h : Upheld term now entries history) (k : κ) :
    Upheld term now (Function.update entries k none) history := by
  intro k' e here
  by_cases same : k' = k
  · rw [same, Function.update_self] at here
    cases here
  · rw [Function.update_of_ne same] at here
    exact h k' e here

theorem store (h : Upheld term now entries history) (k : κ) (v : ν) :
    Upheld term now (Function.update entries k (some ⟨v, now + term⟩)) (history ++ [⟨k, v, now⟩]) := by
  intro k' e here
  by_cases same : k' = k
  · rw [same, Function.update_self] at here
    obtain rfl := Option.some.inj here
    rw [same]
    exact ⟨⟨k, v, now⟩, latest_append_self history ⟨k, v, now⟩, rfl, Int.le_refl now, rfl⟩
  · rw [Function.update_of_ne same] at here
    have kept : latest k' (history ++ [⟨k, v, now⟩]) = latest k' history := latest_append_ne (Ne.symm same) history
    rw [kept]
    exact h k' e here

/-- What is read before its end is the latest thing stored, and recent. -/
theorem read (h : Upheld term now entries history) {k : κ} {e : Lease ν} (here : entries k = some e)
    (valid : now < e.expires) :
    ∃ s, latest k history = some s ∧ s.value = e.value ∧ s.time ≤ now ∧ now < s.time + term := by
  obtain ⟨s, last, value, past, ends⟩ := h k e here
  exact ⟨s, last, value, past, ends ▸ valid⟩

end Upheld

end Leases
