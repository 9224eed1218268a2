import Mathlib.Data.Finset.Card
import Mathlib.Data.List.Nodup
import Mathlib.Data.List.Perm.Basic
import Mathlib.Logic.Function.Basic

/-!
# Things in the hands of a crew

Threads carry things from one place to another; each thing weighs something.
Weighing in any way (`mass`) accounts for numbers and identities at once: two
lists that weigh the same in every way hold the same things.
-/

namespace Crew

section Mass
variable {α : Type*} (weight : α → Nat)

/-- The weight of all things in a list. -/
def mass : List α → Nat
  | [] => 0
  | a :: l => weight a + mass l

@[simp] theorem mass_nil : mass weight [] = 0 := rfl

@[simp] theorem mass_cons (a : α) (l : List α) : mass weight (a :: l) = weight a + mass weight l := rfl

@[simp] theorem mass_append (l k : List α) : mass weight (l ++ k) = mass weight l + mass weight k := by
  induction l with
  | nil => simp
  | cons a l ih => simp [ih, Nat.add_assoc]

theorem mass_one (l : List α) : mass (fun _ => 1) l = l.length := by
  induction l with
  | nil => rfl
  | cons a l ih => rw [mass_cons, ih, List.length_cons, Nat.add_comm]

theorem mass_count [DecidableEq α] (a : α) (l : List α) : mass (fun b => if b = a then 1 else 0) l = l.count a := by
  induction l with
  | nil => rfl
  | cons b l ih => simp [ih, List.count_cons, Nat.add_comm]

/-- Lists that weigh the same in every way hold the same things. -/
theorem perm_of_mass [DecidableEq α] {l k : List α} (same : ∀ weight : α → Nat, mass weight l = mass weight k) :
    l.Perm k := by
  apply List.perm_iff_count.mpr
  intro a
  rw [← mass_count, ← mass_count, same]

/-- What weighs no more in every way than things that are all different has no doubles. -/
theorem nodup_of_mass [DecidableEq α] {l k : List α} (less : ∀ weight : α → Nat, mass weight l ≤ mass weight k)
    (different : k.Nodup) : l.Nodup := by
  apply List.nodup_iff_count_le_one.mpr
  intro a
  have := less fun b => if b = a then 1 else 0
  rw [mass_count, mass_count] at this
  exact Nat.le_trans this (List.nodup_iff_count_le_one.mp different a)

end Mass

section Carried
variable {σ α : Type*} (weight : α → Nat) (hold : σ → List α) (crew : Nat → σ)

/-- The weight of what the first `n` of a crew hold. -/
def carried : Nat → Nat
  | 0 => 0
  | n + 1 => carried n + mass weight (hold (crew n))

variable {weight hold crew} {n : Nat}

theorem carried_congr {crew' : Nat → σ} (same : ∀ i < n, hold (crew' i) = hold (crew i)) :
    carried weight hold crew' n = carried weight hold crew n := by
  induction n with
  | zero => rfl
  | succ n ih =>
    rw [carried, carried, ih fun i member => same i (by omega), same n (by omega)]

/-- One member puts down what it holds and takes up something else. -/
theorem carried_update {i : Nat} (member : i < n) (s : σ) :
    carried weight hold (Function.update crew i s) n + mass weight (hold (crew i)) =
      carried weight hold crew n + mass weight (hold s) := by
  induction n with
  | zero => omega
  | succ n ih =>
    rw [carried, carried]
    by_cases last : i = n
    · subst last
      have rest : carried weight hold (Function.update crew i s) i = carried weight hold crew i :=
        carried_congr fun j before => by rw [Function.update_of_ne (by omega)]
      rw [rest, Function.update_self]
      omega
    · have before := ih (by omega)
      rw [Function.update_of_ne (Ne.symm last)]
      omega

/-- One member changes, and each counts for itself. -/
theorem carried_update_self {rank : σ → Nat} {i : Nat} (member : i < n) (s : σ) :
    carried rank (fun s => [s]) (Function.update crew i s) n + rank (crew i) =
      carried rank (fun s => [s]) crew n + rank s :=
  carried_update member s

theorem carried_append (other : σ → List α) :
    carried weight (fun s => hold s ++ other s) crew n = carried weight hold crew n + carried weight other crew n := by
  induction n with
  | zero => rfl
  | succ n ih =>
    rw [carried, carried, carried, ih, mass_append]
    omega

theorem carried_eq_zero (idle : ∀ i < n, hold (crew i) = []) : carried weight hold crew n = 0 := by
  induction n with
  | zero => rfl
  | succ n ih => rw [carried, ih fun i member => idle i (by omega), idle n (by omega), mass_nil]

/-- The crew grows by one. -/
theorem carried_succ (s : σ) :
    carried weight hold (Function.update crew n s) (n + 1) = carried weight hold crew n + mass weight (hold s) := by
  have rest : carried weight hold (Function.update crew n s) n = carried weight hold crew n :=
    carried_congr fun i before => by rw [Function.update_of_ne (by omega)]
  rw [carried, rest, Function.update_self]

/-- A member's part is not more than the whole. -/
theorem mass_le_carried {i : Nat} (member : i < n) : mass weight (hold (crew i)) ≤ carried weight hold crew n := by
  induction n with
  | zero => omega
  | succ n ih =>
    rw [carried]
    by_cases last : i = n
    · rw [last]
      exact Nat.le_add_left _ _
    · exact Nat.le_add_right_of_le (ih (by omega))

/-- What is carried is carried by someone. -/
theorem carrier_of_carried (some_ : 0 < carried weight hold crew n) : ∃ i < n, 0 < mass weight (hold (crew i)) := by
  induction n with
  | zero => cases some_
  | succ n ih =>
    by_cases last : 0 < mass weight (hold (crew n))
    · exact ⟨n, n.lt_succ_self, last⟩
    · rw [carried] at some_
      obtain ⟨i, member, mine⟩ := ih (by omega)
      exact ⟨i, by omega, mine⟩

/-- Nothing is carried only if nobody holds anything. -/
theorem idle_of_carried (none : carried (fun _ => 1) hold crew n = 0) : ∀ i < n, hold (crew i) = [] := by
  induction n with
  | zero => omega
  | succ n ih =>
    rw [carried, mass_one] at none
    intro i member
    by_cases last : i = n
    · subst last
      exact List.length_eq_zero_iff.mp (by omega)
    · exact ih (by omega) i (by omega)

/-- A crew that carries one thing each carries no more than its number. -/
theorem carried_le (one : ∀ i < n, (hold (crew i)).length ≤ 1) : carried (fun _ => 1) hold crew n ≤ n := by
  induction n with
  | zero => exact Nat.le_refl 0
  | succ n ih =>
    have before := ih fun i member => one i (by omega)
    have last := one n (by omega)
    rw [carried, mass_one]
    omega

end Carried

section Charge
variable {σ κ : Type*} (charge : σ → Option κ)

/-- Exactly the objects present are in someone's charge, each in one member's. -/
structure Matched (n : Nat) (crew : Nat → σ) (present : κ → Prop) : Prop where
  live : ∀ i < n, ∀ k, charge (crew i) = some k → present k
  charged : ∀ k, present k → ∃ i < n, charge (crew i) = some k
  apart : ∀ i < n, ∀ j < n, ∀ k, charge (crew i) = some k → charge (crew j) = some k → i = j

variable {charge} {n : Nat} {crew crew' : Nat → σ} {present present' : κ → Prop} {i : Nat} {s : σ} {k : κ}

theorem matched_none (idle : ∀ i < n, charge (crew i) = none) (absent : ∀ k, ¬ present k) :
    Matched charge n crew present := by
  have never {i : Nat} {k : κ} (bound : i < n) : charge (crew i) ≠ some k := by simp [idle i bound]
  exact ⟨fun i bound k held => absurd held (never bound), fun k here => absurd here (absent k),
    fun i bound j _ k held => absurd held (never bound)⟩

theorem Matched.congr (h : Matched charge n crew present) (same : ∀ i < n, charge (crew' i) = charge (crew i))
    (still : ∀ k, present' k ↔ present k) : Matched charge n crew' present' where
  live := fun i bound k held => (still k).mpr (h.live i bound k (same i bound ▸ held))
  charged := by
    intro k here
    obtain ⟨i, bound, held⟩ := h.charged k ((still k).mp here)
    exact ⟨i, bound, (same i bound).trans held⟩
  apart := fun i bi j bj k hi hj => h.apart i bi j bj k (same i bi ▸ hi) (same j bj ▸ hj)

/-- A member moves on with what it has in charge. -/
theorem Matched.keep (h : Matched charge n crew present) (same : charge s = charge (crew i))
    (still : ∀ k, present' k ↔ present k) : Matched charge n (Function.update crew i s) present' := by
  refine h.congr (fun j _ => ?_) still
  by_cases eq : j = i
  · rw [eq, Function.update_self, same]
  · rw [Function.update_of_ne eq]

/-- An idle member takes charge of a new object. -/
theorem Matched.acquire (h : Matched charge n crew present) (bound : i < n) (idle : charge (crew i) = none)
    (new : ¬ present k) (takes : charge s = some k) (more : ∀ k', present' k' ↔ k' = k ∨ present k') :
    Matched charge n (Function.update crew i s) present' := by
  have old {j : Nat} {k' : κ} (there : j < n) (held : charge (Function.update crew i s j) = some k') (ne : j ≠ i) :
      charge (crew j) = some k' ∧ k' ≠ k := by
    rw [Function.update_of_ne ne] at held
    exact ⟨held, fun same => new (same ▸ h.live j there k' held)⟩
  have here {k' : κ} (held : charge (Function.update crew i s i) = some k') : k' = k := by
    rw [Function.update_self, takes] at held
    exact (Option.some.inj held).symm
  constructor
  · intro j there k' held
    rw [more]
    by_cases eq : j = i
    · exact .inl (here (eq ▸ held))
    · exact .inr (h.live j there k' (old there held eq).1)
  · intro k' there
    rcases (more k').mp there with rfl | before
    · exact ⟨i, bound, by rw [Function.update_self, takes]⟩
    · obtain ⟨j, member, held⟩ := h.charged k' before
      have ne : j ≠ i := by
        rintro rfl
        rw [idle] at held
        cases held
      exact ⟨j, member, by rw [Function.update_of_ne ne, held]⟩
  · intro j bj l bl k' hj hl
    by_cases first : j = i
    · by_cases second : l = i
      · rw [first, second]
      · exact absurd (here (first ▸ hj)) (old bl hl second).2
    · by_cases second : l = i
      · exact absurd (here (second ▸ hl)) (old bj hj first).2
      · exact h.apart j bj l bl k' (old bj hj first).1 (old bl hl second).1

/-- A member gives up what it has in charge, and the object is gone. -/
theorem Matched.release (h : Matched charge n crew present) (bound : i < n) (held : charge (crew i) = some k)
    (gives : charge s = none) (fewer : ∀ k', present' k' ↔ k' ≠ k ∧ present k') :
    Matched charge n (Function.update crew i s) present' := by
  have other {j : Nat} {k' : κ} (there : charge (Function.update crew i s j) = some k') :
      j ≠ i ∧ charge (crew j) = some k' := by
    have ne : j ≠ i := by
      rintro rfl
      rw [Function.update_self, gives] at there
      cases there
    rw [Function.update_of_ne ne] at there
    exact ⟨ne, there⟩
  constructor
  · intro j bj k' there
    obtain ⟨ne, before⟩ := other there
    refine (fewer k').mpr ⟨?_, h.live j bj k' before⟩
    rintro rfl
    exact ne (h.apart j bj i bound k' before held)
  · intro k' there
    obtain ⟨ne, before⟩ := (fewer k').mp there
    obtain ⟨j, bj, hj⟩ := h.charged k' before
    have other : j ≠ i := by
      rintro rfl
      exact ne (Option.some.inj (hj.symm.trans held))
    exact ⟨j, bj, by rw [Function.update_of_ne other, hj]⟩
  · intro j bj l bl k' hj hl
    exact h.apart j bj l bl k' (other hj).2 (other hl).2

/-- There are no more objects than members. -/
theorem Matched.card_le (h : Matched charge n crew present) {objects : Finset κ} (all : ∀ k ∈ objects, present k) :
    objects.card ≤ n := by
  classical
  have charged : objects.map Function.Embedding.some ⊆ (Finset.range n).image fun i => charge (crew i) := by
    intro o mem
    obtain ⟨k, here, rfl⟩ := Finset.mem_map.mp mem
    obtain ⟨i, member, held⟩ := h.charged k (all k here)
    exact Finset.mem_image.mpr ⟨i, Finset.mem_range.mpr member, held⟩
  calc objects.card
    _ = (objects.map Function.Embedding.some).card := (Finset.card_map _).symm
    _ ≤ ((Finset.range n).image fun i => charge (crew i)).card := Finset.card_le_card charged
    _ ≤ (Finset.range n).card := Finset.card_image_le
    _ = n := Finset.card_range n

end Charge

end Crew
