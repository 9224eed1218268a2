import Mathlib.Data.Finset.Basic
import EvProxy.Runs

/-!
# A ledger of resources

Resources come from a common supply, a party acquires them, frees them, or hands
them to someone else. The supplier promises to give out only what nobody holds;
the party in turn gives up only what is its own. Then what others hold is never
touched (`frame`), it grows by what is handed over (`run_others`), and as long as
only what is in use is freed, everything acquired is freed once or in use
(`balance`).
-/

namespace Ledger
open Runs

variable {α : Type*} [DecidableEq α]

inductive Op (α : Type*) where
  | acquire (a : α)
  | free (a : α)
  | handOver (a : α)
  deriving DecidableEq

/-- Everything in use, and one party's part of it. -/
structure Book (α : Type*) where
  held : Finset α
  mine : Finset α

/-- What is in use after an operation of anyone. -/
def track (held : Finset α) : Op α → Finset α
  | .acquire a => insert a held
  | .free a => held.erase a
  | .handOver _ => held

def Book.step (b : Book α) (op : Op α) : Book α where
  held := track b.held op
  mine :=
    match op with
    | .acquire a => insert a b.mine
    | .free a => b.mine.erase a
    | .handOver a => b.mine.erase a

/-- The supplier's side: only what nobody holds is given out. -/
def Supplied (held : Finset α) : Op α → Prop
  | .acquire a => a ∉ held
  | _ => True

instance (held : Finset α) : ∀ op, Decidable (Supplied held op)
  | .acquire a => inferInstanceAs (Decidable (a ∉ held))
  | .free _ => .isTrue trivial
  | .handOver _ => .isTrue trivial

/-- Both sides: the party gives up only what is its own. -/
def Book.Allowed (b : Book α) : Op α → Prop
  | .acquire a => a ∉ b.held
  | .free a => a ∈ b.mine
  | .handOver a => a ∈ b.mine

/-- The supply of a whole sequence. -/
abbrev Fresh (held : Finset α) (ops : List (Op α)) : Prop := Legal Supplied track held ops

/-- The conduct of a whole sequence. -/
abbrev Proper (b : Book α) (ops : List (Op α)) : Prop := Legal Book.Allowed Book.step b ops

theorem run_held (b : Book α) (ops : List (Op α)) : (run Book.step b ops).held = run track b.held ops := by
  induction ops generalizing b with
  | nil => rfl
  | cons op ops ih => exact ih (b.step op)

/-- A party's part stays within what is in use. -/
theorem Book.step_sub {b : Book α} (sub : b.mine ⊆ b.held) (op : Op α) : (b.step op).mine ⊆ (b.step op).held := by
  cases op with
  | acquire a => exact Finset.insert_subset_insert a sub
  | free a => exact Finset.erase_subset_erase a sub
  | handOver a => exact (Finset.erase_subset a b.mine).trans sub

theorem run_sub {b : Book α} (sub : b.mine ⊆ b.held) (ops : List (Op α)) :
    (run Book.step b ops).mine ⊆ (run Book.step b ops).held :=
  run_invariant (P := fun b : Book α => b.mine ⊆ b.held) (fun _ op sub => Book.step_sub sub op) sub ops

/-- **Frame**: what others hold stays theirs, and no operation names it. -/
theorem frame {b : Book α} {ops : List (Op α)} (proper : Proper b ops) {a : α} (held : a ∈ b.held)
    (other : a ∉ b.mine) :
    (a ∈ (run Book.step b ops).held ∧ a ∉ (run Book.step b ops).mine) ∧
      .acquire a ∉ ops ∧ .free a ∉ ops ∧ .handOver a ∉ ops := by
  induction ops generalizing b with
  | nil => exact ⟨⟨held, other⟩, by simp, by simp, by simp⟩
  | cons op ops ih =>
    obtain ⟨allowed, proper⟩ := proper
    have next : (a ∈ (b.step op).held ∧ a ∉ (b.step op).mine) ∧ op ≠ .acquire a ∧ op ≠ .free a ∧ op ≠ .handOver a := by
      cases op with
      | acquire x =>
        have ne : a ≠ x := fun same => allowed (same ▸ held)
        exact ⟨⟨Finset.mem_insert_of_mem held, by simp [Book.step, ne, other]⟩, by simpa using ne.symm, nofun, nofun⟩
      | free x =>
        have ne : a ≠ x := fun same => other (same ▸ allowed)
        exact ⟨⟨Finset.mem_erase.mpr ⟨ne, held⟩, by simp [Book.step, other]⟩, nofun, by simpa using ne.symm, nofun⟩
      | handOver x =>
        have ne : a ≠ x := fun same => other (same ▸ allowed)
        exact ⟨⟨held, by simp [Book.step, other]⟩, nofun, nofun, by simpa using ne.symm⟩
    obtain ⟨after, no_acquire, no_free, no_handOver⟩ := ih proper next.1.1 next.1.2
    refine ⟨after, ?_, ?_, ?_⟩
    · simp [next.2.1.symm, no_acquire]
    · simp [next.2.2.1.symm, no_free]
    · simp [next.2.2.2.symm, no_handOver]

/-- What a sequence hands over. -/
def handed (ops : List (Op α)) : Finset α :=
  (ops.filterMap fun
    | .handOver a => some a
    | _ => none).toFinset

theorem mem_handed {a : α} {ops : List (Op α)} : a ∈ handed ops ↔ .handOver a ∈ ops := by
  simp only [handed, List.mem_toFinset, List.mem_filterMap]
  constructor
  · rintro ⟨op, listed, same⟩
    cases op with
    | handOver b =>
      cases same
      exact listed
    | acquire b => cases same
    | free b => cases same
  · intro listed
    exact ⟨_, listed, rfl⟩

theorem mem_handed_cons {a : α} {op : Op α} {ops : List (Op α)} :
    a ∈ handed (op :: ops) ↔ op = .handOver a ∨ a ∈ handed ops := by
  rw [mem_handed, mem_handed, List.mem_cons, eq_comm]

/-- Others have what they had, and what was handed over. -/
theorem run_others {b : Book α} {ops : List (Op α)} (sub : b.mine ⊆ b.held) (proper : Proper b ops) :
    (run Book.step b ops).held \ (run Book.step b ops).mine = b.held \ b.mine ∪ handed ops := by
  induction ops generalizing b with
  | nil => simp [handed]
  | cons op ops ih =>
    obtain ⟨allowed, proper⟩ := proper
    rw [run_cons, ih (Book.step_sub sub op) proper]
    ext a
    simp only [Finset.mem_union, Finset.mem_sdiff, mem_handed_cons]
    cases op with
    | acquire x =>
      have new : x ∉ b.held := allowed
      simp only [Book.step, track, Finset.mem_insert]
      grind
    | free x =>
      have mine : x ∈ b.mine := allowed
      simp only [Book.step, track, Finset.mem_erase]
      grind
    | handOver x =>
      have mine : x ∈ b.mine := allowed
      have held := sub mine
      simp only [Book.step, track, Finset.mem_erase, Op.handOver.injEq]
      grind

/-- Only what is in use is freed. -/
def Spent (held : Finset α) : Op α → Prop
  | .free a => a ∈ held
  | _ => True

theorem Proper.spent {b : Book α} {ops : List (Op α)} (sub : b.mine ⊆ b.held) (proper : Proper b ops) :
    Legal Spent track b.held ops := by
  induction ops generalizing b with
  | nil => trivial
  | cons op ops ih =>
    obtain ⟨allowed, proper⟩ := proper
    refine ⟨?_, ih (Book.step_sub sub op) proper⟩
    cases op with
    | free a => exact sub allowed
    | acquire a => trivial
    | handOver a => trivial

/-- One for what is in use. -/
def inUse (held : Finset α) (a : α) : Nat := if a ∈ held then 1 else 0

theorem inUse_track {held : Finset α} {op : Op α} (supplied : Supplied held op) (spent : Spent held op) (a : α) :
    inUse (track held op) a + [op].count (.free a) = inUse held a + [op].count (.acquire a) := by
  cases op with
  | acquire x =>
    have new : x ∉ held := supplied
    by_cases same : x = a
    · subst same
      simp [inUse, track, new]
    · simp [inUse, track, same, Ne.symm same]
  | free x =>
    have used : x ∈ held := spent
    by_cases same : x = a
    · subst same
      simp [inUse, track, used]
    · simp [inUse, track, same, Ne.symm same]
  | handOver x =>
    have same : track held (.handOver x) = held := rfl
    rw [same]
    simp

/-- **Balance**: everything acquired was freed once, or is in use. -/
theorem balance {held : Finset α} {ops : List (Op α)} (fresh : Fresh held ops) (spent : Legal Spent track held ops)
    (a : α) : ops.count (.acquire a) + inUse held a = ops.count (.free a) + inUse (run track held ops) a := by
  induction ops generalizing held with
  | nil => rfl
  | cons op ops ih =>
    have one := inUse_track fresh.1 spent.1 a
    have rest := ih fresh.2 spent.2
    have split (x : Op α) : (op :: ops).count x = [op].count x + ops.count x := by
      rw [← List.singleton_append, List.count_append]
    rw [run_cons, split, split]
    omega

end Ledger
