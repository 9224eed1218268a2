import EvProxy.Runs
import Mathlib.Data.Finset.Card
import Mathlib.Data.Finset.Filter

/-!
# Condition variables

Threads that wait for each other under one mutex. The machine below makes a
critical section one step; here a thread that finds its condition unmet goes to
sleep at a condition variable, and what it notifies after its section is still
owed when the section is over. Any sleeper may also wake for no reason.

A wakeup is lost when a thread sleeps although its wait is over and nobody will
rouse it. `Accounts` says that every section notifies for what it makes possible,
and then no run loses a wakeup (`Covered.stirs`).
-/

namespace Bells
open Runs

variable {ι κ σ α : Type*}

inductive Note (κ : Type*) where
  | one (bell : κ)
  | all (bell : κ)
  deriving DecidableEq

/-- A machine whose inputs are steps of threads. `guard` is the condition variable
at which the next step of a thread waits, if it waits; `passes` is the condition,
and `notes` what the thread notifies after the step. -/
structure System (ι κ σ α : Type*) where
  next : σ → α → σ
  actor : α → ι
  guard : σ → ι → Option κ
  passes : σ → α → Bool
  notes : σ → α → List (Note κ)

/-- The machine with its sleepers, and the notifications that are still to be made. -/
structure House (ι κ σ : Type*) where
  base : σ
  asleep : Finset ι := ∅
  owed : List (ι × Note κ) := []

inductive Act (ι α : Type*) where
  | go (a : α)
  /-- The next notification of `i`; `chosen` is the sleeper it rouses, if there is one. -/
  | ring (i : ι) (chosen : Option ι)
  /-- A thread wakes by itself, or its time is over. -/
  | wake (i : ι)

theorem perm_of_find [DecidableEq ι] {owed : List (ι × Note κ)} {i j : ι} {n : Note κ}
    (first : owed.find? (fun e => e.1 = i) = some (j, n)) :
    owed.Perm ((j, n) :: owed.eraseP fun e => e.1 = i) := by
  induction owed with
  | nil => cases first
  | cons e owed ih =>
    by_cases here : e.1 = i
    · rw [List.find?_cons_of_pos (by simpa using here)] at first
      rw [List.eraseP_cons_of_pos (by simpa using here), Option.some.inj first]
    · rw [List.find?_cons_of_neg (by simpa using here)] at first
      rw [List.eraseP_cons_of_neg (by simpa using here)]
      exact ((ih first).cons e).trans (.swap ..)

/-- The sleepers at a condition variable. -/
def sleepers [DecidableEq κ] (sys : System ι κ σ α) (s : σ) (asleep : Finset ι) (k : κ) : Finset ι :=
  asleep.filter fun i => sys.guard s i = some k

theorem sleepers_mono [DecidableEq κ] {sys : System ι κ σ α} {s : σ} {asleep asleep' : Finset ι} {k : κ}
    (fewer : asleep' ⊆ asleep) : sleepers sys s asleep' k ⊆ sleepers sys s asleep k :=
  Finset.filter_subset_filter _ fewer

section Machine
variable [DecidableEq ι] [DecidableEq κ] (sys : System ι κ σ α)

def ringOne (x : House ι κ σ) (k : κ) (chosen : Option ι) (rest : List (ι × Note κ)) : House ι κ σ :=
  match chosen with
  | some j => if j ∈ sleepers sys x.base x.asleep k then { x with asleep := x.asleep.erase j, owed := rest } else x
  | none => if sleepers sys x.base x.asleep k = ∅ then { x with owed := rest } else x

def advance (x : House ι κ σ) : Act ι α → House ι κ σ
  | .go a =>
    if sys.actor a ∈ x.asleep ∨ ∃ e ∈ x.owed, e.1 = sys.actor a then x
    else if sys.guard x.base (sys.actor a) = none ∨ sys.passes x.base a = true then
      { x with
        base := sys.next x.base a
        owed := x.owed ++ (sys.notes x.base a).map fun n => (sys.actor a, n) }
    else { x with asleep := insert (sys.actor a) x.asleep }
  | .ring i chosen =>
    match x.owed.find? fun e => e.1 = i with
    | none => x
    | some (_, .one k) => ringOne sys x k chosen (x.owed.eraseP fun e => e.1 = i)
    | some (_, .all k) =>
      { x with
        asleep := x.asleep \ sleepers sys x.base x.asleep k
        owed := x.owed.eraseP fun e => e.1 = i }
  | .wake i => { x with asleep := x.asleep.erase i }

/-- What a step can be. -/
inductive Step (x : House ι κ σ) : House ι κ σ → Prop where
  | idle : Step x x
  | sleep (a : α) (k : κ) (guard : sys.guard x.base (sys.actor a) = some k) (stuck : sys.passes x.base a = false) :
      Step x { x with asleep := insert (sys.actor a) x.asleep }
  | go (a : α) (awake : sys.actor a ∉ x.asleep)
      (may : sys.guard x.base (sys.actor a) = none ∨ sys.passes x.base a = true) :
      Step x { x with
        base := sys.next x.base a
        owed := x.owed ++ (sys.notes x.base a).map fun n => (sys.actor a, n) }
  | rouse (i j : ι) (k : κ) (rest : List (ι × Note κ)) (owed : x.owed.Perm ((i, .one k) :: rest))
      (there : j ∈ sleepers sys x.base x.asleep k) : Step x { x with asleep := x.asleep.erase j, owed := rest }
  | vain (i : ι) (k : κ) (rest : List (ι × Note κ)) (owed : x.owed.Perm ((i, .one k) :: rest))
      (nobody : sleepers sys x.base x.asleep k = ∅) : Step x { x with owed := rest }
  | all (i : ι) (k : κ) (rest : List (ι × Note κ)) (owed : x.owed.Perm ((i, .all k) :: rest)) :
      Step x { x with asleep := x.asleep \ sleepers sys x.base x.asleep k, owed := rest }
  | wake (i : ι) : Step x { x with asleep := x.asleep.erase i }

theorem advance_step (x : House ι κ σ) (act : Act ι α) : Step sys x (advance sys x act) := by
  cases act with
  | go a =>
    rw [advance]
    split
    · exact .idle
    · rename_i free
      split
      · rename_i may
        exact .go a (fun asleep => free (Or.inl asleep)) may
      · rename_i stuck
        obtain ⟨k, guard⟩ := Option.ne_none_iff_exists'.mp fun none_ => stuck (Or.inl none_)
        exact .sleep a k guard (by simpa using fun passes => stuck (Or.inr passes))
  | ring i chosen =>
    rw [advance]
    cases first : x.owed.find? fun e => e.1 = i with
    | none => exact .idle
    | some e =>
      obtain ⟨j, n⟩ := e
      have perm := perm_of_find first
      cases n with
      | all k => exact .all j k _ perm
      | one k =>
        dsimp only
        unfold ringOne
        split
        · split
          · rename_i there
            exact .rouse j _ k _ perm there
          · exact .idle
        · split
          · rename_i nobody
            exact .vain j k _ perm nobody
          · exact .idle
  | wake i => exact .wake i

variable {sys}

/-- Under the sleeping and waking, the machine makes a run of its own. -/
theorem run_base (x : House ι κ σ) (acts : List (Act ι α)) :
    ∃ inputs, (run (advance sys) x acts).base = run sys.next x.base inputs := by
  refine run_invariant (P := fun y : House ι κ σ => ∃ inputs, y.base = run sys.next x.base inputs) ?_ ⟨[], rfl⟩ acts
  rintro y act ⟨inputs, same⟩
  generalize stepped : advance sys y act = y'
  cases stepped ▸ advance_step sys y act with
  | go a =>
    refine ⟨inputs ++ [a], ?_⟩
    rw [run_append, ← same]
    rfl
  | _ => exact ⟨inputs, same⟩

end Machine

/-! ## No wakeup is lost -/

/-- **The accounts of a condition variable.** `chances` counts the threads that
could pass now, and `released` says that all can. Where `P` holds, a thread goes
to sleep only without a chance; a step that makes a chance owes a notification
for it, and a step that releases the waiters notifies them all. `crew` has every
thread that may ever wait. -/
structure System.Accounts [DecidableEq κ] (sys : System ι κ σ α) (chances : σ → κ → Nat) (released : σ → κ → Bool)
    (crew : Finset ι) (P : σ → Prop) : Prop where
  keeps {s : σ} (a : α) : P s → P (sys.next s a)
  crew {s : σ} {i : ι} {k : κ} : P s → sys.guard s i = some k → i ∈ crew
  stays {s : σ} {a : α} {i : ι} : P s → i ≠ sys.actor a → sys.guard (sys.next s a) i = sys.guard s i
  sleeps {s : σ} {a : α} {k : κ} : P s → sys.guard s (sys.actor a) = some k → sys.passes s a = false →
    chances s k = 0 ∧ released s k = false
  pays {s : σ} {a : α} (k : κ) : P s → sys.guard s (sys.actor a) = none ∨ sys.passes s a = true →
    .all k ∈ sys.notes s a ∨ released s k = true ∨ released (sys.next s a) k = false ∧
      (chances (sys.next s a) k = 0 ∨
        chances (sys.next s a) k + (if sys.guard s (sys.actor a) = some k then 1 else 0) ≤
          chances s k + (sys.notes s a).count (.one k) +
            if sys.guard (sys.next s a) (sys.actor a) = some k then 1 else 0)

/-- Whatever else every step keeps may be kept in view. -/
theorem System.Accounts.and [DecidableEq κ] {sys : System ι κ σ α} {chances : σ → κ → Nat} {released : σ → κ → Bool}
    {crew : Finset ι} {P Q : σ → Prop} (acc : sys.Accounts chances released crew P)
    (keeps : ∀ s a, Q s → Q (sys.next s a)) : sys.Accounts chances released crew fun s => P s ∧ Q s where
  keeps a := fun ⟨good, also⟩ => ⟨acc.keeps a good, keeps _ a also⟩
  crew := fun ⟨good, _⟩ => acc.crew good
  stays := fun ⟨good, _⟩ => acc.stays good
  sleeps := fun ⟨good, _⟩ => acc.sleeps good
  pays k := fun ⟨good, _⟩ => acc.pays k good

def ones [DecidableEq κ] (owed : List (ι × Note κ)) (k : κ) : Nat := (owed.map Prod.snd).count (.one k)

theorem ones_cons [DecidableEq κ] {owed rest : List (ι × Note κ)} {i : ι} {n : Note κ}
    (split : owed.Perm ((i, n) :: rest)) (k : κ) : ones owed k = ones rest k + if n = .one k then 1 else 0 := by
  rw [ones, (split.map Prod.snd).count_eq, List.map_cons, List.count_cons]
  simp only [beq_iff_eq, ones]

theorem all_cons {owed rest : List (ι × Note κ)} {i : ι} {n : Note κ} (split : owed.Perm ((i, n) :: rest)) {k : κ}
    (other : n ≠ .all k) (mem : .all k ∈ owed.map Prod.snd) : .all k ∈ rest.map Prod.snd := by
  rw [(split.map Prod.snd).mem_iff, List.map_cons, List.mem_cons] at mem
  exact mem.resolve_left fun same => other same.symm

section Covered
variable [DecidableEq ι] [DecidableEq κ] (sys : System ι κ σ α) (chances : σ → κ → Nat) (released : σ → κ → Bool)
  (crew : Finset ι)

/-- The threads that are about to look at the condition. -/
def crowd (s : σ) (asleep : Finset ι) (k : κ) : Finset ι := crew.filter fun i => sys.guard s i = some k ∧ i ∉ asleep

/-- Where somebody sleeps, every chance has a thread that will look or a notification that is owed. -/
structure Covered (x : House ι κ σ) : Prop where
  waits : ∀ i ∈ x.asleep, ∃ k, sys.guard x.base i = some k
  enough : ∀ k, (sleepers sys x.base x.asleep k).Nonempty → .all k ∈ x.owed.map Prod.snd ∨
    released x.base k = false ∧ chances x.base k ≤ (crowd sys crew x.base x.asleep k).card + ones x.owed k

variable {sys chances released crew} {P : σ → Prop} {s s' : σ} {asleep asleep' : Finset ι} {x x' : House ι κ σ} {k : κ}

theorem crowd_mono (fewer : asleep' ⊆ asleep) : crowd sys crew s asleep k ⊆ crowd sys crew s asleep' k := by
  intro i mem
  obtain ⟨member, there, awake⟩ := Finset.mem_filter.mp mem
  exact Finset.mem_filter.mpr ⟨member, there, fun back => awake (fewer back)⟩

/-- The crowd with one thread set apart. -/
theorem card_crowd {i : ι} (awake : i ∉ asleep) (member : sys.guard s i = some k → i ∈ crew) :
    (crowd sys crew s asleep k).card =
      ((crowd sys crew s asleep k).erase i).card + if sys.guard s i = some k then 1 else 0 := by
  split
  · rename_i here
    exact (Finset.card_erase_add_one (Finset.mem_filter.mpr ⟨member here, here, awake⟩)).symm
  · rename_i elsewhere
    rw [Finset.erase_eq_of_notMem fun mem => elsewhere (Finset.mem_filter.mp mem).2.1, Nat.add_zero]

/-- Fewer sleepers, and nothing forgotten for the rest. -/
theorem Covered.fewer (h : Covered sys chances released crew x) {owed : List (ι × Note κ)} (fewer : asleep ⊆ x.asleep)
    (kept : ∀ k, (sleepers sys x.base asleep k).Nonempty →
      (.all k ∈ x.owed.map Prod.snd → .all k ∈ owed.map Prod.snd) ∧
        (crowd sys crew x.base x.asleep k).card + ones x.owed k ≤
          (crowd sys crew x.base asleep k).card + ones owed k) :
    Covered sys chances released crew { x with asleep := asleep, owed := owed } where
  waits i mem := h.waits i (fewer mem)
  enough k some_ := by
    obtain ⟨all, count⟩ := kept k some_
    rcases h.enough k (some_.mono (sleepers_mono fewer)) with owed | ⟨shut, enough⟩
    · exact Or.inl (all owed)
    · exact Or.inr ⟨shut, enough.trans count⟩

/-- A thread goes to sleep, where it has no chance. -/
theorem Covered.sleep (h : Covered sys chances released crew x) {i : ι} (guard : sys.guard x.base i = some k)
    (none_ : chances x.base k = 0) (shut : released x.base k = false) :
    Covered sys chances released crew { x with asleep := insert i x.asleep } where
  waits j mem := by
    rcases Finset.mem_insert.mp mem with rfl | mem
    · exact ⟨k, guard⟩
    · exact h.waits j mem
  enough k' some_ := by
    by_cases same : k' = k
    · subst same
      exact Or.inr ⟨shut, none_ ▸ Nat.zero_le _⟩
    · have elsewhere : ∀ j, sys.guard x.base j = some k' → j ≠ i := by
        rintro j there rfl
        exact same (Option.some.inj (there.symm.trans guard))
      obtain ⟨j, mem⟩ := some_
      obtain ⟨mem, there⟩ := Finset.mem_filter.mp mem
      have before : j ∈ sleepers sys x.base x.asleep k' :=
        Finset.mem_filter.mpr ⟨Finset.mem_of_mem_insert_of_ne mem (elsewhere j there), there⟩
      refine (h.enough k' ⟨j, before⟩).imp_right fun ⟨shut, enough⟩ => ⟨shut, enough.trans ?_⟩
      refine Nat.add_le_add_right (Finset.card_le_card fun j mem => ?_) _
      obtain ⟨member, there, awake⟩ := Finset.mem_filter.mp mem
      refine Finset.mem_filter.mpr ⟨member, there, fun mem => awake ?_⟩
      exact Finset.mem_of_mem_insert_of_ne mem (elsewhere j there)

/-- A thread makes a step of the machine. -/
theorem System.Accounts.go (acc : sys.Accounts chances released crew P) (good : P x.base)
    (h : Covered sys chances released crew x) {a : α} (awake : sys.actor a ∉ x.asleep)
    (may : sys.guard x.base (sys.actor a) = none ∨ sys.passes x.base a = true) :
    Covered sys chances released crew { x with
      base := sys.next x.base a
      owed := x.owed ++ (sys.notes x.base a).map fun n => (sys.actor a, n) } := by
  have others : ∀ i ≠ sys.actor a, sys.guard (sys.next x.base a) i = sys.guard x.base i := fun i => acc.stays good
  have apart : ∀ i ∈ x.asleep, i ≠ sys.actor a := fun i mem same => awake (same ▸ mem)
  constructor
  · intro i mem
    obtain ⟨k, guard⟩ := h.waits i mem
    exact ⟨k, (others i (apart i mem)).trans guard⟩
  · intro k some_
    have before : (sleepers sys x.base x.asleep k).Nonempty := by
      obtain ⟨i, mem⟩ := some_
      obtain ⟨mem, there⟩ := Finset.mem_filter.mp mem
      exact ⟨i, Finset.mem_filter.mpr ⟨mem, (others i (apart i mem)).symm.trans there⟩⟩
    have notes : (x.owed ++ (sys.notes x.base a).map fun n => (sys.actor a, n)).map Prod.snd =
        x.owed.map Prod.snd ++ sys.notes x.base a := by
      rw [List.map_append, List.map_map]
      exact congrArg _ (List.map_id _)
    rw [notes, ones, notes, List.count_append]
    rcases acc.pays k good may with all | out | ⟨shut, pays⟩
    · exact Or.inl (List.mem_append_right _ all)
    · rcases h.enough k before with owed | ⟨shut, -⟩
      · exact Or.inl (List.mem_append_left _ owed)
      · exact absurd (out.symm.trans shut) (by simp)
    · rcases h.enough k before with owed | ⟨-, enough⟩
      · exact Or.inl (List.mem_append_left _ owed)
      · refine Or.inr ⟨shut, ?_⟩
        have rest : (crowd sys crew (sys.next x.base a) x.asleep k).erase (sys.actor a) =
            (crowd sys crew x.base x.asleep k).erase (sys.actor a) := by
          ext i
          simp only [crowd, Finset.mem_erase, Finset.mem_filter]
          refine and_congr_right fun other => ?_
          rw [others i other]
        rw [card_crowd awake (acc.crew good)] at enough
        rw [card_crowd awake (acc.crew (acc.keeps a good)), rest]
        rw [ones] at enough
        show chances (sys.next x.base a) k ≤ _
        omega

/-- **One step.** -/
theorem System.Accounts.covered_step (acc : sys.Accounts chances released crew P) (good : P x.base)
    (h : Covered sys chances released crew x) (step : Step sys x x') :
    P x'.base ∧ Covered sys chances released crew x' := by
  cases step with
  | idle => exact ⟨good, h⟩
  | sleep a k guard stuck =>
    obtain ⟨none_, shut⟩ := acc.sleeps good guard stuck
    exact ⟨good, h.sleep guard none_ shut⟩
  | go a awake may => exact ⟨acc.keeps a good, acc.go good h awake may⟩
  | wake i =>
    have fewer : x.asleep.erase i ⊆ x.asleep := Finset.erase_subset _ _
    exact ⟨good, h.fewer fewer fun k _ => ⟨id, Nat.add_le_add_right (Finset.card_le_card (crowd_mono fewer)) _⟩⟩
  | vain i k rest owed nobody =>
    refine ⟨good, h.fewer (Finset.Subset.refl _) fun k' some_ => ⟨all_cons owed nofun, ?_⟩⟩
    have other : Note.one k ≠ .one k' := by
      rintro ⟨⟩
      exact some_.ne_empty nobody
    rw [ones_cons owed, if_neg other]
    rfl
  | all i k rest owed =>
    have fewer : x.asleep \ sleepers sys x.base x.asleep k ⊆ x.asleep := Finset.sdiff_subset
    refine ⟨good, h.fewer fewer fun k' some_ => ?_⟩
    have other : k ≠ k' := by
      rintro rfl
      obtain ⟨j, mem⟩ := some_
      obtain ⟨mem, there⟩ := Finset.mem_filter.mp mem
      obtain ⟨mem, gone⟩ := Finset.mem_sdiff.mp mem
      exact gone (Finset.mem_filter.mpr ⟨mem, there⟩)
    refine ⟨all_cons owed fun same => other (Note.all.inj same), ?_⟩
    rw [ones_cons owed, if_neg nofun]
    exact Nat.add_le_add_right (Finset.card_le_card (crowd_mono fewer)) _
  | rouse i j k rest owed there =>
    have fewer : x.asleep.erase j ⊆ x.asleep := Finset.erase_subset _ _
    obtain ⟨mem, guard⟩ := Finset.mem_filter.mp there
    refine ⟨good, h.fewer fewer fun k' _ => ⟨all_cons owed nofun, ?_⟩⟩
    rw [ones_cons owed]
    by_cases same : k = k'
    · -- The notification is spent, and its thread is in the crowd.
      subst same
      rw [if_pos rfl]
      have joined : j ∈ crowd sys crew x.base (x.asleep.erase j) k :=
        Finset.mem_filter.mpr ⟨acc.crew good guard, guard, Finset.notMem_erase j _⟩
      have absent : j ∉ crowd sys crew x.base x.asleep k := fun there => (Finset.mem_filter.mp there).2.2 mem
      have size := Finset.card_le_card (Finset.insert_subset joined (crowd_mono fewer))
      rw [Finset.card_insert_of_notMem absent] at size
      omega
    · rw [if_neg fun eq => same (Note.one.inj eq)]
      exact Nat.add_le_add_right (Finset.card_le_card (crowd_mono fewer)) _

theorem covered_start (s : σ) : Covered sys chances released crew ⟨s, ∅, []⟩ where
  waits i mem := absurd mem (Finset.notMem_empty i)
  enough k some_ := by
    obtain ⟨i, mem⟩ := some_
    exact absurd (Finset.mem_filter.mp mem).1 (Finset.notMem_empty i)

/-- **Every run.** -/
theorem System.Accounts.covered_run (acc : sys.Accounts chances released crew P) (good : P x.base)
    (h : Covered sys chances released crew x) (acts : List (Act ι α)) :
    P (run (advance sys) x acts).base ∧ Covered sys chances released crew (run (advance sys) x acts) :=
  run_invariant (P := fun x => P x.base ∧ Covered sys chances released crew x)
    (fun x a ⟨good, h⟩ => acc.covered_step good h (advance_step sys x a)) ⟨good, h⟩ acts

/-- **No wakeup is lost.** If a sleeper could pass, then a notification of its condition variable is owed, or a
thread is awake there and will look. -/
theorem Covered.stirs (h : Covered sys chances released crew x) {i : ι} (mem : i ∈ x.asleep)
    (guard : sys.guard x.base i = some k) (over_ : released x.base k = true ∨ 0 < chances x.base k) :
    .all k ∈ x.owed.map Prod.snd ∨ .one k ∈ x.owed.map Prod.snd ∨
      ∃ j ∈ crew, sys.guard x.base j = some k ∧ j ∉ x.asleep := by
  rcases h.enough k ⟨i, Finset.mem_filter.mpr ⟨mem, guard⟩⟩ with owed | ⟨shut, enough⟩
  · exact Or.inl owed
  · have some_ : 0 < chances x.base k := over_.resolve_left (by simp [shut])
    rcases Nat.eq_zero_or_pos (ones x.owed k) with none_ | owes
    · rw [none_, Nat.add_zero] at enough
      obtain ⟨j, there⟩ := Finset.card_pos.mp (Nat.lt_of_lt_of_le some_ enough)
      exact Or.inr (Or.inr ⟨j, Finset.mem_filter.mp there⟩)
    · exact Or.inr (Or.inl (List.count_pos_iff.mp owes))

/-- Where all are released and nothing is owed, nobody sleeps. -/
theorem Covered.awake (h : Covered sys chances released crew x) (paid : x.owed = [])
    (out : ∀ k, released x.base k = true) (i : ι) : i ∉ x.asleep := by
  intro mem
  obtain ⟨k, guard⟩ := h.waits i mem
  rcases h.enough k ⟨i, Finset.mem_filter.mpr ⟨mem, guard⟩⟩ with owed | ⟨shut, -⟩
  · rw [paid] at owed
    cases owed
  · exact absurd ((out k).symm.trans shut) (by simp)

end Covered

/-! ## Coming to an end -/

section Ends
variable [DecidableEq ι] [DecidableEq κ] {sys : System ι κ σ α}

/-- What is owed can be paid off, without a step of the machine and without a thread that wakes by itself. -/
theorem settles (sys : System ι κ σ α) (x : House ι κ σ) :
    ∃ acts, (∀ i, .wake i ∉ acts) ∧ (run (advance sys) x acts).base = x.base ∧
      (run (advance sys) x acts).owed = [] := by
  generalize size : x.owed.length = n
  induction n generalizing x with
  | zero => exact ⟨[], fun _ => List.not_mem_nil, rfl, List.length_eq_zero_iff.mp size⟩
  | succ n ih =>
    obtain ⟨⟨i, note⟩, rest, owed⟩ := List.exists_cons_of_length_eq_add_one size
    have first : x.owed.find? (fun e => e.1 = i) = some (i, note) := by
      rw [owed, List.find?_cons_of_pos (by simp)]
    have tail : x.owed.eraseP (fun e => e.1 = i) = rest := by
      rw [owed, List.eraseP_cons_of_pos (by simp)]
    have shorter : rest.length = n := by simpa [owed] using size
    have pays : ∃ chosen asleep, advance sys x (.ring i chosen) = { x with asleep := asleep, owed := rest } := by
      cases note with
      | all k => exact ⟨none, _, by rw [advance, first, tail]⟩
      | one k =>
        rcases (sleepers sys x.base x.asleep k).eq_empty_or_nonempty with nobody | ⟨j, there⟩
        · exact ⟨none, x.asleep, by rw [advance, first, tail]; exact if_pos nobody⟩
        · exact ⟨some j, _, by rw [advance, first, tail]; exact if_pos there⟩
    obtain ⟨chosen, asleep, paid⟩ := pays
    obtain ⟨acts, rings, base, none_⟩ := ih { x with asleep := asleep, owed := rest } shorter
    refine ⟨.ring i chosen :: acts, fun j => by simp [rings j], ?_⟩
    rw [run_cons, paid]
    exact ⟨base, none_⟩

/-- A thread that is awake and owes nothing makes the step it may make. -/
theorem advance_go {x : House ι κ σ} {a : α} (awake : sys.actor a ∉ x.asleep) (paid : x.owed = [])
    (may : sys.guard x.base (sys.actor a) = none ∨ sys.passes x.base a = true) :
    (advance sys x (.go a)).base = sys.next x.base a := by
  rw [advance, if_neg (by simp [awake, paid]), if_pos may]

/-- **Coming to an end.** If some steps lower the measure wherever nothing is owed and the end is not reached, then
the end can be reached from every state. Only threads whose waits are `timed` need to wake by themselves. -/
theorem System.Accounts.comes_to_end {chances : σ → κ → Nat} {released : σ → κ → Bool} {crew : Finset ι} {P : σ → Prop}
    (acc : sys.Accounts chances released crew P) (timed : ι → Prop) (ended : σ → Prop) (measure : σ → Nat)
    (descends : ∀ x : House ι κ σ, P x.base → Covered sys chances released crew x → x.owed = [] → ¬ ended x.base →
      ∃ acts, (∀ i, .wake i ∈ acts → timed i) ∧ measure (run (advance sys) x acts).base < measure x.base)
    {x : House ι κ σ} (good : P x.base) (h : Covered sys chances released crew x) :
    ∃ more, (∀ i, .wake i ∈ more → timed i) ∧ P (run (advance sys) x more).base ∧
      ended (run (advance sys) x more).base := by
  have reached := reaches_end (advance sys) (P := fun x => P x.base ∧ Covered sys chances released crew x)
    (fun act => ∀ i, act = .wake i → timed i) (fun x => ended x.base) (fun x => measure x.base) ?_ ⟨good, h⟩
  · obtain ⟨more, kind, there⟩ := reached
    exact ⟨more, fun i mem => kind _ mem i rfl, (acc.covered_run good h more).1, there⟩
  · rintro x ⟨good, h⟩ unfinished
    obtain ⟨rings, none_, base, paid⟩ := settles sys x
    obtain ⟨good', h'⟩ := acc.covered_run good h rings
    obtain ⟨more, kind, lower⟩ := descends _ good' h' paid (base ▸ unfinished)
    refine ⟨rings ++ more, ?_, ?_⟩
    · rintro act mem i rfl
      exact kind i ((List.mem_append.mp mem).resolve_left (none_ i))
    · rw [run_append]
      exact ⟨acc.covered_run good' h' more, base ▸ lower⟩

end Ends

end Bells
