import Mathlib.Data.List.Basic

/-!
# Runs and histories

A machine is a function that takes one input; a run feeds it a list of them.
`run_invariant` is the one induction over runs, `Legal` restricts the inputs a
run may contain, `tally` counts inputs against a measure. A history is the list
of events a run has shown, newest last; `Each P` relates every event to the ones
before it.
-/

namespace Runs

section Machines
variable {σ ι : Type*}

/-- The state after a list of inputs. -/
def run (next : σ → ι → σ) (s : σ) (inputs : List ι) : σ := inputs.foldl next s

@[simp] theorem run_nil (next : σ → ι → σ) (s : σ) : run next s [] = s := rfl

@[simp] theorem run_cons (next : σ → ι → σ) (s : σ) (i : ι) (is : List ι) :
    run next s (i :: is) = run next (next s i) is := rfl

theorem run_append (next : σ → ι → σ) (s : σ) (is js : List ι) :
    run next s (is ++ js) = run next (run next s is) js :=
  List.foldl_append

/-- What holds at the start and survives every input holds after every run. -/
theorem run_invariant {next : σ → ι → σ} {P : σ → Prop} (step : ∀ s i, P s → P (next s i)) {s : σ}
    (start : P s) (inputs : List ι) : P (run next s inputs) := by
  induction inputs generalizing s with
  | nil => exact start
  | cons i is ih => exact ih (step s i start)

/-- A machine that may fail, and never does where the invariant holds, makes the plain run. -/
theorem foldlM_run {ε : Type*} {next : σ → ι → σ} {attempt : σ → ι → Except ε σ} {P : σ → Prop}
    (step : ∀ s i, P s → P (next s i)) (agrees : ∀ s i, P s → attempt s i = .ok (next s i)) {s : σ} (start : P s)
    (inputs : List ι) : inputs.foldlM attempt s = .ok (run next s inputs) := by
  induction inputs generalizing s with
  | nil => rfl
  | cons i is ih =>
    rw [List.foldlM_cons, agrees s i start]
    exact ih (step s i start)

/-- Every input of the run is allowed in the state that meets it. -/
def Legal (allowed : σ → ι → Prop) (next : σ → ι → σ) : σ → List ι → Prop
  | _, [] => True
  | s, i :: is => allowed s i ∧ Legal allowed next (next s i) is

instance decidableLegal (allowed : σ → ι → Prop) (next : σ → ι → σ) [∀ s i, Decidable (allowed s i)] :
    ∀ (s : σ) (inputs : List ι), Decidable (Legal allowed next s inputs)
  | _, [] => .isTrue trivial
  | s, i :: is =>
    have := decidableLegal allowed next (next s i) is
    inferInstanceAs (Decidable (allowed s i ∧ Legal allowed next (next s i) is))

theorem legal_append {allowed : σ → ι → Prop} {next : σ → ι → σ} {s : σ} {is js : List ι} :
    Legal allowed next s (is ++ js) ↔ Legal allowed next s is ∧ Legal allowed next (run next s is) js := by
  induction is generalizing s with
  | nil => simp [Legal]
  | cons i is ih => simp [Legal, ih, and_assoc]

theorem Legal.invariant {allowed : σ → ι → Prop} {next : σ → ι → σ} {P : σ → Prop}
    (step : ∀ s i, P s → allowed s i → P (next s i)) {s : σ} (start : P s) {inputs : List ι}
    (legal : Legal allowed next s inputs) : P (run next s inputs) := by
  induction inputs generalizing s with
  | nil => exact start
  | cons i is ih => exact ih (step s i start legal.1) legal.2

/-- A run is legal if each input is allowed where the inputs before it lead. -/
theorem legal_of_splits {allowed : σ → ι → Prop} {next : σ → ι → σ} {s : σ} {inputs : List ι}
    (each : ∀ past i rest, inputs = past ++ i :: rest → allowed (run next s past) i) :
    Legal allowed next s inputs := by
  induction inputs generalizing s with
  | nil => trivial
  | cons i is ih =>
    refine ⟨each [] i is rfl, ih fun past j rest split => ?_⟩
    exact each (i :: past) j rest (by rw [split]; rfl)

/-- **Purging.** Inputs that change nothing in view may be left out: what remains
leads to the same view. -/
theorem run_purge {next : σ → ι → σ} {view : σ → σ → Prop} {keep : ι → Bool}
    (kept : ∀ s t i, keep i = true → view s t → view (next s i) (next t i)) {s t : σ} (start : view s t)
    {inputs : List ι} (hidden : Legal (fun s i => keep i = false → ∀ t, view s t → view (next s i) t) next s inputs) :
    view (run next s inputs) (run next t (inputs.filter keep)) := by
  induction inputs generalizing s t with
  | nil => exact start
  | cons i is ih =>
    cases keeps : keep i with
    | true =>
      rw [List.filter_cons_of_pos keeps]
      exact ih (kept s t i keeps start) hidden.2
    | false =>
      rw [List.filter_cons_of_neg (by simp [keeps])]
      exact ih (hidden.1 keeps t start) hidden.2

/-- How many inputs of a run count in the state that meets them. -/
def tally (counts : σ → ι → Bool) (next : σ → ι → σ) : σ → List ι → Nat
  | _, [] => 0
  | s, i :: is => (counts s i).toNat + tally counts next (next s i) is

/-- **Spending.** If every input that counts costs one as long as the run has not
halted, then a run that has not halted has paid for all that counted. -/
theorem tally_le {counts : σ → ι → Bool} {next : σ → ι → σ} {halted : σ → Prop} {measure : σ → Nat}
    (stays : ∀ s i, halted s → halted (next s i)) {s : σ} {inputs : List ι}
    (spends : Legal (fun s i => ¬ halted s → measure (next s i) + (counts s i).toNat ≤ measure s) next s inputs)
    (goes_on : ¬ halted (run next s inputs)) :
    measure (run next s inputs) + tally counts next s inputs ≤ measure s := by
  induction inputs generalizing s with
  | nil => simp [tally]
  | cons i is ih =>
    have before : ¬ halted s := fun already => goes_on (run_invariant stays (stays s i already) is)
    have here := spends.1 before
    have later := ih spends.2 goes_on
    simp only [run_cons, tally] at later ⊢
    omega

/-- **The ranked rule.** If some inputs lower the measure from wherever the end is not reached, some inputs reach it,
and none but those of the allowed kind are needed. -/
theorem reaches_end (next : σ → ι → σ) {P : σ → Prop} (allowed : ι → Prop) (ended : σ → Prop) (measure : σ → Nat)
    (progress : ∀ s, P s → ¬ ended s → ∃ inputs, (∀ i ∈ inputs, allowed i) ∧ P (run next s inputs) ∧
      measure (run next s inputs) < measure s)
    {s : σ} (start : P s) : ∃ inputs, (∀ i ∈ inputs, allowed i) ∧ ended (run next s inputs) := by
  generalize rank : measure s = n
  induction n using Nat.strongRecOn generalizing s with
  | ind n ih =>
    by_cases done : ended s
    · exact ⟨[], by simp, done⟩
    · obtain ⟨inputs, kind, holds, lower⟩ := progress s start done
      obtain ⟨more, kind', reached⟩ := ih _ (rank ▸ lower) holds rfl
      refine ⟨inputs ++ more, List.forall_mem_append.mpr ⟨kind, kind'⟩, ?_⟩
      rwa [run_append]

end Machines

section Histories
variable {α : Type*}

/-- Every event stands in relation `P` to the events before it. -/
def Each (P : List α → α → Prop) (t : List α) : Prop :=
  ∀ past e rest, t = past ++ e :: rest → P past e

/-- A longer history: each new event is checked against everything before it. -/
theorem Each.append {P : List α → α → Prop} {t new : List α} (old : Each P t)
    (fresh : Each (fun past e => P (t ++ past) e) new) : Each P (t ++ new) := by
  intro past e rest split
  rcases List.append_eq_append_iff.mp split with ⟨m, rfl, shape⟩ | ⟨m, rfl, shape⟩
  · exact fresh m e rest shape
  · cases m with
    | nil =>
      have := fresh [] e rest (by simpa using shape.symm)
      simpa using this
    | cons e' m =>
      obtain ⟨rfl, -⟩ := List.cons.inj shape
      exact old past e m rfl

theorem each_singleton {P : List α → α → Prop} {e : α} (h : P [] e) : Each P [e] := by
  intro past e' rest split
  cases past with
  | nil =>
    obtain ⟨rfl, -⟩ := List.cons.inj split
    exact h
  | cons x past =>
    obtain ⟨-, tail⟩ := List.cons.inj split
    simp at tail

/-- One more event. -/
theorem Each.concat {P : List α → α → Prop} {t : List α} {e : α} (old : Each P t) (new : P t e) :
    Each P (t ++ [e]) :=
  old.append (each_singleton (by simpa using new))

/-- Events that are fine whatever came before. -/
theorem each_of_forall {P : List α → α → Prop} {t : List α} (h : ∀ e ∈ t, ∀ past, P past e) : Each P t := by
  intro past e rest split
  exact h e (by rw [split]; simp) past

end Histories

end Runs
