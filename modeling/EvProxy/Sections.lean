import EvProxy.Runs
import Mathlib.Data.Set.Subsingleton
import Mathlib.Logic.Function.Iterate

/-!
# Methods behind a lock

An object whose methods are written as statements on shared fields. Threads call
the methods and their statements interleave. An object may be locked, and then a
thread enters a method only when no thread is inside one, or it may leave the
lock out. If it is locked, or if one thread alone uses it, then the statements of
a method are never mixed with those of another, and the calls that have returned
are a sequential history (`Object.Implements.serial_run`).
-/

namespace Sections
open Runs

variable {ι ο σ φ ρ : Type*}

/-! ## Bodies -/

/-- The bodies of an object's methods. `step` is one statement, at a point `φ` of a
body and on the fields `σ`; `result` says which points are returns, and of what. -/
structure Body (σ φ ρ : Type*) where
  step : φ → σ → φ × σ
  result : φ → Option ρ

namespace Body
variable (b : Body σ φ ρ)

/-- The next statement; there is none after a return. -/
def advance (x : φ × σ) : φ × σ := if (b.result x.1).isSome then x else b.step x.1 x.2

/-- Some statements lead from one point to the other. -/
def Reaches (x y : φ × σ) : Prop := ∃ n, b.advance^[n] x = y

/-- The method that is at `f` returns `r` and leaves the fields at `s'`. -/
def Returns (f : φ) (s : σ) (r : ρ) (s' : σ) : Prop := ∃ f', b.Reaches (f, s) (f', s') ∧ b.result f' = some r

variable {b} {f : φ} {s s' : σ} {r : ρ}

theorem reaches_refl (x : φ × σ) : b.Reaches x x := ⟨0, rfl⟩

theorem Reaches.next {x y : φ × σ} (h : b.Reaches x y) : b.Reaches x (b.advance y) := by
  obtain ⟨n, rfl⟩ := h
  exact ⟨n + 1, Function.iterate_succ_apply' _ _ _⟩

theorem returned (here : b.result f = some r) : b.Returns f s r s := ⟨f, reaches_refl _, here⟩

/-- A statement, and then the rest. -/
theorem Returns.step (goes_on : b.result f = none) (rest : b.Returns (b.step f s).1 (b.step f s).2 r s') :
    b.Returns f s r s' := by
  obtain ⟨f', ⟨n, reached⟩, result⟩ := rest
  refine ⟨f', ⟨n + 1, ?_⟩, result⟩
  rw [Function.iterate_succ_apply, advance, if_neg (by simp [goes_on])]
  exact reached

/-- Nothing moves after a return. -/
theorem advance_result {x : φ × σ} (here : b.result x.1 = some r) (n : Nat) : b.advance^[n] x = x := by
  refine Function.iterate_fixed ?_ n
  rw [advance, if_pos (by simp [here])]

/-- What a method has still to do. -/
theorem Reaches.returns {g : φ} {t : σ} (reached : b.Reaches (f, s) (g, t)) (returns : b.Returns f s r s') :
    b.Returns g t r s' := by
  obtain ⟨n, at_n⟩ := reached
  obtain ⟨f', ⟨m, at_m⟩, result⟩ := returns
  refine ⟨f', ?_, result⟩
  rcases Nat.le_total n m with le | le
  · refine ⟨m - n, ?_⟩
    rw [← at_n, ← Function.iterate_add_apply, Nat.sub_add_cancel le, at_m]
  · rw [← Nat.sub_add_cancel le, Function.iterate_add_apply, at_m, advance_result result] at at_n
    exact ⟨0, at_n.symm⟩

theorem Returns.result {r' : ρ} (returns : b.Returns f s r s') (here : b.result f = some r') : r' = r ∧ s = s' := by
  obtain ⟨f', ⟨n, at_n⟩, result⟩ := returns
  rw [advance_result here] at at_n
  obtain ⟨rfl, rfl⟩ := Prod.mk.inj at_n
  exact ⟨Option.some.inj (here.symm.trans result), rfl⟩

end Body

/-! ## The object and its threads -/

/-- An object with operations `ο`: where the body of each begins, and whether there is a lock. -/
structure Object (ο σ φ ρ : Type*) extends Body σ φ ρ where
  entry : ο → φ
  locked : Bool

inductive Stage (ο φ : Type*) where
  | outside
  /-- In the call, before the lock is taken. -/
  | called (op : ο)
  | inside (op : ο) (point : φ)

/-- The threads at one object. `history` has the calls that have returned, in the order of their returns. -/
structure Monitor (ι ο σ φ ρ : Type*) where
  fields : σ
  holder : Option ι := none
  threads : ι → Stage ο φ := fun _ => .outside
  history : List (ι × ο × ρ) := []

inductive Act (ι ο : Type*) where
  | call (i : ι) (op : ο)
  | enter (i : ι)
  | step (i : ι)
  | leave (i : ι)

def Act.thread : Act ι ο → ι
  | .call i _ | .enter i | .step i | .leave i => i

section Machine
variable [DecidableEq ι] (o : Object ο σ φ ρ)

def Monitor.set (m : Monitor ι ο σ φ ρ) (i : ι) (stage : Stage ο φ) : Monitor ι ο σ φ ρ :=
  { m with threads := Function.update m.threads i stage }

/-- Thread `i` is at another point of its method, with the fields it left. -/
def Monitor.move (m : Monitor ι ο σ φ ρ) (i : ι) (op : ο) (x : φ × σ) : Monitor ι ο σ φ ρ :=
  { m with fields := x.2, threads := Function.update m.threads i (.inside op x.1) }

/-- One step of one thread. An act its thread cannot take changes nothing. -/
def Object.next (m : Monitor ι ο σ φ ρ) : Act ι ο → Monitor ι ο σ φ ρ
  | .call i op =>
    match m.threads i with
    | .outside => m.set i (.called op)
    | _ => m
  | .enter i =>
    match m.threads i with
    | .called op =>
      if o.locked then
        if m.holder.isSome then m else { m.set i (.inside op (o.entry op)) with holder := some i }
      else m.set i (.inside op (o.entry op))
    | _ => m
  | .step i =>
    match m.threads i with
    | .inside op f => m.move i op (o.advance (f, m.fields))
    | _ => m
  | .leave i =>
    match m.threads i with
    | .inside op f =>
      match o.result f with
      | none => m
      | some r =>
        { m.set i .outside with
          holder := if o.locked then none else m.holder
          history := m.history ++ [(i, op, r)] }
    | _ => m

/-- What a step can be. -/
inductive Object.Step (m : Monitor ι ο σ φ ρ) : ι → Monitor ι ο σ φ ρ → Prop where
  | idle (i : ι) : Step m i m
  | call (i : ι) (op : ο) (out : m.threads i = .outside) : Step m i (m.set i (.called op))
  | lock (i : ι) (op : ο) (waits : m.threads i = .called op) (locked : o.locked = true) (free : m.holder = none) :
      Step m i { m.set i (.inside op (o.entry op)) with holder := some i }
  | enter (i : ι) (op : ο) (waits : m.threads i = .called op) (open_ : o.locked = false) :
      Step m i (m.set i (.inside op (o.entry op)))
  | step (i : ι) (op : ο) (f : φ) (inside : m.threads i = .inside op f) :
      Step m i (m.move i op (o.advance (f, m.fields)))
  | leave (i : ι) (op : ο) (f : φ) (r : ρ) (inside : m.threads i = .inside op f) (result : o.result f = some r) :
      Step m i { m.set i .outside with
        holder := if o.locked then none else m.holder
        history := m.history ++ [(i, op, r)] }

theorem Object.next_step (m : Monitor ι ο σ φ ρ) (a : Act ι ο) : o.Step m a.thread (o.next m a) := by
  cases a with
  | call i op =>
    rw [next]
    cases stage : m.threads i with
    | outside => exact .call i op stage
    | called | inside => exact .idle i
  | enter i =>
    rw [next]
    cases stage : m.threads i with
    | outside | inside => exact .idle i
    | called op =>
      cases locked : o.locked with
      | false => exact .enter i op stage locked
      | true =>
        cases free : m.holder with
        | some j => exact .idle i
        | none => exact .lock i op stage locked free
  | step i =>
    rw [next]
    cases stage : m.threads i with
    | outside | called => exact .idle i
    | inside op f => exact .step i op f stage
  | leave i =>
    rw [next]
    cases stage : m.threads i with
    | outside | called => exact .idle i
    | inside op f =>
      dsimp only
      cases result : o.result f with
      | none => exact .idle i
      | some r => exact .leave i op f r stage result

end Machine

/-! ## Sequential histories -/

/-- What the operations do when each is one step. -/
structure Spec (ο σ ρ : Type*) where
  apply : σ → ο → σ
  answer : σ → ο → ρ

namespace Spec
variable (spec : Spec ο σ ρ)

/-- The operations with the answers they get one after the other. -/
def record : σ → List ο → List (ο × ρ)
  | _, [] => []
  | s, op :: ops => (op, spec.answer s op) :: record (spec.apply s op) ops

theorem record_concat (s : σ) (ops : List ο) (op : ο) :
    spec.record s (ops ++ [op]) = spec.record s ops ++ [(op, spec.answer (run spec.apply s ops) op)] := by
  induction ops generalizing s with
  | nil => rfl
  | cons op' ops ih =>
    rw [List.cons_append, record, ih]
    rfl

end Spec

/-- Alone, every body does and returns what the specification says, wherever `Good` holds. -/
structure Object.Implements (o : Object ο σ φ ρ) (spec : Spec ο σ ρ) (Good : σ → Prop) : Prop where
  returns (s : σ) (op : ο) : Good s → o.Returns (o.entry op) s (spec.answer s op) (spec.apply s op)
  keeps (s : σ) (op : ο) : Good s → Good (spec.apply s op)

/-- The operations that have returned. -/
def Monitor.ops (m : Monitor ι ο σ φ ρ) : List ο := m.history.map fun e => e.2.1

/-- The threads that may use an object: any, if it is locked, and at most one if not. -/
def Object.Guarded (o : Object ο σ φ ρ) (users : Set ι) : Prop := o.locked = true ∨ users.Subsingleton

/-- What holds in every interleaving. The fields are where the history leads, but for the statements that the
one thread inside has made since it entered. -/
structure Object.Serial (o : Object ο σ φ ρ) (spec : Spec ο σ ρ) (users : Set ι) (s : σ) (m : Monitor ι ο σ φ ρ) :
    Prop where
  recorded : m.history.map Prod.snd = spec.record s m.ops
  alone (i j : ι) (op op' : ο) (f f' : φ) : m.threads i = .inside op f → m.threads j = .inside op' f' → i = j
  within (i : ι) (op : ο) (f : φ) :
    m.threads i = .inside op f → o.Reaches (o.entry op, run spec.apply s m.ops) (f, m.fields)
  idle : (∀ i op f, m.threads i ≠ .inside op f) → m.fields = run spec.apply s m.ops
  holder (i : ι) (op : ο) (f : φ) : o.locked = true → m.threads i = .inside op f → m.holder = some i
  users (i : ι) : m.threads i ≠ .outside → i ∈ users

theorem Object.serial_start (o : Object ο σ φ ρ) (spec : Spec ο σ ρ) (users : Set ι) (s : σ) :
    o.Serial spec users s ⟨s, none, fun _ => .outside, []⟩ where
  recorded := rfl
  alone := nofun
  within := nofun
  idle _ := rfl
  holder := nofun
  users _ := fun busy => absurd rfl busy

section Serial
variable [DecidableEq ι] {o : Object ο σ φ ρ} {spec : Spec ο σ ρ} {Good : σ → Prop} {users : Set ι} {s : σ}
  {m m' : Monitor ι ο σ φ ρ} {i : ι}

theorem Monitor.set_threads (m : Monitor ι ο σ φ ρ) (i j : ι) (stage : Stage ο φ) :
    (m.set i stage).threads j = if j = i then stage else m.threads j :=
  Function.update_apply ..

theorem Monitor.move_threads (m : Monitor ι ο σ φ ρ) (i j : ι) (op : ο) (x : φ × σ) :
    (m.move i op x).threads j = if j = i then .inside op x.1 else m.threads j :=
  Function.update_apply ..

theorem Monitor.move_move (m : Monitor ι ο σ φ ρ) (i : ι) (op : ο) (x y : φ × σ) :
    (m.move i op x).move i op y = m.move i op y := by
  rw [move, move, Function.update_idem]
  rfl

/-- A thread goes in, and finds nobody there. -/
theorem Object.Serial.enters (h : o.Serial spec users s m) {op : ο} (waits : m.threads i = .called op)
    (nobody : ∀ j op f, m.threads j ≠ .inside op f) (holder : Option ι)
    (held : o.locked = true → holder = some i) :
    o.Serial spec users s { m.set i (.inside op (o.entry op)) with holder := holder } := by
  have only : ∀ j op' f', (m.set i (.inside op (o.entry op))).threads j = .inside op' f' →
      j = i ∧ op' = op ∧ f' = o.entry op := by
    intro j op' f' inside
    rw [m.set_threads] at inside
    split at inside
    · rename_i same
      cases inside
      exact ⟨same, rfl, rfl⟩
    · exact absurd inside (nobody j op' f')
  constructor
  · exact h.recorded
  · intro j k op₁ op₂ f₁ f₂ at_j at_k
    exact (only j op₁ f₁ at_j).1.trans (only k op₂ f₂ at_k).1.symm
  · intro j op' f' inside
    obtain ⟨rfl, rfl, rfl⟩ := only j op' f' inside
    show o.Reaches (o.entry op', run spec.apply s m.ops) (o.entry op', m.fields)
    rw [h.idle nobody]
    exact Body.reaches_refl _
  · intro empty
    exact absurd (m.set_threads i i _ ▸ if_pos rfl) (empty i op (o.entry op))
  · intro j op' f' locked inside
    obtain ⟨rfl, -, -⟩ := only j op' f' inside
    exact held locked
  · intro j busy
    simp only [m.set_threads] at busy
    split at busy
    · rename_i same
      exact same ▸ h.users i (by simp [waits])
    · exact h.users j busy

/-- **One step of one thread.** -/
theorem Object.Implements.serial_step (impl : o.Implements spec Good) (guarded : o.Guarded users) (good : Good s)
    (h : o.Serial spec users s m) (may : i ∈ users) (step : o.Step m i m') : o.Serial spec users s m' := by
  cases step with
  | idle => exact h
  | call op out =>
    have still : ∀ j op' f, (m.set i (.called op)).threads j = .inside op' f → m.threads j = .inside op' f := by
      intro j op' f inside
      rw [m.set_threads] at inside
      split at inside
      · cases inside
      · exact inside
    constructor
    · exact h.recorded
    · intro j k op₁ op₂ f₁ f₂ at_j at_k
      exact h.alone j k op₁ op₂ f₁ f₂ (still _ _ _ at_j) (still _ _ _ at_k)
    · intro j op' f inside
      exact h.within j op' f (still _ _ _ inside)
    · intro empty
      refine h.idle fun j op' f inside => empty j op' f ?_
      have other : j ≠ i := by
        rintro rfl
        rw [out] at inside
        cases inside
      rw [m.set_threads, if_neg other]
      exact inside
    · intro j op' f locked inside
      exact h.holder j op' f locked (still _ _ _ inside)
    · intro j busy
      rw [m.set_threads] at busy
      split at busy
      · rename_i same
        exact same ▸ may
      · exact h.users j busy
  | lock op waits locked free =>
    refine h.enters waits (fun j op' f inside => ?_) (some i) fun _ => rfl
    have held := h.holder j op' f locked inside
    rw [free] at held
    cases held
  | enter op waits open_ =>
    refine h.enters waits (fun j op' f inside => ?_) m.holder fun locked => absurd (open_.symm.trans locked) (by simp)
    -- Without the lock both threads are the one user, and it is not inside.
    rcases guarded with locked | single
    · exact absurd (open_.symm.trans locked) (by simp)
    · have same := single (h.users j (by simp [inside])) may
      rw [same, waits] at inside
      cases inside
  | step op f inside =>
    have only : ∀ j op' f', (m.move i op (o.advance (f, m.fields))).threads j = .inside op' f' →
        j = i ∧ op' = op ∧ f' = (o.advance (f, m.fields)).1 := by
      intro j op' f' there
      rw [m.move_threads] at there
      split at there
      · rename_i same
        cases there
        exact ⟨same, rfl, rfl⟩
      · rename_i other
        exact absurd (h.alone j i _ _ _ _ there inside) other
    constructor
    · exact h.recorded
    · intro j k op₁ op₂ f₁ f₂ at_j at_k
      exact (only j op₁ f₁ at_j).1.trans (only k op₂ f₂ at_k).1.symm
    · intro j op' f' there
      obtain ⟨rfl, rfl, rfl⟩ := only j op' f' there
      exact (h.within j op' f inside).next
    · intro empty
      exact absurd ((m.move_threads i i op _).trans (if_pos rfl)) (empty i op _)
    · intro j op' f' locked there
      obtain ⟨rfl, -, -⟩ := only j op' f' there
      exact h.holder j op f locked inside
    · intro j busy
      refine h.users j fun out => ?_
      rw [m.move_threads] at busy
      split at busy
      · rename_i same
        rw [same, inside] at out
        cases out
      · exact busy out
  | leave op f r inside result =>
    have base : Good (run spec.apply s m.ops) := run_invariant impl.keeps good m.ops
    obtain ⟨answer, fields⟩ := ((h.within i op f inside).returns (impl.returns _ op base)).result result
    have nobody : ∀ j op' f', (m.set i .outside).threads j ≠ .inside op' f' := by
      intro j op' f' there
      rw [m.set_threads] at there
      split at there
      · cases there
      · rename_i other
        exact other (h.alone j i _ _ _ _ there inside)
    have ops : (m.history ++ [(i, op, r)]).map (fun e => e.2.1) = m.ops ++ [op] := List.map_append
    constructor
    · show (m.history ++ [(i, op, r)]).map Prod.snd = spec.record s ((m.history ++ [(i, op, r)]).map fun e => e.2.1)
      rw [ops, spec.record_concat, List.map_append, h.recorded, answer]
      rfl
    · intro j k op₁ op₂ f₁ f₂ at_j
      exact absurd at_j (nobody j op₁ f₁)
    · intro j op' f' there
      exact absurd there (nobody j op' f')
    · intro _
      show m.fields = run spec.apply s ((m.history ++ [(i, op, r)]).map fun e => e.2.1)
      rw [ops, run_append]
      exact fields
    · intro j op' f' _ there
      exact absurd there (nobody j op' f')
    · intro j busy
      refine h.users j fun out => ?_
      simp only [m.set_threads] at busy
      split at busy
      · exact busy rfl
      · exact busy out

/-- **Every interleaving.** -/
theorem Object.Implements.serial_run (impl : o.Implements spec Good) (guarded : o.Guarded users) (good : Good s)
    {acts : List (Act ι ο)} (may : ∀ a ∈ acts, a.thread ∈ users) :
    o.Serial spec users s (run o.next ⟨s, none, fun _ => .outside, []⟩ acts) := by
  have legal : Legal (fun _ a => a.thread ∈ users) o.next ⟨s, none, fun _ => .outside, []⟩ acts := by
    refine legal_of_splits fun past a rest split => may a ?_
    rw [split]
    simp
  exact legal.invariant (fun m a h may => impl.serial_step guarded good h may (o.next_step m a))
    (o.serial_start spec users s)

/-- A thread inside makes its statements, whatever the others wait for. -/
theorem Object.run_steps (o : Object ο σ φ ρ) {op : ο} {f : φ} (inside : m.threads i = .inside op f) (n : Nat) :
    run o.next m (List.replicate n (.step i)) = m.move i op (o.advance^[n] (f, m.fields)) := by
  induction n generalizing m f with
  | zero =>
    have same : Function.update m.threads i (.inside op f) = m.threads := inside ▸ Function.update_eq_self i _
    rw [List.replicate_zero, run_nil, Function.iterate_zero, id, Monitor.move, same]
  | succ n ih =>
    have first : o.next m (.step i) = m.move i op (o.advance (f, m.fields)) := by rw [next, inside]
    rw [List.replicate_succ, run_cons, first, ih ((m.move_threads i i op _).trans (if_pos rfl)), m.move_move,
      Function.iterate_succ_apply]
    rfl

/-- **Whoever is inside can come out** by its own statements, with the answer of the sequential history. -/
theorem Object.Serial.comes_out (impl : o.Implements spec Good) (good : Good s) (h : o.Serial spec users s m) {op : ο}
    {f : φ} (inside : m.threads i = .inside op f) :
    ∃ n, (run o.next m (List.replicate n (.step i) ++ [.leave i])).history =
      m.history ++ [(i, op, spec.answer (run spec.apply s m.ops) op)] := by
  have base : Good (run spec.apply s m.ops) := run_invariant impl.keeps good m.ops
  obtain ⟨f', ⟨n, at_n⟩, result⟩ := (h.within i op f inside).returns (impl.returns _ op base)
  refine ⟨n, ?_⟩
  rw [run_append, o.run_steps inside n, at_n, run_cons, run_nil, next]
  simp only [m.move_threads, if_pos, result]
  rfl

end Serial

end Sections
