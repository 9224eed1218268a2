import EvProxy.Runs

/-!
# Programs that ask and wait

A program puts questions to its surroundings one at a time and goes on with the
answers. It is run on the answers still to come, leaves those it did not need,
and keeps a transcript; it has no result while an answer is missing. `askUntil`
is the loop that repeats a question until an answer settles it.

`Triple` is the rule of reasoning: a ghost state follows the transcript, the
surroundings keep a promise about their answers, and the program keeps one about
its questions. `Can` is the other direction: a transcript the program does make.
-/

namespace Dialogue
open Runs

/-- A program with result `α`: the result, the transcript and the answers left. -/
def Program (Q A : Type) (α : Type) : Type := List A → Option (α × List (Q × A) × List A)

section Programs
variable {Q A α β : Type}

instance : Monad (Program Q A) where
  pure a := fun answers => some (a, [], answers)
  bind p f := fun answers => (p answers).bind fun r =>
    (f r.1 r.2.2).map fun s => (s.1, r.2.1 ++ s.2.1, s.2.2)

/-- Ask until `settle` makes something of an answer. -/
def askUntil (q : Q) (settle : A → Option α) : Program Q A α
  | [] => none
  | a :: rest => (settle a).elim
      ((askUntil q settle rest).map fun r => (r.1, (q, a) :: r.2.1, r.2.2))
      fun b => some (b, [(q, a)], rest)

/-- Ask once. -/
def ask (q : Q) : Program Q A A := askUntil q some

/-- At most `n` rounds of a loop whose body says whether to go on. -/
def loopWithin (body : α → Program Q A (Bool × α)) : Nat → α → Program Q A α
  | 0, _ => fun _ => none
  | n + 1, a => do
    let r ← body a
    if r.1 then loopWithin body n r.2 else pure r.2

/-- The loop. A round that goes on has asked something, so the answers bound the rounds. -/
def loop (body : α → Program Q A (Bool × α)) (a : α) : Program Q A α :=
  fun answers => loopWithin body (answers.length + 1) a answers

theorem bind_run {p : Program Q A α} {answers middle : List A} {a : α} {log : List (Q × A)}
    (ran : p answers = some (a, log, middle)) (f : α → Program Q A β) :
    (p >>= f) answers = (f a middle).map fun s => (s.1, log ++ s.2.1, s.2.2) := by
  simp only [Bind.bind, ran, Option.bind_some]

theorem bind_eq_some {p : Program Q A α} {f : α → Program Q A β} {answers rest : List A} {b : β}
    {log : List (Q × A)} (done : (p >>= f) answers = some (b, log, rest)) :
    ∃ a first middle second, p answers = some (a, first, middle) ∧ f a middle = some (b, second, rest) ∧
      log = first ++ second := by
  obtain ⟨⟨a, first, middle⟩, ran, more⟩ := Option.bind_eq_some_iff.mp done
  obtain ⟨⟨b', second, rest'⟩, ran', same⟩ := Option.map_eq_some_iff.mp more
  cases same
  exact ⟨a, first, middle, second, ran, ran', rfl⟩

end Programs

/-! ## What holds of every transcript -/

section Rules
variable {Q A α β σ : Type}

/-- The ghost state of a transcript, what the surroundings promise of an answer
and what the program promises of a question. -/
structure Terms (Q A σ : Type) where
  follow : σ → Q × A → σ
  fair : σ → Q × A → Prop
  proper : σ → Q × A → Prop

/-- From the ghost state `s`, while the answers are fair, every question is
proper, and `R` holds of the result and the ghost state at the end. -/
def Triple (t : Terms Q A σ) (s : σ) (p : Program Q A α) (R : α → σ → Prop) : Prop :=
  ∀ answers rest a log, p answers = some (a, log, rest) → Legal t.fair t.follow s log →
    Legal t.proper t.follow s log ∧ R a (run t.follow s log)

variable {t : Terms Q A σ} {s : σ} {R R' : α → σ → Prop}

theorem Triple.pure {a : α} (post : R a s) : Triple t s (Pure.pure a) R := by
  intro answers rest a' log done fair
  cases done
  exact ⟨trivial, post⟩

theorem Triple.bind {S : β → σ → Prop} {p : Program Q A α} {f : α → Program Q A β} (first : Triple t s p R)
    (second : ∀ a s', R a s' → Triple t s' (f a) S) : Triple t s (p >>= f) S := by
  intro answers rest b log done fair
  obtain ⟨a, log₁, middle, log₂, ran, ran', rfl⟩ := bind_eq_some done
  obtain ⟨fair₁, fair₂⟩ := legal_append.mp fair
  obtain ⟨proper₁, mid⟩ := first _ _ _ _ ran fair₁
  obtain ⟨proper₂, post⟩ := second a _ mid _ _ _ _ ran' fair₂
  rw [run_append]
  exact ⟨legal_append.mpr ⟨proper₁, proper₂⟩, post⟩

theorem Triple.conseq {p : Program Q A α} (h : Triple t s p R) (post : ∀ a s', R a s' → R' a s') :
    Triple t s p R' := by
  intro answers rest a log done fair
  obtain ⟨proper, result⟩ := h _ _ _ _ done fair
  exact ⟨proper, post _ _ result⟩

/-- What is known of the result under other terms, if those terms ask no more of the surroundings. -/
theorem Triple.also {τ : Type} {u : Terms Q A τ} {r : τ} {S : α → τ → Prop} {p : Program Q A α} (h : Triple t s p R)
    (other : Triple u r p S) (fairer : ∀ log, Legal t.fair t.follow s log → Legal u.fair u.follow r log) :
    Triple t s p fun a s' => R a s' ∧ ∃ r', S a r' := by
  intro answers rest a log done fair
  obtain ⟨proper, result⟩ := h _ _ _ _ done fair
  exact ⟨proper, result, _, (other _ _ _ _ done (fairer log fair)).2⟩

/-- The loop around a question: `I` is its invariant. -/
theorem Triple.askUntil {q : Q} {settle : A → Option α} (I : σ → Prop) (start : I s)
    (proper : ∀ s a, I s → t.fair s (q, a) → t.proper s (q, a))
    (again : ∀ s a, I s → t.fair s (q, a) → settle a = none → I (t.follow s (q, a)))
    (settled : ∀ s a b, I s → t.fair s (q, a) → settle a = some b → R b (t.follow s (q, a))) :
    Triple t s (askUntil q settle) R := by
  intro answers rest b log done fair
  -- The loop's own recursion is on the answers still to come.
  induction answers generalizing s log with
  | nil => cases done
  | cons a answers ih =>
    rw [Dialogue.askUntil] at done
    cases here : settle a with
    | some b' =>
      rw [here] at done
      cases done
      exact ⟨⟨proper s a start fair.1, trivial⟩, settled s a b start fair.1 here⟩
    | none =>
      rw [here] at done
      obtain ⟨⟨b', log', rest'⟩, ran, same⟩ := Option.map_eq_some_iff.mp done
      cases same
      obtain ⟨properly, result⟩ := ih (again s a start fair.1 here) _ ran fair.2
      exact ⟨⟨proper s a start fair.1, properly⟩, result⟩

theorem Triple.ask {q : Q} {R : A → σ → Prop} (proper : ∀ a, t.fair s (q, a) → t.proper s (q, a))
    (post : ∀ a, t.fair s (q, a) → R a (t.follow s (q, a))) : Triple t s (ask q) R := by
  refine .askUntil (· = s) rfl ?_ (fun _ _ _ _ impossible => by cases impossible) ?_
  · rintro _ a rfl fair
    exact proper a fair
  · rintro _ a b rfl fair same
    cases same
    exact post a fair

/-- The loop over a program: `I` is its invariant. -/
theorem Triple.loop {body : α → Program Q A (Bool × α)} (I : α → σ → Prop) {a : α} (start : I a s)
    (round : ∀ a s, I a s → Triple t s (body a) fun r s' => if r.1 then I r.2 s' else R r.2 s') :
    Triple t s (loop body a) R := by
  have within : ∀ n a s, I a s → Triple t s (loopWithin body n a) R := by
    intro n
    induction n with
    | zero =>
      intro a s inv answers rest b log done
      cases done
    | succ n ih =>
      intro a s inv
      refine (round a s inv).bind fun r s' post => ?_
      cases more : r.1 with
      | true =>
        rw [if_pos more] at post
        exact ih r.2 s' post
      | false =>
        rw [if_neg (by simp [more])] at post
        exact .pure post
  intro answers
  exact within (answers.length + 1) a s start answers

end Rules

/-! ## A transcript that does occur -/

section Possible
variable {Q A α β : Type}

/-- Given these answers, the program makes this transcript and returns `a`. -/
def Can (p : Program Q A α) (log : List (Q × A)) (a : α) : Prop :=
  ∀ rest, p (log.map Prod.snd ++ rest) = some (a, log, rest)

theorem can_pure (a : α) : Can (Pure.pure a : Program Q A α) [] a := fun _ => rfl

theorem Can.bind {p : Program Q A α} {f : α → Program Q A β} {log more : List (Q × A)} {a : α} {b : β}
    (first : Can p log a) (second : Can (f a) more b) : Can (p >>= f) (log ++ more) b := by
  intro rest
  rw [List.map_append, List.append_assoc]
  rw [bind_run (first _), second rest]
  rfl

theorem can_askUntil {q : Q} {settle : A → Option α} {a : A} {b : α} (settled : settle a = some b) :
    Can (askUntil q settle) [(q, a)] b := by
  intro rest
  simp [askUntil, settled]

/-- More rounds than needed do not hurt. -/
theorem loopWithin_mono {body : α → Program Q A (Bool × α)} {m n : Nat} (le : m ≤ n) {a : α} {answers : List A}
    {r : α × List (Q × A) × List A} (done : loopWithin body m a answers = some r) :
    loopWithin body n a answers = some r := by
  induction m generalizing n a answers r with
  | zero => cases done
  | succ m ih =>
    obtain ⟨n, rfl⟩ := Nat.exists_eq_add_of_lt (Nat.lt_of_lt_of_le m.lt_succ_self le)
    obtain ⟨b, log, rest⟩ := r
    obtain ⟨⟨more, a'⟩, first, middle, second, ran, ran', rfl⟩ := bind_eq_some done
    have later : (if more then loopWithin body (m + n) a' else pure a' : Program Q A α) middle =
        some (b, second, rest) := by
      cases more with
      | true => exact ih (Nat.le_add_right m n) ran'
      | false => exact ran'
    rw [loopWithin, bind_run ran, later]
    rfl

theorem Can.loop_stop {body : α → Program Q A (Bool × α)} {a b : α} {log : List (Q × A)}
    (last : Can (body a) log (false, b)) : Can (loop body a) log b := by
  have stop : Can (loopWithin body 1 a) (log ++ []) b := last.bind (can_pure b)
  rw [List.append_nil] at stop
  intro rest
  exact loopWithin_mono (by omega) (stop rest)

theorem Can.loop_next {body : α → Program Q A (Bool × α)} {a b c : α} {log more : List (Q × A)}
    (round : Can (body a) log (true, b)) (asked : log ≠ []) (rest : Can (loop body b) more c) :
    Can (loop body a) (log ++ more) c := by
  intro left
  have later := rest left
  have within : loopWithin body ((more.map Prod.snd ++ left).length + 1 + 1) a
      ((log ++ more).map Prod.snd ++ left) = some (c, log ++ more, left) := by
    rw [List.map_append, List.append_assoc, loopWithin, bind_run (round _), if_pos rfl]
    exact congrArg (Option.map _) later
  refine loopWithin_mono ?_ within
  have := List.length_pos_iff.mpr asked
  simp only [List.length_append, List.length_map]
  omega

end Possible

end Dialogue
