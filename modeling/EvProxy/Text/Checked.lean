import EvProxy.Text.Search

/-!
# String operations that report misuse

`std::string` throws when a position lies past the end, an index there is
undefined, and an unsigned difference below zero wraps around. Each operation
here computes what the plain one does (`Text.substr` and the like) and reports a
`Fault` instead of any of these. A program written with them that never reports
one uses no bad position: the lemmas say when an operation is good.
-/

namespace Text

inductive Fault where
  /-- A position past the end of the string. -/
  | outOfRange
  /-- A difference below zero. -/
  | underflow
  /-- A branch that is not meant to be taken. -/
  | unreachable
  /-- A loop that has not ended in the rounds it was given. -/
  | spent
  /-- A scan that did not end where it should. -/
  | misplaced
  deriving DecidableEq

abbrev Checked := Except Fault

section Checked
variable {α β : Type}

@[simp] theorem bind_ok (a : α) (f : α → Checked β) : ((Except.ok a : Checked α) >>= f) = f a := rfl

/-- The program goes on only if `p` holds. -/
def require (p : Prop) [Decidable p] (fault : Fault) : Checked Unit := if p then .ok () else .error fault

/-- `s.substr(pos, n)`. -/
def substrAt (s : List α) (pos n : Nat) : Checked (List α) :=
  if pos ≤ s.length then .ok (substr s pos n) else .error .outOfRange

/-- `s.substr(pos)`. -/
def suffixAt (s : List α) (pos : Nat) : Checked (List α) :=
  if pos ≤ s.length then .ok (s.drop pos) else .error .outOfRange

/-- `s[pos]`. -/
def indexAt (s : List α) (pos : Nat) : Checked α :=
  match s[pos]? with
  | some x => .ok x
  | none => .error .outOfRange

/-- `s.compare(pos, n, t) == 0`. -/
def compareAt [DecidableEq α] (s : List α) (pos n : Nat) (t : List α) : Checked Bool :=
  if pos ≤ s.length then .ok (decide (substr s pos n = t)) else .error .outOfRange

/-- An unsigned difference. -/
def minus (a b : Nat) : Checked Nat := if b ≤ a then .ok (a - b) else .error .underflow

theorem require_eq {p : Prop} [Decidable p] (holds : p) (fault : Fault) : require p fault = .ok () := if_pos holds

theorem substrAt_eq {s : List α} {pos : Nat} (inside : pos ≤ s.length) (n : Nat) :
    substrAt s pos n = .ok (substr s pos n) := if_pos inside

theorem suffixAt_eq {s : List α} {pos : Nat} (inside : pos ≤ s.length) : suffixAt s pos = .ok (s.drop pos) :=
  if_pos inside

theorem indexAt_eq {s : List α} {pos : Nat} (inside : pos < s.length) : indexAt s pos = .ok s[pos] := by
  simp [indexAt, inside]

theorem compareAt_eq [DecidableEq α] {s : List α} {pos : Nat} (inside : pos ≤ s.length) (n : Nat) (t : List α) :
    compareAt s pos n t = .ok (decide (substr s pos n = t)) := if_pos inside

theorem minus_eq {a b : Nat} (le : b ≤ a) : minus a b = .ok (a - b) := if_pos le

variable [DecidableEq α]

/-- `strip`, with its subtraction and its positions checked. -/
def stripChecked (set s : List α) : Checked (List α) :=
  match findFirstNotOf set s with
  | none => .ok []
  | some b =>
    match findLastNotOf set s with
    | none => .error .unreachable
    | some e => do substrAt s b ((← minus e b) + 1)

/-- The last symbol outside the set comes no earlier than the first. -/
theorem findLastNotOf_ge {set s : List α} {b : Nat} (first : findFirstNotOf set s = some b) :
    ∃ e, findLastNotOf set s = some e ∧ b ≤ e ∧ e < s.length := by
  obtain ⟨inside, outside, -⟩ := List.findIdx?_eq_some_iff_getElem.mp first
  have mirrored : ∃ x ∈ s.reverse, decide (x ∉ set) = true := ⟨s[b], by simp, outside⟩
  have found := List.findIdx?_eq_some_of_exists mirrored
  have bound := List.findIdx_lt_length_of_exists mirrored
  -- read backwards, the symbol at `b` is found at the latest
  have late : s.reverse.findIdx (fun x => decide (x ∉ set)) ≤ s.length - 1 - b := by
    by_contra early
    have inReverse : s.length - 1 - b < s.reverse.length := by
      rw [List.length_reverse]
      omega
    have skipped : decide (s.reverse[s.length - 1 - b] ∉ set) = false :=
      List.not_of_lt_findIdx (p := fun x => decide (x ∉ set)) (by omega)
    have same : s.length - 1 - (s.length - 1 - b) = b := by omega
    simp only [List.getElem_reverse, same, outside] at skipped
    cases skipped
  rw [List.length_reverse] at bound
  generalize s.reverse.findIdx (fun x => decide (x ∉ set)) = k at found bound late
  refine ⟨s.length - 1 - k, ?_, by omega, by omega⟩
  rw [findLastNotOf, found, Option.map_some]

theorem stripChecked_eq (set s : List α) : stripChecked set s = .ok (strip set s) := by
  unfold stripChecked strip
  cases first : findFirstNotOf set s with
  | none => rfl
  | some b =>
    obtain ⟨e, last, order, inside⟩ := findLastNotOf_ge first
    simp only [last, minus_eq order, bind_ok]
    exact substrAt_eq (by omega) _

end Checked

end Text
