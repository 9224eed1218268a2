import Mathlib.Data.List.Infix
import Mathlib.Data.List.DropRight

/-!
# First-occurrence search in lists

The string searches of a C++ `std::string`, over lists of any symbols: the
first occurrence of a pattern (`find`), the same from a position on
(`findFrom`), the last occurrence of a symbol (`rfind`), the first and last
symbol outside a set (`findFirstNotOf`, `findLastNotOf`), and cutting by
position (`substr`). Callers reason with the decompositions
`find_eq_some_iff` and `find_append_left` and never unfold the scans.
-/

namespace Text

section Search
variable {α : Type*} [DecidableEq α]

/-- Position of the first occurrence of `pat` in a list. -/
def find (pat : List α) : List α → Option Nat
  | [] => if pat = [] then some 0 else none
  | x :: xs => if pat.isPrefixOf (x :: xs) then some 0 else (find pat xs).map (· + 1)

/-- `find` started at position `pos`; nothing is found past the end. -/
def findFrom (pat : List α) (pos : Nat) (s : List α) : Option Nat :=
  if s.length < pos then none else (find pat (s.drop pos)).map (· + pos)

/-- Position of the last occurrence of the symbol `c`. -/
def rfind (c : α) : List α → Option Nat
  | [] => none
  | x :: xs =>
    match rfind c xs with
    | some i => some (i + 1)
    | none => if x = c then some 0 else none

/-- At most `n` symbols from position `pos` on. -/
def substr (s : List α) (pos n : Nat) : List α :=
  (s.drop pos).take n

/-- Position of the first symbol outside `set`. -/
def findFirstNotOf (set s : List α) : Option Nat :=
  s.findIdx? fun x => decide (x ∉ set)

/-- Position of the last symbol outside `set`. -/
def findLastNotOf (set s : List α) : Option Nat :=
  (s.reverse.findIdx? fun x => decide (x ∉ set)).map (s.length - 1 - ·)

/-- What is left between the first and the last symbol outside `set`. -/
def strip (set s : List α) : List α :=
  match findFirstNotOf set s with
  | none => []
  | some b =>
    match findLastNotOf set s with
    | none => []
    | some e => substr s b (e - b + 1)

omit [DecidableEq α] in
@[simp] theorem substr_zero (s : List α) (n : Nat) : substr s 0 n = s.take n := by
  simp [substr]

omit [DecidableEq α] in
theorem substr_part (s : List α) (pos n : Nat) : substr s pos n <:+: s :=
  (List.take_prefix _ _).isInfix.trans (List.drop_suffix _ _).isInfix

theorem find_cons_of_front {pat xs : List α} {x : α} (here : pat <+: x :: xs) : find pat (x :: xs) = some 0 := by
  simp [find, List.isPrefixOf_iff_prefix.mpr here]

theorem find_cons_of_not {pat xs : List α} {x : α} (elsewhere : ¬ pat <+: x :: xs) :
    find pat (x :: xs) = (find pat xs).map (· + 1) := by
  have no : pat.isPrefixOf (x :: xs) = false := by
    rw [← Bool.not_eq_true, List.isPrefixOf_iff_prefix]
    exact elsewhere
  simp [find, no]

/-- A found position is an occurrence, and no earlier position is one. -/
theorem find_eq_some_iff {pat s : List α} {i : Nat} :
    find pat s = some i ↔ pat <+: s.drop i ∧ ∀ j < i, ¬ pat <+: s.drop j := by
  induction s generalizing i with
  | nil =>
    by_cases empty : pat = []
    · subst empty
      constructor
      · intro h
        simp only [find, if_true, Option.some.injEq] at h
        subst h
        simp
      · rintro ⟨-, earlier⟩
        have first : i = 0 := by
          by_contra later
          exact earlier 0 (by omega) (by simp)
        simp [find, first]
    · simp [find, empty]
  | cons x xs ih =>
    by_cases here : pat <+: x :: xs
    · rw [find_cons_of_front here]
      constructor
      · intro h
        cases h
        simpa using here
      · rintro ⟨-, earlier⟩
        have first : i = 0 := by
          by_contra later
          exact earlier 0 (by omega) (by simpa using here)
        rw [first]
    · rw [find_cons_of_not here]
      cases i with
      | zero => simp [here]
      | succ i =>
        simp only [Option.map_eq_some_iff, Nat.add_right_cancel_iff, exists_eq_right, ih,
          List.drop_succ_cons]
        constructor
        · rintro ⟨occurs, earlier⟩
          refine ⟨occurs, ?_⟩
          intro j hj
          cases j with
          | zero => simpa using here
          | succ j => simpa using earlier j (by omega)
        · rintro ⟨occurs, earlier⟩
          exact ⟨occurs, fun j hj => by simpa using earlier (j + 1) (by omega)⟩

/-- Nothing is found exactly when the pattern does not occur. -/
theorem find_eq_none_iff {pat s : List α} : find pat s = none ↔ ¬ pat <:+: s := by
  induction s with
  | nil => by_cases empty : pat = [] <;> simp [find, empty]
  | cons x xs ih =>
    by_cases here : pat <+: x :: xs
    · simp [find_cons_of_front here, here.isInfix]
    · simp [find_cons_of_not here, ih, List.infix_cons_iff, here]

/-- A found occurrence splits the list around the pattern. -/
theorem find_split {pat s : List α} {i : Nat} (h : find pat s = some i) :
    s = s.take i ++ pat ++ s.drop (i + pat.length) := by
  obtain ⟨t, ht⟩ := (find_eq_some_iff.mp h).1
  have rest : s.drop (i + pat.length) = t := by
    rw [← List.drop_drop, ← ht, List.drop_left]
  rw [rest, List.append_assoc, ht, List.take_append_drop]

/-- An occurrence lies inside the list. -/
theorem find_le {pat s : List α} {i : Nat} (h : find pat s = some i) :
    i + pat.length ≤ s.length := by
  obtain ⟨occurs, earlier⟩ := find_eq_some_iff.mp h
  have size := occurs.length_le
  rw [List.length_drop] at size
  by_cases empty : pat = []
  · subst empty
    have first : i = 0 := by
      by_contra later
      exact earlier 0 (by omega) (by simp)
    simp [first]
  · have := List.length_pos_iff.mpr empty
    omega

/-- Bytes appended after a first occurrence do not move it. -/
theorem find_append_left {pat s : List α} {i : Nat} (t : List α) (h : find pat s = some i) :
    find pat (s ++ t) = some i := by
  have inside := find_le h
  obtain ⟨occurs, earlier⟩ := find_eq_some_iff.mp h
  refine find_eq_some_iff.mpr ⟨?_, ?_⟩
  · rw [List.drop_append_of_le_length (by omega)]
    exact occurs.trans (List.prefix_append _ _)
  · intro j hj found
    rw [List.drop_append_of_le_length (by omega)] at found
    -- the occurrence at `j` ends before the one at `i` does, so it lies in `s`
    exact earlier j hj (List.prefix_of_prefix_length_le found (List.prefix_append _ _)
      (by rw [List.length_drop]; omega))

/-- A first occurrence that lies in the kept part survives truncation. -/
theorem find_take {pat s : List α} {i n : Nat} (h : find pat s = some i)
    (kept : i + pat.length ≤ n) : find pat (s.take n) = some i := by
  obtain ⟨occurs, earlier⟩ := find_eq_some_iff.mp h
  refine find_eq_some_iff.mpr ⟨?_, ?_⟩
  · rw [List.drop_take]
    exact List.prefix_take_iff.mpr ⟨occurs, by omega⟩
  · intro j hj found
    rw [List.drop_take] at found
    exact earlier j hj (found.trans (List.take_prefix _ _))

/-- A truncation too short to hold the first occurrence holds none. -/
theorem find_take_none {pat s : List α} {i n : Nat} (h : find pat s = some i)
    (short : n < i + pat.length) (nonempty : pat ≠ []) : find pat (s.take n) = none := by
  cases found : find pat (s.take n) with
  | none => rfl
  | some j =>
    have inside := find_le found
    have whole := find_append_left (s.drop n) found
    rw [List.take_append_drop, h] at whole
    cases whole
    have := List.length_pos_iff.mpr nonempty
    simp only [List.length_take] at inside
    omega

/-- The first occurrence of a single symbol, and what precedes it. -/
theorem find_singleton_eq_some {c : α} {s : List α} {i : Nat} (h : find [c] s = some i) :
    s = s.take i ++ c :: s.drop (i + 1) ∧ c ∉ s.take i := by
  refine ⟨by simpa using find_split h, ?_⟩
  intro mem
  obtain ⟨j, hj, get⟩ := List.mem_take_iff_getElem.mp mem
  refine (find_eq_some_iff.mp h).2 j (by omega) ?_
  rw [List.drop_eq_getElem_cons (by omega), get]
  simp

/-- Searching for one symbol after a part that lacks it. -/
theorem find_singleton_append {c : α} {p t : List α} (h : c ∉ p) :
    find [c] (p ++ c :: t) = some p.length := by
  induction p with
  | nil => simp [find]
  | cons x xs ih =>
    obtain ⟨ne, rest⟩ := not_or.mp (mt List.mem_cons.mpr h)
    simp [find, List.isPrefixOf, ih rest, ne]

/-- Two lists cut at the first occurrence of the same symbol. -/
theorem append_cons_inj {c : α} {a a' b b' : List α} (ha : c ∉ a) (ha' : c ∉ a')
    (same : a ++ c :: b = a' ++ c :: b') : a = a' ∧ b = b' := by
  have cut : find [c] (a ++ c :: b) = some a.length := find_singleton_append ha
  rw [same, find_singleton_append ha'] at cut
  obtain ⟨front, back⟩ := List.append_inj same (Option.some.inj cut).symm
  exact ⟨front, (List.cons.inj back).2⟩

theorem find_singleton_eq_none {c : α} {s : List α} : find [c] s = none ↔ c ∉ s := by
  rw [find_eq_none_iff, List.singleton_infix_iff]

/-- `findFrom` is `find` on the dropped list, shifted back. -/
theorem findFrom_eq_some {pat s : List α} {pos i : Nat} (bound : pos ≤ s.length) :
    findFrom pat pos s = some (pos + i) ↔ find pat (s.drop pos) = some i := by
  have inside : ¬ s.length < pos := by omega
  simp only [findFrom, inside, if_false, Option.map_eq_some_iff]
  constructor
  · rintro ⟨j, found, same⟩
    have : j = i := by omega
    rw [← this, found]
  · intro found
    exact ⟨i, found, by omega⟩

theorem findFrom_eq_none {pat s : List α} {pos : Nat} (bound : pos ≤ s.length) :
    findFrom pat pos s = none ↔ find pat (s.drop pos) = none := by
  have inside : ¬ s.length < pos := by omega
  simp [findFrom, inside]

theorem findFrom_ge {pat s : List α} {pos i : Nat} (h : findFrom pat pos s = some i) : pos ≤ i := by
  unfold findFrom at h
  split at h
  · cases h
  · obtain ⟨j, -, same⟩ := Option.map_eq_some_iff.mp h
    omega

theorem rfind_eq_none {c : α} {s : List α} : rfind c s = none ↔ c ∉ s := by
  induction s with
  | nil => simp [rfind]
  | cons x xs ih =>
    cases later : rfind c xs with
    | none =>
      have absent := ih.mp later
      simp [rfind, later, absent, eq_comm]
    | some i =>
      have present : c ∈ xs := by
        by_contra absent
        rw [ih.mpr absent] at later
        cases later
      simp [rfind, later, present]

/-- Searching backwards for a symbol before a part that lacks it. -/
theorem rfind_append {c : α} {p t : List α} (h : c ∉ t) : rfind c (p ++ c :: t) = some p.length := by
  induction p with
  | nil => simp [rfind, rfind_eq_none.mpr h]
  | cons x xs ih => simp [rfind, ih]

/-- The last occurrence of a symbol, and what follows it. -/
theorem rfind_eq_some {c : α} {s : List α} {i : Nat} (h : rfind c s = some i) :
    s = s.take i ++ c :: s.drop (i + 1) ∧ c ∉ s.drop (i + 1) := by
  induction s generalizing i with
  | nil => cases h
  | cons x xs ih =>
    cases later : rfind c xs with
    | some j =>
      simp only [rfind, later, Option.some.injEq] at h
      subst h
      obtain ⟨cut, absent⟩ := ih later
      exact ⟨by simpa using cut, by simpa using absent⟩
    | none =>
      simp only [rfind, later] at h
      split at h
      · rename_i here
        cases h
        simpa [here] using rfind_eq_none.mp later
      · cases h

theorem findFirstNotOf_eq_none {set s : List α} : findFirstNotOf set s = none ↔ ∀ x ∈ s, x ∈ set := by
  simp [findFirstNotOf]

/-- `strip` drops the symbols of `set` from both ends. -/
theorem strip_eq (set s : List α) :
    strip set s = (s.dropWhile (· ∈ set)).rdropWhile (· ∈ set) := by
  cases first : findFirstNotOf set s with
  | none =>
    have inside := findFirstNotOf_eq_none.mp first
    have empty : s.dropWhile (· ∈ set) = [] := List.dropWhile_eq_nil_iff.mpr (by simpa using inside)
    simp [strip, first, empty]
  | some i =>
    obtain ⟨hi, before⟩ := List.findIdx?_eq_some_iff_findIdx_eq.mp first
    have back : ∃ x ∈ s.reverse, decide (x ∉ set) = true := by
      obtain ⟨outside, -⟩ := (List.findIdx?_eq_some_iff_getElem.mp first).2
      exact ⟨s[i], by simp, outside⟩
    have lastIdx := List.findIdx?_eq_some_of_exists back
    have hk := List.findIdx_lt_length_of_exists back
    generalize hlast : s.reverse.findIdx (fun x => decide (x ∉ set)) = k at lastIdx hk
    rw [List.length_reverse] at hk
    -- read backwards, the part kept by `dropWhile` starts with the same `k` symbols of `set`
    have order : i + k < s.length := by
      have outside := (List.findIdx?_eq_some_iff_getElem.mp lastIdx).2.1
      by_contra late
      have inside : decide (s[s.length - 1 - k] ∉ set) = false :=
        List.not_of_lt_findIdx (p := fun x => decide (x ∉ set)) (by omega)
      simp only [List.getElem_reverse] at outside
      rw [inside] at outside
      cases outside
    have kept : s.dropWhile (· ∈ set) = s.drop i := by
      rw [List.dropWhile_eq_drop_findIdx_not]
      simp only [← decide_not, before]
    have tail : (s.drop i).reverse.dropWhile (· ∈ set) = (s.drop i).reverse.drop k := by
      rw [List.dropWhile_eq_drop_findIdx_not, List.reverse_drop]
      congr 1
      rw [List.findIdx_take]
      simp only [← decide_not, hlast]
      omega
    have last : findLastNotOf set s = some (s.length - 1 - k) := by
      rw [findLastNotOf, lastIdx, Option.map_some]
    rw [kept, List.rdropWhile, tail]
    simp only [strip, first, last, substr, List.drop_reverse, List.reverse_reverse, List.length_drop]
    congr 1
    omega

theorem strip_part (set s : List α) : strip set s <:+: s := by
  rw [strip_eq]
  exact (List.rdropWhile_prefix _ _).isInfix.trans (List.dropWhile_suffix _).isInfix

/-- There is nothing to strip from a list that starts and ends outside the set. -/
theorem strip_eq_self {set s : List α} (first : ∀ c ∈ s.head?, c ∉ set) (last : ∀ c ∈ s.getLast?, c ∉ set) :
    strip set s = s := by
  have front : s.dropWhile (· ∈ set) = s := by
    rw [List.dropWhile_eq_self_iff]
    intro nonempty
    have outside := first s[0] (by simp [List.head?_eq_getElem?])
    simpa using outside
  have back : s.rdropWhile (· ∈ set) = s := by
    rw [List.rdropWhile_eq_self_iff]
    intro nonempty
    have outside := last (s.getLast nonempty) (List.getLast?_eq_some_getLast nonempty)
    simpa using outside
  rw [strip_eq, front, back]

/-- Stripping forgets a symbol of the set in front. -/
theorem strip_cons {set : List α} {c : α} (mem : c ∈ set) (s : List α) :
    strip set (c :: s) = strip set s := by
  simp [strip_eq, mem]

theorem head_strip (set s : List α) : ∀ c ∈ (strip set s).head?, c ∉ set := by
  rw [strip_eq]
  intro c start
  obtain ⟨rest, whole⟩ := List.rdropWhile_prefix (· ∈ set) (l := s.dropWhile (· ∈ set))
  have kept : (s.dropWhile (· ∈ set)).head? = some c := by
    rw [← whole, List.head?_append, Option.mem_def.mp start, Option.some_or]
  have outside := List.head?_dropWhile_not (· ∈ set) s
  rw [kept] at outside
  simpa using outside

theorem getLast_strip (set s : List α) : ∀ c ∈ (strip set s).getLast?, c ∉ set := by
  rw [strip_eq]
  intro c stop
  obtain ⟨nonempty, rfl⟩ := List.mem_getLast?_eq_getLast stop
  simpa using List.rdropWhile_last_not (· ∈ set) _ nonempty

theorem strip_strip (set s : List α) : strip set (strip set s) = strip set s :=
  strip_eq_self (head_strip set s) (getLast_strip set s)

/-- Stripping forgets symbols of the set at the end. -/
theorem strip_append_right {set back : List α} (inside : ∀ c ∈ back, c ∈ set) (s : List α) :
    strip set (s ++ back) = strip set s := by
  induction back using List.reverseRecOn with
  | nil => simp
  | append_singleton back c ih =>
    have last : c ∈ set := inside c (by simp)
    rw [← ih fun d mem => inside d (by simp [mem]), ← List.append_assoc, strip_eq, strip_eq]
    generalize s ++ back = t
    by_cases blank : ∀ x ∈ t, x ∈ set
    · have gone : (t ++ [c]).dropWhile (· ∈ set) = [] := by
        rw [List.dropWhile_eq_nil_iff]
        intro x mem
        rcases List.mem_append.mp mem with mem | mem
        · simpa using blank x mem
        · simpa [List.mem_singleton.mp mem] using last
      have empty : t.dropWhile (· ∈ set) = [] := List.dropWhile_eq_nil_iff.mpr (by simpa using blank)
      rw [gone, empty]
    · have stays : t.dropWhile (· ∈ set) ≠ [] := by
        rw [ne_eq, List.dropWhile_eq_nil_iff]
        simpa using blank
      rw [List.dropWhile_append, if_neg (by simpa using stays),
        List.rdropWhile_concat_pos _ _ _ (by simpa using last)]

/-- `core` between symbols of `set`, neither starting nor ending with one. -/
def Padded (set core s : List α) : Prop :=
  ∃ front back, s = front ++ core ++ back ∧ (∀ c ∈ front ++ back, c ∈ set) ∧
    (∀ c ∈ core.head?, c ∉ set) ∧ ∀ c ∈ core.getLast?, c ∉ set

/-- What `strip` leaves is what stands between symbols of the set. -/
theorem strip_eq_iff {set core s : List α} : strip set s = core ↔ Padded set core s := by
  constructor
  · rintro rfl
    refine ⟨s.takeWhile (· ∈ set), (s.dropWhile (· ∈ set)).rtakeWhile (· ∈ set), ?_, ?_, head_strip set s,
      getLast_strip set s⟩
    · rw [strip_eq, List.append_assoc, List.rdropWhile_append_rtakeWhile, List.takeWhile_append_dropWhile]
    · intro c mem
      rcases List.mem_append.mp mem with mem | mem
      · simpa using List.mem_takeWhile_imp mem
      · simpa using List.mem_rtakeWhile_imp mem
  · rintro ⟨front, back, rfl, inside, first, last⟩
    rw [strip_append_right fun c mem => inside c (by simp [mem])]
    have blanks : ∀ c ∈ front, c ∈ set := fun c mem => inside c (by simp [mem])
    clear inside
    induction front with
    | nil => exact strip_eq_self first last
    | cons c front ih =>
      rw [List.cons_append, strip_cons (blanks c (by simp))]
      exact ih fun d mem => blanks d (by simp [mem])

/-- What precedes the first `c`: all of a list without one. -/
theorem take_find_singleton (c : α) (s : List α) :
    ((find [c] s).elim s fun i => s.take i) = s.takeWhile (· ≠ c) := by
  cases found : find [c] s with
  | none =>
    have absent := find_singleton_eq_none.mp found
    refine (List.takeWhile_eq_self_iff.mpr fun x mem => ?_).symm
    simpa using fun same : x = c => absent (same ▸ mem)
  | some i =>
    obtain ⟨cut, absent⟩ := find_singleton_eq_some found
    have kept : ∀ x ∈ s.take i, decide (x ≠ c) = true := by
      intro x mem
      simpa using fun same : x = c => absent (same ▸ mem)
    rw [Option.elim_some]
    nth_rewrite 2 [cut]
    rw [List.takeWhile_append_of_pos kept]
    simp

end Search

end Text
