import EvProxy.Text.Search

/-!
# Lines ended by a two-symbol terminator

Text cut strictly at every occurrence of a terminator `a b` with `a ≠ b`
(carriage return, line feed). Cutting and joining are inverse on lines that
hold no terminator (`splitLines_join`, `join_splitLines`), and the first blank
line of a block of such lines is found right after its last line
(`find_blank_join`), whatever follows it. A line may hold a lone `a` or `b`
anywhere: no seam between a line and a terminator makes a new terminator.
`lenientHead` is the other discipline, which ends a line at any `b`.
-/

namespace Text

section Lines
variable {α : Type*} [DecidableEq α]

/-- Cut at every occurrence of `a b`, scanning from the left. -/
def splitLines (a b : α) : List α → List (List α)
  | [] => [[]]
  | [x] => [[x]]
  | x :: y :: t =>
    if x = a ∧ y = b then [] :: splitLines a b t
    else
      match splitLines a b (y :: t) with
      | [] => [[x]]
      | l :: ls => (x :: l) :: ls

/-- The terminator does not occur in `s`. -/
def Free (a b : α) (s : List α) : Prop := ¬ [a, b] <:+: s

omit [DecidableEq α] in
@[simp] theorem free_nil (a b : α) : Free a b [] := by simp [Free]

omit [DecidableEq α] in
theorem Free.tail {a b x : α} {s : List α} (h : Free a b (x :: s)) : Free a b s :=
  fun occurs => h (List.infix_cons_iff.mpr (Or.inr occurs))

omit [DecidableEq α] in
theorem Free.of_part {a b : α} {s t : List α} (h : Free a b t) (sub : s <:+: t) : Free a b s :=
  fun occurs => h (occurs.trans sub)

omit [DecidableEq α] in
theorem free_cons_iff {a b x y : α} {s : List α} :
    Free a b (x :: y :: s) ↔ ¬ (x = a ∧ y = b) ∧ Free a b (y :: s) := by
  simp only [Free, List.infix_cons_iff (a := x), List.cons_prefix_cons, List.nil_prefix, and_true,
    not_or, eq_comm]

omit [DecidableEq α] in
theorem free_singleton (a b x : α) : Free a b [x] := by
  intro occurs
  have := occurs.length_le
  simp at this

omit [DecidableEq α] in
theorem free_of_not_mem {a b : α} {s : List α} (absent : a ∉ s) : Free a b s :=
  fun occurs => absent (occurs.subset List.mem_cons_self)

omit [DecidableEq α] in
/-- A seam makes no terminator unless `a` ends one side and `b` starts the other. -/
theorem Free.append {a b : α} {s t : List α} (left : Free a b s) (right : Free a b t)
    (seam : ¬ (s.getLast? = some a ∧ t.head? = some b)) : Free a b (s ++ t) := by
  induction s with
  | nil => simpa using right
  | cons x s ih =>
    cases s with
    | nil =>
      cases t with
      | nil => exact free_singleton a b x
      | cons y t =>
        refine free_cons_iff.mpr ⟨?_, right⟩
        rintro ⟨rfl, rfl⟩
        exact seam (by simp)
    | cons y s =>
      obtain ⟨here, rest⟩ := free_cons_iff.mp left
      refine free_cons_iff.mpr ⟨here, ih rest ?_⟩
      rwa [List.getLast?_cons_cons] at seam

omit [DecidableEq α] in
/-- Free parts stay free around a glue that holds no `a` and does not start with `b`. -/
theorem Free.glue {a b : α} {s g t : List α} (left : Free a b s) (right : Free a b t)
    (nonempty : g ≠ []) (no_a : a ∉ g) (no_b : g.head? ≠ some b) : Free a b (s ++ g ++ t) := by
  have front : Free a b (s ++ g) := left.append (free_of_not_mem no_a) fun seam => no_b seam.2
  refine front.append right fun seam => no_a ?_
  rw [List.getLast?_append_of_ne_nil _ nonempty] at seam
  exact List.mem_of_getLast? seam.1

/-- A line without the terminator, followed by one, is cut off whole. -/
theorem splitLines_append {a b : α} (ne : a ≠ b) {h : List α} (free : Free a b h) (t : List α) :
    splitLines a b (h ++ a :: b :: t) = h :: splitLines a b t := by
  induction h with
  | nil => simp [splitLines]
  | cons x h ih =>
    cases h with
    | nil =>
      have cut := ih (free_nil a b)
      simp only [List.nil_append] at cut
      simp [splitLines, ne]
    | cons y h =>
      obtain ⟨here, rest⟩ := free_cons_iff.mp free
      have cut := ih rest
      simp only [List.cons_append] at cut ⊢
      rw [splitLines, if_neg here, cut]

theorem splitLines_of_free {a b : α} {h : List α} (free : Free a b h) : splitLines a b h = [h] := by
  induction h with
  | nil => rfl
  | cons x h ih =>
    cases h with
    | nil => rfl
    | cons y h =>
      obtain ⟨here, rest⟩ := free_cons_iff.mp free
      rw [splitLines, if_neg here, ih rest]

theorem splitLines_ne_nil (a b : α) (s : List α) : splitLines a b s ≠ [] := by
  fun_cases splitLines a b s <;> simp_all

/-- Joining the pieces with the terminator gives the text back. -/
theorem join_splitLines (a b : α) (s : List α) : [a, b].intercalate (splitLines a b s) = s := by
  fun_induction splitLines a b s with
  | case1 => rfl
  | case2 x => simp
  | case3 x y t here ih =>
    obtain ⟨rfl, rfl⟩ := here
    cases cut : splitLines x y t with
    | nil => exact absurd cut (splitLines_ne_nil _ _ _)
    | cons l ls => rw [cut] at ih; simp [List.intercalate_cons_cons, ih]
  | case4 x y t here cut ih => exact absurd cut (splitLines_ne_nil _ _ _)
  | case5 x y t here l ls cut ih =>
    rw [cut] at ih
    cases ls with
    | nil => simp_all
    | cons m ls => simp_all [List.intercalate_cons_cons]

/-- No piece holds a terminator. -/
theorem free_of_mem_splitLines {a b : α} {s l : List α} (h : l ∈ splitLines a b s) : Free a b l := by
  fun_induction splitLines a b s generalizing l with
  | case1 => simp_all
  | case2 x => rw [List.mem_singleton.mp h]; exact free_singleton a b x
  | case3 x y t here ih =>
    rcases List.mem_cons.mp h with rfl | mem
    · exact free_nil a b
    · exact ih mem
  | case4 x y t here cut ih => exact absurd cut (splitLines_ne_nil _ _ _)
  | case5 x y t here m ls cut ih =>
    have whole := join_splitLines a b (y :: t)
    rw [cut] at ih whole
    rcases List.mem_cons.mp h with rfl | mem
    · -- the first piece is `x :: m`; `m` is empty, or starts with the `y` that `x` precedes
      cases m with
      | nil => exact free_singleton a b x
      | cons z m =>
        have same : z = y := by
          cases ls with
          | nil => simp_all
          | cons n ls => simp_all [List.intercalate_cons_cons]
        rw [same] at ih ⊢
        exact free_cons_iff.mpr ⟨here, ih List.mem_cons_self⟩
    · exact ih (List.mem_cons_of_mem _ mem)

/-- Lines without terminators are recovered from their join. -/
theorem splitLines_join {a b : α} (ne : a ≠ b) {ls : List (List α)} (some_line : ls ≠ [])
    (free : ∀ l ∈ ls, Free a b l) : splitLines a b ([a, b].intercalate ls) = ls := by
  induction ls with
  | nil => exact absurd rfl some_line
  | cons l ls ih =>
    have first := free l List.mem_cons_self
    cases ls with
    | nil => simpa using splitLines_of_free first
    | cons m ls =>
      rw [List.intercalate_cons_cons, List.append_assoc]
      have cut := splitLines_append ne first ([a, b].intercalate (m :: ls))
      rw [ih (by simp) (fun k mem => free k (List.mem_cons_of_mem _ mem))] at cut
      exact cut

/-- The first terminator after a line without one. -/
theorem find_terminator {a b : α} (ne : a ≠ b) {h : List α} (free : Free a b h) (t : List α) :
    find [a, b] (h ++ a :: b :: t) = some h.length := by
  induction h with
  | nil => simp [find]
  | cons x h ih =>
    have step := ih free.tail
    cases h with
    | nil =>
      simp only [List.nil_append, List.length_nil] at step
      simp [find, List.isPrefixOf, ne.symm]
    | cons y h =>
      obtain ⟨here, -⟩ := free_cons_iff.mp free
      have no : [a, b].isPrefixOf (x :: y :: (h ++ a :: b :: t)) = false := by
        rw [← Bool.not_eq_true, List.isPrefixOf_iff_prefix]
        simp only [List.cons_prefix_cons, List.nil_prefix, and_true]
        exact fun both => here ⟨both.1.symm, both.2.symm⟩
      simp only [List.cons_append] at step ⊢
      rw [find, no, step]
      rfl

/-- The first blank line seen from a line: right after it, or where the text
behind its terminator has one. -/
theorem find_blank_append {a b : α} (ne : a ≠ b) {h : List α} (free : Free a b h) (u : List α) :
    find [a, b, a, b] (h ++ a :: b :: u) =
      if [a, b].isPrefixOf u then some h.length
      else (find [a, b, a, b] u).map (· + (h.length + 2)) := by
  induction h with
  | nil =>
    by_cases blank : [a, b].isPrefixOf u
    · have pre : [a, b, a, b].isPrefixOf (a :: b :: u) = true := by simpa [List.isPrefixOf] using blank
      simp [find, pre, blank]
    · have no : [a, b, a, b].isPrefixOf (a :: b :: u) = false := by
        rw [← Bool.not_eq_true]
        simpa [List.isPrefixOf] using blank
      have no' : [a, b, a, b].isPrefixOf (b :: u) = false := by simp [List.isPrefixOf, ne]
      simp only [List.nil_append, find, no, no', blank, List.length_nil]
      simp [Function.comp_def]
  | cons x h ih =>
    have step := ih free.tail
    have no : [a, b, a, b].isPrefixOf (x :: (h ++ a :: b :: u)) = false := by
      cases h with
      | nil => simp [List.isPrefixOf, ne.symm]
      | cons y h =>
        obtain ⟨here, -⟩ := free_cons_iff.mp free
        rw [← Bool.not_eq_true, List.isPrefixOf_iff_prefix, List.cons_append]
        simp only [List.cons_prefix_cons]
        exact fun both => here ⟨both.1.symm, both.2.1.symm⟩
    rw [List.cons_append, find, no, step]
    by_cases blank : [a, b].isPrefixOf u
    · simp [blank]
    · simp only [blank, Bool.false_eq_true, if_false, Option.map_map, List.length_cons]
      rfl

omit [DecidableEq α] in
/-- A line without a terminator shows one at its start only if it is empty. -/
theorem not_terminator_of_free {a b : α} (ne : a ≠ b) {h : List α} (free : Free a b h)
    (nonempty : h ≠ []) (t : List α) : ¬ [a, b] <+: h ++ a :: t := by
  cases h with
  | nil => exact absurd rfl nonempty
  | cons x h =>
    cases h with
    | nil => simp [ne.symm]
    | cons y h =>
      obtain ⟨here, -⟩ := free_cons_iff.mp free
      simp only [List.cons_append, List.cons_prefix_cons, List.nil_prefix, and_true]
      exact fun both => here ⟨both.1.symm, both.2.symm⟩

/-- The first blank line of a block of lines is the one that ends it. -/
theorem find_blank_join {a b : α} (ne : a ≠ b) {l : List α} {ls : List (List α)}
    (free : ∀ m ∈ l :: ls, Free a b m) (nonempty : ∀ m ∈ ls, m ≠ []) (rest : List α) :
    find [a, b, a, b] ([a, b].intercalate (l :: ls) ++ a :: b :: a :: b :: rest) =
      some ([a, b].intercalate (l :: ls)).length := by
  induction ls generalizing l with
  | nil =>
    rw [List.intercalate_singleton, find_blank_append ne (free l List.mem_cons_self)]
    simp
  | cons m ls ih =>
    have tail := ih (fun k mem => free k (List.mem_cons_of_mem _ mem))
      (fun k mem => nonempty k (List.mem_cons_of_mem _ mem))
    have shape : ∃ t, [a, b].intercalate (m :: ls) ++ a :: b :: a :: b :: rest = m ++ a :: t := by
      cases ls with
      | nil => exact ⟨b :: a :: b :: rest, by simp⟩
      | cons k ls => exact ⟨b :: ([a, b].intercalate (k :: ls) ++ a :: b :: a :: b :: rest), by simp⟩
    obtain ⟨t, eq⟩ := shape
    have more : [a, b].isPrefixOf ([a, b].intercalate (m :: ls) ++ a :: b :: a :: b :: rest) = false := by
      rw [← Bool.not_eq_true, List.isPrefixOf_iff_prefix, eq]
      exact not_terminator_of_free ne (free m (by simp)) (nonempty m List.mem_cons_self) t
    rw [List.intercalate_cons_cons, List.append_assoc, List.append_assoc]
    simp only [List.cons_append, List.nil_append]
    rw [find_blank_append ne (free l List.mem_cons_self), more, tail]
    simp only [Bool.false_eq_true, if_false, Option.map_some, List.length_append, List.length_cons,
      List.length_nil]
    congr 1
    omega

/-- Up to its first blank line a text is a block of lines, all but the first
of them nonempty. -/
theorem nonempty_of_find_blank {a b : α} (ne : a ≠ b) {l : List α} {ls : List (List α)} {rest : List α}
    (free : ∀ m ∈ l :: ls, Free a b m)
    (blank : find [a, b, a, b] ([a, b].intercalate (l :: ls) ++ a :: b :: a :: b :: rest) =
      some ([a, b].intercalate (l :: ls)).length) :
    ∀ m ∈ ls, m ≠ [] := by
  induction ls generalizing l with
  | nil => simp
  | cons m ls ih =>
    rw [List.intercalate_cons_cons, List.append_assoc, List.append_assoc] at blank
    simp only [List.cons_append, List.nil_append] at blank
    rw [find_blank_append ne (free l List.mem_cons_self)] at blank
    split at blank
    · simp only [Option.some.injEq, List.length_append, List.length_cons] at blank
      omega
    · rename_i more
      obtain ⟨n, found, same⟩ := Option.map_eq_some_iff.mp blank
      have here : n = ([a, b].intercalate (m :: ls)).length := by
        simp only [List.length_append, List.length_cons, List.length_nil] at same
        omega
      rw [here] at found
      intro k mem
      rcases List.mem_cons.mp mem with rfl | mem
      · intro empty
        subst empty
        apply more
        rw [List.isPrefixOf_iff_prefix]
        cases ls with
        | nil => simp
        | cons k ls => rw [List.intercalate_cons_cons]; simp
      · exact ih (fun k mem => free k (List.mem_cons_of_mem _ mem)) found k mem

omit [DecidableEq α] in
/-- Every line but the first stands behind a terminator. -/
theorem join_cons (sep l : List α) (ls : List (List α)) :
    sep.intercalate (l :: ls) = l ++ ls.flatMap (sep ++ ·) := by
  induction ls generalizing l with
  | nil => simp
  | cons m ls ih => rw [List.intercalate_cons_cons, ih, List.flatMap_cons, List.append_assoc, List.append_assoc]

omit [DecidableEq α] in
/-- A block of nonempty lines is at least as long as it has lines. -/
theorem length_le_join (sep : List α) {ls : List (List α)} (nonempty : ∀ l ∈ ls, l ≠ []) :
    ls.length ≤ (sep.intercalate ls).length := by
  induction ls with
  | nil => simp
  | cons l ls ih =>
    have size := List.length_pos_iff.mpr (nonempty l List.mem_cons_self)
    have tail := ih fun k mem => nonempty k (List.mem_cons_of_mem _ mem)
    cases ls with
    | nil => simp only [List.intercalate_singleton, List.length_cons, List.length_nil]; omega
    | cons k ls =>
      rw [List.intercalate_cons_cons]
      simp only [List.length_append, List.length_cons] at tail ⊢
      omega

omit [DecidableEq α] in
/-- Terminating every line is joining them and terminating the last. -/
theorem flatMap_terminated (sep : List α) (ls : List (List α)) (some_line : ls ≠ []) :
    ls.flatMap (· ++ sep) = sep.intercalate ls ++ sep := by
  induction ls with
  | nil => exact absurd rfl some_line
  | cons l ls ih =>
    cases ls with
    | nil => simp
    | cons m ls => rw [List.flatMap_cons, ih (by simp), List.intercalate_cons_cons]; simp

/-! ### Lines ended by the second symbol alone -/

/-- A line without the `a` that may end it. -/
def chomp (a : α) (l : List α) : List α := if l.getLast? = some a then l.dropLast else l

/-- The lines before the first empty one, each ended by any `b` with an optional
`a` before it, and what follows the empty line; `line` is the line so far. -/
def lenientHead (a b : α) (line : List α) : List α → Option (List (List α) × List α)
  | [] => none
  | x :: t =>
    if x = b then
      if chomp a line = [] then some ([], t)
      else (lenientHead a b [] t).map fun head => (chomp a line :: head.1, head.2)
    else lenientHead a b (line ++ [x]) t

@[simp] theorem chomp_append (a : α) (l : List α) : chomp a (l ++ [a]) = l := by
  simp [chomp]

theorem mem_of_mem_chomp {a x : α} {l : List α} (mem : x ∈ chomp a l) : x ∈ l := by
  unfold chomp at mem
  split at mem
  · exact List.mem_of_mem_dropLast mem
  · exact mem

/-- A line without `b` is read up to its end. -/
theorem lenientHead_append {a b : α} {l : List α} (absent : b ∉ l) (line t : List α) :
    lenientHead a b line (l ++ t) = lenientHead a b (line ++ l) t := by
  induction l generalizing line with
  | nil => simp
  | cons x l ih =>
    obtain ⟨other, rest⟩ := not_or.mp (mt List.mem_cons.mpr absent)
    rw [List.cons_append, lenientHead, if_neg (Ne.symm other), ih rest]
    simp

/-- Terminated nonempty lines without `b` are read one by one. -/
theorem lenientHead_lines {a b : α} (ne : a ≠ b) {ls : List (List α)} (absent : ∀ l ∈ ls, b ∉ l)
    (nonempty : ∀ l ∈ ls, l ≠ []) (rest : List α) :
    lenientHead a b [] (ls.flatMap (· ++ [a, b]) ++ a :: b :: rest) = some (ls, rest) := by
  induction ls with
  | nil => simp [lenientHead, ne, chomp]
  | cons l ls ih =>
    have tail := ih (fun m mem => absent m (List.mem_cons_of_mem _ mem))
      (fun m mem => nonempty m (List.mem_cons_of_mem _ mem))
    have here : b ∉ l ++ [a] := by simpa [ne.symm] using absent l List.mem_cons_self
    have shape : (l :: ls).flatMap (· ++ [a, b]) ++ a :: b :: rest =
        (l ++ [a]) ++ b :: (ls.flatMap (· ++ [a, b]) ++ a :: b :: rest) := by simp
    rw [shape, lenientHead_append here, List.nil_append, lenientHead, if_pos rfl, chomp_append,
      if_neg (nonempty l List.mem_cons_self), tail]
    rfl

/-- No line read this way holds a `b`. -/
theorem lenientHead_absent {a b : α} {line s rest : List α} {ls : List (List α)} (start : b ∉ line)
    (read : lenientHead a b line s = some (ls, rest)) : ∀ l ∈ ls, b ∉ l := by
  induction s generalizing line ls with
  | nil => cases read
  | cons x s ih =>
    rw [lenientHead] at read
    split at read
    · split at read
      · cases read
        simp
      · obtain ⟨⟨ls', rest'⟩, later, same⟩ := Option.map_eq_some_iff.mp read
        cases same
        intro l mem
        rcases List.mem_cons.mp mem with rfl | mem
        · exact fun inside => start (mem_of_mem_chomp inside)
        · exact ih (by simp) later l mem
    · rename_i other
      exact ih (by simpa [Ne.symm other] using start) read

end Lines

end Text
