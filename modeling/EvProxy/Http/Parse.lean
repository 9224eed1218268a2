import EvProxy.Text.Lines
import EvProxy.Http.Request

/-!
# Parsing by lines

`parseRequest` works on buffer positions. Here it is shown to be a function of
the lines before the first blank line (`parseRequest_lines`): cut the block
strictly at CRLF, read the first line as request line, split every other line
at its first colon. Bytes after the blank line are never looked at
(`parseRequest_append`), and no round of the header loop is lost or left over
(`headerLoop_lines`).
-/

namespace EvProxy
open Text

/-- A header line split at its first colon, both parts trimmed. -/
def parseField (h : Bytes) : Option (Bytes × Bytes) :=
  (find [colon] h).map fun i => (trim (substr h 0 i), trim (h.drop (i + 1)))

/-- Append the headers of the lines `hs`; stop at a line without a colon. -/
def addHeaders : List Bytes → Request → Bool × Request
  | [], out => (true, out)
  | h :: hs, out =>
    match parseField h with
    | none => (false, out)
    | some kv => addHeaders hs { out with headers := out.headers ++ [kv] }

/-- A request head given as its lines. -/
def parseHead (line : Bytes) (hs : List Bytes) (out : Request) : ParseResult × Request :=
  if line = [] then (.badRequest, out)
  else
    match parseRequestLine line out with
    | (.ok, out) =>
      match addHeaders hs out with
      | (true, out) => checkFraming out
      | (false, out) => (.badRequest, out)
    | failed => failed

/-- Past the blank line the header loop stops at once. -/
theorem headerLoop_done {buf : Bytes} {stop fuel pos : Nat} (past : stop ≤ pos) (out : Request) :
    headerLoop buf stop fuel pos out = (true, out) := by
  have done : ¬ pos < stop := by omega
  cases fuel <;> simp [headerLoop, done]

/-- The loop finds the end of the line it stands at, and cuts the line out. -/
theorem line_at {buf h t : Bytes} {pos : Nat} (inside : pos ≤ buf.length) (free : Free cr lf h)
    (here : buf.drop pos = h ++ cr :: lf :: t) :
    findFrom [cr, lf] pos buf = some (pos + h.length) ∧ substr buf pos (pos + h.length - pos) = h := by
  constructor
  · rw [findFrom_eq_some inside, here]
    exact find_terminator cr_ne_lf free t
  · rw [substr, here, Nat.add_sub_cancel_left, List.take_left]

/-- One round of the header loop consumes one line. -/
theorem headerLoop_round {buf h t : Bytes} {stop pos fuel : Nat} (inside : pos ≤ buf.length)
    (free : Free cr lf h) (nonempty : h ≠ []) (here : buf.drop pos = h ++ cr :: lf :: t)
    (before : pos + h.length ≤ stop) (out : Request) :
    headerLoop buf stop (fuel + 1) pos out =
      match parseField h with
      | none => (false, out)
      | some kv => headerLoop buf stop fuel (pos + h.length + 2) { out with headers := out.headers ++ [kv] } := by
  have size := List.length_pos_iff.mpr nonempty
  obtain ⟨eol, line⟩ := line_at inside free here
  have more : pos < stop := by omega
  have within : ¬ stop < pos + h.length := by omega
  simp only [headerLoop, more, if_true, eol, within, if_false, line, nonempty]
  cases cut : find [colon] h with
  | none => simp [parseField, cut]
  | some i => simp [parseField, cut]

/-- A block of at least two lines, from its first line on to its second. -/
theorem next_line {buf h m tail : Bytes} {hs : List Bytes} {pos : Nat}
    (here : buf.drop pos = [cr, lf].intercalate (h :: m :: hs) ++ tail) :
    buf.drop pos = h ++ cr :: lf :: ([cr, lf].intercalate (m :: hs) ++ tail) ∧
      buf.drop (pos + h.length + 2) = [cr, lf].intercalate (m :: hs) ++ tail ∧ pos + h.length + 2 ≤ buf.length ∧
      ([cr, lf].intercalate (h :: m :: hs)).length = h.length + 2 + ([cr, lf].intercalate (m :: hs)).length := by
  rw [List.intercalate_cons_cons, List.append_assoc, List.append_assoc] at here
  have size := congrArg List.length here
  simp only [List.length_drop, List.length_append, List.length_cons, List.length_nil] at size
  refine ⟨here, ?_, by omega, ?_⟩
  · rw [Nat.add_assoc, ← List.drop_drop, here, ← List.drop_drop, List.drop_left]
    rfl
  · rw [List.intercalate_cons_cons]
    simp only [List.length_append, List.length_cons, List.length_nil]

/-- What holds behind the blank line, and carries over from behind a line to its
start, holds at the start of the block that ends at `stop`. -/
theorem lines_rule {buf rest : Bytes} {stop : Nat} {P : Nat → List Bytes → Prop} (done : P (stop + 2) [])
    (line : ∀ {h t : Bytes} {hs : List Bytes} {pos : Nat}, pos ≤ buf.length → Free cr lf h → h ≠ [] →
      buf.drop pos = h ++ cr :: lf :: t → pos + h.length ≤ stop → P (pos + h.length + 2) hs → P pos (h :: hs))
    {hs : List Bytes} (some_line : hs ≠ []) (free : ∀ h ∈ hs, Free cr lf h) (nonempty : ∀ h ∈ hs, h ≠ []) {pos : Nat}
    (inside : pos ≤ buf.length) (ends : pos + ([cr, lf].intercalate hs).length = stop)
    (here : buf.drop pos = [cr, lf].intercalate hs ++ cr :: lf :: cr :: lf :: rest) : P pos hs := by
  induction hs generalizing pos with
  | nil => exact absurd rfl some_line
  | cons h hs ih =>
    have freeh := free h List.mem_cons_self
    have nonemptyh := nonempty h List.mem_cons_self
    cases hs with
    | nil =>
      rw [List.intercalate_singleton] at here ends
      refine line inside freeh nonemptyh here ends.le ?_
      rwa [ends]
    | cons m hs =>
      obtain ⟨first, next, bound, len⟩ := next_line here
      refine line inside freeh nonemptyh first (by omega) ?_
      exact ih (by simp) (fun k mem => free k (List.mem_cons_of_mem _ mem))
        (fun k mem => nonempty k (List.mem_cons_of_mem _ mem)) bound (by omega) next

/-- **The header loop reads exactly the lines up to the blank line.** -/
theorem headerLoop_lines {buf rest : Bytes} {hs : List Bytes} (some_line : hs ≠ [])
    (free : ∀ h ∈ hs, Free cr lf h) (nonempty : ∀ h ∈ hs, h ≠ []) {pos fuel : Nat}
    (inside : pos ≤ buf.length) (enough : hs.length ≤ fuel)
    (here : buf.drop pos = [cr, lf].intercalate hs ++ cr :: lf :: cr :: lf :: rest) (out : Request) :
    headerLoop buf (pos + ([cr, lf].intercalate hs).length) fuel pos out = addHeaders hs out := by
  refine lines_rule (P := fun start hs => ∀ fuel out, hs.length ≤ fuel →
      headerLoop buf (pos + ([cr, lf].intercalate _).length) fuel start out = addHeaders hs out)
    ?_ ?_ some_line free nonempty inside rfl here fuel out enough
  · intro fuel out _
    exact headerLoop_done (Nat.le_add_right _ 2) out
  · intro h t hs pos inside freeh nonemptyh here before ih fuel out enough
    obtain ⟨fuel, rfl⟩ : ∃ n, fuel = n + 1 := ⟨fuel - 1, by simp at enough; omega⟩
    rw [headerLoop_round inside freeh nonemptyh here before, addHeaders]
    cases parseField h with
    | none => rfl
    | some kv => exact ih fuel _ (by simpa using enough)

/-- Up to the first blank line a buffer is a block of CRLF-free lines, all but
the first nonempty. -/
theorem head_lines {buf : Bytes} {stop : Nat} (blank : find [cr, lf, cr, lf] buf = some stop) :
    ∃ line hs, splitLines cr lf (buf.take stop) = line :: hs ∧
      (∀ h ∈ line :: hs, Free cr lf h) ∧ (∀ h ∈ hs, h ≠ []) ∧
      ([cr, lf].intercalate (line :: hs)).length = stop ∧
      buf = [cr, lf].intercalate (line :: hs) ++ cr :: lf :: cr :: lf :: buf.drop (stop + 4) := by
  cases cut : splitLines cr lf (buf.take stop) with
  | nil => exact absurd cut (splitLines_ne_nil _ _ _)
  | cons line hs =>
    have whole := join_splitLines cr lf (buf.take stop)
    rw [cut] at whole
    have free : ∀ h ∈ line :: hs, Free cr lf h := by
      intro h mem
      rw [← cut] at mem
      exact free_of_mem_splitLines mem
    have shape : buf = [cr, lf].intercalate (line :: hs) ++ cr :: lf :: cr :: lf :: buf.drop (stop + 4) := by
      rw [whole]
      simpa using find_split blank
    have len : ([cr, lf].intercalate (line :: hs)).length = stop := by
      have := find_le blank
      rw [whole, List.length_take]
      omega
    refine ⟨line, hs, rfl, free, ?_, len, shape⟩
    rw [shape, ← len] at blank
    exact nonempty_of_find_blank cr_ne_lf free blank

/-- The header loop on a buffer whose head is the lines `line :: hs`. -/
theorem headerLoop_head {buf line rest : Bytes} {hs : List Bytes} {stop : Nat}
    (free : ∀ h ∈ line :: hs, Free cr lf h) (nonempty : ∀ h ∈ hs, h ≠ [])
    (len : ([cr, lf].intercalate (line :: hs)).length = stop)
    (shape : buf = [cr, lf].intercalate (line :: hs) ++ cr :: lf :: cr :: lf :: rest) (out : Request) :
    headerLoop buf stop buf.length (line.length + 2) out = addHeaders hs out := by
  cases hs with
  | nil =>
    rw [List.intercalate_singleton] at len
    exact headerLoop_done (by omega) out
  | cons m hs =>
    rw [List.intercalate_cons_cons] at len shape
    have here : buf.drop (line.length + 2) =
        [cr, lf].intercalate (m :: hs) ++ cr :: lf :: cr :: lf :: rest := by
      rw [shape, List.append_assoc, List.append_assoc, ← List.drop_drop, List.drop_left]
      rfl
    have rounds := length_le_join [cr, lf] nonempty
    have size := congrArg List.length shape
    simp only [List.length_append, List.length_cons, List.length_nil] at len size rounds
    have stop_eq : stop = line.length + 2 + ([cr, lf].intercalate (m :: hs)).length := by omega
    rw [stop_eq]
    exact headerLoop_lines (by simp) (fun h mem => free h (List.mem_cons_of_mem _ mem)) nonempty
      (by omega) (by simp only [List.length_cons]; omega) here out

/-- The first line of the head, as the parser finds and cuts it. -/
theorem find_lineEnd {buf line rest : Bytes} {hs : List Bytes} (free : Free cr lf line)
    (shape : buf = [cr, lf].intercalate (line :: hs) ++ cr :: lf :: rest) :
    find [cr, lf] buf = some line.length ∧ substr buf 0 line.length = line := by
  obtain ⟨t, first⟩ : ∃ t, buf = line ++ cr :: lf :: t := by
    cases hs with
    | nil => exact ⟨rest, by simpa using shape⟩
    | cons m hs =>
      refine ⟨[cr, lf].intercalate (m :: hs) ++ cr :: lf :: rest, ?_⟩
      rw [List.intercalate_cons_cons] at shape
      simpa using shape
  rw [first, substr_zero, List.take_left]
  exact ⟨find_terminator cr_ne_lf free t, rfl⟩

/-- **`parseRequest` is a function of the lines before the blank line.** -/
theorem parseRequest_lines {buf : Bytes} {stop : Nat} (out : Request)
    (blank : find [cr, lf, cr, lf] buf = some stop) :
    ∃ line hs, splitLines cr lf (buf.take stop) = line :: hs ∧
      parseRequest buf out = parseHead line hs { out with headerBytes := stop + 4 } := by
  obtain ⟨line, hs, cut, free, nonempty, len, shape⟩ := head_lines blank
  refine ⟨line, hs, cut, ?_⟩
  obtain ⟨lineEnd, line_eq⟩ := find_lineEnd (free line List.mem_cons_self) shape
  simp only [parseRequest, blank, lineEnd, line_eq, List.length_eq_zero_iff, headerLoop_head free nonempty len shape]
  rfl

/-- Without a blank line nothing is parsed and nothing is written. -/
theorem parseRequest_incomplete {buf : Bytes} {out : Request}
    (none_yet : find [cr, lf, cr, lf] buf = none) : parseRequest buf out = (.incomplete, out) := by
  simp [parseRequest, none_yet]

/-- A head with its blank line is never called incomplete. -/
theorem find_eq_none_of_incomplete {buf : Bytes} {out : Request}
    (incomplete : (parseRequest buf out).1 = .incomplete) : find [cr, lf, cr, lf] buf = none := by
  cases blank : find [cr, lf, cr, lf] buf with
  | none => rfl
  | some stop =>
    obtain ⟨line, hs, -, parsed⟩ := parseRequest_lines out blank
    rw [parsed] at incomplete
    have decided : (parseHead line hs { out with headerBytes := stop + 4 }).1 ≠ .incomplete := by
      simp only [parseHead, parseRequestLine, checkFraming]
      grind
    exact absurd incomplete decided

/-- The parser never looks past the blank line. -/
theorem parseRequest_append {buf : Bytes} {stop : Nat} (out : Request) (t : Bytes)
    (blank : find [cr, lf, cr, lf] buf = some stop) :
    parseRequest (buf ++ t) out = parseRequest buf out := by
  obtain ⟨line, hs, cut, parsed⟩ := parseRequest_lines out blank
  obtain ⟨line', hs', cut', parsed'⟩ := parseRequest_lines out (find_append_left t blank)
  have bound := find_le blank
  rw [List.take_append_of_le_length (by omega), cut] at cut'
  obtain ⟨rfl, rfl⟩ := List.cons.inj cut'
  rw [parsed, parsed']

end EvProxy
