import EvProxy.Text.Checked
import EvProxy.Http.Parse

/-!
# Parsing never leaves the buffer

`parse_request` once more, written with checked string operations: every
`substr` and index may report a position past the end, every difference of
positions an underflow, and the header loop a branch that should not be taken, a
round too many, or an end other than the terminator. On no input does it report
anything (`parseRequestChecked_eq`).
-/

namespace EvProxy
open Text

def trimChecked (s : Bytes) : Checked Bytes := stripChecked (bytes " \t") s

def splitAuthorityChecked (authority : Bytes) (out : Request) : Checked (Option Request) := do
  let front ← indexAt authority 0
  if front = 91 then
    match find [93] authority with
    | none => .ok none
    | some close =>
      let host ← substrAt authority 1 (← minus close 1)
      let out := { out with host := host }
      if close + 1 < authority.length then
        let next ← indexAt authority (close + 1)
        if next = colon then
          let port ← suffixAt authority (close + 2)
          .ok (some { out with port := port })
        else .ok (some out)
      else .ok (some out)
  else
    match rfind colon authority with
    | none => .ok (some { out with host := authority })
    | some i =>
      let host ← substrAt authority 0 i
      let port ← suffixAt authority (i + 1)
      .ok (some { out with host := host, port := port })

def checkAuthorityChecked (authority : Bytes) (out : Request) : Checked (Bool × Request) :=
  if authority = [] then .ok (false, out)
  else do
    let split ← splitAuthorityChecked authority out
    match split with
    | none => .ok (false, out)
    | some out =>
      if out.host = [] ∨ out.port = [] then .ok (false, out)
      else if allDigits out.port = false then .ok (false, out)
      else .ok (true, out)

def splitAbsoluteUrlChecked (url : Bytes) (out : Request) : Checked (Bool × Request) := do
  let scheme := bytes "http://"
  let start ← substrAt url 0 scheme.length
  if lower start ≠ scheme then .ok (false, out)
  else
    match findFrom [slash] scheme.length url with
    | none =>
      let authority ← suffixAt url scheme.length
      checkAuthorityChecked authority { out with path := bytes "/" }
    | some pathStart =>
      let authority ← substrAt url scheme.length (← minus pathStart scheme.length)
      let path ← suffixAt url pathStart
      checkAuthorityChecked authority { out with path := path }

def parseRequestLineChecked (line : Bytes) (out : Request) : Checked (ParseResult × Request) :=
  match find [space] line with
  | none => .ok (.badRequest, out)
  | some sp1 =>
    match findFrom [space] (sp1 + 1) line with
    | none => .ok (.badRequest, out)
    | some sp2 => do
      let method ← substrAt line 0 sp1
      let version ← suffixAt line (sp2 + 1)
      let out := { out with method := method, version := version }
      let url ← substrAt line (sp1 + 1) (← minus (← minus sp2 sp1) 1)
      if out.method ≠ bytes "GET" ∧ out.method ≠ bytes "HEAD" ∧ out.method ≠ bytes "POST" then
        .ok (.notImplemented, out)
      else
        let split ← splitAbsoluteUrlChecked url out
        match split with
        | (false, out) => .ok (.badRequest, out)
        | (true, out) => .ok (.ok, out)

/-- The header loop; besides the request it returns the position it has reached. -/
def headerLoopChecked (buf : Bytes) (stop : Nat) : Nat → Nat → Request → Checked (Bool × Nat × Request)
  | 0, pos, out => if pos < stop then .error .spent else .ok (true, pos, out)
  | fuel + 1, pos, out =>
    if pos < stop then
      match findFrom [cr, lf] pos buf with
      | none => .error .unreachable
      | some eol =>
        if stop < eol then .error .unreachable
        else do
          let h ← substrAt buf pos (← minus eol pos)
          if h = [] then .error .unreachable
          else
            match find [colon] h with
            | none => .ok (false, eol + 2, out)
            | some i =>
              let name ← trimChecked (← substrAt h 0 i)
              let value ← trimChecked (← suffixAt h (i + 1))
              headerLoopChecked buf stop fuel (eol + 2) { out with headers := out.headers ++ [(name, value)] }
    else .ok (true, pos, out)

/-- `parse_request`: past the loop, everything up to the terminator must be consumed. -/
def parseRequestChecked (buf : Bytes) (out : Request) : Checked (ParseResult × Request) :=
  match find [cr, lf, cr, lf] buf with
  | none => .ok (.incomplete, out)
  | some stop =>
    let out := { out with headerBytes := stop + 4 }
    match find [cr, lf] buf with
    | none => .ok (.badRequest, out)
    | some lineEnd =>
      if lineEnd = 0 then .ok (.badRequest, out)
      else do
        let line ← substrAt buf 0 lineEnd
        let first ← parseRequestLineChecked line out
        match first with
        | (.ok, out) =>
          let rest ← headerLoopChecked buf stop buf.length (lineEnd + 2) out
          match rest with
          | (true, pos, out) =>
            require (pos = stop + 2) .misplaced
            .ok (checkFraming out)
          | (false, _, out) => .ok (.badRequest, out)
        | failed => .ok failed

theorem trimChecked_eq (s : Bytes) : trimChecked s = .ok (trim s) := stripChecked_eq _ s

theorem splitAuthorityChecked_eq {authority : Bytes} (nonempty : authority ≠ []) (out : Request) :
    splitAuthorityChecked authority out = .ok (splitAuthority authority out) := by
  have size := List.length_pos_iff.mpr nonempty
  have head : authority.head? = some authority[0] := by rw [List.head?_eq_getElem?, List.getElem?_eq_getElem size]
  simp only [splitAuthorityChecked, splitAuthority, indexAt_eq size, bind_ok, head, Option.some.injEq]
  split
  · rename_i bracket
    cases found : find [93] authority with
    | none => rfl
    | some close =>
      have inside := find_le found
      simp only [List.length_singleton] at inside
      -- the bracket is not its own closing one
      have later : 1 ≤ close := by
        by_contra first
        have zero : close = 0 := by omega
        obtain ⟨cut, -⟩ := find_singleton_eq_some found
        have start := congrArg List.head? cut
        rw [zero, head, bracket] at start
        cases start
      simp only [minus_eq later, substrAt_eq (show 1 ≤ authority.length by omega), bind_ok]
      by_cases more : close + 1 < authority.length
      · simp only [more, if_true, indexAt_eq more, bind_ok, List.getElem?_eq_getElem more, Option.some.injEq,
          suffixAt_eq (show close + 2 ≤ authority.length by omega)]
        split <;> rfl
      · simp [more]
  · cases found : rfind colon authority with
    | none => rfl
    | some i =>
      have inside : i + 1 ≤ authority.length := by
        have size := congrArg List.length (rfind_eq_some found).1
        simp only [List.length_append, List.length_cons, List.length_take, List.length_drop] at size
        omega
      simp only [substrAt_eq (Nat.zero_le _), suffixAt_eq inside, bind_ok]

theorem checkAuthorityChecked_eq (authority : Bytes) (out : Request) :
    checkAuthorityChecked authority out = .ok (checkAuthority authority out) := by
  unfold checkAuthorityChecked checkAuthority
  split
  · rfl
  · rename_i nonempty
    simp only [splitAuthorityChecked_eq nonempty, bind_ok]
    cases splitAuthority authority out with
    | none => rfl
    | some out =>
      by_cases empty : out.host = [] ∨ out.port = []
      · simp [empty]
      · cases digits : allDigits out.port <;> simp [empty, digits]

theorem splitAbsoluteUrlChecked_eq (url : Bytes) (out : Request) :
    splitAbsoluteUrlChecked url out = .ok (splitAbsoluteUrl url out) := by
  simp only [splitAbsoluteUrlChecked, splitAbsoluteUrl, substrAt_eq (Nat.zero_le _), bind_ok]
  split
  · rfl
  · rename_i scheme
    have long : (bytes "http://").length ≤ url.length := by
      have size := congrArg List.length (not_not.mp scheme)
      simp only [lower, List.length_map, substr_zero, List.length_take] at size
      omega
    cases found : findFrom [slash] (bytes "http://").length url with
    | none => simp only [suffixAt_eq long, bind_ok, checkAuthorityChecked_eq]
    | some pathStart =>
      have order := findFrom_ge found
      have inside : pathStart ≤ url.length := by
        obtain ⟨i, rfl⟩ := Nat.exists_eq_add_of_le order
        have bound := find_le ((findFrom_eq_some long).mp found)
        rw [List.length_drop] at bound
        omega
      simp only [minus_eq order, substrAt_eq long, suffixAt_eq inside, bind_ok, checkAuthorityChecked_eq]

theorem parseRequestLineChecked_eq (line : Bytes) (out : Request) :
    parseRequestLineChecked line out = .ok (parseRequestLine line out) := by
  unfold parseRequestLineChecked parseRequestLine
  cases first : find [space] line with
  | none => rfl
  | some sp1 =>
    have inside := find_le first
    simp only [List.length_singleton] at inside
    cases second : findFrom [space] (sp1 + 1) line with
    | none => simp only [second]
    | some sp2 =>
      have order := findFrom_ge second
      have inside' : sp2 + 1 ≤ line.length := by
        obtain ⟨i, rfl⟩ := Nat.exists_eq_add_of_le order
        have bound := find_le ((findFrom_eq_some inside).mp second)
        rw [List.length_drop, List.length_singleton] at bound
        omega
      simp only [second, substrAt_eq (Nat.zero_le _), suffixAt_eq inside', minus_eq (show sp1 ≤ sp2 by omega),
        minus_eq (show 1 ≤ sp2 - sp1 by omega), substrAt_eq inside, bind_ok, splitAbsoluteUrlChecked_eq]
      split
      · rfl
      · generalize splitAbsoluteUrl _ _ = split
        obtain ⟨ok, out⟩ := split
        cases ok <;> rfl

theorem headerLoopChecked_done {buf : Bytes} {stop fuel pos : Nat} (past : stop ≤ pos) (out : Request) :
    headerLoopChecked buf stop fuel pos out = .ok (true, pos, out) := by
  have done : ¬ pos < stop := by omega
  cases fuel <;> simp [headerLoopChecked, done]

/-- One round of the checked loop consumes one line, and reports nothing. -/
theorem headerLoopChecked_round {buf h t : Bytes} {stop pos fuel : Nat} (inside : pos ≤ buf.length)
    (free : Free cr lf h) (nonempty : h ≠ []) (here : buf.drop pos = h ++ cr :: lf :: t)
    (before : pos + h.length ≤ stop) (out : Request) :
    headerLoopChecked buf stop (fuel + 1) pos out =
      match parseField h with
      | none => .ok (false, pos + h.length + 2, out)
      | some kv =>
        headerLoopChecked buf stop fuel (pos + h.length + 2) { out with headers := out.headers ++ [kv] } := by
  have size := List.length_pos_iff.mpr nonempty
  obtain ⟨eol, line⟩ := line_at inside free here
  have more : pos < stop := by omega
  have within : ¬ stop < pos + h.length := by omega
  simp only [headerLoopChecked, more, if_true, eol, within, if_false, minus_eq (Nat.le_add_right pos h.length),
    substrAt_eq inside, line, nonempty, bind_ok]
  cases cut : find [colon] h with
  | none => simp [parseField, cut]
  | some i =>
    have bound : i + 1 ≤ h.length := find_le cut
    simp only [parseField, cut, Option.map_some, substrAt_eq (Nat.zero_le _), suffixAt_eq bound, trimChecked_eq,
      bind_ok]

/-- **The checked loop reads the lines and ends at the blank one.** -/
theorem headerLoopChecked_lines {buf rest : Bytes} {hs : List Bytes} (some_line : hs ≠ [])
    (free : ∀ h ∈ hs, Free cr lf h) (nonempty : ∀ h ∈ hs, h ≠ []) {pos fuel : Nat}
    (inside : pos ≤ buf.length) (enough : hs.length ≤ fuel)
    (here : buf.drop pos = [cr, lf].intercalate hs ++ cr :: lf :: cr :: lf :: rest) (out : Request) :
    ∃ reached, headerLoopChecked buf (pos + ([cr, lf].intercalate hs).length) fuel pos out =
        .ok ((addHeaders hs out).1, reached, (addHeaders hs out).2) ∧
      ((addHeaders hs out).1 = true → reached = pos + ([cr, lf].intercalate hs).length + 2) := by
  refine lines_rule (P := fun start hs => ∀ fuel out, hs.length ≤ fuel →
      ∃ reached, headerLoopChecked buf (pos + ([cr, lf].intercalate _).length) fuel start out =
          .ok ((addHeaders hs out).1, reached, (addHeaders hs out).2) ∧
        ((addHeaders hs out).1 = true → reached = pos + ([cr, lf].intercalate _).length + 2))
    ?_ ?_ some_line free nonempty inside rfl here fuel out enough
  · intro fuel out _
    exact ⟨_, headerLoopChecked_done (Nat.le_add_right _ 2) out, fun _ => rfl⟩
  · intro h t hs pos inside freeh nonemptyh here before ih fuel out enough
    obtain ⟨fuel, rfl⟩ : ∃ n, fuel = n + 1 := ⟨fuel - 1, by simp at enough; omega⟩
    rw [headerLoopChecked_round inside freeh nonemptyh here before, addHeaders]
    cases parseField h with
    | none => exact ⟨_, rfl, fun wrong => by cases wrong⟩
    | some kv => exact ih fuel _ (by simpa using enough)

/-- The checked loop on a buffer whose head is the lines `line :: hs`. -/
theorem headerLoopChecked_head {buf line rest : Bytes} {hs : List Bytes} {stop : Nat}
    (free : ∀ h ∈ line :: hs, Free cr lf h) (nonempty : ∀ h ∈ hs, h ≠ [])
    (len : ([cr, lf].intercalate (line :: hs)).length = stop)
    (shape : buf = [cr, lf].intercalate (line :: hs) ++ cr :: lf :: cr :: lf :: rest) (out : Request) :
    ∃ reached, headerLoopChecked buf stop buf.length (line.length + 2) out =
        .ok ((addHeaders hs out).1, reached, (addHeaders hs out).2) ∧
      ((addHeaders hs out).1 = true → reached = stop + 2) := by
  cases hs with
  | nil =>
    rw [List.intercalate_singleton] at len
    exact ⟨_, headerLoopChecked_done (by omega) out, fun _ => by omega⟩
  | cons m hs =>
    have here : buf.drop 0 = [cr, lf].intercalate (line :: m :: hs) ++ cr :: lf :: cr :: lf :: rest := shape
    obtain ⟨-, next, bound, total⟩ := next_line here
    have rounds := length_le_join [cr, lf] nonempty
    have size := congrArg List.length shape
    rw [List.length_append] at size
    rw [Nat.zero_add] at next bound
    have stop_eq : stop = line.length + 2 + ([cr, lf].intercalate (m :: hs)).length := by omega
    rw [stop_eq]
    exact headerLoopChecked_lines (by simp) (fun h mem => free h (List.mem_cons_of_mem _ mem)) nonempty
      bound (by omega) next out

/-- **No input makes the parser misuse a position**: it computes what the unchecked
parser does, its loop ends at the terminator, and the two early exits are never taken. -/
theorem parseRequestChecked_eq (buf : Bytes) (out : Request) :
    parseRequestChecked buf out = .ok (parseRequest buf out) := by
  cases blank : find [cr, lf, cr, lf] buf with
  | none => simp only [parseRequestChecked, parseRequest, blank]
  | some stop =>
    obtain ⟨line, hs, cut, free, nonempty, len, shape⟩ := head_lines blank
    obtain ⟨lineEnd, line_eq⟩ := find_lineEnd (free line List.mem_cons_self) shape
    simp only [parseRequestChecked, parseRequest, blank, lineEnd, substrAt_eq (Nat.zero_le _), line_eq,
      parseRequestLineChecked_eq, bind_ok]
    split
    · rfl
    · generalize parseRequestLine line _ = first
      obtain ⟨result, out⟩ := first
      cases result with
      | ok =>
        obtain ⟨reached, loop, last⟩ := headerLoopChecked_head free nonempty len shape out
        simp only [loop, bind_ok, headerLoop_head free nonempty len shape]
        generalize addHeaders hs out = rest at last
        obtain ⟨complete, out⟩ := rest
        cases complete with
        | false => rfl
        | true => simp only [require_eq (last rfl), bind_ok]
      | _ => rfl

end EvProxy
