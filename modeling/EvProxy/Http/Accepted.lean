import EvProxy.Http.Url
import EvProxy.Http.Parse

/-!
# What an accepted request looks like

One inversion for each stage of the parser, and `parseRequest_ok`: a buffer
accepted into a fresh `Request` is a block of lines whose request line, target
and header list the request records, with the seams the rebuilt request
depends on (no blank in method or path, no slash in the host, digits in the
port, no CRLF anywhere).
-/

namespace EvProxy
open Text

/-- The methods the proxy implements. -/
def methods : List Bytes := [bytes "GET", bytes "HEAD", bytes "POST"]

/-- What `splitAbsoluteUrl` writes when it accepts `url`. -/
structure Target (url : Bytes) (r : Request) : Prop where
  host_ne : r.host ≠ []
  host_slash : slash ∉ r.host
  host_part : r.host <:+: url
  port_ne : r.port ≠ []
  port_digits : allDigits r.port = true
  path_slash : ∃ p, r.path = slash :: p
  path_part : r.path <:+: url ∨ r.path = [slash]

/-- An accepted URL gives a host, a port of digits and a path. -/
theorem splitAbsoluteUrl_true {url : Bytes} {out r : Request} (h : splitAbsoluteUrl url out = (true, r)) :
    r = { out with host := r.host, port := r.port, path := r.path } ∧ Target url r := by
  obtain ⟨scheme, authority, rest, parts, splits, host_ne, port_ne, digits⟩ := splitAbsoluteUrl_iff.mp h
  have only := splits.only
  have path : r.path = pathOf rest := by rw [only]
  have inside : authority <:+: url := ⟨scheme, rest, by rw [parts.whole, List.append_assoc]⟩
  have tail : rest <:+: url := ⟨scheme ++ authority, [], by rw [parts.whole]; simp⟩
  refine ⟨by rw [only], host_ne, fun mem => parts.free (splits.part.subset mem), splits.part.trans inside,
    port_ne, digits, ?_, ?_⟩
  · rw [path]
    exact (pathOf_eq parts.rest).1
  · rw [path]
    rcases (pathOf_eq parts.rest).2 with same | ⟨-, default⟩
    · rw [← same]
      exact Or.inl tail
    · exact Or.inr (default.trans (by decide))

/-- An accepted request line: its three tokens, and the target of the second. -/
theorem parseRequestLine_ok {line : Bytes} {out r : Request} (h : parseRequestLine line out = (.ok, r)) :
    ∃ url, line = r.method ++ space :: (url ++ space :: r.version) ∧
      space ∉ r.method ∧ space ∉ url ∧ r.method ∈ methods ∧ Target url r ∧
      r = { out with method := r.method, version := r.version, host := r.host, port := r.port, path := r.path } := by
  unfold parseRequestLine at h
  cases first : find [space] line with
  | none => simp [first] at h
  | some sp1 =>
  simp only [first] at h
  have inside := find_le first
  simp only [List.length_singleton] at inside
  obtain ⟨cut, absent⟩ := find_singleton_eq_some first
  cases second : findFrom [space] (sp1 + 1) line with
  | none => simp [second] at h
  | some sp2 =>
  simp only [second] at h
  obtain ⟨i, rfl⟩ : ∃ i, sp2 = sp1 + 1 + i := ⟨sp2 - (sp1 + 1), by have := findFrom_ge second; omega⟩
  obtain ⟨cut', absent'⟩ := find_singleton_eq_some ((findFrom_eq_some inside).mp second)
  have width : sp1 + 1 + i - sp1 - 1 = i := by omega
  rw [width] at h
  split at h
  · simp at h
  rename_i known
  generalize split_eq : splitAbsoluteUrl (substr line (sp1 + 1) i)
    { out with method := substr line 0 sp1, version := line.drop (sp1 + 1 + i + 1) } = split at h
  obtain ⟨accepted, r'⟩ := split
  cases accepted with
  | false => simp at h
  | true =>
    simp only [Prod.mk.injEq, true_and] at h
    subst h
    obtain ⟨only, target⟩ := splitAbsoluteUrl_true split_eq
    have method : r'.method = line.take sp1 := by rw [only, substr_zero]
    have version : r'.version = (line.drop (sp1 + 1)).drop (i + 1) := by
      rw [only, List.drop_drop]
      rfl
    refine ⟨substr line (sp1 + 1) i, ?_, by rw [method]; exact absent, absent', ?_, target, by rw [only]⟩
    · rw [method, version, substr, ← cut', ← cut]
    · have listed : r'.method = bytes "GET" ∨ r'.method = bytes "HEAD" ∨ r'.method = bytes "POST" := by
        rw [method, ← substr_zero]
        by_contra none_of
        exact known ⟨fun e => none_of (Or.inl e), fun e => none_of (Or.inr (Or.inl e)),
          fun e => none_of (Or.inr (Or.inr e))⟩
      simpa [methods] using listed

/-- Three tokens without blanks in the first two: the target decides. -/
theorem parseRequestLine_tokens {method url version : Bytes} {out r : Request} (method_space : space ∉ method)
    (url_space : space ∉ url) (known : method ∈ methods)
    (accepted : splitAbsoluteUrl url { out with method := method, version := version } = (true, r)) :
    parseRequestLine (method ++ space :: (url ++ space :: version)) out = (.ok, r) := by
  have first : find [space] (method ++ space :: (url ++ space :: version)) = some method.length :=
    find_singleton_append method_space
  have back : (method ++ space :: (url ++ space :: version)).drop (method.length + 1) = url ++ space :: version := by
    rw [← List.drop_drop, List.drop_left]
    rfl
  have second : findFrom [space] (method.length + 1) (method ++ space :: (url ++ space :: version)) =
      some (method.length + 1 + url.length) := by
    rw [findFrom_eq_some (by simp), back]
    exact find_singleton_append url_space
  have target : substr (method ++ space :: (url ++ space :: version)) (method.length + 1)
      (method.length + 1 + url.length - method.length - 1) = url := by
    rw [substr, back, show method.length + 1 + url.length - method.length - 1 = url.length by omega, List.take_left]
  have tail : (method ++ space :: (url ++ space :: version)).drop (method.length + 1 + url.length + 1) = version := by
    rw [Nat.add_assoc, ← List.drop_drop, back, ← List.drop_drop, List.drop_left]
    rfl
  have implemented : ¬ (method ≠ bytes "GET" ∧ method ≠ bytes "HEAD" ∧ method ≠ bytes "POST") := by
    rintro ⟨get, head, post⟩
    simp [methods, get, head, post] at known
  simp only [parseRequestLine, first, second, target, tail, substr_zero, List.take_left, if_neg implemented, accepted]

/-- The request line's target went through `splitAbsoluteUrl`. -/
theorem parseRequestLine_split {line : Bytes} {out r : Request} (h : parseRequestLine line out = (.ok, r)) :
    ∃ url out', url <:+: line ∧ out'.port = out.port ∧ splitAbsoluteUrl url out' = (true, r) := by
  unfold parseRequestLine at h
  split at h
  · cases h
  · split at h
    · cases h
    · dsimp only at h
      split at h
      · cases h
      · split at h
        · cases h
        · rename_i split_eq
          cases h
          refine ⟨_, _, substr_part _ _ _, ?_, split_eq⟩
          rfl

/-- The header stage succeeds exactly when every line has a colon. -/
theorem addHeaders_true {hs : List Bytes} {out r : Request} (h : addHeaders hs out = (true, r)) :
    ∃ kvs, hs.map parseField = kvs.map some ∧ r = { out with headers := out.headers ++ kvs } := by
  induction hs generalizing out with
  | nil =>
    simp only [addHeaders, Prod.mk.injEq, true_and] at h
    exact ⟨[], rfl, by simp [h]⟩
  | cons l hs ih =>
    rw [addHeaders] at h
    cases field : parseField l with
    | none => simp [field] at h
    | some kv =>
      simp only [field] at h
      obtain ⟨kvs, parsed, r_eq⟩ := ih h
      exact ⟨kv :: kvs, by simp [field, parsed], by rw [r_eq]; simp⟩

/-- A colon in every line, and every field is taken. -/
theorem addHeaders_fields {hs : List Bytes} {kvs : List (Bytes × Bytes)} (fields : hs.map parseField = kvs.map some)
    (out : Request) : addHeaders hs out = (true, { out with headers := out.headers ++ kvs }) := by
  induction hs generalizing kvs out with
  | nil =>
    cases kvs with
    | nil => simp [addHeaders]
    | cons kv kvs => cases fields
  | cons h hs ih =>
    cases kvs with
    | nil => cases fields
    | cons kv kvs =>
      obtain ⟨here, rest⟩ := List.cons.inj fields
      rw [addHeaders, here]
      simp [ih rest]

/-- The framing checks write only the content length. -/
theorem checkFraming_ok {out r : Request} (h : checkFraming out = (.ok, r)) :
    let cl := headerValue out (bytes "Content-Length")
    find (bytes "chunked") (lower (headerValue out (bytes "Transfer-Encoding"))) = none ∧
    (cl = [] → r = out) ∧
    (cl ≠ [] → allDigits cl = true ∧ r = { out with contentLength := strtoul cl }) := by
  unfold checkFraming at h
  split at h
  · simp at h
  rename_i plain
  refine ⟨by simpa using plain, ?_⟩
  simp only at h
  split at h
  · rename_i present
    split at h
    · simp at h
    · rename_i digits
      simp only [Prod.mk.injEq, true_and] at h
      exact ⟨fun empty => absurd empty present, fun _ => ⟨by simpa using digits, h.symm⟩⟩
  · rename_i empty
    simp only [Prod.mk.injEq, true_and] at h
    exact ⟨fun _ => h.symm, fun present => absurd present empty⟩

/-- The stages of an accepted head: the request line, then the fields, then the
framing checks, which write only the content length. -/
theorem parseHead_ok {line : Bytes} {hs : List Bytes} {out r : Request} (h : parseHead line hs out = (.ok, r)) :
    ∃ r1 r2 kvs, parseRequestLine line out = (.ok, r1) ∧ hs.map parseField = kvs.map some ∧
      r2 = { r1 with headers := r1.headers ++ kvs } ∧ checkFraming r2 = (.ok, r) ∧
      r = { r2 with contentLength := r.contentLength } := by
  unfold parseHead at h
  split at h
  · simp at h
  generalize line_eq : parseRequestLine line out = lineResult at h
  obtain ⟨result, r1⟩ := lineResult
  cases result with
  | ok =>
    simp only at h
    generalize headers_eq : addHeaders hs r1 = headerResult at h
    obtain ⟨ok, r2⟩ := headerResult
    cases ok with
    | false => simp at h
    | true =>
      obtain ⟨kvs, fields, r2_eq⟩ := addHeaders_true headers_eq
      obtain ⟨-, noLength, someLength⟩ := checkFraming_ok h
      refine ⟨r1, r2, kvs, rfl, fields, r2_eq, h, ?_⟩
      by_cases cl : headerValue r2 (bytes "Content-Length") = []
      · rw [noLength cl]
      · rw [(someLength cl).2]
  | incomplete => simp at h
  | badRequest => simp at h
  | notImplemented => simp at h

/-- The buffer's head and what the accepted request records of it. -/
structure Accepted (buf : Bytes) (r : Request) (stop : Nat) (line url : Bytes) (hs : List Bytes) : Prop where
  blank : find [cr, lf, cr, lf] buf = some stop
  lines : splitLines cr lf (buf.take stop) = line :: hs
  free : ∀ h ∈ line :: hs, Free cr lf h
  nonempty : ∀ h ∈ hs, h ≠ []
  shape : line = r.method ++ space :: (url ++ space :: r.version)
  method_space : space ∉ r.method
  url_space : space ∉ url
  method : r.method ∈ methods
  target : Target url r
  headers : hs.map parseField = r.headers.map some
  headerBytes : r.headerBytes = stop + 4
  plain : find (bytes "chunked") (lower (headerValue r (bytes "Transfer-Encoding"))) = none
  noLength : headerValue r (bytes "Content-Length") = [] → r.contentLength = 0
  someLength : headerValue r (bytes "Content-Length") ≠ [] →
    allDigits (headerValue r (bytes "Content-Length")) = true ∧
    r.contentLength = strtoul (headerValue r (bytes "Content-Length"))

/-- **Inversion of the parser** on a fresh request. -/
theorem parseRequest_ok {buf : Bytes} {r : Request} (h : parseRequest buf {} = (.ok, r)) :
    ∃ stop line url hs, Accepted buf r stop line url hs := by
  cases blank : find [cr, lf, cr, lf] buf with
  | none => simp [parseRequest_incomplete blank] at h
  | some stop =>
  obtain ⟨line, hs, cut, parsed⟩ := parseRequest_lines {} blank
  obtain ⟨line', hs', cut', free, nonempty, -, -⟩ := head_lines blank
  rw [cut] at cut'
  obtain ⟨rfl, rfl⟩ := List.cons.inj cut'
  rw [parsed] at h
  obtain ⟨r1, r2, kvs, line_eq, fields, r2_eq, framing, keeps⟩ := parseHead_ok h
  obtain ⟨url, shape, noSpace, noSpace', method, target, r1_eq⟩ := parseRequestLine_ok line_eq
  obtain ⟨plain, noLength, someLength⟩ := checkFraming_ok framing
  have r1_headers : r1.headers = [] := by rw [r1_eq]
  have r1_bytes : r1.headerBytes = stop + 4 := by rw [r1_eq]
  have r1_length : r1.contentLength = 0 := by rw [r1_eq]
  have lookup : ∀ name, headerValue r name = headerValue r2 name := by
    intro name
    rw [headerValue, headerValue, keeps]
  have r_eq : r = { r1 with headers := kvs, contentLength := r.contentLength } := by
    rw [keeps, r2_eq, r1_headers]
    rfl
  refine ⟨stop, line, url, hs, blank, cut, free, nonempty, ?_, ?_, noSpace', ?_, ?_, ?_, ?_, ?_, ?_, ?_⟩
  · rw [r_eq]; exact shape
  · rw [r_eq]; exact noSpace
  · rw [r_eq]; exact method
  · rw [r_eq]
    exact ⟨target.host_ne, target.host_slash, target.host_part, target.port_ne, target.port_digits,
      target.path_slash, target.path_part⟩
  · rw [r_eq]; exact fields
  · rw [r_eq]; exact r1_bytes
  · rw [lookup]; exact plain
  · intro empty
    rw [lookup] at empty
    rw [noLength empty, r2_eq]
    exact r1_length
  · intro present
    rw [lookup] at present ⊢
    refine ⟨(someLength present).1, ?_⟩
    rw [(someLength present).2]

/-- An accepted header block lies in the buffer. -/
theorem headerBytes_le {buf : Bytes} {req : Request} (parse : parseRequest buf {} = (.ok, req)) :
    req.headerBytes ≤ buf.length := by
  obtain ⟨stop, line, url, hs, accepted⟩ := parseRequest_ok parse
  rw [accepted.headerBytes]
  exact find_le accepted.blank

/-- Where the target of an accepted request comes from. -/
theorem parseRequest_split {buf : Bytes} {r : Request} (h : parseRequest buf {} = (.ok, r)) :
    ∃ url out r1, url.length ≤ buf.length ∧ out.port = bytes "80" ∧ splitAbsoluteUrl url out = (true, r1) ∧
      r.host = r1.host ∧ r.port = r1.port ∧ r.path = r1.path := by
  cases blank : find [cr, lf, cr, lf] buf with
  | none => simp [parseRequest_incomplete blank] at h
  | some stop =>
    obtain ⟨line, hs, cut, parsed⟩ := parseRequest_lines {} blank
    rw [parsed] at h
    obtain ⟨r1, r2, kvs, line_eq, -, r2_eq, -, keeps⟩ := parseHead_ok h
    obtain ⟨url, out, part, port, split_eq⟩ := parseRequestLine_split line_eq
    have short : url.length ≤ buf.length := by
      have whole := join_splitLines cr lf (buf.take stop)
      rw [cut, join_cons] at whole
      have front : line.length ≤ (buf.take stop).length := by
        rw [← whole]
        simp
      exact part.length_le.trans (front.trans (List.take_prefix _ _).length_le)
    refine ⟨url, out, r1, short, port, split_eq, ?_, ?_, ?_⟩ <;> rw [keeps, r2_eq]

end EvProxy
