import EvProxy.Http.Framing

/-!
# What the origin makes of the rebuilt request

Two readers on the other side. One takes the `Host` header for the target it
names: `hostValue_target` says for which requests that is the target the client
asked for. The other ends a line at any LF (`lenientHead`):
`lenient_reading` says for which requests it sees the lines a strict
reader sees, and so none the proxy meant to drop.
-/

namespace EvProxy
open Text

/-! ## The Host header as a target -/

theorem Accepted.hostValue_slash {buf r stop line url hs} (acc : Accepted buf r stop line url hs) :
    slash ∉ hostValue r := by
  have host := acc.target.host_slash
  have port : slash ∉ r.port := not_mem_of_allDigits acc.target.port_digits (by decide)
  have separator : slash ∉ bytes ":" := by decide
  unfold hostValue
  split <;> simp [host, port, separator]

/-- The `Host` value in front of the path splits where they meet. -/
theorem Accepted.hostValue_parts {buf r stop line url hs} (acc : Accepted buf r stop line url hs) :
    Parts (bytes "http://" ++ (hostValue r ++ r.path)) (bytes "http://") (hostValue r) r.path :=
  ⟨rfl, by decide, acc.hostValue_slash, Or.inr acc.target.path_slash⟩

/-- A host that starts with a bracket was inside brackets itself, so it holds none
that closes. -/
theorem host_unclosed {buf : Bytes} {r : Request} (ok : parseRequest buf {} = (.ok, r))
    (bracket : r.host.head? = some openBracket) : closeBracket ∉ r.host := by
  obtain ⟨url, out, r1, -, -, split_eq, host, -⟩ := parseRequest_split ok
  obtain ⟨scheme, authority, rest, -, splits, nonempty, -⟩ := splitAbsoluteUrl_iff.mp split_eq
  rw [host] at bracket ⊢
  cases splits with
  | name host plain => exact absurd bracket plain
  | namePort host port plain =>
    rw [List.head?_append_of_ne_nil _ nonempty] at plain
    exact absurd bracket plain
  | literal host rest inside => exact inside
  | literalPort host port inside => exact inside

/-- A host that is the whole authority holds no colon. -/
theorem Splits.single {authority : Bytes} {out r : Request} (h : Splits out authority r)
    (same : r.host = authority) : colon ∉ authority := by
  have len := congrArg List.length same
  cases h with
  | name host plain single => exact single
  | namePort host port => simp at len
  | literal host rest =>
    simp at len
    omega
  | literalPort host port =>
    simp at len
    omega

theorem hostValue_head {r : Request} (nonempty : r.host ≠ []) : (hostValue r).head? = r.host.head? := by
  unfold hostValue
  split
  · rw [List.append_assoc, List.head?_append_of_ne_nil _ nonempty]
  · rfl

/-- A bracket at its start and none that closes: the `Host` value is no authority. -/
theorem hostValue_unclosed {buf r stop line url hs} (acc : Accepted buf r stop line url hs)
    (ok : parseRequest buf {} = (.ok, r)) (bracket : r.host.head? = some openBracket) {out r' : Request}
    (splits : Splits out (hostValue r) r') : False := by
  have head : (hostValue r).head? = some openBracket := (hostValue_head acc.target.host_ne).trans bracket
  have unclosed : closeBracket ∉ hostValue r := by
    have host := host_unclosed ok bracket
    have port : closeBracket ∉ r.port := not_mem_of_allDigits acc.target.port_digits (by decide)
    have separator : closeBracket ∉ bytes ":" := by decide
    unfold hostValue
    split <;> simp [host, port, separator]
  generalize hostValue r = authority at splits head unclosed
  cases splits with
  | name host plain => exact plain head
  | namePort host port plain => exact plain head
  | literal host rest => exact unclosed (by simp)
  | literalPort host port => exact unclosed (by simp)

/-- **The `Host` header as a target.** Read as a URL with the path, the header the
origin gets gives the target back exactly when the host does not start with a
bracket and, on port 80, holds no colon. -/
theorem hostValue_target {buf : Bytes} {r : Request} (ok : parseRequest buf {} = (.ok, r)) :
    (∃ r', splitAbsoluteUrl (bytes "http://" ++ (hostValue r ++ r.path)) {} = (true, r') ∧
      r'.host = r.host ∧ r'.port = r.port ∧ r'.path = r.path) ↔
    r.host.head? ≠ some openBracket ∧ (r.port = bytes "80" → colon ∉ r.host) := by
  obtain ⟨stop, line, url, hs, acc⟩ := parseRequest_ok ok
  have target := acc.target
  obtain ⟨p, path⟩ := target.path_slash
  have whole : pathOf r.path = r.path := by simp [pathOf, path]
  rw [acc.hostValue_parts.splitAbsoluteUrl, whole]
  constructor
  · rintro ⟨r', accepted, host, port, -⟩
    obtain ⟨splits, -⟩ := checkAuthority_iff.mp accepted
    have plain : r.host.head? ≠ some openBracket := fun bracket => hostValue_unclosed acc ok bracket splits
    refine ⟨plain, ?_⟩
    intro eighty
    have value : hostValue r = r.host := by simp [hostValue, eighty]
    rw [value] at splits
    exact splits.single host
  · rintro ⟨plain, single⟩
    by_cases eighty : r.port = bytes "80"
    · have value : hostValue r = r.host := by simp [hostValue, eighty]
      have nonempty : bytes "80" ≠ [] := by decide
      have digits : allDigits (bytes "80") = true := by decide
      rw [value]
      exact ⟨_, checkAuthority_iff.mpr ⟨.name r.host plain (single eighty), target.host_ne, nonempty, digits⟩,
        rfl, eighty.symm, rfl⟩
    · have value : hostValue r = r.host ++ colon :: r.port := by
        have separator : bytes ":" = [colon] := by decide
        simp [hostValue, eighty, separator]
      have last : colon ∉ r.port := not_mem_of_allDigits target.port_digits (by decide)
      rw [value]
      refine ⟨_, checkAuthority_iff.mpr ⟨.namePort r.host r.port ?_ last, target.host_ne, target.port_ne,
        target.port_digits⟩, rfl, rfl, rfl⟩
      rwa [List.head?_append_of_ne_nil _ target.host_ne]

/-- A request on a port of its own, with a lone CR before a line end. -/
def portRequest : Bytes := bytes "GET http://h:81/ HTTP/1.1\r\nX: a\r\r\n\r\n"

/-- What it parses to. -/
def portTarget : Request :=
  { method := bytes "GET", host := bytes "h", port := bytes "81", version := bytes "HTTP/1.1"
    headers := [(bytes "X", bytes "a\r")], headerBytes := 36 }

theorem parse_portRequest : parseRequest portRequest {} = (.ok, portTarget) := by decide +kernel

theorem hostValue_target_port :
    ∃ r', splitAbsoluteUrl (bytes "http://" ++ (hostValue portTarget ++ portTarget.path)) {} = (true, r') ∧
      r'.host = portTarget.host ∧ r'.port = portTarget.port ∧ r'.path = portTarget.path :=
  (hostValue_target parse_portRequest).mpr ⟨by decide, by decide⟩

/-- A request for an IPv6 literal. -/
def literalRequest : Bytes := bytes "GET http://[::1]/ HTTP/1.1\r\n\r\n"

/-- What it parses to. -/
def literalTarget : Request :=
  { method := bytes "GET", host := bytes "::1", version := bytes "HTTP/1.1", headerBytes := 30 }

/-- Without its brackets the literal reads as another host and port. -/
theorem hostValue_literal :
    parseRequest literalRequest {} = (.ok, literalTarget) ∧
    ¬ ∃ r', splitAbsoluteUrl (bytes "http://" ++ (hostValue literalTarget ++ literalTarget.path)) {} = (true, r') ∧
      r'.host = literalTarget.host ∧ r'.port = literalTarget.port ∧ r'.path = literalTarget.path := by
  refine ⟨by decide +kernel, ?_⟩
  rintro ⟨r', accepted, host, -⟩
  have misread : splitAbsoluteUrl (bytes "http://" ++ (hostValue literalTarget ++ literalTarget.path)) {} =
      (true, { host := bytes ":", port := bytes "1" }) := by decide +kernel
  rw [misread] at accepted
  cases accepted
  exact absurd host (by decide)

/-! ## A reader that ends lines at any LF -/

/-- No line feed in what the proxy copies into the head. -/
structure Unfolded (r : Request) : Prop where
  path : lf ∉ r.path
  host : lf ∉ r.host
  fields : ∀ kv ∈ forwarded r.headers, lf ∉ kv.1 ∧ lf ∉ kv.2

theorem requestLine_lf {buf r stop line url hs} (acc : Accepted buf r stop line url hs) :
    lf ∈ requestLine r ↔ lf ∈ r.path := by
  have method : lf ∉ r.method := by
    have known := acc.method
    simp only [methods, List.mem_cons, List.not_mem_nil, or_false] at known
    rcases known with e | e | e <;> rw [e] <;> decide
  have gap : lf ∉ bytes " " := by decide
  have version : lf ∉ bytes " HTTP/1.1" := by decide
  simp [requestLine, method, gap, version]

theorem hostLine_lf {buf r stop line url hs} (acc : Accepted buf r stop line url hs) :
    lf ∈ hostLine r ↔ lf ∈ r.host := by
  have label : lf ∉ bytes "Host: " := by decide
  have separator : lf ∉ bytes ":" := by decide
  have port : lf ∉ r.port := not_mem_of_allDigits acc.target.port_digits (by decide)
  unfold hostLine hostValue
  split <;> simp [label, separator, port]

theorem renderField_lf (kv : Bytes × Bytes) : lf ∈ renderField kv ↔ lf ∈ kv.1 ∨ lf ∈ kv.2 := by
  have gap : lf ∉ bytes ": " := by decide
  simp [renderField, gap]

/-- The lines of the rebuilt request hold no line feed exactly when its parts hold none. -/
theorem Accepted.lines_lf {buf r stop line url hs} (acc : Accepted buf r stop line url hs) :
    (∀ l ∈ requestLine r :: forwardedLines r, lf ∉ l) ↔ Unfolded r := by
  have last : lf ∉ connectionLine := by decide
  simp only [forwardedLines, List.forall_mem_cons, List.forall_mem_append, List.forall_mem_map,
    requestLine_lf acc, hostLine_lf acc, renderField_lf, not_or]
  constructor
  · rintro ⟨path, host, fields, -⟩
    exact ⟨path, host, fields⟩
  · rintro ⟨path, host, fields⟩
    exact ⟨path, host, fields, last, by simp⟩

/-- The two readings of a message agree on its lines, and the lenient one has one
`Host`, one `Connection` and no `Transfer-Encoding`. -/
structure SameLines (msg : Bytes) (line : Bytes) (fields : List Bytes) : Prop where
  strict : ∃ rest, readHead msg = some (line :: fields, rest)
  lenient : ∃ rest, lenientHead cr lf [] msg = some (line :: fields, rest)
  oneHost : (namedLines (bytes "host") fields).length = 1
  oneConnection : (namedLines (bytes "connection") fields).length = 1
  noTransferEncoding : namedLines (bytes "transfer-encoding") fields = []

theorem Accepted.lenientHead_build {buf r stop line url hs} (acc : Accepted buf r stop line url hs)
    (unfolded : Unfolded r) (body : Bytes) :
    lenientHead cr lf [] (buildUpstreamRequest r body) = some (requestLine r :: forwardedLines r, body) := by
  have nonempty : ∀ l ∈ requestLine r :: forwardedLines r, l ≠ [] := by
    have version : bytes " HTTP/1.1" ≠ [] := by decide
    refine List.forall_mem_cons.mpr ⟨?_, forwardedLines_ne_nil⟩
    simp [requestLine, version]
  have read := lenientHead_lines cr_ne_lf (acc.lines_lf.mpr unfolded) nonempty body
  rw [flatMap_terminated _ _ (by simp), List.append_assoc] at read
  rw [build_eq_lines]
  exact read

/-- **Lenient line endings.** A reader that ends a line at any LF sees the lines of
the rebuilt request that a strict reader sees exactly when no line feed survives
in the path, the host or a forwarded header. -/
theorem lenient_reading {buf : Bytes} {r : Request} (ok : parseRequest buf {} = (.ok, r)) (body : Bytes) :
    (∃ line fields, SameLines (buildUpstreamRequest r body) line fields) ↔ Unfolded r := by
  obtain ⟨stop, line, url, hs, acc⟩ := parseRequest_ok ok
  have strict := acc.readHead_build body
  constructor
  · rintro ⟨line', fields, ⟨rest, read⟩, ⟨rest', read'⟩, -⟩
    rw [strict] at read
    obtain ⟨rfl, rfl⟩ := List.cons.inj (Prod.mk.inj (Option.some.inj read)).1
    exact acc.lines_lf.mp (lenientHead_absent (by simp) read')
  · intro unfolded
    have framing := acc.strictFraming body
    refine ⟨requestLine r, forwardedLines r, ⟨body, strict⟩, ⟨body, acc.lenientHead_build unfolded body⟩, ?_, ?_, ?_⟩
    · rw [framing.oneHost]
      rfl
    · rw [framing.oneConnection]
      rfl
    · exact framing.noHop _ (by decide) (by decide)

theorem lenient_reading_port :
    ∃ line fields, SameLines (buildUpstreamRequest portTarget (bytes "tail")) line fields :=
  (lenient_reading parse_portRequest (bytes "tail")).mpr ⟨by decide, by decide, by decide⟩

/-- A header whose value hides another behind a bare LF. -/
def foldedRequest : Bytes :=
  bytes "POST http://h/ HTTP/1.1\r\nX: a\nTransfer-Encoding: chunked\r\n\r\n"

/-- What it parses to. -/
def foldedTarget : Request :=
  { method := bytes "POST", host := bytes "h", version := bytes "HTTP/1.1"
    headers := [(bytes "X", bytes "a\nTransfer-Encoding: chunked")], headerBytes := 60 }

/-- A lenient origin reads the header the proxy drops. -/
theorem lenient_reading_folded :
    parseRequest foldedRequest {} = (.ok, foldedTarget) ∧
    ¬ ∃ line fields, SameLines (buildUpstreamRequest foldedTarget []) line fields := by
  refine ⟨by decide +kernel, ?_⟩
  rintro ⟨line, fields, same⟩
  obtain ⟨rest, read⟩ := same.lenient
  have smuggled : ((lenientHead cr lf [] (buildUpstreamRequest foldedTarget [])).map fun head =>
      namedLines (bytes "transfer-encoding") head.1.tail) = some [bytes "Transfer-Encoding: chunked"] := by
    decide +kernel
  rw [read, Option.map_some, List.tail_cons, same.noTransferEncoding] at smuggled
  cases smuggled

end EvProxy
