import EvProxy.Http.Framing

/-!
# A request in absolute form, written out

`Message` is a request as a client may send it, each part within its own syntax.
`Message.block` is its header block. `parseRequest_block`: whatever bytes follow
the block, even ones that look like headers or end another block, the parser
gives every part back and counts the block's bytes.
-/

namespace EvProxy
open Text

/-- Neither end of a line. -/
def OneLine (s : Bytes) : Prop := cr ∉ s ∧ lf ∉ s

/-- No blank or tab at either end. -/
structure Trimmed (s : Bytes) : Prop where
  first : ∀ c ∈ s.head?, c ∉ bytes " \t"
  last : ∀ c ∈ s.getLast?, c ∉ bytes " \t"

instance (s : Bytes) : Decidable (OneLine s) := inferInstanceAs (Decidable (cr ∉ s ∧ lf ∉ s))

instance (s : Bytes) : Decidable (Trimmed s) :=
  -- the instance is named: a byte is also decided by going through all bytes
  @decidable_of_iff _ ((∀ c ∈ s.head?, c ∉ bytes " \t") ∧ ∀ c ∈ s.getLast?, c ∉ bytes " \t")
    ⟨fun h => ⟨h.1, h.2⟩, fun h => ⟨h.first, h.last⟩⟩
    (@instDecidableAnd _ _ s.head?.decidableForallMem s.getLast?.decidableForallMem)

theorem Trimmed.trim {s : Bytes} (h : Trimmed s) : trim s = s := strip_eq_self h.first h.last

/-- The first header of a name given in lower case. -/
def firstHeader (name : Bytes) (headers : List (Bytes × Bytes)) : Option (Bytes × Bytes) :=
  headers.find? fun kv => lower kv.1 = name

/-- A request in absolute form. A host in brackets may have colons, one without
may not; port and path may be left away. -/
structure Message where
  method : Bytes
  bracketed : Bool
  host : Bytes
  port : Option Bytes
  path : Option Bytes
  version : Bytes
  headers : List (Bytes × Bytes)
  known : method ∈ methods
  host_ne : host ≠ []
  host_slash : slash ∉ host
  host_space : space ∉ host
  host_line : OneLine host
  host_name : bracketed = false → colon ∉ host ∧ host.head? ≠ some openBracket
  host_literal : bracketed = true → closeBracket ∉ host
  port_digits : ∀ p ∈ port, p ≠ [] ∧ allDigits p = true
  path_slash : ∀ p ∈ path, p.head? = some slash
  path_space : ∀ p ∈ path, space ∉ p
  path_line : ∀ p ∈ path, OneLine p
  version_line : OneLine version
  names : ∀ kv ∈ headers, colon ∉ kv.1 ∧ OneLine kv.1 ∧ Trimmed kv.1
  values : ∀ kv ∈ headers, OneLine kv.2 ∧ Trimmed kv.2
  plain : ∀ kv ∈ firstHeader (bytes "transfer-encoding") headers, ¬ bytes "chunked" <:+: lower kv.2
  length : ∀ kv ∈ firstHeader (bytes "content-length") headers, allDigits kv.2 = true

namespace Message
variable (m : Message)

def authority : Bytes :=
  (if m.bracketed then openBracket :: m.host ++ [closeBracket] else m.host) ++
    (m.port.map fun p => colon :: p).getD []

def url : Bytes := bytes "http://" ++ (m.authority ++ m.path.getD [])

def line : Bytes := m.method ++ space :: (m.url ++ space :: m.version)

/-- The header block, up to and with its blank line. -/
def block : Bytes := m.line ++ bytes "\r\n" ++ m.headers.flatMap headerLine ++ bytes "\r\n"

/-- The decimal value of the first `Content-Length`, saturated. -/
def contentLength : Nat :=
  ((firstHeader (bytes "content-length") m.headers).map fun kv => min (decimal kv.2) ulongMax).getD 0

/-- What the parser is to make of it. -/
def request : Request where
  method := m.method
  host := m.host
  port := m.port.getD (bytes "80")
  path := m.path.getD (bytes "/")
  version := m.version
  headers := m.headers
  contentLength := m.contentLength
  headerBytes := m.block.length

/-! ## The request line -/

theorem port_colon {p : Bytes} (here : m.port = some p) : colon ∉ p :=
  not_mem_of_allDigits (m.port_digits p here).2 (by decide)

/-- The authority splits into host and port as it was put together. -/
theorem splits (out : Request) : Splits out m.authority
    { out with host := m.host, port := m.port.getD out.port } := by
  unfold authority
  cases bracketed : m.bracketed with
  | true =>
    have inside := m.host_literal bracketed
    cases port : m.port with
    | none => simpa using @Splits.literal out m.host [] inside (by simp)
    | some p => simpa using @Splits.literalPort out m.host p inside
  | false =>
    obtain ⟨single, plain⟩ := m.host_name bracketed
    cases port : m.port with
    | none => simpa using @Splits.name out m.host plain single
    | some p =>
      have start : (m.host ++ colon :: p).head? ≠ some openBracket := by
        rwa [List.head?_append_of_ne_nil _ m.host_ne]
      simpa using @Splits.namePort out m.host p start (m.port_colon port)

/-- A byte of the authority is one of its host or of its own punctuation, or a digit. -/
theorem not_mem_authority {c : UInt8} (host : c ∉ m.host) (digit : isDigit c = false)
    (other : c ∉ [openBracket, closeBracket, colon]) : c ∉ m.authority := by
  simp only [List.mem_cons, List.not_mem_nil, or_false, not_or] at other
  have port : c ∉ (m.port.map fun p => colon :: p).getD [] := by
    cases port : m.port with
    | none => simp
    | some p => simp [other, not_mem_of_allDigits (m.port_digits p port).2 digit]
  unfold authority
  split <;> simp [host, other, port]

theorem parts : Parts m.url (bytes "http://") m.authority (m.path.getD []) where
  whole := rfl
  scheme := by decide
  free := m.not_mem_authority m.host_slash (by decide) (by decide)
  rest := by
    cases path : m.path with
    | none => exact Or.inl rfl
    | some p => exact Or.inr (List.head?_eq_some_iff.mp (m.path_slash p path))

theorem path_eq : pathOf (m.path.getD []) = m.path.getD (bytes "/") := by
  cases path : m.path with
  | none => rfl
  | some p =>
    obtain ⟨t, rfl⟩ := List.head?_eq_some_iff.mp (m.path_slash p path)
    rfl

/-- The port written or left away is a number. -/
theorem port_ok : m.port.getD (bytes "80") ≠ [] ∧ allDigits (m.port.getD (bytes "80")) = true := by
  cases port : m.port with
  | none => decide
  | some p => exact m.port_digits p port

/-- The target is taken apart into what it was put together from. -/
theorem splitAbsoluteUrl_url {out : Request} (default : out.port = bytes "80") :
    splitAbsoluteUrl m.url out =
      (true, { out with host := m.host, port := m.port.getD (bytes "80"), path := m.path.getD (bytes "/") }) := by
  refine splitAbsoluteUrl_iff.mpr ⟨_, _, _, m.parts, ?_, m.host_ne, ?_, ?_⟩
  · rw [m.path_eq, ← default]
    exact m.splits { out with path := m.path.getD (bytes "/") }
  · exact m.port_ok.1
  · exact m.port_ok.2

/-- What is in neither host nor path is not in the target. -/
theorem not_mem_url {c : UInt8} (host : c ∉ m.host) (path : ∀ p ∈ m.path, c ∉ p) (digit : isDigit c = false)
    (other : c ∉ [openBracket, closeBracket, colon]) (scheme : c ∉ bytes "http://") : c ∉ m.url := by
  have rest : c ∉ m.path.getD [] := by
    cases here : m.path with
    | none => simp
    | some p => exact path p here
  simp [url, scheme, m.not_mem_authority host digit other, rest]

theorem url_space : space ∉ m.url :=
  m.not_mem_url m.host_space m.path_space (by decide) (by decide) (by decide)

theorem method_plain {c : UInt8} (absent : c ∉ bytes "GETHEADPOST") : c ∉ m.method := by
  have letters : ∀ method ∈ methods, ∀ d ∈ method, d ∈ bytes "GETHEADPOST" := by decide +kernel
  exact fun mem => absent (letters m.method m.known c mem)

theorem parse_line (out : Request) (default : out.port = bytes "80") :
    parseRequestLine m.line out = (.ok, { out with
      method := m.method, version := m.version, host := m.host
      port := m.port.getD (bytes "80"), path := m.path.getD (bytes "/") }) :=
  parseRequestLine_tokens (m.method_plain (by decide)) m.url_space m.known (m.splitAbsoluteUrl_url default)

theorem line_cr : cr ∉ m.line := by
  have target := m.not_mem_url m.host_line.1 (fun p here => (m.path_line p here).1) (c := cr) (by decide) (by decide)
    (by decide)
  have gap : cr ≠ space := by decide
  simp [line, m.method_plain (c := cr) (by decide), target, m.version_line.1, gap]

/-! ## The header block -/

/-- The block is its lines, joined, and a blank line. -/
theorem block_eq (rest : Bytes) : m.block ++ rest =
    [cr, lf].intercalate (m.line :: m.headers.map renderField) ++ cr :: lf :: cr :: lf :: rest := by
  have eol : bytes "\r\n" = [cr, lf] := by decide
  have fields : m.headers.flatMap headerLine = (m.headers.map renderField).flatMap (· ++ [cr, lf]) := by
    rw [List.flatMap_map]
    refine List.flatMap_congr fun kv _ => ?_
    rw [headerLine, eol]
    rfl
  have all := flatMap_terminated [cr, lf] (m.line :: m.headers.map renderField) (by simp)
  rw [List.flatMap_cons] at all
  rw [block, eol, fields, all]
  simp

theorem lines_free : ∀ l ∈ m.line :: m.headers.map renderField, Free cr lf l := by
  intro l mem
  rcases List.mem_cons.mp mem with rfl | field
  · exact free_of_not_mem m.line_cr
  · obtain ⟨kv, listed, rfl⟩ := List.mem_map.mp field
    apply free_of_not_mem
    have name := (m.names kv listed).2.1.1
    have value := (m.values kv listed).1.1
    have gap : cr ∉ bytes ": " := by decide
    simp [renderField, name, value, gap]

theorem fields_nonempty : ∀ l ∈ m.headers.map renderField, l ≠ [] := by
  intro l mem
  obtain ⟨kv, -, rfl⟩ := List.mem_map.mp mem
  exact renderField_ne_nil kv

/-- Every header line gives its header back. -/
theorem parse_fields : (m.headers.map renderField).map parseField = m.headers.map some := by
  rw [List.map_map]
  refine List.map_congr_left fun kv listed => ?_
  obtain ⟨absent, -, name⟩ := m.names kv listed
  obtain ⟨-, value⟩ := m.values kv listed
  have cut : find [colon] (renderField kv) = some kv.1.length := by
    rw [renderField_eq]
    exact find_singleton_append absent
  have front : substr (renderField kv) 0 kv.1.length = kv.1 := by
    rw [renderField_eq, substr_zero, List.take_left]
  have back : (renderField kv).drop (kv.1.length + 1) = space :: kv.2 := by
    rw [renderField_eq, ← List.drop_drop, List.drop_left]
    rfl
  simp only [Function.comp_apply, parseField, cut, Option.map_some, front, back, trim_space_cons, name.trim, value.trim]

/-- The framing checks pass and note the length. -/
theorem checkFraming_headers {out : Request} (headers : out.headers = m.headers) (fresh : out.contentLength = 0) :
    checkFraming out = (.ok, { out with contentLength := m.contentLength }) := by
  have encoding : lower (bytes "Transfer-Encoding") = bytes "transfer-encoding" := by decide
  have lengthName : lower (bytes "Content-Length") = bytes "content-length" := by decide
  have lookup (name : Bytes) : headerValue out name = ((firstHeader (lower name) m.headers).map Prod.snd).getD [] := by
    unfold headerValue firstHeader
    rw [headers]
    cases m.headers.find? fun kv => lower kv.1 = lower name <;> rfl
  have chunked : find (bytes "chunked") (lower (headerValue out (bytes "Transfer-Encoding"))) = none := by
    rw [lookup, encoding]
    cases first : firstHeader (bytes "transfer-encoding") m.headers with
    | none => decide
    | some kv => exact find_eq_none_iff.mpr (m.plain kv first)
  have value : headerValue out (bytes "Content-Length") =
      ((firstHeader (bytes "content-length") m.headers).map Prod.snd).getD [] := by rw [lookup, lengthName]
  unfold checkFraming contentLength
  rw [chunked, value]
  cases first : firstHeader (bytes "content-length") m.headers with
  | none => simp [← fresh]
  | some kv =>
    have digits := m.length kv first
    by_cases empty : kv.2 = []
    · have zero : min (decimal []) ulongMax = out.contentLength := by
        rw [fresh]
        decide
      simp [empty, zero]
    · simp [empty, digits, strtoul_digits (allDigits_iff.mp digits)]

end Message

/-- **The parser inverts rendering.** -/
theorem parseRequest_block (m : Message) (rest : Bytes) : parseRequest (m.block ++ rest) {} = (.ok, m.request) := by
  have size : ([cr, lf].intercalate (m.line :: m.headers.map renderField)).length + 4 = m.block.length := by
    have whole := congrArg List.length (m.block_eq [])
    simpa using whole.symm
  have blank := find_blank_join cr_ne_lf m.lines_free m.fields_nonempty rest
  rw [← m.block_eq rest] at blank
  obtain ⟨line, hs, cut, parsed⟩ := parseRequest_lines {} blank
  have shape : (m.block ++ rest).take ([cr, lf].intercalate (m.line :: m.headers.map renderField)).length =
      [cr, lf].intercalate (m.line :: m.headers.map renderField) := by
    rw [m.block_eq rest, List.take_left]
  rw [shape, splitLines_join cr_ne_lf (by simp) m.lines_free] at cut
  obtain ⟨rfl, rfl⟩ := List.cons.inj cut
  have some_line : m.line ≠ [] := by simp [Message.line]
  rw [parsed, parseHead, if_neg some_line, m.parse_line _ rfl]
  simp only
  rw [addHeaders_fields m.parse_fields]
  simp only
  rw [m.checkFraming_headers rfl rfl, size]
  rfl

/-- An address literal, no path, a length past 2^64 and a header of that name again. -/
def literalMessage : Message where
  method := bytes "POST"
  bracketed := true
  host := bytes "::1"
  port := some (bytes "8080")
  path := none
  version := bytes "HTTP/1.1"
  headers := [(bytes "Content-Length", bytes "99999999999999999999"), (bytes "content-length", bytes "x: y"), ([], [])]
  known := by decide +kernel
  host_ne := by decide +kernel
  host_slash := by decide +kernel
  host_space := by decide +kernel
  host_line := by decide +kernel
  host_name := by decide +kernel
  host_literal := by decide +kernel
  port_digits := by decide +kernel
  path_slash := by decide +kernel
  path_space := by decide +kernel
  path_line := by decide +kernel
  version_line := by decide +kernel
  names := by decide +kernel
  values := by decide +kernel
  plain := by decide +kernel
  length := by decide +kernel

theorem parseRequest_block_literal :
    parseRequest (bytes "POST http://[::1]:8080 HTTP/1.1\r\nContent-Length: 99999999999999999999\r\n" ++
      bytes "content-length: x: y\r\n: \r\n\r\nX: 1\r\n\r\n") {} = (.ok, literalMessage.request) ∧
    literalMessage.request.contentLength = 2 ^ 64 - 1 := by
  have written : bytes "POST http://[::1]:8080 HTTP/1.1\r\nContent-Length: 99999999999999999999\r\n" ++
      bytes "content-length: x: y\r\n: \r\n\r\nX: 1\r\n\r\n" =
      literalMessage.block ++ bytes "X: 1\r\n\r\n" := by decide +kernel
  rw [written]
  exact ⟨parseRequest_block literalMessage (bytes "X: 1\r\n\r\n"), by decide +kernel⟩

end EvProxy
