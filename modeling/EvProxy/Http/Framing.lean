import EvProxy.Http.Accepted

/-!
# Framing of the forwarded request

A recipient that reads strictly sees the lines before the first CRLFCRLF and
the bytes after it (`readHead`). `readHead_build` gives that reading of the
rebuilt request: request line, the proxy's `Host`, the client's other headers,
`Connection: close`, then the body. Lone CR and LF bytes, empty names and odd
blanks survive in names and values; no seam turns them into a line end.
-/

namespace EvProxy
open Text

/-- A message read strictly: the lines before its first blank line, and what follows. -/
def readHead (msg : Bytes) : Option (List Bytes × Bytes) :=
  (find [cr, lf, cr, lf] msg).map fun n => (splitLines cr lf (msg.take n), msg.drop (n + 4))

/-- The name of a header line: what precedes its first colon. -/
def fieldName (line : Bytes) : Bytes := line.takeWhile (· ≠ colon)

/-- The value of a header line: what follows its first colon, trimmed. -/
def fieldValue (line : Bytes) : Bytes := trim ((line.dropWhile (· ≠ colon)).drop 1)

/-- The header lines with the (lower-case) name `name`, in any letter case. -/
def namedLines (name : Bytes) (lines : List Bytes) : List Bytes :=
  lines.filter fun l => decide (colon ∈ l) && decide (lower (fieldName l) = name)

/-- A header as it is forwarded, without its line end. -/
def renderField (kv : Bytes × Bytes) : Bytes := kv.1 ++ bytes ": " ++ kv.2

def requestLine (r : Request) : Bytes := r.method ++ bytes " " ++ r.path ++ bytes " HTTP/1.1"
def hostLine (r : Request) : Bytes := bytes "Host: " ++ hostValue r
def connectionLine : Bytes := bytes "Connection: close"

/-- The header lines of the rebuilt request. -/
def forwardedLines (r : Request) : List Bytes :=
  hostLine r :: ((forwarded r.headers).map renderField ++ [connectionLine])

/-! ## Lines free of CRLF -/

theorem parseField_some {h : Bytes} {kv : Bytes × Bytes} (field : parseField h = some kv) :
    colon ∉ kv.1 ∧ kv.1 <:+: h ∧ kv.2 <:+: h ∧ trim kv.1 = kv.1 ∧ trim kv.2 = kv.2 := by
  obtain ⟨i, found, rfl⟩ := Option.map_eq_some_iff.mp field
  obtain ⟨-, absent⟩ := find_singleton_eq_some found
  have name : trim (substr h 0 i) <:+: substr h 0 i := trim_part _
  refine ⟨fun mem => absent (by simpa using name.subset mem), ?_, ?_, trim_trim _, trim_trim _⟩
  · exact name.trans (by simpa using (List.take_prefix i h).isInfix)
  · exact (trim_part _).trans (List.drop_suffix _ _).isInfix

/-- Every header of an accepted request comes from one of its lines. -/
theorem Accepted.field_of_mem {buf r stop line url hs} (acc : Accepted buf r stop line url hs)
    {kv : Bytes × Bytes} (mem : kv ∈ r.headers) : ∃ h ∈ hs, parseField h = some kv := by
  have listed : some kv ∈ hs.map parseField := by
    rw [acc.headers]
    exact List.mem_map_of_mem mem
  exact List.mem_map.mp listed

theorem Accepted.url_free {buf r stop line url hs} (acc : Accepted buf r stop line url hs) :
    Free cr lf url := by
  have inLine : url <:+: line := by
    rw [acc.shape]
    exact ⟨r.method ++ [space], space :: r.version, by simp⟩
  exact (acc.free line List.mem_cons_self).of_part inLine

theorem Accepted.path_free {buf r stop line url hs} (acc : Accepted buf r stop line url hs) :
    Free cr lf r.path := by
  rcases acc.target.path_part with part | root
  · exact acc.url_free.of_part part
  · rw [root]
    exact free_singleton _ _ _

theorem Accepted.path_space {buf r stop line url hs} (acc : Accepted buf r stop line url hs) :
    space ∉ r.path := by
  rcases acc.target.path_part with part | root
  · exact fun mem => acc.url_space (part.subset mem)
  · rw [root]
    decide

theorem Accepted.method_cr {buf r stop line url hs} (acc : Accepted buf r stop line url hs) :
    cr ∉ r.method := by
  have known := acc.method
  simp only [methods, List.mem_cons, List.not_mem_nil, or_false] at known
  rcases known with e | e | e <;> rw [e] <;> decide

theorem free_of_digits {s : Bytes} (digits : allDigits s = true) : Free cr lf s := by
  apply free_of_not_mem
  intro mem
  exact isDigit_ne (allDigits_iff.mp digits cr mem) (by decide) rfl

theorem Accepted.requestLine_free {buf r stop line url hs} (acc : Accepted buf r stop line url hs) :
    Free cr lf (requestLine r) := by
  have version : Free cr lf (bytes " HTTP/1.1") := free_of_not_mem (by decide)
  have target : Free cr lf (r.method ++ bytes " " ++ r.path) :=
    (free_of_not_mem acc.method_cr).glue acc.path_free (by decide) (by decide) (by decide)
  exact target.append version fun seam => absurd seam.2 (by decide)

theorem Accepted.hostLine_free {buf r stop line url hs} (acc : Accepted buf r stop line url hs) :
    Free cr lf (hostLine r) := by
  have label : Free cr lf (bytes "Host: ") := free_of_not_mem (by decide)
  have host : Free cr lf r.host := acc.url_free.of_part acc.target.host_part
  have value : Free cr lf (hostValue r) := by
    unfold hostValue
    split
    · exact host.glue (free_of_digits acc.target.port_digits) (by decide) (by decide) (by decide)
    · exact host
  exact label.append value fun seam => absurd seam.1 (by decide)

theorem Accepted.field_free {buf r stop line url hs} (acc : Accepted buf r stop line url hs)
    {kv : Bytes × Bytes} (mem : kv ∈ r.headers) : Free cr lf (renderField kv) := by
  obtain ⟨h, inHead, field⟩ := acc.field_of_mem mem
  obtain ⟨-, name, value, -, -⟩ := parseField_some field
  have whole := acc.free h (List.mem_cons_of_mem _ inHead)
  exact (whole.of_part name).glue (whole.of_part value) (by decide) (by decide) (by decide)

theorem mem_forwarded {headers : List (Bytes × Bytes)} {kv : Bytes × Bytes} :
    kv ∈ forwarded headers ↔
      kv ∈ headers ∧ lower kv.1 ≠ bytes "host" ∧ isHopByHop (lower kv.1) = false := by
  simp [forwarded, not_or]

theorem Accepted.lines_free {buf r stop line url hs} (acc : Accepted buf r stop line url hs) :
    ∀ l ∈ requestLine r :: forwardedLines r, Free cr lf l := by
  intro l mem
  simp only [forwardedLines, List.mem_cons, List.mem_append, List.mem_map, List.not_mem_nil, or_false] at mem
  rcases mem with rfl | rfl | ⟨kv, listed, rfl⟩ | rfl
  · exact acc.requestLine_free
  · exact acc.hostLine_free
  · exact acc.field_free (mem_forwarded.mp listed).1
  · exact free_of_not_mem (by decide)

theorem renderField_ne_nil (kv : Bytes × Bytes) : renderField kv ≠ [] := by
  have gap : bytes ": " ≠ [] := by decide
  simp [renderField, gap]

theorem forwardedLines_ne_nil {r : Request} : ∀ l ∈ forwardedLines r, l ≠ [] := by
  intro l mem
  simp only [forwardedLines, List.mem_cons, List.mem_append, List.mem_map, List.not_mem_nil, or_false] at mem
  rcases mem with rfl | ⟨kv, -, rfl⟩ | rfl
  · have label : bytes "Host: " ≠ [] := by decide
    simp [hostLine, label]
  · exact renderField_ne_nil kv
  · decide

/-- The rebuilt request as its lines, a blank line and the body. -/
theorem build_eq_lines (r : Request) (body : Bytes) :
    buildUpstreamRequest r body =
      [cr, lf].intercalate (requestLine r :: forwardedLines r) ++ cr :: lf :: cr :: lf :: body := by
  have eol : bytes "\r\n" = [cr, lf] := by decide
  have version : bytes " HTTP/1.1\r\n" = bytes " HTTP/1.1" ++ [cr, lf] := by decide
  have last : bytes "Connection: close\r\n\r\n" = connectionLine ++ [cr, lf] ++ [cr, lf] := by decide
  have fields : (forwarded r.headers).flatMap headerLine =
      ((forwarded r.headers).map renderField).flatMap (· ++ [cr, lf]) := by
    rw [List.flatMap_map]
    refine List.flatMap_congr fun kv _ => ?_
    simp [headerLine, renderField, eol]
  have block := flatMap_terminated [cr, lf] (requestLine r :: forwardedLines r) (by simp)
  have regroup : [cr, lf].intercalate (requestLine r :: forwardedLines r) ++ cr :: lf :: cr :: lf :: body =
      [cr, lf].intercalate (requestLine r :: forwardedLines r) ++ [cr, lf] ++ ([cr, lf] ++ body) := by
    simp
  rw [regroup, ← block]
  simp only [buildUpstreamRequest, fields, version, last, eol, forwardedLines, requestLine, hostLine,
    List.flatMap_cons, List.flatMap_append, List.flatMap_nil, List.append_assoc, List.append_nil]

/-- **The strict reading of the rebuilt request.** -/
theorem Accepted.readHead_build {buf r stop line url hs} (acc : Accepted buf r stop line url hs) (body : Bytes) :
    readHead (buildUpstreamRequest r body) = some (requestLine r :: forwardedLines r, body) := by
  rw [build_eq_lines]
  have blank := find_blank_join cr_ne_lf acc.lines_free forwardedLines_ne_nil body
  rw [readHead, blank, Option.map_some, List.take_left,
    splitLines_join cr_ne_lf (by simp) acc.lines_free, ← List.drop_drop, List.drop_left]
  rfl

/-! ## How long the rebuilt request is -/

theorem parseField_length {h : Bytes} {kv : Bytes × Bytes} (field : parseField h = some kv) :
    kv.1.length + kv.2.length < h.length := by
  obtain ⟨i, found, rfl⟩ := Option.map_eq_some_iff.mp field
  have inside := find_le found
  have name := (trim_part (substr h 0 i)).length_le
  have value := (trim_part (h.drop (i + 1))).length_le
  simp only [substr_zero, List.length_take, List.length_drop, List.length_singleton] at inside name value ⊢
  omega

/-- A forwarded field is at most twice as long as its line with a terminator. -/
theorem fields_length {hs : List Bytes} {kvs : List (Bytes × Bytes)} (parsed : hs.map parseField = kvs.map some) :
    ((forwarded kvs).flatMap headerLine).length ≤ 2 * (hs.flatMap ([cr, lf] ++ ·)).length := by
  have line (kv : Bytes × Bytes) : (headerLine kv).length = kv.1.length + kv.2.length + 4 := by
    have mid : (bytes ": ").length = 2 := by decide
    have eol : (bytes "\r\n").length = 2 := by decide
    simp only [headerLine, List.length_append, mid, eol]
    omega
  induction hs generalizing kvs with
  | nil =>
    cases kvs with
    | nil => simp [forwarded]
    | cons kv kvs => simp at parsed
  | cons h hs ih =>
    cases kvs with
    | nil => simp at parsed
    | cons kv kvs =>
      obtain ⟨first, rest⟩ := List.cons.inj parsed
      have tail := ih rest
      have here := parseField_length first
      simp only [forwarded, List.filter_cons, List.flatMap_cons, List.length_append, List.length_cons,
        List.length_nil] at tail ⊢
      split
      · simp only [List.flatMap_cons, List.length_append, line]
        omega
      · omega

/-- The rebuilt request against the header block it comes from. -/
theorem Accepted.build_length {buf r stop line url hs} (acc : Accepted buf r stop line url hs) (body : Bytes) :
    (buildUpstreamRequest r body).length ≤ 2 * stop + r.port.length + body.length + 43 := by
  have whole : line.length + (hs.flatMap ([cr, lf] ++ ·)).length = (buf.take stop).length := by
    rw [← join_splitLines cr lf (buf.take stop), acc.lines, join_cons, List.length_append]
  have fields := fields_length acc.headers
  have shape := congrArg List.length acc.shape
  have host := acc.target.host_part.length_le
  have path : r.path.length ≤ url.length + 1 := by
    rcases acc.target.path_part with part | default
    · exact part.length_le.trans (Nat.le_succ _)
    · simp [default]
  have value : (hostValue r).length ≤ r.host.length + r.port.length + 1 := by
    have sep : (bytes ":").length = 1 := by decide
    unfold hostValue
    split
    · simp only [List.length_append, sep]
      omega
    · omega
  have fixed : (bytes " ").length = 1 ∧ (bytes " HTTP/1.1\r\n").length = 11 ∧ (bytes "Host: ").length = 6 ∧
      (bytes "\r\n").length = 2 ∧ (bytes "Connection: close\r\n\r\n").length = 21 := by decide
  simp only [List.length_append, List.length_cons, List.length_take] at whole shape
  simp only [buildUpstreamRequest, List.length_append, fixed]
  omega

/-- **The rebuilt request is not much longer than what the client sent.** -/
theorem build_length {buf : Bytes} {r : Request} (ok : parseRequest buf {} = (.ok, r)) :
    (buildUpstreamRequest r (substr buf r.headerBytes r.contentLength)).length ≤ 3 * buf.length + 41 := by
  obtain ⟨stop, line, url, hs, acc⟩ := parseRequest_ok ok
  have port : r.port.length ≤ buf.length + 2 := by
    obtain ⟨url', out, r1, short, default, split_eq, -, same, -⟩ := parseRequest_split ok
    obtain ⟨scheme, authority, rest, parts, splits, -⟩ := splitAbsoluteUrl_iff.mp split_eq
    rw [same]
    rcases splits.port_part with part | kept
    · have inside := part.length_le
      have size := congrArg List.length parts.whole
      simp only [List.length_append] at size
      omega
    · have two : (bytes "80").length = 2 := by decide
      rw [kept, default]
      simp [two]
  have build := acc.build_length (substr buf r.headerBytes r.contentLength)
  have body : (substr buf r.headerBytes r.contentLength).length ≤ buf.length - (stop + 4) := by
    rw [substr, List.length_take, List.length_drop, acc.headerBytes]
    exact Nat.min_le_right _ _
  have inside := find_le acc.blank
  simp only [List.length_cons, List.length_nil] at inside
  omega

/-! ## Names of the forwarded lines -/

theorem fieldName_append {k : Bytes} (absent : colon ∉ k) (t : Bytes) :
    fieldName (k ++ colon :: t) = k := by
  rw [fieldName, List.takeWhile_append_of_pos]
  · simp
  · intro x mem
    simpa using fun e : x = colon => absent (e ▸ mem)

theorem fieldValue_append {k : Bytes} (absent : colon ∉ k) (t : Bytes) :
    fieldValue (k ++ colon :: t) = trim t := by
  rw [fieldValue, List.dropWhile_append_of_pos]
  · simp
  · intro x mem
    simpa using fun e : x = colon => absent (e ▸ mem)

theorem renderField_eq (kv : Bytes × Bytes) : renderField kv = kv.1 ++ colon :: space :: kv.2 := by
  have gap : bytes ": " = [colon, space] := by decide
  simp [renderField, gap]

theorem namedLines_fields (name : Bytes) {kvs : List (Bytes × Bytes)} (plain : ∀ kv ∈ kvs, colon ∉ kv.1) :
    namedLines name (kvs.map renderField) = (kvs.filter fun kv => lower kv.1 = name).map renderField := by
  induction kvs with
  | nil => rfl
  | cons kv kvs ih =>
    have tail := ih fun k mem => plain k (List.mem_cons_of_mem _ mem)
    have here : fieldName (renderField kv) = kv.1 := by
      rw [renderField_eq]
      exact fieldName_append (plain kv List.mem_cons_self) _
    have mark : colon ∈ renderField kv := by simp [renderField_eq]
    rw [namedLines] at tail ⊢
    by_cases named : lower kv.1 = name <;> simp [here, mark, named, tail]

theorem Accepted.forwarded_plain {buf r stop line url hs} (acc : Accepted buf r stop line url hs) :
    ∀ kv ∈ forwarded r.headers, colon ∉ kv.1 := by
  intro kv mem
  obtain ⟨h, -, field⟩ := acc.field_of_mem (mem_forwarded.mp mem).1
  exact (parseField_some field).1

theorem hostLine_name (r : Request) : colon ∈ hostLine r ∧ lower (fieldName (hostLine r)) = bytes "host" := by
  have shape : hostLine r = bytes "Host" ++ colon :: space :: hostValue r := by
    have label : bytes "Host: " = bytes "Host" ++ [colon, space] := by decide
    simp [hostLine, label]
  rw [shape, fieldName_append (by decide)]
  exact ⟨by simp, by decide⟩

/-- The lines of the rebuilt request with a given name. -/
theorem Accepted.namedLines_build {buf r stop line url hs} (acc : Accepted buf r stop line url hs) (name : Bytes) :
    namedLines name (forwardedLines r) =
      (if name = bytes "host" then [hostLine r] else []) ++
      (((forwarded r.headers).filter fun kv => lower kv.1 = name).map renderField ++
      (if name = bytes "connection" then [connectionLine] else [])) := by
  have fields := namedLines_fields name acc.forwarded_plain
  obtain ⟨mark, host⟩ := hostLine_name r
  have mark' : colon ∈ connectionLine := by decide
  have connection : lower (fieldName connectionLine) = bytes "connection" := by decide
  rw [namedLines] at fields
  have last : namedLines name [connectionLine] = if name = bytes "connection" then [connectionLine] else [] := by
    by_cases same : name = bytes "connection"
    · simp [namedLines, mark', connection, same]
    · simp [namedLines, mark', connection, same, Ne.symm same]
  have first : namedLines name [hostLine r] = if name = bytes "host" then [hostLine r] else [] := by
    by_cases same : name = bytes "host"
    · simp [namedLines, mark, host, same]
    · simp [namedLines, mark, host, same, Ne.symm same]
  rw [forwardedLines, ← List.singleton_append, namedLines, List.filter_append, List.filter_append, fields]
  exact congrArg₂ (· ++ ·) first (congrArg _ last)

/-- No forwarded client header is named `Host` or by a hop-by-hop name. -/
theorem forwarded_filter_dropped (name : Bytes) (headers : List (Bytes × Bytes))
    (dropped : name = bytes "host" ∨ isHopByHop name = true) :
    ((forwarded headers).filter fun kv => lower kv.1 = name) = [] := by
  rw [List.filter_eq_nil_iff]
  intro kv mem named
  obtain ⟨-, notHost, notHop⟩ := mem_forwarded.mp mem
  simp only [decide_eq_true_eq] at named
  rw [named] at notHost notHop
  rcases dropped with rfl | hop
  · exact notHost rfl
  · rw [hop] at notHop
    cases notHop

/-- The header names a proxy must not pass on. -/
def hopNames : List Bytes :=
  [bytes "connection", bytes "proxy-connection", bytes "keep-alive", bytes "transfer-encoding", bytes "upgrade",
    bytes "te", bytes "trailer", bytes "proxy-authorization", bytes "proxy-authenticate"]

theorem isHopByHop_iff {name : Bytes} : isHopByHop name = true ↔ name ∈ hopNames := by
  simp only [isHopByHop, hopNames, Bool.or_eq_true, decide_eq_true_eq, List.mem_cons, List.not_mem_nil, or_false,
    or_assoc]

theorem forwarded_eq (headers : List (Bytes × Bytes)) :
    forwarded headers = headers.filter fun kv => lower kv.1 ≠ bytes "host" ∧ lower kv.1 ∉ hopNames := by
  simp only [forwarded, isHopByHop_iff, not_or, ne_eq]

/-- What a strict reader sees of the request rebuilt from `buf`, whose own
strict reading has the lines `line :: hs`. -/
structure StrictFraming (buf : Bytes) (r : Request) (body line : Bytes) (hs fields : List Bytes) : Prop where
  /-- The client's lines; every header line has a colon. -/
  client : ∃ rest, readHead buf = some (line :: hs, rest)
  clientFields : ∀ h ∈ hs, (parseField h).isSome
  /-- Request line of three tokens, header lines, body. -/
  read : readHead (buildUpstreamRequest r body) =
    some ((r.method ++ bytes " " ++ r.path ++ bytes " HTTP/1.1") :: fields, body)
  method : space ∉ r.method
  path : space ∉ r.path ∧ ∃ p, r.path = slash :: p
  /-- The first CRLFCRLF ends the `Connection: close` line. -/
  blank : find [cr, lf, cr, lf] (buildUpstreamRequest r body) =
    some ((buildUpstreamRequest r body).length - body.length - 4)
  last : fields.getLast? = some (bytes "Connection: close")
  /-- Between the proxy's two lines: the client's other headers, trimmed, in order. -/
  others : fields = hostLine r ::
    (((hs.filterMap parseField).filter fun kv => lower kv.1 ≠ bytes "host" ∧ lower kv.1 ∉ hopNames).map renderField ++
      [bytes "Connection: close"])
  oneHost : namedLines (bytes "host") fields = [hostLine r]
  oneConnection : namedLines (bytes "connection") fields = [bytes "Connection: close"]
  closeValue : fieldValue (bytes "Connection: close") = bytes "close"
  noHop : ∀ name ∈ hopNames, name ≠ bytes "connection" → namedLines name fields = []

theorem Accepted.headers_eq {buf r stop line url hs} (acc : Accepted buf r stop line url hs) :
    r.headers = hs.filterMap parseField := by
  have listed : hs.filterMap parseField = (hs.map parseField).filterMap id := by simp
  rw [listed, acc.headers]
  simp

theorem Accepted.strictFraming {buf r stop line url hs} (acc : Accepted buf r stop line url hs) (body : Bytes) :
    StrictFraming buf r body line hs (forwardedLines r) where
  client := ⟨buf.drop (stop + 4), by rw [readHead, acc.blank, Option.map_some, acc.lines]⟩
  clientFields := by
    intro h mem
    have listed : parseField h ∈ hs.map parseField := List.mem_map_of_mem mem
    rw [acc.headers] at listed
    obtain ⟨kv, -, same⟩ := List.mem_map.mp listed
    rw [← same]
    rfl
  read := acc.readHead_build body
  method := acc.method_space
  path := ⟨acc.path_space, acc.target.path_slash⟩
  blank := by
    rw [build_eq_lines, find_blank_join cr_ne_lf acc.lines_free forwardedLines_ne_nil body]
    simp only [List.length_append, List.length_cons]
    congr 1
    omega
  last := by
    rw [forwardedLines, ← List.cons_append, List.getLast?_append_of_ne_nil _ (by simp)]
    rfl
  others := by
    rw [← acc.headers_eq, ← forwarded_eq]
    rfl
  oneHost := by
    rw [acc.namedLines_build, forwarded_filter_dropped _ r.headers (Or.inl rfl)]
    simp [show bytes "host" ≠ bytes "connection" by decide]
  oneConnection := by
    rw [acc.namedLines_build, forwarded_filter_dropped _ r.headers (Or.inr (by decide))]
    simp only [show bytes "connection" ≠ bytes "host" by decide, if_true, if_false, List.map_nil, List.nil_append]
    rfl
  closeValue := by decide
  noHop := by
    intro name hop other
    have notHost : name ≠ bytes "host" := by
      rintro rfl
      exact absurd hop (by decide)
    rw [acc.namedLines_build, forwarded_filter_dropped name r.headers (Or.inr (isHopByHop_iff.mpr hop))]
    simp [notHost, other]

/-- **Forwarded-request framing.** Whatever the client sent, if it parses, the
rebuilt request has exactly the lines the proxy meant, and then the body. -/
theorem build_framing (buf : Bytes) (r : Request) (ok : parseRequest buf {} = (.ok, r)) (body : Bytes) :
    ∃ line hs fields, StrictFraming buf r body line hs fields := by
  obtain ⟨stop, line, url, hs, acc⟩ := parseRequest_ok ok
  exact ⟨line, hs, forwardedLines r, acc.strictFraming body⟩

/-- A request with a lone CR before a line end, an empty name and a dropped header. -/
def oddRequest : Bytes :=
  bytes "GET http://h:8080/p HTTP/1.1\r\nX: a\r\r\n: b \r\nTE: c\r\n\r\n"

theorem build_framing_odd :
    parseRequest oddRequest {} = (.ok, (parseRequest oddRequest {}).2) ∧
    ∃ line hs fields, StrictFraming oddRequest (parseRequest oddRequest {}).2 (bytes "tail") line hs fields :=
  ⟨by decide +kernel, build_framing oddRequest _ (by decide +kernel) (bytes "tail")⟩

end EvProxy
