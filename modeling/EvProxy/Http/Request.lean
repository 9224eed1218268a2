import EvProxy.Http.Ascii

/-!
# Requests: parsing and rebuilding (`http.cpp`)

The functions of `http.cpp` as the source computes them, by positions in the
buffer. `Request&` out-parameters become a request passed in and returned,
with everything a failing path has already written to it. `parseRequest` is
cut at the source's own stages: request line, header loop, framing headers.
-/

namespace EvProxy
open Text

/-- `struct Request`. -/
structure Request where
  method : Bytes := []
  host : Bytes := []
  port : Bytes := bytes "80"
  path : Bytes := bytes "/"
  version : Bytes := []
  headers : List (Bytes × Bytes) := []
  contentLength : Nat := 0
  headerBytes : Nat := 0
  deriving DecidableEq

inductive ParseResult where
  | incomplete
  | ok
  | badRequest
  | notImplemented
  deriving DecidableEq

def isHopByHop (lname : Bytes) : Bool :=
  lname = bytes "connection" || lname = bytes "proxy-connection" || lname = bytes "keep-alive" ||
  lname = bytes "transfer-encoding" || lname = bytes "upgrade" || lname = bytes "te" ||
  lname = bytes "trailer" || lname = bytes "proxy-authorization" || lname = bytes "proxy-authenticate"

/-- Host and port of an authority, bracketed (`[::1]:8080`) or not. `none` is
the `return false` for a bracket that is never closed. -/
def splitAuthority (authority : Bytes) (out : Request) : Option Request :=
  if authority.head? = some 91 then
    match find [93] authority with
    | none => none
    | some close =>
      let out := { out with host := substr authority 1 (close - 1) }
      if authority[close + 1]? = some colon then
        some { out with port := authority.drop (close + 2) }
      else some out
  else
    match rfind colon authority with
    | none => some { out with host := authority }
    | some i => some { out with host := substr authority 0 i, port := authority.drop (i + 1) }

/-- The checks on an authority: it and its host and port are nonempty, and the
port is made of digits. -/
def checkAuthority (authority : Bytes) (out : Request) : Bool × Request :=
  if authority = [] then (false, out)
  else
    match splitAuthority authority out with
    | none => (false, out)
    | some out =>
      if out.host = [] ∨ out.port = [] then (false, out)
      else if allDigits out.port = false then (false, out)
      else (true, out)

/-- Splits `http://host:port/path` into its parts. -/
def splitAbsoluteUrl (url : Bytes) (out : Request) : Bool × Request :=
  let scheme := bytes "http://"
  if lower (substr url 0 scheme.length) ≠ scheme then (false, out)
  else
    let pathStart := findFrom [slash] scheme.length url
    let authority :=
      match pathStart with
      | none => url.drop scheme.length
      | some p => substr url scheme.length (p - scheme.length)
    let out := { out with
      path :=
        match pathStart with
        | none => bytes "/"
        | some p => url.drop p }
    checkAuthority authority out

/-- Case-insensitive header lookup: the first match, empty when absent. -/
def headerValue (req : Request) (name : Bytes) : Bytes :=
  match req.headers.find? fun kv => lower kv.1 = lower name with
  | some kv => kv.2
  | none => []

/-- The request line, METHOD SP URI SP VERSION; `ok` means "go on". -/
def parseRequestLine (line : Bytes) (out : Request) : ParseResult × Request :=
  match find [space] line with
  | none => (.badRequest, out)
  | some sp1 =>
    match findFrom [space] (sp1 + 1) line with
    | none => (.badRequest, out)
    | some sp2 =>
      let out := { out with method := substr line 0 sp1, version := line.drop (sp2 + 1) }
      let url := substr line (sp1 + 1) (sp2 - sp1 - 1)
      if out.method ≠ bytes "GET" ∧ out.method ≠ bytes "HEAD" ∧ out.method ≠ bytes "POST" then
        (.notImplemented, out)
      else
        match splitAbsoluteUrl url out with
        | (false, out) => (.badRequest, out)
        | (true, out) => (.ok, out)

/-- The header loop: lines from `pos` up to the blank line at `stop`. The
result is `false` for a line without a colon. Every round moves `pos` past a
terminator, so a buffer's length of rounds is never used up
(`headerLoop_lines`). -/
def headerLoop (buf : Bytes) (stop : Nat) : Nat → Nat → Request → Bool × Request
  | 0, _, out => (true, out)
  | fuel + 1, pos, out =>
    if pos < stop then
      match findFrom [cr, lf] pos buf with
      | none => (true, out)
      | some eol =>
        if stop < eol then (true, out)
        else
          let h := substr buf pos (eol - pos)
          if h = [] then (true, out)
          else
            match find [colon] h with
            | none => (false, out)
            | some i =>
              headerLoop buf stop fuel (eol + 2) { out with
                headers := out.headers ++ [(trim (substr h 0 i), trim (h.drop (i + 1)))] }
    else (true, out)

/-- The checks after the header loop: chunked bodies are refused, and
`Content-Length` must be a digit string. -/
def checkFraming (out : Request) : ParseResult × Request :=
  if (find (bytes "chunked") (lower (headerValue out (bytes "Transfer-Encoding")))).isSome then
    (.notImplemented, out)
  else
    let cl := headerValue out (bytes "Content-Length")
    if cl ≠ [] then
      if allDigits cl = false then (.badRequest, out)
      else (.ok, { out with contentLength := strtoul cl })
    else (.ok, out)

/-- Parses the header block at the start of `buf`. Does not consume the body. -/
def parseRequest (buf : Bytes) (out : Request) : ParseResult × Request :=
  match find [cr, lf, cr, lf] buf with
  | none => (.incomplete, out)
  | some stop =>
    let out := { out with headerBytes := stop + 4 }
    match find [cr, lf] buf with
    | none => (.badRequest, out)
    | some lineEnd =>
      if lineEnd = 0 then (.badRequest, out)
      else
        match parseRequestLine (substr buf 0 lineEnd) out with
        | (.ok, out) =>
          match headerLoop buf stop buf.length (lineEnd + 2) out with
          | (true, out) => checkFraming out
          | (false, out) => (.badRequest, out)
        | failed => failed

/-- One forwarded header line. -/
def headerLine (kv : Bytes × Bytes) : Bytes :=
  kv.1 ++ bytes ": " ++ kv.2 ++ bytes "\r\n"

/-- The headers that reach the origin: not the client's `Host`, nothing hop-by-hop. -/
def forwarded (headers : List (Bytes × Bytes)) : List (Bytes × Bytes) :=
  headers.filter fun kv => ¬ (lower kv.1 = bytes "host" ∨ isHopByHop (lower kv.1) = true)

/-- The value of the `Host` header the proxy writes. -/
def hostValue (req : Request) : Bytes :=
  if req.port ≠ bytes "80" then req.host ++ bytes ":" ++ req.port else req.host

/-- Rebuilds the request for the origin: origin-form request line, one Host
header, hop-by-hop headers dropped, `Connection: close` forced. -/
def buildUpstreamRequest (req : Request) (body : Bytes) : Bytes :=
  req.method ++ bytes " " ++ req.path ++ bytes " HTTP/1.1\r\n" ++
    bytes "Host: " ++ hostValue req ++ bytes "\r\n" ++
    (forwarded req.headers).flatMap headerLine ++
    bytes "Connection: close\r\n\r\n" ++ body

def errorResponse (code : Nat) (reason : Bytes) : Bytes :=
  let body := toDec code ++ bytes " " ++ reason ++ bytes "\n"
  bytes "HTTP/1.1 " ++ toDec code ++ bytes " " ++ reason ++ bytes "\r\n" ++
    bytes "Content-Type: text/plain\r\n" ++
    bytes "Content-Length: " ++ toDec body.length ++ bytes "\r\n" ++
    bytes "Connection: close\r\n\r\n" ++ body

theorem errorResponse_ne_nil (code : Nat) (reason : Bytes) : errorResponse code reason ≠ [] := by
  have start : bytes "HTTP/1.1 " ≠ [] := by decide
  simp [errorResponse, start]

theorem buildUpstreamRequest_ne_nil (req : Request) (body : Bytes) :
    buildUpstreamRequest req body ≠ [] := by
  have host : bytes "Host: " ≠ [] := by decide
  simp [buildUpstreamRequest, host]

end EvProxy
