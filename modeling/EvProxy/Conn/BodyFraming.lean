import EvProxy.Http.Framing
import EvProxy.Conn.Phase

/-!
# The forwarded `Content-Length`

The proxy measures a body by the first `Content-Length` header and takes an
empty value for none; the rebuilt request carries every such header as the
client wrote it. So an origin agrees with the proxy about where the request ends
exactly when all of them say the same thing (`Known.lengthsAgree_iff`); two that
differ, or an empty one, are forwarded all the same.
-/

namespace EvProxy
open Text

/-- The value declares a body of `n` bytes. -/
def declares (value : Bytes) (n : Nat) : Bool := value ≠ [] && allDigits value && decide (decimal value = n)

theorem declares_iff {value : Bytes} {n : Nat} :
    declares value n = true ↔ value ≠ [] ∧ allDigits value = true ∧ decimal value = n := by
  simp [declares, and_assoc]

/-- Every `Content-Length` line a strict reader finds declares the body that follows. -/
def lengthsAgree (msg : Bytes) : Bool :=
  match readHead msg with
  | some (_ :: fields, body) =>
    (namedLines (bytes "content-length") fields).all fun l => declares (fieldValue l) body.length
  | _ => false

/-- All `Content-Length` headers of the request declare one number, of bytes that
are there behind the header block. -/
def UniformLength (buf : Bytes) (req : Request) : Prop :=
  ∃ n ≤ ulongMax, req.headerBytes + n ≤ buf.length ∧
    ∀ kv ∈ req.headers, lower kv.1 = bytes "content-length" → declares kv.2 n = true

/-- A forwarded value reads back as it was parsed. -/
theorem Accepted.fieldValue_render {buf r stop line url hs} (acc : Accepted buf r stop line url hs)
    {kv : Bytes × Bytes} (mem : kv ∈ r.headers) : fieldValue (renderField kv) = kv.2 := by
  obtain ⟨h, -, field⟩ := acc.field_of_mem mem
  obtain ⟨plain, -, -, -, trimmed⟩ := parseField_some field
  rw [renderField_eq, fieldValue_append plain, trim_space_cons, trimmed]

/-- Every `Content-Length` of the client is forwarded, and no other line has that name. -/
theorem Accepted.lengthsAgree_build {buf r stop line url hs} (acc : Accepted buf r stop line url hs) (body : Bytes) :
    lengthsAgree (buildUpstreamRequest r body) = true ↔
      ∀ kv ∈ r.headers, lower kv.1 = bytes "content-length" → declares kv.2 body.length = true := by
  have others : bytes "content-length" ≠ bytes "host" ∧ bytes "content-length" ≠ bytes "connection" := by decide
  have kept : isHopByHop (bytes "content-length") = false := by decide
  rw [lengthsAgree, acc.readHead_build body]
  simp only [acc.namedLines_build, others.1, others.2, if_false, List.nil_append, List.append_nil, List.all_map,
    List.all_eq_true, List.mem_filter, mem_forwarded, decide_eq_true_eq, Function.comp_apply]
  refine ⟨fun all kv mem named => ?_, fun all kv listed => ?_⟩
  · have value := all kv ⟨⟨mem, by rw [named]; exact others.1, by rw [named]; exact kept⟩, named⟩
    rwa [acc.fieldValue_render mem] at value
  · rw [acc.fieldValue_render listed.1.1]
    exact all kv listed.1.1 listed.2

/-- The header lookup finds a header of that name, if there is one. -/
theorem headerValue_mem {r : Request} {name : Bytes} {kv : Bytes × Bytes} (mem : kv ∈ r.headers)
    (named : lower kv.1 = lower name) :
    ∃ kv' ∈ r.headers, lower kv'.1 = lower name ∧ headerValue r name = kv'.2 := by
  have found : (r.headers.find? fun kv => decide (lower kv.1 = lower name)).isSome := by
    rw [List.find?_isSome]
    exact ⟨kv, mem, by simpa using named⟩
  obtain ⟨kv', first⟩ := Option.isSome_iff_exists.mp found
  exact ⟨kv', List.mem_of_find?_eq_some first, by simpa using List.find?_some first, by rw [headerValue, first]⟩

/-- When all `Content-Length` headers declare `n`, that is the proxy's length too. -/
theorem Accepted.contentLength_eq {buf r stop line url hs} (acc : Accepted buf r stop line url hs) {n : Nat}
    (bound : n ≤ ulongMax) (all : ∀ kv ∈ r.headers, lower kv.1 = bytes "content-length" → declares kv.2 n = true)
    {kv : Bytes × Bytes} (mem : kv ∈ r.headers) (named : lower kv.1 = bytes "content-length") :
    r.contentLength = n := by
  have lowered : lower (bytes "Content-Length") = bytes "content-length" := by decide
  obtain ⟨first, listed, its_name, value⟩ := headerValue_mem mem (named.trans lowered.symm)
  obtain ⟨nonempty, digits, number⟩ := declares_iff.mp (all first listed (its_name.trans lowered))
  rw [← value] at nonempty digits number
  rw [(acc.someLength nonempty).2, strtoul_digits (allDigits_iff.mp digits), number]
  exact Nat.min_eq_left bound

/-- **When the origin sees the proxy's boundary.** -/
theorem Known.lengthsAgree_iff {cfg : Config} {buf key : Bytes} {req : Request} (known : Known cfg buf req key) :
    lengthsAgree (rebuilt buf req) = true ↔ UniformLength buf req := by
  obtain ⟨stop, line, url, hs, acc⟩ := parseRequest_ok known.parse
  have inside := headerBytes_le known.parse
  have bodyLength : (substr buf req.headerBytes req.contentLength).length =
      min req.contentLength (buf.length - req.headerBytes) := by
    simp [substr]
  have measured : req.contentLength ≤ ulongMax := by
    by_cases absent : headerValue req (bytes "Content-Length") = []
    · rw [acc.noLength absent]
      exact Nat.zero_le _
    · obtain ⟨digits, length⟩ := acc.someLength absent
      rw [length, strtoul_digits (allDigits_iff.mp digits)]
      exact Nat.min_le_right _ _
  rw [rebuilt, acc.lengthsAgree_build]
  constructor
  · intro all
    exact ⟨_, by rw [bodyLength]; omega, by rw [bodyLength]; omega, all⟩
  · rintro ⟨n, bound, there, all⟩ kv mem named
    have length := acc.contentLength_eq bound all mem named
    have whole : (substr buf req.headerBytes req.contentLength).length = n := by
      rw [bodyLength, length]
      omega
    rw [whole]
    exact all kv mem named

/-- The states in which a rebuilt request is on its way. -/
def Connection.forwarding (c : Connection) : Prop :=
  c.state = .resolving ∨ c.state = .connecting ∨ c.state = .sendingUpstream

instance (c : Connection) : Decidable c.forwarding :=
  inferInstanceAs (Decidable (c.state = .resolving ∨ c.state = .connecting ∨ c.state = .sendingUpstream))

theorem Phase.loaded {cfg : Config} {c : Connection} (phase : Phase cfg c) (forwarding : c.forwarding) :
    Loaded cfg c := by
  unfold Connection.forwarding at forwarding
  cases phase with
  | reading h => simp [h.state] at forwarding
  | resolving h => exact h.loaded
  | connecting h => exact h.loaded
  | sending h => exact h.loaded
  | waiting h => simp [h.relaying.state] at forwarding
  | flushing h => simp [h.relaying.state] at forwarding
  | failing h => simp [h.state] at forwarding
  | done h => simp [h.state] at forwarding

/-- **Body framing.** After any calls, the request a connection forwards tells
the origin the proxy's own boundary exactly when the client's headers are uniform. -/
theorem content_length_agrees_iff (cfg : Config) (client id : Nat) (calls : List Call)
    (forwarding : ((Session.start client id).drive cfg calls).conn.forwarding) :
    let c := ((Session.start client id).drive cfg calls).conn
    parseRequest c.inClient {} = (.ok, c.req) ∧ c.outUpstream = rebuilt c.inClient c.req ∧
      (lengthsAgree c.outUpstream = true ↔ UniformLength c.inClient c.req) := by
  intro c
  have loaded : Loaded cfg c := (drive_phase cfg client id calls).loaded forwarding
  refine ⟨loaded.known.parse, loaded.request, ?_⟩
  rw [loaded.request]
  exact loaded.known.lengthsAgree_iff

/-- A read that holds the whole request, and an origin that accepts at once. -/
def wholeRead (request : Bytes) : Call :=
  ⟨{ recv := .bytes request, start := .hit [⟨[], 0, 0, 0⟩], dial := fun _ => .connected 6 }, none⟩

def oneRead (request : Bytes) : List Call := [wholeRead request]

theorem content_length_agrees_one_byte :
    lengthsAgree ((Session.start 5 0).drive {}
      (oneRead (bytes "POST http://h/ HTTP/1.1\r\nContent-Length: 1\r\n\r\nX"))).conn.outUpstream = true := by
  refine (content_length_agrees_iff {} 5 0
    (oneRead (bytes "POST http://h/ HTTP/1.1\r\nContent-Length: 1\r\n\r\nX")) ?_).2.2.mpr ⟨1, ?_, ?_, ?_⟩
  · decide
  · decide
  · decide
  · decide

/-- Two different lengths are both forwarded: the proxy sends one byte of body,
the second header says two. -/
theorem content_length_duplicates :
    let c := ((Session.start 5 0).drive {}
      (oneRead (bytes "POST http://h/ HTTP/1.1\r\nContent-Length: 1\r\nContent-Length: 2\r\n\r\nX"))).conn
    c.state = .sendingUpstream ∧
      c.outUpstream = bytes ("POST / HTTP/1.1\r\nHost: h\r\nContent-Length: 1\r\nContent-Length: 2\r\n" ++
        "Connection: close\r\n\r\nX") ∧
      lengthsAgree c.outUpstream = false := by
  decide +kernel

end EvProxy
