import EvProxy.Config.Load
import EvProxy.Conn.BodyFraming
import EvProxy.Conn.Buffers

/-!
# The wait for the body

`do_read_client` goes on once the buffer holds `header_bytes + content_length`
bytes, a `size_t` sum. The body it then cuts out is whole exactly when that sum
does not wrap: the end of the header block plus what the first `Content-Length`
line declares is less than `2^64` (`body_wait_iff`). Configured limits that leave
room for the headers rule the wrap out; `load_config` accepts limits that do not.
-/

namespace EvProxy
open Text Runs

section Steps
variable {cfg : Config} {c c' : Connection} {events : List Event} {cache cache' : Option LruCache}

/-- A call that goes on past the wait has found the buffer long enough, and has
built the request from it. -/
theorem Reading.past_wait (h : Reading cfg c) (step : Step cfg c cache events c' cache')
    (past : c'.outUpstream ≠ []) :
    ∃ data req, c'.inClient = c.inClient ++ data ∧ Ready cfg c c'.inClient req ∧
      sizeAdd req.headerBytes req.contentLength ≤ c'.inClient.length ∧ c'.outUpstream = rebuilt c'.inClient req := by
  have unsent := h.unsent.1
  have want := h.want
  cases step with
  | hit data response req stored _ got ready enough => exact ⟨data, req, rfl, ready, enough, rfl⟩
  | forward data key req _ got ready enough lookup resolve =>
    obtain ⟨kept, -⟩ := resolve.kept
    rw [kept.inClient, kept.outUpstream]
    exact ⟨data, req, rfl, ready, enough, rfl⟩
  | idle | hangup | incomplete | awaiting | rejected => exact absurd unsent past
  | _ => simp_all

end Steps

/-- The body cut out of a buffer that passed the wait is whole unless the sum wrapped. -/
theorem length_body_iff {buf : Bytes} {head body : Nat} (inside : head ≤ buf.length)
    (enough : sizeAdd head body ≤ buf.length) (fits : buf.length < 2 ^ 64) :
    (substr buf head body).length = body ↔ head + body < 2 ^ 64 := by
  have cut : (substr buf head body).length = min body (buf.length - head) := by simp [substr]
  constructor
  · intro whole
    omega
  · intro exact_sum
    rw [sizeAdd, Nat.mod_eq_of_lt exact_sum] at enough
    omega

/-- What the first `Content-Length` line of a message declares, as far as `strtoul` can count. -/
def declaredLength (msg : Bytes) : Nat :=
  match readHead msg with
  | some (_ :: fields, _) =>
    match (fields.filterMap parseField).find? fun kv => lower kv.1 = bytes "content-length" with
    | some kv => min (decimal kv.2) ulongMax
    | none => 0
  | _ => 0

theorem Accepted.contentLength_declared {buf r stop line url hs} (acc : Accepted buf r stop line url hs) :
    r.contentLength = declaredLength buf := by
  have head : readHead buf = some (line :: hs, buf.drop (stop + 4)) := by
    rw [readHead, acc.blank, Option.map_some, acc.lines]
  have lowered : lower (bytes "Content-Length") = bytes "content-length" := by decide
  simp only [declaredLength, head, ← acc.headers_eq]
  have value := headerValue.eq_1 r (bytes "Content-Length")
  rw [lowered] at value
  cases found : r.headers.find? fun kv => decide (lower kv.1 = bytes "content-length") with
  | none =>
    rw [found] at value
    exact acc.noLength value
  | some kv =>
    rw [found] at value
    by_cases empty : kv.2 = []
    · rw [acc.noLength (value.trans empty)]
      simp [empty, decimal]
    · obtain ⟨digits, length⟩ := acc.someLength (by rw [value]; exact empty)
      rw [length, strtoul_digits (allDigits_iff.mp digits), value]

/-- The request buffer is what the client has sent. -/
theorem drive_fed (cfg : Config) (client id : Nat) (calls : List Call) :
    ((Session.start client id).drive cfg calls).conn.inClient =
      stream .fromClient ((Session.start client id).drive cfg calls).trace := by
  refine Session.drive_invariant (P := fun s => s.conn.inClient = stream .fromClient s.trace) ?_ rfl calls
  intro s cache cache' events c' fed step
  rw [step.fed, fed, stream_append]

section Reached
variable (cfg : Config) (client id : Nat) (calls : List Call) (k : Call)

/-- What a call that goes on past the wait forwards, in terms of the client's stream. -/
theorem past_wait (reading : ((Session.start client id).drive cfg calls).conn.want = .readClient)
    (past : (((Session.start client id).drive cfg calls).call cfg k).conn.outUpstream ≠ []) :
    let s := ((Session.start client id).drive cfg calls).call cfg k
    let sent := stream .fromClient s.trace
    ∃ req, parseRequest sent {} = (.ok, req) ∧ req.contentLength ≤ cfg.maxBodyBytes ∧
      req.headerBytes ≤ cfg.maxHeaderBytes + chunk cfg ∧
      sizeAdd req.headerBytes req.contentLength ≤ sent.length ∧ s.conn.outUpstream = rebuilt sent req := by
  intro s sent
  have fed := drive_fed cfg client id calls
  have within := drive_within cfg client id calls
  have h : Reading cfg ((Session.start client id).drive cfg calls).conn :=
    (drive_phase cfg client id calls).of_want reading
  have step := onReady_step cfg k.answers k.cache ((Session.start client id).drive cfg calls).conn
  have buffer : s.conn.inClient = sent := by
    refine step.fed.trans ?_
    rw [fed, ← stream_append]
    rfl
  obtain ⟨data, req, grown, ready, enough, request⟩ := h.past_wait step past
  have read : data.length ≤ chunk cfg := by
    have taken := onReady_chunk cfg k.answers k.cache ((Session.start client id).drive cfg calls).conn
    rwa [List.append_cancel_left (grown.symm.trans step.fed)]
  rw [grown] at ready
  obtain ⟨parse, small⟩ := h.ready ready
  have header := within.ready h ready read
  rw [← buffer]
  rw [← grown] at parse
  exact ⟨req, parse, small, header, enough, request⟩

/-- **The wait for the body.** Whenever `do_read_client` goes on, with a buffer whose
size is a `size_t`, the body it forwards has `content_length` bytes exactly when the
end of the header block plus the declared length is less than `2^64`. With limits
that leave that sum in 64 bits it always is. -/
theorem body_wait_iff (reading : ((Session.start client id).drive cfg calls).conn.want = .readClient)
    (past : (((Session.start client id).drive cfg calls).call cfg k).conn.outUpstream ≠ [])
    (fits : (stream .fromClient (((Session.start client id).drive cfg calls).call cfg k).trace).length < 2 ^ 64) :
    let s := ((Session.start client id).drive cfg calls).call cfg k
    let sent := stream .fromClient s.trace
    ∃ req stop, parseRequest sent {} = (.ok, req) ∧
      (find [cr, lf, cr, lf] sent = some stop ∧ req.headerBytes = stop + 4 ∧
        req.contentLength = declaredLength sent) ∧
      s.conn.outUpstream = buildUpstreamRequest req (substr sent req.headerBytes req.contentLength) ∧
      ((substr sent req.headerBytes req.contentLength).length = req.contentLength ↔
        stop + 4 + declaredLength sent < 2 ^ 64) ∧
      (cfg.maxHeaderBytes + chunk cfg + cfg.maxBodyBytes < 2 ^ 64 → stop + 4 + declaredLength sent < 2 ^ 64) := by
  intro s sent
  obtain ⟨req, parse, small, header, enough, request⟩ := past_wait cfg client id calls k reading past
  obtain ⟨stop, line, url, hs, acc⟩ := parseRequest_ok parse
  have length := acc.contentLength_declared
  have whole := length_body_iff (headerBytes_le parse) enough fits
  refine ⟨req, stop, parse, ⟨acc.blank, acc.headerBytes, length⟩, request, ?_, fun limits => ?_⟩
  · rw [← length, ← acc.headerBytes]
    exact whole
  · rw [← length, ← acc.headerBytes]
    omega

end Reached

theorem body_wait_one_byte :
    let s := ((Session.start 5 0).drive {} []).call {}
      (wholeRead (bytes "POST http://h/ HTTP/1.1\r\nContent-Length: 1\r\n\r\nX"))
    let sent := stream .fromClient s.trace
    declaredLength sent = 1 ∧ ∃ req, req.contentLength = declaredLength sent ∧
      s.conn.outUpstream = buildUpstreamRequest req (substr sent req.headerBytes req.contentLength) ∧
      (substr sent req.headerBytes req.contentLength).length = req.contentLength := by
  intro s sent
  obtain ⟨req, stop, -, ⟨-, -, length⟩, request, whole, limits⟩ := body_wait_iff {} 5 0 []
    (wholeRead (bytes "POST http://h/ HTTP/1.1\r\nContent-Length: 1\r\n\r\nX"))
    (by decide +kernel) (by decide +kernel) (by decide +kernel)
  exact ⟨by decide +kernel, req, length, request, whole.mpr (limits (by decide))⟩

/-- A file that sets the largest body limit. -/
def unboundedConfig : Option Bytes × Config :=
  loadConfig (some (bytes "max_body_bytes = 18446744073709551615\n")) (bytes "evproxy.conf") {}

/-- With that file, a request that declares the largest body is forwarded without any. -/
theorem body_wait_wraps :
    unboundedConfig.1 = none ∧
      let s := ((Session.start 5 0).drive unboundedConfig.2 []).call unboundedConfig.2
        (wholeRead (bytes "POST http://h/ HTTP/1.1\r\nContent-Length: 18446744073709551615\r\n\r\n"))
      s.conn.state = .sendingUpstream ∧ s.conn.req.contentLength = 18446744073709551615 ∧
        s.conn.outUpstream = buildUpstreamRequest s.conn.req [] := by
  decide +kernel

end EvProxy
