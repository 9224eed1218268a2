import EvProxy.Http.Accepted
import EvProxy.Http.Checked
import EvProxy.Conn.Phase

/-!
# No peer can make the core throw

`on_ready()` with its string operations checked: the parser's, the cut of the body,
the comparisons of `store_in_cache`, and what is left of a buffer being sent. The
positions come from earlier reads, so the bounds are facts about reachable
connections: `Phase` has them. A session driven with the checked handlers never
reports a fault (`drive_checked`).
-/

namespace EvProxy
open Text Runs

/-- The tail of `do_read_client`; the body is the one string it cuts by position. -/
def awaitBodyChecked (cfg : Config) (a : Answers) (x : Exec) : Checked Exec :=
  if x.conn.inClient.length < sizeAdd x.conn.req.headerBytes x.conn.req.contentLength then .ok x
  else do
    let _ ← substrAt x.conn.inClient x.conn.req.headerBytes x.conn.req.contentLength
    .ok (awaitBody cfg a x)

def doReadClientChecked (cfg : Config) (a : Answers) (x : Exec) : Checked Exec :=
  match readSome (chunk cfg) a.recv with
  | (.wouldBlock, _) => .ok x
  | (.error, _) => .ok (finish a (x.log [.clientGone]))
  | (.closed, _) => .ok (finish a (x.log [.clientGone]))
  | (.ok, data) =>
    let x := { x with
      conn := { x.conn with inClient := x.conn.inClient ++ data }
      trace := x.trace ++ [.recvClient data] }
    if x.conn.parsed then awaitBodyChecked cfg a x
    else do
      let p ← parseRequestChecked x.conn.inClient x.conn.req
      let x := { x with conn := { x.conn with req := p.2 } }
      match p.1 with
      | .incomplete => if cfg.maxHeaderBytes < x.conn.inClient.length then .ok (failWith badRequest x) else .ok x
      | .badRequest => .ok (failWith badRequest x)
      | .notImplemented => .ok (failWith notImplemented x)
      | .ok =>
        if cfg.maxBodyBytes < p.2.contentLength then .ok (failWith payloadTooLarge x)
        else awaitBodyChecked cfg a { x with conn := { x.conn with parsed := true } }

/-- The response test; the second comparison is made only if the first one fails. -/
def storableChecked (response : Bytes) : Checked Bool := do
  let http11 ← compareAt response 0 9 (bytes "HTTP/1.1 ")
  let http ← if http11 then .ok true else compareAt response 0 9 (bytes "HTTP/1.0 ")
  if !http then .ok false
  else
    let success ← compareAt response 9 3 (bytes "200")
    if !success then .ok false
    else if (find (bytes "\r\nSet-Cookie:") response).isSome ∨ (find (bytes "\r\nset-cookie:") response).isSome then
      .ok false
    else .ok true

def storeInCacheChecked (x : Exec) : Checked Exec :=
  match x.cache with
  | none => .ok x
  | some cache =>
    if x.conn.cacheKey = [] ∨ x.conn.cacheTooBig then .ok x
    else if !x.conn.upstreamEof then .ok x
    else do
      let store ← storableChecked x.conn.cacheAccum
      if !store then .ok x
      else
        .ok ({ x with cache := some (cache.put x.conn.cacheKey x.conn.cacheAccum) }.log
          [.cachePut x.conn.cacheKey x.conn.cacheAccum])

def doReadUpstreamChecked (cfg : Config) (a : Answers) (x : Exec) : Checked Exec :=
  match readSome (chunk cfg) a.recv with
  | (.closed, _) => do
    let x := x.log [.upstreamEof]
    let x ← storeInCacheChecked (resetUpstream { x with conn := { x.conn with upstreamEof := true } })
    if x.conn.outClient.length ≤ x.conn.outClientOff then .ok (finish a x)
    else .ok { x with conn := x.conn.setWant .writeClient }
  | _ => .ok (doReadUpstream cfg a x)

/-- `on_ready()`; a send starts with the size of what is left. -/
def onReadyChecked (cfg : Config) (a : Answers) (x : Exec) : Checked Exec :=
  match x.conn.want with
  | .readClient => doReadClientChecked cfg a x
  | .writeClient => do
    let _ ← minus x.conn.outClient.length x.conn.outClientOff
    .ok (doWriteClient a x)
  | .readUpstream => doReadUpstreamChecked cfg a x
  | .readResolver => .ok (finishResolve a x)
  | .writeUpstream =>
    if x.conn.state = .connecting then .ok (finishConnect a x)
    else do
      let _ ← minus x.conn.outUpstream.length x.conn.outUpstreamOff
      .ok (doWriteUpstream a x)
  | .none => .ok (finish a x)

namespace Session

def callChecked (cfg : Config) (s : Session) (k : Call) : Checked Session := do
  let x ← onReadyChecked cfg k.answers ⟨s.conn, k.cache, []⟩
  .ok ⟨x.conn, s.trace ++ x.trace⟩

def driveChecked (cfg : Config) (s : Session) (calls : List Call) : Checked Session :=
  calls.foldlM (callChecked cfg) s

end Session

theorem awaitBodyChecked_eq {x : Exec} (inside : x.conn.req.headerBytes ≤ x.conn.inClient.length) (cfg : Config)
    (a : Answers) : awaitBodyChecked cfg a x = .ok (awaitBody cfg a x) := by
  unfold awaitBodyChecked
  split
  · rename_i short
    simp only [awaitBody, short, if_true]
  · rw [substrAt_eq inside, bind_ok]

/-- A response that starts with nine given bytes reaches the status code. -/
theorem nine_le_length {response version : Bytes} (starts : substr response 0 9 = version) (nine : version.length = 9) :
    9 ≤ response.length := by
  have size := congrArg List.length starts
  rw [substr_zero, List.length_take, nine] at size
  omega

theorem ite_ok {α : Type} {p : Prop} [Decidable p] (a b : α) :
    (if p then (.ok a : Checked α) else .ok b) = .ok (if p then a else b) :=
  (apply_ite Except.ok p a b).symm

theorem storableChecked_eq (response : Bytes) : storableChecked response = .ok (storable response) := by
  have first (version : Bytes) := compareAt_eq (Nat.zero_le response.length) 9 version
  have status (long : 9 ≤ response.length) := compareAt_eq long 3 (bytes "200")
  unfold storableChecked storable
  by_cases http11 : substr response 0 9 = bytes "HTTP/1.1 "
  · have long := nine_le_length http11 (by decide)
    have http : ¬ (substr response 0 9 ≠ bytes "HTTP/1.1 " ∧ substr response 0 9 ≠ bytes "HTTP/1.0 ") :=
      fun neither => neither.1 http11
    rw [if_neg http]
    simp only [first, decide_eq_true http11, if_true, bind_ok, status long, ite_ok]
    simp
  · by_cases http10 : substr response 0 9 = bytes "HTTP/1.0 "
    · have long := nine_le_length http10 (by decide)
      have http : ¬ (substr response 0 9 ≠ bytes "HTTP/1.1 " ∧ substr response 0 9 ≠ bytes "HTTP/1.0 ") :=
        fun neither => neither.2 http10
      rw [if_neg http]
      simp only [first, decide_eq_false http11, decide_eq_true http10, bind_ok, status long, ite_ok]
      simp
    · have other : substr response 0 9 ≠ bytes "HTTP/1.1 " ∧ substr response 0 9 ≠ bytes "HTTP/1.0 " :=
        ⟨http11, http10⟩
      rw [if_pos other]
      simp only [first, decide_eq_false http11, decide_eq_false http10, bind_ok]
      simp

theorem storeInCacheChecked_eq (x : Exec) : storeInCacheChecked x = .ok (storeInCache x) := by
  unfold storeInCacheChecked storeInCache
  cases x.cache with
  | none => rfl
  | some cache => simp only [storableChecked_eq, bind_ok, ite_ok]

theorem doReadUpstreamChecked_eq (cfg : Config) (a : Answers) (x : Exec) :
    doReadUpstreamChecked cfg a x = .ok (doReadUpstream cfg a x) := by
  unfold doReadUpstreamChecked
  split
  · rename_i closed
    simp only [doReadUpstream, closed, storeInCacheChecked_eq, bind_ok, ite_ok]
  · rfl

section Reachable
variable {cfg : Config} {c : Connection}

/-- The header block of the request in hand lies in the buffer. -/
theorem Reading.header_le (h : Reading cfg c) (parsed : c.parsed = true) (data : Bytes) :
    c.req.headerBytes ≤ (c.inClient ++ data).length := by
  have inside := headerBytes_le (h.parsed parsed).1
  rw [List.length_append]
  omega

theorem Reading.doReadClientChecked_eq (h : Reading cfg c) (a : Answers) (cache : Option LruCache) (t : List Event) :
    doReadClientChecked cfg a ⟨c, cache, t⟩ = .ok (doReadClient cfg a ⟨c, cache, t⟩) := by
  cases read : readSome (chunk cfg) a.recv with
  | mk status data =>
    cases status with
    | wouldBlock => simp only [doReadClientChecked, doReadClient, read]
    | error => simp only [doReadClientChecked, doReadClient, read]
    | closed => simp only [doReadClientChecked, doReadClient, read]
    | ok =>
      simp only [doReadClientChecked, doReadClient, read, parseRequestChecked_eq, bind_ok]
      cases parsed : c.parsed with
      | true => exact awaitBodyChecked_eq (h.header_le parsed data) cfg a
      | false =>
        simp only [Bool.false_eq_true, if_false, (h.unparsed parsed).1]
        cases parse : parseRequest (c.inClient ++ data) {} with
        | mk result req =>
          cases result with
          | incomplete => simp only [ite_ok]
          | badRequest => rfl
          | notImplemented => rfl
          | ok =>
            have inside := headerBytes_le parse
            by_cases large : cfg.maxBodyBytes < req.contentLength
            · simp only [large, if_true]
            · simp only [large, if_false]
              exact awaitBodyChecked_eq inside cfg a

theorem Phase.onReadyChecked_eq (phase : Phase cfg c) (a : Answers) (cache : Option LruCache) (t : List Event) :
    onReadyChecked cfg a ⟨c, cache, t⟩ = .ok (onReady cfg a ⟨c, cache, t⟩) := by
  unfold onReadyChecked onReady
  cases want : c.want with
  | readClient => exact Reading.doReadClientChecked_eq (phase.of_want want) a cache t
  | writeClient =>
    have left : c.outClientOff ≤ c.outClient.length := by
      rcases phase.of_want want with h | h
      · exact h.pending.le
      · rcases h.off with zero | pending
        · omega
        · exact pending.le
    simp only [minus_eq left, bind_ok]
  | readUpstream => exact doReadUpstreamChecked_eq cfg a _
  | readResolver => rfl
  | writeUpstream =>
    by_cases connecting : c.state = .connecting
    · simp only [connecting, if_true]
    · have left := (phase.of_sending want connecting).unsent.le
      simp only [connecting, if_false, minus_eq left, bind_ok]
  | none => rfl

end Reachable

/-- **No peer can make the core throw.** Whatever the two peers send, in whatever
pieces, and whatever the cache holds: no position passed to a string lies past its
end, no difference of sizes or positions is negative, and the header loop ends at
the terminator without its two early exits. -/
theorem drive_checked (cfg : Config) (client id : Nat) (calls : List Call) :
    (Session.start client id).driveChecked cfg calls = .ok ((Session.start client id).drive cfg calls) := by
  refine foldlM_run (P := fun s : Session => Phase cfg s.conn) ?_ ?_ (phase_init cfg client id) calls
  · intro s k phase
    exact phase.step (onReady_step cfg k.answers k.cache s.conn)
  · intro s k phase
    rw [Session.callChecked, phase.onReadyChecked_eq]
    rfl

end EvProxy
