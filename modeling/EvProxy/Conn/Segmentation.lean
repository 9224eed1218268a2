import EvProxy.Http.Accepted
import EvProxy.Conn.Phase

/-!
# However the request arrives

do_read_client runs after every read, on a buffer that grows by whatever the
kernel hands over. Its decision is a function of the buffer alone (`verdict`,
`read_verdict`), and on the prefixes of one stream that function changes its
answer exactly once (`verdict_take`). So the cuts do not matter.
-/

namespace EvProxy
open Text

/-- What reading the request can come to. -/
inductive Outcome where
  | error (response : Bytes)
  | accepted (request key : Bytes)
  deriving DecidableEq

/-- The outcome so far: none while the client is being read, an error if no
request was rebuilt. -/
def outcome (c : Connection) : Option Outcome :=
  if c.want = .readClient then none
  else if c.outUpstream = [] then some (.error c.outClient)
  else some (.accepted c.outUpstream c.cacheKey)

/-- `on_ready()` for as long as the connection reads its client. -/
def readRequest (cfg : Config) : List Call → Connection → Connection
  | [], c => c
  | k :: calls, c =>
    if c.want = .readClient then readRequest cfg calls (onReady cfg k.answers ⟨c, k.cache, []⟩).conn else c

/-- The bytes the kernel hands over in a call. -/
def Call.data (k : Call) : Bytes :=
  match k.answers.recv with
  | .bytes data => data
  | _ => []

/-- A read of 1 to `chunk` bytes, or one that would block, with or without a cache. -/
def Call.Reads (cfg : Config) (cached : Bool) (k : Call) : Prop :=
  k.cache.isSome = cached ∧
    (k.answers.recv = .wouldBlock ∨ ∃ data, k.answers.recv = .bytes data ∧ data ≠ [] ∧ data.length ≤ chunk cfg)

/-- What do_read_client decides on a buffer. -/
def verdict (cfg : Config) (cached : Bool) (buf : Bytes) : Option Outcome :=
  match parseRequest buf {} with
  | (.incomplete, _) => if cfg.maxHeaderBytes < buf.length then some (.error badRequest) else none
  | (.badRequest, _) => some (.error badRequest)
  | (.notImplemented, _) => some (.error notImplemented)
  | (.ok, req) =>
    if cfg.maxBodyBytes < req.contentLength then some (.error payloadTooLarge)
    else if buf.length < sizeAdd req.headerBytes req.contentLength then none
    else
      some (.accepted (rebuilt buf req)
        (if cached && cacheableRequest cfg req then cacheKey req.method req.host req.port req.path else []))

section Steps
variable {cfg : Config} {c c' : Connection} {events : List Event}

theorem outcome_accepted (want : c'.want ≠ .readClient) {buf key : Bytes} {req : Request}
    (request : c'.outUpstream = rebuilt buf req) (keyed : c'.cacheKey = key) :
    outcome c' = some (.accepted (rebuilt buf req) key) := by
  have nonempty : rebuilt buf req ≠ [] := buildUpstreamRequest_ne_nil _ _
  rw [outcome, if_neg want, request, if_neg nonempty, keyed]

theorem outcome_failed {response : Bytes} (nothing : c.outUpstream = []) :
    outcome (c.failed response) = some (.error response) := by
  simp [outcome, Connection.failed, nothing]

/-- A complete request is accepted. -/
theorem verdict_accepted {buf : Bytes} {req : Request} (cached : Bool)
    (parse : parseRequest buf {} = (.ok, req)) (small : req.contentLength ≤ cfg.maxBodyBytes)
    (enough : sizeAdd req.headerBytes req.contentLength ≤ buf.length) :
    verdict cfg cached buf = some (.accepted (rebuilt buf req)
      (if cached && cacheableRequest cfg req then cacheKey req.method req.host req.port req.path else [])) := by
  rw [verdict, parse]
  simp only
  rw [if_neg (by omega), if_neg (by omega)]

theorem Rejected.verdict {buf response : Bytes} {req : Request} (cached : Bool)
    (h : Rejected cfg buf {} req response) : verdict cfg cached buf = some (.error response) := by
  cases h with
  | tooLong more long => simp [EvProxy.verdict, parseRequest_incomplete more, long]
  | malformed req bad => simp [EvProxy.verdict, bad]
  | unsupported req bad => simp [EvProxy.verdict, bad]
  | tooLarge req ok large => simp [EvProxy.verdict, ok, large]

theorem Lookup.key_eq {req : Request} {cache cache' : Option LruCache} {key : Bytes} {looked : List Event}
    (lookup : Lookup cfg c req cache key looked cache') (none_yet : c.cacheKey = []) :
    key = if cache.isSome && cacheableRequest cfg req then cacheKey req.method req.host req.port req.path
      else [] := by
  cases lookup with
  | off => simpa using none_yet
  | skipped cache private_ => simpa [private_] using none_yet
  | missed cache cacheable absent => simp [cacheable]

/-- **One read**: the outcome is the verdict on the longer buffer, and without
one the connection goes on reading. -/
theorem Step.verdict {cache cache' : Option LruCache} {data : Bytes} (reading : Reading cfg c)
    (step : Step cfg c cache events c' cache') (head : [.recvClient data] <+: events) :
    outcome c' = verdict cfg cache.isSome (c.inClient ++ data) ∧
      (outcome c' = none → Reading cfg c' ∧ c'.inClient = c.inClient ++ data) := by
  have phase := (Phase.reading reading).step step
  have want := reading.want
  have decide {o : Outcome} (out : outcome c' = some o)
      (buf : EvProxy.verdict cfg cache.isSome (c.inClient ++ data) = some o) :
      outcome c' = EvProxy.verdict cfg cache.isSome (c.inClient ++ data) ∧
        (outcome c' = none → Reading cfg c' ∧ c'.inClient = c.inClient ++ data) := by
    rw [out, buf]
    exact ⟨rfl, nofun⟩
  cases step with
  | idle => simp at head
  | hangup => simp at head
  | incomplete data' _ got unparsed more small =>
    obtain ⟨⟨⟩, -⟩ := List.cons_prefix_cons.mp head
    have quiet : outcome { c with inClient := c.inClient ++ data } = none := by simp [outcome, want]
    refine ⟨?_, fun _ => ⟨phase.of_want want, rfl⟩⟩
    rw [quiet, EvProxy.verdict, parseRequest_incomplete more]
    simp only
    rw [if_neg (by omega)]
  | awaiting data' req _ got ready short =>
    obtain ⟨⟨⟩, -⟩ := List.cons_prefix_cons.mp head
    obtain ⟨parse, small⟩ := reading.ready ready
    have quiet : outcome { c with inClient := c.inClient ++ data, req := req, parsed := true } = none := by
      simp [outcome, want]
    refine ⟨?_, fun _ => ⟨phase.of_want want, rfl⟩⟩
    rw [quiet, EvProxy.verdict, parse]
    simp only
    rw [if_neg (by omega), if_pos short]
  | rejected data' response req _ got unparsed error =>
    obtain ⟨⟨⟩, -⟩ := List.cons_prefix_cons.mp head
    rw [(reading.unparsed unparsed).1] at error
    exact decide (outcome_failed reading.unsent.1) (error.verdict _)
  | hit data' response req stored _ got ready enough cacheable on found =>
    obtain ⟨⟨⟩, -⟩ := List.cons_prefix_cons.mp head
    obtain ⟨parse, small⟩ := reading.ready ready
    subst on
    have buf := verdict_accepted true parse small enough
    rw [cacheable] at buf
    have moved : ((c.accepted (c.inClient ++ data) req (cacheKey req.method req.host req.port req.path)).failed
        response).want ≠ .readClient := nofun
    exact decide (outcome_accepted moved rfl rfl) buf
  | forward data' key req _ got ready enough lookup resolve =>
    obtain ⟨⟨⟩, -⟩ := List.cons_prefix_cons.mp head
    obtain ⟨parse, small⟩ := reading.ready ready
    obtain ⟨kept, moved⟩ := resolve.kept
    have buf := verdict_accepted cache.isSome parse small enough
    rw [← lookup.key_eq reading.key] at buf
    exact decide (outcome_accepted moved kept.outUpstream kept.cacheKey) buf
  | _ => simp_all

end Steps

/-! ## One stream, any cuts -/

section Streams
variable {cfg : Config} {s : Bytes} {stop : Nat}

/-- Before the blank line there is no verdict. -/
theorem verdict_short (cached : Bool) (blank : find [cr, lf, cr, lf] s = some stop)
    (fits : stop + 4 ≤ cfg.maxHeaderBytes) {n : Nat} (short : n < stop + 4) :
    verdict cfg cached (s.take n) = none := by
  have incomplete := find_take_none blank short (by simp)
  have size := List.length_take_le n s
  rw [verdict, parseRequest_incomplete incomplete]
  simp only
  rw [if_neg (by omega)]

/-- From the blank line on the parser gives one answer. -/
theorem parse_take (blank : find [cr, lf, cr, lf] s = some stop) {n : Nat} (long : stop + 4 ≤ n) :
    parseRequest (s.take n) {} = parseRequest s {} := by
  have at_stop : find [cr, lf, cr, lf] (s.take n) = some stop := find_take blank long
  have whole := parseRequest_append {} (s.drop n) at_stop
  rw [List.take_append_drop] at whole
  exact whole.symm

/-- A request's bytes are the same in every buffer that holds them. -/
theorem rebuilt_take (s : Bytes) (req : Request) {n : Nat} (enough : req.headerBytes + req.contentLength ≤ n) :
    rebuilt (s.take n) req = rebuilt s req := by
  have body : substr (s.take n) req.headerBytes req.contentLength = substr s req.headerBytes req.contentLength := by
    rw [substr, substr, List.drop_take, List.take_take, Nat.min_eq_left (by omega)]
  rw [rebuilt, rebuilt, body]

/-- The accepted request is the one the whole stream spells, and needs all of its bytes. -/
def Settles (cfg : Config) (s : Bytes) (stop need : Nat) : Outcome → Prop
  | .error response => response ∈ [badRequest, notImplemented, payloadTooLarge] ∧ need = stop + 4
  | .accepted request _ => ∃ req, parseRequest s {} = (.ok, req) ∧ request = rebuilt s req ∧
      need = stop + 4 + req.contentLength ∧ req.contentLength ≤ cfg.maxBodyBytes

/-- **On the prefixes of a stream the verdict changes once.** -/
theorem verdict_take (cached : Bool) (room : cfg.maxHeaderBytes + cfg.maxBodyBytes < 2 ^ 64)
    (blank : find [cr, lf, cr, lf] s = some stop) (fits : stop + 4 ≤ cfg.maxHeaderBytes) :
    ∃ need result, stop + 4 ≤ need ∧ Settles cfg s stop need result ∧
      ∀ n ≤ s.length, verdict cfg cached (s.take n) = if need ≤ n then some result else none := by
  have once (response : Bytes) (error : response ∈ [badRequest, notImplemented, payloadTooLarge])
      (late : ∀ n, stop + 4 ≤ n → verdict cfg cached (s.take n) = some (.error response)) :
      ∃ need result, stop + 4 ≤ need ∧ Settles cfg s stop need result ∧
        ∀ n ≤ s.length, verdict cfg cached (s.take n) = if need ≤ n then some result else none := by
    refine ⟨stop + 4, .error response, le_refl _, ⟨error, rfl⟩, fun n _ => ?_⟩
    split
    · rename_i long
      exact late n long
    · rename_i short
      exact verdict_short cached blank fits (by omega)
  generalize parse : parseRequest s {} = p
  obtain ⟨result, req⟩ := p
  cases result with
  | incomplete =>
    have none_found := find_eq_none_of_incomplete (congrArg Prod.fst parse)
    rw [blank] at none_found
    cases none_found
  | badRequest =>
    refine once badRequest (by simp) fun n long => ?_
    rw [verdict, parse_take blank long, parse]
  | notImplemented =>
    refine once notImplemented (by simp) fun n long => ?_
    rw [verdict, parse_take blank long, parse]
  | ok =>
    by_cases large : cfg.maxBodyBytes < req.contentLength
    · refine once payloadTooLarge (by simp) fun n long => ?_
      rw [verdict, parse_take blank long, parse]
      simp only
      rw [if_pos large]
    · obtain ⟨stop', line, url, hs, accepted⟩ := parseRequest_ok parse
      obtain rfl : stop = stop' := Option.some.inj (blank.symm.trans accepted.blank)
      have header := accepted.headerBytes
      -- neither summand exceeds its limit, so the sum does not wrap
      have needed : sizeAdd req.headerBytes req.contentLength = stop + 4 + req.contentLength := by
        rw [sizeAdd, header]
        exact Nat.mod_eq_of_lt (by omega)
      refine ⟨stop + 4 + req.contentLength, .accepted (rebuilt s req)
        (if cached && cacheableRequest cfg req then cacheKey req.method req.host req.port req.path else []),
        by omega, ⟨req, parse, rfl, rfl, by omega⟩, fun n inside => ?_⟩
      have size : (s.take n).length = n := List.length_take_of_le inside
      by_cases long : stop + 4 ≤ n
      · rw [verdict, parse_take blank long, parse]
        simp only
        rw [if_neg large, size, needed]
        split
        · rename_i short
          rw [if_neg (by omega)]
        · rename_i enough
          have all : stop + 4 + req.contentLength ≤ n := by omega
          rw [if_pos all, rebuilt_take s req (by omega)]
      · rw [verdict_short cached blank fits (by omega), if_neg (by omega)]

/-- Once the outcome is there, later calls are not reads of the request. -/
theorem readRequest_moved {c : Connection} (moved : c.want ≠ .readClient) (calls : List Call) :
    readRequest cfg calls c = c := by
  cases calls with
  | nil => rfl
  | cons k calls => rw [readRequest, if_neg moved]

/-- Where the reads of a stream end, from position `n` on. -/
def cuts (n : Nat) : List Call → List Nat
  | [] => []
  | k :: calls => if k.data = [] then cuts n calls else (n + k.data.length) :: cuts (n + k.data.length) calls

theorem cuts_bounds {n m : Nat} {calls : List Call} (mem : m ∈ cuts n calls) :
    n < m ∧ m ≤ n + (calls.flatMap Call.data).length := by
  induction calls generalizing n with
  | nil => cases mem
  | cons k calls ih =>
    rw [cuts] at mem
    rw [List.flatMap_cons, List.length_append]
    split at mem
    · have later := ih mem
      omega
    · rename_i got
      have grows := List.length_pos_iff.mpr got
      rcases List.mem_cons.mp mem with rfl | mem
      · omega
      · have later := ih mem
        omega

/-- **The loop on a stream**: the first verdict at the end of a read. -/
theorem readRequest_cuts {cached : Bool} {calls : List Call} {c : Connection} (reading : Reading cfg c)
    (reads : ∀ k ∈ calls, k.Reads cfg cached) (cut : c.inClient ++ calls.flatMap Call.data <+: s) :
    outcome (readRequest cfg calls c) =
      (cuts c.inClient.length calls).findSome? fun n => verdict cfg cached (s.take n) := by
  induction calls generalizing c with
  | nil => simp [readRequest, outcome, reading.want, cuts]
  | cons k calls ih =>
    have later : ∀ k' ∈ calls, k'.Reads cfg cached := fun k' hk => reads k' (List.mem_cons_of_mem _ hk)
    obtain ⟨present, block | ⟨data, bytes, nonempty, small⟩⟩ := reads k (by simp)
    · -- a read that would block changes nothing
      have same : (onReady cfg k.answers ⟨c, k.cache, []⟩).conn = c := by
        simp [onReady, reading.want, doReadClient, block, readSome]
      have no_data : k.data = [] := by simp [Call.data, block]
      rw [readRequest, if_pos reading.want, same, cuts, if_pos no_data]
      simp only [List.flatMap_cons, no_data, List.nil_append] at cut
      exact ih reading later cut
    · have read : readSome (chunk cfg) k.answers.recv = (.ok, data) := by
        simp [bytes, readSome, List.take_of_length_le small, nonempty]
      have got : k.data = data := by simp [Call.data, bytes]
      simp only [List.flatMap_cons, got, ← List.append_assoc] at cut
      rw [readRequest, if_pos reading.want, cuts, got, if_neg nonempty, List.findSome?_cons]
      have head : [.recvClient data] <+: (onReady cfg k.answers ⟨c, k.cache, []⟩).trace := by
        have := doReadClient_head read c k.cache
        rwa [onReady, reading.want]
      obtain ⟨here, onward⟩ := (onReady_step cfg k.answers k.cache c).verdict reading head
      generalize (onReady cfg k.answers ⟨c, k.cache, []⟩).conn = c' at here onward
      -- the buffer so far is a prefix of the stream
      obtain ⟨tail, whole⟩ := (List.prefix_append _ _).trans cut
      have prefixed : c.inClient ++ data = s.take (c.inClient.length + data.length) := by
        rw [← whole, ← List.length_append, List.take_left]
      rw [present, prefixed] at here
      rw [← here]
      cases settled : outcome c' with
      | some result =>
        have moved : c'.want ≠ .readClient := by
          intro want
          simp [outcome, want] at settled
        rw [readRequest_moved moved, settled]
      | none =>
        obtain ⟨reading', buf⟩ := onward settled
        rw [ih reading' later (by rwa [buf]), buf, List.length_append]

/-- The loop on a stream whose verdict changes once: the outcome shows once `need` bytes have been read. -/
theorem readRequest_outcome {cached : Bool} {need : Nat} {result : Outcome}
    (decided : ∀ n ≤ s.length, verdict cfg cached (s.take n) = if need ≤ n then some result else none)
    {calls : List Call} {c : Connection} (reading : Reading cfg c)
    (reads : ∀ k ∈ calls, k.Reads cfg cached) (cut : c.inClient ++ calls.flatMap Call.data <+: s)
    (early : c.inClient.length < need) :
    outcome (readRequest cfg calls c) =
      if need ≤ (c.inClient ++ calls.flatMap Call.data).length then some result else none := by
  have inside := cut.length_le
  rw [List.length_append] at inside
  rw [readRequest_cuts reading reads cut, List.length_append]
  generalize c.inClient.length = n at early inside
  clear cut reads
  induction calls generalizing n with
  | nil =>
    rw [cuts, List.findSome?_nil, List.flatMap_nil, List.length_nil, if_neg (by omega)]
  | cons k calls ih =>
    rw [List.flatMap_cons, List.length_append] at inside ⊢
    rw [cuts]
    split
    · rename_i nothing
      rw [nothing, List.length_nil, Nat.zero_add] at inside ⊢
      exact ih n early inside
    · rw [List.findSome?_cons, decided _ (by omega)]
      by_cases enough : need ≤ n + k.data.length
      · rw [if_pos enough, if_pos (by omega)]
      · rw [if_neg enough, ← Nat.add_assoc]
        exact ih _ (by omega) (by omega)

/-- **Segmentation independence.** For a stream whose header block fits, there
is one point and one outcome: however the stream is cut into reads, nothing is
decided before that point and this outcome is decided from it on. The point is
never inside the header block, nor inside the body of an accepted request. -/
theorem segmentation_independent (client id : Nat) (cached : Bool)
    (room : cfg.maxHeaderBytes + cfg.maxBodyBytes < 2 ^ 64)
    (blank : find [cr, lf, cr, lf] s = some stop) (fits : stop + 4 ≤ cfg.maxHeaderBytes) :
    ∃ need result, stop + 4 ≤ need ∧ Settles cfg s stop need result ∧
      ∀ calls : List Call, (∀ k ∈ calls, k.Reads cfg cached) → calls.flatMap Call.data <+: s →
        outcome (readRequest cfg calls (.init client id)) =
          if need ≤ (calls.flatMap Call.data).length then some result else none := by
  obtain ⟨need, result, late, settles, decided⟩ := verdict_take cached room blank fits
  refine ⟨need, result, late, settles, fun calls reads cut => ?_⟩
  have reading : Reading cfg (.init client id) := (phase_init cfg client id).of_want rfl
  have early : (Connection.init client id).inClient.length < need := by
    change 0 < need
    omega
  exact readRequest_outcome decided reading reads cut early

end Streams

/-- A request with a body, as a client would send it. -/
def postRequest : Bytes := bytes "POST http://h/p HTTP/1.1\r\nContent-Length: 2\r\n\r\nab"

/-- What is forwarded of it. -/
def postForwarded : Bytes :=
  bytes "POST /p HTTP/1.1\r\nHost: h\r\nContent-Length: 2\r\nConnection: close\r\n\r\nab"

/-- However it is cut, the request is accepted with its 49th byte, and forwarded with the body `ab`. -/
theorem segmentation_independent_post :
    find [cr, lf, cr, lf] postRequest = some 43 ∧
    ∀ calls : List Call, (∀ k ∈ calls, k.Reads {} true) → calls.flatMap Call.data <+: postRequest →
      outcome (readRequest {} calls (.init 5 0)) =
        if 49 ≤ (calls.flatMap Call.data).length then some (.accepted postForwarded []) else none := by
  have room : ({} : Config).maxHeaderBytes + ({} : Config).maxBodyBytes < 2 ^ 64 := by decide
  have blank : find [cr, lf, cr, lf] postRequest = some 43 := by decide
  refine ⟨blank, ?_⟩
  obtain ⟨need, result, -, settles, decided⟩ := segmentation_independent 5 0 true room blank (by decide)
  -- All of it in one read shows which outcome it is, and with it the point.
  let whole : Call := ⟨{ recv := .bytes postRequest }, some { maxEntries := 0, maxBytes := 0 }⟩
  have reads : ∀ k ∈ [whole], k.Reads {} true := by
    intro k mem
    rw [List.mem_singleton.mp mem]
    exact ⟨rfl, Or.inr ⟨postRequest, rfl, by decide, by decide⟩⟩
  have shown : outcome (readRequest {} [whole] (.init 5 0)) = some (.accepted postForwarded []) := by decide +kernel
  have once := shown.symm.trans (decided [whole] reads (List.prefix_refl _))
  split at once
  · obtain rfl := Option.some.inj once
    obtain ⟨req, parse, -, rfl, -⟩ := settles
    have length : (parseRequest postRequest {}).2.contentLength = 2 := by decide +kernel
    rw [parse] at length
    rwa [show req.contentLength = 2 from length] at decided
  · cases once

end EvProxy
