import EvProxy.Conn.Relay
import EvProxy.Conn.Segmentation
import EvProxy.Conn.Buffers

/-!
# Requests that are refused

A refused request meets only its client: the connection reads, sends one error
and closes, and no event of its history is about the cache, the resolver or an
origin (`Refusal`, kept by every later call). Two refusals depend on more than
the text of the request: `chunked_refused` on the order of its headers,
`overlong_refused` on where its reads end.
-/

namespace EvProxy
open Text Runs

/-- An event between the proxy and its client. -/
def Event.direct : Event → Bool
  | .recvClient _ | .clientGone | .sentClient _ | .clientSendFailed | .closed _ => true
  | _ => false

/-- The session has met its client alone, and is answering it with `response` or
has done so, as far as the client let it. -/
structure Refusal (response : Bytes) (s : Session) : Prop where
  direct : ∀ e ∈ s.trace, e.direct = true
  answer : Failing s.conn ∧ stream .toClient s.trace ++ s.conn.outClient.drop s.conn.outClientOff = response ∨
    Done s.conn ∧ (stream .toClient s.trace = response ∨
      stream .toClient s.trace <+: response ∧ .clientSendFailed ∈ s.trace)

/-- A history of reads from the client and nothing else. -/
def OnlyReads (t : List Event) : Prop := ∀ e ∈ t, ∃ data, e = .recvClient data

theorem OnlyReads.append {t u : List Event} (ht : OnlyReads t) (hu : OnlyReads u) : OnlyReads (t ++ u) :=
  List.forall_mem_append.mpr ⟨ht, hu⟩

theorem OnlyReads.direct {t : List Event} (h : OnlyReads t) : ∀ e ∈ t, e.direct = true := by
  intro e mem
  obtain ⟨data, rfl⟩ := h e mem
  rfl

theorem OnlyReads.unsent {t : List Event} (h : OnlyReads t) : stream .toClient t = [] := by
  apply stream_eq_nil.mpr
  intro e mem
  obtain ⟨data, rfl⟩ := h e mem
  rfl

section Steps
variable {cfg : Config} {c c' : Connection} {events : List Event} {cache cache' : Option LruCache}

theorem Step.only_reads (step : Step cfg c cache events c' cache') (want' : c'.want = .readClient) :
    c.want = .readClient ∧ OnlyReads events := by
  rcases step.reads_on want' with ⟨rfl, rfl⟩ | ⟨data, rfl, -, rfl⟩ | ⟨data, req, rfl, -, rfl⟩
  · exact ⟨want', by simp [OnlyReads]⟩
  · exact ⟨want', by simp [OnlyReads]⟩
  · exact ⟨want', by simp [OnlyReads]⟩

/-- A reading connection that settles on an error has shown one more read. -/
theorem Step.refused_eq {response : Bytes} (reading : Reading cfg c) (step : Step cfg c cache events c' cache')
    (refused : outcome c' = some (.error response)) (nonempty : response ≠ []) :
    Failing c' ∧ c'.outClient = response ∧ c'.outClientOff = 0 ∧ OnlyReads events := by
  have want := reading.want
  have phase := (Phase.reading reading).step step
  cases step with
  | hangup lastRef => simp_all [outcome, Connection.finished, reading.unsent, reading.untouched.outClient]
  | rejected data response' req _ got unparsed error =>
    have same : response' = response := by
      simpa [outcome, Connection.failed, reading.unsent] using refused
    subst same
    refine ⟨failing_failed _ reading.client reading.job reading.untouched.eof, rfl, rfl, ?_⟩
    simp [reading.upstream, closing, OnlyReads]
  | hit data response' req stored _ got ready enough =>
    have request : (c.accepted (c.inClient ++ data) req
        (cacheKey req.method req.host req.port req.path)).outUpstream ≠ [] := buildUpstreamRequest_ne_nil _ _
    simp [outcome, Connection.failed, request] at refused
  | forward data key req _ got ready enough lookup resolve =>
    obtain ⟨kept, moved⟩ := resolve.kept
    have request : c'.outUpstream ≠ [] := by
      rw [kept.outUpstream]
      exact buildUpstreamRequest_ne_nil _ _
    simp [outcome, moved, request] at refused
  | _ => simp_all [outcome]

/-- The connection starts to refuse. -/
theorem refusal_of_step {response : Bytes} {t : List Event} (reading : Reading cfg c) (quiet : OnlyReads t)
    (step : Step cfg c cache events c' cache') (refused : outcome c' = some (.error response))
    (nonempty : response ≠ []) : Refusal response ⟨c', t ++ events⟩ := by
  obtain ⟨failing, answer, start, more⟩ := step.refused_eq reading refused nonempty
  have all := quiet.append more
  refine ⟨all.direct, Or.inl ⟨failing, ?_⟩⟩
  rw [all.unsent, answer, start]
  rfl

theorem closing_direct (fd : Fd) : ∀ e ∈ closing fd, e.direct = true := by
  cases fd <;> simp [closing, Event.direct]

/-- It goes on to refuse, whatever happens. -/
theorem Refusal.step {response : Bytes} {t : List Event} (h : Refusal response ⟨c, t⟩)
    (step : Step cfg c cache events c' cache') : Refusal response ⟨c', t ++ events⟩ := by
  obtain ⟨direct, ⟨failing, pending⟩ | ⟨done, answered⟩⟩ := h
  · have job : c.resolveJob = none := failing.job
    have upstream : c.upstream = none := failing.upstream
    have ending (lastRef : Bool) : c.finishEvents lastRef = closing c.client := by
      rw [Connection.finishEvents, job, upstream]
      rfl
    have closes := (silent_closing c.client).stream .toClient
    cases failing.step step with
    | idle =>
      rw [List.append_nil]
      exact ⟨direct, Or.inl ⟨failing, pending⟩⟩
    | part n more =>
      refine ⟨List.forall_mem_append.mpr ⟨direct, by simp [Event.direct]⟩, Or.inl ⟨?_, ?_⟩⟩
      · exact ⟨failing.state, failing.want, failing.client, failing.upstream, failing.job, failing.eof, Or.inr more⟩
      · simpa [Event.flow, substr_append_drop] using pending
    | last lastRef n whole =>
      have rest := substr_append_drop c.outClient c.outClientOff n
      rw [List.drop_eq_nil_of_le whole, List.append_nil] at rest
      rw [ending]
      refine ⟨List.forall_mem_append.mpr ⟨direct, List.forall_mem_cons.mpr ⟨rfl, closing_direct _⟩⟩,
        Or.inr ⟨done_finished _, Or.inl ?_⟩⟩
      simpa [Event.flow, closes, rest] using pending
    | failed lastRef =>
      rw [ending]
      refine ⟨List.forall_mem_append.mpr ⟨direct, List.forall_mem_cons.mpr ⟨rfl, closing_direct _⟩⟩,
        Or.inr ⟨done_finished _, Or.inr ⟨?_, by simp⟩⟩⟩
      refine ⟨c.outClient.drop c.outClientOff, ?_⟩
      simpa [Event.flow, closes] using pending
  · obtain ⟨rfl, done', -⟩ := done.step step
    rw [List.append_nil]
    exact ⟨direct, Or.inr ⟨done', answered⟩⟩

end Steps

section Runs
variable {cfg : Config} {response : Bytes}

theorem Refusal.drive {s : Session} (h : Refusal response s) (calls : List Call) :
    Refusal response (s.drive cfg calls) :=
  Session.drive_invariant (P := Refusal response) (fun refusal step => refusal.step step) h calls

/-- While it reads its client, a connection has only read. -/
theorem drive_only_reads (cfg : Config) (client id : Nat) (calls : List Call)
    (want : ((Session.start client id).drive cfg calls).conn.want = .readClient) :
    OnlyReads ((Session.start client id).drive cfg calls).trace := by
  have invariant : ((Session.start client id).drive cfg calls).conn.want = .readClient →
      OnlyReads ((Session.start client id).drive cfg calls).trace := by
    apply Session.drive_invariant (P := fun s => s.conn.want = .readClient → OnlyReads s.trace)
    · intro s cache cache' events c' quiet step want'
      obtain ⟨want, more⟩ := step.only_reads want'
      exact (quiet want).append more
    · intro _
      simp [OnlyReads, Session.start]
  exact invariant want

/-- A request refused while it was read is refused for good. -/
theorem readRequest_refusal (nonempty : response ≠ []) {calls : List Call} {s : Session}
    (reading : Reading cfg s.conn) (quiet : OnlyReads s.trace)
    (refused : outcome (readRequest cfg calls s.conn) = some (.error response)) :
    Refusal response (s.drive cfg calls) := by
  induction calls generalizing s with
  | nil => simp [readRequest, outcome, reading.want] at refused
  | cons k calls ih =>
    have step := onReady_step cfg k.answers k.cache s.conn
    rw [readRequest, if_pos reading.want] at refused
    change outcome (readRequest cfg calls (s.call cfg k).conn) = _ at refused
    by_cases want' : (s.call cfg k).conn.want = .readClient
    · have phase : Phase cfg (s.call cfg k).conn := (Phase.reading reading).step step
      exact ih (phase.of_want want') (quiet.append (step.only_reads want').2) refused
    · rw [readRequest_moved want'] at refused
      exact (refusal_of_step reading quiet step refused nonempty).drive calls

end Runs

/-! ## Chunked bodies -/

/-- A header block with an accepted request line and a colon in every header line. -/
def WellFormed (buf : Bytes) (headers : List (Bytes × Bytes)) : Prop :=
  ∃ stop line hs, find [cr, lf, cr, lf] buf = some stop ∧ splitLines cr lf (buf.take stop) = line :: hs ∧
    (parseRequestLine line { headerBytes := stop + 4 }).1 = .ok ∧ hs.map parseField = headers.map some

/-- A value that mentions `chunked`, in any letter case. -/
def mentionsChunked (value : Bytes) : Bool := (find (bytes "chunked") (lower value)).isSome

/-- Among the `Transfer-Encoding` headers, the first mentions `chunked`. -/
def FirstChunked (headers : List (Bytes × Bytes)) : Prop :=
  ∃ kv, headers.find? (fun kv => lower kv.1 = bytes "transfer-encoding") = some kv ∧ mentionsChunked kv.2 = true

/-- On a well-formed block only the framing checks are left. -/
theorem WellFormed.parse {buf : Bytes} {headers : List (Bytes × Bytes)} (formed : WellFormed buf headers) :
    ∃ r : Request, r.headers = headers ∧ parseRequest buf {} = checkFraming r := by
  obtain ⟨stop, line, hs, blank, cut, accepted, fields⟩ := formed
  obtain ⟨line', hs', cut', parsed⟩ := parseRequest_lines {} blank
  rw [cut] at cut'
  obtain ⟨rfl, rfl⟩ := List.cons.inj cut'
  have some_line : line ≠ [] := by
    rintro rfl
    cases accepted
  generalize line_eq : parseRequestLine line { headerBytes := stop + 4 } = result at accepted
  obtain ⟨result, r1⟩ := result
  cases accepted
  obtain ⟨url, -, -, -, -, -, only⟩ := parseRequestLine_ok line_eq
  have none_yet : r1.headers = [] := by rw [only]
  refine ⟨{ r1 with headers := r1.headers ++ headers }, by rw [none_yet]; rfl, ?_⟩
  rw [parsed, parseHead, if_neg some_line, line_eq]
  simp only
  rw [addHeaders_fields fields]

/-- The lookup sees the first `Transfer-Encoding` header only. -/
theorem firstChunked_iff {r : Request} :
    FirstChunked r.headers ↔ mentionsChunked (headerValue r (bytes "Transfer-Encoding")) = true := by
  have name : lower (bytes "Transfer-Encoding") = bytes "transfer-encoding" := by decide
  rw [FirstChunked, headerValue, name]
  cases r.headers.find? fun kv => lower kv.1 = bytes "transfer-encoding" with
  | none =>
    have nothing : mentionsChunked [] = false := by decide
    simp [nothing]
  | some kv => simp

theorem checkFraming_notImplemented {r : Request} :
    (checkFraming r).1 = .notImplemented ↔ mentionsChunked (headerValue r (bytes "Transfer-Encoding")) = true := by
  unfold checkFraming mentionsChunked
  split
  · rename_i chunked
    simp [chunked]
  · rename_i plain
    simp only [plain, Bool.false_eq_true, iff_false]
    split
    · split <;> simp
    · simp

/-- A read completes `buf` in a connection that is reading its client. -/
structure Completes (cfg : Config) (s : Session) (k : Call) (buf : Bytes) : Prop where
  want : s.conn.want = .readClient
  read : ∃ data, readSome (chunk cfg) k.answers.recv = (.ok, data) ∧ s.conn.inClient ++ data = buf

/-- A block the parser has refused is refused by every connection that completes it. -/
theorem Completes.refusal {cfg : Config} {client id : Nat} {before : List Call} {k : Call} {buf response : Bytes}
    (completes : Completes cfg ((Session.start client id).drive cfg before) k buf)
    (refused : verdict cfg k.cache.isSome buf = some (.error response)) (nonempty : response ≠ [])
    (after : List Call) :
    Refusal response ((((Session.start client id).drive cfg before).call cfg k).drive cfg after) := by
  obtain ⟨want, data, read, rfl⟩ := completes
  have quiet := drive_only_reads cfg client id before want
  have reading : Reading cfg ((Session.start client id).drive cfg before).conn :=
    (drive_phase cfg client id before).of_want want
  generalize (Session.start client id).drive cfg before = s at *
  have step := onReady_step cfg k.answers k.cache s.conn
  have head : [.recvClient data] <+: (onReady cfg k.answers ⟨s.conn, k.cache, []⟩).trace := by
    have := doReadClient_head read s.conn k.cache
    rwa [onReady, want]
  have settled := (step.verdict reading head).1.trans refused
  exact (refusal_of_step reading quiet step settled nonempty).drive after

/-- **Chunked bodies.** A well-formed request is answered with a 501, and met by no
one but the proxy, exactly when the first of its `Transfer-Encoding` headers
mentions `chunked`. A later one is not looked at. -/
theorem chunked_refused {buf : Bytes} {headers : List (Bytes × Bytes)} (formed : WellFormed buf headers) :
    ((parseRequest buf {}).1 = .notImplemented ∧
      ∀ (cfg : Config) (client id : Nat) (before : List Call) (k : Call) (after : List Call),
        Completes cfg ((Session.start client id).drive cfg before) k buf →
        Refusal notImplemented ((((Session.start client id).drive cfg before).call cfg k).drive cfg after)) ↔
    FirstChunked headers := by
  obtain ⟨r, rfl, parse⟩ := formed.parse
  rw [firstChunked_iff, ← checkFraming_notImplemented, ← parse]
  constructor
  · exact And.left
  · intro refused
    refine ⟨refused, ?_⟩
    intro cfg client id before k after completes
    have answer : verdict cfg k.cache.isSome buf = some (.error notImplemented) := by
      unfold verdict
      generalize parseRequest buf {} = result at refused
      obtain ⟨result, req⟩ := result
      cases refused
      rfl
    exact completes.refusal answer (errorResponse_ne_nil _ _) after

/-- The usual form of a chunked request. -/
def chunkedRequest : Bytes := bytes "POST http://h/ HTTP/1.1\r\nTransfer-Encoding: Chunked\r\n\r\n"

theorem chunked_refused_usual :
    (parseRequest chunkedRequest {}).1 = .notImplemented ∧
      ∀ (cfg : Config) (client id : Nat) (before : List Call) (k : Call) (after : List Call),
        Completes cfg ((Session.start client id).drive cfg before) k chunkedRequest →
        Refusal notImplemented ((((Session.start client id).drive cfg before).call cfg k).drive cfg after) :=
  (chunked_refused (show WellFormed chunkedRequest [(bytes "Transfer-Encoding", bytes "Chunked")] from
    ⟨51, bytes "POST http://h/ HTTP/1.1", [bytes "Transfer-Encoding: Chunked"], by decide +kernel, by decide +kernel,
      by decide +kernel, by decide +kernel⟩)).mpr ⟨_, rfl, by decide +kernel⟩

/-- Two codings in two headers, the second of them chunked. -/
def laterChunked : Bytes :=
  bytes "POST http://h/ HTTP/1.1\r\nTransfer-Encoding: gzip\r\nTransfer-Encoding: chunked\r\n\r\n"

def laterHeaders : List (Bytes × Bytes) :=
  [(bytes "Transfer-Encoding", bytes "gzip"), (bytes "Transfer-Encoding", bytes "chunked")]

/-- It is accepted, as a request without a body. -/
theorem laterChunked_accepted :
    WellFormed laterChunked laterHeaders ∧
    (∃ kv ∈ laterHeaders, lower kv.1 = bytes "transfer-encoding" ∧ mentionsChunked kv.2 = true) ∧
    (parseRequest laterChunked {}).1 = .ok :=
  ⟨⟨76, bytes "POST http://h/ HTTP/1.1", [bytes "Transfer-Encoding: gzip", bytes "Transfer-Encoding: chunked"],
    by decide +kernel, by decide +kernel, by decide +kernel, by decide +kernel⟩, by decide +kernel, by decide +kernel⟩

/-! ## Header blocks over the limit -/

section Overlong
variable {cfg : Config} {s : Bytes} {stop : Nat} {cached : Bool}

/-- Inside the header block the verdict is the size check. -/
theorem verdict_inside (blank : find [cr, lf, cr, lf] s = some stop) {n : Nat} (inside : n < stop + 4)
    (bound : n ≤ s.length) :
    verdict cfg cached (s.take n) = if cfg.maxHeaderBytes < n then some (.error badRequest) else none := by
  have incomplete := find_take_none blank inside (by simp)
  rw [verdict, parseRequest_incomplete incomplete]
  simp only [List.length_take_of_le bound]

/-- From its end on, a verdict of 400 is the parser's. -/
theorem verdict_beyond (blank : find [cr, lf, cr, lf] s = some stop) {n : Nat} (beyond : stop + 4 ≤ n) :
    verdict cfg cached (s.take n) = some (.error badRequest) ↔ (parseRequest s {}).1 = .badRequest := by
  rw [verdict, parse_take blank beyond]
  generalize parse : parseRequest s {} = p
  obtain ⟨result, req⟩ := p
  cases result with
  | incomplete =>
    have none_found := find_eq_none_of_incomplete (congrArg Prod.fst parse)
    rw [blank] at none_found
    cases none_found
  | badRequest => simp
  | notImplemented =>
    have other : notImplemented ≠ badRequest := by decide
    simp [other]
  | ok =>
    have other : payloadTooLarge ≠ badRequest := by decide
    simp only [reduceCtorEq, iff_false]
    split
    · simp [other]
    · split <;> simp

theorem cuts_sorted (n : Nat) (calls : List Call) : (cuts n calls).Pairwise (· < ·) := by
  induction calls generalizing n with
  | nil => exact .nil
  | cons k calls ih =>
    rw [cuts]
    split
    · exact ih n
    · exact .cons (fun m mem => (cuts_bounds mem).1) (ih _)

/-- The last read ends where the data ends. -/
theorem cuts_last {n : Nat} {calls : List Call} (some_data : calls.flatMap Call.data ≠ []) :
    n + (calls.flatMap Call.data).length ∈ cuts n calls := by
  induction calls generalizing n with
  | nil => exact absurd rfl some_data
  | cons k calls ih =>
    rw [List.flatMap_cons] at some_data ⊢
    rw [cuts, List.length_append, ← Nat.add_assoc]
    by_cases here : k.data = []
    · rw [here, List.nil_append] at some_data
      rw [if_pos here, here]
      exact ih some_data
    · rw [if_neg here]
      by_cases later : calls.flatMap Call.data = []
      · simp [later]
      · exact List.mem_cons_of_mem _ (ih later)

/-- The first answer in a sorted list, when up to a place that gives it nothing else is given. -/
theorem findSome_sorted {l : List Nat} {f : Nat → Option Outcome} {o : Outcome} {n : Nat} (sorted : l.Pairwise (· < ·))
    (mem : n ∈ l) (here : f n = some o) (before : ∀ m ∈ l, m ≤ n → f m = none ∨ f m = some o) :
    l.findSome? f = some o := by
  induction sorted with
  | nil => cases mem
  | cons first rest ih =>
    rename_i m l
    rw [List.findSome?_cons]
    have least : m ≤ n := by
      rcases List.mem_cons.mp mem with rfl | mem
      · exact le_refl _
      · exact (first n mem).le
    rcases before m List.mem_cons_self least with quiet | same
    · rw [quiet]
      have mem' : n ∈ l := by
        rcases List.mem_cons.mp mem with rfl | mem
        · rw [here] at quiet
          cases quiet
        · exact mem
      exact ih mem' fun k hk => before k (List.mem_cons_of_mem _ hk)
    · rw [same]

/-- **Overlong header blocks.** However a stream is cut into reads that cover its
header block, the connection answers 400 and meets no one but its client exactly
when a read ends past the limit and before the end of the block, or when the
parser refuses the block itself. A read that ends the block is never measured. -/
theorem overlong_refused (client id : Nat) (blank : find [cr, lf, cr, lf] s = some stop) {calls : List Call}
    (reads : ∀ k ∈ calls, k.Reads cfg cached) (cut : calls.flatMap Call.data <+: s)
    (cover : stop + 4 ≤ (calls.flatMap Call.data).length) :
    (outcome (readRequest cfg calls (.init client id)) = some (.error badRequest) ∧
      ∀ after, Refusal badRequest ((Session.start client id).drive cfg (calls ++ after))) ↔
    (∃ n ∈ cuts 0 calls, cfg.maxHeaderBytes < n ∧ n < stop + 4) ∨ (parseRequest s {}).1 = .badRequest := by
  have reading : Reading cfg (Connection.init client id) := (phase_init cfg client id).of_want rfl
  have loop : outcome (readRequest cfg calls (.init client id)) =
      (cuts 0 calls).findSome? fun n => verdict cfg cached (s.take n) := readRequest_cuts reading reads cut
  have within {n : Nat} (mem : n ∈ cuts 0 calls) : n ≤ s.length := by
    have bounds := cuts_bounds mem
    have size := cut.length_le
    omega
  constructor
  · rintro ⟨refused, -⟩
    rw [loop] at refused
    obtain ⟨early, n, late, split_eq, here, -⟩ := List.findSome?_eq_some_iff.mp refused
    have mem : n ∈ cuts 0 calls := by simp [split_eq]
    by_cases inside : n < stop + 4
    · rw [verdict_inside blank inside (within mem)] at here
      split at here
      · rename_i long
        exact Or.inl ⟨n, mem, long, inside⟩
      · cases here
    · exact Or.inr ((verdict_beyond blank (by omega)).mp here)
  · intro condition
    have small {m : Nat} (mem : m ∈ cuts 0 calls) (inside : m < stop + 4) :
        verdict cfg cached (s.take m) = none ∨ verdict cfg cached (s.take m) = some (.error badRequest) := by
      rw [verdict_inside blank inside (within mem)]
      split
      · exact Or.inr rfl
      · exact Or.inl rfl
    have refused : outcome (readRequest cfg calls (.init client id)) = some (.error badRequest) := by
      rw [loop]
      rcases condition with ⟨n, mem, long, inside⟩ | malformed
      · refine findSome_sorted (cuts_sorted 0 calls) mem ?_ fun m hm least => small hm (by omega)
        rw [verdict_inside blank inside (within mem), if_pos long]
      · have some_data : calls.flatMap Call.data ≠ [] := by
          intro nothing
          rw [nothing, List.length_nil] at cover
          omega
        refine findSome_sorted (cuts_sorted 0 calls) (cuts_last some_data) ?_ ?_
        · exact (verdict_beyond blank (by omega)).mpr malformed
        · intro m hm _
          by_cases inside : m < stop + 4
          · exact small hm inside
          · exact Or.inr ((verdict_beyond blank (by omega)).mpr malformed)
    refine ⟨refused, ?_⟩
    intro after
    have refusal := readRequest_refusal (s := .start client id) (errorResponse_ne_nil _ _) reading
      (by simp [OnlyReads, Session.start]) refused
    rw [Session.drive, run_append]
    exact refusal.drive after

end Overlong

/-- A short request, against a limit of eight bytes. -/
def briefRequest : Bytes := bytes "GET http://h/ HTTP/1.1\r\n\r\n"

def tightConfig : Config := { maxHeaderBytes := 8 }

/-- The request in the given pieces, one to a read. -/
def piecewise (pieces : List Bytes) : List Call := pieces.map fun data => ⟨{ recv := .bytes data }, none⟩

theorem piecewise_reads {cfg : Config} {pieces : List Bytes}
    (sizes : ∀ data ∈ pieces, data ≠ [] ∧ data.length ≤ chunk cfg) :
    ∀ k ∈ piecewise pieces, k.Reads cfg false := by
  intro k mem
  obtain ⟨data, listed, rfl⟩ := List.mem_map.mp mem
  exact ⟨rfl, Or.inr ⟨data, rfl, sizes data listed⟩⟩

/-- Read in two pieces, the request is refused. -/
theorem overlong_refused_pieces :
    outcome (readRequest tightConfig (piecewise [bytes "GET http:", bytes "//h/ HTTP/1.1\r\n\r\n"]) (.init 5 0)) =
        some (.error badRequest) ∧
      ∀ after, Refusal badRequest ((Session.start 5 0).drive tightConfig
        (piecewise [bytes "GET http:", bytes "//h/ HTTP/1.1\r\n\r\n"] ++ after)) :=
  (overlong_refused 5 0 (show find [cr, lf, cr, lf] briefRequest = some 22 by decide +kernel)
    (piecewise_reads (by decide +kernel)) (by decide +kernel) (by decide +kernel)).mpr
    (Or.inl ⟨9, by decide +kernel⟩)

/-- Read at once, it is accepted: the block is over the limit and goes upstream. -/
theorem overlong_accepted :
    find [cr, lf, cr, lf] briefRequest = some 22 ∧ tightConfig.maxHeaderBytes < 22 + 4 ∧
    (∀ k ∈ piecewise [briefRequest], k.Reads tightConfig false) ∧
    (piecewise [briefRequest]).flatMap Call.data = briefRequest ∧
    outcome (readRequest tightConfig (piecewise [briefRequest]) (.init 5 0)) =
      some (.accepted (bytes "GET / HTTP/1.1\r\nHost: h\r\nConnection: close\r\n\r\n") []) :=
  ⟨by decide +kernel, by decide, piecewise_reads (by decide +kernel), by decide +kernel, by decide +kernel⟩

end EvProxy
