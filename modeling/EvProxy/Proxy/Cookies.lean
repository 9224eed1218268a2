import EvProxy.Http.Framing
import EvProxy.Proxy.Provenance

/-!
# Responses that set cookies

`store_in_cache` refuses a response in which it finds `Set-Cookie:` or
`set-cookie:` behind a CRLF. A header name may be spelled in any letter case,
so `setsCookie` reads the header section itself. A response can be stored
exactly when the code's own tests let it through (`stored_iff`): the upstream
may deliver it in any pieces, one byte at a time among them.
-/

namespace EvProxy
open Text Runs

/-- The header section of a response: the lines behind the status line, up to the first empty one. -/
def headerSection (response : Bytes) : List Bytes := ((splitLines cr lf response).takeWhile (· ≠ [])).drop 1

/-- The response sets a cookie, however the name of the header is spelled. -/
def setsCookie (response : Bytes) : Bool := namedLines (bytes "set-cookie") (headerSection response) ≠ []

/-- The status line says 200. -/
def succeeded (response : Bytes) : Bool :=
  (substr response 0 9 = bytes "HTTP/1.1 " || substr response 0 9 = bytes "HTTP/1.0 ") &&
    substr response 9 3 = bytes "200"

/-- One of the two spellings of the header name that the code looks for occurs. -/
def spelled (response : Bytes) : Bool :=
  (find (bytes "\r\nSet-Cookie:") response).isSome || (find (bytes "\r\nset-cookie:") response).isSome

theorem storable_iff (response : Bytes) :
    storable response = true ↔ succeeded response = true ∧ spelled response = false := by
  simp only [storable, succeeded, spelled, Bool.and_eq_true, Bool.or_eq_true, decide_eq_true_eq, Bool.or_eq_false_iff]
  split
  · rename_i version
    refine iff_of_false Bool.false_ne_true ?_
    rintro ⟨⟨known, -⟩, -⟩
    exact not_or.mpr version known
  · rename_i version
    rw [not_and_or, not_not, not_not] at version
    split
    · rename_i status
      refine iff_of_false Bool.false_ne_true ?_
      rintro ⟨⟨-, ok⟩, -⟩
      exact status ok
    · rename_i status
      split
      · rename_i cookie
        refine iff_of_false Bool.false_ne_true ?_
        rintro ⟨-, first, second⟩
        simp [first, second] at cookie
      · rename_i cookie
        rw [not_or, Bool.not_eq_true, Bool.not_eq_true] at cookie
        exact iff_of_true rfl ⟨⟨version, not_not.mp status⟩, cookie⟩

/-! ## What is stored is the whole stream, and passed the tests -/

/-- Every put of a session was of a complete exchange. -/
structure Audited (cfg : Config) (s : Session) : Prop where
  exchange : Exchange cfg s
  puts : ∀ key response, .cachePut key response ∈ s.trace → Complete cfg s key response

theorem Audited.step {cfg : Config} {s : Session} {cache cache' : Option LruCache} {events : List Event}
    {c' : Connection} (h : Audited cfg s) (step : Step cfg s.conn cache events c' cache') :
    Audited cfg ⟨c', s.trace ++ events⟩ where
  exchange := h.exchange.step step
  puts := by
    intro key response put
    rcases List.mem_append.mp put with old | new
    · exact (h.puts key response old).step step
    · exact h.exchange.put step new

theorem audited_drive (cfg : Config) (client id : Nat) (calls : List Call) :
    Audited cfg ((Session.start client id).drive cfg calls) :=
  Session.drive_invariant Audited.step ⟨exchange_start cfg client id, nofun⟩ calls

/-! ## A run that stores any response the tests let through -/

/-- A relaying connection that has passed on and kept `got`. -/
structure Keeping (c : Connection) (got : Bytes) : Prop where
  want : c.want = .readUpstream
  state : c.state = .relaying
  outClient : c.outClient = []
  outClientOff : c.outClientOff = 0
  cacheKey : c.cacheKey ≠ []
  small : c.cacheTooBig = false
  accum : c.cacheAccum = got
  unended : c.upstreamEof = false

/-- A configuration that keeps responses of up to `n` bytes. -/
def keepsUpTo (n : Nat) : Config := { cacheMaxEntryBytes := n }

/-- Only `do_read_upstream` looks at that limit. -/
theorem call_keepsUpTo (n : Nat) (s : Session) (k : Call) (want : s.conn.want ≠ .readUpstream) :
    s.call (keepsUpTo n) k = s.call {} k := by
  have same : onReady (keepsUpTo n) k.answers ⟨s.conn, k.cache, []⟩ = onReady {} k.answers ⟨s.conn, k.cache, []⟩ := by
    unfold onReady
    split
    · rfl
    · rfl
    · rename_i reading
      exact absurd reading want
    · rfl
    · rfl
    · rfl
  simp only [Session.call, same]

/-- A request for `http://h/`, whose only address accepts at once. -/
def opening : List Call :=
  [⟨{ recv := .bytes (bytes "GET http://h/ HTTP/1.1\r\n\r\n"), start := .hit [⟨[], 0, 0, 0⟩],
      dial := fun _ => .connected 1 }, some (makeCache {})⟩,
    ⟨{ send := .accepts 100 }, some (makeCache {})⟩]

/-- The upstream sends one byte, and the client takes it. -/
def feed (b : UInt8) : List Call :=
  [⟨{ recv := .bytes [b] }, some (makeCache {})⟩, ⟨{ send := .accepts 1 }, some (makeCache {})⟩]

/-- A request, its response byte by byte, and the end of the stream. -/
def delivery (response : Bytes) : List Call :=
  opening ++ response.flatMap feed ++ [⟨{ recv := .bytes [] }, some (makeCache {})⟩]

theorem keeping_opening (n : Nat) : Keeping ((Session.start 0 0).drive (keepsUpTo n) opening).conn [] := by
  have same : (Session.start 0 0).drive (keepsUpTo n) opening = (Session.start 0 0).drive {} opening := by
    simp only [Session.drive, opening, run_cons, run_nil]
    rw [call_keepsUpTo n (.start 0 0) _ (by decide), call_keepsUpTo n _ _ (by decide)]
  rw [same]
  constructor <;> decide

theorem Keeping.feed {n : Nat} {s : Session} {got : Bytes} (h : Keeping s.conn got) (b : UInt8)
    (room : got.length + 1 ≤ n) : Keeping (s.drive (keepsUpTo n) (EvProxy.feed b)).conn (got ++ [b]) := by
  have read : readSome (chunk (keepsUpTo n)) (.bytes [b]) = (.ok, [b]) := by
    simp [readSome, chunk, keepsUpTo]
  have kept : accumulate (keepsUpTo n) [b] s.conn = { s.conn with cacheAccum := got ++ [b] } := by
    have fits : ¬ n < got.length + 1 := by omega
    simp [accumulate, h.cacheKey, h.small, h.accum, keepsUpTo, fits]
  simp only [EvProxy.feed, Session.drive, run_cons, run_nil, Session.call, onReady, h.want, doReadUpstream, read, kept,
    Connection.setWant, doWriteClient, writeSome, h.outClient, h.outClientOff]
  constructor <;> simp [Exec.log, h.state, h.unended, h.cacheKey, h.small]

theorem keeping_fed {n : Nat} (rest : Bytes) : ∀ {s : Session} {got : Bytes}, Keeping s.conn got →
    got.length + rest.length ≤ n → Keeping (s.drive (keepsUpTo n) (rest.flatMap feed)).conn (got ++ rest) := by
  induction rest with
  | nil =>
    intro s got h _
    simpa [Session.drive] using h
  | cons b rest ih =>
    intro s got h room
    rw [List.length_cons] at room
    have fed : Keeping (s.drive (keepsUpTo n) (EvProxy.feed b)).conn (got ++ [b]) := h.feed b (by omega)
    have next := ih fed (by simp only [List.length_append, List.length_singleton]; omega)
    simpa [Session.drive, run_append] using next

/-- At the end of the stream a response that passes the tests is stored. -/
theorem Keeping.stores {cfg : Config} {s : Session} {got : Bytes} (h : Keeping s.conn got) (ok : storable got = true) :
    ∃ key, .cachePut key got ∈ (s.call cfg ⟨{ recv := .bytes [] }, some (makeCache {})⟩).trace := by
  have ended : readSome (chunk cfg) (.bytes []) = (.closed, []) := by simp [readSome]
  refine ⟨s.conn.cacheKey, ?_⟩
  simp only [Session.call, onReady, h.want, doReadUpstream, ended, storeInCache, Exec.log, resetUpstream, h.cacheKey,
    h.small, h.accum, ok, h.outClient, h.outClientOff]
  simp [finish_eq]

/-- The delivery of a response that passes the tests ends in storing it. -/
theorem delivery_stores {response : Bytes} (ok : storable response = true) :
    ∃ key, .cachePut key response ∈
      ((Session.start 0 0).drive (keepsUpTo response.length) (delivery response)).trace := by
  have kept := keeping_fed (n := response.length) response (keeping_opening response.length) (by simp)
  rw [List.nil_append] at kept
  have split : (Session.start 0 0).drive (keepsUpTo response.length) (delivery response) =
      (((Session.start 0 0).drive (keepsUpTo response.length) opening).drive (keepsUpTo response.length)
        (response.flatMap feed)).call (keepsUpTo response.length) ⟨{ recv := .bytes [] }, some (makeCache {})⟩ := by
    simp only [Session.drive, delivery, run_append, run_cons, run_nil]
  rw [split]
  exact kept.stores ok

/-- **Which responses that set a cookie stay out of the cache**: exactly those that are no 200, or that spell the
header name one of the two ways the code knows. -/
theorem cookies_unstored_iff (response : Bytes) :
    (setsCookie response = true → ∀ (cfg : Config) (client id : Nat) (calls : List Call) (key stored : Bytes),
      stream .fromUpstream ((Session.start client id).drive cfg calls).trace = response →
        .cachePut key stored ∉ ((Session.start client id).drive cfg calls).trace) ↔
    (setsCookie response = true → succeeded response = true → spelled response = true) := by
  constructor
  · intro never cookie ok
    by_contra unseen
    have passes : storable response = true := (storable_iff response).mpr ⟨ok, by simpa using unseen⟩
    obtain ⟨key, put⟩ := delivery_stores passes
    have whole := ((audited_drive _ _ _ _).puts _ _ put).whole
    exact never cookie _ _ _ _ _ _ whole put
  · intro seen cookie cfg client id calls key stored whole put
    have complete := (audited_drive cfg client id calls).puts key stored put
    rw [← complete.whole.symm.trans whole] at seen cookie
    obtain ⟨ok, unseen⟩ := (storable_iff stored).mp complete.storable
    exact absurd (seen cookie ok) (by simp [unseen])

/-- Upper-case letters suffice: this response sets a cookie and is stored. -/
theorem cookie_stored_upper :
    let response := bytes "HTTP/1.1 200 OK\r\nSET-COOKIE: sid=1\r\n\r\n"
    let s := (Session.start 0 0).drive {} (opening ++
      [⟨{ recv := .bytes response }, some (makeCache {})⟩, ⟨{ send := .accepts 100 }, some (makeCache {})⟩,
        ⟨{ recv := .bytes [] }, some (makeCache {})⟩])
    setsCookie response = true ∧ stream .fromUpstream s.trace = response ∧
      .cachePut (bytes "GET h:80/") response ∈ s.trace := by
  decide +kernel

end EvProxy
