import EvProxy.Proxy.System

/-!
# Credentials and the cache

`cacheable_request` looks at the first `Authorization` and the first `Cookie` of
a request. A request that shows its credentials there keeps away from the cache,
and a history with all such exchanges taken out leaves the same cache and the
same replies (`credentials_uncached`). An empty first header hides a second one
that is not: that exchange is stored and served to others.
-/

namespace EvProxy
open Text Runs

/-- A header named `Authorization` or `Cookie` that says something, anywhere in the list. -/
def Request.credentialed (req : Request) : Bool :=
  req.headers.any fun kv =>
    decide (lower kv.1 = bytes "authorization" ∨ lower kv.1 = bytes "cookie") && decide (kv.2 ≠ [])

/-- The first header of one of the two names says something. -/
def Request.upfront (req : Request) : Bool :=
  decide (headerValue req (bytes "Authorization") ≠ [] ∨ headerValue req (bytes "Cookie") ≠ [])

/-- A GET or HEAD that carries credentials carries them up front. -/
def Request.candid (req : Request) : Bool :=
  !(req.credentialed && decide (req.method = bytes "GET" ∨ req.method = bytes "HEAD")) || req.upfront

/-- Credentials up front keep a request from the cache, and so does any other method. -/
theorem cacheable_of_candid {cfg : Config} {req : Request} (credentialed : req.credentialed = true)
    (candid : cfg.cacheEnabled = true → req.candid = true) : cacheableRequest cfg req = false := by
  unfold cacheableRequest
  split
  · rfl
  · rename_i enabled
    split
    · rfl
    · rename_i safe
      have candid := candid (by simpa using enabled)
      have method : req.method = bytes "GET" ∨ req.method = bytes "HEAD" := by
        rwa [not_and_or, not_not, not_not] at safe
      have upfront : req.upfront = true := by simpa [Request.candid, credentialed, method] using candid
      rcases of_decide_eq_true upfront with auth | cookie
      · rw [if_pos auth]
      · rw [if_pos cookie]
        split <;> rfl

/-! ## One session -/

/-- A session touches the cache only for a cacheable request, and not before it has one. -/
structure Gated (cfg : Config) (s : Session) : Prop where
  phase : Phase cfg s.conn
  reading : s.conn.want = .readClient → Uncached s.trace
  touched : ¬ Uncached s.trace → cacheableRequest cfg s.conn.req = true

section Steps
variable {cfg : Config} {c c' : Connection} {cache cache' : Option LruCache} {events : List Event}

/-- After the request has been read it does not change. -/
theorem Step.keeps_req (step : Step cfg c cache events c' cache') (read : c.want ≠ .readClient) : c'.req = c.req := by
  cases step with
  | resolved lastRef endpoints want job dial => exact dial.kept.1.req
  | refused want state dial => exact dial.kept.1.req
  | recv data =>
    obtain ⟨accum, tooBig, shape⟩ := c.received_eq cfg data
    rw [shape]
  | incomplete data want => exact absurd want read
  | awaiting data req want => exact absurd want read
  | rejected data response req want => exact absurd want read
  | hit data response req stored want => exact absurd want read
  | forward data key req want => exact absurd want read
  | _ => rfl

/-- A connection that is still reading has only read. -/
theorem Step.still_reading (step : Step cfg c cache events c' cache') (reading : c'.want = .readClient) :
    c.want = .readClient ∧ Uncached events := by
  cases step with
  | idle => exact ⟨reading, uncached_nil⟩
  | incomplete data want => exact ⟨want, uncached_nil.cons rfl⟩
  | awaiting data req want => exact ⟨want, uncached_nil.cons rfl⟩
  | forward data key req want got ready enough lookup resolve => exact absurd reading resolve.kept.2
  | resolved lastRef endpoints want job dial => exact absurd reading dial.kept.2
  | refused want state dial => exact absurd reading dial.kept.2
  | sendPart n want => cases want.symm.trans reading
  | writePart n want => cases want.symm.trans reading
  | recv data =>
    obtain ⟨accum, tooBig, shape⟩ := c.received_eq cfg data
    rw [shape] at reading
    cases reading
  | _ => cases reading

theorem Gated.step {s : Session} (h : Gated cfg s) (step : Step cfg s.conn cache events c' cache') :
    Gated cfg ⟨c', s.trace ++ events⟩ where
  phase := h.phase.step step
  reading := by
    intro reading
    obtain ⟨before, uncached⟩ := step.still_reading reading
    exact (h.reading before).append uncached
  touched := by
    intro touched
    by_cases before : Uncached s.trace
    · have use := step.cacheUse
      cases use with
      | untouched uncached => exact absurd (before.append uncached) touched
      | hit data response req stored want ready cacheable on found uncached reply request =>
        rw [request.2]
        exact cacheable
      | miss data req stored want ready cacheable on absent uncached request =>
        rw [request]
        exact cacheable
      | put before after stored want on key small ok uncached =>
        have waiting : Waiting cfg s.conn := h.phase.of_want want
        rw [step.keeps_req (by rw [want]; nofun)]
        exact (waiting.relaying.known.key.resolve_left key).1
    · rw [step.keeps_req fun reading => before (h.reading reading)]
      exact h.touched before

theorem gated_start (cfg : Config) (client id : Nat) : Gated cfg (.start client id) :=
  ⟨phase_init cfg client id, fun _ => uncached_nil, fun touched => absurd uncached_nil touched⟩

/-- The cache stays as it is in a step that shows no event of it. -/
theorem CacheUse.unchanged (use : CacheUse cfg c cache events c' cache') (uncached : Uncached events) :
    cache' = cache := by
  cases use with
  | untouched => rfl
  | hit data response req => exact absurd (by simp) (uncached.no_hit req.cacheKey response)
  | miss data req => exact absurd (by simp) (uncached.not_mem (e := .cacheMiss req.cacheKey) rfl)
  | put => exact absurd (by simp) (uncached.no_put c.cacheKey c.cacheAccum)

end Steps

/-! ## Taking exchanges out of a history -/

/-- The connection a move is about. -/
def Move.key : Move → Option Nat
  | .accept key _ _ | .adopt key _ _ | .ready key _ | .destroy key _ => some key
  | .opens _ | .closes _ => none

/-- The moves of all connections but the hidden ones. -/
def without (hidden : Nat → Bool) (m : Move) : Bool := m.key.all fun key => !hidden key

namespace Proxy
variable {cfg : Config} {p p' : Proxy}

/-- The same cache and the same connections, as far as they are not hidden. -/
structure SameView (hidden : Nat → Bool) (p q : Proxy) : Prop where
  cache : q.cache = p.cache
  entries : ∀ key, hidden key = false → q.entries key = p.entries key

theorem SameView.update {hidden : Nat → Bool} {q : Proxy} (same : SameView hidden p q) (key : Nat) (e : Entry)
    (cache' : Option LruCache) (events : List Event) :
    SameView hidden (p.update key e cache' events) (q.update key e cache' events) where
  cache := rfl
  entries := by
    intro other seen
    by_cases here : other = key
    · rw [here, update_self, update_self]
    · rw [update_other here, update_other here]
      exact same.entries other seen

/-- A connection in view sees nothing of the hidden ones. -/
theorem SameView.next {hidden : Nat → Bool} {q : Proxy} (same : SameView hidden p q) {m : Move}
    (kept : without hidden m = true) : SameView hidden (p.next cfg m) (q.next cfg m) := by
  have seen {key : Nat} (here : m.key = some key) : q.entries key = p.entries key := by
    rw [without, here] at kept
    exact same.entries key (by simpa using kept)
  cases m with
  | accept | adopt | ready | destroy =>
    -- all four look at the entry of their key and at the cache, and write that entry only
    simp only [Proxy.next, seen rfl, same.cache]
    split
    · exact same.update _ _ _ _
    · exact same
  | opens fd => exact ⟨same.cache, same.entries⟩
  | closes fd => exact ⟨same.cache, same.entries⟩

/-- A hidden connection whose history ends up without cache events changes nothing in view. -/
theorem Moved.unseen {hidden : Nat → Bool} {m : Move} (moved : Moved cfg p m p') (dropped : without hidden m = false)
    (quiet : ∀ key e, hidden key = true → p'.entries key = some e → Uncached e.session.trace) {q : Proxy}
    (same : SameView hidden p q) : SameView hidden p' q := by
  have elsewhere {key : Nat} (here : m.key = some key) : hidden key = true := by
    rw [without, here] at dropped
    simpa using dropped
  have swap {key : Nat} (gone : hidden key = true) (e : Entry) (events : List Event) {cache' : Option LruCache}
      (unchanged : cache' = p.cache) : SameView hidden (p.update key e cache' events) q := by
    refine ⟨same.cache.trans unchanged.symm, fun other seen => ?_⟩
    have ne : other ≠ key := by
      rintro rfl
      cases gone.symm.trans seen
    rw [update_other ne]
    exact same.entries other seen
  cases moved with
  | stay => exact same
  | accepted key client id unused => exact swap (elsewhere rfl) _ _ rfl
  | adopted key client id unused => exact swap (elsewhere rfl) _ _ rfl
  | stepped key a s here trace step =>
    have uncached := quiet key _ (elsewhere rfl) update_self
    refine swap (elsewhere rfl) _ _ (step.cacheUse.unchanged fun e mem => ?_)
    exact uncached e (List.mem_append_right _ mem)
  | destroyed key lastRef s here => exact swap (elsewhere rfl) _ _ rfl
  | opened => cases dropped
  | closed => cases dropped

/-- Histories only grow. -/
theorem trace_grows (cfg : Config) {key : Nat} {e : Entry} (here : p.entries key = some e) (moves : List Move) :
    ∃ e', (run (next cfg) p moves).entries key = some e' ∧ e.session.trace <+: e'.session.trace :=
  run_invariant (P := fun p => ∃ e', p.entries key = some e' ∧ e.session.trace <+: e'.session.trace)
    (fun p m ⟨_, there, grown⟩ => (next_moved cfg p m).persists
      (P := fun e' => e.session.trace <+: e'.session.trace) (fun h _ => h.trans (List.prefix_append _ _))
      (fun _ h => h.trans (List.prefix_append _ _)) there grown)
    ⟨e, here, List.prefix_refl _⟩ moves

/-- Connections that have never touched the cache may be taken out of a history. -/
theorem run_without (cfg : Config) (p : Proxy) (moves : List Move) (hidden : Nat → Bool)
    (quiet : ∀ key e, hidden key = true → (run (next cfg) p moves).entries key = some e → Uncached e.session.trace) :
    SameView hidden (run (next cfg) p moves) (run (next cfg) p (moves.filter (without hidden))) := by
  refine run_purge (fun _ _ _ kept same => same.next kept) ⟨rfl, fun _ _ => rfl⟩
    (legal_of_splits fun past m rest split dropped q same => ?_)
  refine (next_moved cfg _ m).unseen dropped (fun key e gone here => ?_) same
  obtain ⟨e', final, grown⟩ := trace_grows cfg here rest
  rw [split, run_append, run_cons] at quiet
  exact fun ev mem => quiet key e' gone final ev (grown.subset mem)

/-- A connection on the table, destroyed or not, has touched the cache only for a cacheable request. -/
structure Screened (cfg : Config) (e : Entry) : Prop where
  gated : e.alive = true → Gated cfg e.session
  touched : ¬ Uncached e.session.trace → cacheableRequest cfg e.session.conn.req = true

theorem screened_moved {m : Move} (all : ∀ key e, p.entries key = some e → Screened cfg e)
    (moved : Moved cfg p m p') : ∀ key e, p'.entries key = some e → Screened cfg e :=
  entry_invariant (fun client id => ⟨fun _ => gated_start cfg client id, (gated_start cfg client id).touched⟩)
    (fun h step => ⟨fun _ => (h.gated rfl).step step, ((h.gated rfl).step step).touched⟩)
    (fun {s} lastRef h => ⟨nofun, fun touched => h.touched fun quiet =>
      touched (quiet.append (silent_finishEvents s.conn lastRef).uncached)⟩)
    all moved

theorem screened_run (cfg : Config) (opened : Finset Nat) (moves : List Move) :
    ∀ key e, (run (next cfg) (start cfg opened) moves).entries key = some e → Screened cfg e :=
  run_invariant (P := fun p => ∀ key e, p.entries key = some e → Screened cfg e)
    (fun p m all => screened_moved all (next_moved cfg p m)) (s := start cfg opened)
    (fun _ _ none_yet => absurd none_yet nofun) moves

/-- The connections whose request carries credentials. -/
def credentialed (p : Proxy) (key : Nat) : Bool := (p.entries key).any fun e => e.session.conn.req.credentialed

end Proxy

/-- **Credentialed exchanges and the cache.** In every run in which the cache is
off, or the requests that carry credentials carry them up front, none of those
exchanges asks the cache or stores anything, and the history without them leaves the same cache and
the same other exchanges. -/
theorem credentials_uncached (cfg : Config) (opened : Finset Nat) (moves : List Move)
    (candid : cfg.cacheEnabled = true → ∀ key e,
      (run (Proxy.next cfg) (.start cfg opened) moves).entries key = some e → e.session.conn.req.candid = true) :
    let p := run (Proxy.next cfg) (.start cfg opened) moves
    let q := run (Proxy.next cfg) (.start cfg opened) (moves.filter (without p.credentialed))
    (∀ key e, p.entries key = some e → e.session.conn.req.credentialed = true → Uncached e.session.trace) ∧
    q.cache = p.cache ∧ ∀ key, p.credentialed key = false → q.entries key = p.entries key := by
  intro p q
  have quiet : ∀ key e, p.entries key = some e → e.session.conn.req.credentialed = true →
      Uncached e.session.trace := by
    intro key e here credentialed
    by_contra touched
    have cacheable := (Proxy.screened_run cfg opened moves key e here).touched touched
    rw [cacheable_of_candid credentialed fun enabled => candid enabled key e here] at cacheable
    cases cacheable
  have same := Proxy.run_without cfg (.start cfg opened) moves p.credentialed fun key e gone here => by
    rw [Proxy.credentialed, show p.entries key = some e from here] at gone
    exact quiet key e here gone
  exact ⟨quiet, same.cache, same.entries⟩

/-- An exchange with credentials up front. -/
def privateMoves : List Move :=
  exchange 0 5 6 (bytes "GET http://h/ HTTP/1.1\r\nCookie: u\r\n\r\n") (bytes "HTTP/1.1 200 OK\r\n\r\n")

theorem credentials_uncached_cookie :
    cached (run (Proxy.next {}) (.start {} ∅) privateMoves).cache = [] ∧
    ∃ e, (run (Proxy.next {}) (.start {} ∅) privateMoves).entries 0 = some e ∧ Uncached e.session.trace := by
  have candid : ∀ key e, (run (Proxy.next {}) (.start {} ∅) privateMoves).entries key = some e →
      e.session.conn.req.candid = true := by
    intro key e here
    cases key with
    | zero =>
      obtain rfl := Option.some.inj here
      decide
    | succ key => cases here
  have out := credentials_uncached {} ∅ privateMoves fun _ => candid
  refine ⟨?_, _, rfl, out.1 0 _ rfl (by decide)⟩
  decide

/-- An empty `Authorization` in front of the real one; then a client without any. -/
def hiddenMoves : List Move :=
  exchange 0 5 6 (bytes "GET http://h/ HTTP/1.1\r\nAuthorization:\r\nAuthorization: u\r\n\r\n")
    (bytes "HTTP/1.1 200 OK\r\n\r\nu") ++
  [.accept 1 5 1, .ready 1 { recv := .bytes (bytes "GET http://h/ HTTP/1.1\r\n\r\n") }]

/-- The response to the credentialed request is stored and served to the other client;
without the first exchange the cache would be empty. -/
theorem credentials_hidden_shared :
    let p := run (Proxy.next {}) (.start {} ∅) hiddenMoves
    let q := run (Proxy.next {}) (.start {} ∅) (hiddenMoves.filter (without p.credentialed))
    (p.entries 0).any (fun e => e.session.conn.req.credentialed &&
      decide (.cachePut (bytes "GET h:80/") (bytes "HTTP/1.1 200 OK\r\n\r\nu") ∈ e.session.trace)) = true ∧
    (p.entries 1).any (fun e => !e.session.conn.req.credentialed &&
      decide (.cacheHit (bytes "GET h:80/") (bytes "HTTP/1.1 200 OK\r\n\r\nu") ∈ e.session.trace)) = true ∧
    cached p.cache ≠ cached q.cache := by
  decide +kernel

end EvProxy
