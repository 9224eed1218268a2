import EvProxy.Conn.Phase

/-!
# What a step does to the cache

A connection touches the cache in two places: the lookup once its request is
complete, and the store at the end of the upstream stream. `CacheUse` is `Step`
seen from the cache: a hit, a miss, a store, or nothing.
-/

namespace EvProxy
open Text

/-- The pairs a cache holds; none if there is no cache. -/
def cached : Option LruCache → List (Bytes × Bytes)
  | none => []
  | some cache => cache.contents

def CacheWf (cache : Option LruCache) : Prop := ∀ l, cache = some l → l.Wf

/-- An event at the cache. -/
def Event.atCache : Event → Bool
  | .cacheHit _ _ | .cacheMiss _ | .cachePut _ _ => true
  | _ => false

/-- A stretch of history that leaves the cache alone. -/
def Uncached (events : List Event) : Prop := ∀ e ∈ events, e.atCache = false

theorem Uncached.append {e f : List Event} (he : Uncached e) (hf : Uncached f) : Uncached (e ++ f) :=
  List.forall_mem_append.mpr ⟨he, hf⟩

theorem Uncached.cons {e : Event} {events : List Event} (he : e.atCache = false) (h : Uncached events) :
    Uncached (e :: events) := List.forall_mem_cons.mpr ⟨he, h⟩

theorem uncached_nil : Uncached [] := nofun

theorem Silent.uncached {events : List Event} (silent : Silent events) : Uncached events := by
  intro e he
  have quiet := silent e he
  cases e <;> first | rfl | cases quiet

theorem Uncached.not_mem {events : List Event} (h : Uncached events) {e : Event} (loud : e.atCache = true) :
    e ∉ events := by
  intro he
  rw [h e he] at loud
  cases loud

theorem Uncached.no_hit {events : List Event} (h : Uncached events) (key response : Bytes) :
    .cacheHit key response ∉ events := h.not_mem rfl

theorem Uncached.no_put {events : List Event} (h : Uncached events) (key response : Bytes) :
    .cachePut key response ∉ events := h.not_mem rfl

/-- The key of a request. -/
def Request.cacheKey (req : Request) : Bytes := EvProxy.cacheKey req.method req.host req.port req.path

/-- A step, seen from the cache. -/
inductive CacheUse (cfg : Config) (c : Connection) (cache : Option LruCache) :
    List Event → Connection → Option LruCache → Prop where
  | untouched {events : List Event} {c' : Connection} (uncached : Uncached events) :
      CacheUse cfg c cache events c' cache
  | hit {after : List Event} {c' : Connection} (data response : Bytes) (req : Request) (stored : LruCache)
      (want : c.want = .readClient) (ready : Ready cfg c (c.inClient ++ data) req)
      (cacheable : cacheableRequest cfg req = true) (on : cache = some stored)
      (found : (stored.get req.cacheKey).1 = some response) (uncached : Uncached after)
      (reply : c'.state = .failing ∧ c'.outClient = response ∧ c'.outClientOff = 0)
      (request : c'.inClient = c.inClient ++ data ∧ c'.req = req) :
      CacheUse cfg c cache (.recvClient data :: .cacheHit req.cacheKey response :: after) c'
        (some (stored.get req.cacheKey).2)
  | miss {after : List Event} {c' : Connection} (data : Bytes) (req : Request) (stored : LruCache)
      (want : c.want = .readClient) (ready : Ready cfg c (c.inClient ++ data) req)
      (cacheable : cacheableRequest cfg req = true) (on : cache = some stored)
      (absent : (stored.get req.cacheKey).1 = none) (uncached : Uncached after) (request : c'.req = req) :
      CacheUse cfg c cache (.recvClient data :: .cacheMiss req.cacheKey :: after) c'
        (some (stored.get req.cacheKey).2)
  | put (before after : List Event) {c' : Connection} (stored : LruCache) (want : c.want = .readUpstream)
      (on : cache = some stored) (key : c.cacheKey ≠ []) (small : c.cacheTooBig = false)
      (ok : storable c.cacheAccum = true) (uncached : Uncached before ∧ Uncached after) :
      CacheUse cfg c cache (before ++ .cachePut c.cacheKey c.cacheAccum :: after) c'
        (some (stored.put c.cacheKey c.cacheAccum))

section Steps
variable {cfg : Config} {c c' : Connection} {cache cache' : Option LruCache} {events : List Event}

/-- A store in the middle of events that leave the cache alone. -/
theorem Store.cacheUse {stored before after : List Event} (store : Store c cache stored cache')
    (want : c.want = .readUpstream) (c' : Connection) (hb : Uncached before) (ha : Uncached after) :
    CacheUse cfg c cache (before ++ stored ++ after) c' cache' := by
  cases store with
  | skipped => exact .untouched ((hb.append uncached_nil).append ha)
  | stored l key small ok =>
    rw [List.append_assoc]
    exact .put before after l want rfl key small ok ⟨hb, ha⟩

theorem Step.cacheUse (step : Step cfg c cache events c' cache') : CacheUse cfg c cache events c' cache' := by
  have closed (fd : Fd) : Uncached (closing fd) := (silent_closing fd).uncached
  have finish (c : Connection) (lastRef : Bool) : Uncached (c.finishEvents lastRef) :=
    (silent_finishEvents c lastRef).uncached
  cases step with
  | idle => exact .untouched uncached_nil
  | hangup lastRef => exact .untouched ((finish c lastRef).cons rfl)
  | incomplete => exact .untouched (uncached_nil.cons rfl)
  | awaiting => exact .untouched (uncached_nil.cons rfl)
  | rejected => exact .untouched ((closed _).cons rfl)
  | hit data response req stored want got ready enough cacheable on found =>
    exact .hit data response req stored want ready cacheable on found (closed _) ⟨rfl, rfl, rfl⟩ ⟨rfl, rfl⟩
  | forward data key req want got ready enough lookup resolve =>
    cases lookup with
    | off => exact .untouched (resolve.silent.uncached.cons rfl)
    | skipped => exact .untouched (resolve.silent.uncached.cons rfl)
    | missed stored cacheable absent =>
      exact .miss data req stored want ready cacheable rfl absent resolve.silent.uncached resolve.kept.1.req
  | unresolved lastRef => exact .untouched ((silent_releasing lastRef _).uncached.append (closed _))
  | resolved lastRef endpoints want job dial =>
    exact .untouched ((silent_releasing lastRef _).uncached.append dial.silent.uncached)
  | refused want state dial => exact .untouched ((closed _).append dial.silent.uncached)
  | connected => exact .untouched (uncached_nil.cons rfl)
  | sendPart => exact .untouched (uncached_nil.cons rfl)
  | sendAll => exact .untouched (uncached_nil.cons rfl)
  | sendFailed => exact .untouched ((closed _).cons rfl)
  | recvFailed lastRef => exact .untouched ((finish c lastRef).cons rfl)
  | eofDone lastRef want store flushed =>
    exact store.cacheUse want _ ((closed c.upstream).cons (e := .upstreamEof) rfl) (finish _ lastRef)
  | eofFlush want store pending =>
    cases store with
    | skipped => exact .untouched (((closed c.upstream).append uncached_nil).cons rfl)
    | stored l key small ok =>
      exact .put (.upstreamEof :: closing c.upstream) [] l want rfl key small ok
        ⟨(closed c.upstream).cons rfl, uncached_nil⟩
  | recv => exact .untouched (uncached_nil.cons rfl)
  | writePart => exact .untouched (uncached_nil.cons rfl)
  | writeMore => exact .untouched (uncached_nil.cons rfl)
  | writeLast lastRef => exact .untouched ((finish c lastRef).cons rfl)
  | writeFailed lastRef => exact .untouched ((finish c lastRef).cons rfl)
  | again lastRef => exact .untouched (finish c lastRef)

/-- **The cache after a step** is well-formed, and what is new in it was put by the step. -/
theorem CacheUse.contents (use : CacheUse cfg c cache events c' cache') (wf : CacheWf cache) :
    CacheWf cache' ∧ ∀ p ∈ cached cache', p ∈ cached cache ∨ .cachePut p.1 p.2 ∈ events := by
  have looked {stored : LruCache} (on : cache = some stored) (key : Bytes) (events : List Event) :
      CacheWf (some (stored.get key).2) ∧
        ∀ p ∈ cached (some (stored.get key).2), p ∈ cached cache ∨ .cachePut p.1 p.2 ∈ events := by
    obtain ⟨kept, same, -⟩ := (wf stored on).get key
    refine ⟨?_, fun p mem => Or.inl ?_⟩
    · rintro l ⟨⟩
      exact kept
    · rw [on]
      exact (same p).mp mem
  cases use with
  | untouched => exact ⟨wf, fun p mem => Or.inl mem⟩
  | hit data response req stored want ready cacheable on found uncached => exact looked on _ _
  | miss data req stored want ready cacheable on absent uncached => exact looked on _ _
  | put before after stored want on key small ok uncached =>
    obtain ⟨kept, new⟩ := (wf stored on).put c.cacheKey c.cacheAccum
    refine ⟨?_, fun p mem => ?_⟩
    · rintro l ⟨⟩
      exact kept
    · rcases new p mem with rfl | old
      · exact Or.inr (by simp)
      · rw [on]
        exact Or.inl old

/-- Without a cache there is none afterwards. -/
theorem CacheUse.off (use : CacheUse cfg c none events c' cache') : cache' = none := by
  cases use with
  | untouched => rfl
  | hit data response req stored want ready cacheable on => cases on
  | miss data req stored want ready cacheable on => cases on
  | put before after stored want on => cases on

/-- A hit hands out a stored response and puts it in front of the client. -/
theorem CacheUse.of_hit (use : CacheUse cfg c cache events c' cache') (wf : CacheWf cache) {key response : Bytes}
    (hit : .cacheHit key response ∈ events) :
    (key, response) ∈ cached cache ∧ c.want = .readClient ∧
      (c'.state = .failing ∧ c'.outClient = response ∧ c'.outClientOff = 0) ∧
      ∃ data, c'.inClient = c.inClient ++ data ∧ Ready cfg c (c.inClient ++ data) c'.req ∧
        cacheableRequest cfg c'.req = true ∧ key = c'.req.cacheKey := by
  cases use with
  | untouched uncached => exact absurd hit (uncached.no_hit _ _)
  | hit data response' req stored want ready cacheable on found uncached reply request =>
    have here : key = req.cacheKey ∧ response = response' := by
      simpa [uncached.no_hit] using hit
    obtain ⟨rfl, rfl⟩ := here
    rw [on, request.2]
    exact ⟨((wf stored on).get _).2.2 response found, want, reply, data, request.1, ready, cacheable, rfl⟩
  | miss data req stored want ready cacheable on absent uncached =>
    simp [uncached.no_hit] at hit
  | put before after stored want on key' small ok uncached =>
    simp [uncached.1.no_hit, uncached.2.no_hit] at hit

/-- A store puts the accumulated response under the connection's key. -/
theorem CacheUse.of_put (use : CacheUse cfg c cache events c' cache') {key response : Bytes}
    (put : .cachePut key response ∈ events) :
    c.want = .readUpstream ∧ key = c.cacheKey ∧ response = c.cacheAccum ∧ c.cacheKey ≠ [] ∧
      c.cacheTooBig = false ∧ storable c.cacheAccum = true := by
  cases use with
  | untouched uncached => exact absurd put (uncached.no_put _ _)
  | hit data response' req stored want ready cacheable on found uncached reply request =>
    simp [uncached.no_put] at put
  | miss data req stored want ready cacheable on absent uncached =>
    simp [uncached.no_put] at put
  | put before after stored want on key' small ok uncached =>
    have here : key = c.cacheKey ∧ response = c.cacheAccum := by
      simpa [uncached.1.no_put, uncached.2.no_put] using put
    exact ⟨want, here.1, here.2, key', small, ok⟩

end Steps

/-- A stored response is a status line at least. -/
theorem storable_prefix {response : Bytes} (ok : storable response = true) :
    bytes "HTTP/1.1 200" <+: response ∨ bytes "HTTP/1.0 200" <+: response := by
  unfold storable at ok
  split at ok
  · cases ok
  · rename_i version
    split at ok
    · cases ok
    · rename_i status
      have front : response = substr response 0 9 ++ (substr response 9 3 ++ response.drop 12) := by
        simp only [Text.substr, List.drop_zero]
        have inner : (response.drop 9).take 3 ++ response.drop 12 = response.drop 9 := by
          have := List.take_append_drop 3 (response.drop 9)
          rwa [List.drop_drop] at this
        rw [inner, List.take_append_drop]
      rw [not_not.mp status] at front
      by_cases one : substr response 0 9 = bytes "HTTP/1.1 "
      · rw [one] at front
        exact Or.inl ⟨response.drop 12, front.symm⟩
      · have zero : substr response 0 9 = bytes "HTTP/1.0 " := by
          by_contra other
          exact version ⟨one, other⟩
        rw [zero] at front
        exact Or.inr ⟨response.drop 12, front.symm⟩

theorem storable_ne_nil {response : Bytes} (ok : storable response = true) : response ≠ [] := by
  rintro rfl
  exact absurd ok (by decide)

end EvProxy
