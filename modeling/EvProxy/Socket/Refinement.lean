import EvProxy.Conn.Session
import EvProxy.Socket.Handlers

/-!
# The calls refine the handlers

`Conn.Handlers` lets the world answer a whole read, a whole `start_connect` or a
whole `Resolver::start` at once. Here its traces are read off the calls that are
really made: `shown` says what an observer sees of one query and its reply. Every
transcript of `on_ready()` is a call of `EvProxy.onReady` with some answers, with
the same connection and exactly the events the transcript shows.
-/

namespace EvProxy.Kernel
open Dialogue Runs Text

/-! ## What a transcript shows -/

/-- What the end of `read_some` shows. -/
def recvEvents : Side → IoStatus × Bytes → List Event
  | .client, (.ok, data) => [.recvClient data]
  | .client, (.closed, _) => [.clientGone]
  | .client, (.error, _) => [.clientGone]
  | .client, (.wouldBlock, _) => []
  | .upstream, (.ok, data) => [.recvUpstream data]
  | .upstream, (.closed, _) => [.upstreamEof]
  | .upstream, (.error, _) => [.upstreamRecvFailed]
  | .upstream, (.wouldBlock, _) => []

/-- What the end of `write_some` shows. -/
def sendEvents (fd : Fd) (data : Bytes) : Side → IoStatus × Nat → List Event
  | .client, (.ok, n) => [.sentClient (data.take n)]
  | .client, (.wouldBlock, _) => []
  | .client, _ => [.clientSendFailed]
  | .upstream, (.ok, n) => [.sentUpstream fd (data.take n)]
  | .upstream, (.wouldBlock, _) => []
  | .upstream, _ => [.upstreamSendFailed]

/-- What one query shows with its reply. -/
def shown : Query × Reply → List Event
  | (.recv side _ _, r) => (recvSettle r).elim [] (recvEvents side)
  | (.send side fd data, r) => (sendSettle r).elim [] (sendEvents fd data side)
  | (.socket endpoint, r) => .attempt endpoint :: (if r.ret < 0 then [] else [.opened r.ret.toNat])
  | (.connect fd _, r) => if r.ret = 0 then [.connected (some fd)] else []
  | (.socketError fd, r) => if r.ret = 0 ∧ r.soError = 0 then [.connected fd] else []
  | (.pipe, r) => if r.ret ≠ 0 then [] else [.opened r.ends.1, .opened r.ends.2]
  | (.close fd, _) => [.closed fd]
  | (.queuePush job, r) => if r.ret = 0 then [] else [.released job.writeEnd]
  | (.dropJob job, r) => if r.ret ≠ 0 then [] else [.released job.readEnd]
  | (.cacheGet key, r) => if r.ret ≠ 0 then [.cacheHit key r.data] else [.cacheMiss key]
  | (.cachePut key response, _) => [.cachePut key response]
  | _ => []

/-- The ghost state is the trace so far; of the kernel only `Fits` is assumed. -/
def watch : Terms Query Reply (List Event) where
  follow t e := t ++ shown e
  fair _ e := Fits e.1 e.2
  proper _ _ := True

/-- Whatever a query shows, it can be asked. -/
theorem watch_ask {t : List Event} {q : Query} {R : Reply → List Event → Prop}
    (post : ∀ r, Fits q r → R r (t ++ shown (q, r))) : Triple watch t (ask q) R :=
  .ask (fun _ _ => trivial) post

/-- A query that shows nothing. -/
theorem watch_quiet {t : List Event} {q : Query} (quiet : ∀ r, shown (q, r) = []) :
    Triple watch t (ask q) fun _ t' => t' = t :=
  watch_ask fun r _ => by rw [quiet r, List.append_nil]

/-! ## The calls of `socket.cpp` -/

section Calls
variable {t : List Event}

theorem reset_watch (fd : Fd) : Triple watch t (reset fd) fun _ t' => t' = t ++ closing fd := by
  cases fd with
  | none => exact .pure (List.append_nil t).symm
  | some n => exact (watch_ask (R := fun _ t' => t' = t ++ [.closed n]) fun _ _ => rfl).bind fun _ _ same => .pure same

theorem setNonblocking_watch (fd : Nat) : Triple watch t (setNonblocking fd) fun _ t' => t' = t := by
  refine (watch_quiet fun _ => rfl).bind ?_
  rintro flags _ rfl
  split
  · exact .pure rfl
  · exact (watch_quiet fun _ => rfl).bind fun _ _ same => .pure same

/-- A settled read is a `recv` outcome of the other model. -/
theorem recvSettle_eq {r : Reply} {len : Nat} {result : IoStatus × Bytes} (bound : r.ret ≤ len)
    (filled : 0 < r.ret → (r.data.length : Int) = r.ret) (settled : recvSettle r = some result) :
    ∃ recv, result = EvProxy.readSome len recv := by
  unfold recvSettle at settled
  split at settled
  · rename_i got
    have length := filled got
    refine ⟨.bytes r.data, ?_⟩
    have whole : r.data.take r.ret.toNat = r.data := List.take_of_length_le (by omega)
    have short : r.data.take len = r.data := List.take_of_length_le (by omega)
    have some_data : r.data ≠ [] := by
      rintro empty
      rw [empty] at length
      simp at length
      omega
    simp only [EvProxy.readSome, short, if_neg some_data]
    rw [← Option.some.inj settled, whole]
  split at settled
  · exact ⟨.bytes [], by simpa [EvProxy.readSome] using settled.symm⟩
  split at settled
  · cases settled
  split at settled
  · exact ⟨.wouldBlock, (Option.some.inj settled).symm⟩
  · exact ⟨.error, (Option.some.inj settled).symm⟩

theorem readSome_watch (side : Side) (fd : Fd) (len : Nat) :
    Triple watch t (readSome side fd len) fun r t' =>
      ∃ recv, r = EvProxy.readSome len recv ∧ t' = t ++ recvEvents side r := by
  refine .askUntil (· = t) rfl (fun _ _ _ _ => trivial) ?_ ?_
  · rintro _ r rfl fits more
    simp [watch, shown, more]
  · rintro _ r result rfl fits settled
    obtain ⟨recv, same⟩ := recvSettle_eq fits.1 fits.2 settled
    exact ⟨recv, same, by simp [watch, shown, settled]⟩

theorem sendSettle_eq {r : Reply} {result : IoStatus × Nat} {data : Bytes} (bound : r.ret ≤ data.length)
    (settled : sendSettle r = some result) : ∃ send, result = EvProxy.writeSome data.length send := by
  unfold sendSettle at settled
  split at settled
  · refine ⟨.accepts r.ret.toNat, ?_⟩
    rw [← Option.some.inj settled, EvProxy.writeSome, Nat.min_eq_left (by omega)]
  split at settled
  · cases settled
  split at settled
  · exact ⟨.wouldBlock, (Option.some.inj settled).symm⟩
  · exact ⟨.error, (Option.some.inj settled).symm⟩

theorem writeSome_watch (side : Side) (fd : Fd) (data : Bytes) :
    Triple watch t (writeSome side fd data) fun r t' =>
      ∃ send, r = EvProxy.writeSome data.length send ∧ t' = t ++ sendEvents fd data side r := by
  refine .askUntil (· = t) rfl (fun _ _ _ _ => trivial) ?_ ?_
  · rintro _ r rfl fits more
    simp [watch, shown, more]
  · rintro _ r result rfl fits settled
    obtain ⟨send, same⟩ := sendSettle_eq fits settled
    exact ⟨send, same, by simp [watch, shown, settled]⟩

theorem startConnect_watch (endpoint : Endpoint) :
    Triple watch t (startConnect endpoint) fun st t' =>
      ∃ dial, st = ((EvProxy.startConnect endpoint dial).1, (EvProxy.startConnect endpoint dial).2.1) ∧
        t' = t ++ (EvProxy.startConnect endpoint dial).2.2 := by
  refine (watch_ask (R := fun r t' => t' = t ++ shown (.socket endpoint, r)) fun _ _ => rfl).bind ?_
  rintro made _ rfl
  split
  · rename_i failed
    exact .pure ⟨.noSocket, rfl, by simp [shown, failed, EvProxy.startConnect]⟩
  · rename_i opened
    refine (watch_quiet fun _ => rfl).bind ?_
    rintro _ _ rfl
    refine (setNonblocking_watch _).bind ?_
    rintro set _ rfl
    split
    · refine (reset_watch _).bind ?_
      rintro _ _ rfl
      exact .pure ⟨.noNonblock made.ret.toNat, rfl, by simp [shown, opened, EvProxy.startConnect, closing]⟩
    refine (watch_ask (R := fun rc t' => t' = t ++ shown (.socket endpoint, made) ++
      shown (.connect made.ret.toNat endpoint, rc)) fun _ _ => rfl).bind ?_
    rintro rc _ rfl
    split
    · rename_i ok
      exact .pure ⟨.connected made.ret.toNat, rfl, by simp [shown, opened, ok, EvProxy.startConnect]⟩
    rename_i failed
    split
    · exact .pure ⟨.inProgress made.ret.toNat, rfl, by simp [shown, opened, failed, EvProxy.startConnect]⟩
    · refine (reset_watch _).bind ?_
      rintro _ _ rfl
      exact .pure ⟨.refused made.ret.toNat, rfl, by simp [shown, opened, failed, EvProxy.startConnect, closing]⟩

theorem connectSucceeded_watch (fd : Fd) :
    Triple watch t (connectSucceeded fd) fun ok t' => t' = t ++ if ok then [.connected fd] else [] := by
  refine (watch_ask (R := fun r t' => t' = t ++ shown (.socketError fd, r)) fun _ _ => rfl).bind ?_
  rintro got _ rfl
  refine .pure ?_
  by_cases ok : got.ret = 0 ∧ got.soError = 0 <;> simp [shown, ok]

end Calls

/-! ## The handlers -/

/-- The connection and the trace of an execution of the other model. -/
def Mirrors (x : Exec) (c : Connection) (t : List Event) : Prop := c = x.conn ∧ t = x.trace

section Handlers

theorem resetJob_watch {t : List Event} (job : Option ResolveJob) :
    Triple watch t (resetJob job) fun _ t' => ∃ lastRef, t' = t ++ releasing lastRef job := by
  cases job with
  | none => exact .pure ⟨true, (List.append_nil t).symm⟩
  | some job =>
    refine (watch_ask (R := fun r t' => t' = t ++ shown (.dropJob job, r)) fun _ _ => rfl).bind ?_
    rintro last _ rfl
    split
    · rename_i isLast
      refine (reset_watch _).conseq ?_
      rintro _ _ rfl
      exact ⟨true, by simp [shown, isLast, releasing, closing]⟩
    · rename_i shared
      exact .pure ⟨false, by simpa [shown, releasing] using shared⟩

theorem failWith_watch (response : Bytes) (x : Exec) :
    Triple watch x.trace (failWith response x.conn) (Mirrors (EvProxy.failWith response x)) := by
  rw [failWith_eq]
  refine (reset_watch _).bind ?_
  rintro _ _ rfl
  exact .pure ⟨rfl, rfl⟩

theorem finish_watch (x : Exec) :
    Triple watch x.trace (finish x.conn) fun c t =>
      ∃ lastRef, ∀ a : Answers, a.lastRef = lastRef → Mirrors (EvProxy.finish a x) c t := by
  refine (resetJob_watch _).bind ?_
  rintro _ _ ⟨lastRef, rfl⟩
  refine (reset_watch _).bind ?_
  rintro _ _ rfl
  refine (reset_watch _).bind ?_
  rintro _ _ rfl
  refine .pure ⟨lastRef, fun a same => ?_⟩
  rw [finish_eq, same]
  exact ⟨rfl, by simp [Connection.finishEvents, Connection.setWant]⟩

/-- The candidate loop: the outcome for each candidate is found as the loop gets to it. -/
theorem connectLoop_watch (eps : List Endpoint) (x : Exec) :
    Triple watch x.trace (connectLoop eps x.conn) fun c t =>
      ∃ dial : Nat → Dial, ∀ a : Answers, (∀ i, x.conn.endpointIdx ≤ i → a.dial i = dial i) →
        Mirrors (EvProxy.connectLoop a eps x) c t := by
  induction eps generalizing x with
  | nil => exact (failWith_watch _ x).conseq fun _ _ same => ⟨fun _ => .noSocket, fun _ _ => same⟩
  | cons endpoint rest ih =>
    refine (startConnect_watch endpoint).bind ?_
    rintro _ _ ⟨outcome, rfl, rfl⟩
    cases status : (EvProxy.startConnect endpoint outcome).1 with
    | failed =>
      refine (ih { x with
        conn := { x.conn with endpointIdx := x.conn.endpointIdx + 1 }
        trace := x.trace ++ (EvProxy.startConnect endpoint outcome).2.2 }).conseq ?_
      rintro c t ⟨dial, same⟩
      -- The outcome of this candidate joins those of the rest.
      refine ⟨Function.update dial x.conn.endpointIdx outcome, fun a agree => ?_⟩
      have later (i : Nat) (after : x.conn.endpointIdx + 1 ≤ i) : a.dial i = dial i := by
        rw [agree i (by omega), Function.update_of_ne (by omega)]
      rw [EvProxy.connectLoop, agree _ le_rfl, Function.update_self]
      simp only [status]
      exact same a later
    | connected | inProgress =>
      refine (reset_watch _).bind ?_
      rintro _ _ rfl
      refine .pure ⟨fun _ => outcome, fun a agree => ?_⟩
      rw [EvProxy.connectLoop, agree _ le_rfl]
      simp only [status]
      exact ⟨rfl, rfl⟩

theorem beginConnect_watch (x : Exec) :
    Triple watch x.trace (beginConnect x.conn) fun c t =>
      ∃ dial : Nat → Dial, ∀ a : Answers, a.dial = dial → Mirrors (EvProxy.beginConnect a x) c t :=
  (connectLoop_watch _ x).conseq fun _ _ ⟨dial, same⟩ => ⟨dial, fun a agree => same a fun i _ => by rw [agree]⟩

theorem finishConnect_watch (x : Exec) :
    Triple watch x.trace (finishConnect x.conn) fun c t => ∃ a : Answers, Mirrors (EvProxy.finishConnect a x) c t := by
  refine (connectSucceeded_watch _).bind ?_
  rintro ok _ rfl
  cases ok with
  | true => exact .pure ⟨{ connectOk := true }, rfl, rfl⟩
  | false =>
    refine (reset_watch _).bind ?_
    rintro _ _ rfl
    rw [if_neg (by simp), List.append_nil]
    refine (beginConnect_watch (EvProxy.resetUpstream x)).conseq ?_
    rintro c t ⟨dial, same⟩
    exact ⟨{ connectOk := false, dial := dial }, same _ rfl⟩

/-- What `Resolver::start` shows. -/
def startEvents : Start → List Event
  | .hit _ => []
  | .pending readEnd writeEnd => [.opened readEnd, .opened writeEnd, .released writeEnd]
  | .failed none => []
  | .failed (some (readEnd, writeEnd)) =>
    [.opened readEnd, .opened writeEnd, .closed writeEnd, .closed readEnd]

theorem destroyJob_watch {t : List Event} (ends : Nat × Nat) :
    Triple watch t (destroyJob ends) fun _ t' => t' = t ++ [.closed ends.2, .closed ends.1] := by
  refine (reset_watch _).bind ?_
  rintro _ _ rfl
  exact (reset_watch _).conseq fun _ _ same => by rw [same]; simp [closing]

theorem start_watch {t : List Event} (host port : Bytes) :
    Triple watch t (start host port) fun st t' => t' = t ++ startEvents st := by
  refine (watch_quiet fun _ => rfl).bind ?_
  rintro cached t rfl
  split
  · exact .pure (List.append_nil _).symm
  refine Triple.bind (R := fun made t' => t' = t ++ made.2.elim [] fun ends => [.opened ends.1, .opened ends.2]) ?_ ?_
  · refine (watch_ask (R := fun r t' => t' = t ++ shown (.pipe, r)) fun _ _ => rfl).bind ?_
    rintro made _ rfl
    split
    · rename_i failed
      exact .pure (by simp [shown, failed])
    · rename_i ok
      refine (setNonblocking_watch _).bind ?_
      rintro set t rfl
      exact .pure (by simp [shown, ok])
  rintro ⟨set, ends⟩ _ rfl
  cases ends with
  | none => exact .pure rfl
  | some ends =>
    simp only [Option.elim_some]
    split
    · refine (destroyJob_watch ends).bind ?_
      rintro _ _ rfl
      exact .pure (by simp [startEvents])
    refine (watch_ask (R := fun r t' => t' = t ++ [.opened ends.1, .opened ends.2] ++
      shown (.queuePush ⟨ends.1, ends.2, host, port⟩, r)) fun _ _ => rfl).bind ?_
    rintro pushed _ rfl
    split
    · rename_i closed
      refine (destroyJob_watch ends).bind ?_
      rintro _ _ rfl
      exact .pure (by simp [startEvents, shown, closed])
    · rename_i queued
      exact .pure (by simp [startEvents, shown, queued])

theorem resolveBlocking_watch {t : List Event} (host port : Bytes) :
    Triple watch t (resolveBlocking host port) fun _ t' => t' = t := by
  refine (watch_quiet fun _ => rfl).bind ?_
  rintro cached t rfl
  split
  · exact .pure rfl
  refine Triple.bind (R := fun _ t' => t' = t) ?_ ?_
  · refine (watch_quiet fun _ => rfl).bind ?_
    rintro found _ rfl
    split <;> exact .pure rfl
  rintro found _ rfl
  cases found with
  | none => exact .pure rfl
  | some endpoints => exact (watch_quiet fun _ => rfl).bind fun _ _ same => .pure same

theorem beginResolve_watch (cfg : Config) (x : Exec) :
    Triple watch x.trace (beginResolve cfg x.conn) fun c t =>
      ∃ (lookup : Option (List Endpoint)) (start : Start) (dial : Nat → Dial), ∀ a : Answers,
        a.lookup = lookup → a.start = start → a.dial = dial → Mirrors (EvProxy.beginResolve cfg a x) c t := by
  unfold beginResolve EvProxy.beginResolve
  cases cfg.asyncResolve with
  | false =>
    refine (resolveBlocking_watch _ _).bind ?_
    rintro found _ rfl
    cases found with
    | none =>
      refine (failWith_watch badGateway x).conseq fun c t same => ⟨none, .failed none, fun _ => .noSocket, ?_⟩
      intro a lookup _ _
      simpa [lookup] using same
    | some endpoints =>
      refine (beginConnect_watch { x with conn := { x.conn with endpoints := endpoints, endpointIdx := 0 } }).conseq ?_
      rintro c t ⟨dial, same⟩
      refine ⟨some endpoints, .failed none, dial, fun a lookup _ dials => ?_⟩
      simpa [lookup, EvProxy.connectTo] using same a dials
  | true =>
    refine (start_watch _ _).bind ?_
    rintro status _ rfl
    cases status with
    | hit endpoints =>
      rw [startEvents, List.append_nil]
      refine (beginConnect_watch { x with conn := { x.conn with endpoints := endpoints, endpointIdx := 0 } }).conseq ?_
      rintro c t ⟨dial, same⟩
      refine ⟨none, .hit endpoints, dial, fun a _ start dials => ?_⟩
      simpa [start, EvProxy.connectTo] using same a dials
    | pending readEnd writeEnd =>
      refine .pure ⟨none, .pending readEnd writeEnd, fun _ => .noSocket, fun a _ start _ => ?_⟩
      simp [start, Mirrors, startEvents]
    | failed ends =>
      refine (failWith_watch badGateway (x.log (startEvents (.failed ends)))).conseq fun c t same =>
        ⟨none, .failed ends, fun _ => .noSocket, fun a _ start _ => ?_⟩
      rw [start]
      obtain _ | ⟨readEnd, writeEnd⟩ := ends
      · simpa [Exec.log, startEvents] using same
      · simpa [Exec.log, startEvents] using same

theorem finishResolve_watch (x : Exec) :
    Triple watch x.trace (finishResolve x.conn) fun c t => ∃ a : Answers, Mirrors (EvProxy.finishResolve a x) c t := by
  unfold finishResolve
  cases pending : x.conn.resolveJob with
  | none => exact .pure ⟨{}, by simp [EvProxy.finishResolve, pending, Mirrors]⟩
  | some job =>
    refine (watch_quiet fun _ => rfl).bind ?_
    rintro _ _ rfl
    refine (watch_quiet fun _ => rfl).bind ?_
    rintro view _ rfl
    split
    · rename_i spurious
      exact .pure ⟨{ job := view.job }, by simp [EvProxy.finishResolve, pending, spurious, Mirrors]⟩
    rename_i ready
    refine (resetJob_watch _).bind ?_
    rintro _ _ ⟨lastRef, rfl⟩
    rw [← pending]
    cases ok : view.job.ok with
    | false =>
      refine (failWith_watch badGateway (EvProxy.resetJob { lastRef := lastRef } x)).conseq fun c t same => ?_
      refine ⟨{ job := view.job, lastRef := lastRef }, ?_⟩
      simpa [EvProxy.finishResolve, EvProxy.resetJob, pending, ready, ok] using same
    | true =>
      refine (beginConnect_watch (EvProxy.resetJob { lastRef := lastRef }
        { x with conn := { x.conn with endpoints := view.job.endpoints, endpointIdx := 0 } })).conseq ?_
      rintro c t ⟨dial, same⟩
      refine ⟨{ job := view.job, lastRef := lastRef, dial := dial }, ?_⟩
      have := same { job := view.job, lastRef := lastRef, dial := dial } rfl
      simpa [EvProxy.finishResolve, EvProxy.resetJob, pending, ready, ok] using this

/-- A cache without entries, if there is a cache. -/
def emptyCache (hasCache : Bool) : Option LruCache :=
  if hasCache then some { maxEntries := 0, maxBytes := 0 } else none

theorem isSome_emptyCache (hasCache : Bool) : (emptyCache hasCache).isSome = hasCache := by cases hasCache <;> rfl

/-- A cache that holds one response. -/
def oneEntry (key response : Bytes) : LruCache := LruCache.put { maxEntries := 0, maxBytes := 0 } key response

theorem get_oneEntry (key response : Bytes) : ((oneEntry key response).get key).1 = some response := by
  have here : AList.lookup key (AList.singleton key 0 : AList fun _ : Bytes => Nat) = some 0 := by
    rw [← AList.insert_empty]
    exact AList.lookup_insert _
  simp [oneEntry, LruCache.put, LruCache.get, LruCache.evict, LruCache.overfull, LruCache.deref, here]

theorem awaitBody_watch (cfg : Config) (hasCache : Bool) (x : Exec) :
    Triple watch x.trace (awaitBody cfg hasCache x.conn) fun c t =>
      ∃ (cache : Option LruCache) (lookup : Option (List Endpoint)) (start : Start) (dial : Nat → Dial),
        cache.isSome = hasCache ∧ ∀ a : Answers, a.lookup = lookup → a.start = start → a.dial = dial →
          Mirrors (EvProxy.awaitBody cfg a { x with cache := cache }) c t := by
  unfold awaitBody
  split
  · rename_i short
    refine .pure ⟨emptyCache hasCache, none, .failed none, fun _ => .noSocket, isSome_emptyCache _, ?_⟩
    intro a _ _ _
    simp [EvProxy.awaitBody, short, Mirrors]
  rename_i long
  dsimp only
  split
  · rename_i use
    obtain ⟨rfl, cacheable⟩ := use
    generalize keyed : cacheKey x.conn.req.method x.conn.req.host x.conn.req.port x.conn.req.path = key
    refine (watch_ask (R := fun r t' => t' = x.trace ++ shown (.cacheGet key, r)) fun _ _ => rfl).bind ?_
    rintro got _ rfl
    -- The shared cache may hold anything by now; one that gives this reply will do.
    split
    · rename_i found
      refine (failWith_watch got.data ⟨_, some ((oneEntry key got.data).get key).2, _⟩).conseq fun c t same =>
        ⟨some (oneEntry key got.data), none, .failed none, fun _ => .noSocket, rfl, ?_⟩
      intro a _ _ _
      simp only [EvProxy.awaitBody, if_neg long, if_pos cacheable, keyed, get_oneEntry]
      simpa [shown, found, Exec.log] using same
    · rename_i absent
      refine (beginResolve_watch cfg ⟨_, some (LruCache.get { maxEntries := 0, maxBytes := 0 } key).2, _⟩).conseq ?_
      rintro c t ⟨lookup, start, dial, same⟩
      refine ⟨emptyCache true, lookup, start, dial, rfl, fun a lookups starts dials => ?_⟩
      have mirrored := same a lookups starts dials
      simp only [EvProxy.awaitBody, if_neg long, if_pos cacheable, keyed, emptyCache, if_true]
      simpa [shown, absent, Exec.log, LruCache.get] using mirrored
  · rename_i skip
    refine (beginResolve_watch cfg ⟨_, emptyCache hasCache, _⟩).conseq ?_
    rintro c t ⟨lookup, start, dial, same⟩
    refine ⟨emptyCache hasCache, lookup, start, dial, isSome_emptyCache _, fun a lookups starts dials => ?_⟩
    have mirrored := same a lookups starts dials
    cases hasCache with
    | false => simpa [EvProxy.awaitBody, if_neg long, emptyCache] using mirrored
    | true =>
      have private_ : ¬ cacheableRequest cfg x.conn.req = true := fun yes => skip ⟨rfl, yes⟩
      simpa [EvProxy.awaitBody, if_neg long, if_neg private_, emptyCache] using mirrored

theorem doReadClient_watch (cfg : Config) (hasCache : Bool) (x : Exec) :
    Triple watch x.trace (doReadClient cfg hasCache x.conn) fun c t =>
      ∃ (a : Answers) (cache : Option LruCache), cache.isSome = hasCache ∧
        Mirrors (EvProxy.doReadClient cfg a { x with cache := cache }) c t := by
  refine (readSome_watch .client x.conn.client (chunk cfg)).bind ?_
  rintro ⟨status, data⟩ _ ⟨recv, read, rfl⟩
  have gone (ended : status = .error ∨ status = .closed) : Triple watch (x.trace ++ [.clientGone]) (finish x.conn)
      fun c t => ∃ (a : Answers) (cache : Option LruCache), cache.isSome = hasCache ∧
        Mirrors (EvProxy.doReadClient cfg a { x with cache := cache }) c t := by
    refine (finish_watch ⟨x.conn, emptyCache hasCache, x.trace ++ [.clientGone]⟩).conseq ?_
    rintro c t ⟨lastRef, same⟩
    refine ⟨{ recv := recv, lastRef := lastRef }, emptyCache hasCache, isSome_emptyCache _, ?_⟩
    have mirrored := same { recv := recv, lastRef := lastRef } rfl
    rcases ended with rfl | rfl <;> simpa [EvProxy.doReadClient, ← read, Exec.log] using mirrored
  cases status with
  | wouldBlock =>
    refine .pure ⟨{ recv := recv }, emptyCache hasCache, isSome_emptyCache _, ?_⟩
    simp [EvProxy.doReadClient, ← read, Mirrors, recvEvents]
  | error => exact gone (Or.inl rfl)
  | closed => exact gone (Or.inr rfl)
  | ok =>
    dsimp only [recvEvents]
    split
    · rename_i parsed
      refine (awaitBody_watch cfg hasCache ⟨_, none, _⟩).conseq ?_
      rintro c t ⟨cache, lookup, start, dial, some_, same⟩
      refine ⟨{ recv := recv, lookup := lookup, start := start, dial := dial }, cache, some_, ?_⟩
      have mirrored := same { recv := recv, lookup := lookup, start := start, dial := dial } rfl rfl rfl
      simpa [EvProxy.doReadClient, ← read, parsed] using mirrored
    rename_i unparsed
    have refuse (response : Bytes) (req : Request)
        (refused : ∀ (a : Answers) (cache : Option LruCache), a.recv = recv →
          EvProxy.doReadClient cfg a { x with cache := cache } = EvProxy.failWith response
            ⟨{ x.conn with inClient := x.conn.inClient ++ data, req := req }, cache, x.trace ++ [.recvClient data]⟩) :
        Triple watch (x.trace ++ [.recvClient data])
          (failWith response { x.conn with inClient := x.conn.inClient ++ data, req := req }) fun c t =>
            ∃ (a : Answers) (cache : Option LruCache), cache.isSome = hasCache ∧
              Mirrors (EvProxy.doReadClient cfg a { x with cache := cache }) c t := by
      refine (failWith_watch response ⟨_, emptyCache hasCache, _⟩).conseq fun c t same => ?_
      exact ⟨{ recv := recv }, emptyCache hasCache, isSome_emptyCache _, by rw [refused _ _ rfl]; exact same⟩
    generalize parse : parseRequest (x.conn.inClient ++ data) x.conn.req = result
    obtain ⟨verdict, req⟩ := result
    cases verdict with
    | incomplete =>
      simp only [List.length_append]
      split
      · rename_i long
        refine refuse badRequest req fun a cache same => ?_
        simp [EvProxy.doReadClient, same, ← read, unparsed, parse, long]
      · rename_i short
        refine .pure ⟨{ recv := recv }, emptyCache hasCache, isSome_emptyCache _, ?_⟩
        simp [EvProxy.doReadClient, ← read, unparsed, parse, short, Mirrors]
    | badRequest =>
      refine refuse badRequest req fun a cache same => ?_
      simp [EvProxy.doReadClient, same, ← read, unparsed, parse]
    | notImplemented =>
      refine refuse notImplemented req fun a cache same => ?_
      simp [EvProxy.doReadClient, same, ← read, unparsed, parse]
    | ok =>
      dsimp only
      split
      · rename_i large
        refine refuse payloadTooLarge req fun a cache same => ?_
        simp [EvProxy.doReadClient, same, ← read, unparsed, parse, large]
      · rename_i small
        refine (awaitBody_watch cfg hasCache ⟨_, none, _⟩).conseq ?_
        rintro c t ⟨cache, lookup, start, dial, some_, same⟩
        refine ⟨{ recv := recv, lookup := lookup, start := start, dial := dial }, cache, some_, ?_⟩
        have mirrored := same { recv := recv, lookup := lookup, start := start, dial := dial } rfl rfl rfl
        simpa [EvProxy.doReadClient, ← read, unparsed, parse, small] using mirrored

theorem doWriteUpstream_watch (x : Exec) :
    Triple watch x.trace (doWriteUpstream x.conn) fun c t =>
      ∃ a : Answers, Mirrors (EvProxy.doWriteUpstream a x) c t := by
  refine (writeSome_watch .upstream x.conn.upstream (x.conn.outUpstream.drop x.conn.outUpstreamOff)).bind ?_
  rintro ⟨status, n⟩ _ ⟨send, wrote, rfl⟩
  rw [List.length_drop] at wrote
  have failed (status_ : status = .error ∨ status = .closed) :
      Triple watch (x.trace ++ [.upstreamSendFailed]) (failWith badGateway x.conn) fun c t =>
        ∃ a : Answers, Mirrors (EvProxy.doWriteUpstream a x) c t := by
    refine (failWith_watch badGateway ⟨x.conn, x.cache, x.trace ++ [.upstreamSendFailed]⟩).conseq fun c t same => ?_
    refine ⟨{ send := send }, ?_⟩
    rcases status_ with rfl | rfl <;> simpa [EvProxy.doWriteUpstream, ← wrote, Exec.log] using same
  cases status with
  | wouldBlock => exact .pure ⟨{ send := send }, by simp [EvProxy.doWriteUpstream, ← wrote, Mirrors, sendEvents]⟩
  | error => exact failed (Or.inl rfl)
  | closed => exact failed (Or.inr rfl)
  | ok =>
    dsimp only [sendEvents]
    split
    · rename_i more
      refine .pure ⟨{ send := send }, ?_⟩
      simp [EvProxy.doWriteUpstream, ← wrote, Mirrors, Exec.log, substr, more]
    · rename_i whole
      refine .pure ⟨{ send := send }, ?_⟩
      simp [EvProxy.doWriteUpstream, ← wrote, Mirrors, Exec.log, substr, whole]

theorem doWriteClient_watch (x : Exec) :
    Triple watch x.trace (doWriteClient x.conn) fun c t =>
      ∃ a : Answers, Mirrors (EvProxy.doWriteClient a x) c t := by
  refine (writeSome_watch .client x.conn.client (x.conn.outClient.drop x.conn.outClientOff)).bind ?_
  rintro ⟨status, n⟩ _ ⟨send, wrote, rfl⟩
  rw [List.length_drop] at wrote
  have failed (status_ : status = .error ∨ status = .closed) :
      Triple watch (x.trace ++ [.clientSendFailed]) (finish x.conn) fun c t =>
        ∃ a : Answers, Mirrors (EvProxy.doWriteClient a x) c t := by
    refine (finish_watch ⟨x.conn, x.cache, x.trace ++ [.clientSendFailed]⟩).conseq ?_
    rintro c t ⟨lastRef, same⟩
    refine ⟨{ send := send, lastRef := lastRef }, ?_⟩
    have mirrored := same { send := send, lastRef := lastRef } rfl
    rcases status_ with rfl | rfl <;> simpa [EvProxy.doWriteClient, ← wrote, Exec.log] using mirrored
  cases status with
  | wouldBlock => exact .pure ⟨{ send := send }, by simp [EvProxy.doWriteClient, ← wrote, Mirrors, sendEvents]⟩
  | error => exact failed (Or.inl rfl)
  | closed => exact failed (Or.inr rfl)
  | ok =>
    dsimp only [sendEvents]
    split
    · rename_i more
      refine .pure ⟨{ send := send }, ?_⟩
      simp [EvProxy.doWriteClient, ← wrote, Mirrors, Exec.log, substr, more]
    rename_i whole
    split
    · rename_i last
      refine (finish_watch ⟨_, x.cache, _⟩).conseq ?_
      rintro c t ⟨lastRef, same⟩
      refine ⟨{ send := send, lastRef := lastRef }, ?_⟩
      have mirrored := same { send := send, lastRef := lastRef } rfl
      simpa [EvProxy.doWriteClient, ← wrote, Exec.log, substr, whole, last] using mirrored
    · rename_i open_
      refine .pure ⟨{ send := send }, ?_⟩
      simp [EvProxy.doWriteClient, ← wrote, Mirrors, Exec.log, substr, whole, open_]

theorem storeInCache_watch (hasCache : Bool) (x : Exec) (same : x.cache = emptyCache hasCache) :
    Triple watch x.trace (storeInCache hasCache x.conn) fun _ t => Mirrors (EvProxy.storeInCache x) x.conn t := by
  obtain ⟨c, _, t⟩ := x
  cases same
  cases hasCache with
  | false => exact .pure ⟨rfl, rfl⟩
  | true =>
    simp only [storeInCache, EvProxy.storeInCache, Bool.not_true, Bool.false_eq_true, false_or]
    split
    · exact .pure ⟨rfl, rfl⟩
    split
    · exact .pure ⟨rfl, rfl⟩
    split
    · exact .pure ⟨rfl, rfl⟩
    · exact (watch_ask (R := fun _ t' => t' = t ++ [.cachePut c.cacheKey c.cacheAccum]) fun _ _ => rfl).bind
        fun _ _ stored => .pure ⟨rfl, stored⟩

theorem doReadUpstream_watch (cfg : Config) (hasCache : Bool) (x : Exec) (held : x.cache = emptyCache hasCache) :
    Triple watch x.trace (doReadUpstream cfg hasCache x.conn) fun c t =>
      ∃ a : Answers, Mirrors (EvProxy.doReadUpstream cfg a x) c t := by
  refine (readSome_watch .upstream x.conn.upstream (chunk cfg)).bind ?_
  rintro ⟨status, data⟩ _ ⟨recv, read, rfl⟩
  cases status with
  | wouldBlock => exact .pure ⟨{ recv := recv }, by simp [EvProxy.doReadUpstream, ← read, Mirrors, recvEvents]⟩
  | error =>
    refine (finish_watch ⟨x.conn, x.cache, x.trace ++ [.upstreamRecvFailed]⟩).conseq ?_
    rintro c t ⟨lastRef, same⟩
    refine ⟨{ recv := recv, lastRef := lastRef }, ?_⟩
    have mirrored := same { recv := recv, lastRef := lastRef } rfl
    simpa [EvProxy.doReadUpstream, ← read, Exec.log] using mirrored
  | ok => exact .pure ⟨{ recv := recv }, by simp [EvProxy.doReadUpstream, ← read, Mirrors, recvEvents]⟩
  | closed =>
    refine (reset_watch _).bind ?_
    rintro _ _ rfl
    -- Both models go on from the connection they had at the call of `store_in_cache`.
    let y := EvProxy.resetUpstream ⟨{ x.conn with upstreamEof := true }, x.cache, x.trace ++ [.upstreamEof]⟩
    refine (storeInCache_watch hasCache y held).bind ?_
    rintro _ _ ⟨kept, rfl⟩
    split
    · rename_i flushed
      have over_ := finish_watch (EvProxy.storeInCache y)
      rw [← kept] at over_
      refine over_.conseq ?_
      rintro c t ⟨lastRef, same⟩
      refine ⟨{ recv := recv, lastRef := lastRef }, ?_⟩
      have mirrored := same { recv := recv, lastRef := lastRef } rfl
      have flushed_ : (EvProxy.storeInCache y).conn.outClient.length ≤ (EvProxy.storeInCache y).conn.outClientOff := by
        rw [← kept]
        exact flushed
      simp only [EvProxy.doReadUpstream, ← read]
      exact (if_pos flushed_).symm ▸ mirrored
    · rename_i pending
      have pending_ :
          ¬ (EvProxy.storeInCache y).conn.outClient.length ≤ (EvProxy.storeInCache y).conn.outClientOff := by
        rw [← kept]
        exact pending
      refine .pure ⟨{ recv := recv }, ?_⟩
      simp only [EvProxy.doReadUpstream, ← read]
      refine (if_neg pending_).symm ▸ ⟨?_, rfl⟩
      exact congrArg (Connection.setWant · .writeClient) kept

/-- **Every transcript of `on_ready()` is a call of the other model**, with the events it shows. -/
theorem onReady_watch (cfg : Config) (hasCache : Bool) (c : Connection) (t : List Event) :
    Triple watch t (onReady cfg hasCache c) fun c' t' =>
      ∃ (a : Answers) (cache : Option LruCache), cache.isSome = hasCache ∧
        Mirrors (EvProxy.onReady cfg a ⟨c, cache, t⟩) c' t' := by
  have plain {p : Sys Connection} {h : Answers → Exec → Exec}
      (done : Triple watch t p fun c' t' => ∃ a, Mirrors (h a ⟨c, emptyCache hasCache, t⟩) c' t') :
      Triple watch t p fun c' t' => ∃ (a : Answers) (cache : Option LruCache), cache.isSome = hasCache ∧
        Mirrors (h a ⟨c, cache, t⟩) c' t' :=
    done.conseq fun _ _ ⟨a, same⟩ => ⟨a, _, isSome_emptyCache _, same⟩
  cases want : c.want with
  | readClient =>
    simp only [onReady, EvProxy.onReady, want]
    exact doReadClient_watch cfg hasCache ⟨c, none, t⟩
  | writeClient =>
    simp only [onReady, EvProxy.onReady, want]
    exact plain (doWriteClient_watch ⟨c, _, t⟩)
  | readUpstream =>
    simp only [onReady, EvProxy.onReady, want]
    exact plain (doReadUpstream_watch cfg hasCache ⟨c, _, t⟩ rfl)
  | readResolver =>
    simp only [onReady, EvProxy.onReady, want]
    exact plain (finishResolve_watch ⟨c, _, t⟩)
  | writeUpstream =>
    simp only [onReady, EvProxy.onReady, want]
    split
    · exact plain (finishConnect_watch ⟨c, _, t⟩)
    · exact plain (doWriteUpstream_watch ⟨c, _, t⟩)
  | none =>
    simp only [onReady, EvProxy.onReady, want]
    refine plain ((finish_watch ⟨c, emptyCache hasCache, t⟩).conseq ?_)
    rintro _ _ ⟨lastRef, same⟩
    exact ⟨{ lastRef := lastRef }, same _ rfl⟩

end Handlers

end EvProxy.Kernel
