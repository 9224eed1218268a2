import EvProxy.Proxy.Coherence
import EvProxy.Socket.Refinement

/-!
# The two models of a connection agree

The other direction of `Socket.Refinement`: whatever the world may answer in
`Conn.Handlers` comes about in some transcript, so the coarser model allows
nothing that the calls do not. Over the whole life of a connection on a thread of
its own the two show the same histories.
-/

namespace EvProxy.Kernel
open Dialogue Runs Text

/-- Some transcript that the kernel may give returns `a` and shows `events`. -/
def Realizes {α : Type} (p : Sys α) (a : α) (events : List Event) : Prop :=
  ∃ log, Can p log a ∧ (∀ e ∈ log, Fits e.1 e.2) ∧ log.flatMap shown = events

section Rules
variable {α β : Type}

theorem realizes_pure (a : α) : Realizes (pure a : Sys α) a [] := ⟨[], can_pure a, by simp, rfl⟩

theorem Realizes.bind {p : Sys α} {f : α → Sys β} {a : α} {b : β} {events more : List Event}
    (first : Realizes p a events) (second : Realizes (f a) b more) : Realizes (p >>= f) b (events ++ more) := by
  obtain ⟨log, can, fits, rfl⟩ := first
  obtain ⟨log', can', fits', rfl⟩ := second
  exact ⟨log ++ log', can.bind can', List.forall_mem_append.mpr ⟨fits, fits'⟩, List.flatMap_append⟩

/-- A step that shows nothing. -/
theorem Realizes.then {p : Sys α} {f : α → Sys β} {a : α} {b : β} {events : List Event} (first : Realizes p a [])
    (second : Realizes (f a) b events) : Realizes (p >>= f) b events := first.bind second

/-- A last step that shows nothing. -/
theorem Realizes.last {p : Sys α} {f : α → Sys β} {a : α} {b : β} {events : List Event} (first : Realizes p a events)
    (second : Realizes (f a) b []) : Realizes (p >>= f) b events := by
  have both := first.bind second
  rwa [List.append_nil] at both

theorem realizes_askUntil {q : Query} {settle : Reply → Option α} (r : Reply) {a : α} (settled : settle r = some a)
    (fits : Fits q r) : Realizes (askUntil q settle) a (shown (q, r)) :=
  ⟨[(q, r)], can_askUntil settled, by simpa using fits, by simp⟩

theorem realizes_ask {q : Query} (r : Reply) (fits : Fits q r) : Realizes (ask q) r (shown (q, r)) :=
  realizes_askUntil r rfl fits

/-- An `if` whose condition is known. -/
theorem Realizes.of_pos {c : Prop} [Decidable c] {p q : Sys α} {a : α} {events : List Event} (holds : c)
    (h : Realizes p a events) : Realizes (if c then p else q) a events := by rwa [if_pos holds]

theorem Realizes.of_neg {c : Prop} [Decidable c] {p q : Sys α} {a : α} {events : List Event} (fails : ¬ c)
    (h : Realizes q a events) : Realizes (if c then p else q) a events := by rwa [if_neg fails]

end Rules

/-! ## The calls of `socket.cpp` -/

theorem reset_realized (fd : Fd) : Realizes (reset fd) () (closing fd) := by
  cases fd with
  | none => exact realizes_pure ()
  | some n => exact (realizes_ask {} (by trivial)).last (realizes_pure ())

theorem setNonblocking_realized (fd : Nat) (ok : Bool) : Realizes (setNonblocking fd) ok [] := by
  cases ok with
  | true =>
    exact (realizes_ask {} (by trivial)).then
      (.of_neg (by decide) ((realizes_ask {} (by trivial)).then (realizes_pure _)))
  | false => exact (realizes_ask { ret := -1 } (by trivial)).then (.of_pos (by decide) (realizes_pure false))

theorem readSome_realized (side : Side) (fd : Fd) (len : Nat) (recv : Recv) :
    Realizes (readSome side fd len) (EvProxy.readSome len recv) (recvEvents side (EvProxy.readSome len recv)) := by
  have via (r : Reply) {result : IoStatus × Bytes} (settled : recvSettle r = some result)
      (fits : Fits (.recv side fd len) r) : Realizes (readSome side fd len) result (recvEvents side result) := by
    have done := realizes_askUntil (q := .recv side fd len) r settled fits
    rwa [shown, settled] at done
  cases recv with
  | wouldBlock => exact via { ret := -1, errno := .eagain } rfl ⟨show (-1 : Int) ≤ len by omega, by decide⟩
  | error => exact via { ret := -1 } rfl ⟨show (-1 : Int) ≤ len by omega, by decide⟩
  | bytes available =>
    by_cases none_ : available.take len = []
    · refine via {} ?_ ⟨by simp, by decide⟩
      rw [EvProxy.readSome, if_pos none_]
      rfl
    · have positive : 0 < (available.take len).length := List.length_pos_iff.mpr none_
      refine via { ret := (available.take len).length, data := available.take len } ?_ ⟨?_, fun _ => rfl⟩
      · rw [EvProxy.readSome, if_neg none_, recvSettle, if_pos (by simpa using positive)]
        simp only [Int.toNat_natCast, List.take_length]
      · exact Int.ofNat_le.mpr (List.length_take_le len available)

theorem writeSome_realized (side : Side) (fd : Fd) (data : Bytes) (send : Send) :
    Realizes (writeSome side fd data) (EvProxy.writeSome data.length send)
      (sendEvents fd data side (EvProxy.writeSome data.length send)) := by
  have via (r : Reply) {result : IoStatus × Nat} (settled : sendSettle r = some result)
      (fits : Fits (.send side fd data) r) :
      Realizes (writeSome side fd data) result (sendEvents fd data side result) := by
    have done := realizes_askUntil (q := .send side fd data) r settled fits
    rwa [shown, settled] at done
  cases send with
  | wouldBlock => exact via { ret := -1, errno := .eagain } rfl (show (-1 : Int) ≤ data.length by omega)
  | error => exact via { ret := -1 } rfl (show (-1 : Int) ≤ data.length by omega)
  | accepts n =>
    refine via { ret := (min n data.length : Nat) } ?_ (show ((min n data.length : Nat) : Int) ≤ data.length by omega)
    rw [sendSettle, if_pos (by simp)]
    rfl

theorem waitReady_realized (fd : Nat) (forWrite : Bool) (timeout : Int) (ready : Bool) :
    Realizes (waitReady fd forWrite timeout) ready [] := by
  cases ready with
  | true => exact realizes_askUntil { ret := 1 } rfl trivial
  | false => exact realizes_askUntil {} rfl trivial

theorem startConnect_realized (endpoint : Endpoint) (dial : Dial) :
    Realizes (startConnect endpoint) ((EvProxy.startConnect endpoint dial).1, (EvProxy.startConnect endpoint dial).2.1)
      (EvProxy.startConnect endpoint dial).2.2 := by
  have opened {fd : Nat} {result : ConnectStatus × Fd} {events : List Event} (nonblocking : Bool)
      (later : Realizes (if !nonblocking then do reset (some fd); pure (ConnectStatus.failed, none)
        else do
          let rc ← ask (.connect fd endpoint)
          if rc.ret = 0 then pure (ConnectStatus.connected, some fd)
          else if rc.errno = .einprogress ∨ rc.errno = .eintr then pure (ConnectStatus.inProgress, some fd)
          else do reset (some fd); pure (ConnectStatus.failed, none)) result events) :
      Realizes (startConnect endpoint) result (.attempt endpoint :: .opened fd :: events) :=
    (realizes_ask { ret := fd } (by trivial)).bind (.of_neg (by simp)
      ((realizes_ask {} (by trivial)).then ((setNonblocking_realized fd nonblocking).then later)))
  have close (fd : Nat) : Realizes (do reset (some fd); pure (ConnectStatus.failed, (none : Fd))) (.failed, none)
      [.closed fd] := (reset_realized (some fd)).last (realizes_pure _)
  cases dial with
  | noSocket => exact (realizes_ask { ret := -1 } (by trivial)).last (.of_pos (by decide) (realizes_pure _))
  | noNonblock fd => exact opened false (close fd)
  | connected fd => exact opened true ((realizes_ask {} (by trivial)).last (realizes_pure _))
  | inProgress fd =>
    exact opened true ((realizes_ask { ret := -1, errno := .einprogress } (by trivial)).then (realizes_pure _))
  | refused fd =>
    refine opened true (Realizes.then (realizes_ask { ret := -1 } (by trivial)) ?_)
    exact close fd

theorem connectSucceeded_realized (fd : Fd) (ok : Bool) :
    Realizes (connectSucceeded fd) ok (if ok then [.connected fd] else []) := by
  cases ok with
  | true => exact (realizes_ask {} (by trivial)).last (realizes_pure _)
  | false => exact (realizes_ask { ret := -1 } (by trivial)).then (realizes_pure _)

/-! ## The handlers -/

/-- The program makes the step of the other model from `x` to `x'`. -/
def Makes (p : Sys Connection) (x x' : Exec) : Prop :=
  ∃ events, Realizes p x'.conn events ∧ x'.trace = x.trace ++ events

theorem resetJob_realized (lastRef : Bool) (job : Option ResolveJob) :
    Realizes (resetJob job) () (releasing lastRef job) := by
  cases job with
  | none => exact realizes_pure ()
  | some job =>
    cases lastRef with
    | true =>
      refine Realizes.then (realizes_ask { ret := 1 } (by trivial)) ?_
      exact reset_realized (some job.readEnd)
    | false => exact (realizes_ask {} (by trivial)).last (realizes_pure ())

theorem failWith_realized (response : Bytes) (c : Connection) :
    Realizes (failWith response c) (c.failed response) (closing c.upstream) :=
  (reset_realized _).last (realizes_pure _)

theorem finish_realized (c : Connection) (lastRef : Bool) :
    Realizes (finish c) c.finished (c.finishEvents lastRef) := by
  rw [Connection.finishEvents, List.append_assoc]
  refine (resetJob_realized lastRef c.resolveJob).bind ?_
  refine (reset_realized c.upstream).bind ?_
  exact (reset_realized c.client).last (realizes_pure c.finished)

theorem failWith_makes (response : Bytes) (x : Exec) :
    Makes (failWith response x.conn) x (EvProxy.failWith response x) := by
  rw [failWith_eq]
  exact ⟨_, failWith_realized response x.conn, rfl⟩

theorem finish_makes (a : Answers) (x : Exec) : Makes (finish x.conn) x (EvProxy.finish a x) := by
  rw [finish_eq]
  exact ⟨_, finish_realized x.conn a.lastRef, rfl⟩

/-- A program that first shows some events. -/
theorem Makes.after {α : Type} {p : Sys α} {f : α → Sys Connection} {a : α} {x y z : Exec} {events : List Event}
    (first : Realizes p a events) (shows : y.trace = x.trace ++ events) (second : Makes (f a) y z) :
    Makes (p >>= f) x z := by
  obtain ⟨more, realized, trace⟩ := second
  exact ⟨events ++ more, first.bind realized, by rw [trace, shows, List.append_assoc]⟩

/-- A program whose last step shows some events. -/
theorem Makes.last {α : Type} {p : Sys α} {a : α} {c : Connection} {x x' : Exec} {events : List Event}
    (first : Realizes p a events) (conn : c = x'.conn) (trace : x'.trace = x.trace ++ events) :
    Makes (p >>= fun _ => pure c) x x' :=
  ⟨events, first.last (conn ▸ realizes_pure c), trace⟩

theorem makes_pure {x x' : Exec} {c : Connection} (conn : c = x'.conn) (trace : x'.trace = x.trace) :
    Makes (pure c) x x' :=
  ⟨[], conn ▸ realizes_pure c, by rw [trace, List.append_nil]⟩

theorem connectLoop_makes (a : Answers) (eps : List Endpoint) (x : Exec) :
    Makes (connectLoop eps x.conn) x (EvProxy.connectLoop a eps x) := by
  induction eps generalizing x with
  | nil => exact failWith_makes badGateway x
  | cons endpoint rest ih =>
    generalize outcome : a.dial x.conn.endpointIdx = dial
    rw [EvProxy.connectLoop, outcome]
    let y : Exec := { x with
      conn := { x.conn with endpointIdx := x.conn.endpointIdx + 1 }
      trace := x.trace ++ (EvProxy.startConnect endpoint dial).2.2 }
    refine Makes.after (y := y) (startConnect_realized endpoint dial) rfl ?_
    dsimp only
    cases (EvProxy.startConnect endpoint dial).1 with
    | failed => exact ih y
    | connected | inProgress => exact Makes.last (reset_realized _) rfl rfl

theorem beginConnect_makes (a : Answers) (x : Exec) : Makes (beginConnect x.conn) x (EvProxy.beginConnect a x) :=
  connectLoop_makes a _ x

theorem finishConnect_makes (a : Answers) (x : Exec) : Makes (finishConnect x.conn) x (EvProxy.finishConnect a x) := by
  unfold EvProxy.finishConnect
  cases ok : a.connectOk with
  | true =>
    refine ⟨_, (connectSucceeded_realized _ true).last ?_, rfl⟩
    exact realizes_pure _
  | false =>
    refine .after (y := x) (connectSucceeded_realized _ false) (List.append_nil _).symm ?_
    refine .after (y := EvProxy.resetUpstream x) (reset_realized _) rfl ?_
    exact beginConnect_makes a (EvProxy.resetUpstream x)

theorem makePipe_realized (ends : Nat × Nat) (set : Bool) :
    Realizes makePipe (set, some ends) [.opened ends.1, .opened ends.2] := by
  refine Realizes.last (realizes_ask { ends := ends } (by trivial)) ?_
  exact (setNonblocking_realized _ set).then (realizes_pure _)

theorem destroyJob_realized (ends : Nat × Nat) :
    Realizes (destroyJob ends) () [.closed ends.2, .closed ends.1] :=
  (reset_realized (some ends.2)).bind (reset_realized (some ends.1))

theorem start_realized (host port : Bytes) (st : Start) : Realizes (start host port) st (startEvents st) := by
  cases st with
  | hit endpoints =>
    exact Realizes.then (realizes_ask { ret := 1, addresses := endpoints } (by trivial)) (realizes_pure _)
  | pending readEnd writeEnd =>
    refine Realizes.then (realizes_ask {} (by trivial)) ?_
    refine Realizes.bind (makePipe_realized (readEnd, writeEnd) true) ?_
    exact Realizes.last (realizes_ask { ret := 1 } (by trivial)) (realizes_pure _)
  | failed ends =>
    refine Realizes.then (realizes_ask {} (by trivial)) ?_
    cases ends with
    | none =>
      refine Realizes.then (a := (false, none)) ?_ (realizes_pure _)
      exact Realizes.then (realizes_ask { ret := -1 } (by trivial)) (realizes_pure _)
    | some ends =>
      refine Realizes.bind (makePipe_realized ends false) ?_
      exact Realizes.last (destroyJob_realized ends) (realizes_pure _)

theorem resolveBlocking_realized (host port : Bytes) (lookup : Option (List Endpoint)) :
    Realizes (resolveBlocking host port) lookup [] := by
  cases lookup with
  | some endpoints =>
    exact Realizes.then (realizes_ask { ret := 1, addresses := endpoints } (by trivial)) (realizes_pure _)
  | none =>
    refine Realizes.then (realizes_ask {} (by trivial)) ?_
    refine Realizes.then (a := none) ?_ (realizes_pure _)
    exact Realizes.then (realizes_ask { ret := 1 } (by trivial)) (realizes_pure _)

theorem beginResolve_makes (cfg : Config) (a : Answers) (x : Exec) :
    Makes (beginResolve cfg x.conn) x (EvProxy.beginResolve cfg a x) := by
  unfold beginResolve EvProxy.beginResolve
  cases cfg.asyncResolve with
  | false =>
    refine .after (y := x) (resolveBlocking_realized _ _ a.lookup) (List.append_nil _).symm ?_
    cases a.lookup with
    | none => exact failWith_makes badGateway x
    | some endpoints =>
      exact beginConnect_makes a { x with conn := { x.conn with endpoints := endpoints, endpointIdx := 0 } }
  | true =>
    refine .after (y := x.log (startEvents a.start)) (start_realized _ _ a.start) rfl ?_
    cases a.start with
    | hit endpoints =>
      obtain ⟨events, realized, trace⟩ :=
        beginConnect_makes a { x with conn := { x.conn with endpoints := endpoints, endpointIdx := 0 } }
      exact ⟨events, realized, by rw [Exec.log, startEvents, List.append_nil]; exact trace⟩
    | pending readEnd writeEnd => exact makes_pure rfl rfl
    | failed ends =>
      obtain ⟨events, realized, trace⟩ := failWith_makes badGateway (x.log (startEvents (.failed ends)))
      obtain _ | ⟨readEnd, writeEnd⟩ := ends
      · exact ⟨events, realized, by simpa [Exec.log, startEvents, failWith_eq] using trace⟩
      · exact ⟨events, realized, trace⟩

theorem finishResolve_makes (a : Answers) (x : Exec) : Makes (finishResolve x.conn) x (EvProxy.finishResolve a x) := by
  unfold finishResolve EvProxy.finishResolve
  cases pending : x.conn.resolveJob with
  | none => exact makes_pure rfl rfl
  | some job =>
    refine .after (y := x) (realizes_ask {} (by trivial)) (List.append_nil _).symm ?_
    refine .after (y := x) (realizes_ask { job := a.job } (by trivial)) (List.append_nil _).symm ?_
    dsimp only
    split
    · exact makes_pure rfl rfl
    have dropped : x.trace ++ releasing a.lastRef (some job) = (EvProxy.resetJob a x).trace := by
      rw [EvProxy.resetJob, pending]
    cases ok : a.job.ok with
    | false =>
      refine .after (y := EvProxy.resetJob a x) (resetJob_realized a.lastRef _) dropped.symm ?_
      exact failWith_makes badGateway (EvProxy.resetJob a x)
    | true =>
      let y : Exec := { x with conn := { x.conn with endpoints := a.job.endpoints, endpointIdx := 0 } }
      refine .after (y := EvProxy.resetJob a y) (resetJob_realized a.lastRef _) dropped.symm ?_
      exact beginConnect_makes a (EvProxy.resetJob a y)

theorem awaitBody_makes (cfg : Config) (a : Answers) (x : Exec) :
    Makes (awaitBody cfg x.cache.isSome x.conn) x (EvProxy.awaitBody cfg a x) := by
  obtain ⟨c, cache, t⟩ := x
  simp only [awaitBody, EvProxy.awaitBody]
  split
  · exact makes_pure rfl rfl
  cases cache with
  | none =>
    simp only [Option.isSome_none, Bool.false_eq_true, false_and, if_false]
    exact beginResolve_makes cfg a ⟨_, none, t⟩
  | some cache =>
    by_cases cacheable : cacheableRequest cfg c.req = true
    · simp only [Option.isSome_some, true_and, if_pos cacheable]
      generalize cacheKey c.req.method c.req.host c.req.port c.req.path = key
      let y (event : Event) : Exec := ⟨{ c with
        outUpstream := buildUpstreamRequest c.req (substr c.inClient c.req.headerBytes c.req.contentLength)
        outUpstreamOff := 0, cacheKey := key }, some (cache.get key).2, t ++ [event]⟩
      cases got : (cache.get key).1 with
      | some response =>
        refine .after (y := y (.cacheHit key response))
          (realizes_ask (q := .cacheGet key) { ret := 1, data := response } (by trivial)) rfl ?_
        rw [if_pos (show (1 : Int) ≠ 0 by decide)]
        exact failWith_makes response (y (.cacheHit key response))
      | none =>
        refine .after (y := y (.cacheMiss key)) (realizes_ask (q := .cacheGet key) {} (by trivial)) rfl ?_
        rw [if_neg (show ¬ (0 : Int) ≠ 0 by decide)]
        exact beginResolve_makes cfg a (y (.cacheMiss key))
    · simp only [Option.isSome_some, true_and, if_neg cacheable]
      exact beginResolve_makes cfg a ⟨_, some cache, t⟩

theorem doReadClient_makes (cfg : Config) (a : Answers) (x : Exec) :
    Makes (doReadClient cfg x.cache.isSome x.conn) x (EvProxy.doReadClient cfg a x) := by
  unfold doReadClient EvProxy.doReadClient
  generalize read : EvProxy.readSome (chunk cfg) a.recv = r
  have first := readSome_realized .client x.conn.client (chunk cfg) a.recv
  rw [read] at first
  obtain ⟨status, data⟩ := r
  cases status with
  | wouldBlock => exact .after (y := x) first (List.append_nil _).symm (makes_pure rfl rfl)
  | error => exact .after (y := x.log [.clientGone]) first rfl (finish_makes a (x.log [.clientGone]))
  | closed => exact .after (y := x.log [.clientGone]) first rfl (finish_makes a (x.log [.clientGone]))
  | ok =>
    let y : Exec := { x with
      conn := { x.conn with inClient := x.conn.inClient ++ data }
      trace := x.trace ++ [.recvClient data] }
    refine .after (y := y) first rfl ?_
    dsimp only
    split
    · exact awaitBody_makes cfg a y
    generalize parseRequest (x.conn.inClient ++ data) x.conn.req = result
    obtain ⟨verdict, req⟩ := result
    let z : Exec := { y with conn := { y.conn with req := req } }
    cases verdict with
    | incomplete =>
      dsimp only
      split
      · exact failWith_makes badRequest z
      · exact makes_pure rfl rfl
    | badRequest => exact failWith_makes badRequest z
    | notImplemented => exact failWith_makes notImplemented z
    | ok =>
      dsimp only
      split
      · exact failWith_makes payloadTooLarge z
      · exact awaitBody_makes cfg a { z with conn := { z.conn with parsed := true } }

theorem doWriteUpstream_makes (a : Answers) (x : Exec) :
    Makes (doWriteUpstream x.conn) x (EvProxy.doWriteUpstream a x) := by
  unfold doWriteUpstream EvProxy.doWriteUpstream
  dsimp only
  have first := writeSome_realized .upstream x.conn.upstream (x.conn.outUpstream.drop x.conn.outUpstreamOff) a.send
  rw [List.length_drop] at first
  generalize EvProxy.writeSome (x.conn.outUpstream.length - x.conn.outUpstreamOff) a.send = r at first ⊢
  obtain ⟨status, n⟩ := r
  cases status with
  | wouldBlock => exact .after (y := x) first (List.append_nil _).symm (makes_pure rfl rfl)
  | error | closed =>
    exact .after (y := x.log [.upstreamSendFailed]) first rfl (failWith_makes badGateway (x.log [.upstreamSendFailed]))
  | ok =>
    refine .after (y := x.log [.sentUpstream x.conn.upstream (substr x.conn.outUpstream x.conn.outUpstreamOff n)])
      first rfl ?_
    dsimp only
    split
    · exact makes_pure rfl rfl
    · exact makes_pure rfl rfl

theorem doWriteClient_makes (a : Answers) (x : Exec) : Makes (doWriteClient x.conn) x (EvProxy.doWriteClient a x) := by
  unfold doWriteClient EvProxy.doWriteClient
  dsimp only
  have first := writeSome_realized .client x.conn.client (x.conn.outClient.drop x.conn.outClientOff) a.send
  rw [List.length_drop] at first
  generalize EvProxy.writeSome (x.conn.outClient.length - x.conn.outClientOff) a.send = r at first ⊢
  obtain ⟨status, n⟩ := r
  cases status with
  | wouldBlock => exact .after (y := x) first (List.append_nil _).symm (makes_pure rfl rfl)
  | error | closed =>
    exact .after (y := x.log [.clientSendFailed]) first rfl (finish_makes a (x.log [.clientSendFailed]))
  | ok =>
    let y : Exec := x.log [.sentClient (substr x.conn.outClient x.conn.outClientOff n)]
    refine .after (y := y) first rfl ?_
    dsimp only
    split
    · exact makes_pure rfl rfl
    split
    · exact finish_makes a { y with conn := { x.conn with outClient := [], outClientOff := 0 } }
    · exact makes_pure rfl rfl

theorem storeInCache_realized (x : Exec) :
    (EvProxy.storeInCache x).conn = x.conn ∧ ∃ events, Realizes (storeInCache x.cache.isSome x.conn) () events ∧
      (EvProxy.storeInCache x).trace = x.trace ++ events := by
  obtain ⟨c, cache, t⟩ := x
  cases cache with
  | none => exact ⟨rfl, [], realizes_pure (), (List.append_nil t).symm⟩
  | some cache =>
    simp only [storeInCache, EvProxy.storeInCache, Option.isSome_some, Bool.not_true, Bool.false_eq_true, false_or]
    split
    · exact ⟨rfl, [], realizes_pure (), (List.append_nil t).symm⟩
    split
    · exact ⟨rfl, [], realizes_pure (), (List.append_nil t).symm⟩
    split
    · exact ⟨rfl, [], realizes_pure (), (List.append_nil t).symm⟩
    · exact ⟨rfl, _, Realizes.last (realizes_ask {} (by trivial)) (realizes_pure ()), rfl⟩

theorem doReadUpstream_makes (cfg : Config) (a : Answers) (x : Exec) :
    Makes (doReadUpstream cfg x.cache.isSome x.conn) x (EvProxy.doReadUpstream cfg a x) := by
  unfold doReadUpstream EvProxy.doReadUpstream
  generalize read : EvProxy.readSome (chunk cfg) a.recv = r
  have first := readSome_realized .upstream x.conn.upstream (chunk cfg) a.recv
  rw [read] at first
  obtain ⟨status, data⟩ := r
  cases status with
  | wouldBlock => exact .after (y := x) first (List.append_nil _).symm (makes_pure rfl rfl)
  | error => exact .after (y := x.log [.upstreamRecvFailed]) first rfl (finish_makes a (x.log [.upstreamRecvFailed]))
  | ok => exact .after (y := x.log [.recvUpstream data]) first rfl (makes_pure rfl rfl)
  | closed =>
    let y : Exec := EvProxy.resetUpstream ⟨{ x.conn with upstreamEof := true }, x.cache, x.trace ++ [.upstreamEof]⟩
    refine .after (y := x.log [.upstreamEof]) first rfl (.after (y := y) (reset_realized _) rfl ?_)
    obtain ⟨conn, events, stored, trace⟩ := storeInCache_realized y
    refine .after (y := EvProxy.storeInCache y) stored trace ?_
    dsimp only
    rw [show EvProxy.storeInCache (resetUpstream { x.log [.upstreamEof] with
      conn := { (x.log [.upstreamEof]).conn with upstreamEof := true } }) = EvProxy.storeInCache y from rfl, conn]
    by_cases flushed : x.conn.outClient.length ≤ x.conn.outClientOff
    · have finished := finish_makes a (EvProxy.storeInCache y)
      rw [conn] at finished
      rw [if_pos flushed, if_pos (show y.conn.outClient.length ≤ y.conn.outClientOff from flushed)]
      exact finished
    · rw [if_neg flushed, if_neg (show ¬ y.conn.outClient.length ≤ y.conn.outClientOff from flushed)]
      exact makes_pure rfl rfl

/-- **Every call of the other model has a transcript** with the same events. -/
theorem onReady_makes (cfg : Config) (a : Answers) (x : Exec) :
    Makes (onReady cfg x.cache.isSome x.conn) x (EvProxy.onReady cfg a x) := by
  unfold onReady EvProxy.onReady
  cases x.conn.want with
  | readClient => exact doReadClient_makes cfg a x
  | writeClient => exact doWriteClient_makes a x
  | readUpstream => exact doReadUpstream_makes cfg a x
  | readResolver => exact finishResolve_makes a x
  | writeUpstream =>
    dsimp only
    split
    · exact finishConnect_makes a x
    · exact doWriteUpstream_makes a x
  | none => exact finish_makes a x

/-! ## A connection on a thread of its own -/

theorem run_watch (t : List Event) (log : List (Query × Reply)) : run watch.follow t log = t ++ log.flatMap shown := by
  induction log generalizing t with
  | nil => simp
  | cons e log ih =>
    rw [run_cons, ih, List.flatMap_cons, ← List.append_assoc]
    rfl

theorem legal_watch {t : List Event} {log : List (Query × Reply)} :
    Legal watch.fair watch.follow t log ↔ ∀ e ∈ log, Fits e.1 e.2 := by
  induction log generalizing t with
  | nil => simp [Legal]
  | cons e log ih =>
    rw [Legal, ih, List.forall_mem_cons]
    exact Iff.rfl

/-- What was shown before plays no part. -/
theorem watch_frame {α : Type} {p : Sys α} {R : α → List Event → Prop} (t : List Event) (h : Triple watch [] p R) :
    Triple watch t p fun a t' => ∃ events, R a events ∧ t' = t ++ events := by
  intro answers rest a log done fair
  obtain ⟨-, post⟩ := h answers rest a log done (legal_watch.mpr (legal_watch.mp fair))
  rw [run_watch] at post
  refine ⟨legal_of_splits fun _ _ _ _ => trivial, _, post, ?_⟩
  rw [run_watch, List.nil_append]

theorem destroy_watch {t : List Event} (c : Connection) :
    Triple watch t (destroy c) fun _ t' => ∃ lastRef, t' = t ++ c.finishEvents lastRef := by
  refine (resetJob_watch _).bind ?_
  rintro _ _ ⟨lastRef, rfl⟩
  refine (reset_watch _).bind ?_
  rintro _ _ rfl
  refine (reset_watch _).conseq ?_
  rintro _ _ rfl
  exact ⟨lastRef, by simp [Connection.finishEvents]⟩

theorem waitReady_watch {t : List Event} (fd : Nat) (forWrite : Bool) (timeout : Int) :
    Triple watch t (waitReady fd forWrite timeout) fun _ t' => t' = t := by
  refine .askUntil (· = t) rfl (fun _ _ _ _ => trivial) ?_ ?_
  · rintro _ r rfl _ _
    simp [watch, shown]
  · rintro _ r _ rfl _ _
    simp [watch, shown]

/-- The connection and the history of some calls, all of them with a cache or all without. -/
def Reached (cfg : Config) (hasCache : Bool) (client id : Nat) (c : Connection) (t : List Event) : Prop :=
  ∃ calls : List Call, (∀ k ∈ calls, k.cache.isSome = hasCache) ∧
    (Session.start client id).drive cfg calls = ⟨c, t⟩

theorem serveRound_watch {cfg : Config} {hasCache : Bool} {client id : Nat} {c : Connection} {t : List Event}
    (reached : Reached cfg hasCache client id c t) :
    Triple watch t (serveRound cfg hasCache c) fun r t' => Reached cfg hasCache client id r.2 t' := by
  unfold serveRound
  split
  · exact .pure reached
  split
  · exact .pure reached
  refine (waitReady_watch _ _ _).bind ?_
  rintro ready _ rfl
  split
  · exact .pure reached
  refine (watch_frame _ (onReady_watch cfg hasCache c [])).bind ?_
  rintro c' _ ⟨events, ⟨a, cache, some_, rfl, rfl⟩, rfl⟩
  obtain ⟨calls, all, drive⟩ := reached
  refine .pure ⟨calls ++ [⟨a, cache⟩], ?_, ?_⟩
  · simpa [or_imp, forall_and] using ⟨all, some_⟩
  · rw [Session.drive, run_append]
    rw [Session.drive] at drive
    rw [drive]
    rfl

/-- A history of a whole life in the other model. -/
def Lives (cfg : Config) (hasCache : Bool) (client id : Nat) (t : List Event) : Prop :=
  ∃ (calls : List Call) (lastRef : Bool), (∀ k ∈ calls, k.cache.isSome = hasCache) ∧
    (((Session.start client id).drive cfg calls).destroy lastRef).trace = t

theorem serve_watch (cfg : Config) (hasCache : Bool) (client id : Nat) :
    Triple watch [] (serve cfg hasCache client id) fun _ t => Lives cfg hasCache client id t := by
  refine (setNonblocking_watch _).bind ?_
  rintro _ _ rfl
  refine Triple.bind (R := Reached cfg hasCache client id) ?_ ?_
  · refine .loop (Reached cfg hasCache client id) ⟨[], by simp, rfl⟩ fun c t reached => ?_
    exact (serveRound_watch reached).conseq fun r t' next => by split <;> exact next
  · rintro c t ⟨calls, all, drive⟩
    refine (destroy_watch c).conseq ?_
    rintro _ _ ⟨lastRef, rfl⟩
    exact ⟨calls, lastRef, all, by rw [drive]; rfl⟩

/-- A finished connection shows nothing more, however often it is called. -/
theorem done_drive (cfg : Config) {s : Session} (done : Done s.conn) (calls : List Call) :
    (s.drive cfg calls).trace = s.trace ∧ Done (s.drive cfg calls).conn := by
  refine run_invariant (P := fun s' : Session => s'.trace = s.trace ∧ Done s'.conn) ?_ ⟨rfl, done⟩ calls
  rintro s' k ⟨same, done'⟩
  obtain ⟨quiet, next, -⟩ := done'.step (onReady_step cfg k.answers k.cache s'.conn)
  refine ⟨?_, next⟩
  rw [Session.call, quiet, List.append_nil, same]

theorem destroy_realized (c : Connection) (lastRef : Bool) : Realizes (destroy c) () (c.finishEvents lastRef) := by
  rw [Connection.finishEvents, List.append_assoc]
  exact (resetJob_realized lastRef _).bind ((reset_realized _).bind (reset_realized _))

theorem Realizes.stop {α : Type} {body : α → Sys (Bool × α)} {a b : α} {events : List Event}
    (last : Realizes (body a) (false, b) events) : Realizes (loop body a) b events := by
  obtain ⟨log, can, fits, shows⟩ := last
  exact ⟨log, can.loop_stop, fits, shows⟩

/-- A round that begins with a query. -/
theorem Realizes.next {α β : Type} {body : α → Sys (Bool × α)} {a b c : α} {q : Query} {settle : Reply → Option β}
    {f : β → Sys (Bool × α)} (round : body a = askUntil q settle >>= f) (r : Reply) {answer : β}
    (settled : settle r = some answer) (fits : Fits q r) {events more : List Event}
    (first : Realizes (f answer) (true, b) events) (rest : Realizes (loop body b) c more) :
    Realizes (loop body a) c (shown (q, r) ++ events ++ more) := by
  obtain ⟨log, can, fits', rfl⟩ := first
  obtain ⟨log', can', fits'', rfl⟩ := rest
  have asked : Can (body a) ((q, r) :: log) (true, b) := by
    rw [round]
    exact (can_askUntil settled).bind can
  refine ⟨(q, r) :: log ++ log', asked.loop_next (List.cons_ne_nil _ _) can', ?_, by simp⟩
  exact List.forall_mem_append.mpr ⟨List.forall_mem_cons.mpr ⟨fits, fits'⟩, fits''⟩

/-- The loop, from any phase: the calls are made until the connection is done or the last of them was, and then
it stops. -/
theorem serveLoop_realized {cfg : Config} {hasCache : Bool} (calls : List Call)
    (all : ∀ k ∈ calls, k.cache.isSome = hasCache) {s : Session} (phase : Phase cfg s.conn) :
    ∃ c events, Realizes (loop (serveRound cfg hasCache) s.conn) c events ∧
      (s.drive cfg calls).trace = s.trace ++ events ∧
      ∀ lastRef, c.finishEvents lastRef = (s.drive cfg calls).conn.finishEvents lastRef := by
  induction calls generalizing s with
  | nil =>
    refine ⟨s.conn, [], Realizes.stop ?_, (List.append_nil _).symm, fun _ => rfl⟩
    unfold serveRound
    split
    · exact realizes_pure _
    split
    · exact realizes_pure _
    · exact (waitReady_realized _ _ _ false).then (realizes_pure _)
  | cons k calls ih =>
    by_cases finished : s.conn.state = .done
    · -- The loop is over; the calls the other model still makes show nothing.
      have done : Done s.conn := phase.of_want (phase.agree.1.mpr finished)
      obtain ⟨same, done'⟩ := done_drive cfg done (k :: calls)
      refine ⟨s.conn, [], Realizes.stop ?_, by rw [same, List.append_nil], fun lastRef => ?_⟩
      · rw [serveRound, if_pos (by simp [Connection.done, finished])]
        exact realizes_pure _
      · rw [done.finishEvents, done'.finishEvents]
    · obtain ⟨fd, want, -⟩ := phase.waits finished
      obtain ⟨some_, all⟩ := List.forall_mem_cons.mp all
      obtain ⟨events, realized, trace⟩ := onReady_makes cfg k.answers ⟨s.conn, k.cache, []⟩
      obtain ⟨c, more, rest, trace', ends⟩ :=
        ih all (s := s.call cfg k) (phase.step (onReady_step cfg k.answers k.cache s.conn))
      have round : serveRound cfg hasCache s.conn = waitReady fd s.conn.wantWrite cfg.pollTimeoutMs >>= fun ready =>
          if !ready then pure (false, s.conn) else onReady cfg hasCache s.conn >>= fun c => pure (true, c) := by
        simp [serveRound, Connection.done, finished, want]
      have first : Realizes (onReady cfg hasCache s.conn >>= fun c => pure (true, c)) (true, (s.call cfg k).conn)
          events := by
        rw [← some_]
        exact realized.last (realizes_pure _)
      refine ⟨c, events ++ more, Realizes.next round { ret := 1 } rfl trivial first rest, ?_, ends⟩
      rw [List.nil_append] at trace
      rw [← List.append_assoc, ← trace]
      exact trace'

/-- **The calls of `serve` show exactly the histories of the other model.** Whatever the kernel, the resolver and
the response cache reply, the transcript of a connection from its constructor to its destructor is a life in the
coarser model, and every such life is the transcript of some replies. -/
theorem serve_exact (cfg : Config) (hasCache : Bool) (client id : Nat) (t : List Event) :
    (∃ answers log rest, serve cfg hasCache client id answers = some ((), log, rest) ∧
      (∀ e ∈ log, Fits e.1 e.2) ∧ log.flatMap shown = t) ↔ Lives cfg hasCache client id t := by
  constructor
  · rintro ⟨answers, log, rest, done, fits, rfl⟩
    obtain ⟨-, lives⟩ := serve_watch cfg hasCache client id answers rest () log done (legal_watch.mpr fits)
    rwa [run_watch, List.nil_append] at lives
  · rintro ⟨calls, lastRef, all, rfl⟩
    obtain ⟨c, events, loops, trace, ends⟩ :=
      serveLoop_realized calls all (s := .start client id) (phase_init cfg client id)
    have life : Realizes (serve cfg hasCache client id) () (events ++ c.finishEvents lastRef) :=
      (setNonblocking_realized client true).then (loops.bind (destroy_realized c lastRef))
    obtain ⟨log, can, fits, shows⟩ := life
    refine ⟨log.map Prod.snd ++ [], log, [], can [], fits, ?_⟩
    rw [shows, Session.destroy, trace, ← ends lastRef]
    rfl

end EvProxy.Kernel
