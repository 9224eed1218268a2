import EvProxy.Conn.Phase

/-!
# Relay integrity

What the client has been sent is a prefix of one single source: the upstream
stream, or one response of the proxy's own (an error, or a cached response) with
nothing relayed at all. `Balance` is the account kept in each state; every step
keeps it (`balance_step`), so it holds along every run.
-/

namespace EvProxy
open Text Runs

/-- The error responses `fail_with` is called with. -/
def errorReplies : List Bytes := [badRequest, notImplemented, payloadTooLarge, badGateway]

/-- A response not relayed: an error, or one the cache answered with. -/
def Reply (t : List Event) (response : Bytes) : Prop :=
  response ∈ errorReplies ∨ ∃ key, .cacheHit key response ∈ t

theorem Reply.append {t : List Event} {response : Bytes} (h : Reply t response) (u : List Event) :
    Reply (t ++ u) response := by
  rcases h with h | ⟨key, h⟩
  · exact Or.inl h
  · exact Or.inr ⟨key, List.mem_append_left u h⟩

/-- Nothing sent to the client, nothing received from upstream. -/
structure Mute (t : List Event) : Prop where
  sent : stream .toClient t = []
  got : stream .fromUpstream t = []
  eof : .upstreamEof ∉ t

theorem Mute.append {t u : List Event} (ht : Mute t) (hu : Mute u) : Mute (t ++ u) where
  sent := by rw [stream_append, ht.sent, hu.sent]; rfl
  got := by rw [stream_append, ht.got, hu.got]; rfl
  eof := by simp [ht.eof, hu.eof]

theorem Silent.mute {t : List Event} (silent : Silent t) : Mute t :=
  ⟨silent.stream _, silent.stream _, silent.not_mem rfl⟩

theorem mute_nil : Mute [] := ⟨rfl, rfl, by simp⟩

theorem Mute.cons {e : Event} {t : List Event} (sent : e.flow .toClient = []) (got : e.flow .fromUpstream = [])
    (eof : e ≠ .upstreamEof) (h : Mute t) : Mute (e :: t) where
  sent := by rw [stream_cons, sent, h.sent]; rfl
  got := by rw [stream_cons, got, h.got]; rfl
  eof := by simp [eof.symm, h.eof]

theorem Mute.read {t : List Event} (h : Mute t) (data : Bytes) : Mute (.recvClient data :: t) := h.cons rfl rfl nofun

/-- The account of a session: what has been sent, what is pending, what came in. -/
def Balance (t : List Event) (c : Connection) : State → Prop
  | .relaying => stream .toClient t ++ c.outClient.drop c.outClientOff = stream .fromUpstream t ∧ .upstreamEof ∉ t
  | .failing =>
    (∃ response, Reply t response ∧ stream .toClient t ++ c.outClient.drop c.outClientOff = response) ∧
      stream .fromUpstream t = [] ∧ .upstreamEof ∉ t
  | .done =>
    (stream .toClient t <+: stream .fromUpstream t ∧
      (.upstreamEof ∈ t → stream .toClient t = stream .fromUpstream t)) ∨
    (∃ response, Reply t response ∧ stream .toClient t <+: response) ∧
      stream .fromUpstream t = [] ∧ .upstreamEof ∉ t
  | _ => Mute t

section Steps
variable {cfg : Config} {c c' : Connection} {t events : List Event}

/-- Ending early is fine in every state. -/
theorem Balance.cut {state : State} (h : Balance t c state) (mute : Mute events) (c' : Connection) :
    Balance (t ++ events) c' .done := by
  have sent : stream .toClient (t ++ events) = stream .toClient t := by simp [mute.sent]
  have got : stream .fromUpstream (t ++ events) = stream .fromUpstream t := by simp [mute.got]
  have eof : .upstreamEof ∈ t ++ events ↔ .upstreamEof ∈ t := by simp [mute.eof]
  have quiet (q : Mute t) : Balance (t ++ events) c' .done := by
    refine Or.inl ⟨?_, ?_⟩
    · rw [sent, q.sent]
      exact List.nil_prefix
    · intro _
      rw [sent, got, q.sent, q.got]
  cases state with
  | readingRequest => exact quiet h
  | resolving => exact quiet h
  | connecting => exact quiet h
  | sendingUpstream => exact quiet h
  | relaying =>
    refine Or.inl ⟨?_, fun ended => absurd (eof.mp ended) h.2⟩
    rw [sent, got, ← h.1]
    exact List.prefix_append _ _
  | failing =>
    obtain ⟨⟨response, reply, balance⟩, none_got, no_eof⟩ := h
    refine Or.inr ⟨⟨response, reply.append events, ?_⟩, got.trans none_got, mt eof.mp no_eof⟩
    rw [sent, ← balance]
    exact List.prefix_append _ _
  | done =>
    rcases h with ⟨sub, whole⟩ | ⟨⟨response, reply, sub⟩, none_got, no_eof⟩
    · refine Or.inl ⟨?_, fun ended => ?_⟩
      · rw [sent, got]; exact sub
      · rw [sent, got]; exact whole (eof.mp ended)
    · exact Or.inr ⟨⟨response, reply.append events, by rw [sent]; exact sub⟩, got.trans none_got, mt eof.mp no_eof⟩

/-- `fail_with` before anything was relayed puts the whole response in front of the client. -/
theorem Mute.failed {response : Bytes} (mute : Mute t) (reply : Reply t response) :
    Balance t (c.failed response) .failing :=
  ⟨⟨response, reply, by simp [mute.sent, Connection.failed]⟩, mute.got, mute.eof⟩

theorem Connect.balance (dial : Connect c events c') (mute : Mute t) : Balance (t ++ events) c' c'.state := by
  have still : Mute (t ++ events) := mute.append dial.silent.mute
  cases dial with
  | exhausted idx tried => exact still.failed (Or.inl (by simp [errorReplies]))
  | connected => exact still
  | inProgress => exact still

theorem Resolve.balance (resolve : Resolve c events c') (mute : Mute t) : Balance (t ++ events) c' c'.state := by
  have still : Mute (t ++ events) := mute.append resolve.silent.mute
  cases resolve with
  | failed => exact still.failed (Or.inl (by simp [errorReplies]))
  | pipeFailed => exact still.failed (Or.inl (by simp [errorReplies]))
  | pending => exact still
  | connect endpoints dial => exact dial.balance mute

theorem Lookup.mute {req : Request} {cache cache' : Option LruCache} {key : Bytes} {looked : List Event}
    (lookup : Lookup cfg c req cache key looked cache') : Mute looked := by
  cases lookup with
  | off => exact mute_nil
  | skipped => exact mute_nil
  | missed => exact ⟨rfl, rfl, by simp⟩

theorem Store.mute {cache cache' : Option LruCache} {stored : List Event} (store : Store c cache stored cache') :
    Mute stored := by
  cases store with
  | skipped => exact mute_nil
  | stored => exact ⟨rfl, rfl, by simp⟩

/-- A write takes its bytes off the front of what is pending. -/
theorem substr_append_drop (s : Bytes) (off n : Nat) : substr s off n ++ s.drop (off + n) = s.drop off := by
  rw [substr, ← List.drop_drop]
  exact List.take_append_drop n _

/-- The account sees the output buffer only through what is pending in it. -/
theorem Balance.congr {state : State} (h : Balance t c state)
    (same : c'.outClient.drop c'.outClientOff = c.outClient.drop c.outClientOff) : Balance t c' state := by
  cases state with
  | relaying => exact ⟨by rw [same]; exact h.1, h.2⟩
  | failing =>
    obtain ⟨⟨response, reply, balance⟩, rest⟩ := h
    exact ⟨⟨response, reply, by rw [same]; exact balance⟩, rest⟩
  | _ => exact h

/-- A write to the client moves bytes from pending to sent. -/
theorem Balance.write {state : State} (h : Balance t c state) (n : Nat)
    (writing : state = .relaying ∨ state = .failing) :
    Balance (t ++ [.sentClient (substr c.outClient c.outClientOff n)])
      { c with outClientOff := c.outClientOff + n } state := by
  have moved : stream .toClient (t ++ [.sentClient (substr c.outClient c.outClientOff n)]) ++
      c.outClient.drop (c.outClientOff + n) = stream .toClient t ++ c.outClient.drop c.outClientOff := by
    simp [Event.flow, substr_append_drop]
  rcases writing with rfl | rfl
  · refine ⟨moved.trans (by simpa [Event.flow] using h.1), by simp [h.2]⟩
  · obtain ⟨⟨response, reply, balance⟩, none_got, no_eof⟩ := h
    exact ⟨⟨response, reply.append _, moved.trans balance⟩, by simpa [Event.flow] using none_got, by simp [no_eof]⟩

/-- At a clean end of the upstream stream with nothing pending, everything has been delivered. -/
theorem balance_ended (whole : stream .toClient t = stream .fromUpstream t) (tail : Mute events)
    (c' : Connection) : Balance (t ++ .upstreamEof :: events) c' .done := by
  have both : stream .toClient (t ++ .upstreamEof :: events) =
      stream .fromUpstream (t ++ .upstreamEof :: events) := by
    rw [stream_append, stream_append, stream_cons, stream_cons, tail.sent, tail.got, whole]
    rfl
  exact Or.inl ⟨by rw [both], fun _ => both⟩

/-- **Every step keeps the account.** -/
theorem balance_step {cache cache' : Option LruCache} (phase : Phase cfg c) (h : Balance t c c.state)
    (step : Step cfg c cache events c' cache') : Balance (t ++ events) c' c'.state := by
  cases step with
  | idle => simpa using h
  | hangup lastRef want => exact h.cut ((silent_finishEvents c lastRef).mute.cons (e := .clientGone) rfl rfl nofun) _
  | incomplete data want got unparsed more small =>
    have r : Reading cfg c := phase.of_want want
    rw [r.state] at h
    simp only [r.state]
    exact Mute.append h (mute_nil.read data)
  | awaiting data req want got ready short =>
    have r : Reading cfg c := phase.of_want want
    rw [r.state] at h
    simp only [r.state]
    exact Mute.append h (mute_nil.read data)
  | rejected data response req want got unparsed error =>
    have r : Reading cfg c := phase.of_want want
    rw [r.state] at h
    have mute := Mute.append h ((silent_closing c.upstream).mute.read data)
    exact mute.failed (Or.inl (List.mem_append_left [badGateway] error.error))
  | hit data response req stored want got ready enough cacheable on found =>
    have r : Reading cfg c := phase.of_want want
    rw [r.state] at h
    have looked := (silent_closing c.upstream).mute.cons
      (e := .cacheHit (cacheKey req.method req.host req.port req.path) response) rfl rfl nofun
    have mute := Mute.append h (looked.read data)
    exact mute.failed (Or.inr ⟨cacheKey req.method req.host req.port req.path, by simp⟩)
  | forward data key req want got ready enough lookup resolve =>
    have r : Reading cfg c := phase.of_want want
    rw [r.state] at h
    have mute := Mute.append h (lookup.mute.read data)
    simpa using resolve.balance mute
  | unresolved lastRef want job =>
    have r : Resolving cfg c := phase.of_want want
    rw [r.state] at h
    have mute := Mute.append h ((silent_releasing lastRef c.resolveJob).append (silent_closing c.upstream)).mute
    exact mute.failed (Or.inl (by simp [errorReplies]))
  | resolved lastRef endpoints want job dial =>
    have r : Resolving cfg c := phase.of_want want
    rw [r.state] at h
    simpa using dial.balance (Mute.append h (silent_releasing lastRef c.resolveJob).mute)
  | refused want state dial =>
    rw [state] at h
    simpa using dial.balance (Mute.append h (silent_closing c.upstream).mute)
  | connected want state =>
    rw [state] at h
    exact Mute.append h (mute_nil.cons rfl rfl nofun)
  | sendPart n want state bound more =>
    have r := phase.of_sending want state
    rw [r.state] at h
    simp only [r.state]
    exact Mute.append h (mute_nil.cons rfl rfl nofun)
  | sendAll n want state bound whole =>
    have r := phase.of_sending want state
    rw [r.state] at h
    have mute := Mute.append h (mute_nil.cons
      (e := .sentUpstream c.upstream (substr c.outUpstream c.outUpstreamOff n)) rfl rfl nofun)
    refine ⟨?_, mute.eof⟩
    rw [mute.sent, mute.got]
    simp [r.loaded.untouched.outClient]
  | sendFailed want state =>
    have r := phase.of_sending want state
    rw [r.state] at h
    have mute := Mute.append h ((silent_closing c.upstream).mute.cons (e := .upstreamSendFailed) rfl rfl nofun)
    exact mute.failed (Or.inl (by simp [errorReplies]))
  | recvFailed lastRef want =>
    exact h.cut ((silent_finishEvents c lastRef).mute.cons (e := .upstreamRecvFailed) rfl rfl nofun) _
  | eofDone lastRef want store flushed =>
    -- nothing is pending, so what was sent is all that came in
    have r : Waiting cfg c := phase.of_want want
    rw [r.relaying.state] at h
    have tail := ((silent_closing c.upstream).mute.append store.mute).append
      (silent_finishEvents { c with upstream := none } lastRef).mute
    have whole : stream .toClient t = stream .fromUpstream t := by simpa [r.flushed.1] using h.1
    exact balance_ended whole tail _
  | eofFlush want store pending =>
    have r : Waiting cfg c := phase.of_want want
    exact absurd pending r.not_pending
  | recv data want got bound =>
    have r : Waiting cfg c := phase.of_want want
    rw [r.relaying.state] at h
    have whole : stream .toClient t = stream .fromUpstream t := by simpa [r.flushed.1] using h.1
    obtain ⟨accum, tooBig, shape⟩ := c.received_eq cfg data
    rw [shape]
    simp only [r.relaying.state]
    refine ⟨?_, by simp [h.2]⟩
    simp [r.flushed, Event.flow, whole]
  | writePart n want bound more =>
    rcases phase.of_want want with r | r
    · exact h.write n (Or.inl r.relaying.state)
    · exact h.write n (Or.inr r.state)
  | writeMore n want bound whole relaying open_ =>
    rcases phase.of_want want with r | r
    · refine (h.write n (Or.inl r.relaying.state)).congr ?_
      simp [List.drop_eq_nil_of_le whole]
    · exact absurd r.state relaying
  | writeLast lastRef n want bound whole last =>
    have writing : c.state = .relaying ∨ c.state = .failing := by
      rcases phase.of_want want with r | r
      · exact Or.inl r.relaying.state
      · exact Or.inr r.state
    have ended := (h.write n writing).cut (silent_finishEvents c lastRef).mute
      { c with outClient := [], outClientOff := 0 }.finished
    rw [List.append_assoc] at ended
    exact ended
  | writeFailed lastRef want =>
    exact h.cut ((silent_finishEvents c lastRef).mute.cons (e := .clientSendFailed) rfl rfl nofun) _
  | again lastRef want => exact h.cut (silent_finishEvents c lastRef).mute _

/-- Once a reply of the proxy's own is under way, or the connection is done, upstream is not read. -/
theorem silent_after {cache cache' : Option LruCache} (phase : Phase cfg c)
    (settled : c.state = .failing ∨ c.state = .done) (step : Step cfg c cache events c' cache') :
    (c'.state = .failing ∨ c'.state = .done) ∧ stream .fromUpstream events = [] := by
  cases phase with
  | failing h =>
    cases h.step step with
    | idle => exact ⟨settled, rfl⟩
    | part => exact ⟨settled, rfl⟩
    | last lastRef n => exact ⟨Or.inr rfl, by simp [Event.flow, (silent_finishEvents c lastRef).stream]⟩
    | failed lastRef => exact ⟨Or.inr rfl, by simp [Event.flow, (silent_finishEvents c lastRef).stream]⟩
  | done h =>
    obtain ⟨rfl, done, -⟩ := h.step step
    exact ⟨Or.inr done.state, rfl⟩
  | reading h => simp [h.state] at settled
  | resolving h => simp [h.state] at settled
  | connecting h => simp [h.state] at settled
  | sending h => simp [h.state] at settled
  | waiting h => simp [h.relaying.state] at settled
  | flushing h => simp [h.relaying.state] at settled

end Steps

/-! ## Whole runs -/

/-- Where the bytes for the client come from. -/
inductive Source where
  | error (response : Bytes)
  | cached (key response : Bytes)
  | upstream

namespace Source

/-- The proxy writes this error; the cache gave this response. -/
def Real (t : List Event) : Source → Prop
  | .error response => response ∈ errorReplies
  | .cached key response => .cacheHit key response ∈ t
  | .upstream => True

/-- The client has been sent a prefix of this source; a source of the proxy's own goes with nothing relayed. -/
def Feeds (t : List Event) : Source → Prop
  | .error response => stream .toClient t <+: response ∧ stream .fromUpstream t = []
  | .cached _ response => stream .toClient t <+: response ∧ stream .fromUpstream t = []
  | .upstream => stream .toClient t <+: stream .fromUpstream t

end Source

section Runs
variable {cfg : Config}

/-- What is known of a session between two calls. -/
structure Accounted (cfg : Config) (s : Session) : Prop where
  phase : Phase cfg s.conn
  balance : Balance s.trace s.conn s.conn.state

theorem accounted_start (cfg : Config) (client id : Nat) : Accounted cfg (.start client id) :=
  ⟨phase_init cfg client id, mute_nil⟩

theorem Accounted.step {s : Session} {cache cache' : Option LruCache} {events : List Event} {c' : Connection}
    (h : Accounted cfg s) (step : Step cfg s.conn cache events c' cache') : Accounted cfg ⟨c', s.trace ++ events⟩ :=
  ⟨h.phase.step step, balance_step h.phase h.balance step⟩

theorem Accounted.drive {s : Session} (h : Accounted cfg s) (calls : List Call) : Accounted cfg (s.drive cfg calls) :=
  Session.drive_invariant Accounted.step h calls

theorem Session.trace_prefix (cfg : Config) (s : Session) (calls : List Call) : s.trace <+: (s.drive cfg calls).trace :=
  Session.drive_invariant (P := fun s' => s.trace <+: s'.trace)
    (fun h _ => h.trans (List.prefix_append _ _)) (List.prefix_refl _) calls

theorem stream_prefix (ch : Channel) {t u : List Event} (h : t <+: u) : stream ch t <+: stream ch u := by
  obtain ⟨rest, rfl⟩ := h
  rw [stream_append]
  exact List.prefix_append _ _

/-- A session that has settled without relaying never relays. -/
theorem Accounted.drive_settled {s : Session} (h : Accounted cfg s)
    (settled : s.conn.state = .failing ∨ s.conn.state = .done) (none_got : stream .fromUpstream s.trace = [])
    (calls : List Call) : stream .fromUpstream (s.drive cfg calls).trace = [] := by
  have kept := Session.drive_invariant
    (P := fun s => Phase cfg s.conn ∧ (s.conn.state = .failing ∨ s.conn.state = .done) ∧
      stream .fromUpstream s.trace = [])
    (fun {s _ _ events _} inv step => by
      obtain ⟨still, quiet⟩ := silent_after inv.1 inv.2.1 step
      refine ⟨inv.1.step step, still, ?_⟩
      rw [stream_append, inv.2.2, quiet]
      rfl)
    ⟨h.phase, settled, none_got⟩ calls
  exact kept.2.2

/-- Either only upstream feeds the client, or a reply does and the connection has settled. -/
theorem Accounted.fed {s : Session} (h : Accounted cfg s) :
    stream .toClient s.trace <+: stream .fromUpstream s.trace ∨
      (∃ response, Reply s.trace response ∧ stream .toClient s.trace <+: response) ∧
        stream .fromUpstream s.trace = [] ∧ (s.conn.state = .failing ∨ s.conn.state = .done) := by
  have balance := h.balance
  generalize state : s.conn.state = st at balance
  have mute (q : Mute s.trace) : stream .toClient s.trace <+: stream .fromUpstream s.trace := by
    rw [q.sent]
    exact List.nil_prefix
  cases st with
  | readingRequest => exact Or.inl (mute balance)
  | resolving => exact Or.inl (mute balance)
  | connecting => exact Or.inl (mute balance)
  | sendingUpstream => exact Or.inl (mute balance)
  | relaying =>
    refine Or.inl ?_
    rw [← balance.1]
    exact List.prefix_append _ _
  | failing =>
    obtain ⟨⟨response, reply, whole⟩, none_got, -⟩ := balance
    refine Or.inr ⟨⟨response, reply, ?_⟩, none_got, Or.inl rfl⟩
    rw [← whole]
    exact List.prefix_append _ _
  | done =>
    rcases balance with ⟨sub, -⟩ | ⟨reply, none_got, -⟩
    · exact Or.inl sub
    · exact Or.inr ⟨reply, none_got, Or.inr rfl⟩

/-- The session after the first `n` of the calls. -/
abbrev sessionAt (cfg : Config) (client id : Nat) (calls : List Call) (n : Nat) : Session :=
  (Session.start client id).drive cfg (calls.take n)

/-- The rest of the calls leads from there to the end. -/
theorem drive_sessionAt (cfg : Config) (client id : Nat) (calls : List Call) (n : Nat) :
    (sessionAt cfg client id calls n).drive cfg (calls.drop n) = (Session.start client id).drive cfg calls := by
  rw [sessionAt, Session.drive, Session.drive, Session.drive, ← run_append, List.take_append_drop]

/-- One source feeds the client through the whole run. -/
theorem single_source (cfg : Config) (client id : Nat) (calls : List Call) :
    ∃ source : Source, source.Real ((Session.start client id).drive cfg calls).trace ∧
      ∀ n, source.Feeds (sessionAt cfg client id calls n).trace := by
  have at_n (n : Nat) : Accounted cfg (sessionAt cfg client id calls n) := (accounted_start cfg client id).drive _
  have sub (n : Nat) (ch : Channel) : stream ch (sessionAt cfg client id calls n).trace <+:
      stream ch ((Session.start client id).drive cfg calls).trace := by
    rw [← drive_sessionAt cfg client id calls n]
    exact stream_prefix ch (Session.trace_prefix cfg _ _)
  by_cases relayed : stream .fromUpstream ((Session.start client id).drive cfg calls).trace = []
  · -- nothing was ever relayed: the final reply, if any, is the source of every stage
    have none_got (n : Nat) : stream .fromUpstream (sessionAt cfg client id calls n).trace = [] := by
      have := sub n .fromUpstream
      rwa [relayed, List.prefix_nil] at this
    rcases ((accounted_start cfg client id).drive calls).fed with only | ⟨⟨response, reply, whole⟩, -, -⟩
    · refine ⟨.upstream, trivial, fun n => ?_⟩
      rw [relayed, List.prefix_nil] at only
      have sent := sub n .toClient
      rw [only, List.prefix_nil] at sent
      rw [Source.Feeds, sent]
      exact List.nil_prefix
    · have fed (n : Nat) : stream .toClient (sessionAt cfg client id calls n).trace <+: response ∧
          stream .fromUpstream (sessionAt cfg client id calls n).trace = [] :=
        ⟨(sub n .toClient).trans whole, none_got n⟩
      rcases reply with error | ⟨key, hit⟩
      · exact ⟨.error response, error, fed⟩
      · exact ⟨.cached key response, hit, fed⟩
  · refine ⟨.upstream, trivial, fun n => ?_⟩
    rcases (at_n n).fed with only | ⟨-, none_got, settled⟩
    · exact only
    · have := (at_n n).drive_settled settled none_got (calls.drop n)
      rw [drive_sessionAt] at this
      exact absurd this relayed

/-- **Relay integrity.** Through any calls, one source feeds the client: one
error response, one cached response, or what upstream sent. While relaying, sent
and pending bytes together are what upstream sent; after a clean end of the
upstream stream the client has all of it. -/
theorem relay_integrity (cfg : Config) (client id : Nat) (calls : List Call) :
    (∃ source : Source, source.Real ((Session.start client id).drive cfg calls).trace ∧
      ∀ n, source.Feeds (sessionAt cfg client id calls n).trace) ∧
    ∀ n, let s := sessionAt cfg client id calls n
      (s.conn.state = .relaying →
        stream .toClient s.trace ++ s.conn.outClient.drop s.conn.outClientOff = stream .fromUpstream s.trace) ∧
      (s.conn.state = .done → .upstreamEof ∈ s.trace → .clientSendFailed ∉ s.trace →
        stream .toClient s.trace = stream .fromUpstream s.trace) := by
  refine ⟨single_source cfg client id calls, fun n => ?_⟩
  have balance := ((accounted_start cfg client id).drive (calls.take n)).balance
  refine ⟨fun relaying => ?_, fun done eof _ => ?_⟩
  · rw [relaying] at balance
    exact balance.1
  · rw [done] at balance
    rcases balance with ⟨-, whole⟩ | ⟨-, -, no_eof⟩
    · exact whole eof
    · exact absurd eof no_eof

end Runs

end EvProxy
