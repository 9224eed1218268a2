import EvProxy.Conn.Relay
import EvProxy.Conn.CacheUse
import EvProxy.Proxy.System

/-!
# Coherence of the connection state machine

In every reachable state of the process a live connection waits on a descriptor
that is open and its own, and holds a write intent only while it has something
to write. The first needs the kernel's promise about descriptor numbers
(`Proxy.Allowed`), the second that the cache holds no empty response.
-/

namespace EvProxy
open Runs Ledger

section Steps
variable {cfg : Config} {c c' : Connection} {cache cache' : Option LruCache} {events : List Event}

theorem errorReplies_ne_nil : ∀ response ∈ errorReplies, response ≠ [] := by
  intro response mem
  simp only [errorReplies, List.mem_cons, List.not_mem_nil, or_false] at mem
  rcases mem with rfl | rfl | rfl | rfl <;> exact errorResponse_ne_nil _ _

/-- What a connection puts in front of its client is never empty. -/
def Pending (c : Connection) : Prop := c.state = .failing → c.outClientOff < c.outClient.length

theorem pending_failed {response : Bytes} (nonempty : response ≠ []) : Pending (c.failed response) :=
  fun _ => List.length_pos_iff.mpr nonempty

theorem Connect.leaves_pending (dial : Connect c events c') : Pending c' := by
  cases dial with
  | exhausted => exact pending_failed (errorResponse_ne_nil _ _)
  | connected => exact nofun
  | inProgress => exact nofun

theorem Resolve.leaves_pending (resolve : Resolve c events c') : Pending c' := by
  cases resolve with
  | failed => exact pending_failed (errorResponse_ne_nil _ _)
  | pipeFailed => exact pending_failed (errorResponse_ne_nil _ _)
  | pending => exact nofun
  | connect endpoints dial => exact dial.leaves_pending

theorem Step.leaves_pending (phase : Phase cfg c) (wf : CacheWf cache)
    (nonempty : ∀ kv ∈ cached cache, storable kv.2 = true) (before : Pending c)
    (step : Step cfg c cache events c' cache') : Pending c' := by
  have use := step.cacheUse
  cases step with
  | idle => exact before
  | rejected data response req want got unparsed error =>
    exact pending_failed (errorReplies_ne_nil _ (List.mem_append_left [badGateway] error.error))
  | hit data response req stored want got ready enough cacheable on found =>
    obtain ⟨mem, -⟩ := use.of_hit wf (List.mem_cons_of_mem _ List.mem_cons_self)
    exact pending_failed (storable_ne_nil (nonempty _ mem))
  | forward data key req want got ready enough lookup resolve => exact resolve.leaves_pending
  | unresolved => exact pending_failed (errorResponse_ne_nil _ _)
  | resolved lastRef endpoints want job dial => exact dial.leaves_pending
  | refused want state dial => exact dial.leaves_pending
  | sendFailed => exact pending_failed (errorResponse_ne_nil _ _)
  | writePart n want bound more => exact fun _ => more
  | incomplete => exact before
  | awaiting => exact before
  | sendPart => exact before
  | eofFlush => exact before
  | recv data want got bound =>
    have r : Waiting cfg c := phase.of_want want
    obtain ⟨accum, tooBig, shape⟩ := c.received_eq cfg data
    rw [shape]
    exact fun failing => by cases r.relaying.state.symm.trans failing
  | writeMore n want bound whole relaying open_ => exact fun failing => absurd failing relaying
  | hangup => exact nofun
  | connected => exact nofun
  | sendAll => exact nofun
  | recvFailed => exact nofun
  | eofDone => exact nofun
  | writeLast => exact nofun
  | writeFailed => exact nofun
  | again => exact nofun

end Steps

namespace Proxy

/-- The invariant of the process. -/
structure Sound (cfg : Config) (p : Proxy) : Prop where
  cacheWf : CacheWf p.cache
  storable : ∀ kv ∈ cached p.cache, storable kv.2 = true
  phase : ∀ key s, p.entries key = some ⟨s, true⟩ → Phase cfg s.conn
  pending : ∀ key s, p.entries key = some ⟨s, true⟩ → Pending s.conn
  distinct : ∀ key s, p.entries key = some ⟨s, true⟩ → s.conn.fds.Distinct
  opened : ∀ key s, p.entries key = some ⟨s, true⟩ → s.conn.fds.owned ⊆ p.opened
  apart : ∀ key key' s s', key ≠ key' → p.entries key = some ⟨s, true⟩ → p.entries key' = some ⟨s', true⟩ →
    Disjoint s.conn.fds.owned s'.conn.fds.owned

theorem sound_start (cfg : Config) (opened : Finset Nat) : Sound cfg (start cfg opened) where
  cacheWf := cacheWf_start cfg opened
  storable := by
    rw [cached_start]
    exact nofun
  phase := fun _ _ here => absurd here nofun
  pending := fun _ _ here => absurd here nofun
  distinct := fun _ _ here => absurd here nofun
  opened := fun _ _ here => absurd here nofun
  apart := fun _ _ _ _ _ here => absurd here nofun

variable {cfg : Config} {p p' : Proxy}

/-- One connection's events leave the others' descriptors alone. -/
structure Framed (p : Proxy) (key : Nat) (c' : Connection) (events : List Event) : Prop where
  distinct : c'.fds.Distinct
  opened : c'.fds.owned ⊆ run track p.opened (ops events)
  others : ∀ other s, other ≠ key → p.entries other = some ⟨s, true⟩ →
    s.conn.fds.owned ⊆ run track p.opened (ops events) ∧ Disjoint c'.fds.owned s.conn.fds.owned

/-- A descriptor that is open and not the connection's own survives its events. -/
theorem Sound.spared (sound : Sound cfg p) {key : Nat} {s : Session} (here : p.entries key = some ⟨s, true⟩)
    {events : List Event} {c' : Connection} (orderly : Orderly s.conn.fds events c'.fds)
    (fresh : Fresh p.opened (ops events)) {fd : Nat} (held : fd ∈ p.opened) (other : fd ∉ s.conn.fds.owned) :
    fd ∈ run track p.opened (ops events) ∧ fd ∉ c'.fds.owned ∧ .closed fd ∉ events := by
  obtain ⟨proper, mine, -⟩ := orderly p.opened (sound.opened key s here) (sound.distinct key s here) fresh
  obtain ⟨⟨still, not_mine⟩, -, unfreed, -⟩ := frame proper held other
  rw [run_held] at still
  rw [mine] at not_mine
  exact ⟨still, not_mine, fun closed => unfreed (List.mem_filterMap.mpr ⟨_, closed, rfl⟩)⟩

theorem Sound.framed (sound : Sound cfg p) {key : Nat} {s : Session} (here : p.entries key = some ⟨s, true⟩)
    {events : List Event} {c' : Connection} (orderly : Orderly s.conn.fds events c'.fds)
    (fresh : Fresh p.opened (ops events)) : Framed p key c' events := by
  have sub := sound.opened key s here
  obtain ⟨-, mine, distinct⟩ := orderly p.opened sub (sound.distinct key s here) fresh
  have kept := run_sub (b := ⟨p.opened, s.conn.fds.owned⟩) sub (ops events)
  rw [run_held, mine] at kept
  refine ⟨distinct, kept, fun other s' ne there => ?_⟩
  have spared {fd : Nat} (mem : fd ∈ s'.conn.fds.owned) := sound.spared here orderly fresh
    (sound.opened other s' there mem) (Finset.disjoint_left.mp (sound.apart other key s' s ne there here) mem)
  exact ⟨fun fd mem => (spared mem).1, Finset.disjoint_right.mpr fun fd mem => (spared mem).2.1⟩

/-- Replacing one entry by a sound one. -/
theorem Sound.update (sound : Sound cfg p) {key : Nat} {e : Entry} {cache' : Option LruCache}
    {events : List Event} (framed : Framed p key e.session.conn events)
    (phase : e.alive = true → Phase cfg e.session.conn)
    (pending : e.alive = true → Pending e.session.conn) (wf : CacheWf cache')
    (ok : ∀ kv ∈ cached cache', EvProxy.storable kv.2 = true) : Sound cfg (p.update key e cache' events) where
  cacheWf := wf
  storable := ok
  phase := by
    intro other s here
    rcases entries_update.mp here with ⟨-, rfl⟩ | ⟨-, before⟩
    · exact phase rfl
    · exact sound.phase other s before
  pending := by
    intro other s here
    rcases entries_update.mp here with ⟨-, rfl⟩ | ⟨-, before⟩
    · exact pending rfl
    · exact sound.pending other s before
  distinct := by
    intro other s here
    rcases entries_update.mp here with ⟨-, rfl⟩ | ⟨-, before⟩
    · exact framed.distinct
    · exact sound.distinct other s before
  opened := by
    intro other s here
    rcases entries_update.mp here with ⟨-, rfl⟩ | ⟨ne, before⟩
    · exact framed.opened
    · exact (framed.others other s ne before).1
  apart := by
    intro k k' s s' ne here there
    rcases entries_update.mp here with ⟨rfl, rfl⟩ | ⟨hk, before⟩
    · rcases entries_update.mp there with ⟨rfl, -⟩ | ⟨hk', before'⟩
      · exact absurd rfl ne
      · exact (framed.others k' s' hk' before').2
    · rcases entries_update.mp there with ⟨rfl, rfl⟩ | ⟨hk', before'⟩
      · exact (framed.others k s hk before).2.symm
      · exact sound.apart k k' s s' ne before before'

theorem owned_start {client id fd : Nat} : fd ∈ (Session.start client id).conn.fds.owned ↔ fd = client := by
  rw [Fds.mem_owned]
  simp [Session.start, Connection.init, Connection.fds, eq_comm]

/-- A new connection owns the one descriptor it was made from. -/
theorem Sound.framed_start (sound : Sound cfg p) {key client id : Nat} {events : List Event}
    (opened : client ∈ run track p.opened (ops events)) (grown : p.opened ⊆ run track p.opened (ops events))
    (unowned : ∀ key' s, p.entries key' = some ⟨s, true⟩ → client ∉ s.conn.fds.owned) :
    Framed p key (Session.start client id).conn events where
  distinct := ⟨nofun, nofun, nofun⟩
  opened := by
    intro fd mem
    rwa [owned_start.mp mem]
  others := by
    intro other s _ there
    refine ⟨(sound.opened other s there).trans grown, Finset.disjoint_left.mpr fun fd own => ?_⟩
    rw [owned_start.mp own]
    exact unowned other s there

/-- Closing needs nothing from the kernel. -/
theorem fresh_finishEvents (c : Connection) (lastRef : Bool) (held : Finset Nat) :
    Fresh held (ops (c.finishEvents lastRef)) := by
  have supplied {o : List (Op Nat)} (none_new : ∀ a, .acquire a ∉ o) (held : Finset Nat) : Fresh held o := by
    induction o generalizing held with
    | nil => trivial
    | cons op o ih =>
      refine ⟨?_, ih (fun a mem => none_new a (List.mem_cons_of_mem _ mem)) _⟩
      cases op with
      | acquire a => exact absurd List.mem_cons_self (none_new a)
      | free a => trivial
      | handOver a => trivial
  refine supplied (fun a mem => ?_) held
  rw [Connection.finishEvents] at mem
  revert mem
  cases c.resolveJob <;> cases c.upstream <;> cases c.client <;> cases lastRef <;>
    simp [closing, releasing, ops, Event.op]

/-- **The invariant survives every legal move.** -/
theorem Sound.moved (sound : Sound cfg p) {m : Move} (allowed : p.Allowed cfg m) (moved : Moved cfg p m p') :
    Sound cfg p' := by
  cases moved with
  | stay => exact sound
  | accepted key client id unused =>
    have framed : Framed p key (Session.start client id).conn [.opened client] :=
      sound.framed_start (Finset.mem_insert_self _ _) (Finset.subset_insert _ _)
        fun key' s there own => allowed unused (sound.opened key' s there own)
    exact sound.update framed (fun _ => phase_init cfg client id) (fun _ => nofun) sound.cacheWf sound.storable
  | adopted key client id unused =>
    obtain ⟨opened, unowned⟩ := allowed unused
    have framed : Framed p key (Session.start client id).conn [] :=
      sound.framed_start opened (Finset.Subset.refl _) unowned
    exact sound.update framed (fun _ => phase_init cfg client id) (fun _ => nofun) sound.cacheWf sound.storable
  | stepped key a s here trace step =>
    have phase := sound.phase key s here
    have fresh := allowed s here
    rw [trace] at fresh
    obtain ⟨wf, new⟩ := step.cacheUse.contents sound.cacheWf
    refine sound.update (sound.framed here (step.orderly phase) fresh) (fun _ => phase.step step)
      (fun _ => step.leaves_pending phase sound.cacheWf sound.storable (sound.pending key s here)) wf ?_
    intro kv mem
    rcases new kv mem with old | put
    · exact sound.storable kv old
    · obtain ⟨-, -, response, -, -, ok⟩ := step.cacheUse.of_put put
      rw [response]
      exact ok
  | destroyed key lastRef s here =>
    exact sound.update (sound.framed here (finishEvents_orderly s.conn lastRef) (fresh_finishEvents _ _ _))
      nofun nofun sound.cacheWf sound.storable
  | opened fd =>
    exact { sound with opened := fun key s here => (sound.opened key s here).trans (Finset.subset_insert _ _) }
  | closed fd =>
    refine { sound with opened := fun key s here => ?_ }
    exact Finset.subset_erase.mpr ⟨sound.opened key s here, allowed key s here⟩

theorem sound_run (cfg : Config) (opened : Finset Nat) {moves : List Move}
    (legal : Legal (Allowed cfg) (next cfg) (start cfg opened) moves) :
    Sound cfg (run (next cfg) (start cfg opened) moves) :=
  legal.invariant (fun p m sound allowed => sound.moved allowed (next_moved cfg p m)) (sound_start cfg opened)

end Proxy

/-- The states of a connection that has an upstream socket. -/
def Connection.hasUpstream (c : Connection) : Prop :=
  c.state = .connecting ∨ c.state = .sendingUpstream ∨ c.state = .relaying ∧ c.upstreamEof = false

/-- How state, intent and descriptors agree in each phase. -/
theorem Phase.agree {cfg : Config} {c : Connection} (phase : Phase cfg c) :
    (c.want = .none ↔ c.state = .done) ∧
    (c.want = .readResolver ↔ c.state = .resolving) ∧ (c.want = .readResolver → c.resolveJob.isSome) ∧
    (c.upstream.isSome ↔ c.hasUpstream) := by
  cases phase with
  | reading h => simp [h.want, h.state, h.upstream, Connection.hasUpstream]
  | resolving h => simp [h.want, h.state, h.upstream, h.job, Connection.hasUpstream]
  | connecting h => simp [h.want, h.state, h.upstream, Connection.hasUpstream]
  | sending h => simp [h.want, h.state, h.upstream, Connection.hasUpstream]
  | waiting h => simp [h.want, h.relaying.state, h.relaying.upstream, h.relaying.eof, Connection.hasUpstream]
  | flushing h => simp [h.want, h.relaying.state, h.relaying.upstream, h.relaying.eof, Connection.hasUpstream]
  | failing h => simp [h.want, h.state, h.upstream, Connection.hasUpstream]
  | done h => simp [h.want, h.state, h.upstream, Connection.hasUpstream]

/-- A connection that is not done waits on a descriptor it owns. -/
theorem Phase.waits {cfg : Config} {c : Connection} (phase : Phase cfg c) (unfinished : c.state ≠ .done) :
    ∃ fd, c.wantFd = some fd ∧ fd ∈ c.fds.owned := by
  have client (some_client : c.client.isSome) (want : c.want = .readClient ∨ c.want = .writeClient) :
      ∃ fd, c.wantFd = some fd ∧ fd ∈ c.fds.owned := by
    obtain ⟨fd, own⟩ := Option.isSome_iff_exists.mp some_client
    refine ⟨fd, ?_, Fds.mem_owned.mpr (Or.inl own)⟩
    rcases want with want | want <;> simp [Connection.wantFd, want, own]
  have upstream (some_upstream : c.upstream.isSome) (want : c.want = .readUpstream ∨ c.want = .writeUpstream) :
      ∃ fd, c.wantFd = some fd ∧ fd ∈ c.fds.owned := by
    obtain ⟨fd, own⟩ := Option.isSome_iff_exists.mp some_upstream
    refine ⟨fd, ?_, Fds.mem_owned.mpr (Or.inr (Or.inl own))⟩
    rcases want with want | want <;> simp [Connection.wantFd, want, own]
  cases phase with
  | reading h => exact client h.client (Or.inl h.want)
  | resolving h =>
    obtain ⟨job, own⟩ := Option.isSome_iff_exists.mp h.job
    refine ⟨job.readEnd, by simp [Connection.wantFd, h.want, own], Fds.mem_owned.mpr (Or.inr (Or.inr ?_))⟩
    rw [Connection.fds, own]
    rfl
  | connecting h => exact upstream h.upstream (Or.inr h.want)
  | sending h => exact upstream h.upstream (Or.inr h.want)
  | waiting h => exact upstream h.relaying.upstream (Or.inl h.want)
  | flushing h => exact client h.relaying.client (Or.inr h.want)
  | failing h => exact client h.client (Or.inr h.want)
  | done h => exact absurd h.state unfinished

/-- A write intent is held only while there is something to write. -/
theorem Phase.unsent {cfg : Config} {c : Connection} (phase : Phase cfg c) (pending : Pending c) :
    (c.want = .writeClient → c.outClientOff < c.outClient.length) ∧
    (c.want = .writeUpstream → c.outUpstreamOff < c.outUpstream.length) := by
  refine ⟨fun want => ?_, fun want => ?_⟩
  · rcases phase.of_want want with h | h
    · exact h.pending
    · exact pending h.state
  · rcases phase.of_want want with h | h
    · rw [h.unsent, h.loaded.request, List.length_pos_iff]
      exact buildUpstreamRequest_ne_nil _ _
    · exact h.unsent

/-- What every backend relies on when it waits for a connection. -/
structure Coherent (p : Proxy) (key : Nat) (c : Connection) : Prop where
  waits : c.state ≠ .done → ∃ fd, c.wantFd = some fd ∧ fd ∈ p.opened ∧ fd ∈ c.fds.owned ∧
    ∀ key' s, key' ≠ key → p.entries key' = some ⟨s, true⟩ → fd ∉ s.conn.fds.owned
  done : c.want = .none ↔ c.state = .done
  resolving : c.want = .readResolver ↔ c.state = .resolving
  job : c.want = .readResolver → c.resolveJob.isSome
  upstream : c.upstream.isSome ↔ c.hasUpstream
  toClient : c.want = .writeClient → c.outClientOff < c.outClient.length
  toUpstream : c.want = .writeUpstream → c.outUpstreamOff < c.outUpstream.length

/-- **Coherence.** In every reachable state of the process every live connection
is coherent: any number of connections, any interleaving, any outcomes. -/
theorem connection_coherent (cfg : Config) (opened : Finset Nat) (moves : List Move)
    (legal : Legal (Proxy.Allowed cfg) (Proxy.next cfg) (.start cfg opened) moves) (key : Nat) (s : Session)
    (here : (run (Proxy.next cfg) (.start cfg opened) moves).entries key = some ⟨s, true⟩) :
    Coherent (run (Proxy.next cfg) (.start cfg opened) moves) key s.conn := by
  have sound := Proxy.sound_run cfg opened legal
  have phase := sound.phase key s here
  obtain ⟨done, resolving, job, upstream⟩ := phase.agree
  obtain ⟨toClient, toUpstream⟩ := phase.unsent (sound.pending key s here)
  refine ⟨fun unfinished => ?_, done, resolving, job, upstream, toClient, toUpstream⟩
  obtain ⟨fd, want, own⟩ := phase.waits unfinished
  refine ⟨fd, want, sound.opened key s here own, own, fun key' s' ne there => ?_⟩
  exact Finset.disjoint_left.mp (sound.apart key key' s s' ne.symm here there) own

/-- A client connects and sends a whole request; the name has to be looked up. -/
def lookupMoves : List Move :=
  [.accept 0 5 0,
   .ready 0 { recv := .bytes (bytes "GET http://h/ HTTP/1.1\r\n\r\n"), start := .pending 7 8 }]

theorem connection_coherent_lookup :
    ∃ s, (run (Proxy.next {}) (.start {} {3}) lookupMoves).entries 0 = some ⟨s, true⟩ ∧ s.conn.state = .resolving ∧
      Coherent (run (Proxy.next {}) (.start {} {3}) lookupMoves) 0 s.conn := by
  refine ⟨_, rfl, ?_, connection_coherent {} {3} lookupMoves ?_ 0 _ rfl⟩
  · decide
  · refine ⟨fun _ => by decide, fun s here => ?_, trivial⟩
    obtain ⟨⟩ := here
    decide

end EvProxy
