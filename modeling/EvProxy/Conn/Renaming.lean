import Mathlib.Tactic.Simps.Basic
import EvProxy.Conn.Session

/-!
# Descriptor numbers are opaque

A connection hands descriptors back to the kernel and never looks at their
numbers: renaming them in everything the world answers renames them in
everything the connection does, and changes nothing else (`onReady_rename`).
Two runs that differ only in the numbers the kernel gave out go through the same
states and move the same bytes.
-/

namespace EvProxy
open Text

variable (ρ : Nat → Nat)

def ResolveJob.rename (job : ResolveJob) : ResolveJob :=
  { job with readEnd := ρ job.readEnd, writeEnd := ρ job.writeEnd }

@[simps]
def Connection.rename (c : Connection) : Connection :=
  { c with
    client := c.client.map ρ, upstream := c.upstream.map ρ
    resolveJob := c.resolveJob.map (ResolveJob.rename ρ) }

def Dial.rename : Dial → Dial
  | .noSocket => .noSocket
  | .noNonblock fd => .noNonblock (ρ fd)
  | .connected fd => .connected (ρ fd)
  | .inProgress fd => .inProgress (ρ fd)
  | .refused fd => .refused (ρ fd)

def Start.rename : Start → Start
  | .hit endpoints => .hit endpoints
  | .pending readEnd writeEnd => .pending (ρ readEnd) (ρ writeEnd)
  | .failed ends => .failed (ends.map (Prod.map ρ ρ))

@[simps]
def Answers.rename (a : Answers) : Answers :=
  { a with start := a.start.rename ρ, dial := fun i => (a.dial i).rename ρ }

def Event.rename : Event → Event
  | .sentUpstream fd data => .sentUpstream (fd.map ρ) data
  | .connected fd => .connected (fd.map ρ)
  | .opened fd => .opened (ρ fd)
  | .closed fd => .closed (ρ fd)
  | .released fd => .released (ρ fd)
  | e => e

@[simps]
def Exec.rename (x : Exec) : Exec := ⟨x.conn.rename ρ, x.cache, x.trace.map (Event.rename ρ)⟩

@[simps]
def Session.rename (s : Session) : Session := ⟨s.conn.rename ρ, s.trace.map (Event.rename ρ)⟩

/-! ## The handlers -/

theorem closing_rename (fd : Fd) : closing (fd.map ρ) = (closing fd).map (Event.rename ρ) := by
  cases fd <;> rfl

theorem releasing_rename (lastRef : Bool) (job : Option ResolveJob) :
    releasing lastRef (job.map (ResolveJob.rename ρ)) = (releasing lastRef job).map (Event.rename ρ) := by
  cases job <;> cases lastRef <;> rfl

theorem failWith_rename (response : Bytes) (x : Exec) :
    failWith response (x.rename ρ) = (failWith response x).rename ρ := by
  simp [failWith_eq, Exec.rename, Connection.rename, Connection.failed, closing_rename]

theorem finish_rename (a : Answers) (x : Exec) : finish (a.rename ρ) (x.rename ρ) = (finish a x).rename ρ := by
  simp [finish_eq, Exec.rename, Connection.rename, Connection.finished, Connection.finishEvents, closing_rename,
    releasing_rename, Answers.rename]

theorem log_rename (x : Exec) (events : List Event) :
    (x.rename ρ).log (events.map (Event.rename ρ)) = (x.log events).rename ρ := by
  simp [Exec.log, Exec.rename]

theorem connectLoop_rename (a : Answers) (eps : List Endpoint) (x : Exec) :
    connectLoop (a.rename ρ) eps (x.rename ρ) = (connectLoop a eps x).rename ρ := by
  induction eps generalizing x with
  | nil => exact failWith_rename ρ badGateway x
  | cons endpoint rest ih =>
    simp only [connectLoop]
    have idx : (x.rename ρ).conn.endpointIdx = x.conn.endpointIdx := rfl
    have answer : (a.rename ρ).dial x.conn.endpointIdx = (a.dial x.conn.endpointIdx).rename ρ := rfl
    have again (events : List Event) := ih
      { x with conn := { x.conn with endpointIdx := x.conn.endpointIdx + 1 }, trace := x.trace ++ events }
    rw [idx, answer]
    cases a.dial x.conn.endpointIdx with
    | noSocket =>
      simpa [Dial.rename, startConnect, Exec.rename, Connection.rename, Event.rename] using again [.attempt endpoint]
    | noNonblock fd =>
      simpa [Dial.rename, startConnect, Exec.rename, Connection.rename, Event.rename] using
        again [.attempt endpoint, .opened fd, .closed fd]
    | refused fd =>
      simpa [Dial.rename, startConnect, Exec.rename, Connection.rename, Event.rename] using
        again [.attempt endpoint, .opened fd, .closed fd]
    | connected fd =>
      simp [Dial.rename, startConnect, Exec.rename, Connection.rename, Event.rename, Connection.setWant, closing_rename]
    | inProgress fd =>
      simp [Dial.rename, startConnect, Exec.rename, Connection.rename, Event.rename, Connection.setWant, closing_rename]

theorem beginConnect_rename (a : Answers) (x : Exec) :
    beginConnect (a.rename ρ) (x.rename ρ) = (beginConnect a x).rename ρ :=
  connectLoop_rename ρ a _ x

theorem connectTo_rename (a : Answers) (endpoints : List Endpoint) (x : Exec) :
    connectTo (a.rename ρ) endpoints (x.rename ρ) = (connectTo a endpoints x).rename ρ :=
  beginConnect_rename ρ a { x with conn := { x.conn with endpoints := endpoints, endpointIdx := 0 } }

theorem resetUpstream_rename (x : Exec) : resetUpstream (x.rename ρ) = (resetUpstream x).rename ρ := by
  simp [resetUpstream, Exec.rename, Connection.rename, closing_rename]

theorem resetJob_rename (a : Answers) (x : Exec) : resetJob (a.rename ρ) (x.rename ρ) = (resetJob a x).rename ρ := by
  simp [resetJob, Exec.rename, Connection.rename, releasing_rename, Answers.rename]

theorem finishConnect_rename (a : Answers) (x : Exec) :
    finishConnect (a.rename ρ) (x.rename ρ) = (finishConnect a x).rename ρ := by
  have ok : (a.rename ρ).connectOk = a.connectOk := rfl
  simp only [finishConnect, ok]
  split
  · rw [resetUpstream_rename]
    exact beginConnect_rename ρ a _
  · simp [Exec.rename, Connection.rename, Event.rename, Connection.setWant]

theorem beginResolve_rename (cfg : Config) (a : Answers) (x : Exec) :
    beginResolve cfg (a.rename ρ) (x.rename ρ) = (beginResolve cfg a x).rename ρ := by
  have lookup : (a.rename ρ).lookup = a.lookup := rfl
  have start : (a.rename ρ).start = a.start.rename ρ := rfl
  simp only [beginResolve, lookup, start]
  split
  · split
    · exact failWith_rename ρ _ x
    · exact connectTo_rename ρ a _ x
  · cases a.start with
    | hit endpoints => exact connectTo_rename ρ a endpoints x
    | pending readEnd writeEnd =>
      simp [Start.rename, Exec.rename, Connection.rename, ResolveJob.rename, Event.rename, Connection.setWant]
    | failed ends =>
      cases ends with
      | none => exact failWith_rename ρ _ x
      | some ends =>
        obtain ⟨readEnd, writeEnd⟩ := ends
        simp only [Start.rename, Option.map_some, Prod.map]
        rw [← failWith_rename, ← log_rename]
        rfl

theorem finishResolve_rename (a : Answers) (x : Exec) :
    finishResolve (a.rename ρ) (x.rename ρ) = (finishResolve a x).rename ρ := by
  cases present : x.conn.resolveJob with
  | none => simp only [finishResolve, Exec.rename_conn, Connection.rename_resolveJob, present, Option.map_none]
  | some j =>
    simp only [finishResolve, Exec.rename_conn, Connection.rename_resolveJob, Answers.rename_job, present,
      Option.map_some]
    cases a.job.ready with
    | false => rfl
    | true =>
      cases a.job.ok with
      | false => exact (congrArg (failWith badGateway) (resetJob_rename ρ a x)).trans (failWith_rename ρ badGateway _)
      | true =>
        simp only [Bool.not_true, Bool.false_eq_true, if_false, if_true]
        rw [← beginConnect_rename]
        congr 1
        simp only [resetJob, Exec.rename, Connection.rename, Answers.rename_lastRef, present, Option.map_some,
          Option.map_none, List.map_append]
        congr 1
        exact congrArg _ (releasing_rename ρ a.lastRef (some j))

theorem awaitBody_rename (cfg : Config) (a : Answers) (x : Exec) :
    awaitBody cfg (a.rename ρ) (x.rename ρ) = (awaitBody cfg a x).rename ρ := by
  simp only [awaitBody, Exec.rename_conn, Exec.rename_cache, Connection.rename_req, Connection.rename_inClient]
  split
  · rfl
  · split
    · rw [← beginResolve_rename]
      rfl
    · split
      · split
        · rw [← failWith_rename, ← log_rename]
          rfl
        · rw [← beginResolve_rename, ← log_rename]
          rfl
      · rw [← beginResolve_rename]
        rfl

/-! A call starts with nothing logged. -/

theorem doReadClient_rename (cfg : Config) (a : Answers) (c : Connection) (cache : Option LruCache) :
    doReadClient cfg (a.rename ρ) ⟨c.rename ρ, cache, []⟩ = (doReadClient cfg a ⟨c, cache, []⟩).rename ρ := by
  simp only [doReadClient, Answers.rename_recv, Connection.rename_parsed, Connection.rename_inClient,
    Connection.rename_req]
  split
  · rfl
  · rw [← finish_rename]
    rfl
  · rw [← finish_rename]
    rfl
  · split
    · rw [← awaitBody_rename]
      rfl
    · split
      · split
        · rw [← failWith_rename]
          rfl
        · rfl
      · rw [← failWith_rename]
        rfl
      · rw [← failWith_rename]
        rfl
      · split
        · rw [← failWith_rename]
          rfl
        · rw [← awaitBody_rename]
          rfl

theorem doWriteUpstream_rename (a : Answers) (c : Connection) (cache : Option LruCache) :
    doWriteUpstream (a.rename ρ) ⟨c.rename ρ, cache, []⟩ = (doWriteUpstream a ⟨c, cache, []⟩).rename ρ := by
  simp only [doWriteUpstream, Answers.rename_send, Connection.rename_outUpstream, Connection.rename_outUpstreamOff]
  split
  · rfl
  · split <;> rfl
  · rw [← failWith_rename]
    rfl

theorem storeInCache_rename (x : Exec) : storeInCache (x.rename ρ) = (storeInCache x).rename ρ := by
  simp only [storeInCache, Exec.rename_cache, Exec.rename_conn, Connection.rename_cacheKey,
    Connection.rename_cacheTooBig, Connection.rename_upstreamEof, Connection.rename_cacheAccum]
  split
  · rfl
  · split
    · rfl
    · split
      · rfl
      · split
        · rfl
        · rw [← log_rename]
          rfl

theorem doReadUpstream_rename (cfg : Config) (a : Answers) (c : Connection) (cache : Option LruCache) :
    doReadUpstream cfg (a.rename ρ) ⟨c.rename ρ, cache, []⟩ = (doReadUpstream cfg a ⟨c, cache, []⟩).rename ρ := by
  have stored : storeInCache (resetUpstream ⟨{ c.rename ρ with upstreamEof := true }, cache, [.upstreamEof]⟩) =
      (storeInCache (resetUpstream ⟨{ c with upstreamEof := true }, cache, [.upstreamEof]⟩)).rename ρ := by
    rw [← storeInCache_rename, ← resetUpstream_rename]
    rfl
  have ended {y z : Exec} (same : y = z.rename ρ) :
      (if y.conn.outClient.length ≤ y.conn.outClientOff then finish (a.rename ρ) y
        else { y with conn := y.conn.setWant .writeClient }) =
      (if z.conn.outClient.length ≤ z.conn.outClientOff then finish a z
        else { z with conn := z.conn.setWant .writeClient }).rename ρ := by
    subst same
    simp only [Exec.rename_conn, Connection.rename_outClient, Connection.rename_outClientOff]
    split
    · exact finish_rename ρ a z
    · rfl
  simp only [doReadUpstream, Answers.rename_recv]
  split
  · rfl
  · rw [← finish_rename]
    rfl
  · exact ended stored
  · simp only [accumulate, Connection.rename_cacheKey, Connection.rename_cacheTooBig, Connection.rename_cacheAccum]
    split
    · split <;> rfl
    · rfl

theorem doWriteClient_rename (a : Answers) (c : Connection) (cache : Option LruCache) :
    doWriteClient (a.rename ρ) ⟨c.rename ρ, cache, []⟩ = (doWriteClient a ⟨c, cache, []⟩).rename ρ := by
  simp only [doWriteClient, Answers.rename_send, Connection.rename_outClient, Connection.rename_outClientOff,
    Connection.rename_state, Connection.rename_upstreamEof]
  split
  · rfl
  · split
    · rfl
    · split
      · rw [← finish_rename]
        rfl
      · rfl
  · rw [← finish_rename]
    rfl

/-- **Renaming descriptors commutes with `on_ready()`.** -/
theorem onReady_rename (cfg : Config) (a : Answers) (c : Connection) (cache : Option LruCache) :
    onReady cfg (a.rename ρ) ⟨c.rename ρ, cache, []⟩ = (onReady cfg a ⟨c, cache, []⟩).rename ρ := by
  simp only [onReady, Connection.rename_want, Connection.rename_state]
  split
  · exact doReadClient_rename ρ cfg a c cache
  · exact doWriteClient_rename ρ a c cache
  · exact doReadUpstream_rename ρ cfg a c cache
  · exact finishResolve_rename ρ a ⟨c, cache, []⟩
  · split
    · exact finishConnect_rename ρ a ⟨c, cache, []⟩
    · exact doWriteUpstream_rename ρ a c cache
  · exact finish_rename ρ a ⟨c, cache, []⟩

theorem Session.call_rename (cfg : Config) (s : Session) (a : Answers) (cache : Option LruCache) :
    (s.rename ρ).call cfg ⟨a.rename ρ, cache⟩ = (s.call cfg ⟨a, cache⟩).rename ρ := by
  simp only [Session.call, Session.rename_conn, onReady_rename]
  simp [Session.rename]

theorem stream_rename (ch : Channel) (t : List Event) : stream ch (t.map (Event.rename ρ)) = stream ch t := by
  rw [stream, stream, List.flatMap_map]
  refine List.flatMap_congr fun e _ => ?_
  cases e <;> cases ch <;> rfl

end EvProxy
