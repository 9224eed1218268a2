import EvProxy.Runs
import EvProxy.Conn.Step

/-!
# Sessions: a connection and what it has shown

A `Session` is a connection with the history of its events. `drive` makes any
number of `on_ready()` calls; each call meets arbitrary answers of the world and
an arbitrary cache, so every invariant proved of sessions holds whatever the
other connections did in between.
-/

namespace EvProxy
open Text Runs

structure Session where
  conn : Connection
  trace : List Event := []

/-- What one `on_ready()` meets. -/
structure Call where
  answers : Answers
  cache : Option LruCache

namespace Session

/-- A session just begun on an accepted descriptor. -/
def start (client id : Nat) : Session := { conn := .init client id }

/-- One `on_ready()`. -/
def call (cfg : Config) (s : Session) (k : Call) : Session :=
  let x := onReady cfg k.answers ⟨s.conn, k.cache, []⟩
  ⟨x.conn, s.trace ++ x.trace⟩

/-- A sequence of `on_ready()` calls. -/
def drive (cfg : Config) (s : Session) (calls : List Call) : Session := run (call cfg) s calls

/-- What holds at the start and survives every step holds after any calls. -/
theorem drive_invariant {cfg : Config} {P : Session → Prop}
    (step : ∀ {s : Session} {cache cache' : Option LruCache} {events : List Event} {c' : Connection},
      P s → Step cfg s.conn cache events c' cache' → P ⟨c', s.trace ++ events⟩)
    {s : Session} (start : P s) (calls : List Call) : P (s.drive cfg calls) :=
  run_invariant (fun s k holds => step holds (onReady_step cfg k.answers k.cache s.conn)) start calls

end Session

/-! ## The byte streams of a history -/

/-- The four directions bytes move in. -/
inductive Channel where
  | fromClient
  | toClient
  | fromUpstream
  | toUpstream
  deriving DecidableEq

/-- The bytes an event moves. -/
def Event.flow : Channel → Event → Bytes
  | .fromClient, .recvClient data => data
  | .toClient, .sentClient data => data
  | .fromUpstream, .recvUpstream data => data
  | .toUpstream, .sentUpstream _ data => data
  | _, _ => []

/-- All bytes moved in one direction. -/
def stream (ch : Channel) (t : List Event) : Bytes := t.flatMap (Event.flow ch)

@[simp] theorem stream_nil (ch : Channel) : stream ch [] = [] := rfl

@[simp] theorem stream_append (ch : Channel) (t u : List Event) : stream ch (t ++ u) = stream ch t ++ stream ch u :=
  List.flatMap_append

@[simp] theorem stream_cons (ch : Channel) (e : Event) (t : List Event) :
    stream ch (e :: t) = e.flow ch ++ stream ch t :=
  List.flatMap_cons

theorem stream_eq_nil {ch : Channel} {t : List Event} : stream ch t = [] ↔ ∀ e ∈ t, e.flow ch = [] :=
  List.flatMap_eq_nil_iff

/-- An event about descriptors only: it moves no bytes and leaves the cache alone. -/
def Event.descriptor : Event → Bool
  | .attempt _ | .connected _ | .opened _ | .closed _ | .released _ => true
  | _ => false

/-- A stretch of history about descriptors only. -/
def Silent (events : List Event) : Prop := ∀ e ∈ events, e.descriptor = true

theorem Silent.append {e f : List Event} (he : Silent e) (hf : Silent f) : Silent (e ++ f) :=
  List.forall_mem_append.mpr ⟨he, hf⟩

theorem Silent.stream {events : List Event} (silent : Silent events) (ch : Channel) : stream ch events = [] := by
  apply stream_eq_nil.mpr
  intro e he
  have quiet := silent e he
  cases e <;> cases ch <;> first | rfl | cases quiet

theorem Silent.not_mem {events : List Event} (silent : Silent events) {e : Event} (loud : e.descriptor = false) :
    e ∉ events := by
  intro he
  rw [silent e he] at loud
  cases loud

theorem silent_closing (fd : Fd) : Silent (closing fd) := by
  cases fd <;> simp [Silent, closing, Event.descriptor]

theorem silent_releasing (lastRef : Bool) (job : Option ResolveJob) : Silent (releasing lastRef job) := by
  cases job <;> cases lastRef <;> simp [Silent, releasing, Event.descriptor]

theorem silent_finishEvents (c : Connection) (lastRef : Bool) : Silent (c.finishEvents lastRef) :=
  ((silent_releasing _ _).append (silent_closing _)).append (silent_closing _)

theorem Attempts.silent {events : List Event} (tried : Attempts events) : Silent events := by
  induction tried with
  | nil => simp [Silent]
  | noSocket endpoint _ ih => exact Silent.append (e := [.attempt endpoint]) (by simp [Silent, Event.descriptor]) ih
  | closed endpoint fd _ ih =>
    exact Silent.append (e := [.attempt endpoint, .opened fd, .closed fd]) (by simp [Silent, Event.descriptor]) ih

theorem Connect.silent {c c' : Connection} {events : List Event} (dial : Connect c events c') : Silent events := by
  cases dial with
  | exhausted idx tried => exact tried.silent.append (silent_closing _)
  | connected idx fd endpoint tried =>
    exact (tried.silent.append (by simp [Silent, Event.descriptor])).append (silent_closing _)
  | inProgress idx fd endpoint tried =>
    exact (tried.silent.append (by simp [Silent, Event.descriptor])).append (silent_closing _)

theorem Resolve.silent {c c' : Connection} {events : List Event} (resolve : Resolve c events c') :
    Silent events := by
  cases resolve with
  | failed => exact silent_closing _
  | pipeFailed => exact Silent.append (by simp [Silent, Event.descriptor]) (silent_closing _)
  | pending => simp [Silent, Event.descriptor]
  | connect endpoints dial => exact dial.silent

end EvProxy
