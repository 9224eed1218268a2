import EvProxy.Conn.Descriptors
import EvProxy.Conn.CacheUse

/-!
# Many connections, one process

All connections of a process share the response cache and the descriptor table.
A `Move` is whatever can happen next, in any order: a connection is accepted or
made from a descriptor that was handed over, has its `on_ready()` called, or is
destroyed; or the rest of the process (the listener, the resolver's threads)
opens or closes a descriptor of its own. The
three backends differ only in the order they choose. `Moved` lists what a move
can do, and the rules below lift what holds of one connection to all of them.
-/

namespace EvProxy
open Runs Ledger

/-- A session, and whether its connection object still exists. -/
structure Entry where
  session : Session
  alive : Bool := true

structure Proxy where
  entries : Nat → Option Entry := fun _ => none
  cache : Option LruCache
  opened : Finset Nat

inductive Move where
  | accept (key client id : Nat)
  | adopt (key client id : Nat)
  | ready (key : Nat) (answers : Answers)
  | destroy (key : Nat) (lastRef : Bool)
  | opens (fd : Nat)
  | closes (fd : Nat)

/-- `make_cache`, without the choice of lock. -/
def makeCache (cfg : Config) : LruCache := { maxEntries := cfg.cacheMaxEntries, maxBytes := cfg.cacheMaxBytes }

/-- The destructor: the members close what they still hold. -/
def Connection.destroyed (c : Connection) : Connection :=
  { c with client := none, upstream := none, resolveJob := none }

def Session.destroy (lastRef : Bool) (s : Session) : Session :=
  ⟨s.conn.destroyed, s.trace ++ s.conn.finishEvents lastRef⟩

/-- A finished connection holds nothing, so its destructor does nothing. -/
theorem done_destroy {s : Session} (done : Done s.conn) (lastRef : Bool) : s.destroy lastRef = s := by
  obtain ⟨c, t⟩ := s
  have conn : c.destroyed = c := by
    obtain ⟨-, -, client, upstream, job⟩ := done
    cases c
    simp only at client upstream job
    subst client upstream job
    rfl
  simp only [Session.destroy, conn, done.finishEvents lastRef, List.append_nil]

namespace Proxy

/-- A process that has not accepted anything yet. -/
def start (cfg : Config) (opened : Finset Nat) : Proxy where
  cache := if cfg.cacheEnabled then some (makeCache cfg) else none
  opened := opened

theorem cacheWf_start (cfg : Config) (opened : Finset Nat) : CacheWf (start cfg opened).cache := by
  intro l on
  simp only [start] at on
  split at on
  · obtain rfl := Option.some.inj on
    exact LruCache.wf_empty _ _
  · cases on

theorem cached_start (cfg : Config) (opened : Finset Nat) : cached (start cfg opened).cache = [] := by
  simp only [start]
  split <;> rfl

/-- Replace one entry, and apply what its events did to the descriptor table. -/
def update (p : Proxy) (key : Nat) (e : Entry) (cache : Option LruCache) (events : List Event) : Proxy where
  entries := Function.update p.entries key (some e)
  cache := cache
  opened := run track p.opened (ops events)

def next (cfg : Config) (p : Proxy) : Move → Proxy
  | .accept key client id =>
    match p.entries key with
    | none => p.update key { session := .start client id } p.cache [.opened client]
    | some _ => p
  | .adopt key client id =>
    match p.entries key with
    | none => p.update key { session := .start client id } p.cache []
    | some _ => p
  | .ready key a =>
    match p.entries key with
    | some ⟨s, true⟩ =>
      let x := onReady cfg a ⟨s.conn, p.cache, []⟩
      p.update key ⟨⟨x.conn, s.trace ++ x.trace⟩, true⟩ x.cache x.trace
    | _ => p
  | .destroy key lastRef =>
    match p.entries key with
    | some ⟨s, true⟩ => p.update key ⟨s.destroy lastRef, false⟩ p.cache (s.conn.finishEvents lastRef)
    | _ => p
  | .opens fd => { p with opened := insert fd p.opened }
  | .closes fd => { p with opened := p.opened.erase fd }

/-- What the kernel and the rest of the process promise: a new descriptor has a
number that is not open, and nobody closes a connection's descriptor for it. -/
def Allowed (cfg : Config) (p : Proxy) : Move → Prop
  | .accept key client _ => p.entries key = none → client ∉ p.opened
  | .adopt key client _ => p.entries key = none → client ∈ p.opened ∧
      ∀ key' s, p.entries key' = some ⟨s, true⟩ → client ∉ s.conn.fds.owned
  | .ready key a => ∀ s, p.entries key = some ⟨s, true⟩ →
      Fresh p.opened (ops (onReady cfg a ⟨s.conn, p.cache, []⟩).trace)
  | .destroy _ _ => True
  | .opens fd => fd ∉ p.opened
  | .closes fd => ∀ key s, p.entries key = some ⟨s, true⟩ → fd ∉ s.conn.fds.owned

/-- Everything a move can do. -/
inductive Moved (cfg : Config) (p : Proxy) : Move → Proxy → Prop where
  | stay (m : Move) : Moved cfg p m p
  | accepted (key client id : Nat) (unused : p.entries key = none) :
      Moved cfg p (.accept key client id) (p.update key { session := .start client id } p.cache [.opened client])
  | adopted (key client id : Nat) (unused : p.entries key = none) :
      Moved cfg p (.adopt key client id) (p.update key { session := .start client id } p.cache [])
  | stepped (key : Nat) (a : Answers) (s : Session) {events : List Event} {c' : Connection}
      {cache' : Option LruCache} (here : p.entries key = some ⟨s, true⟩)
      (trace : (onReady cfg a ⟨s.conn, p.cache, []⟩).trace = events)
      (step : Step cfg s.conn p.cache events c' cache') :
      Moved cfg p (.ready key a) (p.update key ⟨⟨c', s.trace ++ events⟩, true⟩ cache' events)
  | destroyed (key : Nat) (lastRef : Bool) (s : Session) (here : p.entries key = some ⟨s, true⟩) :
      Moved cfg p (.destroy key lastRef)
        (p.update key ⟨s.destroy lastRef, false⟩ p.cache (s.conn.finishEvents lastRef))
  | opened (fd : Nat) : Moved cfg p (.opens fd) { p with opened := insert fd p.opened }
  | closed (fd : Nat) : Moved cfg p (.closes fd) { p with opened := p.opened.erase fd }

theorem next_moved (cfg : Config) (p : Proxy) (m : Move) : Moved cfg p m (p.next cfg m) := by
  cases m with
  | accept key client id =>
    simp only [next]
    split
    · rename_i unused
      exact .accepted key client id unused
    · exact .stay _
  | adopt key client id =>
    simp only [next]
    split
    · rename_i unused
      exact .adopted key client id unused
    · exact .stay _
  | ready key a =>
    simp only [next]
    split
    · rename_i s here
      exact .stepped key a s here rfl (onReady_step cfg a p.cache s.conn)
    · exact .stay _
  | destroy key lastRef =>
    simp only [next]
    split
    · rename_i s here
      exact .destroyed key lastRef s here
    · exact .stay _
  | opens fd => exact .opened fd
  | closes fd => exact .closed fd

/-! ## Looking up entries -/

variable {cfg : Config} {p : Proxy} {key : Nat} {e : Entry} {cache : Option LruCache} {events : List Event}

@[simp] theorem update_self : (p.update key e cache events).entries key = some e := Function.update_self _ _ _

@[simp] theorem update_other {other : Nat} (ne : other ≠ key) :
    (p.update key e cache events).entries other = p.entries other := Function.update_of_ne ne _ _

theorem entries_update {other : Nat} {e' : Entry} :
    (p.update key e cache events).entries other = some e' ↔
      other = key ∧ e' = e ∨ other ≠ key ∧ p.entries other = some e' := by
  by_cases same : other = key
  · subst same
    simp [eq_comm]
  · simp [same]

/-! ## Lifting what holds of one session -/

/-- What holds of a new entry and survives every step and the destructor holds
of every entry, whatever the others do. -/
theorem entry_invariant {P : Entry → Prop} (start : ∀ client id, P ⟨.start client id, true⟩)
    (step : ∀ {s : Session} {cache cache' : Option LruCache} {events : List Event} {c' : Connection},
      P ⟨s, true⟩ → Step cfg s.conn cache events c' cache' → P ⟨⟨c', s.trace ++ events⟩, true⟩)
    (destroy : ∀ {s : Session} (lastRef : Bool), P ⟨s, true⟩ → P ⟨s.destroy lastRef, false⟩)
    {m : Move} {p' : Proxy} (all : ∀ key e, p.entries key = some e → P e) (moved : Moved cfg p m p') :
    ∀ key e, p'.entries key = some e → P e := by
  intro key e here
  cases moved with
  | stay => exact all key e here
  | accepted key' client id unused =>
    rcases entries_update.mp here with ⟨-, rfl⟩ | ⟨-, before⟩
    · exact start client id
    · exact all key e before
  | adopted key' client id unused =>
    rcases entries_update.mp here with ⟨-, rfl⟩ | ⟨-, before⟩
    · exact start client id
    · exact all key e before
  | stepped key' a s' at_key trace stepped =>
    rcases entries_update.mp here with ⟨-, rfl⟩ | ⟨-, before⟩
    · exact step (all key' _ at_key) stepped
    · exact all key e before
  | destroyed key' lastRef s' at_key =>
    rcases entries_update.mp here with ⟨-, rfl⟩ | ⟨-, before⟩
    · exact destroy lastRef (all key' _ at_key)
    · exact all key e before
  | opened => exact all key e here
  | closed => exact all key e here

/-- What survives every step and the destructor stays true of an entry; entries
are never taken off the table. -/
theorem Moved.persists {P : Entry → Prop}
    (step : ∀ {s : Session} {cache cache' : Option LruCache} {events : List Event} {c' : Connection},
      P ⟨s, true⟩ → Step cfg s.conn cache events c' cache' → P ⟨⟨c', s.trace ++ events⟩, true⟩)
    (destroy : ∀ {s : Session} (lastRef : Bool), P ⟨s, true⟩ → P ⟨s.destroy lastRef, false⟩)
    {m : Move} {p' : Proxy} (moved : Moved cfg p m p') (here : p.entries key = some e) (holds : P e) :
    ∃ e', p'.entries key = some e' ∧ P e' := by
  have keep {key' : Nat} {e' : Entry} {cache' : Option LruCache} {events : List Event}
      (at_key : p.entries key' = some e → P e') :
      ∃ e'', (p.update key' e' cache' events).entries key = some e'' ∧ P e'' := by
    by_cases same : key = key'
    · subst same
      exact ⟨e', update_self, at_key here⟩
    · exact ⟨e, (update_other same).trans here, holds⟩
  cases moved with
  | stay => exact ⟨e, here, holds⟩
  | accepted key' client id unused =>
    refine keep fun there => ?_
    rw [there] at unused
    cases unused
  | adopted key' client id unused =>
    refine keep fun there => ?_
    rw [there] at unused
    cases unused
  | stepped key' a s there trace stepped =>
    refine keep fun again => ?_
    obtain rfl := Option.some.inj (again.symm.trans there)
    exact step holds stepped
  | destroyed key' lastRef s there =>
    refine keep fun again => ?_
    obtain rfl := Option.some.inj (again.symm.trans there)
    exact destroy lastRef holds
  | opened => exact ⟨e, here, holds⟩
  | closed => exact ⟨e, here, holds⟩

/-- The same for the connections that still exist. -/
theorem alive_invariant {P : Session → Prop} (start : ∀ client id, P (.start client id))
    (step : ∀ {s : Session} {cache cache' : Option LruCache} {events : List Event} {c' : Connection},
      P s → Step cfg s.conn cache events c' cache' → P ⟨c', s.trace ++ events⟩)
    {m : Move} {p' : Proxy} (all : ∀ key s, p.entries key = some ⟨s, true⟩ → P s) (moved : Moved cfg p m p') :
    ∀ key s, p'.entries key = some ⟨s, true⟩ → P s := by
  have entries := entry_invariant (P := fun e => e.alive = true → P e.session) (fun client id _ => start client id)
    (fun holds stepped _ => step (holds rfl) stepped) (fun _ _ => nofun)
    (fun key e here alive => all key e.session (by rw [here, ← alive])) moved
  exact fun key s here => entries key ⟨s, true⟩ here rfl

end Proxy

/-- The moves of one exchange that goes well, from the connection to the end of the response. -/
def exchange (key client upstream : Nat) (request response : Bytes) : List Move :=
  [.accept key client key,
   .ready key { recv := .bytes request, start := .hit [⟨[], 0, 0, 0⟩], dial := fun _ => .connected upstream },
   .ready key { send := .accepts 999 },
   .ready key { recv := .bytes response },
   .ready key { send := .accepts 999 },
   .ready key { recv := .bytes [] }]

end EvProxy
