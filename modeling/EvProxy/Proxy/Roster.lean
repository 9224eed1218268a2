import EvProxy.Proxy.System

/-!
# The connections of a backend

Every backend makes its connections one after the other, numbered by `next_id_`,
from the descriptors it was given. `Roster` says which connection came from which
descriptor, and that each of them has only seen `on_ready()` calls and its
destructor. `serveOnce` is the loop body that the threads of `thread_per_conn`
and `thread_pool` share.
-/

namespace EvProxy
open Runs

/-- What one round of the loop meets: the answers if `wait_ready` succeeds, and whether the destructor drops
the last reference to a job. -/
structure Wait where
  ready : Option Answers := none
  lastRef : Bool := true

/-- Another round: the connection is not done, waits for something, and that is ready in time. -/
def Session.round (s : Session) (w : Wait) : Option Answers :=
  if s.conn.done then none
  else
    match s.conn.wantFd with
    | none => none
    | some _ => w.ready

/-- One round of the loop over a connection. `false`: the loop is over, and the connection was destroyed. -/
def Proxy.serveOnce (cfg : Config) (p : Proxy) (key : Nat) (w : Wait) : Bool × Proxy :=
  match p.entries key with
  | some ⟨s, true⟩ =>
    match s.round w with
    | some a => (true, p.next cfg (.ready key a))
    | none => (false, p.next cfg (.destroy key w.lastRef))
  | _ => (false, p)  -- a thread has a connection when it gets here

/-- The connection still exists. -/
def Proxy.Exists (p : Proxy) (key : Nat) : Prop := ∃ s, p.entries key = some ⟨s, true⟩

theorem Proxy.exists_iff {p : Proxy} {key : Nat} : p.Exists key ↔ (p.entries key).map Entry.alive = some true := by
  constructor
  · rintro ⟨s, here⟩
    rw [here]
    rfl
  · intro alive
    obtain ⟨⟨s, _⟩, here, rfl⟩ := Option.map_eq_some_iff.mp alive
    exact ⟨s, here⟩

instance (p : Proxy) (key : Nat) : Decidable (p.Exists key) := decidable_of_iff _ Proxy.exists_iff.symm

/-- The entry is a connection made from `fd`. -/
def Entry.From (cfg : Config) (fd id : Nat) (e : Entry) : Prop :=
  ∃ calls, (e.alive = true → e.session = (Session.start fd id).drive cfg calls) ∧
    (e.alive = false → ∃ lastRef, e.session = ((Session.start fd id).drive cfg calls).destroy lastRef)

theorem Entry.From.ready {cfg : Config} {fd id : Nat} {s : Session} (h : Entry.From cfg fd id ⟨s, true⟩) (k : Call) :
    Entry.From cfg fd id ⟨s.call cfg k, true⟩ := by
  obtain ⟨calls, alive, -⟩ := h
  refine ⟨calls ++ [k], fun _ => ?_, nofun⟩
  obtain rfl := alive rfl
  simp only [Session.drive, run_append, run_cons, run_nil]

theorem Entry.From.destroy {cfg : Config} {fd id : Nat} {s : Session} (h : Entry.From cfg fd id ⟨s, true⟩)
    (lastRef : Bool) : Entry.From cfg fd id ⟨s.destroy lastRef, false⟩ := by
  obtain ⟨calls, alive, -⟩ := h
  refine ⟨calls, nofun, fun _ => ⟨lastRef, ?_⟩⟩
  obtain rfl := alive rfl
  rfl

/-- The `k`-th descriptor became the `k`-th connection, and there are no others. -/
structure Roster (cfg : Config) (fds : List Nat) (p : Proxy) : Prop where
  made : ∀ (k fd : Nat), fds[k]? = some fd → ∃ e, p.entries k = some e ∧ e.From cfg fd k
  only : ∀ k, fds.length ≤ k → p.entries k = none

namespace Proxy

variable {cfg : Config} {p : Proxy} {fds : List Nat} {key : Nat}

theorem not_exists_start (cfg : Config) (opened : Finset Nat) (key : Nat) : ¬ (start cfg opened).Exists key := by
  rintro ⟨s, here⟩
  cases here

/-- A round is an `on_ready()`, or the destructor. -/
theorem serveOnce_cases (cfg : Config) (here : p.Exists key) (w : Wait) :
    (∃ a, p.serveOnce cfg key w = (true, p.next cfg (.ready key a))) ∨
      p.serveOnce cfg key w = (false, p.next cfg (.destroy key w.lastRef)) := by
  obtain ⟨s, here⟩ := here
  simp only [serveOnce, here]
  split
  · exact .inl ⟨_, rfl⟩
  · exact .inr rfl

theorem ready_eq (cfg : Config) {s : Session} (here : p.entries key = some ⟨s, true⟩) (a : Answers) :
    (p.next cfg (.ready key a)).entries = Function.update p.entries key (some ⟨s.call cfg ⟨a, p.cache⟩, true⟩) := by
  simp only [next, here]
  rfl

theorem destroy_eq (cfg : Config) {s : Session} (here : p.entries key = some ⟨s, true⟩) (lastRef : Bool) :
    (p.next cfg (.destroy key lastRef)).entries = Function.update p.entries key (some ⟨s.destroy lastRef, false⟩) := by
  simp only [next, here]
  rfl

theorem adopt_eq (cfg : Config) (unused : p.entries key = none) (client id : Nat) :
    (p.next cfg (.adopt key client id)).entries = Function.update p.entries key (some ⟨.start client id, true⟩) := by
  simp only [next, unused]
  rfl

theorem exists_ready (cfg : Config) (here : p.Exists key) (a : Answers) {k : Nat} :
    (p.next cfg (.ready key a)).Exists k ↔ p.Exists k := by
  obtain ⟨s, here⟩ := here
  rw [Exists, ready_eq cfg here]
  by_cases same : k = key
  · subst same
    simp [Exists, here]
  · simp [Exists, same]

theorem exists_destroy (cfg : Config) (here : p.Exists key) (lastRef : Bool) {k : Nat} :
    (p.next cfg (.destroy key lastRef)).Exists k ↔ k ≠ key ∧ p.Exists k := by
  obtain ⟨s, here⟩ := here
  rw [Exists, destroy_eq cfg here]
  by_cases same : k = key
  · subst same
    simp
  · simp [Exists, same]

theorem exists_adopt (cfg : Config) (unused : p.entries key = none) (client id : Nat) {k : Nat} :
    (p.next cfg (.adopt key client id)).Exists k ↔ k = key ∨ p.Exists k := by
  rw [Exists, adopt_eq cfg unused]
  by_cases same : k = key
  · subst same
    simp
  · simp [Exists, same]

end Proxy

namespace Roster

variable {cfg : Config} {p p' : Proxy} {fds : List Nat} {key : Nat}

theorem start (cfg : Config) (opened : Finset Nat) : Roster cfg [] (.start cfg opened) :=
  ⟨nofun, fun _ _ => rfl⟩

/-- Moves of the rest of the process. -/
theorem congr (h : Roster cfg fds p) (same : p'.entries = p.entries) : Roster cfg fds p' :=
  ⟨fun k fd there => same ▸ h.made k fd there, fun k past => same ▸ h.only k past⟩

theorem unused (h : Roster cfg fds p) : p.entries fds.length = none := h.only _ (Nat.le_refl _)

/-- An entry is replaced by a later one of the same connection. -/
theorem update (h : Roster cfg fds p) {e e' : Entry} (here : p.entries key = some e)
    (later : ∀ fd, e.From cfg fd key → e'.From cfg fd key)
    (entries : p'.entries = Function.update p.entries key (some e')) : Roster cfg fds p' := by
  constructor
  · intro k fd there
    obtain ⟨e₀, before, origin⟩ := h.made k fd there
    rw [entries]
    by_cases same : k = key
    · subst same
      obtain rfl := Option.some.inj (before.symm.trans here)
      exact ⟨e', Function.update_self _ _ _, later fd origin⟩
    · exact ⟨e₀, (Function.update_of_ne same _ _).trans before, origin⟩
  · intro k past
    have none := h.only k past
    have other : k ≠ key := by
      rintro rfl
      rw [here] at none
      cases none
    rw [entries, Function.update_of_ne other, none]

theorem ready (h : Roster cfg fds p) (here : p.Exists key) (a : Answers) :
    Roster cfg fds (p.next cfg (.ready key a)) := by
  obtain ⟨s, here⟩ := here
  exact h.update here (fun fd origin => origin.ready _) (Proxy.ready_eq cfg here a)

theorem destroy (h : Roster cfg fds p) (here : p.Exists key) (lastRef : Bool) :
    Roster cfg fds (p.next cfg (.destroy key lastRef)) := by
  obtain ⟨s, here⟩ := here
  exact h.update here (fun fd origin => origin.destroy lastRef) (Proxy.destroy_eq cfg here lastRef)

/-- One more connection. -/
theorem adopt (h : Roster cfg fds p) (client : Nat) :
    Roster cfg (fds ++ [client]) (p.next cfg (.adopt fds.length client fds.length)) := by
  have entries := Proxy.adopt_eq cfg h.unused client fds.length
  constructor
  · intro k fd there
    rw [entries]
    by_cases last : k = fds.length
    · subst last
      obtain rfl : client = fd := by simpa using there
      exact ⟨_, Function.update_self _ _ _, [], fun _ => rfl, nofun⟩
    · have old : fds[k]? = some fd := by
        have bound := (List.getElem?_eq_some_iff.mp there).1
        rw [List.length_append, List.length_singleton] at bound
        rwa [List.getElem?_append_left (by omega)] at there
      rw [Function.update_of_ne last]
      exact h.made k fd old
  · intro k past
    rw [List.length_append, List.length_singleton] at past
    rw [entries, Function.update_of_ne (by omega)]
    exact h.only k (by omega)

end Roster

end EvProxy
