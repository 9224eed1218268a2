import Mathlib.Data.Finset.Option
import EvProxy.Ledger
import EvProxy.Conn.Phase

/-!
# The descriptors of a connection

A connection owns its client socket, its upstream socket and the read end of its
resolver job. If the kernel gives out only numbers that are not open, every step
opens, closes and hands over descriptors in good order: it closes only what the
connection owns, and afterwards the connection owns exactly what it has opened
and not closed (`Step.orderly`).
-/

namespace EvProxy
open Runs Ledger

/-- What an event does to the ledger of open descriptors. -/
def Event.op : Event → Option (Op Nat)
  | .opened fd => some (.acquire fd)
  | .closed fd => some (.free fd)
  | .released fd => some (.handOver fd)
  | _ => none

def ops (events : List Event) : List (Op Nat) := events.filterMap Event.op

theorem ops_append (e f : List Event) : ops (e ++ f) = ops e ++ ops f := List.filterMap_append

/-- The descriptors a connection holds. -/
structure Fds where
  client : Fd
  upstream : Fd
  job : Fd

def Connection.fds (c : Connection) : Fds := ⟨c.client, c.upstream, c.resolveJob.map ResolveJob.readEnd⟩

namespace Fds

def owned (f : Fds) : Finset Nat := f.client.toFinset ∪ f.upstream.toFinset ∪ f.job.toFinset

theorem mem_owned {f : Fds} {n : Nat} :
    n ∈ f.owned ↔ f.client = some n ∨ f.upstream = some n ∨ f.job = some n := by
  simp [owned, Option.mem_def]

/-- No number is held twice. -/
structure Distinct (f : Fds) : Prop where
  client_upstream : ∀ n, f.client = some n → f.upstream ≠ some n
  client_job : ∀ n, f.client = some n → f.job ≠ some n
  upstream_job : ∀ n, f.upstream = some n → f.job ≠ some n

theorem Distinct.dropClient {f : Fds} (h : f.Distinct) : { f with client := none }.Distinct :=
  ⟨nofun, nofun, h.upstream_job⟩

theorem Distinct.dropUpstream {f : Fds} (h : f.Distinct) : { f with upstream := none }.Distinct :=
  ⟨nofun, h.client_job, nofun⟩

theorem Distinct.dropJob {f : Fds} (h : f.Distinct) : { f with job := none }.Distinct :=
  ⟨h.client_upstream, nofun, nofun⟩

end Fds

/-- The events take the descriptors from `f` to `f'` in good order, whatever else is open. -/
def Orderly (f : Fds) (events : List Event) (f' : Fds) : Prop :=
  ∀ held : Finset Nat, f.owned ⊆ held → f.Distinct → Fresh held (ops events) →
    Proper ⟨held, f.owned⟩ (ops events) ∧
    (run Book.step ⟨held, f.owned⟩ (ops events)).mine = f'.owned ∧ f'.Distinct

namespace Orderly

theorem refl (f : Fds) : Orderly f [] f := fun _ _ distinct _ => ⟨trivial, rfl, distinct⟩

theorem trans {f g h : Fds} {e₁ e₂ : List Event} (first : Orderly f e₁ g) (second : Orderly g e₂ h) :
    Orderly f (e₁ ++ e₂) h := by
  intro held sub distinct fresh
  rw [ops_append, Fresh, legal_append] at fresh
  obtain ⟨proper, mine, distinct'⟩ := first held sub distinct fresh.1
  have middle : run Book.step ⟨held, f.owned⟩ (ops e₁) = ⟨run track held (ops e₁), g.owned⟩ := by
    have open_ := run_held ⟨held, f.owned⟩ (ops e₁)
    generalize run Book.step ⟨held, f.owned⟩ (ops e₁) = b at mine open_
    obtain ⟨held', mine'⟩ := b
    simp only at mine open_
    rw [mine, open_]
  have sub' : g.owned ⊆ run track held (ops e₁) := by
    have := run_sub (b := ⟨held, f.owned⟩) sub (ops e₁)
    rwa [middle] at this
  obtain ⟨proper', mine', distinct''⟩ := second _ sub' distinct' fresh.2
  rw [ops_append, Proper, legal_append, run_append, middle]
  exact ⟨⟨proper, proper'⟩, mine', distinct''⟩

/-- Events without descriptors do not count. -/
theorem cons {f f' : Fds} {e : Event} {events : List Event} (quiet : e.op = none) (h : Orderly f events f') :
    Orderly f (e :: events) f' := by
  have same : ops (e :: events) = ops events := List.filterMap_cons_none quiet
  rw [Orderly, same]
  exact h

theorem closeUpstream (f : Fds) : Orderly f (closing f.upstream) { f with upstream := none } := by
  obtain ⟨client, upstream, job⟩ := f
  intro held sub distinct fresh
  cases upstream with
  | none => exact ⟨trivial, rfl, distinct⟩
  | some n =>
    refine ⟨⟨Fds.mem_owned.mpr (Or.inr (Or.inl rfl)), trivial⟩, ?_, ?_⟩
    · ext m
      have := distinct.client_upstream m
      have := distinct.upstream_job m
      simp only [closing, ops, Event.op, List.filterMap_cons, List.filterMap_nil, run_cons, run_nil, Book.step,
        Finset.mem_erase, Fds.mem_owned]
      grind
    · exact distinct.dropUpstream

theorem closeClient (f : Fds) : Orderly f (closing f.client) { f with client := none } := by
  obtain ⟨client, upstream, job⟩ := f
  intro held sub distinct fresh
  cases client with
  | none => exact ⟨trivial, rfl, distinct⟩
  | some n =>
    refine ⟨⟨Fds.mem_owned.mpr (Or.inl rfl), trivial⟩, ?_, ?_⟩
    · ext m
      have := distinct.client_upstream m
      have := distinct.client_job m
      simp only [closing, ops, Event.op, List.filterMap_cons, List.filterMap_nil, run_cons, run_nil, Book.step,
        Finset.mem_erase, Fds.mem_owned]
      grind
    · exact distinct.dropClient

theorem dropJob (client upstream : Fd) (lastRef : Bool) (job : Option ResolveJob) :
    Orderly ⟨client, upstream, job.map ResolveJob.readEnd⟩ (releasing lastRef job) ⟨client, upstream, none⟩ := by
  intro held sub distinct fresh
  cases job with
  | none => exact ⟨trivial, rfl, distinct⟩
  | some j =>
    have mine : (run Book.step ⟨held, (Fds.mk client upstream (some j.readEnd)).owned⟩
        (ops (releasing lastRef (some j)))).mine = (Fds.mk client upstream none).owned := by
      ext m
      have := distinct.client_job m
      have := distinct.upstream_job m
      cases lastRef <;>
      · simp only [releasing, Bool.false_eq_true, if_false, if_true, ops, Event.op, List.filterMap_cons,
          List.filterMap_nil, run_cons, run_nil, Book.step, Finset.mem_erase, Fds.mem_owned]
        grind
    refine ⟨?_, mine, distinct.dropJob⟩
    cases lastRef <;> exact ⟨Fds.mem_owned.mpr (Or.inr (Or.inr rfl)), trivial⟩

/-- A socket for the next candidate. -/
theorem dial (client job : Fd) (fd : Nat) : Orderly ⟨client, none, job⟩ [.opened fd] ⟨client, some fd, job⟩ := by
  intro held sub distinct fresh
  have other {n : Nat} (mem : n ∈ (Fds.mk client none job).owned) : n ≠ fd := by
    rintro rfl
    exact fresh.1 (sub mem)
  refine ⟨⟨fresh.1, trivial⟩, ?_, ?_⟩
  · ext m
    simp only [ops, Event.op, List.filterMap_cons, List.filterMap_nil, run_cons, run_nil, Book.step,
      Finset.mem_insert, Fds.mem_owned]
    grind
  · refine ⟨fun n held_ => ?_, distinct.client_job, fun n new => ?_⟩
    · have := other (Fds.mem_owned.mpr (Or.inl held_))
      simpa using this.symm
    · obtain rfl := Option.some.inj new
      exact fun held_ => other (Fds.mem_owned.mpr (Or.inr (Or.inr held_))) rfl

/-- A socket opened and closed again. -/
theorem attempt (f : Fds) (fd : Nat) : Orderly f [.opened fd, .closed fd] f := by
  intro held sub distinct fresh
  have fresh_mine : fd ∉ f.owned := fun mem => fresh.1 (sub mem)
  refine ⟨⟨fresh.1, Finset.mem_insert_self _ _, trivial⟩, ?_, distinct⟩
  exact Finset.erase_insert fresh_mine

/-- The pipe of a lookup: the read end stays, the write end goes to the resolver. -/
theorem pipe (client upstream : Fd) (readEnd writeEnd : Nat) :
    Orderly ⟨client, upstream, none⟩ [.opened readEnd, .opened writeEnd, .released writeEnd]
      ⟨client, upstream, some readEnd⟩ := by
  intro held sub distinct fresh
  obtain ⟨read_new, write_new, -⟩ := fresh
  have read_other {n : Nat} (mem : n ∈ (Fds.mk client upstream none).owned) : n ≠ readEnd := by
    rintro rfl
    exact read_new (sub mem)
  have write_mine : writeEnd ∉ insert readEnd (Fds.mk client upstream none).owned := by
    intro mem
    exact write_new (Finset.insert_subset_insert readEnd sub mem)
  refine ⟨⟨read_new, write_new, Finset.mem_insert_self _ _, trivial⟩, ?_, ?_⟩
  · change (insert writeEnd (insert readEnd (Fds.mk client upstream none).owned)).erase writeEnd = _
    rw [Finset.erase_insert write_mine]
    ext m
    simp only [Finset.mem_insert, Fds.mem_owned]
    grind
  · refine ⟨distinct.client_upstream, fun n held_ => ?_, fun n held_ => ?_⟩
    · simpa using (read_other (Fds.mem_owned.mpr (Or.inl held_))).symm
    · simpa using (read_other (Fds.mem_owned.mpr (Or.inr (Or.inl held_)))).symm

/-- A pipe opened and closed again. -/
theorem pipeFailed (f : Fds) (readEnd writeEnd : Nat) :
    Orderly f [.opened readEnd, .opened writeEnd, .closed writeEnd, .closed readEnd] f := by
  intro held sub distinct fresh
  obtain ⟨read_new, write_new, -⟩ := fresh
  have read_mine : readEnd ∉ f.owned := fun mem => read_new (sub mem)
  have write_mine : writeEnd ∉ insert readEnd f.owned := by
    intro mem
    exact write_new (Finset.insert_subset_insert readEnd sub mem)
  have closed : (insert writeEnd (insert readEnd f.owned)).erase writeEnd = insert readEnd f.owned :=
    Finset.erase_insert write_mine
  refine ⟨⟨read_new, write_new, Finset.mem_insert_self _ _, ?_, trivial⟩, ?_, distinct⟩
  · change readEnd ∈ (insert writeEnd (insert readEnd f.owned)).erase writeEnd
    rw [closed]
    exact Finset.mem_insert_self _ _
  · change ((insert writeEnd (insert readEnd f.owned)).erase writeEnd).erase readEnd = _
    rw [closed]
    exact Finset.erase_insert read_mine

end Orderly

section Steps
variable {cfg : Config} {c c' : Connection} {events : List Event}

theorem Attempts.orderly (tried : Attempts events) (f : Fds) : Orderly f events f := by
  induction tried with
  | nil => exact .refl f
  | noSocket endpoint _ ih => exact .cons rfl ih
  | closed endpoint fd _ ih => exact .cons rfl ((Orderly.attempt f fd).trans ih)

/-- `finish()`, and the destructor, close everything. -/
theorem finishEvents_orderly (c : Connection) (lastRef : Bool) :
    Orderly c.fds (c.finishEvents lastRef) ⟨none, none, none⟩ :=
  ((Orderly.dropJob c.client c.upstream lastRef c.resolveJob).trans (.closeUpstream _)).trans (.closeClient _)

theorem Connect.orderly (dial : Connect c events c') (upstream : c.upstream = none) :
    Orderly c.fds events c'.fds := by
  have start : c.fds = ⟨c.client, none, c.resolveJob.map ResolveJob.readEnd⟩ := by rw [← upstream]; rfl
  cases dial with
  | exhausted idx tried => exact (tried.orderly c.fds).trans (.closeUpstream c.fds)
  | connected idx fd endpoint tried =>
    rw [upstream, closing, List.append_nil]
    refine (tried.orderly c.fds).trans ?_
    rw [start]
    exact .cons rfl ((Orderly.dial _ _ fd).trans (.cons rfl (.refl _)))
  | inProgress idx fd endpoint tried =>
    rw [upstream, closing, List.append_nil]
    refine (tried.orderly c.fds).trans ?_
    rw [start]
    exact .cons rfl (.dial _ _ fd)

theorem Resolve.orderly (resolve : Resolve c events c') (upstream : c.upstream = none)
    (job : c.resolveJob = none) : Orderly c.fds events c'.fds := by
  cases resolve with
  | failed => exact .closeUpstream c.fds
  | pipeFailed readEnd writeEnd => exact (Orderly.pipeFailed c.fds readEnd writeEnd).trans (.closeUpstream c.fds)
  | pending readEnd writeEnd =>
    have start : c.fds = ⟨c.client, c.upstream, none⟩ := by rw [Connection.fds, job]; rfl
    rw [start]
    exact .pipe c.client c.upstream readEnd writeEnd
  | connect endpoints dial => exact dial.orderly upstream

theorem Lookup.ops {req : Request} {cache cache' : Option LruCache} {key : Bytes} {looked : List Event}
    (lookup : Lookup cfg c req cache key looked cache') : ops looked = [] := by
  cases lookup <;> rfl

theorem Store.ops {cache cache' : Option LruCache} {stored : List Event} (store : Store c cache stored cache') :
    ops stored = [] := by
  cases store <;> rfl

theorem Orderly.of_ops_nil {f : Fds} (quiet : ops events = []) : Orderly f events f := by
  rw [Orderly, quiet]
  exact Orderly.refl f

/-- **Every step keeps the descriptors in good order.** -/
theorem Step.orderly {cache cache' : Option LruCache} (phase : Phase cfg c)
    (step : Step cfg c cache events c' cache') : Orderly c.fds events c'.fds := by
  cases step with
  | idle => exact .refl _
  | hangup lastRef => exact .cons rfl (finishEvents_orderly c lastRef)
  | incomplete => exact .of_ops_nil rfl
  | awaiting => exact .of_ops_nil rfl
  | rejected => exact .cons rfl (.closeUpstream c.fds)
  | hit => exact .cons rfl (.cons rfl (.closeUpstream c.fds))
  | forward data key req want got ready enough lookup resolve =>
    have r : Reading cfg c := phase.of_want want
    exact .cons rfl ((Orderly.of_ops_nil lookup.ops).trans (resolve.orderly r.upstream r.job))
  | unresolved lastRef =>
    exact (Orderly.dropJob c.client c.upstream lastRef c.resolveJob).trans (.closeUpstream _)
  | resolved lastRef endpoints want job dial =>
    have r : Resolving cfg c := phase.of_want want
    exact (Orderly.dropJob c.client c.upstream lastRef c.resolveJob).trans (dial.orderly r.upstream)
  | refused want state dial => exact (Orderly.closeUpstream c.fds).trans (dial.orderly rfl)
  | connected => exact .of_ops_nil rfl
  | sendPart => exact .of_ops_nil rfl
  | sendAll => exact .of_ops_nil rfl
  | sendFailed => exact .cons rfl (.closeUpstream c.fds)
  | recvFailed lastRef => exact .cons rfl (finishEvents_orderly c lastRef)
  | eofDone lastRef want store flushed =>
    exact .cons rfl (((Orderly.closeUpstream c.fds).trans (.of_ops_nil store.ops)).trans
      (finishEvents_orderly { c with upstream := none } lastRef))
  | eofFlush want store pending => exact .cons rfl ((Orderly.closeUpstream c.fds).trans (.of_ops_nil store.ops))
  | recv data =>
    obtain ⟨accum, tooBig, shape⟩ := c.received_eq cfg data
    rw [shape]
    exact .of_ops_nil rfl
  | writePart => exact .of_ops_nil rfl
  | writeMore => exact .of_ops_nil rfl
  | writeLast lastRef => exact .cons rfl (finishEvents_orderly c lastRef)
  | writeFailed lastRef => exact .cons rfl (finishEvents_orderly c lastRef)
  | again lastRef => exact finishEvents_orderly c lastRef

end Steps

end EvProxy
