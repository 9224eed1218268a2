import EvProxy.Loop.Registration
import EvProxy.Proxy.Roster

/-!
# Who has an open descriptor

An open descriptor is a connection's, or `Foreign`: the rest of the process has
it. Connections take from the rest only the descriptors they are made from, and
give it only what they hand to the resolver's threads (`Takes`). A backend holds
some of the foreign descriptors itself, accepted and not yet a connection's; the
others are those of the rest of the process, which it opened itself or was given
and has not closed since (`elsewhere`). `Account` is the exact account of both,
with one rule for each way it changes.
-/

namespace EvProxy
open Runs Ledger

namespace Proxy

variable {cfg : Config} {p p' p'' : Proxy} {key fd : Nat} {xs ys : List Nat}

/-! ## What connections give away -/

/-- What a connection has done so far. -/
def traceOf (p : Proxy) (key : Nat) : List Event := ((p.entries key).map fun e => e.session.trace).getD []

/-- What connections hand to the resolver's threads between `p` and a later `p'`. -/
def given (p p' : Proxy) : Set Nat := {fd | ∃ key, .released fd ∈ (p'.traceOf key).drop (p.traceOf key).length}

theorem traceOf_eq {e : Entry} (here : p.entries key = some e) : p.traceOf key = e.session.trace := by
  rw [traceOf, here]
  rfl

theorem traceOf_congr (same : p'.entries = p.entries) (key : Nat) : p'.traceOf key = p.traceOf key := by
  rw [traceOf, traceOf, same]

/-- What a connection has done is never undone. -/
theorem Moved.trace {m : Move} (moved : Moved cfg p m p') (key : Nat) : p.traceOf key <+: p'.traceOf key := by
  cases entry : p.entries key with
  | none =>
    rw [traceOf, entry]
    exact List.nil_prefix
  | some e =>
    obtain ⟨e', here, longer⟩ := moved.persists (P := fun e' => e.session.trace <+: e'.session.trace)
      (fun before _ => before.trans (List.prefix_append _ _)) (fun _ before => before.trans (List.prefix_append _ _))
      entry (List.prefix_refl _)
    rwa [traceOf_eq entry, traceOf_eq here]

/-- Where no entry changes nothing is given. -/
theorem given_of_entries (same : p'.entries = p.entries) : p.given p' = ∅ := by
  rw [Set.eq_empty_iff_forall_notMem]
  rintro fd ⟨key, mem⟩
  rw [traceOf_congr same, List.drop_length] at mem
  cases mem

@[simp] theorem given_self (p : Proxy) : p.given p = ∅ := given_of_entries rfl

@[simp] theorem given_opens (cfg : Config) (p : Proxy) (fd : Nat) : p.given (p.next cfg (.opens fd)) = ∅ :=
  given_of_entries rfl

@[simp] theorem given_closes (cfg : Config) (p : Proxy) (fd : Nat) : p.given (p.next cfg (.closes fd)) = ∅ :=
  given_of_entries rfl

theorem given_trans (first : ∀ key, p.traceOf key <+: p'.traceOf key)
    (second : ∀ key, p'.traceOf key <+: p''.traceOf key) : p.given p'' = p.given p' ∪ p'.given p'' := by
  ext fd
  have split (key : Nat) : (p''.traceOf key).drop (p.traceOf key).length =
      (p'.traceOf key).drop (p.traceOf key).length ++ (p''.traceOf key).drop (p'.traceOf key).length := by
    obtain ⟨events, eq⟩ := first key
    obtain ⟨events', eq'⟩ := second key
    rw [← eq', ← eq]
    simp
  simp only [given, split, List.mem_append, Set.mem_union, Set.mem_ofPred_eq]
  exact exists_or

/-- A connection gives what it has newly released. -/
theorem given_update {e : Entry} {new : List Event} (trace : e.session.trace = p.traceOf key ++ new)
    (cache' : Option LruCache) (events : List Event) :
    p.given (p.update key e cache' events) = {fd | .released fd ∈ new} := by
  ext fd
  have mine : ((p.update key e cache' events).traceOf key).drop (p.traceOf key).length = new := by
    rw [traceOf_eq update_self, trace, List.drop_left]
  constructor
  · rintro ⟨key', mem⟩
    by_cases same : key' = key
    · subst same
      rwa [mine] at mem
    · have still : (p.update key e cache' events).traceOf key' = p.traceOf key' := by
        rw [traceOf, traceOf, update_other same]
      rw [still, List.drop_length] at mem
      cases mem
  · intro mem
    exact ⟨key, by rwa [mine]⟩

theorem released_iff {events : List Event} : .released fd ∈ events ↔ .handOver fd ∈ ops events := by
  simp only [ops, List.mem_filterMap]
  constructor
  · intro mem
    exact ⟨_, mem, rfl⟩
  · rintro ⟨e, listed, counts⟩
    cases e with
    | released n =>
      cases counts
      exact listed
    | _ => cases counts

/-! ## Legal moves -/

/-- Legal moves lead from `p` to `p'`. -/
def Leads (cfg : Config) (p p' : Proxy) : Prop :=
  ∃ moves, Legal (Allowed cfg) (next cfg) p moves ∧ p' = run (next cfg) p moves

theorem Leads.refl (cfg : Config) (p : Proxy) : Leads cfg p p := ⟨[], trivial, rfl⟩

theorem Leads.trans (first : Leads cfg p p') (second : Leads cfg p' p'') : Leads cfg p p'' := by
  obtain ⟨ms, legal, rfl⟩ := first
  obtain ⟨ns, legal', rfl⟩ := second
  exact ⟨ms ++ ns, legal_append.mpr ⟨legal, legal'⟩, (run_append ..).symm⟩

theorem leads_of_allowed {m : Move} (allowed : p.Allowed cfg m) : Leads cfg p (p.next cfg m) :=
  ⟨[m], ⟨allowed, trivial⟩, rfl⟩

theorem Leads.sound (leads : Leads cfg p p') (sound : p.Sound cfg) : p'.Sound cfg := by
  obtain ⟨moves, legal, rfl⟩ := leads
  exact legal.invariant (fun p m sound allowed => sound.moved allowed (next_moved cfg p m)) sound

theorem Leads.trace (leads : Leads cfg p p') (key : Nat) : p.traceOf key <+: p'.traceOf key := by
  obtain ⟨moves, -, rfl⟩ := leads
  exact run_invariant (P := fun later : Proxy => p.traceOf key <+: later.traceOf key)
    (fun later m longer => longer.trans ((next_moved cfg later m).trace key)) (List.prefix_refl _) moves

/-- The connections, or someone who closes, take `xs` from the rest of the process and nothing else; the rest gets
what connections give it, and that was not the rest's before. -/
structure Takes (cfg : Config) (p : Proxy) (xs : List Nat) (p' : Proxy) : Prop where
  leads : Leads cfg p p'
  foreign : ∀ fd, p'.Foreign fd ↔ p.Foreign fd ∧ fd ∉ xs ∨ fd ∈ p.given p'
  new : ∀ fd ∈ p.given p', p.Foreign fd → fd ∈ xs

theorem Takes.refl (cfg : Config) (p : Proxy) : Takes cfg p [] p where
  leads := .refl cfg p
  foreign := by simp
  new := by simp

/-- One after the other, where the second takes what the rest of the process had all along. -/
theorem Takes.trans (first : Takes cfg p xs p') (second : Takes cfg p' ys p'')
    (had : ∀ fd ∈ ys, p.Foreign fd ∧ fd ∉ xs) : Takes cfg p (xs ++ ys) p'' := by
  have given := given_trans first.leads.trace second.leads.trace
  refine ⟨first.leads.trans second.leads, fun fd => ?_, fun fd mem held => ?_⟩
  · rw [second.foreign, first.foreign, given, List.mem_append, not_or, Set.mem_union]
    constructor
    · rintro (⟨⟨held, out⟩ | gave, out'⟩ | gave)
      · exact Or.inl ⟨held, out, out'⟩
      · exact Or.inr (Or.inl gave)
      · exact Or.inr (Or.inr gave)
    · rintro (⟨held, out, out'⟩ | gave | gave)
      · exact Or.inl ⟨Or.inl ⟨held, out⟩, out'⟩
      · refine Or.inl ⟨Or.inr gave, fun mem => ?_⟩
        obtain ⟨held, out⟩ := had fd mem
        exact out (first.new fd gave held)
      · exact Or.inr gave
  · rw [given] at mem
    rw [List.mem_append]
    by_cases taken : fd ∈ xs
    · exact Or.inl taken
    · rcases mem with gave | gave
      · exact Or.inl (first.new fd gave held)
      · exact Or.inr (second.new fd gave ((first.foreign fd).mpr (Or.inl ⟨held, taken⟩)))

/-- The second takes nothing. -/
theorem Takes.then (first : Takes cfg p xs p') (second : Takes cfg p' [] p'') : Takes cfg p xs p'' := by
  have both := first.trans second fun fd mem => absurd mem List.not_mem_nil
  rwa [List.append_nil] at both

/-! ## The single moves -/

/-- No connection but this one has it. -/
def Spare (p : Proxy) (key fd : Nat) : Prop :=
  ∀ key' ≠ key, ∀ s, p.entries key' = some ⟨s, true⟩ → fd ∉ s.conn.fds.owned

theorem foreign_update {e : Entry} {cache' : Option LruCache} {events : List Event} :
    (p.update key e cache' events).Foreign fd ↔
      fd ∈ run track p.opened (ops events) ∧ (e.alive = true → fd ∉ e.session.conn.fds.owned) ∧ p.Spare key fd := by
  refine and_congr_right fun _ => ⟨fun unowned => ⟨fun alive => ?_, fun key' other s there => ?_⟩, ?_⟩
  · exact unowned key e.session (update_self.trans (by rw [← alive]))
  · exact unowned key' s ((update_other other).trans there)
  · rintro ⟨mine, spare⟩ key' s there
    rcases entries_update.mp there with ⟨-, rfl⟩ | ⟨other, before⟩
    · exact mine rfl
    · exact spare key' other s before

theorem foreign_here {s : Session} (here : p.entries key = some ⟨s, true⟩) :
    p.Foreign fd ↔ fd ∈ p.opened ∧ fd ∉ s.conn.fds.owned ∧ p.Spare key fd := by
  refine and_congr_right fun _ => ⟨fun unowned => ⟨unowned key s here, fun key' _ => unowned key'⟩, ?_⟩
  rintro ⟨mine, spare⟩ key' s' there
  by_cases same : key' = key
  · subst same
    cases here.symm.trans there
    exact mine
  · exact spare key' same s' there

theorem foreign_unused (unused : p.entries key = none) : p.Foreign fd ↔ fd ∈ p.opened ∧ p.Spare key fd := by
  refine and_congr_right fun _ => ⟨fun unowned key' _ => unowned key', fun spare key' s there => spare key' ?_ s there⟩
  rintro rfl
  cases unused.symm.trans there

/-- A connection acts on its own descriptors. -/
theorem Sound.takes_acted (sound : p.Sound cfg) {s : Session} (here : p.entries key = some ⟨s, true⟩)
    {events : List Event} {e : Entry} {cache' : Option LruCache}
    (orderly : Orderly s.conn.fds events e.session.conn.fds) (fresh : Fresh p.opened (ops events))
    (owns : e.alive = false → e.session.conn.fds.owned = ∅) (trace : e.session.trace = s.trace ++ events)
    (leads : Leads cfg p (p.update key e cache' events)) : Takes cfg p [] (p.update key e cache' events) := by
  have given : p.given (p.update key e cache' events) = {fd | .released fd ∈ events} :=
    given_update (by rw [traceOf_eq here, trace]) cache' events
  have sub := sound.opened key s here
  obtain ⟨proper, mine, -⟩ := orderly p.opened sub (sound.distinct key s here) fresh
  have others := run_others sub proper
  rw [run_held, mine] at others
  -- What someone else has is not released.
  have unnamed {fd : Nat} (open_ : fd ∈ p.opened) (other : fd ∉ s.conn.fds.owned) : .released fd ∉ events :=
    fun released => (frame proper open_ other).2.2.2 (released_iff.mp released)
  have spare {fd : Nat} (gave : .released fd ∈ events) : p.Spare key fd := by
    intro key' other s' there own
    have apart := Finset.disjoint_left.mp (sound.apart key' key s' s other there here) own
    exact unnamed (sound.opened key' s' there own) apart gave
  have alive (fd : Nat) : (e.alive = true → fd ∉ e.session.conn.fds.owned) ↔ fd ∉ e.session.conn.fds.owned := by
    cases lives : e.alive with
    | true => simp
    | false => simp [owns lives]
  refine ⟨leads, fun fd => ?_, fun fd gave held => ?_⟩
  · have there : fd ∈ run track p.opened (ops events) ∧ fd ∉ e.session.conn.fds.owned ↔
        (fd ∈ p.opened ∧ fd ∉ s.conn.fds.owned) ∨ .released fd ∈ events := by
      rw [← Finset.mem_sdiff, others, Finset.mem_union, Finset.mem_sdiff, mem_handed, released_iff]
    rw [foreign_update, foreign_here here, given, alive, ← and_assoc, there, or_and_right, and_assoc,
      and_iff_left_of_imp spare]
    simp
  · rw [given] at gave
    exact absurd gave (unnamed held.1 (held.2 key s here))

theorem Sound.takes_ready (sound : p.Sound cfg) {a : Answers} (allowed : p.Allowed cfg (.ready key a)) :
    Takes cfg p [] (p.next cfg (.ready key a)) := by
  have leads := leads_of_allowed allowed
  generalize after : p.next cfg (.ready key a) = p' at leads ⊢
  have moved : Moved cfg p (.ready key a) p' := after ▸ next_moved cfg p _
  cases moved with
  | stay => exact .refl cfg p
  | stepped _ _ s here trace step =>
    have fresh := allowed s here
    rw [trace] at fresh
    exact sound.takes_acted here (step.orderly (sound.phase key s here)) fresh nofun rfl leads

theorem Sound.takes_destroy (sound : p.Sound cfg) (key : Nat) (lastRef : Bool) :
    Takes cfg p [] (p.next cfg (.destroy key lastRef)) := by
  have leads : Leads cfg p (p.next cfg (.destroy key lastRef)) := leads_of_allowed trivial
  generalize after : p.next cfg (.destroy key lastRef) = p' at leads ⊢
  have moved : Moved cfg p (.destroy key lastRef) p' := after ▸ next_moved cfg p _
  cases moved with
  | stay => exact .refl cfg p
  | destroyed _ _ s here =>
    exact sound.takes_acted here (finishEvents_orderly s.conn lastRef) (fresh_finishEvents _ _ _) (fun _ => rfl) rfl
      leads

/-- A new connection has given nothing. -/
theorem given_start (unused : p.entries key = none) (client id : Nat) (events : List Event) :
    p.given (p.update key { session := .start client id } p.cache events) = ∅ := by
  have trace : (Session.start client id).trace = p.traceOf key ++ [] := by
    rw [traceOf, unused]
    rfl
  rw [given_update trace]
  simp

/-- A descriptor becomes a connection's. -/
theorem takes_adopt (unused : p.entries key = none) (held : p.Foreign fd) (id : Nat) :
    Takes cfg p [fd] (p.next cfg (.adopt key fd id)) := by
  have leads : Leads cfg p (p.next cfg (.adopt key fd id)) := leads_of_allowed fun _ => held
  have eq : p.next cfg (.adopt key fd id) = p.update key { session := .start fd id } p.cache [] := by
    simp only [next, unused]
  rw [eq] at leads ⊢
  have given := given_start unused fd id []
  refine ⟨leads, fun x => ?_, by simp [given]⟩
  have same : run track p.opened (ops []) = p.opened := rfl
  rw [given, foreign_update, foreign_unused unused, owned_start, same, List.mem_singleton]
  simp only [forall_const, Set.mem_empty_iff_false, or_false]
  tauto

/-- A connection made from a descriptor the kernel gives out takes nothing. -/
theorem takes_accept (unused : p.entries key = none) (new : fd ∉ p.opened) (id : Nat) :
    Takes cfg p [] (p.next cfg (.accept key fd id)) := by
  have leads : Leads cfg p (p.next cfg (.accept key fd id)) := leads_of_allowed fun _ => new
  have eq : p.next cfg (.accept key fd id) = p.update key { session := .start fd id } p.cache [.opened fd] := by
    simp only [next, unused]
  rw [eq] at leads ⊢
  have given := given_start unused fd id [.opened fd]
  refine ⟨leads, fun x => ?_, by simp [given]⟩
  have grown : run track p.opened (ops [.opened fd]) = insert fd p.opened := rfl
  rw [given, foreign_update, foreign_unused unused, owned_start, grown, Finset.mem_insert]
  have other : x ∈ p.opened → x ≠ fd := fun open_ same => new (same ▸ open_)
  simp only [forall_const, List.not_mem_nil, not_false_eq_true, and_true, Set.mem_empty_iff_false, or_false]
  tauto

theorem takes_closes (allowed : p.Allowed cfg (.closes fd)) : Takes cfg p [fd] (p.next cfg (.closes fd)) := by
  refine ⟨leads_of_allowed allowed, fun x => ?_, by simp⟩
  rw [given_closes, List.mem_singleton]
  constructor
  · rintro ⟨open_, unowned⟩
    obtain ⟨ne, before⟩ := Finset.mem_erase.mp open_
    exact Or.inl ⟨⟨before, unowned⟩, ne⟩
  · rintro (⟨held, ne⟩ | none_given)
    · exact ⟨Finset.mem_erase.mpr ⟨ne, held.1⟩, held.2⟩
    · cases none_given

theorem Sound.foreign_opens (sound : p.Sound cfg) (new : fd ∉ p.opened) {x : Nat} :
    (p.next cfg (.opens fd)).Foreign x ↔ p.Foreign x ∨ x = fd := by
  constructor
  · rintro ⟨open_, unowned⟩
    rcases Finset.mem_insert.mp open_ with same | before
    · exact Or.inr same
    · exact Or.inl ⟨before, unowned⟩
  · rintro (held | rfl)
    · exact ⟨Finset.mem_insert_of_mem held.1, held.2⟩
    · exact ⟨Finset.mem_insert_self _ _, fun key s here own => new (sound.opened key s here own)⟩

/-! ## What the rest of the process has -/

/-- What a step of a run does outside the backend. -/
inductive Outside where
  | nothing
  | opens (fd : Nat)
  | closes (fd : Nat)

/-- What the rest of the process has after a step: it opens a descriptor, closes one, or connections give it some. -/
def Outside.after (p p' : Proxy) (others : Set Nat) : Outside → Set Nat
  | .nothing => others ∪ p.given p'
  | .opens fd => insert fd others
  | .closes fd => others \ {fd}

section Elsewhere
variable {σ α : Type*} (proxy : σ → Proxy) (next : σ → α → σ) (outside : σ → α → Outside)

/-- What the rest of the process has after a run, step by step. -/
def elsewhere : Set Nat → σ → List α → Set Nat
  | others, _, [] => others
  | others, s, act :: acts =>
    elsewhere ((outside s act).after (proxy s) (proxy (next s act)) others) (next s act) acts

/-- An invariant of a run that speaks of the rest of the process too. -/
theorem elsewhere_invariant {proxy : σ → Proxy} {next : σ → α → σ} {outside : σ → α → Outside}
    {allowed : σ → α → Prop} {P : Set Nat → σ → Prop}
    (step : ∀ others s act, P others s → allowed s act →
      P ((outside s act).after (proxy s) (proxy (next s act)) others) (next s act))
    {others : Set Nat} {s : σ} {acts : List α} (legal : Legal allowed next s acts) (start : P others s) :
    P (elsewhere proxy next outside others s acts) (run next s acts) := by
  induction acts generalizing others s with
  | nil => exact start
  | cons act acts ih => exact ih legal.2 (step others s act start legal.1)

end Elsewhere

/-! ## What a backend has in its own hands -/

section Account
variable {ι : Type*} {opened : Finset Nat} {holds holds' : ι → Nat → Prop} {others others' : Set Nat}

/-- The account of a backend that holds some descriptors itself: each in one place, none of them another's, and
together with those of the rest of the process they are all that is open and no connection's. -/
structure Account (cfg : Config) (opened : Finset Nat) (holds : ι → Nat → Prop) (others : Set Nat) (p : Proxy) :
    Prop where
  leads : Leads cfg (.start cfg opened) p
  one : ∀ i j fd, holds i fd → holds j fd → i = j
  apart : ∀ i fd, holds i fd → fd ∉ others
  foreign : ∀ fd, p.Foreign fd ↔ (∃ i, holds i fd) ∨ fd ∈ others

theorem Account.sound (h : Account cfg opened holds others p) : p.Sound cfg := h.leads.sound (sound_start cfg opened)

theorem Account.held (h : Account cfg opened holds others p) {i : ι} (mine : holds i fd) : p.Foreign fd :=
  (h.foreign fd).mpr (Or.inl ⟨i, mine⟩)

theorem Account.known (h : Account cfg opened holds others p) (other : fd ∈ others) : p.Foreign fd :=
  (h.foreign fd).mpr (Or.inr other)

theorem account_start (cfg : Config) (none_held : ∀ i fd, ¬ holds i fd) :
    Account cfg opened holds opened (.start cfg opened) where
  leads := .refl cfg _
  one := fun i _ fd held => absurd held (none_held i fd)
  apart := fun i fd held => absurd held (none_held i fd)
  foreign := by
    intro fd
    constructor
    · intro held
      exact Or.inr held.1
    · rintro (⟨i, held⟩ | open_)
      · exact absurd held (none_held i fd)
      · refine ⟨open_, fun key s here => ?_⟩
        cases here

theorem Account.congr (h : Account cfg opened holds others p) (same : ∀ i fd, holds' i fd ↔ holds i fd) :
    Account cfg opened holds' others p := by
  obtain rfl : holds' = holds := by
    funext i fd
    exact propext (same i fd)
  exact h

/-- A step that does nothing to the process. -/
theorem Account.still (h : Account cfg opened holds others p) :
    Account cfg opened holds (others ∪ p.given p) p := by
  rwa [given_self, Set.union_empty]

/-- The backend takes a new descriptor into its hands. -/
theorem Account.accepts (h : Account cfg opened holds others p) (new : fd ∉ p.opened) {i : ι}
    (more : ∀ j x, holds' j x ↔ holds j x ∨ j = i ∧ x = fd) :
    Account cfg opened holds' (others ∪ p.given (p.next cfg (.opens fd))) (p.next cfg (.opens fd)) := by
  have unheld {j : ι} : ¬ holds j fd := fun held => new (h.held held).1
  have unknown : fd ∉ others := fun known => new (h.known known).1
  rw [given_opens, Set.union_empty]
  refine ⟨h.leads.trans (leads_of_allowed (m := .opens fd) new), ?_, ?_, fun x => ?_⟩
  · intro j k x held held'
    rcases (more j x).mp held with before | ⟨rfl, rfl⟩
    · rcases (more k x).mp held' with before' | ⟨-, rfl⟩
      · exact h.one j k x before before'
      · exact absurd before unheld
    · rcases (more k x).mp held' with before' | ⟨rfl, -⟩
      · exact absurd before' unheld
      · rfl
  · intro j x held
    rcases (more j x).mp held with before | ⟨-, rfl⟩
    · exact h.apart j x before
    · exact unknown
  · rw [h.sound.foreign_opens new, h.foreign]
    constructor
    · rintro ((⟨j, mine⟩ | other) | rfl)
      · exact Or.inl ⟨j, (more j x).mpr (Or.inl mine)⟩
      · exact Or.inr other
      · exact Or.inl ⟨i, (more i x).mpr (Or.inr ⟨rfl, rfl⟩)⟩
    · rintro (⟨j, mine⟩ | other)
      · rcases (more j x).mp mine with before | ⟨-, rfl⟩
        · exact Or.inl (Or.inl ⟨j, before⟩)
        · exact Or.inr rfl
      · exact Or.inl (Or.inr other)

/-- Someone else opens a descriptor. -/
theorem Account.opens (h : Account cfg opened holds others p) (new : fd ∉ p.opened) :
    Account cfg opened holds (insert fd others) (p.next cfg (.opens fd)) where
  leads := h.leads.trans (leads_of_allowed (m := .opens fd) new)
  one := h.one
  apart := by
    rintro i x held (rfl | other)
    · exact new (h.held held).1
    · exact h.apart i x held other
  foreign := by
    intro x
    rw [h.sound.foreign_opens new, h.foreign, or_assoc, or_comm (a := x ∈ others)]
    rfl

/-- Descriptors leave the hands of the backend, or of others. -/
theorem Account.takes (h : Account cfg opened holds others p) (takes : Takes cfg p xs p')
    (rest : ∀ i x, holds' i x ↔ holds i x ∧ x ∉ xs)
    (after : ∀ x, x ∈ others' ↔ x ∈ others ∧ x ∉ xs ∨ x ∈ p.given p') : Account cfg opened holds' others' p' where
  leads := h.leads.trans takes.leads
  one := fun i j x held held' => h.one i j x ((rest i x).mp held).1 ((rest j x).mp held').1
  apart := by
    intro i x held other
    obtain ⟨before, out⟩ := (rest i x).mp held
    rcases (after x).mp other with ⟨known, -⟩ | gave
    · exact h.apart i x before known
    · exact out (takes.new x gave (h.held before))
  foreign := by
    intro x
    rw [takes.foreign, h.foreign, after]
    constructor
    · rintro (⟨⟨i, mine⟩ | other, out⟩ | gave)
      · exact Or.inl ⟨i, (rest i x).mpr ⟨mine, out⟩⟩
      · exact Or.inr (Or.inl ⟨other, out⟩)
      · exact Or.inr (Or.inr gave)
    · rintro (⟨i, mine⟩ | ⟨other, out⟩ | gave)
      · obtain ⟨before, out⟩ := (rest i x).mp mine
        exact Or.inl ⟨Or.inl ⟨i, before⟩, out⟩
      · exact Or.inl ⟨Or.inr other, out⟩
      · exact Or.inr gave

/-- What leaves the backend's own hands leaves the others what they had. -/
theorem Account.parts (h : Account cfg opened holds others p) (takes : Takes cfg p xs p')
    (mine : ∀ x ∈ xs, ∃ i, holds i x) (rest : ∀ i x, holds' i x ↔ holds i x ∧ x ∉ xs) :
    Account cfg opened holds' (others ∪ p.given p') p' := by
  refine h.takes takes rest fun x => ?_
  rw [Set.mem_union]
  refine or_congr_left (and_iff_left_of_imp fun other mem => ?_).symm
  obtain ⟨i, held⟩ := mine x mem
  exact h.apart i x held other

/-- The connections go on by themselves. -/
theorem Account.serves (h : Account cfg opened holds others p) (takes : Takes cfg p [] p') :
    Account cfg opened holds (others ∪ p.given p') p' :=
  h.parts takes (fun _ mem => absurd mem List.not_mem_nil) fun _ _ => (and_iff_left List.not_mem_nil).symm

/-- One descriptor leaves the backend's hands. -/
theorem Account.lets (h : Account cfg opened holds others p) {i : ι} (held : holds i fd) (takes : Takes cfg p [fd] p')
    (rest : ∀ j x, holds' j x ↔ holds j x ∧ j ≠ i) (same : ∀ x, holds i x → x = fd) :
    Account cfg opened holds' (others ∪ p.given p') p' := by
  refine h.parts takes (fun x mem => ⟨i, List.mem_singleton.mp mem ▸ held⟩) fun j x =>
    (rest j x).trans (and_congr_right fun there => ?_)
  rw [List.mem_singleton]
  refine not_congr ⟨?_, ?_⟩
  · rintro rfl
    exact same x there
  · rintro rfl
    exact h.one j i x there held

/-- Someone else closes a descriptor that is not the backend's. -/
theorem Account.closes (h : Account cfg opened holds others p) (allowed : p.Allowed cfg (.closes fd))
    (unheld : ∀ i, ¬ holds i fd) : Account cfg opened holds (others \ {fd}) (p.next cfg (.closes fd)) := by
  refine h.takes (takes_closes allowed) (fun i x => (and_iff_left_of_imp ?_).symm) fun x => ?_
  · intro held mem
    rw [List.mem_singleton] at mem
    exact unheld i (mem ▸ held)
  · rw [given_closes, List.mem_singleton]
    exact (or_iff_left (Set.notMem_empty x)).symm

/-- Everything that is open is someone's, and nothing else is. -/
theorem Account.open_iff (h : Account cfg opened holds others p) (x : Nat) :
    x ∈ p.opened ↔
      (∃ key s, p.entries key = some ⟨s, true⟩ ∧ x ∈ s.conn.fds.owned) ∨ (∃ i, holds i x) ∨ x ∈ others := by
  rw [← h.foreign]
  constructor
  · intro open_
    by_cases owned : ∃ key s, p.entries key = some ⟨s, true⟩ ∧ x ∈ s.conn.fds.owned
    · exact Or.inl owned
    · exact Or.inr ⟨open_, fun key s here own => owned ⟨key, s, here, own⟩⟩
  · rintro (⟨key, s, here, own⟩ | foreign)
    · exact h.sound.opened key s here own
    · exact foreign.1

/-- Where no connection is left and nothing is in hand, what is open is the others'. -/
theorem Account.opened_eq (h : Account cfg opened holds others p) (none_left : ∀ key, ¬ p.Exists key)
    (none_held : ∀ i x, ¬ holds i x) : (p.opened : Set Nat) = others := by
  ext x
  rw [Finset.mem_coe, h.open_iff]
  constructor
  · rintro (⟨key, s, here, -⟩ | ⟨i, held⟩ | other)
    · exact absurd ⟨s, here⟩ (none_left key)
    · exact absurd held (none_held i x)
    · exact other
  · intro other
    exact Or.inr (Or.inr other)

end Account

end Proxy

end EvProxy
