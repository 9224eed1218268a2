import EvProxy.Resolver.HandOff

/-!
# The cache of the resolver

Two front ends and any number of threads read and write one map under the key
`host:port`, with the clock running. Seen from its history the map is a memory
of leases: what it answers is what the last successful lookup of that very host
and port put there, less than the time to live ago (`dns_cache_sound`).
-/

namespace EvProxy
open Runs Leases

namespace Resolver

/-! ## The key -/

theorem key_eq (host port : Bytes) : key host port = host ++ colon :: port := by
  have single : bytes ":" = [colon] := by decide
  rw [key, single, List.append_assoc, List.singleton_append]

theorem key_inj {host host' port port' : Bytes} (digits : allDigits port = true) (digits' : allDigits port' = true)
    (same : key host port = key host' port') : host = host' ∧ port = port' := by
  rw [key_eq, key_eq] at same
  exact authority_inj digits digits' same

/-! ## The history of the cache -/

/-- What a note puts into the cache. -/
def Note.store : Note → Option (Stored Bytes (List Endpoint))
  | .stored host port endpoints time => some ⟨key host port, endpoints, time⟩
  | .looked _ _ _ => none

def stores (log : List Note) : List (Stored Bytes (List Endpoint)) := log.filterMap Note.store

@[simp] theorem stores_append (l k : List Note) : stores (l ++ k) = stores l ++ stores k := List.filterMap_append

@[simp] theorem stores_looked (host port : Bytes) (found : Found) : stores [.looked host port found] = [] := rfl

@[simp] theorem stores_stored (host port : Bytes) (endpoints : List Endpoint) (time : Int) :
    stores [.stored host port endpoints time] = [⟨key host port, endpoints, time⟩] := rfl

/-- What was stored last for a host and a port, and when. -/
def lastStored (host port : Bytes) (log : List Note) : Option (List Endpoint × Int) :=
  log.reverse.findSome? fun
    | .stored host' port' endpoints time => if host' = host ∧ port' = port then some (endpoints, time) else none
    | .looked _ _ _ => none

/-- The ports of everything stored are made of digits. -/
def Numbered (log : List Note) : Prop :=
  ∀ host port endpoints time, .stored host port endpoints time ∈ log → allDigits port = true

/-- Under digit ports the key stands for the host and the port. -/
theorem lastStored_eq {log : List Note} (numbered : Numbered log) (host : Bytes) {port : Bytes}
    (digits : allDigits port = true) :
    lastStored host port log = (latest (key host port) (stores log)).map fun s => (s.value, s.time) := by
  induction log using List.reverseRecOn with
  | nil => rfl
  | append_singleton log n ih =>
    have before : Numbered log := fun host port endpoints time mem =>
      numbered host port endpoints time (List.mem_append_left _ mem)
    cases n with
    | looked host' port' found =>
      rw [stores_append, stores_looked, List.append_nil, ← ih before]
      simp [lastStored]
    | stored host' port' endpoints time =>
      rw [stores_append, stores_stored]
      by_cases same : host' = host ∧ port' = port
      · obtain ⟨rfl, rfl⟩ := same
        rw [latest_append_self (stores log) ⟨key host' port', endpoints, time⟩]
        simp [lastStored]
      · have other : key host' port' ≠ key host port := by
          intro keys
          exact same (key_inj (numbered host' port' endpoints time (by simp)) digits keys)
        rw [latest_append_ne other, ← ih before]
        simp [lastStored, same]

/-- A note of something stored follows the lookup that found it. -/
def Note.Backed (past : List Note) : Note → Prop
  | .stored host port endpoints _ => ∃ err, .looked host port ⟨true, endpoints, err⟩ ∈ past
  | .looked _ _ _ => True

/-- What a thread is about to store was found. -/
def Caller.Honest (log : List Note) : Caller → Prop
  | .idle => True
  | .looking _ port => allDigits port = true
  | .storing host port endpoints =>
    allDigits port = true ∧ ∃ err, .looked host port ⟨true, endpoints, err⟩ ∈ log

theorem Caller.Honest.mono {log : List Note} {caller : Caller} (h : caller.Honest log) (new : List Note) :
    caller.Honest (log ++ new) := by
  cases caller with
  | idle => trivial
  | looking host port => exact h
  | storing host port endpoints =>
    obtain ⟨digits, err, mem⟩ := h
    exact ⟨digits, err, List.mem_append_left new mem⟩

/-- The ports an input names are made of digits. -/
def Act.Digits : Act → Prop
  | .get _ port | .push _ _ port _ _ | .ask _ _ port => allDigits port = true
  | _ => True

/-- The input is the `cache_put` of a lookup that succeeded. -/
inductive Puts (r : Resolver) : Act → Bytes → Bytes → List Endpoint → Prop where
  | worker (i : Nat) (found : Found) (wrote : Bool) (j : Nat) (f : Found)
      (here : r.workers i = .on j (.publishing f .cache)) (ok : f.ok = true) :
      Puts r (.work i found wrote) (r.jobs j).host (r.jobs j).port (r.jobs j).endpoints
  | caller (c : Nat) (host port : Bytes) (endpoints : List Endpoint)
      (here : r.callers c = .storing host port endpoints) : Puts r (.put c) host port endpoints

/-! ## The invariant -/

/-- The cache is what its history says, and the history is honest. -/
structure Dns (r : Resolver) : Prop where
  upheld : Upheld (r.cacheTtlS * second) r.now r.cache (stores r.log)
  off : r.cacheTtlS ≤ 0 → ∀ k, r.cache k = none
  backed : Each Note.Backed r.log
  numbered : Numbered r.log
  ports : ∀ j, allDigits (r.jobs j).port = true
  callers : ∀ c, (r.callers c).Honest r.log

namespace Dns

theorem start (size : Nat) (cacheTtlS now : Int) : Dns (start size cacheTtlS now) where
  upheld := .empty _ _ _
  off := fun _ _ => rfl
  backed := each_of_forall (by simp [Resolver.start])
  numbered := by simp [Numbered, Resolver.start]
  ports := fun _ => (by decide : allDigits [] = true)
  callers := fun _ => trivial

variable {r : Resolver}

theorem cacheGet (h : Dns r) (key : Bytes) : Dns (r.cacheGet key).2 := by
  unfold Resolver.cacheGet
  split
  · exact h
  · split
    · refine ⟨h.upheld.erase key, fun ttl k => ?_, h.backed, h.numbered, h.ports, h.callers⟩
      by_cases same : k = key
      · rw [same]
        exact Function.update_self ..
      · rw [← h.off ttl k]
        exact Function.update_of_ne same ..
    · exact h

/-- One more note about a lookup. -/
theorem note (h : Dns r) (host port : Bytes) (found : Found) : Dns (r.note (.looked host port found)) where
  upheld := by simpa [Resolver.note] using h.upheld
  off := h.off
  backed := h.backed.concat trivial
  numbered := by simpa [Numbered, Resolver.note] using h.numbered
  ports := h.ports
  callers := fun c => (h.callers c).mono _

theorem cachePut (h : Dns r) {host port : Bytes} {endpoints : List Endpoint} (digits : allDigits port = true)
    {err : Bytes} (found : .looked host port ⟨true, endpoints, err⟩ ∈ r.log) :
    Dns (r.cachePut host port endpoints) := by
  unfold Resolver.cachePut
  split
  · exact h
  · rename_i on
    refine ⟨?_, fun ttl => absurd ttl on, h.backed.concat ⟨err, found⟩, ?_, h.ports,
      fun c => (h.callers c).mono _⟩
    · rw [stores_append, stores_stored]
      exact h.upheld.store _ _
    · intro host' port' endpoints' time mem
      rcases List.mem_append.mp mem with old | new
      · exact h.numbered _ _ _ _ old
      · cases List.mem_singleton.mp new
        exact digits

theorem enter (h : Dns r) (c : Nat) {caller : Caller} (honest : caller.Honest r.log) : Dns (r.enter c caller) :=
  ⟨h.upheld, h.off, h.backed, h.numbered, h.ports,
    (Function.forall_update_iff r.callers fun (_ : Nat) (caller : Caller) => caller.Honest r.log).mpr
      ⟨honest, fun c' _ => h.callers c'⟩⟩

/-- A job changes, and not its port. -/
theorem touch (h : Dns r) (j : Nat) {b : Job} (digits : allDigits b.port = true) :
    ∀ k, allDigits (Function.update r.jobs j b k).port = true :=
  (Function.forall_update_iff r.jobs fun (_ : Nat) (b : Job) => allDigits b.port = true).mpr
    ⟨digits, fun k _ => h.ports k⟩

/-- Whoever stores something has found it. -/
theorem found (h : Dns r) (sound : Sound r) {act : Act} {host port : Bytes} {endpoints : List Endpoint}
    (puts : Puts r act host port endpoints) :
    allDigits port = true ∧ ∃ err, .looked host port ⟨true, endpoints, err⟩ ∈ r.log := by
  cases puts with
  | worker i found wrote j f here ok =>
    have published : Published f 3 (r.jobs j) := sound.fits_at ((sound.held _ _ _).mp here)
    have free : (r.jobs j).taken = false := by
      cases taken : (r.jobs j).taken with
      | false => rfl
      | true =>
        have ready := published.taken taken
        rw [published.ready] at ready
        cases ready
    refine ⟨h.ports j, f.err, ?_⟩
    rw [published.endpoints (by decide) free, ← ok]
    exact sound.looked j f published.found
  | caller c host port endpoints here =>
    have honest := h.callers c
    rwa [here] at honest

theorem storeFound (h : Dns r) (sound : Sound r) {i j : Nat} {f : Found} {stage : Stage}
    (here : r.workers i = .on j (.publishing f stage)) : Dns (r.storeFound j f stage) := by
  unfold Resolver.storeFound
  split
  · rename_i put
    obtain ⟨rfl, ok⟩ := put
    obtain ⟨digits, err, mem⟩ := h.found sound (.worker i f true j f here ok)
    exact h.cachePut digits mem
  · exact h

/-- A thread goes on with its job. -/
theorem hold (h : Dns r) (i : Nat) {j : Nat} (duty : Duty) {change : Job → Job}
    (digits : allDigits (change (r.jobs j)).port = true) : Dns (r.hold i j duty change) :=
  ⟨h.upheld, h.off, h.backed, h.numbered, h.touch j digits, h.callers⟩

theorem work (h : Dns r) (sound : Sound r) (i : Nat) (found : Found) (wrote : Bool) : Dns (r.work i found wrote) := by
  unfold Resolver.work
  split
  · split
    · rename_i j queue front
      exact ⟨h.upheld, h.off, h.backed, h.numbered, h.touch j (h.ports j), h.callers⟩
    · split
      · exact ⟨h.upheld, h.off, h.backed, h.numbered, h.ports, h.callers⟩
      · exact h
  · rename_i j here
    exact (h.note (r.jobs j).host (r.jobs j).port found).hold i _ (h.ports j)
  · rename_i j f stage here
    split
    · refine (h.storeFound sound here).hold i _ ?_
      have old := (h.storeFound sound here).ports j
      cases stage <;> exact old
    · exact ⟨h.upheld, h.off, h.backed, h.numbered, h.touch j (h.ports j), h.callers⟩
  · exact h

theorem next (h : Dns r) (sound : Sound r) {act : Act} (digits : act.Digits) : Dns (r.next act) := by
  cases act with
  | tick d =>
    have after : r.now ≤ r.now + d := Int.le_add_of_nonneg_right (Int.natCast_nonneg d)
    exact ⟨h.upheld.wait after, h.off, h.backed, h.numbered, h.ports, h.callers⟩
  | get host port => exact h.cacheGet _
  | push owner host port readEnd writeEnd =>
    rw [Resolver.next, Resolver.push]
    split
    · exact h
    · exact ⟨h.upheld, h.off, h.backed, h.numbered, h.touch _ digits, h.callers⟩
  | ask c host port =>
    have got := h.cacheGet (key host port)
    rw [Resolver.next]
    split
    · split
      · rename_i answer
        rwa [answer] at got
      · rename_i answer
        rw [answer] at got
        exact got.enter c digits
    · exact h
  | lookup c found =>
    have honest := h.callers c
    rw [Resolver.next]
    split
    · rename_i host port here
      rw [here] at honest
      refine (h.note host port found).enter c ?_
      split
      · rename_i ok
        refine ⟨honest, found.err, ?_⟩
        rw [← ok]
        exact List.mem_append_right _ (List.mem_singleton.mpr rfl)
      · trivial
    · exact h
  | put c =>
    rw [Resolver.next]
    split
    · rename_i host port endpoints here
      obtain ⟨digits, err, mem⟩ := h.found sound (.caller c host port endpoints here)
      exact (h.cachePut digits mem).enter c trivial
    · exact h
  | work i found wrote =>
    rw [Resolver.next]
    split
    · exact h.work sound i found wrote
    · exact h
  | drain j => exact ⟨h.upheld, h.off, h.backed, h.numbered, h.touch j (h.ports j), h.callers⟩
  | take j =>
    rw [Resolver.next]
    split
    · exact ⟨h.upheld, h.off, h.backed, h.numbered, h.touch j (h.ports j), h.callers⟩
    · exact h
  | close => exact ⟨h.upheld, h.off, h.backed, h.numbered, h.ports, h.callers⟩
  | discard =>
    rw [Resolver.next]
    split
    · split
      · rename_i j queue front
        exact ⟨h.upheld, h.off, h.backed, h.numbered, h.touch j (h.ports j), h.callers⟩
      · exact h
    · exact h

/-- What `cache_get` answers is the last thing stored for that host and port, and recent. -/
theorem answer (h : Dns r) {host port : Bytes} {endpoints : List Endpoint} (digits : allDigits port = true)
    (hit : (r.cacheGet (key host port)).1 = some endpoints) :
    ∃ time, lastStored host port r.log = some (endpoints, time) ∧
      time ≤ r.now ∧ r.now < time + r.cacheTtlS * second := by
  unfold Resolver.cacheGet at hit
  split at hit
  · cases hit
  · rename_i e here
    split at hit
    · cases hit
    · rename_i valid
      obtain rfl := Option.some.inj hit
      obtain ⟨s, last, value, past, recent⟩ := h.upheld.read here (Int.not_le.mp valid)
      refine ⟨s.time, ?_, past, recent⟩
      rw [lastStored_eq h.numbered host digits, last, ← value]
      rfl

end Dns

/-- Both invariants, over any history. -/
theorem dns_run {size : Nat} {cacheTtlS now : Int} {acts : List Act} (digits : ∀ act ∈ acts, act.Digits) :
    Sound (run next (start size cacheTtlS now) acts) ∧ Dns (run next (start size cacheTtlS now) acts) := by
  have legal : Legal (fun _ act => act.Digits) next (start size cacheTtlS now) acts :=
    legal_of_splits fun past act rest split => digits act (by simp [split])
  exact legal.invariant (P := fun r => Sound r ∧ Dns r)
    (fun r act h digits => ⟨h.1.step (next_step r act), h.2.next h.1 digits⟩)
    ⟨.start size cacheTtlS now, .start size cacheTtlS now⟩

/-! ## What changes an entry -/

/-- An entry that has ended is gone. -/
def Lapsed (r s : Resolver) (k : Bytes) : Prop :=
  (∃ e, r.cache k = some e ∧ e.expires ≤ r.now) ∧ s.cache k = none

theorem cacheGet_entry (r : Resolver) (key k : Bytes) :
    (r.cacheGet key).2.cache k = r.cache k ∨ Lapsed r (r.cacheGet key).2 k := by
  unfold cacheGet
  split
  · exact .inl rfl
  · rename_i e here
    split
    · rename_i ended
      by_cases same : k = key
      · subst same
        exact .inr ⟨⟨e, here, ended⟩, Function.update_self ..⟩
      · exact .inl (Function.update_of_ne same ..)
    · exact .inl rfl

theorem cachePut_entry (r : Resolver) (host port : Bytes) (endpoints : List Endpoint) (k : Bytes) :
    (r.cachePut host port endpoints).cache k = r.cache k ∨ k = key host port := by
  unfold cachePut
  split
  · exact .inl rfl
  · by_cases same : k = key host port
    · exact .inr same
    · exact .inl (Function.update_of_ne same ..)

theorem work_entry (r : Resolver) (i : Nat) (found : Found) (wrote : Bool) (k : Bytes) :
    (r.work i found wrote).cache k = r.cache k ∨
      ∃ host port endpoints, Puts r (.work i found wrote) host port endpoints ∧ k = key host port := by
  unfold work
  split
  · split
    · exact .inl rfl
    · split <;> exact .inl rfl
  · exact .inl rfl
  · rename_i j f stage here
    split
    · change (r.storeFound j f stage).cache k = r.cache k ∨ _
      unfold storeFound
      split
      · rename_i put
        obtain ⟨rfl, ok⟩ := put
        refine (cachePut_entry r _ _ _ k).imp_right fun same => ?_
        exact ⟨_, _, _, .worker i found wrote j f here ok, same⟩
      · exact .inl rfl
    · exact .inl rfl
  · exact .inl rfl

/-- Only a lookup that succeeded touches an entry that has not ended. -/
theorem next_entry (r : Resolver) (act : Act) (k : Bytes) :
    (r.next act).cache k = r.cache k ∨ Lapsed r (r.next act) k ∨
      ∃ host port endpoints, Puts r act host port endpoints ∧ k = key host port := by
  cases act with
  | get host port => exact (cacheGet_entry r _ k).imp_right .inl
  | ask c host port =>
    have got := cacheGet_entry r (key host port) k
    rw [next]
    split
    · split
      · rename_i answer
        rw [answer] at got
        exact got.imp_right .inl
      · rename_i answer
        rw [answer] at got
        exact got.imp_right .inl
    · exact .inl rfl
  | put c =>
    rw [next]
    split
    · rename_i host port endpoints here
      refine (cachePut_entry r host port endpoints k).imp_right fun same => .inr ?_
      exact ⟨host, port, endpoints, .caller c host port endpoints here, same⟩
    · exact .inl rfl
  | work i found wrote =>
    rw [next]
    split
    · exact (work_entry r i found wrote k).imp_right .inr
    · exact .inl rfl
  | push owner host port readEnd writeEnd =>
    rw [next, push]
    split <;> exact .inl rfl
  | lookup c found =>
    rw [next]
    split <;> exact .inl rfl
  | take j =>
    rw [next]
    split <;> exact .inl rfl
  | discard =>
    rw [next]
    split
    · split <;> exact .inl rfl
    · exact .inl rfl
  | tick d => exact .inl rfl
  | drain j => exact .inl rfl
  | close => exact .inl rfl

/-- **The cache answers soundly.** Over every history with digit ports: an answer is what was stored last for that host
and port, less than the time to live ago, and a successful lookup found it; only a successful lookup touches an entry
that has not ended; and without a time to live there are no answers. -/
theorem dns_cache_sound (size : Nat) (cacheTtlS now : Int) (acts : List Act) (digits : ∀ act ∈ acts, act.Digits) :
    let r := run next (start size cacheTtlS now) acts
    (∀ host port endpoints, allDigits port = true → (r.cacheGet (key host port)).1 = some endpoints →
      ∃ time, lastStored host port r.log = some (endpoints, time) ∧
        time ≤ r.now ∧ r.now < time + cacheTtlS * second) ∧
      Each Note.Backed r.log ∧
      (∀ act k, (r.next act).cache k = r.cache k ∨ Lapsed r (r.next act) k ∨
        ∃ host port endpoints err, Puts r act host port endpoints ∧ k = key host port ∧
          .looked host port ⟨true, endpoints, err⟩ ∈ r.log) ∧
      (cacheTtlS ≤ 0 → ∀ k, (r.cacheGet k).1 = none) := by
  intro r
  obtain ⟨sound, dns⟩ : Sound r ∧ Dns r := dns_run digits
  have ttl : r.cacheTtlS = cacheTtlS := (settings_run _ acts).2
  refine ⟨fun host port endpoints digits hit => ?_, dns.backed, fun act k => ?_, fun off k => ?_⟩
  · rw [← ttl]
    exact dns.answer digits hit
  · refine (next_entry r act k).imp_right fun changed => changed.imp_right ?_
    rintro ⟨host, port, endpoints, puts, same⟩
    obtain ⟨-, err, mem⟩ := dns.found sound puts
    exact ⟨host, port, endpoints, err, puts, same, mem⟩
  · rw [cacheGet, dns.off (ttl ▸ off) k]

/-- A lookup that succeeds, and some time. -/
def asked : List Act :=
  [.ask 0 (bytes "h") (bytes "80"), .lookup 0 ⟨true, [⟨bytes "a", 2, 1, 6⟩], []⟩, .put 0, .tick 59000000000]

theorem dns_cache_sound_asked :
    (∀ act ∈ asked, act.Digits) ∧
      ∃ time, lastStored (bytes "h") (bytes "80") (run next (start 4 60 7) asked).log =
          some ([⟨bytes "a", 2, 1, 6⟩], time) ∧
        time ≤ (run next (start 4 60 7) asked).now ∧
        (run next (start 4 60 7) asked).now < time + 60 * second := by
  have port : allDigits (bytes "80") = true := by decide
  have digits : ∀ act ∈ asked, act.Digits := by simp [asked, Act.Digits, port]
  refine ⟨digits, ?_⟩
  exact (dns_cache_sound 4 60 7 asked digits).1 (bytes "h") (bytes "80") [⟨bytes "a", 2, 1, 6⟩] (by decide) (by decide)

end Resolver

end EvProxy
