import Mathlib.Data.Finset.Lattice.Fold
import EvProxy.Conn.Termination
import EvProxy.Loop.Registration

/-!
# The shutdown drain (`EventLoop::drain`)

After `stop` the loop serves what is left until no connection is live or its grace
is used up. The grace of five seconds is counted in waits that return no event;
a wait that returns one, or is interrupted, costs nothing. So the drain ends
exactly if a wait fails, fifty waits time out, or the events themselves finish
every connection (`drain_ends_iff`). They do if each exchange keeps to some limits
and its events come to something; a response that never ends keeps the drain going.
-/

namespace EvProxy
open Runs

/-- One `kevent` of `drain`: the events it returns, with what the world decides for
each (none after a timeout), or -1 with `EINTR` or another error. -/
inductive Kevent where
  | returns (batch : List (Udata × Turn))
  | interrupted
  | failed

namespace Loop

/-- One event of the drain: the null pointer of the listener is skipped, and
`INBOX_TAG` is no address in `live_`. -/
def drainEvent (cfg : Config) (l : Loop) (e : Udata × Turn) : Loop :=
  match e.1 with
  | .listener => l
  | .inbox => l
  | .conn ptr _ => l.service cfg ptr e.2

/-- One entry of `live_.clear()`. -/
def clearAt (cfg : Config) (lastRef : Nat → Bool) (l : Loop) (ptr : Nat) : Loop :=
  match l.live ptr with
  | none => l
  | some slot => l.erase cfg ptr slot (lastRef ptr)

theorem destroy_live (cfg : Config) (key : Nat) (lastRef : Bool) (l : Loop) :
    (l.destroy cfg key lastRef).live = l.live := by
  unfold destroy
  split <;> rfl

theorem erase_live (cfg : Config) (ptr : Nat) (slot : Slot) (lastRef : Bool) (l : Loop) :
    (l.erase cfg ptr slot lastRef).live = Function.update l.live ptr none :=
  destroy_live cfg slot.key lastRef _

theorem destroy_entries (cfg : Config) {key other : Nat} (ne : other ≠ key) (lastRef : Bool) (l : Loop) :
    (l.destroy cfg key lastRef).proxy.entries other = l.proxy.entries other := by
  unfold destroy
  split
  · rename_i s here
    simp only [move, Proxy.next, here, Proxy.update_other ne]
  · rfl

/-- The session of the connection at an address. -/
def session (l : Loop) (ptr : Nat) : Option Session :=
  match l.live ptr with
  | none => none
  | some slot =>
    match l.proxy.entries slot.key with
    | some ⟨s, true⟩ => some s
    | _ => none

/-- What `service` can do: nothing, or one call of the connection at the address, which then stays under its key or is
gone. No other address and no other key is touched. -/
inductive Serviced (cfg : Config) (l : Loop) (ptr : Nat) (turn : Turn) (l' : Loop) : Prop where
  | absent (gone : l.session ptr = none) (same : l' = l)
  | called (slot : Slot) (s : Session) (live : l.live ptr = some slot)
      (here : l.proxy.entries slot.key = some ⟨s, true⟩)
      (others : ∀ key ≠ slot.key, l'.proxy.entries key = l.proxy.entries key)
      (after : l'.live = Function.update l.live ptr none ∨
        (∃ slot', l'.live = Function.update l.live ptr (some slot') ∧ slot'.key = slot.key) ∧
          l'.proxy.entries slot.key = some ⟨s.call cfg ⟨turn.answers, l.proxy.cache⟩, true⟩ ∧
          (s.call cfg ⟨turn.answers, l.proxy.cache⟩).conn.done = false)

/-- A call that ends with `live_.erase`. -/
theorem erase_serviced {cfg : Config} {l l' : Loop} {ptr : Nat} {slot : Slot} {s : Session} (turn : Turn)
    (live : l.live ptr = some slot) (here : l.proxy.entries slot.key = some ⟨s, true⟩) (before : l'.live = l.live)
    (kept : ∀ key ≠ slot.key, l'.proxy.entries key = l.proxy.entries key) :
    Serviced cfg l ptr turn (l'.erase cfg ptr slot turn.lastRef) := by
  refine .called slot s live here (fun key ne => ?_) (Or.inl ?_)
  · exact (destroy_entries cfg ne turn.lastRef _).trans (kept key ne)
  · rw [erase_live, before]

theorem service_serviced (cfg : Config) (ptr : Nat) (turn : Turn) (l : Loop) :
    Serviced cfg l ptr turn (l.service cfg ptr turn) := by
  unfold service
  split
  · rename_i gone
    exact .absent (by rw [session, gone]) rfl
  · rename_i slot live
    split
    · rename_i s here
      have moved : (l.proxy.next cfg (.ready slot.key turn.answers)).entries slot.key =
          some ⟨s.call cfg ⟨turn.answers, l.proxy.cache⟩, true⟩ := by
        simp only [Proxy.next, here, Proxy.update_self]
        rfl
      have others (key : Nat) (ne : key ≠ slot.key) :
          (l.proxy.next cfg (.ready slot.key turn.answers)).entries key = l.proxy.entries key := by
        simp only [Proxy.next, here, Proxy.update_other ne]
      dsimp only
      split
      · exact erase_serviced turn live here rfl others
      · rename_i unfinished
        have goes_on : (s.call cfg ⟨turn.answers, l.proxy.cache⟩).conn.done = false :=
          Bool.eq_false_of_not_eq_true unfinished
        split
        · exact erase_serviced turn live here rfl others
        · split
          · split
            · exact .called slot s live here others (Or.inr ⟨⟨_, rfl, rfl⟩, moved, goes_on⟩)
            · exact erase_serviced turn live here rfl others
          · refine .called slot s live here others (Or.inr ⟨⟨slot, ?_, rfl⟩, moved, goes_on⟩)
            rw [← live, Function.update_eq_self]
            rfl
    · rename_i dead
      refine .absent ?_ rfl
      rw [session, live]
      dsimp only
      split
      · rename_i s here
        exact absurd here (dead s)
      · rfl

section Service
variable {cfg : Config} {l l' : Loop} {ptr : Nat} {turn : Turn}

/-- Whatever is live afterwards was live before, at the same address. -/
theorem Serviced.keys (h : Serviced cfg l ptr turn l') {ptr' : Nat} {slot' : Slot} (live' : l'.live ptr' = some slot') :
    ∃ slot, l.live ptr' = some slot ∧ slot.key = slot'.key := by
  cases h with
  | absent _ same => exact ⟨slot', same ▸ live', rfl⟩
  | called slot s live here others after =>
    rcases after with after | ⟨⟨new, after, same⟩, -⟩
    · rw [after] at live'
      exact ⟨slot', (update_none_eq_some.mp live').2, rfl⟩
    · rw [after] at live'
      rcases update_some_eq_some.mp live' with ⟨rfl, rfl⟩ | ⟨-, before⟩
      · exact ⟨slot, live, same.symm⟩
      · exact ⟨slot', before, rfl⟩

theorem Serviced.live_other (h : Serviced cfg l ptr turn l') {ptr' : Nat} (other : ptr' ≠ ptr) :
    l'.live ptr' = l.live ptr' := by
  cases h with
  | absent _ same => rw [same]
  | called slot s live here others after =>
    rcases after with after | ⟨⟨new, after, -⟩, -⟩
    · rw [after, Function.update_of_ne other]
    · rw [after, Function.update_of_ne other]

end Service

/-- The drain adds nothing to `live_`. -/
theorem drainEvent_live (cfg : Config) (l : Loop) (e : Udata × Turn) {ptr : Nat} (gone : l.live ptr = none) :
    (l.drainEvent cfg e).live ptr = none := by
  obtain ⟨udata, turn⟩ := e
  cases udata with
  | listener => exact gone
  | inbox => exact gone
  | conn ptr' key =>
    refine Option.eq_none_iff_forall_ne_some.mpr fun slot' live' => ?_
    obtain ⟨slot, live, -⟩ := (service_serviced cfg ptr' turn l).keys live'
    cases gone.symm.trans live

theorem run_drainEvent_live (cfg : Config) (l : Loop) (batch : List (Udata × Turn)) {ptr : Nat}
    (gone : l.live ptr = none) : (run (drainEvent cfg) l batch).live ptr = none :=
  run_invariant (P := fun l : Loop => l.live ptr = none) (fun l e gone => l.drainEvent_live cfg e gone) gone batch

theorem clearAt_live (cfg : Config) (lastRef : Nat → Bool) (l : Loop) (ptr ptr' : Nat) :
    (l.clearAt cfg lastRef ptr).live ptr' = if ptr' = ptr then none else l.live ptr' := by
  unfold clearAt
  split
  · rename_i gone
    by_cases same : ptr' = ptr
    · rw [if_pos same, same, gone]
    · rw [if_neg same]
  · rw [erase_live, Function.update_apply]

/-! ## What a connection spends -/

/-- The event is for the connection at the address, and comes to something if that is still there. -/
def counts (ptr : Nat) (l : Loop) (e : Udata × Turn) : Bool :=
  match e.1 with
  | .conn ptr' _ => ptr' = ptr && (l.session ptr).all fun s => s.conn.definite e.2.answers
  | _ => false

/-- What is left to do for the connection at the address. -/
def left (b : Limits) (ptr : Nat) (l : Loop) : Nat := (l.session ptr).elim 0 b.measure

/-- An event for the connection at the address keeps its exchange within the limits. -/
def Within (b : Limits) (cfg : Config) (ptr : Nat) (l : Loop) (e : Udata × Turn) : Prop :=
  ∀ key s, e.1 = .conn ptr key → l.session ptr = some s →
    Fair b e.2.answers ∧ Limited b (s.call cfg ⟨e.2.answers, l.proxy.cache⟩).trace

/-- The connection with this key is at the address and unfinished, or nothing is there any more. -/
structure Stands (b : Limits) (cfg : Config) (ptr key : Nat) (l : Loop) : Prop where
  apart : ∀ ptr' slot, l.live ptr' = some slot → slot.key = key → ptr' = ptr
  here : l.live ptr = none ∨ ∃ slot s, l.live ptr = some slot ∧ slot.key = key ∧
    l.proxy.entries key = some ⟨s, true⟩ ∧ Standing b cfg s ∧ s.conn.done = false

variable {b : Limits} {cfg : Config} {ptr key : Nat} {l : Loop}

theorem session_eq {slot : Slot} {s : Session} (live : l.live ptr = some slot)
    (here : l.proxy.entries slot.key = some ⟨s, true⟩) : l.session ptr = some s := by
  simp only [session, live, here]

theorem left_gone (gone : l.live ptr = none) : left b ptr l = 0 := by
  simp only [left, session, gone, Option.elim_none]

theorem left_eq {slot : Slot} {s : Session} (live : l.live ptr = some slot)
    (here : l.proxy.entries slot.key = some ⟨s, true⟩) : left b ptr l = b.measure s := by
  rw [left, session_eq live here, Option.elim_some]

/-- Whatever is served, no other slot gets the key. -/
theorem Stands.still_apart (h : Stands b cfg ptr key l) {ptr' : Nat} {turn : Turn} {l' : Loop}
    (serviced : Serviced cfg l ptr' turn l') (ptr'' : Nat) (slot'' : Slot) (live'' : l'.live ptr'' = some slot'')
    (same : slot''.key = key) : ptr'' = ptr := by
  obtain ⟨slot, live, key_eq⟩ := serviced.keys live''
  exact h.apart ptr'' slot live (key_eq.trans same)

/-- The connection at another address is served. -/
theorem Stands.aside (h : Stands b cfg ptr key l) {ptr' : Nat} (other : ptr' ≠ ptr) (turn : Turn) :
    Stands b cfg ptr key (l.service cfg ptr' turn) ∧ left b ptr (l.service cfg ptr' turn) = left b ptr l := by
  have serviced := service_serviced cfg ptr' turn l
  have there := serviced.live_other other.symm
  have kept : (l.service cfg ptr' turn).proxy.entries key = l.proxy.entries key := by
    cases serviced with
    | absent _ same => rw [same]
    | called slot s live here others after => exact others key fun same => other (h.apart ptr' slot live same.symm)
  refine ⟨⟨h.still_apart serviced, ?_⟩, ?_⟩
  · rw [there, kept]
    exact h.here
  · rcases h.here with gone | ⟨slot, s, live, rfl, here, -⟩
    · rw [left_gone gone, left_gone (there.trans gone)]
    · rw [left_eq live here, left_eq (there.trans live) (kept.trans here)]

/-- It is served itself. -/
theorem Stands.served (h : Stands b cfg ptr key l) {turn : Turn} {slot : Slot} {s : Session}
    (live : l.live ptr = some slot) (here : l.proxy.entries slot.key = some ⟨s, true⟩) (fair : Fair b turn.answers)
    (limited : Limited b (s.call cfg ⟨turn.answers, l.proxy.cache⟩).trace) :
    Stands b cfg ptr key (l.service cfg ptr turn) ∧
      left b ptr (l.service cfg ptr turn) + (s.conn.definite turn.answers).toNat ≤ left b ptr l := by
  obtain gone | ⟨slot', s', live', rfl, here', standing, unfinished⟩ := h.here
  · cases gone.symm.trans live
  obtain rfl := Option.some.inj (live.symm.trans live')
  obtain ⟨⟩ := Option.some.inj (here.symm.trans here')
  have open_ : ¬ Done s.conn := fun done => by simp [Connection.done, done.state] at unfinished
  have spent : b.measure (s.call cfg ⟨turn.answers, l.proxy.cache⟩) + (s.conn.definite turn.answers).toNat ≤
      b.measure s := measure_call standing fair limited open_
  have serviced := service_serviced cfg ptr turn l
  have apart := h.still_apart serviced
  rw [left_eq live here]
  cases serviced with
  | absent gone => cases gone.symm.trans (session_eq live here)
  | called slot₁ s₁ live₁ here₁ others after =>
    obtain rfl := Option.some.inj (live.symm.trans live₁)
    obtain ⟨⟩ := Option.some.inj (here.symm.trans here₁)
    rcases after with after | ⟨⟨slot', after, same⟩, now, goes_on⟩
    · have gone : (l.service cfg ptr turn).live ptr = none := by rw [after, Function.update_self]
      refine ⟨⟨apart, Or.inl gone⟩, ?_⟩
      rw [left_gone gone]
      omega
    · have there : (l.service cfg ptr turn).live ptr = some slot' := by rw [after, Function.update_self]
      refine ⟨⟨apart, Or.inr ⟨slot', _, there, same, now, standing.call fair, goes_on⟩⟩, ?_⟩
      rw [left_eq there (same ▸ now)]
      exact spent

/-- **One event of the drain.** The connection at the address stands or is gone, and an event that counts has cost it
one of what it had left. -/
theorem Stands.step (h : Stands b cfg ptr key l) {e : Udata × Turn} (within : Within b cfg ptr l e) :
    Stands b cfg ptr key (l.drainEvent cfg e) ∧
      (l.live ptr ≠ none → left b ptr (l.drainEvent cfg e) + (counts ptr l e).toNat ≤ left b ptr l) := by
  obtain ⟨udata, turn⟩ := e
  cases udata with
  | listener => exact ⟨h, fun _ => Nat.le_refl _⟩
  | inbox => exact ⟨h, fun _ => Nat.le_refl _⟩
  | conn ptr' key' =>
    by_cases same : ptr' = ptr
    · subst same
      obtain gone | ⟨slot, s, live, rfl, here, standing, unfinished⟩ := h.here
      · have still : l.service cfg ptr' turn = l := by simp only [service, gone]
        refine ⟨?_, fun listed => absurd gone listed⟩
        show Stands b cfg ptr' key (l.service cfg ptr' turn)
        rw [still]
        exact h
      · obtain ⟨fair, limited⟩ := within key' s rfl (session_eq live here)
        obtain ⟨stands, spent⟩ := h.served live here fair limited
        refine ⟨stands, fun _ => ?_⟩
        have comes : counts ptr' l (.conn ptr' key', turn) = s.conn.definite turn.answers := by
          simp [counts, session_eq live here]
        rw [comes]
        exact spent
    · obtain ⟨stands, kept⟩ := h.aside same turn
      refine ⟨stands, fun _ => ?_⟩
      have elsewhere : counts ptr l (.conn ptr' key', turn) = false := by simp [counts, same]
      rw [elsewhere]
      exact kept.le

/-- **All events of the drain.** -/
theorem Stands.run {l : Loop} (h : Stands b cfg ptr key l) {events : List (Udata × Turn)}
    (within : Legal (Within b cfg ptr) (drainEvent cfg) l events) :
    Stands b cfg ptr key (run (drainEvent cfg) l events) ∧
      Legal (fun l e => ¬ l.live ptr = none → left b ptr (l.drainEvent cfg e) + (counts ptr l e).toNat ≤ left b ptr l)
        (drainEvent cfg) l events := by
  induction events generalizing l with
  | nil => exact ⟨h, trivial⟩
  | cons e events ih =>
    obtain ⟨stands, spent⟩ := h.step within.1
    obtain ⟨at_end, rest⟩ := ih stands within.2
    exact ⟨at_end, spent, rest⟩

/-- A connection that was given as many events that count as it had calls left is gone. -/
theorem Stands.spent {l : Loop} (h : Stands b cfg ptr key l) {events : List (Udata × Turn)}
    (within : Legal (Within b cfg ptr) (drainEvent cfg) l events)
    (enough : left b ptr l ≤ tally (counts ptr) (drainEvent cfg) l events) :
    (Runs.run (drainEvent cfg) l events).live ptr = none := by
  obtain ⟨⟨-, here⟩, spends⟩ := h.run within
  by_contra listed
  have stays (l : Loop) (e : Udata × Turn) (gone : l.live ptr = none) : (l.drainEvent cfg e).live ptr = none :=
    l.drainEvent_live cfg e gone
  have paid := tally_le stays spends listed
  obtain ⟨slot, s, live, rfl, entry, -, unfinished⟩ := here.resolve_left listed
  have some_left : 0 < b.measure s := Limits.measure_pos fun done => by simp [Connection.done, done] at unfinished
  rw [left_eq live entry] at paid
  omega

end Loop

/-- A loop in its drain, with the addresses that can be live. -/
structure Draining where
  loop : Loop
  addrs : List Nat
  covers : ∀ ptr, ptr ∉ addrs → loop.live ptr = none

namespace Draining

/-- `live_.empty()`. -/
def empty (d : Draining) : Bool := d.addrs.all fun ptr => (d.loop.live ptr).isNone

/-- The events of one wait. -/
def serve (cfg : Config) (d : Draining) (batch : List (Udata × Turn)) : Draining where
  loop := run (Loop.drainEvent cfg) d.loop batch
  addrs := d.addrs
  covers ptr outside := d.loop.run_drainEvent_live cfg batch (d.covers ptr outside)

/-- `live_.clear()`: what is left is destroyed. -/
def clear (cfg : Config) (lastRef : Nat → Bool) (d : Draining) : Loop :=
  run (Loop.clearAt cfg lastRef) d.loop d.addrs

/-- The loop of `drain`, from the `i`-th wait on; `none` if it has not ended in `fuel` rounds. -/
def drainLoop (cfg : Config) (waits : Nat → Kevent) : Nat → Nat → Nat → Draining → Option Draining
  | 0, _, _, _ => none
  | fuel + 1, i, waited, d =>
    if d.empty = false ∧ waited < 5000 then
      match waits i with
      | .interrupted => drainLoop cfg waits fuel (i + 1) waited d
      | .failed => some d
      | .returns batch =>
        let waited := if batch.length = 0 then waited + 100 else waited
        drainLoop cfg waits fuel (i + 1) waited (d.serve cfg batch)
    else some d

/-- `EventLoop::drain`, given `fuel` rounds. -/
def drain (cfg : Config) (waits : Nat → Kevent) (lastRef : Nat → Bool) (fuel : Nat) (d : Draining) : Option Loop :=
  (drainLoop cfg waits fuel 0 0 d).map (clear cfg lastRef)

/-- The drain returns, with `live_` empty. -/
def Ends (cfg : Config) (waits : Nat → Kevent) (lastRef : Nat → Bool) (d : Draining) : Prop :=
  ∃ fuel l, drain cfg waits lastRef fuel d = some l ∧ ∀ ptr, l.live ptr = none

theorem empty_iff {d : Draining} : d.empty = true ↔ ∀ ptr, d.loop.live ptr = none := by
  simp only [empty, List.all_eq_true, Option.isNone_iff_eq_none]
  constructor
  · intro listed ptr
    by_cases inside : ptr ∈ d.addrs
    · exact listed ptr inside
    · exact d.covers ptr inside
  · intro all ptr _
    exact all ptr

theorem clear_live (cfg : Config) (lastRef : Nat → Bool) (d : Draining) (ptr : Nat) :
    (d.clear cfg lastRef).live ptr = none := by
  have cleared (addrs : List Nat) (l : Loop) :
      (run (Loop.clearAt cfg lastRef) l addrs).live ptr = if ptr ∈ addrs then none else l.live ptr := by
    induction addrs generalizing l with
    | nil => simp
    | cons a addrs ih =>
      rw [run_cons, ih, Loop.clearAt_live]
      by_cases here : ptr = a <;> simp [here]
  rw [clear, cleared]
  split
  · rfl
  · rename_i outside
    exact d.covers ptr outside

/-! ## When the drain ends -/

section Waits
variable (cfg : Config) (waits : Nat → Kevent)

/-- The events of the first `n` waits, all of them served. -/
def served (d : Draining) : Nat → Draining
  | 0 => d
  | n + 1 =>
    match waits n with
    | .returns batch => (served d n).serve cfg batch
    | _ => served d n

/-- How many of the first `n` waits returned no event. -/
def idle : Nat → Nat
  | 0 => 0
  | n + 1 =>
    match waits n with
    | .returns [] => idle n + 1
    | _ => idle n

/-- The `n`-th round is the last, if it is reached. -/
def Stops (d : Draining) (n : Nat) : Prop :=
  waits n = .failed ∨ 50 ≤ idle waits n ∨ ∀ ptr, (served cfg waits d n).loop.live ptr = none

/-- One round, from the state the first `n` waits lead to. -/
theorem drainLoop_round (d : Draining) (fuel n : Nat) :
    drainLoop cfg waits (fuel + 1) n (100 * idle waits n) (served cfg waits d n) =
      if (served cfg waits d n).empty = false ∧ idle waits n < 50 then
        match waits n with
        | .failed => some (served cfg waits d n)
        | _ => drainLoop cfg waits fuel (n + 1) (100 * idle waits (n + 1)) (served cfg waits d (n + 1))
      else some (served cfg waits d n) := by
  have grace : 100 * idle waits n < 5000 ↔ idle waits n < 50 := by omega
  simp only [drainLoop, grace]
  split
  · cases wait : waits n with
    | interrupted => simp only [idle, served, wait]
    | failed => rfl
    | returns batch =>
      cases batch with
      | nil => simp only [idle, served, wait, List.length_nil, if_true, Nat.mul_add]
      | cons e batch =>
        have some_event : (e :: batch).length ≠ 0 := Nat.succ_ne_zero _
        simp only [idle, served, wait, if_neg some_event]
  · rfl

theorem Stops.of_exit {d : Draining} {n : Nat}
    (exit : ¬ ((served cfg waits d n).empty = false ∧ idle waits n < 50)) : Stops cfg waits d n := by
  by_cases out : (served cfg waits d n).empty = true
  · exact Or.inr (Or.inr (empty_iff.mp out))
  · refine Or.inr (Or.inl ?_)
    by_contra early
    exact exit ⟨by simpa using out, by omega⟩

/-- A drain that ends has met a round that stops. -/
theorem drainLoop_stops {d out : Draining} {fuel n : Nat}
    (ends : drainLoop cfg waits fuel n (100 * idle waits n) (served cfg waits d n) = some out) :
    ∃ m, Stops cfg waits d m := by
  induction fuel generalizing n with
  | zero => cases ends
  | succ fuel ih =>
    rw [drainLoop_round] at ends
    split at ends
    · cases wait : waits n with
      | failed => exact ⟨n, Or.inl wait⟩
      | interrupted =>
        rw [wait] at ends
        exact ih ends
      | returns batch =>
        rw [wait] at ends
        exact ih ends
    · rename_i exit
      exact ⟨n, .of_exit cfg waits exit⟩

theorem Ends.stops {lastRef : Nat → Bool} {d : Draining} (ends : Ends cfg waits lastRef d) :
    ∃ n, Stops cfg waits d n := by
  obtain ⟨fuel, l, returns, -⟩ := ends
  obtain ⟨out, loop, -⟩ := Option.map_eq_some_iff.mp returns
  exact drainLoop_stops cfg waits (n := 0) loop

/-- With a round that stops ahead, the drain ends there or earlier. -/
theorem drainLoop_ends {d : Draining} (distance n : Nat) (stops : Stops cfg waits d (n + distance)) :
    ∃ out, drainLoop cfg waits (distance + 1) n (100 * idle waits n) (served cfg waits d n) = some out := by
  induction distance generalizing n with
  | zero =>
    rw [drainLoop_round]
    split
    · rename_i goes_on
      rw [Nat.add_zero] at stops
      rcases stops with failed | late | out
      · rw [failed]
        exact ⟨_, rfl⟩
      · exact absurd goes_on.2 (Nat.not_lt.mpr late)
      · rw [empty_iff.mpr out] at goes_on
        cases goes_on.1
    · exact ⟨_, rfl⟩
  | succ distance ih =>
    rw [drainLoop_round]
    have later := ih (n + 1) (by rwa [Nat.add_right_comm])
    split
    · cases waits n with
      | failed => exact ⟨_, rfl⟩
      | interrupted => exact later
      | returns batch => exact later
    · exact ⟨_, rfl⟩

/-- The events of the first `n` waits. -/
def events : Nat → List (Udata × Turn)
  | 0 => []
  | n + 1 =>
    match waits n with
    | .returns batch => events n ++ batch
    | _ => events n

theorem served_loop (d : Draining) (n : Nat) :
    (served cfg waits d n).loop = run (Loop.drainEvent cfg) d.loop (events waits n) := by
  induction n with
  | zero => rfl
  | succ n ih =>
    cases wait : waits n with
    | returns batch => simp only [served, events, wait, serve, run_append, ih]
    | interrupted => simpa only [served, events, wait] using ih
    | failed => simpa only [served, events, wait] using ih

/-- By the `n`-th wait the connection at the address, with session `s`, has been given what finishes it: its exchange
keeps to some limits, and as many of its events come to something as it can have calls within them. -/
structure Spent (b : Limits) (d : Draining) (ptr : Nat) (s : Session) (n : Nat) : Prop where
  standing : Standing b cfg s
  within : Legal (Loop.Within b cfg ptr) (Loop.drainEvent cfg) d.loop (events waits n)
  enough : b.measure s ≤ tally (Loop.counts ptr) (Loop.drainEvent cfg) d.loop (events waits n)

variable {cfg waits} in
theorem Spent.gone {b : Limits} {d : Draining} {ptr : Nat} {s : Session} {n : Nat} (h : Spent cfg waits b d ptr s n)
    (consistent : d.loop.Consistent cfg) (here : d.loop.session ptr = some s) :
    (served cfg waits d n).loop.live ptr = none := by
  cases live : d.loop.live ptr with
  | none =>
    rw [Loop.session, live] at here
    cases here
  | some slot =>
    obtain ⟨s', entry, want, -⟩ := consistent.slots ptr slot live
    obtain rfl : s = s' := Option.some.inj (here.symm.trans (Loop.session_eq live entry))
    have unfinished : s.conn.done = false := by
      simpa [Connection.done] using (consistent.sound.phase _ s entry).unfinished want
    have stands : d.loop.Stands b cfg ptr slot.key :=
      ⟨fun ptr' slot' live' same => consistent.apart _ _ _ _ live' live same,
        Or.inr ⟨slot, s, live, rfl, entry, h.standing, unfinished⟩⟩
    rw [served_loop]
    exact stands.spent h.within ((Loop.left_eq live entry).le.trans h.enough)

/-- A connection that is gone stays gone. -/
theorem served_live {d : Draining} {n m : Nat} {ptr : Nat} (later : n ≤ m)
    (gone : (served cfg waits d n).loop.live ptr = none) : (served cfg waits d m).loop.live ptr = none := by
  induction m, later using Nat.le_induction with
  | base => exact gone
  | succ m later ih =>
    cases wait : waits m with
    | returns batch =>
      simp only [served, wait]
      exact Loop.run_drainEvent_live cfg _ batch ih
    | interrupted => simpa only [served, wait] using ih
    | failed => simpa only [served, wait] using ih

/-- If every connection is finished at some time, there is a time when all are: they are finitely many. -/
theorem served_all {d : Draining} (each : ∀ ptr, ∃ n, (served cfg waits d n).loop.live ptr = none) :
    ∃ n, ∀ ptr, (served cfg waits d n).loop.live ptr = none := by
  choose finish gone using each
  refine ⟨d.addrs.toFinset.sup finish, fun ptr => ?_⟩
  by_cases inside : ptr ∈ d.addrs
  · exact served_live cfg waits (Finset.le_sup (List.mem_toFinset.mpr inside)) (gone ptr)
  · exact served_live cfg waits (Nat.zero_le _) (d.covers ptr inside)

end Waits

/-- **When the drain ends.** From any live connections and with any waits: if a wait
fails, or fifty of them return no event, or each connection is finished by the
events served for it; and in no other case. A connection of a consistent loop is
finished once its exchange, within some limits, has had all the calls it can have. -/
theorem drain_ends_iff (cfg : Config) (waits : Nat → Kevent) (lastRef : Nat → Bool) (d : Draining) :
    (Ends cfg waits lastRef d ↔
      (∃ n, waits n = .failed) ∨ (∃ n, 50 ≤ idle waits n) ∨
        ∀ ptr, ∃ n, (served cfg waits d n).loop.live ptr = none) ∧
    (d.loop.Consistent cfg → ∀ ptr s b n, d.loop.session ptr = some s → Spent cfg waits b d ptr s n →
      (served cfg waits d n).loop.live ptr = none) := by
  refine ⟨⟨?_, ?_⟩, fun consistent ptr s b n here spent => spent.gone consistent here⟩
  · intro ends
    obtain ⟨n, failed | late | gone⟩ := ends.stops
    · exact Or.inl ⟨n, failed⟩
    · exact Or.inr (Or.inl ⟨n, late⟩)
    · exact Or.inr (Or.inr fun ptr => ⟨n, gone ptr⟩)
  · intro reason
    obtain ⟨n, stops⟩ : ∃ n, Stops cfg waits d n := by
      rcases reason with ⟨n, failed⟩ | ⟨n, late⟩ | each
      · exact ⟨n, Or.inl failed⟩
      · exact ⟨n, Or.inr (Or.inl late)⟩
      · obtain ⟨n, gone⟩ := served_all cfg waits each
        exact ⟨n, Or.inr (Or.inr gone)⟩
    obtain ⟨out, loop⟩ := drainLoop_ends cfg waits n 0 (by rwa [Nat.zero_add])
    refine ⟨n + 1, out.clear cfg lastRef, ?_, clear_live cfg lastRef out⟩
    rw [drain]
    exact congrArg (Option.map (clear cfg lastRef)) loop

end Draining

/-! ## A response that does not end -/

/-- The response of the origin is on its way to the client. -/
structure Streams (c : Connection) : Prop where
  state : c.state = .relaying
  client : c.client.isSome
  upstream : c.upstream.isSome
  eof : c.upstreamEof = false
  want : c.want = .readUpstream ∨ c.want = .writeClient

/-- The origin sends more, the client takes some, and the descriptors can be armed. -/
structure Flows (cfg : Config) (turn : Turn) : Prop where
  armed : turn.armed = true
  received : ∃ data, readSome (chunk cfg) turn.answers.recv = (.ok, data)
  accepted : ∃ n, turn.answers.send = .accepts n

section Endless
variable {cfg : Config}

theorem Streams.accumulate {c : Connection} (h : Streams c) (cfg : Config) (data : Bytes) :
    Streams (accumulate cfg data c) := by
  unfold EvProxy.accumulate
  split
  · split
    · exact ⟨h.state, h.client, h.upstream, h.eof, h.want⟩
    · exact ⟨h.state, h.client, h.upstream, h.eof, h.want⟩
  · exact h

theorem Streams.onReady {c : Connection} (h : Streams c) {turn : Turn} (flows : Flows cfg turn)
    (cache : Option LruCache) : Streams (onReady cfg turn.answers ⟨c, cache, []⟩).conn := by
  rcases h.want with want | want
  · obtain ⟨data, got⟩ := flows.received
    have kept := h.accumulate cfg data
    simp only [EvProxy.onReady, want, doReadUpstream, got]
    exact ⟨kept.state, kept.client, kept.upstream, kept.eof, Or.inr rfl⟩
  · obtain ⟨n, send⟩ := flows.accepted
    simp only [EvProxy.onReady, want, doWriteClient, send, writeSome]
    split
    · exact ⟨h.state, h.client, h.upstream, h.eof, Or.inr rfl⟩
    · have relays : ¬ (c.state = .failing ∨ c.upstreamEof = true) := by simp [h.state, h.eof]
      rw [if_neg relays]
      exact ⟨h.state, h.client, h.upstream, h.eof, Or.inl rfl⟩

theorem Streams.wantFd {c : Connection} (h : Streams c) : ∃ fd, c.wantFd = some fd := by
  rcases h.want with want | want
  · obtain ⟨fd, same⟩ := Option.isSome_iff_exists.mp h.upstream
    exact ⟨fd, by rw [Connection.wantFd, want, same]⟩
  · obtain ⟨fd, same⟩ := Option.isSome_iff_exists.mp h.client
    exact ⟨fd, by rw [Connection.wantFd, want, same]⟩

theorem Streams.not_done {c : Connection} (h : Streams c) : c.done = false := by
  rw [Connection.done, h.state]
  rfl

/-- The connection at an address is live, and its response on its way. -/
def Loop.Relays (l : Loop) (ptr : Nat) : Prop :=
  ∃ slot s, l.live ptr = some slot ∧ l.proxy.entries slot.key = some ⟨s, true⟩ ∧ Streams s.conn

theorem Loop.Relays.service {l : Loop} {ptr : Nat} (h : l.Relays ptr) {turn : Turn} (flows : Flows cfg turn) :
    (l.service cfg ptr turn).Relays ptr := by
  obtain ⟨slot, s, live, here, streams⟩ := h
  have next := streams.onReady flows l.proxy.cache
  obtain ⟨fd, want⟩ := next.wantFd
  have moved : (l.proxy.next cfg (.ready slot.key turn.answers)).entries slot.key =
      some ⟨s.call cfg ⟨turn.answers, l.proxy.cache⟩, true⟩ := by
    simp only [Proxy.next, here, Proxy.update_self]
    rfl
  simp only [Loop.service, live, here, next.not_done, want, flows.armed]
  split
  · rename_i done
    cases done
  · split
    · exact ⟨_, _, Function.update_self .., moved, next⟩
    · exact ⟨slot, _, live, moved, next⟩

/-- While the origin keeps sending and the client keeps reading, the drain does not end. -/
theorem Draining.endless {waits : Nat → Kevent} {ptr : Nat} (lastRef : Nat → Bool) {d : Draining}
    (relays : d.loop.Relays ptr)
    (busy : ∀ n, ∃ key turn, waits n = .returns [(.conn ptr key, turn)] ∧ Flows cfg turn) :
    ¬ Ends cfg waits lastRef d := by
  have no_idle (n : Nat) : idle waits n = 0 := by
    induction n with
    | zero => rfl
    | succ n ih =>
      obtain ⟨key, turn, wait, -⟩ := busy n
      simp only [idle, wait, ih]
  have stays (n : Nat) : (served cfg waits d n).loop.Relays ptr := by
    induction n with
    | zero => exact relays
    | succ n ih =>
      obtain ⟨key, turn, wait, flows⟩ := busy n
      simp only [served, wait]
      exact ih.service flows
  intro ends
  obtain ⟨n, failed | late | gone⟩ := ends.stops
  · obtain ⟨key, turn, wait, -⟩ := busy n
    cases wait.symm.trans failed
  · rw [no_idle n] at late
    exact absurd late (by decide)
  · obtain ⟨slot, s, live, -⟩ := stays n
    cases live.symm.trans (gone ptr)

end Endless

/-- A client connects, sends its request and the request goes out; then the loop is stopped. -/
def endlessActions : List Action :=
  [.poll [(3, false)], .dispatch { accepts := [.ok ⟨5, 100, true⟩, .wouldBlock] },
    .poll [(5, false)],
    .dispatch { answers := { recv := .bytes (bytes "GET http://h/ HTTP/1.1\r\n\r\n"),
                             start := .hit [⟨[], 0, 0, 0⟩], dial := fun _ => .connected 6 } },
    .poll [(6, true)], .dispatch { answers := { send := .accepts 1000 } }, .stop]

def endlessLoop : Loop := run (Loop.next {}) (.start {} {3} 3 false) endlessActions

theorem endlessLoop_live (ptr : Nat) (other : ptr ∉ [100]) : endlessLoop.live ptr = none := by
  have live : endlessLoop.live = Function.update (Function.update (Function.update (fun _ => none)
      100 (some ⟨0, 5, false, 0⟩)) 100 (some ⟨0, 6, true, 1⟩)) 100 (some ⟨0, 6, false, 2⟩) := rfl
  rw [List.mem_singleton] at other
  simp only [live, Function.update_of_ne other]

def endlessDrain : Draining := ⟨endlessLoop, [100], endlessLoop_live⟩

/-- Ever since, the origin sends one byte at a time and the client reads it. -/
def endlessWait : Kevent := .returns [(.conn 100 0, { answers := { recv := .bytes (bytes "x"), send := .accepts 1 } })]

theorem drain_endless_response : ¬ Draining.Ends {} (fun _ => endlessWait) (fun _ => true) endlessDrain := by
  have relays : endlessLoop.Relays 100 := ⟨_, _, rfl, rfl, ⟨rfl, rfl, rfl, rfl, Or.inl rfl⟩⟩
  exact Draining.endless _ relays fun n => ⟨0, _, rfl, ⟨rfl, ⟨_, rfl⟩, ⟨_, rfl⟩⟩⟩

/-- The same connection, but the origin sends one byte and closes. -/
def closingWaits : Nat → Kevent
  | 0 => .returns [(.conn 100 0, { answers := { recv := .bytes (bytes "x") } })]
  | 1 => .returns [(.conn 100 0, { answers := { send := .accepts 1 } })]
  | _ => .returns [(.conn 100 0, { answers := { recv := .bytes [] } })]

theorem endlessLoop_consistent : endlessLoop.Consistent {} := by
  refine Loop.consistent_run (by decide) ⟨⟨rfl, by decide⟩, ⟨⟨rfl, fun _ => by decide⟩, trivial⟩, ⟨rfl, by decide⟩, ?_,
    ⟨rfl, by decide⟩, ?_, ⟨rfl, rfl⟩, trivial⟩
  · rintro slot ⟨⟩ s ⟨⟩
    decide
  · rintro slot ⟨⟩ s ⟨⟩
    decide

/-- Where the cache has answered nothing, the two streams are all there is to limit. -/
theorem Limited.of_misses {b : Limits} {t : List Event} (client : (stream .fromClient t).length ≤ b.client)
    (upstream : (stream .fromUpstream t).length ≤ b.upstream)
    (missed : t.all (fun e => match e with | .cacheHit _ _ => false | _ => true) = true) : Limited b t := by
  refine ⟨client, upstream, fun key response hit => ?_⟩
  cases List.all_eq_true.mp missed _ hit

theorem drain_ends_closing : Draining.Ends {} closingWaits (fun _ => true) endlessDrain := by
  obtain ⟨ends, finished⟩ := Draining.drain_ends_iff {} closingWaits (fun _ => true) endlessDrain
  refine ends.mpr (Or.inr (Or.inr fun ptr => ?_))
  by_cases here : ptr = 100
  · subst here
    let b : Limits := ⟨26, 1, 1, 0⟩
    refine ⟨3, finished endlessLoop_consistent 100 _ b 3 rfl ⟨?_, ?_, ?_⟩⟩
    · exact ⟨endlessLoop_consistent.sound.phase 0 _ rfl, by decide, by decide⟩
    · refine ⟨?_, ?_, ?_, trivial⟩
      all_goals
        rintro key s - ⟨⟩
        refine ⟨?_, .of_misses ?_ ?_ ?_⟩
        · constructor <;> simp
        all_goals decide +kernel
    · decide +kernel
  · exact ⟨0, endlessLoop_live ptr (by simpa using here)⟩

end EvProxy
