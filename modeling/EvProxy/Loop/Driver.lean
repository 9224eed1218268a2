import EvProxy.Conn.Renaming
import EvProxy.Loop.Registration

/-!
# The event loop refines the blocking driver

The thread-based backends run one loop per connection: wait for what the
connection wants, call `on_ready()`, until it is done (`serve`). The event loop
interleaves the same calls for all connections. `loop_refines_driver` says that
each of them goes through the same states and moves the same bytes as it would
alone, is called only when its own wait is over, and is never lost on the way.
-/

namespace EvProxy
open Runs

/-! ## The blocking driver (`thread_per_conn.cpp`, `thread_pool.cpp`) -/

/-- The loop that `serve` and `worker_loop` run on a connection, without cache and
timeout. The list has the answers for each time `wait_ready` returns; the result
has the session after each call. -/
def serve (cfg : Config) (s : Session) : List Answers → List Session
  | [] => []
  | a :: rest =>
    if s.conn.done then []
    else
      match s.conn.wantFd with
      | none => []
      | some _ => s.call cfg ⟨a, none⟩ :: serve cfg (s.call cfg ⟨a, none⟩) rest

/-- What is compared: the state, and the bytes written on either side. -/
structure Seen where
  state : State
  toClient : Bytes
  toUpstream : Bytes
  deriving DecidableEq

def Session.seen (s : Session) : Seen := ⟨s.conn.state, stream .toClient s.trace, stream .toUpstream s.trace⟩

/-- Without the numbers the kernel gave out. -/
def Answers.blur (a : Answers) : Answers := a.rename fun _ => 0

theorem wantFd_rename (ρ : Nat → Nat) (c : Connection) : (c.rename ρ).wantFd = c.wantFd.map ρ := by
  simp only [Connection.wantFd, Connection.rename_want]
  cases c.want with
  | readResolver => cases job : c.resolveJob <;> simp [Connection.rename, job, ResolveJob.rename]
  | _ => rfl

theorem serve_rename (ρ : Nat → Nat) (cfg : Config) (s : Session) (answers : List Answers) :
    serve cfg (s.rename ρ) (answers.map (Answers.rename ρ)) = (serve cfg s answers).map (Session.rename ρ) := by
  induction answers generalizing s with
  | nil => rfl
  | cons a rest ih =>
    have done : (s.conn.rename ρ).done = s.conn.done := rfl
    simp only [List.map_cons, serve, done, Session.rename_conn, wantFd_rename]
    split
    · rfl
    · cases s.conn.wantFd with
      | none => rfl
      | some fd => simp only [Option.map_some, List.map_cons, Session.call_rename, ih]

theorem seen_rename (ρ : Nat → Nat) (s : Session) : (s.rename ρ).seen = s.seen := by
  simp only [Session.seen, Session.rename_conn, Session.rename_trace, Connection.rename_state, stream_rename]

/-- Two runs that meet the same outcomes, up to descriptor numbers, look the same. -/
theorem serve_seen (cfg : Config) (client client' id : Nat) {answers answers' : List Answers}
    (same : answers.map Answers.blur = answers'.map Answers.blur) :
    (serve cfg (.start client id) answers).map Session.seen =
      (serve cfg (.start client' id) answers').map Session.seen := by
  have blurred (client : Nat) (answers : List Answers) : (serve cfg (.start client id) answers).map Session.seen =
      (serve cfg (.start 0 id) (answers.map Answers.blur)).map Session.seen := by
    have renamed := serve_rename (fun _ => 0) cfg (.start client id) answers
    rw [show (Session.start client id).rename (fun _ => 0) = .start 0 id from rfl] at renamed
    rw [show answers.map Answers.blur = answers.map (Answers.rename fun _ => 0) from rfl, renamed, List.map_map]
    exact List.map_congr_left fun s _ => (seen_rename _ s).symm
  rw [blurred client answers, blurred client' answers', same]

/-! ## What one action does to the connections -/

/-- An `on_ready()` call: whose, for which registration, with which answers. -/
structure Wakeup where
  key : Nat
  reg : Reg
  answers : Answers

namespace Loop

/-- The call an action makes. -/
def wakeup (l : Loop) : Action → Option Wakeup
  | .dispatch turn =>
    match l.pending with
    | (reg, .conn ptr _) :: _ => (l.live ptr).map fun slot => ⟨slot.key, reg, turn.answers⟩
    | _ => none
  | _ => none

/-- The calls made for one connection: the answers each met, the session after it. -/
def calls (cfg : Config) (key : Nat) : Loop → List Action → List (Answers × Session)
  | _, [] => []
  | l, act :: acts =>
    match l.wakeup act, (l.next cfg act).proxy.entries key with
    | some w, some e =>
      if w.key = key then (w.answers, e.session) :: calls cfg key (l.next cfg act) acts
      else calls cfg key (l.next cfg act) acts
    | _, _ => calls cfg key (l.next cfg act) acts

/-- Nothing has happened to any connection; there may be new ones. -/
def Grown (l l' : Loop) : Prop := ∀ key, l'.proxy.entries key = l.proxy.entries key ∨
  l.proxy.entries key = none ∧ ∃ client, l'.proxy.entries key = some ⟨.start client key, true⟩

theorem Grown.refl (l : Loop) : Grown l l := fun _ => Or.inl rfl

theorem Grown.trans {l₁ l₂ l₃ : Loop} (first : Grown l₁ l₂) (second : Grown l₂ l₃) : Grown l₁ l₃ := by
  intro key
  rcases second key with same | ⟨unused, client, new⟩
  · rw [same]
    exact first key
  · rcases first key with before | ⟨-, client', before⟩
    · exact Or.inr ⟨before ▸ unused, client, new⟩
    · rw [before] at unused
      cases unused

/-- The cache is off, and every connection is in `live_` until it is done. -/
structure Keeps (l : Loop) : Prop where
  off : l.proxy.cache = none
  fresh : ∀ key e, l.proxy.entries key = some e → key < l.nextId
  live : ∀ key e, l.proxy.entries key = some e →
    (e.alive = true ∧ ∃ ptr slot, l.live ptr = some slot ∧ slot.key = key) ∨ e.session.conn.state = .done

variable {cfg : Config} {l : Loop} {ptr key : Nat} {slot : Slot} {s : Session}

/-- A new connection is entered if it can be armed. -/
theorem Keeps.enrol (h : Keeps l) {new : Bool} {how : Nat → Nat → Nat → Move} {n : Newcomer}
    (known : how = .accept ∨ how = .adopt) (admits : Admits new l n) (armed : n.armed = true) :
    Keeps (l.enrol cfg how n) ∧ Grown l (l.enrol cfg how n) := by
  have unused := unused_of_fresh h.fresh
  obtain ⟨events, moved⟩ : ∃ events, l.proxy.next cfg (how l.nextId n.client l.nextId) =
      l.proxy.update l.nextId ⟨.start n.client l.nextId, true⟩ l.proxy.cache events := by
    rcases known with rfl | rfl
    · exact ⟨[.opened n.client], by simp only [Proxy.next, unused]⟩
    · exact ⟨[], by simp only [Proxy.next, unused]⟩
  have result : l.enrol cfg how n = Loop.attach n.ptr l.nextId (.init n.client l.nextId) n.client
      { l with
        proxy := l.proxy.update l.nextId ⟨.start n.client l.nextId, true⟩ l.proxy.cache events
        nextId := l.nextId + 1 } := by
    rw [← moved]
    exact if_pos armed
  rw [result]
  refine ⟨⟨h.off, ?_, ?_⟩, ?_⟩
  · intro key e here
    rcases Proxy.entries_update.mp here with ⟨rfl, -⟩ | ⟨-, before⟩
    · exact Nat.lt_succ_self _
    · exact Nat.lt_succ_of_lt (h.fresh key e before)
  · intro key e here
    rcases Proxy.entries_update.mp here with ⟨rfl, rfl⟩ | ⟨-, before⟩
    · exact Or.inl ⟨rfl, n.ptr, _, Function.update_self _ _ _, rfl⟩
    · refine (h.live key e before).imp_left ?_
      rintro ⟨alive, ptr, slot, live, same⟩
      refine ⟨alive, ptr, slot, update_some_eq_some.mpr (Or.inr ⟨?_, live⟩), same⟩
      rintro rfl
      rw [admits.1] at live
      cases live
  · intro key
    by_cases same : key = l.nextId
    · subst same
      exact Or.inr ⟨unused, n.client, Proxy.update_self⟩
    · exact Or.inl (Proxy.update_other same)

theorem Keeps.enrol_all (h : Keeps l) {new : Bool} {how : Nat → Nat → Nat → Move} {ns : List Newcomer}
    (known : how = .accept ∨ how = .adopt) (legal : Legal (Admits new) (Loop.enrol cfg how) l ns)
    (armed : ∀ n ∈ ns, n.armed = true) :
    Keeps (run (Loop.enrol cfg how) l ns) ∧ Grown l (run (Loop.enrol cfg how) l ns) := by
  induction ns generalizing l with
  | nil => exact ⟨h, .refl l⟩
  | cons n ns ih =>
    obtain ⟨first, grown⟩ := h.enrol known legal.1 (armed n List.mem_cons_self)
    obtain ⟨rest, grown'⟩ := ih first legal.2 fun n mem => armed n (List.mem_cons_of_mem _ mem)
    exact ⟨rest, grown.trans grown'⟩

/-- The effect of a call on the table of connections and on `live_`. -/
structure Served (l l' : Loop) (ptr : Nat) (slot : Slot) (s' : Session) : Prop where
  cache : l'.proxy.cache = none
  nextId : l'.nextId = l.nextId
  entry : l'.proxy.entries slot.key = some ⟨s', !s'.conn.done⟩
  others : ∀ key, key ≠ slot.key → l'.proxy.entries key = l.proxy.entries key
  live : s'.conn.done = false → ∃ slot', l'.live ptr = some slot' ∧ slot'.key = slot.key
  elsewhere : ∀ ptr', ptr' ≠ ptr → l'.live ptr' = l.live ptr'

theorem service_served (h : Consistent cfg l) (off : l.proxy.cache = none) {turn : Turn} (armed : turn.armed = true)
    (live : l.live ptr = some slot) (here : l.proxy.entries slot.key = some ⟨s, true⟩) :
    Served l (l.service cfg ptr turn) ptr slot (s.call cfg ⟨turn.answers, none⟩) := by
  have step := onReady_step cfg turn.answers none s.conn
  have phase := (h.sound.phase _ s here).step step
  have moved : (l.proxy.next cfg (.ready slot.key turn.answers)) =
      l.proxy.update slot.key ⟨s.call cfg ⟨turn.answers, none⟩, true⟩ none
        (onReady cfg turn.answers ⟨s.conn, none, []⟩).trace := by
    simp only [Proxy.next, here, off, Session.call]
    rw [step.cacheUse.off]
  have call : (s.call cfg ⟨turn.answers, none⟩).conn = (onReady cfg turn.answers ⟨s.conn, none, []⟩).conn := rfl
  simp only [Loop.service, live, here, off]
  generalize onReady cfg turn.answers ⟨s.conn, none, []⟩ = x at phase moved call ⊢
  generalize s.call cfg ⟨turn.answers, none⟩ = s' at moved call ⊢
  have after : (l.move cfg (.ready slot.key turn.answers) x.trace).proxy.entries slot.key = some ⟨s', true⟩ := by
    simp only [move, moved, Proxy.update_self]
  -- a connection that goes on stays where it is
  have stays {l' : Loop} (proxy : l'.proxy = l.proxy.next cfg (.ready slot.key turn.answers))
      (nextId : l'.nextId = l.nextId) (unfinished : x.conn.done = false)
      (mine : ∃ slot', l'.live ptr = some slot' ∧ slot'.key = slot.key)
      (elsewhere : ∀ ptr', ptr' ≠ ptr → l'.live ptr' = l.live ptr') : Served l l' ptr slot s' := by
    rw [moved] at proxy
    refine ⟨by rw [proxy]; rfl, nextId, ?_, fun key ne => ?_, fun _ => mine, elsewhere⟩
    · rw [proxy, Proxy.update_self, call, unfinished]
      rfl
    · rw [proxy, Proxy.update_other ne]
  split
  · rename_i done
    have finished : Done s'.conn := by
      rw [call]
      exact phase.of_want (phase.agree.1.mpr (of_decide_eq_true done))
    rw [erase_eq, destroy_eq (l := (l.move cfg (.ready slot.key turn.answers) x.trace).detach ptr slot) after,
      done_destroy finished]
    refine ⟨?_, rfl, ?_, fun key ne => ?_, fun unfinished => ?_, fun ptr' ne => ?_⟩
    · simp only [Loop.detach, disarm, move, moved, Proxy.update]
    · rw [Proxy.update_self, call, done]
      rfl
    · rw [Proxy.update_other ne]
      simp only [Loop.detach, disarm, move, moved, Proxy.update_other ne]
    · rw [call, done] at unfinished
      cases unfinished
    · exact Function.update_of_ne ne _ _
  · rename_i unfinished
    have undone : x.conn.done = false := by simpa using unfinished
    obtain ⟨fd, waits, -⟩ := phase.waits (of_decide_eq_false undone)
    simp only [waits]
    split
    · exact stays rfl rfl undone ⟨_, Function.update_self _ _ _, rfl⟩ fun ptr' ne => Function.update_of_ne ne _ _
    · exact stays rfl rfl undone ⟨slot, live, rfl⟩ fun _ _ => rfl

theorem Keeps.served (h : Keeps l) {l' : Loop} {s' : Session} (here : l.proxy.entries slot.key = some ⟨s, true⟩)
    (live : l.live ptr = some slot) (served : Served l l' ptr slot s') : Keeps l' := by
  refine ⟨served.cache, fun key e there => ?_, fun key e there => ?_⟩
  · rw [served.nextId]
    by_cases same : key = slot.key
    · rw [same]
      exact h.fresh _ _ here
    · exact h.fresh key e ((served.others key same).symm.trans there)
  · by_cases same : key = slot.key
    · subst same
      obtain rfl := Option.some.inj (served.entry.symm.trans there)
      cases done : s'.conn.done with
      | true => exact Or.inr (of_decide_eq_true done)
      | false =>
        obtain ⟨slot', mine, key_eq⟩ := served.live done
        exact Or.inl ⟨rfl, ptr, slot', mine, key_eq⟩
    · refine (h.live key e ((served.others key same).symm.trans there)).imp_left ?_
      rintro ⟨alive, ptr', slot', there', key_eq⟩
      refine ⟨alive, ptr', slot', (served.elsewhere ptr' ?_).trans there', key_eq⟩
      rintro rfl
      obtain rfl := Option.some.inj (live.symm.trans there')
      exact same key_eq.symm

end Loop

/-- Every registration succeeds, and the loop is not stopped. -/
def Action.smooth : Action → Prop
  | .dispatch turn => turn.armed = true ∧ (∀ n ∈ Loop.newcomers turn.accepts, n.armed = true) ∧
      ∀ client, (turn.place client).2 = true
  | .stop => False
  | _ => True

namespace Loop
variable {cfg : Config} {l : Loop} {act : Action}

/-- What an action does: at most one call, of a connection whose wait is over. -/
inductive Acted (cfg : Config) (l : Loop) (act : Action) (l' : Loop) : Prop where
  | none (quiet : l.wakeup act = none) (grown : Grown l l')
  | call (w : Wakeup) (s : Session) (alive : Bool) (woken : l.wakeup act = some w)
      (here : l.proxy.entries w.key = some ⟨s, true⟩) (unfinished : s.conn.done = false)
      (fd : s.conn.wantFd = some w.reg.1) (write : s.conn.wantWrite = w.reg.2)
      (entry : l'.proxy.entries w.key = some ⟨s.call cfg ⟨w.answers, none⟩, alive⟩)
      (others : ∀ key, key ≠ w.key → l'.proxy.entries key = l.proxy.entries key)

theorem Keeps.next (h : Keeps l) (consistent : Consistent cfg l) (allowed : l.Allowed cfg act) (smooth : act.smooth) :
    Keeps (l.next cfg act) ∧ Acted cfg l act (l.next cfg act) := by
  cases act with
  | poll regs => exact ⟨⟨h.off, h.fresh, h.live⟩, .none rfl (.refl l)⟩
  | opens fd => exact ⟨⟨h.off, h.fresh, h.live⟩, .none rfl (.refl l)⟩
  | closes fd => exact ⟨⟨h.off, h.fresh, h.live⟩, .none rfl (.refl l)⟩
  | push fd => exact ⟨⟨h.off, h.fresh, h.live⟩, .none rfl (.refl l)⟩
  | stop => exact absurd smooth id
  | dispatch turn =>
    obtain ⟨armed, accepts, place⟩ := smooth
    cases pending : l.pending with
    | nil =>
      simp only [Loop.next, pending]
      exact ⟨h, .none (by simp only [wakeup, pending]) (.refl l)⟩
    | cons event rest =>
      obtain ⟨reg, udata⟩ := event
      simp only [Loop.next, Allowed, pending] at allowed ⊢
      have popped : Keeps { l with pending := rest } := ⟨h.off, h.fresh, h.live⟩
      cases udata with
      | listener =>
        have quiet : l.wakeup (.dispatch turn) = none := by simp only [wakeup, pending]
        simp only [handle]
        split
        · exact ⟨popped, .none quiet (.refl l)⟩
        · obtain ⟨keeps, grown⟩ := popped.enrol_all (Or.inl rfl) allowed accepts
          exact ⟨keeps, .none quiet grown⟩
      | inbox =>
        have quiet : l.wakeup (.dispatch turn) = none := by simp only [wakeup, pending]
        simp only [handle]
        split
        · exact ⟨popped, .none quiet (.refl l)⟩
        · have drained : Keeps { l with pending := rest, queue := [] } := ⟨h.off, h.fresh, h.live⟩
          obtain ⟨keeps, grown⟩ := drained.enrol_all (Or.inr rfl) allowed fun n mem => by
            obtain ⟨client, -, rfl⟩ := List.mem_map.mp mem
            exact place client
          exact ⟨keeps, .none quiet grown⟩
      | conn ptr key =>
        obtain ⟨sound, entry, handled⟩ := consistent.popped pending
        obtain ⟨slot, live, -, rfl⟩ := consistent.entries reg ptr key entry
        obtain ⟨s, here, want, write, -⟩ := consistent.slots ptr slot live
        have unfinished : s.conn.done = false :=
          decide_eq_false ((consistent.sound.phase _ s here).unfinished want)
        have served := service_served sound h.off armed live here
        refine ⟨popped.served here live served, .call ⟨slot.key, slot.reg, turn.answers⟩ s _ ?_ here unfinished
          want write served.entry served.others⟩
        simp only [wakeup, pending, live, Option.map_some]

/-! ## Whole runs -/

/-- From a state in which the connection is there, its calls are those of the driver. -/
theorem calls_serve {key : Nat} {acts : List Action} (consistent : Consistent cfg l) (keeps : Keeps l)
    (legal : Legal (Allowed cfg) (Loop.next cfg) l acts) (smooth : ∀ act ∈ acts, act.smooth) {e : Entry}
    (here : l.proxy.entries key = some e) :
    (calls cfg key l acts).map Prod.snd = serve cfg e.session ((calls cfg key l acts).map Prod.fst) := by
  induction acts generalizing l e with
  | nil => rfl
  | cons act acts ih =>
    obtain ⟨allowed, legal⟩ := legal
    obtain ⟨keeps', acted⟩ := keeps.next consistent allowed (smooth act List.mem_cons_self)
    have later {e' : Entry} (there : (l.next cfg act).proxy.entries key = some e') :=
      ih (consistent.next allowed) keeps' legal (fun act mem => smooth act (List.mem_cons_of_mem _ mem)) there
    cases acted with
    | none quiet grown =>
      rcases grown key with same | ⟨absent, -⟩
      · simp only [calls, quiet]
        exact later (same.trans here)
      · rw [here] at absent
        cases absent
    | call w s alive woken here' unfinished fd write entry others =>
      by_cases mine : w.key = key
      · subst mine
        obtain rfl := Option.some.inj (here'.symm.trans here)
        simp only [calls, woken, entry, if_true, List.map_cons, serve, unfinished, fd, Bool.false_eq_true, if_false]
        exact congrArg _ (later entry)
      · have same := (others key (Ne.symm mine)).trans here
        simp only [calls, woken, same, mine, if_false]
        exact later same

/-- From the start, too: the first call finds the connection as it was constructed. -/
theorem calls_serve_new (key : Nat) {acts : List Action} (consistent : Consistent cfg l) (keeps : Keeps l)
    (legal : Legal (Allowed cfg) (Loop.next cfg) l acts) (smooth : ∀ act ∈ acts, act.smooth)
    (absent : l.proxy.entries key = none) :
    ∃ client, (calls cfg key l acts).map Prod.snd =
      serve cfg (.start client key) ((calls cfg key l acts).map Prod.fst) := by
  induction acts generalizing l with
  | nil => exact ⟨0, rfl⟩
  | cons act acts ih =>
    obtain ⟨allowed, legal⟩ := legal
    obtain ⟨keeps', acted⟩ := keeps.next consistent allowed (smooth act List.mem_cons_self)
    have later := fun act mem => smooth act (List.mem_cons_of_mem _ mem)
    have still (same : (l.next cfg act).proxy.entries key = l.proxy.entries key) :
        ∃ client, (calls cfg key l (act :: acts)).map Prod.snd =
          serve cfg (.start client key) ((calls cfg key l (act :: acts)).map Prod.fst) := by
      rw [absent] at same
      have skip : calls cfg key l (act :: acts) = calls cfg key (l.next cfg act) acts := by
        simp only [calls, same]
        cases l.wakeup act <;> rfl
      rw [skip]
      exact ih (consistent.next allowed) keeps' legal later same
    cases acted with
    | none quiet grown =>
      rcases grown key with same | ⟨-, client, new⟩
      · exact still same
      · simp only [calls, quiet]
        exact ⟨client, calls_serve (consistent.next allowed) keeps' legal later new⟩
    | call w s alive woken here unfinished fd write entry others =>
      refine still (others key ?_)
      rintro rfl
      rw [here] at absent
      cases absent

theorem keeps_start (off : cfg.cacheEnabled = false) (opened : Finset Nat) (entrance : Nat) (sharded : Bool) :
    Keeps (start cfg opened entrance sharded) where
  off := by simp [start, Proxy.start, off]
  fresh := fun _ _ none_yet => absurd none_yet nofun
  live := fun _ _ none_yet => absurd none_yet nofun

theorem keeps_run {acts : List Action} (consistent : Consistent cfg l) (keeps : Keeps l)
    (legal : Legal (Allowed cfg) (Loop.next cfg) l acts) (smooth : ∀ act ∈ acts, act.smooth) :
    Consistent cfg (run (Loop.next cfg) l acts) ∧ Keeps (run (Loop.next cfg) l acts) := by
  induction acts generalizing l with
  | nil => exact ⟨consistent, keeps⟩
  | cons act acts ih =>
    exact ih (consistent.next legal.1) (keeps.next consistent legal.1 (smooth act List.mem_cons_self)).1 legal.2
      fun act mem => smooth act (List.mem_cons_of_mem _ mem)

/-- A call is made only when the wait of its connection is over. -/
theorem Consistent.woken (consistent : Consistent cfg l) {w : Wakeup} (woken : l.wakeup act = some w) :
    ∃ s, l.proxy.entries w.key = some ⟨s, true⟩ ∧ s.conn.done = false ∧ s.conn.wantFd = some w.reg.1 ∧
      s.conn.wantWrite = w.reg.2 := by
  cases act with
  | dispatch turn =>
    simp only [wakeup] at woken
    split at woken
    · rename_i reg ptr key rest pending
      obtain ⟨slot, live, rfl⟩ := Option.map_eq_some_iff.mp woken
      obtain ⟨-, entry, -⟩ := consistent.popped pending
      obtain ⟨slot', live', -, rfl⟩ := consistent.entries reg ptr key entry
      obtain rfl := Option.some.inj (live.symm.trans live')
      obtain ⟨s, here, want, write, -⟩ := consistent.slots ptr slot live
      exact ⟨s, here, decide_eq_false ((consistent.sound.phase _ s here).unfinished want), want, write⟩
    · cases woken
  | _ => cases woken

/-- A connection is in `live_` exactly until it is done. -/
theorem Keeps.live_iff (keeps : Keeps l) (consistent : Consistent cfg l) {key : Nat} {e : Entry}
    (here : l.proxy.entries key = some e) :
    e.session.conn.done = false ↔ ∃ ptr slot, l.live ptr = some slot ∧ slot.key = key := by
  constructor
  · intro unfinished
    rcases keeps.live key e here with ⟨-, live⟩ | done
    · exact live
    · exact absurd done (of_decide_eq_false unfinished)
  · rintro ⟨ptr, slot, live, rfl⟩
    obtain ⟨s, there, want, -⟩ := consistent.slots ptr slot live
    obtain rfl := Option.some.inj (there.symm.trans here)
    exact decide_eq_false ((consistent.sound.phase _ s there).unfinished want)

end Loop

/-- **Refinement of the blocking driver.** With the cache off, registrations that
succeed, and before shutdown: whatever the other connections do, a connection
shows the same states and bytes, call by call, as under the driver on its own,
which meets the same outcomes but may be given other descriptor numbers; each
call answers the wait of that connection; and a connection is watched exactly
until it is done. -/
theorem loop_refines_driver (cfg : Config) (off : cfg.cacheEnabled = false) (opened : Finset Nat) (entrance : Nat)
    (sharded : Bool) (open_ : entrance ∈ opened) (acts : List Action)
    (legal : Legal (Loop.Allowed cfg) (Loop.next cfg) (.start cfg opened entrance sharded) acts)
    (smooth : ∀ act ∈ acts, act.smooth) (key : Nat) :
    let start := Loop.start cfg opened entrance sharded
    let calls := start.calls cfg key acts
    let final := run (Loop.next cfg) start acts
    (∀ client answers, answers.map Answers.blur = calls.map (fun call => call.1.blur) →
      calls.map (fun call => call.2.seen) = (serve cfg (.start client key) answers).map Session.seen) ∧
    (∀ act w, final.wakeup act = some w → ∃ s, final.proxy.entries w.key = some ⟨s, true⟩ ∧
      s.conn.done = false ∧ s.conn.wantFd = some w.reg.1 ∧ s.conn.wantWrite = w.reg.2) ∧
    ∀ e, final.proxy.entries key = some e →
      (e.session.conn.done = false ↔ ∃ ptr slot, final.live ptr = some slot ∧ slot.key = key) := by
  intro start calls final
  have consistent₀ : start.Consistent cfg := Loop.consistent_start cfg opened entrance sharded open_
  have keeps₀ : start.Keeps := Loop.keeps_start off opened entrance sharded
  obtain ⟨consistent, keeps⟩ := Loop.keeps_run consistent₀ keeps₀ legal smooth
  refine ⟨fun client answers same => ?_, fun act w woken => consistent.woken woken,
    fun e here => keeps.live_iff consistent here⟩
  obtain ⟨client₀, driven⟩ := Loop.calls_serve_new key consistent₀ keeps₀ legal smooth rfl
  have blurred : (calls.map Prod.fst).map Answers.blur = answers.map Answers.blur := by
    rw [same, List.map_map]
    rfl
  rw [← serve_seen cfg client₀ client key blurred, ← driven, List.map_map]
  rfl

/-- The connection of `reuseActions` on its own, where its second socket has a number of its own. -/
def reuseAlone : List Answers :=
  [{ recv := .bytes (bytes "GET http://h/ HTTP/1.1\r\n\r\n")
     start := .hit [⟨[], 0, 0, 0⟩, ⟨[], 1, 0, 0⟩]
     dial := fun _ => .inProgress 7 },
   { dial := fun _ => .inProgress 8 }]

theorem loop_refines_driver_reuse :
    ((Loop.start { cacheEnabled := false } {3} 3 false).calls { cacheEnabled := false } 0 reuseActions).map
        (fun call => call.2.seen) =
      (serve { cacheEnabled := false } (.start 9 0) reuseAlone).map Session.seen := by
  refine (loop_refines_driver { cacheEnabled := false } rfl {3} 3 false (by decide) reuseActions ?_ ?_ 0).1
    9 reuseAlone rfl
  · refine ⟨⟨rfl, by decide⟩, ⟨⟨rfl, fun _ => by decide⟩, trivial⟩, ⟨rfl, by decide⟩, ?_, ⟨rfl, by decide⟩, ?_, trivial⟩
    · rintro slot ⟨⟩ s ⟨⟩
      decide
    · rintro slot ⟨⟩ s ⟨⟩
      decide
  · simp [reuseActions, Action.smooth, Loop.newcomers]

end EvProxy
