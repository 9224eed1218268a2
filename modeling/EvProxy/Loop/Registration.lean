import EvProxy.Proxy.Coherence
import EvProxy.Loop.State

/-!
# One registration for each connection

Between any two steps of the loop, every live connection has exactly one kqueue
entry, for the descriptor and direction it waits on, and no entry points to a
connection that is gone. Descriptor numbers and addresses may be reused at once.

The proof looks at every branch of `service` as the same three moves: take the
connection off the table and the kqueue, let it act, put it back or destroy it
(`Consistent.detach`, `Consistent.acted`, `Consistent.attach`).
-/

namespace EvProxy
open Runs Ledger

section Tables
variable {α β : Type*} [DecidableEq α] {f : α → Option β} {a x : α} {b y : β}

theorem update_none_eq_some : Function.update f a none x = some y ↔ x ≠ a ∧ f x = some y := by
  by_cases same : x = a <;> simp [same]

theorem update_some_eq_some :
    Function.update f a (some b) x = some y ↔ x = a ∧ b = y ∨ x ≠ a ∧ f x = some y := by
  by_cases same : x = a <;> simp [same]

end Tables

section Epochs
variable {cfg : Config} {c c' : Connection} {cache cache' : Option LruCache} {events : List Event}

/-- A connection keeps its epoch only if it goes on waiting for the same thing:
no descriptor has been opened, closed or handed over. -/
theorem Step.same_epoch (step : Step cfg c cache events c' cache') (same : c'.epoch = c.epoch) :
    c'.want = c.want ∧ c'.fds = c.fds ∧ ops events = [] := by
  have bumped : c.epoch + 1 ≠ c.epoch := by grind
  have dialled {c₀ c₁ : Connection} {e : List Event} (dial : Connect c₀ e c₁) : c₁.epoch = c₀.epoch + 1 := by
    cases dial <;> rfl
  cases step with
  | idle => exact ⟨rfl, rfl, rfl⟩
  | incomplete => exact ⟨rfl, rfl, rfl⟩
  | awaiting => exact ⟨rfl, rfl, rfl⟩
  | sendPart => exact ⟨rfl, rfl, rfl⟩
  | writePart => exact ⟨rfl, rfl, rfl⟩
  | forward data key req want got ready enough lookup resolve =>
    cases resolve with
    | failed => exact absurd same bumped
    | pipeFailed => exact absurd same bumped
    | pending => exact absurd same bumped
    | connect endpoints dial => exact absurd ((dialled dial).symm.trans same) bumped
  | resolved lastRef endpoints want job dial => exact absurd ((dialled dial).symm.trans same) bumped
  | refused want state dial => exact absurd ((dialled dial).symm.trans same) bumped
  | recv data =>
    obtain ⟨accum, tooBig, shape⟩ := c.received_eq cfg data
    rw [shape] at same
    exact absurd same bumped
  | _ => exact absurd same bumped

theorem wantFd_congr (want : c'.want = c.want) (fds : c'.fds = c.fds) : c'.wantFd = c.wantFd := by
  have client : c'.client = c.client := congrArg Fds.client fds
  have upstream : c'.upstream = c.upstream := congrArg Fds.upstream fds
  have job : c'.resolveJob.map ResolveJob.readEnd = c.resolveJob.map ResolveJob.readEnd := congrArg Fds.job fds
  rw [Connection.wantFd, Connection.wantFd, want, client, upstream, job]

theorem wantWrite_congr (want : c'.want = c.want) : c'.wantWrite = c.wantWrite := by
  rw [Connection.wantWrite, Connection.wantWrite, want]

/-- A connection that waits on something is not done. -/
theorem Phase.unfinished (phase : Phase cfg c) {fd : Nat} (want : c.wantFd = some fd) : c.state ≠ .done := by
  intro done
  rw [Connection.wantFd, phase.agree.1.mpr done] at want
  cases want

/-- What a connection waits on is its own. -/
theorem Phase.owns (phase : Phase cfg c) {fd : Nat} (want : c.wantFd = some fd) : fd ∈ c.fds.owned := by
  obtain ⟨fd', waits, own⟩ := phase.waits (phase.unfinished want)
  rwa [← Option.some.inj (waits.symm.trans want)]

end Epochs

/-- Open, and held by some other part of the process. -/
def Proxy.Foreign (p : Proxy) (fd : Nat) : Prop :=
  fd ∈ p.opened ∧ ∀ key s, p.entries key = some ⟨s, true⟩ → fd ∉ s.conn.fds.owned

namespace Loop

/-- The connection in the slot is alive and registered for what it waits on. -/
def Watched (l : Loop) (ptr : Nat) (slot : Slot) : Prop :=
  ∃ s, l.proxy.entries slot.key = some ⟨s, true⟩ ∧ s.conn.wantFd = some slot.fd ∧ s.conn.wantWrite = slot.write ∧
    s.conn.epoch = slot.epoch ∧ l.kq slot.reg = some (.conn ptr slot.key)

/-- The invariant of the loop. -/
structure Consistent (cfg : Config) (l : Loop) : Prop where
  sound : l.proxy.Sound cfg
  fresh : ∀ key e, l.proxy.entries key = some e → key < l.nextId
  slots : ∀ ptr slot, l.live ptr = some slot → l.Watched ptr slot
  apart : ∀ ptr ptr' slot slot', l.live ptr = some slot → l.live ptr' = some slot' → slot.key = slot'.key → ptr = ptr'
  entries : ∀ reg ptr key, l.kq reg = some (.conn ptr key) →
    ∃ slot, l.live ptr = some slot ∧ slot.key = key ∧ slot.reg = reg
  gate : ∀ reg udata, l.kq reg = some udata → (udata = .listener ∨ udata = .inbox) →
    l.stopping = false ∧ reg = (l.entrance, false)
  entrance : l.stopping = false → l.proxy.Foreign l.entrance ∧ l.entrance ∉ l.queue
  queue : l.queue.Nodup ∧ ∀ fd ∈ l.queue, l.proxy.Foreign fd
  batch : (l.pending.map Prod.fst).Nodup ∧ ∀ e ∈ l.pending, l.kq e.1 = some e.2

/-- The connection is in no slot. -/
def Loose (l : Loop) (key : Nat) : Prop := ∀ ptr slot, l.live ptr = some slot → slot.key ≠ key

variable {cfg : Config} {l : Loop} {ptr key : Nat} {slot : Slot} {s : Session}

/-- Every entry of the kqueue is for a descriptor that is open and held: by the
connection of the entry, or by the rest of the process. -/
theorem Consistent.held (h : Consistent cfg l) {reg : Reg} {udata : Udata} (entry : l.kq reg = some udata) :
    (∃ ptr slot s, udata = .conn ptr slot.key ∧ l.live ptr = some slot ∧ slot.reg = reg ∧
      l.proxy.entries slot.key = some ⟨s, true⟩ ∧ reg.1 ∈ s.conn.fds.owned) ∨ l.proxy.Foreign reg.1 := by
  cases udata with
  | listener =>
    obtain ⟨running, rfl⟩ := h.gate reg _ entry (Or.inl rfl)
    exact Or.inr (h.entrance running).1
  | inbox =>
    obtain ⟨running, rfl⟩ := h.gate reg _ entry (Or.inr rfl)
    exact Or.inr (h.entrance running).1
  | conn ptr key =>
    obtain ⟨slot, live, rfl, rfl⟩ := h.entries reg ptr key entry
    obtain ⟨s, here, want, -⟩ := h.slots ptr slot live
    exact Or.inl ⟨ptr, slot, s, rfl, live, rfl, here, (h.sound.phase _ s here).owns want⟩

/-- A descriptor of a loose connection has no entry. -/
theorem Consistent.unregistered (h : Consistent cfg l) (loose : l.Loose key)
    (here : l.proxy.entries key = some ⟨s, true⟩) {reg : Reg} (own : reg.1 ∈ s.conn.fds.owned) : l.kq reg = none := by
  cases entry : l.kq reg with
  | none => rfl
  | some udata =>
    rcases h.held entry with ⟨ptr, slot, s', -, live, -, there, other⟩ | ⟨-, foreign⟩
    · have apart := h.sound.apart _ _ s' s (loose ptr slot live) there here
      exact absurd own (Finset.disjoint_left.mp apart other)
    · exact absurd own (foreign key s here)

/-! ## Off the table, act, back on the table -/

/-- Without the slot and its entry. -/
def detach (ptr : Nat) (slot : Slot) (l : Loop) : Loop :=
  { l.disarm slot.reg with live := Function.update l.live ptr none }

theorem Consistent.detach (h : Consistent cfg l) (live : l.live ptr = some slot)
    (handled : slot.reg ∉ l.pending.map Prod.fst) :
    Consistent cfg (l.detach ptr slot) ∧ (l.detach ptr slot).Loose slot.key := by
  obtain ⟨-, -, -, -, -, mine⟩ := h.slots ptr slot live
  refine ⟨⟨h.sound, h.fresh, ?_, ?_, ?_, ?_, h.entrance, h.queue, h.batch.1, ?_⟩, ?_⟩
  · intro ptr' slot' live'
    obtain ⟨ne, there⟩ := update_none_eq_some.mp live'
    obtain ⟨s, here, fd, write, epoch, entry⟩ := h.slots ptr' slot' there
    refine ⟨s, here, fd, write, epoch, update_none_eq_some.mpr ⟨fun same => ?_, entry⟩⟩
    rw [same, mine] at entry
    exact ne (Udata.conn.inj (Option.some.inj entry)).1.symm
  · intro ptr₁ ptr₂ slot₁ slot₂ live₁ live₂
    exact h.apart _ _ _ _ (update_none_eq_some.mp live₁).2 (update_none_eq_some.mp live₂).2
  · intro reg ptr' key' entry
    obtain ⟨ne, entry⟩ := update_none_eq_some.mp entry
    obtain ⟨slot', there, same, at_reg⟩ := h.entries reg ptr' key' entry
    refine ⟨slot', update_none_eq_some.mpr ⟨?_, there⟩, same, at_reg⟩
    rintro rfl
    obtain rfl := Option.some.inj (there.symm.trans live)
    exact ne at_reg.symm
  · intro reg udata entry
    exact h.gate reg udata (update_none_eq_some.mp entry).2
  · intro e mem
    refine update_none_eq_some.mpr ⟨fun same => handled ?_, h.batch.2 e mem⟩
    rw [← same]
    exact List.mem_map_of_mem mem
  · intro ptr' slot' live' same
    obtain ⟨ne, there⟩ := update_none_eq_some.mp live'
    exact ne (h.apart _ _ _ _ there live same)

theorem close_eq_some {kq : Kqueue} {events : List Event} {reg : Reg} {udata : Udata} :
    kq.close events reg = some udata ↔ .closed reg.1 ∉ events ∧ kq reg = some udata := by
  by_cases closed : Event.closed reg.1 ∈ events <;> simp [Kqueue.close, closed]

/-- What a loose connection does to its own descriptors leaves the rest as it was. -/
theorem Consistent.acted (h : Consistent cfg l) (loose : l.Loose key) (here : l.proxy.entries key = some ⟨s, true⟩)
    {events : List Event} {e : Entry} {cache' : Option LruCache}
    (orderly : Orderly s.conn.fds events e.session.conn.fds) (fresh : Fresh l.proxy.opened (ops events))
    (sound : (l.proxy.update key e cache' events).Sound cfg) :
    Consistent cfg { l with proxy := l.proxy.update key e cache' events, kq := l.kq.close events } := by
  have foreign {fd : Nat} (held : l.proxy.Foreign fd) :
      .closed fd ∉ events ∧ (l.proxy.update key e cache' events).Foreign fd := by
    obtain ⟨open_, not_mine, unclosed⟩ := h.sound.spared here orderly fresh held.1 (held.2 key s here)
    refine ⟨unclosed, open_, fun key' s' there => ?_⟩
    rcases Proxy.entries_update.mp there with ⟨-, rfl⟩ | ⟨-, before⟩
    · exact not_mine
    · exact held.2 key' s' before
  have kept {reg : Reg} {udata : Udata} (entry : l.kq reg = some udata) : l.kq.close events reg = some udata := by
    refine close_eq_some.mpr ⟨?_, entry⟩
    rcases h.held entry with ⟨ptr, slot, s', -, live, -, there, own⟩ | held
    · have apart := h.sound.apart _ _ s' s (loose ptr slot live) there here
      exact (h.sound.spared here orderly fresh (h.sound.opened _ s' there own)
        (Finset.disjoint_left.mp apart own)).2.2
    · exact (foreign held).1
  refine ⟨sound, ?_, ?_, h.apart, ?_, ?_, ?_, ⟨h.queue.1, ?_⟩, h.batch.1, ?_⟩
  · intro key' e' there
    rcases Proxy.entries_update.mp there with ⟨rfl, -⟩ | ⟨-, before⟩
    · exact h.fresh _ _ here
    · exact h.fresh key' e' before
  · intro ptr slot live
    obtain ⟨s', there, fd, write, epoch, entry⟩ := h.slots ptr slot live
    exact ⟨s', (Proxy.update_other (loose ptr slot live)).trans there, fd, write, epoch, kept entry⟩
  · intro reg ptr key' entry
    exact h.entries reg ptr key' (close_eq_some.mp entry).2
  · intro reg udata entry
    exact h.gate reg udata (close_eq_some.mp entry).2
  · intro running
    exact ⟨(foreign (h.entrance running).1).2, (h.entrance running).2⟩
  · intro fd mem
    exact (foreign (h.queue.2 fd mem)).2
  · intro pending mem
    exact kept (h.batch.2 pending mem)

theorem Consistent.attach (h : Consistent cfg l) (loose : l.Loose key) (here : l.proxy.entries key = some ⟨s, true⟩)
    (unused : l.live ptr = none) {fd : Nat} (want : s.conn.wantFd = some fd) :
    Consistent cfg (l.attach ptr key s.conn fd) := by
  have vacant : l.kq (fd, s.conn.wantWrite) = none :=
    h.unregistered loose here ((h.sound.phase key s here).owns want)
  have kept {reg : Reg} {udata : Udata} (entry : l.kq reg = some udata) :
      (l.attach ptr key s.conn fd).kq reg = some udata := by
    refine update_some_eq_some.mpr (Or.inr ⟨?_, entry⟩)
    rintro rfl
    rw [vacant] at entry
    cases entry
  refine ⟨h.sound, h.fresh, ?_, ?_, ?_, ?_, h.entrance, h.queue, h.batch.1, fun e mem => kept (h.batch.2 e mem)⟩
  · intro ptr' slot live
    rcases update_some_eq_some.mp live with ⟨rfl, rfl⟩ | ⟨-, before⟩
    · exact ⟨s, here, want, rfl, rfl, Function.update_self _ _ _⟩
    · obtain ⟨s', there, fd', write, epoch, entry⟩ := h.slots ptr' slot before
      exact ⟨s', there, fd', write, epoch, kept entry⟩
  · intro ptr₁ ptr₂ slot₁ slot₂ live₁ live₂ same
    rcases update_some_eq_some.mp live₁ with ⟨rfl, rfl⟩ | ⟨-, before₁⟩
    · rcases update_some_eq_some.mp live₂ with ⟨rfl, -⟩ | ⟨-, before₂⟩
      · rfl
      · exact absurd same.symm (loose ptr₂ slot₂ before₂)
    · rcases update_some_eq_some.mp live₂ with ⟨rfl, rfl⟩ | ⟨-, before₂⟩
      · exact absurd same (loose ptr₁ slot₁ before₁)
      · exact h.apart _ _ _ _ before₁ before₂ same
  · intro reg ptr' key' entry
    rcases update_some_eq_some.mp entry with ⟨rfl, same⟩ | ⟨-, before⟩
    · cases same
      exact ⟨_, Function.update_self _ _ _, rfl, rfl⟩
    · obtain ⟨slot, live, same, at_reg⟩ := h.entries reg ptr' key' before
      refine ⟨slot, update_some_eq_some.mpr (Or.inr ⟨?_, live⟩), same, at_reg⟩
      rintro rfl
      rw [unused] at live
      cases live
  · intro reg udata entry kind
    rcases update_some_eq_some.mp entry with ⟨-, rfl⟩ | ⟨-, before⟩
    · rcases kind with kind | kind <;> cases kind
    · exact h.gate reg udata before kind

theorem destroy_eq (here : l.proxy.entries key = some ⟨s, true⟩) (lastRef : Bool) :
    l.destroy cfg key lastRef =
      { l with
        proxy := l.proxy.update key ⟨s.destroy lastRef, false⟩ l.proxy.cache (s.conn.finishEvents lastRef)
        kq := l.kq.close (s.conn.finishEvents lastRef) } := by
  simp only [destroy, here, move, Proxy.next]

theorem Consistent.destroy (h : Consistent cfg l) (loose : l.Loose key) (lastRef : Bool) :
    Consistent cfg (l.destroy cfg key lastRef) := by
  unfold Loop.destroy
  split
  · rename_i s here
    have moved : Proxy.Moved cfg l.proxy (.destroy key lastRef) _ := .destroyed key lastRef s here
    have acted := h.acted loose here (finishEvents_orderly s.conn lastRef)
      (Proxy.fresh_finishEvents _ _ _) (h.sound.moved (m := .destroy key lastRef) trivial moved)
    simp only [move, Proxy.next, here]
    exact acted
  · exact h

/-- The connection takes part in `on_ready()` while it is off the table. -/
theorem Consistent.ready (h : Consistent cfg l) (loose : l.Loose key) (here : l.proxy.entries key = some ⟨s, true⟩)
    {a : Answers} (allowed : l.proxy.Allowed cfg (.ready key a)) :
    Consistent cfg (l.move cfg (.ready key a) (onReady cfg a ⟨s.conn, l.proxy.cache, []⟩).trace) := by
  have step := onReady_step cfg a l.proxy.cache s.conn
  have moved := Proxy.next_moved cfg l.proxy (.ready key a)
  have sound := h.sound.moved allowed moved
  simp only [move, Proxy.next, here] at sound ⊢
  exact h.acted loose here (step.orderly (h.sound.phase key s here)) (allowed s here) sound

/-- Closing and taking out one entry commute. -/
theorem close_update_none (kq : Kqueue) (events : List Event) (reg : Reg) :
    Kqueue.close (Function.update kq reg none) events = Function.update (kq.close events) reg none := by
  funext reg'
  by_cases same : reg' = reg
  · simp [Kqueue.close, same]
  · simp [Kqueue.close, same]

/-- In `service` the connection acts first and is disarmed afterwards. -/
theorem move_detach (m : Move) (events : List Event) :
    (l.detach ptr slot).move cfg m events = (l.move cfg m events).detach ptr slot := by
  simp only [Loop.detach, disarm, move, close_update_none]

theorem erase_eq (lastRef : Bool) :
    (l.disarm slot.reg).erase cfg ptr slot lastRef = (l.detach ptr slot).destroy cfg slot.key lastRef := rfl

theorem attach_detach (c : Connection) (fd : Nat) :
    (l.detach ptr slot).attach ptr key c fd = (l.disarm slot.reg).attach ptr key c fd := by
  simp [Loop.attach, Loop.detach, disarm, arm]

/-- A step that keeps the epoch puts the connection back into the same slot, with the same entry. -/
theorem restored {c c' : Connection} {cache cache' : Option LruCache} {events : List Event} {m : Move} {fd : Nat}
    (live : l.live ptr = some slot) (entry : l.kq slot.reg = some (.conn ptr slot.key))
    (step : Step cfg c cache events c' cache') (same : c'.epoch = c.epoch) (want : c.wantFd = some slot.fd)
    (write : c.wantWrite = slot.write) (epoch : c.epoch = slot.epoch) (waits : c'.wantFd = some fd) :
    ((l.move cfg m events).detach ptr slot).attach ptr slot.key c' fd = l.move cfg m events := by
  obtain ⟨same_want, same_fds, no_ops⟩ := step.same_epoch same
  have closed : l.kq.close events = l.kq := by
    funext reg
    refine if_neg fun mem => ?_
    have : Op.free reg.1 ∈ ops events := List.mem_filterMap.mpr ⟨_, mem, rfl⟩
    rw [no_ops] at this
    cases this
  have same_fd : fd = slot.fd := Option.some.inj (waits.symm.trans ((wantFd_congr same_want same_fds).trans want))
  have same_write : c'.wantWrite = slot.write := (wantWrite_congr same_want).trans write
  have slot_eq : Slot.mk slot.key fd c'.wantWrite c'.epoch = slot := by rw [same_fd, same_write, same, epoch]
  have reg_eq : (fd, c'.wantWrite) = slot.reg := by rw [same_fd, same_write]; rfl
  simp only [Loop.attach, Loop.detach, disarm, arm, move, closed, slot_eq, reg_eq, Function.update_idem]
  rw [← entry, ← live, Function.update_eq_self, Function.update_eq_self]

/-- **`service` keeps the invariant.** -/
theorem Consistent.service (h : Consistent cfg l) {turn : Turn} (live : l.live ptr = some slot)
    (handled : slot.reg ∉ l.pending.map Prod.fst) (allowed : l.proxy.Allowed cfg (.ready slot.key turn.answers)) :
    Consistent cfg (l.service cfg ptr turn) := by
  obtain ⟨s, here, want, write, epoch, entry⟩ := h.slots ptr slot live
  obtain ⟨off, loose⟩ := h.detach live handled
  simp only [Loop.service, live, here]
  have step := onReady_step cfg turn.answers l.proxy.cache s.conn
  have ready : Consistent cfg ((l.move cfg (.ready slot.key turn.answers)
      (onReady cfg turn.answers ⟨s.conn, l.proxy.cache, []⟩).trace).detach ptr slot) := by
    rw [← move_detach]
    exact off.ready loose here allowed
  have after : (l.move cfg (.ready slot.key turn.answers)
      (onReady cfg turn.answers ⟨s.conn, l.proxy.cache, []⟩).trace).proxy.entries slot.key =
      some ⟨⟨(onReady cfg turn.answers ⟨s.conn, l.proxy.cache, []⟩).conn,
        s.trace ++ (onReady cfg turn.answers ⟨s.conn, l.proxy.cache, []⟩).trace⟩, true⟩ := by
    simp only [move, Proxy.next, here, Proxy.update_self]
  generalize onReady cfg turn.answers ⟨s.conn, l.proxy.cache, []⟩ = x at step ready after ⊢
  split
  · exact ready.destroy loose turn.lastRef
  · split
    · exact ready.destroy loose turn.lastRef
    · rename_i fd waits
      have back := ready.attach loose after (Function.update_self _ _ _) waits
      split
      · split
        · rw [← attach_detach]
          exact back
        · exact ready.destroy loose turn.lastRef
      · rename_i same
        have same_epoch : x.conn.epoch = s.conn.epoch := (not_not.mp same).trans epoch.symm
        rwa [restored live entry step same_epoch want write epoch waits] at back

/-! ## New connections -/

theorem unused_of_fresh (fresh : ∀ key e, l.proxy.entries key = some e → key < l.nextId) :
    l.proxy.entries l.nextId = none := by
  cases entry : l.proxy.entries l.nextId with
  | none => rfl
  | some e => exact absurd (fresh _ _ entry) (Nat.lt_irrefl _)

theorem Consistent.unused (h : Consistent cfg l) : l.proxy.entries l.nextId = none := unused_of_fresh h.fresh

theorem Consistent.loose (h : Consistent cfg l) : l.Loose l.nextId := by
  intro ptr slot live same
  obtain ⟨s, here, -⟩ := h.slots ptr slot live
  rw [same, h.unused] at here
  cases here

/-- A new connection, not yet in a slot. -/
theorem Consistent.started (h : Consistent cfg l) {client : Nat} {events : List Event}
    (sound : (l.proxy.update l.nextId { session := .start client l.nextId } l.proxy.cache events).Sound cfg)
    (grown : l.proxy.opened ⊆ run track l.proxy.opened (ops events))
    (entrance : l.stopping = false → l.entrance ≠ client) (queue : client ∉ l.queue) :
    Consistent cfg { l with
      proxy := l.proxy.update l.nextId { session := .start client l.nextId } l.proxy.cache events
      nextId := l.nextId + 1 } := by
  have foreign {fd : Nat} (held : l.proxy.Foreign fd) (ne : fd ≠ client) :
      (l.proxy.update l.nextId { session := .start client l.nextId } l.proxy.cache events).Foreign fd := by
    refine ⟨grown held.1, fun key s there => ?_⟩
    rcases Proxy.entries_update.mp there with ⟨-, same⟩ | ⟨-, before⟩
    · cases same
      exact fun own => ne (Proxy.owned_start.mp own)
    · exact held.2 key s before
  refine ⟨sound, ?_, ?_, h.apart, h.entries, h.gate, ?_, ⟨h.queue.1, ?_⟩, h.batch⟩
  · intro key e there
    rcases Proxy.entries_update.mp there with ⟨rfl, -⟩ | ⟨-, before⟩
    · exact Nat.lt_succ_self _
    · exact Nat.lt_succ_of_lt (h.fresh key e before)
  · intro ptr slot live
    obtain ⟨s, here, rest⟩ := h.slots ptr slot live
    exact ⟨s, (Proxy.update_other (h.loose ptr slot live)).trans here, rest⟩
  · intro running
    exact ⟨foreign (h.entrance running).1 (entrance running), (h.entrance running).2⟩
  · intro fd mem
    refine foreign (h.queue.2 fd mem) ?_
    rintro rfl
    exact queue mem

/-- Whatever way a new connection came, it is armed and entered, or destroyed. -/
theorem Consistent.enrolled (h : Consistent cfg l) {events : List Event} {how : Nat → Nat → Nat → Move} {n : Newcomer}
    (moved : l.proxy.next cfg (how l.nextId n.client l.nextId) =
      l.proxy.update l.nextId { session := .start n.client l.nextId } l.proxy.cache events)
    (sound : (l.proxy.update l.nextId { session := .start n.client l.nextId } l.proxy.cache events).Sound cfg)
    (grown : l.proxy.opened ⊆ run track l.proxy.opened (ops events))
    (entrance : l.stopping = false → l.entrance ≠ n.client) (queue : n.client ∉ l.queue)
    (vacant : l.live n.ptr = none) : Consistent cfg (l.enrol cfg how n) := by
  have started := h.started sound grown entrance queue
  change Consistent cfg (if n.armed then Loop.attach n.ptr l.nextId (.init n.client l.nextId) n.client
      { l with proxy := l.proxy.next cfg (how l.nextId n.client l.nextId), nextId := l.nextId + 1 }
    else Loop.destroy cfg l.nextId true
      { l with proxy := l.proxy.next cfg (how l.nextId n.client l.nextId), nextId := l.nextId + 1 })
  rw [moved]
  split
  · exact started.attach (s := .start n.client l.nextId) h.loose Proxy.update_self vacant rfl
  · exact started.destroy h.loose true

theorem Consistent.accept (h : Consistent cfg l) {n : Newcomer} (admits : Admits true l n) :
    Consistent cfg (l.enrol cfg .accept n) := by
  have new := admits.2 rfl
  have moved : Proxy.Moved cfg l.proxy (.accept l.nextId n.client l.nextId) _ := .accepted _ _ _ h.unused
  refine h.enrolled (by simp only [Proxy.next, h.unused])
    (h.sound.moved (m := .accept l.nextId n.client l.nextId) (fun _ => new) moved)
    (Finset.subset_insert _ _) (fun running same => ?_) (fun mem => ?_) admits.1
  · rw [← same] at new
    exact new (h.entrance running).1.1
  · exact new (h.queue.2 _ mem).1

/-- A descriptor from the inbox: it was open before, and nobody's. -/
theorem Consistent.adopt (h : Consistent cfg l) {n : Newcomer} (admits : Admits false l n)
    (foreign : l.proxy.Foreign n.client) (entrance : l.stopping = false → l.entrance ≠ n.client)
    (queue : n.client ∉ l.queue) : Consistent cfg (l.enrol cfg .adopt n) := by
  have moved : Proxy.Moved cfg l.proxy (.adopt l.nextId n.client l.nextId) _ := .adopted _ _ _ h.unused
  exact h.enrolled (by simp only [Proxy.next, h.unused])
    (h.sound.moved (m := .adopt l.nextId n.client l.nextId) (fun _ => foreign) moved)
    (Finset.Subset.refl _) entrance queue admits.1

/-- The inbox is none of a new connection's business. -/
theorem enrol_queue (how : Nat → Nat → Nat → Move) (n : Newcomer) (queue : List Nat) :
    { l with queue := queue }.enrol cfg how n = { l.enrol cfg how n with queue := queue } := by
  simp only [Loop.enrol]
  split
  · simp only [Loop.destroy]
    split <;> rfl
  · split
    · rfl
    · simp only [Loop.destroy]
      split <;> rfl

/-- **`take_from_inbox` keeps the invariant**: the queue of the loop that has
taken over some of the descriptors is, in effect, the rest of them. -/
theorem Consistent.adopt_all {place : Nat → Nat × Bool} {queue : List Nat}
    (h : Consistent cfg { l with queue := queue })
    (admits : Legal (Admits false) (enrol cfg .adopt) { l with queue := [] } (handed place queue)) :
    Consistent cfg (run (enrol cfg .adopt) { l with queue := [] } (handed place queue)) := by
  induction queue generalizing l with
  | nil => exact h
  | cons client queue ih =>
    obtain ⟨here, later⟩ := admits
    obtain ⟨absent, nodup⟩ := List.nodup_cons.mp h.queue.1
    have rest : Consistent cfg { l with queue := queue } :=
      { h with
        entrance := fun running =>
          ⟨(h.entrance running).1, fun mem => (h.entrance running).2 (List.mem_cons_of_mem _ mem)⟩
        queue := ⟨nodup, fun fd mem => h.queue.2 fd (List.mem_cons_of_mem _ mem)⟩ }
    have next := rest.adopt (n := ⟨client, (place client).1, (place client).2⟩) here
      (h.queue.2 client List.mem_cons_self)
      (fun running same => (h.entrance running).2 (same ▸ List.mem_cons_self)) absent
    rw [enrol_queue] at next later
    rw [handed, List.map_cons, run_cons, enrol_queue]
    exact ih next later

/-! ## The steps of the loop -/

theorem Consistent.popped (h : Consistent cfg l) {reg : Reg} {udata : Udata} {rest : List (Reg × Udata)}
    (pending : l.pending = (reg, udata) :: rest) :
    Consistent cfg { l with pending := rest } ∧ l.kq reg = some udata ∧ reg ∉ rest.map Prod.fst := by
  have batch := h.batch
  rw [pending, List.map_cons, List.nodup_cons] at batch
  exact ⟨{ h with batch := ⟨batch.1.2, fun e mem => batch.2 e (List.mem_cons_of_mem _ mem)⟩ },
    batch.2 _ List.mem_cons_self, batch.1.1⟩

/-- Every event of a batch is handled in keeping with the invariant. -/
theorem Consistent.handle (h : Consistent cfg l) {reg : Reg} {udata : Udata} {turn : Turn}
    (entry : l.kq reg = some udata) (handled : reg ∉ l.pending.map Prod.fst) (allowed : Handles cfg udata turn l) :
    Consistent cfg (l.handle cfg udata turn) := by
  cases udata with
  | inbox =>
    simp only [Loop.handle]
    split
    · exact h
    · exact h.adopt_all allowed
  | listener =>
    simp only [Loop.handle]
    split
    · exact h
    · exact Legal.invariant (fun l n h admits => h.accept admits) h allowed
  | conn ptr key =>
    obtain ⟨slot, live, -, rfl⟩ := h.entries reg ptr key entry
    exact h.service live handled (allowed slot live)

/-- Another thread opens or closes a descriptor that the loop has no entry for. -/
theorem Consistent.outside (h : Consistent cfg l) {opened : Finset Nat} {m : Move} (allowed : l.proxy.Allowed cfg m)
    (moved : Proxy.Moved cfg l.proxy m { l.proxy with opened := opened })
    (entrance : l.stopping = false → l.entrance ∈ opened) (queue : ∀ fd ∈ l.queue, fd ∈ opened) :
    Consistent cfg { l with proxy := { l.proxy with opened := opened } } :=
  { h with
    sound := h.sound.moved allowed moved
    entrance := fun running => ⟨⟨entrance running, (h.entrance running).1.2⟩, (h.entrance running).2⟩
    queue := ⟨h.queue.1, fun fd mem => ⟨queue fd mem, (h.queue.2 fd mem).2⟩⟩ }

theorem Consistent.opens (h : Consistent cfg l) {fd : Nat} (new : fd ∉ l.proxy.opened) :
    Consistent cfg (l.move cfg (.opens fd) []) := by
  have same : l.kq.close [] = l.kq := rfl
  simp only [move, Proxy.next, same]
  exact h.outside (m := .opens fd) new (.opened fd)
    (fun running => Finset.mem_insert_of_mem (h.entrance running).1.1)
    fun fd' mem => Finset.mem_insert_of_mem (h.queue.2 fd' mem).1

theorem Consistent.closes (h : Consistent cfg l) {fd : Nat} (allowed : l.proxy.Allowed cfg (.closes fd))
    (queue : fd ∉ l.queue) (entrance : l.stopping = false → fd ≠ l.entrance) :
    Consistent cfg (l.move cfg (.closes fd) [.closed fd]) := by
  -- there is no entry for a descriptor that is neither a connection's nor the entrance
  have same : l.kq.close [.closed fd] = l.kq := by
    funext reg
    cases entry : l.kq reg with
    | none => simp [Kqueue.close, entry]
    | some udata =>
      refine close_eq_some.mpr ⟨fun closed => ?_, entry⟩
      obtain rfl : reg.1 = fd := by simpa using closed
      cases udata with
      | conn ptr key =>
        obtain ⟨slot, live, rfl, rfl⟩ := h.entries reg ptr key entry
        obtain ⟨s, here, want, -⟩ := h.slots ptr slot live
        exact allowed _ s here ((h.sound.phase _ s here).owns want)
      | listener =>
        obtain ⟨running, at_gate⟩ := h.gate reg _ entry (Or.inl rfl)
        exact entrance running (by rw [at_gate])
      | inbox =>
        obtain ⟨running, at_gate⟩ := h.gate reg _ entry (Or.inr rfl)
        exact entrance running (by rw [at_gate])
  simp only [move, Proxy.next, same]
  refine h.outside (m := .closes fd) allowed (.closed fd) (fun running => ?_) fun fd' mem => ?_
  · exact Finset.mem_erase.mpr ⟨(entrance running).symm, (h.entrance running).1.1⟩
  · refine Finset.mem_erase.mpr ⟨?_, (h.queue.2 fd' mem).1⟩
    rintro rfl
    exact queue mem

theorem Consistent.push (h : Consistent cfg l) {fd : Nat} (new : fd ∉ l.proxy.opened) :
    Consistent cfg { l.move cfg (.opens fd) [] with queue := l.queue ++ [fd] } := by
  have opened := h.opens new
  have absent : fd ∉ l.queue := fun mem => new (h.queue.2 fd mem).1
  refine { opened with entrance := fun running => ⟨(opened.entrance running).1, ?_⟩, queue := ⟨?_, ?_⟩ }
  · intro mem
    rcases List.mem_append.mp mem with mem | mem
    · exact (h.entrance running).2 mem
    · exact new (List.mem_singleton.mp mem ▸ (h.entrance running).1.1)
  · exact List.nodup_append.mpr ⟨h.queue.1, List.nodup_singleton _, fun a mem b mem' same =>
      absent (List.mem_singleton.mp mem' ▸ same ▸ mem)⟩
  · intro fd' mem
    rcases List.mem_append.mp mem with mem | mem
    · exact opened.queue.2 fd' mem
    · obtain rfl := List.mem_singleton.mp mem
      exact ⟨Finset.mem_insert_self _ _, fun key s here own => new (h.sound.opened key s here own)⟩

theorem Consistent.poll (h : Consistent cfg l) {regs : List Reg} (nodup : regs.Nodup) :
    Consistent cfg (l.next cfg (.poll regs)) := by
  have names : (regs.filterMap fun reg => (l.kq reg).map fun udata => (reg, udata)).map Prod.fst =
      regs.filter fun reg => (l.kq reg).isSome := by
    clear nodup
    induction regs with
    | nil => rfl
    | cons reg regs ih => cases entry : l.kq reg <;> simp [entry, ih]
  refine { h with batch := ⟨by simp only [Loop.next, names]; exact nodup.filter _, fun e mem => ?_⟩ }
  obtain ⟨reg, -, entry⟩ := List.mem_filterMap.mp mem
  obtain ⟨udata, at_reg, rfl⟩ := Option.map_eq_some_iff.mp entry
  exact at_reg

theorem Consistent.stop (h : Consistent cfg l) (idle : l.pending = []) (running : l.stopping = false) :
    Consistent cfg (l.next cfg .stop) := by
  obtain ⟨foreign, unqueued⟩ := h.entrance running
  have quiet : Consistent cfg { l.disarm (l.entrance, false) with stopping := true } := by
    refine ⟨h.sound, h.fresh, ?_, h.apart, ?_, ?_, nofun, h.queue, h.batch.1, fun e mem => ?_⟩
    · intro ptr slot live
      obtain ⟨s, here, want, write, epoch, entry⟩ := h.slots ptr slot live
      refine ⟨s, here, want, write, epoch, update_none_eq_some.mpr ⟨fun same => ?_, entry⟩⟩
      have : slot.fd = l.entrance := congrArg Prod.fst same
      exact foreign.2 _ s here (this ▸ (h.sound.phase _ s here).owns want)
    · intro reg ptr key entry
      exact h.entries reg ptr key (update_none_eq_some.mp entry).2
    · intro reg udata entry kind
      obtain ⟨ne, before⟩ := update_none_eq_some.mp entry
      exact absurd (h.gate reg udata before kind).2 ne
    · have none_left : e ∈ l.pending := mem
      rw [idle] at none_left
      cases none_left
  simp only [Loop.next]
  split
  · exact quiet
  · exact quiet.closes foreign.2 unqueued nofun

/-- **The invariant survives every action.** -/
theorem Consistent.next (h : Consistent cfg l) {act : Action} (allowed : l.Allowed cfg act) :
    Consistent cfg (l.next cfg act) := by
  cases act with
  | poll regs => exact h.poll allowed.2
  | dispatch turn =>
    simp only [Loop.next, Allowed] at allowed ⊢
    split
    · exact h
    · rename_i reg udata rest pending
      rw [pending] at allowed
      obtain ⟨popped, entry, handled⟩ := h.popped pending
      exact popped.handle entry handled allowed
  | opens fd => exact h.opens allowed
  | closes fd => exact h.closes allowed.1 allowed.2.1 allowed.2.2
  | push fd => exact h.push allowed
  | stop => exact h.stop allowed.1 allowed.2

theorem consistent_start (cfg : Config) (opened : Finset Nat) (entrance : Nat) (sharded : Bool)
    (open_ : entrance ∈ opened) : Consistent cfg (start cfg opened entrance sharded) where
  sound := Proxy.sound_start cfg opened
  fresh := fun _ _ none_yet => absurd none_yet nofun
  slots := nofun
  apart := nofun
  entries := by
    intro reg ptr key entry
    simp only [start] at entry
    rcases update_some_eq_some.mp entry with ⟨-, same⟩ | ⟨-, ⟨⟩⟩
    split at same <;> cases same
  gate := by
    intro reg udata entry _
    simp only [start] at entry
    rcases update_some_eq_some.mp entry with ⟨same, -⟩ | ⟨-, ⟨⟩⟩
    exact ⟨rfl, same⟩
  entrance := fun _ => ⟨⟨open_, fun _ _ none_yet => absurd none_yet nofun⟩, nofun⟩
  queue := ⟨List.nodup_nil, nofun⟩
  batch := ⟨List.nodup_nil, nofun⟩

theorem consistent_run {opened : Finset Nat} {entrance : Nat} {sharded : Bool} {acts : List Action}
    (open_ : entrance ∈ opened)
    (legal : Legal (Allowed cfg) (Loop.next cfg) (start cfg opened entrance sharded) acts) :
    Consistent cfg (run (Loop.next cfg) (start cfg opened entrance sharded) acts) :=
  legal.invariant (fun _ _ h allowed => h.next allowed) (consistent_start cfg opened entrance sharded open_)

end Loop

/-- What the loop relies on when it takes an event for a connection. -/
structure Registered (cfg : Config) (l : Loop) : Prop where
  /-- A live connection has one entry, for what it waits on; the descriptor is open and its own. -/
  one : ∀ ptr slot, l.live ptr = some slot → ∃ s fd, l.proxy.entries slot.key = some ⟨s, true⟩ ∧
    s.conn.wantFd = some fd ∧
    (∀ reg, (∃ key, l.kq reg = some (.conn ptr key)) ↔ reg = (fd, s.conn.wantWrite)) ∧
    fd ∈ l.proxy.opened ∧ fd ∈ s.conn.fds.owned ∧
    ∀ key' s', key' ≠ slot.key → l.proxy.entries key' = some ⟨s', true⟩ → fd ∉ s'.conn.fds.owned
  /-- An entry points to a live connection, the one that made it. -/
  gone : ∀ reg ptr key, l.kq reg = some (.conn ptr key) → ∃ slot, l.live ptr = some slot ∧ slot.key = key
  /-- So does every event left in the batch, and the connection still waits for it. -/
  batch : ∀ reg ptr key, (reg, .conn ptr key) ∈ l.pending → ∃ slot s, l.live ptr = some slot ∧ slot.key = key ∧
    l.proxy.entries key = some ⟨s, true⟩ ∧ s.conn.wantFd = some reg.1 ∧ s.conn.wantWrite = reg.2
  /-- A connection that keeps its epoch has touched no descriptor and waits for the same thing. -/
  epoch : ∀ key s a, l.proxy.entries key = some ⟨s, true⟩ →
    let x := onReady cfg a ⟨s.conn, l.proxy.cache, []⟩
    x.conn.epoch = s.conn.epoch →
      x.conn.wantFd = s.conn.wantFd ∧ x.conn.wantWrite = s.conn.wantWrite ∧
      ∀ fd, .opened fd ∉ x.trace ∧ .closed fd ∉ x.trace ∧ .released fd ∉ x.trace

theorem Loop.Consistent.registered {cfg : Config} {l : Loop} (h : l.Consistent cfg) : Registered cfg l where
  one := by
    intro ptr slot live
    obtain ⟨s, here, want, write, -, entry⟩ := h.slots ptr slot live
    have own := (h.sound.phase _ s here).owns want
    refine ⟨s, slot.fd, here, want, fun reg => ⟨?_, ?_⟩, h.sound.opened _ s here own, own, fun key' s' ne there => ?_⟩
    · rintro ⟨key, at_reg⟩
      obtain ⟨slot', live', -, rfl⟩ := h.entries reg ptr key at_reg
      obtain rfl := Option.some.inj (live.symm.trans live')
      rw [write]
      rfl
    · rintro rfl
      rw [write]
      exact ⟨slot.key, entry⟩
    · exact Finset.disjoint_left.mp (h.sound.apart _ _ s s' ne.symm here there) own
  gone := by
    intro reg ptr key entry
    obtain ⟨slot, live, same, -⟩ := h.entries reg ptr key entry
    exact ⟨slot, live, same⟩
  batch := by
    intro reg ptr key mem
    obtain ⟨slot, live, rfl, rfl⟩ := h.entries reg ptr key (h.batch.2 _ mem)
    obtain ⟨s, here, want, write, -⟩ := h.slots ptr slot live
    exact ⟨slot, s, live, rfl, here, want, write⟩
  epoch := by
    intro key s a here x same
    have step : Step cfg s.conn l.proxy.cache x.trace x.conn x.cache := onReady_step cfg a l.proxy.cache s.conn
    obtain ⟨want, fds, no_ops⟩ := step.same_epoch same
    have untouched {e : Event} {op : Op Nat} (counts : e.op = some op) : e ∉ x.trace := by
      intro mem
      have listed : op ∈ ops x.trace := List.mem_filterMap.mpr ⟨e, mem, counts⟩
      rw [no_ops] at listed
      cases listed
    exact ⟨wantFd_congr want fds, wantWrite_congr want, fun fd => ⟨untouched rfl, untouched rfl, untouched rfl⟩⟩

/-- **Registration.** After every step of every run of an event loop, with any
batches, any outcomes, and any reuse of descriptor numbers and addresses. -/
theorem registration_invariant (cfg : Config) (opened : Finset Nat) (entrance : Nat) (sharded : Bool)
    (open_ : entrance ∈ opened) (acts : List Action)
    (legal : Legal (Loop.Allowed cfg) (Loop.next cfg) (.start cfg opened entrance sharded) acts) :
    Registered cfg (run (Loop.next cfg) (.start cfg opened entrance sharded) acts) :=
  (Loop.consistent_run open_ legal).registered

/-- A client is accepted, and the first candidate address for its request refuses:
the second socket gets the number of the first. -/
def reuseActions : List Action :=
  [.poll [(3, false)],
   .dispatch { accepts := [.ok ⟨5, 100, true⟩, .wouldBlock] },
   .poll [(5, false)],
   .dispatch { answers := {
     recv := .bytes (bytes "GET http://h/ HTTP/1.1\r\n\r\n")
     start := .hit [⟨[], 0, 0, 0⟩, ⟨[], 1, 0, 0⟩]
     dial := fun _ => .inProgress 6 } },
   .poll [(6, true)],
   .dispatch { answers := { dial := fun _ => .inProgress 6 } }]

theorem registration_invariant_reuse :
    (run (Loop.next {}) (.start {} {3} 3 false) reuseActions).kq (6, true) = some (.conn 100 0) ∧
    Registered {} (run (Loop.next {}) (.start {} {3} 3 false) reuseActions) := by
  refine ⟨by decide, registration_invariant {} {3} 3 false (by decide) reuseActions ?_⟩
  refine ⟨⟨rfl, by decide⟩, ⟨⟨rfl, fun _ => by decide⟩, trivial⟩, ⟨rfl, by decide⟩, ?_, ⟨rfl, by decide⟩, ?_, trivial⟩
  · rintro slot ⟨⟩ s ⟨⟩
    decide
  · rintro slot ⟨⟩ s ⟨⟩
    decide

end EvProxy
