import EvProxy.Loop.Adoption
import EvProxy.Loop.Drain
import EvProxy.Proxy.Custody

/-!
# The descriptors and connections of an event loop

Every connection of an event loop is in `live_` (`Loop.Housed`), and the loop
takes from the rest of the process only what is in its inbox. So what is open is
exactly what the connections in `live_` have, what is in the inbox, and what the
rest of the process has; and `live_.clear()` at the end of `drain` destroys the
last connection and closes what the connections had (`loop_custody`).
-/

namespace EvProxy
open Runs Proxy

namespace Loop

variable {cfg : Config} {l l₁ l₂ l₃ : Loop} {ptr key fd : Nat} {slot : Slot} {xs ys : List Nat}

/-- Every connection that exists is in `live_`. -/
def Housed (l : Loop) : Prop := ∀ key, l.proxy.Exists key → ∃ ptr slot, l.live ptr = some slot ∧ slot.key = key

/-- The loop takes `xs` from the rest of the process, and loses no connection. -/
structure Minds (cfg : Config) (l : Loop) (xs : List Nat) (l' : Loop) : Prop where
  takes : Takes cfg l.proxy xs l'.proxy
  housed : l.Housed → l'.Housed

theorem Minds.refl (cfg : Config) (l : Loop) : Minds cfg l [] l := ⟨.refl cfg _, id⟩

theorem Minds.trans (first : Minds cfg l₁ xs l₂) (second : Minds cfg l₂ ys l₃)
    (had : ∀ fd ∈ ys, l₁.proxy.Foreign fd ∧ fd ∉ xs) : Minds cfg l₁ (xs ++ ys) l₃ :=
  ⟨first.takes.trans second.takes had, fun housed => second.housed (first.housed housed)⟩

theorem Minds.then (first : Minds cfg l₁ xs l₂) (second : Minds cfg l₂ [] l₃) : Minds cfg l₁ xs l₃ :=
  ⟨first.takes.then second.takes, fun housed => second.housed (first.housed housed)⟩

/-! ## Destroying and serving -/

theorem destroy_proxy (cfg : Config) (key : Nat) (lastRef : Bool) (l : Loop) :
    (l.destroy cfg key lastRef).proxy = l.proxy.next cfg (.destroy key lastRef) := by
  unfold destroy
  split
  · rfl
  · rename_i absent
    simp only [Proxy.next]

theorem exists_destroyed {p : Proxy} {lastRef : Bool} {k : Nat}
    (left : (p.next cfg (.destroy key lastRef)).Exists k) : k ≠ key ∧ p.Exists k := by
  by_cases here : p.Exists key
  · exact (exists_destroy cfg here lastRef).mp left
  · have same : p.next cfg (.destroy key lastRef) = p := by
      simp only [Proxy.next]
      split
      · rename_i s there
        exact absurd ⟨s, there⟩ here
      · rfl
    rw [same] at left
    exact ⟨fun eq => here (eq ▸ left), left⟩

/-- Erasing a slot destroys its connection. -/
theorem erase_minds (sound : l.proxy.Sound cfg) (live : l.live ptr = some slot) (lastRef : Bool) :
    Minds cfg l [] (l.erase cfg ptr slot lastRef) := by
  have proxy : (l.erase cfg ptr slot lastRef).proxy = l.proxy.next cfg (.destroy slot.key lastRef) := destroy_proxy ..
  refine ⟨proxy ▸ sound.takes_destroy slot.key lastRef, fun housed key left => ?_⟩
  rw [proxy] at left
  obtain ⟨other, before⟩ := exists_destroyed left
  obtain ⟨ptr', slot', there, rfl⟩ := housed key before
  refine ⟨ptr', slot', ?_, rfl⟩
  rw [erase_live, Function.update_of_ne _ _ _, there]
  rintro rfl
  obtain rfl := Option.some.inj (there.symm.trans live)
  exact other rfl

theorem ready_minds (h : Consistent cfg l) (live : l.live ptr = some slot) {a : Answers} {events : List Event}
    (allowed : l.proxy.Allowed cfg (.ready slot.key a)) :
    Minds cfg l [] (l.move cfg (.ready slot.key a) events) := by
  obtain ⟨s, here, -⟩ := h.slots ptr slot live
  refine ⟨h.sound.takes_ready allowed, fun housed key left => ?_⟩
  exact housed key ((exists_ready cfg ⟨s, here⟩ a).mp left)

/-- A slot is renewed for the same connection. -/
theorem attach_minds (cfg : Config) (live : l.live ptr = some slot) (c : Connection) (fd : Nat) :
    Minds cfg l [] (l.attach ptr slot.key c fd) := by
  refine ⟨.refl cfg _, fun housed key left => ?_⟩
  obtain ⟨ptr', slot', there, rfl⟩ := housed key left
  by_cases same : ptr' = ptr
  · subst same
    obtain rfl := Option.some.inj (there.symm.trans live)
    exact ⟨ptr', _, Function.update_self .., rfl⟩
  · exact ⟨ptr', slot', (Function.update_of_ne same _ _).trans there, rfl⟩

theorem disarm_minds (cfg : Config) (reg : Reg) (l : Loop) : Minds cfg l [] (l.disarm reg) := ⟨.refl cfg _, id⟩

theorem service_minds (h : Consistent cfg l) {turn : Turn} (live : l.live ptr = some slot)
    (allowed : l.proxy.Allowed cfg (.ready slot.key turn.answers)) : Minds cfg l [] (l.service cfg ptr turn) := by
  obtain ⟨s, here, -⟩ := h.slots ptr slot live
  simp only [service, live, here]
  generalize onReady cfg turn.answers ⟨s.conn, l.proxy.cache, []⟩ = x
  have ready := @ready_minds cfg l ptr slot h live turn.answers x.trace allowed
  have off := ready.then (disarm_minds cfg slot.reg _)
  have sound := off.takes.leads.sound h.sound
  have still : ((l.move cfg (.ready slot.key turn.answers) x.trace).disarm slot.reg).live ptr = some slot := live
  have gone := off.then (erase_minds sound still turn.lastRef)
  split
  · exact gone
  · split
    · exact gone
    · rename_i fd waits
      split
      · split
        · exact off.then (attach_minds cfg still x.conn fd)
        · exact gone
      · exact ready

/-! ## New connections -/

/-- A new connection is armed and entered into `live_`, or destroyed. -/
theorem enrol_minds (sound : l.proxy.Sound cfg) {how : Nat → Nat → Nat → Move} {n : Newcomer}
    (vacant : l.live n.ptr = none)
    (takes : Takes cfg l.proxy xs (l.proxy.next cfg (how l.nextId n.client l.nextId)))
    (more : ∀ k, (l.proxy.next cfg (how l.nextId n.client l.nextId)).Exists k → k = l.nextId ∨ l.proxy.Exists k) :
    Minds cfg l xs (l.enrol cfg how n) := by
  change Minds cfg l xs (if n.armed then Loop.attach n.ptr l.nextId (.init n.client l.nextId) n.client
      { l with proxy := l.proxy.next cfg (how l.nextId n.client l.nextId), nextId := l.nextId + 1 }
    else Loop.destroy cfg l.nextId true
      { l with proxy := l.proxy.next cfg (how l.nextId n.client l.nextId), nextId := l.nextId + 1 })
  split
  · refine ⟨takes, fun housed key left => ?_⟩
    rcases more key left with rfl | before
    · exact ⟨n.ptr, _, Function.update_self .., rfl⟩
    · obtain ⟨ptr, slot, there, rfl⟩ := housed key before
      refine ⟨ptr, slot, (Function.update_of_ne ?_ _ _).trans there, rfl⟩
      rintro rfl
      rw [vacant] at there
      cases there
  · constructor
    · rw [destroy_proxy]
      exact takes.then ((takes.leads.sound sound).takes_destroy l.nextId true)
    · intro housed key left
      rw [destroy_proxy] at left
      obtain ⟨other, started⟩ := exists_destroyed left
      obtain ⟨ptr, slot, there, rfl⟩ := housed key ((more key started).resolve_left other)
      exact ⟨ptr, slot, by rw [destroy_live]; exact there, rfl⟩

theorem exists_accept {p : Proxy} (unused : p.entries key = none) {client id k : Nat}
    (after : (p.next cfg (.accept key client id)).Exists k) : k = key ∨ p.Exists k := by
  obtain ⟨s, there⟩ := after
  simp only [Proxy.next, unused] at there
  rcases entries_update.mp there with ⟨same, -⟩ | ⟨-, before⟩
  · exact Or.inl same
  · exact Or.inr ⟨s, before⟩

theorem accept_minds (h : Consistent cfg l) {n : Newcomer} (admits : Admits true l n) :
    Minds cfg l [] (l.enrol cfg .accept n) :=
  enrol_minds h.sound admits.1 (takes_accept h.unused (admits.2 rfl) l.nextId) fun _ => exists_accept h.unused

theorem adopt_minds (h : Consistent cfg l) {n : Newcomer} (admits : Admits false l n)
    (foreign : l.proxy.Foreign n.client) : Minds cfg l [n.client] (l.enrol cfg .adopt n) :=
  enrol_minds h.sound admits.1 (takes_adopt h.unused foreign l.nextId) fun _ => (exists_adopt cfg h.unused _ _).mp

theorem doAccept_minds {newcomers : List Newcomer} (h : Consistent cfg l)
    (admits : Legal (Admits true) (enrol cfg .accept) l newcomers) :
    Minds cfg l [] (run (enrol cfg .accept) l newcomers) := by
  induction newcomers generalizing l with
  | nil => exact .refl cfg l
  | cons n newcomers ih => exact (accept_minds h admits.1).then (ih (h.accept admits.1) admits.2)

/-- The whole inbox is taken over. -/
theorem takeFromInbox_minds {place : Nat → Nat × Bool} {queue : List Nat} (h : Consistent cfg { l with queue := queue })
    (admits : Legal (Admits false) (enrol cfg .adopt) { l with queue := [] } (handed place queue)) :
    Minds cfg l queue (run (enrol cfg .adopt) { l with queue := [] } (handed place queue)) := by
  induction queue generalizing l with
  | nil => exact ⟨.refl cfg _, id⟩
  | cons client queue ih =>
    obtain ⟨here, later⟩ := admits
    obtain ⟨absent, nodup⟩ := List.nodup_cons.mp h.queue.1
    have foreign := h.queue.2 client List.mem_cons_self
    have rest : Consistent cfg { l with queue := queue } :=
      { h with
        entrance := fun running =>
          ⟨(h.entrance running).1, fun mem => (h.entrance running).2 (List.mem_cons_of_mem _ mem)⟩
        queue := ⟨nodup, fun fd mem => h.queue.2 fd (List.mem_cons_of_mem _ mem)⟩ }
    have first := adopt_minds (n := ⟨client, (place client).1, (place client).2⟩) rest here foreign
    have next := rest.adopt (n := ⟨client, (place client).1, (place client).2⟩) here foreign
      (fun running same => (h.entrance running).2 (same ▸ List.mem_cons_self)) absent
    rw [enrol_queue] at next later first
    rw [handed, List.map_cons, run_cons, enrol_queue]
    have first : Minds cfg l [client] (l.enrol cfg .adopt ⟨client, (place client).1, (place client).2⟩) :=
      ⟨first.takes, first.housed⟩
    refine first.trans (ih next later) fun fd mem => ⟨h.queue.2 fd (List.mem_cons_of_mem _ mem), fun same => absent ?_⟩
    exact List.mem_singleton.mp same ▸ mem

/-! ## The account of the loop -/

/-- What is in the inbox. -/
def holds (l : Loop) (x fd : Nat) : Prop := x = fd ∧ fd ∈ l.queue

/-- The entrance is counted with the rest of the process, which loses a listener when the loop stops. -/
def outside (l : Loop) : Action → Outside
  | .opens fd => .opens fd
  | .closes fd => .closes fd
  | .stop => if l.sharded then .nothing else .closes l.entrance
  | _ => .nothing

/-- What the rest of the process has after a run: what it had at the start, opened since or was given by connections,
and has not closed. -/
def elsewhere (cfg : Config) (opened : Finset Nat) (entrance : Nat) (sharded : Bool) (acts : List Action) : Set Nat :=
  Proxy.elsewhere Loop.proxy (Loop.next cfg) outside opened (start cfg opened entrance sharded) acts

variable {opened : Finset Nat} {others : Set Nat}

/-- What the loop keeps besides its registrations. -/
structure InOrder (cfg : Config) (opened : Finset Nat) (others : Set Nat) (l : Loop) : Prop where
  consistent : Consistent cfg l
  housed : l.Housed
  account : Account cfg opened l.holds others l.proxy

/-- The queue loses what is taken. -/
theorem InOrder.minds (h : InOrder cfg opened others l₁) (after : Consistent cfg l₂) (minds : Minds cfg l₁ xs l₂)
    (mine : ∀ fd ∈ xs, fd ∈ l₁.queue) (queue : ∀ fd, fd ∈ l₂.queue ↔ fd ∈ l₁.queue ∧ fd ∉ xs) :
    InOrder cfg opened (others ∪ l₁.proxy.given l₂.proxy) l₂ := by
  refine ⟨after, minds.housed h.housed, h.account.parts minds.takes (fun fd mem => ⟨fd, rfl, mine fd mem⟩) ?_⟩
  intro x fd
  rw [holds, holds, queue, and_assoc]

/-- The loop does nothing to the process. -/
theorem InOrder.still (h : InOrder cfg opened others l₁) (after : Consistent cfg l₂) (proxy : l₂.proxy = l₁.proxy)
    (live : l₂.live = l₁.live) (queue : l₂.queue = l₁.queue) :
    InOrder cfg opened (others ∪ l₁.proxy.given l₂.proxy) l₂ := by
  refine ⟨after, ?_, ?_⟩
  · rw [Housed, proxy, live]
    exact h.housed
  · rw [proxy]
    exact h.account.still.congr fun x fd => by rw [holds, holds, queue]

theorem enrol_all_queue (cfg : Config) (how : Nat → Nat → Nat → Move) (l : Loop) (newcomers : List Newcomer) :
    (run (enrol cfg how) l newcomers).queue = l.queue := by
  refine run_invariant (P := fun l' : Loop => l'.queue = l.queue) (fun l' n same => ?_) rfl newcomers
  have kept : l'.enrol cfg how n = { l'.enrol cfg how n with queue := l'.queue } := enrol_queue how n l'.queue
  rw [kept]
  exact same

theorem InOrder.handle (h : InOrder cfg opened others l) {reg : Reg} {udata : Udata} {turn : Turn}
    (entry : l.kq reg = some udata) (handled : reg ∉ l.pending.map Prod.fst) (allowed : Handles cfg udata turn l) :
    InOrder cfg opened (others ∪ l.proxy.given (l.handle cfg udata turn).proxy) (l.handle cfg udata turn) := by
  have after := h.consistent.handle entry handled allowed
  have none_taken : ∀ fd ∈ ([] : List Nat), fd ∈ l.queue := fun fd mem => absurd mem List.not_mem_nil
  cases udata with
  | inbox =>
    simp only [Loop.handle] at after ⊢
    split
    · exact h.still h.consistent rfl rfl rfl
    · rename_i looking
      rw [if_neg looking] at after
      refine h.minds after (takeFromInbox_minds h.consistent allowed) (fun _ mem => mem) fun fd => ?_
      rw [(takeFromInbox_tends cfg turn.place l).queue]
      simp
  | listener =>
    simp only [Loop.handle] at after ⊢
    split
    · exact h.still h.consistent rfl rfl rfl
    · rename_i looking
      rw [if_neg looking] at after
      refine h.minds after (doAccept_minds h.consistent allowed) none_taken fun fd => ?_
      rw [doAccept, enrol_all_queue]
      simp
  | conn ptr key =>
    obtain ⟨slot, live, -, rfl⟩ := h.consistent.entries reg ptr key entry
    refine h.minds after (service_minds h.consistent live (allowed slot live)) none_taken fun fd => ?_
    rw [Loop.handle, (service_tends cfg ptr turn l).queue]
    simp

/-- Someone closes a descriptor that is not in the inbox. -/
theorem InOrder.closes (h : InOrder cfg opened others l) (allowed : l.proxy.Allowed cfg (.closes fd))
    (unqueued : fd ∉ l.queue) (after : Consistent cfg l₂) (proxy : l₂.proxy = l.proxy.next cfg (.closes fd))
    (live : l₂.live = l.live) (queue : l₂.queue = l.queue) : InOrder cfg opened (others \ {fd}) l₂ := by
  refine ⟨after, ?_, ?_⟩
  · rw [Housed, proxy, live]
    exact h.housed
  · rw [proxy]
    refine (h.account.closes allowed fun x held => unqueued held.2).congr fun x fd => ?_
    rw [holds, holds, queue]

theorem InOrder.push (h : InOrder cfg opened others l) (new : fd ∉ l.proxy.opened) :
    InOrder cfg opened (others ∪ l.proxy.given (l.next cfg (.push fd)).proxy) (l.next cfg (.push fd)) := by
  refine ⟨h.consistent.push new, h.housed, h.account.accepts new (i := fd) fun x y => ?_⟩
  simp only [holds, Loop.next, List.mem_append, List.mem_singleton]
  constructor
  · rintro ⟨rfl, before | rfl⟩
    · exact Or.inl ⟨rfl, before⟩
    · exact Or.inr ⟨rfl, rfl⟩
  · rintro (⟨rfl, before⟩ | ⟨rfl, rfl⟩)
    · exact ⟨rfl, Or.inl before⟩
    · exact ⟨rfl, Or.inr rfl⟩

theorem InOrder.stop (h : InOrder cfg opened others l) (idle : l.pending = []) (running : l.stopping = false) :
    InOrder cfg opened ((l.outside .stop).after l.proxy (l.next cfg .stop).proxy others) (l.next cfg .stop) := by
  have after := h.consistent.stop idle running
  obtain ⟨foreign, unqueued⟩ := h.consistent.entrance running
  cases sharded : l.sharded with
  | true =>
    have stopped : l.next cfg .stop = { l.disarm (l.entrance, false) with stopping := true } := if_pos sharded
    rw [stopped] at after ⊢
    simp only [outside, sharded]
    exact h.still after rfl rfl rfl
  | false =>
    have stopped : l.next cfg .stop = { l.disarm (l.entrance, false) with stopping := true }.move cfg
        (.closes l.entrance) [.closed l.entrance] := if_neg (by simp [disarm, sharded])
    rw [stopped] at after ⊢
    simp only [outside, sharded]
    exact h.closes foreign.2 unqueued after rfl rfl rfl

/-- **The account survives every action.** -/
theorem InOrder.next (h : InOrder cfg opened others l) {act : Action} (allowed : l.Allowed cfg act) :
    InOrder cfg opened ((l.outside act).after l.proxy (l.next cfg act).proxy others) (l.next cfg act) := by
  cases act with
  | poll regs => exact h.still (h.consistent.poll allowed.2) rfl rfl rfl
  | dispatch turn =>
    simp only [Loop.next, Loop.Allowed, outside] at allowed ⊢
    split
    · exact h.still h.consistent rfl rfl rfl
    · rename_i reg udata rest pending
      rw [pending] at allowed
      obtain ⟨popped, entry, handled⟩ := h.consistent.popped pending
      have left : InOrder cfg opened others { l with pending := rest } := ⟨popped, h.housed, h.account⟩
      exact left.handle entry handled allowed
  | opens fd => exact ⟨h.consistent.opens allowed, h.housed, h.account.opens allowed⟩
  | closes fd =>
    exact h.closes allowed.1 allowed.2.1 (h.consistent.closes allowed.1 allowed.2.1 allowed.2.2) rfl rfl rfl
  | push fd => exact h.push allowed
  | stop => exact h.stop allowed.1 allowed.2

theorem inOrder_run (cfg : Config) {entrance : Nat} (sharded : Bool) (open_ : entrance ∈ opened) {acts : List Action}
    (legal : Legal (Loop.Allowed cfg) (Loop.next cfg) (start cfg opened entrance sharded) acts) :
    InOrder cfg opened (elsewhere cfg opened entrance sharded acts)
      (run (Loop.next cfg) (start cfg opened entrance sharded) acts) := by
  refine elsewhere_invariant (P := fun others l => InOrder cfg opened others l)
    (fun others l act h allowed => h.next allowed) legal ⟨consistent_start cfg opened entrance sharded open_, ?_, ?_⟩
  · exact fun key here => absurd here (not_exists_start cfg opened key)
  · exact account_start cfg fun x fd held => List.not_mem_nil held.2

/-! ## The end -/

theorem clear_minds (lastRef : Nat → Bool) (sound : l.proxy.Sound cfg) (addrs : List Nat) :
    Minds cfg l [] (run (clearAt cfg lastRef) l addrs) := by
  induction addrs generalizing l with
  | nil => exact .refl cfg l
  | cons ptr addrs ih =>
    have first : Minds cfg l [] (l.clearAt cfg lastRef ptr) := by
      unfold clearAt
      split
      · exact .refl cfg l
      · rename_i slot live
        exact erase_minds sound live (lastRef ptr)
    exact first.then (ih (first.takes.leads.sound sound))

end Loop

/-- **Custody in the event loop.** For a loop with a listener and for a shard, in every run, with any reuse of numbers
and addresses: the loop makes only legal moves, and every connection that exists is in `live_`. What is open is
exactly what the connections in `live_`, the inbox and the rest of the process have, no descriptor in two hands. After
`live_.clear()` no connection exists, and what is open is in the inbox, or the rest of the process had it or has been
given it by the destructors. -/
theorem loop_custody (cfg : Config) (opened : Finset Nat) (entrance : Nat) (sharded : Bool)
    (open_ : entrance ∈ opened) (acts : List Action)
    (legal : Legal (Loop.Allowed cfg) (Loop.next cfg) (.start cfg opened entrance sharded) acts) :
    let l := run (Loop.next cfg) (.start cfg opened entrance sharded) acts
    let others := Loop.elsewhere cfg opened entrance sharded acts
    Leads cfg (.start cfg opened) l.proxy ∧
    (∀ key, l.proxy.Exists key → ∃ ptr slot, l.live ptr = some slot ∧ slot.key = key) ∧
    (l.queue.Nodup ∧ ∀ fd ∈ l.queue, l.proxy.Foreign fd ∧ fd ∉ others) ∧
    (∀ fd ∈ others, l.proxy.Foreign fd) ∧
    (∀ fd, fd ∈ l.proxy.opened ↔ (∃ ptr slot s, l.live ptr = some slot ∧ l.proxy.entries slot.key = some ⟨s, true⟩ ∧
      fd ∈ s.conn.fds.owned) ∨ fd ∈ l.queue ∨ fd ∈ others) ∧
    ∀ (d : Draining) (lastRef : Nat → Bool), d.loop = l →
      (∀ key, ¬ (d.clear cfg lastRef).proxy.Exists key) ∧
      ∀ fd, fd ∈ (d.clear cfg lastRef).proxy.opened ↔
        fd ∈ l.queue ∨ fd ∈ others ∨ fd ∈ l.proxy.given (d.clear cfg lastRef).proxy := by
  intro l others
  have h := Loop.inOrder_run cfg sharded open_ legal
  have inbox (fd : Nat) : (∃ x, l.holds x fd) ↔ fd ∈ l.queue := by simp [Loop.holds]
  refine ⟨h.account.leads, h.housed, ⟨h.consistent.queue.1, fun fd mem => ?_⟩, fun fd => h.account.known, fun fd => ?_,
    fun d lastRef same => ?_⟩
  · exact ⟨h.consistent.queue.2 fd mem, h.account.apart fd fd ⟨rfl, mem⟩⟩
  · rw [h.account.open_iff, inbox]
    refine or_congr_left ⟨?_, ?_⟩
    · rintro ⟨key, s, here, own⟩
      obtain ⟨ptr, slot, live, rfl⟩ := h.housed key ⟨s, here⟩
      exact ⟨ptr, slot, s, live, here, own⟩
    · rintro ⟨ptr, slot, s, -, here, own⟩
      exact ⟨slot.key, s, here, own⟩
  · have minds : Loop.Minds cfg l [] (d.clear cfg lastRef) := by
      rw [Draining.clear, same]
      exact Loop.clear_minds lastRef h.account.sound d.addrs
    have none_left (key : Nat) : ¬ (d.clear cfg lastRef).proxy.Exists key := by
      intro here
      obtain ⟨ptr, slot, live, -⟩ := minds.housed h.housed key here
      rw [d.clear_live cfg lastRef ptr] at live
      cases live
    refine ⟨none_left, fun fd => ?_⟩
    rw [(h.account.serves minds.takes).open_iff, inbox, or_iff_right]
    · rfl
    · rintro ⟨key, s, here, -⟩
      exact none_left key ⟨s, here⟩

/-- One client is accepted, with a number that another part of the process had opened and closed before, and is still
connected when the loop is stopped. -/
def acceptAndStop : List Action :=
  [.opens 5, .closes 5, .poll [(3, false)], .dispatch { accepts := [.ok ⟨5, 100, true⟩, .wouldBlock] }, .opens 9, .stop]

theorem loop_custody_one_client :
    let l := run (Loop.next {}) (.start {} {3} 3 false) acceptAndStop
    let d : Draining := ⟨l, [100], fun ptr outside => Function.update_of_ne (by simpa using outside) _ _⟩
    l.proxy.Exists 0 ∧ l.proxy.opened = {5, 9} ∧ (d.clear {} fun _ => true).proxy.opened = {9} ∧
      ∀ key, ¬ (d.clear {} fun _ => true).proxy.Exists key := by
  intro l d
  refine ⟨by decide, by decide, by decide,
    ((loop_custody {} {3} 3 false (by decide) acceptAndStop ?_).2.2.2.2.2 d _ rfl).1⟩
  refine ⟨?_, ⟨fun key s here => ?_, List.not_mem_nil, fun _ => by decide⟩, ⟨rfl, by decide⟩,
    ⟨⟨rfl, fun _ => by decide⟩, trivial⟩, ?_, ⟨rfl, rfl⟩, trivial⟩
  · show 5 ∉ ({3} : Finset Nat)
    decide
  · cases here
  · show 9 ∉ ({5, 3} : Finset Nat)
    decide

end EvProxy
