import EvProxy.Loop.Adoption
import EvProxy.Backend.Inbox

/-!
# Several event loops (`ShardedEventLoop` in `backend/event_loop.cpp`)

One thread accepts and deals the descriptors out to the inboxes in turn; each
shard is an event loop that takes them from its inbox until it sees its stop
flag. The stop flags are set one by one, by the signal handler and by `run`, and
each thread looks at its own when it gets there. `sharded_handoff` says where
every accepted descriptor is at any time, and which runs leave none behind.
-/

namespace EvProxy
open Runs

/-- A loop with its inbox and its stop flag. -/
structure Shard where
  loop : Loop
  inbox : Inbox Nat
  stop : Bool := false
  /-- The thread has returned. -/
  joined : Bool := false

namespace Shard

/-- What a shard's thread does next. Between `kevent` and the end of a batch nothing looks at the stop flag. -/
inductive Act where
  | poll (regs : List Reg)
  /-- `take_from_inbox` empties the pipe. -/
  | drain
  | dispatch (turn : Turn)
  /-- The loop is left: the stop flag is up, or `kevent` failed. -/
  | leave (failed : Bool)
  | exit

/-- The next event is for the inbox, and the loop still looks at it. -/
def takes (s : Shard) : Bool :=
  match s.loop.pending with
  | (_, .inbox) :: _ => !s.loop.stopping
  | _ => false

/-- The loop can be left here. -/
def leaves (s : Shard) (failed : Bool) : Bool :=
  s.loop.pending.isEmpty && !s.loop.stopping && (s.stop || failed)

def next (cfg : Config) (s : Shard) (act : Act) : Shard :=
  if s.joined then s
  else
    match act with
    | .poll regs => if s.loop.pending.isEmpty then { s with loop := s.loop.next cfg (.poll regs) } else s
    | .drain => if s.takes then { s with inbox := s.inbox.next .drain } else s
    | .dispatch turn =>
      { s with
        loop := s.loop.next cfg (.dispatch turn)
        inbox := if s.takes then (s.inbox.next .drain).next .swap else s.inbox }
    | .leave failed => if s.leaves failed then { s with loop := s.loop.next cfg .stop } else s
    | .exit => if s.loop.stopping then { s with joined := true } else s

/-- The append of a push. -/
def append (cfg : Config) (s : Shard) (fd : Nat) : Shard :=
  { s with loop := s.loop.next cfg (.push fd), inbox := s.inbox.next (.append fd) }

/-- The loop's queue is the inbox's, and its connections are those taken from it. -/
structure Sound (cfg : Config) (s : Shard) : Prop where
  queue : s.loop.queue = s.inbox.box.waiting
  fed : s.loop.Fed cfg s.inbox.box.taken
  batch : ∀ reg, (reg, Udata.listener) ∉ s.loop.pending
  joined : s.joined = true → s.loop.stopping = true

variable {cfg : Config} {s : Shard}

theorem Sound.poll (h : Sound cfg s) (regs : List Reg) : Sound cfg { s with loop := s.loop.next cfg (.poll regs) } where
  queue := h.queue
  fed := ⟨h.fed.roster, h.fed.nextId, h.fed.unlistened⟩
  batch := by
    intro reg mem
    obtain ⟨r, -, eq⟩ := List.mem_filterMap.mp mem
    obtain ⟨udata, armed, pair⟩ := Option.map_eq_some_iff.mp eq
    obtain ⟨-, rfl⟩ := Prod.mk.inj pair
    exact h.fed.unlistened r armed
  joined := h.joined

theorem takes_looking (takes : s.takes = true) : s.loop.stopping = false := by
  unfold Shard.takes at takes
  split at takes
  · simpa using takes
  · cases takes

/-- An event of the batch is for the inbox and empties the queue, or leaves the inbox alone. -/
theorem Sound.dispatched (h : Sound cfg s) (turn : Turn) : ∃ rest, rest ⊆ s.loop.pending ∧
    ((s.takes = false ∧ Loop.Tends cfg [] { s.loop with pending := rest } (s.loop.next cfg (.dispatch turn))) ∨
      (s.takes = true ∧ Loop.Tends cfg s.loop.queue { s.loop with pending := rest, queue := [] }
        (s.loop.next cfg (.dispatch turn)))) := by
  cases pending : s.loop.pending with
  | nil =>
    have same : s.loop.next cfg (.dispatch turn) = { s.loop with pending := [] } := by
      simp only [Loop.next, pending]
      rw [← pending]
    exact ⟨[], List.Subset.refl _, .inl ⟨by simp [takes, pending], same ▸ .refl cfg _⟩⟩
  | cons event rest =>
    obtain ⟨reg, udata⟩ := event
    have handled : s.loop.next cfg (.dispatch turn) = { s.loop with pending := rest }.handle cfg udata turn := by
      simp only [Loop.next, pending]
    refine ⟨rest, List.subset_cons_self _ _, ?_⟩
    rw [handled]
    cases udata with
    | listener => exact absurd (by rw [pending]; exact List.mem_cons_self) (h.batch reg)
    | conn ptr key => exact .inl ⟨by simp [takes, pending], Loop.service_tends cfg ptr turn _⟩
    | inbox =>
      unfold Loop.handle
      dsimp only
      split
      · rename_i stopping
        exact .inl ⟨by simp [takes, pending, stopping], .refl cfg _⟩
      · rename_i looking
        exact .inr ⟨by simpa [takes, pending] using looking,
          Loop.takeFromInbox_tends cfg turn.place { s.loop with pending := rest }⟩

theorem Sound.dispatch (h : Sound cfg s) (turn : Turn) :
    Sound cfg { s with
      loop := s.loop.next cfg (.dispatch turn)
      inbox := if s.takes then (s.inbox.next .drain).next .swap else s.inbox } := by
  obtain ⟨rest, sub, ⟨takes, tends⟩ | ⟨takes, tends⟩⟩ := h.dispatched turn
  · have pending : (s.loop.next cfg (.dispatch turn)).pending = rest := tends.pending
    have batch : ∀ reg, (reg, Udata.listener) ∉ (s.loop.next cfg (.dispatch turn)).pending := fun reg mem =>
      h.batch reg (sub (pending ▸ mem))
    rw [if_neg (by simp [takes])]
    exact ⟨tends.queue.trans h.queue, tends.fed_same ⟨h.fed.roster, h.fed.nextId, h.fed.unlistened⟩, batch,
      fun gone => tends.stopping.trans (h.joined gone)⟩
  · have pending : (s.loop.next cfg (.dispatch turn)).pending = rest := tends.pending
    have batch : ∀ reg, (reg, Udata.listener) ∉ (s.loop.next cfg (.dispatch turn)).pending := fun reg mem =>
      h.batch reg (sub (pending ▸ mem))
    rw [if_pos takes]
    refine ⟨?_, ?_, batch, fun gone => ?_⟩
    · rw [Inbox.take_box]
      exact tends.queue
    · rw [Inbox.take_box, Mailbox.takeAll_taken, ← h.queue]
      exact tends.fed _ ⟨h.fed.roster, h.fed.nextId, h.fed.unlistened⟩
    · have looking := takes_looking takes
      rw [h.joined gone] at looking
      cases looking

theorem Sound.leave (h : Sound cfg s) : Sound cfg { s with loop := s.loop.next cfg .stop } := by
  have disarmed := (Loop.disarm_tends cfg (s.loop.entrance, false) s.loop).fed_same h.fed
  have stopped : Loop.Fed cfg s.inbox.box.taken { s.loop.disarm (s.loop.entrance, false) with stopping := true } :=
    ⟨disarmed.roster, disarmed.nextId, disarmed.unlistened⟩
  simp only [Loop.next]
  split
  · exact ⟨h.queue, stopped, h.batch, fun _ => rfl⟩
  · exact ⟨h.queue, (Loop.outside_tends cfg _ _ rfl).fed_same stopped, h.batch, fun _ => rfl⟩

theorem Sound.append (h : Sound cfg s) (fd : Nat) : Sound cfg (s.append cfg fd) := by
  have opened := (Loop.outside_tends cfg (.opens fd) [] rfl).fed_same h.fed
  refine ⟨?_, ⟨opened.roster, opened.nextId, opened.unlistened⟩, h.batch, h.joined⟩
  simp only [Shard.append, Loop.next, Inbox.next, Mailbox.send_waiting, h.queue]

theorem Sound.next (h : Sound cfg s) (act : Act) : Sound cfg (s.next cfg act) := by
  unfold Shard.next
  split
  · exact h
  · rename_i running
    cases act with
    | poll regs =>
      dsimp only
      split
      · exact h.poll regs
      · exact h
    | drain =>
      dsimp only
      split
      · have box := (Inbox.drain_box s.inbox).1
        refine ⟨by rw [box]; exact h.queue, by rw [box]; exact h.fed, h.batch, h.joined⟩
      · exact h
    | dispatch turn => exact h.dispatch turn
    | leave failed =>
      dsimp only
      split
      · exact h.leave
      · exact h
    | exit =>
      dsimp only
      split
      · rename_i stopping
        exact ⟨h.queue, h.fed, h.batch, fun _ => stopping⟩
      · exact h

theorem next_joined (cfg : Config) (joined : s.joined = true) (act : Act) : s.next cfg act = s := by
  unfold Shard.next
  rw [if_pos joined]

/-- A step of the shard's own thread pushes nothing. -/
theorem next_sent (cfg : Config) (s : Shard) (act : Act) : (s.next cfg act).inbox.box.sent = s.inbox.box.sent := by
  have take (b : Inbox Nat) : ((b.next .drain).next .swap).box.sent = b.box.sent := by
    rw [Inbox.take_box, Mailbox.takeAll_sent]
  unfold next
  split
  · rfl
  · cases act with
    | poll regs => dsimp only; split <;> rfl
    | drain =>
      dsimp only
      split
      · exact congrArg Mailbox.sent (Inbox.drain_box s.inbox).1
      · rfl
    | dispatch turn =>
      dsimp only
      split
      · exact take s.inbox
      · rfl
    | leave failed => dsimp only; split <;> rfl
    | exit => dsimp only; split <;> rfl

/-! ## What a shard leaves behind -/

/-- A loop that has been left has left nothing in its inbox. -/
def Clean (s : Shard) : Prop := s.loop.stopping = true → s.loop.queue = []

theorem clean_congr {s s' : Shard} (stopping : s'.loop.stopping = s.loop.stopping)
    (queue : s.loop.stopping = true → s'.loop.queue = s.loop.queue) : s'.Clean ↔ s.Clean := by
  unfold Clean
  rw [stopping]
  exact ⟨fun clean stopped => (queue stopped).symm.trans (clean stopped),
    fun clean stopped => (queue stopped).trans (clean stopped)⟩

/-- A step that happens only under a condition, and keeps flag and queue if it does. -/
theorem clean_ite {p : Prop} [Decidable p] {s s' : Shard} (stopping : s'.loop.stopping = s.loop.stopping)
    (queue : s'.loop.queue = s.loop.queue) : (if p then s' else s).Clean ↔ s.Clean := by
  split
  · exact clean_congr stopping fun _ => queue
  · rfl

/-- Leaving the loop leaves behind what is in the queue. -/
theorem clean_leave (cfg : Config) (s : Shard) :
    Clean { s with loop := s.loop.next cfg .stop } ↔ s.loop.queue = [] := by
  have stopped : (s.loop.next cfg .stop).stopping = true ∧ (s.loop.next cfg .stop).queue = s.loop.queue := by
    simp only [Loop.next]
    split <;> exact ⟨rfl, rfl⟩
  unfold Clean
  rw [stopped.2]
  exact ⟨fun clean => clean stopped.1, fun empty _ => empty⟩

/-- Nothing else that a shard does leaves anything behind. -/
theorem Sound.clean_next (h : Sound cfg s) (act : Act) :
    (s.next cfg act).Clean ↔
      s.Clean ∧ ∀ failed, act = .leave failed → s.leaves failed = true → s.loop.queue = [] := by
  unfold Shard.next
  split
  · rename_i joined
    have never (failed : Bool) : s.leaves failed ≠ true := by simp [leaves, h.joined joined]
    exact (and_iff_left fun failed _ out => absurd out (never failed)).symm
  · cases act with
    | poll regs =>
      refine Iff.trans ?_ (and_iff_left nofun).symm
      exact clean_ite rfl rfl
    | drain =>
      refine Iff.trans ?_ (and_iff_left nofun).symm
      exact clean_ite rfl rfl
    | dispatch turn =>
      refine Iff.trans ?_ (and_iff_left nofun).symm
      obtain ⟨rest, -, ⟨-, tends⟩ | ⟨takes, tends⟩⟩ := h.dispatched turn
      · exact clean_congr tends.stopping fun _ => tends.queue
      · refine clean_congr tends.stopping fun stopping => ?_
        rw [takes_looking takes] at stopping
        cases stopping
    | leave failed =>
      dsimp only
      split
      · rename_i leaves
        have before : s.Clean := fun stopping => by simp [Shard.leaves, stopping] at leaves
        rw [clean_leave cfg s]
        constructor
        · exact fun empty => ⟨before, fun _ _ _ => empty⟩
        · exact fun ⟨_, empty⟩ => empty failed rfl leaves
      · rename_i stays
        refine (and_iff_left fun failed' same out => ?_).symm
        cases same
        exact absurd out stays
    | exit =>
      refine Iff.trans ?_ (and_iff_left nofun).symm
      exact clean_ite rfl rfl

/-- A push leaves something behind if nobody will look. -/
theorem clean_append (cfg : Config) (s : Shard) (fd : Nat) :
    (s.append cfg fd).Clean ↔ s.Clean ∧ s.loop.stopping = false := by
  have queue : (s.append cfg fd).loop.queue ≠ [] := by simp [Shard.append, Loop.next]
  have stopping : (s.append cfg fd).loop.stopping = s.loop.stopping := rfl
  unfold Clean
  rw [stopping]
  constructor
  · intro clean
    have running : s.loop.stopping = false := by simpa using fun stopped => queue (clean stopped)
    exact ⟨fun stopped => absurd stopped (by simp [running]), running⟩
  · exact fun ⟨_, running⟩ stopped => absurd stopped (by simp [running])

end Shard

/-! ## The acceptor and the shards -/

/-- Every `n`-th element, from the `i`-th on: what one of `n` gets when they are dealt in turn. -/
def dealt {α : Type} (n i : Nat) (l : List α) : List α := (l.zipIdx.filter fun x => x.2 % n = i).map Prod.fst

theorem dealt_concat {α : Type} (n i : Nat) (l : List α) (a : α) :
    dealt n i (l ++ [a]) = dealt n i l ++ if l.length % n = i then [a] else [] := by
  simp only [dealt, List.zipIdx_append, List.zipIdx_singleton, Nat.zero_add, List.filter_append, List.map_append,
    List.filter_singleton]
  congr 1
  by_cases his : l.length % n = i <;> simp [his]

namespace Sharded

/-- Where the acceptor's thread is in `run` and `accept_loop`. -/
inductive Main where
  | testing
  | accepting
  | pushing (fd : Nat)
  /-- The descriptor is in inbox `i`, the wakeup is next. -/
  | writing (i : Nat)
  /-- `run` sets the flag of loop `i`. -/
  | stopping (i : Nat)
  | joining
  | returned
  deriving DecidableEq

def Main.hand : Main → List Nat
  | .pushing fd => [fd]
  | _ => []

end Sharded

structure Sharded where
  shards : Nat → Shard
  size : Nat
  stop : Bool := false
  /-- The stores the signal handler has made: its own flag, then one loop's after the other. -/
  handled : Nat := 0
  main : Sharded.Main := .testing
  /-- The inbox that is next. -/
  turn : Nat := 0
  accepted : List Nat := []
  pushed : List Nat := []

namespace Sharded

inductive Act where
  | signal
  | main (accepted : Option Nat)
  | shard (i : Nat) (act : Shard.Act)

/-- The loops before anything was accepted; `entrance` and `room` describe the pipes. -/
def start (cfg : Config) (opened : Finset Nat) (entrance : Nat → Nat) (room : Nat) : Sharded where
  shards := fun i => { loop := .start cfg opened (entrance i) true, inbox := { room := room } }
  size := if cfg.eventLoops = 0 then 1 else cfg.eventLoops

/-- `loops_[i]->stop()`. -/
def stopShard (p : Sharded) (i : Nat) : Nat → Shard := Function.update p.shards i { p.shards i with stop := true }

def signalNext (p : Sharded) : Sharded :=
  match p.handled with
  | 0 => { p with stop := true, handled := 1 }
  | i + 1 => if i < p.size then { p with shards := p.stopShard i, handled := i + 2 } else p

def mainNext (cfg : Config) (p : Sharded) (accepted : Option Nat) : Sharded :=
  match p.main with
  | .testing => { p with main := if p.stop then .stopping 0 else .accepting }
  | .accepting =>
    match accepted with
    | none => { p with main := .testing }
    | some fd => { p with main := .pushing fd, accepted := p.accepted ++ [fd] }
  | .pushing fd =>
    { p with
      shards := Function.update p.shards p.turn ((p.shards p.turn).append cfg fd)
      main := .writing p.turn
      turn := (p.turn + 1) % p.size
      pushed := p.pushed ++ [fd] }
  | .writing i =>
    -- the write waits while the pipe is full
    if (p.shards i).inbox.bytes < (p.shards i).inbox.room then
      { p with
        shards := Function.update p.shards i { p.shards i with inbox := (p.shards i).inbox.next .write }
        main := .accepting }
    else p
  | .stopping i =>
    if i < p.size then { p with shards := p.stopShard i, main := .stopping (i + 1) } else { p with main := .joining }
  | .joining => if ∀ i < p.size, (p.shards i).joined = true then { p with main := .returned } else p
  | .returned => p

def next (cfg : Config) (p : Sharded) : Act → Sharded
  | .signal => p.signalNext
  | .main accepted => p.mainNext cfg accepted
  | .shard i act =>
    if i < p.size then { p with shards := Function.update p.shards i ((p.shards i).next cfg act) } else p

/-- The step leaves nothing behind: no push to a loop that has been left, no loop left with a full inbox. -/
def Tidy (p : Sharded) : Act → Prop
  | .signal => True
  | .main _ =>
    match p.main with
    | .pushing _ => (p.shards p.turn).loop.stopping = false
    | _ => True
  | .shard i act =>
    i < p.size → ∀ failed, act = .leave failed → (p.shards i).leaves failed = true → (p.shards i).loop.queue = []

/-- Everything a step can do. -/
inductive Step (cfg : Config) (p : Sharded) : Act → Sharded → Prop where
  /-- Only flags and the place of the acceptor's thread change. -/
  | quiet {act : Act} {p' : Sharded} (tidy : p.Tidy act) (size : p'.size = p.size)
      (shards : ∀ i, ∃ stop, p'.shards i = { p.shards i with stop := stop }) (turn : p'.turn = p.turn)
      (accepted : p'.accepted = p.accepted) (pushed : p'.pushed = p.pushed) (hand : p'.main.hand = p.main.hand)
      (returned : p'.main = .returned → p.main = .returned ∨ ∀ i < p.size, (p.shards i).joined = true) :
      Step cfg p act p'
  | accept (answer : Option Nat) (fd : Nat) (main : p.main = .accepting) :
      Step cfg p (.main answer) { p with main := .pushing fd, accepted := p.accepted ++ [fd] }
  | push (answer : Option Nat) (fd : Nat) (main : p.main = .pushing fd) :
      Step cfg p (.main answer)
        { p with
          shards := Function.update p.shards p.turn ((p.shards p.turn).append cfg fd)
          main := .writing p.turn
          turn := (p.turn + 1) % p.size
          pushed := p.pushed ++ [fd] }
  | write (answer : Option Nat) (i : Nat) (main : p.main = .writing i)
      (room : (p.shards i).inbox.bytes < (p.shards i).inbox.room) :
      Step cfg p (.main answer)
        { p with
          shards := Function.update p.shards i { p.shards i with inbox := (p.shards i).inbox.next .write }
          main := .accepting }
  | shard (i : Nat) (act : Shard.Act) (bound : i < p.size) :
      Step cfg p (.shard i act) { p with shards := Function.update p.shards i ((p.shards i).next cfg act) }

variable {cfg : Config} {p p' : Sharded} {act : Act}

theorem stopShard_flag (p : Sharded) (i j : Nat) : ∃ stop, p.stopShard i j = { p.shards j with stop := stop } := by
  by_cases same : j = i
  · exact ⟨true, by rw [same]; exact Function.update_self _ _ _⟩
  · exact ⟨(p.shards j).stop, Function.update_of_ne same _ _⟩

/-- The acceptor's thread moves on without touching a shard. -/
theorem Step.turn {main : Main} (tidy : p.Tidy act) (hand : main.hand = p.main.hand)
    (returned : main = .returned → p.main = .returned ∨ ∀ i < p.size, (p.shards i).joined = true) :
    Step cfg p act { p with main := main } :=
  .quiet tidy rfl (fun i => ⟨(p.shards i).stop, rfl⟩) rfl rfl rfl hand returned

theorem Step.idle (tidy : p.Tidy act) : Step cfg p act p :=
  .quiet tidy rfl (fun i => ⟨(p.shards i).stop, rfl⟩) rfl rfl rfl rfl .inl

theorem signalNext_step (cfg : Config) (p : Sharded) : Step cfg p .signal p.signalNext := by
  unfold signalNext
  split
  · exact .quiet trivial rfl (fun i => ⟨(p.shards i).stop, rfl⟩) rfl rfl rfl rfl .inl
  · rename_i i handled
    split
    · exact .quiet trivial rfl (stopShard_flag p i) rfl rfl rfl rfl .inl
    · exact .idle trivial

theorem mainNext_step (cfg : Config) (p : Sharded) (answer : Option Nat) :
    Step cfg p (.main answer) (p.mainNext cfg answer) := by
  have tidy {main : Main} (here : p.main = main) (idle : ∀ fd, main ≠ .pushing fd) : p.Tidy (.main answer) := by
    unfold Tidy
    rw [here]
    cases main <;> first | trivial | exact absurd rfl (idle _)
  unfold mainNext
  split
  · rename_i main
    exact .turn (tidy main nofun) (by rw [main]; split <;> rfl) (by split <;> nofun)
  · rename_i main
    cases answer with
    | none => exact .turn (tidy main nofun) (by rw [main]; rfl) nofun
    | some fd => exact .accept _ fd main
  · rename_i fd main
    exact .push _ fd main
  · rename_i i main
    split
    · rename_i room
      exact .write _ i main room
    · exact .idle (tidy main nofun)
  · rename_i i main
    split
    · exact .quiet (tidy main nofun) rfl (stopShard_flag p i) rfl rfl rfl (by rw [main]; rfl) nofun
    · exact .turn (tidy main nofun) (by rw [main]; rfl) nofun
  · rename_i main
    split
    · rename_i joined
      exact .turn (tidy main nofun) (by rw [main]; rfl) fun _ => .inr joined
    · exact .idle (tidy main nofun)
  · rename_i main
    exact .idle (tidy main nofun)

theorem next_step (cfg : Config) (p : Sharded) (act : Act) : Step cfg p act (p.next cfg act) := by
  cases act with
  | signal => exact signalNext_step cfg p
  | main answer => exact mainNext_step cfg p answer
  | shard i act =>
    rw [next]
    split
    · rename_i bound
      exact .shard i act bound
    · rename_i outside
      exact .idle fun bound => absurd bound outside

/-! ## Every interleaving -/

/-- Where every accepted descriptor is. -/
structure Sound (cfg : Config) (p : Sharded) : Prop where
  size : p.size = max 1 cfg.eventLoops
  shards : ∀ i, (p.shards i).Sound cfg
  accepted : p.accepted = p.pushed ++ p.main.hand
  turn : p.turn = p.pushed.length % p.size
  given : ∀ i, (p.shards i).inbox.box.sent = dealt p.size i p.pushed
  returned : p.main = .returned → ∀ i < p.size, (p.shards i).joined = true

theorem Sound.step (h : Sound cfg p) (step : Step cfg p act p') : Sound cfg p' := by
  cases step with
  | quiet tidy size shards turn accepted pushed hand returned =>
    refine ⟨size.trans h.size, fun i => ?_, ?_, ?_, fun i => ?_, fun ended i bound => ?_⟩
    · obtain ⟨stop, eq⟩ := shards i
      obtain ⟨queue, fed, batch, joined⟩ := h.shards i
      rw [eq]
      exact ⟨queue, fed, batch, joined⟩
    · rw [accepted, pushed, hand, h.accepted]
    · rw [turn, pushed, size, h.turn]
    · obtain ⟨stop, eq⟩ := shards i
      rw [eq, size, pushed]
      exact h.given i
    · obtain ⟨stop, eq⟩ := shards i
      rw [size] at bound
      rw [eq]
      rcases returned ended with before | joined
      · exact h.returned before i bound
      · exact joined i bound
  | accept answer fd main =>
    refine ⟨h.size, h.shards, ?_, h.turn, h.given, by simp⟩
    rw [h.accepted, main]
    simp [Main.hand]
  | push answer fd main =>
    have appended : ((p.shards p.turn).append cfg fd).inbox.box.sent = (p.shards p.turn).inbox.box.sent ++ [fd] := rfl
    refine ⟨h.size, ?_, ?_, ?_, ?_, by simp⟩
    · exact (Function.forall_update_iff p.shards fun _ s => s.Sound cfg).mpr
        ⟨(h.shards p.turn).append fd, fun i _ => h.shards i⟩
    · rw [h.accepted, main]
      simp [Main.hand]
    · simp only [h.turn, List.length_append, List.length_singleton, Nat.mod_add_mod]
    · refine (Function.forall_update_iff p.shards fun i s => s.inbox.box.sent = dealt p.size i (p.pushed ++ [fd])).mpr
        ⟨?_, fun i other => ?_⟩
      · rw [appended, dealt_concat, if_pos h.turn.symm, h.given]
      · rw [dealt_concat, if_neg (h.turn ▸ other.symm), List.append_nil, h.given]
  | write answer i main room =>
    have box : ((p.shards i).inbox.next .write).box = (p.shards i).inbox.box := by
      rw [Inbox.next]
      split <;> rfl
    obtain ⟨queue, fed, batch, joined⟩ := h.shards i
    refine ⟨h.size, ?_, ?_, h.turn, ?_, by simp⟩
    · exact (Function.forall_update_iff p.shards fun _ s => s.Sound cfg).mpr
        ⟨⟨by rw [box]; exact queue, by rw [box]; exact fed, batch, joined⟩, fun j _ => h.shards j⟩
    · rw [h.accepted, main]
      rfl
    · exact (Function.forall_update_iff p.shards fun j s => s.inbox.box.sent = dealt p.size j p.pushed).mpr
        ⟨by rw [box]; exact h.given i, fun j _ => h.given j⟩
  | shard i act bound =>
    refine ⟨h.size, ?_, h.accepted, h.turn, ?_, fun ended => ?_⟩
    · exact (Function.forall_update_iff p.shards fun _ s => s.Sound cfg).mpr
        ⟨(h.shards i).next act, fun j _ => h.shards j⟩
    · exact (Function.forall_update_iff p.shards fun j s => s.inbox.box.sent = dealt p.size j p.pushed).mpr
        ⟨by rw [Shard.next_sent]; exact h.given i, fun j _ => h.given j⟩
    · refine (Function.forall_update_iff p.shards fun j s => j < p.size → s.joined = true).mpr
        ⟨fun _ => ?_, fun j _ => h.returned ended j⟩
      have joined := h.returned ended i bound
      rwa [Shard.next_joined cfg joined]

/-- No shard has left anything behind. -/
def Clean (p : Sharded) : Prop := ∀ i < p.size, (p.shards i).Clean

theorem clean_update {i : Nat} {s : Shard} {extra : Prop} (bound : i < p.size)
    (here : s.Clean ↔ (p.shards i).Clean ∧ extra) :
    (∀ j < p.size, (Function.update p.shards i s j).Clean) ↔ p.Clean ∧ extra := by
  refine (Function.forall_update_iff p.shards fun j s => j < p.size → s.Clean).trans ?_
  constructor
  · intro ⟨clean, others⟩
    obtain ⟨before, extra⟩ := here.mp (clean bound)
    refine ⟨fun j there => ?_, extra⟩
    by_cases same : j = i
    · exact same ▸ before
    · exact others j same there
  · intro ⟨clean, extra⟩
    exact ⟨fun _ => here.mpr ⟨clean i bound, extra⟩, fun j _ there => clean j there⟩

/-- **A step leaves something behind exactly if it is not tidy.** -/
theorem Sound.clean_step (h : Sound cfg p) (step : Step cfg p act p') : p'.Clean ↔ p.Clean ∧ p.Tidy act := by
  cases step with
  | quiet tidy size shards =>
    refine Iff.trans ?_ (and_iff_left tidy).symm
    unfold Clean
    rw [size]
    refine forall_congr' fun i => imp_congr_right fun _ => ?_
    obtain ⟨stop, eq⟩ := shards i
    rw [eq]
    exact Shard.clean_congr rfl fun _ => rfl
  | accept answer fd main =>
    have tidy : p.Tidy (.main answer) := by simp only [Tidy, main]
    exact (and_iff_left tidy).symm
  | push answer fd main =>
    have bound : p.turn < p.size := h.turn ▸ Nat.mod_lt _ (by have := h.size; omega)
    have tidy : p.Tidy (.main answer) ↔ (p.shards p.turn).loop.stopping = false := by simp only [Tidy, main]
    rw [tidy]
    exact clean_update bound (Shard.clean_append cfg _ fd)
  | write answer i main room =>
    have tidy : p.Tidy (.main answer) := by simp only [Tidy, main]
    refine Iff.trans ?_ (and_iff_left tidy).symm
    refine forall_congr' fun j => imp_congr_right fun _ => ?_
    have loop : (Function.update p.shards i { p.shards i with inbox := (p.shards i).inbox.next .write } j).loop =
        (p.shards j).loop := by
      by_cases same : j = i
      · rw [same, Function.update_self]
      · rw [Function.update_of_ne same]
    exact Shard.clean_congr (congrArg Loop.stopping loop) fun _ => congrArg Loop.queue loop
  | shard i act bound =>
    refine (clean_update bound ((h.shards i).clean_next act)).trans ?_
    exact and_congr_right' ⟨fun extra _ => extra, fun tidy => tidy bound⟩

theorem sound_start (cfg : Config) (opened : Finset Nat) (entrance : Nat → Nat) (room : Nat) :
    Sound cfg (start cfg opened entrance room) where
  size := by
    change (if cfg.eventLoops = 0 then 1 else cfg.eventLoops) = _
    split <;> omega
  shards := by
    intro i
    have unlistened (reg : Reg) : (Loop.start cfg opened (entrance i) true).kq reg ≠ some .listener := by
      by_cases same : reg = (entrance i, false)
      · simp [Loop.start, same]
      · simp [Loop.start, same]
    exact ⟨rfl, ⟨.start cfg opened, rfl, unlistened⟩, fun _ => List.not_mem_nil, nofun⟩
  accepted := rfl
  turn := (Nat.zero_mod _).symm
  given := fun _ => rfl
  returned := nofun

theorem sound_run (cfg : Config) (opened : Finset Nat) (entrance : Nat → Nat) (room : Nat) (acts : List Act) :
    Sound cfg (run (next cfg) (start cfg opened entrance room) acts) :=
  run_invariant (fun p act h => h.step (next_step cfg p act)) (sound_start cfg opened entrance room) acts

/-- A run leaves something behind exactly if one of its steps does. -/
theorem Sound.clean_run (h : Sound cfg p) (acts : List Act) :
    (run (next cfg) p acts).Clean ↔ p.Clean ∧ Legal Tidy (next cfg) p acts := by
  induction acts generalizing p with
  | nil => exact (and_iff_left trivial).symm
  | cons act acts ih =>
    have step := next_step cfg p act
    rw [run_cons, ih (h.step step), h.clean_step step, Legal, and_assoc]

/-- Once `run` has returned, every descriptor was adopted exactly if none was left behind. -/
theorem Sound.adopted_iff (h : Sound cfg p) (returned : p.main = .returned) :
    (∀ i < p.size, (p.shards i).inbox.box.taken = dealt p.size i p.accepted) ↔ p.Clean := by
  have all : p.accepted = p.pushed := by
    rw [h.accepted, returned]
    exact List.append_nil _
  refine forall_congr' fun i => imp_congr_right fun bound => ?_
  have left := (h.shards i).joined (h.returned returned i bound)
  rw [all, ← h.given i, ← Mailbox.order, List.self_eq_append_right, ← (h.shards i).queue]
  exact ⟨fun empty _ => empty, fun clean => clean left⟩

end Sharded

/-- **The hand-off to the shards.** The `k`-th descriptor goes to inbox `k mod N`, and each inbox feeds one connection
for each descriptor taken from it. When `run` has returned, every accepted descriptor has been adopted by its shard
exactly if no loop was left with a full inbox and nothing was pushed to a loop that had been left. -/
theorem sharded_handoff (cfg : Config) (opened : Finset Nat) (entrance : Nat → Nat) (room : Nat)
    (acts : List Sharded.Act) :
    let p := run (Sharded.next cfg) (Sharded.start cfg opened entrance room) acts
    p.size = max 1 cfg.eventLoops ∧ p.accepted = p.pushed ++ p.main.hand ∧
    (∀ i < p.size,
      (p.shards i).inbox.box.sent = dealt p.size i p.pushed ∧
      (p.shards i).inbox.box.taken ++ (p.shards i).inbox.box.waiting = (p.shards i).inbox.box.sent ∧
      Roster cfg (p.shards i).inbox.box.taken (p.shards i).loop.proxy) ∧
    (p.main = .returned →
      ((∀ i < p.size, (p.shards i).inbox.box.taken = dealt p.size i p.accepted) ↔
        Legal Sharded.Tidy (Sharded.next cfg) (Sharded.start cfg opened entrance room) acts)) := by
  have h := Sharded.sound_run cfg opened entrance room acts
  refine ⟨h.size, h.accepted, fun i _ => ⟨h.given i, Mailbox.order _, (h.shards i).fed.roster⟩, fun returned => ?_⟩
  have clean := (Sharded.sound_start cfg opened entrance room).clean_run acts
  rw [h.adopted_iff returned, clean]
  exact and_iff_right fun _ _ _ => rfl

/-- One connection is accepted and pushed; then the signal comes, and no shard looks at its inbox again. -/
def stranding : List Sharded.Act :=
  [.main none, .main (some 7), .main none, .main none, .main none, .signal, .signal, .signal,
    .main none, .main none, .main none, .main none, .shard 0 (.leave false), .shard 0 .exit,
    .shard 1 (.leave false), .shard 1 .exit, .main none]

theorem sharded_handoff_stranded :
    let p := run (Sharded.next { eventLoops := 2 }) (Sharded.start { eventLoops := 2 } {} (fun i => i) 1) stranding
    p.main = .returned ∧ p.accepted = [7] ∧ (p.shards 0).inbox.box.taken = [] ∧
      (p.shards 0).inbox.box.waiting = [7] := by
  decide +kernel

end EvProxy
