import EvProxy.Crew
import EvProxy.Backend.ConnQueue
import EvProxy.Proxy.Roster

/-!
# The thread pool (`backend/thread_pool.cpp`)

The main thread accepts, pushes, and at the end closes the queue and joins; each
worker pops, makes a `Connection`, serves it to its end, and pops again. The
threads take their steps in any order. `Step` lists what a step can do;
`Pool.Sound` counts every accepted descriptor: dropped, in the hands of the main
thread, queued, popped by a worker, served, or finished.
-/

namespace EvProxy
open Runs Crew

/-- An accepted connection: which one it was, and its descriptor. -/
structure Ticket where
  seq : Nat
  fd : Nat
  deriving DecidableEq

namespace Pool

/-- Where the main thread is in `run` and `accept_loop`. -/
inductive Main where
  | testing
  | accepting
  | pushing (t : Ticket)
  /-- The push timed out; the stop flag is next. -/
  | retrying (t : Ticket)
  | returned
  | joining
  | joined
  deriving DecidableEq

/-- The descriptor in the main thread's hands. -/
def Main.hand : Main → List Ticket
  | .pushing t | .retrying t => [t]
  | _ => []

/-- The queue has been closed. -/
def Main.closing : Main → Bool
  | .joining | .joined => true
  | _ => false

/-- Where a worker is in `worker_loop`. -/
inductive Worker where
  | popping
  | popped (t : Ticket)
  | serving (t : Ticket) (key : Nat)
  | exited
  deriving DecidableEq

/-- A descriptor popped and not yet a connection. -/
def Worker.fresh : Worker → List Ticket
  | .popped t => [t]
  | _ => []

def Worker.served : Worker → List Ticket
  | .serving t _ => [t]
  | _ => []

/-- The connection a worker has. -/
def Worker.charge : Worker → Option Nat
  | .serving _ key => some key
  | _ => none

end Pool

/-- The pool; `proxy` has the connections, and the lists record what became of the descriptors. -/
structure Pool where
  proxy : Proxy
  queue : ConnQueue Ticket
  /-- The number of workers. -/
  size : Nat
  stop : Bool := false
  main : Pool.Main := .testing
  workers : Nat → Pool.Worker := fun _ => .popping
  nextId : Nat := 0
  accepted : List Ticket := []
  dropped : List Ticket := []
  built : List Ticket := []
  finished : List Ticket := []

namespace Pool

/-- Whose step is next, and what it meets: a new connection for `accept_one`
(`none`: nothing came, or it failed), the timeout of `push_for`, a round of serving. -/
inductive Act where
  | signal
  | main (accepted : Option Nat) (fired : Bool)
  | worker (i : Nat) (wait : Wait)

def start (cfg : Config) (opened : Finset Nat) : Pool where
  proxy := .start cfg opened
  queue := .make cfg.jobQueueCapacity
  size := if cfg.threadPoolSize = 0 then 1 else cfg.threadPoolSize

/-- The main thread lets go of a descriptor. -/
def drop (cfg : Config) (p : Pool) (t : Ticket) : Pool :=
  { p with main := .returned, dropped := p.dropped ++ [t], proxy := p.proxy.next cfg (.closes t.fd) }

/-- The next step of the main thread. -/
def mainNext (cfg : Config) (p : Pool) (accepted : Option Nat) (fired : Bool) : Pool :=
  match p.main with
  | .testing => { p with main := if p.stop then .returned else .accepting }
  | .accepting =>
    match accepted with
    | none => { p with main := .testing }
    | some fd =>
      { p with
        main := .pushing ⟨p.accepted.length, fd⟩
        accepted := p.accepted ++ [⟨p.accepted.length, fd⟩]
        proxy := p.proxy.next cfg (.opens fd) }
  | .pushing t =>
    match p.queue.pushFor t fired with
    | none => p
    | some (.pushed, _, q) => { p with queue := q, main := .testing }
    | some (.closed, _, _) => p.drop cfg t
    | some (.timedOut, _, _) => { p with main := .retrying t }
  | .retrying t => if p.stop then p.drop cfg t else { p with main := .pushing t }
  | .returned => { p with queue := p.queue.close, main := .joining }
  | .joining => if ∀ i < p.size, p.workers i = .exited then { p with main := .joined } else p
  | .joined => p

/-- The next step of worker `i`. -/
def workerNext (cfg : Config) (p : Pool) (i : Nat) (wait : Wait) : Pool :=
  match p.workers i with
  | .popping =>
    match p.queue.pop with
    | none => p
    | some (none, _) => { p with workers := Function.update p.workers i .exited }
    | some (some t, q) => { p with queue := q, workers := Function.update p.workers i (.popped t) }
  | .popped t =>
    { p with
      workers := Function.update p.workers i (.serving t p.nextId)
      nextId := p.nextId + 1
      built := p.built ++ [t]
      proxy := p.proxy.next cfg (.adopt p.nextId t.fd p.nextId) }
  | .serving t key =>
    match p.proxy.serveOnce cfg key wait with
    | (true, proxy) => { p with proxy := proxy }
    | (false, proxy) =>
      { p with proxy := proxy, workers := Function.update p.workers i .popping, finished := p.finished ++ [t] }
  | .exited => p

def next (cfg : Config) (p : Pool) : Act → Pool
  | .signal => { p with stop := true }
  | .main accepted fired => p.mainNext cfg accepted fired
  | .worker i wait => if i < p.size then p.workerNext cfg i wait else p

/-- Everything a step can do. -/
inductive Step (cfg : Config) (p : Pool) : Pool → Prop where
  | idle : Step cfg p p
  | signal : Step cfg p { p with stop := true }
  /-- The main thread moves on with what it has in hand. -/
  | turn (main : Main) (hand : main.hand = p.main.hand) (before : p.main.closing = false)
      (after : main.closing = false) : Step cfg p { p with main := main }
  | accept (fd : Nat) (main : p.main = .accepting) :
      Step cfg p { p with
        main := .pushing ⟨p.accepted.length, fd⟩
        accepted := p.accepted ++ [⟨p.accepted.length, fd⟩]
        proxy := p.proxy.next cfg (.opens fd) }
  | push (t : Ticket) (q : ConnQueue Ticket) (main : p.main = .pushing t) (box : q.box = p.queue.box.send t)
      (capacity : q.capacity = p.queue.capacity) (closed : q.closed = p.queue.closed) :
      Step cfg p { p with queue := q, main := .testing }
  | drop (t : Ticket) (hand : p.main.hand = [t]) : Step cfg p (p.drop cfg t)
  | close (main : p.main = .returned) : Step cfg p { p with queue := p.queue.close, main := .joining }
  | join (main : p.main = .joining) (all : ∀ i < p.size, p.workers i = .exited) : Step cfg p { p with main := .joined }
  | pop (i : Nat) (t : Ticket) (q : ConnQueue Ticket) (bound : i < p.size) (here : p.workers i = .popping)
      (returned : p.queue.pop = some (some t, q)) :
      Step cfg p { p with queue := q, workers := Function.update p.workers i (.popped t) }
  | exit (i : Nat) (bound : i < p.size) (here : p.workers i = .popping) (closed : p.queue.closed = true)
      (empty : p.queue.box.waiting = []) : Step cfg p { p with workers := Function.update p.workers i .exited }
  | build (i : Nat) (t : Ticket) (bound : i < p.size) (here : p.workers i = .popped t) :
      Step cfg p { p with
        workers := Function.update p.workers i (.serving t p.nextId)
        nextId := p.nextId + 1
        built := p.built ++ [t]
        proxy := p.proxy.next cfg (.adopt p.nextId t.fd p.nextId) }
  | serve (i : Nat) (t : Ticket) (key : Nat) (wait : Wait) (bound : i < p.size) (here : p.workers i = .serving t key)
      (again : (p.proxy.serveOnce cfg key wait).1 = true) :
      Step cfg p { p with proxy := (p.proxy.serveOnce cfg key wait).2 }
  | finish (i : Nat) (t : Ticket) (key : Nat) (wait : Wait) (bound : i < p.size) (here : p.workers i = .serving t key)
      (ended : (p.proxy.serveOnce cfg key wait).1 = false) :
      Step cfg p { p with
        proxy := (p.proxy.serveOnce cfg key wait).2
        workers := Function.update p.workers i .popping
        finished := p.finished ++ [t] }

theorem mainNext_step (cfg : Config) (p : Pool) (accepted : Option Nat) (fired : Bool) :
    Step cfg p (p.mainNext cfg accepted fired) := by
  unfold mainNext
  split
  · rename_i main
    exact .turn _ (by rw [main]; split <;> rfl) (by rw [main]; rfl) (by split <;> rfl)
  · rename_i main
    cases accepted with
    | none => exact .turn _ (by rw [main]; rfl) (by rw [main]; rfl) rfl
    | some fd => exact .accept fd main
  · rename_i t main
    split
    · exact .idle
    · rename_i returned
      rcases ConnQueue.pushFor_cases returned with ⟨-, -, running, box, closed, capacity⟩ | ⟨other, -⟩
      · exact .push t _ main box capacity (closed.trans running.symm)
      · exact absurd rfl other
    · exact .drop t (by rw [main]; rfl)
    · exact .turn _ (by rw [main]; rfl) (by rw [main]; rfl) rfl
  · rename_i t main
    split
    · exact .drop t (by rw [main]; rfl)
    · exact .turn _ (by rw [main]; rfl) (by rw [main]; rfl) rfl
  · rename_i main
    exact .close main
  · rename_i main
    split
    · rename_i all
      exact .join main all
    · exact .idle
  · exact .idle

theorem workerNext_step (cfg : Config) (p : Pool) {i : Nat} (bound : i < p.size) (wait : Wait) :
    Step cfg p (p.workerNext cfg i wait) := by
  unfold workerNext
  split
  · rename_i here
    split
    · exact .idle
    · rename_i returned
      obtain ⟨closed, empty, -⟩ := ConnQueue.pop_none returned
      exact .exit i bound here closed empty
    · rename_i t q returned
      exact .pop i t q bound here returned
  · rename_i t here
    exact .build i t bound here
  · rename_i t key here
    split
    · rename_i proxy round
      obtain ⟨again, rfl⟩ := Prod.mk.inj round.symm
      exact .serve i t key wait bound here again.symm
    · rename_i proxy round
      obtain ⟨ended, rfl⟩ := Prod.mk.inj round.symm
      exact .finish i t key wait bound here ended.symm
  · exact .idle

theorem next_step (cfg : Config) (p : Pool) (act : Act) : Step cfg p (p.next cfg act) := by
  cases act with
  | signal => exact .signal
  | main accepted fired => exact mainNext_step cfg p accepted fired
  | worker i wait =>
    rw [next]
    split
    · rename_i bound
      exact workerNext_step cfg p bound wait
    · exact .idle

variable {cfg : Config} {p p' : Pool}

/-! ## Every descriptor is accounted for -/

/-- Weighed in any way: accepted is dropped, in hand or pushed; popped is built or
about to be; built is finished or being served. -/
structure Counted (p : Pool) : Prop where
  arrived : ∀ w, mass w p.accepted = mass w p.dropped + mass w p.main.hand + mass w p.queue.box.sent
  popped : ∀ w, mass w p.queue.box.taken = mass w p.built + carried w Worker.fresh p.workers p.size
  built : ∀ w, mass w p.built = mass w p.finished + carried w Worker.served p.workers p.size

/-- A worker moves on: what it puts down is where it ought to be. -/
theorem Counted.worker (h : Counted p) {i : Nat} (bound : i < p.size) {old : Worker} (here : p.workers i = old)
    (new : Worker) {proxy : Proxy} {q : ConnQueue Ticket} {nextId : Nat} {built finished : List Ticket}
    (sent : q.box.sent = p.queue.box.sent)
    (popped : ∀ w, mass w q.box.taken + mass w p.built + mass w old.fresh =
      mass w p.queue.box.taken + mass w built + mass w new.fresh)
    (served : ∀ w, mass w built + mass w p.finished + mass w old.served =
      mass w p.built + mass w finished + mass w new.served) :
    Counted { p with
      proxy := proxy, queue := q, nextId := nextId, built := built, finished := finished
      workers := Function.update p.workers i new } := by
  subst here
  refine ⟨fun w => by rw [sent]; exact h.arrived w, fun w => ?_, fun w => ?_⟩
  · have moved : carried w Worker.fresh (Function.update p.workers i new) p.size + _ = _ := carried_update bound new
    have := h.popped w
    have := popped w
    dsimp only
    omega
  · have moved : carried w Worker.served (Function.update p.workers i new) p.size + _ = _ := carried_update bound new
    have := h.built w
    have := served w
    dsimp only
    omega

theorem Counted.step (h : Counted p) (step : Step cfg p p') : Counted p' := by
  cases step with
  | idle => exact h
  | signal => exact ⟨h.arrived, h.popped, h.built⟩
  | turn main hand => exact ⟨fun w => by rw [hand]; exact h.arrived w, h.popped, h.built⟩
  | accept fd main =>
    refine ⟨fun w => ?_, h.popped, h.built⟩
    have := h.arrived w
    simp only [main, Main.hand, mass_append, mass_cons, mass_nil] at this ⊢
    omega
  | push t q main box =>
    refine ⟨fun w => ?_, fun w => ?_, h.built⟩
    · have := h.arrived w
      simp only [main, box, Main.hand, Mailbox.send_sent, mass_append, mass_cons, mass_nil] at this ⊢
      omega
    · rw [box, Mailbox.send_taken]
      exact h.popped w
  | drop t hand =>
    refine ⟨fun w => ?_, h.popped, h.built⟩
    have := h.arrived w
    rw [hand] at this
    simp only [Pool.drop, Main.hand, mass_append, mass_cons, mass_nil] at this ⊢
    omega
  | close main =>
    refine ⟨fun w => ?_, h.popped, h.built⟩
    have := h.arrived w
    rwa [main] at this
  | join main =>
    refine ⟨fun w => ?_, h.popped, h.built⟩
    have := h.arrived w
    rwa [main] at this
  | pop i t q bound here returned =>
    obtain ⟨-, taken, sent, -, -⟩ := ConnQueue.pop_some returned
    exact h.worker bound here _ sent (fun w => by simp [taken, Worker.fresh]; omega) fun w => rfl
  | exit i bound here => exact h.worker bound here _ rfl (fun w => rfl) fun w => rfl
  | build i t bound here =>
    exact h.worker bound here _ rfl (fun w => by simp [Worker.fresh]; omega) fun w => by simp [Worker.served]; omega
  | serve => exact ⟨h.arrived, h.popped, h.built⟩
  | finish i t key wait bound here =>
    exact h.worker bound here _ rfl (fun w => rfl) fun w => by simp [Worker.served]; omega

theorem seq_accepted (h : p.accepted.map Ticket.seq = List.range p.accepted.length) (step : Step cfg p p') :
    p'.accepted.map Ticket.seq = List.range p'.accepted.length := by
  cases step with
  | accept fd main => simp [h, List.range_succ]
  | _ => exact h

/-! ## Closing and joining -/

/-- The queue is closed by `run` alone, and a worker leaves only a closed and empty queue. -/
structure Shut (p : Pool) : Prop where
  closed : p.queue.closed = p.main.closing
  exited : ∀ i < p.size, p.workers i = .exited → p.main.closing = true ∧ p.queue.box.waiting = []
  joined : p.main = .joined → ∀ i < p.size, p.workers i = .exited

/-- The main thread moves before the queue is closed: no worker has left yet. -/
theorem Shut.running (h : Shut p) (before : p.main.closing = false) (workers : p'.workers = p.workers)
    (size : p'.size = p.size) (closed : p'.queue.closed = p.queue.closed) (after : p'.main.closing = false) :
    Shut p' where
  closed := by rw [closed, h.closed, before, after]
  exited := by
    intro i bound out
    rw [size] at bound
    rw [workers] at out
    rw [(h.exited i bound out).1] at before
    cases before
  joined := by
    intro joined
    rw [joined] at after
    cases after

/-- A worker moves that has not left. -/
theorem Shut.worker (h : Shut p) {i : Nat} (bound : i < p.size) (here : p.workers i ≠ .exited) {new : Worker}
    (workers : p'.workers = Function.update p.workers i new) (size : p'.size = p.size) (main : p'.main = p.main)
    (closed : p'.queue.closed = p.queue.closed)
    (waiting : p.queue.box.waiting = [] → p'.queue.box.waiting = [])
    (out : new = .exited → p.queue.closed = true ∧ p.queue.box.waiting = []) : Shut p' where
  closed := by rw [closed, main, h.closed]
  exited := by
    intro j bound' gone
    rw [size] at bound'
    rw [workers] at gone
    rw [main]
    by_cases same : j = i
    · subst same
      rw [Function.update_self] at gone
      obtain ⟨closed, empty⟩ := out gone
      exact ⟨h.closed ▸ closed, waiting empty⟩
    · rw [Function.update_of_ne same] at gone
      obtain ⟨closing, empty⟩ := h.exited j bound' gone
      exact ⟨closing, waiting empty⟩
  joined := by
    intro joined
    rw [main] at joined
    exact absurd (h.joined joined i bound) here

theorem Shut.step (h : Shut p) (step : Step cfg p p') : Shut p' := by
  have empty {i : Nat} {w : Worker} (here : p.workers i = w) (staying : w ≠ .exited) : p.workers i ≠ .exited := by
    rw [here]
    exact staying
  cases step with
  | idle => exact h
  | signal => exact ⟨h.closed, h.exited, h.joined⟩
  | turn main hand before after => exact h.running before rfl rfl rfl after
  | accept fd main => exact h.running (by rw [main]; rfl) rfl rfl rfl rfl
  | push t q main box capacity closed => exact h.running (by rw [main]; rfl) rfl rfl closed rfl
  | drop t hand =>
    have before : p.main.closing = false := by
      cases main : p.main <;> simp [main, Main.hand, Main.closing] at hand ⊢
    exact h.running before rfl rfl rfl rfl
  | close main =>
    have before : p.main.closing = false := by rw [main]; rfl
    refine ⟨rfl, fun i bound out => ?_, nofun⟩
    rw [(h.exited i bound out).1] at before
    cases before
  | join main all =>
    exact ⟨by rw [h.closed, main]; rfl, fun i bound out => ⟨rfl, (h.exited i bound out).2⟩, fun _ => all⟩
  | pop i t q bound here returned =>
    obtain ⟨waiting, -, -, closed, -⟩ := ConnQueue.pop_some returned
    exact h.worker bound (empty here nofun) rfl rfl rfl closed (fun none => by simp [none] at waiting) nofun
  | exit i bound here closed none =>
    exact h.worker bound (empty here nofun) rfl rfl rfl rfl id fun _ => ⟨closed, none⟩
  | build i t bound here => exact h.worker bound (empty here nofun) rfl rfl rfl rfl id nofun
  | serve => exact ⟨h.closed, h.exited, h.joined⟩
  | finish i t key wait bound here => exact h.worker bound (empty here nofun) rfl rfl rfl rfl id nofun

/-! ## The connections and the workers that serve them -/

/-- The connections are those built, and the ones that exist are those the workers serve. -/
structure Manned (cfg : Config) (p : Pool) : Prop where
  roster : Roster cfg (p.built.map Ticket.fd) p.proxy
  nextId : p.nextId = (p.built.map Ticket.fd).length
  matched : Matched Worker.charge p.size p.workers p.proxy.Exists

theorem Manned.step (h : Manned cfg p) (step : Step cfg p p') : Manned cfg p' := by
  cases step with
  | idle => exact h
  | signal => exact ⟨h.roster, h.nextId, h.matched⟩
  | turn => exact ⟨h.roster, h.nextId, h.matched⟩
  | accept => exact ⟨h.roster.congr rfl, h.nextId, h.matched⟩
  | push => exact ⟨h.roster, h.nextId, h.matched⟩
  | drop => exact ⟨h.roster.congr rfl, h.nextId, h.matched⟩
  | close => exact ⟨h.roster, h.nextId, h.matched⟩
  | join => exact ⟨h.roster, h.nextId, h.matched⟩
  | pop i t q bound here => exact ⟨h.roster, h.nextId, h.matched.keep (by rw [here]; rfl) fun _ => Iff.rfl⟩
  | exit i bound here => exact ⟨h.roster, h.nextId, h.matched.keep (by rw [here]; rfl) fun _ => Iff.rfl⟩
  | build i t bound here =>
    have unused : p.proxy.entries p.nextId = none := by
      rw [h.nextId]
      exact h.roster.unused
    have absent : ¬ p.proxy.Exists p.nextId := by
      rintro ⟨s, there⟩
      rw [unused] at there
      cases there
    refine ⟨?_, by simp [h.nextId], h.matched.acquire bound (by rw [here]; rfl) absent rfl fun _ =>
      Proxy.exists_adopt cfg unused t.fd p.nextId⟩
    rw [List.map_append, h.nextId]
    exact h.roster.adopt t.fd
  | serve i t key wait bound here again =>
    have alive := h.matched.live i bound key (by rw [here]; rfl)
    rcases Proxy.serveOnce_cases cfg alive wait with ⟨a, round⟩ | round
    · rw [round]
      exact ⟨h.roster.ready alive a, h.nextId, h.matched.congr (fun _ _ => rfl) fun _ => Proxy.exists_ready cfg alive a⟩
    · rw [round] at again
      cases again
  | finish i t key wait bound here ended =>
    have charge : (p.workers i).charge = some key := by rw [here]; rfl
    have alive := h.matched.live i bound key charge
    rcases Proxy.serveOnce_cases cfg alive wait with ⟨a, round⟩ | round
    · rw [round] at ended
      cases ended
    · rw [round]
      exact ⟨h.roster.destroy alive wait.lastRef, h.nextId,
        h.matched.release bound charge rfl fun _ => Proxy.exists_destroy cfg alive wait.lastRef⟩

/-! ## Every interleaving -/

structure Sound (cfg : Config) (p : Pool) : Prop where
  size : p.size = max 1 cfg.threadPoolSize
  capacity : p.queue.capacity = max 1 cfg.jobQueueCapacity
  seq : p.accepted.map Ticket.seq = List.range p.accepted.length
  counted : Counted p
  shut : Shut p
  manned : Manned cfg p

theorem sound_start (cfg : Config) (opened : Finset Nat) : Sound cfg (start cfg opened) where
  size := by
    change (if cfg.threadPoolSize = 0 then 1 else cfg.threadPoolSize) = _
    split <;> omega
  capacity := ConnQueue.make_capacity _
  seq := rfl
  counted := by
    have idle (w : Ticket → Nat) (hold : Worker → List Ticket) (none : hold .popping = []) (n : Nat) :
        carried w hold (fun _ => .popping) n = 0 := carried_eq_zero fun _ _ => none
    refine ⟨fun w => rfl, fun w => ?_, fun w => ?_⟩
    · exact (Nat.zero_add _).symm ▸ (idle w Worker.fresh rfl _).symm
    · exact (Nat.zero_add _).symm ▸ (idle w Worker.served rfl _).symm
  shut := ⟨rfl, fun _ _ => nofun, nofun⟩
  manned := ⟨.start cfg opened, rfl, matched_none (fun _ _ => rfl) (Proxy.not_exists_start cfg opened)⟩

theorem Sound.step (h : Sound cfg p) (step : Step cfg p p') : Sound cfg p' where
  size := by cases step <;> exact h.size
  capacity := by
    cases step with
    | push t q main box capacity => exact capacity.trans h.capacity
    | pop i t q bound here returned => exact (ConnQueue.pop_some returned).2.2.2.2.trans h.capacity
    | _ => exact h.capacity
  seq := seq_accepted h.seq step
  counted := h.counted.step step
  shut := h.shut.step step
  manned := h.manned.step step

theorem sound_run (cfg : Config) (opened : Finset Nat) (acts : List Act) :
    Sound cfg (run (next cfg) (start cfg opened) acts) :=
  run_invariant (fun p act h => h.step (next_step cfg p act)) (sound_start cfg opened) acts

/-- A worker holds one descriptor at most. -/
theorem carried_workers (workers : Nat → Worker) (n : Nat) :
    carried (fun _ => 1) Worker.fresh workers n + carried (fun _ => 1) Worker.served workers n ≤ n := by
  rw [← carried_append]
  apply carried_le
  intro i _
  cases workers i <;> simp [Worker.fresh, Worker.served]

theorem Main.hand_le (m : Main) : m.hand.length ≤ 1 := by
  cases m <;> simp [hand]

/-- The descriptors that are neither finished nor dropped. -/
theorem Sound.unfinished (h : Sound cfg p) :
    p.accepted.length ≤
      p.finished.length + p.dropped.length + (max 1 cfg.threadPoolSize + max 1 cfg.jobQueueCapacity + 1) := by
  have arrived := h.counted.arrived fun _ => 1
  have popped := h.counted.popped fun _ => 1
  have built := h.counted.built fun _ => 1
  simp only [mass_one] at arrived popped built
  have order := congrArg List.length p.queue.box.order
  rw [List.length_append] at order
  have hand := p.main.hand_le
  have room := p.queue.room
  have workers := carried_workers p.workers p.size
  have := h.size
  have := h.capacity
  omega

/-- Once the workers are joined, what was pushed is what was built. -/
theorem Sound.joined (h : Sound cfg p) (joined : p.main = .joined) : p.built.Perm p.queue.box.sent := by
  have out := h.shut.joined joined
  have some_worker : 0 < p.size := by
    have := h.size
    omega
  have empty := (h.shut.exited 0 some_worker (out 0 some_worker)).2
  have idle (w : Ticket → Nat) : carried w Worker.fresh p.workers p.size = 0 :=
    carried_eq_zero fun i bound => by rw [out i bound]; rfl
  apply perm_of_mass
  intro w
  have popped := h.counted.popped w
  rw [Mailbox.taken_eq_sent empty, idle w] at popped
  exact popped.symm

theorem Sound.nodup (h : Sound cfg p) : p.queue.box.sent.Nodup := by
  have different : p.accepted.Nodup := by
    apply List.Nodup.of_map Ticket.seq
    rw [h.seq]
    exact List.nodup_range
  apply nodup_of_mass (fun w => ?_) different
  have arrived := h.counted.arrived w
  omega

end Pool

/-- **Bounded queue and pool accounting.** -/
theorem pool_accounting :
    (∀ (α : Type) (capacity : Nat) (calls : List (ConnQueue.Call α)),
      let l := run ConnQueue.Log.next ⟨.make capacity, []⟩ calls
      l.queue.box.waiting.length ≤ max 1 capacity ∧
      ConnQueue.pops l.returns ++ l.queue.box.waiting = ConnQueue.pushes l.returns ∧
      Each ConnQueue.Justified l.returns) ∧
    (∀ (cfg : Config) (opened : Finset Nat) (acts : List Pool.Act),
      let p := run (Pool.next cfg) (Pool.start cfg opened) acts
      (∀ keys : Finset Nat, (∀ key ∈ keys, p.proxy.Exists key) → keys.card ≤ max 1 cfg.threadPoolSize) ∧
      p.accepted.length ≤
        p.finished.length + p.dropped.length + (max 1 cfg.threadPoolSize + max 1 cfg.jobQueueCapacity + 1) ∧
      Roster cfg (p.built.map Ticket.fd) p.proxy ∧
      (p.main = .joined → p.built.Perm p.queue.box.sent ∧ p.built.Nodup)) := by
  constructor
  · intro α capacity calls
    have sound := ConnQueue.sound_run capacity calls
    refine ⟨sound.capacity ▸ ConnQueue.room _, ?_, sound.justified⟩
    rw [← sound.taken, ← sound.sent]
    exact Mailbox.order _
  · intro cfg opened acts
    have sound := Pool.sound_run cfg opened acts
    refine ⟨fun keys all => sound.size ▸ sound.manned.matched.card_le all, sound.unfinished, sound.manned.roster,
      fun joined => ?_⟩
    have perm := sound.joined joined
    exact ⟨perm, perm.nodup_iff.mpr sound.nodup⟩

/-- One worker, one connection, and an orderly end. -/
def oneVisit : List Pool.Act :=
  [.main none false, .main (some 5) false, .main none false, .worker 0 {}, .worker 0 {}, .worker 0 {}, .signal,
    .main none false, .main none false, .worker 0 {}, .main none false]

theorem pool_accounting_one_visit :
    let p := run (Pool.next { threadPoolSize := 1 }) (Pool.start { threadPoolSize := 1 } {}) oneVisit
    p.main = .joined ∧ p.queue.box.sent = [⟨0, 5⟩] ∧ p.built.Perm p.queue.box.sent := by
  intro p
  have joined : p.main = .joined := by decide +kernel
  exact ⟨joined, by decide +kernel, ((pool_accounting.2 _ _ oneVisit).2.2.2 joined).1⟩

end EvProxy
