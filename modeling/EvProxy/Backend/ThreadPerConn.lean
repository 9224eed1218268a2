import EvProxy.Crew
import EvProxy.Proxy.Roster

/-!
# One thread per connection (`backend/thread_per_conn.cpp`)

The main thread counts a connection in `live_`, then starts a detached thread
for it; the thread takes it off the count after its `Connection` is gone. At the
end the main thread polls the count, for 30 seconds at most. `shutdown_barrier`
is the barrier that the count gives when the polling ends by reading zero, and
`shutdown_barrier_overrun` what the time limit does to it.
-/

namespace EvProxy
open Runs Crew

namespace PerConn

/-- Where the main thread is in `run`. -/
inductive Main where
  | testing
  | accepting
  | accepted (fd : Nat)
  /-- `live_` has gone up, the thread is yet to be started. -/
  | counted (fd : Nat)
  | draining (waited : Nat)
  | returned
  deriving DecidableEq

/-- Where a thread is in `serve`; its connection has the number of the thread. -/
inductive Thread where
  | starting (fd : Nat)
  | serving
  /-- The connection is gone, the count is next. -/
  | destroyed
  | gone
  deriving DecidableEq

/-- What the count stands for. -/
def Thread.counts : Thread → List Unit
  | .gone => []
  | _ => [()]

def Main.counts : Main → List Unit
  | .counted _ => [()]
  | _ => []

end PerConn

structure PerConn where
  proxy : Proxy
  stop : Bool := false
  main : PerConn.Main := .testing
  threads : Nat → PerConn.Thread := fun _ => .gone
  /-- `next_id`: the threads started so far. -/
  spawned : Nat := 0
  live : Int := 0

namespace PerConn

inductive Act where
  | signal
  | main (accepted : Option Nat)
  | thread (i : Nat) (wait : Wait)

def start (cfg : Config) (opened : Finset Nat) : PerConn where
  proxy := .start cfg opened

def graceMs : Nat := 30000

def mainNext (cfg : Config) (p : PerConn) (accepted : Option Nat) : PerConn :=
  match p.main with
  | .testing => { p with main := if p.stop then .draining 0 else .accepting }
  | .accepting =>
    match accepted with
    | none => { p with main := .testing }
    | some fd => { p with main := .accepted fd, proxy := p.proxy.next cfg (.opens fd) }
  | .accepted fd => { p with main := .counted fd, live := p.live + 1 }
  | .counted fd =>
    { p with main := .testing, threads := Function.update p.threads p.spawned (.starting fd), spawned := p.spawned + 1 }
  | .draining waited =>
    { p with main := if 0 < p.live ∧ waited < graceMs then .draining (waited + 20) else .returned }
  | .returned => p

def threadNext (cfg : Config) (p : PerConn) (i : Nat) (wait : Wait) : PerConn :=
  match p.threads i with
  | .starting fd =>
    { p with threads := Function.update p.threads i .serving, proxy := p.proxy.next cfg (.adopt i fd i) }
  | .serving =>
    match p.proxy.serveOnce cfg i wait with
    | (true, proxy) => { p with proxy := proxy }
    | (false, proxy) => { p with proxy := proxy, threads := Function.update p.threads i .destroyed }
  | .destroyed => { p with threads := Function.update p.threads i .gone, live := p.live - 1 }
  | .gone => p

def next (cfg : Config) (p : PerConn) : Act → PerConn
  | .signal => { p with stop := true }
  | .main accepted => p.mainNext cfg accepted
  | .thread i wait => if i < p.spawned then p.threadNext cfg i wait else p

/-- Everything a step can do. -/
inductive Step (cfg : Config) (p : PerConn) : PerConn → Prop where
  | idle : Step cfg p p
  | signal : Step cfg p { p with stop := true }
  | turn (main : Main) (uncounted : p.main.counts = []) (counts : main.counts = [])
      (running : p.main ≠ .returned) (stays : main ≠ .returned) : Step cfg p { p with main := main }
  | accept (fd : Nat) (main : p.main = .accepting) :
      Step cfg p { p with main := .accepted fd, proxy := p.proxy.next cfg (.opens fd) }
  | count (fd : Nat) (main : p.main = .accepted fd) : Step cfg p { p with main := .counted fd, live := p.live + 1 }
  | spawn (fd : Nat) (main : p.main = .counted fd) :
      Step cfg p { p with
        main := .testing, threads := Function.update p.threads p.spawned (.starting fd), spawned := p.spawned + 1 }
  | leave (waited : Nat) (main : p.main = .draining waited) (ready : ¬ (0 < p.live ∧ waited < graceMs)) :
      Step cfg p { p with main := .returned }
  | build (i fd : Nat) (bound : i < p.spawned) (here : p.threads i = .starting fd) :
      Step cfg p { p with threads := Function.update p.threads i .serving, proxy := p.proxy.next cfg (.adopt i fd i) }
  | serve (i : Nat) (wait : Wait) (bound : i < p.spawned) (here : p.threads i = .serving)
      (again : (p.proxy.serveOnce cfg i wait).1 = true) :
      Step cfg p { p with proxy := (p.proxy.serveOnce cfg i wait).2 }
  | destroy (i : Nat) (wait : Wait) (bound : i < p.spawned) (here : p.threads i = .serving)
      (ended : (p.proxy.serveOnce cfg i wait).1 = false) :
      Step cfg p { p with
        proxy := (p.proxy.serveOnce cfg i wait).2, threads := Function.update p.threads i .destroyed }
  | uncount (i : Nat) (bound : i < p.spawned) (here : p.threads i = .destroyed) :
      Step cfg p { p with threads := Function.update p.threads i .gone, live := p.live - 1 }

theorem mainNext_step (cfg : Config) (p : PerConn) (accepted : Option Nat) : Step cfg p (p.mainNext cfg accepted) := by
  unfold mainNext
  split
  · rename_i main
    exact .turn _ (by rw [main]; rfl) (by split <;> rfl) (by rw [main]; nofun) (by split <;> nofun)
  · rename_i main
    cases accepted with
    | none => exact .turn _ (by rw [main]; rfl) rfl (by rw [main]; nofun) nofun
    | some fd => exact .accept fd main
  · rename_i fd main
    exact .count fd main
  · rename_i fd main
    exact .spawn fd main
  · rename_i waited main
    split
    · exact .turn _ (by rw [main]; rfl) rfl (by rw [main]; nofun) nofun
    · rename_i ready
      exact .leave waited main ready
  · exact .idle

theorem threadNext_step (cfg : Config) (p : PerConn) {i : Nat} (bound : i < p.spawned) (wait : Wait) :
    Step cfg p (p.threadNext cfg i wait) := by
  unfold threadNext
  split
  · rename_i fd here
    exact .build i fd bound here
  · rename_i here
    split
    · rename_i proxy round
      obtain ⟨again, rfl⟩ := Prod.mk.inj round.symm
      exact .serve i wait bound here again.symm
    · rename_i proxy round
      obtain ⟨ended, rfl⟩ := Prod.mk.inj round.symm
      exact .destroy i wait bound here ended.symm
  · rename_i here
    exact .uncount i bound here
  · exact .idle

theorem next_step (cfg : Config) (p : PerConn) (act : Act) : Step cfg p (p.next cfg act) := by
  cases act with
  | signal => exact .signal
  | main accepted => exact mainNext_step cfg p accepted
  | thread i wait =>
    rw [next]
    split
    · rename_i bound
      exact threadNext_step cfg p bound wait
    · exact .idle

variable {cfg : Config} {p p' : PerConn}

/-! ## The count and the connections -/

/-- The count is the number of threads started or about to be, and not gone. -/
def Tallied (p : PerConn) : Prop :=
  p.live = (carried (fun _ => 1) Thread.counts p.threads p.spawned + p.main.counts.length : Nat)

/-- A thread moves on and, perhaps, takes itself off the count. -/
theorem Tallied.thread (h : Tallied p) {i : Nat} (bound : i < p.spawned) (new : Thread) {live : Int}
    (moved : live + (p.threads i).counts.length = p.live + new.counts.length) {proxy : Proxy} :
    Tallied { p with proxy := proxy, threads := Function.update p.threads i new, live := live } := by
  have carried : carried (fun _ => 1) Thread.counts (Function.update p.threads i new) p.spawned + _ = _ :=
    carried_update bound new
  rw [mass_one, mass_one] at carried
  unfold Tallied at h ⊢
  dsimp only
  omega

theorem Tallied.step (h : Tallied p) (step : Step cfg p p') : Tallied p' := by
  cases step with
  | idle => exact h
  | signal => exact h
  | turn main uncounted counts =>
    unfold Tallied at h ⊢
    rw [counts]
    rwa [uncounted] at h
  | accept fd main =>
    unfold Tallied at h ⊢
    rwa [main] at h
  | count fd main =>
    unfold Tallied at h ⊢
    rw [main] at h
    simp only [Main.counts, List.length_nil, List.length_singleton] at h ⊢
    omega
  | spawn fd main =>
    unfold Tallied at h ⊢
    rw [main] at h
    rw [carried_succ]
    simp only [Main.counts, Thread.counts, mass_one, List.length_nil, List.length_singleton] at h ⊢
    omega
  | leave waited main =>
    unfold Tallied at h ⊢
    rwa [main] at h
  | build i fd bound here => exact h.thread bound _ (by rw [here]; rfl)
  | serve => exact h
  | destroy i wait bound here => exact h.thread bound _ (by rw [here]; rfl)
  | uncount i bound here => exact h.thread bound _ (by rw [here]; simp [Thread.counts])

/-- The connections that exist are those being served; a thread that starts has none yet. -/
structure Served (p : PerConn) : Prop where
  alive : ∀ i, p.proxy.Exists i ↔ i < p.spawned ∧ p.threads i = .serving
  unborn : ∀ i, (i < p.spawned → ∃ fd, p.threads i = .starting fd) → p.proxy.entries i = none

/-- A thread that has been started does something to its own connection. -/
theorem Served.thread (h : Served p) {i : Nat} (bound : i < p.spawned) {new : Thread} {proxy : Proxy} {live : Int}
    (others : ∀ j, j ≠ i → proxy.entries j = p.proxy.entries j) (here : proxy.Exists i ↔ new = .serving)
    (started : ∀ fd, new ≠ .starting fd) :
    Served { p with proxy := proxy, threads := Function.update p.threads i new, live := live } := by
  constructor
  · intro j
    by_cases same : j = i
    · subst same
      simp [bound, here]
    · have := h.alive j
      simpa [Proxy.Exists, others j same, same] using this
  · intro j unborn
    by_cases same : j = i
    · subst same
      obtain ⟨fd, eq⟩ := unborn bound
      exact absurd ((Function.update_self j new p.threads).symm.trans eq) (started fd)
    · rw [others j same]
      apply h.unborn j
      simpa [same] using unborn

theorem Served.step (h : Served p) (step : Step cfg p p') : Served p' := by
  have off {f : Nat → Option Entry} {e : Option Entry} {i : Nat} (j : Nat) (other : j ≠ i) :
      Function.update f i e j = f j := Function.update_of_ne other _ _
  cases step with
  | idle => exact h
  | signal => exact ⟨h.alive, h.unborn⟩
  | turn => exact ⟨h.alive, h.unborn⟩
  | accept => exact ⟨h.alive, h.unborn⟩
  | count => exact ⟨h.alive, h.unborn⟩
  | leave => exact ⟨h.alive, h.unborn⟩
  | spawn fd main =>
    constructor
    · intro i
      have := h.alive i
      by_cases last : i = p.spawned
      · subst last
        simpa using this
      · have bound : i < p.spawned + 1 ↔ i < p.spawned := by omega
        simpa [last, bound] using this
    · intro i unborn
      apply h.unborn i
      intro bound
      simpa [Nat.ne_of_lt bound] using unborn (by dsimp only; omega)
  | build i fd bound here =>
    have unused := h.unborn i fun _ => ⟨fd, here⟩
    have entries := Proxy.adopt_eq cfg unused fd i
    exact h.thread bound (fun j other => by rw [entries, off j other]) (by simp [Proxy.Exists, entries]) (by simp)
  | serve i wait bound here again =>
    have alive := (h.alive i).mpr ⟨bound, here⟩
    rcases Proxy.serveOnce_cases cfg alive wait with ⟨a, round⟩ | round
    · rw [round]
      obtain ⟨s, entry⟩ := alive
      have entries := Proxy.ready_eq cfg entry a
      have same : Served { p with
          proxy := p.proxy.next cfg (.ready i a), threads := Function.update p.threads i .serving } :=
        h.thread bound (fun j other => by rw [entries, off j other]) (by simp [Proxy.Exists, entries]) (by simp)
      rwa [← here, Function.update_eq_self] at same
    · rw [round] at again
      cases again
  | destroy i wait bound here ended =>
    have alive := (h.alive i).mpr ⟨bound, here⟩
    rcases Proxy.serveOnce_cases cfg alive wait with ⟨a, round⟩ | round
    · rw [round] at ended
      cases ended
    · rw [round]
      obtain ⟨s, entry⟩ := alive
      have entries := Proxy.destroy_eq cfg entry wait.lastRef
      exact h.thread bound (fun j other => by rw [entries, off j other]) (by simp [Proxy.Exists, entries]) (by simp)
  | uncount i bound here =>
    have dead : ¬ p.proxy.Exists i := by simp [h.alive i, here]
    exact h.thread bound (fun _ _ => rfl) (by simp [dead]) (by simp)

/-! ## The barrier -/

/-- The polling is not cut short: when the time is up, the count is zero. -/
def Patient (p : PerConn) : Act → Prop
  | .main _ =>
    match p.main with
    | .draining waited => graceMs ≤ waited → p.live = 0
    | _ => True
  | _ => True

instance (p : PerConn) : ∀ act, Decidable (Patient p act)
  | .signal => .isTrue trivial
  | .thread _ _ => .isTrue trivial
  | .main _ =>
    match main : p.main with
    | .draining waited => decidable_of_iff (graceMs ≤ waited → p.live = 0) (by rw [Patient, main])
    | .testing | .accepting | .accepted _ | .counted _ | .returned => .isTrue (by rw [Patient, main]; trivial)

structure Sound (p : PerConn) : Prop where
  tallied : Tallied p
  served : Served p

theorem sound_start (cfg : Config) (opened : Finset Nat) : Sound (start cfg opened) where
  tallied := rfl
  served := by
    refine ⟨fun i => ?_, fun _ _ => rfl⟩
    exact iff_of_false (Proxy.not_exists_start cfg opened i) fun bound => absurd bound.1 (Nat.not_lt_zero i)

theorem Sound.step (h : Sound p) (step : Step cfg p p') : Sound p' := ⟨h.tallied.step step, h.served.step step⟩

/-- At a count of zero all threads are gone. -/
theorem Tallied.gone (h : Tallied p) (zero : p.live ≤ 0) : ∀ i < p.spawned, p.threads i = .gone := by
  have none : carried (fun _ => 1) Thread.counts p.threads p.spawned = 0 := by
    unfold Tallied at h
    omega
  intro i bound
  have idle := idle_of_carried none i bound
  cases thread : p.threads i <;> simp [thread, Thread.counts] at idle ⊢

/-- The main thread has returned, and no thread is left. -/
structure Over (p : PerConn) : Prop where
  returned : p.main = .returned
  gone : ∀ i < p.spawned, p.threads i = .gone

/-- After the end nothing happens to any connection. -/
theorem Over.step (h : Over p) (step : Step cfg p p') : Over p' ∧ p'.proxy = p.proxy := by
  have never {i : Nat} {t : Thread} {P : Prop} (bound : i < p.spawned) (here : p.threads i = t)
      (alive : t ≠ .gone) : P :=
    absurd (here.symm.trans (h.gone i bound)) alive
  cases step with
  | idle => exact ⟨h, rfl⟩
  | signal => exact ⟨⟨h.returned, h.gone⟩, rfl⟩
  | turn main _ _ running => exact absurd h.returned running
  | accept fd main => exact absurd (main.symm.trans h.returned) nofun
  | count fd main => exact absurd (main.symm.trans h.returned) nofun
  | spawn fd main => exact absurd (main.symm.trans h.returned) nofun
  | leave waited main => exact absurd (main.symm.trans h.returned) nofun
  | build i fd bound here => exact never bound here nofun
  | serve i wait bound here => exact never bound here nofun
  | destroy i wait bound here => exact never bound here nofun
  | uncount i bound here => exact never bound here nofun

/-- What holds of every run whose polling is not cut short. -/
structure Barred (p : PerConn) : Prop where
  sound : Sound p
  barrier : p.main = .returned → ∀ i < p.spawned, p.threads i = .gone

theorem threadNext_main (cfg : Config) (p : PerConn) (i : Nat) (wait : Wait) :
    (p.threadNext cfg i wait).main = p.main := by
  unfold threadNext
  split
  · rfl
  · split <;> rfl
  · rfl
  · rfl

/-- The main thread returns from the polling loop only. -/
theorem mainNext_returned {accepted : Option Nat} (before : p.main ≠ .returned)
    (returned : (p.mainNext cfg accepted).main = .returned) :
    ∃ waited, p.main = .draining waited ∧ ¬ (0 < p.live ∧ waited < graceMs) ∧
      (p.mainNext cfg accepted).threads = p.threads ∧ (p.mainNext cfg accepted).spawned = p.spawned := by
  have step := mainNext_step cfg p accepted
  generalize p.mainNext cfg accepted = p' at step returned ⊢
  cases step with
  | turn main _ _ _ stays => exact absurd returned stays
  | leave waited main ready => exact ⟨waited, main, ready, rfl, rfl⟩
  | accept => cases returned
  | count => cases returned
  | spawn => cases returned
  | _ => exact absurd returned before

theorem Barred.next (h : Barred p) {act : Act} (patient : Patient p act) : Barred (p.next cfg act) := by
  have step := next_step cfg p act
  refine ⟨h.sound.step step, fun returned => ?_⟩
  by_cases before : p.main = .returned
  · exact (Over.step ⟨before, h.barrier before⟩ step).1.gone
  · cases act with
    | signal => exact absurd returned before
    | main accepted =>
      obtain ⟨waited, draining, ready, threads, spawned⟩ := mainNext_returned before returned
      have zero : p.live ≤ 0 := by
        by_cases late : graceMs ≤ waited
        · rw [Patient, draining] at patient
          exact Int.le_of_eq (patient late)
        · omega
      rw [PerConn.next, threads, spawned]
      exact h.sound.tallied.gone zero
    | thread i wait =>
      rw [PerConn.next] at returned
      split at returned
      · rw [threadNext_main] at returned
        exact absurd returned before
      · exact absurd returned before

theorem barred_run {opened : Finset Nat} {acts : List Act}
    (patient : Legal Patient (next cfg) (start cfg opened) acts) :
    Barred (run (next cfg) (start cfg opened) acts) :=
  Legal.invariant (fun _ _ h patient => h.next patient) ⟨sound_start cfg opened, nofun⟩ patient

theorem over_run (h : Over p) (more : List Act) :
    Over (run (next cfg) p more) ∧ (run (next cfg) p more).proxy = p.proxy :=
  run_invariant (P := fun later => Over later ∧ later.proxy = p.proxy)
    (fun later act ⟨ended, same⟩ =>
      have ⟨ended', same'⟩ := ended.step (next_step cfg later act)
      ⟨ended', same'.trans same⟩) ⟨h, rfl⟩ more

end PerConn

/-- **The shutdown barrier.** If the polling ended by a count of zero, then when `run` has returned no connection
exists, and whatever the threads still do, none is made or touched again. -/
theorem shutdown_barrier (cfg : Config) (opened : Finset Nat) (acts more : List PerConn.Act)
    (patient : Legal PerConn.Patient (PerConn.next cfg) (PerConn.start cfg opened) acts)
    (returned : (run (PerConn.next cfg) (PerConn.start cfg opened) acts).main = .returned) :
    let p := run (PerConn.next cfg) (PerConn.start cfg opened) acts
    (∀ key, ¬ p.proxy.Exists key) ∧ (run (PerConn.next cfg) p more).proxy = p.proxy := by
  have barred := PerConn.barred_run patient
  have gone := barred.barrier returned
  refine ⟨fun key alive => ?_, (PerConn.over_run ⟨returned, gone⟩ more).2⟩
  obtain ⟨bound, serving⟩ := (barred.sound.served.alive key).mp alive
  rw [gone key bound] at serving
  cases serving

/-- A connection is accepted and served, then the signal comes. -/
def visit : List PerConn.Act :=
  [.main none, .main (some 5), .main none, .main none, .thread 0 {}, .signal, .main none]

/-- The connection ends by its timeout, and its thread is gone before the count is read. -/
def orderly : List PerConn.Act := visit ++ [.thread 0 {}, .thread 0 {}, .main none]

theorem shutdown_barrier_orderly :
    let p := run (PerConn.next {}) (PerConn.start {} {}) orderly
    p.main = .returned ∧ ∀ key, ¬ p.proxy.Exists key := by
  have returned : (run (PerConn.next {}) (PerConn.start {} {}) orderly).main = .returned := by decide +kernel
  exact ⟨returned, (shutdown_barrier {} {} orderly [] (by decide +kernel) returned).1⟩

/-- What a thread meets when one more byte of the request has come. -/
def dribble (b : UInt8) : PerConn.Act := .thread 0 { ready := some { recv := .bytes [b] } }

/-- The client sends one more byte after every 250 polls of the count, that is every 5 s: each `wait_ready` of the
thread ends long before its timeout, and 1500 polls are over after six bytes. -/
def dribbling : List PerConn.Act :=
  visit ++ ([71, 69, 84, 32, 104, 116].map fun b => List.replicate 250 (.main none) ++ [dribble b]).flatten ++
    [.main none]

/-- The connection outlives the 30 s: `run` returns, and the connection is still there, in the middle of its
request. -/
theorem shutdown_barrier_overrun :
    let p := run (PerConn.next {}) (PerConn.start {} {}) dribbling
    p.main = .returned ∧ p.live = 1 ∧ p.proxy.Exists 0 ∧
      (p.proxy.entries 0).map (fun e => stream .fromClient e.session.trace) = some [71, 69, 84, 32, 104, 116] := by
  decide +kernel

end EvProxy
