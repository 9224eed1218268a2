import EvProxy.Resolver.State

/-!
# The life of a job

`Step` lists what an input can do to the jobs, the queue and the threads.
`Sound` ties them together: a job is in the queue, with exactly one thread, or
neither, and what has been written into it is what its thread has got to.
-/

namespace EvProxy
open Runs

namespace Resolver

/-- The two states differ in the cache, its callers, the clock and the log only, and the log has grown. -/
structure Same (r s : Resolver) : Prop where
  size : s.size = r.size
  ttl : s.cacheTtlS = r.cacheTtlS
  log : ∃ new, s.log = r.log ++ new
  jobs : s.jobs = r.jobs
  made : s.made = r.made
  queue : s.queue = r.queue
  closed : s.closed = r.closed
  workers : s.workers = r.workers

theorem Same.refl (r : Resolver) : Same r r := ⟨rfl, rfl, ⟨[], by simp⟩, rfl, rfl, rfl, rfl, rfl⟩

theorem same_note (r : Resolver) (n : Note) : Same r (r.note n) := ⟨rfl, rfl, ⟨_, rfl⟩, rfl, rfl, rfl, rfl, rfl⟩

theorem Same.enter {r s : Resolver} (h : Same r s) (c : Nat) (caller : Caller) : Same r (s.enter c caller) :=
  ⟨h.size, h.ttl, h.log, h.jobs, h.made, h.queue, h.closed, h.workers⟩

theorem same_cacheGet (r : Resolver) (key : Bytes) : Same r (r.cacheGet key).2 := by
  unfold cacheGet
  split
  · exact .refl r
  · split
    · exact ⟨rfl, rfl, ⟨[], by simp⟩, rfl, rfl, rfl, rfl, rfl⟩
    · exact .refl r

theorem same_cachePut (r : Resolver) (host port : Bytes) (endpoints : List Endpoint) :
    Same r (r.cachePut host port endpoints) := by
  unfold cachePut
  split
  · exact .refl r
  · exact ⟨rfl, rfl, ⟨_, rfl⟩, rfl, rfl, rfl, rfl, rfl⟩

theorem same_storeFound (r : Resolver) (j : Nat) (found : Found) (stage : Stage) :
    Same r (r.storeFound j found stage) := by
  unfold storeFound
  split
  · exact same_cachePut r _ _ _
  · exact .refl r

/-- How a thread goes on with its job. -/
inductive Go (found : Found) (wrote : Bool) : Duty → Duty → (Job → Job) → Prop where
  | looked : Go found wrote .looking (.publishing found .endpoints) fun b => { b with found := some found }
  | stage (f : Found) (stage stage' : Stage) (next : stage.next = some stage') :
      Go found wrote (.publishing f stage) (.publishing f stage') (stage.effect f wrote)

/-- The input is not a step of a thread on job `j`. -/
def Idle (r : Resolver) (act : Act) (j : Nat) : Prop :=
  ∀ i found wrote, act = .work i found wrote → i < r.size → ∀ duty, r.workers i ≠ .on j duty

/-- Everything an input can do to the jobs, the queue and the threads. -/
inductive Step (r : Resolver) : Act → Resolver → Prop where
  | aside (act : Act) (s : Resolver) (same : Same r s) (idle : ∀ j, Idle r act j) : Step r act s
  | closed : Step r .close { r with closed := true }
  | pushed (owner : Nat) (host port : Bytes) (readEnd writeEnd : Nat) (open_ : r.closed = false) :
      Step r (.push owner host port readEnd writeEnd)
        { r with
          jobs := Function.update r.jobs r.made
            { host := host, port := port, readEnd := readEnd, writeEnd := writeEnd, owner := owner, status := .queued }
          made := r.made + 1
          queue := r.queue.send r.made }
  | dequeued (i : Nat) (found : Found) (wrote : Bool) (j : Nat) (queue : Mailbox Nat) (bound : i < r.size)
      (here : r.workers i = .waiting) (front : r.queue.takeFront = some (j, queue)) :
      Step r (.work i found wrote) ({ r with queue := queue }.hold i j .looking id)
  | exited (i : Nat) (found : Found) (wrote : Bool) (bound : i < r.size) (here : r.workers i = .waiting)
      (empty : r.queue.waiting = []) (closed : r.closed = true) :
      Step r (.work i found wrote) { r with workers := Function.update r.workers i .exited }
  | went (i : Nat) (found : Found) (wrote : Bool) (j : Nat) {duty duty' : Duty} {change : Job → Job} {s : Resolver}
      (bound : i < r.size) (here : r.workers i = .on j duty) (same : Same r s) (go : Go found wrote duty duty' change)
      (noted : duty = .looking → .looked (r.jobs j).host (r.jobs j).port found ∈ s.log) :
      Step r (.work i found wrote) (s.hold i j duty' change)
  | letGo (i : Nat) (found : Found) (wrote : Bool) (j : Nat) (f : Found) (bound : i < r.size)
      (here : r.workers i = .on j (.publishing f .drop)) : Step r (.work i found wrote) (r.letGo i j)
  | drained (j : Nat) :
      Step r (.drain j) { r with jobs := Function.update r.jobs j { r.jobs j with bytes := 0 } }
  | taken (j : Nat) (ready : (r.jobs j).ready = true) :
      Step r (.take j)
        { r with
          jobs := Function.update r.jobs j
            { r.jobs j with endpoints := if (r.jobs j).ok then [] else (r.jobs j).endpoints, taken := true } }
  | discarded (j : Nat) (queue : Mailbox Nat) (closed : r.closed = true) (joined : ∀ i < r.size, r.workers i = .exited)
      (front : r.queue.takeFront = some (j, queue)) :
      Step r .discard
        { r with queue := queue, jobs := Function.update r.jobs j { r.jobs j with status := .discarded } }

theorem idle_of_worker {r : Resolver} {i j : Nat} {found : Found} {wrote : Bool}
    (free : ∀ duty, r.workers i ≠ .on j duty) : Idle r (.work i found wrote) j := by
  intro i' found' wrote' same _ duty
  obtain ⟨rfl, -, -⟩ := Act.work.inj same
  exact free duty

theorem work_step (r : Resolver) (i : Nat) (found : Found) (wrote : Bool) (bound : i < r.size) :
    Step r (.work i found wrote) (r.work i found wrote) := by
  unfold work
  split
  · rename_i here
    split
    · rename_i j queue front
      exact .dequeued i found wrote j queue bound here front
    · rename_i front
      split
      · rename_i closed
        exact .exited i found wrote bound here (Mailbox.takeFront_eq_none.mp front) closed
      · exact .aside _ r (.refl r) fun j => idle_of_worker (by simp [here])
  · rename_i j here
    exact .went i found wrote j bound here (same_note r _) .looked fun _ => by simp [note]
  · rename_i j f stage here
    split
    · rename_i stage' next
      exact .went i found wrote j bound here (same_storeFound r j f stage) (.stage f stage stage' next) nofun
    · rename_i last
      obtain rfl : stage = .drop := by cases stage <;> first | rfl | cases last
      exact .letGo i found wrote j f bound here
  · rename_i here
    exact .aside _ r (.refl r) fun j => idle_of_worker (by simp [here])

theorem next_step (r : Resolver) (act : Act) : Step r act (r.next act) := by
  cases act with
  | tick d => exact .aside _ _ ⟨rfl, rfl, ⟨[], (List.append_nil _).symm⟩, rfl, rfl, rfl, rfl, rfl⟩ (by simp [Idle])
  | get host port => exact .aside _ _ (same_cacheGet r _) (by simp [Idle])
  | push owner host port readEnd writeEnd =>
    rw [next, push]
    split
    · exact .aside _ r (.refl r) (by simp [Idle])
    · rename_i open_
      exact .pushed owner host port readEnd writeEnd (by simpa using open_)
  | ask c host port =>
    have kept := same_cacheGet r (key host port)
    rw [next]
    split
    · split
      · rename_i got
        rw [got] at kept
        exact .aside _ _ kept (by simp [Idle])
      · rename_i got
        rw [got] at kept
        exact .aside _ _ (kept.enter c _) (by simp [Idle])
    · exact .aside _ r (.refl r) (by simp [Idle])
  | lookup c found =>
    rw [next]
    split
    · exact .aside _ _ ((same_note r _).enter c _) (by simp [Idle])
    · exact .aside _ r (.refl r) (by simp [Idle])
  | put c =>
    rw [next]
    split
    · exact .aside _ _ ((same_cachePut r _ _ _).enter c _) (by simp [Idle])
    · exact .aside _ r (.refl r) (by simp [Idle])
  | work i found wrote =>
    rw [next]
    split
    · rename_i bound
      exact work_step r i found wrote bound
    · rename_i beyond
      refine .aside _ r (.refl r) fun j i' found' wrote' same bound => ?_
      obtain ⟨rfl, -, -⟩ := Act.work.inj same
      exact absurd bound beyond
  | drain j => exact .drained j
  | take j =>
    rw [next]
    split
    · rename_i ready
      exact .taken j ready
    · exact .aside _ r (.refl r) (by simp [Idle])
  | close => exact .closed
  | discard =>
    rw [next]
    split
    · rename_i gone
      split
      · rename_i j queue front
        exact .discarded j queue gone.1 gone.2 front
      · exact .aside _ r (.refl r) (by simp [Idle])
    · exact .aside _ r (.refl r) (by simp [Idle])

theorem Step.settings {r r' : Resolver} {act : Act} (step : Step r act r') :
    r'.size = r.size ∧ r'.cacheTtlS = r.cacheTtlS := by
  cases step with
  | aside _ _ same _ => exact ⟨same.size, same.ttl⟩
  | went i found wrote j bound here same => exact ⟨same.size, same.ttl⟩
  | _ => exact ⟨rfl, rfl⟩

theorem settings_run (r : Resolver) (acts : List Act) :
    (run next r acts).size = r.size ∧ (run next r acts).cacheTtlS = r.cacheTtlS :=
  run_invariant (P := fun s => s.size = r.size ∧ s.cacheTtlS = r.cacheTtlS)
    (fun s act h => ⟨(next_step s act).settings.1.trans h.1, (next_step s act).settings.2.trans h.2⟩) ⟨rfl, rfl⟩ acts

/-! ## What is written into a job, and when -/

/-- A job nobody has looked up yet. -/
structure Blank (b : Job) : Prop where
  found : b.found = none
  ready : b.ready = false
  written : b.written = false
  bytes : b.bytes = 0
  writeOpen : b.writeOpen = true
  taken : b.taken = false

/-- A job whose thread has found `f` and has done the first `n` steps after that. -/
structure Published (f : Found) (n : Nat) (b : Job) : Prop where
  found : b.found = some f
  endpoints : 1 ≤ n → b.taken = false → b.endpoints = f.endpoints
  err : 2 ≤ n → b.err = f.err
  ok : 3 ≤ n → b.ok = f.ok
  ready : b.ready = decide (5 ≤ n)
  written : b.written = decide (6 ≤ n)
  bytes : b.written = false → b.bytes = 0
  writeOpen : b.writeOpen = decide (n < 7)
  taken : b.taken = true → b.ready = true

def Duty.Fits : Duty → Job → Prop
  | .looking, b => Blank b
  | .publishing f stage, b => Published f stage.rank b

def Status.Fits : Status → Job → Prop
  | .unmade, b | .queued, b | .discarded, b => Blank b
  | .held _ duty, b => duty.Fits b
  | .finished, b => ∃ f, Published f 8 b

theorem Blank.ofStatus {b : Job} (h : Blank b) (status : Status) : Blank { b with status := status } :=
  ⟨h.found, h.ready, h.written, h.bytes, h.writeOpen, h.taken⟩

theorem Published.ofStatus {f : Found} {n : Nat} {b : Job} (h : Published f n b) (status : Status) :
    Published f n { b with status := status } :=
  ⟨h.found, h.endpoints, h.err, h.ok, h.ready, h.written, h.bytes, h.writeOpen, h.taken⟩

theorem Duty.Fits.ofStatus {duty : Duty} {b : Job} (h : duty.Fits b) (status : Status) :
    duty.Fits { b with status := status } := by
  cases duty with
  | looking => exact Blank.ofStatus h status
  | publishing f stage => exact Published.ofStatus h status

/-- A step of `worker_loop` publishes one thing more. -/
theorem Published.effect {f : Found} {stage stage' : Stage} {b : Job} (h : Published f stage.rank b)
    (next : stage.next = some stage') (wrote : Bool) : Published f stage'.rank (stage.effect f wrote b) := by
  obtain ⟨found, endpoints, err, ok, ready, written, bytes, writeOpen, taken⟩ := h
  cases stage <;> cases next <;> constructor <;> simp_all [Stage.rank, Stage.effect]

theorem Published.last {f : Found} {b : Job} (h : Published f 7 b) : Published f 8 b :=
  ⟨h.found, fun _ => h.endpoints (by decide), fun _ => h.err (by decide), fun _ => h.ok (by decide), h.ready, h.written,
    h.bytes, h.writeOpen, h.taken⟩

theorem Go.fits {found : Found} {wrote : Bool} {duty duty' : Duty} {change : Job → Job} {b : Job}
    (go : Go found wrote duty duty' change) (h : duty.Fits b) : duty'.Fits (change b) := by
  cases go with
  | looked =>
    obtain ⟨-, ready, written, bytes, writeOpen, taken⟩ := h
    exact ⟨rfl, nofun, nofun, nofun, ready, written, fun _ => bytes, writeOpen, by simp [taken]⟩
  | stage f stage stage' next => exact Published.effect h next wrote

theorem Status.Fits.drain {status : Status} {b : Job} (h : status.Fits b) : status.Fits { b with bytes := 0 } := by
  have blank (h : Blank b) : Blank { b with bytes := 0 } :=
    ⟨h.found, h.ready, h.written, rfl, h.writeOpen, h.taken⟩
  have published {f : Found} {n : Nat} (h : Published f n b) : Published f n { b with bytes := 0 } :=
    ⟨h.found, h.endpoints, h.err, h.ok, h.ready, h.written, fun _ => rfl, h.writeOpen, h.taken⟩
  cases status with
  | unmade => exact blank h
  | queued => exact blank h
  | discarded => exact blank h
  | held i duty =>
    cases duty with
    | looking => exact blank h
    | publishing f stage => exact published h
  | finished =>
    obtain ⟨f, h⟩ := h
    exact ⟨f, published h⟩

/-- A job that is ready has its result. -/
theorem Status.Fits.published {b : Job} {status : Status} (h : status.Fits b) (ready : b.ready = true) :
    ∃ f n, 5 ≤ n ∧ Published f n b ∧ ∀ b' : Job, Published f n b' → status.Fits b' := by
  have blank (h : Blank b) : False := by simp [h.ready] at ready
  cases status with
  | unmade => exact (blank h).elim
  | queued => exact (blank h).elim
  | discarded => exact (blank h).elim
  | held i duty =>
    cases duty with
    | looking => exact (blank h).elim
    | publishing f stage =>
      have far : Published f stage.rank b := h
      exact ⟨f, stage.rank, by simpa [far.ready] using ready, far, fun _ h => h⟩
  | finished =>
    obtain ⟨f, h⟩ := h
    exact ⟨f, 8, by omega, h, fun _ h => ⟨f, h⟩⟩

theorem Status.Fits.take {status : Status} {b : Job} (h : status.Fits b) (ready : b.ready = true)
    (endpoints : List Endpoint) : status.Fits { b with endpoints := endpoints, taken := true } := by
  obtain ⟨f, n, -, published, back⟩ := h.published ready
  exact back _ ⟨published.found, nofun, published.err, published.ok, published.ready, published.written,
    published.bytes, published.writeOpen, fun _ => ready⟩

/-! ## Who has a job -/

/-- What a job's lookup found is on record for its host and port. -/
def Job.Looked (log : List Note) (b : Job) : Prop := ∀ f, b.found = some f → .looked b.host b.port f ∈ log

theorem Go.keeps {found : Found} {wrote : Bool} {duty duty' : Duty} {change : Job → Job} {b : Job} {log : List Note}
    (go : Go found wrote duty duty' change) (noted : duty = .looking → .looked b.host b.port found ∈ log)
    (h : b.Looked log) : (change b).Looked log := by
  cases go with
  | looked =>
    intro f same
    obtain rfl := Option.some.inj same
    exact noted rfl
  | stage f stage stage' next => cases stage <;> exact h

/-- The queue, the threads and the jobs agree. -/
structure Sound (r : Resolver) : Prop where
  sent : r.queue.sent = List.range r.made
  waiting : ∀ j, j ∈ r.queue.waiting ↔ (r.jobs j).status = .queued
  held : ∀ i j duty, r.workers i = .on j duty ↔ (r.jobs j).status = .held i duty
  unmade : ∀ j, (r.jobs j).status = .unmade ↔ r.made ≤ j
  fits : ∀ j, (r.jobs j).status.Fits (r.jobs j)
  crew : ∀ i, r.size ≤ i → r.workers i = .waiting
  left : ∀ i, r.workers i = .exited → r.closed = true ∧ r.queue.waiting = []
  looked : ∀ j, (r.jobs j).Looked r.log

namespace Sound

theorem start (size : Nat) (cacheTtlS now : Int) : Sound (start size cacheTtlS now) :=
  ⟨rfl, by simp [Resolver.start], by simp [Resolver.start], by simp [Resolver.start],
    fun _ => ⟨rfl, rfl, rfl, rfl, rfl, rfl⟩, fun _ _ => rfl, by simp [Resolver.start],
    by simp [Resolver.start, Job.Looked]⟩

theorem same {r s : Resolver} (h : Sound r) (same : Same r s) : Sound s := by
  obtain ⟨size, -, ⟨new, log⟩, jobs, made, queue, closed, workers⟩ := same
  constructor
  · rw [queue, made]
    exact h.sent
  · rw [queue, jobs]
    exact h.waiting
  · rw [workers, jobs]
    exact h.held
  · rw [jobs, made]
    exact h.unmade
  · rw [jobs]
    exact h.fits
  · rw [size, workers]
    exact h.crew
  · rw [workers, closed, queue]
    exact h.left
  · intro j f found
    rw [jobs] at found ⊢
    rw [log]
    exact List.mem_append_left new (h.looked j f found)

theorem nodup {r : Resolver} (h : Sound r) : (r.queue.taken ++ r.queue.waiting).Nodup := by
  rw [r.queue.order, h.sent]
  exact List.nodup_range

theorem fits_at {r : Resolver} (h : Sound r) {j : Nat} {status : Status} (is : (r.jobs j).status = status) :
    status.Fits (r.jobs j) := is ▸ h.fits j

theorem made_of {r : Resolver} (h : Sound r) {j : Nat} (known : (r.jobs j).status ≠ .unmade) : j < r.made := by
  by_contra beyond
  exact known ((h.unmade j).mpr (Nat.not_lt.mp beyond))

/-- The first in the queue leaves it for good. -/
theorem front {r : Resolver} (h : Sound r) {j : Nat} {queue : Mailbox Nat}
    (front : r.queue.takeFront = some (j, queue)) :
    (r.jobs j).status = .queued ∧ queue.sent = r.queue.sent ∧
      ∀ b : Job, b.status ≠ .queued →
        ∀ k, k ∈ queue.waiting ↔ (Function.update r.jobs j b k).status = .queued := by
  obtain ⟨waiting, -, sent⟩ := Mailbox.takeFront_eq_some front
  have different : (j :: queue.waiting).Nodup := waiting ▸ h.nodup.of_append_right
  have absent : j ∉ queue.waiting := (List.nodup_cons.mp different).1
  refine ⟨(h.waiting j).mp (by simp [waiting]), sent, fun b away k => ?_⟩
  by_cases job : k = j
  · simp [job, absent, away]
  · rw [Function.update_of_ne job, ← h.waiting k, waiting, List.mem_cons]
    simp [job]

theorem fits_update {r : Resolver} (h : Sound r) {j : Nat} {b : Job} (fits : b.status.Fits b) :
    ∀ k, (Function.update r.jobs j b k).status.Fits (Function.update r.jobs j b k) :=
  (Function.forall_update_iff r.jobs fun (_ : Nat) (b : Job) => b.status.Fits b).mpr ⟨fits, fun k _ => h.fits k⟩

theorem looked_update {r : Resolver} (h : Sound r) {j : Nat} {b : Job} (looked : b.Looked r.log) :
    ∀ k, (Function.update r.jobs j b k).Looked r.log :=
  (Function.forall_update_iff r.jobs fun (_ : Nat) (b : Job) => b.Looked r.log).mpr ⟨looked, fun k _ => h.looked k⟩

/-- No thread leaves while something is queued. -/
theorem present {r : Resolver} (h : Sound r) {j : Nat} {queue : Mailbox Nat}
    (front : r.queue.takeFront = some (j, queue)) (i : Nat) : r.workers i ≠ .exited := by
  intro exited
  have empty := (h.left i exited).2
  rw [(Mailbox.takeFront_eq_some front).1] at empty
  cases empty

/-- A thread with a job is one of the pool. -/
theorem bound {r : Resolver} (h : Sound r) {i j : Nat} {duty : Duty} (on : r.workers i = .on j duty) : i < r.size := by
  by_contra beyond
  rw [h.crew i (Nat.not_lt.mp beyond)] at on
  cases on

theorem made_of_held {r : Resolver} (h : Sound r) {i j : Nat} {duty : Duty} (on : r.workers i = .on j duty) :
    j < r.made :=
  h.made_of (by simp [(h.held i j duty).mp on])

/-- One thread and one job change together, and nobody else is concerned. -/
theorem reassign {r : Resolver} (h : Sound r) {i j : Nat} {w : Worker} {b : Job} {queue : Mailbox Nat}
    (bound : i < r.size) (free : ∀ k, k ≠ j → ∀ duty, r.workers i ≠ .on k duty)
    (mine : ∀ i', i' ≠ i → ∀ duty, (r.jobs j).status ≠ .held i' duty)
    (agree : ∀ i' duty, b.status = .held i' duty ↔ i' = i ∧ w = .on j duty)
    (only : ∀ k duty, w = .on k duty → k = j) (made : j < r.made) (makes : b.status ≠ .unmade)
    (fits : b.status.Fits b) (sent : queue.sent = r.queue.sent)
    (waiting : ∀ k, k ∈ queue.waiting ↔ (Function.update r.jobs j b k).status = .queued)
    (left : ∀ i', Function.update r.workers i w i' = .exited → r.closed = true ∧ queue.waiting = [])
    (looked : b.Looked r.log) :
    Sound { r with
      workers := Function.update r.workers i w, jobs := Function.update r.jobs j b, queue := queue } := by
  refine ⟨sent.trans h.sent, waiting, fun i' k duty => ?_, fun k => ?_, h.fits_update fits, fun i' beyond => ?_, left,
    h.looked_update looked⟩
  · change Function.update r.workers i w i' = _ ↔ (Function.update r.jobs j b k).status = _
    by_cases worker : i' = i
    · subst worker
      rw [Function.update_self]
      by_cases job : k = j
      · subst job
        rw [Function.update_self, agree]
        simp
      · rw [Function.update_of_ne job, ← h.held]
        exact ⟨fun on => absurd (only k duty on) job, fun on => absurd on (free k job duty)⟩
    · rw [Function.update_of_ne worker, h.held]
      by_cases job : k = j
      · subst job
        rw [Function.update_self, agree]
        exact ⟨fun on => absurd on (mine i' worker duty), fun on => absurd on.1 worker⟩
      · rw [Function.update_of_ne job]
  · change (Function.update r.jobs j b k).status = _ ↔ _
    by_cases job : k = j
    · subst job
      rw [Function.update_self]
      exact ⟨fun none_yet => absurd none_yet makes, fun beyond => absurd made (Nat.not_lt.mpr beyond)⟩
    · rw [Function.update_of_ne job]
      exact h.unmade k
  · have other : i' ≠ i := fun same => absurd bound (Nat.not_lt.mpr (same ▸ beyond))
    change Function.update r.workers i w i' = _
    rw [Function.update_of_ne other]
    exact h.crew i' beyond

/-- A thread goes on with its job or lets go of it; the queue is not concerned. -/
theorem advance {r : Resolver} (h : Sound r) {i j : Nat} {duty : Duty} (here : r.workers i = .on j duty) {w : Worker}
    {b : Job} (agree : ∀ i' duty, b.status = .held i' duty ↔ i' = i ∧ w = .on j duty)
    (only : ∀ k duty, w = .on k duty → k = j) (stays : w ≠ .exited) (makes : b.status ≠ .unmade)
    (away : b.status ≠ .queued) (fits : b.status.Fits b) (looked : b.Looked r.log) :
    Sound { r with workers := Function.update r.workers i w, jobs := Function.update r.jobs j b } := by
  have status := (h.held i j duty).mp here
  refine h.reassign (h.bound here) (by simp +contextual [here, eq_comm]) (by simp +contextual [status, eq_comm]) agree
    only (h.made_of_held here) makes fits rfl (fun k => ?_) (fun i' exited => ?_) looked
  · rw [h.waiting]
    by_cases job : k = j
    · simp [job, status, away]
    · simp [job]
  · by_cases worker : i' = i
    · simp [worker, stays] at exited
    · rw [Function.update_of_ne worker] at exited
      exact h.left i' exited

/-- A job changes and stays where it is. -/
theorem touch {r : Resolver} (h : Sound r) {j : Nat} {b : Job} (status : b.status = (r.jobs j).status)
    (fits : b.status.Fits b) (looked : b.Looked r.log) : Sound { r with jobs := Function.update r.jobs j b } := by
  have same (k : Nat) : (Function.update r.jobs j b k).status = (r.jobs k).status := by
    by_cases job : k = j
    · rw [job, Function.update_self, status]
    · rw [Function.update_of_ne job]
  refine ⟨h.sent, fun k => ?_, fun i k duty => ?_, fun k => ?_, h.fits_update fits, h.crew, h.left,
    h.looked_update looked⟩
  · rw [same]
    exact h.waiting k
  · rw [same]
    exact h.held i k duty
  · rw [same]
    exact h.unmade k

theorem push {r : Resolver} (h : Sound r) (open_ : r.closed = false) {b : Job} (status : b.status = .queued)
    (blank : Blank b) :
    Sound { r with
      jobs := Function.update r.jobs r.made b, made := r.made + 1, queue := r.queue.send r.made } := by
  have new : (r.jobs r.made).status = .unmade := (h.unmade r.made).mpr (Nat.le_refl _)
  have fits : b.status.Fits b := by
    rw [status]
    exact blank
  refine ⟨?_, fun k => ?_, fun i k duty => ?_, fun k => ?_, h.fits_update fits, h.crew, fun i exited => ?_,
    h.looked_update (by simp [Job.Looked, blank.found])⟩
  · rw [Mailbox.send_sent, h.sent, List.range_succ]
  · rw [Mailbox.send_waiting, List.mem_append, List.mem_singleton, h.waiting]
    by_cases job : k = r.made
    · simp [job, status]
    · simp [job]
  · rw [h.held]
    by_cases job : k = r.made
    · simp [job, status, new]
    · simp [job]
  · by_cases job : k = r.made
    · simp [job, status]
    · simp only [Function.update_of_ne job, h.unmade]
      omega
  · exact absurd (h.left i exited).1 (by simp [open_])

theorem step {r r' : Resolver} {act : Act} (h : Sound r) (step : Step r act r') : Sound r' := by
  cases step with
  | aside _ _ same _ => exact h.same same
  | closed => exact ⟨h.sent, h.waiting, h.held, h.unmade, h.fits, h.crew, fun i exited => ⟨rfl, (h.left i exited).2⟩,
    h.looked⟩
  | pushed owner host port readEnd writeEnd open_ => exact h.push open_ rfl ⟨rfl, rfl, rfl, rfl, rfl, rfl⟩
  | dequeued i found wrote j queue bound here front =>
    obtain ⟨queued, sent, waiting⟩ := h.front front
    have blank : Blank (r.jobs j) := h.fits_at queued
    refine h.reassign bound (by simp [here]) (by simp [queued]) (by simp [eq_comm]) (by simp [eq_comm])
      (h.made_of (by simp [queued])) (by simp) (blank.ofStatus _) sent (waiting _ (by simp)) (fun i' exited => ?_)
      (h.looked j)
    by_cases worker : i' = i
    · simp [worker] at exited
    · rw [Function.update_of_ne worker] at exited
      exact absurd exited (h.present front i')
  | exited i found wrote bound here empty closed =>
    refine ⟨h.sent, h.waiting, fun i' k duty => ?_, h.unmade, h.fits, fun i' beyond => ?_, fun i' exited => ?_,
      h.looked⟩
    · rw [← h.held]
      by_cases worker : i' = i
      · simp [worker, here]
      · simp [worker]
    · have other : i' ≠ i := fun same => absurd bound (Nat.not_lt.mpr (same ▸ beyond))
      simp only [Function.update_of_ne other]
      exact h.crew i' beyond
    · exact ⟨closed, empty⟩
  | went i found wrote j bound here same go noted =>
    replace h := h.same same
    rw [← same.workers] at here
    rw [← same.jobs] at noted
    have fits := h.fits_at ((h.held _ _ _).mp here)
    exact h.advance here (by simp [eq_comm]) (by simp [eq_comm]) (by simp) (by simp) (by simp)
      ((go.fits fits).ofStatus _) (go.keeps noted (h.looked j))
  | letGo i found wrote j f bound here =>
    have last : Published f 7 (r.jobs j) := h.fits_at ((h.held _ _ _).mp here)
    exact h.advance here (by simp) (by simp) (by simp) (by simp) (by simp) ⟨f, last.last.ofStatus _⟩ (h.looked j)
  | drained j => exact h.touch rfl (h.fits j).drain (h.looked j)
  | taken j ready => exact h.touch rfl ((h.fits j).take ready _) (h.looked j)
  | discarded j queue closed joined front =>
    obtain ⟨queued, sent, waiting⟩ := h.front front
    have blank : Blank (r.jobs j) := h.fits_at queued
    refine ⟨sent.trans h.sent, waiting _ (by simp), fun i k duty => ?_, fun k => ?_, h.fits_update (blank.ofStatus _),
      h.crew, fun i exited => ?_, h.looked_update (h.looked j)⟩
    · rw [h.held]
      by_cases job : k = j
      · simp [job, queued]
      · simp [job]
    · rw [← h.unmade]
      by_cases job : k = j
      · simp [job, queued]
      · simp [job]
    · exact absurd exited (h.present front i)

end Sound

theorem sound_run {r : Resolver} (h : Sound r) (acts : List Act) : Sound (run next r acts) :=
  run_invariant (fun r act h => h.step (next_step r act)) h acts

end Resolver

end EvProxy
