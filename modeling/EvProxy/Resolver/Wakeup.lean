import EvProxy.Resolver.HandOff

/-!
# What a waiting connection relies on

Nothing but the connection itself takes a result away, and nothing touches it
after `ready` is set (`Turn.later`). Before that the wakeup is still to come:
its pipe is open and empty (`Sound.unsignalled`), and the threads alone can bring
it (`Sound.signal`).
-/

namespace EvProxy
open Runs

namespace Resolver

theorem Sound.made_of_ready {r : Resolver} (h : Sound r) {j : Nat} (ready : (r.jobs j).ready = true) : j < r.made := by
  refine h.made_of fun unmade => ?_
  have blank : Blank (r.jobs j) := h.fits_at unmade
  rw [blank.ready] at ready
  cases ready

/-- What a job keeps, whatever the resolver does. -/
structure Job.Later (b b' : Job) : Prop where
  host : b'.host = b.host
  port : b'.port = b.port
  readEnd : b'.readEnd = b.readEnd
  writeEnd : b'.writeEnd = b.writeEnd
  owner : b'.owner = b.owner
  found : ∀ f, b.found = some f → b'.found = some f
  result : b.ready = true → b'.ready = true ∧ b'.endpoints = b.endpoints ∧ b'.err = b.err ∧ b'.ok = b.ok
  taken : b'.taken = b.taken

theorem Job.Later.refl (b : Job) : b.Later b :=
  ⟨rfl, rfl, rfl, rfl, rfl, fun _ found => found, fun ready => ⟨ready, rfl, rfl, rfl⟩, rfl⟩

theorem Job.Later.ofStatus {b b' : Job} (h : b.Later b') (status : Status) : b.Later { b' with status := status } :=
  ⟨h.host, h.port, h.readEnd, h.writeEnd, h.owner, h.found, h.result, h.taken⟩

/-- No thread touches a result after `ready` is set. -/
theorem Go.later {found : Found} {wrote : Bool} {duty duty' : Duty} {change : Job → Job} {b : Job}
    (go : Go found wrote duty duty' change) (h : duty.Fits b) : b.Later (change b) := by
  cases go with
  | looked =>
    have blank : Blank b := h
    exact ⟨rfl, rfl, rfl, rfl, rfl, by simp [blank.found], by simp [blank.ready], rfl⟩
  | stage f stage stage' next =>
    have published : Published f stage.rank b := h
    have ready := published.ready
    cases stage <;>
      exact ⟨rfl, rfl, rfl, rfl, rfl, fun _ found => found, by simp_all [Stage.rank, Stage.effect], rfl⟩

/-- Everything an input can do to a job that was made. -/
inductive Turn (r : Resolver) (j : Nat) (b : Job) : Act → Job → Prop where
  | same (act : Act) (idle : Idle r act j) : Turn r j b act b
  | dequeued (i : Nat) (found : Found) (wrote : Bool) (queued : b.status = .queued) :
      Turn r j b (.work i found wrote) { b with status := .held i .looking }
  | went (i : Nat) (found : Found) (wrote : Bool) {duty duty' : Duty} {change : Job → Job} (bound : i < r.size)
      (here : r.workers i = .on j duty) (go : Go found wrote duty duty' change) :
      Turn r j b (.work i found wrote) { change b with status := .held i duty' }
  | letGo (i : Nat) (found : Found) (wrote : Bool) (f : Found) (bound : i < r.size)
      (here : r.workers i = .on j (.publishing f .drop)) :
      Turn r j b (.work i found wrote) { b with status := .finished }
  | drained : Turn r j b (.drain j) { b with bytes := 0 }
  | taken (ready : b.ready = true) :
      Turn r j b (.take j) { b with endpoints := if b.ok then [] else b.endpoints, taken := true }
  | discarded (queue : Mailbox Nat) (front : r.queue.takeFront = some (j, queue)) (queued : b.status = .queued) :
      Turn r j b .discard { b with status := .discarded }

theorem Step.turn {r r' : Resolver} {act : Act} (step : Step r act r') (sound : Sound r) {j : Nat}
    (made : j < r.made) : Turn r j (r.jobs j) act (r'.jobs j) := by
  -- the job in hand is the one that changes, or it stays as it was
  have update {k : Nat} {b : Job} (idle : k ≠ j → Idle r act j) (h : k = j → Turn r j (r.jobs j) act b) :
      Turn r j (r.jobs j) act (Function.update r.jobs k b j) := by
    by_cases same : j = k
    · rw [same, Function.update_self]
      exact same ▸ h same.symm
    · rw [Function.update_of_ne same]
      exact .same act (idle (Ne.symm same))
  cases step with
  | aside _ _ same idle =>
    rw [same.jobs]
    exact .same act (idle j)
  | closed => exact .same _ (by simp [Idle])
  | pushed owner host port readEnd writeEnd open_ =>
    exact update (fun _ => by simp [Idle]) fun same => absurd made (by omega)
  | dequeued i found wrote k queue bound here front =>
    refine update (fun _ => idle_of_worker (by simp [here])) fun same => ?_
    subst same
    exact .dequeued i found wrote (sound.front front).1
  | exited i found wrote bound here => exact .same _ (idle_of_worker (by simp [here]))
  | went i found wrote k bound here same go noted =>
    simp only [hold, same.jobs]
    refine update (fun other => idle_of_worker (by simp [here, other])) fun same => ?_
    subst same
    exact .went i found wrote bound here go
  | letGo i found wrote k f bound here =>
    refine update (fun other => idle_of_worker (by simp [here, other])) fun same => ?_
    subst same
    exact .letGo i found wrote f bound here
  | drained k =>
    refine update (fun _ => by simp [Idle]) fun same => ?_
    subst same
    exact .drained
  | taken k ready =>
    refine update (fun _ => by simp [Idle]) fun same => ?_
    subst same
    exact .taken ready
  | discarded k queue closed joined front =>
    refine update (fun _ => by simp [Idle]) fun same => ?_
    subst same
    exact .discarded queue front (sound.front front).1

theorem Turn.later {r : Resolver} {act : Act} {j : Nat} {b' : Job} (turn : Turn r j (r.jobs j) act b')
    (sound : Sound r) (other : act ≠ .take j) : (r.jobs j).Later b' := by
  cases turn with
  | same => exact .refl _
  | dequeued => exact (Job.Later.refl _).ofStatus _
  | went i found wrote bound here go =>
    exact (go.later (sound.fits_at ((sound.held _ _ _).mp here))).ofStatus _
  | letGo => exact (Job.Later.refl _).ofStatus _
  | drained => exact ⟨rfl, rfl, rfl, rfl, rfl, fun _ found => found, fun ready => ⟨ready, rfl, rfl, rfl⟩, rfl⟩
  | taken ready => exact absurd rfl other
  | discarded => exact (Job.Later.refl _).ofStatus _

/-- Only the destructor of the resolver throws a job away. -/
theorem Turn.kept {r : Resolver} {act : Act} {j : Nat} {b b' : Job} (turn : Turn r j b act b')
    (spared : act = .discard → ∀ queue, r.queue.takeFront ≠ some (j, queue)) (status : b.status ≠ .discarded) :
    b'.status ≠ .discarded := by
  cases turn with
  | same => exact status
  | dequeued => simp
  | went => simp
  | letGo => simp
  | drained => exact status
  | taken => exact status
  | discarded queue front => exact absurd front (spared rfl queue)

theorem Step.made_le {r r' : Resolver} {act : Act} (step : Step r act r') : r.made ≤ r'.made := by
  cases step with
  | aside _ _ same _ => exact same.made.ge
  | pushed => exact Nat.le_succ _
  | went i found wrote j bound here same => exact same.made.ge
  | _ => exact Nat.le_refl _

/-! ## The wakeup -/

/-- The thread has not signalled yet. -/
def Duty.before : Duty → Bool
  | .looking => true
  | .publishing _ stage => decide (stage.rank < 5)

/-- The wakeup of a job is still to come: nothing was ever in its pipe, which is open, and the job is queued or with a
thread that has yet to signal. -/
structure Unsignalled (r : Resolver) (j : Nat) : Prop where
  written : (r.jobs j).written = false
  bytes : (r.jobs j).bytes = 0
  writeOpen : (r.jobs j).writeOpen = true
  place : (r.jobs j).status = .queued ∨ ∃ i duty, i < r.size ∧ r.workers i = .on j duty ∧ duty.before = true

theorem Sound.unsignalled {r : Resolver} (h : Sound r) {j : Nat} (made : j < r.made)
    (kept : (r.jobs j).status ≠ .discarded) (unready : (r.jobs j).ready = false) : Unsignalled r j := by
  cases status : (r.jobs j).status with
  | unmade => exact absurd ((h.unmade j).mp status) (Nat.not_le.mpr made)
  | discarded => exact absurd status kept
  | queued =>
    have blank : Blank (r.jobs j) := h.fits_at status
    exact ⟨blank.written, blank.bytes, blank.writeOpen, .inl status⟩
  | finished =>
    obtain ⟨f, published⟩ := h.fits_at status
    rw [published.ready] at unready
    cases unready
  | held i duty =>
    have fits := h.fits_at status
    have on := (h.held i j duty).mpr status
    have bound := h.bound on
    cases duty with
    | looking =>
      have blank : Blank (r.jobs j) := fits
      exact ⟨blank.written, blank.bytes, blank.writeOpen, .inr ⟨i, .looking, bound, on, rfl⟩⟩
    | publishing f stage =>
      have published : Published f stage.rank (r.jobs j) := fits
      have early : stage.rank < 5 := by simpa [published.ready] using unready
      have unwritten : (r.jobs j).written = false := by
        rw [published.written]
        exact decide_eq_false (by omega)
      refine ⟨unwritten, published.bytes unwritten, ?_, .inr ⟨i, _, bound, on, decide_eq_true early⟩⟩
      rw [published.writeOpen]
      exact decide_eq_true (by omega)

/-- Steps of the threads only. -/
def Works (acts : List Act) : Prop := ∀ act ∈ acts, ∃ i found wrote, act = .work i found wrote

/-- How many steps a thread is away from letting go of its job. -/
def Duty.left : Duty → Nat
  | .looking => 9
  | .publishing _ stage => 8 - stage.rank

/-- A thread that has a job comes one step closer to the end of it. -/
theorem work_on {r : Resolver} {i j : Nat} {duty : Duty} (bound : i < r.size) (on : r.workers i = .on j duty) :
    ∃ act, Works [act] ∧ (r.next act).size = r.size ∧ (r.next act).queue = r.queue ∧
      ((r.next act).workers i = .waiting ∧ ((r.next act).jobs j).status = .finished ∨
        ∃ duty', (r.next act).workers i = .on j duty' ∧ duty'.left < duty.left) := by
  refine ⟨.work i ⟨false, [], []⟩ true, by simp [Works], ?_⟩
  cases duty with
  | looking =>
    have eq : r.next (.work i ⟨false, [], []⟩ true) =
        (r.note (.looked (r.jobs j).host (r.jobs j).port ⟨false, [], []⟩)).hold i j
          (.publishing ⟨false, [], []⟩ .endpoints) fun b => { b with found := some ⟨false, [], []⟩ } := by
      simp only [next, bound, if_true, work, on]
    rw [eq]
    exact ⟨rfl, rfl, .inr ⟨_, Function.update_self .., by decide⟩⟩
  | publishing f stage =>
    cases last : stage.next with
    | some stage' =>
      have eq : r.next (.work i ⟨false, [], []⟩ true) =
          (r.storeFound j f stage).hold i j (.publishing f stage') (stage.effect f true) := by
        simp only [next, bound, if_true, work, on, last]
      have same := same_storeFound r j f stage
      rw [eq]
      refine ⟨same.size, same.queue, .inr ⟨_, Function.update_self .., ?_⟩⟩
      cases stage <;> cases last <;> exact Nat.lt_succ_self _
    | none =>
      have eq : r.next (.work i ⟨false, [], []⟩ true) = r.letGo i j := by
        simp only [next, bound, if_true, work, on, last]
      rw [eq]
      exact ⟨rfl, rfl, .inl ⟨Function.update_self .., by simp [letGo]⟩⟩

/-- A thread that has a job can bring it to its end. -/
theorem complete {r : Resolver} {i j : Nat} {duty : Duty} (bound : i < r.size) (on : r.workers i = .on j duty) :
    ∃ acts, Works acts ∧ (run next r acts).size = r.size ∧ (run next r acts).queue = r.queue ∧
      (run next r acts).workers i = .waiting ∧ ((run next r acts).jobs j).status = .finished := by
  induction left : duty.left using Nat.strong_induction_on generalizing r duty with
  | _ n ih =>
    obtain ⟨act, works, size, queue, ended | ⟨duty', on', closer⟩⟩ := work_on bound on
    · exact ⟨[act], works, size, queue, ended⟩
    · obtain ⟨acts, works', size', queue', ended⟩ := ih _ (left ▸ closer) (size ▸ bound) on' rfl
      refine ⟨act :: acts, ?_, size'.trans size, queue'.trans queue, ended⟩
      exact List.forall_mem_cons.mpr ⟨works act (by simp), works'⟩

/-- The threads can bring every queued job to its end. -/
theorem Sound.reach {r : Resolver} (h : Sound r) (crew : 0 < r.size) {j : Nat} (queued : j ∈ r.queue.waiting) :
    ∃ acts, Works acts ∧ ((run next r acts).jobs j).status = .finished := by
  -- on the number of jobs in the queue, with the first thread as the one that works
  induction length : r.queue.waiting.length generalizing r with
  | zero =>
    rw [List.length_eq_zero_iff.mp length] at queued
    cases queued
  | succ n ih =>
    obtain ⟨acts, works, size, queue, free⟩ : ∃ acts, Works acts ∧ (run next r acts).size = r.size ∧
        (run next r acts).queue = r.queue ∧ (run next r acts).workers 0 = .waiting := by
      cases on : r.workers 0 with
      | waiting => exact ⟨[], by simp [Works], rfl, rfl, on⟩
      | on k duty =>
        obtain ⟨acts, works, size, queue, free, -⟩ := complete crew on
        exact ⟨acts, works, size, queue, free⟩
      | exited =>
        rw [(h.left 0 on).2] at queued
        cases queued
    have sound := sound_run h acts
    rw [← queue] at queued length
    rw [← size] at crew
    -- the first thread takes the next job
    obtain ⟨k, rest, front⟩ : ∃ k rest, (run next r acts).queue.takeFront = some (k, rest) := by
      cases front : (run next r acts).queue.takeFront with
      | none =>
        rw [Mailbox.takeFront_eq_none.mp front] at queued
        cases queued
      | some p => exact ⟨p.1, p.2, rfl⟩
    have eq : (run next r acts).next (.work 0 ⟨false, [], []⟩ true) =
        { run next r acts with queue := rest }.hold 0 k .looking id := by
      simp only [next, crew, if_true, work, free, front]
    have on : ((run next r acts).next (.work 0 ⟨false, [], []⟩ true)).workers 0 = .on k .looking := by
      rw [eq]
      simp [hold]
    have more (acts' : List Act) (works' : Works acts') : Works (acts ++ .work 0 ⟨false, [], []⟩ true :: acts') := by
      intro act mem
      rcases List.mem_append.mp mem with old | new
      · exact works act old
      · rcases List.mem_cons.mp new with rfl | new
        · exact ⟨0, _, _, rfl⟩
        · exact works' act new
    have waiting := (Mailbox.takeFront_eq_some front).1
    by_cases same : k = j
    · subst same
      obtain ⟨acts', works', -, -, -, ended⟩ := complete (by rw [eq]; exact crew) on
      exact ⟨_, more acts' works', by rw [run_append]; exact ended⟩
    · have shorter : rest.waiting.length = n := by simpa [waiting] using length
      have still : j ∈ rest.waiting := by
        rw [waiting] at queued
        exact (List.mem_cons.mp queued).resolve_left (Ne.symm same)
      obtain ⟨acts', works', ended⟩ := ih (sound.step (next_step _ (.work 0 ⟨false, [], []⟩ true)))
        (by rw [eq]; exact crew) (by rw [eq]; exact still) (by rw [eq]; exact shorter)
      exact ⟨_, more acts' works', by rw [run_append]; exact ended⟩

/-- **The wakeup can still come**, from the threads alone. -/
theorem Sound.signal {r : Resolver} (h : Sound r) (crew : 0 < r.size) {j : Nat} (pending : Unsignalled r j) :
    ∃ acts, Works acts ∧ ((run next r acts).jobs j).written = true ∧
      ((run next r acts).jobs j).writeOpen = false := by
  obtain ⟨acts, works, ended⟩ : ∃ acts, Works acts ∧ ((run next r acts).jobs j).status = .finished := by
    rcases pending.place with queued | ⟨i, duty, bound, on, -⟩
    · exact h.reach crew ((h.waiting j).mpr queued)
    · obtain ⟨acts, works, -, -, -, ended⟩ := complete bound on
      exact ⟨acts, works, ended⟩
  obtain ⟨f, published⟩ := (sound_run h acts).fits_at ended
  exact ⟨acts, works, published.written, published.writeOpen⟩

end Resolver

end EvProxy
