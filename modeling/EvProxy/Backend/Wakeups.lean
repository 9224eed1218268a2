import EvProxy.Bells
import EvProxy.Backend.ThreadPool

/-!
# Sleeping and waking in the thread pool (`conn_queue.cpp`, `backend/thread_pool.cpp`)

`Pool` lets a thread stand where its condition is not met; here it sleeps at
`not_empty_` or `not_full_`, and the notifications of `push_for`, `pop` and
`close` come after the mutex is let go. No interleaving loses a wakeup, and from
every state the signal leads to the end of `run` (`pool_wakeups`).
-/

namespace EvProxy
open Runs Crew Bells

namespace Pool

inductive Thread where
  /-- The signal handler, on whatever thread it runs. -/
  | signal
  | main
  | worker (i : Nat)
  deriving DecidableEq

inductive Bell where
  | notEmpty
  | notFull
  deriving DecidableEq

def Act.thread : Act → Thread
  | .signal => .signal
  | .main _ _ => .main
  | .worker i _ => .worker i

/-- The main thread is in `push_for`. -/
def Main.waits : Main → Bool
  | .pushing _ => true
  | _ => false

def guard (p : Pool) : Thread → Option Bell
  | .signal => none
  | .main => if p.main.waits then some .notFull else none
  | .worker i => if i < p.size ∧ p.workers i = .popping then some .notEmpty else none

/-- The conditions of the two waits; a wait with a timeout is over when that has fired. -/
def passes (p : Pool) : Act → Bool
  | .signal => true
  | .main _ fired => p.queue.closed || decide (p.queue.box.waiting.length < p.queue.capacity) || fired
  | .worker _ _ => p.queue.closed || !p.queue.box.waiting.isEmpty

/-- What is notified after the mutex is let go. -/
def notes (p : Pool) : Act → List (Note Bell)
  | .signal => []
  | .main _ fired =>
    match p.main with
    | .pushing t =>
      match p.queue.pushFor t fired with
      | some (.pushed, _, _) => [.one .notEmpty]
      | _ => []
    | .returned => if p.queue.closed then [] else [.all .notEmpty, .all .notFull]
    | _ => []
  | .worker i _ =>
    if i < p.size ∧ p.workers i = .popping then
      match p.queue.pop with
      | some (some _, _) => [.one .notFull]
      | _ => []
    else []

def system (cfg : Config) : System Thread Bell Pool Act where
  next := next cfg
  actor := Act.thread
  guard := guard
  passes := passes
  notes := notes

/-- How many could pass: one for each descriptor queued, one for each free place. -/
def chances (p : Pool) : Bell → Nat
  | .notEmpty => p.queue.box.waiting.length
  | .notFull => p.queue.capacity - p.queue.box.waiting.length

def released (p : Pool) (_ : Bell) : Bool := p.queue.closed

/-- The threads that may wait. -/
def crew (cfg : Config) : Finset Thread := insert .main ((Finset.range (max 1 cfg.threadPoolSize)).image .worker)

variable {cfg : Config} {p : Pool}

/-! ## Every section notifies for what it makes possible -/

/-- What a step owes at a condition variable. -/
def Pays (cfg : Config) (p : Pool) (act : Act) (k : Bell) : Prop :=
  .all k ∈ p.notes act ∨ released p k = true ∨ released (p.next cfg act) k = false ∧
    (chances (p.next cfg act) k = 0 ∨
      chances (p.next cfg act) k + (if p.guard act.thread = some k then 1 else 0) ≤
        chances p k + (p.notes act).count (.one k) + if (p.next cfg act).guard act.thread = some k then 1 else 0)

/-- A step that leaves the queue alone, of a thread that did not wait. -/
theorem pays_quiet (cfg : Config) (p : Pool) (act : Act) (free : p.guard act.thread = none)
    (quiet : (p.next cfg act).queue = p.queue) (k : Bell) : Pays cfg p act k := by
  have same : chances (p.next cfg act) k = chances p k := by cases k <;> simp only [chances, quiet]
  cases closed : p.queue.closed with
  | true => exact Or.inr (Or.inl closed)
  | false =>
    refine Or.inr (Or.inr ⟨by rw [released, quiet, closed], Or.inr ?_⟩)
    rw [same, free, if_neg nofun]
    omega

theorem pays_push {t : Ticket} (main : p.main = .pushing t) {accepted : Option Nat} {fired : Bool}
    (may : p.passes (.main accepted fired) = true) (k : Bell) : Pays cfg p (.main accepted fired) k := by
  have waits : p.guard .main = some .notFull := by rw [guard, main]; rfl
  cases closed : p.queue.closed with
  | true => exact Or.inr (Or.inl closed)
  | false =>
    refine Or.inr (Or.inr ?_)
    by_cases space : p.queue.box.waiting.length < p.queue.capacity
    · obtain ⟨q, pushed, box, capacity, open_⟩ : ∃ q, p.queue.pushFor t fired = some (.pushed, none, q) ∧
          q.box = p.queue.box.send t ∧ q.capacity = p.queue.capacity ∧ q.closed = false := by
        rw [ConnQueue.pushFor, if_neg (by simp [closed]), dif_pos space]
        exact ⟨_, rfl, rfl, rfl, closed⟩
      have after : p.next cfg (.main accepted fired) = { p with queue := q, main := .testing } := by
        simp only [next, mainNext, main, pushed]
      have owes : p.notes (.main accepted fired) = [.one .notEmpty] := by simp only [notes, main, pushed]
      have longer : q.box.waiting.length = p.queue.box.waiting.length + 1 := by
        rw [box, Mailbox.send_waiting, List.length_append, List.length_singleton]
      rw [after, owes, Act.thread, waits]
      refine ⟨open_, Or.inr ?_⟩
      cases k with
      | notEmpty =>
        rw [if_neg (by decide), List.count_singleton_self]
        simp only [chances]
        omega
      | notFull =>
        rw [if_pos rfl]
        simp only [chances, capacity]
        omega
    · -- The time is over: the queue is full, and stays as it is.
      have over_ : fired = true := by simpa [passes, closed, space] using may
      have late : p.queue.pushFor t fired = some (.timedOut, some t, p.queue) := by
        rw [ConnQueue.pushFor, if_neg (by simp [closed]), dif_neg space, if_pos over_]
      have after : p.next cfg (.main accepted fired) = { p with main := .retrying t } := by
        simp only [next, mainNext, main, late]
      rw [after, Act.thread, waits]
      refine ⟨closed, ?_⟩
      cases k with
      | notEmpty =>
        rw [if_neg (by decide)]
        exact Or.inr (Nat.le_add_right_of_le (Nat.le_add_right _ _))
      | notFull =>
        refine Or.inl ?_
        simp only [chances]
        omega

theorem pays_pop {i : Nat} (bound : i < p.size) (here : p.workers i = .popping) {wait : Wait}
    (may : p.passes (.worker i wait) = true) (k : Bell) : Pays cfg p (.worker i wait) k := by
  have waits : p.guard (.worker i) = some .notEmpty := by rw [guard, if_pos ⟨bound, here⟩]
  cases closed : p.queue.closed with
  | true => exact Or.inr (Or.inl closed)
  | false =>
    refine Or.inr (Or.inr ?_)
    have some_ : p.queue.box.waiting ≠ [] := by simpa [passes, closed] using may
    obtain ⟨t, q, popped⟩ : ∃ t q, p.queue.pop = some (some t, q) := by
      rw [ConnQueue.pop]
      split
      · rename_i none_
        exact absurd (Mailbox.takeFront_eq_none.mp none_) some_
      · exact ⟨_, _, rfl⟩
    obtain ⟨waiting, -, -, same, capacity⟩ := ConnQueue.pop_some popped
    have after : p.next cfg (.worker i wait) =
        { p with queue := q, workers := Function.update p.workers i (.popped t) } := by
      simp only [next, if_pos bound, workerNext, here, popped]
    have owes : p.notes (.worker i wait) = [.one .notFull] := by
      simp only [notes, if_pos (And.intro bound here), popped]
    have shorter : p.queue.box.waiting.length = q.box.waiting.length + 1 := by rw [waiting, List.length_cons]
    have room := p.queue.room
    rw [after, owes, Act.thread, waits]
    refine ⟨same.trans closed, Or.inr ?_⟩
    cases k with
    | notEmpty =>
      rw [if_pos rfl]
      simp only [chances]
      omega
    | notFull =>
      rw [if_neg (by decide), List.count_singleton_self]
      simp only [chances, capacity]
      omega

theorem pays_main {accepted : Option Nat} {fired : Bool}
    (may : p.guard .main = none ∨ p.passes (.main accepted fired) = true) (k : Bell) :
    Pays cfg p (.main accepted fired) k := by
  have quiet (free : p.main.waits = false) (same : (p.mainNext cfg accepted fired).queue = p.queue) :
      Pays cfg p (.main accepted fired) k :=
    pays_quiet cfg p (.main accepted fired) (by rw [Act.thread, guard, free]; rfl) same k
  cases main : p.main with
  | pushing t =>
    refine pays_push main (may.resolve_left ?_) k
    rw [guard, main]
    nofun
  | returned =>
    cases closed : p.queue.closed with
    | true => exact Or.inr (Or.inl closed)
    | false =>
      refine Or.inl ?_
      simp only [notes, main, closed]
      cases k <;> decide
  | testing => exact quiet (by rw [main]; rfl) (by simp only [mainNext, main])
  | accepting => exact quiet (by rw [main]; rfl) (by simp only [mainNext, main]; split <;> rfl)
  | retrying t => exact quiet (by rw [main]; rfl) (by simp only [mainNext, main]; split <;> rfl)
  | joining => exact quiet (by rw [main]; rfl) (by simp only [mainNext, main]; split <;> rfl)
  | joined => exact quiet (by rw [main]; rfl) (by simp only [mainNext, main])

theorem pays_worker {i : Nat} {wait : Wait} (may : p.guard (.worker i) = none ∨ p.passes (.worker i wait) = true)
    (k : Bell) : Pays cfg p (.worker i wait) k := by
  by_cases there : i < p.size ∧ p.workers i = .popping
  · refine pays_pop there.1 there.2 (may.resolve_left ?_) k
    rw [guard, if_pos there]
    nofun
  · refine pays_quiet cfg p _ (by rw [Act.thread, guard, if_neg there]) ?_ k
    rw [next]
    split
    · rename_i bound
      unfold workerNext
      split
      · rename_i here
        exact absurd ⟨bound, here⟩ there
      · rfl
      · split <;> rfl
      · rfl
    · rfl

theorem mainNext_frame (cfg : Config) (p : Pool) (accepted : Option Nat) (fired : Bool) :
    (p.mainNext cfg accepted fired).workers = p.workers ∧ (p.mainNext cfg accepted fired).size = p.size := by
  unfold mainNext
  split
  · exact ⟨rfl, rfl⟩
  · split <;> exact ⟨rfl, rfl⟩
  · split <;> exact ⟨rfl, rfl⟩
  · split <;> exact ⟨rfl, rfl⟩
  · exact ⟨rfl, rfl⟩
  · split <;> exact ⟨rfl, rfl⟩
  · exact ⟨rfl, rfl⟩

theorem workerNext_frame (cfg : Config) (p : Pool) (i : Nat) (wait : Wait) :
    (p.workerNext cfg i wait).main = p.main ∧ (p.workerNext cfg i wait).size = p.size ∧
      ∀ j ≠ i, (p.workerNext cfg i wait).workers j = p.workers j := by
  unfold workerNext
  split
  · split
    · exact ⟨rfl, rfl, fun _ _ => rfl⟩
    · exact ⟨rfl, rfl, fun j other => Function.update_of_ne other _ _⟩
    · exact ⟨rfl, rfl, fun j other => Function.update_of_ne other _ _⟩
  · exact ⟨rfl, rfl, fun j other => Function.update_of_ne other _ _⟩
  · split
    · exact ⟨rfl, rfl, fun _ _ => rfl⟩
    · exact ⟨rfl, rfl, fun j other => Function.update_of_ne other _ _⟩
  · exact ⟨rfl, rfl, fun _ _ => rfl⟩

/-- No thread moves another to or from a condition variable. -/
theorem guard_next (cfg : Config) (p : Pool) {act : Act} {i : Thread} (other : i ≠ act.thread) :
    (p.next cfg act).guard i = p.guard i := by
  cases act with
  | signal => cases i <;> rfl
  | main accepted fired =>
    obtain ⟨workers, size⟩ := mainNext_frame cfg p accepted fired
    cases i with
    | signal => rfl
    | main => exact absurd rfl other
    | worker j => simp only [guard, next, workers, size]
  | worker i' wait =>
    rw [next]
    split
    · obtain ⟨main, size, workers⟩ := workerNext_frame cfg p i' wait
      cases i with
      | signal => rfl
      | main => simp only [guard, main]
      | worker j => simp only [guard, size, workers j fun same => other (same ▸ rfl)]
    · rfl

theorem mem_crew (sound : Sound cfg p) {i : Thread} {k : Bell} (there : p.guard i = some k) : i ∈ crew cfg := by
  rw [crew, Finset.mem_insert, Finset.mem_image]
  cases i with
  | signal => cases there
  | main => exact Or.inl rfl
  | worker j =>
    rw [guard] at there
    split at there
    · rename_i here
      exact Or.inr ⟨j, Finset.mem_range.mpr (sound.size ▸ here.1), rfl⟩
    · cases there

/-- A thread that goes to sleep has no chance. -/
theorem no_chance {act : Act} {k : Bell} (there : p.guard act.thread = some k) (stuck : p.passes act = false) :
    chances p k = 0 ∧ released p k = false := by
  cases act with
  | signal => cases there
  | main accepted fired =>
    simp only [Act.thread, guard] at there
    split at there
    · cases there
      simp only [passes, Bool.or_eq_false_iff, decide_eq_false_iff_not] at stuck
      exact ⟨by rw [chances]; omega, stuck.1.1⟩
    · cases there
  | worker i wait =>
    simp only [Act.thread, guard] at there
    split at there
    · cases there
      simp only [passes, Bool.or_eq_false_iff, Bool.not_eq_false', List.isEmpty_iff] at stuck
      exact ⟨by rw [chances, stuck.2]; rfl, stuck.1⟩
    · cases there

theorem accounts (cfg : Config) : (system cfg).Accounts chances released (crew cfg) (Sound cfg) where
  keeps act sound := sound.step (next_step cfg _ act)
  crew sound there := mem_crew sound there
  stays _ other := guard_next cfg _ other
  sleeps _ there stuck := no_chance there stuck
  pays {p act} k sound may := by
    cases act with
    | signal => exact pays_quiet cfg p .signal rfl rfl k
    | main accepted fired => exact pays_main may k
    | worker i wait => exact pays_worker may k

/-! ## The end of `run` -/

/-- The steps the main thread has at most before it, once it must stop. -/
def Main.rank : Main → Nat
  | .joined => 0
  | .joining => 1
  | .returned => 2
  | .testing | .retrying _ => 3
  | .accepting => 4
  | .pushing _ => 7

def Worker.rank : Worker → Nat
  | .exited => 0
  | .popping => 1
  | .serving _ _ => 2
  | .popped _ => 3

/-- What is left to do; a descriptor in the queue is still to be popped, built and served. -/
def toGo (p : Pool) : Nat :=
  p.main.rank + carried Worker.rank (fun w => [w]) p.workers p.size + 3 * p.queue.box.waiting.length

theorem Step.stop {p' : Pool} (step : Step cfg p p') (stopped : p.stop = true) : p'.stop = true := by
  cases step with
  | signal => rfl
  | _ => exact stopped

/-- The main thread, its time being over and nothing coming, moves towards the end. -/
theorem main_descends (cfg : Config) (stopped : p.stop = true) (before : p.main.closing = false) :
    (p.next cfg (.main none true)).toGo < p.toGo := by
  simp only [next, toGo]
  cases main : p.main with
  | testing => simp [mainNext, main, stopped, Main.rank]
  | accepting => simp [mainNext, main, Main.rank]
  | retrying t => simp [mainNext, main, stopped, drop, Main.rank]
  | returned => simp [mainNext, main, ConnQueue.close, Main.rank]
  | joining | joined =>
    rw [main] at before
    cases before
  | pushing t =>
    simp only [mainNext, main, ConnQueue.pushFor]
    split_ifs with closed space
    · simp [drop, Main.rank]
    · simp [Main.rank]
      omega
    · simp [Main.rank]

/-- A worker of a closed queue, whose clients fall silent, moves towards the end. -/
theorem worker_descends (cfg : Config) {i : Nat} (bound : i < p.size) (closed : p.queue.closed = true)
    (staying : p.workers i ≠ .exited) : (p.next cfg (.worker i {})).toGo < p.toGo := by
  have moved (new : Worker) : carried Worker.rank (fun w => [w]) (Function.update p.workers i new) p.size +
      (p.workers i).rank = carried Worker.rank (fun w => [w]) p.workers p.size + new.rank :=
    carried_update_self bound new
  rw [next, if_pos bound, workerNext]
  cases here : p.workers i with
  | exited => exact absurd here staying
  | popping =>
    cases returned : p.queue.pop with
    | none =>
      rw [ConnQueue.pop] at returned
      split at returned
      · rw [if_pos closed] at returned
        cases returned
      · cases returned
    | some r =>
      obtain ⟨out, q⟩ := r
      cases out with
      | none =>
        have := moved .exited
        simp only [toGo, here, Worker.rank] at this ⊢
        omega
      | some t =>
        obtain ⟨waiting, -⟩ := ConnQueue.pop_some returned
        have := moved (.popped t)
        have shorter : p.queue.box.waiting.length = q.box.waiting.length + 1 := by rw [waiting, List.length_cons]
        simp only [toGo, here, Worker.rank] at this ⊢
        omega
  | popped t =>
    have := moved (.serving t p.nextId)
    simp only [toGo, here, Worker.rank] at this ⊢
    omega
  | serving t key =>
    obtain ⟨proxy, ended⟩ : ∃ proxy, p.proxy.serveOnce cfg key {} = (false, proxy) := by
      rw [Proxy.serveOnce]
      split
      · rename_i s _
        have none_ : s.round {} = none := by
          rw [Session.round]
          split
          · rfl
          · split <;> rfl
        rw [none_]
        exact ⟨_, rfl⟩
      · exact ⟨_, rfl⟩
    have := moved .popping
    simp only [toGo, here, ended, Worker.rank] at this ⊢
    omega

theorem join_descends (cfg : Config) (main : p.main = .joining) (all : ∀ i < p.size, p.workers i = .exited) :
    (p.next cfg (.main none true)).toGo < p.toGo := by
  have after : p.next cfg (.main none true) = { p with main := .joined } := by
    simp only [next, mainNext, main]
    exact if_pos all
  rw [after]
  simp only [toGo, main, Main.rank]
  omega

/-- Some act of some thread brings the end nearer, if nothing is owed: the signal has come, and every sleeper
that matters was roused. -/
theorem descends {x : House Thread Bell Pool} (sound : Sound cfg x.base)
    (covered : Covered (system cfg) chances released (crew cfg) x) (stopped : x.base.stop = true) (paid : x.owed = [])
    (unfinished : x.base.main ≠ .joined) :
    ∃ acts, (∀ i, .wake i ∈ acts → i = .main) ∧ (run (advance (system cfg)) x acts).base.toGo < x.base.toGo := by
  cases closing : x.base.main.closing with
  | false =>
    -- A sleep in `push_for` ends by its timeout.
    refine ⟨[.wake .main, .go (.main none true)], by simp, ?_⟩
    rw [run_cons, run_cons, run_nil]
    rw [advance_go (x := advance (system cfg) x (.wake .main)) (Finset.notMem_erase _ _) paid (Or.inr ?_)]
    · exact main_descends cfg stopped closing
    · exact Bool.or_true _
  | true =>
    have closed : x.base.queue.closed = true := sound.shut.closed.trans closing
    have main : x.base.main = .joining := by
      cases here : x.base.main with
      | joining => rfl
      | joined => exact absurd here unfinished
      | testing | accepting | pushing | retrying | returned =>
        rw [here] at closing
        cases closing
    -- A closed queue has no sleepers once the notifications are made.
    have awake : ∀ i, i ∉ x.asleep := covered.awake paid fun _ => closed
    by_cases all : ∀ i < x.base.size, x.base.workers i = .exited
    · refine ⟨[.go (.main none true)], by simp, ?_⟩
      rw [run_cons, run_nil, advance_go (awake _) paid (Or.inr (Bool.or_true _))]
      exact join_descends cfg main all
    · obtain ⟨i, left⟩ := not_forall.mp all
      obtain ⟨bound, staying⟩ := Classical.not_imp.mp left
      refine ⟨[.go (.worker i {})], by simp, ?_⟩
      rw [run_cons, run_nil, advance_go (awake _) paid (Or.inr ?_)]
      · exact worker_descends cfg bound closed staying
      · show (x.base.queue.closed || _) = true
        rw [closed, Bool.true_or]

end Pool

/-- **No wakeup is lost in the pool, and it comes to its end.** With notifications that come late and sleepers that
wake for no reason, the pool still makes a run of `Pool`. A worker sleeps while a descriptor is queued, the main thread
while there is room, or either while the queue is closed, only if a notification is on its way or a thread is awake at
the same condition variable. Once the signal has come, the threads can always go on to the end of `run`, with no
sleeper that wakes for no reason: only the wait of `push_for` may end by its timeout. -/
theorem pool_wakeups (cfg : Config) (opened : Finset Nat)
    (acts : List (Bells.Act Pool.Thread Pool.Act)) :
    let x := run (advance (Pool.system cfg)) ⟨.start cfg opened, ∅, []⟩ acts
    (∃ acts', x.base = run (Pool.next cfg) (.start cfg opened) acts') ∧
    (∀ i ∈ x.asleep, ∀ k, x.base.guard i = some k → x.base.queue.closed = true ∨ 0 < Pool.chances x.base k →
      (∃ e ∈ x.owed, e.2 = .one k ∨ e.2 = .all k) ∨ ∃ j, x.base.guard j = some k ∧ j ∉ x.asleep) ∧
    (x.base.stop = true → ∃ more, (∀ i, .wake i ∈ more → i = .main) ∧
      (run (advance (Pool.system cfg)) x more).base.main = .joined) := by
  intro x
  obtain ⟨sound, covered⟩ : Pool.Sound cfg x.base ∧ Covered (Pool.system cfg) _ _ _ x :=
    (Pool.accounts cfg).covered_run (Pool.sound_start cfg opened) (covered_start _) acts
  refine ⟨run_base _ acts, ?_, ?_⟩
  · intro i asleep k there over_
    rcases covered.stirs asleep there over_ with owed | owed | ⟨j, -, here, awake⟩
    · obtain ⟨e, mem, same⟩ := List.mem_map.mp owed
      exact Or.inl ⟨e, mem, Or.inr same⟩
    · obtain ⟨e, mem, same⟩ := List.mem_map.mp owed
      exact Or.inl ⟨e, mem, Or.inl same⟩
    · exact Or.inr ⟨j, here, awake⟩
  · intro stopped
    have acc := (Pool.accounts cfg).and (Q := fun p => p.stop = true) fun p act => (Pool.next_step cfg p act).stop
    obtain ⟨more, timed, -, joined⟩ := acc.comes_to_end (· = .main) (fun p => p.main = .joined) Pool.toGo
      (fun x good covered paid unfinished => Pool.descends good.1 covered good.2 paid unfinished)
      ⟨sound, stopped⟩ covered
    exact ⟨more, timed, joined⟩

end EvProxy
