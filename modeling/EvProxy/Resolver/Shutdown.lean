import EvProxy.Bells
import EvProxy.Crew
import EvProxy.Resolver.HandOff

/-!
# Sleeping and waking in the resolver (`resolver.cpp`)

The threads of `worker_loop` sleep at `queue_cv_`; `start` notifies one of them
after it has let go of the mutex, and `shutdown` all. No interleaving loses a
wakeup, and `shutdown` always comes to its end, with every job published that
was queued (`resolver_wakeups`).
-/

namespace EvProxy
open Runs Crew Bells

namespace Resolver

inductive Thread where
  | worker (i : Nat)
  /-- The thread that called `start` for a connection. -/
  | client (owner : Nat)
  /-- The thread in `shutdown`. -/
  | closer
  /-- Whoever makes a step that does not touch the queue. -/
  | other
  deriving DecidableEq

def Act.thread : Act → Thread
  | .work i _ _ => .worker i
  | .push owner _ _ _ _ => .client owner
  | .close => .closer
  | _ => .other

def guard (r : Resolver) : Thread → Option Unit
  | .worker i => if i < r.size ∧ r.workers i = .waiting then some () else none
  | _ => none

def passes (r : Resolver) : Act → Bool
  | .work _ _ _ => r.closed || !r.queue.waiting.isEmpty
  | _ => true

def notes (r : Resolver) : Act → List (Bells.Note Unit)
  | .push _ _ _ _ _ => if r.closed then [] else [.one ()]
  | .close => if r.closed then [] else [.all ()]
  | _ => []

def system : System Thread Unit Resolver Act where
  next := next
  actor := Act.thread
  guard := guard
  passes := passes
  notes := notes

def chances (r : Resolver) (_ : Unit) : Nat := r.queue.waiting.length

def released (r : Resolver) (_ : Unit) : Bool := r.closed

def crew (size : Nat) : Finset Thread := (Finset.range size).image .worker

variable {r r' : Resolver} {act : Act}

/-! ## Every section notifies for what it makes possible -/

theorem guard_congr (size : r'.size = r.size) (workers : r'.workers = r.workers) (i : Thread) :
    r'.guard i = r.guard i := by
  cases i <;> simp only [guard, size, workers]

theorem guard_eq_some {i : Thread} {k : Unit} (there : r.guard i = some k) :
    ∃ j < r.size, i = .worker j ∧ r.workers j = .waiting := by
  cases i with
  | worker j =>
    rw [guard] at there
    split at there
    · rename_i here
      exact ⟨j, here.1, rfl, here.2⟩
    · cases there
  | client | closer | other => cases there

/-- A thread on a job does not wait. -/
theorem guard_on {i j : Nat} {duty : Duty} (here : r.workers i = .on j duty) : r.guard (.worker i) = none := by
  rw [guard, if_neg]
  rintro ⟨-, waiting⟩
  rw [here] at waiting
  cases waiting

/-- One worker moves. -/
theorem guard_others {i : Nat} (size : r'.size = r.size) (workers : ∀ j ≠ i, r'.workers j = r.workers j) {k : Thread}
    (other : k ≠ .worker i) : r'.guard k = r.guard k := by
  cases k with
  | worker j => simp only [guard, size, workers j fun same => other (same ▸ rfl)]
  | client | closer | other => rfl

theorem Step.guard (step : Step r act r') {i : Thread} (other : i ≠ act.thread) : r'.guard i = r.guard i := by
  cases step with
  | aside _ _ same => exact guard_congr same.size same.workers i
  | dequeued | exited | letGo =>
    refine guard_others ?_ (fun j apart => ?_) other
    · rfl
    · exact Function.update_of_ne apart _ _
  | went i found wrote j bound here same =>
    refine guard_others ?_ (fun k apart => ?_) other
    · exact same.size
    · exact (Function.update_of_ne apart _ _).trans (congrFun same.workers k)
  | closed | pushed | drained | taken | discarded => exact guard_congr rfl rfl i

theorem no_chance {k : Unit} (there : r.guard act.thread = some k) (stuck : r.passes act = false) :
    chances r k = 0 ∧ released r k = false := by
  cases act with
  | work i found wrote =>
    simp only [passes, Bool.or_eq_false_iff, Bool.not_eq_false', List.isEmpty_iff] at stuck
    exact ⟨by rw [chances, stuck.2]; rfl, stuck.1⟩
  | _ => cases there

/-- **What a step owes.** -/
theorem Step.pays (step : Step r act r') (k : Unit) (may : r.guard act.thread = none ∨ r.passes act = true) :
    .all k ∈ r.notes act ∨ released r k = true ∨ released r' k = false ∧
      (chances r' k = 0 ∨
        chances r' k + (if r.guard act.thread = some k then 1 else 0) ≤
          chances r k + (r.notes act).count (.one k) + if r'.guard act.thread = some k then 1 else 0) := by
  cases closed : r.closed with
  | true => exact Or.inr (Or.inl closed)
  | false =>
    cases step with
    | closed => exact Or.inl (by simp [notes, closed])
    | aside _ _ same idle =>
      have guards := guard_congr same.size same.workers act.thread
      refine Or.inr (Or.inr ⟨same.closed.trans closed, Or.inr ?_⟩)
      rw [guards, chances, chances, same.queue]
      omega
    | pushed owner host port readEnd writeEnd =>
      refine Or.inr (Or.inr ⟨closed, Or.inr ?_⟩)
      have queued : (r.queue.waiting ++ [r.made]).length = r.queue.waiting.length + 1 := List.length_append
      have owed : r.notes (.push owner host port readEnd writeEnd) = [.one ()] := if_neg (by simp [closed])
      rw [owed, List.count_singleton_self]
      exact Nat.add_le_add_right (Nat.le_of_eq queued) _
    | dequeued i found wrote j queue bound here front =>
      refine Or.inr (Or.inr ⟨closed, Or.inr ?_⟩)
      have there : r.guard (.worker i) = some () := if_pos ⟨bound, here⟩
      rw [Act.thread, there, if_pos rfl]
      have waiting := congrArg List.length (Mailbox.takeFront_eq_some front).1
      rw [List.length_cons] at waiting
      show queue.waiting.length + 1 ≤ r.queue.waiting.length + _ + _
      omega
    | exited i found wrote bound here empty shut => exact absurd (closed.symm.trans shut) (by simp)
    | went i found wrote j bound here same =>
      refine Or.inr (Or.inr ⟨same.closed.trans closed, Or.inr ?_⟩)
      rw [Act.thread, guard_on here, if_neg nofun]
      have kept := congrArg (fun q => q.waiting.length) same.queue
      exact Nat.le_add_right_of_le (Nat.le_add_right_of_le (Nat.le_of_eq kept))
    | letGo i found wrote j f bound here =>
      refine Or.inr (Or.inr ⟨closed, Or.inr ?_⟩)
      rw [Act.thread, guard_on here, if_neg nofun]
      exact Nat.le_add_right_of_le (Nat.le_add_right _ _)
    | drained | taken =>
      exact Or.inr (Or.inr ⟨closed, Or.inr (Nat.le_add_right_of_le (Nat.le_add_right _ _))⟩)
    | discarded j queue shut => exact absurd (closed.symm.trans shut) (by simp)

theorem accounts (size : Nat) : system.Accounts chances released (crew size) fun r => Sound r ∧ r.size = size where
  keeps act := fun ⟨sound, same⟩ => ⟨sound.step (next_step _ act), (next_step _ act).settings.1.trans same⟩
  crew := by
    rintro r i k ⟨-, rfl⟩ there
    obtain ⟨j, bound, rfl, -⟩ := guard_eq_some there
    exact Finset.mem_image_of_mem _ (Finset.mem_range.mpr bound)
  stays _ other := (next_step _ _).guard other
  sleeps _ there stuck := no_chance there stuck
  pays k _ may := (next_step _ _).pays k may

/-! ## The end of `shutdown` -/

/-- The steps a thread has before it until it waits again, and the one to leave. -/
def Worker.rank : Worker → Nat
  | .exited => 0
  | .waiting => 1
  | .on _ (.publishing _ stage) => 9 - stage.rank
  | .on _ .looking => 10

theorem Stage.rank_next {stage stage' : Stage} (next : stage.next = some stage') :
    stage'.rank = stage.rank + 1 ∧ stage'.rank ≤ 7 := by
  cases stage <;> cases next <;> decide

/-- What is left to do; a queued job has all its steps before it. -/
def toGo (r : Resolver) : Nat :=
  carried Worker.rank (fun w => [w]) r.workers r.size + 10 * r.queue.waiting.length

/-- A thread of a closed resolver moves towards the end, whatever the lookup finds. -/
theorem worker_descends {i : Nat} (bound : i < r.size) (closed : r.closed = true) (staying : r.workers i ≠ .exited)
    (found : Found) (wrote : Bool) : (r.next (.work i found wrote)).toGo < r.toGo := by
  have moved (new : Worker) : carried Worker.rank (fun w => [w]) (Function.update r.workers i new) r.size +
      (r.workers i).rank = carried Worker.rank (fun w => [w]) r.workers r.size + new.rank :=
    carried_update_self bound new
  rw [next, if_pos bound, work]
  cases here : r.workers i with
  | exited => exact absurd here staying
  | waiting =>
    cases front : r.queue.takeFront with
    | none =>
      have := moved .exited
      simp only [if_pos closed, toGo, here, Worker.rank] at this ⊢
      omega
    | some q =>
      obtain ⟨j, queue⟩ := q
      have := moved (.on j .looking)
      have waiting := congrArg List.length (Mailbox.takeFront_eq_some front).1
      simp only [toGo, hold, here, Worker.rank, List.length_cons] at this waiting ⊢
      omega
  | on j duty =>
    cases duty with
    | looking =>
      have := moved (.on j (.publishing found .endpoints))
      simp only [toGo, hold, note, here, Worker.rank, Stage.rank] at this ⊢
      omega
    | publishing f stage =>
      cases after : stage.next with
      | none =>
        have := moved .waiting
        obtain rfl : stage = .drop := by cases stage <;> first | rfl | cases after
        simp only [after, toGo, letGo, here, Worker.rank, Stage.rank] at this ⊢
        omega
      | some stage' =>
        have := moved (.on j (.publishing f stage'))
        have kept := same_storeFound r j f stage
        obtain ⟨rank, bound⟩ := Stage.rank_next after
        simp only [after, toGo, hold, kept.workers, kept.size, kept.queue, here, Worker.rank] at this ⊢
        omega

theorem Step.shut (step : Step r act r') (closed : r.closed = true) : r'.closed = true := by
  cases step with
  | aside _ _ same => exact same.closed.trans closed
  | went i found wrote j bound here same => exact same.closed.trans closed
  | closed => rfl
  | _ => exact closed

/-- Some step of some thread brings the end nearer, if nothing is owed. -/
theorem descends {x : House Thread Unit Resolver} {size : Nat} (covered : Covered system chances released (crew size) x)
    (closed : x.base.closed = true) (paid : x.owed = [])
    (unfinished : ¬ ∀ i < x.base.size, x.base.workers i = .exited) :
    ∃ acts, (∀ i, .wake i ∉ acts) ∧ (run (advance system) x acts).base.toGo < x.base.toGo := by
  obtain ⟨i, left⟩ := not_forall.mp unfinished
  obtain ⟨bound, staying⟩ := Classical.not_imp.mp left
  -- A closed resolver has no sleepers once the notifications are made.
  have awake : .worker i ∉ x.asleep := covered.awake paid (fun _ => closed) _
  have passes : system.passes x.base (.work i ⟨false, [], []⟩ true) = true := by
    show (x.base.closed || _) = true
    rw [closed, Bool.true_or]
  refine ⟨[.go (.work i ⟨false, [], []⟩ true)], by simp, ?_⟩
  rw [run_cons, run_nil, advance_go awake paid (Or.inr passes)]
  exact worker_descends bound closed staying _ _

/-- Once its threads are gone, a resolver that had any has no job in hand. -/
theorem Sound.all_published (sound : Sound r) (some_ : 0 < r.size) (gone : ∀ i < r.size, r.workers i = .exited)
    {j : Nat} (made : j < r.made) : (r.jobs j).status = .finished ∨ (r.jobs j).status = .discarded := by
  cases status : (r.jobs j).status with
  | finished => exact Or.inl rfl
  | discarded => exact Or.inr rfl
  | unmade => exact absurd ((sound.unmade j).mp status) (Nat.not_le.mpr made)
  | queued =>
    have waiting := (sound.waiting j).mpr status
    rw [(sound.left 0 (gone 0 some_)).2] at waiting
    cases waiting
  | held i duty =>
    have here := (sound.held i j duty).mpr status
    have bound : i < r.size := sound.bound here
    rw [gone i bound] at here
    cases here

end Resolver

/-- **No wakeup is lost in the resolver, and `shutdown` comes to its end.** With notifications that come late and
sleepers that wake for no reason, the resolver still makes a run of `Resolver`. A thread sleeps while a job is queued
or the resolver is closed only if a notification is on its way or another thread is awake at the queue. Once the
resolver is closed its threads can always go on until all have left, with no sleeper that wakes for no reason, and
then a resolver that had a thread has no job queued or half published. -/
theorem resolver_wakeups (size : Nat) (cacheTtlS now : Int) (acts : List (Bells.Act Resolver.Thread Resolver.Act)) :
    let x := run (advance Resolver.system) ⟨.start size cacheTtlS now, ∅, []⟩ acts
    (∃ acts', x.base = run Resolver.next (.start size cacheTtlS now) acts') ∧
    (∀ i ∈ x.asleep, x.base.closed = true ∨ x.base.queue.waiting ≠ [] →
      x.owed ≠ [] ∨ ∃ j < size, x.base.workers j = .waiting ∧ .worker j ∉ x.asleep) ∧
    (x.base.closed = true → ∃ more, (∀ i, .wake i ∉ more) ∧
      let r := (run (advance Resolver.system) x more).base
      (∀ i < size, r.workers i = .exited) ∧
        (0 < size → ∀ j < r.made, (r.jobs j).status = .finished ∨ (r.jobs j).status = .discarded)) := by
  intro x
  obtain ⟨⟨sound, same⟩, covered⟩ :
      (Resolver.Sound x.base ∧ x.base.size = size) ∧ Covered Resolver.system _ _ _ x :=
    (Resolver.accounts size).covered_run ⟨.start size cacheTtlS now, rfl⟩ (covered_start _) acts
  refine ⟨run_base _ acts, ?_, ?_⟩
  · intro i asleep over_
    obtain ⟨⟨⟩, there⟩ := covered.waits i asleep
    rcases covered.stirs asleep there (over_.imp_right List.length_pos_iff.mpr) with owed | owed | ⟨j, -, here, awake⟩
    · exact Or.inl fun none_ => by simp [none_] at owed
    · exact Or.inl fun none_ => by simp [none_] at owed
    · obtain ⟨j, bound, rfl, waiting⟩ := Resolver.guard_eq_some here
      exact Or.inr ⟨j, same ▸ bound, waiting, awake⟩
  · intro closed
    have acc := (Resolver.accounts size).and (Q := fun r => r.closed = true)
      fun r act => (Resolver.next_step r act).shut
    obtain ⟨more, quiet, ⟨⟨sound, same⟩, -⟩, gone⟩ :=
      acc.comes_to_end (fun _ => False) (fun r => ∀ i < r.size, r.workers i = .exited) Resolver.toGo
        (fun x good covered paid unfinished => Resolver.descends covered good.2 paid unfinished)
        ⟨⟨sound, same⟩, closed⟩ covered
    refine ⟨more, quiet, ?_⟩
    rw [← same]
    exact ⟨gone, fun some_ j made => sound.all_published some_ gone made⟩

end EvProxy
