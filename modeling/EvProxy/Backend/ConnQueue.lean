import EvProxy.Runs
import EvProxy.Mailbox

/-!
# The bounded queue of accepted connections (`conn_queue.cpp`)

`push_for`, `pop` and `close` each hold the mutex for one critical section; a
call that finds its condition unmet waits, which is `none` here, and may come
back to the same section later. The bound is part of the type. `Log` records how
the calls of any number of threads returned, and `Log.Sound` is what holds of
every such record.
-/

namespace EvProxy
open Runs

inductive PushStatus where
  | pushed
  | timedOut
  | closed
  deriving DecidableEq

structure ConnQueue (α : Type) where
  capacity : Nat
  box : Mailbox α := .empty
  closed : Bool := false
  room : box.waiting.length ≤ capacity

namespace ConnQueue

variable {α : Type}

/-- The constructor: a capacity of 0 becomes 1. -/
def make (capacity : Nat) : ConnQueue α where
  capacity := if capacity = 0 then 1 else capacity
  room := Nat.zero_le _

/-- The critical section of `push_for`, entered with its timeout over or not: the
status and what is left in the caller's `fd`. -/
def pushFor (q : ConnQueue α) (fd : α) (fired : Bool) : Option (PushStatus × Option α × ConnQueue α) :=
  if q.closed then some (.closed, some fd, q)
  else if space : q.box.waiting.length < q.capacity then
    some (.pushed, none, { q with
      box := q.box.send fd
      room := by rw [Mailbox.send_waiting, List.length_append]; exact space })
  else if fired then some (.timedOut, some fd, q)
  else none

/-- The critical section of `pop`: the element, or `none` for `false`. -/
def pop (q : ConnQueue α) : Option (Option α × ConnQueue α) :=
  match front : q.box.takeFront with
  | none => if q.closed then some (none, q) else none
  | some (fd, box) => some (some fd, { q with
      box := box
      room := by
        have shorter := congrArg List.length (Mailbox.takeFront_eq_some front).1
        rw [List.length_cons] at shorter
        have := q.room
        omega })

def close (q : ConnQueue α) : ConnQueue α := { q with closed := true }

variable {q q' : ConnQueue α} {fd : α}

theorem make_capacity (capacity : Nat) : (make capacity : ConnQueue α).capacity = max 1 capacity := by
  change (if capacity = 0 then 1 else capacity) = max 1 capacity
  split <;> omega

/-- The ways `push_for` returns. -/
theorem pushFor_cases {fired : Bool} {status : PushStatus} {left : Option α}
    (returned : q.pushFor fd fired = some (status, left, q')) :
    (status = .pushed ∧ left = none ∧ q.closed = false ∧ q'.box = q.box.send fd ∧ q'.closed = false ∧
      q'.capacity = q.capacity) ∨ (status ≠ .pushed ∧ left = some fd ∧ q' = q) := by
  unfold pushFor at returned
  split at returned
  · cases returned
    exact .inr ⟨nofun, rfl, rfl⟩
  · rename_i running
    rw [Bool.not_eq_true] at running
    split at returned
    · cases returned
      exact .inl ⟨rfl, rfl, running, rfl, running, rfl⟩
    · split at returned
      · cases returned
        exact .inr ⟨nofun, rfl, rfl⟩
      · cases returned

theorem pop_some (returned : q.pop = some (some fd, q')) :
    q.box.waiting = fd :: q'.box.waiting ∧ q'.box.taken = q.box.taken ++ [fd] ∧ q'.box.sent = q.box.sent ∧
      q'.closed = q.closed ∧ q'.capacity = q.capacity := by
  unfold pop at returned
  split at returned
  · split at returned <;> cases returned
  · rename_i front
    cases returned
    obtain ⟨waiting, taken, sent⟩ := Mailbox.takeFront_eq_some front
    exact ⟨waiting, taken, sent, rfl, rfl⟩

theorem pop_none (returned : q.pop = some (none, q')) : q.closed = true ∧ q.box.waiting = [] ∧ q' = q := by
  unfold pop at returned
  split at returned
  · rename_i empty
    split at returned
    · rename_i closed
      cases returned
      exact ⟨closed, Mailbox.takeFront_eq_none.mp empty, rfl⟩
    · cases returned
  · cases returned

/-! ## Every interleaving of calls -/

/-- A critical section that some thread enters. -/
inductive Call (α : Type) where
  | pushFor (fd : α) (fired : Bool)
  | pop
  | close

/-- How a call returned. -/
inductive Return (α : Type) where
  | push (status : PushStatus) (fd : α) (left : Option α)
  | pop (out : Option α)
  | close
  deriving DecidableEq

structure Log (α : Type) where
  queue : ConnQueue α
  returns : List (Return α) := []

def Log.next (l : Log α) : Call α → Log α
  | .pushFor fd fired =>
    match l.queue.pushFor fd fired with
    | none => l
    | some (status, left, q) => ⟨q, l.returns ++ [.push status fd left]⟩
  | .pop =>
    match l.queue.pop with
    | none => l
    | some (out, q) => ⟨q, l.returns ++ [.pop out]⟩
  | .close => ⟨l.queue.close, l.returns ++ [.close]⟩

/-- The elements whose push returned `Pushed`, in order. -/
def pushes (returns : List (Return α)) : List α :=
  returns.filterMap fun
    | .push .pushed fd _ => some fd
    | _ => none

/-- The elements that `pop` returned, in order. -/
def pops (returns : List (Return α)) : List α :=
  returns.filterMap fun
    | .pop (some fd) => some fd
    | _ => none

/-- What a return says about the ones before it. -/
def Justified (past : List (Return α)) : Return α → Prop
  | .push status fd left => (status = .pushed → left = none ∧ .close ∉ past) ∧ (status ≠ .pushed → left = some fd)
  | .pop none => .close ∈ past ∧ pops past = pushes past
  | _ => True

/-- The queue and its record agree. -/
structure Log.Sound (capacity : Nat) (l : Log α) : Prop where
  capacity : l.queue.capacity = max 1 capacity
  sent : l.queue.box.sent = pushes l.returns
  taken : l.queue.box.taken = pops l.returns
  closed : l.queue.closed = true ↔ .close ∈ l.returns
  justified : Each Justified l.returns

theorem pushes_append (past new : List (Return α)) : pushes (past ++ new) = pushes past ++ pushes new :=
  List.filterMap_append

theorem pops_append (past new : List (Return α)) : pops (past ++ new) = pops past ++ pops new :=
  List.filterMap_append

theorem sound_make (capacity : Nat) : Log.Sound capacity (⟨make capacity, []⟩ : Log α) where
  capacity := make_capacity capacity
  sent := rfl
  taken := rfl
  closed := by simp [make]
  justified := each_of_forall nofun

namespace Log.Sound

variable {capacity : Nat} {l : Log α}

/-- A return that moves no element. -/
theorem quiet (h : l.Sound capacity) {e : Return α} (capacity_eq : q'.capacity = l.queue.capacity)
    (box : q'.box = l.queue.box) (closed : q'.closed = true ↔ .close ∈ l.returns ++ [e]) (pushes_nil : pushes [e] = [])
    (pops_nil : pops [e] = []) (justified : Justified l.returns e) : Log.Sound capacity ⟨q', l.returns ++ [e]⟩ where
  capacity := capacity_eq.trans h.capacity
  sent := by rw [box, h.sent, pushes_append, pushes_nil, List.append_nil]
  taken := by rw [box, h.taken, pops_append, pops_nil, List.append_nil]
  closed := closed
  justified := h.justified.concat justified

theorem push (h : l.Sound capacity) {fired : Bool} {status : PushStatus} {left : Option α}
    (returned : l.queue.pushFor fd fired = some (status, left, q')) :
    Log.Sound capacity ⟨q', l.returns ++ [.push status fd left]⟩ := by
  rcases pushFor_cases returned with ⟨rfl, rfl, running, box, closed, same⟩ | ⟨failed, rfl, rfl⟩
  · have unclosed : .close ∉ l.returns := fun past => by simpa [running] using h.closed.mpr past
    refine ⟨same.trans h.capacity, ?_, ?_, ?_, h.justified.concat ⟨fun _ => ⟨rfl, unclosed⟩, nofun⟩⟩
    · rw [box, Mailbox.send_sent, h.sent, pushes_append]
      rfl
    · rw [box, Mailbox.send_taken, h.taken, pops_append]
      exact (List.append_nil _).symm
    · simp [closed, unclosed]
  · have unpushed : pushes [.push status fd (some fd)] = [] := by
      cases status <;> simp [pushes] at failed ⊢
    exact h.quiet rfl rfl (by simp [h.closed]) unpushed rfl ⟨fun pushed => absurd pushed failed, fun _ => rfl⟩

theorem pop (h : l.Sound capacity) {out : Option α} (returned : l.queue.pop = some (out, q')) :
    Log.Sound capacity ⟨q', l.returns ++ [.pop out]⟩ := by
  cases out with
  | none =>
    obtain ⟨closed, empty, rfl⟩ := pop_none returned
    have all : pops l.returns = pushes l.returns := by
      rw [← h.taken, ← h.sent]
      exact Mailbox.taken_eq_sent empty
    exact h.quiet rfl rfl (by simp [h.closed]) rfl rfl ⟨h.closed.mp closed, all⟩
  | some fd =>
    obtain ⟨-, taken, sent, closed, same⟩ := pop_some returned
    refine ⟨same.trans h.capacity, ?_, ?_, ?_, h.justified.concat trivial⟩
    · rw [sent, h.sent, pushes_append]
      exact (List.append_nil _).symm
    · rw [taken, h.taken, pops_append]
      rfl
    · simp [closed, h.closed]

theorem next (h : l.Sound capacity) (call : Call α) : (l.next call).Sound capacity := by
  cases call with
  | pushFor fd fired =>
    rw [Log.next]
    split
    · exact h
    · rename_i returned
      exact h.push returned
  | pop =>
    rw [Log.next]
    split
    · exact h
    · rename_i returned
      exact h.pop returned
  | close => exact h.quiet rfl rfl (by simp [close]) rfl rfl trivial

end Log.Sound

/-- **The queue through any interleaving.** -/
theorem sound_run (capacity : Nat) (calls : List (Call α)) : (run Log.next ⟨make capacity, []⟩ calls).Sound capacity :=
  run_invariant (fun _ call h => h.next call) (sound_make capacity) calls

end ConnQueue

end EvProxy
