import EvProxy.Runs
import EvProxy.Mailbox

/-!
# The hand-off queue of a shard (`Inbox` in `backend/event_loop.cpp`)

`push` appends under the lock and then writes a byte into the pipe, waiting
while it is full; `take_from_inbox` empties the pipe and then swaps the queue out
under the lock. Any number of pushes may be between their two steps, and one
byte may stand for several descriptors or for none. `Woken` is what keeps a
queued descriptor from being forgotten.
-/

namespace EvProxy
open Runs

/-- The queue with its history, the bytes in the pipe, and the threads in between. -/
structure Inbox (α : Type) where
  box : Mailbox α := .empty
  /-- How many bytes the pipe can hold. -/
  room : Nat
  bytes : Nat := 0
  /-- Pushes that have appended and not yet written. -/
  writing : Nat := 0
  /-- A take has emptied the pipe and not yet swapped the queue. -/
  taking : Bool := false

namespace Inbox

variable {α : Type}

inductive Act (α : Type) where
  | append (fd : α)
  | write
  | drain
  | swap

def next (b : Inbox α) : Act α → Inbox α
  | .append fd => { b with box := b.box.send fd, writing := b.writing + 1 }
  | .write =>
    -- a write to a full pipe waits
    if 0 < b.writing ∧ b.bytes < b.room then { b with bytes := b.bytes + 1, writing := b.writing - 1 } else b
  | .drain => if b.taking then b else { b with bytes := 0, taking := true }
  | .swap => if b.taking then { b with box := b.box.takeAll, taking := false } else b

theorem drain_box (b : Inbox α) : (b.next .drain).box = b.box ∧ (b.next .drain).taking = true := by
  rw [next]
  split
  · rename_i begun
    exact ⟨rfl, begun⟩
  · exact ⟨rfl, rfl⟩

/-- A take that nothing comes between, or the rest of one that has begun. -/
theorem take_box (b : Inbox α) : ((b.next .drain).next .swap).box = b.box.takeAll := by
  obtain ⟨box, taking⟩ := drain_box b
  have swapped : ((b.next .drain).next .swap).box = (b.next .drain).box.takeAll := by
    generalize b.next .drain = c at taking ⊢
    rw [next, if_pos taking]
  rw [swapped, box]

/-- Whoever is in the queue: a byte is in the pipe, or on its way there, or a take is about to see the queue. -/
def Woken (b : Inbox α) : Prop := b.box.waiting ≠ [] → 0 < b.bytes ∨ 0 < b.writing ∨ b.taking = true

theorem Woken.next {b : Inbox α} (h : Woken b) (act : Act α) : Woken (b.next act) := by
  cases act with
  | append fd => exact fun _ => .inr (.inl (Nat.succ_pos _))
  | write =>
    rw [Inbox.next]
    split
    · exact fun _ => .inl (Nat.succ_pos _)
    · exact h
  | drain =>
    rw [Inbox.next]
    split
    · exact h
    · exact fun _ => .inr (.inr rfl)
  | swap =>
    rw [Inbox.next]
    split
    · exact fun queued => absurd rfl queued
    · exact h

/-- The descriptors pushed in a run. -/
def appended (acts : List (Act α)) : List α :=
  acts.filterMap fun
    | .append fd => some fd
    | _ => none

theorem sent_next (b : Inbox α) (act : Act α) : (b.next act).box.sent = b.box.sent ++ appended [act] := by
  cases act with
  | append fd => rfl
  | write =>
    rw [next]
    split <;> exact (List.append_nil _).symm
  | drain =>
    rw [next]
    split <;> exact (List.append_nil _).symm
  | swap =>
    rw [next]
    split <;> exact (List.append_nil _).symm

theorem sent_run (b : Inbox α) (acts : List (Act α)) : (run next b acts).box.sent = b.box.sent ++ appended acts := by
  induction acts generalizing b with
  | nil => exact (List.append_nil _).symm
  | cons act acts ih =>
    have split : appended (act :: acts) = appended [act] ++ appended acts :=
      List.filterMap_append (l := [act])
    rw [run_cons, ih, sent_next, split, List.append_assoc]

end Inbox

/-- **No lost wakeup.** Over every interleaving a queued descriptor has its wakeup before it, and what was adopted is,
in order, what was pushed less what is still queued. -/
theorem no_lost_wakeup (α : Type) (room : Nat) (acts : List (Inbox.Act α)) :
    let b := run Inbox.next { room := room } acts
    (b.box.waiting ≠ [] → 0 < b.bytes ∨ 0 < b.writing ∨ b.taking = true) ∧
      b.box.taken ++ b.box.waiting = Inbox.appended acts := by
  refine ⟨?_, ?_⟩
  · exact run_invariant (P := Inbox.Woken) (fun b act h => h.next act) (fun queued => absurd rfl queued) acts
  · rw [Mailbox.order, Inbox.sent_run]
    exact List.nil_append _

end EvProxy
