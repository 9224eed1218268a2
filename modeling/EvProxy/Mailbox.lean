import Mathlib.Data.List.Perm.Basic

/-!
# Mailboxes

A first-in first-out queue that remembers everything that was sent and everything
that was taken. The order of delivery is part of the type: what was taken,
followed by what waits, is what was sent. Nothing is lost, doubled or overtaken
by any sequence of operations.
-/

/-- What was sent, what of it was taken, and what still waits. -/
structure Mailbox (α : Type*) where
  sent : List α
  taken : List α
  waiting : List α
  order : taken ++ waiting = sent

namespace Mailbox

variable {α : Type*} (m : Mailbox α)

def empty : Mailbox α := ⟨[], [], [], rfl⟩

/-- Put one more in at the end. -/
def send (a : α) : Mailbox α where
  sent := m.sent ++ [a]
  taken := m.taken
  waiting := m.waiting ++ [a]
  order := by rw [← List.append_assoc, m.order]

/-- Take the first one that waits. -/
def takeFront : Option (α × Mailbox α) :=
  match front : m.waiting with
  | [] => none
  | a :: rest => some (a,
      { sent := m.sent, taken := m.taken ++ [a], waiting := rest,
        order := by rw [← m.order, front, List.append_assoc, List.singleton_append] })

/-- Take all that wait. -/
def takeAll : Mailbox α where
  sent := m.sent
  taken := m.taken ++ m.waiting
  waiting := []
  order := by rw [List.append_nil, m.order]

@[simp] theorem empty_waiting : (empty : Mailbox α).waiting = [] := rfl
@[simp] theorem send_sent (a : α) : (m.send a).sent = m.sent ++ [a] := rfl
@[simp] theorem send_taken (a : α) : (m.send a).taken = m.taken := rfl
@[simp] theorem send_waiting (a : α) : (m.send a).waiting = m.waiting ++ [a] := rfl
@[simp] theorem takeAll_sent : m.takeAll.sent = m.sent := rfl
@[simp] theorem takeAll_taken : m.takeAll.taken = m.taken ++ m.waiting := rfl

variable {m}

theorem takeFront_eq_none : m.takeFront = none ↔ m.waiting = [] := by
  unfold takeFront
  split <;> rename_i front <;> simp [front]

theorem takeFront_eq_some {a : α} {m' : Mailbox α} (front : m.takeFront = some (a, m')) :
    m.waiting = a :: m'.waiting ∧ m'.taken = m.taken ++ [a] ∧ m'.sent = m.sent := by
  unfold takeFront at front
  split at front
  · cases front
  · rename_i waiting
    cases front
    exact ⟨waiting, rfl, rfl⟩

/-- An empty mailbox has delivered everything. -/
theorem taken_eq_sent (empty : m.waiting = []) : m.taken = m.sent := by
  rw [← m.order, empty, List.append_nil]

end Mailbox
