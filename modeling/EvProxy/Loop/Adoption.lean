import EvProxy.Loop.State
import EvProxy.Proxy.Roster

/-!
# The connections of a shard

A shard's loop makes its connections from its inbox alone. `Fed` says which
descriptors became which connections. What the loop does between two looks at
the inbox only adds connections (`Tends`): serving adds none, and
`take_from_inbox` adds one for each descriptor of the queue, in order.
-/

namespace EvProxy
open Runs

namespace Loop

/-- The connections of the loop, by the descriptor each came from; no listener is armed. -/
structure Fed (cfg : Config) (fds : List Nat) (l : Loop) : Prop where
  roster : Roster cfg fds l.proxy
  nextId : l.nextId = fds.length
  unlistened : ∀ reg, l.kq reg ≠ some .listener

/-- The loop tends its connections and makes new ones from the descriptors `new`. -/
structure Tends (cfg : Config) (new : List Nat) (l l' : Loop) : Prop where
  fed : ∀ fds, Fed cfg fds l → Fed cfg (fds ++ new) l'
  queue : l'.queue = l.queue
  pending : l'.pending = l.pending
  stopping : l'.stopping = l.stopping

variable {cfg : Config} {l l₁ l₂ l₃ : Loop} {new new' : List Nat}

/-- Nothing new, and the queue, the batch and the flag as they were. -/
theorem tends_none {l l' : Loop} (fed : ∀ fds, Fed cfg fds l → Fed cfg fds l') (queue : l'.queue = l.queue)
    (pending : l'.pending = l.pending) (stopping : l'.stopping = l.stopping) : Tends cfg [] l l' :=
  ⟨fun fds h => (List.append_nil fds).symm ▸ fed fds h, queue, pending, stopping⟩

theorem Tends.refl (cfg : Config) (l : Loop) : Tends cfg [] l l := tends_none (fun _ h => h) rfl rfl rfl

theorem Tends.trans (first : Tends cfg new l₁ l₂) (second : Tends cfg new' l₂ l₃) : Tends cfg (new ++ new') l₁ l₃ where
  fed := fun fds h => List.append_assoc fds new new' ▸ second.fed _ (first.fed fds h)
  queue := second.queue.trans first.queue
  pending := second.pending.trans first.pending
  stopping := second.stopping.trans first.stopping

theorem Tends.after (first : Tends cfg new l₁ l₂) (second : Tends cfg [] l₂ l₃) : Tends cfg new l₁ l₃ :=
  List.append_nil new ▸ first.trans second

theorem Tends.fed_same {fds : List Nat} (tends : Tends cfg [] l₁ l₂) (h : Fed cfg fds l₁) : Fed cfg fds l₂ :=
  List.append_nil fds ▸ tends.fed fds h

/-! ## Serving -/

theorem disarm_tends (cfg : Config) (reg : Reg) (l : Loop) : Tends cfg [] l (l.disarm reg) := by
  refine tends_none (fun fds h => ⟨h.roster, h.nextId, fun r => ?_⟩) rfl rfl rfl
  by_cases same : r = reg
  · simp [disarm, same]
  · simpa [disarm, same] using h.unlistened r

theorem attach_tends (cfg : Config) (ptr key : Nat) (c : Connection) (fd : Nat) (l : Loop) :
    Tends cfg [] l (l.attach ptr key c fd) := by
  refine tends_none (fun fds h => ⟨h.roster, h.nextId, fun r => ?_⟩) rfl rfl rfl
  by_cases same : r = (fd, c.wantWrite)
  · simp [attach, arm, same]
  · simpa [attach, arm, same] using h.unlistened r

/-- A move that keeps the roster. -/
theorem move_tends {m : Move} (events : List Event)
    (keeps : ∀ fds, Roster cfg fds l.proxy → Roster cfg fds (l.proxy.next cfg m)) :
    Tends cfg [] l (l.move cfg m events) := by
  refine tends_none (fun fds h => ⟨keeps fds h.roster, h.nextId, fun r => ?_⟩) rfl rfl rfl
  simp only [move, Kqueue.close]
  split
  · nofun
  · exact h.unlistened r

/-- A move of the rest of the process. -/
theorem outside_tends (cfg : Config) (m : Move) (events : List Event)
    (same : (l.proxy.next cfg m).entries = l.proxy.entries) : Tends cfg [] l (l.move cfg m events) :=
  move_tends events fun _ h => h.congr same

theorem destroy_tends (cfg : Config) (key : Nat) (lastRef : Bool) (l : Loop) :
    Tends cfg [] l (l.destroy cfg key lastRef) := by
  unfold destroy
  split
  · rename_i s here
    exact move_tends _ fun fds h => h.destroy ⟨s, here⟩ lastRef
  · exact .refl cfg l

theorem erase_tends (cfg : Config) (ptr : Nat) (slot : Slot) (lastRef : Bool) (l : Loop) :
    Tends cfg [] l (l.erase cfg ptr slot lastRef) := by
  have vacated : Tends cfg [] l { l with live := Function.update l.live ptr none } :=
    tends_none (fun _ h => ⟨h.roster, h.nextId, h.unlistened⟩) rfl rfl rfl
  exact vacated.after (destroy_tends cfg slot.key lastRef _)

theorem service_tends (cfg : Config) (ptr : Nat) (turn : Turn) (l : Loop) :
    Tends cfg [] l (l.service cfg ptr turn) := by
  unfold service
  split
  · exact .refl cfg l
  · rename_i slot live
    split
    · rename_i s here
      have ready : Tends cfg [] l (l.move cfg (.ready slot.key turn.answers)
          (onReady cfg turn.answers ⟨s.conn, l.proxy.cache, []⟩).trace) :=
        move_tends _ fun fds h => h.ready ⟨s, here⟩ turn.answers
      have disarmed := ready.after (disarm_tends cfg slot.reg _)
      have gone := disarmed.after (erase_tends cfg ptr slot turn.lastRef _)
      dsimp only
      split
      · exact gone
      · split
        · exact gone
        · rename_i fd want
          split
          · split
            · exact disarmed.after (attach_tends cfg ptr slot.key _ fd _)
            · exact gone
          · exact ready
    · exact .refl cfg l

/-! ## New connections -/

/-- One descriptor of the inbox becomes one connection, even if it cannot be armed. -/
theorem enrol_tends (cfg : Config) (l : Loop) (n : Newcomer) : Tends cfg [n.client] l (l.enrol cfg .adopt n) := by
  have made : Tends cfg [n.client] l
      { l with proxy := l.proxy.next cfg (.adopt l.nextId n.client l.nextId), nextId := l.nextId + 1 } := by
    refine ⟨fun fds h => ⟨?_, by simp [h.nextId], h.unlistened⟩, rfl, rfl, rfl⟩
    rw [h.nextId]
    exact h.roster.adopt n.client
  unfold enrol
  dsimp only
  split
  · exact made.after (destroy_tends cfg _ _ _)
  · split
    · exact made.after (attach_tends cfg _ _ _ _ _)
    · exact made.after (destroy_tends cfg _ _ _)

theorem enrol_all_tends (cfg : Config) (ns : List Newcomer) (l : Loop) :
    Tends cfg (ns.map Newcomer.client) l (run (enrol cfg .adopt) l ns) := by
  induction ns generalizing l with
  | nil => exact .refl cfg l
  | cons n ns ih => exact (enrol_tends cfg l n).trans (ih _)

/-- **`take_from_inbox`**: each descriptor of the queue becomes one connection, in order. -/
theorem takeFromInbox_tends (cfg : Config) (place : Nat → Nat × Bool) (l : Loop) :
    Tends cfg l.queue { l with queue := [] } (l.takeFromInbox cfg place) := by
  have clients : (handed place l.queue).map Newcomer.client = l.queue := by
    simp [handed, List.map_map, Function.comp_def]
  have all := enrol_all_tends cfg (handed place l.queue) { l with queue := [] }
  rwa [clients] at all

end Loop

end EvProxy
