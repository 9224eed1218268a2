import EvProxy.Backend.ThreadPool
import EvProxy.Backend.ThreadPerConn
import EvProxy.Proxy.Custody

/-!
# The accepted descriptors of the thread backends

Between `accept` and the constructor of a `Connection` a descriptor is in the
hands of the backend: of the accepting thread, in the queue of the pool, or of
the thread that is about to serve it. Meanwhile the rest of the process, the
resolver's threads above all, opens and closes descriptors of its own
(`Around`). In every such run the backend closes and adopts only what is its
own, no descriptor is in two hands, and what is open is exactly what the
connections, the backend and the rest of the process have; so once the threads
are gone the rest of the process has all that is still open (`pool_custody`,
`perConn_custody`).
-/

namespace EvProxy
open Runs Crew Proxy

/-- A step of a backend, or another part of the process opens or closes a descriptor. -/
inductive Around (α : Type) where
  | own (act : α)
  | opens (fd : Nat)
  | closes (fd : Nat)

def Around.outside {α : Type} : Around α → Outside
  | .own _ => .nothing
  | .opens fd => .opens fd
  | .closes fd => .closes fd

/-- What the kernel promises about the answers of one round. -/
def Proxy.Answerable (cfg : Config) (p : Proxy) (key : Nat) (wait : Wait) : Prop :=
  ∀ a, wait.ready = some a → p.Allowed cfg (.ready key a)

/-- A round in which nothing becomes ready has no answers. -/
theorem Proxy.answerable_of_idle {cfg : Config} {p : Proxy} {key : Nat} {wait : Wait} (idle : wait.ready = none) :
    p.Answerable cfg key wait := by
  intro a ready
  rw [idle] at ready
  cases ready

/-- A round of serving takes nothing from the rest of the process. -/
theorem Proxy.Sound.takes_serveOnce {cfg : Config} {p : Proxy} (sound : p.Sound cfg) {key : Nat} {wait : Wait}
    (promised : p.Answerable cfg key wait) : Takes cfg p [] (p.serveOnce cfg key wait).2 := by
  unfold serveOnce
  split
  · rename_i s here
    cases round : s.round wait with
    | none => exact sound.takes_destroy key wait.lastRef
    | some a =>
      have ready : wait.ready = some a := by
        unfold Session.round at round
        split at round
        · cases round
        · split at round
          · cases round
          · exact round
      exact sound.takes_ready (promised a ready)
  · exact .refl cfg p

namespace Pool

variable {cfg : Config} {p p' : Pool} {t u : Ticket} {opened : Finset Nat} {others : Set Nat}

/-- Accepted, and not yet dropped or made into a connection. -/
def InHand (p : Pool) (t : Ticket) : Prop :=
  t ∈ p.main.hand ∨ t ∈ p.queue.box.waiting ∨ ∃ i < p.size, p.workers i = .popped t

def holds (p : Pool) (t : Ticket) (fd : Nat) : Prop := p.InHand t ∧ t.fd = fd

/-- Where an accepted descriptor can be: with the main thread, at a position of the queue, with a worker. -/
inductive Place where
  | main
  | queue (position : Nat)
  | worker (i : Nat)

def At (p : Pool) (t : Ticket) : Place → Prop
  | .main => t ∈ p.main.hand
  | .queue position => p.queue.box.waiting[position]? = some t
  | .worker i => i < p.size ∧ p.workers i = .popped t

theorem inHand_iff : p.InHand t ↔ ∃ place, p.At t place := by
  constructor
  · rintro (hand | waiting | ⟨i, bound, popped⟩)
    · exact ⟨.main, hand⟩
    · obtain ⟨position, here⟩ := List.mem_iff_getElem?.mp waiting
      exact ⟨.queue position, here⟩
    · exact ⟨.worker i, bound, popped⟩
  · rintro ⟨place, here⟩
    cases place with
    | main => exact Or.inl here
    | queue position => exact Or.inr (Or.inl (List.mem_of_getElem? here))
    | worker i => exact Or.inr (Or.inr ⟨i, here⟩)

def around (cfg : Config) (p : Pool) : Around Act → Pool
  | .own act => p.next cfg act
  | .opens fd => { p with proxy := p.proxy.next cfg (.opens fd) }
  | .closes fd => { p with proxy := p.proxy.next cfg (.closes fd) }

/-- What the rest of the process has after a run: what it had at the start, opened since or was given by connections,
and has not closed. -/
def elsewhere (cfg : Config) (opened : Finset Nat) (acts : List (Around Act)) : Set Nat :=
  Proxy.elsewhere Pool.proxy (around cfg) (fun _ => Around.outside) opened (start cfg opened) acts

/-- What the kernel and the rest of the process promise. -/
def Promised (cfg : Config) (p : Pool) : Around Act → Prop
  | .own .signal => True
  | .own (.main accepted _) => ∀ fd, accepted = some fd → p.main = .accepting → fd ∉ p.proxy.opened
  | .own (.worker i wait) => ∀ t key, p.workers i = .serving t key → p.proxy.Answerable cfg key wait
  | .opens fd => fd ∉ p.proxy.opened
  | .closes fd => p.proxy.Allowed cfg (.closes fd) ∧ ∀ t, ¬ p.holds t fd

theorem promised_main (cfg : Config) (p : Pool) (fired : Bool) : p.Promised cfg (.own (.main none fired)) :=
  fun _ none_came => nomatch none_came

theorem promised_worker (cfg : Config) (p : Pool) (i : Nat) : p.Promised cfg (.own (.worker i {})) :=
  fun _ _ _ => answerable_of_idle rfl

/-! ## One place for each -/

/-- Every accepted descriptor was dropped or built, or is with the main thread, in the queue or with a worker. -/
theorem Sound.whole (h : Sound cfg p) (t : Ticket) :
    p.accepted.count t = p.dropped.count t + p.built.count t + p.main.hand.count t + p.queue.box.waiting.count t +
      carried (fun u => if u = t then 1 else 0) Worker.fresh p.workers p.size := by
  have arrived := h.counted.arrived fun u => if u = t then 1 else 0
  have popped := h.counted.popped fun u => if u = t then 1 else 0
  simp only [mass_count] at arrived popped
  have order := congrArg (List.count t) p.queue.box.order
  rw [List.count_append] at order
  omega

theorem Sound.accepted_nodup (h : Sound cfg p) : p.accepted.Nodup := by
  apply List.Nodup.of_map Ticket.seq
  rw [h.seq]
  exact List.nodup_range

/-- A descriptor is in one place at most. -/
theorem Sound.once (h : Sound cfg p) (t : Ticket) :
    p.main.hand.count t + p.queue.box.waiting.count t +
      carried (fun u => if u = t then 1 else 0) Worker.fresh p.workers p.size ≤ 1 := by
  have whole := h.whole t
  have := List.nodup_iff_count_le_one.mp h.accepted_nodup t
  omega

theorem fresh_carried {i : Nat} (bound : i < p.size) (here : p.workers i = .popped t) :
    1 ≤ carried (fun u => if u = t then 1 else 0) Worker.fresh p.workers p.size := by
  have part : mass (fun u => if u = t then 1 else 0) (p.workers i).fresh ≤
      carried (fun u => if u = t then 1 else 0) Worker.fresh p.workers p.size := mass_le_carried bound
  simpa [here, Worker.fresh] using part

theorem popped_of_carried (some_ : 0 < carried (fun u => if u = t then 1 else 0) Worker.fresh p.workers p.size) :
    ∃ i < p.size, p.workers i = .popped t := by
  obtain ⟨i, bound, mine⟩ := carrier_of_carried some_
  refine ⟨i, bound, ?_⟩
  rw [mass_count, List.count_pos_iff] at mine
  cases worker : p.workers i with
  | popped u =>
    rw [worker] at mine
    rw [List.mem_singleton.mp mine]
  | popping => rw [worker] at mine; cases mine
  | serving u key => rw [worker] at mine; cases mine
  | exited => rw [worker] at mine; cases mine

/-- What the main thread has in hand is nowhere else. -/
theorem Sound.hand_alone (h : Sound cfg p) (hand : p.main.hand = [t]) :
    t ∉ p.queue.box.waiting ∧ ∀ i < p.size, p.workers i ≠ .popped t := by
  have once := h.once t
  rw [hand, List.count_singleton_self] at once
  refine ⟨fun mem => ?_, fun i bound here => ?_⟩
  · have := List.count_pos_iff.mpr mem
    omega
  · have := fresh_carried bound here
    omega

/-- What a worker has popped is nowhere else. -/
theorem Sound.popped_alone (h : Sound cfg p) {i : Nat} (bound : i < p.size) (here : p.workers i = .popped t) :
    t ∉ p.main.hand ∧ t ∉ p.queue.box.waiting ∧ ∀ j < p.size, p.workers j = .popped t → j = i := by
  have once := h.once t
  have mine := fresh_carried bound here
  refine ⟨fun mem => ?_, fun mem => ?_, fun j bound' there => ?_⟩
  · have := List.count_pos_iff.mpr mem
    omega
  · have := List.count_pos_iff.mpr mem
    omega
  · by_contra other
    -- Were it at `j` too, it would be carried twice.
    have less : carried (fun u => if u = t then 1 else 0) Worker.fresh (Function.update p.workers i .exited) p.size +
        mass (fun u => if u = t then 1 else 0) (p.workers i).fresh =
          carried (fun u => if u = t then 1 else 0) Worker.fresh p.workers p.size + mass _ Worker.exited.fresh :=
      carried_update bound Worker.exited
    have still := @fresh_carried { p with workers := Function.update p.workers i .exited } t j bound'
      ((Function.update_of_ne other _ _).trans there)
    simp only [here, Worker.fresh, mass_cons, mass_nil] at less still
    simp only [if_true] at less
    omega

/-- An accepted descriptor is in one place. -/
theorem Sound.place (h : Sound cfg p) {a b : Place} (here : p.At t a) (there : p.At t b) : a = b := by
  have waiting : p.queue.box.waiting.Nodup := by
    rw [List.nodup_iff_count_le_one]
    intro u
    have := h.once u
    omega
  have once := h.once t
  -- The main thread and the queue.
  have hand_waiting (hand : t ∈ p.main.hand) {n : Nat} (queued : p.queue.box.waiting[n]? = some t) : False := by
    have := List.count_pos_iff.mpr hand
    have := List.count_pos_iff.mpr (List.mem_of_getElem? queued)
    omega
  cases a with
  | main =>
    cases b with
    | main => rfl
    | queue n => exact (hand_waiting here there).elim
    | worker i => exact absurd here (h.popped_alone there.1 there.2).1
  | queue n =>
    cases b with
    | main => exact (hand_waiting there here).elim
    | queue m =>
      obtain ⟨bound, -⟩ := List.getElem?_eq_some_iff.mp here
      rw [(List.getElem?_inj bound waiting).mp (here.trans there.symm)]
    | worker i => exact absurd (List.mem_of_getElem? here) (h.popped_alone there.1 there.2).2.1
  | worker i =>
    cases b with
    | main => exact absurd there (h.popped_alone here.1 here.2).1
    | queue n => exact absurd (List.mem_of_getElem? there) (h.popped_alone here.1 here.2).2.1
    | worker j => rw [(h.popped_alone here.1 here.2).2.2 j there.1 there.2]

/-- What was accepted is in hand until it is dropped or made into a connection. -/
theorem Sound.inHand_of_accepted (h : Sound cfg p) (accepted : t ∈ p.accepted) :
    p.InHand t ↔ t ∉ p.dropped ∧ t ∉ p.built := by
  have whole := h.whole t
  rw [List.count_eq_one_of_mem h.accepted_nodup accepted] at whole
  rw [← List.count_eq_zero, ← List.count_eq_zero]
  constructor
  · rintro (hand | waiting | ⟨i, bound, popped⟩)
    · have := List.count_pos_iff.mpr hand
      omega
    · have := List.count_pos_iff.mpr waiting
      omega
    · have := fresh_carried bound popped
      omega
  · rintro ⟨undropped, unbuilt⟩
    by_cases hand : t ∈ p.main.hand
    · exact Or.inl hand
    · by_cases waiting : t ∈ p.queue.box.waiting
      · exact Or.inr (Or.inl waiting)
      · refine Or.inr (Or.inr (popped_of_carried ?_))
        rw [List.count_eq_zero.mpr hand, List.count_eq_zero.mpr waiting] at whole
        omega

/-! ## What the steps do to what is in hand -/

theorem inHand_congr (hand : p'.main.hand = p.main.hand) (waiting : p'.queue.box.waiting = p.queue.box.waiting)
    (workers : p'.workers = p.workers) (size : p'.size = p.size) : p'.InHand t ↔ p.InHand t := by
  rw [InHand, InHand, hand, waiting, workers, size]

theorem Sound.inHand_drop (h : Sound cfg p) (hand : p.main.hand = [t]) :
    (p.drop cfg t).InHand u ↔ p.InHand u ∧ u ≠ t := by
  obtain ⟨queue, workers⟩ := h.hand_alone hand
  have none : (p.drop cfg t).main.hand = [] := rfl
  rw [InHand, InHand, hand, none]
  simp only [List.not_mem_nil, List.mem_singleton, false_or]
  constructor
  · rintro (waiting | ⟨i, bound, popped⟩)
    · exact ⟨Or.inr (Or.inl waiting), fun same => queue (same ▸ waiting)⟩
    · exact ⟨Or.inr (Or.inr ⟨i, bound, popped⟩), fun same => workers i bound (same ▸ popped)⟩
  · rintro ⟨same | rest, other⟩
    · exact absurd same other
    · exact rest

theorem inHand_pop {i : Nat} {q : ConnQueue Ticket} (bound : i < p.size) (here : p.workers i = .popping)
    (returned : p.queue.pop = some (some t, q)) :
    { p with queue := q, workers := Function.update p.workers i (.popped t) }.InHand u ↔ p.InHand u := by
  obtain ⟨waiting, -⟩ := ConnQueue.pop_some returned
  simp only [InHand, waiting, List.mem_cons]
  constructor
  · rintro (hand | queued | ⟨j, bound', popped⟩)
    · exact Or.inl hand
    · exact Or.inr (Or.inl (Or.inr queued))
    · by_cases same : j = i
      · subst same
        rw [Function.update_self] at popped
        cases popped
        exact Or.inr (Or.inl (Or.inl rfl))
      · rw [Function.update_of_ne same] at popped
        exact Or.inr (Or.inr ⟨j, bound', popped⟩)
  · rintro (hand | (rfl | queued) | ⟨j, bound', popped⟩)
    · exact Or.inl hand
    · exact Or.inr (Or.inr ⟨i, bound, Function.update_self ..⟩)
    · exact Or.inr (Or.inl queued)
    · refine Or.inr (Or.inr ⟨j, bound', (Function.update_of_ne ?_ _ _).trans popped⟩)
      rintro rfl
      rw [here] at popped
      cases popped

/-- A worker that holds no descriptor moves on to where it holds none. -/
theorem inHand_worker {i : Nat} {new : Worker} (old : (p.workers i).fresh = []) (after : new.fresh = [])
    (workers : p'.workers = Function.update p.workers i new) (main : p'.main = p.main) (queue : p'.queue = p.queue)
    (size : p'.size = p.size) : p'.InHand u ↔ p.InHand u := by
  have same (j : Nat) : p'.workers j = .popped u ↔ p.workers j = .popped u := by
    rw [workers]
    by_cases eq : j = i
    · subst eq
      rw [Function.update_self]
      refine iff_of_false ?_ ?_
      · rintro rfl
        cases after
      · intro popped
        rw [popped] at old
        cases old
    · rw [Function.update_of_ne eq]
  simp only [InHand, main, queue, size, same]

theorem Sound.inHand_build (h : Sound cfg p) {i key : Nat} (bound : i < p.size) (here : p.workers i = .popped t)
    (workers : p'.workers = Function.update p.workers i (.serving t key)) (main : p'.main = p.main)
    (queue : p'.queue = p.queue) (size : p'.size = p.size) : p'.InHand u ↔ p.InHand u ∧ u ≠ t := by
  obtain ⟨hand, waiting, only⟩ := h.popped_alone bound here
  simp only [InHand, main, queue, size, workers]
  constructor
  · rintro (mine | queued | ⟨j, bound', popped⟩)
    · exact ⟨Or.inl mine, fun same => hand (same ▸ mine)⟩
    · exact ⟨Or.inr (Or.inl queued), fun same => waiting (same ▸ queued)⟩
    · have other : j ≠ i := by
        rintro rfl
        rw [Function.update_self] at popped
        cases popped
      rw [Function.update_of_ne other] at popped
      exact ⟨Or.inr (Or.inr ⟨j, bound', popped⟩), fun same => other (only j bound' (same ▸ popped))⟩
  · rintro ⟨mine | queued | ⟨j, bound', popped⟩, other⟩
    · exact Or.inl mine
    · exact Or.inr (Or.inl queued)
    · refine Or.inr (Or.inr ⟨j, bound', (Function.update_of_ne ?_ _ _).trans popped⟩)
      rintro rfl
      rw [here] at popped
      exact other (Worker.popped.inj popped).symm

/-! ## The account of the pool -/

/-- The pool has kept its account through a step. -/
abbrev Keeps (cfg : Config) (opened : Finset Nat) (others : Set Nat) (p p' : Pool) : Prop :=
  Account cfg opened p'.holds (others ∪ p.proxy.given p'.proxy) p'.proxy

theorem kept_of_inHand (kept : Account cfg opened p.holds others p.proxy) (proxy : p'.proxy = p.proxy)
    (same : ∀ u, p'.InHand u ↔ p.InHand u) : Keeps cfg opened others p p' := by
  rw [Keeps, proxy]
  exact kept.still.congr fun u fd => and_congr_left fun _ => same u

/-- A descriptor in hand is closed, or becomes a connection's. -/
theorem kept_lets (kept : Account cfg opened p.holds others p.proxy) (held : p.InHand t)
    (takes : Takes cfg p.proxy [t.fd] p'.proxy) (rest : ∀ u, p'.InHand u ↔ p.InHand u ∧ u ≠ t) :
    Keeps cfg opened others p p' := by
  refine kept.lets (i := t) ⟨held, rfl⟩ takes (fun u fd => ?_) fun fd mine => mine.2.symm
  rw [holds, holds, rest u]
  exact and_right_comm

theorem kept_drop (h : Sound cfg p) (kept : Account cfg opened p.holds others p.proxy) (hand : p.main.hand = [t]) :
    Keeps cfg opened others p (p.drop cfg t) := by
  have held : p.InHand t := Or.inl (hand ▸ List.mem_singleton_self t)
  exact kept_lets kept held (takes_closes (kept.held ⟨held, rfl⟩).2) fun u => h.inHand_drop hand

theorem kept_mainNext (h : Sound cfg p) (kept : Account cfg opened p.holds others p.proxy) {accepted : Option Nat}
    (promised : ∀ fd, accepted = some fd → p.main = .accepting → fd ∉ p.proxy.opened) (fired : Bool) :
    Keeps cfg opened others p (p.mainNext cfg accepted fired) := by
  have turn {main : Main} (hand : main.hand = p.main.hand) : Keeps cfg opened others p { p with main := main } :=
    kept_of_inHand kept rfl fun _ => inHand_congr hand rfl rfl rfl
  unfold mainNext
  split
  · rename_i main
    exact turn (by rw [main]; split <;> rfl)
  · rename_i main
    cases accepted with
    | none => exact turn (by rw [main]; rfl)
    | some fd =>
      refine kept.accepts (promised fd rfl main) (i := ⟨p.accepted.length, fd⟩) fun u x => ?_
      simp only [holds, InHand, main, Main.hand, List.mem_singleton, List.not_mem_nil, false_or]
      constructor
      · rintro ⟨rfl | rest, same⟩
        · exact Or.inr ⟨rfl, same.symm⟩
        · exact Or.inl ⟨rest, same⟩
      · rintro (⟨rest, same⟩ | ⟨rfl, rfl⟩)
        · exact ⟨Or.inr rest, same⟩
        · exact ⟨Or.inl rfl, rfl⟩
  · rename_i t main
    split
    · exact kept.still
    · rename_i returned
      rcases ConnQueue.pushFor_cases returned with ⟨-, -, -, box, -, -⟩ | ⟨other, -⟩
      · refine kept_of_inHand kept rfl fun u => ?_
        simp only [InHand, main, box, Main.hand, Mailbox.send_waiting, List.mem_append, List.mem_singleton,
          List.not_mem_nil, false_or, or_assoc]
        exact or_left_comm
      · exact absurd rfl other
    · exact kept_drop h kept (by rw [main]; rfl)
    · exact turn (by rw [main]; rfl)
  · rename_i t main
    split
    · exact kept_drop h kept (by rw [main]; rfl)
    · exact turn (by rw [main]; rfl)
  · rename_i main
    exact kept_of_inHand kept rfl fun _ => inHand_congr (by rw [main]; rfl) rfl rfl rfl
  · rename_i main
    split
    · exact turn (by rw [main]; rfl)
    · exact kept.still
  · exact kept.still

theorem kept_workerNext (h : Sound cfg p) (kept : Account cfg opened p.holds others p.proxy) {i : Nat}
    (bound : i < p.size) {wait : Wait}
    (promised : ∀ t key, p.workers i = .serving t key → p.proxy.Answerable cfg key wait) :
    Keeps cfg opened others p (p.workerNext cfg i wait) := by
  unfold workerNext
  split
  · rename_i here
    split
    · exact kept.still
    · exact kept_of_inHand kept rfl fun u => inHand_worker (by rw [here]; rfl) rfl rfl rfl rfl rfl
    · rename_i t q returned
      exact kept_of_inHand kept rfl fun u => inHand_pop bound here returned
  · rename_i t here
    have held : p.InHand t := Or.inr (Or.inr ⟨i, bound, here⟩)
    have unused : p.proxy.entries p.nextId = none := by
      rw [h.manned.nextId]
      exact h.manned.roster.unused
    exact kept_lets kept held (takes_adopt unused (kept.held ⟨held, rfl⟩) p.nextId)
      fun u => h.inHand_build bound here rfl rfl rfl rfl
  · rename_i t key here
    have served := kept.serves (kept.sound.takes_serveOnce (promised t key here))
    split
    · rename_i proxy round
      obtain rfl : (p.proxy.serveOnce cfg key wait).2 = proxy := by rw [round]
      exact served
    · rename_i proxy round
      obtain rfl : (p.proxy.serveOnce cfg key wait).2 = proxy := by rw [round]
      exact served.congr fun u fd => and_congr_left fun _ =>
        inHand_worker (by rw [here]; rfl) rfl rfl rfl rfl rfl
  · exact kept.still

/-- Another part of the process does something: the pool's own counts are as they were. -/
theorem Sound.outside (h : Sound cfg p) {m : Move} (same : (p.proxy.next cfg m).entries = p.proxy.entries) :
    Sound cfg { p with proxy := p.proxy.next cfg m } := by
  refine ⟨h.size, h.capacity, h.seq, ⟨h.counted.arrived, h.counted.popped, h.counted.built⟩,
    ⟨h.shut.closed, h.shut.exited, h.shut.joined⟩, h.manned.roster.congr same, h.manned.nextId, ?_⟩
  exact h.manned.matched.congr (fun _ _ => rfl) fun key => by rw [Proxy.Exists, Proxy.Exists, same]

/-- The pool's counts and its account, after every step. -/
theorem Sound.kept_around (h : Sound cfg p) (kept : Account cfg opened p.holds others p.proxy) {act : Around Act}
    (promised : p.Promised cfg act) :
    Sound cfg (p.around cfg act) ∧ Account cfg opened (p.around cfg act).holds
      (act.outside.after p.proxy (p.around cfg act).proxy others) (p.around cfg act).proxy := by
  cases act with
  | own act =>
    refine ⟨h.step (next_step cfg p act), ?_⟩
    cases act with
    | signal => exact kept_of_inHand kept rfl fun _ => inHand_congr rfl rfl rfl rfl
    | main accepted fired => exact kept_mainNext h kept promised fired
    | worker i wait =>
      simp only [around, next]
      split
      · rename_i bound
        exact kept_workerNext h kept bound promised
      · exact kept.still
  | opens fd => exact ⟨h.outside rfl, kept.opens promised⟩
  | closes fd => exact ⟨h.outside rfl, kept.closes promised.1 promised.2⟩

theorem not_holds_start (cfg : Config) (opened : Finset Nat) (fd : Nat) (t : Ticket) :
    ¬ (start cfg opened).holds t fd := by
  rintro ⟨hand | waiting | ⟨i, -, popped⟩, -⟩
  · cases hand
  · cases waiting
  · cases popped

theorem account_run (cfg : Config) (opened : Finset Nat) {acts : List (Around Act)}
    (legal : Legal (Promised cfg) (around cfg) (start cfg opened) acts) :
    let p := run (around cfg) (start cfg opened) acts
    Sound cfg p ∧ Account cfg opened p.holds (elsewhere cfg opened acts) p.proxy := by
  exact elsewhere_invariant (P := fun others p => Sound cfg p ∧ Account cfg opened p.holds others p.proxy)
    (fun others p act h promised => h.1.kept_around h.2 promised) legal
    ⟨sound_start cfg opened, account_start cfg fun t fd => not_holds_start cfg opened fd t⟩

/-- Once the workers are joined nothing is in hand, and no connection exists. -/
theorem Sound.empty (h : Sound cfg p) (joined : p.main = .joined) :
    (∀ t, ¬ p.InHand t) ∧ ∀ key, ¬ p.proxy.Exists key := by
  have out := h.shut.joined joined
  have some_worker : 0 < p.size := by
    have := h.size
    omega
  refine ⟨?_, fun key here => ?_⟩
  · rintro t (hand | waiting | ⟨i, bound, popped⟩)
    · rw [joined] at hand
      cases hand
    · rw [(h.shut.exited 0 some_worker (out 0 some_worker)).2] at waiting
      cases waiting
    · rw [out i bound] at popped
      cases popped
  · obtain ⟨i, bound, charge⟩ := h.manned.matched.charged key here
    rw [out i bound] at charge
    cases charge

end Pool

/-- **Custody in the pool.** However the main thread, the workers and the rest of the process interleave: the pool
and its connections make only legal moves. What was accepted is in exactly one place, open and nobody else's, until
it is dropped or made into a connection, the `k`-th that is built into the `k`-th. What is open is exactly what the
connections, the pool and the rest of the process have, no descriptor in two hands. Once `run` has joined the workers,
the rest of the process has all that is open. -/
theorem pool_custody (cfg : Config) (opened : Finset Nat) (acts : List (Around Pool.Act))
    (legal : Legal (Pool.Promised cfg) (Pool.around cfg) (.start cfg opened) acts) :
    let p := run (Pool.around cfg) (.start cfg opened) acts
    let others := Pool.elsewhere cfg opened acts
    Leads cfg (.start cfg opened) p.proxy ∧
    (∀ t ∈ p.accepted, (∃ place, p.At t place) ↔ t ∉ p.dropped ∧ t ∉ p.built) ∧
    Roster cfg (p.built.map Ticket.fd) p.proxy ∧
    (∀ t place, p.At t place → p.proxy.Foreign t.fd ∧ t.fd ∉ others ∧
      ∀ u place', p.At u place' → u.fd = t.fd → u = t ∧ place' = place) ∧
    (∀ fd ∈ others, p.proxy.Foreign fd) ∧
    (∀ fd, fd ∈ p.proxy.opened ↔ (∃ key s, p.proxy.entries key = some ⟨s, true⟩ ∧ fd ∈ s.conn.fds.owned) ∨
      (∃ t place, p.At t place ∧ t.fd = fd) ∨ fd ∈ others) ∧
    (p.main = .joined → (p.proxy.opened : Set Nat) = others) := by
  intro p others
  obtain ⟨sound, kept⟩ := Pool.account_run cfg opened legal
  have hand {t : Ticket} {place : Pool.Place} (here : p.At t place) : p.holds t t.fd :=
    ⟨Pool.inHand_iff.mpr ⟨place, here⟩, rfl⟩
  refine ⟨kept.leads, fun t accepted => ?_, sound.manned.roster, fun t place here => ?_, fun fd => kept.known,
    fun fd => ?_, fun joined => ?_⟩
  · rw [← Pool.inHand_iff]
    exact sound.inHand_of_accepted accepted
  · refine ⟨kept.held (hand here), kept.apart t t.fd (hand here), fun u place' there same => ?_⟩
    obtain rfl := kept.one u t t.fd (same ▸ hand there) (hand here)
    exact ⟨rfl, sound.place there here⟩
  · rw [kept.open_iff]
    refine or_congr_right (or_congr_left (exists_congr fun t => ?_))
    rw [Pool.holds, Pool.inHand_iff, exists_and_right]
  · obtain ⟨none_held, none_left⟩ := sound.empty joined
    exact kept.opened_eq none_left fun t fd held => none_held t held.1

/-- One connection. Its descriptor has a number that another part of the process had opened and closed before. -/
theorem pool_custody_one_visit :
    let acts := .opens 9 :: .opens 5 :: .closes 5 :: oneVisit.map .own
    let p := run (Pool.around { threadPoolSize := 1 }) (.start { threadPoolSize := 1 } {3}) acts
    p.main = .joined ∧ p.proxy.opened = {3, 9} ∧ Pool.elsewhere { threadPoolSize := 1 } {3} acts = {3, 9} := by
  intro acts p
  have joined : p.main = .joined := by decide +kernel
  have opened : p.proxy.opened = {3, 9} := by decide +kernel
  have custody := (pool_custody { threadPoolSize := 1 } {3} acts ?_).2.2.2.2.2.2 joined
  · refine ⟨joined, opened, custody.symm.trans ?_⟩
    rw [show _ = ({3, 9} : Finset Nat) from opened]
    simp
  · refine ⟨?_, ?_, ?_, Pool.promised_main _ _ _, ?_, Pool.promised_main _ _ _, Pool.promised_worker _ _ _,
      Pool.promised_worker _ _ _, Pool.promised_worker _ _ _, trivial, Pool.promised_main _ _ _,
      Pool.promised_main _ _ _, Pool.promised_worker _ _ _, Pool.promised_main _ _ _, trivial⟩
    · show 9 ∉ ({3} : Finset Nat)
      decide
    · show 5 ∉ ({9, 3} : Finset Nat)
      decide
    · refine ⟨fun key s here => ?_, Pool.not_holds_start _ _ 5⟩
      cases here
    · rintro fd ⟨⟩ -
      decide

/-! ## One thread per connection -/

namespace PerConn

variable {cfg : Config} {p p' : PerConn} {opened : Finset Nat} {others : Set Nat}

/-- The `n`-th accepted descriptor is in the hands of the main thread, or of the thread started for it. -/
def holds (p : PerConn) (n fd : Nat) : Prop :=
  n = p.spawned ∧ (p.main = .accepted fd ∨ p.main = .counted fd) ∨ n < p.spawned ∧ p.threads n = .starting fd

def around (cfg : Config) (p : PerConn) : Around Act → PerConn
  | .own act => p.next cfg act
  | .opens fd => { p with proxy := p.proxy.next cfg (.opens fd) }
  | .closes fd => { p with proxy := p.proxy.next cfg (.closes fd) }

/-- What the rest of the process has after a run. -/
def elsewhere (cfg : Config) (opened : Finset Nat) (acts : List (Around Act)) : Set Nat :=
  Proxy.elsewhere PerConn.proxy (around cfg) (fun _ => Around.outside) opened (start cfg opened) acts

/-- What the kernel and the rest of the process promise. -/
def Promised (cfg : Config) (p : PerConn) : Around Act → Prop
  | .own .signal => True
  | .own (.main accepted) => ∀ fd, accepted = some fd → p.main = .accepting → fd ∉ p.proxy.opened
  | .own (.thread i wait) => p.threads i = .serving → p.proxy.Answerable cfg i wait
  | .opens fd => fd ∉ p.proxy.opened
  | .closes fd => p.proxy.Allowed cfg (.closes fd) ∧ ∀ n, ¬ p.holds n fd

theorem promised_main (cfg : Config) (p : PerConn) : p.Promised cfg (.own (.main none)) :=
  fun _ none_came => nomatch none_came

theorem promised_thread (cfg : Config) (p : PerConn) (i : Nat) : p.Promised cfg (.own (.thread i {})) :=
  fun _ => answerable_of_idle rfl

/-- The main thread moves from where it holds nothing to where it holds nothing. -/
theorem holds_turn {main : Main} (before : ∀ fd, p.main ≠ .accepted fd ∧ p.main ≠ .counted fd)
    (after : ∀ fd, main ≠ .accepted fd ∧ main ≠ .counted fd) (n fd : Nat) :
    ({ p with main := main } : PerConn).holds n fd ↔ p.holds n fd := by
  simp [holds, before fd, after fd]

/-- The thread takes over what the main thread had. -/
theorem holds_spawn {fd : Nat} (main : p.main = .counted fd) (n x : Nat) :
    ({ p with
      main := .testing, threads := Function.update p.threads p.spawned (.starting fd), spawned := p.spawned + 1 } :
      PerConn).holds n x ↔ p.holds n x := by
  by_cases last : n = p.spawned
  · subst last
    simp [holds, main]
  · have bound : n < p.spawned + 1 ↔ n < p.spawned := by omega
    simp [holds, last, bound]

theorem holds_thread {i : Nat} {new : Thread} (old : ∀ fd, p.threads i ≠ .starting fd)
    (after : ∀ fd, new ≠ .starting fd) (workers : p'.threads = Function.update p.threads i new)
    (main : p'.main = p.main) (spawned : p'.spawned = p.spawned) (n x : Nat) : p'.holds n x ↔ p.holds n x := by
  by_cases same : n = i
  · subst same
    simp [holds, main, spawned, workers, old x, after x]
  · simp [holds, main, spawned, workers, same]

theorem holds_build {i : Nat} (bound : i < p.spawned) (n x : Nat) {proxy : Proxy} :
    ({ p with threads := Function.update p.threads i .serving, proxy := proxy } : PerConn).holds n x ↔
      p.holds n x ∧ n ≠ i := by
  by_cases same : n = i
  · subst same
    simp [holds, Nat.ne_of_lt bound]
  · simp [holds, same]

/-- The backend has kept its account through a step. -/
abbrev Keeps (cfg : Config) (opened : Finset Nat) (others : Set Nat) (p p' : PerConn) : Prop :=
  Account cfg opened p'.holds (others ∪ p.proxy.given p'.proxy) p'.proxy

theorem account_mainNext (kept : Account cfg opened p.holds others p.proxy) {accepted : Option Nat}
    (promised : ∀ fd, accepted = some fd → p.main = .accepting → fd ∉ p.proxy.opened) :
    Keeps cfg opened others p (p.mainNext cfg accepted) := by
  have turn {main : Main} (before : ∀ fd, p.main ≠ .accepted fd ∧ p.main ≠ .counted fd)
      (after : ∀ fd, main ≠ .accepted fd ∧ main ≠ .counted fd) : Keeps cfg opened others p { p with main := main } :=
    kept.still.congr (holds_turn before after)
  unfold mainNext
  split
  · rename_i main
    exact turn (by simp [main]) (by split <;> simp)
  · rename_i main
    cases accepted with
    | none => exact turn (by simp [main]) (by simp)
    | some fd =>
      refine kept.accepts (promised fd rfl main) (i := p.spawned) fun n x => ?_
      simp only [holds, main, Main.accepted.injEq, reduceCtorEq, or_false, and_false, false_or]
      rw [or_comm, eq_comm (a := fd)]
  · rename_i fd main
    exact kept.still.congr fun n x => by simp [holds, main]
  · rename_i fd main
    exact kept.still.congr (holds_spawn main)
  · rename_i waited main
    exact turn (by simp [main]) (by split <;> simp)
  · exact kept.still

theorem account_threadNext (h : Sound p) (kept : Account cfg opened p.holds others p.proxy) {i : Nat}
    (bound : i < p.spawned) {wait : Wait} (promised : p.threads i = .serving → p.proxy.Answerable cfg i wait) :
    Keeps cfg opened others p (p.threadNext cfg i wait) := by
  unfold threadNext
  split
  · rename_i fd here
    have held : p.holds i fd := Or.inr ⟨bound, here⟩
    have unused := h.served.unborn i fun _ => ⟨fd, here⟩
    refine kept.lets held (takes_adopt unused (kept.held held) i) (fun n x => holds_build bound n x) ?_
    rintro x (⟨rfl, -⟩ | ⟨-, there⟩)
    · exact absurd bound (Nat.lt_irrefl _)
    · exact (Thread.starting.inj (here.symm.trans there)).symm
  · rename_i here
    have served := kept.serves (kept.sound.takes_serveOnce (promised here))
    split
    · rename_i proxy round
      obtain rfl : (p.proxy.serveOnce cfg i wait).2 = proxy := by rw [round]
      exact served
    · rename_i proxy round
      obtain rfl : (p.proxy.serveOnce cfg i wait).2 = proxy := by rw [round]
      exact served.congr (holds_thread (by simp [here]) (by simp) rfl rfl rfl)
  · rename_i here
    exact kept.still.congr (holds_thread (by simp [here]) (by simp) rfl rfl rfl)
  · exact kept.still

theorem Sound.outside (h : Sound p) {m : Move} (same : (p.proxy.next cfg m).entries = p.proxy.entries) :
    Sound { p with proxy := p.proxy.next cfg m } := by
  refine ⟨h.tallied, fun i => ?_, fun i unborn => ?_⟩
  · rw [Proxy.Exists, same]
    exact h.served.alive i
  · exact (congrFun same i).trans (h.served.unborn i unborn)

theorem Sound.around (h : Sound p) (act : Around Act) : Sound (p.around cfg act) := by
  cases act with
  | own act => exact h.step (next_step cfg p act)
  | opens fd => exact h.outside rfl
  | closes fd => exact h.outside rfl

theorem Sound.account_around (h : Sound p) (kept : Account cfg opened p.holds others p.proxy) {act : Around Act}
    (promised : p.Promised cfg act) :
    Account cfg opened (p.around cfg act).holds (act.outside.after p.proxy (p.around cfg act).proxy others)
      (p.around cfg act).proxy := by
  cases act with
  | own act =>
    cases act with
    | signal => exact kept.still
    | main accepted => exact account_mainNext kept promised
    | thread i wait =>
      simp only [PerConn.around, next]
      split
      · rename_i bound
        exact account_threadNext h kept bound promised
      · exact kept.still
  | opens fd => exact kept.opens promised
  | closes fd => exact kept.closes promised.1 promised.2

theorem account_run (cfg : Config) (opened : Finset Nat) {acts : List (Around Act)}
    (legal : Legal (Promised cfg) (around cfg) (start cfg opened) acts) :
    let p := run (around cfg) (start cfg opened) acts
    Sound p ∧ Account cfg opened p.holds (elsewhere cfg opened acts) p.proxy := by
  refine elsewhere_invariant (P := fun others p => Sound p ∧ Account cfg opened p.holds others p.proxy)
    (fun others p act h promised => ⟨h.1.around act, h.1.account_around h.2 promised⟩) legal
    ⟨sound_start cfg opened, account_start cfg ?_⟩
  simp [holds, start]

/-! ### What became of each accepted descriptor -/

/-- What a step accepts. -/
def accepts (p : PerConn) : Around Act → List Nat
  | .own (.main (some fd)) => if p.main = .accepting then [fd] else []
  | _ => []

/-- The descriptors accepted in a run, in order. -/
def accepted (cfg : Config) : PerConn → List (Around Act) → List Nat
  | _, [] => []
  | p, act :: acts => p.accepts act ++ accepted cfg (p.around cfg act) acts

/-- The descriptor is still in hand, or it is connection `n`. -/
def Placed (cfg : Config) (p : PerConn) (n fd : Nat) : Prop :=
  p.holds n fd ∧ p.proxy.entries n = none ∨
    (∀ x, ¬ p.holds n x) ∧ ∃ e, p.proxy.entries n = some e ∧ e.From cfg fd n

/-- What the main thread has in hand. -/
def Main.hand : Main → List Nat
  | .accepted fd | .counted fd => [fd]
  | _ => []

/-- Every accepted descriptor has its place. -/
structure Followed (cfg : Config) (fds : List Nat) (p : PerConn) : Prop where
  count : fds.length = p.spawned + p.main.hand.length
  each : ∀ n fd, fds[n]? = some fd → p.Placed cfg n fd

theorem holds_inj {n x y : Nat} (first : p.holds n x) (second : p.holds n y) : x = y := by
  rcases first with ⟨rfl, hand⟩ | ⟨bound, starting⟩
  · rcases second with ⟨-, hand'⟩ | ⟨bound, -⟩
    · rcases hand with main | main <;> rcases hand' with main' | main' <;> cases main.symm.trans main' <;> rfl
    · exact absurd bound (Nat.lt_irrefl _)
  · rcases second with ⟨rfl, -⟩ | ⟨-, starting'⟩
    · exact absurd bound (Nat.lt_irrefl _)
    · exact Thread.starting.inj (starting.symm.trans starting')

variable {fds : List Nat}

/-- Whatever is in hand was accepted. -/
theorem Followed.accepted (h : Followed cfg fds p) {n fd : Nat} (held : p.holds n fd) : fds[n]? = some fd := by
  have bound : n < fds.length := by
    rw [h.count]
    rcases held with ⟨rfl, main | main⟩ | ⟨bound, -⟩
    · simp [main, Main.hand]
    · simp [main, Main.hand]
    · omega
  have there := List.getElem?_eq_getElem bound
  rcases h.each n _ there with ⟨held', -⟩ | ⟨unheld, -⟩
  · rw [there, holds_inj held held']
  · exact absurd held (unheld fd)

/-- Nothing changes but the places of the threads. -/
theorem Followed.congr (h : Followed cfg fds p)
    (count : p'.spawned + p'.main.hand.length = p.spawned + p.main.hand.length)
    (holds : ∀ n x, p'.holds n x ↔ p.holds n x) (entries : p'.proxy.entries = p.proxy.entries) :
    Followed cfg fds p' := by
  refine ⟨h.count.trans count.symm, fun n fd there => ?_⟩
  simpa only [Placed, holds, entries] using h.each n fd there

/-- What happens to one thread leaves the places of the others. -/
theorem Placed.other {n i fd : Nat} (h : p.Placed cfg n fd) (other : n ≠ i)
    (holds : ∀ x, p'.holds n x ↔ p.holds n x) (entries : ∀ j ≠ i, p'.proxy.entries j = p.proxy.entries j) :
    p'.Placed cfg n fd := by
  simpa only [Placed, holds, entries n other] using h

/-- The main thread accepts one more. -/
theorem Followed.accept (h : Followed cfg fds p) (main : p.main = .accepting)
    (unused : p.proxy.entries p.spawned = none) (fd : Nat) :
    Followed cfg (fds ++ [fd]) { p with main := .accepted fd, proxy := p.proxy.next cfg (.opens fd) } := by
  have count : fds.length = p.spawned := by simpa [main, Main.hand] using h.count
  refine ⟨by simp [count, Main.hand], fun n fd' there => ?_⟩
  by_cases last : n = p.spawned
  · subst last
    obtain rfl : fd = fd' := by simpa [← count] using there
    exact Or.inl ⟨Or.inl ⟨rfl, Or.inl rfl⟩, unused⟩
  · have old : fds[n]? = some fd' := by
      have bound := (List.getElem?_eq_some_iff.mp there).1
      rw [List.length_append, List.length_singleton] at bound
      rwa [List.getElem?_append_left (by omega)] at there
    exact (h.each n fd' old).other last (fun x => by simp [holds, last]) fun _ _ => rfl

/-- A thread makes its descriptor a connection. -/
theorem Followed.build (h : Followed cfg fds p) {i fd : Nat} (bound : i < p.spawned) (here : p.threads i = .starting fd)
    (unused : p.proxy.entries i = none) :
    Followed cfg fds
      { p with threads := Function.update p.threads i .serving, proxy := p.proxy.next cfg (.adopt i fd i) } := by
  have entries := Proxy.adopt_eq cfg unused fd i
  refine ⟨h.count, fun n fd' there => ?_⟩
  by_cases same : n = i
  · subst same
    obtain rfl : fd = fd' := Option.some.inj ((h.accepted (Or.inr ⟨bound, here⟩)).symm.trans there)
    have begun : Entry.From cfg fd n ⟨.start fd n, true⟩ := ⟨[], fun _ => rfl, nofun⟩
    refine Or.inr ⟨fun x held => ((holds_build bound n x).mp held).2 rfl, _, ?_, begun⟩
    exact (congrFun entries n).trans (Function.update_self ..)
  · refine (h.each n fd' there).other same (fun x => ?_) fun j other => ?_
    · rw [holds_build bound, and_iff_left same]
    · exact (congrFun entries j).trans (Function.update_of_ne other ..)

/-- A connection goes on, or is destroyed. -/
theorem Followed.goes_on (h : Followed cfg fds p) {i : Nat} {e e' : Entry} (here : p.proxy.entries i = some e)
    (later : ∀ fd, e.From cfg fd i → e'.From cfg fd i) (spawned : p'.spawned = p.spawned) (main : p'.main = p.main)
    (holds : ∀ n x, p'.holds n x ↔ p.holds n x)
    (entries : p'.proxy.entries = Function.update p.proxy.entries i (some e')) : Followed cfg fds p' := by
  refine ⟨by rw [spawned, main, h.count], fun n fd there => ?_⟩
  by_cases same : n = i
  · subst same
    rcases h.each n fd there with ⟨-, none_⟩ | ⟨unheld, e₀, before, origin⟩
    · cases none_.symm.trans here
    · obtain rfl := Option.some.inj (before.symm.trans here)
      refine Or.inr ⟨fun x held => unheld x ((holds n x).mp held), e', ?_, later fd origin⟩
      rw [entries, Function.update_self]
  · refine (h.each n fd there).other same (holds n) fun j other => ?_
    rw [entries, Function.update_of_ne other]

theorem Followed.mainNext (h : Followed cfg fds p) (sound : Sound p) (accepted : Option Nat) :
    Followed cfg (fds ++ p.accepts (.own (.main accepted))) (p.mainNext cfg accepted) := by
  have turn {main : Main} (before : p.main.hand = []) (after : main.hand = [])
      (none_ : p.accepts (.own (.main accepted)) = []) :
      Followed cfg (fds ++ p.accepts (.own (.main accepted))) { p with main := main } := by
    rw [none_, List.append_nil]
    refine h.congr (by simp [before, after]) (holds_turn ?_ ?_) rfl
    · intro fd
      constructor <;> intro main <;> simp [main, Main.hand] at before
    · intro fd
      constructor <;> rintro rfl <;> simp [Main.hand] at after
  have idle (busy : p.main ≠ .accepting) : p.accepts (.own (.main accepted)) = [] := by
    cases accepted <;> simp [accepts, busy]
  unfold PerConn.mainNext
  split
  · rename_i main
    exact turn (by rw [main]; rfl) (by split <;> rfl) (idle (by simp [main]))
  · rename_i main
    cases accepted with
    | none => exact turn (by rw [main]; rfl) rfl rfl
    | some fd =>
      have unused := sound.served.unborn p.spawned fun bound => absurd bound (Nat.lt_irrefl _)
      have one : p.accepts (.own (.main (some fd))) = [fd] := if_pos main
      rw [one]
      exact h.accept main unused fd
  · rename_i fd main
    rw [idle (by simp [main]), List.append_nil]
    exact h.congr (by simp [main, Main.hand]) (fun n x => by simp [holds, main]) rfl
  · rename_i fd main
    rw [idle (by simp [main]), List.append_nil]
    exact h.congr (by simp [main, Main.hand]) (holds_spawn main) rfl
  · rename_i waited main
    exact turn (by rw [main]; rfl) (by split <;> rfl) (idle (by simp [main]))
  · rename_i main
    rw [idle (by simp [main]), List.append_nil]
    exact h

theorem Followed.threadNext (h : Followed cfg fds p) (sound : Sound p) {i : Nat} (bound : i < p.spawned) (wait : Wait) :
    Followed cfg fds (p.threadNext cfg i wait) := by
  unfold PerConn.threadNext
  split
  · rename_i fd here
    exact h.build bound here (sound.served.unborn i fun _ => ⟨fd, here⟩)
  · rename_i here
    have alive := (sound.served.alive i).mpr ⟨bound, here⟩
    have cases_ := Proxy.serveOnce_cases cfg alive wait
    obtain ⟨s, entry⟩ := alive
    rcases cases_ with ⟨a, round⟩ | round
    · rw [round]
      exact h.goes_on entry (fun fd origin => origin.ready _) rfl rfl (fun _ _ => Iff.rfl) (Proxy.ready_eq cfg entry a)
    · rw [round]
      exact h.goes_on entry (fun fd origin => origin.destroy wait.lastRef) rfl rfl
        (holds_thread (by simp [here]) (by simp) rfl rfl rfl) (Proxy.destroy_eq cfg entry wait.lastRef)
  · rename_i here
    exact h.congr rfl (holds_thread (by simp [here]) (by simp) rfl rfl rfl) rfl
  · exact h

theorem Followed.around (h : Followed cfg fds p) (sound : Sound p) (act : Around Act) :
    Followed cfg (fds ++ p.accepts act) (p.around cfg act) := by
  have quiet {p' : PerConn} (none_ : p.accepts act = []) (after : Followed cfg fds p') :
      Followed cfg (fds ++ p.accepts act) p' := by
    rwa [none_, List.append_nil]
  cases act with
  | own act =>
    cases act with
    | signal => exact quiet rfl (h.congr rfl (fun _ _ => Iff.rfl) rfl)
    | main accepted => exact h.mainNext sound accepted
    | thread i wait =>
      refine quiet rfl ?_
      simp only [PerConn.around, next]
      split
      · rename_i bound
        exact h.threadNext sound bound wait
      · exact h
  | opens fd => exact quiet rfl (h.congr rfl (fun _ _ => Iff.rfl) rfl)
  | closes fd => exact quiet rfl (h.congr rfl (fun _ _ => Iff.rfl) rfl)

theorem Followed.run {p : PerConn} (h : Followed cfg fds p) (sound : Sound p) (acts : List (Around Act)) :
    Followed cfg (fds ++ PerConn.accepted cfg p acts) (run (PerConn.around cfg) p acts) := by
  induction acts generalizing p fds with
  | nil =>
    rw [PerConn.accepted, List.append_nil]
    exact h
  | cons act acts ih =>
    rw [PerConn.accepted, ← List.append_assoc]
    exact ih (h.around sound act) (sound.around act)

theorem followed_run (cfg : Config) (opened : Finset Nat) (acts : List (Around Act)) :
    Followed cfg (accepted cfg (start cfg opened) acts) (Runs.run (PerConn.around cfg) (start cfg opened) acts) := by
  have begun : Followed cfg [] (start cfg opened) := ⟨rfl, nofun⟩
  exact begun.run (sound_start cfg opened) acts

/-- At a count of zero after the return nothing is in hand, and no connection exists. -/
theorem Sound.empty (h : Sound p) (returned : p.main = .returned) (zero : p.live = 0) :
    (∀ n fd, ¬ p.holds n fd) ∧ ∀ key, ¬ p.proxy.Exists key := by
  have gone := h.tallied.gone (Int.le_of_eq zero)
  refine ⟨?_, fun key here => ?_⟩
  · rintro n fd (⟨-, hand⟩ | ⟨bound, there⟩)
    · rw [returned] at hand
      rcases hand with hand | hand <;> cases hand
    · rw [gone n bound] at there
      cases there
  · obtain ⟨bound, serving⟩ := (h.served.alive key).mp here
    rw [gone key bound] at serving
    cases serving

end PerConn

/-- **Custody with one thread per connection.** The same for threads that nobody joins. The `n`-th accepted descriptor
is in the hands of the main thread or of thread `n` until that makes it connection `n`. What is open is exactly
accounted for, and the rest of the process has it all as soon as `run` has returned and the count is zero. -/
theorem perConn_custody (cfg : Config) (opened : Finset Nat) (acts : List (Around PerConn.Act))
    (legal : Legal (PerConn.Promised cfg) (PerConn.around cfg) (.start cfg opened) acts) :
    let p := run (PerConn.around cfg) (.start cfg opened) acts
    let others := PerConn.elsewhere cfg opened acts
    let accepted := PerConn.accepted cfg (.start cfg opened) acts
    Leads cfg (.start cfg opened) p.proxy ∧
    (∀ n fd, accepted[n]? = some fd → p.holds n fd ∧ p.proxy.entries n = none ∨
      (∀ x, ¬ p.holds n x) ∧ ∃ e, p.proxy.entries n = some e ∧ e.From cfg fd n) ∧
    (∀ n fd, p.holds n fd → accepted[n]? = some fd ∧ p.proxy.Foreign fd ∧ fd ∉ others ∧
      ∀ m, p.holds m fd → m = n) ∧
    (∀ fd ∈ others, p.proxy.Foreign fd) ∧
    (∀ fd, fd ∈ p.proxy.opened ↔ (∃ key s, p.proxy.entries key = some ⟨s, true⟩ ∧ fd ∈ s.conn.fds.owned) ∨
      (∃ n, p.holds n fd) ∨ fd ∈ others) ∧
    (p.main = .returned → p.live = 0 → (p.proxy.opened : Set Nat) = others) := by
  intro p others accepted
  obtain ⟨sound, kept⟩ := PerConn.account_run cfg opened legal
  have followed := PerConn.followed_run cfg opened acts
  refine ⟨kept.leads, followed.each, fun n fd held => ?_, fun fd => kept.known, kept.open_iff,
    fun returned zero => ?_⟩
  · exact ⟨followed.accepted held, kept.held held, kept.apart n fd held, fun m held' => kept.one m n fd held' held⟩
  · obtain ⟨none_held, none_left⟩ := sound.empty returned zero
    exact kept.opened_eq none_left none_held

/-- One connection is accepted, served and gone before `run` returns. Its descriptor has a number that another part
of the process had opened and closed before. -/
theorem perConn_custody_one_visit :
    let acts : List (Around PerConn.Act) := [.opens 9, .opens 5, .closes 5, .own (.main none), .own (.main (some 5)),
      .own (.main none), .own (.main none), .own (.thread 0 {}), .own (.thread 0 {}), .own (.thread 0 {}), .own .signal,
      .own (.main none), .own (.main none)]
    let p := run (PerConn.around {}) (.start {} {3}) acts
    p.main = .returned ∧ p.proxy.opened = {3, 9} ∧ PerConn.elsewhere {} {3} acts = {3, 9} := by
  intro acts p
  have returned : p.main = .returned := by decide +kernel
  have opened : p.proxy.opened = {3, 9} := by decide +kernel
  have custody := (perConn_custody {} {3} acts ?_).2.2.2.2.2 returned (by decide +kernel)
  · refine ⟨returned, opened, custody.symm.trans ?_⟩
    rw [show _ = ({3, 9} : Finset Nat) from opened]
    simp
  · refine ⟨?_, ?_, ?_, PerConn.promised_main _ _, ?_, PerConn.promised_main _ _, PerConn.promised_main _ _,
      PerConn.promised_thread _ _ _, PerConn.promised_thread _ _ _, PerConn.promised_thread _ _ _, trivial,
      PerConn.promised_main _ _, PerConn.promised_main _ _, trivial⟩
    · show 9 ∉ ({3} : Finset Nat)
      decide
    · show 5 ∉ ({9, 3} : Finset Nat)
      decide
    · refine ⟨fun key s here => ?_, fun n => ?_⟩
      · cases here
      · rintro (⟨-, hand | hand⟩ | ⟨bound, -⟩)
        · cases hand
        · cases hand
        · cases bound
    · rintro fd ⟨⟩ -
      decide

end EvProxy
