import EvProxy.Conn.Descriptors
import EvProxy.Socket.Exactness

/-!
# Every call is made on a descriptor of one's own

The ghost state is the set of descriptors the thread has in hand: the accepted
socket, and what its own calls opened and have not closed or left to the
resolver. Other threads open and close descriptors all the time; of the kernel it
is only assumed that it does not give out a number that is still in hand. Then
every call of a connection's life names a descriptor in hand, none is closed
twice, and nothing is left at the end.
-/

namespace EvProxy.Kernel
open Dialogue Runs Text

/-- The descriptors a query is about. -/
def Query.uses : Query → List Fd
  | .recv _ fd _ | .send _ fd _ | .socketError fd => [fd]
  | .read fd _ | .setNosigpipe fd | .getFlags fd | .setFlags fd _ | .connect fd _ | .close fd | .poll fd _ _ =>
    [some fd]
  | .queuePush job => [some job.readEnd, some job.writeEnd]
  | .jobView job | .dropJob job => [some job.readEnd]
  | _ => []

/-- What an event changes about the descriptors in hand. -/
def claim (mine : Finset Nat) : Event → Finset Nat
  | .opened fd => insert fd mine
  | .closed fd | .released fd => mine.erase fd
  | _ => mine

/-- A number given out is not in hand. -/
def Unused (mine : Finset Nat) : Event → Prop
  | .opened fd => fd ∉ mine
  | _ => True

def custody : Terms Query Reply (Finset Nat) where
  follow mine e := run claim mine (shown e)
  fair mine e := Fits e.1 e.2 ∧ Legal Unused claim mine (shown e)
  proper mine e := ∀ fd ∈ e.1.uses, ∃ n ∈ mine, fd = some n

/-! ## The calls of `socket.cpp` -/

section Calls
variable {mine : Finset Nat}

/-- A query on descriptors in hand that opens and closes none. -/
theorem custody_quiet {q : Query} (own : ∀ fd ∈ q.uses, ∃ n ∈ mine, fd = some n)
    (quiet : ∀ r, run claim mine (shown (q, r)) = mine) : Triple custody mine (ask q) fun _ m => m = mine :=
  .ask (fun _ _ => own) fun r _ => quiet r

theorem reset_custody {fd : Fd} (own : ∀ n, fd = some n → n ∈ mine) :
    Triple custody mine (reset fd) fun _ m => m = mine \ fd.toFinset := by
  cases fd with
  | none => exact .pure (by simp)
  | some n =>
    refine Triple.bind (R := fun _ m => m = mine.erase n) (.ask ?_ fun _ _ => rfl) fun _ _ same => .pure ?_
    · rintro _ _ _ (_ | _)
      · exact ⟨n, own n rfl, rfl⟩
      · contradiction
    · rw [same]
      ext m
      simp [and_comm, eq_comm]

theorem setNonblocking_custody {fd : Nat} (own : fd ∈ mine) :
    Triple custody mine (setNonblocking fd) fun _ m => m = mine := by
  refine (custody_quiet (by simpa [Query.uses] using own) fun _ => rfl).bind ?_
  rintro flags m rfl
  split
  · exact .pure rfl
  · exact (custody_quiet (by simpa [Query.uses] using own) fun _ => rfl).bind fun _ _ same => .pure same

theorem readSome_custody {side : Side} {fd : Fd} {len : Nat} (own : ∃ n ∈ mine, fd = some n) :
    Triple custody mine (readSome side fd len) fun _ m => m = mine := by
  have quiet (r : Reply) : run claim mine (shown (.recv side fd len, r)) = mine := by
    cases settled : recvSettle r with
    | none => simp [shown, settled]
    | some result =>
      obtain ⟨status, data⟩ := result
      cases side <;> cases status <;> simp [shown, settled, recvEvents, claim]
  refine .askUntil (· = mine) rfl ?_ ?_ ?_
  · rintro _ r rfl _ _ (_ | _)
    · exact own
    · contradiction
  · rintro _ r rfl _ _
    exact quiet r
  · rintro _ r _ rfl _ _
    exact quiet r

theorem writeSome_custody {side : Side} {fd : Fd} {data : Bytes} (own : ∃ n ∈ mine, fd = some n) :
    Triple custody mine (writeSome side fd data) fun _ m => m = mine := by
  have quiet (r : Reply) : run claim mine (shown (.send side fd data, r)) = mine := by
    cases settled : sendSettle r with
    | none => simp [shown, settled]
    | some result =>
      obtain ⟨status, n⟩ := result
      cases side <;> cases status <;> simp [shown, settled, sendEvents, claim]
  refine .askUntil (· = mine) rfl ?_ ?_ ?_
  · rintro _ r rfl _ _ (_ | _)
    · exact own
    · contradiction
  · rintro _ r rfl _ _
    exact quiet r
  · rintro _ r _ rfl _ _
    exact quiet r

theorem waitReady_custody {fd : Nat} {forWrite : Bool} {timeout : Int} (own : fd ∈ mine) :
    Triple custody mine (waitReady fd forWrite timeout) fun _ m => m = mine := by
  refine .askUntil (· = mine) rfl ?_ (fun _ _ same _ _ => same) (fun _ _ _ same _ _ => same)
  rintro _ r rfl _
  simpa [custody, Query.uses] using own

/-- A failed attempt leaves nothing, any other a new socket. -/
theorem startConnect_custody (endpoint : Endpoint) :
    Triple custody mine (startConnect endpoint) fun st m =>
      (st = (.failed, none) ∧ m = mine) ∨
        ∃ fd, fd ∉ mine ∧ m = insert fd mine ∧ (st = (.connected, some fd) ∨ st = (.inProgress, some fd)) := by
  refine Triple.bind (R := fun made m => made.ret < 0 ∧ m = mine ∨
    ¬ made.ret < 0 ∧ made.ret.toNat ∉ mine ∧ m = insert made.ret.toNat mine)
    (.ask (by simp [custody, Query.uses]) ?_) ?_
  · rintro made ⟨-, unused⟩
    by_cases failed : made.ret < 0
    · exact Or.inl ⟨failed, by simp [custody, shown, failed, claim]⟩
    · rw [shown, if_neg failed] at unused
      exact Or.inr ⟨failed, unused.2.1, by simp [custody, shown, failed, claim]⟩
  rintro made m (⟨failed, rfl⟩ | ⟨opened, new, rfl⟩)
  · rw [if_pos failed]
    exact .pure (Or.inl ⟨rfl, rfl⟩)
  rw [if_neg opened]
  have own : made.ret.toNat ∈ insert made.ret.toNat mine := Finset.mem_insert_self _ _
  -- Every way out that does not hand the socket over closes it.
  have closed : Triple custody (insert made.ret.toNat mine) (do
      reset (some made.ret.toNat)
      pure (ConnectStatus.failed, none)) fun st m => (st = (.failed, none) ∧ m = mine) ∨
        ∃ fd, fd ∉ mine ∧ m = insert fd mine ∧ (st = (.connected, some fd) ∨ st = (.inProgress, some fd)) := by
    refine (reset_custody (by simp)).bind fun _ m same => .pure (Or.inl ⟨rfl, ?_⟩)
    rw [same]
    ext n
    by_cases here : n = made.ret.toNat <;> simp [here, new]
  refine (custody_quiet (by simp [Query.uses]) fun _ => rfl).bind ?_
  rintro _ m rfl
  refine (setNonblocking_custody own).bind ?_
  rintro set m rfl
  split
  · exact closed
  refine (custody_quiet (q := .connect made.ret.toNat endpoint) (by simp [Query.uses]) fun rc => ?_).bind ?_
  · by_cases ok : rc.ret = 0 <;> simp [shown, ok, claim]
  rintro rc m rfl
  split
  · exact .pure (Or.inr ⟨_, new, rfl, Or.inl rfl⟩)
  split
  · exact .pure (Or.inr ⟨_, new, rfl, Or.inr rfl⟩)
  · exact closed

theorem connectSucceeded_custody {fd : Fd} (own : ∃ n ∈ mine, fd = some n) :
    Triple custody mine (connectSucceeded fd) fun _ m => m = mine := by
  refine (custody_quiet (by simpa [Query.uses] using own) fun r => ?_).bind fun _ _ same => .pure same
  by_cases ok : r.ret = 0 ∧ r.soError = 0 <;> simp [shown, ok, claim]

end Calls

/-! ## The handlers -/

/-- The descriptors in hand are those of the connection. -/
structure InHand (f : Fds) (mine : Finset Nat) : Prop where
  owned : mine = f.owned
  distinct : f.Distinct

section Handlers
variable {mine : Finset Nat} {f : Fds} {c : Connection}

theorem InHand.mem_client (h : InHand f mine) {n : Nat} (client : f.client = some n) : n ∈ mine :=
  h.owned ▸ Fds.mem_owned.mpr (Or.inl client)

theorem InHand.mem_upstream (h : InHand f mine) {n : Nat} (upstream : f.upstream = some n) : n ∈ mine :=
  h.owned ▸ Fds.mem_owned.mpr (Or.inr (Or.inl upstream))

theorem InHand.mem_job (h : InHand f mine) {n : Nat} (job : f.job = some n) : n ∈ mine :=
  h.owned ▸ Fds.mem_owned.mpr (Or.inr (Or.inr job))

theorem resetUpstream_custody (h : InHand f mine) :
    Triple custody mine (reset f.upstream) fun _ => InHand { f with upstream := none } := by
  refine (reset_custody fun n here => h.mem_upstream here).conseq fun _ m same => ⟨?_, h.distinct.dropUpstream⟩
  rw [same, h.owned]
  ext n
  have := h.distinct.client_upstream n
  have := h.distinct.upstream_job n
  simp only [Finset.mem_sdiff, Fds.mem_owned, Option.mem_toFinset, Option.mem_def]
  grind

theorem resetClient_custody (h : InHand f mine) :
    Triple custody mine (reset f.client) fun _ => InHand { f with client := none } := by
  refine (reset_custody fun n here => h.mem_client here).conseq fun _ m same => ⟨?_, h.distinct.dropClient⟩
  rw [same, h.owned]
  ext n
  have := h.distinct.client_upstream n
  have := h.distinct.client_job n
  simp only [Finset.mem_sdiff, Fds.mem_owned, Option.mem_toFinset, Option.mem_def]
  grind

theorem resetJob_custody (client upstream : Fd) (job : Option ResolveJob)
    (h : InHand ⟨client, upstream, job.map ResolveJob.readEnd⟩ mine) :
    Triple custody mine (resetJob job) fun _ => InHand ⟨client, upstream, none⟩ := by
  cases job with
  | none => exact .pure h
  | some job =>
    have own : job.readEnd ∈ mine := h.mem_job rfl
    have left : mine.erase job.readEnd = (Fds.mk client upstream none).owned := by
      rw [h.owned]
      ext n
      have := h.distinct.client_job n
      have := h.distinct.upstream_job n
      simp only [Finset.mem_erase, Fds.mem_owned, Option.map_some]
      grind
    refine Triple.bind (R := fun last m => m = if last.ret ≠ 0 then mine else mine.erase job.readEnd) (.ask ?_ ?_) ?_
    · intro _ _
      simpa [custody, Query.uses] using own
    · intro last _
      by_cases shared : last.ret = 0 <;> simp [custody, shown, shared, claim]
    rintro last m rfl
    split
    · refine (reset_custody (by simpa using own)).conseq fun _ m same => ⟨?_, h.distinct.dropJob⟩
      rw [same, ← left]
      ext n
      simp [and_comm]
    · exact .pure ⟨left, h.distinct.dropJob⟩

theorem failWith_custody (response : Bytes) (h : InHand c.fds mine) :
    Triple custody mine (failWith response c) fun c' => InHand c'.fds :=
  (resetUpstream_custody h).bind fun _ _ next => .pure next

theorem finish_custody (h : InHand c.fds mine) : Triple custody mine (finish c) fun c' => InHand c'.fds := by
  refine (resetJob_custody c.client c.upstream c.resolveJob h).bind fun _ m next => ?_
  refine (resetUpstream_custody next).bind fun _ m next => ?_
  exact (resetClient_custody next).bind fun _ m next => .pure next

theorem destroy_custody (h : InHand c.fds mine) : Triple custody mine (destroy c) fun _ m => m = ∅ := by
  refine (resetJob_custody c.client c.upstream c.resolveJob h).bind fun _ m next => ?_
  refine (resetUpstream_custody next).bind fun _ m next => ?_
  exact (resetClient_custody next).conseq fun _ m next => next.owned

theorem connectLoop_custody (eps : List Endpoint) (h : InHand c.fds mine) :
    Triple custody mine (connectLoop eps c) fun c' => InHand c'.fds := by
  induction eps generalizing c mine with
  | nil => exact failWith_custody badGateway h
  | cons endpoint rest ih =>
    refine (startConnect_custody endpoint).bind ?_
    rintro _ m (⟨rfl, rfl⟩ | ⟨fd, new, rfl, status⟩)
    · exact ih h
    -- The new socket takes the place of the old one, which is closed after the move.
    have moved : Triple custody (insert fd mine) (reset c.upstream) fun _ =>
        InHand ⟨c.client, some fd, c.resolveJob.map ResolveJob.readEnd⟩ := by
      have other {n : Nat} (here : n ∈ c.fds.owned) : n ≠ fd := fun same => new (same ▸ h.owned ▸ here)
      refine (reset_custody fun n here => Finset.mem_insert_of_mem (h.mem_upstream here)).conseq
        fun _ m same => ⟨?_, ?_, h.distinct.client_job, ?_⟩
      · rw [same, h.owned]
        ext n
        have := h.distinct.client_upstream n
        have := h.distinct.upstream_job n
        have := @other n
        simp only [Finset.mem_sdiff, Finset.mem_insert, Fds.mem_owned, Option.mem_toFinset, Option.mem_def] at this ⊢
        simp only [Connection.fds] at *
        grind
      · intro n client taken
        exact other (Fds.mem_owned.mpr (Or.inl client)) (Option.some.inj taken).symm
      · intro n taken job
        exact other (Fds.mem_owned.mpr (Or.inr (Or.inr job))) (Option.some.inj taken).symm
    rcases status with rfl | rfl
    · exact moved.bind fun _ _ next => .pure next
    · exact moved.bind fun _ _ next => .pure next

theorem beginConnect_custody (h : InHand c.fds mine) :
    Triple custody mine (beginConnect c) fun c' => InHand c'.fds := connectLoop_custody _ h

theorem finishConnect_custody (h : InHand c.fds mine) (dialled : c.upstream.isSome) :
    Triple custody mine (finishConnect c) fun c' => InHand c'.fds := by
  obtain ⟨fd, upstream⟩ := Option.isSome_iff_exists.mp dialled
  refine (connectSucceeded_custody ⟨fd, h.mem_upstream upstream, upstream⟩).bind ?_
  rintro ok m rfl
  split
  · exact (resetUpstream_custody h).bind fun _ _ next => beginConnect_custody next
  · exact .pure h

/-- What `Resolver::start` leaves in hand: a pending lookup its read end, anything else nothing. -/
def Leaves (mine m : Finset Nat) : Start → Prop
  | .pending readEnd _ => readEnd ∉ mine ∧ m = insert readEnd mine
  | _ => m = mine

/-- Two new numbers on top of what is in hand. -/
structure Piped (mine : Finset Nat) (ends : Nat × Nat) (m : Finset Nat) : Prop where
  readEnd : ends.1 ∉ mine
  writeEnd : ends.2 ∉ insert ends.1 mine
  all : m = insert ends.2 (insert ends.1 mine)

theorem makePipe_custody :
    Triple custody mine makePipe fun made m => made.2 = none ∧ m = mine ∨
      ∃ ends, made.2 = some ends ∧ Piped mine ends m := by
  refine Triple.bind (R := fun made m => made.ret ≠ 0 ∧ m = mine ∨ ¬ made.ret ≠ 0 ∧ Piped mine made.ends m)
    (.ask (by simp [custody, Query.uses]) ?_) ?_
  · rintro made ⟨-, unused⟩
    by_cases failed : made.ret ≠ 0
    · exact Or.inl ⟨failed, by simp [custody, shown, failed]⟩
    · rw [shown, if_neg failed] at unused
      exact Or.inr ⟨failed, unused.1, unused.2.1, by simp only [custody, shown, if_neg failed]; rfl⟩
  rintro made m (⟨failed, rfl⟩ | ⟨ok, piped⟩)
  · rw [if_pos failed]
    exact .pure (Or.inl ⟨rfl, rfl⟩)
  · rw [if_neg ok]
    refine (setNonblocking_custody (by simp [piped.all])).bind ?_
    rintro set m rfl
    exact .pure (Or.inr ⟨made.ends, rfl, piped⟩)

theorem destroyJob_custody {ends : Nat × Nat} {m : Finset Nat} (piped : Piped mine ends m) :
    Triple custody m (destroyJob ends) fun _ m' => m' = mine := by
  refine (reset_custody (by simp [piped.all])).bind ?_
  rintro _ _ rfl
  have rest : m \ (some ends.2).toFinset = insert ends.1 mine := by
    rw [piped.all]
    ext n
    by_cases here : n = ends.2
    · subst here
      simpa using piped.writeEnd
    · simp [here]
  rw [rest]
  refine (reset_custody (by simp)).conseq fun _ m' same => ?_
  rw [same]
  ext n
  by_cases here : n = ends.1 <;> simp [here, piped.readEnd]

theorem start_custody (host port : Bytes) :
    Triple custody mine (start host port) fun st m => Leaves mine m st := by
  refine (custody_quiet (by simp [Query.uses]) fun _ => rfl).bind ?_
  rintro cached mine rfl
  split
  · exact .pure rfl
  refine makePipe_custody.bind ?_
  rintro ⟨set, _⟩ m (⟨rfl, rfl⟩ | ⟨ends, rfl, piped⟩)
  · exact .pure rfl
  dsimp only
  split
  · refine (destroyJob_custody piped).bind ?_
    rintro _ _ rfl
    exact .pure rfl
  refine Triple.bind (R := fun pushed m' => m' = if pushed.ret = 0 then m else m.erase ends.2) (.ask ?_ ?_) ?_
  · intro _ _
    simp [custody, Query.uses, piped.all]
  · intro pushed _
    by_cases closed : pushed.ret = 0 <;> simp [custody, shown, closed, claim]
  rintro pushed _ rfl
  split
  · refine (destroyJob_custody piped).bind ?_
    rintro _ _ rfl
    exact .pure rfl
  · refine .pure ⟨piped.readEnd, ?_⟩
    rw [piped.all, Finset.erase_insert piped.writeEnd]

theorem resolveBlocking_custody (host port : Bytes) :
    Triple custody mine (resolveBlocking host port) fun _ m => m = mine := by
  refine (custody_quiet (by simp [Query.uses]) fun _ => rfl).bind ?_
  rintro cached m rfl
  split
  · exact .pure rfl
  refine Triple.bind (R := fun _ m' => m' = m) ?_ ?_
  · refine (custody_quiet (by simp [Query.uses]) fun _ => rfl).bind ?_
    rintro found m rfl
    split <;> exact .pure rfl
  rintro found m rfl
  cases found with
  | none => exact .pure rfl
  | some endpoints => exact (custody_quiet (by simp [Query.uses]) fun _ => rfl).bind fun _ _ same => .pure same

theorem beginResolve_custody (cfg : Config) (h : InHand c.fds mine) (job : c.resolveJob = none) :
    Triple custody mine (beginResolve cfg c) fun c' => InHand c'.fds := by
  unfold beginResolve
  split
  · refine (resolveBlocking_custody _ _).bind ?_
    rintro found m rfl
    cases found with
    | none => exact failWith_custody badGateway h
    | some endpoints => exact beginConnect_custody h
  · refine (start_custody _ _).bind ?_
    intro status m leaves
    cases status with
    | hit endpoints =>
      obtain rfl : m = mine := leaves
      exact beginConnect_custody h
    | failed ends =>
      obtain rfl : m = mine := leaves
      exact failWith_custody badGateway h
    | pending readEnd writeEnd =>
      obtain ⟨new, rfl⟩ := leaves
      have other {n : Nat} (here : n ∈ c.fds.owned) : n ≠ readEnd := fun same => new (same ▸ h.owned ▸ here)
      refine .pure ⟨?_, h.distinct.client_upstream, ?_, ?_⟩
      · rw [h.owned]
        ext n
        simp only [Finset.mem_insert, Fds.mem_owned, Connection.fds, job, Connection.setWant]
        grind
      · intro n client taken
        exact other (Fds.mem_owned.mpr (Or.inl client)) (Option.some.inj taken).symm
      · intro n upstream taken
        exact other (Fds.mem_owned.mpr (Or.inr (Or.inl upstream))) (Option.some.inj taken).symm

theorem finishResolve_custody (h : InHand c.fds mine) :
    Triple custody mine (finishResolve c) fun c' => InHand c'.fds := by
  unfold finishResolve
  cases pending : c.resolveJob with
  | none => exact .pure h
  | some job =>
    have fds : c.fds = ⟨c.client, c.upstream, (some job).map ResolveJob.readEnd⟩ := by rw [Connection.fds, pending]
    have own : job.readEnd ∈ mine := h.mem_job (by rw [fds]; rfl)
    refine (custody_quiet (by simpa [Query.uses] using own) fun _ => rfl).bind ?_
    rintro _ mine rfl
    refine (custody_quiet (by simpa [Query.uses] using own) fun _ => rfl).bind ?_
    rintro view mine rfl
    split
    · exact .pure h
    refine (resetJob_custody _ _ _ (fds ▸ h)).bind fun _ m next => ?_
    cases view.job.ok with
    | false => exact failWith_custody (c := { c with resolveJob := none }) badGateway next
    | true =>
      exact beginConnect_custody (c := { c with
        endpoints := view.job.endpoints, resolveJob := none, endpointIdx := 0 }) next

theorem awaitBody_custody (cfg : Config) (hasCache : Bool) (h : InHand c.fds mine) (job : c.resolveJob = none) :
    Triple custody mine (awaitBody cfg hasCache c) fun c' => InHand c'.fds := by
  unfold awaitBody
  split
  · exact .pure h
  dsimp only
  split
  · refine (custody_quiet (by simp [Query.uses]) fun r => ?_).bind ?_
    · by_cases found : r.ret = 0 <;> simp [shown, found, claim]
    rintro got m rfl
    split
    · exact failWith_custody _ h
    · exact beginResolve_custody cfg h job
  · exact beginResolve_custody cfg h job

theorem doReadClient_custody (cfg : Config) (hasCache : Bool) (h : InHand c.fds mine) (job : c.resolveJob = none)
    (client : c.client.isSome) : Triple custody mine (doReadClient cfg hasCache c) fun c' => InHand c'.fds := by
  obtain ⟨fd, here⟩ := Option.isSome_iff_exists.mp client
  refine (readSome_custody ⟨fd, h.mem_client here, here⟩).bind ?_
  rintro ⟨status, data⟩ m rfl
  cases status with
  | wouldBlock => exact .pure h
  | error => exact finish_custody h
  | closed => exact finish_custody h
  | ok =>
    dsimp only
    split
    · exact awaitBody_custody cfg hasCache h job
    split
    · split
      · exact failWith_custody badRequest h
      · exact .pure h
    · exact failWith_custody badRequest h
    · exact failWith_custody notImplemented h
    · split
      · exact failWith_custody payloadTooLarge h
      · exact awaitBody_custody cfg hasCache h job

theorem doWriteUpstream_custody (h : InHand c.fds mine) (upstream : c.upstream.isSome) :
    Triple custody mine (doWriteUpstream c) fun c' => InHand c'.fds := by
  obtain ⟨fd, here⟩ := Option.isSome_iff_exists.mp upstream
  refine (writeSome_custody ⟨fd, h.mem_upstream here, here⟩).bind ?_
  rintro ⟨status, n⟩ m rfl
  cases status with
  | wouldBlock => exact .pure h
  | error | closed => exact failWith_custody badGateway h
  | ok =>
    dsimp only
    split <;> exact .pure h

theorem doWriteClient_custody (h : InHand c.fds mine) (client : c.client.isSome) :
    Triple custody mine (doWriteClient c) fun c' => InHand c'.fds := by
  obtain ⟨fd, here⟩ := Option.isSome_iff_exists.mp client
  refine (writeSome_custody ⟨fd, h.mem_client here, here⟩).bind ?_
  rintro ⟨status, n⟩ m rfl
  cases status with
  | wouldBlock => exact .pure h
  | error | closed => exact finish_custody h
  | ok =>
    dsimp only
    split
    · exact .pure h
    split
    · exact finish_custody h
    · exact .pure h

theorem storeInCache_custody (hasCache : Bool) (c : Connection) :
    Triple custody mine (storeInCache hasCache c) fun _ m => m = mine := by
  unfold storeInCache
  split
  · exact .pure rfl
  split
  · exact .pure rfl
  split
  · exact .pure rfl
  · exact (custody_quiet (by simp [Query.uses]) fun _ => rfl).bind fun _ _ same => .pure same

theorem doReadUpstream_custody (cfg : Config) (hasCache : Bool) (h : InHand c.fds mine) (upstream : c.upstream.isSome) :
    Triple custody mine (doReadUpstream cfg hasCache c) fun c' => InHand c'.fds := by
  obtain ⟨fd, here⟩ := Option.isSome_iff_exists.mp upstream
  refine (readSome_custody ⟨fd, h.mem_upstream here, here⟩).bind ?_
  rintro ⟨status, data⟩ m rfl
  cases status with
  | wouldBlock => exact .pure h
  | error => exact finish_custody h
  | ok =>
    refine .pure ?_
    have same : (accumulate cfg data c).fds = c.fds := by
      unfold accumulate
      split
      · split <;> rfl
      · rfl
    exact same.symm ▸ h
  | closed =>
    refine (resetUpstream_custody h).bind fun _ m next => ?_
    refine (storeInCache_custody hasCache _).bind ?_
    rintro _ m rfl
    split
    · exact finish_custody next
    · exact .pure next

/-- **One `on_ready()`**: every call is made on a descriptor in hand, and afterwards those of the connection are. -/
theorem onReady_custody {cfg : Config} (hasCache : Bool) (phase : Phase cfg c) (h : InHand c.fds mine) :
    Triple custody mine (onReady cfg hasCache c) fun c' => InHand c'.fds := by
  unfold onReady
  cases want : c.want with
  | readClient =>
    have r : Reading cfg c := phase.of_want want
    exact doReadClient_custody cfg hasCache h r.job r.client
  | writeClient =>
    refine doWriteClient_custody h ?_
    rcases phase.of_want want with flushing | failing
    · exact flushing.relaying.client
    · exact failing.client
  | readUpstream =>
    have w : Waiting cfg c := phase.of_want want
    exact doReadUpstream_custody cfg hasCache h w.relaying.upstream
  | readResolver => exact finishResolve_custody h
  | writeUpstream =>
    have dialled : c.upstream.isSome := by
      rcases phase.of_want want with connecting | sending
      · exact connecting.upstream
      · exact sending.upstream
    dsimp only
    split
    · exact finishConnect_custody h dialled
    · exact doWriteUpstream_custody h dialled
  | none => exact finish_custody h

end Handlers

/-! ## A whole life -/

/-- Of each answer, custody assumes what the refinement assumes. -/
theorem fits_of_custody {mine : Finset Nat} {log : List (Query × Reply)}
    (fair : Legal custody.fair custody.follow mine log) : ∀ e ∈ log, Fits e.1 e.2 := by
  induction log generalizing mine with
  | nil => simp
  | cons e log ih => exact List.forall_mem_cons.mpr ⟨fair.1.1, ih fair.2⟩

theorem serveRound_custody {cfg : Config} (hasCache : Bool) {c : Connection} {mine : Finset Nat} (phase : Phase cfg c)
    (h : InHand c.fds mine) :
    Triple custody mine (serveRound cfg hasCache c) fun r m => Phase cfg r.2 ∧ InHand r.2.fds m := by
  unfold serveRound
  split
  · exact .pure ⟨phase, h⟩
  rename_i unfinished
  split
  · exact .pure ⟨phase, h⟩
  rename_i fd wanted
  obtain ⟨fd', wanted', own⟩ := phase.waits (by simpa [Connection.done] using unfinished)
  obtain rfl : fd = fd' := Option.some.inj (wanted.symm.trans wanted')
  refine (waitReady_custody (h.owned ▸ own)).bind ?_
  rintro ready m rfl
  split
  · exact .pure ⟨phase, h⟩
  refine ((onReady_custody hasCache phase h).also (onReady_watch cfg hasCache c []) fun log fair =>
    legal_watch.mpr (fits_of_custody fair)).bind ?_
  rintro c' m ⟨next, _, a, cache, -, rfl, -⟩
  exact .pure ⟨phase.step (onReady_step cfg a cache c), next⟩

/-- **Every call of a connection's life is made on a descriptor of its own**, from the constructor to the
destructor: never on one that was closed, left to the resolver or never opened. At the end nothing is in hand. -/
theorem serve_owns (cfg : Config) (hasCache : Bool) (client id : Nat) {answers rest : List Reply}
    {log : List (Query × Reply)} (done : serve cfg hasCache client id answers = some ((), log, rest))
    (fair : Legal custody.fair custody.follow {client} log) :
    Legal custody.proper custody.follow {client} log ∧ run custody.follow {client} log = ∅ := by
  have life : Triple custody {client} (serve cfg hasCache client id) fun _ m => m = ∅ := by
    refine (setNonblocking_custody (by simp)).bind ?_
    rintro _ m rfl
    refine Triple.bind (R := fun c m => InHand c.fds m) ?_ fun c m h => destroy_custody h
    refine .loop (fun c m => Phase cfg c ∧ InHand c.fds m) ⟨phase_init cfg client id, ?_⟩ ?_
    · refine ⟨?_, nofun, nofun, nofun⟩
      ext n
      simp [Fds.mem_owned, Connection.fds, Connection.init, eq_comm]
    · rintro c m ⟨phase, h⟩
      refine (serveRound_custody hasCache phase h).conseq fun r m next => ?_
      split
      · exact next
      · exact next.2
  exact life answers rest () log done fair

/-- One exchange on descriptor 5, call by call: a signal during the first wait, a miss of both caches, a lookup on the
pipe 6 and 7, a socket that gets the number 6 again, and a response that is stored. -/
def fetched : List (Query × Reply) :=
  let job : ResolveJob := ⟨6, 7, bytes "h", bytes "80"⟩
  let origin : Endpoint := ⟨bytes "10.0.0.1", 2, 1, 6⟩
  let response := bytes "HTTP/1.1 200 OK\r\n\r\nu"
  [(.getFlags 5, {}), (.setFlags 5 4, {}), (.poll 5 false 30000, { ret := -1, errno := .eintr }),
    (.poll 5 false 30000, { ret := 1 }),
    (.recv .client (some 5) 32768, { ret := 26, data := bytes "GET http://h/ HTTP/1.1\r\n\r\n" }),
    (.cacheGet (bytes "GET h:80/"), {}), (.dnsGet (Resolver.key (bytes "h") (bytes "80")), {}),
    (.pipe, { ends := (6, 7) }), (.getFlags 6, {}), (.setFlags 6 4, {}), (.queuePush job, { ret := 1 }),
    (.poll 6 false 30000, { ret := 1 }), (.read 6 8, { ret := 1 }),
    (.jobView job, { job := ⟨true, true, [origin]⟩ }), (.dropJob job, { ret := 1 }), (.close 6, {}),
    (.socket origin, { ret := 6 }), (.setNosigpipe 6, {}), (.getFlags 6, {}), (.setFlags 6 4, {}),
    (.connect 6 origin, { ret := -1, errno := .einprogress }), (.poll 6 true 30000, { ret := 1 }),
    (.socketError (some 6), {}), (.poll 6 true 30000, { ret := 1 }),
    (.send .upstream (some 6) (bytes "GET / HTTP/1.1\r\nHost: h\r\nConnection: close\r\n\r\n"), { ret := 46 }),
    (.poll 6 false 30000, { ret := 1 }), (.recv .upstream (some 6) 32768, { ret := 20, data := response }),
    (.poll 5 true 30000, { ret := 1 }), (.send .client (some 5) response, { ret := 20 }),
    (.poll 6 false 30000, { ret := 1 }), (.recv .upstream (some 6) 32768, {}), (.close 6, {}),
    (.cachePut (bytes "GET h:80/") response, {}), (.close 5, {})]

theorem fair_fetched : Legal custody.fair custody.follow {5} fetched := by
  have request : (bytes "GET http://h/ HTTP/1.1\r\n\r\n").length = 26 := by decide
  have forwarded : (bytes "GET / HTTP/1.1\r\nHost: h\r\nConnection: close\r\n\r\n").length = 46 := by decide
  have response : (bytes "HTTP/1.1 200 OK\r\n\r\nu").length = 20 := by decide
  simp [fetched, Legal, custody, Fits, shown, recvSettle, sendSettle, recvEvents, sendEvents, Unused, claim, request,
    forwarded, response]

theorem serve_owns_fetched :
    serve {} true 5 0 (fetched.map Prod.snd) = some ((), fetched, []) ∧
    Legal custody.proper custody.follow {5} fetched ∧ run custody.follow {5} fetched = ∅ := by
  have done : serve {} true 5 0 (fetched.map Prod.snd) = some ((), fetched, []) := by decide +kernel
  exact ⟨done, serve_owns {} true 5 0 done fair_fetched⟩

end EvProxy.Kernel
