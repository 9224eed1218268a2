import EvProxy.Resolver.Clients

/-!
# The descriptors of a connection and its job

Everything opened for a connection is the connection's or the resolver's: the
connection has its two sockets and the read end of its job, the resolver the
write end until a thread closes it, and the read end when the connection has let
go first. `Kept` says that this is all there is, and that nothing is closed that
is not open; a job closes what it still has with its last reference.
-/

namespace EvProxy
open Runs Ledger

/-! ## What a step hands to the resolver -/

section Connection
variable {cfg : Config} {c c' : Connection} {events : List Event} {cache cache' : Option LruCache}

/-- Nothing is handed over. -/
def Keeps (events : List Event) : Prop := ∀ n, .released n ∉ events

theorem handed_ops {n : Nat} : n ∈ handed (ops events) ↔ .released n ∈ events := by
  induction events with
  | nil => simp [ops, handed]
  | cons e events ih =>
    cases e with
    | released m =>
      have shape : ops (.released m :: events) = .handOver m :: ops events := rfl
      rw [shape, mem_handed_cons, ih]
      simp [eq_comm]
    | opened m =>
      have shape : ops (.opened m :: events) = .acquire m :: ops events := rfl
      rw [shape, mem_handed_cons, ih]
      simp
    | closed m =>
      have shape : ops (.closed m :: events) = .free m :: ops events := rfl
      rw [shape, mem_handed_cons, ih]
      simp
    | _ =>
      rw [ops, List.filterMap_cons_none rfl, ← ops, ih]
      simp

theorem keeps_closing (fd : Fd) : Keeps (closing fd) := by
  cases fd <;> simp [Keeps, closing]

theorem Keeps.append {e f : List Event} (he : Keeps e) (hf : Keeps f) : Keeps (e ++ f) := by
  intro n mem
  rcases List.mem_append.mp mem with left | right
  · exact he n left
  · exact hf n right

theorem Keeps.cons {e : Event} (quiet : ∀ n, e ≠ .released n) (h : Keeps events) : Keeps (e :: events) := by
  intro n mem
  rcases List.mem_cons.mp mem with same | rest
  · exact quiet n same.symm
  · exact h n rest

theorem Attempts.keeps (tried : Attempts events) : Keeps events := by
  induction tried with
  | nil => simp [Keeps]
  | noSocket endpoint _ ih => exact .cons nofun ih
  | closed endpoint fd _ ih => exact .cons nofun (.cons nofun (.cons nofun ih))

theorem Connect.keeps (dial : Connect c events c') : Keeps events := by
  cases dial with
  | exhausted idx tried => exact tried.keeps.append (keeps_closing _)
  | connected idx fd endpoint tried => exact (tried.keeps.append (by simp [Keeps])).append (keeps_closing _)
  | inProgress idx fd endpoint tried => exact (tried.keeps.append (by simp [Keeps])).append (keeps_closing _)

theorem released_releasing {n : Nat} {lastRef : Bool} {job : Option ResolveJob} :
    .released n ∈ releasing lastRef job ↔ lastRef = false ∧ ∃ j, job = some j ∧ n = j.readEnd := by
  cases job <;> cases lastRef <;> simp [releasing]

/-- `finish()` and the destructor leave the read end to the resolver unless they drop the last reference. -/
theorem released_finishEvents {n : Nat} {lastRef : Bool} :
    .released n ∈ c.finishEvents lastRef ↔ lastRef = false ∧ ∃ j, c.resolveJob = some j ∧ n = j.readEnd := by
  rw [Connection.finishEvents, List.mem_append, List.mem_append, released_releasing]
  have upstream := keeps_closing c.upstream n
  have client := keeps_closing c.client n
  simp [upstream, client]

theorem keeps_finishEvents (job : c.resolveJob = none) (lastRef : Bool) : Keeps (c.finishEvents lastRef) := by
  intro n mem
  obtain ⟨-, j, some_, -⟩ := released_finishEvents.mp mem
  rw [job] at some_
  cases some_

theorem Lookup.keeps {req : Request} {key : Bytes} {looked : List Event}
    (lookup : Lookup cfg c req cache key looked cache') : Keeps looked := by
  cases lookup <;> simp [Keeps]

theorem Store.keeps {stored : List Event} (store : Store c cache stored cache') : Keeps stored := by
  cases store <;> simp [Keeps]

/-- Without a job before or after, nothing is handed over. -/
theorem Step.keeps (step : Step cfg c cache events c' cache') (before : c.resolveJob = none)
    (after : c'.resolveJob = none) : Keeps events := by
  have missing (job : c.resolveJob.isSome) : False := by simp [before] at job
  cases step with
  | idle => simp [Keeps]
  | hangup lastRef => exact .cons nofun (keeps_finishEvents before lastRef)
  | incomplete => simp [Keeps]
  | awaiting => simp [Keeps]
  | rejected => exact .cons nofun (keeps_closing _)
  | hit => exact .cons nofun (.cons nofun (keeps_closing _))
  | forward data key req want got ready enough lookup resolve =>
    refine .cons nofun (lookup.keeps.append ?_)
    cases resolve with
    | failed => exact keeps_closing _
    | pipeFailed => exact Keeps.append (by simp [Keeps]) (keeps_closing _)
    | pending => cases after
    | connect endpoints dial => exact dial.keeps
  | unresolved lastRef want job => exact (missing job).elim
  | resolved lastRef endpoints want job => exact (missing job).elim
  | refused want state dial => exact (keeps_closing _).append dial.keeps
  | connected => simp [Keeps]
  | sendPart => simp [Keeps]
  | sendAll => simp [Keeps]
  | sendFailed => exact .cons nofun (keeps_closing _)
  | recvFailed lastRef => exact .cons nofun (keeps_finishEvents before lastRef)
  | eofDone lastRef want store =>
    exact .cons nofun (((keeps_closing _).append store.keeps).append
      (keeps_finishEvents (c := { c with upstream := none }) before lastRef))
  | eofFlush want store => exact .cons nofun ((keeps_closing _).append store.keeps)
  | recv => simp [Keeps]
  | writePart => simp [Keeps]
  | writeMore => simp [Keeps]
  | writeLast lastRef => exact .cons nofun (keeps_finishEvents before lastRef)
  | writeFailed lastRef => exact .cons nofun (keeps_finishEvents before lastRef)
  | again lastRef => exact keeps_finishEvents before lastRef

/-- A connection has its client until it is done. -/
theorem Phase.client_iff (phase : Phase cfg c) : c.client = none ↔ c.state = .done := by
  have done (state : c.state = .done) : Done c := phase.of_want (phase.agree.1.mpr state)
  refine ⟨fun gone => ?_, fun state => (done state).client⟩
  have missing (client : c.client.isSome) : False := by simp [gone] at client
  cases phase with
  | done h => exact h.state
  | reading h => exact (missing h.client).elim
  | resolving h => exact (missing h.loaded.client).elim
  | connecting h => exact (missing h.loaded.client).elim
  | sending h => exact (missing h.loaded.client).elim
  | waiting h => exact (missing h.relaying.client).elim
  | flushing h => exact (missing h.relaying.client).elim
  | failing h => exact (missing h.client).elim

/-- `finish_resolve` with a result in hand leaves the read end to the resolver unless it drops the last reference. -/
theorem onReady_released (a : Answers) (cache : Option LruCache) (resolving : Resolving cfg c)
    (ready : a.job.ready = true) (n : Nat) : .released n ∈ (onReady cfg a ⟨c, cache, []⟩).trace ↔
      a.lastRef = false ∧ ∃ j, c.resolveJob = some j ∧ n = j.readEnd := by
  have here : onReady cfg a ⟨c, cache, []⟩ = finishResolve a ⟨c, cache, []⟩ := by simp [onReady, resolving.want]
  rw [here, ← released_releasing]
  rcases finishResolve_ready a cache resolving.job ready with ⟨-, events, trace, -, dial⟩ | ⟨-, eq⟩
  · have rest := dial.keeps n
    simp [trace, rest]
  · have rest := keeps_closing c.upstream n
    simp [eq, rest]

end Connection

namespace Hub

/-! ## Whose a descriptor is -/

/-- What the resolver has of a job's pipe. -/
def ends (b : Resolver.Job) (refers : Bool) : Finset Nat :=
  if b.referenced then
    (if b.writeOpen then {b.writeEnd} else ∅) ∪ (if refers then ∅ else {b.readEnd})
  else ∅

theorem mem_ends {b : Resolver.Job} {refers : Bool} {n : Nat} :
    n ∈ ends b refers ↔
      b.referenced = true ∧ (b.writeOpen = true ∧ n = b.writeEnd ∨ refers = false ∧ n = b.readEnd) := by
  unfold ends
  cases b.referenced <;> cases b.writeOpen <;> cases refers <;> simp

/-- What the resolver has of the pipe of a connection's job. -/
def theirs (r : Resolver) (c : Client) : Finset Nat :=
  match c.job with
  | none => ∅
  | some j => ends (r.jobs j) (c.refers j)

end Hub

/-! ## The books -/

/-- What was opened and not closed. -/
def opened (log : List Event) : Finset Nat := run track ∅ (ops log)

theorem opened_append (log events : List Event) : opened (log ++ events) = run track (opened log) (ops events) := by
  rw [opened, ops_append, run_append, opened]

/-- What is open is the connection's, or else in `rest`, and nothing was closed that was not open. -/
structure Books (fds : Fds) (log : List Event) (rest : Finset Nat) : Prop where
  distinct : fds.Distinct
  mine : fds.owned ⊆ opened log
  rest : opened log \ fds.owned = rest
  spent : Legal Spent track ∅ (ops log)

namespace Books
variable {fds fds' : Fds} {log events : List Event} {rest rest' : Finset Nat}

/-- The connection takes a step in good order. -/
theorem step (h : Books fds log rest) (fresh : Fresh ∅ (ops (log ++ events))) (orderly : Orderly fds events fds')
    (parts : ∀ n, n ∈ rest' ↔ n ∈ rest ∨ .released n ∈ events) : Books fds' (log ++ events) rest' := by
  rw [ops_append, Fresh, legal_append] at fresh
  obtain ⟨proper, mine, distinct⟩ := orderly (opened log) h.mine h.distinct fresh.2
  have held : (run Book.step ⟨opened log, fds.owned⟩ (ops events)).held = opened (log ++ events) := by
    rw [run_held, opened_append]
  have others := run_others h.mine proper
  rw [held, mine, h.rest] at others
  refine ⟨distinct, ?_, ?_, ?_⟩
  · have sub := run_sub (b := ⟨opened log, fds.owned⟩) h.mine (ops events)
    rwa [held, mine] at sub
  · rw [others]
    ext n
    rw [Finset.mem_union, handed_ops, parts]
  · rw [ops_append, legal_append]
    exact ⟨h.spent, proper.spent h.mine⟩

/-- Someone else closes something of the rest. -/
theorem close (h : Books fds log rest) {n : Nat} (mem : n ∈ rest) :
    Books fds (log ++ [.closed n]) (rest.erase n) := by
  have apart : n ∈ opened log ∧ n ∉ fds.owned := by
    rw [← h.rest] at mem
    exact Finset.mem_sdiff.mp mem
  have now : opened (log ++ [.closed n]) = (opened log).erase n := opened_append log [.closed n]
  refine ⟨h.distinct, ?_, ?_, ?_⟩
  · rw [now]
    exact fun m owned => Finset.mem_erase.mpr ⟨fun same => apart.2 (same ▸ owned), h.mine owned⟩
  · rw [now, ← h.rest, Finset.erase_sdiff_comm]
  · rw [ops_append, legal_append]
    exact ⟨h.spent, apart.1, trivial⟩

end Books

/-! ## What the resolver does to a pipe -/

namespace Resolver
variable {r : Resolver} {act : Act} {j : Nat} {b b' : Job}

/-- The resolver has the same of the job as before. -/
structure SameEnds (b b' : Job) : Prop where
  referenced : b'.referenced = b.referenced
  writeOpen : b'.writeOpen = b.writeOpen

/-- A job stays with the connection that asked, and keeps its pipe. -/
structure SameName (b b' : Job) : Prop where
  owner : b'.owner = b.owner
  readEnd : b'.readEnd = b.readEnd
  writeEnd : b'.writeEnd = b.writeEnd

theorem Turn.name (turn : Turn r j b act b') : SameName b b' := by
  cases turn with
  | went i found wrote bound here go =>
    cases go with
    | looked => exact ⟨rfl, rfl, rfl⟩
    | stage f stage stage' next => cases stage <;> exact ⟨rfl, rfl, rfl⟩
  | _ => exact ⟨rfl, rfl, rfl⟩

theorem made_eq {r' : Resolver} (step : Step r act r')
    (pushes : ∀ owner host port readEnd writeEnd, act ≠ .push owner host port readEnd writeEnd) : r'.made = r.made := by
  cases step with
  | aside _ _ same _ => exact same.made
  | pushed owner host port readEnd writeEnd => exact absurd rfl (pushes owner host port readEnd writeEnd)
  | went i found wrote j bound here same => exact same.made
  | _ => rfl

theorem referenced_of_held (sound : Sound r) {i : Nat} {duty : Duty} (on : r.workers i = .on j duty) :
    (r.jobs j).referenced = true := by
  simp [Job.referenced, (sound.held i j duty).mp on]

theorem Turn.calm (turn : Turn r j b act b') (threads : ∀ i found wrote, act ≠ .work i found wrote)
    (keeps : act ≠ .discard) : SameEnds b b' := by
  cases turn with
  | same => exact ⟨rfl, rfl⟩
  | dequeued i found wrote => exact absurd rfl (threads i found wrote)
  | went i found wrote => exact absurd rfl (threads i found wrote)
  | letGo i found wrote => exact absurd rfl (threads i found wrote)
  | drained => exact ⟨rfl, rfl⟩
  | taken => exact ⟨rfl, rfl⟩
  | discarded => exact absurd rfl keeps

/-- A thread that neither closes the write end nor lets go. -/
theorem Turn.quiet {i : Nat} {found : Found} {wrote : Bool} (sound : Sound r)
    (turn : Turn r j (r.jobs j) (.work i found wrote) b')
    (open_ : ∀ f, r.workers i ≠ .on j (.publishing f .close)) (holds : ∀ f, r.workers i ≠ .on j (.publishing f .drop)) :
    SameEnds (r.jobs j) b' := by
  cases turn with
  | same => exact ⟨rfl, rfl⟩
  | dequeued _ _ _ queued => exact ⟨by simp [Job.referenced, queued], rfl⟩
  | went _ _ _ bound here go =>
    refine ⟨(referenced_of_held sound here).symm, ?_⟩
    cases go with
    | looked => rfl
    | stage f stage stage' next =>
      cases stage with
      | close => exact absurd here (open_ f)
      | _ => rfl
  | letGo _ _ _ f bound here => exact absurd here (holds f)

/-- A thread that publishes carries out its stage; after the last one it lets go. -/
theorem Turn.publishes {i : Nat} {found : Found} {wrote : Bool} (sound : Sound r)
    (turn : Turn r j (r.jobs j) (.work i found wrote) b') (bound : i < r.size) {f : Found} {stage : Stage}
    (on : r.workers i = .on j (.publishing f stage)) :
    (∃ stage', stage.next = some stage' ∧
        b' = { stage.effect f wrote (r.jobs j) with status := .held i (.publishing f stage') }) ∨
      stage = .drop ∧ b' = { r.jobs j with status := .finished } := by
  cases turn with
  | same _ idle => exact absurd on (idle i found wrote rfl bound _)
  | dequeued _ _ _ queued => cases queued.symm.trans ((sound.held i j _).mp on)
  | went _ _ _ _ here go =>
    obtain ⟨-, rfl⟩ := Worker.on.inj (on.symm.trans here)
    cases go with
    | stage f stage stage' next => exact Or.inl ⟨stage', next, rfl⟩
  | letGo _ _ _ _ _ here =>
    cases on.symm.trans here
    exact Or.inr ⟨rfl, rfl⟩

theorem Turn.shuts {i : Nat} {found : Found} {wrote : Bool} (sound : Sound r)
    (turn : Turn r j (r.jobs j) (.work i found wrote) b') (bound : i < r.size) {f : Found}
    (on : r.workers i = .on j (.publishing f .close)) :
    (r.jobs j).writeOpen = true ∧ b'.referenced = true ∧ b'.writeOpen = false := by
  have published : Published f 6 (r.jobs j) := sound.fits_at ((sound.held i j _).mp on)
  refine ⟨published.writeOpen, ?_⟩
  rcases turn.publishes sound bound on with ⟨stage', next, rfl⟩ | ⟨wrong, -⟩
  · exact ⟨rfl, rfl⟩
  · cases wrong

theorem Turn.drops {i : Nat} {found : Found} {wrote : Bool} (sound : Sound r)
    (turn : Turn r j (r.jobs j) (.work i found wrote) b') (bound : i < r.size) {f : Found}
    (on : r.workers i = .on j (.publishing f .drop)) :
    (r.jobs j).writeOpen = false ∧ b'.referenced = false := by
  have published : Published f 7 (r.jobs j) := sound.fits_at ((sound.held i j _).mp on)
  refine ⟨published.writeOpen, ?_⟩
  rcases turn.publishes sound bound on with ⟨stage', next, -⟩ | ⟨-, rfl⟩
  · cases next
  · rfl

end Resolver

namespace Hub
variable {cfg : Config} {h h' : Hub} {act : Act}

/-! ## Every job belongs to a connection -/

def Owners (h : Hub) : Prop :=
  ∀ j < h.resolver.made, ∃ c, h.clients (h.resolver.jobs j).owner = some c ∧ c.job = some j

theorem Owners.unique (owners : Owners h) {j : Nat} (made : j < h.resolver.made) {key : Nat} {c : Client}
    (owner : (h.resolver.jobs j).owner = key) (here : h.clients key = some c) : c.job = some j := by
  obtain ⟨d, there, job⟩ := owners j made
  rw [owner, here] at there
  obtain rfl := Option.some.inj there
  exact job

/-- No new job, and every connection keeps its own. -/
theorem Owners.keep (owners : Owners h) (made : h'.resolver.made = h.resolver.made)
    (owner : ∀ j < h.resolver.made, (h'.resolver.jobs j).owner = (h.resolver.jobs j).owner)
    (clients : ∀ key c, h.clients key = some c → ∃ c', h'.clients key = some c' ∧ c'.job = c.job) : Owners h' := by
  intro j bound
  rw [made] at bound
  obtain ⟨c, here, job⟩ := owners j bound
  obtain ⟨c', after, same⟩ := clients _ c here
  exact ⟨c', owner j bound ▸ after, same.trans job⟩

theorem set_keeps {r : Resolver} {key : Nat} {c c' : Client} (here : h.clients key = some c) (job : c'.job = c.job)
    (key' : Nat) (d : Client) (there : h.clients key' = some d) :
    ∃ d', (h.set key c' r).clients key' = some d' ∧ d'.job = d.job := by
  change ∃ d', Function.update h.clients key (some c') key' = some d' ∧ _
  by_cases same : key' = key
  · subst same
    obtain rfl := Option.some.inj (here.symm.trans there)
    exact ⟨c', Function.update_self .., job⟩
  · exact ⟨d, (Function.update_of_ne same ..).trans there, rfl⟩

theorem tell_keeps {key : Nat} {events : List Event} (key' : Nat) (d : Client) (there : h.clients key' = some d) :
    ∃ d', h.tell key events key' = some d' ∧ d'.job = d.job := by
  by_cases same : key' = key
  · subst same
    exact ⟨d.hear events, by simp [tell, there], rfl⟩
  · exact ⟨d, (Function.update_of_ne same ..).trans there, rfl⟩

/-- A connection about to get a job had none before. -/
theorem Sound.unasked (sound : Sound cfg h) {key : Nat} {c : Client} (here : h.clients key = some c)
    (alive : c.alive = true) (want : c.conn.want ≠ .readResolver) {cache cache' : Option LruCache}
    {events : List Event} {conn : Connection} (step : EvProxy.Step cfg c.conn cache events conn cache')
    {job : ResolveJob} (made : conn.resolveJob = some job) : c.job = none := by
  have mine := sound.clients key c here
  have before := mine.jobless alive want
  cases first : c.job with
  | none => rfl
  | some j => exact absurd (step.asks before made).1 (mine.asked j first).2.2

theorem Owners.step (owners : Owners h) (sound : Sound cfg h) (step : Step cfg h act h') : Owners h' := by
  have owner (ract : Resolver.Act) (j : Nat) (made : j < h.resolver.made) :
      ((h.resolver.next ract).jobs j).owner = (h.resolver.jobs j).owner :=
    ((Resolver.next_step h.resolver ract).turn sound.resolver made).name.owner
  cases step with
  | stay => exact owners
  | world ract bg =>
    refine owners.keep (Resolver.made_eq (Resolver.next_step _ ract) ?_) (owner ract) fun key c here => ?_
    · intro owner host port readEnd writeEnd same
      rw [same] at bg
      cases bg
    · rw [worldNext]
      split
      · exact tell_keeps key c here
      · exact ⟨c, here, rfl⟩
  | accepted key client id unused =>
    refine owners.keep rfl (fun _ _ => rfl) fun key' d there => ?_
    have other : key' ≠ key := by
      rintro rfl
      rw [unused] at there
      cases there
    exact ⟨d, (Function.update_of_ne other ..).trans there, rfl⟩
  | called key c a cache here => exact owners.keep rfl (fun _ _ => rfl) (set_keeps here rfl)
  | asked key c a cache job here alive pc want step made open_ =>
    have first := sound.unasked here alive want step made
    obtain ⟨grown, new⟩ := push_new h.resolver open_ key job.host job.port job.readEnd job.writeEnd
    intro j bound
    change ∃ d, Function.update h.clients key _ ((h.resolver.next _).jobs j).owner = some d ∧ d.job = some j
    by_cases last : j = h.resolver.made
    · subst last
      rw [new]
      exact ⟨_, Function.update_self .., rfl⟩
    · have before : j < h.resolver.made := by
        change j < (h.resolver.next _).made at bound
        omega
      obtain ⟨d, there, mine⟩ := owners j before
      have other : (h.resolver.jobs j).owner ≠ key := by
        intro same
        rw [same, here] at there
        obtain rfl := Option.some.inj there
        rw [first] at mine
        cases mine
      rw [owner _ j before, Function.update_of_ne other]
      exact ⟨d, there, mine⟩
  | drained key c j here =>
    have made := Resolver.made_eq (Resolver.next_step h.resolver (.drain j)) (by simp)
    exact owners.keep made (owner (.drain j)) (set_keeps here rfl)
  | checked key c j here => exact owners.keep rfl (fun _ _ => rfl) (set_keeps here rfl)
  | took key c j here =>
    have made := Resolver.made_eq (Resolver.next_step h.resolver (.take j)) (by simp)
    exact owners.keep made (owner (.take j)) (set_keeps here rfl)
  | finished key c a cache view here => exact owners.keep rfl (fun _ _ => rfl) (set_keeps here rfl)
  | destroyed key c here => exact owners.keep rfl (fun _ _ => rfl) (set_keeps here rfl)
  | discarded j queue front =>
    have made := Resolver.made_eq (Resolver.next_step h.resolver .discard) (by simp)
    exact owners.keep made (owner .discard) tell_keeps

/-! ## The books of a connection and its job -/

/-- The resolver has what is open and not the connection's. -/
structure Kept (r : Resolver) (c : Client) : Prop where
  books : Books c.conn.fds c.log (theirs r c)
  pipe : ∀ j, c.job = some j → (r.jobs j).readEnd ≠ (r.jobs j).writeEnd

/-- The kernel permitting, every connection's books are kept. -/
def Custody (h : Hub) : Prop := ∀ key c, h.clients key = some c → Fresh ∅ (ops c.log) → Kept h.resolver c

section Steps
variable {r r' : Resolver} {key : Nat} {c : Client}

theorem theirs_some {j : Nat} (job : c.job = some j) : theirs r c = ends (r.jobs j) (c.refers j) := by
  simp [theirs, job]

theorem ends_congr {b b' : Resolver.Job} (name : Resolver.SameName b b') (same : Resolver.SameEnds b b')
    (refers : Bool) : ends b' refers = ends b refers := by
  rw [ends, ends, name.readEnd, name.writeEnd, same.referenced, same.writeOpen]

theorem Kept.later (kept : Kept r c) (name : ∀ j, c.job = some j → Resolver.SameName (r.jobs j) (r'.jobs j))
    (parts : theirs r' c = theirs r c) : Kept r' c := by
  refine ⟨parts ▸ kept.books, fun j job => ?_⟩
  rw [(name j job).readEnd, (name j job).writeEnd]
  exact kept.pipe j job

/-- Nothing happens to the pipe of the connection's job. -/
theorem Kept.calm (kept : Kept r c) (name : ∀ j, c.job = some j → Resolver.SameName (r.jobs j) (r'.jobs j))
    (same : ∀ j, c.job = some j → Resolver.SameEnds (r.jobs j) (r'.jobs j)) : Kept r' c := by
  refine kept.later name ?_
  cases job : c.job with
  | none => simp [theirs, job]
  | some j => rw [theirs_some job, theirs_some job, ends_congr (name j job) (same j job)]

/-- Who hears of a job's pipe is the connection that has the job. -/
theorem told (sound : Sound cfg h) (owners : Owners h) (here : h.clients key = some c) {j : Nat}
    (made : j < h.resolver.made) {events : List Event} {c' : Client}
    (after : h.tell (h.resolver.jobs j).owner events key = some c') :
    c' = c ∧ c.job ≠ some j ∨ c' = c.hear events ∧ c.job = some j := by
  obtain ⟨d, before, ⟨rfl, other⟩ | ⟨rfl, mine⟩⟩ := tell_eq_some after
  · obtain rfl := Option.some.inj (here.symm.trans before)
    exact .inl ⟨rfl, fun job => other ((sound.clients key c here).asked j job).2.1.symm⟩
  · obtain rfl := Option.some.inj (here.symm.trans before)
    exact .inr ⟨rfl, owners.unique made mine.symm here⟩

/-- A thread on its way tells nobody. -/
theorem closes_eq_none {i : Nat} (found : Found) (wrote : Bool)
    (shut : ∀ j f, h.resolver.workers i ≠ .on j (.publishing f .close))
    (drop : ∀ j f, h.resolver.workers i ≠ .on j (.publishing f .drop)) : h.closes (.work i found wrote) = none := by
  rw [closes]
  split
  · split
    · rename_i j f on
      exact absurd on (shut j f)
    · rename_i j f on
      exact absurd on (drop j f)
    · rfl
  · rfl

/-- The pipe of the connection's job loses one end. -/
theorem Kept.loses (kept : Kept r c) {j n : Nat} (job : c.job = some j)
    (name : Resolver.SameName (r.jobs j) (r'.jobs j)) (mem : n ∈ ends (r.jobs j) (c.refers j))
    (parts : ends (r'.jobs j) (c.refers j) = (ends (r.jobs j) (c.refers j)).erase n) :
    Kept r' (c.hear [.closed n]) := by
  rw [← theirs_some job] at mem parts
  rw [← theirs_some job] at parts
  refine ⟨?_, fun k same => ?_⟩
  · have closed := kept.books.close mem
    rw [← parts] at closed
    exact closed
  · obtain rfl := Option.some.inj (job.symm.trans same)
    rw [name.readEnd, name.writeEnd]
    exact kept.pipe j job

/-- A thread closes the write end of its job. -/
theorem Kept.shut (sound : Sound cfg h) (owners : Owners h) (here : h.clients key = some c)
    (kept : Kept h.resolver c) {i k : Nat} {f found : Found} {wrote : Bool}
    (on : h.resolver.workers i = .on k (.publishing f .close)) {c' : Client}
    (after : (h.worldNext (.work i found wrote)).clients key = some c') :
    Kept (h.resolver.next (.work i found wrote)) c' := by
  have turn {j : Nat} (job : c.job = some j) := sound.turn here (.work i found wrote) job
  have bound := sound.resolver.bound on
  simp only [worldNext, closes, bound, on, if_true] at after
  rcases told sound owners here (sound.resolver.made_of_held on) after with ⟨rfl, other⟩ | ⟨rfl, job⟩
  · refine kept.calm (fun j job => (turn job).name) fun j job =>
      (turn job).quiet sound.resolver (fun f' on' => ?_) (by simp [on])
    exact other ((Resolver.Worker.on.inj (on.symm.trans on')).1 ▸ job)
  · obtain ⟨open_, referenced, shut⟩ := (turn job).shuts sound.resolver bound on
    have held := Resolver.referenced_of_held sound.resolver on
    have name := (turn job).name
    have pipe := kept.pipe k job
    refine kept.loses job name (mem_ends.mpr ⟨held, .inl ⟨open_, rfl⟩⟩) ?_
    ext n
    rw [Finset.mem_erase, mem_ends, mem_ends, name.readEnd, name.writeEnd, referenced, shut, held, open_]
    grind

/-- A thread lets go of its job. -/
theorem Kept.dropped (sound : Sound cfg h) (owners : Owners h) (here : h.clients key = some c)
    (kept : Kept h.resolver c) {i k : Nat} {f found : Found} {wrote : Bool}
    (on : h.resolver.workers i = .on k (.publishing f .drop)) {c' : Client}
    (after : (h.worldNext (.work i found wrote)).clients key = some c') :
    Kept (h.resolver.next (.work i found wrote)) c' := by
  have turn {j : Nat} (job : c.job = some j) := sound.turn here (.work i found wrote) job
  have bound := sound.resolver.bound on
  have elsewhere (other : c.job ≠ some k) : Kept (h.resolver.next (.work i found wrote)) c := by
    refine kept.calm (fun j job => (turn job).name) fun j job =>
      (turn job).quiet sound.resolver (by simp [on]) fun f' on' => ?_
    exact other ((Resolver.Worker.on.inj (on.symm.trans on')).1 ▸ job)
  by_cases refers : h.refers k = true
  · -- the connection has the other reference, so nothing is closed
    have silent : h.closes (.work i found wrote) = none := by simp [closes, on, refers]
    simp only [worldNext, silent] at after
    obtain rfl := Option.some.inj (here.symm.trans after)
    by_cases job : c.job = some k
    · obtain ⟨shut, gone⟩ := (turn job).drops sound.resolver bound on
      rw [refers_eq sound here job] at refers
      refine kept.later (fun j job => (turn job).name) ?_
      rw [theirs_some job, theirs_some job]
      ext n
      simp [mem_ends, gone, shut, refers]
    · exact elsewhere job
  · simp only [worldNext, closes, bound, on, refers, if_true, Bool.false_eq_true, if_false] at after
    rcases told sound owners here (sound.resolver.made_of_held on) after with ⟨rfl, other⟩ | ⟨rfl, job⟩
    · exact elsewhere other
    · obtain ⟨shut, gone⟩ := (turn job).drops sound.resolver bound on
      have held := Resolver.referenced_of_held sound.resolver on
      have free : c.refers k = false := by simpa [refers_eq sound here job] using refers
      refine kept.loses job (turn job).name (mem_ends.mpr ⟨held, .inr ⟨free, rfl⟩⟩) ?_
      ext n
      simp +contextual [mem_ends, gone, shut]

/-- What a step of the resolver does to the books of one connection. -/
theorem Kept.world (sound : Sound cfg h) (owners : Owners h) (here : h.clients key = some c)
    (kept : Kept h.resolver c) {ract : Resolver.Act} (bg : background ract = true) {c' : Client}
    (after : (h.worldNext ract).clients key = some c') : Kept (h.resolver.next ract) c' := by
  have turn (j : Nat) (job : c.job = some j) := sound.turn here ract job
  have quiet (silent : h.closes ract = none)
      (same : ∀ j, c.job = some j → Resolver.SameEnds (h.resolver.jobs j) ((h.resolver.next ract).jobs j)) :
      Kept (h.resolver.next ract) c' := by
    simp only [worldNext, silent] at after
    obtain rfl := Option.some.inj (here.symm.trans after)
    exact kept.calm (fun j job => (turn j job).name) same
  cases ract with
  | work i found wrote =>
    by_cases shut : ∃ k f, h.resolver.workers i = .on k (.publishing f .close)
    · obtain ⟨k, f, on⟩ := shut
      exact kept.shut sound owners here on after
    · by_cases drop : ∃ k f, h.resolver.workers i = .on k (.publishing f .drop)
      · obtain ⟨k, f, on⟩ := drop
        exact kept.dropped sound owners here on after
      · simp only [not_exists] at shut drop
        exact quiet (closes_eq_none found wrote shut drop) fun j job =>
          (turn j job).quiet sound.resolver (shut j) (drop j)
  | _ => exact quiet rfl fun j job => (turn j job).calm (by simp) (background_ne bg 0).2

/-- The destructor of the resolver closes both ends of a job that nobody looked up. -/
theorem Kept.discard (sound : Sound cfg h) (owners : Owners h) (here : h.clients key = some c)
    (kept : Kept h.resolver c) {j : Nat} {queue : Mailbox Nat} (front : h.resolver.queue.takeFront = some (j, queue))
    (closed : h.resolver.closed = true) (joined : ∀ i < h.resolver.size, h.resolver.workers i = .exited)
    (free : h.refers j = false) {c' : Client}
    (after : h.tell (h.resolver.jobs j).owner
      [.closed (h.resolver.jobs j).writeEnd, .closed (h.resolver.jobs j).readEnd] key = some c') :
    Kept (h.resolver.next .discard) c' := by
  have queued := (sound.resolver.front front).1
  have blank : Resolver.Blank (h.resolver.jobs j) := sound.resolver.fits_at queued
  have made : j < h.resolver.made := sound.resolver.made_of (by simp [queued])
  have thrown : (h.resolver.next .discard).jobs =
      Function.update h.resolver.jobs j { h.resolver.jobs j with status := .discarded } := by
    simp only [Resolver.next, if_pos (And.intro closed joined), front]
  have others {k : Nat} (other : k ≠ j) : (h.resolver.next .discard).jobs k = h.resolver.jobs k := by
    rw [thrown, Function.update_of_ne other]
  have name (k : Nat) : Resolver.SameName (h.resolver.jobs k) ((h.resolver.next .discard).jobs k) := by
    by_cases same : k = j
    · rw [same, thrown, Function.update_self]
      exact ⟨rfl, rfl, rfl⟩
    · rw [others same]
      exact ⟨rfl, rfl, rfl⟩
  rcases told sound owners here made after with ⟨rfl, other⟩ | ⟨rfl, job⟩
  · refine kept.calm (fun k _ => name k) fun k job => ?_
    rw [others fun same => other (same ▸ job)]
    exact ⟨rfl, rfl⟩
  · have referenced : (h.resolver.jobs j).referenced = true := by simp [Resolver.Job.referenced, queued]
    have unowned : c.refers j = false := by rwa [refers_eq sound here job] at free
    have pipe := kept.pipe j job
    have books := kept.books
    rw [theirs_some job] at books
    replace books := (books.close (mem_ends.mpr ⟨referenced, .inl ⟨blank.writeOpen, rfl⟩⟩)).close
      (Finset.mem_erase.mpr ⟨pipe, mem_ends.mpr ⟨referenced, .inr ⟨unowned, rfl⟩⟩⟩)
    refine ⟨?_, fun k job => ?_⟩
    · have none_left : theirs (h.resolver.next .discard) c = ((ends (h.resolver.jobs j) (c.refers j)).erase
          (h.resolver.jobs j).writeEnd).erase (h.resolver.jobs j).readEnd := by
        rw [theirs_some job, thrown, Function.update_self]
        ext n
        simp only [mem_ends, Finset.mem_erase, Resolver.Job.referenced]
        grind
      rw [← none_left, List.append_assoc] at books
      exact books
    · rw [(name k).readEnd, (name k).writeEnd]
      exact kept.pipe k job

theorem mem_theirs_congr {c' : Client} (job : c'.job = c.job)
    (same : c'.conn.resolveJob.isSome = c.conn.resolveJob.isSome) (n : Nat) : n ∈ theirs r c' ↔ n ∈ theirs r c := by
  cases first : c.job with
  | none => simp [theirs, first, job]
  | some j => rw [theirs_some first, theirs_some (job.trans first), Client.refers, Client.refers, job, same]

/-- The connection lets go: what the resolver still references is the resolver's alone. -/
theorem theirs_dropped (mine : c.Sound cfg h.resolver key) {c' : Client} (job : c'.job = c.job)
    (gone : c'.conn.resolveJob = none) (n : Nat) :
    n ∈ theirs h.resolver c' ↔ n ∈ theirs h.resolver c ∨
      h.lastRef c = false ∧ ∃ handle, c.conn.resolveJob = some handle ∧ n = handle.readEnd := by
  cases held : c.conn.resolveJob with
  | none =>
    refine (mem_theirs_congr job (by rw [gone, held]) n).trans ?_
    simp
  | some handle =>
    obtain ⟨j, first, linked, -⟩ := mine.waits handle held
    have mineStill : c.refers j = true := by simp [Client.refers, first, held]
    have lets : c'.refers j = false := by simp [Client.refers, gone]
    rw [theirs_some first, theirs_some (job.trans first), mem_ends, mem_ends, mineStill, lets]
    simp only [lastRef, first, linked.readEnd]
    cases (h.resolver.jobs j).referenced <;> simp

/-- The kernel permitted what came before. -/
theorem fresh_of_append {log events : List Event} (fresh : Fresh ∅ (ops (log ++ events))) : Fresh ∅ (ops log) := by
  rw [ops_append, Fresh, legal_append] at fresh
  exact fresh.1

/-- The resolver does something that closes nothing. -/
theorem Custody.keep (custody : Custody h) (sound : Sound cfg h) (ract : Resolver.Act)
    (threads : ∀ i found wrote, ract ≠ .work i found wrote) (keeps : ract ≠ .discard)
    (here : h.clients key = some c) (fresh : Fresh ∅ (ops c.log)) : Kept (h.resolver.next ract) c := by
  exact (custody key c here fresh).calm (fun j job => (sound.turn here ract job).name) fun j job =>
    (sound.turn here ract job).calm threads keeps

theorem Custody.set (custody : Custody h) (sound : Sound cfg h) {ract : Resolver.Act}
    (threads : ∀ i found wrote, ract ≠ .work i found wrote) (keeps : ract ≠ .discard)
    (mine : Fresh ∅ (ops c.log) → Kept (h.resolver.next ract) c) : Custody (h.set key c (h.resolver.next ract)) := by
  intro key' c' here fresh
  rcases set_eq_some here with ⟨rfl, rfl⟩ | ⟨-, before⟩
  · exact mine fresh
  · exact custody.keep sound ract threads keeps before fresh

theorem Custody.set_still (custody : Custody h) (mine : Fresh ∅ (ops c.log) → Kept h.resolver c) :
    Custody (h.set key c h.resolver) := by
  intro key' c' here fresh
  rcases set_eq_some here with ⟨rfl, rfl⟩ | ⟨-, before⟩
  · exact mine fresh
  · exact custody key' c' before fresh

theorem tell_log {key' : Nat} {events : List Event} {c' : Client} (after : h.tell key' events key = some c') :
    ∃ c, h.clients key = some c ∧ ∃ new, c'.log = c.log ++ new := by
  obtain ⟨c, here, ⟨rfl, -⟩ | ⟨rfl, -⟩⟩ := tell_eq_some after
  · exact ⟨c', here, [], (List.append_nil _).symm⟩
  · exact ⟨c, here, events, rfl⟩

theorem worldNext_log {ract : Resolver.Act} {c' : Client} (after : (h.worldNext ract).clients key = some c') :
    ∃ c, h.clients key = some c ∧ ∃ new, c'.log = c.log ++ new := by
  rw [worldNext] at after
  split at after
  · exact tell_log after
  · exact ⟨c', after, [], (List.append_nil _).symm⟩

/-- A connection just accepted has its client. -/
theorem books_init (client id : Nat) : Books (Connection.init client id).fds [.opened client] ∅ := by
  have now : opened [.opened client] = {client} := rfl
  have owned : (Connection.init client id).fds.owned = {client} := by
    ext n
    simp [Fds.mem_owned, Connection.fds, Connection.init, eq_comm]
  refine ⟨⟨?_, ?_, ?_⟩, ?_, ?_, ⟨trivial, trivial⟩⟩
  · simp [Connection.fds, Connection.init]
  · simp [Connection.fds, Connection.init]
  · simp [Connection.fds, Connection.init]
  · rw [owned, now]
  · rw [owned, now]
    simp

theorem Custody.step (custody : Custody h) (sound : Sound cfg h) (owners : Owners h) (step : Step cfg h act h') :
    Custody h' := by
  cases step with
  | stay => exact custody
  | world ract bg =>
    intro key c' after fresh
    obtain ⟨c, here, events, log⟩ := worldNext_log after
    exact (custody key c here (fresh_of_append (log ▸ fresh))).world sound owners here bg after
  | accepted key client id unused =>
    exact custody.set_still fun _ => ⟨books_init client id, by simp⟩
  | called key c a cache here alive pc want step job =>
    have mine := sound.clients key c here
    have before := mine.jobless alive want
    refine custody.set_still fun fresh => ?_
    have kept := custody key c here (fresh_of_append fresh)
    refine ⟨kept.books.step fresh (step.orderly (mine.phase alive)) fun n => ?_, kept.pipe⟩
    refine Iff.trans (mem_theirs_congr (c := c) ?_ ?_ n) ?_
    · rfl
    · rw [job, before]
    · simp [step.keeps before job n]
  | asked key c a cache job here alive pc want step made open_ =>
    have mine := sound.clients key c here
    have first := sound.unasked here alive want step made
    obtain ⟨-, -, -, -, shape⟩ := step.asks (mine.jobless alive want) made
    obtain ⟨-, new⟩ := push_new h.resolver open_ key job.host job.port job.readEnd job.writeEnd
    refine custody.set sound (by simp) (by simp) fun fresh => ?_
    have kept := custody key c here (fresh_of_append fresh)
    refine ⟨kept.books.step fresh (step.orderly (mine.phase alive)) fun n => ?_, fun j asked => ?_⟩
    · change n ∈ ends ((h.resolver.next _).jobs h.resolver.made) (Client.refers _ h.resolver.made) ↔ _
      rw [new, mem_ends, ← handed_ops, shape]
      simp [Client.refers, made, theirs, first, handed, Resolver.Job.referenced]
    · obtain rfl := Option.some.inj asked
      change Fresh ∅ (ops (c.log ++ _)) at fresh
      rw [ops_append, shape, Fresh, legal_append] at fresh
      obtain ⟨-, -, different, -⟩ := fresh
      rw [new]
      intro same
      have same : job.readEnd = job.writeEnd := same
      exact different (same ▸ Finset.mem_insert_self ..)
  | drained key c j here =>
    refine custody.set sound (by simp) (by simp) fun fresh => ?_
    have kept := custody.keep sound (.drain j) (by simp) (by simp) here fresh
    exact ⟨kept.books, kept.pipe⟩
  | checked key c j here =>
    refine custody.set_still fun fresh => ?_
    have kept := custody key c here fresh
    exact ⟨kept.books, kept.pipe⟩
  | took key c j here =>
    refine custody.set sound (by simp) (by simp) fun fresh => ?_
    have kept := custody.keep sound (.take j) (by simp) (by simp) here fresh
    exact ⟨kept.books, kept.pipe⟩
  | finished key c a cache view here alive pc =>
    have mine := sound.clients key c here
    obtain ⟨resolving, ready, -⟩ := mine.took alive pc
    have step := onReady_step cfg { a with job := view, lastRef := h.lastRef c } cache c.conn
    have gone := onReady_gone cfg { a with job := view, lastRef := h.lastRef c } cache resolving ready
    refine custody.set_still fun fresh => ?_
    have kept := custody key c here (fresh_of_append fresh)
    refine ⟨kept.books.step fresh (step.orderly (mine.phase alive)) fun n => ?_, kept.pipe⟩
    have released := onReady_released { a with job := view, lastRef := h.lastRef c } cache resolving ready n
    refine Iff.trans (theirs_dropped mine ?_ ?_ n) (or_congr_right released.symm)
    · rfl
    · exact gone
  | destroyed key c here alive pc =>
    have mine := sound.clients key c here
    refine custody.set_still fun fresh => ?_
    have kept := custody key c here (fresh_of_append fresh)
    refine ⟨kept.books.step fresh (finishEvents_orderly c.conn _) fun n => ?_, kept.pipe⟩
    refine Iff.trans (theirs_dropped mine ?_ ?_ n) (or_congr_right released_finishEvents.symm)
    · rfl
    · rfl
  | discarded j queue front closed joined free =>
    intro key c' after fresh
    obtain ⟨c, here, events, log⟩ := tell_log after
    exact (custody key c here (fresh_of_append (log ▸ fresh))).discard sound owners here front closed joined free after

end Steps

theorem custody_run (cfg : Config) (size : Nat) (cacheTtlS now : Int) (acts : List Act) :
    Sound cfg (run (next cfg) (start size cacheTtlS now) acts) ∧
      Custody (run (next cfg) (start size cacheTtlS now) acts) := by
  obtain ⟨sound, -, custody⟩ := run_invariant (P := fun h => Sound cfg h ∧ Owners h ∧ Custody h)
    (fun h act all => by
      have step := next_step cfg h act
      exact ⟨all.1.step step, all.2.1.step all.1 step, all.2.2.step all.1 all.2.1 step⟩)
    ⟨.start cfg size cacheTtlS now, by simp [Owners, start, Resolver.start], by simp [Custody, start]⟩ acts
  exact ⟨sound, custody⟩

/-- Before a job is over its write end is only closed by a thread that still has it. -/
theorem referenced_of_writeOpen {r : Resolver} (sound : r.Sound) {j : Nat} (made : j < r.made)
    (kept : (r.jobs j).status ≠ .discarded) (open_ : (r.jobs j).writeOpen = true) : (r.jobs j).referenced = true := by
  cases status : (r.jobs j).status with
  | unmade => exact absurd ((sound.unmade j).mp status) (Nat.not_le.mpr made)
  | queued => simp [Resolver.Job.referenced, status]
  | held i duty => simp [Resolver.Job.referenced, status]
  | finished =>
    obtain ⟨f, published⟩ := sound.fits_at status
    rw [published.writeOpen] at open_
    cases open_
  | discarded => exact absurd status kept

/-- What is open on behalf of a connection. -/
theorem Kept.mem_opened {cfg : Config} {r : Resolver} {key : Nat} {c : Client} (kept : Kept r c)
    (resolver : r.Sound) (mine : c.Sound cfg r key) (n : Nat) :
    n ∈ opened c.log ↔ c.conn.client = some n ∨ c.conn.upstream = some n ∨
      ∃ j, c.job = some j ∧ (c.refers j = true ∨ (r.jobs j).referenced = true) ∧
        (n = (r.jobs j).readEnd ∨ (r.jobs j).writeOpen = true ∧ n = (r.jobs j).writeEnd) := by
  have parts : n ∈ opened c.log ↔ n ∈ c.conn.fds.owned ∨ n ∈ theirs r c := by
    rw [← kept.books.rest, ← Finset.mem_union, Finset.union_sdiff_of_subset kept.books.mine]
  have job : n ∈ theirs r c ∨ c.conn.fds.job = some n ↔
      ∃ j, c.job = some j ∧ (c.refers j = true ∨ (r.jobs j).referenced = true) ∧
        (n = (r.jobs j).readEnd ∨ (r.jobs j).writeOpen = true ∧ n = (r.jobs j).writeEnd) := by
    cases held : c.conn.resolveJob with
    | none =>
      cases first : c.job with
      | none => simp [theirs, first, Connection.fds, held]
      | some j =>
        rw [theirs_some first, mem_ends]
        simp [Connection.fds, held, Client.refers, or_comm]
    | some handle =>
      obtain ⟨j, first, linked, status, -⟩ := mine.waits handle held
      have open_ := referenced_of_writeOpen resolver (mine.asked j first).1 status
      have refers : c.refers j = true := by simp [Client.refers, first, held]
      rw [theirs_some first, mem_ends, refers, first]
      simp only [Connection.fds, held, Option.map_some, ← linked.readEnd, Option.some.injEq]
      grind
  rw [parts, Fds.mem_owned, ← job, or_comm (a := n ∈ theirs r c), or_assoc, or_assoc]
  rfl

/-- Done or destroyed, a connection holds nothing itself. -/
theorem Client.Sound.ended {cfg : Config} {r : Resolver} {key : Nat} {c : Client} (mine : c.Sound cfg r key)
    (ended : c.conn.state = .done ∨ c.alive = false) :
    c.conn.client = none ∧ c.conn.upstream = none ∧ c.conn.resolveJob = none := by
  cases alive : c.alive with
  | false => exact mine.dead alive
  | true =>
    have phase := mine.phase alive
    have done : Done c.conn := phase.of_want (phase.agree.1.mpr (ended.resolve_right (by simp [alive])))
    exact ⟨done.client, done.upstream, done.job⟩

/-- The ledger counts what the log counts. -/
theorem count_ops {op : Op Nat} {e : Event} (only : ∀ x : Event, x.op = some op ↔ x = e) (log : List Event) :
    (ops log).count op = log.count e := by
  induction log with
  | nil => rfl
  | cons x log ih =>
    cases shape : x.op with
    | none =>
      have other : x ≠ e := fun same => by simp [(only x).mpr same] at shape
      rw [List.count_cons_of_ne other, ← ih, ops, List.filterMap_cons_none shape, ops]
    | some o =>
      have same : (o == op) = (x == e) := by
        rw [Bool.eq_iff_iff, beq_iff_eq, beq_iff_eq, ← only, shape, Option.some.injEq]
      rw [List.count_cons, ← ih, ops, List.filterMap_cons_some shape, List.count_cons, same, ops]

/-- **Descriptor accounting.** Let the kernel give out only numbers that are not open. Then, after any run, what was
closed on behalf of a connection was open, and everything opened was closed once or is still open; the open ones are its
client, its upstream and what its job still has of the pipe; and when it is done or destroyed, only what the resolver
still references is open, and nothing once that is gone. -/
theorem descriptor_accounting (cfg : Config) (size : Nat) (cacheTtlS now : Int) (acts : List Act) (key : Nat)
    (c : Client) (here : (run (next cfg) (start size cacheTtlS now) acts).clients key = some c)
    (kernel : Fresh ∅ (ops c.log)) :
    let r := (run (next cfg) (start size cacheTtlS now) acts).resolver
    Legal Spent track ∅ (ops c.log) ∧
    (∀ n, c.log.count (.opened n) = c.log.count (.closed n) + inUse (opened c.log) n) ∧
    (∀ n, n ∈ opened c.log ↔ c.conn.client = some n ∨ c.conn.upstream = some n ∨
      ∃ j, c.job = some j ∧ (c.refers j = true ∨ (r.jobs j).referenced = true) ∧
        (n = (r.jobs j).readEnd ∨ (r.jobs j).writeOpen = true ∧ n = (r.jobs j).writeEnd)) ∧
    (c.alive = true → (c.conn.client = none ↔ c.conn.state = .done)) ∧
    (c.conn.state = .done ∨ c.alive = false →
      (∀ n ∈ opened c.log, ∃ j, c.job = some j ∧ (r.jobs j).referenced = true ∧
        (n = (r.jobs j).readEnd ∨ n = (r.jobs j).writeEnd)) ∧
      ((∀ j, c.job = some j → (r.jobs j).referenced = false) → opened c.log = ∅)) := by
  intro r
  obtain ⟨sound, custody⟩ := custody_run cfg size cacheTtlS now acts
  have kept := custody key c here kernel
  have mine := sound.clients key c here
  have parts := kept.mem_opened sound.resolver mine
  refine ⟨kept.books.spent, fun n => ?_, parts, fun alive => ?_, fun over_ => ?_⟩
  · have even := balance kernel kept.books.spent n
    rw [count_ops (e := .opened n) (by intro x; cases x <;> simp [Event.op]),
      count_ops (e := .closed n) (by intro x; cases x <;> simp [Event.op])] at even
    have none_yet : inUse (∅ : Finset Nat) n = 0 := by simp [inUse]
    rw [none_yet, Nat.add_zero] at even
    exact even
  · exact (mine.phase alive).client_iff
  · obtain ⟨client, upstream, job⟩ := mine.ended over_
    have left (n : Nat) (mem : n ∈ opened c.log) : ∃ j, c.job = some j ∧ (r.jobs j).referenced = true ∧
        (n = (r.jobs j).readEnd ∨ n = (r.jobs j).writeEnd) := by
      rcases (parts n).mp mem with is | is | ⟨j, first, refers | referenced, whose⟩
      · rw [client] at is
        cases is
      · rw [upstream] at is
        cases is
      · simp [Client.refers, job] at refers
      · exact ⟨j, first, referenced, whose.imp_right And.right⟩
    refine ⟨left, fun gone => Finset.eq_empty_of_forall_notMem fun n mem => ?_⟩
    obtain ⟨j, first, referenced, -⟩ := left n mem
    rw [gone j first] at referenced
    cases referenced

/-- A connection is destroyed while its name is being looked up, and the thread then goes through with it. -/
def abandoned : List Act :=
  [.accept 0 5 0,
   .client 0 (.call { recv := .bytes (bytes "GET http://h/ HTTP/1.1\r\n\r\n"), start := .pending 7 8 } none),
   .world (.work 0 ⟨false, [], []⟩ true),
   .client 0 .destroy] ++
  List.replicate 10 (.world (.work 0 ⟨false, [], []⟩ true))

theorem descriptor_accounting_abandoned :
    ∃ c, (run (next {}) (start 1 60 0) abandoned).clients 0 = some c ∧ c.alive = false ∧ c.job = some 0 ∧
      (∀ n, c.log.count (.opened n) = c.log.count (.closed n) + inUse (opened c.log) n) ∧ opened c.log = ∅ := by
  have found : ((run (next {}) (start 1 60 0) abandoned).clients 0).map (fun c => (c.alive, c.job, ops c.log)) =
      some (false, some 0,
        [.acquire 5, .acquire 7, .acquire 8, .handOver 8, .handOver 7, .free 5, .free 8, .free 7]) := by
    decide +kernel
  obtain ⟨c, here, shape⟩ := Option.map_eq_some_iff.mp found
  simp only [Prod.mk.injEq] at shape
  obtain ⟨dead, job, log⟩ := shape
  have all := descriptor_accounting {} 1 60 0 abandoned 0 c here (by rw [log]; decide)
  refine ⟨c, here, dead, job, all.2.1, (all.2.2.2.2 (.inr dead)).2 fun j first => ?_⟩
  obtain rfl := Option.some.inj (job.symm.trans first)
  decide +kernel

end Hub

end EvProxy
