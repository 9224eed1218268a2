import EvProxy.Conn.Session

/-!
# Address fallback

The search for an address that answers is split between the loop of
`begin_connect` and the callback `finish_connect`, which re-enters the loop when
a connect in progress turns out to have failed. With the fate of every candidate
fixed, `connectPhase` runs both until the connection leaves the connecting
state. `connect_fallback` says what that comes to: a plain walk down the list.
-/

namespace EvProxy
open Text Runs

/-- What becomes of one candidate. -/
inductive Fate where
  | noSocket
  | noNonblock (fd : Nat)
  | refused (fd : Nat)
  | connected (fd : Nat)
  /-- In progress at first. -/
  | succeeds (fd : Nat)
  | fails (fd : Nat)
  deriving DecidableEq

namespace Fate

/-- The outcome of `start_connect`. -/
def dial : Fate → Dial
  | noSocket => .noSocket
  | noNonblock fd => .noNonblock fd
  | refused fd => .refused fd
  | connected fd => .connected fd
  | succeeds fd => .inProgress fd
  | fails fd => .inProgress fd

/-- The socket of a candidate that answers. -/
def socket : Fate → Option Nat
  | connected fd => some fd
  | succeeds fd => some fd
  | _ => none

/-- What an observer sees of the candidate, from the attempt to its end. -/
def visit (endpoint : Endpoint) : Fate → List Event
  | noSocket => [.attempt endpoint]
  | noNonblock fd | refused fd | fails fd => [.attempt endpoint, .opened fd, .closed fd]
  | connected fd | succeeds fd => [.attempt endpoint, .opened fd, .connected (some fd)]

end Fate

/-- The world in which candidate `i` has the fate `fate i`, seen by a connection
that has taken up `idx` candidates: the last of them is the one in progress. -/
def worldOf (fate : Nat → Fate) (idx : Nat) : Answers :=
  { dial := fun i => (fate i).dial, connectOk := (fate (idx - 1)).socket.isSome }

/-- `finish_connect` for as long as a connect is in progress, at most `n` times. -/
def connectPhase (fate : Nat → Fate) : Nat → Exec → Exec
  | 0, x => x
  | n + 1, x =>
    if x.conn.state = .connecting then
      connectPhase fate n (finishConnect (worldOf fate x.conn.endpointIdx) x)
    else x

/-- The candidates down to the first that answers, with their positions. -/
def tried (fate : Nat → Fate) : Nat → List Endpoint → List (Endpoint × Nat)
  | _, [] => []
  | i, endpoint :: rest =>
    if (fate i).socket.isSome then [(endpoint, i)] else (endpoint, i) :: tried fate (i + 1) rest

/-- The socket of the first that answers. -/
def winner (fate : Nat → Fate) : Nat → List Endpoint → Option Nat
  | _, [] => none
  | i, _ :: rest => (fate i).socket.or (winner fate (i + 1) rest)

/-- Everything an observer sees of the search. -/
def visits (fate : Nat → Fate) (i : Nat) (rest : List Endpoint) : List Event :=
  (tried fate i rest).flatMap fun candidate => (fate candidate.2).visit candidate.1

/-- The search is over: it has been down the list to the first that answers. -/
structure Settled (fate : Nat → Fate) (idx : Nat) (rest : List Endpoint) (x y : Exec) : Prop where
  trace : y.trace = x.trace ++ visits fate idx rest
  index : y.conn.endpointIdx = idx + (tried fate idx rest).length
  won : ∀ fd, winner fate idx rest = some fd →
    y.conn.state = .sendingUpstream ∧ y.conn.want = .writeUpstream ∧ y.conn.upstream = some fd
  lost : winner fate idx rest = none →
    y.conn.state = .failing ∧ y.conn.want = .writeClient ∧ y.conn.outClient = badGateway ∧ y.conn.outClientOff = 0

section Search
variable {fate : Nat → Fate} {a : Answers} {endpoints rest : List Endpoint} {idx : Nat}

theorem connectPhase_settled {n : Nat} {x : Exec} (over_ : x.conn.state ≠ .connecting) :
    connectPhase fate n x = x := by
  cases n with
  | zero => rfl
  | succ n => rw [connectPhase, if_neg over_]

/-- A candidate that failed puts its visit before the others'. -/
theorem Settled.cons {endpoint : Endpoint} {x x' y : Exec} (failed : (fate idx).socket = none)
    (shown : x'.trace = x.trace ++ (fate idx).visit endpoint) (h : Settled fate (idx + 1) rest x' y) :
    Settled fate idx (endpoint :: rest) x y := by
  have more : tried fate idx (endpoint :: rest) = (endpoint, idx) :: tried fate (idx + 1) rest := by
    simp [tried, failed]
  have same : winner fate idx (endpoint :: rest) = winner fate (idx + 1) rest := by simp [winner, failed]
  refine ⟨?_, ?_, ?_, ?_⟩
  · rw [h.trace, shown, visits, visits, more, List.flatMap_cons, List.append_assoc]
  · rw [h.index, more, List.length_cons]
    omega
  · rw [same]
    exact h.won
  · rw [same]
    exact h.lost

/-- A candidate that answers ends the search. -/
theorem settled_won {endpoint : Endpoint} {x y : Exec} {fd : Nat} (answers : (fate idx).socket = some fd)
    (shown : y.trace = x.trace ++ (fate idx).visit endpoint) (index : y.conn.endpointIdx = idx + 1)
    (state : y.conn.state = .sendingUpstream) (want : y.conn.want = .writeUpstream)
    (socket : y.conn.upstream = some fd) : Settled fate idx (endpoint :: rest) x y := by
  have last : tried fate idx (endpoint :: rest) = [(endpoint, idx)] := by simp [tried, answers]
  have first : winner fate idx (endpoint :: rest) = some fd := by simp [winner, answers]
  refine ⟨?_, ?_, ?_, ?_⟩
  · rw [shown, visits, last]
    simp
  · rw [index, last]
    rfl
  · rw [first]
    rintro fd' ⟨⟩
    exact ⟨state, want, socket⟩
  · rw [first]
    nofun

theorem connectPhase_connecting {n : Nat} {x : Exec} (connecting : x.conn.state = .connecting)
    (index : x.conn.endpointIdx = idx) :
    connectPhase fate (n + 1) x = connectPhase fate n (finishConnect (worldOf fate idx) x) := by
  rw [connectPhase, if_pos connecting, index]

/-- A failed connect in progress goes back to the loop, its socket closed. -/
theorem finishConnect_fails {x : Exec} (failed : a.connectOk = false) :
    finishConnect a x = connectLoop a (x.conn.endpoints.drop x.conn.endpointIdx)
      ⟨{ x.conn with upstream := none }, x.cache, x.trace ++ closing x.conn.upstream⟩ := by
  simp [finishConnect, failed, resetUpstream, beginConnect]

theorem finishConnect_succeeds {x : Exec} (answered : a.connectOk = true) :
    finishConnect a x = ⟨{ x.conn with state := .sendingUpstream, want := .writeUpstream, epoch := x.conn.epoch + 1 },
      x.cache, x.trace ++ [.connected x.conn.upstream]⟩ := by
  simp [finishConnect, answered, Connection.setWant]

/-- The loop stops at a candidate that does not fail at once. -/
theorem connectLoop_inProgress {x : Exec} {fd : Nat} (dial : a.dial x.conn.endpointIdx = .inProgress fd)
    (idle : x.conn.upstream = none) (endpoint : Endpoint) :
    connectLoop a (endpoint :: rest) x = ⟨x.conn.dialled .connecting fd (x.conn.endpointIdx + 1), x.cache,
      x.trace ++ [.attempt endpoint, .opened fd]⟩ := by
  simp [connectLoop, dial, startConnect, idle, closing, Connection.setWant, Connection.dialled]

theorem connectLoop_connected {x : Exec} {fd : Nat} (dial : a.dial x.conn.endpointIdx = .connected fd)
    (idle : x.conn.upstream = none) (endpoint : Endpoint) :
    connectLoop a (endpoint :: rest) x = ⟨x.conn.dialled .sendingUpstream fd (x.conn.endpointIdx + 1), x.cache,
      x.trace ++ [.attempt endpoint, .opened fd, .connected (some fd)]⟩ := by
  simp [connectLoop, dial, startConnect, idle, closing, Connection.setWant, Connection.dialled]

/-- **The loop and the callback together**, from any point of the list. -/
theorem connectLoop_settles (dial : a.dial = fun i => (fate i).dial) {x : Exec} {n : Nat}
    (rest_eq : x.conn.endpoints.drop idx = rest) (index : x.conn.endpointIdx = idx)
    (idle : x.conn.upstream = none) (enough : rest.length ≤ n) :
    Settled fate idx rest x (connectPhase fate n (connectLoop a rest x)) := by
  induction rest generalizing idx x n a with
  | nil =>
    have failed : connectLoop a [] x = ⟨x.conn.failed badGateway, x.cache, x.trace⟩ := by
      rw [connectLoop, failWith_eq, idle, closing, List.append_nil]
    rw [failed, connectPhase_settled (by simp [Connection.failed])]
    exact ⟨by simp [visits, tried], by simpa [tried, Connection.failed] using index, by simp [winner],
      fun _ => ⟨rfl, rfl, rfl, rfl⟩⟩
  | cons endpoint rest ih =>
    subst index
    have next : x.conn.endpoints.drop (x.conn.endpointIdx + 1) = rest := by
      rw [← List.drop_drop, rest_eq]
      rfl
    obtain ⟨m, rfl⟩ : ∃ m, n = m + 1 := ⟨n - 1, by rw [List.length_cons] at enough; omega⟩
    have later : rest.length ≤ m := by simpa using enough
    have here : a.dial x.conn.endpointIdx = (fate x.conn.endpointIdx).dial := by rw [dial]
    -- a candidate that fails at once only moves the loop on
    have move {events : List Event} (shown : events = (fate x.conn.endpointIdx).visit endpoint)
        (failed : (fate x.conn.endpointIdx).socket = none) :
        Settled fate x.conn.endpointIdx (endpoint :: rest) x (connectPhase fate (m + 1) (connectLoop a rest
          ⟨{ x.conn with endpointIdx := x.conn.endpointIdx + 1 }, x.cache, x.trace ++ events⟩)) := by
      subst shown
      exact Settled.cons failed rfl (ih dial next rfl idle (by omega))
    cases outcome : fate x.conn.endpointIdx with
    | noSocket =>
      rw [connectLoop, here, outcome]
      exact move (by rw [outcome]; rfl) (by rw [outcome]; rfl)
    | noNonblock fd =>
      rw [connectLoop, here, outcome]
      exact move (by rw [outcome]; rfl) (by rw [outcome]; rfl)
    | refused fd =>
      rw [connectLoop, here, outcome]
      exact move (by rw [outcome]; rfl) (by rw [outcome]; rfl)
    | connected fd =>
      rw [outcome] at here
      rw [connectLoop_connected here idle, connectPhase_settled (by simp [Connection.dialled])]
      exact settled_won (by rw [outcome]; rfl) (by rw [outcome]; rfl) rfl rfl rfl rfl
    | succeeds fd =>
      rw [outcome] at here
      have answered : (worldOf fate (x.conn.endpointIdx + 1)).connectOk = true := by
        simp [worldOf, outcome, Fate.socket]
      rw [connectLoop_inProgress here idle, connectPhase_connecting rfl (show _ = x.conn.endpointIdx + 1 from rfl),
        finishConnect_succeeds answered, connectPhase_settled (by simp)]
      exact settled_won (by rw [outcome]; rfl) (by rw [outcome]; simp [Fate.visit, Connection.dialled]) rfl rfl rfl rfl
    | fails fd =>
      rw [outcome] at here
      have failed : (worldOf fate (x.conn.endpointIdx + 1)).connectOk = false := by
        simp [worldOf, outcome, Fate.socket]
      rw [connectLoop_inProgress here idle, connectPhase_connecting rfl (show _ = x.conn.endpointIdx + 1 from rfl),
        finishConnect_fails failed]
      simp only [Connection.dialled, next]
      refine Settled.cons (by rw [outcome]; rfl) ?_ (ih rfl next rfl rfl later)
      rw [outcome]
      simp [Fate.visit, closing]

end Search

/-! ## The walk down the list -/

section Walk
variable {fate : Nat → Fate} {rest : List Endpoint} {i : Nat}

theorem winner_eq_none : winner fate i rest = none ↔ ∀ j < rest.length, (fate (i + j)).socket = none := by
  induction rest generalizing i with
  | nil => simp [winner]
  | cons endpoint rest ih =>
    rw [winner, Option.or_eq_none_iff, ih]
    constructor
    · rintro ⟨here, later⟩ j inside
      cases j with
      | zero => exact here
      | succ j =>
        rw [show i + (j + 1) = i + 1 + j by omega]
        exact later j (by simpa using inside)
    · intro all
      refine ⟨all 0 (by simp), ?_⟩
      intro j inside
      rw [show i + 1 + j = i + (j + 1) by omega]
      exact all (j + 1) (by simpa using inside)

/-- The first that answers wins, and nothing behind it is tried. -/
theorem first_wins {k fd : Nat} (inside : k < rest.length) (answers : (fate (i + k)).socket = some fd)
    (before : ∀ j < k, (fate (i + j)).socket = none) :
    winner fate i rest = some fd ∧ (tried fate i rest).map Prod.fst = rest.take (k + 1) := by
  induction rest generalizing i k with
  | nil => cases inside
  | cons endpoint rest ih =>
    cases k with
    | zero =>
      rw [Nat.add_zero] at answers
      simp [winner, tried, answers]
    | succ k =>
      have here : (fate i).socket = none := before 0 (by omega)
      have later := ih (i := i + 1) (k := k) (by simpa using inside) (by rwa [show i + 1 + k = i + (k + 1) by omega])
        (fun j hj => by
          rw [show i + 1 + j = i + (j + 1) by omega]
          exact before (j + 1) (by omega))
      simp [winner, tried, here, later]

/-- Without one that answers, all are tried. -/
theorem all_tried (lost : winner fate i rest = none) : (tried fate i rest).map Prod.fst = rest := by
  induction rest generalizing i with
  | nil => rfl
  | cons endpoint rest ih =>
    obtain ⟨here, later⟩ := Option.or_eq_none_iff.mp lost
    simp [tried, here, ih later]

/-- What is tried is a front of the list. -/
theorem tried_front (fate : Nat → Fate) (i : Nat) (rest : List Endpoint) :
    (tried fate i rest).map Prod.fst <+: rest := by
  induction rest generalizing i with
  | nil => exact List.prefix_refl _
  | cons endpoint rest ih =>
    rw [tried]
    split
    · exact ⟨rest, rfl⟩
    · exact List.cons_prefix_cons.mpr ⟨rfl, ih (i + 1)⟩

/-- The candidates tried in a history, in order. -/
def attempts (t : List Event) : List Endpoint :=
  t.filterMap fun
    | .attempt endpoint => some endpoint
    | _ => none

theorem attempts_visits (fate : Nat → Fate) (i : Nat) (rest : List Endpoint) :
    attempts (visits fate i rest) = (tried fate i rest).map Prod.fst := by
  rw [visits]
  induction tried fate i rest with
  | nil => rfl
  | cons candidate candidates ih =>
    have one : attempts ((fate candidate.2).visit candidate.1) = [candidate.1] := by
      cases fate candidate.2 <;> rfl
    rw [List.flatMap_cons, attempts, List.filterMap_append, ← attempts, ← attempts, one, ih]
    rfl

/-- A socket is opened only when every one opened before has been closed. -/
def OneAtATime (past : List Event) (e : Event) : Prop :=
  ∀ fd, e = .opened fd → ∀ n, past.count (.opened n) = past.count (.closed n)

theorem opening_one (endpoint : Endpoint) (fd : Nat) {last : Event} (other : ∀ n, last ≠ .opened n) :
    Each OneAtATime [.attempt endpoint, .opened fd, last] := by
  have first : Each OneAtATime [.attempt endpoint] := each_singleton (by simp [OneAtATime])
  have second : Each OneAtATime ([.attempt endpoint] ++ [.opened fd]) := first.concat (by simp [OneAtATime])
  exact second.concat fun n opens => absurd opens (other n)

theorem visit_one (endpoint : Endpoint) (fate : Fate) : Each OneAtATime (fate.visit endpoint) := by
  cases fate with
  | noSocket => exact each_singleton (by simp [OneAtATime])
  | _ => exact opening_one endpoint _ (by simp)

/-- A failed candidate leaves nothing open. -/
theorem visit_balanced {fate : Fate} (failed : fate.socket = none) (endpoint : Endpoint) (n : Nat) :
    (fate.visit endpoint).count (.opened n) = (fate.visit endpoint).count (.closed n) := by
  cases fate with
  | noSocket => rfl
  | connected fd => cases failed
  | succeeds fd => cases failed
  | _ => simp [Fate.visit, List.count_cons]

theorem visits_one (fate : Nat → Fate) (i : Nat) (rest : List Endpoint) : Each OneAtATime (visits fate i rest) := by
  induction rest generalizing i with
  | nil => exact each_of_forall (by simp [visits, tried])
  | cons endpoint rest ih =>
    cases answers : (fate i).socket with
    | some fd =>
      have last : visits fate i (endpoint :: rest) = (fate i).visit endpoint := by simp [visits, tried, answers]
      rw [last]
      exact visit_one endpoint (fate i)
    | none =>
      have more : visits fate i (endpoint :: rest) = (fate i).visit endpoint ++ visits fate (i + 1) rest := by
        simp [visits, tried, answers]
      rw [more]
      apply (visit_one endpoint (fate i)).append
      intro past e later split fd opens n
      have balanced := ih (i + 1) past e later split fd opens n
      rw [List.count_append, List.count_append, visit_balanced answers, balanced]

end Walk

/-! ## The index -/

section Index
variable {a : Answers}

theorem connectLoop_index (rest : List Endpoint) (x : Exec) :
    (connectLoop a rest x).conn.endpoints = x.conn.endpoints ∧
      (connectLoop a rest x).conn.endpointIdx ≤ x.conn.endpointIdx + rest.length := by
  induction rest generalizing x with
  | nil => simp [connectLoop, failWith_eq, Connection.failed]
  | cons endpoint rest ih =>
    rw [connectLoop]
    split
    · refine ⟨(ih _).1, (ih _).2.trans ?_⟩
      simp only [List.length_cons]
      omega
    · simp [Connection.setWant]
    · simp [Connection.setWant]

theorem connectTo_index (a : Answers) (endpoints : List Endpoint) (x : Exec) :
    (connectTo a endpoints x).conn.endpoints = endpoints ∧
      (connectTo a endpoints x).conn.endpointIdx ≤ endpoints.length := by
  obtain ⟨same, bound⟩ := connectLoop_index (a := a) endpoints ⟨x.conn.withEndpoints endpoints, x.cache, x.trace⟩
  exact ⟨same, bound.trans (Nat.zero_add _).le⟩

theorem finishConnect_index {x : Exec} (bound : x.conn.endpointIdx ≤ x.conn.endpoints.length) :
    (finishConnect a x).conn.endpoints = x.conn.endpoints ∧
      (finishConnect a x).conn.endpointIdx ≤ x.conn.endpoints.length := by
  cases answered : a.connectOk with
  | true =>
    rw [finishConnect_succeeds answered]
    exact ⟨rfl, bound⟩
  | false =>
    rw [finishConnect_fails answered]
    refine ⟨(connectLoop_index _ _).1, (connectLoop_index _ _).2.trans ?_⟩
    simp only [List.length_drop]
    omega

theorem connectPhase_index (fate : Nat → Fate) (n : Nat) {x : Exec}
    (bound : x.conn.endpointIdx ≤ x.conn.endpoints.length) :
    (connectPhase fate n x).conn.endpointIdx ≤ x.conn.endpoints.length := by
  induction n generalizing x with
  | zero => exact bound
  | succ n ih =>
    rw [connectPhase]
    split
    · obtain ⟨same, bound'⟩ := finishConnect_index (a := worldOf fate x.conn.endpointIdx) bound
      rw [← same] at bound' ⊢
      exact ih bound'
    · exact bound

end Index

/-- The whole search, from a fresh list. -/
theorem connectTo_settles (fate : Nat → Fate) (endpoints : List Endpoint) {x : Exec} (idle : x.conn.upstream = none) :
    Settled fate 0 endpoints ⟨x.conn.withEndpoints endpoints, x.cache, x.trace⟩
      (connectPhase fate endpoints.length (connectTo (worldOf fate 0) endpoints x)) := by
  have whole : (x.conn.withEndpoints endpoints).endpoints.drop 0 = endpoints := rfl
  exact connectLoop_settles rfl whole rfl idle (le_refl _)

/-- **Ordered address fallback.** For every list of candidates and every fate of
each, started on a connection without an upstream socket:
the candidates are visited one after the other, each visit complete before the
next, down to the first that answers, on whose socket the request is sent; the
answer is 502 exactly when none answers; and at no point is the index past the
end of the list. -/
theorem connect_fallback (fate : Nat → Fate) (endpoints : List Endpoint) (x : Exec)
    (idle : x.conn.upstream = none) :
    let begun := connectTo (worldOf fate 0) endpoints x
    let y := connectPhase fate endpoints.length begun
    (∃ events, y.trace = x.trace ++ events ∧ attempts events <+: endpoints ∧ Each OneAtATime events ∧
      (∀ i fd, i < endpoints.length → (fate i).socket = some fd → (∀ j < i, (fate j).socket = none) →
        attempts events = endpoints.take (i + 1) ∧ y.conn.state = .sendingUpstream ∧ y.conn.upstream = some fd) ∧
      ((∀ i < endpoints.length, (fate i).socket = none) → attempts events = endpoints)) ∧
    (y.conn.state = .failing ∧ y.conn.outClient = badGateway ↔ ∀ i < endpoints.length, (fate i).socket = none) ∧
    (∀ n, (connectPhase fate n begun).conn.endpointIdx ≤ endpoints.length) := by
  intro begun y
  have settled := connectTo_settles fate endpoints idle
  have lost_iff : winner fate 0 endpoints = none ↔ ∀ i < endpoints.length, (fate i).socket = none := by
    simpa using @winner_eq_none fate endpoints 0
  have tried_eq := attempts_visits fate 0 endpoints
  have wins {i fd : Nat} (inside : i < endpoints.length) (answers : (fate i).socket = some fd)
      (before : ∀ j < i, (fate j).socket = none) :
      winner fate 0 endpoints = some fd ∧ attempts (visits fate 0 endpoints) = endpoints.take (i + 1) := by
    rw [tried_eq]
    exact first_wins inside (by simpa using answers) (by simpa using before)
  refine ⟨⟨visits fate 0 endpoints, settled.trace, ?_, visits_one fate 0 endpoints, ?_, ?_⟩, ?_, ?_⟩
  · exact tried_eq ▸ tried_front fate 0 endpoints
  · intro i fd inside answers before
    obtain ⟨won, walked⟩ := wins inside answers before
    obtain ⟨state, -, socket⟩ := settled.won fd won
    exact ⟨walked, state, socket⟩
  · intro lost
    rw [tried_eq]
    exact all_tried (lost_iff.mpr lost)
  · constructor
    · rintro ⟨failing, -⟩
      cases result : winner fate 0 endpoints with
      | none => exact lost_iff.mp result
      | some fd => cases (settled.won fd result).1.symm.trans failing
    · intro lost
      obtain ⟨state, -, response, -⟩ := settled.lost (lost_iff.mpr lost)
      exact ⟨state, response⟩
  · intro n
    obtain ⟨same, bound⟩ := connectTo_index (worldOf fate 0) endpoints x
    have start : begun.conn.endpointIdx ≤ begun.conn.endpoints.length := by rwa [same]
    exact same ▸ connectPhase_index fate n start

/-- Three candidates: one refused at once, one that fails in progress, one that
answers in progress. -/
def mixedFate : Nat → Fate
  | 0 => .refused 6
  | 1 => .fails 7
  | _ => .succeeds 8

theorem connect_fallback_mixed :
    let endpoints : List Endpoint := [⟨[1], 0, 0, 0⟩, ⟨[2], 0, 0, 0⟩, ⟨[3], 0, 0, 0⟩]
    let y := connectPhase mixedFate 3 (connectTo (worldOf mixedFate 0) endpoints ⟨.init 5 0, none, []⟩)
    y.conn.state = .sendingUpstream ∧ y.conn.upstream = some 8 := by
  intro endpoints y
  obtain ⟨⟨events, -, -, -, first, -⟩, -⟩ := connect_fallback mixedFate endpoints ⟨.init 5 0, none, []⟩ rfl
  exact (first 2 8 (by decide) (by decide) (by decide)).2

end EvProxy
