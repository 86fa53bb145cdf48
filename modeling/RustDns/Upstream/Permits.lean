import RustDns.Library.Indexed
import RustDns.Library.Run
import RustDns.Upstream.Resolve

/-! Permits and work of the upstream. A call holds its permit from the moment
it acquires it to its end, takes a bounded number of steps, and sends a
bounded number of queries for its cell. -/
namespace RustDns

namespace Upstream

/-- The call has acquired its permit and not given it back. -/
def Phase.holds : Phase → Bool
  | .queued | .done _ => false
  | .permitted | .granted | .trying _ _ | .awaitUdp _ _ | .connecting _ _ | .awaitTcp _ _ => true

/-- The call has been granted its cell. -/
def Phase.charged : Phase → Bool
  | .queued | .permitted => false
  | .granted | .trying _ _ | .awaitUdp _ _ | .connecting _ _ | .awaitTcp _ _ | .done _ => true

/-- The steps a call may still take when no list has more than `n` servers. -/
def Phase.work (n : Nat) : Phase → Nat
  | .queued => 4 * n + 4
  | .permitted => 4 * n + 3
  | .granted => 4 * n + 2
  | .trying todo _ => 4 * todo.length + 1
  | .awaitUdp _ todo => 4 * todo.length + 4
  | .connecting _ todo => 4 * todo.length + 3
  | .awaitTcp _ todo => 4 * todo.length + 2
  | .done _ => 0

/-- The queries a call may still send on the cell it has been granted: one over
UDP and one over TCP for each server. -/
def Phase.queries (n : Nat) : Phase → Nat
  | .queued | .permitted | .done _ => 0
  | .granted => 2 * n
  | .trying todo _ | .awaitTcp _ todo => 2 * todo.length
  | .awaitUdp _ todo | .connecting _ todo => 2 * todo.length + 1

def State.running (s : State) : Nat := s.calls.countP fun call => call.phase.holds

def State.charged (s : State) : Nat := s.calls.countP fun call => call.phase.charged

def State.work (n : Nat) (s : State) : Nat := (s.calls.map fun call => call.phase.work n).sum

def State.queries (n : Nat) (s : State) : Nat := (s.calls.map fun call => call.phase.queries n).sum

/-- Every list that is installed has at most `n` servers. -/
def Event.ServersLe (n : Nat) : Event → Prop
  | .setServers servers => servers.length ≤ n
  | _ => True

variable {wire : Wire} {policy : TtlPolicy} {now : UnixTime} {s s' : State} {e : Event} {n : Nat}

/-- A call that has ended holds nothing and has nothing to do. -/
theorem Phase.spent {phase : Phase} (hDone : phase.isDone = true) :
    phase.holds = false ∧ phase.work n = 0 ∧ phase.queries n = 0 := by
  cases phase with
  | done result => exact ⟨rfl, rfl, rfl⟩
  | _ => simp [Phase.isDone] at hDone

theorem work_eq_zero {phase : Phase} (hWork : phase.work n = 0) : phase.isDone = true := by
  cases phase with
  | done result => rfl
  | _ => simp [Phase.work] at hWork

/-- The end of an attempt ends the call or leaves the servers after it. -/
theorem settle_cases {query reply : Bytes} {todo : List (SocketAddr × Attempt)} {next : Phase}
    (hSettle : settle wire policy now query reply todo = some next) :
    (∃ value, next = .done (.ok value)) ∨ next = .trying todo .mismatch := by
  unfold settle at hSettle
  split at hSettle
  · obtain ⟨value, -, rfl⟩ := Option.map_eq_some_iff.mp hSettle
    exact Or.inl ⟨value, rfl⟩
  · exact Or.inr (Option.some.inj hSettle).symm

/-- A step through the servers keeps the permit or ends the call, and uses up
work and queries. -/
theorem advance_uses {query : Bytes} {phase next : Phase} {queries : Nat}
    (hStep : advance wire policy now query phase = some (next, queries)) :
    phase.holds = true ∧ (next.isDone = false → next.holds = true) ∧
      phase.charged = next.charged ∧ next.work n < phase.work n ∧ next.queries n + queries ≤ phase.queries n := by
  cases advance_cases hStep with
  | exhausted lastErr =>
      refine ⟨rfl, by simp [Phase.isDone], rfl, ?_, ?_⟩
      · simp [Phase.work]
      · simp [Phase.queries]
  | skip server todo lastErr =>
      refine ⟨rfl, fun _ => rfl, rfl, ?_, ?_⟩
      · simp [Phase.work]
      · simp [Phase.queries]
  | send server reply todo lastErr =>
      refine ⟨rfl, fun _ => rfl, rfl, ?_, ?_⟩
      · simp [Phase.work]
        omega
      · simp [Phase.queries]
        omega
  | timeout todo =>
      refine ⟨rfl, fun _ => rfl, rfl, ?_, ?_⟩
      · simp [Phase.work]
      · simp [Phase.queries]
  | retry tcp todo hTruncated =>
      refine ⟨rfl, fun _ => rfl, rfl, ?_, ?_⟩
      · simp [Phase.work]
      · simp [Phase.queries]
  | datagram tcp hWhole hSettle =>
      rcases settle_cases hSettle with ⟨value, rfl⟩ | rfl
      · exact ⟨rfl, by simp [Phase.isDone], rfl, by simp [Phase.work], by simp [Phase.queries]⟩
      · exact ⟨rfl, fun _ => rfl, rfl, by simp [Phase.work], by simp [Phase.queries]⟩
  | refused todo =>
      refine ⟨rfl, fun _ => rfl, rfl, ?_, ?_⟩
      · simp [Phase.work]
      · simp [Phase.queries]
  | connect stream todo =>
      refine ⟨rfl, fun _ => rfl, rfl, ?_, ?_⟩
      · simp [Phase.work]
      · simp [Phase.queries]
  | broken todo hFrame =>
      refine ⟨rfl, fun _ => rfl, rfl, ?_, ?_⟩
      · simp [Phase.work]
      · simp [Phase.queries]
  | frame hFrame hSettle =>
      rcases settle_cases hSettle with ⟨value, rfl⟩ | rfl
      · exact ⟨rfl, by simp [Phase.isDone], rfl, by simp [Phase.work], by simp [Phase.queries]⟩
      · exact ⟨rfl, fun _ => rfl, rfl, by simp [Phase.work], by simp [Phase.queries]⟩

/-- A call begins with no servers, or with all of them to try. -/
theorem begin_cases {servers : List SocketAddr} {script : List Attempt} {phase : Phase}
    (hBegin : begin servers script = some phase) :
    (servers = [] ∧ phase = .done (.error .noServers)) ∨
      (servers ≠ [] ∧ script.length = servers.length ∧
        phase = .trying (servers.zip script) .unreachable) := by
  unfold begin at hBegin
  split at hBegin
  case isTrue hEmpty => exact Or.inl ⟨hEmpty, (Option.some.inj hBegin).symm⟩
  case isFalse hServers =>
    split at hBegin
    case isTrue hLength => exact Or.inr ⟨hServers, hLength, (Option.some.inj hBegin).symm⟩
    case isFalse => simp at hBegin

/-- A call that begins spends its cell and holds its permit until it is done. -/
theorem begin_uses {servers : List SocketAddr} {script : List Attempt} {phase : Phase}
    (hBegin : begin servers script = some phase) (hServers : servers.length ≤ n) :
    (phase.isDone = false → phase.holds = true) ∧ phase.charged = true ∧
      phase.work n < Phase.granted.work n ∧ phase.queries n ≤ Phase.granted.queries n := by
  rcases begin_cases hBegin with ⟨-, rfl⟩ | ⟨-, hLength, rfl⟩
  · exact ⟨by simp [Phase.isDone], rfl, by simp [Phase.work], by simp [Phase.queries]⟩
  · have hZip : (servers.zip script).length ≤ n := by
      rw [List.length_zip, hLength, Nat.min_self]
      exact hServers
    refine ⟨fun _ => rfl, rfl, ?_, ?_⟩
    · simp only [Phase.work]
      omega
    · simp only [Phase.queries]
      omega

/-- A call that holds a permit goes on holding it or gives it back. -/
theorem permits_setPhase {i : Nat} {call : Call} {phase : Phase} (hHeld : call.phase.holds = true)
    (hHolds : phase.isDone = false → phase.holds = true) :
    (setPhase s i call phase).permits + phase.holds.toNat = s.permits + call.phase.holds.toNat := by
  cases hDone : phase.isDone with
  | true => simp [setPhase, hDone, (Phase.spent (n := 0) hDone).1, hHeld]
  | false => simp [setPhase, hDone, hHolds hDone, hHeld]

/-- One call moves on, which uses up work and queries. -/
structure Moves (n : Nat) (s s' : State) (i : Nat) (call : Call) (phase : Phase) : Prop where
  found : s.calls[i]? = some call
  calls : s'.calls = s.calls.set i ⟨call.query, phase⟩
  servers : s'.servers = s.servers
  permits : s'.permits + phase.holds.toNat = s.permits + call.phase.holds.toNat
  cells : s'.cells + call.phase.charged.toNat = s.cells + phase.charged.toNat
  work : phase.work n < call.phase.work n
  queries : s'.sent + phase.queries n + 2 * n * s.cells ≤
    s.sent + call.phase.queries n + 2 * n * s'.cells

/-- An event about a call moves that call on. -/
theorem moves_of_step {i : Nat} (hStep : step wire policy now s e = some s')
    (hCall : e.call? = some i) (hServers : s.servers.length ≤ n) :
    ∃ call phase, Moves n s s' i call phase := by
  cases e with
  | setServers _ | resolve _ => simp [Event.call?] at hCall
  | acquire j =>
      obtain rfl := Option.some.inj hCall
      simp only [step] at hStep
      split at hStep <;> [skip; simp at hStep]
      rename_i query hQueued
      split at hStep <;> [simp at hStep; skip]
      rename_i hFree
      obtain rfl := Option.some.inj hStep
      refine ⟨_, .permitted, hQueued, rfl, rfl, ?_, rfl, by simp [Phase.work], by simp [Phase.queries, setPhase]⟩
      simp [setPhase, Phase.isDone, Phase.holds]
      omega
  | untilReady j =>
      obtain rfl := Option.some.inj hCall
      cases step_cases hStep with
      | untilReady hPermitted =>
          refine ⟨_, .granted, hPermitted, rfl, rfl, rfl, rfl, by simp [Phase.work], ?_⟩
          simp only [Phase.queries, setPhase, Nat.mul_add]
          omega
  | load j script =>
      obtain rfl := Option.some.inj hCall
      cases step_cases hStep with
      | @load _ query _ phase hGranted hBegin =>
          obtain ⟨hHolds, hCharged, hWork, hQueries⟩ := begin_uses hBegin hServers
          exact ⟨_, phase, hGranted, rfl, rfl, permits_setPhase rfl hHolds, by rw [hCharged]; rfl,
            hWork, by simpa [setPhase] using hQueries⟩
  | progress j =>
      obtain rfl := Option.some.inj hCall
      cases step_cases hStep with
      | @progress _ call phase queries hAt hAdvance =>
          obtain ⟨hHeld, hHolds, hCharged, hWork, hQueries⟩ := advance_uses (n := n) hAdvance
          refine ⟨call, phase, hAt, rfl, rfl, permits_setPhase hHeld hHolds, by rw [hCharged]; rfl,
            hWork, ?_⟩
          simp only [setPhase]
          omega

/-- The permits of the semaphore are free or held by a call. -/
def State.Capped (s : State) (permits : Nat) : Prop := s.permits + s.running = permits

/-- A call that moves on creates and loses no permit. -/
theorem Moves.capped {i permits : Nat} {call : Call} {phase : Phase}
    (hMoves : Moves n s s' i call phase) (hCapped : s.Capped permits) : s'.Capped permits := by
  have hCount := Indexed.countP_set_add (fun call : Call => call.phase.holds) ⟨call.query, phase⟩
    hMoves.found
  have hPermits := hMoves.permits
  simp only [State.Capped, State.running] at hCapped ⊢
  rw [hMoves.calls]
  dsimp only at hCount
  omega

/-- A call that moves on takes work off. -/
theorem Moves.work_lt {i : Nat} {call : Call} {phase : Phase} (hMoves : Moves n s s' i call phase) :
    s'.work n < s.work n := by
  have hSum := Indexed.sum_map_set (fun call : Call => call.phase.work n) ⟨call.query, phase⟩
    hMoves.found
  have hWork := hMoves.work
  simp only [State.work]
  rw [hMoves.calls]
  dsimp only at hSum
  omega

/-- The queries sent and still to come are covered by the cells, `2 n` for each,
and each call has been granted one cell at most. -/
structure State.Budgeted (s : State) (n : Nat) : Prop where
  servers : s.servers.length ≤ n
  sent : s.sent + s.queries n ≤ 2 * n * s.cells
  cells : s.cells = s.charged

/-- A call that moves on sends no more than was to come. -/
theorem Moves.budgeted {i : Nat} {call : Call} {phase : Phase} (hMoves : Moves n s s' i call phase)
    (hBudgeted : s.Budgeted n) : s'.Budgeted n where
  servers := by
    rw [hMoves.servers]
    exact hBudgeted.servers
  sent := by
    have hSum := Indexed.sum_map_set (fun call : Call => call.phase.queries n) ⟨call.query, phase⟩
      hMoves.found
    have hQueries := hMoves.queries
    have hSent := hBudgeted.sent
    simp only [State.queries] at hSent ⊢
    rw [hMoves.calls]
    dsimp only at hSum
    omega
  cells := by
    have hCount := Indexed.countP_set_add (fun call : Call => call.phase.charged)
      ⟨call.query, phase⟩ hMoves.found
    have hMoved := hMoves.cells
    have hCells := hBudgeted.cells
    simp only [State.charged] at hCells ⊢
    rw [hMoves.calls]
    dsimp only at hCount
    omega

/-- A call that is only queued costs nothing. -/
theorem State.Budgeted.queue (hBudgeted : s.Budgeted n) (query : Bytes) :
    State.Budgeted { s with calls := s.calls ++ [⟨query, .queued⟩] } n where
  servers := hBudgeted.servers
  sent := by simpa [State.queries, Phase.queries] using hBudgeted.sent
  cells := by simpa [State.charged, Phase.charged] using hBudgeted.cells

/-- The call an event moves on, or what else the event does. -/
theorem event_cases (e : Event) :
    (∃ i, e.call? = some i) ∨ (∃ servers, e = .setServers servers) ∨ ∃ query, e = .resolve query := by
  cases e with
  | setServers servers => exact Or.inr (Or.inl ⟨servers, rfl⟩)
  | resolve query => exact Or.inr (Or.inr ⟨query, rfl⟩)
  | acquire i | untilReady i | load i _ | progress i => exact Or.inl ⟨i, rfl⟩

/-- A step creates and loses no permit. -/
theorem capped_step {permits : Nat} (hCapped : s.Capped permits)
    (hStep : step wire policy now s e = some s') : s'.Capped permits := by
  rcases event_cases e with ⟨i, hCall⟩ | ⟨servers, rfl⟩ | ⟨query, rfl⟩
  · obtain ⟨call, phase, hMoves⟩ := moves_of_step hStep hCall (Nat.le_refl _)
    exact hMoves.capped hCapped
  · obtain rfl := Option.some.inj hStep
    exact hCapped
  · obtain rfl := Option.some.inj hStep
    simpa [State.Capped, State.running, Phase.holds] using hCapped

/-- A step keeps the queries sent and to come within what the cells allow. -/
theorem budgeted_step (hBudgeted : s.Budgeted n) (hServers : e.ServersLe n)
    (hStep : step wire policy now s e = some s') : s'.Budgeted n := by
  rcases event_cases e with ⟨i, hCall⟩ | ⟨servers, rfl⟩ | ⟨query, rfl⟩
  · obtain ⟨call, phase, hMoves⟩ := moves_of_step hStep hCall hBudgeted.servers
    exact hMoves.budgeted hBudgeted
  · obtain rfl := Option.some.inj hStep
    exact ⟨hServers, hBudgeted.sent, hBudgeted.cells⟩
  · obtain rfl := Option.some.inj hStep
    exact hBudgeted.queue query

/-! A call that has not ended can go on, or waits for a permit that another
call holds. -/

/-- A reply can always be settled when the lifetimes can be clamped. -/
theorem exists_settle (wire : Wire) (now : UnixTime) (query reply : Bytes)
    (todo : List (SocketAddr × Attempt)) (hTtl : policy.minTtl ≤ policy.maxTtl) :
    ∃ next, settle wire policy now query reply todo = some next := by
  unfold settle
  split
  · have hSome : (effectiveTtl wire policy reply).isSome := (clamp_isSome _ _ _).mpr hTtl
    obtain ⟨ttl, hEffective⟩ := Option.isSome_iff_exists.mp hSome
    exact ⟨_, by rw [toCached, hEffective]; rfl⟩
  · exact ⟨_, rfl⟩

/-- A call can always begin. -/
theorem exists_begin (servers : List SocketAddr) :
    ∃ script phase, begin servers script = some phase := by
  by_cases hServers : servers = []
  · exact ⟨[], _, if_pos hServers⟩
  · have hLength : (servers.map fun _ => Attempt.unsent).length = servers.length := List.length_map _
    exact ⟨_, _, (if_neg hServers).trans (if_pos hLength)⟩

/-- A call that has its servers can always go on. -/
theorem exists_advance (wire : Wire) (now : UnixTime) (query : Bytes) {phase : Phase} (hTtl : policy.minTtl ≤ policy.maxTtl)
    (hHolds : phase.holds = true) (hPermitted : phase ≠ .permitted) (hGranted : phase ≠ .granted) :
    ∃ next, advance wire policy now query phase = some next := by
  cases phase with
  | queued | done _ => simp [Phase.holds] at hHolds
  | permitted => exact absurd rfl hPermitted
  | granted => exact absurd rfl hGranted
  | trying todo lastErr =>
      cases todo with
      | nil => exact ⟨_, rfl⟩
      | cons p rest =>
          obtain ⟨server, attempt⟩ := p
          cases attempt with
          | unsent => exact ⟨_, rfl⟩
          | sent reply => exact ⟨_, rfl⟩
  | awaitUdp reply todo =>
      cases reply with
      | none => exact ⟨_, rfl⟩
      | some pair =>
          obtain ⟨datagram, tcp⟩ := pair
          obtain ⟨next, hSettle⟩ := exists_settle wire now query (receive datagram) todo hTtl
          by_cases hTruncated : truncated (receive datagram) = true
          · exact ⟨_, by rw [advance, if_pos hTruncated]⟩
          · exact ⟨_, by rw [advance, if_neg hTruncated, hSettle]; rfl⟩
  | connecting tcp todo =>
      cases tcp with
      | unsent => exact ⟨_, rfl⟩
      | sent stream => exact ⟨_, rfl⟩
  | awaitTcp stream todo =>
      cases hFrame : readFrame stream with
      | none => exact ⟨_, by simp only [advance, hFrame]; rfl⟩
      | some reply =>
          obtain ⟨next, hSettle⟩ := exists_settle wire now query reply todo hTtl
          exact ⟨_, by simp only [advance, hFrame, hSettle]; rfl⟩

/-- A call with a permit can take a step. -/
theorem exists_step_of_holds (wire : Wire) (now : UnixTime) {i : Nat} {call : Call} (hTtl : policy.minTtl ≤ policy.maxTtl)
    (hCall : s.calls[i]? = some call) (hHolds : call.phase.holds = true) :
    ∃ e s', e.call? = some i ∧ step wire policy now s e = some s' := by
  obtain ⟨query, phase⟩ := call
  by_cases hPermitted : phase = .permitted
  · subst hPermitted
    exact ⟨.untilReady i, _, rfl, by simp only [step, hCall]; rfl⟩
  by_cases hGranted : phase = .granted
  · subst hGranted
    obtain ⟨script, next, hBegin⟩ := exists_begin s.servers
    exact ⟨.load i script, _, rfl, by simp only [step, hCall, hBegin]; rfl⟩
  obtain ⟨next, hAdvance⟩ := exists_advance wire now query hTtl hHolds hPermitted hGranted
  exact ⟨.progress i, _, rfl, by simp only [step, hCall, hAdvance]; rfl⟩

/-- As long as a call has not ended, some call can take a step. -/
theorem exists_step (wire : Wire) (now : UnixTime) {permits i : Nat} {call : Call} (hTtl : policy.minTtl ≤ policy.maxTtl)
    (hPermits : 0 < permits) (hCapped : s.Capped permits) (hCall : s.calls[i]? = some call)
    (hOpen : call.phase.isDone = false) :
    ∃ e s' j, e.call? = some j ∧ step wire policy now s e = some s' := by
  by_cases hHolds : call.phase.holds = true
  · obtain ⟨e, s', hEvent, hStep⟩ := exists_step_of_holds wire now hTtl hCall hHolds
    exact ⟨e, s', i, hEvent, hStep⟩
  obtain ⟨query, phase⟩ := call
  have hQueued : phase = .queued := by
    cases phase <;> first | rfl | exact absurd rfl hHolds | exact absurd hOpen (by simp [Phase.isDone])
  subst hQueued
  by_cases hFree : s.permits = 0
  · -- every permit is held, and whoever holds one can go on
    have hRunning : 0 < s.calls.countP fun call => call.phase.holds := by
      have hAll : s.permits + s.running = permits := hCapped
      rw [State.running] at hAll
      omega
    obtain ⟨holder, hMem, hHolder⟩ := List.countP_pos_iff.mp hRunning
    obtain ⟨j, hAt⟩ := List.mem_iff_getElem?.mp hMem
    obtain ⟨e, s', hEvent, hStep⟩ := exists_step_of_holds wire now hTtl hAt hHolder
    exact ⟨e, s', j, hEvent, hStep⟩
  · exact ⟨.acquire i, _, i, rfl, by simp only [step, hCall, if_neg hFree]; rfl⟩

end Upstream

end RustDns
