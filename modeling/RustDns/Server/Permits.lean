import RustDns.Server.Accounting
import RustDns.Server.SingleFlight
import RustDns.Upstream.Permits

/-! Permits over whole runs, restarts included: those of the upstream semaphore,
those of the handlers, and the flights that hold the former on behalf of the
latter. -/
namespace RustDns

namespace Server

variable {env : Env}

/-- The configuration the running process was started with. -/
def bootConfig (cfg : Config) (es : List Event) : Config :=
  es.foldl
    (fun last e =>
      match e with
      | .restart cfg _ _ => cfg
      | _ => last)
    cfg

/-- What has happened since the running process was started. -/
def sinceBoot (es : List Event) : List Event :=
  es.foldl (fun past e => if e.restarts then [] else past ++ [e]) []

/-- The permits, counters and settings of a process against the configuration
it was started with. -/
structure Provided (cfg : Config) (past : List Event) (s : State env) : Prop where
  accounts : Accounts (max cfg.dns.maxInflight.toNat 1) past s
  capped : s.upstream.Capped (max cfg.upstream.maxConcurrent.toNat 1)
  policy : s.policy = cfg.cache.policy

/-- The process that runs after these events is provided for. -/
def ProvidedAfter (cfg : Config) (past : List Event) (s : State env) : Prop :=
  Provided (bootConfig cfg past) (sinceBoot past) s

/-- The handler that started a flight waits for it until its call has ended. -/
def Led (s : State env) : Prop :=
  ∀ (i : Nat) (fl : Flight env) (call : Upstream.Call), s.flights[i]? = some fl →
    s.upstream.calls[i]? = some call → call.phase.isDone = false →
      ∃ hd r, s.handlers[fl.leader]? = some hd ∧ hd.phase = .waiting r i

/-- The calls of `resolve` that have not returned. -/
def State.openCalls (s : State env) : Nat := s.upstream.calls.countP fun call => !call.phase.isDone

/-- The handlers that hold a permit. -/
def State.held (s : State env) : Nat := s.handlers.countP fun hd => !hd.released

variable {s s' : State env} {e : Event} {cfg : Config} {past : List Event}

/-- The configuration of the last start changes with a restart only. -/
theorem bootConfig_concat (cfg : Config) (es : List Event) (e : Event) :
    bootConfig cfg (es ++ [e]) =
      match e with
      | .restart cfg _ _ => cfg
      | _ => bootConfig cfg es := by
  rw [bootConfig, List.foldl_append]
  rfl

/-- The events of this life start anew with a restart. -/
theorem sinceBoot_concat (es : List Event) (e : Event) :
    sinceBoot (es ++ [e]) = if e.restarts then [] else sinceBoot es ++ [e] := by
  rw [sinceBoot, List.foldl_append]
  rfl

/-- Other events than a restart leave the configuration of the last start. -/
theorem bootConfig_of_alive (es : List Event) (hAlive : e.restarts = false) :
    bootConfig cfg (es ++ [e]) = bootConfig cfg es := by
  rw [bootConfig_concat]
  cases e with
  | restart cfg list loaded => exact absurd hAlive (by simp [Event.restarts])
  | _ => rfl

/-- Other events than a restart are added to this life. -/
theorem sinceBoot_of_alive (es : List Event) (hAlive : e.restarts = false) :
    sinceBoot (es ++ [e]) = sinceBoot es ++ [e] := by
  rw [sinceBoot_concat, hAlive]
  rfl

/-- The resolver starts with the permits and the limiter of its configuration.
-/
theorem provided_boot (cache : Cache.State) (cfg : Config) (list : Blocklist)
    (origins : List (Request env.wire)) : Provided cfg [] (boot cache cfg list origins) where
  accounts := accounts_boot cache cfg list origins
  capped := by simp [Upstream.State.Capped, Upstream.State.running, boot, Upstream.new]
  policy := rfl

/-- Storing the fill of a flight does not touch the resolver. -/
theorem land_upstream (s : State env) (i : Nat) :
    (land s i).upstream = s.upstream ∧ (land s i).policy = s.policy := by
  unfold land
  split <;> exact ⟨rfl, rfl⟩

/-- A step of the upstream in the server. -/
theorem forward_upstream {e : Upstream.Event} (hForward : forward s e = some s') :
    Upstream.step env.wire s.policy s.cache.clock s.upstream e = some s'.upstream ∧
      (∀ query, e ≠ .resolve query) ∧ s'.policy = s.policy := by
  obtain ⟨upstream, hStep, hStarted, ⟨rfl, -⟩ | ⟨i, -, rfl⟩⟩ := forward_step hForward
  · exact ⟨hStep, hStarted, rfl⟩
  · obtain ⟨hUpstream, hPolicy⟩ := land_upstream { s with upstream := upstream } i
    exact ⟨by rw [hUpstream]; exact hStep, hStarted, hPolicy⟩

/-- What a step of a living process does to the flights and the upstream:
nothing, it is a `try_get_with`, or it is a step of the upstream. -/
theorem flights_of_step (hAlive : e.restarts = false) (hStep : step s e = some s') :
    s'.policy = s.policy ∧
      ((s'.flights = s.flights ∧ s'.upstream = s.upstream) ∨
        (∃ h hd r, s.handlers[h]? = some hd ∧ hd.phase = .missed r ∧ s' = join s h hd r) ∨
        ∃ e', e = .upstream e' ∧ forward s e' = some s') := by
  cases step_cases hStep with
  | arrive data =>
      unfold arrive
      split <;> exact ⟨rfl, Or.inl ⟨rfl, rfl⟩⟩
  | parse _ _ =>
      unfold parse
      split <;> exact ⟨rfl, Or.inl ⟨rfl, rfl⟩⟩
  | check _ _ =>
      unfold check
      split <;> exact ⟨rfl, Or.inl ⟨rfl, rfl⟩⟩
  | lookup _ _ =>
      unfold lookup
      split <;> exact ⟨rfl, Or.inl ⟨rfl, rfl⟩⟩
  | @join h hd r hHandler hPhase =>
      refine ⟨?_, Or.inr (Or.inl ⟨h, hd, r, hHandler, hPhase, rfl⟩)⟩
      unfold join
      split
      · rfl
      · split <;> rfl
  | deliver _ _ hDeliver =>
      rcases deliver_cases hDeliver with ⟨_, _, _, -, -, rfl⟩ | rfl <;>
        exact ⟨rfl, Or.inl ⟨rfl, rfl⟩⟩
  | finish _ hFinish =>
      obtain rfl := finish_cases hFinish
      exact ⟨rfl, Or.inl ⟨rfl, rfl⟩⟩
  | upstream hForward => exact ⟨(forward_upstream hForward).2.2, Or.inr (Or.inr ⟨_, rfl, hForward⟩)⟩
  | cache hBackground =>
      obtain ⟨cache, -, rfl, -⟩ := background_cases hBackground
      exact ⟨rfl, Or.inl ⟨rfl, rfl⟩⟩
  | setBlocklist list => exact ⟨rfl, Or.inl ⟨rfl, rfl⟩⟩
  | setConfig cfg => exact ⟨rfl, Or.inl ⟨rfl, rfl⟩⟩
  | restart cfg list loaded => simp [Event.restarts] at hAlive

/-- `try_get_with` leaves the flights alone, or it starts one with the handler as
its leader. -/
theorem join_cases (h : Nat) (hd : Handler env) (r : Request env.wire) :
    ((join s h hd r).flights = s.flights ∧ (join s h hd r).upstream = s.upstream) ∨
      ((join s h hd r).flights = s.flights ++ [⟨r, h, none⟩] ∧
        (join s h hd r).upstream =
          { s.upstream with calls := s.upstream.calls ++ [⟨r.data, .queued⟩] } ∧
        (join s h hd r).handlers =
          s.handlers.set h { hd with phase := .waiting r s.flights.length }) := by
  unfold join
  split
  · exact Or.inl ⟨rfl, rfl⟩
  · split
    · exact Or.inl ⟨rfl, rfl⟩
    · exact Or.inr ⟨rfl, rfl, rfl⟩

/-- A step creates and loses no permit of the resolver. -/
theorem capped_of_step {permits : Nat} (hCapped : s.upstream.Capped permits)
    (hAlive : e.restarts = false) (hStep : step s e = some s') : s'.upstream.Capped permits := by
  rcases (flights_of_step hAlive hStep).2 with ⟨-, hSame⟩ | ⟨h, hd, r, -, -, rfl⟩ | ⟨e', -, hForward⟩
  · rw [hSame]
    exact hCapped
  · rcases join_cases h hd r with ⟨-, hSame⟩ | ⟨-, hQueued, -⟩
    · rw [hSame]
      exact hCapped
    · rw [hQueued]
      simpa [Upstream.State.Capped, Upstream.State.running, Upstream.Phase.holds] using hCapped
  · exact Upstream.capped_step hCapped (forward_upstream hForward).1

/-- A step leaves the permits and the limiter provided, or a restart provides
them anew. -/
theorem provided_step (hProvided : ProvidedAfter cfg past s) (hStep : step s e = some s') :
    ProvidedAfter cfg (past ++ [e]) s' := by
  unfold ProvidedAfter at hProvided ⊢
  by_cases hAlive : e.restarts = false
  · rw [bootConfig_of_alive past hAlive, sinceBoot_of_alive past hAlive]
    exact
      { accounts := accounts_step hProvided.accounts hAlive hStep
        capped := capped_of_step hProvided.capped hAlive hStep
        policy := (flights_of_step hAlive hStep).1.trans hProvided.policy }
  · cases e <;> first | exact absurd rfl hAlive | skip
    obtain rfl := Option.some.inj hStep
    rw [bootConfig_concat, sinceBoot_concat]
    exact provided_boot _ _ _ _

/-- In every run the resolver has the permits and the limiter of the
configuration it was started with. -/
theorem provided_run {now : UnixTime} {cfg : Config} {list : Blocklist} {es : List Event}
    (hRun : Machine.run step (init now cfg list) es = some s) :
    Provided (bootConfig cfg es) (sinceBoot es) s := by
  have hEnd : ProvidedAfter cfg ([] ++ es) s :=
    Machine.run_invariant_past (fun _ _ _ _ hProvided (_ : True) => provided_step hProvided)
      (provided_boot _ cfg list []) (Machine.along_of_mem (fun _ _ _ => trivial) _) hRun
  exact hEnd

/-! Every open call has a handler behind it. -/

/-- What is delivered has ended. -/
theorem done_of_deliver {h : Nat} {hd : Handler env} {r : Request env.wire} {i : Nat}
    (hDeliver : deliver s h hd r i = some s') :
    ∃ call, s.upstream.calls[i]? = some call ∧ call.phase.isDone = true := by
  unfold deliver at hDeliver
  split at hDeliver
  · exact ⟨_, ‹_›, rfl⟩
  · exact ⟨_, ‹_›, rfl⟩
  · simp at hDeliver

/-- A leader goes on waiting as long as its call is open. -/
theorem leader_stays {h i : Nat} {hd : Handler env} {r : Request env.wire} {call : Upstream.Call}
    (hSound : Sound s) (hAlive : e.restarts = false) (hHandler : s.handlers[h]? = some hd)
    (hPhase : hd.phase = .waiting r i) (hCall : s.upstream.calls[i]? = some call)
    (hOpen : call.phase.isDone = false) (hStep : step s e = some s') :
    ∃ hd' r, s'.handlers[h]? = some hd' ∧ hd'.phase = .waiting r i := by
  have hJoined : hd.phase.joined = true := by rw [hPhase]; rfl
  rcases phase_of_step hSound hAlive hHandler hJoined hStep with
    ⟨hd', hGet, hSame⟩ | ⟨r', j, hWaiting, hDeliver⟩
  · exact ⟨hd', r, hGet, hSame.trans hPhase⟩
  · obtain ⟨-, rfl⟩ := Phase.waiting.inj (hPhase.symm.trans hWaiting)
    obtain ⟨call', hCall', hDone⟩ := done_of_deliver hDeliver
    obtain rfl := Option.some.inj (hCall.symm.trans hCall')
    rw [hOpen] at hDone
    exact absurd hDone (by decide)

/-- A step leaves every call open for the handlers that wait on it. -/
theorem led_step (hSound : Sound s) (hLed : Led s) (hStep : step s e = some s') : Led s' := by
  by_cases hAlive : e.restarts = false
  swap
  · cases e <;> first | exact absurd rfl hAlive | skip
    obtain rfl := Option.some.inj hStep
    intro i fl call hFlight
    simp [boot] at hFlight
  intro i fl call hFlight hCall hOpen
  have hLength := hSound.flights.length_eq
  -- a call that was open before the step keeps its leader
  have hOld : ∀ (fl : Flight env) (call : Upstream.Call), s.flights[i]? = some fl →
      s.upstream.calls[i]? = some call → call.phase.isDone = false →
        ∃ hd r, s'.handlers[fl.leader]? = some hd ∧ hd.phase = .waiting r i := by
    intro fl call hFlight hCall hOpen
    obtain ⟨hd, r, hLeader, hWaiting⟩ := hLed i fl call hFlight hCall hOpen
    exact leader_stays hSound hAlive hLeader hWaiting hCall hOpen hStep
  rcases (flights_of_step hAlive hStep).2 with
    ⟨hFlights, hUpstream⟩ | ⟨h, hd, r, hHandler, hPhase, rfl⟩ | ⟨e', -, hForward⟩
  · rw [hFlights] at hFlight
    rw [hUpstream] at hCall
    exact hOld fl call hFlight hCall hOpen
  · rcases join_cases h hd r with ⟨hFlights, hUpstream⟩ | ⟨hFlights, hUpstream, hHandlers⟩
    · rw [hFlights] at hFlight
      rw [hUpstream] at hCall
      exact hOld fl call hFlight hCall hOpen
    · rw [hFlights] at hFlight
      rw [hUpstream] at hCall
      by_cases hIndex : i < s.flights.length
      · rw [List.getElem?_append_left hIndex] at hFlight
        rw [List.getElem?_append_left (by omega)] at hCall
        exact hOld fl call hFlight hCall hOpen
      · obtain ⟨hBound, -⟩ := List.getElem?_eq_some_iff.mp hFlight
        obtain ⟨hLt, -⟩ := List.getElem?_eq_some_iff.mp hHandler
        obtain rfl : i = s.flights.length := by simp at hBound; omega
        obtain rfl : _ = fl := by simpa using hFlight
        exact ⟨_, r, by rw [hHandlers, List.getElem?_set_self hLt], rfl⟩
  · obtain ⟨upstream, -, hCases⟩ := forward_cases hLength hForward
    rcases hCases with ⟨rfl, hSame | ⟨j, old, phase, hAt, hOpenOld, hSet, -⟩⟩ |
      ⟨j, old, value, fl', -, hAt, hAtCall, -, hSet, -, -, -, rfl⟩
    · rw [hSame] at hCall
      exact hOld fl call hFlight hCall hOpen
    · rw [hSet] at hCall
      rcases Indexed.getElem?_set_cases hCall with ⟨rfl, -⟩ | ⟨-, hKept⟩
      · exact hOld fl old hFlight hAt hOpenOld
      · exact hOld fl call hFlight hKept hOpen
    · -- the call that lands has ended
      simp only at hFlight hCall
      rw [hSet] at hCall
      rcases Indexed.getElem?_set_cases hCall with ⟨-, rfl⟩ | ⟨hIndex, hKept⟩
      · exact absurd hOpen (by simp [Upstream.Phase.isDone])
      · rw [List.getElem?_set_ne (Ne.symm hIndex)] at hFlight
        exact hOld fl call hFlight hKept hOpen

/-- In every run each open call is that of a flight with a handler waiting. -/
theorem led_run {now : UnixTime} {cfg : Config} {list : Blocklist} {es : List Event}
    (hRun : Machine.run step (init now cfg list) es = some s) : Sound s ∧ Led s := by
  have hStart : Led (init now cfg list : State env) := by
    intro i fl call hFlight
    simp [init, boot] at hFlight
  have hKeep : ∀ (s : State env) (e : Event) (s' : State env), Sound s ∧ Led s →
      step s e = some s' → Sound s' ∧ Led s' := by
    intro s e s' hInv hStep
    exact ⟨sound_step hInv.1 hStep, led_step hInv.1 hInv.2 hStep⟩
  exact Machine.run_invariant hKeep ⟨sound_init now cfg list, hStart⟩ hRun

/-- Whoever waits holds its permit. -/
theorem held_of_waiting {h i : Nat} {hd : Handler env} {r : Request env.wire}
    (hSettled : Settled s) (hHandler : s.handlers[h]? = some hd) (hPhase : hd.phase = .waiting r i) :
    hd.released = false := by
  cases hReleased : hd.released with
  | false => rfl
  | true =>
      have hDone := hSettled hd (List.mem_of_getElem? hHandler) hReleased
      rw [hPhase] at hDone
      exact absurd hDone (by simp [Phase.running])

/-- There are no more open calls than handlers that hold a permit: a call that
has not returned has a leader of its own. -/
theorem openCalls_le_held (hSound : Sound s) (hLed : Led s) (hSettled : Settled s) :
    s.openCalls ≤ s.held := by
  have hLength := hSound.flights.length_eq
  refine Indexed.countP_le_countP (fun i => (s.flights[i]?.map Flight.leader).getD 0) ?_ ?_
  · intro i call hCall hOpen
    obtain ⟨hLt, -⟩ := List.getElem?_eq_some_iff.mp hCall
    have hFlight : s.flights[i]? = some (s.flights[i]) := List.getElem?_eq_getElem (by omega)
    obtain ⟨hd, r, hLeader, hWaiting⟩ := hLed i _ call hFlight hCall (by simpa using hOpen)
    refine ⟨hd, by rw [hFlight]; exact hLeader, ?_⟩
    rw [held_of_waiting hSettled hLeader hWaiting]
    rfl
  · intro i j call call' hCall hOpen hCall' hOpen' hEq
    obtain ⟨hLt, -⟩ := List.getElem?_eq_some_iff.mp hCall
    obtain ⟨hLt', -⟩ := List.getElem?_eq_some_iff.mp hCall'
    have hFlight : s.flights[i]? = some (s.flights[i]) := List.getElem?_eq_getElem (by omega)
    have hFlight' : s.flights[j]? = some (s.flights[j]) := List.getElem?_eq_getElem (by omega)
    obtain ⟨hd, r, hLeader, hWaiting⟩ := hLed i _ call hFlight hCall (by simpa using hOpen)
    obtain ⟨hd', r', hLeader', hWaiting'⟩ := hLed j _ call' hFlight' hCall' (by simpa using hOpen')
    simp only [hFlight, hFlight', Option.map_some, Option.getD_some] at hEq
    rw [hEq] at hLeader
    obtain rfl := Option.some.inj (hLeader.symm.trans hLeader')
    exact (Phase.waiting.inj (hWaiting.symm.trans hWaiting')).2

/-- Every permit is free or held, by a handler or by a call, whatever the server
has been through; and a call is under way only for a handler that waits for it
with its own permit, so that there are never more of them than handlers. -/
theorem permits_conserved {now : UnixTime} {cfg : Config} {list : Blocklist} {es : List Event}
    (hRun : Machine.run step (init now cfg list) es = some s) :
    s.inflight + s.held = max (bootConfig cfg es).dns.maxInflight.toNat 1 ∧
      s.upstream.permits + s.upstream.running =
        max (bootConfig cfg es).upstream.maxConcurrent.toNat 1 ∧
      s.upstream.running ≤ s.openCalls ∧ s.openCalls ≤ s.held ∧
      ∀ (i : Nat) (call : Upstream.Call), s.upstream.calls[i]? = some call →
        call.phase.isDone = false → ∃ (h : Nat) (hd : Handler env) (r : Request env.wire),
          s.handlers[h]? = some hd ∧ hd.phase = .waiting r i ∧ hd.released = false := by
  have hProvided := provided_run hRun
  obtain ⟨hSound, hLed⟩ := led_run hRun
  have hSettled : Settled s := hProvided.accounts.released
  refine ⟨hProvided.accounts.permits, hProvided.capped, ?_, openCalls_le_held hSound hLed hSettled, ?_⟩
  · refine List.countP_mono_left fun call _ hHolds => ?_
    cases hDone : call.phase.isDone with
    | false => rfl
    | true =>
        rw [(Upstream.Phase.spent (n := 0) hDone).1] at hHolds
        exact absurd hHolds (by decide)
  · intro i call hCall hOpen
    obtain ⟨fl, hFlight, -⟩ := Indexed.forall₂_partner hSound.flights hCall
    obtain ⟨hd, r, hLeader, hWaiting⟩ := hLed i fl call hFlight hCall hOpen
    exact ⟨fl.leader, hd, r, hLeader, hWaiting, held_of_waiting hSettled hLeader hWaiting⟩

/-- A miss on its way to the upstream, between two processes. -/
theorem permits_conserved_fetch :
    ∃ s : State sampleEnv,
      Machine.run step firstState (.restart Config.default ⟨∅, ∅⟩ true :: (fetch 1).take 6) = some s ∧
        (s.held, s.openCalls, s.upstream.running) = (1, 1, 1) ∧
        s.upstream.permits + s.upstream.running = 256 := by
  have hEnd : ((Machine.run step firstState
      (.restart Config.default ⟨∅, ∅⟩ true :: (fetch 1).take 6)).map fun s =>
        (s.held, s.openCalls, s.upstream.running)) = some (1, 1, 1) := by
    decide +kernel
  obtain ⟨s, hRun, hCounts⟩ := Option.map_eq_some_iff.mp hEnd
  exact ⟨s, hRun, hCounts, (permits_conserved hRun).2.1⟩

/-! The queries sent upstream against the cells of the rate limiter. -/

/-- No list of servers that is installed, at a start or later, has more than `n`
of them. -/
def Event.ServersLe (n : Nat) : Event → Prop
  | .upstream e => e.ServersLe n
  | .restart cfg _ _ => cfg.upstreamAddrs.length ≤ n
  | _ => True

/-- A resolver that has just started has sent nothing. -/
theorem budgeted_boot {n : Nat} (cache : Cache.State) {cfg : Config} (list : Blocklist)
    (origins : List (Request env.wire)) (hServers : cfg.upstreamAddrs.length ≤ n) :
    (boot cache cfg list origins).upstream.Budgeted n where
  servers := hServers
  sent := Nat.zero_le _
  cells := rfl

/-- A step keeps the queries sent and to come within what the cells allow. -/
theorem budgeted_of_step {n : Nat} (hBudgeted : s.upstream.Budgeted n) (hServers : e.ServersLe n)
    (hStep : step s e = some s') : s'.upstream.Budgeted n := by
  by_cases hAlive : e.restarts = false
  swap
  · cases e <;> first | exact absurd rfl hAlive | skip
    obtain rfl := Option.some.inj hStep
    exact budgeted_boot _ _ _ hServers
  rcases (flights_of_step hAlive hStep).2 with
    ⟨-, hSame⟩ | ⟨h, hd, r, -, -, rfl⟩ | ⟨e', rfl, hForward⟩
  · rw [hSame]
    exact hBudgeted
  · rcases join_cases h hd r with ⟨-, hSame⟩ | ⟨-, hQueued, -⟩
    · rw [hSame]
      exact hBudgeted
    · rw [hQueued]
      exact hBudgeted.queue r.data
  · exact Upstream.budgeted_step hBudgeted hServers (forward_upstream hForward).1

/-- In every run the queries sent and to come stay within what the cells allow.
-/
theorem budgeted_run {n : Nat} {now : UnixTime} {cfg : Config} {list : Blocklist} {es : List Event}
    (hServers : cfg.upstreamAddrs.length ≤ n) (hEvents : ∀ e ∈ es, e.ServersLe n)
    (hRun : Machine.run step (init now cfg list : State env) es = some s) : s.upstream.Budgeted n :=
  Machine.run_invariant_along (fun _ _ _ hInv hLe hStep => budgeted_of_step hInv hLe hStep)
    (budgeted_boot _ list [] hServers) (Machine.along_of_mem (fun e hMem _ => hEvents e hMem) _) hRun

/-- How far the queries sent can exceed the cells granted: where no list has
more than `n` servers a cell covers at most `2 n` queries, one over UDP and one
over TCP to each server, and each flight takes one cell at most. -/
theorem queries_le_cells {n : Nat} {now : UnixTime} {cfg : Config} {list : Blocklist}
    {es : List Event} (hServers : cfg.upstreamAddrs.length ≤ n) (hEvents : ∀ e ∈ es, e.ServersLe n)
    (hRun : Machine.run step (init now cfg list : State env) es = some s) :
    s.upstream.sent ≤ 2 * n * s.upstream.cells ∧ s.upstream.cells ≤ s.flights.length := by
  have hBudgeted := budgeted_run hServers hEvents hRun
  have hLength := (sound_run hRun).flights.length_eq
  constructor
  · have hSent := hBudgeted.sent
    omega
  · rw [hBudgeted.cells, hLength]
    exact List.countP_le_length

/-- One query for the one cell, with two servers. -/
theorem queries_le_cells_fetch :
    ∃ s : State sampleEnv, Machine.run step firstState (fetch 1) = some s ∧
      (s.upstream.sent, s.upstream.cells) = (1, 1) ∧
      s.upstream.sent ≤ 2 * 2 * s.upstream.cells := by
  have hEnd : ((Machine.run step firstState (fetch 1)).map fun s =>
      (s.upstream.sent, s.upstream.cells)) = some (1, 1) := by
    decide +kernel
  obtain ⟨s, hRun, hCounts⟩ := Option.map_eq_some_iff.mp hEnd
  have hEvents : ∀ e ∈ fetch 1, e.ServersLe 2 := by
    simp [fetch, Event.ServersLe, Upstream.Event.ServersLe]
  exact ⟨s, hRun, hCounts, (queries_le_cells (by decide +kernel) hEvents hRun).1⟩

end Server

end RustDns
