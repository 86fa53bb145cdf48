import RustDns.Library.Progress
import RustDns.Server.Permits

/-! Requests come to an end. Every message costs a bounded number of steps, and
until everything is answered there is a step that brings it closer to that,
whatever has happened before. -/
namespace RustDns

namespace Server

variable {env : Env}

/-- The event moves a request on. -/
def Event.works : Event → Bool
  | .parse _ | .check _ | .lookup _ | .join _ | .deliver _ | .finish _ => true
  | .upstream e => e.call?.isSome
  | .arrive _ | .cache _ | .setBlocklist _ | .setConfig _ | .restart _ _ _ => false

/-- The steps that a handler may still take and cause when no list has more than
`n` servers. -/
def Phase.work (n : Nat) : Phase env → Nat
  | .arrived => 4 * n + 10
  | .received _ _ => 4 * n + 9
  | .unblocked _ => 4 * n + 8
  | .missed _ => 4 * n + 7
  | .waiting _ _ => 2
  | .ignored | .answered _ _ => 1

def Handler.work (n : Nat) (hd : Handler env) : Nat := if hd.released then 0 else hd.phase.work n

def State.work (n : Nat) (s : State env) : Nat :=
  (s.handlers.map (Handler.work n)).sum + s.upstream.work n

/-- Every handler has given its permit back and every call has returned. -/
def Drained (s : State env) : Prop :=
  (∀ hd ∈ s.handlers, hd.released = true) ∧ ∀ call ∈ s.upstream.calls, call.phase.isDone = true

variable {s s' : State env} {e : Event} {n : Nat}

/-- A handler has no work left exactly when its permit is back. -/
theorem Handler.work_eq_zero {hd : Handler env} : hd.work n = 0 ↔ hd.released = true := by
  unfold Handler.work
  cases hReleased : hd.released with
  | true => simp
  | false => cases hd.phase <;> simp [Phase.work]

/-- There is nothing left to do exactly when the server is drained. -/
theorem work_eq_zero_iff : s.work n = 0 ↔ Drained s := by
  rw [State.work, Nat.add_eq_zero_iff, Upstream.State.work,
    List.sum_eq_zero_iff_forall_eq_nat, List.sum_eq_zero_iff_forall_eq_nat, List.forall_mem_map,
    List.forall_mem_map]
  refine and_congr (forall₂_congr fun hd _ => Handler.work_eq_zero) (forall₂_congr fun call _ => ?_)
  exact ⟨Upstream.work_eq_zero, fun hDone => (Upstream.Phase.spent hDone).2.1⟩

/-- A handler that moves on has less to do, even with what it starts. -/
theorem work_lt_of_set (more : Nat) {h : Nat} {hd new : Handler env} (hHandler : s.handlers[h]? = some hd)
    (hSet : s'.handlers = s.handlers.set h new)
    (hUpstream : s'.upstream.work n = s.upstream.work n + more)
    (hLess : new.work n + more < hd.work n) : s'.work n < s.work n := by
  have hSum := Indexed.sum_map_set (Handler.work n) new hHandler
  rw [State.work, State.work, hSet, hUpstream]
  omega

section

variable {h : Nat} {hd new : Handler env} {r : Request env.wire} {phase : Phase env}

/-- A running handler holds its permit, so its phase is what it has to do. -/
theorem work_of_running (hSettled : Settled s) (hHandler : s.handlers[h]? = some hd)
    (hPhase : hd.phase = phase) (hRunning : phase.running = true) : hd.work n = phase.work n := by
  rw [Handler.work, hPhase]
  cases hReleased : hd.released with
  | false => rfl
  | true =>
      have hDone := hSettled hd (List.mem_of_getElem? hHandler) hReleased
      rw [hPhase, hRunning] at hDone
      exact absurd hDone (by decide)

/-- A handler that moves on takes off more work than the call it may open adds.
-/
theorem work_lt_of_move (more : Nat) (hSettled : Settled s) (hHandler : s.handlers[h]? = some hd)
    (hPhase : hd.phase = phase) (hRunning : phase.running = true)
    (hSet : s'.handlers = s.handlers.set h new)
    (hUpstream : s'.upstream.work n = s.upstream.work n + more)
    (hLess : new.phase.work n + more < phase.work n) : s'.work n < s.work n := by
  apply work_lt_of_set more hHandler hSet hUpstream
  have hNew : new.work n ≤ new.phase.work n := by
    unfold Handler.work
    split <;> omega
  rw [work_of_running hSettled hHandler hPhase hRunning]
  omega

/-- Reading a message takes work off. -/
theorem work_parse (hSettled : Settled s) (hHandler : s.handlers[h]? = some hd)
    (hPhase : hd.phase = .arrived) : (parse s h hd).work n < s.work n := by
  unfold parse
  split
  · exact work_lt_of_move 0 hSettled hHandler hPhase rfl rfl rfl (by simp [Phase.work])
  · exact work_lt_of_move 0 hSettled hHandler hPhase rfl rfl rfl (by simp [Phase.work])

/-- The blocklist check takes work off. -/
theorem work_check {dns : DnsConfig} (hSettled : Settled s) (hHandler : s.handlers[h]? = some hd)
    (hPhase : hd.phase = .received r dns) : (check s h hd r dns).work n < s.work n := by
  unfold check
  split
  · exact work_lt_of_move 0 hSettled hHandler hPhase rfl rfl rfl (by simp [Phase.work])
  · exact work_lt_of_move 0 hSettled hHandler hPhase rfl rfl rfl (by simp [Phase.work])

/-- The look into RAM takes work off. -/
theorem work_lookup (hSettled : Settled s) (hHandler : s.handlers[h]? = some hd)
    (hPhase : hd.phase = .unblocked r) : (lookup s h hd r).work n < s.work n := by
  unfold lookup
  split
  · exact work_lt_of_move 0 hSettled hHandler hPhase rfl rfl rfl (by simp [Phase.work])
  · exact work_lt_of_move 0 hSettled hHandler hPhase rfl rfl rfl (by simp [Phase.work])

/-- A flight brings in the work of its call, which the handler has paid for. -/
theorem work_join (hSettled : Settled s) (hHandler : s.handlers[h]? = some hd)
    (hPhase : hd.phase = .missed r) : (join s h hd r).work n < s.work n := by
  unfold join
  split
  · exact work_lt_of_move 0 hSettled hHandler hPhase rfl rfl rfl (by simp [Phase.work])
  · split
    · exact work_lt_of_move 0 hSettled hHandler hPhase rfl rfl rfl (by simp [Phase.work])
    · refine work_lt_of_move (4 * n + 4) hSettled hHandler hPhase rfl rfl ?_ ?_
      · simp [Upstream.State.work, Upstream.Phase.work]
      · simp only [Phase.work]
        omega

/-- Handing a flight's result over takes work off. -/
theorem work_deliver {i : Nat} (hSettled : Settled s) (hHandler : s.handlers[h]? = some hd)
    (hPhase : hd.phase = .waiting r i) (hDeliver : deliver s h hd r i = some s') :
    s'.work n < s.work n := by
  rcases deliver_cases hDeliver with ⟨_, _, _, -, -, rfl⟩ | rfl
  · exact work_lt_of_move 0 hSettled hHandler hPhase rfl rfl rfl (by simp [Phase.work])
  · exact work_lt_of_move 0 hSettled hHandler hPhase rfl rfl rfl (by simp [Phase.work])

/-- Returning the permit takes work off. -/
theorem work_finish (hHandler : s.handlers[h]? = some hd) (hFinish : finish s h hd = some s') :
    s'.work n < s.work n := by
  obtain ⟨-, hHeld⟩ := done_of_finish hFinish
  obtain rfl := finish_cases hFinish
  have hPos : 0 < hd.work n := by
    rw [Nat.pos_iff_ne_zero, Ne, Handler.work_eq_zero, hHeld]
    decide
  exact work_lt_of_set 0 hHandler rfl rfl (by simpa [Handler.work] using hPos)

end

/-- A step of a call leaves the handlers alone. -/
theorem work_forward {e : Upstream.Event} (hServers : s.upstream.servers.length ≤ n)
    (hCall : e.call?.isSome = true) (hForward : forward s e = some s') : s'.work n < s.work n := by
  obtain ⟨i, hIndex⟩ := Option.isSome_iff_exists.mp hCall
  obtain ⟨call, phase, hMoves⟩ :=
    Upstream.moves_of_step (forward_upstream hForward).1 hIndex hServers
  have hLess := hMoves.work_lt
  rw [State.work, State.work, (forward_frame hForward).1]
  omega

/-- A message adds a bounded amount of work. -/
theorem work_arrive (data : Bytes) : (arrive s data).work n ≤ s.work n + (4 * n + 10) := by
  unfold arrive
  split
  · simp [State.work]
  · simp only [State.work, List.map_append, List.map_singleton, List.sum_append,
      List.sum_singleton, Handler.work, Phase.work, Bool.false_eq_true, if_false]
    omega

/-- Work uses up work, and only a message brings in more. -/
theorem work_of_step (hSettled : Settled s) (hBudgeted : s.upstream.Budgeted n)
    (hStep : step s e = some s') :
    s'.work n + e.works.toNat ≤ s.work n + (4 * n + 10) * e.arrives.toNat := by
  have hLower : s'.work n < s.work n →
      s'.work n + e.works.toNat ≤ s.work n + (4 * n + 10) * e.arrives.toNat := by
    intro hLess
    have hOne := e.works.toNat_le
    omega
  cases step_cases hStep with
  | arrive data => simpa [Event.works, Event.arrives] using work_arrive data
  | parse hHandler hPhase => exact hLower (work_parse hSettled hHandler hPhase)
  | check hHandler hPhase => exact hLower (work_check hSettled hHandler hPhase)
  | lookup hHandler hPhase => exact hLower (work_lookup hSettled hHandler hPhase)
  | join hHandler hPhase => exact hLower (work_join hSettled hHandler hPhase)
  | deliver hHandler hPhase hDeliver => exact hLower (work_deliver hSettled hHandler hPhase hDeliver)
  | finish hHandler hFinish => exact hLower (work_finish hHandler hFinish)
  | @upstream e' _ hForward =>
      cases hCall : e'.call?.isSome with
      | true => exact hLower (work_forward hBudgeted.servers hCall hForward)
      | false =>
          obtain ⟨hUpstream, hStarted, -⟩ := forward_upstream hForward
          have hCalls : s'.upstream.calls = s.upstream.calls := by
            rcases Upstream.step_calls hUpstream hStarted with ⟨-, hSame⟩ | ⟨i, _, _, hSome, -⟩
            · exact hSame
            · simp [hSome] at hCall
          simp [State.work, Upstream.State.work, Event.works, hCall, hCalls, (forward_frame hForward).1]
  | cache hBackground =>
      obtain ⟨cache, -, rfl, -⟩ := background_cases hBackground
      exact Nat.le_add_right _ _
  | setBlocklist list => exact Nat.le_add_right _ _
  | setConfig cfg => exact Nat.le_add_right _ _
  | restart cfg list loaded =>
      simp [State.work, Upstream.State.work, boot, Upstream.new, Event.works]

/-- What a message can cost: over any run, with whatever goes on beside, the
steps taken for requests number at most `4 n + 10` for each message received
when no list has more than `n` servers. -/
theorem steps_le_messages {now : UnixTime} {cfg : Config} {list : Blocklist} {es : List Event}
    (hServers : cfg.upstreamAddrs.length ≤ n) (hEvents : ∀ e ∈ es, e.ServersLe n)
    (hRun : Machine.run step (init now cfg list : State env) es = some s) :
    es.countP Event.works ≤ (4 * n + 10) * es.countP Event.arrives := by
  have hKeep : ∀ (s : State env) (e : Event) (s' : State env),
      Settled s ∧ s.upstream.Budgeted n → e.ServersLe n → step s e = some s' →
      (Settled s' ∧ s'.upstream.Budgeted n) ∧
        s'.work n + e.works.toNat ≤ s.work n + (4 * n + 10) * e.arrives.toNat := by
    intro s e s' hInv hLe hStep
    have hSettled := settled_step hInv.1 hStep
    exact ⟨⟨hSettled, budgeted_of_step hInv.2 hLe hStep⟩, work_of_step hInv.1 hInv.2 hStep⟩
  have hStart : Settled (init now cfg list : State env) := by simp [Settled, init, boot]
  have hPaid := Machine.measure_add_work_le hKeep ⟨hStart, budgeted_boot _ list [] hServers⟩
    (Machine.along_of_mem (fun e hMem _ => hEvents e hMem) _) hRun
  have hZero : (init now cfg list : State env).work n = 0 := rfl
  omega

/-- One message that is forwarded, and its answer sent. -/
theorem steps_le_messages_fetch :
    (fetch 1).countP Event.works = 10 ∧
      (fetch 1).countP Event.works ≤ (4 * 2 + 10) * (fetch 1).countP Event.arrives := by
  have hEnd : (Machine.run step firstState (fetch 1)).isSome = true := by decide +kernel
  obtain ⟨s, hRun⟩ := Option.isSome_iff_exists.mp hEnd
  have hEvents : ∀ e ∈ fetch 1, e.ServersLe 2 := by
    simp [fetch, Event.ServersLe, Upstream.Event.ServersLe]
  exact ⟨by decide, steps_le_messages (by decide +kernel) hEvents hRun⟩

/-! Until the server is drained there is work it can do. -/

/-- The state of a process that can finish what it has begun. -/
structure Able (n permits : Nat) (s : State env) : Prop where
  sound : Sound s
  settled : Settled s
  budgeted : s.upstream.Budgeted n
  capped : s.upstream.Capped permits
  ttl : s.policy.minTtl ≤ s.policy.maxTtl

/-- The server's own steps set no upstream servers. -/
theorem serversLe_of_works (hWorks : e.works = true) : e.ServersLe n := by
  cases e with
  | upstream e =>
      cases e with
      | setServers servers => simp [Event.works, Upstream.Event.call?] at hWorks
      | _ => trivial
  | restart _ _ _ => simp [Event.works] at hWorks
  | _ => trivial

/-- The server's own steps restart nothing. -/
theorem alive_of_works (hWorks : e.works = true) : e.restarts = false := by
  cases e with
  | restart _ _ _ => simp [Event.works] at hWorks
  | _ => rfl

/-- A step of the server leaves it able to go on. -/
theorem able_step {permits : Nat} (hAble : Able n permits s) (hWorks : e.works = true)
    (hStep : step s e = some s') : Able n permits s' where
  sound := sound_step hAble.sound hStep
  settled := settled_step hAble.settled hStep
  budgeted := budgeted_of_step hAble.budgeted (serversLe_of_works hWorks) hStep
  capped := capped_of_step hAble.capped (alive_of_works hWorks) hStep
  ttl := by
    rw [(flights_of_step (alive_of_works hWorks) hStep).1]
    exact hAble.ttl

/-- The server takes a step of the upstream that is about a call. -/
theorem forward_of_step {e : Upstream.Event} {i : Nat} {upstream : Upstream.State}
    (hCall : e.call? = some i)
    (hStep : Upstream.step env.wire s.policy s.cache.clock s.upstream e = some upstream) :
    ∃ s', forward s e = some s' := by
  cases e with
  | setServers _ | resolve _ => simp [Upstream.Event.call?] at hCall
  | acquire _ | untilReady _ | load _ _ | progress _ =>
      simp only [forward, hStep]
      exact ⟨_, rfl⟩

/-- As long as a call is open there is work. -/
theorem exists_work_of_open {permits i : Nat} {call : Upstream.Call} (hAble : Able n permits s)
    (hPermits : 0 < permits) (hCall : s.upstream.calls[i]? = some call)
    (hOpen : call.phase.isDone = false) : ∃ e s', Event.works e = true ∧ step s e = some s' := by
  obtain ⟨e, upstream, j, hIndex, hStep⟩ :=
    Upstream.exists_step env.wire s.cache.clock hAble.ttl hPermits hAble.capped hCall hOpen
  obtain ⟨s', hForward⟩ := forward_of_step hIndex hStep
  refine ⟨.upstream e, s', ?_, hForward⟩
  rw [Event.works, hIndex]
  rfl

/-- As long as a handler holds its permit there is work. -/
theorem exists_work_of_held {permits h : Nat} {hd : Handler env} (hAble : Able n permits s)
    (hPermits : 0 < permits) (hHandler : s.handlers[h]? = some hd) (hHeld : hd.released = false) :
    ∃ e s', Event.works e = true ∧ step s e = some s' := by
  cases hPhase : hd.phase with
  | arrived => exact ⟨.parse h, _, rfl, by simp only [step, hHandler, hPhase]; rfl⟩
  | received r dns => exact ⟨.check h, _, rfl, by simp only [step, hHandler, hPhase]; rfl⟩
  | unblocked r => exact ⟨.lookup h, _, rfl, by simp only [step, hHandler, hPhase]; rfl⟩
  | missed r => exact ⟨.join h, _, rfl, by simp only [step, hHandler, hPhase]; rfl⟩
  | waiting r i =>
      have hWaiting := hAble.sound.handlers hd (List.mem_of_getElem? hHandler)
      rw [hPhase] at hWaiting
      obtain ⟨fl, hFlight, -⟩ := hWaiting
      obtain ⟨hLt, -⟩ := List.getElem?_eq_some_iff.mp hFlight
      rw [hAble.sound.flights.length_eq] at hLt
      obtain ⟨⟨query, phase⟩, hCall⟩ : ∃ call, s.upstream.calls[i]? = some call :=
        ⟨_, List.getElem?_eq_getElem hLt⟩
      cases hDone : phase.isDone with
      | false => exact exists_work_of_open hAble hPermits hCall hDone
      | true =>
          cases phase with
          | done result =>
              cases result with
              | ok value =>
                  exact ⟨.deliver h, _, rfl, by
                    simp only [step, hHandler, hPhase, deliver, hFlight, hCall]; rfl⟩
              | error err =>
                  exact ⟨.deliver h, _, rfl, by
                    simp only [step, hHandler, hPhase, deliver, hFlight, hCall]; rfl⟩
          | _ => simp [Upstream.Phase.isDone] at hDone
  | ignored =>
      obtain ⟨s', hFinish⟩ := finish_enabled hHandler (by rw [hPhase]; rfl) hHeld
      exact ⟨.finish h, s', rfl, hFinish⟩
  | answered r a =>
      obtain ⟨s', hFinish⟩ := finish_enabled hHandler (by rw [hPhase]; rfl) hHeld
      exact ⟨.finish h, s', rfl, hFinish⟩

/-- As long as a message is not through, some step of the server can be taken.
-/
theorem exists_work {permits : Nat} (hAble : Able n permits s) (hPermits : 0 < permits)
    (hBusy : ¬Drained s) : ∃ e s', Event.works e = true ∧ step s e = some s' := by
  rw [Drained, not_and_or] at hBusy
  rcases hBusy with hHandlers | hCalls
  · obtain ⟨hd, hMem, hHeld⟩ : ∃ hd ∈ s.handlers, ¬hd.released = true := by simpa using hHandlers
    obtain ⟨h, hHandler⟩ := List.mem_iff_getElem?.mp hMem
    exact exists_work_of_held hAble hPermits hHandler (by simpa using hHeld)
  · obtain ⟨call, hMem, hOpen⟩ : ∃ call ∈ s.upstream.calls, ¬call.phase.isDone = true := by
      simpa using hCalls
    obtain ⟨i, hCall⟩ := List.mem_iff_getElem?.mp hMem
    exact exists_work_of_open hAble hPermits hCall (by simpa using hOpen)

/-- Serving requests winds down. -/
theorem winding (n : Nat) {permits : Nat} (hPermits : 0 < permits) :
    Machine.Winding step (Able n permits : State env → Prop) Drained
      (fun e => Event.works e = true) (State.work n) where
  keep := fun _ _ _ hAble hWorks hStep => able_step hAble hWorks hStep
  lower := by
    intro s e s' hAble hWorks hStep
    have hPaid := work_of_step hAble.settled hAble.budgeted hStep
    have hQuiet : e.arrives = false := by
      cases e with
      | arrive _ => simp [Event.works] at hWorks
      | _ => rfl
    rw [hWorks, hQuiet, Bool.toNat_true, Bool.toNat_false] at hPaid
    omega
  move := fun _ hAble hBusy => exists_work hAble hPermits hBusy

/-- A bound on the servers an event sets may be raised. -/
theorem serversLe_mono {m : Nat} (hLe : e.ServersLe n) (hMore : n ≤ m) : e.ServersLe m := by
  cases e with
  | upstream e =>
      cases e with
      | setServers servers => exact Nat.le_trans hLe hMore
      | _ => trivial
  | restart cfg list loaded => exact Nat.le_trans hLe hMore
  | _ => trivial

/-- The lists of a run have a longest one. -/
theorem exists_serversLe (es : List Event) : ∃ n, ∀ e ∈ es, e.ServersLe n := by
  induction es with
  | nil => exact ⟨0, by simp⟩
  | cons e rest ih =>
      obtain ⟨n, hRest⟩ := ih
      obtain ⟨m, hHead⟩ : ∃ m, e.ServersLe m := by
        cases e with
        | upstream e =>
            cases e with
            | setServers servers => exact ⟨servers.length, Nat.le_refl _⟩
            | _ => exact ⟨0, trivial⟩
        | restart cfg list loaded => exact ⟨cfg.upstreamAddrs.length, Nat.le_refl _⟩
        | _ => exact ⟨0, trivial⟩
      refine ⟨max m n, List.forall_mem_cons.mpr ⟨serversLe_mono hHead (Nat.le_max_left _ _), ?_⟩⟩
      intro e' hMem
      exact serversLe_mono (hRest e' hMem) (Nat.le_max_right _ _)

/-- Every run leaves the server able to go on, with a bound on the servers that
were ever set. -/
theorem able_run {now : UnixTime} {cfg : Config} {list : Blocklist} {es : List Event}
    (hTtl : (bootConfig cfg es).cache.minTtl ≤ (bootConfig cfg es).cache.maxTtl)
    (hRun : Machine.run step (init now cfg list : State env) es = some s) :
    ∃ n, Able n (max (bootConfig cfg es).upstream.maxConcurrent.toNat 1) s := by
  obtain ⟨n, hLe⟩ := exists_serversLe (.restart cfg list true :: es)
  obtain ⟨hServers, hEvents⟩ := List.forall_mem_cons.mp hLe
  have hProvided := provided_run hRun
  exact
    ⟨n, sound_run hRun, hProvided.accounts.released, budgeted_run hServers hEvents hRun,
      hProvided.capped, hProvided.policy ▸ hTtl⟩

/-- Events without a restart leave the configuration of the last start. -/
theorem bootConfig_append (cfg : Config) (es : List Event) {more : List Event}
    (hAlive : ∀ e ∈ more, e.restarts = false) :
    bootConfig cfg (es ++ more) = bootConfig cfg es := by
  induction more using List.reverseRecOn with
  | nil => rw [List.append_nil]
  | append_singleton rest e ih =>
      have hRest := ih fun e' hMem => hAlive e' (List.mem_append_left _ hMem)
      rw [← List.append_assoc, bootConfig_of_alive _ (hAlive e (by simp)), hRest]

/-- In a drained server every permit is free. -/
theorem permits_of_drained (hDrained : Drained s) : s.held = 0 ∧ s.upstream.running = 0 := by
  obtain ⟨hHandlers, hCalls⟩ := hDrained
  constructor
  · rw [State.held, List.countP_eq_zero]
    intro hd hMem
    simp [hHandlers hd hMem]
  · rw [Upstream.State.running, List.countP_eq_zero]
    intro call hMem
    simp [(Upstream.Phase.spent (n := 0) (hCalls call hMem)).1]

/-- A drained server has no work to do. -/
theorem idle_of_drained {permits : Nat} (hPermits : 0 < permits) (hAble : Able n permits s)
    (hDrained : Drained s) (hWorks : e.works = true) : step s e = none := by
  cases hStep : step s e with
  | none => rfl
  | some s' =>
      have hLess := (winding n hPermits).lower s e s' hAble hWorks hStep
      rw [work_eq_zero_iff.mpr hDrained] at hLess
      exact absurd hLess (Nat.not_lt_zero _)

/-- The server never gets stuck and never goes on for ever. Whatever has
happened, if the TTL settings are in order: the work for requests can be
finished, with every permit back where it belongs; no schedule of it goes on
without end; and it stops only when every request has been answered and every
call has returned. -/
theorem server_drains {now : UnixTime} {cfg : Config} {list : Blocklist} {es : List Event}
    (hTtl : (bootConfig cfg es).cache.minTtl ≤ (bootConfig cfg es).cache.maxTtl)
    (hRun : Machine.run step (init now cfg list : State env) es = some s) :
    (∃ more t, (∀ e ∈ more, e.works = true) ∧ Machine.run step s more = some t ∧ Drained t ∧
      t.inflight = max (bootConfig cfg es).dns.maxInflight.toNat 1 ∧
      t.upstream.permits = max (bootConfig cfg es).upstream.maxConcurrent.toNat 1) ∧
    ∃ bound, ∀ more t, (∀ e ∈ more, e.works = true) → Machine.run step s more = some t →
      more.length ≤ bound ∧ ((∀ e, e.works = true → step t e = none) ↔ Drained t) := by
  obtain ⟨n, hAble⟩ := able_run hTtl hRun
  have hPermits : 0 < max (bootConfig cfg es).upstream.maxConcurrent.toNat 1 := by omega
  have hWinding : Machine.Winding step (Able n (max (bootConfig cfg es).upstream.maxConcurrent.toNat 1) :
      State env → Prop) Drained (fun e => Event.works e = true) (State.work n) :=
    winding n hPermits
  constructor
  · obtain ⟨more, t, hWorks, hMore, hEnd, hDrained⟩ := hWinding.exists_rest hAble
    have hAlive : ∀ e ∈ more, e.restarts = false := fun e hMem => alive_of_works (hWorks e hMem)
    have hWhole : Machine.run step (init now cfg list : State env) (es ++ more) = some t :=
      Machine.run_append.mpr ⟨s, hRun, hMore⟩
    obtain ⟨hHeld, hRunning⟩ := permits_of_drained hDrained
    obtain ⟨hInflight, hUpstream, -⟩ := permits_conserved hWhole
    rw [bootConfig_append cfg es hAlive, hHeld] at hInflight
    rw [bootConfig_append cfg es hAlive, hRunning] at hUpstream
    exact ⟨more, t, hWorks, hMore, hDrained, hInflight, hUpstream⟩
  · refine ⟨s.work n, fun more t hWorks hMore => ?_⟩
    have hLength := hWinding.length_le hAble hWorks hMore
    have hEnd : Able n (max (bootConfig cfg es).upstream.maxConcurrent.toNat 1) t :=
      Machine.run_invariant_along (fun _ _ _ hInv hWork hStep => able_step hInv hWork hStep) hAble
        (Machine.along_of_mem (fun e hMem _ => hWorks e hMem) s) hMore
    refine ⟨by omega, ?_, ?_⟩
    · intro hIdle
      refine hWinding.rest_of_stuck hEnd fun e t' hWork hStep => ?_
      rw [hIdle e hWork] at hStep
      simp at hStep
    · intro hDrained e hWork
      exact idle_of_drained hPermits hEnd hDrained hWork

/-- A message on its way when the list and the configuration have changed. -/
theorem server_drains_fetch :
    ∃ s : State sampleEnv,
      Machine.run step firstState
        ((fetch 1).take 7 ++ [.setBlocklist ⟨∅, ∅⟩, .setConfig Config.default]) = some s ∧
      s.held = 1 ∧
      ∃ more t, (∀ e ∈ more, e.works = true) ∧ Machine.run step s more = some t ∧ Drained t := by
  have hEnd : ((Machine.run step firstState ((fetch 1).take 7 ++
      [.setBlocklist ⟨∅, ∅⟩, .setConfig Config.default])).map fun s => s.held) = some 1 := by
    decide +kernel
  obtain ⟨s, hRun, hHeld⟩ := Option.map_eq_some_iff.mp hEnd
  obtain ⟨more, t, hWorks, hMore, hDrained, -⟩ := (server_drains (by decide +kernel) hRun).1
  exact ⟨s, hRun, hHeld, more, t, hWorks, hMore, hDrained⟩

end Server

end RustDns
