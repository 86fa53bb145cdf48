import RustDns.Upstream.Response

/-! Calls of `resolve` on one `Upstream`, in any interleaving. What the network
does to an attempt is an input: it is fixed when the call loads its servers
and unfolds step by step. -/
namespace RustDns

namespace Upstream

inductive ResolveError where
  | noServers
  | unreachable
  | mismatch
  | io
  deriving DecidableEq

/-- The TCP retry of a query: the connection fails before the query is
written, or the query is sent and these bytes come back before the peer stops
or the timeout strikes. -/
inductive TcpAttempt where
  | unsent
  | sent (stream : Bytes)

/-- One server in turn: binding, connecting or sending fails, or the query is
sent and no reply or this datagram comes back. -/
inductive Attempt where
  | unsent
  | sent (reply : Option (Bytes × TcpAttempt))

/-- The receive buffer holds 4096 bytes; the rest of a datagram is lost. -/
def receive (datagram : Bytes) : Bytes := datagram.take 4096

/-- The TC bit is set. -/
def truncated (reply : Bytes) : Bool := 3 ≤ reply.length && (reply.getD 2 0 &&& 0x02) != 0

/-- A length-prefixed message from the front of a stream. -/
def readFrame (stream : Bytes) : Option Bytes :=
  if stream.length < 2 then none
  else
    let length := Codec.ofBeBytes (stream.take 2)
    if (stream.drop 2).length < length then none else some ((stream.drop 2).take length)

inductive Phase where
  | queued
  | permitted
  | granted
  | trying (todo : List (SocketAddr × Attempt)) (lastErr : ResolveError)
  | awaitUdp (reply : Option (Bytes × TcpAttempt)) (todo : List (SocketAddr × Attempt))
  | connecting (tcp : TcpAttempt) (todo : List (SocketAddr × Attempt))
  | awaitTcp (stream : Bytes) (todo : List (SocketAddr × Attempt))
  | done (result : Except ResolveError CachedResponse)

def Phase.isDone : Phase → Bool
  | .done _ => true
  | _ => false

structure Call where
  query : Bytes
  phase : Phase

structure State where
  servers : List SocketAddr
  /-- Free permits of the semaphore. -/
  permits : Nat
  /-- Cells the rate limiter has granted so far. -/
  cells : Nat
  /-- Queries sent toward servers so far. -/
  sent : Nat
  calls : List Call

inductive Event where
  | setServers (servers : List SocketAddr)
  | resolve (query : Bytes)
  | acquire (i : Nat)
  | untilReady (i : Nat)
  | load (i : Nat) (script : List Attempt)
  | progress (i : Nat)

/-- `Upstream::new`: at least one call may run at a time. -/
def new (servers : List SocketAddr) (maxConcurrent : UInt64) : State where
  servers := servers
  permits := max maxConcurrent.toNat 1
  cells := 0
  sent := 0
  calls := []

variable (wire : Wire) (policy : TtlPolicy) (now : UnixTime)

/-- The end of one attempt: an accepted reply ends the call, any other makes
way for the next server. -/
def settle (query reply : Bytes) (todo : List (SocketAddr × Attempt)) : Option Phase :=
  if validResponse wire query reply then
    (toCached wire policy now reply).map fun value => .done (.ok value)
  else some (.trying todo .mismatch)

/-- The next step of a call that has its servers, with the number of queries
it sends. A panic has no successor: the process is gone. -/
def advance (query : Bytes) : Phase → Option (Phase × Nat)
  | .trying [] lastErr => some (.done (.error lastErr), 0)
  | .trying ((_, .unsent) :: todo) _ => some (.trying todo .io, 0)
  | .trying ((_, .sent reply) :: todo) _ => some (.awaitUdp reply todo, 1)
  | .awaitUdp none todo => some (.trying todo .io, 0)
  | .awaitUdp (some (datagram, tcp)) todo =>
      if truncated (receive datagram) then some (.connecting tcp todo, 0)
      else (settle wire policy now query (receive datagram) todo).map fun phase => (phase, 0)
  | .connecting .unsent todo => some (.trying todo .io, 0)
  | .connecting (.sent stream) todo => some (.awaitTcp stream todo, 1)
  | .awaitTcp stream todo =>
      match readFrame stream with
      | none => some (.trying todo .io, 0)
      | some reply => (settle wire policy now query reply todo).map fun phase => (phase, 0)
  | _ => none

/-- The steps of a call through its servers, each with what it finds. -/
inductive Advance (query : Bytes) : Phase → Phase → Nat → Prop where
  | exhausted (lastErr : ResolveError) :
      Advance query (.trying [] lastErr) (.done (.error lastErr)) 0
  | skip (server : SocketAddr) (todo : List (SocketAddr × Attempt)) (lastErr : ResolveError) :
      Advance query (.trying ((server, .unsent) :: todo) lastErr) (.trying todo .io) 0
  | send (server : SocketAddr) (reply : Option (Bytes × TcpAttempt))
      (todo : List (SocketAddr × Attempt)) (lastErr : ResolveError) :
      Advance query (.trying ((server, .sent reply) :: todo) lastErr) (.awaitUdp reply todo) 1
  | timeout (todo : List (SocketAddr × Attempt)) :
      Advance query (.awaitUdp none todo) (.trying todo .io) 0
  | retry {datagram : Bytes} (tcp : TcpAttempt) (todo : List (SocketAddr × Attempt))
      (hTruncated : truncated (receive datagram) = true) :
      Advance query (.awaitUdp (some (datagram, tcp)) todo) (.connecting tcp todo) 0
  | datagram {datagram : Bytes} {todo : List (SocketAddr × Attempt)} {next : Phase}
      (tcp : TcpAttempt) (hWhole : ¬truncated (receive datagram) = true)
      (hSettle : settle wire policy now query (receive datagram) todo = some next) :
      Advance query (.awaitUdp (some (datagram, tcp)) todo) next 0
  | refused (todo : List (SocketAddr × Attempt)) :
      Advance query (.connecting .unsent todo) (.trying todo .io) 0
  | connect (stream : Bytes) (todo : List (SocketAddr × Attempt)) :
      Advance query (.connecting (.sent stream) todo) (.awaitTcp stream todo) 1
  | broken {stream : Bytes} (todo : List (SocketAddr × Attempt)) (hFrame : readFrame stream = none) :
      Advance query (.awaitTcp stream todo) (.trying todo .io) 0
  | frame {stream reply : Bytes} {todo : List (SocketAddr × Attempt)} {next : Phase}
      (hFrame : readFrame stream = some reply)
      (hSettle : settle wire policy now query reply todo = some next) :
      Advance query (.awaitTcp stream todo) next 0

/-- What a call does with the server list it loads. -/
def begin (servers : List SocketAddr) (script : List Attempt) : Option Phase :=
  if servers = [] then some (.done (.error .noServers))
  else if script.length = servers.length then some (.trying (servers.zip script) .unreachable)
  else none

def setPhase (s : State) (i : Nat) (call : Call) (phase : Phase) : State :=
  { s with
    calls := s.calls.set i { call with phase := phase }
    permits := if phase.isDone then s.permits + 1 else s.permits }

def step (s : State) : Event → Option State
  | .setServers servers => some { s with servers := servers }
  | .resolve query => some { s with calls := s.calls ++ [⟨query, .queued⟩] }
  | .acquire i =>
      match s.calls[i]? with
      | some ⟨query, .queued⟩ =>
          if s.permits = 0 then none
          else some (setPhase { s with permits := s.permits - 1 } i ⟨query, .queued⟩ .permitted)
      | _ => none
  | .untilReady i =>
      match s.calls[i]? with
      | some ⟨query, .permitted⟩ =>
          some (setPhase { s with cells := s.cells + 1 } i ⟨query, .permitted⟩ .granted)
      | _ => none
  | .load i script =>
      match s.calls[i]? with
      | some ⟨query, .granted⟩ =>
          (begin s.servers script).map fun phase => setPhase s i ⟨query, .granted⟩ phase
      | _ => none
  | .progress i =>
      match s.calls[i]? with
      | some call =>
          (advance wire policy now call.query call.phase).map fun (phase, queries) =>
            setPhase { s with sent := s.sent + queries } i call phase
      | none => none

/-- The steps of the calls, each with what it finds in the state. -/
inductive Step (s : State) : Event → State → Prop where
  | setServers (servers : List SocketAddr) :
      Step s (.setServers servers) { s with servers := servers }
  | resolve (query : Bytes) :
      Step s (.resolve query) { s with calls := s.calls ++ [⟨query, .queued⟩] }
  | acquire {i : Nat} {query : Bytes} (hCall : s.calls[i]? = some ⟨query, .queued⟩) :
      Step s (.acquire i)
        (setPhase { s with permits := s.permits - 1 } i ⟨query, .queued⟩ .permitted)
  | untilReady {i : Nat} {query : Bytes} (hCall : s.calls[i]? = some ⟨query, .permitted⟩) :
      Step s (.untilReady i)
        (setPhase { s with cells := s.cells + 1 } i ⟨query, .permitted⟩ .granted)
  | load {i : Nat} {query : Bytes} {script : List Attempt} {phase : Phase}
      (hCall : s.calls[i]? = some ⟨query, .granted⟩) (hBegin : begin s.servers script = some phase) :
      Step s (.load i script) (setPhase s i ⟨query, .granted⟩ phase)
  | progress {i : Nat} {call : Call} {phase : Phase} {queries : Nat}
      (hCall : s.calls[i]? = some call)
      (hAdvance : advance wire policy now call.query call.phase = some (phase, queries)) :
      Step s (.progress i) (setPhase { s with sent := s.sent + queries } i call phase)

variable {wire policy now}

/-- What a call does next, and what it sends there. -/
theorem advance_cases {query : Bytes} {phase next : Phase} {queries : Nat}
    (hStep : advance wire policy now query phase = some (next, queries)) :
    Advance wire policy now query phase next queries := by
  unfold advance at hStep
  split at hStep
  · obtain ⟨rfl, rfl⟩ := Prod.mk.inj (Option.some.inj hStep)
    exact .exhausted _
  · obtain ⟨rfl, rfl⟩ := Prod.mk.inj (Option.some.inj hStep)
    exact .skip ..
  · obtain ⟨rfl, rfl⟩ := Prod.mk.inj (Option.some.inj hStep)
    exact .send ..
  · obtain ⟨rfl, rfl⟩ := Prod.mk.inj (Option.some.inj hStep)
    exact .timeout _
  · split at hStep
    · obtain ⟨rfl, rfl⟩ := Prod.mk.inj (Option.some.inj hStep)
      exact .retry _ _ ‹_›
    · obtain ⟨settled, hSettle, hPair⟩ := Option.map_eq_some_iff.mp hStep
      obtain ⟨rfl, rfl⟩ := Prod.mk.inj hPair
      exact .datagram _ ‹_› hSettle
  · obtain ⟨rfl, rfl⟩ := Prod.mk.inj (Option.some.inj hStep)
    exact .refused _
  · obtain ⟨rfl, rfl⟩ := Prod.mk.inj (Option.some.inj hStep)
    exact .connect ..
  · split at hStep
    · obtain ⟨rfl, rfl⟩ := Prod.mk.inj (Option.some.inj hStep)
      exact .broken _ ‹_›
    · obtain ⟨settled, hSettle, hPair⟩ := Option.map_eq_some_iff.mp hStep
      obtain ⟨rfl, rfl⟩ := Prod.mk.inj hPair
      exact .frame ‹_› hSettle
  · simp at hStep

/-- What each event does, and when it can happen. -/
theorem step_cases {s s' : State} {e : Event} (hStep : step wire policy now s e = some s') :
    Step wire policy now s e s' := by
  cases e with
  | setServers servers =>
      obtain rfl := Option.some.inj hStep
      exact .setServers servers
  | resolve query =>
      obtain rfl := Option.some.inj hStep
      exact .resolve query
  | acquire i =>
      simp only [step] at hStep
      split at hStep <;> [skip; simp at hStep]
      split at hStep <;> [simp at hStep; skip]
      obtain rfl := Option.some.inj hStep
      exact .acquire ‹_›
  | untilReady i =>
      simp only [step] at hStep
      split at hStep <;> [skip; simp at hStep]
      obtain rfl := Option.some.inj hStep
      exact .untilReady ‹_›
  | load i script =>
      simp only [step] at hStep
      split at hStep <;> [skip; simp at hStep]
      obtain ⟨phase, hBegin, rfl⟩ := Option.map_eq_some_iff.mp hStep
      exact .load ‹_› hBegin
  | progress i =>
      simp only [step] at hStep
      split at hStep <;> [skip; simp at hStep]
      obtain ⟨⟨phase, queries⟩, hAdvance, rfl⟩ := Option.map_eq_some_iff.mp hStep
      exact .progress ‹_› hAdvance

/-- An accepted reply answers the query and is wrapped for the cache. -/
theorem settle_done {query reply : Bytes} {todo : List (SocketAddr × Attempt)}
    {value : CachedResponse}
    (hSettle : settle wire policy now query reply todo = some (.done (.ok value))) :
    validResponse wire query value.wire = true ∧
      toCached wire policy now value.wire = some value ∧ value.wire = reply := by
  unfold settle at hSettle
  split at hSettle
  case isTrue hValid =>
    obtain ⟨value', hCached, hEq⟩ := Option.map_eq_some_iff.mp hSettle
    obtain rfl : value' = value := by simpa using hEq
    obtain ⟨hWire, -⟩ := toCached_spec hCached
    exact ⟨hWire ▸ hValid, hWire ▸ hCached, hWire⟩
  case isFalse => simp at hSettle

/-- A datagram is cut to the buffer it is received in. -/
theorem length_receive (datagram : Bytes) : (receive datagram).length < 65536 := by
  rw [receive, List.length_take]
  omega

/-- A framed reply is no longer than its prefix can say. -/
theorem length_readFrame {stream reply : Bytes} (hFrame : readFrame stream = some reply) :
    reply.length < 65536 := by
  unfold readFrame at hFrame
  split at hFrame
  case isTrue => simp at hFrame
  case isFalse hLong =>
    dsimp only at hFrame
    split at hFrame
    case isTrue => simp at hFrame
    case isFalse hWhole =>
      obtain rfl := Option.some.inj hFrame
      have hTwo : (stream.take 2).length = 2 := by
        rw [List.length_take]
        omega
      have hLength := Codec.ofBeBytes_lt (stream.take 2)
      rw [hTwo] at hLength
      rw [List.length_take]
      omega

/-- A call returns a reply only when it was accepted, with its lifetime clamped.
-/
theorem advance_done {query : Bytes} {phase : Phase} {value : CachedResponse} {queries : Nat}
    (hStep : advance wire policy now query phase = some (.done (.ok value), queries)) :
    validResponse wire query value.wire = true ∧
      toCached wire policy now value.wire = some value ∧ value.wire.length < 65536 := by
  cases advance_cases hStep with
  | datagram tcp hWhole hSettle =>
      obtain ⟨hValid, hCached, hReply⟩ := settle_done hSettle
      exact ⟨hValid, hCached, hReply ▸ length_receive _⟩
  | frame hFrame hSettle =>
      obtain ⟨hValid, hCached, hReply⟩ := settle_done hSettle
      exact ⟨hValid, hCached, hReply ▸ length_readFrame hFrame⟩

/-- No call has a reply when it begins. -/
theorem begin_not_ok {servers : List SocketAddr} {script : List Attempt} {value : CachedResponse} :
    begin servers script ≠ some (.done (.ok value)) := by
  unfold begin
  split
  · simp
  · split <;> simp

/-- The call an event moves on. -/
def Event.call? : Event → Option Nat
  | .setServers _ | .resolve _ => none
  | .acquire i | .untilReady i | .load i _ | .progress i => some i

/-- A call that has returned goes no further. -/
theorem advance_not_done {query : Bytes} {phase : Phase} {next : Phase × Nat}
    (hStep : advance wire policy now query phase = some next) : phase.isDone = false := by
  cases phase <;> first | rfl | simp [advance] at hStep

/-- What a step does to the calls: nothing, or it moves one call on that has
not ended. A call ends well with an accepted reply only. -/
theorem step_calls {s s' : State} {e : Event} (hStep : step wire policy now s e = some s')
    (hStarted : ∀ query, e ≠ .resolve query) :
    (e.call? = none ∧ s'.calls = s.calls) ∨
      ∃ i call phase, e.call? = some i ∧ s.calls[i]? = some call ∧ call.phase.isDone = false ∧
        s'.calls = s.calls.set i ⟨call.query, phase⟩ ∧
        ∀ value, phase = .done (.ok value) →
          (∃ j, e = .progress j) ∧ validResponse wire call.query value.wire = true ∧
            toCached wire policy now value.wire = some value ∧ value.wire.length < 65536 := by
  cases step_cases hStep with
  | setServers servers => exact Or.inl ⟨rfl, rfl⟩
  | resolve query => exact absurd rfl (hStarted query)
  | acquire hCall => exact Or.inr ⟨_, _, .permitted, rfl, hCall, rfl, rfl, by simp⟩
  | untilReady hCall => exact Or.inr ⟨_, _, .granted, rfl, hCall, rfl, rfl, by simp⟩
  | @load i query script phase hCall hBegin =>
      refine Or.inr ⟨i, _, phase, rfl, hCall, rfl, rfl, ?_⟩
      rintro value rfl
      exact absurd hBegin begin_not_ok
  | @progress i call phase queries hCall hAdvance =>
      refine Or.inr ⟨i, call, phase, rfl, hCall, advance_not_done hAdvance, rfl, ?_⟩
      rintro value rfl
      exact ⟨⟨i, rfl⟩, advance_done hAdvance⟩

/-- Only a call on its way through the servers sends queries. -/
theorem sent_of_step {s s' : State} {e : Event} (hStep : step wire policy now s e = some s')
    (hSent : s'.sent ≠ s.sent) : ∃ i, e = .progress i := by
  cases step_cases hStep with
  | progress hCall hAdvance => exact ⟨_, rfl⟩
  | _ => exact absurd rfl hSent

end Upstream

end RustDns
