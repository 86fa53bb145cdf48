import RustDns.Upstream.RateLimit
import RustDns.Upstream.Ttl

/-! Which reply a call of `resolve` ends with. The loop over the servers is
written out as a function of what the network does to each of them, and the
steps of a call in any interleaving come to the same result. -/
namespace RustDns

namespace Upstream

/-- The servers a call turns to and what it returns; nothing is returned when
wrapping the reply panics. -/
structure Outcome where
  contacted : List SocketAddr
  result : Option (Except ResolveError CachedResponse)

/-- The outcome of the rest of the loop, after a server. -/
def Outcome.after (server : SocketAddr) (rest : Outcome) : Outcome :=
  { rest with contacted := server :: rest.contacted }

section

variable (wire : Wire) (policy : TtlPolicy) (now : UnixTime) (query : Bytes)

/-- The loop of `resolve`. What `query_udp` returns for a server, its TCP retry
included, is the answer of the attempt. -/
def resolveLoop : List (SocketAddr × Attempt) → ResolveError → Outcome
  | [], lastErr => ⟨[], some (.error lastErr)⟩
  | (server, attempt) :: rest, _ =>
      match attempt.answer with
      | some reply =>
          if validResponse wire query reply then
            ⟨[server], (toCached wire policy now reply).map .ok⟩
          else (resolveLoop rest .mismatch).after server
      | none => (resolveLoop rest .io).after server

/-- `resolve` once it has its permit and its cell, for servers that behave as
told. -/
def resolve (servers : List (SocketAddr × Attempt)) : Outcome :=
  if servers = [] then ⟨[], some (.error .noServers)⟩
  else resolveLoop wire policy now query servers .unreachable

/-- The first server with an accepted reply, and that reply. -/
def FirstValid (servers : List (SocketAddr × Attempt)) (i : Nat) (reply : Bytes) : Prop :=
  (∃ server attempt, servers[i]? = some (server, attempt) ∧ attempt.answer = some reply) ∧
    validResponse wire query reply = true ∧
      ∀ j < i, ∀ p, servers[j]? = some p → Accepted wire query p.2.answer = false

def NoneValid (servers : List (SocketAddr × Attempt)) : Prop :=
  ∀ p ∈ servers, Accepted wire query p.2.answer = false

/-- A response with the query's id to the query's question. -/
def AnswersQuery (reply : Bytes) : Prop :=
  ∃ q r qq rq, wire.fromVec query = some q ∧ wire.fromVec reply = some r ∧
    r.messageType = .response ∧ r.id = q.id ∧ q.queries.head? = some qq ∧
    r.queries.head? = some rq ∧ qq.name.eqIgnoreCase rq.name = true ∧
    qq.queryType = rq.queryType ∧ qq.queryClass = rq.queryClass

/-- The reply came as a whole datagram, or over TCP after a truncated one. -/
def Whole (attempt : Attempt) (reply : Bytes) : Prop :=
  ∃ datagram tcp, attempt = .sent (some (datagram, tcp)) ∧
    ((truncated (receive datagram) = false ∧ reply = receive datagram) ∨
      (truncated (receive datagram) = true ∧ tcp.answer = some reply))

/-- The call returns the first accepted reply and turns to no server after it,
returns an error when there is none, and returns nothing else. -/
structure PicksFirst (servers : List (SocketAddr × Attempt)) (o : Outcome) : Prop where
  first : ∀ i reply, FirstValid wire query servers i reply →
    ∃ value, o.result = some (.ok value) ∧ value.wire = reply ∧
      o.contacted = (servers.map Prod.fst).take (i + 1)
  error : (∃ e, o.result = some (.error e)) ↔ servers = [] ∨ NoneValid wire query servers
  sound : ∀ value, o.result = some (.ok value) → AnswersQuery wire query value.wire ∧
    ∃ p ∈ servers, Whole p.2 value.wire

end

variable {wire : Wire} {policy : TtlPolicy} {now : UnixTime} {query : Bytes}
  {servers : List (SocketAddr × Attempt)}

/-- The check of a reply, as the fields it compares. -/
theorem validResponse_iff {reply : Bytes} :
    validResponse wire query reply = true ↔ AnswersQuery wire query reply := by
  unfold validResponse AnswersQuery
  constructor
  · intro hValid
    split at hValid <;> [skip; simp at hValid]
    rename_i q r hQuery hReply
    split at hValid <;> [simp at hValid; skip]
    rename_i hHeader
    split at hValid <;> [skip; simp at hValid]
    rename_i qq rq hFirst hEcho
    simp only [Bool.and_eq_true, beq_iff_eq] at hValid
    obtain ⟨⟨hName, hType⟩, hClass⟩ := hValid
    rw [not_or, not_not, not_not] at hHeader
    exact ⟨q, r, qq, rq, hQuery, hReply, hHeader.1, hHeader.2, hFirst, hEcho, hName, hType, hClass⟩
  · rintro ⟨q, r, qq, rq, hQuery, hReply, hKind, hId, hFirst, hEcho, hName, hType, hClass⟩
    simp [hQuery, hReply, hKind, hId, hFirst, hEcho, hName, hType, hClass]

theorem whole_of_answer {attempt : Attempt} {reply : Bytes} (hAnswer : attempt.answer = some reply) :
    Whole attempt reply := by
  unfold Attempt.answer at hAnswer
  split at hAnswer
  · simp at hAnswer
  · simp at hAnswer
  · rename_i datagram tcp
    split at hAnswer
    case isTrue hTruncated => exact ⟨datagram, tcp, rfl, Or.inr ⟨hTruncated, hAnswer⟩⟩
    case isFalse hWhole =>
      exact ⟨datagram, tcp, rfl, Or.inl ⟨by simpa using hWhole, (Option.some.inj hAnswer).symm⟩⟩

theorem accepted_of_answer {attempt : Attempt} {reply : Bytes} (hAnswer : attempt.answer = some reply) :
    Accepted wire query attempt.answer = validResponse wire query reply := by
  simp [Accepted, hAnswer]

/-- A server that is refused moves the first valid one back by one. -/
theorem FirstValid.cons {p : SocketAddr × Attempt} {i : Nat} {reply : Bytes}
    (hFirst : FirstValid wire query servers i reply)
    (hRefused : Accepted wire query p.2.answer = false) :
    FirstValid wire query (p :: servers) (i + 1) reply := by
  obtain ⟨hAt, hValid, hBefore⟩ := hFirst
  refine ⟨hAt, hValid, fun j hj q hq => ?_⟩
  cases j with
  | zero =>
      obtain rfl := Option.some.inj hq
      exact hRefused
  | succ j => exact hBefore j (Nat.lt_of_succ_lt_succ hj) q hq

theorem noneValid_cons {p : SocketAddr × Attempt} :
    NoneValid wire query (p :: servers) ↔
      Accepted wire query p.2.answer = false ∧ NoneValid wire query servers :=
  List.forall_mem_cons

/-- There is one first accepted reply at most. -/
theorem FirstValid.unique {i j : Nat} {reply other : Bytes}
    (hFirst : FirstValid wire query servers i reply)
    (hOther : FirstValid wire query servers j other) : i = j ∧ reply = other := by
  obtain ⟨⟨server, attempt, hAt, hAnswer⟩, hValid, hBefore⟩ := hFirst
  obtain ⟨⟨server', attempt', hAt', hAnswer'⟩, hValid', hBefore'⟩ := hOther
  have hLe : ¬j < i := fun hLt => by
    have hRefused := hBefore j hLt _ hAt'
    rw [accepted_of_answer hAnswer', hValid'] at hRefused
    exact absurd hRefused (by decide)
  have hGe : ¬i < j := fun hLt => by
    have hRefused := hBefore' i hLt _ hAt
    rw [accepted_of_answer hAnswer, hValid] at hRefused
    exact absurd hRefused (by decide)
  obtain rfl : i = j := by omega
  obtain ⟨-, rfl⟩ := Prod.mk.inj (Option.some.inj (hAt.symm.trans hAt'))
  exact ⟨rfl, Option.some.inj (hAnswer.symm.trans hAnswer')⟩

theorem FirstValid.not_noneValid {i : Nat} {reply : Bytes}
    (hFirst : FirstValid wire query servers i reply) : ¬NoneValid wire query servers := by
  intro hNone
  obtain ⟨⟨server, attempt, hAt, hAnswer⟩, hValid, -⟩ := hFirst
  have hRefused := hNone _ (List.mem_of_getElem? hAt)
  rw [accepted_of_answer hAnswer, hValid] at hRefused
  exact absurd hRefused (by decide)

/-- The ways the loop ends: it has been through all servers, or it stops at the
first accepted reply. -/
def Ends (wire : Wire) (policy : TtlPolicy) (now : UnixTime) (query : Bytes)
    (servers : List (SocketAddr × Attempt)) (o : Outcome) : Prop :=
  (NoneValid wire query servers ∧ ∃ e, o = ⟨servers.map Prod.fst, some (.error e)⟩) ∨
    ∃ i reply, FirstValid wire query servers i reply ∧
      o = ⟨(servers.map Prod.fst).take (i + 1), (toCached wire policy now reply).map .ok⟩

/-- A server whose answer is refused only adds to those contacted. -/
theorem Ends.after {server : SocketAddr} {attempt : Attempt} {o : Outcome}
    (hEnds : Ends wire policy now query servers o)
    (hRefused : Accepted wire query attempt.answer = false) :
    Ends wire policy now query ((server, attempt) :: servers) (o.after server) := by
  rcases hEnds with ⟨hNone, e, rfl⟩ | ⟨i, reply, hFirst, rfl⟩
  · exact Or.inl ⟨noneValid_cons.mpr ⟨hRefused, hNone⟩, e, rfl⟩
  · exact Or.inr ⟨i + 1, reply, hFirst.cons hRefused, rfl⟩

/-- The loop ends in one of the two ways, by induction on the servers left. -/
theorem resolveLoop_ends (policy : TtlPolicy) (now : UnixTime)
    (servers : List (SocketAddr × Attempt)) (lastErr : ResolveError) :
    Ends wire policy now query servers (resolveLoop wire policy now query servers lastErr) := by
  induction servers generalizing lastErr with
  | nil => exact Or.inl ⟨by simp [NoneValid], lastErr, rfl⟩
  | cons p rest ih =>
      obtain ⟨server, attempt⟩ := p
      rw [resolveLoop]
      split
      case h_1 reply hAnswer =>
        split
        case isTrue hValid =>
          exact Or.inr ⟨0, reply, ⟨⟨server, attempt, rfl, hAnswer⟩, hValid, by simp⟩, rfl⟩
        case isFalse hInvalid =>
          apply (ih .mismatch).after
          rw [accepted_of_answer hAnswer]
          simpa using hInvalid
      case h_2 hNone => exact (ih .io).after (by simp [Accepted, hNone])

/-- A call picks the first accepted reply exactly when the TTL settings are in
order or there is no reply to accept. -/
theorem resolve_picks_first_iff (wire : Wire) (policy : TtlPolicy) (now : UnixTime) (query : Bytes)
    (servers : List (SocketAddr × Attempt)) :
    PicksFirst wire query servers (resolve wire policy now query servers) ↔
      policy.minTtl ≤ policy.maxTtl ∨ NoneValid wire query servers := by
  by_cases hEmpty : servers = []
  · subst hEmpty
    have hNone : NoneValid wire query [] := by simp [NoneValid]
    refine iff_of_true ⟨fun i reply hFirst => absurd hNone hFirst.not_noneValid, ?_, ?_⟩
      (Or.inr hNone)
    · simp [resolve]
    · simp [resolve]
  rw [resolve, if_neg hEmpty]
  rcases resolveLoop_ends policy now servers .unreachable with
    ⟨hNone, e, hEnd⟩ | ⟨i, reply, hFirst, hEnd⟩
  · rw [hEnd]
    refine iff_of_true ⟨fun i reply hFirst => absurd hNone hFirst.not_noneValid, ?_, by simp⟩
      (Or.inr hNone)
    exact iff_of_true ⟨e, rfl⟩ (Or.inr hNone)
  · rw [hEnd, or_iff_left hFirst.not_noneValid, ← effectiveTtl_isSome wire policy reply]
    constructor
    · intro hPicks
      obtain ⟨value, hResult, -⟩ := hPicks.first i reply hFirst
      obtain ⟨value', hCached, -⟩ := Option.map_eq_some_iff.mp hResult
      obtain ⟨ttl, hTtl, -⟩ := Option.map_eq_some_iff.mp hCached
      rw [hTtl]
      rfl
    · intro hTtl
      obtain ⟨value, hCached⟩ : ∃ value, toCached wire policy now reply = some value := by
        rw [← Option.isSome_iff_exists, toCached, Option.isSome_map]
        exact hTtl
      obtain ⟨hWire, -⟩ := toCached_spec hCached
      rw [hCached]
      refine ⟨fun j other hOther => ?_, ?_, fun value' hResult => ?_⟩
      · obtain ⟨rfl, rfl⟩ := hFirst.unique hOther
        exact ⟨value, rfl, hWire, rfl⟩
      · simp [hEmpty, hFirst.not_noneValid]
      · obtain rfl : value = value' := by simpa using hResult
        obtain ⟨⟨server, attempt, hAt, hAnswer⟩, hValid, -⟩ := hFirst
        rw [hWire]
        exact ⟨validResponse_iff.mp hValid, _, List.mem_of_getElem? hAt, whole_of_answer hAnswer⟩

/-- One server whose reply is accepted. -/
def answeringServer : List (SocketAddr × Attempt) :=
  [(firstServer, .sent (some (Exchange.reply 1, .unsent)))]

/-- A ceiling below the floor takes the server down at its first accepted
reply. -/
theorem accepted_reply_panics :
    validResponse Exchange.wire (Exchange.query 1) (Exchange.reply 1) = true ∧
      (resolve Exchange.wire crossedConfig.cache.policy 0 (Exchange.query 1) answeringServer).result =
        none ∧
      ¬PicksFirst Exchange.wire (Exchange.query 1) answeringServer
        (resolve Exchange.wire crossedConfig.cache.policy 0 (Exchange.query 1) answeringServer) := by
  have hValid : validResponse Exchange.wire (Exchange.query 1) (Exchange.reply 1) = true := by
    decide +kernel
  have hPanic : (resolve Exchange.wire crossedConfig.cache.policy 0 (Exchange.query 1)
      answeringServer).result = none := by
    decide +kernel
  refine ⟨hValid, hPanic, fun hPicks => ?_⟩
  have hFirst : FirstValid Exchange.wire (Exchange.query 1) answeringServer 0 (Exchange.reply 1) :=
    ⟨⟨firstServer, _, rfl, by decide +kernel⟩, hValid, by simp⟩
  obtain ⟨value, hResult, -⟩ := hPicks.first 0 _ hFirst
  rw [hPanic] at hResult
  simp at hResult

/-! The steps of a call in any interleaving. -/

section

variable (wire policy now query)

/-- The outcome of the loop once a server has been asked. -/
def answered (answer : Option Bytes) (todo : List (SocketAddr × Attempt)) : Outcome :=
  match answer with
  | some reply =>
      if validResponse wire query reply then ⟨[], (toCached wire policy now reply).map .ok⟩
      else resolveLoop wire policy now query todo .mismatch
  | none => resolveLoop wire policy now query todo .io

/-- What a call comes to from a phase on. -/
def Phase.outcome : Phase → Outcome
  | .trying todo lastErr => resolveLoop wire policy now query todo lastErr
  | .awaitUdp reply todo => answered wire policy now query (Attempt.sent reply).answer todo
  | .connecting tcp todo => answered wire policy now query tcp.answer todo
  | .awaitTcp stream todo => answered wire policy now query (readFrame stream) todo
  | .done result => ⟨[], some result⟩
  | .queued | .permitted | .granted => ⟨[], none⟩

end

/-- One round of the loop. -/
theorem resolveLoop_cons {server : SocketAddr} {attempt : Attempt} {lastErr : ResolveError} :
    resolveLoop wire policy now query ((server, attempt) :: servers) lastErr =
      (answered wire policy now query attempt.answer servers).after server := by
  simp only [resolveLoop, answered]
  cases attempt.answer with
  | none => rfl
  | some reply =>
      cases hValid : validResponse wire query reply with
      | true => simp [hValid, Outcome.after]
      | false => simp [hValid]

/-- The server a step turns to. -/
def Phase.turn : Phase → List SocketAddr
  | .trying ((server, _) :: _) _ => [server]
  | _ => []

def Outcome.afterAll (contacted : List SocketAddr) (rest : Outcome) : Outcome :=
  { rest with contacted := contacted ++ rest.contacted }

variable {now' : UnixTime}

/-- An attempt that is over: the clock matters only for a reply that is
wrapped. -/
theorem outcome_settle {reply : Bytes} {todo : List (SocketAddr × Attempt)} {phase : Phase}
    (hSettle : settle wire policy now query reply todo = some phase)
    (hTime : phase.isDone = true → now' = now) :
    phase.outcome wire policy now' query = answered wire policy now' query (some reply) todo := by
  unfold settle at hSettle
  split at hSettle
  case isTrue hValid =>
    obtain ⟨value, hCached, rfl⟩ := Option.map_eq_some_iff.mp hSettle
    obtain rfl := hTime rfl
    simp [Phase.outcome, answered, hValid, hCached]
  case isFalse hInvalid =>
    obtain rfl := Option.some.inj hSettle
    simp [Phase.outcome, answered, hInvalid]

/-- A step of a call turns to the next server or goes on with the last one, and
leaves the rest of the outcome to come. -/
theorem outcome_advance {phase next : Phase} {queries : Nat}
    (hStep : advance wire policy now query phase = some (next, queries))
    (hTime : next.isDone = true → now' = now) :
    phase.outcome wire policy now' query =
      (next.outcome wire policy now' query).afterAll phase.turn := by
  cases advance_cases hStep with
  | exhausted lastErr => rfl
  | skip server todo lastErr =>
      rw [Phase.outcome, resolveLoop_cons]
      rfl
  | send server reply todo lastErr =>
      rw [Phase.outcome, resolveLoop_cons]
      rfl
  | timeout todo => rfl
  | retry tcp todo hTruncated =>
      simp only [Phase.outcome, Attempt.answer, hTruncated, if_true]
      rfl
  | datagram tcp hWhole hSettle =>
      rw [outcome_settle hSettle hTime]
      simp only [Phase.outcome, Attempt.answer, if_neg hWhole]
      rfl
  | refused todo => rfl
  | connect stream todo => rfl
  | broken todo hFrame =>
      simp only [Phase.outcome, hFrame]
      rfl
  | frame hFrame hSettle =>
      rw [outcome_settle hSettle hTime]
      simp only [Phase.outcome, hFrame]
      rfl

/-- The call has loaded its servers. -/
def Phase.loaded : Phase → Bool
  | .queued | .permitted | .granted => false
  | _ => true

/-- A call with its servers moves by its own steps only. -/
theorem step_loaded {s s' : State} {e : Event} {i : Nat} {phase : Phase}
    (hStep : step wire policy now s e = some s') (hCall : s.calls[i]? = some ⟨query, phase⟩)
    (hLoaded : phase.loaded = true) :
    s'.calls[i]? = some ⟨query, phase⟩ ∨
      ∃ next queries, advance wire policy now query phase = some (next, queries) ∧
        s'.calls[i]? = some ⟨query, next⟩ := by
  -- a step of another call leaves this one alone
  have hOther : ∀ {j : Nat} {call : Call} (next : Phase), s.calls[j]? = some call → j ≠ i →
      (s.calls.set j { call with phase := next })[i]? = some ⟨query, phase⟩ := by
    intro j call next _ hNe
    rw [List.getElem?_set_ne hNe, hCall]
  -- the steps before the load find a call that is not this one
  have hBefore : ∀ {j : Nat} {other : Bytes} {old : Phase}, s.calls[j]? = some ⟨other, old⟩ →
      old.loaded = false → j ≠ i := by
    rintro j other old hj hOld rfl
    obtain ⟨-, rfl⟩ := Call.mk.inj (Option.some.inj (hj.symm.trans hCall))
    simp [hLoaded] at hOld
  cases step_cases hStep with
  | setServers servers => exact Or.inl hCall
  | resolve other => exact Or.inl (Indexed.getElem?_append_of_some hCall _)
  | acquire hj => exact Or.inl (hOther .permitted hj (hBefore hj rfl))
  | untilReady hj => exact Or.inl (hOther .granted hj (hBefore hj rfl))
  | @load j other script next hj hBegin => exact Or.inl (hOther next hj (hBefore hj rfl))
  | @progress j call next queries hj hAdvance =>
      by_cases hNe : j = i
      · subst hNe
        obtain rfl := Option.some.inj (hj.symm.trans hCall)
        obtain ⟨hLt, -⟩ := List.getElem?_eq_some_iff.mp hCall
        exact Or.inr ⟨next, queries, hAdvance, List.getElem?_set_self hLt⟩
      · exact Or.inl (hOther next hj hNe)

/-- What is left of a call comes to what the loop comes to. Once the call has
ended, this is so for the clock it has read. -/
def Follows (wire : Wire) (policy : TtlPolicy) (query : Bytes)
    (servers : List (SocketAddr × Attempt)) (i : Nat) (s : State) : Prop :=
  ∃ phase, s.calls[i]? = some ⟨query, phase⟩ ∧ phase.loaded = true ∧
    ∃ contacted clock, ∀ now, (phase.isDone = true → now = clock) →
      resolve wire policy now query servers =
        (phase.outcome wire policy now query).afterAll contacted

theorem settle_loaded {reply : Bytes} {todo : List (SocketAddr × Attempt)} {phase : Phase}
    (hSettle : settle wire policy now query reply todo = some phase) : phase.loaded = true := by
  unfold settle at hSettle
  split at hSettle
  · obtain ⟨value, -, rfl⟩ := Option.map_eq_some_iff.mp hSettle
    rfl
  · obtain rfl := Option.some.inj hSettle
    rfl

/-- A call keeps the servers it has loaded. -/
theorem advance_loaded {phase next : Phase} {queries : Nat}
    (hStep : advance wire policy now query phase = some (next, queries)) : next.loaded = true := by
  cases advance_cases hStep with
  | datagram tcp hWhole hSettle => exact settle_loaded hSettle
  | frame hFrame hSettle => exact settle_loaded hSettle
  | _ => rfl

/-- A step of any call leaves what is left of this one coming to what the loop
comes to. -/
theorem follows_step {s s' : State} {e : UnixTime × Event} {i : Nat}
    (hFollows : Follows wire policy query servers i s)
    (hStep : timedStep wire policy s e = some s') : Follows wire policy query servers i s' := by
  obtain ⟨phase, hCall, hLoaded, contacted, clock, hOutcome⟩ := hFollows
  rcases step_loaded hStep hCall hLoaded with hSame | ⟨next, queries, hAdvance, hNext⟩
  · exact ⟨phase, hSame, hLoaded, contacted, clock, hOutcome⟩
  · refine ⟨next, hNext, advance_loaded hAdvance, contacted ++ phase.turn, e.1, fun now hTime => ?_⟩
    rw [hOutcome now (by simp [advance_not_done hAdvance]), outcome_advance hAdvance hTime]
    simp [Outcome.afterAll]

/-- A call that begins comes to what the loop over its servers comes to. -/
theorem follows_begin {s : State} {script : List Attempt} {phase : Phase} {i : Nat}
    (hBegin : begin s.servers script = some phase) (hCall : s.calls[i]? = some ⟨query, phase⟩) :
    Follows wire policy query (s.servers.zip script) i s := by
  unfold begin at hBegin
  split at hBegin
  case isTrue hEmpty =>
    obtain rfl := Option.some.inj hBegin
    exact ⟨_, hCall, rfl, [], 0, by simp [hEmpty, resolve, Phase.outcome, Outcome.afterAll]⟩
  case isFalse hSome =>
    split at hBegin
    case isTrue hLength =>
      obtain rfl := Option.some.inj hBegin
      have hZip : s.servers.zip script ≠ [] := by
        rw [Ne, List.zip_eq_nil_iff, not_or]
        refine ⟨hSome, fun hNil => hSome (List.length_eq_zero_iff.mp ?_)⟩
        rw [← hLength, hNil, List.length_nil]
      refine ⟨_, hCall, rfl, [], 0, fun now _ => ?_⟩
      rw [resolve, if_neg hZip]
      rfl
    case isFalse => simp at hBegin

/-- Whatever the calls do in between, a call that ends returns what the loop
returns for the servers it has loaded. -/
theorem resolve_of_run {s s₁ t : State} {clock : UnixTime} {i : Nat} {script : List Attempt}
    {es : List (UnixTime × Event)} {result : Except ResolveError CachedResponse}
    (hCall : s.calls[i]? = some ⟨query, .granted⟩)
    (hLoad : timedStep wire policy s (clock, .load i script) = some s₁)
    (hRun : Machine.run (timedStep wire policy) s₁ es = some t)
    (hEnd : t.calls[i]? = some ⟨query, .done result⟩) :
    ∃ now, (resolve wire policy now query (s.servers.zip script)).result = some result := by
  have hStart : Follows wire policy query (s.servers.zip script) i s₁ := by
    cases step_cases hLoad with
    | @load _ other _ phase hGranted hBegin =>
        obtain ⟨rfl, -⟩ := Call.mk.inj (Option.some.inj (hCall.symm.trans hGranted))
        obtain ⟨hLt, -⟩ := List.getElem?_eq_some_iff.mp hCall
        exact follows_begin (s := setPhase s i _ phase) hBegin (List.getElem?_set_self hLt)
  obtain ⟨phase, hPhase, -, contacted, now, hOutcome⟩ :=
    Machine.run_invariant (fun _ _ _ => follows_step) hStart hRun
  obtain ⟨-, rfl⟩ := Call.mk.inj (Option.some.inj (hPhase.symm.trans hEnd))
  exact ⟨now, by rw [hOutcome now fun _ => rfl]; rfl⟩

end Upstream

end RustDns
