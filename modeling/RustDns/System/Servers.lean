import RustDns.Server.Permits
import RustDns.System.InForce
import RustDns.Upstream.Failover

/-! Servers that are posted are in use from the moment they are set: every call
that loads its servers after it goes through them, in the order posted. -/
namespace RustDns

namespace Upstream

variable {wire : Wire} {policy : TtlPolicy} {servers : List SocketAddr}
  {scripts : List Attempt → Prop} {i : Nat} {s s' : State}

/-- The servers a call may still turn to. -/
def Phase.ahead : Phase → List (SocketAddr × Attempt)
  | .trying todo _ | .awaitUdp _ todo | .connecting _ todo | .awaitTcp _ todo => todo
  | .queued | .permitted | .granted | .done _ => []

/-- Once the call has loaded its servers they are these, and they behave as one
of the scripts says. -/
def Uses (wire : Wire) (policy : TtlPolicy) (servers : List SocketAddr) (scripts : List Attempt → Prop)
    (i : Nat) (s : State) : Prop :=
  ∀ query phase, s.calls[i]? = some ⟨query, phase⟩ → phase.loaded = true →
    ∃ script, scripts script ∧ script.length = servers.length ∧ phase.ahead <:+ servers.zip script ∧
      Follows wire policy query (servers.zip script) i s

/-- Only a call that has loaded its servers goes on. -/
theorem loaded_of_advance {now : UnixTime} {query : Bytes} {phase : Phase} {next : Phase × Nat}
    (hStep : advance wire policy now query phase = some next) : phase.loaded = true := by
  cases phase <;> first | rfl | simp [advance] at hStep

/-- A call goes on to the servers it has ahead of it. -/
theorem ahead_of_advance {now : UnixTime} {query : Bytes} {phase next : Phase} {queries : Nat}
    (hStep : advance wire policy now query phase = some (next, queries)) :
    next.ahead <:+ phase.ahead := by
  cases advance_cases hStep with
  | exhausted lastErr => exact List.suffix_rfl
  | skip server todo lastErr | send server reply todo lastErr => exact List.suffix_cons ..
  | timeout todo | retry tcp todo hTruncated | refused todo | connect stream todo | broken todo hFrame =>
      exact List.suffix_rfl
  | datagram tcp hWhole hSettle | frame hFrame hSettle =>
      rcases settle_cases hSettle with ⟨value, rfl⟩ | rfl
      · exact List.nil_suffix
      · exact List.suffix_rfl

/-- A call has its servers from before the step, or the step is its load. -/
theorem loaded_cases {now : UnixTime} {e : Event} {query : Bytes} {phase : Phase}
    (hStep : step wire policy now s e = some s') (hCall : s'.calls[i]? = some ⟨query, phase⟩)
    (hLoaded : phase.loaded = true) :
    (∃ old, s.calls[i]? = some ⟨query, old⟩ ∧ old.loaded = true ∧ phase.ahead <:+ old.ahead) ∨
      ∃ script, e = .load i script ∧ begin s.servers script = some phase ∧ s'.servers = s.servers := by
  -- a call moved on by another step keeps its query
  have hMoved : ∀ {j : Nat} {call : Call} {next : Phase}, s.calls[j]? = some call →
      (s.calls.set j { call with phase := next })[i]? = some ⟨query, phase⟩ →
        (i = j ∧ call.query = query ∧ next = phase) ∨ s.calls[i]? = some ⟨query, phase⟩ := by
    intro j call next _ hSet
    rcases Indexed.getElem?_set_cases hSet with ⟨hIndex, hSame⟩ | ⟨-, hOld⟩
    · obtain ⟨hQuery, hPhase⟩ := Call.mk.inj hSame
      exact Or.inl ⟨hIndex, hQuery.symm, hPhase.symm⟩
    · exact Or.inr hOld
  cases step_cases hStep with
  | setServers servers => exact Or.inl ⟨phase, hCall, hLoaded, List.suffix_rfl⟩
  | resolve other =>
      rw [List.getElem?_append] at hCall
      split at hCall
      · exact Or.inl ⟨phase, hCall, hLoaded, List.suffix_rfl⟩
      · obtain ⟨_, hSame⟩ := List.getElem?_eq_some_iff.mp hCall
        simp only [List.getElem_singleton, Call.mk.injEq] at hSame
        rw [← hSame.2] at hLoaded
        exact absurd hLoaded Bool.false_ne_true
  | acquire hj | untilReady hj =>
      rcases hMoved hj hCall with ⟨-, -, rfl⟩ | hOld
      · exact absurd hLoaded Bool.false_ne_true
      · exact Or.inl ⟨phase, hOld, hLoaded, List.suffix_rfl⟩
  | @load j other script next hj hBegin =>
      rcases hMoved hj hCall with ⟨rfl, -, rfl⟩ | hOld
      · exact Or.inr ⟨script, rfl, hBegin, rfl⟩
      · exact Or.inl ⟨phase, hOld, hLoaded, List.suffix_rfl⟩
  | @progress j call next queries hj hAdvance =>
      rcases hMoved hj hCall with ⟨rfl, rfl, rfl⟩ | hOld
      · exact Or.inl ⟨call.phase, hj, loaded_of_advance hAdvance, ahead_of_advance hAdvance⟩
      · exact Or.inl ⟨phase, hOld, hLoaded, List.suffix_rfl⟩

/-- A step leaves the call on the servers it has loaded. -/
theorem uses_step {e : UnixTime × Event} (hSome : servers ≠ []) (hServers : s.servers = servers)
    (hUses : Uses wire policy servers scripts i s) (hScript : ∀ script, e.2 = .load i script → scripts script)
    (hStep : timedStep wire policy s e = some s') : Uses wire policy servers scripts i s' := by
  intro query phase hCall hLoaded
  rcases loaded_cases hStep hCall hLoaded with
    ⟨old, hOld, hOldLoaded, hAhead⟩ | ⟨script, hLoad, hBegin, hSame⟩
  · obtain ⟨script, hKnown, hLength, hSuffix, hFollows⟩ := hUses query old hOld hOldLoaded
    exact ⟨script, hKnown, hLength, hAhead.trans hSuffix, follows_step hFollows hStep⟩
  · rw [hServers] at hBegin hSame
    have hFollows : Follows wire policy query (s'.servers.zip script) i s' :=
      follows_begin (by rw [hSame]; exact hBegin) hCall
    rw [hSame] at hFollows
    rcases begin_cases hBegin with ⟨hNone, -⟩ | ⟨-, hLength, rfl⟩
    · exact absurd hNone hSome
    · exact ⟨script, hScript script hLoad, hLength, List.suffix_rfl, hFollows⟩

/-- Servers that there are come with what they do. -/
theorem zip_ne_nil {script : List Attempt} (hSome : servers ≠ [])
    (hLength : script.length = servers.length) : servers.zip script ≠ [] := by
  rw [Ne, List.zip_eq_nil_iff, not_or]
  refine ⟨hSome, fun hNil => hSome (List.length_eq_zero_iff.mp ?_)⟩
  rw [← hLength, hNil, List.length_nil]

/-- What a call returns that has gone through the servers. -/
def Picked (wire : Wire) (query : Bytes) (servers : List (SocketAddr × Attempt))
    (result : Except ResolveError CachedResponse) : Prop :=
  (NoneValid wire query servers ∧ ∃ e, result = .error e) ∨
    ∃ n reply value, FirstValid wire query servers n reply ∧ value.wire = reply ∧ result = .ok value

/-- A call that has gone through its servers returns the first accepted reply,
or an error where there is none. -/
theorem Follows.picked {query : Bytes} {servers : List (SocketAddr × Attempt)}
    {result : Except ResolveError CachedResponse} (hFollows : Follows wire policy query servers i s)
    (hSome : servers ≠ []) (hCall : s.calls[i]? = some ⟨query, .done result⟩) :
    Picked wire query servers result := by
  obtain ⟨phase, hPhase, -, contacted, now, hOutcome⟩ := hFollows
  obtain ⟨-, rfl⟩ := Call.mk.inj (Option.some.inj (hPhase.symm.trans hCall))
  have hResult : (resolve wire policy now query servers).result = some result := by
    rw [hOutcome now fun _ => rfl]
    rfl
  rw [resolve, if_neg hSome] at hResult
  have hEnds : Ends wire policy now query servers
      (resolveLoop wire policy now query servers .unreachable) :=
    resolveLoop_ends policy now servers .unreachable
  rcases hEnds with ⟨hNone, e, hEnd⟩ | ⟨n, reply, hFirst, hEnd⟩
  · rw [hEnd] at hResult
    exact Or.inl ⟨hNone, e, (Option.some.inj hResult).symm⟩
  · rw [hEnd] at hResult
    obtain ⟨value, hCached, hOk⟩ := Option.map_eq_some_iff.mp hResult
    exact Or.inr ⟨n, reply, value, hFirst, (toCached_spec hCached).1, hOk.symm⟩

end Upstream

namespace Server

variable {env : Env} {servers : List SocketAddr} {scripts : List Upstream.Attempt → Prop} {i : Nat}
  {s s' : State env} {e : Event}

/-- The event leaves the process alive and the servers as they are, and has the
call load them with one of the scripts, if at all. -/
def Event.KeepsServers (servers : List SocketAddr) (scripts : List Upstream.Attempt → Prop) (i : Nat) :
    Event → Prop
  | .upstream (.setServers servers') => servers' = servers
  | .upstream (.load j script) => j = i → scripts script
  | .restart _ _ _ => False
  | _ => True

/-- The servers in use, also by the call once it has loaded them. -/
structure UsesServers (servers : List SocketAddr) (scripts : List Upstream.Attempt → Prop) (i : Nat)
    (s : State env) : Prop where
  live : s.upstream.servers = servers
  call : Upstream.Uses env.wire s.policy servers scripts i s.upstream

/-- A step of the upstream under the condition. -/
theorem UsesServers.next {clock : UnixTime} {e : Upstream.Event} (hSome : servers ≠ [])
    (hUses : UsesServers servers scripts i s) (hPolicy : s'.policy = s.policy)
    (hKeeps : Event.KeepsServers servers scripts i (.upstream e))
    (hStep : Upstream.step env.wire s.policy clock s.upstream e = some s'.upstream) :
    UsesServers servers scripts i s' where
  live := by
    cases e with
    | setServers servers' =>
        rw [← Option.some.inj hStep]
        exact hKeeps
    | _ => exact (System.servers_of_upstream (by simp) hStep).trans hUses.live
  call := by
    rw [hPolicy]
    refine Upstream.uses_step (e := (clock, e)) hSome hUses.live hUses.call (fun script hLoad => ?_) hStep
    obtain rfl : e = .load i script := hLoad
    exact hKeeps rfl

/-- A step leaves the servers in use, also for the call. -/
theorem usesServers_step (hSome : servers ≠ []) (hUses : UsesServers servers scripts i s)
    (hKeeps : e.KeepsServers servers scripts i) (hStep : step s e = some s') :
    UsesServers servers scripts i s' := by
  have hAlive : e.restarts = false := by
    cases e <;> first | rfl | exact hKeeps.elim
  have hKept : s'.policy = s.policy → s'.upstream = s.upstream → UsesServers servers scripts i s' := by
    intro hPolicy hSame
    refine ⟨hSame ▸ hUses.live, ?_⟩
    rw [hPolicy, hSame]
    exact hUses.call
  obtain ⟨hPolicy, ⟨-, hSame⟩ | ⟨h, hd, r, -, -, rfl⟩ | ⟨e', rfl, hForward⟩⟩ :=
    flights_of_step hAlive hStep
  · exact hKept hPolicy hSame
  · rcases join_cases h hd r with ⟨-, hSame⟩ | ⟨-, hQueued, -⟩
    · exact hKept hPolicy hSame
    · have hResolve : Upstream.step env.wire s.policy s.cache.clock s.upstream (.resolve r.data) =
          some (join s h hd r).upstream := congrArg some hQueued.symm
      have hFree : Event.KeepsServers servers scripts i (.upstream (.resolve r.data)) := trivial
      exact hUses.next hSome hPolicy hFree hResolve
  · exact hUses.next hSome hPolicy hKeeps (forward_upstream hForward).1

end Server

namespace System

variable {env : Env} {toml : Admin.Toml} {configPath : Admin.Path} {s s' : State env}

/-- No other servers are set, and the process lives on. -/
def KeepsServers (s : State env) : Event → Prop
  | .admin (.setServers i) => ∀ cfg path text, s.requests i ≠ .renamed ⟨.config cfg, path, text⟩
  | .restart _ _ => False
  | _ => True

/-- The event has the call load its servers. -/
def Event.Loads (k : Nat) (script : List Upstream.Attempt) (e : Event) : Prop :=
  e = .dns (.upstream (.load k script))

/-- As long as no settings are stored the server keeps the servers it has. -/
theorem Seen.keepsServers {e : Event} {ds : List Server.Event} {scripts : List Upstream.Attempt → Prop}
    {k : Nat} (hSeen : Seen s s' e ds) (hKeeps : KeepsServers s e)
    (hScript : ∀ script, e.Loads k script → scripts script) (servers : List SocketAddr) :
    ∀ d ∈ ds, d.KeepsServers servers scripts k := by
  intro d hMem
  cases hSeen with
  | @dns e hInternal =>
      obtain rfl := List.mem_singleton.mp hMem
      cases d with
      | upstream e =>
          cases e with
          | setServers servers' => simp [Server.Event.external] at hInternal
          | load j script =>
              rintro rfl
              exact hScript script rfl
          | _ => trivial
      | restart cfg list loaded => simp [Server.Event.external] at hInternal
      | _ => trivial
  | admin e =>
      unfold apiEvents at hMem
      split at hMem
      · split at hMem
        · exact absurd ‹_› (hKeeps _ _ _)
        · simp at hMem
      · split at hMem
        · obtain rfl := List.mem_singleton.mp hMem
          trivial
        · obtain rfl := List.mem_singleton.mp hMem
          trivial
        · simp at hMem
      · simp at hMem
  | restart token loaded => exact hKeeps.elim

/-- The servers of an update are those of its body. -/
theorem upstreamAddrs_of_apply {body : Admin.ConfigUpdate} {cfg cfg' : Config}
    (hApply : body.apply cfg = .ok cfg') :
    body.servers.map SocketAddr.parse = cfg'.upstreamAddrs.map some := by
  obtain ⟨⟨-, hParse, -⟩, ipv4, ipv6, -, -, rfl⟩ := Admin.ConfigUpdate.apply_ok_iff.mp hApply
  simp only [Config.upstreamAddrs]
  generalize body.servers = texts at hParse
  induction texts with
  | nil => rfl
  | cons text rest ih =>
      obtain ⟨addr, hAddr⟩ := Option.isSome_iff_exists.mp (hParse text List.mem_cons_self)
      rw [List.map_cons, List.filterMap_cons_some hAddr, List.map_cons, hAddr,
        ih fun other hMem => hParse other (List.mem_cons_of_mem text hMem)]

section

variable {s₁ s₂ live : State env} {between rest : List Event} {i k : Nat}

/-- Servers are in use from the moment their request sets them, whether or not
it is ever answered. Until others are set, a call that loads its servers has
ahead of it only those posted, in their order, and returns the first reply among
theirs that it can accept, or an error if there is none. -/
theorem posted_servers_in_force {body : Admin.ConfigUpdate} {query : Bytes} {phase : Upstream.Phase}
    (hPost : Machine.run (step toml configPath) s₁
      (.admin (.post i (.config body)) :: between) = some s₂)
    (hAlive : ∀ e ∈ between, e.restarts = false)
    (hSet : step toml configPath s₂ (.admin (.setServers i)) = some live)
    (hRest : Machine.run (step toml configPath) live rest = some s)
    (hKeeps : Machine.Along (step toml configPath) KeepsServers live rest)
    (hNew : ∀ call, live.server.upstream.calls[k]? = some call → call.phase.loaded = false)
    (hCall : s.server.upstream.calls[k]? = some ⟨query, phase⟩) (hLoaded : phase.loaded = true) :
    ∃ (servers : List SocketAddr) (script : List Upstream.Attempt),
      body.servers.map SocketAddr.parse = servers.map some ∧
      Event.dns (.upstream (.load k script)) ∈ rest ∧ script.length = servers.length ∧
      phase.ahead <:+ servers.zip script ∧
      ∀ result, phase = .done result → Upstream.Picked env.wire query (servers.zip script) result := by
  -- what the request sets is what its body says
  have hAsks := asks_run hAlive hPost
  obtain ⟨a, hAdmin, rfl⟩ := Option.map_eq_some_iff.mp hSet
  cases Admin.step_cases hAdmin with
  | @setServers _ cfg path text hPhase =>
      rw [show s₂.requests i = _ from hPhase] at hAsks
      obtain ⟨before, hApply⟩ : ∃ before, body.apply before = .ok cfg := hAsks
      have hSome := Admin.upstreamAddrs_apply hApply
      -- the scripts of the call are those of its loads
      have hEvents : Machine.Along (step toml configPath)
          (fun s e => KeepsServers s e ∧ ∀ script, e.Loads k script → e ∈ rest) _ rest :=
        hKeeps.and (Machine.along_of_mem (fun e hMem _ _ _ => hMem) _)
      obtain ⟨ds, hServer, hKept⟩ := server_rest
        (Q := Server.Event.KeepsServers cfg.upstreamAddrs
          (fun script => Event.dns (.upstream (.load k script)) ∈ rest) k)
        (fun _ e _ _ hCond hSeen => hSeen.keepsServers hCond.1
          (fun script hLoad => hLoad ▸ hCond.2 script hLoad) cfg.upstreamAddrs) hEvents hRest
      have hStart : Server.UsesServers cfg.upstreamAddrs
          (fun script => Event.dns (.upstream (.load k script)) ∈ rest) k
          (s₂.withAdmin
            { Admin.setPhase s₂.admin i (.serversSet ⟨.config cfg, path, text⟩) with
              servers := cfg.upstreamAddrs }).server := by
        refine ⟨rfl, fun query phase hAt hLoaded => ?_⟩
        rw [hNew _ hAt] at hLoaded
        exact absurd hLoaded Bool.false_ne_true
      have hUses := Machine.run_invariant_along
        (fun _ _ _ hInv hEvent hStep => Server.usesServers_step hSome hInv hEvent hStep) hStart
        (Machine.along_of_mem (fun d hMem _ => hKept d hMem) _) hServer
      obtain ⟨script, hLoad, hLength, hAhead, hFollows⟩ := hUses.call query phase hCall hLoaded
      refine ⟨_, script, upstreamAddrs_of_apply hApply, hLoad, hLength, hAhead, ?_⟩
      rintro result rfl
      exact hFollows.picked (Upstream.zip_ne_nil hSome hLength) hCall

/-- A query of the sample name that one server is asked for. -/
def askOne : List Event :=
  [.dns (.arrive (Exchange.query 1)), .dns (.parse 0), .dns (.check 0), .dns (.lookup 0),
    .dns (.join 0), .dns (.upstream (.acquire 0)), .dns (.upstream (.untilReady 0)),
    .dns (.upstream (.load 0 [.sent (some (Exchange.reply 1, .unsent))])),
    .dns (.upstream (.progress 0)), .dns (.upstream (.progress 0))]

/-- A client asks after a server has been posted, and its call goes to that
server. -/
theorem posted_servers_in_force_askOne :
    ∃ (s₂ live s : State Server.sampleEnv) (query : Bytes) (phase : Upstream.Phase)
      (servers : List SocketAddr) (script : List Upstream.Attempt),
      Machine.run (step Admin.sampleToml Admin.samplePath) (startedWith "b".toList)
        (.admin (.post 0 (Admin.sampleBody "8.8.8.8:53")) :: saveList) = some s₂ ∧
      step Admin.sampleToml Admin.samplePath s₂ (.admin (.setServers 0)) = some live ∧
      Machine.run (step Admin.sampleToml Admin.samplePath) live askOne = some s ∧
      s.server.upstream.calls[0]? = some ⟨query, phase⟩ ∧ phase.isDone = true ∧
      ["8.8.8.8:53".toList].map SocketAddr.parse = servers.map some ∧
      ∀ result, phase = .done result →
        Upstream.Picked Server.sampleEnv.wire query (servers.zip script) result := by
  have hEval : ((Machine.run (step Admin.sampleToml Admin.samplePath) (startedWith "b".toList)
      (.admin (.post 0 (Admin.sampleBody "8.8.8.8:53")) :: saveList)).bind fun s₂ =>
      (step Admin.sampleToml Admin.samplePath s₂ (.admin (.setServers 0))).bind fun live =>
      (Machine.run (step Admin.sampleToml Admin.samplePath) live askOne).bind fun s =>
        s.server.upstream.calls[0]?.map fun call =>
          (live.server.upstream.calls.isEmpty, call.phase.loaded, call.phase.isDone)) =
            some (true, true, true) := by
    decide +kernel
  obtain ⟨s₂, hPost, hEval⟩ := Option.bind_eq_some_iff.mp hEval
  obtain ⟨live, hSet, hEval⟩ := Option.bind_eq_some_iff.mp hEval
  obtain ⟨s, hRest, hEval⟩ := Option.bind_eq_some_iff.mp hEval
  obtain ⟨⟨query, phase⟩, hCall, hTriple⟩ := Option.map_eq_some_iff.mp hEval
  simp only [Prod.mk.injEq] at hTriple
  obtain ⟨hNone, hLoaded, hDone⟩ := hTriple
  have hAlive : ∀ e ∈ saveList, e.restarts = false := by simp [saveList, Event.restarts]
  have hKeeps : Machine.Along (step Admin.sampleToml Admin.samplePath) KeepsServers live askOne :=
    Machine.along_of_mem (by simp [askOne, KeepsServers]) live
  have hNew : ∀ call, live.server.upstream.calls[0]? = some call → call.phase.loaded = false := by
    simp [List.isEmpty_iff.mp hNone]
  obtain ⟨servers, script, hServers, -, -, -, hPicked⟩ :=
    posted_servers_in_force hPost hAlive hSet hRest hKeeps hNew hCall hLoaded
  have hTexts : ["8.8.8.8:53".toList].map SocketAddr.parse = servers.map some := by
    refine Eq.trans ?_ hServers
    decide +kernel
  exact ⟨s₂, live, s, query, phase, servers, script, hPost, hSet, hRest, hCall, hDone, hTexts, hPicked⟩

end

end System

end RustDns
