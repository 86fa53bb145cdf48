import RustDns.Library.Run
import RustDns.System.Machine

/-! An update is in force once it is answered: every query that comes after it
is judged by the list it posted and answered with the settings it posted. -/
namespace RustDns

namespace Admin

/-- The update that a body asks for. -/
def Update.Of : Body → Update → Prop
  | .blocklist text, .list live => live = Blocklist.fromText text
  | .config body, .config cfg => ∃ before, body.apply before = .ok cfg
  | _, _ => False

/-- The request has been posted with the body, and has nothing else in hand. -/
def Phase.Asks (body : Body) : Phase → Prop
  | .idle => False
  | .posted asked => asked = body
  | .prepared job | .written job | .renamed job | .serversSet job => job.update.Of body
  | .returned none => True
  | .returned (some update) => update.Of body

variable {toml : Toml} {configPath : Path} {s s' : State} {body : Body} {i : Nat}

/-- An update that has been prepared is what the body asks for. -/
theorem prepare_of {job : Job} (hJob : prepare toml configPath s body = some job) :
    job.update.Of body := by
  rcases prepare_cases hJob with ⟨text, list, rfl, rfl, rfl⟩ | ⟨update, cfg, text, rfl, hApply, -, rfl⟩
  · rfl
  · exact ⟨s.config, hApply⟩

/-- A request asks for its body as long as its phases do. -/
theorem asks_update {j : Nat} {requests : Nat → Phase} {phase : Phase}
    (hAsks : (requests i).Asks body) (hNext : (requests j).Asks body → phase.Asks body) :
    (Function.update requests j phase i).Asks body := by
  by_cases hSame : i = j
  · subst hSame
    rw [Function.update_self]
    exact hNext hAsks
  · rwa [Function.update_of_ne hSame]

/-- A request does what it was asked. -/
theorem asks_step {e : Event} (hAsks : (s.requests i).Asks body)
    (hStep : step toml configPath s e = some s') : (s'.requests i).Asks body := by
  cases step_cases hStep with
  | post posted hPhase =>
      refine asks_update hAsks fun hOld => ?_
      rw [hPhase] at hOld
      exact hOld.elim
  | refuse hPhase => exact asks_update hAsks fun _ => trivial
  | load hPhase hJob =>
      refine asks_update hAsks fun hOld => ?_
      rw [hPhase] at hOld
      have hUpdate := prepare_of hJob
      rwa [hOld] at hUpdate
  | failTemp left hPhase => exact asks_update hAsks fun _ => trivial
  | renameMissing hPhase => exact asks_update hAsks fun _ => trivial
  | failRename hPhase => exact asks_update hAsks fun _ => trivial
  | writeTemp hPhase | rename hPhase hText | setServers hPhase | storeList hPhase | storeConfig hPhase =>
      refine asks_update hAsks fun hOld => ?_
      rw [hPhase] at hOld
      exact hOld

/-- A request stores what it was asked to store. -/
theorem store_of_asks (hAsks : (s.requests i).Asks body)
    (hStep : step toml configPath s (.store i) = some s') :
    (Update.list s'.blocklist).Of body ∨ (Update.config s'.config).Of body := by
  cases step_cases hStep with
  | storeList hPhase =>
      rw [hPhase] at hAsks
      exact Or.inl hAsks
  | storeConfig hPhase =>
      rw [hPhase] at hAsks
      exact Or.inr hAsks

end Admin

namespace System

variable {env : Env} {toml : Admin.Toml} {configPath : Admin.Path} {s s' : State env}

/-- What the server sees of a step of the API: the two moments a request
changes what is live. -/
def apiEvents (a : Admin.State) : Admin.Event → List Server.Event
  | .setServers i =>
      match a.requests i with
      | .renamed ⟨.config cfg, _, _⟩ => [.upstream (.setServers cfg.upstreamAddrs)]
      | _ => []
  | .store i =>
      match a.requests i with
      | .renamed ⟨.list list, _, _⟩ => [.setBlocklist list]
      | .serversSet ⟨.config cfg, _, _⟩ => [.setConfig cfg]
      | _ => []
  | _ => []

/-- A step of the API is none, one or several of the server. -/
theorem server_of_admin {e : Admin.Event} {a : Admin.State}
    (hAdmin : Admin.step toml configPath s.admin e = some a) :
    Machine.run Server.step s.server (apiEvents s.admin e) = some (s.withAdmin a).server := by
  cases Admin.step_cases hAdmin with
  | setServers hPhase =>
      simp only [apiEvents, hPhase]
      rfl
  | storeList hPhase | storeConfig hPhase =>
      simp only [apiEvents, hPhase]
      rfl
  | _ => rfl

/-- What the server sees of a step of the process. -/
inductive Seen (s s' : State env) : Event → List Server.Event → Prop where
  | dns {e : Server.Event} (hInternal : e.external = false) : Seen s s' (.dns e) [e]
  | admin (e : Admin.Event) : Seen s s' (.admin e) (apiEvents s.admin e)
  | restart (token : Admin.Token) (loaded : Bool) :
      Seen s s' (.restart token loaded) [.restart s'.server.config s'.server.blocklist loaded]

/-- The server of the process takes a step of the server's, or one for each
change by the API. -/
theorem server_of_step {e : Event} (hStep : step toml configPath s e = some s') :
    ∃ ds, Machine.run Server.step s.server ds = some s'.server ∧ Seen s s' e ds := by
  cases step_cases hStep with
  | dns hInternal hServer => exact ⟨_, by simp [Machine.run, hServer], .dns hInternal⟩
  | admin hAdmin => exact ⟨_, server_of_admin hAdmin, .admin _⟩
  | restart hRestart =>
      obtain ⟨a, -, -, -, rfl⟩ := start_eq_some_iff.mp hRestart
      exact ⟨_, rfl, .restart _ _⟩

/-- The server of the process is reached by a run of the server. -/
theorem server_run {now : UnixTime} {token : Admin.Token} {disk : Admin.Disk} {s₀ : State env}
    {es : List Event} (hInit : init toml configPath now token disk = some s₀)
    (hRun : Machine.run (step toml configPath) s₀ es = some s) :
    ∃ cfg list ds, Machine.run Server.step (Server.init now cfg list) ds = some s.server := by
  obtain ⟨a, -, -, -, rfl⟩ := start_eq_some_iff.mp hInit
  have hStep : ∀ (s : State env) e s', True → True → step toml configPath s e = some s' →
      True ∧ ∃ ds, Machine.run Server.step s.server ds = some s'.server ∧ ∀ d ∈ ds, True := by
    intro s e s' _ _ hStep
    obtain ⟨ds, hSeen, -⟩ := server_of_step hStep
    exact ⟨trivial, ds, hSeen, fun _ _ => trivial⟩
  obtain ⟨-, ds, hServer, -⟩ := Machine.run_refines hStep trivial
    (Machine.along_of_mem (fun _ _ _ => trivial) _) hRun
  exact ⟨a.config, a.blocklist, ds, hServer⟩

/-- No other list is stored, and the process lives on. -/
def KeepsList (s : State env) : Event → Prop
  | .admin (.store i) => ∀ list path text, s.requests i ≠ .renamed ⟨.list list, path, text⟩
  | .restart _ _ => False
  | _ => True

/-- No other settings are stored, and the process lives on. -/
def KeepsSettings (s : State env) : Event → Prop
  | .admin (.store i) => ∀ job, s.requests i ≠ .serversSet job
  | .restart _ _ => False
  | _ => True

/-- The server's own events keep the list. -/
theorem keepsList_of_internal {e : Server.Event} (hInternal : e.external = false) (list : Blocklist) :
    e.KeepsList list := by
  cases e <;> trivial

/-- The server's own events keep the DNS settings. -/
theorem keepsDns_of_internal {e : Server.Event} (hInternal : e.external = false) (dns : DnsConfig) :
    e.KeepsDns dns := by
  cases e <;> trivial

/-- As long as no list is stored the server keeps the one it has. -/
theorem Seen.keepsList {e : Event} {ds : List Server.Event} (hSeen : Seen s s' e ds)
    (hKeeps : KeepsList s e) (list : Blocklist) : ∀ d ∈ ds, d.KeepsList list := by
  intro d hMem
  cases hSeen with
  | dns hInternal =>
      obtain rfl := List.mem_singleton.mp hMem
      exact keepsList_of_internal hInternal list
  | admin e =>
      unfold apiEvents at hMem
      split at hMem
      · split at hMem
        · obtain rfl := List.mem_singleton.mp hMem
          trivial
        · simp at hMem
      · split at hMem
        · exact absurd ‹_› (hKeeps _ _ _)
        · obtain rfl := List.mem_singleton.mp hMem
          trivial
        · simp at hMem
      · simp at hMem
  | restart token loaded => exact hKeeps.elim

/-- As long as no settings are stored the server keeps those it has. -/
theorem Seen.keepsDns {e : Event} {ds : List Server.Event} (hSeen : Seen s s' e ds)
    (hKeeps : KeepsSettings s e) (dns : DnsConfig) : ∀ d ∈ ds, d.KeepsDns dns := by
  intro d hMem
  cases hSeen with
  | dns hInternal =>
      obtain rfl := List.mem_singleton.mp hMem
      exact keepsDns_of_internal hInternal dns
  | admin e =>
      unfold apiEvents at hMem
      split at hMem
      · split at hMem
        · obtain rfl := List.mem_singleton.mp hMem
          trivial
        · simp at hMem
      · split at hMem
        · obtain rfl := List.mem_singleton.mp hMem
          trivial
        · exact absurd ‹_› (hKeeps _)
        · simp at hMem
      · simp at hMem
  | restart token loaded => exact hKeeps.elim

/-- A run under a condition, as the server sees it. -/
theorem server_rest {Cond : State env → Event → Prop} {Q : Server.Event → Prop} {rest : List Event}
    (hSeen : ∀ (s : State env) e s' ds, Cond s e → Seen s s' e ds → ∀ d ∈ ds, Q d)
    (hCond : Machine.Along (step toml configPath) Cond s rest)
    (hRest : Machine.run (step toml configPath) s rest = some s') :
    ∃ ds, Machine.run Server.step s.server ds = some s'.server ∧ ∀ d ∈ ds, Q d := by
  have hStep : ∀ (s : State env) e s', True → Cond s e → step toml configPath s e = some s' →
      True ∧ ∃ ds, Machine.run Server.step s.server ds = some s'.server ∧ ∀ d ∈ ds, Q d := by
    intro s e s' _ hHolds hStep
    obtain ⟨ds, hServer, hEvents⟩ := server_of_step hStep
    exact ⟨trivial, ds, hServer, hSeen s e s' ds hHolds hEvents⟩
  exact (Machine.run_refines hStep trivial hCond hRest).2

/-- A request posted in a process that lives on still asks for its update. -/
theorem asks_run {body : Admin.Body} {i : Nat} {between : List Event}
    (hAlive : ∀ e ∈ between, e.restarts = false)
    (hRun : Machine.run (step toml configPath) s (.admin (.post i body) :: between) = some s') :
    (s'.requests i).Asks body := by
  obtain ⟨posted, hPost, hBetween⟩ := Machine.run_cons hRun
  have hStart : (posted.requests i).Asks body := by
    obtain ⟨a, hAdmin, rfl⟩ := Option.map_eq_some_iff.mp hPost
    cases Admin.step_cases hAdmin with
    | post _ hPhase =>
        show Admin.Phase.Asks body (Function.update s.requests i (.posted body) i)
        rw [Function.update_self]
        exact rfl
  have hStep : ∀ (s : State env) e s', (s.requests i).Asks body → e.restarts = false →
      step toml configPath s e = some s' → (s'.requests i).Asks body := by
    intro s e s' hAsks hLives hStep
    rcases admin_of_step hLives hStep with hSame | ⟨e', -, hAdmin⟩
    · have hRequests : s'.requests = s.requests := congrArg Admin.State.requests hSame
      rwa [hRequests]
    · exact Admin.asks_step hAsks hAdmin
  exact Machine.run_invariant_along hStep hStart (Machine.along_of_mem (fun e hMem _ => hAlive e hMem) _)
    hBetween

section

variable {now : UnixTime} {token : Admin.Token} {disk : Admin.Disk} {s₀ s₁ s₂ live : State env}
  {past between rest : List Event} {i h : Nat} {hd : Server.Handler env} {r : Request env.wire}
  {a : Server.Answer}

/-- The state from which an update is in force, with the run that led there. -/
theorem stored_run {body : Admin.Body} (hInit : init toml configPath now token disk = some s₀)
    (hPast : Machine.run (step toml configPath) s₀ past = some s₁)
    (hPost : Machine.run (step toml configPath) s₁ (.admin (.post i body) :: between) = some s₂)
    (hAlive : ∀ e ∈ between, e.restarts = false)
    (hStore : step toml configPath s₂ (.admin (.store i)) = some live) :
    (∃ cfg list ds, Machine.run Server.step (Server.init now cfg list) ds = some live.server) ∧
      ((Admin.Update.list live.server.blocklist).Of body ∨
        (Admin.Update.config live.server.config).Of body) := by
  have hRun : Machine.run (step toml configPath) s₀
      (past ++ (.admin (.post i body) :: between) ++ [.admin (.store i)]) = some live :=
    Machine.run_concat.mpr ⟨s₂, Machine.run_append.mpr ⟨s₁, hPast, hPost⟩, hStore⟩
  obtain ⟨a, hAdmin, rfl⟩ := Option.map_eq_some_iff.mp hStore
  exact ⟨server_run hInit hRun, Admin.store_of_asks (s := s₂.admin) (asks_run hAlive hPost) hAdmin⟩

/-- A list is in force from the moment its request stores it: whatever else
happens at the same time, every query that arrives from then on, until another
list is stored, is answered by the sinkhole exactly when the text posted blocks
its name. -/
theorem posted_list_in_force {text : Str}
    (hInit : init toml configPath now token disk = some s₀)
    (hPast : Machine.run (step toml configPath) s₀ past = some s₁)
    (hPost : Machine.run (step toml configPath) s₁
      (.admin (.post i (.blocklist text)) :: between) = some s₂)
    (hAlive : ∀ e ∈ between, e.restarts = false)
    (hStore : step toml configPath s₂ (.admin (.store i)) = some live)
    (hRest : Machine.run (step toml configPath) live rest = some s)
    (hKeeps : Machine.Along (step toml configPath) KeepsList live rest)
    (hNew : live.server.handlers.length ≤ h) (hHandler : s.server.handlers[h]? = some hd)
    (hPhase : hd.phase = .answered r a) :
    a.action = .blocked ↔ (Blocklist.fromText text).isBlocked r.name = true := by
  obtain ⟨⟨cfg, list, ds, hServer⟩, hStored⟩ := stored_run hInit hPast hPost hAlive hStore
  obtain ⟨ds', hServer', hEvents⟩ :=
    server_rest (fun _ _ _ _ hCond hSeen => hSeen.keepsList hCond live.server.blocklist) hKeeps hRest
  have hList : live.server.blocklist = Blocklist.fromText text := hStored.resolve_right id
  rw [← hList]
  exact Server.list_in_force hServer hServer' hEvents hNew hHandler hPhase

/-- The sample files with another blocklist. -/
def diskWith (text : Str) : Admin.Disk :=
  Function.update Admin.sampleDisk "blocklist.txt".toList (some text)

/-- What a start from them leaves. -/
def startedWith (text : Str) : State Server.sampleEnv where
  server := Server.init 100 (Admin.sampleConfig "1.1.1.1:53".toList) (Blocklist.fromText text)
  disk := diskWith text
  requests := fun _ => .idle

/-- The process starts on the sample disk. -/
theorem init_startedWith (text : Str) :
    init Admin.sampleToml Admin.samplePath 100 Admin.sampleToken (diskWith text) =
      some (startedWith text) := by
  have hReads : Admin.Reads Admin.sampleToml Admin.samplePath (diskWith text)
      (Admin.sampleConfig "1.1.1.1:53".toList) := by
    refine ⟨Admin.sampleText "1.1.1.1:53".toList, ?_, Admin.sampleToml.roundTrip _ _ rfl⟩
    exact Function.update_of_ne (by decide +kernel) ..
  have hBuilt : (Admin.construct (Admin.sampleConfig "1.1.1.1:53".toList)).isSome := by
    decide +kernel
  have hAddr : (SocketAddr.parse (Admin.sampleConfig "1.1.1.1:53".toList).dns.bind).isSome := by
    decide +kernel
  exact start_eq_some_iff.mpr ⟨_, Admin.boot_of_reads Admin.sampleToken hReads (by decide)
    (Function.update_self ..), hBuilt, hAddr, rfl⟩

/-- The steps of a request from its post to its store. -/
def saveList : List Event := [.admin (.load 0), .admin (.writeTemp 0), .admin (.rename 0)]

def saveSettings : List Event := saveList ++ [.admin (.setServers 0)]

/-- A query of the sample name that the list in force answers. -/
def ask : List Event :=
  [.dns (.arrive (Exchange.query 1)), .dns (.parse 0), .dns (.check 0)]

/-- The list is replaced by one that blocks the name asked for. -/
theorem posted_list_in_force_ask :
    ∃ (s₂ live s : State Server.sampleEnv) (hd : Server.Handler Server.sampleEnv)
      (r : Request Server.sampleEnv.wire) (a : Server.Answer),
      Machine.run (step Admin.sampleToml Admin.samplePath) (startedWith "b".toList)
        (.admin (.post 0 (.blocklist "a".toList)) :: saveList) = some s₂ ∧
      step Admin.sampleToml Admin.samplePath s₂ (.admin (.store 0)) = some live ∧
      Machine.run (step Admin.sampleToml Admin.samplePath) live ask = some s ∧
      s.server.handlers[0]? = some hd ∧ hd.phase = .answered r a ∧ a.action = .blocked ∧
      (Blocklist.fromText "a".toList).isBlocked r.name = true := by
  have hEval : ((Machine.run (step Admin.sampleToml Admin.samplePath) (startedWith "b".toList)
      (.admin (.post 0 (.blocklist "a".toList)) :: saveList)).bind fun s₂ =>
      (step Admin.sampleToml Admin.samplePath s₂ (.admin (.store 0))).bind fun live =>
      (Machine.run (step Admin.sampleToml Admin.samplePath) live ask).map fun s =>
        (live.server.handlers.length, s.server.handlers[0]?.bind fun hd => hd.phase.outcome)) =
          some (0, some .blocked) := by
    decide +kernel
  obtain ⟨s₂, hPost, hEval⟩ := Option.bind_eq_some_iff.mp hEval
  obtain ⟨live, hStore, hEval⟩ := Option.bind_eq_some_iff.mp hEval
  obtain ⟨s, hRest, hPair⟩ := Option.map_eq_some_iff.mp hEval
  obtain ⟨hNone, hOutcome⟩ := Prod.mk.inj hPair
  obtain ⟨hd, hHandler, hAction⟩ := Option.bind_eq_some_iff.mp hOutcome
  obtain ⟨r, a, hPhase, hBlocked⟩ := Server.answered_of_outcome hAction
  have hAlive : ∀ e ∈ saveList, e.restarts = false := by simp [saveList, Event.restarts]
  have hKeeps : Machine.Along (step Admin.sampleToml Admin.samplePath) KeepsList live ask :=
    Machine.along_of_mem (by simp [ask, KeepsList]) live
  have hPast : Machine.run (step Admin.sampleToml Admin.samplePath) (startedWith "b".toList) [] =
      some (startedWith "b".toList) := rfl
  have hIff := posted_list_in_force (init_startedWith "b".toList) hPast hPost hAlive hStore hRest hKeeps
    (Nat.le_of_eq hNone) hHandler hPhase
  exact ⟨s₂, live, s, hd, r, a, hPost, hStore, hRest, hHandler, hPhase, hBlocked, hIff.mp hBlocked⟩

/-- Settings are in force from the moment their request stores them: every
query that arrives from then on, until others are stored, and that is blocked
is answered in the mode and with the addresses that were posted. -/
theorem posted_settings_in_force {body : Admin.ConfigUpdate}
    (hInit : init toml configPath now token disk = some s₀)
    (hPast : Machine.run (step toml configPath) s₀ past = some s₁)
    (hPost : Machine.run (step toml configPath) s₁
      (.admin (.post i (.config body)) :: between) = some s₂)
    (hAlive : ∀ e ∈ between, e.restarts = false)
    (hStore : step toml configPath s₂ (.admin (.store i)) = some live)
    (hRest : Machine.run (step toml configPath) live rest = some s)
    (hKeeps : Machine.Along (step toml configPath) KeepsSettings live rest)
    (hNew : live.server.handlers.length ≤ h) (hHandler : s.server.handlers[h]? = some hd)
    (hPhase : hd.phase = .answered r a) (hBlocked : a.action = .blocked) :
    ∃ dns : DnsConfig, dns.sinkholeMode = body.sinkholeMode ∧
      Ipv4Addr.parse body.sinkholeIpv4 = some dns.sinkholeIpv4 ∧
      Ipv6Addr.parse body.sinkholeIpv6 = some dns.sinkholeIpv6 ∧
      a.response = buildBlocked env.wire r.message r.query dns := by
  obtain ⟨⟨cfg, list, ds, hServer⟩, hStored⟩ := stored_run hInit hPast hPost hAlive hStore
  obtain ⟨ds', hServer', hEvents⟩ :=
    server_rest (fun _ _ _ _ hCond hSeen => hSeen.keepsDns hCond live.server.config.dns) hKeeps hRest
  obtain ⟨before, hApply⟩ := hStored.resolve_left id
  obtain ⟨-, ipv4, ipv6, hIpv4, hIpv6, hConfig⟩ := Admin.ConfigUpdate.apply_ok_iff.mp hApply
  have hResponse :=
    Server.settings_in_force hServer hServer' hEvents hNew hHandler hPhase hBlocked
  rw [hConfig] at hResponse
  exact ⟨_, rfl, hIpv4, hIpv6, hResponse⟩

/-- The settings are posted with another server, and a blocked name is asked
for. -/
theorem posted_settings_in_force_ask :
    ∃ (s₂ live s : State Server.sampleEnv) (hd : Server.Handler Server.sampleEnv)
      (r : Request Server.sampleEnv.wire) (a : Server.Answer) (dns : DnsConfig),
      Machine.run (step Admin.sampleToml Admin.samplePath) (startedWith "a".toList)
        (.admin (.post 0 (Admin.sampleBody "8.8.8.8:53")) :: saveSettings) = some s₂ ∧
      step Admin.sampleToml Admin.samplePath s₂ (.admin (.store 0)) = some live ∧
      Machine.run (step Admin.sampleToml Admin.samplePath) live ask = some s ∧
      s.server.handlers[0]? = some hd ∧ hd.phase = .answered r a ∧
      dns.sinkholeMode = "zero_ip".toList ∧
      a.response = buildBlocked Server.sampleEnv.wire r.message r.query dns := by
  have hEval : ((Machine.run (step Admin.sampleToml Admin.samplePath) (startedWith "a".toList)
      (.admin (.post 0 (Admin.sampleBody "8.8.8.8:53")) :: saveSettings)).bind fun s₂ =>
      (step Admin.sampleToml Admin.samplePath s₂ (.admin (.store 0))).bind fun live =>
      (Machine.run (step Admin.sampleToml Admin.samplePath) live ask).map fun s =>
        (live.server.handlers.length, s.server.handlers[0]?.bind fun hd => hd.phase.outcome)) =
          some (0, some .blocked) := by
    decide +kernel
  obtain ⟨s₂, hPost, hEval⟩ := Option.bind_eq_some_iff.mp hEval
  obtain ⟨live, hStore, hEval⟩ := Option.bind_eq_some_iff.mp hEval
  obtain ⟨s, hRest, hPair⟩ := Option.map_eq_some_iff.mp hEval
  obtain ⟨hNone, hOutcome⟩ := Prod.mk.inj hPair
  obtain ⟨hd, hHandler, hAction⟩ := Option.bind_eq_some_iff.mp hOutcome
  obtain ⟨r, a, hPhase, hBlocked⟩ := Server.answered_of_outcome hAction
  have hAlive : ∀ e ∈ saveSettings, e.restarts = false := by simp [saveSettings, saveList, Event.restarts]
  have hKeeps : Machine.Along (step Admin.sampleToml Admin.samplePath) KeepsSettings live ask :=
    Machine.along_of_mem (by simp [ask, KeepsSettings]) live
  have hPast : Machine.run (step Admin.sampleToml Admin.samplePath) (startedWith "a".toList) [] =
      some (startedWith "a".toList) := rfl
  obtain ⟨dns, hMode, -, -, hResponse⟩ :=
    posted_settings_in_force (init_startedWith "a".toList) hPast hPost hAlive hStore hRest hKeeps
      (Nat.le_of_eq hNone) hHandler hPhase hBlocked
  exact ⟨s₂, live, s, hd, r, a, dns, hPost, hStore, hRest, hHandler, hPhase, hMode, hResponse⟩

end

end System

end RustDns
