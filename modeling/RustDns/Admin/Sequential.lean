import RustDns.Admin.Restart

/-! Updates of the blocklist and the configuration that do not overlap: each of
them happens as a whole or not at all. -/
namespace RustDns

namespace Sequential

open Admin

/-- The last component of a path, if it is a name. -/
def fileName (path : Path) : Str :=
  ((dropTrailing path.reverse).reverse).rtakeWhile (· != '/')

/-- Nothing can be written to a path that ends with no name of a file. -/
def NamesFile (path : Path) : Prop :=
  ¬(fileName path = [] ∨ fileName path = ['.'] ∨ fileName path = ['.', '.'])

instance decidableNamesFile (path : Path) : Decidable (NamesFile path) :=
  inferInstanceAs (Decidable (¬_))

/-- A request, with no body when the one sent does not decode. -/
structure Request where
  body : Option Body
  saved : SaveResult

/-- What becomes of the file. -/
def attempt (s : State) (job : Job) (saved : SaveResult) : SaveResult :=
  if NamesFile job.path then saved else .failTemp (s.disk job.temp)

def savedEvents (i : Nat) (job : Job) : SaveResult → List Event
  | .done =>
      match job.update with
      | .list _ => [.writeTemp i, .rename i, .store i]
      | .config _ => [.writeTemp i, .rename i, .setServers i, .store i]
  | .failTemp left => [.failTemp i left]
  | .failRename => [.writeTemp i, .failRename i]

variable (toml : Toml) (configPath : Path)

/-- A request from its arrival to its answer, with nothing in between. -/
def Request.events (s : State) (i : Nat) (request : Request) : List Event :=
  match request.body with
  | none => []
  | some body =>
      .post i body :: .load i ::
        match prepare toml configPath s body with
        | none => []
        | some job => savedEvents i job (attempt s job request.saved)

def handle (s : State) (i : Nat) (request : Request) : Option State :=
  Machine.run (step toml configPath) s (request.events toml configPath s i)

/-- Requests one after the other, numbered as they come. -/
def handleAll (s : State) (i : Nat) : List Request → Option State
  | [] => some s
  | request :: rest =>
      (handle toml configPath s i request).bind fun s' => handleAll s' (i + 1) rest

/-- What a request stored, and nothing if it was answered with an error. -/
def answer (s : State) (i : Nat) : Option Update :=
  match s.requests i with
  | .returned result => result
  | _ => none

/-- The two files and the live state. -/
structure View where
  configFile : Option Str
  listFile : Option Str
  config : Config
  servers : List SocketAddr
  blocklist : Blocklist

def view (listPath : Path) (s : State) : View where
  configFile := s.disk configPath
  listFile := s.disk listPath
  config := s.config
  servers := s.servers
  blocklist := s.blocklist

/-- The servers are what the configuration says, and there are some. -/
structure Parsed (cfg : Config) (servers : List SocketAddr) : Prop where
  nonempty : servers ≠ []
  all : servers.map some = cfg.upstream.servers.map SocketAddr.parse

/-- A configuration that differs in what an update names. -/
def Framed (cfg cfg' : Config) : Prop :=
  cfg' =
    { cfg with
      upstream := cfg'.upstream
      dns :=
        { cfg.dns with
          sinkholeMode := cfg'.dns.sinkholeMode
          sinkholeIpv4 := cfg'.dns.sinkholeIpv4
          sinkholeIpv6 := cfg'.dns.sinkholeIpv6 } }

/-- A request answered with an error has changed nothing. One that succeeds has
changed its file and the live value together, and nothing besides. -/
def Atomic (listPath : Path) (s s' : State) (i : Nat) : Prop :=
  match answer s' i with
  | none => view configPath listPath s' = view configPath listPath s
  | some (.list list) =>
      view configPath listPath s' =
        { view configPath listPath s with
          listFile := some list.toFileText
          blocklist := list }
  | some (.config cfg) =>
      Framed s.config cfg ∧ ∃ text servers, toml.toStringPretty cfg = some text ∧
        Parsed cfg servers ∧
          view configPath listPath s' =
            { view configPath listPath s with
              configFile := some text
              config := cfg
              servers := servers }

structure Targets (configPath listPath : Path) : Prop where
  distinct : configPath ≠ listPath
  config : ¬".tmp".toList <:+ configPath
  list : ¬".tmp".toList <:+ listPath

theorem tempPath_suffix {path : Path} (hName : NamesFile path) :
    ".tmp".toList <:+ tempPath path := by
  unfold NamesFile fileName at hName
  rw [tempPath, withExtension, if_neg hName]
  exact List.suffix_append _ _

variable {toml configPath} {listPath : Path} {s s' s₀ : State} {i : Nat}

/-- A temporary file is neither of the two targets. -/
theorem tempPath_ne (hTargets : Targets configPath listPath) {path : Path}
    (hName : NamesFile path) : tempPath path ≠ configPath ∧ tempPath path ≠ listPath := by
  constructor
  · rintro hEq
    exact hTargets.config (hEq ▸ tempPath_suffix hName)
  · rintro hEq
    exact hTargets.list (hEq ▸ tempPath_suffix hName)

/-- Nothing is dropped where everything parses. -/
theorem map_some_filterMap {α β : Type*} {f : α → Option β} {l : List α}
    (hSome : ∀ a ∈ l, (f a).isSome) : (l.filterMap f).map some = l.map f := by
  induction l with
  | nil => rfl
  | cons a rest ih =>
      obtain ⟨b, hb⟩ := Option.isSome_iff_exists.mp (hSome a List.mem_cons_self)
      have hRest := ih fun c hMem => hSome c (List.mem_cons_of_mem a hMem)
      rw [List.filterMap_cons_some hb, List.map_cons, List.map_cons, hRest, hb]

/-- After a configuration update every server listed is in use. -/
theorem parsed_upstreamAddrs {body : ConfigUpdate} {cfg cfg' : Config}
    (hApply : body.apply cfg = .ok cfg') : Parsed cfg' cfg'.upstreamAddrs where
  nonempty := upstreamAddrs_apply hApply
  all := by
    obtain ⟨⟨-, hParse, -⟩, ipv4, ipv6, -, -, rfl⟩ := ConfigUpdate.apply_ok_iff.mp hApply
    exact map_some_filterMap hParse

/-- A configuration update keeps the fields it does not name. -/
theorem framed_apply {body : ConfigUpdate} {cfg cfg' : Config}
    (hApply : body.apply cfg = .ok cfg') : Framed cfg cfg' := by
  obtain ⟨-, ipv4, ipv6, -, -, rfl⟩ := ConfigUpdate.apply_ok_iff.mp hApply
  rfl

/-- A path that names no file is never written to. -/
theorem run_unwritten (toml : Toml) {job : Job} (hPhase : s.requests i = .prepared job) :
    ∃ s', Machine.run (step toml configPath) s
        (savedEvents i job (.failTemp (s.disk job.temp))) = some s' ∧
      answer s' i = none ∧ view configPath listPath s' = view configPath listPath s := by
  simp [savedEvents, Machine.run, step, hPhase, setPhase, answer, view]

theorem savedEvents_failed {job : Job} {saved : SaveResult} (hFailed : saved ≠ .done) :
    savedEvents i job saved = saved.events i := by
  cases saved with
  | done => exact absurd rfl hFailed
  | failTemp left => rfl
  | failRename => rfl

/-- Nothing but the servers is set between a rename and a store. -/
theorem savedEvents_subset (job : Job) (saved : SaveResult) :
    savedEvents i job saved ⊆ saved.events i := by
  intro e hMem
  cases saved with
  | done =>
      simp only [savedEvents] at hMem
      split at hMem
      · simp only [List.mem_cons, List.not_mem_nil, or_false] at hMem
        rcases hMem with rfl | rfl | rfl <;> simp [SaveResult.events]
      · exact hMem
  | failTemp left => exact hMem
  | failRename => exact hMem

/-- A save that fails is answered with an error and has changed nothing. -/
theorem run_saved_failed (toml : Toml) {job : Job} {saved : SaveResult}
    (hPhase : s.requests i = .prepared job) (hFailed : saved ≠ .done)
    (hName : NamesFile job.path) (hTargets : Targets configPath listPath) :
    ∃ s', Machine.run (step toml configPath) s (savedEvents i job saved) = some s' ∧
      answer s' i = none ∧ view configPath listPath s' = view configPath listPath s := by
  obtain ⟨hConfigPath, hListPath⟩ := tempPath_ne hTargets hName
  obtain ⟨s', hRun, hReturned, hDisk, hConfig, hServers, hBlocklist⟩ :
      ∃ s', Machine.run (step toml configPath) s (saved.events i) = some s' ∧ _ :=
    run_failed toml hPhase hFailed
  refine ⟨s', by rw [savedEvents_failed hFailed, hRun], by rw [answer, hReturned], ?_⟩
  rw [view, hDisk configPath (Ne.symm hConfigPath), hDisk listPath (Ne.symm hListPath), hConfig,
    hServers, hBlocklist]
  rfl

/-- A list update that the disk takes changes the list and its file and nothing
else. -/
theorem run_saved_list (toml : Toml) {list : Blocklist} {text : Str}
    (hPhase : s.requests i = .prepared ⟨.list list, listPath, text⟩) (hName : NamesFile listPath)
    (hTargets : Targets configPath listPath) :
    ∃ s', Machine.run (step toml configPath) s
        (savedEvents i ⟨.list list, listPath, text⟩ .done) = some s' ∧
      answer s' i = some (.list list) ∧
      view configPath listPath s' =
        { view configPath listPath s with listFile := some text, blocklist := list } := by
  obtain ⟨hConfig, -⟩ := tempPath_ne hTargets hName
  simp [savedEvents, Machine.run, step, hPhase, setPhase, answer, view, Job.temp,
    Function.update_of_ne (Ne.symm hConfig), Function.update_of_ne hTargets.distinct]

/-- A configuration update that the disk takes changes the configuration, its
file and the servers and nothing else. -/
theorem run_saved_config (toml : Toml) {cfg : Config} {text : Str}
    (hPhase : s.requests i = .prepared ⟨.config cfg, configPath, text⟩)
    (hName : NamesFile configPath) (hTargets : Targets configPath listPath) :
    ∃ s', Machine.run (step toml configPath) s
        (savedEvents i ⟨.config cfg, configPath, text⟩ .done) = some s' ∧
      answer s' i = some (.config cfg) ∧
      view configPath listPath s' =
        { view configPath listPath s with
          configFile := some text
          config := cfg
          servers := cfg.upstreamAddrs } := by
  obtain ⟨-, hListPath⟩ := tempPath_ne hTargets hName
  obtain ⟨s', hRun, hReturned, hFile, hDisk, hConfig, hServers, hBlocklist⟩ := run_done toml hPhase
  refine ⟨s', hRun, by rw [answer, hReturned], ?_⟩
  rw [view, hFile, hDisk listPath (Ne.symm hTargets.distinct) (Ne.symm hListPath), hConfig, hServers,
    hBlocklist]
  rfl

/-- A prepared request, whatever becomes of its file. -/
theorem saved_atomic {body : Body} {job : Job} (saved : SaveResult)
    (hPrepare : prepare toml configPath s body = some job)
    (hList : s.config.web.blocklistPath = listPath) (hTargets : Targets configPath listPath) :
    ∃ s', Machine.run (step toml configPath) (setPhase s i (.prepared job))
        (savedEvents i job (attempt s job saved)) = some s' ∧
      Atomic toml configPath listPath s s' i := by
  have hPhase : (setPhase s i (.prepared job)).requests i = .prepared job := by simp [setPhase]
  by_cases hName : NamesFile job.path
  · rw [attempt, if_pos hName]
    by_cases hDone : saved = .done
    · subst hDone
      rcases prepare_cases hPrepare with
        ⟨text, list, -, -, rfl⟩ | ⟨update, cfg, text, -, hApply, hText, rfl⟩
      · rw [hList] at hPhase hName ⊢
        obtain ⟨s', hRun, hAnswer, hView⟩ := run_saved_list toml hPhase hName hTargets
        exact ⟨s', hRun, by rw [Atomic, hAnswer]; exact hView⟩
      · obtain ⟨s', hRun, hAnswer, hView⟩ := run_saved_config toml hPhase hName hTargets
        refine ⟨s', hRun, ?_⟩
        rw [Atomic, hAnswer]
        exact ⟨framed_apply hApply, text, _, hText, parsed_upstreamAddrs hApply, hView⟩
    · obtain ⟨s', hRun, hAnswer, hView⟩ := run_saved_failed toml hPhase hDone hName hTargets
      exact ⟨s', hRun, by rw [Atomic, hAnswer]; exact hView⟩
  · rw [attempt, if_neg hName]
    obtain ⟨s', hRun, hAnswer, hView⟩ := run_unwritten toml hPhase
    exact ⟨s', hRun, by rw [Atomic, hAnswer]; exact hView⟩

/-- One request, from any state in which its number is not taken. -/
theorem handle_atomic (toml : Toml) (request : Request) (hIdle : s.requests i = .idle)
    (hList : s.config.web.blocklistPath = listPath) (hTargets : Targets configPath listPath) :
    ∃ s', handle toml configPath s i request = some s' ∧
      Atomic toml configPath listPath s s' i := by
  unfold handle Request.events
  cases request.body with
  | none => exact ⟨s, rfl, by simp [Atomic, answer, hIdle]⟩
  | some body =>
      simp only [run_load hIdle]
      cases hPrepare : prepare toml configPath s body with
      | none => exact ⟨_, rfl, by simp [Atomic, answer, setPhase, view]⟩
      | some job => exact saved_atomic request.saved hPrepare hList hTargets

/-- The events of a request belong to it. -/
theorem request_of_mem_events {request : Request} {e : Event}
    (hMem : e ∈ request.events toml configPath s i) : e.request = i := by
  unfold Request.events at hMem
  split at hMem
  · simp at hMem
  · rcases List.mem_cons.mp hMem with rfl | hMem
    · rfl
    rcases List.mem_cons.mp hMem with rfl | hMem
    · rfl
    split at hMem
    · simp at hMem
    · exact request_of_mem_saved (savedEvents_subset _ _ hMem)

/-- A request leaves the others where they are. -/
theorem requests_of_handle {request : Request} {j : Nat}
    (hHandle : handle toml configPath s i request = some s') (hj : j ≠ i) :
    s'.requests j = s.requests j := by
  refine run_frame hHandle fun e hMem => ?_
  rwa [request_of_mem_events hMem]

/-- The path of the blocklist is no field of an update. -/
theorem Atomic.blocklistPath (hAtomic : Atomic toml configPath listPath s s' i) :
    s'.config.web.blocklistPath = s.config.web.blocklistPath := by
  unfold Atomic at hAtomic
  split at hAtomic
  · exact congrArg (·.web.blocklistPath) (congrArg View.config hAtomic)
  · exact congrArg (·.web.blocklistPath) (congrArg View.config hAtomic)
  · obtain ⟨hFramed, text, servers, -, -, hView⟩ := hAtomic
    rw [show s'.config = _ from congrArg View.config hView]
    exact congrArg (·.web.blocklistPath) hFramed

/-- Servers that are what the configuration says stay so, and a configuration
that is stored makes them so. -/
theorem Atomic.parsed (hAtomic : Atomic toml configPath listPath s s' i)
    (hParsed : Parsed s.config s.servers ∨ ∃ cfg, answer s' i = some (.config cfg)) :
    Parsed s'.config s'.servers := by
  unfold Atomic at hAtomic
  split at hAtomic
  case h_1 hAnswer =>
    rw [show s'.config = s.config from congrArg View.config hAtomic,
      show s'.servers = s.servers from congrArg View.servers hAtomic]
    exact hParsed.resolve_right (by simp [hAnswer])
  case h_2 list hAnswer =>
    rw [show s'.config = s.config from congrArg View.config hAtomic,
      show s'.servers = s.servers from congrArg View.servers hAtomic]
    exact hParsed.resolve_right (by simp [hAnswer])
  case h_3 cfg hAnswer =>
    obtain ⟨-, text, servers, -, hServers, hView⟩ := hAtomic
    rw [show s'.config = cfg from congrArg View.config hView,
      show s'.servers = servers from congrArg View.servers hView]
    exact hServers

/-- After some requests that came one after the other. -/
structure After (s₀ : State) (past : List Request) (s : State) : Prop where
  idle : ∀ j, past.length ≤ j → s.requests j = .idle
  blocklistPath : s.config.web.blocklistPath = s₀.config.web.blocklistPath
  parsed : (Parsed s₀.config s₀.servers ∨ ∃ j cfg, answer s j = some (.config cfg)) →
    Parsed s.config s.servers

/-- One request more keeps what is known after a sequence. -/
theorem After.handle {past : List Request} {request : Request} (hAfter : After s₀ past s)
    (hHandle : handle toml configPath s past.length request = some s')
    (hAtomic : Atomic toml configPath listPath s s' past.length) :
    After s₀ (past ++ [request]) s' where
  idle j hj := by
    rw [List.length_append, List.length_singleton] at hj
    rw [requests_of_handle hHandle (by omega)]
    exact hAfter.idle j (by omega)
  blocklistPath := hAtomic.blocklistPath.trans hAfter.blocklistPath
  parsed hParsed := by
    apply hAtomic.parsed
    rcases hParsed with hStart | ⟨j, cfg, hAnswer⟩
    · exact Or.inl (hAfter.parsed (Or.inl hStart))
    · by_cases hj : j = past.length
      · exact Or.inr ⟨cfg, hj ▸ hAnswer⟩
      · rw [answer, requests_of_handle hHandle hj] at hAnswer
        exact Or.inl (hAfter.parsed (Or.inr ⟨j, cfg, hAnswer⟩))

/-- The last request of a sequence is handled after the others. -/
theorem handleAll_concat (past : List Request) (request : Request) :
    handleAll toml configPath s i (past ++ [request]) =
      (handleAll toml configPath s i past).bind fun s' =>
        handle toml configPath s' (i + past.length) request := by
  induction past generalizing s i with
  | nil => simp [handleAll]
  | cons first rest ih =>
      simp only [List.cons_append, handleAll, Option.bind_assoc, ih, List.length_cons,
        Nat.add_assoc, Nat.add_comm 1]

/-- Requests one after the other all come to an end. -/
theorem handleAll_after (hIdle : ∀ j, s₀.requests j = .idle)
    (hTargets : Targets configPath s₀.config.web.blocklistPath) (past : List Request) :
    ∃ s, handleAll toml configPath s₀ 0 past = some s ∧ After s₀ past s := by
  induction past using List.reverseRecOn with
  | nil =>
      refine ⟨s₀, rfl, fun j _ => hIdle j, rfl, ?_⟩
      rintro (hStart | ⟨j, cfg, hAnswer⟩)
      · exact hStart
      · simp [answer, hIdle j] at hAnswer
  | append_singleton front request ih =>
      obtain ⟨s, hAll, hAfter⟩ := ih
      obtain ⟨s', hHandle, hAtomic⟩ := handle_atomic toml request
        (hAfter.idle front.length (Nat.le_refl _)) hAfter.blocklistPath hTargets
      refine ⟨s', ?_, hAfter.handle hHandle hAtomic⟩
      rw [handleAll_concat, hAll, Option.bind_some, Nat.zero_add, hHandle]

/-- After any requests that do not overlap, the next one is answered with an
error and changes nothing, or it succeeds and changes its file and the live
value together. The servers are those of the configuration once they were, or
once an update of the configuration was stored. -/
theorem updates_atomic (toml : Toml) (hIdle : ∀ j, s₀.requests j = .idle)
    (hTargets : Targets configPath s₀.config.web.blocklistPath) (past : List Request)
    (request : Request) :
    ∃ s s', handleAll toml configPath s₀ 0 past = some s ∧
      handle toml configPath s past.length request = some s' ∧
      Atomic toml configPath s₀.config.web.blocklistPath s s' past.length ∧
      ((Parsed s₀.config s₀.servers ∨ ∃ j cfg, answer s' j = some (.config cfg)) →
        Parsed s'.config s'.servers) := by
  obtain ⟨s, hAll, hAfter⟩ := handleAll_after hIdle hTargets past
  obtain ⟨s', hHandle, hAtomic⟩ := handle_atomic toml request
    (hAfter.idle past.length (Nat.le_refl _)) hAfter.blocklistPath hTargets
  exact ⟨s, s', hAll, hHandle, hAtomic, (hAfter.handle hHandle hAtomic).parsed⟩

/-- A body that is no update, an update, one without a server, and a blocklist
whose file cannot be put in its place. -/
def mixedRequests : List Request :=
  [⟨none, .done⟩, ⟨some (.config (tunedBody 512)), .done⟩,
    ⟨some (.config { tunedBody 512 with upstreamServers := [] }), .done⟩,
    ⟨some (.blocklist "example.com\n".toList), .failRename⟩]

/-- A blocklist that is saved. -/
def listRequest : Request := ⟨some (.blocklist "example.com\n".toList), .done⟩

theorem updates_atomic_mixed :
    ∃ s s', handleAll tunedToml samplePath sampleState 0 mixedRequests = some s ∧
      handle tunedToml samplePath s 4 listRequest = some s' ∧
      Atomic tunedToml samplePath "blocklist.txt".toList s s' 4 ∧
      Parsed s'.config s'.servers := by
  have hTargets : Targets samplePath sampleState.config.web.blocklistPath :=
    ⟨by decide, by decide, by decide⟩
  have hStart : Parsed sampleState.config sampleState.servers := ⟨by decide, by decide⟩
  obtain ⟨s, s', hAll, hHandle, hAtomic, hParsed⟩ :=
    updates_atomic tunedToml (fun _ => rfl) hTargets mixedRequests listRequest
  exact ⟨s, s', hAll, hHandle, hAtomic, hParsed (Or.inl hStart)⟩

/-- The sample files with a server by its name. -/
def namedToml : Toml := Toml.ofTable [sampleRow "dns.example:53"] (by decide)

def namedDisk : Disk :=
  Function.update sampleDisk samplePath (some (sampleText "dns.example:53".toList))

def namedState : State :=
  { sampleState with
    disk := namedDisk
    config := sampleConfig "dns.example:53".toList
    servers := [] }

/-- A start drops a server given by its name, and an update of the blocklist
that succeeds leaves none. -/
theorem named_server_stays_dropped :
    ∃ s₀ s', boot namedToml samplePath sampleToken namedDisk = some s₀ ∧
      Targets samplePath s₀.config.web.blocklistPath ∧
      handle namedToml samplePath s₀ 0 listRequest = some s' ∧ (answer s' 0).isSome ∧
      s'.config.upstream.servers = ["dns.example:53".toList] ∧ s'.servers = [] ∧
      ¬Parsed s'.config s'.servers := by
  have hReads : Reads namedToml samplePath namedDisk (sampleConfig "dns.example:53".toList) :=
    ⟨_, rfl, namedToml.roundTrip _ _ rfl⟩
  have hBoot : boot namedToml samplePath sampleToken namedDisk = some namedState :=
    boot_of_reads sampleToken hReads (by decide) rfl
  have hEval : ((handle namedToml samplePath namedState 0 listRequest).map fun s =>
      ((answer s 0).isSome, s.config.upstream.servers, s.servers)) =
        some (true, ["dns.example:53".toList], []) := by
    decide +kernel
  obtain ⟨s', hHandle, hAll⟩ := Option.map_eq_some_iff.mp hEval
  obtain ⟨hAnswer, hRest⟩ := Prod.mk.inj hAll
  obtain ⟨hConfig, hServers⟩ := Prod.mk.inj hRest
  exact ⟨namedState, s', hBoot, ⟨by decide, by decide, by decide⟩, hHandle, hAnswer, hConfig,
    hServers, fun hParsed => hParsed.nonempty hServers⟩

end Sequential

end RustDns
