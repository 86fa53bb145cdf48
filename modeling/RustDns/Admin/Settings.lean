import RustDns.Admin.Restart
import RustDns.Config.Display

/-! The settings as the API shows them, and what posting them back does. -/
namespace RustDns

namespace Admin

structure ConfigView where
  upstreamServers : List Str
  timeoutMs : UInt64
  maxQps : UInt32
  maxConcurrent : UInt64
  sinkholeMode : Str
  sinkholeIpv4 : Str
  sinkholeIpv6 : Str
  dnsBind : Str
  webBind : Str
  qlogEnabled : Bool
  note : Str

def getConfig (cfg : Config) : ConfigView where
  upstreamServers := cfg.upstream.servers
  timeoutMs := cfg.upstream.timeoutMs
  maxQps := cfg.upstream.maxQps
  maxConcurrent := cfg.upstream.maxConcurrent
  sinkholeMode := cfg.dns.sinkholeMode
  sinkholeIpv4 := cfg.dns.sinkholeIpv4.toString
  sinkholeIpv6 := cfg.dns.sinkholeIpv6.toString
  dnsBind := cfg.dns.bind
  webBind := cfg.web.bind
  qlogEnabled := cfg.qlog.enabled
  note := "Upstream servers + sinkhole apply live. Other fields persist and take effect on restart.".toList

/-- The view read as an update: the fields an update does not have are
ignored. -/
def ConfigView.update (view : ConfigView) : ConfigUpdate where
  upstreamServers := view.upstreamServers
  timeoutMs := view.timeoutMs
  maxQps := view.maxQps
  maxConcurrent := view.maxConcurrent
  sinkholeMode := view.sinkholeMode
  sinkholeIpv4 := view.sinkholeIpv4
  sinkholeIpv6 := view.sinkholeIpv6

/-- The servers spelled as an update spells them. -/
def respelled (cfg : Config) : Config :=
  { cfg with upstream := { cfg.upstream with servers := (getConfig cfg).update.servers } }

def Update.settings : Update → Option Config
  | .config cfg => some cfg
  | .list _ => none

/-- The configuration a request has in hand. -/
def Phase.settings : Phase → Option Config
  | .prepared job | .written job | .renamed job | .serversSet job => job.update.settings
  | .returned (some update) => update.settings
  | .idle | .posted _ | .returned none => none

/-- The configuration a request has stored. -/
def Phase.stored : Phase → Option Config
  | .returned (some update) => update.settings
  | _ => none

/-- The view of the configuration asks for the configuration, and the library
can write it. -/
structure Restored (toml : Toml) (cfg : Config) : Prop where
  apply : (getConfig cfg).update.apply cfg = .ok cfg
  saved : (toml.toStringPretty cfg).isSome

/-- What requests have in hand, and what is live once one of them has stored
it. -/
structure Lasting (toml : Toml) (s : State) : Prop where
  requests : ∀ i cfg, (s.requests i).settings = some cfg → Restored toml cfg
  live : ∀ i cfg, (s.requests i).stored = some cfg → Restored toml s.config

variable {toml : Toml} {configPath : Path} {s s' : State}

/-- Posting a view back respells the servers and changes nothing else; it is
refused when a server does not parse or there is none. -/
theorem apply_getConfig_iff {cfg cfg' : Config} :
    (getConfig cfg).update.apply cfg = .ok cfg' ↔
      ((getConfig cfg).update.servers ≠ [] ∧
        ∀ server ∈ (getConfig cfg).update.servers, (SocketAddr.parse server).isSome) ∧
      cfg' = respelled cfg := by
  have hIpv4 : Ipv4Addr.parse (getConfig cfg).update.sinkholeIpv4 = some cfg.dns.sinkholeIpv4 :=
    Ipv4Addr.parse_toString _
  have hIpv6 : Ipv6Addr.parse (getConfig cfg).update.sinkholeIpv6 = some cfg.dns.sinkholeIpv6 :=
    Ipv6Addr.parse_toString _
  rw [ConfigUpdate.apply_ok_iff, ConfigUpdate.Checked, hIpv4, hIpv6]
  constructor
  · rintro ⟨⟨hSome, hParse, -⟩, ipv4, ipv6, h4, h6, rfl⟩
    obtain rfl := Option.some.inj h4
    obtain rfl := Option.some.inj h6
    exact ⟨⟨hSome, hParse⟩, rfl⟩
  · rintro ⟨⟨hSome, hParse⟩, rfl⟩
    exact ⟨⟨hSome, hParse, rfl, rfl⟩, _, _, rfl, rfl, rfl⟩

/-- The servers of an update are trimmed already. -/
theorem servers_map_trim (servers : List Str) :
    (((servers.map Str.trim).filter (· ≠ [])).map Str.trim).filter (· ≠ []) =
      (servers.map Str.trim).filter (· ≠ []) := by
  have hTrimmed : ∀ server ∈ (servers.map Str.trim).filter (· ≠ []), Str.trim server = id server := by
    intro server hMem
    obtain ⟨named, -, rfl⟩ := List.mem_map.mp (List.mem_filter.mp hMem).1
    exact Str.trim_eq_self (Scan.trimmed_trim _ named)
  rw [List.map_congr_left hTrimmed, List.map_id, List.filter_filter]
  simp

/-- What an update has made is what its view asks for. -/
theorem getConfig_apply {body : ConfigUpdate} {cfg cfg' : Config} (hApply : body.apply cfg = .ok cfg') :
    (getConfig cfg').update.apply cfg' = .ok cfg' := by
  obtain ⟨⟨hSome, hParse, -⟩, ipv4, ipv6, -, -, rfl⟩ := ConfigUpdate.apply_ok_iff.mp hApply
  have hServers : ∀ dns : DnsConfig,
      (getConfig { cfg with
        upstream := ⟨body.servers, body.timeoutMs, body.maxConcurrent, body.maxQps⟩
        dns := dns }).update.servers = body.servers :=
    fun _ => servers_map_trim body.upstreamServers
  rw [apply_getConfig_iff, respelled, hServers]
  exact ⟨⟨hSome, hParse⟩, rfl⟩

theorem settings_update {requests : Nat → Phase} {i j : Nat} {phase : Phase} {cfg : Config}
    (hCfg : (Function.update requests i phase j).settings = some cfg) :
    (j = i ∧ phase.settings = some cfg) ∨ (requests j).settings = some cfg := by
  by_cases hSame : j = i
  · subst hSame
    rw [Function.update_self] at hCfg
    exact Or.inl ⟨rfl, hCfg⟩
  · rw [Function.update_of_ne hSame] at hCfg
    exact Or.inr hCfg

/-- A configuration that a request has in hand it has had before, or has just
made of the live one. -/
theorem settings_of_step {e : Event} {j : Nat} {cfg : Config}
    (hStep : step toml configPath s e = some s') (hCfg : (s'.requests j).settings = some cfg) :
    (s.requests j).settings = some cfg ∨
      ∃ body : ConfigUpdate, body.apply s.config = .ok cfg ∧ (toml.toStringPretty cfg).isSome := by
  cases step_cases hStep with
  | load hPhase hJob =>
      rcases settings_update hCfg with ⟨-, hNew⟩ | hOld
      · rcases prepare_cases hJob with ⟨_, _, -, -, rfl⟩ | ⟨body, cfg', text, -, hApply, hText, rfl⟩
        · simp [Phase.settings, Update.settings] at hNew
        · obtain rfl : cfg' = cfg := by simpa [Phase.settings, Update.settings] using hNew
          exact Or.inr ⟨body, hApply, by rw [hText]; rfl⟩
      · exact Or.inl hOld
  | writeTemp hPhase | rename hPhase hText | setServers hPhase | storeList hPhase | storeConfig hPhase =>
      rcases settings_update hCfg with ⟨rfl, hNew⟩ | hOld
      · rw [hPhase]
        exact Or.inl hNew
      · exact Or.inl hOld
  | _ =>
      rcases settings_update hCfg with ⟨-, hNew⟩ | hOld
      · simp [Phase.settings] at hNew
      · exact Or.inl hOld

/-- The live configuration is the one a request had in hand when it stored
it. -/
theorem config_of_step {e : Event} (hStep : step toml configPath s e = some s') :
    s'.config = s.config ∨ ∃ i, (s.requests i).settings = some s'.config := by
  cases step_cases hStep with
  | @storeConfig i cfg path text hPhase => exact Or.inr ⟨i, by rw [hPhase]; rfl⟩
  | _ => exact Or.inl rfl

/-- A step stores at most the settings that are live after it. -/
theorem stored_of_step {e : Event} {j : Nat} {cfg : Config}
    (hStep : step toml configPath s e = some s') (hStored : (s'.requests j).stored = some cfg) :
    (s.requests j).stored = some cfg ∨ ∃ i, (s.requests i).settings = some s'.config := by
  by_cases hRequest : j = e.request
  · subst hRequest
    cases step_cases hStep with
    | @storeConfig i cfg path text hPhase => exact Or.inr ⟨i, by rw [hPhase]; rfl⟩
    | _ => simp [Admin.setPhase, Phase.stored, Update.settings, Event.request] at hStored
  · rw [step_frame hStep hRequest] at hStored
    exact Or.inl hStored

/-- Every configuration a step makes or stores can be posted back. -/
theorem lasting_step {e : Event} (hLasting : Lasting toml s)
    (hStep : step toml configPath s e = some s') : Lasting toml s' where
  requests := fun i cfg hCfg => by
    rcases settings_of_step hStep hCfg with hOld | ⟨body, hApply, hSaved⟩
    · exact hLasting.requests i cfg hOld
    · exact ⟨getConfig_apply hApply, hSaved⟩
  live := fun i cfg hStored => by
    rcases config_of_step hStep with hSame | ⟨j, hHeld⟩
    · rcases stored_of_step hStep hStored with hOld | ⟨j, hHeld⟩
      · rw [hSame]
        exact hLasting.live i cfg hOld
      · exact hLasting.requests j _ hHeld
    · exact hLasting.requests j _ hHeld

/-- What every update keeps holds of the live configuration and of every
configuration a request has in hand. -/
structure Throughout (P : Config → Prop) (s : State) : Prop where
  live : P s.config
  requests : ∀ i cfg, (s.requests i).settings = some cfg → P cfg

/-- A property that updates keep holds of all settings a step deals with. -/
theorem throughout_step {P : Config → Prop} {e : Event}
    (hApply : ∀ (body : ConfigUpdate) cfg cfg', P cfg → body.apply cfg = .ok cfg' → P cfg')
    (hThroughout : Throughout P s) (hStep : step toml configPath s e = some s') : Throughout P s' where
  live := by
    rcases config_of_step hStep with hSame | ⟨i, hHeld⟩
    · rw [hSame]
      exact hThroughout.live
    · exact hThroughout.requests i _ hHeld
  requests := fun i cfg hCfg => by
    rcases settings_of_step hStep hCfg with hOld | ⟨body, hMade, -⟩
    · exact hThroughout.requests i cfg hOld
    · exact hApply body s.config cfg hThroughout.live hMade

/-- In every run the live settings can be posted back once a request has stored
any. -/
theorem lasting_run {s₀ : State} {es : List Event} (hIdle : ∀ i, s₀.requests i = .idle)
    (hRun : Machine.run (step toml configPath) s₀ es = some s) : Lasting toml s := by
  have hStart : Lasting toml s₀ := by
    constructor
    · intro i cfg hCfg
      simp [hIdle, Phase.settings] at hCfg
    · intro i cfg hCfg
      simp [hIdle, Phase.stored] at hCfg
  exact Machine.run_invariant (fun _ _ _ => lasting_step) hStart hRun

/-- Whatever requests have run side by side, once one of them has stored a
configuration the settings shown can be posted back: the update is accepted
and changes no setting, and it leaves the file and the servers in use with the
live configuration, also where the requests had left them with another. -/
theorem settings_posted_back {token : Token} {disk : Disk} {s₀ : State} {es : List Event}
    {i j : Nat} {cfg : Config} (hBoot : boot toml configPath token disk = some s₀)
    (hRun : Machine.run (step toml configPath) s₀ es = some s)
    (hStored : (s.requests j).stored = some cfg) (hIdle : s.requests i = .idle) :
    ∃ s', Machine.run (step toml configPath) s
        (.post i (.config (getConfig s.config).update) :: .load i :: SaveResult.events i .done) =
          some s' ∧
      s'.requests i = .returned (some (.config s.config)) ∧
      s'.config = s.config ∧ ConfigAgrees toml configPath s' ∧
      s'.servers = s.config.upstreamAddrs ∧ s'.blocklist = s.blocklist ∧
      ∀ path, path ≠ configPath → path ≠ tempPath configPath → s'.disk path = s.disk path := by
  obtain ⟨-, -, -, hQuiet, -⟩ := boot_agrees hBoot
  obtain ⟨hApply, hSaved⟩ := (lasting_run hQuiet hRun).live j cfg hStored
  obtain ⟨text, hText⟩ := Option.isSome_iff_exists.mp hSaved
  have hPrepare : prepare toml configPath s (.config (getConfig s.config).update) =
      some ⟨.config s.config, configPath, text⟩ := by
    simp [prepare, hApply, hText]
  obtain ⟨s', hDone, hReturned, hFile, hOthers, hConfig, hServers, hList⟩ :=
    run_done toml (s := setPhase s i (.prepared ⟨.config s.config, configPath, text⟩))
      (Function.update_self ..)
  refine ⟨s', ?_, hReturned, hConfig, ⟨text, hFile, ?_⟩, hServers, hList, hOthers⟩
  · rw [run_load hIdle, hPrepare]
    exact hDone
  · rw [hConfig]
    exact toml.roundTrip _ _ hText

/-- Two updates have left the file with one server and the live configuration
with the other; the settings posted back bring them together. -/
theorem settings_posted_back_twoUpdates :
    ∃ s s', Machine.run (step sampleToml samplePath) sampleState twoUpdates = some s ∧
      s.disk samplePath = some (sampleText "9.9.9.9:53".toList) ∧
      Machine.run (step sampleToml samplePath) s
        (.post 2 (.config (getConfig s.config).update) :: .load 2 :: SaveResult.events 2 .done) =
          some s' ∧
      s'.config = sampleConfig "8.8.8.8:53".toList ∧ ConfigAgrees sampleToml samplePath s' := by
  have hEval : ((Machine.run (step sampleToml samplePath) sampleState twoUpdates).map fun s =>
      (s.config, (s.requests 0).stored)) =
        some (sampleConfig "8.8.8.8:53".toList, some (sampleConfig "8.8.8.8:53".toList)) := by
    decide +kernel
  have hDisk : ((Machine.run (step sampleToml samplePath) sampleState twoUpdates).map fun s =>
      s.disk samplePath) = some (some (sampleText "9.9.9.9:53".toList)) := rfl
  obtain ⟨s, hRun, hPair⟩ := Option.map_eq_some_iff.mp hEval
  obtain ⟨hConfig, hStored⟩ := Prod.mk.inj hPair
  rw [hRun, Option.map_some] at hDisk
  have hTwo : ∀ e ∈ twoUpdates, (2 : Nat) ≠ e.request := by decide +kernel
  have hIdle : s.requests 2 = .idle := run_frame hRun hTwo
  obtain ⟨s', hPosted, -, hKept, hAgrees, -⟩ :=
    settings_posted_back (sample_boot sampleToml rfl) hRun hStored hIdle
  exact ⟨s, s', hRun, Option.some.inj hDisk, hPosted, hKept.trans hConfig, hAgrees⟩

end Admin

end RustDns
