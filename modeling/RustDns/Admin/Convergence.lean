import RustDns.Admin.Start

/-! When concurrent updates leave the files and the live state in agreement. -/
namespace RustDns

namespace Admin

/-- The file is replaced and the live state is not. -/
def Phase.landed : Phase → Option Job
  | .renamed job | .serversSet job => some job
  | .idle | .posted _ | .prepared _ | .written _ | .returned _ => none

/-- The request has been answered. -/
def Phase.over : Phase → Bool
  | .returned _ => true
  | _ => false

/-- The request is over or has never been made. -/
def Phase.settled : Phase → Bool
  | .idle | .returned _ => true
  | _ => false

/-- An update of the blocklist has succeeded. -/
def State.ListStored (s : State) : Prop := ∃ i list, s.requests i = .returned (some (.list list))

/-- The two files are different, and neither is a temporary file. A path stands
for the file it names. -/
structure Separate (configPath listPath : Path) : Prop where
  targets : configPath ≠ listPath
  configConfig : tempPath configPath ≠ configPath
  configList : tempPath configPath ≠ listPath
  listConfig : tempPath listPath ≠ configPath
  listList : tempPath listPath ≠ listPath

/-- A temporary file is not written between another request's write and rename
of it, and a file is not replaced between another request's rename and store. -/
def Exclusive (s : State) : Event → Prop
  | .writeTemp i | .failTemp i _ => ∀ job, s.requests i = .prepared job →
      ∀ j other, s.requests j = .written other → other.temp ≠ job.temp
  | .rename i => ∀ job, s.requests i = .written job →
      ∀ j other, (s.requests j).landed = some other → other.path ≠ job.path
  | _ => True

/-- Two requests are not about to rename one temporary file, and have not both
replaced one file with a store to come. -/
structure Phase.Apart (p q : Phase) : Prop where
  written : ∀ job other, p = .written job → q = .written other → job.temp ≠ other.temp
  landed : ∀ job other, p.landed = some job → q.landed = some other → job.path ≠ other.path

theorem Phase.Apart.symm {p q : Phase} (hApart : p.Apart q) : q.Apart p where
  written job other hJob hOther := (hApart.written other job hOther hJob).symm
  landed job other hJob hOther := (hApart.landed other job hOther hJob).symm

section

variable (toml : Toml) (configPath : Path) (s₀ : State)

/-- The file of an update and the text that goes there. -/
def Job.Ok (job : Job) : Prop :=
  match job.update with
  | .list list => job.path = s₀.config.web.blocklistPath ∧ job.text = list.toFileText
  | .config cfg => job.path = configPath ∧ toml.toStringPretty cfg = some job.text ∧
      cfg.web = s₀.config.web

/-- What a request relies on between its steps. -/
def Phase.Ok (disk : Disk) (servers : List SocketAddr) : Phase → Prop
  | .idle | .posted _ | .returned _ => True
  | .prepared job => job.Ok toml configPath s₀
  | .written job => job.Ok toml configPath s₀ ∧ disk job.temp = some job.text
  | .renamed job => job.Ok toml configPath s₀ ∧ disk job.path = some job.text
  | .serversSet job => job.Ok toml configPath s₀ ∧ disk job.path = some job.text ∧
      ∃ cfg, job.update = .config cfg ∧ servers = cfg.upstreamAddrs

/-- Once an update of the list has succeeded, the blocklist file is the live
list written out; until then both are as at the start. -/
def ListAgrees (s : State) : Prop :=
  s.ListStored ∧ s.disk s₀.config.web.blocklistPath = some s.blocklist.toFileText ∨
    ¬s.ListStored ∧ s.blocklist = s₀.blocklist ∧
      s.disk s₀.config.web.blocklistPath = s₀.disk s₀.config.web.blocklistPath

def Phase.LandedConfig (phase : Phase) : Prop :=
  ∃ job cfg, phase.landed = some job ∧ job.update = .config cfg

def Phase.LandedList (phase : Phase) : Prop :=
  ∃ job list, phase.landed = some job ∧ job.update = .list list

/-- Files and live state agree but for requests that have replaced their file
and not yet stored, of which each file has one at most. -/
structure Inv (s : State) : Prop where
  web : s.config.web = s₀.config.web
  requests : ∀ i, (s.requests i).Ok toml configPath s₀ s.disk s.servers
  apart : ∀ i j, i ≠ j → (s.requests i).Apart (s.requests j)
  config : ConfigAgrees toml configPath s ∨ ∃ i, (s.requests i).LandedConfig
  list : ListAgrees s₀ s ∨ ∃ i, (s.requests i).LandedList
  servers : s.servers = s.config.upstreamAddrs ∨ ∃ i job, s.requests i = .serversSet job

end

variable {toml : Toml} {configPath : Path} {s₀ s s' : State}

/-- A target is one of the two files. -/
theorem Job.Ok.path_cases {job : Job} (hOk : job.Ok toml configPath s₀) :
    (job.path = configPath ∧ ∃ cfg, job.update = .config cfg) ∨
      job.path = s₀.config.web.blocklistPath ∧ ∃ list, job.update = .list list := by
  unfold Job.Ok at hOk
  split at hOk
  · exact Or.inr ⟨hOk.1, _, ‹_›⟩
  · exact Or.inl ⟨hOk.1, _, ‹_›⟩

/-- The temporary file of a job is neither of the two files. -/
theorem Job.Ok.temp_ne {job : Job} (hOk : job.Ok toml configPath s₀)
    (hPaths : Separate configPath s₀.config.web.blocklistPath) :
    job.temp ≠ configPath ∧ job.temp ≠ s₀.config.web.blocklistPath := by
  rcases hOk.path_cases with ⟨hPath, -⟩ | ⟨hPath, -⟩
  · rw [Job.temp, hPath]
    exact ⟨hPaths.configConfig, hPaths.configList⟩
  · rw [Job.temp, hPath]
    exact ⟨hPaths.listConfig, hPaths.listList⟩

/-- A temporary file is no target. -/
theorem Job.Ok.temp_ne_path {job other : Job} (hOk : job.Ok toml configPath s₀)
    (hOther : other.Ok toml configPath s₀)
    (hPaths : Separate configPath s₀.config.web.blocklistPath) : job.temp ≠ other.path := by
  obtain ⟨hConfig, hList⟩ := hOk.temp_ne hPaths
  rcases hOther.path_cases with ⟨hPath, -⟩ | ⟨hPath, -⟩
  · rwa [hPath]
  · rwa [hPath]

theorem Inv.at {i : Nat} {phase : Phase} (hInv : Inv toml configPath s₀ s)
    (hPhase : s.requests i = phase) : phase.Ok toml configPath s₀ s.disk s.servers :=
  hPhase ▸ hInv.requests i

/-- A request that has replaced its file left its own text there. -/
theorem Phase.Ok.job {phase : Phase} {disk : Disk} {servers : List SocketAddr} {job : Job}
    (hOk : phase.Ok toml configPath s₀ disk servers) (hLanded : phase.landed = some job) :
    job.Ok toml configPath s₀ ∧ disk job.path = some job.text := by
  cases phase with
  | renamed other =>
      obtain rfl := Option.some.inj hLanded
      exact hOk
  | serversSet other =>
      obtain rfl := Option.some.inj hLanded
      exact ⟨hOk.1, hOk.2.1⟩
  | _ => simp [Phase.landed] at hLanded

/-- A request is not disturbed by changes to files that are not its own. -/
theorem Phase.Ok.frame {phase : Phase} {disk disk' : Disk} {servers servers' : List SocketAddr}
    (hOk : phase.Ok toml configPath s₀ disk servers)
    (hTemp : ∀ job, phase = .written job → disk' job.temp = disk job.temp)
    (hPath : ∀ job, phase.landed = some job → disk' job.path = disk job.path)
    (hServers : ∀ job, phase = .serversSet job → servers' = servers) :
    phase.Ok toml configPath s₀ disk' servers' := by
  cases phase with
  | written job => exact ⟨hOk.1, (hTemp job rfl).trans hOk.2⟩
  | renamed job => exact ⟨hOk.1, (hPath job rfl).trans hOk.2⟩
  | serversSet job =>
      obtain ⟨hJob, hText, cfg, hCfg, hSet⟩ := hOk
      exact ⟨hJob, (hPath job rfl).trans hText, cfg, hCfg, (hServers job rfl).trans hSet⟩
  | _ => exact hOk

/-- The rule for a step of one request. -/
theorem inv_next {i : Nat} {phase : Phase} (hInv : Inv toml configPath s₀ s)
    (hRequests : s'.requests = Function.update s.requests i phase)
    (hWeb : s'.config.web = s₀.config.web)
    (hOk : phase.Ok toml configPath s₀ s'.disk s'.servers)
    (hOthers : ∀ j ≠ i, (s.requests j).Ok toml configPath s₀ s.disk s.servers →
      (s.requests j).Ok toml configPath s₀ s'.disk s'.servers)
    (hApart : ∀ j ≠ i, phase.Apart (s.requests j))
    (hConfig : ConfigAgrees toml configPath s' ∨ ∃ j, (s'.requests j).LandedConfig)
    (hList : ListAgrees s₀ s' ∨ ∃ j, (s'.requests j).LandedList)
    (hServers : s'.servers = s'.config.upstreamAddrs ∨ ∃ j job, s'.requests j = .serversSet job) :
    Inv toml configPath s₀ s' := by
  refine ⟨hWeb, ?_, ?_, hConfig, hList, hServers⟩
  · rw [hRequests]
    exact (Function.forall_update_iff s.requests
      fun _ p => p.Ok toml configPath s₀ s'.disk s'.servers).mpr
        ⟨hOk, fun j hj => hOthers j hj (hInv.requests j)⟩
  · intro j k hjk
    rw [hRequests]
    by_cases hj : j = i
    · subst hj
      rw [Function.update_self, Function.update_of_ne hjk.symm]
      exact hApart k hjk.symm
    · rw [Function.update_of_ne hj]
      by_cases hk : k = i
      · subst hk
        rw [Function.update_self]
        exact (hApart j hj).symm
      · rw [Function.update_of_ne hk]
        exact hInv.apart j k hjk

/-- Some request stays as it is described. -/
theorem exists_update {P : Phase → Prop} {requests : Nat → Phase} {i : Nat} {phase : Phase}
    (hSome : ∃ j, P (requests j)) (hKeep : P (requests i) → P phase) :
    ∃ j, P (Function.update requests i phase j) := by
  obtain ⟨j, hj⟩ := hSome
  by_cases hij : j = i
  · subst hij
    exact ⟨j, by rw [Function.update_self]; exact hKeep hj⟩
  · exact ⟨j, by rwa [Function.update_of_ne hij]⟩

/-- A request that does not come to store a list leaves it open whether one has
been stored. -/
theorem listStored_update {i : Nat} {phase : Phase}
    (hRequests : s'.requests = Function.update s.requests i phase)
    (hOld : (s.requests i).over = false) (hNew : ∀ list, phase ≠ .returned (some (.list list))) :
    s'.ListStored ↔ s.ListStored := by
  unfold State.ListStored
  rw [hRequests]
  constructor
  · rintro ⟨j, list, hReturned⟩
    by_cases hj : j = i
    · subst hj
      rw [Function.update_self] at hReturned
      exact absurd hReturned (hNew list)
    · exact ⟨j, list, by rwa [Function.update_of_ne hj] at hReturned⟩
  · rintro ⟨j, list, hReturned⟩
    have hj : j ≠ i := by
      rintro rfl
      simp [hReturned, Phase.over] at hOld
    exact ⟨j, list, by rwa [Function.update_of_ne hj]⟩

section

/-! What a step keeps of the three agreements when it touches neither side. -/

variable {i : Nat} {phase : Phase}

/-- A step that leaves the configuration and its file alone keeps them in
agreement, or with a request that has still to store. -/
theorem Inv.config_kept (hInv : Inv toml configPath s₀ s)
    (hRequests : s'.requests = Function.update s.requests i phase)
    (hDisk : s'.disk configPath = s.disk configPath) (hConfig : s'.config = s.config)
    (hOld : ¬(s.requests i).LandedConfig) :
    ConfigAgrees toml configPath s' ∨ ∃ j, (s'.requests j).LandedConfig := by
  rcases hInv.config with ⟨text, hText, hParse⟩ | hSome
  · exact Or.inl ⟨text, hDisk.trans hText, by rw [hConfig, hParse]⟩
  · rw [hRequests]
    exact Or.inr (exists_update hSome fun hLanded => absurd hLanded hOld)

/-- A step that leaves the list and its file alone keeps them in agreement, or
with a request that has still to store. -/
theorem Inv.list_kept (hInv : Inv toml configPath s₀ s)
    (hRequests : s'.requests = Function.update s.requests i phase)
    (hDisk : s'.disk s₀.config.web.blocklistPath = s.disk s₀.config.web.blocklistPath)
    (hBlocklist : s'.blocklist = s.blocklist) (hOld : ¬(s.requests i).LandedList)
    (hOpen : (s.requests i).over = false)
    (hReturn : ∀ list, phase ≠ .returned (some (.list list))) :
    ListAgrees s₀ s' ∨ ∃ j, (s'.requests j).LandedList := by
  have hStored := listStored_update hRequests hOpen hReturn
  rcases hInv.list with (⟨hSome, hList⟩ | ⟨hNone, hLive, hFile⟩) | hSome
  · exact Or.inl (Or.inl ⟨hStored.mpr hSome, by rw [hDisk, hBlocklist, hList]⟩)
  · exact Or.inl (Or.inr ⟨fun hSome => hNone (hStored.mp hSome), hBlocklist.trans hLive,
      hDisk.trans hFile⟩)
  · rw [hRequests]
    exact Or.inr (exists_update hSome fun hLanded => absurd hLanded hOld)

/-- A step that leaves the servers and the configuration alone keeps them in
agreement, or with a request that has still to store. -/
theorem Inv.servers_kept (hInv : Inv toml configPath s₀ s)
    (hRequests : s'.requests = Function.update s.requests i phase)
    (hServers : s'.servers = s.servers) (hConfig : s'.config = s.config)
    (hOld : ∀ job, s.requests i ≠ .serversSet job) :
    s'.servers = s'.config.upstreamAddrs ∨ ∃ j job, s'.requests j = .serversSet job := by
  rcases hInv.servers with hSame | hSome
  · exact Or.inl (by rw [hServers, hConfig, hSame])
  · rw [hRequests]
    refine Or.inr (exists_update (P := fun p => ∃ job, p = .serversSet job) hSome ?_)
    rintro ⟨job, hPhase⟩
    exact absurd hPhase (hOld job)

end

/-- A request that has replaced no file is about to store nothing. -/
theorem Phase.not_landed {phase : Phase} (hNone : phase.landed = none) :
    ¬phase.LandedConfig ∧ ¬phase.LandedList ∧ ∀ job, phase ≠ .serversSet job := by
  refine ⟨?_, ?_, ?_⟩
  · rintro ⟨job, cfg, hLanded, -⟩
    simp [hNone] at hLanded
  · rintro ⟨job, list, hLanded, -⟩
    simp [hNone] at hLanded
  · rintro job rfl
    simp [Phase.landed] at hNone

theorem Phase.not_landedList {phase : Phase} {job : Job} {cfg : Config}
    (hLanded : phase.landed = some job) (hUpdate : job.update = .config cfg) :
    ¬phase.LandedList := by
  rintro ⟨other, list, hOther, hList⟩
  obtain rfl := Option.some.inj (hLanded.symm.trans hOther)
  simp [hUpdate] at hList

theorem Phase.not_landedConfig {phase : Phase} {job : Job} {list : Blocklist}
    (hLanded : phase.landed = some job) (hUpdate : job.update = .list list) :
    ¬phase.LandedConfig := by
  rintro ⟨other, cfg, hOther, hConfig⟩
  obtain rfl := Option.some.inj (hLanded.symm.trans hOther)
  simp [hUpdate] at hConfig

/-- A phase that is neither about to rename nor to store is apart from all. -/
theorem Phase.apart_of_idle {p q : Phase} (hWritten : ∀ job, p ≠ .written job)
    (hLanded : p.landed = none) : p.Apart q where
  written job _ hJob := absurd hJob (hWritten job)
  landed job _ hJob := by simp [hLanded] at hJob

/-- A step of a request that has not yet replaced its file. -/
theorem inv_before {i : Nat} {phase : Phase} {disk : Disk} (hInv : Inv toml configPath s₀ s)
    (hOld : (s.requests i).landed = none) (hOpen : (s.requests i).over = false)
    (hNew : phase.landed = none) (hReturn : ∀ update, phase ≠ .returned (some update))
    (hOk : phase.Ok toml configPath s₀ disk s.servers)
    (hConfig : disk configPath = s.disk configPath)
    (hList : disk s₀.config.web.blocklistPath = s.disk s₀.config.web.blocklistPath)
    (hTemps : ∀ j other, s.requests j = .written other → j ≠ i →
      disk other.temp = s.disk other.temp)
    (hApart : ∀ job, phase = .written job → ∀ j other, s.requests j = .written other →
      other.temp ≠ job.temp) :
    Inv toml configPath s₀ { setPhase s i phase with disk := disk } := by
  obtain ⟨hNotConfig, hNotList, hNotServers⟩ := Phase.not_landed hOld
  refine inv_next hInv rfl hInv.web hOk ?_ ?_ (hInv.config_kept rfl hConfig rfl hNotConfig)
    (hInv.list_kept rfl hList rfl hNotList hOpen fun list => hReturn _)
    (hInv.servers_kept rfl rfl rfl hNotServers)
  · intro j hj hOther
    refine hOther.frame (fun other hPhase => hTemps j other hPhase hj) ?_ fun _ _ => rfl
    intro other hLanded
    rcases (hOther.job hLanded).1.path_cases with ⟨hPath, -⟩ | ⟨hPath, -⟩
    · rw [hPath]
      exact hConfig
    · rw [hPath]
      exact hList
  · intro j _
    exact ⟨fun job other hJob hOther => (hApart job hJob j other hOther).symm,
      fun job other hJob => by simp [hNew] at hJob⟩

/-- The rename puts the request's own text in place of the file. -/
theorem inv_rename {i : Nat} {job : Job} {text : Str} (hInv : Inv toml configPath s₀ s)
    (hPaths : Separate configPath s₀.config.web.blocklistPath)
    (hPhase : s.requests i = .written job) (hText : s.disk job.temp = some text)
    (hAlone : ∀ j other, (s.requests j).landed = some other → other.path ≠ job.path) :
    Inv toml configPath s₀
      { setPhase s i (.renamed job) with
        disk := Function.update (Function.update s.disk job.temp none) job.path (some text) } := by
  obtain ⟨hJob, hTemp⟩ := hInv.at hPhase
  obtain rfl : text = job.text := Option.some.inj (hText.symm.trans hTemp)
  have hOld : (s.requests i).landed = none := by
    rw [hPhase]
    rfl
  obtain ⟨hNotConfig, hNotList, hNotServers⟩ := Phase.not_landed hOld
  set disk := Function.update (Function.update s.disk job.temp none) job.path (some job.text)
    with hDisk
  have hOff : ∀ p, p ≠ job.temp → p ≠ job.path → disk p = s.disk p := by
    intro p hTempNe hPathNe
    rw [hDisk, Function.update_of_ne hPathNe, Function.update_of_ne hTempNe]
  have hOn : disk job.path = some job.text := by rw [hDisk, Function.update_self]
  refine inv_next hInv rfl hInv.web ⟨hJob, hOn⟩ ?_ ?_ ?_ ?_
    (hInv.servers_kept rfl rfl rfl hNotServers)
  · intro j hj hOther
    refine hOther.frame (fun other hWritten => ?_) (fun other hLanded => ?_) fun _ _ => rfl
    · have hApart := (hInv.apart j i hj).written other job hWritten hPhase
      rw [hWritten] at hOther
      exact hOff _ hApart (hOther.1.temp_ne_path hJob hPaths)
    · exact hOff _ (hJob.temp_ne_path (hOther.job hLanded).1 hPaths).symm (hAlone j other hLanded)
  · intro j _
    refine ⟨fun _ _ h => by simp at h, fun job' other hJob' hOther => ?_⟩
    obtain rfl := Option.some.inj hJob'
    exact (hAlone j other hOther).symm
  · rcases hJob.path_cases with ⟨-, cfg, hCfg⟩ | ⟨hPath, -⟩
    · exact Or.inr ⟨i, job, cfg, by simp [setPhase, Phase.landed], hCfg⟩
    · refine hInv.config_kept rfl (hOff _ (hJob.temp_ne hPaths).1.symm ?_) rfl hNotConfig
      rw [hPath]
      exact hPaths.targets
  · rcases hJob.path_cases with ⟨hPath, -⟩ | ⟨-, list, hList⟩
    · refine hInv.list_kept rfl (hOff _ (hJob.temp_ne hPaths).2.symm ?_) rfl hNotList
        (by rw [hPhase]; rfl) (by simp)
      rw [hPath]
      exact hPaths.targets.symm
    · exact Or.inr ⟨i, job, list, by simp [setPhase, Phase.landed], hList⟩

/-- Two updates of the configuration are not both between rename and store. -/
theorem Inv.no_other_servers {i j : Nat} {cfg : Config} {path : Path} {text : Str} {other : Job}
    (hInv : Inv toml configPath s₀ s)
    (hLanded : (s.requests i).landed = some ⟨.config cfg, path, text⟩) (hj : j ≠ i)
    (hPhase : s.requests j = .serversSet other) : False := by
  obtain ⟨hJob, -, cfg', hUpdate, -⟩ := hInv.at hPhase
  have hPath : path = configPath := ((hInv.requests i).job hLanded).1.1
  have hPath' : other.path = configPath := by
    unfold Job.Ok at hJob
    rw [hUpdate] at hJob
    exact hJob.1
  exact (hInv.apart j i hj).landed other _ (by simp [hPhase, Phase.landed]) hLanded
    (hPath'.trans hPath.symm)

/-- `set_servers` of a request that has replaced the configuration file. -/
theorem inv_setServers {i : Nat} {cfg : Config} {path : Path} {text : Str}
    (hInv : Inv toml configPath s₀ s)
    (hPhase : s.requests i = .renamed ⟨.config cfg, path, text⟩) :
    Inv toml configPath s₀
      { setPhase s i (.serversSet ⟨.config cfg, path, text⟩) with
        servers := cfg.upstreamAddrs } := by
  have hLanded : (s.requests i).landed = some ⟨.config cfg, path, text⟩ := by
    rw [hPhase]
    rfl
  obtain ⟨hJob, hText⟩ := (hInv.requests i).job hLanded
  refine inv_next hInv rfl hInv.web ⟨hJob, hText, cfg, rfl, rfl⟩ ?_ ?_ ?_ ?_ ?_
  · intro j hj hOther
    exact hOther.frame (fun _ _ => rfl) (fun _ _ => rfl)
      fun _ hSet => (hInv.no_other_servers hLanded hj hSet).elim
  · intro j hj
    refine ⟨fun _ _ h => by simp at h, fun job other hJob hOther => ?_⟩
    exact (hInv.apart i j hj.symm).landed job other (hLanded.trans hJob) hOther
  · exact Or.inr ⟨i, ⟨.config cfg, path, text⟩, cfg, by simp [setPhase, Phase.landed], rfl⟩
  · exact hInv.list_kept rfl rfl rfl (Phase.not_landedList hLanded rfl) (by rw [hPhase]; rfl)
      (by simp)
  · exact Or.inr ⟨i, _, Function.update_self ..⟩

/-- The store of a request that has replaced the blocklist file. -/
theorem inv_storeList {i : Nat} {list : Blocklist} {path : Path} {text : Str}
    (hInv : Inv toml configPath s₀ s)
    (hPhase : s.requests i = .renamed ⟨.list list, path, text⟩) :
    Inv toml configPath s₀
      { setPhase s i (.returned (some (.list list))) with blocklist := list } := by
  have hLanded : (s.requests i).landed = some ⟨.list list, path, text⟩ := by
    rw [hPhase]
    rfl
  obtain ⟨⟨hPath, hSame⟩, hText⟩ := (hInv.requests i).job hLanded
  refine inv_next hInv rfl hInv.web trivial (fun _ _ h => h) ?_
    (hInv.config_kept rfl rfl rfl (Phase.not_landedConfig hLanded rfl)) ?_
    (hInv.servers_kept rfl rfl rfl (by simp [hPhase]))
  · exact fun j _ => Phase.apart_of_idle (by simp) rfl
  · left
    left
    exact ⟨⟨i, list, Function.update_self ..⟩,
      (congrArg s.disk hPath).symm.trans (hText.trans (congrArg some hSame))⟩

/-- The store of a request that has replaced the configuration file and set the
servers. -/
theorem inv_storeConfig {i : Nat} {cfg : Config} {path : Path} {text : Str}
    (hInv : Inv toml configPath s₀ s)
    (hPhase : s.requests i = .serversSet ⟨.config cfg, path, text⟩) :
    Inv toml configPath s₀
      { setPhase s i (.returned (some (.config cfg))) with config := cfg } := by
  have hLanded : (s.requests i).landed = some ⟨.config cfg, path, text⟩ := by
    rw [hPhase]
    rfl
  obtain ⟨⟨hPath, hPretty, hWeb⟩, hText⟩ := (hInv.requests i).job hLanded
  obtain ⟨-, -, cfg', hUpdate, hServers⟩ := hInv.at hPhase
  obtain rfl : cfg = cfg' := Update.config.inj hUpdate
  refine inv_next hInv rfl hWeb trivial (fun _ _ h => h) ?_ ?_ ?_ ?_
  · exact fun j _ => Phase.apart_of_idle (by simp) rfl
  · left
    exact ⟨text, (congrArg s.disk hPath).symm.trans hText, toml.roundTrip cfg text hPretty⟩
  · exact hInv.list_kept rfl rfl rfl (Phase.not_landedList hLanded rfl) (by rw [hPhase]; rfl)
      (by simp)
  · exact Or.inl hServers

/-- No update changes the web settings. -/
theorem ConfigUpdate.apply_web {body : ConfigUpdate} {cfg cfg' : Config}
    (hApply : body.apply cfg = .ok cfg') : cfg'.web = cfg.web := by
  simp only [ConfigUpdate.apply, bind, Except.bind, throw, throwThe, MonadExceptOf.throw, pure,
    Except.pure] at hApply
  split at hApply
  · simp at hApply
  split at hApply
  · simp at hApply
  split at hApply
  · split at hApply
    · obtain rfl := Except.ok.inj hApply
      rfl
    · simp at hApply
  · simp at hApply

/-- A request prepares what it was asked to store. -/
theorem prepare_ok {body : Body} {job : Job} (hInv : Inv toml configPath s₀ s)
    (hJob : prepare toml configPath s body = some job) : job.Ok toml configPath s₀ := by
  rcases prepare_cases hJob with ⟨text, list, -, -, rfl⟩ | ⟨update, cfg, text, -, hApply, hPretty, rfl⟩
  · exact ⟨congrArg WebConfig.blocklistPath hInv.web, rfl⟩
  · exact ⟨rfl, hPretty, (ConfigUpdate.apply_web hApply).trans hInv.web⟩

/-- A step of a request that has not yet written anything. -/
theorem inv_setPhase {i : Nat} {phase : Phase} (hInv : Inv toml configPath s₀ s)
    (hOld : (s.requests i).landed = none) (hOpen : (s.requests i).over = false)
    (hNew : phase.landed = none) (hReturn : ∀ update, phase ≠ .returned (some update))
    (hWritten : ∀ job, phase ≠ .written job)
    (hOk : phase.Ok toml configPath s₀ s.disk s.servers) :
    Inv toml configPath s₀ (setPhase s i phase) :=
  inv_before hInv hOld hOpen hNew hReturn hOk rfl rfl (fun _ _ _ _ => rfl)
    fun job hPhase => (hWritten job hPhase).elim

/-- The temporary file is no target and belongs to no other request. -/
theorem inv_temp {i : Nat} {phase : Phase} {job : Job} {left : Option Str}
    (hInv : Inv toml configPath s₀ s) (hPaths : Separate configPath s₀.config.web.blocklistPath)
    (hPhase : s.requests i = .prepared job) (hNew : phase.landed = none)
    (hReturn : ∀ update, phase ≠ .returned (some update))
    (hWritten : ∀ other, phase = .written other → other = job)
    (hOk : phase.Ok toml configPath s₀ (Function.update s.disk job.temp left) s.servers)
    (hAlone : ∀ j other, s.requests j = .written other → other.temp ≠ job.temp) :
    Inv toml configPath s₀
      { setPhase s i phase with disk := Function.update s.disk job.temp left } := by
  obtain ⟨hConfig, hList⟩ := Job.Ok.temp_ne (hInv.at hPhase) hPaths
  refine inv_before hInv (by simp [hPhase, Phase.landed]) (by rw [hPhase]; rfl) hNew hReturn hOk
    (Function.update_of_ne hConfig.symm ..) (Function.update_of_ne hList.symm ..) ?_ ?_
  · exact fun j other hOther _ => Function.update_of_ne (hAlone j other hOther) ..
  · intro other hOther
    rw [hWritten other hOther]
    exact hAlone

/-- No step that keeps the file operations apart breaks the invariant. -/
theorem inv_step {e : Event} (hPaths : Separate configPath s₀.config.web.blocklistPath)
    (hInv : Inv toml configPath s₀ s) (hExclusive : Exclusive s e)
    (hStep : step toml configPath s e = some s') : Inv toml configPath s₀ s' := by
  cases step_cases hStep with
  | post body hPhase =>
      exact inv_setPhase hInv (by simp [hPhase, Phase.landed]) (by rw [hPhase]; rfl) rfl (by simp)
        (by simp) trivial
  | refuse hPhase =>
      exact inv_setPhase hInv (by simp [hPhase, Phase.landed]) (by rw [hPhase]; rfl) rfl (by simp)
        (by simp) trivial
  | load hPhase hJob =>
      exact inv_setPhase hInv (by simp [hPhase, Phase.landed]) (by rw [hPhase]; rfl) rfl (by simp)
        (by simp) (prepare_ok hInv hJob)
  | writeTemp hPhase =>
      exact inv_temp hInv hPaths hPhase rfl (by simp) (by simp)
        ⟨hInv.at hPhase, Function.update_self ..⟩ (hExclusive _ hPhase)
  | failTemp left hPhase =>
      exact inv_temp hInv hPaths hPhase rfl (by simp) (by simp) trivial (hExclusive _ hPhase)
  | renameMissing hPhase =>
      exact inv_setPhase hInv (by simp [hPhase, Phase.landed]) (by rw [hPhase]; rfl) rfl (by simp)
        (by simp) trivial
  | rename hPhase hText => exact inv_rename hInv hPaths hPhase hText (hExclusive _ hPhase)
  | failRename hPhase =>
      exact inv_setPhase hInv (by simp [hPhase, Phase.landed]) (by rw [hPhase]; rfl) rfl (by simp)
        (by simp) trivial
  | setServers hPhase => exact inv_setServers hInv hPhase
  | storeList hPhase => exact inv_storeList hInv hPhase
  | storeConfig hPhase => exact inv_storeConfig hInv hPhase

/-- After a start files and live state agree, and no request is under way. -/
theorem inv_boot {token : Token} {disk : Disk}
    (hBoot : boot toml configPath token disk = some s₀) : Inv toml configPath s₀ s₀ := by
  obtain ⟨hConfig, -, hServers, hIdle, -⟩ := boot_agrees hBoot
  refine ⟨rfl, ?_, ?_, Or.inl hConfig, Or.inl (Or.inr ⟨?_, rfl, rfl⟩), Or.inl hServers⟩
  · intro i
    rw [hIdle]
    trivial
  · intro i j _
    rw [hIdle]
    exact Phase.apart_of_idle (by simp) rfl
  · rintro ⟨i, list, hReturned⟩
    simp [hIdle] at hReturned

/-- A settled request is about to write, rename or store nothing. -/
theorem Phase.not_written_of_settled {phase : Phase} (hSettled : phase.settled = true) :
    (∀ job, phase ≠ .written job) ∧ phase.landed = none := by
  cases phase <;> simp_all [Phase.settled, Phase.landed]

/-- The files and the live state say the same, and so does a restart: it serves
the same configuration, servers and list. -/
structure Converged (toml : Toml) (configPath : Path) (s₀ s : State) : Prop where
  config : ConfigAgrees toml configPath s
  servers : s.servers = s.config.upstreamAddrs
  list : ListAgrees s₀ s
  restart : ∀ token, ∃ s', boot toml configPath token s.disk = some s' ∧
    s'.config = s.config ∧ s'.servers = s.servers ∧ s'.blocklist = s.blocklist

/-- Updates whose file operations do not overlap leave the files and the live
state in agreement once every request has returned, if a live list that an
update has brought in reads back from its own text. -/
theorem updates_converge {token : Token} {disk : Disk} {es : List Event}
    (hBoot : boot toml configPath token disk = some s₀)
    (hPaths : Separate configPath s₀.config.web.blocklistPath)
    (hExclusive : Machine.Along (step toml configPath) Exclusive s₀ es)
    (hRun : Machine.run (step toml configPath) s₀ es = some s)
    (hSettled : ∀ i, (s.requests i).settled = true)
    (hReread : s.ListStored → Blocklist.fromText s.blocklist.toFileText = s.blocklist) :
    Converged toml configPath s₀ s := by
  have hInv : Inv toml configPath s₀ s :=
    Machine.run_invariant_along (fun _ _ _ hInv hEvent => inv_step hPaths hInv hEvent)
      (inv_boot hBoot) hExclusive hRun
  have hLanded : ∀ i, (s.requests i).landed = none := fun i =>
    (Phase.not_written_of_settled (hSettled i)).2
  have hConfig : ConfigAgrees toml configPath s :=
    hInv.config.resolve_right fun ⟨i, hSome⟩ => (Phase.not_landed (hLanded i)).1 hSome
  have hList : ListAgrees s₀ s :=
    hInv.list.resolve_right fun ⟨i, hSome⟩ => (Phase.not_landed (hLanded i)).2.1 hSome
  have hServers : s.servers = s.config.upstreamAddrs :=
    hInv.servers.resolve_right fun ⟨i, job, hSet⟩ => (Phase.not_landed (hLanded i)).2.2 job hSet
  refine ⟨hConfig, hServers, hList, fun fresh => ?_⟩
  obtain ⟨-, hToken, -, -, text, hText, hRead⟩ := boot_agrees hBoot
  have hWeb := hInv.web
  rw [← hWeb] at hToken
  rcases hList with ⟨hStored, hFile⟩ | ⟨-, hLive, hFile⟩
  · rw [← hWeb] at hFile
    exact ⟨_, boot_of_reads fresh hConfig hToken hFile, rfl, hServers.symm, hReread hStored⟩
  · rw [hText, ← hWeb] at hFile
    exact ⟨_, boot_of_reads fresh hConfig hToken hFile, rfl, hServers.symm,
      hRead.symm.trans hLive.symm⟩

/-- A request that is alone overlaps with none. -/
theorem exclusive_alone {e : Event} (hOthers : ∀ j ≠ e.request, (s.requests j).settled = true) :
    Exclusive s e := by
  cases e with
  | writeTemp i | failTemp i =>
      intro job hPhase j other hOther
      by_cases hj : j = i
      · simp [hj, hPhase] at hOther
      · exact absurd hOther ((Phase.not_written_of_settled (hOthers j hj)).1 other)
  | rename i =>
      intro job hPhase j other hOther
      by_cases hj : j = i
      · simp [hj, hPhase, Phase.landed] at hOther
      · simp [(Phase.not_written_of_settled (hOthers j hj)).2] at hOther
  | _ => trivial

/-- One request among settled ones overlaps with none. -/
theorem along_alone {es : List Event} {i : Nat}
    (hOthers : ∀ j ≠ i, (s.requests j).settled = true) (hAlone : ∀ e ∈ es, e.request = i) :
    Machine.Along (step toml configPath) Exclusive s es := by
  induction es generalizing s with
  | nil => trivial
  | cons e rest ih =>
      obtain rfl := hAlone e List.mem_cons_self
      refine ⟨exclusive_alone hOthers, fun s' hStep => ih ?_ fun e he => ?_⟩
      · intro j hj
        rw [step_frame hStep hj, hOthers j hj]
      · exact hAlone e (List.mem_cons_of_mem _ he)

/-- The default configuration with one upstream server and a token. -/
def sampleConfig (server : Str) : Config :=
  { Config.default with
    upstream := { Config.default.upstream with servers := [server] }
    web := { Config.default.web with adminToken := "secret".toList } }

def sampleText (server : Str) : Str :=
  unlines
    ["[dns]".toList,
      "bind = \"0.0.0.0:53\"".toList,
      "workers = 0".toList,
      "sinkhole_mode = \"zero_ip\"".toList,
      "sinkhole_ipv4 = \"0.0.0.0\"".toList,
      "sinkhole_ipv6 = \"::\"".toList,
      "sinkhole_ttl = 60".toList,
      "max_inflight = 8192".toList,
      "".toList,
      "[upstream]".toList,
      "servers = [\"".toList ++ server ++ "\"]".toList,
      "timeout_ms = 2000".toList,
      "max_concurrent = 256".toList,
      "max_qps = 2000".toList,
      "".toList,
      "[cache]".toList,
      "max_entries = 500000".toList,
      "db_path = \"cache.redb\"".toList,
      "flush_ms = 500".toList,
      "purge_interval_secs = 300".toList,
      "min_ttl = 30".toList,
      "max_ttl = 86400".toList,
      "negative_ttl = 60".toList,
      "".toList,
      "[web]".toList,
      "bind = \"127.0.0.1:8080\"".toList,
      "admin_token = \"secret\"".toList,
      "blocklist_path = \"blocklist.txt\"".toList,
      "".toList,
      "[qlog]".toList,
      "enabled = true".toList,
      "dir = \"logs\"".toList,
      "max_bytes = 2147483648".toList,
      "flush_secs = 5".toList,
      "flush_rows = 10000".toList,
      "log_client_ip = true".toList,
      "mem_limit_mb = 128".toList]

def sampleRow (server : String) : Config × Str :=
  (sampleConfig server.toList, sampleText server.toList)

def sampleToml : Toml :=
  Toml.ofTable [sampleRow "1.1.1.1:53", sampleRow "8.8.8.8:53", sampleRow "9.9.9.9:53"]
    (by decide +kernel)

def samplePath : Path := "config.toml".toList

def sampleDisk : Disk :=
  Function.update (Function.update (fun _ => none) samplePath (some (sampleRow "1.1.1.1:53").2))
    "blocklist.txt".toList (some "facebook.com\n".toList)

def sampleToken : Token := ⟨List.replicate 32 '0', by decide⟩

/-- The update that changes the server and nothing else. -/
def sampleBody (server : String) : Body :=
  .config
    { upstreamServers := [server.toList]
      timeoutMs := 2000
      maxQps := 2000
      maxConcurrent := 256
      sinkholeMode := "zero_ip".toList
      sinkholeIpv4 := "0.0.0.0".toList
      sinkholeIpv6 := "::".toList }

def oneUpdate : List Event :=
  [.post 0 (sampleBody "8.8.8.8:53"), .load 0, .writeTemp 0, .rename 0, .setServers 0, .store 0]

/-- Another request brings in another list. -/
def oneList : List Event :=
  [.post 1 (.blocklist "ads.example\n".toList), .load 1, .writeTemp 1, .rename 1, .store 1]

/-- The later of two writers is the first to store. -/
def twoUpdates : List Event :=
  [.post 0 (sampleBody "8.8.8.8:53"), .post 1 (sampleBody "9.9.9.9:53"), .load 0, .load 1,
    .writeTemp 0, .rename 0, .writeTemp 1, .rename 1, .setServers 1, .store 1, .setServers 0,
    .store 0]

theorem sample_separate : Separate samplePath "blocklist.txt".toList := by
  constructor <;> decide +kernel

/-- What a start from the sample files leaves live. -/
def sampleState : State where
  disk := sampleDisk
  config := sampleConfig "1.1.1.1:53".toList
  servers := (sampleConfig "1.1.1.1:53".toList).upstreamAddrs
  blocklist := Blocklist.fromText "facebook.com\n".toList
  requests := fun _ => .idle

/-- The library need not be run on the text: it reads back what it writes. -/
theorem sample_boot (toml : Toml)
    (hText : toml.toStringPretty (sampleConfig "1.1.1.1:53".toList) =
      some (sampleText "1.1.1.1:53".toList)) :
    boot toml samplePath sampleToken sampleDisk = some sampleState := by
  have hReads : Reads toml samplePath sampleDisk (sampleConfig "1.1.1.1:53".toList) :=
    ⟨_, rfl, toml.roundTrip _ _ hText⟩
  exact boot_of_reads sampleToken hReads (by decide) rfl

/-- Both updates reach the files and the live state, one after the other. -/
theorem updates_converge_inTurn :
    ∃ s₀ s, boot sampleToml samplePath sampleToken sampleDisk = some s₀ ∧
      Machine.run (step sampleToml samplePath) s₀ (oneUpdate ++ oneList) = some s ∧
      s.config = sampleConfig "8.8.8.8:53".toList ∧
      s.blocklist = Blocklist.fromText "ads.example\n".toList ∧
      Converged sampleToml samplePath s₀ s := by
  have hBoot := sample_boot sampleToml rfl
  have hEval : ((Machine.run (step sampleToml samplePath) sampleState oneUpdate).bind fun middle =>
      (Machine.run (step sampleToml samplePath) middle oneList).map fun s =>
        ((middle.requests 0).settled, s.config, s.blocklist, (s.requests 0).settled,
          (s.requests 1).settled)) =
      some (true, sampleConfig "8.8.8.8:53".toList, Blocklist.fromText "ads.example\n".toList, true,
        true) := by
    decide +kernel
  obtain ⟨middle, hFirst, hLater⟩ := Option.bind_eq_some_iff.mp hEval
  obtain ⟨s, hSecond, hEnd⟩ := Option.map_eq_some_iff.mp hLater
  simp only [Prod.mk.injEq] at hEnd
  obtain ⟨hMiddle, hConfig, hList, hZero, hOne⟩ := hEnd
  have hAlone : ∀ e ∈ oneUpdate, e.request = 0 := by decide +kernel
  have hAlone' : ∀ e ∈ oneList, e.request = 1 := by decide +kernel
  have hIdle : ∀ j ≠ 0, middle.requests j = .idle := fun j hj =>
    run_frame hFirst fun e he => hAlone e he ▸ hj
  have hOthers : ∀ j ≠ 1, (middle.requests j).settled = true := by
    intro j _
    by_cases hj : j = 0
    · rw [hj, hMiddle]
    · rw [hIdle j hj]
      rfl
  have hExclusive : Machine.Along (step sampleToml samplePath) Exclusive sampleState
      (oneUpdate ++ oneList) := by
    refine Machine.along_append_iff.mpr ⟨along_alone (fun _ _ => rfl) hAlone, fun t hRun => ?_⟩
    obtain rfl := Option.some.inj (hFirst.symm.trans hRun)
    exact along_alone hOthers hAlone'
  have hRun := Machine.run_append.mpr ⟨middle, hFirst, hSecond⟩
  have hReread : Blocklist.fromText s.blocklist.toFileText = s.blocklist := by
    rw [hList]
    decide +kernel
  refine ⟨sampleState, s, hBoot, hRun, hConfig, hList,
    updates_converge hBoot sample_separate hExclusive hRun (fun i => ?_) fun _ => hReread⟩
  by_cases hi : i = 1
  · rw [hi, hOne]
  · rw [run_frame hSecond fun e he => hAlone' e he ▸ hi]
    exact hOthers i hi

/-- Two overlapping updates, both answered without an error, leave the file with
the one server and the live configuration with the other. -/
theorem two_updates_diverge :
    ∃ s₀ s, boot sampleToml samplePath sampleToken sampleDisk = some s₀ ∧
      Machine.run (step sampleToml samplePath) s₀ twoUpdates = some s ∧
      (∀ i, (s.requests i).settled = true) ∧
      s.disk samplePath = some (sampleText "9.9.9.9:53".toList) ∧
      s.config = sampleConfig "8.8.8.8:53".toList ∧
      ¬ConfigAgrees sampleToml samplePath s := by
  have hBoot := sample_boot sampleToml rfl
  have hEval : ((Machine.run (step sampleToml samplePath) sampleState twoUpdates).map fun s =>
      (s.config, (s.requests 0).settled && (s.requests 1).settled)) =
        some (sampleConfig "8.8.8.8:53".toList, true) := by
    decide +kernel
  have hDisk : ((Machine.run (step sampleToml samplePath) sampleState twoUpdates).map fun s =>
      s.disk samplePath) = some (some (sampleText "9.9.9.9:53".toList)) := rfl
  obtain ⟨s, hRun, hPair⟩ := Option.map_eq_some_iff.mp hEval
  rw [hRun, Option.map_some] at hDisk
  have hFile := Option.some.inj hDisk
  simp only [Prod.mk.injEq, Bool.and_eq_true] at hPair
  obtain ⟨hConfig, hFirst, hSecond⟩ := hPair
  have hTwo : ∀ e ∈ twoUpdates, e.request = 0 ∨ e.request = 1 := by decide +kernel
  refine ⟨sampleState, s, hBoot, hRun, fun i => ?_, hFile, hConfig, ?_⟩
  · by_cases hi : i = 0 ∨ i = 1
    · rcases hi with rfl | rfl
      · exact hFirst
      · exact hSecond
    · rw [run_frame hRun fun e he hEq => hi (by rw [hEq]; exact hTwo e he)]
      rfl
  · rintro ⟨text, hText, hParse⟩
    have hOther : sampleToml.fromStr (sampleText "9.9.9.9:53".toList) =
        some (sampleConfig "9.9.9.9:53".toList) :=
      sampleToml.roundTrip _ _ rfl
    obtain rfl := Option.some.inj (hFile.symm.trans hText)
    rw [hConfig, hOther] at hParse
    exact absurd (Option.some.inj hParse) (by decide +kernel)

end Admin

end RustDns
