import RustDns.Admin.Settings
import RustDns.System.InForce

/-! The process may end at any moment. The next one starts from the files the
last one left: what was acknowledged is there, and so is what was in force. -/
namespace RustDns

namespace Admin

variable {toml : Toml} {configPath : Path} {s₀ s : State}

/-- What a start makes of the files of a state: the live configuration and the
live list as its file text reads back, or those of a request that has replaced
its file and not yet stored. A list that no update has stored is read from the
text it was started with, and is the same. -/
structure Found (s a : State) : Prop where
  disk : a.disk = s.disk
  config : a.config = s.config ∨
    ∃ i job, (s.requests i).landed = some job ∧ job.update = .config a.config
  list : a.blocklist = s.blocklist ∨ a.blocklist = Blocklist.fromText s.blocklist.toFileText ∨
    ∃ i job list, (s.requests i).landed = some job ∧ job.update = .list list ∧
      a.blocklist = Blocklist.fromText list.toFileText

/-- The configuration file reads back as the live configuration, or as that of
an update which has been renamed into place. -/
theorem Inv.config_read (hInv : Inv toml configPath s₀ s) :
    ∃ cfg, Reads toml configPath s.disk cfg ∧ cfg.web = s₀.config.web ∧
      (cfg = s.config ∨ ∃ i job, (s.requests i).landed = some job ∧ job.update = .config cfg) := by
  rcases hInv.config with hReads | ⟨i, job, cfg, hLanded, hUpdate⟩
  · exact ⟨s.config, hReads, hInv.web, Or.inl rfl⟩
  · obtain ⟨hJob, hText⟩ := (hInv.requests i).job hLanded
    unfold Job.Ok at hJob
    rw [hUpdate] at hJob
    obtain ⟨hPath, hPretty, hWeb⟩ := hJob
    rw [hPath] at hText
    exact ⟨cfg, ⟨job.text, hText, toml.roundTrip cfg _ hPretty⟩, hWeb, Or.inr ⟨i, job, hLanded, hUpdate⟩⟩

/-- The blocklist file is there, and is the live list written out, or what the
live list was read from, or what a request has put there. -/
theorem Inv.list_read (hInv : Inv toml configPath s₀ s)
    (hRead : ∃ text, s₀.disk s₀.config.web.blocklistPath = some text ∧
      s₀.blocklist = Blocklist.fromText text) :
    ∃ text, s.disk s₀.config.web.blocklistPath = some text ∧
      (Blocklist.fromText text = s.blocklist ∨ text = s.blocklist.toFileText ∨
        ∃ i job list, (s.requests i).landed = some job ∧ job.update = .list list ∧
          text = list.toFileText) := by
  rcases hInv.list with (⟨-, hFile⟩ | ⟨-, hLive, hFile⟩) | ⟨i, job, list, hLanded, hUpdate⟩
  · exact ⟨_, hFile, Or.inr (Or.inl rfl)⟩
  · obtain ⟨text, hText, hSame⟩ := hRead
    exact ⟨text, hFile.trans hText, Or.inl (by rw [hLive, hSame])⟩
  · obtain ⟨hJob, hText⟩ := (hInv.requests i).job hLanded
    unfold Job.Ok at hJob
    rw [hUpdate] at hJob
    obtain ⟨hPath, hSame⟩ := hJob
    rw [hPath] at hText
    exact ⟨job.text, hText, Or.inr (Or.inr ⟨i, job, list, hLanded, hUpdate, hSame⟩)⟩

/-- A start reads the files well and leaves them as they are. -/
theorem Inv.boot_found {token₀ : Token} {disk₀ : Disk} (hBoot : boot toml configPath token₀ disk₀ = some s₀)
    (hInv : Inv toml configPath s₀ s) (token : Token) :
    ∃ a, boot toml configPath token s.disk = some a ∧ Found s a ∧ a.config.web = s₀.config.web := by
  obtain ⟨-, hToken, -, -, hRead⟩ := boot_agrees hBoot
  obtain ⟨cfg, hReads, hWeb, hConfig⟩ := hInv.config_read
  obtain ⟨text, hText, hList⟩ := hInv.list_read hRead
  rw [← hWeb] at hToken hText
  refine ⟨_, boot_of_reads token hReads hToken hText, ⟨rfl, hConfig, ?_⟩, hWeb⟩
  rcases hList with hSame | rfl | ⟨i, job, list, hLanded, hUpdate, rfl⟩
  · exact Or.inl hSame
  · exact Or.inr (Or.inl rfl)
  · exact Or.inr (Or.inr ⟨i, job, list, hLanded, hUpdate, rfl⟩)

end Admin

namespace System

variable {env : Env} {toml : Admin.Toml} {configPath : Admin.Path} {s s' : State env}

/-- The file operations of updates do not overlap. -/
def Exclusive (s : State env) : Event → Prop
  | .admin e => Admin.Exclusive s.admin e
  | _ => True

/-- What any start needs of the files, whichever of them it finds. -/
structure Recoverable (toml : Admin.Toml) (configPath : Admin.Path) (first s : Admin.State) : Prop where
  started : ∃ token disk s₀, Admin.boot toml configPath token disk = some s₀ ∧
    s₀.config.web = first.config.web ∧ Admin.Inv toml configPath s₀ s
  bind : Admin.Throughout (fun cfg => cfg.dns.bind = first.config.dns.bind) s

/-- Updates leave the DNS address. -/
theorem bind_apply (bind : Str) (body : Admin.ConfigUpdate) (cfg cfg' : Config)
    (hBind : cfg.dns.bind = bind) (hApply : body.apply cfg = .ok cfg') : cfg'.dns.bind = bind := by
  obtain ⟨-, ipv4, ipv6, -, -, rfl⟩ := Admin.ConfigUpdate.apply_ok_iff.mp hApply
  exact hBind

/-- A start leaves the files fit for the next. -/
theorem recoverable_boot {token : Admin.Token} {disk : Admin.Disk} {first a : Admin.State}
    (hBoot : Admin.boot toml configPath token disk = some a) (hWeb : a.config.web = first.config.web)
    (hBind : a.config.dns.bind = first.config.dns.bind) : Recoverable toml configPath first a where
  started := ⟨token, disk, a, hBoot, hWeb, Admin.inv_boot hBoot⟩
  bind :=
    { live := hBind
      requests := fun i cfg hCfg => by
        obtain ⟨-, -, -, hIdle, -⟩ := Admin.boot_agrees hBoot
        simp [hIdle, Admin.Phase.settings] at hCfg }

/-- A start finds what it needs, and starts if the configuration can be
built. -/
theorem Recoverable.boot_found {first : Admin.State} {a : Admin.State}
    (hRecoverable : Recoverable toml configPath first a) (token : Admin.Token) :
    ∃ b, Admin.boot toml configPath token a.disk = some b ∧ Admin.Found a b ∧
      b.config.web = first.config.web ∧ b.config.dns.bind = first.config.dns.bind := by
  obtain ⟨token₀, disk₀, s₀, hBoot, hWeb, hInv⟩ := hRecoverable.started
  obtain ⟨b, hFound, hSame, hKept⟩ := hInv.boot_found hBoot token
  refine ⟨b, hFound, hSame, hKept.trans hWeb, ?_⟩
  rcases hSame.config with hLive | ⟨i, job, hLanded, hUpdate⟩
  · rw [hLive]
    exact hRecoverable.bind.live
  · refine hRecoverable.bind.requests i b.config ?_
    cases hPhase : a.requests i with
    | renamed other | serversSet other =>
        rw [hPhase] at hLanded
        obtain rfl := Option.some.inj hLanded
        simp [Admin.Phase.settings, hUpdate, Admin.Update.settings]
    | _ =>
        rw [hPhase] at hLanded
        simp [Admin.Phase.landed] at hLanded

/-- A step leaves the files fit for a start: updates and crashes leave files
that read back. -/
theorem recoverable_step {first : Admin.State} {e : Event}
    (hPaths : Admin.Separate configPath first.config.web.blocklistPath)
    (hRecoverable : Recoverable toml configPath first s.admin) (hExclusive : Exclusive s e)
    (hStep : step toml configPath s e = some s') : Recoverable toml configPath first s'.admin := by
  cases step_cases hStep with
  | dns hInternal hServer =>
      rw [admin_of_dns hInternal hServer]
      exact hRecoverable
  | admin hAdmin =>
      obtain ⟨token, disk, s₀, hBoot, hWeb, hInv⟩ := hRecoverable.started
      rw [← hWeb] at hPaths
      exact ⟨⟨token, disk, s₀, hBoot, hWeb, Admin.inv_step hPaths hInv hExclusive hAdmin⟩,
        Admin.throughout_step (bind_apply _) hRecoverable.bind hAdmin⟩
  | @restart token loaded _ hRestart =>
      obtain ⟨b, hFound, -, hWeb, hBind⟩ := hRecoverable.boot_found token
      have hBoot := admin_of_start hRestart
      obtain rfl := Option.some.inj (hFound.symm.trans hBoot)
      exact recoverable_boot hBoot hWeb hBind

section

variable {now : UnixTime} {token : Admin.Token} {disk : Admin.Disk} {s₀ : State env} {es : List Event}

/-- In every run whose updates do not overlap the files are fit for a start. -/
theorem recoverable_run (hInit : init toml configPath now token disk = some s₀)
    (hPaths : Admin.Separate configPath s₀.server.config.web.blocklistPath)
    (hExclusive : Machine.Along (step toml configPath) Exclusive s₀ es)
    (hRun : Machine.run (step toml configPath) s₀ es = some s) :
    Recoverable toml configPath s₀.admin s.admin :=
  Machine.run_invariant_along
    (fun _ _ _ hRecoverable hEvent hStep => recoverable_step hPaths hRecoverable hEvent hStep)
    (recoverable_boot (admin_of_start hInit) rfl rfl) hExclusive hRun

/-- At every moment of every run whose file operations do not overlap, with any
number of crashes, the next start finds the files whole: it comes up with the
live configuration and with the live list as its file text reads back, or with
those of a request that has replaced its file and not yet been answered, and
changes no file. It fails only on a configuration it cannot build. -/
theorem restart_recovers (hInit : init toml configPath now token disk = some s₀)
    (hPaths : Admin.Separate configPath s₀.server.config.web.blocklistPath)
    (hExclusive : Machine.Along (step toml configPath) Exclusive s₀ es)
    (hRun : Machine.run (step toml configPath) s₀ es = some s) (fresh : Admin.Token) (loaded : Bool) :
    ∃ a, Admin.boot toml configPath fresh s.disk = some a ∧ Admin.Found s.admin a ∧
      ((Admin.construct a.config).isSome ↔
        ∃ s', restart toml configPath s fresh loaded = some s' ∧ s'.admin = a) := by
  have hRecoverable := recoverable_run hInit hPaths hExclusive hRun
  obtain ⟨a, hBoot, hFound, -, hBind⟩ := hRecoverable.boot_found fresh
  obtain ⟨b, -, -, hAddr, hFirst⟩ := start_eq_some_iff.mp hInit
  refine ⟨a, hBoot, hFound, fun hBuilt => ?_, ?_⟩
  · have hParses : (SocketAddr.parse a.config.dns.bind).isSome := by
      rw [hBind, hFirst]
      exact hAddr
    obtain ⟨s', hRestart⟩ : ∃ s', restart toml configPath s fresh loaded = some s' :=
      ⟨_, start_eq_some_iff.mpr ⟨a, hBoot, hBuilt, hParses, rfl⟩⟩
    exact ⟨s', hRestart, Option.some.inj ((admin_of_start hRestart).symm.trans hBoot)⟩
  · rintro ⟨s', hRestart, rfl⟩
    obtain ⟨b', -, hBuilt, -, rfl⟩ := start_eq_some_iff.mp hRestart
    exact hBuilt

end

/-- Requests one at a time do not overlap, whatever the rest of the process
does. -/
theorem along_alone {es : List Event} {i : Nat} (hOthers : ∀ j ≠ i, s.requests j = .idle)
    (hAlone : ∀ e, .admin e ∈ es → e.request = i) :
    Machine.Along (step toml configPath) Exclusive s es := by
  induction es generalizing s with
  | nil => trivial
  | cons e rest ih =>
      have hRest : ∀ e, .admin e ∈ rest → e.request = i := fun e hMem =>
        hAlone e (List.mem_cons_of_mem _ hMem)
      cases e with
      | dns e =>
          refine ⟨trivial, fun s' hStep => ih ?_ hRest⟩
          cases step_cases hStep with
          | dns hInternal hServer => exact hOthers
      | admin e =>
          obtain rfl := hAlone e List.mem_cons_self
          refine ⟨Admin.exclusive_alone fun j hj => congrArg Admin.Phase.settled (hOthers j hj),
            fun s' hStep => ih (fun j hj => ?_) hRest⟩
          cases step_cases hStep with
          | admin hAdmin => exact (Admin.step_frame hAdmin hj).trans (hOthers j hj)
      | restart token loaded =>
          refine ⟨trivial, fun s' hStep => ih (fun j _ => ?_) hRest⟩
          cases step_cases hStep with
          | restart hRestart =>
              obtain ⟨-, -, -, hIdle, -⟩ := Admin.boot_agrees (admin_of_start hRestart)
              exact hIdle j

/-- An update of the settings that has replaced the file. -/
def replaced : List Event := .admin (.post 0 (Admin.sampleBody "8.8.8.8:53")) :: saveList

/-- The process ends before the update is live; the next one starts with it. -/
theorem restart_recovers_replaced :
    ∃ (s s' : State Server.sampleEnv) (a : Admin.State),
      Machine.run (step Admin.sampleToml Admin.samplePath) (startedWith "a".toList) replaced = some s ∧
      s.server.config = Admin.sampleConfig "1.1.1.1:53".toList ∧
      Admin.boot Admin.sampleToml Admin.samplePath Admin.sampleToken s.disk = some a ∧
      a.config = Admin.sampleConfig "8.8.8.8:53".toList ∧ a.disk = s.disk ∧
      restart Admin.sampleToml Admin.samplePath s Admin.sampleToken true = some s' ∧ s'.admin = a := by
  have hEval : ((Machine.run (step Admin.sampleToml Admin.samplePath) (startedWith "a".toList)
      replaced).map fun s => (s.server.config,
        (Admin.boot Admin.sampleToml Admin.samplePath Admin.sampleToken s.disk).map
          Admin.State.config)) =
        some (Admin.sampleConfig "1.1.1.1:53".toList, some (Admin.sampleConfig "8.8.8.8:53".toList)) := by
    decide +kernel
  obtain ⟨s, hRun, hPair⟩ := Option.map_eq_some_iff.mp hEval
  obtain ⟨hLive, hNext⟩ := Prod.mk.inj hPair
  have hAlone : ∀ e, .admin e ∈ replaced → e.request = 0 := by
    intro e hMem
    simp only [replaced, saveList, List.mem_cons, List.not_mem_nil, or_false, Event.admin.injEq] at hMem
    rcases hMem with rfl | rfl | rfl | rfl <;> rfl
  obtain ⟨a, hBoot, hFound, hStarts⟩ :=
    restart_recovers (init_startedWith "a".toList) Admin.sample_separate
      (along_alone (fun _ _ => rfl) hAlone) hRun Admin.sampleToken true
  have hConfig : a.config = Admin.sampleConfig "8.8.8.8:53".toList := by
    rw [hBoot] at hNext
    exact Option.some.inj hNext
  have hBuilt : (Admin.construct a.config).isSome := by
    rw [hConfig]
    decide +kernel
  obtain ⟨s', hRestart, hAdmin⟩ := hStarts.mp hBuilt
  exact ⟨s, s', a, hRun, hLive, hBoot, hConfig, hFound.disk, hRestart, hAdmin⟩

end System

end RustDns
