import RustDns.Admin.Machine

/-! What a start reads from the files and leaves there. -/
namespace RustDns

namespace Admin

/-- The configuration file reads as the configuration. -/
def Reads (toml : Toml) (configPath : Path) (disk : Disk) (cfg : Config) : Prop :=
  ∃ text, disk configPath = some text ∧ toml.fromStr text = some cfg

/-- The configuration file reads as the live configuration. -/
def ConfigAgrees (toml : Toml) (configPath : Path) (s : State) : Prop :=
  Reads toml configPath s.disk s.config

variable {toml : Toml} {configPath : Path} {s₀ : State}

/-- What is saved reads back. -/
theorem save_reads {disk disk' : Disk} {cfg : Config}
    (hSave : save toml configPath disk cfg = some disk') : Reads toml configPath disk' cfg := by
  obtain ⟨text, hPretty, rfl⟩ := Option.map_eq_some_iff.mp hSave
  exact ⟨text, Function.update_self .., toml.roundTrip cfg text hPretty⟩

/-- The file holds the configuration a start goes on with, whether it was there
or not. -/
theorem loadOrCreate_reads {disk disk' : Disk} {cfg : Config}
    (hLoad : loadOrCreate toml configPath disk = some (disk', cfg)) :
    Reads toml configPath disk' cfg := by
  unfold loadOrCreate at hLoad
  split at hLoad
  case h_1 text hText =>
      obtain ⟨_, hParse, hPair⟩ := Option.map_eq_some_iff.mp hLoad
      obtain ⟨rfl, rfl⟩ := Prod.mk.inj hPair
      exact ⟨text, hText, hParse⟩
  case h_2 =>
      obtain ⟨_, hSave, hPair⟩ := Option.map_eq_some_iff.mp hLoad
      obtain ⟨rfl, rfl⟩ := Prod.mk.inj hPair
      exact save_reads hSave

theorem Token.not_needed (token : Token) (web : WebConfig) :
    ¬NeedsToken { web with adminToken := token.text } := by
  have hLong := token.long
  rintro (hEmpty | hDefault)
  · simp only at hEmpty
    simp [hEmpty] at hLong
  · simp only at hDefault
    simp [hDefault] at hLong

/-- The token a start ends up with is in the file, and is a real one. -/
theorem ensureToken_reads {token : Token} {disk disk' : Disk} {cfg cfg' : Config}
    (hReads : Reads toml configPath disk cfg)
    (hEnsure : ensureToken toml configPath token disk cfg = some (disk', cfg')) :
    Reads toml configPath disk' cfg' ∧ ¬NeedsToken cfg'.web := by
  unfold ensureToken at hEnsure
  split at hEnsure
  case isTrue =>
      obtain ⟨_, hSave, hPair⟩ := Option.map_eq_some_iff.mp hEnsure
      obtain ⟨rfl, rfl⟩ := Prod.mk.inj hPair
      exact ⟨save_reads hSave, token.not_needed cfg.web⟩
  case isFalse hToken =>
      obtain ⟨rfl, rfl⟩ := Prod.mk.inj (Option.some.inj hEnsure)
      exact ⟨hReads, hToken⟩

/-- The blocklist file is there after the start, and the list is read from it.
-/
theorem fromFile_reads (disk : Disk) (path : Path) :
    ∃ text, (fromFile disk path).1 path = some text ∧
      (fromFile disk path).2 = Blocklist.fromText text := by
  unfold fromFile
  split
  case h_1 text hText => exact ⟨text, hText, rfl⟩
  case h_2 => exact ⟨defaultBlocklist, by simp⟩

theorem fromFile_of_ne {disk : Disk} {path other : Path} (hNe : other ≠ path) :
    (fromFile disk path).1 other = disk other := by
  unfold fromFile
  split
  · rfl
  · exact Function.update_of_ne hNe ..

/-- A start overwrites no file. -/
theorem fromFile_keeps {disk : Disk} {path other : Path} {text : Str}
    (hText : disk other = some text) : (fromFile disk path).1 other = some text := by
  by_cases hSame : other = path
  · subst hSame
    simp [fromFile, hText]
  · rw [fromFile_of_ne hSame, hText]

/-- What a start leaves: the files and the live state agree. -/
theorem boot_agrees {token : Token} {disk : Disk}
    (hBoot : boot toml configPath token disk = some s₀) :
    ConfigAgrees toml configPath s₀ ∧ ¬NeedsToken s₀.config.web ∧
      s₀.servers = s₀.config.upstreamAddrs ∧ (∀ i, s₀.requests i = .idle) ∧
      ∃ text, s₀.disk s₀.config.web.blocklistPath = some text ∧
        s₀.blocklist = Blocklist.fromText text := by
  obtain ⟨⟨disk₁, cfg₁⟩, hLoad, hRest⟩ := Option.bind_eq_some_iff.mp hBoot
  obtain ⟨⟨disk₂, cfg₂⟩, hEnsure, hRest⟩ := Option.bind_eq_some_iff.mp hRest
  obtain ⟨⟨text, hText, hParse⟩, hToken⟩ := ensureToken_reads (loadOrCreate_reads hLoad) hEnsure
  obtain rfl := Option.some.inj hRest
  exact ⟨⟨text, fromFile_keeps hText, hParse⟩, hToken, rfl, fun _ => rfl,
    fromFile_reads disk₂ cfg₂.web.blocklistPath⟩

/-- A start from files that read well changes none of them. -/
theorem boot_of_reads {disk : Disk} {cfg : Config} {list : Str} (token : Token)
    (hReads : Reads toml configPath disk cfg) (hToken : ¬NeedsToken cfg.web)
    (hList : disk cfg.web.blocklistPath = some list) :
    boot toml configPath token disk =
      some ⟨disk, cfg, cfg.upstreamAddrs, Blocklist.fromText list, fun _ => .idle⟩ := by
  obtain ⟨text, hText, hParse⟩ := hReads
  simp [boot, loadOrCreate, ensureToken, fromFile, hText, hParse, hToken, hList]

end Admin

end RustDns
