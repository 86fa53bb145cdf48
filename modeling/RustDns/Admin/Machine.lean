import Mathlib.Logic.Function.Basic
import RustDns.Blocklist.Basic
import RustDns.Config.Basic
import RustDns.Library.Run

/-! The admin API: concurrent updates of the blocklist and the configuration,
each of which changes a file and the live state in several steps. Reading and
writing TOML belongs to a library and is a parameter. -/
namespace RustDns

namespace Admin

/-- A path stands for the file it names. -/
abbrev Path := Str

/-- The files by their paths: different paths are different files. Every file
the server touches is text. -/
abbrev Disk := Path → Option Str

/-- The TOML library on configurations: what is written is read back. -/
structure Toml where
  toStringPretty : Config → Option Str
  fromStr : Str → Option Config
  roundTrip : ∀ cfg text, toStringPretty cfg = some text → fromStr text = some cfg

/-- A library that knows the configurations of a table and no other. -/
def Toml.ofTable (table : List (Config × Str)) (hTable : (table.map Prod.snd).Nodup) : Toml where
  toStringPretty cfg := (table.find? fun row => row.1 == cfg).map Prod.snd
  fromStr text := (table.find? fun row => row.2 == text).map Prod.fst
  roundTrip cfg text hPretty := by
    obtain ⟨row, hFind, rfl⟩ := Option.map_eq_some_iff.mp hPretty
    have hMem := List.mem_of_find?_eq_some hFind
    obtain ⟨other, hOther⟩ : ∃ other, table.find? (fun r => r.2 == row.2) = some other :=
      Option.isSome_iff_exists.mp (List.find?_isSome.mpr ⟨row, hMem, by simp⟩)
    have hText : other.2 = row.2 := by simpa using List.find?_some hOther
    have hSame : other = row :=
      List.inj_on_of_nodup_map hTable (List.mem_of_find?_eq_some hOther) hMem hText
    have hRow : row.1 = cfg := by simpa using List.find?_some hFind
    rw [hOther, Option.map_some, hSame, hRow]

/-- Trailing separators and `/.` are not part of a file name. The text is
reversed. -/
def dropTrailing : Str → Str
  | '/' :: rest => dropTrailing rest
  | '.' :: '/' :: rest => dropTrailing rest
  | s => s

/-- `file_stem`: the name up to its last dot, unless that dot comes first. -/
def fileStem (name : Str) : Str :=
  let stem := ((name.reverse.dropWhile (· != '.')).drop 1).reverse
  if stem = [] then name else stem

/-- `Path::with_extension`. -/
def withExtension (path ext : Str) : Path :=
  let trimmed := (dropTrailing path.reverse).reverse
  let name := trimmed.rtakeWhile (· != '/')
  if name = [] ∨ name = ['.'] ∨ name = ['.', '.'] then path
  else trimmed.take (trimmed.length - name.length) ++ fileStem name ++ '.' :: ext

def tempPath (path : Path) : Path := withExtension path "tmp".toList

/-- The body of a configuration update. -/
structure ConfigUpdate where
  upstreamServers : List Str
  timeoutMs : UInt64
  maxQps : UInt32
  maxConcurrent : UInt64
  sinkholeMode : Str
  sinkholeIpv4 : Str
  sinkholeIpv6 : Str

/-- The configuration an update asks for, or the message it is refused with. -/
def ConfigUpdate.apply (body : ConfigUpdate) (cfg : Config) : Except Str Config := do
  let servers := (body.upstreamServers.map Str.trim).filter (· ≠ [])
  if servers = [] then throw "at least one upstream server is required".toList
  match servers.find? fun s => (SocketAddr.parse s).isNone with
  | some s => throw ("invalid upstream '".toList ++ s ++ "' (expected host:port)".toList)
  | none => pure ()
  let some ipv4 := Ipv4Addr.parse body.sinkholeIpv4 | throw "invalid sinkhole_ipv4".toList
  let some ipv6 := Ipv6Addr.parse body.sinkholeIpv6 | throw "invalid sinkhole_ipv6".toList
  pure
    { cfg with
      upstream :=
        { servers := servers
          timeoutMs := body.timeoutMs
          maxConcurrent := body.maxConcurrent
          maxQps := body.maxQps }
      dns :=
        { cfg.dns with
          sinkholeMode := body.sinkholeMode
          sinkholeIpv4 := ipv4
          sinkholeIpv6 := ipv6 } }

inductive Body where
  | blocklist (text : Str)
  | config (update : ConfigUpdate)

inductive Update where
  | list (list : Blocklist)
  | config (cfg : Config)

/-- An update with the file it goes to and the text to write there. -/
structure Job where
  update : Update
  path : Path
  text : Str

def Job.temp (job : Job) : Path := tempPath job.path

/-- How far a request has come. A request that returns without an error answers
with what it has stored. -/
inductive Phase where
  | idle
  | posted (body : Body)
  | prepared (job : Job)
  | written (job : Job)
  | renamed (job : Job)
  | serversSet (job : Job)
  | returned (result : Option Update)

structure State where
  disk : Disk
  config : Config
  servers : List SocketAddr
  blocklist : Blocklist
  requests : Nat → Phase

inductive Event where
  | post (i : Nat) (body : Body)
  | load (i : Nat)
  | writeTemp (i : Nat)
  | failTemp (i : Nat) (left : Option Str)
  | rename (i : Nat)
  | failRename (i : Nat)
  | setServers (i : Nat)
  | store (i : Nat)

def Event.request : Event → Nat
  | .post i _ | .load i | .writeTemp i | .failTemp i _ | .rename i | .failRename i
  | .setServers i | .store i => i

def unlines (lines : List Str) : Str := lines.flatMap fun line => line ++ ['\n']

def defaultBlocklist : Str :=
  unlines
    ["# rust-dns blocklist — one domain per line.".toList,
      "# A plain domain blocks the apex and all subdomains:".toList,
      "#   facebook.com   -> blocks facebook.com, www.facebook.com, m.facebook.com, …".toList,
      "# A wildcard blocks subdomains only (apex still resolves):".toList,
      "#   *.example.com  -> blocks www.example.com but NOT example.com".toList,
      "# Lines starting with # are comments.".toList,
      "facebook.com".toList]

/-- `Blocklist::from_file`: a file that does not exist is created first. -/
def fromFile (disk : Disk) (path : Path) : Disk × Blocklist :=
  match disk path with
  | some text => (disk, Blocklist.fromText text)
  | none =>
      (Function.update disk path (some defaultBlocklist), Blocklist.fromText defaultBlocklist)

/-- `write_atomic` with nothing between its two system calls. -/
def writeAtomic (disk : Disk) (path : Path) (text : Str) : Disk :=
  Function.update (Function.update disk (tempPath path) none) path (some text)

/-- A token of `random_token`: at least 32 hexadecimal digits. -/
structure Token where
  text : Str
  long : 32 ≤ text.length

variable (toml : Toml) (configPath : Path)

def save (disk : Disk) (cfg : Config) : Option Disk :=
  (toml.toStringPretty cfg).map fun text => writeAtomic disk configPath text

def loadOrCreate (disk : Disk) : Option (Disk × Config) :=
  match disk configPath with
  | some text => (toml.fromStr text).map fun cfg => (disk, cfg)
  | none => (save toml configPath disk Config.default).map fun disk => (disk, Config.default)

def NeedsToken (web : WebConfig) : Prop :=
  web.adminToken = [] ∨ web.adminToken = "change-me".toList

instance (web : WebConfig) : Decidable (NeedsToken web) :=
  inferInstanceAs (Decidable (_ ∨ _))

/-- A start without a credential of its own makes one and saves it. -/
def ensureToken (token : Token) (disk : Disk) (cfg : Config) : Option (Disk × Config) :=
  if NeedsToken cfg.web then
    let cfg := { cfg with web := { cfg.web with adminToken := token.text } }
    (save toml configPath disk cfg).map fun disk => (disk, cfg)
  else some (disk, cfg)

/-- The live state a start builds from its files. -/
def boot (token : Token) (disk : Disk) : Option State := do
  let (disk, cfg) ← loadOrCreate toml configPath disk
  let (disk, cfg) ← ensureToken toml configPath token disk cfg
  let (disk, list) := fromFile disk cfg.web.blocklistPath
  some
    { disk := disk
      config := cfg
      servers := cfg.upstreamAddrs
      blocklist := list
      requests := fun _ => .idle }

def setPhase (s : State) (i : Nat) (phase : Phase) : State :=
  { s with requests := Function.update s.requests i phase }

/-- Everything before the first write: the list is parsed and the path of its
file looked up, or the update applied to the live configuration and
serialized. -/
def prepare (s : State) : Body → Option Job
  | .blocklist text =>
      let list := Blocklist.fromText text
      some ⟨.list list, s.config.web.blocklistPath, list.toFileText⟩
  | .config update =>
      match update.apply s.config with
      | .error _ => none
      | .ok cfg => (toml.toStringPretty cfg).map fun text => ⟨.config cfg, configPath, text⟩

/-- The two system calls of `write_atomic` are the events `writeTemp` and
`rename`; each may fail, a failed write leaving anything in the temporary
file. -/
def step (s : State) : Event → Option State
  | .post i body =>
      match s.requests i with
      | .idle => some (setPhase s i (.posted body))
      | _ => none
  | .load i =>
      match s.requests i with
      | .posted body =>
          match prepare toml configPath s body with
          | none => some (setPhase s i (.returned none))
          | some job => some (setPhase s i (.prepared job))
      | _ => none
  | .writeTemp i =>
      match s.requests i with
      | .prepared job =>
          some
            { setPhase s i (.written job) with
              disk := Function.update s.disk job.temp (some job.text) }
      | _ => none
  | .failTemp i left =>
      match s.requests i with
      | .prepared job =>
          some
            { setPhase s i (.returned none) with disk := Function.update s.disk job.temp left }
      | _ => none
  | .rename i =>
      match s.requests i with
      | .written job =>
          match s.disk job.temp with
          | none => some (setPhase s i (.returned none))
          | some text =>
              some
                { setPhase s i (.renamed job) with
                  disk :=
                    Function.update (Function.update s.disk job.temp none) job.path (some text) }
      | _ => none
  | .failRename i =>
      match s.requests i with
      | .written _ => some (setPhase s i (.returned none))
      | _ => none
  | .setServers i =>
      match s.requests i with
      | .renamed ⟨.config cfg, path, text⟩ =>
          some
            { setPhase s i (.serversSet ⟨.config cfg, path, text⟩) with
              servers := cfg.upstreamAddrs }
      | _ => none
  | .store i =>
      match s.requests i with
      | .renamed ⟨.list list, _, _⟩ =>
          some { setPhase s i (.returned (some (.list list))) with blocklist := list }
      | .serversSet ⟨.config cfg, _, _⟩ =>
          some { setPhase s i (.returned (some (.config cfg))) with config := cfg }
      | _ => none

/-- The steps of the API, each with what it finds in the state. -/
inductive Step (s : State) : Event → State → Prop where
  | post {i : Nat} (body : Body) (hPhase : s.requests i = .idle) :
      Step s (.post i body) (setPhase s i (.posted body))
  | refuse {i : Nat} {body : Body} (hPhase : s.requests i = .posted body) :
      Step s (.load i) (setPhase s i (.returned none))
  | load {i : Nat} {body : Body} {job : Job} (hPhase : s.requests i = .posted body)
      (hJob : prepare toml configPath s body = some job) :
      Step s (.load i) (setPhase s i (.prepared job))
  | writeTemp {i : Nat} {job : Job} (hPhase : s.requests i = .prepared job) :
      Step s (.writeTemp i)
        { setPhase s i (.written job) with
          disk := Function.update s.disk job.temp (some job.text) }
  | failTemp {i : Nat} {job : Job} (left : Option Str) (hPhase : s.requests i = .prepared job) :
      Step s (.failTemp i left)
        { setPhase s i (.returned none) with disk := Function.update s.disk job.temp left }
  | renameMissing {i : Nat} {job : Job} (hPhase : s.requests i = .written job) :
      Step s (.rename i) (setPhase s i (.returned none))
  | rename {i : Nat} {job : Job} {text : Str} (hPhase : s.requests i = .written job)
      (hText : s.disk job.temp = some text) :
      Step s (.rename i)
        { setPhase s i (.renamed job) with
          disk := Function.update (Function.update s.disk job.temp none) job.path (some text) }
  | failRename {i : Nat} {job : Job} (hPhase : s.requests i = .written job) :
      Step s (.failRename i) (setPhase s i (.returned none))
  | setServers {i : Nat} {cfg : Config} {path : Path} {text : Str}
      (hPhase : s.requests i = .renamed ⟨.config cfg, path, text⟩) :
      Step s (.setServers i)
        { setPhase s i (.serversSet ⟨.config cfg, path, text⟩) with
          servers := cfg.upstreamAddrs }
  | storeList {i : Nat} {list : Blocklist} {path : Path} {text : Str}
      (hPhase : s.requests i = .renamed ⟨.list list, path, text⟩) :
      Step s (.store i)
        { setPhase s i (.returned (some (.list list))) with blocklist := list }
  | storeConfig {i : Nat} {cfg : Config} {path : Path} {text : Str}
      (hPhase : s.requests i = .serversSet ⟨.config cfg, path, text⟩) :
      Step s (.store i)
        { setPhase s i (.returned (some (.config cfg))) with config := cfg }

variable {toml configPath} {s s' : State}

/-- Each step with what it found in the state. -/
theorem step_cases {e : Event} (hStep : step toml configPath s e = some s') :
    Step toml configPath s e s' := by
  cases e with
  | post i body =>
      simp only [step] at hStep
      split at hStep <;> [skip; simp at hStep]
      obtain rfl := Option.some.inj hStep
      exact .post body ‹_›
  | load i =>
      simp only [step] at hStep
      split at hStep <;> [skip; simp at hStep]
      split at hStep
      · obtain rfl := Option.some.inj hStep
        exact .refuse ‹_›
      · obtain rfl := Option.some.inj hStep
        exact .load ‹_› ‹_›
  | writeTemp i =>
      simp only [step] at hStep
      split at hStep <;> [skip; simp at hStep]
      obtain rfl := Option.some.inj hStep
      exact .writeTemp ‹_›
  | failTemp i left =>
      simp only [step] at hStep
      split at hStep <;> [skip; simp at hStep]
      obtain rfl := Option.some.inj hStep
      exact .failTemp left ‹_›
  | rename i =>
      simp only [step] at hStep
      split at hStep <;> [skip; simp at hStep]
      split at hStep
      · obtain rfl := Option.some.inj hStep
        exact .renameMissing ‹_›
      · obtain rfl := Option.some.inj hStep
        exact .rename ‹_› ‹_›
  | failRename i =>
      simp only [step] at hStep
      split at hStep <;> [skip; simp at hStep]
      obtain rfl := Option.some.inj hStep
      exact .failRename ‹_›
  | setServers i =>
      simp only [step] at hStep
      split at hStep <;> [skip; simp at hStep]
      obtain rfl := Option.some.inj hStep
      exact .setServers ‹_›
  | store i =>
      simp only [step] at hStep
      split at hStep <;> [skip; skip; simp at hStep]
      · obtain rfl := Option.some.inj hStep
        exact .storeList ‹_›
      · obtain rfl := Option.some.inj hStep
        exact .storeConfig ‹_›

/-- A request prepares a list with its file, or the configuration it asks for
with the text it is saved as. -/
theorem prepare_cases {body : Body} {job : Job}
    (hJob : prepare toml configPath s body = some job) :
    (∃ text list, body = .blocklist text ∧ list = Blocklist.fromText text ∧
        job = ⟨.list list, s.config.web.blocklistPath, list.toFileText⟩) ∨
      ∃ update cfg text, body = .config update ∧ update.apply s.config = .ok cfg ∧
        toml.toStringPretty cfg = some text ∧ job = ⟨.config cfg, configPath, text⟩ := by
  cases body with
  | blocklist text => exact Or.inl ⟨text, _, rfl, rfl, (Option.some.inj hJob).symm⟩
  | config update =>
      simp only [prepare] at hJob
      split at hJob
      · simp at hJob
      · rename_i cfg hApply
        obtain ⟨text, hText, rfl⟩ := Option.map_eq_some_iff.mp hJob
        exact Or.inr ⟨update, cfg, text, rfl, hApply, hText, rfl⟩

/-- A step changes the phase of its own request only. -/
theorem step_frame {e : Event} {j : Nat} (hStep : step toml configPath s e = some s')
    (hj : j ≠ e.request) : s'.requests j = s.requests j := by
  cases step_cases hStep <;> exact Function.update_of_ne hj ..

/-- The steps of other requests leave a request where it is. -/
theorem run_frame {es : List Event} {j : Nat}
    (hRun : Machine.run (step toml configPath) s es = some s')
    (hj : ∀ e ∈ es, j ≠ e.request) : s'.requests j = s.requests j := by
  induction es generalizing s with
  | nil =>
      obtain rfl := Option.some.inj hRun
      rfl
  | cons e rest ih =>
      obtain ⟨middle, hStep, hRest⟩ := Machine.run_cons hRun
      rw [ih hRest fun e he => hj e (List.mem_cons_of_mem _ he)]
      exact step_frame hStep (hj e List.mem_cons_self)

end Admin

end RustDns
