import RustDns.Admin.Restart
import RustDns.Dns.Message

/-! The token gate of the admin API over whole runs: a start that makes sure
there is a token, requests of any kind, and the updates they set off. -/
namespace RustDns

namespace Gate

open Admin

/-- Where `random_token` takes its bits from: the device, or the clock and the
process. -/
inductive Entropy where
  | urandom (buf : Vector UInt8 32)
  | seed (nanos : BitVec 128) (pid : UInt32)

/-- A number of at most so many hexadecimal digits, filled up with zeros. -/
def hexPadded : Nat → Nat → Str
  | 0, _ => []
  | width + 1, n => hexPadded width (n / 16) ++ [Nat.digitChar (n % 16)]

def randomToken : Entropy → Str
  | .urandom buf => buf.toList.flatMap fun b => hexPadded 2 b.toNat
  | .seed nanos pid => hexPadded 32 (nanos ^^^ BitVec.ofNat 128 pid.toNat).toNat

theorem length_hexPadded (width n : Nat) : (hexPadded width n).length = width := by
  induction width generalizing n with
  | zero => rfl
  | succ width ih => rw [hexPadded, List.length_append, ih, List.length_singleton]

theorem mem_hexPadded {c : Char} {width n : Nat} (hMem : c ∈ hexPadded width n) :
    ∃ d < 16, c = Nat.digitChar d := by
  induction width generalizing n with
  | zero => simp [hexPadded] at hMem
  | succ width ih =>
      rw [hexPadded, List.mem_append, List.mem_singleton] at hMem
      rcases hMem with hFront | rfl
      · exact ih hFront
      · exact ⟨n % 16, Nat.mod_lt _ (by decide), rfl⟩

theorem mem_randomToken {c : Char} {source : Entropy} (hMem : c ∈ randomToken source) :
    ∃ d < 16, c = Nat.digitChar d := by
  cases source with
  | urandom buf =>
      obtain ⟨b, -, hByte⟩ := List.mem_flatMap.mp hMem
      exact mem_hexPadded hByte
  | seed nanos pid => exact mem_hexPadded hMem

/-- A generated token has at least 32 digits, so it is not the default. -/
theorem length_randomToken (source : Entropy) : 32 ≤ (randomToken source).length := by
  cases source with
  | urandom buf => simp [randomToken, List.length_flatMap, length_hexPadded]
  | seed nanos pid => rw [randomToken, length_hexPadded]

/-- The token a start makes. -/
def newToken (source : Entropy) : Token := ⟨randomToken source, length_randomToken source⟩

inductive Method where
  | get
  | head
  | post
  | other

/-- A request, with what its body decodes to as an update of either kind. -/
structure Request where
  method : Method
  path : Str
  headers : List (Str × Bytes)
  blocklistText : Option Str
  configUpdate : Option ConfigUpdate

/-- `HeaderMap::get`: the first value under a name. -/
def Request.header (req : Request) (name : Str) : Option Bytes := req.headers.lookup name

/-- `HeaderValue::to_str`: visible ASCII and tabs only. -/
def toStr (value : Bytes) : Option Str :=
  if value.all fun b => (32 ≤ b.toNat && b.toNat < 127) || b.toNat == 9 then
    some (value.map fun b => Char.ofNat b.toNat)
  else none

def bearer : Str := "Bearer ".toList

/-- Whether a request goes on to its route. -/
def auth (cfg : Config) (req : Request) : Bool :=
  if !Str.startsWith "/api".toList req.path then true
  else
    let token := cfg.web.adminToken
    if token.isEmpty then true
    else
      let headerBearer :=
        (((req.header "authorization".toList).bind toStr).map fun s =>
          Str.trim (Str.trimStartMatches bearer s) == token).getD false
      let headerToken :=
        (((req.header "x-admin-token".toList).bind toStr).map fun s => s == token).getD false
      headerBearer || headerToken

inductive Handler where
  | index
  | getBlocklist
  | setBlocklist
  | getConfig
  | setConfig
  | getStats
  | getLogs
  deriving DecidableEq

/-- A route with a reading and, where there is one, a writing handler. A `HEAD`
request is answered by the reading one. -/
def methodRouter (read : Handler) (write : Option Handler) : Method → Option Handler
  | .get | .head => some read
  | .post => write
  | .other => none

def routes : List (Str × (Method → Option Handler)) :=
  [("/".toList, methodRouter .index none),
    ("/api/blocklist".toList, methodRouter .getBlocklist (some .setBlocklist)),
    ("/api/config".toList, methodRouter .getConfig (some .setConfig)),
    ("/api/stats".toList, methodRouter .getStats none),
    ("/api/logs".toList, methodRouter .getLogs none)]

def route (method : Method) (path : Str) : Option Handler :=
  (routes.lookup path).bind fun handlers => handlers method

/-- The API with the handlers that have run so far and their requests. -/
structure State where
  admin : Admin.State
  ran : List (Request × Handler)

inductive Event where
  | request (i : Nat) (req : Request)
  | inner (e : Admin.Event)

variable (toml : Toml) (configPath : Path)

/-- A request of the API starts. A body that does not decode reaches no
handler. -/
def startUpdate (s : State) (i : Nat) (ran : Request × Handler) : Option Body → Option State
  | none => some s
  | some body =>
      (Admin.step toml configPath s.admin (.post i body)).map fun admin => ⟨admin, s.ran ++ [ran]⟩

/-- Handlers that read change nothing. -/
def serve (s : State) (i : Nat) (req : Request) : Handler → Option State
  | .setBlocklist =>
      startUpdate toml configPath s i (req, .setBlocklist) (req.blocklistText.map .blocklist)
  | .setConfig => startUpdate toml configPath s i (req, .setConfig) (req.configUpdate.map .config)
  | handler => some { s with ran := s.ran ++ [(req, handler)] }

def step (s : State) : Event → Option State
  | .request i req =>
      if auth s.admin.config req then
        match route req.method req.path with
        | none => some s
        | some handler => serve toml configPath s i req handler
      else some s
  | .inner (.post _ _) => none
  | .inner e => (Admin.step toml configPath s.admin e).map fun admin => { s with admin := admin }

/-- The request shows the token: as it is, or behind `Bearer` any number of
times and with blanks around it. -/
def Presents (token : Str) (req : Request) : Prop :=
  (∃ value, req.header "x-admin-token".toList = some value ∧ toStr value = some token) ∨
    ∃ value k rest, req.header "authorization".toList = some value ∧
      toStr value = some ((List.replicate k bearer).flatten ++ rest) ∧ ¬bearer <+: rest ∧
      Str.trim rest = token

theorem header_check_iff {value : Option Bytes} {check : Str → Bool} :
    ((value.bind toStr).map check).getD false = true ↔
      ∃ bytes text, value = some bytes ∧ toStr bytes = some text ∧ check text = true := by
  cases value with
  | none => simp
  | some bytes =>
      cases hText : toStr bytes with
      | none => simp [hText]
      | some text => simp [hText]

/-- Behind a token that is not empty the middleware lets through exactly the
requests for `/api` that present it. -/
theorem auth_iff {cfg : Config} {req : Request} (hApi : Str.startsWith "/api".toList req.path = true)
    (hToken : cfg.web.adminToken ≠ []) : auth cfg req = true ↔ Presents cfg.web.adminToken req := by
  have hEmpty : cfg.web.adminToken.isEmpty = false := by simpa using hToken
  have hBearer : bearer ≠ [] := by decide
  simp only [auth, hApi, hEmpty, Bool.not_true, Bool.false_eq_true, if_false, Bool.or_eq_true,
    header_check_iff, beq_iff_eq]
  constructor
  · rintro (⟨bytes, text, hHeader, hText, hTrim⟩ | ⟨bytes, text, hHeader, hText, rfl⟩)
    · obtain ⟨k, hSplit, hNot⟩ := (Str.trimStartMatches_eq_iff (s := text) hBearer).mp rfl
      rw [hSplit] at hText
      exact Or.inr ⟨bytes, k, _, hHeader, hText, hNot, hTrim⟩
    · exact Or.inl ⟨bytes, hHeader, hText⟩
  · rintro (⟨bytes, hHeader, hText⟩ | ⟨bytes, k, rest, hHeader, hText, hNot, hTrim⟩)
    · exact Or.inr ⟨bytes, _, hHeader, hText, rfl⟩
    · refine Or.inl ⟨bytes, _, hHeader, hText, ?_⟩
      rw [(Str.trimStartMatches_eq_iff hBearer).mpr ⟨k, rfl, hNot⟩]
      exact hTrim

/-- Every handler but the page is under `/api`. -/
theorem routes_api : ∀ row ∈ routes, Str.startsWith "/api".toList row.1 = true ∨
    ∀ method handler, row.2 method = some handler → handler = .index := by
  intro row hMem
  simp only [routes, List.mem_cons, List.not_mem_nil, or_false] at hMem
  rcases hMem with rfl | rfl | rfl | rfl | rfl
  · right
    intro method handler hHandler
    cases method <;> simp_all [methodRouter]
  all_goals exact Or.inl rfl

/-- Every handler but the one of the page is under `/api`. -/
theorem route_api {method : Method} {path : Str} {handler : Handler}
    (hRoute : route method path = some handler) (hHandler : handler ≠ .index) :
    Str.startsWith "/api".toList path = true := by
  obtain ⟨handlers, hLookup, hMethod⟩ := Option.bind_eq_some_iff.mp hRoute
  obtain ⟨before, after, hSplit, -⟩ := List.lookup_eq_some_iff.mp hLookup
  have hRow : (path, handlers) ∈ routes := by
    rw [hSplit]
    simp
  exact (routes_api _ hRow).resolve_right fun hIndex => hHandler (hIndex method handler hMethod)

def jobOf : Admin.Phase → Option Job
  | .prepared job | .written job | .renamed job | .serversSet job => some job
  | .idle | .posted _ | .returned _ => none

def Job.Keeps (web : WebConfig) (job : Job) : Prop :=
  ∀ cfg, job.update = .config cfg → cfg.web = web

/-- The live configuration and every one on its way have the same web part. -/
structure WebKept (web : WebConfig) (s : Admin.State) : Prop where
  live : s.config.web = web
  jobs : ∀ i job, jobOf (s.requests i) = some job → Job.Keeps web job

variable {toml configPath} {web : WebConfig}

/-- A step of one request keeps the web settings if what it stores keeps them.
-/
theorem WebKept.next {s s' : Admin.State} {i : Nat} {phase : Admin.Phase} (hKept : WebKept web s)
    (hRequests : s'.requests = Function.update s.requests i phase)
    (hLive : s'.config.web = web) (hJob : ∀ job, jobOf phase = some job → Job.Keeps web job) :
    WebKept web s' where
  live := hLive
  jobs := fun j job hPhase => by
    rw [hRequests] at hPhase
    by_cases hIndex : j = i
    · subst hIndex
      rw [Function.update_self] at hPhase
      exact hJob job hPhase
    · rw [Function.update_of_ne hIndex] at hPhase
      exact hKept.jobs j job hPhase

theorem keeps_prepare {s : Admin.State} {body : Body} {job : Job} (hKept : WebKept web s)
    (hJob : prepare toml configPath s body = some job) : Job.Keeps web job := by
  intro cfg hUpdate
  rcases prepare_cases hJob with ⟨text, list, -, -, rfl⟩ | ⟨update, cfg', text, -, hApply, -, rfl⟩
  · simp at hUpdate
  · obtain rfl : cfg' = cfg := Update.config.inj hUpdate
    rw [ConfigUpdate.apply_web hApply, hKept.live]

/-- An update takes the web part over from the live configuration and brings it
back unchanged. -/
theorem webKept_step {s s' : Admin.State} {e : Admin.Event} (hKept : WebKept web s)
    (hStep : Admin.step toml configPath s e = some s') : WebKept web s' := by
  -- a request that moves on with its job keeps it
  have hSame : ∀ {i : Nat} {job : Job}, jobOf (s.requests i) = some job →
      ∀ job', some job = some job' → Job.Keeps web job' := by
    intro i job hPhase job' hEq
    obtain rfl := Option.some.inj hEq
    exact hKept.jobs i job hPhase
  have hNone : ∀ job', (none : Option Job) = some job' → Job.Keeps web job' := by simp
  cases step_cases hStep with
  | post body hPhase => exact hKept.next rfl hKept.live hNone
  | refuse hPhase => exact hKept.next rfl hKept.live hNone
  | load hPhase hJob =>
      refine hKept.next rfl hKept.live fun job' hEq => ?_
      obtain rfl := Option.some.inj hEq
      exact keeps_prepare hKept hJob
  | writeTemp hPhase => exact hKept.next rfl hKept.live (hSame (by rw [hPhase]; rfl))
  | failTemp left hPhase => exact hKept.next rfl hKept.live hNone
  | renameMissing hPhase => exact hKept.next rfl hKept.live hNone
  | rename hPhase hText => exact hKept.next rfl hKept.live (hSame (by rw [hPhase]; rfl))
  | failRename hPhase => exact hKept.next rfl hKept.live hNone
  | setServers hPhase => exact hKept.next rfl hKept.live (hSame (by rw [hPhase]; rfl))
  | storeList hPhase => exact hKept.next rfl hKept.live hNone
  | @storeConfig i cfg path text hPhase =>
      exact hKept.next rfl (hKept.jobs i _ (by rw [hPhase]; rfl) cfg rfl) hNone

/-- What holds of the gate in every state of a run. -/
structure Inv (web : WebConfig) (s : State) : Prop where
  kept : WebKept web s.admin
  ran : ∀ p ∈ s.ran, p.2 ≠ .index → Presents web.adminToken p.1

/-- An update starts with the request it was made for, and keeps the web
settings. -/
theorem startUpdate_cases {s s' : State} {i : Nat} {ran : Request × Handler} {body : Option Body}
    (hStart : startUpdate toml configPath s i ran body = some s') (hKept : WebKept web s.admin) :
    WebKept web s'.admin ∧ (s'.ran = s.ran ∨ s'.ran = s.ran ++ [ran]) := by
  cases body with
  | none =>
      obtain rfl := Option.some.inj hStart
      exact ⟨hKept, Or.inl rfl⟩
  | some body =>
      obtain ⟨admin, hStep, rfl⟩ := Option.map_eq_some_iff.mp hStart
      exact ⟨webKept_step hKept hStep, Or.inr rfl⟩

/-- A request that is served runs its own handler. -/
theorem serve_cases {s s' : State} {i : Nat} {req : Request} {handler : Handler}
    (hServe : serve toml configPath s i req handler = some s') (hKept : WebKept web s.admin) :
    WebKept web s'.admin ∧ (s'.ran = s.ran ∨ s'.ran = s.ran ++ [(req, handler)]) := by
  cases handler with
  | setBlocklist | setConfig => exact startUpdate_cases hServe hKept
  | _ =>
      obtain rfl := Option.some.inj hServe
      exact ⟨hKept, Or.inr rfl⟩

/-- The token stays what it was and every handler that runs is gated, in every
step. -/
theorem inv_step {s s' : State} {e : Event} (hToken : web.adminToken ≠ []) (hInv : Inv web s)
    (hStep : step toml configPath s e = some s') : Inv web s' := by
  cases e with
  | request i req =>
      simp only [step] at hStep
      split at hStep
      case isFalse =>
        obtain rfl := Option.some.inj hStep
        exact hInv
      case isTrue hAuth =>
        split at hStep
        case h_1 =>
          obtain rfl := Option.some.inj hStep
          exact hInv
        case h_2 handler hRoute =>
          obtain ⟨hKept, hRan⟩ := serve_cases hStep hInv.kept
          refine ⟨hKept, fun p hMem hHandler => ?_⟩
          rcases hRan with hSame | hMore
          · rw [hSame] at hMem
            exact hInv.ran p hMem hHandler
          · rw [hMore] at hMem
            rcases List.mem_append.mp hMem with hOld | hNew
            · exact hInv.ran p hOld hHandler
            · obtain rfl := List.mem_singleton.mp hNew
              have hLive := hInv.kept.live
              rw [← hLive] at hToken ⊢
              exact (auth_iff (route_api hRoute hHandler) hToken).mp hAuth
  | inner e =>
      cases e with
      | post i body => simp [step] at hStep
      | _ =>
          obtain ⟨admin, hInner, rfl⟩ := Option.map_eq_some_iff.mp hStep
          exact ⟨webKept_step hInv.kept hInner, hInv.ran⟩

/-- Nothing has run yet when the server starts. -/
theorem inv_boot {token : Token} {disk : Disk} {s₀ : Admin.State}
    (hBoot : boot toml configPath token disk = some s₀) : Inv s₀.config.web ⟨s₀, []⟩ := by
  obtain ⟨-, -, -, hIdle, -⟩ := boot_agrees hBoot
  exact ⟨⟨rfl, fun i job hJob => by simp [hIdle, jobOf] at hJob⟩, by simp⟩

/-- The bytes of a text in ASCII. -/
def asciiBytes (s : Str) : Bytes := s.map fun c => UInt8.ofNat c.toNat

theorem toStr_asciiBytes {s : Str} (hVisible : ∀ c ∈ s, 32 ≤ c.toNat ∧ c.toNat < 127) :
    toStr (asciiBytes s) = some s := by
  have hByte : ∀ c ∈ s, (UInt8.ofNat c.toNat).toNat = c.toNat := fun c hMem =>
    UInt8.toNat_ofNat_of_lt' (Nat.lt_trans (hVisible c hMem).2 (by decide))
  have hAll : (asciiBytes s).all
      (fun b => (32 ≤ b.toNat && b.toNat < 127) || b.toNat == 9) = true := by
    simp only [asciiBytes, List.all_map, List.all_eq_true]
    intro c hMem
    simp [hByte c hMem, hVisible c hMem]
  have hBack : (asciiBytes s).map (fun b => Char.ofNat b.toNat) = s := by
    simp only [asciiBytes, List.map_map]
    refine (List.map_congr_left fun c hMem => ?_).trans (List.map_id s)
    simp [hByte c hMem]
  rw [toStr, if_pos hAll, hBack]

/-- What a hexadecimal digit is not. -/
theorem digit_plain : ∀ d < 16, 32 ≤ (Nat.digitChar d).toNat ∧ (Nat.digitChar d).toNat < 127 ∧
    Unicode.isWhitespace (Nat.digitChar d) = false ∧ Nat.digitChar d ≠ 'B' := by
  decide +kernel

/-- A token that was made gets its owner in. -/
theorem presents_random {source : Entropy} {req : Request}
    (hHeader : req.header "authorization".toList =
      some (asciiBytes (bearer ++ randomToken source))) : Presents (randomToken source) req := by
  have hPlain : ∀ c ∈ randomToken source, 32 ≤ c.toNat ∧ c.toNat < 127 ∧
      Unicode.isWhitespace c = false ∧ c ≠ 'B' := by
    intro c hMem
    obtain ⟨d, hDigit, rfl⟩ := mem_randomToken hMem
    exact digit_plain d hDigit
  have hVisible : ∀ c ∈ bearer ++ randomToken source, 32 ≤ c.toNat ∧ c.toNat < 127 := by
    intro c hMem
    rcases List.mem_append.mp hMem with hFront | hToken
    · have hBearer : bearer.all (fun c => 32 ≤ c.toNat && c.toNat < 127) = true := by decide
      simpa using List.all_eq_true.mp hBearer c hFront
    · exact ⟨(hPlain c hToken).1, (hPlain c hToken).2.1⟩
  refine Or.inr ⟨_, 1, randomToken source, hHeader, ?_, fun hFront => ?_, Str.trim_eq_self ?_⟩
  · rw [toStr_asciiBytes hVisible, List.replicate_one, List.flatten_singleton]
  · have hMem : 'B' ∈ randomToken source := hFront.subset (by decide)
    exact (hPlain 'B' hMem).2.2.2 rfl
  · exact ⟨fun c hMem => (hPlain c (List.mem_of_head? hMem)).2.2.1,
      fun c hMem => (hPlain c (List.mem_of_getLast? hMem)).2.2.1⟩

/-- A start that finds the token empty or the default runs with the generated
one. -/
theorem boot_token {token : Token} {disk disk₁ : Disk} {cfg : Config} {s₀ : Admin.State}
    (hBoot : boot toml configPath token disk = some s₀)
    (hLoad : loadOrCreate toml configPath disk = some (disk₁, cfg)) (hNeeds : NeedsToken cfg.web) :
    s₀.config.web.adminToken = token.text := by
  obtain ⟨⟨disk₂, cfg₂⟩, hLoad', hRest⟩ := Option.bind_eq_some_iff.mp hBoot
  obtain ⟨rfl, rfl⟩ := Prod.mk.inj (Option.some.inj (hLoad'.symm.trans hLoad))
  obtain ⟨⟨disk₃, cfg₃⟩, hEnsure, hRest⟩ := Option.bind_eq_some_iff.mp hRest
  obtain rfl := Option.some.inj hRest
  simp only [ensureToken, if_pos hNeeds] at hEnsure
  obtain ⟨_, -, hPair⟩ := Option.map_eq_some_iff.mp hEnsure
  obtain ⟨rfl, rfl⟩ := Prod.mk.inj hPair
  rfl

/-- Over every run the token stays what the start made sure it is, no handler of
the API runs without it, and a token that was made is always let through. -/
theorem gate_holds {source : Entropy} {disk : Disk} {s₀ : Admin.State} {es : List Event} {s : State}
    (hBoot : boot toml configPath (newToken source) disk = some s₀)
    (hRun : Machine.run (step toml configPath) ⟨s₀, []⟩ es = some s) :
    s.admin.config.web.adminToken = s₀.config.web.adminToken ∧
      s.admin.config.web.adminToken ≠ [] ∧
      s.admin.config.web.adminToken ≠ "change-me".toList ∧
      (∀ p ∈ s.ran, p.2 ≠ .index → Presents s.admin.config.web.adminToken p.1) ∧
      ∀ disk₁ cfg, loadOrCreate toml configPath disk = some (disk₁, cfg) → NeedsToken cfg.web →
        ∀ req : Request, req.header "authorization".toList =
          some (asciiBytes (bearer ++ s.admin.config.web.adminToken)) →
        auth s.admin.config req = true := by
  obtain ⟨-, hToken, -, -, -⟩ := boot_agrees hBoot
  obtain ⟨hEmpty, hDefault⟩ := not_or.mp hToken
  have hInv : Inv s₀.config.web s :=
    Machine.run_invariant (fun _ _ _ hInv hStep => inv_step hEmpty hInv hStep) (inv_boot hBoot) hRun
  have hLive := hInv.kept.live
  rw [hLive]
  refine ⟨rfl, hEmpty, hDefault, hInv.ran, fun disk₁ cfg hLoad hNeeds req hHeader => ?_⟩
  have hMade : s₀.config.web.adminToken = randomToken source := boot_token hBoot hLoad hNeeds
  rw [hMade] at hHeader
  by_cases hApi : Str.startsWith "/api".toList req.path = true
  · rw [auth_iff hApi (by rw [hLive]; exact hEmpty), hLive, hMade]
    exact presents_random hHeader
  · exact if_pos (by rw [Bool.not_eq_true] at hApi; rw [hApi]; rfl)

/-- The sample configuration with another token. -/
def gatedConfig (token : Str) : Config :=
  let cfg := sampleConfig "1.1.1.1:53".toList
  { cfg with web := { cfg.web with adminToken := token } }

def gatedText (token : Str) : Str :=
  sampleTextWith "admin_token = \"secret\"".toList ("admin_token = \"".toList ++ token ++ ['"'])

def someEntropy : Entropy := .seed 0xf00d 7

def gatedToml : Toml :=
  Toml.ofTable
    [(gatedConfig "change-me".toList, gatedText "change-me".toList),
      (gatedConfig (randomToken someEntropy), gatedText (randomToken someEntropy))]
    (by decide +kernel)

def gatedDisk : Disk :=
  Function.update (Function.update (fun _ => none) samplePath (some (gatedText "change-me".toList)))
    "blocklist.txt".toList (some "facebook.com\n".toList)

/-- Requests with and without the token, one of which updates the
configuration. -/
def session : List Event :=
  [.request 0 ⟨.get, "/".toList, [], none, none⟩,
    .request 0 ⟨.post, "/api/config".toList, [], none, some (tunedBody 256)⟩,
    .request 0
      ⟨.post, "/api/config".toList,
        [("authorization".toList, asciiBytes (bearer ++ randomToken someEntropy))], none,
        some (tunedBody 256)⟩,
    .inner (.load 0), .inner (.writeTemp 0), .inner (.rename 0), .inner (.setServers 0),
    .inner (.store 0),
    .request 1
      ⟨.get, "/api/stats".toList,
        [("x-admin-token".toList, asciiBytes (randomToken someEntropy))], none, none⟩]

theorem gate_holds_session :
    ∃ s₀ s, boot gatedToml samplePath (newToken someEntropy) gatedDisk = some s₀ ∧
      Machine.run (step gatedToml samplePath) ⟨s₀, []⟩ session = some s ∧
      s.ran.map Prod.snd = [.index, .setConfig, .getStats] ∧
      s.admin.config.web.adminToken = s₀.config.web.adminToken ∧
      ∀ p ∈ s.ran, p.2 ≠ .index → Presents s.admin.config.web.adminToken p.1 := by
  have hEval : ((boot gatedToml samplePath (newToken someEntropy) gatedDisk).bind fun s₀ =>
      (Machine.run (step gatedToml samplePath) ⟨s₀, []⟩ session).map fun s =>
        s.ran.map Prod.snd) = some [.index, .setConfig, .getStats] := by
    decide +kernel
  obtain ⟨s₀, hBoot, hMap⟩ := Option.bind_eq_some_iff.mp hEval
  obtain ⟨s, hRun, hRan⟩ := Option.map_eq_some_iff.mp hMap
  obtain ⟨hSame, -, -, hPresents, -⟩ := gate_holds hBoot hRun
  exact ⟨s₀, s, hBoot, hRun, hRan, hSame, hPresents⟩

end Gate

end RustDns
