import RustDns.Admin.Convergence
import RustDns.Upstream.Resolve

/-! What the API saves and what the next start makes of it: the constructors
that run at a start, and updates of the configuration one after the other. -/
namespace RustDns

namespace Admin

/-- `Semaphore::MAX_PERMITS`, which is `usize::MAX >> 3`. -/
def maxPermits : Nat := (UInt64.size - 1) >>> 3

/-- `Semaphore::new` panics on more permits than it can count. -/
def newSemaphore (permits : UInt64) : Option Nat :=
  if permits.toNat ≤ maxPermits then some permits.toNat else none

/-- `NonZeroU32::new`, whose result is unwrapped. -/
def nonZero (n : UInt32) : Option UInt32 := if n = 0 then none else some n

/-- `Upstream::new`, or a panic. The limiter is built from any rate but zero. -/
def newUpstream (cfg : UpstreamConfig) (servers : List SocketAddr) : Option Upstream.State := do
  let _ ← nonZero (max cfg.maxQps 1)
  let permits ← newSemaphore (max cfg.maxConcurrent 1)
  some { Upstream.new servers cfg.maxConcurrent with permits := permits }

/-- The in-flight semaphore and the upstream side of a start. -/
def construct (cfg : Config) : Option (Nat × Upstream.State) := do
  let inflight ← newSemaphore (max cfg.dns.maxInflight 1)
  let upstream ← newUpstream cfg.upstream cfg.upstreamAddrs
  some (inflight, upstream)

/-- The file reads as a configuration a start can use, with the servers that
are live now. -/
def Restarts (toml : Toml) (configPath : Path) (s : State) : Prop :=
  ∃ disk cfg built, loadOrCreate toml configPath s.disk = some (disk, cfg) ∧
    construct cfg = some built ∧ cfg.upstreamAddrs ≠ [] ∧ cfg.upstreamAddrs = s.servers

deriving instance DecidableEq for ConfigUpdate

/-- What the disk makes of a save. -/
inductive SaveResult where
  | done
  | failTemp (left : Option Str)
  | failRename
  deriving DecidableEq

/-- A request, with no update when its body does not decode as one. -/
structure Post where
  body : Option ConfigUpdate
  saved : SaveResult

def SaveResult.events (i : Nat) : SaveResult → List Event
  | .done => [.writeTemp i, .rename i, .setServers i, .store i]
  | .failTemp left => [.failTemp i left]
  | .failRename => [.writeTemp i, .failRename i]

variable (toml : Toml) (configPath : Path)

/-- A request from its arrival to its answer, with nothing in between. A body
that does not decode never reaches the handler. -/
def postEvents (s : State) (i : Nat) (post : Post) : List Event :=
  match post.body with
  | none => []
  | some body =>
      .post i (.config body) :: .load i ::
        match prepare toml configPath s (.config body) with
        | none => []
        | some _ => post.saved.events i

/-- Requests one after the other, numbered as they come. -/
def postAll (s : State) (i : Nat) : List Post → Option State
  | [] => some s
  | post :: rest =>
      (Machine.run (step toml configPath) s (postEvents toml configPath s i post)).bind
        fun s' => postAll s' (i + 1) rest

/-- The servers an update names. -/
def ConfigUpdate.servers (body : ConfigUpdate) : List Str :=
  (body.upstreamServers.map Str.trim).filter (· ≠ [])

/-- The checks of `set_config`. -/
def ConfigUpdate.Checked (body : ConfigUpdate) : Prop :=
  body.servers ≠ [] ∧ (∀ s ∈ body.servers, (SocketAddr.parse s).isSome) ∧
    (Ipv4Addr.parse body.sinkholeIpv4).isSome ∧ (Ipv6Addr.parse body.sinkholeIpv6).isSome

instance decidableChecked (body : ConfigUpdate) : Decidable body.Checked :=
  inferInstanceAs (Decidable (_ ∧ _))

/-- What an update that passes the checks makes of the configuration. -/
def ConfigUpdate.asked (body : ConfigUpdate) (cfg : Config) : Option Config := do
  let ipv4 ← Ipv4Addr.parse body.sinkholeIpv4
  let ipv6 ← Ipv6Addr.parse body.sinkholeIpv6
  some
    { cfg with
      upstream := ⟨body.servers, body.timeoutMs, body.maxConcurrent, body.maxQps⟩
      dns :=
        { cfg.dns with
          sinkholeMode := body.sinkholeMode
          sinkholeIpv4 := ipv4
          sinkholeIpv6 := ipv6 } }

/-- An update that goes through when the disk takes it: it passes the checks
and what it asks for can be serialised. -/
def Acceptable (cfg : Config) (body : ConfigUpdate) : Prop :=
  body.Checked ∧ (body.asked cfg).any fun cfg' => (toml.toStringPretty cfg').isSome

instance decidableAcceptable (cfg : Config) (body : ConfigUpdate) :
    Decidable (Acceptable toml cfg body) :=
  inferInstanceAs (Decidable (_ ∧ _))

def accepted (cfg : Config) (post : Post) : Option ConfigUpdate :=
  post.body.filter fun body => Acceptable toml cfg body ∧ post.saved = .done

def lastAccepted (cfg : Config) (posts : List Post) : Option ConfigUpdate :=
  (posts.filterMap (accepted toml cfg)).getLast?

variable {toml configPath}

/-- An update is taken exactly if it passes the checks, and then it changes the
upstream and the sinkhole as it says. -/
theorem ConfigUpdate.apply_ok_iff {body : ConfigUpdate} {cfg cfg' : Config} :
    body.apply cfg = .ok cfg' ↔ body.Checked ∧
      ∃ ipv4 ipv6, Ipv4Addr.parse body.sinkholeIpv4 = some ipv4 ∧
        Ipv6Addr.parse body.sinkholeIpv6 = some ipv6 ∧
        cfg' =
          { cfg with
            upstream := ⟨body.servers, body.timeoutMs, body.maxConcurrent, body.maxQps⟩
            dns :=
              { cfg.dns with
                sinkholeMode := body.sinkholeMode
                sinkholeIpv4 := ipv4
                sinkholeIpv6 := ipv6 } } := by
  have hFind : (body.servers.find? fun s => (SocketAddr.parse s).isNone) = none ↔
      ∀ s ∈ body.servers, (SocketAddr.parse s).isSome := by
    simp [List.find?_eq_none, Option.isSome_iff_ne_none]
  have hServers : (body.upstreamServers.map Str.trim).filter (· ≠ []) = body.servers := rfl
  simp only [ConfigUpdate.apply, ConfigUpdate.Checked, bind, Except.bind, throw, throwThe,
    MonadExceptOf.throw, pure, Except.pure, hServers]
  split
  case isTrue hEmpty => simp [hEmpty]
  case isFalse hSome =>
    cases hCheck : body.servers.find? fun s => (SocketAddr.parse s).isNone with
    | some s =>
        have hBad : ¬∀ s ∈ body.servers, (SocketAddr.parse s).isSome := by
          rw [← hFind, hCheck]
          simp
        simp [hBad]
    | none =>
        have hGood := hFind.mp hCheck
        cases h4 : Ipv4Addr.parse body.sinkholeIpv4 with
        | none => simp
        | some ipv4 =>
            cases h6 : Ipv6Addr.parse body.sinkholeIpv6 with
            | none => simp
            | some ipv6 =>
                constructor
                · intro hOk
                  exact ⟨⟨hSome, hGood, rfl, rfl⟩, ipv4, ipv6, rfl, rfl, (Except.ok.inj hOk).symm⟩
                · rintro ⟨-, _, _, h4', h6', rfl⟩
                  obtain rfl := Option.some.inj h4'
                  obtain rfl := Option.some.inj h6'
                  rfl

/-- What an update keeps is all that the next one takes over. -/
theorem ConfigUpdate.apply_apply {body other : ConfigUpdate} {cfg cfg' : Config}
    (hApply : body.apply cfg = .ok cfg') : other.apply cfg' = other.apply cfg := by
  obtain ⟨-, ipv4, ipv6, -, -, rfl⟩ := apply_ok_iff.mp hApply
  rfl

theorem ConfigUpdate.exists_apply {body : ConfigUpdate} (hChecked : body.Checked) (cfg : Config) :
    ∃ cfg', body.apply cfg = .ok cfg' := by
  obtain ⟨ipv4, h4⟩ := Option.isSome_iff_exists.mp hChecked.2.2.1
  obtain ⟨ipv6, h6⟩ := Option.isSome_iff_exists.mp hChecked.2.2.2
  exact ⟨_, apply_ok_iff.mpr ⟨hChecked, ipv4, ipv6, h4, h6, rfl⟩⟩

/-- An update that passes the checks is acceptable if what it makes of the
configuration can be written. -/
theorem acceptable_of_apply {body : ConfigUpdate} {cfg cfg' : Config}
    (hApply : body.apply cfg = .ok cfg') :
    Acceptable toml cfg body ↔ (toml.toStringPretty cfg').isSome := by
  obtain ⟨hChecked, ipv4, ipv6, h4, h6, rfl⟩ := ConfigUpdate.apply_ok_iff.mp hApply
  simp [Acceptable, ConfigUpdate.asked, hChecked, h4, h6]

/-- The servers an update stores all parse, and there are some. -/
theorem upstreamAddrs_apply {body : ConfigUpdate} {cfg cfg' : Config}
    (hApply : body.apply cfg = .ok cfg') : cfg'.upstreamAddrs ≠ [] := by
  obtain ⟨⟨hSome, hParse, -⟩, ipv4, ipv6, -, -, rfl⟩ := ConfigUpdate.apply_ok_iff.mp hApply
  obtain ⟨server, hMem⟩ := List.exists_mem_of_ne_nil _ hSome
  obtain ⟨addr, hAddr⟩ := Option.isSome_iff_exists.mp (hParse server hMem)
  exact List.ne_nil_of_mem (List.mem_filterMap.mpr ⟨server, hMem, hAddr⟩)

/-- The lower bound of one permit never helps a number that is too large. -/
theorem newSemaphore_isSome (permits : UInt64) :
    (newSemaphore (max permits 1)).isSome ↔ permits.toNat ≤ maxPermits := by
  have hMax : (max permits 1).toNat ≤ maxPermits ↔ permits.toNat ≤ maxPermits := by
    change (if permits ≤ 1 then 1 else permits).toNat ≤ _ ↔ _
    split
    case isTrue hSmall =>
      have hNat : permits.toNat ≤ 1 := UInt64.le_iff_toNat_le.mp hSmall
      exact iff_of_true (by decide) (hNat.trans (by decide))
    case isFalse => exact Iff.rfl
  unfold newSemaphore
  split
  case isTrue hFew => simpa using hMax.mp hFew
  case isFalse hMany => simpa using fun hFew => hMany (hMax.mpr hFew)

theorem nonZero_max (n : UInt32) : nonZero (max n 1) = some (max n 1) := by
  refine if_neg fun hZero => ?_
  change (if n ≤ 1 then 1 else n) = 0 at hZero
  split at hZero
  · exact absurd hZero (by decide)
  · rename_i hLarge
    exact hLarge (by rw [hZero]; decide)

/-- A start panics on a semaphore with too many permits and on nothing else. -/
theorem construct_isSome (cfg : Config) :
    (construct cfg).isSome ↔ cfg.dns.maxInflight.toNat ≤ maxPermits ∧
      cfg.upstream.maxConcurrent.toNat ≤ maxPermits := by
  rw [← newSemaphore_isSome, ← newSemaphore_isSome]
  simp only [construct, newUpstream, nonZero_max, Option.bind_eq_bind, Option.bind_some]
  cases newSemaphore (max cfg.dns.maxInflight 1) with
  | none => simp
  | some inflight =>
      cases newSemaphore (max cfg.upstream.maxConcurrent 1) with
      | none => simp
      | some permits => simp

/-- The last request counts if it is accepted, else those before it do. -/
theorem lastAccepted_concat (cfg : Config) (past : List Post) (post : Post) :
    lastAccepted toml cfg (past ++ [post]) =
      (accepted toml cfg post).or (lastAccepted toml cfg past) := by
  rw [lastAccepted, lastAccepted, List.filterMap_append, List.getLast?_append]
  cases hAccepted : accepted toml cfg post <;> simp [hAccepted]

variable {s s' s₀ : State} {i : Nat}

/-- The first two steps of a request. -/
theorem run_load {body : Body} {rest : List Event} (hIdle : s.requests i = .idle) :
    Machine.run (step toml configPath) s (.post i body :: .load i :: rest) =
      Machine.run (step toml configPath)
        (setPhase s i
          (match prepare toml configPath s body with
            | none => .returned none
            | some job => .prepared job)) rest := by
  have hSame : prepare toml configPath (setPhase s i (.posted body)) body =
      prepare toml configPath s body := by
    cases body <;> rfl
  simp only [Machine.run, step, hIdle, Option.bind_some, setPhase, Function.update_self]
  rw [← setPhase, hSame]
  cases prepare toml configPath s body <;> simp [Function.update_idem]

/-- A save that the disk takes ends with the file, the servers and the live
configuration as asked for, and no other file but the temporary one has changed. -/
theorem run_done (toml : Toml) {cfg : Config} {text : Str}
    (hPhase : s.requests i = .prepared ⟨.config cfg, configPath, text⟩) :
    ∃ s', Machine.run (step toml configPath) s (SaveResult.events i .done) = some s' ∧
      s'.requests i = .returned (some (.config cfg)) ∧ s'.disk configPath = some text ∧
      (∀ path, path ≠ configPath → path ≠ tempPath configPath → s'.disk path = s.disk path) ∧
      s'.config = cfg ∧ s'.servers = cfg.upstreamAddrs ∧ s'.blocklist = s.blocklist := by
  simp +contextual [SaveResult.events, Machine.run, step, hPhase, setPhase, Job.temp,
    Function.update_of_ne]

/-- A save that the disk does not take leaves all but the temporary file as it
is. -/
theorem run_failed (toml : Toml) {job : Job} {saved : SaveResult}
    (hPhase : s.requests i = .prepared job) (hFailed : saved ≠ .done) :
    ∃ s', Machine.run (step toml configPath) s (saved.events i) = some s' ∧
      s'.requests i = .returned none ∧ (∀ path, path ≠ job.temp → s'.disk path = s.disk path) ∧
      s'.config = s.config ∧ s'.servers = s.servers ∧ s'.blocklist = s.blocklist := by
  cases saved with
  | done => exact absurd rfl hFailed
  | failTemp left =>
      simp +contextual [SaveResult.events, Machine.run, step, hPhase, setPhase,
        Function.update_of_ne]
  | failRename =>
      simp +contextual [SaveResult.events, Machine.run, step, hPhase, setPhase,
        Function.update_of_ne]

theorem request_of_mem_saved {saved : SaveResult} {e : Event} (hMem : e ∈ saved.events i) :
    e.request = i := by
  cases saved <;> simp only [SaveResult.events, List.mem_cons, List.not_mem_nil, or_false] at hMem
  · rcases hMem with rfl | rfl | rfl | rfl <;> rfl
  · rw [hMem]
    rfl
  · rcases hMem with rfl | rfl <;> rfl

/-- After some requests the file, the servers and the live configuration are
those of the last one accepted. -/
structure Current (toml : Toml) (configPath : Path) (s₀ : State) (past : List Post) (s : State) :
    Prop where
  agrees : ConfigAgrees toml configPath s
  servers : s.servers = s.config.upstreamAddrs
  config : match lastAccepted toml s₀.config past with
    | none => s.config = s₀.config
    | some body => body.apply s₀.config = .ok s.config

/-- The next update finds what it keeps as the start left it. -/
theorem Current.apply_eq {past : List Post} (hCurrent : Current toml configPath s₀ past s)
    (body : ConfigUpdate) : body.apply s.config = body.apply s₀.config := by
  have hConfig := hCurrent.config
  split at hConfig
  · rw [hConfig]
  · exact ConfigUpdate.apply_apply hConfig

theorem Current.apply_last {past : List Post} {body : ConfigUpdate}
    (hCurrent : Current toml configPath s₀ past s) (hLast : lastAccepted toml s₀.config past = some body) :
    body.apply s₀.config = .ok s.config := by
  have hConfig := hCurrent.config
  simp only [hLast] at hConfig
  exact hConfig

/-- A request that is not accepted changes nothing that counts. -/
theorem Current.refused {past : List Post} {post : Post}
    (hCurrent : Current toml configPath s₀ past s) (hRefused : accepted toml s₀.config post = none)
    (hDisk : s'.disk configPath = s.disk configPath) (hConfig : s'.config = s.config)
    (hServers : s'.servers = s.servers) : Current toml configPath s₀ (past ++ [post]) s' where
  agrees := by
    rw [ConfigAgrees, Reads, hDisk, hConfig]
    exact hCurrent.agrees
  servers := by rw [hServers, hConfig, hCurrent.servers]
  config := by
    rw [lastAccepted_concat, hRefused, Option.none_or, hConfig]
    exact hCurrent.config

theorem accepted_eq_none {cfg : Config} {body : ConfigUpdate} {post : Post}
    (hBody : post.body = some body) (hNot : ¬(Acceptable toml cfg body ∧ post.saved = .done)) :
    accepted toml cfg post = none := by
  rw [accepted, hBody, Option.filter_some, if_neg (by simpa using hNot)]

/-- One request comes to its end, and file, servers and live configuration are
again those of the last one accepted. -/
theorem post_run {past : List Post} {post : Post} (hCurrent : Current toml configPath s₀ past s)
    (hIdle : s.requests i = .idle)
    (hTemp : post.saved ≠ .done → tempPath configPath ≠ configPath) :
    ∃ s', Machine.run (step toml configPath) s (postEvents toml configPath s i post) = some s' ∧
      Current toml configPath s₀ (past ++ [post]) s' := by
  cases hBody : post.body with
  | none =>
      refine ⟨s, by simp [postEvents, hBody, Machine.run], ?_⟩
      exact hCurrent.refused (by simp [accepted, hBody]) rfl rfl rfl
  | some body =>
      have hApply := hCurrent.apply_eq body
      simp only [postEvents, hBody, run_load hIdle]
      cases hPrepare : prepare toml configPath s (.config body) with
      | none =>
          refine ⟨_, rfl, hCurrent.refused (accepted_eq_none hBody fun hBoth => ?_) rfl rfl rfl⟩
          obtain ⟨cfg, hOk⟩ := ConfigUpdate.exists_apply hBoth.1.1 s₀.config
          have hText := (acceptable_of_apply hOk).mp hBoth.1
          simp only [prepare, hApply, hOk, Option.map_eq_none_iff] at hPrepare
          simp [hPrepare] at hText
      | some job =>
          obtain ⟨_, _, hList, -⟩ | ⟨_, cfg, text, hSame, hOk, hText, rfl⟩ :=
            prepare_cases hPrepare
          · cases hList
          obtain rfl := Body.config.inj hSame
          rw [hApply] at hOk
          have hAcceptable : Acceptable toml s₀.config body :=
            (acceptable_of_apply hOk).mpr (by rw [hText]; rfl)
          by_cases hDone : post.saved = .done
          · obtain ⟨s', hRun, -, hDisk, -, hConfig, hServers, -⟩ :=
              run_done toml (s := setPhase s i (.prepared ⟨.config cfg, configPath, text⟩))
                (Function.update_self ..)
            refine ⟨s', by rw [hDone]; exact hRun, ⟨text, hDisk, ?_⟩, by rw [hServers, hConfig], ?_⟩
            · rw [hConfig]
              exact toml.roundTrip cfg text hText
            · have hAccepted : accepted toml s₀.config post = some body := by
                rw [accepted, hBody, Option.filter_some,
                  if_pos (by simpa using ⟨hAcceptable, hDone⟩)]
              rw [lastAccepted_concat, hAccepted, Option.some_or, hConfig]
              exact hOk
          · obtain ⟨s', hRun, -, hDisk, hConfig, hServers, -⟩ :=
              run_failed toml (s := setPhase s i (.prepared ⟨.config cfg, configPath, text⟩))
                (Function.update_self ..) hDone
            exact ⟨s', hRun, hCurrent.refused (accepted_eq_none hBody fun hBoth => hDone hBoth.2)
              (hDisk configPath (Ne.symm (hTemp hDone))) hConfig hServers⟩

theorem request_postEvents {post : Post} {e : Event}
    (hMem : e ∈ postEvents toml configPath s i post) : e.request = i := by
  unfold postEvents at hMem
  split at hMem
  · simp at hMem
  · rcases List.mem_cons.mp hMem with rfl | hMem
    · rfl
    rcases List.mem_cons.mp hMem with rfl | hMem
    · rfl
    split at hMem
    · simp at hMem
    · exact request_of_mem_saved hMem

/-- Requests one after the other all come to an end. -/
theorem postAll_current {past posts : List Post} (hCurrent : Current toml configPath s₀ past s)
    (hIdle : ∀ j, i ≤ j → s.requests j = .idle)
    (hTemp : ∀ post ∈ posts, post.saved ≠ .done → tempPath configPath ≠ configPath) :
    ∃ s', postAll toml configPath s i posts = some s' ∧
      Current toml configPath s₀ (past ++ posts) s' := by
  induction posts generalizing s i past with
  | nil => exact ⟨s, rfl, by rwa [List.append_nil]⟩
  | cons post rest ih =>
      obtain ⟨middle, hRun, hMiddle⟩ := post_run hCurrent (hIdle i (Nat.le_refl i))
        (hTemp post List.mem_cons_self)
      have hLater : ∀ j, i + 1 ≤ j → middle.requests j = .idle := fun j hj => by
        rw [run_frame hRun fun e he => by rw [request_postEvents he]; omega]
        exact hIdle j (by omega)
      obtain ⟨s', hAll, hEnd⟩ := ih hMiddle hLater
        (fun p hp => hTemp p (List.mem_cons_of_mem _ hp))
      refine ⟨s', by rw [postAll, hRun, Option.bind_some, hAll], ?_⟩
      rwa [List.append_assoc] at hEnd

/-- After a start no request has been accepted. -/
theorem current_boot {token : Token} {disk : Disk}
    (hBoot : boot toml configPath token disk = some s₀) : Current toml configPath s₀ [] s₀ := by
  obtain ⟨hAgrees, -, hServers, -, -⟩ := boot_agrees hBoot
  exact ⟨hAgrees, hServers, rfl⟩

/-- The next start needs two things of what is saved: permits a semaphore can
count and a server. -/
theorem Current.restarts_iff {past : List Post} (hCurrent : Current toml configPath s₀ past s) :
    Restarts toml configPath s ↔ (construct s.config).isSome ∧ s.config.upstreamAddrs ≠ [] := by
  obtain ⟨text, hText, hParse⟩ := hCurrent.agrees
  have hLoad : loadOrCreate toml configPath s.disk = some (s.disk, s.config) := by
    simp [loadOrCreate, hText, hParse]
  constructor
  · rintro ⟨disk, cfg, built, hRead, hBuilt, hSome, -⟩
    obtain ⟨rfl, rfl⟩ := Prod.mk.inj (Option.some.inj (hLoad.symm.trans hRead))
    exact ⟨by rw [hBuilt]; rfl, hSome⟩
  · rintro ⟨hBuilt, hSome⟩
    obtain ⟨built, hBuilt⟩ := Option.isSome_iff_exists.mp hBuilt
    exact ⟨s.disk, s.config, built, hLoad, hBuilt, hSome, hCurrent.servers.symm⟩

/-- What the API leaves in the file can be started from if and only if the last
accepted update asks for permits a semaphore can count or, with no update
accepted, the start had a server. -/
theorem saved_config_starts_iff {token : Token} {disk : Disk} {posts : List Post}
    (hBoot : boot toml configPath token disk = some s₀) (hStart : (construct s₀.config).isSome)
    (hTemp : ∀ post ∈ posts, post.saved ≠ .done → tempPath configPath ≠ configPath) :
    ∃ s, postAll toml configPath s₀ 0 posts = some s ∧
      (Restarts toml configPath s ↔
        match lastAccepted toml s₀.config posts with
        | some body => body.maxConcurrent.toNat ≤ maxPermits
        | none => s₀.config.upstreamAddrs ≠ []) := by
  obtain ⟨-, -, -, hIdle, -⟩ := boot_agrees hBoot
  obtain ⟨s, hAll, hCurrent⟩ :=
    postAll_current (current_boot hBoot) (fun j _ => hIdle j) hTemp
  rw [List.nil_append] at hCurrent
  refine ⟨s, hAll, hCurrent.restarts_iff.trans ?_⟩
  cases hLast : lastAccepted toml s₀.config posts with
  | none =>
      have hConfig := hCurrent.config
      simp only [hLast] at hConfig
      rw [hConfig]
      exact and_iff_right hStart
  | some body =>
      have hConfig := hCurrent.apply_last hLast
      have hInflight := ((construct_isSome s₀.config).mp hStart).1
      have hSome := upstreamAddrs_apply hConfig
      obtain ⟨-, ipv4, ipv6, -, -, hEq⟩ := ConfigUpdate.apply_ok_iff.mp hConfig
      rw [construct_isSome, and_iff_left hSome, hEq]
      exact and_iff_right hInflight

/-- The sample configuration with another number of concurrent queries. -/
def tunedConfig (maxConcurrent : UInt64) : Config :=
  let cfg := sampleConfig "1.1.1.1:53".toList
  { cfg with upstream := { cfg.upstream with maxConcurrent := maxConcurrent } }

/-- The sample file with one line replaced. -/
def sampleTextWith (old new : Str) : Str :=
  unlines ((Str.lines (sampleText "1.1.1.1:53".toList)).map fun line =>
    if line = old then new else line)

def tunedText (maxConcurrent : Str) : Str :=
  sampleTextWith "max_concurrent = 256".toList ("max_concurrent = ".toList ++ maxConcurrent)

/-- One permit more than a semaphore can count. -/
def tooMany : UInt64 := 2305843009213693952

def tunedToml : Toml :=
  Toml.ofTable
    [sampleRow "1.1.1.1:53", (tunedConfig 512, tunedText "512".toList),
      (tunedConfig tooMany, tunedText "2305843009213693952".toList)]
    (by decide +kernel)

def tunedBody (maxConcurrent : UInt64) : ConfigUpdate :=
  { upstreamServers := [" 1.1.1.1:53".toList, []]
    timeoutMs := 2000
    maxQps := 2000
    maxConcurrent := maxConcurrent
    sinkholeMode := "zero_ip".toList
    sinkholeIpv4 := "0.0.0.0".toList
    sinkholeIpv6 := "::".toList }

theorem tuned_apply (n : UInt64) :
    (tunedBody n).apply (sampleConfig "1.1.1.1:53".toList) = .ok (tunedConfig n) := rfl

/-- Requests of every kind: one that is not an update, one that is accepted, one
without a server, one that fails on the disk. -/
def mixedPosts : List Post :=
  [⟨none, .done⟩, ⟨some (tunedBody 512), .done⟩,
    ⟨some { tunedBody 512 with upstreamServers := [] }, .done⟩,
    ⟨some (tunedBody tooMany), .failRename⟩]

theorem saved_config_starts_iff_mixed :
    ∃ s₀ s, boot tunedToml samplePath sampleToken sampleDisk = some s₀ ∧
      postAll tunedToml samplePath s₀ 0 mixedPosts = some s ∧ Restarts tunedToml samplePath s := by
  have hBoot := sample_boot tunedToml rfl
  have hStart : (construct sampleState.config).isSome := by decide
  have hLast : lastAccepted tunedToml sampleState.config mixedPosts = some (tunedBody 512) := by
    decide +kernel
  obtain ⟨s, hAll, hIff⟩ := saved_config_starts_iff hBoot hStart fun _ _ _ => by decide +kernel
  rw [hLast] at hIff
  have hFew : (tunedBody 512).maxConcurrent.toNat ≤ maxPermits := by decide
  exact ⟨sampleState, s, hBoot, hAll, hIff.mpr hFew⟩

def greedyPosts : List Post := [⟨some (tunedBody tooMany), .done⟩]

/-- An update is accepted and saved, and the next start panics on it. -/
theorem saved_config_panics :
    ∃ s₀ s, boot tunedToml samplePath sampleToken sampleDisk = some s₀ ∧
      (construct s₀.config).isSome ∧ postAll tunedToml samplePath s₀ 0 greedyPosts = some s ∧
      s.config = tunedConfig tooMany ∧ construct s.config = none ∧
      ¬Restarts tunedToml samplePath s := by
  have hBoot := sample_boot tunedToml rfl
  have hStart : (construct sampleState.config).isSome := by decide
  obtain ⟨-, -, -, hIdle, -⟩ := boot_agrees hBoot
  obtain ⟨s, hAll, hCurrent⟩ := postAll_current (current_boot hBoot) (fun j _ => hIdle j)
    fun _ _ _ => by decide +kernel
  have hConfig : s.config = tunedConfig tooMany := by
    have hLast : lastAccepted tunedToml sampleState.config ([] ++ greedyPosts) =
        some (tunedBody tooMany) := by
      decide +kernel
    exact (Except.ok.inj ((tuned_apply _).symm.trans (hCurrent.apply_last hLast))).symm
  have hPanic : ¬(construct s.config).isSome := by
    rw [hConfig]
    decide +kernel
  exact ⟨sampleState, s, hBoot, hStart, hAll, hConfig, Option.not_isSome_iff_eq_none.mp hPanic,
    fun hRestarts => hPanic (hCurrent.restarts_iff.mp hRestarts).1⟩

end Admin

end RustDns
