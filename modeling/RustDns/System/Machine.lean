import RustDns.Admin.Restart
import RustDns.Server.HotReload

/-! The whole process: the DNS server and the admin API over the state they
share, which `main` builds from the files and which ends with the process. -/
namespace RustDns

/-- The event is an update by the API, or the end of the process. -/
def Server.Event.external : Server.Event → Bool
  | .setBlocklist _ | .setConfig _ | .upstream (.setServers _) | .restart _ _ _ => true
  | _ => false

namespace System

/-- `AppState` with the files: the server holds what is live, the API has its
requests. -/
structure State (env : Env) where
  server : Server.State env
  disk : Admin.Disk
  requests : Nat → Admin.Phase

inductive Event where
  | dns (e : Server.Event)
  | admin (e : Admin.Event)
  | restart (token : Admin.Token) (loaded : Bool)

/-- The event ends a process. -/
def Event.restarts : Event → Bool
  | .restart _ _ => true
  | _ => false

variable {env : Env}

/-- The state as the API sees it. -/
def State.admin (s : State env) : Admin.State where
  disk := s.disk
  config := s.server.config
  servers := s.server.upstream.servers
  blocklist := s.server.blocklist
  requests := s.requests

/-- The state as the API leaves it. -/
def State.withAdmin (s : State env) (a : Admin.State) : State env where
  server :=
    { s.server with
      config := a.config
      upstream := { s.server.upstream with servers := a.servers }
      blocklist := a.blocklist }
  disk := a.disk
  requests := a.requests

section

variable (toml : Admin.Toml) (configPath : Admin.Path)

/-- `main` up to the first query: the state is built from the files and the
cache, and the listeners need an address. -/
def start (token : Admin.Token) (disk : Admin.Disk) (cache : Config → Cache.State)
    (origins : List (Request env.wire)) : Option (State env) := do
  let a ← Admin.boot toml configPath token disk
  let _ ← Admin.construct a.config
  let _ ← SocketAddr.parse a.config.dns.bind
  some
    { server := Server.boot (cache a.config) a.config a.blocklist origins
      disk := a.disk
      requests := a.requests }

/-- The first start, with nothing cached. -/
def init (now : UnixTime) (token : Admin.Token) (disk : Admin.Disk) : Option (State env) :=
  start toml configPath token disk (fun cfg => Cache.init now cfg.cache.maxEntries.toNat) []

/-- A process may end at any time; the next one has its files and its store. -/
def restart (s : State env) (token : Admin.Token) (loaded : Bool) : Option (State env) :=
  start toml configPath token s.disk
    (fun cfg => Cache.restart s.server.cache cfg.cache.maxEntries.toNat loaded) s.server.origins

def step (s : State env) : Event → Option (State env)
  | .dns e =>
      if e.external then none
      else (Server.step s.server e).map fun server => { s with server := server }
  | .admin e => (Admin.step toml configPath s.admin e).map s.withAdmin
  | .restart token loaded => restart toml configPath s token loaded

end

variable {toml : Admin.Toml} {configPath : Admin.Path} {s s' : State env} {e : Event}

/-- The API's view of a process is what was put there. -/
@[simp] theorem admin_withAdmin (s : State env) (a : Admin.State) : (s.withAdmin a).admin = a := rfl

/-- The steps of the process. -/
inductive Step (toml : Admin.Toml) (configPath : Admin.Path) (s : State env) :
    Event → State env → Prop where
  | dns {e : Server.Event} {server : Server.State env} (hInternal : e.external = false)
      (hServer : Server.step s.server e = some server) :
      Step toml configPath s (.dns e) { s with server := server }
  | admin {e : Admin.Event} {a : Admin.State} (hAdmin : Admin.step toml configPath s.admin e = some a) :
      Step toml configPath s (.admin e) (s.withAdmin a)
  | restart {token : Admin.Token} {loaded : Bool} {s' : State env}
      (hRestart : restart toml configPath s token loaded = some s') :
      Step toml configPath s (.restart token loaded) s'

/-- What each event of the process does, and when it can happen. -/
theorem step_cases (hStep : step toml configPath s e = some s') : Step toml configPath s e s' := by
  cases e with
  | dns e =>
      simp only [step] at hStep
      split at hStep
      case isTrue => simp at hStep
      case isFalse hInternal =>
        obtain ⟨server, hServer, rfl⟩ := Option.map_eq_some_iff.mp hStep
        exact .dns (Bool.eq_false_iff.mpr hInternal) hServer
  | admin e =>
      obtain ⟨a, hAdmin, rfl⟩ := Option.map_eq_some_iff.mp hStep
      exact .admin hAdmin
  | restart token loaded => exact .restart hStep

/-- What a start builds, from what the API's part of it finds in the files. -/
theorem start_eq_some_iff {token : Admin.Token} {disk : Admin.Disk} {cache : Config → Cache.State}
    {origins : List (Request env.wire)} :
    start toml configPath token disk cache origins = some s ↔
      ∃ a, Admin.boot toml configPath token disk = some a ∧ (Admin.construct a.config).isSome ∧
        (SocketAddr.parse a.config.dns.bind).isSome ∧
        s = ⟨Server.boot (cache a.config) a.config a.blocklist origins, a.disk, a.requests⟩ := by
  simp only [start, Option.bind_eq_bind, Option.bind_eq_some_iff, Option.isSome_iff_exists,
    Option.some.injEq]
  constructor
  · rintro ⟨a, hBoot, built, hBuilt, addr, hAddr, rfl⟩
    exact ⟨a, hBoot, ⟨built, hBuilt⟩, ⟨addr, hAddr⟩, rfl⟩
  · rintro ⟨a, hBoot, ⟨built, hBuilt⟩, ⟨addr, hAddr⟩, rfl⟩
    exact ⟨a, hBoot, built, hBuilt, addr, hAddr, rfl⟩

/-- The API starts on what its own start has built. -/
theorem admin_of_start {token : Admin.Token} {disk : Admin.Disk} {cache : Config → Cache.State}
    {origins : List (Request env.wire)}
    (hStart : start toml configPath token disk cache origins = some s) :
    Admin.boot toml configPath token disk = some s.admin := by
  obtain ⟨a, hBoot, -, -, rfl⟩ := start_eq_some_iff.mp hStart
  obtain ⟨-, -, hServers, -⟩ := Admin.boot_agrees hBoot
  rw [hBoot]
  obtain ⟨disk', config, servers, blocklist, requests⟩ := a
  obtain rfl : servers = config.upstreamAddrs := hServers
  rfl

/-- Storing the fill of a flight sets no servers. -/
theorem servers_land (s : Server.State env) (i : Nat) :
    (Server.land s i).upstream.servers = s.upstream.servers := by
  unfold Server.land
  split <;> rfl

/-- Only `setServers` changes the servers in use. -/
theorem servers_of_upstream {wire : Wire} {policy : TtlPolicy} {now : UnixTime}
    {u u' : Upstream.State} {e : Upstream.Event} (hSame : ∀ servers, e ≠ .setServers servers)
    (hStep : Upstream.step wire policy now u e = some u') : u'.servers = u.servers := by
  cases Upstream.step_cases hStep with
  | setServers servers => exact absurd rfl (hSame servers)
  | _ => rfl

/-- Nothing but the API changes the upstream servers of a living process. -/
theorem servers_of_step {t t' : Server.State env} {e : Server.Event} (hInternal : e.external = false)
    (hStep : Server.step t e = some t') : t'.upstream.servers = t.upstream.servers := by
  cases Server.step_cases hStep with
  | arrive data =>
      unfold Server.arrive
      split <;> rfl
  | parse _ _ =>
      unfold Server.parse
      split <;> rfl
  | check _ _ =>
      unfold Server.check
      dsimp only
      split <;> rfl
  | lookup _ _ =>
      unfold Server.lookup
      split <;> rfl
  | join _ _ =>
      unfold Server.join
      split
      · rfl
      · split <;> rfl
  | deliver _ _ hDeliver =>
      rcases Server.deliver_cases hDeliver with ⟨_, _, _, -, -, rfl⟩ | rfl <;> rfl
  | finish _ hFinish =>
      obtain rfl := Server.finish_cases hFinish
      rfl
  | @upstream e _ hForward =>
      have hSame : ∀ servers, e ≠ .setServers servers := by
        rintro servers rfl
        simp [Server.Event.external] at hInternal
      obtain ⟨upstream, hUpstream, -, ⟨rfl, -⟩ | ⟨i, -, rfl⟩⟩ := Server.forward_step hForward
      · exact servers_of_upstream hSame hUpstream
      · rw [servers_land]
        exact servers_of_upstream hSame hUpstream
  | cache hBackground =>
      obtain ⟨cache, -, rfl, -⟩ := Server.background_cases hBackground
      rfl
  | setBlocklist list => simp [Server.Event.external] at hInternal
  | setConfig cfg => simp [Server.Event.external] at hInternal
  | restart cfg list loaded => simp [Server.Event.external] at hInternal

/-- The server's own events edit and restart nothing. -/
theorem not_edits_of_internal {e : Server.Event} (hInternal : e.external = false) :
    e.edits = false ∧ e.restarts = false := by
  cases e <;> first | exact ⟨rfl, rfl⟩ | simp [Server.Event.external] at hInternal

/-- Queries leave the API's state as it is. -/
theorem admin_of_dns {e : Server.Event} {server : Server.State env} (hInternal : e.external = false)
    (hServer : Server.step s.server e = some server) :
    ({ s with server := server } : State env).admin = s.admin := by
  obtain ⟨hQuiet, hAlive⟩ := not_edits_of_internal hInternal
  obtain ⟨hConfig, hList⟩ := Prod.mk.inj (Server.settings_of_step hAlive hQuiet hServer)
  have hServers := servers_of_step hInternal hServer
  simp only [State.admin, hConfig, hList, hServers]

/-- What the API sees of a step of a living process. -/
theorem admin_of_step (hAlive : e.restarts = false) (hStep : step toml configPath s e = some s') :
    s'.admin = s.admin ∨
      ∃ e', e = .admin e' ∧ Admin.step toml configPath s.admin e' = some s'.admin := by
  cases step_cases hStep with
  | dns hInternal hServer => exact Or.inl (admin_of_dns hInternal hServer)
  | admin hAdmin => exact Or.inr ⟨_, rfl, hAdmin⟩
  | restart hRestart => simp [Event.restarts] at hAlive

end System

end RustDns
