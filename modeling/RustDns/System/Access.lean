import RustDns.Admin.Gate
import RustDns.System.Recovery

/-! The whole process behind the gate of its API. The token of the first start
stands through crashes and restarts, and without it there is nothing a request
can do. -/
namespace RustDns

namespace System

/-- The running process has the web settings of the first start. -/
theorem Recoverable.web {toml : Admin.Toml} {configPath : Admin.Path} {first a : Admin.State}
    (hRecoverable : Recoverable toml configPath first a) : a.config.web = first.config.web := by
  obtain ⟨_, _, s₀, -, hWeb, hInv⟩ := hRecoverable.started
  exact hInv.web.trans hWeb

namespace Access

variable {env : Env}

inductive Event where
  | request (i : Nat) (req : Gate.Request)
  | inner (e : System.Event)

section

variable (toml : Admin.Toml) (configPath : Admin.Path)

/-- A request goes through the gate to its handler. -/
def request (s : State env) (i : Nat) (req : Gate.Request) : Option (State env) :=
  (Gate.step toml configPath ⟨s.admin, []⟩ (.request i req)).map fun gate => s.withAdmin gate.admin

/-- Updates come in as requests only. -/
def step (s : State env) : Event → Option (State env)
  | .request i req => request toml configPath s i req
  | .inner (.admin (.post _ _)) => none
  | .inner e => System.step toml configPath s e

end

variable {toml : Admin.Toml} {configPath : Admin.Path} {s s' : State env}

/-- A request changes nothing, or it has been let through to a handler of the
API that starts an update. -/
theorem request_cases {i : Nat} {req : Gate.Request} (hRequest : request toml configPath s i req = some s') :
    s' = s ∨
      Str.startsWith "/api".toList req.path = true ∧ Gate.auth s.server.config req = true ∧
        ∃ body, System.step toml configPath s (.admin (.post i body)) = some s' := by
  obtain ⟨gate, hGate, rfl⟩ := Option.map_eq_some_iff.mp hRequest
  simp only [Gate.step] at hGate
  split at hGate
  case isFalse =>
    obtain rfl := Option.some.inj hGate
    exact Or.inl rfl
  case isTrue hAuth =>
    split at hGate
    case h_1 =>
      obtain rfl := Option.some.inj hGate
      exact Or.inl rfl
    case h_2 handler hRoute =>
      -- both handlers that write start an update from what the body decodes to
      have hUpdate : ∀ ran (body : Option Admin.Body), handler ≠ .index →
          Gate.startUpdate toml configPath ⟨s.admin, []⟩ i ran body = some gate →
          s.withAdmin gate.admin = s ∨
            Str.startsWith "/api".toList req.path = true ∧ Gate.auth s.server.config req = true ∧
              ∃ body, System.step toml configPath s (.admin (.post i body)) =
                some (s.withAdmin gate.admin) := by
        intro ran body hHandler hStart
        cases body with
        | none =>
            obtain rfl := Option.some.inj hStart
            exact Or.inl rfl
        | some body =>
            obtain ⟨admin, hPost, rfl⟩ := Option.map_eq_some_iff.mp hStart
            refine Or.inr ⟨Gate.route_api hRoute hHandler, hAuth, body, ?_⟩
            simp only [System.step]
            rw [hPost]
            rfl
      cases handler with
      | setBlocklist | setConfig => exact hUpdate _ _ (by simp) hGate
      | _ =>
          obtain rfl := Option.some.inj hGate
          exact Or.inl rfl

/-- The file operations of updates do not overlap. -/
def Exclusive (s : State env) : Event → Prop
  | .request _ _ => True
  | .inner e => System.Exclusive s e

/-- The event is not a request, or one that shows the token. -/
def Event.Shows (token : Str) : Event → Prop
  | .request _ req => Gate.Presents token req
  | .inner _ => True

/-- The process takes no step, or one step of its own. -/
theorem step_inner {e : Event} (hExclusive : Exclusive s e) (hStep : step toml configPath s e = some s') :
    s' = s ∨ ∃ inner, System.Exclusive s inner ∧ System.step toml configPath s inner = some s' := by
  cases e with
  | request i req =>
      rcases request_cases hStep with rfl | ⟨-, -, body, hPost⟩
      · exact Or.inl rfl
      · exact Or.inr ⟨.admin (.post i body), trivial, hPost⟩
  | inner e =>
      refine Or.inr ⟨e, hExclusive, ?_⟩
      cases e with
      | admin e =>
          cases e with
          | post i body => simp [step] at hStep
          | _ => exact hStep
      | _ => exact hStep

/-- A step leaves the files fit for a start, whoever has sent the request. -/
theorem recoverable_step {first : Admin.State} {e : Event}
    (hPaths : Admin.Separate configPath first.config.web.blocklistPath)
    (hRecoverable : Recoverable toml configPath first s.admin) (hExclusive : Exclusive s e)
    (hStep : step toml configPath s e = some s') : Recoverable toml configPath first s'.admin := by
  rcases step_inner hExclusive hStep with rfl | ⟨inner, hInner, hNext⟩
  · exact hRecoverable
  · exact System.recoverable_step hPaths hRecoverable hInner hNext

/-- An event that shows no token has no effect. -/
theorem same_of_not_shows {e : Event} (hToken : s.server.config.web.adminToken ≠ [])
    (hHidden : ¬e.Shows s.server.config.web.adminToken) (hStep : step toml configPath s e = some s') :
    s' = s := by
  cases e with
  | request i req =>
      rcases request_cases hStep with hSame | ⟨hApi, hAuth, -⟩
      · exact hSame
      · exact absurd ((Gate.auth_iff hApi hToken).mp hAuth) hHidden
  | inner e => exact absurd trivial hHidden

section

variable {now : UnixTime} {token : Admin.Token} {disk : Admin.Disk} {s₀ : State env} {es : List Event}

/-- A process that has started has a token. -/
theorem first_token (hInit : init toml configPath now token disk = some s₀) :
    ¬Admin.NeedsToken s₀.server.config.web := by
  obtain ⟨-, hToken, -⟩ := Admin.boot_agrees (admin_of_start hInit)
  exact hToken

/-- A post of a list that blocks the sample name. -/
def postList (headers : List (Str × Bytes)) : Gate.Request :=
  ⟨.post, "/api/blocklist".toList, headers, some "a".toList, none⟩

def withToken : List (Str × Bytes) :=
  [("x-admin-token".toList, Gate.asciiBytes "secret".toList)]

/-- Posts by an outsider, and one with the token that a crash cuts short. -/
def session : List Event :=
  [.request 0 (postList []), .request 1 (postList withToken), .inner (.admin (.load 1)),
    .inner (.restart Admin.sampleToken true), .request 0 (postList [])]

/-- The updates of the session do not overlap. -/
theorem exclusive_session :
    Machine.Along (step Admin.sampleToml Admin.samplePath) Exclusive
      (startedWith "b".toList : State Server.sampleEnv) session := by
  apply Machine.along_of_mem
  intro e hMem s
  simp only [session, List.mem_cons, List.not_mem_nil, or_false] at hMem
  rcases hMem with rfl | rfl | rfl | rfl | rfl <;> trivial

/-- The token of the first start stands: through any requests, and any number
of crashes and restarts with other tokens at hand, the API asks for it and for
nothing else. -/
theorem token_stands (hInit : init toml configPath now token disk = some s₀)
    (hPaths : Admin.Separate configPath s₀.server.config.web.blocklistPath)
    (hExclusive : Machine.Along (step toml configPath) Exclusive s₀ es)
    (hRun : Machine.run (step toml configPath) s₀ es = some s) :
    s.server.config.web = s₀.server.config.web ∧ ¬Admin.NeedsToken s.server.config.web ∧
      ∀ req : Gate.Request, Str.startsWith "/api".toList req.path = true →
        (Gate.auth s.server.config req = true ↔ Gate.Presents s₀.server.config.web.adminToken req) := by
  have hRecoverable : Recoverable toml configPath s₀.admin s.admin :=
    Machine.run_invariant_along
      (fun _ _ _ hInv hEvent hStep => recoverable_step hPaths hInv hEvent hStep)
      (recoverable_boot (admin_of_start hInit) rfl rfl) hExclusive hRun
  have hWeb : s.server.config.web = s₀.server.config.web := hRecoverable.web
  have hToken := first_token hInit
  rw [← hWeb] at hToken ⊢
  refine ⟨rfl, hToken, fun req hApi => Gate.auth_iff hApi ?_⟩
  exact (not_or.mp hToken).1

/-- After the session the token of the first start still stands, and lets its
owner in. -/
theorem token_stands_session :
    ∃ s : State Server.sampleEnv,
      Machine.run (step Admin.sampleToml Admin.samplePath) (startedWith "b".toList) session = some s ∧
      s.server.config.web.adminToken = "secret".toList ∧
      Gate.auth s.server.config (postList withToken) = true ∧
      Gate.Presents "secret".toList (postList withToken) := by
  have hEval : ((Machine.run (step Admin.sampleToml Admin.samplePath)
      (startedWith "b".toList : State Server.sampleEnv) session).map fun s =>
        Gate.auth s.server.config (postList withToken)) = some true := by
    decide +kernel
  obtain ⟨s, hRun, hAuth⟩ := Option.map_eq_some_iff.mp hEval
  obtain ⟨hWeb, -, hIff⟩ := token_stands (init_startedWith "b".toList) Admin.sample_separate
    exclusive_session hRun
  have hApi : Str.startsWith "/api".toList (postList withToken).path = true := by decide
  exact ⟨s, hRun, congrArg WebConfig.adminToken hWeb, hAuth, (hIff _ hApi).mp hAuth⟩

open Classical in
/-- Requests without the token leave no trace. Taken out of a run they leave a
run, which ends in the same state: with the same lists, settings, files,
requests, queries and answers. -/
theorem outsiders_leave_no_trace (hInit : init toml configPath now token disk = some s₀)
    (hPaths : Admin.Separate configPath s₀.server.config.web.blocklistPath)
    (hExclusive : Machine.Along (step toml configPath) Exclusive s₀ es)
    (hRun : Machine.run (step toml configPath) s₀ es = some s) :
    Machine.run (step toml configPath) s₀
      (es.filter fun e => e.Shows s₀.server.config.web.adminToken) = some s := by
  have hToken : s₀.server.config.web.adminToken ≠ [] := (not_or.mp (first_token hInit)).1
  have hStep : ∀ (s : State env) e s', Recoverable toml configPath s₀.admin s.admin → Exclusive s e →
      step toml configPath s e = some s' → Recoverable toml configPath s₀.admin s'.admin ∧
        (¬e.Shows s₀.server.config.web.adminToken → s' = s) := by
    intro s e s' hRecoverable hEvent hStep
    have hWeb : s.server.config.web = s₀.server.config.web := hRecoverable.web
    refine ⟨recoverable_step hPaths hRecoverable hEvent hStep, fun hHidden => ?_⟩
    rw [← hWeb] at hToken hHidden
    exact same_of_not_shows hToken hHidden hStep
  exact Machine.run_filter hStep (recoverable_boot (admin_of_start hInit) rfl rfl) hExclusive hRun

open Classical in
/-- The session without the outsiders' requests ends in the same state. -/
theorem outsiders_leave_no_trace_session :
    ∃ s : State Server.sampleEnv,
      Machine.run (step Admin.sampleToml Admin.samplePath) (startedWith "b".toList) session = some s ∧
      Machine.run (step Admin.sampleToml Admin.samplePath) (startedWith "b".toList)
        [.request 1 (postList withToken), .inner (.admin (.load 1)),
          .inner (.restart Admin.sampleToken true)] = some s := by
  have hEval : (Machine.run (step Admin.sampleToml Admin.samplePath)
      (startedWith "b".toList : State Server.sampleEnv) session).isSome = true := by
    decide +kernel
  obtain ⟨s, hRun⟩ := Option.isSome_iff_exists.mp hEval
  have hInner : ∀ e, Event.Shows "secret".toList (.inner e) := fun _ => trivial
  have hOutsider : ¬Event.Shows "secret".toList (.request 0 (postList [])) := by
    rintro (⟨value, hHeader, -⟩ | ⟨value, k, rest, hHeader, -⟩) <;>
      simp [Gate.Request.header, postList] at hHeader
  have hVisible : "secret".toList.all (fun c => 32 ≤ c.toNat && c.toNat < 127) = true := by decide
  have hOwner : Event.Shows "secret".toList (.request 1 (postList withToken)) :=
    Or.inl ⟨_, rfl, Gate.toStr_asciiBytes fun c hMem => by
      simpa using List.all_eq_true.mp hVisible c hMem⟩
  have hRest : session.filter (fun e => e.Shows "secret".toList) =
      [.request 1 (postList withToken), .inner (.admin (.load 1)),
        .inner (.restart Admin.sampleToken true)] := by
    simp only [session, List.filter_cons, List.filter_nil, hInner, hOutsider, hOwner, decide_true,
      decide_false, Bool.false_eq_true, if_true, if_false]
  have hLeft := outsiders_leave_no_trace (init_startedWith "b".toList) Admin.sample_separate
    exclusive_session hRun
  exact ⟨s, hRun, hRest ▸ hLeft⟩

end

end Access

end System

end RustDns
