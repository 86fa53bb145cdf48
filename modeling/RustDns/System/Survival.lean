import RustDns.System.Recovery

/-! Once no update of the list is under way, a blocked name stays blocked
through every restart. -/
namespace RustDns

namespace Admin

/-- The request is to replace the list and is not over. -/
def Phase.HasList : Phase → Prop
  | .posted (.blocklist _) => True
  | .prepared job | .written job | .renamed job | .serversSet job => ∃ list, job.update = .list list
  | _ => False

variable {toml : Toml} {configPath : Path} {s₀ s s' : State}

/-- A request that goes on does not take up a list it has not had. -/
theorem not_hasList_update {requests : Nat → Phase} {i : Nat} {phase : Phase}
    (hQuiet : ∀ j, ¬(requests j).HasList) (hPhase : phase.HasList → (requests i).HasList) (j : Nat) :
    ¬(Function.update requests i phase j).HasList := by
  intro hList
  by_cases hSame : j = i
  · subst hSame
    rw [Function.update_self] at hList
    exact hQuiet j (hPhase hList)
  · rw [Function.update_of_ne hSame] at hList
    exact hQuiet j hList

/-- No request comes by a list other than by a post. -/
theorem not_hasList_step {e : Event} (hPost : ∀ i text, e ≠ .post i (.blocklist text))
    (hQuiet : ∀ i, ¬(s.requests i).HasList) (hStep : step toml configPath s e = some s') :
    ∀ i, ¬(s'.requests i).HasList := by
  cases step_cases hStep with
  | @post i body hPhase =>
      refine not_hasList_update hQuiet fun hList => ?_
      cases body with
      | blocklist text => exact absurd rfl (hPost i text)
      | config update => exact hList.elim
  | load hPhase hJob =>
      refine not_hasList_update hQuiet fun hList => ?_
      rw [hPhase]
      rcases prepare_cases hJob with ⟨text, list, rfl, -, -⟩ | ⟨_, cfg, _, -, -, -, rfl⟩
      · trivial
      · obtain ⟨list, hUpdate⟩ := hList
        simp at hUpdate
  | writeTemp hPhase | rename hPhase hText | setServers hPhase =>
      refine not_hasList_update hQuiet fun hList => ?_
      rw [hPhase]
      exact hList
  | _ => exact not_hasList_update hQuiet fun hList => hList.elim

/-- What the list is read from at a start, when no request is to replace it. -/
theorem Inv.list_file {token : Token} {disk : Disk} (hBoot : boot toml configPath token disk = some s₀)
    (hInv : Inv toml configPath s₀ s) (hQuiet : ∀ i, ¬(s.requests i).HasList)
    (hReread : Blocklist.fromText s.blocklist.toFileText = s.blocklist) :
    ∃ text, s.disk s₀.config.web.blocklistPath = some text ∧ Blocklist.fromText text = s.blocklist := by
  obtain ⟨-, -, -, -, hRead⟩ := boot_agrees hBoot
  obtain ⟨text, hText, hSame | rfl | ⟨i, job, list, hLanded, hUpdate, -⟩⟩ := hInv.list_read hRead
  · exact ⟨text, hText, hSame⟩
  · exact ⟨_, hText, hReread⟩
  · refine absurd ?_ (hQuiet i)
    cases hPhase : s.requests i <;> simp_all [Phase.landed, Phase.HasList]

/-- A request that is to replace the configuration writes to other files. -/
theorem Inv.list_untouched {e : Event} (hPaths : Separate configPath s₀.config.web.blocklistPath)
    (hInv : Inv toml configPath s₀ s) (hQuiet : ∀ i, ¬(s.requests i).HasList)
    (hStep : step toml configPath s e = some s') :
    s'.disk s₀.config.web.blocklistPath = s.disk s₀.config.web.blocklistPath := by
  cases step_cases hStep with
  | writeTemp hPhase =>
      have hJob : Job.Ok toml configPath s₀ _ := hInv.at hPhase
      exact Function.update_of_ne (hJob.temp_ne hPaths).2.symm ..
  | failTemp left hPhase =>
      have hJob : Job.Ok toml configPath s₀ _ := hInv.at hPhase
      exact Function.update_of_ne (hJob.temp_ne hPaths).2.symm ..
  | @rename i job text hPhase hText =>
      obtain ⟨hJob, -⟩ := hInv.at hPhase
      rcases hJob.path_cases with ⟨hPath, -⟩ | ⟨-, list, hUpdate⟩
      · have hOther : s₀.config.web.blocklistPath ≠ job.path := by
          rw [hPath]
          exact hPaths.targets.symm
        exact (Function.update_of_ne hOther ..).trans
          (Function.update_of_ne (hJob.temp_ne hPaths).2.symm ..)
      · exact absurd (by rw [hPhase]; exact ⟨list, hUpdate⟩) (hQuiet i)
  | _ => rfl

end Admin

namespace System

variable {env : Env} {toml : Admin.Toml} {configPath : Admin.Path} {s s' : State env}

/-- The event brings in another list. -/
def Event.postsList : Event → Bool
  | .admin (.post _ (.blocklist _)) => true
  | _ => false

/-- The list is in force, no request is to replace it, and the next start reads
it back. -/
structure Lasts (toml : Admin.Toml) (configPath : Admin.Path) (first : Admin.State) (list : Blocklist)
    (s : State env) : Prop where
  recoverable : Recoverable toml configPath first s.admin
  live : s.server.blocklist = list
  file : ∃ text, s.disk first.config.web.blocklistPath = some text ∧ Blocklist.fromText text = list
  quiet : ∀ i, ¬(s.requests i).HasList

variable {first : Admin.State} {list : Blocklist} {e : Event}

/-- A step without a posted list leaves the list in force and in its file. -/
theorem lasts_step (hPaths : Admin.Separate configPath first.config.web.blocklistPath)
    (hLasts : Lasts toml configPath first list s) (hEvent : Exclusive s e ∧ e.postsList = false)
    (hStep : step toml configPath s e = some s') : Lasts toml configPath first list s' := by
  have hRecoverable := recoverable_step hPaths hLasts.recoverable hEvent.1 hStep
  cases step_cases hStep with
  | dns hInternal hServer =>
      have hSame := admin_of_dns hInternal hServer
      have hList : _ = s.server.blocklist := congrArg Admin.State.blocklist hSame
      exact ⟨hRecoverable, hList.trans hLasts.live, hLasts.file, hLasts.quiet⟩
  | @admin e a hAdmin =>
      obtain ⟨_, _, s₀, -, hWeb, hInv⟩ := hLasts.recoverable.started
      have hPost : ∀ i text, e ≠ .post i (.blocklist text) := by
        rintro i text rfl
        simp [Event.postsList] at hEvent
      have hFile : a.disk first.config.web.blocklistPath = s.disk first.config.web.blocklistPath := by
        rw [← hWeb] at hPaths ⊢
        exact hInv.list_untouched hPaths hLasts.quiet hAdmin
      refine ⟨hRecoverable, ?_, ?_, Admin.not_hasList_step hPost hLasts.quiet hAdmin⟩
      · refine Eq.trans ?_ hLasts.live
        cases Admin.step_cases hAdmin with
        | @storeList i list' path text hPhase =>
            exact absurd (by rw [show s.requests i = _ from hPhase]; exact ⟨list', rfl⟩) (hLasts.quiet i)
        | _ => rfl
      · obtain ⟨text, hText, hRead⟩ := hLasts.file
        exact ⟨text, hFile.trans hText, hRead⟩
  | @restart token loaded _ hRestart =>
      obtain ⟨b, hFound, hSame, hWeb, -⟩ := hLasts.recoverable.boot_found token
      have hBoot := admin_of_start hRestart
      obtain rfl := Option.some.inj (hFound.symm.trans hBoot)
      obtain ⟨-, -, -, hIdle, text, hText, hRead⟩ := Admin.boot_agrees hBoot
      rw [hWeb] at hText
      obtain ⟨text', hText', hList⟩ := hLasts.file
      have hDisk : s'.disk = s.disk := hSame.disk
      obtain rfl : text' = text := by
        refine Option.some.inj (hText'.symm.trans ?_)
        rw [← hDisk]
        exact hText
      refine ⟨hRecoverable, hRead.trans hList, ⟨text', hText, hList⟩, fun i hHas => ?_⟩
      have hPhase : s'.requests i = .idle := hIdle i
      rw [hPhase] at hHas
      exact hHas

/-- The server sees no other list. -/
theorem Lasts.keepsList {ds : List Server.Event} (hLasts : Lasts toml configPath first list s)
    (hNext : s'.server.blocklist = list) (hSeen : Seen s s' e ds) : ∀ d ∈ ds, d.KeepsList list := by
  cases e with
  | dns e => exact hSeen.keepsList trivial list
  | admin e =>
      refine hSeen.keepsList ?_ list
      cases e with
      | store i =>
          intro list' path text hPhase
          exact hLasts.quiet i (by rw [hPhase]; exact ⟨list', rfl⟩)
      | _ => trivial
  | restart token loaded =>
      cases hSeen
      simpa [Server.Event.KeepsList] using hNext

section

variable {now : UnixTime} {token : Admin.Token} {disk : Admin.Disk} {s₀ live : State env}
  {past rest : List Event} {h : Nat} {hd : Server.Handler env} {r : Request env.wire} {a : Server.Answer}

/-- In a run without a posted list the list stays in force and in its file,
restarts included. -/
theorem lasts_run (hPaths : Admin.Separate configPath first.config.web.blocklistPath)
    (hLasts : Lasts toml configPath first list live)
    (hAlong : Machine.Along (step toml configPath) (fun s e => Exclusive s e ∧ e.postsList = false) live
      rest)
    (hRest : Machine.run (step toml configPath) live rest = some s) :
    Lasts toml configPath first list s ∧
      ∃ ds, Machine.run Server.step live.server ds = some s.server ∧ ∀ d ∈ ds, d.KeepsList list := by
  refine Machine.run_refines (fun s e s' hLasts hEvent hStep => ?_) hLasts hAlong hRest
  have hNext := lasts_step hPaths hLasts hEvent hStep
  obtain ⟨ds, hServer, hSeen⟩ := server_of_step hStep
  exact ⟨hNext, ds, hServer, hLasts.keepsList hNext.live hSeen⟩

/-- Who arrives after a state from which the list lasts is judged by it. -/
theorem judged_from (hPaths : Admin.Separate configPath first.config.web.blocklistPath)
    (hInit : init toml configPath now token disk = some s₀)
    (hPast : Machine.run (step toml configPath) s₀ past = some live)
    (hLasts : Lasts toml configPath first list live)
    (hAlong : Machine.Along (step toml configPath) (fun s e => Exclusive s e ∧ e.postsList = false) live
      rest)
    (hRest : Machine.run (step toml configPath) live rest = some s)
    (hNew : live.server.handlers.length ≤ h) (hHandler : s.server.handlers[h]? = some hd)
    (hPhase : hd.phase = .answered r a) : a.action = .blocked ↔ list.isBlocked r.name = true := by
  obtain ⟨cfg, list', ds, hServer⟩ := server_run hInit hPast
  obtain ⟨-, ds', hServer', hKeeps⟩ := lasts_run hPaths hLasts hAlong hRest
  obtain rfl := hLasts.live
  exact Server.list_in_force hServer hServer' hKeeps hNew hHandler hPhase

/-- A restart forgets every handler. -/
theorem handlers_of_restart {fresh : Admin.Token} {loaded : Bool}
    (hRestart : restart toml configPath s fresh loaded = some s') : s'.server.handlers = [] := by
  obtain ⟨b, -, -, -, rfl⟩ := start_eq_some_iff.mp hRestart
  rfl

/-- As long as no request brings in another list, every query that arrives is
judged by the list in force, through any number of restarts at any moment, also
in the middle of updates of the settings, if that list reads back from its own
text. -/
theorem list_survives_restarts (hInit : init toml configPath now token disk = some s₀)
    (hPaths : Admin.Separate configPath s₀.server.config.web.blocklistPath)
    (hPast : Machine.run (step toml configPath) s₀ past = some live)
    (hRest : Machine.run (step toml configPath) live rest = some s)
    (hExclusive : Machine.Along (step toml configPath) Exclusive s₀ (past ++ rest))
    (hQuiet : ∀ i, ¬(live.requests i).HasList) (hLast : ∀ e ∈ rest, e.postsList = false)
    (hReread : Blocklist.fromText live.server.blocklist.toFileText = live.server.blocklist)
    (hNew : live.server.handlers.length ≤ h ∨ ∃ e ∈ rest, e.restarts = true)
    (hHandler : s.server.handlers[h]? = some hd) (hPhase : hd.phase = .answered r a) :
    a.action = .blocked ↔ live.server.blocklist.isBlocked r.name = true := by
  have hRecoverable := recoverable_run hInit hPaths (Machine.along_append hExclusive) hPast
  have hLasts : Lasts toml configPath s₀.admin live.server.blocklist live := by
    obtain ⟨_, _, start, hBoot, hWeb, hInv⟩ := hRecoverable.started
    obtain ⟨text, hText, hRead⟩ := hInv.list_file hBoot hQuiet hReread
    rw [hWeb] at hText
    exact ⟨hRecoverable, rfl, ⟨text, hText, hRead⟩, hQuiet⟩
  have hAlong : Machine.Along (step toml configPath)
      (fun s e => Exclusive s e ∧ e.postsList = false) live rest :=
    (Machine.along_rest hPast hExclusive).and (Machine.along_of_mem (fun e hMem _ => hLast e hMem) live)
  rcases hNew with hNew | ⟨e, hMem, hRestarts⟩
  · exact judged_from hPaths hInit hPast hLasts hAlong hRest hNew hHandler hPhase
  · -- from the restart on, everyone is new
    obtain ⟨before, after, rfl⟩ := List.append_of_mem hMem
    obtain ⟨last, hBefore, hAfter⟩ := Machine.run_append.mp hRest
    obtain ⟨next, hStep, hAfter⟩ := Machine.run_cons hAfter
    have hNextAlong := Machine.along_rest hBefore hAlong
    have hEmpty : next.server.handlers.length = 0 := by
      cases step_cases hStep with
      | restart hRestart => rw [handlers_of_restart hRestart, List.length_nil]
      | dns _ _ | admin _ => simp [Event.restarts] at hRestarts
    obtain ⟨hLastLasts, -⟩ := lasts_run hPaths hLasts (Machine.along_append hAlong) hBefore
    have hNextLasts := lasts_step hPaths hLastLasts hNextAlong.1 hStep
    have hThere : Machine.run (step toml configPath) s₀ (past ++ before ++ [e]) = some next :=
      Machine.run_concat.mpr ⟨last, Machine.run_append.mpr ⟨live, hPast, hBefore⟩, hStep⟩
    exact judged_from hPaths hInit hThere hNextLasts (hNextAlong.2 next hStep) hAfter
      (by rw [hEmpty]; exact Nat.zero_le h) hHandler hPhase

/-- The process ends in the middle of an update of the settings, and the next
one is asked for a name on the list. -/
def askAfterCrash : List Event := replaced ++ .restart Admin.sampleToken true :: ask

/-- The process crashes and starts again, and a name of its list is still
blocked. -/
theorem list_survives_restarts_askAfterCrash :
    ∃ (s : State Server.sampleEnv) (hd : Server.Handler Server.sampleEnv)
      (r : Request Server.sampleEnv.wire) (a : Server.Answer),
      Machine.run (step Admin.sampleToml Admin.samplePath) (startedWith "a".toList) askAfterCrash =
        some s ∧
      s.server.handlers[0]? = some hd ∧ hd.phase = .answered r a ∧ a.action = .blocked ∧
      (Blocklist.fromText "a".toList).isBlocked r.name = true := by
  have hEval : ((Machine.run (step Admin.sampleToml Admin.samplePath) (startedWith "a".toList)
      askAfterCrash).map fun s => s.server.handlers[0]?.bind fun hd => hd.phase.outcome) =
        some (some .blocked) := by
    decide +kernel
  obtain ⟨s, hRun, hOutcome⟩ := Option.map_eq_some_iff.mp hEval
  obtain ⟨hd, hHandler, hAction⟩ := Option.bind_eq_some_iff.mp hOutcome
  obtain ⟨r, a, hPhase, hBlocked⟩ := Server.answered_of_outcome hAction
  have hAlone : ∀ e, .admin e ∈ [] ++ askAfterCrash → e.request = 0 := by
    intro e hMem
    simp only [askAfterCrash, replaced, saveList, ask, List.nil_append, List.mem_append, List.mem_cons,
      List.not_mem_nil, or_false, Event.admin.injEq, reduceCtorEq] at hMem
    rcases hMem with rfl | rfl | rfl | rfl <;> rfl
  have hPast : Machine.run (step Admin.sampleToml Admin.samplePath) (startedWith "a".toList) [] =
      some (startedWith "a".toList) := rfl
  have hLast : ∀ e ∈ askAfterCrash, e.postsList = false := by
    simp [askAfterCrash, replaced, saveList, ask, Event.postsList, Admin.sampleBody]
  have hReread : Blocklist.fromText (Blocklist.fromText "a".toList).toFileText =
      Blocklist.fromText "a".toList := by
    decide +kernel
  have hIff := list_survives_restarts (init_startedWith "a".toList) Admin.sample_separate hPast hRun
    (along_alone (fun _ _ => rfl) hAlone) (fun _ => id) hLast hReread (Or.inl (Nat.zero_le 0)) hHandler
    hPhase
  exact ⟨s, hd, r, a, hRun, hHandler, hPhase, hBlocked, hIff.mp hBlocked⟩

end

end System

end RustDns
