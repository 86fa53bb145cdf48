import RustDns.Library.History
import RustDns.Server.Accounting
import RustDns.Server.Requests

/-! Edits take effect between queries, never inside one. A query is judged by
one configuration and one blocklist, each of which was live between its arrival
and its answer, whatever else is going on. -/
namespace RustDns

namespace Server

variable {env : Env}

/-- Event `k` of the run, in the life of the process that is still running. -/
def Occurs (es : List Event) (k : Nat) (e : Event) : Prop :=
  es[k]? = some e ∧ ∀ e' ∈ es.drop k, e'.restarts = false

/-- The message of handler `h` arrived at event `k`. -/
def ArrivedAt (es : List Event) (data : Bytes) (k : Nat) : Prop := Occurs es k (.arrive data)

/-- The configuration was read at event `k` and had these settings. -/
def ReadAt (start : State env) (es : List Event) (h : Nat) (dns : DnsConfig) (k : Nat) : Prop :=
  Occurs es k (.parse h) ∧ ∃ s, Machine.Finds step start es k s ∧ s.config.dns = dns

/-- At event `k` handler `h` had this request and these settings, and the request
was checked against this list. -/
def CheckedAt (start : State env) (es : List Event) (h : Nat) (r : Request env.wire)
    (dns : DnsConfig) (list : Blocklist) (k : Nat) : Prop :=
  Occurs es k (.check h) ∧ ∃ s hd, Machine.Finds step start es k s ∧
    s.handlers[h]? = some hd ∧ hd.phase = .received r dns ∧ s.blocklist = list

/-- A request that has arrived, has been given its settings and has been checked
against one list, in this order. -/
def Judged (start : State env) (es : List Event) (h : Nat) (data : Bytes) (r : Request env.wire)
    (dns : DnsConfig) (list : Blocklist) : Prop :=
  ∃ arrived read checked, arrived < read ∧ read < checked ∧ ArrivedAt es data arrived ∧
    ReadAt start es h dns read ∧ CheckedAt start es h r dns list checked

/-- How far the judgement of a handler has come. -/
def Handler.Follows (start : State env) (es : List Event) (h : Nat) (hd : Handler env) : Prop :=
  match hd.phase with
  | .arrived => ∃ k, ArrivedAt es hd.data k
  | .ignored => True
  | .received _ dns =>
      ∃ arrived read, arrived < read ∧ ArrivedAt es hd.data arrived ∧ ReadAt start es h dns read
  | .unblocked r | .missed r | .waiting r _ =>
      ∃ dns list, Judged start es h hd.data r dns list ∧ list.isBlocked r.name = false
  | .answered r a =>
      ∃ dns list, Judged start es h hd.data r dns list ∧
        (a.action = .blocked ↔ list.isBlocked r.name = true) ∧
        (a.action = .blocked → a.response = buildBlocked env.wire r.message r.query dns)

/-- The run has led to the state, and every handler has been judged so far. -/
structure Follows (start : State env) (es : List Event) (s : State env) : Prop where
  run : Machine.run step start es = some s
  handlers : ∀ (h : Nat) (hd : Handler env), s.handlers[h]? = some hd → hd.Follows start es h

variable {start s s' : State env} {es : List Event} {e : Event}

/-- An event of this life stands within the events. -/
theorem Occurs.lt {k : Nat} {e₀ : Event} (hOccurs : Occurs es k e₀) : k < es.length :=
  (List.getElem?_eq_some_iff.mp hOccurs.1).1

/-- What has occurred in this life has occurred as long as it lasts. -/
theorem Occurs.concat {k : Nat} {e₀ : Event} (hOccurs : Occurs es k e₀) (hAlive : e.restarts = false) :
    Occurs (es ++ [e]) k e₀ := by
  refine ⟨Indexed.getElem?_append_of_some hOccurs.1 _, ?_⟩
  rw [List.drop_append_of_le_length (Nat.le_of_lt hOccurs.lt)]
  intro e' hMem
  rcases List.mem_append.mp hMem with hOld | hNew
  · exact hOccurs.2 e' hOld
  · rwa [List.mem_singleton.mp hNew]

/-- The event just taken has occurred. -/
theorem occurs_last (es : List Event) (hAlive : e.restarts = false) :
    Occurs (es ++ [e]) es.length e := by
  refine ⟨by simp, ?_⟩
  simpa using hAlive

/-- The settings that a handler has read stay read. -/
theorem ReadAt.concat {h k : Nat} {dns : DnsConfig} (hRead : ReadAt start es h dns k)
    (hAlive : e.restarts = false) : ReadAt start (es ++ [e]) h dns k := by
  obtain ⟨hOccurs, s, hFinds, hDns⟩ := hRead
  exact ⟨hOccurs.concat hAlive, s, hFinds.append (Nat.le_of_lt hOccurs.lt) [e], hDns⟩

/-- A check that has been made stays made. -/
theorem CheckedAt.concat {h k : Nat} {r : Request env.wire} {dns : DnsConfig} {list : Blocklist}
    (hChecked : CheckedAt start es h r dns list k) (hAlive : e.restarts = false) :
    CheckedAt start (es ++ [e]) h r dns list k := by
  obtain ⟨hOccurs, s, hd, hFinds, hRest⟩ := hChecked
  exact ⟨hOccurs.concat hAlive, s, hd, hFinds.append (Nat.le_of_lt hOccurs.lt) [e], hRest⟩

/-- A judged request stays judged. -/
theorem Judged.concat {h : Nat} {data : Bytes} {r : Request env.wire} {dns : DnsConfig}
    {list : Blocklist} (hJudged : Judged start es h data r dns list) (hAlive : e.restarts = false) :
    Judged start (es ++ [e]) h data r dns list := by
  obtain ⟨arrived, read, checked, hRead, hChecked, hArrivedAt, hReadAt, hCheckedAt⟩ := hJudged
  exact ⟨arrived, read, checked, hRead, hChecked, Occurs.concat hArrivedAt hAlive,
    hReadAt.concat hAlive, hCheckedAt.concat hAlive⟩

/-- What has been judged stays judged. -/
theorem Handler.Follows.concat {h : Nat} {hd : Handler env} (hFollows : hd.Follows start es h)
    (hAlive : e.restarts = false) : hd.Follows start (es ++ [e]) h := by
  unfold Handler.Follows at hFollows ⊢
  split at hFollows
  · obtain ⟨k, hArrived⟩ := hFollows
    exact ⟨k, Occurs.concat hArrived hAlive⟩
  · trivial
  · obtain ⟨arrived, read, hLt, hArrived, hRead⟩ := hFollows
    exact ⟨arrived, read, hLt, Occurs.concat hArrived hAlive, hRead.concat hAlive⟩
  · obtain ⟨dns, list, hJudged, hRest⟩ := hFollows
    exact ⟨dns, list, hJudged.concat hAlive, hRest⟩
  · obtain ⟨dns, list, hJudged, hRest⟩ := hFollows
    exact ⟨dns, list, hJudged.concat hAlive, hRest⟩
  · obtain ⟨dns, list, hJudged, hRest⟩ := hFollows
    exact ⟨dns, list, hJudged.concat hAlive, hRest⟩
  · obtain ⟨dns, list, hJudged, hRest⟩ := hFollows
    exact ⟨dns, list, hJudged.concat hAlive, hRest⟩

/-- The request passed the check of a judgement. -/
def Passed (start : State env) (es : List Event) (h : Nat) (data : Bytes) (r : Request env.wire) :
    Prop :=
  ∃ dns list, Judged start es h data r dns list ∧ list.isBlocked r.name = false

section

variable {h : Nat} {hd new : Handler env} {r : Request env.wire}

/-- A step that touches no handler leaves each explained. -/
theorem Follows.keep (hFollows : Follows start es s) (hAlive : e.restarts = false)
    (hStep : step s e = some s') (hSame : s'.handlers = s.handlers) :
    Follows start (es ++ [e]) s' where
  run := Machine.run_concat.mpr ⟨s, hFollows.run, hStep⟩
  handlers := fun k hd hGet => by
    rw [hSame] at hGet
    exact (hFollows.handlers k hd hGet).concat hAlive

/-- A step that changes one handler leaves each explained when it explains that
one. -/
theorem Follows.set (hFollows : Follows start es s) (hAlive : e.restarts = false)
    (hStep : step s e = some s') (hSet : s'.handlers = s.handlers.set h new)
    (hNew : new.Follows start (es ++ [e]) h) : Follows start (es ++ [e]) s' where
  run := Machine.run_concat.mpr ⟨s, hFollows.run, hStep⟩
  handlers := fun k hd hGet => by
    rw [hSet] at hGet
    rcases Indexed.getElem?_set_cases hGet with ⟨rfl, rfl⟩ | ⟨-, hOld⟩
    · exact hNew
    · exact (hFollows.handlers k hd hOld).concat hAlive

/-- What is known of a handler in a given phase. -/
theorem Follows.of_phase {phase : Phase env} (hFollows : Follows start es s)
    (hHandler : s.handlers[h]? = some hd) (hPhase : hd.phase = phase) :
    Handler.Follows start es h { hd with phase := phase } := by
  have hOld := hFollows.handlers h hd hHandler
  subst hPhase
  exact hOld

/-- A request that has passed and is answered is not answered as blocked. -/
theorem follows_answered {a : Answer} {released : Bool} (hPassed : Passed start es h hd.data r)
    (hAction : a.action ≠ .blocked) :
    Handler.Follows start es h ⟨hd.data, .answered r a, released⟩ := by
  obtain ⟨dns, list, hJudged, hPass⟩ := hPassed
  refine ⟨dns, list, hJudged, ?_, fun hBlocked => absurd hBlocked hAction⟩
  exact ⟨fun hBlocked => absurd hBlocked hAction, fun hBlocked => by simp [hPass] at hBlocked⟩

/-- A request that has been let through stays let through. -/
theorem Passed.concat {data : Bytes} (hPassed : Passed start es h data r)
    (hAlive : e.restarts = false) : Passed start (es ++ [e]) h data r := by
  obtain ⟨dns, list, hJudged, hPass⟩ := hPassed
  exact ⟨dns, list, hJudged.concat hAlive, hPass⟩

/-- A new handler holds the bytes that arrived for it. -/
theorem follows_arrive (data : Bytes) (hFollows : Follows start es s) :
    Follows start (es ++ [.arrive data]) (arrive s data) := by
  have hStep : step s (.arrive data) = some (arrive s data) := rfl
  by_cases hFull : s.inflight = 0
  · have hSame : (arrive s data).handlers = s.handlers := by rw [arrive, if_pos hFull]
    exact hFollows.keep rfl hStep hSame
  · refine ⟨Machine.run_concat.mpr ⟨s, hFollows.run, hStep⟩, fun k hd hGet => ?_⟩
    rw [arrive, if_neg hFull] at hGet
    rcases Nat.lt_or_ge k s.handlers.length with hOld | hNew
    · rw [List.getElem?_append_left hOld] at hGet
      exact (hFollows.handlers k hd hGet).concat rfl
    · rw [List.getElem?_append_right hNew] at hGet
      obtain ⟨-, rfl⟩ : k - s.handlers.length = 0 ∧ (⟨data, .arrived, false⟩ : Handler env) = hd := by
        simpa [List.getElem?_singleton] using hGet
      exact ⟨es.length, occurs_last es rfl⟩

/-- A parsed request is read from the bytes of its message, with the settings
live at that event. -/
theorem follows_parse (hFollows : Follows start es s) (hHandler : s.handlers[h]? = some hd)
    (hPhase : hd.phase = .arrived) (hStep : step s (.parse h) = some (parse s h hd)) :
    Follows start (es ++ [.parse h]) (parse s h hd) := by
  obtain ⟨k, hArrived⟩ : ∃ k, ArrivedAt es hd.data k := hFollows.of_phase hHandler hPhase
  unfold parse at hStep ⊢
  split
  · rename_i hRead
    rw [hRead] at hStep
    exact hFollows.set rfl hStep rfl trivial
  · rename_i r hRead
    rw [hRead] at hStep
    refine hFollows.set rfl hStep rfl ?_
    exact ⟨k, es.length, Occurs.lt hArrived, Occurs.concat hArrived rfl, occurs_last es rfl,
      s, Machine.finds_length hFollows.run _, rfl⟩

/-- A checked request is judged by the list live at that event. -/
theorem follows_check {dns : DnsConfig} (hFollows : Follows start es s)
    (hHandler : s.handlers[h]? = some hd) (hPhase : hd.phase = .received r dns)
    (hStep : step s (.check h) = some (check s h hd r dns)) :
    Follows start (es ++ [.check h]) (check s h hd r dns) := by
  obtain ⟨arrived, read, hLt, hArrived, hRead⟩ : ∃ arrived read, arrived < read ∧
      ArrivedAt es hd.data arrived ∧ ReadAt start es h dns read :=
    hFollows.of_phase hHandler hPhase
  have hJudged : Judged start (es ++ [.check h]) h hd.data r dns s.blocklist :=
    ⟨arrived, read, es.length, hLt, hRead.1.lt, Occurs.concat hArrived rfl, hRead.concat rfl,
      occurs_last es rfl, s, hd, Machine.finds_length hFollows.run _, hHandler, hPhase, rfl⟩
  by_cases hBlocked : s.blocklist.isBlocked r.name = true
  · have hSet : (check s h hd r dns).handlers = s.handlers.set h
        { hd with
          phase := .answered r
            ⟨.blocked, buildBlocked env.wire r.message r.query dns, s.cache.clock, .sinkhole⟩ } := by
      rw [check, if_pos hBlocked]
      rfl
    exact hFollows.set rfl hStep hSet ⟨dns, s.blocklist, hJudged, iff_of_true rfl hBlocked, fun _ => rfl⟩
  · have hSet : (check s h hd r dns).handlers = s.handlers.set h
        { hd with phase := .unblocked r } := by
      rw [check, if_neg hBlocked]
      rfl
    exact hFollows.set rfl hStep hSet ⟨dns, s.blocklist, hJudged, by simpa using hBlocked⟩

/-- A request that is looked up has been let through. -/
theorem follows_lookup (hFollows : Follows start es s) (hHandler : s.handlers[h]? = some hd)
    (hPhase : hd.phase = .unblocked r) (hStep : step s (.lookup h) = some (lookup s h hd r)) :
    Follows start (es ++ [.lookup h]) (lookup s h hd r) := by
  have hPassed : Passed start es h hd.data r := hFollows.of_phase hHandler hPhase
  unfold lookup at hStep ⊢
  split
  · rename_i entry hGet
    rw [hGet] at hStep
    exact hFollows.set rfl hStep rfl (follows_answered (hPassed.concat rfl) (by simp [serve]))
  · rename_i hGet
    rw [hGet] at hStep
    exact hFollows.set rfl hStep rfl (hPassed.concat rfl)

/-- A request that joins a flight has been let through. -/
theorem follows_join (hFollows : Follows start es s) (hHandler : s.handlers[h]? = some hd)
    (hPhase : hd.phase = .missed r) (hStep : step s (.join h) = some (join s h hd r)) :
    Follows start (es ++ [.join h]) (join s h hd r) := by
  have hPassed : Passed start es h hd.data r := hFollows.of_phase hHandler hPhase
  unfold join at hStep ⊢
  split
  · rename_i entry hGet
    rw [hGet] at hStep
    exact hFollows.set rfl hStep rfl (follows_answered (hPassed.concat rfl) (by simp [serve]))
  · rename_i hGet
    rw [hGet] at hStep
    split
    · rename_i i hOpen
      rw [hOpen] at hStep
      exact hFollows.set rfl hStep rfl (hPassed.concat rfl)
    · rename_i hOpen
      rw [hOpen] at hStep
      exact hFollows.set rfl hStep rfl (hPassed.concat rfl)

/-- A request that is answered from its flight has been let through. -/
theorem follows_deliver {i : Nat} (hFollows : Follows start es s)
    (hHandler : s.handlers[h]? = some hd) (hPhase : hd.phase = .waiting r i)
    (hDeliver : deliver s h hd r i = some s') (hStep : step s (.deliver h) = some s') :
    Follows start (es ++ [.deliver h]) s' := by
  have hPassed : Passed start es h hd.data r := hFollows.of_phase hHandler hPhase
  rcases deliver_cases hDeliver with ⟨_, _, _, -, -, rfl⟩ | rfl
  · exact hFollows.set rfl hStep rfl (follows_answered (hPassed.concat rfl) (by simp))
  · exact hFollows.set rfl hStep rfl (follows_answered (hPassed.concat rfl) (by simp))

end

/-- A step leaves every handler explained by the events of its life. -/
theorem follows_step (hFollows : Follows start es s) (hStep : step s e = some s') :
    Follows start (es ++ [e]) s' := by
  cases step_cases hStep with
  | arrive data => exact follows_arrive data hFollows
  | parse hHandler hPhase => exact follows_parse hFollows hHandler hPhase hStep
  | check hHandler hPhase => exact follows_check hFollows hHandler hPhase hStep
  | lookup hHandler hPhase => exact follows_lookup hFollows hHandler hPhase hStep
  | join hHandler hPhase => exact follows_join hFollows hHandler hPhase hStep
  | deliver hHandler hPhase hDeliver => exact follows_deliver hFollows hHandler hPhase hDeliver hStep
  | @finish h hd _ hHandler hFinish =>
      obtain rfl := finish_cases hFinish
      have hOld : hd.Follows start (_ ++ [Event.finish h]) h :=
        (hFollows.handlers h hd hHandler).concat rfl
      exact hFollows.set rfl hStep rfl hOld
  | upstream hForward => exact hFollows.keep rfl hStep (forward_frame hForward).1
  | cache hBackground => exact hFollows.keep rfl hStep (background_frame hBackground).1
  | setBlocklist list => exact hFollows.keep rfl hStep rfl
  | setConfig cfg => exact hFollows.keep rfl hStep rfl
  | restart cfg list loaded =>
      exact ⟨Machine.run_concat.mpr ⟨s, hFollows.run, hStep⟩, by simp [boot]⟩

/-- In every run each handler is explained by the events of its life. -/
theorem follows_run (hStart : start.handlers = []) (hRun : Machine.run step start es = some s) :
    Follows start es s := by
  have hInit : Follows start [] start := ⟨rfl, by simp [hStart]⟩
  have hEnd : Follows start ([] ++ es) s :=
    Machine.run_invariant_past (fun _ _ _ _ hInv (_ : True) => follows_step hInv) hInit
      (Machine.along_of_mem (fun _ _ _ => trivial) _) hRun
  exact hEnd

/-- Handler `h` has come so far. -/
def Reached (h n : Nat) (s : State env) : Prop := ∃ hd, s.handlers[h]? = some hd ∧ n ≤ hd.phase.rank

/-- A handler never falls back behind a stage it has reached. -/
theorem reached_step {h n : Nat} (hReached : Reached h n s) (hAlive : e.restarts = false)
    (hStep : step s e = some s') : Reached h n s' := by
  obtain ⟨hd, hHandler, hRank⟩ := hReached
  obtain ⟨hd', hHandler', hSame | hLater⟩ := rank_of_step hAlive hHandler hStep
  · exact ⟨hd', hHandler', hSame ▸ hRank⟩
  · exact ⟨hd', hHandler', Nat.le_of_lt (Nat.lt_of_le_of_lt hRank hLater)⟩

/-- No handler goes back. -/
theorem reached_run {h n : Nat} (hReached : Reached h n s) (hAlive : ∀ e ∈ es, e.restarts = false)
    (hRun : Machine.run step s es = some s') : Reached h n s' :=
  Machine.run_invariant_along (fun _ _ _ hInv => reached_step hInv) hReached
    (Machine.along_of_mem (fun e hMem _ => hAlive e hMem) s) hRun

/-- A handler is parsed at most once: the event takes it past the stage it
needs. -/
theorem reached_of_parse {h : Nat} (hStep : step s (.parse h) = some s') :
    ¬ Reached h 1 s ∧ Reached h 1 s' := by
  cases step_cases hStep with
  | @parse _ hd hHandler hPhase =>
      obtain ⟨hLt, -⟩ := List.getElem?_eq_some_iff.mp hHandler
      constructor
      · rintro ⟨hd', hHandler', hRank⟩
        obtain rfl := Option.some.inj (hHandler.symm.trans hHandler')
        simp [hPhase, Phase.rank] at hRank
      · unfold parse
        split <;> exact ⟨_, by simp [setHandler, hLt]; rfl, by simp [Phase.rank]⟩

/-- A handler is checked at most once: the event takes it past the stage it
needs. -/
theorem reached_of_check {h : Nat} (hStep : step s (.check h) = some s') :
    ¬ Reached h 2 s ∧ Reached h 2 s' := by
  cases step_cases hStep with
  | @check _ hd r dns hHandler hPhase =>
      obtain ⟨hLt, -⟩ := List.getElem?_eq_some_iff.mp hHandler
      constructor
      · rintro ⟨hd', hHandler', hRank⟩
        obtain rfl := Option.some.inj (hHandler.symm.trans hHandler')
        simp [hPhase, Phase.rank] at hRank
      · unfold check
        split <;> exact ⟨_, by simp [setHandler, hLt]; rfl, by simp [Phase.rank]⟩

/-- What happens between an event of the present life and another event is no
restart. -/
theorem Occurs.alive_between {i j : Nat} {e₀ : Event} (hOccurs : Occurs es i e₀) :
    ∀ e ∈ (es.take j).drop (i + 1), e.restarts = false := by
  intro e hMem
  rw [List.drop_take] at hMem
  exact hOccurs.2 e (List.drop_subset_drop_left es (Nat.le_succ i) (List.mem_of_mem_take hMem))

/-- An event that takes a handler to where it was not happens once in a life. -/
theorem not_occurs_again {h n i j : Nat} (hRun : Machine.run step start es = some s)
    (hReaches : ∀ {s s' : State env}, step s e = some s' → ¬ Reached h n s ∧ Reached h n s')
    (hFirst : Occurs es i e) (hSecond : Occurs es j e) : ¬ i < j := by
  intro hLt
  obtain ⟨before, hBefore⟩ := Machine.exists_finds hRun i
  obtain ⟨later, hLater⟩ := Machine.exists_finds hRun j
  obtain ⟨after, hStep⟩ := hBefore.exists_step hRun hFirst.1
  obtain ⟨_, hAgain⟩ := hLater.exists_step hRun hSecond.1
  have hBetween := (hBefore.succ hFirst.1 hStep).run_between hLater hLt
  exact (hReaches hAgain).1 (reached_run (hReaches hStep).2 hFirst.alive_between hBetween)

/-- An event that takes its handler past a stage occurs once in a life. -/
theorem occurs_once {h n i j : Nat} (hRun : Machine.run step start es = some s)
    (hReaches : ∀ {s s' : State env}, step s e = some s' → ¬ Reached h n s ∧ Reached h n s')
    (hFirst : Occurs es i e) (hSecond : Occurs es j e) : i = j :=
  Nat.le_antisymm (Nat.le_of_not_lt (not_occurs_again hRun hReaches hSecond hFirst))
    (Nat.le_of_not_lt (not_occurs_again hRun hReaches hFirst hSecond))

section

variable {now : UnixTime} {cfg : Config} {list : Blocklist} {h : Nat} {hd : Handler env}
  {r : Request env.wire} {a : Answer}

/-- Every answer was decided by one blocklist and one configuration, each read
once and each live when it was read, after the message had arrived; the
answer is the sinkhole's exactly when that list blocks the name, and then it is
built from the settings of that configuration. The handler reads neither again
while the process lives. -/
theorem answers_judged_once (hRun : Machine.run step (init now cfg list : State env) es = some s)
    (hHandler : s.handlers[h]? = some hd) (hPhase : hd.phase = .answered r a) :
    ∃ arrived read checked before during, arrived < read ∧ read < checked ∧
      Occurs es arrived (.arrive hd.data) ∧ Occurs es read (.parse h) ∧ Occurs es checked (.check h) ∧
      Machine.Finds step (init now cfg list : State env) es read before ∧
      Machine.Finds step (init now cfg list : State env) es checked during ∧
      (a.action = .blocked ↔ during.blocklist.isBlocked r.name = true) ∧
      (a.action = .blocked →
        a.response = buildBlocked env.wire r.message r.query before.config.dns) ∧
      (∀ k, Occurs es k (.parse h) → k = read) ∧ ∀ k, Occurs es k (.check h) → k = checked := by
  have hFollows : Follows (init now cfg list) es s := follows_run rfl hRun
  obtain ⟨dns, list', ⟨arrived, read, checked, hLt, hLt', hArrived, hReadAt, hCheckedAt⟩, hAction,
    hResponse⟩ := hFollows.of_phase hHandler hPhase
  obtain ⟨hRead, before, hBefore, rfl⟩ := hReadAt
  obtain ⟨hChecked, during, -, hDuring, -, -, rfl⟩ := hCheckedAt
  exact ⟨arrived, read, checked, before, during, hLt, hLt', hArrived, hRead, hChecked, hBefore,
    hDuring, hAction, hResponse, fun k hAgain => occurs_once hRun reached_of_parse hAgain hRead,
    fun k hAgain => occurs_once hRun reached_of_check hAgain hChecked⟩

/-- The answer of a handler whose outcome is known. -/
theorem answered_of_outcome {action : Action} (hOutcome : hd.phase.outcome = some action) :
    ∃ r a, hd.phase = .answered r a ∧ a.action = action := by
  cases hPhase : hd.phase with
  | answered r a =>
      rw [hPhase] at hOutcome
      exact ⟨r, a, rfl, Option.some.inj hOutcome⟩
  | _ =>
      rw [hPhase] at hOutcome
      simp [Phase.outcome] at hOutcome

/-- A query arrives, its name is put on the list, and then it is checked. -/
def editInFlight : List Event :=
  [.arrive (Exchange.query 1), .setBlocklist ⟨{['a']}, ∅⟩, .parse 0, .check 0]

/-- The list is replaced while a request that it blocks is being answered; the
answer is that of the list live at the check. -/
theorem answers_judged_once_editInFlight :
    ∃ (s : State sampleEnv) (hd : Handler sampleEnv) (r : Request sampleEnv.wire) (a : Answer),
      Machine.run step firstState editInFlight = some s ∧ s.handlers[0]? = some hd ∧
        hd.phase = .answered r a ∧ a.action = .blocked ∧
        ∃ checked during, Machine.Finds step firstState editInFlight checked during ∧
          during.blocklist.isBlocked r.name = true := by
  have hEnd : ((Machine.run step firstState editInFlight).map fun s =>
      s.handlers[0]?.bind fun hd => hd.phase.outcome) = some (some .blocked) := by
    decide +kernel
  obtain ⟨s, hRun, hOutcome⟩ := Option.map_eq_some_iff.mp hEnd
  obtain ⟨hd, hHandler, hAction⟩ := Option.bind_eq_some_iff.mp hOutcome
  obtain ⟨r, a, hPhase, hBlocked⟩ := answered_of_outcome hAction
  obtain ⟨_, _, checked, _, during, -, -, -, -, -, -, hDuring, hIff, -⟩ :=
    answers_judged_once hRun hHandler hPhase
  exact ⟨s, hd, r, a, hRun, hHandler, hPhase, hBlocked, checked, during, hDuring,
    hIff.mp hBlocked⟩

/-! What stays live is what queries are answered by. -/

/-- The event changes the settings or the list. -/
def Event.edits : Event → Bool
  | .setBlocklist _ | .setConfig _ => true
  | _ => false

/-- A step that edits nothing leaves the settings and the list. -/
theorem settings_of_step (hAlive : e.restarts = false) (hQuiet : e.edits = false)
    (hStep : step s e = some s') : (s'.config, s'.blocklist) = (s.config, s.blocklist) := by
  cases step_cases hStep with
  | arrive data =>
      unfold arrive
      split <;> rfl
  | parse _ _ =>
      unfold parse
      split <;> rfl
  | check _ _ =>
      unfold check
      split <;> rfl
  | lookup _ _ =>
      unfold lookup
      split <;> rfl
  | join _ _ =>
      unfold join
      split
      · rfl
      · split <;> rfl
  | deliver _ _ hDeliver =>
      rcases deliver_cases hDeliver with ⟨_, _, _, -, -, rfl⟩ | rfl <;> rfl
  | finish _ hFinish =>
      obtain rfl := finish_cases hFinish
      rfl
  | upstream hForward =>
      obtain ⟨upstream, -, -, ⟨rfl, -⟩ | ⟨i, -, rfl⟩⟩ := forward_step hForward
      · rfl
      · unfold land
        split <;> rfl
  | cache hBackground =>
      obtain ⟨cache, -, rfl, -⟩ := background_cases hBackground
      rfl
  | setBlocklist list => simp [Event.edits] at hQuiet
  | setConfig cfg => simp [Event.edits] at hQuiet
  | restart cfg list loaded => simp [Event.restarts] at hAlive

/-- Handlers are only added. -/
theorem length_handlers_of_step (hAlive : e.restarts = false) (hStep : step s e = some s') :
    s.handlers.length ≤ s'.handlers.length := by
  rcases handlers_of_step hAlive hStep with hSame | ⟨data, hNew⟩ | ⟨k, old, new, -, hSet, -⟩
  · rw [hSame]
  · rw [hNew, List.length_append]
    exact Nat.le_add_right _ _
  · rw [hSet, List.length_set]

/-- Handlers are only added, over a whole run. -/
theorem length_handlers_of_run (hAlive : ∀ e ∈ es, e.restarts = false)
    (hRun : Machine.run step s es = some s') : s.handlers.length ≤ s'.handlers.length := by
  induction es generalizing s with
  | nil =>
      obtain rfl := Option.some.inj hRun
      exact Nat.le_refl _
  | cons e rest ih =>
      obtain ⟨middle, hStep, hRest⟩ := Machine.run_cons hRun
      have hHead := length_handlers_of_step (hAlive e List.mem_cons_self) hStep
      exact Nat.le_trans hHead (ih (fun e' hMem => hAlive e' (List.mem_cons_of_mem e hMem)) hRest)

/-- A handler that reads the configuration is there. -/
theorem handler_of_parse (hStep : step s (.parse h) = some s') : h < s.handlers.length := by
  cases step_cases hStep with
  | parse hHandler hPhase => exact (List.getElem?_eq_some_iff.mp hHandler).1

/-- The event leaves the list in force as it is. -/
def Event.KeepsList (list : Blocklist) : Event → Prop
  | .setBlocklist list' | .restart _ list' _ => list' = list
  | _ => True

/-- The event leaves the settings of the sinkhole as they are. -/
def Event.KeepsDns (dns : DnsConfig) : Event → Prop
  | .setConfig cfg | .restart cfg _ _ => cfg.dns = dns
  | _ => True

/-- Events that keep a list leave it in force. -/
theorem list_kept {list : Blocklist} (hList : s.blocklist = list) (hKeeps : e.KeepsList list)
    (hStep : step s e = some s') : s'.blocklist = list := by
  cases step_cases hStep with
  | setBlocklist list' => exact hKeeps
  | setConfig cfg => exact hList
  | restart cfg list' loaded => exact hKeeps
  | _ =>
      obtain ⟨-, hSame⟩ := Prod.mk.inj (settings_of_step rfl rfl hStep)
      exact hSame.trans hList

/-- Events that keep the DNS settings leave them in force. -/
theorem dns_kept {dns : DnsConfig} (hDns : s.config.dns = dns) (hKeeps : e.KeepsDns dns)
    (hStep : step s e = some s') : s'.config.dns = dns := by
  cases step_cases hStep with
  | setBlocklist list' => exact hDns
  | setConfig cfg => exact hKeeps
  | restart cfg list' loaded => exact hKeeps
  | _ =>
      obtain ⟨hSame, -⟩ := Prod.mk.inj (settings_of_step rfl rfl hStep)
      rw [hSame, hDns]

section

variable {live : State env} {past rest : List Event}

/-- Who arrives after a state of a run is judged by what is found from that
state on. -/
theorem judged_after (hPast : Machine.run step (init now cfg list : State env) past = some live)
    (hRest : Machine.run step live rest = some s)
    (hNew : live.handlers.length ≤ h)
    (hHandler : s.handlers[h]? = some hd) (hPhase : hd.phase = .answered r a) :
    ∃ i j before during, Machine.Finds step live rest i before ∧
      Machine.Finds step live rest j during ∧
      (a.action = .blocked ↔ during.blocklist.isBlocked r.name = true) ∧
      (a.action = .blocked →
        a.response = buildBlocked env.wire r.message r.query before.config.dns) := by
  have hRun : Machine.run step (init now cfg list : State env) (past ++ rest) = some s :=
    Machine.run_append.mpr ⟨live, hPast, hRest⟩
  have hFollows : Follows (init now cfg list) (past ++ rest) s := follows_run rfl hRun
  obtain ⟨dns, list', ⟨arrived, read, checked, hLt, hLt', hArrived, hReadAt, hCheckedAt⟩, hAction,
    hResponse⟩ := hFollows.of_phase hHandler hPhase
  obtain ⟨hRead, before, hBefore, rfl⟩ := hReadAt
  obtain ⟨hChecked, during, -, hDuring, -, -, rfl⟩ := hCheckedAt
  have hAfter : past.length ≤ read := by
    refine Nat.le_of_not_lt fun hEarly => ?_
    -- the handler was there when it read the configuration, so before the state
    obtain ⟨next, hParse⟩ := hBefore.exists_step hRun hRead.1
    have hThere := handler_of_parse hParse
    have hAlive : ∀ e ∈ past.drop read, e.restarts = false := by
      intro e hMem
      refine hRead.2 e ?_
      rw [List.drop_append_of_le_length (Nat.le_of_lt hEarly)]
      exact List.mem_append_left rest hMem
    have hLive : Machine.Finds step (init now cfg list) (past ++ rest) past.length live :=
      Machine.finds_length hPast rest
    have hBetween := hBefore.run_between hLive (Nat.le_of_lt hEarly)
    rw [List.take_left] at hBetween
    have hGrows := length_handlers_of_run hAlive hBetween
    omega
  exact ⟨read - past.length, checked - past.length, before, during, hBefore.of_append hPast hAfter,
    hDuring.of_append hPast (by omega), hAction, hResponse⟩

/-- A list that stays in force judges everyone who arrives from then on. -/
theorem list_in_force (hPast : Machine.run step (init now cfg list : State env) past = some live)
    (hRest : Machine.run step live rest = some s)
    (hKeeps : ∀ e ∈ rest, e.KeepsList live.blocklist)
    (hNew : live.handlers.length ≤ h)
    (hHandler : s.handlers[h]? = some hd) (hPhase : hd.phase = .answered r a) :
    a.action = .blocked ↔ live.blocklist.isBlocked r.name = true := by
  obtain ⟨_, _, _, during, -, hDuring, hAction, -⟩ := judged_after hPast hRest hNew hHandler hPhase
  have hStep : ∀ (s : State env) e s', s.blocklist = live.blocklist →
      e.KeepsList live.blocklist → step s e = some s' → s'.blocklist = live.blocklist :=
    fun _ _ _ => list_kept
  rw [hAction, hDuring.invariant hStep rfl hKeeps]

/-- Settings that stay in force make every sinkhole answer from then on. -/
theorem settings_in_force (hPast : Machine.run step (init now cfg list : State env) past = some live)
    (hRest : Machine.run step live rest = some s)
    (hKeeps : ∀ e ∈ rest, e.KeepsDns live.config.dns)
    (hNew : live.handlers.length ≤ h)
    (hHandler : s.handlers[h]? = some hd) (hPhase : hd.phase = .answered r a)
    (hBlocked : a.action = .blocked) :
    a.response = buildBlocked env.wire r.message r.query live.config.dns := by
  obtain ⟨_, _, before, _, hBefore, -, -, hResponse⟩ :=
    judged_after hPast hRest hNew hHandler hPhase
  have hStep : ∀ (s : State env) e s', s.config.dns = live.config.dns →
      e.KeepsDns live.config.dns → step s e = some s' → s'.config.dns = live.config.dns :=
    fun _ _ _ => dns_kept
  rw [hResponse hBlocked, hBefore.invariant hStep rfl hKeeps]

end

end

end Server

end RustDns
