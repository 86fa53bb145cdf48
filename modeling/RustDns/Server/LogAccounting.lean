import RustDns.Library.History
import RustDns.Server.Logging

/-! The query log against the counters: what the log shows of a kind of answer
is what the counter says, less what a full channel has refused. -/
namespace RustDns

namespace Logging

/-- The counter of an outcome. -/
def counter : Server.Action → Server.Counter
  | .blocked => .blocked
  | .cached => .cacheHits
  | .forwarded => .forwarded
  | .error => .upstreamErrors

/-- Actions are told apart by the words the log has for them. -/
theorem text_injective {action action' : Server.Action} (hText : action.text = action'.text) :
    action = action' := by
  cases action <;> cases action' <;> first | rfl | exact absurd hText (by decide)

/-- Two actions have one word exactly when they are the same. -/
theorem text_eq_iff {action action' : Server.Action} :
    action.text = action'.text ↔ action = action' :=
  ⟨text_injective, congrArg Server.Action.text⟩

variable {env : Env} {showType : UInt16 → Str} {arrow : Qlog.Arrow} {s s' : State env}
  {es past : List Event} {cache : Cache.State} {cfg : Config} {list : Blocklist}
  {origins : List (Request env.wire)}

/-- The lines about an outcome. -/
def State.shown (s : State env) (action : Server.Action) : Nat :=
  s.lines.countP fun line => line.record.action = action.text

/-- The calls with an outcome whose record is still to come. -/
def State.unlogged (s : State env) (action : Server.Action) : Nat :=
  (s.server.handlers.zip s.calls).countP fun p => p.1.phase.outcome = some action && !p.2.logged

/-- Every message has been dealt with and every permit returned. -/
def State.AtRest (s : State env) : Prop := ∀ hd ∈ s.server.handlers, hd.released = true

/-- The server does what it would do without a log. -/
theorem server_run
    (hRun : Machine.run (step showType arrow) (start cache cfg list origins) es = some s) :
    ∃ events, (∀ e ∈ events, e.restarts = false) ∧
      Machine.run Server.step (Server.boot cache cfg list origins) events = some s.server := by
  have hStep : ∀ (s : State env) (e : Event) (s' : State env),
      (∃ events, (∀ e ∈ events, e.restarts = false) ∧
        Machine.run Server.step (Server.boot cache cfg list origins) events = some s.server) →
      step showType arrow s e = some s' →
      ∃ events, (∀ e ∈ events, e.restarts = false) ∧
        Machine.run Server.step (Server.boot cache cfg list origins) events = some s'.server := by
    rintro s e s' ⟨events, hAlive, hServer⟩ hStep
    have hMore : ∀ (e : Server.Event) (server : Server.State env), e.restarts = false →
        Server.step s.server e = some server → ∃ events, (∀ e ∈ events, e.restarts = false) ∧
          Machine.run Server.step (Server.boot cache cfg list origins) events = some server := by
      intro e server hLives hNext
      refine ⟨events ++ [e], fun e' hMem => ?_, Machine.run_concat.mpr ⟨s.server, hServer, hNext⟩⟩
      rcases List.mem_append.mp hMem with hOld | hLast
      · exact hAlive e' hOld
      · rwa [List.mem_singleton.mp hLast]
    cases step_cases hStep with
    | arrive data client => exact hMore (.arrive data) _ rfl rfl
    | server hAllows hNext => exact hMore _ _ (allows_spec hAllows).2 hNext
    | log nowMs elapsedMs hHandler hCall hPhase hEnabled hFirst =>
        refine ⟨events, hAlive, ?_⟩
        rcases trySend_cases _ _ _ with ⟨-, -, hEq⟩ | ⟨-, hEq⟩ <;> rw [hEq] <;> exact hServer
    | createDir ok hTask hEnabled => cases ok <;> exact ⟨events, hAlive, hServer⟩
    | receive nowMs hTask hChannel hWrite => exact ⟨events, hAlive, hServer⟩
    | tick nowMs hTask hWrite => exact ⟨events, hAlive, hServer⟩
    | segment hTask hWrite => exact ⟨events, hAlive, hServer⟩
  exact Machine.run_invariant hStep ⟨[], by simp, rfl⟩ hRun

/-- The first line of a handler stands where it is found. -/
theorem getElem?_findIdx {h : Nat} (hSome : ∃ line ∈ s.lines, line.handler = h) :
    ∃ line, s.lines[s.lines.findIdx fun line => line.handler = h]? = some line ∧
      line.handler = h := by
  have hLt : (s.lines.findIdx fun line => line.handler = h) < s.lines.length :=
    List.findIdx_lt_length_of_exists (by simpa using hSome)
  refine ⟨_, List.getElem?_eq_getElem hLt, ?_⟩
  simpa using List.findIdx_getElem (w := hLt)

/-- The lines about an outcome are the calls with that outcome that have been
logged. -/
theorem shown_eq (hFaithful : Faithful showType arrow s) (action : Server.Action) :
    s.shown action = (s.server.handlers.zip s.calls).countP
      fun p => p.1.phase.outcome = some action && p.2.logged := by
  have hLine : ∀ (i : Nat) (line : Line), s.lines[i]? = some line →
      ∃ hd c, s.server.handlers[line.handler]? = some hd ∧ s.calls[line.handler]? = some c ∧
        c.logged = true ∧ ∃ action', hd.phase.outcome = some action' ∧
          line.record.action = action'.text := by
    intro i line hAt
    have hMem := List.mem_of_getElem? hAt
    obtain ⟨hd, c, r, a, nowMs, elapsedMs, hHandler, hCall, hPhase, hRecord⟩ :=
      hFaithful.lines line hMem
    refine ⟨hd, c, hHandler, hCall, (hFaithful.logged _ c hCall).mpr ⟨line, hMem, rfl⟩, a.action, ?_, ?_⟩
    · rw [hPhase]
      rfl
    · rw [hRecord]
      rfl
  apply Nat.le_antisymm
  · refine Indexed.countP_le_countP (fun i => (s.lines[i]?.map Line.handler).getD 0) ?_ ?_
    · intro i line hAt hShown
      obtain ⟨hd, c, hHandler, hCall, hLogged, action', hOutcome, hAction⟩ := hLine i line hAt
      have hSame : action' = action := text_injective (hAction.symm.trans (by simpa using hShown))
      refine ⟨(hd, c), ?_, by simp [hOutcome, hSame, hLogged]⟩
      rw [hAt]
      exact List.getElem?_zip_eq_some.mpr ⟨hHandler, hCall⟩
    · intro i j line line' hAt _ hAt' _ hEq
      simp only [hAt, hAt', Option.map_some, Option.getD_some] at hEq
      have hi : (s.lines.map Line.handler)[i]? = some line.handler := by simp [hAt]
      have hj : (s.lines.map Line.handler)[j]? = some line.handler := by simp [hAt', hEq]
      obtain ⟨hLt, -⟩ := List.getElem?_eq_some_iff.mp hi
      exact (List.getElem?_inj hLt hFaithful.nodup).mp (hi.trans hj.symm)
  · refine Indexed.countP_le_countP (fun h => s.lines.findIdx fun line => line.handler = h) ?_ ?_
    · intro h p hAt hShown
      obtain ⟨hHandler, hCall⟩ := List.getElem?_zip_eq_some.mp hAt
      simp only [Bool.and_eq_true, decide_eq_true_eq] at hShown
      obtain ⟨line, hFound, hSame⟩ :=
        getElem?_findIdx ((hFaithful.logged h p.2 hCall).mp hShown.2)
      obtain ⟨hd, c, hHandler', -, -, action', hOutcome, hAction⟩ := hLine _ line hFound
      rw [hSame] at hHandler'
      obtain rfl := Option.some.inj (hHandler.symm.trans hHandler')
      obtain rfl := Option.some.inj (hOutcome.symm.trans hShown.1)
      exact ⟨line, hFound, by simpa using hAction⟩
    · intro h h' p p' hAt hShown hAt' hShown' hEq
      obtain ⟨-, hCall⟩ := List.getElem?_zip_eq_some.mp hAt
      obtain ⟨-, hCall'⟩ := List.getElem?_zip_eq_some.mp hAt'
      simp only [Bool.and_eq_true, decide_eq_true_eq] at hShown hShown'
      obtain ⟨line, hFound, hSame⟩ :=
        getElem?_findIdx ((hFaithful.logged h p.2 hCall).mp hShown.2)
      obtain ⟨line', hFound', hSame'⟩ :=
        getElem?_findIdx ((hFaithful.logged h' p'.2 hCall').mp hShown'.2)
      rw [hEq] at hFound
      obtain rfl := Option.some.inj (hFound.symm.trans hFound')
      exact hSame.symm.trans hSame'

/-- An outcome counted is logged or still to be logged. -/
theorem counted_eq (hFaithful : Faithful showType arrow s) {permits : Nat}
    {events : List Server.Event} (hAccounts : Server.Accounts permits events s.server)
    (action : Server.Action) :
    s.server.stats.get (counter action) = s.shown action + s.unlogged action := by
  have hFirst : (s.server.handlers.zip s.calls).map Prod.fst = s.server.handlers :=
    List.map_fst_zip (Nat.le_of_eq hFaithful.length.symm)
  have hTally : s.server.tally (fun phase => phase.counts (counter action)) =
      (s.server.handlers.zip s.calls).countP fun p => p.1.phase.outcome = some action := by
    rw [Server.State.tally, ← hFirst, List.countP_map, hFirst]
    refine List.countP_congr fun p _ => ?_
    cases action <;> rfl
  rw [hAccounts.counters, hTally, shown_eq hFaithful, State.unlogged]
  induction s.server.handlers.zip s.calls with
  | nil => rfl
  | cons p rest ih =>
      simp only [List.countP_cons, ih]
      by_cases hOutcome : p.1.phase.outcome = some action <;> cases p.2.logged <;>
        simp [hOutcome] <;> omega

/-- The settings of the log are those of the start. -/
theorem qlog_of_step {e : Event} (hStep : step showType arrow s e = some s') : s'.qlog = s.qlog := by
  cases step_cases hStep with
  | log nowMs elapsedMs hHandler hCall hPhase hEnabled hFirst =>
      rcases trySend_cases _ _ _ with ⟨-, -, hEq⟩ | ⟨-, hEq⟩ <;> rw [hEq]
  | createDir ok hTask hEnabled => cases ok <;> rfl
  | _ => rfl

/-- No step changes the query log's settings, which are read at the start. -/
theorem qlog_run
    (hRun : Machine.run (step showType arrow) (start cache cfg list origins) es = some s) :
    s.qlog = cfg.qlog :=
  Machine.run_unchanged State.qlog (fun _ _ _ _ => qlog_of_step) hRun

/-- At rest nothing is left to log. -/
theorem unlogged_of_atRest (hFaithful : Faithful showType arrow s) (hEnabled : s.qlog.enabled = true)
    (hRest : s.AtRest) (action : Server.Action) : s.unlogged action = 0 := by
  refine List.countP_eq_zero.mpr fun p hMem => ?_
  obtain ⟨h, hAt⟩ := List.mem_iff_getElem?.mp hMem
  obtain ⟨hHandler, hCall⟩ := List.getElem?_zip_eq_some.mp hAt
  have hReleased := hRest p.1 (List.mem_of_getElem? hHandler)
  simp only [Bool.and_eq_true, decide_eq_true_eq, not_and, Bool.not_eq_true', Bool.not_eq_false]
  intro hOutcome
  refine hFaithful.returned hEnabled h p.1 p.2 hHandler hCall hReleased ?_
  cases hPhase : p.1.phase with
  | ignored =>
      rw [hPhase] at hOutcome
      simp [Server.Phase.outcome] at hOutcome
  | _ => rfl

/-- Every line is about an outcome. -/
theorem length_lines (hFaithful : Faithful showType arrow s) :
    s.lines.length = s.shown .blocked + s.shown .cached + s.shown .forwarded + s.shown .error := by
  have hCount : ∀ lines : List Line,
      (∀ line ∈ lines, ∃ action : Server.Action, line.record.action = action.text) →
      lines.length =
        lines.countP (fun line => line.record.action = Server.Action.blocked.text) +
          lines.countP (fun line => line.record.action = Server.Action.cached.text) +
          lines.countP (fun line => line.record.action = Server.Action.forwarded.text) +
          lines.countP (fun line => line.record.action = Server.Action.error.text) := by
    intro lines hAction
    induction lines with
    | nil => rfl
    | cons line rest ih =>
        obtain ⟨action, hText⟩ := hAction line List.mem_cons_self
        have hRest := ih fun line' hMem => hAction line' (List.mem_cons_of_mem line hMem)
        simp only [List.length_cons, List.countP_cons, hText, text_eq_iff]
        cases action <;> simp only [reduceCtorEq, decide_true, decide_false, if_true, if_false,
          Bool.false_eq_true] <;> omega
  refine hCount s.lines fun line hMem => ?_
  obtain ⟨_, _, _, a, _, _, -, -, -, hRecord⟩ := hFaithful.lines line hMem
  exact ⟨a.action, by rw [hRecord]; rfl⟩

/-- The record of a line was refused by a channel that was full or gone. -/
def Excused (showType : UInt16 → Str) (arrow : Qlog.Arrow) (start : State env) (es : List Event)
    (line : Line) : Prop :=
  ∃ (k : Nat) (before : State env) (nowMs : Int) (elapsedMs : Nat),
    es[k]? = some (.log line.handler nowMs elapsedMs) ∧
      Machine.Finds (step showType arrow) start es k before ∧
      (before.task = .ended ∨ before.channel.length = logChannelCap)

/-- A refusal that is excused stays excused. -/
theorem Excused.concat {start : State env} {line : Line} (e : Event)
    (hExcused : Excused showType arrow start past line) :
    Excused showType arrow start (past ++ [e]) line := by
  obtain ⟨k, before, nowMs, elapsedMs, hEvent, hFinds, hFull⟩ := hExcused
  obtain ⟨hLt, -⟩ := List.getElem?_eq_some_iff.mp hEvent
  exact ⟨k, before, nowMs, elapsedMs, Indexed.getElem?_append_of_some hEvent _,
    hFinds.append (Nat.le_of_lt hLt) _, hFull⟩

/-- The run so far, and the excuse of every line that was not taken. -/
structure Refusing (showType : UInt16 → Str) (arrow : Qlog.Arrow) (start : State env)
    (past : List Event) (s : State env) : Prop where
  run : Machine.run (step showType arrow) start past = some s
  faithful : Faithful showType arrow s
  refused : ∀ line ∈ s.lines, line.sent = false → Excused showType arrow start past line

/-- A step adds a refused line only with a full channel or an ended task before
it. -/
theorem refusing_step {start : State env} {e : Event} (hRefusing : Refusing showType arrow start past s)
    (hStep : step showType arrow s e = some s') :
    Refusing showType arrow start (past ++ [e]) s' where
  run := Machine.run_concat.mpr ⟨s, hRefusing.run, hStep⟩
  faithful := faithful_step hRefusing.faithful hStep
  refused := by
    have hOld : ∀ line ∈ s.lines, line.sent = false → Excused showType arrow start (past ++ [e]) line :=
      fun line hMem hLost => (hRefusing.refused line hMem hLost).concat e
    cases step_cases hStep with
    | @log h hd c r a nowMs elapsedMs hHandler hCall hPhase hEnabled hFirst =>
        have hBounded := hRefusing.faithful.bounded
        rcases trySend_cases ({ s with calls := s.calls.set h { c with logged := true } } : State env) h
          (record showType c r a nowMs elapsedMs) with ⟨-, -, hEq⟩ | ⟨hFull, hEq⟩
        · rw [hEq]
          intro line hMem hLost
          rcases List.mem_append.mp hMem with hEarlier | hLast
          · exact hOld line hEarlier hLost
          · obtain rfl := List.mem_singleton.mp hLast
            exact absurd hLost (by simp)
        · rw [hEq]
          intro line hMem hLost
          rcases List.mem_append.mp hMem with hEarlier | hLast
          · exact hOld line hEarlier hLost
          · obtain rfl := List.mem_singleton.mp hLast
            refine ⟨past.length, s, nowMs, elapsedMs, by simp,
              Machine.finds_length hRefusing.run _, hFull.imp_right fun hLarge => ?_⟩
            exact Nat.le_antisymm hBounded hLarge
    | arrive data client => exact hOld
    | server hAllows hServer => exact hOld
    | createDir ok hTask hEnabled => cases ok <;> exact hOld
    | receive nowMs hTask hChannel hWrite => exact hOld
    | tick nowMs hTask hWrite => exact hOld
    | segment hTask hWrite => exact hOld

/-- In every run each refused line met a full channel or an ended task. -/
theorem refusing_run
    (hRun : Machine.run (step showType arrow) (start cache cfg list origins) es = some s) :
    Refusing showType arrow (start cache cfg list origins) es s := by
  have hStart : Refusing showType arrow (start cache cfg list origins) []
      (start cache cfg list origins) :=
    ⟨rfl, faithful_start cache cfg list origins, by simp [start]⟩
  have hEnd : Refusing showType arrow (start cache cfg list origins) ([] ++ es) s :=
    Machine.run_invariant_past (fun _ _ _ _ hInv (_ : True) => refusing_step hInv) hStart
      (Machine.along_of_mem (fun _ _ _ => trivial) _) hRun
  exact hEnd

/-- The log against the counters. Of each kind of answer the log has as many
lines as the counter says, but for calls that are about to log; once everything
has been answered it has one line for every query counted. A line is missing
from what the writer gets only when the call found the channel full, or found
the writer gone. -/
theorem log_accounts (hEnabled : cfg.qlog.enabled = true)
    (hRun : Machine.run (step showType arrow) (start cache cfg list origins) es = some s) :
    (∀ action, s.server.stats.get (counter action) = s.shown action + s.unlogged action) ∧
      (s.AtRest → (∀ action, s.server.stats.get (counter action) = s.shown action) ∧
        s.server.stats.queries = s.lines.length) ∧
      s.channel.length ≤ logChannelCap ∧
      ∀ line ∈ s.lines, line.sent = false →
        Excused showType arrow (start cache cfg list origins) es line := by
  have hRefusing := refusing_run hRun
  have hFaithful := hRefusing.faithful
  obtain ⟨events, hAlive, hServer⟩ := server_run hRun
  have hAccounts := Server.accounts_run hAlive hServer
  have hOn : s.qlog.enabled = true := by rw [qlog_run hRun, hEnabled]
  have hCounted := counted_eq hFaithful hAccounts
  refine ⟨hCounted, fun hRest => ?_, hFaithful.bounded, hRefusing.refused⟩
  have hShown : ∀ action, s.server.stats.get (counter action) = s.shown action := by
    intro action
    rw [hCounted, unlogged_of_atRest hFaithful hOn hRest]
    rfl
  refine ⟨hShown, ?_⟩
  have hDecided : s.server.tally Server.Phase.undecided = 0 := by
    refine List.countP_eq_zero.mpr fun hd hMem => ?_
    have hDone := hAccounts.released hd hMem (hRest hd hMem)
    cases hPhase : hd.phase <;> rw [hPhase] at hDone <;>
      simp [Server.Phase.running] at hDone <;> simp [Server.Phase.undecided]
  have hQueries := hAccounts.counters .queries
  have hBlocked := hAccounts.counters .blocked
  have hHits := hAccounts.counters .cacheHits
  have hForwarded := hAccounts.counters .forwarded
  have hErrors := hAccounts.counters .upstreamErrors
  have hTally := Server.tally_queries s.server
  have hShownBlocked := hShown .blocked
  have hShownCached := hShown .cached
  have hShownForwarded := hShown .forwarded
  have hShownError := hShown .error
  simp only [counter] at hShownBlocked hShownCached hShownForwarded hShownError
  have hGet : s.server.stats.get .queries = s.server.stats.queries := rfl
  rw [length_lines hFaithful]
  omega

/-- A query that is forwarded and logged, and its counter. -/
theorem log_accounts_session :
    ∃ s, Machine.run (step sampleType Qlog.Arrow.numbered) sampleStart (session sampleClient) =
        some s ∧
      s.server.stats.queries = 1 ∧ s.server.stats.queries = s.lines.length := by
  have hEnd : ((Machine.run (step sampleType Qlog.Arrow.numbered) sampleStart
      (session sampleClient)).map fun s =>
        (s.server.stats.queries, s.server.handlers.all Server.Handler.released)) =
      some (1, true) := by
    decide +kernel
  obtain ⟨s, hRun, hValues⟩ := Option.map_eq_some_iff.mp hEnd
  obtain ⟨hQueries, hRest⟩ := Prod.mk.inj hValues
  exact ⟨s, hRun, hQueries, ((log_accounts rfl hRun).2.1 (List.all_eq_true.mp hRest)).2⟩

end Logging

end RustDns
