import RustDns.Config.Display
import RustDns.Qlog.Writer
import RustDns.Server.Accounting

/-! The query log of one process, from the answer of a call to a segment in a
new directory. A call that has its answer makes a record and offers it to a
bounded channel before it returns; the writer task takes the records off. -/
namespace RustDns

def Server.Action.text : Server.Action → Str
  | .blocked => "blocked".toList
  | .cached => "cached".toList
  | .forwarded => "forwarded".toList
  | .error => "error".toList

namespace Logging

open Qlog (LogRecord Arrow Writer)

def logChannelCap : Nat := 100000

/-- What a call of `handle` needs for its record: who asks, and whether the
configuration it has loaded logs that. -/
structure Call where
  client : Option IpAddr
  logClientIp : Bool
  logged : Bool

/-- A record some call has offered, kept for the proofs. -/
structure Line where
  handler : Nat
  record : LogRecord
  sent : Bool

/-- The writer task: before `create_dir_all`, in its loop, or gone. -/
inductive Task where
  | starting
  | running
  | ended
  deriving DecidableEq

structure State (env : Env) where
  server : Server.State env
  qlog : QlogConfig
  calls : List Call
  task : Task
  channel : List LogRecord
  writer : Writer
  lines : List Line

inductive Event where
  | arrive (data : Bytes) (client : Option IpAddr)
  | server (e : Server.Event)
  | log (h : Nat) (nowMs : Int) (elapsedMs : Nat)
  | createDir (ok : Bool)
  | receive (nowMs : Nat)
  | tick (nowMs : Nat)
  | segment (e : Qlog.Event)

variable {env : Env}

def start (cache : Cache.State) (cfg : Config) (list : Blocklist)
    (origins : List (Request env.wire)) : State env where
  server := Server.boot cache cfg list origins
  qlog := cfg.qlog
  calls := []
  task := .starting
  channel := []
  writer := Writer.start
  lines := []

/-- The type is shown by the DNS library; the latency is cut to 32 bits. -/
def record (showType : UInt16 → Str) (c : Call) (r : Request env.wire) (a : Server.Answer)
    (nowMs : Int) (elapsedMs : Nat) : LogRecord where
  tsMs := nowMs
  client := if c.logClientIp then (c.client.map IpAddr.toString).getD [] else []
  domain := r.name
  qtype := showType r.query.queryType
  action := a.action.text
  latencyMs := UInt32.ofNat elapsedMs

namespace State

def arrive (s : State env) (data : Bytes) (client : Option IpAddr) : State env :=
  { s with
    server := Server.arrive s.server data
    calls := if s.server.inflight = 0 then s.calls else s.calls ++ [⟨client, false, false⟩] }

/-- A call returns after it has offered its record, unless it has nothing to
log. -/
def mayReturn (s : State env) (h : Nat) : Bool :=
  !s.qlog.enabled || s.calls[h]?.any Call.logged || s.server.handlers[h]?.any (·.phase.ignores)

/-- The steps of the server that are taken here as they are. -/
def allows (s : State env) : Server.Event → Bool
  | .arrive _ | .restart _ _ _ => false
  | .finish h => s.mayReturn h
  | _ => true

/-- A call loads the configuration with its message. -/
def load (s : State env) : Server.Event → List Call
  | .parse h => s.calls.modify h fun c => { c with logClientIp := s.server.config.qlog.logClientIp }
  | _ => s.calls

/-- `try_send`: a channel that is full or has lost its receiver refuses. -/
def trySend (s : State env) (h : Nat) (r : LogRecord) : State env :=
  if s.task ≠ .ended ∧ s.channel.length < logChannelCap then
    { s with channel := s.channel ++ [r], lines := s.lines ++ [⟨h, r, true⟩] }
  else { s with lines := s.lines ++ [⟨h, r, false⟩] }

/-- A task that cannot make the directory ends, and the channel with it. -/
def createDir (s : State env) (ok : Bool) : State env :=
  if ok then { s with task := .running } else { s with task := .ended, channel := [] }

end State

variable (showType : UInt16 → Str) (arrow : Arrow)

def write (s : State env) (e : Qlog.WriterEvent) : Option Writer :=
  Writer.step arrow s.qlog.maxBytes.toNat s.qlog.flushRows.toNat s.writer e

def step (s : State env) : Event → Option (State env)
  | .arrive data client => some (s.arrive data client)
  | .server e =>
      if s.allows e then
        (Server.step s.server e).map fun server => { s with server := server, calls := s.load e }
      else none
  | .log h nowMs elapsedMs =>
      match s.server.handlers[h]?, s.calls[h]? with
      | some hd, some c =>
          match hd.phase with
          | .answered r a =>
              if s.qlog.enabled && !c.logged then
                some (({ s with calls := s.calls.set h { c with logged := true } } : State env).trySend
                  h (record showType c r a nowMs elapsedMs))
              else none
          | _ => none
      | _, _ => none
  | .createDir ok =>
      match s.task with
      | .starting => if s.qlog.enabled then some (s.createDir ok) else none
      | _ => none
  | .receive nowMs =>
      match s.task, s.channel with
      | .running, r :: rest =>
          (write arrow s (.receive r nowMs)).map fun w => { s with writer := w, channel := rest }
      | _, _ => none
  | .tick nowMs =>
      match s.task with
      | .running => (write arrow s (.tick nowMs)).map fun w => { s with writer := w }
      | _ => none
  | .segment e =>
      match s.task with
      | .running => (write arrow s (.segment e)).map fun w => { s with writer := w }
      | _ => none

/-- The steps, each with what it finds in the state. -/
inductive Step (s : State env) : Event → State env → Prop where
  | arrive (data : Bytes) (client : Option IpAddr) :
      Step s (.arrive data client) (s.arrive data client)
  | server {e : Server.Event} {server : Server.State env} (hAllows : s.allows e = true)
      (hServer : Server.step s.server e = some server) :
      Step s (.server e) { s with server := server, calls := s.load e }
  | log {h : Nat} {hd : Server.Handler env} {c : Call} {r : Request env.wire} {a : Server.Answer}
      (nowMs : Int) (elapsedMs : Nat) (hHandler : s.server.handlers[h]? = some hd)
      (hCall : s.calls[h]? = some c) (hPhase : hd.phase = .answered r a)
      (hEnabled : s.qlog.enabled = true) (hFirst : c.logged = false) :
      Step s (.log h nowMs elapsedMs)
        (({ s with calls := s.calls.set h { c with logged := true } } : State env).trySend h
          (record showType c r a nowMs elapsedMs))
  | createDir (ok : Bool) (hTask : s.task = .starting) (hEnabled : s.qlog.enabled = true) :
      Step s (.createDir ok) (s.createDir ok)
  | receive {r : LogRecord} {rest : List LogRecord} {w : Writer} (nowMs : Nat)
      (hTask : s.task = .running) (hChannel : s.channel = r :: rest)
      (hWrite : write arrow s (.receive r nowMs) = some w) :
      Step s (.receive nowMs) { s with writer := w, channel := rest }
  | tick {w : Writer} (nowMs : Nat) (hTask : s.task = .running)
      (hWrite : write arrow s (.tick nowMs) = some w) : Step s (.tick nowMs) { s with writer := w }
  | segment {e : Qlog.Event} {w : Writer} (hTask : s.task = .running)
      (hWrite : write arrow s (.segment e) = some w) : Step s (.segment e) { s with writer := w }

variable {showType arrow} {s s' : State env}

/-- What each step of the logged server does. -/
theorem step_cases {e : Event} (hStep : step showType arrow s e = some s') :
    Step showType arrow s e s' := by
  cases e with
  | arrive data client =>
      obtain rfl := Option.some.inj hStep
      exact .arrive data client
  | server e =>
      simp only [step] at hStep
      split at hStep <;> [skip; simp at hStep]
      obtain ⟨server, hServer, rfl⟩ := Option.map_eq_some_iff.mp hStep
      exact .server ‹_› hServer
  | log h nowMs elapsedMs =>
      simp only [step] at hStep
      split at hStep <;> [split at hStep; simp at hStep] <;> [skip; simp at hStep]
      split at hStep <;> [rename_i hBoth; simp at hStep]
      simp only [Bool.and_eq_true, Bool.not_eq_true'] at hBoth
      obtain rfl := Option.some.inj hStep
      exact .log nowMs elapsedMs ‹_› ‹_› ‹_› hBoth.1 hBoth.2
  | createDir ok =>
      simp only [step] at hStep
      split at hStep <;> [split at hStep; simp at hStep] <;> [skip; simp at hStep]
      obtain rfl := Option.some.inj hStep
      exact .createDir ok ‹_› ‹_›
  | receive nowMs =>
      simp only [step] at hStep
      split at hStep <;> [skip; simp at hStep]
      obtain ⟨w, hWrite, rfl⟩ := Option.map_eq_some_iff.mp hStep
      exact .receive nowMs ‹_› ‹_› hWrite
  | tick nowMs =>
      simp only [step] at hStep
      split at hStep <;> [skip; simp at hStep]
      obtain ⟨w, hWrite, rfl⟩ := Option.map_eq_some_iff.mp hStep
      exact .tick nowMs ‹_› hWrite
  | segment e =>
      simp only [step] at hStep
      split at hStep <;> [skip; simp at hStep]
      obtain ⟨w, hWrite, rfl⟩ := Option.map_eq_some_iff.mp hStep
      exact .segment ‹_› hWrite

/-- What a step of the server that brings no message does to the handlers: at
most one of them changes, and once its call has returned only its permit
does. -/
theorem handlers_kept {server server' : Server.State env} {e : Server.Event}
    (hArrive : e.arrives = false) (hAlive : e.restarts = false)
    (hStep : Server.step server e = some server') :
    server'.handlers = server.handlers ∨
      ∃ k old new, server.handlers[k]? = some old ∧ server'.handlers = server.handlers.set k new ∧
        ((old.phase.running = true ∧ new.released = old.released) ∨
          (old.phase.running = false ∧ new.phase = old.phase ∧ e = .finish k)) := by
  cases Server.step_cases hStep with
  | arrive data => simp [Server.Event.arrives] at hArrive
  | parse hHandler hPhase =>
      have hRunning := Server.running_of_phase hPhase rfl
      unfold Server.parse
      split <;> exact Or.inr ⟨_, _, _, hHandler, rfl, Or.inl ⟨hRunning, rfl⟩⟩
  | check hHandler hPhase =>
      have hRunning := Server.running_of_phase hPhase rfl
      unfold Server.check
      dsimp only
      split <;> exact Or.inr ⟨_, _, _, hHandler, rfl, Or.inl ⟨hRunning, rfl⟩⟩
  | lookup hHandler hPhase =>
      have hRunning := Server.running_of_phase hPhase rfl
      unfold Server.lookup
      split <;> exact Or.inr ⟨_, _, _, hHandler, rfl, Or.inl ⟨hRunning, rfl⟩⟩
  | join hHandler hPhase =>
      have hRunning := Server.running_of_phase hPhase rfl
      unfold Server.join
      split
      · exact Or.inr ⟨_, _, _, hHandler, rfl, Or.inl ⟨hRunning, rfl⟩⟩
      · split <;> exact Or.inr ⟨_, _, _, hHandler, rfl, Or.inl ⟨hRunning, rfl⟩⟩
  | deliver hHandler hPhase hDeliver =>
      have hRunning := Server.running_of_phase hPhase rfl
      rcases Server.deliver_cases hDeliver with ⟨_, _, _, -, -, rfl⟩ | rfl
      · exact Or.inr ⟨_, _, _, hHandler, rfl, Or.inl ⟨hRunning, rfl⟩⟩
      · exact Or.inr ⟨_, _, _, hHandler, rfl, Or.inl ⟨hRunning, rfl⟩⟩
  | finish hHandler hFinish =>
      obtain ⟨hDone, -⟩ := Server.done_of_finish hFinish
      obtain rfl := Server.finish_cases hFinish
      exact Or.inr ⟨_, _, _, hHandler, rfl, Or.inr ⟨hDone, rfl, rfl⟩⟩
  | upstream hForward => exact Or.inl (Server.forward_frame hForward).1
  | cache hBackground => exact Or.inl (Server.background_frame hBackground).1
  | setBlocklist list => exact Or.inl rfl
  | setConfig cfg => exact Or.inl rfl
  | restart cfg list loaded => simp [Server.Event.restarts] at hAlive

/-- The server's own events bring no message and no restart. -/
theorem allows_spec {e : Server.Event} (hAllows : s.allows e = true) :
    e.arrives = false ∧ e.restarts = false := by
  cases e <;> first | exact ⟨rfl, rfl⟩ | simp [State.allows] at hAllows

/-- Reading the settings adds no call. -/
theorem length_load (s : State env) (e : Server.Event) : (s.load e).length = s.calls.length := by
  cases e <;> simp [State.load]

/-- The configuration is loaded for a call that has no answer yet, and changes
nothing but what it says about the client. -/
theorem getElem?_load {e : Server.Event} {h : Nat} {c : Call} (hCall : s.calls[h]? = some c) :
    ∃ c', (s.load e)[h]? = some c' ∧ c'.client = c.client ∧ c'.logged = c.logged ∧
      (e ≠ .parse h → c' = c) := by
  cases e with
  | parse k =>
      simp only [State.load, List.getElem?_modify, hCall]
      by_cases hIndex : k = h
      · simp [hIndex]
      · simp [hIndex]
  | _ => exact ⟨c, hCall, rfl, rfl, fun _ => rfl⟩

/-- What the channel and the writer have is what the calls have sent, in order;
every record is that of the one call that has made it; and no call has returned
without. -/
structure Faithful (showType : UInt16 → Str) (arrow : Arrow) (s : State env) : Prop where
  length : s.calls.length = s.server.handlers.length
  sent : s.task ≠ .ended → (s.lines.filter Line.sent).map Line.record = s.writer.received ++ s.channel
  bounded : s.channel.length ≤ logChannelCap
  whole : Writer.Whole arrow s.qlog.flushRows.toNat s.writer
  nodup : (s.lines.map Line.handler).Nodup
  logged : ∀ (h : Nat) (c : Call), s.calls[h]? = some c → (c.logged = true ↔ ∃ line ∈ s.lines, line.handler = h)
  lines : ∀ line ∈ s.lines, ∃ (hd : Server.Handler env) (c : Call) (r : Request env.wire)
    (a : Server.Answer) (nowMs : Int) (elapsedMs : Nat),
    s.server.handlers[line.handler]? = some hd ∧ s.calls[line.handler]? = some c ∧
      hd.phase = .answered r a ∧ line.record = record showType c r a nowMs elapsedMs
  returned : s.qlog.enabled = true → ∀ (h : Nat) (hd : Server.Handler env) (c : Call),
    s.server.handlers[h]? = some hd →
    s.calls[h]? = some c → hd.released = true → hd.phase.ignores = false → c.logged = true

/-- A server that has just started has logged nothing. -/
theorem faithful_start (cache : Cache.State) (cfg : Config) (list : Blocklist)
    (origins : List (Request env.wire)) :
    Faithful showType arrow (start cache cfg list origins) where
  length := rfl
  sent := fun _ => rfl
  bounded := Nat.zero_le _
  whole := Writer.whole_start
  nodup := List.nodup_nil
  logged := by simp [start]
  lines := by simp [start]
  returned := by simp [start]

/-- A new call has no line yet. -/
theorem faithful_arrive (hFaithful : Faithful showType arrow s) (data : Bytes)
    (client : Option IpAddr) : Faithful showType arrow (s.arrive data client) := by
  unfold State.arrive Server.arrive
  split
  case isTrue hFull => exact { hFaithful with }
  case isFalse hFree =>
      have hLength := hFaithful.length
      exact
        { hFaithful with
          length := by simp [hLength]
          logged := fun h c hCall => by
            rcases Indexed.getElem?_concat_cases hCall with hOld | ⟨hIndex, rfl⟩
            · exact hFaithful.logged h c hOld
            · refine ⟨fun hLogged => absurd hLogged Bool.false_ne_true, ?_⟩
              rintro ⟨line, hMem, rfl⟩
              obtain ⟨hd, c, r, a, nowMs, elapsedMs, hHandler, -⟩ := hFaithful.lines line hMem
              have hLt := (List.getElem?_eq_some_iff.mp hHandler).1
              omega
          lines := fun line hMem => by
            obtain ⟨hd, c, r, a, nowMs, elapsedMs, hHandler, hCall, hRest⟩ := hFaithful.lines line hMem
            exact ⟨hd, c, r, a, nowMs, elapsedMs, Indexed.getElem?_append_of_some hHandler _,
              Indexed.getElem?_append_of_some hCall _, hRest⟩
          returned := fun hEnabled h hd c hHandler hCall hReleased hAnswers => by
            rcases Indexed.getElem?_concat_cases hHandler with hOld | ⟨-, rfl⟩
            · have hLt := (List.getElem?_eq_some_iff.mp hOld).1
              rw [List.getElem?_append_left (by omega)] at hCall
              exact hFaithful.returned hEnabled h hd c hOld hCall hReleased hAnswers
            · exact absurd hReleased Bool.false_ne_true }

/-- A step of the server changes no line: what has been answered keeps its
answer. -/
theorem faithful_server {e : Server.Event} {server : Server.State env}
    (hFaithful : Faithful showType arrow s) (hAllows : s.allows e = true)
    (hServer : Server.step s.server e = some server) :
    Faithful showType arrow { s with server := server, calls := s.load e } := by
  obtain ⟨hArrive, hAlive⟩ := allows_spec hAllows
  have hKept := handlers_kept hArrive hAlive hServer
  have hLengths : server.handlers.length = s.server.handlers.length := by
    rcases hKept with hSame | ⟨_, _, _, -, hSet, -⟩
    · rw [hSame]
    · rw [hSet, List.length_set]
  have hOldCall : ∀ (h : Nat) (c' : Call), (s.load e)[h]? = some c' → ∃ c, s.calls[h]? = some c ∧
      c'.logged = c.logged := by
    intro h c' hCall
    have hLt := (List.getElem?_eq_some_iff.mp hCall).1
    rw [length_load] at hLt
    have hOld : s.calls[h]? = some s.calls[h] := List.getElem?_eq_getElem hLt
    obtain ⟨c'', hNew, -, hLogged, -⟩ := getElem?_load hOld
    obtain rfl := Option.some.inj (hNew.symm.trans hCall)
    exact ⟨_, hOld, hLogged⟩
  exact
    { hFaithful with
      length := by rw [length_load, hLengths, hFaithful.length]
      logged := fun h c' hCall => by
        obtain ⟨c, hOld, hLogged⟩ := hOldCall h c' hCall
        rw [hLogged]
        exact hFaithful.logged h c hOld
      lines := fun line hMem => by
        obtain ⟨hd, c, r, a, nowMs, elapsedMs, hHandler, hCall, hPhase, hRecord⟩ :=
          hFaithful.lines line hMem
        obtain ⟨hd', hHandler', hPhase'⟩ := Server.answered_step hAlive hHandler hPhase hServer
        obtain ⟨c', hCall', -, -, hSame⟩ := getElem?_load (e := e) hCall
        -- a call that is answered has loaded its configuration before
        have hLoaded : e ≠ .parse line.handler := by
          rintro rfl
          cases Server.step_cases hServer with
          | parse hOld hArrived =>
              obtain rfl := Option.some.inj (hOld.symm.trans hHandler)
              rw [hPhase] at hArrived
              simp at hArrived
        obtain rfl := hSame hLoaded
        exact ⟨hd', c', r, a, nowMs, elapsedMs, hHandler', hCall', hPhase', hRecord⟩
      returned := fun hEnabled h hd c' hHandler hCall hReleased hAnswers => by
        obtain ⟨c, hOld, hLogged⟩ := hOldCall h c' hCall
        rw [hLogged]
        rcases hKept with hSame | ⟨k, old, new, hOldHandler, hSet, hChange⟩
        · exact hFaithful.returned hEnabled h hd c (by rwa [← hSame]) hOld hReleased hAnswers
        · dsimp only at hHandler
          rw [hSet] at hHandler
          rcases Indexed.getElem?_set_cases hHandler with ⟨rfl, rfl⟩ | ⟨-, hSameHandler⟩
          · rcases hChange with ⟨hRunning, hSameReleased⟩ | ⟨-, hSamePhase, rfl⟩
            · refine hFaithful.returned hEnabled h old c hOldHandler hOld ?_ ?_
              · rw [← hSameReleased, hReleased]
              · cases hPhase : old.phase <;> rw [hPhase] at hRunning <;>
                  first | rfl | simp [Server.Phase.running] at hRunning
            · rw [hSamePhase] at hAnswers
              have hOn : s.qlog.enabled = true := hEnabled
              simpa [State.allows, State.mayReturn, hOn, hOld, hOldHandler, hAnswers] using hAllows
          · exact hFaithful.returned hEnabled h hd c hSameHandler hOld hReleased hAnswers }

/-- A record offered adds a line; the channel has it when it was taken. -/
theorem trySend_cases (s : State env) (h : Nat) (r : LogRecord) :
    (s.task ≠ .ended ∧ s.channel.length < logChannelCap ∧
      s.trySend h r = { s with channel := s.channel ++ [r], lines := s.lines ++ [⟨h, r, true⟩] }) ∨
    ((s.task = .ended ∨ logChannelCap ≤ s.channel.length) ∧
      s.trySend h r = { s with lines := s.lines ++ [⟨h, r, false⟩] }) := by
  unfold State.trySend
  split
  case isTrue hRoom => exact Or.inl ⟨hRoom.1, hRoom.2, rfl⟩
  case isFalse hNone =>
      refine Or.inr ⟨?_, rfl⟩
      by_cases hTask : s.task = .ended
      · exact Or.inl hTask
      · exact Or.inr (Nat.le_of_not_lt fun hLt => hNone ⟨hTask, hLt⟩)

/-- A line written is that of the answer its call has, and the only one of that
call. -/
theorem faithful_log {h : Nat} {hd : Server.Handler env} {c : Call} {r : Request env.wire}
    {a : Server.Answer} (nowMs : Int) (elapsedMs : Nat) (hFaithful : Faithful showType arrow s)
    (hHandler : s.server.handlers[h]? = some hd) (hCall : s.calls[h]? = some c)
    (hPhase : hd.phase = .answered r a) (hFirst : c.logged = false) :
    Faithful showType arrow
      (({ s with calls := s.calls.set h { c with logged := true } } : State env).trySend h
        (record showType c r a nowMs elapsedMs)) := by
  obtain ⟨hLt, -⟩ := List.getElem?_eq_some_iff.mp hCall
  have hNew : ∀ line ∈ s.lines, line.handler ≠ h := by
    intro line hMem hSame
    have hLogged := (hFaithful.logged h c hCall).mpr ⟨line, hMem, hSame⟩
    rw [hFirst] at hLogged
    exact absurd hLogged (by decide)
  -- all but the channel, for a line taken or not
  have hLined : ∀ (sent : Bool) (channel : List LogRecord),
      (s.task ≠ .ended → ((s.lines ++ [Line.mk h (record showType c r a nowMs elapsedMs) sent]).filter
        Line.sent).map Line.record = s.writer.received ++ channel) →
      channel.length ≤ logChannelCap →
      Faithful showType arrow
        { s with
          calls := s.calls.set h { c with logged := true }
          channel := channel
          lines := s.lines ++ [⟨h, record showType c r a nowMs elapsedMs, sent⟩] } := by
    intro sent channel hSent hBounded
    exact
      { length := by
          rw [List.length_set]
          exact hFaithful.length
        sent := hSent
        bounded := hBounded
        whole := hFaithful.whole
        nodup := by
          rw [List.map_append, List.nodup_append]
          refine ⟨hFaithful.nodup, by simp, ?_⟩
          intro k hOld k' hLast
          obtain ⟨line, hMem, rfl⟩ := List.mem_map.mp hOld
          obtain rfl : k' = h := by simpa using hLast
          exact hNew line hMem
        logged := fun k c' hGet => by
          simp only [List.mem_append, List.mem_singleton]
          rcases Indexed.getElem?_set_cases hGet with ⟨rfl, rfl⟩ | ⟨hOther, hOld⟩
          · exact iff_of_true rfl ⟨_, Or.inr rfl, rfl⟩
          · rw [hFaithful.logged k c' hOld]
            constructor
            · rintro ⟨line, hMem, rfl⟩
              exact ⟨line, Or.inl hMem, rfl⟩
            · rintro ⟨line, hMem | rfl, rfl⟩
              · exact ⟨line, hMem, rfl⟩
              · exact absurd rfl hOther
        lines := fun line hMem => by
          rcases List.mem_append.mp hMem with hOld | hLast
          · obtain ⟨hd', c', r', a', nowMs', elapsedMs', hHandler', hCall', hRest⟩ :=
              hFaithful.lines line hOld
            refine ⟨hd', c', r', a', nowMs', elapsedMs', hHandler', ?_, hRest⟩
            rw [List.getElem?_set_ne (Ne.symm (hNew line hOld)), hCall']
          · obtain rfl := List.mem_singleton.mp hLast
            exact ⟨hd, _, r, a, nowMs, elapsedMs, hHandler, List.getElem?_set_self hLt, hPhase, rfl⟩
        returned := fun hEnabled k hd' c' hHandler' hGet hReleased hAnswers => by
          rcases Indexed.getElem?_set_cases hGet with ⟨rfl, rfl⟩ | ⟨-, hOld⟩
          · rfl
          · exact hFaithful.returned hEnabled k hd' c' hHandler' hOld hReleased hAnswers }
  rcases trySend_cases ({ s with calls := s.calls.set h { c with logged := true } } : State env) h
    (record showType c r a nowMs elapsedMs) with ⟨hTask, hRoom, hEq⟩ | ⟨-, hEq⟩
  · rw [hEq]
    refine hLined true _ (fun _ => ?_) ?_
    · have hSent := hFaithful.sent hTask
      simp [hSent]
    · rw [List.length_append, List.length_singleton]
      exact hRoom
  · rw [hEq]
    refine hLined false s.channel (fun hTask => ?_) hFaithful.bounded
    have hSent := hFaithful.sent hTask
    simp [hSent]

/-- A flush changes nothing about what the writer has received. -/
theorem received_flush (w : Writer) (nowMs : Nat) : (w.flush nowMs).received = w.received := by
  unfold Writer.flush
  split <;> rfl

/-- The writer records what it receives and nothing else. -/
theorem received_receive {r : LogRecord} {nowMs : Nat} {w : Writer}
    (hWrite : write arrow s (.receive r nowMs) = some w) :
    w.received = s.writer.received ++ [r] := by
  cases Writer.step_cases hWrite with
  | receive _ _ hIdle hOpen =>
      unfold Writer.receive
      dsimp only
      split
      · exact received_flush _ _
      · rfl

/-- Only `receive` adds to what the writer has received. -/
theorem received_other {e : Qlog.WriterEvent} {w : Writer} (hWrite : write arrow s e = some w)
    (hOther : ∀ r nowMs, e ≠ .receive r nowMs) : w.received = s.writer.received := by
  cases Writer.step_cases hWrite with
  | receive r nowMs hIdle hOpen => exact absurd rfl (hOther r nowMs)
  | tick nowMs hIdle hOpen => exact received_flush _ _
  | close nowMs hIdle hOpen => exact received_flush _ _
  | segment hCall hCrash hSegment => rfl
  | crash => rfl

/-- A step of the writer, with what it leaves in the channel. -/
theorem faithful_writer {e : Qlog.WriterEvent} {w : Writer} {rest : List LogRecord}
    (hFaithful : Faithful showType arrow s) (hWrite : write arrow s e = some w)
    (hTaken : w.received ++ rest = s.writer.received ++ s.channel)
    (hLess : rest.length ≤ s.channel.length) :
    Faithful showType arrow { s with writer := w, channel := rest } :=
  { hFaithful with
    sent := fun hTask => (hFaithful.sent hTask).trans hTaken.symm
    bounded := Nat.le_trans hLess hFaithful.bounded
    whole := Writer.whole_step hFaithful.whole hWrite }

/-- Starting the writer's task loses no line. -/
theorem faithful_createDir (hFaithful : Faithful showType arrow s) (ok : Bool)
    (hTask : s.task = .starting) : Faithful showType arrow (s.createDir ok) := by
  have hOpen : s.task ≠ .ended := by
    rw [hTask]
    decide
  cases ok with
  | true => exact { hFaithful with sent := fun _ => hFaithful.sent hOpen }
  | false =>
      exact
        { hFaithful with
          sent := fun hRunning => absurd rfl hRunning
          bounded := Nat.zero_le _ }

/-- A step leaves the log faithful. -/
theorem faithful_step {e : Event} (hFaithful : Faithful showType arrow s)
    (hStep : step showType arrow s e = some s') : Faithful showType arrow s' := by
  cases step_cases hStep with
  | arrive data client => exact faithful_arrive hFaithful data client
  | server hAllows hServer => exact faithful_server hFaithful hAllows hServer
  | log nowMs elapsedMs hHandler hCall hPhase hEnabled hFirst =>
      exact faithful_log nowMs elapsedMs hFaithful hHandler hCall hPhase hFirst
  | createDir ok hTask hEnabled => exact faithful_createDir hFaithful ok hTask
  | receive nowMs hTask hChannel hWrite =>
      refine faithful_writer hFaithful hWrite ?_ (by simp [hChannel])
      rw [received_receive hWrite, hChannel, List.append_assoc]
      rfl
  | tick nowMs hTask hWrite =>
      refine faithful_writer hFaithful hWrite ?_ (Nat.le_refl _)
      rw [received_other hWrite (by simp)]
  | segment hTask hWrite =>
      refine faithful_writer hFaithful hWrite ?_ (Nat.le_refl _)
      rw [received_other hWrite (by simp)]

/-- In every run the log is faithful. -/
theorem faithful_run {cache : Cache.State} {cfg : Config} {list : Blocklist}
    {origins : List (Request env.wire)} {es : List Event}
    (hRun : Machine.run (step showType arrow) (start cache cfg list origins) es = some s) :
    Faithful showType arrow s :=
  Machine.run_invariant (fun _ _ _ => faithful_step) (faithful_start cache cfg list origins) hRun

section

variable {cache : Cache.State} {cfg : Config} {list : Blocklist}
  {origins : List (Request env.wire)} {es : List Event}

/-- Every record of the log is that of one call, made when it had its answer,
and no call makes two. What the channel has taken is in the batches of the
writer, in its buffer or in the channel, once and in order, and a segment holds
one of the batches, whole. A call that has returned with an answer has offered
its record. -/
theorem log_faithful
    (hRun : Machine.run (step showType arrow) (start cache cfg list origins) es = some s) :
    (s.task ≠ .ended → (s.lines.filter Line.sent).map Line.record =
      (s.writer.flushed.map Prod.snd).flatten ++ s.writer.buffer ++ s.channel) ∧
    (s.lines.map Line.handler).Nodup ∧
    (∀ line ∈ s.lines, ∃ (hd : Server.Handler env) (c : Call) (r : Request env.wire)
      (a : Server.Answer) (nowMs : Int) (elapsedMs : Nat),
      s.server.handlers[line.handler]? = some hd ∧ s.calls[line.handler]? = some c ∧
        hd.phase = .answered r a ∧ line.record = record showType c r a nowMs elapsedMs) ∧
    (∀ name bytes, s.writer.seg.files.lookup name = some bytes → Qlog.isSegment name = true →
      ∃ recs, (name, recs) ∈ s.writer.flushed ∧
        (arrow.read bytes).map Qlog.RecordBatch.rows = some recs) ∧
    (s.qlog.enabled = true → ∀ (h : Nat) (hd : Server.Handler env), s.server.handlers[h]? = some hd →
      hd.released = true → hd.phase.ignores = false → ∃ line ∈ s.lines, line.handler = h) := by
  have hFaithful := faithful_run hRun
  refine ⟨fun hTask => ?_, hFaithful.nodup, hFaithful.lines, ?_, ?_⟩
  · rw [hFaithful.sent hTask, hFaithful.whole.received]
  · intro name bytes hLookup hSegment
    obtain ⟨recs, hMem, hHolds⟩ := hFaithful.whole.stored.files name bytes hLookup hSegment
    exact ⟨recs, hMem, hHolds.rows⟩
  · intro hEnabled h hd hHandler hReleased hAnswers
    have hLt : h < s.calls.length := by
      rw [hFaithful.length]
      exact (List.getElem?_eq_some_iff.mp hHandler).1
    have hCall : s.calls[h]? = some s.calls[h] := List.getElem?_eq_getElem hLt
    exact (hFaithful.logged h _ hCall).mp
      (hFaithful.returned hEnabled h hd _ hHandler hCall hReleased hAnswers)

end

def sampleType (rtype : UInt16) : Str := if rtype = 1 then ['A'] else "TYPE".toList ++ decimal rtype.toNat

def sampleClient : IpAddr := .v4 ⟨#v[192, 0, 2, 7]⟩

/-- A query that is forwarded, logged and answered, and its segment. -/
def session (client : IpAddr) : List Event :=
  .createDir true :: .arrive (Exchange.query 1) (some client) ::
    ((Server.fetch 1).tail.map Event.server ++
      [.log 0 1700000000000 12, .server (.finish 0), .receive 1700000000001, .tick 1700000005000,
        .segment .create, .segment .close, .segment .rename])

def sampleStart : State Server.sampleEnv :=
  start (Cache.init 100 500000) Config.default ⟨∅, ∅⟩ []

/-- The one query of the session has one line, of its client and its outcome,
and it is on its way to the writer. -/
theorem log_faithful_session :
    ∃ s, Machine.run (step sampleType Arrow.numbered) sampleStart (session sampleClient) = some s ∧
      (s.lines.map fun line => (line.record.client, line.record.qtype, line.record.action)) =
        [("192.0.2.7".toList, ['A'], "forwarded".toList)] ∧
      (s.lines.filter Line.sent).map Line.record =
        (s.writer.flushed.map Prod.snd).flatten ++ s.writer.buffer ++ s.channel := by
  have hEnd : ((Machine.run (step sampleType Arrow.numbered) sampleStart
      (session sampleClient)).map fun s =>
        (s.lines.map fun line => (line.record.client, line.record.qtype, line.record.action),
          s.task)) = some ([("192.0.2.7".toList, ['A'], "forwarded".toList)], .running) := by
    decide +kernel
  obtain ⟨s, hRun, hValues⟩ := Option.map_eq_some_iff.mp hEnd
  obtain ⟨hLines, hTask⟩ := Prod.mk.inj hValues
  refine ⟨s, hRun, hLines, (log_faithful hRun).1 ?_⟩
  rw [hTask]
  decide

end Logging

end RustDns
