import RustDns.Server.HotReload
import RustDns.Server.LogAccounting

/-! The query log with `log_client_ip` off: who asks leaves no trace, neither in
a record nor in what the log does. -/
namespace RustDns

namespace Logging

/-- Events that differ in nobody but the clients, and leave the logging of
clients off. -/
inductive Alike : Event → Event → Prop where
  | arrive (data : Bytes) (client client' : Option IpAddr) :
      Alike (.arrive data client) (.arrive data client')
  | setConfig {cfg : Config} (hOff : cfg.qlog.logClientIp = false) :
      Alike (.server (.setConfig cfg)) (.server (.setConfig cfg))
  | server {e : Server.Event} (hSame : ∀ cfg, e ≠ .setConfig cfg) : Alike (.server e) (.server e)
  | log (h : Nat) (nowMs : Int) (elapsedMs : Nat) :
      Alike (.log h nowMs elapsedMs) (.log h nowMs elapsedMs)
  | createDir (ok : Bool) : Alike (.createDir ok) (.createDir ok)
  | receive (nowMs : Nat) : Alike (.receive nowMs) (.receive nowMs)
  | tick (nowMs : Nat) : Alike (.tick nowMs) (.tick nowMs)
  | segment (e : Qlog.Event) : Alike (.segment e) (.segment e)

/-- Two calls that log nothing of their clients. -/
structure Call.Alike (c c' : Call) : Prop where
  off : c.logClientIp = false
  off' : c'.logClientIp = false
  logged : c'.logged = c.logged

variable {env : Env} {showType : UInt16 → Str} {arrow : Qlog.Arrow} {s s' t : State env}

/-- Two states with the same everything but clients. -/
structure State.Alike (s t : State env) : Prop where
  rest : t = { s with calls := t.calls }
  calls : List.Forall₂ Call.Alike s.calls t.calls
  off : s.server.config.qlog.logClientIp = false

/-- Calls of two clients give one record when addresses are not logged. -/
theorem record_alike {c c' : Call} (hAlike : c.Alike c') (r : Request env.wire) (a : Server.Answer)
    (nowMs : Int) (elapsedMs : Nat) :
    record showType c' r a nowMs elapsedMs = record showType c r a nowMs elapsedMs := by
  simp [record, hAlike.off, hAlike.off']

/-- Only a stored configuration and a restart change the live one. -/
theorem config_of_step {server server' : Server.State env} {e : Server.Event}
    (hAlive : e.restarts = false) (hSame : ∀ cfg, e ≠ .setConfig cfg)
    (hStep : Server.step server e = some server') : server'.config = server.config := by
  by_cases hQuiet : e.edits = false
  · exact congrArg Prod.fst (Server.settings_of_step hAlive hQuiet hStep)
  · cases e with
    | setBlocklist list =>
        obtain rfl := Option.some.inj hStep
        rfl
    | setConfig cfg => exact absurd rfl (hSame cfg)
    | _ => exact absurd rfl hQuiet

/-- Reading the settings keeps the calls of two runs alike. -/
theorem load_alike {calls : List Call} (hCalls : List.Forall₂ Call.Alike s.calls calls)
    (hOff : s.server.config.qlog.logClientIp = false) (e : Server.Event) :
    List.Forall₂ Call.Alike (s.load e) (({ s with calls := calls } : State env).load e) := by
  cases e with
  | parse h =>
      apply Indexed.forall₂_modify hCalls
      intro c c' hAlike
      exact ⟨hOff, hOff, hAlike.logged⟩
  | _ => exact hCalls

/-- Alike calls have the same lines written. -/
theorem logged_alike {calls : List Call} (hCalls : List.Forall₂ Call.Alike s.calls calls) (h : Nat) :
    calls[h]?.any Call.logged = s.calls[h]?.any Call.logged := by
  cases hCall : calls[h]? with
  | none =>
      have hNone : s.calls[h]? = none := by
        rw [List.getElem?_eq_none_iff] at hCall ⊢
        rwa [hCalls.length_eq]
      rw [hNone]
  | some c' =>
      obtain ⟨c, hOther, hAlike⟩ := Indexed.forall₂_partner hCalls hCall
      rw [hOther, Option.any_some, Option.any_some, hAlike.logged]

/-- Alike runs allow the same events. -/
theorem allows_alike {calls : List Call} (hCalls : List.Forall₂ Call.Alike s.calls calls)
    (e : Server.Event) : ({ s with calls := calls } : State env).allows e = s.allows e := by
  cases e with
  | finish h =>
      simp only [State.allows, State.mayReturn]
      rw [logged_alike hCalls]
  | _ => rfl

/-- Sending a record does not look at the calls. -/
theorem trySend_alike (calls calls' : List Call) (h : Nat) (r : Qlog.LogRecord) :
    ({ s with calls := calls' } : State env).trySend h r =
      { ({ s with calls := calls } : State env).trySend h r with calls := calls' } := by
  unfold State.trySend
  dsimp only
  split <;> rfl

/-- A query of another client leaves the runs alike. -/
theorem alike_arrive {calls : List Call} (hCalls : List.Forall₂ Call.Alike s.calls calls)
    (hOff : s.server.config.qlog.logClientIp = false) (data : Bytes) (client client' : Option IpAddr) :
    (s.arrive data client).Alike (({ s with calls := calls } : State env).arrive data client') where
  rest := rfl
  calls := by
    simp only [State.arrive]
    split
    · exact hCalls
    · exact List.rel_append hCalls (.cons ⟨rfl, rfl, rfl⟩ .nil)
  off := by
    simp only [State.arrive, Server.arrive]
    split <;> exact hOff

/-- What one run can do the other can do with other clients, and they stay
alike. -/
theorem alike_step {e d : Event} (hAlike : s.Alike t) (hEvents : Alike e d)
    (hStep : step showType arrow s e = some s') :
    ∃ t', step showType arrow t d = some t' ∧ s'.Alike t' := by
  obtain ⟨hRest, hCalls, hOff⟩ := hAlike
  obtain ⟨calls, rfl⟩ : ∃ calls, t = { s with calls := calls } := ⟨t.calls, hRest⟩
  clear hRest
  have hTaken : ∀ (e : Server.Event) (server : Server.State env), s.allows e = true →
      Server.step s.server e = some server → server.config.qlog.logClientIp = false →
      ∃ t', step showType arrow ({ s with calls := calls } : State env) (.server e) = some t' ∧
        State.Alike { s with server := server, calls := s.load e } t' := by
    intro e server hAllows hServer hStillOff
    refine ⟨{ s with server := server, calls := ({ s with calls := calls } : State env).load e },
      ?_, rfl, load_alike hCalls hOff e, hStillOff⟩
    simp only [step]
    rw [allows_alike hCalls, if_pos hAllows, hServer]
    rfl
  cases hEvents with
  | arrive data client client' =>
      obtain rfl := Option.some.inj hStep
      exact ⟨_, rfl, alike_arrive hCalls hOff data client client'⟩
  | setConfig hStillOff =>
      cases step_cases hStep with
      | server hAllows hServer =>
          refine hTaken _ _ hAllows hServer ?_
          obtain rfl := Option.some.inj hServer
          exact hStillOff
  | server hSame =>
      cases step_cases hStep with
      | server hAllows hServer =>
          refine hTaken _ _ hAllows hServer ?_
          rw [config_of_step (allows_spec hAllows).2 hSame hServer]
          exact hOff
  | log h nowMs elapsedMs =>
      cases step_cases hStep with
      | @log _ hd c r a _ _ hHandler hCall hPhase hEnabled hFirst =>
          obtain ⟨c', hCall', hAlike⟩ : ∃ c', calls[h]? = some c' ∧ c.Alike c' := by
            obtain ⟨c', hOther, hAlike⟩ := Indexed.forall₂_partner hCalls.flip hCall
            exact ⟨c', hOther, hAlike⟩
          have hMarked : Call.Alike { c with logged := true } { c' with logged := true } :=
            ⟨hAlike.off, hAlike.off', rfl⟩
          have hFirst' : c'.logged = false := by rw [hAlike.logged, hFirst]
          have hNext : step showType arrow ({ s with calls := calls } : State env)
              (.log h nowMs elapsedMs) =
              some (({ s with calls := calls.set h { c' with logged := true } } : State env).trySend h
                (record showType c' r a nowMs elapsedMs)) := by
            simp [step, hHandler, hCall', hPhase, hEnabled, hFirst']
          refine ⟨_, hNext, ?_⟩
          rw [record_alike hAlike,
            trySend_alike (s.calls.set h { c with logged := true })
              (calls.set h { c' with logged := true })]
          rcases trySend_cases ({ s with calls := s.calls.set h { c with logged := true } } : State env)
            h (record showType c r a nowMs elapsedMs) with ⟨-, -, hEq⟩ | ⟨-, hEq⟩
          · rw [hEq]
            exact ⟨rfl, Indexed.forall₂_set hCalls hMarked h, hOff⟩
          · rw [hEq]
            exact ⟨rfl, Indexed.forall₂_set hCalls hMarked h, hOff⟩
  | createDir ok =>
      cases step_cases hStep with
      | createDir _ hTask hEnabled =>
          refine ⟨({ s with calls := calls } : State env).createDir ok, ?_, ?_⟩
          · simp [step, hTask, hEnabled]
          · cases ok <;> exact ⟨rfl, hCalls, hOff⟩
  | receive nowMs =>
      cases step_cases hStep with
      | @receive r rest w _ hTask hChannel hWrite =>
          refine ⟨{ s with calls := calls, writer := w, channel := rest }, ?_, rfl, hCalls, hOff⟩
          simp only [step, hTask, hChannel]
          exact Option.map_eq_some_iff.mpr ⟨w, hWrite, rfl⟩
  | tick nowMs =>
      cases step_cases hStep with
      | @tick w _ hTask hWrite =>
          refine ⟨{ s with calls := calls, writer := w }, ?_, rfl, hCalls, hOff⟩
          simp only [step, hTask]
          exact Option.map_eq_some_iff.mpr ⟨w, hWrite, rfl⟩
  | segment e =>
      cases step_cases hStep with
      | @segment _ w hTask hWrite =>
          refine ⟨{ s with calls := calls, writer := w }, ?_, rfl, hCalls, hOff⟩
          simp only [step, hTask]
          exact Option.map_eq_some_iff.mpr ⟨w, hWrite, rfl⟩

/-- With the logging of clients off, at the start and by every later
configuration, a run in which other clients ask the same is possible too, and
it leaves the same records, the same segments and the same server. -/
theorem clients_leave_no_trace {cache : Cache.State} {cfg : Config} {list : Blocklist}
    {origins : List (Request env.wire)} {es es' : List Event}
    (hOff : cfg.qlog.logClientIp = false) (hEvents : List.Forall₂ Alike es es')
    (hRun : Machine.run (step showType arrow) (start cache cfg list origins) es = some s) :
    ∃ t, Machine.run (step showType arrow) (start cache cfg list origins) es' = some t ∧
      t.server = s.server ∧ t.lines = s.lines ∧ t.channel = s.channel ∧ t.writer = s.writer ∧
      ∀ line ∈ s.lines, line.record.client = [] := by
  have hStart : (start cache cfg list origins : State env).Alike (start cache cfg list origins) :=
    ⟨rfl, .nil, hOff⟩
  have hStep : ∀ (s t : State env) (e d : Event) (s' : State env), s.Alike t → Alike e d →
      step showType arrow s e = some s' → ∃ t', step showType arrow t d = some t' ∧ s'.Alike t' :=
    fun _ _ _ _ _ => alike_step
  obtain ⟨t, hRun', hAlike⟩ := Machine.run_simulates hStep hStart hEvents hRun
  refine ⟨t, hRun', ?_⟩
  rw [hAlike.rest]
  refine ⟨rfl, rfl, rfl, rfl, fun line hMem => ?_⟩
  obtain ⟨hd, c, r, a, nowMs, elapsedMs, -, hCall, -, hRecord⟩ := (faithful_run hRun).lines line hMem
  obtain ⟨c', -, hBoth⟩ := Indexed.forall₂_partner hAlike.calls.flip hCall
  rw [hRecord]
  simp [record, hBoth.off]

/-- Neither an arrival nor a new configuration. -/
def Event.plain : Event → Bool
  | .arrive _ _ | .server (.setConfig _) => false
  | _ => true

/-- An event that brings no client is like itself. -/
theorem alike_refl {e : Event} (hPlain : e.plain = true) : Alike e e := by
  cases e with
  | arrive data client => simp [Event.plain] at hPlain
  | server e =>
      apply Alike.server
      rintro cfg rfl
      simp [Event.plain] at hPlain
  | log h nowMs elapsedMs => exact .log h nowMs elapsedMs
  | createDir ok => exact .createDir ok
  | receive nowMs => exact .receive nowMs
  | tick nowMs => exact .tick nowMs
  | segment e => exact .segment e

def discreetConfig : Config :=
  { Config.default with qlog := { QlogConfig.default with logClientIp := false } }

/-- The same query from two clients. -/
theorem clients_leave_no_trace_session :
    ∃ s t, Machine.run (step sampleType Qlog.Arrow.numbered)
        (start (Cache.init 100 500000) discreetConfig ⟨∅, ∅⟩ [] : State Server.sampleEnv)
        (session sampleClient) = some s ∧
      Machine.run (step sampleType Qlog.Arrow.numbered)
        (start (Cache.init 100 500000) discreetConfig ⟨∅, ∅⟩ [] : State Server.sampleEnv)
        (session (.v6 ⟨#v[0x2001, 0xdb8, 0, 0, 0, 0, 0, 1]⟩)) = some t ∧
      t.writer = s.writer ∧ s.lines.length = 1 := by
  have hEnd : ((Machine.run (step sampleType Qlog.Arrow.numbered)
      (start (Cache.init 100 500000) discreetConfig ⟨∅, ∅⟩ [] : State Server.sampleEnv)
      (session sampleClient)).map fun s => s.lines.length) = some 1 := by
    decide +kernel
  obtain ⟨s, hRun, hLength⟩ := Option.map_eq_some_iff.mp hEnd
  have hEvents : List.Forall₂ Alike (session sampleClient)
      (session (.v6 ⟨#v[0x2001, 0xdb8, 0, 0, 0, 0, 0, 1]⟩)) := by
    refine .cons (.createDir true) (.cons (.arrive _ _ _) (List.forall₂_same.mpr fun e hMem => ?_))
    have hAll : ((session sampleClient).drop 2).all Event.plain = true := by decide +kernel
    exact alike_refl (List.all_eq_true.mp hAll e hMem)
  obtain ⟨t, hRun', -, -, -, hWriter, -⟩ := clients_leave_no_trace rfl hEvents hRun
  exact ⟨s, t, hRun, hRun', hWriter, hLength⟩

end Logging

end RustDns
