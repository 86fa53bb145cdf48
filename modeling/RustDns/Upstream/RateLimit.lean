import RustDns.Library.Indexed
import RustDns.Library.Run
import RustDns.Upstream.Resolve

/-! The rate limiter against the queries really sent: a call takes one cell,
but it may try several servers, each over UDP and then over TCP. -/
namespace RustDns

namespace Upstream

def TcpAttempt.answer : TcpAttempt → Option Bytes
  | .unsent => none
  | .sent stream => readFrame stream

def TcpAttempt.sends : TcpAttempt → Nat
  | .unsent => 0
  | .sent _ => 1

/-- What `query_udp` returns for the attempt. -/
def Attempt.answer : Attempt → Option Bytes
  | .unsent => none
  | .sent none => none
  | .sent (some (datagram, tcp)) =>
      if truncated (receive datagram) then tcp.answer else some (receive datagram)

/-- The queries an attempt sends over UDP and TCP. -/
def Attempt.sends : Attempt → Nat
  | .unsent => 0
  | .sent none => 1
  | .sent (some (datagram, tcp)) =>
      1 + if truncated (receive datagram) then tcp.sends else 0

theorem Attempt.sends_sent_pos (reply : Option (Bytes × TcpAttempt)) :
    0 < (Attempt.sent reply).sends := by
  cases reply with
  | none => decide
  | some pair =>
      simp only [Attempt.sends]
      omega

section

variable (wire : Wire) (query : Bytes)

def Accepted (answer : Option Bytes) : Bool := answer.any (validResponse wire query)

/-- The queries a call sends on its way through the servers. -/
def totalSends : List Attempt → Nat
  | [] => 0
  | attempt :: rest =>
      attempt.sends + if Accepted wire query attempt.answer then 0 else totalSends rest

/-- The first server that a query can be sent to needs no TCP retry, and it
answers the question or no query can be sent to any server after it. -/
def SingleQuery : List Attempt → Prop
  | [] => True
  | .unsent :: rest => SingleQuery rest
  | .sent reply :: rest =>
      (Attempt.sent reply).sends = 1 ∧
        (Accepted wire query (Attempt.sent reply).answer = true ∨ ∀ attempt ∈ rest, attempt = .unsent)

variable {wire query}

/-- Nothing is sent exactly when no server could be sent to. -/
theorem totalSends_eq_zero_iff {script : List Attempt} :
    totalSends wire query script = 0 ↔ ∀ attempt ∈ script, attempt = .unsent := by
  induction script with
  | nil => simp [totalSends]
  | cons attempt rest ih =>
      cases attempt with
      | unsent => simp [totalSends, Attempt.sends, Attempt.answer, Accepted, ih]
      | sent reply =>
          have hPos := Attempt.sends_sent_pos reply
          simp [totalSends]
          omega

/-- A call sends at most one query exactly when its servers allow it. -/
theorem totalSends_le_one_iff {script : List Attempt} :
    totalSends wire query script ≤ 1 ↔ SingleQuery wire query script := by
  induction script with
  | nil => simp [totalSends, SingleQuery]
  | cons attempt rest ih =>
      cases attempt with
      | unsent => simpa [totalSends, SingleQuery, Attempt.sends, Attempt.answer, Accepted] using ih
      | sent reply =>
          have hPos := Attempt.sends_sent_pos reply
          rw [totalSends, SingleQuery, ← @totalSends_eq_zero_iff wire query]
          cases Accepted wire query (Attempt.sent reply).answer
          · simp
            omega
          · simp
            omega

/-- The queries a call may still send, a granted cell counting as one. -/
def potential (wire : Wire) (call : Call) : Nat :=
  match call.phase with
  | .queued | .permitted | .done _ => 0
  | .granted => 1
  | .trying todo _ => totalSends wire call.query (todo.map Prod.snd)
  | .awaitUdp reply todo =>
      totalSends wire call.query (.sent reply :: todo.map Prod.snd) - 1
  | .connecting tcp todo =>
      tcp.sends + if Accepted wire call.query tcp.answer then 0
        else totalSends wire call.query (todo.map Prod.snd)
  | .awaitTcp stream todo =>
      if Accepted wire call.query (readFrame stream) then 0
      else totalSends wire call.query (todo.map Prod.snd)

/-- A reply that is accepted ends the sending, any other leaves what the rest
will send. -/
theorem potential_settle {policy : TtlPolicy} {now : UnixTime} {reply : Bytes}
    {todo : List (SocketAddr × Attempt)} {phase : Phase}
    (hSettle : settle wire policy now query reply todo = some phase) :
    potential wire ⟨query, phase⟩ =
      if Accepted wire query (some reply) then 0 else totalSends wire query (todo.map Prod.snd) := by
  unfold settle at hSettle
  split at hSettle
  case isTrue hValid =>
    obtain ⟨value, -, rfl⟩ := Option.map_eq_some_iff.mp hSettle
    simp [potential, Accepted, hValid]
  case isFalse hInvalid =>
    obtain rfl := Option.some.inj hSettle
    simp [potential, Accepted, hInvalid]

/-- What a call sends in a step it can no longer send afterwards. -/
theorem potential_advance {policy : TtlPolicy} {now : UnixTime} {phase phase' : Phase}
    {queries : Nat} (hStep : advance wire policy now query phase = some (phase', queries)) :
    potential wire ⟨query, phase'⟩ + queries = potential wire ⟨query, phase⟩ := by
  cases advance_cases hStep with
  | exhausted lastErr => rfl
  | skip server todo lastErr =>
      simp [potential, totalSends, Attempt.sends, Attempt.answer, Accepted]
  | send server reply todo lastErr =>
      have hPos := Attempt.sends_sent_pos reply
      simp only [potential, totalSends, List.map_cons]
      omega
  | timeout todo => simp [potential, totalSends, Attempt.sends, Attempt.answer, Accepted]
  | retry tcp todo hTruncated =>
      simp only [potential, totalSends, Attempt.sends, Attempt.answer, hTruncated, if_true]
      omega
  | datagram tcp hWhole hSettle =>
      rw [potential_settle hSettle]
      simp [potential, totalSends, Attempt.sends, Attempt.answer, hWhole]
  | refused todo => simp [potential, TcpAttempt.sends, TcpAttempt.answer, Accepted]
  | connect stream todo => exact Nat.add_comm _ _
  | broken todo hFrame => simp [potential, hFrame, Accepted]
  | frame hFrame hSettle =>
      rw [potential_settle hSettle]
      simp [potential, hFrame]

/-- A call over a single query has one send ahead of it at most. -/
theorem potential_begin {servers : List SocketAddr} {script : List Attempt} {phase : Phase}
    (hBegin : begin servers script = some phase) (hSingle : SingleQuery wire query script) :
    potential wire ⟨query, phase⟩ ≤ 1 := by
  unfold begin at hBegin
  split at hBegin
  · obtain rfl := Option.some.inj hBegin
    simp [potential]
  · split at hBegin
    case isTrue hLength =>
      obtain rfl := Option.some.inj hBegin
      change totalSends wire query ((servers.zip script).map Prod.snd) ≤ 1
      rw [List.map_snd_zip (by omega)]
      exact totalSends_le_one_iff.mpr hSingle
    case isFalse => simp at hBegin

end

variable (wire : Wire) (policy : TtlPolicy)

/-- One step of the upstream at the clock reading that comes with it. -/
def timedStep (s : State) (e : UnixTime × Event) : Option State := step wire policy e.1 s e.2

/-- A call that loads its servers finds them such that one query is enough or
no second one can be sent. -/
def Answering (s : State) (e : UnixTime × Event) : Prop :=
  ∀ i script, e.2 = .load i script → ∀ call, s.calls[i]? = some call →
    SingleQuery wire call.query script

/-- Queries sent and still to be sent are covered by the cells. -/
def Covered (s : State) : Prop := s.sent + (s.calls.map (potential wire)).sum ≤ s.cells

variable {wire policy}

/-- A step stays covered when what it sends is what its call had ahead, or has a
cell. -/
theorem covered_setPhase {s : State} {i : Nat} {call : Call} {phase : Phase} {sent cells : Nat}
    {permits : Nat} (hCall : s.calls[i]? = some call) (hCovered : Covered wire s)
    (hBound : sent + potential wire ⟨call.query, phase⟩ + s.cells ≤
      s.sent + potential wire call + cells) :
    Covered wire
      (setPhase { s with sent := sent, cells := cells, permits := permits } i call phase) := by
  have hSum := Indexed.sum_map_set (potential wire) ⟨call.query, phase⟩ hCall
  simp only [Covered, setPhase] at hCovered ⊢
  omega

/-- A step leaves every query sent or ahead covered by a cell. -/
theorem covered_step {s s' : State} {e : UnixTime × Event} (hCovered : Covered wire s)
    (hAnswering : Answering wire s e) (hStep : timedStep wire policy s e = some s') :
    Covered wire s' := by
  obtain ⟨now, e⟩ := e
  cases step_cases hStep with
  | setServers servers => exact hCovered
  | resolve query => simpa [Covered, potential] using hCovered
  | acquire hCall => exact covered_setPhase hCall hCovered (by simp [potential])
  | untilReady hCall => exact covered_setPhase hCall hCovered (by simp [potential]; omega)
  | @load i query script phase hCall hBegin =>
      have hSingle := hAnswering i script rfl _ hCall
      have hOne : potential wire ⟨query, phase⟩ ≤ 1 := potential_begin hBegin hSingle
      have hGranted : potential wire ⟨query, .granted⟩ = 1 := rfl
      exact covered_setPhase hCall hCovered (by simp only [hGranted]; omega)
  | @progress i call phase queries hCall hAdvance =>
      have hPotential : potential wire ⟨call.query, phase⟩ + queries = potential wire call :=
        potential_advance hAdvance
      exact covered_setPhase hCall hCovered (by omega)

/-- In every run whose calls find answering servers, the queries sent never
outnumber the cells granted. -/
theorem sent_le_cells {servers : List SocketAddr} {maxConcurrent : UInt64}
    {es : List (UnixTime × Event)} {s : State}
    (hAnswering : Machine.Along (timedStep wire policy) (Answering wire)
      (new servers maxConcurrent) es)
    (hRun : Machine.run (timedStep wire policy) (new servers maxConcurrent) es = some s) :
    s.sent ≤ s.cells := by
  have hStart : Covered wire (new servers maxConcurrent) := by simp [Covered, new]
  have hCovered := Machine.run_invariant_along (fun s e s' => covered_step) hStart hAnswering hRun
  exact Nat.le_trans (Nat.le_add_right _ _) hCovered

def firstServer : SocketAddr := .v4 ⟨#v[192, 0, 2, 53]⟩ 53

def secondServer : SocketAddr := .v4 ⟨#v[198, 51, 100, 53]⟩ 53

/-- One call from its start to its end against two servers. -/
def oneCall (script : List Attempt) : List (UnixTime × Event) :=
  [(0, .resolve (Exchange.query 1)), (0, .acquire 0), (0, .untilReady 0), (0, .load 0 script),
    (0, .progress 0), (0, .progress 0), (0, .progress 0)]

/-- The first server cannot be reached and the second one answers. -/
theorem sent_le_cells_one_answer :
    ∃ s, Machine.run (timedStep Exchange.wire Exchange.policy)
        (new [firstServer, secondServer] 1)
        (oneCall [.unsent, .sent (some (Exchange.reply 1, .unsent))]) = some s ∧
      s.sent ≤ s.cells := by
  have hSome : (Machine.run (timedStep Exchange.wire Exchange.policy)
      (new [firstServer, secondServer] 1)
      (oneCall [.unsent, .sent (some (Exchange.reply 1, .unsent))])).isSome = true := by
    decide +kernel
  obtain ⟨s, hRun⟩ := Option.isSome_iff_exists.mp hSome
  refine ⟨s, hRun, sent_le_cells ?_ hRun⟩
  have hSingle : SingleQuery Exchange.wire (Exchange.query 1)
      [.unsent, .sent (some (Exchange.reply 1, .unsent))] := by
    refine ⟨by decide +kernel, Or.inl (by decide +kernel)⟩
  refine ⟨by simp [Answering], fun s₁ h₁ => ⟨by simp [Answering], fun s₂ h₂ =>
    ⟨by simp [Answering], fun s₃ h₃ => ⟨?_, fun s₄ h₄ => ⟨by simp [Answering], fun s₅ h₅ =>
    ⟨by simp [Answering], fun s₆ h₆ => ⟨by simp [Answering], fun _ _ => trivial⟩⟩⟩⟩⟩⟩⟩
  obtain rfl := Option.some.inj h₁
  obtain rfl := Option.some.inj h₂
  obtain rfl := Option.some.inj h₃
  rintro i script hEvent call hCall
  obtain ⟨rfl, rfl⟩ := Event.load.inj hEvent
  obtain rfl := Option.some.inj hCall
  exact hSingle

/-- Two servers that time out cost two queries for one cell. -/
theorem two_timeouts_exceed_cells :
    ∃ s, Machine.run (timedStep Exchange.wire Exchange.policy)
        (new [firstServer, secondServer] 1) (oneCall [.sent none, .sent none]) = some s ∧
      ¬ s.sent ≤ s.cells := by
  have hCounts : ((Machine.run (timedStep Exchange.wire Exchange.policy)
      (new [firstServer, secondServer] 1) (oneCall [.sent none, .sent none])).map fun s =>
      (s.sent, s.cells)) = some (2, 1) := by
    decide +kernel
  obtain ⟨s, hRun, hMore⟩ := Option.map_eq_some_iff.mp hCounts
  obtain ⟨hSent, hCells⟩ := Prod.mk.inj hMore
  exact ⟨s, hRun, by omega⟩

end Upstream

end RustDns
