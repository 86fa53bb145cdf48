import RustDns.Library.Framing
import RustDns.Server.Accounting
import RustDns.Server.ResponseSize
import RustDns.Server.Requests

/-! TCP connections over the server: `tcp_conn` reads one length-prefixed
message after another, has each handled, and writes the response behind its
length before it reads the next. -/
namespace RustDns

namespace Tcp

open Server

variable {env : Env}

/-- The length in two bytes, as `as u16` and `to_be_bytes` give it. -/
def lengthPrefix : Framing.LengthPrefix UInt8 where
  width := 2
  bound := 65536
  write := Codec.beBytes 2
  read := Codec.ofBeBytes
  width_pos := by decide
  length_write := fun n => Codec.length_beBytes 2 n
  read_write := fun n hLt => Codec.ofBeBytes_beBytes hLt
  read_lt := fun bytes hLength => by
    have hLt := Codec.ofBeBytes_lt bytes
    rwa [hLength] at hLt
  write_read := fun bytes hLength => by
    have hBytes := Codec.beBytes_ofBeBytes bytes
    rwa [hLength] at hBytes

/-- Where the loop of a connection is. `broken` is a write cut short by the
timeout or an error. -/
inductive ConnPhase where
  | reading
  | handling (h : Nat)
  | closed
  | broken
  deriving DecidableEq

/-- A connection. `sent` and `handled` are kept for the proofs: all the client
has sent, and the handlers of the messages that are done with. -/
structure Conn where
  input : Bytes
  output : Bytes
  phase : ConnPhase
  sent : Bytes
  handled : List Nat

structure World (env : Env) where
  server : State env
  conns : List Conn

inductive Event where
  | datagram (data : Bytes)
  | server (e : Server.Event)
  | connect
  | send (c : Nat) (bytes : Bytes)
  | read (c : Nat)
  | write (c : Nat)
  | abort (c : Nat) (written : Nat)
  | close (c : Nat)

/-- The receive buffer of a UDP worker. -/
def receiveBuffer : Nat := 4096

def setConn (w : World env) (c : Nat) (conn : Conn) : World env :=
  { w with conns := w.conns.set c conn }

/-- What a handler that has returned leaves to be written. -/
def reply (hd : Handler env) : Bytes :=
  match hd.response? with
  | some response => Framing.frame lengthPrefix response
  | none => []

/-- A whole message takes a permit and is handled, or ends the connection. -/
def read (w : World env) (c : Nat) (conn : Conn) : Option (World env) :=
  match Framing.next lengthPrefix conn.input with
  | none => none
  | some (message, rest) =>
      some
        { server := arrive w.server message
          conns := w.conns.set c
            { conn with
              input := rest
              phase :=
                if w.server.inflight = 0 then .closed
                else .handling w.server.handlers.length } }

/-- The call has returned and its permit is back: write what it returned. -/
def write (w : World env) (c : Nat) (conn : Conn) (h : Nat) : Option (World env) :=
  match w.server.handlers[h]? with
  | some hd =>
      if hd.released then
        some (setConn w c
          { conn with
            output := conn.output ++ reply hd
            phase := .reading
            handled := conn.handled ++ [h] })
      else none
  | none => none

def abort (w : World env) (c : Nat) (conn : Conn) (h written : Nat) : Option (World env) :=
  match w.server.handlers[h]? with
  | some hd =>
      if hd.released then
        some (setConn w c
          { conn with
            output := conn.output ++ (reply hd).take written
            phase := .broken })
      else none
  | none => none

/-- A step of the server other than a new message. A restart loses the
connections. -/
def serve (w : World env) (e : Server.Event) : Option (World env) :=
  match e with
  | .arrive _ => none
  | .restart _ _ _ => (Server.step w.server e).map fun server => ⟨server, []⟩
  | _ => (Server.step w.server e).map fun server => { w with server := server }

def step (w : World env) : Event → Option (World env)
  | .datagram data => some { w with server := arrive w.server (data.take receiveBuffer) }
  | .server e => serve w e
  | .connect => some { w with conns := w.conns ++ [⟨[], [], .reading, [], []⟩] }
  | .send c bytes =>
      match w.conns[c]? with
      | some conn =>
          some (setConn w c { conn with input := conn.input ++ bytes, sent := conn.sent ++ bytes })
      | none => none
  | .read c =>
      match w.conns[c]? with
      | some conn =>
          match conn.phase with
          | .reading => read w c conn
          | _ => none
      | none => none
  | .write c =>
      match w.conns[c]? with
      | some conn =>
          match conn.phase with
          | .handling h => write w c conn h
          | _ => none
      | none => none
  | .abort c written =>
      match w.conns[c]? with
      | some conn =>
          match conn.phase with
          | .handling h => abort w c conn h written
          | _ => none
      | none => none
  | .close c =>
      match w.conns[c]? with
      | some conn =>
          match conn.phase with
          | .reading => some (setConn w c { conn with phase := .closed })
          | _ => none
      | none => none

def init (now : UnixTime) (cfg : Config) (list : Blocklist) : World env :=
  ⟨Server.init now cfg list, []⟩

/-- The steps of the world, each with what it finds in the state. -/
inductive Step (w : World env) : Event → World env → Prop where
  | datagram (data : Bytes) :
      Step w (.datagram data) { w with server := arrive w.server (data.take receiveBuffer) }
  | serve {e : Server.Event} {server : State env} (hArrive : ∀ data, e ≠ .arrive data)
      (hAlive : e.restarts = false) (hServer : Server.step w.server e = some server) :
      Step w (.server e) { w with server := server }
  | restart {e : Server.Event} {server : State env} (hArrive : ∀ data, e ≠ .arrive data)
      (hServer : Server.step w.server e = some server) : Step w (.server e) ⟨server, []⟩
  | connect : Step w .connect { w with conns := w.conns ++ [⟨[], [], .reading, [], []⟩] }
  | send {c : Nat} {conn : Conn} (bytes : Bytes) (hConn : w.conns[c]? = some conn) :
      Step w (.send c bytes)
        (setConn w c { conn with input := conn.input ++ bytes, sent := conn.sent ++ bytes })
  | read {c : Nat} {conn : Conn} {w' : World env} (hConn : w.conns[c]? = some conn)
      (hPhase : conn.phase = .reading) (hRead : read w c conn = some w') : Step w (.read c) w'
  | write {c h : Nat} {conn : Conn} {w' : World env} (hConn : w.conns[c]? = some conn)
      (hPhase : conn.phase = .handling h) (hWrite : write w c conn h = some w') :
      Step w (.write c) w'
  | abort {c h written : Nat} {conn : Conn} {w' : World env} (hConn : w.conns[c]? = some conn)
      (hPhase : conn.phase = .handling h) (hAbort : abort w c conn h written = some w') :
      Step w (.abort c written) w'
  | close {c : Nat} {conn : Conn} (hConn : w.conns[c]? = some conn)
      (hPhase : conn.phase = .reading) : Step w (.close c) (setConn w c { conn with phase := .closed })

variable {w w' : World env}

/-- A step of the server leaves the connections. -/
theorem serve_cases {e : Server.Event} (hServe : serve w e = some w') : Step w (.server e) w' := by
  cases e with
  | arrive data => simp [serve] at hServe
  | restart cfg list loaded =>
      simp only [serve] at hServe
      obtain ⟨server, hServer, rfl⟩ := Option.map_eq_some_iff.mp hServe
      exact .restart (by simp) hServer
  | _ =>
      simp only [serve] at hServe
      obtain ⟨server, hServer, rfl⟩ := Option.map_eq_some_iff.mp hServe
      exact .serve (by simp) rfl hServer

/-- What each event of a connection does, and when it can happen. -/
theorem step_cases {e : Event} (hStep : step w e = some w') : Step w e w' := by
  cases e with
  | datagram data =>
      obtain rfl := Option.some.inj hStep
      exact .datagram data
  | server e => exact serve_cases hStep
  | connect =>
      obtain rfl := Option.some.inj hStep
      exact .connect
  | send c bytes =>
      simp only [step] at hStep
      split at hStep <;> [skip; simp at hStep]
      obtain rfl := Option.some.inj hStep
      exact .send bytes ‹_›
  | read c =>
      simp only [step] at hStep
      split at hStep <;> [split at hStep; simp at hStep] <;> [skip; simp at hStep]
      exact .read ‹_› ‹_› hStep
  | write c =>
      simp only [step] at hStep
      split at hStep <;> [split at hStep; simp at hStep] <;> [skip; simp at hStep]
      exact .write ‹_› ‹_› hStep
  | abort c written =>
      simp only [step] at hStep
      split at hStep <;> [split at hStep; simp at hStep] <;> [skip; simp at hStep]
      exact .abort ‹_› ‹_› hStep
  | close c =>
      simp only [step] at hStep
      split at hStep <;> [split at hStep; simp at hStep] <;> [skip; simp at hStep]
      obtain rfl := Option.some.inj hStep
      exact .close ‹_› ‹_›

/-- Reading takes one whole framed message off the input and hands it to a new
handler. -/
theorem read_cases {c : Nat} {conn : Conn} (hRead : read w c conn = some w') :
    ∃ message rest, conn.input = Framing.frame lengthPrefix message ++ rest ∧
      message.length < 65536 ∧
      w' =
        { server := arrive w.server message
          conns := w.conns.set c
            { conn with
              input := rest
              phase :=
                if w.server.inflight = 0 then .closed
                else .handling w.server.handlers.length } } := by
  unfold read at hRead
  split at hRead
  · simp at hRead
  · rename_i message rest hNext
    obtain ⟨hInput, hLength⟩ := Framing.stream_of_next hNext
    exact ⟨message, rest, hInput, hLength, (Option.some.inj hRead).symm⟩

/-- Writing appends the reply of the handler whose permit is back. -/
theorem write_cases {c h : Nat} {conn : Conn} (hWrite : write w c conn h = some w') :
    ∃ hd, w.server.handlers[h]? = some hd ∧ hd.released = true ∧
      w' = setConn w c
        { conn with
          output := conn.output ++ reply hd
          phase := .reading
          handled := conn.handled ++ [h] } := by
  unfold write at hWrite
  split at hWrite
  · rename_i hd hHandler
    split at hWrite
    · rename_i hReleased
      exact ⟨hd, hHandler, hReleased, (Option.some.inj hWrite).symm⟩
    · simp at hWrite
  · simp at hWrite

/-- A connection that is aborted is broken, whatever has been written of the
reply. -/
theorem abort_cases {c h written : Nat} {conn : Conn} (hAbort : abort w c conn h written = some w') :
    ∃ output, w' = setConn w c { conn with output := output, phase := .broken } := by
  unfold abort at hAbort
  split at hAbort
  · split at hAbort
    · exact ⟨_, (Option.some.inj hAbort).symm⟩
    · simp at hAbort
  · simp at hAbort

/-- The message of a handler. -/
def message (s : State env) (h : Nat) : Option Bytes := s.handlers[h]?.map Handler.data

/-- What `handle` returned for a message, if it answered. -/
def response (s : State env) (h : Nat) : Option Bytes := s.handlers[h]?.bind Handler.response?

/-- What holds of the server under its listeners. -/
structure Healthy (s : State env) : Prop where
  sound : Sound s
  short : Short s
  settled : Settled s
  traced : Traced (fun data => data.length < 65536) s

/-- The handlers of all messages read so far, the last one perhaps still at
work. -/
def Conn.taken (conn : Conn) : List Nat :=
  match conn.phase with
  | .handling h => conn.handled ++ [h]
  | _ => conn.handled

/-- The connection against the handlers of its messages. -/
structure Conn.Good (s : State env) (conn : Conn) : Prop where
  handled : ∀ h ∈ conn.handled, ∃ hd, s.handlers[h]? = some hd ∧ hd.released = true
  taken : ∀ h ∈ conn.taken, ∃ hd, s.handlers[h]? = some hd
  output : conn.phase ≠ .broken →
    conn.output = (conn.handled.filterMap (response s)).flatMap (Framing.frame lengthPrefix)
  input : conn.phase ≠ .closed → conn.phase ≠ .broken →
    conn.sent =
      (conn.taken.filterMap (message s)).flatMap (Framing.frame lengthPrefix) ++ conn.input

variable {s s' : State env}

/-- A step keeps the server healthy as long as messages are short enough to be
framed. -/
theorem healthy_step {e : Server.Event} (hHealthy : Healthy s)
    (hArrive : ∀ data, e = .arrive data → data.length < 65536)
    (hStep : Server.step s e = some s') : Healthy s' where
  sound := sound_step hHealthy.sound hStep
  short := short_step hHealthy.sound hHealthy.short hStep
  settled := settled_step hHealthy.settled hStep
  traced := by
    have hBrings : e.Brings fun data => data.length < 65536 := by
      cases e <;> first | trivial | exact hArrive _ rfl
    exact (traced_step ⟨hHealthy.sound, hHealthy.traced⟩ hBrings hStep).2

/-- The server goes on and the connection does not notice. -/
theorem Conn.Good.step {e : Server.Event} {conn : Conn} (hGood : conn.Good s)
    (hSettled : Settled s) (hAlive : e.restarts = false) (hStep : Server.step s e = some s') :
    conn.Good s' := by
  have hMessages : conn.taken.filterMap (message s') = conn.taken.filterMap (message s) := by
    refine List.filterMap_congr fun h hMem => ?_
    obtain ⟨hd, hHandler⟩ := hGood.taken h hMem
    obtain ⟨hd', hHandler', hData, -⟩ := handler_of_step hSettled hAlive hHandler hStep
    simp [message, hHandler, hHandler', hData]
  have hResponses : conn.handled.filterMap (response s') = conn.handled.filterMap (response s) := by
    refine List.filterMap_congr fun h hMem => ?_
    obtain ⟨hd, hHandler, hReleased⟩ := hGood.handled h hMem
    obtain ⟨hd', hHandler', -, hSame⟩ := handler_of_step hSettled hAlive hHandler hStep
    simp [response, hHandler, hHandler', hSame hReleased]
  refine ⟨fun h hMem => ?_, fun h hMem => ?_, ?_, ?_⟩
  · obtain ⟨hd, hHandler, hReleased⟩ := hGood.handled h hMem
    obtain ⟨hd', hHandler', -, hSame⟩ := handler_of_step hSettled hAlive hHandler hStep
    exact ⟨hd', hHandler', hSame hReleased ▸ hReleased⟩
  · obtain ⟨hd, hHandler⟩ := hGood.taken h hMem
    obtain ⟨hd', hHandler', -⟩ := handler_of_step hSettled hAlive hHandler hStep
    exact ⟨hd', hHandler'⟩
  · rw [hResponses]
    exact hGood.output
  · rw [hMessages]
    exact hGood.input

/-- A new connection has nothing to show. -/
theorem good_new (s : State env) : Conn.Good s ⟨[], [], .reading, [], []⟩ where
  handled := by simp
  taken := by simp [Conn.taken]
  output := fun _ => rfl
  input := fun _ _ => rfl

/-- Bytes from the client are appended to the input. -/
theorem good_send {conn : Conn} (bytes : Bytes) (hGood : conn.Good s) :
    Conn.Good s { conn with input := conn.input ++ bytes, sent := conn.sent ++ bytes } where
  handled := hGood.handled
  taken := hGood.taken
  output := hGood.output
  input := fun hClosed hBroken => by
    have hInput := hGood.input hClosed hBroken
    change conn.sent ++ bytes = _ ++ (conn.input ++ bytes)
    rw [hInput, List.append_assoc]
    rfl

/-- A message that is read is the next frame of the input. -/
theorem good_read {conn : Conn} {data rest : Bytes} (hGood : conn.Good s)
    (hSettled : Settled s) (hPhase : conn.phase = .reading)
    (hInput : conn.input = Framing.frame lengthPrefix data ++ rest) :
    Conn.Good (arrive s data)
      { conn with
        input := rest
        phase := if s.inflight = 0 then .closed else .handling s.handlers.length } := by
  have hLater : conn.Good (arrive s data) :=
    hGood.step (e := .arrive data) hSettled rfl rfl
  have hTaken : conn.taken = conn.handled := by simp [Conn.taken, hPhase]
  have hSent := hLater.input (by simp [hPhase]) (by simp [hPhase])
  have hOutput := hLater.output (by simp [hPhase])
  split
  case isTrue hFull =>
    exact
      { handled := hLater.handled
        taken := fun h hMem => hLater.taken h (by rw [hTaken]; exact hMem)
        output := fun _ => hOutput
        input := fun hClosed _ => absurd rfl hClosed }
  case isFalse hFree =>
    have hNew : (arrive s data).handlers[s.handlers.length]? =
        some ⟨data, .arrived, false⟩ := by
      simp [arrive, hFree]
    refine
      { handled := hLater.handled
        taken := fun h hMem => ?_
        output := fun _ => hOutput
        input := fun _ _ => ?_ }
    · rcases List.mem_append.mp hMem with hOld | hLast
      · exact hLater.taken h (by rw [hTaken]; exact hOld)
      · obtain rfl := List.mem_singleton.mp hLast
        exact ⟨_, hNew⟩
    · change conn.sent = ((conn.handled ++ [s.handlers.length]).filterMap _).flatMap _ ++ rest
      rw [hSent, hTaken, hInput, List.filterMap_append, List.flatMap_append]
      simp [message, hNew]

/-- The response goes out behind its length, or nothing does. -/
theorem good_write {conn : Conn} {h : Nat} {hd : Handler env} (hGood : conn.Good s)
    (hPhase : conn.phase = .handling h) (hHandler : s.handlers[h]? = some hd)
    (hReleased : hd.released = true) :
    Conn.Good s
      { conn with
        output := conn.output ++ reply hd
        phase := .reading
        handled := conn.handled ++ [h] } := by
  have hTaken : conn.taken = conn.handled ++ [h] := by simp [Conn.taken, hPhase]
  refine ⟨fun k hMem => ?_, fun k hMem => ?_, fun _ => ?_, fun _ _ => ?_⟩
  · rcases List.mem_append.mp hMem with hOld | hLast
    · exact hGood.handled k hOld
    · obtain rfl := List.mem_singleton.mp hLast
      exact ⟨hd, hHandler, hReleased⟩
  · exact hGood.taken k (by rw [hTaken]; exact hMem)
  · have hOutput := hGood.output (by simp [hPhase])
    change conn.output ++ reply hd = ((conn.handled ++ [h]).filterMap _).flatMap _
    rw [hOutput, List.filterMap_append, List.flatMap_append, reply]
    cases hResponse : hd.response? with
    | none => simp [response, hHandler, hResponse]
    | some bytes => simp [response, hHandler, hResponse]
  · have hSent := hGood.input (by simp [hPhase]) (by simp [hPhase])
    rw [hTaken] at hSent
    exact hSent

structure Inv (w : World env) : Prop where
  server : Healthy w.server
  conns : ∀ conn ∈ w.conns, conn.Good w.server

/-- Connections stay good when the one that changes is. -/
theorem inv_setConn {c : Nat} {conn : Conn} (hInv : Inv w) (hGood : conn.Good w.server) :
    Inv (setConn w c conn) where
  server := hInv.server
  conns := fun other hMem => by
    rcases List.mem_or_eq_of_mem_set hMem with hOld | rfl
    · exact hInv.conns other hOld
    · exact hGood

/-- The server goes on under its connections. -/
theorem inv_server {e : Server.Event} {server : State env} (hInv : Inv w)
    (hArrive : ∀ data, e = .arrive data → data.length < 65536) (hAlive : e.restarts = false)
    (hServer : Server.step w.server e = some server) : Inv { w with server := server } where
  server := healthy_step hInv.server hArrive hServer
  conns := fun conn hMem => (hInv.conns conn hMem).step hInv.server.settled hAlive hServer

/-- A step of the server or of a connection keeps every connection good. -/
theorem inv_step {e : Event} (hInv : Inv w) (hStep : step w e = some w') : Inv w' := by
  cases step_cases hStep with
  | datagram data =>
      refine inv_server (e := .arrive (data.take receiveBuffer)) hInv ?_ rfl rfl
      intro bytes hEvent
      obtain rfl := Server.Event.arrive.inj hEvent
      simp only [List.length_take, receiveBuffer]
      omega
  | serve hArrive hAlive hServer =>
      exact inv_server hInv (fun data hEvent => absurd hEvent (hArrive data)) hAlive hServer
  | restart hArrive hServer =>
      exact ⟨healthy_step hInv.server (fun data hEvent => absurd hEvent (hArrive data)) hServer,
        by simp⟩
  | connect =>
      refine ⟨hInv.server, fun conn hMem => ?_⟩
      rcases List.mem_append.mp hMem with hOld | hNew
      · exact hInv.conns conn hOld
      · obtain rfl := List.mem_singleton.mp hNew
        exact good_new w.server
  | send bytes hConn =>
      exact inv_setConn hInv (good_send bytes (hInv.conns _ (List.mem_of_getElem? hConn)))
  | read hConn hPhase hRead =>
      obtain ⟨data, rest, hInput, hLength, rfl⟩ := read_cases hRead
      have hServer : Inv { w with server := arrive w.server data } := by
        refine inv_server (e := .arrive data) hInv (fun bytes hEvent => ?_) rfl rfl
        obtain rfl := Server.Event.arrive.inj hEvent
        exact hLength
      have hGood := hInv.conns _ (List.mem_of_getElem? hConn)
      exact inv_setConn hServer (good_read hGood hInv.server.settled hPhase hInput)
  | write hConn hPhase hWrite =>
      obtain ⟨hd, hHandler, hReleased, rfl⟩ := write_cases hWrite
      have hGood := hInv.conns _ (List.mem_of_getElem? hConn)
      exact inv_setConn hInv (good_write hGood hPhase hHandler hReleased)
  | abort hConn hPhase hAbort =>
      obtain ⟨output, rfl⟩ := abort_cases hAbort
      have hGood := hInv.conns _ (List.mem_of_getElem? hConn)
      refine inv_setConn hInv ⟨hGood.handled, fun h hMem => ?_, fun hBroken => absurd rfl hBroken,
        fun _ hBroken => absurd rfl hBroken⟩
      obtain ⟨hd, hHandler, -⟩ := hGood.handled h hMem
      exact ⟨hd, hHandler⟩
  | close hConn hPhase =>
      have hGood := hInv.conns _ (List.mem_of_getElem? hConn)
      refine inv_setConn hInv ⟨hGood.handled, fun h hMem => ?_,
        fun _ => hGood.output (by simp [hPhase]), fun hClosed _ => absurd rfl hClosed⟩
      obtain ⟨hd, hHandler, -⟩ := hGood.handled h hMem
      exact ⟨hd, hHandler⟩

/-- A server that has just started has no connections. -/
theorem inv_init (now : UnixTime) (cfg : Config) (list : Blocklist) :
    Inv (init now cfg list : World env) where
  server :=
    { sound := sound_init now cfg list
      short := short_init now cfg list
      settled := by simp [Settled, init, Server.init, boot]
      traced :=
        { handlers := by simp [init, Server.init, boot]
          flights := by simp [init, Server.init, boot]
          leaders := by simp [init, Server.init, boot]
          origins := by simp [init, Server.init, boot] } }
  conns := by simp [init]

/-- Queries go upstream as they came in, so they fit a frame as well. -/
theorem length_of_call (hHealthy : Healthy s) {call : Upstream.Call}
    (hMem : call ∈ s.upstream.calls) : call.query.length < 65536 := by
  obtain ⟨i, hCall⟩ := List.mem_iff_getElem?.mp hMem
  obtain ⟨fl, hFlight, hQuery, -⟩ := Indexed.forall₂_partner hHealthy.sound.flights hCall
  rw [hQuery]
  exact hHealthy.traced.flights fl (List.mem_of_getElem? hFlight)

/-- Every response is short enough to be framed. -/
theorem length_of_response (hFits : BuiltFits env.wire) (hHealthy : Healthy s) {h : Nat}
    {bytes : Bytes} (hResponse : response s h = some bytes) : bytes.length < 65536 := by
  obtain ⟨hd, r, a, hHandler, hPhase, rfl⟩ := answered_of_response? hResponse
  exact length_of_answer hFits hHealthy.sound hHealthy.short (List.mem_of_getElem? hHandler) hPhase

/-- Every message is short enough to be framed. -/
theorem length_of_message (hHealthy : Healthy s) {h : Nat} {bytes : Bytes}
    (hMessage : message s h = some bytes) : bytes.length < 65536 := by
  obtain ⟨hd, hHandler, rfl⟩ := Option.map_eq_some_iff.mp hMessage
  exact (hHealthy.traced.handlers hd (List.mem_of_getElem? hHandler)).1

/-- What a connection has written reads back as the responses to its messages,
in order and with nothing left over, and the messages are those the client has
sent. All responses and all queries sent upstream fit a frame. -/
theorem tcp_stream_framed {now : UnixTime} {cfg : Config} {list : Blocklist} {es : List Event}
    (hFits : BuiltFits env.wire) (hRun : Machine.run step (init now cfg list) es = some w) :
    (∀ conn ∈ w.conns, conn.phase ≠ .broken →
      Framing.parse lengthPrefix conn.output =
        (conn.handled.filterMap (response w.server), [])) ∧
      (∀ conn ∈ w.conns, conn.phase = .reading →
        Framing.next lengthPrefix conn.input = none → ∀ messages : List Bytes,
        (∀ m ∈ messages, m.length < 65536) →
        conn.sent = messages.flatMap (Framing.frame lengthPrefix) →
        conn.handled.filterMap (message w.server) = messages ∧ conn.input = []) ∧
      (∀ h bytes, response w.server h = some bytes → bytes.length ≤ 65535) ∧
      ∀ call ∈ w.server.upstream.calls, call.query.length ≤ 65535 := by
  have hInv := Machine.run_invariant (fun _ _ _ => inv_step) (inv_init now cfg list) hRun
  refine ⟨fun conn hMem hPhase => ?_, fun conn hMem hPhase hNext messages hSmall hSent => ?_,
    fun h bytes hResponse => ?_, fun call hMem => ?_⟩
  · rw [(hInv.conns conn hMem).output hPhase,
      ← List.append_nil (List.flatMap (Framing.frame lengthPrefix) _)]
    refine Framing.parse_frames (fun bytes hBytes => ?_) Framing.next_nil
    obtain ⟨h, -, hResponse⟩ := List.mem_filterMap.mp hBytes
    exact length_of_response hFits hInv.server hResponse
  · have hTaken : conn.taken = conn.handled := by simp [Conn.taken, hPhase]
    have hRead := (hInv.conns conn hMem).input (by simp [hPhase]) (by simp [hPhase])
    rw [hTaken] at hRead
    -- both readings of what was sent are the parser's
    have hOne : Framing.parse lengthPrefix conn.sent =
        (conn.handled.filterMap (message w.server), conn.input) := by
      rw [hRead]
      refine Framing.parse_frames (fun bytes hBytes => ?_) hNext
      obtain ⟨h, -, hMessage⟩ := List.mem_filterMap.mp hBytes
      exact length_of_message hInv.server hMessage
    have hOther : Framing.parse lengthPrefix conn.sent = (messages, []) := by
      rw [hSent, ← List.append_nil (List.flatMap (Framing.frame lengthPrefix) _)]
      exact Framing.parse_frames hSmall Framing.next_nil
    exact Prod.mk.inj (hOne.symm.trans hOther)
  · exact Nat.le_of_lt_succ (length_of_response hFits hInv.server hResponse)
  · exact Nat.le_of_lt_succ (length_of_call hInv.server hMem)

/-- A client sends a query, an empty message and bytes that do not parse. -/
def session : List Event :=
  [.connect,
    .send 0 (Framing.frame lengthPrefix (Exchange.query 1) ++ Framing.frame lengthPrefix []),
    .send 0 (Framing.frame lengthPrefix [1, 2, 3]), .read 0] ++
  ((fetch 1).tail ++ [Server.Event.finish 0]).map Event.server ++
  [.write 0, .read 0, .server (.parse 1), .server (.finish 1), .write 0,
    .read 0, .server (.parse 2), .server (.finish 2), .write 0]

/-- The one response is all that is written. -/
theorem tcp_stream_framed_session :
    ∃ w : World sampleEnv, Machine.run step (init 100 Config.default ⟨∅, ∅⟩) session = some w ∧
      ∃ conn ∈ w.conns, conn.handled = [0, 1, 2] ∧
        Framing.parse lengthPrefix conn.output = ([Exchange.reply 1], []) := by
  have hEnd : ((Machine.run step (init 100 Config.default ⟨∅, ∅⟩ : World sampleEnv) session).map
      fun w => w.conns.map fun conn =>
        (conn.handled, conn.phase, conn.handled.filterMap (response w.server))) =
      some [([0, 1, 2], .reading, [Exchange.reply 1])] := by
    decide +kernel
  have hFits : BuiltFits sampleEnv.wire := by
    refine ⟨fun request query dns => ?_, fun request query => ?_⟩
    · unfold buildBlocked
      dsimp only
      split <;> exact Nat.zero_lt_succ _
    · exact Nat.zero_lt_succ _
  obtain ⟨w, hRun, hConns⟩ := Option.map_eq_some_iff.mp hEnd
  have hMem : ([0, 1, 2], ConnPhase.reading, [Exchange.reply 1]) ∈ w.conns.map fun conn =>
      (conn.handled, conn.phase, conn.handled.filterMap (response w.server)) := by
    rw [hConns]
    exact List.mem_singleton.mpr rfl
  obtain ⟨conn, hConn, hValues⟩ := List.mem_map.mp hMem
  simp only [Prod.mk.injEq] at hValues
  obtain ⟨hHandled, hPhase, hResponses⟩ := hValues
  refine ⟨w, hRun, conn, hConn, hHandled, ?_⟩
  rw [(tcp_stream_framed hFits hRun).1 conn hConn (by simp [hPhase]), hResponses]

end Tcp

end RustDns
