import RustDns.Blocklist.Basic
import RustDns.Cache.Layer
import RustDns.Upstream.Resolve

/-! The server: any number of `handle` calls in any interleaving, over one
cache, one upstream and one live blocklist. A call of `handle` is a handler
that moves from phase to phase; concurrent misses of one key share a flight. -/
namespace RustDns

/-- What the server takes from the DNS library. -/
structure Env where
  idna : Idna
  wire : Wire

/-- A message that parses and asks at least one question. Only the first
question is looked at. -/
structure Request (wire : Wire) where
  data : Bytes
  message : Message
  query : Query
  parsed : wire.fromVec data = some message
  first : message.queries.head? = some query

namespace Request

def read (wire : Wire) (data : Bytes) : Option (Request wire) :=
  match hParsed : wire.fromVec data with
  | none => none
  | some message =>
      match hFirst : message.queries.head? with
      | none => none
      | some query => some ⟨data, message, query, hParsed, hFirst⟩

variable {env : Env}

def name (r : Request env.wire) : Str := r.query.name.canonical env.idna

def key (r : Request env.wire) : CacheKey := ⟨r.name, r.query.queryType⟩

end Request

namespace Server

inductive Action where
  | blocked
  | cached
  | forwarded
  | error
  deriving DecidableEq

/-- Where a response comes from: the fill is the accepted reply it stems
from. -/
inductive Source where
  | sinkhole
  | ram (fill : Nat)
  | flight (fill : Option Nat)
  | failure
  deriving DecidableEq

structure Answer where
  action : Action
  response : Bytes
  time : UnixTime
  source : Source

inductive Phase (env : Env) where
  | arrived
  | ignored
  | received (r : Request env.wire) (dns : DnsConfig)
  | unblocked (r : Request env.wire)
  | missed (r : Request env.wire)
  | waiting (r : Request env.wire) (flight : Nat)
  | answered (r : Request env.wire) (answer : Answer)

/-- A call of `handle`. -/
structure Handler (env : Env) where
  data : Bytes
  phase : Phase env
  released : Bool

/-- A running or finished single-flight; the upstream call of the same number
does its work. -/
structure Flight (env : Env) where
  request : Request env.wire
  leader : Nat
  fill : Option Nat

structure Stats where
  queries : Nat
  blocked : Nat
  cacheHits : Nat
  forwarded : Nat
  upstreamErrors : Nat
  dropped : Nat

structure State (env : Env) where
  cache : Cache.State
  upstream : Upstream.State
  config : Config
  policy : TtlPolicy
  blocklist : Blocklist
  /-- Free permits for `handle` calls. -/
  inflight : Nat
  handlers : List (Handler env)
  flights : List (Flight env)
  stats : Stats
  /-- The requests behind the fills, kept for the proofs. -/
  origins : List (Request env.wire)

inductive Event where
  | arrive (data : Bytes)
  | parse (h : Nat)
  | check (h : Nat)
  | lookup (h : Nat)
  | join (h : Nat)
  | deliver (h : Nat)
  | finish (h : Nat)
  | upstream (e : Upstream.Event)
  | cache (e : Cache.Event)
  | setBlocklist (list : Blocklist)
  | setConfig (cfg : Config)
  | restart (cfg : Config) (list : Blocklist) (loaded : Bool)

/-- The process ends and starts anew. -/
def Event.restarts : Event → Bool
  | .restart _ _ _ => true
  | _ => false

variable {env : Env}

def Stats.zero : Stats := ⟨0, 0, 0, 0, 0, 0⟩

/-- `main` on a given cache: everything but the store starts anew. -/
def boot (cache : Cache.State) (cfg : Config) (list : Blocklist)
    (origins : List (Request env.wire)) : State env where
  cache := cache
  upstream := Upstream.new cfg.upstreamAddrs cfg.upstream.maxConcurrent
  config := cfg
  policy := cfg.cache.policy
  blocklist := list
  inflight := max cfg.dns.maxInflight.toNat 1
  handlers := []
  flights := []
  stats := Stats.zero
  origins := origins

def init (now : UnixTime) (cfg : Config) (list : Blocklist) : State env :=
  boot (Cache.init now cfg.cache.maxEntries.toNat) cfg list []

def setHandler (s : State env) (h : Nat) (hd : Handler env) : State env :=
  { s with handlers := s.handlers.set h hd }

/-- A message takes a permit or is dropped. -/
def arrive (s : State env) (data : Bytes) : State env :=
  if s.inflight = 0 then { s with stats := { s.stats with dropped := s.stats.dropped + 1 } }
  else
    { s with
      inflight := s.inflight - 1
      handlers := s.handlers ++ [⟨data, .arrived, false⟩] }

def parse (s : State env) (h : Nat) (hd : Handler env) : State env :=
  match Request.read env.wire hd.data with
  | none => setHandler s h { hd with phase := .ignored }
  | some r =>
      { setHandler s h { hd with phase := .received r s.config.dns } with
        stats := { s.stats with queries := s.stats.queries + 1 } }

def check (s : State env) (h : Nat) (hd : Handler env) (r : Request env.wire) (dns : DnsConfig) :
    State env :=
  if s.blocklist.isBlocked r.name then
    { setHandler s h
        { hd with
          phase := .answered r
            ⟨.blocked, buildBlocked env.wire r.message r.query dns, s.cache.clock, .sinkhole⟩ } with
      stats := { s.stats with blocked := s.stats.blocked + 1 } }
  else setHandler s h { hd with phase := .unblocked r }

/-- A response from memory with the transaction id of the request. -/
def serve (s : State env) (action : Action) (r : Request env.wire) (e : Cache.Entry) : Answer :=
  ⟨action, patchId e.value.wire r.message.id, s.cache.clock, .ram e.fill⟩

/-- `cache.get`. -/
def lookup (s : State env) (h : Nat) (hd : Handler env) (r : Request env.wire) : State env :=
  match Cache.get s.cache r.key with
  | some e =>
      { setHandler s h { hd with phase := .answered r (serve s .cached r e) } with
        stats := { s.stats with cacheHits := s.stats.cacheHits + 1 } }
  | none => setHandler s h { hd with phase := .missed r }

/-- The flight for a key whose call has not ended. -/
def openFlight (s : State env) (key : CacheKey) : Option Nat :=
  (List.range s.flights.length).find? fun i =>
    s.flights[i]?.any (fun f => f.request.key == key) &&
      s.upstream.calls[i]?.any fun call => !call.phase.isDone

/-- `try_get_with`: take what is in memory after all, wait for the flight of
the key, or start one. -/
def join (s : State env) (h : Nat) (hd : Handler env) (r : Request env.wire) : State env :=
  match Cache.get s.cache r.key with
  | some e =>
      { setHandler s h { hd with phase := .answered r (serve s .forwarded r e) } with
        stats := { s.stats with forwarded := s.stats.forwarded + 1 } }
  | none =>
      match openFlight s r.key with
      | some i => setHandler s h { hd with phase := .waiting r i }
      | none =>
          { setHandler s h { hd with phase := .waiting r s.flights.length } with
            flights := s.flights ++ [⟨r, h, none⟩]
            upstream := { s.upstream with calls := s.upstream.calls ++ [⟨r.data, .queued⟩] } }

/-- The result of a flight reaches one of the handlers that wait for it. -/
def deliver (s : State env) (h : Nat) (hd : Handler env) (r : Request env.wire) (i : Nat) :
    Option (State env) :=
  match s.flights[i]?, s.upstream.calls[i]? with
  | some f, some ⟨_, .done (.ok value)⟩ =>
      some
        { setHandler s h
            { hd with
              phase := .answered r
                ⟨.forwarded, patchId value.wire r.message.id, s.cache.clock, .flight f.fill⟩ } with
          stats := { s.stats with forwarded := s.stats.forwarded + 1 } }
  | some _, some ⟨_, .done (.error _)⟩ =>
      some
        { setHandler s h
            { hd with
              phase := .answered r
                ⟨.error, buildResponseCode env.wire r.message r.query .servFail, s.cache.clock,
                  .failure⟩ } with
          stats := { s.stats with upstreamErrors := s.stats.upstreamErrors + 1 } }
  | _, _ => none

/-- The response is sent and the permit returned. -/
def finish (s : State env) (h : Nat) (hd : Handler env) : Option (State env) :=
  match hd.phase, hd.released with
  | .ignored, false | .answered _ _, false =>
      some { setHandler s h { hd with released := true } with inflight := s.inflight + 1 }
  | _, _ => none

/-- A call that has just succeeded fills the cache for its flight. -/
def land (s : State env) (i : Nat) : State env :=
  match s.flights[i]?, s.upstream.calls[i]? with
  | some f, some ⟨_, .done (.ok value)⟩ =>
      { s with
        cache := Cache.fill s.cache f.request.key value
        flights := s.flights.set i { f with fill := some s.cache.fills.length }
        origins := s.origins ++ [f.request] }
  | _, _ => s

/-- A step of the upstream; calls are started by flights only. -/
def forward (s : State env) (e : Upstream.Event) : Option (State env) :=
  match e with
  | .resolve _ => none
  | .load i _ | .progress i =>
      (Upstream.step env.wire s.policy s.cache.clock s.upstream e).map fun upstream =>
        land { s with upstream := upstream } i
  | _ =>
      (Upstream.step env.wire s.policy s.cache.clock s.upstream e).map fun upstream =>
        { s with upstream := upstream }

/-- A step of the cache layer on its own; fills and restarts come from the
server. -/
def background (s : State env) (e : Cache.Event) : Option (State env) :=
  match e with
  | .fill _ _ _ | .restart _ _ => none
  | _ => (Cache.step env.wire s.cache e).map fun cache => { s with cache := cache }

def step (s : State env) : Event → Option (State env)
  | .arrive data => some (arrive s data)
  | .parse h =>
      match s.handlers[h]? with
      | some hd =>
          match hd.phase with
          | .arrived => some (parse s h hd)
          | _ => none
      | none => none
  | .check h =>
      match s.handlers[h]? with
      | some hd =>
          match hd.phase with
          | .received r dns => some (check s h hd r dns)
          | _ => none
      | none => none
  | .lookup h =>
      match s.handlers[h]? with
      | some hd =>
          match hd.phase with
          | .unblocked r => some (lookup s h hd r)
          | _ => none
      | none => none
  | .join h =>
      match s.handlers[h]? with
      | some hd =>
          match hd.phase with
          | .missed r => some (join s h hd r)
          | _ => none
      | none => none
  | .deliver h =>
      match s.handlers[h]? with
      | some hd =>
          match hd.phase with
          | .waiting r i => deliver s h hd r i
          | _ => none
      | none => none
  | .finish h =>
      match s.handlers[h]? with
      | some hd => finish s h hd
      | none => none
  | .upstream e => forward s e
  | .cache e => background s e
  | .setBlocklist list => some { s with blocklist := list }
  | .setConfig cfg => some { s with config := cfg }
  | .restart cfg list loaded =>
      some (boot (Cache.restart s.cache cfg.cache.maxEntries.toNat loaded) cfg list s.origins)

/-- The steps of the server, each with what it finds in the state. -/
inductive Step (s : State env) : Event → State env → Prop where
  | arrive (data : Bytes) : Step s (.arrive data) (arrive s data)
  | parse {h : Nat} {hd : Handler env} (hHandler : s.handlers[h]? = some hd)
      (hPhase : hd.phase = .arrived) : Step s (.parse h) (parse s h hd)
  | check {h : Nat} {hd : Handler env} {r : Request env.wire} {dns : DnsConfig}
      (hHandler : s.handlers[h]? = some hd) (hPhase : hd.phase = .received r dns) :
      Step s (.check h) (check s h hd r dns)
  | lookup {h : Nat} {hd : Handler env} {r : Request env.wire}
      (hHandler : s.handlers[h]? = some hd) (hPhase : hd.phase = .unblocked r) :
      Step s (.lookup h) (lookup s h hd r)
  | join {h : Nat} {hd : Handler env} {r : Request env.wire}
      (hHandler : s.handlers[h]? = some hd) (hPhase : hd.phase = .missed r) :
      Step s (.join h) (join s h hd r)
  | deliver {h : Nat} {hd : Handler env} {r : Request env.wire} {i : Nat} {s' : State env}
      (hHandler : s.handlers[h]? = some hd) (hPhase : hd.phase = .waiting r i)
      (hDeliver : deliver s h hd r i = some s') : Step s (.deliver h) s'
  | finish {h : Nat} {hd : Handler env} {s' : State env} (hHandler : s.handlers[h]? = some hd)
      (hFinish : finish s h hd = some s') : Step s (.finish h) s'
  | upstream {e : Upstream.Event} {s' : State env} (hForward : forward s e = some s') :
      Step s (.upstream e) s'
  | cache {e : Cache.Event} {s' : State env} (hBackground : background s e = some s') :
      Step s (.cache e) s'
  | setBlocklist (list : Blocklist) : Step s (.setBlocklist list) { s with blocklist := list }
  | setConfig (cfg : Config) : Step s (.setConfig cfg) { s with config := cfg }
  | restart (cfg : Config) (list : Blocklist) (loaded : Bool) :
      Step s (.restart cfg list loaded)
        (boot (Cache.restart s.cache cfg.cache.maxEntries.toNat loaded) cfg list s.origins)

/-- What each event does, and when it can happen. -/
theorem step_cases {s s' : State env} {e : Event} (hStep : step s e = some s') : Step s e s' := by
  cases e with
  | arrive data =>
      obtain rfl := Option.some.inj hStep
      exact .arrive data
  | parse h =>
      simp only [step] at hStep
      split at hStep <;> [split at hStep; simp at hStep] <;> [skip; simp at hStep]
      obtain rfl := Option.some.inj hStep
      exact .parse ‹_› ‹_›
  | check h =>
      simp only [step] at hStep
      split at hStep <;> [split at hStep; simp at hStep] <;> [skip; simp at hStep]
      obtain rfl := Option.some.inj hStep
      exact .check ‹_› ‹_›
  | lookup h =>
      simp only [step] at hStep
      split at hStep <;> [split at hStep; simp at hStep] <;> [skip; simp at hStep]
      obtain rfl := Option.some.inj hStep
      exact .lookup ‹_› ‹_›
  | join h =>
      simp only [step] at hStep
      split at hStep <;> [split at hStep; simp at hStep] <;> [skip; simp at hStep]
      obtain rfl := Option.some.inj hStep
      exact .join ‹_› ‹_›
  | deliver h =>
      simp only [step] at hStep
      split at hStep <;> [split at hStep; simp at hStep] <;> [skip; simp at hStep]
      exact .deliver ‹_› ‹_› hStep
  | finish h =>
      simp only [step] at hStep
      split at hStep <;> [skip; simp at hStep]
      exact .finish ‹_› hStep
  | upstream e => exact .upstream hStep
  | cache e => exact .cache hStep
  | setBlocklist list =>
      obtain rfl := Option.some.inj hStep
      exact .setBlocklist list
  | setConfig cfg =>
      obtain rfl := Option.some.inj hStep
      exact .setConfig cfg
  | restart cfg list loaded =>
      obtain rfl := Option.some.inj hStep
      exact .restart cfg list loaded

/-- The two ways a result of a flight is delivered. -/
theorem deliver_cases {s s' : State env} {h : Nat} {hd : Handler env} {r : Request env.wire}
    {i : Nat} (hDeliver : deliver s h hd r i = some s') :
    (∃ f query value, s.flights[i]? = some f ∧
      s.upstream.calls[i]? = some ⟨query, .done (.ok value)⟩ ∧
      s' = { setHandler s h
              { hd with
                phase := .answered r
                  ⟨.forwarded, patchId value.wire r.message.id, s.cache.clock, .flight f.fill⟩ } with
            stats := { s.stats with forwarded := s.stats.forwarded + 1 } }) ∨
    s' = { setHandler s h
            { hd with
              phase := .answered r
                ⟨.error, buildResponseCode env.wire r.message r.query .servFail, s.cache.clock,
                  .failure⟩ } with
          stats := { s.stats with upstreamErrors := s.stats.upstreamErrors + 1 } } := by
  unfold deliver at hDeliver
  split at hDeliver
  · rename_i f query value hFlight hCall
    exact Or.inl ⟨f, query, value, hFlight, hCall, (Option.some.inj hDeliver).symm⟩
  · exact Or.inr (Option.some.inj hDeliver).symm
  · simp at hDeliver

/-- Finishing returns the permit and leaves the rest. -/
theorem finish_cases {s s' : State env} {h : Nat} {hd : Handler env}
    (hFinish : finish s h hd = some s') :
    s' = { setHandler s h { hd with released := true } with inflight := s.inflight + 1 } := by
  unfold finish at hFinish
  split at hFinish
  · exact (Option.some.inj hFinish).symm
  · exact (Option.some.inj hFinish).symm
  · simp at hFinish

/-- The exchange of the sample messages, whose names need no decoding. -/
def sampleEnv : Env := ⟨Idna.never, Exchange.wire⟩

/-- A miss from arrival to answer: the first server replies. -/
def fetch (qclass : UInt8) : List Event :=
  [.arrive (Exchange.query qclass), .parse 0, .check 0, .lookup 0, .join 0,
    .upstream (.acquire 0), .upstream (.untilReady 0),
    .upstream (.load 0 [.sent (some (Exchange.reply qclass, .unsent)), .unsent]),
    .upstream (.progress 0), .upstream (.progress 0), .deliver 0]

/-- A second client asks for the same name and type. -/
def askAgain (qclass : UInt8) : List Event :=
  [.arrive (Exchange.query qclass), .parse 1, .check 1, .lookup 1]

def firstState : State sampleEnv := init 100 Config.default ⟨∅, ∅⟩

end Server

end RustDns
