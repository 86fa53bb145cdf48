import RustDns.Dns.CanonicalName
import RustDns.Server.Requests

/-! One cache key, one question: when an answer made for one request may be
served to another. -/
namespace RustDns

namespace Server

variable {env : Env}

/-- The requests put the same question in the same way. -/
structure Agrees (r r' : Request env.wire) : Prop where
  name : r.query.name.eqIgnoreCase r'.query.name = true
  queryType : r.query.queryType = r'.query.queryType
  queryClass : r.query.queryClass = r'.query.queryClass
  opCode : r.message.opCode = r'.message.opCode
  recursionDesired : r.message.recursionDesired = r'.message.recursionDesired

/-- Every answer from memory or from a flight is the reply to a request that
agrees with the one it answers. -/
def KeySound (s : State env) : Prop :=
  ∀ hd ∈ s.handlers, ∀ r a, hd.phase = .answered r a →
    a.action = .cached ∨ a.action = .forwarded →
    ∃ n o f, (a.source = .ram n ∨ a.source = .flight (some n)) ∧ s.origins[n]? = some o ∧
      s.cache.fills[n]? = some f ∧ validResponse env.wire o.data f.value.wire = true ∧
      a.response = patchId f.value.wire r.message.id ∧ Agrees o r

/-- What the cache key leaves out: requests with one key have the class, the
opcode and the recursion flag in common, and names are printed so that they
can be told apart: a label with the IDNA prefix is of ASCII bytes without a dot. -/
structure KeyDetermines (env : Env) (asked : Bytes → Prop) : Prop where
  onePiece : ∀ r : Request env.wire, asked r.data → r.query.name.OnePiece
  uniform : ∀ r r' : Request env.wire, asked r.data → asked r'.data → r.key = r'.key →
    r.query.queryClass = r'.query.queryClass ∧ r.message.opCode = r'.message.opCode ∧
      r.message.recursionDesired = r'.message.recursionDesired

/-- Requests that share a key agree on the question, where keys tell questions
apart. -/
theorem agrees_of_key_eq (hIdna : env.idna.Standard) {asked : Bytes → Prop}
    (hKeys : KeyDetermines env asked) {r r' : Request env.wire} (hAsked : asked r.data) (hAsked' : asked r'.data)
    (hKey : r.key = r'.key) : Agrees r r' := by
  obtain ⟨hName, hType⟩ := CacheKey.mk.inj hKey
  obtain ⟨hClass, hOpCode, hRecursion⟩ := hKeys.uniform r r' hAsked hAsked' hKey
  have hLabels := Name.canonical_injective hIdna (hKeys.onePiece r hAsked)
    (hKeys.onePiece r' hAsked') hName
  exact ⟨by simp [Name.eqIgnoreCase, hLabels], hType, hClass, hOpCode, hRecursion⟩

/-- The fill behind an answer that was not made up by the server. -/
theorem fill_of_answer {fills : List Cache.Fill} {r : Request env.wire} {a : Answer}
    (hSound : a.Sound fills r) (hAction : a.action = .cached ∨ a.action = .forwarded) :
    ∃ n f, (a.source = .ram n ∨ a.source = .flight (some n)) ∧
      StemsFrom fills r a.response n f := by
  unfold Answer.Sound at hSound
  split at hSound
  · simp [hSound] at hAction
  · simp [hSound] at hAction
  · rename_i n hSource
    obtain ⟨f, hStems, -⟩ := hSound
    exact ⟨n, f, Or.inl hSource, hStems⟩
  · rename_i m hSource
    obtain ⟨n, f, rfl, hStems⟩ := hSound
    exact ⟨n, f, Or.inr hSource, hStems⟩

/-- In every run whose messages are determined by their cache keys, nobody is
served the answer to another question, if the IDNA decoder keeps to its standard. -/
theorem served_request_agrees {now : UnixTime} {cfg : Config} {list : Blocklist} {es : List Event}
    {s : State env} (hIdna : env.idna.Standard)
    (hKeys : KeyDetermines env fun data => Event.arrive data ∈ es)
    (hRun : Machine.run step (init now cfg list) es = some s) : KeySound s := by
  have hBrings : ∀ e ∈ es, e.Brings fun data => Event.arrive data ∈ es :=
    fun e hMem => by cases e <;> trivial
  obtain ⟨hSound, hTraced⟩ := traced_run hBrings hRun
  intro hd hMem r a hPhase hAction
  obtain ⟨hAsked, hData⟩ := hTraced.handlers hd hMem
  rw [Handler.Traced, hPhase] at hData
  have hAnswer := hSound.handlers hd hMem
  rw [hPhase] at hAnswer
  obtain ⟨n, f, hSource, hFill, hKey, hResponse⟩ := fill_of_answer hAnswer hAction
  obtain ⟨o, hOrigin, hOriginKey, hValid⟩ := Indexed.forall₂_partner hSound.origins hFill
  have hOriginAsked := hTraced.origins o (List.mem_of_getElem? hOrigin)
  refine ⟨n, o, f, hSource, hOrigin, hFill, hValid, hResponse, ?_⟩
  exact agrees_of_key_eq hIdna hKeys hOriginAsked (hData ▸ hAsked) (hOriginKey.trans hKey)

/-- The one message of the exchange that asks a question, as it is read. -/
theorem read_query_one {r : Request sampleEnv.wire} (hData : r.data = Exchange.query 1) :
    r.message = Exchange.queryMessage 1 := by
  have hParsed := r.parsed
  rw [hData] at hParsed
  exact (Option.some.inj hParsed).symm

/-- Two clients of the same class share one answer. -/
theorem served_same_class :
    ∃ s, Machine.run step firstState (fetch 1 ++ askAgain 1) = some s ∧ KeySound s := by
  have hSome : (Machine.run step firstState (fetch 1 ++ askAgain 1)).isSome = true := by
    decide +kernel
  obtain ⟨s, hRun⟩ := Option.isSome_iff_exists.mp hSome
  have hAsked : ∀ data, Event.arrive data ∈ fetch 1 ++ askAgain 1 → data = Exchange.query 1 := by
    simp [fetch, askAgain]
  have hFirst : ∀ r : Request sampleEnv.wire, Event.arrive r.data ∈ fetch 1 ++ askAgain 1 →
      r.message = Exchange.queryMessage 1 ∧ r.query = ⟨Exchange.name, RecordType.a, 1⟩ := by
    intro r hr
    have hMessage := read_query_one (hAsked _ hr)
    have hQuery := r.first
    rw [hMessage] at hQuery
    exact ⟨hMessage, (Option.some.inj hQuery).symm⟩
  refine ⟨s, hRun, served_request_agrees Idna.standard_never ⟨fun r hr => ?_, fun r r' hr hr' _ => ?_⟩ hRun⟩
  · rw [(hFirst r hr).2]
    rintro l hl ⟨rest, hRest⟩
    obtain rfl : l = [97] := by simpa [Exchange.name] using hl
    simp [Label.idnaPrefix] at hRest
  · obtain ⟨hMessage, hQuery⟩ := hFirst r hr
    obtain ⟨hMessage', hQuery'⟩ := hFirst r' hr'
    rw [hMessage, hMessage', hQuery, hQuery']
    exact ⟨rfl, rfl, rfl⟩

/-- The action and the class of an answered request. -/
def Handler.outcome {env : Env} (hd : Handler env) : Option (Action × UInt16) :=
  match hd.phase with
  | .answered r a => some (a.action, r.query.queryClass)
  | _ => none

/-- A client of class Chaos is served the answer made for class Internet. -/
theorem served_other_class :
    ∃ s, Machine.run step firstState (fetch 1 ++ askAgain 3) = some s ∧ ¬ KeySound s := by
  have hEnd : ((Machine.run step firstState (fetch 1 ++ askAgain 3)).map fun s =>
      (s.handlers.map Handler.outcome, s.origins.map fun o => o.query.queryClass)) =
      some ([some (.forwarded, 1), some (.cached, 3)], [1]) := by
    decide +kernel
  obtain ⟨s, hRun, hLists⟩ := Option.map_eq_some_iff.mp hEnd
  obtain ⟨hHandlers, hOrigins⟩ := Prod.mk.inj hLists
  refine ⟨s, hRun, fun hKeySound => ?_⟩
  have hMem : some (Action.cached, (3 : UInt16)) ∈ s.handlers.map Handler.outcome := by
    rw [hHandlers]
    decide
  obtain ⟨hd, hHd, hOutcome⟩ := List.mem_map.mp hMem
  unfold Handler.outcome at hOutcome
  split at hOutcome
  · rename_i r a hPhase
    obtain ⟨hAction, hClass⟩ := Prod.mk.inj (Option.some.inj hOutcome)
    obtain ⟨n, o, f, -, hOrigin, -, -, -, hAgrees⟩ := hKeySound hd hHd r a hPhase (Or.inl hAction)
    have hOne : o.query.queryClass ∈ s.origins.map fun o => o.query.queryClass :=
      List.mem_map_of_mem (List.mem_of_getElem? hOrigin)
    rw [hOrigins, hAgrees.queryClass, hClass] at hOne
    exact absurd hOne (by decide)
  · simp at hOutcome

end Server

end RustDns
