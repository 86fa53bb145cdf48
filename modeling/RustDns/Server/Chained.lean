import RustDns.Server.HotReload
import RustDns.Server.ResponseSize
import RustDns.Server.TransactionId
import RustDns.Upstream.Failover

/-! The answers as another server of this kind sees them that has sent the
query: whether they pass its test of a reply. -/
namespace RustDns

/-- What the DNS library writes it reads back, as far as the test looks, and
the first two bytes of a message are its id. -/
structure ReadsBack (wire : Wire) : Prop where
  written : ∀ m data, wire.toVec m = some data → ∃ m', wire.fromVec data = some m' ∧
    m'.id = m.id ∧ m'.messageType = m.messageType ∧ m'.queries = m.queries
  patched : ∀ data m id, wire.fromVec data = some m →
    wire.fromVec (patchId data id) = some { m with id := id }

/-- A name equals itself. -/
theorem Name.eqIgnoreCase_refl (n : Name) : n.eqIgnoreCase n = true := by simp [eqIgnoreCase]

/-- Equal names compare alike with every third name. -/
theorem Name.eqIgnoreCase_left {n m : Name} (hSame : n.eqIgnoreCase m = true) (k : Name) :
    k.eqIgnoreCase m = n.eqIgnoreCase k := by
  unfold eqIgnoreCase at hSame ⊢
  rw [beq_iff_eq] at hSame
  rw [hSame, Bool.beq_comm]

variable {wire : Wire}

/-- A message that answers the request in its header and its question passes,
if it can be written. -/
theorem accepted_built (hReads : ReadsBack wire) (r : Request wire) {m : Message}
    (hId : m.id = r.message.id) (hType : m.messageType = .response) (hQuestion : m.queries = [r.query]) :
    (wire.toVec m).getD [] = [] ∨ validResponse wire r.data ((wire.toVec m).getD []) = true := by
  cases hWritten : wire.toVec m with
  | none => exact Or.inl rfl
  | some data =>
      obtain ⟨m', hRead, hId', hType', hQuestion'⟩ := hReads.written m data hWritten
      refine Or.inr (Upstream.validResponse_iff.mpr ?_)
      refine ⟨r.message, m', r.query, r.query, r.parsed, hRead, hType'.trans hType, hId'.trans hId,
        r.first, ?_, r.query.name.eqIgnoreCase_refl, rfl, rfl⟩
      rw [hQuestion', hQuestion]
      rfl

/-- A reply to one request, passed on for another of the same type, passes
exactly when the two ask for the same name in the same class. -/
theorem accepted_patched_iff (hReads : ReadsBack wire) {o r : Request wire} {reply : Bytes}
    (hValid : validResponse wire o.data reply = true) (hType : o.query.queryType = r.query.queryType) :
    validResponse wire r.data (patchId reply r.message.id) = true ↔
      o.query.name.eqIgnoreCase r.query.name = true ∧ o.query.queryClass = r.query.queryClass := by
  obtain ⟨q, m, qq, rq, hQuery, hReply, hResponse, -, hFirst, hEcho, hName, hSame, hClass⟩ :=
    Upstream.validResponse_iff.mp hValid
  obtain rfl := Option.some.inj (o.parsed.symm.trans hQuery)
  obtain rfl := Option.some.inj (o.first.symm.trans hFirst)
  have hPatched := hReads.patched reply m r.message.id hReply
  rw [Upstream.validResponse_iff]
  constructor
  · rintro ⟨q', m', qq', rq', hQuery', hReply', -, -, hFirst', hEcho', hName', -, hClass'⟩
    obtain rfl := Option.some.inj (r.parsed.symm.trans hQuery')
    obtain rfl := Option.some.inj (hPatched.symm.trans hReply')
    obtain rfl := Option.some.inj (r.first.symm.trans hFirst')
    obtain rfl := Option.some.inj (hEcho.symm.trans hEcho')
    refine ⟨?_, hClass.trans hClass'.symm⟩
    rw [← Name.eqIgnoreCase_left hName]
    exact hName'
  · rintro ⟨hAgree, hAgreeClass⟩
    refine ⟨r.message, _, r.query, rq, r.parsed, hPatched, hResponse, rfl, r.first, hEcho, ?_,
      hType.symm.trans hSame, hAgreeClass.symm.trans hClass⟩
    rw [Name.eqIgnoreCase_left hName]
    exact hAgree

namespace Server

variable {env : Env} {s : State env}

/-- The sinkhole answer, where it can be built, is one that a stub accepts for
its request. -/
theorem accepted_blocked (hReads : ReadsBack env.wire) (r : Request env.wire) (dns : DnsConfig) :
    buildBlocked env.wire r.message r.query dns = [] ∨
      validResponse env.wire r.data (buildBlocked env.wire r.message r.query dns) = true := by
  unfold buildBlocked
  dsimp only
  split
  · exact accepted_built hReads r rfl rfl rfl
  · exact accepted_built hReads r rfl rfl rfl

/-- Every run is sound, stores only replies a length prefix can announce, and
builds the answers of its own for the requests they are to. -/
theorem built_run {now : UnixTime} {cfg : Config} {list : Blocklist} {es : List Event}
    (hRun : Machine.run step (init now cfg list) es = some s) : Sound s ∧ Short s := by
  have hStep : ∀ (s : State env) e s', Sound s ∧ Short s → step s e = some s' → Sound s' ∧ Short s' :=
    fun _ _ _ hBoth hStep => ⟨sound_step hBoth.1 hStep, short_step hBoth.1 hBoth.2 hStep⟩
  exact Machine.run_invariant hStep ⟨sound_init now cfg list, short_init now cfg list⟩ hRun

/-- Every answer the server makes itself would be accepted by another server of
its kind, unless the library could not write it. One that is passed on is a
reply under another id, and it would be accepted exactly when the request this
reply was accepted for asks for the same name, in any spelling, and in the same
class. -/
theorem answers_accepted {now : UnixTime} {cfg : Config} {list : Blocklist} {es : List Event}
    (hReads : ReadsBack env.wire) (hRun : Machine.run step (init now cfg list) es = some s)
    {hd : Handler env} {r : Request env.wire} {a : Answer} (hMem : hd ∈ s.handlers)
    (hPhase : hd.phase = .answered r a) :
    (a.action = .blocked ∨ a.action = .error →
      a.response = [] ∨ validResponse env.wire r.data a.response = true) ∧
    (a.action = .cached ∨ a.action = .forwarded → ∃ n o f,
      (a.source = .ram n ∨ a.source = .flight (some n)) ∧ s.origins[n]? = some o ∧
      s.cache.fills[n]? = some f ∧ validResponse env.wire o.data f.value.wire = true ∧
      a.response = patchId f.value.wire r.message.id ∧ o.key = r.key ∧
      (validResponse env.wire r.data a.response = true ↔
        o.query.name.eqIgnoreCase r.query.name = true ∧
          o.query.queryClass = r.query.queryClass)) := by
  obtain ⟨hSound, hShort⟩ := built_run hRun
  have hBuilt := hShort.handlers hd hMem
  rw [hPhase] at hBuilt
  have hAnswer := hSound.handlers hd hMem
  rw [hPhase] at hAnswer
  constructor
  · rintro (hAction | hAction)
    · simp only [Phase.Built, Answer.Built, hAction] at hBuilt
      obtain ⟨dns, hResponse⟩ := hBuilt
      rw [hResponse]
      exact accepted_blocked hReads r dns
    · simp only [Phase.Built, Answer.Built, hAction] at hBuilt
      rw [hBuilt]
      exact accepted_built hReads r rfl rfl rfl
  · intro hAction
    obtain ⟨n, f, hSource, hFill, hKey, hResponse⟩ := fill_of_answer hAnswer hAction
    obtain ⟨o, hOrigin, hOriginKey, hValid⟩ := Indexed.forall₂_partner hSound.origins hFill
    have hSameKey : o.key = r.key := hOriginKey.trans hKey
    obtain ⟨-, hType⟩ := CacheKey.mk.inj hSameKey
    refine ⟨n, o, f, hSource, hOrigin, hFill, hValid, hResponse, hSameKey, ?_⟩
    rw [hResponse]
    exact accepted_patched_iff hReads hValid hType

end Server

/-- A reader that takes the first two bytes for the id and knows the rest from
a table. -/
def Wire.ofBodies (table : List (Bytes × Message)) (hTable : ∀ row ∈ table, 10 ≤ row.1.length) : Wire where
  fromVec
    | high :: low :: body =>
        (table.find? fun row => row.1 == body).map fun row =>
          { row.2 with id := UInt16.ofNat (Codec.ofBeBytes [high, low]) }
    | _ => none
  toVec _ := none
  header data message hRead := by
    split at hRead
    case h_1 high low body =>
      obtain ⟨row, hFind, -⟩ := Option.map_eq_some_iff.mp hRead
      have hKey := List.find?_some hFind
      rw [← beq_iff_eq.mp hKey, List.length_cons, List.length_cons]
      have hLong := hTable row (List.mem_of_find?_eq_some hFind)
      omega
    case h_2 => simp at hRead

/-- Messages told apart by what follows the id read back what they are written
from. -/
theorem readsBack_ofBodies {table : List (Bytes × Message)} (hTable : ∀ row ∈ table, 10 ≤ row.1.length) :
    ReadsBack (Wire.ofBodies table hTable) where
  written := fun m data hWritten => by simp [Wire.ofBodies] at hWritten
  patched := fun data m id hRead => by
    match data, hRead with
    | high :: low :: body, hRead =>
        obtain ⟨row, hFind, rfl⟩ := Option.map_eq_some_iff.mp hRead
        have hSmall : id.toNat < 256 ^ 2 := id.toNat_lt
        have hId : UInt16.ofNat (Codec.ofBeBytes [(id >>> 8).toUInt8, (id &&& 0xff).toUInt8]) = id := by
          rw [← beBytes_id, Codec.ofBeBytes_beBytes hSmall, UInt16.ofNat_toNat]
        simp only [Wire.ofBodies, patchId, hFind, Option.map_some, hId]

/-- The exchange of the sample messages under any id. -/
def Exchange.anyId : Wire :=
  Wire.ofBodies
    [((Exchange.query 1).drop 2, Exchange.queryMessage 1),
      ((Exchange.reply 1).drop 2, Exchange.replyMessage 1)] (by decide)

/-- The exchange with free ids reads back what it writes. -/
theorem Exchange.readsBack_anyId : ReadsBack Exchange.anyId := readsBack_ofBodies _

namespace Server

/-- The sample environment with clients that choose their ids. -/
def anyIdEnv : Env := ⟨Idna.never, Exchange.anyId⟩

/-- A second client asks for the same with an id of its own. -/
def askWithId : List Event :=
  fetch 1 ++ [.arrive (patchId (Exchange.query 1) 515), .parse 1, .check 1, .lookup 1]

/-- The second client asks with an id of its own and is served the entry of the
first; the answer is accepted for its request. -/
theorem answers_accepted_askWithId :
    ∃ (s : State anyIdEnv) (hd : Handler anyIdEnv) (r : Request anyIdEnv.wire) (a : Answer) (n : Nat)
      (o : Request anyIdEnv.wire) (f : Cache.Fill),
      Machine.run step (init 100 Config.default ⟨∅, ∅⟩) askWithId = some s ∧
      s.handlers[1]? = some hd ∧ hd.phase = .answered r a ∧ a.action = .cached ∧
      (a.source = .ram n ∨ a.source = .flight (some n)) ∧ s.origins[n]? = some o ∧
      s.cache.fills[n]? = some f ∧ a.response = patchId f.value.wire r.message.id ∧
      (validResponse anyIdEnv.wire r.data a.response = true ↔
        o.query.name.eqIgnoreCase r.query.name = true ∧
          o.query.queryClass = r.query.queryClass) := by
  have hEnd : ((Machine.run step (init 100 Config.default ⟨∅, ∅⟩ : State anyIdEnv) askWithId).map
      fun s => s.handlers[1]?.bind fun hd => hd.phase.outcome) = some (some .cached) := by
    decide +kernel
  obtain ⟨s, hRun, hOutcome⟩ := Option.map_eq_some_iff.mp hEnd
  obtain ⟨hd, hHandler, hAction⟩ := Option.bind_eq_some_iff.mp hOutcome
  obtain ⟨r, a, hPhase, hCached⟩ := answered_of_outcome hAction
  obtain ⟨n, o, f, hSource, hOrigin, hFill, -, hResponse, -, hIff⟩ :=
    (answers_accepted Exchange.readsBack_anyId hRun (List.mem_of_getElem? hHandler) hPhase).2
      (Or.inl hCached)
  exact ⟨s, hd, r, a, n, o, f, hRun, hHandler, hPhase, hCached, hSource, hOrigin, hFill, hResponse,
    hIff⟩

end Server

end RustDns
