import RustDns.Cache.Store

/-! Which upstream replies are accepted and how long they are kept. -/
namespace RustDns

/-- The TTL settings an `Upstream` is built with. -/
structure TtlPolicy where
  minTtl : UInt32
  maxTtl : UInt32
  negativeTtl : UInt32

def CacheConfig.policy (cfg : CacheConfig) : TtlPolicy := ⟨cfg.minTtl, cfg.maxTtl, cfg.negativeTtl⟩

section

variable (wire : Wire)

/-- Only a reply that parses, is a response, echoes the transaction id and
answers the question is accepted. -/
def validResponse (query response : Bytes) : Bool :=
  match wire.fromVec query, wire.fromVec response with
  | some q, some r =>
      if r.messageType ≠ .response ∨ r.id ≠ q.id then false
      else
        match q.queries.head?, r.queries.head? with
        | some qq, some rq =>
            qq.name.eqIgnoreCase rq.name && qq.queryType == rq.queryType &&
              qq.queryClass == rq.queryClass
        | _, _ => false
  | _, _ => false

/-- `Ord::clamp` panics when its bounds are crossed. -/
def clamp (ttl minTtl maxTtl : UInt32) : Option UInt32 :=
  if maxTtl < minTtl then none
  else if ttl < minTtl then some minTtl
  else if maxTtl < ttl then some maxTtl
  else some ttl

/-- The TTL a reply is kept for, `none` when computing it panics. -/
def effectiveTtl (policy : TtlPolicy) (reply : Bytes) : Option UInt32 :=
  let ttl :=
    match wire.fromVec reply with
    | some msg =>
        if msg.responseCode = .nxDomain ∨ msg.answers.isEmpty then policy.negativeTtl
        else (msg.answers.map Record.ttl).min?.getD policy.negativeTtl
    | none => policy.negativeTtl
  clamp ttl policy.minTtl policy.maxTtl

/-- Wrap an accepted reply for the cache. -/
def toCached (policy : TtlPolicy) (now : UnixTime) (reply : Bytes) : Option CachedResponse :=
  (effectiveTtl wire policy reply).map fun ttl =>
    { wire := reply, ttlSecs := ttl, expiresUnix := nowUnix now + ttl.toUInt64 }

end

/-- Clamping panics on crossed bounds and on nothing else. -/
theorem clamp_isSome (ttl minTtl maxTtl : UInt32) :
    (clamp ttl minTtl maxTtl).isSome ↔ minTtl ≤ maxTtl := by
  unfold clamp
  split
  case isTrue hCrossed => simpa using hCrossed
  case isFalse hOrder =>
    have hBounds : minTtl ≤ maxTtl := UInt32.not_lt.mp hOrder
    split
    · simpa using hBounds
    · split <;> simpa using hBounds

theorem clamp_bounds {ttl minTtl maxTtl result : UInt32}
    (hClamp : clamp ttl minTtl maxTtl = some result) :
    minTtl ≤ result ∧ result ≤ maxTtl ∧ (result ≤ minTtl ∨ result ≤ ttl) := by
  unfold clamp at hClamp
  split at hClamp
  case isTrue => simp at hClamp
  case isFalse hOrder =>
    have hBounds : minTtl ≤ maxTtl := UInt32.not_lt.mp hOrder
    split at hClamp
    case isTrue =>
      obtain rfl := Option.some.inj hClamp
      exact ⟨UInt32.le_refl _, hBounds, Or.inl (UInt32.le_refl _)⟩
    case isFalse hLow =>
      split at hClamp
      case isTrue hHigh =>
        obtain rfl := Option.some.inj hClamp
        exact ⟨hBounds, UInt32.le_refl _, Or.inr (UInt32.le_of_lt hHigh)⟩
      case isFalse hHigh =>
        obtain rfl := Option.some.inj hClamp
        exact ⟨UInt32.not_lt.mp hLow, UInt32.not_lt.mp hHigh, Or.inr (UInt32.le_refl _)⟩

theorem nowUnix_toNat (t : UnixTime) : (nowUnix t).toNat = t.val := by
  have hBound := t.isLt
  exact UInt64.toNat_ofNat_of_lt' (by simp only [UInt64.size]; omega)

namespace Exchange

/-- The name `a.` of the exchange below. -/
def name : Name := ⟨[[97]], by decide⟩

/-- A query for the address of `a.` in the given class. -/
def query (qclass : UInt8) : Bytes := [0, 1, 1, 0, 0, 1, 0, 0, 0, 0, 0, 0, 1, 97, 0, 0, 1, 0, qclass]

/-- Its answer, an address to keep for a minute. -/
def reply (qclass : UInt8) : Bytes :=
  [0, 1, 129, 128, 0, 1, 0, 1, 0, 0, 0, 0, 1, 97, 0, 0, 1, 0, qclass,
    192, 12, 0, 1, 0, qclass, 0, 0, 0, 60, 0, 4, 192, 0, 2, 1]

def queryMessage (qclass : UInt8) : Message where
  id := 1
  messageType := .query
  opCode := .query
  recursionDesired := true
  recursionAvailable := false
  responseCode := .noError
  queries := [⟨name, RecordType.a, qclass.toUInt16⟩]
  answers := []

def replyMessage (qclass : UInt8) : Message where
  id := 1
  messageType := .response
  opCode := .query
  recursionDesired := true
  recursionAvailable := true
  responseCode := .noError
  queries := [⟨name, RecordType.a, qclass.toUInt16⟩]
  answers := [⟨name, 60, .a ⟨#v[192, 0, 2, 1]⟩⟩]

/-- The messages of the exchange in the classes Internet and Chaos. -/
def wire : Wire :=
  Wire.ofTable
    [(query 1, queryMessage 1), (reply 1, replyMessage 1),
      (query 3, queryMessage 3), (reply 3, replyMessage 3)] (by decide)

def policy : TtlPolicy := ⟨30, 86400, 60⟩

end Exchange

example : validResponse Exchange.wire (Exchange.query 1) (Exchange.reply 1) = true := by
  decide +kernel

example : validResponse Exchange.wire (Exchange.query 1) (Exchange.reply 3) = false := by
  decide +kernel

/-- The absolute expiry is the clock plus the TTL, without overflow. -/
theorem toCached_spec {wire : Wire} {policy : TtlPolicy} {now : UnixTime} {reply : Bytes}
    {v : CachedResponse}
    (hCached : toCached wire policy now reply = some v) :
    v.wire = reply ∧ effectiveTtl wire policy reply = some v.ttlSecs ∧
      v.expiresUnix.toNat = now.val + v.ttlSecs.toNat := by
  obtain ⟨ttl, hTtl, rfl⟩ := Option.map_eq_some_iff.mp hCached
  refine ⟨rfl, hTtl, ?_⟩
  have hNow := nowUnix_toNat now
  have hClock := now.isLt
  have hSmall := ttl.toNat_lt
  rw [UInt64.toNat_add, hNow, UInt32.toNat_toUInt64]
  exact Nat.mod_eq_of_lt (by omega)

end RustDns
