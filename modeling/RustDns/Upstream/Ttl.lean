import RustDns.Admin.Convergence
import RustDns.Upstream.Response

/-! The TTL a reply is kept for, under the settings of the configuration file.
Nothing between the file and `clamp` checks that the floor is below the
ceiling. -/
namespace RustDns

variable {wire : Wire} {policy : TtlPolicy} {reply : Bytes} {ttl : UInt32}

theorem effectiveTtl_isSome (wire : Wire) (policy : TtlPolicy) (reply : Bytes) :
    (effectiveTtl wire policy reply).isSome ↔ policy.minTtl ≤ policy.maxTtl :=
  clamp_isSome _ _ _

/-- A positive answer is kept no longer than the floor or any of its
records. -/
theorem effectiveTtl_le_answer {msg : Message} {r : Record}
    (hTtl : effectiveTtl wire policy reply = some ttl) (hMsg : wire.fromVec reply = some msg)
    (hCode : msg.responseCode ≠ .nxDomain) (hAnswer : r ∈ msg.answers) :
    ttl ≤ policy.minTtl ∨ ttl ≤ r.ttl := by
  have hPositive : ¬(msg.responseCode = .nxDomain ∨ msg.answers.isEmpty) := by
    rintro (hNx | hEmpty)
    · exact hCode hNx
    · rw [List.isEmpty_iff.mp hEmpty] at hAnswer
      simp at hAnswer
  obtain ⟨least, hLeast⟩ : ∃ least, (msg.answers.map Record.ttl).min? = some least := by
    refine Option.ne_none_iff_exists'.mp fun hNone => ?_
    rw [List.min?_eq_none_iff, List.map_eq_nil_iff] at hNone
    simp [hNone] at hAnswer
  have hBelow : least ≤ r.ttl :=
    (List.min?_eq_some_iff.mp hLeast).2 r.ttl (List.mem_map.mpr ⟨r, hAnswer, rfl⟩)
  simp only [effectiveTtl, hMsg, if_neg hPositive, hLeast, Option.getD_some] at hTtl
  rcases (clamp_bounds hTtl).2.2 with hFloor | hTtlLe
  · exact Or.inl hFloor
  · exact Or.inr (UInt32.le_trans hTtlLe hBelow)

/-- Computing the TTL does not panic, and it keeps to the settings and to the
records of a positive answer. -/
def TtlBounded (wire : Wire) (policy : TtlPolicy) (reply : Bytes) : Prop :=
  ∃ ttl, effectiveTtl wire policy reply = some ttl ∧
    policy.minTtl ≤ ttl ∧ ttl ≤ policy.maxTtl ∧
    ∀ msg, wire.fromVec reply = some msg → msg.responseCode ≠ .nxDomain →
      ∀ r ∈ msg.answers, ttl.toNat ≤ max policy.minTtl.toNat r.ttl.toNat

/-- The TTL of a reply, accepted or not, is what it should be exactly when the
floor of the configuration is not above its ceiling. -/
theorem ttl_bounded_iff (wire : Wire) (cfg : Config) (reply : Bytes) :
    TtlBounded wire cfg.cache.policy reply ↔ cfg.cache.minTtl ≤ cfg.cache.maxTtl := by
  constructor
  · rintro ⟨ttl, -, hFloor, hCeiling, -⟩
    exact UInt32.le_trans hFloor hCeiling
  · intro hOrder
    obtain ⟨ttl, hTtl⟩ := Option.isSome_iff_exists.mp
      ((effectiveTtl_isSome wire cfg.cache.policy reply).mpr hOrder)
    obtain ⟨hFloor, hCeiling, -⟩ := clamp_bounds hTtl
    refine ⟨ttl, hTtl, hFloor, hCeiling, fun msg hMsg hCode r hAnswer => ?_⟩
    rw [le_max_iff]
    rcases effectiveTtl_le_answer hTtl hMsg hCode hAnswer with hMin | hRecord
    · exact Or.inl (UInt32.le_iff_toNat_le.mp hMin)
    · exact Or.inr (UInt32.le_iff_toNat_le.mp hRecord)

open Admin

/-- A configuration whose ceiling was lowered below its floor, and its file. -/
def crossedConfig : Config :=
  { sampleConfig "1.1.1.1:53".toList with
    cache := { Config.default.cache with maxTtl := 20 } }

def crossedText : Str :=
  unlines ((Str.lines (sampleText "1.1.1.1:53".toList)).map fun line =>
    if line = "max_ttl = 86400".toList then "max_ttl = 20".toList else line)

def crossedToml : Toml := Toml.ofTable [(crossedConfig, crossedText)] (by simp)

def crossedDisk : Disk := Function.update (fun _ => none) samplePath (some crossedText)

/-- The file is accepted, the reply is accepted, and computing its TTL
panics. -/
theorem crossed_ttl_panics :
    loadOrCreate crossedToml samplePath crossedDisk = some (crossedDisk, crossedConfig) ∧
      validResponse Exchange.wire (Exchange.query 1) (Exchange.reply 1) = true ∧
      effectiveTtl Exchange.wire crossedConfig.cache.policy (Exchange.reply 1) = none ∧
      ¬TtlBounded Exchange.wire crossedConfig.cache.policy (Exchange.reply 1) := by
  have hText : crossedToml.toStringPretty crossedConfig = some crossedText := by
    simp [crossedToml, Toml.ofTable]
  have hRead := crossedToml.roundTrip _ _ hText
  have hPanic : effectiveTtl Exchange.wire crossedConfig.cache.policy (Exchange.reply 1) = none := by
    decide +kernel
  refine ⟨by simp [loadOrCreate, crossedDisk, hRead], by decide +kernel, hPanic, ?_⟩
  rintro ⟨ttl, hTtl, -⟩
  simp [hPanic] at hTtl

end RustDns
