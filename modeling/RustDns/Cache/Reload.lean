import RustDns.Upstream.Response

/-! The lifetime a stored answer gets at the next start. It is computed from
two readings of the system clock, which may have been set back in between. -/
namespace RustDns

namespace Store

open Codec

variable {wire : Wire} {policy : TtlPolicy} {written now : UnixTime} {store : Store}
  {key : CacheKey} {reply : Bytes} {v : CachedResponse}

/-- What a load returns for a row: nothing once it has expired, else the
answer with what the clock says is left, cut to 32 bits. -/
theorem mem_readAllValid_row {loaded : CachedResponse} (hRow : store[encKey key]? = some (encVal v)) :
    (key, loaded) ∈ store.readAllValid (nowUnix now) ↔ now.val < v.expiresUnix.toNat ∧
      loaded = { v with ttlSecs := (v.expiresUnix - nowUnix now).toUInt32 } := by
  rw [mem_readAllValid]
  constructor
  · rintro ⟨row, value, hGet, hDec, hLive, hLoaded⟩
    obtain rfl := Option.some.inj (hRow.symm.trans hGet)
    obtain rfl := Option.some.inj ((decVal_encVal v).symm.trans hDec)
    rw [UInt64.lt_iff_toNat_lt, nowUnix_toNat] at hLive
    exact ⟨hLive, hLoaded⟩
  · rintro ⟨hLive, hLoaded⟩
    refine ⟨_, v, hRow, decVal_encVal v, ?_, hLoaded⟩
    rwa [UInt64.lt_iff_toNat_lt, nowUnix_toNat]

theorem toNat_remaining (hLive : now.val < v.expiresUnix.toNat) :
    (v.expiresUnix - nowUnix now).toUInt32.toNat = (v.expiresUnix.toNat - now.val) % 2 ^ 32 := by
  have hLe : nowUnix now ≤ v.expiresUnix := by
    rw [UInt64.le_iff_toNat_le, nowUnix_toNat]
    exact Nat.le_of_lt hLive
  rw [UInt64.toNat_toUInt32, UInt64.toNat_sub_of_le _ _ hLe, nowUnix_toNat]

/-- A row that is loaded gets exactly the rest of its lifetime, which is no
more than it was stored with, unless the clock stands before the moment the
answer was accepted. -/
theorem reload_keeps_lifetime_iff (hCached : toCached wire policy written reply = some v)
    (hRow : store[encKey key]? = some (encVal v)) :
    (∀ loaded, (key, loaded) ∈ store.readAllValid (nowUnix now) →
      now.val + loaded.ttlSecs.toNat = v.expiresUnix.toNat ∧ loaded.ttlSecs ≤ v.ttlSecs ∧
        loaded.ttlSecs ≤ policy.maxTtl) ↔ written ≤ now := by
  obtain ⟨-, hTtl, hExpires⟩ := toCached_spec hCached
  have hCeiling : v.ttlSecs ≤ policy.maxTtl := (clamp_bounds hTtl).2.1
  constructor
  · intro hLoads
    refine Nat.le_of_not_lt fun hBehind => ?_
    have hLive : now.val < v.expiresUnix.toNat := by omega
    obtain ⟨hExact, hShort, -⟩ := hLoads _ ((mem_readAllValid_row hRow).mpr ⟨hLive, rfl⟩)
    have hShort := UInt32.le_iff_toNat_le.mp hShort
    omega
  · intro hOrder loaded hMem
    have hOrder : written.val ≤ now.val := hOrder
    obtain ⟨hLive, rfl⟩ := (mem_readAllValid_row hRow).mp hMem
    have hRest := toNat_remaining hLive
    have hFits := v.ttlSecs.toNat_lt
    rw [Nat.mod_eq_of_lt (by omega)] at hRest
    have hShort : (v.expiresUnix - nowUnix now).toUInt32 ≤ v.ttlSecs := by
      rw [UInt32.le_iff_toNat_le, hRest]
      omega
    exact ⟨by dsimp only; omega, hShort, UInt32.le_trans hShort hCeiling⟩

def reloadKey : CacheKey := ⟨"a".toList, RecordType.a⟩

/-- The answer of the exchange, accepted at `1700000000` and kept a minute. -/
def reloadRow : CachedResponse := ⟨Exchange.reply 1, 60, 1700000060⟩

def reloadStore : Store := writeBatch ∅ [(reloadKey, reloadRow)]

theorem reloadRow_cached :
    toCached Exchange.wire Exchange.policy 1700000000 (Exchange.reply 1) = some reloadRow := by
  decide +kernel

/-- Ten seconds later, fifty are left. -/
theorem reload_keeps_lifetime_later :
    reloadStore.readAllValid (nowUnix 1700000010) = [(reloadKey, { reloadRow with ttlSecs := 50 })] ∧
      ∀ loaded, (reloadKey, loaded) ∈ reloadStore.readAllValid (nowUnix 1700000010) →
        (1700000010 : UnixTime).val + loaded.ttlSecs.toNat = reloadRow.expiresUnix.toNat ∧
          loaded.ttlSecs ≤ reloadRow.ttlSecs ∧ loaded.ttlSecs ≤ Exchange.policy.maxTtl :=
  ⟨by decide +kernel,
    (reload_keeps_lifetime_iff reloadRow_cached (by decide +kernel)).mpr (by decide)⟩

/-- Under a clock that reads `0` the minute becomes more than fifty years. -/
theorem reload_lengthens :
    toCached Exchange.wire Exchange.policy 1700000000 (Exchange.reply 1) = some reloadRow ∧
      reloadStore.readAllValid (nowUnix 0) =
        [(reloadKey, { reloadRow with ttlSecs := 1700000060 })] ∧
      reloadRow.ttlSecs < 1700000060 ∧ Exchange.policy.maxTtl < 1700000060 :=
  ⟨reloadRow_cached, by decide +kernel, by decide, by decide⟩

end Store

end RustDns
