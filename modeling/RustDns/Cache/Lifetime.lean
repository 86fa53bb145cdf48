import RustDns.Cache.Layer
import RustDns.Library.Indexed

/-! No answer outlives its TTL, whatever happens to the server in between. -/
namespace RustDns

namespace Cache

open Codec Store

/-- The reply has been accepted by now and is kept as it was wrapped then. -/
def Fill.Accepted (wire : Wire) (now : UnixTime) (f : Fill) : Prop :=
  f.time ≤ now ∧ ∃ policy, toCached wire policy f.time f.value.wire = some f.value

/-- The entry holds the reply and ends no later than the reply may. -/
structure Entry.StemsFrom (e : Entry) (key : CacheKey) (now : UnixTime) (f : Fill) : Prop where
  key : f.key = key
  wire : e.value.wire = f.value.wire
  accepted : f.time ≤ e.created
  created : e.created ≤ now
  deadline : e.deadline ≤ f.time.val + expireAfterCreate f.value

def Carries (fills : List Fill) (p : Persist) : Prop :=
  ∃ f, fills[p.fill]? = some f ∧ p.item = (f.key, f.value)

def RowsCarry (fills : List Fill) (store : Store) (rowFill : Bytes → Nat) : Prop :=
  ∀ b row : Bytes, store[b]? = some row →
    ∃ f, fills[rowFill b]? = some f ∧ b = encKey f.key ∧ row = encVal f.value

/-- Everything the cache holds, in memory, on its way or in the store, comes
from the reply it is tagged with. -/
structure Grounded (wire : Wire) (s : State) : Prop where
  fills : ∀ f ∈ s.fills, f.Accepted wire s.clock
  ram : ∀ key e, s.ram.lookup key = some e →
    ∃ f, s.fills[e.fill]? = some f ∧ e.StemsFrom key s.clock f
  channel : ∀ p ∈ s.channel, Carries s.fills p
  buffer : ∀ p ∈ s.buffer, Carries s.fills p
  store : RowsCarry s.fills s.store s.rowFill

variable {wire : Wire} {s : State}

/-- An item carries its fill also when more is stored. -/
theorem Carries.append {fills : List Fill} {p : Persist} (hCarries : Carries fills p) (f : Fill) :
    Carries (fills ++ [f]) p := by
  obtain ⟨g, hGet, hItem⟩ := hCarries
  exact ⟨g, Indexed.getElem?_append_of_some hGet _, hItem⟩

/-- An empty cache is grounded. -/
theorem grounded_init (now : UnixTime) (maxEntries : Nat) : Grounded wire (init now maxEntries) where
  fills := by simp [init]
  ram := by simp [init]
  channel := by simp [init]
  buffer := by simp [init]
  store := by simp [RowsCarry, init]

/-- Later entries have less time left. -/
theorem grounded_advance {now : UnixTime} (hLater : s.clock ≤ now) (hGrounded : Grounded wire s) :
    Grounded wire { s with clock := now } where
  fills := fun f hf => ⟨Fin.le_trans (hGrounded.fills f hf).1 hLater, (hGrounded.fills f hf).2⟩
  ram := fun key e hLookup => by
    obtain ⟨f, hGet, hStems⟩ := hGrounded.ram key e hLookup
    exact ⟨f, hGet, { hStems with created := Fin.le_trans hStems.created hLater }⟩
  channel := hGrounded.channel
  buffer := hGrounded.buffer
  store := hGrounded.store

/-- A fill puts the reply into memory and into the channel under its own
tag. -/
theorem grounded_fill {key : CacheKey} {policy : TtlPolicy} {reply : Bytes} {value : CachedResponse}
    (hCached : toCached wire policy s.clock reply = some value) (hGrounded : Grounded wire s) :
    Grounded wire (fill s key value) where
  fills := fun f hf => by
    rcases List.mem_append.mp hf with hOld | hNew
    · exact hGrounded.fills f hOld
    · obtain rfl := List.mem_singleton.mp hNew
      refine ⟨Fin.le_refl s.clock, policy, ?_⟩
      rw [(toCached_spec hCached).1]
      exact hCached
  ram := fun key' e hLookup => by
    by_cases hKey : key' = key
    · subst hKey
      obtain rfl := Option.some.inj ((Finmap.lookup_insert s.ram).symm.trans hLookup)
      exact ⟨⟨key', value, s.clock⟩, by simp [fill], rfl, rfl, Fin.le_refl _,
        Fin.le_refl _, Nat.le_refl _⟩
    · obtain ⟨f, hGet, hStems⟩ := hGrounded.ram key' e
        ((Finmap.lookup_insert_of_ne s.ram hKey).symm.trans hLookup)
      exact ⟨f, Indexed.getElem?_append_of_some hGet _, hStems⟩
  channel := fun p hp => by
    simp only [fill] at hp
    split at hp
    case isTrue hRoom =>
      rcases List.mem_append.mp hp with hOld | hNew
      · exact (hGrounded.channel p hOld).append _
      · obtain rfl := List.mem_singleton.mp hNew
        exact ⟨⟨key, value, s.clock⟩, by simp [fill], rfl⟩
    case isFalse hFull => exact (hGrounded.channel p hp).append _
  buffer := fun p hp => (hGrounded.buffer p hp).append _
  store := fun b row hRow => by
    obtain ⟨f, hGet, hCarried⟩ := hGrounded.store b row hRow
    exact ⟨f, Indexed.getElem?_append_of_some hGet _, hCarried⟩

/-- A row that is written carries the fill of its item. -/
theorem rowsCarry_insert {fills : List Fill} {store : Store} {rowFill : Bytes → Nat} {p : Persist}
    (hRows : RowsCarry fills store rowFill) (hCarries : Carries fills p) :
    RowsCarry fills (store.insert (encKey p.item.1) (encVal p.item.2))
      (Function.update rowFill (encKey p.item.1) p.fill) := by
  intro b row hRow
  rw [Std.ExtTreeMap.getElem?_insert] at hRow
  by_cases hKey : encKey p.item.1 = b
  · obtain ⟨f, hGet, hItem⟩ := hCarries
    subst hKey
    rw [if_pos (by simp)] at hRow
    refine ⟨f, by simpa using hGet, by rw [hItem], ?_⟩
    rw [← Option.some.inj hRow, hItem]
  · rw [if_neg (by simpa using hKey)] at hRow
    rw [Function.update_of_ne (Ne.symm hKey)]
    exact hRows b row hRow

/-- A committed batch leaves every row with the tag of its last writer. -/
theorem rowsCarry_writeBatch {fills : List Fill} {store : Store} {rowFill : Bytes → Nat}
    {batch : List Persist} (hRows : RowsCarry fills store rowFill)
    (hBatch : ∀ p ∈ batch, Carries fills p) :
    RowsCarry fills (store.writeBatch (batch.map Persist.item)) (tagRows rowFill batch) := by
  induction batch generalizing store rowFill with
  | nil => exact hRows
  | cons p rest ih =>
      exact ih (rowsCarry_insert hRows (hBatch p (by simp))) fun p hp => hBatch p (by simp [hp])

/-- A flush writes rows of what has been filled. -/
theorem grounded_flush (committed : Bool) (hGrounded : Grounded wire s) :
    Grounded wire (flush s committed) := by
  unfold flush
  split
  · exact hGrounded
  · split
    · exact { hGrounded with
        buffer := by simp
        store := rowsCarry_writeBatch hGrounded.store hGrounded.buffer }
    · exact { hGrounded with buffer := by simp }

/-- The writer buffers what has been filled. -/
theorem grounded_receive {committed : Bool} {s' : State} (hStep : receive s committed = some s')
    (hGrounded : Grounded wire s) : Grounded wire s' := by
  obtain ⟨p, rest, hChannel, rfl⟩ := receive_cases hStep
  have hChannelAll : ∀ q ∈ p :: rest, Carries s.fills q := hChannel ▸ hGrounded.channel
  have hMoved : Grounded wire { s with channel := rest, buffer := s.buffer ++ [p] } :=
    { hGrounded with
      channel := fun q hq => hChannelAll q (by simp [hq])
      buffer := fun q hq => by
        rcases List.mem_append.mp hq with hOld | hNew
        · exact hGrounded.buffer q hOld
        · obtain rfl := List.mem_singleton.mp hNew
          exact hChannelAll q (by simp) }
  split
  · exact grounded_flush committed hMoved
  · exact hMoved

/-- The purge only removes rows. -/
theorem grounded_purgeDelete (expired : List Bytes) (hGrounded : Grounded wire s) :
    Grounded wire { s with store := s.store.purgeDelete expired, purge := none } :=
  { hGrounded with
    store := fun b row hRow => by
      change (s.store.purgeDelete expired)[b]? = some row at hRow
      rw [getElem?_purgeDelete] at hRow
      split at hRow
      · simp at hRow
      · exact hGrounded.store b row hRow }

/-- Dropping an entry leaves the others grounded. -/
theorem grounded_erase (key : CacheKey) (hGrounded : Grounded wire s) :
    Grounded wire { s with ram := s.ram.erase key } :=
  { hGrounded with
    ram := fun key' e hLookup => by
      by_cases hKey : key' = key
      · subst hKey
        simp at hLookup
      · rw [Finmap.lookup_erase_ne hKey] at hLookup
        exact hGrounded.ram key' e hLookup }

/-- The time a row has left, as a load computes it, is not cut short by the
narrower type. -/
theorem remaining_toNat {f : Fill} {now : UnixTime} (hAccepted : f.Accepted wire now)
    (hLive : nowUnix now < f.value.expiresUnix) :
    (f.value.expiresUnix - nowUnix now).toUInt32.toNat = f.value.expiresUnix.toNat - now.val ∧
      now.val < f.value.expiresUnix.toNat ∧
      f.value.expiresUnix.toNat = f.time.val + f.value.ttlSecs.toNat := by
  obtain ⟨hTime, policy, hCached⟩ := hAccepted
  have hExpires := (toCached_spec hCached).2.2
  have hNow := nowUnix_toNat now
  have hLt : now.val < f.value.expiresUnix.toNat := by
    rw [← hNow]
    exact UInt64.lt_iff_toNat_lt.mp hLive
  have hTtl := f.value.ttlSecs.toNat_lt
  have hTime' : f.time.val ≤ now.val := hTime
  refine ⟨?_, hLt, hExpires⟩
  rw [UInt64.toNat_toUInt32, UInt64.toNat_sub_of_le _ _ (UInt64.le_of_lt hLive), hNow]
  exact Nat.mod_eq_of_lt (by omega)

/-- What a load makes of the rows of the store. -/
theorem loaded_iff {key : CacheKey} {v : CachedResponse} (hGrounded : Grounded wire s) :
    (key, v) ∈ s.store.readAllValid (nowUnix s.clock) ↔
      ∃ f, s.fills[s.rowFill (encKey key)]? = some f ∧ f.key = key ∧
        s.store[encKey key]? = some (encVal f.value) ∧
        nowUnix s.clock < f.value.expiresUnix ∧
        v = { f.value with ttlSecs := (f.value.expiresUnix - nowUnix s.clock).toUInt32 } := by
  rw [mem_readAllValid]
  constructor
  · rintro ⟨row, value, hRow, hValue, hLive, hLoaded⟩
    obtain ⟨f, hGet, hKey, rfl⟩ := hGrounded.store _ _ hRow
    obtain rfl : f.value = value := Option.some.inj ((decVal_encVal f.value).symm.trans hValue)
    exact ⟨f, hGet, (encKey_injective hKey).symm, hRow, hLive, hLoaded⟩
  · rintro ⟨f, -, -, hRow, hLive, hLoaded⟩
    exact ⟨_, f.value, hRow, decVal_encVal f.value, hLive, hLoaded⟩

/-- A loaded entry ends exactly when its row expires. -/
theorem deadline_loaded {f : Fill} {now : UnixTime} {n : Nat} (hAccepted : f.Accepted wire now)
    (hLive : nowUnix now < f.value.expiresUnix) :
    Entry.deadline ⟨{ f.value with ttlSecs := (f.value.expiresUnix - nowUnix now).toUInt32 }, now, n⟩ =
      f.value.expiresUnix.toNat := by
  obtain ⟨hRemaining, hLt, -⟩ := remaining_toNat hAccepted hLive
  simp only [Entry.deadline, expireAfterCreate, hRemaining]
  omega

/-- A warm load brings back what the rows carry. -/
theorem grounded_restart (maxEntries : Nat) (loaded : Bool) (hGrounded : Grounded wire s) :
    Grounded wire (restart s maxEntries loaded) :=
  { hGrounded with
    channel := by simp [restart]
    buffer := by simp [restart]
    ram := fun key e hLookup => by
      cases loaded with
      | false => simp [restart] at hLookup
      | true =>
          change (warmLoad s maxEntries).lookup key = some e at hLookup
          obtain ⟨v, hMem, rfl⟩ := (lookup_load (nodup_keys_warmLoad s maxEntries)).mp hLookup
          obtain ⟨f, hGet, hKey, -, hLive, rfl⟩ :=
            (loaded_iff hGrounded).mp (List.mem_of_mem_take hMem)
          have hAccepted := hGrounded.fills f (List.mem_of_getElem? hGet)
          have hExpires := (remaining_toNat hAccepted hLive).2.2
          refine ⟨f, hGet, hKey, rfl, hAccepted.1, Fin.le_refl _, ?_⟩
          rw [deadline_loaded hAccepted hLive, hExpires, expireAfterCreate]
          omega }

/-- A step leaves everything stored grounded in a fill. -/
theorem grounded_step {e : Event} {s' : State} (hGrounded : Grounded wire s)
    (hStep : step wire s e = some s') : Grounded wire s' := by
  cases step_cases hStep with
  | advance hLater => exact grounded_advance hLater hGrounded
  | fill hCached => exact grounded_fill hCached hGrounded
  | receive hReceive => exact grounded_receive hReceive hGrounded
  | tick committed => exact grounded_flush committed hGrounded
  | purgeScan => exact { hGrounded with }
  | purgeDelete => exact grounded_purgeDelete _ hGrounded
  | purgeFail => exact { hGrounded with }
  | evict => exact grounded_erase _ hGrounded
  | sweep => exact grounded_erase _ hGrounded
  | restart maxEntries loaded => exact grounded_restart maxEntries loaded hGrounded

/-- In every run everything stored is grounded in a fill. -/
theorem grounded_run {now : UnixTime} {maxEntries : Nat} {es : List Event}
    (hRun : Machine.run (step wire) (init now maxEntries) es = some s) : Grounded wire s :=
  Machine.run_invariant (fun _ _ _ => grounded_step) (grounded_init now maxEntries) hRun

/-- Whatever a lookup in memory serves stems from a reply accepted under the
same key less than its TTL, or less than one second, ago. -/
theorem served_before_ttl_ends {now : UnixTime} {maxEntries : Nat} {es : List Event}
    (hRun : Machine.run (step wire) (init now maxEntries) es = some s) :
    ∀ key e, get s key = some e →
      ∃ f, s.fills[e.fill]? = some f ∧ f.key = key ∧ e.value.wire = f.value.wire ∧
        (∃ policy, effectiveTtl wire policy f.value.wire = some f.value.ttlSecs) ∧
        f.time ≤ s.clock ∧ s.clock.val < f.time.val + max f.value.ttlSecs.toNat 1 := by
  intro key e hGet
  obtain ⟨hLookup, hLive⟩ := Option.filter_eq_some_iff.mp hGet
  have hGrounded := grounded_run hRun
  obtain ⟨f, hFill, hStems⟩ := hGrounded.ram key e hLookup
  obtain ⟨hTime, policy, hCached⟩ := hGrounded.fills f (List.mem_of_getElem? hFill)
  refine ⟨f, hFill, hStems.key, hStems.wire, ⟨policy, (toCached_spec hCached).2.1⟩, hTime, ?_⟩
  exact lt_of_lt_of_le (by simpa [Entry.live] using hLive) hStems.deadline

def sampleKey : CacheKey := ⟨['a'], RecordType.a⟩

/-- A reply is kept, persisted, and loaded again half a minute later. -/
def warmRun : List Event :=
  [.fill sampleKey Exchange.policy (Exchange.reply 1), .receive true, .tick true, .advance 130,
    .restart 10 true]

/-- The loaded answer is served within the minute it is good for. -/
theorem served_after_restart :
    ∃ s e, Machine.run (step Exchange.wire) (init 100 10) warmRun = some s ∧
      get s sampleKey = some e ∧
      ∃ f, s.fills[e.fill]? = some f ∧ s.clock.val < f.time.val + max f.value.ttlSecs.toNat 1 := by
  have hServed : ((Machine.run (step Exchange.wire) (init 100 10) warmRun).map fun s =>
      (get s sampleKey).isSome) = some true := by
    decide +kernel
  obtain ⟨s, hRun, hSome⟩ := Option.map_eq_some_iff.mp hServed
  obtain ⟨e, hGet⟩ := Option.isSome_iff_exists.mp hSome
  obtain ⟨f, hFill, -, -, -, -, hEnd⟩ := served_before_ttl_ends hRun sampleKey e hGet
  exact ⟨s, e, hRun, hGet, f, hFill, hEnd⟩

end Cache

end RustDns
