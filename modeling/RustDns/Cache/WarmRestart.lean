import RustDns.Cache.Lifetime

/-! A restart after a calm run gives back the cache that was in memory. The
invariant compares memory with the store as it will be once the writer has
caught up. -/
namespace RustDns

namespace Cache

open Codec Store

/-- The store once everything on its way has been written. -/
def settled (s : State) : Store := s.store.writeBatch ((s.buffer ++ s.channel).map Persist.item)

/-- The value the store will hold for a key. -/
def eventual (s : State) (key : CacheKey) : Option CachedResponse :=
  (settled s)[encKey key]?.bind decVal

/-- A step with room in memory and in the channel, no failed write, no write
inside a purge and no crash. -/
def Calm (s : State) (e : Event) : Prop :=
  s.ram.keys.card < s.maxEntries ∧
    match e with
    | .fill _ _ _ => s.channel.length < persistChannelCap
    | .receive committed =>
        committed = true ∧ (batchMax ≤ s.buffer.length + 1 → s.purge = none)
    | .tick committed => committed = true ∧ (s.buffer ≠ [] → s.purge = none)
    | .restart _ _ => False
    | _ => True

instance (s : State) : (e : Event) → Decidable (Calm s e)
  | .fill _ _ _ => inferInstanceAs (Decidable (_ ∧ _ < _))
  | .receive _ => inferInstanceAs (Decidable (_ ∧ _ = true ∧ (_ ≤ _ → _ = none)))
  | .tick _ => inferInstanceAs (Decidable (_ ∧ _ = true ∧ (_ ≠ [] → _ = none)))
  | .restart _ _ => inferInstanceAs (Decidable (_ ∧ False))
  | .advance _ | .purgeScan | .purgeDelete | .purgeFail | .evict _ | .sweep _ =>
      inferInstanceAs (Decidable (_ ∧ True))

/-- The entry has a TTL and holds this wire form until this deadline. -/
def Entry.Holds (e : Entry) (w : Bytes) (d : Nat) : Prop :=
  1 ≤ e.value.ttlSecs.toNat ∧ e.value.wire = w ∧ e.deadline = d

def InRam (s : State) (key : CacheKey) (w : Bytes) (d : Nat) : Prop :=
  ∃ e, s.ram.lookup key = some e ∧ e.Holds w d

def InStore (s : State) (key : CacheKey) (w : Bytes) (d : Nat) : Prop :=
  ∃ v, eventual s key = some v ∧ v.wire = w ∧ v.expiresUnix.toNat = d

/-- Memory and the settled store agree on everything that has not expired,
and what a purge has collected has expired. -/
structure Mirror (s : State) : Prop where
  agree : ∀ key w d, s.clock.val < d → (InRam s key w d ↔ InStore s key w d)
  collected : ∀ pending, s.purge = some pending → pending.now.toNat ≤ s.clock.val ∧
    ∀ key ∈ pending.expired, ∀ row : Bytes, s.store[key]? = some row →
      rowExpired pending.now row = true

variable {wire : Wire} {s : State}

/-- The writer moves entries along without changing where they end up. -/
theorem settled_flush : settled (flush s true) = settled s := by
  unfold flush
  split
  · rfl
  · simp [settled, Store.writeBatch_append]

@[simp]
theorem flush_clock (committed : Bool) : (flush s committed).clock = s.clock := by
  unfold flush
  split <;> [rfl; split <;> rfl]

@[simp]
theorem flush_ram (committed : Bool) : (flush s committed).ram = s.ram := by
  unfold flush
  split <;> [rfl; split <;> rfl]

@[simp]
theorem flush_purge (committed : Bool) : (flush s committed).purge = s.purge := by
  unfold flush
  split <;> [rfl; split <;> rfl]

/-- A fill is the last word on its key. -/
theorem eventual_fill {key : CacheKey} {value : CachedResponse}
    (hRoom : s.channel.length < persistChannelCap) (key' : CacheKey) :
    eventual (fill s key value) key' = if key' = key then some value else eventual s key' := by
  have hSettled : settled (fill s key value) =
      (settled s).insert (encKey key) (encVal value) := by
    simp [settled, fill, hRoom, ← List.append_assoc, writeBatch]
  rw [eventual, hSettled, Std.ExtTreeMap.getElem?_insert]
  by_cases hKey : key' = key
  · simp [hKey, decVal_encVal]
  · have hEnc : encKey key ≠ encKey key' := fun hEq => hKey (encKey_injective hEq).symm
    simp [hKey, hEnc, eventual]

/-- Time passes in RAM and on disk alike. -/
theorem mirror_advance {now : UnixTime} (hLater : s.clock ≤ now) (hMirror : Mirror s) :
    Mirror { s with clock := now } where
  agree := fun key w d hLt => hMirror.agree key w d (Nat.lt_of_le_of_lt hLater hLt)
  collected := fun pending hPending =>
    ⟨Nat.le_trans (hMirror.collected pending hPending).1 hLater,
      (hMirror.collected pending hPending).2⟩

/-- A fill that finds room in the channel goes to both sides. -/
theorem mirror_fill {key : CacheKey} {policy : TtlPolicy} {reply : Bytes} {value : CachedResponse}
    (hCached : toCached wire policy s.clock reply = some value)
    (hRoom : s.channel.length < persistChannelCap) (hMirror : Mirror s) :
    Mirror (fill s key value) where
  agree := fun key' w d hLt => by
    have hExpires := (toCached_spec hCached).2.2
    by_cases hKey : key' = key
    · subst hKey
      have hRam : (fill s key' value).ram.lookup key' = some ⟨value, s.clock, s.fills.length⟩ :=
        Finmap.lookup_insert s.ram
      have hStore : eventual (fill s key' value) key' = some value := by
        rw [eventual_fill hRoom, if_pos rfl]
      have hClock : s.clock.val < d := hLt
      simp only [InRam, InStore, hRam, hStore, Option.some.injEq, exists_eq_left', Entry.Holds,
        Entry.deadline, expireAfterCreate]
      constructor
      · rintro ⟨hTtl, hWire, hDeadline⟩
        exact ⟨hWire, by omega⟩
      · rintro ⟨hWire, hEnd⟩
        exact ⟨by omega, hWire, by omega⟩
    · have hRam : (fill s key value).ram.lookup key' = s.ram.lookup key' :=
        Finmap.lookup_insert_of_ne s.ram hKey
      have hStore : eventual (fill s key value) key' = eventual s key' := by
        rw [eventual_fill hRoom, if_neg hKey]
      simp only [InRam, InStore, hRam, hStore]
      exact hMirror.agree key' w d hLt
  collected := hMirror.collected

/-- A step of the writer outside a purge. -/
theorem mirror_of_settled {s' : State} (hMirror : Mirror s) (hSettled : settled s' = settled s)
    (hClock : s'.clock = s.clock) (hRam : s'.ram = s.ram)
    (hPurge : s'.purge = none ∨ s'.purge = s.purge ∧ s'.store = s.store) : Mirror s' where
  agree := fun key w d hLt => by
    rw [hClock] at hLt
    have hAgree := hMirror.agree key w d hLt
    simpa only [InRam, InStore, eventual, hSettled, hRam] using hAgree
  collected := fun pending hPending => by
    rcases hPurge with hNone | ⟨hSame, hStore⟩
    · simp [hNone] at hPending
    · rw [hClock, hStore]
      exact hMirror.collected pending (hSame ▸ hPending)

/-- A flush that commits writes what RAM holds. -/
theorem mirror_flush (hMirror : Mirror s) (hPurge : s.buffer ≠ [] → s.purge = none) :
    Mirror (flush s true) := by
  apply mirror_of_settled hMirror settled_flush (flush_clock true) (flush_ram true)
  by_cases hEmpty : s.buffer = []
  · exact Or.inr ⟨flush_purge true, by simp [flush, hEmpty]⟩
  · exact Or.inl (by rw [flush_purge, hPurge hEmpty])

/-- Receiving moves an item on without losing it. -/
theorem mirror_receive {s' : State} (hStep : receive s true = some s') (hMirror : Mirror s)
    (hPurge : batchMax ≤ s.buffer.length + 1 → s.purge = none) : Mirror s' := by
  obtain ⟨p, rest, hChannel, rfl⟩ := receive_cases hStep
  have hMoved : Mirror { s with channel := rest, buffer := s.buffer ++ [p] } :=
    mirror_of_settled hMirror (by simp [settled, hChannel]) rfl rfl (Or.inr ⟨rfl, rfl⟩)
  split
  case isTrue hBatch => exact mirror_flush hMoved fun _ => hPurge (by simpa using hBatch)
  case isFalse => exact hMoved

/-- A scan changes neither side. -/
theorem mirror_purgeScan (hMirror : Mirror s) :
    Mirror { s with purge := some ⟨nowUnix s.clock, s.store.purgeScan (nowUnix s.clock)⟩ } where
  agree := hMirror.agree
  collected := fun pending hPending => by
    obtain rfl := Option.some.inj hPending
    refine ⟨Nat.le_of_eq (nowUnix_toNat s.clock), fun key hKey row hRow => ?_⟩
    obtain ⟨row', hRow', hExpired⟩ := mem_purgeScan.mp hKey
    obtain rfl : row' = row := Option.some.inj (hRow'.symm.trans hRow)
    exact hExpired

/-- What a purge deletes had expired, so it was not in memory either. -/
theorem mirror_purgeDelete {pending : Purge.Pending} (hPending : s.purge = some pending)
    (hMirror : Mirror s) :
    Mirror { s with store := s.store.purgeDelete pending.expired, purge := none } where
  agree := fun key w d hLt => by
    obtain ⟨hNow, hCollected⟩ := hMirror.collected pending hPending
    apply (hMirror.agree key w d hLt).trans
    simp only [InStore, eventual, settled, getElem?_writeBatch, getElem?_purgeDelete]
    cases lastFor key ((s.buffer ++ s.channel).map Persist.item) with
    | some v => simp
    | none =>
        by_cases hKey : encKey key ∈ pending.expired
        · simp only [Option.map_none, Option.none_or, hKey, if_true, Option.bind_none]
          constructor
          · rintro ⟨v, hRow, -, hExpires⟩
            obtain ⟨row, hRow, hValue⟩ := Option.bind_eq_some_iff.mp hRow
            have hExpired := hCollected _ hKey row hRow
            have hLe : v.expiresUnix ≤ pending.now := by simpa [rowExpired, hValue] using hExpired
            have hLeNat := UInt64.le_iff_toNat_le.mp hLe
            have hClock : s.clock.val < d := hLt
            omega
          · rintro ⟨v, hNone, -⟩
            simp at hNone
        · simp [hKey]
  collected := by simp

/-- Dropping a dead entry loses nothing that is still valid. -/
theorem mirror_sweep {key : CacheKey} {e : Entry} (hLookup : s.ram.lookup key = some e)
    (hDead : e.live s.clock = false) (hMirror : Mirror s) :
    Mirror { s with ram := s.ram.erase key } where
  agree := fun key' w d hLt => by
    refine Iff.trans ?_ (hMirror.agree key' w d hLt)
    by_cases hKey : key' = key
    · subst hKey
      have hLe : e.deadline ≤ s.clock.val := by simpa [Entry.live] using hDead
      have hClock : s.clock.val < d := hLt
      simp only [InRam, Finmap.lookup_erase, hLookup, Option.some.injEq, exists_eq_left']
      constructor
      · rintro ⟨_, hNone, -⟩
        simp at hNone
      · rintro ⟨-, -, hDeadline⟩
        omega
    · simp only [InRam, Finmap.lookup_erase_ne hKey]
  collected := hMirror.collected

/-- A calm step keeps disk and RAM in step. -/
theorem mirror_step {e : Event} {s' : State} (hMirror : Mirror s) (hCalm : Calm s e)
    (hStep : step wire s e = some s') : Mirror s' := by
  cases step_cases hStep with
  | advance hLater => exact mirror_advance hLater hMirror
  | fill hCached => exact mirror_fill hCached hCalm.2 hMirror
  | receive hReceive =>
      obtain ⟨-, rfl, hPurge⟩ := hCalm
      exact mirror_receive hReceive hMirror hPurge
  | tick committed =>
      obtain ⟨-, rfl, hPurge⟩ := hCalm
      exact mirror_flush hMirror hPurge
  | purgeScan => exact mirror_purgeScan hMirror
  | purgeDelete hPending => exact mirror_purgeDelete hPending hMirror
  | purgeFail => exact { hMirror with collected := by simp }
  | evict hFull => exact absurd hFull (Nat.not_le.mpr hCalm.1)
  | sweep hLookup hDead => exact mirror_sweep hLookup hDead hMirror
  | restart => exact hCalm.2.elim

/-- A calm step keeps what a restart relies on. -/
theorem calm_step {e : Event} {s' : State} (hInv : Grounded wire s ∧ Mirror s) (hCalm : Calm s e)
    (hStep : step wire s e = some s') : Grounded wire s' ∧ Mirror s' :=
  ⟨grounded_step hInv.1 hStep, mirror_step hInv.2 hCalm hStep⟩

theorem card_keys_load {items : List Item} {now : UnixTime} {rowFill : Bytes → Nat}
    (hNodup : (items.map Prod.fst).Nodup) : (load items now rowFill).keys.card = items.length := by
  have hKeys : (load items now rowFill).keys = (items.map Prod.fst).toFinset := by
    ext key
    rw [Finmap.mem_keys, Finmap.mem_iff, List.mem_toFinset]
    constructor
    · rintro ⟨e, hLookup⟩
      obtain ⟨value, hMem, -⟩ := (lookup_load hNodup).mp hLookup
      exact List.mem_map.mpr ⟨_, hMem, rfl⟩
    · intro hMem
      obtain ⟨⟨key', value⟩, hItem, rfl⟩ := List.mem_map.mp hMem
      exact ⟨_, (lookup_load hNodup).mpr ⟨value, hItem, rfl⟩⟩
  rw [hKeys, List.toFinset_card_of_nodup hNodup, List.length_map]

/-- The entries of a load that is not cut. -/
theorem lookup_restart_iff {maxEntries : Nat} {key : CacheKey} {e : Entry}
    (hGrounded : Grounded wire s)
    (hAll : (s.store.readAllValid (nowUnix s.clock)).length ≤ maxEntries) :
    (restart s maxEntries true).ram.lookup key = some e ↔
      ∃ f ∈ s.fills, s.store[encKey key]? = some (encVal f.value) ∧
        nowUnix s.clock < f.value.expiresUnix ∧
        e = ⟨{ f.value with ttlSecs := (f.value.expiresUnix - nowUnix s.clock).toUInt32 }, s.clock,
          s.rowFill (encKey key)⟩ := by
  change (warmLoad s maxEntries).lookup key = some e ↔ _
  rw [warmLoad, List.take_of_length_le hAll, lookup_load (s.store.nodup_keys_readAllValid _)]
  constructor
  · rintro ⟨v, hMem, rfl⟩
    obtain ⟨f, hGet, -, hRow, hLive, rfl⟩ := (loaded_iff hGrounded).mp hMem
    exact ⟨f, List.mem_of_getElem? hGet, hRow, hLive, rfl⟩
  · rintro ⟨f, hf, hRow, hLive, rfl⟩
    obtain ⟨g, hGet, hKey, hVal⟩ := hGrounded.store _ _ hRow
    have hSame : f.value = g.value := encVal_injective hVal
    refine ⟨_, (loaded_iff hGrounded).mpr
      ⟨g, hGet, (encKey_injective hKey).symm, hVal ▸ hRow, ?_, ?_⟩, rfl⟩
    · rw [← hSame]
      exact hLive
    · rw [hSame]

/-- Each loaded entry has a TTL and lasts until its row expires. -/
theorem holds_restart_iff {maxEntries : Nat} (hGrounded : Grounded wire s)
    (hAll : (s.store.readAllValid (nowUnix s.clock)).length ≤ maxEntries) (key : CacheKey)
    (w : Bytes) (d : Nat) :
    InRam (restart s maxEntries true) key w d ↔
      s.clock.val < d ∧ ∃ v, s.store[encKey key]?.bind decVal = some v ∧ v.wire = w ∧
        v.expiresUnix.toNat = d := by
  constructor
  · rintro ⟨e, hLookup, -, hWire, hDeadline⟩
    obtain ⟨f, hf, hRow, hLive, rfl⟩ := (lookup_restart_iff hGrounded hAll).mp hLookup
    have hAccepted := hGrounded.fills f hf
    rw [deadline_loaded hAccepted hLive] at hDeadline
    have hLt := (remaining_toNat hAccepted hLive).2.1
    exact ⟨by omega, f.value, by rw [hRow, Option.bind_some, decVal_encVal], hWire, hDeadline⟩
  · rintro ⟨hLt, v, hRow, hWire, hExpires⟩
    obtain ⟨row, hStored, hValue⟩ := Option.bind_eq_some_iff.mp hRow
    obtain ⟨f, hGet, -, rfl⟩ := hGrounded.store _ _ hStored
    obtain rfl : f.value = v := Option.some.inj ((decVal_encVal f.value).symm.trans hValue)
    have hf := List.mem_of_getElem? hGet
    have hAccepted := hGrounded.fills f hf
    have hLive : nowUnix s.clock < f.value.expiresUnix := by
      rw [UInt64.lt_iff_toNat_lt, nowUnix_toNat]
      omega
    refine ⟨_, (lookup_restart_iff hGrounded hAll).mpr ⟨f, hf, hStored, hLive, rfl⟩, ?_, hWire, ?_⟩
    · have hRemaining := (remaining_toNat hAccepted hLive).1
      simp only [hRemaining]
      omega
    · rw [deadline_loaded hAccepted hLive, hExpires]

/-- With nothing on its way the store is settled. -/
theorem settled_of_flushed (hChannel : s.channel = []) (hBuffer : s.buffer = []) :
    settled s = s.store := by
  simp [settled, hChannel, hBuffer, writeBatch]

/-- With room to spare the load was not cut. -/
theorem length_le_of_room {maxEntries : Nat}
    (hRoom : (restart s maxEntries true).ram.keys.card < maxEntries) :
    (s.store.readAllValid (nowUnix s.clock)).length ≤ maxEntries := by
  change (warmLoad s maxEntries).keys.card < maxEntries at hRoom
  rw [warmLoad, card_keys_load (nodup_keys_warmLoad s maxEntries), List.length_take] at hRoom
  omega

/-- Memory mirrors the store right after a start. -/
theorem mirror_restart {maxEntries : Nat} (hGrounded : Grounded wire s)
    (hRoom : (restart s maxEntries true).ram.keys.card < maxEntries) :
    Mirror (restart s maxEntries true) where
  agree := fun key w d hLt => by
    rw [holds_restart_iff hGrounded (length_le_of_room hRoom), InStore, eventual,
      settled_of_flushed rfl rfl]
    exact ⟨And.right, fun hStore => ⟨hLt, hStore⟩⟩
  collected := by simp [restart]

/-- The rows that have not expired are no more than the entries in memory. -/
theorem length_le_card (hMirror : Mirror s) (hGrounded : Grounded wire s)
    (hChannel : s.channel = []) (hBuffer : s.buffer = []) :
    (s.store.readAllValid (nowUnix s.clock)).length ≤ s.ram.keys.card := by
  have hNodup := s.store.nodup_keys_readAllValid (nowUnix s.clock)
  rw [← List.length_map (f := Prod.fst), ← List.toFinset_card_of_nodup hNodup]
  refine Finset.card_le_card fun key hKey => ?_
  obtain ⟨⟨key', v⟩, hMem, rfl⟩ := List.mem_map.mp (List.mem_toFinset.mp hKey)
  obtain ⟨f, hGet, -, hRow, hLive, -⟩ := (loaded_iff hGrounded).mp hMem
  have hLt := (remaining_toNat (hGrounded.fills f (List.mem_of_getElem? hGet)) hLive).2.1
  have hStore : InStore s key' f.value.wire f.value.expiresUnix.toNat :=
    ⟨f.value, by
      rw [eventual, settled_of_flushed hChannel hBuffer, hRow, Option.bind_some, decVal_encVal],
      rfl, rfl⟩
  obtain ⟨e, hLookup, -⟩ := (hMirror.agree key' _ _ hLt).mpr hStore
  exact Finmap.mem_keys.mpr (Finmap.mem_iff.mpr ⟨e, hLookup⟩)

theorem ttl_pos_of_restart {maxEntries : Nat} {key : CacheKey} {e : Entry}
    (hGrounded : Grounded wire s)
    (hAll : (s.store.readAllValid (nowUnix s.clock)).length ≤ maxEntries)
    (hLookup : (restart s maxEntries true).ram.lookup key = some e) :
    1 ≤ e.value.ttlSecs.toNat := by
  obtain ⟨f, hf, -, hLive, rfl⟩ := (lookup_restart_iff hGrounded hAll).mp hLookup
  obtain ⟨hRemaining, hLt, -⟩ := remaining_toNat (hGrounded.fills f hf) hLive
  simp only [hRemaining]
  omega

/-- The wire form and the deadline of an entry. -/
def Entry.view (e : Entry) : Bytes × Nat := (e.value.wire, e.deadline)

/-- After a calm run that has been flushed, a restart brings back exactly the
entries that have a TTL and have not expired, each with its wire form and its
deadline. -/
theorem warm_restart_refines {start : UnixTime} {maxEntries capacity : Nat}
    {before es : List Event} {s₀ s s' : State}
    (hStart : Machine.run (step wire) (init start maxEntries)
      (before ++ [.restart capacity true]) = some s₀)
    (hCalm : Machine.Along (step wire) Calm s₀ es)
    (hRun : Machine.run (step wire) s₀ es = some s)
    (hRoomBefore : s₀.ram.keys.card < capacity) (hRoomAfter : s.ram.keys.card < capacity)
    (hChannel : s.channel = []) (hBuffer : s.buffer = [])
    (hRestart : step wire s (.restart capacity true) = some s') :
    ∀ key, (s'.ram.lookup key).map Entry.view =
      ((s.ram.lookup key).filter fun e => 1 ≤ e.value.ttlSecs.toNat && e.live s.clock).map
        Entry.view := by
  obtain ⟨last, hLast, hFirst⟩ := Machine.run_concat.mp hStart
  obtain rfl := Option.some.inj hFirst
  obtain rfl := Option.some.inj hRestart
  have hBase : Grounded wire (restart last capacity true) ∧ Mirror (restart last capacity true) :=
    ⟨grounded_run hStart, mirror_restart (grounded_run hLast) hRoomBefore⟩
  obtain ⟨hGrounded, hMirror⟩ :=
    Machine.run_invariant_along (fun _ _ _ => calm_step) hBase hCalm hRun
  have hAll : (s.store.readAllValid (nowUnix s.clock)).length ≤ capacity :=
    Nat.le_trans (length_le_card hMirror hGrounded hChannel hBuffer) (Nat.le_of_lt hRoomAfter)
  have hSame : ∀ key w d, InRam (restart s capacity true) key w d ↔
      s.clock.val < d ∧ InRam s key w d := by
    intro key w d
    rw [holds_restart_iff hGrounded hAll]
    refine and_congr_right fun hLt => ?_
    rw [hMirror.agree key w d hLt, InStore, eventual, settled_of_flushed hChannel hBuffer]
  intro key
  ext ⟨w, d⟩
  simp only [Option.map_eq_some_iff, Option.filter_eq_some_iff, Entry.view, Prod.mk.injEq,
    Bool.and_eq_true, decide_eq_true_eq, Entry.live]
  constructor
  · rintro ⟨e, hLookup, hWire, hDeadline⟩
    have hTtl := ttl_pos_of_restart hGrounded hAll hLookup
    obtain ⟨hLt, e', hLookup', hTtl', hWire', hDeadline'⟩ :=
      (hSame key w d).mp ⟨e, hLookup, hTtl, hWire, hDeadline⟩
    exact ⟨e', ⟨hLookup', hTtl', by omega⟩, hWire', hDeadline'⟩
  · rintro ⟨e, ⟨hLookup, hTtl, hLive⟩, hWire, hDeadline⟩
    obtain ⟨e', hLookup', -, hWire', hDeadline'⟩ :=
      (hSame key w d).mpr ⟨by omega, e, hLookup, hTtl, hWire, hDeadline⟩
    exact ⟨e', hLookup', hWire', hDeadline'⟩

/-- The reply is fetched, persisted and flushed. -/
def quietRun : List Event :=
  [.fill sampleKey Exchange.policy (Exchange.reply 1), .receive true, .tick true, .advance 130]

/-- The answer of a quiet run is back after the restart: the reply, to be served
until a minute after it was fetched. -/
theorem warm_restart_refines_quiet :
    ∃ s₀ s s', Machine.run (step Exchange.wire) (init 100 10) ([] ++ [.restart 10 true]) = some s₀ ∧
      Machine.run (step Exchange.wire) s₀ quietRun = some s ∧
      step Exchange.wire s (.restart 10 true) = some s' ∧
      (s'.ram.lookup sampleKey).map Entry.view = some (Exchange.reply 1, 160) ∧
      ∀ key, key ≠ sampleKey → s'.ram.lookup key = none := by
  let s₀ := restart (init 100 10) 10 true
  have hChecks : ((Machine.run (step Exchange.wire) s₀ quietRun).map fun s =>
      (decide (s.ram.keys = {sampleKey}), s.channel.isEmpty && s.buffer.isEmpty,
        ((s.ram.lookup sampleKey).filter fun e =>
          1 ≤ e.value.ttlSecs.toNat && e.live s.clock).map Entry.view)) =
      some (true, true, some (Exchange.reply 1, 160)) := by
    decide +kernel
  have hCalm : Machine.Along (step Exchange.wire) Calm s₀ quietRun := by decide +kernel
  obtain ⟨s, hRun, hEnd⟩ := Option.map_eq_some_iff.mp hChecks
  simp only [Prod.mk.injEq, decide_eq_true_eq, Bool.and_eq_true, List.isEmpty_iff] at hEnd
  obtain ⟨hKeys, ⟨hChannel, hBuffer⟩, hEntry⟩ := hEnd
  have hStart : Machine.run (step Exchange.wire) (init 100 10) ([] ++ [.restart 10 true]) =
      some s₀ := rfl
  have hRoom : s.ram.keys.card < 10 := by simp [hKeys]
  have hBack := warm_restart_refines hStart hCalm hRun (by decide +kernel) hRoom hChannel hBuffer rfl
  refine ⟨s₀, s, _, hStart, hRun, rfl, (hBack sampleKey).trans hEntry, fun key hOther => ?_⟩
  have hAbsent : s.ram.lookup key = none := by
    rw [Finmap.lookup_eq_none, ← Finmap.mem_keys, hKeys, Finset.mem_singleton]
    exact hOther
  simpa [hAbsent] using hBack key

end Cache

end RustDns
