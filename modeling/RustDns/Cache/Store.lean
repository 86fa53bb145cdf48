import Mathlib.Data.Finmap
import RustDns.Cache.Codec

/-! The durable store: one table of encoded rows, ordered by key. Every
function here is one transaction. -/
namespace RustDns

open Codec

/-- Seconds since the epoch: the system clock keeps them in a signed 64-bit
integer. -/
abbrev UnixTime := Fin (2 ^ 63)

instance UnixTime.instNeZero : NeZero (2 ^ 63) := ⟨by decide⟩

def nowUnix (t : UnixTime) : UInt64 := UInt64.ofNat t.val

abbrev Item := CacheKey × CachedResponse

abbrev Store := Std.ExtTreeMap Bytes Bytes

namespace Store

/-- Persist a batch of entries in a single transaction. -/
def writeBatch (store : Store) (items : List Item) : Store :=
  items.foldl (fun table item => table.insert (encKey item.1) (encVal item.2)) store

/-- A row that is not expired, with its TTL set to the remaining lifetime. -/
def readRow (now : UInt64) (row : Bytes × Bytes) : Option Item := do
  let key ← decKey row.1
  let value ← decVal row.2
  if now < value.expiresUnix then
    some (key, { value with ttlSecs := (value.expiresUnix - now).toUInt32 })
  else none

def readAllValid (store : Store) (now : UInt64) : List Item := store.toList.filterMap (readRow now)

def rowExpired (now : UInt64) (value : Bytes) : Bool :=
  (decVal value).any fun v => v.expiresUnix ≤ now

/-- The first transaction of a purge collects the keys of expired rows. -/
def purgeScan (store : Store) (now : UInt64) : List Bytes :=
  (store.toList.filter fun row => rowExpired now row.2).map Prod.fst

/-- The second transaction of a purge deletes by key. -/
def purgeDelete (store : Store) (expired : List Bytes) : Store :=
  expired.foldl (fun table key => table.erase key) store

/-- Both transactions with nothing in between. -/
def purgeExpired (store : Store) (now : UInt64) : Store × Nat :=
  let expired := store.purgeScan now
  if expired = [] then (store, 0) else (store.purgeDelete expired, expired.length)

/-- The last value written under a key. -/
def lastFor (key : CacheKey) (items : List Item) : Option CachedResponse :=
  (items.reverse.find? fun item => item.1 == key).map Prod.snd

@[simp]
theorem lastFor_nil (key : CacheKey) : lastFor key [] = none := rfl

theorem lastFor_append (key : CacheKey) (first second : List Item) :
    lastFor key (first ++ second) = (lastFor key second).or (lastFor key first) := by
  simp only [lastFor, List.reverse_append, List.find?_append]
  cases second.reverse.find? fun item => item.1 == key <;> simp

theorem lastFor_singleton (key : CacheKey) (item : Item) :
    lastFor key [item] = if item.1 = key then some item.2 else none := by
  by_cases h : item.1 = key <;> simp [lastFor, h]

theorem mem_of_lastFor {key : CacheKey} {items : List Item} {v : CachedResponse}
    (hLast : lastFor key items = some v) : (key, v) ∈ items := by
  obtain ⟨item, hFind, rfl⟩ := Option.map_eq_some_iff.mp hLast
  have hKey := List.find?_some hFind
  have hMem := List.mem_of_find?_eq_some hFind
  simp only [beq_iff_eq] at hKey
  simpa [← hKey] using hMem

/-- Two batches are one. -/
theorem writeBatch_append (store : Store) (first second : List Item) :
    store.writeBatch (first ++ second) = (store.writeBatch first).writeBatch second :=
  List.foldl_append

/-- After a batch a key holds the last value of the batch for it, and what it
held before when the batch has none. -/
theorem getElem?_writeBatch (store : Store) (items : List Item) (key : CacheKey) :
    (store.writeBatch items)[encKey key]? =
      ((lastFor key items).map encVal).or store[encKey key]? := by
  induction items using List.reverseRecOn with
  | nil => simp [writeBatch]
  | append_singleton front item ih =>
      have hFold : store.writeBatch (front ++ [item]) =
          (store.writeBatch front).insert (encKey item.1) (encVal item.2) :=
        store.writeBatch_append front [item]
      rw [hFold, Std.ExtTreeMap.getElem?_insert, ih, lastFor_append, lastFor_singleton]
      by_cases hKey : item.1 = key
      · simp [hKey]
      · have hEnc : encKey item.1 ≠ encKey key := fun hEq => hKey (encKey_injective hEq)
        simp [hKey, hEnc]

/-- A batch changes rows of its own keys only. -/
theorem getElem?_writeBatch_of_ne (store : Store) {items : List Item} {b : Bytes}
    (hNot : ∀ item ∈ items, encKey item.1 ≠ b) : (store.writeBatch items)[b]? = store[b]? := by
  induction items generalizing store with
  | nil => rfl
  | cons item rest ih =>
      have hHead : encKey item.1 ≠ b := hNot item (by simp)
      have hRest := ih (store.insert (encKey item.1) (encVal item.2))
        fun item hItem => hNot item (by simp [hItem])
      simp only [writeBatch, List.foldl_cons] at hRest ⊢
      rw [hRest, Std.ExtTreeMap.getElem?_insert]
      simp [hHead]

/-- The purge deletes the rows it has collected and leaves the rest. -/
theorem getElem?_purgeDelete (store : Store) (expired : List Bytes) (b : Bytes) :
    (store.purgeDelete expired)[b]? = if b ∈ expired then none else store[b]? := by
  induction expired generalizing store with
  | nil => simp [purgeDelete]
  | cons key rest ih =>
      have hRest := ih (store.erase key)
      simp only [purgeDelete, List.foldl_cons] at hRest ⊢
      rw [hRest, Std.ExtTreeMap.getElem?_erase]
      by_cases hKey : key = b
      · simp [hKey]
      · simp [hKey, Ne.symm hKey]

/-- The scan collects the expired rows. -/
theorem mem_purgeScan {store : Store} {now : UInt64} {b : Bytes} :
    b ∈ store.purgeScan now ↔ ∃ value, store[b]? = some value ∧ rowExpired now value = true := by
  simp only [purgeScan, List.mem_map, List.mem_filter]
  constructor
  · rintro ⟨⟨key, value⟩, ⟨hMem, hExpired⟩, rfl⟩
    exact ⟨value, Std.ExtTreeMap.mem_toList_iff_getElem?_eq_some.mp hMem, hExpired⟩
  · rintro ⟨value, hRow, hExpired⟩
    exact ⟨(b, value), ⟨Std.ExtTreeMap.mem_toList_iff_getElem?_eq_some.mpr hRow, hExpired⟩, rfl⟩

theorem rowExpired_encVal (now : UInt64) (v : CachedResponse) :
    rowExpired now (encVal v) = decide (v.expiresUnix ≤ now) := by
  simp [rowExpired, decVal_encVal]

/-- A row is read when it decodes and has time left, which becomes its lifetime.
-/
theorem readRow_eq_some_iff {now : UInt64} {row : Bytes × Bytes} {item : Item} :
    readRow now row = some item ↔ ∃ value, decKey row.1 = some item.1 ∧ decVal row.2 = some value ∧
      now < value.expiresUnix ∧
      item.2 = { value with ttlSecs := (value.expiresUnix - now).toUInt32 } := by
  obtain ⟨key, loaded⟩ := item
  constructor
  · intro hRow
    obtain ⟨key', hKey, hRow⟩ := Option.bind_eq_some_iff.mp hRow
    obtain ⟨value, hValue, hRow⟩ := Option.bind_eq_some_iff.mp hRow
    split at hRow
    case isTrue hLive =>
      obtain ⟨rfl, rfl⟩ := Prod.mk.inj (Option.some.inj hRow)
      exact ⟨value, hKey, hValue, hLive, rfl⟩
    case isFalse => simp at hRow
  · rintro ⟨value, hKey, hValue, hLive, hLoaded⟩
    simp only at hKey hLoaded
    simp [readRow, hKey, hValue, hLive, hLoaded]

/-- What a load returns: the rows that decode and are not expired. -/
theorem mem_readAllValid {store : Store} {now : UInt64} {key : CacheKey} {v : CachedResponse} :
    (key, v) ∈ store.readAllValid now ↔
      ∃ row value, store[encKey key]? = some row ∧ decVal row = some value ∧
        now < value.expiresUnix ∧
        v = { value with ttlSecs := (value.expiresUnix - now).toUInt32 } := by
  simp only [readAllValid, List.mem_filterMap, readRow_eq_some_iff]
  constructor
  · rintro ⟨⟨b, row⟩, hMem, value, hKey, hValue, hLive, hLoaded⟩
    have hRow := Std.ExtTreeMap.mem_toList_iff_getElem?_eq_some.mp hMem
    obtain rfl : encKey key = b := encKey_of_decKey hKey
    exact ⟨row, value, hRow, hValue, hLive, hLoaded⟩
  · rintro ⟨row, value, hRow, hValue, hLive, hLoaded⟩
    exact ⟨(encKey key, row), Std.ExtTreeMap.mem_toList_iff_getElem?_eq_some.mpr hRow, value,
      decKey_encKey key, hValue, hLive, hLoaded⟩

/-- A load returns every key once. -/
theorem nodup_keys_readAllValid (store : Store) (now : UInt64) :
    ((store.readAllValid now).map Prod.fst).Nodup := by
  rw [List.Nodup, List.pairwise_map, readAllValid, List.pairwise_filterMap]
  apply Std.ExtTreeMap.distinct_keys_toList.imp
  intro first second hNe item hItem item' hItem' hEq
  obtain ⟨_, hKey, -⟩ := readRow_eq_some_iff.mp hItem
  obtain ⟨_, hKey', -⟩ := readRow_eq_some_iff.mp hItem'
  apply hNe
  rw [← encKey_of_decKey hKey, ← encKey_of_decKey hKey', hEq]
  exact Std.ReflCmp.compare_self

/-- Deleting what a scan has collected keeps the rows that have not expired. -/
theorem purgeDelete_purgeScan (store : Store) (now : UInt64) :
    store.purgeDelete (store.purgeScan now) = store.filter fun _ value => !rowExpired now value := by
  refine Std.ExtTreeMap.ext_getElem? fun b => ?_
  rw [getElem?_purgeDelete, Std.ExtTreeMap.getElem?_filter']
  cases hRow : store[b]? with
  | none => simp
  | some value =>
      have hScan : b ∈ store.purgeScan now ↔ rowExpired now value = true := by
        rw [mem_purgeScan, hRow]
        simp
      cases hExpired : rowExpired now value with
      | true =>
          rw [if_pos (hScan.mpr hExpired)]
          simp [Option.filter, hExpired]
      | false =>
          have hKept : b ∉ store.purgeScan now := fun hMem => by simp [hScan.mp hMem] at hExpired
          rw [if_neg hKept]
          simp [Option.filter, hExpired]

theorem length_purgeScan (store : Store) (now : UInt64) :
    (store.purgeScan now).length = store.toList.countP fun row => rowExpired now row.2 := by
  rw [purgeScan, List.length_map, List.countP_eq_length_filter]

/-- A purge with nothing to collect is no exception. -/
theorem purgeExpired_eq (store : Store) (now : UInt64) :
    store.purgeExpired now =
      (store.filter fun _ value => !rowExpired now value, (store.purgeScan now).length) := by
  rw [← purgeDelete_purgeScan, purgeExpired]
  split
  case isTrue hNone => simp [hNone, purgeDelete]
  case isFalse => rfl

/-- A row is expired when it decodes to a value that is. -/
theorem rowExpired_iff {now : UInt64} {value : Bytes} :
    rowExpired now value = true ↔ ∃ v, decVal value = some v ∧ v.expiresUnix ≤ now := by
  simp [rowExpired, Option.any_eq_true]

/-- A load finds nothing in a row that an earlier purge would remove. -/
theorem readRow_of_rowExpired {t t' : UInt64} {row : Bytes × Bytes} (hLe : t ≤ t')
    (hExpired : rowExpired t row.2 = true) : readRow t' row = none := by
  obtain ⟨v, hDec, hPast⟩ := rowExpired_iff.mp hExpired
  refine Option.eq_none_iff_forall_ne_some.mpr fun item hRow => ?_
  obtain ⟨value, -, hValue, hLive, -⟩ := readRow_eq_some_iff.mp hRow
  obtain rfl := Option.some.inj (hDec.symm.trans hValue)
  exact absurd (UInt64.lt_of_lt_of_le hLive (UInt64.le_trans hPast hLe)) (UInt64.lt_irrefl _)

/-- A load sees only rows that have not expired, so it does not see a purge. -/
theorem readAllValid_filter (store : Store) {t t' : UInt64} (hLe : t ≤ t') :
    readAllValid (store.filter fun _ value => !rowExpired t value) t' = store.readAllValid t' := by
  rw [readAllValid, readAllValid, Std.ExtTreeMap.toList_filter, List.filterMap_filter]
  refine List.filterMap_congr fun row _ => ?_
  cases hExpired : rowExpired t row.2 with
  | true => simp [readRow_of_rowExpired hLe hExpired]
  | false => simp

/-- A purge removes the rows that decode as expired and no other, counts them,
leaves nothing for a second purge, and is not seen by a later load. -/
theorem purge_exact (store : Store) {t t' : UInt64} (hLe : t ≤ t') :
    (∀ b value : Bytes, (store.purgeExpired t).1[b]? = some value ↔
        store[b]? = some value ∧ ¬∃ v, decVal value = some v ∧ v.expiresUnix ≤ t) ∧
      (store.purgeExpired t).2 = (store.toList.countP fun row =>
        (decVal row.2).any fun v => v.expiresUnix ≤ t) ∧
      (store.purgeExpired t).1.purgeExpired t = ((store.purgeExpired t).1, 0) ∧
      (store.purgeExpired t).1.readAllValid t' = store.readAllValid t' := by
  simp only [purgeExpired_eq]
  refine ⟨fun b value => ?_, length_purgeScan store t, ?_, readAllValid_filter store hLe⟩
  · rw [Std.ExtTreeMap.getElem?_filter', Option.filter_eq_some_iff, ← rowExpired_iff]
    simp
  · have hScan : purgeScan (store.filter fun _ value => !rowExpired t value) t = [] := by
      refine List.eq_nil_iff_forall_not_mem.mpr fun b hMem => ?_
      obtain ⟨value, hRow, hExpired⟩ := mem_purgeScan.mp hMem
      rw [Std.ExtTreeMap.getElem?_filter', Option.filter_eq_some_iff] at hRow
      simp [hExpired] at hRow
    rw [← purgeDelete_purgeScan, hScan]
    rfl

/-- A row that has expired, one that has not and one that does not decode. -/
def mixedStore : Store :=
  writeBatch ((∅ : Store).insert [0, 1] [2])
    [(⟨"a.example".toList, RecordType.a⟩, ⟨[0, 1], 5, 5⟩),
      (⟨"b.example".toList, RecordType.a⟩, ⟨[0, 2], 90, 100⟩)]

/-- Of an expired, a live and a broken row the purge removes the first. -/
theorem purge_exact_mixed :
    mixedStore.size = 3 ∧ (mixedStore.purgeExpired 5).2 = 1 ∧
      (mixedStore.purgeExpired 5).1.readAllValid 7 = mixedStore.readAllValid 7 := by
  have hLe : (5 : UInt64) ≤ 7 := by decide
  exact ⟨by decide +kernel, by decide +kernel, (purge_exact mixedStore hLe).2.2.2⟩

end Store

end RustDns
