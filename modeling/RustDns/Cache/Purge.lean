import RustDns.Cache.Store
import RustDns.Library.Run

/-! The background purge next to the writer. A purge is two transactions, and
batches of the writer may commit between them. Without that it is
`purge_expired` (`run_scan_delete`). -/
namespace RustDns

namespace Purge

open Codec Store

/-- A purge between its two transactions. -/
structure Pending where
  now : UInt64
  expired : List Bytes

/-- A row a purge has removed: the clock the purge read and the row as it was
when it was removed. -/
structure Removal where
  now : UInt64
  value : Bytes

structure State where
  store : Store
  pending : Option Pending
  removed : List Removal

inductive Event where
  | writeBatch (items : List Item)
  | scan (now : UInt64)
  | delete

/-- The rows that are there for a delete to remove. -/
def removals (store : Store) (pending : Pending) : List Removal :=
  pending.expired.filterMap fun key => store[key]?.map fun value => ⟨pending.now, value⟩

def step (s : State) : Event → Option State
  | .writeBatch items => some { s with store := s.store.writeBatch items }
  | .scan now =>
      match s.pending with
      | some _ => none
      | none => some { s with pending := some ⟨now, s.store.purgeScan now⟩ }
  | .delete =>
      match s.pending with
      | none => none
      | some pending =>
          some
            { store := s.store.purgeDelete pending.expired
              pending := none
              removed := s.removed ++ removals s.store pending }

/-- A server that has just opened its store. -/
def start (store : Store) : State := ⟨store, none, []⟩

/-- A batch that commits inside a purge leaves no collected key with a value
that outlives the purge. -/
def Harmless (s : State) : Event → Prop
  | .writeBatch items => ∀ pending, s.pending = some pending →
      ∀ key value, lastFor key items = some value → encKey key ∈ pending.expired →
        value.expiresUnix ≤ pending.now
  | _ => True

/-- What is collected and still there has expired. -/
def Collected (s : State) : Prop :=
  ∀ pending, s.pending = some pending → ∀ key ∈ pending.expired, ∀ value,
    s.store[key]? = some value → rowExpired pending.now value = true

/-- Every row a purge has removed had expired when it was removed. -/
def RemovedExpired (s : State) : Prop :=
  ∀ removal ∈ s.removed, rowExpired removal.now removal.value = true

/-- A harmless commit leaves the collected keys expired. -/
theorem collected_writeBatch {s : State} {items : List Item} (hCollected : Collected s)
    (hHarmless : Harmless s (.writeBatch items)) :
    Collected { s with store := s.store.writeBatch items } := by
  intro pending hPending key hKey value hRow
  by_cases hItem : ∃ item ∈ items, encKey item.1 = key
  · obtain ⟨item, -, rfl⟩ := hItem
    change (s.store.writeBatch items)[encKey item.1]? = some value at hRow
    rw [getElem?_writeBatch] at hRow
    cases hLast : lastFor item.1 items with
    | some v =>
        rw [hLast, Option.map_some, Option.some_or] at hRow
        rw [← Option.some.inj hRow, rowExpired_encVal]
        exact decide_eq_true (hHarmless pending hPending item.1 v hLast hKey)
    | none =>
        rw [hLast, Option.map_none, Option.none_or] at hRow
        exact hCollected pending hPending _ hKey value hRow
  · have hNot : ∀ item ∈ items, encKey item.1 ≠ key := fun item hMem hEq => hItem ⟨item, hMem, hEq⟩
    change (s.store.writeBatch items)[key]? = some value at hRow
    rw [getElem?_writeBatch_of_ne s.store hNot] at hRow
    exact hCollected pending hPending key hKey value hRow

/-- A scan collects keys of expired rows. -/
theorem collected_scan (s : State) (now : UInt64) :
    Collected { s with pending := some ⟨now, s.store.purgeScan now⟩ } := by
  intro pending hPending key hKey value hRow
  obtain rfl := Option.some.inj hPending
  obtain ⟨value', hRow', hExpired⟩ := mem_purgeScan.mp hKey
  obtain rfl : value' = value := Option.some.inj (hRow'.symm.trans hRow)
  exact hExpired

/-- The rows to be deleted are expired. -/
theorem removals_expired {s : State} {pending : Pending} (hCollected : Collected s)
    (hPending : s.pending = some pending) :
    ∀ removal ∈ removals s.store pending, rowExpired removal.now removal.value = true := by
  intro removal hRemoval
  obtain ⟨key, hKey, hRow⟩ := List.mem_filterMap.mp hRemoval
  obtain ⟨value, hValue, rfl⟩ := Option.map_eq_some_iff.mp hRow
  exact hCollected pending hPending key hKey value hValue

/-- A harmless step removes expired rows only. -/
theorem step_invariant {s s' : State} {e : Event} (hInv : Collected s ∧ RemovedExpired s)
    (hHarmless : Harmless s e) (hStep : step s e = some s') :
    Collected s' ∧ RemovedExpired s' := by
  obtain ⟨hCollected, hRemoved⟩ := hInv
  cases e with
  | writeBatch items =>
      obtain rfl := Option.some.inj hStep
      exact ⟨collected_writeBatch hCollected hHarmless, hRemoved⟩
  | scan now =>
      simp only [step] at hStep
      split at hStep
      · simp at hStep
      · obtain rfl := Option.some.inj hStep
        exact ⟨collected_scan s now, hRemoved⟩
  | delete =>
      simp only [step] at hStep
      split at hStep
      · simp at hStep
      · rename_i pending hPending
        obtain rfl := Option.some.inj hStep
        refine ⟨by simp [Collected], fun removal hRemoval => ?_⟩
        rcases List.mem_append.mp hRemoval with hOld | hNew
        · exact hRemoved removal hOld
        · exact removals_expired hCollected hPending removal hNew

/-- At the start nothing has been collected or removed. -/
theorem start_invariant (store : Store) : Collected (start store) ∧ RemovedExpired (start store) :=
  ⟨by simp [Collected, start], by simp [RemovedExpired, start]⟩

/-- In every run whose batches are harmless to the purges they fall into, each
removed row had expired when it was removed, and a row that has not expired
stays through the delete. -/
theorem purge_keeps_live_rows {store : Store} {es : List Event} {s : State}
    (hHarmless : Machine.Along step Harmless (start store) es)
    (hRun : Machine.run step (start store) es = some s) :
    RemovedExpired s ∧
      ∀ pending s', s.pending = some pending → step s .delete = some s' →
        ∀ key value : Bytes, s.store[key]? = some value →
          rowExpired pending.now value = false → s'.store[key]? = some value := by
  obtain ⟨hCollected, hRemoved⟩ := Machine.run_invariant_along
    (fun s e s' => step_invariant) (start_invariant store) hHarmless hRun
  refine ⟨hRemoved, fun pending s' hPending hStep key value hRow hLive => ?_⟩
  simp only [step, hPending] at hStep
  obtain rfl := Option.some.inj hStep
  change (s.store.purgeDelete pending.expired)[key]? = some value
  rw [getElem?_purgeDelete, if_neg, hRow]
  intro hKey
  have hExpired := hCollected pending hPending key hKey value hRow
  rw [hLive] at hExpired
  exact Bool.false_ne_true hExpired

/-- A purge that nothing falls into is `purge_expired` on its own. -/
theorem run_scan_delete (store : Store) (now : UInt64) :
    (Machine.run step (start store) [.scan now, .delete]).map State.store =
      some (store.purgeExpired now).1 := by
  rw [purgeExpired_eq, ← purgeDelete_purgeScan]
  rfl

def staleKey : CacheKey := ⟨"a.example".toList, RecordType.a⟩

def otherKey : CacheKey := ⟨"b.example".toList, RecordType.a⟩

def staleRow : CachedResponse := ⟨[0, 1], 5, 5⟩

def freshRow : CachedResponse := ⟨[0, 2], 90, 100⟩

/-- A row expires, a purge collects it, the key `rewritten` gets a fresh
answer, and the purge deletes. -/
def rewriteDuringPurge (rewritten : CacheKey) : List Event :=
  [.writeBatch [(staleKey, staleRow)], .scan 10, .writeBatch [(rewritten, freshRow)], .delete]

/-- The purge of one key with a fresh answer under another. -/
theorem purge_keeps_other_key :
    ∃ s, Machine.run step (start ∅) (rewriteDuringPurge otherKey) = some s ∧ RemovedExpired s := by
  have hSome : (Machine.run step (start ∅) (rewriteDuringPurge otherKey)).isSome = true := by
    decide +kernel
  obtain ⟨s, hRun⟩ := Option.isSome_iff_exists.mp hSome
  refine ⟨s, hRun, (purge_keeps_live_rows ?_ hRun).1⟩
  refine ⟨by simp [Harmless, start], fun s₁ h₁ => ⟨trivial, fun s₂ h₂ => ⟨?_, fun s₃ _ => ?_⟩⟩⟩
  · obtain rfl := Option.some.inj h₁
    obtain rfl := Option.some.inj h₂
    intro pending hPending key value hLast hKey
    obtain rfl := Option.some.inj hPending
    have hMem := mem_of_lastFor hLast
    simp only [List.mem_singleton, Prod.mk.injEq] at hMem
    obtain ⟨rfl, -⟩ := hMem
    exact absurd hKey (by decide +kernel)
  · exact ⟨trivial, fun _ _ => trivial⟩

/-- A fresh answer written under the collected key is removed with it. -/
theorem purge_removes_rewritten_key :
    ∃ s, Machine.run step (start ∅) (rewriteDuringPurge staleKey) = some s ∧
      ¬ RemovedExpired s := by
  have hRemoved : ((Machine.run step (start ∅) (rewriteDuringPurge staleKey)).map fun s =>
      s.removed.all fun removal => rowExpired removal.now removal.value) = some false := by
    decide +kernel
  obtain ⟨s, hRun, hNot⟩ := Option.map_eq_some_iff.mp hRemoved
  refine ⟨s, hRun, fun hExpired => ?_⟩
  rw [List.all_eq_true.mpr hExpired] at hNot
  exact Bool.false_ne_true hNot.symm

end Purge

end RustDns
