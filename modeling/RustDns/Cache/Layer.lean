import RustDns.Cache.Purge
import RustDns.Upstream.Response

/-! The cache layer: entries in memory, the write-behind channel and buffer,
the durable store, and restarts with a warm load. `fills` and `rowFill` are
kept for the proofs only: they record which accepted reply every entry and
every row comes from. -/
namespace RustDns

namespace Cache

open Codec

structure Entry where
  value : CachedResponse
  created : UnixTime
  fill : Nat

/-- `expire_after_create`: the TTL, but at least one second. -/
def expireAfterCreate (value : CachedResponse) : Nat := max value.ttlSecs.toNat 1

def Entry.deadline (e : Entry) : Nat := e.created.val + expireAfterCreate e.value

/-- An entry is served strictly before its deadline. -/
def Entry.live (e : Entry) (now : UnixTime) : Bool := now.val < e.deadline

/-- A reply accepted from upstream. -/
structure Fill where
  key : CacheKey
  value : CachedResponse
  time : UnixTime

/-- An entry on its way to the store. -/
structure Persist where
  item : Item
  fill : Nat

structure State where
  clock : UnixTime
  maxEntries : Nat
  ram : Finmap fun _ : CacheKey => Entry
  channel : List Persist
  buffer : List Persist
  store : Store
  purge : Option Purge.Pending
  fills : List Fill
  rowFill : Bytes → Nat

inductive Event where
  | advance (now : UnixTime)
  | fill (key : CacheKey) (policy : TtlPolicy) (reply : Bytes)
  | receive (committed : Bool)
  | tick (committed : Bool)
  | purgeScan
  | purgeDelete
  | purgeFail
  | evict (key : CacheKey)
  | sweep (key : CacheKey)
  | restart (maxEntries : Nat) (loaded : Bool)

def persistChannelCap : Nat := 100000

def batchMax : Nat := 256

/-- The lookup in memory: an expired entry is absent. -/
def get (s : State) (key : CacheKey) : Option Entry :=
  (s.ram.lookup key).filter fun e => e.live s.clock

/-- An accepted reply is offered to the channel, which drops it when it is
full, and stored in memory. A fill is one step: the clock of `to_cached`, which
made the value, and that of moka's insertion are read in the same second. -/
def fill (s : State) (key : CacheKey) (value : CachedResponse) : State :=
  { s with
    ram := s.ram.insert key ⟨value, s.clock, s.fills.length⟩
    channel :=
      if s.channel.length < persistChannelCap then
        s.channel ++ [⟨(key, value), s.fills.length⟩]
      else s.channel
    fills := s.fills ++ [⟨key, value, s.clock⟩] }

def tagRows (rowFill : Bytes → Nat) (batch : List Persist) : Bytes → Nat :=
  batch.foldl (fun rows p => Function.update rows (encKey p.item.1) p.fill) rowFill

/-- A failed write loses the batch. -/
def flush (s : State) (committed : Bool) : State :=
  if s.buffer.isEmpty then s
  else if committed then
    { s with
      store := s.store.writeBatch (s.buffer.map Persist.item)
      rowFill := tagRows s.rowFill s.buffer
      buffer := [] }
  else { s with buffer := [] }

def receive (s : State) (committed : Bool) : Option State :=
  match s.channel with
  | [] => none
  | p :: rest =>
      let s' := { s with channel := rest, buffer := s.buffer ++ [p] }
      some (if batchMax ≤ s'.buffer.length then flush s' committed else s')

def load (items : List Item) (now : UnixTime) (rowFill : Bytes → Nat) :
    Finmap fun _ : CacheKey => Entry :=
  items.foldl (fun ram item => ram.insert item.1 ⟨item.2, now, rowFill (encKey item.1)⟩) ∅

/-- The entries a start finds in the store, cut to the size of the cache. -/
def warmLoad (s : State) (maxEntries : Nat) : Finmap fun _ : CacheKey => Entry :=
  load ((s.store.readAllValid (nowUnix s.clock)).take maxEntries) s.clock s.rowFill

/-- A crash loses everything but the store. A start whose load fails goes on
with an empty cache. -/
def restart (s : State) (maxEntries : Nat) (loaded : Bool) : State :=
  { s with
    maxEntries := maxEntries
    ram := if loaded then warmLoad s maxEntries else ∅
    channel := []
    buffer := []
    purge := none }

/-- The first start, on an empty store. -/
def init (now : UnixTime) (maxEntries : Nat) : State where
  clock := now
  maxEntries := maxEntries
  ram := ∅
  channel := []
  buffer := []
  store := ∅
  purge := none
  fills := []
  rowFill := fun _ => 0

def step (wire : Wire) (s : State) : Event → Option State
  | .advance now => if s.clock ≤ now then some { s with clock := now } else none
  | .fill key policy reply => (toCached wire policy s.clock reply).map (fill s key)
  | .receive committed => receive s committed
  | .tick committed => some (flush s committed)
  | .purgeScan =>
      match s.purge with
      | some _ => none
      | none =>
          some { s with purge := some ⟨nowUnix s.clock, s.store.purgeScan (nowUnix s.clock)⟩ }
  | .purgeDelete =>
      match s.purge with
      | none => none
      | some pending =>
          some { s with store := s.store.purgeDelete pending.expired, purge := none }
  | .purgeFail => some { s with purge := none }
  | .evict key =>
      if s.maxEntries ≤ s.ram.keys.card then some { s with ram := s.ram.erase key } else none
  | .sweep key =>
      match s.ram.lookup key with
      | some e => if e.live s.clock then none else some { s with ram := s.ram.erase key }
      | none => none
  | .restart maxEntries loaded => some (restart s maxEntries loaded)

theorem flush_fills (s : State) (committed : Bool) : (flush s committed).fills = s.fills := by
  unfold flush
  split
  · rfl
  · split <;> rfl

/-- The steps of the layer, each with what it finds. -/
inductive Step (wire : Wire) (s : State) : Event → State → Prop where
  | advance {now : UnixTime} (hLater : s.clock ≤ now) :
      Step wire s (.advance now) { s with clock := now }
  | fill {key : CacheKey} {policy : TtlPolicy} {reply : Bytes} {value : CachedResponse}
      (hCached : toCached wire policy s.clock reply = some value) :
      Step wire s (.fill key policy reply) (fill s key value)
  | receive {s' : State} {committed : Bool} (hReceive : receive s committed = some s') :
      Step wire s (.receive committed) s'
  | tick (committed : Bool) : Step wire s (.tick committed) (flush s committed)
  | purgeScan (hIdle : s.purge = none) :
      Step wire s .purgeScan
        { s with purge := some ⟨nowUnix s.clock, s.store.purgeScan (nowUnix s.clock)⟩ }
  | purgeDelete {pending : Purge.Pending} (hPending : s.purge = some pending) :
      Step wire s .purgeDelete
        { s with store := s.store.purgeDelete pending.expired, purge := none }
  | purgeFail : Step wire s .purgeFail { s with purge := none }
  | evict {key : CacheKey} (hFull : s.maxEntries ≤ s.ram.keys.card) :
      Step wire s (.evict key) { s with ram := s.ram.erase key }
  | sweep {key : CacheKey} {e : Entry} (hLookup : s.ram.lookup key = some e)
      (hDead : e.live s.clock = false) :
      Step wire s (.sweep key) { s with ram := s.ram.erase key }
  | restart (maxEntries : Nat) (loaded : Bool) :
      Step wire s (.restart maxEntries loaded) (restart s maxEntries loaded)

/-- What each event does, and when it can happen. -/
theorem step_cases {wire : Wire} {s s' : State} {e : Event} (hStep : step wire s e = some s') :
    Step wire s e s' := by
  cases e with
  | advance now =>
      simp only [step] at hStep
      split at hStep <;> [rename_i hLater; simp at hStep]
      obtain rfl := Option.some.inj hStep
      exact .advance hLater
  | fill key policy reply =>
      obtain ⟨value, hCached, rfl⟩ := Option.map_eq_some_iff.mp hStep
      exact .fill hCached
  | receive committed => exact .receive hStep
  | tick committed =>
      obtain rfl := Option.some.inj hStep
      exact .tick committed
  | purgeScan =>
      simp only [step] at hStep
      split at hStep <;> [simp at hStep; rename_i hIdle]
      obtain rfl := Option.some.inj hStep
      exact .purgeScan hIdle
  | purgeDelete =>
      simp only [step] at hStep
      split at hStep <;> [simp at hStep; rename_i pending hPending]
      obtain rfl := Option.some.inj hStep
      exact .purgeDelete hPending
  | purgeFail =>
      obtain rfl := Option.some.inj hStep
      exact .purgeFail
  | evict key =>
      simp only [step] at hStep
      split at hStep <;> [rename_i hFull; simp at hStep]
      obtain rfl := Option.some.inj hStep
      exact .evict hFull
  | sweep key =>
      simp only [step] at hStep
      split at hStep <;> [rename_i e hLookup; simp at hStep]
      split at hStep <;> [simp at hStep; rename_i hDead]
      obtain rfl := Option.some.inj hStep
      exact .sweep hLookup (by simpa using hDead)
  | restart maxEntries loaded =>
      obtain rfl := Option.some.inj hStep
      exact .restart maxEntries loaded

/-- Receiving takes one item, and flushes when the batch is full. -/
theorem receive_cases {s s' : State} {committed : Bool} (hReceive : receive s committed = some s') :
    ∃ p rest, s.channel = p :: rest ∧
      s' = if batchMax ≤ (s.buffer ++ [p]).length then
        flush { s with channel := rest, buffer := s.buffer ++ [p] } committed
      else { s with channel := rest, buffer := s.buffer ++ [p] } := by
  unfold receive at hReceive
  split at hReceive <;> [simp at hReceive; rename_i p rest hChannel]
  exact ⟨p, rest, hChannel, (Option.some.inj hReceive).symm⟩

/-- Only a fill adds to the record of fills. -/
theorem fills_of_step {wire : Wire} {s s' : State} {e : Event} (hStep : step wire s e = some s')
    (hFill : ∀ key policy reply, e ≠ .fill key policy reply) : s'.fills = s.fills := by
  cases step_cases hStep with
  | fill => exact absurd rfl (hFill _ _ _)
  | @receive s' committed hReceive =>
      obtain ⟨p, rest, -, rfl⟩ := receive_cases hReceive
      split
      · exact flush_fills _ committed
      · rfl
  | tick committed => exact flush_fills s committed
  | _ => rfl

/-- The reply is put into memory under its key, created now, and one copy of it
at the end of the channel if there is room. Nothing else changes. -/
structure Stores (s s' : State) (key : CacheKey) (value : CachedResponse) : Prop where
  ram : ∃ e : Entry, s'.ram = s.ram.insert key e ∧ e.value = value ∧ e.created = s.clock
  channel : s'.channel.map Persist.item = s.channel.map Persist.item ++
    if s.channel.length < persistChannelCap then [(key, value)] else []
  buffer : s'.buffer = s.buffer
  store : s'.store = s.store

/-- Nothing is put into memory or on the channel. -/
structure Drops (s s' : State) : Prop where
  ram : ∀ key e, s'.ram.lookup key = some e → s.ram.lookup key = some e
  channel : s'.channel <:+ s.channel

/-- A fill stores its value in RAM and sends it to the writer when there is
room. -/
theorem stores_fill (s : State) (key : CacheKey) (value : CachedResponse) :
    Stores s (fill s key value) key value where
  ram := ⟨⟨value, s.clock, s.fills.length⟩, rfl, rfl, rfl⟩
  channel := by
    unfold fill
    split <;> simp
  buffer := rfl
  store := rfl

theorem Drops.refl (s : State) : Drops s s := ⟨fun _ _ hLookup => hLookup, List.suffix_rfl⟩

/-- A flush takes nothing out of RAM or the channel. -/
theorem drops_flush (s : State) (committed : Bool) : Drops s (flush s committed) := by
  unfold flush
  split
  · exact .refl s
  · split <;> exact { Drops.refl s with }

/-- Dropping an entry adds nothing. -/
theorem drops_erase (s : State) (key : CacheKey) : Drops s { s with ram := s.ram.erase key } where
  ram := fun k e hLookup => by
    by_cases hKey : k = key
    · subst hKey
      simp at hLookup
    · rwa [Finmap.lookup_erase_ne hKey] at hLookup
  channel := List.suffix_rfl

/-- The layer on its own fills nothing in. -/
theorem drops_of_step {wire : Wire} {s s' : State} {e : Event} (hStep : step wire s e = some s')
    (hFill : ∀ key policy reply, e ≠ .fill key policy reply)
    (hRestart : ∀ maxEntries loaded, e ≠ .restart maxEntries loaded) : Drops s s' := by
  cases step_cases hStep with
  | fill => exact absurd rfl (hFill _ _ _)
  | restart => exact absurd rfl (hRestart _ _)
  | @receive s' committed hReceive =>
      obtain ⟨p, rest, hChannel, rfl⟩ := receive_cases hReceive
      have hTaken : Drops s { s with channel := rest, buffer := s.buffer ++ [p] } :=
        ⟨fun _ _ hLookup => hLookup, by rw [hChannel]; exact List.suffix_cons p rest⟩
      split
      · have hFlushed := drops_flush { s with channel := rest, buffer := s.buffer ++ [p] } committed
        exact ⟨fun key e hLookup => hTaken.ram key e (hFlushed.ram key e hLookup),
          hFlushed.channel.trans hTaken.channel⟩
      · exact hTaken
  | tick committed => exact drops_flush s committed
  | evict => exact drops_erase s _
  | sweep => exact drops_erase s _
  | _ => exact { Drops.refl s with }

/-- Each loaded key holds its item, created now. -/
theorem lookup_load {items : List Item} {now : UnixTime} {rowFill : Bytes → Nat}
    (hNodup : (items.map Prod.fst).Nodup) {key : CacheKey} {e : Entry} :
    (load items now rowFill).lookup key = some e ↔
      ∃ value, (key, value) ∈ items ∧ e = ⟨value, now, rowFill (encKey key)⟩ := by
  induction items using List.reverseRecOn with
  | nil => simp [load]
  | append_singleton front item ih =>
      rw [List.map_append, List.nodup_append] at hNodup
      obtain ⟨hFront, -, hDisjoint⟩ := hNodup
      have hFold : load (front ++ [item]) now rowFill =
          (load front now rowFill).insert item.1 ⟨item.2, now, rowFill (encKey item.1)⟩ := by
        simp [load, List.foldl_append]
      rw [hFold]
      by_cases hKey : key = item.1
      · subst hKey
        rw [Finmap.lookup_insert]
        have hNot : ∀ value, (item.1, value) ∉ front := fun value hMem =>
          hDisjoint item.1 (List.mem_map.mpr ⟨_, hMem, rfl⟩) item.1 (by simp) rfl
        constructor
        · intro hEq
          exact ⟨item.2, by simp, (Option.some.inj hEq).symm⟩
        · rintro ⟨value, hMem, rfl⟩
          rcases List.mem_append.mp hMem with hOld | hNew
          · exact absurd hOld (hNot value)
          · rw [← List.mem_singleton.mp hNew]
      · rw [Finmap.lookup_insert_of_ne _ hKey, ih hFront]
        have hNe : ∀ value, (key, value) ≠ item := fun value hEq => hKey (by rw [← hEq])
        simp [hNe]

theorem nodup_keys_warmLoad (s : State) (maxEntries : Nat) :
    (((s.store.readAllValid (nowUnix s.clock)).take maxEntries).map Prod.fst).Nodup := by
  rw [List.map_take]
  exact (s.store.nodup_keys_readAllValid _).sublist (List.take_sublist _ _)

end Cache

end RustDns
