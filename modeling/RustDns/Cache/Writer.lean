import RustDns.Cache.Layer
import RustDns.Library.Batching
import RustDns.Library.Run

/-! The write-behind task on its own, with no other task at the store: the
rounds of its loop, the batches it passes on, and what the store holds in the
end. The buffer of the cache layer is filled and flushed by the same rounds
(`push_ofLayer`, `flush_ofLayer`), so it never holds a whole batch there either
(`buffer_run`). -/
namespace RustDns

namespace Cache

open Codec

/-- A call of `write_batch`, and whether it succeeds. -/
structure WriteBatch where
  items : List Item
  committed : Bool

/-- `calls` is kept for the proofs only. -/
structure Writer where
  store : Store
  buf : List Item
  closed : Bool
  calls : List WriteBatch

/-- A round of the loop: an item from the channel, the end of the channel or a
tick. Should the round write a batch, `committed` says whether that succeeds. -/
inductive WriterEvent where
  | recv (maybe : Option Item) (committed : Bool)
  | tick (committed : Bool)

namespace WriterEvent

def item : WriterEvent → Option Item
  | recv maybe _ => maybe
  | tick _ => none

/-- All senders are gone. -/
def closes : WriterEvent → Bool
  | recv none _ => true
  | _ => false

end WriterEvent

/-- The items received, in order. -/
def received (es : List WriterEvent) : List Item := es.filterMap WriterEvent.item

namespace Writer

def start (store : Store) : Writer := ⟨store, [], false, []⟩

/-- A failed write changes nothing in the store, and the batch is lost. -/
def flush (w : Writer) (committed : Bool) : Writer :=
  if w.buf.isEmpty then w
  else
    { w with
      store := if committed then w.store.writeBatch w.buf else w.store
      buf := []
      calls := w.calls ++ [⟨w.buf, committed⟩] }

def push (w : Writer) (item : Item) (committed : Bool) : Writer :=
  let w' := { w with buf := w.buf ++ [item] }
  if batchMax ≤ w'.buf.length then w'.flush committed else w'

/-- A round of the loop. -/
def round (w : Writer) : WriterEvent → Writer
  | .recv (some item) committed => w.push item committed
  | .recv none committed => { w.flush committed with closed := true }
  | .tick committed => w.flush committed

/-- The loop ends with the channel. -/
def step (w : Writer) (e : WriterEvent) : Option Writer := if w.closed then none else some (w.round e)

/-- The batches whose write succeeded, end to end. -/
def persisted (w : Writer) : List Item :=
  (w.calls.filter WriteBatch.committed).flatMap WriteBatch.items

variable {w w' : Writer} {e : WriterEvent} {es : List WriterEvent} {store : Store}

/-- The writer's calls and its buffer, as batches. -/
structure Batched (b : Batching Item batchMax) (w : Writer) : Prop where
  calls : w.calls.map WriteBatch.items = b.batches
  buf : w.buf = b.buffer

theorem flush_buf (w : Writer) (committed : Bool) : (w.flush committed).buf = [] := by
  unfold flush
  split
  case isTrue hEmpty => exact List.isEmpty_iff.mp hEmpty
  case isFalse => rfl

/-- A flush closes the batch that waits, whatever becomes of the write. -/
theorem Batched.flush {b : Batching Item batchMax} (hBatched : Batched b w) (committed : Bool) :
    Batched b.flush (w.flush committed) := by
  constructor
  · rw [Batching.batches_flush, ← hBatched.calls, ← hBatched.buf]
    by_cases hEmpty : w.buf = [] <;> simp [Writer.flush, hEmpty]
  · rw [Batching.buffer_flush, flush_buf]

/-- The writer takes an item as a batcher does. -/
theorem Batched.push {b : Batching Item batchMax} (hBatched : Batched b w) (item : Item)
    (committed : Bool) : Batched (b.push item) (w.push item committed) := by
  constructor
  · rw [Batching.batches_push, ← hBatched.calls, ← hBatched.buf]
    unfold Writer.push
    dsimp only
    split
    · simp [Writer.flush]
    · rfl
  · rw [Batching.buffer_push, ← hBatched.buf]
    unfold Writer.push
    dsimp only
    split
    · apply flush_buf
    · rfl

theorem flush_closed (w : Writer) (committed : Bool) : (w.flush committed).closed = w.closed := by
  unfold flush
  split <;> rfl

theorem push_closed (w : Writer) (item : Item) (committed : Bool) :
    (w.push item committed).closed = w.closed := by
  unfold push
  dsimp only
  split
  · apply flush_closed
  · rfl

/-- The store holds the batches whose write succeeded, in order. -/
def Persisted (store : Store) (w : Writer) : Prop := w.store = store.writeBatch w.persisted

/-- A flush persists what its commit let through. -/
theorem Persisted.flush (hPersisted : Persisted store w) (committed : Bool) :
    Persisted store (w.flush committed) := by
  unfold Writer.flush
  split
  · exact hPersisted
  · cases committed with
    | false => simpa [Persisted, persisted] using hPersisted
    | true =>
        have hWritten : w.store.writeBatch w.buf = store.writeBatch (w.persisted ++ w.buf) := by
          rw [hPersisted, Store.writeBatch_append]
        simpa [Persisted, persisted] using hWritten

/-- An item is persisted once its batch is. -/
theorem Persisted.push (hPersisted : Persisted store w) (item : Item) (committed : Bool) :
    Persisted store (w.push item committed) := by
  have hPushed : Persisted store { w with buf := w.buf ++ [item] } := hPersisted
  unfold Writer.push
  dsimp only
  split
  · apply hPushed.flush
  · exact hPushed

/-- The rounds so far have made batches of what they received. -/
structure Whole (store : Store) (past : List WriterEvent) (w : Writer) : Prop where
  batched : ∃ b : Batching Item batchMax, Batched b w ∧ b.items = received past
  closed : w.closed = true → w.buf = []
  persisted : Persisted store w

theorem whole_start (store : Store) : Whole store [] (start store) where
  batched := ⟨Batching.empty (by decide), ⟨rfl, rfl⟩, rfl⟩
  closed := fun _ => rfl
  persisted := rfl

/-- What a round has received comes last. -/
theorem received_concat (past : List WriterEvent) (e : WriterEvent) :
    received (past ++ [e]) = received past ++ e.item.toList := by
  rw [received, List.filterMap_append]
  cases hItem : e.item <;> simp [hItem, received]

/-- A round is taken until the channel is closed. -/
theorem step_eq_some_iff : step w e = some w' ↔ w.closed = false ∧ w.round e = w' := by
  cases hClosed : w.closed <;> simp [step, hClosed]

/-- A round keeps the batches whole. -/
theorem whole_step {past : List WriterEvent} (hWhole : Whole store past w)
    (hStep : step w e = some w') : Whole store (past ++ [e]) w' := by
  obtain ⟨⟨b, hBatched, hItems⟩, -, hPersisted⟩ := hWhole
  obtain ⟨hOpen, rfl⟩ := step_eq_some_iff.mp hStep
  cases e with
  | recv maybe committed =>
      cases maybe with
      | none =>
          obtain ⟨hCalls, hBuf⟩ := hBatched.flush committed
          refine ⟨⟨b.flush, ⟨hCalls, hBuf⟩, ?_⟩, fun _ => flush_buf w committed,
            hPersisted.flush committed⟩
          rw [received_concat, Batching.items_flush, hItems]
          simp [WriterEvent.item]
      | some item =>
          refine ⟨⟨b.push item, hBatched.push item committed, ?_⟩, fun hClosed => ?_,
            hPersisted.push item committed⟩
          · rw [received_concat, Batching.items_push, hItems]
            rfl
          · rw [round, push_closed, hOpen] at hClosed
            exact absurd hClosed (by decide)
  | tick committed =>
      refine ⟨⟨b.flush, hBatched.flush committed, ?_⟩, fun _ => flush_buf w committed,
        hPersisted.flush committed⟩
      rw [received_concat, Batching.items_flush, hItems]
      simp [WriterEvent.item]

/-- In every run the batches are whole. -/
theorem whole_run (hRun : Machine.run step (start store) es = some w) : Whole store es w := by
  have hWhole : Whole store ([] ++ es) w :=
    Machine.run_invariant_past (fun _ _ _ _ hInv (_ : True) hStep => whole_step hInv hStep)
      (whole_start store) (Machine.along_of_mem (fun _ _ _ => trivial) _) hRun
  rwa [List.nil_append] at hWhole

/-- The writer inside the cache layer. -/
def ofLayer (s : State) (calls : List WriteBatch) : Writer :=
  ⟨s.store, s.buffer.map Persist.item, false, calls⟩

/-- The cache layer flushes as the writer does. -/
theorem flush_ofLayer (s : State) (calls : List WriteBatch) (committed : Bool) :
    ∃ calls', (ofLayer s calls).flush committed = ofLayer (Cache.flush s committed) calls' := by
  by_cases hEmpty : s.buffer = []
  · exact ⟨calls, by simp [Writer.flush, Cache.flush, ofLayer, hEmpty]⟩
  · refine ⟨calls ++ [⟨s.buffer.map Persist.item, committed⟩], ?_⟩
    cases committed <;> simp [Writer.flush, Cache.flush, ofLayer, hEmpty]

/-- A receive of the layer is a round of the writer on the head of the
channel. -/
theorem push_ofLayer {s s' : State} {committed : Bool} (hReceive : receive s committed = some s')
    (calls : List WriteBatch) :
    ∃ p rest calls', s.channel = p :: rest ∧
      (ofLayer s calls).push p.item committed = ofLayer s' calls' := by
  obtain ⟨p, rest, hChannel, rfl⟩ := receive_cases hReceive
  have hPushed : ofLayer { s with channel := rest, buffer := s.buffer ++ [p] } calls =
      { ofLayer s calls with buf := (ofLayer s calls).buf ++ [p.item] } := by
    simp [ofLayer]
  have hLength : ((ofLayer s calls).buf ++ [p.item]).length = (s.buffer ++ [p]).length := by
    simp [ofLayer]
  have hPush : (ofLayer s calls).push p.item committed =
      if batchMax ≤ (s.buffer ++ [p]).length then
        (ofLayer { s with channel := rest, buffer := s.buffer ++ [p] } calls).flush committed
      else ofLayer { s with channel := rest, buffer := s.buffer ++ [p] } calls := by
    rw [hPushed, ← hLength]
    rfl
  split at hPush
  case isTrue hFull =>
    obtain ⟨calls', hFlush⟩ :=
      flush_ofLayer { s with channel := rest, buffer := s.buffer ++ [p] } calls committed
    exact ⟨p, rest, calls', hChannel, by rw [if_pos hFull, hPush, hFlush]⟩
  case isFalse hRoom => exact ⟨p, rest, calls, hChannel, by rw [if_neg hRoom, hPush]⟩

/-- A step of the cache layer is a round of the writer, or none. -/
theorem batched_layer_step {wire : Wire} {s s' : State} {e : Event}
    (hBatched : ∃ b calls, Batched b (ofLayer s calls)) (hStep : Cache.step wire s e = some s') :
    ∃ b calls, Batched b (ofLayer s' calls) := by
  obtain ⟨b, calls, hBatched⟩ := hBatched
  cases step_cases hStep with
  | @receive s' committed hReceive =>
      obtain ⟨p, rest, calls', -, hPush⟩ := push_ofLayer hReceive calls
      exact ⟨b.push p.item, calls', hPush ▸ hBatched.push p.item committed⟩
  | tick committed =>
      obtain ⟨calls', hFlush⟩ := flush_ofLayer s calls committed
      exact ⟨b.flush, calls', hFlush ▸ hBatched.flush committed⟩
  | restart => exact ⟨Batching.empty (by decide), [], rfl, rfl⟩
  | _ => exact ⟨b, calls, hBatched.calls, hBatched.buf⟩

/-- In the layer too the buffer never holds a whole batch between two steps. -/
theorem buffer_run {wire : Wire} {now : UnixTime} {maxEntries : Nat} {events : List Event}
    {s : State} (hRun : Machine.run (Cache.step wire) (init now maxEntries) events = some s) :
    s.buffer.length < batchMax := by
  have hStart : ∃ b calls, Batched b (ofLayer (init now maxEntries) calls) :=
    ⟨Batching.empty (by decide), [], rfl, rfl⟩
  obtain ⟨b, calls, -, hBuf⟩ := Machine.run_invariant (fun _ _ _ => batched_layer_step) hStart hRun
  have hRoom := b.room
  rwa [← hBuf, ofLayer, List.length_map] at hRoom

/-- The batches cut what is received into pieces of 1 to 256 items. Nothing is
left over in the end, and every item is then in one place of one batch. A key
holds the last value of the batches that were written, or what it held before
when they have none. -/
theorem batches_partition (hRun : Machine.run step (start store) es = some w) :
    w.calls.flatMap WriteBatch.items ++ w.buf = received es ∧
      (∀ call ∈ w.calls, call.items ≠ [] ∧ call.items.length ≤ 256) ∧
      (w.closed = true → w.buf = [] ∧ w.calls.flatMap WriteBatch.items = received es ∧
        ∀ i item, (received es)[i]? = some item →
          ∃! place : Nat × Nat,
            i = Batching.offset (w.calls.map WriteBatch.items) place.1 + place.2 ∧
            ∃ call, w.calls[place.1]? = some call ∧ call.items[place.2]? = some item) ∧
      ∀ key, w.store[encKey key]? =
        ((Store.lastFor key w.persisted).map encVal).or store[encKey key]? := by
  obtain ⟨⟨b, ⟨hCalls, hBuf⟩, hItems⟩, hClosed, hPersisted⟩ := whole_run hRun
  have hWhole : w.calls.flatMap WriteBatch.items ++ w.buf = received es := by
    rw [List.flatMap_def, hCalls, hBuf]
    exact hItems
  refine ⟨hWhole, fun call hMem => ?_, fun hEnd => ?_, fun key => ?_⟩
  · apply b.sized
    rw [← hCalls]
    exact List.mem_map.mpr ⟨call, hMem, rfl⟩
  · have hEmpty := hClosed hEnd
    rw [hEmpty, List.append_nil] at hWhole
    refine ⟨hEmpty, hWhole, fun i item hItem => ?_⟩
    rw [← hWhole, List.flatMap_def] at hItem
    have hPlace := Batching.existsUnique_place hItem
    simpa only [List.getElem?_map, Option.map_eq_some_iff, exists_exists_and_eq_and] using hPlace
  · rw [hPersisted]
    exact store.getElem?_writeBatch w.persisted key

def sessionKey : CacheKey := ⟨"a.example".toList, RecordType.a⟩

/-- Three values of one key in two batches, the second of which is lost, and
an item that the end of the channel flushes. -/
def session : List WriterEvent :=
  [.recv (some (sessionKey, ⟨[0, 1], 5, 5⟩)) true, .recv (some (sessionKey, ⟨[0, 2], 6, 6⟩)) true,
    .tick true, .recv (some (sessionKey, ⟨[0, 3], 7, 7⟩)) true, .tick false,
    .recv (some (⟨"b.example".toList, RecordType.a⟩, ⟨[0, 4], 8, 8⟩)) true, .recv none true]

/-- The session's batches, one of them failed, hold the items in their order. -/
theorem batches_partition_session :
    ∃ w, Machine.run step (start ∅) session = some w ∧
      w.calls.map (fun call => call.items.length) = [2, 1, 1] ∧
      w.calls.flatMap WriteBatch.items = received session ∧
      w.store[encKey sessionKey]? = some (encVal ⟨[0, 2], 6, 6⟩) := by
  have hEnd : ((Machine.run step (start ∅) session).map fun w =>
      (w.calls.map (fun call => call.items.length), w.closed,
        Store.lastFor sessionKey w.persisted)) = some ([2, 1, 1], true, some ⟨[0, 2], 6, 6⟩) := by
    decide +kernel
  obtain ⟨w, hRun, hValues⟩ := Option.map_eq_some_iff.mp hEnd
  simp only [Prod.mk.injEq] at hValues
  obtain ⟨hSizes, hClosed, hLast⟩ := hValues
  obtain ⟨-, -, hAll, hStore⟩ := batches_partition hRun
  refine ⟨w, hRun, hSizes, (hAll hClosed).2.1, ?_⟩
  rw [hStore, hLast]
  rfl

end Writer

end Cache

end RustDns
