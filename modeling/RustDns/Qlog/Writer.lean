import RustDns.Library.Batching
import RustDns.Qlog.Retention

/-! The writer task in one process: records are buffered and flushed into
segments, by number, by the clock and when the channel closes. -/
namespace RustDns

namespace Qlog

/-- `received` and `flushed` are kept for the proofs: all records in the order
they came, and the batch of every call with the name of its segment. -/
structure Writer where
  seg : State
  buffer : List LogRecord
  closed : Bool
  crashed : Bool
  received : List LogRecord
  flushed : List (Str × List LogRecord)

inductive WriterEvent where
  | receive (r : LogRecord) (nowMs : Nat)
  | tick (nowMs : Nat)
  | close (nowMs : Nat)
  | segment (e : Event)
  | crash

namespace Writer

def start : Writer := ⟨⟨∅, 0, none⟩, [], false, false, [], []⟩

/-- Between two rounds of the loop: no call is under way. -/
def waiting (w : Writer) : Bool := w.seg.call.isNone && !w.closed && !w.crashed

/-- The buffer is taken and written, unless it is empty. -/
def flush (w : Writer) (nowMs : Nat) : Writer :=
  if w.buffer.isEmpty then w
  else
    { w with
      seg := begin w.seg w.buffer nowMs
      buffer := []
      flushed := w.flushed ++ [(segmentName nowMs w.seg.seq, w.buffer)] }

def receive (w : Writer) (flushRows : Nat) (r : LogRecord) (nowMs : Nat) : Writer :=
  let pushed := { w with buffer := w.buffer ++ [r], received := w.received ++ [r] }
  if max flushRows 1 ≤ pushed.buffer.length then pushed.flush nowMs else pushed

/-- A step of the call under way; calls are started by the loop only. -/
def segment (arrow : Arrow) (maxBytes : Nat) (w : Writer) (e : Event) : Option Writer :=
  match e with
  | .call _ _ | .crash => none
  | _ => (Qlog.step arrow maxBytes w.seg e).map fun seg => { w with seg := seg }

def step (arrow : Arrow) (maxBytes flushRows : Nat) (w : Writer) : WriterEvent → Option Writer
  | .receive r nowMs => if w.waiting then some (w.receive flushRows r nowMs) else none
  | .tick nowMs => if w.waiting then some (w.flush nowMs) else none
  | .close nowMs => if w.waiting then some { w.flush nowMs with closed := true } else none
  | .segment e => if w.crashed then none else segment arrow maxBytes w e
  | .crash => some { w with crashed := true }

end Writer

/-- The file is what the Arrow writer makes of the records. -/
def Holds (arrow : Arrow) (bytes : Bytes) (recs : List LogRecord) : Prop :=
  ∃ batch, buildBatch recs = some batch ∧ bytes = arrow.write batch

/-- A reader of the file finds the records in order. -/
theorem Holds.rows {arrow : Arrow} {bytes : Bytes} {recs : List LogRecord}
    (hHolds : Holds arrow bytes recs) : (arrow.read bytes).map RecordBatch.rows = some recs := by
  obtain ⟨batch, hBatch, rfl⟩ := hHolds
  obtain ⟨batch', hBatch', hRows⟩ := buildBatch_spec recs
  obtain rfl := Option.some.inj (hBatch.symm.trans hBatch')
  rw [arrow.read_write, Option.map_some, hRows]

/-- Every segment is the batch of one call, whole. -/
structure Stored (arrow : Arrow) (seg : State) (flushed : List (Str × List LogRecord)) : Prop where
  seq : seg.seq = flushed.length
  names : ∀ (i : Nat) p, flushed[i]? = some p → ∃ nowMs, p.1 = segmentName nowMs i
  call : ∀ c, seg.call = some c → flushed.getLast? = some (c.name, c.records) ∧
    buildBatch c.records = some c.batch
  temp : ∀ c, seg.call = some c → c.phase = .closed →
    seg.files.lookup (tempName c.name) = some (arrow.write c.batch)
  files : ∀ name bytes, seg.files.lookup name = some bytes → isSegment name = true →
    ∃ recs, (name, recs) ∈ flushed ∧ Holds arrow bytes recs

section

variable {arrow : Arrow} {maxBytes : Nat} {seg seg' : State}
  {flushed : List (Str × List LogRecord)} {e : Event}

/-- A call names its segment by the number of calls so far. -/
theorem Stored.begin (recs : List LogRecord) (nowMs : Nat) (hStored : Stored arrow seg flushed) :
    Stored arrow (begin seg recs nowMs) (flushed ++ [(segmentName nowMs seg.seq, recs)]) := by
  obtain ⟨batch, hBatch, -⟩ := buildBatch_spec recs
  simp only [Qlog.begin, hBatch]
  exact
    { seq := by simp [hStored.seq]
      names := fun i p hGet => by
        rcases Nat.lt_or_ge i flushed.length with hOld | hNew
        · exact hStored.names i p (by rwa [List.getElem?_append_left hOld] at hGet)
        · rw [List.getElem?_append_right hNew] at hGet
          obtain ⟨hIndex, rfl⟩ : i - flushed.length = 0 ∧ (segmentName nowMs seg.seq, recs) = p := by
            simpa [List.getElem?_singleton] using hGet
          obtain rfl : i = flushed.length := by omega
          exact ⟨nowMs, by rw [hStored.seq]⟩
      call := fun c hCall => by
        obtain rfl := Option.some.inj hCall
        exact ⟨List.getLast?_concat, hBatch⟩
      temp := fun c hCall hPhase => by
        obtain rfl := Option.some.inj hCall
        simp at hPhase
      files := fun name bytes hLookup hSegment => by
        obtain ⟨recs', hMem, hHolds⟩ := hStored.files name bytes hLookup hSegment
        exact ⟨recs', List.mem_append_left _ hMem, hHolds⟩ }

/-- No segment is a temporary file. -/
theorem ne_tempName {name name' : Str} (hSegment : isSegment name = true) : name ≠ tempName name' := by
  rintro rfl
  rw [isSegment_tempName] at hSegment
  exact absurd hSegment (by decide)

/-- Writing to the temporary file changes no segment. -/
theorem Stored.temporary {c : Call} {bytes : Bytes} {phase : CallPhase}
    (hStored : Stored arrow seg flushed) (hCall : seg.call = some c)
    (hTemp : phase = .closed → bytes = arrow.write c.batch) :
    Stored arrow
      { seg with
        files := seg.files.insert (tempName c.name) bytes
        call := some { c with phase := phase } } flushed where
  seq := hStored.seq
  names := hStored.names
  call := fun c' hCall' => by
    obtain rfl := Option.some.inj hCall'
    exact hStored.call c hCall
  temp := fun c' hCall' hPhase => by
    obtain rfl := Option.some.inj hCall'
    rw [← hTemp hPhase]
    exact AList.lookup_insert seg.files
  files := fun name found hLookup hSegment => by
    have hOld : seg.files.lookup name = some found := by
      rwa [AList.lookup_insert_ne (ne_tempName hSegment)] at hLookup
    exact hStored.files name found hOld hSegment

/-- A step that removes files at most, and moves the call on past the
rename. -/
theorem Stored.shrink {files : Dir} {call : Option Call} (hStored : Stored arrow seg flushed)
    (hFiles : ∀ name bytes, files.lookup name = some bytes → seg.files.lookup name = some bytes)
    (hCall : ∀ c', call = some c' → c'.phase ≠ .closed ∧ ∃ c, seg.call = some c ∧
      c'.name = c.name ∧ c'.records = c.records ∧ c'.batch = c.batch) :
    Stored arrow { seg with files := files, call := call } flushed where
  seq := hStored.seq
  names := hStored.names
  call := fun c' hCall' => by
    obtain ⟨-, c, hOld, hName, hRecords, hBatch⟩ := hCall c' hCall'
    rw [hName, hRecords, hBatch]
    exact hStored.call c hOld
  temp := fun c' hCall' hPhase => absurd hPhase (hCall c' hCall').1
  files := fun name bytes hLookup => hStored.files name bytes (hFiles name bytes hLookup)

theorem lookup_of_erase {files : Dir} {gone name : Str} {bytes : Bytes}
    (hLookup : (files.erase gone).lookup name = some bytes) : files.lookup name = some bytes := by
  by_cases hName : name = gone
  · subst hName
    rw [AList.lookup_erase] at hLookup
    exact absurd hLookup (by simp)
  · rwa [AList.lookup_erase_ne hName] at hLookup

/-- The rename publishes the batch of the call. -/
theorem Stored.rename {c : Call} {bytes : Bytes} (hStored : Stored arrow seg flushed)
    (hCall : seg.call = some c) (hPhase : c.phase = .closed)
    (hTemp : seg.files.lookup (tempName c.name) = some bytes) :
    Stored arrow
      { seg with
        files := (seg.files.erase (tempName c.name)).insert c.name bytes
        call := some { c with phase := .renamed } } flushed where
  seq := hStored.seq
  names := hStored.names
  call := fun c' hCall' => by
    obtain rfl := Option.some.inj hCall'
    exact hStored.call c hCall
  temp := fun c' hCall' hPhase' => by
    obtain rfl := Option.some.inj hCall'
    simp at hPhase'
  files := fun name found hLookup hSegment => by
    obtain ⟨hLast, hBatch⟩ := hStored.call c hCall
    by_cases hName : name = c.name
    · subst hName
      obtain rfl := Option.some.inj ((AList.lookup_insert _).symm.trans hLookup)
      have hWritten := Option.some.inj (hTemp.symm.trans (hStored.temp c hCall hPhase))
      exact ⟨c.records, List.mem_of_getLast? hLast, c.batch, hBatch, hWritten⟩
    · rw [AList.lookup_insert_ne hName] at hLookup
      exact hStored.files name found (lookup_of_erase hLookup) hSegment

/-- A step of a call leaves every segment the batch of one call, whole. -/
theorem Stored.step (hStored : Stored arrow seg flushed) (hStep : step arrow maxBytes seg e = some seg')
    (hCall : ∀ recs nowMs, e ≠ .call recs nowMs) (hCrash : e ≠ .crash) :
    Stored arrow seg' flushed := by
  cases step_cases hStep with
  | call nowMs _ _ => exact absurd rfl (hCall _ nowMs)
  | create hNow hPhase => exact hStored.temporary hNow (by simp)
  | @write c bytes hNow hPhase =>
      have hSame : seg.call = some { c with phase := .created } := by rw [hNow, ← hPhase]
      have hWritten : Stored arrow
          { seg with
            files := seg.files.insert (tempName c.name) ((arrow.write c.batch).take bytes)
            call := some { c with phase := .created } } flushed :=
        hStored.temporary hNow (by simp)
      rwa [← hSame] at hWritten
  | close hNow hPhase => exact hStored.temporary hNow fun _ => rfl
  | rename hNow hPhase hTemp => exact hStored.rename hNow hPhase hTemp
  | readDir unread hNow hPhase =>
      refine hStored.shrink (fun _ _ hLookup => hLookup) fun c' hEq => ?_
      obtain rfl := Option.some.inj hEq
      exact ⟨by simp, _, hNow, rfl, rfl, rfl⟩
  | remove hNow hPhase hOver =>
      refine hStored.shrink (fun _ _ => lookup_of_erase) fun c' hEq => ?_
      obtain rfl := Option.some.inj hEq
      exact ⟨by simp, _, hNow, rfl, rfl, rfl⟩
  | skip hNow hPhase hOver =>
      refine hStored.shrink (fun _ _ hLookup => hLookup) fun c' hEq => ?_
      obtain rfl := Option.some.inj hEq
      exact ⟨by simp, _, hNow, rfl, rfl, rfl⟩
  | finish hNow hPhase hDone => exact hStored.shrink (fun _ _ hLookup => hLookup) (by simp)
  | fail hNow hPhase => exact hStored.shrink (fun _ _ hLookup => hLookup) (by simp)
  | crash => exact absurd rfl hCrash

/-- Flushed segments have different names. -/
theorem Stored.nodup (hStored : Stored arrow seg flushed) : (flushed.map Prod.fst).Nodup := by
  refine List.nodup_iff_getElem?_ne_getElem?.mpr fun i j hLt hBound hEq => ?_
  rw [List.length_map] at hBound
  rw [List.getElem?_map, List.getElem?_map, List.getElem?_eq_getElem (by omega),
    List.getElem?_eq_getElem hBound] at hEq
  obtain ⟨nowMs, hName⟩ := hStored.names i _ (List.getElem?_eq_getElem (by omega))
  obtain ⟨nowMs', hName'⟩ := hStored.names j _ (List.getElem?_eq_getElem hBound)
  have hSame : segmentName nowMs i = segmentName nowMs' j := by
    rw [← hName, ← hName']
    exact Option.some.inj hEq
  have hIndex := (segmentName_injective hSame).2
  omega

/-- Flushed segments are named as segments are. -/
theorem Stored.isSegment (hStored : Stored arrow seg flushed) {p : Str × List LogRecord}
    (hMem : p ∈ flushed) : isSegment p.1 = true := by
  obtain ⟨i, hGet⟩ := List.mem_iff_getElem?.mp hMem
  obtain ⟨nowMs, hName⟩ := hStored.names i p hGet
  rw [hName]
  exact isSegment_segmentName nowMs i

/-- Before the rename. -/
def CallPhase.unpublished : CallPhase → Bool
  | .named | .created | .closed => true
  | .renamed | .retaining _ _ => false

/-- Every batch is in its segment, but perhaps that of the call under way. -/
def Kept (arrow : Arrow) (seg : State) (flushed : List (Str × List LogRecord)) : Prop :=
  ∀ p ∈ flushed, (∃ bytes, seg.files.lookup p.1 = some bytes ∧ Holds arrow bytes p.2) ∨
    ∃ c, seg.call = some c ∧ p = (c.name, c.records) ∧ c.phase.unpublished = true

/-- A step of a call that goes well and removes nothing. -/
def Event.succeeds : Event → Bool
  | .fail | .crash | .remove true => false
  | _ => true

def WriterEvent.succeeds : WriterEvent → Bool
  | .segment e => e.succeeds
  | .crash => false
  | _ => true

/-- A call that begins has still to publish its segment. -/
theorem kept_begin (recs : List LogRecord) (nowMs : Nat) (hKept : Kept arrow seg flushed)
    (hIdle : seg.call = none) :
    Kept arrow (begin seg recs nowMs) (flushed ++ [(segmentName nowMs seg.seq, recs)]) := by
  obtain ⟨batch, hBatch, -⟩ := buildBatch_spec recs
  intro p hMem
  simp only [Qlog.begin, hBatch]
  rcases List.mem_append.mp hMem with hOld | hNew
  · rcases hKept p hOld with hThere | ⟨c, hCall, -⟩
    · exact Or.inl hThere
    · rw [hIdle] at hCall
      exact absurd hCall (by simp)
  · obtain rfl := List.mem_singleton.mp hNew
    exact Or.inr ⟨_, rfl, rfl, rfl⟩

/-- Writing a temporary file changes no published segment. -/
theorem kept_temporary {c : Call} {bytes : Bytes} {phase : CallPhase}
    (hStored : Stored arrow seg flushed) (hKept : Kept arrow seg flushed)
    (hCall : seg.call = some c) (hPhase : phase.unpublished = true) :
    Kept arrow
      { seg with
        files := seg.files.insert (tempName c.name) bytes
        call := some { c with phase := phase } } flushed := by
  intro p hMem
  rcases hKept p hMem with ⟨found, hLookup, hHolds⟩ | ⟨c', hCall', hBatch, -⟩
  · refine Or.inl ⟨found, ?_, hHolds⟩
    rw [AList.lookup_insert_ne (ne_tempName (hStored.isSegment hMem)), hLookup]
  · obtain rfl := Option.some.inj (hCall'.symm.trans hCall)
    exact Or.inr ⟨_, rfl, hBatch, hPhase⟩

/-- Renaming publishes the segment of the call with its records. -/
theorem kept_rename {c : Call} {bytes : Bytes} (hStored : Stored arrow seg flushed)
    (hKept : Kept arrow seg flushed) (hCall : seg.call = some c) (hPhase : c.phase = .closed)
    (hTemp : seg.files.lookup (tempName c.name) = some bytes) :
    Kept arrow
      { seg with
        files := (seg.files.erase (tempName c.name)).insert c.name bytes
        call := some { c with phase := .renamed } } flushed := by
  obtain ⟨hLast, hBatch⟩ := hStored.call c hCall
  have hWritten := Option.some.inj (hTemp.symm.trans (hStored.temp c hCall hPhase))
  intro p hMem
  by_cases hName : p.1 = c.name
  · -- names are distinct, so this is the batch of the call
    obtain rfl : p = (c.name, c.records) :=
      List.inj_on_of_nodup_map hStored.nodup hMem (List.mem_of_getLast? hLast) hName
    exact Or.inl ⟨bytes, AList.lookup_insert _, c.batch, hBatch, hWritten⟩
  · rcases hKept p hMem with ⟨found, hLookup, hHolds⟩ | ⟨c', hCall', hSame, -⟩
    · refine Or.inl ⟨found, ?_, hHolds⟩
      rw [AList.lookup_insert_ne hName,
        AList.lookup_erase_ne (ne_tempName (hStored.isSegment hMem)), hLookup]
    · obtain rfl := Option.some.inj (hCall'.symm.trans hCall)
      exact absurd (congrArg Prod.fst hSame) hName

/-- After the rename the call may go on or end. -/
theorem kept_published {c : Call} {call : Option Call} (hKept : Kept arrow seg flushed)
    (hCall : seg.call = some c) (hPhase : c.phase.unpublished = false) :
    Kept arrow { seg with call := call } flushed := by
  intro p hMem
  rcases hKept p hMem with hThere | ⟨c', hCall', -, hUnpublished⟩
  · exact Or.inl hThere
  · obtain rfl := Option.some.inj (hCall'.symm.trans hCall)
    rw [hPhase] at hUnpublished
    exact absurd hUnpublished (by decide)

/-- A step of a call that goes well and removes nothing keeps every batch. -/
theorem kept_step (hStored : Stored arrow seg flushed) (hKept : Kept arrow seg flushed)
    (hSucceeds : e.succeeds = true) (hCall : ∀ recs nowMs, e ≠ .call recs nowMs)
    (hStep : step arrow maxBytes seg e = some seg') : Kept arrow seg' flushed := by
  cases step_cases hStep with
  | call nowMs _ _ => exact absurd rfl (hCall _ nowMs)
  | create hNow hPhase => exact kept_temporary hStored hKept hNow rfl
  | @write c bytes hNow hPhase =>
      have hSame : seg.call = some { c with phase := .created } := by rw [hNow, ← hPhase]
      have hWritten : Kept arrow
          { seg with
            files := seg.files.insert (tempName c.name) ((arrow.write c.batch).take bytes)
            call := some { c with phase := .created } } flushed :=
        kept_temporary hStored hKept hNow rfl
      rwa [← hSame] at hWritten
  | close hNow hPhase => exact kept_temporary hStored hKept hNow rfl
  | rename hNow hPhase hTemp => exact kept_rename hStored hKept hNow hPhase hTemp
  | readDir unread hNow hPhase => exact kept_published hKept hNow (by rw [hPhase]; rfl)
  | remove hNow hPhase hOver => exact absurd hSucceeds (by simp [Event.succeeds])
  | skip hNow hPhase hOver => exact kept_published hKept hNow (by rw [hPhase]; rfl)
  | finish hNow hPhase hDone => exact kept_published hKept hNow (by rw [hPhase]; rfl)
  | fail hNow hPhase => exact absurd hSucceeds (by simp [Event.succeeds])
  | crash => exact absurd hSucceeds (by simp [Event.succeeds])

end

namespace Writer

variable {arrow : Arrow} {maxBytes flushRows : Nat} {w w' : Writer} {e : WriterEvent}

/-- The batches of the calls and the buffer are the records in order. -/
structure Whole (arrow : Arrow) (flushRows : Nat) (w : Writer) : Prop where
  received : w.received = (w.flushed.map Prod.snd).flatten ++ w.buffer
  buffer : w.buffer.length < max flushRows 1
  closed : w.closed = true → w.buffer = []
  stored : Stored arrow w.seg w.flushed

/-- A writer that has not started has nothing to show. -/
theorem whole_start : Whole arrow flushRows start where
  received := rfl
  buffer := by simp [start]
  closed := fun _ => rfl
  stored :=
    { seq := rfl
      names := by simp [start]
      call := by simp [start]
      temp := by simp [start]
      files := by simp [start] }

/-- A flush empties the buffer. -/
theorem flush_buffer (w : Writer) (nowMs : Nat) : (w.flush nowMs).buffer = [] := by
  unfold flush
  split
  case isTrue hEmpty => exact List.isEmpty_iff.mp hEmpty
  case isFalse => rfl

/-- A flush leaves an empty buffer and makes a call of what was in it. -/
theorem whole_flush (nowMs : Nat) (hStored : Stored arrow w.seg w.flushed)
    (hReceived : w.received = (w.flushed.map Prod.snd).flatten ++ w.buffer) :
    Whole arrow flushRows (w.flush nowMs) where
  received := by
    unfold flush
    split
    · exact hReceived
    · simp [hReceived]
  buffer := by
    rw [flush_buffer, List.length_nil]
    omega
  closed := fun _ => flush_buffer w nowMs
  stored := by
    unfold flush
    split
    · exact hStored
    · exact hStored.begin w.buffer nowMs

/-- The writer's calls and its buffer, as batches. -/
structure Batched (b : Batching LogRecord (max flushRows 1)) (w : Writer) : Prop where
  flushed : w.flushed.map Prod.snd = b.batches
  buffer : w.buffer = b.buffer

/-- The writer flushes as a batcher does. -/
theorem Batched.flush {b : Batching LogRecord (max flushRows 1)} (hBatched : Batched b w)
    (nowMs : Nat) : Batched b.flush (w.flush nowMs) := by
  constructor
  · rw [Batching.batches_flush, ← hBatched.flushed, ← hBatched.buffer]
    by_cases hEmpty : w.buffer = [] <;> simp [Writer.flush, hEmpty]
  · rw [Batching.buffer_flush, flush_buffer]

/-- The writer takes a record as a batcher does. -/
theorem Batched.receive {b : Batching LogRecord (max flushRows 1)} (hBatched : Batched b w)
    (r : LogRecord) (nowMs : Nat) : Batched (b.push r) (w.receive flushRows r nowMs) := by
  constructor
  · rw [Batching.batches_push, ← hBatched.flushed, ← hBatched.buffer]
    unfold Writer.receive
    dsimp only
    split
    · simp [Writer.flush]
    · rfl
  · rw [Batching.buffer_push, ← hBatched.buffer]
    unfold Writer.receive
    dsimp only
    split
    · apply flush_buffer
    · rfl

/-- A flush begins a call over the buffer. -/
theorem kept_flush (nowMs : Nat) (hIdle : w.seg.call = none) (hKept : Kept arrow w.seg w.flushed) :
    Kept arrow (w.flush nowMs).seg (w.flush nowMs).flushed := by
  unfold flush
  split
  · exact hKept
  · exact kept_begin w.buffer nowMs hKept hIdle

/-- A writer that waits has no call and has not been closed. -/
theorem idle_of_waiting (hWaiting : w.waiting = true) : w.seg.call = none ∧ w.closed = false := by
  simp only [waiting, Bool.and_eq_true, Option.isNone_iff_eq_none, Bool.not_eq_true'] at hWaiting
  exact hWaiting.1

/-- A step of the call changes the files and the call only. -/
theorem segment_cases {e : Event} (hSegment : segment arrow maxBytes w e = some w') :
    (∀ recs nowMs, e ≠ .call recs nowMs) ∧ e ≠ .crash ∧
      ∃ seg, Qlog.step arrow maxBytes w.seg e = some seg ∧ w' = { w with seg := seg } := by
  cases e with
  | call recs nowMs => simp [segment] at hSegment
  | crash => simp [segment] at hSegment
  | _ =>
      simp only [segment] at hSegment
      obtain ⟨seg, hStep, rfl⟩ := Option.map_eq_some_iff.mp hSegment
      exact ⟨by simp, by simp, seg, hStep, rfl⟩

/-- The steps of the writer, each with what it finds. -/
inductive Step (arrow : Arrow) (maxBytes flushRows : Nat) (w : Writer) :
    WriterEvent → Writer → Prop where
  | receive (r : LogRecord) (nowMs : Nat) (hIdle : w.seg.call = none) (hOpen : w.closed = false) :
      Step arrow maxBytes flushRows w (.receive r nowMs) (w.receive flushRows r nowMs)
  | tick (nowMs : Nat) (hIdle : w.seg.call = none) (hOpen : w.closed = false) :
      Step arrow maxBytes flushRows w (.tick nowMs) (w.flush nowMs)
  | close (nowMs : Nat) (hIdle : w.seg.call = none) (hOpen : w.closed = false) :
      Step arrow maxBytes flushRows w (.close nowMs) { w.flush nowMs with closed := true }
  | segment {e : Event} {seg : State} (hCall : ∀ recs nowMs, e ≠ .call recs nowMs)
      (hCrash : e ≠ .crash) (hSegment : Qlog.step arrow maxBytes w.seg e = some seg) :
      Step arrow maxBytes flushRows w (.segment e) { w with seg := seg }
  | crash : Step arrow maxBytes flushRows w .crash { w with crashed := true }

/-- What each event does, and when it can happen. -/
theorem step_cases (hStep : step arrow maxBytes flushRows w e = some w') :
    Step arrow maxBytes flushRows w e w' := by
  cases e with
  | receive r nowMs =>
      simp only [step] at hStep
      split at hStep <;> [rename_i hWaiting; simp at hStep]
      obtain rfl := Option.some.inj hStep
      obtain ⟨hIdle, hOpen⟩ := idle_of_waiting hWaiting
      exact .receive r nowMs hIdle hOpen
  | tick nowMs =>
      simp only [step] at hStep
      split at hStep <;> [rename_i hWaiting; simp at hStep]
      obtain rfl := Option.some.inj hStep
      obtain ⟨hIdle, hOpen⟩ := idle_of_waiting hWaiting
      exact .tick nowMs hIdle hOpen
  | close nowMs =>
      simp only [step] at hStep
      split at hStep <;> [rename_i hWaiting; simp at hStep]
      obtain rfl := Option.some.inj hStep
      obtain ⟨hIdle, hOpen⟩ := idle_of_waiting hWaiting
      exact .close nowMs hIdle hOpen
  | segment e =>
      simp only [step] at hStep
      split at hStep <;> [simp at hStep; skip]
      obtain ⟨hCall, hCrash, seg, hSegment, rfl⟩ := segment_cases hStep
      exact .segment hCall hCrash hSegment
  | crash =>
      obtain rfl := Option.some.inj hStep
      exact .crash

/-- A step keeps the segments whole. -/
theorem whole_step (hWhole : Whole arrow flushRows w)
    (hStep : step arrow maxBytes flushRows w e = some w') : Whole arrow flushRows w' := by
  cases step_cases hStep with
  | receive r nowMs hIdle hOpen =>
      have hReceived : w.received ++ [r] =
          (w.flushed.map Prod.snd).flatten ++ (w.buffer ++ [r]) := by
        rw [hWhole.received, List.append_assoc]
      unfold receive
      dsimp only
      split
      · exact whole_flush nowMs hWhole.stored hReceived
      · rename_i hRoom
        refine ⟨hReceived, Nat.lt_of_not_le hRoom, fun hClosed => ?_, hWhole.stored⟩
        rw [hOpen] at hClosed
        exact absurd hClosed (by decide)
  | tick nowMs hIdle hOpen => exact whole_flush nowMs hWhole.stored hWhole.received
  | close nowMs hIdle hOpen =>
      have hFlushed : Whole arrow flushRows (w.flush nowMs) :=
        whole_flush nowMs hWhole.stored hWhole.received
      exact { hFlushed with closed := fun _ => flush_buffer w nowMs }
  | segment hCall hCrash hSegment =>
      exact { hWhole with stored := hWhole.stored.step hSegment hCall hCrash }
  | crash => exact { hWhole with }

/-- A step of the writer is one of a batcher. -/
theorem batched_step (hBatched : ∃ b : Batching LogRecord (max flushRows 1), Batched b w)
    (hStep : step arrow maxBytes flushRows w e = some w') :
    ∃ b : Batching LogRecord (max flushRows 1), Batched b w' := by
  obtain ⟨b, hBatched⟩ := hBatched
  cases step_cases hStep with
  | receive r nowMs _ _ => exact ⟨b.push r, hBatched.receive r nowMs⟩
  | tick nowMs _ _ => exact ⟨b.flush, hBatched.flush nowMs⟩
  | close nowMs _ _ =>
      obtain ⟨hFlushed, hBuffer⟩ := hBatched.flush nowMs
      exact ⟨b.flush, hFlushed, hBuffer⟩
  | segment | crash => exact ⟨b, hBatched.flushed, hBatched.buffer⟩

/-- Every call has between one record and as many as flush the buffer. -/
theorem sized_run {es : List WriterEvent}
    (hRun : Machine.run (step arrow maxBytes flushRows) start es = some w) {p : Str × List LogRecord}
    (hMem : p ∈ w.flushed) : p.2 ≠ [] ∧ p.2.length ≤ max flushRows 1 := by
  have hStart : ∃ b : Batching LogRecord (max flushRows 1), Batched b start :=
    ⟨Batching.empty (by omega), rfl, rfl⟩
  obtain ⟨b, hFlushed, -⟩ := Machine.run_invariant (fun _ _ _ => batched_step) hStart hRun
  apply b.sized
  rw [← hFlushed]
  exact List.mem_map_of_mem hMem

/-- A step of the writer that goes well and removes nothing keeps every batch. -/
theorem kept_after (hWhole : Whole arrow flushRows w) (hKept : Kept arrow w.seg w.flushed)
    (hSucceeds : e.succeeds = true)
    (hStep : step arrow maxBytes flushRows w e = some w') : Kept arrow w'.seg w'.flushed := by
  cases step_cases hStep with
  | receive r nowMs hIdle hOpen =>
      unfold receive
      dsimp only
      split
      · exact kept_flush nowMs hIdle hKept
      · exact hKept
  | tick nowMs hIdle hOpen => exact kept_flush nowMs hIdle hKept
  | close nowMs hIdle hOpen => exact kept_flush nowMs hIdle hKept
  | segment hCall hCrash hSegment => exact kept_step hWhole.stored hKept hSucceeds hCall hSegment
  | crash => exact absurd hSucceeds (by simp [WriterEvent.succeeds])

/-- In a run in which all goes well and nothing is removed every batch is kept.
-/
theorem kept_run {es : List WriterEvent} (hSucceeds : ∀ e ∈ es, e.succeeds = true)
    (hRun : Machine.run (step arrow maxBytes flushRows) start es = some w) :
    Kept arrow w.seg w.flushed := by
  have hStep : ∀ (u : Writer) (e : WriterEvent) (v : Writer),
      Whole arrow flushRows u ∧ Kept arrow u.seg u.flushed → e.succeeds = true →
      step arrow maxBytes flushRows u e = some v →
      Whole arrow flushRows v ∧ Kept arrow v.seg v.flushed := by
    intro u e v hInv hGood hNext
    exact ⟨whole_step hInv.1 hNext, kept_after hInv.1 hInv.2 hGood hNext⟩
  have hStart : Kept arrow start.seg start.flushed := by simp [Kept, start]
  exact (Machine.run_invariant_along hStep ⟨whole_start, hStart⟩
    (Machine.along_of_mem (fun e hMem _ => hSucceeds e hMem) _) hRun).2

/-- Segments are whole and distinct batches of the records in order, each of a
size that flushes the buffer or less, and when every write succeeds and none is
removed they are all there after the channel has closed. -/
theorem segments_whole {es : List WriterEvent}
    (hRun : Machine.run (step arrow maxBytes flushRows) start es = some w) :
    w.buffer.length < max flushRows 1 ∧
      w.received = (w.flushed.map Prod.snd).flatten ++ w.buffer ∧
      (w.flushed.map Prod.fst).Nodup ∧
      (∀ name bytes, w.seg.files.lookup name = some bytes → isSegment name = true →
        ∃ recs, (name, recs) ∈ w.flushed ∧ recs ≠ [] ∧ recs.length ≤ max flushRows 1 ∧
          (arrow.read bytes).map RecordBatch.rows = some recs) ∧
      ((∀ e ∈ es, e.succeeds = true) → w.closed = true → w.seg.call = none →
        w.received = (w.flushed.map Prod.snd).flatten ∧
        ∀ p ∈ w.flushed, ∃ bytes, w.seg.files.lookup p.1 = some bytes ∧
          (arrow.read bytes).map RecordBatch.rows = some p.2) := by
  have hWhole : Whole arrow flushRows w :=
    Machine.run_invariant (fun _ _ _ => whole_step) whole_start hRun
  refine ⟨hWhole.buffer, hWhole.received, hWhole.stored.nodup, fun name bytes hLookup hSegment => ?_,
    fun hSucceeds hClosed hIdle => ⟨?_, fun p hMem => ?_⟩⟩
  · obtain ⟨recs, hMem, hHolds⟩ := hWhole.stored.files name bytes hLookup hSegment
    obtain ⟨hSome, hRoom⟩ := sized_run hRun hMem
    exact ⟨recs, hMem, hSome, hRoom, hHolds.rows⟩
  · rw [hWhole.received, hWhole.closed hClosed, List.append_nil]
  · rcases kept_run hSucceeds hRun p hMem with ⟨bytes, hLookup, hHolds⟩ | ⟨c, hCall, -⟩
    · exact ⟨bytes, hLookup, hHolds.rows⟩
    · rw [hIdle] at hCall
      exact absurd hCall (by simp)

/-- Two records, one flushed by number and one when the channel closes. -/
def session : List WriterEvent :=
  [.receive sampleRecord 1, .segment .create, .segment (.write 7), .segment .close,
    .segment .rename, .segment (.readDir []), .segment .finish, .tick 2,
    .receive { sampleRecord with latencyMs := 5 } 2, .segment .create, .segment .close,
    .segment .rename, .segment (.readDir []), .segment .finish, .close 3]

/-- Two records, flushed one by one, make two whole segments in their order. -/
theorem segments_whole_session :
    ∃ w, Machine.run (step Arrow.numbered 1000 1) start session = some w ∧
      w.received.length = 2 ∧ w.flushed.map Prod.fst = [segmentName 1 0, segmentName 2 1] ∧
      w.received = (w.flushed.map Prod.snd).flatten := by
  have hEnd : ((Machine.run (step Arrow.numbered 1000 1) start session).map fun w =>
      (w.received.length, w.flushed.map Prod.fst, w.closed, w.seg.call.isNone)) =
      some (2, [segmentName 1 0, segmentName 2 1], true, true) := by
    decide +kernel
  obtain ⟨w, hRun, hValues⟩ := Option.map_eq_some_iff.mp hEnd
  simp only [Prod.mk.injEq, Option.isNone_iff_eq_none] at hValues
  obtain ⟨hLength, hNames, hClosed, hIdle⟩ := hValues
  have hSucceeds : ∀ e ∈ session, e.succeeds = true := by
    simp [session, WriterEvent.succeeds, Event.succeeds]
  exact ⟨w, hRun, hLength, hNames,
    ((segments_whole hRun).2.2.2.2 hSucceeds hClosed hIdle).1⟩

end Writer

end Qlog

end RustDns
