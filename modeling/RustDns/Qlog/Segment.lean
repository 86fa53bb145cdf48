import Mathlib.Data.List.Sort
import Mathlib.Data.Nat.Digits.Lemmas
import Mathlib.Logic.Equiv.List
import RustDns.Dns.Message
import RustDns.Library.Directory
import RustDns.Library.Run
import RustDns.Library.Scan

/-! `write_segment` on the log directory, step by step: any call may fail and
the process may crash between any two of its steps, and what is on disk by
then stays. Sizes and the sequence number are natural numbers. -/
namespace RustDns

namespace Qlog

structure LogRecord where
  tsMs : Int
  client : Str
  domain : Str
  qtype : Str
  action : Str
  latencyMs : UInt32

/-- The columns of a segment. -/
structure RecordBatch where
  ts : List Int
  client : List Str
  domain : List Str
  qtype : List Str
  action : List Str
  latencyMs : List UInt32

/-- `RecordBatch::try_new` refuses columns of different lengths. -/
def RecordBatch.tryNew (b : RecordBatch) : Option RecordBatch :=
  let rows := b.ts.length
  if b.client.length = rows ∧ b.domain.length = rows ∧ b.qtype.length = rows ∧
      b.action.length = rows ∧ b.latencyMs.length = rows then some b
  else none

def buildBatch (recs : List LogRecord) : Option RecordBatch :=
  RecordBatch.tryNew
    { ts := recs.map LogRecord.tsMs
      client := recs.map LogRecord.client
      domain := recs.map LogRecord.domain
      qtype := recs.map LogRecord.qtype
      action := recs.map LogRecord.action
      latencyMs := recs.map LogRecord.latencyMs }

/-- The records a reader of the segment finds. -/
def RecordBatch.rows (b : RecordBatch) : List LogRecord :=
  (b.ts.zip (b.client.zip (b.domain.zip (b.qtype.zip (b.action.zip b.latencyMs))))).map
    fun (ts, client, domain, qtype, action, latencyMs) =>
      ⟨ts, client, domain, qtype, action, latencyMs⟩

/-- The Arrow writer, and a reader that finds what was written. -/
structure Arrow where
  write : RecordBatch → Bytes
  read : Bytes → Option RecordBatch
  read_write : ∀ b, read (write b) = some b

abbrev Dir := AList fun _ : Str => Bytes

/-- The size of all files. -/
def Dir.size (files : Dir) : Nat := Directory.total (fun _ bytes => bytes.length) files

/-- A number with leading zeros up to the width. -/
def padded (width n : Nat) : Str :=
  List.replicate (width - (Nat.toDigits 10 n).length) '0' ++ Nat.toDigits 10 n

def segmentName (nowMs seq : Nat) : Str :=
  "qlog-".toList ++ padded 14 nowMs ++ '-' :: padded 6 seq ++ ".parquet".toList

def tempName (name : Str) : Str := name ++ ".tmp".toList

/-- `Path::extension`: what follows the last dot, unless that dot comes
first. -/
def extension (name : Str) : Option Str :=
  if ((name.reverse.dropWhile (· != '.')).drop 1) = [] then none
  else some (name.reverse.takeWhile (· != '.')).reverse

def isSegment (name : Str) : Bool := extension name = some "parquet".toList

/-- Names in the order of their bytes, which is that of their characters. -/
def nameLe : Str → Str → Bool
  | [], _ => true
  | _ :: _, [] => false
  | a :: as, b :: bs => Nat.blt a.toNat b.toNat || (a == b && nameLe as bs)

/-- The segments `enforce_retention` sees: entries whose metadata cannot be
read are skipped. -/
def listing (files : Dir) (unread : List Str) : List (Str × Nat) :=
  ((files.entries.filter fun file => isSegment file.1 && !unread.contains file.1).map
    fun file => (file.1, file.2.length)).insertionSort fun a b => nameLe a.1 b.1 = true

inductive CallPhase where
  | named
  | created
  | closed
  | renamed
  | retaining (todo : List (Str × Nat)) (total : Nat)

structure Call where
  records : List LogRecord
  batch : RecordBatch
  name : Str
  phase : CallPhase

/-- The log directory and the writer's call. The numbers are natural ones:
`SEQ`, of 64 bits, does not wrap around before 2^64 calls, nor does the sum of
the sizes as long as the files have fewer than 2^64 bytes in all. -/
structure State where
  files : Dir
  seq : Nat
  call : Option Call

inductive Event where
  | call (recs : List LogRecord) (nowMs : Nat)
  | create
  | write (bytes : Nat)
  | close
  | rename
  | readDir (unread : List Str)
  | remove (ok : Bool)
  | finish
  | fail
  | crash

variable (arrow : Arrow) (maxBytes : Nat)

/-- The next step of a call that goes well. -/
def proceed (s : State) (c : Call) : Event → Option State
  | .create =>
      match c.phase with
      | .named =>
          some { s with
            files := s.files.insert (tempName c.name) []
            call := some { c with phase := .created } }
      | _ => none
  | .write bytes =>
      match c.phase with
      | .created =>
          some { s with
            files := s.files.insert (tempName c.name) ((arrow.write c.batch).take bytes) }
      | _ => none
  | .close =>
      match c.phase with
      | .created =>
          some { s with
            files := s.files.insert (tempName c.name) (arrow.write c.batch)
            call := some { c with phase := .closed } }
      | _ => none
  | .rename =>
      match c.phase, s.files.lookup (tempName c.name) with
      | .closed, some bytes =>
          some { s with
            files := (s.files.erase (tempName c.name)).insert c.name bytes
            call := some { c with phase := .renamed } }
      | _, _ => none
  | .readDir unread =>
      match c.phase with
      | .renamed =>
          let todo := listing s.files unread
          some { s with
            call := some { c with phase := .retaining todo (todo.map Prod.snd).sum } }
      | _ => none
  | .remove ok =>
      match c.phase with
      | .retaining ((name, size) :: rest) total =>
          if total ≤ maxBytes then none
          else if ok then
            some { s with
              files := s.files.erase name
              call := some { c with phase := .retaining rest (total - size) } }
          else some { s with call := some { c with phase := .retaining rest total } }
      | _ => none
  | .finish =>
      match c.phase with
      | .retaining todo total =>
          if todo = [] ∨ total ≤ maxBytes then some { s with call := none } else none
      | _ => none
  | .fail =>
      match c.phase with
      | .retaining _ _ => none
      | _ => some { s with call := none }
  | .call _ _ | .crash => none

/-- A call takes the next number even when it fails later. -/
def begin (s : State) (recs : List LogRecord) (nowMs : Nat) : State :=
  match buildBatch recs with
  | none => s
  | some batch =>
      { s with
        seq := s.seq + 1
        call := some ⟨recs, batch, segmentName nowMs s.seq, .named⟩ }

/-- A crash loses the call and the sequence number. -/
def step (s : State) (e : Event) : Option State :=
  match e, s.call with
  | .call recs nowMs, none => some (begin s recs nowMs)
  | .crash, _ => some { s with seq := 0, call := none }
  | e, some c => proceed arrow maxBytes s c e
  | _, none => none

/-- Every batch can be built, and its rows are the records in order. -/
theorem buildBatch_spec (recs : List LogRecord) :
    ∃ batch, buildBatch recs = some batch ∧ batch.rows = recs := by
  refine ⟨_, by rw [buildBatch, RecordBatch.tryNew, if_pos (by simp)], ?_⟩
  simp only [RecordBatch.rows, List.zip_map', List.map_map]
  exact List.map_id recs

instance encodableChar : Encodable Char :=
  Encodable.ofLeftInjection Char.toNat (fun n => some (Char.ofNat n)) fun c => by simp

instance encodableUInt32 : Encodable UInt32 :=
  Encodable.ofLeftInjection UInt32.toNat (fun n => some (UInt32.ofNat n)) fun n => by simp

instance RecordBatch.encodable : Encodable RecordBatch :=
  Encodable.ofLeftInjection
    (fun b => (b.ts, b.client, b.domain, b.qtype, b.action, b.latencyMs))
    (fun (ts, client, domain, qtype, action, latencyMs) =>
      some ⟨ts, client, domain, qtype, action, latencyMs⟩)
    fun _ => rfl

/-- A writer that numbers the batches and writes down the number. -/
def Arrow.numbered : Arrow where
  write b := (Nat.digits 256 (Encodable.encode b)).map UInt8.ofNat
  read bytes := Encodable.decode (Nat.ofDigits 256 (bytes.map UInt8.toNat))
  read_write b := by
    have hBytes : ∀ d ∈ Nat.digits 256 (Encodable.encode b),
        (UInt8.toNat ∘ UInt8.ofNat) d = id d := by
      intro d hMem
      rw [Function.comp_apply, UInt8.toNat_ofNat',
        Nat.mod_eq_of_lt (Nat.digits_lt_base (by decide) hMem), id_eq]
    rw [List.map_map, List.map_congr_left hBytes, List.map_id, Nat.ofDigits_digits,
      Encodable.encodek]

theorem extension_append {stem ext : Str} (hStem : stem ≠ []) (hPlain : '.' ∉ ext) :
    extension (stem ++ '.' :: ext) = some ext := by
  have hReverse : (stem ++ '.' :: ext).reverse = ext.reverse ++ '.' :: stem.reverse := by simp
  have hAll : ∀ c ∈ ext.reverse, (c != '.') = true := by
    intro c hMem
    rw [bne_iff_ne]
    rintro rfl
    exact hPlain (List.mem_reverse.mp hMem)
  rw [extension, hReverse, List.dropWhile_append_of_pos hAll, List.takeWhile_append_of_pos hAll]
  simp [hStem]

/-- A segment's name is one that retention lists. -/
theorem isSegment_segmentName (nowMs seq : Nat) : isSegment (segmentName nowMs seq) = true := by
  have hName : segmentName nowMs seq =
      ("qlog-".toList ++ padded 14 nowMs ++ '-' :: padded 6 seq) ++ '.' :: "parquet".toList := rfl
  have hStem : "qlog-".toList ++ padded 14 nowMs ++ '-' :: padded 6 seq ≠ [] :=
    List.append_ne_nil_of_right_ne_nil _ (List.cons_ne_nil _ _)
  rw [isSegment, hName, extension_append hStem (by decide), decide_eq_true rfl]

/-- A temporary file's name is not one that retention lists. -/
theorem isSegment_tempName (name : Str) : isSegment (tempName name) = false := by
  by_cases hEmpty : name = []
  · subst hEmpty
    decide
  · have hTemp : tempName name = name ++ '.' :: "tmp".toList := rfl
    rw [isSegment, hTemp, extension_append hEmpty (by decide)]
    decide

theorem ofDigitChars_padded (width n : Nat) : Nat.ofDigitChars 10 (padded width n) 0 = n := by
  rw [padded, Nat.ofDigitChars_append, Nat.ofDigitChars_replicate_zero, Nat.mul_zero,
    Nat.ofDigitChars_ten_toDigits]

theorem padded_injective {width n m : Nat} (hPadded : padded width n = padded width m) : n = m := by
  have hValue := congrArg (fun digits => Nat.ofDigitChars 10 digits 0) hPadded
  simpa only [ofDigitChars_padded] using hValue

theorem isDigit_of_mem_padded {width n : Nat} {c : Char} (hMem : c ∈ padded width n) :
    c.isDigit = true := by
  rcases List.mem_append.mp hMem with hZero | hDigit
  · obtain rfl := (List.mem_replicate.mp hZero).2
    rfl
  · exact Nat.isDigit_of_mem_toDigits (by decide) (by decide) hDigit

/-- The parts of a name from left to right. -/
theorem segmentName_eq (nowMs seq : Nat) : segmentName nowMs seq =
    "qlog-".toList ++ (padded 14 nowMs ++ '-' :: (padded 6 seq ++ ".parquet".toList)) :=
  (List.append_assoc _ _ _).trans (List.append_assoc _ _ _)

/-- The clock and the sequence number can be read off the name. -/
theorem segmentName_injective {nowMs nowMs' seq seq' : Nat}
    (hName : segmentName nowMs seq = segmentName nowMs' seq') : nowMs = nowMs' ∧ seq = seq' := by
  have hNoDash : ∀ width n, '-' ∉ padded width n := by
    intro width n hMem
    exact absurd (isDigit_of_mem_padded hMem) (by decide)
  rw [segmentName_eq, segmentName_eq] at hName
  obtain ⟨hClock, hTail⟩ :=
    Scan.append_sep_inj (hNoDash 14 nowMs) (hNoDash 14 nowMs') (List.append_cancel_left hName)
  exact ⟨padded_injective hClock, padded_injective (List.append_cancel_right hTail)⟩

/-- The steps of `write_segment`, each with what it finds in the state. -/
inductive Step (s : State) : Event → State → Prop where
  | call {recs : List LogRecord} {batch : RecordBatch} (nowMs : Nat) (hIdle : s.call = none)
      (hBatch : buildBatch recs = some batch) :
      Step s (.call recs nowMs)
        { s with
          seq := s.seq + 1
          call := some ⟨recs, batch, segmentName nowMs s.seq, .named⟩ }
  | create {c : Call} (hCall : s.call = some c) (hPhase : c.phase = .named) :
      Step s .create
        { s with
          files := s.files.insert (tempName c.name) []
          call := some { c with phase := .created } }
  | write {c : Call} (bytes : Nat) (hCall : s.call = some c) (hPhase : c.phase = .created) :
      Step s (.write bytes)
        { s with files := s.files.insert (tempName c.name) ((arrow.write c.batch).take bytes) }
  | close {c : Call} (hCall : s.call = some c) (hPhase : c.phase = .created) :
      Step s .close
        { s with
          files := s.files.insert (tempName c.name) (arrow.write c.batch)
          call := some { c with phase := .closed } }
  | rename {c : Call} {bytes : Bytes} (hCall : s.call = some c) (hPhase : c.phase = .closed)
      (hTemp : s.files.lookup (tempName c.name) = some bytes) :
      Step s .rename
        { s with
          files := (s.files.erase (tempName c.name)).insert c.name bytes
          call := some { c with phase := .renamed } }
  | readDir {c : Call} (unread : List Str) (hCall : s.call = some c) (hPhase : c.phase = .renamed) :
      Step s (.readDir unread)
        { s with
          call := some
            { c with
              phase :=
                .retaining (listing s.files unread) ((listing s.files unread).map Prod.snd).sum } }
  | remove {c : Call} {name : Str} {size total : Nat} {rest : List (Str × Nat)}
      (hCall : s.call = some c) (hPhase : c.phase = .retaining ((name, size) :: rest) total)
      (hOver : maxBytes < total) :
      Step s (.remove true)
        { s with
          files := s.files.erase name
          call := some { c with phase := .retaining rest (total - size) } }
  | skip {c : Call} {file : Str × Nat} {total : Nat} {rest : List (Str × Nat)}
      (hCall : s.call = some c) (hPhase : c.phase = .retaining (file :: rest) total)
      (hOver : maxBytes < total) :
      Step s (.remove false) { s with call := some { c with phase := .retaining rest total } }
  | finish {c : Call} {todo : List (Str × Nat)} {total : Nat} (hCall : s.call = some c)
      (hPhase : c.phase = .retaining todo total) (hDone : todo = [] ∨ total ≤ maxBytes) :
      Step s .finish { s with call := none }
  | fail {c : Call} (hCall : s.call = some c)
      (hPhase : ∀ todo total, c.phase ≠ .retaining todo total) : Step s .fail { s with call := none }
  | crash : Step s .crash { s with seq := 0, call := none }

variable {arrow maxBytes} {s s' : State} {e : Event}

/-- What the call in progress does next. -/
theorem proceed_cases {c : Call} (hCall : s.call = some c)
    (hProceed : proceed arrow maxBytes s c e = some s') : Step arrow maxBytes s e s' := by
  cases e with
  | create =>
      simp only [proceed] at hProceed
      split at hProceed <;> [skip; simp at hProceed]
      obtain rfl := Option.some.inj hProceed
      exact .create hCall ‹_›
  | write bytes =>
      simp only [proceed] at hProceed
      split at hProceed <;> [skip; simp at hProceed]
      obtain rfl := Option.some.inj hProceed
      exact .write bytes hCall ‹_›
  | close =>
      simp only [proceed] at hProceed
      split at hProceed <;> [skip; simp at hProceed]
      obtain rfl := Option.some.inj hProceed
      exact .close hCall ‹_›
  | rename =>
      simp only [proceed] at hProceed
      split at hProceed <;> [skip; simp at hProceed]
      obtain rfl := Option.some.inj hProceed
      exact .rename hCall ‹_› ‹_›
  | readDir unread =>
      simp only [proceed] at hProceed
      split at hProceed <;> [skip; simp at hProceed]
      obtain rfl := Option.some.inj hProceed
      exact .readDir unread hCall ‹_›
  | remove ok =>
      simp only [proceed] at hProceed
      split at hProceed <;> [split at hProceed; simp at hProceed] <;> [simp at hProceed; skip]
      rename_i hOver
      cases ok with
      | true =>
          obtain rfl := Option.some.inj hProceed
          exact .remove hCall ‹_› (Nat.lt_of_not_le hOver)
      | false =>
          obtain rfl := Option.some.inj hProceed
          exact .skip hCall ‹_› (Nat.lt_of_not_le hOver)
  | finish =>
      simp only [proceed] at hProceed
      split at hProceed <;> [split at hProceed; simp at hProceed] <;> [skip; simp at hProceed]
      obtain rfl := Option.some.inj hProceed
      exact .finish hCall ‹_› ‹_›
  | fail =>
      simp only [proceed] at hProceed
      split at hProceed <;> [simp at hProceed; skip]
      obtain rfl := Option.some.inj hProceed
      exact .fail hCall ‹_›
  | call _ _ => simp [proceed] at hProceed
  | crash => simp [proceed] at hProceed

/-- What each event does, and when it can happen. -/
theorem step_cases (hStep : step arrow maxBytes s e = some s') : Step arrow maxBytes s e s' := by
  unfold step at hStep
  split at hStep
  · rename_i recs nowMs hIdle
    obtain ⟨batch, hBatch, -⟩ := buildBatch_spec recs
    obtain rfl := Option.some.inj hStep
    simp only [begin, hBatch]
    exact .call nowMs hIdle hBatch
  · obtain rfl := Option.some.inj hStep
    exact .crash
  · rename_i hCall
    exact proceed_cases hCall hStep
  · simp at hStep

end Qlog

end RustDns
