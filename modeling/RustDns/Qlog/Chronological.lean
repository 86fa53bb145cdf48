import Mathlib.Data.Char
import Mathlib.Data.List.Lex
import RustDns.Library.Numeral
import RustDns.Qlog.OldestFirst
import RustDns.Qlog.Writer

/-! The order of segment names against the order in which one process writes
the segments. -/
namespace RustDns

namespace Qlog

/-- Names are sorted by the lexical order of lists. -/
theorem nameLe_iff {s t : Str} : nameLe s t = true ↔ s ≤ t := by
  induction s generalizing t with
  | nil => exact iff_of_true rfl (not_lt.mp (List.not_lt_nil t))
  | cons a s ih =>
      cases t with
      | nil => exact iff_of_false (by simp [nameLe]) (not_le.mpr (List.nil_lt_cons a s))
      | cons b t =>
          have hOrder : a.toNat < b.toNat ↔ a < b := Iff.rfl
          rw [nameLe_cons_iff, ih, le_iff_lt_or_eq, le_iff_lt_or_eq, List.cons_lt_cons_iff,
            List.cons.injEq, hOrder]
          tauto

/-- Decimal digits. -/
def decimal : Digits Char 10 where
  one_lt := by decide
  valid c := c.isDigit = true
  digit c := c.toNat - '0'.toNat
  digit_lt := by
    intro c hDigit
    obtain ⟨hLow, hHigh⟩ := Char.isDigit_iff_toNat.mp hDigit
    have hNine : '9'.toNat - '0'.toNat = 9 := rfl
    omega
  lt_iff := by
    intro c d hc hd
    have hOrder : c < d ↔ c.toNat < d.toNat := Iff.rfl
    obtain ⟨hLow, -⟩ := Char.isDigit_iff_toNat.mp hc
    obtain ⟨hLow', -⟩ := Char.isDigit_iff_toNat.mp hd
    rw [hOrder]
    omega

theorem value_decimal (s : Str) : decimal.value s = Nat.ofDigitChars 10 s 0 := by
  rw [Digits.value, Nat.ofDigits_eq_foldr, List.foldr_reverse, List.foldl_map,
    Nat.ofDigitChars_eq_foldl]
  congr 1
  funext n c
  exact Nat.add_comm _ _

@[simp]
theorem value_padded (width n : Nat) : decimal.value (padded width n) = n := by
  rw [value_decimal, ofDigitChars_padded]

theorem valid_padded (width n : Nat) : ∀ d ∈ padded width n, decimal.valid d :=
  fun _ hMem => isDigit_of_mem_padded hMem

theorem length_padded (width n : Nat) :
    (padded width n).length = max width (Nat.toDigits 10 n).length := by
  rw [padded, List.length_append, List.length_replicate]
  omega

/-- A number that fits is as wide as it is padded to. -/
theorem length_padded_of_lt {width n : Nat} (hWidth : 0 < width) (hFits : n < 10 ^ width) :
    (padded width n).length = width := by
  rw [length_padded, max_eq_left ((Nat.length_toDigits_le_iff (by decide) hWidth).mpr hFits)]

/-- The dot after a number comes before every digit. -/
theorem dot_lt {d : Char} (hDigit : decimal.valid d) : '.' < d := by
  have hOrder : '.' < d ↔ '.'.toNat < d.toNat := Iff.rfl
  have hDot : '.'.toNat < '0'.toNat := by decide
  rw [hOrder]
  exact Nat.lt_of_lt_of_le hDot (Char.isDigit_iff_toNat.mp hDigit).1

/-- How many digits of a name a sequence number takes. -/
def seqWidth (seq : Nat) : Nat := max 6 (Nat.toDigits 10 seq).length

/-- The numbers ascend once the wider one is cut to the width of the other,
which may then be equal if it is the first. -/
def SeqBefore (seq seq' : Nat) : Prop :=
  if seqWidth seq < seqWidth seq' then seq ≤ seq' / 10 ^ (seqWidth seq' - seqWidth seq)
  else seq / 10 ^ (seqWidth seq - seqWidth seq') < seq'

instance decidableSeqBefore (seq seq' : Nat) : Decidable (SeqBefore seq seq') :=
  inferInstanceAs (Decidable (if seqWidth seq < seqWidth seq' then
    seq ≤ seq' / 10 ^ (seqWidth seq' - seqWidth seq)
    else seq / 10 ^ (seqWidth seq - seqWidth seq') < seq'))

theorem six_le_seqWidth (seq : Nat) : 6 ≤ seqWidth seq := le_max_left _ _

theorem seqWidth_le_iff {seq width : Nat} (hWidth : 6 ≤ width) :
    seqWidth seq ≤ width ↔ seq < 10 ^ width := by
  rw [seqWidth, max_le_iff, Nat.length_toDigits_le_iff (by decide) (by omega)]
  exact and_iff_right hWidth

theorem lt_pow_seqWidth (seq : Nat) : seq < 10 ^ seqWidth seq :=
  (seqWidth_le_iff (six_le_seqWidth seq)).mp le_rfl

theorem seqWidth_mono {seq seq' : Nat} (hLe : seq ≤ seq') : seqWidth seq ≤ seqWidth seq' :=
  (seqWidth_le_iff (six_le_seqWidth seq')).mpr (hLe.trans_lt (lt_pow_seqWidth seq'))

/-- A power of ten is the first number of its width, from a million on. -/
theorem seqWidth_pow {width : Nat} (hWidth : 6 ≤ width) : seqWidth (10 ^ width) = width + 1 := by
  apply le_antisymm
  · rw [seqWidth_le_iff (by omega)]
    exact Nat.pow_lt_pow_right (by decide) (Nat.lt_succ_self width)
  · apply Nat.succ_le_of_lt
    rw [← not_le, seqWidth_le_iff hWidth]
    exact Nat.lt_irrefl _

theorem seqBefore_iff_of_width {seq seq' : Nat} (hWidth : seqWidth seq = seqWidth seq') :
    SeqBefore seq seq' ↔ seq < seq' := by
  rw [SeqBefore, if_neg (by omega), hWidth, Nat.sub_self, Nat.pow_zero, Nat.div_one]

/-- A number and the next one ascend unless the next one is the first of its
width. -/
theorem seqBefore_succ_iff (seq : Nat) :
    SeqBefore seq (seq + 1) ↔ ∀ width, 6 ≤ width → seq + 1 ≠ 10 ^ width := by
  have hSix := six_le_seqWidth seq
  by_cases hPower : seq + 1 = 10 ^ seqWidth seq
  · have hWider : seqWidth (seq + 1) = seqWidth seq + 1 := by rw [hPower, seqWidth_pow hSix]
    have hTens : seq + 1 = 10 ^ (seqWidth seq - 1) * 10 :=
      hPower.trans (Nat.pow_pred_mul (by omega)).symm
    have hLarge : 1 < 10 ^ (seqWidth seq - 1) := Nat.one_lt_pow (by omega) (by decide)
    apply iff_of_false
    · rw [SeqBefore, hWider, if_pos (Nat.lt_succ_self _), Nat.add_sub_cancel_left, Nat.pow_one, hTens,
        Nat.mul_div_cancel _ (by decide)]
      omega
    · exact fun hAll => hAll _ hSix hPower
  · have hNarrow : seqWidth (seq + 1) ≤ seqWidth seq :=
      (seqWidth_le_iff hSix).mpr (lt_of_le_of_ne (lt_pow_seqWidth seq) hPower)
    have hSame : seqWidth seq = seqWidth (seq + 1) :=
      le_antisymm (seqWidth_mono (Nat.le_succ seq)) hNarrow
    apply iff_of_true ((seqBefore_iff_of_width hSame).mpr (Nat.lt_succ_self seq))
    intro width hWidth hEq
    have hWide : seqWidth seq = width + 1 := by rw [hSame, hEq, seqWidth_pow hWidth]
    have hBelow : seqWidth seq ≤ width := (seqWidth_le_iff hWidth).mpr (by omega)
    omega

example : ¬SeqBefore 999999 1000000 ∧ SeqBefore 100000 1000000 := by decide +kernel

/-- The width of the clock is fixed, that of the sequence number is not. -/
theorem segmentName_lt_iff {nowMs nowMs' seq seq' : Nat} (hFits : nowMs < 10 ^ 14)
    (hFits' : nowMs' < 10 ^ 14) :
    segmentName nowMs seq < segmentName nowMs' seq' ↔
      nowMs < nowMs' ∨ nowMs = nowMs' ∧ SeqBefore seq seq' := by
  have hLength : (padded 14 nowMs).length = (padded 14 nowMs').length := by
    rw [length_padded_of_lt (by decide) hFits, length_padded_of_lt (by decide) hFits']
  have hClock : padded 14 nowMs < padded 14 nowMs' ↔ nowMs < nowMs' := by
    rw [Digits.lt_iff_value_lt hLength (valid_padded 14 nowMs) (valid_padded 14 nowMs'),
      value_padded, value_padded]
  have hSame : padded 14 nowMs = padded 14 nowMs' ↔ nowMs = nowMs' :=
    ⟨padded_injective, congrArg (padded 14)⟩
  have hExtension : ".parquet".toList = '.' :: "parquet".toList := rfl
  have hDash : ∀ s t : Str, '-' :: s < '-' :: t ↔ s < t := fun s t => by simp
  rw [segmentName_eq, segmentName_eq, Digits.append_left_lt_iff,
    Digits.append_lt_append_iff hLength, hClock, hSame, hDash, hExtension,
    Digits.append_stop_lt_append_stop_iff (valid_padded 6 seq) (valid_padded 6 seq') fun _ => dot_lt,
    length_padded, length_padded, value_padded, value_padded]
  rfl

/-- `SEQ` after so many calls of `write_segment`: the number the next one takes. -/
def seqAfter : Nat → UInt64
  | 0 => 0
  | calls + 1 => seqAfter calls + 1

/-- The counter wraps around. -/
theorem toNat_seqAfter (calls : Nat) : (seqAfter calls).toNat = calls % 2 ^ 64 := by
  induction calls with
  | zero => rfl
  | succ calls ih =>
      rw [seqAfter, UInt64.toNat_add, ih]
      exact Nat.mod_add_mod calls (2 ^ 64) 1

/-- A segment by the clock at its call and by the number of calls before. -/
structure Written where
  nowMs : Nat
  calls : Nat

namespace Written

def seq (s : Written) : Nat := (seqAfter s.calls).toNat

def name (s : Written) : Str := segmentName s.nowMs s.seq

/-- Before the counter wraps around, a segment has the number of its call. -/
theorem name_eq {s : Written} (hCalls : s.calls < 2 ^ 64) : s.name = segmentName s.nowMs s.calls := by
  rw [name, seq, toNat_seqAfter, Nat.mod_eq_of_lt hCalls]

/-- A later millisecond, or the same one and the sequence numbers ascend. -/
def InOrder (first second : Written) : Prop :=
  first.nowMs < second.nowMs ∨ SeqBefore first.seq second.seq

end Written

/-- Segments of one process, in the order of their calls. The clock does not go
back and has at most fourteen digits. -/
structure Process where
  written : List Written
  ascending : written.Pairwise fun first second => first.calls < second.calls
  clock : written.Pairwise fun first second => first.nowMs ≤ second.nowMs
  fits : ∀ s ∈ written, s.nowMs < 10 ^ 14

def Process.names (p : Process) : List Str := p.written.map Written.name

theorem Process.names_pairwise_iff (p : Process) :
    p.names.Pairwise (· < ·) ↔ p.written.Pairwise Written.InOrder := by
  rw [names, List.pairwise_map]
  constructor
  · intro hNames
    refine hNames.imp_of_mem fun hFirst hSecond hLt => ?_
    rcases (segmentName_lt_iff (p.fits _ hFirst) (p.fits _ hSecond)).mp hLt with hLater | ⟨-, hSeq⟩
    · exact Or.inl hLater
    · exact Or.inr hSeq
  · intro hOrder
    refine (hOrder.and p.clock).imp_of_mem fun hFirst hSecond hBoth => ?_
    apply (segmentName_lt_iff (p.fits _ hFirst) (p.fits _ hSecond)).mpr
    rcases Nat.lt_or_eq_of_le hBoth.2 with hLater | hSame
    · exact Or.inl hLater
    · exact Or.inr ⟨hSame, hBoth.1.resolve_left (by omega)⟩

/-- The clock an event comes with. -/
def WriterEvent.nowMs : WriterEvent → Option Nat
  | receive _ nowMs | tick nowMs | close nowMs => some nowMs
  | segment _ | crash => none

/-- The names of the calls: each has the clock of an event and the next number. -/
def Named (past : List WriterEvent) (w : Writer) : Prop :=
  ∃ clocks : List Nat, clocks.Sublist (past.filterMap WriterEvent.nowMs) ∧
    w.flushed.map Prod.fst = clocks.mapIdx fun calls nowMs => segmentName nowMs calls

section

variable {arrow : Arrow} {maxBytes flushRows : Nat} {w w' : Writer} {e : WriterEvent}
  {past es : List WriterEvent}

theorem flush_flushed (w : Writer) (nowMs : Nat) : (w.flush nowMs).flushed = w.flushed ∨
    ∃ recs, (w.flush nowMs).flushed = w.flushed ++ [(segmentName nowMs w.seg.seq, recs)] := by
  unfold Writer.flush
  split
  · exact Or.inl rfl
  · exact Or.inr ⟨w.buffer, rfl⟩

theorem receive_flushed (w : Writer) (r : LogRecord) (nowMs : Nat) :
    (w.receive flushRows r nowMs).flushed = w.flushed ∨
      ∃ recs, (w.receive flushRows r nowMs).flushed =
        w.flushed ++ [(segmentName nowMs w.seg.seq, recs)] := by
  unfold Writer.receive
  dsimp only
  split
  · apply flush_flushed
  · exact Or.inl rfl

/-- Only an event with a clock makes a call. -/
theorem flushed_step (hStep : Writer.step arrow maxBytes flushRows w e = some w') :
    w'.flushed = w.flushed ∨ ∃ nowMs recs, e.nowMs = some nowMs ∧
      w'.flushed = w.flushed ++ [(segmentName nowMs w.seg.seq, recs)] := by
  cases Writer.step_cases hStep with
  | receive r nowMs _ _ =>
      exact (receive_flushed w r nowMs).imp_right fun hCalls =>
        ⟨nowMs, hCalls.imp fun _ hCall => ⟨rfl, hCall⟩⟩
  | tick nowMs _ _ | close nowMs _ _ =>
      exact (flush_flushed w nowMs).imp_right fun hCalls =>
        ⟨nowMs, hCalls.imp fun _ hCall => ⟨rfl, hCall⟩⟩
  | segment | crash => exact Or.inl rfl

theorem named_step (hSeq : w.seg.seq = w.flushed.length) (hNamed : Named past w)
    (hStep : Writer.step arrow maxBytes flushRows w e = some w') : Named (past ++ [e]) w' := by
  obtain ⟨clocks, hSub, hNames⟩ := hNamed
  rw [Named, List.filterMap_append]
  rcases flushed_step hStep with hSame | ⟨nowMs, recs, hClock, hFlushed⟩
  · exact ⟨clocks, hSub.trans (List.sublist_append_left _ _), by rw [hSame, hNames]⟩
  · refine ⟨clocks ++ [nowMs], hSub.append (by simp [hClock]), ?_⟩
    have hLength : w.seg.seq = clocks.length := by
      rw [hSeq, ← List.length_map Prod.fst, hNames, List.length_mapIdx]
    rw [hFlushed, List.map_append, hNames, List.mapIdx_concat, hLength]
    rfl

theorem named_run (hRun : Machine.run (Writer.step arrow maxBytes flushRows) Writer.start es = some w) :
    Named es w := by
  have hStep : ∀ (past : List WriterEvent) (u : Writer) (e : WriterEvent) (v : Writer),
      Writer.Whole arrow flushRows u ∧ Named past u → True →
      Writer.step arrow maxBytes flushRows u e = some v →
      Writer.Whole arrow flushRows v ∧ Named (past ++ [e]) v := by
    intro past u e v hInv _ hNext
    exact ⟨Writer.whole_step hInv.1 hNext, named_step hInv.1.stored.seq hInv.2 hNext⟩
  have hStart : Named [] Writer.start := ⟨[], List.Sublist.refl _, rfl⟩
  exact (Machine.run_invariant_past hStep ⟨Writer.whole_start, hStart⟩
    (Machine.along_of_mem (fun _ _ _ => trivial) _) hRun).2

/-- The segments of a run of the writer are those of a process, as long as the
clock does not go back and the counter does not wrap around. -/
theorem exists_process
    (hRun : Machine.run (Writer.step arrow maxBytes flushRows) Writer.start es = some w)
    (hClock : (es.filterMap WriterEvent.nowMs).Pairwise (· ≤ ·))
    (hFits : ∀ nowMs ∈ es.filterMap WriterEvent.nowMs, nowMs < 10 ^ 14)
    (hCalls : w.flushed.length ≤ 2 ^ 64) : ∃ p : Process, w.flushed.map Prod.fst = p.names := by
  obtain ⟨clocks, hSub, hNames⟩ := named_run hRun
  have hLength : clocks.length ≤ 2 ^ 64 := by
    rwa [← List.length_map Prod.fst, hNames, List.length_mapIdx] at hCalls
  refine ⟨⟨clocks.mapIdx fun calls nowMs => ⟨nowMs, calls⟩, ?_, ?_, ?_⟩, ?_⟩
  · rw [List.pairwise_iff_getElem]
    intro i j hi hj hLt
    simpa using hLt
  · rw [List.pairwise_iff_getElem]
    intro i j hi hj hLt
    simp only [List.getElem_mapIdx]
    exact List.pairwise_iff_getElem.mp (hClock.sublist hSub) i j _ _ hLt
  · intro s hMem
    obtain ⟨calls, hBound, rfl⟩ := List.mem_mapIdx.mp hMem
    exact hFits _ (hSub.subset (List.getElem_mem _))
  · rw [hNames, Process.names]
    refine List.ext_getElem (by simp) fun calls hBound _ => ?_
    rw [List.length_mapIdx] at hBound
    simp only [List.getElem_map, List.getElem_mapIdx]
    exact (Written.name_eq (s := ⟨clocks[calls], calls⟩) (hBound.trans_le hLength)).symm

end

variable {entries : List Entry} {names : List Str}

/-- A sort by name leaves segments in place whose names ascend. -/
theorem filter_segments (hNodup : (entries.map Prod.fst).Nodup) (hSorted : names.Pairwise (· < ·))
    (hThere : ∀ name ∈ names, isSegment name = true ∧ name ∈ entries.map Prod.fst) :
    ((segments entries).map Prod.fst).filter (fun name => names.contains name) = names := by
  have hAscending : ((segments entries).map Prod.fst).Pairwise (· < ·) := by
    refine (ascending_segments hNodup).imp fun hLe => ?_
    exact lt_of_le_of_ne (nameLe_iff.mp hLe.1) hLe.2
  apply (hAscending.filter _).eq_of_mem_iff hSorted
  intro name
  rw [List.mem_filter, List.contains_iff_mem]
  refine ⟨And.right, fun hMem => ⟨?_, hMem⟩⟩
  obtain ⟨hSegment, hName⟩ := hThere name hMem
  obtain ⟨entry, hEntry, rfl⟩ := List.mem_map.mp hName
  apply List.mem_map_of_mem
  exact (perm_segments entries).mem_iff.mpr (List.mem_filter.mpr ⟨hEntry, hSegment⟩)

/-- Segment names sort in the order of writing, in a directory that may hold
other files too, and retention tries the oldest first, exactly when any two
segments are in order. -/
theorem chronological_iff (p : Process) :
    (p.names.Pairwise (· < ·) ∧
      ∀ entries : List Entry, (entries.map Prod.fst).Nodup → p.names ⊆ entries.map Prod.fst →
        ((segments entries).map Prod.fst).filter (fun name => p.names.contains name) = p.names ∧
        ∀ maxBytes fails sweep, enforceRetention maxBytes fails entries = some sweep →
          sweep.attempted.filter (fun name => p.names.contains name) <+: p.names) ↔
      p.written.Pairwise Written.InOrder := by
  rw [← p.names_pairwise_iff]
  refine ⟨And.left, fun hSorted => ⟨hSorted, fun entries hNodup hThere => ?_⟩⟩
  have hSegment : ∀ name ∈ p.names, isSegment name = true := by
    intro name hMem
    obtain ⟨s, -, rfl⟩ := List.mem_map.mp hMem
    exact isSegment_segmentName s.nowMs s.seq
  have hFilter := filter_segments hNodup hSorted fun name hMem => ⟨hSegment name hMem, hThere hMem⟩
  refine ⟨hFilter, fun maxBytes fails sweep hSweep => ?_⟩
  calc sweep.attempted.filter (fun name => p.names.contains name)
    _ <+: ((segments entries).map Prod.fst).filter (fun name => p.names.contains name) :=
      (prefix_of_enforceRetention hSweep).filter _
    _ = p.names := hFilter

/-- Of two segments in one millisecond the later one may sort first, and is
then dropped first: a sequence number of seven digits comes before one of six. -/
theorem not_chronological :
    ∃ first second : Written, first.calls < second.calls ∧ first.nowMs ≤ second.nowMs ∧
      second.nowMs < 10 ^ 14 ∧ ¬first.name < second.name ∧
      (enforceRetention 1 (fun _ => false) [(first.name, 1), (second.name, 1)]).map Sweep.removed =
        some [second.name] := by
  have hFirst : Written.name ⟨1700000000000, 999999⟩ = segmentName 1700000000000 999999 :=
    Written.name_eq (by decide)
  have hSecond : Written.name ⟨1700000000000, 1000000⟩ = segmentName 1700000000000 1000000 :=
    Written.name_eq (by decide)
  refine ⟨⟨1700000000000, 999999⟩, ⟨1700000000000, 1000000⟩, by decide, Nat.le_refl _, by decide,
    ?_, ?_⟩
  · rw [hFirst, hSecond, not_lt, ← nameLe_iff]
    decide +kernel
  · rw [hFirst, hSecond]
    decide +kernel

end Qlog

end RustDns
