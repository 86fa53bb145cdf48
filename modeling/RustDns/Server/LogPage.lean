import Mathlib.Data.Char
import Mathlib.Data.List.Lex
import RustDns.Admin.Logs
import RustDns.Library.Page
import RustDns.Server.Logging

/-! What `get_logs` shows of a log that is being written. Running a statement
belongs to the query engine: it reads every segment of the directory, keeps the
rows the clause admits, and hands out a page of them in the order of the time
it prints. -/
namespace RustDns

namespace Logging

open Qlog (LogRecord Arrow Writer Dir RecordBatch isSegment)
open Logs (LogQuery)

/-- The segments of the directory. -/
def segments (files : Dir) : List (Str × Bytes) :=
  (files.entries.map fun file => (file.1, file.2)).filter fun file => isSegment file.1

def hasSegments (files : Dir) : Bool := !(segments files).isEmpty

/-- `register_parquet`: a segment that cannot be read fails the query. -/
def logTable (arrow : Arrow) (files : Dir) : Option (List LogRecord) :=
  ((segments files).mapM fun file => (arrow.read file.2).map RecordBatch.rows).map List.flatten

/-- The rows a query may come back with. -/
def Queried (arrow : Arrow) (showTs : Int → Str) (escapes : Option (Char → Sql.Text)) (files : Dir)
    (q : LogQuery) (page : List LogRecord) : Prop :=
  if hasSegments files then
    ∃ table matching, logTable arrow files = some table ∧
      Logs.admitted escapes q table = some matching ∧
      Page.Top (fun r => showTs r.tsMs) (Logs.limit q) matching page
  else page = []

/-- The answers of `get_logs`. -/
def GetLogs (arrow : Arrow) (showTs : Int → Str) (escapes : Option (Char → Sql.Text)) (cfg : Config)
    (files : Dir) (q : LogQuery) (page : List LogRecord) : Prop :=
  if cfg.qlog.enabled then Queried arrow showTs escapes files q page else page = []

/-- The printed times are in the order of the times. -/
def ShowsTimes (showTs : Int → Str) (records : List LogRecord) : Prop :=
  ∀ r ∈ records, ∀ r' ∈ records, showTs r.tsMs ≤ showTs r'.tsMs → r.tsMs ≤ r'.tsMs

variable {arrow : Arrow} {showTs : Int → Str} {escapes : Option (Char → Sql.Text)}

/-- A segment is a file whose name ends as segments do. -/
theorem mem_segments {files : Dir} {name : Str} {bytes : Bytes} :
    (name, bytes) ∈ segments files ↔ files.lookup name = some bytes ∧ isSegment name = true := by
  rw [segments, List.mem_filter, List.mem_map]
  constructor
  · rintro ⟨⟨⟨name', bytes'⟩, hEntry, hSame⟩, hSegment⟩
    obtain ⟨rfl, rfl⟩ := Prod.mk.inj hSame
    exact ⟨AList.mem_lookup_iff.mpr hEntry, hSegment⟩
  · rintro ⟨hLookup, hSegment⟩
    exact ⟨⟨⟨name, bytes⟩, AList.mem_lookup_iff.mp hLookup, rfl⟩, hSegment⟩

/-- A directory lists each segment once. -/
theorem nodup_segments (files : Dir) : ((segments files).map Prod.fst).Nodup := by
  have hKeys : (files.entries.map Sigma.fst).Nodup := files.nodupKeys
  have hNames : ((files.entries.map fun file => (file.1, file.2)).map Prod.fst).Nodup := by
    rwa [List.map_map]
  exact hNames.sublist (List.filter_sublist.map Prod.fst)

/-- A traversal in which nothing fails is the map of its results. -/
theorem mapM_some {α β : Type} {f : α → Option β} {g : α → β} {l : List α}
    (hAll : ∀ x ∈ l, f x = some (g x)) : l.mapM f = some (l.map g) := by
  induction l with
  | nil => rfl
  | cons x rest ih =>
      rw [List.mapM_cons, hAll x List.mem_cons_self,
        ih fun y hMem => hAll y (List.mem_cons_of_mem x hMem)]
      rfl

/-- What a reader makes of a file. -/
def readRows (arrow : Arrow) (file : Str × Bytes) : List LogRecord :=
  ((arrow.read file.2).map RecordBatch.rows).getD []

/-- The table has the batches that are still in the directory, each once. -/
theorem logTable_spec {seg : Qlog.State} {flushed : List (Str × List LogRecord)}
    (hStored : Qlog.Stored arrow seg flushed) :
    ∃ batches : List (Str × List LogRecord), batches.Subperm flushed ∧
      logTable arrow seg.files = some (batches.flatMap Prod.snd) ∧
      ∀ name bytes recs, seg.files.lookup name = some bytes → (name, recs) ∈ flushed →
        (name, recs) ∈ batches := by
  have hRead : ∀ file ∈ segments seg.files,
      (arrow.read file.2).map RecordBatch.rows = some (readRows arrow file) ∧
        (file.1, readRows arrow file) ∈ flushed := by
    rintro ⟨name, bytes⟩ hMem
    obtain ⟨hLookup, hSegment⟩ := mem_segments.mp hMem
    obtain ⟨recs, hFlushed, hHolds⟩ := hStored.files name bytes hLookup hSegment
    have hRows : readRows arrow (name, bytes) = recs := by rw [readRows, hHolds.rows, Option.getD_some]
    rw [hRows]
    exact ⟨hHolds.rows, hFlushed⟩
  refine ⟨(segments seg.files).map fun file => (file.1, readRows arrow file), ?_, ?_, ?_⟩
  · apply List.subperm_of_subset
    · refine List.Nodup.of_map Prod.fst ?_
      rw [List.map_map]
      exact nodup_segments seg.files
    · intro batch hMem
      obtain ⟨file, hFile, rfl⟩ := List.mem_map.mp hMem
      exact (hRead file hFile).2
  · rw [logTable, mapM_some fun file hMem => (hRead file hMem).1, Option.map_some, List.flatMap_map]
    rfl
  · intro name bytes recs hLookup hFlushed
    have hMem : (name, bytes) ∈ segments seg.files :=
      mem_segments.mpr ⟨hLookup, hStored.isSegment hFlushed⟩
    have hSame : (name, readRows arrow (name, bytes)) = (name, recs) :=
      List.inj_on_of_nodup_map hStored.nodup (hRead _ hMem).2 hFlushed rfl
    rw [← hSame]
    exact List.mem_map.mpr ⟨(name, bytes), hMem, rfl⟩

variable {env : Env} {showType : UInt16 → Str} {s s' : State env}

/-- A writer task that is not in its loop has written nothing. -/
theorem unwritten_step {e : Event} (hUnwritten : s.task ≠ .running → s.writer = Writer.start)
    (hStep : step showType arrow s e = some s') : s'.task ≠ .running → s'.writer = Writer.start := by
  cases step_cases hStep with
  | arrive data client => exact hUnwritten
  | server hAllows hServer => exact hUnwritten
  | log nowMs elapsedMs hHandler hCall hPhase hEnabled hFirst =>
      unfold State.trySend
      split <;> exact hUnwritten
  | createDir ok hTask hEnabled =>
      intro _
      unfold State.createDir
      split <;> exact hUnwritten (by rw [hTask]; decide)
  | receive nowMs hTask hChannel hWrite => exact fun hNot => absurd hTask hNot
  | tick nowMs hTask hWrite => exact fun hNot => absurd hTask hNot
  | segment hTask hWrite => exact fun hNot => absurd hTask hNot

section

variable {cache : Cache.State} {cfg : Config} {list : Blocklist} {origins : List (Request env.wire)}
  {es : List Event} {q : LogQuery} {page : List LogRecord}

/-- Before its task runs the writer has done nothing. -/
theorem unwritten_run (hRun : Machine.run (step showType arrow) (start cache cfg list origins) es = some s) :
    s.task ≠ .running → s.writer = Writer.start :=
  Machine.run_invariant (fun _ _ _ => unwritten_step) (fun _ => rfl) hRun

/-- The records of the batches are records the channel has taken. -/
theorem flushed_subperm
    (hRun : Machine.run (step showType arrow) (start cache cfg list origins) es = some s) :
    (s.writer.flushed.flatMap Prod.snd).Subperm ((s.lines.filter Line.sent).map Line.record) := by
  have hFaithful := faithful_run hRun
  by_cases hTask : s.task = .running
  · have hSent := hFaithful.sent (by rw [hTask]; decide)
    rw [hSent, hFaithful.whole.received, List.flatMap_def, List.append_assoc]
    exact (List.sublist_append_left _ _).subperm
  · rw [unwritten_run hRun hTask]
    exact List.nil_subperm

/-- The table of a log that is being written, whatever the writer is doing: it
can be read, and has records of the log, each once, and all of every batch whose
segment is there. -/
theorem table_of_run
    (hRun : Machine.run (step showType arrow) (start cache cfg list origins) es = some s) :
    ∃ table, logTable arrow s.writer.seg.files = some table ∧
      table.Subperm ((s.lines.filter Line.sent).map Line.record) ∧
      ∀ name bytes recs, s.writer.seg.files.lookup name = some bytes →
        (name, recs) ∈ s.writer.flushed → recs ⊆ table := by
  obtain ⟨batches, hSub, hTable, hThere⟩ := logTable_spec (faithful_run hRun).whole.stored
  refine ⟨_, hTable, (Page.subperm_flatMap hSub _).trans (flushed_subperm hRun), ?_⟩
  intro name bytes recs hLookup hFlushed r hMem
  exact List.mem_flatMap.mpr ⟨(name, recs), hThere name bytes recs hLookup hFlushed, hMem⟩

/-- What comes back is a page of the rows the filters name, unless the log is
off. -/
theorem page_of_getLogs {files : Dir} {table : List LogRecord} (hPlain : q.Plain)
    (hTable : logTable arrow files = some table)
    (hPage : GetLogs arrow showTs escapes cfg files q page) :
    Page.Top (fun r => showTs r.tsMs) (Logs.limit q) (table.filter (Logs.names q)) page ∨
      page = [] ∧ cfg.qlog.enabled = false := by
  unfold GetLogs at hPage
  split at hPage
  case isFalse hOff => exact Or.inr ⟨hPage, Bool.eq_false_iff.mpr hOff⟩
  case isTrue hOn =>
    left
    unfold Queried at hPage
    split at hPage
    case isTrue hSome =>
      obtain ⟨table', matching, hTable', hAdmitted, hTop⟩ := hPage
      obtain rfl := Option.some.inj (hTable.symm.trans hTable')
      have hNames : (fun r => (Logs.comparisons q).all fun c => c.holds (Logs.column r)) = Logs.names q :=
        funext (Logs.names_of_plain hPlain)
      rw [Logs.admitted_eq, hNames] at hAdmitted
      obtain rfl := Option.some.inj hAdmitted
      exact hTop
    case isFalse hNone =>
      have hEmpty : segments files = [] := by simpa [hasSegments] using hNone
      have hNothing : table = [] := by
        rw [logTable, hEmpty] at hTable
        exact (Option.some.inj hTable).symm
      rw [hNothing, hPage]
      exact ⟨[], List.Perm.refl [], List.Pairwise.nil, List.take_nil.symm⟩

/-- The log page at any moment of a run. No segment is torn, so the query can be
run; every row is the record of one answered query that the filters name, no
record is shown twice, and the rows come newest first; and a record in a segment
that the filters name is on the page, or the page is full of rows as new. -/
theorem log_page
    (hRun : Machine.run (step showType arrow) (start cache cfg list origins) es = some s)
    (hPlain : q.Plain) (hTimes : ShowsTimes showTs (s.lines.map Line.record))
    (hPage : GetLogs arrow showTs escapes s.server.config s.writer.seg.files q page) :
    (logTable arrow s.writer.seg.files).isSome ∧
    page.Subperm ((s.lines.filter Line.sent).map Line.record) ∧
    (∀ row ∈ page, Logs.names q row = true ∧
      ∃ (h : Nat) (hd : Server.Handler env) (c : Call) (r : Request env.wire) (a : Server.Answer)
        (nowMs : Int) (elapsedMs : Nat), s.server.handlers[h]? = some hd ∧ s.calls[h]? = some c ∧
          hd.phase = .answered r a ∧ row = record showType c r a nowMs elapsedMs) ∧
    page.Pairwise (fun a b => b.tsMs ≤ a.tsMs) ∧ page.length ≤ Logs.limit q ∧
    (s.server.config.qlog.enabled = true → ∀ name bytes recs,
      s.writer.seg.files.lookup name = some bytes → (name, recs) ∈ s.writer.flushed →
        ∀ r ∈ recs, Logs.names q r = true →
          r ∈ page ∨ page.length = Logs.limit q ∧ ∀ row ∈ page, r.tsMs ≤ row.tsMs) := by
  have hFaithful := faithful_run hRun
  obtain ⟨table, hTable, hSub, hThere⟩ := table_of_run hRun
  rcases page_of_getLogs hPlain hTable hPage with hTop | ⟨rfl, hOff⟩
  · have hShown : page.Subperm ((s.lines.filter Line.sent).map Line.record) :=
      hTop.subperm.trans (List.filter_sublist.subperm.trans hSub)
    have hLine : ∀ r ∈ (s.lines.filter Line.sent).map Line.record, r ∈ s.lines.map Line.record :=
      fun r hMem => (List.filter_sublist.map Line.record).subset hMem
    have hOlder : ∀ row ∈ page, ∀ r ∈ table, showTs r.tsMs ≤ showTs row.tsMs → r.tsMs ≤ row.tsMs :=
      fun row hRow r hMem =>
        hTimes r (hLine r (hSub.subset hMem)) row (hLine row (hShown.subset hRow))
    have hFiltered : ∀ row ∈ page, row ∈ table ∧ Logs.names q row = true := fun row hRow =>
      List.mem_filter.mp (hTop.subperm.subset hRow)
    refine ⟨by rw [hTable]; rfl, hShown, fun row hRow => ⟨(hFiltered row hRow).2, ?_⟩, ?_,
      hTop.length_le, fun _ name bytes recs hLookup hFlushed r hMem hNamed => ?_⟩
    · obtain ⟨line, hLineMem, rfl⟩ := List.mem_map.mp (hLine row (hShown.subset hRow))
      obtain ⟨hd, c, r, a, nowMs, elapsedMs, hHandler, hCall, hPhase, hRecord⟩ :=
        hFaithful.lines line hLineMem
      exact ⟨line.handler, hd, c, r, a, nowMs, elapsedMs, hHandler, hCall, hPhase, hRecord⟩
    · refine List.Pairwise.imp_of_mem (fun {a b} ha hb hShow => ?_) hTop.pairwise
      exact hOlder a ha b (hFiltered b hb).1 hShow
    · have hTableMem : r ∈ table := hThere name bytes recs hLookup hFlushed hMem
      rcases hTop.mem_or_full (List.mem_filter.mpr ⟨hTableMem, hNamed⟩) with hOn | ⟨hFull, hNewer⟩
      · exact Or.inl hOn
      · exact Or.inr ⟨hFull, fun row hRow => hOlder row hRow r hTableMem (hNewer row hRow)⟩
  · refine ⟨by rw [hTable]; rfl, List.nil_subperm, by simp, List.Pairwise.nil, Nat.zero_le _, ?_⟩
    intro hOn
    rw [hOff] at hOn
    exact absurd hOn Bool.false_ne_true

end

/-- A request with no filters. -/
def recent : LogQuery := ⟨none, none, none, none⟩

def sampleShown (_ : Int) : Str := "2023-11-14T22:13:20".toList

/-- After the session a page over the recent files shows the one forwarded
query. -/
theorem log_page_session :
    ∃ s page, Machine.run (step sampleType Arrow.numbered) sampleStart (session sampleClient) = some s ∧
      GetLogs Arrow.numbered sampleShown none s.server.config s.writer.seg.files recent page ∧
      page.map LogRecord.action = ["forwarded".toList] ∧
      page.Subperm ((s.lines.filter Line.sent).map Line.record) := by
  have hEnd : ((Machine.run (step sampleType Arrow.numbered) sampleStart
      (session sampleClient)).map fun s =>
        (s.lines.map (fun line => (line.record.tsMs, line.record.action, line.sent)),
          s.writer.flushed.map (fun batch =>
            (batch.2.isEmpty, (s.writer.seg.files.lookup batch.1).isSome)),
          hasSegments s.writer.seg.files, s.server.config.qlog.enabled)) =
      some ([(1700000000000, "forwarded".toList, true)], [(false, true)], true, true) := by
    decide +kernel
  obtain ⟨s, hRun, hValues⟩ := Option.map_eq_some_iff.mp hEnd
  simp only [Prod.mk.injEq] at hValues
  obtain ⟨hLines, hFlushed, hSegments, hEnabled⟩ := hValues
  obtain ⟨line, hLine, hMade⟩ := List.map_eq_singleton_iff.mp hLines
  simp only [Prod.mk.injEq] at hMade
  obtain ⟨hTime, hAction, hSent⟩ := hMade
  have hLog : (s.lines.filter Line.sent).map Line.record = [line.record] := by simp [hLine, hSent]
  have hPlain : recent.Plain := ⟨by simp [recent], by simp [recent], by simp [recent]⟩
  have hTimes : ShowsTimes sampleShown (s.lines.map Line.record) := by simp [ShowsTimes, hLine]
  -- the one segment has the one record
  obtain ⟨table, hTable, hSub, hThere⟩ := table_of_run hRun
  rw [hLog] at hSub
  obtain ⟨⟨name, recs⟩, hBatch, hFile⟩ := List.map_eq_singleton_iff.mp hFlushed
  obtain ⟨hNonempty, hLookup⟩ := Prod.mk.inj hFile
  obtain ⟨bytes, hBytes⟩ := Option.isSome_iff_exists.mp hLookup
  obtain ⟨r, hMem⟩ := List.exists_mem_of_ne_nil recs (by simpa using hNonempty)
  have hRow : r ∈ table := hThere name bytes recs hBytes (by simp [hBatch]) hMem
  obtain rfl : r = line.record := List.mem_singleton.mp (hSub.subset hRow)
  obtain rfl : table = [line.record] :=
    List.perm_singleton.mp (hSub.antisymm (List.singleton_subperm_iff.mpr hRow))
  have hAdmitted : Logs.admitted none recent [line.record] = some [line.record] := by
    rw [Logs.admitted_eq]
    rfl
  have hTop : Page.Top (fun r => sampleShown r.tsMs) (Logs.limit recent) [line.record] [line.record] :=
    ⟨[line.record], List.Perm.refl _, List.pairwise_singleton _ _, rfl⟩
  have hPage : GetLogs Arrow.numbered sampleShown none s.server.config s.writer.seg.files recent
      [line.record] := by
    rw [GetLogs, if_pos hEnabled, Queried, if_pos hSegments]
    exact ⟨_, _, hTable, hAdmitted, hTop⟩
  exact ⟨s, [line.record], hRun, hPage, by rw [List.map_singleton, hAction],
    (log_page hRun hPlain hTimes hPage).2.1⟩

end Logging

end RustDns
