import RustDns.Library.Sql
import RustDns.Qlog.Segment

/-! The SQL that `get_logs` makes of the filters in a request: how it is read,
and which of the logged records it admits. -/
namespace RustDns

namespace Logs

open Qlog

structure LogQuery where
  limit : Option Nat
  domain : Option Str
  client : Option Str
  action : Option Str

def sqlEscape (s : Str) : Str :=
  Str.replace '\'' "''".toList (s.filter fun c => !(c == ';' || c == '\\'))

/-- `filter(|s| !s.is_empty())`. -/
def nonEmpty (filter : Option Str) : Option Str := filter.filter (!·.isEmpty)

def clauses (q : LogQuery) : List Str :=
  ((nonEmpty q.domain).map fun d => "domain LIKE '%".toList ++ sqlEscape d ++ "%'".toList).toList ++
    ((nonEmpty q.client).map fun c => "client = '".toList ++ sqlEscape c ++ "'".toList).toList ++
    ((nonEmpty q.action).map fun a => "action = '".toList ++ sqlEscape a ++ "'".toList).toList

def whereSql (q : LogQuery) : Str :=
  if (clauses q).isEmpty then []
  else "WHERE ".toList ++ " AND ".toList.intercalate (clauses q)

def limit (q : LogQuery) : Nat := max 1 (min (q.limit.getD 200) 5000)

/-- The statement that `query` runs. -/
def sql (whereSql : Str) (limit : Nat) : Str :=
  "SELECT CAST(ts AS VARCHAR) AS ts, client, domain, qtype, action, latency_ms ".toList ++
    "FROM logs ".toList ++ whereSql ++ " ORDER BY ts DESC LIMIT ".toList ++
    Nat.toDigits 10 limit

/-- What is left of a filter. -/
def kept (s : Str) : Str := s.filter fun c => !(c == ';' || c == '\\')

/-- The text of a filter that is there and not empty. -/
def given (filter : Option Str) : List Str :=
  match filter with
  | none | some [] => []
  | some (c :: rest) => [c :: rest]

/-- What the filters of a request ask for, in the order of the clauses. -/
def comparisons (q : LogQuery) : List Sql.Comparison :=
  (given q.domain).map (fun d => ⟨"domain".toList, .like, '%' :: kept d ++ ['%']⟩) ++
    (given q.client).map (fun c => ⟨"client".toList, .eq, kept c⟩) ++
    (given q.action).map (fun a => ⟨"action".toList, .eq, kept a⟩)

/-- The code passes on the filters that are given. -/
theorem toList_nonEmpty (filter : Option Str) : (nonEmpty filter).toList = given filter := by
  match filter with
  | none => rfl
  | some [] => rfl
  | some (c :: rest) => rfl

/-- What is left of a filter goes in with its quotes doubled. -/
theorem sqlEscape_eq (s : Str) : sqlEscape s = Sql.doubled (kept s) := rfl

theorem backslash_notMem_kept (s : Str) : '\\' ∉ kept s := by
  simp [kept]

theorem text_domain (d : Str) :
    Sql.Comparison.text ⟨"domain".toList, .like, '%' :: kept d ++ ['%']⟩ =
      "domain LIKE '%".toList ++ sqlEscape d ++ "%'".toList := by
  have hDoubled : Sql.doubled ('%' :: kept d ++ ['%']) = '%' :: sqlEscape d ++ ['%'] := by
    rw [← List.singleton_append, Sql.doubled_append, Sql.doubled_append, ← sqlEscape_eq]
    rfl
  simp only [Sql.Comparison.text, Sql.Operator.text_like, hDoubled]
  simp

/-- The code writes the comparisons out one by one. -/
theorem clauses_eq (q : LogQuery) : clauses q = (comparisons q).map Sql.Comparison.text := by
  have hEqual : ∀ column s : Str, Sql.Comparison.text ⟨column, .eq, kept s⟩ =
      column ++ " = '".toList ++ sqlEscape s ++ "'".toList := by
    intro column s
    simp [Sql.Comparison.text, Sql.Operator.text_eq, sqlEscape_eq]
  simp only [clauses, comparisons, List.map_append, Option.toList_map, toList_nonEmpty, List.map_map,
    Function.comp_def, text_domain, hEqual]
  rfl

/-- No comparison has a backslash in its literal. -/
theorem comparisons_safe (q : LogQuery) : ∀ c ∈ comparisons q, c.Safe := by
  have hColumns : ∀ column ∈ ["domain".toList, "client".toList, "action".toList],
      column ≠ [] ∧ column.all Sql.isWordChar := by decide
  have hSafe : ∀ column ∈ ["domain".toList, "client".toList, "action".toList],
      ∀ operator value, '\\' ∉ value → Sql.Comparison.Safe ⟨column, operator, value⟩ :=
    fun column hMem _ _ hValue =>
      ⟨(hColumns column hMem).1, List.all_eq_true.mp (hColumns column hMem).2, hValue⟩
  intro c hMem
  simp only [comparisons, List.mem_append, List.mem_map] at hMem
  rcases hMem with (⟨d, -, rfl⟩ | ⟨s, -, rfl⟩) | ⟨s, -, rfl⟩
  · exact hSafe _ (by simp) _ _ (by simp [backslash_notMem_kept])
  · exact hSafe _ (by simp) _ _ (backslash_notMem_kept s)
  · exact hSafe _ (by simp) _ _ (backslash_notMem_kept s)

/-- The clause up to white space after it, whether or not there is one. -/
theorem scan_whereSql (escapes : Option (Char → Sql.Text)) (q : LogQuery) :
    Sql.scan escapes .between (whereSql q ++ [' ']) =
      (Sql.whereTokens (comparisons q), .between) := by
  unfold whereSql
  rw [clauses_eq]
  have hSafe := comparisons_safe q
  cases hComparisons : comparisons q with
  | nil => rfl
  | cons c rest =>
      rw [hComparisons] at hSafe
      have hWhere : Sql.scan escapes .between "WHERE ".toList =
          ([.word "WHERE".toList], .between) := rfl
      simpa [Sql.whereTokens] using Sql.scan_trans hWhere (Sql.scan_joined hSafe)

/-- The clause on its own is read as the comparisons. -/
theorem lex_whereSql (escapes : Option (Char → Sql.Text)) (q : LogQuery) :
    Sql.lex escapes (whereSql q) = some (Sql.whereTokens (comparisons q)) := by
  rw [← Sql.lex_append_space]
  exact Sql.lex_of_scan (scan_whereSql escapes q)

/-- The tokens around the clause. -/
def selectTokens : List Sql.Token :=
  [.word "SELECT".toList, .word "CAST".toList, .symbol '(', .word "ts".toList,
    .word "AS".toList, .word "VARCHAR".toList, .symbol ')', .word "AS".toList,
    .word "ts".toList, .symbol ',', .word "client".toList, .symbol ',',
    .word "domain".toList, .symbol ',', .word "qtype".toList, .symbol ',',
    .word "action".toList, .symbol ',', .word "latency_ms".toList, .word "FROM".toList,
    .word "logs".toList]

def orderTokens (limit : Nat) : List Sql.Token :=
  [.word "ORDER".toList, .word "BY".toList, .word "ts".toList, .word "DESC".toList,
    .word "LIMIT".toList, .word (Nat.toDigits 10 limit)]

theorem lex_digits (escapes : Option (Char → Sql.Text)) (n : Nat) :
    Sql.lex escapes (Nat.toDigits 10 n) = some [.word (Nat.toDigits 10 n)] := by
  have hDigits : ∀ c ∈ Nat.toDigits 10 n, Sql.isWordChar c := by
    intro c hMem
    have hDigit : c.isDigit := Nat.isDigit_of_mem_toDigits (by decide) (by decide) hMem
    simp [Sql.isWordChar, Char.isAlphanum, hDigit]
  simp [Sql.lex, Sql.scan_between_word Nat.toDigits_ne_nil hDigits, Sql.Mode.finish]

theorem scan_select (escapes : Option (Char → Sql.Text)) :
    Sql.scan escapes .between
        ("SELECT CAST(ts AS VARCHAR) AS ts, client, domain, qtype, action, latency_ms ".toList ++
          "FROM logs ".toList) = (selectTokens, .between) := by
  have hTime : Sql.scan escapes .between "SELECT CAST(ts AS VARCHAR) AS ts, ".toList =
      (selectTokens.take 10, .between) := rfl
  have hColumns : Sql.scan escapes .between "client, domain, qtype, action, ".toList =
      ((selectTokens.drop 10).take 8, .between) := rfl
  have hTable : Sql.scan escapes .between ("latency_ms ".toList ++ "FROM logs ".toList) =
      (selectTokens.drop 18, .between) := rfl
  have hText :
      "SELECT CAST(ts AS VARCHAR) AS ts, client, domain, qtype, action, latency_ms ".toList =
        "SELECT CAST(ts AS VARCHAR) AS ts, ".toList ++
          "client, domain, qtype, action, ".toList ++ "latency_ms ".toList := by
    decide +kernel
  rw [hText, List.append_assoc]
  exact Sql.scan_trans (Sql.scan_trans hTime hColumns) hTable

/-- No filter gets out of its literal: whatever the filters are, and whether or
not a backslash escapes, the clause is `WHERE` and one comparison with one
literal for each filter, and the statement around it is read as it stands. -/
theorem filters_stay_in_literals (escapes : Option (Char → Sql.Text)) (q : LogQuery) :
    Sql.lex escapes (whereSql q) = some (Sql.whereTokens (comparisons q)) ∧
      Sql.lex escapes (sql (whereSql q) (limit q)) =
        some (selectTokens ++ Sql.whereTokens (comparisons q) ++ orderTokens (limit q)) := by
  refine ⟨lex_whereSql escapes q, ?_⟩
  have hOrder : Sql.scan escapes .between "ORDER BY ts DESC LIMIT ".toList =
      ((orderTokens (limit q)).dropLast, .between) := rfl
  have hSpace : " ORDER BY ts DESC LIMIT ".toList = ' ' :: "ORDER BY ts DESC LIMIT ".toList := rfl
  have hTokens : (orderTokens (limit q)).dropLast ++ [.word (Nat.toDigits 10 (limit q))] =
      orderTokens (limit q) := rfl
  unfold sql
  rw [hSpace, Sql.lex_around (scan_select escapes) (scan_whereSql escapes q) hOrder, lex_digits,
    Option.map_some, List.append_assoc, hTokens]

/-- The columns of text in the table. -/
def column (r : LogRecord) (name : Sql.Text) : Option Sql.Text :=
  if name = "client".toList then some r.client
  else if name = "domain".toList then some r.domain
  else if name = "qtype".toList then some r.qtype
  else if name = "action".toList then some r.action
  else none

/-- The records the clause admits. -/
def admitted (escapes : Option (Char → Sql.Text)) (q : LogQuery) (records : List LogRecord) :
    Option (List LogRecord) := do
  let tokens ← Sql.lex escapes (whereSql q)
  let condition ← Sql.condition tokens
  return records.filter fun r => condition.all fun c => c.holds (column r)

/-- A record the filters name. -/
def names (q : LogQuery) (r : LogRecord) : Bool :=
  (given q.domain).all (fun d => decide (d <:+: r.domain)) &&
    (given q.client).all (fun c => r.client == c) &&
    (given q.action).all (fun a => r.action == a)

/-- What a record has to pass, filter by filter. -/
theorem all_comparisons (q : LogQuery) (r : LogRecord) :
    ((comparisons q).all fun c => c.holds (column r)) =
      ((given q.domain).all (fun d => Sql.like ('%' :: kept d ++ ['%']) r.domain) &&
        (given q.client).all (fun c => r.client == kept c) &&
        (given q.action).all (fun a => r.action == kept a)) := by
  simp only [comparisons, List.all_append, List.all_map]
  rfl

/-- The clause admits the records that pass every comparison. -/
theorem admitted_eq (escapes : Option (Char → Sql.Text)) (q : LogQuery)
    (records : List LogRecord) :
    admitted escapes q records =
      some (records.filter fun r => (comparisons q).all fun c => c.holds (column r)) := by
  simp [admitted, lex_whereSql, Sql.condition_whereTokens]

/-- A character the escaping drops. -/
def isLost (c : Char) : Bool := c == ';' || c == '\\'

/-- Filters none of whose characters is lost or taken for a wildcard. -/
structure LogQuery.Plain (q : LogQuery) : Prop where
  domain : ∀ d ∈ q.domain, ∀ c ∈ d, isLost c = false ∧ Sql.isWildcard c = false
  client : ∀ s ∈ q.client, ∀ c ∈ s, isLost c = false
  action : ∀ s ∈ q.action, ∀ c ∈ s, isLost c = false

theorem kept_eq_self_iff {s : Str} : kept s = s ↔ ∀ c ∈ s, isLost c = false := by
  simp [kept, isLost]

theorem mem_given {filter : Option Str} {s : Str} :
    s ∈ given filter ↔ filter = some s ∧ s ≠ [] := by
  match filter with
  | none => simp [given]
  | some [] => simp +contextual [given]
  | some (c :: rest) => simp +contextual [given, eq_comm]

theorem given_some {s : Str} (hSome : s ≠ []) : given (some s) = [s] := by
  cases s with
  | nil => exact absurd rfl hSome
  | cons c rest => rfl

theorem all_congr {texts : List Str} {p p' : Str → Bool} (hSame : ∀ s ∈ texts, p s = p' s) :
    texts.all p = texts.all p' := by
  rw [Bool.eq_iff_iff, List.all_eq_true, List.all_eq_true]
  exact forall₂_congr fun s hMem => by rw [hSame s hMem]

/-- Plain filters mean what they say. -/
theorem names_of_plain {q : LogQuery} (hPlain : q.Plain) (r : LogRecord) :
    ((comparisons q).all fun c => c.holds (column r)) = names q r := by
  rw [all_comparisons, names]
  congr 1
  · congr 1
    · apply all_congr
      intro d hMem
      have hChars := hPlain.domain d (mem_given.mp hMem).1
      rw [kept_eq_self_iff.mpr fun c hChar => (hChars c hChar).1]
      exact Bool.eq_iff_iff.mpr
        ((Sql.like_contains fun c hChar => (hChars c hChar).2).trans decide_eq_true_iff.symm)
    · apply all_congr
      intro c hMem
      rw [kept_eq_self_iff.mpr (hPlain.client c (mem_given.mp hMem).1)]
  · apply all_congr
    intro a hMem
    rw [kept_eq_self_iff.mpr (hPlain.action a (mem_given.mp hMem).1)]

/-- A record that the client and action filters name. -/
def sample (q : LogQuery) (domain : Str) : LogRecord where
  tsMs := 0
  client := q.client.getD []
  domain := domain
  qtype := "A".toList
  action := q.action.getD []
  latencyMs := 0

theorem names_sample (q : LogQuery) (domain : Str) :
    names q (sample q domain) = (given q.domain).all fun d => decide (d <:+: domain) := by
  have hNamed : ∀ filter : Option Str, (given filter).all (fun s => filter.getD [] == s) := by
    intro filter
    rw [List.all_eq_true]
    intro s hMem
    have hFilter : filter = some s := (mem_given.mp hMem).1
    simp [hFilter]
  unfold names
  rw [show (given q.client).all (fun c => (sample q domain).client == c) from hNamed q.client,
    show (given q.action).all (fun a => (sample q domain).action == a) from hNamed q.action,
    Bool.and_true, Bool.and_true]
  rfl

/-- A filter compared for equality finds its own text only if it loses nothing. -/
theorem kept_of_all {filter : Option Str}
    (hAll : (given filter).all fun s => filter.getD [] == kept s) :
    ∀ s ∈ filter, ∀ c ∈ s, isLost c = false := by
  intro s hMem c hChar
  have hGiven : s ∈ given filter := mem_given.mpr ⟨hMem, List.ne_nil_of_mem hChar⟩
  have hKept := List.all_eq_true.mp hAll s hGiven
  rw [show filter = some s from hMem, Option.getD_some, beq_iff_eq] at hKept
  exact kept_eq_self_iff.mp hKept.symm c hChar

/-- A filter between percent signs finds exactly the texts that contain it only
if it loses nothing and has no wildcard. -/
theorem plain_of_contains {d : Str}
    (hContains : ∀ text, Sql.like ('%' :: kept d ++ ['%']) text → d <:+: text) :
    ∀ c ∈ d, isLost c = false ∧ Sql.isWildcard c = false := by
  have hInfix : d <:+: kept d := by
    simpa using hContains _ (Sql.like_between (Sql.like_self (kept d)) [] [])
  have hKept : kept d = d :=
    (hInfix.eq_of_length (le_antisymm hInfix.length_le (List.length_filter_le _ d))).symm
  rw [hKept] at hContains
  exact fun c hMem =>
    ⟨kept_eq_self_iff.mp hKept c hMem, Sql.isWildcard_of_contains hContains c hMem⟩

/-- Filters that mean what they say are plain. -/
theorem plain_of_names {q : LogQuery}
    (hSame : ∀ r, ((comparisons q).all fun c => c.holds (column r)) = names q r) : q.Plain := by
  have hParts : ∀ domain, (given q.domain).all (fun d => decide (d <:+: domain)) =
      ((given q.domain).all (fun d => Sql.like ('%' :: kept d ++ ['%']) domain) &&
        (given q.client).all (fun c => q.client.getD [] == kept c) &&
        (given q.action).all (fun a => q.action.getD [] == kept a)) := by
    intro domain
    rw [← names_sample, ← hSame, all_comparisons]
    rfl
  -- a record that has every filter for its value shows that the last two lose nothing
  have hNamed : (given q.domain).all (fun d => decide (d <:+: q.domain.getD [])) := by
    rw [List.all_eq_true]
    intro d hMem
    have hFilter : q.domain = some d := (mem_given.mp hMem).1
    simp [hFilter]
  have hTrue := hParts (q.domain.getD [])
  rw [hNamed, eq_comm, Bool.and_eq_true, Bool.and_eq_true] at hTrue
  obtain ⟨⟨-, hClient⟩, hAction⟩ := hTrue
  refine ⟨?_, kept_of_all hClient, kept_of_all hAction⟩
  intro d hMem c hChar
  have hDomain : given q.domain = [d] := by
    rw [show q.domain = some d from hMem, given_some (List.ne_nil_of_mem hChar)]
  refine plain_of_contains ?_ c hChar
  intro text hLike
  have hText := hParts text
  rw [hClient, hAction, hDomain, Bool.and_true, Bool.and_true, List.all_cons, List.all_nil,
    List.all_cons, List.all_nil, Bool.and_true, Bool.and_true] at hText
  exact of_decide_eq_true (hText.trans hLike)

/-- The clause admits the records the filters name exactly if no filter has a
semicolon or a backslash, which are dropped, and the domain filter has no
percent sign or underscore, which `LIKE` takes for wildcards. -/
theorem admitted_named_iff (escapes : Option (Char → Sql.Text)) (q : LogQuery) :
    (∀ records, admitted escapes q records = some (records.filter (names q))) ↔ q.Plain := by
  simp only [admitted_eq, Option.some.injEq]
  constructor
  · intro hRecords
    apply plain_of_names
    intro r
    have hOne := hRecords [r]
    rw [List.filter_singleton, List.filter_singleton] at hOne
    cases hHolds : (comparisons q).all fun c => c.holds (column r) <;>
      cases hNames : names q r <;> simp_all
  · intro hPlain records
    exact congrArg (records.filter ·) (funext (names_of_plain hPlain))

/-- The filter of a service name. -/
def serviceQuery : LogQuery where
  limit := none
  domain := some "_sip".toList
  client := none
  action := none

def otherRecord : LogRecord := sample serviceQuery "voice.sip.example".toList

/-- A filter for `_sip` admits a record whose domain does not contain it. -/
theorem underscore_admits_other :
    admitted none serviceQuery [otherRecord] = some [otherRecord] ∧
      [otherRecord].filter (names serviceQuery) = [] := by
  have hHolds : ((comparisons serviceQuery).all fun c => c.holds (column otherRecord)) = true := by
    decide
  have hNames : names serviceQuery otherRecord = false := by decide
  rw [admitted_eq, List.filter_singleton, List.filter_singleton, hHolds, hNames]
  exact ⟨rfl, rfl⟩

end Logs

end RustDns
