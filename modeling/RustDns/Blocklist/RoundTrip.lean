import RustDns.Blocklist.Matching
import RustDns.Blocklist.NormalForm

/-! Writing a list to its file and reading it back. The lists that come back
unchanged are described by a condition on the lines of the posted text. -/
namespace RustDns.Blocklist

open Str Unicode

/-- Behind its trailing dots and the white space before them, the host part
has another dot. Normalizing stops at the white space and keeps that dot. -/
def StrandedDot (raw : Str) : Prop :=
  ((trimEndMatches '.' (hostPart raw)).rdropWhile isWhitespace).getLast? = some '.'

/-- The host part reads as a comment or as a wildcard once the scheme in
front of it is gone. -/
def Disguised (raw : Str) : Prop :=
  let host := (trimEndMatches '.' (hostPart raw)).dropWhile isWhitespace
  ['#'] <+: host ∨ wildcardPrefix <+: host

/-- The condition on one line of a text under which its entry survives. -/
def Rereadable (rawLine : Str) : Prop :=
  Skipped rawLine ∨
    (¬ wildcardPrefix <+: trim rawLine ∧ ¬ StrandedDot (trim rawLine) ∧
      ¬ Disguised (trim rawLine)) ∨
    ∃ rest, trim rawLine = wildcardPrefix ++ rest ∧ ¬ StrandedDot rest

/-- Reading the written file, or the list as the portal posts it back, gives
the same two sets and hence blocks the same names. -/
def RoundTrips (text : Str) : Prop :=
  let bl := fromText text
  let reread := fromText bl.toFileText
  reread.exact = bl.exact ∧ reread.wildcard = bl.wildcard ∧
    (∀ name, reread.isBlocked name = bl.isBlocked name) ∧
    fromText (['\n'].intercalate bl.toSortedVec) = bl

/-- An entry that stands for one line of a file. -/
structure Entry (e : Str) : Prop where
  normal : Normal e
  nonempty : e ≠ []
  newline : '\n' ∉ e

/-- What every list built from a text satisfies. -/
structure WellFormed (bl : Blocklist) : Prop where
  exact : ∀ e ∈ bl.exact, Entry e
  wildcard : ∀ w ∈ bl.wildcard, Entry w

theorem fromText_wellFormed (text : Str) : WellFormed (fromText text) where
  exact := by
    intro e he
    obtain ⟨line, hLine, -, -, -, rfl, hNonempty⟩ := (mem_fromText_exact text e).mp he
    have hRaw : '\n' ∉ trim line := fun hMem =>
      newline_not_mem_lines hLine (Scan.mem_of_mem_trim hMem)
    exact ⟨normal_normalize _, hNonempty, newline_not_mem_normalize hRaw⟩
  wildcard := by
    intro w hw
    obtain ⟨line, hLine, rest, hTrim, rfl, hNonempty⟩ := (mem_fromText_wildcard text w).mp hw
    have hRaw : '\n' ∉ rest := fun hMem =>
      newline_not_mem_lines hLine (Scan.mem_of_mem_trim (hTrim ▸ List.mem_append_right _ hMem))
    exact ⟨normal_normalize _, hNonempty, newline_not_mem_normalize hRaw⟩

theorem Entry.oneLine {e : Str} (he : Entry e) : OneLine e where
  newline := he.newline
  carriageReturn := fun hLast => by
    have hSpace := he.normal.trimmed.last '\r' hLast
    simp [isWhitespace] at hSpace
  nonempty := he.nonempty

theorem Entry.trim_wildcard {w : Str} (hw : Entry w) :
    trim (wildcardPrefix ++ w) = wildcardPrefix ++ w :=
  trim_eq_self (trimmed_wildcard hw.nonempty hw.normal.trimmed)

theorem mem_toSortedVec (bl : Blocklist) (line : Str) :
    line ∈ bl.toSortedVec ↔
      line ∈ bl.exact ∨ ∃ w ∈ bl.wildcard, wildcardPrefix ++ w = line := by
  simp [toSortedVec]

theorem WellFormed.oneLine {bl : Blocklist} (hbl : WellFormed bl) :
    ∀ line ∈ bl.toSortedVec, OneLine line := by
  intro line hLine
  rcases (mem_toSortedVec bl line).mp hLine with he | ⟨w, hw, rfl⟩
  · exact (hbl.exact line he).oneLine
  · exact oneLine_wildcard (hbl.wildcard w hw).oneLine

/-- The final newline of a file makes no difference to the list read. -/
theorem fromText_toFileText {bl : Blocklist} (hbl : WellFormed bl) :
    fromText bl.toFileText = bl.toSortedVec.foldl addLine ⟨∅, ∅⟩ ∧
      fromText (['\n'].intercalate bl.toSortedVec) = bl.toSortedVec.foldl addLine ⟨∅, ∅⟩ := by
  obtain ⟨hJoin, hFile⟩ := lines_intercalate hbl.oneLine
  refine ⟨?_, by rw [fromText, hJoin]⟩
  rw [fromText, toFileText]
  by_cases hEmpty : bl.toSortedVec = []
  · simp only [hEmpty]
    rfl
  · rw [hFile hEmpty]

theorem spellsExact_entry {e : Str} (he : Entry e) (x : Str) :
    SpellsExact e x ↔
      ¬ ['#'] <+: e ∧ ¬ wildcardPrefix <+: e ∧ normalize e = x ∧ x ≠ [] := by
  simp only [SpellsExact, trim_eq_self he.normal.trimmed, ne_eq, he.nonempty, not_false_eq_true,
    true_and]

theorem not_spellsExact_wildcard {w : Str} (hw : Entry w) (x : Str) :
    ¬ SpellsExact (wildcardPrefix ++ w) x := by
  simp [SpellsExact, hw.trim_wildcard]

theorem spellsWildcard_wildcard {w : Str} (hw : Entry w) (x : Str) :
    SpellsWildcard (wildcardPrefix ++ w) x ↔ normalize w = x ∧ x ≠ [] := by
  simp [SpellsWildcard, hw.trim_wildcard]

theorem not_spellsWildcard_entry {e : Str} (he : Entry e) (hPlain : ¬ wildcardPrefix <+: e)
    (x : Str) : ¬ SpellsWildcard e x := by
  rintro ⟨rest, hLine, -⟩
  rw [trim_eq_self he.normal.trimmed] at hLine
  exact hPlain ⟨rest, hLine.symm⟩

/-- The plain entries of the written file that are read back as such. -/
theorem mem_reread_exact {bl : Blocklist} (hbl : WellFormed bl) (x : Str) :
    x ∈ (fromText bl.toFileText).exact ↔
      ∃ e ∈ bl.exact, ¬ ['#'] <+: e ∧ ¬ wildcardPrefix <+: e ∧ normalize e = x ∧ x ≠ [] := by
  rw [(fromText_toFileText hbl).1, (mem_foldl_addLine _ _ x).1]
  simp only [Finset.notMem_empty, false_or]
  constructor
  · rintro ⟨line, hLine, hSpells⟩
    rcases (mem_toSortedVec bl line).mp hLine with he | ⟨w, hw, rfl⟩
    · exact ⟨line, he, (spellsExact_entry (hbl.exact line he) x).mp hSpells⟩
    · exact absurd hSpells (not_spellsExact_wildcard (hbl.wildcard w hw) x)
  · rintro ⟨e, he, hSpells⟩
    exact ⟨e, (mem_toSortedVec bl e).mpr (Or.inl he),
      (spellsExact_entry (hbl.exact e he) x).mpr hSpells⟩

/-- The wildcards read back, as long as no plain entry looks like one. -/
theorem mem_reread_wildcard {bl : Blocklist} (hbl : WellFormed bl)
    (hPlain : ∀ e ∈ bl.exact, ¬ wildcardPrefix <+: e) (x : Str) :
    x ∈ (fromText bl.toFileText).wildcard ↔ ∃ w ∈ bl.wildcard, normalize w = x ∧ x ≠ [] := by
  rw [(fromText_toFileText hbl).1, (mem_foldl_addLine _ _ x).2]
  simp only [Finset.notMem_empty, false_or]
  constructor
  · rintro ⟨line, hLine, hSpells⟩
    rcases (mem_toSortedVec bl line).mp hLine with he | ⟨w, hw, rfl⟩
    · exact absurd hSpells (not_spellsWildcard_entry (hbl.exact line he) (hPlain line he) x)
    · exact ⟨w, hw, (spellsWildcard_wildcard (hbl.wildcard w hw) x).mp hSpells⟩
  · rintro ⟨w, hw, hSpells⟩
    exact ⟨wildcardPrefix ++ w, (mem_toSortedVec bl _).mpr (Or.inr ⟨w, hw, rfl⟩),
      (spellsWildcard_wildcard (hbl.wildcard w hw) x).mpr hSpells⟩

/-- Sets of entries that normalizing maps onto themselves have no entry with
a dot at its end: the longest one could not be reached. -/
theorem no_final_dot {set : Finset Str} (hEntry : ∀ e ∈ set, Entry e)
    (hOnto : ∀ x ∈ set, ∃ e ∈ set, normalize e = x) :
    ∀ x ∈ set, x.getLast? ≠ some '.' := by
  intro x hx hDot
  have hNonempty : (set.filter fun e => e.getLast? = some '.').Nonempty :=
    ⟨x, Finset.mem_filter.mpr ⟨hx, hDot⟩⟩
  obtain ⟨longest, hLongest, hMax⟩ := Finset.exists_max_image _ List.length hNonempty
  obtain ⟨hMem, hLast⟩ := Finset.mem_filter.mp hLongest
  obtain ⟨e, he, hNormal⟩ := hOnto longest hMem
  by_cases heDot : e.getLast? = some '.'
  · have hShorter := (hEntry e he).normal.normalize_lt heDot
    have hBound := hMax e (Finset.mem_filter.mpr ⟨he, heDot⟩)
    rw [hNormal] at hShorter
    omega
  · rw [(hEntry e he).normal.normalize_eq_self heDot] at hNormal
    exact heDot (hNormal ▸ hLast)

/-- No entry would be read back as something else. -/
structure Faithful (bl : Blocklist) : Prop where
  comment : ∀ e ∈ bl.exact, ¬ ['#'] <+: e
  plain : ∀ e ∈ bl.exact, ¬ wildcardPrefix <+: e
  exactDot : ∀ e ∈ bl.exact, e.getLast? ≠ some '.'
  wildcardDot : ∀ w ∈ bl.wildcard, w.getLast? ≠ some '.'

theorem Faithful.reread_eq {bl : Blocklist} (hbl : WellFormed bl) (h : Faithful bl) :
    fromText bl.toFileText = bl := by
  have hExact : (fromText bl.toFileText).exact = bl.exact := by
    ext x
    rw [mem_reread_exact hbl]
    constructor
    · rintro ⟨e, he, -, -, rfl, -⟩
      rwa [(hbl.exact e he).normal.normalize_eq_self (h.exactDot e he)]
    · intro hx
      exact ⟨x, hx, h.comment x hx, h.plain x hx,
        (hbl.exact x hx).normal.normalize_eq_self (h.exactDot x hx), (hbl.exact x hx).nonempty⟩
  have hWildcard : (fromText bl.toFileText).wildcard = bl.wildcard := by
    ext x
    rw [mem_reread_wildcard hbl h.plain]
    constructor
    · rintro ⟨w, hw, rfl, -⟩
      rwa [(hbl.wildcard w hw).normal.normalize_eq_self (h.wildcardDot w hw)]
    · intro hx
      exact ⟨x, hx, (hbl.wildcard x hx).normal.normalize_eq_self (h.wildcardDot x hx),
        (hbl.wildcard x hx).nonempty⟩
  cases bl
  cases hReread : fromText _
  simp_all

theorem Faithful.of_reread {bl : Blocklist} (hbl : WellFormed bl)
    (hExact : (fromText bl.toFileText).exact = bl.exact)
    (hWildcard : (fromText bl.toFileText).wildcard = bl.wildcard) : Faithful bl := by
  have hSource : ∀ x ∈ bl.exact, ∃ e ∈ bl.exact,
      ¬ ['#'] <+: e ∧ ¬ wildcardPrefix <+: e ∧ normalize e = x := by
    intro x hx
    rw [← hExact, mem_reread_exact hbl] at hx
    obtain ⟨e, he, hComment, hPlain, hNormal, -⟩ := hx
    exact ⟨e, he, hComment, hPlain, hNormal⟩
  -- The source of an entry starts with whatever the entry starts with.
  have hStart : ∀ x ∈ bl.exact, ∀ front, (∀ e, ¬ ['#'] <+: e → ¬ wildcardPrefix <+: e →
      ¬ front <+: e) → ¬ front <+: x := by
    intro x hx front hFront hPrefix
    obtain ⟨e, he, hComment, hPlain, rfl⟩ := hSource x hx
    have hBack := (hbl.exact e he).normal.normalize_prefix.trans (List.rdropWhile_prefix _ _)
    exact hFront e hComment hPlain (hPrefix.trans hBack)
  have hPlain : ∀ e ∈ bl.exact, ¬ wildcardPrefix <+: e := fun e he =>
    hStart e he _ fun _ _ h => h
  refine ⟨fun e he => hStart e he _ fun _ h _ => h, hPlain, ?_, ?_⟩
  · refine no_final_dot hbl.exact fun x hx => ?_
    obtain ⟨e, he, -, -, hNormal⟩ := hSource x hx
    exact ⟨e, he, hNormal⟩
  · refine no_final_dot hbl.wildcard fun x hx => ?_
    rw [← hWildcard, mem_reread_wildcard hbl hPlain] at hx
    obtain ⟨w, hw, hNormal, -⟩ := hx
    exact ⟨w, hw, hNormal⟩

theorem strandedDot_iff (raw : Str) : StrandedDot raw ↔ (normalize raw).getLast? = some '.' := by
  rw [StrandedDot, normalize, trim, Scan.getLast?_trim]

theorem disguised_iff (raw : Str) :
    Disguised raw ↔ ['#'] <+: normalize raw ∨ wildcardPrefix <+: normalize raw := by
  have hIff : ∀ front : Str, front.all (!isWhitespace ·) = true →
      (front <+: (trimEndMatches '.' (hostPart raw)).dropWhile isWhitespace ↔
        front <+: normalize raw) := by
    intro front hFront
    have hVisible : ∀ x ∈ front, isWhitespace x = false := by simpa using hFront
    exact ⟨fun h => Scan.prefix_rdropWhile hVisible h,
      fun h => h.trans (List.rdropWhile_prefix _ _)⟩
  rw [Disguised, hIff _ (by decide), hIff _ (by decide)]

/-- The condition on the entries of a list, read off the lines of its text. -/
theorem faithful_fromText_iff (text : Str) :
    Faithful (fromText text) ↔ ∀ line ∈ lines text, Rereadable line := by
  constructor
  · intro h line hLine
    by_cases hSkip : Skipped line
    · exact Or.inl hSkip
    · by_cases hPrefix : wildcardPrefix <+: trim line
      · obtain ⟨rest, hRest⟩ := hPrefix
        refine Or.inr (Or.inr ⟨rest, hRest.symm, ?_⟩)
        rw [strandedDot_iff]
        intro hDot
        have hNonempty : normalize rest ≠ [] := by rintro hNil; simp [hNil] at hDot
        have hMem := (mem_fromText_wildcard text _).mpr
          ⟨line, hLine, rest, hRest.symm, rfl, hNonempty⟩
        exact h.wildcardDot _ hMem hDot
      · refine Or.inr (Or.inl ⟨hPrefix, ?_⟩)
        rw [strandedDot_iff, disguised_iff]
        by_cases hNil : normalize (trim line) = []
        · simp [hNil, wildcardPrefix]
        · simp only [Skipped, not_or] at hSkip
          have hMem := (mem_fromText_exact text _).mpr
            ⟨line, hLine, hSkip.1, hSkip.2, hPrefix, rfl, hNil⟩
          exact ⟨h.exactDot _ hMem, not_or.mpr ⟨h.comment _ hMem, h.plain _ hMem⟩⟩
  · intro h
    have hExact : ∀ e ∈ (fromText text).exact,
        e.getLast? ≠ some '.' ∧ ¬ ['#'] <+: e ∧ ¬ wildcardPrefix <+: e := by
      intro e he
      obtain ⟨line, hLine, hNonempty, hComment, hPlain, rfl, -⟩ := (mem_fromText_exact text e).mp he
      rcases h line hLine with hSkip | ⟨-, hDot, hDisguise⟩ | ⟨rest, hRest, -⟩
      · exact absurd hSkip (not_or.mpr ⟨hNonempty, hComment⟩)
      · rw [strandedDot_iff] at hDot
        rw [disguised_iff, not_or] at hDisguise
        exact ⟨hDot, hDisguise⟩
      · exact absurd ⟨rest, hRest.symm⟩ hPlain
    refine ⟨fun e he => (hExact e he).2.1, fun e he => (hExact e he).2.2,
      fun e he => (hExact e he).1, ?_⟩
    intro w hw
    obtain ⟨line, hLine, rest, hRest, rfl, -⟩ := (mem_fromText_wildcard text w).mp hw
    rcases h line hLine with hSkip | ⟨hPlain, -, -⟩ | ⟨rest', hRest', hDot⟩
    · exact absurd hSkip (not_skipped_of_wildcard hRest)
    · exact absurd ⟨rest, hRest.symm⟩ hPlain
    · obtain rfl : rest = rest' := List.append_cancel_left (hRest.symm.trans hRest')
      exact fun hLast => hDot ((strandedDot_iff rest).mpr hLast)

/-- A text survives the file and the portal exactly when each of its lines
does. The lines that do not are pasted URLs whose host reads as a comment or
a wildcard, and hosts with white space in front of their last dots. -/
theorem roundTrips_iff (text : Str) :
    RoundTrips text ↔ ∀ line ∈ lines text, Rereadable line := by
  have hbl := fromText_wellFormed text
  rw [← faithful_fromText_iff]
  constructor
  · rintro ⟨hExact, hWildcard, -⟩
    exact Faithful.of_reread hbl hExact hWildcard
  · intro h
    have hReread := h.reread_eq hbl
    have hPortal : fromText (['\n'].intercalate (fromText text).toSortedVec) = fromText text := by
      rw [(fromText_toFileText hbl).2, ← (fromText_toFileText hbl).1, hReread]
    exact ⟨by rw [hReread], by rw [hReread], fun name => by rw [hReread], hPortal⟩

/-- Pasting the URL of a wildcard host stores a plain entry, which the file
then spells as a wildcard. -/
theorem wildcard_url_not_roundTrips : ¬ RoundTrips "https://*.example.com/".toList := by
  rintro ⟨hExact, hWildcard, -⟩
  have hFaithful := Faithful.of_reread (fromText_wellFormed _) hExact hWildcard
  exact hFaithful.plain "*.example.com".toList (by decide +kernel) (by decide)

end RustDns.Blocklist
