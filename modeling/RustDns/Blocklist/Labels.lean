import RustDns.Blocklist.Matching
import RustDns.Blocklist.NormalForm
import RustDns.Dns.CanonicalName

/-! Names on the wire against entries of the list, label by label. -/
namespace RustDns

open Unicode

/-- A domain in its ASCII form: letters, digits, hyphens and underscores. -/
structure Domain where
  labels : List Label
  nonempty : labels ≠ []
  label : ∀ l ∈ labels, l ≠ [] ∧ ∀ b ∈ l, Label.isHostByte b = true

namespace Domain

/-- Host bytes are printed as they are. -/
def chars (l : Label) : Str := l.map Label.byteChar

/-- The line that spells the domain, in whatever letter case. -/
def spelling (d : Domain) : Str := ['.'].intercalate (d.labels.map chars)

/-- The entry the line becomes. -/
def entry (d : Domain) : Str := ['.'].intercalate (d.labels.map fun l => chars l.lower)

/-- The labels of the domain end the labels of the name, ignoring case. -/
def Covers (d : Domain) (n : Name) : Prop :=
  d.labels.map Label.lower <:+ n.labels.map Label.lower

def StrictlyCovers (d : Domain) (n : Name) : Prop :=
  d.Covers n ∧ d.labels.length < n.labels.length

variable (idna : Idna)

/-- One of the labels compared with the domain is not printed as it stands: it
is printed in Unicode, or the hyphen in front of it is escaped. -/
def PrintedOtherwise (d : Domain) (n : Name) : Prop :=
  ∃ l ∈ n.labels.drop (n.labels.length - d.labels.length),
    (l.decoded idna).isSome ∨ l.head? = some Label.hyphen

/-- A dot inside the text of one label starts text that spells the domain
and runs to the end of the name. -/
def SpelledInside (d : Domain) (n : Name) : Prop :=
  ∃ front l back x y, n.labels = front ++ l :: back ∧ l.lowerText idna = x ++ '.' :: y ∧
    Str.trimEndMatches '.' (y ++ '.' :: Name.joined idna back) = d.entry

end Domain

namespace Label

variable {idna : Idna}

/-- Something other than dots is left of every label. -/
theorem exists_ne_dot_lowerText (hIdna : idna.Standard) {l : Label} (hl : l ≠ []) :
    ∃ c ∈ l.lowerText idna, c ≠ '.' := by
  cases h : l.decoded idna with
  | none =>
      obtain ⟨c, rest, hText, hc⟩ := head_lowerText_of_not_decoded hl h
      exact ⟨c, by simp [hText], hc⟩
  | some u =>
      obtain ⟨c, hc, hUnicode⟩ := exists_unicode_lowerText hIdna h
      refine ⟨c, hc, ?_⟩
      rintro rfl
      revert hUnicode
      decide

/-- The label is printed as it stands: it is not decoded, and there is no
hyphen in front to escape. -/
def PrintedPlain (idna : Idna) (l : Label) : Prop := l.decoded idna = none ∧ l.head? ≠ some hyphen

end Label

namespace Name

variable {idna : Idna}

/-- The trimmed text of the last labels of a name. -/
def tailText (idna : Idna) (ls : List Label) : Str := Str.trimEndMatches '.' (joined idna ls)

theorem tailText_ne_nil (hIdna : idna.Standard) {ls : List Label} (hNonempty : ls ≠ []) (hls : ∀ l ∈ ls, l ≠ []) :
    tailText idna ls ≠ [] := by
  cases ls with
  | nil => exact absurd rfl hNonempty
  | cons l rest =>
      obtain ⟨c, hc, hDot⟩ : ∃ c ∈ l.lowerText idna, c ≠ '.' :=
        Label.exists_ne_dot_lowerText hIdna (hls l (by simp))
      have hMem : c ∈ joined idna (l :: rest) := by
        rw [joined_cons]
        exact List.mem_append_left _ hc
      exact List.ne_nil_of_mem (Scan.mem_rdropWhile hMem (by simpa using hDot))

theorem tailText_cons (l : Label) (ls : List Label) :
    tailText idna (l :: ls) =
      Str.trimEndMatches '.' (l.lowerText idna ++ '.' :: joined idna ls) := by
  rw [tailText, joined_cons]

/-- Text in front of a name keeps the dot between them. -/
theorem trimEndMatches_append_joined (hIdna : idna.Standard) {ls : List Label} (front : Str)
    (hNonempty : ls ≠ []) (hls : ∀ l ∈ ls, l ≠ []) :
    Str.trimEndMatches '.' (front ++ '.' :: joined idna ls) = front ++ '.' :: tailText idna ls := by
  have hTail : tailText idna ls ≠ [] := tailText_ne_nil hIdna hNonempty hls
  simpa [tailText] using Str.trimEndMatches_append (front ++ ['.']) hTail

/-- A dot inside the text of the first label starts the entry. -/
def StartsInside (idna : Idna) (l : Label) (ls : List Label) (e : Str) : Prop :=
  ∃ x y, l.lowerText idna = x ++ '.' :: y ∧
    Str.trimEndMatches '.' (y ++ '.' :: joined idna ls) = e

theorem below_tailText_singleton (l : Label) {e : Str} (he : e ≠ []) :
    ('.' :: e) <:+ tailText idna [l] ↔ StartsInside idna l [] e := by
  have hCut : ∀ s : Str, Str.trimEndMatches '.' (s ++ ['.']) = Str.trimEndMatches '.' s := fun s =>
    List.rdropWhile_concat_pos _ _ _ (by simp)
  have hJoined : joined idna [] = [] := rfl
  simp only [StartsInside, tailText_cons, hJoined, hCut]
  constructor
  · rintro ⟨x, hx⟩
    have hSplit : Str.trimEndMatches '.' (l.lowerText idna) ++
        (l.lowerText idna).rtakeWhile (· == '.') = l.lowerText idna :=
      List.rdropWhile_append_rtakeWhile
    have hLast := Str.getLast?_trimEndMatches '.' (l.lowerText idna)
    rw [← hx, List.getLast?_append_of_ne_nil _ (by simp)] at hLast
    refine ⟨x, e ++ (l.lowerText idna).rtakeWhile (· == '.'), ?_, ?_⟩
    · conv_lhs => rw [← hSplit, ← hx]
      simp
    · rw [Str.trimEndMatches_append_of_all fun y hy => by simpa using List.mem_rtakeWhile_imp hy]
      refine Str.trimEndMatches_eq_self fun hDot => hLast ?_
      rw [List.getLast?_cons_of_ne_nil he, hDot]
  · rintro ⟨x, y, hText, rfl⟩
    have hKeep := Str.trimEndMatches_append (x ++ ['.']) he
    exact ⟨x, by rw [hText]; simpa using hKeep.symm⟩

theorem below_tailText_cons (hIdna : idna.Standard) {l : Label} {rest : List Label} {e : Str}
    (hRest : ∀ l ∈ rest, l ≠ []) (he : e ≠ []) :
    ('.' :: e) <:+ tailText idna (l :: rest) ↔
      (rest ≠ [] ∧ tailText idna rest = e) ∨ ('.' :: e) <:+ tailText idna rest ∨
        StartsInside idna l rest e := by
  by_cases hNil : rest = []
  · subst hNil
    rw [below_tailText_singleton l he]
    simp [tailText, joined, Str.trimEndMatches]
  · rw [tailText_cons, trimEndMatches_append_joined hIdna _ hNil hRest, Scan.sep_suffix_append_iff,
      List.suffix_cons_iff, or_assoc]
    refine or_congr ⟨fun h => ⟨hNil, (List.cons.inj h).2.symm⟩, fun h => by rw [h.2]⟩
      (or_congr_right ?_)
    simp only [StartsInside, trimEndMatches_append_joined hIdna _ hNil hRest]
    exact exists_congr fun x => exists_congr fun y => and_congr_right fun _ => eq_comm

/-- Where the dot in front of a suffix of the text can lie: between two
labels, or inside the text of one. -/
theorem below_tailText_iff (hIdna : idna.Standard) {ls : List Label} {e : Str}
    (hls : ∀ l ∈ ls, l ≠ []) (he : e ≠ []) :
    ('.' :: e) <:+ tailText idna ls ↔
      (∃ front back, ls = front ++ back ∧ front ≠ [] ∧ back ≠ [] ∧ tailText idna back = e) ∨
        ∃ front l back, ls = front ++ l :: back ∧ StartsInside idna l back e := by
  induction ls with
  | nil => simp [tailText, joined, Str.trimEndMatches]
  | cons l rest ih =>
      have hRest : ∀ l ∈ rest, l ≠ [] := fun l hl => hls l (by simp [hl])
      rw [below_tailText_cons hIdna hRest he, ih hRest]
      constructor
      · rintro (⟨hNil, hText⟩ | (⟨front, back, rfl, -, hBack, hText⟩ | ⟨front, m, back, rfl, hIn⟩) |
          hIn)
        · exact Or.inl ⟨[l], rest, rfl, by simp, hNil, hText⟩
        · exact Or.inl ⟨l :: front, back, rfl, by simp, hBack, hText⟩
        · exact Or.inr ⟨l :: front, m, back, rfl, hIn⟩
        · exact Or.inr ⟨[], l, rest, rfl, hIn⟩
      · rintro (⟨front, back, hSplit, hFront, hBack, hText⟩ | ⟨front, m, back, hSplit, hIn⟩)
        · cases front with
          | nil => exact absurd rfl hFront
          | cons a front' =>
              obtain ⟨rfl, hTail⟩ := List.cons.inj hSplit
              subst hTail
              cases front' with
              | nil => exact Or.inl ⟨hBack, hText⟩
              | cons b front'' =>
                  exact Or.inr (Or.inl (Or.inl ⟨b :: front'', back, rfl, by simp, hBack, hText⟩))
        · cases front with
          | nil =>
              obtain ⟨rfl, rfl⟩ := List.cons.inj hSplit
              exact Or.inr (Or.inr hIn)
          | cons a front' =>
              obtain ⟨rfl, hTail⟩ := List.cons.inj hSplit
              exact Or.inr (Or.inl (Or.inr ⟨front', m, back, hTail, hIn⟩))

end Name

namespace Domain

variable {idna : Idna}

/-- Host labels as they stand, each followed by its dot. -/
def plainText (ls : List Label) : Str := ls.flatMap fun l => chars l.lower ++ ['.']

theorem plainText_cons (l : Label) (ls : List Label) :
    plainText (l :: ls) = chars l.lower ++ '.' :: plainText ls := by
  simp [plainText]

theorem writeAscii_of_host {l : Label} (hl : ∀ b ∈ l, Label.isHostByte b = true)
    (hFront : l.head? ≠ some Label.hyphen) : l.writeAscii = chars l := by
  cases l with
  | nil => rfl
  | cons b rest =>
      have hFirst : Label.isSafeAscii true b = true :=
        Label.isSafeAscii_true b (hl b (by simp)) (by simpa using hFront)
      have hRest : rest.flatMap (Label.escapeByte false) = chars rest := by
        rw [chars, List.map_eq_flatMap]
        refine List.flatMap_congr fun b' hMem => Label.escapeByte_of_safe ?_
        rw [Label.isSafeAscii_false]
        exact hl b' (by simp [hMem])
      rw [Label.writeAscii, Label.escapeByte_of_safe hFirst, hRest]
      rfl

theorem host_lower {l : Label} (hl : ∀ b ∈ l, Label.isHostByte b = true) :
    ∀ b ∈ l.lower, Label.isHostByte b = true := by
  intro b hb
  obtain ⟨a, ha, rfl⟩ := List.mem_map.mp hb
  rw [Label.isHostByte_lowerByte]
  exact hl a ha

theorem head_lower {l : Label} (hFront : l.head? ≠ some Label.hyphen) :
    l.lower.head? ≠ some Label.hyphen := by
  rw [Label.lower, List.head?_map]
  intro hLower
  obtain ⟨b, hHead, hHyphen⟩ := Option.map_eq_some_iff.mp hLower
  exact hFront (by rw [hHead, Label.lowerByte_eq_hyphen b hHyphen])

/-- A host label printed as it stands, in lowercase. -/
theorem lowerText_of_plain {l : Label} (hl : ∀ b ∈ l, Label.isHostByte b = true)
    (hPlain : l.PrintedPlain idna) : l.lowerText idna = chars l.lower := by
  rw [Label.lowerText_of_not_decoded hPlain.1, writeAscii_of_host (host_lower hl) (head_lower hPlain.2)]

theorem intercalate_append_dot {ls : List Str} (hls : ls ≠ []) :
    ['.'].intercalate ls ++ ['.'] = ls.flatMap fun s => s ++ ['.'] := by
  induction ls with
  | nil => exact absurd rfl hls
  | cons s rest ih =>
      cases rest with
      | nil => simp
      | cons t tail =>
          rw [List.intercalate_cons_of_ne_nil (by simp), List.flatMap_cons, ← ih (by simp)]
          simp

theorem spelling_append_dot (d : Domain) :
    d.spelling ++ ['.'] = d.labels.flatMap fun l => chars l ++ ['.'] := by
  rw [spelling, intercalate_append_dot (by simpa using d.nonempty), List.flatMap_map]

/-- The entry and its dot are the labels of the domain as they stand. -/
theorem entry_append_dot (d : Domain) : d.entry ++ ['.'] = plainText d.labels := by
  rw [entry, intercalate_append_dot (by simpa using d.nonempty), List.flatMap_map]
  rfl

/-- Every character of the line is a dot or a host byte. -/
theorem mem_spelling {d : Domain} {c : Char} (hc : c ∈ d.spelling) :
    c = '.' ∨ ∃ b, Label.isHostByte b = true ∧ c = Label.byteChar b := by
  have hMem : c ∈ d.spelling ++ ['.'] := List.mem_append_left _ hc
  rw [spelling_append_dot] at hMem
  obtain ⟨l, hl, hText⟩ := List.mem_flatMap.mp hMem
  rcases List.mem_append.mp hText with hLabel | hDot
  · obtain ⟨b, hb, rfl⟩ := List.mem_map.mp hLabel
    exact Or.inr ⟨b, (d.label l hl).2 b hb, rfl⟩
  · exact Or.inl (List.mem_singleton.mp hDot)

theorem mem_entry_chars {d : Domain} {c : Char} (hc : c ∈ d.entry) :
    c = '.' ∨ ∃ b, Label.isHostByte b = true ∧ c = Label.byteChar b := by
  have hMem : c ∈ d.entry ++ ['.'] := List.mem_append_left _ hc
  rw [entry, intercalate_append_dot (by simpa using d.nonempty), List.flatMap_map] at hMem
  obtain ⟨l, hl, hText⟩ := List.mem_flatMap.mp hMem
  rcases List.mem_append.mp hText with hLabel | hDot
  · obtain ⟨b, hb, rfl⟩ := List.mem_map.mp hLabel
    exact Or.inr ⟨b, host_lower (d.label l hl).2 b hb, rfl⟩
  · exact Or.inl (List.mem_singleton.mp hDot)

/-- The entry ends in a host byte, never in a dot. -/
theorem getLast?_entry (d : Domain) : ∃ b, Label.isHostByte b = true ∧
    d.entry.getLast? = some (Label.byteChar b) := by
  obtain ⟨init, l, hSplit⟩ : ∃ init l, d.labels = init ++ [l] :=
    ⟨_, _, (List.dropLast_append_getLast d.nonempty).symm⟩
  obtain ⟨hl, hHost⟩ := d.label l (by simp [hSplit])
  have hLower : l.lower ≠ [] := by simpa [Label.lower] using hl
  have hEntry : d.entry = plainText init ++ chars l.lower := by
    have hDot := d.entry_append_dot
    rw [hSplit, plainText, List.flatMap_append, List.flatMap_singleton, ← List.append_assoc] at hDot
    exact List.append_cancel_right hDot
  refine ⟨l.lower.getLast hLower, host_lower hHost _ (List.getLast_mem hLower), ?_⟩
  rw [hEntry, List.getLast?_append_of_ne_nil _ (by simpa [chars] using hLower), chars,
    List.getLast?_map, List.getLast?_eq_some_getLast hLower]
  rfl

theorem entry_ne_nil (d : Domain) : d.entry ≠ [] := by
  obtain ⟨b, -, hLast⟩ := d.getLast?_entry
  rintro hNil
  simp [hNil] at hLast

theorem entry_no_final_dot (d : Domain) : d.entry.getLast? ≠ some '.' := by
  obtain ⟨b, hb, hLast⟩ := d.getLast?_entry
  rw [hLast]
  simpa using (Label.host_ne b hb).1

theorem toLower_byteChar {b : UInt8} (hb : Label.isHostByte b = true) :
    toLower (Label.byteChar b) = [Label.byteChar (Label.lowerByte b)] := by
  have hLower := Label.toLower_escapeByte false b
  rw [Label.escapeByte_of_safe (by rwa [Label.isSafeAscii_false]), Label.escapeByte_of_safe
    (by rwa [Label.isSafeAscii_false, Label.isHostByte_lowerByte])] at hLower
  simpa using hLower

theorem toLower_chars {l : Label} (hl : ∀ b ∈ l, Label.isHostByte b = true) :
    (chars l).flatMap toLower = chars l.lower := by
  rw [chars, chars, Label.lower, List.flatMap_map, List.map_map, List.map_eq_flatMap]
  exact List.flatMap_congr fun b hb => toLower_byteChar (hl b hb)

/-- Lowercasing the line gives the entry. -/
theorem toLowercase_spelling (d : Domain) : Str.toLowercase d.spelling = d.entry := by
  have hSigma : 'Σ' ∉ d.spelling := by
    intro hMem
    rcases mem_spelling hMem with hDot | ⟨b, -, hb⟩
    · revert hDot
      decide
    · have hCode := congrArg Char.toNat hb
      rw [Label.byteChar_toNat] at hCode
      have hLt := b.toNat_lt
      have hSigmaCode : 'Σ'.toNat = 931 := by decide
      omega
  rw [Str.toLowercase, Str.lowercaseFrom_of_no_sigma hSigma]
  have hDot : toLower '.' = ['.'] := by decide
  have hText : (d.spelling ++ ['.']).flatMap toLower = d.entry ++ ['.'] := by
    rw [spelling_append_dot, entry, intercalate_append_dot (by simpa using d.nonempty),
      List.flatMap_assoc, List.flatMap_map]
    refine List.flatMap_congr fun l hl => ?_
    rw [List.flatMap_append, toLower_chars (d.label l hl).2, List.flatMap_singleton, hDot]
  rw [List.flatMap_append, List.flatMap_singleton, hDot] at hText
  exact List.append_cancel_right hText

/-- The characters of a domain as the list spells it mean nothing to the
parser of lines. -/
structure HostChar (c : Char) : Prop where
  backslash : c ≠ '\\'
  space : isWhitespace c = false
  slash : c ≠ '/'
  colon : c ≠ ':'
  hash : c ≠ '#'
  star : c ≠ '*'
  newline : c ≠ '\n'
  ascii : c.toNat < 128

theorem host_char {c : Char}
    (hc : c = '.' ∨ ∃ b, Label.isHostByte b = true ∧ c = Label.byteChar b) : HostChar c := by
  rcases hc with rfl | ⟨b, hb, rfl⟩
  · constructor <;> decide
  · obtain ⟨-, hBackslash, hSpace, hSlash, hColon, hHash, hStar, hNewline⟩ := Label.host_ne b hb
    have hAscii : (Label.byteChar b).toNat < 128 := by
      rw [Label.byteChar_toNat]
      exact (Label.plain_of_host b hb).1
    exact ⟨hBackslash, hSpace, hSlash, hColon, hHash, hStar, hNewline, hAscii⟩

open Blocklist Str

theorem trimmed_of_host {s : Str}
    (hs : ∀ c ∈ s, c = '.' ∨ ∃ b, Label.isHostByte b = true ∧ c = Label.byteChar b) :
    Scan.Trimmed isWhitespace s where
  head := fun c hc => (host_char (hs c (List.mem_of_mem_head? hc))).space
  last := fun c hc => (host_char (hs c (List.mem_of_mem_getLast? hc))).space

/-- The line normalizes to the lowercased spelling. -/
theorem normalize_spelling (d : Domain) : normalize d.spelling = d.entry := by
  have hSlash : '/' ∉ d.entry := fun hMem => (host_char (mem_entry_chars hMem)).slash rfl
  have hColon : ':' ∉ d.entry := fun hMem => (host_char (mem_entry_chars hMem)).colon rfl
  have hHost : hostPart d.spelling = d.entry := by
    rw [hostPart, trim_eq_self (trimmed_of_host fun c hc => mem_spelling hc), toLowercase_spelling,
      cutScheme_of_no_colon hColon, cutFrom_of_not_mem hSlash, cutFrom_of_not_mem hColon]
  rw [Blocklist.normalize, hHost, trimEndMatches_eq_self d.entry_no_final_dot,
    trim_eq_self (trimmed_of_host fun c hc => mem_entry_chars hc)]

theorem spelling_ne_nil (d : Domain) : d.spelling ≠ [] := by
  intro hNil
  have hEntry := d.toLowercase_spelling
  rw [hNil] at hEntry
  exact d.entry_ne_nil hEntry.symm

theorem oneLine_spelling (d : Domain) : OneLine d.spelling where
  newline := fun hMem => (host_char (mem_spelling hMem)).newline rfl
  carriageReturn := fun hLast => by
    have hSpace := (host_char (mem_spelling (List.mem_of_mem_getLast? hLast))).space
    simp [isWhitespace] at hSpace
  nonempty := d.spelling_ne_nil

theorem trim_spelling (d : Domain) : trim d.spelling = d.spelling :=
  trim_eq_self (trimmed_of_host fun _ hc => mem_spelling hc)

theorem no_star_spelling (d : Domain) : ¬ wildcardPrefix <+: d.spelling := fun h =>
  (host_char (mem_spelling (h.subset (by simp [wildcardPrefix] : '*' ∈ wildcardPrefix)))).star rfl

theorem spellsExact_spelling_iff (d : Domain) (e : Str) :
    SpellsExact d.spelling e ↔ d.entry = e := by
  have hHash : ¬ ['#'] <+: d.spelling := fun h =>
    (host_char (mem_spelling (h.subset (by simp)))).hash rfl
  have hSome : d.entry = e → e ≠ [] := fun hEq => hEq ▸ d.entry_ne_nil
  simp only [SpellsExact, trim_spelling, d.normalize_spelling]
  exact ⟨fun hSpells => hSpells.2.2.2.1,
    fun hEq => ⟨d.spelling_ne_nil, hHash, d.no_star_spelling, hEq, hSome hEq⟩⟩

def lowered (d : Domain) : Domain where
  labels := d.labels.map Label.lower
  nonempty := by simpa using d.nonempty
  label := fun l hl => by
    obtain ⟨l', hl', rfl⟩ := List.mem_map.mp hl
    obtain ⟨hNonempty, hHost⟩ := d.label l' hl'
    refine ⟨by simpa [Label.lower] using hNonempty, fun b hb => ?_⟩
    obtain ⟨b', hb', rfl⟩ := List.mem_map.mp hb
    rw [Label.isHostByte_lowerByte]
    exact hHost b' hb'

/-- The entry of a domain is itself the spelling of a domain with that entry. -/
theorem spelling_lowered (d : Domain) : d.lowered.spelling = d.entry ∧ d.lowered.entry = d.entry := by
  have hTwice : ∀ l : Label, l.lower.lower = l.lower := fun l => by
    simp [Label.lower, Function.comp_def, Label.lowerByte_lowerByte]
  constructor
  · simp [spelling, entry, lowered, Function.comp_def]
  · simp [entry, lowered, Function.comp_def, hTwice]

/-- The plain line blocks the entry and everything below it. -/
theorem isBlocked_spelling_iff (d : Domain) (name : Str) :
    (fromText d.spelling).isBlocked name = true ↔ AtOrBelow d.entry name := by
  have hWildcard : ∀ w, ¬ SpellsWildcard d.spelling w := by
    rintro w ⟨rest, hLine, -⟩
    exact d.no_star_spelling ⟨rest, by rw [← hLine, trim_spelling]⟩
  simp only [isBlocked_iff, mem_fromText_exact, mem_fromText_wildcard,
    lines_last d.oneLine_spelling, List.mem_singleton, exists_eq_left, hWildcard, false_and,
    exists_false, or_false, spellsExact_spelling_iff, exists_eq_left']

/-- The wildcard line blocks what lies strictly below the entry. -/
theorem isBlocked_wildcard_iff (d : Domain) (name : Str) :
    (fromText (wildcardPrefix ++ d.spelling)).isBlocked name = true ↔
      ('.' :: d.entry) <:+ name := by
  have hTrim : trim (wildcardPrefix ++ d.spelling) = wildcardPrefix ++ d.spelling :=
    trim_eq_self (trimmed_wildcard d.spelling_ne_nil
      (trimmed_of_host fun _ hc => mem_spelling hc))
  have hExact : ∀ e, ¬ SpellsExact (wildcardPrefix ++ d.spelling) e := by
    simp [SpellsExact, hTrim]
  have hWildcard : ∀ w, SpellsWildcard (wildcardPrefix ++ d.spelling) w ↔ d.entry = w ∧ w ≠ [] := by
    simp [SpellsWildcard, hTrim, d.normalize_spelling]
  simp only [isBlocked_iff, mem_fromText_exact, mem_fromText_wildcard,
    lines_last (oneLine_wildcard d.oneLine_spelling), List.mem_singleton, exists_eq_left, hExact,
    false_and, exists_false, false_or, hWildcard]
  simp [d.entry_ne_nil]

theorem joined_of_plain {ls : List Label}
    (hls : ∀ l ∈ ls, l.PrintedPlain idna ∧ ∀ b ∈ l, Label.isHostByte b = true) :
    Name.joined idna ls = plainText ls :=
  List.flatMap_congr fun l hl => by rw [lowerText_of_plain (hls l hl).2 (hls l hl).1]

/-- The labels can be read off their text. -/
theorem plainText_injective {ls ls' : List Label}
    (hls : ∀ l ∈ ls, ∀ b ∈ l, Label.isHostByte b = true)
    (hls' : ∀ l ∈ ls', ∀ b ∈ l, Label.isHostByte b = true) (hEq : plainText ls = plainText ls') :
    ls.map Label.lower = ls'.map Label.lower := by
  have hDot : ∀ {l : Label}, (∀ b ∈ l, Label.isHostByte b = true) → '.' ∉ chars l.lower := by
    intro l hl hMem
    obtain ⟨b, hb, hEq⟩ := List.mem_map.mp hMem
    exact (Label.host_ne b (host_lower hl b hb)).1 hEq
  induction ls generalizing ls' with
  | nil =>
      cases ls' with
      | nil => rfl
      | cons l' rest' => simp [plainText] at hEq
  | cons l rest ih =>
      cases ls' with
      | nil => simp [plainText] at hEq
      | cons l' rest' =>
          rw [plainText_cons, plainText_cons] at hEq
          obtain ⟨hLabel, hRest⟩ := Scan.append_sep_inj (hDot (hls l (by simp)))
            (hDot (hls' l' (by simp))) hEq
          have hLower : l.lower = l'.lower :=
            List.map_injective_iff.mpr (fun _ _ => Label.byteChar_injective) hLabel
          rw [List.map_cons, List.map_cons, hLower,
            ih (fun m hm => hls m (by simp [hm])) (fun m hm => hls' m (by simp [hm])) hRest]

theorem plainText_congr {ls ls' : List Label} (h : ls.map Label.lower = ls'.map Label.lower) :
    plainText ls = plainText ls' := by
  have hLower : ∀ ls : List Label, plainText ls =
      (ls.map Label.lower).flatMap fun l => chars l ++ ['.'] := fun ls => by
    rw [plainText, List.flatMap_map]
  rw [hLower, hLower, h]

theorem trim_plainText (d : Domain) : trimEndMatches '.' (plainText d.labels) = d.entry := by
  rw [← entry_append_dot, trimEndMatches_append_of_all (by simp),
    trimEndMatches_eq_self d.entry_no_final_dot]

theorem isPlain_of_host {l : Label} (hl : ∀ b ∈ l, Label.isHostByte b = true) : l.IsPlain :=
  fun b hb => Label.plain_of_host b (hl b hb)

theorem host_of_lower_mem {d : Domain} {l : Label} (hl : l.lower ∈ d.labels.map Label.lower) :
    ∀ b ∈ l, Label.isHostByte b = true := by
  obtain ⟨m, hm, hEq⟩ := List.mem_map.mp hl
  intro b hb
  have hLower : Label.lowerByte b ∈ m.lower := hEq ▸ List.mem_map_of_mem hb
  rw [← Label.isHostByte_lowerByte]
  exact host_lower (d.label m hm).2 _ hLower

/-- Labels whose text spells the domain are printed as they are. -/
theorem host_of_tailText_subset (hIdna : idna.Standard) {d : Domain} {ls : List Label}
    (hText : Name.tailText idna ls ⊆ d.entry) :
    ∀ l ∈ ls, l.PrintedPlain idna ∧ ∀ b ∈ l, Label.isHostByte b = true := by
  intro l hl
  have hKept : ∀ c ∈ l.lowerText idna, c ≠ '.' → c ∈ d.entry := by
    intro c hc hDot
    have hMem : c ∈ Name.joined idna ls :=
      List.mem_flatMap.mpr ⟨l, hl, List.mem_append_left _ hc⟩
    exact hText (Scan.mem_rdropWhile hMem (by simpa using hDot))
  have hNone : l.decoded idna = none := by
    cases h : l.decoded idna with
    | none => rfl
    | some u =>
        obtain ⟨c, hc, hUnicode⟩ := Label.exists_unicode_lowerText hIdna h
        have hDot : c ≠ '.' := by
          rintro rfl
          revert hUnicode
          decide
        have hAscii := (host_char (mem_entry_chars (hKept c hc hDot))).ascii
        omega
  rw [Label.lowerText_of_not_decoded hNone] at hKept
  obtain ⟨hHost, hFront⟩ := Label.host_of_writeAscii
    (fun hMem => (host_char (mem_entry_chars (hKept _ hMem (by decide)))).backslash rfl)
    fun hMem => (host_char (mem_entry_chars (hKept _ hMem (by decide)))).star rfl
  refine ⟨⟨hNone, fun hHyphen => hFront ?_⟩, fun b hb => ?_⟩
  · rw [Label.lower, List.head?_map, hHyphen]
    rfl
  · rw [← Label.isHostByte_lowerByte]
    exact hHost _ (List.mem_map_of_mem hb)

/-- The text of labels spells the domain exactly when the labels are those of
the domain up to case and each of them is printed as it stands. -/
theorem tailText_eq_entry_iff (hIdna : idna.Standard) {d : Domain} {ls : List Label}
    (hls : ∀ l ∈ ls, l ≠ []) :
    Name.tailText idna ls = d.entry ↔
      ls.map Label.lower = d.labels.map Label.lower ∧ ∀ l ∈ ls, l.PrintedPlain idna := by
  constructor
  · intro hEq
    have hHost := host_of_tailText_subset hIdna fun c hc => (hEq ▸ hc : c ∈ d.entry)
    refine ⟨?_, fun l hl => (hHost l hl).1⟩
    have hNonempty : ls ≠ [] := by
      rintro rfl
      exact d.entry_ne_nil hEq.symm
    -- the labels form a domain of their own, with the same entry
    let other : Domain := ⟨ls, hNonempty, fun l hl => ⟨hls l hl, (hHost l hl).2⟩⟩
    have hEntry : other.entry = d.entry := by
      rw [← other.trim_plainText, ← hEq, Name.tailText, joined_of_plain hHost]
    refine plainText_injective (fun l hl => (hHost l hl).2) (fun l hl => (d.label l hl).2) ?_
    rw [← d.entry_append_dot, ← hEntry, other.entry_append_dot]
  · rintro ⟨hLabels, hPlain⟩
    have hHost : ∀ l ∈ ls, l.PrintedPlain idna ∧ ∀ b ∈ l, Label.isHostByte b = true := fun l hl =>
      ⟨hPlain l hl, host_of_lower_mem (hLabels ▸ List.mem_map_of_mem hl)⟩
    rw [Name.tailText, joined_of_plain hHost, plainText_congr hLabels]
    exact d.trim_plainText

end Domain

end RustDns
