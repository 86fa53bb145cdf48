import RustDns.Dns.Name

/-! The name a request is looked up under determines its labels up to case,
for every name whose text form can be read back. -/
namespace RustDns

open Unicode

namespace Label

variable {idna : Idna}

/-- A decoded label has the prefix, and the decoder knows it. -/
theorem toUnicode_of_decoded {l : Label} {u : Str} (h : l.decoded idna = some u) :
    idnaPrefix <+: l ∧ idna.toUnicode l = some u := by
  unfold decoded at h
  split at h
  case isTrue hPrefix => exact ⟨List.isPrefixOf_iff_prefix.mp hPrefix, h⟩
  case isFalse => simp at h

theorem sigma_not_mem_text (hIdna : idna.Standard) (l : Label) : 'Σ' ∉ l.text idna := by
  unfold text
  cases hDecoded : l.decoded idna with
  | some u =>
      obtain ⟨hPrefix, hUnicode⟩ := toUnicode_of_decoded hDecoded
      exact hIdna.sigma l u hPrefix hUnicode
  | none =>
      intro hMem
      have hAscii := ascii_of_mem_writeAscii hMem
      revert hAscii
      decide

theorem lowerText_of_not_decoded {l : Label} (h : l.decoded idna = none) :
    l.lowerText idna = l.lower.writeAscii := by
  rw [lowerText, text, h, Option.getD_none, toLower_writeAscii]

theorem lowerText_of_decoded {l : Label} {u : Str} (h : l.decoded idna = some u) :
    l.lowerText idna = u.flatMap toLower := by
  rw [lowerText, text, h, Option.getD_some]

/-- A decoded label keeps a character outside ASCII when it is lowercased. -/
theorem exists_unicode_lowerText (hIdna : idna.Standard) {l : Label} {u : Str}
    (h : l.decoded idna = some u) : ∃ c ∈ l.lowerText idna, 128 ≤ c.toNat := by
  obtain ⟨hPrefix, hUnicode⟩ := toUnicode_of_decoded h
  obtain ⟨c, hc, hAscii, hKelvin⟩ := hIdna.unicode l u hPrefix hUnicode
  obtain ⟨x, hx, hOutside⟩ := exists_unicode_toLower hAscii hKelvin
  rw [lowerText_of_decoded h]
  exact ⟨x, List.mem_flatMap.mpr ⟨c, hc, hx⟩, hOutside⟩

theorem ascii_of_not_decoded {l : Label} (h : l.decoded idna = none) :
    ∀ c ∈ l.lowerText idna, c.toNat < 128 := by
  rw [lowerText_of_not_decoded h]
  exact fun c hc => ascii_of_mem_writeAscii hc

/-- A label whose text form is one piece: a label with the IDNA prefix and a
dot byte or a byte outside ASCII inside could be printed like several labels. -/
def OnePiece (l : Label) : Prop := idnaPrefix <+: l → l.IsPlain

theorem dot_not_mem_lowerText (hIdna : idna.Standard) {l : Label} {u : Str} (hl : l.OnePiece)
    (h : l.decoded idna = some u) : '.' ∉ l.lowerText idna := by
  obtain ⟨hPrefix, hUnicode⟩ := toUnicode_of_decoded h
  rw [lowerText_of_decoded h]
  intro hMem
  obtain ⟨c, hc, hDot⟩ := List.mem_flatMap.mp hMem
  obtain rfl := Str.toLower_of_isPlain (by decide) hDot
  exact hIdna.dotFree l u hPrefix (hl hPrefix) hUnicode hc

/-- The text of a decoded label never starts the text of an escaped one. -/
theorem decoded_append_ne (hIdna : idna.Standard) {l l' : Label} {u s t : Str}
    (hl : l.OnePiece) (h : l.decoded idna = some u) (h' : l'.decoded idna = none) :
    l.lowerText idna ++ '.' :: s ≠ l'.lowerText idna ++ '.' :: t := by
  intro hEq
  have hPrefix := Scan.prefix_of_append_sep_eq (dot_not_mem_lowerText hIdna hl h) hEq
  obtain ⟨c, hc, hUnicode⟩ := exists_unicode_lowerText hIdna h
  have hAscii := ascii_of_not_decoded h' c (hPrefix.subset hc)
  omega

/-- Reading the text of a name, the first label is determined up to case. -/
theorem lowerText_append_inj (hIdna : idna.Standard) {l l' : Label} {s t : Str}
    (hl : l.OnePiece) (hl' : l'.OnePiece)
    (hEq : l.lowerText idna ++ '.' :: s = l'.lowerText idna ++ '.' :: t) :
    l.lower = l'.lower ∧ s = t := by
  cases h : l.decoded idna with
  | none =>
      cases h' : l'.decoded idna with
      | none =>
          rw [lowerText_of_not_decoded h, lowerText_of_not_decoded h'] at hEq
          exact writeAscii_append_inj hEq
      | some u => exact absurd hEq.symm (decoded_append_ne hIdna hl' h' h)
  | some u =>
      cases h' : l'.decoded idna with
      | none => exact absurd hEq (decoded_append_ne hIdna hl h h')
      | some u' =>
          obtain ⟨hText, hRest⟩ := Scan.append_sep_inj
            (dot_not_mem_lowerText hIdna hl h) (dot_not_mem_lowerText hIdna hl' h') hEq
          obtain ⟨hPrefix, hUnicode⟩ := toUnicode_of_decoded h
          obtain ⟨hPrefix', hUnicode'⟩ := toUnicode_of_decoded h'
          rw [lowerText_of_decoded h, lowerText_of_decoded h'] at hText
          exact ⟨hIdna.injective l l' u u' hPrefix hPrefix' (hl hPrefix) (hl' hPrefix') hUnicode
            hUnicode' hText, hRest⟩

/-- An escaped label starts with a backslash or a host character. -/
theorem head_lowerText_of_not_decoded {l : Label} (hNonempty : l ≠ [])
    (h : l.decoded idna = none) : ∃ c rest, l.lowerText idna = c :: rest ∧ c ≠ '.' := by
  rw [lowerText_of_not_decoded h]
  cases l with
  | nil => exact absurd rfl hNonempty
  | cons b tail =>
      obtain ⟨c, rest, hHead, hc⟩ := head_escapeByte true (lowerByte b)
      refine ⟨c, rest ++ (lower tail).flatMap (escapeByte false), ?_, hc⟩
      rw [lower, List.map_cons, writeAscii, hHead]
      rfl

theorem head_lowerText (hIdna : idna.Standard) {l : Label} (hNonempty : l ≠ []) (hl : l.OnePiece) :
    ∃ c rest, l.lowerText idna = c :: rest ∧ c ≠ '.' := by
  cases h : l.decoded idna with
  | none => exact head_lowerText_of_not_decoded hNonempty h
  | some u =>
      have hDot := dot_not_mem_lowerText hIdna hl h
      obtain ⟨x, hx, -⟩ := exists_unicode_lowerText hIdna h
      cases hText : l.lowerText idna with
      | nil => simp [hText] at hx
      | cons c rest =>
          refine ⟨c, rest, rfl, ?_⟩
          rintro rfl
          simp [hText] at hDot

end Label

namespace Name

variable {idna : Idna}

/-- The lowercased text of a list of labels, each followed by its dot. -/
def joined (idna : Idna) (ls : List Label) : Str := ls.flatMap fun l => l.lowerText idna ++ ['.']

theorem joined_cons (l : Label) (ls : List Label) :
    joined idna (l :: ls) = l.lowerText idna ++ '.' :: joined idna ls := by
  simp [joined]

/-- Lowercasing and cutting the trailing dots commute. -/
theorem canonical_eq (hIdna : idna.Standard) (n : Name) :
    n.canonical idna = Str.trimEndMatches '.' (joined idna n.labels) := by
  have hSigma : 'Σ' ∉ Str.trimEndMatches '.' (n.toString idna) := by
    intro hMem
    have hText := Scan.mem_of_mem_rdropWhile hMem
    unfold toString at hText
    split at hText
    · revert hText
      decide
    · obtain ⟨l, -, hl⟩ := List.mem_flatMap.mp hText
      rcases List.mem_append.mp hl with hLabel | hDot
      · exact l.sigma_not_mem_text hIdna hLabel
      · revert hDot
        decide
  rw [canonical, Str.toLowercase, Str.lowercaseFrom_of_no_sigma hSigma,
    ← Str.trimEndMatches_flatMap_toLower]
  unfold toString
  split
  case isTrue hRoot =>
    have hLower : ['.'].flatMap toLower = ['.'] := by decide
    rw [hRoot, hLower]
    rfl
  case isFalse =>
    have hDot : toLower '.' = ['.'] := by decide
    simp [joined, Label.lowerText, List.flatMap_assoc, hDot]

/-- Extra dots behind the text of a name give no text of another name. -/
theorem joined_append_inj (hIdna : idna.Standard) {ls ls' : List Label} {n : Nat}
    (hls : ∀ l ∈ ls, l.OnePiece) (hls' : ∀ l ∈ ls', l ≠ [] ∧ l.OnePiece)
    (hEq : joined idna ls ++ List.replicate n '.' = joined idna ls') :
    ls.map Label.lower = ls'.map Label.lower ∧ n = 0 := by
  induction ls generalizing ls' with
  | nil =>
      cases ls' with
      | nil =>
          have hLength := congrArg List.length hEq
          simp [joined] at hLength
          exact ⟨rfl, hLength⟩
      | cons l' rest =>
          obtain ⟨hNonempty, hPiece⟩ := hls' l' (by simp)
          obtain ⟨c, tail, hHead, hc⟩ : ∃ c tail, l'.lowerText idna = c :: tail ∧ c ≠ '.' :=
            Label.head_lowerText hIdna hNonempty hPiece
          rw [joined_cons, hHead] at hEq
          cases n with
          | zero => simp [joined] at hEq
          | succ n =>
              rw [List.replicate_succ] at hEq
              exact absurd (List.cons.inj hEq).1.symm hc
  | cons l rest ih =>
      cases ls' with
      | nil => simp [joined] at hEq
      | cons l' rest' =>
          rw [joined_cons, joined_cons, List.append_assoc, List.cons_append] at hEq
          obtain ⟨hLabel, hRest⟩ := Label.lowerText_append_inj hIdna (hls l (by simp))
            (hls' l' (by simp)).2 hEq
          obtain ⟨hLabels, hn⟩ := ih (fun l hl => hls l (by simp [hl]))
            (fun l hl => hls' l (by simp [hl])) hRest
          exact ⟨by rw [List.map_cons, List.map_cons, hLabel, hLabels], hn⟩

/-- A name whose every label is printed as one piece. -/
def OnePiece (n : Name) : Prop := ∀ l ∈ n.labels, l.OnePiece

/-- Two names looked up under the same text have the same labels, ignoring
letter case. -/
theorem canonical_injective (hIdna : idna.Standard) {first second : Name}
    (hFirst : first.OnePiece) (hSecond : second.OnePiece) (hEq : first.canonical idna = second.canonical idna) :
    first.labels.map Label.lower = second.labels.map Label.lower := by
  rw [canonical_eq hIdna, canonical_eq hIdna] at hEq
  obtain ⟨n, hMore | hMore⟩ := Scan.rdropWhile_eq_cases hEq
  · exact (joined_append_inj hIdna hFirst (fun l hl => ⟨second.nonempty l hl, hSecond l hl⟩)
      hMore.symm).1
  · exact (joined_append_inj hIdna hSecond (fun l hl => ⟨first.nonempty l hl, hFirst l hl⟩)
      hMore.symm).1.symm

end Name

end RustDns
