import RustDns.Blocklist.Labels

/-! When a line of the list and the labels of a name agree. -/
namespace RustDns

namespace Domain

open Blocklist

variable {idna : Idna}

theorem covers_iff_drop (d : Domain) (n : Name) :
    d.Covers n ↔
      (n.labels.drop (n.labels.length - d.labels.length)).map Label.lower =
        d.labels.map Label.lower := by
  rw [Covers, List.suffix_iff_eq_drop, List.length_map, List.length_map, List.map_drop, eq_comm]

theorem length_of_tailText_eq (hIdna : idna.Standard) {d : Domain} {ls : List Label}
    (hls : ∀ l ∈ ls, l ≠ []) (hEq : Name.tailText idna ls = d.entry) :
    ls.length = d.labels.length := by
  simpa using congrArg List.length ((tailText_eq_entry_iff hIdna hls).mp hEq).1

/-- The last labels of a name spell the domain exactly when the domain covers
the name and they are all printed as they stand. -/
theorem exists_tailText_eq_entry_iff (hIdna : idna.Standard) (d : Domain) (n : Name) :
    (∃ front back, n.labels = front ++ back ∧ Name.tailText idna back = d.entry) ↔
      d.Covers n ∧ ¬ d.PrintedOtherwise idna n := by
  rw [covers_iff_drop, PrintedOtherwise]
  constructor
  · rintro ⟨front, back, hSplit, hText⟩
    have hBack : ∀ l ∈ back, l ≠ [] := fun l hl => n.nonempty l (by simp [hSplit, hl])
    obtain ⟨hLabels, hPlain⟩ := (tailText_eq_entry_iff hIdna hBack).mp hText
    have hLength := length_of_tailText_eq hIdna hBack hText
    have hDrop : n.labels.drop (n.labels.length - d.labels.length) = back := by
      rw [hSplit, ← hLength, List.length_append, Nat.add_sub_cancel, List.drop_left]
    rw [hDrop]
    refine ⟨hLabels, ?_⟩
    rintro ⟨l, hl, hSome | hHyphen⟩
    · simp [(hPlain l hl).1] at hSome
    · exact (hPlain l hl).2 hHyphen
  · rintro ⟨hLabels, hNone⟩
    refine ⟨_, _, (List.take_append_drop (n.labels.length - d.labels.length) n.labels).symm, ?_⟩
    refine (tailText_eq_entry_iff hIdna fun l hl => n.nonempty l (List.mem_of_mem_drop hl)).mpr
      ⟨hLabels, fun l hl => ⟨?_, fun hHyphen => hNone ⟨l, hl, Or.inr hHyphen⟩⟩⟩
    by_contra hSome
    exact hNone ⟨l, hl, Or.inl (Option.isSome_iff_ne_none.mpr hSome)⟩

/-- What is printed for a host label has no dot in it. -/
theorem dot_not_mem_lowerText_of_host (hIdna : idna.Standard) {l : Label}
    (hl : ∀ b ∈ l, Label.isHostByte b = true) : '.' ∉ l.lowerText idna := by
  cases h : l.decoded idna with
  | none =>
      rw [Label.lowerText_of_not_decoded h]
      intro hMem
      have hDot := host_lower hl _ (Label.dot_of_mem_writeAscii hMem)
      exact absurd hDot (by decide)
  | some u => exact Label.dot_not_mem_lowerText hIdna (fun _ => isPlain_of_host hl) h

/-- The text that starts inside a label is longer than the labels behind it,
so these cannot spell the domain as well. -/
theorem not_suffix_of_startsInside (hIdna : idna.Standard) {d : Domain} {l : Label}
    {back : List Label} (hBack : ∀ l ∈ back, l ≠ []) (hIn : Name.StartsInside idna l back d.entry) :
    ¬ d.labels.map Label.lower <:+ back.map Label.lower := by
  rintro hSuffix
  have hNil : back ≠ [] := by
    rintro rfl
    exact d.nonempty (by simpa using hSuffix)
  obtain ⟨x, y, -, hEntry⟩ := hIn
  rw [Name.trimEndMatches_append_joined hIdna y hNil hBack] at hEntry
  have hSubset : Name.tailText idna back ⊆ d.entry := fun c hc => by simp [← hEntry, hc]
  have hPlain := fun l hl => (host_of_tailText_subset hIdna hSubset l hl).1
  let inner : Name := ⟨back, hBack⟩
  obtain ⟨front, last, hSplit, hText⟩ := (exists_tailText_eq_entry_iff hIdna d inner).mpr
    ⟨hSuffix, by
      rintro ⟨m, hm, hSome | hHyphen⟩
      · simp [(hPlain m (List.mem_of_mem_drop hm)).1] at hSome
      · exact (hPlain m (List.mem_of_mem_drop hm)).2 hHyphen⟩
  have hLonger : (Name.tailText idna last).length ≤ (Name.tailText idna back).length := by
    change back = front ++ last at hSplit
    rw [Name.tailText, Name.tailText, hSplit, Name.joined, Name.joined, List.flatMap_append]
    rw [← Name.joined, ← Name.joined]
    have hKeep := Str.trimEndMatches_append (Name.joined idna front)
      (fun hNone => d.entry_ne_nil (hText.symm.trans hNone))
    rw [hKeep]
    simp
  have hLength := congrArg List.length hEntry
  simp only [List.length_append, List.length_cons] at hLength
  rw [hText] at hLonger
  omega

/-- A name that spells the domain from inside a label is not below it. -/
theorem not_covers_of_spelledInside (hIdna : idna.Standard) {d : Domain} {n : Name}
    (hIn : d.SpelledInside idna n) : ¬ d.Covers n := by
  obtain ⟨front, l, back, x, y, hSplit, hText, hEntry⟩ := hIn
  intro hCovers
  have hHost : l.lower ∉ d.labels.map Label.lower := by
    intro hMem
    have hDot : '.' ∉ l.lowerText idna := dot_not_mem_lowerText_of_host hIdna (host_of_lower_mem hMem)
    simp [hText] at hDot
  have hTail : (l :: back).map Label.lower <:+ n.labels.map Label.lower :=
    ⟨front.map Label.lower, by simp [hSplit]⟩
  rcases List.suffix_or_suffix_of_suffix hCovers hTail with hShort | hLong
  · rw [List.map_cons, List.suffix_cons_iff] at hShort
    rcases hShort with hEq | hBack
    · exact hHost (by simp [hEq])
    · exact not_suffix_of_startsInside hIdna (fun m hm => n.nonempty m (by simp [hSplit, hm]))
        ⟨x, y, hText, hEntry⟩ hBack
  · exact hHost (hLong.subset (by simp))

theorem spelledInside_iff (d : Domain) (n : Name) :
    d.SpelledInside idna n ↔
      ∃ front l back, n.labels = front ++ l :: back ∧ Name.StartsInside idna l back d.entry := by
  simp only [SpelledInside, Name.StartsInside]
  constructor
  · rintro ⟨front, l, back, x, y, hSplit, hText⟩
    exact ⟨front, l, back, hSplit, x, y, hText⟩
  · rintro ⟨front, l, back, hSplit, x, y, hText⟩
    exact ⟨front, l, back, x, y, hSplit, hText⟩

/-- The names strictly below the domain, as the list sees them. -/
theorem below_canonical_iff (hIdna : idna.Standard) (d : Domain) (n : Name) :
    ('.' :: d.entry) <:+ n.canonical idna ↔
      (d.StrictlyCovers n ∧ ¬ d.PrintedOtherwise idna n) ∨ d.SpelledInside idna n := by
  have hText : n.canonical idna = Name.tailText idna n.labels := Name.canonical_eq hIdna n
  rw [hText, Name.below_tailText_iff hIdna n.nonempty d.entry_ne_nil, ← spelledInside_iff]
  apply or_congr_left
  rw [StrictlyCovers, and_right_comm, ← exists_tailText_eq_entry_iff hIdna]
  constructor
  · rintro ⟨front, back, hSplit, hFront, -, hEntry⟩
    refine ⟨⟨front, back, hSplit, hEntry⟩, ?_⟩
    have hLength := length_of_tailText_eq hIdna (fun l hl => n.nonempty l (by simp [hSplit, hl])) hEntry
    have hPos := List.length_pos_iff.mpr hFront
    rw [hSplit, List.length_append]
    omega
  · rintro ⟨⟨front, back, hSplit, hEntry⟩, hLonger⟩
    have hLength := length_of_tailText_eq hIdna (fun l hl => n.nonempty l (by simp [hSplit, hl])) hEntry
    refine ⟨front, back, hSplit, ?_, ?_, hEntry⟩
    · rintro rfl
      rw [hSplit, List.nil_append] at hLonger
      omega
    · rintro rfl
      exact d.nonempty (by simpa using hLength.symm)

/-- The names at or below the domain, as the list sees them. -/
theorem atOrBelow_canonical_iff (hIdna : idna.Standard) (d : Domain) (n : Name) :
    AtOrBelow d.entry (n.canonical idna) ↔
      (d.Covers n ∧ ¬ d.PrintedOtherwise idna n) ∨ d.SpelledInside idna n := by
  rw [AtOrBelow, below_canonical_iff hIdna, ← or_assoc]
  apply or_congr_left
  have hText : n.canonical idna = Name.tailText idna n.labels := Name.canonical_eq hIdna n
  constructor
  · rintro (hEq | ⟨⟨hCovers, -⟩, hNone⟩)
    · exact (exists_tailText_eq_entry_iff hIdna d n).mp ⟨[], n.labels, rfl, hText.symm.trans hEq⟩
    · exact ⟨hCovers, hNone⟩
  · rintro ⟨hCovers, hNone⟩
    rcases Nat.lt_or_ge d.labels.length n.labels.length with hLonger | hShort
    · exact Or.inr ⟨⟨hCovers, hLonger⟩, hNone⟩
    · obtain ⟨front, back, hSplit, hEntry⟩ := (exists_tailText_eq_entry_iff hIdna d n).mpr ⟨hCovers, hNone⟩
      have hLength := length_of_tailText_eq hIdna (fun l hl => n.nonempty l (by simp [hSplit, hl])) hEntry
      have hFront : front = [] := by
        rw [hSplit, List.length_append] at hShort
        exact List.length_eq_zero_iff.mp (by omega)
      subst hFront
      exact Or.inl (by rw [hText, hSplit, List.nil_append, hEntry])

/-- A line and the labels of a name agree exactly when no label compared with
the domain is printed in Unicode or with an escaped hyphen in front and the
domain is not spelled from inside a label; likewise for a wildcard line. -/
theorem isBlocked_agrees_iff (hIdna : idna.Standard) (d : Domain) (n : Name) :
    (((fromText d.spelling).isBlocked (n.canonical idna) = true ↔ d.Covers n) ↔
      ¬ (d.Covers n ∧ d.PrintedOtherwise idna n) ∧ ¬ d.SpelledInside idna n) ∧
    (((fromText (wildcardPrefix ++ d.spelling)).isBlocked (n.canonical idna) = true ↔
        d.StrictlyCovers n) ↔
      ¬ (d.StrictlyCovers n ∧ d.PrintedOtherwise idna n) ∧ ¬ d.SpelledInside idna n) := by
  have hNot : d.SpelledInside idna n → ¬ d.Covers n := not_covers_of_spelledInside hIdna
  have hStrict : d.StrictlyCovers n → d.Covers n := And.left
  rw [isBlocked_spelling_iff, isBlocked_wildcard_iff, atOrBelow_canonical_iff hIdna,
    below_canonical_iff hIdna]
  constructor <;> tauto

end Domain

/-- `xn--bcher-kva`, the one label the decoder below knows. -/
def bucherLabel : Label := [120, 110, 45, 45, 98, 99, 104, 101, 114, 45, 107, 118, 97]

/-- A decoder that knows the label of `bücher`. -/
def Idna.bucher : Idna where
  toUnicode l := if l = bucherLabel then some ['b', 'ü', 'c', 'h', 'e', 'r'] else none

theorem Idna.standard_bucher : Idna.bucher.Standard := by
  have hKnown : ∀ {l : Label} {u : Str}, Idna.bucher.toUnicode l = some u →
      l = bucherLabel ∧ u = ['b', 'ü', 'c', 'h', 'e', 'r'] := by
    intro l u hDecoded
    dsimp only [bucher] at hDecoded
    split at hDecoded
    · exact ⟨‹_›, (Option.some.inj hDecoded).symm⟩
    · simp at hDecoded
  constructor
  · rintro l u - hDecoded
    obtain ⟨-, rfl⟩ := hKnown hDecoded
    exact ⟨'ü', by decide⟩
  · rintro l u - hDecoded
    obtain ⟨-, rfl⟩ := hKnown hDecoded
    decide
  · rintro l u - - hDecoded
    obtain ⟨-, rfl⟩ := hKnown hDecoded
    decide
  · rintro l l' u u' - - - - hDecoded hDecoded' -
    rw [(hKnown hDecoded).1, (hKnown hDecoded').1]

def exampleLabel : Label := [101, 120, 97, 109, 112, 108, 101]

/-- `xn--bcher-kva.example` as a domain of the list. -/
def Domain.bucher : Domain where
  labels := [bucherLabel, exampleLabel]
  nonempty := by decide
  label := by
    simp [bucherLabel, exampleLabel, Label.isHostByte, Label.isAlphanumeric, Label.hyphen]

def Name.bucher : Name := ⟨Domain.bucher.labels, fun l hl => (Domain.bucher.label l hl).1⟩

/-- The line `example` blocks what is below it, and nothing of the name is
spelled inside a label. -/
theorem Domain.isBlocked_agrees_example :
    ∃ d : Domain, d.labels = [exampleLabel] ∧
      (Blocklist.fromText d.spelling).isBlocked (Name.bucher.canonical Idna.bucher) = true ∧
      d.Covers Name.bucher ∧ ¬ d.PrintedOtherwise Idna.bucher Name.bucher ∧
      ¬ d.SpelledInside Idna.bucher Name.bucher := by
  let d : Domain := ⟨[exampleLabel], by decide, by
    simp [exampleLabel, Label.isHostByte, Label.isAlphanumeric, Label.hyphen]⟩
  have hCovers : d.Covers Name.bucher := by
    unfold Covers
    decide
  have hBlocked : (Blocklist.fromText d.spelling).isBlocked (Name.bucher.canonical Idna.bucher) = true := by
    rw [isBlocked_spelling_iff, Blocklist.AtOrBelow]
    decide +kernel
  obtain ⟨hPrinted, hInside⟩ :=
    (isBlocked_agrees_iff Idna.standard_bucher d Name.bucher).1.mp (iff_of_true hBlocked hCovers)
  exact ⟨d, rfl, hBlocked, hCovers, fun hOther => hPrinted ⟨hCovers, hOther⟩, hInside⟩

/-- A name with exactly the labels of the line is let through. -/
theorem Domain.bucher_not_blocked :
    ¬ ((Blocklist.fromText Domain.bucher.spelling).isBlocked (Name.bucher.canonical Idna.bucher) =
      true ↔ Domain.bucher.Covers Name.bucher) := by
  intro hAgree
  have hBlocked := hAgree.mpr List.suffix_rfl
  rw [Domain.isBlocked_spelling_iff, Blocklist.AtOrBelow] at hBlocked
  revert hBlocked
  decide +kernel

end RustDns
