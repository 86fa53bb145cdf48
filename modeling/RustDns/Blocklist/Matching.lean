import RustDns.Blocklist.Basic

/-! What a list blocks. The two loops over the suffixes of a name decide a
suffix relation at dot boundaries, for every text and every name. -/
namespace RustDns.Blocklist

open Str

/-- The name is the entry itself or one of its subdomains. -/
def AtOrBelow (e name : Str) : Prop := name = e ∨ ('.' :: e) <:+ name

/-- What one line of a text blocks, read off the entry it spells. -/
def LineBlocks (rawLine name : Str) : Prop :=
  let line := trim rawLine
  line ≠ [] ∧ ¬ ['#'] <+: line ∧
    ((¬ wildcardPrefix <+: line ∧ normalize line ≠ [] ∧ AtOrBelow (normalize line) name) ∨
      ∃ rest, line = wildcardPrefix ++ rest ∧ normalize rest ≠ [] ∧
        ('.' :: normalize rest) <:+ name)

theorem ancestorLoop_of_find {set : Finset Str} {suffix : Str} {i : Nat} (hNot : suffix ∉ set)
    (hFind : find '.' suffix = some i) :
    ancestorLoop set suffix = ancestorLoop set (suffix.drop (i + 1)) := by
  rw [ancestorLoop, if_neg hNot]
  split <;> simp_all

theorem ancestorLoop_of_no_dot {set : Finset Str} {suffix : Str} (hNot : suffix ∉ set)
    (hFind : find '.' suffix = none) : ancestorLoop set suffix = false := by
  rw [ancestorLoop, if_neg hNot]
  split <;> simp_all

/-- Below the first dot of a name, a proper ancestor is the parent or an
ancestor of the parent. -/
theorem below_iff_of_find {name e : Str} {i : Nat} (hFind : find '.' name = some i) :
    ('.' :: e) <:+ name ↔ AtOrBelow e (name.drop (i + 1)) := by
  obtain ⟨hSplit, hFront⟩ := find_some hFind
  conv_lhs => rw [hSplit]
  rw [Scan.sep_suffix_iff hFront, AtOrBelow, eq_comm]

/-- The walk over ancestors finds a member of the set at or above the name,
and nothing else. -/
theorem ancestorLoop_iff (set : Finset Str) (suffix : Str) :
    ancestorLoop set suffix = true ↔ ∃ e ∈ set, AtOrBelow e suffix := by
  induction suffix using ancestorLoop.induct set with
  | case1 suffix hMem =>
      rw [ancestorLoop, if_pos hMem]
      exact ⟨fun _ => ⟨suffix, hMem, Or.inl rfl⟩, fun _ => rfl⟩
  | case2 suffix hNot i hFind ih =>
      rw [ancestorLoop_of_find hNot hFind, ih]
      constructor
      · rintro ⟨e, he, hParent⟩
        exact ⟨e, he, Or.inr ((below_iff_of_find hFind).mpr hParent)⟩
      · rintro ⟨e, he, rfl | hBelow⟩
        · exact absurd he hNot
        · exact ⟨e, he, (below_iff_of_find hFind).mp hBelow⟩
  | case3 suffix hNot hFind =>
      rw [ancestorLoop_of_no_dot hNot hFind]
      simp only [Bool.false_eq_true, false_iff, not_exists, not_and]
      rintro e he (rfl | hBelow)
      · exact hNot he
      · exact Scan.not_sep_suffix (find_none hFind) hBelow

theorem isBlocked_iff (bl : Blocklist) (name : Str) :
    bl.isBlocked name = true ↔
      (∃ e ∈ bl.exact, AtOrBelow e name) ∨ ∃ w ∈ bl.wildcard, ('.' :: w) <:+ name := by
  unfold isBlocked
  split
  case isTrue hExact =>
    exact ⟨fun _ => Or.inl ((ancestorLoop_iff _ _).mp hExact), fun _ => rfl⟩
  case isFalse hExact =>
    rw [ancestorLoop_iff] at hExact
    simp only [hExact, false_or]
    split
    case isTrue hEmpty => simp [hEmpty]
    case isFalse =>
      split
      case h_1 i hFind =>
        rw [ancestorLoop_iff]
        exact exists_congr fun w => and_congr_right fun _ => (below_iff_of_find hFind).symm
      case h_2 hFind =>
        simp only [Bool.false_eq_true, false_iff, not_exists, not_and]
        exact fun w _ => Scan.not_sep_suffix (find_none hFind)

/-- A line that spells a plain entry, and the entry. -/
def SpellsExact (rawLine e : Str) : Prop :=
  let line := trim rawLine
  line ≠ [] ∧ ¬ ['#'] <+: line ∧ ¬ wildcardPrefix <+: line ∧ normalize line = e ∧ e ≠ []

/-- A line that spells a wildcard entry, and the entry without its prefix. -/
def SpellsWildcard (rawLine w : Str) : Prop :=
  ∃ rest, trim rawLine = wildcardPrefix ++ rest ∧ normalize rest = w ∧ w ≠ []

/-- A blank line or a comment. -/
def Skipped (rawLine : Str) : Prop := trim rawLine = [] ∨ ['#'] <+: trim rawLine

theorem skipped_iff (rawLine : Str) :
    ((trim rawLine).isEmpty || startsWith ['#'] (trim rawLine)) = true ↔ Skipped rawLine := by
  simp [Skipped, startsWith]

theorem not_skipped_of_wildcard {rawLine rest : Str}
    (hLine : trim rawLine = wildcardPrefix ++ rest) : ¬ Skipped rawLine := by
  simp [Skipped, hLine, wildcardPrefix]

private theorem mem_entry (set : Finset Str) (d x : Str) :
    x ∈ (if d.isEmpty then set else insert d set) ↔ x ∈ set ∨ (d = x ∧ x ≠ []) := by
  split
  case isTrue hEmpty =>
    have hNil : d = [] := by simpa using hEmpty
    constructor
    · exact Or.inl
    · rintro (hMem | ⟨rfl, hx⟩)
      · exact hMem
      · exact absurd hNil hx
  case isFalse hEmpty =>
    have hNil : d ≠ [] := by simpa using hEmpty
    rw [Finset.mem_insert, or_comm]
    refine or_congr_right ⟨?_, fun h => h.1.symm⟩
    rintro rfl
    exact ⟨rfl, hNil⟩

/-- One line adds the plain entry it spells, if any, and keeps the others. -/
theorem mem_addLine_exact (bl : Blocklist) (rawLine e : Str) :
    e ∈ (bl.addLine rawLine).exact ↔ e ∈ bl.exact ∨ SpellsExact rawLine e := by
  have hSpells : SpellsExact rawLine e ↔
      ¬ Skipped rawLine ∧ ¬ wildcardPrefix <+: trim rawLine ∧ normalize (trim rawLine) = e ∧
        e ≠ [] := by
    simp [SpellsExact, Skipped, not_or, and_assoc]
  rw [hSpells]
  by_cases hSkip : Skipped rawLine
  · simp only [addLine, skipped_iff, hSkip, if_true]
    simp
  · cases hStrip : stripPrefix wildcardPrefix (trim rawLine) with
    | some rest =>
        have hPrefix : wildcardPrefix <+: trim rawLine :=
          ⟨rest, (stripPrefix_eq_some_iff.mp hStrip).symm⟩
        simp only [addLine, skipped_iff, hSkip, if_false, hStrip, hPrefix]
        split <;> simp
    | none =>
        have hPrefix := stripPrefix_eq_none_iff.mp hStrip
        simp only [addLine, skipped_iff, hSkip, if_false, hStrip, hPrefix]
        rw [apply_ite Blocklist.exact]
        simpa using mem_entry bl.exact (normalize (trim rawLine)) e

/-- One line adds the wildcard it spells, if any, and keeps the others. -/
theorem mem_addLine_wildcard (bl : Blocklist) (rawLine w : Str) :
    w ∈ (bl.addLine rawLine).wildcard ↔ w ∈ bl.wildcard ∨ SpellsWildcard rawLine w := by
  by_cases hSkip : Skipped rawLine
  · have hNone : ¬ SpellsWildcard rawLine w := by
      rintro ⟨rest, hLine, -⟩
      exact not_skipped_of_wildcard hLine hSkip
    simp only [addLine, skipped_iff, hSkip, if_true, hNone, or_false]
  · cases hStrip : stripPrefix wildcardPrefix (trim rawLine) with
    | some rest =>
        have hLine := stripPrefix_eq_some_iff.mp hStrip
        have hSpells : SpellsWildcard rawLine w ↔ normalize rest = w ∧ w ≠ [] := by
          simp [SpellsWildcard, hLine]
        rw [hSpells]
        simp only [addLine, skipped_iff, hSkip, if_false, hStrip]
        rw [apply_ite Blocklist.wildcard]
        exact mem_entry bl.wildcard (normalize rest) w
    | none =>
        have hNone : ¬ SpellsWildcard rawLine w := by
          rintro ⟨rest, hLine, -⟩
          exact stripPrefix_eq_none_iff.mp hStrip ⟨rest, hLine.symm⟩
        simp only [addLine, skipped_iff, hSkip, if_false, hStrip, hNone, or_false]
        split <;> simp

theorem mem_foldl_addLine (rawLines : List Str) (bl : Blocklist) (x : Str) :
    (x ∈ (rawLines.foldl addLine bl).exact ↔
        x ∈ bl.exact ∨ ∃ line ∈ rawLines, SpellsExact line x) ∧
      (x ∈ (rawLines.foldl addLine bl).wildcard ↔
        x ∈ bl.wildcard ∨ ∃ line ∈ rawLines, SpellsWildcard line x) := by
  induction rawLines generalizing bl with
  | nil => simp
  | cons line rest ih =>
      obtain ⟨hExact, hWildcard⟩ := ih (bl.addLine line)
      rw [List.foldl_cons, hExact, hWildcard, mem_addLine_exact, mem_addLine_wildcard]
      simp [or_assoc]

theorem mem_fromText_exact (text e : Str) :
    e ∈ (fromText text).exact ↔ ∃ line ∈ lines text, SpellsExact line e := by
  simpa [fromText] using (mem_foldl_addLine (lines text) ⟨∅, ∅⟩ e).1

theorem mem_fromText_wildcard (text w : Str) :
    w ∈ (fromText text).wildcard ↔ ∃ line ∈ lines text, SpellsWildcard line w := by
  simpa [fromText] using (mem_foldl_addLine (lines text) ⟨∅, ∅⟩ w).2

theorem lineBlocks_iff (rawLine name : Str) :
    LineBlocks rawLine name ↔
      (∃ e, SpellsExact rawLine e ∧ AtOrBelow e name) ∨
        ∃ w, SpellsWildcard rawLine w ∧ ('.' :: w) <:+ name := by
  constructor
  · rintro ⟨hNonempty, hComment, ⟨hPlain, hEntry, hName⟩ | ⟨rest, hLine, hEntry, hName⟩⟩
    · exact Or.inl ⟨_, ⟨hNonempty, hComment, hPlain, rfl, hEntry⟩, hName⟩
    · exact Or.inr ⟨_, ⟨rest, hLine, rfl, hEntry⟩, hName⟩
  · rintro (⟨e, ⟨hNonempty, hComment, hPlain, rfl, hEntry⟩, hName⟩ |
      ⟨w, ⟨rest, hLine, rfl, hEntry⟩, hName⟩)
    · exact ⟨hNonempty, hComment, Or.inl ⟨hPlain, hEntry, hName⟩⟩
    · have hSkip := not_skipped_of_wildcard hLine
      simp only [Skipped, not_or] at hSkip
      exact ⟨hSkip.1, hSkip.2, Or.inr ⟨rest, hLine, hEntry, hName⟩⟩

/-- A list blocks exactly what its lines spell: nothing is missed by the
suffix walks, nothing matches inside a label, and a wildcard leaves its own
apex alone. -/
theorem isBlocked_fromText_iff (text : Str) :
    (∀ name, (fromText text).isBlocked name = true ↔
      ∃ line ∈ lines text, LineBlocks line name) ∧
    ∀ line rest, trim line = wildcardPrefix ++ rest → ¬ LineBlocks line (normalize rest) := by
  constructor
  · intro name
    simp only [isBlocked_iff, mem_fromText_exact, mem_fromText_wildcard, lineBlocks_iff]
    constructor
    · rintro (⟨e, ⟨line, hLine, hSpells⟩, hName⟩ | ⟨w, ⟨line, hLine, hSpells⟩, hName⟩)
      · exact ⟨line, hLine, Or.inl ⟨e, hSpells, hName⟩⟩
      · exact ⟨line, hLine, Or.inr ⟨w, hSpells, hName⟩⟩
    · rintro ⟨line, hLine, ⟨e, hSpells, hName⟩ | ⟨w, hSpells, hName⟩⟩
      · exact Or.inl ⟨e, ⟨line, hLine, hSpells⟩, hName⟩
      · exact Or.inr ⟨w, ⟨line, hLine, hSpells⟩, hName⟩
  · rintro line rest hLine ⟨-, -, ⟨hPlain, -, -⟩ | ⟨rest', hLine', -, hName⟩⟩
    · exact hPlain ⟨rest, hLine.symm⟩
    · obtain rfl : rest = rest' := List.append_cancel_left (hLine.symm.trans hLine')
      have hLength := hName.length_le
      simp only [List.length_cons] at hLength
      omega

end RustDns.Blocklist
