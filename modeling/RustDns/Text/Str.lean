import RustDns.Text.Unicode
import RustDns.Library.Scan

/-! The operations of Rust's `str` that the repository uses. A string is the
list of its Unicode scalar values; a byte offset returned by `find` is only
ever used to slice at that very place, so a position in the list serves. -/
namespace RustDns

abbrev Str := List Char

namespace Str

open Unicode

/-- `str::trim`. -/
def trim (s : Str) : Str := Scan.trim isWhitespace s

/-- `str::trim_end_matches` for one character. -/
def trimEndMatches (c : Char) (s : Str) : Str := s.rdropWhile (· == c)

/-- `str::find` for one character. -/
def find (c : Char) (s : Str) : Option Nat := s.findIdx? (· == c)

/-- `str::find` for a string pattern. -/
def findStr (pat : Str) : Str → Option Nat
  | [] => if pat.isEmpty then some 0 else none
  | c :: rest =>
      if pat.isPrefixOf (c :: rest) then some 0 else (findStr pat rest).map (· + 1)

/-- `str::replace` for one character. -/
def replace (c : Char) (new s : Str) : Str := s.flatMap fun d => if d = c then new else [d]

/-- `str::starts_with` for a string pattern. -/
def startsWith (pat s : Str) : Bool := pat.isPrefixOf s

/-- `str::strip_prefix`. -/
def stripPrefix (pat s : Str) : Option Str :=
  if startsWith pat s then some (s.drop pat.length) else none

/-- `str::trim_start_matches` for a string pattern, with a bound on how often
the pattern can come off. -/
def trimStartMatchesFrom (pat : Str) : Nat → Str → Str
  | 0, s => s
  | n + 1, s =>
      match stripPrefix pat s with
      | some rest => trimStartMatchesFrom pat n rest
      | none => s

def trimStartMatches (pat s : Str) : Str := trimStartMatchesFrom pat s.length s

/-- The end of a finished line: one carriage return before the newline goes. -/
def stripCarriageReturn (s : Str) : Str :=
  if s.getLast? = some '\r' then s.dropLast else s

/-- `str::lines` with the current line so far. A last line without a newline
is returned as it is, a carriage return at its end included. -/
def linesFrom (current : Str) : Str → List Str
  | [] => if current.isEmpty then [] else [current]
  | c :: rest =>
      if c = '\n' then stripCarriageReturn current :: linesFrom [] rest
      else linesFrom (current ++ [c]) rest

def lines (text : Str) : List Str := linesFrom [] text

/-- Skip the characters that carry no case, then ask for a cased one. -/
def caseIgnorableThenCased (s : Str) : Bool :=
  match s.dropWhile isCaseIgnorable with
  | [] => false
  | c :: _ => isCased c

/-- Lowercase the rest of a string; `before` is what precedes it, nearest
character first. A capital sigma that ends a word becomes a final sigma. -/
def lowercaseFrom (before : Str) : Str → Str
  | [] => []
  | c :: rest =>
      (if c = 'Σ' then
        [if caseIgnorableThenCased before && !caseIgnorableThenCased rest then 'ς' else 'σ']
      else toLower c) ++ lowercaseFrom (c :: before) rest

/-- `str::to_lowercase`. -/
def toLowercase (s : Str) : Str := lowercaseFrom [] s

theorem trim_eq_self {s : Str} (h : Scan.Trimmed isWhitespace s) : trim s = s :=
  Scan.trim_eq_self h

theorem trimEndMatches_append {c : Char} {back : Str} (front : Str)
    (hBack : trimEndMatches c back ≠ []) :
    trimEndMatches c (front ++ back) = front ++ trimEndMatches c back := by
  simp only [trimEndMatches] at hBack ⊢
  rw [Scan.rdropWhile_append, if_neg hBack]

theorem trimEndMatches_append_of_all {c : Char} {front back : Str}
    (hBack : ∀ x ∈ back, x = c) : trimEndMatches c (front ++ back) = trimEndMatches c front := by
  have hNil : back.rdropWhile (· == c) = [] :=
    List.rdropWhile_eq_nil_iff.mpr fun x hx => by simp [hBack x hx]
  simp only [trimEndMatches]
  rw [Scan.rdropWhile_append, if_pos hNil]

theorem trimEndMatches_eq_self {c : Char} {s : Str} (hLast : s.getLast? ≠ some c) :
    trimEndMatches c s = s := by
  refine Scan.rdropWhile_of_last fun x hx => ?_
  simp only [beq_eq_false_iff_ne]
  rintro rfl
  exact hLast hx

theorem getLast?_trimEndMatches (c : Char) (s : Str) :
    (trimEndMatches c s).getLast? ≠ some c := by
  intro hLast
  have hNot := Scan.last_rdropWhile (Option.mem_def.mpr hLast)
  simp at hNot

theorem find_some {c : Char} {s : Str} {i : Nat} (hFind : find c s = some i) :
    s = s.take i ++ c :: s.drop (i + 1) ∧ c ∉ s.take i := by
  obtain ⟨x, hSplit, hx, hBefore⟩ := Scan.findIdx?_split hFind
  obtain rfl : x = c := by simpa using hx
  refine ⟨hSplit, fun hMem => ?_⟩
  simpa using hBefore x hMem

theorem find_none {c : Char} {s : Str} (hFind : find c s = none) : c ∉ s := by
  intro hMem
  have hMiss := List.findIdx?_eq_none_iff.mp hFind c hMem
  simp at hMiss

theorem find_lt {c : Char} {s : Str} {i : Nat} (hFind : find c s = some i) : i < s.length :=
  (List.findIdx?_eq_some_iff_getElem.mp hFind).1

theorem stripPrefix_eq_some_iff {pat s rest : Str} :
    stripPrefix pat s = some rest ↔ s = pat ++ rest := by
  unfold stripPrefix startsWith
  constructor
  · intro h
    split at h
    case isTrue hPrefix =>
      obtain ⟨tail, rfl⟩ := List.isPrefixOf_iff_prefix.mp hPrefix
      simpa using h
    case isFalse => simp at h
  · rintro rfl
    simp

theorem stripPrefix_eq_none_iff {pat s : Str} :
    stripPrefix pat s = none ↔ ¬ pat <+: s := by
  unfold stripPrefix startsWith
  simp

theorem trimStartMatchesFrom_split {pat s : Str} {n : Nat} (hPat : pat ≠ []) (hBound : s.length ≤ n) :
    ∃ k, s = (List.replicate k pat).flatten ++ trimStartMatchesFrom pat n s ∧
      ¬pat <+: trimStartMatchesFrom pat n s := by
  have hLength := List.length_pos_iff.mpr hPat
  induction n generalizing s with
  | zero =>
      obtain rfl := List.eq_nil_of_length_eq_zero (Nat.le_zero.mp hBound)
      exact ⟨0, rfl, by simpa [trimStartMatchesFrom] using hPat⟩
  | succ n ih =>
      cases hStrip : stripPrefix pat s with
      | none =>
          simp only [trimStartMatchesFrom, hStrip]
          exact ⟨0, rfl, stripPrefix_eq_none_iff.mp hStrip⟩
      | some rest =>
          have hSplit := stripPrefix_eq_some_iff.mp hStrip
          have hRest : rest.length ≤ n := by
            rw [hSplit, List.length_append] at hBound
            omega
          obtain ⟨k, hFlat, hNot⟩ := ih hRest
          simp only [trimStartMatchesFrom, hStrip]
          refine ⟨k + 1, ?_, hNot⟩
          rw [List.replicate_succ, List.flatten_cons, List.append_assoc, ← hFlat, hSplit]

/-- The pattern comes off the front in one way only. -/
theorem flatten_append_inj {pat r r' : Str} {k k' : Nat} (hNot : ¬pat <+: r) (hNot' : ¬pat <+: r')
    (hEq : (List.replicate k pat).flatten ++ r = (List.replicate k' pat).flatten ++ r') : r = r' := by
  induction k generalizing k' with
  | zero =>
      cases k' with
      | zero => exact hEq
      | succ k' =>
          rw [List.replicate_succ, List.flatten_cons, List.append_assoc] at hEq
          exact absurd ⟨_, hEq.symm⟩ hNot
  | succ k ih =>
      rw [List.replicate_succ, List.flatten_cons, List.append_assoc] at hEq
      cases k' with
      | zero => exact absurd ⟨_, hEq⟩ hNot'
      | succ k' =>
          rw [List.replicate_succ, List.flatten_cons, List.append_assoc] at hEq
          exact ih (List.append_cancel_left hEq)

theorem trimStartMatches_eq_iff {pat s r : Str} (hPat : pat ≠ []) :
    trimStartMatches pat s = r ↔ ∃ k, s = (List.replicate k pat).flatten ++ r ∧ ¬pat <+: r := by
  obtain ⟨k, hSplit, hNot⟩ := trimStartMatchesFrom_split hPat (Nat.le_refl s.length)
  constructor
  · rintro rfl
    exact ⟨k, hSplit, hNot⟩
  · rintro ⟨k', hSplit', hNot'⟩
    exact flatten_append_inj hNot hNot' (hSplit.symm.trans hSplit')

theorem findStr_eq_none {pat s : Str} {c : Char} (hPat : c ∈ pat) (hNot : c ∉ s) :
    findStr pat s = none := by
  induction s with
  | nil =>
      have hNonempty : pat ≠ [] := List.ne_nil_of_mem hPat
      simp [findStr, hNonempty]
  | cons a rest ih =>
      have hPrefix : ¬ pat <+: a :: rest := fun h => hNot (h.subset hPat)
      have hRest := ih fun hMem => hNot (List.mem_cons_of_mem a hMem)
      simp [findStr, hPrefix, hRest]

theorem findStr_split {pat s : Str} {i : Nat} (hFind : findStr pat s = some i) :
    s = s.take i ++ pat ++ s.drop (i + pat.length) := by
  induction s generalizing i with
  | nil =>
      simp only [findStr, List.isEmpty_iff, Option.ite_none_right_eq_some, Option.some.injEq] at hFind
      obtain ⟨rfl, rfl⟩ := hFind
      rfl
  | cons a rest ih =>
      rw [findStr] at hFind
      split at hFind
      case isTrue hPrefix =>
        obtain rfl : 0 = i := Option.some.inj hFind
        obtain ⟨back, hBack⟩ := List.isPrefixOf_iff_prefix.mp hPrefix
        simp [← hBack]
      case isFalse =>
        obtain ⟨j, hRest, rfl⟩ := Option.map_eq_some_iff.mp hFind
        simpa [Nat.succ_add] using ih hRest

/-- The pattern is found no later than where it stands. -/
theorem findStr_le (pat front rest : Str) :
    ∃ i ≤ front.length, findStr pat (front ++ pat ++ rest) = some i := by
  induction front with
  | nil =>
      refine ⟨0, Nat.le_refl 0, ?_⟩
      cases pat with
      | nil => cases rest <;> simp [findStr]
      | cons c more => simp [findStr]
  | cons a more ih =>
      obtain ⟨i, hLe, hFind⟩ := ih
      rw [List.cons_append, List.cons_append, findStr]
      split
      · exact ⟨0, Nat.zero_le _, rfl⟩
      · exact ⟨i + 1, Nat.succ_le_succ hLe, by rw [hFind]; rfl⟩

theorem find_eq_none {c : Char} {s : Str} (hNot : c ∉ s) : find c s = none := by
  refine List.findIdx?_eq_none_iff.mpr fun x hx => ?_
  simp only [beq_eq_false_iff_ne]
  rintro rfl
  exact hNot hx

/-! Lowercasing is idempotent, and it neither creates nor moves an ASCII
character that is not a lowercase letter. -/

theorem lowercaseFrom_of_fixed {s : Str} (hFixed : ∀ c ∈ s, toLower c = [c]) (before : Str) :
    lowercaseFrom before s = s := by
  induction s generalizing before with
  | nil => rfl
  | cons c rest ih =>
      have hHead := hFixed c (by simp)
      have hSigma : c ≠ 'Σ' := by
        rintro rfl
        revert hHead
        decide +kernel
      rw [lowercaseFrom, if_neg hSigma, hHead, ih fun x hx => hFixed x (by simp [hx])]
      rfl

theorem mem_lowercaseFrom {before s : Str} {x : Char} (hx : x ∈ lowercaseFrom before s) :
    toLower x = [x] ∧ (x ∈ s ∨ 128 ≤ x.toNat ∨ (97 ≤ x.toNat ∧ x.toNat ≤ 122)) := by
  induction s generalizing before with
  | nil => simp [lowercaseFrom] at hx
  | cons c rest ih =>
      rw [lowercaseFrom, List.mem_append] at hx
      rcases hx with hHead | hRest
      · split at hHead
        case isTrue =>
          have hSigma : x = 'ς' ∨ x = 'σ' := by
            rw [List.mem_singleton] at hHead
            split at hHead <;> simp [hHead]
          rcases hSigma with rfl | rfl
          · exact ⟨by decide +kernel, Or.inr (by decide)⟩
          · exact ⟨by decide +kernel, Or.inr (by decide)⟩
        case isFalse =>
          obtain ⟨hFixed, rfl | hImage⟩ := toLower_image hHead
          · exact ⟨hFixed, Or.inl (by simp)⟩
          · exact ⟨hFixed, Or.inr hImage⟩
      · obtain ⟨hFixed, hMem | hImage⟩ := ih hRest
        · exact ⟨hFixed, Or.inl (by simp [hMem])⟩
        · exact ⟨hFixed, Or.inr hImage⟩

/-- A character that no lowercasing produces. -/
def isPlain (c : Char) : Bool := c.toNat < 128 && !(97 ≤ c.toNat && c.toNat ≤ 122)

theorem mem_of_mem_toLowercase {s : Str} {x : Char} (hPlain : isPlain x = true)
    (hx : x ∈ toLowercase s) : x ∈ s := by
  simp only [isPlain, Bool.and_eq_true, Bool.not_eq_true', Bool.and_eq_false_iff,
    decide_eq_true_eq, decide_eq_false_iff_not] at hPlain
  rcases (mem_lowercaseFrom hx).2 with hMem | hImage
  · exact hMem
  · omega

theorem lowercaseFrom_of_no_sigma {s : Str} (hSigma : 'Σ' ∉ s) (before : Str) :
    lowercaseFrom before s = s.flatMap toLower := by
  induction s generalizing before with
  | nil => rfl
  | cons c rest ih =>
      have hc : c ≠ 'Σ' := fun hEq => hSigma (by simp [hEq])
      rw [lowercaseFrom, if_neg hc, ih fun hMem => hSigma (List.mem_cons_of_mem c hMem)]
      rfl

theorem toLower_of_isPlain {c x : Char} (hPlain : isPlain x = true) (hx : x ∈ toLower c) :
    x = c := by
  simp only [isPlain, Bool.and_eq_true, Bool.not_eq_true', Bool.and_eq_false_iff,
    decide_eq_true_eq, decide_eq_false_iff_not] at hPlain
  rcases (toLower_image hx).2 with hEq | hImage
  · exact hEq
  · omega

/-- Lowercasing keeps dots where they are, so trailing dots can be cut before
or after it. -/
theorem trimEndMatches_flatMap_toLower (s : Str) :
    trimEndMatches '.' (s.flatMap toLower) = (trimEndMatches '.' s).flatMap toLower := by
  induction s using List.reverseRecOn with
  | nil => rfl
  | append_singleton front c ih =>
      by_cases hc : c = '.'
      · subst hc
        have hDot : toLower '.' = ['.'] := by decide
        simp only [trimEndMatches, List.flatMap_append, List.flatMap_singleton, hDot] at ih ⊢
        rw [List.rdropWhile_concat_pos _ _ _ (by simp), List.rdropWhile_concat_pos _ _ _ (by simp),
          ih]
      · have hKeep : trimEndMatches '.' (front ++ [c]) = front ++ [c] :=
          List.rdropWhile_concat_neg _ _ _ (by simpa using hc)
        rw [hKeep]
        refine Scan.rdropWhile_of_last fun x hx => ?_
        simp only [List.flatMap_append, List.flatMap_singleton] at hx
        rw [List.getLast?_append_of_ne_nil _ (toLower_ne_nil c)] at hx
        simp only [beq_eq_false_iff_ne]
        rintro rfl
        exact hc (toLower_of_isPlain (by decide) (List.mem_of_mem_getLast? hx)).symm

/-! Lines. -/

theorem linesFrom_append_newline {line : Str} (hLine : '\n' ∉ line) (current rest : Str) :
    linesFrom current (line ++ '\n' :: rest) =
      stripCarriageReturn (current ++ line) :: linesFrom [] rest := by
  induction line generalizing current with
  | nil => simp [linesFrom]
  | cons c tail ih =>
      have hc : c ≠ '\n' := fun hEq => hLine (by simp [hEq])
      have hTail := ih (fun hMem => hLine (List.mem_cons_of_mem c hMem)) (current ++ [c])
      rw [List.cons_append, linesFrom, if_neg hc, hTail]
      simp

theorem mem_of_mem_stripCarriageReturn {s : Str} {c : Char} (hc : c ∈ stripCarriageReturn s) :
    c ∈ s := by
  unfold stripCarriageReturn at hc
  split at hc
  · exact List.mem_of_mem_dropLast hc
  · exact hc

theorem newline_not_mem_linesFrom {current text line : Str} (hCurrent : '\n' ∉ current)
    (hLine : line ∈ linesFrom current text) : '\n' ∉ line := by
  induction text generalizing current with
  | nil =>
      rw [linesFrom] at hLine
      split at hLine
      · simp at hLine
      · rwa [List.mem_singleton.mp hLine]
  | cons c rest ih =>
      rw [linesFrom] at hLine
      split at hLine
      case isTrue =>
        rcases List.mem_cons.mp hLine with rfl | hRest
        · exact fun hMem => hCurrent (mem_of_mem_stripCarriageReturn hMem)
        · exact ih (by simp) hRest
      case isFalse hc =>
        have hNext : '\n' ∉ current ++ [c] := by simp [hCurrent, Ne.symm hc]
        exact ih hNext hLine

theorem newline_not_mem_lines {text line : Str} (hLine : line ∈ lines text) : '\n' ∉ line :=
  newline_not_mem_linesFrom (by simp) hLine

/-- A line that a written file gives back unchanged. -/
structure OneLine (s : Str) : Prop where
  newline : '\n' ∉ s
  carriageReturn : s.getLast? ≠ some '\r'
  nonempty : s ≠ []

theorem lines_cons {line : Str} (hLine : OneLine line) (rest : Str) :
    lines (line ++ '\n' :: rest) = line :: lines rest := by
  rw [lines, linesFrom_append_newline hLine.newline, List.nil_append, stripCarriageReturn,
    if_neg hLine.carriageReturn]
  rfl

/-- A last line needs no newline, and keeps a carriage return. -/
theorem lines_of_no_newline {line : Str} (hNewline : '\n' ∉ line) (hNonempty : line ≠ []) :
    lines line = [line] := by
  have hScan : ∀ (current tail : Str), '\n' ∉ tail → current ++ tail ≠ [] →
      linesFrom current tail = [current ++ tail] := by
    intro current tail hTail hNonempty
    induction tail generalizing current with
    | nil =>
        rw [List.append_nil] at hNonempty
        simp [linesFrom, hNonempty]
    | cons c rest ih =>
        have hc : c ≠ '\n' := fun hEq => hTail (by simp [hEq])
        rw [linesFrom, if_neg hc, ih _ (fun hMem => hTail (List.mem_cons_of_mem c hMem)) (by simp)]
        simp
  exact hScan [] line hNewline hNonempty

theorem lines_last {line : Str} (hLine : OneLine line) : lines line = [line] :=
  lines_of_no_newline hLine.newline hLine.nonempty

/-- Joined lines come back one by one, with or without a final newline. -/
theorem lines_intercalate {ls : List Str} (hLines : ∀ l ∈ ls, OneLine l) :
    lines (['\n'].intercalate ls) = ls ∧
      (ls ≠ [] → lines (['\n'].intercalate ls ++ ['\n']) = ls) := by
  induction ls with
  | nil => simp [lines, linesFrom]
  | cons line rest ih =>
      have hHead := hLines line (by simp)
      obtain ⟨hJoin, hFile⟩ := ih fun l hl => hLines l (by simp [hl])
      cases rest with
      | nil =>
          refine ⟨by simpa using lines_last hHead, fun _ => ?_⟩
          simpa [lines, linesFrom] using lines_cons hHead []
      | cons next tail =>
          rw [List.intercalate_cons_of_ne_nil (by simp)]
          refine ⟨?_, fun _ => ?_⟩
          · simpa [hJoin] using lines_cons hHead (['\n'].intercalate (next :: tail))
          · simpa [hFile] using lines_cons hHead (['\n'].intercalate (next :: tail) ++ ['\n'])

theorem exists_linesFrom_append (current front rest : Str) :
    ∃ before, linesFrom current (front ++ '\n' :: rest) = before ++ lines rest := by
  induction front generalizing current with
  | nil => exact ⟨[stripCarriageReturn current], by simp [linesFrom, lines]⟩
  | cons c tail ih =>
      rw [List.cons_append, linesFrom]
      split
      · obtain ⟨before, hBefore⟩ := ih []
        exact ⟨stripCarriageReturn current :: before, by rw [hBefore, List.cons_append]⟩
      · exact ih (current ++ [c])

/-- A line among joined texts comes back, whatever the others are. -/
theorem mem_lines_intercalate {line : Str} {texts : List Str} (hLine : OneLine line)
    (hMem : line ∈ texts) : line ∈ lines (['\n'].intercalate texts) := by
  induction texts with
  | nil => simp at hMem
  | cons text rest ih =>
      by_cases hRest : rest = []
      · subst hRest
        obtain rfl := List.mem_singleton.mp hMem
        rw [List.intercalate_singleton, lines_last hLine]
        exact List.mem_singleton_self line
      · rw [List.intercalate_cons_of_ne_nil hRest, List.append_assoc, List.singleton_append]
        rcases List.mem_cons.mp hMem with rfl | hLater
        · rw [lines_cons hLine]
          exact List.mem_cons_self
        · obtain ⟨before, hBefore⟩ :=
            exists_linesFrom_append [] text (['\n'].intercalate rest)
          rw [lines, hBefore]
          exact List.mem_append_right _ (ih hLater)

end Str

end RustDns
