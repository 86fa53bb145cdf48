import RustDns.Blocklist.NormalForm

/-! A pasted URL as a line of the blocklist: when the entry it becomes is its
host. -/
namespace RustDns.Blocklist

open Str Unicode

def isHostChar (c : Char) : Bool := c.isAlphanum || c == '-' || c == '_' || c == '.'

structure HostName (host : Str) : Prop where
  chars : ∀ c ∈ host, isHostChar c
  first : ∃ c ∈ host.head?, c.isAlphanum
  last : ∃ c ∈ host.getLast?, c.isAlphanum

/-- A URL by its parts. Only the host has to be there, and dots may follow it. -/
structure Url where
  scheme : Option Str
  host : Str
  dots : Nat
  port : Option Str
  path : Option Str
  scheme_letters : ∀ s ∈ scheme, ∀ c ∈ s, c.isAlpha
  host_name : HostName host
  port_digits : ∀ p ∈ port, p ≠ [] ∧ ∀ c ∈ p, c.isDigit
  path_line : ∀ p ∈ path, '\n' ∉ p

namespace Url

def schemePart (u : Url) : Str := u.scheme.elim [] (· ++ "://".toList)

def portPart (u : Url) : Str := u.port.elim [] (':' :: ·)

def pathPart (u : Url) : Str := u.path.elim [] ('/' :: ·)

/-- Everything up to the path. -/
def front (u : Url) : Str :=
  u.schemePart ++ (u.host ++ List.replicate u.dots '.' ++ u.portPart)

def line (u : Url) : Str := u.front ++ u.pathPart

end Url

/-- What follows the first `://` of a text. -/
def AfterScheme (text rest : Str) : Prop :=
  ∃ front, text = front ++ "://".toList ++ rest ∧
    ∀ front' rest', text = front' ++ "://".toList ++ rest' → front.length ≤ front'.length

/-- A text that begins with a host, white space around it and dots after it
apart. -/
def BeginsWith (host text : Str) : Prop :=
  ∃ before after dots tail : Str, text = before ++ host ++ after ++ dots ++ tail ∧
    (∀ c ∈ before, isWhitespace c) ∧ (∀ c ∈ after, isWhitespace c) ∧ (∀ c ∈ dots, c = '.') ∧
    ∀ c ∈ tail.head?, c = '/' ∨ c = ':'

/-- The last steps of `normalize`, once a scheme is cut. -/
def hostOf (text : Str) : Str := trim (trimEndMatches '.' (cutFrom ':' (cutFrom '/' text)))

theorem normalize_eq_hostOf (raw : Str) :
    normalize raw = hostOf (cutScheme (toLowercase (trim raw))) := rfl

/-- A scheme is cut at the first place where it could end, or not at all. -/
theorem cutScheme_cases (text : Str) :
    AfterScheme text (cutScheme text) ∨
      (cutScheme text = text ∧ ∀ rest, ¬ AfterScheme text rest) := by
  unfold cutScheme
  cases hFind : findStr [':', '/', '/'] text with
  | some i =>
      left
      have hSplit := findStr_split hFind
      refine ⟨text.take i, hSplit, ?_⟩
      rintro front' rest' rfl
      obtain ⟨j, hLe, hFind'⟩ := findStr_le "://".toList front' rest'
      obtain rfl : j = i := Option.some.inj (hFind'.symm.trans hFind)
      exact (List.length_take_le j _).trans hLe
  | none =>
      right
      refine ⟨rfl, ?_⟩
      rintro rest ⟨front, rfl, -⟩
      obtain ⟨j, -, hFind'⟩ := findStr_le "://".toList front rest
      exact Option.some_ne_none j (hFind'.symm.trans hFind)

theorem AfterScheme.unique {text rest rest' : Str} (hRest : AfterScheme text rest)
    (hRest' : AfterScheme text rest') : rest = rest' := by
  obtain ⟨front, hText, hFirst⟩ := hRest
  obtain ⟨front', hText', hFirst'⟩ := hRest'
  have hLength : front.length = front'.length :=
    le_antisymm (hFirst front' rest' hText') (hFirst' front rest hText)
  rw [hText] at hText'
  have hSame := List.append_inj hText' (by simp [hLength])
  exact hSame.2

theorem cutScheme_of_afterScheme {text rest : Str} (hRest : AfterScheme text rest) :
    cutScheme text = rest := by
  rcases cutScheme_cases text with hCut | ⟨-, hNone⟩
  · exact hCut.unique hRest
  · exact absurd hRest (hNone rest)

/-- A scheme without a colon of its own is the first. -/
theorem afterScheme_of_no_colon {scheme : Str} (hColon : ':' ∉ scheme) (rest : Str) :
    AfterScheme (scheme ++ "://".toList ++ rest) rest := by
  refine ⟨scheme, rfl, ?_⟩
  intro front' rest' hText
  by_contra hShort
  have hPrefix : front' ++ [':'] <+: scheme := by
    have hLe : (front' ++ [':']).length ≤ scheme.length := by
      simpa [Nat.succ_le_iff] using hShort
    have hFront : front' ++ [':'] <+: scheme ++ ("://".toList ++ rest) :=
      ⟨"//".toList ++ rest', by simpa using hText.symm⟩
    exact List.prefix_of_prefix_length_le hFront (List.prefix_append scheme _) hLe
  exact hColon (hPrefix.subset (by simp))

theorem cutFrom_eq_takeWhile (c : Char) (d : Str) : cutFrom c d = d.takeWhile (· != c) := by
  have hHost := not_mem_cutFrom c d
  unfold cutFrom at hHost ⊢
  split at hHost
  case h_1 i hFind =>
    have hSplit := (find_some hFind).1
    nth_rewrite 2 [hSplit]
    rw [List.takeWhile_append_of_pos fun x hMem => bne_iff_ne.mpr (ne_of_mem_of_not_mem hMem hHost)]
    simp
  case h_2 hFind =>
    refine (List.takeWhile_eq_self_iff.mpr fun x hMem => ?_).symm
    exact bne_iff_ne.mpr (ne_of_mem_of_not_mem hMem hHost)

/-- What the host is cut out of: no colon and no slash. -/
def isBody (c : Char) : Bool := c != ':' && c != '/'

/-- Path and port are cut together, at the first slash or colon. -/
theorem cutFrom_cutFrom (text : Str) :
    cutFrom ':' (cutFrom '/' text) = text.takeWhile isBody := by
  rw [cutFrom_eq_takeWhile, cutFrom_eq_takeWhile, List.takeWhile_takeWhile]
  congr 1
  funext c
  rw [Bool.decide_and, Bool.decide_coe, Bool.decide_coe, isBody]

section Host

theorem toNat_lt_of_isHostChar {c : Char} (hHost : isHostChar c) : c.toNat < 128 := by
  simp only [isHostChar, Bool.or_eq_true, beq_iff_eq] at hHost
  rcases hHost with ((hAlpha | rfl) | rfl) | rfl
  · delta Char.isAlphanum Char.isAlpha Char.isUpper Char.isLower Char.isDigit at hAlpha
    simp only [Bool.or_eq_true, Bool.and_eq_true, decide_eq_true_eq, UInt32.le_iff_toNat_le,
      ge_iff_le] at hAlpha
    have hNat : c.toNat = c.val.toNat := rfl
    have hUpper : 'Z'.val.toNat = 90 := rfl
    have hLower : 'z'.val.toNat = 122 := rfl
    have hDigit : '9'.val.toNat = 57 := rfl
    omega
  · decide
  · decide
  · decide

private theorem hostChar_table : ∀ n < 128, isHostChar (Char.ofNat n) →
    isWhitespace (Char.ofNat n) = false ∧ (toLower (Char.ofNat n)).all isHostChar ∧
      ((Char.ofNat n).isAlphanum → (toLower (Char.ofNat n)).all Char.isAlphanum) := by
  decide +kernel

theorem isHostChar_of_isAlphanum {c : Char} (hAlpha : c.isAlphanum) : isHostChar c := by
  simp [isHostChar, hAlpha]

theorem hostChar_facts {c : Char} (hHost : isHostChar c) :
    isWhitespace c = false ∧ (∀ d ∈ toLower c, isHostChar d) ∧
      (c.isAlphanum → ∀ d ∈ toLower c, d.isAlphanum) := by
  have hTable := hostChar_table c.toNat (toNat_lt_of_isHostChar hHost)
  rw [Char.ofNat_toNat] at hTable
  simpa only [List.all_eq_true] using hTable hHost

theorem lowercaseFrom_of_hostChars {s : Str} (hChars : ∀ c ∈ s, isHostChar c) (before : Str) :
    lowercaseFrom before s = s.flatMap toLower := by
  refine lowercaseFrom_of_no_sigma (fun hSigma => ?_) before
  have hHost := hChars 'Σ' hSigma
  simp [isHostChar] at hHost

theorem HostName.ne_nil {host : Str} (h : HostName host) : host ≠ [] := by
  obtain ⟨c, hFirst, -⟩ := h.first
  rintro rfl
  simp at hFirst

/-- A host name in lowercase is a host name. -/
theorem HostName.toLowercase {host : Str} (h : HostName host) : HostName (toLowercase host) := by
  rw [Str.toLowercase, lowercaseFrom_of_hostChars h.chars]
  refine ⟨?_, ?_, ?_⟩
  · intro d hMem
    obtain ⟨c, hChar, hLower⟩ := List.mem_flatMap.mp hMem
    exact (hostChar_facts (h.chars c hChar)).2.1 d hLower
  · obtain ⟨c, hFirst, hAlpha⟩ := h.first
    obtain ⟨rest, rfl⟩ := List.head?_eq_some_iff.mp hFirst
    obtain ⟨d, more, hLower⟩ := List.exists_cons_of_ne_nil (toLower_ne_nil c)
    refine ⟨d, by simp [hLower], ?_⟩
    exact (hostChar_facts (isHostChar_of_isAlphanum hAlpha)).2.2 hAlpha d (by simp [hLower])
  · obtain ⟨c, hLast, hAlpha⟩ := h.last
    obtain ⟨front, rfl⟩ := List.getLast?_eq_some_iff.mp hLast
    obtain ⟨d, hLower⟩ := Option.ne_none_iff_exists'.mp
      (mt List.getLast?_eq_none_iff.mp (toLower_ne_nil c))
    refine ⟨d, ?_, ?_⟩
    · rw [List.flatMap_append, List.flatMap_singleton,
        List.getLast?_append_of_ne_nil _ (toLower_ne_nil c)]
      exact hLower
    · exact (hostChar_facts (isHostChar_of_isAlphanum hAlpha)).2.2 hAlpha d
        (List.mem_of_mem_getLast? hLower)

theorem HostName.trimmed {host : Str} (h : HostName host) : Scan.Trimmed isWhitespace host where
  head := fun c hMem => (hostChar_facts (h.chars c (List.mem_of_mem_head? hMem))).1
  last := fun c hMem => (hostChar_facts (h.chars c (List.mem_of_mem_getLast? hMem))).1

theorem HostName.last_ne_dot {host : Str} (h : HostName host) : host.getLast? ≠ some '.' := by
  obtain ⟨c, hLast, hAlpha⟩ := h.last
  rw [Option.mem_def.mp hLast]
  rintro ⟨⟩
  simp at hAlpha

theorem HostName.plain {host : Str} (h : HostName host) :
    ∀ c ∈ host, isBody c := by
  intro c hMem
  have hHost := h.chars c hMem
  by_contra hNot
  simp only [isBody, Bool.and_eq_true, bne_iff_ne, not_and_or, not_not] at hNot
  rcases hNot with rfl | rfl <;> simp [isHostChar] at hHost

end Host

theorem isBody_of_isWhitespace {c : Char} (hWhite : isWhitespace c) : isBody c := by
  by_contra hNot
  simp only [isBody, Bool.and_eq_true, bne_iff_ne, not_and_or, not_not] at hNot
  rcases hNot with rfl | rfl <;> revert hWhite <;> decide

theorem isBody_eq_false_iff {c : Char} : isBody c = false ↔ c = '/' ∨ c = ':' := by
  rw [isBody, Bool.and_eq_false_iff, bne_eq_false_iff_eq, bne_eq_false_iff_eq, or_comm]

/-- A host and white space around it end with no dot. -/
theorem HostName.spaced_last {host before after : Str} (h : HostName host)
    (hAfter : ∀ c ∈ after, isWhitespace c) :
    ∀ c ∈ (before ++ host ++ after).getLast?, (c == '.') = false := by
  intro c hMem
  rw [beq_eq_false_iff_ne]
  rintro rfl
  cases hEmpty : after with
  | nil =>
      rw [hEmpty, List.append_nil, List.getLast?_append_of_ne_nil _ h.ne_nil] at hMem
      exact h.last_ne_dot hMem
  | cons a rest =>
      rw [List.getLast?_append_of_ne_nil _ (by simp [hEmpty])] at hMem
      have hWhite := hAfter '.' (List.mem_of_mem_getLast? hMem)
      revert hWhite
      decide

/-- The steps after the scheme find a host exactly if the text begins with it. -/
theorem hostOf_eq_iff {host : Str} (hHost : HostName host) (text : Str) :
    hostOf text = host ↔ BeginsWith host text := by
  have hTrim : hostOf text = host ↔ ∃ before after,
      (text.takeWhile isBody).rdropWhile (· == '.') = before ++ host ++ after ∧
        (∀ c ∈ before, isWhitespace c) ∧ ∀ c ∈ after, isWhitespace c := by
    rw [hostOf, cutFrom_cutFrom]
    exact Scan.trim_eq_iff hHost.ne_nil hHost.trimmed
  rw [hTrim]
  constructor
  · rintro ⟨before, after, hBody, hBefore, hAfter⟩
    refine ⟨before, after, (text.takeWhile isBody).rtakeWhile (· == '.'), text.dropWhile isBody,
      ?_, hBefore, hAfter, ?_, ?_⟩
    · rw [← hBody, List.rdropWhile_append_rtakeWhile, List.takeWhile_append_dropWhile]
    · intro c hMem
      simpa using List.mem_rtakeWhile_imp hMem
    · exact fun c hMem => isBody_eq_false_iff.mp (Scan.head_dropWhile hMem)
  · rintro ⟨before, after, dots, tail, rfl, hBefore, hAfter, hDots, hTail⟩
    refine ⟨before, after, ?_, hBefore, hAfter⟩
    have hAll : ∀ c ∈ before ++ host ++ after ++ dots, isBody c := by
      intro c hMem
      simp only [List.mem_append] at hMem
      rcases hMem with ((hMem | hMem) | hMem) | hMem
      · exact isBody_of_isWhitespace (hBefore c hMem)
      · exact hHost.plain c hMem
      · exact isBody_of_isWhitespace (hAfter c hMem)
      · rw [hDots c hMem]
        rfl
    rw [Scan.takeWhile_append_of_all hAll fun c hMem => isBody_eq_false_iff.mpr (hTail c hMem)]
    apply Scan.rdropWhile_append_of_all (hHost.spaced_last hAfter)
    exact fun c hMem => by simp [hDots c hMem]

/-- Lowercasing goes through a text without a capital sigma character by
character, and on to what follows. -/
theorem lowercaseFrom_append {front : Str} (hSigma : 'Σ' ∉ front) (before back : Str) :
    lowercaseFrom before (front ++ back) =
      front.flatMap toLower ++ lowercaseFrom (front.reverse ++ before) back := by
  induction front generalizing before with
  | nil => rfl
  | cons c rest ih =>
      have hc : c ≠ 'Σ' := fun hEq => hSigma (by simp [hEq])
      have hRest := ih (fun hMem => hSigma (List.mem_cons_of_mem c hMem)) (c :: before)
      rw [List.cons_append, lowercaseFrom, if_neg hc, hRest]
      simp

namespace Url

theorem front_chars (u : Url) : ∀ c ∈ u.front, isHostChar c ∨ c = ':' ∨ c = '/' := by
  intro c hMem
  simp only [front, schemePart, portPart, List.mem_append, List.mem_replicate] at hMem
  rcases hMem with hScheme | (hHost | ⟨-, rfl⟩) | hPort
  · cases hSome : u.scheme with
    | none => simp [hSome] at hScheme
    | some s =>
        rw [hSome, Option.elim_some, List.mem_append] at hScheme
        rcases hScheme with hLetter | hEnd
        · have hAlpha := u.scheme_letters s hSome c hLetter
          exact Or.inl (isHostChar_of_isAlphanum (by simp [Char.isAlphanum, hAlpha]))
        · simp only [String.reduceToList, List.mem_cons, List.not_mem_nil, or_false] at hEnd
          tauto
  · exact Or.inl (u.host_name.chars c hHost)
  · exact Or.inl (by decide)
  · cases hSome : u.port with
    | none => simp [hSome] at hPort
    | some p =>
        rw [hSome, Option.elim_some, List.mem_cons] at hPort
        rcases hPort with rfl | hDigit
        · exact Or.inr (Or.inl rfl)
        · have hDigits := (u.port_digits p hSome).2 c hDigit
          exact Or.inl (isHostChar_of_isAlphanum (by simp [Char.isAlphanum, hDigits]))

theorem front_ne_nil (u : Url) : u.front ≠ [] := by
  simp [front, u.host_name.ne_nil]

theorem front_not_whitespace (u : Url) : ∀ c ∈ u.front, isWhitespace c = false := by
  intro c hMem
  rcases u.front_chars c hMem with hHost | rfl | rfl
  · exact (hostChar_facts hHost).1
  · decide
  · decide

theorem pathPart_head (u : Url) : ∀ c ∈ u.pathPart.head?, c = '/' := by
  intro c hMem
  cases hPath : u.path with
  | none => simp [pathPart, hPath] at hMem
  | some p => simpa [pathPart, hPath, eq_comm] using hMem

/-- White space can only be trimmed off the path. -/
theorem trim_line (u : Url) :
    trim u.line = u.front ++ u.pathPart.rdropWhile isWhitespace := by
  have hHead : ∀ c ∈ u.line.head?, isWhitespace c = false := by
    rw [line, List.head?_append_of_ne_nil _ u.front_ne_nil]
    exact fun c hMem => u.front_not_whitespace c (List.mem_of_mem_head? hMem)
  rw [trim, Scan.trim, Scan.dropWhile_of_head hHead, line, Scan.rdropWhile_append]
  split
  case isTrue hNil =>
    have hLast : ∀ c ∈ u.front.getLast?, isWhitespace c = false :=
      fun c hMem => u.front_not_whitespace c (List.mem_of_mem_getLast? hMem)
    rw [Scan.rdropWhile_of_last hLast, hNil, List.append_nil]
  case isFalse => rfl

/-- What follows the host and its dots. -/
theorem tail_head (u : Url) (before : Str) :
    ∀ c ∈ (u.portPart.flatMap toLower ++
      lowercaseFrom before (u.pathPart.rdropWhile isWhitespace)).head?, c = '/' ∨ c = ':' := by
  intro c hMem
  cases hPort : u.port with
  | some p =>
      have hColon : toLower ':' = [':'] := by decide
      rw [portPart, hPort, Option.elim_some, List.flatMap_cons, hColon] at hMem
      exact Or.inr (Option.some.inj hMem).symm
  | none =>
      rw [portPart, hPort, Option.elim_none, List.flatMap_nil, List.nil_append] at hMem
      cases hPath : u.pathPart.rdropWhile isWhitespace with
      | nil => simp [hPath, lowercaseFrom] at hMem
      | cons d rest =>
          have hHead : d ∈ (u.pathPart.rdropWhile isWhitespace).head? := by simp [hPath]
          obtain rfl := u.pathPart_head d (Scan.head_of_head_rdropWhile hHead)
          have hSlash : toLower '/' = ['/'] := by decide
          rw [hPath, lowercaseFrom, if_neg (by decide), hSlash] at hMem
          exact Or.inl (Option.some.inj hMem).symm

/-- Behind the scheme, the line in lowercase begins with the host. -/
theorem lowercase_line (u : Url) : ∃ rest, BeginsWith (toLowercase u.host) rest ∧
    toLowercase (trim u.line) = u.schemePart.flatMap toLower ++ rest := by
  have hSigma : 'Σ' ∉ u.front := by
    intro hMem
    rcases u.front_chars 'Σ' hMem with hHost | hEq | hEq
    · simp [isHostChar] at hHost
    · exact absurd hEq (by decide)
    · exact absurd hEq (by decide)
  have hDots : (List.replicate u.dots '.').flatMap toLower = List.replicate u.dots '.' := by
    have hDot : toLower '.' = ['.'] := by decide
    simp [List.flatMap_replicate, hDot]
  let tail := u.portPart.flatMap toLower ++
    lowercaseFrom u.front.reverse (u.pathPart.rdropWhile isWhitespace)
  refine ⟨toLowercase u.host ++ List.replicate u.dots '.' ++ tail, ?_, ?_⟩
  · exact ⟨[], [], List.replicate u.dots '.', tail, by simp, by simp, by simp,
      fun c hMem => (List.mem_replicate.mp hMem).2, u.tail_head u.front.reverse⟩
  · rw [trim_line, toLowercase, lowercaseFrom_append hSigma, List.append_nil]
    simp only [front, List.flatMap_append, hDots, toLowercase,
      lowercaseFrom_of_hostChars u.host_name.chars, List.append_assoc, tail]

theorem cutScheme_of_scheme (u : Url) {s rest : Str} (hScheme : u.scheme = some s) :
    cutScheme (u.schemePart.flatMap toLower ++ rest) = rest := by
  have hColon : ':' ∉ s.flatMap toLower := by
    intro hMem
    obtain ⟨c, hLetter, hLower⟩ := List.mem_flatMap.mp hMem
    obtain rfl := toLower_of_isPlain (by decide) hLower
    exact absurd (u.scheme_letters s hScheme ':' hLetter) (by decide)
  have hEnd : "://".toList.flatMap toLower = "://".toList := by decide
  rw [schemePart, hScheme, Option.elim_some, List.flatMap_append, hEnd]
  exact cutScheme_of_afterScheme (afterScheme_of_no_colon hColon rest)

/-- What `normalize` makes of the line. -/
theorem normalize_line_iff (u : Url) :
    normalize (trim u.line) = toLowercase u.host ↔ u.scheme.isSome ∨
      ∀ rest, AfterScheme (toLowercase (trim u.line)) rest →
        BeginsWith (toLowercase u.host) rest := by
  have hTrim : trim (trim u.line) = trim u.line := trim_eq_self (Scan.trimmed_trim _ _)
  rw [normalize_eq_hostOf, hTrim, hostOf_eq_iff u.host_name.toLowercase]
  obtain ⟨rest, hHost, hText⟩ := u.lowercase_line
  cases hScheme : u.scheme with
  | some s =>
      rw [hText, u.cutScheme_of_scheme hScheme]
      exact iff_of_true hHost (Or.inl rfl)
  | none =>
      have hWhole : toLowercase (trim u.line) = rest := by
        rw [hText, schemePart, hScheme]
        rfl
      rw [hWhole]
      rcases cutScheme_cases rest with hCut | ⟨hCut, hNone⟩
      · refine ⟨fun hBegins => Or.inr fun rest' hRest' => hRest'.unique hCut ▸ hBegins, ?_⟩
        rintro (hSome | hAll)
        · cases hSome
        · exact hAll _ hCut
      · rw [hCut]
        exact iff_of_true hHost (Or.inr fun rest' hRest' => absurd hRest' (hNone rest'))

theorem newline_notMem_line (u : Url) : '\n' ∉ u.line := by
  intro hMem
  rcases List.mem_append.mp hMem with hFront | hPath
  · exact absurd (u.front_not_whitespace '\n' hFront) (by decide)
  · cases hSome : u.path with
    | none => simp [pathPart, hSome] at hPath
    | some p =>
        rw [pathPart, hSome, Option.elim_some, List.mem_cons] at hPath
        rcases hPath with hSlash | hText
        · exact absurd hSlash (by decide)
        · exact u.path_line p hSome hText

/-- The line is neither a comment nor a wildcard. -/
theorem addLine_line (u : Url) (bl : Blocklist) : addLine bl u.line =
    if (normalize (trim u.line)).isEmpty then bl
    else { bl with exact := insert (normalize (trim u.line)) bl.exact } := by
  obtain ⟨c, rest, hFront⟩ := List.exists_cons_of_ne_nil u.front_ne_nil
  obtain ⟨more, hLine⟩ : ∃ more, trim u.line = c :: more := ⟨_, by rw [u.trim_line, hFront]; rfl⟩
  have hFirst := u.front_chars c (by simp [hFront])
  have hComment : c ≠ '#' := by
    rintro rfl
    revert hFirst
    decide
  have hStar : stripPrefix wildcardPrefix (trim u.line) = none := by
    rw [stripPrefix_eq_none_iff, hLine]
    rintro ⟨after, hAfter⟩
    obtain rfl : '*' = c := (List.cons.inj hAfter).1
    revert hFirst
    decide
  have hSkip : ((trim u.line).isEmpty || startsWith ['#'] (trim u.line)) = false := by
    simp [hLine, startsWith, List.isPrefixOf, Ne.symm hComment]
  simp only [addLine, hSkip, hStar, Bool.false_eq_true, if_false]

/-- A pasted URL becomes its host exactly if it has a scheme, or if nothing in
its path could end one, or if what follows the first place that could names the
same host again. -/
theorem fromText_line_iff (u : Url) :
    fromText u.line = ⟨{toLowercase u.host}, ∅⟩ ↔ u.scheme.isSome ∨
      ∀ rest, AfterScheme (toLowercase (trim u.line)) rest →
        BeginsWith (toLowercase u.host) rest := by
  have hNonempty : u.line ≠ [] := by simp [line, u.front_ne_nil]
  rw [fromText, lines_of_no_newline u.newline_notMem_line hNonempty, List.foldl_cons,
    List.foldl_nil, addLine_line, ← normalize_line_iff]
  constructor
  · intro hList
    split at hList
    case isTrue => simp at hList
    case isFalse => simpa using congrArg Blocklist.exact hList
  · intro hHost
    have hName := u.host_name.toLowercase.ne_nil
    simp [hHost, hName]

/-- A host with an address in its query. -/
def linking : Url where
  scheme := none
  host := "example.com".toList
  dots := 0
  port := none
  path := some "?next=https://other.org/".toList
  scheme_letters := by simp
  host_name := ⟨List.all_eq_true.mp (by decide), ⟨'e', by decide⟩, ⟨'m', by decide⟩⟩
  port_digits := by simp
  path_line := by decide

/-- The entry is the host of that address. -/
theorem linking_blocks_other :
    fromText linking.line = ⟨{"other.org".toList}, ∅⟩ ∧
      fromText linking.line ≠ ⟨{toLowercase linking.host}, ∅⟩ := by
  decide +kernel

end Url

end RustDns.Blocklist
