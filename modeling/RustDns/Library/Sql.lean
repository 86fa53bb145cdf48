import Mathlib.Data.List.Infix

/-! As much of SQL as a list of comparisons needs: a lexer, the meaning of
`LIKE` and `=`, and a condition that is a conjunction of comparisons. -/
namespace Sql

abbrev Text := List Char

/-- A word is a keyword, a name or a number; a literal is what a quoted string
stands for. Any other character is a token of its own. -/
inductive Token where
  | word (text : Text)
  | literal (value : Text)
  | symbol (c : Char)
  deriving DecidableEq

/-- Where a lexer stands: between tokens, in a word, in a literal, after a quote
in a literal, after a backslash in a literal. -/
inductive Mode where
  | between
  | word (text : Text)
  | literal (value : Text)
  | quote (value : Text)
  | escape (value : Text)

def isWordChar (c : Char) : Bool := c.isAlphanum || c == '_'

/-- The first character of something new. -/
def Mode.start (c : Char) : List Token × Mode :=
  if c.isWhitespace then ([], .between)
  else if c = '\'' then ([], .literal [])
  else if isWordChar c then ([], .word [c])
  else ([.symbol c], .between)

/-- One character. With backslash escapes, `escapes` says what an escaped
character stands for; without them a backslash is a character like others. -/
def Mode.next (escapes : Option (Char → Text)) (c : Char) : Mode → List Token × Mode
  | .between => start c
  | .word text =>
      if isWordChar c then ([], .word (text ++ [c]))
      else (.word text :: (start c).1, (start c).2)
  | .literal value =>
      if c = '\'' then ([], .quote value)
      else if c = '\\' ∧ escapes.isSome then ([], .escape value)
      else ([], .literal (value ++ [c]))
  | .quote value =>
      -- a doubled quote stands for one, any other character comes after the literal
      if c = '\'' then ([], .literal (value ++ ['\'']))
      else (.literal value :: (start c).1, (start c).2)
  | .escape value => ([], .literal (value ++ (escapes.map fun decode => decode c).getD [c]))

/-- The end of the text, which must not fall into a literal. -/
def Mode.finish : Mode → Option (List Token)
  | .between => some []
  | .word text => some [.word text]
  | .quote value => some [.literal value]
  | .literal _ | .escape _ => none

def scan (escapes : Option (Char → Text)) : Mode → Text → List Token × Mode
  | mode, [] => ([], mode)
  | mode, c :: rest =>
      let (first, mode) := mode.next escapes c
      let (more, mode) := scan escapes mode rest
      (first ++ more, mode)

def lex (escapes : Option (Char → Text)) (text : Text) : Option (List Token) :=
  let (tokens, mode) := scan escapes .between text
  mode.finish.map (tokens ++ ·)

section Lexing

variable {escapes : Option (Char → Text)}

theorem scan_append (mode : Mode) (front back : Text) :
    scan escapes mode (front ++ back) =
      ((scan escapes mode front).1 ++ (scan escapes (scan escapes mode front).2 back).1,
        (scan escapes (scan escapes mode front).2 back).2) := by
  induction front generalizing mode with
  | nil => rfl
  | cons c rest ih => simp only [List.cons_append, scan, ih, List.append_assoc]

theorem scan_trans {mode middle last : Mode} {front back : Text} {before after : List Token}
    (hFront : scan escapes mode front = (before, middle))
    (hBack : scan escapes middle back = (after, last)) :
    scan escapes mode (front ++ back) = (before ++ after, last) := by
  rw [scan_append, hFront, hBack]

theorem scan_cons {mode middle last : Mode} {c : Char} {rest : Text} {first more : List Token}
    (hFirst : mode.next escapes c = (first, middle))
    (hRest : scan escapes middle rest = (more, last)) :
    scan escapes mode (c :: rest) = (first ++ more, last) := by
  rw [scan, hFirst]
  dsimp only
  rw [hRest]

/-- Text that ends between two tokens is read on its own. -/
theorem lex_append {front : Text} {before : List Token}
    (hFront : scan escapes .between front = (before, .between)) (back : Text) :
    lex escapes (front ++ back) = (lex escapes back).map (before ++ ·) := by
  simp only [lex, scan_append, hFront, List.append_assoc, Option.map_map, Function.comp_def]

/-- Text in the middle that a space ends is read on its own. -/
theorem lex_around {before clause after : Text} {first middle last : List Token}
    (hBefore : scan escapes .between before = (first, .between))
    (hClause : scan escapes .between (clause ++ [' ']) = (middle, .between))
    (hAfter : scan escapes .between after = (last, .between)) (rest : Text) :
    lex escapes (before ++ clause ++ ' ' :: after ++ rest) =
      (lex escapes rest).map (first ++ middle ++ last ++ ·) := by
  have hFront := scan_trans (scan_trans hBefore hClause) hAfter
  rw [← lex_append hFront rest]
  simp

theorem lex_of_scan {text : Text} {tokens : List Token}
    (hScan : scan escapes .between text = (tokens, .between)) :
    lex escapes text = some tokens := by
  simp [lex, hScan, Mode.finish]

/-- White space at the end changes nothing, in a literal it is too late. -/
theorem lex_append_space (text : Text) : lex escapes (text ++ [' ']) = lex escapes text := by
  have hSpace : Mode.start ' ' = ([], .between) := rfl
  have hWord : isWordChar ' ' = false := by decide
  simp only [lex, scan_append, scan]
  generalize (scan escapes .between text).2 = mode
  cases mode <;> simp [Mode.next, hSpace, hWord, Mode.finish]

theorem scan_word {more : Text} (hWord : ∀ c ∈ more, isWordChar c) (text : Text) :
    scan escapes (.word text) more = ([], .word (text ++ more)) := by
  induction more generalizing text with
  | nil => simp [scan]
  | cons c rest ih =>
      have hFirst : Mode.next escapes c (.word text) = ([], .word (text ++ [c])) := by
        simp [Mode.next, hWord c List.mem_cons_self]
      have hRest := ih (fun d hMem => hWord d (List.mem_cons_of_mem c hMem)) (text ++ [c])
      simpa using scan_cons hFirst hRest

theorem start_word {c : Char} (hWord : isWordChar c) : Mode.start c = ([], .word [c]) := by
  have hSpace : c.isWhitespace = false := by
    by_contra hWhite
    simp only [Char.isWhitespace, Bool.not_eq_false, Bool.or_eq_true, decide_eq_true_eq] at hWhite
    rcases hWhite with ((rfl | rfl) | rfl) | rfl <;> simp [isWordChar] at hWord
  have hQuote : c ≠ '\'' := by
    rintro rfl
    simp [isWordChar] at hWord
  simp [Mode.start, hSpace, hQuote, hWord]

/-- A whole word. -/
theorem scan_between_word {text : Text} (hNonempty : text ≠ [])
    (hWord : ∀ c ∈ text, isWordChar c) :
    scan escapes .between text = ([], .word text) := by
  obtain ⟨c, rest, rfl⟩ := List.exists_cons_of_ne_nil hNonempty
  have hFirst : Mode.next escapes c .between = ([], .word [c]) :=
    start_word (hWord c List.mem_cons_self)
  have hRest : ∀ d ∈ rest, isWordChar d := fun d hMem => hWord d (List.mem_cons_of_mem c hMem)
  exact scan_cons hFirst (scan_word hRest [c])

/-- A text with every quote doubled. -/
def doubled (text : Text) : Text := text.flatMap fun c => if c = '\'' then ['\'', '\''] else [c]

theorem doubled_append (front back : Text) : doubled (front ++ back) = doubled front ++ doubled back :=
  List.flatMap_append

/-- Between quotes a text with its quotes doubled stands for itself, as long as
it has no backslash. -/
theorem scan_doubled {text : Text} (hBackslash : '\\' ∉ text) (value : Text) :
    scan escapes (.literal value) (doubled text) = ([], .literal (value ++ text)) := by
  induction text generalizing value with
  | nil => simp [doubled, scan]
  | cons c rest ih =>
      obtain ⟨hFirst, hRest⟩ := not_or.mp (mt List.mem_cons.mpr hBackslash)
      have hStep : scan escapes (.literal value) (doubled [c]) = ([], .literal (value ++ [c])) := by
        by_cases hQuote : c = '\''
        · subst c
          rfl
        · simp [doubled, hQuote, scan, Mode.next, Ne.symm hFirst]
      rw [← List.singleton_append, doubled_append]
      simpa using scan_trans hStep (ih hRest (value ++ [c]))

end Lexing

/-- `LIKE`: a percent sign stands for any text, an underscore for any
character. -/
def like : Text → Text → Bool
  | [], text => text.isEmpty
  | c :: pattern, text =>
      if c = '%' then text.tails.any fun tail => like pattern tail
      else
        match text with
        | [] => false
        | d :: rest => (c = '_' || c = d) && like pattern rest

section Patterns

theorem like_percent {pattern text : Text} :
    like ('%' :: pattern) text ↔ ∃ tail, tail <:+ text ∧ like pattern tail := by
  simp [like]

theorem like_any (text : Text) : like ['%'] text :=
  like_percent.mpr ⟨[], List.nil_suffix, rfl⟩

theorem like_append {front back text more : Text} (hFront : like front text)
    (hBack : like back more) : like (front ++ back) (text ++ more) := by
  induction front generalizing text with
  | nil =>
      rw [List.isEmpty_iff.mp hFront]
      exact hBack
  | cons c pattern ih =>
      by_cases hPercent : c = '%'
      · subst c
        obtain ⟨tail, ⟨skipped, rfl⟩, hLike⟩ := like_percent.mp hFront
        exact like_percent.mpr ⟨tail ++ more, ⟨skipped, by simp⟩, ih hLike⟩
      · cases text with
        | nil => simp [like, hPercent] at hFront
        | cons d rest =>
            simp only [like, hPercent, if_false, Bool.and_eq_true, List.cons_append] at hFront ⊢
            exact ⟨hFront.1, ih hFront.2⟩

theorem like_self (text : Text) : like text text := by
  induction text with
  | nil => rfl
  | cons c rest ih =>
      have hFirst : like [c] [c] := by
        by_cases hPercent : c = '%'
        · subst c
          exact like_any _
        · simp [like, hPercent]
      exact like_append hFirst ih

/-- A text the pattern matches, in the middle of others. -/
theorem like_between {pattern text : Text} (hLike : like pattern text) (front back : Text) :
    like ('%' :: pattern ++ ['%']) (front ++ text ++ back) :=
  like_append (like_append (like_any front) hLike) (like_any back)

def isWildcard (c : Char) : Bool := c == '%' || c == '_'

theorem like_plain_append {plain pattern text : Text} (hPlain : ∀ c ∈ plain, isWildcard c = false) :
    like (plain ++ pattern) text ↔ ∃ rest, text = plain ++ rest ∧ like pattern rest := by
  induction plain generalizing text with
  | nil => simp
  | cons c more ih =>
      have hFirst := hPlain c List.mem_cons_self
      simp only [isWildcard, Bool.or_eq_false_iff, beq_eq_false_iff_ne] at hFirst
      have hMore : ∀ d ∈ more, isWildcard d = false :=
        fun d hMem => hPlain d (List.mem_cons_of_mem c hMem)
      cases text with
      | nil => simp [like, hFirst.1]
      | cons d rest =>
          simp only [List.cons_append, like, hFirst.1, hFirst.2, if_false, decide_false,
            Bool.false_or, Bool.and_eq_true, decide_eq_true_eq, List.cons.injEq, ih hMore,
            exists_and_left, and_assoc, eq_comm (a := d)]

/-- Without a wildcard of its own, what stands between two percent signs is
looked for anywhere. -/
theorem like_contains {plain text : Text} (hPlain : ∀ c ∈ plain, isWildcard c = false) :
    like ('%' :: plain ++ ['%']) text ↔ plain <:+: text := by
  constructor
  · intro hLike
    obtain ⟨tail, ⟨front, rfl⟩, hTail⟩ := like_percent.mp hLike
    obtain ⟨back, rfl, -⟩ := (like_plain_append hPlain).mp hTail
    exact ⟨front, back, by simp⟩
  · rintro ⟨front, back, rfl⟩
    exact like_between (like_self plain) front back

/-- A pattern between two percent signs finds nothing but itself only if it has
no wildcard. -/
theorem isWildcard_of_contains {pattern : Text}
    (hContains : ∀ text, like ('%' :: pattern ++ ['%']) text → pattern <:+: text) :
    ∀ c ∈ pattern, isWildcard c = false := by
  intro c hMem
  obtain ⟨front, back, rfl⟩ := List.append_of_mem hMem
  have hFinds : ∀ middle, like [c] middle → front ++ c :: back <:+: front ++ middle ++ back := by
    intro middle hMiddle
    have hLike : like (front ++ c :: back) (front ++ middle ++ back) := by
      simpa using like_append (like_append (like_self front) hMiddle) (like_self back)
    simpa using hContains _ (like_between hLike [] [])
  by_contra hWild
  simp only [isWildcard, Bool.not_eq_false, Bool.or_eq_true, beq_iff_eq] at hWild
  rcases hWild with rfl | rfl
  · -- a percent sign may stand for nothing
    have hLength := (hFinds [] (like_any [])).length_le
    simp only [List.length_append, List.length_cons, List.length_nil] at hLength
    omega
  · -- an underscore may stand for another character of the same length
    have hInfix := hFinds ['a'] rfl
    have hSame := hInfix.eq_of_length (by simp)
    simp at hSame

end Patterns

inductive Operator where
  | like
  | eq
  deriving DecidableEq

structure Comparison where
  column : Text
  operator : Operator
  value : Text
  deriving DecidableEq

def Operator.tokens : Operator → List Token
  | .like => [.word "LIKE".toList]
  | .eq => [.symbol '=']

def Comparison.tokens (c : Comparison) : List Token :=
  .word c.column :: c.operator.tokens ++ [.literal c.value]

def Operator.text : Operator → Text
  | .like => " LIKE ".toList
  | .eq => " = ".toList

theorem Operator.text_like : Operator.like.text = " LIKE ".toList := rfl

theorem Operator.text_eq : Operator.eq.text = " = ".toList := rfl

/-- A comparison as it is written. -/
def Comparison.text (c : Comparison) : Text :=
  c.column ++ c.operator.text ++ '\'' :: doubled c.value ++ ['\'']

/-- A name for a column, and a value that is safe between quotes. -/
structure Comparison.Safe (c : Comparison) : Prop where
  column_ne_nil : c.column ≠ []
  column_word : ∀ ch ∈ c.column, isWordChar ch
  value_plain : '\\' ∉ c.value

/-- A comparison is read as it was meant, up to white space after it. -/
theorem scan_comparison {escapes : Option (Char → Text)} {c : Comparison} (hSafe : c.Safe) :
    scan escapes .between (c.text ++ [' ']) = (c.tokens, .between) := by
  have hColumn : scan escapes .between c.column = ([], .word c.column) :=
    scan_between_word hSafe.column_ne_nil hSafe.column_word
  have hOperator : scan escapes (.word c.column) (c.operator.text ++ ['\'']) =
      (.word c.column :: c.operator.tokens, .literal []) := by
    cases c.operator <;> rfl
  have hValue : scan escapes (.literal []) (doubled c.value) = ([], .literal c.value) :=
    scan_doubled hSafe.value_plain []
  have hEnd : scan escapes (.literal c.value) ['\'', ' '] = ([.literal c.value], .between) := rfl
  have hAll := scan_trans (scan_trans (scan_trans hColumn hOperator) hValue) hEnd
  simpa [Comparison.text, Comparison.tokens] using hAll

/-- What a `WHERE` clause says, and nothing if there is nothing to compare. -/
def whereTokens : List Comparison → List Token
  | [] => []
  | c :: rest => .word "WHERE".toList :: c.tokens ++ andTokens rest
where
  andTokens : List Comparison → List Token
    | [] => []
    | c :: rest => .word "AND".toList :: c.tokens ++ andTokens rest

theorem scan_joined {escapes : Option (Char → Text)} {c : Comparison} {rest : List Comparison}
    (hSafe : ∀ d ∈ c :: rest, d.Safe) :
    scan escapes .between
        (" AND ".toList.intercalate ((c :: rest).map Comparison.text) ++ [' ']) =
      (c.tokens ++ whereTokens.andTokens rest, .between) := by
  induction rest generalizing c with
  | nil => simpa [List.intercalate, whereTokens.andTokens] using scan_comparison (hSafe c (by simp))
  | cons d more ih =>
      have hFirst : scan escapes .between (c.text ++ [' ']) = (c.tokens, .between) :=
        scan_comparison (hSafe c List.mem_cons_self)
      have hAnd : scan escapes .between "AND ".toList = ([.word "AND".toList], .between) := rfl
      have hRest := ih fun x hMem => hSafe x (List.mem_cons_of_mem c hMem)
      have hAll := scan_trans (scan_trans hFirst hAnd) hRest
      simpa [List.intercalate, whereTokens.andTokens] using hAll

/-- Whether a row has the value asked for. A row has some of the columns. -/
def Comparison.holds (row : Text → Option Text) (c : Comparison) : Bool :=
  (row c.column).any fun text =>
    match c.operator with
    | .like => like c.value text
    | .eq => text == c.value

/-- Comparisons joined by `AND`. -/
def conjunction : List Token → Option (List Comparison)
  | .word column :: .symbol '=' :: .literal value :: rest =>
      (conjunctionRest rest).map (⟨column, .eq, value⟩ :: ·)
  | .word column :: .word operator :: .literal value :: rest =>
      if operator = "LIKE".toList then (conjunctionRest rest).map (⟨column, .like, value⟩ :: ·)
      else none
  | _ => none
where
  conjunctionRest : List Token → Option (List Comparison)
    | [] => some []
    | .word w :: rest => if w = "AND".toList then conjunction rest else none
    | _ => none

/-- The condition of a `WHERE` clause, if there is a clause. -/
def condition : List Token → Option (List Comparison)
  | [] => some []
  | .word w :: rest => if w = "WHERE".toList then conjunction rest else none
  | _ => none

theorem conjunction_tokens (c : Comparison) (rest : List Token) :
    conjunction (c.tokens ++ rest) = (conjunction.conjunctionRest rest).map (c :: ·) := by
  obtain ⟨column, operator, value⟩ := c
  cases operator <;> simp [Comparison.tokens, Operator.tokens, conjunction]

/-- A clause means the comparisons it was made of. -/
theorem condition_whereTokens (cs : List Comparison) : condition (whereTokens cs) = some cs := by
  have hRest : ∀ rest, conjunction.conjunctionRest (whereTokens.andTokens rest) = some rest := by
    intro rest
    induction rest with
    | nil => rfl
    | cons c more ih =>
        simp [whereTokens.andTokens, conjunction.conjunctionRest, conjunction_tokens, ih]
  cases cs with
  | nil => rfl
  | cons c rest => simp [whereTokens, condition, conjunction_tokens, hRest]

end Sql
