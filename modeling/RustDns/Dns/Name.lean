import RustDns.Text.Str

/-! Domain names on the wire and their text form. The text form belongs to
the DNS library and follows its rules byte by byte; its IDNA decoder is a
parameter. -/
namespace RustDns

open Unicode

/-- The bytes of one label. -/
abbrev Label := List UInt8

namespace Label

/-- `u8::to_ascii_lowercase`. -/
def lowerByte (b : UInt8) : UInt8 := if 65 ≤ b ∧ b ≤ 90 then b + 32 else b

def lower (l : Label) : Label := l.map lowerByte

def dot : UInt8 := 46

def hyphen : UInt8 := 45

def isAlphanumeric (b : UInt8) : Bool :=
  (48 ≤ b && b ≤ 57) || (65 ≤ b && b ≤ 90) || (97 ≤ b && b ≤ 122)

/-- The bytes of host names: letters, digits, hyphen and underscore. -/
def isHostByte (b : UInt8) : Bool := isAlphanumeric b || b == hyphen || b == 95

/-- `is_safe_ascii`: the bytes that are printed as they are. A hyphen is one
anywhere but in front, an asterisk in front only. -/
def isSafeAscii (first : Bool) (b : UInt8) : Bool :=
  isAlphanumeric b || (if first then b == 42 else b == hyphen) || b == 95

def byteChar (b : UInt8) : Char := Char.ofNat b.toNat

def octalDigit (n : Nat) : Char := Char.ofNat (48 + n % 8)

/-- Other bytes follow a backslash: printable ones as they are, the rest as
three octal digits. -/
def escapeByte (first : Bool) (b : UInt8) : Str :=
  if isSafeAscii first b then [byteChar b]
  else if 0x20 < b && b < 0x7F then ['\\', byteChar b]
  else ['\\', octalDigit (b.toNat / 64), octalDigit (b.toNat / 8), octalDigit b.toNat]

/-- `Label::write_ascii`: the first byte has rules of its own, by which a hyphen
is escaped there and an asterisk is not. -/
def writeAscii : Label → Str
  | [] => []
  | b :: rest => escapeByte true b ++ rest.flatMap (escapeByte false)

/-- The ASCII-compatible prefix `xn--`. It is looked for in lowercase only. -/
def idnaPrefix : Label := [120, 110, 45, 45]

end Label

/-- A name as its labels, none of which is empty. The root has none. -/
structure Name where
  labels : List Label
  nonempty : ∀ l ∈ labels, l ≠ []

/-- The IDNA decoder of the DNS library: what a label with the prefix decodes
to, if it does. -/
structure Idna where
  toUnicode : Label → Option Str

/-- The bytes of the label are ASCII and none of them is a dot. Other labels
may be mapped to several labels before they are decoded. -/
def Label.IsPlain (l : Label) : Prop := ∀ b ∈ l, b < 128 ∧ b ≠ Label.dot

/-- What the standard promises of the decoder. A decoded label has a character
outside ASCII other than the Kelvin sign, which is never valid in a label, and
no capital sigma. A plain label decodes to one label, and different plain labels
decode differently up to case. -/
structure Idna.Standard (idna : Idna) : Prop where
  unicode : ∀ (l : Label) u, Label.idnaPrefix <+: l → idna.toUnicode l = some u →
    ∃ c ∈ u, 128 ≤ c.toNat ∧ c.toNat ≠ 0x212A
  sigma : ∀ (l : Label) u, Label.idnaPrefix <+: l → idna.toUnicode l = some u → 'Σ' ∉ u
  dotFree : ∀ (l : Label) u, Label.idnaPrefix <+: l → l.IsPlain → idna.toUnicode l = some u → '.' ∉ u
  injective : ∀ (l l' : Label) u u', Label.idnaPrefix <+: l → Label.idnaPrefix <+: l' →
    l.IsPlain → l'.IsPlain → idna.toUnicode l = some u → idna.toUnicode l' = some u' →
    u.flatMap toLower = u'.flatMap toLower → l.lower = l'.lower

/-- The decoder that decodes nothing: every label is printed by it as it
stands. -/
def Idna.never : Idna := ⟨fun _ => none⟩

theorem Idna.standard_never : Idna.never.Standard where
  unicode := by simp [never]
  sigma := by simp [never]
  dotFree := by simp [never]
  injective := by simp [never]

namespace Label

variable (idna : Idna)

/-- The text a label decodes to, when it has the prefix and decodes. Such a label
is printed decoded, with nothing escaped. -/
def decoded (l : Label) : Option Str :=
  if idnaPrefix.isPrefixOf l then idna.toUnicode l else none

/-- A label as it is printed: decoded, or else byte by byte. -/
def text (l : Label) : Str := (l.decoded idna).getD l.writeAscii

/-- The label as it enters a lowercased name. -/
def lowerText (l : Label) : Str := (l.text idna).flatMap toLower

end Label

namespace Name

variable (idna : Idna)

/-- `Name::to_string` of a fully qualified name: every label is printed by itself
and a dot follows it, and the root is a dot. -/
def toString (n : Name) : Str :=
  if n.labels = [] then ['.'] else n.labels.flatMap fun l => l.text idna ++ ['.']

/-- The name as `handle` looks it up and logs it. -/
def canonical (n : Name) : Str :=
  Str.toLowercase (Str.trimEndMatches '.' (n.toString idna))

end Name

namespace Label

private theorem forall_byte {P : UInt8 → Prop} (h : ∀ n < 256, P (UInt8.ofNat n)) (b : UInt8) :
    P b := by
  have hb := h b.toNat b.toNat_lt
  rwa [UInt8.ofNat_toNat] at hb

/-- Bytes as characters, in lowercase and in host names, checked one by one. -/
private theorem byte_table : ∀ b : UInt8,
    (byteChar b).toNat = b.toNat ∧ lowerByte (lowerByte b) = lowerByte b ∧
      (lowerByte b = hyphen → b = hyphen) ∧ isHostByte (lowerByte b) = isHostByte b ∧
      (isHostByte b = true → b < 128 ∧ b ≠ dot ∧ (b ≠ hyphen → isSafeAscii true b = true)) :=
  forall_byte (by decide +kernel)

/-- Bytes as they are printed, in front of a label and further in. -/
private theorem escape_table : ∀ (b : UInt8) (first : Bool),
    (escapeByte first b).flatMap toLower = escapeByte first (lowerByte b) ∧
      (escapeByte first b).all (fun c => c.toNat < 128) = true ∧
      (escapeByte first b).headD '.' ≠ '.' ∧
      ('.' ∈ escapeByte first b → b = dot) :=
  forall_byte (by decide +kernel)

/-- The bytes that are printed as they are. -/
private theorem safe_table : ∀ (b : UInt8) (first : Bool),
    (48 ≤ b.toNat → b.toNat ≤ 55 → isSafeAscii first b = true) ∧
      (isSafeAscii first b = true → byteChar b ≠ '\\') :=
  forall_byte (by decide +kernel)

theorem byteChar_toNat (b : UInt8) : (byteChar b).toNat = b.toNat := (byte_table b).1

theorem byteChar_injective {a b : UInt8} (h : byteChar a = byteChar b) : a = b := by
  rw [← UInt8.toNat_inj, ← byteChar_toNat, ← byteChar_toNat, h]

theorem octalDigit_toNat (n : Nat) : (octalDigit n).toNat = 48 + n % 8 := by
  have hAll : ∀ m < 8, (Char.ofNat (48 + m)).toNat = 48 + m := by decide
  exact hAll (n % 8) (Nat.mod_lt n (by omega))

/-- Inside a label the bytes of host names are the ones printed as they are. -/
theorem isSafeAscii_false (b : UInt8) : isSafeAscii false b = isHostByte b := by
  simp [isSafeAscii, isHostByte]

theorem isSafeAscii_true (b : UInt8) (hHost : isHostByte b = true) (hb : b ≠ hyphen) :
    isSafeAscii true b = true := by
  obtain ⟨-, -, -, -, hTable⟩ := byte_table b
  exact (hTable hHost).2.2 hb

/-- Of the bytes printed as they are in front, only the asterisk is none of a
host name. -/
theorem host_of_isSafeAscii_true : ∀ b : UInt8, isSafeAscii true b = true → byteChar b ≠ '*' →
    isHostByte b = true ∧ b ≠ hyphen :=
  forall_byte (by decide +kernel)

theorem isSafeAscii_of_octal (first : Bool) (b : UInt8) (hLow : 48 ≤ b.toNat) (hHigh : b.toNat ≤ 55) :
    isSafeAscii first b = true :=
  (safe_table b first).1 hLow hHigh

/-- Lowercasing the text of a byte gives the text of the byte in lowercase. -/
theorem toLower_escapeByte (first : Bool) (b : UInt8) :
    (escapeByte first b).flatMap toLower = escapeByte first (lowerByte b) :=
  (escape_table b first).1

theorem ascii_of_mem_escapeByte {first : Bool} {b : UInt8} {c : Char} (hc : c ∈ escapeByte first b) :
    c.toNat < 128 :=
  of_decide_eq_true (List.all_eq_true.mp (escape_table b first).2.1 c hc)

theorem head_escapeByte (first : Bool) (b : UInt8) :
    ∃ c rest, escapeByte first b = c :: rest ∧ c ≠ '.' := by
  obtain ⟨-, -, hHead, -⟩ := escape_table b first
  cases hb : escapeByte first b with
  | nil => exact absurd (by simp [hb]) hHead
  | cons c rest => exact ⟨c, rest, rfl, by simpa [hb] using hHead⟩

theorem escapeByte_of_safe {first : Bool} {b : UInt8} (hb : isSafeAscii first b = true) :
    escapeByte first b = [byteChar b] := by
  simp [escapeByte, hb]

/-- The two ways a byte that is not printed as it is can be escaped. -/
theorem escapeByte_of_not_safe {first : Bool} {b : UInt8} (hb : isSafeAscii first b = false) :
    escapeByte first b = ['\\', byteChar b] ∨
      escapeByte first b =
        ['\\', octalDigit (b.toNat / 64), octalDigit (b.toNat / 8), octalDigit b.toNat] := by
  unfold escapeByte
  rw [if_neg (by simp [hb])]
  split
  · exact Or.inl rfl
  · exact Or.inr rfl

theorem backslash_mem_escapeByte {first : Bool} {b : UInt8} (hb : isSafeAscii first b = false) :
    '\\' ∈ escapeByte first b := by
  rcases escapeByte_of_not_safe hb with h | h <;> simp [h]

theorem backslash_ne_of_safe (first : Bool) (b : UInt8) (hSafe : isSafeAscii first b = true) :
    byteChar b ≠ '\\' :=
  (safe_table b first).2 hSafe

theorem host_ne : ∀ b : UInt8, isHostByte b = true →
    byteChar b ≠ '.' ∧ byteChar b ≠ '\\' ∧ isWhitespace (byteChar b) = false ∧
      byteChar b ≠ '/' ∧ byteChar b ≠ ':' ∧ byteChar b ≠ '#' ∧ byteChar b ≠ '*' ∧
      byteChar b ≠ '\n' :=
  forall_byte (by decide +kernel)

theorem plain_of_host (b : UInt8) (hHost : isHostByte b = true) : b < 128 ∧ b ≠ dot := by
  obtain ⟨-, -, -, -, hTable⟩ := byte_table b
  obtain ⟨hAscii, hDot, -⟩ := hTable hHost
  exact ⟨hAscii, hDot⟩

theorem isHostByte_lowerByte (b : UInt8) : isHostByte (lowerByte b) = isHostByte b :=
  (byte_table b).2.2.2.1

theorem lowerByte_lowerByte (b : UInt8) : lowerByte (lowerByte b) = lowerByte b :=
  (byte_table b).2.1

theorem lowerByte_eq_hyphen (b : UInt8) (hb : lowerByte b = hyphen) : b = hyphen :=
  (byte_table b).2.2.1 hb

theorem byteChar_ne_octalDigit {first : Bool} {b : UInt8} (hb : isSafeAscii first b = false)
    (n : Nat) : byteChar b ≠ octalDigit n := by
  intro hEq
  have hCode := congrArg Char.toNat hEq
  rw [byteChar_toNat, octalDigit_toNat] at hCode
  have hSafe := isSafeAscii_of_octal first b (by omega) (by omega)
  simp [hb] at hSafe

/-- Three octal digits are enough to tell two bytes apart. -/
theorem octalDigits_injective {a b : UInt8}
    (h₂ : octalDigit (a.toNat / 64) = octalDigit (b.toNat / 64))
    (h₁ : octalDigit (a.toNat / 8) = octalDigit (b.toNat / 8))
    (h₀ : octalDigit a.toNat = octalDigit b.toNat) : a = b := by
  have hHigh := congrArg Char.toNat h₂
  have hMiddle := congrArg Char.toNat h₁
  have hLow := congrArg Char.toNat h₀
  simp only [octalDigit_toNat] at hHigh hMiddle hLow
  have ha := a.toNat_lt
  have hb := b.toNat_lt
  rw [← UInt8.toNat_inj]
  omega

/-- A byte printed as it is and an escaped byte start differently. -/
theorem safe_append_ne {first : Bool} {a b : UInt8} (ha : isSafeAscii first a = true)
    (hb : isSafeAscii first b = false) (s t : Str) :
    escapeByte first a ++ s ≠ escapeByte first b ++ t := by
  have hNot := backslash_ne_of_safe first a ha
  rcases escapeByte_of_not_safe hb with hEsc | hEsc <;>
    simp [escapeByte_of_safe ha, hEsc, hNot]

/-- Escaped bytes form a prefix code: the first byte of a text is determined
by how the text starts. -/
theorem escapeByte_append_inj {first : Bool} {a b : UInt8} {s t : Str}
    (h : escapeByte first a ++ s = escapeByte first b ++ t) : a = b ∧ s = t := by
  have hBytes : a = b := by
    cases ha : isSafeAscii first a <;> cases hb : isSafeAscii first b
    · rcases escapeByte_of_not_safe ha with hEsc | hEsc <;>
        rcases escapeByte_of_not_safe hb with hEsc' | hEsc' <;> rw [hEsc, hEsc'] at h <;>
        simp only [List.cons_append, List.nil_append, List.cons.injEq, true_and] at h
      · exact byteChar_injective h.1
      · exact absurd h.1 (byteChar_ne_octalDigit ha _)
      · exact absurd h.1.symm (byteChar_ne_octalDigit hb _)
      · exact octalDigits_injective h.1 h.2.1 h.2.2.1
    · exact absurd h.symm (safe_append_ne hb ha t s)
    · exact absurd h (safe_append_ne ha hb s t)
    · rw [escapeByte_of_safe ha, escapeByte_of_safe hb] at h
      exact byteChar_injective (List.cons.inj h).1
  subst hBytes
  exact ⟨rfl, List.append_cancel_left h⟩

theorem ascii_of_mem_writeAscii {l : Label} {c : Char} (hc : c ∈ l.writeAscii) : c.toNat < 128 := by
  cases l with
  | nil => simp [writeAscii] at hc
  | cons b rest =>
      rcases List.mem_append.mp hc with hFirst | hRest
      · exact ascii_of_mem_escapeByte hFirst
      · obtain ⟨b', -, hMem⟩ := List.mem_flatMap.mp hRest
        exact ascii_of_mem_escapeByte hMem

/-- Without an escape and without an asterisk it is a host label, and no hyphen
comes first. -/
theorem host_of_writeAscii {l : Label} (hBackslash : '\\' ∉ l.writeAscii) (hStar : '*' ∉ l.writeAscii) :
    (∀ b ∈ l, isHostByte b = true) ∧ l.head? ≠ some hyphen := by
  cases l with
  | nil => simp
  | cons b rest =>
      simp only [writeAscii, List.mem_append, not_or] at hBackslash hStar
      have hSafe : isSafeAscii true b = true := by
        by_contra hNot
        exact hBackslash.1 (backslash_mem_escapeByte (by simpa using hNot))
      have hFirst := host_of_isSafeAscii_true b hSafe fun hEq => hStar.1 (by
        rw [escapeByte_of_safe hSafe, hEq]
        exact List.mem_singleton_self _)
      refine ⟨fun b' hMem => ?_, by simpa using hFirst.2⟩
      rcases List.mem_cons.mp hMem with rfl | hRest
      · exact hFirst.1
      · rw [← isSafeAscii_false]
        by_contra hNot
        exact hBackslash.2 (List.mem_flatMap.mpr
          ⟨b', hRest, backslash_mem_escapeByte (by simpa using hNot)⟩)

/-- Nothing but a dot byte is printed with a dot. -/
theorem dot_of_mem_escapeByte (first : Bool) (b : UInt8) (hMem : '.' ∈ escapeByte first b) :
    b = dot :=
  (escape_table b first).2.2.2 hMem

theorem dot_of_mem_writeAscii {l : Label} (hMem : '.' ∈ l.writeAscii) : dot ∈ l := by
  cases l with
  | nil => simp [writeAscii] at hMem
  | cons b rest =>
      rcases List.mem_append.mp hMem with hFirst | hRest
      · exact List.mem_cons.mpr (Or.inl (dot_of_mem_escapeByte true b hFirst).symm)
      · obtain ⟨b', hb', hDot⟩ := List.mem_flatMap.mp hRest
        obtain rfl := dot_of_mem_escapeByte false b' hDot
        exact List.mem_cons_of_mem b hb'

theorem toLower_writeAscii (l : Label) : l.writeAscii.flatMap toLower = l.lower.writeAscii := by
  cases l with
  | nil => rfl
  | cons b rest =>
      simp only [writeAscii, lower, List.map_cons, List.flatMap_append, List.flatMap_assoc,
        List.flatMap_map, toLower_escapeByte]

/-- The bytes behind the first are told apart even when a separator follows. -/
theorem escapeRest_append_inj {l l' : Label} {s t : Str}
    (h : l.flatMap (escapeByte false) ++ '.' :: s = l'.flatMap (escapeByte false) ++ '.' :: t) :
    l = l' ∧ s = t := by
  induction l generalizing l' with
  | nil =>
      cases l' with
      | nil => exact ⟨rfl, (List.cons.inj h).2⟩
      | cons b rest =>
          obtain ⟨c, tail, hHead, hc⟩ := head_escapeByte false b
          simp only [List.flatMap_nil, List.flatMap_cons, hHead] at h
          exact absurd (List.cons.inj h).1.symm hc
  | cons a rest ih =>
      cases l' with
      | nil =>
          obtain ⟨c, tail, hHead, hc⟩ := head_escapeByte false a
          simp only [List.flatMap_nil, List.flatMap_cons, hHead] at h
          exact absurd (List.cons.inj h).1 hc
      | cons b rest' =>
          simp only [List.flatMap_cons, List.append_assoc] at h
          obtain ⟨rfl, hRest⟩ := escapeByte_append_inj h
          obtain ⟨rfl, hTail⟩ := ih hRest
          exact ⟨rfl, hTail⟩

/-- Escaped labels are told apart even when a separator follows. -/
theorem writeAscii_append_inj {l l' : Label} {s t : Str}
    (h : l.writeAscii ++ '.' :: s = l'.writeAscii ++ '.' :: t) : l = l' ∧ s = t := by
  cases l with
  | nil =>
      cases l' with
      | nil => exact ⟨rfl, (List.cons.inj h).2⟩
      | cons b rest =>
          obtain ⟨c, tail, hHead, hc⟩ := head_escapeByte true b
          simp only [writeAscii, hHead] at h
          exact absurd (List.cons.inj h).1.symm hc
  | cons a rest =>
      cases l' with
      | nil =>
          obtain ⟨c, tail, hHead, hc⟩ := head_escapeByte true a
          simp only [writeAscii, hHead] at h
          exact absurd (List.cons.inj h).1 hc
      | cons b rest' =>
          simp only [writeAscii, List.append_assoc] at h
          obtain ⟨rfl, hRest⟩ := escapeByte_append_inj h
          obtain ⟨rfl, hTail⟩ := escapeRest_append_inj hRest
          exact ⟨rfl, hTail⟩

end Label

end RustDns
