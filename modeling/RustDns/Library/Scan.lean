import Mathlib.Data.List.DropRight
import Mathlib.Data.List.Infix

/-! Scanning lists at their ends and at separators. Nothing here depends on
characters; the element type and the predicates are arbitrary. -/
namespace Scan

variable {α : Type*} {p : α → Bool} {l : List α}

/-- Drop the elements satisfying `p` from both ends. -/
def trim (p : α → Bool) (l : List α) : List α := (l.dropWhile p).rdropWhile p

/-- No element satisfying `p` stands at either end. -/
structure Trimmed (p : α → Bool) (l : List α) : Prop where
  head : ∀ x ∈ l.head?, p x = false
  last : ∀ x ∈ l.getLast?, p x = false

theorem dropWhile_of_head (h : ∀ x ∈ l.head?, p x = false) : l.dropWhile p = l := by
  cases l with
  | nil => rfl
  | cons a rest => simp [h a (by simp)]

theorem rdropWhile_of_last (h : ∀ x ∈ l.getLast?, p x = false) : l.rdropWhile p = l := by
  rw [List.rdropWhile_eq_self_iff]
  intro hl
  simp [h _ (List.getLast?_eq_some_getLast hl)]

theorem head_dropWhile {x : α} (hx : x ∈ (l.dropWhile p).head?) : p x = false := by
  have h := List.head?_dropWhile_not p l
  rw [Option.mem_def.mp hx] at h
  exact h

theorem last_rdropWhile {x : α} (hx : x ∈ (l.rdropWhile p).getLast?) : p x = false := by
  rw [List.rdropWhile, List.getLast?_reverse] at hx
  exact head_dropWhile hx

theorem head_of_head_rdropWhile {x : α} (hx : x ∈ (l.rdropWhile p).head?) : x ∈ l.head? := by
  obtain ⟨rest, hRest⟩ := List.rdropWhile_prefix p l
  rw [← hRest, List.head?_append, Option.mem_def.mp hx]
  rfl

theorem trimmed_trim (p : α → Bool) (l : List α) : Trimmed p (trim p l) where
  head := fun _ hx => head_dropWhile (head_of_head_rdropWhile hx)
  last := fun _ hx => last_rdropWhile hx

theorem trim_eq_self (h : Trimmed p l) : trim p l = l := by
  rw [trim, dropWhile_of_head h.head, rdropWhile_of_last h.last]

theorem mem_of_mem_rdropWhile {x : α} (hx : x ∈ l.rdropWhile p) : x ∈ l :=
  (List.rdropWhile_prefix p l).subset hx

theorem mem_rdropWhile {x : α} (hx : x ∈ l) (hKept : p x = false) : x ∈ l.rdropWhile p := by
  have hSplit : x ∈ l.rdropWhile p ++ l.rtakeWhile p := by rwa [List.rdropWhile_append_rtakeWhile]
  rcases List.mem_append.mp hSplit with hFront | hBack
  · exact hFront
  · simp [List.mem_rtakeWhile_imp hBack] at hKept

theorem mem_of_mem_trim {x : α} (hx : x ∈ trim p l) : x ∈ l :=
  List.dropWhile_subset p (mem_of_mem_rdropWhile hx)

theorem rdropWhile_append (p : α → Bool) (front back : List α) :
    (front ++ back).rdropWhile p =
      if back.rdropWhile p = [] then front.rdropWhile p else front ++ back.rdropWhile p := by
  simp only [List.rdropWhile, List.reverse_append, List.dropWhile_append, List.isEmpty_iff,
    List.reverse_eq_nil_iff]
  split <;> simp

/-- Dropping at the front does not change what a trimmed list ends with. -/
theorem getLast?_trim (p : α → Bool) (l : List α) :
    (trim p l).getLast? = (l.rdropWhile p).getLast? := by
  have hSplit : l.rdropWhile p = (l.takeWhile p ++ l.dropWhile p).rdropWhile p := by
    rw [List.takeWhile_append_dropWhile]
  rw [hSplit, rdropWhile_append, ← trim]
  split
  case isTrue hNil =>
    have hFront : (l.takeWhile p).rdropWhile p = [] := by
      rw [List.rdropWhile_eq_nil_iff]
      exact fun x hx => List.mem_takeWhile_imp hx
    rw [hFront, hNil]
  case isFalse hNonempty => rw [List.getLast?_append_of_ne_nil _ hNonempty]

/-- Trimming keeps a prefix made of elements that are never dropped. -/
theorem prefix_rdropWhile {front : List α} (hKept : ∀ x ∈ front, p x = false)
    (hPrefix : front <+: l) : front <+: l.rdropWhile p := by
  obtain ⟨back, rfl⟩ := hPrefix
  rw [rdropWhile_append]
  split
  · rw [rdropWhile_of_last fun x hx => hKept x (List.mem_of_mem_getLast? hx)]
  · exact List.prefix_append _ _

theorem dropWhile_append_of_all {front : List α} (hFront : ∀ x ∈ front, p x)
    (hBack : ∀ x ∈ l.head?, p x = false) : (front ++ l).dropWhile p = l := by
  rw [List.dropWhile_append_of_pos hFront, dropWhile_of_head hBack]

theorem takeWhile_append_of_all {front : List α} (hFront : ∀ x ∈ front, p x)
    (hBack : ∀ x ∈ l.head?, p x = false) : (front ++ l).takeWhile p = front := by
  rw [List.takeWhile_append_of_pos hFront]
  cases l with
  | nil => simp
  | cons a rest => simp [hBack a rfl]

theorem rdropWhile_append_of_all {back : List α} (hFront : ∀ x ∈ l.getLast?, p x = false)
    (hBack : ∀ x ∈ back, p x) : (l ++ back).rdropWhile p = l := by
  rw [rdropWhile_append, if_pos (List.rdropWhile_eq_nil_iff.mpr hBack), rdropWhile_of_last hFront]

/-- What trimming leaves stands between elements that it dropped. -/
theorem trim_eq_iff {kept : List α} (hNonempty : kept ≠ []) (hKept : Trimmed p kept) :
    trim p l = kept ↔
      ∃ front back, l = front ++ kept ++ back ∧ (∀ x ∈ front, p x) ∧ ∀ x ∈ back, p x := by
  constructor
  · rintro rfl
    refine ⟨l.takeWhile p, (l.dropWhile p).rtakeWhile p, ?_, fun x => List.mem_takeWhile_imp,
      fun x => List.mem_rtakeWhile_imp⟩
    rw [trim, List.append_assoc, List.rdropWhile_append_rtakeWhile,
      List.takeWhile_append_dropWhile]
  · rintro ⟨front, back, rfl, hFront, hBack⟩
    have hHead : ∀ x ∈ (kept ++ back).head?, p x = false := by
      rw [List.head?_append_of_ne_nil _ hNonempty]
      exact hKept.head
    rw [trim, List.append_assoc, dropWhile_append_of_all hFront hHead,
      rdropWhile_append_of_all hKept.last hBack]

section Separator

variable {sep : α} {front back e : List α}

/-- Behind the first separator, a suffix that starts with the separator is
the whole rest or a suffix of it. -/
theorem sep_suffix_iff (hFront : sep ∉ front) :
    (sep :: e) <:+ (front ++ sep :: back) ↔ e = back ∨ (sep :: e) <:+ back := by
  induction front with
  | nil => simp [List.suffix_cons_iff]
  | cons a rest ih =>
      have hRest := ih (fun hMem => hFront (List.mem_cons_of_mem a hMem))
      have hHead : a ≠ sep := fun hEq => hFront (by simp [hEq])
      rw [List.cons_append, List.suffix_cons_iff, hRest]
      simp [Ne.symm hHead]

/-- A suffix that starts with the separator lies in the second part, or its
separator lies in the first part. -/
theorem sep_suffix_append_iff :
    (sep :: e) <:+ (front ++ back) ↔
      (sep :: e) <:+ back ∨ ∃ x y, front = x ++ sep :: y ∧ e = y ++ back := by
  constructor
  · intro h
    induction front with
    | nil => exact Or.inl h
    | cons a rest ih =>
        rw [List.cons_append, List.suffix_cons_iff] at h
        rcases h with hHere | hLater
        · obtain ⟨rfl, he⟩ := List.cons.inj hHere
          exact Or.inr ⟨[], rest, rfl, he⟩
        · rcases ih hLater with hBack | ⟨x, y, rfl, he⟩
          · exact Or.inl hBack
          · exact Or.inr ⟨a :: x, y, rfl, he⟩
  · rintro (hBack | ⟨x, y, rfl, rfl⟩)
    · exact List.suffix_append_of_suffix hBack
    · exact ⟨x, by simp⟩

theorem not_sep_suffix (hNone : sep ∉ l) : ¬ (sep :: e) <:+ l := fun hSuffix =>
  hNone (hSuffix.subset (by simp))

/-- Text up to the first separator is determined by the whole text. -/
theorem prefix_of_append_sep_eq {first second s t : List α} (hFirst : sep ∉ first)
    (h : first ++ sep :: s = second ++ sep :: t) : first <+: second := by
  induction first generalizing second with
  | nil => exact List.nil_prefix
  | cons a rest ih =>
      have ha : a ≠ sep := fun hEq => hFirst (by simp [hEq])
      cases second with
      | nil => exact absurd (List.cons.inj h).1 ha
      | cons b tail =>
          obtain ⟨rfl, hTail⟩ := List.cons.inj h
          rw [List.cons_prefix_cons]
          exact ⟨rfl, ih (fun hMem => hFirst (List.mem_cons_of_mem a hMem)) hTail⟩

theorem append_sep_inj {first second s t : List α} (hFirst : sep ∉ first) (hSecond : sep ∉ second)
    (h : first ++ sep :: s = second ++ sep :: t) : first = second ∧ s = t := by
  have hLeft := prefix_of_append_sep_eq hFirst h
  have hRight := prefix_of_append_sep_eq hSecond h.symm
  obtain rfl := hLeft.eq_of_length_le hRight.length_le
  exact ⟨rfl, (List.cons.inj (List.append_cancel_left h)).2⟩

end Separator

/-- Two lists with the same part before their trailing `c` differ by some
more trailing `c` on one side. -/
theorem rdropWhile_eq_cases [DecidableEq α] {c : α} {first second : List α}
    (h : first.rdropWhile (· == c) = second.rdropWhile (· == c)) :
    ∃ n, second = first ++ List.replicate n c ∨ first = second ++ List.replicate n c := by
  have hTail : ∀ l : List α, ∃ n, l = l.rdropWhile (· == c) ++ List.replicate n c := by
    intro l
    refine ⟨(l.rtakeWhile (· == c)).length, ?_⟩
    have hDots : l.rtakeWhile (· == c) = List.replicate (l.rtakeWhile (· == c)).length c :=
      List.eq_replicate_of_mem fun x hx => by simpa using List.mem_rtakeWhile_imp hx
    rw [← hDots]
    exact List.rdropWhile_append_rtakeWhile.symm
  obtain ⟨m, hm⟩ := hTail first
  obtain ⟨n, hn⟩ := hTail second
  rw [hm, hn, ← h]
  rcases Nat.le_total m n with hle | hle
  · exact ⟨n - m, Or.inl (by simp [List.replicate_append_replicate, Nat.add_sub_of_le hle])⟩
  · exact ⟨m - n, Or.inr (by simp [List.replicate_append_replicate, Nat.add_sub_of_le hle])⟩

/-- A successful search splits the list at the first hit. -/
theorem findIdx?_split {i : Nat} (hFind : l.findIdx? p = some i) :
    ∃ x, l = l.take i ++ x :: l.drop (i + 1) ∧ p x = true ∧ ∀ y ∈ l.take i, p y = false := by
  obtain ⟨hi, hHit, hBefore⟩ := List.findIdx?_eq_some_iff_getElem.mp hFind
  refine ⟨l[i], ?_, hHit, ?_⟩
  · rw [← List.drop_eq_getElem_cons hi, List.take_append_drop]
  · intro y hy
    obtain ⟨j, hj, rfl⟩ := List.mem_iff_getElem.mp hy
    rw [List.length_take] at hj
    simpa using hBefore j (by omega)

end Scan
