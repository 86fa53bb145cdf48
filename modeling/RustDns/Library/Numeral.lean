import Mathlib.Data.List.Lex
import Mathlib.Data.Nat.Digits.Defs

/-! Numbers written in digits, first digit first, and the lexical order of what
is written. -/

/-- Signs for the numbers below the base, in their order. -/
structure Digits (α : Type*) [LinearOrder α] (base : Nat) where
  one_lt : 1 < base
  valid : α → Prop
  digit : α → Nat
  digit_lt : ∀ {d}, valid d → digit d < base
  lt_iff : ∀ {c d}, valid c → valid d → (c < d ↔ digit c < digit d)

namespace Digits

variable {α : Type*} {c d stop : α} {s t u v : List α} {base : Nat}

theorem exists_next {n : Nat} (hShort : n < t.length) : ∃ d ∈ t, ∃ rest, t = t.take n ++ d :: rest := by
  refine ⟨t[n], List.getElem_mem hShort, t.drop (n + 1), ?_⟩
  rw [← List.drop_eq_getElem_cons hShort, List.take_append_drop]

variable [LinearOrder α]

/-- What follows decides only between equal beginnings. -/
theorem append_lt_append_iff (hLength : s.length = t.length) :
    s ++ u < t ++ v ↔ s < t ∨ s = t ∧ u < v := by
  induction s generalizing t with
  | nil =>
      obtain rfl := List.length_eq_zero_iff.mp hLength.symm
      simp
  | cons c s ih =>
      cases t with
      | nil => simp at hLength
      | cons d t =>
          rw [List.cons_append, List.cons_append, List.cons_lt_cons_iff, List.cons_lt_cons_iff,
            ih (Nat.succ.inj hLength), List.cons.injEq]
          tauto

theorem append_left_lt_iff : s ++ u < s ++ v ↔ u < v := by
  rw [append_lt_append_iff rfl]
  simp

/-- A stop that comes before every digit ends the shorter one first. -/
theorem append_stop_lt_iff (hShort : s.length < t.length) (hStop : ∀ d ∈ t, stop < d) :
    s ++ stop :: u < t ++ v ↔ s ≤ t.take s.length := by
  obtain ⟨d, hMem, rest, hSplit⟩ := exists_next hShort
  have hCut : s.length = (t.take s.length).length := (List.length_take_of_le hShort.le).symm
  have hLater : stop :: u < d :: rest ++ v := List.cons_lt_cons_iff.mpr (Or.inl (hStop d hMem))
  rw [congrArg (· ++ v) hSplit, List.append_assoc, append_lt_append_iff hCut, le_iff_lt_or_eq]
  simp only [hLater, and_true]

theorem lt_append_stop_iff (hShort : t.length < s.length) (hStop : ∀ d ∈ s, stop < d) :
    s ++ u < t ++ stop :: v ↔ s.take t.length < t := by
  obtain ⟨d, hMem, rest, hSplit⟩ := exists_next hShort
  have hCut : (s.take t.length).length = t.length := List.length_take_of_le hShort.le
  have hNot : ¬d :: rest ++ u < stop :: v :=
    lt_asymm (List.cons_lt_cons_iff.mpr (Or.inl (hStop d hMem)))
  rw [congrArg (· ++ u) hSplit, List.append_assoc, append_lt_append_iff hCut]
  simp only [hNot, and_false, or_false]

variable (D : Digits α base)

/-- The number written. -/
def value (s : List α) : Nat := Nat.ofDigits base (s.map D.digit).reverse

theorem value_append : D.value (s ++ t) = D.value t + base ^ t.length * D.value s := by
  rw [value, List.map_append, List.reverse_append, Nat.ofDigits_append, List.length_reverse,
    List.length_map, value, value]

theorem value_cons : D.value (c :: s) = D.value s + base ^ s.length * D.digit c := by
  rw [← List.singleton_append, value_append, value, value]
  simp

variable {D}

theorem value_lt (hValid : ∀ d ∈ s, D.valid d) : D.value s < base ^ s.length := by
  have hDigits : ∀ x ∈ (s.map D.digit).reverse, x < base := by
    intro x hMem
    obtain ⟨d, hDigit, rfl⟩ := List.mem_map.mp (List.mem_reverse.mp hMem)
    exact D.digit_lt (hValid d hDigit)
  have hBound := Nat.ofDigits_lt_base_pow_length D.one_lt hDigits
  rwa [List.length_reverse, List.length_map] at hBound

/-- The first digits of a number are its quotient by a power of the base. -/
theorem value_take (hValid : ∀ d ∈ s, D.valid d) (n : Nat) :
    D.value (s.take n) = D.value s / base ^ (s.length - n) := by
  have hSplit : D.value s =
      D.value (s.drop n) + base ^ (s.length - n) * D.value (s.take n) := by
    rw [← List.length_drop, ← value_append, List.take_append_drop]
  have hRest : D.value (s.drop n) < base ^ (s.length - n) := by
    rw [← List.length_drop]
    exact value_lt fun d hMem => hValid d (List.mem_of_mem_drop hMem)
  rw [hSplit, Nat.add_mul_div_left _ _ (Nat.zero_lt_of_lt hRest), Nat.div_eq_of_lt hRest,
    Nat.zero_add]

theorem digit_inj (hc : D.valid c) (hd : D.valid d) (hDigit : D.digit c = D.digit d) : c = d := by
  rcases lt_trichotomy c d with hLt | hEq | hGt
  · exact absurd ((D.lt_iff hc hd).mp hLt) (by omega)
  · exact hEq
  · exact absurd ((D.lt_iff hd hc).mp hGt) (by omega)

/-- The first digit outweighs the rest. -/
theorem value_cons_lt (hs : ∀ d ∈ s, D.valid d) (hLength : s.length = t.length)
    (hDigit : D.digit c < D.digit d) : D.value (c :: s) < D.value (d :: t) := by
  rw [value_cons, value_cons, ← hLength]
  calc D.value s + base ^ s.length * D.digit c
    _ < base ^ s.length + base ^ s.length * D.digit c := Nat.add_lt_add_right (value_lt hs) _
    _ = base ^ s.length * (D.digit c + 1) := by ring
    _ ≤ base ^ s.length * D.digit d := Nat.mul_le_mul_left _ hDigit
    _ ≤ D.value t + base ^ s.length * D.digit d := Nat.le_add_left _ _

/-- In equal width the lexical order is that of the numbers. -/
theorem lt_iff_value_lt (hLength : s.length = t.length) (hs : ∀ d ∈ s, D.valid d)
    (ht : ∀ d ∈ t, D.valid d) : s < t ↔ D.value s < D.value t := by
  induction s generalizing t with
  | nil =>
      obtain rfl := List.length_eq_zero_iff.mp hLength.symm
      simp
  | cons c s ih =>
      cases t with
      | nil => simp at hLength
      | cons d t =>
          obtain ⟨hc, hs'⟩ := List.forall_mem_cons.mp hs
          obtain ⟨hd, ht'⟩ := List.forall_mem_cons.mp ht
          have hTail := Nat.succ.inj hLength
          rw [List.cons_lt_cons_iff, D.lt_iff hc hd]
          rcases Nat.lt_trichotomy (D.digit c) (D.digit d) with hLt | hEq | hGt
          · exact iff_of_true (Or.inl hLt) (value_cons_lt hs' hTail hLt)
          · obtain rfl := digit_inj hc hd hEq
            rw [value_cons, value_cons, ← hTail, Nat.add_lt_add_iff_right, ← ih hTail hs' ht']
            simp
          · apply iff_of_false
            · rintro (hLt | ⟨rfl, -⟩)
              · exact absurd hLt hGt.not_gt
              · exact absurd hGt (Nat.lt_irrefl _)
            · exact (value_cons_lt ht' hTail.symm hGt).not_gt

/-- Numbers of any two widths, each before the same stop and the same end: the
wider one is first cut to the width of the other, which comes first if that
makes them equal. -/
theorem append_stop_lt_append_stop_iff (hs : ∀ d ∈ s, D.valid d) (ht : ∀ d ∈ t, D.valid d)
    (hStop : ∀ d, D.valid d → stop < d) :
    s ++ stop :: u < t ++ stop :: u ↔
      if s.length < t.length then D.value s ≤ D.value t / base ^ (t.length - s.length)
      else D.value s / base ^ (s.length - t.length) < D.value t := by
  split
  case isTrue hShort =>
    have hCut : (t.take s.length).length = s.length := List.length_take_of_le hShort.le
    have hTake : ∀ d ∈ t.take s.length, D.valid d := fun d hMem => ht d (List.mem_of_mem_take hMem)
    rw [append_stop_lt_iff hShort fun d hMem => hStop d (ht d hMem), ← not_lt,
      lt_iff_value_lt hCut hTake hs, value_take ht, not_lt]
  case isFalse hLong =>
    have hCut : (s.take t.length).length = t.length := List.length_take_of_le (not_lt.mp hLong)
    have hTake : ∀ d ∈ s.take t.length, D.valid d := fun d hMem => hs d (List.mem_of_mem_take hMem)
    rw [← value_take hs, ← lt_iff_value_lt hCut hTake ht]
    rcases Nat.lt_or_eq_of_le (not_lt.mp hLong) with hLess | hEqual
    · exact lt_append_stop_iff hLess fun d hMem => hStop d (hs d hMem)
    · rw [append_lt_append_iff hEqual.symm, hEqual, List.take_length]
      simp

end Digits
