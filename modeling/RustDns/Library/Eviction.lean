import Mathlib.Algebra.BigOperators.Group.List.Basic
import Mathlib.Algebra.GroupWithZero.Nat
import Mathlib.Order.Bounds.Basic

/-! Removing items in order until what is left fits under a cap. A removal may
fail; the item then stays and counts. -/
namespace Eviction

variable {α : Type*} (size : α → Nat) (cap : Nat) (fails : α → Bool)

/-- The size of all items. -/
def total (items : List α) : Nat := (items.map size).sum

/-- The items tried, given what there is at the start. -/
def visited : List α → Nat → List α
  | [], _ => []
  | a :: rest, left =>
      if left ≤ cap then []
      else a :: visited rest (if fails a then left else left - size a)

/-- What is left when the items of `tried` have been tried and those of `rest`
have not. -/
def leftOver (tried rest : List α) : Nat := total size (tried.filter fails) + total size rest

variable {size cap fails} {items : List α} {kept left : Nat}

@[simp]
theorem total_nil : total size [] = 0 := rfl

@[simp]
theorem total_cons (a : α) (rest : List α) : total size (a :: rest) = size a + total size rest :=
  List.sum_cons

theorem total_append (first second : List α) :
    total size (first ++ second) = total size first + total size second := by
  simp [total]

/-- An item that has been tried stays or goes. -/
theorem leftOver_cons (a : α) (tried rest : List α) :
    leftOver size fails (a :: tried) rest =
      (if fails a then size a else 0) + leftOver size fails tried rest := by
  unfold leftOver
  cases hFails : fails a with
  | true => simp [hFails, Nat.add_assoc]
  | false => simp [hFails]

/-- The items tried are the first ones; trying stops under the cap or at the
end, and before every try there is more than the cap left. The items that
stayed from before are `kept`. -/
theorem visited_spec (cap : Nat) (fails : α → Bool) (hLeft : left = kept + total size items) :
    ∃ rest, items = visited size cap fails items left ++ rest ∧
      (kept + leftOver size fails (visited size cap fails items left) rest ≤ cap ∨ rest = []) ∧
      ∀ front a back, visited size cap fails items left = front ++ a :: back →
        cap < kept + leftOver size fails front (a :: back ++ rest) := by
  induction items generalizing kept left with
  | nil => exact ⟨[], rfl, Or.inr rfl, by simp [visited]⟩
  | cons b rest ih =>
      rw [visited]
      split
      case isTrue hUnder =>
        refine ⟨b :: rest, rfl, Or.inl ?_, by simp⟩
        rw [leftOver, List.filter_nil, total_nil, Nat.zero_add, ← hLeft]
        exact hUnder
      case isFalse hOver =>
        rw [total_cons] at hLeft
        -- what stays of this item belongs to what the later ones find
        have hNext : (if fails b then left else left - size b) =
            kept + (if fails b then size b else 0) + total size rest := by
          split <;> omega
        obtain ⟨tail, hSplit, hEnd, hBefore⟩ := ih hNext
        refine ⟨tail, by rw [List.cons_append, ← hSplit], ?_, fun front a back hVisited => ?_⟩
        · rw [leftOver_cons, ← Nat.add_assoc]
          exact hEnd
        · cases front with
          | nil =>
              obtain ⟨rfl, rfl⟩ := List.cons.inj hVisited
              rw [leftOver, List.filter_nil, total_nil, Nat.zero_add, List.cons_append, ← hSplit,
                total_cons, ← hLeft]
              omega
          | cons c front =>
              obtain ⟨rfl, hRest⟩ := List.cons.inj hVisited
              rw [leftOver_cons, ← Nat.add_assoc]
              exact hBefore front a back hRest

/-- When every removal succeeds, the items tried are the shortest prefix whose
removal brings the rest under the cap. -/
theorem visited_least (cap : Nat) (fails : α → Bool) (hLeft : left = total size items)
    (hAll : ∀ a ∈ visited size cap fails items left, fails a = false) :
    ∃ k, visited size cap fails items left = items.take k ∧
      IsLeast {k | total size (items.drop k) ≤ cap} k := by
  have hNone : ∀ front, front ⊆ visited size cap fails items left → front.filter fails = [] := by
    intro front hSub
    refine List.filter_eq_nil_iff.mpr fun a hMem => ?_
    rw [hAll a (hSub hMem)]
    exact Bool.false_ne_true
  obtain ⟨rest, hSplit, hEnd, hBefore⟩ :=
    visited_spec cap fails (hLeft.trans (Nat.zero_add _).symm)
  set tried := visited size cap fails items left with hTried
  have hTake : tried = items.take tried.length := by rw [hSplit, List.take_left]
  refine ⟨tried.length, hTake, ?_, fun m hFits => ?_⟩
  · have hDrop : items.drop tried.length = rest := by rw [hSplit, List.drop_left]
    change total size (items.drop tried.length) ≤ cap
    rw [hDrop]
    rcases hEnd with hUnder | rfl
    · rw [leftOver, hNone tried (List.Subset.refl _), total_nil] at hUnder
      omega
    · exact Nat.zero_le _
  · refine Nat.le_of_not_lt fun hLt => ?_
    have hCut : tried = tried.take m ++ tried[m] :: tried.drop (m + 1) := by
      rw [← List.drop_eq_getElem_cons hLt, List.take_append_drop]
    have hOver := hBefore _ _ _ hCut
    rw [leftOver, hNone _ (List.take_subset m tried), ← List.drop_eq_getElem_cons hLt, total_nil]
      at hOver
    have hDrop : items.drop m = tried.drop m ++ rest := by
      rw [hSplit, List.drop_append_of_le_length (Nat.le_of_lt hLt)]
    have hFits : total size (items.drop m) ≤ cap := hFits
    rw [hDrop] at hFits
    omega

end Eviction
