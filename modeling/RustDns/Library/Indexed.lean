import Mathlib.Data.Finset.Card
import Mathlib.Data.Finset.Range
import Mathlib.Data.List.Forall2
import Mathlib.Data.List.Basic
import Mathlib.Algebra.BigOperators.Group.List.Basic
import Mathlib.Algebra.GroupWithZero.Nat

/-! Lists used as tables: elements keep their number, the last one may be
added and one may be replaced. -/
namespace Indexed

variable {α β : Type*}

theorem getElem?_append_of_some {l : List α} {i : Nat} {a : α} (hGet : l[i]? = some a)
    (more : List α) : (l ++ more)[i]? = some a := by
  obtain ⟨hLt, -⟩ := List.getElem?_eq_some_iff.mp hGet
  rw [List.getElem?_append_left hLt, hGet]

/-- What stands at a place after an addition at the end. -/
theorem getElem?_concat_cases {l : List α} {i : Nat} {last a : α} (hGet : (l ++ [last])[i]? = some a) :
    l[i]? = some a ∨ (i = l.length ∧ a = last) := by
  rcases Nat.lt_or_ge i l.length with hOld | hNew
  · rw [List.getElem?_append_left hOld] at hGet
    exact Or.inl hGet
  · rw [List.getElem?_append_right hNew, List.getElem?_singleton] at hGet
    split at hGet
    · exact Or.inr ⟨by omega, (Option.some.inj hGet).symm⟩
    · simp at hGet

theorem set_of_getElem? {l : List α} {i : Nat} {a : α} (hGet : l[i]? = some a) : l.set i a = l := by
  obtain ⟨hLt, rfl⟩ := List.getElem?_eq_some_iff.mp hGet
  exact List.set_getElem_self hLt

/-- What stands at a place after a replacement: the new element, or the old one
of another place. -/
theorem getElem?_set_cases {l : List α} {i j : Nat} {new a : α}
    (hGet : (l.set i new)[j]? = some a) : (j = i ∧ a = new) ∨ (j ≠ i ∧ l[j]? = some a) := by
  by_cases hIndex : j = i
  · subst hIndex
    obtain ⟨hLt, hAt⟩ := List.getElem?_eq_some_iff.mp hGet
    rw [List.getElem_set_self] at hAt
    exact Or.inl ⟨rfl, hAt.symm⟩
  · rw [List.getElem?_set_ne (Ne.symm hIndex)] at hGet
    exact Or.inr ⟨hIndex, hGet⟩

/-- A replacement leaves every place with an element. -/
theorem exists_getElem?_set {l : List α} {i j : Nat} {a : α} (hGet : l[j]? = some a) (new : α) :
    ∃ b, (l.set i new)[j]? = some b ∧ ((j = i ∧ b = new) ∨ (j ≠ i ∧ b = a)) := by
  obtain ⟨hLt, -⟩ := List.getElem?_eq_some_iff.mp hGet
  by_cases hIndex : j = i
  · subst hIndex
    exact ⟨new, List.getElem?_set_self hLt, Or.inl ⟨rfl, rfl⟩⟩
  · exact ⟨a, by rw [List.getElem?_set_ne (Ne.symm hIndex), hGet], Or.inr ⟨hIndex, rfl⟩⟩

/-- Only the element replaced is gone. -/
theorem mem_set_of_mem {l : List α} {i : Nat} {old a : α} (hOld : l[i]? = some old) (hMem : a ∈ l)
    (new : α) : a = old ∨ a ∈ l.set i new := by
  obtain ⟨j, hj⟩ := List.mem_iff_getElem?.mp hMem
  obtain ⟨b, hb, ⟨rfl, -⟩ | ⟨-, rfl⟩⟩ := exists_getElem?_set (i := i) hj new
  · exact Or.inl (Option.some.inj (hj.symm.trans hOld))
  · exact Or.inr (List.mem_of_getElem? hb)

/-- Replacing a pair by a related one. -/
theorem forall₂_set {R : α → β → Prop} {l : List α} {l' : List β} {a : α} {b : β}
    (hAll : List.Forall₂ R l l') (hNew : R a b) (i : Nat) :
    List.Forall₂ R (l.set i a) (l'.set i b) := by
  induction hAll generalizing i with
  | nil => exact List.Forall₂.nil
  | cons hHead hTail ih =>
      cases i with
      | zero => exact .cons hNew hTail
      | succ i => exact .cons hHead (ih i)

/-- Changing a pair in a way that keeps it related. -/
theorem forall₂_modify {R : α → β → Prop} {l : List α} {l' : List β} {f : α → α} {g : β → β}
    (hAll : List.Forall₂ R l l') (hKeep : ∀ a b, R a b → R (f a) (g b)) (i : Nat) :
    List.Forall₂ R (l.modify i f) (l'.modify i g) := by
  induction hAll generalizing i with
  | nil => cases i <;> exact List.Forall₂.nil
  | cons hHead hTail ih =>
      cases i with
      | zero => exact .cons (hKeep _ _ hHead) hTail
      | succ i => exact .cons hHead (ih i)

theorem forall₂_getElem? {R : α → β → Prop} {l : List α} {l' : List β} {i : Nat} {a : α} {b : β}
    (hAll : List.Forall₂ R l l') (hLeft : l[i]? = some a) (hRight : l'[i]? = some b) : R a b := by
  obtain ⟨hLt, rfl⟩ := List.getElem?_eq_some_iff.mp hLeft
  obtain ⟨hLt', rfl⟩ := List.getElem?_eq_some_iff.mp hRight
  exact hAll.get hLt hLt'

/-- The other side has an element of the same number. -/
theorem forall₂_partner {R : α → β → Prop} {l : List α} {l' : List β} {i : Nat} {b : β}
    (hAll : List.Forall₂ R l l') (hRight : l'[i]? = some b) : ∃ a, l[i]? = some a ∧ R a b := by
  obtain ⟨hLt, -⟩ := List.getElem?_eq_some_iff.mp hRight
  have hLength := hAll.length_eq
  have hLeft : l[i]? = some (l[i]) := List.getElem?_eq_getElem (by omega)
  exact ⟨_, hLeft, forall₂_getElem? hAll hLeft hRight⟩

/-- Replacing one element changes a sum by the difference. -/
theorem sum_map_set (f : α → Nat) {l : List α} {i : Nat} {old : α} (new : α)
    (hOld : l[i]? = some old) : ((l.set i new).map f).sum + f old = (l.map f).sum + f new := by
  induction l generalizing i with
  | nil => simp at hOld
  | cons a rest ih =>
      cases i with
      | zero =>
          obtain rfl : a = old := by simpa using hOld
          simp only [List.set_cons_zero, List.map_cons, List.sum_cons]
          omega
      | succ i =>
          have hRest := ih (by simpa using hOld)
          simp only [List.set_cons_succ, List.map_cons, List.sum_cons]
          omega

theorem countP_eq_sum (p : α → Bool) (l : List α) :
    l.countP p = (l.map fun a => (p a).toNat).sum := by
  induction l with
  | nil => rfl
  | cons a rest ih =>
      rw [List.countP_cons, List.map_cons, List.sum_cons, ih]
      cases p a <;> simp [Nat.add_comm]

/-- Replacing one element moves a count by at most one. -/
theorem countP_set_add (p : α → Bool) {l : List α} {i : Nat} {old : α} (new : α)
    (hOld : l[i]? = some old) :
    (l.set i new).countP p + (p old).toNat = l.countP p + (p new).toNat := by
  rw [countP_eq_sum, countP_eq_sum]
  exact sum_map_set (fun a => (p a).toNat) new hOld

theorem countP_eq_card (p : α → Bool) (l : List α) :
    l.countP p = ((Finset.range l.length).filter fun i => l[i]?.any p = true).card := by
  induction l using List.reverseRecOn with
  | nil => rfl
  | append_singleton rest a ih =>
      have hSame : (Finset.range rest.length).filter (fun i => (rest ++ [a])[i]?.any p = true) =
          (Finset.range rest.length).filter fun i => rest[i]?.any p = true := by
        refine Finset.filter_congr fun i hi => ?_
        rw [List.getElem?_append_left (Finset.mem_range.mp hi)]
      rw [List.countP_append, List.countP_singleton, List.length_append, List.length_singleton,
        Finset.range_add_one, Finset.filter_insert, hSame, ih]
      cases hp : p a <;> simp [hp]

/-- A table has no more elements of one kind than another has of a second kind
when each of the first leads to one of the second of its own. -/
theorem countP_le_countP {l : List α} {l' : List β} {p : α → Bool} {q : β → Bool} (f : Nat → Nat)
    (hMap : ∀ i a, l[i]? = some a → p a = true → ∃ b, l'[f i]? = some b ∧ q b = true)
    (hInj : ∀ i j a b, l[i]? = some a → p a = true → l[j]? = some b → p b = true → f i = f j →
      i = j) :
    l.countP p ≤ l'.countP q := by
  rw [countP_eq_card, countP_eq_card]
  refine Finset.card_le_card_of_injOn f ?_ ?_
  · intro i hi
    obtain ⟨-, hAny⟩ := Finset.mem_filter.mp hi
    obtain ⟨a, hAt, hp⟩ := (Option.any_eq_true p _).mp hAny
    obtain ⟨b, hImage, hq⟩ := hMap i a hAt hp
    obtain ⟨hLt, -⟩ := List.getElem?_eq_some_iff.mp hImage
    refine Finset.mem_filter.mpr ⟨Finset.mem_range.mpr hLt, ?_⟩
    rw [hImage]
    exact hq
  · intro i hi j hj hEq
    obtain ⟨-, hAny⟩ := Finset.mem_filter.mp hi
    obtain ⟨-, hAny'⟩ := Finset.mem_filter.mp hj
    obtain ⟨a, hAt, hp⟩ := (Option.any_eq_true p _).mp hAny
    obtain ⟨b, hAt', hq⟩ := (Option.any_eq_true p _).mp hAny'
    exact hInj i j a b hAt hp hAt' hq hEq

end Indexed
