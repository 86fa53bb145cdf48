import Mathlib.Data.List.Flatten
import Mathlib.Data.List.Perm.Subperm
import Mathlib.Order.Basic

/-! The first rows of a table in descending order of a key. Rows with one key
come in any order. -/
namespace Page

variable {α β κ : Type*} [Preorder κ] {key : α → κ} {n : Nat} {rows page : List α}

/-- The page is the front of the rows in some descending order. -/
def Top (key : α → κ) (n : Nat) (rows page : List α) : Prop :=
  ∃ sorted : List α, sorted.Perm rows ∧ sorted.Pairwise (fun a b => key b ≤ key a) ∧ page = sorted.take n

/-- What the page leaves out is left out for want of room, and comes after
everything on it. -/
theorem Top.split (hTop : Top key n rows page) :
    ∃ rest : List α, (page ++ rest).Perm rows ∧ (rest = [] ∨ page.length = n) ∧
      ∀ row ∈ page, ∀ other ∈ rest, key other ≤ key row := by
  obtain ⟨sorted, hPerm, hSorted, rfl⟩ := hTop
  refine ⟨sorted.drop n, ?_, ?_, ?_⟩
  · rwa [List.take_append_drop]
  · rcases Nat.le_total sorted.length n with hShort | hLong
    · exact Or.inl (List.drop_eq_nil_of_le hShort)
    · exact Or.inr (List.length_take_of_le hLong)
  · rw [← List.take_append_drop n sorted, List.pairwise_append] at hSorted
    exact hSorted.2.2

theorem Top.subperm (hTop : Top key n rows page) : page.Subperm rows := by
  obtain ⟨rest, hPerm, -⟩ := hTop.split
  exact (List.sublist_append_left page rest).subperm.trans hPerm.subperm

theorem Top.pairwise (hTop : Top key n rows page) : page.Pairwise (fun a b => key b ≤ key a) := by
  obtain ⟨sorted, -, hSorted, rfl⟩ := hTop
  exact hSorted.sublist (List.take_sublist n sorted)

theorem Top.length_le (hTop : Top key n rows page) : page.length ≤ n := by
  obtain ⟨sorted, -, -, rfl⟩ := hTop
  exact List.length_take_le n sorted

/-- A row that is not on the page has made way for a full page of rows that do
not come after it. -/
theorem Top.mem_or_full (hTop : Top key n rows page) {row : α} (hMem : row ∈ rows) :
    row ∈ page ∨ page.length = n ∧ ∀ shown ∈ page, key row ≤ key shown := by
  obtain ⟨rest, hPerm, hFull, hOrder⟩ := hTop.split
  rcases List.mem_append.mp (hPerm.mem_iff.mpr hMem) with hShown | hLeft
  · exact Or.inl hShown
  · refine Or.inr ⟨hFull.resolve_left (List.ne_nil_of_mem hLeft), fun shown hShown => ?_⟩
    exact hOrder shown hShown row hLeft

theorem subperm_flatMap {l₁ l₂ : List α} (hSub : l₁.Subperm l₂) (f : α → List β) :
    (l₁.flatMap f).Subperm (l₂.flatMap f) := by
  obtain ⟨l, hPerm, hSublist⟩ := hSub
  exact ⟨l.flatMap f, hPerm.flatMap_right f, hSublist.flatMap f⟩

end Page
