import Mathlib.Algebra.BigOperators.Group.List.Basic
import Mathlib.Algebra.GroupWithZero.Nat
import Mathlib.Data.List.AList

/-! Files by name. What a directory weighs is a sum over its files, and every
operation on one file changes it by that file. -/
namespace Directory

variable {ν β : Type*} [DecidableEq ν] (weight : ν → β → Nat)

/-- The sum over all files. -/
def total (dir : AList fun _ : ν => β) : Nat :=
  (dir.entries.map fun file => weight file.1 file.2).sum

variable {dir : AList fun _ : ν => β} {name : ν} {content : β}

/-- Writing a file replaces what it weighed. -/
theorem total_insert :
    total weight (dir.insert name content) = weight name content + total weight (dir.erase name) := by
  rw [total, AList.entries_insert, List.map_cons, List.sum_cons]
  rfl

theorem total_erase (hLookup : dir.lookup name = some content) :
    weight name content + total weight (dir.erase name) = total weight dir := by
  have hKey : name ∈ dir.entries.keys := List.mem_keys_of_mem (List.of_mem_dlookup hLookup)
  obtain ⟨content', front, back, -, hEntries, hErase⟩ := List.exists_of_kerase hKey
  have hSame : content' = content := by
    have hMem : (⟨name, content'⟩ : Sigma fun _ : ν => β) ∈ dir.entries := by
      rw [hEntries]
      simp
    have hOther := (List.mem_dlookup_iff dir.nodupKeys).mpr hMem
    exact Option.some.inj (hOther.symm.trans hLookup)
  have hErased : (dir.erase name).entries = front ++ back := hErase
  rw [total, total, hEntries, hErased, hSame]
  simp only [List.map_append, List.map_cons, List.sum_append, List.sum_cons]
  omega

/-- A missing file is not there to be removed. -/
theorem erase_of_none (hLookup : dir.lookup name = none) : dir.erase name = dir := by
  apply AList.ext
  have hAbsent : name ∉ dir := AList.lookup_eq_none.mp hLookup
  exact List.kerase_of_notMem_keys hAbsent

theorem total_erase_le : total weight (dir.erase name) ≤ total weight dir := by
  cases hLookup : dir.lookup name with
  | none => rw [erase_of_none hLookup]
  | some content =>
      rw [← total_erase weight hLookup]
      omega

end Directory
