import Mathlib.Logic.ExistsUnique
import Mathlib.Tactic.TypeStar

/-! Items that come one by one are put into batches of bounded size. -/

/-- The batches in the order they were made, and the items that wait for the
next one. -/
structure Batching (α : Type*) (cap : Nat) where
  batches : List (List α)
  buffer : List α
  sized : ∀ batch ∈ batches, batch ≠ [] ∧ batch.length ≤ cap
  room : buffer.length < cap

namespace Batching

variable {α : Type*} {cap : Nat}

def empty (hCap : 0 < cap) : Batching α cap := ⟨[], [], by simp, hCap⟩

/-- All items so far. -/
def items (b : Batching α cap) : List α := b.batches.flatten ++ b.buffer

/-- One batch more. -/
def close (b : Batching α cap) (batch : List α) (hFirst : batch ≠ []) (hSize : batch.length ≤ cap) :
    Batching α cap where
  batches := b.batches ++ [batch]
  buffer := []
  sized := by
    intro other hMem
    rcases List.mem_append.mp hMem with hOld | hNew
    · exact b.sized other hOld
    · rw [List.mem_singleton.mp hNew]
      exact ⟨hFirst, hSize⟩
  room := Nat.lt_of_le_of_lt (Nat.zero_le _) b.room

/-- What waits becomes a batch, unless nothing does. -/
def flush (b : Batching α cap) : Batching α cap :=
  if hEmpty : b.buffer = [] then b else b.close b.buffer hEmpty (Nat.le_of_lt b.room)

theorem length_concat_le (b : Batching α cap) (x : α) : (b.buffer ++ [x]).length ≤ cap := by
  rw [List.length_append, List.length_singleton]
  exact b.room

/-- An item that fills the buffer closes the batch. -/
def push (b : Batching α cap) (x : α) : Batching α cap :=
  if hFull : cap ≤ (b.buffer ++ [x]).length then
    b.close (b.buffer ++ [x]) (by simp) (b.length_concat_le x)
  else { b with buffer := b.buffer ++ [x], room := Nat.lt_of_not_le hFull }

theorem items_close (b : Batching α cap) (batch : List α) (hFirst : batch ≠ [])
    (hSize : batch.length ≤ cap) : (b.close batch hFirst hSize).items = b.batches.flatten ++ batch := by
  simp [items, close]

@[simp]
theorem items_flush (b : Batching α cap) : b.flush.items = b.items := by
  unfold flush
  split
  · rfl
  · apply items_close

@[simp]
theorem items_push (b : Batching α cap) (x : α) : (b.push x).items = b.items ++ [x] := by
  unfold push
  split
  · rw [items_close, items, List.append_assoc]
  · simp only [items, List.append_assoc]

theorem batches_flush (b : Batching α cap) :
    b.flush.batches = if b.buffer = [] then b.batches else b.batches ++ [b.buffer] := by
  unfold flush
  split
  · rfl
  · rfl

@[simp]
theorem buffer_flush (b : Batching α cap) : b.flush.buffer = [] := by
  unfold flush
  split
  case isTrue hEmpty => exact hEmpty
  case isFalse => rfl

theorem batches_push (b : Batching α cap) (x : α) : (b.push x).batches =
    if cap ≤ (b.buffer ++ [x]).length then b.batches ++ [b.buffer ++ [x]] else b.batches := by
  unfold push
  split
  · rfl
  · rfl

theorem buffer_push (b : Batching α cap) (x : α) : (b.push x).buffer =
    if cap ≤ (b.buffer ++ [x]).length then [] else b.buffer ++ [x] := by
  unfold push
  split
  · rfl
  · rfl

/-- How many items there are before a batch. -/
def offset (batches : List (List α)) (j : Nat) : Nat := (batches.take j).flatten.length

@[simp]
theorem offset_zero (batches : List (List α)) : offset batches 0 = 0 := by
  rw [offset, List.take_zero, List.flatten_nil, List.length_nil]

@[simp]
theorem offset_succ (batch : List α) (rest : List (List α)) (j : Nat) :
    offset (batch :: rest) (j + 1) = batch.length + offset rest j := by
  rw [offset, List.take_succ_cons, List.flatten_cons, List.length_append, offset]

/-- Item `i` of the whole is in one place of one batch. -/
theorem existsUnique_place {batches : List (List α)} {i : Nat} {x : α}
    (hItem : batches.flatten[i]? = some x) :
    ∃! place : Nat × Nat, i = offset batches place.1 + place.2 ∧
      ∃ batch, batches[place.1]? = some batch ∧ batch[place.2]? = some x := by
  induction batches generalizing i with
  | nil => simp at hItem
  | cons head rest ih =>
      rw [List.flatten_cons] at hItem
      rcases Nat.lt_or_ge i head.length with hHead | hRest
      · -- every later batch starts after the first one
        rw [List.getElem?_append_left hHead] at hItem
        refine ⟨(0, i), ⟨by simp, head, rfl, hItem⟩, ?_⟩
        rintro ⟨j, k⟩ ⟨hPlace, -⟩
        cases j with
        | zero =>
            rw [offset_zero, Nat.zero_add] at hPlace
            rw [hPlace]
        | succ j =>
            rw [offset_succ] at hPlace
            omega
      · rw [List.getElem?_append_right hRest] at hItem
        obtain ⟨⟨j, k⟩, ⟨hPlace, hBatch⟩, hUnique⟩ := ih hItem
        refine ⟨(j + 1, k), ⟨?_, hBatch⟩, ?_⟩
        · have hPlace : i - head.length = offset rest j + k := hPlace
          rw [offset_succ]
          omega
        · rintro ⟨j', k'⟩ ⟨hPlace', batch, hBatch', hItem'⟩
          cases j' with
          | zero =>
              obtain rfl := Option.some.inj hBatch'
              obtain ⟨hBound, -⟩ := List.getElem?_eq_some_iff.mp hItem'
              rw [offset_zero] at hPlace'
              omega
          | succ j' =>
              rw [offset_succ] at hPlace'
              have hSame : (j', k') = (j, k) :=
                hUnique (j', k') ⟨(by omega : i - head.length = offset rest j' + k'),
                  batch, hBatch', hItem'⟩
              obtain ⟨rfl, rfl⟩ := Prod.mk.inj hSame
              rfl

end Batching
