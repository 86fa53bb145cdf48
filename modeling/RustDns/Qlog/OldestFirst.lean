import Mathlib.Algebra.Order.BigOperators.Group.List
import RustDns.Library.Eviction
import RustDns.Qlog.Segment

/-! `enforce_retention` on a directory listing, with the 64-bit arithmetic of
its running total. -/
namespace RustDns

namespace Qlog

/-- A directory entry: its name and its size. -/
abbrev Entry := Str × UInt64

def Entry.bytes (entry : Entry) : Nat := entry.2.toNat

/-- The segments of a directory, oldest first. -/
def segments (entries : List Entry) : List Entry :=
  (entries.filter fun entry => isSegment entry.1).insertionSort fun a b => nameLe a.1 b.1 = true

/-- `+` on 64-bit numbers, with nothing returned on overflow. -/
def checkedAdd (a b : UInt64) : Option UInt64 :=
  if a.toNat + b.toNat < UInt64.size then some (a + b) else none

/-- `-` on 64-bit numbers, with nothing returned on underflow. -/
def checkedSub (a b : UInt64) : Option UInt64 := if b ≤ a then some (a - b) else none

/-- What a call has done: the files it has tried to remove, those it has
removed, and its running total. -/
structure Sweep where
  attempted : List Str
  removed : List Str
  total : UInt64

variable (maxBytes : UInt64) (fails : Str → Bool)

/-- The loop over the sorted files. A removal fails or succeeds by its path. -/
def retainLoop : List Entry → UInt64 → Option Sweep
  | [], total => some ⟨[], [], total⟩
  | (path, size) :: rest, total =>
      if total ≤ maxBytes then some ⟨[], [], total⟩
      else if fails path then
        (retainLoop rest total).map fun sweep =>
          { sweep with attempted := path :: sweep.attempted }
      else
        (checkedSub total size).bind fun total =>
          (retainLoop rest total).map fun sweep =>
            { sweep with
              attempted := path :: sweep.attempted
              removed := path :: sweep.removed }

def enforceRetention (entries : List Entry) : Option Sweep :=
  (((segments entries).map Prod.snd).foldlM checkedAdd 0).bind
    fun total => retainLoop maxBytes fails (segments entries) total

/-- The size of the segments that are not among the removed ones. -/
def remaining (entries : List Entry) (removed : List Str) : Nat :=
  ((entries.filter fun entry => isSegment entry.1 && !removed.contains entry.1).map Entry.bytes).sum

variable {maxBytes fails} {entries todo : List Entry} {total : UInt64}

/-- The sizes are summed without overflow when their sum fits. -/
theorem checkedSum {acc : UInt64} (hFits : acc.toNat + Eviction.total Entry.bytes todo < UInt64.size) :
    ∃ total, (todo.map Prod.snd).foldlM checkedAdd acc = some total ∧
      total.toNat = acc.toNat + Eviction.total Entry.bytes todo := by
  induction todo generalizing acc with
  | nil => exact ⟨acc, rfl, rfl⟩
  | cons entry rest ih =>
      rw [Eviction.total_cons, Entry.bytes] at hFits ⊢
      have hAdd : (acc + entry.2).toNat = acc.toNat + entry.2.toNat := by
        rw [UInt64.toNat_add, Nat.mod_eq_of_lt (by simp only [UInt64.size] at hFits; omega)]
      obtain ⟨total, hFold, hTotal⟩ := ih (by omega : (acc + entry.2).toNat + _ < UInt64.size)
      refine ⟨total, ?_, by omega⟩
      rw [List.map_cons, List.foldlM_cons, checkedAdd, if_pos (by omega)]
      exact hFold

/-- The loop never underflows as long as its total covers what is to come, and
it tries the files of the eviction scheme. -/
theorem retainLoop_eq (maxBytes : UInt64) (fails : Str → Bool) {kept : Nat}
    (hTotal : total.toNat = kept + Eviction.total Entry.bytes todo) :
    ∃ left, retainLoop maxBytes fails todo total =
      some
        { attempted := (Eviction.visited Entry.bytes maxBytes.toNat (fun e => fails e.1) todo
            total.toNat).map Prod.fst
          removed := ((Eviction.visited Entry.bytes maxBytes.toNat (fun e => fails e.1) todo
            total.toNat).filter fun e => !fails e.1).map Prod.fst
          total := left } := by
  induction todo generalizing kept total with
  | nil => exact ⟨total, rfl⟩
  | cons entry rest ih =>
      obtain ⟨path, size⟩ := entry
      rw [Eviction.total_cons] at hTotal
      have hTotal : total.toNat = kept + (size.toNat + Eviction.total Entry.bytes rest) := hTotal
      rw [retainLoop, Eviction.visited]
      by_cases hUnder : total ≤ maxBytes
      · have hUnderNat : total.toNat ≤ maxBytes.toNat := UInt64.le_iff_toNat_le.mp hUnder
        exact ⟨total, by simp [hUnder, hUnderNat]⟩
      · have hOverNat : ¬total.toNat ≤ maxBytes.toNat := fun hLe =>
          hUnder (UInt64.le_iff_toNat_le.mpr hLe)
        rw [if_neg hUnder, if_neg hOverNat]
        cases hFails : fails path with
        | true =>
            obtain ⟨left, hLoop⟩ := ih (hTotal.trans (Nat.add_assoc kept size.toNat _).symm)
            exact ⟨left, by simp [hLoop, hFails]⟩
        | false =>
            have hLe : size ≤ total := UInt64.le_iff_toNat_le.mpr (by omega)
            have hSub : (total - size).toNat = total.toNat - size.toNat :=
              UInt64.toNat_sub_of_le _ _ hLe
            obtain ⟨left, hLoop⟩ := ih (by omega : (total - size).toNat = kept + _)
            rw [hSub] at hLoop
            exact ⟨left, by simp [checkedSub, hLe, hLoop, hFails, Entry.bytes]⟩

theorem nameLe_cons_iff {a b : Char} {s t : Str} :
    nameLe (a :: s) (b :: t) = true ↔ a.toNat < b.toNat ∨ (a = b ∧ nameLe s t = true) := by
  simp [nameLe]

/-- Any two names are ordered. -/
theorem nameLe_total (s t : Str) : nameLe s t = true ∨ nameLe t s = true := by
  induction s generalizing t with
  | nil => exact Or.inl rfl
  | cons a s ih =>
      cases t with
      | nil => exact Or.inr rfl
      | cons b t =>
          rw [nameLe_cons_iff, nameLe_cons_iff]
          rcases Nat.lt_trichotomy a.toNat b.toNat with hLt | hEq | hGt
          · exact Or.inl (Or.inl hLt)
          · obtain rfl := Char.toNat_inj.mp hEq
            rcases ih t with hLe | hLe
            · exact Or.inl (Or.inr ⟨rfl, hLe⟩)
            · exact Or.inr (Or.inr ⟨rfl, hLe⟩)
          · exact Or.inr (Or.inl hGt)

/-- The order of names is transitive. -/
theorem nameLe_trans {s t u : Str} (hFirst : nameLe s t = true) (hSecond : nameLe t u = true) :
    nameLe s u = true := by
  induction s generalizing t u with
  | nil => rfl
  | cons a s ih =>
      cases t with
      | nil => simp [nameLe] at hFirst
      | cons b t =>
          cases u with
          | nil => simp [nameLe] at hSecond
          | cons c u =>
              rw [nameLe_cons_iff] at hFirst hSecond ⊢
              rcases hFirst with hLt | ⟨rfl, hRest⟩
              · rcases hSecond with hLt' | ⟨rfl, -⟩
                · exact Or.inl (hLt.trans hLt')
                · exact Or.inl hLt
              · rcases hSecond with hLt' | ⟨rfl, hRest'⟩
                · exact Or.inl hLt'
                · exact Or.inr ⟨rfl, ih hRest hRest'⟩

theorem perm_segments (entries : List Entry) :
    (segments entries).Perm (entries.filter fun entry => isSegment entry.1) :=
  List.perm_insertionSort _ _

instance nameLe_isTotal : Std.Total fun a b : Entry => nameLe a.1 b.1 = true :=
  ⟨fun a b => nameLe_total a.1 b.1⟩

instance nameLe_isTrans : IsTrans Entry fun a b => nameLe a.1 b.1 = true :=
  ⟨fun _ _ _ => nameLe_trans⟩

theorem nodup_segments (hNames : (entries.map Prod.fst).Nodup) :
    ((segments entries).map Prod.fst).Nodup := by
  rw [((perm_segments entries).map Prod.fst).nodup_iff]
  exact hNames.sublist (List.filter_sublist.map Prod.fst)

/-- Every name comes after the ones before it. -/
theorem ascending_segments (hNames : (entries.map Prod.fst).Nodup) :
    ((segments entries).map Prod.fst).Pairwise fun s t => nameLe s t = true ∧ s ≠ t := by
  have hSorted : ((segments entries).map Prod.fst).Pairwise fun s t => nameLe s t = true :=
    List.pairwise_map.mpr (List.pairwise_insertionSort _ _)
  exact hSorted.and (nodup_segments hNames)

/-- The size of what is left, in the order of the loop. -/
theorem remaining_eq (entries : List Entry) (removed : List Str) :
    remaining entries removed =
      Eviction.total Entry.bytes ((segments entries).filter fun e => !removed.contains e.1) := by
  have hFilter := (perm_segments entries).filter fun e => !removed.contains e.1
  rw [List.filter_filter] at hFilter
  rw [remaining, Eviction.total, (hFilter.map Entry.bytes).sum_eq]
  simp only [Bool.and_comm]

/-- Of the files tried, those whose removal failed are left. -/
theorem filter_removed {tried rest : List Entry} (hNames : ((tried ++ rest).map Prod.fst).Nodup) :
    (tried ++ rest).filter (fun e =>
        !((tried.filter fun e => !fails e.1).map Prod.fst).contains e.1) =
      (tried.filter fun e => fails e.1) ++ rest := by
  rw [List.map_append] at hNames
  have hDisjoint := List.disjoint_of_nodup_append hNames
  rw [List.filter_append]
  congr 1
  · refine List.filter_congr fun e hMem => ?_
    -- whether a removal fails is a matter of the name
    have hGone : e.1 ∈ (tried.filter fun e => !fails e.1).map Prod.fst ↔ fails e.1 = false := by
      constructor
      · intro hName
        obtain ⟨e', hMem', hEq⟩ := List.mem_map.mp hName
        rw [← hEq]
        simpa using (List.mem_filter.mp hMem').2
      · intro hSuccess
        exact List.mem_map.mpr ⟨e, List.mem_filter.mpr ⟨hMem, by simp [hSuccess]⟩, rfl⟩
    cases hFails : fails e.1 with
    | true => simp [hGone, hFails]
    | false => simp [hGone, hFails]
  · refine List.filter_eq_self.mpr fun e hMem => ?_
    have hOther : e.1 ∉ (tried.filter fun e => !fails e.1).map Prod.fst := fun hName =>
      hDisjoint ((List.filter_sublist.map Prod.fst).subset hName) (List.mem_map.mpr ⟨e, hMem, rfl⟩)
    rw [Bool.not_eq_true', List.contains_eq_mem, decide_eq_false_iff_not]
    exact hOther

/-- What remains is what failed and what was not tried. -/
theorem remaining_tried {tried rest : List Entry} (hSplit : segments entries = tried ++ rest)
    (hNames : (entries.map Prod.fst).Nodup) :
    remaining entries ((tried.filter fun e => !fails e.1).map Prod.fst) =
      Eviction.leftOver Entry.bytes (fun e => fails e.1) tried rest := by
  have hNodup := nodup_segments hNames
  rw [hSplit] at hNodup
  rw [remaining_eq, hSplit, filter_removed hNodup, Eviction.total_append]
  rfl

/-- A file that was removed was tried, after the files removed before it. -/
theorem removed_split {tried : List Entry} {before after : List Str} {path : Str}
    (hRemoved : (tried.filter fun e => !fails e.1).map Prod.fst = before ++ path :: after) :
    ∃ front file back, tried = front ++ file :: back ∧
      before = (front.filter fun e => !fails e.1).map Prod.fst := by
  obtain ⟨first, second, hFilter, rfl, hSecond⟩ := List.map_eq_append_iff.mp hRemoved
  obtain ⟨file, others, rfl, -, -⟩ := List.map_eq_cons_iff.mp hSecond
  obtain ⟨front, tail, rfl, rfl, hTail⟩ := List.filter_eq_append_iff.mp hFilter
  obtain ⟨skipped, back, rfl, hSkipped, -, -⟩ := List.filter_eq_cons_iff.mp hTail
  refine ⟨front ++ skipped, file, back, by simp, ?_⟩
  rw [List.filter_append, List.filter_eq_nil_iff.mpr hSkipped, List.append_nil]

/-- The loop tries files from the front. -/
theorem prefix_of_retainLoop {sweep : Sweep} (hLoop : retainLoop maxBytes fails todo total = some sweep) :
    sweep.attempted <+: todo.map Prod.fst := by
  induction todo generalizing total sweep with
  | nil =>
      obtain rfl := Option.some.inj hLoop
      exact List.nil_prefix
  | cons entry rest ih =>
      obtain ⟨path, size⟩ := entry
      rw [retainLoop] at hLoop
      split at hLoop
      · obtain rfl := Option.some.inj hLoop
        exact List.nil_prefix
      · split at hLoop
        · obtain ⟨later, hLater, rfl⟩ := Option.map_eq_some_iff.mp hLoop
          exact (List.prefix_cons_inj path).mpr (ih hLater)
        · obtain ⟨less, -, hLoop⟩ := Option.bind_eq_some_iff.mp hLoop
          obtain ⟨later, hLater, rfl⟩ := Option.map_eq_some_iff.mp hLoop
          exact (List.prefix_cons_inj path).mpr (ih hLater)

/-- The files tried are the first of the sorted listing. -/
theorem prefix_of_enforceRetention {sweep : Sweep}
    (hSweep : enforceRetention maxBytes fails entries = some sweep) :
    sweep.attempted <+: (segments entries).map Prod.fst := by
  obtain ⟨total, -, hLoop⟩ := Option.bind_eq_some_iff.mp hSweep
  exact prefix_of_retainLoop hLoop

/-- Retention neither overflows nor underflows. It tries the segments in
ascending order until what is left fits or all have been tried, removes none
while what is left fits, and removes the shortest prefix that makes it fit when
no removal fails. -/
theorem retention_oldest_first (entries : List Entry) (maxBytes : UInt64) (fails : Str → Bool)
    (hNames : (entries.map Prod.fst).Nodup) (hFits : remaining entries [] < 2 ^ 64) :
    ∃ sweep, enforceRetention maxBytes fails entries = some sweep ∧
      (segments entries).Perm (entries.filter fun entry => isSegment entry.1) ∧
      ((segments entries).map Prod.fst).Pairwise (fun s t => nameLe s t = true ∧ s ≠ t) ∧
      sweep.attempted <+: (segments entries).map Prod.fst ∧
      sweep.removed = sweep.attempted.filter (fun path => !fails path) ∧
      (remaining entries sweep.removed ≤ maxBytes.toNat ∨
        sweep.attempted = (segments entries).map Prod.fst) ∧
      (∀ before path after, sweep.removed = before ++ path :: after →
        maxBytes.toNat < remaining entries before) ∧
      ((∀ path ∈ sweep.attempted, fails path = false) →
        ∃ k, sweep.removed = ((segments entries).map Prod.fst).take k ∧
          IsLeast {k | (((segments entries).drop k).map Entry.bytes).sum ≤ maxBytes.toNat} k) := by
  have hSum : remaining entries [] = Eviction.total Entry.bytes (segments entries) := by
    rw [remaining_eq]
    simp
  have hSmall : (0 : UInt64).toNat + Eviction.total Entry.bytes (segments entries) < UInt64.size := by
    rw [← hSum]
    simpa using hFits
  obtain ⟨total, hFold, hTotal⟩ := checkedSum hSmall
  have hTotal : total.toNat = 0 + Eviction.total Entry.bytes (segments entries) := hTotal
  obtain ⟨left, hLoop⟩ := retainLoop_eq maxBytes fails hTotal
  obtain ⟨rest, hSplit, hEnd, hBefore⟩ :=
    Eviction.visited_spec maxBytes.toNat (fun e => fails e.1) hTotal
  have hLeast := Eviction.visited_least maxBytes.toNat (fun e => fails e.1)
    (hTotal.trans (Nat.zero_add _))
  set tried := Eviction.visited Entry.bytes maxBytes.toNat (fun e => fails e.1) (segments entries)
    total.toNat with hTried
  refine ⟨_, by rw [enforceRetention, hFold, Option.bind_some, hLoop], perm_segments entries,
    ascending_segments hNames, ?_, ?_, ?_, ?_, ?_⟩
  · rw [hSplit, List.map_append]
    exact List.prefix_append _ _
  · dsimp only
    rw [List.filter_map]
    rfl
  · dsimp only
    rw [remaining_tried hSplit hNames]
    rcases hEnd with hUnder | rfl
    · exact Or.inl (by omega)
    · rw [List.append_nil] at hSplit
      exact Or.inr (congrArg (List.map Prod.fst) hSplit.symm)
  · intro before path after hRemoved
    obtain ⟨front, file, back, hFront, rfl⟩ := removed_split hRemoved
    have hCut : segments entries = front ++ (file :: back ++ rest) := by
      rw [hSplit, hFront, List.append_assoc]
    rw [remaining_tried hCut hNames]
    have hOver := hBefore front file back hFront
    omega
  · intro hAll
    have hNone : ∀ e ∈ tried, fails e.1 = false := fun e hMem =>
      hAll e.1 (List.mem_map.mpr ⟨e, hMem, rfl⟩)
    obtain ⟨k, hTake, hMin⟩ := hLeast hNone
    refine ⟨k, ?_, hMin⟩
    dsimp only
    rw [List.filter_eq_self.mpr fun e hMem => by simp [hNone e hMem], hTake, List.map_take]

/-- Three segments, and a file that is none. -/
def sampleEntries : List Entry :=
  [("qlog-3.parquet".toList, 40), ("qlog-1.parquet".toList, 50), ("qlog-2.parquet".toList, 60),
    ("qlog-4.parquet.tmp".toList, 7)]

/-- The oldest segment cannot be removed, so the next one goes. -/
theorem retention_oldest_first_sample :
    ∃ sweep,
      enforceRetention 100 (fun path => path == "qlog-1.parquet".toList) sampleEntries = some sweep ∧
        sweep.removed = ["qlog-2.parquet".toList] ∧
        (remaining sampleEntries sweep.removed ≤ (100 : UInt64).toNat ∨
          sweep.attempted = (segments sampleEntries).map Prod.fst) := by
  obtain ⟨sweep, hSweep, -, -, -, -, hEnd, -⟩ :=
    retention_oldest_first sampleEntries 100 (fun path => path == "qlog-1.parquet".toList)
      (by decide +kernel) (by decide +kernel)
  have hRemoved : (enforceRetention 100 (fun path => path == "qlog-1.parquet".toList)
      sampleEntries).map Sweep.removed = some ["qlog-2.parquet".toList] := by
    decide +kernel
  rw [hSweep] at hRemoved
  exact ⟨sweep, hSweep, Option.some.inj hRemoved, hEnd⟩

/-! The same call in the steps of `write_segment`. -/

/-- A listed size as the 64-bit number the call reads. -/
def asEntry (file : Str × Nat) : Entry := (file.1, UInt64.ofNat file.2)

/-- What the call finds in the directory. -/
def Dir.listed (files : Dir) : List Entry := files.entries.map fun file => asEntry (file.1, file.2.length)

theorem segments_listed (files : Dir) : segments files.listed = (listing files []).map asEntry := by
  have hSort : ∀ l : List (Str × Nat),
      (l.insertionSort fun a b => nameLe a.1 b.1 = true).map asEntry =
        (l.map asEntry).insertionSort fun a b => nameLe a.1 b.1 = true := fun l =>
    List.map_insertionSort _ _ asEntry l fun _ _ _ _ => Iff.rfl
  rw [listing, hSort, segments, Dir.listed, List.filter_map, List.map_map]
  simp
  rfl

variable {arrow : Arrow} {s : State} {c : Call} {sweep : Sweep}

/-- The events of a sweep: a removal for every file tried, then the end. -/
def Sweep.events (fails : Str → Bool) (sweep : Sweep) : List Event :=
  sweep.attempted.map (fun path => .remove (!fails path)) ++ [.finish]

/-- The loop over the listing is a run of the writer that removes what the loop
removes. -/
theorem run_retaining {todo : List (Str × Nat)} {total : Nat} (hCall : s.call = some c)
    (hPhase : c.phase = .retaining todo total) (hTotal : total < UInt64.size)
    (hSizes : ∀ file ∈ todo, file.2 < UInt64.size)
    (hLoop : retainLoop maxBytes fails (todo.map asEntry) (UInt64.ofNat total) = some sweep) :
    Machine.run (step arrow maxBytes.toNat) s (sweep.events fails) =
      some { s with
        files := sweep.removed.foldl (fun files path => files.erase path) s.files
        call := none } := by
  induction todo generalizing s c total sweep with
  | nil =>
      obtain rfl := Option.some.inj hLoop
      simp [Sweep.events, Machine.run, step, hCall, proceed, hPhase]
  | cons file rest ih =>
      obtain ⟨path, size⟩ := file
      have hSize : size < UInt64.size := hSizes (path, size) List.mem_cons_self
      have hRest : ∀ file ∈ rest, file.2 < UInt64.size := fun file hMem =>
        hSizes file (List.mem_cons_of_mem _ hMem)
      have hLe : UInt64.ofNat total ≤ maxBytes ↔ total ≤ maxBytes.toNat := by
        rw [UInt64.le_iff_toNat_le, UInt64.toNat_ofNat_of_lt' hTotal]
      rw [List.map_cons, asEntry, retainLoop] at hLoop
      split at hLoop
      case isTrue hUnder =>
        obtain rfl := Option.some.inj hLoop
        simp [Sweep.events, Machine.run, step, hCall, proceed, hPhase, hLe.mp hUnder]
      case isFalse hOver =>
        have hOver : ¬total ≤ maxBytes.toNat := fun hNat => hOver (hLe.mpr hNat)
        split at hLoop
        case isTrue hFails =>
          obtain ⟨later, hLater, rfl⟩ := Option.map_eq_some_iff.mp hLoop
          have hRun := @ih { s with call := some { c with phase := .retaining rest total } } _ _ _
            rfl rfl hTotal hRest hLater
          simpa [Sweep.events, Machine.run, step, hCall, proceed, hPhase, hOver, hFails] using hRun
        case isFalse hRemoves =>
          obtain ⟨less, hSub, hLoop⟩ := Option.bind_eq_some_iff.mp hLoop
          obtain ⟨later, hLater, rfl⟩ := Option.map_eq_some_iff.mp hLoop
          obtain ⟨hCovered, rfl⟩ : UInt64.ofNat size ≤ UInt64.ofNat total ∧
              UInt64.ofNat total - UInt64.ofNat size = less := by
            simpa [checkedSub] using hSub
          have hNat : size ≤ total := by
            rwa [UInt64.le_iff_toNat_le, UInt64.toNat_ofNat_of_lt' hSize,
              UInt64.toNat_ofNat_of_lt' hTotal] at hCovered
          rw [← UInt64.ofNat_sub hNat] at hLater
          have hRun := @ih
            { s with
              files := s.files.erase path
              call := some { c with phase := .retaining rest (total - size) } } _ _ _
            rfl rfl (by omega) hRest hLater
          simpa [Sweep.events, Machine.run, step, hCall, proceed, hPhase, hOver, hRemoves] using hRun

theorem total_asEntry {todo : List (Str × Nat)} (hSizes : ∀ file ∈ todo, file.2 < UInt64.size) :
    Eviction.total Entry.bytes (todo.map asEntry) = (todo.map Prod.snd).sum := by
  rw [Eviction.total, List.map_map]
  congr 1
  refine List.map_congr_left fun file hMem => ?_
  exact UInt64.toNat_ofNat_of_lt' (hSizes file hMem)

/-- After the rename, the steps of a call take the directory to what
`enforce_retention` leaves of it. -/
theorem run_readDir (hCall : s.call = some c) (hPhase : c.phase = .renamed)
    (hFits : ((listing s.files []).map Prod.snd).sum < UInt64.size)
    (hSweep : enforceRetention maxBytes fails s.files.listed = some sweep) :
    Machine.run (step arrow maxBytes.toNat) s (.readDir [] :: sweep.events fails) =
      some { s with
        files := sweep.removed.foldl (fun files path => files.erase path) s.files
        call := none } := by
  have hSizes : ∀ file ∈ listing s.files [], file.2 < UInt64.size := fun file hMem =>
    Nat.lt_of_le_of_lt (List.le_sum_of_mem (List.mem_map.mpr ⟨file, hMem, rfl⟩)) hFits
  have hTotal := total_asEntry hSizes
  have hSmall : (0 : UInt64).toNat + Eviction.total Entry.bytes ((listing s.files []).map asEntry) <
      UInt64.size := by
    rw [hTotal]
    simpa using hFits
  obtain ⟨total, hFold, hNat⟩ := checkedSum hSmall
  obtain rfl : total = UInt64.ofNat ((listing s.files []).map Prod.snd).sum := by
    rw [← UInt64.toNat_inj, UInt64.toNat_ofNat_of_lt' hFits, hNat, hTotal]
    exact Nat.zero_add _
  rw [enforceRetention, segments_listed, hFold, Option.bind_some] at hSweep
  have hRun := @run_retaining maxBytes fails arrow
    { s with
      call := some
        { c with
          phase :=
            .retaining (listing s.files []) ((listing s.files []).map Prod.snd).sum } } _ _ _ _
    rfl rfl hFits hSizes hSweep
  simpa [Machine.run, step, hCall, proceed, hPhase] using hRun

end Qlog

end RustDns
