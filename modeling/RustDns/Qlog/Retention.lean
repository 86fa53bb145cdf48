import RustDns.Qlog.Segment

/-! The size cap of the log directory. `enforce_retention` counts and removes
segments only, so what else is in the directory decides whether the cap
holds. -/
namespace RustDns

namespace Qlog

variable {arrow : Arrow} {maxBytes : Nat} {s s' : State} {e : Event}

def hiddenSize (name : Str) (bytes : Bytes) : Nat := if isSegment name then 0 else bytes.length

def segmentSize (name : Str) (bytes : Bytes) : Nat := if isSegment name then bytes.length else 0

/-- The size of the files retention does not see. -/
def Dir.hidden (files : Dir) : Nat := Directory.total hiddenSize files

/-- The size of a directory, by what retention lists and what it does not. -/
theorem size_eq (files : Dir) :
    files.size = Directory.total segmentSize files + files.hidden := by
  unfold Dir.size Dir.hidden Directory.total
  induction files.entries with
  | nil => rfl
  | cons file rest ih =>
      have hFile : file.2.length = segmentSize file.1 file.2 + hiddenSize file.1 file.2 := by
        unfold segmentSize hiddenSize
        split <;> omega
      simp only [List.map_cons, List.sum_cons] at ih ⊢
      omega

/-- Retention sees every entry, removals succeed, and no call ends early with
bytes in its temporary file. -/
def Clean (s : State) : Event → Prop
  | .fail | .crash =>
      ∀ c bytes, s.call = some c → s.files.lookup (tempName c.name) = some bytes → bytes = []
  | .readDir unread => unread = []
  | .remove ok => ok = true
  | _ => True

/-- What retention has left to do adds up to the size of the directory. -/
structure Retaining (files : Dir) (todo : List (Str × Nat)) (total : Nat) : Prop where
  hidden : files.hidden = 0
  size : files.size = total
  total : total = (todo.map Prod.snd).sum
  nodup : (todo.map Prod.fst).Nodup
  present : ∀ file ∈ todo, ∃ bytes, files.lookup file.1 = some bytes ∧ bytes.length = file.2

/-- Nothing is hidden but the temporary file of the call. -/
def CallPhase.Tidy (files : Dir) (temp : Str) : CallPhase → Prop
  | .named | .renamed => files.hidden = 0
  | .created | .closed => Dir.hidden (files.erase temp) = 0
  | .retaining todo total => Retaining files todo total

def Tidy (s : State) : Prop :=
  match s.call with
  | none => s.files.hidden = 0
  | some c => isSegment c.name = true ∧ c.phase.Tidy s.files (tempName c.name)

/-- What a tidy directory holds while its call is in this phase. -/
theorem Tidy.at {c : Call} {phase : CallPhase} (hTidy : Tidy s) (hCall : s.call = some c)
    (hPhase : c.phase = phase) :
    isSegment c.name = true ∧ phase.Tidy s.files (tempName c.name) := by
  subst hPhase
  rw [Tidy, hCall] at hTidy
  exact hTidy

/-- A temporary file weighs what it holds. -/
theorem hidden_temp {files : Dir} {name : Str} {bytes : Bytes}
    (hLookup : files.lookup (tempName name) = some bytes) :
    files.hidden = bytes.length + Dir.hidden (files.erase (tempName name)) := by
  have hTotal := Directory.total_erase hiddenSize hLookup
  rw [hiddenSize, isSegment_tempName, if_neg (by decide)] at hTotal
  exact hTotal.symm

/-- A segment is no hidden file. -/
theorem hidden_insert_segment {files : Dir} {name : Str} {bytes : Bytes}
    (hSegment : isSegment name = true) :
    Dir.hidden (files.insert name bytes) = Dir.hidden (files.erase name) := by
  rw [Dir.hidden, Directory.total_insert, hiddenSize, hSegment, if_pos rfl, Nat.zero_add]
  rfl

/-- Removing a file hides nothing. -/
theorem hidden_erase_le (files : Dir) (name : Str) :
    Dir.hidden (files.erase name) ≤ files.hidden :=
  Directory.total_erase_le hiddenSize

/-- The call leaves no bytes behind. -/
theorem hidden_of_clean {c : Call} (hCall : s.call = some c) (hTidy : Tidy s)
    (hEmpty : ∀ bytes, s.files.lookup (tempName c.name) = some bytes → bytes = []) :
    s.files.hidden = 0 := by
  obtain ⟨-, hPhase⟩ := hTidy.at hCall rfl
  have hErased : Dir.hidden (s.files.erase (tempName c.name)) = 0 → s.files.hidden = 0 := by
    intro hRest
    cases hLookup : s.files.lookup (tempName c.name) with
    | none => rwa [Directory.erase_of_none hLookup] at hRest
    | some bytes => rw [hidden_temp hLookup, hRest, hEmpty bytes hLookup, List.length_nil]
  cases hCase : c.phase with
  | named => rwa [hCase] at hPhase
  | renamed => rwa [hCase] at hPhase
  | created =>
      rw [hCase] at hPhase
      exact hErased hPhase
  | closed =>
      rw [hCase] at hPhase
      exact hErased hPhase
  | retaining todo total =>
      rw [hCase] at hPhase
      exact hPhase.hidden

/-- The listing holds the readable segments with their lengths, in some order.
-/
theorem perm_listing (files : Dir) (unread : List Str) :
    (listing files unread).Perm
      ((files.entries.filter fun file => isSegment file.1 && !unread.contains file.1).map
        fun file => (file.1, file.2.length)) :=
  List.perm_insertionSort _ _

theorem mem_listing {files : Dir} {unread : List Str} {file : Str × Nat}
    (hMem : file ∈ listing files unread) :
    ∃ bytes, files.lookup file.1 = some bytes ∧ bytes.length = file.2 := by
  obtain ⟨entry, hEntry, rfl⟩ := List.mem_map.mp ((perm_listing files unread).mem_iff.mp hMem)
  exact ⟨entry.2, AList.mem_lookup_iff.mpr (List.mem_filter.mp hEntry).1, rfl⟩

/-- The listing names each file once. -/
theorem nodup_listing (files : Dir) (unread : List Str) :
    ((listing files unread).map Prod.fst).Nodup := by
  rw [((perm_listing files unread).map Prod.fst).nodup_iff, List.map_map]
  have hKeys : (files.entries.map Sigma.fst).Nodup := files.nodupKeys
  exact hKeys.sublist (List.filter_sublist.map Sigma.fst)

/-- A complete listing adds up to the size of the segments. -/
theorem sum_listing (files : Dir) :
    ((listing files []).map Prod.snd).sum = Directory.total segmentSize files := by
  rw [((perm_listing files []).map Prod.snd).sum_eq, List.map_map, Directory.total]
  induction files.entries with
  | nil => rfl
  | cons file rest ih =>
      rw [List.filter_cons, List.map_cons, List.sum_cons, ← ih]
      cases hSegment : isSegment file.1 with
      | true => simp [segmentSize, hSegment]
      | false => simp [segmentSize, hSegment]

theorem retaining_listing {files : Dir} (hHidden : files.hidden = 0) :
    Retaining files (listing files []) ((listing files []).map Prod.snd).sum where
  hidden := hHidden
  size := by rw [size_eq, hHidden, sum_listing, Nat.add_zero]
  total := rfl
  nodup := nodup_listing files []
  present := fun _ hMem => mem_listing hMem

/-- Removing the oldest segment leaves the rest to do. -/
theorem Retaining.remove {files : Dir} {name : Str} {size total : Nat} {rest : List (Str × Nat)}
    (hRetaining : Retaining files ((name, size) :: rest) total) :
    Retaining (files.erase name) rest (total - size) := by
  obtain ⟨bytes, hLookup, hLength⟩ := hRetaining.present (name, size) List.mem_cons_self
  obtain ⟨hFresh, hNodup⟩ := List.nodup_cons.mp hRetaining.nodup
  have hSize : bytes.length + Dir.size (files.erase name) = files.size :=
    Directory.total_erase (fun _ bytes => bytes.length) hLookup
  have hTotal := hRetaining.total
  have hBefore := hRetaining.size
  rw [List.map_cons, List.sum_cons] at hTotal
  simp only at hLength hTotal
  refine ⟨?_, by omega, by omega, hNodup, fun file hMem => ?_⟩
  · have hLe := hidden_erase_le files name
    rw [hRetaining.hidden] at hLe
    exact Nat.le_zero.mp hLe
  · obtain ⟨bytes', hLookup', hLength'⟩ := hRetaining.present file (List.mem_cons_of_mem _ hMem)
    have hNe : file.1 ≠ name := fun hEq => hFresh (List.mem_map.mpr ⟨file, hMem, hEq⟩)
    exact ⟨bytes', by rw [AList.lookup_erase_ne hNe, hLookup'], hLength'⟩

/-- With nothing to remove any more, or under the cap, the directory is under
the cap. -/
theorem Retaining.under_cap {files : Dir} {todo : List (Str × Nat)} {total : Nat}
    (hRetaining : Retaining files todo total) (hDone : todo = [] ∨ total ≤ maxBytes) :
    files.size ≤ maxBytes := by
  rw [hRetaining.size]
  rcases hDone with rfl | hUnder
  · rw [hRetaining.total]
    exact Nat.zero_le _
  · exact hUnder

theorem erase_insert_temp (files : Dir) (temp : Str) (bytes : Bytes) :
    Dir.hidden ((files.insert temp bytes).erase temp) = Dir.hidden (files.erase temp) := by
  have hLookup : (files.insert temp bytes).lookup temp = some bytes := AList.lookup_insert files
  have hTotal := Directory.total_erase hiddenSize hLookup
  rw [Directory.total_insert] at hTotal
  exact Nat.add_left_cancel hTotal

/-- A clean step leaves no temporary file but that of its call. -/
theorem tidy_step (hTidy : Tidy s) (hClean : Clean s e) (hStep : step arrow maxBytes s e = some s') :
    Tidy s' := by
  cases step_cases hStep with
  | call nowMs hIdle hBatch =>
      rw [Tidy, hIdle] at hTidy
      exact ⟨isSegment_segmentName _ _, hTidy⟩
  | @create c hCall hPhase =>
      obtain ⟨hName, hHidden⟩ := hTidy.at hCall hPhase
      have hLe := hidden_erase_le s.files (tempName c.name)
      rw [hHidden] at hLe
      refine ⟨hName, ?_⟩
      change Dir.hidden (AList.erase _ (s.files.insert (tempName c.name) _)) = 0
      rw [erase_insert_temp, Nat.le_zero.mp hLe]
  | @write c bytes hCall hPhase =>
      obtain ⟨hName, hHidden⟩ := hTidy.at hCall hPhase
      simp only [Tidy, hCall]
      refine ⟨hName, ?_⟩
      rw [hPhase]
      change Dir.hidden ((s.files.insert _ _).erase _) = 0
      rw [erase_insert_temp]
      exact hHidden
  | close hCall hPhase =>
      obtain ⟨hName, hHidden⟩ := hTidy.at hCall hPhase
      refine ⟨hName, ?_⟩
      change Dir.hidden ((s.files.insert _ _).erase _) = 0
      rw [erase_insert_temp]
      exact hHidden
  | @rename c bytes hCall hPhase hTemp =>
      obtain ⟨hName, hHidden⟩ := hTidy.at hCall hPhase
      have hHidden : Dir.hidden (s.files.erase (tempName c.name)) = 0 := hHidden
      have hLe := hidden_erase_le (s.files.erase (tempName c.name)) c.name
      rw [hHidden] at hLe
      refine ⟨hName, ?_⟩
      change Dir.hidden ((s.files.erase _).insert _ _) = 0
      rw [hidden_insert_segment hName, Nat.le_zero.mp hLe]
  | readDir unread hCall hPhase =>
      obtain ⟨hName, hHidden⟩ := hTidy.at hCall hPhase
      obtain rfl : unread = [] := hClean
      exact ⟨hName, retaining_listing hHidden⟩
  | remove hCall hPhase hOver =>
      obtain ⟨hName, hRetaining⟩ := hTidy.at hCall hPhase
      exact ⟨hName, hRetaining.remove⟩
  | skip hCall hPhase hOver => exact absurd hClean (by simp [Clean])
  | finish hCall hPhase hDone =>
      obtain ⟨-, hRetaining⟩ := hTidy.at hCall hPhase
      exact hRetaining.hidden
  | fail hCall hPhase =>
      have hHidden := hidden_of_clean hCall hTidy fun bytes hLookup => hClean _ bytes hCall hLookup
      exact hHidden
  | crash =>
      cases hCall : s.call with
      | none =>
          rw [Tidy, hCall] at hTidy
          exact hTidy
      | some c =>
          have hHidden :=
            hidden_of_clean hCall hTidy fun bytes hLookup => hClean c bytes hCall hLookup
          exact hHidden

theorem hidden_eq_zero {files : Dir}
    (hOnly : ∀ name bytes, files.lookup name = some bytes → isSegment name = false → bytes = []) :
    files.hidden = 0 := by
  rw [Dir.hidden, Directory.total, List.sum_eq_zero]
  intro n hMem
  obtain ⟨file, hFile, rfl⟩ := List.mem_map.mp hMem
  unfold hiddenSize
  split
  · rfl
  · rename_i hOther
    have hLookup : files.lookup file.1 = some file.2 := AList.mem_lookup_iff.mpr hFile
    rw [hOnly file.1 file.2 hLookup (by simpa using hOther), List.length_nil]

/-- On a directory of segments, when no call leaves bytes in a temporary file,
every call that returns `Ok` leaves the directory under its cap. -/
theorem cap_after_write {es : List Event} {t : State} (hIdle : s.call = none)
    (hOnly : ∀ name bytes, s.files.lookup name = some bytes → isSegment name = false → bytes = [])
    (hClean : Machine.Along (step arrow maxBytes) Clean s es)
    (hRun : Machine.run (step arrow maxBytes) s es = some t)
    (hFinish : step arrow maxBytes t .finish = some s') : s'.files.size ≤ maxBytes := by
  have hStart : Tidy s := by
    rw [Tidy, hIdle]
    exact hidden_eq_zero hOnly
  have hTidy := Machine.run_invariant_along (fun _ _ _ => tidy_step) hStart hClean hRun
  cases step_cases hFinish with
  | finish hCall hPhase hDone =>
      exact (hTidy.at hCall hPhase).2.under_cap hDone

def sampleRecord : LogRecord := ⟨0, [], ['a'], ['A'], ['b'], 0⟩

def emptyDir : State := ⟨∅, 0, none⟩

/-- A call that goes well, up to its retention. -/
def wholeCall (nowMs : Nat) : List Event :=
  [.call [sampleRecord] nowMs, .create, .write 50, .close, .rename, .readDir []]

/-- A call that fails when its file is closed. -/
def failedCall (nowMs : Nat) : List Event :=
  [.call [sampleRecord] nowMs, .create, .write 106, .fail]

/-- Of two segments that do not fit, the older one goes. -/
theorem cap_after_write_twice :
    ∃ t s', Machine.run (step Arrow.numbered 150) emptyDir
        (wholeCall 1 ++ [.finish] ++ wholeCall 2 ++ [.remove true]) = some t ∧
      step Arrow.numbered 150 t .finish = some s' ∧ s'.files.keys = [segmentName 2 1] ∧
      s'.files.size ≤ 150 := by
  have hEnd : ((Machine.run (step Arrow.numbered 150) emptyDir
      (wholeCall 1 ++ [.finish] ++ wholeCall 2 ++ [.remove true])).bind fun t =>
        (step Arrow.numbered 150 t .finish).map fun s' => s'.files.keys) =
      some [segmentName 2 1] := by
    decide +kernel
  obtain ⟨t, hRun, hLast⟩ := Option.bind_eq_some_iff.mp hEnd
  obtain ⟨s', hFinish, hKeys⟩ := Option.map_eq_some_iff.mp hLast
  have hClean : ∀ e ∈ wholeCall 1 ++ [.finish] ++ wholeCall 2 ++ [.remove true],
      ∀ s, Clean s e := by
    simp [wholeCall, Clean]
  exact ⟨t, s', hRun, hFinish, hKeys,
    cap_after_write rfl (by simp [emptyDir]) (Machine.along_of_mem hClean _) hRun hFinish⟩

/-- What a failed call leaves behind is never counted: the next call returns
`Ok` with the directory over its cap. -/
theorem cap_exceeded :
    emptyDir.files.size ≤ 150 ∧
      ∃ t s', Machine.run (step Arrow.numbered 150) emptyDir (failedCall 1 ++ wholeCall 2) = some t ∧
        step Arrow.numbered 150 t .finish = some s' ∧ 150 < s'.files.size := by
  have hEnd : ((Machine.run (step Arrow.numbered 150) emptyDir
      (failedCall 1 ++ wholeCall 2)).bind fun t =>
        (step Arrow.numbered 150 t .finish).map fun s' => s'.files.size) = some 212 := by
    decide +kernel
  obtain ⟨t, hRun, hLast⟩ := Option.bind_eq_some_iff.mp hEnd
  obtain ⟨s', hFinish, hSize⟩ := Option.map_eq_some_iff.mp hLast
  refine ⟨by decide, t, s', hRun, hFinish, ?_⟩
  rw [hSize]
  decide

end Qlog

end RustDns
