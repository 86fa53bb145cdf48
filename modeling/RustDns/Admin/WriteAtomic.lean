import RustDns.Admin.Machine
import RustDns.Dns.Message
import RustDns.Library.FileSystem
import RustDns.Library.Indexed

/-! Calls of `write_atomic` in any interleaving of their system calls. The
temporary file is named after the target, so calls may meet in it. -/
namespace RustDns

namespace WriteAtomic

open Admin FileSystem

/-- Where a call is: before the open, writing through its open file, returned,
or gone with its process. -/
inductive Phase where
  | ready
  | writing (inode : Inode Path) (written : Nat)
  | returned (ok : Bool)
  | dead

/-- Between its open and its rename. -/
def Phase.opened : Phase → Bool
  | .writing _ _ => true
  | _ => false

structure Call where
  path : Path
  bytes : Bytes
  phase : Phase

def Call.temp (c : Call) : Path := tempPath c.path

structure State where
  fs : FS Path UInt8
  calls : List Call

inductive Event where
  | call (path : Path) (bytes : Bytes)
  | openTemp (i : Nat)
  | write (i : Nat) (count : Nat)
  | rename (i : Nat)
  | fail (i : Nat)
  | crash

def start (initial : Path → Option Bytes) : State := ⟨ofContents initial, []⟩

def setPhase (s : State) (i : Nat) (c : Call) (phase : Phase) : State :=
  { s with calls := s.calls.set i { c with phase := phase } }

/-- A call that is not over has no further steps after a crash. -/
def Phase.crash : Phase → Phase
  | .returned ok => .returned ok
  | _ => .dead

def step (s : State) : Event → Option State
  | .call path bytes => some { s with calls := s.calls ++ [⟨path, bytes, .ready⟩] }
  | .openTemp i =>
      match s.calls[i]? with
      | some ⟨path, bytes, .ready⟩ =>
          let (fs, inode) := create s.fs (tempPath path)
          some { setPhase s i ⟨path, bytes, .ready⟩ (.writing inode 0) with fs := fs }
      | _ => none
  | .write i count =>
      match s.calls[i]? with
      | some ⟨path, bytes, .writing inode written⟩ =>
          let chunk := (bytes.drop written).take count
          some
            { setPhase s i ⟨path, bytes, .writing inode written⟩
                (.writing inode (written + chunk.length)) with
              fs := writeAt s.fs inode written chunk }
      | _ => none
  | .rename i =>
      match s.calls[i]? with
      | some ⟨path, bytes, .writing inode written⟩ =>
          if written < bytes.length then none
          else
            match FileSystem.rename s.fs (tempPath path) path with
            | some fs =>
                some { setPhase s i ⟨path, bytes, .writing inode written⟩ (.returned true) with
                  fs := fs }
            | none => some (setPhase s i ⟨path, bytes, .writing inode written⟩ (.returned false))
      | _ => none
  | .fail i =>
      match s.calls[i]? with
      | some ⟨path, bytes, .ready⟩ => some (setPhase s i ⟨path, bytes, .ready⟩ (.returned false))
      | some ⟨path, bytes, .writing inode written⟩ =>
          some (setPhase s i ⟨path, bytes, .writing inode written⟩ (.returned false))
      | _ => none
  | .crash => some { s with calls := s.calls.map fun c => { c with phase := c.phase.crash } }

/-- The steps of the calls, each with what it finds in the state. -/
inductive Step (s : State) : Event → State → Prop where
  | call (path : Path) (bytes : Bytes) :
      Step s (.call path bytes) { s with calls := s.calls ++ [⟨path, bytes, .ready⟩] }
  | openTemp {i : Nat} {c : Call} (hCall : s.calls[i]? = some c) (hPhase : c.phase = .ready) :
      Step s (.openTemp i)
        { setPhase s i c (.writing (create s.fs c.temp).2 0) with fs := (create s.fs c.temp).1 }
  | write {i written : Nat} {c : Call} {inode : Inode Path} (count : Nat)
      (hCall : s.calls[i]? = some c) (hPhase : c.phase = .writing inode written) :
      Step s (.write i count)
        { setPhase s i c
            (.writing inode (written + ((c.bytes.drop written).take count).length)) with
          fs := writeAt s.fs inode written ((c.bytes.drop written).take count) }
  | rename {i written : Nat} {c : Call} {inode : Inode Path} {fs : FS Path UInt8}
      (hCall : s.calls[i]? = some c) (hPhase : c.phase = .writing inode written)
      (hAll : c.bytes.length ≤ written) (hRename : FileSystem.rename s.fs c.temp c.path = some fs) :
      Step s (.rename i) { setPhase s i c (.returned true) with fs := fs }
  | lost {i written : Nat} {c : Call} {inode : Inode Path} (hCall : s.calls[i]? = some c)
      (hPhase : c.phase = .writing inode written)
      (hRename : FileSystem.rename s.fs c.temp c.path = none) :
      Step s (.rename i) (setPhase s i c (.returned false))
  | fail {i : Nat} {c : Call} (hCall : s.calls[i]? = some c)
      (hPhase : c.phase = .ready ∨ c.phase.opened = true) :
      Step s (.fail i) (setPhase s i c (.returned false))
  | crash : Step s .crash
      { s with calls := s.calls.map fun c => { c with phase := c.phase.crash } }

variable {s s' : State} {e : Event}

/-- Each step with what it found. -/
theorem step_cases (hStep : step s e = some s') : Step s e s' := by
  cases e with
  | call path bytes =>
      obtain rfl := Option.some.inj hStep
      exact .call path bytes
  | openTemp i =>
      simp only [step] at hStep
      split at hStep <;> [skip; simp at hStep]
      obtain rfl := Option.some.inj hStep
      exact .openTemp ‹_› rfl
  | write i count =>
      simp only [step] at hStep
      split at hStep <;> [skip; simp at hStep]
      obtain rfl := Option.some.inj hStep
      exact .write count ‹_› rfl
  | rename i =>
      simp only [step] at hStep
      split at hStep <;> [skip; simp at hStep]
      split at hStep <;> [simp at hStep; skip]
      rename_i hCall hAll
      split at hStep
      · rename_i hRename
        obtain rfl := Option.some.inj hStep
        exact .rename hCall rfl (Nat.le_of_not_lt hAll) hRename
      · rename_i hRename
        obtain rfl := Option.some.inj hStep
        exact .lost hCall rfl hRename
  | fail i =>
      simp only [step] at hStep
      split at hStep <;> [skip; skip; simp at hStep]
      · obtain rfl := Option.some.inj hStep
        exact .fail ‹_› (Or.inl rfl)
      · obtain rfl := Option.some.inj hStep
        exact .fail ‹_› (Or.inr rfl)
  | crash =>
      obtain rfl := Option.some.inj hStep
      exact .crash

/-- The targets and contents of all calls made so far. -/
def State.made (s : State) : List (Path × Bytes) := s.calls.map fun c => (c.path, c.bytes)

/-- No temporary file is a target, and no two calls have the same temporary
file open. -/
def Apart (s : State) : Event → Prop
  | .call path _ => tempPath path ≠ path ∧
      ∀ p ∈ s.made, tempPath path ≠ p.1 ∧ tempPath p.1 ≠ path
  | .openTemp i => ∀ c ∈ s.calls[i]?, ∀ j < s.calls.length, j ≠ i → ∀ c' ∈ s.calls[j]?,
      c'.phase.opened = true → c'.temp ≠ c.temp
  | _ => True

instance decidableApart (s : State) : (e : Event) → Decidable (Apart s e)
  | .call _ _ => inferInstanceAs (Decidable (_ ∧ _))
  | .openTemp i => inferInstanceAs (Decidable (∀ c ∈ s.calls[i]?, _))
  | .write _ _ | .rename _ | .fail _ | .crash => isTrue trivial

/-- The target has its initial content or that of a call made for it. -/
def Intact (initial : Path → Option Bytes) (s : State) (path : Path) : Prop :=
  content s.fs path = initial path ∨ ∃ p ∈ s.made, p.1 = path ∧ content s.fs path = some p.2

/-- The open file of a call is its temporary file, with what has been written
so far. -/
def Call.Opened (fs : FS Path UInt8) (c : Call) : Prop :=
  ∀ inode written, c.phase = .writing inode written →
    fs.dir c.temp = some inode ∧ content fs c.temp = some (c.bytes.take written) ∧
      written ≤ c.bytes.length

structure Inv (initial : Path → Option Bytes) (s : State) : Prop where
  well : WellFormed s.fs
  apart : ∀ p ∈ s.made, ∀ q ∈ s.made, tempPath p.1 ≠ q.1
  distinct : ∀ (i j : Nat) c c', s.calls[i]? = some c → s.calls[j]? = some c' →
    c.phase.opened = true → c'.phase.opened = true → c.temp = c'.temp → i = j
  opened : ∀ c ∈ s.calls, c.Opened s.fs
  targets : ∀ p ∈ s.made, Intact initial s p.1
  others : ∀ path, (∀ p ∈ s.made, p.1 ≠ path ∧ tempPath p.1 ≠ path) →
    content s.fs path = initial path

variable {initial : Path → Option Bytes}

theorem mem_made {c : Call} (hMem : c ∈ s.calls) : (c.path, c.bytes) ∈ s.made :=
  List.mem_map.mpr ⟨c, hMem, rfl⟩

theorem made_setPhase {i : Nat} {c : Call} (hCall : s.calls[i]? = some c) (phase : Phase)
    (fs : FS Path UInt8) : State.made { setPhase s i c phase with fs := fs } = s.made := by
  have hSame : s.made[i]? = some (c.path, c.bytes) := by
    rw [State.made, List.getElem?_map, hCall]
    rfl
  change (s.calls.set i _).map _ = s.made
  rw [List.map_set]
  exact Indexed.set_of_getElem? hSame

/-- No other call has the temporary file of an open call open. -/
theorem Inv.alone {i : Nat} {c : Call} (hInv : Inv initial s) (hCall : s.calls[i]? = some c)
    (hOpen : c.phase.opened = true) :
    ∀ j c', s.calls[j]? = some c' → j ≠ i → c'.phase.opened = true → c'.temp ≠ c.temp :=
  fun j c' hj hNe hOpen' hTemp => hNe (hInv.distinct j i c' c hj hCall hOpen' hOpen hTemp)

theorem Inv.temp_ne {c : Call} (hInv : Inv initial s) (hMem : c ∈ s.calls) : c.temp ≠ c.path :=
  hInv.apart _ (mem_made hMem) _ (mem_made hMem)

/-- A path that is nobody's temporary file is a target or untouched. -/
theorem Inv.intact {path : Path} (hInv : Inv initial s)
    (hTemp : ∀ p ∈ s.made, tempPath p.1 ≠ path) : Intact initial s path := by
  by_cases hKnown : ∃ p ∈ s.made, p.1 = path
  · obtain ⟨p, hp, rfl⟩ := hKnown
    exact hInv.targets p hp
  · exact Or.inl (hInv.others path fun p hp => ⟨fun hEq => hKnown ⟨p, hp, hEq⟩, hTemp p hp⟩)

/-- A call moves on: it touches its temporary file and its target only, and
the target only to put its bytes there. -/
theorem Inv.advance {i : Nat} {c : Call} {phase : Phase} {fs : FS Path UInt8}
    (hInv : Inv initial s) (hCall : s.calls[i]? = some c) (hWell : WellFormed fs)
    (hFrame : ∀ path, path ≠ c.temp → path ≠ c.path →
      fs.dir path = s.fs.dir path ∧ content fs path = content s.fs path)
    (hTarget : content fs c.path = content s.fs c.path ∨ content fs c.path = some c.bytes)
    (hNew : Call.Opened fs { c with phase := phase })
    (hAlone : ∀ j c', s.calls[j]? = some c' → j ≠ i → c'.phase.opened = true → c'.temp ≠ c.temp) :
    Inv initial { setPhase s i c phase with fs := fs } := by
  have hMade := made_setPhase hCall phase fs
  have hMem := List.mem_of_getElem? hCall
  refine ⟨hWell, by rw [hMade]; exact hInv.apart, ?_, ?_, ?_, ?_⟩
  · intro j k c₁ c₂ hj hk hOpen₁ hOpen₂ hTemp
    rcases Indexed.getElem?_set_cases hj with ⟨rfl, rfl⟩ | ⟨hjNe, hjOld⟩
    · rcases Indexed.getElem?_set_cases hk with ⟨rfl, -⟩ | ⟨hkNe, hkOld⟩
      · rfl
      · exact absurd hTemp.symm (hAlone k c₂ hkOld hkNe hOpen₂)
    · rcases Indexed.getElem?_set_cases hk with ⟨rfl, rfl⟩ | ⟨-, hkOld⟩
      · exact absurd hTemp (hAlone j c₁ hjOld hjNe hOpen₁)
      · exact hInv.distinct j k c₁ c₂ hjOld hkOld hOpen₁ hOpen₂ hTemp
  · intro c' hMem'
    obtain ⟨j, hj⟩ := List.mem_iff_getElem?.mp hMem'
    rcases Indexed.getElem?_set_cases hj with ⟨-, rfl⟩ | ⟨hNe, hOld⟩
    · exact hNew
    · intro inode written hPhase
      have hTemp := hAlone j c' hOld hNe (by rw [hPhase]; rfl)
      have hPath := hInv.apart _ (mem_made (List.mem_of_getElem? hOld)) _ (mem_made hMem)
      obtain ⟨hDir, hContent⟩ := hFrame c'.temp hTemp hPath
      rw [hDir, hContent]
      exact hInv.opened c' (List.mem_of_getElem? hOld) inode written hPhase
  · intro p hp
    rw [hMade] at hp
    rw [Intact, hMade]
    by_cases hPath : p.1 = c.path
    · rw [hPath]
      rcases hTarget with hSame | hBytes
      · have hOld := hInv.targets p hp
        rw [Intact, hPath] at hOld
        change content fs c.path = _ ∨ _
        rw [hSame]
        exact hOld
      · exact Or.inr ⟨(c.path, c.bytes), mem_made hMem, rfl, hBytes⟩
    · have hTemp : p.1 ≠ c.temp := fun hEq => hInv.apart _ (mem_made hMem) p hp hEq.symm
      have hContent := (hFrame p.1 hTemp hPath).2
      change content fs p.1 = _ ∨ _
      rw [hContent]
      exact hInv.targets p hp
  · intro path hOther
    rw [hMade] at hOther
    obtain ⟨hPath, hTemp⟩ := hOther _ (mem_made hMem)
    have hContent := (hFrame path (Ne.symm hTemp) (Ne.symm hPath)).2
    change content fs path = _
    rw [hContent]
    exact hInv.others path hOther

/-- Calls that are over or gone touch nothing. -/
theorem Inv.settle {calls : List Call} (hInv : Inv initial s)
    (hMade : State.made { s with calls := calls } = s.made)
    (hOpened : ∀ (i : Nat) c, calls[i]? = some c → c.phase.opened = true → s.calls[i]? = some c) :
    Inv initial { s with calls := calls } where
  well := hInv.well
  apart := by
    rw [hMade]
    exact hInv.apart
  distinct := fun i j c c' hi hj hOpen hOpen' =>
    hInv.distinct i j c c' (hOpened i c hi hOpen) (hOpened j c' hj hOpen') hOpen hOpen'
  opened := fun c hMem inode written hPhase => by
    obtain ⟨i, hi⟩ := List.mem_iff_getElem?.mp hMem
    have hOld := hOpened i c hi (by rw [hPhase]; rfl)
    exact hInv.opened c (List.mem_of_getElem? hOld) inode written hPhase
  targets := fun p hp => by
    rw [hMade] at hp
    rw [Intact, hMade]
    exact hInv.targets p hp
  others := by
    rw [hMade]
    exact hInv.others

/-- A call may return at any time. -/
theorem inv_returned {i : Nat} {c : Call} (hInv : Inv initial s) (hCall : s.calls[i]? = some c)
    (ok : Bool) : Inv initial (setPhase s i c (.returned ok)) := by
  refine hInv.settle (made_setPhase hCall _ s.fs) fun j c' hj hOpen => ?_
  rcases Indexed.getElem?_set_cases hj with ⟨-, rfl⟩ | ⟨-, hOld⟩
  · exact absurd hOpen (by simp [Phase.opened])
  · exact hOld

/-- A crash takes the calls and leaves the files. -/
theorem inv_crash (hInv : Inv initial s) :
    Inv initial { s with calls := s.calls.map fun c => { c with phase := c.phase.crash } } := by
  refine hInv.settle (by simp [State.made]) fun i c hi hOpen => ?_
  rw [List.getElem?_map] at hi
  obtain ⟨c', -, rfl⟩ := Option.map_eq_some_iff.mp hi
  cases hPhase : c'.phase <;> simp [Phase.crash, Phase.opened, hPhase] at hOpen

/-- A call that keeps apart from the others begins. -/
theorem inv_call {path : Path} {bytes : Bytes} (hInv : Inv initial s)
    (hApart : Apart s (.call path bytes)) :
    Inv initial { s with calls := s.calls ++ [⟨path, bytes, .ready⟩] } := by
  obtain ⟨hSelf, hOthers⟩ := hApart
  have hMade : State.made { s with calls := s.calls ++ [⟨path, bytes, .ready⟩] } =
      s.made ++ [(path, bytes)] := by
    simp [State.made]
  have hOld : ∀ (i : Nat) c, (s.calls ++ [⟨path, bytes, .ready⟩])[i]? = some c →
      c.phase.opened = true → s.calls[i]? = some c := by
    intro i c hi hOpen
    rw [List.getElem?_append] at hi
    split at hi
    · exact hi
    · have hNew := List.mem_singleton.mp (List.mem_of_getElem? hi)
      rw [hNew] at hOpen
      exact absurd hOpen (by simp [Phase.opened])
  refine ⟨hInv.well, ?_, ?_, ?_, ?_, ?_⟩
  · rw [hMade]
    intro p hp q hq
    rcases List.mem_append.mp hp with hpOld | hpNew
    · rcases List.mem_append.mp hq with hqOld | hqNew
      · exact hInv.apart p hpOld q hqOld
      · obtain rfl := List.mem_singleton.mp hqNew
        exact (hOthers p hpOld).2
    · obtain rfl := List.mem_singleton.mp hpNew
      rcases List.mem_append.mp hq with hqOld | hqNew
      · exact (hOthers q hqOld).1
      · obtain rfl := List.mem_singleton.mp hqNew
        exact hSelf
  · intro i j c c' hi hj hOpen hOpen'
    exact hInv.distinct i j c c' (hOld i c hi hOpen) (hOld j c' hj hOpen') hOpen hOpen'
  · intro c hMem inode written hPhase
    obtain ⟨i, hi⟩ := List.mem_iff_getElem?.mp hMem
    have hBefore := hOld i c hi (by rw [hPhase]; rfl)
    exact hInv.opened c (List.mem_of_getElem? hBefore) inode written hPhase
  · intro p hp
    rw [hMade] at hp
    have hIntact : Intact initial s p.1 := by
      rcases List.mem_append.mp hp with hpOld | hpNew
      · exact hInv.targets p hpOld
      · obtain rfl := List.mem_singleton.mp hpNew
        exact hInv.intact fun q hq => (hOthers q hq).2
    rw [Intact, hMade]
    rcases hIntact with hInitial | ⟨q, hq, hSame, hContent⟩
    · exact Or.inl hInitial
    · exact Or.inr ⟨q, List.mem_append_left _ hq, hSame, hContent⟩
  · intro other hOther
    rw [hMade] at hOther
    exact hInv.others other fun p hp => hOther p (List.mem_append_left _ hp)

section

variable {i : Nat} {c : Call} (hInv : Inv initial s) (hCall : s.calls[i]? = some c)

include hInv hCall

/-- A call that opens a temporary file nobody else has open has an empty one to
itself. -/
theorem inv_openTemp (hApart : Apart s (.openTemp i)) :
    Inv initial
      { setPhase s i c (.writing (create s.fs c.temp).2 0) with fs := (create s.fs c.temp).1 } := by
  obtain ⟨hWell, hDir, hData, hFrame⟩ := create_spec hInv.well c.temp
  have hPath := (hInv.temp_ne (List.mem_of_getElem? hCall)).symm
  have hAlone : ∀ j c', s.calls[j]? = some c' → j ≠ i → c'.phase.opened = true →
      c'.temp ≠ c.temp := fun j c' hj hNe hOpen =>
    hApart c hCall j (List.getElem?_eq_some_iff.mp hj).1 hNe c' hj hOpen
  refine hInv.advance hCall hWell (fun path hTemp _ => hFrame path hTemp)
    (Or.inl (hFrame c.path hPath).2) ?_ hAlone
  intro inode written hWriting
  obtain ⟨rfl, rfl⟩ := Phase.writing.inj hWriting
  refine ⟨hDir, ?_, Nat.zero_le _⟩
  change content (create s.fs c.temp).1 c.temp = some []
  rw [content, hDir, Option.map_some, hData]

variable {inode : Inode Path} {written : Nat} (hPhase : c.phase = .writing inode written)

include hPhase

/-- A chunk goes behind what has been written of the same call. -/
theorem inv_write (count : Nat) :
    Inv initial
      { setPhase s i c
          (.writing inode (written + ((c.bytes.drop written).take count).length)) with
        fs := writeAt s.fs inode written ((c.bytes.drop written).take count) } := by
  have hMem := List.mem_of_getElem? hCall
  obtain ⟨hDir, hContent, hBound⟩ := hInv.opened c hMem inode written hPhase
  obtain ⟨hWell, hData, hFrame⟩ :=
    writeAt_spec hInv.well hDir written ((c.bytes.drop written).take count)
  have hPath := (hInv.temp_ne hMem).symm
  refine hInv.advance hCall hWell (fun path hTemp _ => ⟨rfl, hFrame path hTemp⟩)
    (Or.inl (hFrame c.path hPath)) ?_ (hInv.alone hCall (by rw [hPhase]; rfl))
  intro inode' written' hWriting
  obtain ⟨rfl, rfl⟩ := Phase.writing.inj hWriting
  have hOld : s.fs.data inode = c.bytes.take written := by
    rw [content, hDir, Option.map_some] at hContent
    exact Option.some.inj hContent
  have hLength : ((c.bytes.drop written).take count).length ≤ c.bytes.length - written := by
    rw [← List.length_drop]
    exact List.length_take_le' _ _
  refine ⟨hDir, ?_, by dsimp only; omega⟩
  have hDir' : (writeAt s.fs inode written ((c.bytes.drop written).take count)).dir c.temp =
      some inode := hDir
  change content (writeAt s.fs inode written _) c.temp = some (c.bytes.take _)
  rw [content, hDir', Option.map_some, hData, hOld, overwrite_take hBound]

/-- The rename brings the whole of the bytes to the target. -/
theorem inv_rename {fs : FS Path UInt8} (hAll : c.bytes.length ≤ written)
    (hRename : FileSystem.rename s.fs c.temp c.path = some fs) :
    Inv initial { setPhase s i c (.returned true) with fs := fs } := by
  have hMem := List.mem_of_getElem? hCall
  obtain ⟨hDir, hContent, hBound⟩ := hInv.opened c hMem inode written hPhase
  obtain ⟨fs', hRename', hWell, hData, hTarget, -, hFrame⟩ :=
    rename_spec hInv.well hDir (hInv.temp_ne hMem)
  obtain rfl := Option.some.inj (hRename'.symm.trans hRename)
  refine hInv.advance hCall hWell (fun path hTemp hNe => ?_) (Or.inr ?_) ?_
    (hInv.alone hCall (by rw [hPhase]; rfl))
  · have hSame := hFrame path hTemp hNe
    exact ⟨hSame, by rw [content, content, hSame, hData]⟩
  · rw [content, hDir, Option.map_some, List.take_of_length_le hAll] at hContent
    rw [content, hTarget, Option.map_some, hData]
    exact hContent
  · intro inode' written' hWriting
    exact absurd hWriting (by simp)

end

/-- No step of calls that keep apart breaks the invariant. -/
theorem inv_step (hInv : Inv initial s) (hApart : Apart s e) (hStep : step s e = some s') :
    Inv initial s' := by
  cases step_cases hStep with
  | call path bytes => exact inv_call hInv hApart
  | openTemp hCall hPhase => exact inv_openTemp hInv hCall hApart
  | write count hCall hPhase => exact inv_write hInv hCall hPhase count
  | rename hCall hPhase hAll hRename => exact inv_rename hInv hCall hPhase hAll hRename
  | lost hCall hPhase hRename => exact inv_returned hInv hCall false
  | fail hCall hPhase => exact inv_returned hInv hCall false
  | crash => exact inv_crash hInv

/-- There are no calls at the start. -/
theorem inv_start (initial : Path → Option Bytes) : Inv initial (start initial) where
  well := wellFormed_ofContents initial
  apart := fun _ hp => absurd hp List.not_mem_nil
  distinct := fun _ _ _ _ hi => by simp [start] at hi
  opened := fun _ hMem => absurd hMem List.not_mem_nil
  targets := fun _ hp => absurd hp List.not_mem_nil
  others := fun path _ => content_ofContents initial path

/-- The invariant holds in every run of calls that keep apart. -/
theorem inv_run {es : List Event} (hAlong : Machine.Along step Apart (start initial) es)
    (hRun : Machine.run step (start initial) es = some s) : Inv initial s :=
  Machine.run_invariant_along (fun _ _ _ hInv hApart hStep => inv_step hInv hApart hStep)
    (inv_start initial) hAlong hRun

/-- The call that takes a step. -/
def Event.caller : Event → Option Nat
  | .openTemp i | .write i _ | .rename i | .fail i => some i
  | .call _ _ | .crash => none

/-- The call still has its target and its bytes, and its result if it had
one. -/
def Keeps (i : Nat) (c : Call) (s : State) : Prop :=
  ∃ c', s.calls[i]? = some c' ∧ c'.path = c.path ∧ c'.bytes = c.bytes ∧
    ∀ ok, c.phase = .returned ok → c'.phase = .returned ok

theorem keeps_set {i j : Nat} {c d : Call} (phase : Phase) (hCall : s.calls[i]? = some c)
    (hj : s.calls[j]? = some d) (hOpen : ∀ ok, d.phase ≠ .returned ok) :
    Keeps i c (setPhase s j d phase) := by
  obtain ⟨c', hGet, ⟨rfl, rfl⟩ | ⟨-, rfl⟩⟩ :=
    Indexed.exists_getElem?_set (i := j) hCall { d with phase := phase }
  · obtain rfl := Option.some.inj (hj.symm.trans hCall)
    exact ⟨_, hGet, rfl, rfl, fun ok hOk => absurd hOk (hOpen ok)⟩
  · exact ⟨_, hGet, rfl, rfl, fun _ hOk => hOk⟩

/-- A call keeps its path and bytes, and once it has returned its result. -/
theorem keeps_step {i : Nat} {c : Call} (hStep : step s e = some s')
    (hCall : s.calls[i]? = some c) : Keeps i c s' := by
  cases step_cases hStep with
  | call path bytes =>
      exact ⟨c, Indexed.getElem?_append_of_some hCall _, rfl, rfl, fun _ hOk => hOk⟩
  | openTemp hj hPhase => exact keeps_set _ hCall hj (by simp [hPhase])
  | write count hj hPhase => exact keeps_set _ hCall hj (by simp [hPhase])
  | rename hj hPhase hAll hRename => exact keeps_set _ hCall hj (by simp [hPhase])
  | lost hj hPhase hRename => exact keeps_set _ hCall hj (by simp [hPhase])
  | fail hj hPhase =>
      refine keeps_set _ hCall hj fun ok hOk => ?_
      rcases hPhase with hReady | hOpen
      · exact absurd (hReady.symm.trans hOk) (by simp)
      · rw [hOk] at hOpen
        exact absurd hOpen (by simp [Phase.opened])
  | crash =>
      refine ⟨{ c with phase := c.phase.crash }, by simp [hCall], rfl, rfl, fun ok hOk => ?_⟩
      simp [hOk, Phase.crash]

/-- A call keeps its path and bytes in every run, and once it has returned its
result. -/
theorem keeps_run {i : Nat} {c : Call} {es : List Event}
    (hRun : Machine.run step s es = some s') (hCall : s.calls[i]? = some c) : Keeps i c s' := by
  have hStart : Keeps i c s := ⟨c, hCall, rfl, rfl, fun _ hOk => hOk⟩
  refine Machine.run_invariant (fun t e t' hKeeps hStep => ?_) hStart hRun
  obtain ⟨c₁, hGet, hPath, hBytes, hReturned⟩ := hKeeps
  obtain ⟨c₂, hGet', hPath', hBytes', hReturned'⟩ := keeps_step hStep hGet
  exact ⟨c₂, hGet', hPath'.trans hPath, hBytes'.trans hBytes,
    fun ok hOk => hReturned' ok (hReturned ok hOk)⟩

/-- Calls that have been made have been made for good. -/
theorem made_run {es : List Event} (hRun : Machine.run step s es = some s') {p : Path × Bytes}
    (hMade : p ∈ s.made) : p ∈ s'.made := by
  obtain ⟨c, hMem, rfl⟩ := List.mem_map.mp hMade
  obtain ⟨i, hi⟩ := List.mem_iff_getElem?.mp hMem
  obtain ⟨c', hGet, hPath, hBytes, -⟩ := keeps_run hRun hi
  rw [← hPath, ← hBytes]
  exact mem_made (List.mem_of_getElem? hGet)

/-- Off the temporary files, only a rename that succeeds shows. -/
theorem changed_step {path : Path} (hInv : Inv initial s) (hStep : step s e = some s')
    (hTemp : ∀ c ∈ s.calls, path ≠ c.temp)
    (hChanged : content s'.fs path ≠ content s.fs path) :
    ∃ i c, e = .rename i ∧ s'.calls[i]? = some c ∧ c.phase = .returned true := by
  cases step_cases hStep with
  | call path bytes => exact absurd rfl hChanged
  | @openTemp i c hCall hPhase =>
      obtain ⟨-, -, -, hFrame⟩ := create_spec hInv.well c.temp
      exact absurd (hFrame path (hTemp c (List.mem_of_getElem? hCall))).2 hChanged
  | @write i written c inode count hCall hPhase =>
      have hMem := List.mem_of_getElem? hCall
      obtain ⟨hDir, -, -⟩ := hInv.opened c hMem inode written hPhase
      obtain ⟨-, -, hFrame⟩ :=
        writeAt_spec hInv.well hDir written ((c.bytes.drop written).take count)
      exact absurd (hFrame path (hTemp c hMem)) hChanged
  | @rename i written c inode fs hCall hPhase hAll hRename =>
      obtain ⟨hLt, -⟩ := List.getElem?_eq_some_iff.mp hCall
      exact ⟨i, _, rfl, List.getElem?_set_self hLt, rfl⟩
  | lost hCall hPhase hRename => exact absurd rfl hChanged
  | fail hCall hPhase => exact absurd rfl hChanged
  | crash => exact absurd rfl hChanged

/-- At every moment of the run every target is intact. -/
def AllIntact (initial : Path → Option Bytes) (es : List Event) (s : State) : Prop :=
  ∀ before after mid, es = before ++ after → Machine.run step (start initial) before = some mid →
    ∀ p ∈ s.made, Intact initial mid p.1

/-- No step of a call that returned an error has changed a target. -/
def ErrUnchanged (initial : Path → Option Bytes) (es : List Event) (s : State) : Prop :=
  ∀ before e after mid mid', es = before ++ e :: after →
    Machine.run step (start initial) before = some mid → step mid e = some mid' →
    ∀ i c, e.caller = some i → s.calls[i]? = some c → c.phase = .returned false →
      ∀ p ∈ s.made, content mid'.fs p.1 = content mid.fs p.1

/-- Calls that do not meet in a temporary file are all-or-nothing for their
targets. -/
theorem all_or_nothing {es : List Event} (hAlong : Machine.Along step Apart (start initial) es)
    (hRun : Machine.run step (start initial) es = some s) :
    AllIntact initial es s ∧ ErrUnchanged initial es s := by
  have hEnd := inv_run hAlong hRun
  constructor
  · rintro before after mid rfl hBefore p hp
    have hInv := inv_run (Machine.along_append hAlong) hBefore
    obtain ⟨mid', hMid, hAfter⟩ := Machine.run_append.mp hRun
    obtain rfl := Option.some.inj (hMid.symm.trans hBefore)
    exact hInv.intact fun q hq => hEnd.apart q (made_run hAfter hq) p hp
  · rintro before e after mid mid' rfl hBefore hStep i c hCaller hCall hErr p hp
    have hInv := inv_run (Machine.along_append hAlong) hBefore
    obtain ⟨mid₁, hMid, hRest⟩ := Machine.run_append.mp hRun
    obtain rfl := Option.some.inj (hMid.symm.trans hBefore)
    obtain ⟨mid₂, hNext, hAfter⟩ := Machine.run_cons hRest
    obtain rfl := Option.some.inj (hNext.symm.trans hStep)
    by_contra hChanged
    have hTemp : ∀ d ∈ mid₁.calls, p.1 ≠ d.temp := fun d hd hEq =>
      hEnd.apart _ (made_run hRest (mem_made hd)) p hp hEq.symm
    obtain ⟨j, d, rfl, hGet, hOk⟩ := changed_step hInv hStep hTemp hChanged
    obtain rfl : j = i := Option.some.inj hCaller
    obtain ⟨d', hGet', -, -, hKept⟩ := keeps_run hAfter hGet
    obtain rfl := Option.some.inj (hGet'.symm.trans hCall)
    exact absurd ((hKept true hOk).symm.trans hErr) (by simp)

def configPath : Path := "config.toml".toList

def onDisk (path : Path) : Option Bytes := if path = configPath then some [0] else none

/-- A crash in the middle of a write, a call that fails while another target is
written, and a second write of the same target. -/
def inTurn : List Event :=
  [.call configPath [1, 1], .openTemp 0, .write 0 1, .crash,
    .call "blocklist.txt".toList [7], .openTemp 1, .call configPath [2, 2, 2], .openTemp 2,
    .fail 1, .write 2 2, .write 2 9, .rename 2]

theorem all_or_nothing_in_turn :
    ∃ s, Machine.run step (start onDisk) inTurn = some s ∧
      content s.fs configPath = some [2, 2, 2] ∧
      AllIntact onDisk inTurn s ∧ ErrUnchanged onDisk inTurn s := by
  have hEnd : (Machine.run step (start onDisk) inTurn).map (fun s => content s.fs configPath) =
      some (some [2, 2, 2]) := by
    decide +kernel
  have hApart : Machine.Along step Apart (start onDisk) inTurn := by
    decide +kernel
  obtain ⟨s, hRun, hContent⟩ := Option.map_eq_some_iff.mp hEnd
  exact ⟨s, hRun, hContent, all_or_nothing hApart hRun⟩

/-- Two calls for one target: the second opens the temporary file the first has
written and is about to rename. -/
def overlapping : List Event :=
  [.call configPath [1, 1], .call configPath [2], .openTemp 0, .write 0 2, .openTemp 1,
    .rename 0, .crash]

theorem overlapping_truncates :
    ∃ s, Machine.run step (start onDisk) overlapping = some s ∧
      content s.fs configPath = some [] ∧ ¬AllIntact onDisk overlapping s := by
  have hEnd : (Machine.run step (start onDisk) overlapping).map
      (fun s => (content s.fs configPath, s.made)) =
      some (some [], [(configPath, [1, 1]), (configPath, [2])]) := by
    decide +kernel
  obtain ⟨s, hRun, hBoth⟩ := Option.map_eq_some_iff.mp hEnd
  obtain ⟨hContent, hMade⟩ := Prod.mk.inj hBoth
  refine ⟨s, hRun, hContent, fun hIntact => ?_⟩
  have hTarget := hIntact overlapping [] s (List.append_nil _).symm hRun (configPath, [1, 1])
    (by rw [hMade]; exact List.mem_cons_self)
  rw [Intact, hContent, hMade] at hTarget
  exact absurd hTarget (by simp [onDisk])

end WriteAtomic

end RustDns
