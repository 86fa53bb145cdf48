import Mathlib.Logic.Function.Basic
import Mathlib.Data.List.Basic

/-! A file system with names and files apart: a name leads to a file, an open
file stays the same when names move, and writing through it shows under every
name that leads to it. Files that were there at the start are numbered by
their names. -/
namespace FileSystem

/-- The number of a file. -/
abbrev Inode (ρ : Type*) := ρ ⊕ Nat

structure FS (ρ α : Type*) where
  dir : ρ → Option (Inode ρ)
  data : Inode ρ → List α
  fresh : Nat

variable {ρ α : Type*}

def content (fs : FS ρ α) (path : ρ) : Option (List α) := (fs.dir path).map fs.data

def ofContents (initial : ρ → Option (List α)) : FS ρ α where
  dir path := (initial path).map fun _ => .inl path
  data
    | .inl path => (initial path).getD []
    | .inr _ => []
  fresh := 0

/-- A chunk at an offset. A gap before it is filled. -/
def overwrite [Inhabited α] (old : List α) (offset : Nat) (chunk : List α) : List α :=
  (old ++ List.replicate (offset - old.length) default).take offset ++ chunk ++
    old.drop (offset + chunk.length)

variable [DecidableEq ρ]

/-- Open for writing: a file that is there is emptied, else one is made. -/
def create (fs : FS ρ α) (path : ρ) : FS ρ α × Inode ρ :=
  match fs.dir path with
  | some inode => ({ fs with data := Function.update fs.data inode [] }, inode)
  | none =>
      ({ dir := Function.update fs.dir path (some (.inr fs.fresh))
         data := Function.update fs.data (.inr fs.fresh) []
         fresh := fs.fresh + 1 }, .inr fs.fresh)

def writeAt [Inhabited α] (fs : FS ρ α) (inode : Inode ρ) (offset : Nat) (chunk : List α) : FS ρ α :=
  { fs with data := Function.update fs.data inode (overwrite (fs.data inode) offset chunk) }

/-- The name moves, over whatever was there. -/
def rename (fs : FS ρ α) (source target : ρ) : Option (FS ρ α) :=
  match fs.dir source with
  | none => none
  | some inode =>
      some
        (if source = target then fs
          else
            { fs with
              dir := Function.update (Function.update fs.dir source none) target (some inode) })

/-- No file has two names, and numbers not yet given out are not in use. -/
structure WellFormed (fs : FS ρ α) : Prop where
  unique : ∀ p q inode, fs.dir p = some inode → fs.dir q = some inode → p = q
  known : ∀ p n, fs.dir p = some (.inr n) → n < fs.fresh

variable {fs fs' : FS ρ α} {path source target : ρ} {inode : Inode ρ}

omit [DecidableEq ρ] in
theorem wellFormed_ofContents (initial : ρ → Option (List α)) : WellFormed (ofContents initial) where
  unique := fun p q inode hp hq => by
    obtain ⟨_, -, hpInode⟩ := Option.map_eq_some_iff.mp hp
    obtain ⟨_, -, hqInode⟩ := Option.map_eq_some_iff.mp hq
    exact Sum.inl.inj (hpInode.trans hqInode.symm)
  known := fun p n hp => by
    obtain ⟨_, -, hInode⟩ := Option.map_eq_some_iff.mp hp
    exact absurd hInode (by simp)

omit [DecidableEq ρ] in
theorem content_ofContents (initial : ρ → Option (List α)) (path : ρ) :
    content (ofContents initial) path = initial path := by
  unfold content ofContents
  cases hInitial : initial path with
  | none => simp [hInitial]
  | some bytes => simp [hInitial]

/-- What opening a path does: it leads to the open file, which is empty, and
every other path leads where it did. -/
theorem create_spec (hWell : WellFormed fs) (path : ρ) :
    WellFormed (create fs path).1 ∧ (create fs path).1.dir path = some (create fs path).2 ∧
      (create fs path).1.data (create fs path).2 = [] ∧
      ∀ other, other ≠ path → (create fs path).1.dir other = fs.dir other ∧
        content (create fs path).1 other = content fs other := by
  unfold create
  split
  case h_1 inode hDir =>
    refine ⟨⟨hWell.unique, hWell.known⟩, hDir, Function.update_self .., fun other hOther => ⟨rfl, ?_⟩⟩
    simp only [content]
    cases hOtherDir : fs.dir other with
    | none => rfl
    | some inode' =>
        have hNe : inode' ≠ inode := by
          rintro rfl
          exact hOther (hWell.unique other path inode' hOtherDir hDir)
        simp [Function.update_of_ne hNe]
  case h_2 hDir =>
    have hFresh : ∀ p, fs.dir p ≠ some (.inr fs.fresh) := by
      intro p hp
      exact absurd (hWell.known p fs.fresh hp) (Nat.lt_irrefl _)
    refine ⟨⟨fun p q inode hp hq => ?_, fun p n hp => ?_⟩, Function.update_self ..,
      Function.update_self .., fun other hOther => ⟨Function.update_of_ne hOther .., ?_⟩⟩
    · simp only [Function.update_apply] at hp hq
      split at hp <;> split at hq
      · simp_all
      · obtain rfl := Option.some.inj hp
        exact absurd hq (hFresh q)
      · obtain rfl := Option.some.inj hq
        exact absurd hp (hFresh p)
      · exact hWell.unique p q inode hp hq
    · simp only [Function.update_apply] at hp
      split at hp
      · obtain rfl := Sum.inr.inj (Option.some.inj hp)
        exact Nat.lt_succ_self _
      · exact Nat.lt_succ_of_lt (hWell.known p n hp)
    · simp only [content, Function.update_of_ne hOther]
      cases hOtherDir : fs.dir other with
      | none => rfl
      | some inode' =>
          have hNe : inode' ≠ .inr fs.fresh := by
            rintro rfl
            exact hFresh other hOtherDir
          simp [Function.update_of_ne hNe]

/-- What a write does: only the path that leads to the file shows it. -/
theorem writeAt_spec [Inhabited α] (hWell : WellFormed fs) (hDir : fs.dir path = some inode)
    (offset : Nat) (chunk : List α) :
    WellFormed (writeAt fs inode offset chunk) ∧
      (writeAt fs inode offset chunk).data inode = overwrite (fs.data inode) offset chunk ∧
      ∀ other, other ≠ path → content (writeAt fs inode offset chunk) other = content fs other := by
  refine ⟨⟨hWell.unique, hWell.known⟩, Function.update_self .., fun other hOther => ?_⟩
  simp only [content, writeAt]
  cases hOtherDir : fs.dir other with
  | none => rfl
  | some inode' =>
      have hNe : inode' ≠ inode := by
        rintro rfl
        exact hOther (hWell.unique other path inode' hOtherDir hDir)
      simp [Function.update_of_ne hNe]

/-- What a rename does between two paths that differ. -/
theorem rename_spec (hWell : WellFormed fs) (hDir : fs.dir source = some inode)
    (hNe : source ≠ target) :
    ∃ fs', rename fs source target = some fs' ∧ WellFormed fs' ∧ fs'.data = fs.data ∧
      fs'.dir target = some inode ∧ fs'.dir source = none ∧
      ∀ other, other ≠ source → other ≠ target → fs'.dir other = fs.dir other := by
  refine ⟨{ fs with
      dir := Function.update (Function.update fs.dir source none) target (some inode) },
    by simp only [rename, hDir, if_neg hNe], ⟨fun p q k hp hq => ?_, fun p n hp => ?_⟩,
    rfl, Function.update_self .., ?_, fun other hSource hTarget => ?_⟩
  · simp only [Function.update_apply] at hp hq
    split at hp <;> split at hq
    · simp_all
    · obtain rfl := Option.some.inj hp
      split at hq
      · simp at hq
      · exact absurd (hWell.unique q source inode hq hDir) ‹_›
    · obtain rfl := Option.some.inj hq
      split at hp
      · simp at hp
      · exact absurd (hWell.unique p source inode hp hDir) ‹_›
    · split at hp <;> split at hq
      · simp at hp
      · simp at hp
      · simp at hq
      · exact hWell.unique p q k hp hq
  · simp only [Function.update_apply] at hp
    split at hp
    · obtain rfl := Option.some.inj hp
      exact hWell.known source n hDir
    · split at hp
      · simp at hp
      · exact hWell.known p n hp
  · simp [Function.update_of_ne hNe]
  · simp [Function.update_of_ne hSource, Function.update_of_ne hTarget]

/-- Chunks written one after the other from the start add up. -/
theorem overwrite_take [Inhabited α] {bytes : List α} {n : Nat} (hBound : n ≤ bytes.length)
    (k : Nat) : overwrite (bytes.take n) n ((bytes.drop n).take k) =
      bytes.take (n + ((bytes.drop n).take k).length) := by
  have hLength : (bytes.take n).length = n := List.length_take_of_le hBound
  have hRest : (bytes.take n).drop (n + ((bytes.drop n).take k).length) = [] :=
    List.drop_eq_nil_of_le (by omega)
  have hChunk : bytes.take (n + k) = bytes.take (n + ((bytes.drop n).take k).length) := by
    rw [List.length_take, List.length_drop, List.take_eq_take_iff]
    omega
  rw [overwrite, hRest, hLength, Nat.sub_self, List.replicate_zero, List.append_nil,
    List.append_nil, List.take_take, Nat.min_self, ← List.take_add, hChunk]

end FileSystem
