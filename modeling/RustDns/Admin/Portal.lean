import RustDns.Blocklist.Labels
import RustDns.Blocklist.RoundTrip
import RustDns.Library.Indexed
import RustDns.Library.Run
import Mathlib.Logic.Function.Basic

/-! Portal sessions that edit the blocklist. Each session works on its own copy
and posts the whole list back, so an edit is as good as the copy it was made
on. -/
namespace RustDns

namespace Portal

open Str Blocklist

/-- White space as JavaScript has it: a byte order mark counts, a next-line
character does not. -/
def jsWhitespace (c : Char) : Bool :=
  c = '\uFEFF' || (Unicode.isWhitespace c && c ≠ '\u0085')

def jsTrim (s : Str) : Str := Scan.trim jsWhitespace s

/-- What a page holds. The basis counts the additions the server had handled
when it gave out this copy; it is not part of the page. -/
structure Session where
  domains : List Str
  basis : Option Nat

/-- A request under way, or its answer. A post is marked with the domain it
adds and the basis of the copy it was made on. -/
inductive Message where
  | get (k : Nat)
  | post (k : Nat) (text : Str) (added : Option Str) (basis : Option Nat)
  | answer (k : Nat) (domains : List Str) (basis : Nat)

/-- The server with the domains added by the posts it has handled, and the
pages. -/
structure State where
  blocklist : Blocklist
  additions : List Str
  sessions : Nat → Session
  messages : List Message

inductive Event where
  | loadBlocklist (k : Nat)
  | addDomain (k : Nat) (input : Str)
  | removeDomain (k : Nat) (d : Str)
  | handle (i : Nat)
  | receive (i : Nat)
  deriving DecidableEq

def start (bl : Blocklist) : State := ⟨bl, [], fun _ => ⟨[], none⟩, []⟩

def persistDomains (s : State) (k : Nat) (next : List Str) (added : Option Str) : State :=
  { s with
    messages := s.messages ++ [.post k (['\n'].intercalate next) added (s.sessions k).basis] }

/-- The server answers a post with the list it has stored. Requests are handled
and answers received in any order. -/
def step (s : State) : Event → Option State
  | .loadBlocklist k => some { s with messages := s.messages ++ [.get k] }
  | .addDomain k input =>
      let v := jsTrim input
      if v = [] then some s
      else some (persistDomains s k ((s.sessions k).domains ++ [v]).eraseDups (some v))
  | .removeDomain k d =>
      some (persistDomains s k ((s.sessions k).domains.filter (· ≠ d)) none)
  | .handle i =>
      match s.messages[i]? with
      | some (.get k) =>
          some
            { s with
              messages :=
                s.messages.set i (.answer k s.blocklist.toSortedVec s.additions.length) }
      | some (.post k text added _) =>
          let bl := fromText text
          let additions := s.additions ++ added.toList
          some
            { s with
              blocklist := bl
              additions := additions
              messages := s.messages.set i (.answer k bl.toSortedVec additions.length) }
      | _ => none
  | .receive i =>
      match s.messages[i]? with
      | some (.answer k domains basis) =>
          some
            { s with
              sessions := Function.update s.sessions k ⟨domains, some basis⟩
              messages := s.messages.eraseIdx i }
      | _ => none

/-- A post is handled only when no addition has been handled since the server
gave out the copy it was made on. -/
def Fresh (s : State) : Event → Prop
  | .handle i =>
      match s.messages[i]? with
      | some (.post _ _ _ basis) => basis = some s.additions.length
      | _ => True
  | _ => True

instance decidableFresh (s : State) : (e : Event) → Decidable (Fresh s e)
  | .handle i =>
      match h : s.messages[i]? with
      | some (.post _ _ _ basis) =>
          decidable_of_iff (basis = some s.additions.length) (by simp [Fresh, h])
      | some (.get _) | some (.answer _ _ _) | none => isTrue (by simp [Fresh, h])
  | .loadBlocklist _ | .addDomain _ _ | .removeDomain _ _ | .receive _ => isTrue trivial

/-- A domain typed as `v` that the list holds as `e`, and that it holds as `e`
again when the list is posted back. -/
structure Plain (v e : Str) : Prop where
  line : OneLine v
  spells : SpellsExact v e
  entryLine : OneLine e
  entrySpells : SpellsExact e e

def Message.isPost : Message → Bool
  | .post _ _ _ _ => true
  | _ => false

/-- No post is under way. -/
def State.Settled (s : State) : Prop := ∀ m ∈ s.messages, m.isPost = false

/-- A plain domain among the lines posted is in the list read from them. -/
theorem mem_fromText_of_mem {line e : Str} {lines : List Str} (hLine : OneLine line)
    (hSpells : SpellsExact line e) (hMem : line ∈ lines) :
    e ∈ (fromText (['\n'].intercalate lines)).exact :=
  (mem_fromText_exact _ e).mpr ⟨line, mem_lines_intercalate hLine hMem, hSpells⟩

/-- The domain held as `e` has been added. -/
def Done (e : Str) (additions : List Str) : Prop := ∃ v ∈ additions, Plain v e

/-- What a copy with this basis must have once the domain has been added, if no
addition has come since. -/
def Carries (e : Str) (additions : List Str) (basis : Option Nat) (content : Prop) : Prop :=
  ∀ n, basis = some n → n ≤ additions.length ∧ (n = additions.length → Done e additions → content)

def Message.Good (e : Str) (additions : List Str) : Message → Prop
  | .get _ => True
  | .answer _ domains basis => Carries e additions (some basis) (e ∈ domains)
  | .post _ text added basis =>
      Carries e additions basis (e ∈ (fromText text).exact) ∧
        ∀ v, added = some v → Plain v e → e ∈ (fromText text).exact

/-- The post of every addition has been handled or is under way. -/
def Sent (e : Str) (past : List Event) (s : State) : Prop :=
  ∀ k input, .addDomain k input ∈ past → Plain (jsTrim input) e →
    jsTrim input ∈ s.additions ∨
      ∃ k text basis, .post k text (some (jsTrim input)) basis ∈ s.messages

structure Inv (e : Str) (past : List Event) (s : State) : Prop where
  list : Done e s.additions → e ∈ s.blocklist.exact
  copies : ∀ k, Carries e s.additions (s.sessions k).basis (e ∈ (s.sessions k).domains)
  messages : ∀ m ∈ s.messages, m.Good e s.additions
  added : Sent e past s

variable {e : Str} {additions : List Str} {past : List Event} {s s' : State}

/-- A further addition leaves every copy behind. -/
theorem Carries.behind {basis : Option Nat} {content : Prop} (added : Option Str)
    (hCarries : Carries e additions basis content) :
    Carries e (additions ++ added.toList) basis content := by
  cases added with
  | none =>
      rw [Option.toList_none, List.append_nil]
      exact hCarries
  | some v =>
      intro n hBasis
      have hBound := (hCarries n hBasis).1
      rw [Option.toList_some, List.length_append, List.length_singleton]
      exact ⟨by omega, fun hEq => absurd hEq (by omega)⟩

/-- A message stays good when more has been added since. -/
theorem Message.Good.behind {m : Message} (more : Option Str) (hGood : m.Good e additions) :
    m.Good e (additions ++ more.toList) := by
  cases m with
  | get k => trivial
  | answer k domains basis => exact Carries.behind more hGood
  | post k text added basis => exact ⟨hGood.1.behind more, hGood.2⟩

/-- A step that sends nothing loses no post. -/
theorem Sent.carry {ev : Event} (hSent : Sent e past s) (hEvent : ∀ k input, ev ≠ .addDomain k input)
    (hHandled : s.additions ⊆ s'.additions)
    (hPosts : ∀ k text v basis, .post k text (some v) basis ∈ s.messages →
      v ∈ s'.additions ∨ .post k text (some v) basis ∈ s'.messages) :
    Sent e (past ++ [ev]) s' := by
  intro k input hMem hPlain
  rcases List.mem_append.mp hMem with hOld | hNew
  · rcases hSent k input hOld hPlain with hDone | ⟨k', text, basis, hPost⟩
    · exact Or.inl (hHandled hDone)
    · rcases hPosts k' text _ basis hPost with hDone | hKept
      · exact Or.inl hDone
      · exact Or.inr ⟨k', text, basis, hKept⟩
  · exact absurd (List.mem_singleton.mp hNew).symm (hEvent k input)

/-- A message comes in at the end and nothing else changes. -/
theorem Inv.send {m : Message} {ev : Event} (hInv : Inv e past s) (hGood : m.Good e s.additions)
    (hAdded : ∀ k input, ev = .addDomain k input → Plain (jsTrim input) e →
      ∃ k text basis, m = .post k text (some (jsTrim input)) basis) :
    Inv e (past ++ [ev]) { s with messages := s.messages ++ [m] } where
  list := hInv.list
  copies := hInv.copies
  messages := fun m' hMem => by
    rcases List.mem_append.mp hMem with hOld | hNew
    · exact hInv.messages m' hOld
    · rwa [List.mem_singleton.mp hNew]
  added := fun k input hMem hPlain => by
    rcases List.mem_append.mp hMem with hOld | hNew
    · rcases hInv.added k input hOld hPlain with hDone | ⟨k', text, basis, hPost⟩
      · exact Or.inl hDone
      · exact Or.inr ⟨k', text, basis, List.mem_append_left _ hPost⟩
    · obtain ⟨k', text, basis, rfl⟩ := hAdded k input (List.mem_singleton.mp hNew).symm hPlain
      exact Or.inr ⟨k', text, basis, by simp⟩

/-- What a page posts has every domain it should have: those of its copy that
it does not take away, and the one it adds. -/
theorem good_persist {k : Nat} {next : List Str} {added : Option Str} (hInv : Inv e past s)
    (hEntry : OneLine e ∧ SpellsExact e e)
    (hNext : e ∈ (s.sessions k).domains → e ∈ next) (hAdded : ∀ v, added = some v → v ∈ next) :
    Message.Good e s.additions
      (.post k (['\n'].intercalate next) added (s.sessions k).basis) := by
  constructor
  · intro n hBasis
    obtain ⟨hBound, hCopy⟩ := hInv.copies k n hBasis
    exact ⟨hBound, fun hEq hDone =>
      mem_fromText_of_mem hEntry.1 hEntry.2 (hNext (hCopy hEq hDone))⟩
  · intro v hv hPlain
    exact mem_fromText_of_mem hPlain.line hPlain.spells (hAdded v hv)

/-- The server answers a read with its list as it is. -/
theorem inv_get {i k : Nat} (hInv : Inv e past s) (hGet : s.messages[i]? = some (.get k)) :
    Inv e (past ++ [.handle i])
      { s with
        messages := s.messages.set i (.answer k s.blocklist.toSortedVec s.additions.length) } where
  list := hInv.list
  copies := hInv.copies
  messages := fun m hMem => by
    rcases List.mem_or_eq_of_mem_set hMem with hOld | rfl
    · exact hInv.messages m hOld
    · intro n hBasis
      obtain rfl := Option.some.inj hBasis
      exact ⟨Nat.le_refl _, fun _ hDone =>
        (mem_toSortedVec s.blocklist e).mpr (Or.inl (hInv.list hDone))⟩
  added := by
    refine hInv.added.carry (by simp) (List.Subset.refl _) fun k' text v basis hPost => Or.inr ?_
    rcases Indexed.mem_set_of_mem hGet hPost _ with hSame | hKept
    · simp at hSame
    · exact hKept

/-- The server stores a posted list that was based on its own. -/
theorem inv_post {i k : Nat} {text : Str} {added : Option Str} (hInv : Inv e past s)
    (hGet : s.messages[i]? = some (.post k text added (some s.additions.length))) :
    Inv e (past ++ [.handle i])
      { s with
        blocklist := fromText text
        additions := s.additions ++ added.toList
        messages :=
          s.messages.set i
            (.answer k (fromText text).toSortedVec (s.additions ++ added.toList).length) } := by
  obtain ⟨hCopy, hOwn⟩ := hInv.messages _ (List.mem_of_getElem? hGet)
  -- the copy is up to date, so the post has what the list had, and what it adds
  have hList : Done e (s.additions ++ added.toList) → e ∈ (fromText text).exact := by
    rintro ⟨v, hMem, hPlain⟩
    rcases List.mem_append.mp hMem with hOld | hNew
    · exact (hCopy _ rfl).2 rfl ⟨v, hOld, hPlain⟩
    · exact hOwn v (Option.mem_toList.mp hNew) hPlain
  refine ⟨hList, fun k' => (hInv.copies k').behind added, fun m hMem => ?_,
    hInv.added.carry (by simp) (List.subset_append_left _ _) fun k' text' v basis hPost => ?_⟩
  · rcases List.mem_or_eq_of_mem_set hMem with hOld | rfl
    · exact (hInv.messages m hOld).behind added
    · intro n hBasis
      obtain rfl := Option.some.inj hBasis
      exact ⟨Nat.le_refl _, fun _ hDone => (mem_toSortedVec _ e).mpr (Or.inl (hList hDone))⟩
  · rcases Indexed.mem_set_of_mem hGet hPost _ with hSame | hKept
    · injection hSame with _ _ hAdded _
      exact Or.inl (List.mem_append_right _ (by simp [← hAdded]))
    · exact Or.inr hKept

/-- A session takes over the list it is sent. -/
theorem inv_receive {i k basis : Nat} {domains : List Str} (hInv : Inv e past s)
    (hGet : s.messages[i]? = some (.answer k domains basis)) :
    Inv e (past ++ [.receive i])
      { s with
        sessions := Function.update s.sessions k ⟨domains, some basis⟩
        messages := s.messages.eraseIdx i } where
  list := hInv.list
  copies := fun k' => by
    by_cases hk : k' = k
    · subst hk
      dsimp only
      rw [Function.update_self]
      exact hInv.messages _ (List.mem_of_getElem? hGet)
    · dsimp only
      rw [Function.update_of_ne hk]
      exact hInv.copies k'
  messages := fun m hMem => hInv.messages m (List.mem_of_mem_eraseIdx hMem)
  added := by
    refine hInv.added.carry (by simp) (List.Subset.refl _) fun k' text v basis' hPost => Or.inr ?_
    obtain ⟨j, hj⟩ := List.mem_iff_getElem?.mp hPost
    have hIndex : j ≠ i := by
      rintro rfl
      simp [hGet] at hj
    exact List.mem_eraseIdx_iff_getElem?.mpr ⟨j, hIndex, hj⟩

/-- A session adds a domain and posts the whole list. -/
theorem inv_add {k : Nat} {input : Str} (hEntry : OneLine e ∧ SpellsExact e e)
    (hInv : Inv e past s) (hStep : step s (.addDomain k input) = some s') :
    Inv e (past ++ [.addDomain k input]) s' := by
  simp only [step] at hStep
  split at hStep
  case isTrue hEmpty =>
    obtain rfl := Option.some.inj hStep
    refine ⟨hInv.list, hInv.copies, hInv.messages, fun k' input' hMem hPlain => ?_⟩
    rcases List.mem_append.mp hMem with hOld | hNew
    · exact hInv.added k' input' hOld hPlain
    · obtain ⟨-, rfl⟩ := Event.addDomain.inj (List.mem_singleton.mp hNew)
      exact absurd hEmpty hPlain.line.nonempty
  case isFalse =>
    obtain rfl := Option.some.inj hStep
    refine hInv.send (good_persist hInv hEntry (fun hMem => ?_) fun v hv => ?_)
      fun k' input' hEq _ => ?_
    · exact List.mem_eraseDups.mpr (List.mem_append_left _ hMem)
    · obtain rfl := Option.some.inj hv
      exact List.mem_eraseDups.mpr (by simp)
    · obtain ⟨-, rfl⟩ := Event.addDomain.inj hEq
      exact ⟨k, _, _, rfl⟩

/-- No step of a run of fresh edits loses an entry that has been added. -/
theorem inv_step {ev : Event} (hEntry : OneLine e ∧ SpellsExact e e) (hInv : Inv e past s)
    (hKept : ∀ k, ev ≠ .removeDomain k e) (hFresh : Fresh s ev) (hStep : step s ev = some s') :
    Inv e (past ++ [ev]) s' := by
  cases ev with
  | loadBlocklist k =>
      obtain rfl := Option.some.inj hStep
      exact hInv.send trivial (by simp)
  | addDomain k input => exact inv_add hEntry hInv hStep
  | removeDomain k d =>
      obtain rfl := Option.some.inj hStep
      have hOther : e ≠ d := fun hEq => hKept k (by rw [hEq])
      exact hInv.send
        (good_persist hInv hEntry (fun hMem => List.mem_filter.mpr ⟨hMem, by simpa using hOther⟩)
          (by simp))
        (by simp)
  | handle i =>
      simp only [step] at hStep
      split at hStep
      case h_1 k hGet =>
        obtain rfl := Option.some.inj hStep
        exact inv_get hInv hGet
      case h_2 k text added basis hGet =>
        obtain rfl := Option.some.inj hStep
        have hBasis : basis = some s.additions.length := by simpa [Fresh, hGet] using hFresh
        rw [hBasis] at hGet
        exact inv_post hInv hGet
      case h_3 => simp at hStep
  | receive i =>
      simp only [step] at hStep
      split at hStep
      case h_1 k domains basis hGet =>
        obtain rfl := Option.some.inj hStep
        exact inv_receive hInv hGet
      case h_2 => simp at hStep

/-- Nothing has been added at the start. -/
theorem inv_start (e : Str) (bl : Blocklist) : Inv e [] (start bl) where
  list := by simp [Done, start]
  copies := by simp [Carries, start]
  messages := by simp [start]
  added := by simp [Sent]

/-- No addition is lost as long as every post is made on a copy that has all
the additions handled before it. -/
theorem edits_kept {bl : Blocklist} {es : List Event} {k : Nat} {input : Str}
    (hFresh : Machine.Along step Fresh (start bl) es)
    (hRun : Machine.run step (start bl) es = some s) (hSettled : s.Settled)
    (hAdd : .addDomain k input ∈ es) (hPlain : Plain (jsTrim input) e)
    (hKept : ∀ k', .removeDomain k' e ∉ es) : e ∈ s.blocklist.exact := by
  have hKeep : Machine.Along step (fun _ ev => ∀ k', ev ≠ .removeDomain k' e) (start bl) es := by
    refine Machine.along_of_mem (fun ev hMem _ k' hEq => ?_) _
    rw [hEq] at hMem
    exact hKept k' hMem
  have hInv : Inv e ([] ++ es) s :=
    Machine.run_invariant_past
      (fun _ _ _ _ hInv hCond hStep =>
        inv_step ⟨hPlain.entryLine, hPlain.entrySpells⟩ hInv hCond.2 hCond.1 hStep)
      (inv_start e bl) (hFresh.and hKeep) hRun
  rcases hInv.added k input hAdd hPlain with hDone | ⟨k', text, basis, hPost⟩
  · exact hInv.list ⟨_, hDone, hPlain⟩
  · exact absurd (hSettled _ hPost) (by simp [Message.isPost])

/-- Host names are plain, in whatever letter case they are typed. -/
theorem plain_domain (d : Domain) : Plain d.spelling d.entry := by
  obtain ⟨hSpelling, hEntry⟩ := d.spelling_lowered
  have hLine := d.lowered.oneLine_spelling
  have hSpells := (d.lowered.spellsExact_spelling_iff d.entry).mpr hEntry
  rw [hSpelling] at hLine hSpells
  exact ⟨d.oneLine_spelling, (d.spellsExact_spelling_iff _).mpr rfl, hLine, hSpells⟩

/-- Two pages add one domain each, the second after it has loaded what the first
one left. -/
def inTurn : List Event :=
  [.loadBlocklist 0, .handle 0, .receive 0, .addDomain 0 " A.com".toList, .handle 0, .receive 0,
    .loadBlocklist 1, .handle 0, .receive 0, .addDomain 1 "b.com".toList, .handle 0, .receive 0]

/-- A domain under `com` with a label of one character. -/
def dotCom (b : UInt8) (hHost : Label.isHostByte b = true) : Domain where
  labels := [[b], [99, 111, 109]]
  nonempty := by simp
  label := by simpa [hHost] using by decide

theorem plain_first : Plain (jsTrim " A.com".toList) "a.com".toList := by
  have hTyped : (dotCom 65 rfl).spelling = jsTrim " A.com".toList ∧
      (dotCom 65 rfl).entry = "a.com".toList := by
    decide +kernel
  rw [← hTyped.1, ← hTyped.2]
  exact plain_domain _

theorem plain_second : Plain (jsTrim "b.com".toList) "b.com".toList := by
  have hTyped : (dotCom 98 rfl).spelling = jsTrim "b.com".toList ∧
      (dotCom 98 rfl).entry = "b.com".toList := by
    decide +kernel
  rw [← hTyped.1, ← hTyped.2]
  exact plain_domain _

theorem edits_kept_in_turn :
    ∃ s, Machine.run step (start ⟨∅, ∅⟩) inTurn = some s ∧
      "a.com".toList ∈ s.blocklist.exact ∧ "b.com".toList ∈ s.blocklist.exact := by
  have hFresh : Machine.Along step Fresh (start ⟨∅, ∅⟩) inTurn := by decide +kernel
  have hEnd : (Machine.run step (start ⟨∅, ∅⟩) inTurn).map (fun s => s.messages.length) =
      some 0 := by
    decide +kernel
  obtain ⟨s, hRun, hNone⟩ := Option.map_eq_some_iff.mp hEnd
  have hSettled : s.Settled := by
    rw [State.Settled, List.eq_nil_of_length_eq_zero hNone]
    simp
  have hNoRemove : ∀ e k', Event.removeDomain k' e ∉ inTurn := by simp [inTurn]
  have hAdd : Event.addDomain 0 " A.com".toList ∈ inTurn := by decide
  have hAdd' : Event.addDomain 1 "b.com".toList ∈ inTurn := by decide
  exact ⟨s, hRun, edits_kept hFresh hRun hSettled hAdd plain_first (hNoRemove _),
    edits_kept hFresh hRun hSettled hAdd' plain_second (hNoRemove _)⟩

/-- Two pages load the list, and then each adds a domain. -/
def overlapping : List Event :=
  [.loadBlocklist 0, .loadBlocklist 1, .handle 0, .handle 1, .receive 0, .receive 0,
    .addDomain 0 " A.com".toList, .addDomain 1 "b.com".toList, .handle 0, .handle 1, .receive 0,
    .receive 0]

/-- Both posts are answered, and the first domain is not in the list. -/
theorem overlapping_edit_lost :
    ∃ s, Machine.run step (start ⟨∅, ∅⟩) overlapping = some s ∧ s.Settled ∧
      Event.addDomain 0 " A.com".toList ∈ overlapping ∧
      Plain (jsTrim " A.com".toList) "a.com".toList ∧
      (∀ e k', Event.removeDomain k' e ∉ overlapping) ∧ "a.com".toList ∉ s.blocklist.exact := by
  have hEnd : (Machine.run step (start ⟨∅, ∅⟩) overlapping).map
      (fun s => (s.messages.length, decide ("a.com".toList ∈ s.blocklist.exact))) =
        some (0, false) := by
    decide +kernel
  obtain ⟨s, hRun, hPair⟩ := Option.map_eq_some_iff.mp hEnd
  obtain ⟨hNone, hLost⟩ := Prod.mk.inj hPair
  refine ⟨s, hRun, ?_, by decide, plain_first, by simp [overlapping], of_decide_eq_false hLost⟩
  rw [State.Settled, List.eq_nil_of_length_eq_zero hNone]
  simp

end Portal

end RustDns
