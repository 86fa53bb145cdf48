import Mathlib.Data.List.Forall2
import Mathlib.Logic.Basic

/-! Runs of a machine given by a partial step function: an event that is not
possible in a state has no successor. -/
namespace Machine

variable {σ ε : Type*} (step : σ → ε → Option σ)

def run : σ → List ε → Option σ
  | s, [] => some s
  | s, e :: rest => (step s e).bind fun s' => run s' rest

/-- Every event is taken in a state where the condition holds. -/
def Along (Cond : σ → ε → Prop) : σ → List ε → Prop
  | _, [] => True
  | s, e :: rest => Cond s e ∧ ∀ s', step s e = some s' → Along Cond s' rest

/-- A condition that can be tested can be tested along a run. -/
instance decidableAlong {Cond : σ → ε → Prop} [∀ s e, Decidable (Cond s e)] :
    (s : σ) → (es : List ε) → Decidable (Along step Cond s es)
  | _, [] => isTrue trivial
  | s, e :: rest =>
      match h : step s e with
      | none =>
          decidable_of_iff (Cond s e) ⟨fun hCond => ⟨hCond, by simp [h]⟩, And.left⟩
      | some s' =>
          have : Decidable (Along step Cond s' rest) := decidableAlong s' rest
          decidable_of_iff (Cond s e ∧ Along step Cond s' rest) (by simp [Along, h])

variable {step}

theorem run_cons {s t : σ} {e : ε} {rest : List ε} (hRun : run step s (e :: rest) = some t) :
    ∃ s', step s e = some s' ∧ run step s' rest = some t :=
  Option.bind_eq_some_iff.mp hRun

theorem run_append {s t : σ} {first second : List ε} :
    run step s (first ++ second) = some t ↔
      ∃ s', run step s first = some s' ∧ run step s' second = some t := by
  induction first generalizing s with
  | nil => simp [run]
  | cons e rest ih =>
      constructor
      · intro hRun
        obtain ⟨s', hStep, hRest⟩ := run_cons hRun
        obtain ⟨middle, hFirst, hSecond⟩ := ih.mp hRest
        exact ⟨middle, by simp [run, hStep, hFirst], hSecond⟩
      · rintro ⟨middle, hFirst, hSecond⟩
        obtain ⟨s', hStep, hRest⟩ := run_cons hFirst
        have hTail : run step s' (rest ++ second) = some t := ih.mpr ⟨middle, hRest, hSecond⟩
        simp [run, hStep, hTail]

theorem run_concat {s t : σ} {e : ε} {rest : List ε} :
    run step s (rest ++ [e]) = some t ↔ ∃ s', run step s rest = some s' ∧ step s' e = some t := by
  rw [run_append]
  simp [run]

/-- What every step taken under the condition preserves holds at the end of
every run along the condition. -/
theorem run_invariant_along {Inv : σ → Prop} {Cond : σ → ε → Prop}
    (hStep : ∀ s e s', Inv s → Cond s e → step s e = some s' → Inv s')
    {s t : σ} {es : List ε} (hStart : Inv s) (hAlong : Along step Cond s es)
    (hRun : run step s es = some t) : Inv t := by
  induction es generalizing s with
  | nil =>
      obtain rfl := Option.some.inj hRun
      exact hStart
  | cons e rest ih =>
      obtain ⟨s', hNext, hRest⟩ := run_cons hRun
      exact ih (hStep s e s' hStart hAlong.1 hNext) (hAlong.2 s' hNext) hRest

/-- An invariant that speaks of the events so far. -/
theorem run_invariant_past {Inv : List ε → σ → Prop} {Cond : σ → ε → Prop}
    (hStep : ∀ past s e s', Inv past s → Cond s e → step s e = some s' → Inv (past ++ [e]) s')
    {past es : List ε} {s t : σ} (hStart : Inv past s) (hAlong : Along step Cond s es)
    (hRun : run step s es = some t) : Inv (past ++ es) t := by
  induction es generalizing s past with
  | nil =>
      obtain rfl := Option.some.inj hRun
      rwa [List.append_nil]
  | cons e rest ih =>
      obtain ⟨s', hNext, hRest⟩ := run_cons hRun
      have hTail := ih (hStep past s e s' hStart hAlong.1 hNext) (hAlong.2 s' hNext) hRest
      rwa [List.append_assoc] at hTail

theorem Along.imp {Cond Cond' : σ → ε → Prop} (hImp : ∀ s e, Cond s e → Cond' s e) {s : σ}
    {es : List ε} (hAlong : Along step Cond s es) : Along step Cond' s es := by
  induction es generalizing s with
  | nil => trivial
  | cons e rest ih => exact ⟨hImp s e hAlong.1, fun s' hStep => ih (hAlong.2 s' hStep)⟩

theorem Along.and {Cond Cond' : σ → ε → Prop} {s : σ} {es : List ε}
    (hAlong : Along step Cond s es) (hAlong' : Along step Cond' s es) :
    Along step (fun s e => Cond s e ∧ Cond' s e) s es := by
  induction es generalizing s with
  | nil => trivial
  | cons e rest ih =>
      exact ⟨⟨hAlong.1, hAlong'.1⟩, fun s' hStep => ih (hAlong.2 s' hStep) (hAlong'.2 s' hStep)⟩

/-- A condition holds along two runs in a row when it holds along the first and
along the second from where the first leads. -/
theorem along_append_iff {Cond : σ → ε → Prop} {s : σ} {first second : List ε} :
    Along step Cond s (first ++ second) ↔
      Along step Cond s first ∧ ∀ t, run step s first = some t → Along step Cond t second := by
  induction first generalizing s with
  | nil => simp [Along, run]
  | cons e rest ih =>
      constructor
      · rintro ⟨hCond, hRest⟩
        refine ⟨⟨hCond, fun s' hStep => (ih.mp (hRest s' hStep)).1⟩, fun t hRun => ?_⟩
        obtain ⟨s', hStep, hTail⟩ := run_cons hRun
        exact (ih.mp (hRest s' hStep)).2 t hTail
      · rintro ⟨⟨hCond, hFirst⟩, hSecond⟩
        refine ⟨hCond, fun s' hStep => ih.mpr ⟨hFirst s' hStep, fun t hTail => hSecond t ?_⟩⟩
        rw [run, hStep, Option.bind_some, hTail]

theorem along_append {Cond : σ → ε → Prop} {s : σ} {first second : List ε}
    (hAlong : Along step Cond s (first ++ second)) : Along step Cond s first :=
  (along_append_iff.mp hAlong).1

/-- The condition holds along the second part of a run. -/
theorem along_rest {Cond : σ → ε → Prop} {s t : σ} {first second : List ε}
    (hRun : run step s first = some t) (hAlong : Along step Cond s (first ++ second)) :
    Along step Cond t second :=
  (along_append_iff.mp hAlong).2 t hRun

/-- A condition on the events alone holds along every run of such events. -/
theorem along_of_mem {Cond : σ → ε → Prop} {es : List ε} (hCond : ∀ e ∈ es, ∀ s, Cond s e) (s : σ) :
    Along step Cond s es := by
  induction es generalizing s with
  | nil => trivial
  | cons e rest ih =>
      exact ⟨hCond e (by simp) s, fun s' _ => ih (fun e he => hCond e (by simp [he])) s'⟩

theorem run_invariant {Inv : σ → Prop}
    (hStep : ∀ s e s', Inv s → step s e = some s' → Inv s')
    {s t : σ} {es : List ε} (hStart : Inv s) (hRun : run step s es = some t) : Inv t :=
  run_invariant_along (fun s e s' hInv (_ : True) => hStep s e s' hInv) hStart
    (along_of_mem (fun _ _ _ => trivial) s) hRun

/-- Events that change nothing can be left out of a run. -/
theorem run_filter {Inv : σ → Prop} {Cond : σ → ε → Prop} {keep : ε → Prop} [DecidablePred keep]
    (hStep : ∀ s e s', Inv s → Cond s e → step s e = some s' → Inv s' ∧ (¬keep e → s' = s))
    {s t : σ} {es : List ε} (hStart : Inv s) (hAlong : Along step Cond s es)
    (hRun : run step s es = some t) : run step s (es.filter keep) = some t := by
  induction es generalizing s with
  | nil => exact hRun
  | cons e rest ih =>
      obtain ⟨next, hNext, hRest⟩ := run_cons hRun
      obtain ⟨hInv, hSame⟩ := hStep s e next hStart hAlong.1 hNext
      have hTail := ih hInv (hAlong.2 next hNext) hRest
      by_cases hKeep : keep e
      · simpa [hKeep, run, hNext] using hTail
      · rw [hSame hKeep] at hTail
        simpa [hKeep] using hTail

/-- A machine that answers each step with a step of its own answers each run
with a run. -/
theorem run_simulates {τ δ : Type*} {step' : τ → δ → Option τ} {R : σ → τ → Prop} {E : ε → δ → Prop}
    (hStep : ∀ s t e d s', R s t → E e d → step s e = some s' → ∃ t', step' t d = some t' ∧ R s' t')
    {s s' : σ} {t : τ} {es : List ε} {ds : List δ} (hStart : R s t) (hEvents : List.Forall₂ E es ds)
    (hRun : run step s es = some s') : ∃ t', run step' t ds = some t' ∧ R s' t' := by
  induction hEvents generalizing s t with
  | nil =>
      obtain rfl := Option.some.inj hRun
      exact ⟨t, rfl, hStart⟩
  | cons hEvent _ ih =>
      obtain ⟨next, hFirst, hRest⟩ := run_cons hRun
      obtain ⟨next', hFirst', hNext⟩ := hStep _ _ _ _ _ hStart hEvent hFirst
      obtain ⟨t', hTail, hEnd⟩ := ih hNext hRest
      exact ⟨t', by rw [run, hFirst', Option.bind_some, hTail], hEnd⟩

/-- A machine that answers each step with a run of its own, seen through a map
of the states, answers each run with a run, of events of the same kind. -/
theorem run_refines {τ δ : Type*} {step' : τ → δ → Option τ} {f : σ → τ} {Inv : σ → Prop}
    {Cond : σ → ε → Prop} {Q : δ → Prop}
    (hStep : ∀ s e s', Inv s → Cond s e → step s e = some s' →
      Inv s' ∧ ∃ ds, run step' (f s) ds = some (f s') ∧ ∀ d ∈ ds, Q d)
    {s s' : σ} {es : List ε} (hStart : Inv s) (hAlong : Along step Cond s es)
    (hRun : run step s es = some s') :
    Inv s' ∧ ∃ ds, run step' (f s) ds = some (f s') ∧ ∀ d ∈ ds, Q d := by
  induction es generalizing s with
  | nil =>
      obtain rfl := Option.some.inj hRun
      exact ⟨hStart, [], rfl, by simp⟩
  | cons e rest ih =>
      obtain ⟨next, hFirst, hRest⟩ := run_cons hRun
      obtain ⟨hNext, first, hAnswer, hHead⟩ := hStep s e next hStart hAlong.1 hFirst
      obtain ⟨hEnd, second, hTail, hLater⟩ := ih hNext (hAlong.2 next hFirst) hRest
      refine ⟨hEnd, first ++ second, run_append.mpr ⟨f next, hAnswer, hTail⟩, fun d hMem => ?_⟩
      rcases List.mem_append.mp hMem with hMemHead | hMemLater
      · exact hHead d hMemHead
      · exact hLater d hMemLater

end Machine
