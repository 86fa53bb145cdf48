import Mathlib.Tactic.ByContra
import RustDns.Library.Run

/-! Machines that come to rest. Some events are work; a measure of the work left
pays for each of them, and other events may bring new work in. -/
namespace Machine

variable {σ ε : Type*} {step : σ → ε → Option σ}

/-- The work done on a run is paid for by the measure at its start and by what
came in on the way, each at its price. -/
theorem measure_add_work_le {Inv : σ → Prop} {Cond : σ → ε → Prop} {work brings : ε → Bool}
    {price : Nat} {measure : σ → Nat}
    (hStep : ∀ s e s', Inv s → Cond s e → step s e = some s' →
      Inv s' ∧ measure s' + (work e).toNat ≤ measure s + price * (brings e).toNat)
    {s t : σ} {es : List ε} (hStart : Inv s) (hAlong : Along step Cond s es)
    (hRun : run step s es = some t) :
    measure t + es.countP work ≤ measure s + price * es.countP brings := by
  have hCount : ∀ (p : ε → Bool) e rest, (e :: rest).countP p = rest.countP p + (p e).toNat := by
    intro p e rest
    rw [List.countP_cons]
    cases p e <;> rfl
  induction es generalizing s with
  | nil =>
      obtain rfl := Option.some.inj hRun
      simp
  | cons e rest ih =>
      obtain ⟨s', hNext, hRest⟩ := run_cons hRun
      obtain ⟨hInv, hPaid⟩ := hStep s e s' hStart hAlong.1 hNext
      have hTail := ih hInv (hAlong.2 s' hNext) hRest
      rw [hCount, hCount, Nat.mul_add]
      omega

/-- Work keeps the invariant and lowers the measure, and there is work to do
until the machine is at rest. -/
structure Winding (step : σ → ε → Option σ) (Inv Rest : σ → Prop) (Work : ε → Prop)
    (measure : σ → Nat) : Prop where
  keep : ∀ s e s', Inv s → Work e → step s e = some s' → Inv s'
  lower : ∀ s e s', Inv s → Work e → step s e = some s' → measure s' < measure s
  move : ∀ s, Inv s → ¬Rest s → ∃ e s', Work e ∧ step s e = some s'

namespace Winding

variable {Inv Rest : σ → Prop} {Work : ε → Prop} {measure : σ → Nat} {s t : σ}

/-- A machine that can do no work is at rest. -/
theorem rest_of_stuck (hWinding : Winding step Inv Rest Work measure) (hInv : Inv s)
    (hStuck : ∀ e s', Work e → step s e ≠ some s') : Rest s := by
  by_contra hNot
  obtain ⟨e, s', hWork, hStep⟩ := hWinding.move s hInv hNot
  exact hStuck e s' hWork hStep

/-- No schedule of work goes on for longer than the measure. -/
theorem length_le (hWinding : Winding step Inv Rest Work measure) (hInv : Inv s) {es : List ε}
    (hWork : ∀ e ∈ es, Work e) (hRun : run step s es = some t) :
    measure t + es.length ≤ measure s := by
  induction es generalizing s with
  | nil =>
      obtain rfl := Option.some.inj hRun
      exact Nat.le_refl _
  | cons e rest ih =>
      obtain ⟨s', hNext, hRest⟩ := run_cons hRun
      have hHead : Work e := hWork e List.mem_cons_self
      have hLower := hWinding.lower s e s' hInv hHead hNext
      have hTail := ih (hWinding.keep s e s' hInv hHead hNext)
        (fun e' hMem => hWork e' (List.mem_cons_of_mem e hMem)) hRest
      rw [List.length_cons]
      omega

/-- Work alone leads to rest. -/
theorem exists_rest (hWinding : Winding step Inv Rest Work measure) (hInv : Inv s) :
    ∃ es t, (∀ e ∈ es, Work e) ∧ run step s es = some t ∧ Inv t ∧ Rest t := by
  generalize hBound : measure s = bound
  induction bound using Nat.strongRecOn generalizing s with
  | ind bound ih =>
      by_cases hRest : Rest s
      · exact ⟨[], s, by simp, rfl, hInv, hRest⟩
      · obtain ⟨e, s', hWork, hStep⟩ := hWinding.move s hInv hRest
        have hLower := hWinding.lower s e s' hInv hWork hStep
        have hKeep := hWinding.keep s e s' hInv hWork hStep
        obtain ⟨es, t, hAll, hRun, hEnd⟩ := ih (measure s') (by omega) hKeep rfl
        refine ⟨e :: es, t, ?_, ?_, hEnd⟩
        · intro e' hMem
          rcases List.mem_cons.mp hMem with rfl | hLater
          · exact hWork
          · exact hAll e' hLater
        · rw [run, hStep]
          exact hRun

end Winding

end Machine
