import RustDns.Library.Run

/-! The states a run went through, by the number of the event that found them. -/
namespace Machine

variable {σ ε α : Type*} (step : σ → ε → Option σ)

/-- The state that event `k` of the run finds. -/
def Finds (start : σ) (es : List ε) (k : Nat) (s : σ) : Prop := run step start (es.take k) = some s

variable {step} {start s t : σ} {es : List ε} {i j k : Nat}

theorem Finds.append (hFinds : Finds step start es k s) (hLe : k ≤ es.length) (more : List ε) :
    Finds step start (es ++ more) k s := by
  rw [Finds, List.take_append_of_le_length hLe]
  exact hFinds

/-- The event after a run finds the state the run has led to. -/
theorem finds_length (hRun : run step start es = some s) (more : List ε) :
    Finds step start (es ++ more) es.length s := by
  rw [Finds, List.take_left]
  exact hRun

theorem Finds.run_between (hFinds : Finds step start es i s) (hFinds' : Finds step start es j t)
    (hLe : i ≤ j) : run step s ((es.take j).drop i) = some t := by
  have hSplit : es.take j = es.take i ++ (es.take j).drop i := by
    have hTake : (es.take j).take i = es.take i := by rw [List.take_take, Nat.min_eq_left hLe]
    rw [← hTake, List.take_append_drop]
  rw [Finds, hSplit] at hFinds'
  obtain ⟨s', hFirst, hSecond⟩ := run_append.mp hFinds'
  obtain rfl := Option.some.inj (hFirst.symm.trans hFinds)
  exact hSecond

/-- Every event of a run finds a state. -/
theorem exists_finds (hRun : run step start es = some s) (k : Nat) : ∃ t, Finds step start es k t := by
  rw [← List.take_append_drop k es] at hRun
  obtain ⟨t, hFirst, -⟩ := run_append.mp hRun
  exact ⟨t, hFirst⟩

/-- Every event of a run was possible in the state it found. -/
theorem Finds.exists_step (hFinds : Finds step start es k s) (hRun : run step start es = some t)
    {e : ε} (hEvent : es[k]? = some e) : ∃ s', step s e = some s' := by
  obtain ⟨hLt, rfl⟩ := List.getElem?_eq_some_iff.mp hEvent
  have hSplit : es = es.take k ++ es[k] :: es.drop (k + 1) := by simp
  rw [hSplit] at hRun
  obtain ⟨s', hFirst, hRest⟩ := run_append.mp hRun
  obtain rfl := Option.some.inj (hFirst.symm.trans hFinds)
  obtain ⟨next, hStep, -⟩ := run_cons hRest
  exact ⟨next, hStep⟩

/-- The next event finds what an event leads to. -/
theorem Finds.succ {e : ε} (hFinds : Finds step start es k s) (hEvent : es[k]? = some e)
    (hStep : step s e = some t) : Finds step start es (k + 1) t := by
  rw [Finds, List.take_add_one, hEvent]
  exact run_concat.mpr ⟨s, hFinds, hStep⟩

/-- A condition along a run holds where each of its events is taken. -/
theorem Finds.along {Cond : σ → ε → Prop} {e : ε} (hFinds : Finds step start es k s)
    (hEvent : es[k]? = some e) (hAlong : Along step Cond start es) : Cond s e := by
  obtain ⟨hLt, rfl⟩ := List.getElem?_eq_some_iff.mp hEvent
  rw [← List.take_append_drop k es] at hAlong
  have hRest := along_rest hFinds hAlong
  rw [List.drop_eq_getElem_cons hLt] at hRest
  exact hRest.1

/-- What no event of a run changes is the same at its end. -/
theorem run_unchanged (f : σ → α)
    (hKeep : ∀ e ∈ es, ∀ s s', step s e = some s' → f s' = f s) (hRun : run step s es = some t) :
    f t = f s := by
  induction es generalizing s with
  | nil =>
      obtain rfl := Option.some.inj hRun
      rfl
  | cons e rest ih =>
      obtain ⟨s', hStep, hRest⟩ := run_cons hRun
      have hTail := ih (fun e' hMem => hKeep e' (List.mem_cons_of_mem e hMem)) hRest
      exact hTail.trans (hKeep e List.mem_cons_self s s' hStep)

/-- The states of the second part of a run are found from where the first part
ended. -/
theorem Finds.of_append {first second : List ε} (hFirst : run step start first = some s)
    (hLe : first.length ≤ k) (hFinds : Finds step start (first ++ second) k t) :
    Finds step s second (k - first.length) t := by
  have hSplit : (first ++ second).take k = first ++ second.take (k - first.length) := by
    rw [List.take_append, List.take_of_length_le hLe]
  rw [Finds, hSplit] at hFinds
  obtain ⟨middle, hLed, hRest⟩ := run_append.mp hFinds
  obtain rfl := Option.some.inj (hFirst.symm.trans hLed)
  exact hRest

/-- What events of a kind preserve holds wherever a run of such events goes. -/
theorem Finds.invariant {Inv : σ → Prop} {Cond : ε → Prop}
    (hStep : ∀ s e s', Inv s → Cond e → step s e = some s' → Inv s') (hStart : Inv start)
    (hCond : ∀ e ∈ es, Cond e) (hFinds : Finds step start es k s) : Inv s := by
  have hTaken : ∀ e ∈ es.take k, ∀ _ : σ, Cond e := fun e hMem _ => hCond e (List.mem_of_mem_take hMem)
  exact run_invariant_along hStep hStart (along_of_mem hTaken start) hFinds

end Machine
