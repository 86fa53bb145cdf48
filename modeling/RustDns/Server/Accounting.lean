import RustDns.Library.Indexed
import RustDns.Library.Run
import RustDns.Server.Machine

/-! Counters and permits. Every message is dropped, ignored, answered or still
on its way, and a permit is held from the arrival of a message until its
handler is done with it: a UDP task keeps it while it sends the response, a
TCP connection gives it back first, and both are the event `finish`. -/
namespace RustDns

namespace Server

variable {env : Env}

/-- The counters a handler adds to. -/
inductive Counter where
  | queries
  | blocked
  | cacheHits
  | forwarded
  | upstreamErrors

def Stats.get (stats : Stats) : Counter → Nat
  | .queries => stats.queries
  | .blocked => stats.blocked
  | .cacheHits => stats.cacheHits
  | .forwarded => stats.forwarded
  | .upstreamErrors => stats.upstreamErrors

/-- `handle` has returned `None`. -/
def Phase.ignores : Phase env → Bool
  | .ignored => true
  | _ => false

/-- The action of a call that has counted its outcome. -/
def Phase.outcome : Phase env → Option Action
  | .answered _ a => some a.action
  | _ => none

/-- The call has counted the query and not yet its outcome. -/
def Phase.undecided : Phase env → Bool
  | .received _ _ | .unblocked _ | .missed _ | .waiting _ _ => true
  | .arrived | .ignored | .answered _ _ => false

/-- The call has not returned. -/
def Phase.running : Phase env → Bool
  | .ignored | .answered _ _ => false
  | .arrived | .received _ _ | .unblocked _ | .missed _ | .waiting _ _ => true

/-- How far the call has come. -/
def Phase.rank : Phase env → Nat
  | .arrived => 0
  | .ignored | .received _ _ => 1
  | .unblocked _ => 2
  | .missed _ => 3
  | .waiting _ _ => 4
  | .answered _ _ => 5

/-- The handler has added to the counter. -/
def Phase.counts (phase : Phase env) : Counter → Bool
  | .queries => phase.undecided || phase.outcome.isSome
  | .blocked => phase.outcome = some .blocked
  | .cacheHits => phase.outcome = some .cached
  | .forwarded => phase.outcome = some .forwarded
  | .upstreamErrors => phase.outcome = some .error

def State.tally (s : State env) (P : Phase env → Bool) : Nat :=
  s.handlers.countP fun hd => P hd.phase

def Event.arrives : Event → Bool
  | .arrive _ => true
  | _ => false

def Event.finishes (h : Nat) : Event → Bool
  | .finish k => k = h
  | _ => false

/-- The counters and permits against the handlers there have been. -/
structure Accounts (permits : Nat) (past : List Event) (s : State env) : Prop where
  received : past.countP Event.arrives = s.stats.dropped + s.handlers.length
  counters : ∀ c, s.stats.get c = s.tally fun phase => phase.counts c
  permits : s.inflight + s.handlers.countP (fun hd => !hd.released) = permits
  returned : ∀ h, past.countP (Event.finishes h) = (s.handlers[h]?.any Handler.released).toNat
  released : ∀ hd ∈ s.handlers, hd.released = true → hd.phase.running = false

variable {s s' : State env} {permits : Nat} {past : List Event}

/-- A handler moves to another phase and the counters follow. -/
theorem Accounts.move {e : Event} {h : Nat} {hd hd' : Handler env} {phase : Phase env}
    (hAccounts : Accounts permits past s) (hArrive : e.arrives = false)
    (hFinish : ∀ k, e.finishes k = false) (hHandler : s.handlers[h]? = some hd)
    (hPhase : hd.phase = phase) (hRunning : phase.running = true)
    (hHandlers : s'.handlers = s.handlers.set h hd') (hReleased : hd'.released = hd.released)
    (hInflight : s'.inflight = s.inflight) (hDropped : s'.stats.dropped = s.stats.dropped)
    (hCounters : ∀ c, s'.stats.get c + (phase.counts c).toNat =
      s.stats.get c + (hd'.phase.counts c).toNat) :
    Accounts permits (past ++ [e]) s' := by
  subst hPhase
  have hHeld : hd.released = false := by
    cases hFlag : hd.released with
    | false => rfl
    | true =>
        have hDone := hAccounts.released hd (List.mem_of_getElem? hHandler) hFlag
        rw [hRunning] at hDone
        exact absurd hDone (by decide)
  obtain ⟨hLt, -⟩ := List.getElem?_eq_some_iff.mp hHandler
  refine ⟨?_, fun c => ?_, ?_, fun k => ?_, fun other hMem hOther => ?_⟩
  · rw [List.countP_append, List.countP_singleton, hArrive, hAccounts.received, hDropped, hHandlers,
      List.length_set]
    rfl
  · have hTally := Indexed.countP_set_add (fun hd : Handler env => hd.phase.counts c) hd' hHandler
    have hOld := hAccounts.counters c
    have hNew := hCounters c
    rw [State.tally] at hOld
    rw [State.tally, hHandlers]
    omega
  · have hCount := Indexed.countP_set_add (fun hd : Handler env => !hd.released) hd' hHandler
    have hOld := hAccounts.permits
    rw [hReleased] at hCount
    rw [hInflight, hHandlers]
    omega
  · rw [List.countP_append, List.countP_singleton, hFinish, hAccounts.returned, hHandlers]
    by_cases hk : h = k
    · subst hk
      rw [hHandler, List.getElem?_set_self hLt]
      simp [hReleased]
    · simp [List.getElem?_set_ne hk]
  · rw [hHandlers] at hMem
    rcases List.mem_or_eq_of_mem_set hMem with hOld | rfl
    · exact hAccounts.released other hOld hOther
    · rw [hReleased, hHeld] at hOther
      exact absurd hOther (by decide)

/-- A step that leaves the handlers, the counters and the permits alone. -/
theorem Accounts.keep {e : Event} (hAccounts : Accounts permits past s)
    (hArrive : e.arrives = false) (hFinish : ∀ k, e.finishes k = false)
    (hHandlers : s'.handlers = s.handlers) (hStats : s'.stats = s.stats)
    (hInflight : s'.inflight = s.inflight) : Accounts permits (past ++ [e]) s' where
  received := by
    rw [List.countP_append, List.countP_singleton, hArrive, hAccounts.received, hHandlers, hStats]
    rfl
  counters := fun c => by
    rw [hStats, State.tally, hHandlers]
    exact hAccounts.counters c
  permits := by
    rw [hInflight, hHandlers]
    exact hAccounts.permits
  returned := fun h => by
    rw [List.countP_append, List.countP_singleton, hFinish, hAccounts.returned, hHandlers]
    rfl
  released := by
    rw [hHandlers]
    exact hAccounts.released

/-- A message that arrives takes a permit and is counted once, as running. -/
theorem Accounts.arrive (data : Bytes) (hAccounts : Accounts permits past s) :
    Accounts permits (past ++ [.arrive data]) (arrive s data) := by
  have hReturned : ∀ k, (past ++ [Event.arrive data]).countP (Event.finishes k) =
      (s.handlers[k]?.any Handler.released).toNat := by
    intro k
    rw [List.countP_append, List.countP_singleton, hAccounts.returned]
    rfl
  have hReceived : (past ++ [Event.arrive data]).countP Event.arrives =
      s.stats.dropped + s.handlers.length + 1 := by
    rw [List.countP_append, List.countP_singleton, hAccounts.received]
    rfl
  unfold Server.arrive
  split
  case isTrue hFull =>
      refine ⟨?_, fun c => ?_, hAccounts.permits, hReturned, hAccounts.released⟩
      · rw [hReceived]
        simp only
        omega
      · have hOld := hAccounts.counters c
        cases c <;> exact hOld
  case isFalse hFree =>
      refine ⟨?_, fun c => ?_, ?_, fun k => ?_, fun hd hMem hReleased => ?_⟩
      · rw [hReceived]
        simp only [List.length_append, List.length_singleton]
        omega
      · have hOld := hAccounts.counters c
        simp only [State.tally] at hOld
        simp only [State.tally, List.countP_append, List.countP_singleton, hOld]
        cases c <;> rfl
      · have hOld := hAccounts.permits
        simp only [List.countP_append, List.countP_singleton, Bool.not_false, if_true]
        omega
      · rw [hReturned]
        by_cases hk : k < s.handlers.length
        · rw [List.getElem?_append_left hk]
        · rw [List.getElem?_eq_none (by omega)]
          by_cases hLast : k = s.handlers.length
          · simp [hLast]
          · rw [List.getElem?_eq_none (by simp; omega)]
      · rcases List.mem_append.mp hMem with hOld | hNew
        · exact hAccounts.released hd hOld hReleased
        · obtain rfl := List.mem_singleton.mp hNew
          exact absurd hReleased Bool.false_ne_true

/-- The permit of a handler goes back once. -/
theorem Accounts.finish {h : Nat} {hd : Handler env} (hAccounts : Accounts permits past s)
    (hHandler : s.handlers[h]? = some hd) (hDone : hd.phase.running = false)
    (hHeld : hd.released = false) :
    Accounts permits (past ++ [.finish h])
      { setHandler s h { hd with released := true } with inflight := s.inflight + 1 } := by
  obtain ⟨hLt, -⟩ := List.getElem?_eq_some_iff.mp hHandler
  refine ⟨?_, fun c => ?_, ?_, fun k => ?_, fun other hMem hOther => ?_⟩
  · rw [List.countP_append, List.countP_singleton, hAccounts.received]
    simp [setHandler, Event.arrives]
  · have hTally := Indexed.countP_set_add (fun hd : Handler env => hd.phase.counts c)
      { hd with released := true } hHandler
    have hOld := hAccounts.counters c
    simp only [State.tally] at hOld
    change s.stats.get c = (s.handlers.set h _).countP fun hd => hd.phase.counts c
    dsimp only at hTally ⊢
    omega
  · have hCount := Indexed.countP_set_add (fun hd : Handler env => !hd.released)
      { hd with released := true } hHandler
    have hOld := hAccounts.permits
    simp only [hHeld, Bool.not_false, Bool.not_true, Bool.toNat_true, Bool.toNat_false] at hCount
    simp only [setHandler]
    omega
  · rw [List.countP_append, List.countP_singleton, hAccounts.returned]
    simp only [setHandler, Event.finishes]
    by_cases hk : h = k
    · subst hk
      rw [hHandler, List.getElem?_set_self hLt]
      simp [hHeld]
    · simp [List.getElem?_set_ne hk, hk]
  · rcases List.mem_or_eq_of_mem_set hMem with hOld | rfl
    · exact hAccounts.released other hOld hOther
    · exact hDone

/-- Storing the fill of a flight touches no handler, no counter and no permit.
-/
theorem land_frame (s : State env) (i : Nat) :
    (land s i).handlers = s.handlers ∧ (land s i).stats = s.stats ∧
      (land s i).inflight = s.inflight := by
  unfold land
  split <;> exact ⟨rfl, rfl, rfl⟩

/-- A step of the resolver touches no handler, no counter and no permit. -/
theorem forward_frame {e : Upstream.Event} (hForward : forward s e = some s') :
    s'.handlers = s.handlers ∧ s'.stats = s.stats ∧ s'.inflight = s.inflight := by
  cases e with
  | resolve query => simp [forward] at hForward
  | load i _ | progress i =>
      simp only [forward] at hForward
      obtain ⟨upstream, -, rfl⟩ := Option.map_eq_some_iff.mp hForward
      exact land_frame { s with upstream := upstream } i
  | _ =>
      simp only [forward] at hForward
      obtain ⟨upstream, -, rfl⟩ := Option.map_eq_some_iff.mp hForward
      exact ⟨rfl, rfl, rfl⟩

/-- A step of the writer or of the purge touches no handler, no counter and no
permit. -/
theorem background_frame {e : Cache.Event} (hBackground : background s e = some s') :
    s'.handlers = s.handlers ∧ s'.stats = s.stats ∧ s'.inflight = s.inflight := by
  cases e with
  | fill _ _ _ | restart _ _ => simp [background] at hBackground
  | _ =>
      simp only [background] at hBackground
      obtain ⟨cache, -, rfl⟩ := Option.map_eq_some_iff.mp hBackground
      exact ⟨rfl, rfl, rfl⟩

/-- Only a handler that is done and has not returned its permit can finish. -/
theorem done_of_finish {h : Nat} {hd : Handler env} (hFinish : finish s h hd = some s') :
    hd.phase.running = false ∧ hd.released = false := by
  unfold finish at hFinish
  split at hFinish
  case h_1 hPhase hReleased => exact ⟨by rw [hPhase]; rfl, hReleased⟩
  case h_2 hPhase hReleased => exact ⟨by rw [hPhase]; rfl, hReleased⟩
  case h_3 => simp at hFinish

/-- One step keeps the books: each phase a handler leaves or enters is counted
where the event that moved it says. -/
theorem accounts_step {e : Event} (hAccounts : Accounts permits past s)
    (hAlive : e.restarts = false) (hStep : step s e = some s') :
    Accounts permits (past ++ [e]) s' := by
  cases step_cases hStep with
  | arrive data => exact hAccounts.arrive data
  | parse hHandler hPhase =>
      unfold parse
      split
      · exact hAccounts.move rfl (fun _ => rfl) hHandler hPhase rfl rfl rfl rfl rfl
          fun c => by cases c <;> rfl
      · exact hAccounts.move rfl (fun _ => rfl) hHandler hPhase rfl rfl rfl rfl rfl
          fun c => by cases c <;> rfl
  | check hHandler hPhase =>
      unfold check
      split
      · exact hAccounts.move rfl (fun _ => rfl) hHandler hPhase rfl rfl rfl rfl rfl
          fun c => by cases c <;> rfl
      · exact hAccounts.move rfl (fun _ => rfl) hHandler hPhase rfl rfl rfl rfl rfl
          fun c => by cases c <;> rfl
  | lookup hHandler hPhase =>
      unfold lookup
      split
      · exact hAccounts.move rfl (fun _ => rfl) hHandler hPhase rfl rfl rfl rfl rfl
          fun c => by cases c <;> rfl
      · exact hAccounts.move rfl (fun _ => rfl) hHandler hPhase rfl rfl rfl rfl rfl
          fun c => by cases c <;> rfl
  | join hHandler hPhase =>
      unfold join
      split
      · exact hAccounts.move rfl (fun _ => rfl) hHandler hPhase rfl rfl rfl rfl rfl
          fun c => by cases c <;> rfl
      · split
        · exact hAccounts.move rfl (fun _ => rfl) hHandler hPhase rfl rfl rfl rfl rfl
            fun c => by cases c <;> rfl
        · exact hAccounts.move rfl (fun _ => rfl) hHandler hPhase rfl rfl rfl rfl rfl
            fun c => by cases c <;> rfl
  | deliver hHandler hPhase hDeliver =>
      rcases deliver_cases hDeliver with ⟨_, _, _, -, -, rfl⟩ | rfl
      · exact hAccounts.move rfl (fun _ => rfl) hHandler hPhase rfl rfl rfl rfl rfl
          fun c => by cases c <;> rfl
      · exact hAccounts.move rfl (fun _ => rfl) hHandler hPhase rfl rfl rfl rfl rfl
          fun c => by cases c <;> rfl
  | finish hHandler hFinish =>
      obtain ⟨hDone, hHeld⟩ := done_of_finish hFinish
      obtain rfl := finish_cases hFinish
      exact hAccounts.finish hHandler hDone hHeld
  | upstream hForward =>
      obtain ⟨hHandlers, hStats, hInflight⟩ := forward_frame hForward
      exact hAccounts.keep rfl (fun _ => rfl) hHandlers hStats hInflight
  | cache hBackground =>
      obtain ⟨hHandlers, hStats, hInflight⟩ := background_frame hBackground
      exact hAccounts.keep rfl (fun _ => rfl) hHandlers hStats hInflight
  | setBlocklist list => exact hAccounts.keep rfl (fun _ => rfl) rfl rfl rfl
  | setConfig cfg => exact hAccounts.keep rfl (fun _ => rfl) rfl rfl rfl
  | restart cfg list loaded => simp [Event.restarts] at hAlive

/-- The call goes on: it has not returned, keeps its message and its permit, and
gets further. -/
structure Handler.Advances (old new : Handler env) : Prop where
  running : old.phase.running = true
  data : new.data = old.data
  released : new.released = old.released
  rank : old.phase.rank < new.phase.rank

/-- The call has returned and gives its permit back. -/
structure Handler.Returns (old new : Handler env) : Prop where
  done : old.phase.running = false
  held : old.released = false
  eq : new = { old with released := true }

/-- A handler runs when its phase does. -/
theorem running_of_phase {hd : Handler env} {phase : Phase env} (hPhase : hd.phase = phase)
    (hRunning : phase.running = true) : hd.phase.running = true := by
  rw [hPhase, hRunning]

/-- A handler whose phase rises in rank advances. -/
theorem advances_of_phase {hd : Handler env} {phase : Phase env} (phase' : Phase env)
    (hPhase : hd.phase = phase) (hRunning : phase.running = true)
    (hRank : phase.rank < phase'.rank) : hd.Advances { hd with phase := phase' } :=
  ⟨running_of_phase hPhase hRunning, rfl, rfl, hPhase ▸ hRank⟩

/-- What a step of a living process does to the handlers: nothing, a new one,
one that runs moves on, or one that is done gives its permit back. -/
theorem handlers_of_step {e : Event} (hAlive : e.restarts = false) (hStep : step s e = some s') :
    s'.handlers = s.handlers ∨
      (∃ data, s'.handlers = s.handlers ++ [⟨data, .arrived, false⟩]) ∨
      ∃ h old new, s.handlers[h]? = some old ∧ s'.handlers = s.handlers.set h new ∧
        (old.Advances new ∨ old.Returns new) := by
  cases step_cases hStep with
  | arrive data =>
      unfold arrive
      split
      · exact Or.inl rfl
      · exact Or.inr (Or.inl ⟨data, rfl⟩)
  | parse hHandler hPhase =>
      have hAdvances := fun phase' => advances_of_phase phase' hPhase rfl
      unfold parse
      split <;> exact Or.inr (Or.inr ⟨_, _, _, hHandler, rfl, Or.inl (hAdvances _ (by simp [Phase.rank]))⟩)
  | check hHandler hPhase =>
      have hAdvances := fun phase' => advances_of_phase phase' hPhase rfl
      unfold check
      split <;> exact Or.inr (Or.inr ⟨_, _, _, hHandler, rfl, Or.inl (hAdvances _ (by simp [Phase.rank]))⟩)
  | lookup hHandler hPhase =>
      have hAdvances := fun phase' => advances_of_phase phase' hPhase rfl
      unfold lookup
      split <;> exact Or.inr (Or.inr ⟨_, _, _, hHandler, rfl, Or.inl (hAdvances _ (by simp [Phase.rank]))⟩)
  | join hHandler hPhase =>
      have hAdvances := fun phase' => advances_of_phase phase' hPhase rfl
      unfold join
      split
      · exact Or.inr (Or.inr ⟨_, _, _, hHandler, rfl, Or.inl (hAdvances _ (by simp [Phase.rank]))⟩)
      · split <;> exact Or.inr (Or.inr ⟨_, _, _, hHandler, rfl, Or.inl (hAdvances _ (by simp [Phase.rank]))⟩)
  | deliver hHandler hPhase hDeliver =>
      have hAdvances := fun phase' => advances_of_phase phase' hPhase rfl
      rcases deliver_cases hDeliver with ⟨_, _, _, -, -, rfl⟩ | rfl
      · exact Or.inr (Or.inr ⟨_, _, _, hHandler, rfl, Or.inl (hAdvances _ (by simp [Phase.rank]))⟩)
      · exact Or.inr (Or.inr ⟨_, _, _, hHandler, rfl, Or.inl (hAdvances _ (by simp [Phase.rank]))⟩)
  | finish hHandler hFinish =>
      obtain ⟨hDone, hHeld⟩ := done_of_finish hFinish
      obtain rfl := finish_cases hFinish
      exact Or.inr (Or.inr ⟨_, _, _, hHandler, rfl, Or.inr ⟨hDone, hHeld, rfl⟩⟩)
  | upstream hForward => exact Or.inl (forward_frame hForward).1
  | cache hBackground => exact Or.inl (background_frame hBackground).1
  | setBlocklist list => exact Or.inl rfl
  | setConfig cfg => exact Or.inl rfl
  | restart cfg list loaded => simp [Event.restarts] at hAlive

/-- A handler stays as it is, advances or returns. -/
theorem handler_cases {e : Event} {h : Nat} {hd : Handler env} (hAlive : e.restarts = false)
    (hHandler : s.handlers[h]? = some hd) (hStep : step s e = some s') :
    ∃ hd', s'.handlers[h]? = some hd' ∧ (hd' = hd ∨ hd.Advances hd' ∨ hd.Returns hd') := by
  rcases handlers_of_step hAlive hStep with hSame | ⟨data, hNew⟩ | ⟨k, old, new, hOld, hSet, hMoves⟩
  · exact ⟨hd, by rw [hSame, hHandler], Or.inl rfl⟩
  · exact ⟨hd, by rw [hNew, Indexed.getElem?_append_of_some hHandler], Or.inl rfl⟩
  · obtain ⟨hd', hGet, ⟨rfl, rfl⟩ | ⟨-, rfl⟩⟩ := Indexed.exists_getElem?_set (i := k) hHandler new
    · obtain rfl := Option.some.inj (hOld.symm.trans hHandler)
      exact ⟨hd', by rw [hSet, hGet], Or.inr hMoves⟩
    · exact ⟨hd', by rw [hSet, hGet], Or.inl rfl⟩

/-- A handler stays in its phase or gets to a later one. -/
theorem rank_of_step {e : Event} {h : Nat} {hd : Handler env} (hAlive : e.restarts = false)
    (hHandler : s.handlers[h]? = some hd) (hStep : step s e = some s') :
    ∃ hd', s'.handlers[h]? = some hd' ∧
      (hd'.phase = hd.phase ∨ hd.phase.rank < hd'.phase.rank) := by
  obtain ⟨hd', hHandler', rfl | hAdvances | hReturns⟩ := handler_cases hAlive hHandler hStep
  · exact ⟨hd', hHandler', Or.inl rfl⟩
  · exact ⟨hd', hHandler', Or.inr hAdvances.rank⟩
  · exact ⟨hd', hHandler', Or.inl (by rw [hReturns.eq])⟩

/-- An answer stands: no phase comes after it. -/
theorem answered_step {e : Event} {h : Nat} {hd : Handler env} {r : Request env.wire} {a : Answer}
    (hAlive : e.restarts = false) (hHandler : s.handlers[h]? = some hd)
    (hPhase : hd.phase = .answered r a) (hStep : step s e = some s') :
    ∃ hd', s'.handlers[h]? = some hd' ∧ hd'.phase = .answered r a := by
  obtain ⟨hd', hHandler', hSame | hLater⟩ := rank_of_step hAlive hHandler hStep
  · exact ⟨hd', hHandler', hSame.trans hPhase⟩
  · rw [hPhase] at hLater
    cases hPhase' : hd'.phase <;> simp [hPhase', Phase.rank] at hLater

/-- Permits go back only when the call is done. -/
def Settled (s : State env) : Prop :=
  ∀ hd ∈ s.handlers, hd.released = true → hd.phase.running = false

/-- A step releases only handlers that are done. -/
theorem settled_step {e : Event} (hSettled : Settled s) (hStep : step s e = some s') :
    Settled s' := by
  by_cases hAlive : e.restarts = false
  · intro hd hMem hReleased
    rcases handlers_of_step hAlive hStep with hSame | ⟨data, hNew⟩ |
      ⟨h, old, new, hOld, hSet, hMoves⟩
    · rw [hSame] at hMem
      exact hSettled hd hMem hReleased
    · rw [hNew] at hMem
      rcases List.mem_append.mp hMem with hOld | hLast
      · exact hSettled hd hOld hReleased
      · obtain rfl := List.mem_singleton.mp hLast
        exact absurd hReleased Bool.false_ne_true
    · rw [hSet] at hMem
      rcases List.mem_or_eq_of_mem_set hMem with hKept | rfl
      · exact hSettled hd hKept hReleased
      · rcases hMoves with hAdvances | hReturns
        · have hDone := hSettled old (List.mem_of_getElem? hOld) (hAdvances.released ▸ hReleased)
          rw [hAdvances.running] at hDone
          exact absurd hDone (by decide)
        · rw [hReturns.eq]
          exact hReturns.done
  · cases e <;> first | exact absurd rfl hAlive | skip
    obtain rfl := Option.some.inj hStep
    simp [Settled, boot]

/-- A handler keeps its message, and once released it does not change. -/
theorem handler_of_step {e : Event} {h : Nat} {hd : Handler env} (hSettled : Settled s)
    (hAlive : e.restarts = false) (hHandler : s.handlers[h]? = some hd)
    (hStep : step s e = some s') :
    ∃ hd', s'.handlers[h]? = some hd' ∧ hd'.data = hd.data ∧ (hd.released = true → hd' = hd) := by
  obtain ⟨hd', hHandler', rfl | hAdvances | hReturns⟩ := handler_cases hAlive hHandler hStep
  · exact ⟨hd', hHandler', rfl, fun _ => rfl⟩
  · refine ⟨hd', hHandler', hAdvances.data, fun hReleased => ?_⟩
    have hDone := hSettled hd (List.mem_of_getElem? hHandler) hReleased
    rw [hAdvances.running] at hDone
    exact absurd hDone (by decide)
  · refine ⟨hd', hHandler', by rw [hReturns.eq], fun hReleased => ?_⟩
    rw [hReturns.held] at hReleased
    exact absurd hReleased (by decide)

/-- The handlers by what has become of them. -/
theorem tally_partition (s : State env) :
    s.handlers.length = s.tally Phase.ignores + s.tally (·.counts .blocked) +
      s.tally (·.counts .cacheHits) + s.tally (·.counts .forwarded) +
      s.tally (·.counts .upstreamErrors) + s.tally Phase.running := by
  simp only [State.tally]
  induction s.handlers with
  | nil => rfl
  | cons hd rest ih =>
      simp only [List.length_cons, List.countP_cons, ih]
      cases hPhase : hd.phase with
      | answered r a =>
          cases hAction : a.action <;>
            simp [Phase.ignores, Phase.counts, Phase.outcome, Phase.running, hAction] <;> omega
      | _ =>
          simp [Phase.ignores, Phase.counts, Phase.outcome, Phase.running]
          omega

/-- Every parsed query is blocked, a hit, forwarded, an error or not decided
yet. -/
theorem tally_queries (s : State env) :
    s.tally (·.counts .queries) = s.tally (·.counts .blocked) + s.tally (·.counts .cacheHits) +
      s.tally (·.counts .forwarded) + s.tally (·.counts .upstreamErrors) +
      s.tally Phase.undecided := by
  simp only [State.tally]
  induction s.handlers with
  | nil => rfl
  | cons hd rest ih =>
      simp only [List.countP_cons, ih]
      cases hPhase : hd.phase with
      | answered r a =>
          cases hAction : a.action <;>
            simp [Phase.undecided, Phase.counts, Phase.outcome, hAction] <;> omega
      | _ => simp [Phase.undecided, Phase.counts, Phase.outcome] <;> omega

/-- The books of a server that has just started are empty. -/
theorem accounts_boot (cache : Cache.State) (cfg : Config) (list : Blocklist)
    (origins : List (Request env.wire)) :
    Accounts (max cfg.dns.maxInflight.toNat 1) [] (boot cache cfg list origins) where
  received := rfl
  counters := fun c => by cases c <;> rfl
  permits := rfl
  returned := fun _ => rfl
  released := by simp [boot]

/-- A handler that is done and still has its permit can give it back. -/
theorem finish_enabled {h : Nat} {hd : Handler env} (hHandler : s.handlers[h]? = some hd)
    (hDone : hd.phase.running = false) (hHeld : hd.released = false) :
    ∃ s', step s (.finish h) = some s' := by
  simp only [step, hHandler, finish]
  split
  · exact ⟨_, rfl⟩
  · exact ⟨_, rfl⟩
  · rename_i hIgnored hAnswered
    cases hPhase : hd.phase with
    | ignored => exact absurd hHeld (hIgnored hPhase)
    | answered r a => exact absurd hHeld (hAnswered r a hPhase)
    | _ =>
        rw [hPhase] at hDone
        exact absurd hDone (by simp [Phase.running])

/-- The books balance in every run without a restart. -/
theorem accounts_run {cache : Cache.State} {cfg : Config} {list : Blocklist}
    {origins : List (Request env.wire)} {es : List Event} (hAlive : ∀ e ∈ es, e.restarts = false)
    (hRun : Machine.run step (boot cache cfg list origins) es = some s) :
    Accounts (max cfg.dns.maxInflight.toNat 1) es s := by
  have hEnd : Accounts (max cfg.dns.maxInflight.toNat 1) ([] ++ es) s :=
    Machine.run_invariant_past (fun _ _ _ _ => accounts_step) (accounts_boot cache cfg list origins)
      (Machine.along_of_mem (fun e hMem _ => hAlive e hMem) _) hRun
  exact hEnd

/-- Every message received and every permit is accounted for, in every state
a process reaches after its start. -/
theorem messages_accounted (cache : Cache.State) (cfg : Config) (list : Blocklist)
    (origins : List (Request env.wire)) {es : List Event} (hAlive : ∀ e ∈ es, e.restarts = false)
    (hRun : Machine.run step (boot cache cfg list origins) es = some s) :
    es.countP Event.arrives = s.stats.dropped + s.tally Phase.ignores + s.stats.blocked +
        s.stats.cacheHits + s.stats.forwarded + s.stats.upstreamErrors +
        s.tally Phase.running ∧
      s.stats.queries = s.stats.blocked + s.stats.cacheHits + s.stats.forwarded +
        s.stats.upstreamErrors + s.tally Phase.undecided ∧
      s.tally Phase.running ≤ s.handlers.countP (fun hd => !hd.released) ∧
      s.handlers.countP (fun hd => !hd.released) ≤ max cfg.dns.maxInflight.toNat 1 ∧
      s.inflight + s.handlers.countP (fun hd => !hd.released) = max cfg.dns.maxInflight.toNat 1 ∧
      (∀ h, es.countP (Event.finishes h) = (s.handlers[h]?.any Handler.released).toNat) ∧
      ∀ h hd, s.handlers[h]? = some hd → hd.phase.running = false → hd.released = false →
        ∃ s', step s (.finish h) = some s' := by
  have hAccounts : Accounts (max cfg.dns.maxInflight.toNat 1) ([] ++ es) s :=
    Machine.run_invariant_past (fun _ _ _ _ => accounts_step)
      (accounts_boot cache cfg list origins)
      (Machine.along_of_mem (fun e hMem _ => hAlive e hMem) _) hRun
  rw [List.nil_append] at hAccounts
  have hBlocked := hAccounts.counters .blocked
  have hHits := hAccounts.counters .cacheHits
  have hForwarded := hAccounts.counters .forwarded
  have hErrors := hAccounts.counters .upstreamErrors
  have hQueries := hAccounts.counters .queries
  simp only [Stats.get] at hBlocked hHits hForwarded hErrors hQueries
  refine ⟨?_, ?_, ?_, ?_, hAccounts.permits, hAccounts.returned, fun _ _ => finish_enabled⟩
  · have hReceived := hAccounts.received
    have hPartition := tally_partition s
    omega
  · have hTally := tally_queries s
    omega
  · refine List.countP_mono_left fun hd hMem hRunning => ?_
    cases hReleased : hd.released with
    | false => rfl
    | true =>
        have hDone := hAccounts.released hd hMem hReleased
        rw [hDone] at hRunning
        exact absurd hRunning (by decide)
  · have hPermits := hAccounts.permits
    omega

/-- A server with a single permit. -/
def crowdedState : State sampleEnv :=
  let cfg := Config.default
  init 100 { cfg with dns := { cfg.dns with maxInflight := 1 } } ⟨∅, ∅⟩

/-- A second message arrives while the first one holds the permit. -/
def crowded : List Event := .arrive (Exchange.query 1) :: fetch 1 ++ [.finish 0]

/-- Two messages are received, one dropped and one forwarded, and the permit is
back. -/
theorem messages_accounted_crowded :
    ∃ s, Machine.run step crowdedState crowded = some s ∧ crowded.countP Event.arrives = 2 ∧
      (s.stats.dropped, s.stats.forwarded, s.inflight) = (1, 1, 1) ∧
      crowded.countP Event.arrives = s.stats.dropped + s.tally Phase.ignores + s.stats.blocked +
        s.stats.cacheHits + s.stats.forwarded + s.stats.upstreamErrors + s.tally Phase.running := by
  have hEnd : ((Machine.run step crowdedState crowded).map fun s =>
      (s.stats.dropped, s.stats.forwarded, s.inflight)) = some (1, 1, 1) := by
    decide +kernel
  obtain ⟨s, hRun, hCounts⟩ := Option.map_eq_some_iff.mp hEnd
  have hAlive : ∀ e ∈ crowded, e.restarts = false := by simp [crowded, fetch, Event.restarts]
  exact ⟨s, hRun, rfl, hCounts, (messages_accounted _ _ _ _ hAlive hRun).1⟩

end Server

end RustDns
