import RustDns.Server.Soundness

/-! The messages behind handlers, flights and fills. -/
namespace RustDns

namespace Server

variable {env : Env}

/-- The handler has asked for a flight with this request. -/
def Phase.Leads (r : Request env.wire) : Phase env → Prop
  | .waiting r' _ => r' = r
  | .answered r' a => r' = r ∧ a.action ≠ .blocked
  | _ => False

/-- The request of a handler is its message. -/
def Handler.Traced (hd : Handler env) : Prop :=
  match hd.phase with
  | .arrived | .ignored => True
  | .received r _ | .unblocked r | .missed r | .waiting r _ | .answered r _ => r.data = hd.data

/-- Every message satisfies `P`, and every flight has been started by its leader. -/
structure Traced (P : Bytes → Prop) (s : State env) : Prop where
  handlers : ∀ hd ∈ s.handlers, P hd.data ∧ hd.Traced
  flights : ∀ fl ∈ s.flights, P fl.request.data
  leaders : ∀ fl ∈ s.flights, ∃ hd, s.handlers[fl.leader]? = some hd ∧ hd.phase.Leads fl.request
  origins : ∀ o ∈ s.origins, P o.data

/-- The event brings in only messages with `P`. -/
def Event.Brings (P : Bytes → Prop) : Event → Prop
  | .arrive data => P data
  | _ => True

variable {P : Bytes → Prop} {s s' : State env}

/-- A request keeps the bytes it was read from. -/
theorem Request.data_of_read {wire : Wire} {data : Bytes} {r : Request wire}
    (hRead : Request.read wire data = some r) : r.data = data := by
  unfold Request.read at hRead
  split at hRead
  · simp at hRead
  · split at hRead
    · simp at hRead
    · obtain rfl := Option.some.inj hRead
      rfl

/-- A step that only moves a handler on. -/
theorem traced_setHandler {h : Nat} {hd hd' : Handler env} {stats : Stats} {inflight : Nat}
    (hTraced : Traced P s) (hHandler : s.handlers[h]? = some hd) (hData : hd'.data = hd.data)
    (hNew : hd'.Traced) (hKeep : ∀ r, hd.phase.Leads r → hd'.phase.Leads r) :
    Traced P { setHandler s h hd' with stats := stats, inflight := inflight } where
  handlers := fun hd'' hMem => by
    rcases List.mem_or_eq_of_mem_set hMem with hOld | rfl
    · exact hTraced.handlers hd'' hOld
    · exact ⟨hData ▸ (hTraced.handlers hd (List.mem_of_getElem? hHandler)).1, hNew⟩
  flights := hTraced.flights
  leaders := fun fl hFl => by
    obtain ⟨leader, hLeader, hLeads⟩ := hTraced.leaders fl hFl
    obtain ⟨hLt, -⟩ := List.getElem?_eq_some_iff.mp hHandler
    by_cases hIndex : h = fl.leader
    · subst hIndex
      obtain rfl : hd = leader := Option.some.inj (hHandler.symm.trans hLeader)
      exact ⟨hd', by simp [setHandler, hLt], hKeep fl.request hLeads⟩
    · exact ⟨leader, by simpa [setHandler, List.getElem?_set_ne hIndex] using hLeader, hLeads⟩
  origins := hTraced.origins

/-- A new handler holds the bytes that arrived. -/
theorem traced_arrive {data : Bytes} (hData : P data) (hTraced : Traced P s) :
    Traced P (arrive s data) := by
  unfold arrive
  split
  · exact { hTraced with }
  · exact
      { hTraced with
        handlers := fun hd hMem => by
          rcases List.mem_append.mp hMem with hOld | hNew
          · exact hTraced.handlers hd hOld
          · obtain rfl := List.mem_singleton.mp hNew
            exact ⟨hData, trivial⟩
        leaders := fun fl hFl => by
          obtain ⟨leader, hLeader, hLeads⟩ := hTraced.leaders fl hFl
          exact ⟨leader, Indexed.getElem?_append_of_some hLeader _, hLeads⟩ }

section

variable {h : Nat} {hd : Handler env} {r : Request env.wire}

/-- What is known of a handler in a given phase. -/
theorem traced_phase {phase : Phase env} (hTraced : Traced P s)
    (hHandler : s.handlers[h]? = some hd) (hPhase : hd.phase = phase) :
    Handler.Traced { hd with phase := phase } := by
  have hOld := (hTraced.handlers hd (List.mem_of_getElem? hHandler)).2
  subst hPhase
  exact hOld

/-- Parsing reads the bytes the handler has. -/
theorem traced_parse (hHandler : s.handlers[h]? = some hd) (hPhase : hd.phase = .arrived)
    (hTraced : Traced P s) : Traced P (parse s h hd) := by
  unfold parse
  split
  · exact traced_setHandler hTraced hHandler rfl trivial (by simp [hPhase, Phase.Leads])
  · rename_i r hRead
    exact traced_setHandler hTraced hHandler rfl (Request.data_of_read hRead)
      (by simp [hPhase, Phase.Leads])

/-- The check keeps the request. -/
theorem traced_check {dns : DnsConfig} (hHandler : s.handlers[h]? = some hd)
    (hPhase : hd.phase = .received r dns) (hTraced : Traced P s) :
    Traced P (check s h hd r dns) := by
  have hData : r.data = hd.data := traced_phase hTraced hHandler hPhase
  unfold check
  split
  · exact traced_setHandler hTraced hHandler rfl hData (by simp [hPhase, Phase.Leads])
  · exact traced_setHandler hTraced hHandler rfl hData (by simp [hPhase, Phase.Leads])

/-- The look into RAM keeps the request. -/
theorem traced_lookup (hHandler : s.handlers[h]? = some hd) (hPhase : hd.phase = .unblocked r)
    (hTraced : Traced P s) : Traced P (lookup s h hd r) := by
  have hData : r.data = hd.data := traced_phase hTraced hHandler hPhase
  unfold lookup
  split
  · exact traced_setHandler hTraced hHandler rfl hData (by simp [hPhase, Phase.Leads])
  · exact traced_setHandler hTraced hHandler rfl hData (by simp [hPhase, Phase.Leads])

/-- A flight is opened for the request of its leader. -/
theorem traced_join (hHandler : s.handlers[h]? = some hd) (hPhase : hd.phase = .missed r)
    (hTraced : Traced P s) : Traced P (join s h hd r) := by
  have hData : r.data = hd.data := traced_phase hTraced hHandler hPhase
  unfold join
  split
  · exact traced_setHandler hTraced hHandler rfl hData (by simp [hPhase, Phase.Leads])
  · have hWaiting : ∀ i, Traced P
        { setHandler s h { hd with phase := .waiting r i } with
          stats := s.stats, inflight := s.inflight } := fun i =>
      traced_setHandler hTraced hHandler rfl hData (by simp [hPhase, Phase.Leads])
    split
    · exact hWaiting _
    · have hMessage := (hTraced.handlers hd (List.mem_of_getElem? hHandler)).1
      obtain ⟨hLt, -⟩ := List.getElem?_eq_some_iff.mp hHandler
      exact
        { handlers := (hWaiting _).handlers
          flights := fun fl hFl => by
            rcases List.mem_append.mp hFl with hFl | hNew
            · exact hTraced.flights fl hFl
            · obtain rfl := List.mem_singleton.mp hNew
              exact hData ▸ hMessage
          leaders := fun fl hFl => by
            rcases List.mem_append.mp hFl with hFl | hNew
            · exact (hWaiting _).leaders fl hFl
            · obtain rfl := List.mem_singleton.mp hNew
              exact ⟨{ hd with phase := .waiting r s.flights.length }, by simp [setHandler, hLt],
                rfl⟩
          origins := hTraced.origins }

/-- An answer is to the request that waited. -/
theorem traced_deliver {i : Nat} (hHandler : s.handlers[h]? = some hd)
    (hPhase : hd.phase = .waiting r i) (hDeliver : deliver s h hd r i = some s')
    (hTraced : Traced P s) : Traced P s' := by
  have hData : r.data = hd.data := traced_phase hTraced hHandler hPhase
  rcases deliver_cases hDeliver with ⟨fl, query, value, -, -, rfl⟩ | rfl
  · exact traced_setHandler hTraced hHandler rfl hData (by simp [hPhase, Phase.Leads])
  · exact traced_setHandler hTraced hHandler rfl hData (by simp [hPhase, Phase.Leads])

end

/-- A landing flight hands its request to the fill. -/
theorem traced_filled {upstream : Upstream.State} {cache : Cache.State} {i n : Nat}
    {fl : Flight env} (hFlight : s.flights[i]? = some fl) (hTraced : Traced P s) :
    Traced P
      { s with
        upstream := upstream
        cache := cache
        flights := s.flights.set i { fl with fill := some n }
        origins := s.origins ++ [fl.request] } := by
  have hMem := List.mem_of_getElem? hFlight
  exact
    { handlers := hTraced.handlers
      flights := fun fl' hFl => by
        rcases List.mem_or_eq_of_mem_set hFl with hOld | rfl
        · exact hTraced.flights fl' hOld
        · exact hTraced.flights fl hMem
      leaders := fun fl' hFl => by
        rcases List.mem_or_eq_of_mem_set hFl with hOld | rfl
        · exact hTraced.leaders fl' hOld
        · exact hTraced.leaders fl hMem
      origins := fun o hO => by
        rcases List.mem_append.mp hO with hOld | hNew
        · exact hTraced.origins o hOld
        · obtain rfl := List.mem_singleton.mp hNew
          exact hTraced.flights fl hMem }

/-- A step leaves every request traced to bytes that arrived. -/
theorem traced_step {e : Event} (hInv : Sound s ∧ Traced P s) (hBrings : e.Brings P)
    (hStep : step s e = some s') : Sound s' ∧ Traced P s' := by
  obtain ⟨hSound, hTraced⟩ := hInv
  refine ⟨sound_step hSound hStep, ?_⟩
  cases step_cases hStep with
  | arrive data => exact traced_arrive hBrings hTraced
  | parse hHandler hPhase => exact traced_parse hHandler hPhase hTraced
  | check hHandler hPhase => exact traced_check hHandler hPhase hTraced
  | lookup hHandler hPhase => exact traced_lookup hHandler hPhase hTraced
  | join hHandler hPhase => exact traced_join hHandler hPhase hTraced
  | deliver hHandler hPhase hDeliver => exact traced_deliver hHandler hPhase hDeliver hTraced
  | finish hHandler hFinish =>
      obtain rfl := finish_cases hFinish
      have hOld := (hTraced.handlers _ (List.mem_of_getElem? hHandler)).2
      exact traced_setHandler hTraced hHandler rfl hOld fun _ => id
  | upstream hForward =>
      obtain ⟨upstream, -, hCases⟩ := forward_cases hSound.flights.length_eq hForward
      rcases hCases with ⟨rfl, -⟩ | ⟨i, call, value, fl, -, hFlight, -, -, -, -, -, -, rfl⟩
      · exact { hTraced with }
      · exact traced_filled hFlight hTraced
  | cache hBackground =>
      obtain ⟨cache, -, rfl, -⟩ := background_cases hBackground
      exact { hTraced with }
  | setBlocklist list => exact { hTraced with }
  | setConfig cfg => exact { hTraced with }
  | restart cfg list loaded =>
      exact
        { handlers := by simp [boot]
          flights := by simp [boot]
          leaders := by simp [boot]
          origins := hTraced.origins }

/-- What every message of a run satisfies, the messages behind all requests do. -/
theorem traced_run {now : UnixTime} {cfg : Config} {list : Blocklist} {es : List Event}
    (hBrings : ∀ e ∈ es, e.Brings P)
    (hRun : Machine.run step (init now cfg list) es = some s) : Sound s ∧ Traced P s := by
  have hStart : Traced P (init now cfg list : State env) :=
    { handlers := by simp [init, boot]
      flights := by simp [init, boot]
      leaders := by simp [init, boot]
      origins := by simp [init, boot] }
  exact Machine.run_invariant_along (fun _ _ _ => traced_step) ⟨sound_init now cfg list, hStart⟩
    (Machine.along_of_mem (fun e hMem _ => hBrings e hMem) _) hRun

end Server

end RustDns
