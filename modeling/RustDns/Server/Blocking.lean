import RustDns.Server.HotReload

/-! A blocked name never leaves the resolver, as far as the first question of
a message decides. -/
namespace RustDns

namespace Server

open Codec

variable {env : Env}

/-- The list blocks some question of the message. -/
def anyBlocked (list : Blocklist) (r : Request env.wire) : Bool :=
  r.message.queries.any fun q => list.isBlocked (q.name.canonical env.idna)

/-- The request an event checks against the list. -/
def checkedRequest (s : State env) : Event → Option (Request env.wire)
  | .check h =>
      s.handlers[h]?.bind fun hd =>
        match hd.phase with
        | .received r _ => some r
        | _ => none
  | _ => none

/-- When the list blocks some question of a checked message, it blocks the
first one. -/
def FirstDecides (s : State env) (e : Event) : Prop :=
  ∀ r, checkedRequest s e = some r → anyBlocked s.blocklist r = true →
    s.blocklist.isBlocked r.name = true

instance (s : State env) (e : Event) : Decidable (FirstDecides s e) :=
  match h : checkedRequest s e with
  | none => isTrue (by simp [FirstDecides, h])
  | some r =>
      decidable_of_iff (anyBlocked s.blocklist r = true → s.blocklist.isBlocked r.name = true)
        (by simp [FirstDecides, h])

/-- In this life of the process handler `h` was checked with this request, and
the list in force blocked none of its questions. -/
def ClearedBy (start : State env) (es : List Event) (h : Nat) (r : Request env.wire) : Prop :=
  ∃ dns list k, CheckedAt start es h r dns list k ∧ anyBlocked list r = false

/-- At some event of the run, perhaps before a restart, the request was checked
and the list in force blocked none of its questions. -/
def Cleared (start : State env) (es : List Event) (r : Request env.wire) : Prop :=
  ∃ k h before hd dns, es[k]? = some (.check h) ∧ Machine.Finds step start es k before ∧
    before.handlers[h]? = some hd ∧ hd.phase = .received r dns ∧
    anyBlocked before.blocklist r = false

/-- These bytes are an upstream reply accepted for a request that was cleared. -/
def FromUpstream (start : State env) (es : List Event) (s : State env) (n : Nat) (reply : Bytes) :
    Prop :=
  ∃ o, s.origins[n]? = some o ∧ Cleared start es o ∧
    validResponse env.wire o.data reply = true

/-- A request checked while the list in force blocked one of its questions has
been answered by the sinkhole and has started no flight. All flights are those
of cleared requests, and everything stored is an upstream reply to such a
request. -/
structure Contained (start : State env) (es : List Event) (s : State env) : Prop where
  blocked : ∀ h r dns list k, CheckedAt start es h r dns list k → anyBlocked list r = true →
    (∃ hd a, s.handlers[h]? = some hd ∧ hd.phase = .answered r a ∧ a.action = .blocked ∧
      a.response = buildBlocked env.wire r.message r.query dns) ∧
    ∀ fl ∈ s.flights, fl.leader ≠ h
  flights : ∀ fl ∈ s.flights, ClearedBy start es fl.leader fl.request
  ram : ∀ key e, s.cache.ram.lookup key = some e → FromUpstream start es s e.fill e.value.wire
  channel : ∀ p ∈ s.cache.channel, FromUpstream start es s p.fill p.item.2.wire
  buffer : ∀ p ∈ s.cache.buffer, FromUpstream start es s p.fill p.item.2.wire
  store : ∀ b row : Bytes, s.cache.store[b]? = some row →
    ∃ v, decVal row = some v ∧ FromUpstream start es s (s.cache.rowFill b) v.wire

/-- Whatever sends a query or changes the cache is the cache's own work, a
restart, or the call of a flight that asks for a request its leader was cleared
with. -/
def Blameless (start : State env) (es : List Event) (s : State env) (e : Event) (s' : State env) :
    Prop :=
  s'.cache ≠ s.cache ∨ s'.upstream.sent ≠ s.upstream.sent →
    (∃ c, e = .cache c) ∨ (∃ cfg list loaded, e = .restart cfg list loaded) ∨
      ∃ i fl call, e = .upstream (.progress i) ∧ s.flights[i]? = some fl ∧
        s.upstream.calls[i]? = some call ∧ call.query = fl.request.data ∧
        ClearedBy start es fl.leader fl.request

variable {start s s' : State env} {es : List Event} {e : Event} {h k : Nat} {hd : Handler env}
  {r : Request env.wire} {dns : DnsConfig} {list : Blocklist}

/-- Where the first question decides, it tells what the list says of all of them. -/
theorem anyBlocked_of_checked (hFirst : Machine.Along step FirstDecides start es)
    (hChecked : CheckedAt start es h r dns list k) (hAny : anyBlocked list r = true) :
    list.isBlocked r.name = true := by
  obtain ⟨hOccurs, before, hd, hFinds, hHandler, hPhase, rfl⟩ := hChecked
  have hDecides : FirstDecides before (.check h) := hFinds.along hOccurs.1 hFirst
  exact hDecides r (by simp [checkedRequest, hHandler, hPhase]) hAny

/-- A request that its list let through is cleared at its `.check`. -/
theorem clearedBy_of_judged {data : Bytes} (hFirst : Machine.Along step FirstDecides start es)
    (hJudged : Judged start es h data r dns list) (hPass : list.isBlocked r.name = false) :
    ClearedBy start es h r := by
  obtain ⟨_, _, k, -, -, -, -, hChecked⟩ := hJudged
  refine ⟨dns, list, k, hChecked, Bool.eq_false_iff.mpr fun hAny => ?_⟩
  rw [anyBlocked_of_checked hFirst hChecked hAny] at hPass
  exact absurd hPass (by decide)

/-- Who leads a flight was cleared with its request. -/
theorem clearedBy_of_leads (hFirst : Machine.Along step FirstDecides start es)
    (hFollows : Follows start es s) (hHandler : s.handlers[h]? = some hd)
    (hLeads : hd.phase.Leads r) : ClearedBy start es h r := by
  cases hPhase : hd.phase with
  | waiting r' i =>
      rw [hPhase] at hLeads
      obtain rfl : r' = r := hLeads
      obtain ⟨dns, list, hJudged, hPass⟩ := hFollows.of_phase hHandler hPhase
      exact clearedBy_of_judged hFirst hJudged hPass
  | answered r' a =>
      rw [hPhase] at hLeads
      obtain ⟨rfl, hAction⟩ := hLeads
      obtain ⟨dns, list, hJudged, hIff, -⟩ := hFollows.of_phase hHandler hPhase
      have hPass : list.isBlocked r'.name = false :=
        Bool.eq_false_iff.mpr fun hBlocked => hAction (hIff.mpr hBlocked)
      exact clearedBy_of_judged hFirst hJudged hPass
  | _ =>
      rw [hPhase] at hLeads
      exact hLeads.elim

/-- A cleared leader was cleared at some event of every longer run. -/
theorem ClearedBy.cleared (hCleared : ClearedBy start es h r) (more : List Event) :
    Cleared start (es ++ more) r := by
  obtain ⟨dns, list, k, ⟨hOccurs, before, hd, hFinds, hHandler, hPhase, rfl⟩, hNone⟩ := hCleared
  exact ⟨k, h, before, hd, dns, Indexed.getElem?_append_of_some hOccurs.1 more,
    hFinds.append (Nat.le_of_lt hOccurs.lt) more, hHandler, hPhase, hNone⟩

/-- An answered handler keeps its answer. -/
theorem answered_run {a : Answer} (hAlive : ∀ e ∈ es, e.restarts = false)
    (hRun : Machine.run step s es = some s') (hHandler : s.handlers[h]? = some hd)
    (hPhase : hd.phase = .answered r a) :
    ∃ hd', s'.handlers[h]? = some hd' ∧ hd'.phase = .answered r a := by
  have hStep : ∀ (t : State env) (e : Event) (t' : State env),
      (∃ hd', t.handlers[h]? = some hd' ∧ hd'.phase = .answered r a) → e.restarts = false →
      step t e = some t' → ∃ hd', t'.handlers[h]? = some hd' ∧ hd'.phase = .answered r a := by
    rintro t e t' ⟨hd', hHandler', hPhase'⟩ hAliveE hNext
    exact answered_step hAliveE hHandler' hPhase' hNext
  exact Machine.run_invariant_along hStep ⟨hd, hHandler, hPhase⟩
    (Machine.along_of_mem (fun e hMem _ => hAlive e hMem) s) hRun

/-- A check that finds the first question blocked answers, and the answer stays. -/
theorem sinkhole_of_blocked (hRun : Machine.run step start es = some s)
    (hChecked : CheckedAt start es h r dns list k) (hBlocked : list.isBlocked r.name = true) :
    ∃ hd a, s.handlers[h]? = some hd ∧ hd.phase = .answered r a ∧ a.action = .blocked ∧
      a.response = buildBlocked env.wire r.message r.query dns := by
  obtain ⟨hOccurs, before, hd, hFinds, hHandler, hPhase, rfl⟩ := hChecked
  obtain ⟨after, hStep⟩ := hFinds.exists_step hRun hOccurs.1
  obtain ⟨hLt, -⟩ := List.getElem?_eq_some_iff.mp hHandler
  have hEnd : Machine.Finds step start es es.length s := by rwa [Machine.Finds, List.take_length]
  have hRest := (hFinds.succ hOccurs.1 hStep).run_between hEnd hOccurs.lt
  simp only [step, hHandler, hPhase, check, hBlocked, if_true] at hStep
  obtain rfl := Option.some.inj hStep
  obtain ⟨hd', hHandler', hPhase'⟩ := answered_run hOccurs.alive_between hRest
    (List.getElem?_set_self hLt) rfl
  exact ⟨hd', _, hHandler', hPhase', rfl, rfl⟩

/-- What is filled in comes from a flight. -/
theorem origins_of_step (hSound : Sound s) (hStep : step s e = some s') :
    s'.origins = s.origins ∨ ∃ fl ∈ s.flights, s'.origins = s.origins ++ [fl.request] := by
  cases step_cases hStep with
  | arrive data =>
      unfold arrive
      split <;> exact Or.inl rfl
  | parse _ _ =>
      unfold parse
      split <;> exact Or.inl rfl
  | check _ _ =>
      unfold check
      split <;> exact Or.inl rfl
  | lookup _ _ =>
      unfold lookup
      split <;> exact Or.inl rfl
  | join _ _ =>
      unfold join
      split
      · exact Or.inl rfl
      · split <;> exact Or.inl rfl
  | deliver _ _ hDeliver =>
      rcases deliver_cases hDeliver with ⟨_, _, _, -, -, rfl⟩ | rfl <;> exact Or.inl rfl
  | finish _ hFinish =>
      obtain rfl := finish_cases hFinish
      exact Or.inl rfl
  | upstream hForward =>
      obtain ⟨upstream, -, hCases⟩ := forward_cases hSound.flights.length_eq hForward
      rcases hCases with ⟨rfl, -⟩ | ⟨i, call, value, fl, -, hFlight, -, -, -, -, -, -, rfl⟩
      · exact Or.inl rfl
      · exact Or.inr ⟨fl, List.mem_of_getElem? hFlight, rfl⟩
  | cache hBackground =>
      obtain ⟨cache, -, rfl, -⟩ := background_cases hBackground
      exact Or.inl rfl
  | setBlocklist list => exact Or.inl rfl
  | setConfig cfg => exact Or.inl rfl
  | restart cfg list loaded => exact Or.inl rfl

section

variable {now : UnixTime} {cfg : Config}

/-- The request was that of a flight in some state the run went through. -/
def Flown (start : State env) (es : List Event) (r : Request env.wire) : Prop :=
  ∃ past more before fl, es = past ++ more ∧ Machine.run step start past = some before ∧
    fl ∈ before.flights ∧ fl.request = r

/-- A flight that has been opened stays opened in a longer run. -/
theorem Flown.concat (hFlown : Flown start es r) (e : Event) : Flown start (es ++ [e]) r := by
  obtain ⟨past, more, before, fl, rfl, hRest⟩ := hFlown
  exact ⟨past, more ++ [e], before, fl, List.append_assoc past more [e], hRest⟩

/-- Every request behind a fill was that of a flight. -/
theorem flown_of_origin (hRun : Machine.run step (init now cfg list : State env) es = some s) :
    ∀ o ∈ s.origins, Flown (init now cfg list) es o := by
  have hStep : ∀ past (t : State env) (e : Event) (t' : State env),
      (Machine.run step (init now cfg list : State env) past = some t ∧
        ∀ o ∈ t.origins, Flown (init now cfg list) past o) → True → step t e = some t' →
      Machine.run step (init now cfg list : State env) (past ++ [e]) = some t' ∧
        ∀ o ∈ t'.origins, Flown (init now cfg list) (past ++ [e]) o := by
    rintro past t e t' ⟨hPast, hOrigins⟩ - hNext
    refine ⟨Machine.run_concat.mpr ⟨t, hPast, hNext⟩, fun o hMem => ?_⟩
    rcases origins_of_step (sound_run hPast) hNext with hSame | ⟨fl, hFl, hNew⟩
    · exact (hOrigins o (hSame ▸ hMem)).concat e
    · rw [hNew] at hMem
      rcases List.mem_append.mp hMem with hOld | hLast
      · exact (hOrigins o hOld).concat e
      · exact ⟨past, [e], t, fl, rfl, hPast, hFl, (List.mem_singleton.mp hLast).symm⟩
  have hStart : Machine.run step (init now cfg list : State env) [] = some (init now cfg list) ∧
      ∀ o ∈ (init now cfg list : State env).origins, Flown (init now cfg list) [] o :=
    ⟨rfl, by simp [init, boot]⟩
  exact (Machine.run_invariant_past hStep hStart
    (Machine.along_of_mem (fun _ _ _ => trivial) _) hRun).2

/-- Every flight of a run was opened for a request that was cleared, by
induction on the run. -/
theorem clearedBy_of_flight
    (hFirst : Machine.Along step FirstDecides (init now cfg list : State env) es)
    (hRun : Machine.run step (init now cfg list : State env) es = some s) :
    ∀ fl ∈ s.flights, ClearedBy (init now cfg list) es fl.leader fl.request := by
  intro fl hFl
  have hBrings : ∀ e ∈ es, e.Brings fun _ => True := fun e _ => by cases e <;> trivial
  obtain ⟨hd, hHandler, hLeads⟩ := (traced_run hBrings hRun).2.leaders fl hFl
  exact clearedBy_of_leads hFirst (follows_run rfl hRun) hHandler hLeads

/-- The leader of the flight behind a fill was cleared before the flight landed. -/
theorem cleared_of_origin
    (hFirst : Machine.Along step FirstDecides (init now cfg list : State env) es)
    (hRun : Machine.run step (init now cfg list : State env) es = some s) :
    ∀ o ∈ s.origins, Cleared (init now cfg list) es o := by
  intro o hMem
  obtain ⟨past, more, before, fl, rfl, hPast, hFl, rfl⟩ := flown_of_origin hRun o hMem
  exact (clearedBy_of_flight (Machine.along_append hFirst) hPast fl hFl).cleared more

/-- A fill comes from upstream. -/
theorem fromUpstream_of_fill {n : Nat} {f : Cache.Fill}
    (hFirst : Machine.Along step FirstDecides (init now cfg list : State env) es)
    (hRun : Machine.run step (init now cfg list : State env) es = some s)
    (hFill : s.cache.fills[n]? = some f) :
    FromUpstream (init now cfg list) es s n f.value.wire := by
  obtain ⟨o, hOrigin, -, hValid⟩ := Indexed.forall₂_partner (sound_run hRun).origins hFill
  exact ⟨o, hOrigin, cleared_of_origin hFirst hRun o (List.mem_of_getElem? hOrigin), hValid⟩

/-- In every run what has left the server, and what its stores hold, comes from
cleared requests. -/
theorem contained_run (hFirst : Machine.Along step FirstDecides (init now cfg list : State env) es)
    (hRun : Machine.run step (init now cfg list : State env) es = some s) :
    Contained (init now cfg list) es s where
  blocked := fun h r dns list' k hChecked hAny => by
    obtain ⟨hd, a, hHandler, hPhase, hAction, hResponse⟩ :=
      sinkhole_of_blocked hRun hChecked (anyBlocked_of_checked hFirst hChecked hAny)
    refine ⟨⟨hd, a, hHandler, hPhase, hAction, hResponse⟩, fun fl hFl hLeader => ?_⟩
    -- the leader of a flight is not answered by the sinkhole
    have hBrings : ∀ e ∈ es, e.Brings fun _ => True := fun e _ => by cases e <;> trivial
    obtain ⟨leader, hGet, hLeads⟩ := (traced_run hBrings hRun).2.leaders fl hFl
    rw [hLeader] at hGet
    obtain rfl := Option.some.inj (hGet.symm.trans hHandler)
    rw [hPhase] at hLeads
    exact hLeads.2 hAction
  flights := clearedBy_of_flight hFirst hRun
  ram := fun key e hLookup => by
    obtain ⟨f, hFill, hStems⟩ := (sound_run hRun).cache.ram key e hLookup
    rw [hStems.wire]
    exact fromUpstream_of_fill hFirst hRun hFill
  channel := fun p hp => by
    obtain ⟨f, hFill, hItem⟩ := (sound_run hRun).cache.channel p hp
    rw [hItem]
    exact fromUpstream_of_fill hFirst hRun hFill
  buffer := fun p hp => by
    obtain ⟨f, hFill, hItem⟩ := (sound_run hRun).cache.buffer p hp
    rw [hItem]
    exact fromUpstream_of_fill hFirst hRun hFill
  store := fun b row hRow => by
    obtain ⟨f, hFill, -, rfl⟩ := (sound_run hRun).cache.store b row hRow
    exact ⟨f.value, decVal_encVal f.value, fromUpstream_of_fill hFirst hRun hFill⟩

end

/-- The call a step of the upstream moves on is that of a flight. -/
theorem flight_of_progress {i : Nat} {upstream : Upstream.State} (hSound : Sound s)
    (hStep : Upstream.step env.wire s.policy s.cache.clock s.upstream (.progress i) =
      some upstream) :
    ∃ fl call, s.flights[i]? = some fl ∧ s.upstream.calls[i]? = some call ∧
      call.query = fl.request.data := by
  rcases Upstream.step_calls hStep (by simp) with ⟨hNone, -⟩ | ⟨j, call, -, hIndex, hCall, -⟩
  · simp [Upstream.Event.call?] at hNone
  · obtain rfl : i = j := Option.some.inj hIndex
    obtain ⟨fl, hFlight, hQuery, -⟩ := Indexed.forall₂_partner hSound.flights hCall
    exact ⟨fl, call, hFlight, hCall, hQuery⟩

/-- A step sends, stores and answers from the upstream only for requests that
were cleared. -/
theorem blameless_step (hSound : Sound s)
    (hFlights : ∀ fl ∈ s.flights, ClearedBy start es fl.leader fl.request)
    (hStep : step s e = some s') : Blameless start es s e s' := by
  intro hChanged
  cases e with
  | cache c => exact Or.inl ⟨c, rfl⟩
  | restart cfg list loaded => exact Or.inr (Or.inl ⟨cfg, list, loaded, rfl⟩)
  | upstream u =>
      obtain ⟨upstream, hUpstream, hCases⟩ := forward_cases hSound.flights.length_eq hStep
      obtain ⟨i, rfl⟩ : ∃ i, u = .progress i := by
        rcases hCases with ⟨rfl, -⟩ | ⟨i, _, _, _, rfl, -⟩
        · rcases hChanged with hCache | hSent
          · exact absurd rfl hCache
          · exact Upstream.sent_of_step hUpstream hSent
        · exact ⟨i, rfl⟩
      obtain ⟨fl, call, hFlight, hCall, hQuery⟩ := flight_of_progress hSound hUpstream
      exact Or.inr (Or.inr ⟨i, fl, call, rfl, hFlight, hCall, hQuery,
        hFlights fl (List.mem_of_getElem? hFlight)⟩)
  | _ =>
      obtain ⟨hCache, hSent⟩ := quiet_of_step (step_cases hStep) (by simp) (by simp) (by simp)
      rcases hChanged with hNot | hNot
      · exact absurd hCache hNot
      · exact absurd hSent hNot

/-- A name the list does not block passes, whatever the list was before. -/
theorem check_passes (hHandler : s.handlers[h]? = some hd) (hPhase : hd.phase = .received r dns)
    (hPass : s.blocklist.isBlocked r.name = false) (hStep : step s (.check h) = some s') :
    ∃ hd', s'.handlers[h]? = some hd' ∧ hd'.phase = .unblocked r := by
  simp only [step, hHandler, hPhase] at hStep
  obtain rfl := Option.some.inj hStep
  obtain ⟨hLt, -⟩ := List.getElem?_eq_some_iff.mp hHandler
  refine ⟨{ hd with phase := .unblocked r }, ?_, rfl⟩
  simp [check, hPass, setHandler, hLt]

/-- In every run in which the first question decides, a request one of whose
questions the list in force blocks at its check is answered by the sinkhole,
sends nothing and stores nothing, only upstream replies to other requests are
ever stored, and a name that is no longer blocked passes its next check. -/
theorem blocked_stays_inside {now : UnixTime} {cfg : Config} {list : Blocklist} {es : List Event}
    (hFirst : Machine.Along step FirstDecides (init now cfg list : State env) es)
    (hRun : Machine.run step (init now cfg list) es = some s) :
    Contained (init now cfg list) es s ∧
      (∀ e s', step s e = some s' → Blameless (init now cfg list) es s e s') ∧
      ∀ h hd r dns s', s.handlers[h]? = some hd → hd.phase = .received r dns →
        s.blocklist.isBlocked r.name = false → step s (.check h) = some s' →
        ∃ hd', s'.handlers[h]? = some hd' ∧ hd'.phase = .unblocked r :=
  ⟨contained_run hFirst hRun,
    fun _ _ hStep => blameless_step (sound_run hRun) (clearedBy_of_flight hFirst hRun) hStep,
    fun _ _ _ _ _ hHandler hPhase hPass hStep => check_passes hHandler hPhase hPass hStep⟩

/-- What the list said at a check of a given run. -/
theorem checkedAt_of_run {verdict : Bool} (hOccurs : Occurs es k (.check h))
    (hVerdict : ((Machine.run step start (es.take k)).bind fun s =>
      (checkedRequest s (.check h)).map (anyBlocked s.blocklist)) = some verdict) :
    ∃ r dns list, CheckedAt start es h r dns list k ∧ anyBlocked list r = verdict := by
  obtain ⟨before, hFinds, hChecked⟩ := Option.bind_eq_some_iff.mp hVerdict
  obtain ⟨r, hRequest, hAny⟩ := Option.map_eq_some_iff.mp hChecked
  obtain ⟨hd, hHandler, hPhase⟩ := Option.bind_eq_some_iff.mp hRequest
  split at hPhase
  · rename_i r' dns hReceived
    obtain rfl := Option.some.inj hPhase
    exact ⟨r', dns, before.blocklist, ⟨hOccurs, before, hd, hFinds, hHandler, hReceived, rfl⟩, hAny⟩
  · simp at hPhase

/-- A client asks for a blocked name, the name is taken off the list, and the
query of the next client goes out. -/
def unblock : List Event :=
  [.setBlocklist ⟨{['a']}, ∅⟩, .arrive (Exchange.query 1), .parse 0, .check 0,
    .setBlocklist ⟨∅, ∅⟩, .arrive (Exchange.query 1), .parse 1, .check 1, .lookup 1, .join 1,
    .upstream (.acquire 0), .upstream (.untilReady 0),
    .upstream (.load 0 [.sent (some (Exchange.reply 1, .unsent)), .unsent]),
    .upstream (.progress 0), .upstream (.progress 0), .deliver 1]

/-- The list blocks `a`: the first client is sinkholed and nothing leaves. Once
`a` is taken off the list the second client goes out, in the only flight of the
run. -/
theorem blocked_stays_inside_unblock :
    ∃ s, Machine.run step firstState unblock = some s ∧ Contained firstState unblock s ∧
      s.upstream.sent = 1 ∧ s.flights.map Flight.leader = [1] ∧
      ∃ hd r a dns, s.handlers[0]? = some hd ∧ hd.phase = .answered r a ∧ a.action = .blocked ∧
        a.response = buildBlocked Exchange.wire r.message r.query dns := by
  have hEnd : ((Machine.run step firstState unblock).map fun s =>
      (s.upstream.sent, s.flights.map Flight.leader)) = some (1, [1]) := by
    decide +kernel
  have hFirst : Machine.Along step FirstDecides firstState unblock := by decide +kernel
  have hVerdict : ((Machine.run step firstState (unblock.take 3)).bind fun s =>
      (checkedRequest s (.check 0)).map (anyBlocked s.blocklist)) = some true := by
    decide +kernel
  have hOccurs : Occurs unblock 3 (.check 0) := ⟨rfl, by decide⟩
  obtain ⟨s, hRun, hLists⟩ := Option.map_eq_some_iff.mp hEnd
  obtain ⟨hSent, hFlights⟩ := Prod.mk.inj hLists
  obtain ⟨r, dns, list, hChecked, hAny⟩ := checkedAt_of_run hOccurs hVerdict
  have hContained := (blocked_stays_inside hFirst hRun).1
  obtain ⟨⟨hd, a, hHandler, hPhase, hAction, hResponse⟩, -⟩ :=
    hContained.blocked 0 r dns list 3 hChecked hAny
  exact ⟨s, hRun, hContained, hSent, hFlights, hd, r, a, dns, hHandler, hPhase, hAction, hResponse⟩

/-- A message that asks for `a.` and for `b.`. -/
def twoQuestions : Bytes :=
  [0, 1, 1, 0, 0, 2, 0, 0, 0, 0, 0, 0, 1, 97, 0, 0, 1, 0, 1, 1, 98, 0, 0, 1, 0, 1]

def twoQuestionsMessage : Message :=
  { Exchange.queryMessage 1 with
    queries :=
      [⟨Exchange.name, RecordType.a, 1⟩, ⟨⟨[[98]], by decide⟩, RecordType.a, 1⟩] }

def twoQuestionsEnv : Env :=
  ⟨Idna.never, Wire.ofTable [(twoQuestions, twoQuestionsMessage)] (by decide)⟩

/-- The list blocks the second question. -/
def secondBlocked : State twoQuestionsEnv := init 100 Config.default ⟨{['b']}, ∅⟩

/-- The message is asked and its query sent. -/
def askTwo : List Event :=
  [.arrive twoQuestions, .parse 0, .check 0, .lookup 0, .join 0, .upstream (.acquire 0),
    .upstream (.untilReady 0), .upstream (.load 0 [.sent none, .unsent]), .upstream (.progress 0)]

/-- The query goes out although the list blocks its second question. -/
theorem second_question_leaves :
    ∃ s, Machine.run step secondBlocked askTwo = some s ∧
      (∃ r dns list k, CheckedAt secondBlocked askTwo 0 r dns list k ∧
        anyBlocked list r = true) ∧
      s.upstream.sent = 1 ∧ s.flights.map Flight.leader = [0] ∧
      ¬ Contained secondBlocked askTwo s := by
  have hEnd : ((Machine.run step secondBlocked askTwo).map fun s =>
      (s.upstream.sent, s.flights.map Flight.leader)) = some (1, [0]) := by
    decide +kernel
  have hVerdict : ((Machine.run step secondBlocked (askTwo.take 2)).bind fun s =>
      (checkedRequest s (.check 0)).map (anyBlocked s.blocklist)) = some true := by
    decide +kernel
  have hOccurs : Occurs askTwo 2 (.check 0) := ⟨rfl, by decide⟩
  obtain ⟨s, hRun, hLists⟩ := Option.map_eq_some_iff.mp hEnd
  obtain ⟨hSent, hFlights⟩ := Prod.mk.inj hLists
  obtain ⟨r, dns, list, hChecked, hAny⟩ := checkedAt_of_run hOccurs hVerdict
  refine ⟨s, hRun, ⟨r, dns, list, 2, hChecked, hAny⟩, hSent, hFlights, fun hContained => ?_⟩
  have hLeader : 0 ∈ s.flights.map Flight.leader := by simp [hFlights]
  obtain ⟨fl, hFl, hZero⟩ := List.mem_map.mp hLeader
  exact (hContained.blocked 0 r dns list 2 hChecked hAny).2 fl hFl hZero

end Server

end RustDns
