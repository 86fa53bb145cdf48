import RustDns.Server.Soundness

/-! Single flight: concurrent misses of one key share one call of `resolve`,
although the lookup that misses and the `try_get_with` that follows are two
steps and anything may happen between them. -/
namespace RustDns

namespace Server

variable {env : Env}

/-- A call of `resolve` for the key is under way. -/
def Running (s : State env) (key : CacheKey) (i : Nat) : Prop :=
  ∃ fl call, s.flights[i]? = some fl ∧ fl.request.key = key ∧
    s.upstream.calls[i]? = some call ∧ call.phase.isDone = false

/-- The call of flight `i` has returned. -/
def Ended (s : State env) (i : Nat) (result : Except Upstream.ResolveError CachedResponse) : Prop :=
  ∃ query, s.upstream.calls[i]? = some ⟨query, .done result⟩

/-- No two calls for one key are under way. -/
def Exclusive (s : State env) : Prop :=
  ∀ key i j, Running s key i → Running s key j → i = j

variable {s s' : State env} {e : Event}

/-- What a step does to the flights, their calls and the cache. -/
inductive Effect (s : State env) (e : Event) (s' : State env) : Prop where
  | keep (hFlights : s'.flights = s.flights) (hCalls : s'.upstream.calls = s.upstream.calls)
      (hFills : s'.cache.fills = s.cache.fills) (hDrops : Cache.Drops s.cache s'.cache)
  | start {r : Request env.wire} {h : Nat}
      (hMiss : Cache.get s.cache r.key = none) (hFree : openFlight s r.key = none)
      (hFlights : s'.flights = s.flights ++ [⟨r, h, none⟩])
      (hCalls : s'.upstream.calls = s.upstream.calls ++ [⟨r.data, .queued⟩])
      (hCache : s'.cache = s.cache)
  | move {i : Nat} {call : Upstream.Call} {phase : Upstream.Phase}
      (hCall : s.upstream.calls[i]? = some call) (hOpen : call.phase.isDone = false)
      (hCalls : s'.upstream.calls = s.upstream.calls.set i ⟨call.query, phase⟩)
      (hPhase : ∀ value, phase ≠ .done (.ok value)) (hFlights : s'.flights = s.flights)
      (hCache : s'.cache = s.cache)
  | land {i : Nat} {call : Upstream.Call} {value : CachedResponse} {fl : Flight env}
      (hFlight : s.flights[i]? = some fl) (hCall : s.upstream.calls[i]? = some call)
      (hOpen : call.phase.isDone = false)
      (hCalls : s'.upstream.calls = s.upstream.calls.set i ⟨call.query, .done (.ok value)⟩)
      (hLength : value.wire.length < 65536)
      (hFlights : s'.flights = s.flights.set i { fl with fill := some s.cache.fills.length })
      (hCache : s'.cache = Cache.fill s.cache fl.request.key value)
  | restart (hRestart : e.restarts = true) (hFlights : s'.flights = [])
      (hCalls : s'.upstream.calls = []) (hFills : s'.cache.fills = s.cache.fills)

/-- Joining opens a flight only for a key that is not stored and has none open.
-/
theorem effect_join (h : Nat) (hd : Handler env) (r : Request env.wire) :
    Effect s e (join s h hd r) := by
  unfold join
  split
  · exact .keep rfl rfl rfl (.refl _)
  · rename_i hMiss
    split
    · exact .keep rfl rfl rfl (.refl _)
    · rename_i hFree
      exact .start hMiss hFree rfl rfl rfl

/-- What each step of the server does to flights, calls and cache. -/
theorem effect_of_step (hSound : Sound s) (hStep : step s e = some s') :
    Effect s e s' := by
  cases step_cases hStep with
  | arrive data =>
      unfold arrive
      split <;> exact .keep rfl rfl rfl (.refl _)
  | parse _ _ =>
      unfold parse
      split <;> exact .keep rfl rfl rfl (.refl _)
  | check _ _ =>
      unfold check
      split <;> exact .keep rfl rfl rfl (.refl _)
  | lookup _ _ =>
      unfold lookup
      split <;> exact .keep rfl rfl rfl (.refl _)
  | join _ _ => exact effect_join _ _ _
  | deliver _ _ hDeliver =>
      rcases deliver_cases hDeliver with ⟨_, _, _, -, -, rfl⟩ | rfl
      · exact .keep rfl rfl rfl (.refl _)
      · exact .keep rfl rfl rfl (.refl _)
  | finish _ hFinish =>
      obtain rfl := finish_cases hFinish
      exact .keep rfl rfl rfl (.refl _)
  | upstream hForward =>
      obtain ⟨upstream, -, hCases⟩ := forward_cases hSound.flights.length_eq hForward
      rcases hCases with ⟨rfl, hSame | ⟨i, call, phase, hCall, hOpen, hSet, hNot⟩⟩ |
        ⟨i, call, value, fl, -, hFlight, hCall, hOpen, hSet, -, -, hLength, rfl⟩
      · exact .keep rfl hSame rfl (.refl _)
      · exact .move hCall hOpen hSet hNot rfl rfl
      · exact .land hFlight hCall hOpen hSet hLength rfl rfl
  | cache hBackground =>
      obtain ⟨cache, -, rfl, hFills, hDrops⟩ := background_cases hBackground
      exact .keep rfl rfl hFills hDrops
  | setBlocklist list => exact .keep rfl rfl rfl (.refl _)
  | setConfig cfg => exact .keep rfl rfl rfl (.refl _)
  | restart cfg list loaded => exact .restart rfl rfl rfl rfl

/-- Without an open flight no call for the key is under way. -/
theorem not_running_of_free {key : CacheKey} (hFree : openFlight s key = none) (i : Nat) :
    ¬ Running s key i := by
  rintro ⟨fl, call, hFlight, hKey, hCall, hOpen⟩
  obtain ⟨hLt, -⟩ := List.getElem?_eq_some_iff.mp hFlight
  have hNone := List.find?_eq_none.mp hFree i (List.mem_range.mpr hLt)
  simp [hFlight, hCall, hKey, hOpen] at hNone

/-- A call under way after a step was under way before it, or a flight has
just been started for its key with nothing in memory. -/
theorem running_of_effect {key : CacheKey} {i : Nat} (hSound : Sound s) (hEffect : Effect s e s')
    (hRunning : Running s' key i) :
    Running s key i ∨ (Cache.get s.cache key = none ∧ openFlight s key = none ∧
      i = s.flights.length) := by
  obtain ⟨fl', call', hFlight', hKey, hCall', hOpen'⟩ := hRunning
  have hLength := hSound.flights.length_eq
  cases hEffect with
  | keep hFlights hCalls hFills hDrops =>
      rw [hFlights] at hFlight'
      rw [hCalls] at hCall'
      exact Or.inl ⟨fl', call', hFlight', hKey, hCall', hOpen'⟩
  | start hMiss hFree hFlights hCalls hCache =>
      rw [hFlights] at hFlight'
      rw [hCalls] at hCall'
      by_cases hLt : i < s.flights.length
      · rw [List.getElem?_append_left hLt] at hFlight'
        rw [List.getElem?_append_left (by omega)] at hCall'
        exact Or.inl ⟨fl', call', hFlight', hKey, hCall', hOpen'⟩
      · obtain ⟨hBound, -⟩ := List.getElem?_eq_some_iff.mp hFlight'
        obtain rfl : i = s.flights.length := by simp at hBound; omega
        obtain rfl : _ = fl' := by simpa using hFlight'
        obtain rfl := hKey
        exact Or.inr ⟨hMiss, hFree, rfl⟩
  | @move j call phase hCall hOpen hCalls hPhase hFlights hCache =>
      rw [hFlights] at hFlight'
      rw [hCalls] at hCall'
      rcases Indexed.getElem?_set_cases hCall' with ⟨rfl, -⟩ | ⟨-, hOld⟩
      · exact Or.inl ⟨fl', call, hFlight', hKey, hCall, hOpen⟩
      · exact Or.inl ⟨fl', call', hFlight', hKey, hOld, hOpen'⟩
  | @land j call value fl hFlight hCall hOpen hCalls hLength hFlights hCache =>
      rw [hFlights] at hFlight'
      rw [hCalls] at hCall'
      rcases Indexed.getElem?_set_cases hCall' with ⟨-, rfl⟩ | ⟨hIndex, hOld⟩
      · exact absurd hOpen' (by simp [Upstream.Phase.isDone])
      · rw [List.getElem?_set_ne (Ne.symm hIndex)] at hFlight'
        exact Or.inl ⟨fl', call', hFlight', hKey, hOld, hOpen'⟩
  | restart hRestart hFlights hCalls hFills => simp [hFlights] at hFlight'

/-- A step opens no second flight for a key. -/
theorem exclusive_step (hSound : Sound s) (hExclusive : Exclusive s)
    (hStep : step s e = some s') : Exclusive s' := by
  intro key i j hi hj
  have hEffect := effect_of_step hSound hStep
  rcases running_of_effect hSound hEffect hi with hi' | ⟨-, hFree, hiLast⟩
  · rcases running_of_effect hSound hEffect hj with hj' | ⟨-, hFree, -⟩
    · exact hExclusive key i j hi' hj'
    · exact absurd hi' (not_running_of_free hFree i)
  · rcases running_of_effect hSound hEffect hj with hj' | ⟨-, -, hjLast⟩
    · exact absurd hj' (not_running_of_free hFree j)
    · rw [hiLast, hjLast]

/-- How a call came to have returned: it already had, its reply, and no other,
has just been stored, or it failed and left the cache alone. -/
theorem ended_of_effect {i : Nat} {result : Except Upstream.ResolveError CachedResponse}
    (hEffect : Effect s e s') (hEnded : Ended s' i result) :
    Ended s i result ∨
      (∃ value fl, result = .ok value ∧ s.flights[i]? = some fl ∧
        Cache.Stores s.cache s'.cache fl.request.key value ∧
        ∀ j value', Ended s' j (.ok value') → Ended s j (.ok value') ∨ j = i) ∨
      (∃ err, result = .error err) ∧ s'.cache = s.cache := by
  obtain ⟨query, hCall'⟩ := hEnded
  cases hEffect with
  | keep hFlights hCalls hFills hDrops =>
      rw [hCalls] at hCall'
      exact Or.inl ⟨query, hCall'⟩
  | start hMiss hFree hFlights hCalls hCache =>
      rw [hCalls, List.getElem?_append] at hCall'
      split at hCall'
      · exact Or.inl ⟨query, hCall'⟩
      · have hMem := List.mem_of_getElem? hCall'
        simp at hMem
  | @move j call phase hCall hOpen hCalls hPhase hFlights hCache =>
      rw [hCalls] at hCall'
      rcases Indexed.getElem?_set_cases hCall' with ⟨-, hNew⟩ | ⟨-, hOld⟩
      · obtain ⟨-, rfl⟩ := Upstream.Call.mk.inj hNew
        cases result with
        | ok value => exact absurd rfl (hPhase value)
        | error err => exact Or.inr (Or.inr ⟨⟨err, rfl⟩, hCache⟩)
      · exact Or.inl ⟨query, hOld⟩
  | @land j call value fl hFlight hCall hOpen hCalls hLength hFlights hCache =>
      rw [hCalls] at hCall'
      rcases Indexed.getElem?_set_cases hCall' with ⟨rfl, hNew⟩ | ⟨-, hOld⟩
      · obtain ⟨-, hPhase⟩ := Upstream.Call.mk.inj hNew
        refine Or.inr (Or.inl ⟨value, fl, Upstream.Phase.done.inj hPhase, hFlight,
          hCache ▸ Cache.stores_fill s.cache fl.request.key value, ?_⟩)
        rintro k value' ⟨query', hOther⟩
        rw [hCalls] at hOther
        rcases Indexed.getElem?_set_cases hOther with ⟨rfl, -⟩ | ⟨-, hOld⟩
        · exact Or.inr rfl
        · exact Or.inl ⟨query', hOld⟩
      · exact Or.inl ⟨query, hOld⟩
  | restart hRestart hFlights hCalls hFills => simp [hCalls] at hCall'

/-- A call that has returned has returned for good. -/
theorem Ended.of_effect {i : Nat} {result : Except Upstream.ResolveError CachedResponse}
    (hEnded : Ended s i result) (hAlive : e.restarts = false) (hEffect : Effect s e s') :
    Ended s' i result := by
  obtain ⟨query, hEndedCall⟩ := hEnded
  -- a call that moves on has not returned
  have hOther : ∀ {j : Nat} {call : Upstream.Call}, s.upstream.calls[j]? = some call →
      call.phase.isDone = false → j ≠ i := by
    rintro j call hCall hOpen rfl
    obtain rfl := Option.some.inj (hCall.symm.trans hEndedCall)
    exact absurd hOpen (by simp [Upstream.Phase.isDone])
  cases hEffect with
  | keep hFlights hCalls hFills hDrops => exact ⟨query, by rw [hCalls, hEndedCall]⟩
  | start hMiss hFree hFlights hCalls hCache =>
      exact ⟨query, by rw [hCalls, Indexed.getElem?_append_of_some hEndedCall]⟩
  | move hCall hOpen hCalls hPhase hFlights hCache =>
      exact ⟨query, by rw [hCalls, List.getElem?_set_ne (hOther hCall hOpen), hEndedCall]⟩
  | land hFlight hCall hOpen hCalls hLength hFlights hCache =>
      exact ⟨query, by rw [hCalls, List.getElem?_set_ne (hOther hCall hOpen), hEndedCall]⟩
  | restart hRestart hFlights hCalls hFills =>
      rw [hRestart] at hAlive
      exact absurd hAlive (by decide)

/-- A step in which no call returns a reply stores nothing. -/
theorem drops_of_effect (hEffect : Effect s e s') (hAlive : e.restarts = false)
    (hNone : ∀ i value, Ended s' i (.ok value) → Ended s i (.ok value)) :
    Cache.Drops s.cache s'.cache := by
  cases hEffect with
  | keep hFlights hCalls hFills hDrops => exact hDrops
  | start hMiss hFree hFlights hCalls hCache => exact hCache ▸ .refl _
  | move hCall hOpen hCalls hPhase hFlights hCache => exact hCache ▸ .refl _
  | @land i call value fl hFlight hCall hOpen hCalls hLength hFlights hCache =>
      -- the call that lands returns a reply and had not returned before
      obtain ⟨hLt, -⟩ := List.getElem?_eq_some_iff.mp hCall
      have hEnded : Ended s' i (.ok value) := ⟨call.query, by simp [hCalls, hLt]⟩
      obtain ⟨query, hBefore⟩ := hNone i value hEnded
      obtain rfl := Option.some.inj (hCall.symm.trans hBefore)
      exact absurd hOpen (by simp [Upstream.Phase.isDone])
  | restart hRestart hFlights hCalls hFills =>
      rw [hRestart] at hAlive
      exact absurd hAlive (by decide)

/-- What a caller of flight `i` is given once the call has returned. -/
def Receives (s : State env) (i : Nat) (r : Request env.wire) (a : Answer) : Prop :=
  (∃ value, Ended s i (.ok value) ∧ a.action = .forwarded ∧
    a.response = patchId value.wire r.message.id) ∨
  (∃ err, Ended s i (.error err) ∧ a.action = .error ∧
    a.response = buildResponseCode env.wire r.message r.query .servFail)

/-- The handler waits for flight `i`, or has been given what it returned. -/
def Joined (h : Nat) (r : Request env.wire) (i : Nat) (s : State env) : Prop :=
  ∃ hd, s.handlers[h]? = some hd ∧
    (hd.phase = .waiting r i ∨ ∃ a, hd.phase = .answered r a ∧ Receives s i r a)

/-- What a caller is given stays what its call has returned. -/
theorem Receives.of_effect {i : Nat} {r : Request env.wire} {a : Answer}
    (hReceives : Receives s i r a) (hAlive : e.restarts = false) (hEffect : Effect s e s') :
    Receives s' i r a := by
  rcases hReceives with ⟨value, hEnded, hAnswer⟩ | ⟨err, hEnded, hAnswer⟩
  · exact Or.inl ⟨value, hEnded.of_effect hAlive hEffect, hAnswer⟩
  · exact Or.inr ⟨err, hEnded.of_effect hAlive hEffect, hAnswer⟩

/-- The handler is past `try_get_with`. -/
def Phase.joined : Phase env → Bool
  | .waiting _ _ | .answered _ _ => true
  | .arrived | .ignored | .received _ _ | .unblocked _ | .missed _ => false

section

variable {h k : Nat} {hd new : Handler env}

/-- A handler keeps its phase when another changes. -/
theorem phase_of_set (hHandler : s.handlers[h]? = some hd)
    (hSet : s'.handlers = s.handlers.set k new) (hSame : k = h → new.phase = hd.phase) :
    ∃ hd', s'.handlers[h]? = some hd' ∧ hd'.phase = hd.phase := by
  obtain ⟨hd', hGet, ⟨hIndex, rfl⟩ | ⟨-, rfl⟩⟩ := Indexed.exists_getElem?_set (i := k) hHandler new
  · exact ⟨hd', by rw [hSet, hGet], hSame hIndex.symm⟩
  · exact ⟨hd', by rw [hSet, hGet], rfl⟩

/-- A handler before `try_get_with` moves. -/
theorem phase_of_other {old : Handler env} {phase : Phase env}
    (hHandler : s.handlers[h]? = some hd) (hJoined : hd.phase.joined = true)
    (hOld : s.handlers[k]? = some old) (hPhase : old.phase = phase) (hEarly : phase.joined = false)
    (hSet : s'.handlers = s.handlers.set k new) :
    ∃ hd', s'.handlers[h]? = some hd' ∧ hd'.phase = hd.phase := by
  refine phase_of_set hHandler hSet fun hIndex => ?_
  subst hIndex
  obtain rfl := Option.some.inj (hOld.symm.trans hHandler)
  rw [hPhase, hEarly] at hJoined
  exact absurd hJoined (by decide)

/-- Past `try_get_with` a handler only waits for the result of its flight. -/
theorem phase_of_step (hSound : Sound s) (hAlive : e.restarts = false)
    (hHandler : s.handlers[h]? = some hd)
    (hJoined : hd.phase.joined = true) (hStep : step s e = some s') :
    (∃ hd', s'.handlers[h]? = some hd' ∧ hd'.phase = hd.phase) ∨
      ∃ r i, hd.phase = .waiting r i ∧ deliver s h hd r i = some s' := by
  cases step_cases hStep with
  | arrive data =>
      refine Or.inl ⟨hd, ?_, rfl⟩
      unfold arrive
      split
      · exact hHandler
      · exact Indexed.getElem?_append_of_some hHandler _
  | parse hOld hOldPhase =>
      unfold parse
      split <;> exact Or.inl (phase_of_other hHandler hJoined hOld hOldPhase rfl rfl)
  | check hOld hOldPhase =>
      unfold check
      split <;> exact Or.inl (phase_of_other hHandler hJoined hOld hOldPhase rfl rfl)
  | lookup hOld hOldPhase =>
      unfold lookup
      split <;> exact Or.inl (phase_of_other hHandler hJoined hOld hOldPhase rfl rfl)
  | join hOld hOldPhase =>
      unfold join
      split
      · exact Or.inl (phase_of_other hHandler hJoined hOld hOldPhase rfl rfl)
      · split <;> exact Or.inl (phase_of_other hHandler hJoined hOld hOldPhase rfl rfl)
  | @deliver k old r i _ hOld hOldPhase hDeliver =>
      by_cases hIndex : k = h
      · subst hIndex
        obtain rfl := Option.some.inj (hOld.symm.trans hHandler)
        exact Or.inr ⟨r, i, hOldPhase, hDeliver⟩
      · rcases deliver_cases hDeliver with ⟨_, _, _, -, -, rfl⟩ | rfl
        · exact Or.inl (phase_of_set hHandler rfl fun hEq => absurd hEq hIndex)
        · exact Or.inl (phase_of_set hHandler rfl fun hEq => absurd hEq hIndex)
  | finish hOld hFinish =>
      obtain rfl := finish_cases hFinish
      refine Or.inl (phase_of_set hHandler rfl fun hIndex => ?_)
      subst hIndex
      obtain rfl := Option.some.inj (hOld.symm.trans hHandler)
      rfl
  | upstream hForward =>
      obtain ⟨upstream, -, hCases⟩ := forward_cases hSound.flights.length_eq hForward
      rcases hCases with ⟨rfl, -⟩ | ⟨_, _, _, _, -, -, -, -, -, -, -, -, rfl⟩
      · exact Or.inl ⟨hd, hHandler, rfl⟩
      · exact Or.inl ⟨hd, hHandler, rfl⟩
  | cache hBackground =>
      obtain ⟨cache, -, rfl, -⟩ := background_cases hBackground
      exact Or.inl ⟨hd, hHandler, rfl⟩
  | setBlocklist list => exact Or.inl ⟨hd, hHandler, rfl⟩
  | setConfig cfg => exact Or.inl ⟨hd, hHandler, rfl⟩
  | restart cfg list loaded => simp [Event.restarts] at hAlive

/-- The result of a flight is what every handler that waits for it is given. -/
theorem receives_of_deliver {r : Request env.wire} {i : Nat} (hHandler : s.handlers[h]? = some hd)
    (hDeliver : deliver s h hd r i = some s') :
    ∃ hd' a, s'.handlers[h]? = some hd' ∧ hd'.phase = .answered r a ∧ Receives s' i r a := by
  obtain ⟨hLt, -⟩ := List.getElem?_eq_some_iff.mp hHandler
  unfold deliver at hDeliver
  split at hDeliver
  · rename_i f query value hFlight hCall
    obtain rfl := Option.some.inj hDeliver
    exact ⟨_, _, by simp [setHandler, hLt]; rfl, rfl, Or.inl ⟨value, ⟨query, hCall⟩, rfl, rfl⟩⟩
  · rename_i query err hFlight hCall
    obtain rfl := Option.some.inj hDeliver
    exact ⟨_, _, by simp [setHandler, hLt]; rfl, rfl, Or.inr ⟨err, ⟨query, hCall⟩, rfl, rfl⟩⟩
  · simp at hDeliver

/-- A caller of a flight waits for it, or has its result, after every step of
its life. -/
theorem joined_step {r : Request env.wire} {i : Nat} (hSound : Sound s) (hJoined : Joined h r i s)
    (hAlive : e.restarts = false) (hStep : step s e = some s') : Joined h r i s' := by
  have hEffect := effect_of_step hSound hStep
  obtain ⟨hd, hHandler, hPhase⟩ := hJoined
  have hPast : hd.phase.joined = true := by
    rcases hPhase with hWaiting | ⟨a, hAnswered, -⟩
    · rw [hWaiting]
      rfl
    · rw [hAnswered]
      rfl
  rcases phase_of_step hSound hAlive hHandler hPast hStep with
    ⟨hd', hHandler', hSame⟩ | ⟨r', i', hWaiting', hDeliver⟩
  · rw [← hSame] at hPhase
    rcases hPhase with hWaiting | ⟨a, hAnswered, hReceives⟩
    · exact ⟨hd', hHandler', Or.inl hWaiting⟩
    · exact ⟨hd', hHandler', Or.inr ⟨a, hAnswered, hReceives.of_effect hAlive hEffect⟩⟩
  · rcases hPhase with hWaiting | ⟨a, hAnswered, -⟩
    · obtain ⟨rfl, rfl⟩ := Phase.waiting.inj (hWaiting'.symm.trans hWaiting)
      obtain ⟨hd', a, hHandler', hAnswered, hReceives⟩ := receives_of_deliver hHandler hDeliver
      exact ⟨hd', hHandler', Or.inr ⟨a, hAnswered, hReceives⟩⟩
    · exact absurd (hWaiting'.symm.trans hAnswered) (by simp)

end

/-- In every run at most one call for a key is under way. -/
theorem exclusive_run {now : UnixTime} {cfg : Config} {list : Blocklist} {es : List Event}
    (hRun : Machine.run step (init now cfg list) es = some s) : Exclusive s := by
  have hStart : Exclusive (init now cfg list : State env) := by
    rintro key i j ⟨fl, call, hFlight, -⟩ -
    simp [init, boot] at hFlight
  exact (Machine.run_invariant
    (fun _ _ _ (hInv : Sound _ ∧ Exclusive _) hStep =>
      ⟨sound_step hInv.1 hStep, exclusive_step hInv.1 hInv.2 hStep⟩)
    ⟨sound_init now cfg list, hStart⟩ hRun).2

/-- Who has joined a flight stays with it as long as the process lives. -/
theorem joined_run {later : List Event} {t : State env} {h i : Nat} {r : Request env.wire}
    (hSound : Sound s) (hAlive : ∀ e ∈ later, e.restarts = false)
    (hLater : Machine.run step s later = some t) (hJoined : Joined h r i s) : Joined h r i t := by
  have hStep : ∀ (u : State env) (e : Event) (v : State env), Sound u ∧ Joined h r i u →
      e.restarts = false → step u e = some v → Sound v ∧ Joined h r i v :=
    fun u e v hInv hAliveE hNext =>
      ⟨sound_step hInv.1 hNext, joined_step hInv.1 hInv.2 hAliveE hNext⟩
  exact (Machine.run_invariant_along hStep ⟨hSound, hJoined⟩
    (Machine.along_of_mem (fun e hMem _ => hAlive e hMem) s) hLater).2

/-- The handler waits for flight `i` in `s` and has its answer in `t`. -/
def Served (s t : State env) (i h : Nat) (r : Request env.wire) (a : Answer) : Prop :=
  (∃ hd, s.handlers[h]? = some hd ∧ hd.phase = .waiting r i) ∧
    ∃ hd r', t.handlers[h]? = some hd ∧ hd.phase = .answered r' a

/-- A caller that is served is given the result of its flight. -/
theorem Served.receives {t : State env} {i h : Nat} {r : Request env.wire} {a : Answer}
    (hServed : Served s t i h r a) (hJoined : Joined h r i s → Joined h r i t) :
    Receives t i r a := by
  obtain ⟨⟨hd, hHandler, hWaiting⟩, hd', r', hHandler', hAnswered⟩ := hServed
  obtain ⟨hdt, hHandlerT, hPhase⟩ := hJoined ⟨hd, hHandler, Or.inl hWaiting⟩
  obtain rfl := Option.some.inj (hHandlerT.symm.trans hHandler')
  rcases hPhase with hStill | ⟨a', hPhase, hReceives⟩
  · exact absurd (hStill.symm.trans hAnswered) (by simp)
  · obtain ⟨-, rfl⟩ := Phase.answered.inj (hPhase.symm.trans hAnswered)
    exact hReceives

/-- A call returns one result. -/
theorem Ended.unique {i : Nat} {result result' : Except Upstream.ResolveError CachedResponse}
    (hEnded : Ended s i result) (hEnded' : Ended s i result') : result = result' := by
  obtain ⟨query, hCall⟩ := hEnded
  obtain ⟨query', hCall'⟩ := hEnded'
  simpa using congrArg (Option.map Upstream.Call.phase) (hCall.symm.trans hCall')

/-- Patching the id in changes the first two bytes only. -/
theorem drop_patchId (wire : Bytes) (id : UInt16) : (patchId wire id).drop 2 = wire.drop 2 := by
  unfold patchId
  split <;> rfl

/-- Concurrent misses of a key share one call of `resolve`. No second call
runs, none starts over a live entry, a reply is stored and offered to the channel
in the step in which its call returns and in no other, a failure changes nothing,
and everyone who waited for a flight is given what it returned. -/
theorem single_flight {now : UnixTime} {cfg : Config} {list : Blocklist} {es : List Event}
    (hRun : Machine.run step (init now cfg list) es = some s) :
    (∀ key i j, Running s key i → Running s key j → i = j) ∧
      (∀ e s', step s e = some s' →
        (∀ key i, Running s' key i → ¬ Running s key i → Cache.get s.cache key = none) ∧
        (∀ i value, Ended s' i (.ok value) → ¬ Ended s i (.ok value) →
          (∃ fl, s.flights[i]? = some fl ∧
            Cache.Stores s.cache s'.cache fl.request.key value) ∧
          ∀ j value', Ended s' j (.ok value') → ¬ Ended s j (.ok value') → j = i) ∧
        (∀ i err, Ended s' i (.error err) → ¬ Ended s i (.error err) → s'.cache = s.cache) ∧
        (e.restarts = false → (∀ i result, Ended s i result → Ended s' i result) ∧
          ((∀ i value, Ended s' i (.ok value) → Ended s i (.ok value)) →
            Cache.Drops s.cache s'.cache))) ∧
      ∀ later t, (∀ e ∈ later, e.restarts = false) → Machine.run step s later = some t →
        ∀ i h h' r r' a a', Served s t i h r a → Served s t i h' r' a' →
          (∃ value, Ended t i (.ok value) ∧ a.response = patchId value.wire r.message.id ∧
            a'.response = patchId value.wire r'.message.id ∧
            a.response.drop 2 = a'.response.drop 2) ∨
          ∃ err, Ended t i (.error err) ∧
            a.response = buildResponseCode env.wire r.message r.query .servFail ∧
            a'.response = buildResponseCode env.wire r'.message r'.query .servFail := by
  have hSound := sound_run hRun
  refine ⟨exclusive_run hRun, fun e s' hStep => ?_, fun later t hAlive hLater => ?_⟩
  · have hEffect := effect_of_step hSound hStep
    refine ⟨fun key i hAfter hBefore => ?_, fun i value hAfter hBefore => ?_,
      fun i err hAfter hBefore => ?_, fun hAlive => ⟨fun i result hEnded => ?_, ?_⟩⟩
    · rcases running_of_effect hSound hEffect hAfter with hOld | ⟨hMiss, -⟩
      · exact absurd hOld hBefore
      · exact hMiss
    · rcases ended_of_effect hEffect hAfter with
        hOld | ⟨value', fl, hOk, hFlight, hStores, hOnly⟩ | ⟨⟨err, hError⟩, -⟩
      · exact absurd hOld hBefore
      · obtain rfl := Except.ok.inj hOk
        refine ⟨⟨fl, hFlight, hStores⟩, fun j value' hAfter' hBefore' => ?_⟩
        exact (hOnly j value' hAfter').resolve_left hBefore'
      · exact absurd hError (by simp)
    · rcases ended_of_effect hEffect hAfter with hOld | ⟨value', fl, hOk, -⟩ | ⟨-, hCache⟩
      · exact absurd hOld hBefore
      · exact absurd hOk (by simp)
      · exact hCache
    · exact hEnded.of_effect hAlive hEffect
    · exact drops_of_effect hEffect hAlive
  · intro i h h' r r' a a' hFirst hSecond
    rcases hFirst.receives (joined_run hSound hAlive hLater) with ⟨value, hEnded, -, hResponse⟩ |
      ⟨err, hEnded, -, hResponse⟩
    · rcases hSecond.receives (joined_run hSound hAlive hLater) with
        ⟨value', hEnded', -, hResponse'⟩ | ⟨err', hEnded', -⟩
      · obtain rfl := Except.ok.inj (hEnded.unique hEnded')
        refine Or.inl ⟨value, hEnded, hResponse, hResponse', ?_⟩
        rw [hResponse, hResponse', drop_patchId, drop_patchId]
      · exact absurd (hEnded.unique hEnded') (by simp)
    · rcases hSecond.receives (joined_run hSound hAlive hLater) with
        ⟨value', hEnded', -⟩ | ⟨err', hEnded', -, hResponse'⟩
      · exact absurd (hEnded.unique hEnded') (by simp)
      · exact Or.inr ⟨err, hEnded, hResponse, hResponse'⟩

/-- The wire form of a message with one question and no answer. -/
def writeBare (m : Message) : Option Bytes :=
  match m.queries, m.answers with
  | [q], [] =>
      let opCode : UInt8 :=
        match m.opCode with
        | .query => 0
        | .status => 2
        | .notify => 4
        | .update => 5
        | .unknown code => code
      let rcode : UInt8 :=
        match m.responseCode with
        | .noError => 0
        | .servFail => 2
        | .nxDomain => 3
        | .other code => code.toUInt8
      let qr : UInt8 := if m.messageType = .response then 128 else 0
      let ra : UInt8 := if m.recursionAvailable then 128 else 0
      some (Codec.beBytes 2 m.id.toNat ++
        [qr + opCode * 8 + m.recursionDesired.toUInt8, ra + rcode, 0, 1, 0, 0, 0, 0, 0, 0] ++
        q.name.labels.flatMap (fun l => l.length.toUInt8 :: l) ++
        0 :: Codec.beBytes 2 q.queryType.toNat ++ Codec.beBytes 2 q.queryClass.toNat)
  | _, _ => none

/-- The sample query without recursion, of another client. -/
def bareQuery : Bytes := [0, 2, 0, 0, 0, 1, 0, 0, 0, 0, 0, 0, 1, 97, 0, 0, 1, 0, 1]

def herdEnv : Env where
  idna := Idna.never
  wire :=
    { Wire.ofTable
        [(Exchange.query 1, Exchange.queryMessage 1), (Exchange.reply 1, Exchange.replyMessage 1),
          (bareQuery, { Exchange.queryMessage 1 with id := 2, recursionDesired := false })]
        (by decide) with
      toVec := writeBare }

def herdState : State herdEnv := init 100 Config.default ⟨∅, ∅⟩

/-- Two clients ask for the same name and type before a reply is there. -/
def herd : List Event :=
  [.arrive (Exchange.query 1), .parse 0, .check 0, .lookup 0, .arrive bareQuery, .parse 1,
    .check 1, .lookup 1, .join 0, .join 1]

/-- The first server answers. -/
def success : List Event :=
  [.upstream (.acquire 0), .upstream (.untilReady 0),
    .upstream (.load 0 [.sent (some (Exchange.reply 1, .unsent)), .unsent]),
    .upstream (.progress 0), .upstream (.progress 0), .deliver 0, .deliver 1]

/-- No server can be reached. -/
def failure : List Event :=
  [.upstream (.acquire 0), .upstream (.untilReady 0), .upstream (.load 0 [.unsent, .unsent]),
    .upstream (.progress 0), .upstream (.progress 0), .upstream (.progress 0), .deliver 0, .deliver 1]

def Handler.flight? (hd : Handler env) : Option Nat :=
  match hd.phase with
  | .waiting _ i => some i
  | _ => none

def Handler.response? (hd : Handler env) : Option Bytes :=
  match hd.phase with
  | .answered _ a => some a.response
  | _ => none

/-- A handler with a flight waits for it. -/
theorem waiting_of_flight? {h i : Nat} (hFlight : s.handlers[h]?.bind Handler.flight? = some i) :
    ∃ hd r, s.handlers[h]? = some hd ∧ hd.phase = .waiting r i := by
  obtain ⟨hd, hHandler, hPhase⟩ := Option.bind_eq_some_iff.mp hFlight
  unfold Handler.flight? at hPhase
  split at hPhase
  · rename_i r j hWaiting
    obtain rfl := Option.some.inj hPhase
    exact ⟨hd, r, hHandler, hWaiting⟩
  · simp at hPhase

/-- A handler with a response has answered with it. -/
theorem answered_of_response? {h : Nat} {response : Bytes}
    (hResponse : s.handlers[h]?.bind Handler.response? = some response) :
    ∃ hd r a, s.handlers[h]? = some hd ∧ hd.phase = .answered r a ∧ a.response = response := by
  obtain ⟨hd, hHandler, hPhase⟩ := Option.bind_eq_some_iff.mp hResponse
  unfold Handler.response? at hPhase
  split at hPhase
  · rename_i r a hAnswered
    exact ⟨hd, r, a, hHandler, hAnswered, Option.some.inj hPhase⟩
  · simp at hPhase

/-- The reply a call has returned. -/
def reply? (call : Upstream.Call) : Option Bytes :=
  match call.phase with
  | .done (.ok value) => some value.wire
  | _ => none

/-- One call serves both clients of the herd, each under its own id. Memory and
the channel hold its reply once. -/
theorem single_flight_success :
    ∃ s t : State herdEnv, Machine.run step herdState herd = some s ∧
      Machine.run step s success = some t ∧
      t.upstream.calls.map reply? = [some (Exchange.reply 1)] ∧
      t.cache.ram.keys = {⟨['a'], RecordType.a⟩} ∧
      t.cache.channel.map (fun p => (p.item.1, p.item.2.wire)) =
        [(⟨['a'], RecordType.a⟩, Exchange.reply 1)] ∧
      ∃ r r' a a', Served s t 0 0 r a ∧ Served s t 0 1 r' a' ∧
        a.response = patchId (Exchange.reply 1) 1 ∧ a'.response = patchId (Exchange.reply 1) 2 ∧
        a.response.drop 2 = a'.response.drop 2 := by
  have hHerdEnd : ((Machine.run step herdState herd).map fun s =>
      [0, 1].map fun h => s.handlers[h]?.bind Handler.flight?) = some [some 0, some 0] := by
    decide +kernel
  have hAnswers : ((Machine.run step herdState (herd ++ success)).map fun t =>
      [0, 1].map fun h => t.handlers[h]?.bind Handler.response?) =
      some [some (patchId (Exchange.reply 1) 1), some (patchId (Exchange.reply 1) 2)] := by
    decide +kernel
  have hStored : ((Machine.run step herdState (herd ++ success)).map fun t =>
      (t.upstream.calls.map reply?, t.cache.ram.keys,
        t.cache.channel.map fun p => (p.item.1, p.item.2.wire))) =
      some ([some (Exchange.reply 1)], {⟨['a'], RecordType.a⟩},
        [(⟨['a'], RecordType.a⟩, Exchange.reply 1)]) := by
    decide +kernel
  obtain ⟨s, hHerd, hWaits⟩ := Option.map_eq_some_iff.mp hHerdEnd
  obtain ⟨t, hBoth, hGives⟩ := Option.map_eq_some_iff.mp hAnswers
  obtain ⟨s', hHerd', hSuccess⟩ := Machine.run_append.mp hBoth
  obtain rfl := Option.some.inj (hHerd'.symm.trans hHerd)
  rw [hBoth, Option.map_some, Option.some.injEq, Prod.mk.injEq, Prod.mk.injEq] at hStored
  obtain ⟨hCalls, hRam, hChannel⟩ := hStored
  simp only [List.map_cons, List.map_nil, List.cons.injEq, and_true] at hWaits hGives
  obtain ⟨hd, r, hHandler, hWaiting⟩ := waiting_of_flight? hWaits.1
  obtain ⟨hd', r', hHandler', hWaiting'⟩ := waiting_of_flight? hWaits.2
  obtain ⟨hdt, rt, a, hHandlerT, hAnswered, hResponse⟩ := answered_of_response? hGives.1
  obtain ⟨hdt', rt', a', hHandlerT', hAnswered', hResponse'⟩ := answered_of_response? hGives.2
  have hFirst : Served s' t 0 0 r a := ⟨⟨hd, hHandler, hWaiting⟩, hdt, rt, hHandlerT, hAnswered⟩
  have hSecond : Served s' t 0 1 r' a' :=
    ⟨⟨hd', hHandler', hWaiting'⟩, hdt', rt', hHandlerT', hAnswered'⟩
  have hAlive : ∀ e ∈ success, e.restarts = false := by simp [success, Event.restarts]
  refine ⟨s', t, hHerd', hSuccess, hCalls, hRam, hChannel, r, r', a, a', hFirst, hSecond, hResponse,
    hResponse', ?_⟩
  rcases (single_flight hHerd').2.2 success t hAlive hSuccess 0 0 1 r r' a a' hFirst hSecond with
    ⟨_, -, -, -, hSame⟩ | ⟨err, ⟨query, hFailed⟩, -⟩
  · exact hSame
  · -- the one call has not failed
    have hReply : reply? ⟨query, .done (.error err)⟩ ∈ t.upstream.calls.map reply? :=
      List.mem_map_of_mem (List.mem_of_getElem? hFailed)
    simp [hCalls, reply?] at hReply

/-- When the flight fails, two callers that waited for it are given different
bytes beyond the id: each failure repeats the flags of its own request. -/
theorem single_flight_failure :
    ∃ s t : State herdEnv, Machine.run step herdState herd = some s ∧
      Machine.run step s failure = some t ∧ (∀ e ∈ failure, e.restarts = false) ∧
      ∃ i h h' r r' a a', Served s t i h r a ∧ Served s t i h' r' a' ∧
        a.response.drop 2 ≠ a'.response.drop 2 := by
  have hEnd : ((Machine.run step herdState herd).bind fun s =>
      (Machine.run step s failure).map fun t =>
        (([0, 1].map fun h => s.handlers[h]?.bind Handler.flight?),
          [0, 1].map fun h => t.handlers[h]?.bind Handler.response?)) =
      some ([some 0, some 0],
        [some [0, 1, 129, 130, 0, 1, 0, 0, 0, 0, 0, 0, 1, 97, 0, 0, 1, 0, 1],
          some [0, 2, 128, 130, 0, 1, 0, 0, 0, 0, 0, 0, 1, 97, 0, 0, 1, 0, 1]]) := by
    decide +kernel
  obtain ⟨s, hHerd, hLater⟩ := Option.bind_eq_some_iff.mp hEnd
  obtain ⟨t, hFailure, hLists⟩ := Option.map_eq_some_iff.mp hLater
  simp only [List.map_cons, List.map_nil, Prod.mk.injEq, List.cons.injEq, and_true] at hLists
  obtain ⟨⟨hWait, hWait'⟩, hGiven, hGiven'⟩ := hLists
  obtain ⟨hd, r, hHandler, hWaiting⟩ := waiting_of_flight? hWait
  obtain ⟨hd', r', hHandler', hWaiting'⟩ := waiting_of_flight? hWait'
  obtain ⟨hdt, rt, a, hHandlerT, hAnswered, hResponse⟩ := answered_of_response? hGiven
  obtain ⟨hdt', rt', a', hHandlerT', hAnswered', hResponse'⟩ := answered_of_response? hGiven'
  have hAlive : ∀ e ∈ failure, e.restarts = false := by simp [failure, Event.restarts]
  refine ⟨s, t, hHerd, hFailure, hAlive, 0, 0, 1, r, r', a, a', ?_, ?_, ?_⟩
  · exact ⟨⟨hd, hHandler, hWaiting⟩, hdt, rt, hHandlerT, hAnswered⟩
  · exact ⟨⟨hd', hHandler', hWaiting'⟩, hdt', rt', hHandlerT', hAnswered'⟩
  · rw [hResponse, hResponse']
    decide

end Server

end RustDns
