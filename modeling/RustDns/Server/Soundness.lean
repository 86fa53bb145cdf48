import RustDns.Cache.Lifetime
import RustDns.Server.Machine

/-! Where the responses of the server come from: every answer from memory or
from a flight stems from a reply accepted for a request with the same key. -/
namespace RustDns

namespace Server

variable {env : Env}

/-- A response that stems from a reply accepted under the key of the
request. -/
def StemsFrom (fills : List Cache.Fill) (r : Request env.wire) (response : Bytes) (n : Nat)
    (f : Cache.Fill) : Prop :=
  fills[n]? = some f ∧ f.key = r.key ∧ response = patchId f.value.wire r.message.id

/-- What is known of an answer by its source. -/
def Answer.Sound (fills : List Cache.Fill) (r : Request env.wire) (a : Answer) : Prop :=
  match a.source with
  | .sinkhole => a.action = .blocked
  | .failure => a.action = .error
  | .ram n => ∃ f, StemsFrom fills r a.response n f ∧ f.time ≤ a.time ∧
      a.time.val < f.time.val + Cache.expireAfterCreate f.value
  | .flight m => ∃ n f, m = some n ∧ StemsFrom fills r a.response n f

def Phase.Sound (flights : List (Flight env)) (fills : List Cache.Fill) : Phase env → Prop
  | .waiting r i => ∃ fl, flights[i]? = some fl ∧ fl.request.key = r.key
  | .answered r a => a.Sound fills r
  | _ => True

/-- The call of a flight asks for its request, and its success has been
filled in. -/
def Flight.Sound (fills : List Cache.Fill) (fl : Flight env) (call : Upstream.Call) : Prop :=
  call.query = fl.request.data ∧
    ∀ value, call.phase = .done (.ok value) →
      ∃ n f, fl.fill = some n ∧ fills[n]? = some f ∧ f.key = fl.request.key ∧ f.value = value

/-- The fill was accepted as an answer to the request behind it. -/
def AnsweredBy (r : Request env.wire) (f : Cache.Fill) : Prop :=
  r.key = f.key ∧ validResponse env.wire r.data f.value.wire = true

structure Sound (s : State env) : Prop where
  cache : Cache.Grounded env.wire s.cache
  origins : List.Forall₂ AnsweredBy s.origins s.cache.fills
  flights : List.Forall₂ (Flight.Sound s.cache.fills) s.flights s.upstream.calls
  handlers : ∀ hd ∈ s.handlers, hd.phase.Sound s.flights s.cache.fills

variable {s s' : State env}

/-- A response stems from its fill also when more is stored. -/
theorem StemsFrom.append {fills : List Cache.Fill} {r : Request env.wire} {response : Bytes}
    {n : Nat} {f : Cache.Fill} (hStems : StemsFrom fills r response n f) (more : List Cache.Fill) :
    StemsFrom (fills ++ more) r response n f :=
  ⟨Indexed.getElem?_append_of_some hStems.1 more, hStems.2⟩

/-- An answer stays sound when more is stored. -/
theorem Answer.Sound.append {fills : List Cache.Fill} {r : Request env.wire} {a : Answer}
    (hSound : a.Sound fills r) (more : List Cache.Fill) : a.Sound (fills ++ more) r := by
  unfold Answer.Sound at hSound ⊢
  split
  · simpa [*] using hSound
  · simpa [*] using hSound
  · rename_i n hSource
    rw [hSource] at hSound
    obtain ⟨f, hStems, hTime⟩ := hSound
    exact ⟨f, hStems.append more, hTime⟩
  · rename_i m hSource
    rw [hSource] at hSound
    obtain ⟨n, f, hEq, hStems⟩ := hSound
    exact ⟨n, f, hEq, hStems.append more⟩

/-- New fills and new flights keep what is known of a handler. -/
theorem Phase.Sound.mono {flights flights' : List (Flight env)} {fills : List Cache.Fill}
    {phase : Phase env} (hSound : phase.Sound flights fills)
    (hFlights : ∀ (i : Nat) fl, flights[i]? = some fl →
      ∃ fl', flights'[i]? = some fl' ∧ fl'.request = fl.request)
    (more : List Cache.Fill) : phase.Sound flights' (fills ++ more) := by
  cases phase with
  | waiting r i =>
      obtain ⟨fl, hGet, hKey⟩ := hSound
      obtain ⟨fl', hGet', hRequest⟩ := hFlights i fl hGet
      exact ⟨fl', hGet', hRequest ▸ hKey⟩
  | answered r a => exact Answer.Sound.append hSound more
  | arrived => trivial
  | ignored => trivial
  | received r dns => trivial
  | unblocked r => trivial
  | missed r => trivial

/-- A flight stays sound when more is stored. -/
theorem Flight.Sound.append {fills : List Cache.Fill} {fl : Flight env} {call : Upstream.Call}
    (hSound : fl.Sound fills call) (more : List Cache.Fill) : fl.Sound (fills ++ more) call := by
  refine ⟨hSound.1, fun value hDone => ?_⟩
  obtain ⟨n, f, hFill, hGet, hRest⟩ := hSound.2 value hDone
  exact ⟨n, f, hFill, Indexed.getElem?_append_of_some hGet more, hRest⟩

/-- A step that only moves a handler on. -/
theorem sound_setHandler {h : Nat} {hd : Handler env} {stats : Stats} {inflight : Nat}
    (hSound : Sound s) (hHandler : hd.phase.Sound s.flights s.cache.fills) :
    Sound { setHandler s h hd with stats := stats, inflight := inflight } where
  cache := hSound.cache
  origins := hSound.origins
  flights := hSound.flights
  handlers := fun hd' hMem => by
    rcases List.mem_or_eq_of_mem_set hMem with hOld | rfl
    · exact hSound.handlers hd' hOld
    · exact hHandler

/-- A server starts sound on a cache whose entries were answers. -/
theorem sound_boot {cache : Cache.State} {cfg : Config} {list : Blocklist}
    {origins : List (Request env.wire)} (hCache : Cache.Grounded env.wire cache)
    (hOrigins : List.Forall₂ AnsweredBy origins cache.fills) :
    Sound (boot cache cfg list origins) where
  cache := hCache
  origins := hOrigins
  flights := List.Forall₂.nil
  handlers := by simp [boot]

/-- A new handler holds no answer. -/
theorem sound_arrive (data : Bytes) (hSound : Sound s) : Sound (arrive s data) := by
  unfold arrive
  split
  · exact { hSound with }
  · exact { hSound with
      handlers := fun hd hMem => by
        rcases List.mem_append.mp hMem with hOld | hNew
        · exact hSound.handlers hd hOld
        · obtain rfl := List.mem_singleton.mp hNew
          trivial }

/-- Parsing answers a message from no store. -/
theorem sound_parse (h : Nat) (hd : Handler env) (hSound : Sound s) : Sound (parse s h hd) := by
  unfold parse
  split
  · exact sound_setHandler hSound trivial
  · exact sound_setHandler hSound trivial

/-- The check answers from no store. -/
theorem sound_check (h : Nat) (hd : Handler env) (r : Request env.wire) (dns : DnsConfig)
    (hSound : Sound s) : Sound (check s h hd r dns) := by
  unfold check
  split
  · exact sound_setHandler hSound rfl
  · exact sound_setHandler hSound trivial

/-- A hit in memory under the key of the request. -/
theorem sound_serve {r : Request env.wire} {e : Cache.Entry} (action : Action) (hSound : Sound s)
    (hGet : Cache.get s.cache r.key = some e) : (serve s action r e).Sound s.cache.fills r := by
  obtain ⟨hLookup, hLive⟩ := Option.filter_eq_some_iff.mp hGet
  obtain ⟨f, hFill, hStems⟩ := hSound.cache.ram r.key e hLookup
  have hLt : s.cache.clock.val < e.deadline := by simpa [Cache.Entry.live] using hLive
  refine ⟨f, ⟨hFill, hStems.key, ?_⟩, Fin.le_trans hStems.accepted hStems.created,
    Nat.lt_of_lt_of_le hLt hStems.deadline⟩
  rw [← hStems.wire]
  rfl

/-- A hit answers from the fill that its key was stored with. -/
theorem sound_lookup (h : Nat) (hd : Handler env) (r : Request env.wire) (hSound : Sound s) :
    Sound (lookup s h hd r) := by
  unfold lookup
  split
  · rename_i e hGet
    exact sound_setHandler hSound (sound_serve .cached hSound hGet)
  · exact sound_setHandler hSound trivial

/-- The flight that is open for a key is of that key. -/
theorem openFlight_spec {key : CacheKey} {i : Nat} (hOpen : openFlight s key = some i) :
    ∃ fl, s.flights[i]? = some fl ∧ fl.request.key = key := by
  have hFound := List.find?_some hOpen
  simp only [Bool.and_eq_true, Option.any_eq_true, beq_iff_eq] at hFound
  obtain ⟨⟨fl, hGet, hKey⟩, -⟩ := hFound
  exact ⟨fl, hGet, hKey⟩

/-- A caller joins a flight of its own key. -/
theorem sound_join (h : Nat) (hd : Handler env) (r : Request env.wire) (hSound : Sound s) :
    Sound (join s h hd r) := by
  unfold join
  split
  · rename_i e hGet
    exact sound_setHandler hSound (sound_serve .forwarded hSound hGet)
  · split
    · rename_i i hOpen
      exact sound_setHandler hSound (openFlight_spec hOpen)
    · -- the new flight is the last one, and its call has just been queued
      have hNew : Flight.Sound s.cache.fills ⟨r, h, none⟩ ⟨r.data, .queued⟩ :=
        ⟨rfl, by simp⟩
      exact
        { hSound with
          flights := List.rel_append hSound.flights (.cons hNew .nil)
          handlers := fun hd' hMem => by
            rcases List.mem_or_eq_of_mem_set hMem with hOld | rfl
            · have hMono : hd'.phase.Sound (s.flights ++ [⟨r, h, none⟩])
                  (s.cache.fills ++ []) :=
                (hSound.handlers hd' hOld).mono
                  (fun i fl hGet => ⟨fl, Indexed.getElem?_append_of_some hGet _, rfl⟩) []
              rwa [List.append_nil] at hMono
            · exact ⟨⟨r, h, none⟩, by simp, rfl⟩ }

/-- A result is delivered from the fill of the caller's flight. -/
theorem sound_deliver {h : Nat} {hd : Handler env} {r : Request env.wire} {i : Nat}
    (hMem : hd ∈ s.handlers) (hPhase : hd.phase = .waiting r i)
    (hDeliver : deliver s h hd r i = some s') (hSound : Sound s) : Sound s' := by
  rcases deliver_cases hDeliver with ⟨fl, query, value, hFlight, hCall, rfl⟩ | rfl
  · apply sound_setHandler hSound
    have hFlightSound := Indexed.forall₂_getElem? hSound.flights hFlight hCall
    obtain ⟨n, f, hFill, hGet, hKey, rfl⟩ := hFlightSound.2 value rfl
    have hWaiting := hSound.handlers hd hMem
    rw [hPhase] at hWaiting
    obtain ⟨fl', hFlight', hKey'⟩ := hWaiting
    obtain rfl : fl = fl' := Option.some.inj (hFlight.symm.trans hFlight')
    exact ⟨n, f, hFill, hGet, hKey.trans hKey', rfl⟩
  · exact sound_setHandler hSound rfl

/-- A call that moves on without success leaves the rest alone. -/
theorem sound_forward_pending {upstream : Upstream.State} (hSound : Sound s)
    (hCalls : upstream.calls = s.upstream.calls ∨
      ∃ i call phase, s.upstream.calls[i]? = some call ∧ call.phase.isDone = false ∧
        upstream.calls = s.upstream.calls.set i ⟨call.query, phase⟩ ∧
        ∀ value, phase ≠ .done (.ok value)) :
    Sound { s with upstream := upstream } := by
  refine { hSound with flights := ?_ }
  change List.Forall₂ _ s.flights upstream.calls
  rcases hCalls with hSame | ⟨i, call, phase, hCall, -, hSet, hNot⟩
  · rw [hSame]
    exact hSound.flights
  · obtain ⟨fl, hFlight, hQuery, -⟩ := Indexed.forall₂_partner hSound.flights hCall
    have hMoved : fl.Sound s.cache.fills ⟨call.query, phase⟩ :=
      ⟨hQuery, fun value hDone => absurd hDone (hNot value)⟩
    rw [hSet, ← Indexed.set_of_getElem? hFlight]
    exact Indexed.forall₂_set hSound.flights hMoved i

/-- A call that succeeds fills the cache for its flight. -/
theorem sound_forward_filled {upstream : Upstream.State} {i : Nat} {call : Upstream.Call}
    {value : CachedResponse} {fl : Flight env} (hSound : Sound s)
    (hFlight : s.flights[i]? = some fl) (hCall : s.upstream.calls[i]? = some call)
    (hSet : upstream.calls = s.upstream.calls.set i ⟨call.query, .done (.ok value)⟩)
    (hValid : validResponse env.wire call.query value.wire = true)
    (hCached : toCached env.wire s.policy s.cache.clock value.wire = some value) :
    Sound
      { s with
        upstream := upstream
        cache := Cache.fill s.cache fl.request.key value
        flights := s.flights.set i { fl with fill := some s.cache.fills.length }
        origins := s.origins ++ [fl.request] } where
  cache := Cache.grounded_fill hCached hSound.cache
  origins := by
    have hQuery := (Indexed.forall₂_getElem? hSound.flights hFlight hCall).1
    have hNew : AnsweredBy fl.request ⟨fl.request.key, value, s.cache.clock⟩ :=
      ⟨rfl, hQuery ▸ hValid⟩
    exact List.rel_append hSound.origins (.cons hNew .nil)
  flights := by
    have hQuery := (Indexed.forall₂_getElem? hSound.flights hFlight hCall).1
    change List.Forall₂ (Flight.Sound (s.cache.fills ++ [⟨fl.request.key, value, s.cache.clock⟩]))
      (s.flights.set i _) upstream.calls
    rw [hSet]
    refine Indexed.forall₂_set (hSound.flights.imp fun _ _ hFl => hFl.append _) ⟨hQuery, ?_⟩ i
    intro value' hDone
    obtain rfl : value = value' := by simpa using hDone
    exact ⟨s.cache.fills.length, ⟨fl.request.key, value, s.cache.clock⟩, rfl, by simp, rfl, rfl⟩
  handlers := fun hd hMem => by
    refine (hSound.handlers hd hMem).mono (fun j fl' hGet => ?_) _
    by_cases hIndex : i = j
    · subst hIndex
      obtain rfl : fl = fl' := Option.some.inj (hFlight.symm.trans hGet)
      obtain ⟨hLt, -⟩ := List.getElem?_eq_some_iff.mp hGet
      exact ⟨{ fl with fill := some s.cache.fills.length }, by simp [hLt], rfl⟩
    · exact ⟨fl', by rw [List.getElem?_set_ne hIndex, hGet], rfl⟩

/-- A step of the resolver, and the fill of the flight it may end. -/
theorem forward_step {e : Upstream.Event} (hForward : forward s e = some s') :
    ∃ upstream, Upstream.step env.wire s.policy s.cache.clock s.upstream e = some upstream ∧
      (∀ query, e ≠ .resolve query) ∧
      ((s' = { s with upstream := upstream } ∧ ∀ j, e ≠ .progress j) ∨
        ∃ i, e.call? = some i ∧ s' = land { s with upstream := upstream } i) := by
  cases e with
  | resolve query => simp [forward] at hForward
  | load i script =>
      obtain ⟨upstream, hStep, rfl⟩ := Option.map_eq_some_iff.mp hForward
      exact ⟨upstream, hStep, by simp, Or.inr ⟨i, rfl, rfl⟩⟩
  | progress i =>
      obtain ⟨upstream, hStep, rfl⟩ := Option.map_eq_some_iff.mp hForward
      exact ⟨upstream, hStep, by simp, Or.inr ⟨i, rfl, rfl⟩⟩
  | setServers _ | acquire _ | untilReady _ =>
      simp only [forward] at hForward
      obtain ⟨upstream, hStep, rfl⟩ := Option.map_eq_some_iff.mp hForward
      exact ⟨upstream, hStep, by simp, Or.inl ⟨rfl, by simp⟩⟩

/-- A call that has not returned a reply stores nothing. -/
theorem land_of_not_ok {i : Nat}
    (hNot : ∀ query value, s.upstream.calls[i]? ≠ some ⟨query, .done (.ok value)⟩) :
    land s i = s := by
  unfold land
  split
  · rename_i fl query value _ hCall
    exact absurd hCall (hNot query value)
  · rfl

/-- A reply is stored under the key of its flight, on behalf of the request that
opened it. -/
theorem land_of_ok {i : Nat} {fl : Flight env} {query : Bytes} {value : CachedResponse}
    (hFlight : s.flights[i]? = some fl)
    (hCall : s.upstream.calls[i]? = some ⟨query, .done (.ok value)⟩) :
    land s i =
      { s with
        cache := Cache.fill s.cache fl.request.key value
        flights := s.flights.set i { fl with fill := some s.cache.fills.length }
        origins := s.origins ++ [fl.request] } := by
  simp only [land, hFlight, hCall]

/-- A step of the upstream as the server sees it: a call moves on without
success, or it succeeds and its flight lands. -/
theorem forward_cases {e : Upstream.Event} (hLength : s.flights.length = s.upstream.calls.length)
    (hForward : forward s e = some s') :
    ∃ upstream, Upstream.step env.wire s.policy s.cache.clock s.upstream e = some upstream ∧
      ((s' = { s with upstream := upstream } ∧
        (upstream.calls = s.upstream.calls ∨
          ∃ i call phase, s.upstream.calls[i]? = some call ∧ call.phase.isDone = false ∧
            upstream.calls = s.upstream.calls.set i ⟨call.query, phase⟩ ∧
            ∀ value, phase ≠ .done (.ok value))) ∨
      ∃ i call value fl, e = .progress i ∧ s.flights[i]? = some fl ∧
        s.upstream.calls[i]? = some call ∧ call.phase.isDone = false ∧
        upstream.calls = s.upstream.calls.set i ⟨call.query, .done (.ok value)⟩ ∧
        validResponse env.wire call.query value.wire = true ∧
        toCached env.wire s.policy s.cache.clock value.wire = some value ∧
        value.wire.length < 65536 ∧
        s' =
          { s with
            upstream := upstream
            cache := Cache.fill s.cache fl.request.key value
            flights := s.flights.set i { fl with fill := some s.cache.fills.length }
            origins := s.origins ++ [fl.request] }) := by
  obtain ⟨upstream, hStep, hStarted, hAfter⟩ := forward_step hForward
  refine ⟨upstream, hStep, ?_⟩
  rcases Upstream.step_calls hStep hStarted with
    ⟨hNone, hSame⟩ | ⟨i, call, phase, hIndex, hCall, hOpen, hSet, hDone⟩
  · rcases hAfter with ⟨rfl, -⟩ | ⟨i, hIndex, -⟩
    · exact Or.inl ⟨rfl, Or.inl hSame⟩
    · simp [hNone] at hIndex
  · obtain ⟨hLt, -⟩ := List.getElem?_eq_some_iff.mp hCall
    have hMoved : upstream.calls[i]? = some ⟨call.query, phase⟩ := by simp [hSet, hLt]
    by_cases hOk : ∃ value, phase = .done (.ok value)
    · obtain ⟨value, rfl⟩ := hOk
      obtain ⟨⟨j, rfl⟩, hValid, hCached, hLength'⟩ := hDone value rfl
      obtain rfl : j = i := Option.some.inj hIndex
      rcases hAfter with ⟨-, hNot⟩ | ⟨i, hIndex', rfl⟩
      · exact absurd rfl (hNot j)
      · obtain rfl : j = i := Option.some.inj hIndex'
        have hFlight : s.flights[j]? = some (s.flights[j]) :=
          List.getElem?_eq_getElem (by omega)
        refine Or.inr
          ⟨j, call, value, _, rfl, hFlight, hCall, hOpen, hSet, hValid, hCached, hLength', ?_⟩
        exact land_of_ok hFlight hMoved
    · have hNot : ∀ value, phase ≠ .done (.ok value) := fun value hEq => hOk ⟨value, hEq⟩
      refine Or.inl ⟨?_, Or.inr ⟨i, call, phase, hCall, hOpen, hSet, hNot⟩⟩
      rcases hAfter with ⟨rfl, -⟩ | ⟨j, hIndex', rfl⟩
      · rfl
      · obtain rfl : i = j := Option.some.inj (hIndex.symm.trans hIndex')
        refine land_of_not_ok fun query value hEq => ?_
        obtain ⟨-, hPhase⟩ := Upstream.Call.mk.inj (Option.some.inj (hMoved.symm.trans hEq))
        exact hNot value hPhase

/-- A background step changes the cache alone: it stores nothing, and only drops
entries. -/
theorem background_cases {e : Cache.Event} (hBackground : background s e = some s') :
    ∃ cache, Cache.step env.wire s.cache e = some cache ∧ s' = { s with cache := cache } ∧
      cache.fills = s.cache.fills ∧ Cache.Drops s.cache cache := by
  cases e with
  | fill _ _ _ | restart _ _ => simp [background] at hBackground
  | _ =>
      simp only [background] at hBackground
      obtain ⟨cache, hStep, rfl⟩ := Option.map_eq_some_iff.mp hBackground
      exact ⟨cache, hStep, rfl, Cache.fills_of_step hStep (by simp),
        Cache.drops_of_step hStep (by simp) (by simp)⟩

/-- The server stays sound on a cache with the same fills. -/
theorem sound_cache {cache : Cache.State} (hCache : Cache.Grounded env.wire cache)
    (hFills : cache.fills = s.cache.fills) (hSound : Sound s) :
    Sound { s with cache := cache } where
  cache := hCache
  origins := by
    change List.Forall₂ _ s.origins cache.fills
    rw [hFills]
    exact hSound.origins
  flights := by
    change List.Forall₂ (Flight.Sound cache.fills) s.flights s.upstream.calls
    rw [hFills]
    exact hSound.flights
  handlers := fun hd hMem => by
    change hd.phase.Sound s.flights cache.fills
    rw [hFills]
    exact hSound.handlers hd hMem

/-- The steps of a handler leave the cache alone and send nothing. -/
theorem quiet_of_step {e : Event} (hStep : Step s e s') (hUpstream : ∀ u, e ≠ .upstream u)
    (hCache : ∀ c, e ≠ .cache c) (hRestart : ∀ cfg list loaded, e ≠ .restart cfg list loaded) :
    s'.cache = s.cache ∧ s'.upstream.sent = s.upstream.sent := by
  cases hStep with
  | arrive data =>
      unfold arrive
      split <;> exact ⟨rfl, rfl⟩
  | parse _ _ =>
      unfold parse
      split <;> exact ⟨rfl, rfl⟩
  | check _ _ =>
      unfold check
      split <;> exact ⟨rfl, rfl⟩
  | lookup _ _ =>
      unfold lookup
      split <;> exact ⟨rfl, rfl⟩
  | join _ _ =>
      unfold join
      split
      · exact ⟨rfl, rfl⟩
      · split <;> exact ⟨rfl, rfl⟩
  | deliver _ _ hDeliver =>
      rcases deliver_cases hDeliver with ⟨_, _, _, -, -, rfl⟩ | rfl <;> exact ⟨rfl, rfl⟩
  | finish _ hFinish =>
      obtain rfl := finish_cases hFinish
      exact ⟨rfl, rfl⟩
  | upstream _ => exact absurd rfl (hUpstream _)
  | cache _ => exact absurd rfl (hCache _)
  | setBlocklist list => exact ⟨rfl, rfl⟩
  | setConfig cfg => exact ⟨rfl, rfl⟩
  | restart cfg list loaded => exact absurd rfl (hRestart cfg list loaded)

/-- A step leaves the server sound, by cases on what it does. -/
theorem sound_step {e : Event} (hSound : Sound s) (hStep : step s e = some s') : Sound s' := by
  cases step_cases hStep with
  | arrive data => exact sound_arrive data hSound
  | parse _ _ => exact sound_parse _ _ hSound
  | check _ _ => exact sound_check _ _ _ _ hSound
  | lookup _ _ => exact sound_lookup _ _ _ hSound
  | join _ _ => exact sound_join _ _ _ hSound
  | deliver hHandler hPhase hDeliver =>
      exact sound_deliver (List.mem_of_getElem? hHandler) hPhase hDeliver hSound
  | finish hHandler hFinish =>
      obtain rfl := finish_cases hFinish
      have hOld := hSound.handlers _ (List.mem_of_getElem? hHandler)
      exact sound_setHandler hSound hOld
  | upstream hForward =>
      obtain ⟨upstream, -, hCases⟩ := forward_cases hSound.flights.length_eq hForward
      rcases hCases with ⟨rfl, hCalls⟩ |
        ⟨i, call, value, fl, -, hFlight, hCall, -, hSet, hValid, hCached, -, rfl⟩
      · exact sound_forward_pending hSound hCalls
      · exact sound_forward_filled hSound hFlight hCall hSet hValid hCached
  | cache hBackground =>
      obtain ⟨cache, hCache, rfl, hFills, -⟩ := background_cases hBackground
      exact sound_cache (Cache.grounded_step hSound.cache hCache) hFills hSound
  | setBlocklist list => exact { hSound with }
  | setConfig cfg => exact { hSound with }
  | restart cfg list loaded =>
      exact sound_boot (Cache.grounded_restart _ loaded hSound.cache) hSound.origins

/-- An empty server is sound. -/
theorem sound_init (now : UnixTime) (cfg : Config) (list : Blocklist) :
    Sound (init now cfg list : State env) :=
  sound_boot (Cache.grounded_init now _) List.Forall₂.nil

/-- Every run leaves the server sound. -/
theorem sound_run {now : UnixTime} {cfg : Config} {list : Blocklist} {es : List Event}
    (hRun : Machine.run step (init now cfg list) es = some s) : Sound s :=
  Machine.run_invariant (fun _ _ _ => sound_step) (sound_init now cfg list) hRun

end Server

end RustDns
