import RustDns.Server.KeySoundness
import RustDns.Server.SingleFlight

/-! No response is too long for a TCP frame, wherever it comes from: a
datagram, a frame of an upstream server, the cache or the store. -/
namespace RustDns

/-- The responses the server builds itself fit a frame. -/
structure BuiltFits (wire : Wire) : Prop where
  blocked : ∀ request query dns, (buildBlocked wire request query dns).length < 65536
  failed : ∀ request query, (buildResponseCode wire request query .servFail).length < 65536

/-- Patching the id in keeps the length. -/
theorem length_patchId (reply : Bytes) (id : UInt16) : (patchId reply id).length = reply.length := by
  unfold patchId
  split <;> rfl

namespace Server

variable {env : Env} {s s' : State env} {e : Event}

/-- A response that does not come from upstream is one the server builds. -/
def Answer.Built (r : Request env.wire) (a : Answer) : Prop :=
  match a.action with
  | .blocked => ∃ dns, a.response = buildBlocked env.wire r.message r.query dns
  | .error => a.response = buildResponseCode env.wire r.message r.query .servFail
  | .cached | .forwarded => True

def Phase.Built : Phase env → Prop
  | .answered r a => a.Built r
  | _ => True

structure Short (s : State env) : Prop where
  fills : ∀ f ∈ s.cache.fills, f.value.wire.length < 65536
  handlers : ∀ hd ∈ s.handlers, hd.phase.Built

/-- Handlers stay built when the one that changes is. -/
theorem built_set {handlers : List (Handler env)} {h : Nat} {new : Handler env}
    (hOld : ∀ hd ∈ handlers, hd.phase.Built) (hNew : new.phase.Built) :
    ∀ hd ∈ handlers.set h new, hd.phase.Built := by
  intro hd hMem
  rcases List.mem_or_eq_of_mem_set hMem with hKept | rfl
  · exact hOld hd hKept
  · exact hNew

/-- A step answers from a store, or with a message built for the request. -/
theorem built_step (hSound : Sound s) (hBuilt : ∀ hd ∈ s.handlers, hd.phase.Built)
    (hStep : step s e = some s') : ∀ hd ∈ s'.handlers, hd.phase.Built := by
  cases step_cases hStep with
  | arrive data =>
      unfold arrive
      split
      · exact hBuilt
      · intro hd hMem
        rcases List.mem_append.mp hMem with hOld | hNew
        · exact hBuilt hd hOld
        · obtain rfl := List.mem_singleton.mp hNew
          trivial
  | parse _ _ =>
      unfold parse
      split <;> exact built_set hBuilt trivial
  | check _ _ =>
      unfold check
      split
      · exact built_set hBuilt ⟨_, rfl⟩
      · exact built_set hBuilt trivial
  | lookup _ _ =>
      unfold lookup
      split <;> exact built_set hBuilt trivial
  | join _ _ =>
      unfold join
      split
      · exact built_set hBuilt trivial
      · split <;> exact built_set hBuilt trivial
  | deliver _ _ hDeliver =>
      rcases deliver_cases hDeliver with ⟨_, _, _, -, -, rfl⟩ | rfl
      · exact built_set hBuilt trivial
      · exact built_set hBuilt rfl
  | finish hHandler hFinish =>
      obtain rfl := finish_cases hFinish
      have hOld := hBuilt _ (List.mem_of_getElem? hHandler)
      exact built_set hBuilt hOld
  | upstream hForward =>
      obtain ⟨upstream, -, hCases⟩ := forward_cases hSound.flights.length_eq hForward
      rcases hCases with ⟨rfl, -⟩ | ⟨_, _, _, _, -, -, -, -, -, -, -, -, rfl⟩
      · exact hBuilt
      · exact hBuilt
  | cache hBackground =>
      obtain ⟨cache, -, rfl, -⟩ := background_cases hBackground
      exact hBuilt
  | setBlocklist list => exact hBuilt
  | setConfig cfg => exact hBuilt
  | restart cfg list loaded => simp [boot]

/-- A step stores no reply longer than a length prefix can announce, and builds
the server's own answers for their requests. -/
theorem short_step (hSound : Sound s) (hShort : Short s) (hStep : step s e = some s') :
    Short s' := by
  refine ⟨?_, built_step hSound hShort.handlers hStep⟩
  cases effect_of_step hSound hStep with
  | keep hFlights hCalls hFills =>
      rw [hFills]
      exact hShort.fills
  | start hMiss hFree hFlights hCalls hCache =>
      rw [hCache]
      exact hShort.fills
  | move hCall hOpen hCalls hPhase hFlights hCache =>
      rw [hCache]
      exact hShort.fills
  | land hFlight hCall hOpen hCalls hLength hFlights hCache =>
      intro f hMem
      rw [hCache] at hMem
      rcases List.mem_append.mp hMem with hOld | hNew
      · exact hShort.fills f hOld
      · obtain rfl := List.mem_singleton.mp hNew
        exact hLength
  | restart hRestart hFlights hCalls hFills =>
      rw [hFills]
      exact hShort.fills

/-- A server that has just started has stored nothing. -/
theorem short_init (now : UnixTime) (cfg : Config) (list : Blocklist) :
    Short (init now cfg list : State env) where
  fills := by simp [init, boot, Cache.init]
  handlers := by simp [init, boot]

/-- Whatever a handler answers fits a frame. -/
theorem length_of_answer {hd : Handler env} {r : Request env.wire} {a : Answer}
    (hFits : BuiltFits env.wire) (hSound : Sound s) (hShort : Short s) (hMem : hd ∈ s.handlers)
    (hPhase : hd.phase = .answered r a) : a.response.length < 65536 := by
  have hBuilt := hShort.handlers hd hMem
  rw [hPhase] at hBuilt
  have hAnswer := hSound.handlers hd hMem
  rw [hPhase] at hAnswer
  -- a response from memory or from a flight is an accepted reply with another id
  have hServed : a.action = .cached ∨ a.action = .forwarded → a.response.length < 65536 := by
    intro hAction
    obtain ⟨n, f, -, hFill, -, hResponse⟩ := fill_of_answer hAnswer hAction
    rw [hResponse, length_patchId]
    exact hShort.fills f (List.mem_of_getElem? hFill)
  cases hAction : a.action with
  | blocked =>
      simp only [Phase.Built, Answer.Built, hAction] at hBuilt
      obtain ⟨dns, hResponse⟩ := hBuilt
      rw [hResponse]
      exact hFits.blocked _ _ dns
  | cached => exact hServed (Or.inl hAction)
  | forwarded => exact hServed (Or.inr hAction)
  | error =>
      simp only [Phase.Built, Answer.Built, hAction] at hBuilt
      rw [hBuilt]
      exact hFits.failed _ _

end Server

end RustDns
