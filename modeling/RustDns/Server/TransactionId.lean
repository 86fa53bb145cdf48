import RustDns.Server.KeySoundness
import RustDns.Server.SingleFlight

/-! Every client gets its own transaction id on a shared answer. A stored
reply has been parsed once, so it is long enough for `patch_id` to take. -/
namespace RustDns

open Codec

/-- A reply that answers some query is a whole header long. -/
theorem length_of_validResponse {wire : Wire} {query reply : Bytes}
    (hValid : validResponse wire query reply = true) : 12 ≤ reply.length := by
  unfold validResponse at hValid
  split at hValid
  · rename_i q r hQuery hReply
    exact wire.header reply r hReply
  · simp at hValid

/-- The two bytes of an id, high byte first. -/
theorem beBytes_id (id : UInt16) :
    beBytes 2 id.toNat = [(id >>> 8).toUInt8, (id &&& 0xff).toUInt8] := by
  have hHigh : UInt8.ofNat (id.toNat / 256) = (id >>> 8).toUInt8 := by
    apply UInt8.toNat_inj.mp
    rw [UInt8.toNat_ofNat', UInt16.toNat_toUInt8, UInt16.toNat_shiftRight]
    simp [Nat.shiftRight_eq_div_pow]
  have hLow : UInt8.ofNat id.toNat = (id &&& 0xff).toUInt8 := by
    apply UInt8.toNat_inj.mp
    rw [UInt8.toNat_ofNat', UInt16.toNat_toUInt8, UInt16.toNat_and]
    have hMask : id.toNat &&& (0xff : UInt16).toNat = id.toNat % 256 :=
      Nat.and_two_pow_sub_one_eq_mod id.toNat 8
    rw [hMask]
    simp
  simp only [beBytes, Nat.pow_zero, Nat.pow_one, Nat.div_one]
  rw [hHigh, hLow]

/-- The patched bytes begin with the id and go on as the reply does. -/
theorem patchId_spec {reply : Bytes} (id : UInt16) (hLength : 2 ≤ reply.length) :
    (patchId reply id).take 2 = beBytes 2 id.toNat ∧ (patchId reply id).drop 2 = reply.drop 2 := by
  match reply, hLength with
  | _ :: _ :: rest, _ => exact ⟨by rw [beBytes_id]; rfl, rfl⟩

namespace Server

variable {env : Env} {s s' : State env}

/-- The reply was accepted as an answer to some request. -/
def Accepted (s : State env) (reply : Bytes) : Prop :=
  ∃ o ∈ s.origins, validResponse env.wire o.data reply = true

/-- What has been stored was accepted. -/
theorem accepted_of_fill {n : Nat} {f : Cache.Fill} (hSound : Sound s)
    (hFill : s.cache.fills[n]? = some f) : Accepted s f.value.wire := by
  obtain ⟨o, hOrigin, -, hValid⟩ := Indexed.forall₂_partner hSound.origins hFill
  exact ⟨o, List.mem_of_getElem? hOrigin, hValid⟩

/-- An accepted reply has room for its id. -/
theorem Accepted.length {reply : Bytes} (hAccepted : Accepted s reply) : 2 ≤ reply.length := by
  obtain ⟨o, -, hValid⟩ := hAccepted
  have hHeader := length_of_validResponse hValid
  omega

/-- Everything that may be handed to `patch_id` was accepted from upstream:
entries in memory, the results of flights, and what is on its way to the store
or in it. -/
structure Filled (s : State env) : Prop where
  ram : ∀ key e, s.cache.ram.lookup key = some e → Accepted s e.value.wire
  flights : ∀ i value, Ended s i (.ok value) → Accepted s value.wire
  channel : ∀ p ∈ s.cache.channel, Accepted s p.item.2.wire
  buffer : ∀ p ∈ s.cache.buffer, Accepted s p.item.2.wire
  store : ∀ b row : Bytes, s.cache.store[b]? = some row →
    ∃ v, decVal row = some v ∧ Accepted s v.wire

/-- A sound server has accepted all it stores. -/
theorem filled_of_sound (hSound : Sound s) : Filled s where
  ram := fun key e hLookup => by
    obtain ⟨f, hFill, hStems⟩ := hSound.cache.ram key e hLookup
    rw [hStems.wire]
    exact accepted_of_fill hSound hFill
  flights := fun i value hEnded => by
    obtain ⟨query, hCall⟩ := hEnded
    obtain ⟨fl, -, -, hDone⟩ := Indexed.forall₂_partner hSound.flights hCall
    obtain ⟨n, f, -, hFill, -, rfl⟩ := hDone value rfl
    exact accepted_of_fill hSound hFill
  channel := fun p hMem => by
    obtain ⟨f, hFill, hItem⟩ := hSound.cache.channel p hMem
    rw [hItem]
    exact accepted_of_fill hSound hFill
  buffer := fun p hMem => by
    obtain ⟨f, hFill, hItem⟩ := hSound.cache.buffer p hMem
    rw [hItem]
    exact accepted_of_fill hSound hFill
  store := fun b row hRow => by
    obtain ⟨f, hFill, -, rfl⟩ := hSound.cache.store b row hRow
    exact ⟨f.value, decVal_encVal f.value, accepted_of_fill hSound hFill⟩

/-- The steps that patch a reply work on a copy. -/
def Event.patches : Event → Bool
  | .lookup _ | .join _ | .deliver _ => true
  | _ => false

/-- The steps that patch an id in leave the stores and the results of calls. -/
theorem patches_keep {e : Event} (hSound : Sound s) (hPatches : e.patches = true)
    (hStep : step s e = some s') :
    s'.cache = s.cache ∧ ∀ i value, Ended s i (.ok value) → Ended s' i (.ok value) := by
  have hAlive : e.restarts = false := by
    cases e <;> first | rfl | simp [Event.patches] at hPatches
  have hUpstream : ∀ u, e ≠ .upstream u := by
    rintro u rfl
    exact absurd hPatches (by simp [Event.patches])
  have hCache : ∀ c, e ≠ .cache c := by
    rintro c rfl
    exact absurd hPatches (by simp [Event.patches])
  have hRestart : ∀ cfg list loaded, e ≠ .restart cfg list loaded := by
    rintro cfg list loaded rfl
    exact absurd hPatches (by simp [Event.patches])
  exact ⟨(quiet_of_step (step_cases hStep) hUpstream hCache hRestart).1,
    fun i value hEnded => hEnded.of_effect hAlive (effect_of_step hSound hStep)⟩

/-- Every client that is served a reply from memory or from a flight finds its
own id in front of it, and behind it an accepted reply, byte for byte. -/
theorem served_own_id {now : UnixTime} {cfg : Config} {list : Blocklist} {es : List Event}
    (hRun : Machine.run step (init now cfg list) es = some s) :
    (∀ hd ∈ s.handlers, ∀ r a, hd.phase = .answered r a →
      a.action = .cached ∨ a.action = .forwarded →
      r.data = hd.data ∧ a.response.take 2 = beBytes 2 r.message.id.toNat ∧
        ∃ reply, Accepted s reply ∧ a.response.drop 2 = reply.drop 2) ∧
      Filled s ∧ (∀ reply, Accepted s reply → 2 ≤ reply.length) ∧
      ∀ e s', e.patches = true → step s e = some s' →
        s'.cache = s.cache ∧ ∀ i value, Ended s i (.ok value) → Ended s' i (.ok value) := by
  have hBrings : ∀ e ∈ es, e.Brings fun _ => True := fun e _ => by cases e <;> trivial
  obtain ⟨hSound, hTraced⟩ := traced_run hBrings hRun
  refine ⟨fun hd hMem r a hPhase hAction => ?_, filled_of_sound hSound,
    fun reply hAccepted => hAccepted.length, fun e s' => patches_keep hSound⟩
  have hData := (hTraced.handlers hd hMem).2
  rw [Handler.Traced, hPhase] at hData
  have hAnswer := hSound.handlers hd hMem
  rw [hPhase] at hAnswer
  obtain ⟨n, f, -, hFill, -, hResponse⟩ := fill_of_answer hAnswer hAction
  have hAccepted := accepted_of_fill hSound hFill
  obtain ⟨hFront, hBack⟩ := patchId_spec r.message.id hAccepted.length
  refine ⟨hData, ?_, f.value.wire, hAccepted, ?_⟩
  · rw [hResponse, hFront]
  · rw [hResponse, hBack]

/-- A fetched reply is found in memory by the next client. -/
theorem served_own_id_again :
    ∃ s : State sampleEnv, Machine.run step firstState (fetch 1 ++ askAgain 1) = some s ∧
      s.stats.cacheHits = 1 ∧ Filled s := by
  have hEnd : ((Machine.run step firstState (fetch 1 ++ askAgain 1)).map fun s =>
      s.stats.cacheHits) = some 1 := by
    decide +kernel
  obtain ⟨s, hRun, hHits⟩ := Option.map_eq_some_iff.mp hEnd
  exact ⟨s, hRun, hHits, (served_own_id hRun).2.1⟩

end Server

end RustDns
