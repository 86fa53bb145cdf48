import Mathlib.Algebra.Order.Field.Basic
import Mathlib.Algebra.Order.Field.Rat
import RustDns.Library.History
import RustDns.Server.Accounting

/-! The counters as the admin interface reports them. They are read one after
the other while the server goes on, so a snapshot is no single state of it. -/
namespace RustDns

namespace Server

variable {env : Env}

/-- The rate is the exact quotient, before it is rounded to a float. -/
structure StatsSnapshot where
  queries : Nat
  blocked : Nat
  cacheHits : Nat
  forwarded : Nat
  upstreamErrors : Nat
  dropped : Nat
  cacheHitRate : Rat
  cacheEntries : Nat

/-- When each counter is read, as numbers of events, in the order of the
loads. -/
structure Loads where
  queries : Nat
  cacheHits : Nat
  forwarded : Nat
  blocked : Nat
  upstreamErrors : Nat
  dropped : Nat
  ordered : queries ≤ cacheHits ∧ cacheHits ≤ forwarded ∧ forwarded ≤ blocked ∧
    blocked ≤ upstreamErrors ∧ upstreamErrors ≤ dropped

/-- A counter as event `k` finds it. -/
def load (start : State env) (es : List Event) (k : Nat) (counter : Stats → Nat) : Option Nat :=
  (Machine.run step start (es.take k)).map fun s => counter s.stats

def hitRate (hits fwd : Nat) : Rat :=
  let lookups := hits + fwd
  if 0 < lookups then hits / lookups else 0

/-- `Stats::snapshot` beside a run. -/
def snapshot (start : State env) (es : List Event) (loads : Loads) (cacheEntries : Nat) :
    Option StatsSnapshot := do
  let q ← load start es loads.queries Stats.queries
  let hits ← load start es loads.cacheHits Stats.cacheHits
  let fwd ← load start es loads.forwarded Stats.forwarded
  let blocked ← load start es loads.blocked Stats.blocked
  let upstreamErrors ← load start es loads.upstreamErrors Stats.upstreamErrors
  let dropped ← load start es loads.dropped Stats.dropped
  return {
    queries := q
    blocked := blocked
    cacheHits := hits
    forwarded := fwd
    upstreamErrors := upstreamErrors
    dropped := dropped
    cacheHitRate := hitRate hits fwd
    cacheEntries := cacheEntries }

variable {start s s' : State env} {es : List Event} {e : Event}

/-- The counters as one list of numbers, each no larger than its counterpart. -/
def Stats.Le (stats stats' : Stats) : Prop :=
  stats.dropped ≤ stats'.dropped ∧ ∀ c, stats.get c ≤ stats'.get c

/-- The counters are no less than themselves. -/
theorem Stats.Le.refl (stats : Stats) : stats.Le stats := ⟨Nat.le_refl _, fun _ => Nat.le_refl _⟩

/-- Counters that have grown twice have grown. -/
theorem Stats.Le.trans {stats stats' stats'' : Stats} (hFirst : stats.Le stats')
    (hSecond : stats'.Le stats'') : stats.Le stats'' :=
  ⟨Nat.le_trans hFirst.1 hSecond.1, fun c => Nat.le_trans (hFirst.2 c) (hSecond.2 c)⟩

/-- Counters only go up. -/
theorem stats_le_of_step (hAlive : e.restarts = false) (hStep : step s e = some s') :
    s.stats.Le s'.stats := by
  have hUp : ∀ {stats stats' : Stats}, stats.dropped ≤ stats'.dropped →
      (∀ c, stats.get c ≤ stats'.get c) → stats.Le stats' := fun hDropped hGet => ⟨hDropped, hGet⟩
  cases step_cases hStep with
  | arrive data =>
      unfold arrive
      split
      · exact hUp (Nat.le_succ _) fun c => by cases c <;> exact Nat.le_refl _
      · exact Stats.Le.refl _
  | parse _ _ =>
      unfold parse
      split
      · exact Stats.Le.refl _
      · exact hUp (Nat.le_refl _) fun c => by
          cases c <;> first | exact Nat.le_refl _ | exact Nat.le_succ _
  | check _ _ =>
      unfold check
      split
      · exact hUp (Nat.le_refl _) fun c => by
          cases c <;> first | exact Nat.le_refl _ | exact Nat.le_succ _
      · exact Stats.Le.refl _
  | lookup _ _ =>
      unfold lookup
      split
      · exact hUp (Nat.le_refl _) fun c => by
          cases c <;> first | exact Nat.le_refl _ | exact Nat.le_succ _
      · exact Stats.Le.refl _
  | join _ _ =>
      unfold join
      split
      · exact hUp (Nat.le_refl _) fun c => by
          cases c <;> first | exact Nat.le_refl _ | exact Nat.le_succ _
      · split <;> exact Stats.Le.refl _
  | deliver _ _ hDeliver =>
      rcases deliver_cases hDeliver with ⟨_, _, _, -, -, rfl⟩ | rfl
      · exact hUp (Nat.le_refl _) fun c => by
          cases c <;> first | exact Nat.le_refl _ | exact Nat.le_succ _
      · exact hUp (Nat.le_refl _) fun c => by
          cases c <;> first | exact Nat.le_refl _ | exact Nat.le_succ _
  | finish _ hFinish =>
      obtain rfl := finish_cases hFinish
      exact Stats.Le.refl _
  | upstream hForward =>
      rw [(forward_frame hForward).2.1]
      exact Stats.Le.refl _
  | cache hBackground =>
      rw [(background_frame hBackground).2.1]
      exact Stats.Le.refl _
  | setBlocklist list => exact Stats.Le.refl _
  | setConfig cfg => exact Stats.Le.refl _
  | restart cfg list loaded => simp [Event.restarts] at hAlive

/-- Counters only grow while the process lives. -/
theorem stats_le_of_run (hAlive : ∀ e ∈ es, e.restarts = false)
    (hRun : Machine.run step s es = some s') : s.stats.Le s'.stats := by
  induction es generalizing s with
  | nil =>
      obtain rfl := Option.some.inj hRun
      exact Stats.Le.refl _
  | cons e rest ih =>
      obtain ⟨middle, hStep, hRest⟩ := Machine.run_cons hRun
      have hHead := stats_le_of_step (hAlive e List.mem_cons_self) hStep
      exact hHead.trans (ih (fun e' hMem => hAlive e' (List.mem_cons_of_mem e hMem)) hRest)

/-- The counters of a snapshot, as if they had been read at once. -/
def StatsSnapshot.stats (snap : StatsSnapshot) : Stats where
  queries := snap.queries
  blocked := snap.blocked
  cacheHits := snap.cacheHits
  forwarded := snap.forwarded
  upstreamErrors := snap.upstreamErrors
  dropped := snap.dropped

/-- What a later event finds is no less. -/
theorem stats_le_of_finds {i j : Nat} (hAlive : ∀ e ∈ es, e.restarts = false)
    (hFinds : Machine.Finds step start es i s) (hFinds' : Machine.Finds step start es j s')
    (hLe : i ≤ j) : s.stats.Le s'.stats := by
  refine stats_le_of_run (fun e hMem => hAlive e ?_) (hFinds.run_between hFinds' hLe)
  exact List.mem_of_mem_take (List.mem_of_mem_drop hMem)

/-- A counter is loaded from the state that the run has then reached. -/
theorem load_of_finds {k : Nat} (hFinds : Machine.Finds step start es k s) (counter : Stats → Nat) :
    load start es k counter = some (counter s.stats) := by
  rw [load, hFinds, Option.map_some]

/-- The queries counted are decided or belong to a handler with a permit. -/
theorem queries_le {permits : Nat} {past : List Event} (hAccounts : Accounts permits past s) :
    s.stats.queries ≤ s.stats.blocked + s.stats.cacheHits + s.stats.forwarded +
      s.stats.upstreamErrors + permits := by
  have hBlocked := hAccounts.counters .blocked
  have hHits := hAccounts.counters .cacheHits
  have hForwarded := hAccounts.counters .forwarded
  have hErrors := hAccounts.counters .upstreamErrors
  have hQueries := hAccounts.counters .queries
  simp only [Stats.get] at hBlocked hHits hForwarded hErrors hQueries
  have hTally := tally_queries s
  have hHeld : s.tally Phase.undecided ≤ s.handlers.countP fun hd => !hd.released := by
    refine List.countP_mono_left fun hd hMem hUndecided => ?_
    cases hReleased : hd.released with
    | false => rfl
    | true =>
        have hDone := hAccounts.released hd hMem hReleased
        cases hPhase : hd.phase <;> simp [hPhase, Phase.undecided, Phase.running] at hUndecided hDone
  have hPermits := hAccounts.permits
  omega

/-- The outcomes counted belong to queries that have been counted. -/
theorem outcomes_le {permits : Nat} {past : List Event} (hAccounts : Accounts permits past s) :
    s.stats.blocked + s.stats.cacheHits + s.stats.forwarded + s.stats.upstreamErrors ≤
      s.stats.queries := by
  have hBlocked := hAccounts.counters .blocked
  have hHits := hAccounts.counters .cacheHits
  have hForwarded := hAccounts.counters .forwarded
  have hErrors := hAccounts.counters .upstreamErrors
  have hQueries := hAccounts.counters .queries
  simp only [Stats.get] at hBlocked hHits hForwarded hErrors hQueries
  have hTally := tally_queries s
  omega

/-- The hit rate is a share. -/
theorem hitRate_bounds (hits fwd : Nat) :
    0 ≤ hitRate hits fwd ∧ hitRate hits fwd ≤ 1 ∧ hitRate hits fwd * (hits + fwd : Nat) = hits := by
  unfold hitRate
  dsimp only
  split
  case isTrue hSome =>
    have hPos : (0 : Rat) < ((hits + fwd : Nat) : Rat) := by exact_mod_cast hSome
    have hLe : (hits : Rat) ≤ ((hits + fwd : Nat) : Rat) := by exact_mod_cast Nat.le_add_right _ _
    have hNonneg : (0 : Rat) ≤ (hits : Rat) := by exact_mod_cast Nat.zero_le _
    exact ⟨div_nonneg hNonneg (le_of_lt hPos), (div_le_one hPos).mpr hLe,
      div_mul_cancel₀ _ (ne_of_gt hPos)⟩
  case isFalse hNone =>
    obtain ⟨rfl, rfl⟩ : hits = 0 ∧ fwd = 0 := by omega
    simp

/-- A snapshot taken beside a busy server. Every counter lies between its values
at the first and at the last load; the queries shown exceed the outcomes
shown by no more than the handlers allowed at a time, and the outcomes shown
exceed the queries counted at no time; and the hit rate is the share of hits
among the answers that did not come from the list. -/
theorem snapshot_consistent (cache : Cache.State) (cfg : Config) (list : Blocklist)
    (origins : List (Request env.wire)) (hAlive : ∀ e ∈ es, e.restarts = false)
    (hRun : Machine.run step (boot cache cfg list origins) es = some s) (loads : Loads)
    (cacheEntries : Nat) :
    ∃ snap first last, snapshot (boot cache cfg list origins) es loads cacheEntries = some snap ∧
      Machine.Finds step (boot cache cfg list origins) es loads.queries first ∧
      Machine.Finds step (boot cache cfg list origins) es loads.dropped last ∧
      first.stats.Le snap.stats ∧ snap.stats.Le last.stats ∧
      snap.queries ≤ snap.blocked + snap.cacheHits + snap.forwarded + snap.upstreamErrors +
        max cfg.dns.maxInflight.toNat 1 ∧
      snap.blocked + snap.cacheHits + snap.forwarded + snap.upstreamErrors ≤ last.stats.queries ∧
      0 ≤ snap.cacheHitRate ∧ snap.cacheHitRate ≤ 1 ∧
      snap.cacheHitRate * (snap.cacheHits + snap.forwarded : Nat) = snap.cacheHits := by
  obtain ⟨sQueries, hQueries⟩ := Machine.exists_finds hRun loads.queries
  obtain ⟨sHits, hHits⟩ := Machine.exists_finds hRun loads.cacheHits
  obtain ⟨sForwarded, hForwarded⟩ := Machine.exists_finds hRun loads.forwarded
  obtain ⟨sBlocked, hBlocked⟩ := Machine.exists_finds hRun loads.blocked
  obtain ⟨sErrors, hErrors⟩ := Machine.exists_finds hRun loads.upstreamErrors
  obtain ⟨sDropped, hDropped⟩ := Machine.exists_finds hRun loads.dropped
  obtain ⟨hOrder₁, hOrder₂, hOrder₃, hOrder₄, hOrder₅⟩ := loads.ordered
  have hLe₁ := stats_le_of_finds hAlive hQueries hHits hOrder₁
  have hLe₂ := stats_le_of_finds hAlive hHits hForwarded hOrder₂
  have hLe₃ := stats_le_of_finds hAlive hForwarded hBlocked hOrder₃
  have hLe₄ := stats_le_of_finds hAlive hBlocked hErrors hOrder₄
  have hLe₅ := stats_le_of_finds hAlive hErrors hDropped hOrder₅
  have hAtFirst : Accounts _ (es.take loads.queries) sQueries :=
    accounts_run (fun e hMem => hAlive e (List.mem_of_mem_take hMem)) hQueries
  have hAtLast : Accounts _ (es.take loads.dropped) sDropped :=
    accounts_run (fun e hMem => hAlive e (List.mem_of_mem_take hMem)) hDropped
  have hSnapshot : snapshot (boot cache cfg list origins) es loads cacheEntries =
      some
        ⟨sQueries.stats.queries, sBlocked.stats.blocked, sHits.stats.cacheHits,
          sForwarded.stats.forwarded, sErrors.stats.upstreamErrors, sDropped.stats.dropped,
          hitRate sHits.stats.cacheHits sForwarded.stats.forwarded, cacheEntries⟩ := by
    simp only [snapshot, load_of_finds hQueries, load_of_finds hHits, load_of_finds hForwarded,
      load_of_finds hBlocked, load_of_finds hErrors, load_of_finds hDropped, Option.bind_eq_bind,
      Option.bind_some]
    rfl
  -- every counter is read no earlier than the first load and no later than the last
  have hHits₀ := hLe₁.2 .cacheHits
  have hForwarded₀ := (hLe₁.trans hLe₂).2 .forwarded
  have hBlocked₀ := ((hLe₁.trans hLe₂).trans hLe₃).2 .blocked
  have hErrors₀ := (((hLe₁.trans hLe₂).trans hLe₃).trans hLe₄).2 .upstreamErrors
  have hAll := (((hLe₁.trans hLe₂).trans hLe₃).trans hLe₄).trans hLe₅
  have hHits₁ := (((hLe₂.trans hLe₃).trans hLe₄).trans hLe₅).2 .cacheHits
  have hForwarded₁ := ((hLe₃.trans hLe₄).trans hLe₅).2 .forwarded
  have hBlocked₁ := (hLe₄.trans hLe₅).2 .blocked
  have hErrors₁ := hLe₅.2 .upstreamErrors
  simp only [Stats.get] at hHits₀ hForwarded₀ hBlocked₀ hErrors₀ hHits₁ hForwarded₁ hBlocked₁ hErrors₁
  refine ⟨_, sQueries, sDropped, hSnapshot, hQueries, hDropped, ⟨hAll.1, fun c => ?_⟩,
    ⟨Nat.le_refl _, fun c => ?_⟩, ?_, ?_, hitRate_bounds _ _⟩
  · cases c <;> first | assumption | exact Nat.le_refl _
  · cases c <;> first | assumption | exact hAll.2 .queries
  · have hFirst := queries_le hAtFirst
    simp only
    omega
  · have hLast := outcomes_le hAtLast
    simp only
    omega

/-- A snapshot taken while a message is on its way: the query is counted, its
outcome not yet. -/
theorem snapshot_consistent_fetch :
    ∃ snap : StatsSnapshot, snap.queries = 1 ∧
      snap.blocked + snap.cacheHits + snap.forwarded + snap.upstreamErrors = 0 ∧
      snap.queries ≤ snap.blocked + snap.cacheHits + snap.forwarded + snap.upstreamErrors + 8192 := by
  have hEnd : (Machine.run step firstState (fetch 1)).isSome = true := by decide +kernel
  obtain ⟨s, hRun⟩ := Option.isSome_iff_exists.mp hEnd
  have hAlive : ∀ e ∈ fetch 1, e.restarts = false := by simp [fetch, Event.restarts]
  obtain ⟨snap, -, -, hSnapshot, -, -, -, -, hQueries, -⟩ :=
    snapshot_consistent _ _ _ _ hAlive hRun ⟨2, 3, 4, 5, 6, 7, by decide⟩ 0
  have hShown : (snapshot firstState (fetch 1) ⟨2, 3, 4, 5, 6, 7, by decide⟩ 0).map (fun snap =>
      (snap.queries, snap.blocked + snap.cacheHits + snap.forwarded + snap.upstreamErrors)) =
      some (1, 0) := by
    decide +kernel
  obtain ⟨snap', hSnapshot', hCounts⟩ := Option.map_eq_some_iff.mp hShown
  obtain rfl : snap = snap' := Option.some.inj (hSnapshot.symm.trans hSnapshot')
  obtain ⟨hOne, hZero⟩ := Prod.mk.inj hCounts
  exact ⟨snap, hOne, hZero, hQueries⟩

end Server

end RustDns
