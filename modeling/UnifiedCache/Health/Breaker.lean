import UnifiedCache.Health.Evidence

/-! The breaker as a whole: what its transitions need, and the cooldowns they set. -/
namespace UnifiedCache.Health
variable {cfg : StoreHealthConfig} {recording : Recording} {call : Call}

/-- Clock readings of a run, and spans of the configuration, that leave room for the
sums the tracker forms with them. -/
structure Horizon (config : StoreHealthConfig) (calls : List Call) : Prop where
  start : ∀ call ∈ calls, 0 ≤ call.now.toInt
  cooldown : ∀ call ∈ calls, call.now.toInt + config.maxCooldown.toInt * 1000000 < 0x8000000000000000
  stable : config.stableResetAfter.toInt * 1000000 < 0x8000000000000000
  window : config.passiveWindow.toInt * 1000000000 < 0x8000000000000000

/-- Newest first: a trip and a recovery take turns, a trip is first, and each raises
the generation by one. -/
def Alternates : List HealthTransition → Prop
  | [] => True
  | [first] => first.healthy = false ∧ first.generation = 1
  | newer :: older :: rest => newer.healthy = !older.healthy ∧
      newer.generation = older.generation + 1 ∧ Alternates (older :: rest)

def StoreHealthConfig.span (config : StoreHealthConfig) : Int :=
  config.passiveWindow.toInt * 1000000000

def HealthTracker.Follows (tracker : HealthTracker) (made : List HealthTransition) : Prop :=
  tracker.healthy = made.head?.elim true HealthTransition.healthy ∧
    tracker.generation = made.head?.elim 0 HealthTransition.generation

/-- The cooldown of a trip: it backs off from the previous one, dropping the fraction
of a millisecond, if the tracker has recovered only lately. -/
def Cools (config : StoreHealthConfig) (history : List Event) (now : TimePoint)
    (cooldown : Int64) : Prop :=
  match history.find? Event.recovered with
  | some recovery =>
    if now.toInt - recovery.now.toInt < config.stableResetAfter.toInt * 1000000 then
      ∃ previous ∈ (transitions history).head?, cooldown.toInt =
        ⌊min (previous.cooldown.toInt * config.backoffFactor) config.maxCooldown.toInt⌋
    else cooldown = config.initialCooldown
  | none => cooldown = config.initialCooldown

structure Lawful (config : StoreHealthConfig) (recording : Recording) (call : Call) : Prop where
  alternates : Alternates (transitions (record config recording call).history)
  current : (record config recording call).tracker.Follows
    (transitions (record config recording call).history)
  stale : ∀ generation, call.generation? = some generation →
    generation ≠ recording.tracker.generation →
    recording.tracker.handle config call = (recording.tracker, none)
  recovers : ∀ transition, (recording.tracker.handle config call).2 = some transition →
    transition.healthy = true →
    let results := probes (since Event.tripped (record config recording call).history)
    transition.source = .activeProbe ∧
      config.healthWindowSize.toNat ≤ results.length ∧
      (∀ healthy ∈ results.take config.healthWindowSize.toNat, healthy = true) ∧
      ∃ recent trip older, recording.history = recent ++ trip :: older ∧ trip.tripped = true ∧
        (∀ event ∈ recent, event.outcome = none) ∧
        trip.now.toInt + transition.cooldown.toInt * 1000000 ≤ call.now.toInt
  trips : ∀ transition, (recording.tracker.handle config call).2 = some transition →
    transition.healthy = false →
    (transition.source = .activeProbe ∧ config.failureThreshold.toNat ≤
      ((probes (record config recording call).history).take
        config.healthWindowSize.toNat).count false) ∨
    (transition.source = .passiveIo ∧
      (∀ event ∈ since Event.recovered recording.history, event.outcome = none) ∧
      ∃ event recent older, (record config recording call).history = event :: recording.history ∧
        since Event.recovered recording.history = recent ++ older ∧
        (∀ sample rest, older = sample :: rest → sample.isSample = true ∧
          sample.now.toInt + config.span ≤ call.now.toInt) ∧
        config.passiveFailureThreshold.toNat ≤ (ios (event :: recent)).count false)
  cooldown : ∀ transition, (recording.tracker.handle config call).2 = some transition →
    transition.healthy = false → Cools config recording.history call.now transition.cooldown
  range : ∀ transition ∈ transitions (record config recording call).history,
    config.initialCooldown ≤ transition.cooldown ∧ transition.cooldown ≤ config.maxCooldown
  stats : ∃ recent older,
    since Event.recovered (record config recording call).history = recent ++ older ∧
      Aged config.span (record config recording call).history older ∧
      (record config recording call).tracker.passiveWindow.getStats =
        ⟨UInt64.ofNat ((ios recent).count true), UInt64.ofNat ((ios recent).count false)⟩

/-! What a call does: it adds to the evidence, and may make a transition. -/

namespace HealthTracker

def told (event : Event) (tracker : HealthTracker) : HealthTracker :=
  { tracker with
    probeWindow := match event.probe? with
      | some healthy => tracker.probeWindow.record healthy
      | none => tracker.probeWindow
    passiveWindow := match event.call with
      | .samplePassiveWindow now => tracker.passiveWindow.updateWindowStart now
      | _ => tracker.passiveWindow.count event }

inductive Ends (config : StoreHealthConfig) (event : Event) (tracker : HealthTracker) :
    HealthTracker × Option HealthTransition → Prop where
  | stays : Ends config event tracker (tracker.told event, none)
  | probeTrips (healthy : Bool) : tracker.healthy = true → event.probe? = some healthy →
    config.failureThreshold ≤ (tracker.told event).probeWindow.failures →
    Ends config event tracker
      (((tracker.told event).toUnhealthy config .activeProbe event.now).map id some)
  | ioTrips : tracker.healthy = true → event.io? = some false →
    config.passiveFailureThreshold ≤ (tracker.told event).passiveWindow.getStats.failures →
    Ends config event tracker
      (((tracker.told event).toUnhealthy config .passiveIo event.now).map id some)
  | recovers (healthy : Bool) : tracker.healthy = false → event.probe? = some healthy →
    (tracker.told event).probeWindow.full = true → (tracker.told event).probeWindow.failures = 0 →
    tracker.recoverAfter ≤ event.now →
    Ends config event tracker (((tracker.told event).toHealthy event.now).map id some)

theorem handle_ends (cfg : StoreHealthConfig) (t : HealthTracker) (e : Event)
    (hh : e.healthy = t.healthy) (hg : e.generation = t.generation) : Ends cfg e t
    (t.handle cfg e.call) := by
  have hst : t.told e = t → Ends cfg e t (t, none) := by
    intro ht
    have he : Ends cfg e t (t.told e, none) := .stays
    rwa [ht] at he
  cases hc : e.call with
  | samplePassiveWindow now =>
    have ht : t.told e = t.samplePassiveWindow now := by
      simp only [told, Event.probe?, hc, samplePassiveWindow]
    have he : Ends cfg e t (t.told e, none) := .stays
    rwa [ht] at he
  | recordProbe g r now =>
    have hn : e.now = now := by rw [Event.now, hc]; rfl
    have ho : e.io? = none := by simp only [Event.io?, hc]
    unfold handle recordProbe
    dsimp only
    by_cases hs : g = t.generation
    · have hp : e.probe? = some r.success := by
        simp only [Event.probe?, hc, hg, hs, if_true]
      have ht : t.told e = { t with probeWindow := t.probeWindow.record r.success } := by
        simp only [told, hp, hc, PassiveIoWindow.count, ho]
      rw [if_neg (by simpa using hs)]
      split
      · rename_i hh
        split
        · rename_i hf
          have he := Ends.probeTrips _ hh hp (by rw [ht]; exact hf)
          rwa [ht, hn] at he
        · exact ht ▸ .stays
      rename_i hh
      split
      · rename_i hl
        split
        · rename_i haf
          have he : Ends cfg e t (((t.told e).toHealthy e.now).map id some) :=
            .recovers _ (by simpa using hh) hp (by rw [ht]; exact hl.1)
              (by rw [ht]; exact hl.2) (by rw [hn]; exact haf)
          rwa [ht, hn] at he
        · exact ht ▸ .stays
      · exact ht ▸ .stays
    · have hp : e.probe? = none := by
        simp only [Event.probe?, hc, hg, hs, if_false]
      rw [if_pos hs]
      apply hst
      simp only [told, hp, hc, PassiveIoWindow.count, ho]
  | recordIo _ r now =>
    have hn : e.now = now := by rw [Event.now, hc]; rfl
    have hp : e.probe? = none := by simp only [Event.probe?, hc]
    unfold handle recordIo
    dsimp only
    split
    · rename_i hr
      have ho : e.io? = some r.success := by
        simp only [Event.io?, hc, hh, hg]
        exact if_pos hr
      have ht : t.told e = { t with passiveWindow := t.passiveWindow.record r.success } := by
        simp only [told, hp, hc, PassiveIoWindow.count, ho]
      split
      · rename_i hfa
        have ha : e.io? = some false := by
          rw [ho, Status.success_eq_false.2 hfa.1]
        have he := Ends.ioTrips hr.2.1 ha (by rw [ht]; exact hfa.2)
        rwa [ht, hn] at he
      · exact ht ▸ .stays
    · rename_i hr
      have ho : e.io? = none := by
        simp only [Event.io?, hc, hh, hg]
        exact if_neg hr
      apply hst
      simp only [told, hp, hc, PassiveIoWindow.count, ho]

end HealthTracker

theorem toInt_milliseconds {c : Int64} (hp : 0 ≤ c.toInt)
    (hl : c.toInt * 1000000 < 0x8000000000000000) :
    (TimePoint.milliseconds c).toInt = c.toInt * 1000000 := by
  unfold TimePoint.milliseconds
  rw [Int64.toInt_mul]
  exact Int.bmod_eq_of_le (by simp; omega) (by simp; omega)

theorem toInt_add {a b : Int64} (hl : -0x8000000000000000 ≤ a.toInt + b.toInt)
    (ht : a.toInt + b.toInt < 0x8000000000000000) : (a + b).toInt = a.toInt + b.toInt := by
  rw [Int64.toInt_add]
  exact Int.bmod_eq_of_le (by omega) (by omega)

theorem toInt_sub {a b : Int64} (hl : -0x8000000000000000 ≤ a.toInt - b.toInt)
    (ht : a.toInt - b.toInt < 0x8000000000000000) : (a - b).toInt = a.toInt - b.toInt := by
  rw [Int64.toInt_sub]
  exact Int.bmod_eq_of_le (by omega) (by omega)

theorem truncate_of_nonneg {v : ℚ} (h : 0 ≤ v) : truncate v = ⌊v⌋ := by
  unfold truncate
  rw [Rat.floor_def', Int.tdiv_eq_ediv_of_nonneg (Rat.num_nonneg.2 h)]

structure StoreHealthConfig.Sound (config : StoreHealthConfig) : Prop where
  windowSize : 0 < config.healthWindowSize.toNat
  passiveWindow : 0 < config.passiveWindow.toInt
  initial : 0 ≤ config.initialCooldown.toInt
  max : config.initialCooldown.toInt ≤ config.maxCooldown.toInt
  stable : 0 < config.stableResetAfter.toInt
  backoff : 1 ≤ config.backoffFactor

theorem StoreHealthConfig.sound (h : cfg.validate.success = true) : cfg.Sound := by
  unfold validate at h
  split_ifs at h with hp _ _ ha hc
  case pos | pos | pos | pos | pos => exact absurd h (by decide)
  rw [not_or, not_or, not_or] at hp hc
  rw [not_or] at ha
  obtain ⟨hn, hm, hs, hb⟩ := hc
  rw [Int64.lt_iff_toInt_lt, not_lt] at hn hm
  rw [Int64.le_iff_toInt_le, not_le] at hs
  refine ⟨?_, ?_, hn, hm, hs, not_lt.1 hb⟩
  · apply Nat.pos_of_ne_zero
    intro hz
    exact hp.2.2.1 (UInt64.toNat_inj.1 hz)
  · have hw := ha.1
    rwa [Int64.le_iff_toInt_le, not_le] at hw

theorem backoff_range (s : cfg.Sound) {cooldown : Int} (hm : cfg.initialCooldown.toInt ≤ cooldown) :
    cfg.initialCooldown.toInt ≤
        ⌊min (cooldown * cfg.backoffFactor) (cfg.maxCooldown.toInt : ℚ)⌋ ∧
      ⌊min (cooldown * cfg.backoffFactor) (cfg.maxCooldown.toInt : ℚ)⌋ ≤
        cfg.maxCooldown.toInt := by
  have hn : (cfg.initialCooldown.toInt : ℚ) ≤ cooldown := by exact_mod_cast hm
  have ho : (0 : ℚ) ≤ cooldown := by
    have hz : (0 : ℚ) ≤ cfg.initialCooldown.toInt := by exact_mod_cast s.initial
    exact hz.trans hn
  have hg : (cooldown : ℚ) ≤ cooldown * cfg.backoffFactor :=
    le_mul_of_one_le_right ho s.backoff
  have ha : (cfg.initialCooldown.toInt : ℚ) ≤ cfg.maxCooldown.toInt := by
    exact_mod_cast s.max
  constructor
  · exact Int.le_floor.2 (le_min (hn.trans hg) ha)
  · have hl := (Int.floor_le (min (cooldown * cfg.backoffFactor)
      (cfg.maxCooldown.toInt : ℚ))).trans (min_le_right _ _)
    exact_mod_cast hl

end UnifiedCache.Health
