import UnifiedCache.Health.Breaker

/-! The breaker over whole runs. -/
namespace UnifiedCache.Health
open List Event HealthTracker StoreHealthConfig PassiveIoWindow
variable {config : StoreHealthConfig} {recording : Recording} {event : Event} {now : TimePoint}
  {source : HealthSource}

def Reading (config : StoreHealthConfig) (now : TimePoint) : Prop :=
  0 ≤ now.toInt ∧ now.toInt + config.maxCooldown.toInt * 1000000 < 0x8000000000000000

structure StoreHealthConfig.Representable (config : StoreHealthConfig) : Prop where
  stable : config.stableResetAfter.toInt * 1000000 < 0x8000000000000000
  window : config.passiveWindow.toInt * 1000000000 < 0x8000000000000000

structure Tracks (config : StoreHealthConfig) (recording : Recording) : Prop where
  alternates : Alternates (transitions recording.history)
  current : recording.tracker.Follows (transitions recording.history)
  capacity : recording.tracker.probeWindow.capacity = config.healthWindowSize
  probes : recording.tracker.probeWindow.Shows (probes (since Event.tripped recording.history))
  window : recording.tracker.passiveWindow.window = config.passiveWindow * 1000
  passive : recording.tracker.passiveWindow.Shows config.span recording.history
    (since Event.recovered recording.history)
  cooldown : recording.tracker.cooldown =
    (transitions recording.history).head?.elim 0 HealthTransition.cooldown
  range : ∀ transition ∈ transitions recording.history,
    config.initialCooldown ≤ transition.cooldown ∧ transition.cooldown ≤ config.maxCooldown
  recoveredAt : recording.tracker.recoveredAt =
    (recording.history.find? Event.recovered).map Event.now
  trip : recording.tracker.healthy = false →
    ∃ recent trip older, recording.history = recent ++ trip :: older ∧ trip.tripped = true ∧
      (∀ event ∈ recent, event.outcome = none) ∧
      recording.tracker.recoverAfter.toInt =
        trip.now.toInt + recording.tracker.cooldown.toInt * 1000000
  quiet : recording.tracker.healthy = true →
    ∀ event ∈ since Event.recovered recording.history, event.outcome = none
  times : ∀ event ∈ recording.history, 0 ≤ event.now.toInt

theorem Tracks.start (config : StoreHealthConfig) : Tracks config ⟨.create config, []⟩ where
  alternates := trivial
  current := ⟨rfl, rfl⟩
  capacity := rfl
  probes := .start config.healthWindowSize
  window := rfl
  passive := {
    baseline := ⟨[], [], rfl, PassiveIoWindow.Shows.moved_nil _, fun _ _ h => by cases h⟩
    snapshots := fun _ hm => by cases hm }
  cooldown := rfl
  range := by simp [transitions]
  recoveredAt := rfl
  trip := by simp [create]
  quiet := by simp [since]
  times := by simp

theorem Alternates.cons {m : List HealthTransition} {n : HealthTransition} (h : Alternates m)
    (hh : n.healthy = !m.head?.elim true HealthTransition.healthy)
    (hg : n.generation = m.head?.elim 0 HealthTransition.generation + 1) : Alternates (n :: m) := by
  cases m with
  | nil => exact ⟨hh, hg⟩
  | cons => exact ⟨hh, hg, h⟩

@[simp] theorem transitions_cons_none (h : event.outcome = none) (history : List Event) :
    transitions (event :: history) = transitions history :=
  filterMap_cons_none h

@[simp] theorem transitions_cons_some {t : HealthTransition} (h : event.outcome = some t)
    (history : List Event) : transitions (event :: history) = t :: transitions history :=
  filterMap_cons_some h

namespace Tracks

theorem head_of_recovery {history : List Event} {r : Event} (h : history.find? recovered = some r) :
    ∃ previous, (transitions history).head? = some previous := by
  have hm := mem_of_find?_eq_some h
  have hr : r.recovered = true := List.find?_some h
  unfold recovered at hr
  obtain ⟨transition, ho⟩ : ∃ transition, r.outcome = some transition := by
    cases ho : r.outcome with
    | none =>
      rw [ho] at hr
      cases hr
    | some transition => exact ⟨transition, rfl⟩
  have hn : transition ∈ transitions history := mem_filterMap.2 ⟨r, hm, ho⟩
  cases hh : (transitions history).head? with
  | none =>
    rw [List.head?_eq_none_iff.1 hh] at hn
    cases hn
  | some previous => exact ⟨previous, rfl⟩

section
variable (h : Tracks config recording)
include h

theorem head_of_unhealthy (he : recording.tracker.healthy = false) :
    ∃ l ∈ transitions recording.history, recording.tracker.cooldown = l.cooldown := by
  have hc := h.current.1
  have ho := h.cooldown
  cases hh : (transitions recording.history).head? with
  | none =>
    rw [hh, he] at hc
    cases hc
  | some l =>
    rw [hh] at ho
    exact ⟨l, mem_of_mem_head? hh, ho⟩

theorem cools (sound : config.Sound) (spans : config.Representable) (hnow : 0 ≤ now.toInt) :
    Cools config recording.history now (recording.tracker.nextCooldown config now) := by
  unfold Cools nextCooldown
  rw [h.recoveredAt]
  cases hf : recording.history.find? recovered with
  | none => rfl
  | some r =>
    have hr := h.times r (mem_of_find?_eq_some hf)
    have he : (now - r.now).toInt = now.toInt - r.now.toInt := by
      have ht := now.toInt_lt
      have hl := r.now.toInt_lt
      exact toInt_sub (by omega) (by omega)
    have hs := toInt_milliseconds sound.stable.le spans.stable
    have ha : now - r.now < TimePoint.milliseconds config.stableResetAfter ↔
        now.toInt - r.now.toInt < config.stableResetAfter.toInt * 1000000 := by
      rw [Int64.lt_iff_toInt_lt, he, hs]
    simp only [Option.map_some, ha]
    split
    · obtain ⟨prev, hp⟩ := head_of_recovery hf
      have hc := h.cooldown
      rw [hp, Option.elim_some] at hc
      have hm := (h.range prev (mem_of_mem_head? hp)).1
      rw [Int64.le_iff_toInt_le] at hm
      obtain ⟨_, _⟩ := backoff_range sound hm
      have hin := sound.initial
      have hma := config.maxCooldown.toInt_lt
      refine ⟨prev, hp, ?_⟩
      have hn : (0 : ℚ) ≤
          min (prev.cooldown.toInt * config.backoffFactor) (config.maxCooldown.toInt : ℚ) :=
        Int.floor_nonneg.1 (by omega)
      rw [hc, truncate_of_nonneg hn, Int64.toInt_ofInt_of_le (by omega) (by omega)]
    · rfl

theorem next_range (sound : config.Sound) {c : Int64} (hc : Cools config recording.history now c) :
    config.initialCooldown ≤ c ∧ c ≤ config.maxCooldown := by
  have hf : c = config.initialCooldown → config.initialCooldown ≤ c ∧ c ≤ config.maxCooldown := by
    intro he
    rw [he]
    exact ⟨Int64.le_refl _, Int64.le_iff_toInt_le.2 sound.max⟩
  unfold Cools at hc
  split at hc
  · split at hc
    · obtain ⟨p, hp, ho⟩ := hc
      have hm := (h.range p (mem_of_mem_head? hp)).1
      rw [Int64.le_iff_toInt_le] at hm
      rw [Int64.le_iff_toInt_le, Int64.le_iff_toInt_le, ho]
      exact backoff_range sound hm
    · exact hf hc
  · exact hf hc

theorem told_probes (sound : config.Sound) (event : Event) :
    (recording.tracker.told event).probeWindow.Shows
    (Health.probes (event :: since tripped recording.history)) ∧
    (recording.tracker.told event).probeWindow.capacity = config.healthWindowSize := by
  unfold told Health.probes
  cases hp : event.probe? with
  | none =>
    rw [filterMap_cons_none hp]
    exact ⟨h.probes, h.capacity⟩
  | some healthy =>
    have ho : 0 < recording.tracker.probeWindow.capacity.toNat := by
      rw [h.capacity]
      exact sound.windowSize
    rw [filterMap_cons_some hp]
    obtain ⟨hs, hc⟩ := h.probes.record ho healthy
    exact ⟨hs, hc.trans h.capacity⟩

end

theorem toInt_window (sound : config.Sound) (spans : config.Representable) :
    (TimePoint.milliseconds (config.passiveWindow * 1000)).toInt = config.span := by
  have hp := sound.passiveWindow
  have hw := spans.window
  have hs : (config.passiveWindow * 1000).toInt = config.passiveWindow.toInt * 1000 := by
    rw [Int64.toInt_mul]
    exact Int.bmod_eq_of_le (by simp; omega) (by simp; omega)
  rw [toInt_milliseconds (by omega) (by omega), hs]
  unfold StoreHealthConfig.span
  omega

section
variable (h : Tracks config recording)
include h

theorem told_passive (sound : config.Sound) (spans : config.Representable)
    (hnow : 0 ≤ event.now.toInt) :
    (recording.tracker.told event).passiveWindow.Shows config.span (event :: recording.history)
        (event :: since Event.recovered recording.history) ∧
      (recording.tracker.told event).passiveWindow.window = config.passiveWindow * 1000 := by
  have hc := (PassiveIoWindow.count_frame event recording.tracker.passiveWindow).1
  unfold HealthTracker.told
  cases ha : event.call with
  | samplePassiveWindow now =>
    have hsa : event.isSample = true := by
      unfold Event.isSample
      rw [ha]
    have ht : event.now = now := by
      rw [Event.now, ha]
      rfl
    subst ht
    constructor
    · apply h.passive.sample hsa
      have hl := event.now.toInt_lt
      have hp := sound.passiveWindow
      have hs := toInt_window sound spans
      have hw := spans.window
      rw [h.window, toInt_sub (by rw [hs]; unfold StoreHealthConfig.span; omega)
        (by rw [hs]; unfold StoreHealthConfig.span; omega), hs]
      omega
    · exact (PassiveIoWindow.expire_frame _ _ _).trans h.window
  | _ => exact ⟨h.passive.push event, hc.trans h.window⟩

theorem times_cons (hnow : 0 ≤ event.now.toInt) :
    ∀ o ∈ event :: recording.history, 0 ≤ o.now.toInt := by
  intro o hm
  obtain he | ho := mem_cons.1 hm
  · rwa [he]
  · exact h.times o ho

section
variable (sound : config.Sound) (spans : config.Representable) (hnow : Reading config event.now)
include sound spans hnow

theorem stays (ho : event.outcome = none) :
    Tracks config ⟨recording.tracker.told event, event :: recording.history⟩ := by
  have ht : event.tripped = false := by rw [tripped, ho]; rfl
  have hr : event.recovered = false := by rw [recovered, ho]; rfl
  have hm := transitions_cons_none ho recording.history
  have hp := h.told_probes sound event
  have ha := h.told_passive sound spans hnow.1
  exact {
    alternates := by rw [hm]; exact h.alternates
    current := by rw [hm]; exact h.current
    capacity := hp.2
    probes := by rw [since_cons_of_neg ht]; exact hp.1
    window := ha.2
    passive := by rw [since_cons_of_neg hr]; exact ha.1
    cooldown := by rw [hm]; exact h.cooldown
    range := by rw [hm]; exact h.range
    recoveredAt := by rw [List.find?_cons_of_neg (by simp [hr])]; exact h.recoveredAt
    trip := by
      intro hu
      obtain ⟨r, trip, older, hh, htr, hqu, hf⟩ := h.trip hu
      refine ⟨event :: r, trip, older, by rw [hh]; rfl, htr, ?_, hf⟩
      exact forall_mem_cons.2 ⟨ho, hqu⟩
    quiet := by
      intro he
      rw [since_cons_of_neg hr]
      exact forall_mem_cons.2 ⟨ho, h.quiet he⟩
    times := h.times_cons hnow.1 }

theorem trips (hh : recording.tracker.healthy = true) (ho : event.outcome =
      some ((recording.tracker.told event).toUnhealthy config source event.now).2) :
    Tracks config ⟨((recording.tracker.told event).toUnhealthy config source event.now).1,
      event :: recording.history⟩ := by
  have htr : event.tripped = true := by rw [tripped, ho]; rfl
  have he : event.recovered = false := by rw [recovered, ho]; rfl
  have hm := transitions_cons_some ho recording.history
  have hp := h.told_passive sound spans hnow.1
  have hr := h.next_range sound (h.cools sound spans hnow.1)
  exact {
    alternates := by
      rw [hm]
      apply h.alternates.cons
      · rw [← h.current.1, hh]
        rfl
      · rw [← h.current.2]
        rfl
    current := by rw [hm]; exact ⟨rfl, rfl⟩
    capacity := (h.told_probes sound event).2
    probes := by rw [since_cons_of_pos htr]; exact .clear _
    window := hp.2
    passive := by rw [since_cons_of_neg he]; exact hp.1
    cooldown := by rw [hm]; rfl
    range := by rw [hm]; exact forall_mem_cons.2 ⟨hr, h.range⟩
    recoveredAt := by rw [List.find?_cons_of_neg (by simp [he])]; exact h.recoveredAt
    trip := by
      intro _
      refine ⟨[], event, recording.history, rfl, htr, by simp, ?_⟩
      -- the cooldown is at most the maximum, and the reading leaves room for that
      have hl := Int64.le_iff_toInt_le.1 hr.1
      have hhi := Int64.le_iff_toInt_le.1 hr.2
      have hn := sound.initial
      obtain ⟨_, _⟩ := hnow
      have hs : (TimePoint.milliseconds (recording.tracker.nextCooldown config event.now)).toInt =
          (recording.tracker.nextCooldown config event.now).toInt * 1000000 :=
        toInt_milliseconds (by omega) (by omega)
      change (event.now + TimePoint.milliseconds
        (recording.tracker.nextCooldown config event.now)).toInt = _
      rw [toInt_add (by omega) (by omega), hs]
      rfl
    quiet := by
      intro hf
      cases hf
    times := h.times_cons hnow.1 }

theorem recovers (hh : recording.tracker.healthy = false)
    (ho : event.outcome = some ((recording.tracker.told event).toHealthy event.now).2) :
    Tracks config ⟨((recording.tracker.told event).toHealthy event.now).1,
      event :: recording.history⟩ := by
  have ht : event.tripped = false := by rw [tripped, ho]; rfl
  have hr : event.recovered = true := by rw [recovered, ho]; rfl
  have hm := transitions_cons_some ho recording.history
  have hp := h.told_probes sound event
  have ha := h.told_passive sound spans hnow.1
  exact {
    alternates := by
      rw [hm]
      apply h.alternates.cons
      · rw [← h.current.1, hh]
        rfl
      · rw [← h.current.2]
        rfl
    current := by rw [hm]; exact ⟨rfl, rfl⟩
    capacity := hp.2
    probes := by rw [since_cons_of_neg ht]; exact hp.1
    window := ha.2
    passive := by rw [since_cons_of_pos hr]; exact .reset _ _ _
    cooldown := by rw [hm]; rfl
    range := by
      obtain ⟨l, hla, hc⟩ := h.head_of_unhealthy hh
      rw [hm]
      refine forall_mem_cons.2 ⟨?_, h.range⟩
      change config.initialCooldown ≤ recording.tracker.cooldown ∧
        recording.tracker.cooldown ≤ config.maxCooldown
      rw [hc]
      exact h.range l hla
    recoveredAt := by rw [List.find?_cons_of_pos hr]; rfl
    trip := by
      intro hf
      cases hf
    quiet := by
      intro _
      rw [since_cons_of_pos hr]
      simp
    times := h.times_cons hnow.1 }

theorem of_ends {r : HealthTracker × Option HealthTransition}
    (he : recording.tracker.Ends config event r) (ho : event.outcome = r.2) :
    Tracks config ⟨r.1, event :: recording.history⟩ := by
  cases he with
  | stays => exact h.stays sound spans hnow ho
  | probeTrips _ hh | ioTrips hh => exact h.trips sound spans hnow hh ho
  | recovers _ hh => exact h.recovers sound spans hnow hh ho

end
end
end Tracks

variable {calls : List Call} {call : Call}

@[simp] theorem history_calls (config : StoreHealthConfig) (calls : List Call) :
    (after config calls).history.map Event.call = calls.reverse := by
  apply Transition.run_invariant (I := fun (calls : List Call) (recording : Recording) =>
    recording.history.map Event.call = calls.reverse)
  · rfl
  · intro calls recording call h
    rw [record_history, map_cons, h, reverse_append]
    rfl

theorem Recording.event_ends (config : StoreHealthConfig) (recording : Recording) (call : Call) :
    recording.tracker.Ends config (recording.event config call)
    (recording.tracker.handle config call) :=
  handle_ends config recording.tracker (recording.event config call) rfl rfl

theorem Tracks.record (h : Tracks config recording) (sound : config.Sound)
    (spans : config.Representable) (hnow : Reading config call.now) :
    Tracks config (record config recording call) := by
  have hr : Reading config (recording.event config call).now := hnow
  exact h.of_ends sound spans hr (recording.event_ends config call) rfl

theorem Horizon.reading (h : Horizon config calls) (hm : call ∈ calls) : Reading config call.now :=
  ⟨h.start call hm, h.cooldown call hm⟩

theorem after_tracks (sound : config.Sound) (ho : Horizon config calls) :
    Tracks config (after config calls) := by
  have spans : config.Representable := ⟨ho.stable, ho.window⟩
  have hu : (∀ call ∈ calls, Reading config call.now) → Tracks config (after config calls) := by
    apply Transition.run_invariant (I := fun (calls : List Call) recording =>
      (∀ call ∈ calls, Reading config call.now) → Tracks config recording)
    · intro _
      exact .start config
    · intro calls recording call ih hr
      have h := ih fun o ht => hr o (mem_append_left _ ht)
      exact h.record sound spans (hr call (by simp))
  exact hu fun call hm => ho.reading hm

theorem count_probes_le {r history : List Event} (h : r <+: history) (s : Nat) :
    ((probes r).take s).count false ≤ ((probes history).take s).count false := by
  obtain ⟨o, holder⟩ := h
  unfold probes
  rw [← holder, filterMap_append, take_append]
  exact (sublist_append_left _ _).count_le _

namespace Tracks

section
variable (h : Tracks config recording) (sound : config.Sound)
include h sound

theorem probe_failures
    (hf : config.failureThreshold ≤ (recording.tracker.told event).probeWindow.failures) :
    config.failureThreshold.toNat ≤
      ((Health.probes (event :: recording.history)).take config.healthWindowSize.toNat).count
        false := by
  obtain ⟨hs, ha⟩ := h.told_probes sound event
  have hc := hs.toNat_failures
  rw [ha] at hc
  have hl := UInt64.le_iff_toNat_le.1 hf
  rw [hc] at hl
  apply hl.trans
  apply count_probes_le
  exact (prefix_cons_inj event).2 ( takeWhile_prefix _)

theorem io_failures (spans : config.Representable) (hnow : 0 ≤ event.now.toInt)
    (hla : ∀ o ∈ recording.history, o.now.toInt ≤ event.now.toInt) (hio : event.io? = some false)
    (hf : config.passiveFailureThreshold ≤
      (recording.tracker.told event).passiveWindow.getStats.failures) :
    ∃ r older, since recovered recording.history = r ++ older ∧
      (∀ s re, older = s :: re → s.isSample = true ∧
        s.now.toInt + config.span ≤ event.now.toInt) ∧
      config.passiveFailureThreshold.toNat ≤ (ios (event :: r)).count false := by
  obtain ⟨hh, -⟩ := h.told_passive sound spans hnow
  obtain ⟨r, older, hp, hm, hg⟩ := hh.baseline
  have hc : config.passiveFailureThreshold.toNat ≤ (ios r).count false := by
    have hl := UInt64.le_iff_toNat_le.1 hf
    unfold getStats at hl
    rw [hm.2, UInt64.toNat_ofNat'] at hl
    exact hl.trans (Nat.mod_le _ _)
  cases r with
  | nil =>
    -- the window does not start behind the failure itself, which is no sample
    obtain ⟨hs, -⟩ := hg event _ hp.symm
    unfold isSample at hs
    unfold io? at hio
    split at hs
    · rename_i hca
      rw [hca] at hio
      cases hio
    · cases hs
  | cons _ r =>
    obtain ⟨hfs, hr⟩ := cons_eq_cons.1 hp
    subst hfs
    refine ⟨r, older, hr, ?_, hc⟩
    intro s re hsp
    obtain ⟨hs, later, ha, ht⟩ := hg s re hsp
    refine ⟨hs, ht.trans ?_⟩
    obtain he | ho := mem_cons.1 ha
    · rw [he]
    · exact hla later ho

theorem lawful (spans : config.Representable) (hnow : Reading config call.now)
    (hla : ∀ event ∈ recording.history, event.now.toInt ≤ call.now.toInt) :
    Lawful config recording call := by
  have hn : Tracks config (Health.record config recording call) := h.record sound spans hnow
  have he := recording.event_ends config call
  exact {
    alternates := hn.alternates
    current := hn.current
    range := hn.range
    stale := by
      intro g ha hs
      cases call with
      | recordProbe =>
        cases ha
        exact if_pos hs
      | recordIo =>
        cases ha
        exact if_neg fun hr => hs hr.2.2
      | samplePassiveWindow => cases ha
    recovers := by
      intro t ho hhe
      have ht : (recording.event config call).tripped = false := by
        change ((recording.tracker.handle config call).2.any fun t =>
          !t.healthy) = false
        rw [ho, Option.any_some, hhe]
        rfl
      rw [record_history, since_cons_of_neg ht]
      generalize recording.tracker.handle config call = result at he ho
      cases he with
      | stays => cases ho
      | recovers _ hu _ hfu hcl haf =>
        cases ho
        obtain ⟨hsh, hp⟩ := h.told_probes sound (recording.event config call)
        obtain ⟨hl, hal⟩ := hsh.all_of_full hfu hcl
        rw [hp] at hl hal
        obtain ⟨recent, trip, older, hh, htr, hqu, hti⟩ := h.trip hu
        refine ⟨rfl, hl, hal, recent, trip, older, hh, htr, hqu, ?_⟩
        change trip.now.toInt + recording.tracker.cooldown.toInt * 1000000 ≤ call.now.toInt
        rw [← hti]
        exact Int64.le_iff_toInt_le.1 haf
      | _ =>
        cases ho
        cases hhe
    trips := by
      intro t ho hhe
      rw [record_history]
      generalize recording.tracker.handle config call = result at he ho
      cases he with
      | stays => cases ho
      | recovers =>
        cases ho
        cases hhe
      | probeTrips _ _ _ hf =>
        cases ho
        exact .inl ⟨rfl, h.probe_failures sound hf⟩
      | ioTrips hcu hio hf =>
        cases ho
        obtain ⟨recent, older, hpe, hsa, hc⟩ :=
          h.io_failures sound spans (by exact hnow.1) (by exact hla) hio hf
        exact .inr ⟨rfl, h.quiet hcu, _, recent, older, rfl, hpe, hsa, hc⟩
    cooldown := by
      intro t ho hhe
      have hco := h.cools sound spans hnow.1
      generalize recording.tracker.handle config call = result at he ho
      cases he with
      | stays => cases ho
      | recovers =>
        cases ho
        cases hhe
      | _ =>
        cases ho
        exact hco
    stats := by
      obtain ⟨recent, older, hpe, hmv, hag⟩ := hn.passive.baseline
      refine ⟨recent, older, hpe, hag, ?_⟩
      unfold getStats
      rw [hmv.1, hmv.2] }

end
end Tracks

/-- The breaker keeps its law at every call of a run whose clock does not go back. -/
theorem health_breaker (hvalid : config.validate.success = true)
    (horizon : Horizon config (calls ++ [call]))
    (hordered : ((calls ++ [call]).map Call.now).Pairwise (· ≤ ·)) :
    Lawful config (after config calls) call := by
  have sound := StoreHealthConfig.sound hvalid
  have hb : Horizon config calls :=
    { start := fun other ho => horizon.start other (mem_append_left _ ho)
      cooldown := fun other ho => horizon.cooldown other (mem_append_left _ ho)
      stable := horizon.stable
      window := horizon.window }
  apply (after_tracks sound hb).lawful sound ⟨horizon.stable, horizon.window⟩
    (horizon.reading (by simp))
  intro event he
  have hc : event.call ∈ calls := by
    have hm := mem_map_of_mem (f := Event.call) he
    rw [history_calls] at hm
    exact mem_reverse.1 hm
  rw [map_append, pairwise_append] at hordered
  have hl := hordered.2.2 event.now (mem_map_of_mem hc) call.now (by simp)
  exact Int64.le_iff_toInt_le.1 hl

def promptConfig : StoreHealthConfig where
  healthWindowSize := 1
  failureThreshold := 1
  initialCooldown := 5
  maxCooldown := 100
  backoffFactor := 3 / 2

def recoveryCalls : List Call :=
  [.recordProbe 0 (.Error "probe") 0, .recordProbe 1 .OK 5000000]

theorem health_breaker_prompt : Lawful promptConfig (after promptConfig recoveryCalls)
    (.recordProbe 2 (.Error "probe") 6000000) ∧
      transitions (after promptConfig recoveryCalls).history =
        [⟨true, .activeProbe, 5, 2⟩, ⟨false, .activeProbe, 5, 1⟩] := by
  refine ⟨health_breaker (by decide +kernel) ?_ (by decide +kernel), by decide +kernel⟩
  constructor <;> decide +kernel

def endlessConfig : StoreHealthConfig :=
  { promptConfig with initialCooldown := 0x7fffffffffffffff, maxCooldown := 0x7fffffffffffffff }

/-- The next trip backs off to 7.5 milliseconds, of which 7 are kept; and a cooldown of
2^63 - 1 milliseconds is over at once. -/
theorem cooldown_truncated : (promptConfig.validate.success = true ∧
      ((after promptConfig recoveryCalls).tracker.handle promptConfig
        (.recordProbe 2 (.Error "probe") 6000000)).2 = some ⟨false, .activeProbe, 7, 3⟩ ∧
      min (5 * promptConfig.backoffFactor) promptConfig.maxCooldown.toInt ≠ 7 ∧
      promptConfig.initialCooldown ≠ 7) ∧ endlessConfig.validate.success = true ∧
      transitions (after endlessConfig recoveryCalls).history =
        [⟨true, .activeProbe, 0x7fffffffffffffff, 2⟩,
          ⟨false, .activeProbe, 0x7fffffffffffffff, 1⟩] := by
  decide +kernel

end UnifiedCache.Health
