import UnifiedCache.Health.HealthTracker
import UnifiedCache.Lib.Transition

/-! The evidence of a breaker: what it was told, newest first, and what its two
windows hold of that. -/
namespace UnifiedCache.Health
open List HealthWindow PassiveIoWindow

structure Event where
  call : Call
  healthy : Bool
  generation : UInt64
  outcome : Option HealthTransition

namespace Event

def probe? (event : Event) : Option Bool :=
  match event.call with
  | .recordProbe generation result _ =>
    if generation = event.generation then some result.success else none
  | _ => none

def io? (event : Event) : Option Bool :=
  match event.call with
  | .recordIo generation result _ =>
    if shouldRecordResult result ∧ event.healthy ∧ generation = event.generation then
      some result.success
    else none
  | _ => none

def isSample (event : Event) : Bool :=
  match event.call with
  | .samplePassiveWindow _ => true
  | _ => false

def now (event : Event) : TimePoint := event.call.now

def tripped (event : Event) : Bool := event.outcome.any fun transition => !transition.healthy

def recovered (event : Event) : Bool := event.outcome.any fun transition => transition.healthy

end Event

structure Recording where
  tracker : HealthTracker
  history : List Event := []

def Recording.event (config : StoreHealthConfig) (recording : Recording) (call : Call) : Event where
  call := call
  healthy := recording.tracker.healthy
  generation := recording.tracker.generation
  outcome := (recording.tracker.handle config call).2

def record (config : StoreHealthConfig) (recording : Recording) (call : Call) : Recording where
  tracker := (recording.tracker.handle config call).1
  history := recording.event config call :: recording.history

@[simp] theorem record_history (config : StoreHealthConfig) (recording : Recording) (call : Call) :
    (record config recording call).history = recording.event config call :: recording.history :=
  rfl

def after (config : StoreHealthConfig) (calls : List Call) : Recording :=
  Transition.run (record config) ⟨.create config, []⟩ calls

def probes (history : List Event) : List Bool := history.filterMap Event.probe?

def ios (history : List Event) : List Bool := history.filterMap Event.io?

def transitions (history : List Event) : List HealthTransition := history.filterMap Event.outcome

def since (kind : Event → Bool) (history : List Event) : List Event :=
  history.takeWhile fun event => !kind event

variable {kind : Event → Bool}

theorem since_cons_of_pos {event : Event} (h : kind event = true) (history : List Event) :
    since kind (event :: history) = [] := by
  simp [since, h]

theorem since_cons_of_neg {event : Event} (h : kind event = false) (history : List Event) :
    since kind (event :: history) = event :: since kind history := by
  simp [since, h]

structure HealthWindow.Shows (window : HealthWindow) (told : List Bool) : Prop where
  results : window.results = (told.take window.capacity.toNat).reverse
  failures : window.failures = UInt64.ofNat ((told.take window.capacity.toNat).count false)

namespace HealthWindow.Shows
variable {window : HealthWindow} {told : List Bool}

theorem start (capacity : UInt64) : Shows { capacity } [] := by
  constructor <;> simp

theorem clear (window : HealthWindow) : Shows window.clear [] := by
  constructor <;> simp [HealthWindow.clear]

section
variable (h : Shows window told) (hpos : 0 < window.capacity.toNat)
include h hpos

theorem evict : window.evict.results = (told.take (window.capacity.toNat - 1)).reverse ∧
    window.evict.failures = UInt64.ofNat ((told.take (window.capacity.toNat - 1)).count false) ∧
    window.evict.capacity = window.capacity := by
  obtain ⟨size, hs⟩ : ∃ size, window.capacity.toNat = size + 1 :=
    ⟨window.capacity.toNat - 1, by omega⟩
  have hr := h.results
  have hf := h.failures
  rw [hs] at hr hf
  rw [hs, Nat.add_sub_cancel]
  unfold HealthWindow.evict
  rw [hs, hr]
  by_cases hu : size < told.length
  · -- the oldest of the latest results leaves
    have hp : told.take (size + 1) = told.take size ++ [told[size]] := by
      rw [take_succ_eq_append_getElem hu]
    rw [hp, reverse_append, if_pos (by simp; omega)]
    simp only [reverse_singleton, singleton_append]
    refine ⟨trivial, ?_, trivial⟩
    rw [hf, hp, count_append]
    cases hb : told[size]
    · rw [if_neg (by simp), count_singleton_self, UInt64.ofNat_add]
      exact UInt64.add_sub_cancel _ _
    · simp
  have ha : told.take (size + 1) = told.take size := by
    rw [take_of_length_le (by omega), take_of_length_le (by omega)]
  rw [if_neg (by simp; omega)]
  refine ⟨?_, ?_, rfl⟩
  · rw [hr, ha]
  · rw [hf, ha]

theorem record (healthy : Bool) : Shows (window.record healthy) (healthy :: told) ∧
    (window.record healthy).capacity = window.capacity := by
  obtain ⟨hr, hf, hc⟩ := h.evict hpos
  obtain ⟨s, hs⟩ : ∃ s, window.capacity.toNat = s + 1 :=
    ⟨window.capacity.toNat - 1, by omega⟩
  rw [hs, Nat.add_sub_cancel] at hr hf
  refine ⟨⟨?_, ?_⟩, hc⟩
  · unfold HealthWindow.record
    rw [hc, hs, hr, take_succ_cons, reverse_cons]
  unfold HealthWindow.record
  rw [hc, hs, hf, take_succ_cons, count_cons]
  cases healthy
  · rw [if_neg (by simp), if_pos (by simp), UInt64.ofNat_add]
    rfl
  · rw [if_pos rfl, if_neg (by simp), Nat.add_zero]

end

theorem count_lt (_ : Shows window told) :
    (told.take window.capacity.toNat).count false < 2 ^ 64 := by
  have hc : (told.take window.capacity.toNat).count false ≤ window.capacity.toNat :=
    count_le_length.trans (by simp)
  have ha := window.capacity.toNat_lt
  omega

theorem toNat_failures (h : Shows window told) :
    window.failures.toNat = (told.take window.capacity.toNat).count false := by
  rw [h.failures, UInt64.toNat_ofNat', Nat.mod_eq_of_lt h.count_lt]

theorem all_of_full (h : Shows window told) (hf : window.full = true) (hn : window.failures = 0) :
    window.capacity.toNat ≤ told.length ∧
      ∀ healthy ∈ told.take window.capacity.toNat, healthy = true := by
  unfold full at hf
  rw [h.results, beq_iff_eq, length_reverse, length_take] at hf
  refine ⟨by omega, ?_⟩
  intro healthy hm
  cases healthy with
  | true => rfl
  | false =>
    have hc := h.toNat_failures
    rw [hn] at hc
    exact absurd hm (List.count_eq_zero.1 hc.symm)

end HealthWindow.Shows

def PassiveIoWindow.Moved (window : PassiveIoWindow) (successes failures : UInt64)
    (results : List Bool) : Prop :=
  window.totalSuccess - successes = UInt64.ofNat (results.count true) ∧
    window.totalFailure - failures = UInt64.ofNat (results.count false)

/-- What lies before the start of the window: nothing of the period, or it begins with
a sample that is at least `span` nanoseconds older than some later event. -/
def Aged (span : Int) (history older : List Event) : Prop :=
  ∀ sample rest, older = sample :: rest → sample.isSample = true ∧
    ∃ later ∈ history, sample.now.toInt + span ≤ later.now.toInt

theorem Aged.cons {span : Int} {history older : List Event} (h : Aged span history older)
    (event : Event) : Aged span (event :: history) older := by
  intro s r hs
  obtain ⟨ha, later, hl, ht⟩ := h s r hs
  exact ⟨ha, later, mem_cons_of_mem _ hl, ht⟩

structure PassiveIoWindow.Shows (window : PassiveIoWindow) (span : Int)
    (history period : List Event) : Prop where
  baseline : ∃ recent older, period = recent ++ older ∧
    window.Moved window.windowStartSuccess window.windowFailure (ios recent) ∧
      Aged span history older
  snapshots : ∀ snapshot ∈ window.snapshots, ∃ recent sample older,
    period = recent ++ sample :: older ∧ sample.isSample = true ∧ sample.now = snapshot.time ∧
      window.Moved snapshot.successes snapshot.failures (ios recent)

namespace PassiveIoWindow
variable {window : PassiveIoWindow} {span : Int} {hist period : List Event} {event : Event}

def count (event : Event) (window : PassiveIoWindow) : PassiveIoWindow :=
  match event.io? with
  | some success => window.record success
  | none => window

theorem count_frame (event : Event) (window : PassiveIoWindow) :
    (window.count event).window = window.window ∧
      (window.count event).windowStartSuccess = window.windowStartSuccess ∧
      (window.count event).windowFailure = window.windowFailure ∧
      (window.count event).snapshots = window.snapshots := by
  unfold count record
  split
  · split <;> exact ⟨rfl, rfl, rfl, rfl⟩
  · exact ⟨rfl, rfl, rfl, rfl⟩

private theorem succ_sub (t s : UInt64) (c : Nat)
    (h : t - s = UInt64.ofNat c) : t + 1 - s = UInt64.ofNat (c + 1) := by
  rw [UInt64.ofNat_add, ← h, UInt64.sub_eq_add_neg, UInt64.sub_eq_add_neg, UInt64.add_assoc,
    UInt64.add_comm 1, ← UInt64.add_assoc]
  rfl

theorem Moved.count {submits failures : UInt64} {rest : List Event}
    (h : window.Moved submits failures (ios rest)) (event : Event) :
    (window.count event).Moved submits failures (ios (event :: rest)) := by
  unfold PassiveIoWindow.count ios
  cases ho : event.io? with
  | none =>
    rw [filterMap_cons_none ho]
    exact h
  | some su =>
    rw [filterMap_cons_some ho]
    cases su with
    | true =>
      exact ⟨by simpa [record, ios] using succ_sub _ _ _ h.1, by simpa [record, ios] using h.2⟩
    | false =>
      exact ⟨by simpa [record, ios] using h.1, by simpa [record, ios] using succ_sub _ _ _ h.2⟩

namespace Shows

theorem push (h : Shows window span hist period) (event : Event) :
    Shows (window.count event) span (event :: hist) (event :: period) := by
  obtain ⟨-, hs, hf, hn⟩ := count_frame event window
  constructor
  · obtain ⟨r, older, hp, hv, ha⟩ := h.baseline
    refine ⟨event :: r, older, by rw [hp]; rfl, ?_, ha.cons event⟩
    rw [hs, hf]
    exact hv.count event
  rw [hn]
  intro s hm
  obtain ⟨r, sample, older, hp, hsa, ht, hv⟩ := h.snapshots s hm
  exact ⟨event :: r, sample, older, by rw [hp]; rfl, hsa, ht, hv.count event⟩

theorem moved_nil (window : PassiveIoWindow) :
    window.Moved window.totalSuccess window.totalFailure (ios []) := by
  constructor <;> simp [ios]

theorem reset (window : PassiveIoWindow) (span : Int) (hist : List Event) :
    Shows window.reset span hist [] where
  baseline := ⟨[], [], rfl, moved_nil window, fun _ _ h => by cases h⟩
  snapshots := by simp [PassiveIoWindow.reset]

theorem expire {snapshots : List Snapshot} {c : TimePoint}
    (hc : ∃ later ∈ hist, c.toInt + span ≤ later.now.toInt)
    (h : Shows { window with snapshots } span hist period) :
    Shows (window.expire c snapshots) span hist period := by
  induction snapshots generalizing window with
  | nil => exact h
  | cons s _ ih =>
    unfold expire
    split
    · rename_i ho
      apply ih
      obtain ⟨r, sample, older, hp, hs, ht, hm⟩ :=
        h.snapshots s mem_cons_self
      refine ⟨⟨r, sample :: older, hp, hm, ?_⟩, ?_⟩
      · intro o ot hsp
        cases hsp
        obtain ⟨later, hl, _⟩ := hc
        refine ⟨hs, later, hl, ?_⟩
        have he : s.time.toInt ≤ c.toInt := Int64.le_iff_toInt_le.1 ho
        rw [ht]
        omega
      · intro o hot
        exact h.snapshots o (mem_cons_of_mem _ hot)
    · exact h

theorem sample (h : Shows window span hist period) (hs : event.isSample = true)
    (hu : (event.now - TimePoint.milliseconds window.window).toInt + span ≤ event.now.toInt) :
    Shows (window.updateWindowStart event.now) span (event :: hist) (event :: period) := by
  have hio : event.io? = none := by
    unfold Event.isSample at hs
    unfold Event.io?
    split at hs
    · rename_i ha
      rw [ha]
    · cases hs
  have hp := h.push event
  have hc : window.count event = window := by
    unfold count
    rw [hio]
  rw [hc] at hp
  apply expire ⟨event, mem_cons_self, hu⟩
  refine ⟨hp.baseline, ?_⟩
  intro s hm
  obtain ho | hn := mem_append.1 hm
  · exact hp.snapshots s ho
  · cases mem_singleton.1 hn
    exact ⟨[], event, period, rfl, hs, rfl, moved_nil window⟩

end Shows

@[simp] theorem expire_frame (c : TimePoint) (s : List Snapshot) (window : PassiveIoWindow) :
    (window.expire c s).window = window.window := by
  induction s generalizing window with
  | nil => rfl
  | cons _ _ ih =>
    unfold expire
    split
    · exact ih _
    · rfl

end PassiveIoWindow
end UnifiedCache.Health
