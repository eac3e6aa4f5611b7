import UnifiedCache.Lib.Replay
import UnifiedCache.Lib.Scatter
import UnifiedCache.Posix.TransManager

/-! The buffers of a load are quiet after `Wait`, as long as no time-out opens the latch of a
unit that may still read. -/
namespace UnifiedCache.Posix.TransManager
open List Transition Scatter Attempt Manager

namespace Attempt
variable {engine : IoEngine} {attempt next : Attempt} {late granted : Bool} {result : Status}

/-- A unit that will not read any more. The asynchronous engine keeps the mark of a failure, so
that the unit is stopped when it reads the failure set. -/
def spent (engine : IoEngine) (attempt : Attempt) : Bool :=
  match engine, attempt.stage with
  | _, .finishing _ => true
  | _, .leaving => true
  | _, .gone => true
  | _, .reading _ => false
  | _, .checked => false
  | .aio, _ => attempt.failed
  | .psync, _ => false

structure Sound (engine : IoEngine) (attempt : Attempt) : Prop where
  spent : attempt.latch = false → attempt.spent engine = true
  epilog : attempt.latch = true ↔ attempt.epilog = .unset

structure Keeps (attempt next : Attempt) : Prop where
  request : next.request = attempt.request
  ended : next.epilog = .over ↔ attempt.epilog = .over

theorem isReading_of_spent (h : attempt.spent engine = true) : attempt.isReading = false := by
  unfold isReading
  split
  · rename_i hs
    unfold spent at h
    rw [hs] at h
    cases engine <;> cases h
  · rfl

section
variable (h : attempt.Sound engine)
include h

theorem Sound.done (hp : attempt.spent engine = true) : attempt.done.Sound engine := by
  refine ⟨fun _ => hp, ?_⟩
  unfold Attempt.done
  cases hl : attempt.latch with
  | true => simp
  | false =>
    have hs := h.epilog
    rw [hl] at hs
    simpa using hs

theorem Keeps.done : attempt.Keeps attempt.done := by
  refine ⟨rfl, ?_⟩
  unfold Attempt.done
  cases hl : attempt.latch with
  | true =>
    have hu := h.epilog.1 hl
    simp [hu]
  | false => simp

theorem Sound.leave : attempt.leave.Sound engine := by
  refine ⟨fun _ => by cases engine <;> rfl, ?_⟩
  unfold Attempt.leave Attempt.done Attempt.goTo
  cases hl : attempt.latch with
  | true => simp
  | false =>
    have hs := h.epilog
    rw [hl] at hs
    simpa using hs

theorem Keeps.leave : attempt.Keeps attempt.leave :=
  ⟨rfl, (Keeps.done h).ended⟩

end

theorem Keeps.goTo (s : Stage) : attempt.Keeps (attempt.goTo s) := ⟨rfl, .rfl⟩

theorem Keeps.giveUp (s : Status) : attempt.Keeps (attempt.giveUp s) := ⟨rfl, .rfl⟩

theorem Sound.giveUp (h : attempt.Sound engine) (s : Status) : (attempt.giveUp s).Sound engine :=
  ⟨fun _ => by cases engine <;> rfl, h.epilog⟩

theorem Sound.goTo (h : attempt.Sound engine) {s : Stage} (hs : attempt.spent engine = true →
    (attempt.goTo s).spent engine = true) : (attempt.goTo s).Sound engine :=
  ⟨fun hl => hs (h.spent hl), h.epilog⟩

theorem Sound.workPsync (h : attempt.Sound .psync) (hn : attempt.workPsync late result = some next)
    : next.Sound .psync ∧ attempt.Keeps next := by
  unfold Attempt.workPsync at hn
  cases hs : attempt.stage <;> rw [hs] at hn
  case waiting =>
    dsimp only at hn
    split at hn
    · cases hn
      exact ⟨h.leave, .leave h⟩
    · cases hn
      exact ⟨h.goTo (by simp [Attempt.spent, hs]), .goTo _⟩
  case queued | opening =>
    cases hn
    exact ⟨h.goTo (by simp [Attempt.spent, hs]), .goTo _⟩
  case taken =>
    cases hn
    split
    · exact ⟨h.goTo (by simp [Attempt.spent, hs]), .goTo _⟩
    · split
      · exact ⟨h.giveUp _, .giveUp _⟩
      · exact ⟨h.goTo (by simp [Attempt.spent, hs]), .goTo _⟩
  case reading =>
    cases hn
    split
    · exact ⟨h.goTo (by simp [Attempt.spent, hs]), .goTo _⟩
    · split
      · exact ⟨h.goTo (by simp [Attempt.spent, hs]), .goTo _⟩
      · exact ⟨h.goTo (by simp [Attempt.spent, hs]), .goTo _⟩
  case finishing =>
    cases hn
    split
    · exact ⟨h.giveUp _, .giveUp _⟩
    · exact ⟨h.goTo fun _ => rfl, .goTo _⟩
  case leaving =>
    cases hn
    exact ⟨h.leave, .leave h⟩
  all_goals cases hn

theorem Sound.workAio (h : attempt.Sound .aio) (hn : attempt.workAio late result = some next) :
    next.Sound .aio ∧ attempt.Keeps next := by
  unfold Attempt.workAio at hn
  cases hs : attempt.stage <;> rw [hs] at hn
  case queued =>
    cases hn
    exact ⟨h.goTo (by simp [Attempt.spent, Attempt.goTo, hs]), .goTo _⟩
  case taken =>
    cases hn
    split
    · exact ⟨h.giveUp _, .giveUp _⟩
    · refine ⟨⟨fun hl => ?_, h.epilog⟩, rfl, .rfl⟩
      have hp := h.spent hl
      simpa [Attempt.spent, Attempt.goTo, hs] using hp
  case opening =>
    cases hn
    split
    · exact ⟨h.giveUp _, .giveUp _⟩
    · exact ⟨h.goTo (by simp [Attempt.spent, Attempt.goTo, hs]), .goTo _⟩
  case opened =>
    cases hn
    -- a spent unit is marked, and the mark stops it here
    refine ⟨h.goTo ?_, .goTo _⟩
    intro hp
    have hf : attempt.failed = true := by simpa [Attempt.spent, hs] using hp
    simp [Attempt.spent, Attempt.goTo, hf]
  case checked | reading =>
    cases hn
    split
    · exact ⟨h.giveUp _, .giveUp _⟩
    · exact ⟨h.goTo (by simp [Attempt.spent, hs]), .goTo _⟩
  case leaving =>
    cases hn
    exact ⟨h.leave, .leave h⟩
  all_goals cases hn

section
variable (h : attempt.Sound engine)
include h

theorem Sound.work (hn : attempt.work engine late result = some next) :
    next.Sound engine ∧ attempt.Keeps next := by
  cases engine with
  | psync => exact h.workPsync hn
  | aio => exact h.workAio hn

theorem Sound.failed (hs : next.stage = attempt.stage) (hl : next.latch = attempt.latch)
    (he : next.epilog = attempt.epilog) (hf : attempt.failed = true → next.failed = true) :
    next.Sound engine := by
  refine ⟨?_, by rw [hl, he]; exact h.epilog⟩
  intro ho
  rw [hl] at ho
  have hp := h.spent ho
  unfold Attempt.spent at hp ⊢
  rw [hs]
  cases engine <;> cases hpl : attempt.stage <;> simp_all

theorem Sound.monitor (hq : attempt.watch = .failed → attempt.spent engine = true)
    (hn : attempt.monitor = some next) : next.Sound engine ∧ attempt.Keeps next := by
  unfold Attempt.monitor at hn
  cases hw : attempt.watch <;> rw [hw] at hn
  case unseen =>
    dsimp only at hn
    split at hn
    · cases hn
      exact ⟨h.failed rfl rfl rfl fun hf => hf, rfl, .rfl⟩
    · cases hn
  case held =>
    cases hn
    exact ⟨h.failed rfl rfl rfl fun _ => rfl, rfl, .rfl⟩
  case failed =>
    cases hn
    have hd := h.done (hq hw)
    exact ⟨hd.failed rfl rfl rfl fun hf => hf, rfl, (Keeps.done h).ended⟩
  case released =>
    cases hn

theorem Sound.cancelTask (granted : Bool) :
    (attempt.cancelTask granted).Sound engine ∧ attempt.Keeps (attempt.cancelTask granted) := by
  unfold Attempt.cancelTask
  split
  · exact ⟨(h.giveUp _).leave, rfl, (Keeps.done (h.giveUp _)).ended⟩
  · exact ⟨h, rfl, .rfl⟩

theorem Sound.cancelQueued :
    attempt.cancelQueued.Sound engine ∧ attempt.Keeps attempt.cancelQueued := by
  unfold Attempt.cancelQueued
  split
  · exact ⟨(h.giveUp _).leave, rfl, (Keeps.done (h.giveUp _)).ended⟩
  · exact ⟨h, rfl, .rfl⟩

theorem Sound.sweepOne (hq : attempt.sweep = .purged → attempt.spent engine = true)
    (hn : attempt.sweepOne granted = some next) : next.Sound engine ∧ attempt.Keeps next := by
  unfold Attempt.sweepOne at hn
  cases hs : attempt.sweep <;> rw [hs] at hn
  case idle =>
    dsimp only at hn
    split at hn
    · cases hn
    · cases hn
      exact ⟨h.failed rfl rfl rfl fun hf => hf, rfl, .rfl⟩
  case marked =>
    cases hn
    exact ⟨h.failed rfl rfl rfl fun _ => rfl, rfl, .rfl⟩
  case inserted =>
    cases hn
    obtain ⟨ho, hk⟩ := h.cancelTask granted
    exact ⟨ho.failed rfl rfl rfl fun hf => hf, hk.request, hk.ended⟩
  case cancelled =>
    cases hn
    obtain ⟨ho, hk⟩ := h.cancelQueued
    exact ⟨ho.failed rfl rfl rfl fun hf => hf, hk.request, hk.ended⟩
  case purged =>
    cases hn
    have hd := h.done (hq hs)
    exact ⟨hd.failed rfl rfl rfl fun hf => hf, rfl, (Keeps.done h).ended⟩
  case aborted =>
    cases hn

theorem Sound.reclaim (ho : attempt.latch = false) : (attempt.reclaim engine).Sound engine := by
  have hs := h.spent ho
  cases engine with
  | psync =>
    refine ⟨fun _ => ?_, by simp [Attempt.reclaim, ho]⟩
    unfold Attempt.spent Attempt.reclaim at *
    cases hp : attempt.stage <;> simp_all
  | aio => exact ⟨fun _ => hs, by simp [Attempt.reclaim, ho]⟩

end
end Attempt

namespace Manager
variable {engine : IoEngine} {manager next : Manager} {label : Label} {index shard : Nat}
  {request : Request} {shardTask : ShardTask} {selection : Selection} {attempt changed : Attempt}

def isOpen (index : Nat) (attempt : Attempt) : Bool :=
  decide (attempt.request = index ∧ attempt.epilog ≠ .over)

/-- The books of a request: a closed latch for every shard that was not started and for every
attempt whose callback is still to come; `owed` of them are being worked on. -/
def Balanced (owed index : Nat) (request : Request) (manager : Manager) : Prop :=
  request.next ≤ request.shardTasks.length ∧
    request.counter = request.shardTasks.length - request.next +
      manager.attempts.countP (isOpen index) + owed

structure Sound (engine : IoEngine) (manager : Manager) : Prop where
  attempts : ∀ attempt ∈ manager.attempts, attempt.Sound engine ∧
    attempt.request < manager.requests.length
  balanced : ∀ index request, manager.requests[index]? = some request →
    manager.Balanced 0 index request
  returned : ∀ request ∈ manager.requests, request.returned.isSome = true → request.counter = 0

def orderly (engine : IoEngine) (manager : Manager) : Label → Bool
  | .monitor index => manager.attempts[index]?.all fun attempt =>
      attempt.watch ≠ .failed || attempt.spent engine
  | .sweep index _ => manager.attempts[index]?.all fun attempt =>
      attempt.sweep ≠ .purged || attempt.spent engine
  | _ => true

theorem countP_set {p : Nat} (ha : manager.attempts[p]? = some attempt) (hk : attempt.Keeps changed)
    (index : Nat) : (manager.attempts.set p changed).countP (isOpen index) = manager.attempts.countP
    (isOpen index) := by
  have hs : isOpen index changed = isOpen index attempt := by
    unfold isOpen
    rw [hk.request]
    simp [hk.ended]
  obtain ⟨hl, hg⟩ := List.getElem?_eq_some_iff.1 ha
  have he : (if isOpen index attempt then 1 else 0) ≤ manager.attempts.countP (isOpen index) := by
    split
    · rename_i ho
      exact countP_pos_iff.2 ⟨attempt, mem_of_getElem? ha, ho⟩
    · exact Nat.zero_le _
  rw [List.countP_set hl, hg, hs, Nat.sub_add_cancel he]

theorem Sound.setAttempt (h : manager.Sound engine) (ha : manager.attempts[index]? = some attempt)
    (hs : attempt.Sound engine → changed.Sound engine ∧ attempt.Keeps changed) :
    (manager.setAttempt index changed).Sound engine := by
  obtain ⟨ho, hl⟩ := h.attempts attempt (mem_of_getElem? ha)
  obtain ⟨hs, hk⟩ := hs ho
  refine ⟨?_, ?_, h.returned⟩
  · intro f hf
    obtain ho | hn := mem_or_eq_of_mem_set hf
    · exact h.attempts f ho
    rw [hn]
    refine ⟨hs, ?_⟩
    rwa [hk.request]
  intro p request hr
  obtain ⟨hl, hc⟩ := h.balanced p request hr
  refine ⟨hl, ?_⟩
  unfold Manager.setAttempt
  rw [countP_set ha hk]
  exact hc

structure Working (engine : IoEngine) (index : Nat) (request : Request) (manager : Manager) :
    Prop where
  attempts : ∀ attempt ∈ manager.attempts, attempt.Sound engine ∧
    attempt.request < manager.requests.length
  others : ∀ other found, other ≠ index → manager.requests[other]? = some found →
    manager.Balanced 0 other found
  self : manager.Balanced 1 index request
  inside : index < manager.requests.length
  returned : ∀ found ∈ manager.requests, found.returned.isSome = true → found.counter = 0
  waited : request.returned.isSome = true → request.counter = 0

variable {after : Request}

section
variable (h : manager.Working engine index request)
include h

theorem Working.setRequest (he : manager.Balanced 0 index after)
    (hw : after.returned.isSome = true → after.counter = 0) :
    (manager.setRequest index after).Sound engine := by
  refine ⟨?_, ?_, ?_⟩
  · intro f hf
    obtain ⟨hso, hl⟩ := h.attempts f hf
    exact ⟨hso, by simpa [Manager.setRequest] using hl⟩
  · intro o f hf
    unfold Manager.setRequest at hf
    obtain ⟨rfl, rfl⟩ | ⟨hs, hf⟩ := of_getElem?_set hf
    · exact he
    · exact h.others o f (Ne.symm hs) hf
  intro f hf
  obtain ho | hn := mem_or_eq_of_mem_set hf
  · exact h.returned f ho
  · exact hn ▸ hw

theorem Working.finish :
    (manager.setRequest index (finish shard shardTask request)).Sound engine := by
  obtain ⟨hl, _⟩ := h.self
  apply h.setRequest
  · refine ⟨?_, ?_⟩
    · simpa [Manager.finish] using hl
    unfold Manager.finish
    dsimp only
    rw [length_set]
    omega
  · intro hr
    have hz := h.waited hr
    simp [Manager.finish, hz]

theorem Working.tryNextBackend
    (hn : manager.tryNextBackend engine index shard request shardTask selection = some next) :
    next.Sound engine := by
  unfold Manager.tryNextBackend at hn
  split at hn
  · cases hn
    exact h.finish
  cases selection with
  | refused =>
    dsimp only at hn
    split at hn
    · cases hn
    · cases hn
      exact h.finish
  | backend =>
    dsimp only at hn
    split at hn
    · cases hn
    cases hn
    refine ⟨?_, ?_, ?_⟩
    · intro f hf
      rw [length_set]
      obtain ho | he := mem_append.1 hf
      · exact h.attempts f ho
      rw [mem_singleton.1 he]
      refine ⟨⟨?_, by simp⟩, h.inside⟩
      intro hl
      cases hl
    · intro o f hf
      unfold Balanced
      rw [countP_append, countP_singleton]
      obtain ⟨rfl, rfl⟩ | ⟨hs, hf⟩ := of_getElem?_set hf
      · obtain ⟨hle, _⟩ := h.self
        simp only [length_set, isOpen, true_and, decide_true, if_true, ne_eq,
          reduceCtorEq, not_false_eq_true]
        exact ⟨hle, by omega⟩
      · have hb := h.others o f (Ne.symm hs) hf
        simpa [isOpen, hs, Balanced] using hb
    · intro f hf
      obtain ho | he := mem_or_eq_of_mem_set hf
      · exact h.returned f ho
      · exact he ▸ h.waited
  | _ =>
    cases hn
    exact h.finish

end

section
variable (h : manager.Sound engine)
include h

theorem Sound.working (hr : manager.requests[index]? = some request)
    (he : manager.Balanced 1 index after) (hw : after.returned.isSome = true → after.counter = 0) :
    manager.Working engine index after where
  attempts := h.attempts
  others o found _ := h.balanced o found
  self := he
  inside := (List.getElem?_eq_some_iff.1 hr).1
  returned := h.returned
  waited := hw

theorem Sound.start (hn : manager.perform engine (.start index selection) = some next) :
    next.Sound engine := by
  unfold perform at hn
  dsimp only at hn
  split at hn
  · rename_i request hr
    split at hn
    · rename_i hs
      have hl := (List.getElem?_eq_some_iff.1 hs).1
      obtain ⟨-, _⟩ := h.balanced index request hr
      have hw : manager.Working engine index { request with next := request.next + 1 } := by
        apply h.working hr
        · refine ⟨hl, ?_⟩
          dsimp only
          omega
        · exact h.returned request (mem_of_getElem? hr)
      exact hw.tryNextBackend hn
    · cases hn
  · cases hn

theorem Sound.callback (ha : manager.attempts[index]? = some attempt) (hd : attempt.epilog = .due)
    (hh : changed.Sound engine) (he : changed.request = attempt.request)
    (hv : changed.epilog = .over) (hr : manager.requests[attempt.request]? = some request) :
    (manager.setAttempt index changed).Working engine attempt.request request := by
  obtain ⟨ht, hg⟩ := List.getElem?_eq_some_iff.1 ha
  have hc : ∀ p, (manager.attempts.set index changed).countP (isOpen p) =
      manager.attempts.countP (isOpen p) - if attempt.request = p then 1 else 0 := by
    intro p
    rw [List.countP_set ht, hg]
    simp [isOpen, hv, hd]
  have hp : 0 < manager.attempts.countP (isOpen attempt.request) :=
    countP_pos_iff.2 ⟨attempt, mem_of_getElem? ha, by simp [isOpen, hd]⟩
  constructor
  · intro f hf
    obtain ho | hn := mem_or_eq_of_mem_set hf
    · exact h.attempts f ho
    · rw [hn, he]
      exact ⟨hh, (h.attempts attempt (mem_of_getElem? ha)).2⟩
  · intro o f hne hf
    obtain ⟨hl, hct⟩ := h.balanced o f hf
    refine ⟨hl, ?_⟩
    unfold Manager.setAttempt
    rw [hc, if_neg (Ne.symm hne)]
    exact hct
  · obtain ⟨hl, _⟩ := h.balanced attempt.request request hr
    refine ⟨hl, ?_⟩
    unfold Manager.setAttempt
    rw [hc, if_pos rfl]
    omega
  · exact (List.getElem?_eq_some_iff.1 hr).1
  · exact h.returned
  · exact h.returned request (mem_of_getElem? hr)

theorem Sound.complete (hn : manager.perform engine (.complete index selection) = some next) :
    next.Sound engine := by
  unfold perform at hn
  dsimp only at hn
  split at hn
  · rename_i attempt ha
    split at hn
    · rename_i hd
      split at hn
      · rename_i hr
        split at hn
        · have hs := (h.attempts attempt (mem_of_getElem? ha)).1
          have ho : attempt.latch = false := by
            have he := hs.epilog
            rw [hd] at he
            simpa using he
          have hw := h.callback ha hd (hs.reclaim ho)
            (by cases engine <;> rfl) (by cases engine <;> rfl) hr
          split at hn
          · exact hw.tryNextBackend hn
          · cases hn
            exact hw.finish
        · cases hn
      · cases hn
    · cases hn
  · cases hn

theorem Sound.submit (s : List (List Addr)) : ({ manager with requests := manager.requests ++
        [{ shardTasks := s.map fun addrs => { addrs }, counter := s.length }] } :
      Manager).Sound engine := by
  have hn : manager.attempts.countP (isOpen manager.requests.length) = 0 := by
    rw [countP_eq_zero]
    intro attempt ha
    have hl := (h.attempts attempt ha).2
    simp only [isOpen, decide_eq_true_eq, not_and]
    omega
  refine ⟨?_, ?_, ?_⟩
  · intro attempt ha
    obtain ⟨hs, hl⟩ := h.attempts attempt ha
    refine ⟨hs, ?_⟩
    rw [length_append]
    exact Nat.lt_add_right _ hl
  · intro index request hr
    by_cases hl : index < manager.requests.length
    · rw [List.getElem?_append_left hl] at hr
      exact h.balanced index request hr
    rw [List.getElem?_append_right (Nat.le_of_not_lt hl)] at hr
    obtain ⟨hz, hg⟩ := List.getElem?_eq_some_iff.1 hr
    have hd : index = manager.requests.length := by
      simp only [length_singleton] at hz
      omega
    subst hd
    simp only [Nat.sub_self, getElem_cons_zero] at hg
    rw [← hg]
    exact ⟨Nat.zero_le _, by simp [hn]⟩
  · intro request hr he
    obtain ho | hne := mem_append.1 hr
    · exact h.returned request ho he
    · rw [mem_singleton.1 hne] at he
      cases he

theorem Sound.wait (hn : manager.perform engine (.wait index) = some next) : next.Sound engine := by
  unfold perform at hn
  dsimp only at hn
  split at hn
  · rename_i request hr
    split at hn
    · rename_i hd
      cases hn
      refine ⟨?_, ?_, ?_⟩
      · intro attempt ha
        obtain ⟨hso, hin⟩ := h.attempts attempt ha
        exact ⟨hso, by simpa [setRequest] using hin⟩
      · intro o f hf
        unfold setRequest at hf
        obtain ⟨rfl, rfl⟩ | ⟨-, hf⟩ := of_getElem?_set hf
        · exact h.balanced index request hr
        · exact h.balanced o f hf
      intro f hf he
      obtain ho | hne := mem_or_eq_of_mem_set hf
      · exact h.returned f ho he
      · rw [hne]
        exact hd.2.1
    · cases hn
  · cases hn

theorem Sound.perform (ho : manager.orderly engine label = true)
    (hn : manager.perform engine label = some next) : next.Sound engine := by
  cases label with
  | submit s =>
    cases hn
    exact h.submit s
  | start => exact h.start hn
  | complete => exact h.complete hn
  | wait => exact h.wait hn
  | work =>
    unfold perform at hn
    dsimp only at hn
    split at hn
    · rename_i attempt ha
      obtain ⟨changed, hc, rfl⟩ := Option.map_eq_some_iff.1 hn
      exact h.setAttempt ha fun ho => ho.work hc
    · cases hn
  | monitor =>
    unfold perform at hn
    dsimp only at hn
    split at hn
    · rename_i attempt ha
      obtain ⟨changed, hc, rfl⟩ := Option.map_eq_some_iff.1 hn
      have hq : attempt.watch = .failed → attempt.spent .psync = true := by
        intro hw
        unfold orderly at ho
        simpa [ha, hw] using ho
      exact h.setAttempt ha fun ho => ho.monitor hq hc
    · cases hn
  | sweep =>
    unfold perform at hn
    dsimp only at hn
    split at hn
    · rename_i attempt ha
      obtain ⟨changed, hc, rfl⟩ := Option.map_eq_some_iff.1 hn
      have hq : attempt.sweep = .purged → attempt.spent .aio = true := by
        intro hsw
        unfold orderly at ho
        simpa [ha, hsw] using ho
      exact h.setAttempt ha fun ho => ho.sweepOne hq hc
    · cases hn

end

/-- Once `Wait` has returned, no read of the request is outstanding or comes later, in every run
in which a time-out opens a latch only for a unit that will not read any more. -/
theorem quiet_after_wait (h : Transition.Reachable ((system engine).restrict fun manager label _ =>
      manager.orderly engine label = true) manager)
    (hrequest : manager.requests[index]? = some request) (hreturned : request.returned.isSome =
    true) (hattempt : attempt ∈ manager.attempts) (hself : attempt.request = index) :
    attempt.isReading = false := by
  have ho : manager.Sound engine := by
    apply Transition.Reachable.invariant (I := fun manager => manager.Sound engine) _ _ h
    · rintro manager rfl
      refine ⟨?_, ?_, ?_⟩
      · intro attempt hattempt
        cases hattempt
      · intro index request hrequest
        cases hrequest
      · intro request hrequest
        cases hrequest
    · rintro manager label next - ho ⟨hs, hr⟩
      exact ho.perform hr hs
  have hz := ho.returned request (mem_of_getElem? hrequest) hreturned
  have ht := (ho.balanced index request hrequest).2
  have hn : manager.attempts.countP (isOpen index) = 0 := by omega
  have hc := countP_eq_zero.1 hn attempt hattempt
  have ha := (ho.attempts attempt hattempt).1
  -- the callback is over, so the latch is open and the unit is spent
  have hv : attempt.epilog = .over := by simpa [isOpen, hself] using hc
  have hp : attempt.latch = false := by
    have he := ha.epilog
    rw [hv] at he
    simpa using he
  exact isReading_of_spent (ha.spent hp)

def steps (attempt number : Nat) : List Label := List.replicate number (.work attempt false .OK)

def begin : List Label := [.submit [[0]], .start 0 (.backend 0)]

def retryingRun : List Label :=
  begin ++ steps 0 2 ++ [.work 0 false (.Error ""), .work 0 false .OK, .complete 0 (.backend 1)] ++
    steps 1 7 ++ [.complete 1 .late, .wait 0]

def summary (manager : Manager) : Option Bool × List Bool :=
  (manager.requests[0]?.map fun request => request.returned.isSome,
    manager.attempts.map Attempt.isReading)

theorem quiet_after_wait_retrying : ∃ manager request attempt,
    Transition.Reachable ((system .aio).restrict fun manager label _ =>
      manager.orderly .aio label = true) manager ∧ manager.requests[0]? = some request ∧
    request.returned.isSome = true ∧ attempt ∈ manager.attempts ∧ attempt.request = 0 ∧
    attempt.isReading = false := by
  have hu : ((replay (perform .aio) (orderly .aio) {} retryingRun).map fun manager =>
      (manager.requests[0]?.map fun request => request.returned.isSome,
        manager.attempts[1]?.map request)) = some (some true, some 0) := by decide +kernel
  obtain ⟨manager, hm, hf⟩ := Option.map_eq_some_iff.1 hu
  obtain ⟨hq, ht⟩ := Prod.mk.inj hf
  obtain ⟨request, hrq, hre⟩ := Option.map_eq_some_iff.1 hq
  obtain ⟨attempt, ha, he⟩ := Option.map_eq_some_iff.1 ht
  have hr : Transition.Reachable ((system .aio).restrict fun manager label _ =>
      manager.orderly .aio label = true) manager :=
    reachable_of_replay (fun _ _ _ hs => hs) (fun _ _ _ hc => hc) (.start rfl) hm
  have hn := mem_of_getElem? ha
  exact ⟨manager, request, attempt, hr, hrq, hre, hn, he, quiet_after_wait hr hrq hre hn he⟩

def monitoredRun : List Label :=
  begin ++ steps 0 4 ++ List.replicate 3 (.monitor 0) ++ [.complete 0 .late, .wait 0]

def refusedRun : List Label :=
  begin ++ steps 0 5 ++ List.replicate 5 (.sweep 0 false) ++ [.complete 0 .late, .wait 0]

def submittedLaterRun : List Label :=
  begin ++ steps 0 4 ++ List.replicate 5 (.sweep 0 true) ++ [.complete 0 .late, .wait 0] ++ steps 0 1

theorem exists_reading {l : List Label}
    (hu : ((replay (perform engine) (fun _ _ => true) {} l).map summary) = some (some true, [true]))
    : ∃ manager request attempt, Transition.Reachable (system engine) manager ∧
    manager.requests[0]? = some request ∧ request.returned.isSome = true ∧ manager.attempts =
    [attempt] ∧ attempt.isReading = true := by
  obtain ⟨manager, hm, hf⟩ := Option.map_eq_some_iff.1 hu
  obtain ⟨hr, hat⟩ := Prod.mk.inj hf
  obtain ⟨request, he, ht⟩ := Option.map_eq_some_iff.1 hr
  obtain ⟨attempt, ha, hre⟩ := map_eq_singleton_iff.1 hat
  exact ⟨manager, request, attempt, reachable_of_replay_free (fun _ _ _ hs => hs) rfl hm,
    he, ht, ha, hre⟩

/-- A read is outstanding after `Wait` has returned, with either engine. -/
theorem reading_after_wait :
    (∃ manager request attempt, Transition.Reachable (system .psync) manager ∧
      manager.requests[0]? = some request ∧ request.returned.isSome = true ∧
      manager.attempts = [attempt] ∧ attempt.isReading = true) ∧
    (∃ manager request attempt, Transition.Reachable (system .aio) manager ∧
      manager.requests[0]? = some request ∧ request.returned.isSome = true ∧
      manager.attempts = [attempt] ∧ attempt.isReading = true) ∧
    ((Transition.replay (perform .aio) (fun _ _ => true) {} submittedLaterRun.dropLast).map
    summary =
      some (some true, [false]) ∧
    (Transition.replay (perform .aio) (fun _ _ => true) {} submittedLaterRun).map summary =
      some (some true, [true])) := by
  have hm : ((replay (perform .psync) (fun _ _ => true) {} monitoredRun).map
      summary) = some (some true, [true]) := by decide +kernel
  have hr : ((replay (perform .aio) (fun _ _ => true) {} refusedRun).map
      summary) = some (some true, [true]) := by decide +kernel
  exact ⟨exists_reading hm, exists_reading hr, by decide +kernel, by decide +kernel⟩

end Manager
end UnifiedCache.Posix.TransManager
