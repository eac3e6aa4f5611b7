import Mathlib.Logic.Function.Basic
import UnifiedCache.Status

/-! `TaskWrapper`: the table of a store's tasks, the latch of each, and the set of the
tasks that failed. `Wait` reports success for a task whose latch went down without an
entry in that set. -/
namespace UnifiedCache.Store
open Function

abbrev BlockId := Vector UInt8 16

abbrev Address := UInt64

/-- One slice of a block, with the addresses it is loaded into or dumped from. -/
structure Shard where
  owner : BlockId
  index : UInt64
  addrs : List Address := []
  deriving DecidableEq

abbrev TaskHandle := Nat

inductive WaitPhase where
  /-- The task is in `tasks_`. -/
  | registered
  /-- `Wait` has taken the task and waits for its latch. -/
  | waiting
  /-- The latch was seen at zero. -/
  | finished
  /-- The time is over; the work is waited for all the same. -/
  | draining
  | returned (status : Status)
  deriving DecidableEq

/-- Whether `Wait` is past the latch. -/
def WaitPhase.over : WaitPhase → Bool
  | .finished => true
  | .returned _ => true
  | _ => false

structure Entry (τ : Type) where
  task : τ
  /-- The latch. -/
  counter : Nat
  phase : WaitPhase := .registered

/-- The entry of a task stays after `Wait` has erased it from `tasks_`, since the latch
is shared. -/
structure TaskWrapper (τ : Type) where
  tasks : TaskHandle → Option (Entry τ) := fun _ => none
  failureSet : TaskHandle → Bool := fun _ => false

structure WaitPolicy (τ : Type) where
  timeoutMs : Nat := 0
  isAio : Bool := false
  failureStatus : τ → Status := fun _ => .Error ""

namespace TaskWrapper
variable {τ : Type}

def register (handle : TaskHandle) (entry : Entry τ) (wrapper : TaskWrapper τ) : TaskWrapper τ :=
  { wrapper with tasks := update wrapper.tasks handle (some entry) }

def modify (handle : TaskHandle) (change : Entry τ → Entry τ) (wrapper : TaskWrapper τ) :
    TaskWrapper τ :=
  { wrapper with
    tasks := update wrapper.tasks handle ((wrapper.tasks handle).map change) }

def done (handle : TaskHandle) (wrapper : TaskWrapper τ) : TaskWrapper τ :=
  wrapper.modify handle fun entry => { entry with counter := entry.counter - 1 }

def setPhase (handle : TaskHandle) (phase : WaitPhase) (wrapper : TaskWrapper τ) : TaskWrapper τ :=
  wrapper.modify handle fun entry => { entry with phase }

/-- `failureSet_.Insert` -/
def fail (handle : TaskHandle) (wrapper : TaskWrapper τ) : TaskWrapper τ :=
  { wrapper with failureSet := update wrapper.failureSet handle true }

/-- What `Wait` does to the failure set before it returns. -/
def forget (policy : WaitPolicy τ) (handle : TaskHandle) (wrapper : TaskWrapper τ) :
    TaskWrapper τ :=
  if policy.isAio then wrapper
  else { wrapper with failureSet := update wrapper.failureSet handle false }

inductive WaitStep (policy : WaitPolicy τ) (wrapper : TaskWrapper τ) :
    TaskHandle → TaskWrapper τ → Prop where
  | take : wrapper.tasks handle = some entry → entry.phase = .registered →
    WaitStep policy wrapper handle (wrapper.setPhase handle .waiting)
  | finish : wrapper.tasks handle = some entry → entry.phase = .waiting → entry.counter = 0 →
    WaitStep policy wrapper handle (wrapper.setPhase handle .finished)
  | expire : wrapper.tasks handle = some entry → entry.phase = .waiting → entry.counter ≠ 0 →
    policy.timeoutMs ≠ 0 →
    WaitStep policy wrapper handle ((wrapper.fail handle).setPhase handle .draining)
  | drain : wrapper.tasks handle = some entry → entry.phase = .draining → entry.counter = 0 →
    WaitStep policy wrapper handle
      ((wrapper.forget policy handle).setPhase handle (.returned .Timeout))
  | succeed : wrapper.tasks handle = some entry → entry.phase = .finished →
    wrapper.failureSet handle = false →
    WaitStep policy wrapper handle (wrapper.setPhase handle (.returned .OK))
  | report : wrapper.tasks handle = some entry → entry.phase = .finished →
    wrapper.failureSet handle = true →
    WaitStep policy wrapper handle ((wrapper.forget policy handle).setPhase handle
      (.returned (policy.failureStatus entry.task)))

/-- The next step of a `Wait`, which may be that its time is over. -/
def advance (policy : WaitPolicy τ) (handle : TaskHandle) (expired : Bool)
    (wrapper : TaskWrapper τ) : Option (TaskWrapper τ) :=
  match wrapper.tasks handle with
  | none => none
  | some entry =>
    match entry.phase with
    | .registered => some (wrapper.setPhase handle .waiting)
    | .waiting =>
      if entry.counter = 0 then some (wrapper.setPhase handle .finished)
      else if expired ∧ policy.timeoutMs ≠ 0 then
        some ((wrapper.fail handle).setPhase handle .draining)
      else none
    | .finished =>
      if wrapper.failureSet handle = true then
        some ((wrapper.forget policy handle).setPhase handle
          (.returned (policy.failureStatus entry.task)))
      else some (wrapper.setPhase handle (.returned .OK))
    | .draining =>
      if entry.counter = 0 then
        some ((wrapper.forget policy handle).setPhase handle (.returned .Timeout))
      else none
    | .returned _ => none

variable {wrapper next : TaskWrapper τ} {handle other : TaskHandle} {policy : WaitPolicy τ}

theorem WaitStep.of_advance {e : Bool} (h : wrapper.advance policy handle e = some next) :
    wrapper.WaitStep policy handle next := by
  unfold advance at h
  split at h
  · cases h
  rename_i he
  split at h
  · rename_i hp
    cases h
    exact .take he hp
  · rename_i hp
    split at h
    · rename_i hz
      cases h
      exact .finish he hp hz
    rename_i hm
    split at h
    · rename_i hx
      cases h
      exact .expire he hp hm hx.2
    · cases h
  · rename_i hp
    split at h
    · rename_i hf
      cases h
      exact .report he hp hf
    · rename_i hc
      cases h
      exact .succeed he hp (by simpa using hc)
  · rename_i hp
    split at h
    · rename_i hz
      cases h
      exact .drain he hp hz
    · cases h
  · cases h

theorem failureSet_of_advance {e : Bool} (h : wrapper.advance policy handle e = some next)
    (hf : next.failureSet other = true) :
    wrapper.failureSet other = true ∨ e = true ∧ other = handle := by
  have ho : (wrapper.forget policy handle).failureSet other = true →
      wrapper.failureSet other = true := by
    unfold forget
    split
    · exact id
    dsimp only
    rw [update_apply]
    split
    · intro hn
      cases hn
    · exact id
  unfold advance at h
  split at h
  · cases h
  split at h
  · cases h
    exact .inl hf
  · split at h
    · cases h
      exact .inl hf
    split at h
    · rename_i hx
      cases h
      by_cases he : other = handle
      · exact .inr ⟨hx.1, he⟩
      left
      have hs : (update wrapper.failureSet handle true) other =
          wrapper.failureSet other := update_of_ne he _ _
      exact hs ▸ hf
    · cases h
  · split at h
    · cases h
      exact .inl (ho hf)
    · cases h
      exact .inl hf
  · split at h
    · cases h
      exact .inl (ho hf)
    · cases h
  · cases h

def result? (wrapper : TaskWrapper τ) (handle : TaskHandle) : Option Status :=
  match wrapper.tasks handle with
  | some ⟨_, _, .returned status⟩ => some status
  | _ => none

@[simp] theorem result?_eq_some {status : Status} : wrapper.result? handle = some status ↔ ∃ entry,
    wrapper.tasks handle = some entry ∧ entry.phase = .returned status := by
  unfold result?
  constructor
  · intro h
    split at h
    · rename_i ht
      cases h
      exact ⟨_, ht, rfl⟩
    · cases h
  · rintro ⟨⟨t, counter, p⟩, ht, hp⟩
    cases hp
    rw [ht]

def task? (wrapper : TaskWrapper τ) (handle : TaskHandle) : Option τ :=
  (wrapper.tasks handle).map Entry.task

@[simp] theorem tasks_modify_of_ne (h : other ≠ handle) (change : Entry τ → Entry τ) :
    (wrapper.modify handle change).tasks other = wrapper.tasks other :=
  update_of_ne h _ _

@[simp] theorem tasks_modify_self (handle : TaskHandle) (change : Entry τ → Entry τ)
    (wrapper : TaskWrapper τ) :
    (wrapper.modify handle change).tasks handle = (wrapper.tasks handle).map change :=
  update_self _ _ _

@[simp]
theorem tasks_setPhase {entry : Entry τ} (h : wrapper.tasks handle = some entry) (phase : WaitPhase)
    : (wrapper.setPhase handle phase).tasks handle = some { entry with phase } := by
  unfold setPhase
  rw [tasks_modify_self, h]
  rfl

@[simp] theorem tasks_modify_eq_none (change : Entry τ → Entry τ) (h : wrapper.tasks other = none) :
    (wrapper.modify handle change).tasks other = none := by
  by_cases he : other = handle
  · subst he
    rw [tasks_modify_self, h]
    rfl
  · rw [tasks_modify_of_ne he, h]

@[simp] theorem failureSet_forget_of_ne (h : other ≠ handle) :
    (wrapper.forget policy handle).failureSet other = wrapper.failureSet other := by
  unfold forget
  split
  · rfl
  · exact update_of_ne h _ _

@[simp] theorem tasks_forget : (wrapper.forget policy handle).tasks = wrapper.tasks := by
  unfold forget
  split <;> rfl

@[simp] theorem task?_eq_none : wrapper.task? handle = none ↔ wrapper.tasks handle = none :=
  Option.map_eq_none_iff

@[simp] theorem task?_modify {change : Entry τ → Entry τ}
    (h : ∀ entry, (change entry).task = entry.task) (handle : TaskHandle)
    (wrapper : TaskWrapper τ) : (wrapper.modify handle change).task? = wrapper.task? := by
  funext other
  unfold task?
  by_cases he : other = handle
  · rw [he, tasks_modify_self, Option.map_map]
    congr 1
    funext entry
    exact h entry
  · rw [tasks_modify_of_ne he]

@[simp] theorem task?_register (handle : TaskHandle) (entry : Entry τ) (wrapper : TaskWrapper τ) :
    (wrapper.register handle entry).task? =
      update wrapper.task? handle (some entry.task) := by
  funext other
  unfold task? register
  dsimp only
  by_cases he : other = handle
  · rw [he, update_self, update_self]
    rfl
  · rw [update_of_ne he, update_of_ne he]

@[simp] theorem task?_done (handle : TaskHandle) (wrapper : TaskWrapper τ) :
    (wrapper.done handle).task? = wrapper.task? := by
  apply task?_modify
  intro entry
  rfl

@[simp] theorem task?_setPhase (handle : TaskHandle) (p : WaitPhase) (wrapper : TaskWrapper τ) :
    (wrapper.setPhase handle p).task? = wrapper.task? := by
  apply task?_modify
  intro entry
  rfl

@[simp]
theorem task?_forget (policy : WaitPolicy τ) (handle : TaskHandle) (wrapper : TaskWrapper τ) :
    (wrapper.forget policy handle).task? = wrapper.task? := by
  unfold task?
  rw [tasks_forget]

theorem WaitStep.task?_eq (hstep : WaitStep policy wrapper handle next) :
    next.task? = wrapper.task? := by
  cases hstep with
  | expire => exact task?_setPhase handle _ (wrapper.fail handle)
  | drain | report => exact (task?_setPhase handle _ _).trans (task?_forget policy handle wrapper)
  | _ => exact task?_setPhase handle _ wrapper

inductive WaitMove (policy : WaitPolicy τ) (entry : Entry τ) : Bool → WaitPhase → Bool → Prop where
  | take : entry.phase = .registered → WaitMove policy entry failed .waiting failed
  | finish : entry.phase = .waiting → entry.counter = 0 →
    WaitMove policy entry failed .finished failed
  | expire : entry.phase = .waiting → entry.counter ≠ 0 →
    WaitMove policy entry failed .draining true
  | drain : entry.phase = .draining → entry.counter = 0 →
    WaitMove policy entry failed (.returned .Timeout) after
  | succeed : entry.phase = .finished → WaitMove policy entry false (.returned .OK) false
  | report : entry.phase = .finished →
    WaitMove policy entry true (.returned (policy.failureStatus entry.task)) after

namespace WaitStep

section
variable (hstep : WaitStep policy wrapper handle next)
include hstep

theorem tasks_of_ne (h : other ≠ handle) : next.tasks other = wrapper.tasks other := by
  cases hstep with
  | drain | report => exact (tasks_modify_of_ne h _).trans (congrFun tasks_forget other)
  | _ => exact tasks_modify_of_ne h _

theorem failureSet_of_ne (h : other ≠ handle) :
    next.failureSet other = wrapper.failureSet other := by
  cases hstep with
  | expire => exact update_of_ne h _ _
  | drain | report => exact failureSet_forget_of_ne h
  | _ => rfl

theorem self : ∃ entry phase, wrapper.tasks handle = some entry ∧ next.tasks handle = some
    { entry with phase } ∧ WaitMove policy entry (wrapper.failureSet handle) phase
    (next.failureSet handle) := by
  have ho : ∀ {entry : Entry τ} (phase : WaitPhase), wrapper.tasks handle = some entry →
      ((wrapper.forget policy handle).setPhase handle phase).tasks handle =
        some { entry with phase } :=
    fun phase ht => tasks_setPhase ((congrFun tasks_forget handle).trans ht) phase
  cases hstep with
  | take ht hp => exact ⟨_, _, ht, tasks_setPhase ht _, .take hp⟩
  | finish ht hp hz =>
    exact ⟨_, _, ht, tasks_setPhase ht _, .finish hp hz⟩
  | @expire entry ht hp hm =>
    have hf : ((wrapper.fail handle).setPhase handle .draining).failureSet handle = true :=
      update_self _ _ _
    have ha : (wrapper.fail handle).tasks handle = some entry := ht
    rw [hf]
    exact ⟨_, _, ht, tasks_setPhase ha _, .expire hp hm⟩
  | drain ht hp hz => exact ⟨_, _, ht, ho _ ht, .drain hp hz⟩
  | succeed ht hp hc =>
    have hs : (wrapper.setPhase handle (.returned .OK)).failureSet handle =
      wrapper.failureSet handle := rfl
    rw [hs, hc]
    exact ⟨_, _, ht, tasks_setPhase ht _, .succeed hp⟩
  | report ht hp hf =>
    rw [hf]
    exact ⟨_, _, ht, ho _ ht, .report hp⟩

end
end WaitStep
end TaskWrapper

/-! Success means something: a latch that went down stands for good work, unless the
task is in the failure set or was reported as failed. -/

open TaskWrapper

structure Entry.Sincere (good : Prop) (failed : Bool) (entry : Entry τ) : Prop where
  settled : entry.counter = 0 → good ∨ failed = true ∨
    ∃ status, entry.phase = .returned status ∧ status.success = false
  finished : entry.phase.over = true → entry.counter = 0
  honest : ∀ status, entry.phase = .returned status → status.success = true → good

variable {entry : Entry τ}

theorem Entry.Sincere.early {good : Prop} {f : Bool} (h : entry.Sincere good f) (hp : ∀ s,
    entry.phase ≠ .returned s) (hz : entry.counter = 0) : good ∨ f = true := by
  obtain hg | hf | ⟨s, hr, -⟩ := h.settled hz
  · exact .inl hg
  · exact .inr hf
  · exact absurd hr (hp s)

theorem Entry.Sincere.wait {policy : WaitPolicy τ} {good : Prop} {f after : Bool}
    {phase : WaitPhase} (h : entry.Sincere good f)
    (hf : ∀ t, (policy.failureStatus t).success = false) (hm : WaitMove policy entry f phase after)
    : ({ entry with phase } : Entry τ).Sincere good after := by
  have hr : ∀ s : Status, s.success = false → entry.counter = 0 →
      ({ entry with phase := .returned s } : Entry τ).Sincere good after := by
    intro s hb hz
    refine ⟨fun _ => .inr (.inr ⟨s, rfl, hb⟩), fun _ => hz, ?_⟩
    intro other hp hk
    cases hp
    rw [hb] at hk
    cases hk
  cases hm with
  | take hp =>
    refine ⟨fun hz => (h.early (by simp [hp]) hz).imp_right .inl, ?_, by simp⟩
    intro ho
    cases ho
  | finish hp hz =>
    exact ⟨fun hz => (h.early (by simp [hp]) hz).imp_right .inl, fun _ => hz, by simp⟩
  | expire =>
    refine ⟨fun _ => .inr (.inl rfl), ?_, by simp⟩
    intro ho
    cases ho
  | drain _ hz => exact hr _ rfl hz
  | succeed hp =>
    have hz := h.finished (by rw [hp]; rfl)
    have hg : good := by
      apply (h.early (by simp [hp]) hz).resolve_right
      simp
    exact ⟨fun _ => .inl hg, fun _ => hz, fun _ _ _ => hg⟩
  | report hp => exact hr _ (hf _) (h.finished (by rw [hp]; rfl))

def TaskWrapper.Sincere (good : TaskHandle → Prop) (wrapper : TaskWrapper τ) : Prop :=
  ∀ handle entry, wrapper.tasks handle = some entry →
    entry.Sincere (good handle) (wrapper.failureSet handle)

namespace TaskWrapper.Sincere
variable {τ : Type} {wrapper next : TaskWrapper τ} {handle : TaskHandle} {entry : Entry τ}
  {policy : WaitPolicy τ} {good better : TaskHandle → Prop}

theorem start (good : TaskHandle → Prop) : Sincere good ({} : TaskWrapper τ) := by
  intro handle entry ht
  cases ht

section
variable (h : Sincere good wrapper)
include h

theorem mono_registered (hl : ∀ handle entry, wrapper.tasks handle = some entry → good handle →
    better handle) : Sincere better wrapper := by
  intro handle entry ht
  obtain ⟨hs, hf, hh⟩ := h handle entry ht
  exact ⟨fun hz => (hs hz).imp_left (hl handle entry ht), hf,
    fun s hp ho => hl handle entry ht (hh s hp ho)⟩

theorem mono (hl : ∀ handle, good handle → better handle) : Sincere better wrapper :=
  h.mono_registered fun handle _ _ => hl handle

theorem change (ho : ∀ other, other ≠ handle → next.tasks other = wrapper.tasks other ∧
      next.failureSet other = wrapper.failureSet other) (hn : ∀ entry,
      next.tasks handle = some entry → entry.Sincere (good handle) (next.failureSet handle)) :
    Sincere good next := by
  intro other entry ht
  by_cases he : other = handle
  · subst he
    exact hn entry ht
  · obtain ⟨hs, hf⟩ := ho other he
    rw [hf]
    exact h other entry (hs ▸ ht)

theorem register (he : entry.Sincere (good handle) (wrapper.failureSet handle)) :
    Sincere good (wrapper.register handle entry) := by
  apply h.change
  · intro other ho
    exact ⟨update_of_ne ho _ _, rfl⟩
  intro f hf
  have hs : (wrapper.register handle entry).tasks handle = some entry :=
    update_self _ _ _
  rw [hs] at hf
  cases hf
  exact he

theorem modify {change : Entry τ → Entry τ} (he : ∀ entry, wrapper.tasks handle = some entry →
    (change entry).Sincere (good handle) (wrapper.failureSet handle)) : Sincere good
    (wrapper.modify handle change) := by
  apply h.change
  · intro other ho
    exact ⟨tasks_modify_of_ne ho _, rfl⟩
  intro f hf
  rw [tasks_modify_self] at hf
  obtain ⟨entry, ht, rfl⟩ := Option.map_eq_some_iff.1 hf
  exact he entry ht

theorem fail (handle : TaskHandle) : Sincere good (wrapper.fail handle) := by
  apply h.change
  · intro other ho
    exact ⟨rfl, update_of_ne ho _ _⟩
  · intro entry ht
    obtain ⟨-, hf, hh⟩ := h handle entry ht
    exact ⟨fun _ => .inr (.inl (update_self _ _ _)), hf, hh⟩

theorem done (hg : good handle ∨ wrapper.failureSet handle = true) :
    Sincere good (wrapper.done handle) := by
  apply h.modify
  intro entry ht
  obtain ⟨-, hf, hh⟩ := h handle entry ht
  refine ⟨fun _ => hg.imp_right .inl, ?_, hh⟩
  intro hp
  have hz := hf hp
  dsimp only
  omega

theorem wait (ha : ∀ t, (policy.failureStatus t).success = false)
    (hstep : WaitStep policy wrapper handle next) : Sincere good next := by
  apply h.change fun other ho => ⟨hstep.tasks_of_ne ho, hstep.failureSet_of_ne ho⟩
  obtain ⟨entry, phase, ht, hn, hm⟩ := hstep.self
  intro f hf
  rw [hn] at hf
  cases hf
  exact (h handle entry ht).wait ha hm

end
end TaskWrapper.Sincere
end UnifiedCache.Store
