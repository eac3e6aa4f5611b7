import UnifiedCache.Asu.Executor

/-! Whose response a flag buffer holds. A slot belongs to the sub-batch it was handed out
to; the response to a request has to find it still there. -/
namespace UnifiedCache.Asu
open List Function TransportTask
open Transition

/-- A step keeps or gives back the slot of a sub-batch, and answers it only with what its
slot holds. -/
structure TransportSubBatchContext.Follows (memory : FlagMemory)
    (before after : TransportSubBatchContext) : Prop where
  slot : after.flagBuffer = none ∨ after.flagBuffer = before.flagBuffer
  answer : after.answeredBy = before.answeredBy ∨
    ∃ slot source data, before.flagBuffer = some slot ∧ memory slot = some (source, data) ∧
      after.answeredBy = some source

namespace TransportSubBatchContext.Follows
variable {memory : FlagMemory} {context : TransportSubBatchContext}

theorem of_eq {after : TransportSubBatchContext} (hs : after.flagBuffer = context.flagBuffer)
    (ha : after.answeredBy = context.answeredBy) : context.Follows memory after :=
  ⟨.inr hs, .inl ha⟩

theorem refl : context.Follows memory context := of_eq rfl rfl

theorem completeWithError (s : Status) : context.Follows memory (context.completeWithError s) :=
  ⟨.inl rfl, .inl rfl⟩

theorem pollResponse {s : Nat} {source : SubBatchId} {data : List UInt32}
    (hs : context.flagBuffer = some s) (hd : memory s = some (source, data)) :
    context.Follows memory (context.pollResponse source data) := by
  unfold TransportSubBatchContext.pollResponse
  split
  · exact refl
  dsimp only
  split
  · exact ⟨.inl rfl, .inr ⟨s, source, data, hs, hd, rfl⟩⟩
  · exact ⟨.inl rfl, .inr ⟨s, source, data, hs, hd, rfl⟩⟩

end TransportSubBatchContext.Follows

def TransportTask.Follows (memory : FlagMemory) (before after : TransportTask) : Prop :=
  ∀ (position : Nat) (context : TransportSubBatchContext),
    after.subBatchContexts[position]? = some context →
    context.flagBuffer = none ∧ context.answeredBy = none ∨
      ∃ old : TransportSubBatchContext, before.subBatchContexts[position]? = some old ∧ old.Follows memory context

namespace TransportTask.Follows
variable {memory : FlagMemory} {task after : TransportTask}

theorem of_mapIdx {f : Nat → TransportSubBatchContext → TransportSubBatchContext}
    (ha : after.subBatchContexts = task.subBatchContexts.mapIdx f)
    (hf : ∀ pos (context : TransportSubBatchContext), context.Follows memory (f pos context)) :
    task.Follows memory after := by
  intro pos context hc
  rw [ha, List.getElem?_mapIdx, Option.map_eq_some_iff] at hc
  obtain ⟨old, ho, rfl⟩ := hc
  exact .inr ⟨old, ho, hf pos old⟩

variable {f : TransportSubBatchContext → TransportSubBatchContext}

theorem of_map (ha : after.subBatchContexts = task.subBatchContexts.map f)
    (hf : ∀ context : TransportSubBatchContext, context.Follows memory (f context)) :
    task.Follows memory after := by
  intro pos context hc
  rw [ha, List.getElem?_map, Option.map_eq_some_iff] at hc
  obtain ⟨old, ho, rfl⟩ := hc
  exact .inr ⟨old, ho, hf old⟩

theorem of_eq (ha : after.subBatchContexts = task.subBatchContexts) :
    task.Follows memory after := by
  apply of_map (f := id)
  · rw [ha, map_id]
  · exact fun _ => .refl

theorem of_modify {p : Nat} (ha : after.subBatchContexts = task.subBatchContexts.modify p f)
    (hf : ∀ context : TransportSubBatchContext, context.Follows memory (f context)) :
    task.Follows memory after := by
  intro pos context hc
  rw [ha, List.getElem?_modify] at hc
  obtain ⟨old, ho, hh⟩ := Option.map_eq_some_iff.1 hc
  refine .inr ⟨old, ho, ?_⟩
  split at hh
  · exact hh ▸ hf old
  · exact hh ▸ .refl

theorem append {context : TransportSubBatchContext} {s : Stage} (hs : context.flagBuffer = none)
    (ha : context.answeredBy = none) : task.Follows memory (task.append context s) := by
  intro pos fo hf
  unfold TransportTask.append at hf
  obtain hl | hg := Nat.lt_or_ge pos task.subBatchContexts.length
  · rw [List.getElem?_append_left hl] at hf
    exact .inr ⟨fo, hf, .refl⟩
  · rw [List.getElem?_append_right hg] at hf
    cases mem_singleton.1 (mem_of_getElem? hf)
    exact .inl ⟨hs, ha⟩

theorem tryFinalize (h : task.Follows memory after) :
    task.Follows memory after.tryFinalizeFromSubBatches := by
  unfold tryFinalizeFromSubBatches
  split
  · exact h
  · split <;> exact h

theorem poll (sees : List Bool) : task.Follows memory (task.poll memory sees) := by
  apply tryFinalize
  refine of_mapIdx rfl fun pos context => ?_
  split
  · exact .refl
  split
  · rename_i hd
    obtain ⟨s, hs, hd⟩ := Option.bind_eq_some_iff.1 hd
    exact .pollResponse hs hd
  · exact .refl

theorem abortContexts (failed : Bool) (contexts : List TransportSubBatchContext) (pos : Nat)
    (context : TransportSubBatchContext)
    (h : (TransportTask.abortContexts failed contexts)[pos]? = some context) : ∃ old :
    TransportSubBatchContext, contexts[pos]? = some old ∧ old.Follows memory context := by
  induction contexts generalizing failed pos with
  | nil => simp [TransportTask.abortContexts] at h
  | cons first _ ih =>
    -- The head is released in all three branches; the tail is the loop again.
    unfold TransportTask.abortContexts at h
    cases pos with
    | zero =>
      refine ⟨first, rfl, ?_⟩
      split at h
      · cases h
        exact ⟨.inl rfl, .inl rfl⟩
      · split at h <;> cases h <;> exact ⟨.inl rfl, .inl rfl⟩
    | succ pos =>
      split at h
      · exact ih true pos h
      · split at h
        · exact ih true pos h
        · exact ih false pos h

theorem finish : task.Follows memory task.finish := by
  unfold TransportTask.finish
  split
  · intro pos context hc
    cases hc
  apply tryFinalize
  split
  · intro pos context hc
    exact .inr (abortContexts false _ pos context hc)
  · exact of_eq rfl

theorem sendReturn (s : List Status) : task.Follows memory (task.sendReturn s) := by
  by_cases hl : s.length ≠ task.subBatchContexts.length
  · exact of_map (if_pos hl) fun context => .completeWithError _
  refine of_mapIdx (if_neg hl) fun pos context => ?_
  dsimp only
  split
  · exact .refl
  · exact .completeWithError _

theorem cancel : task.Follows memory task.cancel := by
  by_cases hp : task.stage = .published
  · refine of_map (if_pos hp) fun context => ?_
    split
    · exact ⟨.inl rfl, .inl rfl⟩
    · exact .completeWithError _
  · exact of_eq (if_neg hp)

theorem pollTimeout : task.Follows memory task.pollTimeout := by
  refine of_map rfl fun context => ?_
  split
  · exact .refl
  · exact .completeWithError _

end TransportTask.Follows

namespace TransportTask

def unsent (task : TransportTask) : Bool :=
  task.stage = .queued ∨ task.stage = .preparing ∨ task.stage = .aborting

variable {task : TransportTask}

theorem state_tryFinalize (h : task.tryFinalizeFromSubBatches.state =
    .PENDING) : task.state = .PENDING := by
  unfold tryFinalizeFromSubBatches at h
  split at h
  · cases h
  · split at h
    · exact h
    · cases h

@[simp] theorem stage_tryFinalize (task : TransportTask) :
    task.tryFinalizeFromSubBatches.stage = task.stage := by
  unfold tryFinalizeFromSubBatches
  split
  · rfl
  · split <;> rfl

@[simp] theorem contexts_tryFinalize (task : TransportTask) :
    task.tryFinalizeFromSubBatches.subBatchContexts = task.subBatchContexts := by
  unfold tryFinalizeFromSubBatches
  split
  · rfl
  · split <;> rfl

@[simp] theorem stage_finish (task : TransportTask) : task.finish.stage = .published := by
  unfold finish
  split
  · rfl
  · rw [stage_tryFinalize]
    dsimp only [initializeRemainingSubBatchCount]
    split <;> rfl

theorem state_finish (h : task.finish.state = .PENDING) : task.state = .PENDING := by
  unfold finish at h
  split at h
  · exact h
  · have hp := state_tryFinalize h
    dsimp only [initializeRemainingSubBatchCount] at hp
    split at hp <;> exact hp

theorem contexts_finish (hs : task.stage = .sent) (hd : task.done = false) :
    task.finish.subBatchContexts = task.subBatchContexts := by
  simp [finish, hs, hd, initializeRemainingSubBatchCount]

end TransportTask

namespace Executor
variable {executor next : Executor} {event : Event} {t : Nat} {after : TransportTask}

theorem reaction_follows (h : executor.reaction event = some (t, after)) :
    (executor.tasks t).Follows executor.memory after := by
  cases event with
  | refuse =>
    obtain ⟨-, h⟩ := Option.ite_none_right_eq_some.1 h
    split at h
    · cases h
      exact .append rfl rfl
    · split at h <;> cases h
      exact .of_eq rfl
  | connect _ fa =>
    obtain ⟨-, h⟩ := Option.ite_none_right_eq_some.1 h
    cases fa <;> cases h
    · exact .of_eq rfl
    · exact .of_modify rfl fun context => .of_eq rfl rfl
  | submit | build | receive | lose | answer => cases h
  | _ =>
    obtain ⟨-, h⟩ := Option.ite_none_right_eq_some.1 h
    cases h
    first
    | exact .of_eq rfl
    | exact .finish
    | exact .cancel
    | exact .sendReturn _
    | exact .of_modify rfl fun context => .of_eq rfl rfl
    | split
      · exact .pollTimeout
      · exact .poll _

theorem reaction_stage (h : executor.reaction event = some (t, after))
    (hw : (executor.tasks t).state = .PENDING → (executor.tasks t).stage = .queued) :
    (after.state = .PENDING → after.stage = .queued) ∧
      (after.unsent = true → (executor.tasks t).unsent = true) ∧
      ((executor.tasks t).stage = .queued → t < executor.submitted) := by
  cases event with
  | execute =>
    obtain ⟨⟨hl, hp⟩, h⟩ := Option.ite_none_right_eq_some.1 h
    cases h
    refine ⟨?_, fun _ => by simp [unsent, hw hp], fun _ => hl⟩
    intro hi
    cases hi
  | refuse =>
    obtain ⟨⟨hs, -⟩, h⟩ := Option.ite_none_right_eq_some.1 h
    have hn : (executor.tasks t).stage = .preparing ∧ after.state = (executor.tasks t).state := by
      split at h
      · cases h
        exact ⟨hs, rfl⟩
      · split at h <;> cases h
        exact ⟨hs, rfl⟩
    refine ⟨fun hp => ?_, fun _ => by simp [unsent, hn.1], fun hq => ?_⟩
    · cases hn.1.symm.trans (hw (hn.2 ▸ hp))
    · cases hn.1.symm.trans hq
  | connect _ failure =>
    obtain ⟨⟨hs, -⟩, h⟩ := Option.ite_none_right_eq_some.1 h
    have hn : (executor.tasks t).stage = .preparing ∧ after.state = (executor.tasks t).state := by
      cases failure <;> cases h <;> exact ⟨hs, rfl⟩
    refine ⟨fun hp => ?_, fun _ => by simp [unsent, hn.1], fun hq => ?_⟩
    · cases hn.1.symm.trans (hw (hn.2 ▸ hp))
    · cases hn.1.symm.trans hq
  | sendReturn =>
    obtain ⟨hs, h⟩ := Option.ite_none_right_eq_some.1 h
    cases h
    refine ⟨fun hp => ?_, fun hu => ?_, fun hq => ?_⟩
    · cases hs.symm.trans (hw hp)
    · simp [unsent, TransportTask.sendReturn] at hu
    · cases hs.symm.trans hq
  | finish =>
    obtain ⟨hs, h⟩ := Option.ite_none_right_eq_some.1 h
    cases h
    have hn : (executor.tasks t).stage ≠ .queued := by
      intro hq
      rw [hq] at hs
      simp at hs
    refine ⟨fun hp => ?_, fun hu => ?_, fun hq => absurd hq hn⟩
    · exact absurd (hw (state_finish hp)) hn
    · simp [unsent] at hu
  | poll _ expired sees =>
    obtain ⟨⟨hi, hs, -⟩, h⟩ := Option.ite_none_right_eq_some.1 h
    cases h
    have hn : ∀ task : TransportTask, task.stage = .published → task.unsent = false := by
      intro task hp
      simp [unsent, hp]
    refine ⟨fun hp => ?_, fun hu => ?_, fun hq => ?_⟩
    · split at hp
      · cases hp
      · have hpe := state_tryFinalize hp
        cases hi.symm.trans hpe
    · rw [hn] at hu
      · cases hu
      · split
        · exact hs
        · exact (stage_tryFinalize _).trans hs
    · cases hs.symm.trans hq
  | cancel =>
    obtain ⟨⟨hl, -⟩, h⟩ := Option.ite_none_right_eq_some.1 h
    cases h
    refine ⟨?_, fun hu => hu, fun _ => hl⟩
    intro hi
    cases hi
  | submit | build | receive | lose | answer => cases h

def outstanding (executor : Executor) : List Request := executor.posted ++ executor.owed

structure Attributed (executor : Executor) : Prop where
  held : ∀ {t position slot : Nat} {context : TransportSubBatchContext},
    (executor.tasks t).subBatchContexts[position]? = some context →
      context.flagBuffer = some slot → executor.owner slot = some (t, position)
  awaited : ∀ request ∈ executor.outstanding, executor.owner request.slot = some request.subBatch
  clear : ∀ request ∈ executor.outstanding, executor.memory request.slot = none
  nodup : executor.outstanding.Nodup
  written : ∀ {slot source data}, executor.memory slot = some (source, data) →
    executor.owner slot = some source
  answered : ∀ {t position : Nat} {context : TransportSubBatchContext} {source : SubBatchId},
    (executor.tasks t).subBatchContexts[position]? = some context →
      context.answeredBy = some source → source = (t, position)
  unasked : ∀ t, (executor.tasks t).unsent = true →
    (∀ request ∈ executor.outstanding, request.subBatch.1 ≠ t) ∧
      ∀ slot source data, executor.memory slot = some (source, data) → source.1 ≠ t
  waiting : ∀ t, (executor.tasks t).state = .PENDING → (executor.tasks t).stage = .queued
  fresh : ∀ t, executor.submitted ≤ t → (executor.tasks t).stage = .queued

/-- Whether an event ends a sub-batch without its response: the provider has failed, the task was
cancelled, or its deadline has passed. -/
def abandons (executor : Executor) : Event → SubBatchId → Bool
  | .sendReturn t sendStatuses, subBatch =>
    subBatch.1 = t ∧ ¬(sendStatuses.length = (executor.tasks t).subBatchContexts.length ∧
      (sendStatuses.getD subBatch.2 .OK).ok = true)
  | .finish t, subBatch => subBatch.1 = t ∧ (executor.tasks t).done = true
  | .poll t expired _, subBatch => subBatch.1 = t ∧ expired = true
  | .cancel t, subBatch => subBatch.1 = t ∧ (executor.tasks t).stage = .published
  | _, _ => false

/-- No sub-batch is abandoned whose request has left and is not answered. -/
def Spares (executor : Executor) (event : Event) (_ : Executor) : Prop :=
  ∀ request ∈ executor.outstanding, executor.abandons event request.subBatch = false

instance instDecidableSpares (executor : Executor) (event : Event) (next : Executor) :
    Decidable (Spares executor event next) :=
  inferInstanceAs (Decidable (∀ request ∈ executor.outstanding, _ = false))

namespace Attributed

theorem start : Attributed {} where
  held := by simp
  awaited := by simp [outstanding]
  clear := by simp [outstanding]
  nodup := by simp [outstanding]
  written := by simp
  answered := by simp
  unasked := by simp [outstanding]
  waiting := by simp
  fresh := by simp

section
variable (h : Attributed executor)
include h

theorem keeps (hr : executor.reaction event = some (t, after)) {position slot : Nat}
    {context : TransportSubBatchContext}
    (hc : (executor.tasks t).subBatchContexts[position]? = some context)
    (hs : context.flagBuffer = some slot) (hm : ⟨(t, position), slot⟩ ∈ executor.outstanding)
    (ha : executor.abandons event (t, position) = false) : slot ∈ after.slots := by
  have hsame : ∀ {task : TransportTask}, task.subBatchContexts[position]? = some context →
      slot ∈ task.slots := fun he => mem_filterMap.2 ⟨context, mem_of_getElem? he, hs⟩
  have hsent : (executor.tasks t).unsent = false := by
    by_contra hu
    exact (h.unasked t (by simpa using hu)).1 _ hm rfl
  cases event with
  | execute =>
    obtain ⟨-, hr⟩ := Option.ite_none_right_eq_some.1 hr
    cases hr
    exact hsame hc
  | refuse =>
    obtain ⟨⟨hp, -⟩, hr⟩ := Option.ite_none_right_eq_some.1 hr
    split at hr
    · cases hr
      simp [unsent, hp] at hsent
    · split at hr <;> cases hr
      simp [unsent, hp] at hsent
  | connect _ failure =>
    obtain ⟨⟨hp, -⟩, hr⟩ := Option.ite_none_right_eq_some.1 hr
    cases failure <;> cases hr <;> simp [unsent, hp] at hsent
  | sendReturn _ sendStatuses =>
    obtain ⟨-, hr⟩ := Option.ite_none_right_eq_some.1 hr
    cases hr
    simp only [abandons, true_and, decide_eq_false_iff_not, not_not] at ha
    obtain ⟨hl, hok⟩ := ha
    apply hsame
    dsimp only [TransportTask.sendReturn]
    rw [if_neg (not_not.2 hl), List.getElem?_mapIdx, hc]
    exact congrArg some (if_pos hok)
  | finish =>
    obtain ⟨hst, hr⟩ := Option.ite_none_right_eq_some.1 hr
    cases hr
    obtain hst | hst := hst
    · simp [unsent, hst] at hsent
    · have hd : (executor.tasks t).done = false := by simpa [abandons] using ha
      apply hsame
      rw [contexts_finish hst hd, hc]
  | poll _ expired sees =>
    obtain ⟨-, hr⟩ := Option.ite_none_right_eq_some.1 hr
    cases hr
    have he : expired = false := by simpa [abandons] using ha
    have hn : context.flagBuffer.bind executor.memory = none := by
      rw [hs]
      exact h.clear _ hm
    subst he
    apply hsame
    simp [TransportTask.poll, completeSubBatches, hc, hn]
  | cancel =>
    obtain ⟨-, hr⟩ := Option.ite_none_right_eq_some.1 hr
    cases hr
    have hp : (executor.tasks t).stage ≠ .published := by simpa [abandons] using ha
    apply hsame
    simp [TransportTask.cancel, hp, hc]
  | submit | build | receive | lose | answer => cases hr

theorem spared (hsp : Spares executor event next) (request : Request)
    (hm : request ∈ executor.outstanding) : request.slot ∉ executor.released event := by
  intro hl
  unfold released at hl
  split at hl
  · rename_i t after hr
    rw [mem_filter, slots, mem_filterMap] at hl
    obtain ⟨⟨context, hc, hs⟩, hn⟩ := hl
    obtain ⟨position, hp⟩ := List.getElem?_of_mem hc
    have he : request.subBatch = (t, position) :=
      Option.some.inj ((h.awaited request hm).symm.trans (h.held hp hs))
    have hrequest : request = ⟨(t, position), request.slot⟩ := by rw [← he]
    have hk := h.keeps hr hp hs (hrequest ▸ hm) (he ▸ hsp request hm)
    simp [hk] at hn
  · cases hl

theorem put (hr : executor.reaction event = some (t, after)) {freed : List Nat}
    (hfr : freed = (executor.tasks t).slots.filter (· ∉ after.slots))
    (hp : ∀ request ∈ executor.outstanding, request.slot ∉ freed) :
    Attributed (executor.put t after freed) := by
  have hf := reaction_follows hr
  obtain ⟨hpending, hunsent, hlt⟩ := reaction_stage hr (h.waiting t)
  have hk : ∀ {slot : Nat}, slot ∉ freed →
      (executor.put t after freed).owner slot = executor.owner slot := fun hs => if_neg hs
  have he : (executor.put t after freed).tasks t = after := update_self _ _ _
  have hrs : ∀ other ≠ t, (executor.put t after freed).tasks other = executor.tasks other :=
    fun other ht => update_of_ne ht _ _
  have hmemory : ∀ {slot source data},
      (executor.put t after freed).memory slot = some (source, data) →
        slot ∉ freed ∧ executor.memory slot = some (source, data) :=
    fun hd => Option.ite_none_left_eq_some.1 hd
  constructor
  case held =>
    intro other pos slot context hc hs
    by_cases ht : other = t
    · subst ht
      rw [he] at hc
      have hm : slot ∈ after.slots :=
        mem_filterMap.2 ⟨context, mem_of_getElem? hc, hs⟩
      rw [hk (by simp [hfr, hm])]
      obtain ⟨hn, -⟩ | ⟨old, ho, hold_follows⟩ := hf pos context hc
      · cases hn.symm.trans hs
      · obtain hn | hsa := hold_follows.slot
        · cases hn.symm.trans hs
        · exact h.held ho (hsa.symm.trans hs)
    rw [hrs other ht] at hc
    have how := h.held hc hs
    rw [hk, how]
    -- The slot would have two owners.
    intro hm
    rw [hfr, mem_filter, slots, mem_filterMap] at hm
    obtain ⟨⟨_, hh, hhe⟩, -⟩ := hm
    obtain ⟨p, hl⟩ := List.getElem?_of_mem hh
    cases how.symm.trans (h.held hl hhe)
    exact ht rfl
  case awaited =>
    intro request hw
    rw [hk (hp request hw)]
    exact h.awaited request hw
  case clear =>
    intro request hw
    exact (if_neg (hp request hw)).trans (h.clear request hw)
  case nodup => exact h.nodup
  case written =>
    intro slot s data hd
    obtain ⟨hs, hd⟩ := hmemory hd
    rw [hk hs]
    exact h.written hd
  case answered =>
    intro other pos context s hc ha
    by_cases ht : other = t
    · subst ht
      rw [he] at hc
      obtain ⟨-, hn⟩ | ⟨old, ho, hold_follows⟩ := hf pos context hc
      · cases hn.symm.trans ha
      obtain hsa | ⟨slot, written, data, hs, hd, hwr⟩ := hold_follows.answer
      · exact h.answered ho (hsa.symm.trans ha)
      · cases hwr.symm.trans ha
        exact Option.some.inj ((h.written hd).symm.trans (h.held ho hs))
    · rw [hrs other ht] at hc
      exact h.answered hc ha
  case unasked =>
    intro other hu
    have hold : (executor.tasks other).unsent = true := by
      by_cases ht : other = t
      · subst ht
        rw [he] at hu
        exact hunsent hu
      · rwa [hrs other ht] at hu
    obtain ⟨ho, hm⟩ := h.unasked other hold
    exact ⟨ho, fun slot source data hd => hm slot source data (hmemory hd).2⟩
  case waiting =>
    intro other
    by_cases ht : other = t
    · subst ht
      rw [he]
      exact hpending
    · rw [hrs other ht]
      exact h.waiting other
  case fresh =>
    intro other hl
    have ht : other ≠ t := by
      rintro rfl
      exact absurd (hlt (h.fresh other hl)) (Nat.not_lt.2 hl)
    rw [hrs other ht]
    exact h.fresh other hl

theorem submit (task : TransportTask) (hn : task.subBatchContexts = [])
    (hq : task.stage = .queued) : Attributed { executor with
      tasks := update executor.tasks executor.submitted task
      submitted := executor.submitted + 1 } := by
  have hold : ∀ {t position : Nat} {context : TransportSubBatchContext},
      (update executor.tasks executor.submitted task t).subBatchContexts[position]? =
        some context → (executor.tasks t).subBatchContexts[position]? = some context := by
    intro t position context hc
    by_cases ht : t = executor.submitted
    · rw [ht, update_self, hn] at hc
      cases hc
    · rwa [update_of_ne ht] at hc
  refine { h with held := fun hc => h.held (hold hc), answered := fun hc => h.answered (hold hc),
                  unasked := ?_, waiting := ?_, fresh := ?_ }
  · intro t hu
    dsimp only at hu
    refine h.unasked t ?_
    by_cases ht : t = executor.submitted
    · simp [unsent, h.fresh t (Nat.le_of_eq ht.symm)]
    · rwa [update_of_ne ht] at hu
  · intro t
    dsimp only
    by_cases ht : t = executor.submitted
    · rw [ht, update_self]
      exact fun _ => hq
    · rw [update_of_ne ht]
      exact h.waiting t
  · intro t hl
    dsimp only at hl ⊢
    rw [update_of_ne (by omega)]
    exact h.fresh t (by omega)

theorem take {slot : Nat} (hf : executor.owner slot = none)
    (hprep : (executor.tasks t).stage = .preparing) {context : TransportSubBatchContext}
    (stage : Stage) (hs : context.flagBuffer = some slot) (ha : context.answeredBy = none) :
    Attributed (executor.take t slot context stage) := by
  have hk : ∀ {other : Nat} {owner : SubBatchId}, executor.owner other = some owner →
      (executor.take t slot context stage).owner other = some owner := by
    intro other owner hw
    have hne : other ≠ slot := by
      rintro rfl
      cases hf.symm.trans hw
    exact (update_of_ne hne _ _).trans hw
  -- A sub-batch is an old one, or the new one at the end of the task.
  have hc : ∀ {other pos : Nat} {holder : TransportSubBatchContext},
      ((executor.take t slot context stage).tasks other).subBatchContexts[pos]? = some holder →
        (executor.tasks other).subBatchContexts[pos]? = some holder ∨
          (other = t ∧ pos = (executor.tasks t).subBatchContexts.length ∧ holder = context) := by
    intro other pos _ hh
    unfold Executor.take at hh
    dsimp only at hh
    by_cases ht : other = t
    · subst ht
      rw [update_self, append] at hh
      grind
    · rw [update_of_ne ht] at hh
      exact .inl hh
  have hrs : ∀ other ≠ t,
      (executor.take t slot context stage).tasks other = executor.tasks other :=
    fun other ht => update_of_ne ht _ _
  have hnq : (executor.tasks t).stage ≠ .queued := by simp [hprep]
  constructor
  case held =>
    intro other pos p _ hh he
    obtain hh | ⟨rfl, rfl, rfl⟩ := hc hh
    · exact hk (h.held hh he)
    · cases hs.symm.trans he
      exact update_self _ _ _
  case awaited => exact fun request ho => hk (h.awaited request ho)
  case clear => exact h.clear
  case nodup => exact h.nodup
  case written => exact fun hd => hk (h.written hd)
  case answered =>
    intro other pos _ s hh hn
    obtain hh | ⟨-, -, rfl⟩ := hc hh
    · exact h.answered hh hn
    · cases ha.symm.trans hn
  case unasked =>
    intro other hu
    apply h.unasked
    by_cases ht : other = t
    · simp [unsent, ht, hprep]
    · rwa [hrs other ht] at hu
  case waiting =>
    intro other hp
    by_cases ht : other = t
    · subst ht
      have hstate : (executor.tasks other).state = .PENDING := by
        simpa [Executor.take, append] using hp
      exact absurd (h.waiting other hstate) hnq
    · rw [hrs other ht] at hp ⊢
      exact h.waiting other hp
  case fresh =>
    intro other hl
    have ht : other ≠ t := by
      rintro rfl
      exact hnq (h.fresh other hl)
    rw [hrs other ht]
    exact h.fresh other hl

theorem forward {posted owed : List Request} (hsub : posted ++ owed ⊆ executor.outstanding)
    (hn : (posted ++ owed).Nodup) : Attributed { executor with posted, owed } :=
  { h with
    awaited := fun request hm => h.awaited request (hsub hm)
    clear := fun request hm => h.clear request (hsub hm)
    nodup := hn
    unasked := fun t hu => ⟨fun request hm => (h.unasked t hu).1 request (hsub hm),
      (h.unasked t hu).2⟩ }

theorem receive {request : Request} (hm : request ∈ executor.posted) : Attributed { executor with
      posted := executor.posted.erase request, owed := request :: executor.owed } := by
  have hp : (executor.posted.erase request ++ request :: executor.owed).Perm
      executor.outstanding :=
    perm_middle.trans ((perm_cons_erase hm).symm.append_right executor.owed)
  exact h.forward hp.subset (hp.nodup_iff.2 h.nodup)

theorem lose (request : Request) :
    Attributed { executor with posted := executor.posted.erase request } := by
  have hs : (executor.posted.erase request ++ executor.owed).Sublist executor.outstanding :=
    erase_sublist.append_right executor.owed
  exact h.forward hs.subset (h.nodup.sublist hs)

theorem write {request : Request} (hm : request ∈ executor.owed) (words : List UInt32) :
    Attributed { executor with
      memory := update executor.memory request.slot (some (request.subBatch, words))
      owed := executor.owed.erase request } := by
  have hout : request ∈ executor.outstanding := mem_append_right _ hm
  have hp : (request :: (executor.posted ++ executor.owed.erase request)).Perm
      executor.outstanding :=
    perm_middle.symm.trans ((perm_cons_erase hm).symm.append_left executor.posted)
  obtain ⟨hnot, hnd⟩ := nodup_cons.1 (hp.nodup_iff.2 h.nodup)
  have hf := h.forward (fun other ho => hp.subset (mem_cons_of_mem _ ho)) hnd
  refine { hf with clear := ?_, written := ?_, unasked := ?_ }
  · intro other ho
    have hne : other.slot ≠ request.slot := by
      intro he
      -- The owner of the slot is the sub-batch of both.
      have hw := hf.awaited other ho
      dsimp only at hw
      rw [he, h.awaited request hout] at hw
      obtain ⟨subBatch, slot⟩ := other
      cases he
      cases hw
      exact hnot ho
    exact (update_of_ne hne _ _).trans (hf.clear other ho)
  · intro slot source data hd
    dsimp only at hd
    by_cases he : slot = request.slot
    · subst he
      rw [update_self] at hd
      cases hd
      exact h.awaited request hout
    · rw [update_of_ne he] at hd
      exact h.written hd
  · intro t hu
    refine ⟨(hf.unasked t hu).1, ?_⟩
    intro slot source data hd
    dsimp only at hd
    by_cases he : slot = request.slot
    · subst he
      rw [update_self] at hd
      cases hd
      exact (h.unasked t hu).1 request hout
    · rw [update_of_ne he] at hd
      exact (h.unasked t hu).2 slot source data hd

end

theorem mem_requests {task : TransportTask} {request : Request} (hm : request ∈ task.requests t) :
    ∃ position context, task.subBatchContexts[position]? = some context ∧
      context.flagBuffer = some request.slot ∧ request.subBatch = (t, position) := by
  obtain ⟨position, -, hf⟩ := mem_filterMap.1 hm
  obtain ⟨slot, hb, rfl⟩ := Option.map_eq_some_iff.1 hf
  obtain ⟨context, hc, hs⟩ := Option.bind_eq_some_iff.1 hb
  exact ⟨position, context, hc, hs, rfl⟩

theorem nodup_requests (t : Nat) (task : TransportTask) : (task.requests t).Nodup := by
  refine nodup_range.filterMap ?_
  intro position other request hp ho
  obtain ⟨slot, -, rfl⟩ := Option.map_eq_some_iff.1 hp
  obtain ⟨slot', -, he⟩ := Option.map_eq_some_iff.1 ho
  cases he
  rfl

section
variable (h : Attributed executor)
include h

theorem reacts (hr : executor.reaction event = some (t, after)) (hsp : Spares executor event next) :
    Attributed (executor.put t after (executor.released event)) := by
  refine h.put hr ?_ (h.spared hsp)
  simp [released, hr]

theorem post (hprep : (executor.tasks t).unsent = true) (hsent : after.unsent = false)
    {freed : List Nat} (hp : Attributed (executor.put t after freed)) :
    Attributed { executor.put t after freed with
      posted := after.requests t ++ executor.posted } := by
  obtain ⟨hnone, hempty⟩ := h.unasked t hprep
  have hself : (executor.put t after freed).tasks t = after := update_self _ _ _
  have howner : ∀ request ∈ after.requests t,
      request.subBatch.1 = t ∧
        (executor.put t after freed).owner request.slot = some request.subBatch := by
    intro request hm
    obtain ⟨position, context, hc, hs, he⟩ := mem_requests hm
    rw [he]
    exact ⟨rfl, hp.held (hself.symm ▸ hc) hs⟩
  have hsplit : ∀ request, request ∈ (after.requests t ++ executor.posted) ++ executor.owed →
      request ∈ after.requests t ∨ request ∈ executor.outstanding := by
    intro request hm
    rw [append_assoc] at hm
    exact mem_append.1 hm
  refine { hp with awaited := ?_, clear := ?_, nodup := ?_, unasked := ?_ }
  · intro request hm
    obtain hn | ho := hsplit request hm
    · exact (howner request hn).2
    · exact hp.awaited request ho
  · intro request hm
    obtain hn | ho := hsplit request hm
    · obtain ⟨ht, hw⟩ := howner request hn
      by_contra hd
      obtain ⟨⟨source, data⟩, hd⟩ := Option.ne_none_iff_exists'.1 hd
      have he : source = request.subBatch := Option.some.inj ((hp.written hd).symm.trans hw)
      exact hempty _ source data (Option.ite_none_left_eq_some.1 hd).2 (he ▸ ht)
    · exact hp.clear request ho
  · change ((after.requests t ++ executor.posted) ++ executor.owed).Nodup
    rw [append_assoc, nodup_append]
    refine ⟨nodup_requests t after, h.nodup, ?_⟩
    rintro request hm _ ho rfl
    exact hnone request ho (howner request hm).1
  · intro other hu
    have hne : other ≠ t := by
      rintro rfl
      rw [hself, hsent] at hu
      cases hu
    refine ⟨?_, (hp.unasked other hu).2⟩
    intro request hm
    obtain hn | ho := hsplit request hm
    · rw [(howner request hn).1]
      exact hne.symm
    · exact (hp.unasked other hu).1 request ho

theorem step (hs : executor.perform event = some next) (hsp : Spares executor event next) :
    Attributed next := by
  cases event with
  | submit =>
    cases hs
    exact h.submit _ rfl rfl
  | build _ _ failure =>
    unfold perform at hs
    dsimp only at hs
    split at hs
    · obtain ⟨⟨hp, hf⟩, hs⟩ := Option.ite_none_right_eq_some.1 hs
      cases failure <;> cases hs <;> exact h.take hf hp _ rfl rfl
    · cases hs
  | receive =>
    obtain ⟨hm, hs⟩ := Option.ite_none_right_eq_some.1 hs
    cases hs
    exact h.receive hm
  | lose request =>
    cases hs
    exact h.lose request
  | answer _ words =>
    obtain ⟨hm, hs⟩ := Option.ite_none_right_eq_some.1 hs
    cases hs
    exact h.write hm words
  | connect _ failure =>
    unfold perform at hs
    dsimp only at hs
    split at hs
    · rename_i hr
      have hp := h.reacts hr hsp
      cases failure with
      | some => cases hs; exact hp
      | none =>
        cases hs
        obtain ⟨⟨hprep, -⟩, ha⟩ := Option.ite_none_right_eq_some.1 hr
        cases ha
        exact h.post (by simp [unsent, hprep]) rfl hp
    · cases hs
  | refuse _ _ numbered =>
    unfold perform at hs
    dsimp only at hs
    split at hs
    · rename_i hr
      have hp := h.reacts hr hsp
      cases numbered <;> cases hs
      · exact hp
      · exact { hp with }
    · cases hs
  | _ =>
    unfold perform at hs
    dsimp only at hs
    split at hs
    · rename_i hr
      cases hs
      exact h.reacts hr hsp
    · cases hs

end
end Attributed

/-- In a run that ends no sub-batch while the response to its request may still come, every
response finds its slot with the sub-batch it is for, and every sub-batch that `Poll` has
completed with a response was completed with the response to its own request. -/
theorem responses_attributed (executor : Executor)
    (h : Reachable (system.restrict Spares) executor) :
    (∀ request ∈ executor.posted ++ executor.owed,
        executor.owner request.slot = some request.subBatch) ∧
      ∀ (t position : Nat) (context : TransportSubBatchContext),
        (executor.tasks t).subBatchContexts[position]? = some context →
          (∀ slot source data, context.flagBuffer = some slot →
            executor.memory slot = some (source, data) → source = (t, position)) ∧
          ∀ source, context.answeredBy = some source → source = (t, position) := by
  have ha : Attributed executor := by
    refine h.invariant (I := Attributed) ?_ ?_
    · rintro _ rfl
      exact .start
    · intro _ _ _ _ hb hs
      exact hb.step hs.1 hs.2
  refine ⟨ha.awaited, ?_⟩
  intro t position context hc
  refine ⟨?_, fun source hn => ha.answered hc hn⟩
  intro slot source data hl hd
  have ho := (ha.written hd).symm.trans (ha.held hc hl)
  exact Option.some.inj ho

def sendingRun : List Event :=
  [.submit .STORE false [1, 1], .execute 0, .build 0 0 none, .build 0 1 none, .connect 0 none]

def answeringRun : List Event :=
  [.receive ⟨(0, 0), 0⟩, .receive ⟨(0, 1), 1⟩, .sendReturn 0 [.OK, .OK], .finish 0,
    .answer ⟨(0, 1), 1⟩ [0, 0, 0, 2], .poll 0 false [true, true],
    .answer ⟨(0, 0), 0⟩ [0, 0, 0, 1], .poll 0 false [true, true]]

theorem responses_attributed_stored : ∃ executor : Executor,
    Reachable (system.restrict Spares) executor ∧
      (executor.tasks 0).subBatchContexts.map (fun context => (context.state, context.answeredBy)) =
        [(.COMPLETED, some (0, 0)), (.COMPLETED, some (0, 1))] ∧
      ∀ (position : Nat) (context : TransportSubBatchContext) (source : SubBatchId),
        (executor.tasks 0).subBatchContexts[position]? = some context →
          context.answeredBy = some source → source = (0, position) := by
  have hu : (replay perform (fun executor event => decide (Spares executor event executor)) {}
      (sendingRun ++ answeringRun)).map (fun executor =>
        (executor.tasks 0).subBatchContexts.map fun context =>
          (context.state, context.answeredBy)) =
      some [(.COMPLETED, some (0, 0)), (.COMPLETED, some (0, 1))] := by
    decide +kernel
  obtain ⟨executor, he, hs⟩ := Option.map_eq_some_iff.1 hu
  have hr : Reachable (system.restrict Spares) executor :=
    reachable_of_replay (fun _ _ _ => id) (fun _ _ _ => of_decide_eq_true) (.start rfl) he
  refine ⟨executor, hr, hs, ?_⟩
  intro position context source hc ha
  exact ((responses_attributed executor hr).2 0 position context hc).2 source ha

def reusingRun : List Event := [.submit .STORE false [1], .execute 1, .build 1 0 none]

def patient : Event → Bool
  | .poll _ expired _ => !expired
  | .cancel _ => false
  | _ => true

/-- The task runs into its deadline before the node answers. Its slot goes to another task,
and the response is still on its way there. The same happens when the provider returns an error
for a request that has left, and the node gets it later. -/
theorem response_misplaced :
    (∃ executor, Reachable system executor ∧ executor.owed = [⟨(0, 0), 0⟩] ∧
      executor.owner 0 = some (1, 0)) ∧
    ∃ executor, Reachable (system.restrict fun _ event _ => patient event = true) executor ∧
      executor.owed = [⟨(0, 0), 0⟩] ∧ executor.owner 0 = some (1, 0) := by
  constructor
  · have hu : (replay perform (fun _ _ => true) {} (sendingRun ++ [.receive ⟨(0, 0), 0⟩,
        .sendReturn 0 [.OK, .OK], .finish 0, .poll 0 true []] ++ reusingRun)).map
        (fun executor => (executor.owed, executor.owner 0)) =
        some ([⟨(0, 0), 0⟩], some (1, 0)) := by
      decide +kernel
    obtain ⟨executor, he, hs⟩ := Option.map_eq_some_iff.1 hu
    exact ⟨executor, reachable_of_replay_free (fun _ _ _ => id) rfl he, Prod.mk.inj hs⟩
  · have hu : (replay perform (fun _ event => patient event) {} (sendingRun ++
        [.sendReturn 0 [⟨.IO_ERROR, ""⟩, .OK], .finish 0] ++ reusingRun ++
        [.receive ⟨(0, 0), 0⟩])).map (fun executor => (executor.owed, executor.owner 0)) =
        some ([⟨(0, 0), 0⟩], some (1, 0)) := by
      decide +kernel
    obtain ⟨executor, he, hs⟩ := Option.map_eq_some_iff.1 hu
    have hr : Reachable (system.restrict fun _ event _ => patient event = true) executor :=
      reachable_of_replay (fun _ _ _ => id) (fun _ _ _ => id) (.start rfl) he
    exact ⟨executor, hr, Prod.mk.inj hs⟩

end Executor
end UnifiedCache.Asu
