import UnifiedCache.Dram.NodeMoves

/-! The books of an actor: where each request is, and which records a node state
leaves room for. Every move keeps them. -/
namespace UnifiedCache.Dram
open List Table Request

def Request.key (request : Request) : TaskId × RequestId := (request.taskId, request.requestId)

def RequestCompleted.key (completion : RequestCompleted) : TaskId × RequestId :=
  (completion.taskId, completion.requestId)

namespace NodeActor

def completions (actor : NodeActor) : List RequestCompleted :=
  actor.history.filterMap fun
    | .completed completion => some completion
    | _ => none

def requests (actor : NodeActor) : List Request :=
  actor.history.filterMap fun
    | .requested request => some request
    | _ => none

def pendingKeys (actor : NodeActor) : List (TaskId × RequestId) :=
  actor.pendingRequests.map Request.key

def activeKeys (actor : NodeActor) : List (TaskId × RequestId) :=
  actor.activeRequests.entries.map fun p => p.2.request.key

def completedKeys (actor : NodeActor) : List (TaskId × RequestId) :=
  actor.completions.map RequestCompleted.key

def completedIds (actor : NodeActor) : List RequestId :=
  actor.completions.map RequestCompleted.requestId

variable {cfg : Config} {deps : NodeDependencies}

section
variable (record : RequestRecord) (actor : NodeActor)
include record actor

@[simp] theorem completions_settle : (settle cfg record actor).completions =
      completionOf cfg record.request record.failure record.entryResults ::
        actor.completions := by
  unfold settle queueCompletion releaseReplySlot
  split <;> rfl

@[simp] theorem requests_settle : (settle cfg record actor).requests = actor.requests := by
  unfold settle queueCompletion releaseReplySlot
  split <;> rfl

@[simp] theorem completedKeys_settle :
    (settle cfg record actor).completedKeys = record.request.key :: actor.completedKeys := by
  simp only [completedKeys, completions_settle, map_cons]
  rfl

end

structure Accounted (actor : NodeActor) : Prop where
  ids : ∀ requestId record, (requestId, record) ∈ actor.activeRequests.entries →
    record.request.requestId = requestId
  partition : (actor.pendingKeys ++ actor.activeKeys ++ actor.completedKeys).Perm
    (actor.requests.map Request.key)
  distinct : (actor.requests.map Request.requestId).Nodup

namespace Accounted
variable {actor next : NodeActor}

theorem keys_eq (h : Accounted actor) :
    actor.activeRequests.keys = actor.activeKeys.map Prod.snd := by
  unfold Table.keys activeKeys
  rw [map_map]
  apply map_congr_left
  intro p hp
  exact (h.ids p.1 p.2 hp).symm

theorem nodup (h : Accounted actor) :
    ((actor.pendingKeys ++ actor.activeKeys ++ actor.completedKeys).map Prod.snd).Nodup := by
  have hp := h.partition.map Prod.snd
  rw [map_map] at hp
  exact hp.nodup_iff.2 h.distinct

theorem nodup_ids (h : Accounted actor) :
    (actor.pendingRequests.map requestId ++ actor.activeRequests.keys ++
      actor.completedIds).Nodup := by
  have hn := h.nodup
  rw [map_append, map_append, ← h.keys_eq] at hn
  unfold pendingKeys completedKeys at hn
  rw [map_map, map_map] at hn
  exact hn

variable {req : Request} {rest : List Request}

section
variable (h : Accounted actor)
include h

theorem fresh (queued : actor.pendingRequests = req :: rest) :
    req.requestId ∉ actor.activeRequests.keys := by
  have hd := disjoint_of_nodup_append (nodup_append.1 h.nodup_ids).1
  refine fun ha => hd ?_ ha
  rw [queued]
  exact mem_cons_self

theorem pending_not_completed (q : req ∈ actor.pendingRequests) :
    req.requestId ∉ actor.completedIds := by
  have hdi := disjoint_of_nodup_append h.nodup_ids
  refine fun hd => hdi ?_ hd
  exact mem_append_left _ (mem_map_of_mem q)

theorem active_not_completed {requestId : RequestId} {record : RequestRecord} (f : (requestId,
    record) ∈ actor.activeRequests.entries) : requestId ∉ actor.completedIds := by
  have hdi := disjoint_of_nodup_append h.nodup_ids
  refine fun hd => hdi ?_ hd
  exact mem_append_right _ (mem_keys_of_mem f)

theorem of_mapValues {change : RequestRecord → RequestRecord}
    (hf : ∀ record, (change record).request = record.request)
    (ha : next.activeRequests = actor.activeRequests.mapValues change)
    (hp : next.pendingRequests = actor.pendingRequests) (hc : next.completions = actor.completions)
    (hr : next.requests = actor.requests) : Accounted next := by
  refine ⟨?_, ?_, hr ▸ h.distinct⟩
  · intro requestId record hm
    rw [ha] at hm
    obtain ⟨old, ho, rfl⟩ := (mem_mapValues _ _ _ _).1 hm
    rw [hf]
    exact h.ids requestId old ho
  unfold pendingKeys activeKeys completedKeys
  rw [hp, hc, hr, ha, map_mapValues]
  · exact h.partition
  · intro _ record
    rw [hf]

theorem of_modify (requestId : RequestId) (change : RequestRecord → RequestRecord)
    (hf : ∀ record, (change record).request = record.request)
    (ha : next.activeRequests = actor.activeRequests.modify requestId change)
    (hp : next.pendingRequests = actor.pendingRequests) (hc : next.completions = actor.completions)
    (hr : next.requests = actor.requests) : Accounted next := by
  refine ⟨?_, ?_, hr ▸ h.distinct⟩
  · intro o record hm
    rw [ha] at hm
    obtain ht | he := mem_modify.1 hm
    · exact h.ids o record ht.2
    · obtain ⟨rfl, old, ho, rfl⟩ := he
      rw [hf]
      exact h.ids o old ho
  unfold pendingKeys activeKeys completedKeys
  rw [hp, hc, hr, ha, map_modify]
  · exact h.partition
  · intro record
    rw [hf]

theorem of_completed (req : Request)
    (hd : ∀ requestId record, (requestId, record) ∈ next.activeRequests.entries →
      record.request.requestId = requestId) (hl : (actor.pendingKeys ++ actor.activeKeys).Perm
      (req.key :: (next.pendingKeys ++ next.activeKeys)))
    (hc : next.completedKeys = req.key :: actor.completedKeys)
    (hr : next.requests = actor.requests) : Accounted next := by
  refine ⟨hd, ?_, hr ▸ h.distinct⟩
  rw [hc, hr]
  calc next.pendingKeys ++ next.activeKeys ++ req.key :: actor.completedKeys
    _ |>.Perm (req.key :: (next.pendingKeys ++ next.activeKeys) ++ actor.completedKeys) :=
      perm_middle
    _ |>.Perm (actor.pendingKeys ++ actor.activeKeys ++ actor.completedKeys) :=
      (hl.append_right _).symm
    _ |>.Perm (actor.requests.map key) := h.partition

theorem of_settled {left : NodeActor} (record : RequestRecord)
    (hd : ∀ requestId record, (requestId, record) ∈ left.activeRequests.entries →
      record.request.requestId = requestId) (hl : (actor.pendingKeys ++ actor.activeKeys).Perm
      (record.request.key :: (left.pendingKeys ++ left.activeKeys)))
    (hc : left.completions = actor.completions)
    (hr : left.requests = actor.requests) : Accounted (settle cfg record left) := by
  refine h.of_completed record.request ?_ ?_ ?_ ((requests_settle _ _).trans hr)
  · rw [activeRequests_settle]
    exact hd
  · unfold pendingKeys activeKeys at hl ⊢
    rw [pendingRequests_settle, activeRequests_settle]
    exact hl
  · rw [completedKeys_settle]
    unfold completedKeys
    rw [hc]

theorem keep_launched (handle : UInt64) (slot : ReplySlot) (queued : actor.pendingRequests = req ::
    rest) (fresh : req.requestId ∉ actor.activeRequests.keys) (hp : next.pendingRequests = rest)
    (ha : next.activeRequests = actor.activeRequests.emplace req.requestId
      (freshRecord cfg { req with prerequisiteHandle := handle } slot actor))
    (hc : next.completions = actor.completions)
    (hr : next.requests = actor.requests) : Accounted next := by
  refine ⟨?_, ?_, hr ▸ h.distinct⟩
  · intro requestId record hm
    rw [ha, entries_emplace _ fresh, mem_append, mem_singleton] at hm
    obtain ho | hn := hm
    · exact h.ids requestId record ho
    · cases hn
      rfl
  have hk : next.activeKeys = actor.activeKeys ++ [req.key] := by
    unfold activeKeys
    rw [ha, entries_emplace _ fresh, map_append]
    rfl
  have hv : (rest.map key ++ (actor.activeKeys ++ [req.key])).Perm
      (actor.pendingKeys ++ actor.activeKeys) := by
    unfold pendingKeys
    rw [queued, ← append_assoc]
    exact perm_append_comm
  rw [hk, hr]
  unfold pendingKeys completedKeys
  rw [hp, hc]
  exact (hv.append_right _).trans h.partition

theorem keep_event (move : EventMove actor next) : Accounted next := by
  cases move with
  | fenced =>
    exact h.of_mapValues passFence_request rfl rfl rfl rfl
  | transmit _ requestId record =>
    exact h.of_modify requestId (fun record => { record with state := .inflight }) (fun _ => rfl)
      rfl rfl rfl rfl
  | complete _ requestId record o =>
    exact h.of_modify requestId
      (fun record => record.complete (o record).1 (o record).2) (fun _ => rfl)
      rfl rfl rfl rfl
  | _ => exact { h with }

theorem keep (move : Move cfg actor next) : Accounted next := by
  cases move with
  | refuse b rest req _ q =>
    refine h.of_completed req h.ids ?_ rfl rfl
    have hk : actor.pendingKeys = b.map key ++ req.key :: rest.map key := by
      unfold pendingKeys
      rw [q, map_append, map_cons]
    have hn : (b ++ rest).map key = b.map key ++ rest.map key := map_append
    rw [hk]
    exact (perm_middle.append_right _).trans (hn ▸ .refl _)
  | drop _ _ _ _ _ _ q =>
    refine h.of_settled _ h.ids ?_ rfl rfl
    unfold pendingKeys
    rw [q]
    exact .refl _
  | launch handle _ _ sl _ _ _ q f =>
    exact h.keep_launched handle sl q f rfl rfl rfl rfl
  | unsend requestId record s =>
    exact h.of_modify requestId (fun record => record.complete s) (fun _ => rfl) rfl rfl rfl rfl
  | retire _ record fo =>
    refine h.of_settled record ?_ ?_ rfl rfl
    · intro o k hm
      exact h.ids o k (mem_erase.1 hm).2
    · have hp := (perm_erase fo).map fun p => p.2.request.key
      exact (hp.append_left _).trans perm_middle
  | fence => exact h.of_mapValues waitForFence_request rfl rfl rfl rfl
  | event _ move => exact h.keep_event move
  | _ => exact { h with }

end

theorem start : Accounted {} where
  ids := by simp
  partition := .refl _
  distinct := nodup_nil

theorem handleRequest (h : Accounted actor) (now : TimePoint)
    (new : req.requestId ∉ actor.requests.map requestId) :
    Accounted (handleRequest cfg req now actor) := by
  have hd : ((req :: actor.requests).map requestId).Nodup :=
    nodup_cons.2 ⟨new, h.distinct⟩
  unfold NodeActor.handleRequest
  split
  · refine ⟨h.ids, ?_, hd⟩
    exact perm_middle.trans (h.partition.cons _)
  refine ⟨h.ids, ?_, hd⟩
  refine List.Perm.trans ?_ (h.partition.cons req.key)
  unfold pendingKeys
  simp only [map_append, map_cons, map_nil, append_assoc]
  exact perm_middle

end Accounted


def PhaseAllows (epoch : ConnectionEpoch) (record : RequestRecord) : NodeState → Prop
  | .disconnected => record.state = .completed
  | .connecting => False
  | .active => record.state ≠ .waitingFence ∧ record.token.epoch = epoch
  | .fencing => record.state = .waitingFence ∨ record.state = .completed

structure Phased (actor : NodeActor) : Prop where
  token : ∀ {requestId record}, (requestId, record) ∈ actor.activeRequests.entries →
    record.token.requestId = requestId
  epoch : ∀ {requestId record}, (requestId, record) ∈ actor.activeRequests.entries →
    record.state ≠ .completed → record.token.epoch = actor.epoch
  phase : ∀ {requestId record}, (requestId, record) ∈ actor.activeRequests.entries →
    PhaseAllows actor.epoch record actor.state

namespace Phased

theorem start : Phased {} := by
  constructor <;> simp

variable {actor next : NodeActor} {state : NodeState} {reqId : RequestId}
  {record : RequestRecord}

theorem phase_at (h : Phased actor) (hs : actor.state = state)
    (hm : (reqId, record) ∈ actor.activeRequests.entries) : PhaseAllows actor.epoch record state :=
  hs ▸ h.phase hm

theorem of_subset (h : Phased actor)
    (ha : ∀ p ∈ next.activeRequests.entries, p ∈ actor.activeRequests.entries)
    (he : next.epoch = actor.epoch) (hs : next.state = actor.state) : Phased next where
  token hm := h.token (ha _ hm)
  epoch hm ho := he ▸ h.epoch (ha _ hm) ho
  phase hm := he ▸ hs ▸ h.phase (ha _ hm)

theorem of_empty (he : ∀ p ∈ actor.activeRequests.entries, False) : Phased actor where
  token hm := (he _ hm).elim
  epoch hm := (he _ hm).elim
  phase hm := (he _ hm).elim

theorem of_modify (h : Phased actor) (change : RequestRecord → RequestRecord)
    (fo : (reqId, record) ∈ actor.activeRequests.entries)
    (ha : next.activeRequests = actor.activeRequests.modify reqId change)
    (hp : next.epoch = actor.epoch)
    (ht : next.state = actor.state) (hto : (change record).token = record.token)
    (hop : (change record).state ≠ .completed → record.token.epoch = actor.epoch)
    (hh : PhaseAllows actor.epoch (change record) actor.state) : Phased next := by
  have hsp : ∀ {o r}, (o, r) ∈ next.activeRequests.entries → (o, r) ∈ actor.activeRequests.entries ∨
        o = reqId ∧ r = change record := by
    intro o r hm
    rw [ha] at hm
    obtain hot | he := mem_modify.1 hm
    · exact .inl hot.2
    · obtain ⟨rfl, old, ho, rfl⟩ := he
      exact .inr ⟨rfl, eq_of_mem ho fo ▸ rfl⟩
  constructor
  · intro o r hm
    obtain ho | he := hsp hm
    · exact h.token ho
    · obtain ⟨rfl, rfl⟩ := he
      exact hto ▸ h.token fo
  · intro o r hm hs
    obtain ho | he := hsp hm
    · exact hp ▸ h.epoch ho hs
    · obtain ⟨rfl, rfl⟩ := he
      rw [hto, hp]
      exact hop hs
  intro o r hm
  obtain ho | he := hsp hm
  · exact hp ▸ ht ▸ h.phase ho
  · obtain ⟨rfl, rfl⟩ := he
    exact hp ▸ ht ▸ hh

theorem of_settled {left : NodeActor} (h : Phased actor) (record : RequestRecord)
    (ha : ∀ p ∈ left.activeRequests.entries, p ∈ actor.activeRequests.entries)
    (he : left.epoch = actor.epoch) (hs : left.state = actor.state) :
    Phased (settle cfg record left) := by
  refine h.of_subset ?_ ?_ ((state_settle _ _ _).trans hs)
  · rw [activeRequests_settle]
    exact ha
  · rw [epoch_settle]
    exact he

theorem keep_launched (h : Phased actor) (req : Request) (slot : ReplySlot)
    (active : actor.state = .active) (fresh : req.requestId ∉ actor.activeRequests.keys)
    (ha : next.activeRequests = actor.activeRequests.emplace req.requestId
      (freshRecord cfg req slot actor))
    (he : next.epoch = actor.epoch) (ht : next.state = actor.state) : Phased next := by
  have hs : ∀ {reqId record}, (reqId, record) ∈ next.activeRequests.entries →
      (reqId, record) ∈ actor.activeRequests.entries ∨
        reqId = req.requestId ∧ record = freshRecord cfg req slot actor := by
    intro reqId record hm
    rw [ha, entries_emplace _ fresh] at hm
    simpa using hm
  constructor
  · intro reqId record hm
    obtain ho | hn := hs hm
    · exact h.token ho
    · obtain ⟨rfl, rfl⟩ := hn
      rfl
  · intro reqId record hm hp
    rw [he]
    obtain ho | hn := hs hm
    · exact h.epoch ho hp
    · obtain ⟨rfl, rfl⟩ := hn
      rfl
  intro reqId record hm
  rw [he, ht]
  obtain ho | hn := hs hm
  · exact h.phase ho
  · obtain ⟨rfl, rfl⟩ := hn
    rw [active]
    exact ⟨by simp [freshRecord], rfl⟩

theorem phaseAllows_complete {epoch : ConnectionEpoch} (h : PhaseAllows epoch record state)
    (status : Status)
    (results : List EntryResult) : PhaseAllows epoch (record.complete status results) state := by
  cases state with
  | disconnected => rfl
  | connecting => exact h
  | active => exact ⟨by simp [RequestRecord.complete], h.2⟩
  | fencing => exact .inr rfl

theorem keep_event (h : Phased actor) (move : EventMove actor next) : Phased next := by
  cases move with
  | connected _ _ c
  | disconnected _ _ c => exact of_empty fun _ hp => h.phase_at c hp
  | fenced _ _ _ _ f =>
    have hc : ∀ {reqId record}, (reqId, record) ∈
        (actor.activeRequests.mapValues passFence).entries → record.state = .completed := by
      intro reqId record hm
      obtain ⟨old, ho, rfl⟩ := (mem_mapValues _ _ _ _).1 hm
      exact passFence_state (h.phase_at f ho)
    constructor
    · intro reqId record hm
      obtain ⟨old, ho, rfl⟩ := (mem_mapValues _ _ _ _).1 hm
      rw [passFence_token]
      exact h.token ho
    · intro reqId record hm hop
      exact absurd (hc hm) hop
    · intro reqId record hm
      exact hc hm
  | transmit _ _ record fo t =>
    refine h.of_modify (fun record => { record with state := .inflight }) fo rfl rfl rfl rfl
      (fun _ => ?_) ?_
    · exact h.epoch fo (by simp [t])
    · have hh := h.phase fo
      revert hh
      cases actor.state <;> simp [PhaseAllows, t]
  | complete _ _ record o fo =>
    exact h.of_modify (fun record => record.complete (o record).1 (o record).2)
      fo rfl rfl rfl rfl (fun hop => absurd rfl hop)
      (phaseAllows_complete (h.phase fo) _ _)

theorem keep (h : Phased actor) (move : Move cfg actor next) : Phased next := by
  cases move with
  | connect e =>
    refine of_empty fun p hp => ?_
    rw [e] at hp
    exact not_mem_nil hp
  | drop =>
    exact h.of_settled _ (fun _ hp => hp) rfl rfl
  | launch handle req _ sl _ _ a _ f =>
    exact h.keep_launched { req with prerequisiteHandle := handle } sl a f rfl rfl rfl
  | unsend _ record s fo =>
    exact h.of_modify (fun record => record.complete s) fo rfl rfl rfl rfl
      (fun hop => absurd rfl hop) (phaseAllows_complete (h.phase fo) s [])
  | retire _ record =>
    exact h.of_settled record (fun _ hp => (mem_erase.1 hp).2) rfl rfl
  | fence _ a =>
    have hh : ∀ {reqId record}, (reqId, record) ∈ actor.activeRequests.entries →
        PhaseAllows actor.epoch record .active := h.phase_at a
    constructor
    · intro reqId record hm
      obtain ⟨old, ho, rfl⟩ := (mem_mapValues _ _ _ _).1 hm
      rw [waitForFence_token]
      exact h.token ho
    · intro reqId record hm _
      obtain ⟨old, ho, rfl⟩ := (mem_mapValues _ _ _ _).1 hm
      rw [waitForFence_token]
      exact (hh ho).2
    · intro reqId record hm
      obtain ⟨old, ho, rfl⟩ := (mem_mapValues _ _ _ _).1 hm
      exact waitForFence_state (hh ho).1
  | event _ move => exact h.keep_event move
  | _ => exact { h with }

end Phased

structure Sound (actor : NodeActor) : Prop where
  accounted : Accounted actor
  phased : Phased actor

namespace Sound
variable {actor : NodeActor}

theorem keep {next : NodeActor} (h : Sound actor) (move : Move cfg actor next) : Sound next :=
  ⟨h.accounted.keep move, h.phased.keep move⟩

theorem handleRequest (h : Sound actor) {req : Request} (now : TimePoint)
    (new : req.requestId ∉ actor.requests.map requestId) :
    Sound (handleRequest cfg req now actor) := by
  refine ⟨h.accounted.handleRequest now new, ?_⟩
  unfold NodeActor.handleRequest
  split
  all_goals exact ⟨h.phased.token, h.phased.epoch, h.phased.phase⟩

theorem idle (h : Sound actor) (disconnected : actor.state = .disconnected)
    (retired : ∀ p ∈ actor.activeRequests.entries, p.2.state ≠ .completed) :
    actor.activeRequests.entries = [] := by
  refine eq_nil_iff_forall_not_mem.2 ?_
  intro p hp
  exact retired p hp (h.phased.phase_at disconnected hp)

end Sound
end NodeActor
end UnifiedCache.Dram
