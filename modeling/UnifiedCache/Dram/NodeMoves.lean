import UnifiedCache.Dram.NodeActor

/-! What a call can do to an actor's requests, said once. Every public call is a
chain of the moves below; the clocks are left free. An invariant of the actor is
then checked move by move. -/
namespace UnifiedCache.Dram.NodeActor
open Table
variable (config : Config) (dependencies : NodeDependencies)

def settle (record : RequestRecord) (actor : NodeActor) : NodeActor :=
  queueCompletion config record.request record.failure record.entryResults
    (releaseReplySlot record actor)

def freshRecord (request : Request) (slot : ReplySlot) (actor : NodeActor) : RequestRecord where
  request := request
  token := tokenOf config request.requestId actor
  replySlot := slot

/-- The events after which the peer cannot write the slot of `token` any more. -/
def settles (token : RequestToken) : NodeEvent → Prop
  | .replyObserved observed _ _ => observed = token
  | .transmitCompleted observed status => observed = token ∧ status.failure = true
  | .fenceCompleted _ _ epoch _ => epoch = token.epoch
  | .connectCompleted .. => False

def tokenId? : Observation → Option RequestId
  | .acquired token _ => some token.requestId
  | .released token _ => some token.requestId
  | .submitted (.transmit token _ _) _ => some token.requestId
  | _ => none

/-- The last thing recorded about `token` is that the transport refused it. -/
def Refused (token : RequestToken) (history : List Observation) : Prop :=
  ∃ recent op payload status earlier,
    history = recent ++ .submitted (.transmit token op payload) status :: earlier ∧
      status.failure = true ∧ ∀ o ∈ recent, tokenId? o = none

inductive EventMove (actor : NodeActor) : NodeActor → Prop where
  | connected (event : NodeEvent) (actionAt : TimePoint) (connecting : actor.state = .connecting) :
      EventMove actor
        { actor.observe (.accepted event) with state := .active, nextActionAt := actionAt }
  | disconnected (event : NodeEvent) (actionAt : TimePoint)
      (connecting : actor.state = .connecting) :
      EventMove actor
        { actor.observe (.accepted event) with state := .disconnected, nextActionAt := actionAt }
  | fenced (nodeId : NodeId) (laneId : LaneId) (status : Status) (actionAt : TimePoint)
      (fencing : actor.state = .fencing) :
      EventMove actor
        { actor.observe (.accepted (.fenceCompleted nodeId laneId actor.epoch status)) with
          activeRequests := actor.activeRequests.mapValues passFence
          epoch := nextEpoch actor.epoch
          state := .disconnected
          nextActionAt := actionAt }
  | transmit (event : NodeEvent) (requestId : RequestId) (record : RequestRecord)
      (found : (requestId, record) ∈ actor.activeRequests.entries)
      (transmitting : record.state = .transmitting) :
      EventMove actor { actor.observe (.accepted event) with
        activeRequests := actor.activeRequests.modify requestId
          fun record => { record with state := .inflight } }
  | complete (event : NodeEvent) (requestId : RequestId) (record : RequestRecord)
      (outcome : RequestRecord → Status × List EntryResult)
      (found : (requestId, record) ∈ actor.activeRequests.entries)
      (settled : settles record.token event) :
      EventMove actor { actor.observe (.accepted event) with
        activeRequests := actor.activeRequests.modify requestId
          fun record => record.complete (outcome record).1 (outcome record).2 }

inductive Move (actor : NodeActor) : NodeActor → Prop where
  | clocks (actionAt checkAt pollAt : TimePoint) : Move actor { actor with
      nextActionAt := actionAt, pendingCheckAt := checkAt, nextPrerequisitePollAt := pollAt }
  | query (handle : UInt64) : Move actor (actor.observe (.queried handle))
  | flush : Move actor
      { actor.observe (.published actor.completionBatch) with completionBatch := [] }
  | refuse (before rest : List Request) (request : Request) (status : Status)
      (queued : actor.pendingRequests = before ++ request :: rest) :
      Move actor (queueCompletion config request status []
        { actor with pendingRequests := before ++ rest })
  /-- The head of the queue gets no slot, or its payload cannot be encoded. -/
  | drop (handle : UInt64) (request : Request) (rest : List Request)
      (acquired : Expected ReplySlot) (slot : ReplySlot) (status : Status)
      (queued : actor.pendingRequests = request :: rest)
      (fresh : request.requestId ∉ actor.activeRequests.keys)
      (owned : slot.localAddr ≠ 0 → acquired = .ok slot) :
      Move actor (settle config
        ((freshRecord config { request with prerequisiteHandle := handle } slot actor).complete
          status)
        { actor.observe (.acquired (tokenOf config request.requestId actor) acquired) with
          pendingRequests := rest })
  /-- The head of the queue is active while the transport is called. -/
  | launch (handle : UInt64) (request : Request) (rest : List Request) (slot : ReplySlot)
      (payload : List UInt8) (status : Status) (active : actor.state = .active)
      (queued : actor.pendingRequests = request :: rest)
      (fresh : request.requestId ∉ actor.activeRequests.keys) :
      Move actor
        { (actor.observe (.acquired (tokenOf config request.requestId actor) (.ok slot))).observe
            (.submitted (.transmit (tokenOf config request.requestId actor) request.op payload)
              status) with
          pendingRequests := rest
          activeRequests := actor.activeRequests.emplace request.requestId
            (freshRecord config { request with prerequisiteHandle := handle } slot actor) }
  | unsend (requestId : RequestId) (record : RequestRecord) (status : Status)
      (found : (requestId, record) ∈ actor.activeRequests.entries)
      (refused : Refused record.token actor.history) :
      Move actor (completeActive requestId status actor)
  | retire (requestId : RequestId) (record : RequestRecord)
      (found : (requestId, record) ∈ actor.activeRequests.entries)
      (completed : record.state = .completed) :
      Move actor (settle config record
        { actor with activeRequests := actor.activeRequests.erase requestId })
  | fence (now : TimePoint) (active : actor.state = .active) : Move actor (startFence now actor)
  | submitFence (nodeId : NodeId) (laneId : LaneId) (epoch : ConnectionEpoch) (status : Status) :
      Move actor (actor.observe (.submitted (.fenceEpoch nodeId laneId epoch) status))
  | submitConnect (nodeId : NodeId) (laneId : LaneId) (epoch : ConnectionEpoch)
      (peerAddr : String) (status : Status) :
      Move actor (actor.observe (.submitted (.connect nodeId laneId epoch peerAddr) status))
  | connect (empty : actor.activeRequests.entries = []) :
      Move actor { actor with state := .connecting }
  | event (next : NodeActor) (move : EventMove actor next) : Move actor next

variable {actor : NodeActor} {r : RequestId} {record : RequestRecord}

theorem retireRequest_of_find (h : actor.activeRequests.find? r = some record) :
    retireRequest config r actor = settle config record
        { actor with activeRequests := actor.activeRequests.erase r } := by
  unfold retireRequest settle
  rw [h]

theorem retireRequest_emplaced {table : Table RequestId RequestRecord} (status : Status)
    (fresh : r ∉ table.keys) (h : actor.activeRequests = table.emplace r record) :
    retireRequest config r (completeActive r status actor) =
      settle config (record.complete status) { actor with activeRequests := table } := by
  have hf : (completeActive r status actor).activeRequests.find? r = some (record.complete status) := by
    unfold completeActive
    rw [h, find?_modify, find?_emplace _ fresh, Option.map_some]
  rw [retireRequest_of_find config hf]
  unfold completeActive
  simp only [h, erase_modify, erase_emplace _ fresh]

section
variable (record actor)

theorem settle_eq : settle config record actor = { actor with
    completionBatch := (settle config record actor).completionBatch
    history := (settle config record actor).history } := by
  unfold settle queueCompletion releaseReplySlot
  split <;> rfl

@[simp] theorem state_settle : (settle config record actor).state = actor.state := by
  rw [settle_eq]

@[simp] theorem epoch_settle : (settle config record actor).epoch = actor.epoch := by
  rw [settle_eq]

@[simp] theorem nextActionAt_settle :
    (settle config record actor).nextActionAt = actor.nextActionAt := by
  rw [settle_eq]

@[simp] theorem pendingCheckAt_settle :
    (settle config record actor).pendingCheckAt = actor.pendingCheckAt := by
  rw [settle_eq]

@[simp] theorem nextPrerequisitePollAt_settle :
    (settle config record actor).nextPrerequisitePollAt = actor.nextPrerequisitePollAt := by
  rw [settle_eq]

@[simp] theorem activeRequests_settle :
    (settle config record actor).activeRequests = actor.activeRequests := by
  rw [settle_eq]

@[simp] theorem pendingRequests_settle :
    (settle config record actor).pendingRequests = actor.pendingRequests := by
  rw [settle_eq]

end

section
variable (record)
include record

@[simp] theorem waitForFence_token : (waitForFence record).token = record.token := by
  unfold waitForFence
  split <;> rfl

@[simp] theorem waitForFence_request : (waitForFence record).request = record.request := by
  unfold waitForFence
  split <;> rfl

@[simp] theorem waitForFence_slot : (waitForFence record).replySlot = record.replySlot := by
  unfold waitForFence
  split <;> rfl

end

theorem waitForFence_state (h : record.state ≠ .waitingFence) :
    (waitForFence record).state = .waitingFence ∨ (waitForFence record).state = .completed := by
  unfold waitForFence RequestRecord.isExposed
  cases hs : record.state <;> simp_all

theorem waitForFence_completed
    (h : (waitForFence record).state = .completed) : record.state = .completed := by
  unfold waitForFence at h
  split at h
  · simp at h
  · exact h

section
variable (record)
include record

@[simp] theorem passFence_token : (passFence record).token = record.token := by
  unfold passFence
  split <;> rfl

@[simp] theorem passFence_request : (passFence record).request = record.request := by
  unfold passFence
  split <;> rfl

@[simp] theorem passFence_slot : (passFence record).replySlot = record.replySlot := by
  unfold passFence
  split <;> rfl

end

theorem passFence_state (h : record.state = .waitingFence ∨ record.state = .completed) :
    (passFence record).state = .completed := by
  unfold passFence
  split
  · rfl
  · rename_i hw
    exact h.resolve_left hw

inductive Visited (active : Bool) (now : TimePoint) (walked : NodeActor × Bool)
    (requestId : RequestId) : NodeActor × Bool → Prop where
  | absent (h : requestId ∉ walked.1.activeRequests.keys) :
      Visited active now walked requestId walked
  | exposed (record : RequestRecord) (found : (requestId, record) ∈ walked.1.activeRequests.entries)
      (h : active = true ∧ record.isExposed = true) :
      Visited active now walked requestId
        ({ walked.1 with nextActionAt := min walked.1.nextActionAt record.request.deadline },
          walked.2 || decide (record.request.deadline ≤ now))
  | skipped (record : RequestRecord) (found : (requestId, record) ∈ walked.1.activeRequests.entries)
      (open_ : record.state ≠ .completed) (h : ¬(active = true ∧ record.isExposed = true)) :
      Visited active now walked requestId walked
  | retired (record : RequestRecord) (found : (requestId, record) ∈ walked.1.activeRequests.entries)
      (completed : record.state = .completed) :
      Visited active now walked requestId (settle config record
          { walked.1 with activeRequests := walked.1.activeRequests.erase requestId }, walked.2)

theorem finalizeStep_visited (active : Bool) (now : TimePoint) (walked : NodeActor × Bool)
    (r : RequestId) :
    Visited config active now walked r (finalizeStep config active now walked r) := by
  obtain ⟨actor, n⟩ := walked
  unfold finalizeStep
  dsimp only
  cases hf : actor.activeRequests.find? r with
  | none => exact .absent (find?_eq_none.1 hf)
  | some record =>
    have found := find?_eq_some.1 hf
    dsimp only
    split
    · rename_i ho
      split
      · rename_i h
        exact .exposed record found (by simpa using h)
      · rename_i h
        exact .skipped record found ho (by simpa using h)
    · rename_i h
      rw [retireRequest_of_find config hf]
      exact .retired record found (by simpa using h)

variable {config}

theorem Visited.entries {active : Bool} {now : TimePoint} {walked next : NodeActor × Bool}
    {r visited : RequestId} (h : Visited config active now walked visited next)
    (hm : (r, record) ∈ next.1.activeRequests.entries) :
    (r, record) ∈ walked.1.activeRequests.entries ∧ (r = visited → record.state ≠ .completed) := by
  cases h with
  | absent ha =>
    refine ⟨hm, fun e => ?_⟩
    exact absurd (mem_keys_of_mem hm) (e ▸ ha)
  | exposed _ f h =>
    refine ⟨hm, fun e hc => ?_⟩
    cases e
    rw [eq_of_mem f hm] at h
    simp [RequestRecord.isExposed, hc] at h
  | skipped _ f ho =>
    refine ⟨hm, fun e => ?_⟩
    cases e
    exact eq_of_mem f hm ▸ ho
  | retired =>
    rw [activeRequests_settle] at hm
    obtain ⟨hn, hm⟩ := mem_erase.1 hm
    exact ⟨hm, fun e => absurd e hn⟩

theorem finalizeLoop_entries (active : Bool) (now : TimePoint) (ids : List RequestId)
    (walked : NodeActor × Bool)
    (h : (r, record) ∈ (ids.foldl (finalizeStep config active now) walked).1.activeRequests.entries) :
    (r, record) ∈ walked.1.activeRequests.entries ∧ (r ∈ ids → record.state ≠ .completed) := by
  induction ids generalizing walked with
  | nil => exact ⟨h, by simp⟩
  | cons id _ ih =>
    rw [List.foldl_cons] at h
    obtain ⟨hm, hd⟩ := ih _ h
    obtain ⟨hm, hid⟩ := (finalizeStep_visited config active now walked id).entries hm
    refine ⟨hm, fun hn => ?_⟩
    obtain h | h := List.mem_cons.1 hn
    · exact hid h
    · exact hd h

def resetActionAt (actor : NodeActor) : NodeActor :=
  if actor.state = .active then { actor with nextActionAt := .max } else actor

variable (config) in
def walked (now : TimePoint) (actor : NodeActor) : NodeActor × Bool :=
  (dependencies.walk actor.history actor.activeRequests.keys).foldl
    (finalizeStep config (decide (actor.state = .active)) now) (resetActionAt actor, false)

variable (config) in
/-- What one visit keeps, the whole walk keeps. -/
theorem walked_induction {P : NodeActor × Bool → Prop} (now : TimePoint) (actor : NodeActor)
    (start : P (resetActionAt actor, false))
    (step : ∀ w r next, P w → Visited config (decide (actor.state = .active)) now w r next →
      P next) : P (walked config dependencies now actor) :=
  List.foldlRecOn _ _ start fun w h r _ => step w r _ h (finalizeStep_visited config _ now w r)

@[simp]
theorem state_resetActionAt (actor : NodeActor) : (resetActionAt actor).state = actor.state := by
  unfold resetActionAt
  split <;> rfl

variable (config) in
theorem walked_state (now : TimePoint) (actor : NodeActor) :
    (walked config dependencies now actor).1.state = actor.state ∧
    ((walked config dependencies now actor).2 = true → actor.state = .active) := by
  refine walked_induction config (P := fun w => w.1.state = actor.state ∧
    (w.2 = true → actor.state = .active)) dependencies now actor ⟨state_resetActionAt actor, nofun⟩ ?_
  intro w r next h v
  cases v with
  | exposed _ _ hx => exact ⟨h.1, fun _ => of_decide_eq_true hx.1⟩
  | retired => exact ⟨(state_settle _ _ _).trans h.1, h.2⟩
  | _ => exact h

theorem finalizeRequests_eq (now : TimePoint) (actor : NodeActor) :
    finalizeRequests config dependencies now actor =
      if (walked config dependencies now actor).2 then
        startFence now (walked config dependencies now actor).1
      else (walked config dependencies now actor).1 := by
  cases actor with
  | mk s => cases s <;> rfl

theorem finalizeRequests_retired (now : TimePoint) (actor : NodeActor)
    (h : (r, record) ∈ (finalizeRequests config dependencies now actor).activeRequests.entries) :
    record.state ≠ .completed := by
  have hl : ∀ {o : RequestRecord},
      (r, o) ∈ (walked config dependencies now actor).1.activeRequests.entries →
        o.state ≠ .completed := by
    intro o ho
    obtain ⟨hm, hd⟩ := finalizeLoop_entries _ _ _ _ ho
    refine hd ((dependencies.walk_perm _ _).mem_iff.2 ?_)
    have ha : (resetActionAt actor).activeRequests = actor.activeRequests := by
      unfold resetActionAt
      split <;> rfl
    exact ha ▸ mem_keys_of_mem hm
  rw [finalizeRequests_eq] at h
  split at h
  · obtain ⟨o, ho, rfl⟩ := (mem_mapValues _ _ _ _).1 h
    unfold waitForFence
    split
    · simp
    · exact hl ho
  · exact hl h

/-! Expiry leaves the connection and the active requests alone. -/

theorem expireLoop_frame (now : TimePoint) (kept rest : List Request) (actor : NodeActor) :
    (expireLoop config now kept rest actor).state = actor.state ∧
    (expireLoop config now kept rest actor).activeRequests = actor.activeRequests ∧
    (expireLoop config now kept rest actor).nextActionAt = actor.nextActionAt := by
  induction rest generalizing kept actor with
  | nil => exact ⟨rfl, rfl, rfl⟩
  | cons _ _ ih =>
    unfold expireLoop
    split
    · exact ih _ _
    · split <;> exact ih _ _

variable (config) in
theorem expirePendingRequests_frame (now : TimePoint) (actor : NodeActor) :
    (expirePendingRequests config now actor).state = actor.state ∧
    (expirePendingRequests config now actor).activeRequests = actor.activeRequests ∧
    (expirePendingRequests config now actor).nextActionAt = actor.nextActionAt := by
  unfold expirePendingRequests
  split
  · exact ⟨rfl, rfl, rfl⟩
  · exact expireLoop_frame now [] actor.pendingRequests _

def replyDecision (status : Status) (entryResults : List EntryResult) (now : TimePoint)
    (record : RequestRecord) : Status × List EntryResult :=
  if record.failure.same .Timeout ∨ record.request.deadline ≤ now then (.Timeout, [])
  else replyOutcome record.request.op status entryResults

theorem handle_event (cfg : Config) (event : NodeEvent) (now : TimePoint) (actor : NodeActor) :
    handle cfg event now actor = actor ∨ EventMove actor (handle cfg event now actor) := by
  cases event with
  | transmitCompleted _ status =>
    simp only [handle, handleTransmitCompleted]
    split
    · exact .inl rfl
    rename_i record hfi
    have found := find?_eq_some.1 hfi
    split
    · exact .inl rfl
    rename_i ht
    obtain ⟨hr, ho⟩ := not_or.1 ht
    right
    cases hs : status.success with
    | true =>
      have hf : transmitted status = fun record => { record with state := .inflight } := by
        funext record
        simp [transmitted, hs]
      rw [hf]
      exact .transmit _ _ record found (not_not.1 hr)
    | false =>
      have hf : transmitted status = fun record => record.complete status := by
        funext record
        simp [transmitted, hs]
      rw [hf]
      exact .complete _ _ record (fun _ => (status, [])) found
        ⟨(not_not.1 ho).symm, Status.success_eq_false.1 hs⟩
  | connectCompleted =>
    simp only [handle, handleConnectCompleted]
    split
    · exact .inl rfl
    rename_i ht
    have hc := not_not.1 (not_or.1 ht).2
    right
    split
    · exact .connected _ _ hc
    · exact .disconnected _ _ hc
  | fenceCompleted n l _ status =>
    simp only [handle, handleFenceCompleted]
    split
    · exact .inl rfl
    rename_i ht
    obtain ⟨he, hp⟩ := not_or.1 ht
    cases not_not.1 hp
    exact .inr (.fenced n l status now (not_not.1 he))
  | replyObserved _ status e =>
    simp only [handle, handleReplyObserved]
    split
    · exact .inl rfl
    rename_i record hfi
    have found := find?_eq_some.1 hfi
    split
    · exact .inl rfl
    rename_i ht
    have ho := not_not.1 (not_or.1 ht).1
    have hf : replied status e now = fun record =>
        record.complete (replyDecision status e now record).1
          (replyDecision status e now record).2 := by
      funext record
      unfold replied replyDecision
      split <;> rfl
    rw [hf]
    exact .inr (.complete _ _ record _ found ho.symm)

namespace EventMove
variable {actor next : NodeActor}

section
variable (h : EventMove actor next)
include h

theorem history : ∃ e, next.history = .accepted e :: actor.history := by
  cases h with
  | _ => exact ⟨_, rfl⟩

theorem queue : next.pendingRequests = actor.pendingRequests ∧
      next.pendingCheckAt = actor.pendingCheckAt := by
  cases h with
  | _ => exact ⟨rfl, rfl⟩

theorem records (hm : (r, record) ∈ next.activeRequests.entries) :
    ∃ old, (r, old) ∈ actor.activeRequests.entries ∧ old.request = record.request ∧
      old.token = record.token ∧ old.replySlot = record.replySlot := by
  cases h with
  | fenced =>
    obtain ⟨old, ho, rfl⟩ := (mem_mapValues _ _ _ _).1 hm
    exact ⟨old, ho, (passFence_request old).symm, (passFence_token old).symm,
      (passFence_slot old).symm⟩
  | transmit | complete =>
    obtain ht | he := mem_modify.1 hm
    · exact ⟨record, ht.2, rfl, rfl, rfl⟩
    · obtain ⟨rfl, old, ho, rfl⟩ := he
      exact ⟨old, ho, rfl, rfl, rfl⟩
  | _ => exact ⟨record, hm, rfl, rfl, rfl⟩

end
end EventMove

/-! An actor that is not active does not become so in `advance`. -/

theorem handleAll_down (cfg : Config) (events : List (NodeEvent × TimePoint)) (actor : NodeActor)
    (h : actor.state = .fencing ∨ actor.state = .disconnected) :
    (handleAll cfg events actor).state =
    .fencing ∨ (handleAll cfg events actor).state = .disconnected := by
  unfold handleAll
  induction events generalizing actor with
  | nil => exact h
  | cons ev _ ih =>
    rw [List.foldl_cons]
    apply ih
    obtain hs | move := handle_event cfg ev.1 ev.2 actor
    · rw [hs]
      exact h
    generalize handle cfg ev.1 ev.2 actor = next at move
    cases move with
    | connected _ _ c | disconnected _ _ c => simp [c] at h
    | fenced => exact .inr rfl
    | _ => exact h

theorem finalizeRequests_inactive (now : TimePoint) (i : actor.state ≠ .active)
    : (finalizeRequests config dependencies now actor).state ≠ .active := by
  obtain ⟨hs, hf⟩ := walked_state config dependencies now actor
  rw [finalizeRequests_eq]
  split
  · rename_i hn
    exact absurd (hf hn) i
  · rw [hs]
    exact i

theorem retryConnection_inactive (now : TimePoint) (i : actor.state ≠ .active) :
    (retryConnection config dependencies now actor).state ≠ .active := by
  have hd : ∀ {s : NodeState}, s = .fencing ∨ s = .disconnected → s ≠ .active := by
    rintro _ (rfl | rfl) <;> simp
  unfold retryConnection
  split
  · split
    · rename_i hs
      unfold tryConnect submit
      dsimp only
      split
      · simp
      · exact hd (handleAll_down config _ _ (.inr hs))
    · rename_i hs
      unfold tryFence submit
      dsimp only
      split
      all_goals exact hd (handleAll_down config _ _ (.inl hs))
    · exact i
  · exact i

theorem advance_inactive (cfg : Config) (deps : NodeDependencies) (now : TimePoint)
    (i : actor.state ≠ .active) : (advance cfg deps now actor).state ≠ .active := by
  have hr : (retryConnection cfg deps now
      (finalizeRequests cfg deps now actor)).state ≠ .active :=
    retryConnection_inactive deps now (finalizeRequests_inactive deps now i)
  rw [← (expirePendingRequests_frame cfg now _).1] at hr
  unfold advance flushCompletions dispatchPendingRequests
  dsimp only
  rw [if_pos hr]
  split <;> exact hr

@[simp] theorem handleRequest_state (request : Request) (now : TimePoint) (actor : NodeActor) :
    (handleRequest config request now actor).state = actor.state := by
  unfold handleRequest
  split <;> rfl

end UnifiedCache.Dram.NodeActor
