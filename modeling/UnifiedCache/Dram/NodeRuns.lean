import UnifiedCache.Dram.NodeBooks

/-! Every call is a chain of moves, so an invariant that each move keeps holds
after every sequence of calls with distinct request ids. -/
namespace UnifiedCache.Dram.NodeActor
open List NodeActor Table
variable {config : Config}

def Invariant (config : Config) (I : NodeActor → Prop) : Prop :=
  ∀ {actor next}, Sound actor → I actor → Move config actor next → I next

structure Held (I : NodeActor → Prop) (actor : NodeActor) : Prop where
  sound : Sound actor
  holds : I actor

def popTo (rest : List Request) (actor : NodeActor) : NodeActor :=
  { actor with pendingRequests := rest }

/-! Nothing that happens while a request is started looks at the queue. -/

@[simp] theorem settle_popTo (r : RequestRecord) (rest : List Request) (actor : NodeActor) :
    popTo rest (settle config r actor) = settle config r (popTo rest actor) := by
  unfold popTo settle queueCompletion releaseReplySlot
  split <;> rfl

@[simp] theorem retireRequest_popTo (r : RequestId) (rest : List Request) (actor : NodeActor) :
    popTo rest (retireRequest config r actor) = retireRequest config r (popTo rest actor) := by
  cases hfi : actor.activeRequests.find? r with
  | none =>
    have hf : (popTo rest actor).activeRequests.find? r = none := hfi
    unfold retireRequest
    rw [hfi, hf]
  | some record =>
    have hf : (popTo rest actor).activeRequests.find? r = some record := hfi
    rw [retireRequest_of_find config hfi, retireRequest_of_find config hf, settle_popTo]
    rfl

@[simp]
theorem handle_popTo (event : NodeEvent) (now : TimePoint) (rest : List Request)
    (actor : NodeActor) :
    popTo rest (handle config event now actor) = handle config event now (popTo rest actor) := by
  cases event with
  | transmitCompleted =>
    simp only [handle, handleTransmitCompleted, popTo]
    split
    · rfl
    · split <;> rfl
  | connectCompleted =>
    simp only [handle, handleConnectCompleted]
    split
    all_goals rename_i ht
    · exact (if_pos ht).symm
    · refine .trans ?_ (if_neg ht).symm
      split <;> rfl
  | fenceCompleted =>
    simp only [handle, handleFenceCompleted]
    split
    all_goals rename_i ht
    · exact (if_pos ht).symm
    · exact (if_neg ht).symm
  | replyObserved =>
    simp only [handle, handleReplyObserved, popTo]
    split
    · rfl
    · split <;> rfl

@[simp]
theorem handleAll_popTo (e : List (NodeEvent × TimePoint)) (rest : List Request) (actor : NodeActor)
    : popTo rest (handleAll config e actor) = handleAll config e (popTo rest actor) := by
  unfold handleAll
  induction e generalizing actor with
  | nil => rfl
  | cons _ _ ih =>
    rw [foldl_cons, foldl_cons, ih, handle_popTo]

variable {deps : NodeDependencies}

@[simp] theorem concludeTransmit_popTo (r : RequestId) (s : Status) (rest : List Request)
    (actor : NodeActor) : popTo rest (concludeTransmit config r s actor) =
    concludeTransmit config r s (popTo rest actor) := by
  have hs : (popTo rest actor).activeRequests = actor.activeRequests := rfl
  unfold concludeTransmit
  rw [hs]
  cases actor.activeRequests.find? r with
  | none => rfl
  | some =>
    dsimp only
    split
    · exact retireRequest_popTo _ _ _
    · split
      · exact retireRequest_popTo _ _ _
      · rfl

/-! What the events during a call of the transport leave alone. -/

theorem handleAll_history (config : Config) (e : List (NodeEvent × TimePoint)) (actor : NodeActor) :
    ∃ r, (handleAll config e actor).history = r ++ actor.history ∧ ∀ o ∈ r, tokenId? o = none := by
  unfold handleAll
  induction e generalizing actor with
  | nil => exact ⟨[], rfl, by simp⟩
  | cons ev _ ih =>
    rw [foldl_cons]
    obtain ⟨r, hr, ht⟩ := ih (handle config ev.1 ev.2 actor)
    obtain hs | move := handle_event config ev.1 ev.2 actor
    · rw [hs] at hr ⊢
      exact ⟨r, hr, ht⟩
    obtain ⟨a, ha⟩ := move.history
    refine ⟨r ++ [.accepted a], ?_, ?_⟩
    · rw [hr, ha, append_assoc]
      rfl
    intro o hm
    obtain hrs | he := mem_append.1 hm
    · exact ht o hrs
    · cases mem_singleton.1 he
      rfl

variable {actor : NodeActor}

theorem handleAll_token {events : List (NodeEvent × TimePoint)} {requestId : RequestId}
    {record : RequestRecord}
    (hm : (requestId, record) ∈ (handleAll config events actor).activeRequests.entries) :
    ∃ old, (requestId, old) ∈ actor.activeRequests.entries ∧ old.token = record.token := by
  unfold handleAll at hm
  induction events generalizing actor with
  | nil => exact ⟨record, hm, rfl⟩
  | cons ev _ ih =>
    rw [foldl_cons] at hm
    obtain ⟨m, hmi, ht⟩ := ih hm
    obtain hs | move := handle_event config ev.1 ev.2 actor
    · rw [hs] at hmi
      exact ⟨m, hmi, ht⟩
    · obtain ⟨old, ho, _, hl, _⟩ := move.records hmi
      exact ⟨old, ho, hl.trans ht⟩

section
variable {I : NodeActor → Prop} (inv : Invariant config I)
include inv
variable {actor next : NodeActor}

section
variable (h : Held I actor)
include h

theorem Held.move (move : Move config actor next) : Held I next :=
  ⟨h.sound.keep move, inv h.sound h.holds move⟩

theorem Held.clocks (action check poll : TimePoint) : Held I { actor with
      nextActionAt := action, pendingCheckAt := check, nextPrerequisitePollAt := poll } :=
  h.move inv (.clocks action check poll)

theorem Held.handle (event : NodeEvent) (now : TimePoint) : Held I
    (handle config event now actor) := by
  obtain hs | move := handle_event config event now actor
  · rw [hs]
    exact h
  · exact h.move inv (.event _ move)

theorem Held.handleAll (events : List (NodeEvent × TimePoint)) : Held I
    (handleAll config events actor) := by
  induction events generalizing actor with
  | nil => exact h
  | cons ev _ ih => exact ih (h.handle inv ev.1 ev.2)

end

theorem Held.finalizeRequests (now : TimePoint) (h : Held I actor) :
    Held I (finalizeRequests config deps now actor) := by
  have hw : Held I (walked config deps now actor).1 := by
    refine walked_induction config (P := fun w => Held I w.1) deps now actor ?_ ?_
    · unfold resetActionAt
      split
      · exact h.clocks inv _ _ _
      · exact h
    · intro w id next h v
      cases v with
      | exposed => exact h.clocks inv _ _ _
      | retired r f c => exact h.move inv (.retire id r f c)
      | _ => exact h
  obtain ⟨hs, hf⟩ := walked_state config deps now actor
  rw [finalizeRequests_eq]
  split
  · rename_i hn
    exact hw.move inv (.fence now (hs.trans (hf hn)))
  · exact hw

omit inv in
theorem handleAll_idle (config : Config) (events : List (NodeEvent × TimePoint))
    (disconnected : actor.state = .disconnected) (empty : actor.activeRequests.entries = []) :
    handleAll config events actor = actor := by
  have hf : ∀ r, actor.activeRequests.find? r = none := by
    intro r
    rw [Table.find?_eq_none]
    simp [Table.keys, empty]
  have hh : ∀ ev now, handle config ev now actor = actor := by
    intro ev now
    cases ev with
    | transmitCompleted => simp [handle, handleTransmitCompleted, hf]
    | connectCompleted =>
      simp [handle, handleConnectCompleted, disconnected]
    | fenceCompleted =>
      simp [handle, handleFenceCompleted, disconnected]
    | replyObserved =>
      simp [handle, handleReplyObserved, hf]
  unfold handleAll
  induction events with
  | nil => rfl
  | cons _ _ ih =>
    rw [foldl_cons, hh]
    exact ih

theorem Held.retryConnection (now : TimePoint) (h : Held I actor)
    (r : ∀ p ∈ actor.activeRequests.entries, p.2.state ≠ .completed) :
    Held I (retryConnection config deps now actor) := by
  unfold NodeActor.retryConnection
  split
  · split
    · rename_i ht
      have he := h.sound.idle ht r
      unfold tryConnect submit
      dsimp only
      rw [handleAll_idle config _ (by exact ht) (by exact he)]
      have hs := fun s => h.move inv (.submitConnect config.endpoint.nodeId
        kDefaultLaneId actor.epoch config.endpoint.peerAddr s)
      split
      · exact ((hs _).move inv (.connect he)).clocks inv _ _ _
      · exact (hs _).clocks inv _ _ _
    · unfold tryFence submit
      dsimp only
      have hs := fun s => h.move inv (.submitFence config.endpoint.nodeId
        kDefaultLaneId actor.epoch s)
      split
      all_goals exact ((hs _).handleAll inv _).clocks inv _ _ _
    · exact h
  · exact h

theorem Held.expireLoop (now : TimePoint) (k rest : List Request)
    (hq : actor.pendingRequests = k ++ rest) (h : Held I actor) :
    Held I (expireLoop config now k rest actor) := by
  induction rest generalizing k actor with
  | nil => exact h
  | cons request rest ih =>
    unfold expireLoop
    split
    · exact ih _ (by simpa using hq) (h.clocks inv _ _ _)
    split
    · exact ih _ rfl ((h.clocks inv _ _ .min).move inv (.refuse k rest request .Timeout hq))
    · exact ih _ rfl (h.move inv (.refuse k rest request .Timeout hq))

theorem Held.expirePendingRequests (now : TimePoint) (h : Held I actor) :
    Held I (expirePendingRequests config now actor) := by
  unfold NodeActor.expirePendingRequests
  split
  · exact h
  · exact Held.expireLoop inv now [] _ rfl (h.clocks inv _ _ _)

theorem Held.concludeTransmit {requestId : RequestId} {status : Status} (h : Held I actor)
    (hr : status.failure = true → ∀ re, (requestId, re) ∈ actor.activeRequests.entries →
      Refused re.token actor.history) : Held I (concludeTransmit config requestId status actor)
      := by
  unfold NodeActor.concludeTransmit
  cases hfi : actor.activeRequests.find? requestId with
  | none => exact h
  | some re =>
    have found := find?_eq_some.1 hfi
    dsimp only
    split
    · rename_i hc
      rw [retireRequest_of_find config hfi]
      exact h.move inv (.retire requestId re found hc)
    split
    · rename_i ha
      have hu := h.move inv (.unsend requestId re status found (hr ha re found))
      have hf : (completeActive requestId status actor).activeRequests.find? requestId = some (re.complete status) := by
        unfold completeActive
        rw [find?_modify, hfi, Option.map_some]
      rw [retireRequest_of_find config hf]
      exact hu.move inv (.retire requestId _ (find?_eq_some.1 hf) rfl)
    · exact h

variable {req : Request} {rest : List Request}

theorem Held.transmitRequest {slot : ReplySlot} (h : Held I actor) (handle : UInt64)
    (payload : List UInt8) (active : actor.state = .active) (queued : actor.pendingRequests = req ::
    rest) (fresh : req.requestId ∉ actor.activeRequests.keys) {started : RequestRecord}
    (hr : started = freshRecord config { req with prerequisiteHandle := handle } slot actor) :
    Held I (popTo rest (transmitRequest config deps req.requestId started payload
      { actor.observe (.acquired (tokenOf config req.requestId actor) (.ok slot)) with
        activeRequests := actor.activeRequests.emplace req.requestId started })) := by
  subst hr
  unfold NodeActor.transmitRequest submit
  generalize deps.submitTransport _ _ = submission
  rw [concludeTransmit_popTo, handleAll_popTo]
  have hl := h.move inv (.launch handle req rest slot payload submission.status active queued fresh)
  have hs := hl.handleAll inv submission.events
  refine hs.concludeTransmit inv ?_
  -- The record still carries the token that was just refused.
  intro hf started hm
  obtain ⟨r, he, ht⟩ := handleAll_history config submission.events
    { (actor.observe (.acquired (tokenOf config req.requestId actor) (.ok slot))).observe
        (.submitted (.transmit (tokenOf config req.requestId actor) req.op payload)
          submission.status) with
      pendingRequests := rest
      activeRequests := actor.activeRequests.emplace req.requestId
        (freshRecord config { req with prerequisiteHandle := handle } slot actor) }
  obtain ⟨old, ho, ha⟩ := handleAll_token hm
  have hfs := find?_eq_some.1 (find?_emplace
    (freshRecord config { req with prerequisiteHandle := handle } slot actor) fresh)
  rw [← ha, eq_of_mem ho hfs]
  exact ⟨r, req.op, payload, submission.status, _, he, hf, ht⟩

theorem Held.startRequest (h : Held I actor) (handle : UInt64) (active : actor.state = .active)
    (queued : actor.pendingRequests = req :: rest) : Held I (popTo rest (startRequest config deps
      { req with prerequisiteHandle := handle } actor)) := by
  have fresh := h.sound.accounted.fresh queued
  unfold NodeActor.startRequest
  simp only [find?_emplace _ fresh]
  generalize deps.acquireReplySlot _ _ _ _ = acquired
  cases acquired with
  | error s =>
    simp only
    rw [retireRequest_emplaced config s fresh (by rfl), settle_popTo]
    exact h.move inv (.drop handle req rest (.error s) {} s queued fresh (fun hs => absurd rfl hs))
  | ok sl =>
    simp only [observe, modify_emplace _ _ fresh]
    split
    · rename_i s _
      rw [retireRequest_emplaced config s fresh (by rfl), settle_popTo]
      exact h.move inv (.drop handle req rest (.ok sl) sl s queued fresh (fun _ => rfl))
    · rename_i p _
      exact h.transmitRequest inv handle p active queued fresh rfl

variable {now : TimePoint}

theorem Held.tryStartRequest (h : Held I actor) (active : actor.state = .active)
    (queued : actor.pendingRequests = req :: rest)
    (hn : tryStartRequest config deps req now actor = (next, true)) : Held I (popTo rest next) := by
  have ha := h.move inv (.query req.prerequisiteHandle)
  unfold NodeActor.tryStartRequest at hn
  split at hn
  · cases hn
    exact h.move inv (.refuse [] rest req _ queued)
  split at hn
  · dsimp only at hn
    split at hn
    · cases hn
      exact ha.move inv (.refuse [] rest req _ queued)
    · cases hn
      exact ha.move inv (.refuse [] rest req _ queued)
    · cases hn
    · cases hn
      exact ha.startRequest inv 0 active queued
  · cases hn
    exact h.startRequest inv req.prerequisiteHandle active queued

theorem Held.tryStartRequest_waiting (h : Held I actor)
    (hn : NodeActor.tryStartRequest config deps req now actor = (next, false)) : Held I next := by
  unfold NodeActor.tryStartRequest at hn
  split at hn
  · cases hn
  split at hn
  · dsimp only at hn
    split at hn
    all_goals cases hn
    exact h.move inv (.query req.prerequisiteHandle)
  · cases hn

theorem Held.dispatchLoop (now : TimePoint) (queue : List Request) (active : actor.state = .active)
    (hq : actor.pendingRequests = queue) (h : Held I actor) :
    Held I (dispatchLoop config deps now queue actor) := by
  induction queue generalizing actor with
  | nil => exact h
  | cons _ _ ih =>
    unfold dispatchLoop
    split
    · split
      · exact h
      split
      · rename_i hn
        exact (h.tryStartRequest_waiting inv hn).clocks inv _ _ _
      rename_i next hn
      have hp := (h.tryStartRequest inv active hq hn).clocks inv
        next.nextActionAt next.pendingCheckAt .min
      dsimp only
      split
      · exact hp
      · rename_i hs
        exact ih (not_not.1 hs) rfl hp
    · exact h

theorem Held.dispatchPendingRequests (now : TimePoint) (h : Held I actor) :
    Held I (dispatchPendingRequests config deps now actor) := by
  unfold NodeActor.dispatchPendingRequests
  split
  · exact h
  rename_i hs
  have hl : Held I (NodeActor.dispatchLoop config deps now _ actor) :=
    h.dispatchLoop inv now actor.pendingRequests (not_not.1 hs) rfl
  dsimp only
  split
  · exact hl.clocks inv _ _ _
  · exact hl

theorem Held.advance (deps : NodeDependencies) (now : TimePoint) (h : Held I actor) :
    Held I (advance config deps now actor) := by
  have hf : Held I (NodeActor.finalizeRequests config deps now actor) :=
    h.finalizeRequests inv now
  have hr : Held I (NodeActor.retryConnection config deps now _) :=
    hf.retryConnection inv now fun _ hp => finalizeRequests_retired deps now actor hp
  have hd : Held I (NodeActor.dispatchPendingRequests config deps now _) :=
    (hr.expirePendingRequests inv now).dispatchPendingRequests inv now
  unfold NodeActor.advance flushCompletions
  dsimp only
  split
  · exact hd
  · exact hd.move inv .flush

end

theorem Move.requests {next : NodeActor} (m : Move config actor next) :
    next.requests = actor.requests := by
  cases m with
  | drop | retire => exact requests_settle _ _
  | event _ m =>
    cases m with
    | _ => rfl
  | _ => rfl

@[simp] theorem requests_handleRequest (request : Request) (now : TimePoint) (actor : NodeActor) :
    (handleRequest config request now actor).requests = request :: actor.requests := by
  unfold handleRequest
  split <;> rfl

theorem after_invariant {I : NodeActor → Prop} (deps : NodeDependencies) (inv : Invariant config I)
    (start : I {}) (accept : ∀ {actor} {request : Request} (now : TimePoint), Sound actor →
      I actor → request.requestId ∉ actor.requests.map Request.requestId →
      I (handleRequest config request now actor)) (calls : List Call)
    (d : ((handed calls).map Request.requestId).Nodup) : Held I (after config deps calls) ∧
    (after config deps calls).requests = (handed calls).reverse := by
  -- Calls other than a request leave the list of requests alone.
  have hs : ∀ known, Invariant config fun actor => I actor ∧ actor.requests = known :=
    fun known _ _ sound h move => ⟨inv sound h.1 move, move.requests.trans h.2⟩
  refine Transition.run_invariant (I := fun calls actor =>
    ((handed calls).map Request.requestId).Nodup →
      Held I actor ∧ actor.requests = (handed calls).reverse)
    (fun _ => ⟨⟨⟨Accounted.start, Phased.start⟩, start⟩, rfl⟩) ?_ calls d
  intro calls actor call ih hd
  unfold handed at hd ⊢
  rw [filterMap_append] at hd ⊢
  rw [map_append] at hd
  obtain ⟨h, hr⟩ := ih (nodup_append.1 hd).1
  have hk : Held (fun actor => I actor ∧ actor.requests = (handed calls).reverse) actor :=
    ⟨h.sound, h.holds, hr⟩
  cases call with
  | request request now =>
    have he : request.requestId ∉ actor.requests.map Request.requestId := by
      rw [hr, map_reverse, mem_reverse]
      intro hm
      exact (nodup_append.1 hd).2.2 _ hm _ mem_cons_self rfl
    refine ⟨⟨h.sound.handleRequest now he, accept now h.sound h.holds he⟩, ?_⟩
    simp only [step, requests_handleRequest, hr, handed, filterMap_cons,
      filterMap_nil, reverse_append, reverse_singleton, singleton_append]
  | event event now =>
    have hn := hk.handle (hs _) event now
    exact ⟨⟨hn.sound, hn.holds.1⟩, by simpa [handed, step] using hn.holds.2⟩
  | advance now =>
    have hn := hk.advance (hs _) deps now
    exact ⟨⟨hn.sound, hn.holds.1⟩, by simpa [handed, step] using hn.holds.2⟩

theorem after_sound (config : Config) (deps : NodeDependencies) (c : List Call)
    (d : ((handed c).map Request.requestId).Nodup) : Sound (after config deps c) ∧
    (after config deps c).requests = (handed c).reverse := by
  have inv : Invariant config fun _ => True := fun _ _ _ => trivial
  have h := after_invariant deps inv trivial (fun _ _ _ _ => trivial) c d
  exact ⟨h.1.sound, h.2⟩

end UnifiedCache.Dram.NodeActor
