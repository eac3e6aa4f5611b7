import UnifiedCache.Dram.ReplySlots
import UnifiedCache.Dram.WireFormat

/-! What an actor asks of its surroundings at most: the reply slots and the
commands that are out at each point of its history. The transport here never calls
back into the actor. -/
namespace UnifiedCache.Dram.NodeActor
open List NodeActor Table
variable {cfg : Config} {deps : NodeDependencies}

def leased : List Observation → List RequestToken
  | [] => []
  | .acquired token (.ok slot) :: earlier =>
    if slot.localAddr = 0 then leased earlier else token :: leased earlier
  | .released token _ :: earlier => (leased earlier).erase token
  | _ :: earlier => leased earlier

def connectOut : List Observation → Bool
  | [] => false
  | .submitted (.connect _ _ _ _) status :: earlier => status.success || connectOut earlier
  | .accepted (.connectCompleted _ _ _ _) :: _ => false
  | _ :: earlier => connectOut earlier

/-- The transport took a fence and its completion was not accepted yet. -/
def fenceOut : List Observation → Bool
  | [] => false
  | .submitted (.fenceEpoch _ _ _) status :: earlier => status.success || fenceOut earlier
  | .accepted (.fenceCompleted _ _ _ _) :: _ => false
  | _ :: earlier => fenceOut earlier

def Metering (config : Config) (o : Observation) (earlier : List Observation) : Prop :=
  match o with
  | .acquired token _ => token.nodeId = config.endpoint.nodeId ∧
      (leased earlier).length < config.limits.maxInflightRequests ∧
      ∀ other ∈ earlier, tokenId? other ≠ some token.requestId
  | .submitted (.transmit token _ _) _ => token.nodeId = config.endpoint.nodeId ∧
      token ∈ leased earlier ∧ fenceOut earlier = false
  | .submitted (.connect nodeId _ _ _) _ => nodeId = config.endpoint.nodeId ∧
      connectOut earlier = false
  | .submitted (.fenceEpoch nodeId _ _) _ => nodeId = config.endpoint.nodeId ∧
      fenceOut earlier = false
  | _ => True

def slotToken? (record : RequestRecord) : Option RequestToken :=
  if record.replySlot.localAddr = 0 then none else some record.token

def slotTokens (active : Table RequestId RequestRecord) : List RequestToken :=
  (active.entries.map fun p => slotToken? p.2).filterMap id

structure Metered (config : Config) (actor : NodeActor) : Prop where
  slots : (leased actor.history).Perm (slotTokens actor.activeRequests)
  size : actor.activeRequests.size ≤ config.limits.maxInflightRequests
  connecting : connectOut actor.history = true → actor.state = .connecting
  fencing : fenceOut actor.history = true → actor.state = .fencing ∧ actor.nextActionAt = .max
  always : Trace.Always (Metering config) actor.history

def Idle : Observation → Prop
  | .requested _ => True
  | .queried _ => True
  | .completed _ => True
  | .published _ => True
  | _ => False

theorem Idle.frame (cfg : Config) {o : Observation} (h : Idle o) (earlier : List Observation) :
    leased (o :: earlier) = leased earlier ∧ connectOut (o :: earlier) = connectOut earlier ∧
    fenceOut (o :: earlier) = fenceOut earlier ∧ Metering cfg o earlier := by
  cases o <;> first | exact h.elim | exact ⟨rfl, rfl, rfl, trivial⟩

theorem length_slotTokens_le (active : Table RequestId RequestRecord) :
    (slotTokens active).length ≤ active.size := by
  unfold slotTokens size
  exact (length_filterMap_le _ _).trans (by simp)

variable {f : RequestRecord → RequestRecord}

section
variable (hf : ∀ record, slotToken? (f record) = slotToken? record)
include hf

theorem slotTokens_mapValues (active : Table RequestId RequestRecord) :
    slotTokens (active.mapValues f) = slotTokens active := by
  unfold slotTokens
  rw [map_mapValues]
  simp [hf]

theorem slotTokens_modify (requestId : RequestId) (active : Table RequestId RequestRecord) :
    slotTokens (active.modify requestId f) = slotTokens active := by
  unfold slotTokens
  rw [map_modify]
  simp [hf]

end

@[simp] theorem size_modify (active : Table RequestId RequestRecord) (requestId : RequestId)
    (f : RequestRecord → RequestRecord) : (active.modify requestId f).size = active.size := by
  unfold size
  rw [entries_modify]
  simp

variable {active : Table RequestId RequestRecord} {reqId : RequestId} {record : RequestRecord}

theorem slotTokens_erase (found : (reqId, record) ∈ active.entries) :
    (slotTokens active).Perm ((slotToken? record).toList ++ slotTokens (active.erase reqId)) := by
  have hp := ((perm_erase found).map fun p => slotToken? p.2).filterMap id
  unfold slotTokens
  refine hp.trans (.of_eq ?_)
  cases h : slotToken? record <;> simp [h]

theorem slotTokens_emplace (record : RequestRecord) (fresh : reqId ∉ active.keys) : slotTokens
    (active.emplace reqId record) = slotTokens active ++ (slotToken? record).toList := by
  unfold slotTokens
  rw [entries_emplace record fresh]
  cases h : slotToken? record <;> simp [h]

@[simp] theorem leased_settle (record : RequestRecord) (actor : NodeActor) :
    leased (settle cfg record actor).history = match slotToken? record with
      | none => leased actor.history
      | some token => (leased actor.history).erase token := by
  unfold settle queueCompletion releaseReplySlot slotToken?
  split <;> rfl

theorem out_settle (cfg : Config) (record : RequestRecord) (actor : NodeActor) : connectOut
    (settle cfg record actor).history = connectOut actor.history ∧ fenceOut
    (settle cfg record actor).history = fenceOut actor.history := by
  unfold settle queueCompletion releaseReplySlot
  split <;> exact ⟨rfl, rfl⟩

theorem always_settle {actor : NodeActor} (h : Trace.Always (Metering cfg) actor.history) :
    Trace.Always (Metering cfg) (settle cfg record actor).history := by
  have hd : ∀ {history} c, Trace.Always (Metering cfg) history →
      Trace.Always (Metering cfg) (.completed c :: history) :=
    fun c ha => Trace.Always.cons ha trivial
  have hr : Trace.Always (Metering cfg)
      (.released record.token record.replySlot :: actor.history) := Trace.Always.cons h trivial
  unfold settle queueCompletion releaseReplySlot
  split
  · exact hd _ h
  · exact hd _ hr

def Asynchronous (dependencies : NodeDependencies) : Prop :=
  ∀ history command, (dependencies.submitTransport history command).events = []

theorem submit_eq (asynchronous : Asynchronous deps) (command : TransportCommand)
    (actor : NodeActor) : submit cfg deps command actor = (actor.observe (.submitted command
        (deps.submitTransport actor.history command).status),
        (deps.submitTransport actor.history command).status) := by
  unfold submit
  dsimp only
  rw [asynchronous]
  rfl

namespace Metered
variable {actor : NodeActor}

theorem start : Metered cfg {} where
  slots := .refl _
  size := Nat.zero_le _
  connecting := by simp [connectOut]
  fencing := by simp [fenceOut]
  always := Trace.always_nil _

section
variable (h : Metered cfg actor)
include h

theorem fenceOut_eq (hs : actor.state ≠ .fencing) : fenceOut actor.history = false := by
  by_contra ho
  exact hs (h.fencing (by simpa using ho)).1

theorem connectOut_eq (hs : actor.state ≠ .connecting) : connectOut actor.history = false := by
  by_contra ho
  exact hs (h.connecting (by simpa using ho))

theorem clocks (check poll : TimePoint) {action : TimePoint}
    (hs : actor.state = .fencing → action = actor.nextActionAt) : Metered cfg { actor with
      nextActionAt := action, pendingCheckAt := check, nextPrerequisitePollAt := poll } where
  slots := h.slots
  size := h.size
  connecting := h.connecting
  fencing ho := ⟨(h.fencing ho).1, (hs (h.fencing ho).1).trans (h.fencing ho).2⟩
  always := h.always

theorem observe_idle {o : Observation} (i : Idle o) : Metered cfg (actor.observe o) := by
  obtain ⟨hl, hc, he, hm⟩ := i.frame cfg actor.history
  exact {
    slots := by
      change (leased (o :: actor.history)).Perm _
      rw [hl]
      exact h.slots
    size := h.size
    connecting := fun ho => h.connecting (hc ▸ ho)
    fencing := fun ho => h.fencing (he ▸ ho)
    always := h.always.cons hm }

theorem mapValues {history : List Observation} {state : NodeState} {epoch : ConnectionEpoch}
    {action : TimePoint} (hf : ∀ record, slotToken? (f record) = slotToken? record)
    (hc : connectOut history = true → state = .connecting)
    (he : fenceOut history = true → state = .fencing ∧ action = .max)
    (ha : Trace.Always (Metering cfg) history) (hl : leased history = leased actor.history) :
    Metered cfg { actor with
      activeRequests := actor.activeRequests.mapValues f
      state, epoch, history
      nextActionAt := action } where
  slots := by
    rw [slotTokens_mapValues hf, hl]
    exact h.slots
  size := by
    have hz := h.size
    unfold Table.size Table.mapValues at *
    simpa using hz
  connecting := hc
  fencing := he
  always := ha

theorem queue (pending : List Request) (batch : List RequestCompleted) :
    Metered cfg { actor with pendingRequests := pending, completionBatch := batch } :=
  { h with }

theorem queueCompletion (req : Request) (status : Status) (results : List EntryResult) :
    Metered cfg (queueCompletion cfg req status results actor) :=
  (h.observe_idle (o := .completed (completionOf cfg req status results)) trivial).queue
    actor.pendingRequests _

end

variable {reqId : RequestId} {record : RequestRecord}

theorem retire (h : Metered cfg actor) (found : (reqId, record) ∈ actor.activeRequests.entries) :
    Metered cfg (settle cfg record
      { actor with activeRequests := actor.activeRequests.erase reqId }) := by
  have ho := out_settle cfg record
    { actor with activeRequests := actor.activeRequests.erase reqId }
  have hs := h.slots.trans (slotTokens_erase found)
  refine ⟨?_, ?_, ?_, ?_, always_settle h.always⟩
  · rw [leased_settle, activeRequests_settle]
    cases ht : slotToken? record with
    | none =>
      rw [ht] at hs
      exact hs
    | some t =>
      rw [ht] at hs
      have he := hs.erase t
      rwa [Option.toList_some, singleton_append, erase_cons_head] at he
  · rw [activeRequests_settle]
    have hl := (Table.perm_erase found).length_eq
    have hz := h.size
    simp only [length_cons] at hl
    unfold Table.size at hz ⊢
    dsimp only
    omega
  · rw [ho.1, state_settle]
    exact h.connecting
  · rw [ho.2, state_settle, nextActionAt_settle]
    exact h.fencing

variable {now : TimePoint}

section
variable (h : Metered cfg actor)
include h

theorem finalizeRequests (now : TimePoint) : Metered cfg (finalizeRequests cfg deps now actor) := by
  have hw : (walked cfg deps now actor).1.state = actor.state ∧
      Metered cfg (walked cfg deps now actor).1 := by
    refine walked_induction cfg (P := fun w => w.1.state = actor.state ∧ Metered cfg w.1)
      deps now actor ⟨state_resetActionAt actor, ?_⟩ ?_
    · unfold resetActionAt
      split
      · rename_i hs
        exact h.clocks _ _ fun he => nomatch hs.symm.trans he
      · exact h
    · intro w reqId next ⟨hs, hm⟩ visit
      cases visit with
      | exposed _ _ hx =>
        have ha := hs.trans (of_decide_eq_true hx.1)
        exact ⟨hs, hm.clocks _ _ fun he => nomatch ha.symm.trans he⟩
      | retired _ fo => exact ⟨(state_settle _ _ _).trans hs, hm.retire fo⟩
      | _ => exact ⟨hs, hm⟩
  obtain ⟨hs, hm⟩ := hw
  rw [finalizeRequests_eq]
  split
  · rename_i he
    have ha := hs.trans ((walked_state cfg deps now actor).2 he)
    refine hm.mapValues (fun record => ?_) (fun ho => ?_) (fun ho => ?_) hm.always rfl
    · simp [slotToken?]
    · cases ho.symm.trans (hm.connectOut_eq (by simp [ha]))
    · cases ho.symm.trans (hm.fenceOut_eq (by simp [ha]))
  · exact hm

section
variable (asynchronous : Asynchronous deps)
include asynchronous

theorem tryConnect (now : TimePoint) (hs : actor.state = .disconnected) :
    Metered cfg (tryConnect cfg deps now actor) := by
  have hc := h.connectOut_eq (by simp [hs])
  have he := h.fenceOut_eq (by simp [hs])
  unfold NodeActor.tryConnect
  rw [submit_eq asynchronous]
  dsimp only
  generalize (deps.submitTransport _ _).status = status
  split
  all_goals rename_i hu
  all_goals refine ⟨h.slots, h.size, ?_, ?_, h.always.cons ⟨rfl, hc⟩⟩
  · intro _
    rfl
  · intro ho
    cases ho.symm.trans he
  · intro ho
    have ho : (status.success || connectOut actor.history) = true := ho
    simp [hu, hc] at ho
  · intro ho
    cases ho.symm.trans he

theorem tryFence (hs : actor.state = .fencing) (due : actor.nextActionAt ≤ now)
    (r : now < .max) : Metered cfg (tryFence cfg deps now actor) := by
  have hc := h.connectOut_eq (by simp [hs])
  have he : fenceOut actor.history = false := by
    by_contra ho
    rw [(h.fencing (by simpa using ho)).2] at due
    exact absurd r (not_lt.2 due)
  unfold NodeActor.tryFence
  rw [submit_eq asynchronous]
  dsimp only
  generalize (deps.submitTransport _ _).status = status
  split
  all_goals rename_i hu
  all_goals refine ⟨h.slots, h.size, ?_, ?_, h.always.cons ⟨rfl, he⟩⟩
  · intro ho
    cases ho.symm.trans hc
  · intro _
    exact ⟨hs, rfl⟩
  · intro ho
    cases ho.symm.trans hc
  · intro ho
    have ho : (status.success || fenceOut actor.history) = true := ho
    simp [hu, he] at ho

theorem retryConnection (r : now < .max) : Metered cfg (retryConnection cfg deps now actor) := by
  unfold NodeActor.retryConnection
  split
  · rename_i due
    split
    · rename_i hs
      exact h.tryConnect asynchronous now hs
    · rename_i hs
      exact h.tryFence asynchronous hs due r
    · exact h
  · exact h

end
end

theorem expireLoop (now : TimePoint) (k rest : List Request) (h : Metered cfg actor) :
    Metered cfg (expireLoop cfg now k rest actor) := by
  induction rest generalizing k actor with
  | nil => exact h
  | cons _ _ ih =>
    unfold expireLoop
    split
    · exact ih _ (h.clocks _ _ fun _ => rfl)
    split
    · exact ih _ (((h.clocks _ _ fun _ => rfl).queue _ _).queueCompletion _ _ _)
    · exact ih _ ((h.queue _ _).queueCompletion _ _ _)

theorem expirePendingRequests (h : Metered cfg actor) (now : TimePoint) :
    Metered cfg (expirePendingRequests cfg now actor) := by
  unfold NodeActor.expirePendingRequests
  split
  · exact h
  · exact expireLoop now [] _ (h.clocks _ _ fun _ => rfl)

theorem dropped {left : NodeActor} (h : Metered cfg actor)
    (hc : left.activeRequests = actor.activeRequests) (hs : left.state = actor.state)
    (ha : left.nextActionAt = actor.nextActionAt)
    (hco : connectOut left.history = connectOut actor.history)
    (he : fenceOut left.history = fenceOut actor.history)
    (hl : leased left.history = (slotToken? record).toList ++ leased actor.history)
    (hal : Trace.Always (Metering cfg) left.history) : Metered cfg (settle cfg record left) := by
  have ho := out_settle cfg record left
  refine ⟨?_, ?_, ?_, ?_, always_settle hal⟩
  · rw [leased_settle, activeRequests_settle, hl, hc]
    cases ht : slotToken? record with
    | none => exact h.slots
    | some =>
      simp only [Option.toList_some, singleton_append, erase_cons_head]
      exact h.slots
  · rw [activeRequests_settle, hc]
    exact h.size
  · rw [ho.1, state_settle, hco, hs]
    exact h.connecting
  · rw [ho.2, state_settle, nextActionAt_settle, he, hs, ha]
    exact h.fencing

end Metered

theorem localAddr_of_encodeRequest {slot : ReplySlot} {op : OpType} {entries : List IoEntry}
    {payload : List UInt8} (h : encodeRequest slot reqId op entries = .ok payload) : slot.localAddr
    ≠ 0 := by
  have hv := (KvRequest.pack_isOk _ _ _).1 ⟨payload, h⟩
  cases op with
  | _ => exact hv.1.2.2.1

namespace Metered
variable {actor : NodeActor}

theorem transmitRequest (h : Metered cfg actor) (asynchronous : Asynchronous deps)
    (request : Request) {slot : ReplySlot} {payload : List UInt8}
    (fresh : request.requestId ∉ actor.activeRequests.keys)
    (room : actor.activeRequests.size < cfg.limits.maxInflightRequests)
    (ha : slot.localAddr ≠ 0) (he : fenceOut actor.history = false)
    (hc : Trace.Always (Metering cfg)
      (.acquired (tokenOf cfg request.requestId actor) (.ok slot) :: actor.history)) :
    Metered cfg (transmitRequest cfg deps request.requestId
      { request := request, token := tokenOf cfg request.requestId actor, replySlot := slot }
      payload
      { actor with
        activeRequests := actor.activeRequests.emplace request.requestId
          { request := request, token := tokenOf cfg request.requestId actor, replySlot := slot }
        history :=
          .acquired (tokenOf cfg request.requestId actor) (.ok slot) :: actor.history }) := by
  have hl : leased (.acquired (tokenOf cfg request.requestId actor) (.ok slot) ::
      actor.history) = tokenOf cfg request.requestId actor :: leased actor.history :=
    if_neg ha
  have hs : ∀ s, Trace.Always (Metering cfg)
      (.submitted (.transmit (tokenOf cfg request.requestId actor) request.op payload) s ::
        .acquired (tokenOf cfg request.requestId actor) (.ok slot) :: actor.history) := by
    intro s
    apply Trace.Always.cons hc
    refine ⟨rfl, ?_, he⟩
    rw [hl]
    exact mem_cons_self
  unfold NodeActor.transmitRequest
  rw [submit_eq asynchronous]
  generalize (deps.submitTransport _ _).status = s
  unfold concludeTransmit
  simp only [observe, Table.find?_emplace _ fresh, reduceCtorEq, if_false]
  split
  · rw [retireRequest_emplaced cfg s fresh (by rfl)]
    refine h.dropped (by rfl) (by rfl) (by rfl) (by rfl) (by rfl) ?_ (by exact hs s)
    refine hl.trans ?_
    simp [slotToken?, RequestRecord.complete, ha]
  refine ⟨?_, ?_, h.connecting, h.fencing, hs s⟩
  · change (leased (.acquired _ (.ok slot) :: actor.history)).Perm _
    rw [hl, slotTokens_emplace _ fresh]
    simp only [slotToken?, ha, if_false, Option.toList_some]
    exact (h.slots.cons _).trans (perm_append_singleton _ _).symm
  · unfold Table.size at room ⊢
    rw [Table.entries_emplace _ fresh, length_append, length_singleton]
    exact room

variable {req : Request} {rest : List Request}

section
variable (h : Metered cfg actor) (asynchronous : Asynchronous deps)
  (safe : Held (SlotSafe []) actor)
include h asynchronous safe

theorem startRequest (handle : UInt64) (active : actor.state = .active)
    (queued : actor.pendingRequests = req :: rest)
    (room : actor.activeRequests.size < cfg.limits.maxInflightRequests) :
    Metered cfg (startRequest cfg deps
      { req with prerequisiteHandle := handle } actor) := by
  have fresh := safe.sound.accounted.fresh queued
  have hn := safe.sound.accounted.pending_not_completed (queued ▸ mem_cons_self)
  have hu := safe.holds.unseen fresh hn
  have he := h.fenceOut_eq (by simp [active])
  have hr : (leased actor.history).length < cfg.limits.maxInflightRequests := by
    rw [h.slots.length_eq]
    exact (length_slotTokens_le _).trans_lt room
  have ha : ∀ a, Trace.Always (Metering cfg)
      (.acquired (tokenOf cfg req.requestId actor) a :: actor.history) :=
    fun a => Trace.Always.cons h.always ⟨rfl, hr, hu⟩
  unfold NodeActor.startRequest
  simp only [find?_emplace _ fresh]
  generalize deps.acquireReplySlot _ _ _ _ = a
  cases a with
  | error s =>
    simp only
    rw [retireRequest_emplaced cfg s fresh (by rfl)]
    exact h.dropped (by rfl) (by rfl) (by rfl) (by rfl) (by rfl) (by rfl) (ha _)
  | ok =>
    simp only [observe, modify_emplace _ _ fresh]
    split
    · rename_i s _
      rw [retireRequest_emplaced cfg s fresh (by rfl)]
      refine h.dropped (by rfl) (by rfl) (by rfl) (by rfl) (by rfl) ?_ (by exact ha _)
      simp only [leased, slotToken?, RequestRecord.complete]
      split <;> simp [*]
    rename_i hp
    have hd := localAddr_of_encodeRequest hp
    exact h.transmitRequest asynchronous { req with prerequisiteHandle := handle } fresh room
      hd he (ha _)

theorem tryStartRequest (now : TimePoint) (active : actor.state = .active)
    (queued : actor.pendingRequests = req :: rest)
    (room : actor.activeRequests.size < cfg.limits.maxInflightRequests) :
    Metered cfg (tryStartRequest cfg deps req now actor).1 := by
  have inv : Invariant cfg (SlotSafe []) := SlotSafe.invariant
  have ha : Metered cfg (actor.observe (.queried req.prerequisiteHandle)) :=
    h.observe_idle trivial
  unfold NodeActor.tryStartRequest
  split
  · exact h.queueCompletion _ _ _
  split
  · dsimp only
    split
    · exact ha.queueCompletion _ _ _
    · exact ha.queueCompletion _ _ _
    · exact ha
    · exact ha.startRequest asynchronous
        (safe.move inv (.query req.prerequisiteHandle)) 0 active queued room
  · exact h.startRequest asynchronous safe req.prerequisiteHandle active queued room

end

theorem dispatchLoop (asynchronous : Asynchronous deps) (now : TimePoint)
    (queue : List Request) (h : Metered cfg actor) (safe : Held (SlotSafe []) actor)
    (active : actor.state = .active) (hq : actor.pendingRequests = queue) :
    Metered cfg (dispatchLoop cfg deps now queue actor) := by
  have inv : Invariant cfg (SlotSafe []) := SlotSafe.invariant
  induction queue generalizing actor with
  | nil => exact h
  | cons _ rest ih =>
    unfold dispatchLoop
    split
    · rename_i r
      split
      · exact h
      have ht := h.tryStartRequest asynchronous safe now active hq r
      split
      · rename_i hn
        rw [hn] at ht
        exact ht.clocks _ _ fun _ => rfl
      rename_i n hn
      rw [hn] at ht
      have hp : Metered cfg { n with pendingRequests := rest, nextPrerequisitePollAt := .min } :=
        (ht.queue rest _).clocks _ _ fun _ => rfl
      have hs := (safe.tryStartRequest inv active hq hn).clocks inv
        n.nextActionAt n.pendingCheckAt .min
      dsimp only
      split
      · exact hp
      · rename_i hst
        exact ih hp hs (not_not.1 hst) rfl
    · exact h

section
variable (h : Metered cfg actor)
include h

section
variable (asynchronous : Asynchronous deps) (safe : Held (SlotSafe []) actor)
include asynchronous safe

theorem dispatchPendingRequests (now : TimePoint) :
    Metered cfg (dispatchPendingRequests cfg deps now actor) := by
  unfold NodeActor.dispatchPendingRequests
  split
  · exact h
  rename_i hs
  have hl : Metered cfg (NodeActor.dispatchLoop cfg deps now _ actor) :=
    h.dispatchLoop asynchronous now actor.pendingRequests safe (not_not.1 hs) rfl
  dsimp only
  split
  · exact hl.clocks _ _ fun _ => rfl
  · exact hl

theorem advance {now : TimePoint} (r : now < .max) : Metered cfg (advance cfg deps now actor) := by
  have inv : Invariant cfg (SlotSafe []) := SlotSafe.invariant
  have hfi : Metered cfg (NodeActor.finalizeRequests cfg deps now actor) :=
    h.finalizeRequests now
  have hs : Held (SlotSafe []) (NodeActor.finalizeRequests cfg deps now actor) :=
    safe.finalizeRequests inv now
  have hr := hfi.retryConnection asynchronous r
  have hs : Held (SlotSafe []) (NodeActor.retryConnection cfg deps now _) :=
    hs.retryConnection inv now fun _ hp =>
      finalizeRequests_retired deps now actor hp
  have hd := (hr.expirePendingRequests now).dispatchPendingRequests asynchronous
    (hs.expirePendingRequests inv now) now
  unfold NodeActor.advance flushCompletions
  dsimp only
  split
  · exact hd
  · exact (hd.observe_idle (o := .published _) trivial).queue _ _

end

theorem handleRequest (req : Request) (now : TimePoint) :
    Metered cfg (handleRequest cfg req now actor) := by
  have hs : Metered cfg (actor.observe (.requested req)) := h.observe_idle trivial
  unfold NodeActor.handleRequest
  split
  · exact hs.queueCompletion _ _ _
  · exact { hs with }

theorem accept_request (event : NodeEvent) (reqId : RequestId)
    (hf : ∀ record, slotToken? (f record) = slotToken? record)
    (hc : connectOut (.accepted event :: actor.history) = connectOut actor.history)
    (he : fenceOut (.accepted event :: actor.history) = fenceOut actor.history) :
    Metered cfg { actor.observe (.accepted event) with
      activeRequests := actor.activeRequests.modify reqId f } where
  slots := by
    rw [slotTokens_modify hf]
    exact h.slots
  size := by
    rw [size_modify]
    exact h.size
  connecting ho := h.connecting (hc ▸ ho)
  fencing ho := h.fencing (he ▸ ho)
  always := Trace.Always.cons h.always trivial

theorem handle (event : NodeEvent) (now : TimePoint) : Metered cfg (handle cfg event now actor)
    := by
  cases event with
  | transmitCompleted =>
    simp only [NodeActor.handle, handleTransmitCompleted]
    split
    · exact h
    split
    · exact h
    apply h.accept_request _ _ _ rfl rfl
    intro record
    unfold transmitted
    split <;> rfl
  | replyObserved =>
    simp only [NodeActor.handle, handleReplyObserved]
    split
    · exact h
    split
    · exact h
    apply h.accept_request _ _ _ rfl rfl
    intro record
    unfold replied
    split <;> rfl
  | connectCompleted n l e s =>
    simp only [NodeActor.handle, handleConnectCompleted]
    split
    · exact h
    rename_i hs
    have hco := not_not.1 (not_or.1 hs).2
    have he := h.fenceOut_eq (by simp [hco])
    have ha : Trace.Always (Metering cfg)
        (.accepted (.connectCompleted n l e s) :: actor.history) :=
      Trace.Always.cons h.always trivial
    split
    all_goals
      refine ⟨h.slots, h.size, fun ho => ?_, fun ho => ?_, ha⟩
      · cases ho
      · cases ho.symm.trans he
  | fenceCompleted n l e s =>
    simp only [NodeActor.handle, handleFenceCompleted]
    split
    · exact h
    rename_i hs
    have hfe := not_not.1 (not_or.1 hs).1
    have hc := h.connectOut_eq (by simp [hfe])
    have ha : Trace.Always (Metering cfg)
        (.accepted (.fenceCompleted n l e s) :: actor.history) :=
      Trace.Always.cons h.always trivial
    refine h.mapValues (fun record => ?_) (fun ho => ?_) (fun ho => ?_) ha rfl
    · simp [slotToken?]
    · cases ho.symm.trans hc
    · cases ho

end
end Metered

def Call.now : Call → TimePoint
  | .request _ now => now
  | .event _ now => now
  | .advance now => now

theorem after_metered (cfg : Config) (asynchronous : Asynchronous deps)
    (calls : List Call) (d : ((handed calls).map Request.requestId).Nodup)
    (running : ∀ call ∈ calls, call.now < .max) : Metered cfg (after cfg deps calls) := by
  refine (Transition.run_invariant (I := fun calls actor =>
    ((handed calls).map Request.requestId).Nodup → (∀ call ∈ calls, call.now < .max) →
      actor = after cfg deps calls ∧ Metered cfg actor)
    (fun _ _ => ⟨rfl, Metered.start⟩) ?_ calls d running).2
  intro calls actor call ih hd hr
  have hb : ((handed calls).map Request.requestId).Nodup := by
    unfold handed at hd ⊢
    rw [filterMap_append, map_append] at hd
    exact (nodup_append.1 hd).1
  have hn : call.now < .max := hr call (by simp)
  obtain ⟨rfl, h⟩ := ih hb fun o hm => hr o (mem_append_left _ hm)
  refine ⟨(Transition.run_concat _ _ _ _).symm, ?_⟩
  cases call with
  | request request now => exact h.handleRequest request now
  | event event now => exact h.handle event now
  | advance =>
    exact h.advance asynchronous (after_slotSafe cfg deps calls hb) hn

end UnifiedCache.Dram.NodeActor
