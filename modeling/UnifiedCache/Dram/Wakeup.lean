import Mathlib.Order.MinMax
import UnifiedCache.Dram.Completion

/-! When the runner has to call again. The wake-up time covers every pending
deadline; for the active ones it is put together before the queue is dispatched,
and that is where it can come out too late. -/
namespace UnifiedCache.Dram.NodeActor
open List RequestRecord Table NodeActor
variable {config : Config} {dependencies : NodeDependencies}

def Checked (actor : NodeActor) : Prop :=
  ∀ request ∈ actor.pendingRequests, actor.pendingCheckAt ≤ request.deadline

theorem le_max (t : TimePoint) : t ≤ TimePoint.max :=
  Int64.le_maxValue t

variable {now : TimePoint} {walked : NodeActor × Bool} {requestId : RequestId}

variable {record : RequestRecord} {next : NodeActor × Bool}

theorem Visited.stays {active : Bool} {v : RequestId} (h : Visited config active now walked v next)
    (hm : (requestId, record) ∈ walked.1.activeRequests.entries)
    (ho : record.state ≠ .completed) : (requestId, record) ∈ next.1.activeRequests.entries := by
  cases h with
  | retired _ f c =>
    rw [activeRequests_settle]
    refine mem_erase.2 ⟨?_, hm⟩
    intro hs
    cases hs
    exact ho (eq_of_mem hm f ▸ c)
  | _ => exact hm

theorem Visited.earlier {active : Bool} (h : Visited config active now walked requestId next) :
    next.1.nextActionAt ≤ walked.1.nextActionAt := by
  cases h with
  | retired => rw [nextActionAt_settle]
  | exposed => exact min_le_left _ _
  | _ => exact le_refl _

theorem Visited.covers (h : Visited config true now walked requestId next)
    (hm : (requestId, record) ∈ walked.1.activeRequests.entries)
    (he : record.isExposed = true) : next.1.nextActionAt ≤ record.request.deadline := by
  have ho := ne_completed_of_isExposed he
  cases h with
  | absent ha => exact absurd (mem_keys_of_mem hm) ha
  | exposed _ f =>
    cases eq_of_mem hm f
    exact min_le_right _ _
  | skipped _ f _ h =>
    cases eq_of_mem hm f
    exact absurd ⟨rfl, he⟩ h
  | retired _ f c =>
    cases eq_of_mem hm f
    exact absurd c ho

theorem finalizeLoop_earlier (now : TimePoint) (ids : List RequestId) (walked : NodeActor × Bool)
    (h : walked.1.nextActionAt ≤ time) :
    (ids.foldl (finalizeStep config true now) walked).1.nextActionAt ≤ time := by
  induction ids generalizing walked with
  | nil => exact h
  | cons id ids ih =>
    rw [foldl_cons]
    exact ih _ (le_trans (finalizeStep_visited config true now walked id).earlier h)

theorem finalizeLoop_covers (now : TimePoint) (ids : List RequestId) (walked : NodeActor × Bool)
    (hd : requestId ∈ ids) (hm : (requestId, record) ∈ walked.1.activeRequests.entries)
    (hx : record.isExposed = true) :
    (ids.foldl (finalizeStep config true now) walked).1.nextActionAt ≤ record.request.deadline := by
  have ho := ne_completed_of_isExposed hx
  induction ids generalizing walked with
  | nil => exact absurd hd not_mem_nil
  | cons id ids ih =>
    have hv := finalizeStep_visited config true now walked id
    rw [foldl_cons]
    obtain he | hr := mem_cons.1 hd
    · cases he
      exact finalizeLoop_earlier now ids _ (hv.covers hm hx)
    · exact ih _ hr (hv.stays hm ho)

structure Finalized (actor next : NodeActor) : Prop where
  active : actor.state = .active
  queue : next.pendingRequests = actor.pendingRequests
  records : ∀ {requestId record}, record.state ≠ .completed →
    ((requestId, record) ∈ next.activeRequests.entries ↔
      (requestId, record) ∈ actor.activeRequests.entries)
  covers : ∀ {requestId record}, (requestId, record) ∈ actor.activeRequests.entries →
    record.isExposed = true → next.nextActionAt ≤ record.request.deadline

theorem Finalized.size_le {actor next : NodeActor} (h : Finalized actor next) :
    (actor.activeRequests.entries.filter fun p => p.2.state ≠ .completed).length ≤
      next.activeRequests.size := by
  have hn : actor.activeRequests.entries.Nodup := .of_map _ actor.activeRequests.keys_nodup
  refine (subperm_of_subset (hn.filter _) fun p hp => ?_).length_le
  obtain ⟨hm, hs⟩ := mem_filter.1 hp
  exact (h.records (by simpa using hs)).2 hm

variable (config dependencies) in
theorem finalizeRequests_queue (now : TimePoint) (actor : NodeActor) :
    (finalizeRequests config dependencies now actor).pendingRequests = actor.pendingRequests ∧
    (finalizeRequests config dependencies now actor).pendingCheckAt = actor.pendingCheckAt ∧
    (finalizeRequests config dependencies now actor).nextPrerequisitePollAt =
      actor.nextPrerequisitePollAt := by
  have hw : (walked config dependencies now actor).1.pendingRequests = actor.pendingRequests ∧
      (walked config dependencies now actor).1.pendingCheckAt = actor.pendingCheckAt ∧
      (walked config dependencies now actor).1.nextPrerequisitePollAt =
        actor.nextPrerequisitePollAt := by
    refine walked_induction config (P := fun w => w.1.pendingRequests = actor.pendingRequests ∧
      w.1.pendingCheckAt = actor.pendingCheckAt ∧
      w.1.nextPrerequisitePollAt = actor.nextPrerequisitePollAt) dependencies now actor ?_ ?_
    · unfold resetActionAt
      split <;> exact ⟨rfl, rfl, rfl⟩
    · intro w id next h visit
      cases visit with
      | retired =>
        rw [pendingRequests_settle, pendingCheckAt_settle, nextPrerequisitePollAt_settle]
        exact h
      | _ => exact h
  rw [finalizeRequests_eq]
  split <;> exact hw

theorem finalizeRequests_finalized (now : TimePoint) (actor : NodeActor)
    (h : (finalizeRequests config dependencies now actor).state = .active) :
    Finalized actor (finalizeRequests config dependencies now actor) := by
  have hq := (finalizeRequests_queue config dependencies now actor).1
  rw [finalizeRequests_eq] at h hq ⊢
  split at h
  · simp [startFence] at h
  rename_i hf
  rw [if_neg hf] at hq ⊢
  have ha := (walked_state config dependencies now actor).1.symm.trans h
  have hr : resetActionAt actor = { actor with nextActionAt := .max } := if_pos ha
  have he : ∀ {requestId record},
      (requestId, record) ∈ (walked config dependencies now actor).1.activeRequests.entries →
        (requestId, record) ∈ actor.activeRequests.entries := by
    intro requestId record hm
    have hw := (finalizeLoop_entries _ _ _ _ hm).1
    rwa [hr] at hw
  refine ⟨ha, hq, fun hx => ⟨he, fun hm => ?_⟩, fun hm hx => ?_⟩
  · refine walked_induction config (P := fun w => (_, _) ∈ w.1.activeRequests.entries)
      dependencies now actor ?_ ?_
    · rw [hr]
      exact hm
    · intro w id next hw visit
      exact visit.stays hw hx
  · unfold walked
    rw [decide_eq_true ha, hr]
    refine finalizeLoop_covers now _ _ ?_ hm hx
    exact (dependencies.walk_perm _ _).mem_iff.2 (mem_keys_of_mem hm)

variable {actor before : NodeActor}

theorem expireLoop_checked (now : TimePoint) (k r : List Request)
    (hq : actor.pendingRequests = k ++ r)
    (hk : ∀ request ∈ k, actor.pendingCheckAt ≤ request.deadline) :
    Checked (expireLoop config now k r actor) ∧
      ∀ request ∈ (expireLoop config now k r actor).pendingRequests,
        request ∈ actor.pendingRequests := by
  induction r generalizing k actor with
  | nil =>
    rw [append_nil] at hq
    refine ⟨?_, fun _ hm => hm⟩
    intro request hm
    exact hk request (hq ▸ hm)
  | cons request r ih =>
    unfold expireLoop
    split
    · refine ih _ (by simpa using hq) ?_
      intro o hm
      obtain ho | he := mem_append.1 hm
      · exact (min_le_left _ _).trans (hk o ho)
      · cases mem_singleton.1 he
        exact min_le_right _ _
    have hs : ∀ o ∈ k ++ r, o ∈ actor.pendingRequests := by
      intro o hm
      rw [hq]
      simp only [mem_append, mem_cons] at hm ⊢
      exact hm.imp_right .inr
    have hn : ∀ next : NodeActor, next.pendingRequests = k ++ r →
        next.pendingCheckAt = actor.pendingCheckAt →
        Checked (expireLoop config now k r next) ∧
          ∀ request ∈ (expireLoop config now k r next).pendingRequests,
            request ∈ actor.pendingRequests := by
      intro next hp hc
      obtain ⟨hh, hm⟩ := ih k hp (hc ▸ hk)
      exact ⟨hh, fun o hin => hs o (hp ▸ hm o hin)⟩
    split
    all_goals exact hn _ rfl rfl

theorem expireLoop_not_due (now : TimePoint) (kept rest : List Request)
    (hq : actor.pendingRequests = kept ++ rest) (hk : ∀ request ∈ kept, now < request.deadline) :
    ∀ request ∈ (expireLoop config now kept rest actor).pendingRequests,
      now < request.deadline := by
  induction rest generalizing kept actor with
  | nil =>
    rw [append_nil] at hq
    exact fun request hm => hk request (hq ▸ hm)
  | cons request rest ih =>
    unfold expireLoop
    split
    · rename_i hd
      refine ih _ (by simpa using hq) fun other hm => ?_
      obtain ho | he := mem_append.1 hm
      · exact hk other ho
      · cases mem_singleton.1 he
        exact hd
    · exact ih kept rfl hk

/-- Behind a first request that is kept nothing touches the poll time of the prerequisite. -/
theorem expireLoop_head (now : TimePoint) (head : Request) (kept rest : List Request)
    (hq : actor.pendingRequests = head :: kept ++ rest) :
    (expireLoop config now (head :: kept) rest actor).pendingRequests.head? = some head ∧
      (expireLoop config now (head :: kept) rest actor).nextPrerequisitePollAt =
        actor.nextPrerequisitePollAt := by
  induction rest generalizing kept actor with
  | nil => exact ⟨by simp [expireLoop, hq], rfl⟩
  | cons request rest ih =>
    unfold expireLoop
    split
    · exact ih (kept ++ [request]) (by simpa using hq)
    · exact ih kept rfl

theorem expirePendingRequests_not_due (now : TimePoint) (h : Checked actor) :
    ∀ request ∈ (expirePendingRequests config now actor).pendingRequests,
      now < request.deadline := by
  unfold expirePendingRequests
  split
  · rename_i hl
    exact fun request hm => lt_of_lt_of_le hl (h request hm)
  · exact expireLoop_not_due now [] actor.pendingRequests rfl fun _ hm => absurd hm not_mem_nil

theorem expirePendingRequests_head (now : TimePoint) {head : Request}
    (hh : actor.pendingRequests.head? = some head) (hd : now < head.deadline) :
    (expirePendingRequests config now actor).pendingRequests.head? = some head ∧
      (expirePendingRequests config now actor).nextPrerequisitePollAt =
        actor.nextPrerequisitePollAt := by
  unfold expirePendingRequests
  split
  · exact ⟨hh, rfl⟩
  · obtain ⟨rest, hq⟩ := head?_eq_some_iff.1 hh
    rw [hq, expireLoop, if_pos hd]
    exact expireLoop_head now head [] rest rfl

theorem expirePendingRequests_checked (now : TimePoint) (h : Checked actor) : Checked
    (expirePendingRequests config now actor) ∧ ∀ request ∈
    (expirePendingRequests config now actor).pendingRequests, request ∈ actor.pendingRequests := by
  unfold expirePendingRequests
  split
  · exact ⟨h, fun _ hm => hm⟩
  · exact expireLoop_checked now [] actor.pendingRequests rfl (fun _ hm => absurd hm not_mem_nil)

def FromQueue (queue : List Request) (sent : Request) : Prop :=
  ∃ request ∈ queue, sent = { request with prerequisiteHandle := sent.prerequisiteHandle }

structure Dispatched (actor next : NodeActor) : Prop where
  state : next.state = actor.state
  actionAt : next.nextActionAt = actor.nextActionAt
  checkAt : next.pendingCheckAt = actor.pendingCheckAt
  queue : ∀ request ∈ next.pendingRequests, request ∈ actor.pendingRequests
  records : ∀ {requestId record}, (requestId, record) ∈ next.activeRequests.entries →
    record.isExposed = true →
      (∃ old, (requestId, old) ∈ actor.activeRequests.entries ∧ old.isExposed = true ∧
        old.request = record.request) ∨ FromQueue actor.pendingRequests record.request

def Derived (active next : Table RequestId RequestRecord) (request : Request) : Prop :=
  ∀ requestId record, (requestId, record) ∈ next.entries → record.isExposed = true →
    (∃ old, (requestId, old) ∈ active.entries ∧ old.isExposed = true ∧
      old.request = record.request) ∨ record.request = request

namespace Derived
variable {active next : Table RequestId RequestRecord} {request : Request}

theorem emplace (active : Table RequestId RequestRecord) (record : RequestRecord)
    (requestId : RequestId) : Derived active (active.emplace requestId record) record.request := by
  intro id o hm he
  obtain ho | hn := mem_of_mem_emplace hm
  · exact .inl ⟨o, ho, he, rfl⟩
  · exact .inr (hn ▸ rfl)

theorem erase (h : Derived active next request) (requestId : RequestId) :
    Derived active (next.erase requestId) request :=
  fun id record hm he => h id record (mem_erase.1 hm).2 he

theorem modify (h : Derived active next request) (requestId : RequestId)
    {f : RequestRecord → RequestRecord} (hf : ∀ record, (requestId, record) ∈ next.entries →
      (f record).isExposed = true → record.isExposed = true ∧ (f record).request = record.request) :
    Derived active (next.modify requestId f) request := by
  intro id record hm hx
  obtain ht | he := mem_modify.1 hm
  · exact h id record ht.2 hx
  obtain ⟨rfl, old, ho, rfl⟩ := he
  obtain ⟨hl, hr⟩ := hf old ho hx
  rw [hr]
  exact h id old ho hl

end Derived

/-- A stage of starting `request` from `origin`: the queue and the clocks are as
they were. -/
structure Starting (origin : NodeActor) (request : Request) (actor : NodeActor) : Prop where
  state : actor.state = origin.state
  actionAt : actor.nextActionAt = origin.nextActionAt
  checkAt : actor.pendingCheckAt = origin.pendingCheckAt
  pending : actor.pendingRequests = origin.pendingRequests
  derived : Derived origin.activeRequests actor.activeRequests request

namespace Starting
variable {origin actor : NodeActor} {request : Request}

theorem observe (h : Starting origin request actor) (o : Observation) :
    Starting origin request (actor.observe o) :=
  { h with }

theorem modify (h : Starting origin request actor) (requestId : RequestId)
    {f : RequestRecord → RequestRecord}
    (hf : ∀ record, (requestId, record) ∈ actor.activeRequests.entries →
      (f record).isExposed = true → record.isExposed = true ∧ (f record).request = record.request) :
    Starting origin request
      { actor with activeRequests := actor.activeRequests.modify requestId f } :=
  { h with derived := h.derived.modify requestId hf }

theorem completeActive (h : Starting origin request actor) (requestId : RequestId) (s : Status) :
    Starting origin request (completeActive requestId s actor) := by
  refine h.modify requestId ?_
  simp [isExposed, complete]

theorem retire (h : Starting origin request actor) (requestId : RequestId) :
    Starting origin request (retireRequest config requestId actor) := by
  cases hf : actor.activeRequests.find? requestId with
  | none =>
    unfold retireRequest
    rw [hf]
    exact h
  | some =>
    rw [retireRequest_of_find config hf]
    refine ⟨(state_settle _ _ _).trans h.state, (nextActionAt_settle _ _ _).trans h.actionAt,
      (pendingCheckAt_settle _ _ _).trans h.checkAt,
      (pendingRequests_settle _ _ _).trans h.pending, ?_⟩
    rw [activeRequests_settle]
    exact h.derived.erase requestId

theorem handle (h : Starting origin request actor) (active : origin.state = .active) (e : NodeEvent)
    (now : TimePoint) : Starting origin request (NodeActor.handle config e now actor) := by
  have ha := h.state.trans active
  obtain hs | move := handle_event config e now actor
  · rw [hs]
    exact h
  generalize NodeActor.handle config e now actor = next at move
  cases move with
  | connected _ _ c | disconnected _ _ c => simp [ha] at c
  | fenced _ _ _ _ f => simp [ha] at f
  | transmit e requestId _ fo t =>
    refine (h.observe (.accepted e)).modify requestId ?_
    intro o ho _
    cases Table.eq_of_mem ho fo
    simp [RequestRecord.isExposed, t]
  | complete e requestId =>
    refine (h.observe (.accepted e)).modify requestId ?_
    simp [RequestRecord.isExposed, RequestRecord.complete]

theorem handleAll (h : Starting origin request actor) (active : origin.state = .active)
    (e : List (NodeEvent × TimePoint)) : Starting origin request (handleAll config e actor) := by
  induction e generalizing actor with
  | nil => exact h
  | cons ev _ ih => exact ih (h.handle active ev.1 ev.2)

theorem transmitRequest (h : Starting origin request actor) (active : origin.state = .active)
    (requestId : RequestId) (record : RequestRecord) (p : List UInt8) :
    Starting origin request (transmitRequest config dependencies requestId record p actor) := by
  unfold NodeActor.transmitRequest submit concludeTransmit
  dsimp only
  generalize dependencies.submitTransport _ _ = submission
  have hs : Starting origin request (NodeActor.handleAll config submission.events
      (actor.observe (.submitted (.transmit record.token record.request.op p)
        submission.status))) := (h.observe _).handleAll active submission.events
  split
  · exact hs
  split
  · exact hs.retire requestId
  · split
    · exact (hs.completeActive requestId submission.status).retire requestId
    · exact hs

variable (config dependencies) in
theorem startRequest (actor : NodeActor) (request : Request) (active : actor.state = .active) :
    Starting actor request (startRequest config dependencies request actor) := by
  have he : Starting actor request { actor with
      activeRequests := actor.activeRequests.emplace request.requestId
        { request := request, token := tokenOf config request.requestId actor } } :=
    ⟨rfl, rfl, rfl, rfl, Derived.emplace _ _ _⟩
  unfold NodeActor.startRequest
  dsimp only
  split
  · exact he
  rename_i record _
  generalize dependencies.acquireReplySlot _ _ _ _ = acquired
  cases acquired with
  | error s => exact ((he.observe _).completeActive _ s).retire _
  | ok sl =>
    have hs := (he.observe (.acquired record.token (.ok sl))).modify
      request.requestId (f := fun record => { record with replySlot := sl })
      (fun _ _ hx => ⟨hx, rfl⟩)
    dsimp only
    split
    · rename_i s _
      exact (hs.completeActive _ s).retire _
    · exact hs.transmitRequest active _ _ _

end Starting

variable (config dependencies) in
theorem tryStartRequest_starting (request : Request) (now : TimePoint) (actor : NodeActor)
    (active : actor.state = .active) :
    ∃ handle, Starting actor { request with prerequisiteHandle := handle }
      (tryStartRequest config dependencies request now actor).1 := by
  have hd : ∀ (a : NodeActor) s, Starting actor request a →
      Starting actor request (queueCompletion config request s [] a) :=
    fun a s h => { h with }
  have hr : Starting actor request actor :=
    ⟨rfl, rfl, rfl, rfl, fun _ record hm he => .inl ⟨record, hm, he, rfl⟩⟩
  have ha := hr.observe (.queried request.prerequisiteHandle)
  unfold tryStartRequest
  split
  · exact ⟨request.prerequisiteHandle, hd actor _ hr⟩
  split
  · dsimp only
    split
    · exact ⟨request.prerequisiteHandle, hd _ _ ha⟩
    · exact ⟨request.prerequisiteHandle, hd _ _ ha⟩
    · exact ⟨request.prerequisiteHandle, ha⟩
    have hs := Starting.startRequest config dependencies
      (actor.observe (.queried request.prerequisiteHandle))
      { request with prerequisiteHandle := 0 } active
    exact ⟨0, hs.state, hs.actionAt, hs.checkAt, hs.pending, hs.derived⟩
  · exact ⟨request.prerequisiteHandle, Starting.startRequest config dependencies actor request
      active⟩

namespace Dispatched

theorem refl (actor : NodeActor) : Dispatched actor actor where
  state := rfl
  actionAt := rfl
  checkAt := rfl
  queue _ hm := hm
  records hm he := .inl ⟨_, hm, he, rfl⟩

variable {actor next : NodeActor}

theorem trans {m : NodeActor} (h : Dispatched actor m) (h' : Dispatched m next) :
    Dispatched actor next where
  state := h'.state.trans h.state
  actionAt := h'.actionAt.trans h.actionAt
  checkAt := h'.checkAt.trans h.checkAt
  queue request hm := h.queue request (h'.queue request hm)
  records hm hex := by
    cases h'.records hm hex with
    | inr hq =>
      obtain ⟨request, hn, he⟩ := hq
      exact .inr ⟨request, h.queue request hn, he⟩
    | inl ho =>
      obtain ⟨old, hn, hx, he⟩ := ho
      rw [← he]
      exact h.records hn hx

theorem of_starting {request : Request} (queue : List Request) {handle : UInt64}
    (h : Starting actor { request with prerequisiteHandle := handle } next)
    (hh : request ∈ actor.pendingRequests)
    (hq : ∀ o ∈ queue, o ∈ actor.pendingRequests) (p : TimePoint) :
    Dispatched actor { next with pendingRequests := queue, nextPrerequisitePollAt := p } where
  state := h.state
  actionAt := h.actionAt
  checkAt := h.checkAt
  queue := hq
  records {requestId record} hm he := by
    refine (h.derived requestId record hm he).imp_right fun hn => ?_
    exact ⟨request, hh, by rw [hn]⟩

end Dispatched

theorem dispatchLoop_dispatched (now : TimePoint) (q : List Request)
    (active : actor.state = .active) (hq : actor.pendingRequests = q) :
    Dispatched actor (dispatchLoop config dependencies now q actor) := by
  induction q generalizing actor with
  | nil => exact .refl actor
  | cons request r ih =>
    obtain ⟨handle, hs⟩ :=
      tryStartRequest_starting config dependencies request now actor active
    have hh : request ∈ actor.pendingRequests := hq ▸ mem_cons_self
    have hr : ∀ o ∈ r, o ∈ actor.pendingRequests := by
      intro o hm
      rw [hq]
      exact mem_cons_of_mem _ hm
    unfold dispatchLoop
    split
    · split
      · exact .refl actor
      split
      · rename_i next hn
        rw [hn] at hs
        have ha := Dispatched.of_starting next.pendingRequests hs hh (fun o hm => hs.pending ▸ hm)
          (now + TimePoint.microseconds config.pollInterval)
        exact ha
      rename_i hn
      rw [hn] at hs
      have hp := Dispatched.of_starting r hs hh hr .min
      dsimp only
      split
      · exact hp
      · exact hp.trans (ih (hp.state.trans active) rfl)
    · exact .refl actor

/-- A dispatcher that empties the queue has found a free slot, and has not waited to poll the
first prerequisite. -/
theorem dispatchLoop_open {head : Request} {rest : List Request}
    (hq : actor.pendingRequests = head :: rest)
    (he : (dispatchLoop config dependencies now (head :: rest) actor).pendingRequests = []) :
    actor.activeRequests.size < config.limits.maxInflightRequests ∧
      (head.prerequisiteHandle ≠ 0 → actor.nextPrerequisitePollAt ≤ now) := by
  unfold dispatchLoop at he
  split at he
  · rename_i hs
    refine ⟨hs, fun hp => ?_⟩
    split at he
    · rw [hq] at he
      cases he
    · rename_i hw
      exact not_lt.1 fun hl => hw ⟨hp, hl⟩
  · rw [hq] at he
    cases he

variable (config dependencies) in
/-- What `advance` hands to the dispatcher. -/
def dispatchable (now : TimePoint) (actor : NodeActor) : NodeActor :=
  expirePendingRequests config now
    (retryConnection config dependencies now (finalizeRequests config dependencies now actor))

theorem handleAll_queue (config : Config) (e : List (NodeEvent × TimePoint)) (actor : NodeActor) :
    (handleAll config e actor).pendingRequests = actor.pendingRequests ∧
    (handleAll config e actor).pendingCheckAt = actor.pendingCheckAt := by
  unfold handleAll
  induction e generalizing actor with
  | nil => exact ⟨rfl, rfl⟩
  | cons ev _ ih =>
    have hr := ih (handle config ev.1 ev.2 actor)
    rw [foldl_cons]
    obtain hs | move := handle_event config ev.1 ev.2 actor
    · rw [hs] at hr ⊢
      exact hr
    · exact ⟨hr.1.trans move.queue.1, hr.2.trans move.queue.2⟩

variable (config dependencies) in
theorem retryConnection_queue (now : TimePoint) (actor : NodeActor) :
    (retryConnection config dependencies now actor).pendingRequests = actor.pendingRequests ∧
    (retryConnection config dependencies now actor).pendingCheckAt = actor.pendingCheckAt := by
  unfold retryConnection tryConnect tryFence submit
  split
  · split
    · dsimp only
      split <;> exact handleAll_queue _ _ _
    · dsimp only
      split <;> exact handleAll_queue _ _ _
    · exact ⟨rfl, rfl⟩
  · exact ⟨rfl, rfl⟩

variable (config dependencies) in
theorem dispatchable_checked (now : TimePoint) (h : Checked actor) :
    Checked (dispatchable config dependencies now actor) ∧
      (∀ request ∈ (dispatchable config dependencies now actor).pendingRequests,
        request ∈ actor.pendingRequests) ∧
      ∀ request ∈ (dispatchable config dependencies now actor).pendingRequests,
        now < request.deadline := by
  have hf := finalizeRequests_queue config dependencies now actor
  have hr := retryConnection_queue config dependencies now
    (finalizeRequests config dependencies now actor)
  rw [hf.1, hf.2.1] at hr
  have hc : Checked (retryConnection config dependencies now
      (finalizeRequests config dependencies now actor)) := by
    unfold Checked
    rw [hr.1, hr.2]
    exact h
  rw [← hr.1]
  obtain ⟨hk, hq⟩ := expirePendingRequests_checked now hc
  exact ⟨hk, hq, expirePendingRequests_not_due now hc⟩

/-- `advance` in terms of the state the dispatcher starts from. -/
inductive Advanced (before next : NodeActor) : Prop where
  | idle (inactive : before.state ≠ .active) (state : next.state = before.state)
      (queue : next.pendingRequests = before.pendingRequests)
      (checkAt : next.pendingCheckAt = before.pendingCheckAt)
  | busy (active : before.state = .active)
      (dispatched : Dispatched before { next with pendingCheckAt := before.pendingCheckAt })
      (checkAt : next.pendingCheckAt =
        if next.pendingRequests = [] then .max else before.pendingCheckAt)

theorem Advanced.flush {next : NodeActor} (h : Advanced before next) :
    Advanced before (flushCompletions next) := by
  unfold flushCompletions
  split
  · exact h
  cases h with
  | idle i s q c => exact .idle i s q c
  | busy active d c =>
    exact .busy active { d with } c

variable (config dependencies) in
theorem advance_advanced (now : TimePoint) (actor : NodeActor) : Advanced
    (dispatchable config dependencies now actor) (advance config dependencies now actor) := by
  have he : advance config dependencies now actor = flushCompletions
      (dispatchPendingRequests config dependencies now
        (dispatchable config dependencies now actor)) := rfl
  rw [he]
  generalize dispatchable config dependencies now actor = before
  refine Advanced.flush ?_
  unfold dispatchPendingRequests
  split
  · rename_i hn
    exact .idle hn rfl rfl rfl
  rename_i hs
  have ha := not_not.1 hs
  have hl : Dispatched before
      (dispatchLoop config dependencies now before.pendingRequests before) :=
    dispatchLoop_dispatched now before.pendingRequests ha rfl
  dsimp only
  split
  · rename_i hm
    exact .busy ha { hl with checkAt := rfl } (if_pos (List.isEmpty_iff.1 hm)).symm
  rename_i hf
  refine .busy ha { hl with checkAt := rfl } ?_
  rw [if_neg (by simpa using hf)]
  exact hl.checkAt

theorem Advanced.checked {next : NodeActor} (h : Advanced before next) (hb : Checked before) :
    Checked next := by
  intro request hm
  cases h with
  | idle _ _ q c =>
    rw [c]
    exact hb request (q ▸ hm)
  | busy _ d c =>
    rw [c, if_neg (ne_nil_of_mem hm)]
    exact hb request (d.queue request hm)

theorem step_checked (h : Checked actor) (call : Call) :
    Checked (step config dependencies actor call) := by
  cases call with
  | request =>
    unfold step handleRequest
    dsimp only
    split
    · exact h
    intro o hm
    obtain ho | he := mem_append.1 hm
    · exact (min_le_left _ _).trans (h o ho)
    · cases mem_singleton.1 he
      exact min_le_right _ _
  | event event now =>
    unfold step Checked
    have hq := handleAll_queue config [(event, now)] actor
    rw [handleAll, foldl_cons, foldl_nil] at hq
    rw [hq.1, hq.2]
    exact h
  | advance now =>
    exact (advance_advanced config dependencies now actor).checked
      (dispatchable_checked config dependencies now h).1

theorem after_checked (config : Config) (dependencies : NodeDependencies) (c : List Call) :
    Checked (after config dependencies c) :=
  Transition.run_invariant (I := fun _ actor => Checked actor)
    (fun _ hm => absurd hm not_mem_nil) (fun _ _ ca h => step_checked h ca) c

theorem nextWakeup_le (config : Config) (actor : NodeActor) :
    nextWakeup config actor ≤ min actor.nextActionAt actor.pendingCheckAt := by
  unfold nextWakeup
  split
  · exact le_refl _
  · split
    · exact min_le_left _ _
    · exact le_refl _

theorem retryConnection_eq (active : (dispatchable config dependencies now actor).state = .active) :
    retryConnection config dependencies now (finalizeRequests config dependencies now actor) =
      finalizeRequests config dependencies now actor := by
  have hs := (expirePendingRequests_frame config now (retryConnection config dependencies now
    (finalizeRequests config dependencies now actor))).1
  have hf : (finalizeRequests config dependencies now actor).state = .active := by
    by_contra hn
    exact retryConnection_inactive dependencies now hn (hs.symm.trans active)
  unfold retryConnection
  rw [hf]
  split <;> rfl

theorem dispatchable_finalized (now : TimePoint)
    (active : (dispatchable config dependencies now actor).state = .active) : Finalized actor
    (finalizeRequests config dependencies now actor) ∧
    (dispatchable config dependencies now actor).activeRequests =
    (finalizeRequests config dependencies now actor).activeRequests ∧
    (dispatchable config dependencies now actor).nextActionAt =
    (finalizeRequests config dependencies now actor).nextActionAt := by
  have hr := retryConnection_eq active
  unfold dispatchable at active ⊢
  rw [hr] at active ⊢
  have hf := expirePendingRequests_frame config now
    (finalizeRequests config dependencies now actor)
  exact ⟨finalizeRequests_finalized now actor (hf.1.symm.trans active), hf.2⟩

/-- An active node with a free slot whose first request does not wait to poll its prerequisite:
some request that is not due yet is earlier than every request that is in flight. -/
def Overtaken (config : Config) (now : TimePoint) (actor : NodeActor) : Prop :=
  actor.state = .active ∧
  (actor.activeRequests.entries.filter fun p => p.2.state ≠ .completed).length <
    config.limits.maxInflightRequests ∧
  (∀ head, actor.pendingRequests.head? = some head → now < head.deadline →
    head.prerequisiteHandle ≠ 0 → actor.nextPrerequisitePollAt ≤ now) ∧
  ∃ request ∈ actor.pendingRequests, now < request.deadline ∧ request.deadline < .max ∧
    ∀ requestId record, (requestId, record) ∈ actor.activeRequests.entries →
      record.isExposed = true → request.deadline < record.request.deadline

variable (config dependencies) in
theorem advance_active (now : TimePoint)
    (active : (advance config dependencies now actor).state = .active) :
    Finalized actor { advance config dependencies now actor with
      pendingRequests := actor.pendingRequests
      activeRequests := (dispatchable config dependencies now actor).activeRequests } ∧
    Dispatched (dispatchable config dependencies now actor)
      { advance config dependencies now actor with
        pendingCheckAt := (dispatchable config dependencies now actor).pendingCheckAt } ∧
    (advance config dependencies now actor).pendingCheckAt =
      if (advance config dependencies now actor).pendingRequests = [] then .max
      else (dispatchable config dependencies now actor).pendingCheckAt := by
  cases advance_advanced config dependencies now actor with
  | idle i s => exact absurd (s.symm.trans active) i
  | busy hc dispatched c =>
    obtain ⟨f, hr, ha⟩ := dispatchable_finalized now hc
    have hs := dispatched.actionAt.trans ha
    refine ⟨⟨f.active, rfl, ?_, ?_⟩, dispatched, c⟩
    · rw [hr]
      exact f.records
    · intro requestId record hm he
      exact hs ▸ f.covers hm he

theorem pendingRequests_advance (active : (dispatchable config dependencies now actor).state =
    .active) : (advance config dependencies now actor).pendingRequests =
      (dispatchLoop config dependencies now (dispatchable config dependencies now
        actor).pendingRequests (dispatchable config dependencies now actor)).pendingRequests := by
  have he : advance config dependencies now actor = flushCompletions
      (dispatchPendingRequests config dependencies now
        (dispatchable config dependencies now actor)) := rfl
  rw [he]
  generalize dispatchable config dependencies now actor = before at active
  unfold flushCompletions dispatchPendingRequests
  rw [if_neg (not_not_intro active)]
  dsimp only
  split <;> split <;> rfl

theorem advance_open (active : (dispatchable config dependencies now actor).state = .active)
    (hn : (dispatchable config dependencies now actor).pendingRequests ≠ [])
    (he : (advance config dependencies now actor).pendingRequests = []) :
    (dispatchable config dependencies now actor).activeRequests.size <
        config.limits.maxInflightRequests ∧
      ∀ head, actor.pendingRequests.head? = some head → now < head.deadline →
        head.prerequisiteHandle ≠ 0 → actor.nextPrerequisitePollAt ≤ now := by
  rw [pendingRequests_advance active] at he
  obtain ⟨first, rest, hq⟩ := exists_cons_of_ne_nil hn
  have ho := hq
  rw [hq] at he
  obtain ⟨hs, hp⟩ := dispatchLoop_open ho he
  refine ⟨hs, fun head hh hd hw => ?_⟩
  have hf := finalizeRequests_queue config dependencies now actor
  have hr : retryConnection config dependencies now
      (finalizeRequests config dependencies now actor) =
        finalizeRequests config dependencies now actor := retryConnection_eq active
  unfold dispatchable at hp hq
  rw [hr] at hp hq
  obtain ⟨hk, ht⟩ := expirePendingRequests_head now (hf.1 ▸ hh) hd
  rw [hq] at hk
  cases hk
  rw [ht, hf.2.2] at hp
  exact hp hw

/-- After `advance` the wake-up time covers every pending deadline and, in an active node, every
exposed one, unless a request of the queue was earlier than all that were in flight: the timer of a
queue that is emptied is dropped, and the other one was read before. -/
theorem wakeup_covers (config : Config) (dependencies : NodeDependencies) (calls : List Call)
    (now : TimePoint) (hbefore : ¬Overtaken config now (after config dependencies calls)) :
    (∀ request ∈ (advance config dependencies now
          (after config dependencies calls)).pendingRequests,
        nextWakeup config (advance config dependencies now (after config dependencies calls)) ≤
          request.deadline) ∧
      ((advance config dependencies now (after config dependencies calls)).state = .active →
        ∀ requestId record, (requestId, record) ∈ (advance config dependencies now
            (after config dependencies calls)).activeRequests.entries →
          record.isExposed = true →
          nextWakeup config (advance config dependencies now (after config dependencies calls)) ≤
            record.request.deadline) := by
  have hc := after_checked config dependencies calls
  generalize after config dependencies calls = actor at hc hbefore
  have hb := dispatchable_checked config dependencies now hc
  have hw := nextWakeup_le config (advance config dependencies now actor)
  refine ⟨fun request hm => ?_, fun ha requestId record hm hx => ?_⟩
  · exact hw.trans ((min_le_right _ _).trans
      ((advance_advanced config dependencies now actor).checked hb.1 request hm))
  obtain ⟨final, dispatched, hh⟩ := advance_active config dependencies now ha
  obtain ho | hq := dispatched.records hm hx
  · obtain ⟨old, hn, hol, hr⟩ := ho
    have hl := final.covers ((final.records (ne_completed_of_isExposed hol)).1 hn) hol
    exact hr ▸ hw.trans ((min_le_left _ _).trans hl)
  obtain ⟨request, hn, hr⟩ := hq
  by_cases he : (advance config dependencies now actor).pendingRequests = []
  · by_contra hla
    have ht : request.deadline < (advance config dependencies now actor).nextActionAt := by
      have hd : record.request.deadline = request.deadline := by rw [hr]
      exact hd ▸ (not_le.1 hla).trans_le (hw.trans (min_le_left _ _))
    obtain ⟨hs, hp⟩ := advance_open (dispatched.state.symm.trans ha) (ne_nil_of_mem hn) he
    exact hbefore ⟨final.active, final.size_le.trans_lt hs, hp, request, hb.2.1 request hn,
      hb.2.2 request hn, ht.trans_le (le_max _),
      fun _ _ hold hol => ht.trans_le (final.covers hold hol)⟩
  rw [if_neg he] at hh
  have hl := hb.1 request hn
  rw [← hh] at hl
  rw [hr]
  exact hw.trans ((min_le_right _ _).trans hl)

def twoSlots : Config := { limits := { maxInflightRequests := 2 } }

def requestDue (requestId : RequestId) (deadline : TimePoint) : Request :=
  { requestId, entries := [{ blockId := Vector.ofFn fun _ => 1 }], deadline }

/-- A request is in flight; a second one, which is due later, is in the queue. -/
def laterRequest : List Call :=
  [.advance 0, .event (.connectCompleted 0 0 1 .OK) 1, .request (requestDue 7 50) 2, .advance 3,
    .request (requestDue 8 100) 4]

theorem laterRequest_covered : (advance twoSlots granting 5 (after twoSlots granting
        laterRequest)).state = .active ∧
      ∃ record, (8, record) ∈ (advance twoSlots granting 5 (after twoSlots granting
          laterRequest)).activeRequests.entries ∧
        record.isExposed = true ∧ record.request.deadline = 100 ∧
        nextWakeup twoSlots (advance twoSlots granting 5 (after twoSlots granting
          laterRequest)) ≤ record.request.deadline := by
  have hs : (advance twoSlots granting 5 (after twoSlots granting laterRequest)).state = .active := by
    decide +kernel
  have hb : ¬Overtaken twoSlots 5 (after twoSlots granting laterRequest) := by
    rintro ⟨-, -, -, request, hm, -, -, he⟩
    have hd : ∀ request ∈ (after twoSlots granting laterRequest).pendingRequests,
        request.deadline = 100 := by decide +kernel
    have ha : (after twoSlots granting laterRequest).activeRequests.entries.any
        (fun p => p.2.isExposed && p.2.request.deadline == 50) = true := by decide +kernel
    obtain ⟨⟨requestId, record⟩, hf, hr⟩ := any_eq_true.1 ha
    rw [Bool.and_eq_true, beq_iff_eq] at hr
    have hl := he requestId record hf hr.1
    rw [hd request hm, hr.2] at hl
    exact absurd hl (by decide)
  have ha : (advance twoSlots granting 5 (after twoSlots granting
      laterRequest)).activeRequests.entries.any
        (fun p => p.1 == 8 && p.2.isExposed && p.2.request.deadline == 100) = true := by
    decide +kernel
  obtain ⟨⟨requestId, record⟩, hm, hr⟩ := any_eq_true.1 ha
  simp only [Bool.and_eq_true, beq_iff_eq] at hr
  obtain ⟨⟨rfl, hx⟩, hd⟩ := hr
  exact ⟨hs, record, hm, hx, hd, (wakeup_covers twoSlots granting laterRequest 5 hb).2 hs _ _ hm hx⟩

def oneRequest : List Call :=
  [.advance 0, .event (.connectCompleted 0 0 1 .OK) 1, .request (requestDue 7 100) 2]

/-- The request is sent at 3, and nothing would ever wake the runner for it. -/
theorem oneRequest_slept_through : (advance { limits := { maxInflightRequests := 1 } } granting 3
        (after { limits := { maxInflightRequests := 1 } } granting oneRequest)).state = .active ∧
      ∃ requestId record, (requestId, record) ∈
          (advance { limits := { maxInflightRequests := 1 } } granting 3
            (after { limits := { maxInflightRequests := 1 } } granting
              oneRequest)).activeRequests.entries ∧
        record.isExposed = true ∧ record.request.deadline = 100 ∧
        nextWakeup { limits := { maxInflightRequests := 1 } }
          (advance { limits := { maxInflightRequests := 1 } } granting 3
            (after { limits := { maxInflightRequests := 1 } } granting oneRequest)) = .max := by
  have ha : (advance { limits := { maxInflightRequests := 1 } } granting 3
      (after { limits := { maxInflightRequests := 1 } } granting
        oneRequest)).activeRequests.entries.any
          (fun p => p.2.isExposed && p.2.request.deadline == 100) = true := by decide +kernel
  obtain ⟨⟨requestId, record⟩, hm, hr⟩ := any_eq_true.1 ha
  rw [Bool.and_eq_true, beq_iff_eq] at hr
  exact ⟨by decide +kernel, requestId, record, hm, hr.1, hr.2, by decide +kernel⟩

end UnifiedCache.Dram.NodeActor
