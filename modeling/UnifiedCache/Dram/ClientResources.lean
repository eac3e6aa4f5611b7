import UnifiedCache.Dram.ClientSlots

/-! A client never runs out of the resources that it sized for itself, unless the
device fails to zero a reply slot. -/
namespace UnifiedCache.Dram.Client
open Function Transition ReplyService
open NodeActor TransportExecutor
open DramPool (BufferPool)
variable {config : ClientConfig} {client : Client} {node : NodeEndpoint}

def zeroing (config : ClientConfig) : Transition.System Client Status :=
  (system config).restrict fun _ memset _ => memset.success = true

theorem reachable_queuesSound (valid : config.Valid)
    (h : Transition.Reachable (system config) client) : QueuesSound config client := by
  refine h.invariant (I := QueuesSound config) ?_ ?_
  · intro _ hn
    exact QueuesSound.start hn
  · intro _ _ _ _ ho hs
    exact ho.keep valid hs

theorem reachable_slotsSound (valid : config.Valid)
    (h : Transition.Reachable (zeroing config) client) : SlotsSound config client := by
  refine h.invariant (I := SlotsSound config) ?_ ?_
  · intro _ hn
    exact SlotsSound.start hn
  · intro _ _ _ _ ho hs
    exact ho.keep valid hs.2 hs.1

structure NeverExhausted (config : ClientConfig) (client : Client) : Prop where
  commands : ∀ node command status, client.Next config node (.submitted command status) →
    client.executor.admission = none → command.isFence = false →
    client.executor.queuedCommands < config.nodes.length * (config.limits.maxInflightRequests + 1)
  fences : ∀ node command status, client.Next config node (.submitted command status) →
    client.executor.admission = none → command.isFence = true →
    client.executor.queuedFences < config.nodes.length
  push : ∀ node command status, client.Next config node (.submitted command status) →
    client.executor.admission = none →
    ((client.executor.workers (client.executor.workerIndex config.hash command.node)).queue.push
      command).2 = true
  underflow : ∀ index command, index < config.workerCount →
    (client.executor.workers index).state = .popped command →
    client.executor.admission = none →
    if command.isFence then 0 < client.executor.queuedFences
    else 0 < client.executor.queuedCommands
  acquire : ∀ node token result, client.Next config node (.acquired token result) →
    ∃ slot left, client.replies.allocateSlot = .ok (slot, left)

theorem never_exhausted (valid : config.Valid)
    (h : Transition.Reachable (zeroing config) client) : NeverExhausted config client := by
  have hq := reachable_queuesSound valid h.of_restrict
  have hs := reachable_slotsSound valid h
  have hc := hq.fixed.capacity
  refine ⟨?_, ?_, ?_, ?_, ?_⟩
  · intro node command status hn hf hk
    have hr := (hq.post_room valid hn hf).1
    rw [hk, hc] at hr
    exact hr
  · intro node command status hn hf hk
    have hr := (hq.post_room valid hn hf).1
    rw [hk, hc] at hr
    simpa [share, queued] using hr
  · intro node command status hn hf
    exact (hq.post_room valid hn hf).2
  · intro index command _ ht hf
    have hp := hq.counted.queued_pos hf (by rwa [hq.fixed.workers]) ht
    unfold queued at hp
    split <;> simp_all
  · intro node token result hn
    exact hs.allocate_room valid hq hn

/-! One node with one request in flight and one reply slot. -/

def lone : ClientConfig where
  nodes := [{}]
  limits := { maxInflightRequests := 1 }
  hash := UInt64.toNat
  replySlotSize := 64
  replySlotCount := 1

def loneSlot : BufferPool.Slot := { localAddr := 4096, length := 64, slotIndex := 0, offset := 0 }

def noFreeSlots : Status := ⟨.noSpace, "dram_reply_slots: no free slots"⟩

def answering (again : Bool) : NodeDependencies where
  submitTransport _ _ := { status := .OK }
  acquireReplySlot _ token _ _ :=
    if token.requestId = 7 ∨ again then .ok (ReplyService.replySlot loneSlot) else .error noFreeSlots
  queryPrerequisite _ _ := .returned (.ok true)
  walk _ ids := ids
  walk_perm _ _ := .refl _

def lookupOf (requestId : RequestId) : Request where
  requestId := requestId
  entries := [{ blockId := Vector.ofFn fun _ => 1 }]
  deadline := 100

def tokenOf (requestId : RequestId) : RequestToken := ⟨0, 0, 1, requestId⟩

def transmitOf (requestId : RequestId) : TransportCommand :=
  .transmit (tokenOf requestId) .lookup ([0, requestId.toUInt8, 0, 0, 0, 0, 0, 0, 0, 0, 16, 0, 0, 0,
    0, 0, 0, 1, 0] ++ List.replicate 16 1)

def twoLookups : List Call :=
  [.advance 0, .event (.connectCompleted 0 0 1 .OK) 1, .request (lookupOf 7) 2, .advance 3,
    .event (.transmitCompleted (tokenOf 7) .OK) 4, .event (.replyObserved (tokenOf 7) .OK []) 5,
    .advance 6, .request (lookupOf 8) 7, .advance 8]

theorem lone_valid : lone.Valid := ⟨by decide, by decide⟩

def served : List Observation :=
  [.requested (lookupOf 8), .published [{ requestId := 7 }], .completed { requestId := 7 },
    .released (tokenOf 7) (ReplyService.replySlot loneSlot),
    .accepted (.replyObserved (tokenOf 7) .OK []), .accepted (.transmitCompleted (tokenOf 7) .OK),
    .submitted (transmitOf 7) .OK, .acquired (tokenOf 7) (.ok (ReplyService.replySlot loneSlot)),
    .requested (lookupOf 7), .accepted (.connectCompleted 0 0 1 .OK),
    .submitted (.connect 0 0 1 "") .OK]

def refused : List Observation := .acquired (tokenOf 8) (.error noFreeSlots) :: served

def reused : List Observation :=
  .submitted (transmitOf 8) .OK ::
    .acquired (tokenOf 8) (.ok (ReplyService.replySlot loneSlot)) :: served

theorem refused_possible : Possible (lone.actor {}) refused := by
  refine ⟨answering false, twoLookups, fun _ _ => rfl, by decide, by decide, ?_⟩
  decide +kernel

theorem reused_possible (c : Nat) : Possible (lone.actor {}) (reused.drop c) := by
  refine ⟨answering true, twoLookups, fun _ _ => rfl, by decide, by decide, ?_⟩
  have hs : reused <:+ (after (lone.actor {}) (answering true) twoLookups).history := by
    decide +kernel
  exact (List.drop_suffix c reused).trans hs

theorem lone_mem : ({} : NodeEndpoint) ∈ lone.nodes := List.mem_singleton.2 rfl

theorem lone_next {o : Observation} (c : Nat) (hi : client.calling 0 = .idle)
    (hs : o :: client.history 0 = reused.drop c) : client.Next lone {} o :=
  ⟨lone_mem, hi, hs ▸ reused_possible c⟩

theorem zeroing_step {next : Client} (h : Transition.Reachable (zeroing config) client)
    (hs : Step config client .OK next) : Transition.Reachable (zeroing config) next :=
  .next h ⟨hs, Status.success_OK⟩

theorem lone_free (h : Transition.Reachable (zeroing lone) client)
    (hf : client.replies.leases 0 = none ∨ 0 ∈ slotIndices (client.history 0)) :
    client.SlotFree 0 := by
  rw [slotFree_iff]
  intro nodeId hr
  obtain ⟨hl, hn, -⟩ := (reachable_slotsSound lone_valid h).releasing nodeId 0 hr
  rcases hf with hz | hm
  · rw [hz] at hl
    cases hl
  · exact hn 0 (by decide) hm

/-- The first request is served and its slot given back. Then the second one waits with the
slot, or the device has failed to zero the slot and it gets none. -/
theorem lone_runs :
    (∃ client, Transition.Reachable (zeroing lone) client ∧ client.history 0 = served ∧
      client.calling 0 = .idle) ∧ (∃ client, Transition.Reachable (zeroing lone) client ∧
      client.Next lone {} (.submitted (transmitOf 8) .OK) ∧ client.executor.admission = none) ∧
    (∃ client, Transition.Reachable (zeroing lone) client ∧ client.history 0 = reused ∧
      (view lone client {}).queued = [transmitOf 8]) ∧
    ∃ client, Transition.Reachable (system lone) client ∧ client.history 0 = refused := by
  have hw : 0 < lone.workerCount := Nat.one_pos
  have h : Transition.Reachable (zeroing lone) _ := .start ⟨_, _, 4096, rfl, rfl, rfl⟩
  have h := zeroing_step h (.post (lone_next 12 rfl rfl) rfl rfl)
  have h := zeroing_step h (.posted (show Client.calling _ 0 = _ from rfl))
  have h := zeroing_step h (.pop hw rfl rfl)
  have h := zeroing_step h (.uncount hw rfl rfl)
  have h := zeroing_step h (.finish .OK hw rfl)
  have h := zeroing_step h (.accept (lone_next 11 rfl rfl) (List.nil_append _).symm)
  -- the first request gets the slot
  have h := zeroing_step h (.act (lone_next 10 rfl rfl) trivial)
  have h := zeroing_step h (.allocate (lone_next 9 rfl rfl)
    (show ReplyService.checkAcquire _ .lookup 1 _ = _ from rfl) rfl)
  have h := zeroing_step h (.lease lone_mem rfl (lone_free h (.inl rfl)) rfl (reused_possible 9))
  -- it is sent and answered
  have h := zeroing_step h (.post (lone_next 8 rfl rfl) rfl rfl)
  have h := zeroing_step h (.posted (show Client.calling _ 0 = _ from rfl))
  have h := zeroing_step h (.pop hw rfl rfl)
  have h := zeroing_step h (.uncount hw rfl rfl)
  have h := zeroing_step h (.reach hw rfl)
  have h := zeroing_step h (.finish .OK hw rfl)
  have h := zeroing_step h (.accept (lone_next 7 rfl rfl) (List.nil_append _).symm)
  have h := zeroing_step h (.reply .OK [] (show ReplyService.leases _ 0 = _ from rfl) rfl (lone_free h (.inr (.head _)))
    (.head _))
  have h := zeroing_step h (.accept (lone_next 6 rfl rfl) (List.nil_append _).symm)
  have hf := lone_free h (.inr (.head _))
  have hlost := h.of_restrict.next (.releaseFailed (.Error "aclrtMemset")
    ⟨lone_mem, rfl, reused_possible 5⟩ hf rfl rfl)
  have h := zeroing_step h (.release .OK ⟨lone_mem, rfl, reused_possible 5⟩ hf rfl rfl)
  have h := zeroing_step h (.released (show Client.calling _ 0 = _ from rfl))
  have h := zeroing_step h (.act (lone_next 4 rfl rfl) trivial)
  have h := zeroing_step h (.act (lone_next 3 rfl rfl) trivial)
  have h := zeroing_step h (.act (lone_next 2 rfl rfl) trivial)
  refine ⟨⟨_, h, rfl, rfl⟩, ?_⟩
  have h := zeroing_step h (.allocate (lone_next 1 rfl rfl)
    (show ReplyService.checkAcquire _ .lookup 1 _ = _ from rfl) rfl)
  have h := zeroing_step h (.lease lone_mem rfl (lone_free h (.inl rfl)) rfl (reused_possible 1))
  refine ⟨⟨_, h, lone_next 0 rfl rfl, rfl⟩, ?_, ?_⟩
  · have h := zeroing_step h (.post (lone_next 0 rfl rfl) rfl rfl)
    have h := zeroing_step h (.posted (show Client.calling _ 0 = _ from rfl))
    exact ⟨_, h, rfl, rfl⟩
  · have h := hlost.next (.act (lone_next 4 rfl rfl) trivial)
    have h := h.next (.act (lone_next 3 rfl rfl) trivial)
    have h := h.next (.act (lone_next 2 rfl rfl) trivial)
    have h := h.next (.allocateFailed ⟨lone_mem, rfl, refused_possible⟩
      (show ReplyService.checkAcquire _ .lookup 1 _ = _ from rfl) rfl)
    exact ⟨_, h, rfl⟩

/-- A slot is there for the second request, its transmit finds room, and it waits. -/
theorem never_exhausted_reused :
    (∃ client, client.Next lone {} (.acquired (tokenOf 8) (.ok (ReplyService.replySlot loneSlot))) ∧
      client.history 0 = served ∧ NeverExhausted lone client) ∧
    (∃ client, client.Next lone {} (.submitted (transmitOf 8) .OK) ∧
      client.executor.admission = none ∧ NeverExhausted lone client) ∧
    ∃ client, client.history 0 = reused ∧ (view lone client {}).queued = [transmitOf 8] ∧
      NeverExhausted lone client := by
  obtain ⟨⟨first, hf, hh, hi⟩, ⟨second, hs, hn, ha⟩, ⟨third, ht, hr, hq⟩, -⟩ := lone_runs
  exact ⟨⟨first, lone_next 1 hi (hh ▸ rfl), hh, never_exhausted lone_valid hf⟩,
    ⟨second, hn, ha, never_exhausted lone_valid hs⟩, third, hr, hq, never_exhausted lone_valid ht⟩

/-- The device fails to zero the slot that is given back, so no request gets it again. -/
theorem slot_lost : ∃ client, Transition.Reachable (system lone) client ∧
    .acquired (tokenOf 8) (.error noFreeSlots) ∈ client.history 0 := by
  obtain ⟨-, -, -, client, hr, hh⟩ := lone_runs
  exact ⟨client, hr, hh ▸ .head _⟩

/-- A transmit waits once, with a reply slot of its node, not after the peer has got the
request and never behind a fence; the fence is executed when none is left. -/
theorem fence_behind_transmits (valid : config.Valid)
    (h : Transition.Reachable (system config) client) (hn : node ∈ config.nodes) :
    let p := view config client node
    let waiting := Pipeline.tokens p.queued
    waiting.Nodup ∧ (∀ token ∈ waiting, token ∈ leased p.history ∧ token ∉ p.received) ∧
      (leased p.history).length ≤ config.limits.maxInflightRequests ∧
      (∀ front fence back, p.queued = front ++ fence :: back → fence.isFence = true →
        Pipeline.tokens back = []) ∧
      (0 < p.running.toList.countP TransportCommand.isFence +
        p.inbox.countP Pipeline.isFenceCompleted → waiting = []) := by
  have hs := (reachable_queuesSound valid h).sane node hn
  refine ⟨hs.nodup, ?_, length_leased_le hs.possible.metering, hs.order, hs.fenced⟩
  intro token hm
  exact ⟨hs.leased token hm, fun hr => (hs.departed token (.inr (.inl hr))).2 hm⟩

theorem fence_behind_transmits_waiting : ∃ client, client.history 0 = reused ∧
    (view lone client {}).queued = [transmitOf 8] ∧ tokenOf 8 ∈ leased (client.history 0) ∧
      tokenOf 8 ∉ (view lone client {}).received := by
  obtain ⟨-, -, ⟨client, hr, hh, hq⟩, -⟩ := lone_runs
  have hw := (fence_behind_transmits lone_valid hr.of_restrict lone_mem).2.1
  rw [hq] at hw
  exact ⟨client, hh, hq, hw (tokenOf 8) (.head _)⟩

/-- A reply slot is free or with one request of one node, for which the service holds it. -/
theorem reply_slots_partitioned (valid : config.Valid)
    (h : Transition.Reachable (zeroing config) client) :
    (∃ free, client.replies.buffers.indexPool.Free free ∧
      (free ++ config.nodeIds.flatMap client.held).Perm (List.range config.replySlotCount)) ∧
      ∀ nodeId ∈ config.nodeIds, ∀ p ∈ leasedSlots (client.history nodeId),
        ∃ lease, client.replies.leases p.2.slotIndex.toNat = some lease ∧
          lease.token = p.1 ∧ lease.slot = p.2 := by
  have hs := reachable_slotsSound valid h
  obtain ⟨free, hp⟩ := hs.pool
  exact ⟨⟨free, hp.list, hs.slots ▸ hp.all⟩, hs.lease⟩

theorem reply_slots_partitioned_reused : ∃ client : Client, client.history 0 = reused ∧
    leasedSlots (client.history 0) = [(tokenOf 8, ReplyService.replySlot loneSlot)] ∧
      ∃ lease, client.replies.leases 0 = some lease ∧ lease.token = tokenOf 8 := by
  obtain ⟨-, -, ⟨client, hr, hh, -⟩, -⟩ := lone_runs
  have hl : leasedSlots (client.history 0) = [(tokenOf 8, ReplyService.replySlot loneSlot)] :=
    hh ▸ rfl
  have hp := (reply_slots_partitioned lone_valid hr).2 0 (.head _)
  rw [hl] at hp
  obtain ⟨lease, hs, ht, -⟩ := hp _ (.head _)
  exact ⟨client, hh, hl, lease, hs, ht⟩

end UnifiedCache.Dram.Client
