import UnifiedCache.Dram.Client

/-! The command queues of the composed client: each node sees a `Pipeline`, whatever
the other nodes do, and the counters of the executor are the sum of the nodes'
shares. -/
namespace UnifiedCache.Dram.Client
open List Function
open NodeActor TransportExecutor
variable {config : ClientConfig} {client next : Client} {node other : NodeEndpoint}

def workerOf (config : ClientConfig) (nodeId : NodeId) : Nat :=
  config.hash nodeId % config.workerCount

def view (config : ClientConfig) (client : Client) (node : NodeEndpoint) : Pipeline where
  history := client.history node.nodeId
  queued := (client.executor.workers (workerOf config node.nodeId)).backlog.filter
    fun command => command.node = node.nodeId
  running := (client.executor.workers (workerOf config node.nodeId)).running.filter
    fun command => command.node = node.nodeId
  inbox := client.inbox node.nodeId
  received := client.received.filter fun token => token.nodeId = node.nodeId

def Placed (config : ClientConfig) (client : Client) : Prop :=
  ∀ index, ∀ command ∈ (client.executor.workers index).backlog ++
      (client.executor.workers index).running.toList,
    command.node ∈ config.nodeIds ∧ workerOf config command.node = index

def Follows (config : ClientConfig) (client next : Client) (node : NodeEndpoint) : Prop :=
  view config next node = view config client node ∨
    Pipeline.Step (config.actor node) (view config client node) () (view config next node)

theorem eq_of_nodeId (valid : config.Valid) (hn : node ∈ config.nodes)
    (ho : other ∈ config.nodes) (h : other.nodeId = node.nodeId) : other = node :=
  inj_on_of_nodup_map valid.distinct ho hn h

theorem view_congr (hh : next.history node.nodeId = client.history node.nodeId)
    (hw : next.executor.workers = client.executor.workers)
    (hn : next.inbox node.nodeId = client.inbox node.nodeId) (hr : next.received = client.received)
    : view config next node = view config client node := by
  unfold view
  rw [hh, hw, hn, hr]

variable {o : Observation}

theorem follows_record (valid : config.Valid) (hd : node ∈ config.nodes)
    (hp : Possible (config.actor node) (o :: client.history node.nodeId)) (hpr : Pipeline.Private o)
    (hh : next.history = (client.record node.nodeId o).history)
    (hw : next.executor.workers = client.executor.workers) (hn : next.inbox = client.inbox)
    (hr : next.received = client.received) (ho : other ∈ config.nodes) :
    Follows config client next other := by
  by_cases he : other.nodeId = node.nodeId
  · cases eq_of_nodeId valid hd ho he
    right
    have hv : view config next node =
        { view config client node with history := o :: client.history node.nodeId } := by
      unfold view
      rw [hh, hw, hn, hr]
      simp [record]
    rw [hv]
    exact .act hpr hp
  left
  apply view_congr _ hw (congrFun hn _) hr
  rw [hh]
  exact update_of_ne he _ _

theorem private_of_idle (h : Idle o) : Pipeline.Private o := by
  cases o <;> first | exact h.elim | exact trivial

variable {index : Nat}

theorem view_worker {w : TransportWorker} (hh : next.history = client.history)
    (hw : next.executor.workers = update client.executor.workers index w)
    (hn : next.inbox = client.inbox) (hr : next.received = client.received)
    (hb : w.backlog = (client.executor.workers index).backlog)
    (hu : w.running = (client.executor.workers index).running) : view config next node =
    view config client node := by
  unfold view
  rw [hh, hw, hn, hr]
  by_cases hd : workerOf config node.nodeId = index
  · rw [hd, update_self, hb, hu]
  · rw [update_of_ne hd]

theorem publish_cases (n : NodeId) (e : NodeEvent) (client : Client) :
    client.publish n e = client ∨ client.publish n e =
        { client with
          inbox := update client.inbox n (client.inbox n ++ [e]) } := by
  unfold publish
  split
  · exact .inr rfl
  · exact .inl rfl

variable {command : TransportCommand} {status memset : Status}

theorem node_of_possible {actor : NodeActor.Config} {history : List Observation}
    (h : Possible actor (.submitted command status :: history)) :
    command.node = actor.endpoint.nodeId := by
  have hm := h.metering.head
  cases command <;> exact hm.1

theorem follows_post {a : TransportExecutor} (valid : config.Valid)
    (hc : client.executor.workerCount = config.workerCount) (hn : node ∈ config.nodes)
    (hp : Possible (config.actor node) (.submitted command .OK :: client.history node.nodeId))
    (ha : client.executor.admitCommand config.hash command = .ok a) (ht : other ∈ config.nodes) :
    Follows config client ({ client.record node.nodeId (.submitted command .OK) with
      executor := a }.call node.nodeId (.posting command)) other := by
  have ho : command.node = node.nodeId := node_of_possible hp
  obtain ⟨queue, hu, rfl⟩ := admitCommand_eq_ok ha
  have hd : client.executor.workerIndex config.hash command.node =
      workerOf config node.nodeId := by
    unfold workerIndex workerOf
    rw [hc, ho]
  rw [hd] at hu ⊢
  have hb := backlog_push hu
  by_cases he : other.nodeId = node.nodeId
  · cases eq_of_nodeId valid hn ht he
    right
    have hv : view config ({ client.record node.nodeId (.submitted command .OK) with
        executor := { client.executor with
          workers := update client.executor.workers (workerOf config node.nodeId)
            { client.executor.workers (workerOf config node.nodeId) with queue }
          admission := some command } }.call node.nodeId (.posting command)) node =
        { view config client node with
          history := .submitted command .OK :: client.history node.nodeId
          queued := (view config client node).queued ++ [command] } := by
      unfold view record call
      simp only [update_self, hb]
      rw [filter_append, filter_singleton]
      simp only [ho, decide_true, cond_true]
      rfl
    rw [hv]
    exact .post hp
  · left
    unfold view record call
    simp only [update_of_ne he]
    by_cases hw : workerOf config other.nodeId = workerOf config node.nodeId
    · rw [hw, update_self, hb, filter_append, filter_singleton]
      simp only [ho, Ne.symm he, decide_false, cond_false, append_nil]
      rfl
    · rw [update_of_ne hw]

theorem follows_accept {event : NodeEvent} {stale rest : List NodeEvent} (valid : config.Valid)
    (hn : node ∈ config.nodes)
    (hp : Possible (config.actor node) (.accepted event :: client.history node.nodeId))
    (hin : client.inbox node.nodeId = stale ++ event :: rest) (ho : other ∈ config.nodes) :
    Follows config client { client.record node.nodeId (.accepted event) with
      inbox := update client.inbox node.nodeId rest } other := by
  by_cases he : other.nodeId = node.nodeId
  · cases eq_of_nodeId valid hn ho he
    right
    have hv : view config { client.record node.nodeId (.accepted event) with
        inbox := update client.inbox node.nodeId rest } node =
        { view config client node with
          history := .accepted event :: client.history node.nodeId, inbox := rest } := by
      simp [view, record]
    rw [hv]
    exact .accept hin hp
  · left
    exact view_congr (update_of_ne he _ _) rfl (update_of_ne he _ _) rfl

theorem follows_uncount (hs : (client.executor.workers index).state = .popped command) :
    Follows config client { client with
      executor := client.executor.uncountCommand index command } node := by
  have hw := (uncountCommand_frame index command client.executor).1
  have hb : (client.executor.workers index).backlog =
      command :: (client.executor.workers index).queue.contents := by
    unfold TransportWorker.backlog
    rw [hs]
  have hr : (client.executor.workers index).running = none := by
    unfold TransportWorker.running
    rw [hs]
  by_cases hd : workerOf config node.nodeId = index
  · by_cases hn : command.node = node.nodeId
    · right
      have hv : view config { client with
          executor := client.executor.uncountCommand index command } node =
          { view config client node with
            queued := (client.executor.workers index).queue.contents.filter
              fun command => command.node = node.nodeId
            running := some command } := by
        simp [view, hw, hd, TransportWorker.backlog, TransportWorker.running, hn]
      rw [hv]
      refine .start ?_ ?_
      · simp [view, hd, hb, hn]
      · simp [view, hd, hr]
    · left
      simp only [view, hw, hd, update_self, hb, hr]
      simp [TransportWorker.backlog, TransportWorker.running, hn]
  · left
    simp only [view, hw, update_of_ne hd]

theorem Placed.executing (h : Placed config client)
    (hs : (client.executor.workers index).state = .executing command) :
    workerOf config command.node = index ∧ (client.executor.workers index).running =
    some command := by
  have hr : (client.executor.workers index).running = some command := by
    unfold TransportWorker.running
    rw [hs]
  refine ⟨(h index command (mem_append_right _ ?_)).2, hr⟩
  rw [hr]
  exact mem_singleton.2 rfl

theorem follows_reach {token : RequestToken} {op : OpType} {payload : List UInt8}
    (placed : Placed config client)
    (hs : (client.executor.workers index).state = .executing (.transmit token op payload)) :
    Follows config client { client with received := token :: client.received } node := by
  obtain ⟨hd, hu⟩ := placed.executing hs
  by_cases hn : token.nodeId = node.nodeId
  · right
    have hv : view config { client with received := token :: client.received } node =
        { view config client node with received := token :: (view config client node).received } := by
      simp [view, hn]
    have hw : workerOf config node.nodeId = index := hn ▸ hd
    have hr : (view config client node).running = some (.transmit token op payload) := by
      simp [view, hw, hu, TransportCommand.node, hn]
    rw [hv]
    exact .reach hr
  · left
    simp [view, hn]

variable (config) in
theorem view_publish (nodeId : NodeId) (e : NodeEvent) (client : Client) (node : NodeEndpoint) :
    view config (client.publish nodeId e) node = view config client node ∨
    nodeId = node.nodeId ∧ view config (client.publish nodeId e) node =
      { view config client node with inbox := (view config client node).inbox ++ [e] } := by
  obtain hl | hg := publish_cases nodeId e client
  · rw [hl]
    exact .inl rfl
  rw [hg]
  by_cases hn : nodeId = node.nodeId
  · exact .inr ⟨hn, by simp [view, hn]⟩
  · exact .inl (view_congr rfl rfl (update_of_ne (Ne.symm hn) _ _) rfl)

theorem follows_finish (status : Status) (p : Placed config client)
    (hs : (client.executor.workers index).state = .executing command) : Follows config client
      ({ client with executor := client.executor.setState index .waiting }.publish command.node
        (completionOf status command)) node := by
  obtain ⟨hd, hu⟩ := p.executing hs
  have hb : (client.executor.workers index).backlog =
      (client.executor.workers index).queue.contents := by
    unfold TransportWorker.backlog
    rw [hs]
  have ha : TransportWorker.backlog { client.executor.workers index with state := .waiting } =
      (client.executor.workers index).queue.contents := rfl
  have hid : TransportWorker.running { client.executor.workers index with state := .waiting } =
      none := rfl
  have hp := view_publish config command.node (completionOf status command)
    { client with executor := client.executor.setState index .waiting } node
  unfold Follows
  by_cases hn : command.node = node.nodeId
  · right
    have hw : workerOf config node.nodeId = index := hn ▸ hd
    have hv : view config { client with executor := client.executor.setState index .waiting }
        node = { view config client node with running := none } := by
      simp [view, setState, hw, hb, ha, hid]
    have hr : (view config client node).running = some command := by
      simp [view, hw, hu, hn]
    rw [hv] at hp
    obtain hl | ⟨-, hg⟩ := hp
    · rw [hl]
      exact .lose
    · rw [hg]
      exact .finish status hr
  · left
    rw [hp.resolve_right fun hg => hn hg.1]
    by_cases hw : workerOf config node.nodeId = index
    · simp only [view, setState, hw, update_self, hb, ha, hid, hu]
      simp [Option.filter, hn]
    · simp [view, setState, hw]

theorem follows_reply {lease : Lease} (status : Status) (r : List EntryResult)
    (hr : lease.token ∈ client.received) : Follows config client
      ({ client with replies := client.replies.setDelivered index lease }.publish
        lease.token.nodeId (.replyObserved lease.token status r)) node := by
  obtain hl | ⟨hn, hg⟩ := view_publish config lease.token.nodeId
    (.replyObserved lease.token status r)
    { client with replies := client.replies.setDelivered index lease } node
  · exact .inl hl
  right
  rw [hg]
  exact .reply status r (mem_filter.2 ⟨hr, by simp [hn]⟩)

variable {executor : TransportExecutor}

theorem failure_of_refused {hash : NodeId → Nat}
    (h : executor.admitCommand hash command = .error status) : status.success = false := by
  unfold admitCommand at h
  dsimp only at h
  split_ifs at h
  · cases h
    rfl
  · cases h
    rfl
  split at h
  · cases h
    rfl
  · cases h

theorem Step.follows (valid : config.Valid) (p : Placed config client)
    (hc : client.executor.workerCount = config.workerCount) (hs : Step config client memset next)
    (ho : other ∈ config.nodes) : Follows config client next other := by
  cases hs with
  | act hn hid =>
    exact follows_record valid hn.1 hn.2.2 (private_of_idle hid) rfl rfl rfl rfl ho
  | accept hn hin => exact follows_accept valid hn.1 hn.2.2 hin ho
  | postRefused hn _ hr =>
    exact follows_record valid hn.1 hn.2.2 (failure_of_refused hr) rfl rfl rfl rfl ho
  | post hn _ ha => exact follows_post valid hc hn.1 hn.2.2 ha ho
  | posted =>
    left
    exact view_congr rfl (countCommand_frame _ _).1 rfl rfl
  | acquireRefused hn | allocateFailed hn | releaseRefused hn | releaseFailed _ hn
  | release _ hn =>
    exact follows_record valid hn.1 hn.2.2 trivial rfl rfl rfl rfl ho
  | lease hd _ _ _ hpo | leaseRefused _ hd _ _ _ _ hpo =>
    exact follows_record valid hd hpo trivial rfl rfl rfl rfl ho
  | pop _ ht hp =>
    left
    refine view_worker rfl rfl rfl rfl ?_ ?_
    · simp only [TransportWorker.backlog, ht]
      exact (BoundedQueue.contents_of_pop hp).1.symm
    · simp only [TransportWorker.running, ht]
  | uncount _ ht => exact follows_uncount ht
  | reach _ ht => exact follows_reach p ht
  | finish status _ ht => exact follows_finish status p ht
  | exit _ ht =>
    left
    refine view_worker rfl rfl rfl rfl ?_ ?_
    · simp only [TransportWorker.backlog, ht]
    · simp only [TransportWorker.running, ht]
  | reply status r _ _ _ hrc => exact follows_reply status r hrc
  | _ => exact .inl (view_congr rfl rfl rfl rfl)

def share (config : ClientConfig) (fence : Bool) : Nat :=
  if fence then 1 else config.limits.maxInflightRequests + 1

/-- What `Start` sets up and nothing changes. -/
structure Fixed (config : ClientConfig) (executor : TransportExecutor) : Prop where
  workers : executor.workerCount = config.workerCount
  positive : 0 < config.workerCount
  capacity : ∀ fence, executor.capacity fence = config.nodes.length * share config fence
  fits : ∀ fence, config.nodes.length * share config fence < SizeT.modulus
  queue : ∀ index, (executor.workers index).queue.slots.length =
    config.nodes.length * share config false + config.nodes.length * share config true

structure QueuesSound (config : ClientConfig) (client : Client) : Prop where
  fixed : Fixed config client.executor
  placed : Placed config client
  sane : ∀ node ∈ config.nodes, Pipeline.Sane (config.actor node) (view config client node)
  counted : Counted client.executor
  posting : ∀ nodeId command, client.calling nodeId = .posting command →
    client.executor.admission = some command ∧
      ∀ other another, client.calling other = .posting another → other = nodeId

theorem fixed_start (h : start config.executorOptions = .ok executor) : Fixed config executor := by
  unfold start ClientConfig.executorOptions at h
  split_ifs at h with hb
  cases h
  rw [not_or, not_or, not_or, not_or, not_lt, not_lt] at hb
  obtain ⟨hw, -, -, _, hp⟩ := hb
  have hl : config.nodes.length * (config.limits.maxInflightRequests + 1 + 1) ≤ maxSize :=
    (Nat.le_div_iff_mul_le (Nat.succ_pos _)).1 hp
  have hm := Nat.mul_add config.nodes.length (config.limits.maxInflightRequests + 1) 1
  have ha : maxSize < SizeT.modulus := by decide
  refine ⟨rfl, Nat.pos_of_ne_zero hw, ?_, ?_, ?_⟩
  · intro f
    cases f <;> simp [TransportExecutor.capacity, share]
  · intro f
    cases f
    · simp only [share, Bool.false_eq_true, if_false]
      omega
    · simp only [share, if_true]
      omega
  · intro index
    simp [share]

theorem filter_backlog (f : Fixed config client.executor) (p : Placed config client)
    (node : NodeEndpoint) :
    (client.executor.backlog.filter fun command => command.node = node.nodeId) =
    (view config client node).queued := by
  unfold backlog
  rw [filter_flatMap, f.workers]
  apply Shares.flatMap_eq_single nodup_range
  · exact mem_range.2 (Nat.mod_lt _ f.positive)
  intro index _ hn
  rw [filter_eq_nil_iff]
  intro command hm hd
  apply hn
  rw [← (p index command (mem_append_left _ hm)).2, of_decide_eq_true hd]

theorem ofKind_backlog (valid : config.Valid) (fixed : Fixed config client.executor)
    (placed : Placed config client) (fence : Bool) : ofKind fence client.executor.backlog =
    (config.nodes.map fun node => ofKind fence (view config client node).queued).sum := by
  have ho : ∀ command ∈ client.executor.backlog, command.node ∈ config.nodeIds := by
    intro command hm
    obtain ⟨index, -, hm⟩ := mem_flatMap.1 hm
    exact (placed index command (mem_append_left _ hm)).1
  unfold ofKind
  rw [Shares.countP_eq_sum valid.distinct TransportCommand.node _ ho]
  unfold ClientConfig.nodeIds
  rw [map_map]
  congr 1
  apply map_congr_left
  intro node _
  exact congrArg _ (filter_backlog fixed placed node)

variable {pipeline : Pipeline}

section
variable (h : Pipeline.Sane (config.actor node) pipeline)
include h

theorem ofKind_queued_le (fence : Bool) : ofKind fence pipeline.queued ≤ share config fence := by
  cases fence with
  | false => simpa [ofKind, share, ClientConfig.actor] using h.countP_command_le
  | true => simpa [ofKind, share] using h.countP_fence_le

theorem ofKind_queued_lt
    (hp : Possible (config.actor node) (.submitted command status :: pipeline.history)) :
    ofKind command.isFence pipeline.queued < share config command.isFence := by
  cases hk : command.isFence with
  | false => simpa [ofKind, share, ClientConfig.actor] using h.countP_command_lt hp hk
  | true =>
    have hn := h.countP_fence_lt hp hk
    simpa [ofKind, share] using hn

end

namespace QueuesSound

section
variable (h : QueuesSound config client) (valid : config.Valid)
include h valid

theorem backlog_le (fence : Bool) :
    ofKind fence client.executor.backlog ≤ config.nodes.length * share config fence := by
  rw [ofKind_backlog valid h.fixed h.placed]
  exact Shares.sum_le fun node hn => ofKind_queued_le (h.sane node hn) fence

theorem backlog_lt (hn : client.Next config node (.submitted command status)) :
    ofKind command.isFence client.executor.backlog <
    config.nodes.length * share config command.isFence := by
  rw [ofKind_backlog valid h.fixed h.placed]
  refine Shares.sum_lt (fun node hd => ofKind_queued_le (h.sane node hd) _) hn.1 ?_
  exact ofKind_queued_lt (h.sane node hn.1) hn.2.2

theorem fits (f : Bool) : ofKind f client.executor.backlog < SizeT.modulus :=
  (h.backlog_le valid f).trans_lt (h.fixed.fits f)

end

theorem start (h : Init config client) : QueuesSound config client := by
  obtain ⟨executor, replies, _, he, -, rfl⟩ := h
  have hf := fixed_start he
  have hem : (∀ index, (executor.workers index).backlog = [] ∧
      (executor.workers index).running = none) ∧ executor.admission = none ∧
      ∀ f, executor.queued f = 0 := by
    unfold TransportExecutor.start at he
    split_ifs at he
    cases he
    exact ⟨fun _ => ⟨rfl, rfl⟩, rfl, fun f => by cases f <;> rfl⟩
  obtain ⟨hw, ha, hq⟩ := hem
  refine ⟨hf, ?_, ?_, ?_, ?_⟩
  · intro index command hm
    rw [(hw index).1, (hw index).2] at hm
    cases hm
  · intro node _
    have hv : view config { executor, replies } node = {} := by
      unfold view
      rw [(hw _).1, (hw _).2]
      rfl
    rw [hv]
    exact Pipeline.Sane.start
  · intro f
    have hb : executor.backlog = [] := by
      unfold backlog
      rw [flatMap_eq_nil_iff]
      intro index _
      exact (hw index).1
    rw [ha, hq, hb]
    rfl
  · intro n command hc
    cases hc

end QueuesSound

structure Steady (client next : Client) : Prop where
  workers : next.executor.workerCount = client.executor.workerCount
  capacity : ∀ fence, next.executor.capacity fence = client.executor.capacity fence
  queue : ∀ index, (next.executor.workers index).queue.slots.length =
    (client.executor.workers index).queue.slots.length
  queued : ∀ fence, next.executor.queued fence = client.executor.queued fence
  admission : next.executor.admission = client.executor.admission
  backlog : ∀ index, (next.executor.workers index).backlog = (client.executor.workers index).backlog
  running : ∀ index, ∀ command ∈ (next.executor.workers index).running,
    command ∈ (client.executor.workers index).running
  posting : ∀ nodeId command, next.calling nodeId = .posting command →
    client.calling nodeId = .posting command

namespace Steady

theorem of_executor (he : next.executor = client.executor)
    (hc : ∀ n command, next.calling n = .posting command → client.calling n = .posting command) :
    Steady client next := by
  refine ⟨?_, ?_, ?_, ?_, ?_, ?_, ?_, hc⟩ <;> rw [he] <;> intros <;> trivial

theorem of_worker {queue : BoundedQueue TransportCommand} {state : WorkerState}
    (he : next.executor = client.executor.setQueue index queue state)
    (hc : next.calling = client.calling)
    (hl : queue.slots.length = (client.executor.workers index).queue.slots.length)
    (hb : TransportWorker.backlog { queue, state } = (client.executor.workers index).backlog)
    (hr : TransportWorker.running { queue, state } = none) : Steady client next := by
  refine ⟨?_, ?_, ?_, ?_, ?_, ?_, ?_, ?_⟩
  · rw [he]
    rfl
  · intro f
    rw [he]
    rfl
  · intro other
    rw [he]
    by_cases ho : other = index
    · subst ho
      simpa [setQueue] using hl
    · simp [setQueue, ho]
  · intro f
    rw [he]
    rfl
  · rw [he]
    rfl
  · intro other
    rw [he]
    by_cases ho : other = index
    · subst ho
      simpa [setQueue] using hb
    · simp [setQueue, ho]
  · intro other command
    rw [he]
    by_cases ho : other = index
    · subst ho
      simp [setQueue, hr]
    · simp [setQueue, ho]
  · intro n command
    rw [hc]
    exact id

theorem posting_call {n : NodeId} {c : Calling} (h : ∀ command, c ≠ .posting command)
    {other : NodeId} (hp : (client.call n c).calling other = .posting command) :
    client.calling other = .posting command := by
  by_cases ho : other = n
  · subst ho
    rw [calling_call_self] at hp
    exact absurd hp (h command)
  · rwa [calling_call_of_ne ho] at hp

end Steady

theorem Step.steady (hs : Step config client memset next) : Steady client next ∨
    (∃ node command a, client.Next config node (.submitted command .OK) ∧
      client.executor.admission = none ∧
      client.executor.admitCommand config.hash command = .ok a ∧
      next = { client.record node.nodeId (.submitted command .OK) with
        executor := a }.call node.nodeId (.posting command)) ∨
    (∃ n command, client.calling n = .posting command ∧
      next = { client with executor := client.executor.countCommand command }.call n .idle) ∨
    ∃ index command, index < config.workerCount ∧
      (client.executor.workers index).state = .popped command ∧
      client.executor.admission = none ∧
      next = { client with executor := client.executor.uncountCommand index command } := by
  have ha : ∀ (n : NodeId) (e : NodeEvent) (m : Client),
      (m.publish n e).executor = m.executor ∧ (m.publish n e).calling = m.calling := by
    intro n e m
    unfold publish
    split <;> exact ⟨rfl, rfl⟩
  cases hs with
  | post hn hf had => exact .inr (.inl ⟨_, _, _, hn, hf, had, rfl⟩)
  | posted hc => exact .inr (.inr (.inl ⟨_, _, hc, rfl⟩))
  | allocate | lease | leaseRefused | release | released =>
    exact .inl (.of_executor rfl fun _ _ h => Steady.posting_call (by simp) h)
  | pop _ ht hp =>
    obtain ⟨ho, hl⟩ := BoundedQueue.contents_of_pop hp
    refine .inl (.of_worker rfl rfl hl ?_ rfl)
    simp only [TransportWorker.backlog, ht, ho]
  | uncount hd ht hf => exact .inr (.inr (.inr ⟨_, _, hd, ht, hf, rfl⟩))
  | finish _ _ ht =>
    obtain ⟨he, hc⟩ := ha _ _ _
    refine .inl (.of_worker he hc rfl ?_ rfl)
    simp only [TransportWorker.backlog, ht]
  | exit _ ht =>
    refine .inl (.of_worker rfl rfl rfl ?_ rfl)
    simp only [TransportWorker.backlog, ht]
  | reply =>
    obtain ⟨he, hc⟩ := ha _ _ _
    exact .inl (.of_executor he fun _ _ h => by rwa [hc] at h)
  | stopCommands =>
    exact .inl ⟨rfl, fun _ => rfl, fun _ => rfl, fun _ => rfl, rfl, fun _ => rfl,
      fun _ _ h => h, fun _ _ h => h⟩
  | _ => exact .inl (.of_executor rfl fun _ _ h => h)

namespace QueuesSound
variable {memset : Status}

theorem sane_next (h : QueuesSound config client) (valid : config.Valid)
    (hs : Step config client memset next) :
    ∀ node ∈ config.nodes, Pipeline.Sane (config.actor node) (view config next node) := by
  intro node hn
  obtain ha | hm := hs.follows valid h.placed h.fixed.workers hn
  · rw [ha]
    exact h.sane node hn
  · exact (h.sane node hn).keep hm

theorem steady (h : QueuesSound config client) (hs : Steady client next)
    (ha : ∀ node ∈ config.nodes, Pipeline.Sane (config.actor node) (view config next node)) :
    QueuesSound config next where
  fixed := {
    workers := hs.workers.trans h.fixed.workers
    positive := h.fixed.positive
    capacity := fun f => (hs.capacity f).trans (h.fixed.capacity f)
    fits := h.fixed.fits
    queue := fun index => (hs.queue index).trans (h.fixed.queue index) }
  placed := by
    intro index command hm
    apply h.placed index command
    rw [hs.backlog, mem_append, Option.mem_toList] at hm
    rw [mem_append, Option.mem_toList]
    exact hm.imp_right (hs.running index command)
  sane := ha
  counted := by
    refine h.counted.congr hs.queued hs.admission ?_
    unfold backlog
    rw [hs.workers]
    exact flatMap_congr fun index _ => hs.backlog index
  posting := by
    intro n command hc
    obtain ⟨hd, ho⟩ := h.posting n command (hs.posting _ _ hc)
    exact ⟨hs.admission.trans hd, fun other a ht => ho other a (hs.posting _ _ ht)⟩

variable {command : TransportCommand}

section
variable (h : QueuesSound config client)
include h

theorem posted {n : NodeId} (valid : config.Valid) (hca : client.calling n = .posting command)
    (hn : next = { client with executor := client.executor.countCommand command }.call n .idle)
    (hs : ∀ node ∈ config.nodes, Pipeline.Sane (config.actor node) (view config next node)) :
    QueuesSound config next := by
  obtain ⟨hd, hon⟩ := h.posting n command hca
  obtain ⟨hw, hc, -, ha⟩ := countCommand_frame command client.executor
  subst hn
  refine ⟨⟨hc.trans h.fixed.workers, h.fixed.positive, ?_, h.fixed.fits, ?_⟩, ?_, hs,
    h.counted.count hd (h.fits valid), ?_⟩
  · exact fun f => (ha f).trans (h.fixed.capacity f)
  · intro index
    exact (congrArg (fun w => (w index).queue.slots.length) hw).trans (h.fixed.queue index)
  · intro index other _
    apply h.placed index other
    rwa [← hw]
  intro other a ho
  by_cases he : other = n
  · subst he
    rw [calling_call_self] at ho
    cases ho
  · rw [calling_call_of_ne he] at ho
    exact absurd (hon other a ho) he

theorem post {a : TransportExecutor} (hp : client.Next config node (.submitted command .OK))
    (hf : client.executor.admission = none)
    (ha : client.executor.admitCommand config.hash command = .ok a)
    (hn : next = { client.record node.nodeId (.submitted command .OK) with
      executor := a }.call node.nodeId (.posting command))
    (hsa : ∀ node ∈ config.nodes, Pipeline.Sane (config.actor node) (view config next node)) :
    QueuesSound config next := by
  have hco : command.node = node.nodeId := node_of_possible hp.2.2
  have hs : 0 < client.executor.workerCount := by
    rw [h.fixed.workers]
    exact h.fixed.positive
  have hc := h.counted.admitted hf hs ha
  -- nobody else was posting, as the lock was free
  have hon : ∀ nodeId another, next.calling nodeId = .posting another →
      nodeId = node.nodeId ∧ another = command := by
    intro nodeId another hpo
    rw [hn] at hpo
    by_cases he : nodeId = node.nodeId
    · subst he
      rw [calling_call_self] at hpo
      cases hpo
      exact ⟨rfl, rfl⟩
    · rw [calling_call_of_ne he] at hpo
      cases hf.symm.trans (h.posting nodeId another hpo).1
  obtain ⟨queue, hu, rfl⟩ := admitCommand_eq_ok ha
  have hd : client.executor.workerIndex config.hash command.node =
      workerOf config command.node := by
    unfold workerIndex workerOf
    rw [h.fixed.workers]
  rw [hd] at hu hc hn
  subst hn
  refine ⟨⟨h.fixed.workers, h.fixed.positive, h.fixed.capacity, h.fixed.fits, ?_⟩, ?_, hsa, hc, ?_⟩
  · intro index
    by_cases he : index = workerOf config command.node
    · subst he
      have hl := (client.executor.workers (workerOf config command.node)).queue
        |>.length_slots_push command
      rw [hu] at hl
      simpa [call, record] using hl.trans (h.fixed.queue _)
    · simpa [call, record, update_of_ne he] using h.fixed.queue index
  · intro index other hm
    by_cases he : index = workerOf config command.node
    · subst he
      simp only [call, record, update_self, backlog_push hu] at hm
      rw [append_assoc, mem_append, mem_append] at hm
      obtain ho | hne | hr := hm
      · exact h.placed _ other (mem_append_left _ ho)
      · cases mem_singleton.1 hne
        exact ⟨hco ▸ mem_map_of_mem hp.1, rfl⟩
      · exact h.placed _ other (mem_append_right _ hr)
    · simp only [call, record, update_of_ne he] at hm
      exact h.placed index other hm
  intro nodeId another hpo
  obtain ⟨rfl, rfl⟩ := hon nodeId another hpo
  exact ⟨rfl, fun other t ht => (hon other t ht).1⟩

theorem uncount (valid : config.Valid) (hd : index < config.workerCount)
    (hs : (client.executor.workers index).state = .popped command)
    (hf : client.executor.admission = none)
    (ha : ∀ node ∈ config.nodes, Pipeline.Sane (config.actor node)
      (view config { client with executor := client.executor.uncountCommand index command } node)) :
    QueuesSound config
      { client with executor := client.executor.uncountCommand index command } := by
  obtain ⟨hw, hc, had, hca⟩ :=
    uncountCommand_frame index command client.executor
  have hl : index < client.executor.workerCount := by rwa [h.fixed.workers]
  refine ⟨⟨hc.trans h.fixed.workers, h.fixed.positive, ?_, h.fixed.fits, ?_⟩, ?_, ha,
    h.counted.uncount hf hl hs (h.fits valid), ?_⟩
  · exact fun f => (hca f).trans (h.fixed.capacity f)
  · intro other
    rw [hw]
    by_cases he : other = index
    · subst he
      simpa using h.fixed.queue other
    · simpa [update_of_ne he] using h.fixed.queue other
  · intro other a hm
    apply h.placed other a
    rw [hw] at hm
    by_cases he : other = index
    · subst he
      simp only [update_self, TransportWorker.backlog, TransportWorker.running] at hm
      simp only [TransportWorker.backlog, TransportWorker.running, hs]
      simpa [or_comm] using hm
    · rwa [update_of_ne he] at hm
  · intro n a hp
    exact ⟨had.trans (h.posting n a hp).1, (h.posting n a hp).2⟩

theorem keep (valid : config.Valid) (hs : Step config client memset next) :
    QueuesSound config next := by
  have ha := h.sane_next valid hs
  obtain hst | ⟨_, _, _, hn, hf, had, he⟩ | ⟨_, _, hc, he⟩ | ⟨_, _, hd, ht, hf, rfl⟩ := hs.steady
  · exact h.steady hst ha
  · exact h.post hn hf had he ha
  · exact h.posted valid hc he ha
  · exact h.uncount valid hd ht hf ha

theorem post_room (valid : config.Valid) (hn : client.Next config node (.submitted command status))
    (hf : client.executor.admission = none) :
    client.executor.queued command.isFence < client.executor.capacity command.isFence ∧
      ((client.executor.workers (client.executor.workerIndex config.hash command.node)).queue.push
        command).2 = true := by
  have hl := h.backlog_lt valid hn
  have hc := h.counted command.isFence
  rw [hf, ofKind_none, Nat.add_zero] at hc
  refine ⟨by rw [hc, h.fixed.capacity]; exact hl, ?_⟩
  apply (BoundedQueue.push_of_room command _).1
  rw [h.fixed.queue, ← BoundedQueue.length_contents]
  have hd : client.executor.workerIndex config.hash command.node <
      client.executor.workerCount := by
    unfold workerIndex
    rw [h.fixed.workers]
    exact Nat.mod_lt _ h.fixed.positive
  have hq := length_contents_le_backlog hd
  have ho := h.backlog_le valid false
  have he := h.backlog_le valid true
  rw [length_eq_ofKind client.executor.backlog] at hq
  cases hk : command.isFence <;> rw [hk] at hl <;> omega

end
end QueuesSound
end UnifiedCache.Dram.Client
