import UnifiedCache.Dram.Metering
import UnifiedCache.Dram.TransportExecutor

/-! One node of the client as its surroundings see it: the history of its actor, the
commands that wait for it in a first-in-first-out queue, the one being executed, and
the events on their way back. The node's share of every common resource is bounded
here. -/
namespace UnifiedCache.Dram
open List NodeActor TransportCommand TransportExecutor

/-- A history that the actor can have, up to any point of a call, with a transport
that does not call back, distinct request ids and a clock below its maximum. -/
def NodeActor.Possible (config : Config) (history : List Observation) : Prop :=
  ∃ dependencies calls, Asynchronous dependencies ∧
    ((handed calls).map Request.requestId).Nodup ∧ (∀ call ∈ calls, call.now < .max) ∧
    history <:+ (after config dependencies calls).history

namespace NodeActor.Possible
variable {cfg : Config} {history : List Observation} {o : Observation}

theorem tail (h : Possible cfg (o :: history)) : Possible cfg history := by
  obtain ⟨d, calls, ha, hd, hr, hs⟩ := h
  exact ⟨d, calls, ha, hd, hr, (suffix_cons o history).trans hs⟩

section
variable (h : Possible cfg history)
include h

theorem metering : Trace.Always (Metering cfg) history := by
  obtain ⟨d, calls, ha, hd, hr, hs⟩ := h
  exact (after_metered cfg ha calls hd hr).always.suffix hs

theorem releases : Trace.Always ReleaseSafe history := by
  obtain ⟨d, calls, -, hd, -, hs⟩ := h
  exact (after_slotSafe cfg d calls hd).holds.releases.suffix hs

theorem once : Trace.Always SubmitOnce history := by
  obtain ⟨d, calls, -, hd, -, hs⟩ := h
  exact (after_slotSafe cfg d calls hd).holds.once.suffix hs

end
end NodeActor.Possible

theorem length_leased_le {cfg : Config} {history : List Observation}
    (h : Trace.Always (Metering cfg) history) :
    (leased history).length ≤ cfg.limits.maxInflightRequests := by
  induction history with
  | nil => exact Nat.zero_le _
  | cons _ _ ih =>
    have hr := ih h.tail
    have hh := h.head
    unfold leased
    split
    · exact Nat.zero_le _
    · rename_i he
      cases he
      split
      · exact hr
      · exact hh.2.1
    · rename_i he
      cases he
      exact (length_erase_le).trans hr
    · rename_i he
      cases he
      exact hr

structure Pipeline where
  history : List Observation := []
  queued : List TransportCommand := []
  running : Option TransportCommand := none
  inbox : List NodeEvent := []
  received : List RequestToken := []

namespace Pipeline

def eventToken? : NodeEvent → Option RequestToken
  | .transmitCompleted token _ => some token
  | .replyObserved token _ _ => some token
  | _ => none

def isConnectCompleted : NodeEvent → Bool
  | .connectCompleted _ _ _ _ => true
  | _ => false

def isFenceCompleted : NodeEvent → Bool
  | .fenceCompleted _ _ _ _ => true
  | _ => false

def Private : Observation → Prop
  | .accepted _ => False
  | .submitted _ status => status.success = false
  | _ => True

/-- Stale events leave no trace in the history, so an accepted event comes behind the
stale ones that were handled before it. The peer replies to what it received. -/
inductive Step (config : Config) : Pipeline → Unit → Pipeline → Prop where
  | act : Private o → Possible config (o :: p.history) →
    Step config p () { p with history := o :: p.history }
  | accept : p.inbox = stale ++ event :: rest → Possible config (.accepted event :: p.history) →
    Step config p () { p with history := .accepted event :: p.history, inbox := rest }
  | post : Possible config (.submitted command .OK :: p.history) →
    Step config p () { p with
      history := .submitted command .OK :: p.history, queued := p.queued ++ [command] }
  | start : p.queued = command :: rest → p.running = none →
    Step config p () { p with queued := rest, running := some command }
  | reach : p.running = some (.transmit token op payload) →
    Step config p () { p with received := token :: p.received }
  | finish (status : Status) : p.running = some command →
    Step config p () { p with
      running := none, inbox := p.inbox ++ [completionOf status command] }
  | reply (status : Status) (results : List EntryResult) : token ∈ p.received →
    Step config p () { p with inbox := p.inbox ++ [.replyObserved token status results] }
  /-- A scheduler that is shutting down drops what is published. -/
  | lose : Step config p () { p with running := none }

def tokens (commands : List TransportCommand) : List RequestToken :=
  commands.filterMap token?

@[simp] theorem tokens_append (c more : List TransportCommand) :
    tokens (c ++ more) = tokens c ++ tokens more :=
  filterMap_append

@[simp] theorem mem_tokens {commands : List TransportCommand} {token : RequestToken} :
    token ∈ tokens commands ↔ ∃ op payload, .transmit token op payload ∈ commands := by
  unfold tokens
  rw [mem_filterMap]
  constructor
  · rintro ⟨cmd, hm, ht⟩
    cases cmd with
    | transmit _ op payload =>
      cases ht
      exact ⟨op, payload, hm⟩
    | _ => cases ht
  · rintro ⟨op, payload, hm⟩
    exact ⟨_, hm, rfl⟩

def Taken (token : RequestToken) (p : Pipeline) : Prop := ∃ o ∈ p.history, TookOver token o

def outstanding (p : Pipeline) (command : TransportCommand → Bool) (event : NodeEvent → Bool) :
    Nat :=
  p.queued.countP command + p.running.toList.countP command + p.inbox.countP event

structure Sane (config : Config) (p : Pipeline) : Prop where
  possible : Possible config p.history
  nodes : ∀ command ∈ p.queued, command.node = config.endpoint.nodeId
  nodup : (tokens p.queued).Nodup
  /-- No event that would end a queued transmit was accepted. -/
  unsettled : ∀ token ∈ tokens p.queued, ¬Quiet token p.history
  leased : ∀ token ∈ tokens p.queued, token ∈ leased p.history
  departed : ∀ token, token ∈ tokens p.running.toList ∨ token ∈ p.received ∨
    token ∈ p.inbox.filterMap eventToken? → p.Taken token ∧ token ∉ tokens p.queued
  connects : p.outstanding isConnect isConnectCompleted ≤
    (connectOut p.history).toNat
  fences : p.outstanding isFence isFenceCompleted ≤ (fenceOut p.history).toNat
  /-- No transmit waits behind a fence. -/
  order : ∀ front fence back, p.queued = front ++ fence :: back → fence.isFence = true →
    tokens back = []
  /-- All transmits are gone once the fence is executed. -/
  fenced : 0 < p.running.toList.countP isFence + p.inbox.countP isFenceCompleted →
    tokens p.queued = []

section
variable (status : Status) (cmd : TransportCommand)
include status cmd

@[simp] theorem isConnectCompleted_completionOf :
    isConnectCompleted (completionOf status cmd) = cmd.isConnect := by
  cases cmd <;> rfl

@[simp] theorem isFenceCompleted_completionOf :
    isFenceCompleted (completionOf status cmd) = cmd.isFence := by
  cases cmd <;> rfl

@[simp] theorem eventToken_completionOf : eventToken? (completionOf status cmd) = cmd.token? := by
  cases cmd <;> rfl

end

variable {o : Observation}

theorem not_stopped_of_private (h : Private o) (token : RequestToken) : ¬Stopped token o := by
  rintro ⟨event, -, rfl⟩
  exact h

theorem out_of_private (h : Private o) (history : List Observation) :
    connectOut (o :: history) = connectOut history ∧ fenceOut (o :: history) = fenceOut history
    := by
  cases o with
  | accepted => exact h.elim
  | submitted cmd status =>
    have hf : status.success = false := h
    cases cmd <;> simp [connectOut, fenceOut, hf]
  | _ => exact ⟨rfl, rfl⟩

namespace Sane
variable {cfg : Config} {p q : Pipeline}

theorem start : Sane cfg {} where
  possible := ⟨granting, [], fun _ _ => rfl, by simp [handed], by simp, nil_suffix⟩
  nodes := by simp
  nodup := by simp [tokens]
  unsettled := by simp [tokens]
  leased := by simp [tokens]
  departed := by simp [tokens]
  connects := by simp [outstanding]
  fences := by simp [outstanding]
  order := by simp
  fenced := by simp [tokens]

variable {token : RequestToken}

theorem taken (h : Sane cfg p) (hm : token ∈ tokens p.queued) : p.Taken token :=
  Trace.exists_mark_of_not_since (h.unsettled token hm)

variable {payload : List UInt8}

theorem not_taken {op : OpType} {status : Status}
    (hpo : Possible cfg (.submitted (.transmit token op payload) status :: p.history)) :
    ¬p.Taken token := by
  rintro ⟨o, hm, ht⟩
  exact hpo.once.head token op payload status rfl o hm ht

theorem act (h : Sane cfg p) (hp : Private o) (hpo : Possible cfg (o :: p.history)) :
    Sane cfg { p with history := o :: p.history } := { h with
  possible := hpo
  unsettled := fun token hm hq =>
    h.unsettled token hm (hq.of_cons (not_stopped_of_private hp token))
  leased := by
    intro token hm
    have ho := h.leased token hm
    cases o with
    | accepted => exact hp.elim
    | acquired _ r =>
      cases r with
      | error => exact ho
      | ok =>
        simp only [NodeActor.leased]
        split
        · exact ho
        · exact mem_cons_of_mem _ ho
    | released other s =>
      -- a slot is given back when its transmit is over, and a queued one is not
      have hq := (hpo.releases.head other s rfl).1
      have hn : token ≠ other := by
        rintro rfl
        exact h.unsettled token hm hq
      exact (mem_erase_of_ne hn).2 ho
    | _ => exact ho
  departed := fun token hg =>
    have ⟨⟨o', hm, ht⟩, hno⟩ := h.departed token hg
    ⟨⟨o', mem_cons_of_mem _ hm, ht⟩, hno⟩
  connects := by
    rw [(out_of_private hp _).1]
    exact h.connects
  fences := by
    rw [(out_of_private hp _).2]
    exact h.fences }

variable {cmd : TransportCommand → Bool} {event : NodeEvent → Bool} {out : Bool}

theorem none_out (h : p.outstanding cmd event ≤ out.toNat) (ho : out = false) :
    p.queued.countP cmd = 0 ∧ p.running.toList.countP cmd = 0 ∧ p.inbox.countP event = 0 := by
  unfold outstanding at h
  rw [ho, Bool.toNat_false] at h
  omega

variable {stale rest : List NodeEvent} {acc : NodeEvent}

section
variable (h : p.outstanding cmd event ≤ out.toNat)
  (hin : p.inbox = stale ++ acc :: rest)
include h hin

private theorem accepted_last (ha : event acc = true) :
    p.queued.countP cmd + p.running.toList.countP cmd + rest.countP event = 0 := by
  have hl := Bool.toNat_le out
  unfold outstanding at h
  rw [hin, countP_append, countP_cons, if_pos ha] at h
  omega

private theorem accepted_other :
    p.queued.countP cmd + p.running.toList.countP cmd + rest.countP event ≤ out.toNat := by
  unfold outstanding at h
  rw [hin, countP_append, countP_cons] at h
  omega

end

theorem accept {event : NodeEvent} (h : Sane cfg p) (hin : p.inbox = stale ++ event :: rest)
    (hpo : Possible cfg (.accepted event :: p.history)) :
    Sane cfg { p with history := .accepted event :: p.history, inbox := rest } := { h with
  possible := hpo
  unsettled := by
    intro token hm hq
    apply h.unsettled token hm
    apply hq.of_cons
    rintro ⟨_, hs, he⟩
    cases he
    -- an event that ends the transmit exists only once the transmit has left the queue
    have hg : ∀ other, eventToken? event = some other → other ≠ token := by
      rintro other ho rfl
      refine (h.departed other (.inr (.inr ?_))).2 hm
      rw [hin]
      simp [ho]
    cases event with
    | transmitCompleted other => exact hg other rfl hs.1
    | replyObserved other => exact hg other rfl hs
    | connectCompleted => exact hs
    | fenceCompleted =>
      have hf : 0 < p.inbox.countP isFenceCompleted := by
        rw [hin, countP_append, countP_cons, if_pos (by rfl)]
        omega
      rw [h.fenced (by omega)] at hm
      cases hm
  departed := by
    intro token hg
    have hu : token ∈ rest.filterMap eventToken? → token ∈ p.inbox.filterMap eventToken? := by
      intro hr
      rw [hin, filterMap_append, mem_append]
      right
      rw [filterMap_cons]
      split
      · exact hr
      · exact mem_cons_of_mem _ hr
    obtain ⟨⟨o, hm, ht⟩, hn⟩ := h.departed token (hg.imp_right (Or.imp_right hu))
    exact ⟨⟨o, mem_cons_of_mem _ hm, ht⟩, hn⟩
  connects := by
    have ho := accepted_other h.connects hin
    cases event with
    | connectCompleted => exact (accepted_last h.connects hin rfl).le
    | _ => exact ho
  fences := by
    have ho := accepted_other h.fences hin
    cases event with
    | fenceCompleted => exact (accepted_last h.fences hin rfl).le
    | _ => exact ho
  fenced := by
    intro hf
    apply h.fenced
    rw [hin, countP_append, countP_cons]
    dsimp only at hf
    omega }

variable {cmd : TransportCommand}

theorem start_next {rest : List TransportCommand}
    (h : Sane cfg p) (hq : p.queued = cmd :: rest) (hu : p.running = none) :
    Sane cfg { p with queued := rest, running := some cmd } := by
  have hs : ∀ token ∈ tokens rest, token ∈ tokens p.queued := by
    intro token hm
    obtain ⟨op, payload, hm⟩ := mem_tokens.1 hm
    rw [hq]
    exact mem_tokens.2 ⟨op, payload, mem_cons_of_mem _ hm⟩
  have ht : tokens p.queued = tokens [cmd] ++ tokens rest := by
    rw [hq, ← tokens_append]
    rfl
  have hn := h.nodup
  rw [ht, nodup_append] at hn
  have ha : ∀ (i : TransportCommand → Bool) (isDone : NodeEvent → Bool),
      outstanding { p with queued := rest, running := some cmd } i isDone =
        p.outstanding i isDone := by
    intro i isDone
    unfold outstanding
    rw [hq, hu, countP_cons]
    simp [countP_cons]
  exact { h with
    nodes := fun other hm => h.nodes other (hq ▸ mem_cons_of_mem _ hm)
    nodup := hn.2.1
    unsettled := fun token hm => h.unsettled token (hs token hm)
    leased := fun token hm => h.leased token (hs token hm)
    departed := by
      rintro token (hr | hg)
      · refine ⟨h.taken (ht ▸ mem_append_left _ hr), ?_⟩
        intro hm
        exact hn.2.2 token hr token hm rfl
      · obtain ⟨hta, ho⟩ := h.departed token (.inr hg)
        exact ⟨hta, fun hm => ho (hs token hm)⟩
    connects := by
      rw [ha]
      exact h.connects
    fences := by
      rw [ha]
      exact h.fences
    order := by
      intro f fe b hp
      apply h.order (cmd :: f)
      rw [hq]
      exact congrArg (cmd :: ·) hp
    fenced := by
      intro hf
      by_cases hc : cmd.isFence = true
      · exact h.order [] cmd rest hq hc
      have hb := h.fenced (by
        simp [hu]
        simpa [hc] using hf)
      rw [ht] at hb
      exact (append_eq_nil_iff.1 hb).2 }

/-- What has left the queue may go on, get lost or be answered. -/
theorem onward {running : Option TransportCommand} {inbox : List NodeEvent}
    {received : List RequestToken} (h : Sane cfg p)
    (hd : ∀ token, token ∈ tokens running.toList ∨ token ∈ received ∨
      token ∈ inbox.filterMap eventToken? → token ∈ tokens p.running.toList ∨
        token ∈ p.received ∨ token ∈ p.inbox.filterMap eventToken?)
    (hc : running.toList.countP isConnect + inbox.countP isConnectCompleted ≤
      p.running.toList.countP isConnect + p.inbox.countP isConnectCompleted)
    (hf : running.toList.countP isFence + inbox.countP isFenceCompleted ≤
      p.running.toList.countP isFence + p.inbox.countP isFenceCompleted) :
    Sane cfg { p with running, inbox, received } := by
  have ho := h.connects
  have he := h.fences
  unfold outstanding at ho he
  exact { h with
    departed := fun token hg => h.departed token (hd token hg)
    connects := by
      unfold outstanding
      dsimp only
      omega
    fences := by
      unfold outstanding
      dsimp only
      omega
    fenced := fun ht => h.fenced (Nat.lt_of_lt_of_le ht hf) }

theorem reach {op : OpType} (h : Sane cfg p) (hu : p.running = some (.transmit token op payload)) :
    Sane cfg { p with received := token :: p.received } := by
  refine h.onward ?_ le_rfl le_rfl
  rintro other (hr | hc | hi)
  · exact .inl hr
  · obtain rfl | ho := mem_cons.1 hc
    · rw [hu]
      exact .inl (mem_singleton.2 rfl)
    · exact .inr (.inl ho)
  · exact .inr (.inr hi)

theorem finish (status : Status) (h : Sane cfg p) (hr : p.running = some cmd) :
    Sane cfg { p with running := none, inbox := p.inbox ++ [completionOf status cmd] } := by
  apply h.onward
  · rintro token (hu | hc | hi)
    · cases hu
    · exact .inr (.inl hc)
    rw [filterMap_append, mem_append] at hi
    obtain ho | hn := hi
    · exact .inr (.inr ho)
    · rw [hr]
      exact .inl (by simpa [tokens] using hn)
  · simp [hr, countP_singleton, Nat.add_comm]
  · simp [hr, countP_singleton, Nat.add_comm]

theorem reply (status : Status) (r : List EntryResult) (h : Sane cfg p) (hr : token ∈ p.received) :
    Sane cfg { p with inbox := p.inbox ++ [.replyObserved token status r] } := by
  apply h.onward
  · rintro other (hu | ho | hi)
    · exact .inl hu
    · exact .inr (.inl ho)
    rw [filterMap_append, mem_append] at hi
    obtain ho | hn := hi
    · exact .inr (.inr ho)
    · cases mem_singleton.1 hn
      exact .inr (.inl hr)
  · simp [countP_append, isConnectCompleted]
  · simp [countP_append, isFenceCompleted]

theorem lose (h : Sane cfg p) : Sane cfg { p with running := none } := by
  refine h.onward ?_ (by simp) (by simp)
  rintro token (hr | hg)
  · cases hr
  · exact .inr hg

theorem post (h : Sane cfg p)
    (hpo : Possible cfg (.submitted cmd .OK :: p.history)) : Sane cfg { p with
      history := .submitted cmd .OK :: p.history, queued := p.queued ++ [cmd] } := by
  have he := hpo.metering.head
  -- a token that is posted was never taken before, so it is nowhere on its way
  have hs : ∀ token ∈ tokens [cmd], ¬p.Taken token := by
    intro token hm
    obtain ⟨op, payload, hm⟩ := mem_tokens.1 hm
    cases mem_singleton.1 hm
    exact not_taken hpo
  have hl : ∀ token ∈ tokens [cmd], fenceOut p.history = false := by
    intro token hm
    obtain ⟨op, payload, hm⟩ := mem_tokens.1 hm
    cases mem_singleton.1 hm
    exact he.2.2
  exact {
    possible := hpo
    nodes := by
      intro other hm
      obtain ho | hn := mem_append.1 hm
      · exact h.nodes other ho
      · cases mem_singleton.1 hn
        cases cmd with
        | _ => exact he.1
    nodup := by
      rw [tokens_append, nodup_append]
      refine ⟨h.nodup, ?_, ?_⟩
      · cases cmd with
        | transmit token => exact nodup_singleton token
        | _ => exact nodup_nil
      · rintro token ho _ hn rfl
        exact hs token hn (h.taken ho)
    unsettled := by
      intro token hm hu
      rw [tokens_append] at hm
      obtain ho | hn := mem_append.1 hm
      · apply h.unsettled token ho
        apply hu.of_cons
        rintro ⟨_, -, heq⟩
        cases heq
      · obtain ⟨op, payload, hn⟩ := mem_tokens.1 hn
        cases mem_singleton.1 hn
        exact Trace.not_since_cons p.history ⟨op, payload, .OK, rfl, rfl⟩ hu
    leased := by
      intro token hm
      rw [tokens_append] at hm
      obtain ho | hn := mem_append.1 hm
      · exact h.leased token ho
      · obtain ⟨op, payload, hn⟩ := mem_tokens.1 hn
        cases mem_singleton.1 hn
        exact he.2.1
    departed := by
      intro token hg
      obtain ⟨ha, ht⟩ := h.departed token hg
      refine ⟨?_, ?_⟩
      · obtain ⟨o, hm, hto⟩ := ha
        exact ⟨o, mem_cons_of_mem _ hm, hto⟩
      rw [tokens_append]
      intro hm
      obtain ho | hn := mem_append.1 hm
      · exact ht ho
      · exact hs token hn ha
    connects := by
      have hc := h.connects
      unfold outstanding at hc ⊢
      rw [countP_append, countP_singleton]
      cases cmd with
      | connect =>
        rw [he.2, Bool.toNat_false] at hc
        simp only [isConnect, connectOut, Status.success_OK, Bool.true_or,
          Bool.toNat_true, if_true]
        omega
      | _ => exact hc
    fences := by
      have hf := h.fences
      unfold outstanding at hf ⊢
      rw [countP_append, countP_singleton]
      cases cmd with
      | fenceEpoch =>
        rw [he.2, Bool.toNat_false] at hf
        simp only [isFence, fenceOut, Status.success_OK, Bool.true_or,
          Bool.toNat_true, if_true]
        omega
      | _ => exact hf
    order := by
      intro f fe ba hp hfe
      obtain rfl | ⟨b, last, rfl⟩ := eq_nil_or_concat ba
      · rfl
      rw [concat_eq_append, ← cons_append, ← append_assoc] at hp
      obtain ⟨hq, hla⟩ := append_inj' hp rfl
      cases singleton_injective hla
      rw [concat_eq_append, tokens_append, h.order f fe b hq hfe]
      refine eq_nil_iff_forall_not_mem.2 fun token hm => ?_
      have hno := (none_out h.fences (hl token hm)).1
      rw [hq, countP_append, countP_cons, if_pos hfe] at hno
      omega
    fenced := by
      intro hfe
      dsimp only at hfe ⊢
      rw [tokens_append, h.fenced hfe]
      refine eq_nil_iff_forall_not_mem.2 fun token hm => ?_
      have hno := none_out h.fences (hl token hm)
      omega }

theorem keep (h : Sane cfg p) {l : Unit} (hs : Step cfg p l q) : Sane cfg q := by
  cases hs with
  | act hp hpo => exact h.act hp hpo
  | accept hin hpo => exact h.accept hin hpo
  | post hpo => exact h.post hpo
  | start hq hr => exact h.start_next hq hr
  | reach hr => exact h.reach hr
  | finish status hr => exact h.finish status hr
  | reply status r hc => exact h.reply status r hc
  | lose => exact h.lose

end Sane

theorem countP_not_fence (c : List TransportCommand) : c.countP (fun cmd => !cmd.isFence) =
    (tokens c).length + c.countP isConnect := by
  induction c with
  | nil => rfl
  | cons cmd rest ih =>
    have ht : (tokens (cmd :: rest)).length =
        (tokens [cmd]).length + (tokens rest).length := by
      rw [← length_append, ← tokens_append]
      rfl
    have hh : ((if (!cmd.isFence) = true then 1 else 0) : Nat) =
        (tokens [cmd]).length + if cmd.isConnect = true then 1 else 0 := by
      cases cmd <;> rfl
    rw [countP_cons, countP_cons, ht, ih, hh]
    omega

namespace Sane
variable {cfg : Config} {p : Pipeline}

section
variable (h : Sane cfg p)
include h

theorem length_tokens_le : (tokens p.queued).length ≤ cfg.limits.maxInflightRequests :=
  (subperm_of_subset h.nodup h.leased).length_le.trans (length_leased_le h.possible.metering)

theorem countP_connect_le : p.queued.countP isConnect ≤ 1 := by
  have hc := h.connects
  have hl := Bool.toNat_le (connectOut p.history)
  unfold outstanding at hc
  omega

theorem countP_fence_le : p.queued.countP isFence ≤ 1 := by
  have hf := h.fences
  have hl := Bool.toNat_le (fenceOut p.history)
  unfold outstanding at hf
  omega

theorem countP_command_le :
    p.queued.countP (fun cmd => !cmd.isFence) ≤ cfg.limits.maxInflightRequests + 1 := by
  rw [countP_not_fence]
  exact Nat.add_le_add h.length_tokens_le h.countP_connect_le

end

variable {cmd : TransportCommand} {status : Status}

section
variable (h : Sane cfg p) (hpo : Possible cfg (.submitted cmd status :: p.history))
include h hpo

theorem countP_command_lt (hc : cmd.isFence = false) :
    p.queued.countP (fun cmd => !cmd.isFence) < cfg.limits.maxInflightRequests + 1 := by
  have he := hpo.metering.head
  have ho := h.countP_connect_le
  have ht := h.length_tokens_le
  rw [countP_not_fence]
  cases cmd with
  | fenceEpoch => cases hc
  | connect =>
    have hno := (none_out h.connects he.2).1
    omega
  | transmit token =>
    -- the slot of the new request is not that of a queued transmit
    have hn : token ∉ tokens p.queued := fun hm => not_taken hpo (h.taken hm)
    have hs : (token :: tokens p.queued) ⊆ NodeActor.leased p.history :=
      cons_subset.2 ⟨he.2.1, h.leased⟩
    have hl := (subperm_of_subset (nodup_cons.2 ⟨hn, h.nodup⟩) hs).length_le
    have hls := length_leased_le h.possible.metering
    rw [length_cons] at hl
    omega

theorem countP_fence_lt (hc : cmd.isFence = true) : p.queued.countP isFence = 0 := by
  have hm := hpo.metering.head
  cases cmd with
  | fenceEpoch => exact (none_out h.fences hm.2).1
  | _ => cases hc

end
end Sane
end Pipeline
end UnifiedCache.Dram
