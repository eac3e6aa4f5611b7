import Mathlib.Data.List.Nodup
import UnifiedCache.Lib.Replay

/-! The connection manager of the ASU transport after set-up, in single reads and writes. A channel
is known by a number of its own, as by its pointer. `channelCacheMu_` admits one selecting call at
a time; a rebuild of the cache and a replacement of a channel exclude each other by
`structureMu_`. -/
namespace UnifiedCache.Kv
open List Function Transition

inductive ChannelState where
  | ACTIVE | DRAINING | FAILED
  deriving DecidableEq

inductive RoutingPolicy where
  | ROUND_ROBIN | LEAST_LOADED

/-- Where `SelectConnection` is. -/
inductive Selecting where
  | idle
  | begun (policy : RoutingPolicy)
  | rebuilding (policy : RoutingPolicy) (rest newCache : List Nat)
  | stored (policy : RoutingPolicy)
  | roundRobin (rest : List Nat)
  | sawActive (ch : Nat) (rest : List Nat)
  | leastLoaded (rest : List Nat) (selected : Option (Nat × UInt32))
  | sawInflight (ch : Nat) (inflight : UInt32) (rest : List Nat)
    (selected : Option (Nat × UInt32))
  | taking (ch : Nat)

/-- It holds `structureMu_`. -/
def Selecting.locked : Selecting → Bool
  | .rebuilding .. | .stored _ => true
  | _ => false

/-- Where a call of `ReportFailure` is that has found its channel at the threshold. -/
inductive Reporting where
  | counted | marked | dirtied

/-- Where `RecoverLoop` is; it has `replaced` a channel before it sets the dirty flag. -/
inductive Recovering where
  | idle
  | recovering (toRecover : List Nat)
  | replaced (toRecover : List Nat)

def Recovering.hands : Recovering → List Nat
  | .idle => []
  | .recovering toRecover | .replaced toRecover => toRecover

def Recovering.locked : Recovering → Bool
  | .replaced _ => true
  | _ => false

structure Limits where
  maxErrorCount : UInt32 := 2
  maxInflightPerChannel : UInt32 := 256

structure ConnectionManager where
  state : Nat → ChannelState := fun _ => .ACTIVE
  inflightCount : Nat → UInt32 := fun _ => 0
  errorCount : Nat → UInt32 := fun _ => 0
  group : Nat → Nat
  groupCount : Nat
  groups : Nat → List Nat
  nextChannel : Nat
  channelCache : List Nat
  cacheDirty : Bool := false
  rrIndex : UInt32 := 0
  drainList : List Nat := []
  selecting : Selecting := .idle
  counted : List Nat := []
  marked : List Nat := []
  dirtied : List Nat := []
  recovering : Recovering := .idle
  /-- The channels that the last selecting call has found active. -/
  seen : List Nat := []

inductive Move where
  | select (policy : RoutingPolicy)
  | advance
  | releaseInflight (ch : Nat)
  | reportFailure (ch : Nat)
  | report (reporting : Reporting) (ch : Nat)
  | reportSuccess (ch : Nat)
  /-- The next step of `RecoverLoop`, and whether `CreateConnection` returns a handle. -/
  | recover (created : Bool)

namespace ConnectionManager
variable (limits : Limits) (m : ConnectionManager)

/-- The start of the loop over the cache. -/
def scan (policy : RoutingPolicy) : ConnectionManager :=
  if m.channelCache = [] then { m with selecting := .idle }
  else match policy with
    | .ROUND_ROBIN =>
      let start := m.rrIndex.toNat % m.channelCache.length
      { m with
        rrIndex := m.rrIndex + 1
        selecting := .roundRobin (m.channelCache.drop start ++ m.channelCache.take start) }
    | .LEAST_LOADED => { m with selecting := .leastLoaded m.channelCache none }

def advance : Option ConnectionManager :=
  match m.selecting with
  | .idle => none
  | .begun policy =>
    if m.cacheDirty then
      if m.recovering.locked then none
      else some { m with
        selecting := .rebuilding policy ((range m.groupCount).flatMap m.groups) [] }
    else some (m.scan policy)
  | .rebuilding policy (ch :: rest) newCache => some { m with
      selecting := .rebuilding policy rest
        (if m.state ch = .ACTIVE then newCache ++ [ch] else newCache) }
  | .rebuilding policy [] newCache =>
    some { m with channelCache := newCache, selecting := .stored policy }
  | .stored policy => some (scan { m with cacheDirty := false } policy)
  | .roundRobin [] => some { m with selecting := .idle }
  | .roundRobin (ch :: rest) =>
    if m.state ch = .ACTIVE then
      some { m with selecting := .sawActive ch rest, seen := ch :: m.seen }
    else some { m with selecting := .roundRobin rest }
  | .sawActive ch rest => some { m with
      selecting := if m.inflightCount ch < limits.maxInflightPerChannel
        then .taking ch else .roundRobin rest }
  | .leastLoaded [] none => some { m with selecting := .idle }
  | .leastLoaded [] (some (ch, _)) => some { m with selecting := .taking ch }
  | .leastLoaded (ch :: rest) selected => some { m with
      selecting := .sawInflight ch (m.inflightCount ch) rest selected }
  | .sawInflight ch inflight rest selected =>
    if m.state ch = .ACTIVE ∧ inflight < limits.maxInflightPerChannel ∧
        inflight < (selected.map Prod.snd).getD 0xFFFFFFFF then
      some { m with
        selecting := .leastLoaded (if inflight = 0 then [] else rest) (some (ch, inflight))
        seen := ch :: m.seen }
    else some { m with selecting := .leastLoaded rest selected }
  | .taking ch => some { m with
      inflightCount := update m.inflightCount ch (m.inflightCount ch + 1)
      selecting := .idle }

def report (ch : Nat) : Reporting → Option ConnectionManager
  | .counted =>
    if ch ∈ m.counted then
      if m.state ch = .ACTIVE then
        some { m with
          counted := m.counted.erase ch
          state := update m.state ch .DRAINING
          marked := ch :: m.marked }
      else some { m with counted := m.counted.erase ch }
    else none
  | .marked =>
    if ch ∈ m.marked then
      some { m with
        marked := m.marked.erase ch, cacheDirty := true, dirtied := ch :: m.dirtied }
    else none
  | .dirtied =>
    if ch ∈ m.dirtied then
      some { m with
        dirtied := m.dirtied.erase ch
        drainList := if ch ∈ m.drainList then m.drainList else m.drainList ++ [ch] }
    else none

/-- `RemoveChannel` and `AddChannel` on the channel's group. -/
def replace (ch : Nat) : ConnectionManager :=
  let gid := m.group ch
  let new := m.nextChannel
  { m with
    groups := update m.groups gid ((m.groups gid).erase ch ++ [new])
    group := update m.group new gid
    state := update m.state new .ACTIVE
    inflightCount := update m.inflightCount new 0
    errorCount := update m.errorCount new 0
    nextChannel := new + 1 }

def recover (created : Bool) : Option ConnectionManager :=
  match m.recovering with
  | .idle => some { m with recovering := .recovering m.drainList, drainList := [] }
  | .recovering [] => some { m with recovering := .idle }
  | .recovering (ch :: rest) =>
    if created then
      if m.selecting.locked then none
      else some { m.replace ch with recovering := .replaced rest }
    else some { m with drainList := m.drainList ++ [ch], recovering := .recovering rest }
  | .replaced rest => some { m with cacheDirty := true, recovering := .recovering rest }

def perform : Move → Option ConnectionManager
  | .select policy =>
    match m.selecting with
    | .idle => some { m with selecting := .begun policy, seen := [] }
    | _ => none
  | .advance => m.advance limits
  | .releaseInflight ch => some { m with
      inflightCount := update m.inflightCount ch
        (if 0 < m.inflightCount ch then m.inflightCount ch - 1 else 0) }
  | .reportFailure ch =>
    if ch < m.nextChannel then
      let count := m.errorCount ch + 1
      some { m with
        errorCount := update m.errorCount ch count
        counted := if count < limits.maxErrorCount then m.counted else ch :: m.counted }
    else none
  | .report reporting ch => m.report ch reporting
  | .reportSuccess ch => some { m with errorCount := update m.errorCount ch 0 }
  | .recover created => m.recover created

/-- Every channel of a group is the group's own, and the groups have the given sizes. -/
structure Grouped (sizes : Nat → Nat) (groups : Nat → List Nat) (group : Nat → Nat)
    (groupCount nextChannel : Nat) : Prop where
  sizes : ∀ gid, (groups gid).length = sizes gid
  nodup : ∀ gid, (groups gid).Nodup
  own : ∀ gid, ∀ ch ∈ groups gid, group ch = gid ∧ gid < groupCount ∧ ch < nextChannel

/-- `AddGroup` was called for every group, and nothing since. -/
structure Ready (sizes : Nat → Nat) : Prop where
  fresh : m = { m with
    state := fun _ => .ACTIVE, inflightCount := fun _ => 0, selecting := .idle, counted := []
    marked := [], dirtied := [], drainList := [], recovering := .idle
    channelCache := (range m.groupCount).flatMap m.groups }
  grouped : Grouped sizes m.groups m.group m.groupCount m.nextChannel
  all : ∀ ch < m.nextChannel, ch ∈ m.groups (m.group ch)

def system (sizes : Nat → Nat) : System ConnectionManager Move where
  init m := m.Ready sizes
  step m move next := m.perform limits move = some next

/-- What holds at every moment, for groups of the given sizes. A call of `ReportFailure` that has
marked its channel is in progress while the channel is in `marked` or `dirtied`, and a replacement
while the recover loop holds `structureMu_`. -/
structure Kept (sizes : Nat → Nat) : Prop where
  selected : ∀ ch, m.selecting = .taking ch →
    ch ∈ m.seen ∧ m.inflightCount ch < limits.maxInflightPerChannel
  room : ∀ ch, m.inflightCount ch ≤ limits.maxInflightPerChannel
  sizes : ∀ gid, (m.groups gid).length = sizes gid
  drained : ∀ gid, ∀ ch ∈ m.groups gid, m.state ch ≠ .ACTIVE →
    ch ∉ m.marked → ch ∉ m.dirtied →
      (m.drainList ++ m.recovering.hands).count ch = 1
  cached : m.cacheDirty = false → m.recovering.locked = false → ∀ gid, ∀ ch ∈ m.groups gid,
    m.state ch = .ACTIVE → ch ∈ m.channelCache

/-- The channels that wait for the recover loop, with those a call is about to hand over. -/
def handed : List Nat := m.drainList ++ m.recovering.hands ++ m.marked ++ m.dirtied

def Active (ch : Nat) : Prop :=
  ch ∈ m.groups (m.group ch) ∧ m.state ch = .ACTIVE

/-- The channels of the groups that are not active are listed once, and no others. -/
def Books (listed : List Nat) : Prop :=
  (∀ ch ∈ listed, ch ∈ m.groups (m.group ch)) ∧
    ∀ ch ∈ m.groups (m.group ch),
      listed.count ch = if m.state ch = .ACTIVE then 0 else 1

/-- Counts only fall while the call holds `channelCacheMu_`, so the one it read is an upper
bound. -/
def Chosen (choice : Nat × UInt32) : Prop :=
  choice.1 ∈ m.seen ∧ m.inflightCount choice.1 ≤ choice.2 ∧
    choice.2 < limits.maxInflightPerChannel

def Phase : Selecting → Prop
  | .rebuilding _ rest newCache =>
    m.recovering.locked = false ∧ ∀ ch, m.Active ch → ch ∈ rest ∨ ch ∈ newCache
  | .stored _ =>
    m.recovering.locked = false ∧ ∀ ch, m.Active ch → ch ∈ m.channelCache
  | .sawActive ch _ => ch ∈ m.seen
  | .leastLoaded _ selected => ∀ choice ∈ selected, m.Chosen limits choice
  | .sawInflight ch inflight _ selected =>
    m.inflightCount ch ≤ inflight ∧ ∀ choice ∈ selected, m.Chosen limits choice
  | .taking ch =>
    ch ∈ m.seen ∧ m.inflightCount ch < limits.maxInflightPerChannel
  | _ => True

structure Sound (sizes : Nat → Nat) : Prop where
  room : ∀ ch, m.inflightCount ch ≤ limits.maxInflightPerChannel
  grouped : Grouped sizes m.groups m.group m.groupCount m.nextChannel
  known : ∀ ch ∈ m.counted, ch < m.nextChannel
  alive : ∀ ch < m.nextChannel, m.state ch = .ACTIVE → ch ∈ m.groups (m.group ch)
  books : m.Books m.handed
  cached : m.cacheDirty = false → m.recovering.locked = false →
    ∀ ch, m.Active ch → ch ∈ m.channelCache
  phase : m.Phase limits m.selecting

variable {limits m} {n : ConnectionManager} {sizes : Nat → Nat} {ch : Nat}

theorem Phase.mono {selecting : Selecting} (h : m.Phase limits selecting) (hs : n.seen = m.seen)
    (hi : ∀ ch, n.inflightCount ch ≤ m.inflightCount ch) (hl : selecting.locked = true →
    (m.recovering.locked = false → n.recovering.locked = false) ∧ n.channelCache = m.channelCache ∧
    ∀ ch, n.Active ch → m.Active ch) : n.Phase limits selecting := by
  have hh : ∀ choice, m.Chosen limits choice → n.Chosen limits choice :=
    fun choice ⟨hn, he, ht⟩ => ⟨hs ▸ hn, UInt32.le_trans (hi _) he, ht⟩
  cases selecting with
  | rebuilding =>
    obtain ⟨hr, -, ha⟩ := hl rfl
    exact ⟨hr h.1, fun ch hac => h.2 ch (ha ch hac)⟩
  | stored =>
    obtain ⟨hr, hc, ha⟩ := hl rfl
    exact ⟨hr h.1, fun ch hac => hc ▸ h.2 ch (ha ch hac)⟩
  | sawActive ch =>
    change ch ∈ n.seen
    exact hs ▸ h
  | leastLoaded => exact fun choice hm => hh choice (h choice hm)
  | sawInflight =>
    exact ⟨UInt32.le_trans (hi _) h.1, fun choice hm => hh choice (h.2 choice hm)⟩
  | taking => exact ⟨hs ▸ h.1, UInt32.lt_of_le_of_lt (hi _) h.2⟩
  | _ => trivial

theorem update_le {counts : Nat → UInt32} {count : UInt32} (h : count ≤ counts ch) (other : Nat) :
    update counts ch count other ≤ counts other := by
  rcases eq_or_ne other ch with rfl | hn
  · rwa [update_self]
  · rw [update_of_ne hn]
    exact UInt32.le_refl _

theorem Grouped.ne_next {groups : Nat → List Nat} {group : Nat → Nat} {groupCount next gid : Nat}
    (h : Grouped sizes groups group groupCount next) (hc : ch ∈ groups gid) : ch ≠ next :=
  Nat.ne_of_lt (h.own gid ch hc).2.2

section
variable (h : Grouped sizes m.groups m.group m.groupCount m.nextChannel)
include h

theorem Grouped.mem_replace {c : Nat} : c ∈ (m.replace ch).groups ((m.replace ch).group c) ↔
    c = m.nextChannel ∨ c ≠ ch ∧ c ∈ m.groups (m.group c) := by
  dsimp only [ConnectionManager.replace]
  rcases eq_or_ne c m.nextChannel with rfl | hn
  · simp
  · rw [update_of_ne hn]
    rcases eq_or_ne (m.group c) (m.group ch) with hg | hg
    · rw [hg, update_self]
      simp [hn, (h.nodup _).mem_erase_iff]
    · rw [update_of_ne hg]
      have hne : c ≠ ch := fun he => hg (congrArg m.group he)
      simp [hn, hne]

theorem Grouped.mem_range {gid : Nat} (hc : ch ∈ m.groups gid) :
    ch ∈ (range m.groupCount).flatMap m.groups :=
  mem_flatMap.2 ⟨gid, List.mem_range.2 (h.own gid ch hc).2.1, hc⟩

theorem Grouped.replace (hm : ch ∈ m.groups (m.group ch)) :
    Grouped sizes (m.replace ch).groups (m.replace ch).group m.groupCount (m.nextChannel + 1) := by
  have he : (m.replace ch).groups (m.group ch) =
    (m.groups (m.group ch)).erase ch ++ [m.nextChannel] := update_self ..
  have ho : ∀ gid, gid ≠ m.group ch → (m.replace ch).groups gid = m.groups gid :=
    fun gid hg => update_of_ne hg _ _
  have hw : ∀ gid, ∀ c ∈ m.groups gid, (m.replace ch).group c = gid ∧
      gid < m.groupCount ∧ c < m.nextChannel + 1 := by
    intro gid c hc
    obtain ⟨hg, hl, hn⟩ := h.own gid c hc
    exact ⟨(update_of_ne (h.ne_next hc) ..).trans hg, hl, Nat.lt_succ_of_lt hn⟩
  refine ⟨fun gid => ?_, fun gid => ?_, fun gid c hc => ?_⟩ <;>
    rcases eq_or_ne gid (m.group ch) with rfl | hg
  · have := length_pos_of_mem hm
    rw [he, ← h.sizes, length_append, length_erase_of_mem hm, length_singleton]
    omega
  · rw [ho gid hg, h.sizes]
  · rw [he, ← concat_eq_append]
    exact ((h.nodup _).erase _).concat fun hc => h.ne_next (mem_of_mem_erase hc) rfl
  · exact (ho gid hg).symm ▸ h.nodup gid
  · rw [he] at hc
    rcases mem_append.1 hc with hc | hc
    · exact hw _ c (mem_of_mem_erase hc)
    · cases mem_singleton.1 hc
      exact ⟨update_self .., (h.own _ ch hm).2.1, Nat.lt_succ_self _⟩
  · exact hw gid c (ho gid hg ▸ hc)

end

theorem Books.perm {l later : List Nat} (h : m.Books l) (hp : later ~ l) : m.Books later :=
  ⟨fun ch hm => h.1 ch (hp.mem_iff.1 hm), fun ch hm => (hp.count_eq ch).trans (h.2 ch hm)⟩

theorem Books.count_le {listed : List Nat} (h : m.Books listed) (ch : Nat) :
    listed.count ch ≤ 1 := by
  rcases Decidable.em (ch ∈ listed) with hm | hm
  · rw [h.2 ch (h.1 ch hm)]
    split <;> decide
  · simp [count_eq_zero_of_not_mem hm]

theorem Books.mark {l : List Nat} (h : m.Books l)
    (hm : ch ∈ m.groups (m.group ch)) (ha : m.state ch = .ACTIVE) :
    Books { m with state := update m.state ch .DRAINING } (ch :: l) := by
  refine ⟨fun c ho => ?_, fun c ho => ?_⟩
  · rcases mem_cons.1 ho with rfl | ho
    · exact hm
    · exact h.1 c ho
  · rw [count_cons, h.2 c ho]
    rcases eq_or_ne c ch with rfl | hn
    · simp [ha]
    · simp [hn, hn.symm]

theorem Books.replace {listed : List Nat} (hb : m.Books (ch :: listed))
    (h : Grouped sizes m.groups m.group m.groupCount m.nextChannel) :
    (m.replace ch).Books listed := by
  refine ⟨fun c hc => h.mem_replace.2 (.inr ⟨?_, hb.1 c (mem_cons_of_mem _ hc)⟩), fun c hc => ?_⟩
  · rintro rfl
    have he := hb.count_le c
    have := count_pos_iff.2 hc
    rw [count_cons_self] at he
    omega
  · rcases h.mem_replace.1 hc with rfl | ⟨hne, hc⟩
    · have hn : (m.replace ch).state m.nextChannel = .ACTIVE := update_self ..
      rw [if_pos hn]
      exact count_eq_zero.2 fun hl => h.ne_next (hb.1 _ (mem_cons_of_mem _ hl)) rfl
    · have hs : (m.replace ch).state c = m.state c := update_of_ne (h.ne_next hc) ..
      rw [hs, ← hb.2 c hc, count_cons_of_ne hne.symm]

namespace Sound
variable (h : m.Sound limits sizes)
include h

theorem scan (p : RoutingPolicy) : (m.scan p).Sound limits sizes := by
  unfold ConnectionManager.scan
  split
  · exact { h with phase := trivial }
  · cases p with
    | ROUND_ROBIN => exact { h with phase := trivial }
    | LEAST_LOADED => exact { h with phase := nofun }

theorem taken (ht : m.inflightCount ch < limits.maxInflightPerChannel) (c : Nat) :
    update m.inflightCount ch (m.inflightCount ch + 1) c ≤ limits.maxInflightPerChannel := by
  rcases eq_or_ne c ch with rfl | hn
  · rw [update_self, UInt32.le_iff_toNat_le, UInt32.toNat_add]
    exact Nat.le_trans (Nat.mod_le _ _) (UInt32.lt_iff_toNat_lt.1 ht)
  · rw [update_of_ne hn]
    exact h.room c

theorem advance (hs : m.advance limits = some n) : n.Sound limits sizes := by
  have hp := h.phase
  unfold ConnectionManager.advance at hs
  split at hs <;> rename_i he <;> try rw [he] at hp
  · cases hs
  · split at hs
    · split at hs
      · cases hs
      · rename_i ho
        cases hs
        refine { h with phase := ⟨by simpa using ho, fun ch ha => .inl ?_⟩ }
        have hw := h.grouped.own _ ch ha.1
        exact mem_flatMap.2 ⟨_, mem_range.2 hw.2.1, ha.1⟩
    · cases hs
      exact h.scan _
  · cases hs
    refine { h with phase := ⟨hp.1, fun ch ha => ?_⟩ }
    rcases hp.2 ch ha with hm | hm
    · rcases mem_cons.1 hm with rfl | hm
      · rw [if_pos ha.2]
        exact .inr mem_concat_self
      · exact .inl hm
    · refine .inr ?_
      split
      · exact mem_append_left _ hm
      · exact hm
  · cases hs
    have hal : ∀ ch, m.Active ch → ch ∈ _ := fun ch ha =>
      (hp.2 ch ha).resolve_left not_mem_nil
    exact { h with cached := fun _ _ => hal, phase := ⟨hp.1, hal⟩ }
  · cases hs
    have hc : Sound limits { m with cacheDirty := false } sizes :=
      { h with cached := fun _ _ => hp.2 }
    exact hc.scan _
  · cases hs
    exact { h with phase := trivial }
  · split at hs <;> cases hs
    · exact { h with phase := mem_cons_self }
    · exact { h with phase := trivial }
  · cases hs
    refine { h with phase := ?_ }
    split
    · rename_i hl
      exact ⟨hp, hl⟩
    · trivial
  · cases hs
    exact { h with phase := trivial }
  · cases hs
    obtain ⟨hn, hle, hl⟩ := hp _ rfl
    exact { h with phase := ⟨hn, UInt32.lt_of_le_of_lt hle hl⟩ }
  · cases hs
    exact { h with phase := ⟨UInt32.le_refl _, hp⟩ }
  · split at hs <;> cases hs
    · rename_i hb
      refine { h with phase := ?_ }
      rintro _ ⟨⟩
      exact ⟨mem_cons_self, hp.1, hb.2.1⟩
    · exact { h with phase := hp.2 }
  · cases hs
    exact { h with room := h.taken hp.2, phase := trivial }

theorem marks (hc : ch ∈ m.counted) (ha : m.state ch = .ACTIVE) : Sound limits { m with
      counted := m.counted.erase ch
      state := update m.state ch .DRAINING
      marked := ch :: m.marked } sizes := by
  have hm := h.alive ch (h.known ch hc) ha
  have hf : ∀ c, update m.state ch .DRAINING c = .ACTIVE → m.state c = .ACTIVE := by
    intro c ht
    rcases eq_or_ne c ch with rfl | hn
    · exact ha
    · rwa [update_of_ne hn] at ht
  exact { h with
    known := fun c ho => h.known c (mem_of_mem_erase ho)
    alive := fun c hlt ho => h.alive c hlt (hf c ho)
    books := (h.books.mark hm ha).perm (perm_middle.append_right _)
    cached := fun hd hl c ho => h.cached hd hl c ⟨ho.1, hf c ho.2⟩
    phase := h.phase.mono rfl (fun _ => UInt32.le_refl _) fun _ =>
      ⟨id, rfl, fun c ho => ⟨ho.1, hf c ho.2⟩⟩ }

theorem report {r : Reporting} (hs : m.report ch r = some n) : n.Sound limits sizes := by
  cases r <;> unfold ConnectionManager.report at hs <;> dsimp only at hs <;>
    split at hs <;> rename_i hc <;> try cases hs
  · split at hs <;> cases hs
    · exact h.marks hc ‹_›
    · exact { h with known := fun c ho => h.known c (mem_of_mem_erase ho) }
  · have hp : m.drainList ++ m.recovering.hands ++ m.marked.erase ch ++
        ch :: m.dirtied ~ m.handed :=
      perm_middle.trans ((perm_middle.symm.trans
        ((perm_cons_erase hc).symm.append_left _)).append_right m.dirtied)
    exact { h with books := h.books.perm hp, cached := nofun }
  · -- The call itself holds the one entry of the channel, so that it is not in the list yet.
    have hn : ch ∉ m.drainList := by
      intro hd
      have hl := h.books.count_le ch
      have := count_pos_iff.2 hd
      have := count_pos_iff.2 hc
      simp only [handed, count_append] at hl
      omega
    have hp : m.drainList ++ [ch] ++ m.recovering.hands ++ m.marked ++
        m.dirtied.erase ch ~ m.handed := by
      simp only [perm_iff_count, handed, count_append, count_singleton, count_erase]
      intro c
      have := count_pos_iff.2 hc
      split
      · cases eq_of_beq ‹_›
        omega
      · omega
    rw [if_neg hn]
    exact { h with books := h.books.perm hp }

theorem replace {r : List Nat}
    (hr : m.recovering = .recovering (ch :: r)) (hl : m.selecting.locked = false) :
    Sound limits { m.replace ch with recovering := .replaced r } sizes := by
  have hb : m.Books (ch :: (m.drainList ++ r ++ m.marked ++ m.dirtied)) := by
    refine h.books.perm ?_
    simp only [handed, hr, Recovering.hands, append_assoc]
    exact perm_middle.symm
  have hm := hb.1 ch mem_cons_self
  have ho : ∀ c, (m.replace ch).inflightCount c ≤ m.inflightCount c := update_le UInt32.zero_le
  exact {
    room := fun c => UInt32.le_trans (ho c) (h.room c)
    grouped := h.grouped.replace hm
    known := fun c hc => Nat.lt_succ_of_lt (h.known c hc)
    alive := by
      intro c ht ha
      rcases eq_or_ne c m.nextChannel with rfl | hn
      · exact h.grouped.mem_replace.2 (.inl rfl)
      · replace ha : m.state c = .ACTIVE := (update_of_ne hn _ _).symm.trans ha
        refine h.grouped.mem_replace.2 (.inr ⟨?_, h.alive c ?_ ha⟩)
        · rintro rfl
          have := hb.2 c hm
          simp [ha] at this
        · exact Nat.lt_of_le_of_ne (Nat.le_of_lt_succ ht) hn
    books := hb.replace h.grouped
    cached := nofun
    phase := h.phase.mono rfl ho fun hu => nomatch hl.symm.trans hu }

theorem rehand {drainList : List Nat} {recovering : Recovering}
    (hp : drainList ++ recovering.hands ~ m.drainList ++ m.recovering.hands)
    (hl : recovering.locked = m.recovering.locked) :
    Sound limits { m with drainList, recovering } sizes :=
  { h with
    books := h.books.perm ((hp.append_right _).append_right _)
    cached := fun hd hu => h.cached hd (hl ▸ hu)
    phase := h.phase.mono rfl (fun _ => UInt32.le_refl _) fun _ =>
      ⟨fun hu => hl.trans hu, rfl, fun _ => id⟩ }

theorem recover {c : Bool} (hs : m.recover c = some n) : n.Sound limits sizes := by
  unfold ConnectionManager.recover at hs
  split at hs <;> rename_i hr
  · cases hs
    exact h.rehand (by simp [hr, Recovering.hands]) (by rw [hr]; rfl)
  · cases hs
    exact h.rehand (by simp [hr, Recovering.hands]) (by rw [hr]; rfl)
  · split at hs
    · split at hs
      · cases hs
      · cases hs
        exact h.replace hr (eq_false_of_ne_true ‹_›)
    · cases hs
      exact h.rehand (by simp [hr, Recovering.hands]) (by rw [hr]; rfl)
  · cases hs
    exact { h with
      books := h.books.perm (by rw [handed, handed, hr]; rfl)
      cached := nofun
      phase := h.phase.mono rfl (fun _ => UInt32.le_refl _) fun _ =>
        ⟨fun _ => rfl, rfl, fun _ => id⟩ }

theorem step {move : Move} (hs : m.perform limits move = some n) : n.Sound limits sizes := by
  cases move with
  | select =>
    dsimp only [perform] at hs
    split at hs <;> cases hs
    exact { h with phase := trivial }
  | advance => exact h.advance hs
  | releaseInflight ch =>
    cases hs
    have hl : ∀ c, update m.inflightCount ch (if 0 < m.inflightCount ch then
        m.inflightCount ch - 1 else 0) c ≤ m.inflightCount c := by
      apply update_le
      split
      · grind
      · exact UInt32.zero_le
    exact { h with
      room := fun c => UInt32.le_trans (hl c) (h.room c)
      phase := h.phase.mono rfl hl fun _ => ⟨id, rfl, fun _ => id⟩ }
  | reportFailure ch =>
    dsimp only [perform] at hs
    split at hs <;> cases hs
    refine { h with known := fun c ho => ?_ }
    split at ho
    · exact h.known c ho
    · rcases mem_cons.1 ho with rfl | ho
      · assumption
      · exact h.known c ho
  | report => exact h.report hs
  | reportSuccess =>
    cases hs
    exact { h with }
  | recover => exact h.recover hs

theorem kept : m.Kept limits sizes where
  selected ch hs := by
    have hp := h.phase
    rwa [hs] at hp
  room := h.room
  sizes := h.grouped.sizes
  drained gid ch hm hs hma hdi := by
    cases (h.grouped.own gid ch hm).1
    have hc := h.books.2 ch hm
    rwa [if_neg hs, handed, count_append, count_append, count_eq_zero_of_not_mem hma,
      count_eq_zero_of_not_mem hdi] at hc
  cached hd hl gid ch hm ha := by
    cases (h.grouped.own gid ch hm).1
    exact h.cached hd hl ch ⟨hm, ha⟩

end Sound

theorem Ready.sound (h : m.Ready sizes) : m.Sound limits sizes := by
  rw [h.fresh]
  exact {
    room := fun _ => UInt32.zero_le
    grouped := h.grouped
    known := nofun
    alive := fun ch hl _ => h.all ch hl
    books := ⟨nofun, fun _ _ => rfl⟩
    cached := fun _ _ ch ha => h.grouped.mem_range ha.1
    phase := trivial }

theorem kept_always (h : Reachable (system limits sizes) m) : m.Kept limits sizes := by
  have ho : m.Sound limits sizes :=
    h.invariant (I := fun m => m.Sound limits sizes) (fun _ hr => Ready.sound hr)
      fun _ _ _ _ hs => hs.step
  exact ho.kept

def pair : ConnectionManager where
  group ch := ch
  groupCount := 2
  groups gid := if gid < 2 then [gid] else []
  nextChannel := 2
  channelCache := [0, 1]

theorem ready_pair : pair.Ready fun gid => if gid < 2 then 1 else 0 where
  fresh := rfl
  grouped := by
    refine ⟨fun gid => ?_, fun gid => ?_, fun gid ch hm => ?_⟩ <;> dsimp only [pair] at * <;>
      split at * <;> simp_all
  all ch hl := by
    change ch ∈ if ch < 2 then [ch] else []
    exact if_pos hl ▸ mem_singleton_self ch

/-- Channel 0 fails twice and is replaced; a call that begins then rebuilds the cache and takes the
new channel. -/
theorem kept_always_recovered : ∃ m : ConnectionManager, m.selecting = .taking 2 ∧
    m.groups 0 = [2] ∧ m.Kept {} fun gid => if gid < 2 then 1 else 0 := by
  have hr : replay (fun m move => m.perform {} move) (fun _ _ => true) pair
      ([.reportFailure 0, .reportFailure 0, .report .counted 0, .report .marked 0,
        .report .dirtied 0, .recover true, .recover true, .recover true, .select .ROUND_ROBIN] ++
          replicate 7 .advance) = some _ := rfl
  exact ⟨_, rfl, rfl, kept_always (reachable_of_replay_free (fun _ _ _ => id) ready_pair hr)⟩

end ConnectionManager
end UnifiedCache.Kv
