import UnifiedCache.Lib.Scatter
import UnifiedCache.Posix.SpaceLookup

/-! The rounds of a lookup, for any loop: when a call returns a value, every task of the round
that it was read from is through, provided that no access and no exchange of the monitor fails
without reason and some backend is healthy at first. -/
namespace UnifiedCache.Posix.SpaceManager
open List Store Scatter Round
variable {Data Point Value : Type}

/-- What the loop of a service establishes: facts about the data, about a task at a point of
its loop, and about a task that went through its loop. -/
structure Lawful (service : Service Data Point Value) (query : Query) where
  sound : Data → Prop
  stands : Nat → Point → Data → Prop
  through : Nat → Data → Prop
  fresh : sound (service.fresh query)
  enter : ∀ {task data}, task < service.nWorker query → sound data → stands task (service.enter task) data
  goesOn : ∀ {task point data running outcome next after}, outcome.accessed = true → sound data →
    stands task point data → service.step query running outcome point data = (some next, after) →
    sound after ∧ stands task next after
  leaves : ∀ {task point data running outcome after}, sound data → stands task point data →
    service.step query running outcome point data = (none, after) →
    sound after ∧ (running = true → through task after)
  others : ∀ {task point data running outcome next after other}, sound data →
    stands task point data → task < service.nWorker query → other < service.nWorker query →
    other ≠ task → service.step query running outcome point data = (next, after) →
    (∀ place, stands other place data → stands other place after) ∧ (through other data → through other after)

namespace Round
variable {service : Service Data Point Value} {query : Query} (law : Lawful service query)
  {round next : Round Data Point} {index : Nat} {task : Task Point} {lucky : Bool}
  {outcome : Outcome}

def Known (data : Data) (index : Nat) : Progress Point → Prop
  | .queued => True
  | .running point => law.stands index point data
  | .leaving => law.through index data
  | .gone => law.through index data

def isGone (task : Task Point) : Bool :=
  match task.progress with
  | .gone => true
  | _ => false

structure Exact (round : Round Data Point) : Prop where
  sound : law.sound round.data
  known : ∀ index task, round.tasks[index]? = some task → Known law round.data index task.progress
  watched : ∀ task ∈ round.tasks, task.watch = .unseen ∨ task.watch = .held
  counted : round.counter + round.tasks.countP isGone = service.nWorker query

theorem tasks_modify (hta : round.tasks[index]? = some task) (change : Task Point → Task Point) :
    round.tasks.modify index change = round.tasks.set index (change task) := by
  rw [modify_eq_set_getElem?, hta]
  rfl

theorem countP_tasks (hta : round.tasks[index]? = some task) (changed : Task Point)
    (hg : isGone task = false) : (round.tasks.set index changed).countP isGone =
      round.tasks.countP isGone + if isGone changed then 1 else 0 := by
  obtain ⟨hl, he⟩ := List.getElem?_eq_some_iff.1 hta
  rw [List.countP_set hl, he, hg]
  simp

theorem Exact.start : (start service query).Exact law := by
  constructor
  · exact law.fresh
  · intro index task hta
    have hn : task ∈ replicate (service.nWorker query) {} := mem_of_getElem? hta
    rw [eq_of_mem_replicate hn]
    trivial
  · intro task hta
    rw [eq_of_mem_replicate hta]
    exact .inl rfl
  have ho : (replicate (service.nWorker query) ({} : Task Point)).countP isGone = 0 := by
    rw [countP_eq_zero]
    intro task hta
    rw [eq_of_mem_replicate hta]
    simp [isGone]
  exact congrArg (service.nWorker query + ·) ho

variable {law}

section
variable (h : round.Exact law)
include h

theorem Exact.setProgress (hta : round.tasks[index]? = some task) {data : Data}
    {progress : Progress Point} (hso : law.sound data) (he : Known law data index progress)
    (ht : ∀ o found, o ≠ index → round.tasks[o]? = some found → Known law data o found.progress)
    {counter : Nat} (hc : counter + (round.tasks.set index { task with progress }).countP isGone =
      service.nWorker query) :
    ({ data, status := round.status, counter,
       tasks := round.tasks.set index { task with progress } } : Round Data Point).Exact law := by
  refine ⟨hso, ?_, ?_, hc⟩
  · intro o found hf
    obtain ⟨rfl, rfl⟩ | ⟨hs, hf⟩ := of_getElem?_set hf
    · exact he
    · exact ht o found (Ne.symm hs) hf
  intro found hf
  obtain ho | hn := mem_or_eq_of_mem_set hf
  · exact h.watched found ho
  · rw [hn]
    exact h.watched task (mem_of_getElem? hta)

theorem Known.others {point : Point} {after : Data} {further : Option Point} {running : Bool}
    (hz : round.tasks.length = service.nWorker query) (hta : round.tasks[index]? = some task)
    (ho : law.stands index point round.data)
    (hs : service.step query running outcome point round.data = (further, after)) (other : Nat)
    (found : Task Point)
    (hn : other ≠ index) (hf : round.tasks[other]? = some found) : Known law after other
    found.progress := by
  have hl : index < service.nWorker query := hz ▸ (List.getElem?_eq_some_iff.1 hta).1
  have ht : other < service.nWorker query := hz ▸ (List.getElem?_eq_some_iff.1 hf).1
  obtain ⟨ha, hh⟩ := law.others h.sound ho hl ht hn hs
  have hk := h.known other found hf
  cases hp : found.progress with
  | queued => trivial
  | running place =>
    rw [hp] at hk
    exact ha place hk
  | leaving | gone =>
    rw [hp] at hk
    exact hh hk

theorem Exact.work (haccess : outcome.accessed = true) (hok : round.status.success = true)
    (hz : round.tasks.length = service.nWorker query) (hta : round.tasks[index]? = some task)
    (hn : round.work service query index outcome task = some next) : next.Exact law := by
  have hl : index < service.nWorker query := hz ▸ (List.getElem?_eq_some_iff.1 hta).1
  have hk := h.known index task hta
  have ht : ∀ o found, o ≠ index → round.tasks[o]? = some found →
      Known law round.data o found.progress := fun o found _ hf =>
    h.known o found hf
  have hc := h.counted
  unfold Round.work at hn
  cases hp : task.progress with
  | queued =>
    rw [hp] at hn
    cases hn
    unfold Round.setProgress
    rw [tasks_modify hta]
    have he : Known law round.data index (.running (service.enter index)) :=
      law.enter hl h.sound
    apply h.setProgress hta h.sound he ht
    rw [countP_tasks hta _ (by simp [isGone, hp])]
    exact hc
  | running p =>
    rw [hp] at hn hk
    cases hs : service.step query round.status.success outcome p round.data with
    | mk f a =>
      dsimp only at hn
      rw [hs] at hn
      cases hn
      unfold Round.setProgress
      rw [tasks_modify hta]
      have ha := Known.others h hz hta hk hs
      cases f with
      | some pl =>
        obtain ⟨ho, hat⟩ := law.goesOn haccess h.sound hk hs
        have he : Known law a index (.running pl) := hat
        apply h.setProgress hta ho he ha
        rw [countP_tasks hta _ (by simp [isGone, hp])]
        exact hc
      | none =>
        obtain ⟨ho, hh⟩ := law.leaves h.sound hk hs
        have he : Known law a index .leaving := hh hok
        apply h.setProgress hta ho he ha
        rw [countP_tasks hta _ (by simp [isGone, hp])]
        exact hc
  | leaving =>
    rw [hp] at hn hk
    cases hn
    unfold Round.setProgress Round.done
    rw [tasks_modify hta]
    have he : Known law round.data index .gone := hk
    apply h.setProgress hta h.sound he ht
    -- the task itself is not yet counted, so the latch is still closed
    have hb : round.tasks.countP isGone < round.tasks.length := by
      apply Nat.lt_of_le_of_ne countP_le_length
      intro ha
      have hg := countP_eq_length.1 ha task (mem_of_getElem? hta)
      simp [isGone, hp] at hg
    rw [countP_tasks hta _ (by simp [isGone, hp])]
    simp only [isGone, if_true]
    omega
  | gone =>
    rw [hp] at hn
    cases hn

theorem Exact.setWatch (hta : round.tasks[index]? = some task) {watch : Watch}
    (hw : watch = .unseen ∨ watch = .held) : (round.setWatch index watch).Exact law := by
  unfold Round.setWatch
  rw [tasks_modify hta]
  have hs : ∀ (p : Nat) (found : Task Point),
      (round.tasks.set index { task with watch })[p]? = some found →
      ∃ old : Task Point, round.tasks[p]? = some old ∧ found.progress = old.progress ∧
        (found.watch = old.watch ∨ found.watch = watch) := by
    intro p found hf
    obtain ⟨rfl, rfl⟩ | ⟨-, hf⟩ := of_getElem?_set hf
    · exact ⟨task, hta, rfl, .inr rfl⟩
    · exact ⟨found, hf, rfl, .inl rfl⟩
  refine ⟨h.sound, ?_, ?_, ?_⟩
  · intro p found hf
    obtain ⟨old, ho, hp, -⟩ := hs p found hf
    rw [hp]
    exact h.known p old ho
  · intro found hf
    obtain ⟨p, hpl⟩ := mem_iff_getElem?.1 hf
    obtain ⟨old, ho, -, hc⟩ := hs p found hpl
    obtain hk | hse := hc
    · rw [hk]
      exact h.watched old (mem_of_getElem? ho)
    · rw [hse]
      exact hw
  obtain ⟨hl, hg⟩ := List.getElem?_eq_some_iff.1 hta
  have hs : isGone ({ task with watch } : Task Point) = isGone task := rfl
  have hle : (if isGone task then 1 else 0) ≤ round.tasks.countP isGone := by
    split
    · exact countP_pos_iff.2 ⟨task, mem_of_getElem? hta, by assumption⟩
    · exact Nat.zero_le _
  rw [List.countP_set hl, hg, hs, Nat.sub_add_cancel hle]
  exact h.counted

end

structure Tracked (law : Lawful service query) (round : Round Data Point) : Prop where
  size : round.tasks.length = service.nWorker query
  status : round.status = .OK ∨ round.status = .Timeout
  books : round.status.success = true → round.Exact law

theorem Tracked.start : (start service query).Tracked law where
  size := length_replicate
  status := .inl rfl
  books _ := .start law

section
variable (h : round.Tracked law) (hta : round.tasks[index]? = some task)
include h hta

theorem Tracked.work (haccess : outcome.accessed = true)
    (hn : round.work service query index outcome task = some next) : next.Tracked law := by
  have hk : next.tasks.length = round.tasks.length ∧ next.status = round.status := by
    unfold Round.work at hn
    split at hn
    all_goals cases hn
    all_goals exact ⟨length_modify .., rfl⟩
  refine ⟨hk.1.trans h.size, hk.2.symm ▸ h.status, ?_⟩
  intro ho
  rw [hk.2] at ho
  exact (h.books ho).work haccess ho h.size hta hn

theorem Tracked.monitor (hn : round.monitor index true task = some next) : next.Tracked law := by
  unfold Round.monitor at hn
  split at hn
  · cases hn
  · cases hn
    exact ⟨(length_modify ..).trans h.size, h.status,
      fun ho => (h.books ho).setWatch hta (.inr rfl)⟩
  · cases hn
    -- the exchange leaves no OK behind
    have ht : (round.exchange true).status = .Timeout := by
      unfold Round.exchange
      rcases h.status with hs | hs <;> simp [hs]
    refine ⟨(length_modify ..).trans h.size, .inr ht, ?_⟩
    intro ho
    have ho : (round.exchange true).status.success = true := ho
    rw [ht] at ho
    cases ho
  · rename_i hw
    cases hn
    refine ⟨(length_modify ..).trans h.size, h.status, ?_⟩
    intro ho
    have ha := (h.books ho).watched task (mem_of_getElem? hta)
    rw [hw] at ha
    simp at ha
  · cases hn

end

structure Settled (law : Lawful service query) (round : Round Data Point) : Prop where
  sound : law.sound round.data
  gone : ∀ task ∈ round.tasks, isGone task = true
  through : ∀ index < service.nWorker query, law.through index round.data

theorem Tracked.settled (h : round.Tracked law) (ho : round.status.success = true)
    (ht : round.counter = 0) : round.Settled law := by
  have he := h.books ho
  have hc := he.counted
  rw [ht, Nat.zero_add, ← h.size] at hc
  have hg := countP_eq_length.1 hc
  refine ⟨he.sound, hg, ?_⟩
  intro index hl
  rw [← h.size] at hl
  have hk := he.known index _ (getElem?_eq_getElem hl)
  have ha := hg _ (getElem_mem hl)
  cases hp : (round.tasks[index]).progress with
  | gone =>
    rw [hp] at hk
    exact hk
  | _ => simp [isGone, hp] at ha

theorem Settled.work (h : round.Settled law) (hta : round.tasks[index]? = some task)
    (hn : round.work service query index outcome task = some next) : next.Settled law := by
  have hg := h.gone task (mem_of_getElem? hta)
  unfold Round.work at hn
  cases hp : task.progress with
  | gone =>
    rw [hp] at hn
    cases hn
  | _ => simp [isGone, hp] at hg

theorem Settled.monitor (h : round.Settled law) (hn : round.monitor index lucky task = some next) :
    next.Settled law := by
  have hk : next.data = round.data ∧ ∃ watch,
      next.tasks = round.tasks.modify index fun task => { task with watch } := by
    unfold Round.monitor at hn
    split at hn
    all_goals cases hn
    all_goals exact ⟨rfl, _, rfl⟩
  obtain ⟨hd, watch, ht⟩ := hk
  refine ⟨hd ▸ h.sound, ?_, hd ▸ h.through⟩
  rw [ht]
  intro found hf
  obtain ⟨p, hp⟩ := mem_iff_getElem?.1 hf
  rw [getElem?_modify] at hp
  obtain ⟨old, ho, he⟩ := Option.map_eq_some_iff.1 hp
  have hs : isGone found = isGone old := by
    rw [← he]
    split <;> rfl
  rw [hs]
  exact h.gone old (mem_of_getElem? ho)

theorem counter_work (hc : round.counter = 0)
    (hn : round.work service query index outcome task = some next) : next.counter = 0 := by
  unfold work at hn
  split at hn
  all_goals cases hn
  all_goals simp [setProgress, done, hc]

theorem counter_monitor (hc : round.counter = 0)
    (hn : round.monitor index lucky task = some next) : next.counter = 0 := by
  unfold monitor at hn
  split at hn
  all_goals cases hn
  all_goals simp [setWatch, done, exchange, hc]

end Round

theorem getBackendForBlock_isSome {hash : Nat} {he : List Bool}
    (h : he.contains true = true) : (getBackendForBlock hash he []).isSome = true := by
  have hn : true ∈ he := by simpa using h
  obtain ⟨index, hl, hd⟩ := mem_iff_getElem.1 hn
  have hp : 0 < he.length := by omega
  have hh := Nat.mod_lt hash hp
  unfold getBackendForBlock
  rw [find?_isSome]
  refine ⟨index, ?_, by simp [getD_eq_getElem?_getD, hl, hd]⟩
  rw [mem_map]
  -- going round from the hash, every index is met
  refine ⟨(index + (he.length - hash % he.length)) % he.length, mem_range.2 (Nat.mod_lt _ hp), ?_⟩
  rw [Nat.add_mod_mod]
  have hr : hash % he.length + (index + (he.length - hash % he.length)) =
      index + he.length := by omega
  rw [hr, Nat.add_mod_right, Nat.mod_eq_of_lt hl]

namespace Call
variable {service : Service Data Point Value} {query : Query} (law : Lawful service query)
  {call next : Call Data Point Value} {label : Label}

/-- Some backend is healthy when the first one is selected, and neither an access nor an
exchange of the monitor fails without reason. -/
def reliable (call : Call Data Point Value) : Label → Bool
  | .select health => !call.attempted.isEmpty || health.contains true
  | .work _ _ outcome => outcome.accessed
  | .monitor _ _ lucky => lucky
  | _ => true

def Exact (value : Value) : Prop :=
  query.num = 0 ∧ value = service.empty ∨
    ∃ data, law.sound data ∧ (∀ index < service.nWorker query, law.through index data) ∧
      value = service.value data

def CallerSound (call : Call Data Point Value) : Prop :=
  match call.caller with
  | .entering => call.rounds = [] ∧ call.attempted = []
  | .selecting => call.rounds = [] ∧ call.attempted = [] ∨ call.status.failure = true
  | .woken => ∃ round, call.rounds.getLast? = some round ∧ round.counter = 0
  | .reading => ∃ round, call.rounds.getLast? = some round ∧ round.Settled law
  | .returned (.ok value) => Exact law value
  | _ => True

structure Sound (call : Call Data Point Value) : Prop where
  rounds : ∀ round ∈ call.rounds, round.Tracked law
  caller : call.CallerSound law

variable {law}
variable {found changed : Round Data Point}

theorem last_set {p : Nat} {P : Round Data Point → Prop} (hf : call.rounds[p]? = some found)
    (hk : P found → P changed) (h : ∃ round, call.rounds.getLast? = some round ∧ P round) : ∃ round,
    (call.rounds.set p changed).getLast? = some round ∧ P round := by
  obtain ⟨round, hl, hr⟩ := h
  have ht := (List.getElem?_eq_some_iff.1 hf).1
  rw [List.getLast?_eq_getElem?] at hl
  rw [List.getLast?_eq_getElem?, length_set, List.getElem?_set]
  by_cases he : p = call.rounds.length - 1
  · subst he
    rw [hf] at hl
    cases hl
    exact ⟨changed, by simp [ht], hk hr⟩
  · exact ⟨round, by simp [he, hl], hr⟩

theorem Sound.setRound (h : call.Sound law) {p : Nat}
    (hf : call.rounds[p]? = some found) (ht : changed.Tracked law)
    (he : found.Settled law → changed.Settled law) (hct : found.counter = 0 → changed.counter = 0) :
    ({ call with rounds := call.rounds.set p changed } : Call Data Point Value).Sound law := by
  constructor
  · intro round hr
    obtain ho | hn := mem_or_eq_of_mem_set hr
    · exact h.rounds round ho
    · exact hn ▸ ht
  have hc := h.caller
  unfold CallerSound at hc ⊢
  have hs : call.rounds ≠ [] := by
    rintro hni
    rw [hni] at hf
    cases hf
  cases hw : call.caller with
  | entering =>
    rw [hw] at hc
    exact absurd hc.1 hs
  | selecting =>
    rw [hw] at hc
    exact .inr (hc.resolve_left fun hno => hs hno.1)
  | woken =>
    rw [hw] at hc
    exact last_set hf hct hc
  | reading =>
    rw [hw] at hc
    exact last_set hf he hc
  | waiting => trivial
  | returned r =>
    rw [hw] at hc
    cases r with
    | ok => exact hc
    | error => trivial

theorem Sound.step (h : call.Sound law) (hre : call.reliable label = true)
    (hs : call.step service query label = some next) : next.Sound law := by
  have hc := h.caller
  unfold CallerSound at hc
  cases label with
  | enter =>
    unfold Call.step at hs
    cases hw : call.caller with
    | entering =>
      rw [hw] at hs hc
      dsimp only at hs
      split at hs
      · rename_i hu
        cases hs
        exact ⟨h.rounds, .inl ⟨hu, rfl⟩⟩
      split at hs
      · cases hs
        exact ⟨h.rounds, .inl hc⟩
      · cases hs
        exact ⟨h.rounds, trivial⟩
    | _ =>
      rw [hw] at hs
      cases hs
  | select ha =>
    unfold Call.step at hs
    cases hw : call.caller with
    | selecting =>
      rw [hw] at hs hc
      dsimp only at hs
      split at hs
      · cases hs
        refine ⟨?_, trivial⟩
        intro round hr
        obtain ho | hne := mem_append.1 hr
        · exact h.rounds round ho
        · rw [mem_singleton.1 hne]
          exact .start
      rename_i hn
      cases hs
      refine ⟨h.rounds, ?_⟩
      have hfa : call.status.failure = true := by
        apply hc.resolve_left
        rintro ⟨-, hni⟩
        rw [hni] at hn
        have hhe : ha.contains true = true := by
          simpa [reliable, hni] using hre
        have hm : (getBackendForBlock query.hash ha []).isSome = true :=
          getBackendForBlock_isSome hhe
        rw [hn] at hm
        cases hm
      unfold CallerSound finish
      simp [hfa]
    | _ =>
      rw [hw] at hs
      cases hs
  | work _ _ outcome =>
    have haccess : outcome.accessed = true := hre
    unfold Call.step at hs
    dsimp only at hs
    split at hs
    · rename_i found hf
      split at hs
      · rename_i hh
        obtain ⟨changed, hch, rfl⟩ := Option.map_eq_some_iff.1 hs
        exact h.setRound hf ((h.rounds found (mem_of_getElem? hf)).work hh haccess hch)
          (fun he => he.work hh hch)
          (fun ht => counter_work ht hch)
      · cases hs
    · cases hs
  | monitor _ _ lucky =>
    have hlu : lucky = true := hre
    subst hlu
    unfold Call.step at hs
    dsimp only at hs
    split at hs
    · rename_i found hf
      split at hs
      · rename_i hh
        obtain ⟨changed, hch, rfl⟩ := Option.map_eq_some_iff.1 hs
        exact h.setRound hf ((h.rounds found (mem_of_getElem? hf)).monitor hh hch)
          (fun he => he.monitor hch)
          (fun ht => counter_monitor ht hch)
      · cases hs
    · cases hs
  | wake =>
    unfold Call.step at hs
    dsimp only at hs
    split at hs
    · rename_i round _ hr
      split at hs
      · rename_i ht
        cases hs
        exact ⟨h.rounds, round, hr, ht⟩
      · cases hs
    · cases hs
  | load =>
    unfold Call.step at hs
    dsimp only at hs
    split at hs
    · rename_i round hw hr
      cases hs
      rw [hw] at hc
      obtain ⟨l, hl, ht⟩ := hc
      rw [hr] at hl
      cases hl
      have htr := h.rounds round (mem_of_getLast? hr)
      refine ⟨h.rounds, ?_⟩
      obtain hk | hti := htr.status
      · have he := htr.settled (by rw [hk]; rfl) ht
        simp only [hk, finish]
        exact ⟨round, hr, he⟩
      · simp only [hti]
        exact .inr rfl
    · cases hs
  | read =>
    unfold Call.step at hs
    cases hw : call.caller with
    | reading =>
      rw [hw] at hs hc
      cases hs
      obtain ⟨round, hr, he⟩ := hc
      refine ⟨h.rounds, .inr ⟨round.data, he.sound, he.through, ?_⟩⟩
      unfold data
      rw [hr]
      rfl
    | _ =>
      rw [hw] at hs
      cases hs

theorem exact_of_reachable
    (h : Transition.Reachable ((system service query).restrict fun call label _ =>
      call.reliable label = true) call) {value : Value}
    (hr : call.caller = .returned (.ok value)) : Exact law value := by
  have ho : call.Sound law := by
    apply Transition.Reachable.invariant (I := fun call => call.Sound law) _ _ h
    · rintro call rfl
      exact ⟨fun round hn => (not_mem_nil hn).elim, rfl, rfl⟩
    · rintro call label next - ho ⟨hs, he⟩
      exact ho.step he hs
  have hc := ho.caller
  unfold CallerSound at hc
  rw [hr] at hc
  exact hc

end Call
end UnifiedCache.Posix.SpaceManager
