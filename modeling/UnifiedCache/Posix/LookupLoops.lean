import Mathlib.Data.Nat.ModEq
import UnifiedCache.Lib.Replay
import UnifiedCache.Posix.ExactLookup

/-! The loops of the two lookups. Every task takes the blocks of one stride; when all tasks
are through, no block was left out. -/
namespace UnifiedCache.Posix.SpaceManager
open Transition Call
open Store

theorem stride_eq {n i j : Nat} (hl : i ≤ j) (ht : j < i + n) (hm : j % n = i % n) : j = i := by
  have hd : n ∣ j - i := (Nat.modEq_iff_dvd' hl).1 hm.symm
  have hz := Nat.eq_zero_of_dvd_of_lt hd (by omega)
  omega

def Passed (query : Query) (task index : Nat) : Prop :=
  ∀ other < index, other % query.poolSize = task → query.present other = true

variable {query : Query} {task index firstFail after : Nat}

theorem Passed.next (h : Passed query task index) (hm : index % query.poolSize = task)
    (hh : query.present index = true) : Passed query task (index + query.poolSize) := by
  intro o hl ho
  by_cases hb : o < index
  · exact h o hb ho
  · rw [stride_eq (Nat.le_of_not_lt hb) hl (ho.trans hm.symm)]
    exact hh

def PrefixStands (query : Query) (task : Nat) : PrefixPoint → Nat → Prop
  | .top index, _ => index % query.poolSize = task ∧ Passed query task index
  | .bounding index, _ => index % query.poolSize = task ∧ Passed query task index ∧ index < query.num
  | .probing index, _ => index % query.poolSize = task ∧ Passed query task index ∧ index < query.num
  | .lowering index, _ => Passed query task index ∧ index < query.num ∧
    query.present index = false
  | .swapping index cur, firstFail => Passed query task index ∧ index < query.num ∧
    query.present index = false ∧ firstFail ≤ cur

variable {running : Bool} {outcome : Outcome} {point : PrefixPoint}

theorem prefixStep_le {n : Option PrefixPoint}
    (hs : prefixStep query running outcome point firstFail = (n, after)) : after ≤ firstFail := by
  unfold prefixStep at hs
  split at hs
  case h_5 =>
    split at hs
    · split at hs
      · cases hs
        omega
      · cases hs
        exact Nat.le_refl _
    · cases hs
      exact Nat.le_refl _
  all_goals
    cases hs
    exact Nat.le_refl _

theorem lookupBlock_accessed (haccess : outcome.accessed = true) :
    query.lookupBlock index outcome.accessed = query.present index := by
  rw [haccess]
  rfl

theorem prefix_goesOn {n : PrefixPoint} (haccess : outcome.accessed = true)
    (ht : PrefixStands query task point firstFail)
    (hs : prefixStep query running outcome point firstFail = (some n, after)) :
    after = firstFail ∧ PrefixStands query task n after := by
  cases point with
  | top =>
    obtain ⟨hn, rfl⟩ := Prod.mk.inj hs
    split at hn
    · rename_i hl
      cases hn
      exact ⟨rfl, ht.1, ht.2, hl.1⟩
    · cases hn
  | bounding =>
    obtain ⟨hn, rfl⟩ := Prod.mk.inj hs
    split at hn
    · cases hn
    · cases hn
      exact ⟨rfl, ht⟩
  | probing =>
    obtain ⟨hn, rfl⟩ := Prod.mk.inj hs
    obtain ⟨hm, hp, hl⟩ := ht
    rw [lookupBlock_accessed haccess] at hn
    split at hn
    · rename_i hh
      cases hn
      exact ⟨rfl, (Nat.add_mod_right ..).trans hm, hp.next hm hh⟩
    · rename_i hms
      cases hn
      exact ⟨rfl, hp, hl, by simpa using hms⟩
  | lowering =>
    cases hs
    exact ⟨rfl, ht.1, ht.2.1, ht.2.2, Nat.le_refl _⟩
  | swapping =>
    unfold prefixStep at hs
    dsimp only at hs
    split at hs
    · split at hs
      · cases hs
      · cases hs
        exact ⟨rfl, ht.1, ht.2.1, ht.2.2.1, Nat.le_refl _⟩
    · cases hs

theorem prefix_leaves (he : firstFail ≤ query.num) (ht : PrefixStands query task point firstFail)
    (hs : prefixStep query running outcome point firstFail = (none, after)) : (after = firstFail ∨
    after < query.num ∧ query.present after = false) ∧ (running = true →
    Passed query task after) := by
  cases point with
  | top index =>
    obtain ⟨hn, rfl⟩ := Prod.mk.inj hs
    split at hn
    · cases hn
    rename_i ho
    refine ⟨.inl rfl, ?_⟩
    intro hr o _ hm
    apply ht.2 o _ hm
    have hen : query.num ≤ index := by
      by_contra hin
      exact ho ⟨by omega, hr⟩
    omega
  | bounding =>
    obtain ⟨hn, rfl⟩ := Prod.mk.inj hs
    split at hn
    · rename_i hb
      refine ⟨.inl rfl, ?_⟩
      intro _ o hl hm
      exact ht.2.1 o (hl.trans hb) hm
    · cases hn
  | probing =>
    obtain ⟨hn, rfl⟩ := Prod.mk.inj hs
    split at hn
    · cases hn
    · cases hn
  | lowering => cases hs
  | swapping =>
    obtain ⟨hp, hu, hms, hc⟩ := ht
    unfold prefixStep at hs
    dsimp only at hs
    split at hs
    · split at hs
      · cases hs
        exact ⟨.inr ⟨hu, hms⟩, fun _ => hp⟩
      · cases hs
    cases hs
    refine ⟨.inl rfl, ?_⟩
    intro _ o _ hm
    exact hp o (by omega) hm

theorem Passed.mono {smaller : Nat} (h : Passed query task index) (hl : smaller ≤ index) :
    Passed query task smaller :=
  fun o ht hm => h o (ht.trans_le hl) hm

def prefixLaw (query : Query) : Lawful lookupOnPrefix query where
  sound firstFail := firstFail ≤ query.num ∧
    (firstFail < query.num → query.present firstFail = false)
  stands := PrefixStands query
  through := Passed query
  fresh := ⟨Nat.le_refl _, fun hlt => absurd hlt (Nat.lt_irrefl _)⟩
  enter := by
    intro task data hlt _
    change task < query.poolSize at hlt
    have hmod : task % query.poolSize = task := Nat.mod_eq_of_lt hlt
    refine ⟨hmod, ?_⟩
    intro other hot hsa
    rw [Nat.mod_eq_of_lt (hot.trans hlt)] at hsa
    omega
  goesOn := by
    intro task point data running outcome next after haccess hso hat hst
    obtain ⟨rfl, hnext⟩ := prefix_goesOn haccess hat hst
    exact ⟨hso, hnext⟩
  leaves := by
    intro task point data running outcome after hso hat hst
    obtain ⟨hbound, hth⟩ := prefix_leaves hso.1 hat hst
    refine ⟨?_, hth⟩
    cases hbound with
    | inl hsa => exact hsa ▸ hso
    | inr hnew => exact ⟨hnew.1.le, fun _ => hnew.2⟩
  others := by
    intro task point data running outcome next after other hso hat _ _ _ hst
    have hle := prefixStep_le hst
    refine ⟨?_, fun hth => hth.mono hle⟩
    intro place hpl
    cases place with
    | swapping index cur =>
      exact ⟨hpl.1, hpl.2.1, hpl.2.2.1, hle.trans hpl.2.2.2⟩
    | _ => exact hpl

def Filled (query : Query) (task index : Nat) (results : List UInt8) : Prop :=
  ∀ other < index, other < query.num → other % min query.num query.poolSize = task →
    results[other]? = some (flag (query.present other))

variable {results : List UInt8}

theorem Filled.set {p : Nat} {value : UInt8} (h : Filled query task index results)
    (hn : p % min query.num query.poolSize ≠ task) :
    Filled query task index (results.set p value) := by
  intro other hl hu hm
  have ho : p ≠ other := by
    rintro rfl
    exact hn hm
  rw [List.getElem?_set_ne ho]
  exact h other hl hu hm

theorem Filled.next (h : Filled query task index results)
    (hm : index % min query.num query.poolSize = task) (hl : index < results.length) :
    Filled query task (index + min query.num query.poolSize)
    (results.set index (flag (query.present index))) := by
  intro o ho hn hs
  by_cases he : index = o
  · subst he
    rw [List.getElem?_set_self hl]
  rw [List.getElem?_set_ne he]
  apply h o _ hn hs
  by_contra ha
  exact he (stride_eq (by omega) ho (hs.trans hm.symm)).symm

def LookupStands (query : Query) (task : Nat) : LookupPoint → List UInt8 → Prop
  | .top index, results =>
    index % min query.num query.poolSize = task ∧ Filled query task index results
  | .probing index, results =>
    index % min query.num query.poolSize = task ∧ Filled query task index results ∧ index < query.num

def lookupLaw (query : Query) : Lawful lookup query where
  sound results := results.length = query.num
  stands := LookupStands query
  through task := Filled query task query.num
  fresh := List.length_replicate
  enter := by
    intro task data hlt _
    change task < min query.num query.poolSize at hlt
    refine ⟨Nat.mod_eq_of_lt hlt, ?_⟩
    intro other hot _ hsa
    rw [Nat.mod_eq_of_lt (hot.trans hlt)] at hsa
    omega
  goesOn := by
    intro task point data running outcome next after haccess hso hat hst
    cases point with
    | top index =>
      dsimp only [lookup, lookupStep] at hst
      split at hst
      · rename_i hlt
        cases hst
        exact ⟨hso, hat.1, hat.2, hlt.1⟩
      · cases hst
    | probing index =>
      dsimp only [lookup, lookupStep] at hst
      rw [lookupBlock_accessed haccess] at hst
      cases hst
      obtain ⟨hmod, hfi, hlt⟩ := hat
      rw [← hso] at hlt
      exact ⟨List.length_set.trans hso, (Nat.add_mod_right ..).trans hmod, hfi.next hmod hlt⟩
  leaves := by
    intro task point data running outcome after hso hat hst
    cases point with
    | top index =>
      dsimp only [lookup, lookupStep] at hst
      split at hst
      · cases hst
      rename_i hout
      cases hst
      refine ⟨hso, ?_⟩
      intro hru other hlt hnum hmod
      apply hat.2 other _ hnum hmod
      by_contra hin
      exact hout ⟨by omega, hru⟩
    | probing index => cases hst
  others := by
    intro task point data running outcome next after other hso hat _ _ hne hst
    cases point with
    | top index =>
      dsimp only [lookup, lookupStep] at hst
      have hsa : after = data := by
        split at hst
        all_goals cases hst
        all_goals rfl
      rw [hsa]
      exact ⟨fun _ hpl => hpl, fun hth => hth⟩
    | probing index =>
      cases hst
      have hot : index % min query.num query.poolSize ≠ other := by
        rw [hat.1]
        exact Ne.symm hne
      refine ⟨?_, fun hth => hth.set hot⟩
      intro place hpl
      cases place with
      | top place => exact ⟨hpl.1, hpl.2.set hot⟩
      | probing place => exact ⟨hpl.1, hpl.2.1.set hot, hpl.2.2⟩

/-- A lookup is exact when it returns a value, in every run in which some backend is healthy when
the first one is selected and no access and no exchange of the monitor fails without reason. -/
theorem lookups_exact (query : Query) : (∀ (call : Call Nat PrefixPoint Int) (last : Int),
      Transition.Reachable ((Call.system lookupOnPrefix query).restrict fun call label _ =>
        call.reliable label = true) call →
      call.caller = .returned (.ok last) →
      -1 ≤ last ∧ (∀ index : Nat, (index : Int) ≤ last → query.present index = true) ∧
        ∀ index : Nat, (index : Int) = last + 1 → index < query.num →
          query.present index = false) ∧
    ∀ (call : Call (List UInt8) LookupPoint (List UInt8)) (results : List UInt8),
      Transition.Reachable ((Call.system lookup query).restrict fun call label _ =>
        call.reliable label = true) call →
      call.caller = .returned (.ok results) →
      results.length = query.num ∧ ∀ index < query.num,
        results[index]? = some (if query.present index then 1 else 0) := by
  constructor
  · intro call last hr he
    have hx : Call.Exact (prefixLaw query) last := exact_of_reachable hr he
    obtain hm | hre := hx
    · obtain ⟨_, rfl⟩ := hm
      refine ⟨Int.le_refl _, ?_, ?_⟩
      · intro index hle
        change (index : Int) ≤ -1 at hle
        omega
      · intro index _ _
        omega
    obtain ⟨firstFail, ⟨_, hms⟩, hh, rfl⟩ := hre
    change -1 ≤ (firstFail : Int) - 1 ∧ (∀ index : Nat, (index : Int) ≤ (firstFail : Int) - 1 → _) ∧
      ∀ index : Nat, (index : Int) = (firstFail : Int) - 1 + 1 → _
    refine ⟨by omega, ?_, ?_⟩
    · intro index _
      exact hh (index % query.poolSize) (Nat.mod_lt _ query.positive) index (by omega) rfl
    intro index _ ht
    have hs : index = firstFail := by omega
    rw [hs]
    exact hms (hs ▸ ht)
  · intro call results hr he
    have hx : Call.Exact (lookupLaw query) results := exact_of_reachable hr he
    obtain hm | hre := hx
    · obtain ⟨hn, rfl⟩ := hm
      exact ⟨hn.symm, fun index ht => by omega⟩
    obtain ⟨data, hl, hh, rfl⟩ := hre
    refine ⟨hl, ?_⟩
    intro index ht
    have hp : 0 < min query.num query.poolSize := by
      have := query.positive
      omega
    exact hh (index % min query.num query.poolSize) (Nat.mod_lt _ hp) index ht ht rfl

def Call.value? {Data Point Value : Type} (call : Call Data Point Value) : Option Value :=
  match call.caller with
  | .returned (.ok value) => some value
  | _ => none

variable {Data Point Value : Type}
variable {value : Value}

theorem Call.caller_of_value? {call : Call Data Point Value} (h : call.value? = some value) :
    call.caller = .returned (.ok value) := by
  unfold value? at h
  split at h
  · rename_i hc
    cases h
    exact hc
  · cases h

variable {labels : List Label}
variable {service : Service Data Point Value}

theorem Call.exists_of_replay {check : Call Data Point Value → Label → Bool}
    (h : (replay (step service query) check {} labels).bind value? = some value) : ∃ c,
    Transition.Reachable ((system service query).restrict fun c l _ => check c l = true) c ∧
    c.caller = .returned (.ok value) := by
  obtain ⟨c, hc, hv⟩ := Option.bind_eq_some_iff.1 h
  refine ⟨c, ?_, caller_of_value? hv⟩
  exact reachable_of_replay (fun _ _ _ hs => hs) (fun _ _ _ hh => hh) (.start rfl) hc

def blockNamed (name : UInt8) : BlockId := Vector.replicate 16 name

def pair (stored : BlockId → Bool) : Query where
  blocks := [blockNamed 0, blockNamed 1]
  stored := stored
  poolSize := 2
  positive := Nat.two_pos

def works (round task count : Nat) : List Label := List.replicate count (.work round task {})

def monitors (task : Nat) (lucky : Bool) : List Label := List.replicate 3 (.monitor 0 task lucky)

def begun : List Label := [.enter true, .select [true, true]]

def ended : List Label := [.wake, .load, .read]

def retryingRun : List Label :=
  begun ++ works 0 0 1 ++ monitors 0 true ++ works 0 1 3 ++
    .wake :: .load :: .select [true, true] :: works 1 0 6 ++ works 0 0 1 ++ works 1 1 7 ++ ended

theorem lookups_exact_retrying : ∃ call,
    Transition.Reachable ((Call.system lookupOnPrefix (pair (· = blockNamed 0))).restrict
      fun call label _ => call.reliable label = true) call ∧
    call.caller = .returned (.ok 0) ∧ (pair (· = blockNamed 0)).present 0 = true ∧
    (pair (· = blockNamed 0)).present 1 = false := by
  have hu : (replay (step lookupOnPrefix (pair (· = blockNamed 0))) reliable {}
      retryingRun).bind value? = some 0 := by decide +kernel
  obtain ⟨call, hr, he⟩ := exists_of_replay hu
  obtain ⟨-, hp, ha⟩ :=
    (lookups_exact (pair (· = blockNamed 0))).1 call 0 hr he
  exact ⟨call, hr, he, hp 0 (by decide), ha 1 (by decide) (by decide)⟩

def unluckyRun : List Label :=
  begun ++ works 0 0 1 ++ works 0 1 1 ++ monitors 0 false ++ monitors 1 false ++ ended

def unhealthyRun : List Label := [.enter true, .select [false, false], .read]

def deniedRun : List Label :=
  begun ++ works 0 0 2 ++ .work 0 0 { accessed := false } :: works 0 0 2 ++ works 0 1 5 ++ ended

theorem Call.exists_of_free_replay
    (h : (replay (step service query) (fun _ _ => true) {} labels).bind value? = some value) :
    ∃ call, Transition.Reachable (system service query) call ∧
      call.caller = .returned (.ok value) := by
  obtain ⟨call, hr, he⟩ := exists_of_replay h
  exact ⟨call, hr.of_restrict, he⟩

/-- Values that are not exact: an absent block is found and stored blocks are missed when an
exchange fails without reason, and stored blocks are missed when no backend is healthy or the
access to one of them is denied. -/
theorem lookups_inexact :
    ((∃ call, Transition.Reachable (Call.system lookupOnPrefix (pair fun _ => false)) call ∧
      call.caller = .returned (.ok 1)) ∧ (pair fun _ => false).present 1 = false) ∧
    (∃ call, Transition.Reachable (Call.system lookup (pair fun _ => true)) call ∧
      call.caller = .returned (.ok [0, 0])) ∧
    (∃ call, Transition.Reachable (Call.system lookupOnPrefix (pair fun _ => true)) call ∧
      call.caller = .returned (.ok (-1))) ∧
    (∃ call, Transition.Reachable (Call.system lookup (pair fun _ => true)) call ∧
      call.caller = .returned (.ok [0, 1])) ∧ (pair fun _ => true).present 0 = true := by
  have hf : (replay (step lookupOnPrefix (pair fun _ => false))
      (fun _ _ => true) {} unluckyRun).bind value? = some 1 := by decide +kernel
  have hm : (replay (step lookup (pair fun _ => true))
      (fun _ _ => true) {} unluckyRun).bind value? = some [0, 0] := by decide +kernel
  have hu : (replay (step lookupOnPrefix (pair fun _ => true))
      (fun _ _ => true) {} unhealthyRun).bind value? = some (-1) := by decide +kernel
  have hd : (replay (step lookup (pair fun _ => true))
      (fun _ _ => true) {} deniedRun).bind value? = some [0, 1] := by decide +kernel
  exact ⟨⟨exists_of_free_replay hf, by decide⟩, exists_of_free_replay hm,
    exists_of_free_replay hu, exists_of_free_replay hd, by decide⟩

end UnifiedCache.Posix.SpaceManager
