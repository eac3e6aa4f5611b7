import Mathlib.Data.List.Induction
import UnifiedCache.Lib.Table

/-! Items collected under their keys, in lists that a map makes on demand. -/
namespace UnifiedCache.Grouping
open List Table
variable [DecidableEq κ]

/-- `groups[key].emplace_back(item)`. -/
def add (groups : Table κ (List α)) (key : κ) (item : α) : Table κ (List α) :=
  (groups.emplace key []).modify key (· ++ [item])

def collect (pairs : List (κ × α)) : Table κ (List α) :=
  pairs.foldl (fun groups pair => add groups pair.1 pair.2) .empty

def pairsOf (groups : Table κ (List α)) : List (κ × α) :=
  groups.entries.flatMap fun group => group.2.map (group.1, ·)

variable {groups : Table κ (List α)}

omit [DecidableEq κ] in
@[simp] theorem mem_pairsOf {key : κ} {item : α} :
    (key, item) ∈ pairsOf groups ↔ ∃ items, (key, items) ∈ groups.entries ∧ item ∈ items := by
  simp only [pairsOf, mem_flatMap, mem_map, Prod.mk.injEq]
  constructor
  · rintro ⟨⟨_, items⟩, hg, _, ht, rfl, rfl⟩
    exact ⟨items, hg, ht⟩
  · rintro ⟨items, hg, ht⟩
    exact ⟨(key, items), hg, item, ht, rfl, rfl⟩

omit [DecidableEq κ] in
@[simp] theorem map_snd_pairsOf (groups : Table κ (List α)) :
    (pairsOf groups).map Prod.snd = groups.entries.flatMap Prod.snd := by
  simp [pairsOf, map_flatMap, Function.comp_def]

theorem pairsOf_modify {key : κ} {items : List α} (i : α) (h : (key, items) ∈ groups.entries) :
    (pairsOf (groups.modify key (· ++ [i]))).Perm (pairsOf groups ++ [(key, i)]) := by
  have hn : (key, items ++ [i]) ∈ (groups.modify key (· ++ [i])).entries :=
    mem_modify.2 (.inr ⟨rfl, items, h, rfl⟩)
  have ha := (perm_erase hn).flatMap_right fun g => g.2.map (g.1, ·)
  have hb := (perm_erase h).flatMap_right fun g => g.2.map (g.1, ·)
  rw [erase_modify, flatMap_cons] at ha
  rw [flatMap_cons] at hb
  refine ha.trans (.trans ?_ (hb.append_right [(key, i)]).symm)
  simp only [map_append, map_cons, map_nil, append_assoc]
  exact perm_append_comm.append_left _

theorem pairsOf_add (groups : Table κ (List α)) (key : κ) (ite : α) :
    (pairsOf (add groups key ite)).Perm (pairsOf groups ++ [(key, ite)]) := by
  unfold add
  by_cases hk : key ∈ groups.keys
  · obtain ⟨i, hs⟩ := mem_keys_iff.1 hk
    have ha : groups.emplace key [] = groups := dif_pos hk
    rw [ha]
    exact pairsOf_modify ite hs
  · rw [modify_emplace [] _ hk]
    simp [pairsOf, entries_emplace _ hk]

theorem pairsOf_collect (pairs : List (κ × α)) : (pairsOf (collect pairs)).Perm pairs := by
  have hf : ∀ groups : Table κ (List α),
      (pairsOf (pairs.foldl (fun groups p => add groups p.1 p.2) groups)).Perm
        (pairsOf groups ++ pairs) := by
    induction pairs with
    | nil => simp
    | cons p pairs ih =>
      intro groups
      rw [foldl_cons]
      refine (ih (add groups p.1 p.2)).trans ?_
      refine ((pairsOf_add groups p.1 p.2).append_right pairs).trans ?_
      simp
  exact hf .empty

theorem sublist_of_mem_collect {p : List (κ × α)} {key : κ} {i : List α}
    (h : (key, i) ∈ (collect p).entries) : i <+ p.map Prod.snd := by
  induction p using List.reverseRecOn generalizing key i with
  | nil => simp [collect] at h
  | append_singleton _ _ ih =>
    rw [map_append, map_singleton]
    simp only [collect, foldl_append, foldl_cons, foldl_nil, add, mem_modify] at h
    obtain ⟨hn, hm⟩ | ⟨rfl, before, hm, rfl⟩ := h
    · rcases mem_of_mem_emplace hm with hm | rfl
      · exact (ih hm).trans (sublist_append_left _ _)
      · exact nil_sublist _
    · rcases mem_of_mem_emplace hm with hm | rfl
      · exact (ih hm).append (.refl _)
      · exact sublist_append_right _ _

end UnifiedCache.Grouping
