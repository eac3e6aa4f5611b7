import Mathlib.Data.List.Nodup
import Mathlib.Data.List.Perm.Basic

/-! Finite maps with an iteration order, the reading of a hash map in the
components below. The keys are distinct by construction; the order of the
entries is the order in which they were emplaced. -/
namespace UnifiedCache
open List Function

structure Table (κ : Type u) (ν : Type v) where
  entries : List (κ × ν)
  nodup : (entries.map Prod.fst).Nodup

namespace Table
variable {κ : Type u} {ν : Type v}
variable {s t : Table κ ν}

@[ext] theorem ext (h : s.entries = t.entries) : s = t := by
  cases s
  cases t
  cases h
  rfl

def empty : Table κ ν := ⟨[], List.nodup_nil⟩

instance : Inhabited (Table κ ν) := ⟨empty⟩

def keys (t : Table κ ν) : List κ := t.entries.map Prod.fst

def size (t : Table κ ν) : Nat := t.entries.length

def mapValues (t : Table κ ν) (f : ν → ν) : Table κ ν where
  entries := t.entries.map fun p => (p.1, f p.2)
  nodup := by simpa [comp_def] using t.nodup

@[simp] theorem keys_nodup (t : Table κ ν) : t.keys.Nodup := t.nodup

@[simp] theorem entries_empty : (empty : Table κ ν).entries = [] := rfl

@[simp] theorem keys_empty : (empty : Table κ ν).keys = [] := rfl

@[simp] theorem keys_mapValues (t : Table κ ν) (f : ν → ν) : (t.mapValues f).keys = t.keys := by
  simp [keys, mapValues, comp_def]

@[simp] theorem mem_mapValues (t : Table κ ν) (f : ν → ν) (k : κ) (v : ν) :
    (k, v) ∈ (t.mapValues f).entries ↔ ∃ u, (k, u) ∈ t.entries ∧ f u = v := by
  simp [mapValues]

variable {g : κ × ν → β} {f : ν → ν}

theorem map_mapValues (t : Table κ ν) (h : ∀ k v, g (k, f v) = g (k, v)) :
    (t.mapValues f).entries.map g = t.entries.map g := by
  unfold mapValues
  rw [map_map]
  apply map_congr_left
  intro p _
  exact h p.1 p.2

variable {k j : κ} {v : ν}

theorem mem_keys_of_mem (h : (k, v) ∈ t.entries) : k ∈ t.keys :=
  mem_map.2 ⟨_, h, rfl⟩

@[simp] theorem mem_keys_iff : k ∈ t.keys ↔ ∃ v, (k, v) ∈ t.entries := by
  simp [keys]

theorem eq_of_mem {u : ν} (hu : (k, u) ∈ t.entries) (hv : (k, v) ∈ t.entries) : u = v := by
  have h := inj_on_of_nodup_map t.nodup hu hv rfl
  exact (Prod.mk.inj h).2

private theorem ne_of_mem_entries (h : k ∉ t.keys) : ∀ p ∈ t.entries, p.1 ≠ k := by
  intro p hp e
  exact h (e ▸ mem_map_of_mem hp)

variable [DecidableEq κ]

def find? (t : Table κ ν) (k : κ) : Option ν :=
  (t.entries.find? fun p => p.1 = k).map Prod.snd

/-- `emplace` leaves an existing entry alone, as a hash map does. -/
def emplace (t : Table κ ν) (k : κ) (v : ν) : Table κ ν :=
  if h : k ∈ t.entries.map Prod.fst then t
  else ⟨t.entries ++ [(k, v)], by
    rw [List.map_append, List.nodup_append]
    refine ⟨t.nodup, by simp, ?_⟩
    rintro a ha b hb rfl
    simp only [List.map_cons, List.map_nil, List.mem_singleton] at hb
    exact h (hb ▸ ha)⟩

/-- Writing through the iterator found for a key. -/
def modify (t : Table κ ν) (k : κ) (f : ν → ν) : Table κ ν where
  entries := t.entries.map fun p => if p.1 = k then (p.1, f p.2) else p
  nodup := by
    have h : (t.entries.map fun p => if p.1 = k then (p.1, f p.2) else p).map Prod.fst =
        t.entries.map Prod.fst := by
      rw [List.map_map]
      apply List.map_congr_left
      intro p _
      simp only [comp_apply]
      split <;> rfl
    rw [h]
    exact t.nodup

def erase (t : Table κ ν) (k : κ) : Table κ ν where
  entries := t.entries.filter fun p => p.1 ≠ k
  nodup := t.nodup.sublist (List.filter_sublist.map Prod.fst)

@[simp] theorem find?_eq_some : t.find? k = some v ↔ (k, v) ∈ t.entries := by
  unfold find?
  constructor
  · intro h
    obtain ⟨p, hp, rfl⟩ := Option.map_eq_some_iff.1 h
    have hk : p.1 = k := by simpa using List.find?_some hp
    exact hk ▸ mem_of_find?_eq_some hp
  intro h
  cases hf : t.entries.find? fun p => p.1 = k with
  | none => exact absurd (List.find?_eq_none.1 hf _ h) (by simp)
  | some p =>
    have hk : p.1 = k := by simpa using List.find?_some hf
    have hp : (k, p.2) ∈ t.entries := hk ▸ mem_of_find?_eq_some hf
    rw [Option.map_some, eq_of_mem hp h]

@[simp] theorem find?_eq_none : t.find? k = none ↔ k ∉ t.keys := by
  rw [mem_keys_iff, Option.eq_none_iff_forall_ne_some]
  constructor
  · rintro h ⟨v, hv⟩
    exact h v (find?_eq_some.2 hv)
  · intro h v hv
    exact h ⟨v, find?_eq_some.1 hv⟩

@[simp] theorem entries_emplace (v : ν) (h : k ∉ t.keys) :
    (t.emplace k v).entries = t.entries ++ [(k, v)] := by
  unfold emplace
  rw [dif_neg (show k ∉ t.entries.map Prod.fst from h)]

@[simp] theorem keys_emplace (v : ν) (h : k ∉ t.keys) : (t.emplace k v).keys = t.keys ++ [k] := by
  simp [keys, entries_emplace v h]

theorem mem_of_mem_emplace {w : ν} (h : (j, w) ∈ (t.emplace k v).entries) :
    (j, w) ∈ t.entries ∨ w = v := by
  unfold emplace at h
  split at h
  · exact .inl h
  · simp only [mem_append, mem_singleton, Prod.mk.injEq] at h
    exact h.imp_right And.right

@[simp] theorem keys_modify (t : Table κ ν) (k : κ) (f : ν → ν) : (t.modify k f).keys = t.keys := by
  unfold keys modify
  rw [map_map]
  apply map_congr_left
  intro p _
  simp only [comp_apply]
  split <;> rfl

@[simp]
theorem mem_modify : (j, v) ∈ (t.modify k f).entries ↔ (j ≠ k ∧ (j, v) ∈ t.entries) ∨ (j = k ∧ ∃ u,
    (k, u) ∈ t.entries ∧ f u = v) := by
  unfold modify
  simp only [mem_map, Prod.exists]
  constructor
  · rintro ⟨a, b, ha, h⟩
    split at h
    · rename_i hk
      cases h
      exact .inr ⟨hk, b, hk ▸ ha, rfl⟩
    · rename_i hk
      cases h
      exact .inl ⟨hk, ha⟩
  · rintro (⟨hn, hv⟩ | ⟨rfl, u, hu, rfl⟩)
    · exact ⟨j, v, hv, by simp [hn]⟩
    · exact ⟨j, u, hu, by simp⟩

@[simp] theorem mem_erase : (j, v) ∈ (t.erase k).entries ↔ j ≠ k ∧ (j, v) ∈ t.entries := by
  simp [erase, and_comm]

@[simp] theorem find?_emplace (v : ν) (h : k ∉ t.keys) : (t.emplace k v).find? k = some v := by
  rw [find?_eq_some, entries_emplace v h]
  simp

@[simp] theorem find?_modify (t : Table κ ν) (k : κ) (f : ν → ν) :
    (t.modify k f).find? k = (t.find? k).map f := by
  cases hk : t.find? k with
  | none =>
    rw [find?_eq_none] at hk
    rw [Option.map_none, find?_eq_none, keys_modify]
    exact hk
  | some v =>
    rw [find?_eq_some] at hk
    rw [Option.map_some, find?_eq_some, mem_modify]
    exact .inr ⟨rfl, v, hk, rfl⟩

@[simp] theorem find?_emplace_ne (v : ν) (h : k ∉ t.keys) (hn : j ≠ k) :
    (t.emplace k v).find? j = t.find? j := by
  refine Option.ext fun w => ?_
  rw [find?_eq_some, find?_eq_some, entries_emplace v h, mem_append, mem_singleton, Prod.mk.injEq]
  exact ⟨fun hw => hw.resolve_right fun he => hn he.1, .inl⟩

@[simp] theorem find?_modify_ne (t : Table κ ν) (f : ν → ν) (hn : j ≠ k) :
    (t.modify k f).find? j = t.find? j := by
  refine Option.ext fun w => ?_
  rw [find?_eq_some, find?_eq_some, mem_modify]
  exact ⟨fun hw => (hw.resolve_right fun he => hn he.1).2, fun hw => .inl ⟨hn, hw⟩⟩

@[simp] theorem find?_erase (t : Table κ ν) (k : κ) : (t.erase k).find? k = none := by
  rw [find?_eq_none, mem_keys_iff]
  rintro ⟨v, hv⟩
  exact (mem_erase.1 hv).1 rfl

@[simp] theorem find?_erase_ne (t : Table κ ν) (hn : j ≠ k) : (t.erase k).find? j = t.find? j := by
  refine Option.ext fun w => ?_
  rw [find?_eq_some, find?_eq_some, mem_erase]
  exact ⟨And.right, fun hw => ⟨hn, hw⟩⟩

theorem find?_emplace_congr (h : ∀ j, s.find? j = t.find? j) (hk : k ∉ t.keys) (j : κ) :
    (s.emplace k v).find? j = (t.emplace k v).find? j := by
  have hs : k ∉ s.keys := by
    rw [← find?_eq_none, h, find?_eq_none]
    exact hk
  by_cases hj : j = k
  · subst hj
    rw [find?_emplace v hs, find?_emplace v hk]
  · rw [find?_emplace_ne v hs hj, find?_emplace_ne v hk hj, h]

theorem find?_erase_congr (h : ∀ j, s.find? j = t.find? j) (j : κ) :
    (s.erase k).find? j = (t.erase k).find? j := by
  by_cases hj : j = k
  · subst hj
    rw [find?_erase, find?_erase]
  · rw [find?_erase_ne s hj, find?_erase_ne t hj, h]

@[simp] theorem entries_erase (t : Table κ ν) (k : κ) :
    (t.erase k).entries = t.entries.filter fun p => p.1 ≠ k := rfl

@[simp] theorem entries_modify (t : Table κ ν) (k : κ) (f : ν → ν) :
    (t.modify k f).entries = t.entries.map fun p => if p.1 = k then (p.1, f p.2) else p := rfl

@[simp] theorem erase_modify (t : Table κ ν) (k : κ) (f : ν → ν) :
    (t.modify k f).erase k = t.erase k := by
  apply ext
  rw [entries_erase, entries_erase, entries_modify]
  induction t.entries with
  | nil => rfl
  | cons p _ ih =>
    by_cases hk : p.1 = k
    · simpa [hk] using ih
    · simpa [hk] using ih

@[simp] theorem erase_emplace (v : ν) (h : k ∉ t.keys) : (t.emplace k v).erase k = t := by
  apply ext
  rw [entries_erase, entries_emplace v h, filter_append]
  have ho : t.entries.filter (fun p => p.1 ≠ k) = t.entries := by
    refine filter_eq_self.2 ?_
    intro p hp
    exact decide_eq_true (ne_of_mem_entries h p hp)
  have hn : [(k, v)].filter (fun p => p.1 ≠ k) = [] := by
    simp
  rw [ho, hn, append_nil]

theorem modify_emplace (v : ν) (f : ν → ν) (h : k ∉ t.keys) :
    (t.emplace k v).modify k f = t.emplace k (f v) := by
  apply ext
  rw [entries_emplace _ h, entries_modify, entries_emplace v h, map_append]
  congr 1
  · refine (map_congr_left ?_).trans (map_id _)
    intro p hp
    exact if_neg (ne_of_mem_entries h p hp)
  · simp

theorem map_modify (t : Table κ ν) (h : ∀ v, g (k, f v) = g (k, v)) :
    (t.modify k f).entries.map g = t.entries.map g := by
  rw [entries_modify, map_map]
  apply map_congr_left
  rintro ⟨j, v⟩ _
  simp only [comp_apply]
  split
  · rename_i hj
    cases hj
    exact h v
  · rfl

theorem perm_erase (h : (k, v) ∈ t.entries) : t.entries.Perm ((k, v) :: (t.erase k).entries) := by
  have hd : t.entries.Nodup := List.Nodup.of_map _ t.nodup
  have hn : ((k, v) :: (t.erase k).entries).Nodup := by
    refine nodup_cons.2 ⟨by simp, ?_⟩
    exact hd.filter _
  refine (perm_ext_iff_of_nodup hd hn).2 ?_
  rintro ⟨j, u⟩
  rw [mem_cons, mem_erase, Prod.mk.injEq]
  constructor
  · intro hu
    by_cases hj : j = k
    · subst hj
      exact .inl ⟨rfl, eq_of_mem hu h⟩
    · exact .inr ⟨hj, hu⟩
  · rintro (⟨rfl, rfl⟩ | ⟨_, hu⟩)
    · exact h
    · exact hu

theorem keys_perm_erase (h : (k, v) ∈ t.entries) : t.keys.Perm (k :: (t.erase k).keys) :=
  (perm_erase h).map Prod.fst

end Table
end UnifiedCache
