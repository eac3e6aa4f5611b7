import Mathlib.Data.List.Basic

/-! Values written back to the positions they belong to. -/
namespace UnifiedCache.Scatter
open List

theorem of_getElem?_set {values : List α} {index other : Nat} {value found : α}
    (h : (values.set index value)[other]? = some found) :
    index = other ∧ value = found ∨ index ≠ other ∧ values[other]? = some found := by
  rw [List.getElem?_set] at h
  split at h <;> simp_all

def scatter (init : List α) (writes : List (Nat × α)) : List α :=
  writes.foldl (fun written write => written.set write.1 write.2) init

@[simp] theorem scatter_append (i : List α) (writes more : List (Nat × α)) :
    scatter i (writes ++ more) = scatter (scatter i writes) more :=
  foldl_append

@[simp] theorem length_scatter (i : List α) (writes : List (Nat × α)) :
    (scatter i writes).length = i.length := by
  induction writes generalizing i with
  | nil => rfl
  | cons _ _ ih => exact (ih _).trans length_set

variable {writes : List (Nat × α)}

theorem getElem?_scatter_of_notMem (ini : List α) {i : Nat} (h : i ∉ writes.map Prod.fst) :
    (scatter ini writes)[i]? = ini[i]? := by
  induction writes generalizing ini with
  | nil => rfl
  | cons _ _ ih =>
    rw [map_cons, mem_cons, not_or] at h
    exact (ih _ h.2).trans (List.getElem?_set_ne (Ne.symm h.1))

theorem getElem?_scatter_of_mem {ini : List α} {i : Nat} {value : α}
    (d : (writes.map Prod.fst).Nodup) (hm : (i, value) ∈ writes)
    (h : i < ini.length) : (scatter ini writes)[i]? = some value := by
  induction writes generalizing ini with
  | nil => exact absurd hm not_mem_nil
  | cons _ _ ih =>
    obtain ⟨hn, hr⟩ := nodup_cons.1 d
    rcases mem_cons.1 hm with rfl | hm
    · exact (getElem?_scatter_of_notMem _ hn).trans (List.getElem?_set_self h)
    · exact ih hr hm (by rwa [length_set])

end UnifiedCache.Scatter
