import Mathlib.Data.List.Basic

/-! A list cut into pieces of a fixed size, the last one possibly shorter. -/
namespace UnifiedCache.Chunks
open List

/-- The loop `for (begin = 0; begin < size; begin += limit)`, with what is left. -/
def chunksFrom (limit : Nat) : Nat → List α → List (List α)
  | 0, _ => []
  | fuel + 1, rest =>
    if rest.isEmpty then [] else rest.take limit :: chunksFrom limit fuel (rest.drop limit)

def chunks (limit : Nat) (items : List α) : List (List α) :=
  chunksFrom limit items.length items

variable {limit : Nat}

theorem flatten_chunksFrom (hl : 0 < limit) (fuel : Nat) (r : List α) (h : r.length ≤ fuel) :
    (chunksFrom limit fuel r).flatten = r ∧ ∀ c ∈ chunksFrom limit fuel r, c ≠ [] := by
  induction fuel generalizing r with
  | zero =>
    cases length_eq_zero_iff.1 (Nat.le_zero.1 h)
    exact ⟨rfl, by simp [chunksFrom]⟩
  | succ fuel ih =>
    cases r with
    | nil => exact ⟨rfl, by simp [chunksFrom]⟩
    | cons i r =>
      have hs : ((i :: r).drop limit).length ≤ fuel := by
        rw [length_drop]
        omega
      obtain ⟨hf, hc⟩ := ih ((i :: r).drop limit) hs
      simp only [chunksFrom, isEmpty_cons, Bool.false_eq_true, if_false,
        flatten_cons, hf, take_append_drop, true_and]
      intro c hm
      obtain he | hr := mem_cons.1 hm
      · obtain ⟨limit, rfl⟩ := Nat.exists_eq_succ_of_ne_zero (Nat.pos_iff_ne_zero.1 hl)
        simp [he]
      · exact hc c hr

theorem flatten_chunks (hl : 0 < limit) (items : List α) : (chunks limit items).flatten = items :=
  (flatten_chunksFrom hl items.length items (Nat.le_refl _)).1

theorem chunks_ne_nil (hl : 0 < limit) {i chunk : List α} (h : chunk ∈ chunks limit i) :
    chunk ≠ [] :=
  (flatten_chunksFrom hl i.length i (Nat.le_refl _)).2 chunk h

theorem mem_chunks {i c : List α} (h : c ∈ chunks limit i) :
    ∃ n, c = (i.drop (limit * n)).take limit := by
  unfold chunks at h
  generalize i.length = fuel at h
  induction fuel generalizing i with
  | zero => simp [chunksFrom] at h
  | succ _ ih =>
    rw [chunksFrom] at h
    split at h
    · exact absurd h not_mem_nil
    rcases mem_cons.1 h with rfl | h
    · exact ⟨0, by simp⟩
    · obtain ⟨n, rfl⟩ := ih h
      exact ⟨n + 1, by rw [drop_drop, Nat.mul_succ, Nat.add_comm]⟩

@[simp] theorem chunks_one (i : List α) : chunks 1 i = i.map fun ite => [ite] := by
  unfold chunks
  induction i with
  | nil => rfl
  | cons _ _ ih => simp [chunksFrom, ih]

end UnifiedCache.Chunks
