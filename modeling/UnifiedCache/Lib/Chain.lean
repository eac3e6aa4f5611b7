import Mathlib.Data.List.Nodup

/-! Singly linked lists threaded through an array of successors. `nil` is the
value that ends a chain; the list is what a walk from the head meets. -/
namespace UnifiedCache.Chain
variable {α : Type u} {nil : α} {next : α → α} {head : α} {cells : List α}

def Links (nil : α) (next : α → α) : α → List α → Prop
  | head, [] => head = nil
  | head, cell :: rest => head = cell ∧ cell ≠ nil ∧ Links nil next (next cell) rest

@[simp] theorem links_nil : Links nil next head [] ↔ head = nil := Iff.rfl

@[simp] theorem links_cons {c : α} {rest : List α} :
    Links nil next head (c :: rest) ↔ head = c ∧ c ≠ nil ∧ Links nil next (next c) rest := Iff.rfl

theorem Links.unique {other : List α} (h : Links nil next head cells)
    (ho : Links nil next head other) : cells = other := by
  induction cells generalizing head other with
  | nil =>
    cases other with
    | nil => rfl
    | cons => exact absurd (ho.1.symm.trans h) ho.2.1
  | cons _ _ ih =>
    cases other with
    | nil => exact absurd (h.1.symm.trans ho) h.2.1
    | cons =>
      obtain ⟨rfl, -, ha⟩ := h
      obtain ⟨rfl, -, ht⟩ := ho
      rw [ih ha ht]

theorem Links.congr {n : α → α} (h : Links nil next head cells)
    (a : ∀ c ∈ cells, n c = next c) : Links nil n head cells := by
  induction cells generalizing head with
  | nil => exact h
  | cons c _ ih =>
    obtain ⟨hh, hn, ht⟩ := h
    refine ⟨hh, hn, ?_⟩
    rw [a c List.mem_cons_self]
    exact ih ht fun o ho => a o (List.mem_cons_of_mem _ ho)

theorem Links.push [DecidableEq α] {c : α} (h : Links nil next head cells) (f : c ∉ cells)
    (hn : c ≠ nil) : Links nil (Function.update next c head) c (c :: cells) := by
  refine ⟨rfl, hn, ?_⟩
  rw [Function.update_self]
  apply h.congr
  intro o ho
  apply Function.update_of_ne
  rintro rfl
  exact f ho

end UnifiedCache.Chain
