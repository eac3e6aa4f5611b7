import Mathlib.Data.List.Basic

/-! Facts about histories, newest entry first: what holds of each entry given the
ones before it, and what must have happened since a marked entry. -/
namespace UnifiedCache.Trace
open List

/-- Every entry is justified by the entries older than it. -/
def Always (P : α → List α → Prop) (history : List α) : Prop :=
  ∀ later entry earlier, history = later ++ entry :: earlier → P entry earlier

theorem always_nil (P : α → List α → Prop) : Always P [] := by
  intro l entry e h
  simp at h

variable {P : α → List α → Prop} {history new : List α} {entry : α}

theorem Always.cons (h : Always P history) (he : P entry history) :
    Always P (entry :: history) := by
  intro l o e hs
  cases l with
  | nil =>
    cases hs
    exact he
  | cons _ l =>
    cases hs
    exact h l o e rfl

theorem Always.append (h : Always P history) (hn : ∀ entry ∈ new, ∀ e, P entry e) :
    Always P (new ++ history) := by
  induction new with
  | nil => exact h
  | cons entry _ ih =>
    refine (ih fun o hm => hn o (mem_cons_of_mem _ hm)).cons ?_
    exact hn entry mem_cons_self _

/-- Since each marked entry an event has happened. -/
def Since (mark event : α → Prop) (history : List α) : Prop :=
  ∀ recent entry earlier, history = recent ++ entry :: earlier → mark entry →
    ∃ happened ∈ recent, event happened

variable {mark event : α → Prop}

theorem Since.cons (h : Since mark event history) (he : ¬mark entry) :
    Since mark event (entry :: history) := by
  intro r o e hs ha
  cases r with
  | nil =>
    cases hs
    exact absurd ha he
  | cons _ r =>
    cases hs
    obtain ⟨hp, hm, hv⟩ := h r o e rfl ha
    exact ⟨hp, mem_cons_of_mem _ hm, hv⟩

theorem Since.append (h : Since mark event history) (hn : ∀ entry ∈ new, ¬mark entry) :
    Since mark event (new ++ history) := by
  induction new with
  | nil => exact h
  | cons entry _ ih =>
    refine (ih fun o hm => hn o (mem_cons_of_mem _ hm)).cons ?_
    exact hn entry mem_cons_self

theorem Since.of_event (history : List α) (he : ¬mark entry) (hv : event entry) :
    Since mark event (entry :: history) := by
  intro r o e hs hm
  cases r with
  | nil =>
    cases hs
    exact absurd hm he
  | cons =>
    cases hs
    exact ⟨_, mem_cons_self, hv⟩

theorem Since.of_unmarked (h : ∀ entry ∈ history, ¬mark entry) : Since mark event history := by
  intro r entry e hs hm
  refine absurd hm (h entry ?_)
  rw [hs]
  simp

theorem Since.of_cons (h : Since mark event (entry :: history)) (hn : ¬event entry) :
    Since mark event history := by
  intro r o e hs ha
  obtain ⟨hp, hm, hv⟩ := h (entry :: r) o e (by simp [hs]) ha
  obtain he | hr := mem_cons.1 hm
  · exact absurd (he ▸ hv) hn
  · exact ⟨hp, hr, hv⟩

theorem exists_mark_of_not_since (h : ¬Since mark event history) :
    ∃ entry ∈ history, mark entry := by
  by_contra hn
  exact h (.of_unmarked fun entry hm ha => hn ⟨entry, hm, ha⟩)

theorem not_since_cons (history : List α) (h : mark entry) :
    ¬Since mark event (entry :: history) := by
  intro hs
  obtain ⟨_, hm, -⟩ := hs [] entry history rfl h
  simp at hm

theorem Always.suffix {w : List α} (h : Always P w) (hs : history <:+ w) : Always P history := by
  obtain ⟨l, rfl⟩ := hs
  intro r entry e hp
  exact h (l ++ r) entry e (by rw [hp, append_assoc])

theorem Always.head (h : Always P (entry :: history)) : P entry history :=
  h [] entry history rfl

theorem Always.tail (h : Always P (entry :: history)) : Always P history :=
  h.suffix (suffix_cons entry history)

end UnifiedCache.Trace
