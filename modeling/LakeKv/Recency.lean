import Mathlib.Data.Finset.Card
import Mathlib.Data.List.Nodup

/-- A queue of keys, the one used last at its end. -/
abbrev Recency (α : Type) := List α

namespace Recency

variable {α : Type} [DecidableEq α] {order : Recency α} {keys : Finset α} {x : α} {y : α}

def remove (order : Recency α) (x : α) : Recency α :=
  order.filter (· ≠ x)

def touch (order : Recency α) (x : α) : Recency α :=
  remove order x ++ [x]

/-- The queue lists the keys, each once. -/
structure Enumerates (order : Recency α) (keys : Finset α) : Prop where
  nodup : order.Nodup
  mem_iff : ∀ x, x ∈ order ↔ x ∈ keys

@[simp]
theorem mem_remove : y ∈ remove order x ↔ y ∈ order ∧ y ≠ x := by
  simp [remove]

@[simp]
theorem mem_touch : y ∈ touch order x ↔ y ∈ order ∨ y = x := by
  rw [touch, List.mem_append, mem_remove, List.mem_singleton]
  tauto

theorem remove_of_notMem (h : x ∉ order) : remove order x = order := by
  apply List.filter_eq_self.mpr
  intro y hy
  have : y ≠ x := by
    rintro rfl
    exact h hy
  simpa using this

theorem dropLast_touch (order : Recency α) (x : α) : (touch order x).dropLast = remove order x := by
  simp [touch]

theorem remove_touch (h : x ∉ order) : remove (touch order x) x = order := by
  have rest : List.filter (fun y => decide (y ≠ x)) order = order := remove_of_notMem h
  rw [touch, remove_of_notMem h, remove, List.filter_append, rest]
  simp

theorem find?_touch {p : α → Bool} (first : (touch order x).find? p = some y) :
    (y = x ∧ ∀ z ∈ order, z ≠ x → p z = false) ∨ (y ∈ order ∧ y ≠ x) := by
  rw [touch, List.find?_append] at first
  cases front : (remove order x).find? p with
  | some z =>
    rw [front, Option.some_or] at first
    cases first
    exact .inr (mem_remove.mp (List.mem_of_find?_eq_some front))
  | none =>
    rw [front, Option.none_or] at first
    have last := List.mem_of_find?_eq_some first
    refine .inl ⟨List.mem_singleton.mp last, ?_⟩
    intro z hz ne
    exact Bool.eq_false_iff.mpr (List.find?_eq_none.mp front z (mem_remove.mpr ⟨hz, ne⟩))

namespace Enumerates

omit [DecidableEq α] in
theorem empty : Enumerates ([] : Recency α) ∅ :=
  ⟨List.nodup_nil, by simp⟩

variable (h : Enumerates order keys)
include h

theorem remove (x : α) : Enumerates (remove order x) (keys.erase x) := by
  refine ⟨h.nodup.filter _, ?_⟩
  intro y
  rw [mem_remove, h.mem_iff, Finset.mem_erase, and_comm]

theorem touch (x : α) : Enumerates (touch order x) (insert x keys) := by
  constructor
  · rw [Recency.touch, List.nodup_append]
    refine ⟨(h.remove x).nodup, List.nodup_singleton x, ?_⟩
    intro y hy z hz
    rw [List.mem_singleton] at hz
    subst hz
    exact (mem_remove.mp hy).2
  · intro y
    rw [mem_touch, h.mem_iff, Finset.mem_insert, or_comm]

theorem length_eq : order.length = keys.card := by
  rw [← List.toFinset_card_of_nodup h.nodup]
  congr 1
  ext y
  rw [List.mem_toFinset, h.mem_iff]

theorem touch_of_mem (hx : x ∈ keys) : Enumerates (Recency.touch order x) keys := by
  have := h.touch x
  rwa [Finset.insert_eq_of_mem hx] at this

end Enumerates

end Recency
