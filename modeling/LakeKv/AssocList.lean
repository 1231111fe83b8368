import Mathlib.Data.List.Perm.Basic

namespace AssocList

variable {α β : Type} [DecidableEq α] {d : List (α × β)} {k : α} {v : β}

theorem mem_of_lookup (h : d.lookup k = some v) : (k, v) ∈ d := by
  induction d with
  | nil => cases h
  | cons p d ih =>
    obtain ⟨k', v'⟩ := p
    rw [List.lookup_cons] at h
    split at h
    next heq =>
      cases h
      exact List.mem_cons.mpr (.inl (by rw [eq_of_beq heq]))
    · exact List.mem_cons_of_mem _ (ih h)

theorem lookup_eq_none_iff : d.lookup k = none ↔ k ∉ d.map Prod.fst := by
  rw [List.lookup_eq_none_iff]
  constructor
  · intro h hk
    obtain ⟨p, hp, rfl⟩ := List.mem_map.mp hk
    simpa using h p hp
  · intro h p hp
    simpa using fun heq : k = p.1 => h (heq ▸ List.mem_map_of_mem hp)

variable (hd : (d.map Prod.fst).Nodup)
include hd

theorem lookup_eq_some_iff : d.lookup k = some v ↔ (k, v) ∈ d := by
  refine ⟨mem_of_lookup, fun h => ?_⟩
  induction d with
  | nil => cases h
  | cons p d ih =>
    obtain ⟨hp, hd⟩ := List.nodup_cons.mp hd
    rw [List.lookup_cons]
    rcases List.mem_cons.mp h with rfl | h
    · simp
    · have hne : k ≠ p.1 := fun heq => hp (heq ▸ List.mem_map_of_mem h)
      simp only [beq_eq_false_iff_ne.mpr hne]
      exact ih hd h

theorem perm_cons_filter (h : (k, v) ∈ d) : d.Perm ((k, v) :: d.filter fun p => p.1 ≠ k) := by
  induction d with
  | nil => cases h
  | cons p d ih =>
    obtain ⟨hp, hd⟩ := List.nodup_cons.mp hd
    rcases List.mem_cons.mp h with rfl | h
    · have hrest : d.filter (fun q => q.1 ≠ k) = d := by
        refine List.filter_eq_self.mpr fun q hq => decide_eq_true fun heq => hp ?_
        exact List.mem_map.mpr ⟨q, hq, heq⟩
      rw [List.filter_cons_of_neg (by simp), hrest]
    · have hne : p.1 ≠ k := fun heq => hp (heq ▸ List.mem_map_of_mem h)
      rw [List.filter_cons_of_pos (by simpa using hne)]
      exact ((ih hd h).cons p).trans (.swap _ _ _)

end AssocList
