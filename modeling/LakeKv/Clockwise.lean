import LakeKv.FiniteMap

/-! Going clockwise on a circle of points: the first point at or after a position, and past the
last point the first of all. -/

namespace Clockwise

variable {α : Type} [LinearOrder α]

def next? (s : Finset α) (x : α) : Option α :=
  (s.ascending.find? (x ≤ ·)).or s.ascending.head?

/-- `y` is the point of `s` met first from `x`. -/
structure IsNext (s : Finset α) (x y : α) : Prop where
  mem : y ∈ s
  first : (x ≤ y ∧ ∀ z ∈ s, x ≤ z → y ≤ z) ∨ ((∀ z ∈ s, z < x) ∧ ∀ z ∈ s, y ≤ z)

variable {s t : Finset α} {x y y' : α}

theorem isNext_of_next? (h : next? s x = some y) : IsNext s x y := by
  have sorted := s.pairwise_ascending
  cases hf : s.ascending.find? (x ≤ ·) with
  | some z =>
    have eq : z = y := by simpa [next?, hf] using h
    subst eq
    obtain ⟨hz, before, after, split, low⟩ := List.find?_eq_some_iff_append.mp hf
    have here : z ∈ s.ascending := by
      rw [split]
      simp
    refine ⟨Finset.mem_ascending.mp here, Or.inl ⟨by simpa using hz, ?_⟩⟩
    intro w hw above
    have hmem := Finset.mem_ascending.mpr hw
    rw [split] at hmem sorted
    have tail := List.pairwise_cons.mp (List.pairwise_append.mp sorted).2.1
    rcases List.mem_append.mp hmem with hb | hrest
    · have := low w hb
      simp at this
      exact absurd above (not_le.mpr this)
    · rcases List.mem_cons.mp hrest with eq | ha
      · exact eq.ge
      · exact tail.1 w ha
  | none =>
    have head : s.ascending.head? = some y := by simpa [next?, hf] using h
    have below := List.find?_eq_none.mp hf
    obtain ⟨rest, hrest⟩ := List.head?_eq_some_iff.mp head
    have here : y ∈ s.ascending := by
      rw [hrest]
      simp
    refine ⟨Finset.mem_ascending.mp here, Or.inr ⟨?_, ?_⟩⟩
    · intro z hz
      have := below z (Finset.mem_ascending.mpr hz)
      simpa using this
    · intro z hz
      have hmem := Finset.mem_ascending.mpr hz
      rw [hrest] at hmem sorted
      rcases List.mem_cons.mp hmem with eq | ha
      · exact eq.ge
      · exact (List.pairwise_cons.mp sorted).1 z ha

theorem next?_eq_none (h : next? s x = none) : s = ∅ := by
  have head : s.ascending.head? = none := (Option.or_eq_none_iff.mp h).2
  have empty := List.head?_eq_none_iff.mp head
  apply Finset.eq_empty_of_forall_notMem
  intro z hz
  have hmem := Finset.mem_ascending.mpr hz
  rw [empty] at hmem
  exact List.not_mem_nil hmem

theorem IsNext.unique (h : IsNext s x y) (h' : IsNext s x y') : y = y' := by
  rcases h.first with ⟨hle, hmin⟩ | ⟨hall, hmin⟩
  · rcases h'.first with ⟨hle', hmin'⟩ | ⟨hall', -⟩
    · exact le_antisymm (hmin y' h'.mem hle') (hmin' y h.mem hle)
    · exact absurd hle (not_le.mpr (hall' y h.mem))
  · rcases h'.first with ⟨hle', -⟩ | ⟨-, hmin'⟩
    · exact absurd hle' (not_le.mpr (hall y' h'.mem))
    · exact le_antisymm (hmin y' h'.mem) (hmin' y h.mem)

theorem IsNext.of_subset (h : IsNext t x y) (sub : s ⊆ t) (mem : y ∈ s) : IsNext s x y := by
  refine ⟨mem, ?_⟩
  rcases h.first with ⟨hle, hmin⟩ | ⟨hall, hmin⟩
  · exact Or.inl ⟨hle, fun z hz => hmin z (sub hz)⟩
  · exact Or.inr ⟨fun z hz => hall z (sub hz), fun z hz => hmin z (sub hz)⟩

theorem next?_of_subset (sub : s ⊆ t) (h : next? t x = some y) (mem : y ∈ s) : next? s x = some y := by
  have here := (isNext_of_next? h).of_subset sub mem
  cases hs : next? s x with
  | none => simp [next?_eq_none hs] at mem
  | some z => rw [(isNext_of_next? hs).unique here]

def label? {β : Type} (m : Map α β) (x : α) : Option β :=
  (next? m.keys x).bind m.lookup

theorem label?_of_le {β : Type} {m m' : Map α β} (le : ∀ a b, m.lookup a = some b → m'.lookup a = some b) (x : α) :
    label? m' x = label? m x ∨ ∃ a b, label? m' x = some b ∧ m'.lookup a = some b ∧ m.lookup a = none := by
  have sub : m.keys ⊆ m'.keys := by
    intro a ha
    obtain ⟨b, hb⟩ := Finmap.mem_iff.mp (Finmap.mem_keys.mp ha)
    exact Finmap.mem_keys.mpr (Finmap.mem_iff.mpr ⟨b, le a b hb⟩)
  cases hy : next? m'.keys x with
  | none =>
    have empty : m.keys = ∅ := Finset.subset_empty.mp (next?_eq_none hy ▸ sub)
    have hnone : next? m.keys x = none := by
      cases hm : next? m.keys x with
      | none => rfl
      | some z => simpa [empty] using (isNext_of_next? hm).mem
    exact Or.inl (by simp [label?, hy, hnone])
  | some y =>
    obtain ⟨b', hb'⟩ := Finmap.mem_iff.mp (Finmap.mem_keys.mp (isNext_of_next? hy).mem)
    have hlabel : label? m' x = some b' := by simp [label?, hy, hb']
    cases hb : m.lookup y with
    | none => exact Or.inr ⟨y, b', hlabel, hb', hb⟩
    | some b =>
      have same := next?_of_subset sub hy (Finmap.mem_keys.mpr (Finmap.mem_iff.mpr ⟨b, hb⟩))
      have eq : b' = b := by
        have := le y b hb
        rw [hb'] at this
        exact Option.some.inj this
      left
      rw [hlabel, eq]
      simp [label?, same, hb]

end Clockwise
