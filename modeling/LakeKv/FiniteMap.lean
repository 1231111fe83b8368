import Mathlib.Data.Finmap
import Mathlib.Data.List.Sort
import Mathlib.Data.Finset.Sum
import Mathlib.Algebra.BigOperators.Group.Finset.Basic
import Mathlib.Algebra.Order.BigOperators.Group.Finset

/-- A hash map from `α` to `β`: finitely many keys, equal when lookups agree. -/
abbrev Map (α β : Type) := Finmap fun _ : α => β

namespace Finmap

variable {α β γ : Type} [DecidableEq α]

theorem lookup_insert_if (m : Map α β) (a x : α) (b : β) :
    (m.insert a b).lookup x = if x = a then some b else m.lookup x := by
  split
  next h => subst h; exact lookup_insert m
  next h => exact lookup_insert_of_ne m h

theorem lookup_erase_if (m : Map α β) (a x : α) : (m.erase a).lookup x = if x = a then none else m.lookup x := by
  split
  next h => subst h; exact lookup_erase x m
  next h => exact lookup_erase_ne h

variable {m : Map α β} {a : α} {b : β} (f : γ → α)

theorem lookup_insert_some {a x : α} {b c : β} (h : (m.insert a b).lookup x = some c) :
    x = a ∧ c = b ∨ x ≠ a ∧ m.lookup x = some c := by
  rw [lookup_insert_if] at h
  split at h
  next hx => exact .inl ⟨hx, (Option.some.inj h).symm⟩
  next hx => exact .inr ⟨hx, h⟩

theorem lookup_erase_some {a x : α} (h : (m.erase a).lookup x = some b) : x ≠ a ∧ m.lookup x = some b := by
  rw [lookup_erase_if] at h
  split at h
  · cases h
  next hx => exact ⟨hx, h⟩

theorem mem_insert_of_lookup {a x : α} {b c : β} (h : m.lookup a = some b) : x ∈ m.insert a c ↔ x ∈ m := by
  rw [mem_insert]
  exact ⟨fun hx => hx.elim (fun he => he ▸ mem_of_lookup_eq_some h) id, .inr⟩

theorem keys_insert (m : Map α β) (a : α) (b : β) : (m.insert a b).keys = Insert.insert a m.keys := by
  ext x
  simp [mem_keys, mem_insert]

theorem keys_insert_of_mem (h : a ∈ m) : (m.insert a b).keys = m.keys := by
  rw [keys_insert, Finset.insert_eq_of_mem (mem_keys.mpr h)]

theorem card_erase (h : a ∈ m) : (m.erase a).keys.card + 1 = m.keys.card := by
  rw [keys_erase]
  exact Finset.card_erase_add_one (mem_keys.mpr h)

theorem insert_of_lookup (h : m.lookup a = some b) : m.insert a b = m := by
  apply ext_lookup
  intro x
  rw [lookup_insert_if]
  split
  next he => rw [he, h]
  · rfl

theorem erase_of_notMem (h : a ∉ m) : m.erase a = m := by
  apply ext_lookup
  intro x
  rw [lookup_erase_if]
  split
  next he => rw [he, lookup_eq_none.mpr h]
  · rfl

theorem insert_erase_of_lookup (h : m.lookup a = some b) : (m.erase a).insert a b = m := by
  apply ext_lookup
  intro x
  rw [lookup_insert_if, lookup_erase_if]
  split
  next he => rw [he, h]
  · rfl

theorem erase_insert_of_notMem (h : a ∉ m) : (m.insert a b).erase a = m := by
  apply ext_lookup
  intro x
  rw [lookup_erase_if, lookup_insert_if]
  split
  next he => rw [he, lookup_eq_none.mpr h]
  · rfl

theorem lookup_foldl_erase (xs : List γ) (m : Map α β) (a : α) :
    (xs.foldl (fun m x => m.erase (f x)) m).lookup a = if a ∈ xs.map f then none else m.lookup a := by
  induction xs generalizing m with
  | nil => simp
  | cons x xs ih =>
    rw [List.foldl_cons, ih, lookup_erase_if]
    by_cases hx : a = f x <;> simp [hx]

theorem lookup_foldl_insert (v : α → β) (xs : List γ) (m : Map α β) (a : α) :
    (xs.foldl (fun m x => m.insert (f x) (v (f x))) m).lookup a = if a ∈ xs.map f then some (v a) else m.lookup a := by
  induction xs generalizing m with
  | nil => simp
  | cons x xs ih =>
    rw [List.foldl_cons, ih, lookup_insert_if]
    by_cases hx : a = f x <;> simp [hx]

def mapVal (f : α → β → γ) (m : Map α β) : Map α γ :=
  m.liftOn (fun l => (⟨l.entries.map (.map id f), List.NodupKeys.map₂ f _ l.nodupKeys⟩ : AList fun _ : α => γ).toFinmap)
    (fun _ _ h => AList.toFinmap_eq.mpr (h.map _))

theorem lookup_mapVal (f : α → β → γ) (m : Map α β) (a : α) : (m.mapVal f).lookup a = (m.lookup a).map (f a) := by
  induction m using Finmap.induction_on with
  | H l => exact List.dlookup_map₂ a

def total {M : Type} [AddCommMonoid M] (f : β → M) (m : Map α β) : M :=
  ∑ a ∈ m.keys, ((m.lookup a).map f).getD 0

section Total

variable {M : Type} [AddCommMonoid M] {f : β → M}

theorem total_empty (f : β → M) : total f (∅ : Map α β) = 0 := by
  simp [total]

theorem total_erase {a : α} {b : β} (h : m.lookup a = some b) : f b + total f (m.erase a) = total f m := by
  have ha : a ∈ m.keys := mem_keys.mpr (mem_of_lookup_eq_some h)
  have hrest : ∑ x ∈ m.keys.erase a, (((m.erase a).lookup x).map f).getD 0
      = ∑ x ∈ m.keys.erase a, ((m.lookup x).map f).getD 0 := by
    apply Finset.sum_congr rfl
    intro x hx
    rw [lookup_erase_ne (Finset.ne_of_mem_erase hx)]
  rw [total, keys_erase, hrest, total, ← Finset.add_sum_erase _ _ ha, h]
  rfl

theorem total_insert_of_notMem {a : α} {b : β} (h : a ∉ m) : total f (m.insert a b) = f b + total f m := by
  rw [← total_erase (lookup_insert m), erase_insert_of_notMem h]

theorem total_insert_of_lookup {a : α} {b old : β} (h : m.lookup a = some old) :
    f old + total f (m.insert a b) = f b + total f m := by
  have herase : (m.insert a b).erase a = m.erase a := by
    apply ext_lookup
    intro x
    rw [lookup_erase_if, lookup_erase_if, lookup_insert_if]
    split <;> rfl
  rw [← total_erase (lookup_insert m (b := b)), ← total_erase h, herase]
  exact add_left_comm _ _ _

end Total

theorem le_total {f : β → ℤ} (nonneg : ∀ a b, m.lookup a = some b → 0 ≤ f b)
    (h : m.lookup a = some b) : f b ≤ total f m := by
  have hle : ((m.lookup a).map f).getD 0 ≤ total f m := by
    apply Finset.single_le_sum (f := fun x => ((m.lookup x).map f).getD 0)
    · intro x hx
      obtain ⟨y, hy⟩ := mem_iff.mp (mem_keys.mp hx)
      simpa [hy] using nonneg x y hy
    · exact mem_keys.mpr (mem_of_lookup_eq_some h)
  simpa [h] using hle

theorem total_nonneg {f : β → ℤ} (nonneg : ∀ a b, m.lookup a = some b → 0 ≤ f b) : 0 ≤ total f m := by
  apply Finset.sum_nonneg
  intro x hx
  obtain ⟨y, hy⟩ := mem_iff.mp (mem_keys.mp hx)
  simpa [hy] using nonneg x y hy

end Finmap

namespace Finset

variable {α : Type} [LinearOrder α] (s : Finset α)

def ascending (s : Finset α) : List α :=
  Quot.liftOn s.1 (fun l => l.insertionSort (· ≤ ·)) fun l l' h =>
    List.Perm.eq_of_pairwise'
      (List.pairwise_insertionSort (· ≤ ·) l) (List.pairwise_insertionSort (· ≤ ·) l')
      (((List.perm_insertionSort _ l).trans h).trans (List.perm_insertionSort _ l').symm)

theorem mem_ascending {s : Finset α} {x : α} : x ∈ s.ascending ↔ x ∈ s := by
  obtain ⟨m, hm⟩ := s
  induction m using Quot.inductionOn with
  | h l => exact List.mem_insertionSort (· ≤ ·)

theorem nodup_ascending : s.ascending.Nodup := by
  obtain ⟨m, hm⟩ := s
  induction m using Quot.inductionOn with
  | h l => exact (List.perm_insertionSort (· ≤ ·) l).nodup_iff.mpr hm

theorem pairwise_ascending : s.ascending.Pairwise (· ≤ ·) := by
  obtain ⟨m, hm⟩ := s
  induction m using Quot.inductionOn with
  | h l => exact List.pairwise_insertionSort (· ≤ ·) l

end Finset
