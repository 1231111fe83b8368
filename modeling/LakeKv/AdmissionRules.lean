import LakeKv.BlockCounts

namespace LakeKv

open Finmap KvBlockId List Namespace Saturating

variable {B : Backend}

namespace Namespace

def plannedEvictions (ns : Namespace B) (new : Nat) : Nat :=
  if new = 0 then 0
  else
    let projected := satAdd ns.usedBytes (satMul new ns.bytesPerBlock)
    min (max (evictFor ns.quota.hardBytes projected ns.bytesPerBlock)
      (evictFor ns.quota.softBytes projected ns.bytesPerBlock)) ns.inactiveLen

end Namespace

/-- The charge of the mutation loop is the number of distinct hashes that the pool lacks. -/
theorem PoolView.registerAll_charged (p : PoolView B) (placed : List (PlacedBlock B)) :
    (p.registerAll placed).2.2 = (newFlats (some p) (placed.map fun b => b.id.blockHash)).card := by
  induction placed generalizing p with
  | nil => rfl
  | cons b bs ih =>
    have hmem : ∀ f, f ∈ (p.registerPlaced b).byFlat ↔ f = b.id.blockHash ∨ f ∈ p.byFlat :=
      fun f => mem_insert
    have hrest : newFlats (some (p.registerPlaced b)) (bs.map fun b => b.id.blockHash) =
        (newFlats (some p) ((b :: bs).map fun b => b.id.blockHash)).erase b.id.blockHash := by
      ext f
      simp only [newFlats, Finset.mem_filter, Finset.mem_erase, mem_toFinset, map_cons,
        mem_cons, Option.map_some, Option.getD_some, decide_eq_true_eq, hmem]
      tauto
    simp only [registerAll]
    rw [ih, hrest]
    split
    next hin =>
      have hout : b.id.blockHash ∉ newFlats (some p) ((b :: bs).map fun b => b.id.blockHash) := by
        simp [newFlats, hin]
      rw [Finset.erase_eq_of_notMem hout]
      omega
    next hout =>
      have hin : b.id.blockHash ∈ newFlats (some p) ((b :: bs).map fun b => b.id.blockHash) := by
        simp [newFlats, hout]
      have hcard := Finset.card_erase_add_one hin
      omega

namespace Authority

variable {a : Authority B}

variable {key : NamespaceKey} {ns : Namespace B}

theorem planAdmit_eq_accept {new evictions : Nat} {reclaim : Int} (hns : a.namespaces.lookup key = some ns)
    (h : a.planAdmit key new = .ok (.accept evictions reclaim)) : evictions = ns.plannedEvictions new := by
  have hreject : ∀ w, rejectWith key w ≠ .ok (.accept evictions reclaim) := by
    intro w hw
    unfold rejectWith at hw
    split at hw <;> simp at hw
  unfold planAdmit at h
  unfold plannedEvictions
  split at h
  next hzero =>
    rw [if_pos hzero]
    simp only [Except.ok.injEq, AdmitPlan.accept.injEq] at h
    exact h.1.symm
  next hnew =>
    rw [if_neg hnew]
    simp only [hns] at h
    split at h
    · exact absurd h (hreject _)
    split at h
    · exact absurd h (hreject _)
    split at h
    · simp only [Except.ok.injEq, AdmitPlan.accept.injEq] at h
      exact h.1.symm
    · simp only [Except.ok.injEq, AdmitPlan.accept.injEq] at h
      exact h.1.symm
    · exact absurd h (hreject _)

theorem reclaimFrom_lookup_of_notMem {keys : List NamespaceKey} (h : key ∉ keys) (a : Authority B) (want freed : Int) :
    (a.reclaimFrom want keys freed).namespaces.lookup key = a.namespaces.lookup key := by
  induction keys generalizing a freed with
  | nil => rfl
  | cons k ks ih =>
    have hne : key ≠ k := ne_of_not_mem_cons h
    have hout : key ∉ ks := not_mem_of_not_mem_cons h
    unfold reclaimFrom
    split
    · rfl
    split
    · exact ih hout a freed
    next ns _ =>
      dsimp only
      split
      · exact ih hout a freed
      rw [ih hout]
      simp only [emit, setNs]
      rw [lookup_insert_of_ne _ hne]

section

variable (hns : a.namespaces.lookup key = some ns)
include hns

theorem evictOwn_lookup (n : Nat) (key' : NamespaceKey) : (a.evictOwn key n).namespaces.lookup key' =
      if key' = key then some (ns.evictInactiveN n).1 else a.namespaces.lookup key' := by
  simp only [evictOwn, hns, emit, setNs, lookup_insert_if]

theorem commitAdmit_lookup (n : Nat) (reclaim : Int) :
    (a.commitAdmit key n reclaim).namespaces.lookup key = some (ns.evictInactiveN n).1 := by
  have hown : (if 0 < n then a.evictOwn key n else a).namespaces.lookup key = some (ns.evictInactiveN n).1 := by
    split
    · rw [evictOwn_lookup hns, if_pos rfl]
    next hn =>
      have hzero : n = 0 := by omega
      rw [hzero, hns]
      rfl
  unfold commitAdmit
  dsimp only
  split
  · unfold reclaimBorrowedBytes
    split
    · exact hown
    rw [reclaimFrom_lookup_of_notMem ?_, hown]
    simp [borrowers]
  · exact hown

end

end Authority

end LakeKv
