import LakeKv.SoftQuotas

namespace LakeKv

open Finmap KvBlockId List Namespace Saturating

variable {B : Backend}

namespace Namespace

variable (ns : Namespace B) (pk : Int) (hashes : List Flat) (n : Nat)

/-- The blocks of a batch that were registered and are among the victims of `n` evictions. -/
def returning : Finset Flat :=
  (hashes.toFinset.filter fun f => (pk, f) ∈ (ns.evictInactiveN n).2.map fun r => (r.1, r.2.2)) \
    newFlats (ns.pools.lookup pk) hashes

theorem mem_newFlats {f : Flat} :
    f ∈ newFlats (ns.pools.lookup pk) hashes ↔ f ∈ hashes ∧ ns.entryAt pk f = none := by
  unfold newFlats entryAt
  rw [Finset.mem_filter, mem_toFinset]
  cases ns.pools.lookup pk with
  | none => simp
  | some p => simp [← lookup_eq_none]

theorem card_newFlats_evictInactiveN : (newFlats ((ns.evictInactiveN n).1.pools.lookup pk) hashes).card =
      (newFlats (ns.pools.lookup pk) hashes).card + (ns.returning pk hashes n).card := by
  have split : newFlats ((ns.evictInactiveN n).1.pools.lookup pk) hashes =
      newFlats (ns.pools.lookup pk) hashes ∪ ns.returning pk hashes n := by
    ext f
    rw [Finset.mem_union, returning, Finset.mem_sdiff, mem_newFlats, mem_newFlats, entryAt_evictInactiveN,
      Finset.mem_filter, mem_toFinset]
    split <;> tauto
  rw [split, Finset.card_union_of_disjoint]
  exact Finset.disjoint_sdiff

end Namespace

namespace Authority

variable {a : Authority B} {key : NamespaceKey} {ns : Namespace B} {metas : List BlockMeta} {chain : List Flat}
  {node : String} {pk : Int} {n : Nat} {reclaim : Int}

/-- When a call leaves the namespace `k` within its hard quota, over the victims of its evictions. For the batch's own
namespace: what is left of its usage, with the new blocks and those of the batch that are among the victims, fits the
quota, or the quota is out of an `i64`'s reach. For another one: the bytes taken from it do not wrap its usage. -/
def BatchFits (a : Authority B) (chain : List Flat) (metas : List BlockMeta) (k : NamespaceKey) (ns : Namespace B) : Prop :=
  ∀ key pk ns₀ n reclaim, a.Admits chain metas key pk ns₀ n reclaim →
    let asked := a.asks key n reclaim k
    let left := ns.usageWithout asked (ns.evictInactiveN asked).2.length
    if k = key then
      let hashes := (batchIds metas).map blockHash
      let charged := (newFlats (ns.pools.lookup pk) hashes).card + (ns.returning pk hashes asked).card
      i64Max ≤ ns.quota.hardBytes ∨ left + i64 (charged * ns.bytesPerBlock) ≤ ns.quota.hardBytes
    else left ≤ ns.quota.hardBytes

/-- The loop charges what it finds missing after the eviction. -/
theorem Admits.usedBytes (admits : a.Admits chain metas key pk ns n reclaim)
    (accepted : (a.register node chain metas).2 = .ok .accepted) :
    let hashes := (batchIds metas).map blockHash
    let charged := (newFlats (ns.pools.lookup pk) hashes).card + (ns.returning pk hashes n).card
    ∃ ns', (a.register node chain metas).1.namespaces.lookup key = some ns' ∧
      ns'.usedBytes = satAdd (ns.usageWithout n (ns.evictInactiveN n).2.length) (i64 (charged * ns.bytesPerBlock)) := by
  intro hashes charged
  rw [admits.register node] at accepted ⊢
  split at accepted
  next durable =>
    rw [if_pos durable]
    simp only [insertBatch, commitAdmit_lookup admits.found n reclaim]
    refine ⟨_, lookup_insert _, ?_⟩
    have count : (((ns.evictInactiveN n).1.poolMut pk).registerAll
        (metas.filterMap (placeBlock B node pk chain))).2.2 = charged := by
      have after : charged = _ := (ns.card_newFlats_evictInactiveN pk hashes n).symm
      rw [PoolView.registerAll_charged, placed_hashes admits.check, after]
      unfold poolMut
      cases (ns.evictInactiveN n).1.pools.lookup pk with
      | none => simp [newFlats, PoolView.new, notMem_empty, hashes]
      | some p => rfl
    have bytes : (ns.evictInactiveN n).1.bytesPerBlock = ns.bytesPerBlock := by
      rw [bytesPerBlock, ns.descriptor_evictInactiveN, bytesPerBlock]
    simp only [count, bytes, usedBytes_evictInactiveN]
  · cases accepted

/-- After an accepted registration a namespace that was within its hard quota is within it if and only if the batch
fits. -/
theorem hard_quota_ceiling_iff {node : String} {chain : List Flat} {metas : List BlockMeta}
    {key : NamespaceKey} {ns : Namespace B} (found : a.namespaces.lookup key = some ns)
    (hard : 0 < ns.quota.hardBytes) (within : ns.usedBytes ≤ ns.quota.hardBytes)
    (accepted : (a.register node chain metas).2 = .ok .accepted) :
    (∃ ns', (a.register node chain metas).1.namespaces.lookup key = some ns' ∧
      ns'.usedBytes ≤ ns.quota.hardBytes) ↔ a.BatchFits chain metas key ns := by
  by_cases own : ∃ pk, checkBatch chain metas = .ok (key, pk)
  · obtain ⟨pk, check⟩ := own
    rcases a.register_cases node chain metas with ⟨rfl, -⟩ | ⟨key', pk', ns₀, n, reclaim, admits⟩ | ⟨-, refused⟩
    · cases check
    · cases Except.ok.inj (admits.check.symm.trans check)
      cases found.symm.trans admits.found
      obtain ⟨ns', found', bytes⟩ := admits.usedBytes accepted
      have asked : a.asks key n reclaim key = n := if_pos rfl
      unfold BatchFits
      rw [admits.forall_iff]
      dsimp only
      rw [if_pos rfl, asked, found', ← satAdd_le_iff hard.le, ← bytes]
      simp
    · exact absurd accepted refused
  · have other : ∀ pk, checkBatch chain metas ≠ .ok (key, pk) := fun pk check => own ⟨pk, check⟩
    rcases register_other node other with ⟨same, refused⟩ | ⟨key', pk, ns₀, n, reclaim, admits, ne, after⟩
    · rw [same]
      refine iff_of_true ⟨ns, found, within⟩ fun key pk ns₀ n reclaim admits => ?_
      exact absurd ⟨key, pk, ns₀, n, reclaim, admits⟩ refused
    · unfold BatchFits
      rw [admits.forall_iff]
      dsimp only
      rw [if_neg ne, ← ns.usedBytes_evictInactiveN, after, found]
      simp

theorem fullRun_namespace : ∃ ns, (sampleRun fullRun).namespaces.lookup sampleKey = some ns ∧
    ns.quota.hardBytes = 20 ∧ ns.usedBytes = 20 := by
  have hfacts : ((sampleRun fullRun).namespaces.lookup sampleKey).map
      (fun ns => (ns.quota.hardBytes, ns.usedBytes)) = some (20, 20) := by decide
  obtain ⟨ns, hns, heq⟩ := Option.map_eq_some_iff.mp hfacts
  exact ⟨ns, hns, (Prod.mk.inj heq).1, (Prod.mk.inj heq).2⟩

theorem hard_quota_ceiling_replaced : ∃ ns, (sampleRun fullRun).namespaces.lookup sampleKey = some ns ∧
      (sampleRun fullRun).BatchFits [[3]] [sampleMeta 3] sampleKey ns ∧
      ∃ ns', ((sampleRun fullRun).register "n" [[3]] [sampleMeta 3]).1.namespaces.lookup sampleKey = some ns' ∧
        ns'.usedBytes ≤ ns.quota.hardBytes := by
  obtain ⟨ns, found, hard, used⟩ := fullRun_namespace
  have after : (((sampleRun fullRun).register "n" [[3]] [sampleMeta 3]).1.namespaces.lookup sampleKey).map
      (fun ns => ns.usedBytes) = some 20 := by decide
  obtain ⟨ns', found', used'⟩ := Option.map_eq_some_iff.mp after
  have within : ∃ ns', ((sampleRun fullRun).register "n" [[3]] [sampleMeta 3]).1.namespaces.lookup sampleKey =
      some ns' ∧ ns'.usedBytes ≤ ns.quota.hardBytes := ⟨ns', found', by omega⟩
  exact ⟨ns, found, (hard_quota_ceiling_iff found (by omega) (by omega) (by decide)).mp within, within⟩

/-- A batch of the inactive block and a new one: the plan counts one new block and evicts one, which is
the other block of the batch. -/
theorem evicted_batch_exceeds_hard_quota : sampleBackend.Lawful ∧ (sampleRun fullRun).Reachable ∧
      ((sampleRun fullRun).register "n" [[1], [3]] [sampleMeta 1, sampleMeta 3]).2 = .ok .accepted ∧
      ∃ ns ns', (sampleRun fullRun).namespaces.lookup sampleKey = some ns ∧ ns.quota.hardBytes = 20 ∧
        ns.usedBytes = 20 ∧
        ((sampleRun fullRun).register "n" [[1], [3]] [sampleMeta 1, sampleMeta 3]).1.namespaces.lookup sampleKey =
          some ns' ∧ ns'.usedBytes = 30 := by
  obtain ⟨ns, hns, hhard, hused⟩ := fullRun_namespace
  have hafter : (((sampleRun fullRun).register "n" [[1], [3]]
      [sampleMeta 1, sampleMeta 3]).1.namespaces.lookup sampleKey).map (fun ns => ns.usedBytes) = some 30 := by
    decide
  obtain ⟨ns', hns', hused'⟩ := Option.map_eq_some_iff.mp hafter
  exact ⟨sampleBackend_lawful, sampleRun_reachable _, by decide, ns, ns', hns, hhard, hused, hns', hused'⟩

end Authority

end LakeKv
