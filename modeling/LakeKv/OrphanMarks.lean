import LakeKv.KeyedBlocks
import LakeKv.SampleBackend

namespace LakeKv

open BlockKey

namespace Authority

variable {B : Backend} {metas : List BlockMeta} {chain : List Flat} {node : String}

/-- The registration loop clears the mark of every block it stores, under the pool kind the batch was
resolved to. -/
theorem insertBatch_orphans {b : Authority B} {key : NamespaceKey} {pk : Int}
    {ns : Namespace B} (hns : b.namespaces.lookup key = some ns)
    (hcheck : checkBatch chain metas = .ok (key, pk)) {id : KvBlockId} (hid : id ∈ batchIds metas) :
    fromId id ∉ (b.insertBatch node key pk chain metas).1.orphans := by
  obtain ⟨hkey, hkind, -⟩ := checkBatch_eq_ok hcheck hid
  have hk : fromId id = ⟨key.modelId, key.revision, pk, id.blockHash⟩ := by
    rw [fromId_of_resolve hkind, ← hkey]
    rfl
  -- The identity is one of those that were placed.
  have hhash : id.blockHash ∈ (metas.filterMap (placeBlock B node pk chain)).map fun b => b.id.blockHash := by
    rw [placed_hashes hcheck]
    exact List.mem_map_of_mem hid
  obtain ⟨placed, hplaced, hflat⟩ := List.mem_map.mp hhash
  have hmem : fromId id ∈ (metas.filterMap (placeBlock B node pk chain)).map
      fun b => (⟨key.modelId, key.revision, pk, b.id.blockHash⟩ : BlockKey) := by
    refine List.mem_map.mpr ⟨placed, hplaced, ?_⟩
    rw [hk, ← hflat]
  rw [← Finmap.lookup_eq_none]
  simp only [insertBatch, hns]
  rw [Finmap.lookup_foldl_erase, if_pos hmem]

theorem register_accepted_insert {a : Authority B} (h : (a.register node chain metas).2 = .ok .accepted) : metas = [] ∨
      ∃ key pk, ∃ b : Authority B, ∃ ns, checkBatch chain metas = .ok (key, pk) ∧ b.namespaces.lookup key = some ns ∧
        (a.register node chain metas).1 = (b.insertBatch node key pk chain metas).1 := by
  unfold register at h ⊢
  split at h
  next hempty => exact .inl hempty
  next hempty =>
    right
    rw [if_neg hempty]
    split at h
    · simp at h
    next key pk hcheck =>
      split at h
      · simp at h
      next ns hns =>
        dsimp only at h
        split at h
        · simp at h
        · simp at h
        next a' hadmitted =>
          split at h
          next hdurable =>
            cases hns' : a'.namespaces.lookup key with
            | none => simp [insertBatch, hns'] at h
            | some ns' =>
              refine ⟨key, pk, a', ns', hcheck, hns', ?_⟩
              simp only [hadmitted, hdurable, ↓reduceIte]
          · simp at h

/-- A sweep leaves every namespace and every node ledger as it was, in whatever state and at whatever
clock reading it runs; and a batch that is accepted leaves no orphan mark on its blocks. -/
theorem orphan_reaping_spares_blocks (a : Authority B) :
    (∀ nowMs ttlMs, (a.sweepOrphans nowMs ttlMs).1.namespaces = a.namespaces ∧
      (a.sweepOrphans nowMs ttlMs).1.nodeRefs = a.nodeRefs) ∧
    ∀ node chain metas, (a.register node chain metas).2 = .ok .accepted →
      ∀ id ∈ batchIds metas, BlockKey.fromId id ∉ (a.register node chain metas).1.orphans := by
  constructor
  · intro nowMs ttlMs
    have hrun : Run (fun _ _ => False) a (a.sweepOrphans nowMs ttlMs).1 := sweepOrphans_run a nowMs ttlMs
    exact ⟨hrun.namespaces_eq, hrun.nodeRefs fun _ => id⟩
  · intro node chain metas haccepted id hid
    rcases register_accepted_insert haccepted with rfl | ⟨key, pk, b, ns, hcheck, hns, heq⟩
    · simp [batchIds] at hid
    · rw [heq]
      exact insertBatch_orphans hns hcheck hid

def reportedRun : Authority sampleBackend :=
  sampleRun [.registerModel (sampleModel 0 0),
    .reportOrphans 5 [⟨"n", [{ sampleId 1 with poolKind := 0 }], 0⟩]]

/-- The report without a pool kind marks the target block; its registration takes the mark away. -/
theorem orphan_reaping_spares_blocks_reported : BlockKey.fromId (sampleId 1) ∈ reportedRun.orphans ∧
      BlockKey.fromId (sampleId 1) ∉ (reportedRun.register "n" [[1]] [sampleMeta 1]).1.orphans := by
  refine ⟨by decide, ?_⟩
  exact (orphan_reaping_spares_blocks reportedRun).2 "n" [[1]] [sampleMeta 1] (by decide) (sampleId 1) (by decide)

end Authority

end LakeKv
