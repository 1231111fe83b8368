import LakeKv.RestoreCatalog
import LakeKv.SampleBackend

namespace LakeKv

open Option

variable {B : Backend}

theorem ViewLog.reset_eq_iff (log : ViewLog) : log.reset = log ↔ log.updates = [] := by
  cases log
  simp [ViewLog.reset, eq_comm]

namespace Authority

variable {a : Authority B}

/-- Two states with the same namespaces, with all that their pools hold, and the same node references, orphan marks,
barriers, checkpoint number and view log. -/
structure Unchanged (a b : Authority B) : Prop where
  namespaces : b.namespaces = a.namespaces
  nodeRefs : b.nodeRefs = a.nodeRefs
  orphans : b.orphans = a.orphans
  completedBarriers : b.completedBarriers = a.completedBarriers
  checkpointSeq : b.checkpointSeq = a.checkpointSeq
  viewLog : b.viewLog = a.viewLog

/-- A restore of `snap` finds nothing to lose: no node references, orphan marks, barriers or logged updates, the
snapshot's own checkpoint number, and the namespaces that the entries in front of the snapshot's first refused one make
up when they are entered into an empty table: no reference, hit count, placement mark or inactive block beside them. -/
structure NothingToLose (a : Authority B) (snap : CheckpointSnapshot) : Prop where
  namespaces : a.namespaces = restoredNamespaces B a.inactiveCap a.poolCapacityBytes snap
  nodeRefs : a.nodeRefs = ∅
  orphans : a.orphans = ∅
  completedBarriers : a.completedBarriers = ∅
  checkpointSeq : a.checkpointSeq = snap.seq
  viewLog : a.viewLog.updates = []

/-- What the condition says of the pools: they hold the snapshot's entries, and have not been used since. -/
theorem NothingToLose.unused (hB : B.Lawful) {snap : CheckpointSnapshot} (h : a.NothingToLose snap) :
    a.Lists (Catalog.restore a.poolCapacityBytes snap).1 ∧ ∀ key pk p, a.pool? key pk = some p → p.Unused := by
  obtain ⟨hbuilt, -, hsame⟩ := importSnapshot_rebuilds hB a snap
  have hns : a.namespaces = (a.importSnapshot snap).1.namespaces := h.namespaces.trans hsame.symm
  have hpool : ∀ key pk, a.pool? key pk = (a.importSnapshot snap).1.pool? key pk := by
    intro key pk
    rw [pool?, pool?, hns]
  refine ⟨⟨fun key => ?_, fun k => ?_, fun key ns hfound => ?_⟩, fun key pk p hp => ?_⟩
  · rw [hns]
    exact hbuilt.models key
  · rw [block?, hpool]
    exact hbuilt.blocks k
  · rw [hns] at hfound
    exact hbuilt.used key ns hfound
  · rw [hpool] at hp
    exact hbuilt.unused key pk p hp

theorem importSnapshot_unchanged_iff (hB : B.Lawful) (a : Authority B) (snap : CheckpointSnapshot) :
    Unchanged a (a.importSnapshot snap).1 ↔ a.NothingToLose snap := by
  obtain ⟨hbuilt, -, hnamespaces⟩ := importSnapshot_rebuilds hB a snap
  have hlog : (a.importSnapshot snap).1.viewLog = a.viewLog.reset := hbuilt.viewLog
  constructor
  · intro h
    exact
      { namespaces := h.namespaces.symm.trans hnamespaces
        nodeRefs := h.nodeRefs.symm.trans hbuilt.nodeRefs
        orphans := h.orphans.symm.trans hbuilt.orphans
        completedBarriers := h.completedBarriers.symm.trans hbuilt.completedBarriers
        checkpointSeq := h.checkpointSeq.symm.trans hbuilt.checkpointSeq
        viewLog := a.viewLog.reset_eq_iff.mp (hlog.symm.trans h.viewLog) }
  · intro h
    exact
      { namespaces := hnamespaces.trans h.namespaces.symm
        nodeRefs := hbuilt.nodeRefs.trans h.nodeRefs.symm
        orphans := hbuilt.orphans.trans h.orphans.symm
        completedBarriers := hbuilt.completedBarriers.trans h.completedBarriers.symm
        checkpointSeq := hbuilt.checkpointSeq.trans h.checkpointSeq.symm
        viewLog := hlog.trans (a.viewLog.reset_eq_iff.mpr h.viewLog) }

theorem nothingToLose_importSnapshot (hB : B.Lawful) (a : Authority B) (snap : CheckpointSnapshot)
    (hcap : (a.importSnapshot snap).1.inactiveCap = a.inactiveCap) : (a.importSnapshot snap).1.NothingToLose snap := by
  obtain ⟨hbuilt, -, hnamespaces⟩ := importSnapshot_rebuilds hB a snap
  exact
    { namespaces := by
        rw [hcap, hbuilt.poolCapacityBytes]
        exact hnamespaces
      nodeRefs := hbuilt.nodeRefs
      orphans := hbuilt.orphans
      completedBarriers := hbuilt.completedBarriers
      checkpointSeq := hbuilt.checkpointSeq
      viewLog := congrArg ViewLog.updates hbuilt.viewLog }

def brokenSnapshot : CheckpointSnapshot :=
  ⟨7, [sampleModel 0 0, ⟨"", "r", 1, none, 0, none⟩], []⟩

def brokenRestore : Authority sampleBackend :=
  ((withInactiveCap sampleBackend 8).importSnapshot brokenSnapshot).1

end Authority

end LakeKv
