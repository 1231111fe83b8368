import LakeKv.Runs
import LakeKv.ViewMirror

namespace LakeKv

/-- The calls that change an authority, with the clock readings they make. -/
inductive Op
  | registerModel (desc : ModelDescriptor)
  | deregisterModel (modelId revision : String)
  | setModelQuota (modelId revision : String) (quota : Quota)
  | setPoolCapacityBytes (bytes : Int)
  | register (nodeId : String) (prefixHashes : List Flat) (metas : List BlockMeta)
  | preplaceOnRegister (modelId revision : String) (poolKind : Int) (prefixHashes : List Flat)
  | reportHits (nodeId : String) (ids : List KvBlockId)
  | warmupPlan (nodeId : String) (k : Nat)
  | lookupPrefix (modelId revision : String) (poolKind : Int) (prefixHashes : List Flat)
      (requester : String)
  | reportRefs (deltas : List RefDelta)
  | evictN (modelId revision : String) (poolKind : Int) (n : Nat)
  | discardBlocks (ids : List KvBlockId)
  | gcCold (modelId revision : String) (poolKind : Int) (n : Nat)
  | reconcileDeadNode (nodeId : String)
  | reportOrphans (nowMs : Nat) (reports : List OrphanReport)
  | sweepOrphans (nowMs ttlMs : Nat)
  | reconcileOrphans (nowReport nowSweep : Nat) (req : ReconcileOrphansRequest)
  | publishLocationAt (modelId revision : String) (poolKind : Int) (flat : Flat) (tier : Tier)
      (nodeId : String) (segmentId offset : Nat) (present : Bool)
  | setL3Present (modelId revision : String) (poolKind : Int) (flat : Flat) (present : Bool)
  | relocateInView (modelId revision : String) (poolKind : Int) (flat : Flat) (tier : Tier)
      (nodeId : String) (segmentId offset : Nat)
  | completeBarrier (requestId nodeId : String)
  | setShard (ring : ShardRing)
  | saveCheckpoint
  | importSnapshot (snap : CheckpointSnapshot)
  | commitViewEvents

namespace Authority

variable {B : Backend}

def step (a : Authority B) : Op → Authority B
  | .registerModel desc => (a.registerModel desc).1
  | .deregisterModel m r => (a.deregisterModel m r).1
  | .setModelQuota m r q => (a.setModelQuota m r q).1
  | .setPoolCapacityBytes bytes => a.setPoolCapacityBytes bytes
  | .register node chain metas => (a.register node chain metas).1
  | .preplaceOnRegister m r pk chain => (a.preplaceOnRegister m r pk chain).1
  | .reportHits node ids => (a.reportHits node ids).1
  | .warmupPlan node k => (a.warmupPlan node k).1
  | .lookupPrefix m r pk chain requester => a.lookupTouch m r pk chain requester
  | .reportRefs ds => (a.reportRefs ds).1
  | .evictN m r pk n => (a.evictN m r pk n).1
  | .discardBlocks ids => (a.discardBlocks ids).1
  | .gcCold m r pk n => (a.gcCold m r pk n).1
  | .reconcileDeadNode node => (a.reconcileDeadNode node).1
  | .reportOrphans now reports => a.reportOrphans now reports
  | .sweepOrphans now ttl => (a.sweepOrphans now ttl).1
  | .reconcileOrphans now₁ now₂ req => (a.reconcileOrphans now₁ now₂ req).1
  | .publishLocationAt m r pk flat tier node seg off present =>
    (a.publishLocationAt m r pk flat tier node seg off present).1
  | .setL3Present m r pk flat present => (a.setL3Present m r pk flat present).1
  | .relocateInView m r pk flat tier node seg off => (a.relocateInView m r pk flat tier node seg off).1
  | .completeBarrier req node => (a.completeBarrier req node).1
  | .setShard ring => { a with shard := ring }
  | .saveCheckpoint => a.saveCheckpoint.1
  | .importSnapshot snap => (a.importSnapshot snap).1
  | .commitViewEvents => a.commitViewEvents.1

def Initial (a : Authority B) : Prop :=
  ∃ cap, a = withInactiveCap B cap

def ReachableBy (ok : Authority B → Op → Prop) : Authority B → Prop :=
  Reach step Initial ok

def Reachable : Authority B → Prop :=
  ReachableBy fun _ _ => True

end Authority

end LakeKv
