import LakeKv.PoolView

namespace LakeKv

open Saturating

structure Namespace (B : Backend) where
  descriptor : ModelDescriptor
  pools : Map Int (PoolView B)
  inactiveCap : Nat
  usedBytes : Int

namespace Namespace

variable {B : Backend}

def new (B : Backend) (descriptor : ModelDescriptor) (inactiveCap : Nat) : Namespace B :=
  ⟨descriptor, ∅, max inactiveCap 1, 0⟩

/-- `pool_mut`: a pool that is not there yet is created empty. -/
def poolMut (ns : Namespace B) (poolKind : Int) : PoolView B :=
  (ns.pools.lookup poolKind).getD (PoolView.new B ns.inactiveCap)

def setPool (ns : Namespace B) (poolKind : Int) (p : PoolView B) : Namespace B :=
  { ns with pools := ns.pools.insert poolKind p }

def blockCount (ns : Namespace B) : Nat :=
  ns.pools.total fun p => p.byFlat.keys.card

def bytesPerBlock (ns : Namespace B) : Int :=
  ns.descriptor.bytesPerBlock

def quota (ns : Namespace B) : Quota :=
  quotaOrDefault ns.descriptor.quota

def inactiveLen (ns : Namespace B) : Nat :=
  ns.pools.total fun p => B.len p.inactive

def inactiveBytes (ns : Namespace B) : Int :=
  satMul ns.inactiveLen ns.bytesPerBlock

/-- The loop of `evict_inactive_n` over the pool kinds, with the number still to evict. -/
def evictKinds (ns : Namespace B) : List Int → Nat → Namespace B × List (Int × B.Seq × Flat)
  | [], _ => (ns, [])
  | pk :: kinds, left =>
    if left = 0 then (ns, [])
    else match ns.pools.lookup pk with
      | none => ns.evictKinds kinds left
      | some pool =>
        let one := pool.dropInactiveVictims left
        let rest := (ns.setPool pk one.1).evictKinds kinds (left - one.2.length)
        (rest.1, one.2.map (fun r => (pk, r.1, r.2)) ++ rest.2)

def evictInactiveN (ns : Namespace B) (n : Nat) : Namespace B × List (Int × B.Seq × Flat) :=
  if n = 0 then (ns, [])
  else
    let evicted := ns.evictKinds ns.pools.keys.ascending n
    ({ evicted.1 with
      usedBytes := max (i64 (ns.usedBytes - evicted.2.length * ns.bytesPerBlock)) 0 }, evicted.2)

end Namespace

structure OrphanEntry where
  id : KvBlockId
  nodeId : String
  markedAtMs : Nat
  deriving DecidableEq, Repr

structure NodeState where
  vnodeCount : Nat
  draining : Bool
  vnodeHashes : List UInt64
  deriving DecidableEq, Repr

def defaultVnodeCount : Nat := 64

/-- `shard::ShardRing`: the nodes, and the ring from the hashes of their vnodes to the nodes. -/
structure ShardRing where
  generation : Nat
  defaultVnodeCount : Nat
  nodes : Map String NodeState
  ring : Map UInt64 String

def ShardRing.new (defaultVnodeCount : Nat) : ShardRing :=
  ⟨0, max defaultVnodeCount 1, ∅, ∅⟩

def ShardRing.readyNodes (r : ShardRing) : List String :=
  r.nodes.keys.ascending.filter fun n =>
    ((r.nodes.lookup n).map fun st => !st.draining).getD false

/-- `authority::Authority`; the clock it reads is an argument of the calls that read it. -/
structure Authority (B : Backend) where
  namespaces : Map NamespaceKey (Namespace B)
  inactiveCap : Nat
  completedBarriers : Map String String
  poolCapacityBytes : Int
  orphans : Map BlockKey OrphanEntry
  nodeRefs : Map String (Map BlockKey RefAccounts)
  checkpointSeq : Nat
  shard : ShardRing
  viewLog : ViewLog
  pendingViewEvents : List ViewEvent

/-- Wire `POOL_UNSPECIFIED` stands for the target pool. -/
def resolvePoolKind (raw : Int) : Except String Int :=
  if raw = 0 then .ok poolTarget
  else if raw = poolTarget ∨ raw = poolDraft then .ok raw
  else .error s!"unsupported pool_kind {raw}"

def resolveRefKind (raw : Int) : Except String RefKind :=
  match RefKind.ofWire? raw with
  | none => .error s!"RefDelta: unknown ref_kind {raw}"
  | some .request => .ok .request
  | some .writeback => .ok .writeback
  | some kind =>
    .error ("RefDelta: unsupported ref_kind " ++ kind.asStrName ++ " (want REQUEST/WRITEBACK)")

def invalidatedEventsFor {B : Backend} (key : NamespaceKey) (removed : List (Int × B.Seq × Flat)) :
    List ViewEvent :=
  removed.map fun r => invalidatedEvent (publicId key r.1 r.2.2)

def descriptorIdentityEq (a b : ModelDescriptor) : Bool :=
  a.modelId == b.modelId && a.revision == b.revision && a.numLayers == b.numLayers &&
    a.hashAlgo == b.hashAlgo && a.blockSpec == b.blockSpec

namespace Authority

variable {B : Backend}

def withInactiveCap (B : Backend) (inactiveCap : Nat) : Authority B where
  namespaces := ∅
  inactiveCap := max inactiveCap 1
  completedBarriers := ∅
  poolCapacityBytes := 0
  orphans := ∅
  nodeRefs := ∅
  checkpointSeq := 0
  shard := .new defaultVnodeCount
  viewLog := .new
  pendingViewEvents := []

def setPoolCapacityBytes (a : Authority B) (bytes : Int) : Authority B :=
  { a with poolCapacityBytes := max bytes 0 }

def setNs (a : Authority B) (key : NamespaceKey) (ns : Namespace B) : Authority B :=
  { a with namespaces := a.namespaces.insert key ns }

def emit (a : Authority B) (events : List ViewEvent) : Authority B :=
  { a with pendingViewEvents := a.pendingViewEvents ++ events }

def pool? (a : Authority B) (key : NamespaceKey) (poolKind : Int) : Option (PoolView B) := do
  let ns ← a.namespaces.lookup key
  ns.pools.lookup poolKind

def block? (a : Authority B) (k : BlockKey) : Option (Entry B) := do
  let p ← a.pool? k.ns k.poolKind
  p.byFlat.lookup k.flat

def totalUsedBytes (a : Authority B) : Int :=
  a.namespaces.total Namespace.usedBytes

def commitViewEvents (a : Authority B) : Authority B × Option ViewUpdate :=
  if a.pendingViewEvents = [] then (a, none)
  else
    let committed := a.viewLog.commit a.pendingViewEvents
    ({ a with viewLog := committed.2, pendingViewEvents := [] }, some committed.1)

def snapshotPool (key : NamespaceKey) (pk : Int) (p : PoolView B) : List ViewEvent :=
  p.byFlat.keys.ascending.filterMap fun flat =>
    (p.byFlat.lookup flat).map fun e =>
      upsertEvent .registered (e.blockMeta.id.getD (publicId key pk flat)) e.blockMeta.locations
        e.blockMeta.l3Present e.blockMeta.blockKind

def snapshotNs (key : NamespaceKey) (ns : Namespace B) : List ViewEvent :=
  ns.pools.keys.ascending.flatMap fun pk => ((ns.pools.lookup pk).map (snapshotPool key pk)).getD []

def viewSnapshot (a : Authority B) : ViewUpdate :=
  ⟨0, a.namespaces.keys.ascending.flatMap fun key =>
    ((a.namespaces.lookup key).map (snapshotNs key)).getD []⟩

def freeBytes (a : Authority B) : Int :=
  if a.poolCapacityBytes ≤ 0 then i64Max / 4
  else max (a.poolCapacityBytes - a.totalUsedBytes) 0

def registerModel (a : Authority B) (desc : ModelDescriptor) : Authority B × Except Fault Unit :=
  if desc.modelId.isEmpty then (a, .error (.err "RegisterModel: model_id required"))
  else match desc.quota.elim (.ok ()) validateQuota with
    | .error e => (a, .error (.err ("RegisterModel: " ++ e)))
    | .ok () =>
      let key : NamespaceKey := ⟨desc.modelId, desc.revision⟩
      match a.namespaces.lookup key with
      | some ns =>
        if !descriptorIdentityEq ns.descriptor desc then
          (a, .error (.err ("RegisterModel: immutable fields changed for (" ++ desc.modelId ++
            ", rev=" ++ desc.revision.quote ++ "); use a new revision " ++
            "(num_layers/block_spec/hash_algo must match)")))
        else (a.setNs key { ns with descriptor := { ns.descriptor with quota := desc.quota } }, .ok ())
      | none => (a.setNs key (Namespace.new B desc a.inactiveCap), .ok ())

def unknownNamespace (call : String) (key : NamespaceKey) : Fault :=
  .err (call ++ "unknown namespace (" ++ key.modelId ++ ", rev=" ++ key.revision.quote ++ ")")

def namespaceGone (key : NamespaceKey) (ns : Namespace B) : List ViewEvent :=
  (B.poolOrder ns.pools.keys).flatMap fun pk =>
    ((ns.pools.lookup pk).map fun pool =>
      (B.flatOrder pool.byFlat.keys).map fun flat => invalidatedEvent (publicId key pk flat)).getD []

def deregisterModel (a : Authority B) (modelId revision : String) : Authority B × Except Fault Unit :=
  if modelId.isEmpty then (a, .error (.err "DeregisterModel: model_id required"))
  else
    let key : NamespaceKey := ⟨modelId, revision⟩
    match a.namespaces.lookup key with
    | none => (a, .error (unknownNamespace "DeregisterModel: " key))
    | some ns =>
      ({ a with namespaces := a.namespaces.erase key }.emit (namespaceGone key ns), .ok ())

def setModelQuota (a : Authority B) (modelId revision : String) (quota : Quota) :
    Authority B × Except Fault Unit :=
  if modelId.isEmpty then (a, .error (.err "SetModelQuota: model_id required"))
  else match validateQuota quota with
    | .error e => (a, .error (.err ("SetModelQuota: " ++ e)))
    | .ok () =>
      let key : NamespaceKey := ⟨modelId, revision⟩
      match a.namespaces.lookup key with
      | none => (a, .error (unknownNamespace "SetModelQuota: " key))
      | some ns =>
        (a.setNs key { ns with descriptor := { ns.descriptor with quota := some quota } }, .ok ())

def completeBarrier (a : Authority B) (requestId nodeId : String) : Authority B × Except Fault Unit :=
  if requestId.isEmpty then (a, .error (.err "RequestBarrier: request_id required"))
  else if nodeId.isEmpty then (a, .error (.err "RequestBarrier: node_id required"))
  else ({ a with completedBarriers := a.completedBarriers.insert requestId nodeId }, .ok ())

end Authority

end LakeKv
