import LakeKv.Publish

namespace LakeKv

def anchorDepthCap : Nat := 8

def followHitThreshold : Nat := 2

def followEvalLimit : Nat := 16

def fnvOffset : UInt64 := 14695981039346656037

def fnvPrime : UInt64 := 1099511628211

def fnv1a64Update (h : UInt64) (bytes : List UInt8) : UInt64 :=
  bytes.foldl (fun h b => (h ^^^ b.toUInt64) * fnvPrime) h

def toLeBytes (n : UInt64) : List UInt8 :=
  (List.range 8).map fun i => (n >>> (8 * i.toUInt64)).toUInt8

def hrwScore (key : Flat) (node : String) : UInt64 :=
  fnv1a64Update (fnv1a64Update (fnv1a64Update fnvOffset (toLeBytes key.length.toUInt64)) key)
    node.toUTF8.toList

def chainAnchor (prefixHashes : List Flat) : Option Flat :=
  prefixHashes[min prefixHashes.length anchorDepthCap - 1]?

/-- `pick_home`: the higher score wins, and of equal scores the smaller node. -/
def pickHome (scoreOf : String → UInt64) : List String → Option String
  | [] => none
  | n :: ns =>
    match pickHome scoreOf ns with
    | none => some n
    | some best =>
      if scoreOf best < scoreOf n ∨ (scoreOf n = scoreOf best ∧ n < best) then some n else some best

namespace PoolView

variable {B : Backend}

def placementPlan (key : NamespaceKey) (pk : Int) (p : PoolView B) (home : String)
    (prefixHashes : List Flat) : List KvBlockId :=
  prefixHashes.filterMap fun flat =>
    match p.byFlat.lookup flat with
    | none => none
    | some entry =>
      if hasTierOn entry.blockMeta.locations .l0 home then none
      else if (flat, home) ∈ p.placementMarks then none
      else some (entry.blockMeta.id.getD (publicId key pk flat))

def markPlaced (p : PoolView B) (home : String) (plan : List KvBlockId) : PoolView B :=
  { p with placementMarks := plan.foldl (fun marks id => insert (id.blockHash, home) marks) p.placementMarks }

def recordHit (p : PoolView B) (flat : Flat) (nodeId : String) : PoolView B :=
  let counts := (p.hitCounts.lookup flat).getD ∅
  let counted := counts.insert nodeId (((counts.lookup nodeId).getD 0 + 1) % 2 ^ 32)
  { p with hitCounts := p.hitCounts.insert flat counted }

def hitCountOn (p : PoolView B) (flat : Flat) (nodeId : String) : Nat :=
  ((p.hitCounts.lookup flat).bind fun counts => counts.lookup nodeId).getD 0

/-- A block that has been hit and is not in a node's L0 yet, with its hits on all nodes. -/
def warmupCandidate (p : PoolView B) (nodeId : String) (flat : Flat) : Option (Nat × KvBlockId) :=
  match p.hitCounts.lookup flat, p.byFlat.lookup flat with
  | some counts, some entry =>
    let count := counts.total (fun n => n) % 2 ^ 32
    if count = 0 ∨ hasTierOn entry.blockMeta.locations .l0 nodeId then none
    else entry.blockMeta.id.map fun id => (count, id)
  | _, _ => none

end PoolView

structure FollowPass where
  planned : Finset Flat
  out : List KvBlockId
  marks : List BlockKey

/-- One block of the chain of a hot block `k`: it is planned unless it is in the node's L0, or a
block with its hash is planned already. -/
def FollowPass.ancestor {B : Backend} (nodeId : String) (pool : PoolView B) (k : BlockKey) (f : FollowPass)
    (anc : Flat) : FollowPass :=
  match pool.byFlat.lookup anc with
  | none => f
  | some e =>
    if hasTierOn e.blockMeta.locations .l0 nodeId ∨ anc ∈ f.planned then f
    else
      { planned := insert anc f.planned
        out := f.out ++ [e.blockMeta.id.getD (publicId k.ns k.poolKind anc)]
        marks := f.marks ++ [{ k with flat := anc }] }

namespace Authority

variable {B : Backend}

def preplaceOnRegister (a : Authority B) (modelId revision : String) (poolKind : Int)
    (prefixHashes : List Flat) : Authority B × Option (String × List KvBlockId) :=
  match chainAnchor prefixHashes with
  | none => (a, none)
  | some anchor =>
    match pickHome (hrwScore anchor) a.shard.readyNodes with
    | none => (a, none)
    | some home =>
      match resolvePoolKind poolKind with
      | .error _ => (a, none)
      | .ok pk =>
        let key : NamespaceKey := ⟨modelId, revision⟩
        match a.pool? key pk with
        | none => (a, none)
        | some pool =>
          let plan := pool.placementPlan key pk home prefixHashes
          if plan = [] then (a, none)
          else (a.setPool key pk (pool.markPlaced home plan), some (home, plan))

def reportHit (nodeId : String) (a : Authority B) (id : KvBlockId) : Authority B :=
  match resolvePoolKind id.poolKind with
  | .error _ => a
  | .ok pk =>
    match a.pool? (.fromId id) pk with
    | none => a
    | some pool =>
      if id.blockHash ∈ pool.byFlat then a.setPool (.fromId id) pk (pool.recordHit id.blockHash nodeId)
      else a

/-- The count of a reported block, if it is over the threshold and neither marked nor in the node's L0. -/
def hotCount? (a : Authority B) (nodeId : String) (k : BlockKey) : Option Nat :=
  match a.pool? k.ns k.poolKind with
  | none => none
  | some pool =>
    match pool.byFlat.lookup k.flat with
    | none => none
    | some entry =>
      let count := pool.hitCountOn k.flat nodeId
      if count < followHitThreshold ∨ (k.flat, nodeId) ∈ pool.placementMarks ∨
          hasTierOn entry.blockMeta.locations .l0 nodeId then none
      else some count

/-- The candidates of `follow_traffic_plans`; a block that is reported twice counts once. -/
def hotBlocks (a : Authority B) (nodeId : String) : List BlockKey → List KvBlockId → List (Nat × BlockKey)
  | _, [] => []
  | seen, id :: ids =>
    match resolvePoolKind id.poolKind with
    | .error _ => a.hotBlocks nodeId seen ids
    | .ok pk =>
      let k : BlockKey := ⟨id.modelId, id.revision, pk, id.blockHash⟩
      if k ∈ seen then a.hotBlocks nodeId seen ids
      else ((a.hotCount? nodeId k).map fun count => (count, k)).toList ++ a.hotBlocks nodeId (k :: seen) ids

def followBlock (a : Authority B) (nodeId : String) (f : FollowPass) (k : BlockKey) : FollowPass :=
  match a.pool? k.ns k.poolKind with
  | none => f
  | some pool =>
    match pool.byFlat.lookup k.flat with
    | none => f
    | some entry => entry.prefixChain.foldl (FollowPass.ancestor nodeId pool k) f

def addMark (nodeId : String) (a : Authority B) (k : BlockKey) : Authority B :=
  match a.pool? k.ns k.poolKind with
  | none => a
  | some pool => a.setPool k.ns k.poolKind (pool.markPlaced nodeId [k.toId])

/-- `follow_traffic_plans`: the hottest of the reported blocks go to the node, each with its chain. -/
def followTrafficPlans (a : Authority B) (nodeId : String) (ids : List KvBlockId) :
    Authority B × List (String × List KvBlockId) :=
  if nodeId.isEmpty then (a, [])
  else
    let cand := ((a.hotBlocks nodeId [] ids).insertionSort fun x y =>
      y.1 < x.1 ∨ (x.1 = y.1 ∧ x.2.flat ≤ y.2.flat)).take followEvalLimit
    let pass := cand.foldl (fun f c => a.followBlock nodeId f c.2) ⟨∅, [], []⟩
    (pass.marks.foldl (addMark nodeId) a, if pass.out = [] then [] else [(nodeId, pass.out)])

def reportHits (a : Authority B) (nodeId : String) (ids : List KvBlockId) :
    Authority B × List (String × List KvBlockId) :=
  (ids.foldl (reportHit nodeId) a).followTrafficPlans nodeId ids

def warmupCandidates (a : Authority B) (nodeId : String) : List (Nat × KvBlockId) :=
  (B.namespaceOrder a.namespaces.keys).flatMap fun key =>
    ((a.namespaces.lookup key).map fun ns => (B.poolOrder ns.pools.keys).flatMap fun pk =>
      ((ns.pools.lookup pk).map fun p =>
        (B.flatOrder p.hitCounts.keys).filterMap (p.warmupCandidate nodeId)).getD []).getD []

def markWarm (nodeId : String) (plan : List KvBlockId) (key : NamespaceKey) (a : Authority B) (pk : Int) :
    Authority B :=
  match a.pool? key pk with
  | none => a
  | some pool =>
    a.setPool key pk (pool.markPlaced nodeId (plan.filter fun id => decide (id.blockHash ∈ pool.byFlat)))

def warmupPlan (a : Authority B) (nodeId : String) (k : Nat) : Authority B × List KvBlockId :=
  let cand := (a.warmupCandidates nodeId).insertionSort fun x y =>
    y.1 < x.1 ∨ (x.1 = y.1 ∧ x.2.blockHash ≤ y.2.blockHash)
  let plan := (cand.take k).map Prod.snd
  ((B.namespaceOrder a.namespaces.keys).foldl (fun a key =>
    ((a.namespaces.lookup key).map fun ns =>
      (B.poolOrder ns.pools.keys).foldl (markWarm nodeId plan key) a).getD a) a, plan)

end Authority

end LakeKv
