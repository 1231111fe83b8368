import LakeKv.Clockwise
import LakeKv.Operations

namespace LakeKv

instance hashOrder : LinearOrder UInt64 where
  le_refl _ := UInt64.le_refl _
  le_trans _ _ _ := UInt64.le_trans
  le_antisymm _ _ := UInt64.le_antisymm
  le_total := UInt64.le_total
  lt_iff_le_not_ge x y := by
    rw [UInt64.lt_iff_toNat_lt, UInt64.le_iff_toNat_le, UInt64.le_iff_toNat_le]
    omega
  toDecidableLE := inferInstance
  toDecidableLT := inferInstance
  toDecidableEq := instDecidableEqUInt64

/-- What the ring takes from outside its own code: `xxh3_64`, and the order in which the hash map
of the nodes is walked. -/
structure ShardHash where
  xxh3 : List UInt8 → UInt64
  nodeOrder : Finset String → List String

def leBytes (width n : Nat) : List UInt8 :=
  (List.range width).map fun i => (n / 256 ^ i).toUInt8

namespace ShardHash

variable (H : ShardHash)

def vnodeHash (nodeId : String) (i : Nat) : UInt64 :=
  H.xxh3 (nodeId.toUTF8.toList ++ leBytes 4 i)

def saltedHash (nodeId : String) (salt : Nat) : UInt64 :=
  H.xxh3 (nodeId.toUTF8.toList ++ "#".toUTF8.toList ++ leBytes 8 salt)

/-- The padding loop of `vnode_hashes_for`, with the number of salts not yet tried: `none` when
the salts run out before the count is met. -/
def padHashes (nodeId : String) (vnodeCount : Nat) : Nat → Nat → List UInt64 → Option (List UInt64)
  | 0, _, out => if vnodeCount ≤ out.length then some out else none
  | left + 1, salt, out =>
    if vnodeCount ≤ out.length then some out
    else
      padHashes nodeId vnodeCount left (salt + 1)
        (if H.saltedHash nodeId salt ∈ out then out else out ++ [H.saltedHash nodeId salt])

def vnodeHashesFor (nodeId : String) (vnodeCount : Nat) : Option (List UInt64) :=
  -- `dedup` of a sorted vector leaves one of each value
  (H.padHashes nodeId vnodeCount (2 ^ 64) 0
    (((List.range vnodeCount).map (H.vnodeHash nodeId)).insertionSort (· ≤ ·)).dedup).map
      (List.insertionSort (· ≤ ·))

def insertNode (nodes : Map String NodeState) (ring : Map UInt64 String) (nodeId : String) :
    Map UInt64 String :=
  match nodes.lookup nodeId with
  | none => ring
  | some st =>
    if st.draining then ring else st.vnodeHashes.foldl (fun ring h => ring.insert h nodeId) ring

def rebuildRing (r : ShardRing) : ShardRing :=
  { r with ring := (H.nodeOrder r.nodes.keys).foldl (insertNode r.nodes) ∅ }

/-- `owner_of`: the vnode at or after the hash of the key, and past the last one the first. -/
def ownerOf (r : ShardRing) (key : Flat) : Option String :=
  if r.ring.keys = ∅ then none else Clockwise.label? r.ring (H.xxh3 key)

def regenerate (r : ShardRing) : ShardRing :=
  { H.rebuildRing r with generation := min (r.generation + 1) (2 ^ 64 - 1) }

def countFor (r : ShardRing) (vnodeCount : Nat) : Nat :=
  if vnodeCount = 0 then r.defaultVnodeCount else vnodeCount

def join (r : ShardRing) (nodeId : String) (vnodeCount : Nat) : Except Fault ShardRing :=
  if nodeId.isEmpty then .error (.err "join: node_id required")
  else if nodeId ∈ r.nodes then .error (.err s!"join: node {nodeId} already present")
  else match H.vnodeHashesFor nodeId (countFor r vnodeCount) with
    | none => .error (.panicked "attempt to add with overflow")
    | some vnodeHashes =>
      .ok (H.regenerate { r with
        nodes := r.nodes.insert nodeId ⟨countFor r vnodeCount, false, vnodeHashes⟩ })

def markDrain (r : ShardRing) (nodeId : String) : Except Fault ShardRing :=
  match r.nodes.lookup nodeId with
  | none => .error (.err s!"drain: unknown node {nodeId}")
  | some st =>
    if st.draining then .error (.err s!"drain: node {nodeId} already draining")
    else .ok (H.regenerate { r with nodes := r.nodes.insert nodeId { st with draining := true } })

def remove (r : ShardRing) (nodeId : String) : Except Fault ShardRing :=
  match r.nodes.lookup nodeId with
  | none => .error (.err s!"remove: unknown node {nodeId}")
  | some st =>
    if !st.draining then .error (.err s!"remove: node {nodeId} must DrainShardNode first")
    else .ok (H.regenerate { r with nodes := r.nodes.erase nodeId })

end ShardHash

structure ShardEntry where
  nodeId : String
  vnodeCount : Nat
  draining : Bool
  vnodeHashes : List UInt64
  deriving DecidableEq, Repr

structure ShardMap where
  generation : Nat
  defaultVnodeCount : Nat
  nodes : List ShardEntry
  deriving DecidableEq, Repr

structure ShardMigration where
  id : Option KvBlockId
  fromNode : String
  toNode : String
  pushL2First : Bool
  deriving DecidableEq, Repr

def ShardRing.toProto (r : ShardRing) : ShardMap :=
  ⟨r.generation, r.defaultVnodeCount, r.nodes.keys.ascending.filterMap fun n =>
    (r.nodes.lookup n).map fun st => ⟨n, st.vnodeCount, st.draining, st.vnodeHashes⟩⟩

def blockIdentityKey (id : KvBlockId) : String × String × Int × Flat :=
  (id.modelId, id.revision, id.poolKind, id.blockHash)

namespace Authority

variable {B : Backend}

def listedId (key : NamespaceKey) (pk : Int) (flat : Flat) (e : Entry B) : KvBlockId :=
  e.blockMeta.id.getD (publicId key pk flat)

def poolBlockKeys (key : NamespaceKey) (pk : Int) (p : PoolView B) : List (Flat × KvBlockId) :=
  (B.flatOrder p.byFlat.keys).filterMap fun flat =>
    (p.byFlat.lookup flat).map fun e => (flat, listedId key pk flat e)

def nsBlockKeys (key : NamespaceKey) (ns : Namespace B) : List (Flat × KvBlockId) :=
  ns.pools.keys.ascending.flatMap fun pk =>
    ((ns.pools.lookup pk).map (poolBlockKeys key pk)).getD []

def allBlockKeys (a : Authority B) : List (Flat × KvBlockId) :=
  (a.namespaces.keys.ascending.flatMap fun key =>
    ((a.namespaces.lookup key).map (nsBlockKeys key)).getD []).insertionSort fun x y => x.1 ≤ y.1

def isOn (nodeId : String) (tier : Option Tier) (l : Location) : Bool :=
  l.nodeId == nodeId && (tier.map fun t => l.tier == t.toWire).getD true

def poolPlacementsOn (nodeId : String) (tier : Option Tier) (key : NamespaceKey) (pk : Int)
    (p : PoolView B) : List KvBlockId :=
  (B.flatOrder p.byFlat.keys).filterMap fun flat =>
    (p.byFlat.lookup flat).bind fun e =>
      if e.blockMeta.locations.any (isOn nodeId tier) then some (listedId key pk flat e) else none

def blocksWithPlacementOnTier (a : Authority B) (nodeId : String) (tier : Option Tier) :
    List KvBlockId :=
  (B.namespaceOrder a.namespaces.keys).flatMap fun key =>
    ((a.namespaces.lookup key).map fun ns =>
      (B.poolOrder ns.pools.keys).flatMap fun pk =>
        ((ns.pools.lookup pk).map (poolPlacementsOn nodeId tier key pk)).getD []).getD []

def blocksWithL2On (a : Authority B) (nodeId : String) : List KvBlockId :=
  a.blocksWithPlacementOnTier nodeId (some .l2)

def blocksWithPlacementOn (a : Authority B) (nodeId : String) : List KvBlockId :=
  a.blocksWithPlacementOnTier nodeId none

end Authority

namespace ShardHash

variable (H : ShardHash) {B : Backend}

def ownersOf (r : ShardRing) (keys : List (Flat × KvBlockId)) : Map Flat (Option String) :=
  keys.foldl (fun before k => before.insert k.1 (H.ownerOf r k.1)) ∅

/-- `Option` compares with `None` first. -/
def hashAtMost : Option Flat → Option Flat → Bool
  | none, _ => true
  | some _, none => false
  | some x, some y => x ≤ y

def sortMigrations (migrations : List ShardMigration) : List ShardMigration :=
  migrations.insertionSort fun x y =>
    hashAtMost (x.id.map KvBlockId.blockHash) (y.id.map KvBlockId.blockHash)

def joinMigration (nodeId : String) (before : Map Flat (Option String)) (r : ShardRing)
    (k : Flat × KvBlockId) : Option ShardMigration :=
  if H.ownerOf r k.1 = some nodeId ∧ (before.lookup k.1).join ≠ some nodeId then
    -- a first node takes over from nobody: not a migration
    (before.lookup k.1).join.map fun source => ⟨some k.2, source, nodeId, false⟩
  else none

def joinShardNode (a : Authority B) (nodeId : String) (vnodeCount : Nat) :
    Except Fault (Authority B × ShardMap × List ShardMigration) := do
  let r ← H.join a.shard nodeId vnodeCount
  .ok ({ a with shard := r }, r.toProto,
    sortMigrations (a.allBlockKeys.filterMap
      (H.joinMigration nodeId (H.ownersOf a.shard a.allBlockKeys) r)))

structure DrainPlan where
  pushSeen : Finset (String × String × Int × Flat)
  pushL2 : List KvBlockId
  migrations : List ShardMigration

def drainMigration (nodeId : String) (r : ShardRing) (k : Flat × KvBlockId) :
    Option ShardMigration :=
  ((H.ownerOf r k.1).filter (· ≠ nodeId)).map fun target => ⟨some k.2, nodeId, target, true⟩

def drainBlock (nodeId : String) (before : Map Flat (Option String)) (r : ShardRing)
    (plan : DrainPlan) (k : Flat × KvBlockId) : DrainPlan :=
  if (before.lookup k.1).join ≠ some nodeId then plan
  else if blockIdentityKey k.2 ∈ plan.pushSeen then plan
  else
    { pushSeen := insert (blockIdentityKey k.2) plan.pushSeen
      pushL2 := plan.pushL2 ++ [k.2]
      migrations := plan.migrations ++ (H.drainMigration nodeId r k).toList }

/-- A block whose copy lies on the node's L2, whoever owns it. -/
def pushPlaced (plan : DrainPlan) (id : KvBlockId) : DrainPlan :=
  if blockIdentityKey id ∈ plan.pushSeen then plan
  else { plan with
    pushSeen := insert (blockIdentityKey id) plan.pushSeen
    pushL2 := plan.pushL2 ++ [id] }

def drainPlan (a : Authority B) (nodeId : String) (r : ShardRing) : DrainPlan :=
  (a.blocksWithL2On nodeId).foldl pushPlaced
    (a.allBlockKeys.foldl (H.drainBlock nodeId (H.ownersOf a.shard a.allBlockKeys) r) ⟨∅, [], []⟩)

def drainShardNode (a : Authority B) (nodeId : String) :
    Except Fault (Authority B × ShardMap × List ShardMigration × List KvBlockId) :=
  if nodeId ∉ a.shard.nodes then .error (.err s!"drain: unknown node {nodeId}")
  else do
    let r ← H.markDrain a.shard nodeId
    .ok ({ a with shard := r }, r.toProto, sortMigrations (H.drainPlan a nodeId r).migrations,
      (H.drainPlan a nodeId r).pushL2.insertionSort fun x y => x.blockHash ≤ y.blockHash)

def removeShardNode (a : Authority B) (nodeId : String) : Except Fault (Authority B) :=
  if a.blocksWithPlacementOn nodeId ≠ [] then
    .error (.err (s!"remove: node {nodeId} still has " ++
      toString (a.blocksWithPlacementOn nodeId).length ++
      " placement(s) in location view; complete migration/push_l2 first"))
  else if a.allBlockKeys.any fun k => H.ownerOf a.shard k.1 == some nodeId then
    .error (.err s!"remove: node {nodeId} still owns blocks; drain incomplete")
  else do
    let r ← H.remove a.shard nodeId
    .ok { a with shard := r }

end ShardHash

end LakeKv
