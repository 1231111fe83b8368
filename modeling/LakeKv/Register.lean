import Mathlib.Data.List.Destutter
import LakeKv.Admission

namespace LakeKv

def lastIndexOf (h : Flat) : List Flat → Option Nat
  | [] => none
  | x :: xs =>
    match lastIndexOf h xs with
    | some i => some (i + 1)
    | none => if x = h then some 0 else none

variable {h : Flat} {i : Nat}

theorem lastIndexOf_getElem? {chain : List Flat} (hi : lastIndexOf h chain = some i) : chain[i]? = some h := by
  induction chain generalizing i with
  | nil => simp [lastIndexOf] at hi
  | cons x xs ih =>
    simp only [lastIndexOf] at hi
    split at hi
    next j hj =>
      cases hi
      simpa using ih hj
    split at hi
    next he => cases Option.some.inj hi; simp [he]
    · simp at hi

variable {c : List Flat}

theorem lastIndexOf_lt (hi : lastIndexOf h c = some i) : i < c.length :=
  (List.getElem?_eq_some_iff.mp (lastIndexOf_getElem? hi)).1

theorem lastIndexOf_take_getLast? (hi : lastIndexOf h c = some i) : (c.take (i + 1)).getLast? = some h := by
  have hlt := lastIndexOf_lt hi
  rw [List.getLast?_take]
  simp [lastIndexOf_getElem? hi]

theorem lastIndexOf_of_getLast? (hl : c.getLast? = some h) : lastIndexOf h c = some (c.length - 1) := by
  induction c with
  | nil => simp at hl
  | cons x xs ih =>
    cases xs with
    | nil => simpa [lastIndexOf] using hl
    | cons y ys =>
      have ht := ih (by simpa using hl)
      simp [lastIndexOf] at ht ⊢
      simp [ht]

def contiguous : List Nat → Bool
  | [] => true
  | [_] => true
  | i :: j :: rest => j == i + 1 && contiguous (j :: rest)

/-- A block of a batch with its place in the chain, its identity and metadata as they are stored. -/
structure PlacedBlock (B : Backend) where
  id : KvBlockId
  seq : B.Seq
  chain : List Flat
  blockMeta : BlockMeta

def fillNode (nodeId : String) (loc : Location) : Location :=
  if loc.nodeId.isEmpty then { loc with nodeId := nodeId } else loc

/-- The block as the loop of `register` stores it; blocks without an identity are skipped, and
the position of the others has been checked. -/
def placeBlock (B : Backend) (nodeId : String) (poolKind : Int) (prefixHashes : List Flat)
    (m : BlockMeta) : Option (PlacedBlock B) := do
  let id ← m.id
  let pos ← lastIndexOf id.blockHash prefixHashes
  let seq ← (B.lineageFromPrefix prefixHashes)[pos]?
  pure
    { id := { id with poolKind := poolKind }
      seq := seq
      chain := prefixHashes.take (pos + 1)
      blockMeta := { m with
        id := some { id with poolKind := poolKind }
        locations := m.locations.map (fillNode nodeId) } }

namespace PoolView

variable {B : Backend}

def registerPlaced (p : PoolView B) (b : PlacedBlock B) : PoolView B :=
  p.registerBlock b.id.blockHash b.seq b.chain b.blockMeta

def placedEvent (p : PoolView B) (b : PlacedBlock B) : ViewEvent :=
  upsertEvent (if b.id.blockHash ∈ p.byFlat then .moved else .registered) b.id
    b.blockMeta.locations b.blockMeta.l3Present b.blockMeta.blockKind

/-- The mutation loop of `register`: the pool, the events and the number of blocks charged. -/
def registerAll (p : PoolView B) : List (PlacedBlock B) → PoolView B × List ViewEvent × Nat
  | [] => (p, [], 0)
  | b :: bs =>
    let rest := (p.registerPlaced b).registerAll bs
    (rest.1, p.placedEvent b :: rest.2.1,
      (if b.id.blockHash ∈ p.byFlat then 0 else 1) + rest.2.2)

end PoolView

def batchIds (metas : List BlockMeta) : List KvBlockId :=
  metas.filterMap BlockMeta.id

def checkBlock (key : NamespaceKey) (poolKind : Int) (prefixHashes : List Flat) (id : KvBlockId) :
    Except String Nat :=
  if id.modelId ≠ key.modelId then
    .error ("RegisterBlocks: mixed model_id " ++ key.modelId ++ " vs " ++ id.modelId)
  else if id.revision ≠ key.revision then
    .error ("RegisterBlocks: mixed revision " ++ key.revision.quote ++ " vs " ++ id.revision.quote)
  else match resolvePoolKind id.poolKind with
    | .error e => .error e
    | .ok pk =>
      if pk ≠ poolKind then .error s!"RegisterBlocks: mixed pool_kind {pk} vs {poolKind}"
      else match lastIndexOf id.blockHash prefixHashes with
        | none =>
          .error s!"RegisterBlocks: block hash not in prefix_hashes (len={id.blockHash.length})"
        | some pos => .ok pos

/-- The checks of `register` that read only its arguments: the namespace and pool of the batch. -/
def checkBatch (prefixHashes : List Flat) (metas : List BlockMeta) : Except String (NamespaceKey × Int) :=
  match batchIds metas with
  | [] => .error "RegisterBlocks: no KVBlockID"
  | id :: ids =>
    match resolvePoolKind id.poolKind with
    | .error e => .error e
    | .ok pk =>
      if prefixHashes = [] then .error "RegisterBlocks: prefix_hashes required (P4.2 lineage)"
      else match (id :: ids).mapM (checkBlock (.fromId id) pk prefixHashes) with
        | .error e => .error e
        | .ok positions =>
          if contiguous ((positions.insertionSort (· ≤ ·)).destutter (· ≠ ·)) then
            .ok (.fromId id, pk)
          else .error "RegisterBlocks: blocks must be a contiguous segment of prefix_hashes"

/-- `count_new_flats`: the distinct hashes a pool does not have. -/
def newFlats {B : Backend} (p : Option (PoolView B)) (hashes : List Flat) : Finset Flat :=
  hashes.toFinset.filter fun h => (p.map fun p => decide (h ∉ p.byFlat)).getD true

/-- The durability check of `register`. -/
def durableFirst (m : BlockMeta) : Bool :=
  !(m.id.isSome && m.locations.isEmpty && !m.l3Present)

namespace Authority

variable {B : Backend}

/-- The part of `register` behind admission and checks: mutate the pool, charge the namespace,
emit the events and clear the orphan marks of what is now registered. -/
def insertBatch (a : Authority B) (nodeId : String) (key : NamespaceKey) (poolKind : Int)
    (prefixHashes : List Flat) (metas : List BlockMeta) : Authority B × Except Fault RegisterStatus :=
  match a.namespaces.lookup key with
  | none => (a, .error (.panicked "checked has_namespace"))
  | some ns =>
    let placed := metas.filterMap (placeBlock B nodeId poolKind prefixHashes)
    let done := (ns.poolMut poolKind).registerAll placed
    let charged := Saturating.i64 (done.2.2 * ns.bytesPerBlock)
    let ns' := { ns.setPool poolKind done.1 with usedBytes := Saturating.satAdd ns.usedBytes charged }
    let a' := (a.setNs key ns').emit done.2.1
    ({ a' with orphans := placed.foldl (fun o b =>
        o.erase ⟨key.modelId, key.revision, poolKind, b.id.blockHash⟩) a'.orphans }, .ok .accepted)

def register (a : Authority B) (nodeId : String) (prefixHashes : List Flat) (metas : List BlockMeta) :
    Authority B × Except Fault RegisterStatus :=
  if metas = [] then (a, .ok .accepted)
  else match checkBatch prefixHashes metas with
    | .error e => (a, .error (.err e))
    | .ok (key, poolKind) =>
      match a.namespaces.lookup key with
      | none =>
        (a, .error (.err ("RegisterBlocks: model not registered (" ++ key.modelId ++ ", rev=" ++
          key.revision.quote ++ "); call RegisterModel first")))
      | some ns =>
        let new := newFlats (ns.pools.lookup poolKind) ((batchIds metas).map KvBlockId.blockHash)
        match a.admitRegisterBytes key new.card with
        | (a', .error e) => (a', .error e)
        | (a', .ok (.rejectedHardQuota bp)) => (a', .ok (.rejectedHardQuota bp))
        | (a', .ok .accepted) =>
          if metas.all durableFirst then a'.insertBatch nodeId key poolKind prefixHashes metas
          else (a', .error (.err "RegisterBlocks: need L2 location or l3_present (durable first)"))

end Authority

end LakeKv
