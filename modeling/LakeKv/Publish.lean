import LakeKv.Reconcile

namespace LakeKv

def refreshFirst (tier : Int) (nodeId : String) (segmentId offset : Nat) : List Location → List Location
  | [] => []
  | l :: ls =>
    if l.tier = tier ∧ l.nodeId = nodeId then
      { l with segmentId := segmentId, offset := offset } :: ls
    else l :: refreshFirst tier nodeId segmentId offset ls

def Tier.marker? : Tier → Option Marker
  | l0 => some .tierL0
  | l1 => some .tierL1
  | l2 => some .tierL2
  | _ => none

namespace PoolView

variable {B : Backend}

def markPresent (p : PoolView B) (seq : B.Seq) (m : Marker) : PoolView B :=
  match p.handles.lookup seq with
  | none => p
  | some h => { p with handles := p.handles.insert seq (h.markPresent m) }

@[simp] theorem markPresent_byFlat (p : PoolView B) (seq : B.Seq) (m : Marker) :
    (p.markPresent seq m).byFlat = p.byFlat := by
  unfold markPresent
  split <;> rfl

def publish (p : PoolView B) (flat : Flat) (e : Entry B) (tier : Tier) (nodeId : String)
    (segmentId offset : Nat) (present : Bool) : PoolView B :=
  let had := hasTierOn e.blockMeta.locations tier nodeId
  if present && !had then
    let p' := p.setMeta flat e { e.blockMeta with
      locations := e.blockMeta.locations ++ [⟨tier.toWire, nodeId, segmentId, offset⟩] }
    tier.marker?.elim p' (p'.markPresent e.seqHash)
  else if present then
    p.setMeta flat e { e.blockMeta with
      locations := refreshFirst tier.toWire nodeId segmentId offset e.blockMeta.locations }
  else if had then
    let p' := p.setMeta flat e { e.blockMeta with
      locations := e.blockMeta.locations.filter fun l => ¬(l.tier = tier.toWire ∧ l.nodeId = nodeId) }
    let p'' := tier.marker?.elim p' (p'.markAbsent e.seqHash)
    -- An evicted L0 copy may be placed again.
    if tier = .l0 then { p'' with placementMarks := p''.placementMarks.erase (flat, nodeId) } else p''
  else p

/-- The location change of `relocate_in_view` on a registered block; a location that is not
there is added, and only L2 gets its marker then. -/
def relocate (p : PoolView B) (flat : Flat) (e : Entry B) (tier : Tier) (nodeId : String)
    (segmentId offset : Nat) : PoolView B :=
  if hasTierOn e.blockMeta.locations tier nodeId then
    p.setMeta flat e { e.blockMeta with
      locations := refreshFirst tier.toWire nodeId segmentId offset e.blockMeta.locations }
  else
    let p' := p.setMeta flat e { e.blockMeta with
      locations := e.blockMeta.locations ++ [⟨tier.toWire, nodeId, segmentId, offset⟩] }
    if tier = .l2 then p'.markPresent e.seqHash .tierL2 else p'

def movedEvent (key : NamespaceKey) (pk : Int) (p : PoolView B) (flat : Flat) : List ViewEvent :=
  match p.byFlat.lookup flat with
  | none => []
  | some e => [upsertEvent .moved (e.blockMeta.id.getD (publicId key pk flat)) e.blockMeta.locations
      e.blockMeta.l3Present 0]

def lookupLoop (p : PoolView B) (requester : String) :
    List (Flat × B.Seq) → List ReusableBlock × Bool
  | [] => ([], true)
  | (flat, seq) :: rest =>
    match p.byFlat.lookup flat with
    | none => ([], false)
    | some entry =>
      if entry.seqHash ≠ seq then ([], false)
      else
        let isLocal := hasTierOn entry.blockMeta.locations .l0 requester
        let more := p.lookupLoop requester rest
        (⟨entry.blockMeta.id, some entry.blockMeta, isLocal⟩ :: more.1, isLocal && more.2)

def touchHits (p : PoolView B) (hits : Nat) (lineage : List B.Seq) : PoolView B :=
  let touch := fun (i : B.Index) seq => if seq ∈ p.handles then B.touch i seq else i
  { p with inactive := (lineage.take hits).foldl touch p.inactive }

end PoolView

namespace Authority

variable {B : Backend}

def findBlock (a : Authority B) (call : String) (modelId revision : String) (poolKind : Int)
    (flat : Flat) : Except Fault (Int × PoolView B × Entry B) :=
  match resolvePoolKind poolKind with
  | .error e => .error (.err e)
  | .ok pk =>
    let key : NamespaceKey := ⟨modelId, revision⟩
    match a.namespaces.lookup key with
    | none => .error (unknownNamespace "" key)
    | some ns =>
      match ns.pools.lookup pk with
      | none => .error (.err (call ++ s!": unknown pool_kind {pk}"))
      | some pool =>
        match pool.byFlat.lookup flat with
        | none => .error (.err (call ++ ": unknown block"))
        | some entry => .ok (pk, pool, entry)

def publishLocationAt (a : Authority B) (modelId revision : String) (poolKind : Int) (flat : Flat)
    (tier : Tier) (nodeId : String) (segmentId offset : Nat) (present : Bool) :
    Authority B × Except Fault Unit :=
  match a.findBlock "publish_location" modelId revision poolKind flat with
  | .error e => (a, .error e)
  | .ok (pk, pool, entry) =>
    if entry.seqHash ∈ pool.handles then
      let key : NamespaceKey := ⟨modelId, revision⟩
      let pool' := pool.publish flat entry tier nodeId segmentId offset present
      ((a.setPool key pk pool').emit
        (if present || hasTierOn entry.blockMeta.locations tier nodeId then
          pool'.movedEvent key pk flat else []), .ok ())
    else (a, .error (.err "publish_location: missing handle"))

def publishLocation (a : Authority B) (modelId revision : String) (poolKind : Int) (flat : Flat)
    (tier : Tier) (nodeId : String) (present : Bool) : Authority B × Except Fault Unit :=
  a.publishLocationAt modelId revision poolKind flat tier nodeId 1 0 present

def setL3Present (a : Authority B) (modelId revision : String) (poolKind : Int) (flat : Flat)
    (present : Bool) : Authority B × Except Fault Unit :=
  match a.findBlock "set_l3_present" modelId revision poolKind flat with
  | .error e => (a, .error e)
  | .ok (pk, pool, entry) =>
    let key : NamespaceKey := ⟨modelId, revision⟩
    let pool' := pool.setMeta flat entry { entry.blockMeta with l3Present := present }
    ((a.setPool key pk pool').emit (pool'.movedEvent key pk flat), .ok ())

def relocateInView (a : Authority B) (modelId revision : String) (poolKind : Int) (flat : Flat)
    (tier : Tier) (nodeId : String) (segmentId offset : Nat) : Authority B × Except Fault Unit :=
  match a.findBlock "relocate" modelId revision poolKind flat with
  | .error e => (a, .error e)
  | .ok (pk, pool, entry) =>
    let key : NamespaceKey := ⟨modelId, revision⟩
    let pool' := pool.relocate flat entry tier nodeId segmentId offset
    ((a.setPool key pk pool').emit (pool'.movedEvent key pk flat), .ok ())

def lookupPool (a : Authority B) (modelId revision : String) (poolKind : Int) : Option (PoolView B) :=
  match resolvePoolKind poolKind with
  | .error _ => none
  | .ok pk => a.pool? ⟨modelId, revision⟩ pk

/-- `lookup_prefix`: the blocks hit, their number, and whether all of the chain is local. -/
def lookupPrefix (a : Authority B) (modelId revision : String) (poolKind : Int)
    (prefixHashes : List Flat) (requester : String) : List ReusableBlock × Nat × Bool :=
  if prefixHashes = [] then ([], 0, false)
  else match a.lookupPool modelId revision poolKind with
    | none => ([], 0, false)
    | some pool =>
      let found := pool.lookupLoop requester (prefixHashes.zip (B.lineageFromPrefix prefixHashes))
      (found.1, found.1.length, found.2 && decide (0 < found.1.length))

/-- The touches `lookup_prefix` leaves behind in the frequency tracker. -/
def lookupTouch (a : Authority B) (modelId revision : String) (poolKind : Int)
    (prefixHashes : List Flat) (requester : String) : Authority B :=
  match resolvePoolKind poolKind with
  | .error _ => a
  | .ok pk =>
    match a.pool? ⟨modelId, revision⟩ pk with
    | none => a
    | some pool =>
      a.setPool ⟨modelId, revision⟩ pk (pool.touchHits
        (a.lookupPrefix modelId revision poolKind prefixHashes requester).2.1
        (B.lineageFromPrefix prefixHashes))

def locate (a : Authority B) (ids : List KvBlockId) : List BlockMeta :=
  ids.filterMap fun id =>
    match resolvePoolKind id.poolKind with
    | .error _ => none
    | .ok pk => (a.block? ⟨id.modelId, id.revision, pk, id.blockHash⟩).map Entry.blockMeta

end Authority

end LakeKv
