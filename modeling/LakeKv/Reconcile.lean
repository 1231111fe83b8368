import LakeKv.Refs

namespace LakeKv

open Saturating

def defaultOrphanTtlMs : Nat := 30000

def i32Max : Int := 2147483647

structure GcPass (B : Backend) where
  pool : PoolView B
  stripped : List KvBlockId
  fullRemove : List (B.Seq × Flat × KvBlockId)
  reinsert : List (B.Seq × BlockId)
  events : List ViewEvent

def peelLocations (locations : List Location) : List Location :=
  locations.filter fun l => l.tier ≠ Tier.l0.toWire ∧ l.tier ≠ Tier.l1.toWire

def durable (m : BlockMeta) : Bool :=
  hasTier m.locations .l2 || m.l3Present

namespace PoolView

variable {B : Backend}

/-- Strip L0 and L1 off one block, with the markers that go with them. -/
def peel (p : PoolView B) (flat : Flat) (seq : B.Seq) (entry : Entry B) : PoolView B :=
  let p0 := if hasTier entry.blockMeta.locations .l0 then p.markAbsent seq .tierL0 else p
  let p1 := if hasTier entry.blockMeta.locations .l1 then p0.markAbsent seq .tierL1 else p0
  p1.setMeta flat entry { entry.blockMeta with locations := peelLocations entry.blockMeta.locations }

def removeCold (p : PoolView B) (seq : B.Seq) (flat : Flat) (entry : Entry B) : PoolView B :=
  forgetPlacement { p with
    byFlat := p.byFlat.erase flat
    handles := p.handles.erase seq
    globalRefs := p.globalRefs.erase seq
    seqToFlat := p.seqToFlat.erase seq
    inactive := (B.take p.inactive seq entry.blockId).2 } flat

def reinsertCold (p : PoolView B) (v : B.Seq × BlockId) : PoolView B :=
  if 0 < (p.refsOf v.1).total then p
  else if !B.has p.inactive v.1 && decide (B.len p.inactive < p.inactiveCap) then
    { p with inactive := B.insert p.inactive v.1 v.2 }
  else p

/-- Strip the L0 locations of a dead node off one block. -/
def stripFlat (key : NamespaceKey) (pk : Int) (nodeId : String) (p : PoolView B) (flat : Flat) :
    PoolView B × List ViewEvent :=
  match p.byFlat.lookup flat with
  | none => (p, [])
  | some e =>
    if !hasTierOn e.blockMeta.locations .l0 nodeId then (p, [])
    else
      let m := { e.blockMeta with
        locations := e.blockMeta.locations.filter fun l =>
          ¬(l.tier = Tier.l0.toWire ∧ l.nodeId = nodeId) }
      ((p.setMeta flat e m).markAbsent e.seqHash .tierL0,
        [upsertEvent .moved (publicId key pk flat) m.locations m.l3Present 0])

def stripFlats (key : NamespaceKey) (pk : Int) (nodeId : String) (p : PoolView B) :
    List Flat → PoolView B × List ViewEvent
  | [] => (p, [])
  | f :: fs =>
    let one := stripFlat key pk nodeId p f
    let rest := stripFlats key pk nodeId one.1 fs
    (rest.1, one.2 ++ rest.2)

def clearNodeMarks (p : PoolView B) (nodeId : String) : PoolView B :=
  { p with placementMarks := p.placementMarks.filter fun m => m.2 ≠ nodeId }

def stripNode (key : NamespaceKey) (pk : Int) (nodeId : String) (p : PoolView B) :
    PoolView B × List ViewEvent :=
  let stripped := stripFlats key pk nodeId p (B.flatOrder p.byFlat.keys)
  (stripped.1.clearNodeMarks nodeId, stripped.2)

end PoolView

namespace GcPass

variable {B : Backend}

def victim (key : NamespaceKey) (pk : Int) (g : GcPass B) (v : B.Seq × BlockId) : GcPass B :=
  if 0 < (g.pool.refsOf v.1).total then g
  else match g.pool.seqToFlat.lookup v.1 with
    | none => g
    | some flat =>
      match g.pool.byFlat.lookup flat with
      | none => g
      | some entry =>
        let id := entry.blockMeta.id.getD (publicId key pk flat)
        let pool := g.pool.peel flat v.1 entry
        if durable entry.blockMeta then
          { g with
            pool := pool
            events := g.events ++ [upsertEvent .moved id (peelLocations entry.blockMeta.locations)
              entry.blockMeta.l3Present 0]
            stripped := g.stripped ++ [id]
            reinsert := g.reinsert ++ [v] }
        else { g with pool := pool, fullRemove := g.fullRemove ++ [(v.1, flat, id)] }

/-- The second loop of `gc_cold`: the pool, the events and the identities discarded. -/
def removeAll (p : PoolView B) : List (B.Seq × Flat × KvBlockId) → PoolView B × List KvBlockId
  | [] => (p, [])
  | r :: rs =>
    match p.byFlat.lookup r.2.1 with
    | none => removeAll p rs
    | some entry =>
      let rest := removeAll (p.removeCold r.1 r.2.1 entry) rs
      (rest.1, r.2.2 :: rest.2)

def collect (key : NamespaceKey) (pk : Int) (p : PoolView B) (n : Nat) : GcPass B :=
  let victims := B.allocate p.inactive n
  victims.1.foldl (victim key pk) ⟨{ p with inactive := victims.2 }, [], [], [], []⟩

end GcPass

structure GcOutcome (B : Backend) where
  pool : PoolView B
  stripped : List KvBlockId
  discarded : List KvBlockId
  events : List ViewEvent

def PoolView.gcCold {B : Backend} (key : NamespaceKey) (pk : Int) (p : PoolView B) (n : Nat) :
    GcOutcome B :=
  let pass := GcPass.collect key pk p n
  let removed := GcPass.removeAll pass.pool pass.fullRemove
  { pool := pass.reinsert.foldl PoolView.reinsertCold removed.1
    stripped := pass.stripped
    discarded := removed.2
    events := pass.events ++ removed.2.map invalidatedEvent }

namespace Authority

variable {B : Backend}

def blockInView (a : Authority B) (k : BlockKey) : Bool :=
  let pk := match resolvePoolKind k.poolKind with
    | .ok pk => pk
    | .error _ => poolTarget
  ((a.pool? k.ns pk).map fun p => decide (k.flat ∈ p.byFlat)).getD false

def reportOrphan (nowMs : Nat) (r : OrphanReport) (a : Authority B) (id : KvBlockId) : Authority B :=
  let k := BlockKey.fromId id
  if a.blockInView k then { a with orphans := a.orphans.erase k }
  else
    let stamped := if r.markedAtMs = 0 then nowMs else r.markedAtMs
    { a with orphans := a.orphans.insert k ⟨k.toId, r.nodeId, stamped⟩ }

def reportOrphans (a : Authority B) (nowMs : Nat) (reports : List OrphanReport) : Authority B :=
  reports.foldl (fun a r => r.ids.foldl (reportOrphan nowMs r) a) a

/-- `discard_one`: whether a block was removed. The event carries the identity as it was asked for. -/
def discardOne (a : Authority B) (id : KvBlockId) : Authority B × Except Fault Bool :=
  match resolvePoolKind id.poolKind with
  | .error e => (a, .error (.err e))
  | .ok pk =>
    let key := NamespaceKey.fromId id
    match a.namespaces.lookup key with
    | none => (a, .ok false)
    | some ns =>
      match ns.pools.lookup pk with
      | none => (a, .ok false)
      | some pool =>
        match pool.byFlat.lookup id.blockHash with
        | none => ({ a with orphans := a.orphans.erase (.fromId id) }, .ok false)
        | some entry =>
          if 0 < (pool.refsOf entry.seqHash).total then
            (a, .error (.err "DiscardBlocks: block has global_refs > 0"))
          else
            let ns' := { ns.setPool pk (pool.discardEntry id.blockHash entry) with
              usedBytes := max (i64 (ns.usedBytes - ns.bytesPerBlock)) 0 }
            (({ a.setNs key ns' with
              orphans := a.orphans.erase (.fromId id)
              nodeRefs := a.nodeRefs.mapVal fun _ (held : Map BlockKey RefAccounts) =>
                held.erase (.fromId id) }).emit
                [invalidatedEvent id], .ok true)

def discardBlocks (a : Authority B) : List KvBlockId → Authority B × Except Fault (List KvBlockId)
  | [] => (a, .ok [])
  | id :: ids =>
    match a.discardOne id with
    | (a', .error e) => (a', .error e)
    | (a', .ok removed) =>
      match a'.discardBlocks ids with
      | (a'', .error e) => (a'', .error e)
      | (a'', .ok out) => (a'', .ok (if removed then id :: out else out))

def gcCold (a : Authority B) (modelId revision : String) (poolKind : Int) (n : Nat) :
    Authority B × Except Fault (List KvBlockId × List KvBlockId) :=
  let key : NamespaceKey := ⟨modelId, revision⟩
  if n = 0 then (a, .ok ([], []))
  else match resolvePoolKind poolKind with
    | .error e => (a, .error (.err e))
    | .ok pk =>
      match a.namespaces.lookup key with
      | none => (a, .error (unknownNamespace "gc_cold: " key))
      | some ns =>
        match ns.pools.lookup pk with
        | none => (a, .ok ([], []))
        | some pool =>
          let done := pool.gcCold key pk n
          let ns' := { ns.setPool pk done.pool with
            usedBytes := done.discarded.foldl (fun used _ => max (i64 (used - ns.bytesPerBlock)) 0) ns.usedBytes }
          let a' := (a.setNs key ns').emit done.events
          ({ a' with orphans := done.discarded.foldl (fun o id => o.erase (.fromId id)) a'.orphans },
            .ok (done.stripped, done.discarded))

/-- Undo a dead node's references of one kind to one block, at most `i32::MAX` in a step; the
block may be gone, so what `report_ref_raw` answers is not looked at. -/
def clearRef (a : Authority B) (k : BlockKey) (kind : RefKind) : Nat → Int → Authority B
  | 0, _ => a
  | fuel + 1, remaining =>
    if remaining ≤ 0 then a
    else
      let step := min remaining i32Max
      (a.reportRefRaw ⟨some k.toId, kind.toWire, -step, ""⟩ false).1.clearRef k kind fuel
        (remaining - step)

/-- Both ledgers of one row; every step clears at least one reference. -/
def clearRow (a : Authority B) (k : BlockKey) (row : RefAccounts) : Authority B :=
  (a.clearRef k .request row.request.toNat row.request).clearRef k .writeback row.writeback.toNat
    row.writeback

def clearHeld (a : Authority B) (held : Map BlockKey RefAccounts) : List BlockKey → Authority B
  | [] => a
  | k :: ks =>
    let row := (held.lookup k).getD .zero
    (if row.total = 0 then a else a.clearRow k row).clearHeld held ks

def heldCount (held : Map BlockKey RefAccounts) : Nat :=
  (held.keys.filter fun k => ((held.lookup k).getD .zero).total ≠ 0).card

def stripPools (key : NamespaceKey) (nodeId : String) (ns : Namespace B) :
    List Int → Namespace B × List ViewEvent
  | [] => (ns, [])
  | pk :: pks =>
    match ns.pools.lookup pk with
    | none => stripPools key nodeId ns pks
    | some pool =>
      let one := pool.stripNode key pk nodeId
      let rest := stripPools key nodeId (ns.setPool pk one.1) pks
      (rest.1, one.2 ++ rest.2)

def stripNamespaces (a : Authority B) (nodeId : String) : List NamespaceKey → Authority B × List ViewEvent
  | [] => (a, [])
  | key :: keys =>
    match a.namespaces.lookup key with
    | none => a.stripNamespaces nodeId keys
    | some ns =>
      let one := stripPools key nodeId ns (B.poolOrder ns.pools.keys)
      let rest := (a.setNs key one.1).stripNamespaces nodeId keys
      (rest.1, one.2 ++ rest.2)

def reconcileDeadNode (a : Authority B) (nodeId : String) :
    Authority B × Except Fault (Nat × List KvBlockId) :=
  if nodeId.isEmpty then (a, .error (.err "reconcile_dead_node: node_id required"))
  else
    let held := (a.nodeRefs.lookup nodeId).getD ∅
    let cleared := { a with nodeRefs := a.nodeRefs.erase nodeId }.clearHeld held (B.blockOrder held.keys)
    let stripped := cleared.stripNamespaces nodeId (B.namespaceOrder cleared.namespaces.keys)
    (stripped.1.emit stripped.2, .ok (heldCount held, stripped.2.filterMap ViewEvent.id))

/-- One expired orphan: a registered block only loses its mark. -/
def sweepOrphan (a : Authority B) (k : BlockKey) : Authority B × List KvBlockId :=
  if a.blockInView k then ({ a with orphans := a.orphans.erase k }, [])
  else match a.discardOne k.toId with
    | (a', .ok true) => (a', [k.toId])
    | (a', _) => ({ a' with orphans := a'.orphans.erase k }, [k.toId])

def sweepExpired (a : Authority B) : List BlockKey → Authority B × List KvBlockId
  | [] => (a, [])
  | k :: ks =>
    let one := a.sweepOrphan k
    let rest := one.1.sweepExpired ks
    (rest.1, one.2 ++ rest.2)

def sweepOrphans (a : Authority B) (nowMs ttlMs : Nat) : Authority B × List KvBlockId :=
  let ttl := if ttlMs = 0 then defaultOrphanTtlMs else ttlMs
  a.sweepExpired ((B.blockOrder a.orphans.keys).filter fun k =>
    ((a.orphans.lookup k).map fun e => decide (ttl ≤ nowMs - e.markedAtMs)).getD false)

/-- `reconcile_orphans`, with the clock readings of its report and of its sweep. -/
def reconcileOrphans (a : Authority B) (nowReport nowSweep : Nat) (req : ReconcileOrphansRequest) :
    Authority B × Except Fault (List KvBlockId × List KvBlockId × Nat) :=
  let swept := (a.reportOrphans nowReport req.reports).sweepOrphans nowSweep req.orphanTtlMs
  let dead : Authority B × Except Fault (Nat × List KvBlockId) :=
    if req.deadNodeId.isEmpty then (swept.1, .ok (0, []))
    else swept.1.reconcileDeadNode req.deadNodeId
  match dead with
  | (a', .error e) => (a', .error e)
  | (a', .ok (refsCleared, _)) =>
    if 0 < req.gcColdLimit ∧ ¬req.gcModelId.isEmpty then
      match a'.gcCold req.gcModelId req.gcRevision req.gcPoolKind req.gcColdLimit with
      | (a'', .error e) => (a'', .error e)
      | (a'', .ok (strip, full)) => (a'', .ok (swept.2 ++ full, strip, refsCleared))
    else (a', .ok (swept.2, [], refsCleared))

end Authority

end LakeKv
