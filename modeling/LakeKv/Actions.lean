import LakeKv.Operations

namespace LakeKv

open Saturating

/-- What a call does to one pool, with the stored block it acts on. -/
inductive PoolAction (B : Backend)
  | evict (n : Nat)
  | register (b : PlacedBlock B)
  | discard (flat : Flat) (e : Entry B)
  | gcCold (key : NamespaceKey) (pk : Int) (n : Nat)
  | setRef (flat : Flat) (e : Entry B) (kind : RefKind) (value : Int)
  | touchRefs (flat : Flat) (e : Entry B)
  | strip (key : NamespaceKey) (pk : Int) (nodeId : String) (flat : Flat)
  | clearMarks (nodeId : String)
  | publish (flat : Flat) (e : Entry B) (tier : Tier) (nodeId : String) (segmentId offset : Nat)
      (present : Bool)
  | setL3 (flat : Flat) (e : Entry B) (present : Bool)
  | relocate (flat : Flat) (e : Entry B) (tier : Tier) (nodeId : String) (segmentId offset : Nat)
  | touchHits (hits : Nat) (lineage : List B.Seq)
  | markPlaced (home : String) (plan : List KvBlockId)
  | recordHit (flat : Flat) (nodeId : String)

namespace PoolAction

variable {B : Backend}

def apply (p : PoolView B) : PoolAction B → PoolView B
  | evict n => (p.dropInactiveVictims n).1
  | register b => p.registerPlaced b
  | discard flat e => p.discardEntry flat e
  | gcCold key pk n => (p.gcCold key pk n).pool
  | setRef _ e kind value => p.setRef e.seqHash e.blockId kind value
  | touchRefs _ e => p.touchRefs e.seqHash
  | strip key pk nodeId flat => (PoolView.stripFlat key pk nodeId p flat).1
  | clearMarks nodeId => p.clearNodeMarks nodeId
  | publish flat e tier nodeId seg off present => p.publish flat e tier nodeId seg off present
  | setL3 flat e present => p.setMeta flat e { e.blockMeta with l3Present := present }
  | relocate flat e tier nodeId seg off => p.relocate flat e tier nodeId seg off
  | touchHits hits lineage => p.touchHits hits lineage
  | markPlaced home plan => p.markPlaced home plan
  | recordHit flat nodeId => p.recordHit flat nodeId

/-- What the code has checked when it acts. -/
def Guard (p : PoolView B) : PoolAction B → Prop
  | discard flat e => p.byFlat.lookup flat = some e ∧ (p.refsOf e.seqHash).total ≤ 0
  | setRef flat e kind value =>
    p.byFlat.lookup flat = some e ∧ 0 ≤ value ∧ (kind = .request ∨ kind = .writeback)
  | touchRefs flat e => p.byFlat.lookup flat = some e
  | publish flat e _ _ _ _ _ => p.byFlat.lookup flat = some e ∧ e.seqHash ∈ p.handles
  | setL3 flat e _ => p.byFlat.lookup flat = some e
  | relocate flat e _ _ _ _ => p.byFlat.lookup flat = some e
  | markPlaced _ plan => ∀ id ∈ plan, ∃ flat e, p.byFlat.lookup flat = some e ∧
      (e.blockMeta.id = some id ∨ id.blockHash = flat)
  | recordHit flat _ => flat ∈ p.byFlat
  | _ => True

/-- Whether an action leaves the set of registered blocks as it is. -/
def quiet : PoolAction B → Bool
  | evict _ => false
  | register _ => false
  | discard _ _ => false
  | gcCold _ _ _ => false
  | _ => true

def events (key : NamespaceKey) (pk : Int) (p : PoolView B) : PoolAction B → List ViewEvent
  | strip key pk nodeId flat => (PoolView.stripFlat key pk nodeId p flat).2
  | publish flat e tier nodeId seg off present =>
    if present || hasTierOn e.blockMeta.locations tier nodeId then
      (p.publish flat e tier nodeId seg off present).movedEvent key pk flat
    else []
  | setL3 flat e present =>
    (p.setMeta flat e { e.blockMeta with l3Present := present }).movedEvent key pk flat
  | relocate flat e tier nodeId seg off =>
    (p.relocate flat e tier nodeId seg off).movedEvent key pk flat
  | _ => []

end PoolAction

/-- What a call does to one namespace. The last three are no changes of a namespace that is there:
a namespace comes, it goes, or the node ledgers of its blocks change. -/
inductive NsAction (B : Backend)
  | pool (pk : Int) (act : PoolAction B)
  | evictInactive (n : Nat)
  | evictPool (pk : Int) (n : Nat)
  | registerAll (pk : Int) (placed : List (PlacedBlock B))
  | discard (pk : Int) (id : KvBlockId) (e : Entry B)
  | gcCold (key : NamespaceKey) (pk : Int) (n : Nat)
  | setQuota (quota : Option Quota)
  | create (desc : ModelDescriptor)
  | remove
  | ledger

namespace NsAction

variable {B : Backend}

def apply (ns : Namespace B) : NsAction B → Namespace B
  | pool pk act => ns.setPool pk (act.apply (ns.poolMut pk))
  | evictInactive n => (ns.evictInactiveN n).1
  | evictPool pk n =>
    let dropped := (ns.poolMut pk).dropInactiveVictims n
    { ns.setPool pk dropped.1 with
      usedBytes := max (i64 (ns.usedBytes - dropped.2.length * ns.bytesPerBlock)) 0 }
  | registerAll pk placed =>
    let done := (ns.poolMut pk).registerAll placed
    { ns.setPool pk done.1 with usedBytes := satAdd ns.usedBytes (i64 (done.2.2 * ns.bytesPerBlock)) }
  | discard pk id e =>
    { ns.setPool pk ((ns.poolMut pk).discardEntry id.blockHash e) with
      usedBytes := max (i64 (ns.usedBytes - ns.bytesPerBlock)) 0 }
  | gcCold key pk n =>
    let done := (ns.poolMut pk).gcCold key pk n
    { ns.setPool pk done.pool with
      usedBytes := done.discarded.foldl (fun used _ => max (i64 (used - ns.bytesPerBlock)) 0) ns.usedBytes }
  | setQuota q => { ns with descriptor := { ns.descriptor with quota := q } }
  | _ => ns

def Guard (key : NamespaceKey) (ns : Namespace B) : NsAction B → Prop
  | pool pk act => act.quiet = true ∧ ∃ p, ns.pools.lookup pk = some p ∧ act.Guard p
  | evictPool pk _ => pk ∈ ns.pools
  | discard pk id e => ∃ p, ns.pools.lookup pk = some p ∧ (PoolAction.discard id.blockHash e).Guard p ∧
      resolvePoolKind id.poolKind = .ok pk ∧ key = .fromId id
  | gcCold key' pk _ => key' = key ∧ pk ∈ ns.pools
  | setQuota q => q.elim (.ok ()) validateQuota = .ok ()
  | create _ => False
  | remove => False
  | ledger => False
  | _ => True

def events (key : NamespaceKey) (ns : Namespace B) : NsAction B → List ViewEvent
  | pool pk act => act.events key pk (ns.poolMut pk)
  | evictInactive n => invalidatedEventsFor key (ns.evictInactiveN n).2
  | evictPool pk n => invalidatedEventsFor key
      (((ns.poolMut pk).dropInactiveVictims n).2.map fun r => (pk, r.1, r.2))
  | registerAll pk placed => ((ns.poolMut pk).registerAll placed).2.1
  | discard _ id _ => [invalidatedEvent id]
  | gcCold key pk n => ((ns.poolMut pk).gcCold key pk n).events
  | _ => []

end NsAction

namespace Authority

variable {B : Backend}

/-- Two states that differ in nothing the blocks, their references and the view depend on. -/
structure SameView (a b : Authority B) : Prop where
  namespaces : b.namespaces = a.namespaces
  inactiveCap : b.inactiveCap = a.inactiveCap
  nodeRefs : b.nodeRefs = a.nodeRefs
  viewLog : b.viewLog = a.viewLog
  pending : b.pendingViewEvents = a.pendingViewEvents

/-- The states an authority gets to by actions on its namespaces, each of which `may` allows. -/
inductive Run (may : NamespaceKey → NsAction B → Prop) (a : Authority B) : Authority B → Prop
  | refl : Run may a a
  | act {b : Authority B} {key : NamespaceKey} {ns : Namespace B} (prior : Run may a b)
      (x : NsAction B) (found : b.namespaces.lookup key = some ns) (allowed : may key x)
      (guard : x.Guard key ns) :
      Run may a ((b.setNs key (x.apply ns)).emit (x.events key ns))
  | add {b : Authority B} {desc : ModelDescriptor} (prior : Run may a b)
      (fresh : b.namespaces.lookup ⟨desc.modelId, desc.revision⟩ = none)
      (allowed : may ⟨desc.modelId, desc.revision⟩ (.create desc)) (named : desc.modelId.isEmpty = false)
      (valid : desc.quota.elim (.ok ()) validateQuota = .ok ()) :
      Run may a (b.setNs ⟨desc.modelId, desc.revision⟩ (Namespace.new B desc b.inactiveCap))
  | remove {b : Authority B} {key : NamespaceKey} {ns : Namespace B} (prior : Run may a b)
      (found : b.namespaces.lookup key = some ns) (allowed : may key .remove) :
      Run may a ({ b with namespaces := b.namespaces.erase key }.emit (namespaceGone key ns))
  | ledger {b : Authority B} {key : NamespaceKey} (prior : Run may a b) (allowed : may key .ledger)
      (rows : Map String (Map BlockKey RefAccounts)) : Run may a { b with nodeRefs := rows }
  | frame {b c : Authority B} (prior : Run may a b) (same : SameView b c) : Run may a c

namespace Run

variable {may may' : NamespaceKey → NsAction B → Prop} {a b c : Authority B}

theorem trans (h : Run may a b) (h' : Run may b c) : Run may a c := by
  induction h' with
  | refl => exact h
  | act _ x found allowed guard ih => exact ih.act x found allowed guard
  | add _ fresh allowed named valid ih => exact ih.add fresh allowed named valid
  | remove _ found allowed ih => exact ih.remove found allowed
  | ledger _ allowed rows ih => exact ih.ledger allowed rows
  | frame _ same ih => exact ih.frame same

theorem mono (le : ∀ key act, may key act → may' key act) (h : Run may a b) : Run may' a b := by
  induction h with
  | refl => exact refl
  | act _ x found allowed guard ih => exact ih.act x found (le _ _ allowed) guard
  | add _ fresh allowed named valid ih => exact ih.add fresh (le _ _ allowed) named valid
  | remove _ found allowed ih => exact ih.remove found (le _ _ allowed)
  | ledger _ allowed rows ih => exact ih.ledger (le _ _ allowed) rows
  | frame _ same ih => exact ih.frame same

theorem namespaces {I : NamespaceKey → Namespace B → Prop}
    (new : ∀ desc cap, may ⟨desc.modelId, desc.revision⟩ (.create desc) → desc.modelId.isEmpty = false →
      desc.quota.elim (.ok ()) validateQuota = .ok () → I ⟨desc.modelId, desc.revision⟩ (Namespace.new B desc cap))
    (keep : ∀ key ns act, may key act → act.Guard key ns → I key ns → I key (act.apply ns))
    (h : Run may a b) (base : ∀ key ns, a.namespaces.lookup key = some ns → I key ns) :
    ∀ key ns, b.namespaces.lookup key = some ns → I key ns := by
  induction h with
  | refl => exact base
  | @act b key ns _ x found allowed guard ih =>
    intro k n hk
    rw [emit, setNs, Finmap.lookup_insert_if] at hk
    split at hk
    next he =>
      cases hk
      exact he ▸ keep key ns x allowed guard (ih key ns found)
    · exact ih k n hk
  | add _ fresh allowed named valid ih =>
    intro k n hk
    rw [setNs, Finmap.lookup_insert_if] at hk
    split at hk
    next he =>
      cases hk
      exact he ▸ new _ _ allowed named valid
    · exact ih k n hk
  | remove _ found _ ih =>
    intro k n hk
    rw [emit, Finmap.lookup_erase_if] at hk
    split at hk
    · simp at hk
    · exact ih k n hk
  | ledger _ _ _ ih => exact ih
  | frame _ same ih =>
    intro k n hk
    rw [same.namespaces] at hk
    exact ih k n hk

end Run

end Authority

end LakeKv
