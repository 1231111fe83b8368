import LakeKv.Backend
import LakeKv.Quota
import LakeKv.ViewLog

namespace LakeKv

/-- `authority::RefAccounts`: the references to a block, by kind. -/
structure RefAccounts where
  request : Int
  writeback : Int
  deriving DecidableEq, Repr

namespace RefAccounts

def zero : RefAccounts := ⟨0, 0⟩

def total (r : RefAccounts) : Int :=
  r.request + r.writeback

/-- The other kinds never get here: `resolve_ref_kind` refuses them. -/
def bucket (r : RefAccounts) : RefKind → Int
  | .request => r.request
  | .writeback => r.writeback
  | _ => 0

def setBucket (r : RefAccounts) (kind : RefKind) (value : Int) : RefAccounts :=
  match kind with
  | .request => { r with request := value }
  | .writeback => { r with writeback := value }
  | _ => r

end RefAccounts

inductive Marker
  | tierL0
  | tierL1
  | tierL2
  deriving DecidableEq, Repr

def Marker.tier : Marker → Tier
  | tierL0 => .l0
  | tierL1 => .l1
  | tierL2 => .l2

/-- The marker a location's raw tier stands for. -/
def Marker.ofWire? (tier : Int) : Option Marker :=
  if tier = Tier.l0.toWire then some tierL0
  else if tier = Tier.l1.toWire then some tierL1
  else if tier = Tier.l2.toWire then some tierL2
  else none

/-- `BlockRegistrationHandle`, as far as its presence counters go. The registry's weak entry of
a lineage hash is alive exactly while the pool's `handles` has it. -/
structure Handle where
  presence : Marker → Nat

namespace Handle

def new : Handle := ⟨fun _ => 0⟩

def markPresent (h : Handle) (m : Marker) : Handle :=
  ⟨Function.update h.presence m (h.presence m + 1)⟩

/-- A counter at zero stays there in a release build; a debug build stops at the assertion. -/
def markAbsent (h : Handle) (m : Marker) : Handle :=
  ⟨Function.update h.presence m (h.presence m - 1)⟩

def markLocations (h : Handle) (locations : List Location) : Handle :=
  locations.foldl (fun h loc => (Marker.ofWire? loc.tier).elim h h.markPresent) h

end Handle

structure Entry (B : Backend) where
  seqHash : B.Seq
  blockMeta : BlockMeta
  blockId : BlockId
  prefixChain : List Flat

structure PoolView (B : Backend) where
  handles : Map B.Seq Handle
  byFlat : Map Flat (Entry B)
  seqToFlat : Map B.Seq Flat
  inactive : B.Index
  inactiveCap : Nat
  globalRefs : Map B.Seq RefAccounts
  hitCounts : Map Flat (Map String Nat)
  placementMarks : Finset (Flat × String)
  nextBlockId : BlockId
  /-- Whether the assertion of `mark_absent` has ever failed on this pool. -/
  absentAtZero : Bool

def publicId (key : NamespaceKey) (poolKind : Int) (flat : Flat) : KvBlockId :=
  ⟨key.modelId, flat, poolKind, "public", key.revision⟩

def hasTier (locations : List Location) (t : Tier) : Bool :=
  locations.any fun l => l.tier == t.toWire

def hasTierOn (locations : List Location) (t : Tier) (nodeId : String) : Bool :=
  locations.any fun l => l.tier == t.toWire && l.nodeId == nodeId

namespace PoolView

variable {B : Backend} (p : PoolView B) (seq : B.Seq) (blockId : BlockId)

def new (B : Backend) (inactiveCap : Nat) : PoolView B where
  handles := ∅
  byFlat := ∅
  seqToFlat := ∅
  inactive := B.withFrequency (max inactiveCap 1)
  inactiveCap := max inactiveCap 1
  globalRefs := ∅
  hitCounts := ∅
  placementMarks := ∅
  nextBlockId := 1
  absentAtZero := false

def refsOf (p : PoolView B) (seq : B.Seq) : RefAccounts :=
  (p.globalRefs.lookup seq).getD .zero

def markAbsent (p : PoolView B) (seq : B.Seq) (m : Marker) : PoolView B :=
  match p.handles.lookup seq with
  | none => p
  | some h => { p with
      handles := p.handles.insert seq (h.markAbsent m)
      absentAtZero := p.absentAtZero || h.presence m == 0 }

@[simp] theorem markAbsent_byFlat (p : PoolView B) (seq : B.Seq) (m : Marker) :
    (p.markAbsent seq m).byFlat = p.byFlat := by
  unfold markAbsent
  split <;> rfl

/-- Hotness and placement marks of a block that is gone. -/
def forgetPlacement (p : PoolView B) (flat : Flat) : PoolView B :=
  { p with
    hitCounts := p.hitCounts.erase flat
    placementMarks := p.placementMarks.filter fun m => m.1 ≠ flat }

def dropVictim (p : PoolView B) (seq : B.Seq) : PoolView B × List (B.Seq × Flat) :=
  if 0 < (p.refsOf seq).total then (p, [])
  else
    let dropped := { p with handles := p.handles.erase seq, globalRefs := p.globalRefs.erase seq }
    match p.seqToFlat.lookup seq with
    | none => (dropped, [])
    | some flat =>
      (forgetPlacement { dropped with
        seqToFlat := p.seqToFlat.erase seq
        byFlat := p.byFlat.erase flat } flat, [(seq, flat)])

def dropVictims (p : PoolView B) : List (B.Seq × BlockId) → PoolView B × List (B.Seq × Flat)
  | [] => (p, [])
  | v :: vs =>
    let one := p.dropVictim v.1
    let rest := one.1.dropVictims vs
    (rest.1, one.2 ++ rest.2)

def dropInactiveVictims (p : PoolView B) (n : Nat) : PoolView B × List (B.Seq × Flat) :=
  let victims := B.allocate p.inactive n
  { p with inactive := victims.2 }.dropVictims victims.1

/-- What the loop of `register` does to the pool for one block: `chain` is the prefix up to the
block and `seq` its lineage hash. A lineage hash that was not registered counts as a touch. -/
def registerBlock (p : PoolView B) (flat : Flat) (seq : B.Seq) (chain : List Flat)
    (m : BlockMeta) : PoolView B :=
  { p with
    inactive := if seq ∈ p.handles then p.inactive else B.touch p.inactive seq
    handles := p.handles.insert seq (((p.handles.lookup seq).getD .new).markLocations m.locations)
    seqToFlat := p.seqToFlat.insert seq flat
    byFlat := p.byFlat.insert flat
      { seqHash := seq
        blockMeta := m
        blockId := ((p.byFlat.lookup flat).map Entry.blockId).getD p.nextBlockId
        prefixChain := chain }
    nextBlockId := if flat ∈ p.byFlat then p.nextBlockId else p.nextBlockId + 1 }

/-- The part of `report_ref_raw` behind `before_total` and `after_total`: a block enters the
inactive index when its last reference goes and leaves it when its first one comes. -/
def settleInactive (p : PoolView B) (seq : B.Seq) (blockId : BlockId) (before after : Int) : PoolView B :=
  if 0 < before ∧ after = 0 then
    if !B.has p.inactive seq && decide (B.len p.inactive < p.inactiveCap) then
      { p with inactive := B.insert p.inactive seq blockId }
    else p
  else if before = 0 ∧ 0 < after then { p with inactive := (B.take p.inactive seq blockId).2 }
  else p

def setRef (p : PoolView B) (seq : B.Seq) (blockId : BlockId) (kind : RefKind) (value : Int) : PoolView B :=
  let accounts := (p.refsOf seq).setBucket kind value
  { p with globalRefs := p.globalRefs.insert seq accounts }.settleInactive seq blockId
    (p.refsOf seq).total accounts.total

theorem settleInactive_eq (before after : Int) :
    p.settleInactive seq blockId before after =
      { p with inactive := (p.settleInactive seq blockId before after).inactive } := by
  unfold settleInactive
  split
  · split <;> rfl
  · split <;> rfl

theorem setRef_eq (kind : RefKind) (value : Int) :
    p.setRef seq blockId kind value = { p with
      globalRefs := p.globalRefs.insert seq ((p.refsOf seq).setBucket kind value)
      inactive := (p.setRef seq blockId kind value).inactive } := by
  unfold setRef
  dsimp only
  rw [settleInactive_eq]

def touchRefs (p : PoolView B) (seq : B.Seq) : PoolView B :=
  { p with globalRefs := p.globalRefs.insert seq (p.refsOf seq) }

def discardEntry (p : PoolView B) (flat : Flat) (entry : Entry B) : PoolView B :=
  { p with
    byFlat := p.byFlat.erase flat
    handles := p.handles.erase entry.seqHash
    globalRefs := p.globalRefs.erase entry.seqHash
    seqToFlat := p.seqToFlat.erase entry.seqHash
    inactive := (B.take p.inactive entry.seqHash entry.blockId).2 }

def setMeta (p : PoolView B) (flat : Flat) (entry : Entry B) (m : BlockMeta) : PoolView B :=
  { p with byFlat := p.byFlat.insert flat { entry with blockMeta := m } }

end PoolView

end LakeKv
