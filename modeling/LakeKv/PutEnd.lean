import LakeKv.Wire
import Mathlib

namespace LakeKv

structure RegisterBlocksRequest where
  nodeId : String
  blocks : List BlockMeta
  prefixHashes : List Flat

structure RequestBarrierRequest where
  requestId : String
  nodeId : String

/-- `ControlPlanePort`: what answers the calls of PutEnd, with the state it is in after each. -/
structure ControlPlanePort (P : Type) where
  admitRegisterBlocks : RegisterBlocksRequest → P → P × Except String Unit
  registerBlocks : RegisterBlocksRequest → P → P × Except String Unit
  reportRefs : List RefDelta → P → P × Except String Unit
  requestBarrier : RequestBarrierRequest → P → P × Except String Unit
  publishLocation (modelId revision : String) (poolKind : Int) (flat : Flat) (tier : Tier) (nodeId : String)
    (present : Bool) : P → P × Except String Unit
  setL3Present (modelId revision : String) (poolKind : Int) (flat : Flat) (present : Bool) :
    P → P × Except String Unit

/-- What PutEnd asks of the local tiers. `putDurable` gives the blocks it moved from L2 to L3. -/
structure TierStore (σ : Type) where
  putDurable : Flat → List UInt8 → σ → σ × Except String (List Flat)
  isSettled : σ → Flat → Bool
  isL2Durable : σ → Flat → Bool
  l2Placement : σ → Flat → Option (Nat × Nat)
  l3Present : σ → Flat → Bool
  pin : Flat → σ → σ
  unpin : Flat → σ → σ × Except String Unit
  discardSettled : Flat → σ → σ

structure PendingBlock where
  id : KvBlockId
  bytes : List UInt8
  durable : Bool

structure PutEndSession where
  requestId : String
  nodeId : String
  modelId : String
  revision : String
  prefixHashes : List Flat
  blocks : List PendingBlock
  writebackOpen : Bool
  registerHoldOpen : Bool

def blockKindTType : Int := 1

namespace PutEndSession

def withRevision (requestId nodeId modelId revision : String) : PutEndSession :=
  ⟨requestId, nodeId, modelId, revision, [], [], false, false⟩

def putStart (s : PutEndSession) (blockHash : Flat) (bytes : List UInt8) : PutEndSession :=
  { s with
    prefixHashes := s.prefixHashes ++ [blockHash]
    blocks := s.blocks ++ [⟨⟨s.modelId, blockHash, poolTarget, "public", s.revision⟩, bytes, false⟩] }

def registerRequest {σ : Type} (S : TierStore σ) (s : PutEndSession) (store : σ) : RegisterBlocksRequest where
  nodeId := s.nodeId
  blocks := s.blocks.map fun b =>
    let h := b.id.blockHash
    let slot := (S.l2Placement store h).getD (1, 0)
    { id := some b.id
      blockKind := blockKindTType
      locations := if S.isL2Durable store h then [⟨Tier.l2.toWire, s.nodeId, slot.1, slot.2⟩] else []
      l3Present := S.l3Present store h
      refCount := 0 }
  prefixHashes := s.prefixHashes

def refDeltas (s : PutEndSession) (kind : RefKind) (delta : Int) : List RefDelta :=
  s.blocks.map fun b => ⟨some b.id, kind.toWire, delta, s.nodeId⟩

def writebackDeltas (s : PutEndSession) (delta : Int) : List RefDelta :=
  s.refDeltas .writeback delta

def requestDeltas (s : PutEndSession) (delta : Int) : List RefDelta :=
  s.refDeltas .request delta

def allDurable (s : PutEndSession) : Bool :=
  s.blocks.all PendingBlock.durable

def poolKind (s : PutEndSession) : Int :=
  (s.blocks.head?.map fun b => b.id.poolKind).getD poolTarget

end PutEndSession

structure Committing (σ P : Type) where
  session : PutEndSession
  store : σ
  cp : P

/-- The code of `commit_through`; what it has done so far stays when it fails. -/
abbrev Commit (σ P : Type) := ExceptT String (StateM (Committing σ P))

def debugBytes (h : Flat) : String :=
  "[" ++ ", ".intercalate (h.map fun b => toString b.toNat) ++ "]"

namespace Commit

variable {σ P : Type} (S : TierStore σ) (C : ControlPlanePort P)

def session : Commit σ P PutEndSession := do
  return (← get).session

def modifySession (f : PutEndSession → PutEndSession) : Commit σ P Unit :=
  modify fun st => { st with session := f st.session }

def store : Commit σ P σ := do
  return (← get).store

def modifyStore (f : σ → σ) : Commit σ P Unit :=
  modify fun st => { st with store := f st.store }

def port (call : P → P × Except String Unit) : Commit σ P Unit := do
  let st ← get
  let answer := call st.cp
  set { st with cp := answer.1 }
  match answer.2 with
  | .ok () => return
  | .error e => throw e

def storeCall {α : Type} (call : σ → σ × Except String α) : Commit σ P α := do
  let st ← get
  let answer := call st.store
  set { st with store := answer.1 }
  match answer.2 with
  | .ok x => return x
  | .error e => throw e

def unpinAll : Commit σ P Unit := do
  let s ← session
  modifyStore fun store => s.blocks.foldl (fun store b => (S.unpin b.id.blockHash store).1) store

def discardSession : Commit σ P Unit := do
  let s ← session
  modifyStore fun store => s.blocks.foldl
    (fun store b => S.discardSettled b.id.blockHash (S.unpin b.id.blockHash store).1) store

def orUnpin (x : Commit σ P Unit) : Commit σ P Unit :=
  try x catch e => do
    unpinAll S
    throw e

def flushBlock (b : PendingBlock) (i : Nat) : Commit σ P (List Flat) := do
  let demoted ← storeCall (S.putDurable b.id.blockHash b.bytes)
  let durable := S.isSettled (← store) b.id.blockHash
  modifySession fun s => { s with blocks := s.blocks.modify i fun b => { b with durable } }
  unless durable do
    throw ("flush: block " ++ debugBytes b.id.blockHash ++ " not settled on L2|L3")
  return demoted

def flushDurable : Commit σ P (List Flat) := do
  let mut demotedAll := []
  for b in (← session).blocks.zipIdx do
    demotedAll := demotedAll ++ (← flushBlock S b.1 b.2)
  return demotedAll

def publishDemoted (demoted : List Flat) : Commit σ P Unit := do
  let s ← session
  for h in demoted do
    unless s.blocks.any fun b => b.id.blockHash == h do
      orUnpin S (port (C.publishLocation s.modelId s.revision s.poolKind h .l2 s.nodeId false))
      orUnpin S (port (C.setL3Present s.modelId s.revision s.poolKind h true))

/-- `RegisterBlocks`; when it fails, the bytes of the session go. -/
def registerBlocks : Commit σ P Unit := do
  let s ← session
  let req := s.registerRequest S (← store)
  try port (C.registerBlocks req) catch e => do
    discardSession S
    modifySession fun s => { s with blocks := s.blocks.map fun b => { b with durable := false } }
    throw e

/-- The control plane learns where the session's own blocks settled. -/
def publishSettled : Commit σ P Unit := do
  let s ← session
  let store ← store
  for b in s.blocks do
    let h := b.id.blockHash
    if S.l3Present store h then
      orUnpin S (port (C.setL3Present s.modelId s.revision s.poolKind h true))
    unless S.isL2Durable store h do
      orUnpin S (port (C.publishLocation s.modelId s.revision s.poolKind h .l2 s.nodeId false))

def releaseRegisterHold : Commit σ P Bool := do
  let s ← session
  if s.registerHoldOpen then
    try
      port (C.reportRefs (s.requestDeltas (-1)))
      modifySession fun s => { s with registerHoldOpen := false }
    catch _ => pure ()
  return !(← session).registerHoldOpen

def holdRegister : Commit σ P Unit := do
  let s ← session
  unless s.registerHoldOpen do
    orUnpin S (port (C.reportRefs (s.requestDeltas 1)))
    modifySession fun s => { s with registerHoldOpen := true }

def openWriteback : Commit σ P Unit := do
  let s ← session
  unless s.writebackOpen do
    try port (C.reportRefs (s.writebackDeltas 1)) catch e => do
      let _ ← releaseRegisterHold C
      unpinAll S
      throw e
    modifySession fun s => { s with writebackOpen := true }

/-- The barrier; when it fails, WRITEBACK is rolled back and the hold is kept. -/
def passBarrier : Commit σ P Unit := do
  let s ← session
  try port (C.requestBarrier ⟨s.requestId, s.nodeId⟩) catch e => do
    try
      port (C.reportRefs (s.writebackDeltas (-1)))
      modifySession fun s => { s with writebackOpen := false }
    catch rollbackErr => do
      unpinAll S
      throw (e ++ "; writeback rollback failed after barrier error: " ++ rollbackErr)
    unpinAll S
    throw (e ++ "; barrier failed — REQUEST register-hold retained, block frozen pending retry/discard")

/-- WRITEBACK −1 after the barrier; when it fails, the hold goes and WRITEBACK stays open. -/
def closeWriteback : Commit σ P Unit := do
  let s ← session
  if s.writebackOpen then
    try port (C.reportRefs (s.writebackDeltas (-1))) catch e => do
      let released ← releaseRegisterHold C
      unpinAll S
      let note := if released then ""
        else "; REQUEST register-hold release also failed: global_refs retains an additional +1"
      throw (e ++ "; barrier succeeded but WRITEBACK -1 failed: CP global_refs retains +1, " ++
        "pending node-level reconcile" ++ note)
    modifySession fun s => { s with writebackOpen := false }

def closeRegisterHold : Commit σ P Unit := do
  let s ← session
  if s.registerHoldOpen then
    try port (C.reportRefs (s.requestDeltas (-1))) catch e => do
      unpinAll S
      throw (e ++ "; register-hold release failed after barrier: CP global_refs retains +1, " ++
        "pending node-level reconcile")
    modifySession fun s => { s with registerHoldOpen := false }

end Commit

open Commit in
def commitThrough {σ P : Type} (S : TierStore σ) (C : ControlPlanePort P) : Commit σ P Unit := do
  let s ← session
  port (C.admitRegisterBlocks (s.registerRequest S (← store)))
  let demoted ← flushDurable S
  unless (← session).allDurable do throw "commit: not settled on L2|L3"
  modifyStore fun store => s.blocks.foldl (fun store b => S.pin b.id.blockHash store) store
  publishDemoted S C demoted
  registerBlocks S C
  publishSettled S C
  holdRegister S C
  openWriteback S C
  passBarrier S C
  closeWriteback S C
  closeRegisterHold S C
  for b in s.blocks do storeCall (S.unpin b.id.blockHash)

def Committing.attempt {σ P : Type} (S : TierStore σ) (C : ControlPlanePort P) (st : Committing σ P) :
    Committing σ P × Except String Unit :=
  let r := (commitThrough S C).run.run st
  (r.2, r.1)

end LakeKv
