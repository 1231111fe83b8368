import LakeKv.TierRuns

namespace LakeKv

/-- `BandwidthPool`: the bytes that may still be moved in the window. -/
structure BandwidthPool where
  windowBytes : Nat
  remaining : Nat
  paused : Bool

namespace BandwidthPool

def new (windowBytes : Nat) : BandwidthPool :=
  ⟨windowBytes, windowBytes, false⟩

def tryConsume (p : BandwidthPool) (bytes : Nat) : BandwidthPool × Bool :=
  if p.paused then (p, false)
  else if p.remaining < bytes then (p, false)
  else ({ p with remaining := p.remaining - bytes }, true)

def refund (p : BandwidthPool) (bytes : Nat) : BandwidthPool :=
  { p with remaining := min (u64 (p.remaining + bytes)) p.windowBytes }

end BandwidthPool

def maxActionFailures : Nat := 3

inductive PipelineAction
  | promote (hash : Flat)
  | demoteL0 (hash : Flat)
  | demoteL2 (hash : Flat)
  | fillMiss (hash : Flat)
  | compactSegment (segmentId : Nat)
  | coLocateMove (hash : Flat) (destSegment destOffset : Nat)
  deriving DecidableEq, Repr

inductive LocationEvent
  | present (hash : Flat) (tier : LocalTier)
  | absent (hash : Flat) (tier : LocalTier)
  | moved (hash : Flat) (tier : LocalTier) (segmentId offset : Nat) (nodeId : String)
  deriving DecidableEq, Repr

def eventsFromEffects (fx : TierSideEffects) : List LocationEvent :=
  fx.l0Demoted.map (.absent · .l0) ++
    fx.l2DemotedToL3.flatMap fun h => [.absent h .l2, .present h .l3]

def eventsFromRelocs (relocs : List Relocate) (nodeId : String) : List LocationEvent :=
  (relocs.filter fun r => r.source ≠ r.target).map fun r =>
    .moved r.hash .l2 r.target.segmentId r.target.offset nodeId

namespace PipelineAction

def op : PipelineAction → TierOp
  | .promote hash => .promoteToL0 hash
  | .fillMiss hash => .fillReadMiss hash
  | .demoteL0 hash => .demoteL0 hash
  | .demoteL2 hash => .demoteL2ToL3 hash
  | .compactSegment segmentId => .compactL2Segment segmentId
  | .coLocateMove hash destSegment destOffset => .colocateL2Move hash destSegment destOffset

def promoted (hash : Flat) (e : LocalTierEngine) (fx : TierSideEffects) : List LocationEvent :=
  eventsFromEffects fx ++ if e.localTier hash = some .l0 then [.present hash .l0] else []

def events (nodeId : String) (e : LocalTierEngine) : PipelineAction → Except String (List LocationEvent)
  | .promote hash => (e.promoteToL0 hash).2.map fun r => promoted hash (e.promoteToL0 hash).1 r.2
  | .fillMiss hash => (e.fillReadMiss hash).2.map fun r => promoted hash (e.fillReadMiss hash).1 r.2
  | .demoteL0 hash => (e.demoteL0 hash).2.map fun _ => [.absent hash .l0]
  | .demoteL2 hash => (e.demoteL2ToL3 hash).2.map fun _ => [.absent hash .l2, .present hash .l3]
  | .compactSegment segmentId => (e.compactL2Segment segmentId).2.map fun relocs => eventsFromRelocs relocs nodeId
  | .coLocateMove hash destSegment destOffset =>
    (e.colocateL2Move hash destSegment destOffset).2.map fun r => eventsFromRelocs [r] nodeId

end PipelineAction

structure TierPipeline where
  engine : LocalTierEngine
  bandwidth : BandwidthPool
  nodeId : String
  queue : List PipelineAction
  failures : Map PipelineAction Nat

namespace TierPipeline

def new (engine : LocalTierEngine) (bandwidth : BandwidthPool) : TierPipeline :=
  ⟨engine, bandwidth, "local", [], ∅⟩

def estimateCost (p : TierPipeline) : PipelineAction → Nat
  | .promote hash => p.engine.estimatePromoteCost hash
  | .fillMiss hash => p.engine.estimatePromoteCost hash
  | .demoteL0 hash => p.engine.l0Nbytes hash
  | .demoteL2 hash => p.engine.l2Nbytes hash
  | .compactSegment segmentId =>
    u64 ((p.engine.l2Arena.hashesInSegment segmentId).card * p.engine.l2Arena.slotBytes)
  | .coLocateMove hash _ _ => max (p.engine.l2Nbytes hash) p.engine.l2Arena.slotBytes

def recordFailure (p : TierPipeline) (action : PipelineAction) (cost : Nat) : TierPipeline :=
  { p with
    bandwidth := if 0 < cost then p.bandwidth.refund cost else p.bandwidth
    failures := if maxActionFailures ≤ (p.failures.lookup action).getD 0 + 1 then p.failures.erase action
      else p.failures.insert action ((p.failures.lookup action).getD 0 + 1)
    queue := if maxActionFailures ≤ (p.failures.lookup action).getD 0 + 1 then p.queue else p.queue ++ [action] }

structure Ticking where
  pipeline : TierPipeline
  done : Nat
  events : List LocationEvent
  consecutiveFail : Nat

/-- The action at the head of the queue, if there is one and the bandwidth is granted, and the pipeline
without it. -/
def takeAction (p : TierPipeline) : Option (PipelineAction × TierPipeline) :=
  match p.queue with
  | [] => none
  | action :: rest =>
    if p.estimateCost action = 0 then some (action, { p with queue := rest })
    else if (p.bandwidth.tryConsume (p.estimateCost action)).2 then
      some (action, { p with queue := rest, bandwidth := (p.bandwidth.tryConsume (p.estimateCost action)).1 })
    else none

def carryOut (q0 : Nat) (t : Ticking) (action : PipelineAction) (p : TierPipeline) : Ticking × Bool :=
  match action.events p.nodeId p.engine with
  | .ok events =>
    (⟨{ p with engine := p.engine.act action.op, failures := p.failures.erase action }, t.done + 1,
      t.events ++ events, 0⟩, true)
  | .error _ =>
    (⟨{ p with engine := p.engine.act action.op }.recordFailure action (t.pipeline.estimateCost action),
      t.done, t.events, t.consecutiveFail + 1⟩, decide (t.consecutiveFail + 1 < q0))

def tickLoop (q0 : Nat) : Nat → Ticking → Ticking
  | 0, t => t
  | n + 1, t =>
    match t.pipeline.takeAction with
    | none => t
    | some (action, p) =>
      if (carryOut q0 t action p).2 then tickLoop q0 n (carryOut q0 t action p).1
      else (carryOut q0 t action p).1

def tick (p : TierPipeline) (maxSteps : Nat) : Ticking :=
  tickLoop (max p.queue.length 1) maxSteps ⟨p, 0, [], 0⟩

end TierPipeline

end LakeKv
