import LakeKv.Backend
import LakeKv.PriorityQueue
import LakeKv.Saturating

namespace LakeKv

structure MetricsSnapshot where
  queueLen : Int64
  inFlight : Int64
  deriving DecidableEq

inductive ScaleDecision
  | none
  | scaleOut
  | scaleIn
  deriving DecidableEq, Repr

structure AutoscaleConfig where
  minNodes : Int64
  maxNodes : Int64
  scaleOutQueueLen : Int64
  scaleInQueueLen : Int64
  sustainPeriods : Int64
  cooldown : Int64
  deriving DecidableEq

def AutoscaleConfig.withDefaults (c : AutoscaleConfig) : AutoscaleConfig where
  minNodes := if c.minNodes ≤ 0 then 1 else c.minNodes
  maxNodes := if c.maxNodes ≤ 0 then 8 else c.maxNodes
  scaleOutQueueLen := if c.scaleOutQueueLen ≤ 0 then 4 else c.scaleOutQueueLen
  scaleInQueueLen := c.scaleInQueueLen
  sustainPeriods := if c.sustainPeriods ≤ 0 then 3 else c.sustainPeriods
  cooldown := if c.cooldown ≤ 0 then 10000000000 else c.cooldown

/-- `Autoscaler`. A time counts the nanoseconds since the zero time. -/
structure Autoscaler where
  cfg : AutoscaleConfig
  overStreak : Int64
  underStreak : Int64
  lastAction : Int
  deriving DecidableEq

namespace Autoscaler

def new (cfg : AutoscaleConfig) : Autoscaler :=
  ⟨cfg.withDefaults, 0, 0, 0⟩

def observe (a : Autoscaler) (m : MetricsSnapshot) : Autoscaler :=
  if a.cfg.scaleOutQueueLen ≤ m.queueLen then { a with overStreak := a.overStreak + 1, underStreak := 0 }
  else if m.queueLen ≤ a.cfg.scaleInQueueLen ∧ m.inFlight ≤ 1 then
    { a with underStreak := a.underStreak + 1, overStreak := 0 }
  else { a with overStreak := 0, underStreak := 0 }

/-- `Evaluate`, after the streaks are counted. `Time.Sub` saturates. -/
def decision (a : Autoscaler) (now : Int) (nodeCount : Int64) : Autoscaler × ScaleDecision :=
  if Saturating.satSub now a.lastAction < a.cfg.cooldown.toInt then (a, .none)
  else if a.cfg.sustainPeriods ≤ a.overStreak ∧ nodeCount < a.cfg.maxNodes then
    ({ a with overStreak := 0, lastAction := now }, .scaleOut)
  else if a.cfg.sustainPeriods ≤ a.underStreak ∧ a.cfg.minNodes < nodeCount then
    ({ a with underStreak := 0, lastAction := now }, .scaleIn)
  else (a, .none)

def evaluate (a : Autoscaler) (now : Int) (m : MetricsSnapshot) (nodeCount : Int64) : Autoscaler × ScaleDecision :=
  (a.observe m).decision now nodeCount

end Autoscaler

/-- What is left of `nodeRegistry` when nothing is routed: the nodes in the order they came, those that are being
drained, and the number of the last node. -/
structure NodeRegistry where
  ready : List String
  draining : Finset String
  seq : Int64

def workerId (n : Int64) : String :=
  "worker-" ++ n.toInt.repr

/-- `%d` of `fmt.Sscanf`: a sign and digits, and what follows them is not read. -/
def scanInt (cs : List Char) : Option Int :=
  let digits := (if cs.head? = some '-' ∨ cs.head? = some '+' then cs.tail else cs).takeWhile Char.isDigit
  let n : Int := Nat.ofDigitChars 10 digits 0
  let signed := if cs.head? = some '-' then -n else n
  if digits = [] ∨ signed < Saturating.i64Min ∨ Saturating.i64Max < signed then none else some signed

def scanWorker (id : String) : Option Int64 :=
  if "worker-".toList.isPrefixOf id.toList then (scanInt (id.toList.drop 7)).map Int64.ofInt else none

namespace NodeRegistry

def enlist (r : NodeRegistry) (id : String) : NodeRegistry :=
  { r with
    ready := r.ready ++ [id]
    seq := match scanWorker id with
      | some n => if r.seq < n then n else r.seq
      | none => r.seq }

def new (initial : List String) : NodeRegistry :=
  initial.foldl enlist ⟨[], ∅, 0⟩

variable (r : NodeRegistry)

def count : Int64 :=
  Int64.ofNat r.ready.length

def nextID : NodeRegistry × String :=
  ({ r with seq := r.seq + 1 }, workerId (r.seq + 1))

def add (id : String) : NodeRegistry :=
  { r with draining := r.draining.erase id, ready := r.ready ++ [id] }

def markDraining (id : String) : Option NodeRegistry :=
  if r.ready.contains id then some { r with ready := r.ready.erase id, draining := insert id r.draining } else none

def remove (id : String) : NodeRegistry :=
  { r with draining := r.draining.erase id }

def unmarkDraining (id : String) : NodeRegistry :=
  if id ∈ r.draining then { r with draining := r.draining.erase id, ready := r.ready ++ [id] } else r

def lastReady : Option String :=
  r.ready.getLast?

end NodeRegistry

/-- The answer to a call of the control plane: accepted, refused with `ok = false`, or an error of the call itself. -/
inductive CallReply
  | ok
  | rejected (err : String)
  | failed (err : String)
  deriving DecidableEq, Repr

/-- The three calls that change the ring, as the router sees them. The state is whatever decides their answers. -/
structure ShardCalls (σ : Type) where
  joinShardNode : σ → String → σ × CallReply
  drainShardNode : σ → String → σ × CallReply
  removeShardNode : σ → String → σ × CallReply

structure RangeOrder where
  walk : Finset String → List String
  listsOnce : ListsOnce walk

/-- The part of `Server` that scales. `decided` and `issued` are the times of its decisions to act and the ids it has
given out, the last first. -/
structure Server where
  autoscale : Bool
  maxInFlight : Int64
  sched : PqScheduler
  nodes : NodeRegistry
  scaler : Autoscaler
  decided : List Int
  issued : List String

namespace Server

def new (autoscale : Bool) (maxInFlight : Int64) (cfg : AutoscaleConfig) : Server :=
  let base := if maxInFlight ≤ 0 then 1 else maxInFlight
  ⟨autoscale, base, .new base.toInt 30000000000, .new ["worker-0"], .new cfg, [], []⟩

def base (s : Server) : Int64 :=
  if s.maxInFlight ≤ 0 then 1 else s.maxInFlight

def syncCapacity (s : Server) : Server :=
  { s with sched := s.sched.setMaxInFlight (s.base * s.nodes.count).toInt }

section Calls

variable {σ : Type} (P : ShardCalls σ)

def reap (x : Server × σ) (id : String) : Server × σ :=
  let answer := P.removeShardNode x.2 id
  match answer.2 with
  | .ok => ({ x.1 with nodes := x.1.nodes.remove id }, answer.1)
  | _ => (x.1, answer.1)

def reapDraining (order : RangeOrder) (x : Server × σ) : Server × σ :=
  (order.walk x.1.nodes.draining).foldl (reap P) x

def scaleOut (x : Server × σ) : (Server × σ) × Except String Unit :=
  let (nodes, id) := x.1.nodes.nextID
  let s := { x.1 with nodes := nodes, issued := id :: x.1.issued }
  let answer := P.joinShardNode x.2 id
  match answer.2 with
  | .ok => (({ s with nodes := s.nodes.add id }.syncCapacity, answer.1), .ok ())
  | .rejected err => ((s, answer.1), .error s!"JoinShardNode rejected: {err}")
  | .failed err => ((s, answer.1), .error s!"JoinShardNode: {err}")

def drain (x : Server × σ) (victim : String) : (Server × σ) × Except String Unit :=
  let back := { x.1 with nodes := x.1.nodes.unmarkDraining victim }.syncCapacity
  let answer := P.drainShardNode x.2 victim
  match answer.2 with
  | .ok => ((x.1.syncCapacity, answer.1), .ok ())
  | .rejected err => ((back, answer.1), .error s!"DrainShardNode rejected: {err}")
  | .failed err => ((back, answer.1), .error s!"DrainShardNode: {err}")

def scaleIn (order : RangeOrder) (x : Server × σ) : (Server × σ) × Except String Unit :=
  match x.1.nodes.lastReady with
  | none => (x, .ok ())
  | some victim =>
    match x.1.nodes.markDraining victim with
    | none => (x, .ok ())
    | some nodes =>
      match drain P ({ x.1 with nodes := nodes }, x.2) victim with
      | (x, .ok ()) => (reapDraining P order x, .ok ())
      | (x, .error err) => (x, .error err)

def applyScale (order : RangeOrder) (x : Server × σ) : ScaleDecision → (Server × σ) × Except String Unit
  | .none => (x, .ok ())
  | .scaleOut => scaleOut P x
  | .scaleIn => scaleIn P order x

def note (s : Server) (now : Int) (scaler : Autoscaler) : ScaleDecision → Server
  | .none => { s with scaler := scaler }
  | _ => { s with scaler := scaler, decided := now :: s.decided }

/-- `autoscaleTick`. The reports of hits between its calls do not touch a node. -/
def autoscaleTick (order : RangeOrder) (now : Int) (m : MetricsSnapshot) (x : Server × σ) : Server × σ :=
  let x := reapDraining P order x
  if x.1.autoscale then
    let (scaler, d) := x.1.scaler.evaluate now m x.1.nodes.count
    (applyScale P order (x.1.note now scaler d, x.2) d).1
  else x

end Calls

end Server

inductive ServerOp
  | tick (order : RangeOrder) (now : Int) (metrics : MetricsSnapshot)
  | schedule (op : PqOp)

/-- Only `syncCapacity` sets the capacity of the scheduler. -/
def Server.step {σ : Type} (P : ShardCalls σ) (x : Server × σ) : ServerOp → Server × σ
  | .tick order now metrics => autoscaleTick P order now metrics x
  | .schedule (.setMaxInFlight _) => x
  | .schedule op => ({ x.1 with sched := x.1.sched.step op }, x.2)

end LakeKv
