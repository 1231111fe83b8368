import LakeKv.Register

namespace LakeKv

open Saturating

structure RefTarget (B : Backend) where
  key : NamespaceKey
  poolKind : Int
  seq : B.Seq
  deriving DecidableEq

structure RefProjection (B : Backend) where
  refs : Map (RefTarget B) RefAccounts
  nodes : Map (String × BlockKey) RefAccounts

inductive RefBound
  | overflow
  | underflow
  deriving DecidableEq, Repr

def bucketAfter (r : RefAccounts) (kind : RefKind) (delta : Int) : Except RefBound Int :=
  match checkedAdd (r.bucket kind) delta with
  | none => .error .overflow
  | some after => if after < 0 then .error .underflow else .ok after

def RefBound.text (ledger : String) (kind : RefKind) : RefBound → String
  | overflow => ledger ++ " overflow (kind=" ++ kind.asStrName ++ ")"
  | underflow => ledger ++ " underflow (kind=" ++ kind.asStrName ++ ")"

def refFault (ledger : String) (node : String) (kind : RefKind) (poolKind : Int) (id : KvBlockId)
    (bound : RefBound) : Fault :=
  .err ("RefDelta: " ++ bound.text ledger kind ++
    (if bound = .underflow then
      " for " ++ node ++ "model_id=" ++ id.modelId ++ " revision=" ++ id.revision.quote ++
        s!" pool_kind={poolKind} block_hash_len={id.blockHash.length}"
    else ""))

namespace Authority

variable {B : Backend}

def setPool (a : Authority B) (key : NamespaceKey) (poolKind : Int) (p : PoolView B) : Authority B :=
  match a.namespaces.lookup key with
  | none => a
  | some ns => a.setNs key (ns.setPool poolKind p)

def refTarget (a : Authority B) (d : RefDelta) : Except String (RefTarget B) :=
  match d.id with
  | none => .error "RefDelta missing id"
  | some id =>
    match resolvePoolKind id.poolKind with
    | .error e => .error e
    | .ok pk =>
      let key := NamespaceKey.fromId id
      match a.namespaces.lookup key with
      | none => .error ("unknown namespace (" ++ id.modelId ++ ", rev=" ++ id.revision.quote ++ ")")
      | some ns =>
        match ns.pools.lookup pk with
        | none => .error s!"RefDelta: unknown pool_kind {pk}"
        | some pool =>
          match pool.byFlat.lookup id.blockHash with
          | none => .error "RefDelta: unknown block_hash"
          | some entry => .ok ⟨key, pk, entry.seqHash⟩

def nodeRow (a : Authority B) (nodeId : String) (k : BlockKey) : RefAccounts :=
  ((a.nodeRefs.lookup nodeId).bind fun held => held.lookup k).getD .zero

/-- Add to the ledger of a node; a row whose total is gone is removed. -/
def addNodeRef (a : Authority B) (nodeId : String) (k : BlockKey) (kind : RefKind) (delta : Int) :
    Authority B :=
  let held := (a.nodeRefs.lookup nodeId).getD ∅
  let row := (held.lookup k).getD .zero
  let row' := row.setBucket kind (satAdd (row.bucket kind) delta)
  let held' := if row'.total ≤ 0 then held.erase k else held.insert k row'
  { a with nodeRefs := a.nodeRefs.insert nodeId held' }

def tracksNode (d : RefDelta) : Bool :=
  !d.nodeId.isEmpty && d.delta != 0

def applyRef (a : Authority B) (t : RefTarget B) (id : KvBlockId) (kind : RefKind) (d : RefDelta)
    (track : Bool) : Authority B × Except Fault Unit :=
  match a.pool? t.key t.poolKind with
  | none => (a, .error (.panicked "checked"))
  | some pool =>
    match pool.byFlat.lookup id.blockHash with
    | none => (a, .error (.panicked "checked"))
    | some entry =>
      match bucketAfter (pool.refsOf t.seq) kind d.delta with
      | .error bound =>
        (a.setPool t.key t.poolKind (pool.touchRefs t.seq),
          .error (refFault "ref_count" "" kind t.poolKind id bound))
      | .ok after =>
        let a' := a.setPool t.key t.poolKind (pool.setRef t.seq entry.blockId kind after)
        (if track then a'.addNodeRef d.nodeId (.fromId id) kind d.delta else a', .ok ())

def reportRefRaw (a : Authority B) (d : RefDelta) (trackNode : Bool) : Authority B × Except Fault Unit :=
  match a.refTarget d, d.id with
  | .error e, _ => (a, .error (.err e))
  | .ok _, none => (a, .error (.panicked "checked"))
  | .ok t, some id =>
    match resolveRefKind d.kind with
    | .error e => (a, .error (.err e))
    | .ok kind =>
      if trackNode && tracksNode d then
        match bucketAfter (a.nodeRow d.nodeId (.fromId id)) kind d.delta with
        | .error bound =>
          (a, .error (refFault "node_ref" ("node_id=" ++ d.nodeId ++ " ") kind t.poolKind id bound))
        | .ok _ => a.applyRef t id kind d true
      else a.applyRef t id kind d false

def reportRef (a : Authority B) (d : RefDelta) : Authority B × Except Fault Unit :=
  a.reportRefRaw d true

def batchFault (i : Nat) (text : String) : String :=
  s!"ReportRef batch[{i}]: " ++ text

def projectRef (a : Authority B) (pr : RefProjection B) (i : Nat) (d : RefDelta) :
    Except String (RefProjection B) :=
  match a.refTarget d, d.id with
  | .error e, _ => .error (batchFault i e)
  | .ok _, none => .error (batchFault i "RefDelta missing id")
  | .ok t, some id =>
    match resolveRefKind d.kind with
    | .error e => .error (batchFault i e)
    | .ok kind =>
      let accounts := (pr.refs.lookup t).getD
        (((a.pool? t.key t.poolKind).map fun p => p.refsOf t.seq).getD .zero)
      match bucketAfter accounts kind d.delta with
      | .error bound => .error (batchFault i (bound.text "ref_count" kind))
      | .ok after =>
        let refs := pr.refs.insert t (accounts.setBucket kind after)
        if tracksNode d then
          let nodeKey := (d.nodeId, BlockKey.fromId id)
          let row := (pr.nodes.lookup nodeKey).getD (a.nodeRow d.nodeId (BlockKey.fromId id))
          match bucketAfter row kind d.delta with
          | .error bound => .error (batchFault i (bound.text "node_ref" kind))
          | .ok after => .ok ⟨refs, pr.nodes.insert nodeKey (row.setBucket kind after)⟩
        else .ok ⟨refs, pr.nodes⟩

def projectRefs (a : Authority B) : RefProjection B → Nat → List RefDelta → Except String Unit
  | _, _, [] => .ok ()
  | pr, i, d :: ds =>
    match a.projectRef pr i d with
    | .error e => .error e
    | .ok pr' => a.projectRefs pr' (i + 1) ds

def applyRefs (a : Authority B) : List RefDelta → Authority B × Except Fault Unit
  | [] => (a, .ok ())
  | d :: ds =>
    match a.reportRef d with
    | (a', .ok ()) => a'.applyRefs ds
    | (a', .error _) => (a', .error (.panicked "report_ref after successful check_report_ref"))

def reportRefs (a : Authority B) (ds : List RefDelta) : Authority B × Except Fault Unit :=
  match a.projectRefs ⟨∅, ∅⟩ 0 ds with
  | .error e => (a, .error (.err e))
  | .ok () => a.applyRefs ds

def evictN (a : Authority B) (modelId revision : String) (poolKind : Int) (n : Nat) :
    Authority B × Nat :=
  let key : NamespaceKey := ⟨modelId, revision⟩
  match resolvePoolKind poolKind, a.namespaces.lookup key with
  | .ok pk, some ns =>
    match ns.pools.lookup pk with
    | none => (a, 0)
    | some pool =>
      let dropped := pool.dropInactiveVictims n
      let ns' := { ns.setPool pk dropped.1 with
        usedBytes := max (i64 (ns.usedBytes - dropped.2.length * ns.bytesPerBlock)) 0 }
      ((a.setNs key ns').emit
        (invalidatedEventsFor key (dropped.2.map fun r => (pk, r.1, r.2))), dropped.2.length)
  | _, _ => (a, 0)

end Authority

end LakeKv
