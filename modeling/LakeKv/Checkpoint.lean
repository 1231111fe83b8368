import LakeKv.Placement

namespace LakeKv

namespace PoolView

variable {B : Backend}

/-- The row of a block in a snapshot; a block without a chain is its own root. -/
def exportEntry (e : Entry B) : CheckpointBlock where
  blockMeta := some e.blockMeta
  prefixChain :=
    if e.prefixChain = [] then (e.blockMeta.id.map fun i => [i.blockHash]).getD []
    else e.prefixChain

def exportBlocks (p : PoolView B) : List CheckpointBlock :=
  (B.flatOrder p.byFlat.keys).filterMap fun flat => (p.byFlat.lookup flat).map exportEntry

end PoolView

def CheckpointBlock.hash (cb : CheckpointBlock) : Flat :=
  ((cb.blockMeta.bind BlockMeta.id).map KvBlockId.blockHash).getD []

def CheckpointBlock.before (a b : CheckpointBlock) : Prop :=
  a.prefixChain.length < b.prefixChain.length ∨
    (a.prefixChain.length = b.prefixChain.length ∧ a.hash ≤ b.hash)

instance : DecidableRel CheckpointBlock.before := fun _ _ =>
  inferInstanceAs (Decidable (_ ∨ _))

structure ImportRow where
  nodeId : String
  chain : List Flat
  blockMeta : BlockMeta
  deriving DecidableEq, Repr

/-- What `import_snapshot` makes of a row; rows without an identity are skipped, and a chain that
does not have the block is an error. -/
def importRow (cb : CheckpointBlock) : Except Fault (Option ImportRow) :=
  match cb.blockMeta with
  | none => .ok none
  | some m =>
    match m.id with
    | none => .ok none
    | some id =>
      let pk := match resolvePoolKind id.poolKind with
        | .ok pk => pk
        | .error _ => poolTarget
      let chain := if cb.prefixChain = [] then [id.blockHash] else cb.prefixChain
      if id.blockHash ∈ chain then
        .ok (some
          { nodeId := ((m.locations.find? fun l => l.tier == Tier.l2.toWire).map Location.nodeId).getD "restore"
            chain := chain
            blockMeta := { m with id := some { id with poolKind := pk } } })
      else .error (.err s!"import_snapshot: block hash not in prefix_chain (len={chain.length})")

theorem importRow_eq_ok {cb : CheckpointBlock} {row : ImportRow} (h : importRow cb = .ok (some row)) :
    ∃ m id, cb.blockMeta = some m ∧ m.id = some id ∧ id.blockHash ∈ row.chain ∧
      row.chain = (if cb.prefixChain = [] then [id.blockHash] else cb.prefixChain) ∧
      ∃ pk, (resolvePoolKind id.poolKind = .ok pk ∨ pk = poolTarget) ∧
        row.blockMeta = { m with id := some { id with poolKind := pk } } := by
  unfold importRow at h
  cases hm : cb.blockMeta with
  | none => simp [hm] at h
  | some m =>
    cases hid : m.id with
    | none => simp [hm, hid] at h
    | some id =>
      simp only [hm, hid] at h
      by_cases hmem : id.blockHash ∈ (if cb.prefixChain = [] then [id.blockHash] else cb.prefixChain)
      · rw [if_pos hmem] at h
        cases h
        refine ⟨m, id, rfl, hid, hmem, rfl, _, ?_, rfl⟩
        cases resolvePoolKind id.poolKind with
        | error e => exact .inr rfl
        | ok pk => exact .inl rfl
      · rw [if_neg hmem] at h
        simp at h

namespace Authority

variable {B : Backend}

def exportNs (ns : Namespace B) : List CheckpointBlock :=
  ns.pools.keys.ascending.flatMap fun pk => ((ns.pools.lookup pk).map PoolView.exportBlocks).getD []

/-- `export_snapshot`: ancestors come before their descendants. -/
def exportSnapshot (a : Authority B) (seq : Nat) : CheckpointSnapshot where
  seq := seq
  models := a.namespaces.keys.ascending.filterMap fun key =>
    (a.namespaces.lookup key).map Namespace.descriptor
  blocks := (a.namespaces.keys.ascending.flatMap fun key =>
    ((a.namespaces.lookup key).map exportNs).getD []).insertionSort CheckpointBlock.before

def cleared (a : Authority B) (seq : Nat) : Authority B :=
  { a with
    namespaces := ∅
    orphans := ∅
    nodeRefs := ∅
    completedBarriers := ∅
    checkpointSeq := seq
    pendingViewEvents := []
    viewLog := a.viewLog.reset }

def importModels (a : Authority B) : List ModelDescriptor → Authority B × Except Fault Unit
  | [] => (a, .ok ())
  | m :: ms =>
    match a.registerModel m with
    | (a', .error e) => (a', .error e)
    | (a', .ok ()) => a'.importModels ms

/-- The text of an error inside `import_snapshot`; a panic is none. -/
def importFault : Fault → Fault
  | .err text => .err ("import_snapshot register: " ++ text)
  | .panicked text => .panicked text

def importBlock (a : Authority B) (cb : CheckpointBlock) : Authority B × Except Fault Unit :=
  match importRow cb with
  | .error e => (a, .error e)
  | .ok none => (a, .ok ())
  | .ok (some row) =>
    match a.register row.nodeId row.chain [row.blockMeta] with
    | (a', .ok .accepted) => (a', .ok ())
    | (a', .ok (.rejectedHardQuota bp)) =>
      (a', .error (.err ("import_snapshot register rejected: reason=" ++ bp.reason ++
        s!" deficit={bp.deficitBytes}")))
    | (a', .error e) => (a', .error (importFault e))

def importBlocks (a : Authority B) : List CheckpointBlock → Authority B × Except Fault Unit
  | [] => (a, .ok ())
  | cb :: rest =>
    match a.importBlock cb with
    | (a', .error e) => (a', .error e)
    | (a', .ok ()) => a'.importBlocks rest

def importOrder (blocks : List CheckpointBlock) : List CheckpointBlock :=
  blocks.insertionSort fun a b => a.prefixChain.length ≤ b.prefixChain.length

def importSnapshot (a : Authority B) (snap : CheckpointSnapshot) : Authority B × Except Fault Unit :=
  match (a.cleared snap.seq).importModels snap.models with
  | (a', .error e) => (a', .error e)
  | (a', .ok ()) => a'.importBlocks (importOrder snap.blocks)

def saveCheckpoint (a : Authority B) : Authority B × CheckpointSnapshot :=
  let a' := { a with checkpointSeq := min (a.checkpointSeq + 1) (2 ^ 64 - 1) }
  (a', a'.exportSnapshot a'.checkpointSeq)

end Authority

end LakeKv
