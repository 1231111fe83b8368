import LakeKv.AuthorityPort
import LakeKv.SampleBackend

namespace LakeKv

open KvBlockId List

variable {B : Backend}

structure AdmitKeys where
  modelId : String
  revision : String
  poolKind : Int
  hashes : List Flat
  deriving DecidableEq, Repr

/-- `admit_keys_from_request`: the namespace and pool of the first block with an identity, the hashes of all of them. -/
def admitKeysFromRequest (req : RegisterBlocksRequest) : Except String AdmitKeys :=
  match req.blocks.findSome? fun m => m.id.map KvBlockId.modelId with
  | none => .error "AdmitRegisterBlocks: no KVBlockID"
  | some modelId =>
    let revision := (req.blocks.findSome? fun m => m.id.map KvBlockId.revision).getD ""
    let poolKind := (req.blocks.findSome? fun m => m.id.map KvBlockId.poolKind).getD poolTarget
    let hashes := req.blocks.filterMap fun m => m.id.map KvBlockId.blockHash
    if hashes = [] then .error "AdmitRegisterBlocks: no block hashes"
    else .ok ⟨modelId, revision, poolKind, hashes⟩

theorem findSome?_id {α : Type} (f : KvBlockId → α) (metas : List BlockMeta) :
    (metas.findSome? fun m => m.id.map f) = (batchIds metas).head?.map f := by
  unfold batchIds
  induction metas with
  | nil => rfl
  | cons m ms ih =>
    cases found : m.id with
    | none => rw [findSome?_cons, filterMap_cons, found, ← ih]; rfl
    | some id => rw [findSome?_cons, filterMap_cons, found]; rfl

theorem admitKeysFromRequest_eq {req : RegisterBlocksRequest} {id : KvBlockId} {ids : List KvBlockId}
    (some : batchIds req.blocks = id :: ids) : admitKeysFromRequest req =
      .ok ⟨id.modelId, id.revision, id.poolKind, (batchIds req.blocks).map KvBlockId.blockHash⟩ := by
  have hashes : (req.blocks.filterMap fun m => m.id.map blockHash) = (batchIds req.blocks).map blockHash := by
    unfold batchIds
    rw [map_filterMap]
  unfold admitKeysFromRequest
  simp only [findSome?_id, hashes, some, head?_cons, Option.map_some, Option.getD_some, map_cons]
  exact if_neg nofun

namespace Authority

def admitDecision (a : Authority B) (req : RegisterBlocksRequest) : Except Fault RegisterStatus :=
  match admitKeysFromRequest req with
  | .error e => .error (.err e)
  | .ok keys => a.preflightRegister keys.modelId keys.revision keys.poolKind keys.hashes

theorem register_eq_ok {a : Authority B} {node : String} {chain : List Flat} {metas : List BlockMeta}
    {status : RegisterStatus} (batch : metas ≠ []) (ok : (a.register node chain metas).2 = .ok status) :
    ∃ key pk ns plan, checkBatch chain metas = .ok (key, pk) ∧ a.namespaces.lookup key = some ns ∧
      a.planAdmit key (newFlats (ns.pools.lookup pk) ((batchIds metas).map KvBlockId.blockHash)).card = .ok plan ∧
      plan.status = status := by
  unfold register at ok
  rw [if_neg batch] at ok
  split at ok
  · cases ok
  next key pk check =>
    split at ok
    · cases ok
    next ns found =>
      dsimp only at ok
      unfold admitRegisterBytes at ok
      cases plan : a.planAdmit key (newFlats (ns.pools.lookup pk) ((batchIds metas).map blockHash)).card with
      | error => rw [plan] at ok; cases ok
      | ok plan' =>
        refine ⟨key, pk, ns, plan', check, found, plan, ?_⟩
        rw [plan] at ok
        cases plan' with
        | reject bp =>
          cases ok
          rfl
        | accept n reclaim =>
          dsimp only at ok
          split at ok
          · unfold insertBatch at ok
            split at ok
            · cases ok
            cases ok
            rfl
          · cases ok

/-- The preflight of a request with blocks gives the very answer of the registration, unless that fails. -/
theorem admitDecision_eq_register (a : Authority B) (req : RegisterBlocksRequest) (blocks : req.blocks ≠ [])
    (status : RegisterStatus) (ok : (a.register req.nodeId req.prefixHashes req.blocks).2 = .ok status) :
    a.admitDecision req = .ok status := by
  obtain ⟨key, pk, ns, plan, check, found, planned, rfl⟩ := register_eq_ok blocks ok
  cases ids : batchIds req.blocks with
  | nil =>
    unfold checkBatch at check
    rw [ids] at check
    cases check
  | cons id rest =>
    obtain ⟨rfl, kind, -⟩ := checkBatch_eq_ok check (ids ▸ mem_cons_self)
    unfold admitDecision
    rw [admitKeysFromRequest_eq ids]
    dsimp only
    unfold preflightRegister
    rw [kind]
    dsimp only
    rw [show a.namespaces.lookup ⟨id.modelId, id.revision⟩ = some ns from found]
    dsimp only
    rw [show a.planAdmit ⟨id.modelId, id.revision⟩ _ = .ok plan from planned]
    rfl

end Authority

/-- A request without blocks is registered as it is, and refused by the preflight. -/
theorem empty_request_only_registers : (Authority.register (sampleRun []) "n" [] []).2 = .ok .accepted ∧
      (sampleRun []).admitDecision ⟨"n", [], []⟩ = .error (.err "AdmitRegisterBlocks: no KVBlockID") :=
  ⟨rfl, rfl⟩

/-- One block more than the hard quota allows is turned away by both with one signal. -/
theorem full_quota_rejects_both :
    ((sampleRun [.registerModel (sampleModel 0 10), .register "n" [[1]] [sampleMeta 1]]).register "n" [[1], [2]]
        [sampleMeta 2]).2 = .ok (.rejectedHardQuota ⟨"m", "r", 10, 0, 10, 10, "HARD_QUOTA"⟩) ∧
      (sampleRun [.registerModel (sampleModel 0 10), .register "n" [[1]] [sampleMeta 1]]).admitDecision
        ⟨"n", [sampleMeta 2], [[1], [2]]⟩ = .ok (.rejectedHardQuota ⟨"m", "r", 10, 0, 10, 10, "HARD_QUOTA"⟩) := by
  have rejected : ((sampleRun [.registerModel (sampleModel 0 10), .register "n" [[1]] [sampleMeta 1]]).register "n"
      [[1], [2]] [sampleMeta 2]).2 = .ok (.rejectedHardQuota ⟨"m", "r", 10, 0, 10, 10, "HARD_QUOTA"⟩) := by
    decide +kernel
  exact ⟨rejected, Authority.admitDecision_eq_register _ ⟨"n", [sampleMeta 2], [[1], [2]]⟩ nofun _ rejected⟩

end LakeKv
