import LakeKv.OperationRuns

namespace LakeKv

open CheckpointBlock Finmap List Option

def CheckpointBlock.call (cb : CheckpointBlock) : Option Op :=
  match importRow cb with
  | .ok (some row) => some (.register row.nodeId row.chain [row.blockMeta])
  | _ => none

def CheckpointSnapshot.calls (snap : CheckpointSnapshot) : List Op :=
  snap.models.map Op.registerModel ++ (Authority.importOrder snap.blocks).filterMap CheckpointBlock.call

namespace Authority

variable {B : Backend}

section

variable (a : Authority B)
include a

theorem importModels_calls (ms : List ModelDescriptor) :
    ∃ ops, ops <+: ms.map Op.registerModel ∧ (a.importModels ms).1 = ops.foldl step a ∧
      ((a.importModels ms).2 = .ok () → ops = ms.map Op.registerModel) := by
  induction ms generalizing a with
  | nil => exact ⟨[], nil_prefix, rfl, fun _ => rfl⟩
  | cons m ms ih =>
    unfold importModels
    split
    next a' e heq =>
      have hstate : a.step (.registerModel m) = a' := by rw [step, heq]
      exact ⟨[.registerModel m], ⟨ms.map Op.registerModel, rfl⟩, hstate.symm, fun hok => by simp at hok⟩
    next a' heq =>
      have hstate : a.step (.registerModel m) = a' := by rw [step, heq]
      obtain ⟨ops, hpre, hops, hall⟩ := ih a'
      refine ⟨.registerModel m :: ops, cons_prefix_cons.mpr ⟨rfl, hpre⟩, ?_, fun hok => by rw [hall hok]; rfl⟩
      rw [foldl_cons, hstate, hops]

theorem importBlock_calls (cb : CheckpointBlock) : (a.importBlock cb).1 = cb.call.elim a a.step := by
  unfold importBlock call
  cases importRow cb with
  | error e => rfl
  | ok row =>
    cases row with
    | none => rfl
    | some row =>
      dsimp only
      split <;> simp_all [step]

theorem importBlocks_calls (rows : List CheckpointBlock) :
    ∃ ops, ops <+: rows.filterMap call ∧ (a.importBlocks rows).1 = ops.foldl step a ∧
      ((a.importBlocks rows).2 = .ok () → ops = rows.filterMap call) := by
  induction rows generalizing a with
  | nil => exact ⟨[], nil_prefix, rfl, fun _ => rfl⟩
  | cons cb rows ih =>
    have hone := importBlock_calls a cb
    have hhead : (cb :: rows).filterMap call = cb.call.toList ++ rows.filterMap call := by
      cases hc : cb.call <;> simp [hc]
    have hfold : ∀ b : Authority B, cb.call.toList.foldl step b = cb.call.elim b b.step := by
      intro b
      cases cb.call <;> rfl
    unfold importBlocks
    split
    next a' e heq =>
      rw [heq] at hone
      exact ⟨cb.call.toList, hhead ▸ prefix_append _ _, hone.trans (hfold a).symm, fun hok => by simp at hok⟩
    next a' heq =>
      rw [heq] at hone
      obtain ⟨ops, hpre, hops, hall⟩ := ih a'
      refine ⟨cb.call.toList ++ ops, ?_, ?_, fun hok => by rw [hall hok, hhead]⟩
      · rw [hhead]
        exact (prefix_append_right_inj _).mpr hpre
      · rw [foldl_append, hfold, ← hone, hops]

theorem importSnapshot_calls (snap : CheckpointSnapshot) :
    ∃ ops, ops <+: snap.calls ∧ (a.importSnapshot snap).1 = ops.foldl step (a.cleared snap.seq) ∧
      ((a.importSnapshot snap).2 = .ok () → ops = snap.calls) := by
  obtain ⟨ops, hpre, hops, hall⟩ := importModels_calls (a.cleared snap.seq) snap.models
  unfold importSnapshot
  split
  next a' e heq =>
    rw [heq] at hops
    exact ⟨ops, hpre.trans (prefix_append _ _), hops, fun hok => by simp at hok⟩
  next a' heq =>
    rw [heq] at hops hall
    obtain ⟨rows, hpre', hrows, hall'⟩ := importBlocks_calls a' (importOrder snap.blocks)
    refine ⟨snap.models.map Op.registerModel ++ rows, ?_, ?_, fun hok => by rw [hall' hok]; rfl⟩
    · exact (prefix_append_right_inj _).mpr hpre'
    · rw [foldl_append, ← hall rfl, ← hops, hrows]

end

def orphanCalls (now₁ now₂ : Nat) (req : ReconcileOrphansRequest) : List Op :=
  [.reportOrphans now₁ req.reports, .sweepOrphans now₂ req.orphanTtlMs] ++
    (if req.deadNodeId.isEmpty then [] else [.reconcileDeadNode req.deadNodeId]) ++
    (if 0 < req.gcColdLimit ∧ ¬req.gcModelId.isEmpty then
      [.gcCold req.gcModelId req.gcRevision req.gcPoolKind req.gcColdLimit] else [])

theorem reconcileOrphans_calls (a : Authority B) (now₁ now₂ : Nat) (req : ReconcileOrphansRequest) :
    (a.reconcileOrphans now₁ now₂ req).1 = (orphanCalls now₁ now₂ req).foldl step a := by
  have hdead : ∀ b : Authority B, req.deadNodeId.isEmpty = false →
      ∃ r, b.reconcileDeadNode req.deadNodeId = (b.step (.reconcileDeadNode req.deadNodeId), .ok r) := by
    intro b hne
    simp only [step, reconcileDeadNode, hne, Bool.false_eq_true, ↓reduceIte]
    exact ⟨_, rfl⟩
  unfold reconcileOrphans orphanCalls
  cases hempty : req.deadNodeId.isEmpty with
  | true =>
    simp only [↓reduceIte, append_nil, foldl_append]
    split
    · split
      next heq => exact (congrArg Prod.fst heq).symm
      next heq => exact (congrArg Prod.fst heq).symm
    · rfl
  | false =>
    obtain ⟨r, hr⟩ := hdead ((a.reportOrphans now₁ req.reports).sweepOrphans now₂ req.orphanTtlMs).1 hempty
    simp only [Bool.false_eq_true, ↓reduceIte, foldl_append, hr]
    split
    · split
      next heq => exact (congrArg Prod.fst heq).symm
      next heq => exact (congrArg Prod.fst heq).symm
    · rfl

section DeadNode

variable {n : String}

theorem lookup_stripPools {key : NamespaceKey} {pks : List Int} (hnodup : pks.Nodup) (ns : Namespace B) (pk : Int) :
    (stripPools key n ns pks).1.pools.lookup pk =
      if pk ∈ pks then (ns.pools.lookup pk).map fun p => (p.stripNode key pk n).1 else ns.pools.lookup pk := by
  induction pks generalizing ns with
  | nil => simp [stripPools]
  | cons x pks ih =>
    obtain ⟨hx, hrest⟩ := nodup_cons.mp hnodup
    unfold stripPools
    by_cases hpk : pk = x
    · subst hpk
      split
      next hnone => simp [ih hrest, hx, hnone]
      next p hp => simp [ih hrest, hx, hp, Namespace.setPool]
    · split
      · simp [ih hrest, hpk]
      next p hp => simp [ih hrest, hpk, Namespace.setPool]

theorem lookup_stripNamespaces {keys : List NamespaceKey} (hnodup : keys.Nodup) (a : Authority B) (key : NamespaceKey) :
    (a.stripNamespaces n keys).1.namespaces.lookup key =
      if key ∈ keys then (a.namespaces.lookup key).map fun ns => (stripPools key n ns (B.poolOrder ns.pools.keys)).1
      else a.namespaces.lookup key := by
  induction keys generalizing a with
  | nil => simp [stripNamespaces]
  | cons x keys ih =>
    obtain ⟨hx, hrest⟩ := nodup_cons.mp hnodup
    unfold stripNamespaces
    by_cases hkey : key = x
    · subst hkey
      split
      next hnone => simp [ih hrest, hx, hnone]
      next ns hns => simp [ih hrest, hx, hns, setNs]
    · split
      · simp [ih hrest, hkey]
      next ns hns => simp [ih hrest, hkey, setNs]

theorem pool?_stripNamespaces (hB : B.Lawful) (a : Authority B) (key : NamespaceKey) (pk : Int) :
    (a.stripNamespaces n (B.namespaceOrder a.namespaces.keys)).1.pool? key pk =
      (a.pool? key pk).map fun p => (p.stripNode key pk n).1 := by
  have hmem : ∀ {ns : Namespace B} {p}, ns.pools.lookup pk = some p → pk ∈ B.poolOrder ns.pools.keys := by
    intro ns p hp
    exact ((hB.poolOrder _).2 pk).mpr (Finmap.mem_keys.mpr (mem_of_lookup_eq_some hp))
  unfold pool?
  rw [lookup_stripNamespaces (hB.namespaceOrder _).1]
  cases hns : a.namespaces.lookup key with
  | none => simp
  | some ns =>
    have hkey := ((hB.namespaceOrder _).2 key).mpr (Finmap.mem_keys.mpr (mem_of_lookup_eq_some hns))
    rw [if_pos hkey]
    simp only [map_some, bind_eq_bind, bind_some]
    rw [lookup_stripPools (hB.poolOrder _).1]
    cases hp : ns.pools.lookup pk with
    | none => simp
    | some p => rw [if_pos (hmem hp)]

end DeadNode

theorem gcCold_pool? {a : Authority B} {m r : String} {raw : Int} {n : Nat} {key : NamespaceKey} {pk : Int} {q : PoolView B}
    (h : (a.gcCold m r raw n).1.pool? key pk = some q) :
    a.pool? key pk = some q ∨ ∃ p, key = ⟨m, r⟩ ∧ resolvePoolKind raw = .ok pk ∧ a.pool? key pk = some p ∧
      q = (p.gcCold key pk n).pool := by
  unfold gcCold at h
  dsimp only at h
  split at h
  · exact .inl h
  split at h
  · exact .inl h
  next pk' hpk =>
    split at h
    · exact .inl h
    next ns hns =>
      split at h
      · exact .inl h
      next p hp =>
        have hpool : a.pool? ⟨m, r⟩ pk' = some p := pool?_eq_some.mpr ⟨ns, hns, hp⟩
        simp only [pool?, emit, setNs, lookup_insert_if, Namespace.setPool] at h
        by_cases hkey : key = ⟨m, r⟩
        · subst hkey
          simp only [↓reduceIte, bind_eq_bind, bind_some, lookup_insert_if] at h
          split at h
          next hk =>
            subst hk
            exact .inr ⟨p, rfl, hpk, hpool, (some.inj h).symm⟩
          · exact .inl (pool?_eq_some.mpr ⟨ns, hns, h⟩)
        · rw [if_neg hkey] at h
          exact .inl h

end Authority

end LakeKv
