import LakeKv.CompositeCalls
import LakeKv.LineageIndex
import LakeKv.PresenceCounts

namespace LakeKv

open BlockKey CheckpointBlock Finmap List PoolView

variable {B : Backend} {snap : CheckpointSnapshot} {o : Op}

def FewVolatile (m : BlockMeta) : Prop :=
  tierCount .l0 m.locations ≤ 1 ∧ tierCount .l1 m.locations ≤ 1

def PoolView.FewIdle (p : PoolView B) : Prop :=
  ∀ f e, p.byFlat.lookup f = some e → B.has p.inactive e.seqHash = true → FewVolatile e.blockMeta

/-- The calls whose marks move with the copies. A block that is registered again has no copy that is
counted; a withdrawal, a dead node or cold GC takes one copy for the one mark it lowers; and a relocation
adds no copy in L0 or L1. -/
def Op.KeepsCounts (a : Authority B) : Op → Prop
  | .register _ _ metas => ((batchIds metas).map KvBlockId.blockHash).Nodup ∧
      ∀ id ∈ batchIds metas, ∀ e, a.block? (.fromId id) = some e →
        ∀ k : Marker, tierCount k.tier e.blockMeta.locations = 0
  | .importSnapshot snap => ((Op.importSnapshot snap).ids.map BlockKey.fromId).Nodup
  | .publishLocationAt m r raw flat tier node _ _ present => present = false → tier.marker?.isSome →
      ∀ pk e, resolvePoolKind raw = .ok pk → a.block? ⟨m, r, pk, flat⟩ = some e →
        tierCountOn tier node e.blockMeta.locations ≤ 1
  | .relocateInView m r raw flat tier node _ _ => tier = .l0 ∨ tier = .l1 →
      ∀ pk e, resolvePoolKind raw = .ok pk → a.block? ⟨m, r, pk, flat⟩ = some e →
        hasTierOn e.blockMeta.locations tier node = true
  | .reconcileDeadNode node => ∀ k e, a.block? k = some e → tierCountOn .l0 node e.blockMeta.locations ≤ 1
  | .gcCold m r raw _ => ∀ pk p, resolvePoolKind raw = .ok pk → a.pool? ⟨m, r⟩ pk = some p → p.FewIdle
  | .reconcileOrphans _ _ req =>
      (req.deadNodeId.isEmpty = false → ∀ k e, a.block? k = some e →
        tierCountOn .l0 req.deadNodeId e.blockMeta.locations ≤ 1) ∧
      ∀ pk p, resolvePoolKind req.gcPoolKind = .ok pk → a.pool? ⟨req.gcModelId, req.gcRevision⟩ pk = some p →
        -- A block that only the dead node referenced goes inactive in the same call.
        if req.deadNodeId.isEmpty then p.FewIdle else p.AllMetas FewVolatile
  | _ => True

namespace Authority

variable {a b : Authority B} {S : Set (List Flat)}

def Shadowing (S : Set (List Flat)) (a : Authority B) : Prop :=
  ∀ key pk p, a.pool? key pk = some p → Indexed S key pk p ∧ p.Shadowed

variable {op : Op} {key : NamespaceKey} {node : String} {pk : Int}

section

variable (hB : B.Lawful)
include hB

variable (hS : B.InjectiveOn S)
include hS

theorem step_shadowing_plain (hreg : ∀ k c, ¬op.Registers k c)
    (hgc : ∀ key key' pk n, ¬op.May (B := B) key (.gcCold key' pk n))
    (hne : ∀ x y req, op ≠ .reconcileOrphans x y req) (hop : op.KeepsCounts a) (h : Shadowing S a) :
    Shadowing S (a.step op) := by
  have hall : ∀ key pk p, (a.step op).pool? key pk = some p → (Indexed S key pk p ∧ p.Shadowed) ∧
      ∀ node, op = .reconcileDeadNode node → p.AllMetas fun m => tierCountOn .l0 node m.locations ≤ 1 := by
    refine step_pools_found (fun key pk cap => ⟨⟨.new hB S key pk cap, .new cap⟩, fun _ _ => .new cap⟩)
      (fun key pk p act hmay hfound hguard hI => ?_) (fun key pk p hp => ⟨h key pk p hp, ?_⟩)
    · obtain ⟨⟨hidx, hsh⟩, hone⟩ := hI
      have hfit : ChainsFit op key pk p := fun f c e hc => absurd hc (hreg _ c)
      refine ⟨⟨hidx.apply hB hS (fun k c hc => absurd hc (hreg k c)) hmay hguard hfit, ?_⟩, ?_⟩
      · cases act with
        | evict n => exact hsh.dropInactiveVictims hB n
        | register b => exact absurd (poolMay_registers hmay) (hreg _ _)
        | discard flat e =>
          exact hsh.of_sub (fun _ _ hf => (lookup_erase_some hf).2)
            (fun _ _ hs => (lookup_erase_some hs).2) rfl
        | gcCold key' pk' n => exact absurd hmay.2.2 (hgc _ _ _ _)
        | setRef flat e kind value =>
          rw [PoolAction.apply, setRef_eq]
          exact hsh.of_sub (fun _ _ hf => hf) (fun _ _ hs => hs) rfl
        | touchRefs flat e => exact hsh.of_sub (fun _ _ hf => hf) (fun _ _ hs => hs) rfl
        | strip key' pk' node flat =>
          refine hsh.stripFlat hidx.index key' pk' node flat fun e he => ?_
          cases op with
          | reconcileDeadNode node' =>
            cases hmay with
            | strip => exact hone node rfl flat e he
            | clearRef _ hsub => cases hsub
          | reconcileOrphans x y req => exact absurd rfl (hne x y req)
          | _ => contradiction
        | clearMarks node => exact hsh.of_sub (fun _ _ hf => hf) (fun _ _ hs => hs) rfl
        | publish flat e tier node seg off present =>
          refine hsh.publish hidx.index seg off hguard.1 fun hp hm => ?_
          cases op with
          | publishLocationAt m r raw flat' tier' node' seg' off' present' =>
            cases hmay with
            | publish hpk => exact hop hp hm pk e hpk hfound
          | _ => contradiction
        | setL3 flat e present => exact hsh.sameCounts hidx.index hguard fun _ => rfl
        | relocate flat e tier node seg off =>
          refine hsh.relocate hidx.index seg off hguard fun ht => ?_
          cases op with
          | relocateInView m r raw flat' tier' node' seg' off' =>
            cases hmay with
            | relocate hpk => exact hop ht pk e hpk hfound
          | _ => contradiction
        | touchHits | markPlaced | recordHit => exact hsh.of_sub (fun _ _ hf => hf) (fun _ _ hs => hs) rfl
      · rintro node rfl
        refine (hone node rfl).apply hB hguard ?_ ?_ ?_ ?_ ?_ ?_
        · rintro b rfl
          exact absurd (poolMay_registers hmay) (hreg _ _)
        · exact fun m hm => ((filter_sublist).countP_le).trans hm
        · exact fun m node' hm => ((filter_sublist).countP_le).trans hm
        all_goals
          intros
          subst_vars
          contradiction
    · rintro node rfl
      intro f e he
      exact hop ⟨key.modelId, key.revision, pk, f⟩ e (block?_eq_some.mpr ⟨p, hp, he⟩)
  exact fun key pk p hp => (hall key pk p hp).1

theorem step_shadowing_gcCold {m r : String} {raw : Int} {n : Nat}
    (hop : (Op.gcCold m r raw n).KeepsCounts a) (h : Shadowing S a) : Shadowing S (a.step (.gcCold m r raw n)) := by
  have hkeeps : KeepsChainsIn S a (.gcCold m r raw n) := keepsChainsIn_of_not_registers fun k c hc => by cases hc
  intro key pk q hq
  refine ⟨step_indexed hB hS hkeeps.1 hkeeps.2 (fun key pk p hp => (h key pk p hp).1) key pk q hq, ?_⟩
  rcases gcCold_pool? hq with hp | ⟨p, rfl, hpk, hp, rfl⟩
  · exact (h key pk q hp).2
  · obtain ⟨hidx, hsh⟩ := h _ _ p hp
    refine hsh.gcCold hB hidx.index _ pk n fun f e he hin => ?_
    exact hop pk p hpk hp f e he ((hB.has_iff _ _).mpr hin)

theorem registerAll_shadowed (hkeep : a.KeepsChains op)
    (hchains : ∀ k c, op.Registers k c → c ∈ S) (placed : List (PlacedBlock B))
    (hmay : ∀ x ∈ placed, PoolMay op.May key pk (.register x))
    (hnodup : (placed.map fun x => x.id.blockHash).Nodup) (p : PoolView B) (hidx : Indexed S key pk p)
    (hfit : ChainsFit op key pk p) (hsh : p.Shadowed)
    (hfree : ∀ x ∈ placed, ∀ e, p.byFlat.lookup x.id.blockHash = some e →
      ∀ k : Marker, tierCount k.tier e.blockMeta.locations = 0) : (p.registerAll placed).1.Shadowed := by
  induction placed generalizing p with
  | nil => exact hsh
  | cons x xs ih =>
    obtain ⟨hx, hnodup⟩ := nodup_cons.mp hnodup
    have hmayx := hmay x mem_cons_self
    have hseq := (hidx.register_fits hS hchains hmayx hfit).2
    refine ih (fun y hy => hmay y (mem_cons_of_mem _ hy)) hnodup _ (hidx.apply hB hS hchains hmayx trivial hfit)
      (hfit.apply hB hkeep.1 hmayx trivial) (hsh.registerPlaced hidx.index hseq (hfree x mem_cons_self)) ?_
    intro y hy e he
    have hne : y.id.blockHash ≠ x.id.blockHash := fun heq => hx (mem_map.mpr ⟨y, hy, heq⟩)
    rw [registerPlaced, registerBlock, lookup_insert_if, if_neg hne] at he
    exact hfree y (mem_cons_of_mem _ hy) e he

theorem step_shadowing_register {chain : List Flat}
    {metas : List BlockMeta} (hkeep : KeepsChainsIn S a (.register node chain metas))
    (hop : (Op.register node chain metas).KeepsCounts a) (h : Shadowing S a) :
    Shadowing S (a.step (.register node chain metas)) := by
  let op := Op.register node chain metas
  -- The evictions that make room leave the other blocks as they were before the call.
  have hevicted : ∀ b, Run Evicts a b → ∀ key pk q, b.pool? key pk = some q →
      (Indexed S key pk q ∧ q.Shadowed) ∧ ∀ f e, q.byFlat.lookup f = some e →
        a.block? ⟨key.modelId, key.revision, pk, f⟩ = some e := by
    intro b hrun
    refine hrun.evicted (fun key pk cap => ⟨⟨.new hB S key pk cap, .new cap⟩, by simp [PoolView.new]⟩)
      (fun key pk p n hI => ?_) (fun key pk p hp => ⟨h key pk p hp, fun f e he => ?_⟩)
    · obtain ⟨⟨hidx, hsh⟩, hold⟩ := hI
      have hsub : ∀ f e, (p.dropInactiveVictims n).1.byFlat.lookup f = some e → p.byFlat.lookup f = some e := by
        intro f e he
        rw [byFlat_dropInactiveVictims] at he
        split at he
        · cases he
        · exact he
      refine ⟨⟨⟨fun f e he => hidx.keyed f e (hsub f e he), fun f e he => hidx.chains f e (hsub f e he),
        hidx.index.dropInactiveVictims hB n⟩, hsh.dropInactiveVictims hB n⟩, fun f e he => hold f e (hsub f e he)⟩
    · exact block?_eq_some.mpr ⟨p, hp, he⟩
  intro key pk q hq
  refine ⟨step_indexed hB hS hkeep.1 hkeep.2 (fun key pk p hp => (h key pk p hp).1) key pk q hq, ?_⟩
  rcases register_split a node chain metas with hrun | ⟨key', pk', b, hcheck, hrun, heq⟩
  · exact (hevicted _ hrun key pk q hq).1.2
  rw [step, heq] at hq
  rcases insertBatch_pool? hq with hp | ⟨ns, hns, rfl, rfl, rfl⟩
  · exact (hevicted b hrun key pk q hp).1.2
  have hmut : (Indexed S key pk (ns.poolMut pk) ∧ (ns.poolMut pk).Shadowed) ∧
      ∀ f e, (ns.poolMut pk).byFlat.lookup f = some e → a.block? ⟨key.modelId, key.revision, pk, f⟩ = some e := by
    cases hp : ns.pools.lookup pk with
    | none =>
      have hnew : ns.poolMut pk = PoolView.new B ns.inactiveCap := by simp [Namespace.poolMut, hp]
      rw [hnew]
      exact ⟨⟨.new hB S key pk _, .new _⟩, by simp [PoolView.new]⟩
    | some p =>
      rw [poolMut_of_lookup hp]
      exact hevicted b hrun key pk p (pool?_eq_some.mpr ⟨ns, hns, hp⟩)
  obtain ⟨⟨hidx, hsh⟩, hold⟩ := hmut
  have hmay : ∀ x ∈ metas.filterMap (placeBlock B node pk chain), PoolMay op.May key pk (.register x) :=
    fun x hx => ⟨_, .insert hcheck, hx⟩
  refine registerAll_shadowed hB hS hkeep.1 hkeep.2 _ hmay ?_ _ hidx ?_ hsh ?_
  · rw [placed_hashes hcheck]
    exact hop.1
  · exact fun f c e hc he => hkeep.1.2 rfl _ c e hc (hold f e he)
  · intro x hx e he
    obtain ⟨m, hm, hplace⟩ := mem_filterMap.mp hx
    obtain ⟨id, hid, hxid, -⟩ := placeBlock_eq_some hplace
    have hmem : id ∈ batchIds metas := mem_filterMap.mpr ⟨m, hm, hid⟩
    obtain ⟨hkey, hkind, -⟩ := checkBatch_eq_ok hcheck hmem
    refine hop.2 id hmem e ?_
    rw [fromId_of_resolve hkind]
    have hfound := hold _ e he
    rw [hxid, ← hkey] at hfound
    exact hfound

end

theorem shadowing_congr (hn : b.namespaces = a.namespaces) (h : Shadowing S a) : Shadowing S b :=
  fun key pk p hp => h key pk p (pool?_congr hn key pk ▸ hp)

theorem block?_congr (hn : b.namespaces = a.namespaces) (k : BlockKey) : b.block? k = a.block? k := by
  simp [block?, pool?_congr hn]

variable (hB : B.Lawful)
include hB

theorem step_shadowing_deadNode (hS : B.InjectiveOn S)
    (hop : (Op.reconcileDeadNode node).KeepsCounts a) (h : Shadowing S a) :
    Shadowing S (a.step (.reconcileDeadNode node)) := by
  refine step_shadowing_plain hB hS (fun k c hc => by cases hc) ?_ (by simp) hop h
  intro key key' pk n hmay
  cases hmay with
  | clearRef _ hsub => cases hsub

theorem fewVolatile_deadNode (node : String)
    (h : ∀ p, a.pool? key pk = some p → p.AllMetas FewVolatile) {q : PoolView B}
    (hq : (a.step (.reconcileDeadNode node)).pool? key pk = some q) : q.AllMetas FewVolatile := by
  refine step_pools (I := fun key' pk' p => key' = key → pk' = pk → p.AllMetas FewVolatile)
    (fun _ _ cap _ _ => .new cap) (fun key' pk' p act hmay hguard hI hk hpk => ?_)
    (fun key' pk' p hp hk hpk => h p (hk ▸ hpk ▸ hp)) key pk q hq rfl rfl
  refine (hI hk hpk).apply hB hguard ?_ ?_ ?_ ?_ ?_ ?_
  · rintro b rfl
    exact absurd (poolMay_registers hmay) (by rintro ⟨⟩)
  · exact fun m hm => ⟨((filter_sublist).countP_le).trans hm.1, ((filter_sublist).countP_le).trans hm.2⟩
  · exact fun m _ hm => ⟨((filter_sublist).countP_le).trans hm.1, ((filter_sublist).countP_le).trans hm.2⟩
  all_goals
    intros
    subst_vars
    contradiction

theorem step_shadowing_orphans (hS : B.InjectiveOn S) {now₁ now₂ : Nat}
    {req : ReconcileOrphansRequest} (hop : (Op.reconcileOrphans now₁ now₂ req).KeepsCounts a) (h : Shadowing S a) :
    Shadowing S (a.step (.reconcileOrphans now₁ now₂ req)) := by
  let swept := (a.step (.reportOrphans now₁ req.reports)).step (.sweepOrphans now₂ req.orphanTtlMs)
  have hswept : swept.namespaces = a.namespaces :=
    ((reportOrphans_run a now₁ req.reports).trans (sweepOrphans_run _ now₂ req.orphanTtlMs)).namespaces_eq
  have hstart : Shadowing S swept := shadowing_congr hswept h
  have hgc : ∀ b : Authority B, Shadowing S b →
      (∀ pk p, resolvePoolKind req.gcPoolKind = .ok pk → b.pool? ⟨req.gcModelId, req.gcRevision⟩ pk = some p →
        p.FewIdle) →
      Shadowing S ((if 0 < req.gcColdLimit ∧ ¬req.gcModelId.isEmpty then
        [Op.gcCold req.gcModelId req.gcRevision req.gcPoolKind req.gcColdLimit] else []).foldl step b) := by
    intro b hb hfew
    split
    · exact step_shadowing_gcCold hB hS hfew hb
    · exact hb
  rw [step, reconcileOrphans_calls, orphanCalls, foldl_append, foldl_append]
  cases hempty : req.deadNodeId.isEmpty with
  | true =>
    refine hgc swept hstart fun pk p hpk hp => ?_
    have hfew := hop.2 pk p hpk (pool?_congr hswept _ pk ▸ hp)
    rwa [if_pos hempty] at hfew
  | false =>
    have hone : (Op.reconcileDeadNode req.deadNodeId).KeepsCounts swept :=
      fun k e he => hop.1 hempty k e (block?_congr hswept k ▸ he)
    refine hgc _ (step_shadowing_deadNode hB hS hone hstart) fun pk p hpk hp f e he _ => ?_
    refine fewVolatile_deadNode hB _ (fun p hp => ?_) hp f e he
    have hfew := hop.2 pk p hpk (pool?_congr hswept _ pk ▸ hp)
    rwa [if_neg (by simp [hempty])] at hfew

theorem step_chains {k : BlockKey} {e : Entry B} (h : (a.step op).block? k = some e) :
    (∃ d, a.block? k = some d ∧ d.prefixChain = e.prefixChain) ∨ op.Registers k e.prefixChain := by
  obtain ⟨p, hp, he⟩ := block?_eq_some.mp h
  refine step_pools (I := fun key pk p => ∀ f e, p.byFlat.lookup f = some e →
    (∃ d, a.block? ⟨key.modelId, key.revision, pk, f⟩ = some d ∧ d.prefixChain = e.prefixChain) ∨
      op.Registers ⟨key.modelId, key.revision, pk, f⟩ e.prefixChain) ?_ ?_ ?_ _ _ p hp k.flat e he
  · intro key pk cap f e he
    simp [PoolView.new] at he
  · intro key pk p act hmay hguard hI f e' he'
    rcases chain_apply hB hguard he' with ⟨b, rfl, rfl, hchain⟩ | ⟨e, he, hchain⟩
    · rw [hchain]
      exact .inr (poolMay_registers hmay)
    · rw [hchain]
      exact hI f e he
  · exact fun key pk p hp f e he => .inl ⟨e, block?_eq_some.mpr ⟨p, hp, he⟩, rfl⟩

theorem foldl_shadowing (hS : B.InjectiveOn S) {ops done : List Op}
    (hcalls : ∀ o ∈ ops, (∃ desc, o = .registerModel desc) ∨ ∃ node chain m, o = .register node chain [m])
    (hone : ∀ o ∈ done ++ ops, ∀ o' ∈ done ++ ops, ∀ k c c', o.Registers k c → o'.Registers k c' → c = c')
    (hchains : ∀ o ∈ ops, ∀ k c, o.Registers k c → c ∈ S)
    (hnodup : (((done ++ ops).flatMap Op.ids).map BlockKey.fromId).Nodup) (h : Shadowing S a)
    (hdone : ∀ k e, a.block? k = some e → ∃ o ∈ done, o.Registers k e.prefixChain) :
    Shadowing S (ops.foldl step a) := by
  induction ops generalizing a done with
  | nil => exact h
  | cons o ops ih =>
    have hlist : done ++ o :: ops = (done ++ [o]) ++ ops := by simp
    have hmem : o ∈ done ++ o :: ops := by simp
    have hkeep : KeepsChainsIn S a o := by
      refine ⟨⟨fun k c c' => hone o hmem o hmem k c c', fun _ k c e hc he => ?_⟩, hchains o mem_cons_self⟩
      obtain ⟨o', ho', hc'⟩ := hdone k e he
      exact hone o' (mem_append_left _ ho') o hmem k _ _ hc' hc
    have hstep : Shadowing S (a.step o) := by
      rcases hcalls o mem_cons_self with ⟨desc, rfl⟩ | ⟨node, chain, m, rfl⟩
      · exact step_shadowing_plain hB hS (fun k c hc => by cases hc) (fun _ _ _ _ hmay => by cases hmay) (by simp)
          trivial h
      refine step_shadowing_register hB hS hkeep ⟨?_, fun id hid e he => ?_⟩ h
      · cases hid : m.id <;> simp [batchIds, hid]
      · -- The block would have come with an earlier call.
        obtain ⟨o', ho', hc'⟩ := hdone _ e he
        obtain ⟨id', hid', hk⟩ := hc'.mem_ids
        rw [flatMap_append, map_append, nodup_append] at hnodup
        refine absurd rfl (hnodup.2.2 (.fromId id) ?_ (.fromId id) ?_)
        · rw [hk]
          exact mem_map_of_mem (mem_flatMap.mpr ⟨o', ho', hid'⟩)
        · exact mem_map_of_mem (mem_flatMap.mpr ⟨_, mem_cons_self, hid⟩)
    rw [foldl_cons]
    refine @ih (a.step o) (done ++ [o]) (fun x hx => hcalls x (mem_cons_of_mem _ hx)) (hlist ▸ hone)
      (fun x hx => hchains x (mem_cons_of_mem _ hx)) (hlist ▸ hnodup) hstep fun k e he => ?_
    rcases step_chains hB he with ⟨d, hd, hchain⟩ | hc
    · obtain ⟨o', ho', hc'⟩ := hdone k d hd
      exact ⟨o', mem_append_left _ ho', hchain ▸ hc'⟩
    · exact ⟨o, by simp, hc⟩

end Authority

theorem CheckpointSnapshot.mem_calls (h : o ∈ snap.calls) :
    (∃ desc, o = .registerModel desc) ∨ ∃ cb ∈ snap.blocks, ∃ row, importRow cb = .ok (some row) ∧
      o = .register row.nodeId row.chain [row.blockMeta] := by
  rcases mem_append.mp h with h | h
  · obtain ⟨desc, -, rfl⟩ := mem_map.mp h
    exact .inl ⟨desc, rfl⟩
  · obtain ⟨cb, hcb, hcall⟩ := mem_filterMap.mp h
    refine .inr ⟨cb, (mem_insertionSort _).mp hcb, ?_⟩
    unfold call at hcall
    split at hcall
    next row hrow => exact ⟨row, hrow, (Option.some.inj hcall).symm⟩
    · simp at hcall

theorem CheckpointSnapshot.registers_of_mem_calls (h : o ∈ snap.calls)
    {k : BlockKey} {c : List Flat} (hc : o.Registers k c) : (Op.importSnapshot snap).Registers k c := by
  rcases mem_calls h with ⟨desc, rfl⟩ | ⟨cb, hcb, row, hrow, rfl⟩
  · cases hc
  cases hc with
  | @register _ _ _ id hid =>
    obtain ⟨m, hm, hmid⟩ := mem_filterMap.mp hid
    cases List.mem_singleton.mp hm
    exact .importSnapshot hcb hrow hmid

theorem CheckpointSnapshot.calls_ids (snap : CheckpointSnapshot) :
    (snap.calls.flatMap Op.ids).Perm (Op.importSnapshot snap).ids := by
  have hmodels : ∀ ms : List ModelDescriptor, (ms.map Op.registerModel).flatMap Op.ids = [] := by
    intro ms
    simp [flatMap_map, Op.ids]
  have hrow : ∀ cb : CheckpointBlock, cb.call.toList.flatMap Op.ids = cb.importId.toList := by
    intro cb
    unfold call importId
    cases importRow cb with
    | error e => rfl
    | ok row =>
      cases row with
      | none => rfl
      | some row => cases hid : row.blockMeta.id <;> simp [Op.ids, batchIds, hid]
  have hrows : ∀ rows : List CheckpointBlock, (rows.filterMap call).flatMap Op.ids = rows.filterMap importId := by
    intro rows
    rw [filterMap_eq_flatMap_toList, filterMap_eq_flatMap_toList, flatMap_assoc]
    exact flatMap_congr fun cb _ => hrow cb
  rw [calls, flatMap_append, hmodels, nil_append, hrows]
  exact (perm_insertionSort _ _).filterMap _

namespace Authority

variable {a : Authority B} {S : Set (List Flat)}

theorem step_shadowing_import (hB : B.Lawful) (hS : B.InjectiveOn S) {snap : CheckpointSnapshot}
    (hkeep : KeepsChainsIn S a (.importSnapshot snap)) (hop : (Op.importSnapshot snap).KeepsCounts a) :
    Shadowing S (a.step (.importSnapshot snap)) := by
  obtain ⟨ops, hpre, hops, -⟩ := importSnapshot_calls a snap
  have hsub : ∀ o ∈ [] ++ ops, o ∈ snap.calls := fun o ho => hpre.subset ho
  rw [step, hops]
  refine foldl_shadowing hB hS (fun o ho => ?_)
    (fun o ho o' ho' k c c' hc hc' => hkeep.1.1 k c c' (snap.registers_of_mem_calls (hsub o ho) hc)
      (snap.registers_of_mem_calls (hsub o' ho') hc'))
    (fun o ho k c hc => hkeep.2 k c (snap.registers_of_mem_calls (hpre.subset ho) hc)) ?_ ?_ ?_
  · rcases snap.mem_calls (hpre.subset ho) with hdesc | ⟨cb, -, row, -, rfl⟩
    · exact .inl hdesc
    · exact .inr ⟨_, _, _, rfl⟩
  · have hall : ((snap.calls.flatMap Op.ids).map fromId).Nodup :=
      (snap.calls_ids.map fromId).nodup_iff.mpr hop
    obtain ⟨rest, hrest⟩ := hpre
    rw [← hrest, flatMap_append] at hall
    exact hall.sublist ((sublist_append_left _ _).map fromId)
  · intro key pk p hp
    simp [cleared, pool?] at hp
  · intro k e he
    simp [cleared, block?, pool?] at he

theorem step_shadowing (hB : B.Lawful) (hS : B.InjectiveOn S) {op : Op} (hkeep : KeepsChainsIn S a op)
    (hop : op.KeepsCounts a) (h : Shadowing S a) : Shadowing S (a.step op) := by
  cases op with
  | register node chain metas => exact step_shadowing_register hB hS hkeep hop h
  | importSnapshot snap => exact step_shadowing_import hB hS hkeep hop
  | reconcileOrphans now₁ now₂ req => exact step_shadowing_orphans hB hS hop h
  | gcCold m r raw n => exact step_shadowing_gcCold hB hS hop h
  | reconcileDeadNode node => exact step_shadowing_deadNode hB hS hop h
  | _ =>
    exact step_shadowing_plain hB hS (fun k c hc => by cases hc) (fun _ _ _ _ hmay => by cases hmay) (by simp) hop h

/-- In every run that keeps the chains and the counts, the presence count of every block for L0, L1 and
L2 is the number of its locations there, and no count was ever lowered at zero. -/
theorem presence_shadows_locations (hB : B.Lawful) (hS : B.InjectiveOn S)
    (h : ReachableBy (fun a op => KeepsChainsIn S a op ∧ op.KeepsCounts a) a) :
    ∀ key pk p, a.pool? key pk = some p → p.absentAtZero = false ∧
      ∀ flat e x, p.byFlat.lookup flat = some e → p.handles.lookup e.seqHash = some x →
        ∀ k : Marker, x.presence k = tierCount k.tier e.blockMeta.locations := by
  have hall : Shadowing S a := by
    refine Reach.invariant (I := Shadowing S) ?_ (fun s op hI ho => step_shadowing hB hS ho.1 ho.2 hI) h
    intro s hs key pk p hp
    simp [initial_pool? hs] at hp
  intro key pk p hp
  exact ⟨(hall key pk p hp).2.never, (hall key pk p hp).2.counts⟩

def warmMeta (f : UInt8) : BlockMeta :=
  { sampleMeta f with locations := [sampleLocation .l0 "n", sampleLocation .l2 "n"] }

def movedRun : List Op :=
  [.registerModel (sampleModel 0 0), .register "n" [[1]] [warmMeta 1],
    .publishLocationAt "m" "r" 1 [1] .l0 "n2" 1 0 true, .publishLocationAt "m" "r" 1 [1] .l0 "n" 1 0 false]

theorem presence_shadows_locations_moved :
    ∃ p, (sampleRun movedRun).pool? sampleKey poolTarget = some p ∧ p.absentAtZero = false ∧
      ∀ flat e x, p.byFlat.lookup flat = some e → p.handles.lookup e.seqHash = some x →
        ∀ k : Marker, x.presence k = tierCount k.tier e.blockMeta.locations := by
  have hS : sampleBackend.InjectiveOn {[[1]]} := by
    rintro c rfl d rfl - -
    rfl
  refine Exists.imp (fun p hp => ⟨hp, presence_shadows_locations sampleBackend_lawful hS ?_ sampleKey poolTarget p hp⟩)
    (Option.isSome_iff_exists.mp (by decide))
  refine sampleRun_reachableBy _ ⟨⟨?_, trivial⟩, ⟨?_, by decide, ?_⟩, ⟨?_, nofun⟩, ⟨?_, ?_⟩, trivial⟩
  · exact keepsChainsIn_of_not_registers fun k c hc => by cases hc
  · exact keepsChainsIn_register (by decide) (by decide)
  · intro id hid e he
    cases List.mem_singleton.mp hid
    have hnone : ((sampleRun (movedRun.take 1)).block? ⟨"m", "r", 1, [1]⟩).isNone := by decide
    rw [show (sampleRun (movedRun.take 1)).block? ⟨"m", "r", 1, [1]⟩ = some e from he] at hnone
    simp at hnone
  · exact keepsChainsIn_of_not_registers fun k c hc => by cases hc
  · exact keepsChainsIn_of_not_registers fun k c hc => by cases hc
  · intro _ _ pk e hpk he
    cases Except.ok.inj hpk
    have hone : ((sampleRun (movedRun.take 3)).block? ⟨"m", "r", 1, [1]⟩).map
        (fun e => tierCountOn .l0 "n" e.blockMeta.locations) = some 1 := by decide
    rw [show (sampleRun (movedRun.take 3)).block? ⟨"m", "r", 1, [1]⟩ = some e from he] at hone
    exact (Option.some.inj hone).le

def shadowOf (a : Authority B) (key : NamespaceKey) (pk : Int) (flat : Flat) (k : Marker) : Option (Nat × Nat) := do
  let p ← a.pool? key pk
  let e ← p.byFlat.lookup flat
  let x ← p.handles.lookup e.seqHash
  pure (x.presence k, tierCount k.tier e.blockMeta.locations)

/-- Registering a block again counts its copies again, so that one is left when all are withdrawn; and
withdrawing a copy that a relocation brought lowers a counter at zero. -/
theorem reregistered_block_counted_twice :
    (sampleRun [.registerModel (sampleModel 0 0), .register "n" [[1]] [warmMeta 1], .register "n" [[1]] [warmMeta 1],
        .publishLocationAt "m" "r" 1 [1] .l0 "n" 1 0 false]).Reachable ∧
      (sampleRun [.registerModel (sampleModel 0 0), .register "n" [[1]] [warmMeta 1], .register "n" [[1]] [warmMeta 1],
        .publishLocationAt "m" "r" 1 [1] .l0 "n" 1 0 false]).shadowOf sampleKey poolTarget [1] .tierL0 = some (1, 0) ∧
      ((sampleRun [.registerModel (sampleModel 0 0), .register "n" [[1]] [sampleMeta 1],
        .relocateInView "m" "r" 1 [1] .l0 "n" 1 0, .publishLocationAt "m" "r" 1 [1] .l0 "n" 1 0 false]).pool? sampleKey
          poolTarget).map PoolView.absentAtZero = some true :=
  ⟨sampleRun_reachable _, by decide, by decide⟩

end Authority

end LakeKv
