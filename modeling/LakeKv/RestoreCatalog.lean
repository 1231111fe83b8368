import LakeKv.Catalog

namespace LakeKv

open Catalog Finmap List PoolView Saturating View

variable {B : Backend}

/-- A pool that has had blocks registered and nothing else. -/
structure PoolView.Unused (p : PoolView B) : Prop where
  inactive : B.nodes p.inactive = ∅
  refs : p.globalRefs = ∅
  hits : p.hitCounts = ∅
  marks : p.placementMarks = ∅

theorem PoolView.registerPlaced_unused (hB : B.Lawful) {p : PoolView B} (h : p.Unused) (b : PlacedBlock B) :
    (p.registerPlaced b).Unused where
  inactive := by
    simp only [PoolView.registerPlaced, PoolView.registerBlock]
    split
    · exact h.inactive
    · rw [hB.nodes_touch, h.inactive]
  refs := h.refs
  hits := h.hits
  marks := h.marks

theorem PoolView.new_unused (hB : B.Lawful) (cap : Nat) : (PoolView.new B cap).Unused :=
  ⟨hB.nodes_withFrequency _, rfl, rfl, rfl⟩

def Entry.record (e : Entry B) : BlockRecord :=
  ⟨e.blockMeta, e.prefixChain⟩

theorem foldl_erase_empty {α β γ : Type} [DecidableEq α] (f : γ → α) (xs : List γ) :
    xs.foldl (fun (m : Map α β) x => m.erase (f x)) ∅ = ∅ := by
  apply ext_lookup
  intro y
  rw [lookup_foldl_erase]
  split <;> rfl

variable {chain : List Flat}

theorem lastIndexOf_of_mem {h : Flat} (hmem : h ∈ chain) : ∃ pos, lastIndexOf h chain = some pos := by
  induction chain with
  | nil => simp at hmem
  | cons x xs ih =>
    unfold lastIndexOf
    cases hxs : lastIndexOf h xs with
    | some pos => exact ⟨pos + 1, rfl⟩
    | none =>
      rcases mem_cons.mp hmem with rfl | hmem
      · exact ⟨0, if_pos rfl⟩
      · obtain ⟨pos, hpos⟩ := ih hmem
        simp [hxs] at hpos

theorem placeBlock_of_mem (B : Backend) (nodeId : String) (pk : Int) {m : BlockMeta} {id : KvBlockId}
    (hid : m.id = some id) (hmem : id.blockHash ∈ chain) :
    ∃ b, placeBlock B nodeId pk chain m = some b := by
  obtain ⟨pos, hpos⟩ := lastIndexOf_of_mem hmem
  have hlt : pos < (B.lineageFromPrefix chain).length := by
    rw [Backend.lineageFromPrefix_length]
    exact lastIndexOf_lt hpos
  simp [placeBlock, hid, hpos, getElem?_eq_getElem hlt]

theorem importRow_id {cb : CheckpointBlock} {row : ImportRow} (h : importRow cb = .ok (some row)) :
    ∃ id, row.blockMeta.id = some id ∧ (id.poolKind = poolTarget ∨ id.poolKind = poolDraft) ∧
      id.blockHash ∈ row.chain := by
  obtain ⟨m, id, -, -, hmem, -, pk, hk, hrow⟩ := importRow_eq_ok h
  refine ⟨{ id with poolKind := pk }, by rw [hrow], ?_, hmem⟩
  rcases hk with hk | hk
  · exact resolvePoolKind_range hk
  · exact .inl hk

theorem resolvePoolKind_of_range {pk : Int} (h : pk = poolTarget ∨ pk = poolDraft) : resolvePoolKind pk = .ok pk := by
  rcases h with rfl | rfl <;> rfl

theorem checkBatch_single {m : BlockMeta} {id : KvBlockId} (hid : m.id = some id)
    (hkind : id.poolKind = poolTarget ∨ id.poolKind = poolDraft) (hmem : id.blockHash ∈ chain) :
    checkBatch chain [m] = .ok (.fromId id, id.poolKind) := by
  obtain ⟨pos, hpos⟩ := lastIndexOf_of_mem hmem
  have hne : chain ≠ [] := ne_nil_of_mem hmem
  have hblock : checkBlock (.fromId id) id.poolKind chain id = .ok pos := by
    simp [checkBlock, NamespaceKey.fromId, resolvePoolKind_of_range hkind, hpos]
  have hids : batchIds [m] = [id] := by simp [batchIds, hid]
  simp only [checkBatch, hids, resolvePoolKind_of_range hkind, hne, ↓reduceIte, mapM_cons, mapM_nil, hblock]
  rfl

/-- A namespace table with one more model, without blocks, or with the new quota of a model that it has. -/
def enterModel (cap : Nat) (table : Map NamespaceKey (Namespace B)) (m : ModelDescriptor) :
    Map NamespaceKey (Namespace B) :=
  table.insert m.key (((table.lookup m.key).map fun ns =>
    { ns with descriptor := { ns.descriptor with quota := m.quota } }).getD (.new B m cap))

/-- A namespace table with the block of a row entered and nothing evicted, touched or referenced for it. -/
def enterBlock (table : Map NamespaceKey (Namespace B)) (row : ImportRow) (id : KvBlockId) :
    Map NamespaceKey (Namespace B) :=
  match table.lookup (.fromId id), placeBlock B row.nodeId id.poolKind row.chain row.blockMeta with
  | some ns, some b => table.insert (.fromId id) ((NsAction.registerAll id.poolKind [b]).apply ns)
  | _, _ => table

def enterRow (table : Map NamespaceKey (Namespace B)) (cb : CheckpointBlock) : Map NamespaceKey (Namespace B) :=
  match importRow cb with
  | .ok (some row) => (row.blockMeta.id.map (enterBlock table row)).getD table
  | _ => table

namespace Authority

variable {a start : Authority B} {c : Catalog}

structure Lists (a : Authority B) (c : Catalog) : Prop where
  models : ∀ key, (a.namespaces.lookup key).map Namespace.descriptor = c.models.lookup key
  blocks : ∀ k, (a.block? k).map (fun e => (some e.seqHash, e.record)) =
    (c.blocks.lookup k).map fun r => (B.lineageOf r.prefixChain, r)
  used : ∀ key ns, a.namespaces.lookup key = some ns → ns.usedBytes = c.usage ns.descriptor

/-- A state on the way of a restore that began in `start`, with the catalogue of what it has rebuilt. -/
structure Rebuilds (start a : Authority B) (c : Catalog) : Prop extends Lists a c where
  unused : ∀ key pk p, a.pool? key pk = some p → p.Unused
  orphans : a.orphans = ∅
  nodeRefs : a.nodeRefs = start.nodeRefs
  completedBarriers : a.completedBarriers = start.completedBarriers
  checkpointSeq : a.checkpointSeq = start.checkpointSeq
  viewLog : a.viewLog = start.viewLog
  poolCapacityBytes : a.poolCapacityBytes = start.poolCapacityBytes

namespace Lists

variable {key : NamespaceKey} {ns : Namespace B}

variable (h : a.Lists c)
include h

theorem lookup_eq_some (hns : a.namespaces.lookup key = some ns) : c.models.lookup key = some ns.descriptor := by
  rw [← h.models, hns]
  rfl

theorem lookup_eq_none (hns : a.namespaces.lookup key = none) : c.models.lookup key = none := by
  rw [← h.models, hns]
  rfl

theorem key_eq (hns : a.namespaces.lookup key = some ns) : ns.descriptor.key = key :=
  (c.described key ns.descriptor (h.lookup_eq_some hns)).1

theorem valid (hns : a.namespaces.lookup key = some ns) : ns.descriptor.Valid :=
  (c.described key ns.descriptor (h.lookup_eq_some hns)).2

theorem mem_blocks (k : BlockKey) : k ∈ c.blocks ↔ (a.block? k).isSome := by
  rw [← lookup_isSome]
  have hk := congrArg Option.isSome (h.blocks k)
  rw [Option.isSome_map, Option.isSome_map] at hk
  rw [hk]

theorem totalUsedBytes : a.totalUsedBytes = c.totalUsage := by
  have hkeys : a.namespaces.keys = c.models.keys := by
    ext key
    rw [Finmap.mem_keys, Finmap.mem_keys, ← lookup_isSome, ← lookup_isSome, ← h.models, Option.isSome_map]
  rw [Authority.totalUsedBytes, totalUsage, Finmap.total, Finmap.total, hkeys]
  refine Finset.sum_congr rfl fun key _ => ?_
  rw [← h.models]
  cases hns : a.namespaces.lookup key with
  | none => rfl
  | some ns => exact h.used key ns hns

end Lists

theorem block?_setNs (a : Authority B) (key : NamespaceKey) (ns : Namespace B) (k : BlockKey) :
    (a.setNs key ns).block? k =
      if k.ns = key then (ns.pools.lookup k.poolKind).bind fun p => p.byFlat.lookup k.flat else a.block? k := by
  simp only [block?, pool?, setNs, lookup_insert_if]
  split <;> rfl

variable {k : BlockKey} {cb : CheckpointBlock} {row : ImportRow} {id : KvBlockId}

theorem block?_of_lookup {key : NamespaceKey} {ns : Namespace B} (hns : a.namespaces.lookup key = some ns)
    (hk : k.ns = key) :
    a.block? k = (ns.pools.lookup k.poolKind).bind fun p => p.byFlat.lookup k.flat := by
  subst hk
  simp [block?, pool?, hns]

section Models

variable {m : ModelDescriptor}

theorem registerModel_refused (h : a.Lists c) (hm : c.restoreModel m = none) :
    ∃ e, a.registerModel m = (a, .error e) := by
  have hno : ¬c.AdmitsModel m := by
    intro hadm
    simp [restoreModel, hadm] at hm
  unfold registerModel
  split
  · exact ⟨_, rfl⟩
  next hname =>
    split
    · exact ⟨_, rfl⟩
    next hvalid =>
      have hv : m.Valid := ⟨by simpa using hname, hvalid⟩
      dsimp only
      split
      next ns hns =>
        split
        · exact ⟨_, rfl⟩
        next hid =>
          have hfound : a.namespaces.lookup m.key = some ns := hns
          refine absurd ⟨hv, ?_⟩ hno
          rw [h.lookup_eq_some hfound]
          simpa using hid
      next hns =>
        have hmissing : a.namespaces.lookup m.key = none := hns
        refine absurd ⟨hv, ?_⟩ hno
        rw [h.lookup_eq_none hmissing]
        rfl

theorem Rebuilds.addModel (h : Rebuilds start a c) (hv : m.Valid) {ns : Namespace B}
    (hdesc : ns.descriptor = m) (hused : ns.usedBytes = c.usage m)
    (hpools : ∀ pk p, ns.pools.lookup pk = some p → a.pool? m.key pk = some p)
    (hblocks : ∀ k, k.ns = m.key → ((ns.pools.lookup k.poolKind).bind fun p => p.byFlat.lookup k.flat) = a.block? k) :
    Rebuilds start (a.setNs m.key ns) (c.addModel m hv) where
  models key := by
    simp only [setNs, Catalog.addModel, lookup_insert_if]
    split
    · rw [Option.map_some, hdesc]
    · exact h.models key
  blocks k := by
    have hsame : (a.setNs m.key ns).block? k = a.block? k := by
      rw [block?_setNs]
      split
      next hk => exact hblocks k hk
      · rfl
    rw [hsame]
    exact h.blocks k
  used key ns' hns' := by
    simp only [setNs, lookup_insert_if] at hns'
    split at hns'
    · cases hns'
      rw [hused, hdesc]
      rfl
    · exact h.used key ns' hns'
  unused key pk p hp := by
    simp only [pool?, setNs, lookup_insert_if] at hp
    split at hp
    next hk => exact h.unused m.key pk p (hpools pk p hp)
    · exact h.unused key pk p hp
  orphans := h.orphans
  nodeRefs := h.nodeRefs
  completedBarriers := h.completedBarriers
  checkpointSeq := h.checkpointSeq
  viewLog := h.viewLog
  poolCapacityBytes := h.poolCapacityBytes

theorem registerModel_taken {c' : Catalog} (h : Rebuilds start a c) (hm : c.restoreModel m = some c') :
    ∃ a', a.registerModel m = (a', .ok ()) ∧ Rebuilds start a' c' ∧
      a'.namespaces = enterModel a.inactiveCap a.namespaces m ∧ a'.inactiveCap = a.inactiveCap := by
  unfold restoreModel at hm
  split at hm
  next hadm =>
    cases hm
    obtain ⟨⟨hname, hvalid⟩, hsame⟩ := hadm
    have hvalid' : m.Valid := ⟨hname, hvalid⟩
    simp only [registerModel, hname, hvalid, Bool.false_eq_true, ↓reduceIte]
    cases hns : a.namespaces.lookup ⟨m.modelId, m.revision⟩ with
    | some ns =>
      have hfound : a.namespaces.lookup m.key = some ns := hns
      have hid : descriptorIdentityEq ns.descriptor m = true := by
        rw [h.lookup_eq_some hfound] at hsame
        simpa using hsame
      have hdesc := ModelDescriptor.eq_of_identityEq hid
      simp only [hid, Bool.not_true, Bool.false_eq_true, ↓reduceIte]
      have hentered : Rebuilds start (a.setNs m.key
          { ns with descriptor := { ns.descriptor with quota := m.quota } }) (c.addModel m hvalid') := by
        refine h.addModel hvalid' hdesc ?_ (fun pk p hp => pool?_eq_some.mpr ⟨ns, hns, hp⟩)
          fun k hk => (block?_of_lookup hns hk).symm
        have hkey : ns.descriptor.key = m.key := h.key_eq hns
        have hbytes : m.bytesPerBlock = ns.descriptor.bytesPerBlock := by rw [← hdesc]; rfl
        rw [h.used m.key ns hns, usage, usage, bytesFor, bytesFor, hkey, hbytes]
      refine ⟨_, rfl, hentered, ?_, rfl⟩
      rw [enterModel, hfound]
      rfl
    | none =>
      have hmissing : a.namespaces.lookup m.key = none := hns
      have hempty : c.blocksOf m.key = ∅ := by
        refine Finset.filter_eq_empty_iff.mpr fun k hk hns' => ?_
        have hmem := c.homed k (mem_keys.mp hk)
        rw [hns', ← lookup_isSome, h.lookup_eq_none hmissing] at hmem
        simp at hmem
      refine ⟨_, rfl, h.addModel hvalid' rfl ?_ ?_ ?_, by rw [enterModel, hmissing]; rfl, rfl⟩
      · simp [Namespace.new, usage, bytesFor, hempty, i64Max]
      · intro pk p hp
        simp [Namespace.new] at hp
      · intro k hk
        have hnone : a.namespaces.lookup k.ns = none := hk ▸ hns
        simp [Namespace.new, block?, pool?, hnone]
  · simp at hm

end Models

section

variable (hB : B.Lawful)
include hB

variable (h : Rebuilds start a c)
include h

theorem Rebuilds.inactiveLen {key : NamespaceKey} {ns : Namespace B}
    (hns : a.namespaces.lookup key = some ns) : ns.inactiveLen = 0 := by
  refine Finset.sum_eq_zero fun pk hpk => ?_
  obtain ⟨p, hp⟩ := mem_iff.mp (mem_keys.mp hpk)
  have hidle := (h.unused key pk p (pool?_eq_some.mpr ⟨ns, hns, hp⟩)).inactive
  rw [hp, Option.map_some, Option.getD_some, hB.len_eq, hidle]
  rfl

theorem Rebuilds.inactiveBytes {key : NamespaceKey} {ns : Namespace B}
    (hns : a.namespaces.lookup key = some ns) : ns.inactiveBytes = 0 := by
  simp [Namespace.inactiveBytes, h.inactiveLen hB hns, satMul, clamp, i64Max, i64Min]

theorem Rebuilds.reclaimableBorrowedBytes (key : NamespaceKey) : a.reclaimableBorrowedBytes key = 0 := by
  unfold Authority.reclaimableBorrowedBytes
  induction B.namespaceOrder a.namespaces.keys with
  | nil => rfl
  | cons k ks ih =>
    rw [foldl_cons]
    split
    · exact ih
    split
    · exact ih
    next ns hns =>
      dsimp only
      split
      · exact ih
      next hpos =>
        have hzero : satAdd 0 (min (borrowedBytes ns.usedBytes ns.quota.softBytes) ns.inactiveBytes) = 0 := by
          rw [h.inactiveBytes hB hns, min_eq_right (by omega)]
          rfl
        rw [hzero]
        exact ih

theorem Rebuilds.planBorrow (key : NamespaceKey) {q : Quota}
    (bpb : Int) {projected : Int} (hhard : q.hardBytes = 0 ∨ projected ≤ q.hardBytes) :
    let fits := 0 < start.poolCapacityBytes → q.borrowEnabled = true → 0 < q.softBytes →
      projected - q.softBytes ≤ max (start.poolCapacityBytes - c.totalUsage) 0
    (fits → a.planBorrow key q bpb 0 projected = .ok 0) ∧ (¬fits → ∃ used soft hard deficit,
        a.planBorrow key q bpb 0 projected = .error (.poolCapacity used soft hard deficit)) := by
  have hfree : a.freeBytes =
      if start.poolCapacityBytes ≤ 0 then i64Max / 4 else max (start.poolCapacityBytes - c.totalUsage) 0 := by
    rw [freeBytes, h.poolCapacityBytes, h.totalUsedBytes]
  have hnone : satMul ((0 : Nat) : Int) bpb = 0 := by simp [satMul, clamp, i64Max, i64Min]
  unfold Authority.planBorrow
  rw [h.reclaimableBorrowedBytes hB, h.poolCapacityBytes, hfree, hnone]
  dsimp only
  by_cases hborrow : q.borrowEnabled = true ∧ 0 < q.softBytes ∧ q.softBytes < projected
  · rw [if_pos hborrow]
    obtain ⟨henabled, hsoft, hmore⟩ := hborrow
    by_cases hcap : 0 < start.poolCapacityBytes
    · have hlimited : ¬start.poolCapacityBytes ≤ 0 := by omega
      simp only [if_pos hcap, if_neg hlimited, add_zero]
      refine ⟨fun hfits => ?_, fun hfits => ?_⟩
      · have hle := hfits hcap henabled hsoft
        exact if_neg (by omega)
      · have hlt : max (start.poolCapacityBytes - c.totalUsage) 0 < projected - q.softBytes := by
          by_contra hle
          exact hfits fun _ _ _ => by omega
        rw [if_pos (by omega), if_pos ⟨by omega, hcap, hhard⟩]
        exact ⟨_, _, _, _, rfl⟩
    · have hunlimited : start.poolCapacityBytes ≤ 0 := by omega
      simp only [if_neg hcap, if_pos hunlimited]
      refine ⟨fun _ => ?_, fun hfits => absurd (fun hpos => absurd hpos hcap) hfits⟩
      split
      next hlt =>
        rw [if_neg (fun hc => hcap hc.2.1), min_eq_right (by omega)]
      · rfl
  · rw [if_neg hborrow]
    refine ⟨fun _ => rfl, fun hfits => absurd (fun _ henabled hsoft => ?_) hfits⟩
    have hle : projected ≤ q.softBytes := by
      by_contra hlt
      exact hborrow ⟨henabled, hsoft, by omega⟩
    omega

theorem Rebuilds.planAdmit {key : NamespaceKey} {ns : Namespace B} (hns : a.namespaces.lookup key = some ns) :
    (c.HasRoom start.poolCapacityBytes ns.descriptor → a.planAdmit key 1 = .ok (.accept 0 0)) ∧
      (¬c.HasRoom start.poolCapacityBytes ns.descriptor → ∃ bp, a.planAdmit key 1 = .ok (.reject bp)) := by
  have hused := h.used key ns hns
  have hdelta : satMul ((1 : Nat) : Int) ns.bytesPerBlock = ns.bytesPerBlock := by
    have hpos := ns.descriptor.bytesPerBlock_pos
    rw [satMul, Nat.cast_one, one_mul]
    exact clamp_of_le hpos.le ns.descriptor.bytesPerBlock_le
  have hprojected : satAdd ns.usedBytes ns.bytesPerBlock =
      bytesFor ns.descriptor ((c.blocksOf ns.descriptor.key).card + 1) := by
    rw [hused]
    exact satAdd_bytesFor _ _
  have hsim : satSub ns.usedBytes (satMul ((0 : Nat) : Int) ns.bytesPerBlock) = ns.usedBytes := by
    have hzero : satMul ((0 : Nat) : Int) ns.bytesPerBlock = 0 := by simp [satMul, clamp, i64Max, i64Min]
    rw [hzero, satSub, sub_zero, hused]
    exact clamp_of_le (bytesFor_nonneg _ _) (bytesFor_le _ _)
  have hhard := (h.valid hns).hardBytes_nonneg
  simp only [Authority.planAdmit, hns, one_ne_zero, ↓reduceIte, hdelta, h.inactiveBytes hB hns,
    h.inactiveLen hB hns, Nat.min_zero, hsim, hprojected, classifyWrite, Catalog.HasRoom, Namespace.quota]
  set projected := bytesFor ns.descriptor ((c.blocksOf ns.descriptor.key).card + 1)
  set q := quotaOrDefault ns.descriptor.quota
  by_cases hover : 0 < q.hardBytes ∧ q.hardBytes < projected
  · rw [if_pos ⟨hover.1, hover.2, by omega⟩]
    refine ⟨fun hroom => ?_, fun _ => ⟨_, rfl⟩⟩
    have hle := hroom.1 hover.1
    omega
  · rw [if_neg fun hc => hover ⟨hc.1, hc.2.1⟩]
    have hwithin : q.hardBytes = 0 ∨ projected ≤ q.hardBytes := by omega
    obtain ⟨hfits, hfull⟩ := h.planBorrow hB key ns.bytesPerBlock hwithin
    refine ⟨fun hroom => ?_, fun hroom => ?_⟩
    · rw [hfits hroom.2]
      by_cases hsoft : 0 < q.softBytes ∧ q.softBytes < projected
      · simp only [if_neg hover, if_pos hsoft]
      · simp only [if_neg hover, if_neg hsoft]
    · obtain ⟨used, soft, hard, deficit, herr⟩ := hfull fun hc => hroom ⟨fun hpos => by omega, hc⟩
      rw [herr]
      exact ⟨_, rfl⟩

theorem Rebuilds.admitted {key : NamespaceKey} {ns : Namespace B}
    (hns : a.namespaces.lookup key = some ns) (hk : k.ns = key) :
    let new := (newFlats (ns.pools.lookup k.poolKind) [k.flat]).card
    (k ∈ c.blocks ∨ c.HasRoom start.poolCapacityBytes ns.descriptor →
      a.admitRegisterBytes key new = (a, .ok .accepted)) ∧
    (¬(k ∈ c.blocks ∨ c.HasRoom start.poolCapacityBytes ns.descriptor) →
      ∃ bp, a.admitRegisterBytes key new = (a, .ok (.rejectedHardQuota bp))) := by
  have hmem : k ∈ c.blocks ↔ ((ns.pools.lookup k.poolKind).bind fun p => p.byFlat.lookup k.flat).isSome := by
    rw [h.mem_blocks, block?_of_lookup hns hk]
  by_cases hin : k ∈ c.blocks
  · have hnone : newFlats (ns.pools.lookup k.poolKind) [k.flat] = ∅ := by
      obtain ⟨e, he⟩ := Option.isSome_iff_exists.mp (hmem.mp hin)
      obtain ⟨p, hp, hflat⟩ := Option.bind_eq_some_iff.mp he
      simp [newFlats, hp, mem_of_lookup_eq_some hflat]
    simp only [hnone, Finset.card_empty, hin, true_or, not_true_eq_false, false_implies, and_true, true_implies]
    simp [admitRegisterBytes, Authority.planAdmit, commitAdmit]
  · have hone : (newFlats (ns.pools.lookup k.poolKind) [k.flat]).card = 1 := by
      rw [hmem] at hin
      cases hp : ns.pools.lookup k.poolKind with
      | none => simp [newFlats]
      | some p =>
        rw [hp, Option.bind_some, lookup_isSome] at hin
        simp [newFlats, Finset.filter_singleton, hin]
    obtain ⟨hroom, hfull⟩ := h.planAdmit hB hns
    simp only [hone, hin, false_or]
    refine ⟨fun hr => ?_, fun hr => ?_⟩
    · simp [admitRegisterBytes, hroom hr, commitAdmit]
    · obtain ⟨bp, hbp⟩ := hfull hr
      exact ⟨bp, by simp [admitRegisterBytes, hbp]⟩

end

theorem Rebuilds.addBlock (h : Rebuilds start a c) {r : BlockRecord} (hk : k.ns ∈ c.models)
    {ns : Namespace B} (hdesc : some ns.descriptor = c.models.lookup k.ns)
    (hused : ns.usedBytes = (c.addBlock k r hk).usage ns.descriptor)
    (hunused : ∀ pk p, ns.pools.lookup pk = some p → p.Unused) (hblocks : ∀ k', k'.ns = k.ns →
      ((ns.pools.lookup k'.poolKind).bind fun p => p.byFlat.lookup k'.flat).map (fun e => (some e.seqHash, e.record)) =
      ((c.blocks.insert k r).lookup k').map fun r => (B.lineageOf r.prefixChain, r)) (es : List ViewEvent) :
    Rebuilds start { (a.setNs k.ns ns).emit es with orphans := ∅ } (c.addBlock k r hk) where
  models key := by
    simp only [setNs, emit, lookup_insert_if]
    split
    next he => rw [he]; exact hdesc
    · exact h.models key
  blocks k' := by
    have hstate : ({ (a.setNs k.ns ns).emit es with orphans := ∅ } : Authority B).block? k' =
        (a.setNs k.ns ns).block? k' := rfl
    rw [hstate, block?_setNs]
    split
    next hsame => exact hblocks k' hsame
    next hother =>
      have hne : k' ≠ k := fun he => hother (he ▸ rfl)
      rw [h.blocks k', Catalog.addBlock, lookup_insert_of_ne _ hne]
  used key ns' hns' := by
    simp only [setNs, emit, lookup_insert_if] at hns'
    split at hns'
    · cases hns'
      exact hused
    next hother =>
      have hkey := h.key_eq hns'
      have hcount := c.blocksOf_addBlock k r hk ns'.descriptor.key
      rw [if_neg fun hc => hother (hkey ▸ hc.1.symm), add_zero] at hcount
      rw [h.used key ns' hns', Catalog.usage, Catalog.usage, hcount]
  unused key pk p hp := by
    simp only [pool?, setNs, emit, lookup_insert_if] at hp
    split at hp
    · exact hunused pk p hp
    · exact h.unused key pk p hp
  orphans := rfl
  nodeRefs := h.nodeRefs
  completedBarriers := h.completedBarriers
  checkpointSeq := h.checkpointSeq
  viewLog := h.viewLog
  poolCapacityBytes := h.poolCapacityBytes

section OneBlock

variable (ns : Namespace B) (pk : Int) (b : PlacedBlock B)

theorem poolMut_lookup (f : Flat) :
    (ns.poolMut pk).byFlat.lookup f = (ns.pools.lookup pk).bind fun p => p.byFlat.lookup f := by
  unfold Namespace.poolMut
  cases ns.pools.lookup pk <;> simp [PoolView.new]

theorem registerOne_block : ∃ blockId, ∀ pk' f,
    ((((NsAction.registerAll pk [b]).apply ns).pools.lookup pk').bind fun p => p.byFlat.lookup f) =
      if pk' = pk ∧ f = b.id.blockHash then some ⟨b.seq, b.blockMeta, blockId, b.chain⟩
      else (ns.pools.lookup pk').bind fun p => p.byFlat.lookup f := by
  refine ⟨(((ns.poolMut pk).byFlat.lookup b.id.blockHash).map Entry.blockId).getD (ns.poolMut pk).nextBlockId,
    fun pk' f => ?_⟩
  simp only [NsAction.apply, registerAll, Namespace.setPool, lookup_insert_if]
  by_cases hpk : pk' = pk
  · rw [if_pos hpk, Option.bind_some, registerPlaced, registerBlock, lookup_insert_if]
    by_cases hf : f = b.id.blockHash
    · rw [if_pos hf, if_pos ⟨hpk, hf⟩]
    · rw [if_neg hf, if_neg fun hc => hf hc.2, poolMut_lookup, hpk]
  · rw [if_neg hpk, if_neg fun hc => hpk hc.1]

theorem registerOne_unused (hB : B.Lawful) (h : ∀ pk p, ns.pools.lookup pk = some p → p.Unused) :
    ∀ pk' p, ((NsAction.registerAll pk [b]).apply ns).pools.lookup pk' = some p → p.Unused := by
  intro pk' p hp
  simp only [NsAction.apply, registerAll, Namespace.setPool, lookup_insert_if] at hp
  split at hp
  · cases hp
    refine registerPlaced_unused hB ?_ b
    unfold Namespace.poolMut
    cases hq : ns.pools.lookup pk with
    | none => exact new_unused hB _
    | some q => exact h pk q hq
  · exact h pk' p hp

theorem registerOne_usedBytes {n : Nat} (hused : ns.usedBytes = Catalog.bytesFor ns.descriptor n) :
    ((NsAction.registerAll pk [b]).apply ns).usedBytes = Catalog.bytesFor ns.descriptor
      (n + if ((ns.pools.lookup pk).bind fun p => p.byFlat.lookup b.id.blockHash).isSome then 0 else 1) := by
  have hmem : b.id.blockHash ∈ (ns.poolMut pk).byFlat ↔
      ((ns.pools.lookup pk).bind fun p => p.byFlat.lookup b.id.blockHash).isSome := by
    rw [← lookup_isSome, poolMut_lookup]
  simp only [NsAction.apply, registerAll, add_zero, hmem, hused]
  split
  · rw [Nat.cast_zero, zero_mul, i64_eq (by decide) (by decide), satAdd, add_zero, add_zero]
    exact clamp_of_le (bytesFor_nonneg _ _) (bytesFor_le _ _)
  have hb : 0 < ns.bytesPerBlock := ns.descriptor.bytesPerBlock_pos
  rw [Nat.cast_one, one_mul, i64_eq ((by decide : i64Min ≤ 0).trans hb.le) ns.descriptor.bytesPerBlock_le]
  exact satAdd_bytesFor _ _

end OneBlock

section

variable (hB : B.Lawful)
include hB

variable (h : Rebuilds start a c)
include h

theorem Rebuilds.insertBatch
    (hid : row.blockMeta.id = some id) (hmem : id.blockHash ∈ row.chain) (hns : (View.keyOf id).ns ∈ c.models) :
    ∃ a', a.insertBatch row.nodeId (.fromId id) id.poolKind row.chain [row.blockMeta] = (a', .ok .accepted) ∧
      Rebuilds start a' (c.addBlock (View.keyOf id) (row.record id) hns) ∧
        a'.namespaces = enterBlock a.namespaces row id ∧ a'.inactiveCap = a.inactiveCap := by
  obtain ⟨d, hlisted⟩ := mem_iff.mp hns
  obtain ⟨ns, hfound, rfl⟩ := Option.map_eq_some_iff.mp ((h.models _).trans hlisted)
  have hfound : a.namespaces.lookup (.fromId id) = some ns := hfound
  obtain ⟨b, hb⟩ := placeBlock_of_mem B row.nodeId id.poolKind hid hmem
  obtain ⟨id', hid', hbid, hchain, -, hline, hmeta⟩ := placeBlock_eq_some hb
  cases hid.symm.trans hid'
  have hbid : b.id = id := hbid
  have hrecord : (⟨b.blockMeta, b.chain⟩ : BlockRecord) = row.record id := by
    rw [hmeta, hchain, hbid, ImportRow.record, ← hid]
  let ns' : Namespace B := (NsAction.registerAll id.poolKind [b]).apply ns
  have hdesc : some ns'.descriptor = c.models.lookup (keyOf id).ns := hlisted.symm
  have hused : ns'.usedBytes = (c.addBlock (keyOf id) (row.record id) hns).usage ns'.descriptor := by
    have hkey : (keyOf id).ns = ns.descriptor.key := (h.key_eq hfound).symm
    have hold : keyOf id ∈ c.blocks ↔
        ((ns.pools.lookup id.poolKind).bind fun p => p.byFlat.lookup b.id.blockHash).isSome := by
      rw [h.mem_blocks, block?_of_lookup hfound rfl, hbid]
      rfl
    show ns'.usedBytes = bytesFor ns.descriptor
      ((c.addBlock (keyOf id) (row.record id) hns).blocksOf ns.descriptor.key).card
    rw [registerOne_usedBytes ns id.poolKind b (h.used _ ns hfound), blocksOf_addBlock]
    simp only [← hold, hkey, true_and, ite_not]
  have hunused : ∀ pk p, ns'.pools.lookup pk = some p → p.Unused :=
    registerOne_unused ns id.poolKind b hB fun pk p hp => h.unused _ pk p (pool?_eq_some.mpr ⟨ns, hfound, hp⟩)
  have hblocks : ∀ k', k'.ns = (keyOf id).ns → ((ns'.pools.lookup k'.poolKind).bind fun p => p.byFlat.lookup k'.flat).map
        (fun e => (some e.seqHash, e.record)) =
      ((c.blocks.insert (keyOf id) (row.record id)).lookup k').map fun r => (B.lineageOf r.prefixChain, r) := by
    intro k' hk'
    obtain ⟨blockId, hlookup⟩ := registerOne_block ns id.poolKind b
    have hiff : (k'.poolKind = id.poolKind ∧ k'.flat = b.id.blockHash) ↔ k' = keyOf id := by
      obtain ⟨m, r, pk, f⟩ := k'
      simp only [BlockKey.ns, keyOf, NamespaceKey.mk.injEq] at hk'
      simp [keyOf, hk', hbid]
    rw [hlookup, lookup_insert_if]
    simp only [hiff]
    split
    · rw [Option.map_some, Option.map_some, Entry.record, hrecord, ← hrecord, hline]
    · rw [← block?_of_lookup hfound hk', h.blocks]
  have hstate : a.insertBatch row.nodeId (.fromId id) id.poolKind row.chain [row.blockMeta] =
      ({ (a.setNs (keyOf id).ns ns').emit [(ns.poolMut id.poolKind).placedEvent b] with orphans := ∅ },
        .ok .accepted) := by
    simp only [Authority.insertBatch, hfound, filterMap_cons, hb, filterMap_nil, registerAll,
      emit, setNs, h.orphans, foldl_erase_empty]
    rfl
  refine ⟨_, hstate, h.addBlock hns hdesc hused hunused hblocks _, ?_, rfl⟩
  rw [enterBlock, hfound, hb]
  rfl

/-- The registration of a row is accepted if and only if the catalogue admits the block, and a refusal
changes nothing. -/
theorem Rebuilds.register (hid : row.blockMeta.id = some id) (hkind : id.poolKind = poolTarget ∨ id.poolKind = poolDraft)
    (hmem : id.blockHash ∈ row.chain) : (∀ hadm : c.Admits start.poolCapacityBytes (View.keyOf id) row.blockMeta,
      ∃ a', a.register row.nodeId row.chain [row.blockMeta] = (a', .ok .accepted) ∧
        Rebuilds start a' (c.addBlock (View.keyOf id) (row.record id) hadm.2.1) ∧
          a'.namespaces = enterBlock a.namespaces row id ∧ a'.inactiveCap = a.inactiveCap) ∧
    (¬c.Admits start.poolCapacityBytes (View.keyOf id) row.blockMeta →
      ∃ r, a.register row.nodeId row.chain [row.blockMeta] = (a, r) ∧ r ≠ .ok .accepted) := by
  have hids : (batchIds [row.blockMeta]).map KvBlockId.blockHash = [id.blockHash] := by simp [batchIds, hid]
  simp only [Authority.register, cons_ne_nil, ↓reduceIte, checkBatch_single hid hkind hmem, hids]
  cases hns : a.namespaces.lookup (.fromId id) with
  | none =>
    have hmissing : (keyOf id).ns ∉ c.models := by
      rw [← lookup_eq_none]
      exact h.lookup_eq_none hns
    exact ⟨fun hadm => absurd hadm.2.1 hmissing, fun _ => ⟨_, rfl, by simp⟩⟩
  | some ns =>
    have hlisted : c.models.lookup (keyOf id).ns = some ns.descriptor := h.lookup_eq_some hns
    obtain ⟨hroom, hfull⟩ := h.admitted hB hns (k := keyOf id) rfl
    have hadmits : c.Admits start.poolCapacityBytes (keyOf id) row.blockMeta ↔ durableFirst row.blockMeta = true ∧
          (keyOf id ∈ c.blocks ∨ c.HasRoom start.poolCapacityBytes ns.descriptor) := by
      simp [Catalog.Admits, hlisted, mem_of_lookup_eq_some hlisted]
    by_cases hlet : keyOf id ∈ c.blocks ∨ c.HasRoom start.poolCapacityBytes ns.descriptor
    · have hadmitted : a.admitRegisterBytes (.fromId id)
          (newFlats (ns.pools.lookup id.poolKind) [id.blockHash]).card = (a, .ok .accepted) := hroom hlet
      simp only [hadmitted, all_cons, all_nil, Bool.and_true]
      by_cases hdurable : durableFirst row.blockMeta = true
      · simp only [hdurable, ↓reduceIte]
        exact ⟨fun hadm => h.insertBatch hB hid hmem hadm.2.1, fun hno => absurd (hadmits.mpr ⟨hdurable, hlet⟩) hno⟩
      · simp only [hdurable, Bool.false_eq_true, ↓reduceIte]
        exact ⟨fun hadm => absurd (hadmits.mp hadm).1 hdurable, fun _ => ⟨_, rfl, by simp⟩⟩
    · obtain ⟨bp, hbp⟩ := hfull hlet
      have hreject : a.admitRegisterBytes (.fromId id)
          (newFlats (ns.pools.lookup id.poolKind) [id.blockHash]).card = (a, .ok (.rejectedHardQuota bp)) := hbp
      simp only [hreject]
      exact ⟨fun hadm => absurd (hadmits.mp hadm).2 hlet, fun _ => ⟨_, rfl, by simp⟩⟩

theorem importBlock_refused
    (hcb : c.restoreRow start.poolCapacityBytes cb = none) : ∃ e, a.importBlock cb = (a, .error e) := by
  unfold importBlock
  unfold restoreRow at hcb
  cases hrow : importRow cb with
  | error e => exact ⟨e, rfl⟩
  | ok found =>
    cases found with
    | none => simp [hrow] at hcb
    | some row =>
      obtain ⟨id, hid, hkind, hmem⟩ := importRow_id hrow
      have hno : ¬c.Admits start.poolCapacityBytes (keyOf id) row.blockMeta := by
        intro hadm
        simp [hrow, hid, hadm] at hcb
      obtain ⟨r, hr, hne⟩ := (h.register hB hid hkind hmem).2 hno
      simp only [hr]
      cases r with
      | error e => exact ⟨_, rfl⟩
      | ok status =>
        cases status with
        | accepted => exact absurd rfl hne
        | rejectedHardQuota bp => exact ⟨_, rfl⟩

theorem importBlock_taken {c' : Catalog} (hcb : c.restoreRow start.poolCapacityBytes cb = some c') :
    ∃ a', a.importBlock cb = (a', .ok ()) ∧ Rebuilds start a' c' ∧
      a'.namespaces = enterRow a.namespaces cb ∧ a'.inactiveCap = a.inactiveCap := by
  unfold importBlock
  unfold restoreRow at hcb
  cases hrow : importRow cb with
  | error e => simp [hrow] at hcb
  | ok found =>
    cases found with
    | none =>
      simp only [hrow, Option.some.injEq] at hcb
      exact ⟨a, rfl, hcb ▸ h, by rw [enterRow, hrow], rfl⟩
    | some row =>
      obtain ⟨id, hid, hkind, hmem⟩ := importRow_id hrow
      simp only [hrow, hid, Option.bind_some] at hcb
      split at hcb
      next hadm =>
        cases hcb
        obtain ⟨a', hreg, hrebuilds, hentered, hcap⟩ := (h.register hB hid hkind hmem).1 hadm
        refine ⟨a', by simp only [hreg], hrebuilds, ?_, hcap⟩
        rw [hentered, enterRow, hrow]
        dsimp only
        rw [hid]
        rfl
      · simp at hcb

end

theorem importModels_eq_runAll (a : Authority B) (ms : List ModelDescriptor) :
    a.importModels ms = runAll registerModel a ms := by
  induction ms generalizing a with
  | nil => rfl
  | cons m ms ih =>
    unfold importModels runAll
    split
    next heq => rw [heq]
    next heq =>
      rw [heq]
      exact ih _

theorem importBlocks_eq_runAll (a : Authority B) (rows : List CheckpointBlock) :
    a.importBlocks rows = runAll importBlock a rows := by
  induction rows generalizing a with
  | nil => rfl
  | cons cb rows ih =>
    unfold importBlocks runAll
    split
    next heq => rw [heq]
    next heq =>
      rw [heq]
      exact ih _

theorem cleared_rebuilds (a : Authority B) (seq : Nat) : Rebuilds (a.cleared seq) (a.cleared seq) Catalog.empty where
  models key := by simp [cleared, Catalog.empty]
  blocks k := by simp [cleared, block?, pool?, Catalog.empty]
  used key ns hns := by simp [cleared] at hns
  unused key pk p hp := by simp [cleared, pool?] at hp
  orphans := rfl
  nodeRefs := rfl
  completedBarriers := rfl
  checkpointSeq := rfl
  viewLog := rfl
  poolCapacityBytes := rfl

/-- A step of a restore on the catalogue, which decides, and on the namespace table. -/
def enteringModel (cap : Nat) (x : Catalog × Map NamespaceKey (Namespace B)) (m : ModelDescriptor) :
    Option (Catalog × Map NamespaceKey (Namespace B)) :=
  (x.1.restoreModel m).map fun c => (c, enterModel cap x.2 m)

def enteringRow (capacity : Int) (x : Catalog × Map NamespaceKey (Namespace B)) (cb : CheckpointBlock) :
    Option (Catalog × Map NamespaceKey (Namespace B)) :=
  (x.1.restoreRow capacity cb).map fun c => (c, enterRow x.2 cb)

/-- The namespaces that a snapshot's entries up to the first refused one make up, entered into an empty table. -/
def restoredNamespaces (B : Backend) (cap : Nat) (capacity : Int) (snap : CheckpointSnapshot) :
    Map NamespaceKey (Namespace B) :=
  let models := takeSteps (enteringModel cap) (Catalog.empty, ∅) snap.models
  if models.2 then (takeSteps (enteringRow capacity) models.1 (importOrder snap.blocks)).1.2 else models.1.2

/-- A restore refines the catalogue's: it succeeds if and only if no entry of the snapshot is refused,
and what it leaves is the catalogue of the entries up to the first refused one, unused, in namespaces into which
nothing but these entries has come. -/
theorem importSnapshot_rebuilds (hB : B.Lawful) (a : Authority B) (snap : CheckpointSnapshot) :
    Rebuilds (a.cleared snap.seq) (a.importSnapshot snap).1 (Catalog.restore a.poolCapacityBytes snap).1 ∧
      ((a.importSnapshot snap).2 = .ok () ↔ Catalog.Accepts a.poolCapacityBytes snap) ∧
      (a.importSnapshot snap).1.namespaces = restoredNamespaces B a.inactiveCap a.poolCapacityBytes snap := by
  let R := fun (t : Authority B) (x : Catalog × Map NamespaceKey (Namespace B)) =>
    Rebuilds (a.cleared snap.seq) t x.1 ∧ t.namespaces = x.2 ∧ t.inactiveCap = a.inactiveCap
  have hmodel : ∀ x m, (enteringModel (B := B) a.inactiveCap x m).map Prod.fst = x.1.restoreModel m := by
    intro x m
    unfold enteringModel
    cases x.1.restoreModel m <;> rfl
  have hrow : ∀ x cb, (enteringRow (B := B) a.poolCapacityBytes x cb).map Prod.fst =
      x.1.restoreRow a.poolCapacityBytes cb := by
    intro x cb
    unfold enteringRow
    cases x.1.restoreRow a.poolCapacityBytes cb <;> rfl
  have hmodels := runAll_simulates (R := R) (f := enteringModel a.inactiveCap) (g := registerModel)
    (fun t x m h hm => by
      obtain ⟨e, he⟩ := registerModel_refused h.1.toLists (Option.map_eq_none_iff.mp hm)
      exact ⟨t, e, he, h⟩)
    (fun t x x' m h hm => by
      obtain ⟨c', hc, rfl⟩ := Option.map_eq_some_iff.mp hm
      obtain ⟨t', hg, hbuilt, hentered, hcap⟩ := registerModel_taken h.1 hc
      exact ⟨t', hg, hbuilt, by rw [hentered, h.2.1, h.2.2], hcap.trans h.2.2⟩)
    (s := (Catalog.empty, ∅)) ⟨a.cleared_rebuilds snap.seq, rfl, rfl⟩ snap.models
  rw [← importModels_eq_runAll] at hmodels
  obtain ⟨hbuilt, hok⟩ := hmodels
  have hfst := takeSteps_fst hmodel (Catalog.empty, ∅) snap.models
  unfold importSnapshot Catalog.Accepts restore restoredNamespaces
  rw [← hfst]
  split
  next a' e heq =>
    rw [heq] at hbuilt hok
    have hstop : (takeSteps (enteringModel (B := B) a.inactiveCap) (Catalog.empty, ∅) snap.models).2 = false := by
      simpa using hok
    simp only [hstop, Bool.false_eq_true, ↓reduceIte]
    exact ⟨hbuilt.1, by simp, hbuilt.2.1⟩
  next a' heq =>
    rw [heq] at hbuilt hok
    simp only [hok.mp rfl, ↓reduceIte]
    rw [importBlocks_eq_runAll]
    have hrows := runAll_simulates (R := R) (f := enteringRow a.poolCapacityBytes) (g := importBlock)
      (fun t x cb h hcb => by
        obtain ⟨e, he⟩ := importBlock_refused hB h.1 (Option.map_eq_none_iff.mp hcb)
        exact ⟨t, e, he, h⟩)
      (fun t x x' cb h hcb => by
        obtain ⟨c', hc, rfl⟩ := Option.map_eq_some_iff.mp hcb
        obtain ⟨t', hg, hbuilt, hentered, hcap⟩ := importBlock_taken hB h.1 hc
        exact ⟨t', hg, hbuilt, by rw [hentered, h.2.1], hcap.trans h.2.2⟩)
      hbuilt (importOrder snap.blocks)
    have hfst := takeSteps_fst hrow (takeSteps (enteringModel (B := B) a.inactiveCap) (Catalog.empty, ∅) snap.models).1
      (importOrder snap.blocks)
    rw [← hfst]
    exact ⟨hrows.1.1, hrows.2, hrows.1.2.1⟩

end Authority

end LakeKv
