import LakeKv.ExportedRows
import LakeKv.FailedRestore

namespace LakeKv

open Authority Catalog Entry Finmap Finset List Option PoolView Saturating

variable {B : Backend}

namespace Catalog

theorem bytesFor_mono (m : ModelDescriptor) {i j : Nat} (h : i ≤ j) : bytesFor m i ≤ bytesFor m j := by
  have hmul : m.bytesPerBlock * (i : Int) ≤ m.bytesPerBlock * j :=
    mul_le_mul_of_nonneg_left (by omega) m.bytesPerBlock_pos.le
  exact min_le_min_left _ hmul

def WithinQuotas (c : Catalog) : Prop :=
  ∀ key m, c.models.lookup key = some m → 0 < (quotaOrDefault m.quota).hardBytes →
    c.usage m ≤ (quotaOrDefault m.quota).hardBytes

theorem restoreRow_withinQuotas {capacity : Int} {c c' : Catalog} {cb : CheckpointBlock}
    (hrow : c.restoreRow capacity cb = some c') (h : c.WithinQuotas) : c'.WithinQuotas := by
  unfold restoreRow at hrow
  split at hrow
  · simp at hrow
  · cases hrow
    exact h
  next row _ =>
    obtain ⟨id, -, hrow⟩ := bind_eq_some_iff.mp hrow
    split at hrow
    next hadm =>
      cases hrow
      intro key m hm hhard
      have hm : c.models.lookup key = some m := hm
      have hkey := (c.described key m hm).1
      rw [usage, blocksOf_addBlock]
      split
      next hnew =>
        have hns : (View.keyOf id).ns = key := hnew.1.trans hkey
        have hroom := hadm.2.2
        rw [hns, hm] at hroom
        have hroom : c.HasRoom capacity m := by simpa [hnew.2] using hroom
        exact hroom.1 hhard
      · exact h key m hm hhard
    · simp at hrow

end Catalog

namespace Authority

variable {a b t : Authority B}

section Counting

variable {c : Catalog} {rows : List CheckpointBlock} {key : NamespaceKey} {ns : Namespace B}

theorem block?_isSome_iff (hns : a.namespaces.lookup key = some ns) {k : BlockKey} (hk : k.ns = key) :
    (a.block? k).isSome ↔ (k.poolKind, k.flat) ∈ ns.blockSet := by
  rw [block?_of_lookup hns hk, Namespace.mem_blockSet]
  constructor
  · intro h
    obtain ⟨e, he⟩ := isSome_iff_exists.mp h
    obtain ⟨p, hp, hflat⟩ := bind_eq_some_iff.mp he
    exact ⟨p, hp, mem_of_lookup_eq_some hflat⟩
  · rintro ⟨p, hp, hmem⟩
    rw [hp, bind_some, lookup_isSome]
    exact hmem

theorem blockKey_eq {k k' : BlockKey} (hns : k.ns = k'.ns) (hpk : k.poolKind = k'.poolKind) (hflat : k.flat = k'.flat) :
    k = k' := by
  obtain ⟨m, r, pk, f⟩ := k
  obtain ⟨m', r', pk', f'⟩ := k'
  simp only [BlockKey.ns, NamespaceKey.mk.injEq] at hns
  simp_all

theorem RestoresRows.card_le (h : RestoresRows a c rows) (hns : a.namespaces.lookup key = some ns) :
    (c.blocksOf key).card ≤ ns.blockCount := by
  rw [← ns.card_blockSet]
  refine card_le_card_of_injOn (fun k => (k.poolKind, k.flat)) ?_ ?_
  · intro k hk
    obtain ⟨hmem, hkns⟩ := mem_filter.mp hk
    obtain ⟨r, hr⟩ := mem_iff.mp (Finmap.mem_keys.mp hmem)
    obtain ⟨e, he, -⟩ := h.restored k r hr
    exact (block?_isSome_iff hns hkns).mp (by rw [he]; rfl)
  · intro k hk k' hk' heq
    have hkns := (mem_filter.mp hk).2
    have hkns' := (mem_filter.mp hk').2
    exact blockKey_eq (hkns.trans hkns'.symm) (Prod.mk.inj heq).1 (Prod.mk.inj heq).2

theorem RestoresRows.le_card (hall : ∀ k, (a.block? k).isSome → k ∈ c.blocks)
    (hns : a.namespaces.lookup key = some ns) : ns.blockCount ≤ (c.blocksOf key).card := by
  rw [← ns.card_blockSet]
  refine card_le_card_of_injOn (fun f => (⟨key.modelId, key.revision, f.1, f.2⟩ : BlockKey)) ?_ ?_
  · intro f hf
    have hsome := (block?_isSome_iff hns (k := ⟨key.modelId, key.revision, f.1, f.2⟩) rfl).mpr hf
    exact mem_filter.mpr ⟨Finmap.mem_keys.mpr (hall _ hsome), rfl⟩
  · intro f _ f' _ heq
    obtain ⟨-, -, hpk, hflat⟩ := BlockKey.mk.inj heq
    exact Prod.ext hpk hflat

end Counting

def FitsQuotas (a : Authority B) : Prop :=
  ∀ key ns, a.namespaces.lookup key = some ns → 0 < ns.quota.hardBytes →
    min i64Max (ns.bytesPerBlock * ns.blockCount) ≤ ns.quota.hardBytes

/-- Without a limit on the pool, the rows of a state that fits its quotas are all taken. -/
theorem takeSteps_rows_all (hkeyed : a.Keyed) {capacity : Int} (hcap : capacity ≤ 0)
    (hdurable : ∀ k e, a.block? k = some e → durableFirst e.blockMeta = true) (hfits : a.FitsQuotas)
    {c : Catalog} {rows : List CheckpointBlock} (h : RestoresRows a c rows) :
    (takeSteps (restoreRow capacity) c rows).2 = true := by
  induction rows generalizing c with
  | nil => rfl
  | cons cb rows ih =>
    obtain ⟨k, e, he, -, -, hout, hrow, hnext⟩ := h.head hkeyed
    obtain ⟨p, hp, -⟩ := block?_eq_some.mp he
    obtain ⟨ns, hns, -⟩ := pool?_eq_some.mp hp
    have hlisted : c.models.lookup k.ns = some ns.descriptor := by
      rw [h.models, hns]
      rfl
    have hmem : k.ns ∈ c.models := mem_of_lookup_eq_some hlisted
    have hkey : ns.descriptor.key = k.ns := (c.described k.ns ns.descriptor hlisted).1
    have hroom : c.HasRoom capacity ns.descriptor := by
      refine ⟨fun hhard => ?_, fun hpos => absurd hpos (by omega)⟩
      -- One more block is still no more than were exported.
      have hcount := (hnext hmem).card_le hns
      rw [blocksOf_addBlock, if_pos ⟨rfl, hout⟩] at hcount
      rw [hkey]
      exact (bytesFor_mono _ hcount).trans (hfits k.ns ns hns hhard)
    have hadm : c.Admits capacity k e.blockMeta := by
      refine ⟨hdurable k e he, hmem, ?_⟩
      rw [hlisted]
      simp [hroom]
    have htake : c.restoreRow capacity cb = some (c.addBlock k e.restored hmem) := by rw [hrow, dif_pos hadm]
    simp only [takeSteps, htake]
    exact ih (hnext hmem)

theorem restoresRows_exportSnapshot (hB : B.Lawful) (hkeyed : a.Keyed) (hdesc : a.Described) (seq : Nat) :
    let models := takeSteps restoreModel empty (a.exportSnapshot seq).models
    models.2 = true ∧ models.1.blocks = ∅ ∧
      RestoresRows a models.1 (importOrder (a.exportSnapshot seq).blocks) := by
  obtain ⟨hall, hblocks, hmodels⟩ := takeSteps_models hdesc a.namespaces.keys.nodup_ascending
    (c := empty) fun key _ => notMem_empty
  have hnone : (takeSteps restoreModel empty (a.exportSnapshot seq).models).1.blocks = ∅ := hblocks
  refine ⟨hall, hnone, ?_⟩
  exact
    { exported := fun cb hcb => (mem_exportSnapshot hB).mp ((mem_insertionSort _).mp hcb)
      distinct := (perm_insertionSort _ _).symm.pairwise (exportSnapshot_distinct hB hkeyed seq)
        fun {x y} hxy => hxy.symm
      models := fun key => by
        refine (hmodels key).trans ?_
        split
        · rfl
        next hout =>
          rw [mem_ascending, Finmap.mem_keys, ← lookup_eq_none] at hout
          rw [hout]
          rfl
      restored := fun k r hr => by
        rw [hnone] at hr
        simp at hr
      ahead := fun cb _ k _ hmem => by
        rw [hnone] at hmem
        exact notMem_empty hmem }

section Restored

variable {capacity : Int} {seq : Nat}

theorem restored_of_accepts (hB : B.Lawful) (hkeyed : a.Keyed) (hdesc : a.Described)
    (hacc : Catalog.Accepts capacity (a.exportSnapshot seq)) :
    RestoresRows a (restore capacity (a.exportSnapshot seq)).1 [] ∧
      (∀ k e, a.block? k = some e → durableFirst e.blockMeta = true ∧
        k ∈ (restore capacity (a.exportSnapshot seq)).1.blocks) ∧
      (restore capacity (a.exportSnapshot seq)).1.WithinQuotas := by
  obtain ⟨hall, hempty, hrows⟩ := restoresRows_exportSnapshot hB hkeyed hdesc seq
  unfold Catalog.Accepts restore at hacc
  unfold restore
  simp only [hall, ↓reduceIte] at hacc ⊢
  obtain ⟨hdone, -, htaken⟩ := takeSteps_rows hkeyed hrows hacc
  refine ⟨hdone, fun k e he => ?_, ?_⟩
  · obtain ⟨k', e', he', heq, hdurable, hin⟩ := htaken (exportEntry e)
      ((mem_insertionSort _).mpr ((mem_exportSnapshot hB).mpr ⟨k, e, he, rfl⟩))
    -- Two blocks with one row are one block.
    have hkey : ∀ {k e}, a.block? k = some e → (exportEntry e).key = some k := by
      intro k e he
      obtain ⟨p, hp, hflat⟩ := block?_eq_some.mp he
      exact key_exportEntry (hkeyed k.ns k.poolKind p hp k.flat e hflat)
    have hsame : k = k' := by
      have hk := hkey he
      rw [heq, hkey he'] at hk
      exact (some.inj hk).symm
    subst hsame
    cases he.symm.trans he'
    exact ⟨hdurable, hin⟩
  · refine takeSteps_invariant (fun _ _ _ _ hrow hc => restoreRow_withinQuotas hrow hc) ?_
    intro key m hm hhard
    have hnone : (takeSteps restoreModel empty (a.exportSnapshot seq).models).1.blocksOf m.key = ∅ := by
      rw [Catalog.blocksOf, hempty]
      rfl
    have hzero : bytesFor m 0 = 0 := by simp [bytesFor, i64Max]
    rw [usage, hnone, card_empty, hzero]
    exact hhard.le

/-- Without a limit on the pool, what decides is that every block has a copy and that the quotas fit. -/
theorem accepts_exportSnapshot_iff (hB : B.Lawful) (hkeyed : a.Keyed) (hdesc : a.Described) (hcap : capacity ≤ 0) :
    Catalog.Accepts capacity (a.exportSnapshot seq) ↔
      (∀ k e, a.block? k = some e → durableFirst e.blockMeta = true) ∧ a.FitsQuotas := by
  constructor
  · intro hacc
    obtain ⟨hdone, hblocks, hquotas⟩ := restored_of_accepts hB hkeyed hdesc hacc
    refine ⟨fun k e he => (hblocks k e he).1, fun key ns hns hhard => ?_⟩
    have hlisted : (restore capacity (a.exportSnapshot seq)).1.models.lookup key = some ns.descriptor := by
      rw [hdone.models, hns]
      rfl
    have hkey := (hdesc key ns hns).1
    have hcount := RestoresRows.le_card (fun k hk => by
      obtain ⟨e, he⟩ := isSome_iff_exists.mp hk
      exact (hblocks k e he).2) hns
    have hused := hquotas key ns.descriptor hlisted hhard
    rw [usage, hkey] at hused
    exact (bytesFor_mono ns.descriptor hcount).trans hused
  · rintro ⟨hdurable, hfits⟩
    obtain ⟨hall, -, hrows⟩ := restoresRows_exportSnapshot hB hkeyed hdesc seq
    unfold Catalog.Accepts restore
    simp only [hall, ↓reduceIte]
    exact takeSteps_rows_all hkeyed hcap hdurable hfits hrows

end Restored

/-- A state with the models, blocks and chains of `a`, that answers lookups as `a` does, and in which nothing
is referenced, inactive, hit, marked, orphaned or waited for. -/
structure RestoredFrom (a b : Authority B) : Prop where
  models : ∀ key, (b.namespaces.lookup key).map Namespace.descriptor =
    (a.namespaces.lookup key).map Namespace.descriptor
  blocks : ∀ k, (b.block? k).map Entry.record = (a.block? k).map Entry.record
  lookupPrefix : ∀ m r pk chain requester,
    b.lookupPrefix m r pk chain requester = a.lookupPrefix m r pk chain requester
  locate : ∀ ids, b.locate ids = a.locate ids
  unused : ∀ key pk p, b.pool? key pk = some p → p.Unused
  nodeRefs : b.nodeRefs = ∅
  completedBarriers : b.completedBarriers = ∅
  orphans : b.orphans = ∅

theorem lookupLoop_congr {p q : PoolView B} (h : ∀ f, (p.byFlat.lookup f).map (fun e => (e.seqHash, e.blockMeta)) =
      (q.byFlat.lookup f).map fun e => (e.seqHash, e.blockMeta))
    (requester : String) (steps : List (Flat × B.Seq)) : p.lookupLoop requester steps = q.lookupLoop requester steps := by
  induction steps with
  | nil => rfl
  | cons s rest ih =>
    obtain ⟨flat, seq⟩ := s
    have hflat := h flat
    cases hp : p.byFlat.lookup flat with
    | none =>
      rw [hp, map_none, eq_comm, map_eq_none_iff] at hflat
      simp only [lookupLoop, hp, hflat]
    | some e =>
      rw [hp, map_some, eq_comm, map_eq_some_iff] at hflat
      obtain ⟨e', hq, heq⟩ := hflat
      obtain ⟨hseq, hmeta⟩ := Prod.mk.inj heq
      simp only [lookupLoop, hp, hq, hseq, hmeta, ih]

theorem lookupPrefix_of_resolve {m r : String} {raw pk : Int} (hpk : resolvePoolKind raw = .ok pk) {chain : List Flat}
    (hne : chain ≠ []) (requester : String) :
    a.lookupPrefix m r raw chain requester =
      let found := ((a.pool? ⟨m, r⟩ pk).getD (PoolView.new B 0)).lookupLoop requester
        (chain.zip (B.lineageFromPrefix chain))
      (found.1, found.1.length, found.2 && decide (0 < found.1.length)) := by
  simp only [lookupPrefix, hne, ↓reduceIte, lookupPool, hpk]
  cases hp : a.pool? ⟨m, r⟩ pk with
  | some p => rfl
  | none =>
    have hempty : ∀ steps, ((PoolView.new B 0).lookupLoop requester steps).1 = [] := by
      intro steps
      cases steps with
      | nil => rfl
      | cons s rest => simp [lookupLoop, PoolView.new]
    simp [hempty]

theorem lookup_pool?_getD (a : Authority B) (m r : String) (pk : Int) (f : Flat) :
    ((a.pool? ⟨m, r⟩ pk).getD (PoolView.new B 0)).byFlat.lookup f = a.block? ⟨m, r, pk, f⟩ := by
  have hblock : a.block? ⟨m, r, pk, f⟩ = (a.pool? ⟨m, r⟩ pk).bind fun p => p.byFlat.lookup f := rfl
  rw [hblock]
  cases a.pool? ⟨m, r⟩ pk <;> simp [PoolView.new]

theorem lookupPrefix_congr (h : ∀ k, (b.block? k).map (fun e => (e.seqHash, e.blockMeta)) =
      (a.block? k).map fun e => (e.seqHash, e.blockMeta))
    (m r : String) (raw : Int) (chain : List Flat) (requester : String) :
    b.lookupPrefix m r raw chain requester = a.lookupPrefix m r raw chain requester := by
  by_cases hne : chain = []
  · simp [lookupPrefix, hne]
  cases hpk : resolvePoolKind raw with
  | error e => simp [lookupPrefix, hne, lookupPool, hpk]
  | ok pk =>
    have hloop : ((b.pool? ⟨m, r⟩ pk).getD (PoolView.new B 0)).lookupLoop requester
          (chain.zip (B.lineageFromPrefix chain)) =
        ((a.pool? ⟨m, r⟩ pk).getD (PoolView.new B 0)).lookupLoop requester (chain.zip (B.lineageFromPrefix chain)) := by
      refine lookupLoop_congr (fun f => ?_) _ _
      rw [lookup_pool?_getD, lookup_pool?_getD]
      exact h _
    rw [lookupPrefix_of_resolve hpk hne, lookupPrefix_of_resolve hpk hne, hloop]

theorem locate_congr (h : ∀ k, (b.block? k).map blockMeta = (a.block? k).map blockMeta)
    (ids : List KvBlockId) : b.locate ids = a.locate ids := by
  refine filterMap_congr fun id _ => ?_
  split
  · rfl
  · exact h _

/-- An import of what was exported gives back what a snapshot holds. -/
theorem restoredFrom_importSnapshot (hB : B.Lawful) (hkeyed : a.Keyed) (hdesc : a.Described) {seq : Nat}
    (hnamed : ∀ k e, a.block? k = some e → ∀ l ∈ e.blockMeta.locations, l.nodeId.isEmpty = false)
    (hacc : Catalog.Accepts t.poolCapacityBytes (a.exportSnapshot seq)) :
    RestoredFrom a (t.importSnapshot (a.exportSnapshot seq)).1 := by
  obtain ⟨hdone, hblocks, -⟩ := restored_of_accepts hB hkeyed hdesc hacc
  have hbuilt := (importSnapshot_rebuilds hB t (a.exportSnapshot seq)).1
  have hlisted : ∀ k, (restore t.poolCapacityBytes (a.exportSnapshot seq)).1.blocks.lookup k =
      (a.block? k).map record := by
    intro k
    cases hk : a.block? k with
    | none =>
      refine lookup_eq_none.mpr fun hmem => ?_
      obtain ⟨r, hr⟩ := mem_iff.mp hmem
      obtain ⟨e, he, -⟩ := hdone.restored k r hr
      rw [hk] at he
      simp at he
    | some e =>
      obtain ⟨r, hr⟩ := mem_iff.mp (hblocks k e hk).2
      obtain ⟨e', he', rfl⟩ := hdone.restored k r hr
      cases hk.symm.trans he'
      rw [hr, map_some, restored_eq (hnamed k e hk)]
  -- The lineage hash of a block is that of its chain, here and there.
  have hstored : ∀ k, ((t.importSnapshot (a.exportSnapshot seq)).1.block? k).map
      (fun e => (e.seqHash, e.record)) = (a.block? k).map fun e => (e.seqHash, e.record) := by
    intro k
    have hk := hbuilt.blocks k
    rw [hlisted] at hk
    cases he : a.block? k with
    | none => simpa [he] using hk
    | some e =>
      obtain ⟨p, hp, hflat⟩ := block?_eq_some.mp he
      have hline : B.lineageOf e.record.prefixChain = some e.seqHash :=
        (hkeyed k.ns k.poolKind p hp k.flat e hflat).lineage
      rw [he, map_some, map_some, hline] at hk
      obtain ⟨e', he', heq⟩ := map_eq_some_iff.mp hk
      obtain ⟨hseq, hrecord⟩ := Prod.mk.inj heq
      rw [he', map_some, map_some, hrecord, some.inj hseq]
  have hmap : ∀ {γ : Type} (f : B.Seq × BlockRecord → γ) (k : BlockKey),
      ((t.importSnapshot (a.exportSnapshot seq)).1.block? k).map (fun e => f (e.seqHash, e.record)) =
        (a.block? k).map fun e => f (e.seqHash, e.record) := by
    intro γ f k
    have hk := congrArg (Option.map f) (hstored k)
    rw [Option.map_map, Option.map_map] at hk
    exact hk
  exact
    { models := fun key => (hbuilt.models key).trans (hdone.models key)
      blocks := hmap Prod.snd
      lookupPrefix := lookupPrefix_congr (hmap fun r => (r.1, r.2.blockMeta))
      locate := locate_congr (hmap fun r => r.2.blockMeta)
      unused := hbuilt.unused
      nodeRefs := hbuilt.nodeRefs
      completedBarriers := hbuilt.completedBarriers
      orphans := hbuilt.orphans }

/-- The round trip through a checkpoint, for a state whose blocks all have a copy and whose locations all name
their node. Into an authority without a pool limit the snapshot is restored if and only if the blocks of every
namespace fit its hard quota as it is now; and wherever it is restored, it is the state it was taken from. -/
theorem checkpoint_round_trip (hB : B.Lawful) (h : Reachable a) (t : Authority B) (seq : Nat)
    (hcopy : ∀ k e, a.block? k = some e → e.blockMeta.locations ≠ [] ∨ e.blockMeta.l3Present = true)
    (hnamed : ∀ k e, a.block? k = some e → ∀ l ∈ e.blockMeta.locations, l.nodeId.isEmpty = false) :
    (t.poolCapacityBytes = 0 → ((t.importSnapshot (a.exportSnapshot seq)).2 = .ok () ↔ a.FitsQuotas)) ∧
    ((t.importSnapshot (a.exportSnapshot seq)).2 = .ok () →
      RestoredFrom a (t.importSnapshot (a.exportSnapshot seq)).1) := by
  have hdurable : ∀ k e, a.block? k = some e → durableFirst e.blockMeta = true := by
    intro k e he
    rcases hcopy k e he with hne | hl3
    · simp [durableFirst, hne]
    · simp [durableFirst, hl3]
  have haccepts := (importSnapshot_rebuilds hB t (a.exportSnapshot seq)).2.1
  refine ⟨fun hcap => ?_, fun hok => ?_⟩
  · rw [haccepts, accepts_exportSnapshot_iff hB (h.keyed hB) h.described hcap.le]
    exact ⟨And.right, fun hfits => ⟨hdurable, hfits⟩⟩
  · exact restoredFrom_importSnapshot hB (h.keyed hB) h.described hnamed (haccepts.mp hok)

def exportedRun : List Op :=
  [.registerModel (sampleModel 0 20), .register "n" [[1], [2]] [sampleMeta 1, sampleMeta 2],
    .reportRefs [sampleRef 2 1 "n", sampleRef 2 (-1) "n"]]

theorem exportedRun_locations (k : BlockKey) (e : Entry sampleBackend) (he : (sampleRun exportedRun).block? k = some e) :
    e.blockMeta.locations = [sampleLocation .l2 "n"] := by
  have hrows : ∀ cb ∈ ((sampleRun exportedRun).exportSnapshot 1).blocks,
      cb.blockMeta.map BlockMeta.locations = some [sampleLocation .l2 "n"] := by decide
  have hrow := hrows _ ((mem_exportSnapshot sampleBackend_lawful).mpr ⟨k, e, he, rfl⟩)
  exact some.inj hrow

theorem checkpoint_round_trip_twoBlocks :
    (((withInactiveCap sampleBackend 8).importSnapshot ((sampleRun exportedRun).exportSnapshot 1)).2 = .ok ()) ∧
      RestoredFrom (sampleRun exportedRun)
        ((withInactiveCap sampleBackend 8).importSnapshot ((sampleRun exportedRun).exportSnapshot 1)).1 := by
  have hok : ((withInactiveCap sampleBackend 8).importSnapshot
      ((sampleRun exportedRun).exportSnapshot 1)).2 = .ok () := by decide
  refine ⟨hok, (checkpoint_round_trip sampleBackend_lawful (sampleRun_reachable exportedRun) _ 1 ?_ ?_).2 hok⟩
  · intro k e he
    rw [exportedRun_locations k e he]
    exact .inl (cons_ne_nil _ _)
  · intro k e he l hl
    rw [exportedRun_locations k e he, List.mem_singleton] at hl
    rw [hl]
    rfl

/-- A hard quota that is lowered below the usage: the state is served on, and its snapshot is refused. -/
theorem lowered_quota_refuses_restore :
    let a := sampleRun [.registerModel (sampleModel 0 0), .register "n" [[1]] [sampleMeta 1],
      .setModelQuota "m" "r" ⟨0, 5, false⟩]
    sampleBackend.Lawful ∧ a.Reachable ∧ a.poolCapacityBytes = 0 ∧
      (withInactiveCap sampleBackend 8).poolCapacityBytes = 0 ∧
      ((withInactiveCap sampleBackend 8).importSnapshot (a.exportSnapshot 1)).2 =
        .error (.err "import_snapshot register rejected: reason=HARD_QUOTA deficit=5") := by
  exact ⟨sampleBackend_lawful, sampleRun_reachable _, by decide, by decide, by decide⟩

end Authority

end LakeKv
