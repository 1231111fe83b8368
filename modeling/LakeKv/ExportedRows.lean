import LakeKv.RestoreCatalog
import LakeKv.UsageAccounting

namespace LakeKv

open Catalog Finmap List Option PoolView Saturating

variable {B : Backend}

namespace Authority

variable {a b : Authority B}

/-- Every namespace is filed under its model's key, and its model is one that `register_model` takes. -/
def Described (a : Authority B) : Prop :=
  ∀ key ns, a.namespaces.lookup key = some ns → ns.descriptor.key = key ∧ ns.descriptor.Valid

theorem described_apply {key : NamespaceKey} {ns : Namespace B} {act : NsAction B} (guard : act.Guard key ns)
    (h : ns.descriptor.key = key ∧ ns.descriptor.Valid) :
    (act.apply ns).descriptor.key = key ∧ (act.apply ns).descriptor.Valid := by
  cases act with
  | evictInactive n =>
    rw [NsAction.apply, ns.descriptor_evictInactiveN]
    exact h
  | setQuota q => exact ⟨h.1, h.2.1, guard⟩
  | _ => exact h

theorem Run.described {may : NamespaceKey → NsAction B → Prop} (h : Run may a b) (base : a.Described) : b.Described :=
  h.namespaces (I := fun key ns => ns.descriptor.key = key ∧ ns.descriptor.Valid)
    (fun _ _ _ named valid => ⟨rfl, named, valid⟩) (fun _ _ _ _ guard hns => described_apply guard hns) base

theorem Reachable.described (h : Reachable a) : a.Described := by
  refine Reach.invariant (I := Described) ?_ ?_ h
  · rintro s ⟨cap, rfl⟩ key ns hns
    simp [withInactiveCap] at hns
  · intro s op hs _
    cases hop : op.replaces with
    | false => exact (step_run s hop).described hs
    | true =>
      cases op with
      | importSnapshot snap =>
        refine (importSnapshot_run s snap).described fun key ns hns => ?_
        simp [cleared] at hns
      | commitViewEvents =>
        intro key ns hns
        rw [step, commitViewEvents_namespaces] at hns
        exact hs key ns hns
      | _ => simp [Op.replaces] at hop

end Authority

def restoreNode (m : BlockMeta) : String :=
  ((m.locations.find? fun l => l.tier == Tier.l2.toWire).map Location.nodeId).getD "restore"

def Entry.restored (e : Entry B) : BlockRecord :=
  ⟨{ e.blockMeta with locations := e.blockMeta.locations.map (fillNode (restoreNode e.blockMeta)) }, e.prefixChain⟩

theorem Entry.restored_eq {e : Entry B} (h : ∀ l ∈ e.blockMeta.locations, l.nodeId.isEmpty = false) :
    e.restored = e.record := by
  have hsame : e.blockMeta.locations.map (fillNode (restoreNode e.blockMeta)) = e.blockMeta.locations := by
    refine (map_congr_left fun l hl => ?_).trans (map_id _)
    simp [fillNode, h l hl]
  rw [Entry.restored, hsame, Entry.record]

section Rows

variable {key : NamespaceKey} {pk : Int} {flat : Flat} {e : Entry B}

theorem Entry.Keyed.keyOf (h : e.Keyed key pk flat) :
    ∃ id, e.blockMeta.id = some id ∧ View.keyOf id = ⟨key.modelId, key.revision, pk, flat⟩ := by
  obtain ⟨id, hid, rfl, rfl, rfl⟩ := h.id
  exact ⟨id, hid, rfl⟩

theorem chainAt_of_getLast? {chain : List Flat} {h : Flat} (hl : chain.getLast? = some h) : chainAt chain h = chain := by
  have hpos : 0 < chain.length := by
    cases chain with
    | nil => simp at hl
    | cons x xs => simp
  rw [chainAt, lastIndexOf_of_getLast? hl, getD_some, Nat.sub_add_cancel hpos, take_length]

theorem importRow_exportEntry (h : e.Keyed key pk flat) :
    importRow (exportEntry e) = .ok (some ⟨restoreNode e.blockMeta, e.prefixChain, e.blockMeta⟩) := by
  obtain ⟨id, hid, -, rfl, rfl⟩ := h.id
  have hne : e.prefixChain ≠ [] := by
    intro hnil
    have hlast := h.chain
    simp [hnil] at hlast
  have hmem : id.blockHash ∈ e.prefixChain := mem_of_getLast? h.chain
  have hmeta : { e.blockMeta with id := some id } = e.blockMeta := by
    rw [← hid]
  simp only [importRow, exportEntry, hid, if_neg hne, if_pos hmem, resolvePoolKind_of_range h.kind]
  rw [hmeta]
  rfl

theorem restoreRow_exportEntry (capacity : Int) (c : Catalog) (h : e.Keyed key pk flat) :
    c.restoreRow capacity (exportEntry e) =
      if hadm : c.Admits capacity ⟨key.modelId, key.revision, pk, flat⟩ e.blockMeta then
        some (c.addBlock ⟨key.modelId, key.revision, pk, flat⟩ e.restored hadm.2.1) else none := by
  obtain ⟨id, hid, hkey⟩ := h.keyOf
  have hflat : id.blockHash = flat := congrArg BlockKey.flat hkey
  have hrecord : (⟨restoreNode e.blockMeta, e.prefixChain, e.blockMeta⟩ : ImportRow).record id = e.restored := by
    rw [ImportRow.record, hflat, chainAt_of_getLast? h.chain, Entry.restored]
  simp only [restoreRow, importRow_exportEntry h, hid, bind_some, hkey, hrecord]

end Rows

def CheckpointBlock.key (cb : CheckpointBlock) : Option BlockKey :=
  (cb.blockMeta.bind BlockMeta.id).map View.keyOf

theorem key_exportEntry {key : NamespaceKey} {pk : Int} {flat : Flat} {e : Entry B} (h : e.Keyed key pk flat) :
    (exportEntry e).key = some ⟨key.modelId, key.revision, pk, flat⟩ := by
  obtain ⟨id, hid, hkey⟩ := h.keyOf
  simp [CheckpointBlock.key, exportEntry, hid, hkey]

namespace Authority

variable {a : Authority B} {cb : CheckpointBlock} {ns : Namespace B} {p : PoolView B}

theorem mem_exportBlocks (hB : B.Lawful) :
    cb ∈ p.exportBlocks ↔ ∃ flat e, p.byFlat.lookup flat = some e ∧ cb = exportEntry e := by
  simp only [exportBlocks, mem_filterMap, map_eq_some_iff]
  constructor
  · rintro ⟨flat, -, e, he, rfl⟩
    exact ⟨flat, e, he, rfl⟩
  · rintro ⟨flat, e, he, rfl⟩
    have hmem : flat ∈ B.flatOrder p.byFlat.keys :=
      ((hB.flatOrder _).2 flat).mpr (Finmap.mem_keys.mpr (mem_of_lookup_eq_some he))
    exact ⟨flat, hmem, e, he, rfl⟩

theorem mem_getD_map {α β : Type} {o : Option α} {f : α → List β} {x : β} :
    x ∈ (o.map f).getD [] ↔ ∃ v, o = some v ∧ x ∈ f v := by
  cases o <;> simp

section

variable (hB : B.Lawful)
include hB

theorem mem_exportNs : cb ∈ exportNs ns ↔ ∃ pk p flat e, ns.pools.lookup pk = some p ∧ p.byFlat.lookup flat = some e ∧
      cb = exportEntry e := by
  simp only [exportNs, mem_flatMap, Finset.mem_ascending, mem_getD_map, mem_exportBlocks hB]
  constructor
  · rintro ⟨pk, -, p, hp, flat, e, he, rfl⟩
    exact ⟨pk, p, flat, e, hp, he, rfl⟩
  · rintro ⟨pk, p, flat, e, hp, he, rfl⟩
    exact ⟨pk, Finmap.mem_keys.mpr (mem_of_lookup_eq_some hp), p, hp, flat, e, he, rfl⟩

theorem mem_exportSnapshot {seq : Nat} :
    cb ∈ (a.exportSnapshot seq).blocks ↔ ∃ k e, a.block? k = some e ∧ cb = exportEntry e := by
  simp only [exportSnapshot, mem_insertionSort, mem_flatMap, Finset.mem_ascending, mem_getD_map, mem_exportNs hB]
  constructor
  · rintro ⟨key, -, ns, hns, pk, p, flat, e, hp, he, rfl⟩
    refine ⟨⟨key.modelId, key.revision, pk, flat⟩, e, ?_, rfl⟩
    exact block?_eq_some.mpr ⟨p, pool?_eq_some.mpr ⟨ns, hns, hp⟩, he⟩
  · rintro ⟨k, e, he, rfl⟩
    obtain ⟨p, hp, he⟩ := block?_eq_some.mp he
    obtain ⟨ns, hns, hp⟩ := pool?_eq_some.mp hp
    exact ⟨k.ns, Finmap.mem_keys.mpr (mem_of_lookup_eq_some hns), ns, hns, k.poolKind, p, k.flat, e, hp, he, rfl⟩

theorem exportBlocks_distinct {key : NamespaceKey} {pk : Int}
    (h : ∀ flat e, p.byFlat.lookup flat = some e → e.Keyed key pk flat) :
    p.exportBlocks.Pairwise fun x y => x.key ≠ y.key := by
  rw [exportBlocks, pairwise_filterMap]
  refine (hB.flatOrder _).1.imp fun {f g} hne x hx y hy => ?_
  obtain ⟨e, he, rfl⟩ := map_eq_some_iff.mp hx
  obtain ⟨e', he', rfl⟩ := map_eq_some_iff.mp hy
  rw [key_exportEntry (h f e he), key_exportEntry (h g e' he')]
  simpa using hne

theorem exportNs_distinct {key : NamespaceKey}
    (h : ∀ pk p, ns.pools.lookup pk = some p → ∀ flat e, p.byFlat.lookup flat = some e → e.Keyed key pk flat) :
    (exportNs ns).Pairwise fun x y => x.key ≠ y.key := by
  have hkey : ∀ pk, ∀ cb ∈ ((ns.pools.lookup pk).map exportBlocks).getD [],
      ∃ flat, cb.key = some ⟨key.modelId, key.revision, pk, flat⟩ := by
    simp only [mem_getD_map, mem_exportBlocks hB]
    rintro pk _ ⟨p, hp, flat, e, he, rfl⟩
    exact ⟨flat, key_exportEntry (h pk p hp flat e he)⟩
  rw [exportNs, pairwise_flatMap]
  refine ⟨fun pk _ => ?_, ns.pools.keys.nodup_ascending.imp fun {pk pk'} hne x hx y hy => ?_⟩
  · cases hp : ns.pools.lookup pk with
    | none => exact .nil
    | some p => exact exportBlocks_distinct hB (h pk p hp)
  · obtain ⟨f, hf⟩ := hkey pk x hx
    obtain ⟨g, hg⟩ := hkey pk' y hy
    rw [hf, hg]
    simp [hne]

theorem exportSnapshot_distinct (h : a.Keyed) (seq : Nat) :
    (a.exportSnapshot seq).blocks.Pairwise fun x y => x.key ≠ y.key := by
  have hkeyed : ∀ key ns, a.namespaces.lookup key = some ns → ∀ pk p, ns.pools.lookup pk = some p →
      ∀ flat e, p.byFlat.lookup flat = some e → e.Keyed key pk flat :=
    fun key ns hns pk p hp => h key pk p (pool?_eq_some.mpr ⟨ns, hns, hp⟩)
  have hkey : ∀ key, ∀ cb ∈ ((a.namespaces.lookup key).map exportNs).getD [],
      ∃ pk flat, cb.key = some ⟨key.modelId, key.revision, pk, flat⟩ := by
    simp only [mem_getD_map, mem_exportNs hB]
    rintro key _ ⟨ns, hns, pk, p, flat, e, hp, he, rfl⟩
    exact ⟨pk, flat, key_exportEntry (hkeyed key ns hns pk p hp flat e he)⟩
  have hrows : (a.namespaces.keys.ascending.flatMap fun key =>
      ((a.namespaces.lookup key).map exportNs).getD []).Pairwise fun x y => x.key ≠ y.key := by
    rw [pairwise_flatMap]
    refine ⟨fun key _ => ?_, a.namespaces.keys.nodup_ascending.imp fun {key key'} hne x hx y hy => ?_⟩
    · cases hns : a.namespaces.lookup key with
      | none => exact .nil
      | some ns => exact exportNs_distinct hB (hkeyed key ns hns)
    · obtain ⟨pk, f, hf⟩ := hkey key x hx
      obtain ⟨pk', g, hg⟩ := hkey key' y hy
      rw [hf, hg]
      intro heq
      obtain ⟨hm, hr, -, -⟩ := BlockKey.mk.inj (some.inj heq)
      exact hne (congrArg₂ NamespaceKey.mk hm hr)
  exact (perm_insertionSort _ _).symm.pairwise hrows fun {x y} hxy => hxy.symm

end

variable {c : Catalog} {rows : List CheckpointBlock}

theorem takeSteps_models (h : a.Described) {keys : List NamespaceKey} (hnodup : keys.Nodup)
    (hnew : ∀ key ∈ keys, key ∉ c.models) :
    let r := takeSteps restoreModel c (keys.filterMap fun key => (a.namespaces.lookup key).map Namespace.descriptor)
    r.2 = true ∧ r.1.blocks = c.blocks ∧ ∀ key, r.1.models.lookup key =
      if key ∈ keys then (a.namespaces.lookup key).map Namespace.descriptor else c.models.lookup key := by
  induction keys generalizing c with
  | nil => exact ⟨rfl, rfl, fun key => rfl⟩
  | cons k ks ih =>
    obtain ⟨hk, hks⟩ := nodup_cons.mp hnodup
    cases hns : a.namespaces.lookup k with
    | none =>
      obtain ⟨hall, hblocks, hmodels⟩ := ih hks fun key hkey => hnew key (mem_cons_of_mem _ hkey)
      rw [filterMap_cons_none (by simp [hns])]
      refine ⟨hall, hblocks, fun key => (hmodels key).trans ?_⟩
      by_cases hkey : key = k
      · have hmissing : c.models.lookup k = none := lookup_eq_none.mpr (hnew k mem_cons_self)
        rw [hkey, if_neg hk, if_pos mem_cons_self, hns, hmissing]
        rfl
      · simp [hkey]
    | some ns =>
      obtain ⟨hown, hvalid⟩ := h k ns hns
      have hmissing : c.models.lookup ns.descriptor.key = none := by
        rw [hown]
        exact lookup_eq_none.mpr (hnew k mem_cons_self)
      have hadm : c.AdmitsModel ns.descriptor := ⟨hvalid, by rw [hmissing]; rfl⟩
      have htake : c.restoreModel ns.descriptor = some (c.addModel ns.descriptor hvalid) := dif_pos hadm
      have hrest : ∀ key ∈ ks, key ∉ (c.addModel ns.descriptor hvalid).models := by
        intro key hkey hmem
        rcases mem_insert.mp hmem with heq | hmem
        · exact hk (hown ▸ heq ▸ hkey)
        · exact hnew key (mem_cons_of_mem _ hkey) hmem
      obtain ⟨hall, hblocks, hmodels⟩ := ih hks hrest
      simp only [filterMap_cons, hns, map_some, takeSteps, htake]
      refine ⟨hall, hblocks, fun key => (hmodels key).trans ?_⟩
      simp only [addModel, lookup_insert_if, hown]
      by_cases hkey : key = k
      · subst hkey
        simp [hk, hns]
      · simp [hkey]

/-- The rows of a snapshot of `a` that are still to be restored, with the catalogue of those before. -/
structure RestoresRows (a : Authority B) (c : Catalog) (rows : List CheckpointBlock) : Prop where
  exported : ∀ cb ∈ rows, ∃ k e, a.block? k = some e ∧ cb = PoolView.exportEntry e
  distinct : rows.Pairwise fun x y => x.key ≠ y.key
  models : ∀ key, c.models.lookup key = (a.namespaces.lookup key).map Namespace.descriptor
  restored : ∀ k r, c.blocks.lookup k = some r → ∃ e, a.block? k = some e ∧ r = e.restored
  ahead : ∀ cb ∈ rows, ∀ k, cb.key = some k → k ∉ c.blocks

theorem RestoresRows.head (hkeyed : a.Keyed) (h : RestoresRows a c (cb :: rows)) :
    ∃ k e, a.block? k = some e ∧ cb = exportEntry e ∧ cb.key = some k ∧ k ∉ c.blocks ∧
      (∀ capacity, c.restoreRow capacity cb = if hadm : c.Admits capacity k e.blockMeta then
        some (c.addBlock k e.restored hadm.2.1) else none) ∧
      ∀ hk, RestoresRows a (c.addBlock k e.restored hk) rows := by
  obtain ⟨k, e, he, rfl⟩ := h.exported cb mem_cons_self
  obtain ⟨p, hp, hflat⟩ := block?_eq_some.mp he
  have hentry : e.Keyed k.ns k.poolKind k.flat := hkeyed k.ns k.poolKind p hp k.flat e hflat
  have hkey : (exportEntry e).key = some k := key_exportEntry hentry
  refine ⟨k, e, he, rfl, hkey, h.ahead _ mem_cons_self k hkey,
    fun capacity => restoreRow_exportEntry capacity c hentry, fun hk => ?_⟩
  obtain ⟨hfirst, hrest⟩ := pairwise_cons.mp h.distinct
  exact
    { exported := fun x hx => h.exported x (mem_cons_of_mem _ hx)
      distinct := hrest
      models := h.models
      restored := fun k' r hr => by
        simp only [addBlock, lookup_insert_if] at hr
        split at hr
        next heq =>
          cases hr
          exact ⟨e, heq ▸ he, rfl⟩
        · exact h.restored k' r hr
      ahead := fun x hx k' hk' hmem => by
        rcases mem_insert.mp hmem with heq | hmem
        · exact hfirst x hx (by rw [hkey, hk', heq])
        · exact h.ahead x (mem_cons_of_mem _ hx) k' hk' hmem }

theorem takeSteps_rows (hkeyed : a.Keyed) {capacity : Int}
    (h : RestoresRows a c rows) (hall : (takeSteps (restoreRow capacity) c rows).2 = true) :
    RestoresRows a (takeSteps (restoreRow capacity) c rows).1 [] ∧
      (∀ k ∈ c.blocks, k ∈ (takeSteps (restoreRow capacity) c rows).1.blocks) ∧
      ∀ cb ∈ rows, ∃ k e, a.block? k = some e ∧ cb = exportEntry e ∧ durableFirst e.blockMeta = true ∧
        k ∈ (takeSteps (restoreRow capacity) c rows).1.blocks := by
  induction rows generalizing c with
  | nil => exact ⟨h, fun k hk => hk, fun cb hcb => by simp at hcb⟩
  | cons cb rows ih =>
    obtain ⟨k, e, he, hcb, hkey, hout, hrow, hnext⟩ := h.head hkeyed
    by_cases hadm : c.Admits capacity k e.blockMeta
    · have htake : c.restoreRow capacity cb = some (c.addBlock k e.restored hadm.2.1) := by
        rw [hrow, dif_pos hadm]
      simp only [takeSteps, htake] at hall ⊢
      obtain ⟨hdone, hstay, hrows⟩ := ih (hnext hadm.2.1) hall
      refine ⟨hdone, fun k' hk' => hstay k' (mem_insert.mpr (.inr hk')), fun x hx => ?_⟩
      rcases mem_cons.mp hx with rfl | hx
      · exact ⟨k, e, he, hcb, hadm.1, hstay k (mem_insert.mpr (.inl rfl))⟩
      · exact hrows x hx
    · have hstop : c.restoreRow capacity cb = none := by rw [hrow, dif_neg hadm]
      simp [takeSteps, hstop] at hall

end Authority

end LakeKv
