import LakeKv.BackedBlocks
import LakeKv.CompositeCalls
import LakeKv.PoolIndex

namespace LakeKv

open Finmap List Option PoolAction PoolView

variable {B : Backend}

theorem hasTierOn_iff {ls : List Location} {t : Tier} {node : String} :
    hasTierOn ls t node = true ↔ ∃ l ∈ ls, l.tier = t.toWire ∧ l.nodeId = node := by
  simp [hasTierOn]

variable {flat : Flat}

namespace PoolView

variable {p q : PoolView B} (cap : Nat)

/-- Hits are counted for registered blocks only, and only they are marked as placed. -/
structure Bookkept (p : PoolView B) : Prop where
  hits : ∀ f, f ∈ p.hitCounts → f ∈ p.byFlat
  marks : ∀ f n, (f, n) ∈ p.placementMarks → f ∈ p.byFlat

theorem Bookkept.new : (PoolView.new B cap).Bookkept where
  hits _ hf := absurd hf notMem_empty
  marks _ _ hm := absurd hm (Finset.notMem_empty _)

def Untraced (flat : Flat) (p : PoolView B) : Prop :=
  flat ∉ p.hitCounts ∧ ∀ m ∈ p.placementMarks, m.1 ≠ flat

instance untracedDecidable (flat : Flat) (p : PoolView B) : Decidable (p.Untraced flat) :=
  inferInstanceAs (Decidable (flat ∉ p.hitCounts ∧ ∀ m ∈ p.placementMarks, m.1 ≠ flat))

structure FewerMarks (p q : PoolView B) : Prop where
  hits : ∀ f, f ∈ q.hitCounts → f ∈ p.hitCounts
  marks : q.placementMarks ⊆ p.placementMarks

theorem FewerMarks.of_eq (hh : q.hitCounts = p.hitCounts) (hm : q.placementMarks = p.placementMarks) : p.FewerMarks q :=
  ⟨fun _ hf => hh ▸ hf, hm.subset⟩

theorem FewerMarks.refl (p : PoolView B) : p.FewerMarks p :=
  .of_eq rfl rfl

theorem FewerMarks.trans {r : PoolView B} (h : p.FewerMarks q) (h' : q.FewerMarks r) : p.FewerMarks r :=
  ⟨fun f hf => h.hits f (h'.hits f hf), h'.marks.trans h.marks⟩

theorem FewerMarks.of_forget (flat : Flat) (hh : q.hitCounts = p.hitCounts.erase flat)
    (hm : q.placementMarks = p.placementMarks.filter fun m => m.1 ≠ flat) : p.FewerMarks q where
  hits f hf := by
    rw [hh, mem_erase] at hf
    exact hf.2
  marks := by
    rw [hm]
    exact Finset.filter_subset _ _

theorem Bookkept.of_fewerMarks (h : p.Bookkept) (hm : p.FewerMarks q)
    (hby : ∀ f, f ∈ p.byFlat → f ∈ q.byFlat) : q.Bookkept where
  hits f hf := hby f (h.hits f (hm.hits f hf))
  marks f n hfn := hby f (h.marks f n (hm.marks hfn))

theorem Bookkept.forget (h : p.Bookkept) (flat : Flat) (hby : q.byFlat = p.byFlat.erase flat)
    (hh : q.hitCounts = p.hitCounts.erase flat)
    (hm : q.placementMarks = p.placementMarks.filter fun m => m.1 ≠ flat) : q.Bookkept where
  hits f hf := by
    rw [hh, mem_erase] at hf
    rw [hby, mem_erase]
    exact ⟨hf.1, h.hits f hf.2⟩
  marks f n hfn := by
    rw [hm, Finset.mem_filter] at hfn
    rw [hby, mem_erase]
    exact ⟨by simpa using hfn.2, h.marks f n hfn.1⟩

theorem Untraced.of_fewerMarks (h : p.Untraced flat) (hm : p.FewerMarks q) : q.Untraced flat :=
  ⟨fun hf => h.1 (hm.hits flat hf), fun m hmark => h.2 m (hm.marks hmark)⟩

theorem Redescribes.fewerMarks (h : p.Redescribes q) : p.FewerMarks q :=
  ⟨fun _ hf => h.hitCounts ▸ hf, h.marks⟩

theorem reinsertCold_fewerMarks (p : PoolView B) (v : B.Seq × BlockId) : p.FewerMarks (p.reinsertCold v) := by
  unfold reinsertCold
  split
  · exact .refl p
  · split <;> exact .of_eq rfl rfl

theorem dropVictim_fewerMarks (p : PoolView B) (seq : B.Seq) : p.FewerMarks (p.dropVictim seq).1 := by
  unfold dropVictim
  split
  · exact .refl p
  dsimp only
  split
  · exact .of_eq rfl rfl
  next flat _ => exact .of_forget flat rfl rfl

variable {act : PoolAction B}

theorem apply_fewerMarks (hB : B.Lawful) (p : PoolView B)
    (hits : ∀ flat node, act ≠ .recordHit flat node) (marks : ∀ home plan, act ≠ .markPlaced home plan) :
    p.FewerMarks (act.apply p) := by
  cases act with
  | evict n =>
    exact dropInactiveVictims_induct hB (I := p.FewerMarks) (.of_eq rfl rfl)
      fun q seq _ hq => hq.trans (q.dropVictim_fewerMarks seq)
  | register | discard => exact .of_eq rfl rfl
  | gcCold key pk n =>
    refine gcCold_induct hB (I := p.FewerMarks) key pk (.of_eq rfl rfl) ?_ ?_ ?_
    · intro q v flat e _ hq _ _
      exact hq.trans (q.peel_redescribes flat v.1 e).fewerMarks
    · intro q seq flat e hq _ _ _ _
      exact hq.trans (.of_forget flat rfl rfl)
    · intro q v flat e _ hq _ _
      exact hq.trans (q.reinsertCold_fewerMarks v)
  | setRef flat e kind value =>
    rw [apply, p.setRef_eq]
    exact .of_eq rfl rfl
  | touchRefs flat e => exact .of_eq rfl rfl
  | strip key pk node flat => exact (p.stripFlat_redescribes key pk node flat).fewerMarks
  | clearMarks node => exact ⟨fun _ hf => hf, Finset.filter_subset _ _⟩
  | publish flat e tier node seg off present => exact (p.publish_redescribes flat e tier node seg off present).fewerMarks
  | setL3 flat e present => exact (p.setMeta_redescribes flat e _).fewerMarks
  | relocate flat e tier node seg off => exact (p.relocate_redescribes flat e tier node seg off).fewerMarks
  | touchHits hits lineage => exact .of_eq rfl rfl
  | markPlaced home plan => exact absurd rfl (marks home plan)
  | recordHit flat node => exact absurd rfl (hits flat node)

theorem mem_markPlaced {home : String} {plan : List KvBlockId} {m : Flat × String}
    (h : m ∈ (p.markPlaced home plan).placementMarks) :
    m ∈ p.placementMarks ∨ m.2 = home ∧ ∃ id ∈ plan, m.1 = id.blockHash := by
  have hloop : ∀ (plan : List KvBlockId) (marks : Finset (Flat × String)),
      m ∈ plan.foldl (fun marks id => insert (id.blockHash, home) marks) marks →
      m ∈ marks ∨ m.2 = home ∧ ∃ id ∈ plan, m.1 = id.blockHash := by
    intro plan
    induction plan with
    | nil => exact fun _ hm => .inl hm
    | cons id plan ih =>
      intro marks hm
      rcases ih _ hm with hm | ⟨hhome, id', hid', heq⟩
      · rcases Finset.mem_insert.mp hm with rfl | hm
        · exact .inr ⟨rfl, id, mem_cons_self, rfl⟩
        · exact .inl hm
      · exact .inr ⟨hhome, id', mem_cons_of_mem _ hid', heq⟩
  exact hloop plan _ h

theorem Bookkept.dropVictim (h : p.Bookkept) (seq : B.Seq) : (p.dropVictim seq).1.Bookkept := by
  unfold PoolView.dropVictim
  split
  · exact h
  dsimp only
  split
  · exact ⟨h.hits, h.marks⟩
  next flat _ => exact h.forget flat rfl rfl rfl

variable {e : Entry B}

theorem mem_setMeta {m : BlockMeta} {f : Flat} (h : f ∈ p.byFlat) :
    f ∈ (p.byFlat.insert flat { e with blockMeta := m }) :=
  mem_insert.mpr (.inr h)

theorem Bookkept.apply (hB : B.Lawful) {key : NamespaceKey} {pk : Int}
    (hkeyed : ∀ f e, p.byFlat.lookup f = some e → e.Keyed key pk f) (guard : act.Guard p)
    (disc : ∀ flat e, act = .discard flat e → p.Untraced flat) (h : p.Bookkept) : (act.apply p).Bookkept := by
  cases act with
  | evict n => exact dropInactiveVictims_induct hB ⟨h.hits, h.marks⟩ fun q seq _ hq => hq.dropVictim seq
  | register b => exact h.of_fewerMarks (.of_eq rfl rfl) fun f hf => mem_insert.mpr (.inr hf)
  | discard flat e =>
    obtain ⟨hhit, hmark⟩ := disc flat e rfl
    constructor
    · intro f hf
      refine mem_erase.mpr ⟨?_, h.hits f hf⟩
      rintro rfl
      exact hhit hf
    · intro f n hfn
      refine mem_erase.mpr ⟨?_, h.marks f n hfn⟩
      rintro rfl
      exact hmark _ hfn rfl
  | gcCold key pk n =>
    refine gcCold_induct hB key pk ⟨h.hits, h.marks⟩ ?_ ?_ ?_
    · intro q v flat e _ hq _ _
      refine hq.of_fewerMarks (q.peel_redescribes flat v.1 e).fewerMarks fun f hf => ?_
      rw [q.peel_byFlat]
      exact mem_setMeta hf
    · intro q seq flat e hq _ _ _ _
      exact hq.forget flat rfl rfl rfl
    · intro q v flat e _ hq _ _
      refine hq.of_fewerMarks (q.reinsertCold_fewerMarks v) fun f hf => ?_
      rw [(q.reinsertCold_frame v).2]
      exact hf
  | setRef flat e kind value =>
    have heq := p.setRef_eq e.seqHash e.blockId kind value
    rw [apply, heq]
    exact ⟨h.hits, h.marks⟩
  | touchRefs flat e => exact ⟨h.hits, h.marks⟩
  | strip key pk node flat =>
    refine h.of_fewerMarks (p.stripFlat_redescribes key pk node flat).fewerMarks fun f hf => ?_
    obtain ⟨e, he⟩ := mem_iff.mp hf
    obtain ⟨e', he', -⟩ := (p.stripFlat_sameIndex key pk node flat).forth f e he
    exact mem_of_lookup_eq_some he'
  | clearMarks node => exact h.of_fewerMarks ⟨fun _ hf => hf, Finset.filter_subset _ _⟩ fun _ hf => hf
  | publish flat e tier node seg off present =>
    refine h.of_fewerMarks (p.publish_redescribes flat e tier node seg off present).fewerMarks fun f hf => ?_
    rw [apply, publish_byFlat tier node seg off present guard.1]
    exact mem_setMeta hf
  | setL3 flat e present => exact h.of_fewerMarks (p.setMeta_redescribes flat e _).fewerMarks fun f hf => mem_setMeta hf
  | relocate flat e tier node seg off =>
    refine h.of_fewerMarks (p.relocate_redescribes flat e tier node seg off).fewerMarks fun f hf => ?_
    rw [apply, p.relocate_byFlat flat e tier node seg off]
    exact mem_setMeta hf
  | touchHits hits lineage => exact ⟨h.hits, h.marks⟩
  | markPlaced home plan =>
    refine ⟨h.hits, fun f n hfn => ?_⟩
    rcases mem_markPlaced hfn with hfn | ⟨-, id, hid, rfl⟩
    · exact h.marks f n hfn
    -- A plan names blocks by the identity they are stored with.
    obtain ⟨flat, e, he, hcase⟩ := guard id hid
    have hflat : id.blockHash = flat := by
      rcases hcase with hstored | hflat
      · obtain ⟨id', hid', -, -, hhash⟩ := (hkeyed flat e he).id
        cases hstored.symm.trans hid'
        exact hhash
      · exact hflat
    rw [hflat]
    exact mem_of_lookup_eq_some he
  | recordHit flat node =>
    refine ⟨fun f hf => ?_, h.marks⟩
    rcases mem_insert.mp hf with rfl | hf
    · exact guard
    · exact h.hits f hf

def HoldsL0 (f : Flat) (n : String) (p : PoolView B) : Prop :=
  ∃ e, p.byFlat.lookup f = some e ∧ hasTierOn e.blockMeta.locations .l0 n = true

/-- Where a block has no copy in L0 of a node, traffic may place it there. -/
def Placeable (f : Flat) (n : String) (p : PoolView B) : Prop :=
  p.HoldsL0 f n ∨ (f, n) ∉ p.placementMarks

variable {f : Flat} {n : String}

theorem Placeable.new : (PoolView.new B cap).Placeable f n :=
  .inr (by simp [PoolView.new])

theorem Placeable.of_fewerMarks (h : p.Placeable f n) (hm : p.FewerMarks q)
    (hby : p.HoldsL0 f n → q.HoldsL0 f n) : q.Placeable f n := by
  rcases h with h | h
  · exact .inl (hby h)
  · exact .inr fun hmark => h (hm.marks hmark)

theorem Placeable.forget (h : p.Placeable f n) (flat : Flat) (hby : q.byFlat = p.byFlat.erase flat)
    (hm : q.placementMarks = p.placementMarks.filter fun m => m.1 ≠ flat) : q.Placeable f n := by
  by_cases hf : f = flat
  · refine .inr fun hmark => ?_
    rw [hm, Finset.mem_filter] at hmark
    exact absurd hf (by simpa using hmark.2)
  · rcases h with ⟨e, he, hl0⟩ | h
    · refine .inl ⟨e, ?_, hl0⟩
      rw [hby, lookup_erase_if, if_neg hf]
      exact he
    · refine .inr fun hmark => h ?_
      rw [hm, Finset.mem_filter] at hmark
      exact hmark.1

theorem holdsL0_dropVictim (seq : B.Seq) (h : p.HoldsL0 f n ∨ f ∉ p.byFlat) :
    (p.dropVictim seq).1.HoldsL0 f n ∨ f ∉ (p.dropVictim seq).1.byFlat := by
  unfold dropVictim
  split
  · exact h
  dsimp only
  split
  · exact h
  next flat _ =>
    by_cases hf : f = flat
    · exact .inr fun hmem => (mem_erase.mp hmem).1 hf
    · rcases h with ⟨e, he, hl0⟩ | h
      · exact .inl ⟨e, (lookup_erase_ne hf).trans he, hl0⟩
      · exact .inr fun hmem => h (mem_erase.mp hmem).2

theorem Placeable.dropVictim (h : p.Placeable f n) (seq : B.Seq) : (p.dropVictim seq).1.Placeable f n := by
  unfold PoolView.dropVictim
  split
  · exact h
  dsimp only
  split
  · exact h
  next flat _ => exact h.forget flat rfl rfl

theorem HoldsL0.entry (h : p.HoldsL0 f n) (he : p.byFlat.lookup f = some e) :
    hasTierOn e.blockMeta.locations .l0 n = true := by
  obtain ⟨x, hx, hl0⟩ := h
  cases he.symm.trans hx
  exact hl0

theorem HoldsL0.of_insert {x : Entry B} (hby : q.byFlat = p.byFlat.insert flat x)
    (hx : flat = f → hasTierOn x.blockMeta.locations .l0 n = true) (h : p.HoldsL0 f n) : q.HoldsL0 f n := by
  obtain ⟨e, he, hl0⟩ := h
  by_cases hf : f = flat
  · refine ⟨x, ?_, hx hf.symm⟩
    rw [hby, hf, lookup_insert]
  · refine ⟨e, ?_, hl0⟩
    rw [hby, lookup_insert_of_ne _ hf]
    exact he

variable {seg off : Nat} {ls : List Location} {tier : Tier} {seq : B.Seq}

theorem hasTierOn_publishedLocations {node : String} {present : Bool}
    (h : hasTierOn ls .l0 n = true) (hkeep : present = true ∨ ¬(tier = .l0 ∧ node = n)) :
    hasTierOn (publishedLocations tier node seg off present ls) .l0 n = true := by
  obtain ⟨l, hl, htier, hnode⟩ := hasTierOn_iff.mp h
  rw [hasTierOn_iff]
  unfold publishedLocations
  split
  · exact ⟨l, mem_append_left _ hl, htier, hnode⟩
  split
  · obtain ⟨l', hl', ht', hn'⟩ := mem_refreshFirst seg off hl
    exact ⟨l', hl', ht'.trans htier, hn'.trans hnode⟩
  next hpresent =>
    split
    · refine ⟨l, mem_filter.mpr ⟨hl, ?_⟩, htier, hnode⟩
      rcases hkeep with hkeep | hkeep
      · exact absurd hkeep hpresent
      · simp only [decide_eq_true_eq]
        rintro ⟨ht, hn⟩
        exact hkeep ⟨Tier.toWire_injective (ht.symm.trans htier), hn.symm.trans hnode⟩
    · exact ⟨l, hl, htier, hnode⟩

theorem hasTierOn_relocatedLocations {node : String}
    (h : hasTierOn ls .l0 n = true) : hasTierOn (relocatedLocations tier node seg off ls) .l0 n = true := by
  obtain ⟨l, hl, htier, hnode⟩ := hasTierOn_iff.mp h
  rw [hasTierOn_iff]
  unfold relocatedLocations
  split
  · obtain ⟨l', hl', ht', hn'⟩ := mem_refreshFirst seg off hl
    exact ⟨l', hl', ht'.trans htier, hn'.trans hnode⟩
  · exact ⟨l, mem_append_left _ hl, htier, hnode⟩

theorem publish_unmarked (h : hasTierOn e.blockMeta.locations .l0 n = true) :
    (flat, n) ∉ (p.publish flat e .l0 n seg off false).placementMarks := by
  simp [publish, h]

theorem Placeable.publish (tier : Tier) (node : String) (seg off : Nat) (present : Bool)
    (he : p.byFlat.lookup flat = some e) (h : p.Placeable f n) :
    (p.publish flat e tier node seg off present).Placeable f n := by
  by_cases hgone : (tier = .l0 ∧ node = n) ∧ flat = f ∧ present = false ∧ hasTierOn e.blockMeta.locations .l0 n = true
  · obtain ⟨⟨rfl, rfl⟩, rfl, rfl, hl0⟩ := hgone
    exact .inr (publish_unmarked hl0)
  · refine h.of_fewerMarks (p.publish_redescribes flat e tier node seg off present).fewerMarks ?_
    intro hl0
    refine hl0.of_insert (publish_byFlat tier node seg off present he) ?_
    rintro rfl
    refine hasTierOn_publishedLocations (hl0.entry he) ?_
    cases present with
    | true => exact .inl rfl
    | false => exact .inr fun hsame => hgone ⟨hsame, rfl, rfl, hl0.entry he⟩

theorem Placeable.stripFlat (key : NamespaceKey) (pk : Int) (node : String) (flat : Flat) (hnode : node ≠ n)
    (h : p.Placeable f n) : (stripFlat key pk node p flat).1.Placeable f n := by
  refine h.of_fewerMarks (p.stripFlat_redescribes key pk node flat).fewerMarks fun hl0 => ?_
  unfold PoolView.stripFlat
  split
  · exact hl0
  next e he =>
    split
    · exact hl0
    refine hl0.of_insert (markAbsent_byFlat _ _ _) ?_
    rintro rfl
    obtain ⟨l, hl, htier, hn⟩ := hasTierOn_iff.mp (hl0.entry he)
    refine hasTierOn_iff.mpr ⟨l, mem_filter.mpr ⟨hl, ?_⟩, htier, hn⟩
    simp only [decide_eq_true_eq]
    exact fun hboth => hnode (hboth.2.symm.trans hn)

theorem Placeable.apply (hB : B.Lawful) (guard : act.Guard p)
    (register : ∀ b, act = .register b → b.id.blockHash = f → hasTierOn b.blockMeta.locations .l0 n = true)
    (discard : ∀ e, act ≠ .discard f e) (gcCold : ∀ key pk m, act ≠ .gcCold key pk m)
    (strip : ∀ key pk flat, act ≠ .strip key pk n flat) (marks : ∀ home plan, act ≠ .markPlaced home plan)
    (h : p.Placeable f n) : (act.apply p).Placeable f n := by
  cases act with
  | evict m => exact dropInactiveVictims_induct hB h fun q seq _ hq => hq.dropVictim seq
  | register b => exact h.of_fewerMarks (.of_eq rfl rfl) fun hl0 => hl0.of_insert rfl (register b rfl)
  | discard flat e =>
    refine h.of_fewerMarks (.of_eq rfl rfl) ?_
    rintro ⟨x, hx, hl0⟩
    refine ⟨x, ?_, hl0⟩
    rw [apply, discardEntry, lookup_erase_if, if_neg]
    · exact hx
    · rintro rfl
      exact discard e rfl
  | gcCold key pk m => exact absurd rfl (gcCold key pk m)
  | setRef flat e kind value =>
    rw [apply, p.setRef_eq]
    exact h
  | touchRefs flat e => exact h
  | strip key pk node flat =>
    refine h.stripFlat key pk node flat ?_
    rintro rfl
    exact strip key pk flat rfl
  | clearMarks node => exact h.of_fewerMarks ⟨fun _ hf => hf, Finset.filter_subset _ _⟩ id
  | publish flat e tier node seg off present => exact h.publish tier node seg off present guard.1
  | setL3 flat e present =>
    refine h.of_fewerMarks (p.setMeta_redescribes flat e _).fewerMarks fun hl0 => hl0.of_insert rfl ?_
    rintro rfl
    exact hl0.entry (e := e) guard
  | relocate flat e tier node seg off =>
    refine h.of_fewerMarks (p.relocate_redescribes flat e tier node seg off).fewerMarks fun hl0 => ?_
    refine hl0.of_insert (p.relocate_byFlat flat e tier node seg off) ?_
    rintro rfl
    exact hasTierOn_relocatedLocations (hl0.entry guard)
  | touchHits hits lineage => exact h
  | markPlaced home plan => exact absurd rfl (marks home plan)
  | recordHit flat node => exact h

/-- None of the blocks `gc_cold` would take out of the index is marked for a node that has it in L0. -/
def ColdUnmarked (p : PoolView B) (m : Nat) : Prop :=
  ∀ v ∈ (B.allocate p.inactive m).1, ∀ flat ∈ p.seqToFlat.lookup v.1, ∀ e ∈ p.byFlat.lookup flat,
    ∀ l ∈ e.blockMeta.locations, l.tier = Tier.l0.toWire → (flat, l.nodeId) ∉ p.placementMarks

instance coldUnmarkedDecidable (p : PoolView B) (m : Nat) : Decidable (p.ColdUnmarked m) :=
  inferInstanceAs (Decidable (∀ v ∈ (B.allocate p.inactive m).1, ∀ flat ∈ p.seqToFlat.lookup v.1,
    ∀ e ∈ p.byFlat.lookup flat, ∀ l ∈ e.blockMeta.locations, l.tier = Tier.l0.toWire →
      (flat, l.nodeId) ∉ p.placementMarks))

def MarkedListed (p : PoolView B) (flat : Flat) (ls : List Location) : Prop :=
  ∀ e ∈ p.byFlat.lookup flat, ∀ l ∈ e.blockMeta.locations, l.tier = Tier.l0.toWire →
    (flat, l.nodeId) ∈ p.placementMarks → hasTierOn ls .l0 l.nodeId = true

instance markedListedDecidable (p : PoolView B) (flat : Flat) (ls : List Location) :
    Decidable (p.MarkedListed flat ls) :=
  inferInstanceAs (Decidable (∀ e ∈ p.byFlat.lookup flat, ∀ l ∈ e.blockMeta.locations,
    l.tier = Tier.l0.toWire → (flat, l.nodeId) ∈ p.placementMarks → hasTierOn ls .l0 l.nodeId = true))

structure GcFrom (p q : PoolView B) : Prop where
  marks : q.placementMarks ⊆ p.placementMarks
  flats : ∀ seq flat, q.seqToFlat.lookup seq = some flat → p.seqToFlat.lookup seq = some flat
  metas : ∀ flat e', q.byFlat.lookup flat = some e' →
    ∃ e, p.byFlat.lookup flat = some e ∧ ∀ l ∈ e'.blockMeta.locations, l ∈ e.blockMeta.locations

theorem GcFrom.peel (he : q.byFlat.lookup flat = some e) (h : p.GcFrom q) : p.GcFrom (q.peel flat seq e) := by
  have hby := q.peel_byFlat flat seq e
  have hpeel := q.peel_redescribes flat seq e
  constructor
  · exact hpeel.marks.trans h.marks
  · rw [hpeel.seqToFlat]
    exact h.flats
  · intro g x hx
    rw [hby, lookup_insert_if] at hx
    split at hx
    next hg =>
      subst hg
      cases hx
      obtain ⟨e₀, he₀, hsub⟩ := h.metas g e he
      exact ⟨e₀, he₀, fun l hl => hsub l (mem_of_mem_filter hl)⟩
    · exact h.metas g x hx

theorem GcFrom.removeCold (h : p.GcFrom q) : p.GcFrom (q.removeCold seq flat e) := by
  constructor
  · exact (Finset.filter_subset _ _).trans h.marks
  · intro s g hg
    exact h.flats s g (lookup_erase_some hg).2
  · intro g x hx
    exact h.metas g x (lookup_erase_some hx).2

theorem Placeable.gcCold (hB : B.Lawful) (key : NamespaceKey) (pk : Int) {m : Nat} (hcold : p.ColdUnmarked m)
    (h : p.Placeable f n) : (p.gcCold key pk m).pool.Placeable f n := by
  have hrun : (p.gcCold key pk m).pool.Placeable f n ∧ p.GcFrom (p.gcCold key pk m).pool := by
    refine gcCold_induct hB key pk (I := fun q => q.Placeable f n ∧ p.GcFrom q) ?_ ?_ ?_ ?_
    · exact ⟨h, ⟨Finset.Subset.refl _, fun _ _ hs => hs, fun _ e he => ⟨e, he, fun _ hl => hl⟩⟩⟩
    · rintro q v flat e hv ⟨hq, hfrom⟩ hc he
      refine ⟨?_, hfrom.peel he⟩
      by_cases hlost : flat = f ∧ hasTierOn e.blockMeta.locations .l0 n = true
      · -- The copy goes, and the condition says that it was not marked.
        obtain ⟨rfl, hl0⟩ := hlost
        obtain ⟨l, hl, htier, rfl⟩ := hasTierOn_iff.mp hl0
        obtain ⟨e₀, he₀, hsub⟩ := hfrom.metas flat e he
        refine .inr fun hmark => ?_
        have hp := hfrom.marks ((q.peel_redescribes flat v.1 e).marks hmark)
        exact hcold v hv flat (hfrom.flats v.1 flat hc.1) e₀ he₀ l (hsub l hl) htier hp
      · refine hq.of_fewerMarks (q.peel_redescribes flat v.1 e).fewerMarks fun hl0 => ?_
        refine hl0.of_insert (q.peel_byFlat flat v.1 e) ?_
        rintro rfl
        exact absurd ⟨rfl, hl0.entry he⟩ hlost
    · rintro q seq flat e ⟨hq, hfrom⟩ - - - -
      exact ⟨hq.forget flat rfl rfl, hfrom.removeCold⟩
    · rintro q v flat e - ⟨hq, hfrom⟩ - -
      obtain ⟨hflats, hby⟩ := q.reinsertCold_frame v
      have hmarks := q.reinsertCold_fewerMarks v
      refine ⟨hq.of_fewerMarks hmarks ?_, hmarks.marks.trans hfrom.marks, ?_, ?_⟩
      · rintro ⟨x, hx, hl0⟩
        exact ⟨x, hby ▸ hx, hl0⟩
      · rw [hflats]
        exact hfrom.flats
      · rw [hby]
        exact hfrom.metas
  exact hrun.1

end PoolView

def Op.places : Op → Bool
  | .preplaceOnRegister _ _ _ _ => true
  | .reportHits _ _ => true
  | .warmupPlan _ _ => true
  | _ => false

section May

variable {op : Op} {key : NamespaceKey} {pk : Int} {key' : NamespaceKey} {node : String}

theorem may_discard {id : KvBlockId} {e : Entry B} (h : op.May key (.discard pk id e)) :
    ∃ ids, op = .discardBlocks ids ∧ id ∈ ids ∧ key = .fromId id ∧ resolvePoolKind id.poolKind = .ok pk := by
  cases h with
  | discard hmem hpk => exact ⟨_, rfl, hmem, rfl, hpk⟩
  | importModel _ h | importRow _ _ h | clearRef _ h => cases h
  | orphansDead h => cases h with | clearRef _ h => cases h
  | orphansGc h => cases h

theorem may_gcCold {n : Nat} (h : op.May (B := B) key (.gcCold key' pk n)) :
    (∃ m r raw, op = .gcCold m r raw n) ∨ ∃ now₁ now₂ req, op = .reconcileOrphans now₁ now₂ req := by
  cases h with
  | gcCold => exact .inl ⟨_, _, _, rfl⟩
  | importModel _ h | importRow _ _ h | clearRef _ h => cases h
  | orphansDead | orphansGc => exact .inr ⟨_, _, _, rfl⟩

theorem may_strip {pk' : Int} (h : op.May (B := B) key (.pool pk (.strip key' pk' node flat))) :
    op = .reconcileDeadNode node ∨ ∃ now₁ now₂ req, op = .reconcileOrphans now₁ now₂ req := by
  cases h with
  | strip => exact .inl rfl
  | importModel _ h | importRow _ _ h | clearRef _ h => cases h
  | orphansDead h => exact .inr ⟨_, _, _, rfl⟩
  | orphansGc h => cases h

theorem may_markPlaced {home : String} {plan : List KvBlockId}
    (h : op.May (B := B) key (.pool pk (.markPlaced home plan))) : op.places = true := by
  cases h with
  | preplace | follow | warmup => rfl
  | importModel _ h | importRow _ _ h | clearRef _ h => cases h
  | orphansDead h => cases h with | clearRef _ h => cases h
  | orphansGc h => cases h

theorem may_recordHit (h : op.May (B := B) key (.pool pk (.recordHit flat node))) : op.places = true := by
  cases h with
  | hit => rfl
  | importModel _ h | importRow _ _ h | clearRef _ h => cases h
  | orphansDead h => cases h with | clearRef _ h => cases h
  | orphansGc h => cases h

theorem poolMay_fewerMarks (hB : B.Lawful) (hop : op.places = false) {p : PoolView B} {act : PoolAction B}
    (h : PoolMay op.May key pk act) : p.FewerMarks (act.apply p) := by
  refine p.apply_fewerMarks hB ?_ ?_
  · rintro flat node rfl
    simp [may_recordHit h] at hop
  · rintro home plan rfl
    simp [may_markPlaced h] at hop

theorem places_poolMay (hop : op.places = true) {act : PoolAction B} (h : PoolMay op.May key pk act) :
    (∃ n, act = .evict n) ∨ ∀ p, (act.apply p).byFlat = p.byFlat := by
  cases act with
  | evict n => exact .inl ⟨n, rfl⟩
  | register b =>
    obtain ⟨placed, hmay, -⟩ := h
    cases hmay <;> cases hop
  | discard flat e =>
    obtain ⟨id, hmay, -⟩ := h
    cases hmay <;> cases hop
  | gcCold key' pk' n =>
    obtain ⟨-, -, hmay⟩ := h
    cases hmay <;> cases hop
  | setRef flat e kind value => cases h <;> cases hop
  | touchRefs flat e => exact .inr fun _ => rfl
  | strip key' pk' node flat => cases h <;> cases hop
  | clearMarks node => exact .inr fun _ => rfl
  | publish | setL3 | relocate => cases h <;> cases hop
  | touchHits | markPlaced | recordHit => exact .inr fun _ => rfl

end May

namespace Authority

variable {a : Authority B} {op : Op}

def Bookkept (a : Authority B) : Prop :=
  ∀ key pk p, a.pool? key pk = some p → p.Bookkept

/-- A call that leaves the placement books in order: blocks are discarded before traffic counted or
placed them, `gc_cold` takes no copy from L0 that is marked, and a block registered again keeps
its marked copies. -/
def KeepsPlacement (a : Authority B) : Op → Prop
  | .discardBlocks ids => ∀ id ∈ ids, ∀ pk ∈ (resolvePoolKind id.poolKind).toOption,
      ∀ p ∈ a.pool? (.fromId id) pk, p.Untraced id.blockHash
  | .gcCold m r raw n => ∀ pk ∈ (resolvePoolKind raw).toOption, ∀ p ∈ a.pool? ⟨m, r⟩ pk, p.ColdUnmarked n
  | .register node _ metas => ∀ m ∈ metas, ∀ id ∈ m.id, ∀ pk ∈ (resolvePoolKind id.poolKind).toOption,
      ∀ p ∈ a.pool? (.fromId id) pk, p.MarkedListed id.blockHash (m.locations.map (fillNode node))
  | .reconcileOrphans _ _ _ => False
  | _ => True

instance keepsPlacementDecidable (a : Authority B) : (op : Op) → Decidable (a.KeepsPlacement op)
  | .discardBlocks ids => inferInstanceAs (Decidable (∀ id ∈ ids,
      ∀ pk ∈ (resolvePoolKind id.poolKind).toOption, ∀ p ∈ a.pool? (.fromId id) pk, p.Untraced id.blockHash))
  | .gcCold m r raw n => inferInstanceAs (Decidable (∀ pk ∈ (resolvePoolKind raw).toOption,
      ∀ p ∈ a.pool? ⟨m, r⟩ pk, p.ColdUnmarked n))
  | .register node _ metas => inferInstanceAs (Decidable (∀ m ∈ metas, ∀ id ∈ m.id,
      ∀ pk ∈ (resolvePoolKind id.poolKind).toOption, ∀ p ∈ a.pool? (.fromId id) pk,
        p.MarkedListed id.blockHash (m.locations.map (fillNode node))))
  | .reconcileOrphans _ _ _ => .isFalse id
  | .registerModel _ | .deregisterModel _ _ | .setModelQuota _ _ _ | .setPoolCapacityBytes _
  | .preplaceOnRegister _ _ _ _ | .reportHits _ _ | .warmupPlan _ _ | .lookupPrefix _ _ _ _ _ | .reportRefs _
  | .evictN _ _ _ _ | .reconcileDeadNode _ | .reportOrphans _ _ | .sweepOrphans _ _
  | .publishLocationAt _ _ _ _ _ _ _ _ _ | .setL3Present _ _ _ _ _ | .relocateInView _ _ _ _ _ _ _ _
  | .completeBarrier _ _ | .setShard _ | .saveCheckpoint | .importSnapshot _ | .commitViewEvents => .isTrue trivial

def Discards (op : Op) (key : NamespaceKey) (pk : Int) (flat : Flat) : Prop :=
  ∃ ids id, op = .discardBlocks ids ∧ id ∈ ids ∧ key = .fromId id ∧ resolvePoolKind id.poolKind = .ok pk ∧
    flat = id.blockHash

theorem step_bookkept (hB : B.Lawful) (hok : a.KeepsPlacement op) (hkeyed : a.Keyed) (h : a.Bookkept) :
    (a.step op).Bookkept := by
  have hrun : ∀ key pk q, (a.step op).pool? key pk = some q →
      (∀ flat e, q.byFlat.lookup flat = some e → e.Keyed key pk flat) ∧ q.Bookkept ∧
        ∀ flat, Discards op key pk flat → q.Untraced flat := step_pools ?_ ?_ ?_
  · exact fun key pk p hp => (hrun key pk p hp).2.1
  · intro key pk cap
    refine ⟨?_, .new cap, fun flat _ => ⟨notMem_empty, ?_⟩⟩
    · intro flat e he
      simp [PoolView.new] at he
    · simp [PoolView.new]
  · rintro key pk p act hmay guard ⟨hk, hbook, hclear⟩
    refine ⟨keyed_apply hB hmay guard hk, hbook.apply hB hk guard ?_, ?_⟩
    · rintro flat e rfl
      obtain ⟨id, hdisc, rfl⟩ := hmay
      obtain ⟨ids, rfl, hid, rfl, hpk⟩ := may_discard hdisc
      exact hclear _ ⟨ids, id, rfl, hid, rfl, hpk, rfl⟩
    · intro flat hdisc
      have hop : op.places = false := by
        obtain ⟨ids, id, rfl, -⟩ := hdisc
        rfl
      exact (hclear flat hdisc).of_fewerMarks (poolMay_fewerMarks hB hop hmay)
  · intro key pk p hp
    refine ⟨hkeyed key pk p hp, h key pk p hp, ?_⟩
    rintro flat ⟨ids, id, rfl, hid, rfl, hpk, rfl⟩
    exact hok id hid pk (by rw [hpk]; rfl) p hp

section Placeable

variable {key : NamespaceKey} {pk : Int} {f : Flat} {n : String}

def HoldsL0 (a : Authority B) (key : NamespaceKey) (pk : Int) (f : Flat) (n : String) : Prop :=
  ∃ p, a.pool? key pk = some p ∧ p.HoldsL0 f n

def Marked (a : Authority B) (key : NamespaceKey) (pk : Int) (f : Flat) (n : String) : Prop :=
  ∃ p, a.pool? key pk = some p ∧ (f, n) ∈ p.placementMarks

variable (hB : B.Lawful)
include hB

theorem step_unmarked (hop : op.places = false) (h : ¬a.Marked key pk f n) : ¬(a.step op).Marked key pk f n := by
  have hrun : ∀ key' pk' q, (a.step op).pool? key' pk' = some q →
      key' = key → pk' = pk → (f, n) ∉ q.placementMarks := step_pools ?_ ?_ ?_
  · rintro ⟨q, hq, hmark⟩
    exact hrun key pk q hq rfl rfl hmark
  · rintro key' pk' cap - -
    simp [PoolView.new]
  · intro key' pk' p act hmay _ hI hkey hpk hmark
    exact hI hkey hpk ((poolMay_fewerMarks hB hop hmay).marks hmark)
  · rintro key' pk' p hp rfl rfl hmark
    exact h ⟨p, hp, hmark⟩

theorem step_holdsL0 (hop : op.places = true) (hbook : (a.step op).Bookkept)
    (h : a.HoldsL0 key pk f n) {q : PoolView B} (hq : (a.step op).pool? key pk = some q) : q.Placeable f n := by
  have hrun : ∀ key' pk' q, (a.step op).pool? key' pk' = some q →
      key' = key → pk' = pk → q.HoldsL0 f n ∨ f ∉ q.byFlat := step_pools ?_ ?_ ?_
  · rcases hrun key pk q hq rfl rfl with hl0 | hgone
    · exact .inl hl0
    · exact .inr fun hmark => hgone ((hbook key pk q hq).marks f n hmark)
  · rintro key' pk' cap - -
    exact .inr notMem_empty
  · intro key' pk' p act hmay _ hI hkey hpk
    rcases places_poolMay hop hmay with ⟨m, rfl⟩ | hby
    · exact dropInactiveVictims_induct hB (I := fun q => q.HoldsL0 f n ∨ f ∉ q.byFlat) (hI hkey hpk)
        fun q seq _ hq => holdsL0_dropVictim seq hq
    · rw [PoolView.HoldsL0, hby]
      exact hI hkey hpk
  · rintro key' pk' p hp rfl rfl
    obtain ⟨p', hp', hl0⟩ := h
    cases hp.symm.trans hp'
    exact .inl hl0

theorem reconcileDeadNode_unmarked (hn : n.isEmpty = false) : ¬(a.reconcileDeadNode n).1.Marked key pk f n := by
  rintro ⟨p, hp, hmark⟩
  simp only [reconcileDeadNode, hn, Bool.false_eq_true, if_false] at hp
  obtain ⟨p₀, -, rfl⟩ := map_eq_some_iff.mp ((pool?_stripNamespaces hB _ key pk).symm.trans hp)
  simp [stripNode, clearNodeMarks] at hmark

theorem importSnapshot_unmarked (snap : CheckpointSnapshot) : ¬(a.importSnapshot snap).1.Marked key pk f n := by
  rintro ⟨p, hp, hmark⟩
  refine (importSnapshot_run a snap).pools (I := fun _ _ q => (f, n) ∉ q.placementMarks) ?_ ?_ ?_ key pk p hp hmark
  · intro _ _ cap
    simp [PoolView.new]
  · intro key' pk' q act hmay _ hI hmark
    exact hI ((poolMay_fewerMarks hB rfl hmay).marks hmark)
  · intro key' pk' q hq
    simp [cleared, pool?] at hq

/-- The calls that take copies only by single actions: all but `gc_cold`, the node's own
`reconcile_dead_node` and a restore. -/
theorem step_placeable_single (hok : a.KeepsPlacement op) (hop : op.places = false)
    (hgc : ∀ m r raw k, op ≠ .gcCold m r raw k) (hdead : op ≠ .reconcileDeadNode n)
    (hsnap : ∀ snap, op ≠ .importSnapshot snap) {p : PoolView B} (hp : a.pool? key pk = some p)
    (hl0 : p.HoldsL0 f n) (hmark : (f, n) ∈ p.placementMarks) {q : PoolView B}
    (hq : (a.step op).pool? key pk = some q) : q.Placeable f n := by
  have horphans : ∀ now₁ now₂ req, op ≠ .reconcileOrphans now₁ now₂ req := by
    rintro now₁ now₂ req rfl
    exact hok
  refine step_pools (I := fun key' pk' q => key' = key → pk' = pk → q.Placeable f n) ?_ ?_ ?_ key pk q hq rfl rfl
  · exact fun _ _ cap _ _ => .new cap
  · rintro key' pk' x act hmay guard hI rfl rfl
    refine (hI rfl rfl).apply hB guard ?_ ?_ ?_ ?_ ?_
    · rintro b rfl rfl
      obtain ⟨placed, hreg, hb⟩ := hmay
      obtain ⟨node, chain, metas, hcheck, rfl, rfl | ⟨snap, cb, row, rfl, -⟩⟩ := may_registerAll hreg
      · obtain ⟨m, hm, hplace⟩ := mem_filterMap.mp hb
        obtain ⟨id, hid, hbid, -, -, -, hmeta⟩ := placeBlock_eq_some hplace
        obtain ⟨hkey, hkind, -⟩ := checkBatch_eq_ok hcheck (mem_filterMap.mpr ⟨m, hm, hid⟩)
        have hflat : b.id.blockHash = id.blockHash := by rw [hbid]
        obtain ⟨e, he, hon⟩ := hl0
        obtain ⟨l, hl, htier, rfl⟩ := hasTierOn_iff.mp hon
        rw [hflat] at he hmark
        rw [hmeta]
        exact hok m hm id hid pk' (by rw [hkind]; rfl) p (hkey ▸ hp) e he l hl htier hmark
      · exact absurd rfl (hsnap snap)
    · rintro e rfl
      obtain ⟨id, hdisc, rfl⟩ := hmay
      obtain ⟨ids, rfl, hid, rfl, hpk⟩ := may_discard hdisc
      exact (hok id hid pk' (by rw [hpk]; rfl) p hp).2 _ hmark rfl
    · rintro key'' pk'' k rfl
      obtain ⟨-, -, hgcMay⟩ := hmay
      rcases may_gcCold hgcMay with ⟨m, r, raw, rfl⟩ | ⟨now₁, now₂, req, rfl⟩
      · exact hgc m r raw k rfl
      · exact horphans now₁ now₂ req rfl
    · rintro key'' pk'' flat rfl
      rcases may_strip hmay with rfl | ⟨now₁, now₂, req, rfl⟩
      · exact hdead rfl
      · exact horphans now₁ now₂ req rfl
    · rintro home plan rfl
      simp [may_markPlaced hmay] at hop
  · rintro key' pk' x hx rfl rfl
    cases hp.symm.trans hx
    exact .inl hl0

theorem step_placeable (hok : a.KeepsPlacement op) (hop : op.places = false)
    (h : a.HoldsL0 key pk f n) {q : PoolView B} (hq : (a.step op).pool? key pk = some q) : q.Placeable f n := by
  by_cases hmarked : a.Marked key pk f n
  · obtain ⟨p, hp, hl0⟩ := h
    obtain ⟨p', hp', hmark⟩ := hmarked
    cases hp.symm.trans hp'
    have hsingle := fun hgc hdead hsnap => step_placeable_single hB hok hop hgc hdead hsnap hp hl0 hmark hq
    cases op with
    | gcCold m r raw k =>
      rcases gcCold_pool? hq with hsame | ⟨x, rfl, hpk, hx, rfl⟩
      · cases hp.symm.trans hsame
        exact .inl hl0
      · cases hp.symm.trans hx
        exact PoolView.Placeable.gcCold hB _ pk (hok pk (by rw [hpk]; rfl) p hp) (.inl hl0)
    | reconcileDeadNode node =>
      by_cases hnode : node = n
      · subst hnode
        by_cases hempty : node.isEmpty = true
        · -- The call is refused and nothing changes.
          rw [step, reconcileDeadNode, if_pos hempty] at hq
          cases hp.symm.trans hq
          exact .inl hl0
        · exact .inr fun hm => reconcileDeadNode_unmarked hB (by simpa using hempty) ⟨q, hq, hm⟩
      · exact hsingle (by simp) (by simpa using hnode) (by simp)
    | importSnapshot snap => exact .inr fun hm => importSnapshot_unmarked hB snap ⟨q, hq, hm⟩
    | _ => exact hsingle (by simp) (by simp) (by simp)
  · exact .inr fun hmark => step_unmarked hB hop hmarked ⟨q, hq, hmark⟩

end Placeable

/-- In every state of a run whose calls keep the placement books, hits and marks are those of registered
blocks, and a call that takes a block's copy from L0 of a node leaves no mark for that node. -/
theorem placement_follows_blocks (hB : B.Lawful) (h : ReachableBy KeepsPlacement a) :
    a.Bookkept ∧ ∀ op, a.KeepsPlacement op → ∀ key pk f n, a.HoldsL0 key pk f n →
      ¬(a.step op).HoldsL0 key pk f n → ¬(a.step op).Marked key pk f n := by
  have hinv : a.Keyed ∧ a.Bookkept := by
    refine Reach.invariant (I := fun a => a.Keyed ∧ a.Bookkept) ?_ ?_ h
    · intro s hs
      exact ⟨Reachable.keyed hB (Reach.start hs), fun key pk p hp => by simp [initial_pool? hs] at hp⟩
    · rintro s op ⟨hk, hbook⟩ hok
      refine ⟨step_keyed hB hk, step_bookkept hB hok hk hbook⟩
  refine ⟨hinv.2, fun op hok key pk f n hbefore hafter => ?_⟩
  rintro ⟨q, hq, hmark⟩
  have hplace : q.Placeable f n := by
    cases hop : op.places with
    | false => exact step_placeable hB hok hop hbefore hq
    | true => exact step_holdsL0 hB hop (step_bookkept hB hok hinv.1 hinv.2) hbefore hq
  rcases hplace with hl0 | hunmarked
  · exact hafter ⟨q, hq, hl0⟩
  · exact hunmarked hmark

def placedRun : List Op :=
  [.registerModel (sampleModel 0 0), .register "n" [[1]] [sampleMeta 1],
    .reportHits "n" [sampleId 1, sampleId 1], .publishLocationAt "m" "r" 1 [1] .l0 "n" 1 0 true]

def releasedRun : List Op :=
  placedRun ++ [.reportRefs [sampleRef 1 1 "n"], .reportRefs [sampleRef 1 (-1) "n"]]

section Sample

variable {a : Authority sampleBackend} {mark : Bool}

def samplePlace (a : Authority sampleBackend) : Option (Bool × Option Bool) :=
  (a.pool? sampleKey poolTarget).map fun p => (decide (([1], "n") ∈ p.placementMarks),
    (p.byFlat.lookup [1]).map fun e => hasTierOn e.blockMeta.locations .l0 "n")

theorem samplePlace_marked {copy : Option Bool} (h : samplePlace a = some (true, copy)) :
    a.Marked sampleKey poolTarget [1] "n" := by
  obtain ⟨p, hp, hboth⟩ := map_eq_some_iff.mp h
  exact ⟨p, hp, of_decide_eq_true (Prod.mk.inj hboth).1⟩

theorem samplePlace_holdsL0 (h : samplePlace a = some (mark, some true)) : a.HoldsL0 sampleKey poolTarget [1] "n" := by
  obtain ⟨p, hp, hboth⟩ := map_eq_some_iff.mp h
  obtain ⟨e, he, hl0⟩ := map_eq_some_iff.mp (Prod.mk.inj hboth).2
  exact ⟨p, hp, e, he, hl0⟩

theorem samplePlace_not_holdsL0 (h : samplePlace a = some (mark, some false)) :
    ¬a.HoldsL0 sampleKey poolTarget [1] "n" := by
  rintro ⟨p, hp, e, he, hl0⟩
  simp [samplePlace, hp, he, hl0] at h

end Sample

def withdrawCopy : Op :=
  .publishLocationAt "m" "r" 1 [1] .l0 "n" 1 0 false

theorem placement_follows_blocks_withdrawn : (sampleRun placedRun).Marked sampleKey poolTarget [1] "n" ∧
      ¬((sampleRun placedRun).step withdrawCopy).Marked sampleKey poolTarget [1] "n" := by
  have hreach : (sampleRun placedRun).ReachableBy KeepsPlacement :=
    sampleRun_reachableBy _ ⟨trivial, by decide, trivial, trivial, trivial⟩
  have hbefore : samplePlace (sampleRun placedRun) = some (true, some true) := by decide
  have hafter : samplePlace ((sampleRun placedRun).step withdrawCopy) = some (false, some false) := by decide
  exact ⟨samplePlace_marked hbefore, (placement_follows_blocks sampleBackend_lawful hreach).2 withdrawCopy trivial
    _ _ _ _ (samplePlace_holdsL0 hbefore) (samplePlace_not_holdsL0 hafter)⟩

/-- A placed block is discarded: its hits and its mark stay. A placed block is swept from L0 by
`gc_cold`: its mark stays, and no traffic brings it back. -/
theorem placement_outlives_copy : sampleBackend.Lawful ∧
    (sampleRun (placedRun ++ [.discardBlocks [sampleId 1]])).Reachable ∧
    (∃ p, (sampleRun (placedRun ++ [.discardBlocks [sampleId 1]])).pool? sampleKey poolTarget = some p ∧
      [1] ∈ p.hitCounts ∧ ([1], "n") ∈ p.placementMarks ∧ [1] ∉ p.byFlat) ∧
    (sampleRun releasedRun).Reachable ∧ (sampleRun releasedRun).HoldsL0 sampleKey poolTarget [1] "n" ∧
    ¬((sampleRun releasedRun).step (.gcCold "m" "r" poolTarget 1)).HoldsL0 sampleKey poolTarget [1] "n" ∧
    ((sampleRun releasedRun).step (.gcCold "m" "r" poolTarget 1)).Marked sampleKey poolTarget [1] "n" := by
  have hgone : ((sampleRun (placedRun ++ [.discardBlocks [sampleId 1]])).pool? sampleKey poolTarget).map (fun p =>
      decide ([1] ∈ p.hitCounts ∧ ([1], "n") ∈ p.placementMarks ∧ [1] ∉ p.byFlat)) = some true := by
    decide
  obtain ⟨p, hp, hout⟩ := map_eq_some_iff.mp hgone
  have hbefore : samplePlace (sampleRun releasedRun) = some (true, some true) := by decide
  have hafter : samplePlace ((sampleRun releasedRun).step (.gcCold "m" "r" poolTarget 1)) =
      some (true, some false) := by
    decide
  exact ⟨sampleBackend_lawful, sampleRun_reachable _, ⟨p, hp, of_decide_eq_true hout⟩, sampleRun_reachable _,
    samplePlace_holdsL0 hbefore, samplePlace_not_holdsL0 hafter, samplePlace_marked hafter⟩

end Authority

end LakeKv
