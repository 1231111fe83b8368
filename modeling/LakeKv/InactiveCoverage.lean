import LakeKv.LineageIndex

namespace LakeKv

open Finmap GcPass List Option PoolView

variable {B : Backend}

/-- No two of these chains compete for a slot of the inactive index: what is not in it is taken in. -/
def Backend.SlotsApart (B : Backend) (S : Set (List Flat)) : Prop :=
  ∀ i s b, (∀ t, t ∈ B.nodes i → ∃ c ∈ S, B.lineageOf c = some t) → (∃ c ∈ S, B.lineageOf c = some s) →
    s ∉ B.nodes i → B.nodes (B.insert i s b) = (B.nodes i).insert s b

namespace PoolView

variable {p q : PoolView B} {H : Flat → BlockId → Prop} {flat : Flat} {e : Entry B}

/-- The inactive index is within its capacity, and has every block of `H` without a reference: `H` is
about blocks under the id they were registered with, none of them to come. -/
structure Covered (H : Flat → BlockId → Prop) (p : PoolView B) : Prop where
  room : (B.nodes p.inactive).keys.card ≤ p.inactiveCap
  ids : ∀ f e, p.byFlat.lookup f = some e → e.blockId < p.nextBlockId
  past : ∀ f b, H f b → b < p.nextBlockId
  idle : ∀ f e, p.byFlat.lookup f = some e → H f e.blockId → (p.refsOf e.seqHash).total = 0 →
    e.seqHash ∈ B.nodes p.inactive

theorem Covered.new (hB : B.Lawful) (cap : Nat) (hH : ∀ f b, ¬H f b) : (PoolView.new B cap).Covered H where
  room := by simp [PoolView.new, hB.nodes_withFrequency]
  ids := by simp [PoolView.new]
  past f b hb := absurd hb (hH f b)
  idle := by simp [PoolView.new]

theorem Covered.widen {H' : Flat → BlockId → Prop} (h : p.Covered H)
    (hH : ∀ f b, H' f b → H f b ∨ ∃ e, p.byFlat.lookup f = some e ∧ e.blockId = b ∧
      0 < (p.refsOf e.seqHash).total) : p.Covered H' where
  room := h.room
  ids := h.ids
  past := by
    intro f b hb
    rcases hH f b hb with hb | ⟨e, he, rfl, -⟩
    · exact h.past f b hb
    · exact h.ids f e he
  idle := by
    intro f e he hb ht
    rcases hH f _ hb with hb | ⟨e', he', -, hpos⟩
    · exact h.idle f e he hb ht
    · cases he.symm.trans he'
      omega

/-- The inactive index, its capacity and the next block id are as they were. -/
structure SameSlots (p q : PoolView B) : Prop where
  nodes : B.nodes q.inactive = B.nodes p.inactive
  cap : q.inactiveCap = p.inactiveCap
  next : q.nextBlockId = p.nextBlockId

theorem Covered.of_frame (h : p.Covered H) (hs : p.SameSlots q) (hby : p.Shrinks q)
    (hrefs : ∀ s, q.refsOf s = p.refsOf s) : q.Covered H where
  room := by
    rw [hs.nodes, hs.cap]
    exact h.room
  ids := by
    intro f e' he'
    obtain ⟨e, he, hsame⟩ := hby f e' he'
    rw [hsame.blockId, hs.next]
    exact h.ids f e he
  past := by
    intro f b hb
    rw [hs.next]
    exact h.past f b hb
  idle := by
    intro f e' he' hb ht
    obtain ⟨e, he, hsame⟩ := hby f e' he'
    rw [hsame.blockId] at hb
    rw [hrefs, hsame.seqHash] at ht
    rw [hs.nodes, hsame.seqHash]
    exact h.idle f e he hb ht

theorem IndexOk.inactive_chain {S : Set (List Flat)} (hidx : p.IndexOk)
    (hchains : ∀ f e, p.byFlat.lookup f = some e → ∃ c ∈ S, B.lineageOf c = some e.seqHash) {s : B.Seq}
    (hs : s ∈ B.nodes p.inactive) : ∃ c ∈ S, B.lineageOf c = some s := by
  obtain ⟨b, hb⟩ := mem_iff.mp hs
  obtain ⟨f, -, hf, -, -⟩ := hidx.inactive s b hb
  obtain ⟨e, he, rfl⟩ := hidx.owned s f hf
  exact hchains f e he

theorem Redescribes.sameSlots (h : p.Redescribes q) : p.SameSlots q :=
  ⟨congrArg B.nodes h.inactive, h.cap, h.next⟩

theorem SameSlots.trans {r : PoolView B} (h : p.SameSlots q) (h' : q.SameSlots r) : p.SameSlots r :=
  ⟨h'.nodes.trans h.nodes, h'.cap.trans h.cap, h'.next.trans h.next⟩

theorem dropVictims_sameSlots (vs : List (B.Seq × BlockId)) (p : PoolView B) : p.SameSlots (p.dropVictims vs).1 := by
  induction vs generalizing p with
  | nil => exact ⟨rfl, rfl, rfl⟩
  | cons v vs ih =>
    have hone : p.SameSlots (p.dropVictim v.1).1 := by
      unfold dropVictim
      split
      · exact ⟨rfl, rfl, rfl⟩
      dsimp only
      split <;> exact ⟨rfl, rfl, rfl⟩
    exact hone.trans (ih _)

variable (hB : B.Lawful)
include hB

/-- The victims and what is left of the index are together what was in it. -/
theorem card_nodes_allocate (i : B.Index) (n : Nat) :
    (B.nodes (B.allocate i n).2).keys.card + (B.allocate i n).1.length = (B.nodes i).keys.card := by
  rw [← length_map Prod.fst, ← toFinset_card_of_nodup (hB.allocate_nodup i n), ← Finset.card_union_of_disjoint]
  · congr 1
    ext s
    rw [Finset.mem_union, Finmap.mem_keys, Finmap.mem_keys, List.mem_toFinset, mem_nodes_allocate hB]
    have hvictim := mem_nodes_of_victim hB (i := i) (n := n) (s := s)
    tauto
  · rw [Finset.disjoint_left]
    exact fun s hs hs' => ((mem_nodes_allocate hB).mp (mem_keys.mp hs)).2 (List.mem_toFinset.mp hs')

/-- A block that is new gets an id that no block had before it. -/
theorem Covered.registerPlaced (h : p.Covered H) {b : PlacedBlock B}
    (same : ∀ e, p.byFlat.lookup b.id.blockHash = some e → e.seqHash = b.seq) : (p.registerPlaced b).Covered H := by
  have hnodes := nodes_registerPlaced hB p b
  have hnext : p.nextBlockId ≤ (p.registerPlaced b).nextBlockId := by
    unfold PoolView.registerPlaced registerBlock
    dsimp only
    split
    · exact Nat.le_refl _
    · exact Nat.le_succ _
  have hby := p.lookup_registerPlaced b
  refine ⟨by rw [hnodes]; exact h.room, ?_, fun f c hc => lt_of_lt_of_le (h.past f c hc) hnext, ?_⟩
  · intro f e he
    rw [hby] at he
    split at he
    · cases he
      cases hold : p.byFlat.lookup b.id.blockHash with
      | none =>
        have hmem : b.id.blockHash ∉ p.byFlat := lookup_eq_none.mp hold
        simp [PoolView.registerPlaced, registerBlock, hmem]
      | some e₀ => exact lt_of_lt_of_le (h.ids _ e₀ hold) hnext
    · exact lt_of_lt_of_le (h.ids f e he) hnext
  · intro f e he hH ht
    rw [hnodes]
    rw [hby] at he
    split at he
    next hf =>
      cases he
      cases hold : p.byFlat.lookup b.id.blockHash with
      | none =>
        -- The id of a new block is not in the past.
        simp only [hold, map_none, getD_none] at hH
        exact absurd (h.past f _ hH) (lt_irrefl _)
      | some e₀ =>
        simp only [hold, map_some, getD_some] at hH
        rw [← same e₀ hold] at ht ⊢
        exact h.idle _ e₀ hold (hf ▸ hH) ht
    · exact h.idle f e he hH ht

theorem Covered.discardEntry (hidx : p.IndexOk) (h : p.Covered H)
    (he : p.byFlat.lookup flat = some e) : (p.discardEntry flat e).Covered H := by
  have hnodes : ∀ s, s ∈ B.nodes (p.discardEntry flat e).inactive → s ∈ B.nodes p.inactive := by
    intro s hs
    obtain ⟨b, hb⟩ := mem_iff.mp hs
    exact mem_of_lookup_eq_some (nodes_take_le hB hb)
  have hby : ∀ f e', (p.discardEntry flat e).byFlat.lookup f = some e' → f ≠ flat ∧ p.byFlat.lookup f = some e' := by
    intro f e' he'
    have hlookup : (p.discardEntry flat e).byFlat.lookup f = if f = flat then none else p.byFlat.lookup f :=
      lookup_erase_if _ _ _
    rw [hlookup] at he'
    split at he'
    · simp at he'
    next hne => exact ⟨hne, he'⟩
  refine ⟨?_, fun f e' he' => h.ids f e' (hby f e' he').2, h.past, ?_⟩
  · refine le_trans (Finset.card_le_card fun s hs => ?_) h.room
    exact mem_keys.mpr (hnodes s (mem_keys.mp hs))
  · intro f e' he' hH ht
    obtain ⟨hne, he'⟩ := hby f e' he'
    have hseq := hidx.seqHash_ne he he' hne
    have hrefs : (p.discardEntry flat e).refsOf e'.seqHash = p.refsOf e'.seqHash := by
      simp [refsOf, PoolView.discardEntry, lookup_erase_ne hseq]
    rw [hrefs] at ht
    obtain ⟨b, hb⟩ := mem_iff.mp (h.idle f e' he' hH ht)
    refine mem_iff.mpr ⟨b, ?_⟩
    show (B.nodes (B.take p.inactive e.seqHash e.blockId).2).lookup e'.seqHash = some b
    rw [hB.nodes_take]
    split
    · rw [lookup_erase_ne hseq, hb]
    · exact hb

/-- A block whose last reference goes is taken in if there is room; the others stay where they are. -/
theorem Covered.setRef {S : Set (List Flat)} (hslots : B.SlotsApart S) (hidx : p.IndexOk)
    (hchains : ∀ f e, p.byFlat.lookup f = some e → ∃ c ∈ S, B.lineageOf c = some e.seqHash)
    (h : p.Covered H) (he : p.byFlat.lookup flat = some e) (kind : RefKind) {value : Int} (hvalue : 0 ≤ value)
    (room : 0 < (p.refsOf e.seqHash).total → ((p.refsOf e.seqHash).setBucket kind value).total = 0 →
      (B.nodes p.inactive).keys.card < p.inactiveCap) : (p.setRef e.seqHash e.blockId kind value).Covered H := by
  have hrefs := p.refsOf_setRef e.seqHash e.blockId kind value
  have hby : (p.setRef e.seqHash e.blockId kind value).byFlat = p.byFlat := by rw [setRef_eq]
  have hcap : (p.setRef e.seqHash e.blockId kind value).inactiveCap = p.inactiveCap := by rw [setRef_eq]
  have hnext : (p.setRef e.seqHash e.blockId kind value).nextBlockId = p.nextBlockId := by rw [setRef_eq]
  have hnonneg := bucket_setBucket_nonneg kind (hidx.nonneg e.seqHash) hvalue
  have hold := hidx.nonneg e.seqHash
  -- What the settling leaves of the index.
  have hindex : ((B.nodes (p.setRef e.seqHash e.blockId kind value).inactive).keys.card ≤ p.inactiveCap) ∧
      (∀ s, s ≠ e.seqHash → s ∈ B.nodes p.inactive → s ∈ B.nodes (p.setRef e.seqHash e.blockId kind value).inactive) ∧
      (((p.refsOf e.seqHash).setBucket kind value).total = 0 →
        (0 < (p.refsOf e.seqHash).total ∨ e.seqHash ∈ B.nodes p.inactive) →
        e.seqHash ∈ B.nodes (p.setRef e.seqHash e.blockId kind value).inactive) := by
    simp only [PoolView.setRef, settleInactive]
    split
    next hgone =>
      have hroom := room hgone.1 hgone.2
      have hnot : e.seqHash ∉ B.nodes p.inactive := by
        intro hmem
        have hidle := hidx.idle _ hmem
        omega
      have hhas : B.has p.inactive e.seqHash = false := by
        rw [Bool.eq_false_iff]
        exact fun hh => hnot ((hB.has_iff _ _).mp hh)
      have hlen : B.len p.inactive < p.inactiveCap := by
        rw [hB.len_eq]
        exact hroom
      have hins := hslots p.inactive e.seqHash e.blockId (fun _ => hidx.inactive_chain hchains) (hchains flat e he) hnot
      simp only [hhas, hlen, Bool.not_false, decide_true, Bool.and_self, ↓reduceIte, hins]
      refine ⟨?_, fun s hs hmem => mem_insert.mpr (.inr hmem), fun _ _ => mem_insert.mpr (.inl rfl)⟩
      rw [keys_insert, Finset.card_insert_of_notMem (fun hm => hnot (mem_keys.mp hm))]
      omega
    next hgone =>
      split
      next hcame =>
        refine ⟨?_, ?_, fun ht => by omega⟩
        · refine le_trans (Finset.card_le_card fun s hs => ?_) h.room
          obtain ⟨b, hb⟩ := mem_iff.mp (mem_keys.mp hs)
          exact mem_keys.mpr (mem_of_lookup_eq_some (nodes_take_le hB hb))
        · intro s hs hmem
          show s ∈ B.nodes (B.take p.inactive e.seqHash e.blockId).2
          rw [hB.nodes_take]
          split
          · exact mem_erase.mpr ⟨hs, hmem⟩
          · exact hmem
      refine ⟨h.room, fun _ _ hmem => hmem, fun ht hcase => ?_⟩
      rcases hcase with hpos | hmem
      · exact absurd ⟨hpos, ht⟩ hgone
      · exact hmem
  obtain ⟨hcard, hothers, hself⟩ := hindex
  refine ⟨by rw [hcap]; exact hcard, by rw [hby, hnext]; exact h.ids, by rw [hnext]; exact h.past, ?_⟩
  intro f e' he' hH ht
  rw [hby] at he'
  rw [hrefs] at ht
  by_cases hf : f = flat
  · subst hf
    cases he'.symm.trans he
    rw [if_pos rfl] at ht
    refine hself ht ?_
    by_cases hpos : 0 < (p.refsOf e.seqHash).total
    · exact .inl hpos
    right
    refine h.idle _ e he hH ?_
    unfold RefAccounts.total at hpos ⊢
    omega
  · have hseq := hidx.seqHash_ne he he' hf
    rw [if_neg hseq] at ht
    exact hothers _ hseq (h.idle f e' he' hH ht)

/-- What stays registered is not among the victims, so it stays where it was. -/
theorem Covered.dropInactiveVictims (hidx : p.IndexOk) (h : p.Covered H) (n : Nat) :
    (p.dropInactiveVictims n).1.Covered H := by
  have hslots := dropVictims_sameSlots (B.allocate p.inactive n).1 { p with inactive := (B.allocate p.inactive n).2 }
  have hcard := card_nodes_allocate hB p.inactive n
  have hby : ∀ f e, (p.dropInactiveVictims n).1.byFlat.lookup f = some e →
      p.byFlat.lookup f = some e ∧ e.seqHash ∉ (B.allocate p.inactive n).1.map Prod.fst := by
    intro f e he
    rw [byFlat_dropInactiveVictims] at he
    split at he
    · cases he
    next hkept =>
      refine ⟨he, fun hv => hkept (mem_map.mpr ⟨(e.seqHash, f), ?_, rfl⟩)⟩
      refine (mem_dropVictims (hB.allocate_nodup _ _) _).mpr ⟨hv, ?_, (hidx.filed f e he).1⟩
      exact le_of_eq (hidx.idle _ (mem_nodes_of_victim hB hv))
  refine ⟨?_, fun f e he => hslots.next ▸ h.ids f e (hby f e he).1, fun f b hb => hslots.next ▸ h.past f b hb, ?_⟩
  · have hroom := h.room
    refine hslots.cap ▸ hslots.nodes ▸ ?_
    dsimp only
    omega
  · intro f e he hH ht
    obtain ⟨he, hv⟩ := hby f e he
    have hrefs := (dropVictims_other hv { p with inactive := (B.allocate p.inactive n).2 }).1
    refine hslots.nodes ▸ (mem_nodes_allocate hB).mpr ⟨h.idle f e he hH ?_, hv⟩
    exact (congrArg RefAccounts.total hrefs).symm.trans ht

end PoolView

namespace GcPass

/-- Where the victims of the first loop of `gc_cold` went so far: every one goes back or goes away. -/
structure Dealt (p : PoolView B) (seen : List (B.Seq × BlockId)) (g : GcPass B) : Prop where
  slots : p.SameSlots g.pool
  seqToFlat : g.pool.seqToFlat = p.seqToFlat
  globalRefs : g.pool.globalRefs = p.globalRefs
  flats : ∀ f, f ∈ p.byFlat → f ∈ g.pool.byFlat
  back : g.reinsert.Sublist seen
  all : ∀ v ∈ seen, v ∈ g.reinsert ∨ v.1 ∈ g.fullRemove.map fun r => r.1

theorem Dealt.victim {p : PoolView B} {seen : List (B.Seq × BlockId)} {g : GcPass B} {v : B.Seq × BlockId}
    (key : NamespaceKey) (pk : Int) (h : Dealt p seen g) (hfree : (p.refsOf v.1).total ≤ 0) {flat : Flat}
    (hfiled : p.seqToFlat.lookup v.1 = some flat) (hthere : flat ∈ p.byFlat) :
    Dealt p (seen ++ [v]) (GcPass.victim key pk g v) := by
  obtain ⟨e, he⟩ := mem_iff.mp (h.flats flat hthere)
  have hrefs : ¬0 < (g.pool.refsOf v.1).total := by
    have hsame : g.pool.refsOf v.1 = p.refsOf v.1 := by simp [refsOf, h.globalRefs]
    rw [hsame]
    omega
  have hpeel := g.pool.peel_redescribes flat v.1 e
  have hflats : ∀ f, f ∈ p.byFlat → f ∈ (g.pool.peel flat v.1 e).byFlat := by
    intro f hf
    rw [g.pool.peel_byFlat]
    exact mem_insert.mpr (.inr (h.flats f hf))
  have hslots := h.slots.trans hpeel.sameSlots
  have hseq := hpeel.seqToFlat.trans h.seqToFlat
  have hglob := hpeel.globalRefs.trans h.globalRefs
  unfold GcPass.victim
  rw [if_neg hrefs]
  simp only [h.seqToFlat, hfiled, he]
  split
  · refine ⟨hslots, hseq, hglob, hflats, h.back.append (List.Sublist.refl _), ?_⟩
    intro w hw
    rcases mem_append.mp hw with hw | hw
    · exact (h.all w hw).imp_left fun hm => mem_append_left _ hm
    · exact .inl (mem_append_right _ hw)
  refine ⟨hslots, hseq, hglob, hflats, h.back.trans (sublist_append_left _ _), ?_⟩
  intro w hw
  rw [map_append]
  rcases mem_append.mp hw with hw | hw
  · exact (h.all w hw).imp_right fun hm => mem_append_left _ hm
  · cases List.mem_singleton.mp hw
    exact .inr (mem_append_right _ (by simp))

theorem collect_dealt (hB : B.Lawful) {p : PoolView B} (hidx : p.IndexOk) (key : NamespaceKey) (pk : Int) (n : Nat) :
    Dealt { p with inactive := (B.allocate p.inactive n).2 } (B.allocate p.inactive n).1 (collect key pk p n) := by
  refine collect_induct key pk ⟨⟨rfl, rfl, rfl⟩, rfl, rfl, fun _ hf => hf, .slnil, by simp⟩ fun seen g v hv hg => ?_
  have hnode := hB.allocate_mem _ _ _ _ hv
  obtain ⟨flat, e, hfiled, he, -⟩ := hidx.inactive v.1 v.2 hnode
  exact hg.victim key pk (le_of_eq (hidx.idle v.1 (mem_of_lookup_eq_some hnode))) hfiled (mem_of_lookup_eq_some he)

/-- A victim that goes back is durable, and is none of those that go away. -/
theorem Sorted.apart {I : PoolView B → Prop} {p : PoolView B} {victims seen : List (B.Seq × BlockId)} {g : GcPass B}
    (h : Sorted I p victims seen g) (v : B.Seq × BlockId) (hv : v ∈ g.reinsert) :
    v.1 ∉ g.fullRemove.map fun r => r.1 := by
  intro hmem
  obtain ⟨r, hr, heq⟩ := mem_map.mp hmem
  obtain ⟨-, flat, e, hcold, he, hdurable⟩ := h.reinsert v hv
  obtain ⟨hcold', hvolatile⟩ := h.fullRemove r hr
  have hflat := hcold.filed
  rw [← heq, hcold'.filed] at hflat
  cases hflat
  rw [hvolatile e he] at hdurable
  cases hdurable

/-- What the second loop of `gc_cold` leaves: no lineage hash of a removed block, and the rest as it was. -/
theorem removeAll_effect (hB : B.Lawful) (rs : List (B.Seq × Flat × KvBlockId)) (q : PoolView B) (hq : q.IndexOk)
    (hrs : ∀ r ∈ rs, q.Cold r.1 r.2.1 ∧ r.1 ∉ B.nodes q.inactive) (hdistinct : (rs.map fun r => r.1).Nodup) :
    q.SameSlots (removeAll q rs).1 ∧ (removeAll q rs).1.IndexOk ∧
      (∀ s, s ∉ rs.map (fun r => r.1) → (removeAll q rs).1.refsOf s = q.refsOf s) ∧
      ∀ s ∈ rs.map (fun r => r.1), (removeAll q rs).1.seqToFlat.lookup s = none := by
  induction rs generalizing q with
  | nil => exact ⟨⟨rfl, rfl, rfl⟩, hq, fun _ _ => rfl, by simp⟩
  | cons r rs ih =>
    obtain ⟨hr, hdistinct⟩ := nodup_cons.mp hdistinct
    obtain ⟨hcold, hout⟩ := hrs r mem_cons_self
    obtain ⟨e, he, -⟩ := hq.owned _ _ hcold.filed
    obtain ⟨hin, hseq, hglob, -⟩ := removeCold_frame hB r.2.1 e hout
    have hrefs : ∀ s, s ≠ r.1 → (q.removeCold r.1 r.2.1 e).refsOf s = q.refsOf s := by
      intro s hs
      simp [refsOf, hglob, lookup_erase_ne hs]
    have hrest := ih (q.removeCold r.1 r.2.1 e) (hq.removeCold hB hcold.filed hout) (fun w hw => by
      obtain ⟨hc, ho⟩ := hrs w (mem_cons_of_mem _ hw)
      have hne : w.1 ≠ r.1 := fun heq => hr (mem_map.mpr ⟨w, hw, heq⟩)
      refine ⟨⟨?_, ?_⟩, by rwa [hin]⟩
      · rw [hseq, lookup_erase_ne hne]
        exact hc.filed
      · rw [hrefs _ hne]
        exact hc.free) hdistinct
    obtain ⟨hslots, hidx, hkeep, hgone⟩ := hrest
    unfold removeAll
    simp only [he]
    refine ⟨(⟨hin, rfl, rfl⟩ : q.SameSlots (q.removeCold r.1 r.2.1 e)).trans hslots, hidx, ?_, ?_⟩
    · intro s hs
      rw [map_cons, mem_cons, not_or] at hs
      rw [hkeep s hs.2, hrefs s hs.1]
    · intro s hs
      rcases mem_cons.mp hs with rfl | hs
      · -- Later removals bring nothing back.
        by_contra hsome
        obtain ⟨f, hf⟩ := ne_none_iff_exists'.mp hsome
        have hshrunk : ∀ (rs : List (B.Seq × Flat × KvBlockId)) (q : PoolView B) (s : B.Seq) (f : Flat),
            (removeAll q rs).1.seqToFlat.lookup s = some f → q.seqToFlat.lookup s = some f := by
          intro rs
          induction rs with
          | nil => exact fun _ _ _ h => h
          | cons r rs ih =>
            intro q s f h
            unfold removeAll at h
            split at h
            · exact ih q s f h
            · exact (lookup_erase_some (ih _ s f h)).2
        have hback := hshrunk rs _ _ f hf
        rw [hseq, lookup_erase] at hback
        simp at hback
      · exact hgone s hs

end GcPass

namespace PoolView

variable {p q : PoolView B} {H : Flat → BlockId → Prop}

/-- Re-insertion changes the inactive index only. -/
theorem foldl_reinsertCold_keeps (vs : List (B.Seq × BlockId)) (p : PoolView B) :
    (vs.foldl reinsertCold p).seqToFlat = p.seqToFlat ∧ (vs.foldl reinsertCold p).globalRefs = p.globalRefs ∧
      (vs.foldl reinsertCold p).inactiveCap = p.inactiveCap ∧
      (vs.foldl reinsertCold p).nextBlockId = p.nextBlockId := by
  induction vs generalizing p with
  | nil => exact ⟨rfl, rfl, rfl, rfl⟩
  | cons v vs ih =>
    obtain ⟨hseq, hglob, hcap, hnext⟩ := ih (p.reinsertCold v)
    rw [foldl_cons, hseq, hglob, hcap, hnext]
    unfold reinsertCold
    split
    · exact ⟨rfl, rfl, rfl, rfl⟩
    · split <;> exact ⟨rfl, rfl, rfl, rfl⟩

variable {S : Set (List Flat)}

variable (hB : B.Lawful)
include hB

/-- One turn of re-insertion: the victim is in the index afterwards. -/
theorem mem_nodes_reinsertCold (hslots : B.SlotsApart S) {v : B.Seq × BlockId}
    (hnodes : ∀ t, t ∈ B.nodes q.inactive → ∃ c ∈ S, B.lineageOf c = some t)
    (hchain : ∃ c ∈ S, B.lineageOf c = some v.1) (hfree : (q.refsOf v.1).total ≤ 0)
    (hroom : (B.nodes q.inactive).keys.card < q.inactiveCap) :
    (∀ s, s ∈ B.nodes (q.reinsertCold v).inactive ↔ s ∈ B.nodes q.inactive ∨ s = v.1) ∧
      (B.nodes (q.reinsertCold v).inactive).keys.card ≤ (B.nodes q.inactive).keys.card + 1 := by
  rw [← hB.len_eq] at hroom
  unfold reinsertCold
  rw [if_neg (by omega)]
  by_cases hmem : v.1 ∈ B.nodes q.inactive
  · have hhas := (hB.has_iff q.inactive v.1).mpr hmem
    simp only [hhas, Bool.not_true, Bool.false_and, Bool.false_eq_true, ↓reduceIte]
    exact ⟨fun s => ⟨.inl, fun hs => hs.elim id fun heq => heq ▸ hmem⟩, Nat.le_succ _⟩
  · have hhas : B.has q.inactive v.1 = false := by
      rw [Bool.eq_false_iff]
      exact fun hh => hmem ((hB.has_iff _ _).mp hh)
    have hins := hslots q.inactive v.1 v.2 hnodes hchain hmem
    simp only [hhas, hroom, Bool.not_false, decide_true, Bool.and_self, ↓reduceIte, hins]
    refine ⟨fun s => ?_, ?_⟩
    · rw [mem_insert]
      exact Or.comm
    · rw [keys_insert]
      exact Finset.card_insert_le _ _

/-- All victims are in the index after the third loop of `gc_cold`, if there is room for them. -/
theorem foldl_reinsertCold (hslots : B.SlotsApart S) (vs : List (B.Seq × BlockId)) (q : PoolView B)
    (hnodes : ∀ t, t ∈ B.nodes q.inactive → ∃ c ∈ S, B.lineageOf c = some t)
    (hvs : ∀ v ∈ vs, (q.refsOf v.1).total ≤ 0 ∧ ∃ c ∈ S, B.lineageOf c = some v.1)
    (hroom : (B.nodes q.inactive).keys.card + vs.length ≤ q.inactiveCap) :
    (B.nodes (vs.foldl reinsertCold q).inactive).keys.card ≤ q.inactiveCap ∧
      ∀ s, s ∈ B.nodes q.inactive ∨ s ∈ vs.map Prod.fst → s ∈ B.nodes (vs.foldl reinsertCold q).inactive := by
  induction vs generalizing q with
  | nil => exact ⟨by simpa using hroom, fun s hs => by simpa using hs⟩
  | cons v vs ih =>
    obtain ⟨hfree, hchain⟩ := hvs v mem_cons_self
    obtain ⟨-, hglob, hcap, -⟩ := foldl_reinsertCold_keeps [v] q
    rw [foldl_cons, foldl_nil] at hglob hcap
    rw [length_cons] at hroom
    have hone := mem_nodes_reinsertCold hB hslots hnodes hchain hfree (by omega)
    have hrest := ih (q.reinsertCold v) (fun t ht => ?_) (fun w hw => ?_) (by rw [hcap]; omega)
    · obtain ⟨hcard, hall⟩ := hrest
      refine ⟨hcap ▸ hcard, fun s hs => hall s ?_⟩
      rw [hone.1]
      rcases hs with hs | hs
      · exact .inl (.inl hs)
      · rcases mem_cons.mp hs with rfl | hs
        · exact .inl (.inr rfl)
        · exact .inr hs
    · rcases (hone.1 t).mp ht with ht | rfl
      · exact hnodes t ht
      · exact hchain
    · obtain ⟨hw, hc⟩ := hvs w (mem_cons_of_mem _ hw)
      have hsame : (q.reinsertCold v).refsOf w.1 = q.refsOf w.1 :=
        congrArg (fun m => (lookup w.1 m).getD RefAccounts.zero) hglob
      exact ⟨hsame ▸ hw, hc⟩

/-- Collecting cold blocks keeps the index covered: of the victims, those that stay registered go back, and for as many
as were taken out there is room. -/
theorem Covered.gcCold (hslots : B.SlotsApart S) (hidx : p.IndexOk)
    (hchains : ∀ f e, p.byFlat.lookup f = some e → ∃ c ∈ S, B.lineageOf c = some e.seqHash)
    (h : p.Covered H) (key : NamespaceKey) (pk : Int) (n : Nat) : (p.gcCold key pk n).pool.Covered H := by
  have hidx' := hidx.gcCold hB key pk n
  have hshrink : p.Shrinks (p.gcCold key pk n).pool :=
    shrinks_apply hB (show (PoolAction.gcCold key pk n).Guard p from trivial) fun b hb => by cases hb
  have hsorted := collect_sorted (I := IndexOk) (p := p) (n := n) key pk (hidx.allocate hB n)
    fun q v flat e _ hq _ he => hq.of_sameIndex (peel_sameIndex v.1 he)
  have hdealt := collect_dealt hB hidx key pk n
  obtain ⟨hrslots, -, hrkeep, hrgone⟩ := removeAll_effect hB (collect key pk p n).fullRemove
    (collect key pk p n).pool hsorted.holds
    (fun r hr => ⟨(hsorted.fullRemove r hr).1, by
      rw [hdealt.slots.nodes]
      exact fun hs => ((mem_nodes_allocate hB).mp hs).2 (hsorted.distinct.subset (mem_map.mpr ⟨r, hr, rfl⟩))⟩)
    (hsorted.distinct.nodup (hB.allocate_nodup _ _))
  have hslots' := hdealt.slots.trans hrslots
  have hrefs : ∀ s, (collect key pk p n).pool.refsOf s = p.refsOf s := by
    intro s
    simp [refsOf, hdealt.globalRefs]
  obtain ⟨hcard, hall⟩ := foldl_reinsertCold hB hslots (collect key pk p n).reinsert
    (removeAll (collect key pk p n).pool (collect key pk p n).fullRemove).1
    (by
      rw [hslots'.nodes]
      exact fun t ht => hidx.inactive_chain hchains ((mem_nodes_allocate hB).mp ht).1)
    (fun v hv => by
      have hmem := mem_nodes_of_victim hB (mem_map_of_mem (hdealt.back.subset hv))
      refine ⟨?_, hidx.inactive_chain hchains hmem⟩
      rw [hrkeep _ (hsorted.apart v hv), hrefs]
      exact le_of_eq (hidx.idle _ hmem))
    (by
      rw [hslots'.nodes, hslots'.cap]
      have hle := hdealt.back.length_le
      have hcount := card_nodes_allocate hB p.inactive n
      have hroom := h.room
      dsimp only
      omega)
  obtain ⟨hseq, hglob, hcap, hnext⟩ := foldl_reinsertCold_keeps (collect key pk p n).reinsert
    (removeAll (collect key pk p n).pool (collect key pk p n).fullRemove).1
  have hnext' : (p.gcCold key pk n).pool.nextBlockId = p.nextBlockId := hnext.trans hslots'.next
  refine ⟨?_, ?_, by rw [hnext']; exact h.past, ?_⟩
  · have hcap' : (p.gcCold key pk n).pool.inactiveCap = p.inactiveCap := hcap.trans hslots'.cap
    rw [hcap']
    rw [hslots'.cap] at hcard
    exact hcard
  · intro f e' he'
    obtain ⟨e, he, hsame⟩ := hshrink f e' he'
    rw [hsame.blockId, hnext']
    exact h.ids f e he
  · intro f e' he' hH ht
    obtain ⟨e, he, hsame⟩ := hshrink f e' he'
    have hfiled := (hidx'.filed f e' he').1
    rw [hsame.seqHash] at hfiled ht ⊢
    rw [hsame.blockId] at hH
    -- A block that is left was not removed, and its references are what they were.
    have hkept : e.seqHash ∉ (collect key pk p n).fullRemove.map fun r => r.1 := by
      intro hmem
      have hnone := (congrArg (Finmap.lookup e.seqHash) hseq).trans (hrgone _ hmem)
      cases hfiled.symm.trans hnone
    have hsum : (p.refsOf e.seqHash).total = 0 := by
      rw [← hrefs, ← hrkeep _ hkept, refsOf, ← hglob]
      exact ht
    refine hall _ ?_
    by_cases hv : e.seqHash ∈ (B.allocate p.inactive n).1.map Prod.fst
    · obtain ⟨v, hv, hveq⟩ := mem_map.mp hv
      rcases hdealt.all v hv with hback | haway
      · exact .inr (mem_map.mpr ⟨v, hback, hveq⟩)
      · exact absurd (hveq ▸ haway) hkept
    · left
      rw [hslots'.nodes]
      exact (mem_nodes_allocate hB).mpr ⟨h.idle f e he hH hsum, hv⟩

theorem touchHits_sameSlots (p : PoolView B) (hits : Nat) (lineage : List B.Seq) :
    p.SameSlots (p.touchHits hits lineage) :=
  ⟨nodes_touchHits hB p hits lineage, rfl, rfl⟩

/-- Every action keeps the index covered; one that releases a block does if it finds room. -/
theorem Covered.apply (hslots : B.SlotsApart S) (hidx : p.IndexOk)
    (hchains : ∀ f e, p.byFlat.lookup f = some e → ∃ c ∈ S, B.lineageOf c = some e.seqHash)
    {act : PoolAction B} (guard : act.Guard p)
    (reg : ∀ b, act = .register b → ∀ e, p.byFlat.lookup b.id.blockHash = some e → e.seqHash = b.seq)
    (room : ∀ f e kind value, act = .setRef f e kind value → 0 < (p.refsOf e.seqHash).total →
      ((p.refsOf e.seqHash).setBucket kind value).total = 0 → (B.nodes p.inactive).keys.card < p.inactiveCap)
    (h : p.Covered H) : (act.apply p).Covered H := by
  have hquiet : ∀ q, p.SameSlots q → p.SameIndex q → q.Covered H :=
    fun q hs hi => h.of_frame hs hi.back hi.refs
  cases act with
  | evict n => exact h.dropInactiveVictims hB hidx n
  | register b => exact h.registerPlaced hB (reg b rfl)
  | discard flat e => exact h.discardEntry hB hidx guard.1
  | gcCold key pk n => exact h.gcCold hB hslots hidx hchains key pk n
  | setRef flat e kind value =>
    exact h.setRef hB hslots hidx hchains guard.1 kind guard.2.1 (room flat e kind value rfl)
  | touchRefs flat e => exact hquiet _ ⟨rfl, rfl, rfl⟩ (p.touchRefs_sameIndex e.seqHash)
  | strip key pk node flat =>
    exact hquiet _ (p.stripFlat_redescribes key pk node flat).sameSlots (p.stripFlat_sameIndex key pk node flat)
  | clearMarks node => exact h.of_frame ⟨rfl, rfl, rfl⟩ (.of_eq rfl) fun _ => rfl
  | publish flat e tier node seg off present =>
    exact hquiet _ (p.publish_redescribes flat e tier node seg off present).sameSlots
      (publish_sameIndex tier node seg off present guard.1)
  | setL3 flat e present =>
    exact hquiet _ ⟨rfl, rfl, rfl⟩ (.of_meta guard rfl rfl (p.setMeta_redescribes flat e _))
  | relocate flat e tier node seg off =>
    exact hquiet _ (p.relocate_redescribes flat e tier node seg off).sameSlots
      (relocate_sameIndex tier node seg off guard)
  | touchHits hits lineage =>
    exact hquiet _ (touchHits_sameSlots hB p hits lineage) (touchHits_sameIndex hB p hits lineage)
  | markPlaced | recordHit => exact h.of_frame ⟨rfl, rfl, rfl⟩ (.of_eq rfl) fun _ => rfl

end PoolView

end LakeKv
