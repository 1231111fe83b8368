import LakeKv.KeyedBlocks

namespace LakeKv

open Finmap List RefAccounts

variable {B : Backend}

/-- The maps of a pool agree: lineage hashes and flat hashes of the registered blocks are paired up,
and nothing else has a handle, a place in the inactive index or a reference. -/
structure PoolView.IndexOk (p : PoolView B) : Prop where
  filed : ∀ f e, p.byFlat.lookup f = some e →
    p.seqToFlat.lookup e.seqHash = some f ∧ e.seqHash ∈ p.handles
  owned : ∀ s f, p.seqToFlat.lookup s = some f → ∃ e, p.byFlat.lookup f = some e ∧ e.seqHash = s
  handled : ∀ s, s ∈ p.handles → ∃ f, p.seqToFlat.lookup s = some f
  inactive : ∀ s b, (B.nodes p.inactive).lookup s = some b →
    ∃ f e, p.seqToFlat.lookup s = some f ∧ p.byFlat.lookup f = some e ∧ e.blockId = b
  referenced : ∀ s, (p.refsOf s).total ≠ 0 → ∃ f, p.seqToFlat.lookup s = some f
  idle : ∀ s, s ∈ B.nodes p.inactive → (p.refsOf s).total = 0
  nonneg : ∀ s, 0 ≤ (p.refsOf s).request ∧ 0 ≤ (p.refsOf s).writeback

namespace PoolView

variable {p q : PoolView B}

theorem IndexOk.new (hB : B.Lawful) (cap : Nat) : (PoolView.new B cap).IndexOk where
  filed := by simp [PoolView.new]
  owned := by simp [PoolView.new]
  handled := by simp [PoolView.new, notMem_empty]
  inactive := by simp [PoolView.new, hB.nodes_withFrequency]
  referenced := by simp [PoolView.new, refsOf, RefAccounts.zero, RefAccounts.total]
  idle := by simp [PoolView.new, hB.nodes_withFrequency, notMem_empty]
  nonneg := by simp [PoolView.new, refsOf, RefAccounts.zero]

/-- Another block has another lineage hash. -/
theorem IndexOk.seqHash_ne (h : p.IndexOk) {f f' : Flat} {e e' : Entry B} (he : p.byFlat.lookup f = some e)
    (he' : p.byFlat.lookup f' = some e') (hne : f' ≠ f) : e'.seqHash ≠ e.seqHash := by
  intro heq
  have hfiled := (h.filed f' e' he').1
  rw [heq, (h.filed f e he).1] at hfiled
  exact hne (Option.some.inj hfiled).symm

/-- `q` has the blocks of `p` under the same hashes, and no more in its inactive index. -/
structure SameIndex (p q : PoolView B) : Prop where
  forth : ∀ f e, p.byFlat.lookup f = some e → ∃ e', q.byFlat.lookup f = some e' ∧ e.SameBlock e'
  back : p.Shrinks q
  seqToFlat : q.seqToFlat = p.seqToFlat
  handles : ∀ s, s ∈ q.handles ↔ s ∈ p.handles
  nodes : ∀ s b, (B.nodes q.inactive).lookup s = some b → (B.nodes p.inactive).lookup s = some b
  refs : ∀ s, q.refsOf s = p.refsOf s

theorem IndexOk.of_sameIndex (h : p.IndexOk) (hs : p.SameIndex q) : q.IndexOk where
  filed := by
    intro f e' he'
    obtain ⟨e, he, hsame⟩ := hs.back f e' he'
    rw [hsame.seqHash, hs.seqToFlat, hs.handles]
    exact h.filed f e he
  owned := by
    intro s f hf
    rw [hs.seqToFlat] at hf
    obtain ⟨e, he, hseq⟩ := h.owned s f hf
    obtain ⟨e', he', hsame⟩ := hs.forth f e he
    exact ⟨e', he', hsame.seqHash.trans hseq⟩
  handled := by
    intro s hh
    rw [hs.seqToFlat]
    exact h.handled s ((hs.handles s).mp hh)
  inactive := by
    intro s b hb
    obtain ⟨f, e, hf, he, hid⟩ := h.inactive s b (hs.nodes s b hb)
    obtain ⟨e', he', hsame⟩ := hs.forth f e he
    exact ⟨f, e', hs.seqToFlat ▸ hf, he', hsame.blockId.trans hid⟩
  referenced := by
    intro s ht
    rw [hs.refs] at ht
    rw [hs.seqToFlat]
    exact h.referenced s ht
  idle := by
    intro s hm
    obtain ⟨b, hb⟩ := mem_iff.mp hm
    rw [hs.refs]
    exact h.idle s (mem_of_lookup_eq_some (hs.nodes s b hb))
  nonneg := fun s => by
    rw [hs.refs]
    exact h.nonneg s

/-- `q` is `p` without the block `flat` and what goes with its lineage hash `seq`. -/
structure Without (p q : PoolView B) (seq : B.Seq) (flat : Flat) : Prop where
  byFlat : q.byFlat = p.byFlat.erase flat
  seqToFlat : q.seqToFlat = p.seqToFlat.erase seq
  handles : q.handles = p.handles.erase seq
  globalRefs : q.globalRefs = p.globalRefs.erase seq
  nodes : ∀ s b, (B.nodes q.inactive).lookup s = some b → s ≠ seq ∧ (B.nodes p.inactive).lookup s = some b

theorem Without.refsOf (h : p.Without q seq flat) (s : B.Seq) : q.refsOf s = if s = seq then .zero else p.refsOf s := by
  rw [PoolView.refsOf, h.globalRefs, lookup_erase_if]
  split <;> rfl

variable {flat : Flat} {seq : B.Seq}

theorem IndexOk.of_without (h : p.IndexOk)
    (hf : p.seqToFlat.lookup seq = some flat) (hw : p.Without q seq flat) : q.IndexOk := by
  -- The pairing of hashes is one to one, so only `flat` goes with `seq`.
  have hpair : ∀ s f, p.seqToFlat.lookup s = some f → (s ≠ seq ↔ f ≠ flat) := by
    intro s f hs
    obtain ⟨e, he, hseq⟩ := h.owned s f hs
    obtain ⟨e₀, he₀, hseq₀⟩ := h.owned seq flat hf
    constructor
    · rintro hne rfl
      cases he.symm.trans he₀
      exact hne (hseq.symm.trans hseq₀)
    · rintro hne rfl
      exact hne (Option.some.inj (hs.symm.trans hf))
  have hseq : ∀ s f, q.seqToFlat.lookup s = some f ↔ s ≠ seq ∧ p.seqToFlat.lookup s = some f := by
    intro s f
    rw [hw.seqToFlat, lookup_erase_if]
    split <;> simp_all
  have hby : ∀ f e, q.byFlat.lookup f = some e ↔ f ≠ flat ∧ p.byFlat.lookup f = some e := by
    intro f e
    rw [hw.byFlat, lookup_erase_if]
    split <;> simp_all
  refine ⟨?_, ?_, ?_, ?_, ?_, ?_, ?_⟩
  · intro f e he
    obtain ⟨hne, he⟩ := (hby f e).mp he
    obtain ⟨hs, hh⟩ := h.filed f e he
    have hne' := (hpair _ _ hs).mpr hne
    refine ⟨(hseq _ _).mpr ⟨hne', hs⟩, ?_⟩
    rw [hw.handles, mem_erase]
    exact ⟨hne', hh⟩
  · intro s f hs
    obtain ⟨hne, hs⟩ := (hseq s f).mp hs
    obtain ⟨e, he, heq⟩ := h.owned s f hs
    exact ⟨e, (hby f e).mpr ⟨(hpair s f hs).mp hne, he⟩, heq⟩
  · intro s hh
    rw [hw.handles, mem_erase] at hh
    obtain ⟨f, hs⟩ := h.handled s hh.2
    exact ⟨f, (hseq s f).mpr ⟨hh.1, hs⟩⟩
  · intro s b hb
    obtain ⟨hne, hb⟩ := hw.nodes s b hb
    obtain ⟨f, e, hs, he, hid⟩ := h.inactive s b hb
    exact ⟨f, e, (hseq s f).mpr ⟨hne, hs⟩, (hby f e).mpr ⟨(hpair s f hs).mp hne, he⟩, hid⟩
  · intro s ht
    rw [hw.refsOf] at ht
    split at ht
    · simp [RefAccounts.total, RefAccounts.zero] at ht
    next hne =>
      obtain ⟨f, hs⟩ := h.referenced s ht
      exact ⟨f, (hseq s f).mpr ⟨hne, hs⟩⟩
  · intro s hm
    obtain ⟨b, hb⟩ := mem_iff.mp hm
    obtain ⟨hne, hb⟩ := hw.nodes s b hb
    rw [hw.refsOf, if_neg hne]
    exact h.idle s (mem_of_lookup_eq_some hb)
  · intro s
    rw [hw.refsOf]
    split
    · simp [zero]
    · exact h.nonneg s

variable {s : B.Seq} {i : B.Index} {b : BlockId}

theorem IndexOk.refsOf_eq_zero (h : p.IndexOk) (ht : (p.refsOf s).total = 0) : p.refsOf s = .zero := by
  obtain ⟨hr, hw⟩ := h.nonneg s
  cases hp : p.refsOf s with
  | mk r w =>
    rw [hp] at ht hr hw
    simp only [RefAccounts.total, RefAccounts.zero, RefAccounts.mk.injEq] at ht hr hw ⊢
    exact ⟨by omega, by omega⟩

theorem nodes_allocate_le (hB : B.Lawful) {n : Nat}
    (h : (B.nodes (B.allocate i n).2).lookup s = some b) : (B.nodes i).lookup s = some b := by
  rw [hB.nodes_allocate] at h
  split at h
  · simp at h
  · exact h

theorem IndexOk.allocate (hB : B.Lawful) (h : p.IndexOk) (n : Nat) :
    IndexOk { p with inactive := (B.allocate p.inactive n).2 } := by
  refine h.of_sameIndex ⟨fun f e he => ⟨e, he, .refl _⟩, .of_eq rfl, rfl, fun _ => .rfl, ?_, fun _ => rfl⟩
  exact fun s b hb => nodes_allocate_le hB hb

theorem IndexOk.dropVictim (h : p.IndexOk) (hout : seq ∉ B.nodes p.inactive) : (p.dropVictim seq).1.IndexOk := by
  have hnodes : ∀ s b, (B.nodes p.inactive).lookup s = some b → s ≠ seq ∧ (B.nodes p.inactive).lookup s = some b :=
    fun s b hb => ⟨ne_of_mem_of_not_mem (mem_of_lookup_eq_some hb) hout, hb⟩
  unfold PoolView.dropVictim
  split
  · exact h
  next hrefs =>
    dsimp only
    split
    next hnone =>
      -- A lineage hash without a block has no handle and no reference to lose.
      have hhandle : seq ∉ p.handles := by
        intro hh
        obtain ⟨f, hf⟩ := h.handled seq hh
        simp [hf] at hnone
      have hzero : p.refsOf seq = .zero := by
        apply h.refsOf_eq_zero
        by_contra hne
        obtain ⟨f, hf⟩ := h.referenced seq hne
        simp [hf] at hnone
      refine h.of_sameIndex ⟨fun f e he => ⟨e, he, .refl _⟩, .of_eq rfl, rfl, ?_, fun s b hb => hb, ?_⟩
      · intro s
        rw [mem_erase]
        exact ⟨fun hs => hs.2, fun hs => ⟨fun he => hhandle (he ▸ hs), hs⟩⟩
      · intro s
        rw [PoolView.refsOf, lookup_erase_if]
        split
        next he => rw [he, hzero]; rfl
        · rfl
    next flat hf => exact h.of_without hf ⟨rfl, rfl, rfl, rfl, hnodes⟩

theorem IndexOk.dropInactiveVictims (hB : B.Lawful) (h : p.IndexOk) (n : Nat) : (p.dropInactiveVictims n).1.IndexOk :=
  dropInactiveVictims_induct hB (h.allocate hB n) fun _ _ hout hq => hq.dropVictim hout

theorem nodes_take_le (hB : B.Lawful) {b c : BlockId}
    (h : (B.nodes (B.take i seq b).2).lookup s = some c) : (B.nodes i).lookup s = some c := by
  rw [hB.nodes_take] at h
  split at h
  · rw [lookup_erase_if] at h
    split at h
    · simp at h
    · exact h
  · exact h

variable {e : Entry B} {act : PoolAction B} {value : Int} (tier : Tier) (node : String)

theorem IndexOk.take (hB : B.Lawful) (h : p.IndexOk) (he : p.byFlat.lookup flat = some e)
    (hb : (B.nodes (B.take p.inactive e.seqHash e.blockId).2).lookup s = some b) :
    s ≠ e.seqHash ∧ (B.nodes p.inactive).lookup s = some b := by
  have hold := nodes_take_le hB hb
  refine ⟨?_, hold⟩
  rintro rfl
  obtain ⟨f, e', hf, he', hid⟩ := h.inactive _ b hold
  cases hf.symm.trans (h.filed flat e he).1
  cases he'.symm.trans he
  rw [hB.nodes_take, hid, if_pos hold, lookup_erase] at hb
  simp at hb

theorem IndexOk.discardEntry (hB : B.Lawful) (h : p.IndexOk)
    (he : p.byFlat.lookup flat = some e) : (p.discardEntry flat e).IndexOk :=
  h.of_without (h.filed flat e he).1 ⟨rfl, rfl, rfl, rfl, fun _ _ hb => h.take hB he hb⟩

theorem bucket_setBucket_nonneg {r : RefAccounts} (kind : RefKind)
    (hr : 0 ≤ r.request ∧ 0 ≤ r.writeback) (hv : 0 ≤ value) :
    0 ≤ (r.setBucket kind value).request ∧ 0 ≤ (r.setBucket kind value).writeback := by
  cases kind <;> simp [setBucket, hr, hv]

theorem refsOf_setRef (p : PoolView B) (seq : B.Seq) (b : BlockId) (kind : RefKind) (value : Int)
    (s : B.Seq) : (p.setRef seq b kind value).refsOf s =
      if s = seq then (p.refsOf seq).setBucket kind value else p.refsOf s := by
  rw [setRef_eq, refsOf, lookup_insert_if]
  split <;> rfl

theorem nodes_setRef (hB : B.Lawful) (p : PoolView B) (seq : B.Seq) (b : BlockId) (kind : RefKind)
    (value : Int) {c : BlockId} (h : (B.nodes (p.setRef seq b kind value).inactive).lookup s = some c) :
    (s = seq ∧ c = b ∧ 0 < (p.refsOf seq).total ∧ ((p.refsOf seq).setBucket kind value).total = 0) ∨
    ((B.nodes p.inactive).lookup s = some c ∧
      ((p.refsOf seq).total = 0 → 0 < ((p.refsOf seq).setBucket kind value).total →
        (B.nodes (B.take p.inactive seq b).2).lookup s = some c)) := by
  simp only [setRef, settleInactive] at h
  split at h
  next hgone =>
    have hcase : ∀ i : B.Index, (B.nodes i).lookup s = some c → i = p.inactive →
        (B.nodes p.inactive).lookup s = some c ∧ ((p.refsOf seq).total = 0 →
          0 < ((p.refsOf seq).setBucket kind value).total →
          (B.nodes (B.take p.inactive seq b).2).lookup s = some c) := by
      rintro i hi rfl
      exact ⟨hi, fun h0 => by omega⟩
    split at h
    · rcases hB.nodes_insert p.inactive seq b with hsame | ⟨-, hins⟩
      · rw [hsame] at h
        exact .inr (hcase _ h rfl)
      rw [hins, lookup_insert_if] at h
      split at h
      next he => exact .inl ⟨he, (Option.some.inj h).symm, hgone⟩
      · exact .inr (hcase _ h rfl)
    · exact .inr (hcase _ h rfl)
  split at h
  · exact .inr ⟨nodes_take_le hB h, fun _ _ => h⟩
  next hno => exact .inr ⟨h, fun h0 h1 => absurd ⟨h0, h1⟩ hno⟩

theorem IndexOk.setRef (hB : B.Lawful) (h : p.IndexOk)
    (he : p.byFlat.lookup flat = some e) (kind : RefKind) (hv : 0 ≤ value) :
    (p.setRef e.seqHash e.blockId kind value).IndexOk := by
  obtain ⟨hfiled, hhandle⟩ := h.filed flat e he
  have hnew := bucket_setBucket_nonneg kind (h.nonneg e.seqHash) hv
  have hsnd : ∀ s c, (B.nodes (p.setRef e.seqHash e.blockId kind value).inactive).lookup s = some c →
      (s = e.seqHash ∧ c = e.blockId ∧ ((p.refsOf e.seqHash).setBucket kind value).total = 0) ∨
      ((B.nodes p.inactive).lookup s = some c ∧
        (s = e.seqHash → ((p.refsOf e.seqHash).setBucket kind value).total = 0)) := by
    intro s c hc
    rcases nodes_setRef hB p _ _ kind value hc with ⟨hs, hb, -, ht⟩ | ⟨hin, htake⟩
    · exact .inl ⟨hs, hb, ht⟩
    refine .inr ⟨hin, ?_⟩
    rintro rfl
    by_contra hne
    have hidle := h.idle _ (mem_of_lookup_eq_some hin)
    have hpos : 0 < ((p.refsOf e.seqHash).setBucket kind value).total := by
      unfold RefAccounts.total at hne ⊢
      omega
    exact (h.take hB he (htake hidle hpos)).1 rfl
  have hrefs := p.refsOf_setRef e.seqHash e.blockId kind value
  rw [setRef_eq] at hsnd hrefs ⊢
  refine ⟨h.filed, h.owned, h.handled, ?_, ?_, ?_, ?_⟩
  · intro s c hc
    rcases hsnd s c hc with ⟨rfl, rfl, -⟩ | ⟨hin, -⟩
    · exact ⟨flat, e, hfiled, he, rfl⟩
    · exact h.inactive s c hin
  · intro s ht
    rw [hrefs] at ht
    split at ht
    next hs => exact ⟨flat, hs ▸ hfiled⟩
    · exact h.referenced s ht
  · intro s hm
    obtain ⟨c, hc⟩ := mem_iff.mp hm
    rw [hrefs]
    rcases hsnd s c hc with ⟨hs, -, ht⟩ | ⟨hin, ht⟩
    · rw [if_pos hs]
      exact ht
    · split
      next hs => exact ht hs
      · exact h.idle s (mem_of_lookup_eq_some hin)
  · intro s
    rw [hrefs]
    split
    · exact hnew
    · exact h.nonneg s

/-- A block may be registered under the lineage hash it already has, and a new block under one that
no other block has. -/
theorem nodes_registerPlaced (hB : B.Lawful) (p : PoolView B) (b : PlacedBlock B) :
    B.nodes (p.registerPlaced b).inactive = B.nodes p.inactive := by
  unfold registerPlaced registerBlock
  dsimp only
  split
  · rfl
  · exact hB.nodes_touch _ _

theorem lookup_registerPlaced (p : PoolView B) (b : PlacedBlock B) (f : Flat) :
    (p.registerPlaced b).byFlat.lookup f = if f = b.id.blockHash then some ⟨b.seq, b.blockMeta,
        ((p.byFlat.lookup b.id.blockHash).map Entry.blockId).getD p.nextBlockId, b.chain⟩
      else p.byFlat.lookup f :=
  lookup_insert_if _ _ _ _

/-- A block registered under the chain it has keeps the maps of its pool consistent. -/
theorem IndexOk.registerPlaced (hB : B.Lawful) (h : p.IndexOk) {b : PlacedBlock B}
    (same : ∀ e, p.byFlat.lookup b.id.blockHash = some e → e.seqHash = b.seq)
    (free : ∀ f, p.seqToFlat.lookup b.seq = some f → f = b.id.blockHash) : (p.registerPlaced b).IndexOk := by
  have hnodes := nodes_registerPlaced hB p b
  have hby := p.lookup_registerPlaced b
  have hseq : ∀ s, (p.registerPlaced b).seqToFlat.lookup s =
      if s = b.seq then some b.id.blockHash else p.seqToFlat.lookup s :=
    fun s => lookup_insert_if _ _ _ _
  -- The new pair of hashes does not cut across an old one.
  have hapart : ∀ s f, p.seqToFlat.lookup s = some f → (s = b.seq ↔ f = b.id.blockHash) := by
    intro s f hs
    constructor
    · rintro rfl
      exact free f hs
    · rintro rfl
      obtain ⟨e, he, heq⟩ := h.owned s _ hs
      exact heq.symm.trans (same e he)
  refine ⟨?_, ?_, ?_, ?_, ?_, ?_, ?_⟩
  · intro f e he
    rw [hby] at he
    split at he
    next hf =>
      cases he
      exact ⟨by rw [hseq, if_pos rfl, hf], mem_insert.mpr (.inl rfl)⟩
    next hf =>
      obtain ⟨hs, hh⟩ := h.filed f e he
      have hne : e.seqHash ≠ b.seq := fun heq => hf ((hapart _ _ hs).mp heq)
      exact ⟨by rw [hseq, if_neg hne]; exact hs, mem_insert.mpr (.inr hh)⟩
  · intro s f hs
    rw [hseq] at hs
    split at hs
    next heq =>
      cases hs
      exact ⟨_, by rw [hby, if_pos rfl], heq.symm⟩
    next hne =>
      obtain ⟨e, he, heq⟩ := h.owned s f hs
      exact ⟨e, by rw [hby, if_neg fun hf => hne ((hapart s f hs).mpr hf)]; exact he, heq⟩
  · intro s hh
    rw [hseq]
    split
    · exact ⟨_, rfl⟩
    next hne =>
      rcases mem_insert.mp hh with heq | hh
      · exact absurd heq hne
      · exact h.handled s hh
  · intro s c hc
    rw [hnodes] at hc
    obtain ⟨f, e, hs, he, hid⟩ := h.inactive s c hc
    by_cases heq : s = b.seq
    · have hf := (hapart s f hs).mp heq
      refine ⟨f, _, by rw [hseq, if_pos heq, hf], by rw [hby, if_pos hf], ?_⟩
      rw [hf] at he
      simp [he, hid]
    · have hf : f ≠ b.id.blockHash := fun hf => heq ((hapart s f hs).mpr hf)
      exact ⟨f, e, by rw [hseq, if_neg heq]; exact hs, by rw [hby, if_neg hf]; exact he, hid⟩
  · intro s ht
    rw [hseq]
    split
    · exact ⟨_, rfl⟩
    · exact h.referenced s ht
  · intro s hm
    rw [hnodes] at hm
    exact h.idle s hm
  · exact h.nonneg

theorem SameIndex.of_frame (hby : q.byFlat = p.byFlat) (hseq : q.seqToFlat = p.seqToFlat)
    (hh : q.handles = p.handles) (hn : B.nodes q.inactive = B.nodes p.inactive)
    (hr : ∀ s, q.refsOf s = p.refsOf s) : p.SameIndex q where
  forth f e he := ⟨e, hby ▸ he, .refl _⟩
  back := .of_eq hby
  seqToFlat := hseq
  handles s := by rw [hh]
  nodes s b hb := hn ▸ hb
  refs := hr

theorem SameIndex.of_meta {m : BlockMeta}
    (he : p.byFlat.lookup flat = some e) (hby : q.byFlat = p.byFlat.insert flat { e with blockMeta := m })
    (hm : m.id = e.blockMeta.id) (hq : p.Redescribes q) : p.SameIndex q where
  forth f e' he' := by
    rw [hby, lookup_insert_if]
    split
    next hf =>
      cases (hf ▸ he').symm.trans he
      exact ⟨_, rfl, rfl, rfl, rfl, hm⟩
    · exact ⟨e', he', .refl _⟩
  back := .of_insert he hby ⟨rfl, rfl, rfl, hm⟩
  seqToFlat := hq.seqToFlat
  handles := hq.handles
  nodes s b hb := hq.inactive ▸ hb
  refs := hq.refsOf

theorem publish_sameIndex (seg off : Nat) (present : Bool) (he : p.byFlat.lookup flat = some e) :
    p.SameIndex (p.publish flat e tier node seg off present) :=
  .of_meta he (publish_byFlat tier node seg off present he) rfl (p.publish_redescribes flat e tier node seg off present)

theorem relocate_sameIndex (seg off : Nat)
    (he : p.byFlat.lookup flat = some e) : p.SameIndex (p.relocate flat e tier node seg off) :=
  .of_meta he (p.relocate_byFlat flat e tier node seg off) rfl (p.relocate_redescribes flat e tier node seg off)

theorem stripFlat_sameIndex (p : PoolView B) (key : NamespaceKey) (pk : Int) (node : String) (flat : Flat) :
    p.SameIndex (stripFlat key pk node p flat).1 := by
  have hq := p.stripFlat_redescribes key pk node flat
  revert hq
  fun_cases stripFlat key pk node p flat
  case case3 e he _ _ => exact .of_meta he (markAbsent_byFlat _ _ _) rfl
  all_goals exact fun _ => .of_frame rfl rfl rfl rfl fun _ => rfl

theorem peel_sameIndex (seq : B.Seq) (he : p.byFlat.lookup flat = some e) : p.SameIndex (p.peel flat seq e) :=
  .of_meta he (p.peel_byFlat flat seq e) rfl (p.peel_redescribes flat seq e)

theorem touchRefs_sameIndex (p : PoolView B) (seq : B.Seq) : p.SameIndex (p.touchRefs seq) := by
  refine .of_frame rfl rfl rfl rfl fun s => ?_
  rw [refsOf, touchRefs, lookup_insert_if]
  split
  next hs => rw [hs]; rfl
  · rfl

section

variable (hB : B.Lawful)
include hB

theorem nodes_touchHits (p : PoolView B) (hits : Nat) (lineage : List B.Seq) :
    B.nodes (p.touchHits hits lineage).inactive = B.nodes p.inactive := by
  have hloop : ∀ (ss : List B.Seq) (i : B.Index),
      B.nodes (ss.foldl (fun i seq => if seq ∈ p.handles then B.touch i seq else i) i) = B.nodes i := by
    intro ss
    induction ss with
    | nil => exact fun _ => rfl
    | cons s ss ih =>
      intro i
      rw [foldl_cons, ih]
      split
      · exact hB.nodes_touch i s
      · rfl
  exact hloop _ _

theorem touchHits_sameIndex (p : PoolView B) (hits : Nat) (lineage : List B.Seq) :
    p.SameIndex (p.touchHits hits lineage) :=
  .of_frame rfl rfl rfl (nodes_touchHits hB p hits lineage) fun _ => rfl

variable (h : p.IndexOk)
include h

theorem IndexOk.removeCold (hf : p.seqToFlat.lookup seq = some flat) (hout : seq ∉ B.nodes p.inactive) :
    (p.removeCold seq flat e).IndexOk := by
  obtain ⟨hn, hseq, hrefs, hby⟩ := removeCold_frame hB flat e hout
  refine h.of_without hf ⟨hby, hseq, rfl, hrefs, fun s b hb => ?_⟩
  rw [hn] at hb
  refine ⟨?_, hb⟩
  rintro rfl
  exact hout (mem_of_lookup_eq_some hb)

theorem IndexOk.reinsertCold {v : B.Seq × BlockId} (hf : p.seqToFlat.lookup v.1 = some flat) (he : p.byFlat.lookup flat = some e)
    (hid : e.blockId = v.2) : (p.reinsertCold v).IndexOk := by
  unfold PoolView.reinsertCold
  split
  · exact h
  next hrefs =>
    split
    · have hfree : (p.refsOf v.1).total = 0 := by
        have hn := h.nonneg v.1
        unfold RefAccounts.total at hrefs ⊢
        omega
      have hnodes : ∀ s c, (B.nodes (B.insert p.inactive v.1 v.2)).lookup s = some c →
          (s = v.1 ∧ c = v.2) ∨ (B.nodes p.inactive).lookup s = some c := by
        intro s c hc
        rcases hB.nodes_insert p.inactive v.1 v.2 with hsame | ⟨-, hins⟩
        · exact .inr (hsame ▸ hc)
        rw [hins, lookup_insert_if] at hc
        split at hc
        next hs => exact .inl ⟨hs, (Option.some.inj hc).symm⟩
        · exact .inr hc
      refine ⟨h.filed, h.owned, h.handled, fun s c hc => ?_, h.referenced, fun s hm => ?_, h.nonneg⟩
      · rcases hnodes s c hc with ⟨rfl, rfl⟩ | hc
        · exact ⟨flat, e, hf, he, hid⟩
        · exact h.inactive s c hc
      · obtain ⟨c, hc⟩ := mem_iff.mp hm
        rcases hnodes s c hc with ⟨rfl, -⟩ | hc
        · exact hfree
        · exact h.idle s (mem_of_lookup_eq_some hc)
    · exact h

/-- Rule for cold GC on a pool whose index holds: it holds all along, and a victim that goes back
still has the block id it was handed out with. -/
theorem IndexOk.gcCold_induct {I : PoolView B → Prop}
    (key : NamespaceKey) (pk : Int) (n : Nat) (alloc : I { p with inactive := (B.allocate p.inactive n).2 })
    (peel : ∀ q v flat e, v ∈ (B.allocate p.inactive n).1 → q.IndexOk → I q → q.Cold v.1 flat →
      q.byFlat.lookup flat = some e → I (q.peel flat v.1 e))
    (remove : ∀ q seq flat e, q.IndexOk → I q → q.Cold seq flat → q.byFlat.lookup flat = some e →
      seq ∉ B.nodes q.inactive → I (q.removeCold seq flat e))
    (reinsert : ∀ q v, q.IndexOk → I q → I (q.reinsertCold v)) :
    (p.gcCold key pk n).pool.IndexOk ∧ I (p.gcCold key pk n).pool := by
  have hvictim : ∀ v ∈ (B.allocate p.inactive n).1, ∀ f e, p.seqToFlat.lookup v.1 = some f →
      p.byFlat.lookup f = some e → e.blockId = v.2 := by
    intro v hv f e hf he
    obtain ⟨f', e', hf', he', hid⟩ := h.inactive v.1 v.2 (hB.allocate_mem _ _ _ _ hv)
    cases hf.symm.trans hf'
    cases he.symm.trans he'
    exact hid
  have hboth := PoolView.gcCold_induct hB (p := p) (n := n) (I := fun q => (q.IndexOk ∧ I q) ∧
    ∀ v ∈ (B.allocate p.inactive n).1, ∀ f e, q.seqToFlat.lookup v.1 = some f →
      q.byFlat.lookup f = some e → e.blockId = v.2) key pk ⟨⟨h.allocate hB n, alloc⟩, hvictim⟩
    (fun q v flat e hv hq hc he => ?_) (fun q seq flat e hq hc he hout _ => ?_)
    (fun q v flat e hv hq hf he => ?_)
  · exact hboth.1
  · have hs := peel_sameIndex v.1 he
    refine ⟨⟨hq.1.1.of_sameIndex hs, peel q v flat e hv hq.1.1 hq.1.2 hc he⟩, fun w hw f e' hf he' => ?_⟩
    rw [hs.seqToFlat] at hf
    obtain ⟨e'', he'', hsame⟩ := hs.back f e' he'
    rw [hsame.blockId]
    exact hq.2 w hw f e'' hf he''
  · refine ⟨⟨hq.1.1.removeCold hB hc.filed hout, remove q seq flat e hq.1.1 hq.1.2 hc he hout⟩,
      fun w hw f e' hf he' => ?_⟩
    obtain ⟨-, hseq, -, hby⟩ := removeCold_frame hB flat e hout
    rw [hseq, lookup_erase_if] at hf
    rw [hby, lookup_erase_if] at he'
    split at hf
    · simp at hf
    split at he'
    · simp at he'
    · exact hq.2 w hw f e' hf he'
  · refine ⟨⟨hq.1.1.reinsertCold hB hf he (hq.2 v hv flat e hf he), reinsert q v hq.1.1 hq.1.2⟩, ?_⟩
    obtain ⟨hseq, hby⟩ := q.reinsertCold_frame v
    rw [hseq, hby]
    exact hq.2

theorem IndexOk.gcCold (key : NamespaceKey) (pk : Int) (n : Nat) : (p.gcCold key pk n).pool.IndexOk :=
  (h.gcCold_induct hB (I := fun _ => True) key pk n trivial (fun _ _ _ _ _ _ _ _ _ => trivial)
    (fun _ _ _ _ _ _ _ _ _ => trivial) (fun _ _ _ _ => trivial)).1

end

/-- The actions that only describe the blocks of the index. -/
def Describes : PoolAction B → Prop
  | .evict _ | .register _ | .discard _ _ | .gcCold _ _ _ | .setRef _ _ _ _ => False
  | _ => True

theorem apply_sameIndex (hB : B.Lawful) (guard : act.Guard p) (describes : Describes act) :
    p.SameIndex (act.apply p) := by
  cases act with
  | evict | register | discard | gcCold | setRef => cases describes
  | touchRefs flat e => exact p.touchRefs_sameIndex e.seqHash
  | strip key pk node flat => exact p.stripFlat_sameIndex key pk node flat
  | publish flat e tier node seg off present => exact publish_sameIndex tier node seg off present guard.1
  | setL3 flat e present => exact .of_meta guard rfl rfl (p.setMeta_redescribes flat e _)
  | relocate flat e tier node seg off => exact relocate_sameIndex tier node seg off guard
  | touchHits hits lineage => exact touchHits_sameIndex hB p hits lineage
  | clearMarks | markPlaced | recordHit => exact .of_frame rfl rfl rfl rfl fun _ => rfl

/-- Every action keeps the index; a registration does if its hashes do not cut across the others. -/
theorem IndexOk.apply (hB : B.Lawful) (h : p.IndexOk) (guard : act.Guard p)
    (reg : ∀ b, act = .register b → (∀ e, p.byFlat.lookup b.id.blockHash = some e → e.seqHash = b.seq) ∧
      ∀ f, p.seqToFlat.lookup b.seq = some f → f = b.id.blockHash) : (act.apply p).IndexOk := by
  cases act with
  | evict n => exact h.dropInactiveVictims hB n
  | register b => exact h.registerPlaced hB (reg b rfl).1 (reg b rfl).2
  | discard flat e => exact h.discardEntry hB guard.1
  | gcCold key pk n => exact h.gcCold hB key pk n
  | setRef flat e kind value => exact h.setRef hB guard.1 kind guard.2.1
  | _ => exact h.of_sameIndex (apply_sameIndex hB guard trivial)

end PoolView

end LakeKv
