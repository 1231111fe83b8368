import LakeKv.BackedBlocks
import LakeKv.PoolIndex

namespace LakeKv

open Bool Finmap Function List

variable {B : Backend}

def tierCount (t : Tier) (ls : List Location) : Nat :=
  ls.countP fun l => l.tier == t.toWire

def tierCountOn (t : Tier) (node : String) (ls : List Location) : Nat :=
  ls.countP fun l => l.tier == t.toWire && l.nodeId == node

section Counts

variable {t : Tier} {node : String} {ls : List Location}

theorem tierCount_append (t : Tier) (ls ls' : List Location) :
    tierCount t (ls ++ ls') = tierCount t ls + tierCount t ls' :=
  countP_append

theorem tierCount_singleton (t s : Tier) (node : String) (seg off : Nat) :
    tierCount t [⟨s.toWire, node, seg, off⟩] = if s = t then 1 else 0 := by
  by_cases h : s = t
  · simp [tierCount, h]
  · have hne : s.toWire ≠ t.toWire := fun he => h (Tier.toWire_injective he)
    simp [tierCount, h, hne]

theorem tierCount_concat (k tier : Tier) (node : String) (seg off : Nat) (ls : List Location) :
    tierCount k (ls ++ [⟨tier.toWire, node, seg, off⟩]) = tierCount k ls + if tier = k then 1 else 0 := by
  rw [tierCount_append, tierCount_singleton]

theorem hasTier_iff_tierCount : hasTier ls t = true ↔ 0 < tierCount t ls := by
  rw [hasTier, tierCount, countP_pos_iff, any_eq_true]

theorem hasTierOn_iff_tierCountOn : hasTierOn ls t node = true ↔ 0 < tierCountOn t node ls := by
  rw [hasTierOn, tierCountOn, countP_pos_iff, any_eq_true]

theorem tierCountOn_le_tierCount (t : Tier) (node : String) (ls : List Location) :
    tierCountOn t node ls ≤ tierCount t ls := by
  refine countP_mono_left fun l _ h => ?_
  exact (and_eq_true_iff.mp h).1

theorem tierCount_refreshFirst (t : Tier) (tier : Int) (node : String) (seg off : Nat) (ls : List Location) :
    tierCount t (refreshFirst tier node seg off ls) = tierCount t ls := by
  induction ls with
  | nil => rfl
  | cons l ls ih =>
    unfold refreshFirst
    split
    · rw [tierCount, tierCount, countP_cons, countP_cons]
    simp only [tierCount, countP_cons] at ih ⊢
    rw [ih]

theorem tierCount_withdrawn (s t : Tier) (node : String) (ls : List Location) :
    tierCount s (ls.filter fun l => ¬(l.tier = t.toWire ∧ l.nodeId = node)) =
      if s = t then tierCount s ls - tierCountOn t node ls else tierCount s ls := by
  have hall : tierCount s (ls.filter fun l => ¬(l.tier = t.toWire ∧ l.nodeId = node)) +
      (if s = t then tierCountOn t node ls else 0) = tierCount s ls := by
    induction ls with
    | nil => simp [tierCount, tierCountOn]
    | cons l ls ih =>
      by_cases hst : s = t
      · subst hst
        simp only [↓reduceIte, tierCount, tierCountOn, countP_cons, filter_cons, decide_eq_true_eq] at ih ⊢
        by_cases ht : l.tier = s.toWire <;> by_cases hn : l.nodeId = node <;> simp_all <;> omega
      · have hne : s.toWire ≠ t.toWire := fun he => hst (Tier.toWire_injective he)
        simp only [hst, ↓reduceIte, tierCount, Nat.add_zero, countP_cons, filter_cons, decide_eq_true_eq] at ih ⊢
        by_cases ht : l.tier = t.toWire <;> by_cases hn : l.nodeId = node <;> simp_all [countP_cons, hne.symm]
  split at hall <;> rename_i hst
  · rw [if_pos hst]
    omega
  · rw [if_neg hst]
    omega

theorem tierCount_peelLocations (m : Marker) (ls : List Location) :
    tierCount m.tier (peelLocations ls) = if m = .tierL2 then tierCount .l2 ls else 0 := by
  have hfilter : tierCount m.tier (peelLocations ls) =
      ls.countP fun l => (l.tier == m.tier.toWire) && decide (l.tier ≠ Tier.l0.toWire ∧ l.tier ≠ Tier.l1.toWire) := by
    rw [tierCount, peelLocations, countP_filter]
  rw [hfilter]
  cases m with
  | tierL0 =>
    refine countP_eq_zero.mpr fun l _ => ?_
    simp only [Marker.tier, and_eq_true, beq_iff_eq, decide_eq_true_eq]
    exact fun h => h.2.1 h.1
  | tierL1 =>
    refine countP_eq_zero.mpr fun l _ => ?_
    simp only [Marker.tier, and_eq_true, beq_iff_eq, decide_eq_true_eq]
    exact fun h => h.2.2 h.1
  | tierL2 =>
    refine countP_congr fun l _ => ?_
    simp only [Marker.tier, and_eq_true, beq_iff_eq, decide_eq_true_eq]
    exact ⟨fun h => h.1, fun h => ⟨h, by rw [h]; decide⟩⟩

end Counts

theorem Tier.marker?_eq_some {t : Tier} {k : Marker} (h : t.marker? = some k) : t = k.tier := by
  cases t <;> simp [Tier.marker?] at h <;> subst h <;> rfl

theorem Tier.marker?_eq_none {t : Tier} (h : t.marker? = none) (k : Marker) : t ≠ k.tier := by
  rintro rfl
  cases k <;> simp [Tier.marker?, Marker.tier] at h

theorem Marker.tier_injective : Function.Injective Marker.tier := by
  intro j k h
  cases j <;> cases k <;> first | rfl | exact absurd h (by decide)

namespace Handle

variable (h : Handle)

theorem presence_markPresent (m m' : Marker) :
    (h.markPresent m).presence m' = h.presence m' + if m' = m then 1 else 0 := by
  simp only [markPresent, update_apply]
  split
  next hm => rw [hm]
  · rfl

theorem presence_markAbsent (m m' : Marker) :
    (h.markAbsent m).presence m' = h.presence m' - if m' = m then 1 else 0 := by
  simp only [markAbsent, update_apply]
  split
  next hm => rw [hm]
  · rfl

theorem presence_markAbsentIf {x : Handle} {m : Marker} {ls : List Location}
    (hcount : x.presence m = tierCount m.tier ls) (hone : tierCount m.tier ls ≤ 1) (k : Marker) :
    (if hasTier ls m.tier then x.markAbsent m else x).presence k = if k = m then 0 else x.presence k := by
  by_cases hb : hasTier ls m.tier = true
  · have hpos := hasTier_iff_tierCount.mp hb
    rw [if_pos hb, presence_markAbsent]
    split
    next hk =>
      subst hk
      omega
    · rfl
  · have hzero : ¬0 < tierCount m.tier ls := fun hpos => hb (hasTier_iff_tierCount.mpr hpos)
    rw [if_neg hb]
    split
    next hk =>
      subst hk
      omega
    · rfl

theorem presence_markLocations (ls : List Location) (m : Marker) :
    (h.markLocations ls).presence m = h.presence m + tierCount m.tier ls := by
  induction ls generalizing h with
  | nil => rfl
  | cons l ls ih =>
    have hone : ((Marker.ofWire? l.tier).elim h h.markPresent).presence m =
        h.presence m + if l.tier = m.tier.toWire then 1 else 0 := by
      unfold Marker.ofWire?
      split
      next h0 =>
        rw [Option.elim_some, presence_markPresent, h0]
        cases m <;> rfl
      next h0 =>
        split
        next h1 =>
          rw [Option.elim_some, presence_markPresent, h1]
          cases m <;> rfl
        next h1 =>
          split
          next h2 =>
            rw [Option.elim_some, presence_markPresent, h2]
            cases m <;> rfl
          next h2 => cases m <;> simp [Marker.tier, h0, h1, h2]
    rw [markLocations, foldl_cons]
    refine (ih _).trans ?_
    rw [hone, tierCount, tierCount, countP_cons]
    simp only [beq_iff_eq]
    omega

end Handle

namespace PoolView

variable {p q : PoolView B}

structure Shadowed (p : PoolView B) : Prop where
  counts : ∀ f e h, p.byFlat.lookup f = some e → p.handles.lookup e.seqHash = some h →
    ∀ m, h.presence m = tierCount m.tier e.blockMeta.locations
  never : p.absentAtZero = false

variable {flat : Flat}

namespace Shadowed

theorem new (cap : Nat) : (PoolView.new B cap).Shadowed :=
  ⟨by simp [PoolView.new], rfl⟩

theorem of_sub (h : p.Shadowed) (hby : ∀ f e, q.byFlat.lookup f = some e → p.byFlat.lookup f = some e)
    (hhandles : ∀ s x, q.handles.lookup s = some x → p.handles.lookup s = some x)
    (hnever : q.absentAtZero = p.absentAtZero) : q.Shadowed where
  counts f e x he hx := h.counts f e x (hby f e he) (hhandles _ x hx)
  never := hnever.trans h.never

theorem update (hidx : p.IndexOk) (h : p.Shadowed) {e e' : Entry B} {x : Handle}
    (he : p.byFlat.lookup flat = some e) (hby : q.byFlat = p.byFlat.insert flat e') (hseq : e'.seqHash = e.seqHash)
    (hhandles : ∀ s, q.handles.lookup s = if s = e.seqHash then some x else p.handles.lookup s)
    (hcount : ∀ m, x.presence m = tierCount m.tier e'.blockMeta.locations) (hnever : q.absentAtZero = false) :
    q.Shadowed := by
  refine ⟨fun f d y hd hy => ?_, hnever⟩
  rw [hby, lookup_insert_if] at hd
  rw [hhandles] at hy
  split at hd
  · cases hd
    rw [if_pos hseq] at hy
    cases hy
    exact hcount
  next hf =>
    rw [if_neg (hidx.seqHash_ne he hd hf)] at hy
    exact h.counts f d y hd hy

theorem handle (hidx : p.IndexOk) {e : Entry B} (he : p.byFlat.lookup flat = some e) :
    ∃ x, p.handles.lookup e.seqHash = some x :=
  mem_iff.mp (hidx.filed flat e he).2

end Shadowed

variable {seq : B.Seq} {x : Handle}

section

variable (hx : p.handles.lookup seq = some x)
include hx

theorem lookup_handles_markPresent (m : Marker) (s : B.Seq) : (p.markPresent seq m).handles.lookup s =
      if s = seq then some (x.markPresent m) else p.handles.lookup s := by
  simp [markPresent, hx, lookup_insert_if]

theorem lookup_handles_markAbsent (m : Marker) (s : B.Seq) : (p.markAbsent seq m).handles.lookup s =
      if s = seq then some (x.markAbsent m) else p.handles.lookup s := by
  simp [markAbsent, hx, lookup_insert_if]

end

theorem absentAtZero_markPresent (p : PoolView B) (seq : B.Seq) (m : Marker) :
    (p.markPresent seq m).absentAtZero = p.absentAtZero := by
  unfold markPresent
  split <;> rfl

theorem absentAtZero_markAbsent (hx : p.handles.lookup seq = some x) (m : Marker)
    (hpos : 0 < x.presence m) : (p.markAbsent seq m).absentAtZero = p.absentAtZero := by
  simp only [markAbsent, hx]
  rw [show (x.presence m == 0) = false by simpa using Nat.pos_iff_ne_zero.mp hpos, Bool.or_false]

variable {e : Entry B} {m : BlockMeta} {tier : Tier} {k : Marker}

section

variable (hidx : p.IndexOk)
include hidx

variable (h : p.Shadowed)
include h

section

variable (he : p.byFlat.lookup flat = some e)
include he

theorem Shadowed.sameCounts
    (hcount : ∀ k : Marker, tierCount k.tier m.locations = tierCount k.tier e.blockMeta.locations) :
    (p.setMeta flat e m).Shadowed := by
  obtain ⟨x, hx⟩ := Shadowed.handle hidx he
  refine h.update hidx (x := x) he rfl rfl (fun s => ?_) (fun k => ?_) h.never
  · split
    next hs => rw [hs]; exact hx
    · rfl
  · rw [h.counts flat e x he hx, hcount]

theorem Shadowed.addCopy (hcount : ∀ k' : Marker, tierCount k'.tier m.locations =
      tierCount k'.tier e.blockMeta.locations + if k' = k then 1 else 0) :
    ((p.setMeta flat e m).markPresent e.seqHash k).Shadowed := by
  obtain ⟨x, hx⟩ := Shadowed.handle hidx he
  refine h.update hidx (x := x.markPresent k) he (markPresent_byFlat _ _ _) rfl
    (lookup_handles_markPresent (p := p.setMeta flat e m) hx k) (fun k' => ?_) ?_
  · rw [Handle.presence_markPresent, h.counts flat e x he hx, hcount]
  · exact (absentAtZero_markPresent _ _ _).trans h.never

theorem Shadowed.dropCopy
    (hpos : 0 < tierCount k.tier e.blockMeta.locations) (hcount : ∀ k' : Marker, tierCount k'.tier m.locations =
      tierCount k'.tier e.blockMeta.locations - if k' = k then 1 else 0) :
    ((p.setMeta flat e m).markAbsent e.seqHash k).Shadowed := by
  obtain ⟨x, hx⟩ := Shadowed.handle hidx he
  have hcounts := h.counts flat e x he hx
  refine h.update hidx (x := x.markAbsent k) he (markAbsent_byFlat _ _ _) rfl
    (lookup_handles_markAbsent (p := p.setMeta flat e m) hx k) (fun k' => ?_) ?_
  · rw [Handle.presence_markAbsent, hcounts, hcount]
  · exact (absentAtZero_markAbsent (p := p.setMeta flat e m) hx k (by rw [hcounts]; exact hpos)).trans h.never

end

theorem Shadowed.publish {node : String} {present : Bool} (seg off : Nat) (he : p.byFlat.lookup flat = some e)
    (hone : present = false → tier.marker?.isSome → tierCountOn tier node e.blockMeta.locations ≤ 1) :
    (p.publish flat e tier node seg off present).Shadowed := by
  unfold PoolView.publish
  dsimp only
  split
  · cases hm : tier.marker? with
    | none =>
      refine h.sameCounts hidx he fun k => ?_
      rw [tierCount_concat, if_neg (Tier.marker?_eq_none hm k), Nat.add_zero]
    | some k =>
      refine h.addCopy hidx he fun k' => ?_
      rw [tierCount_concat, Tier.marker?_eq_some hm]
      simp only [Marker.tier_injective.eq_iff, eq_comm]
  split
  · exact h.sameCounts hidx he fun k => tierCount_refreshFirst _ _ _ _ _ _
  next hpresent =>
    split
    next hhad =>
      rw [hasTierOn_iff_tierCountOn] at hhad
      have hmarked : ((tier.marker?.elim (p.setMeta flat e { e.blockMeta with
          locations := e.blockMeta.locations.filter fun l => ¬(l.tier = tier.toWire ∧ l.nodeId = node) })
          ((p.setMeta flat e { e.blockMeta with
            locations := e.blockMeta.locations.filter fun l => ¬(l.tier = tier.toWire ∧ l.nodeId = node)
            }).markAbsent e.seqHash))).Shadowed := by
        cases hm : tier.marker? with
        | none =>
          refine h.sameCounts hidx he fun k => ?_
          rw [tierCount_withdrawn, if_neg (Tier.marker?_eq_none hm k).symm]
        | some k =>
          have hle := hone (by simpa using hpresent) (by simp [hm])
          have hcount := tierCountOn_le_tierCount tier node e.blockMeta.locations
          have htier := Tier.marker?_eq_some hm
          subst htier
          refine h.dropCopy hidx he (by omega) fun k' => ?_
          rw [tierCount_withdrawn]
          simp only [Marker.tier_injective.eq_iff]
          split
          next hk =>
            subst hk
            omega
          · rfl
      split
      · exact hmarked.of_sub (fun _ _ hf => hf) (fun _ _ hs => hs) rfl
      · exact hmarked
    · exact h

theorem Shadowed.relocate {node : String} (seg off : Nat) (he : p.byFlat.lookup flat = some e)
    (hthere : tier = .l0 ∨ tier = .l1 → hasTierOn e.blockMeta.locations tier node = true) :
    (p.relocate flat e tier node seg off).Shadowed := by
  unfold PoolView.relocate
  dsimp only
  split
  · exact h.sameCounts hidx he fun k => tierCount_refreshFirst _ _ _ _ _ _
  next hnot =>
    split
    next htier =>
      refine h.addCopy hidx he fun k => ?_
      rw [tierCount_concat, htier]
      cases k <;> rfl
    next htier =>
      refine h.sameCounts hidx he fun k => ?_
      have hne : tier ≠ k.tier := by
        rintro rfl
        cases k with
        | tierL0 => exact hnot (hthere (.inl rfl))
        | tierL1 => exact hnot (hthere (.inr rfl))
        | tierL2 => exact htier rfl
      rw [tierCount_concat, if_neg hne, Nat.add_zero]

theorem Shadowed.stripFlat (key : NamespaceKey) (pk : Int) (node : String)
    (flat : Flat) (hone : ∀ e, p.byFlat.lookup flat = some e → tierCountOn .l0 node e.blockMeta.locations ≤ 1) :
    (stripFlat key pk node p flat).1.Shadowed := by
  unfold PoolView.stripFlat
  split
  · exact h
  next e he =>
    split
    · exact h
    next hhad =>
      have hpos : 0 < tierCountOn .l0 node e.blockMeta.locations := by
        rw [← hasTierOn_iff_tierCountOn]
        simpa using hhad
      have hle := hone e he
      have hcount := tierCountOn_le_tierCount .l0 node e.blockMeta.locations
      refine h.dropCopy (k := .tierL0) hidx he (Nat.lt_of_lt_of_le hpos hcount) fun k => ?_
      rw [tierCount_withdrawn]
      cases k with
      | tierL0 =>
        simp only [Marker.tier, ↓reduceIte]
        omega
      | tierL1 | tierL2 => rfl

end

theorem markAbsentIf (hx : p.handles.lookup seq = some x) (m : Marker) (b : Bool)
    (hpos : b = true → 0 < x.presence m) : (∀ s, (if b then p.markAbsent seq m else p).handles.lookup s =
      if s = seq then some (if b then x.markAbsent m else x) else p.handles.lookup s) ∧
    (if b then p.markAbsent seq m else p).absentAtZero = p.absentAtZero := by
  cases b with
  | true => exact ⟨lookup_handles_markAbsent hx m, absentAtZero_markAbsent hx m (hpos rfl)⟩
  | false =>
    refine ⟨fun s => ?_, rfl⟩
    simp only [false_eq_true, ↓reduceIte]
    split
    next hs => rw [hs, hx]
    · rfl

theorem Shadowed.peel (hidx : p.IndexOk) (h : p.Shadowed)
    (he : p.byFlat.lookup flat = some e) (h0 : tierCount .l0 e.blockMeta.locations ≤ 1)
    (h1 : tierCount .l1 e.blockMeta.locations ≤ 1) : (p.peel flat e.seqHash e).Shadowed := by
  obtain ⟨x, hx⟩ := Shadowed.handle hidx he
  have hcounts := h.counts flat e x he hx
  have hx0 := Handle.presence_markAbsentIf (hcounts .tierL0) h0
  obtain ⟨hh0, hz0⟩ := markAbsentIf hx .tierL0 (hasTier e.blockMeta.locations .l0) fun hb => by
    rw [hcounts]
    exact hasTier_iff_tierCount.mp hb
  have hsame := (hx0 .tierL1).trans (hcounts .tierL1)
  have hx1 := Handle.presence_markAbsentIf hsame h1
  obtain ⟨hh1, hz1⟩ := markAbsentIf ((hh0 e.seqHash).trans (if_pos rfl)) .tierL1 (hasTier e.blockMeta.locations .l1)
    fun hb => (hasTier_iff_tierCount.mp hb).trans_eq hsame.symm
  refine h.update hidx he (p.peel_byFlat flat e.seqHash e) rfl (fun s => ?_) (fun k => (hx1 k).trans ?_) ?_
  · refine (hh1 s).trans ?_
    rw [hh0]
    split <;> rfl
  · rw [tierCount_peelLocations, hx0 k]
    cases k with
    | tierL0 | tierL1 => rfl
    | tierL2 => exact hcounts .tierL2
  · exact (hz1.trans hz0).trans h.never

theorem Shadowed.gcCold (hB : B.Lawful) (hidx : p.IndexOk) (h : p.Shadowed) (key : NamespaceKey) (pk : Int) (n : Nat)
    (hfew : ∀ f e, p.byFlat.lookup f = some e → e.seqHash ∈ B.nodes p.inactive →
      tierCount .l0 e.blockMeta.locations ≤ 1 ∧ tierCount .l1 e.blockMeta.locations ≤ 1) :
    (p.gcCold key pk n).pool.Shadowed := by
  refine (hidx.gcCold_induct hB (I := fun q => q.Shadowed ∧ ∀ f e, q.byFlat.lookup f = some e →
    e.seqHash ∈ B.nodes p.inactive → tierCount .l0 e.blockMeta.locations ≤ 1 ∧
      tierCount .l1 e.blockMeta.locations ≤ 1) key pk n ?_ ?_ ?_ ?_).2.1
  · exact ⟨h.of_sub (fun _ _ hf => hf) (fun _ _ hs => hs) rfl, hfew⟩
  · intro q v flat e hv hq hI hc he
    obtain ⟨e', he', hseq⟩ := hq.owned v.1 flat hc.filed
    cases he.symm.trans he'
    have hvictim := mem_of_lookup_eq_some (hB.allocate_mem _ _ v.1 v.2 hv)
    rw [← hseq] at hvictim
    obtain ⟨h0, h1⟩ := hI.2 flat e he hvictim
    refine ⟨hseq ▸ hI.1.peel hq he h0 h1, fun f d hd hin => ?_⟩
    rw [q.peel_byFlat, lookup_insert_if] at hd
    split at hd
    · cases hd
      have hp0 := tierCount_peelLocations .tierL0 e.blockMeta.locations
      have hp1 := tierCount_peelLocations .tierL1 e.blockMeta.locations
      exact ⟨hp0.trans_le (Nat.zero_le 1), hp1.trans_le (Nat.zero_le 1)⟩
    · exact hI.2 f d hd hin
  · intro q seq flat e hq hI hc he hout
    have hby : ∀ f d, (q.removeCold seq flat e).byFlat.lookup f = some d → q.byFlat.lookup f = some d :=
      fun f d hd => (lookup_erase_some hd).2
    exact ⟨hI.1.of_sub hby (fun s x hx => (lookup_erase_some hx).2) rfl, fun f d hd => hI.2 f d (hby f d hd)⟩
  · intro q v hq hI
    unfold reinsertCold
    split
    · exact hI
    split
    · exact ⟨hI.1.of_sub (fun _ _ hf => hf) (fun _ _ hs => hs) rfl, hI.2⟩
    · exact hI

theorem Shadowed.registerPlaced (hidx : p.IndexOk) (h : p.Shadowed) {b : PlacedBlock B}
    (hseq : ∀ f, p.seqToFlat.lookup b.seq = some f → f = b.id.blockHash)
    (hfree : ∀ e, p.byFlat.lookup b.id.blockHash = some e → ∀ k : Marker, tierCount k.tier e.blockMeta.locations = 0) :
    (p.registerPlaced b).Shadowed := by
  refine ⟨fun f e x he hx => ?_, h.never⟩
  rw [PoolView.registerPlaced, PoolView.registerBlock, lookup_insert_if] at he hx
  split at he
  · cases he
    rw [if_pos rfl] at hx
    cases hx
    intro k
    rw [Handle.presence_markLocations]
    have hzero : ((p.handles.lookup b.seq).getD .new).presence k = 0 := by
      cases hy : p.handles.lookup b.seq with
      | none => rfl
      | some y =>
        obtain ⟨f', hf'⟩ := hidx.handled b.seq (mem_of_lookup_eq_some hy)
        obtain ⟨d, hd, hds⟩ := hidx.owned b.seq f' hf'
        rw [hseq f' hf'] at hd
        have hcount := h.counts _ d y hd (hds ▸ hy) k
        rw [hfree d hd] at hcount
        exact hcount
    rw [hzero, Nat.zero_add]
  next hf =>
    have hne : e.seqHash ≠ b.seq := by
      intro heq
      exact hf (hseq f (heq ▸ (hidx.filed f e he).1))
    rw [if_neg hne] at hx
    exact h.counts f e x he hx

theorem Shadowed.dropInactiveVictims (hB : B.Lawful) (h : p.Shadowed) (n : Nat) :
    (p.dropInactiveVictims n).1.Shadowed := by
  refine dropInactiveVictims_induct hB (h.of_sub (fun _ _ hf => hf) (fun _ _ hs => hs) rfl) fun q seq _ hq => ?_
  unfold dropVictim
  split
  · exact hq
  dsimp only
  split
  · exact hq.of_sub (fun _ _ hf => hf) (fun _ _ hs => (lookup_erase_some hs).2) rfl
  exact hq.of_sub (fun _ _ hf => (lookup_erase_some hf).2) (fun _ _ hs => (lookup_erase_some hs).2) rfl

end PoolView

end LakeKv
