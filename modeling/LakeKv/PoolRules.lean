import LakeKv.OperationRuns

namespace LakeKv

open Finmap GcPass List PoolView

namespace PoolView

variable {B : Backend} (p : PoolView B)

theorem dropVictim_inactive (seq : B.Seq) : (p.dropVictim seq).1.inactive = p.inactive := by
  unfold dropVictim
  split
  · rfl
  dsimp only
  split <;> rfl

theorem mem_nodes_allocate (hB : B.Lawful) {i : B.Index} {n : Nat} {s : B.Seq} :
    s ∈ B.nodes (B.allocate i n).2 ↔ s ∈ B.nodes i ∧ s ∉ (B.allocate i n).1.map Prod.fst := by
  rw [mem_iff, mem_iff, hB.nodes_allocate]
  split
  next hv => exact ⟨nofun, fun hs => absurd hv hs.2⟩
  next hv => exact ⟨fun hs => ⟨hs, hv⟩, fun hs => hs.1⟩

theorem mem_nodes_of_victim (hB : B.Lawful) {i : B.Index} {n : Nat} {s : B.Seq}
    (hs : s ∈ (B.allocate i n).1.map Prod.fst) : s ∈ B.nodes i := by
  obtain ⟨v, hv, rfl⟩ := List.mem_map.mp hs
  exact mem_of_lookup_eq_some (hB.allocate_mem _ _ _ _ hv)

section Dropped

variable {s : B.Seq} {f : Flat} {vs : List (B.Seq × BlockId)}

theorem byFlat_dropVictim (seq : B.Seq) (f : Flat) : (p.dropVictim seq).1.byFlat.lookup f =
      if f ∈ (p.dropVictim seq).2.map Prod.snd then none else p.byFlat.lookup f := by
  unfold dropVictim
  split
  · rfl
  dsimp only
  split
  · rfl
  next flat _ =>
    simp only [forgetPlacement, lookup_erase_if, map_cons, map_nil, List.mem_singleton]

theorem byFlat_dropVictims (vs : List (B.Seq × BlockId)) (f : Flat) :
    (p.dropVictims vs).1.byFlat.lookup f =
      if f ∈ (p.dropVictims vs).2.map Prod.snd then none else p.byFlat.lookup f := by
  induction vs generalizing p with
  | nil => rfl
  | cons v vs ih =>
    unfold dropVictims
    dsimp only
    rw [ih, byFlat_dropVictim, map_append]
    by_cases later : f ∈ ((p.dropVictim v.1).1.dropVictims vs).2.map Prod.snd
    · rw [if_pos later, if_pos (mem_append_right _ later)]
    · by_cases now : f ∈ (p.dropVictim v.1).2.map Prod.snd
      · rw [if_neg later, if_pos now, if_pos (mem_append_left _ now)]
      · rw [if_neg later, if_neg now, if_neg fun mem => (mem_append.mp mem).elim now later]

theorem byFlat_dropInactiveVictims (n : Nat) (f : Flat) : (p.dropInactiveVictims n).1.byFlat.lookup f =
      if f ∈ (p.dropInactiveVictims n).2.map Prod.snd then none else p.byFlat.lookup f :=
  byFlat_dropVictims _ _ f

theorem inactive_dropVictims (vs : List (B.Seq × BlockId)) :
    (p.dropVictims vs).1.inactive = p.inactive := by
  induction vs generalizing p with
  | nil => rfl
  | cons v vs ih =>
    unfold dropVictims
    dsimp only
    rw [ih, dropVictim_inactive]

theorem inactive_dropInactiveVictims (n : Nat) :
    (p.dropInactiveVictims n).1.inactive = (B.allocate p.inactive n).2 :=
  inactive_dropVictims _ _

theorem dropVictim_other {seq s : B.Seq} (ne : s ≠ seq) :
    (p.dropVictim seq).1.refsOf s = p.refsOf s ∧ (p.dropVictim seq).1.seqToFlat.lookup s = p.seqToFlat.lookup s := by
  unfold dropVictim
  split
  · exact ⟨rfl, rfl⟩
  dsimp only
  split
  · refine ⟨?_, rfl⟩
    simp only [refsOf, lookup_erase_ne ne]
  refine ⟨?_, ?_⟩
  · simp only [forgetPlacement, refsOf, lookup_erase_ne ne]
  · simp only [forgetPlacement, lookup_erase_ne ne]

theorem dropVictims_other (out : s ∉ vs.map Prod.fst) (p : PoolView B) :
    (p.dropVictims vs).1.refsOf s = p.refsOf s ∧ (p.dropVictims vs).1.seqToFlat.lookup s = p.seqToFlat.lookup s := by
  induction vs generalizing p with
  | nil => exact ⟨rfl, rfl⟩
  | cons v vs ih =>
    rw [map_cons] at out
    have first := p.dropVictim_other (ne_of_not_mem_cons out)
    have rest := ih (not_mem_of_not_mem_cons out) (p.dropVictim v.1).1
    exact ⟨rest.1.trans first.1, rest.2.trans first.2⟩

theorem mem_dropVictim (p : PoolView B) (seq : B.Seq) :
    (s, f) ∈ (p.dropVictim seq).2 ↔ s = seq ∧ (p.refsOf s).total ≤ 0 ∧ p.seqToFlat.lookup s = some f := by
  unfold dropVictim
  split
  next held =>
    refine ⟨nofun, ?_⟩
    rintro ⟨rfl, idle, -⟩
    omega
  next idle =>
    dsimp only
    split
    next missing =>
      refine ⟨nofun, ?_⟩
      rintro ⟨rfl, -, names⟩
      cases missing.symm.trans names
    next g here =>
      rw [List.mem_singleton, Prod.mk.injEq]
      constructor
      · rintro ⟨rfl, rfl⟩
        exact ⟨rfl, by omega, here⟩
      · rintro ⟨rfl, -, names⟩
        cases names.symm.trans here
        exact ⟨rfl, rfl⟩

theorem mem_dropVictims (nodup : (vs.map Prod.fst).Nodup) (p : PoolView B) : (s, f) ∈ (p.dropVictims vs).2 ↔
      s ∈ vs.map Prod.fst ∧ (p.refsOf s).total ≤ 0 ∧ p.seqToFlat.lookup s = some f := by
  induction vs generalizing p with
  | nil => exact ⟨nofun, nofun⟩
  | cons v vs ih =>
    obtain ⟨out, nodup⟩ := nodup_cons.mp nodup
    unfold dropVictims
    dsimp only
    rw [mem_append, mem_dropVictim, ih nodup, map_cons, mem_cons]
    by_cases now : s = v.1
    · subst now
      simp [out]
    · have same := p.dropVictim_other now
      rw [same.1, same.2]
      tauto

end Dropped

/-- Rule for `drop_inactive_victims`: what the allocation keeps, and every dropped victim, which the
index no longer has, the whole loop keeps. -/
theorem dropInactiveVictims_induct (hB : B.Lawful) {I : PoolView B → Prop} {p : PoolView B} {n : Nat}
    (alloc : I { p with inactive := (B.allocate p.inactive n).2 })
    (drop : ∀ q seq, seq ∉ B.nodes q.inactive → I q → I (q.dropVictim seq).1) :
    I (p.dropInactiveVictims n).1 := by
  have hloop : ∀ (vs : List (B.Seq × BlockId)) (q : PoolView B), I q →
      (∀ v ∈ vs, v.1 ∉ B.nodes q.inactive) → I (q.dropVictims vs).1 := by
    intro vs
    induction vs with
    | nil => exact fun _ hq _ => hq
    | cons v vs ih =>
      intro q hq hout
      refine ih _ (drop q v.1 (hout v mem_cons_self) hq) fun w hw => ?_
      rw [dropVictim_inactive]
      exact hout w (mem_cons_of_mem _ hw)
  exact hloop _ _ alloc fun v hv hs => ((mem_nodes_allocate hB).mp hs).2 (mem_map_of_mem hv)

/-- `q` differs from `p` at most in the metas of its blocks, their presence counters, and marks that are gone. -/
structure Redescribes (p q : PoolView B) : Prop where
  seqToFlat : q.seqToFlat = p.seqToFlat
  inactive : q.inactive = p.inactive
  cap : q.inactiveCap = p.inactiveCap
  globalRefs : q.globalRefs = p.globalRefs
  hitCounts : q.hitCounts = p.hitCounts
  next : q.nextBlockId = p.nextBlockId
  handles : ∀ s, s ∈ q.handles ↔ s ∈ p.handles
  marks : q.placementMarks ⊆ p.placementMarks

section Redescribes

variable {p q r : PoolView B}

theorem Redescribes.refl (p : PoolView B) : p.Redescribes p :=
  ⟨rfl, rfl, rfl, rfl, rfl, rfl, fun _ => .rfl, Finset.Subset.rfl⟩

theorem Redescribes.trans (h : p.Redescribes q) (h' : q.Redescribes r) : p.Redescribes r :=
  ⟨h'.seqToFlat.trans h.seqToFlat, h'.inactive.trans h.inactive, h'.cap.trans h.cap, h'.globalRefs.trans h.globalRefs,
    h'.hitCounts.trans h.hitCounts, h'.next.trans h.next, fun s => (h'.handles s).trans (h.handles s),
    h'.marks.trans h.marks⟩

theorem Redescribes.refsOf (h : p.Redescribes q) (s : B.Seq) : q.refsOf s = p.refsOf s := by
  rw [PoolView.refsOf, PoolView.refsOf, h.globalRefs]

theorem setMeta_redescribes (p : PoolView B) (flat : Flat) (e : Entry B) (m : BlockMeta) :
    p.Redescribes (p.setMeta flat e m) :=
  ⟨rfl, rfl, rfl, rfl, rfl, rfl, fun _ => .rfl, Finset.Subset.rfl⟩

theorem Redescribes.markAbsent (h : p.Redescribes q) (seq : B.Seq) (m : Marker) :
    p.Redescribes (q.markAbsent seq m) := by
  refine h.trans ?_
  fun_cases PoolView.markAbsent q seq m
  case case1 => exact .refl q
  case case2 x hx => exact ⟨rfl, rfl, rfl, rfl, rfl, rfl, fun s => mem_insert_of_lookup hx, Finset.Subset.rfl⟩

theorem Redescribes.markPresent (h : p.Redescribes q) (seq : B.Seq) (m : Marker) :
    p.Redescribes (q.markPresent seq m) := by
  refine h.trans ?_
  fun_cases PoolView.markPresent q seq m
  case case1 => exact .refl q
  case case2 x hx => exact ⟨rfl, rfl, rfl, rfl, rfl, rfl, fun s => mem_insert_of_lookup hx, Finset.Subset.rfl⟩

theorem publish_redescribes (p : PoolView B) (flat : Flat) (e : Entry B) (tier : Tier) (node : String)
    (seg off : Nat) (present : Bool) : p.Redescribes (p.publish flat e tier node seg off present) := by
  have hset := p.setMeta_redescribes flat e
  have habsent : ∀ m, p.Redescribes (tier.marker?.elim (p.setMeta flat e m)
      ((p.setMeta flat e m).markAbsent e.seqHash)) := by
    intro m
    cases tier.marker? with
    | none => exact hset m
    | some k => exact (hset m).markAbsent _ k
  fun_cases publish p flat e tier node seg off present
  case case1 =>
    cases tier.marker? with
    | none => exact hset _
    | some k => exact (hset _).markPresent _ k
  case case2 => exact hset _
  case case3 => exact { habsent _ with marks := (Finset.erase_subset _ _).trans (habsent _).marks }
  case case4 => exact habsent _
  case case5 => exact .refl p

theorem relocate_redescribes (p : PoolView B) (flat : Flat) (e : Entry B) (tier : Tier) (node : String)
    (seg off : Nat) : p.Redescribes (p.relocate flat e tier node seg off) := by
  have hset := p.setMeta_redescribes flat e
  fun_cases relocate p flat e tier node seg off
  case case2 => exact (hset _).markPresent _ _
  all_goals exact hset _

theorem stripFlat_redescribes (p : PoolView B) (key : NamespaceKey) (pk : Int) (node : String) (flat : Flat) :
    p.Redescribes (stripFlat key pk node p flat).1 := by
  fun_cases stripFlat key pk node p flat
  case case3 e _ _ _ => exact (p.setMeta_redescribes flat e _).markAbsent _ _
  all_goals exact .refl p

theorem peel_redescribes (p : PoolView B) (flat : Flat) (seq : B.Seq) (e : Entry B) :
    p.Redescribes (p.peel flat seq e) := by
  refine Redescribes.trans ?_ (setMeta_redescribes _ flat e _)
  split <;> split
  · exact ((Redescribes.refl p).markAbsent _ _).markAbsent _ _
  · exact (Redescribes.refl p).markAbsent _ _
  · exact (Redescribes.refl p).markAbsent _ _
  · exact .refl p

end Redescribes

theorem peel_byFlat (flat : Flat) (seq : B.Seq) (e : Entry B) :
    (p.peel flat seq e).byFlat = p.byFlat.insert flat
      { e with blockMeta := { e.blockMeta with locations := peelLocations e.blockMeta.locations } } := by
  unfold peel
  dsimp only
  split <;> split <;> simp [setMeta]

theorem durable_peel (m : BlockMeta) : durable { m with locations := peelLocations m.locations } = durable m := by
  have hany : ∀ ls : List Location, hasTier (peelLocations ls) .l2 = hasTier ls .l2 := by
    intro ls
    rw [Bool.eq_iff_iff]
    simp only [hasTier, peelLocations, any_eq_true, mem_filter, decide_eq_true_eq, beq_iff_eq]
    constructor
    · rintro ⟨l, ⟨hl, -⟩, ht⟩
      exact ⟨l, hl, ht⟩
    · rintro ⟨l, hl, ht⟩
      exact ⟨l, ⟨hl, by rw [ht]; decide⟩, ht⟩
  simp [durable, hany]

structure Cold (q : PoolView B) (seq : B.Seq) (flat : Flat) : Prop where
  filed : q.seqToFlat.lookup seq = some flat
  free : (q.refsOf seq).total ≤ 0

end PoolView

namespace GcPass

variable {B : Backend}

/-- The state of the first loop of `gc_cold`: what `I` says of the pool, the maps it does not touch,
and where the victims went so far. -/
structure Sorted (I : PoolView B → Prop) (p : PoolView B) (victims : List (B.Seq × BlockId))
    (seen : List (B.Seq × BlockId)) (g : GcPass B) : Prop where
  holds : I g.pool
  inactive : g.pool.inactive = p.inactive
  seqToFlat : g.pool.seqToFlat = p.seqToFlat
  globalRefs : g.pool.globalRefs = p.globalRefs
  fullRemove : ∀ r ∈ g.fullRemove, g.pool.Cold r.1 r.2.1 ∧
    ∀ e, g.pool.byFlat.lookup r.2.1 = some e → durable e.blockMeta = false
  distinct : (g.fullRemove.map fun r => r.1).Sublist (seen.map Prod.fst)
  reinsert : ∀ v ∈ g.reinsert, v ∈ victims ∧ ∃ flat e, g.pool.Cold v.1 flat ∧
    g.pool.byFlat.lookup flat = some e ∧ durable e.blockMeta = true

variable {I : PoolView B → Prop} {victims seen : List (B.Seq × BlockId)} {g : GcPass B}

theorem Sorted.weaken {p : PoolView B}
    (h : Sorted I p victims seen g) (v : B.Seq × BlockId) : Sorted I p victims (seen ++ [v]) g := by
  refine { h with distinct := ?_ }
  rw [map_append]
  exact h.distinct.trans (sublist_append_left _ _)

theorem Sorted.victim {p : PoolView B} {v : B.Seq × BlockId} (key : NamespaceKey) (pk : Int)
    (peel : ∀ q flat e, I q → q.Cold v.1 flat → q.byFlat.lookup flat = some e → I (q.peel flat v.1 e))
    (h : Sorted I p victims seen g) (hv : v ∈ victims) :
    Sorted I p victims (seen ++ [v]) (GcPass.victim key pk g v) := by
  unfold GcPass.victim
  split
  · exact h.weaken v
  next hrefs =>
    split
    · exact h.weaken v
    next flat hflat =>
      split
      · exact h.weaken v
      next e he =>
        have hcold : g.pool.Cold v.1 flat := ⟨hflat, by omega⟩
        have hby := g.pool.peel_byFlat flat v.1 e
        have hsame := g.pool.peel_redescribes flat v.1 e
        have hkeep : ∀ s f, g.pool.Cold s f → (g.pool.peel flat v.1 e).Cold s f :=
          fun s f hc => ⟨hsame.seqToFlat ▸ hc.filed, by rw [hsame.refsOf]; exact hc.free⟩
        -- A block is as durable as it was, the peeled one included.
        have hdur : ∀ f, ((g.pool.peel flat v.1 e).byFlat.lookup f).map (fun e => durable e.blockMeta) =
            (g.pool.byFlat.lookup f).map fun e => durable e.blockMeta := by
          intro f
          rw [hby, lookup_insert_if]
          split
          next hf =>
            rw [hf, he]
            exact congrArg some (durable_peel _)
          · rfl
        have hremove : ∀ r ∈ g.fullRemove, (g.pool.peel flat v.1 e).Cold r.1 r.2.1 ∧
            ∀ e', (g.pool.peel flat v.1 e).byFlat.lookup r.2.1 = some e' → durable e'.blockMeta = false := by
          intro r hr
          refine ⟨hkeep _ _ (h.fullRemove r hr).1, fun e' he' => ?_⟩
          obtain ⟨e'', he'', hd⟩ := Option.map_eq_some_iff.mp ((hdur _).symm.trans (congrArg (Option.map _) he'))
          exact hd.symm.trans ((h.fullRemove r hr).2 e'' he'')
        have hreinsert : ∀ w ∈ g.reinsert, w ∈ victims ∧ ∃ f e', (g.pool.peel flat v.1 e).Cold w.1 f ∧
            (g.pool.peel flat v.1 e).byFlat.lookup f = some e' ∧ durable e'.blockMeta = true := by
          intro w hw
          obtain ⟨hmem, f, e', hc, he', hd⟩ := h.reinsert w hw
          obtain ⟨e'', he'', hd'⟩ := Option.map_eq_some_iff.mp ((hdur f).trans (congrArg (Option.map _) he'))
          exact ⟨hmem, f, e'', hkeep _ _ hc, he'', hd'.trans hd⟩
        dsimp only
        split
        next hd =>
          exact
            { holds := peel _ _ _ h.holds hcold he
              inactive := hsame.inactive.trans h.inactive
              seqToFlat := hsame.seqToFlat.trans h.seqToFlat
              globalRefs := hsame.globalRefs.trans h.globalRefs
              fullRemove := hremove
              distinct := (h.weaken v).distinct
              reinsert := by
                intro w hw
                rcases mem_append.mp hw with hw | hw
                · exact hreinsert w hw
                · cases List.mem_singleton.mp hw
                  obtain ⟨e', he', hd'⟩ := Option.map_eq_some_iff.mp ((hdur flat).trans (congrArg (Option.map _) he))
                  exact ⟨hv, flat, e', hkeep _ _ hcold, he', hd'.trans hd⟩ }
        next hd =>
          exact
            { holds := peel _ _ _ h.holds hcold he
              inactive := hsame.inactive.trans h.inactive
              seqToFlat := hsame.seqToFlat.trans h.seqToFlat
              globalRefs := hsame.globalRefs.trans h.globalRefs
              fullRemove := by
                intro r hr
                rcases mem_append.mp hr with hr | hr
                · exact hremove r hr
                cases List.mem_singleton.mp hr
                refine ⟨hkeep _ _ hcold, fun e' he' => ?_⟩
                obtain ⟨e'', he'', hd'⟩ := Option.map_eq_some_iff.mp ((hdur _).symm.trans (congrArg (Option.map _) he'))
                cases he''.symm.trans he
                simpa [hd'] using hd
              distinct := by
                rw [map_append, map_append]
                exact h.distinct.append (List.Sublist.refl _)
              reinsert := hreinsert }

/-- Rule for the first loop of `gc_cold`: what holds before it, and after a victim is seen if it held before, holds with
all of them seen. -/
theorem collect_induct {J : List (B.Seq × BlockId) → GcPass B → Prop} {p : PoolView B} {n : Nat} (key : NamespaceKey)
    (pk : Int) (start : J [] ⟨{ p with inactive := (B.allocate p.inactive n).2 }, [], [], [], []⟩)
    (turn : ∀ seen g v, v ∈ (B.allocate p.inactive n).1 → J seen g → J (seen ++ [v]) (GcPass.victim key pk g v)) :
    J (B.allocate p.inactive n).1 (collect key pk p n) := by
  have hloop : ∀ (vs seen : List (B.Seq × BlockId)) (g : GcPass B), J seen g →
      (∀ v ∈ vs, v ∈ (B.allocate p.inactive n).1) → J (seen ++ vs) (vs.foldl (GcPass.victim key pk) g) := by
    intro vs
    induction vs with
    | nil => exact fun seen g hg _ => by simpa using hg
    | cons v vs ih =>
      intro seen g hg hmem
      have hrest := ih _ _ (turn seen g v (hmem v mem_cons_self) hg) fun w hw => hmem w (mem_cons_of_mem _ hw)
      simpa using hrest
  simpa [collect] using hloop _ [] _ start fun v hv => hv

theorem collect_sorted {p : PoolView B} {n : Nat} (key : NamespaceKey) (pk : Int)
    (alloc : I { p with inactive := (B.allocate p.inactive n).2 })
    (peel : ∀ q v flat e, v ∈ (B.allocate p.inactive n).1 → I q → q.Cold v.1 flat →
      q.byFlat.lookup flat = some e → I (q.peel flat v.1 e)) :
    Sorted I { p with inactive := (B.allocate p.inactive n).2 } (B.allocate p.inactive n).1
      (B.allocate p.inactive n).1 (collect key pk p n) := by
  refine collect_induct key pk ⟨alloc, rfl, rfl, rfl, by simp, by simp, by simp⟩ fun seen g v hv hg => ?_
  exact Sorted.victim key pk (fun q flat e => peel q v flat e hv) hg hv

end GcPass

namespace PoolView

variable {B : Backend}

theorem removeCold_frame (hB : B.Lawful) {p : PoolView B} {seq : B.Seq} (flat : Flat) (e : Entry B)
    (hout : seq ∉ B.nodes p.inactive) : B.nodes (p.removeCold seq flat e).inactive = B.nodes p.inactive ∧
      (p.removeCold seq flat e).seqToFlat = p.seqToFlat.erase seq ∧
      (p.removeCold seq flat e).globalRefs = p.globalRefs.erase seq ∧
      (p.removeCold seq flat e).byFlat = p.byFlat.erase flat := by
  refine ⟨?_, rfl, rfl, rfl⟩
  have hnone : (B.nodes p.inactive).lookup seq = none := lookup_eq_none.mpr hout
  show B.nodes (B.take p.inactive seq e.blockId).2 = _
  rw [hB.nodes_take, hnone]
  simp

/-- What every removal of a cold block keeps, the whole list of them keeps. -/
theorem removeAll_induct (hB : B.Lawful) {I : PoolView B → Prop}
    (remove : ∀ q seq flat e, I q → q.Cold seq flat → q.byFlat.lookup flat = some e →
      seq ∉ B.nodes q.inactive → durable e.blockMeta = false → I (q.removeCold seq flat e))
    (back : List (B.Seq × BlockId)) (rs : List (B.Seq × Flat × KvBlockId)) (q : PoolView B) (hq : I q)
    (hrs : ∀ r ∈ rs, q.Cold r.1 r.2.1 ∧ r.1 ∉ B.nodes q.inactive ∧
      ∀ e, q.byFlat.lookup r.2.1 = some e → durable e.blockMeta = false) (hdistinct : (rs.map fun r => r.1).Nodup)
    (hback : ∀ v ∈ back, ∃ flat e, q.seqToFlat.lookup v.1 = some flat ∧
      q.byFlat.lookup flat = some e ∧ durable e.blockMeta = true) :
    I (removeAll q rs).1 ∧ ∀ v ∈ back, ∃ flat e, (removeAll q rs).1.seqToFlat.lookup v.1 = some flat ∧
      (removeAll q rs).1.byFlat.lookup flat = some e ∧ durable e.blockMeta = true := by
  induction rs generalizing q with
  | nil => exact ⟨hq, hback⟩
  | cons r rs ih =>
    obtain ⟨hr, hdistinct⟩ := nodup_cons.mp hdistinct
    obtain ⟨hcold, hout, hdur⟩ := hrs r mem_cons_self
    have htail := fun w hw => hrs w (mem_cons_of_mem r hw)
    unfold GcPass.removeAll
    split
    · exact ih q hq htail hdistinct hback
    next e he =>
      obtain ⟨hin, hseq, hrefs, hby⟩ := removeCold_frame hB r.2.1 e hout
      refine ih _ (remove q r.1 r.2.1 e hq hcold he hout (hdur e he)) ?_ hdistinct ?_
      · intro w hw
        obtain ⟨hc, ho, hd⟩ := htail w hw
        have hne : w.1 ≠ r.1 := fun heq => hr (mem_map.mpr ⟨w, hw, heq⟩)
        refine ⟨⟨?_, ?_⟩, by rwa [hin], fun e' he' => ?_⟩
        · rw [hseq, lookup_erase_ne hne]
          exact hc.filed
        · have hsame : (q.removeCold r.1 r.2.1 e).refsOf w.1 = q.refsOf w.1 := by
            simp [refsOf, hrefs, lookup_erase_ne hne]
          rw [hsame]
          exact hc.free
        · rw [hby, lookup_erase_if] at he'
          split at he'
          · simp at he'
          · exact hd e' he'
      · -- A durable block and a removed one have different hashes, hence different lineages.
        intro v hv
        obtain ⟨flat, e', hf, he', hd⟩ := hback v hv
        have hflat : flat ≠ r.2.1 := by
          rintro rfl
          rw [hdur e' he'] at hd
          simp at hd
        have hne : v.1 ≠ r.1 := by
          intro heq
          rw [heq, hcold.filed] at hf
          exact hflat (Option.some.inj hf).symm
        refine ⟨flat, e', ?_, ?_, hd⟩
        · rw [hseq, lookup_erase_ne hne]
          exact hf
        · rw [hby, lookup_erase_ne hflat]
          exact he'

theorem reinsertCold_frame (p : PoolView B) (v : B.Seq × BlockId) :
    (p.reinsertCold v).seqToFlat = p.seqToFlat ∧ (p.reinsertCold v).byFlat = p.byFlat := by
  unfold reinsertCold
  split
  · exact ⟨rfl, rfl⟩
  · split <;> exact ⟨rfl, rfl⟩

/-- Rule for `gc_cold`: what the allocation, every peeled victim, every removal of one without a
durable copy and every reinsertion of one with keep, the call keeps. -/
theorem gcCold_induct (hB : B.Lawful) {I : PoolView B → Prop} {p : PoolView B} {n : Nat}
    (key : NamespaceKey) (pk : Int) (alloc : I { p with inactive := (B.allocate p.inactive n).2 })
    (peel : ∀ q v flat e, v ∈ (B.allocate p.inactive n).1 → I q → q.Cold v.1 flat →
      q.byFlat.lookup flat = some e → I (q.peel flat v.1 e))
    (remove : ∀ q seq flat e, I q → q.Cold seq flat → q.byFlat.lookup flat = some e →
      seq ∉ B.nodes q.inactive → durable e.blockMeta = false → I (q.removeCold seq flat e))
    (reinsert : ∀ q v flat e, v ∈ (B.allocate p.inactive n).1 → I q →
      q.seqToFlat.lookup v.1 = some flat → q.byFlat.lookup flat = some e → I (q.reinsertCold v)) :
    I (p.gcCold key pk n).pool := by
  have hsorted := collect_sorted key pk alloc peel
  have hgone : ∀ r ∈ (collect key pk p n).fullRemove, r.1 ∉ B.nodes (collect key pk p n).pool.inactive := by
    intro r hr
    have hv : r.1 ∈ (B.allocate p.inactive n).1.map Prod.fst :=
      hsorted.distinct.subset (mem_map.mpr ⟨r, hr, rfl⟩)
    rw [hsorted.inactive, ← lookup_eq_none, hB.nodes_allocate]
    exact if_pos hv
  have hremoved := removeAll_induct hB remove (collect key pk p n).reinsert
    (collect key pk p n).fullRemove _ hsorted.holds
    (fun r hr => ⟨(hsorted.fullRemove r hr).1, hgone r hr, (hsorted.fullRemove r hr).2⟩)
    (hsorted.distinct.nodup (hB.allocate_nodup _ _))
    (fun v hv => by
      obtain ⟨-, flat, e, hc, he, hd⟩ := hsorted.reinsert v hv
      exact ⟨flat, e, hc.filed, he, hd⟩)
  have hloop : ∀ (vs : List (B.Seq × BlockId)) (q : PoolView B), I q →
      (∀ v ∈ vs, v ∈ (B.allocate p.inactive n).1 ∧ ∃ flat e, q.seqToFlat.lookup v.1 = some flat ∧
        q.byFlat.lookup flat = some e) → I (vs.foldl reinsertCold q) := by
    intro vs
    induction vs with
    | nil => exact fun _ hq _ => hq
    | cons v vs ih =>
      intro q hq hvs
      obtain ⟨hv, flat, e, hf, he⟩ := hvs v mem_cons_self
      obtain ⟨hseq, hby⟩ := q.reinsertCold_frame v
      refine ih _ (reinsert q v flat e hv hq hf he) fun w hw => ?_
      rw [hseq, hby]
      exact hvs w (mem_cons_of_mem _ hw)
  refine hloop _ _ hremoved.1 fun v hv => ⟨(hsorted.reinsert v hv).1, ?_⟩
  obtain ⟨flat, e, hf, he, -⟩ := hremoved.2 v hv
  exact ⟨flat, e, hf, he⟩

end PoolView

end LakeKv
