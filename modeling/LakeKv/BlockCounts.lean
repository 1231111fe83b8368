import LakeKv.LineageIndex

namespace LakeKv

open Finmap GcPass List PoolAction

variable {B : Backend}

namespace PoolView

def count (p : PoolView B) : Nat :=
  p.byFlat.keys.card

variable {p q : PoolView B} {flat : Flat}

theorem count_of_byFlat (h : q.byFlat = p.byFlat) : q.count = p.count := by
  rw [count, h, count]

theorem count_of_insert {e e' : Entry B}
    (he : p.byFlat.lookup flat = some e) (h : q.byFlat = p.byFlat.insert flat e') : q.count = p.count := by
  rw [count, h, keys_insert_of_mem (mem_of_lookup_eq_some he), count]

theorem count_of_erase {e : Entry B}
    (he : p.byFlat.lookup flat = some e) (h : q.byFlat = p.byFlat.erase flat) : q.count + 1 = p.count := by
  rw [count, h]
  exact card_erase (mem_of_lookup_eq_some he)

theorem count_quiet {act : PoolAction B} (quiet : act.quiet = true) (guard : act.Guard p) :
    (act.apply p).count = p.count := by
  cases act with
  | evict | register | discard | gcCold => simp [PoolAction.quiet] at quiet
  | setRef flat e kind value =>
    refine count_of_byFlat ?_
    rw [PoolAction.apply, setRef_eq]
  | touchRefs flat e => rfl
  | strip key pk node flat =>
    simp only [apply, stripFlat]
    split
    · rfl
    next e he =>
      split
      · rfl
      · exact count_of_insert he (markAbsent_byFlat _ _ _)
  | clearMarks node => rfl
  | publish flat e tier node seg off present =>
    exact count_of_insert guard.1 (publish_byFlat tier node seg off present guard.1)
  | setL3 flat e present => exact count_of_insert (p := p) guard rfl
  | relocate flat e tier node seg off => exact count_of_insert guard (p.relocate_byFlat flat e tier node seg off)
  | touchHits | markPlaced | recordHit => rfl

theorem count_dropInactiveVictims (hB : B.Lawful) (h : p.IndexOk) (n : Nat) :
    (p.dropInactiveVictims n).1.count + (p.dropInactiveVictims n).2.length = p.count := by
  have hone : ∀ q : PoolView B, q.IndexOk → ∀ seq,
      (q.dropVictim seq).1.count + (q.dropVictim seq).2.length = q.count := by
    intro q hq seq
    unfold dropVictim
    split
    · rfl
    dsimp only
    split
    · rfl
    next flat hf =>
      obtain ⟨e, he, -⟩ := hq.owned seq flat hf
      exact count_of_erase he rfl
  have hloop : ∀ (vs : List (B.Seq × BlockId)) (q : PoolView B), q.IndexOk → (∀ v ∈ vs, v.1 ∉ B.nodes q.inactive) →
      (q.dropVictims vs).1.count + (q.dropVictims vs).2.length = q.count := by
    intro vs
    induction vs with
    | nil => exact fun _ _ _ => rfl
    | cons v vs ih =>
      intro q hq hout
      have hfirst := hone q hq v.1
      have hrest := ih (q.dropVictim v.1).1 (hq.dropVictim (hout v mem_cons_self)) fun w hw => by
        rw [dropVictim_inactive]
        exact hout w (mem_cons_of_mem _ hw)
      simp only [dropVictims, length_append]
      omega
  refine hloop _ _ (h.allocate hB n) fun v hv => ?_
  rw [← lookup_eq_none, hB.nodes_allocate]
  exact if_pos (mem_map_of_mem hv)

theorem count_registerAll (p : PoolView B) (placed : List (PlacedBlock B)) :
    (p.registerAll placed).1.count = p.count + (p.registerAll placed).2.2 := by
  induction placed generalizing p with
  | nil => rfl
  | cons b bs ih =>
    have hstep : (p.registerPlaced b).count = p.count + if b.id.blockHash ∈ p.byFlat then 0 else 1 := by
      simp only [count, registerPlaced, registerBlock, keys_insert]
      split
      next hm => simp [Finset.insert_eq_of_mem (Finmap.mem_keys.mpr hm)]
      next hm => exact Finset.card_insert_of_notMem fun hk => hm (Finmap.mem_keys.mp hk)
    have hrest := ih (p.registerPlaced b)
    simp only [registerAll]
    omega

theorem count_gcCold (p : PoolView B) (key : NamespaceKey) (pk : Int) (n : Nat) :
    (p.gcCold key pk n).pool.count + (p.gcCold key pk n).discarded.length = p.count := by
  have hpeel : ∀ (vs : List (B.Seq × BlockId)) (g : GcPass B),
      (vs.foldl (victim key pk) g).pool.count = g.pool.count := by
    intro vs
    induction vs with
    | nil => exact fun _ => rfl
    | cons v vs ih =>
      intro g
      refine (ih _).trans ?_
      unfold victim
      split
      · rfl
      split
      · rfl
      split
      · rfl
      next e he =>
        have hcount := count_of_insert he (g.pool.peel_byFlat _ v.1 e)
        dsimp only
        split <;> exact hcount
  have hremove : ∀ (rs : List (B.Seq × Flat × KvBlockId)) (q : PoolView B),
      (removeAll q rs).1.count + (removeAll q rs).2.length = q.count := by
    intro rs
    induction rs with
    | nil => exact fun _ => rfl
    | cons r rs ih =>
      intro q
      unfold GcPass.removeAll
      split
      · exact ih q
      next e he =>
        have hrest := ih (q.removeCold r.1 r.2.1 e)
        have herase : (q.removeCold r.1 r.2.1 e).count + 1 = q.count := count_of_erase he rfl
        simp only [length_cons]
        omega
  have hreinsert : ∀ (vs : List (B.Seq × BlockId)) (q : PoolView B), (vs.foldl reinsertCold q).count = q.count := by
    intro vs
    induction vs with
    | nil => exact fun _ => rfl
    | cons v vs ih => exact fun q => (ih _).trans (count_of_byFlat (q.reinsertCold_frame v).2)
  have hcollect : (collect key pk p n).pool.count = p.count := hpeel _ _
  have hremoved := hremove (collect key pk p n).fullRemove (collect key pk p n).pool
  simp only [gcCold, hreinsert]
  omega

end PoolView

namespace Namespace

theorem blockCount_setPool (ns : Namespace B) (pk : Int) (q : PoolView B) :
    (ns.setPool pk q).blockCount + (ns.poolMut pk).count = ns.blockCount + q.count := by
  unfold poolMut
  cases hp : ns.pools.lookup pk with
  | none =>
    have hnot : pk ∉ ns.pools := lookup_eq_none.mp hp
    have hsum := total_insert_of_notMem (f := fun p : PoolView B => p.byFlat.keys.card) (b := q) hnot
    simp only [blockCount, setPool, hsum, Option.getD_none, PoolView.count, PoolView.new, keys_empty, Finset.card_empty]
    omega
  | some p =>
    have hsum := total_insert_of_lookup (f := fun p : PoolView B => p.byFlat.keys.card) (b := q) hp
    simp only [blockCount, setPool, Option.getD_some, PoolView.count]
    omega

theorem blockCount_evictInactiveN (hB : B.Lawful) (ns : Namespace B) (n : Nat)
    (h : ∀ pk p, ns.pools.lookup pk = some p → p.IndexOk) :
    (ns.evictInactiveN n).1.blockCount + (ns.evictInactiveN n).2.length = ns.blockCount := by
  have hloop : ∀ (kinds : List Int) (left : Nat) (ns : Namespace B), (∀ pk p, ns.pools.lookup pk = some p → p.IndexOk) →
      (ns.evictKinds kinds left).1.blockCount + (ns.evictKinds kinds left).2.length = ns.blockCount := by
    intro kinds
    induction kinds with
    | nil => exact fun _ _ _ => rfl
    | cons k ks ih =>
      intro left ns h
      unfold evictKinds
      split
      · rfl
      split
      · exact ih left ns h
      next p hp =>
        have hok := h k p hp
        have hone := PoolView.count_dropInactiveVictims hB hok left
        have hset := ns.blockCount_setPool k (p.dropInactiveVictims left).1
        rw [Authority.poolMut_of_lookup hp] at hset
        have hrest := ih (left - (p.dropInactiveVictims left).2.length)
          (ns.setPool k (p.dropInactiveVictims left).1) fun pk q hq => by
            rw [setPool, lookup_insert_if] at hq
            split at hq
            · cases hq
              exact hok.dropInactiveVictims hB left
            · exact h pk q hq
        simp only [length_append, length_map]
        omega
  unfold evictInactiveN
  split
  · rfl
  · exact hloop _ _ ns h

end Namespace

end LakeKv
