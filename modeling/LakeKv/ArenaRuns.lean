import LakeKv.ArenaMoves
import LakeKv.Runs

namespace LakeKv

open Finmap List Option

/-- The calls of a `SegmentArena`, with the 64-bit numbers they take. -/
inductive ArenaOp
  | alloc (hash : Flat)
  | placeAt (hash : Flat) (segmentId offset : Fin (2 ^ 64))
  | free (hash : Flat)
  | compact (segmentId : Fin (2 ^ 64))
  | relocate (hash : Flat) (destSegment destOffset : Fin (2 ^ 64))

namespace SegmentArena

variable {a : SegmentArena} {hash : Flat} {id : Nat} {r : Relocate}

def act (a : SegmentArena) : ArenaOp → SegmentArena
  | .alloc hash => (a.alloc hash).1
  | .placeAt hash segmentId offset => (a.placeAt hash segmentId offset).1
  | .free hash => (a.free hash).1
  | .compact segmentId => (a.compact segmentId).1
  | .relocate hash destSegment destOffset => (a.relocate hash destSegment destOffset).1

def Used : SegmentArena → Prop :=
  Reach act (fun a => ∃ slotBytes capacitySlots, a = new slotBytes capacitySlots) fun _ _ => True

theorem Addressed.compact (h : a.Addressed) (paired : a.Paired) (id : Nat) : (a.compact id).1.Addressed := by
  by_cases known : id ∈ a.segments
  · intro hash p found
    by_cases mem : hash ∈ a.live id
    · obtain ⟨j, there⟩ := mem_iff_getElem?.mp mem
      rw [paired.lookup_compact h known there] at found
      cases found
      exact paired.offset_live h (List.getElem?_eq_some_iff.mp there).1
    · rw [lookup_compact_of_notMem mem] at found
      exact h hash p found
  · unfold SegmentArena.compact
    rw [if_neg known]
    exact h

theorem Paired.act (h : a.Paired) (addressed : a.Addressed) (op : ArenaOp) :
    (a.act op).Paired ∧ (a.act op).Addressed := by
  cases op with
  | alloc hash =>
    refine ⟨h.alloc hash, ?_⟩
    rcases a.alloc_outcome hash with same | ⟨-, p, room, placed⟩
    · exact addressed.of_eq same
    · exact addressed.insert room placed
  | placeAt hash segmentId offset =>
    refine ⟨h.placeAt hash segmentId offset, ?_⟩
    rcases a.placeAt_outcome hash segmentId offset with ⟨e, -, same⟩ | ⟨-, -, placed⟩
    · exact addressed.of_eq same
    · exact addressed.insert offset.isLt placed
  | free hash =>
    refine ⟨h.free hash, ?_⟩
    intro other p found
    change (a.free hash).1.byHash.lookup other = some p at found
    rw [byHash_free] at found
    exact addressed other p (lookup_erase_some found).2
  | compact segmentId => exact ⟨h.compact addressed segmentId, addressed.compact h segmentId⟩
  | relocate hash destSegment destOffset =>
    obtain ⟨paired, ⟨e, -, same⟩ | ⟨source, -, -, placed⟩⟩ := h.relocate hash destSegment destOffset
    · exact ⟨paired, addressed.of_eq same⟩
    · exact ⟨paired, addressed.insert destOffset.isLt placed⟩

theorem Used.paired (used : a.Used) : a.Paired ∧ a.Addressed := by
  refine Reach.invariant (I := fun a => a.Paired ∧ a.Addressed) ?_ (fun s op held _ => held.1.act held.2 op) used
  rintro s ⟨slotBytes, capacitySlots, rfl⟩
  refine ⟨.new slotBytes capacitySlots, ?_⟩
  intro hash p found
  cases found

theorem mem_packFrom (slotBytes segmentId i : Nat) {live : List Flat} {byHash : Map Flat Placement}
    (nodup : live.Nodup) (known : ∀ hash ∈ live, hash ∈ byHash) : r ∈ (packFrom slotBytes segmentId i live byHash).2 ↔
      ∃ j, live[j]? = some r.hash ∧ byHash.lookup r.hash = some r.source ∧
        r.target = ⟨segmentId, u64 ((i + j) * slotBytes)⟩ ∧ r.source ≠ r.target := by
  induction live generalizing i byHash with
  | nil =>
    constructor
    · intro mem
      cases mem
    · rintro ⟨j, there, -⟩
      cases there
  | cons first live ih =>
    obtain ⟨fresh, nodup⟩ := nodup_cons.mp nodup
    obtain ⟨old, found⟩ := mem_iff.mp (known first mem_cons_self)
    have still : ∀ other ∈ live, other ∈ byHash.insert first ⟨segmentId, u64 (i * slotBytes)⟩ := by
      intro other mem
      exact mem_insert.mpr (.inr (known other (mem_cons_of_mem first mem)))
    have keeps : ∀ {j : Nat}, live[j]? = some r.hash →
        (byHash.insert first ⟨segmentId, u64 (i * slotBytes)⟩).lookup r.hash = byHash.lookup r.hash := by
      intro j there
      apply lookup_insert_of_ne
      rintro same
      exact fresh (same ▸ mem_of_getElem? there)
    unfold packFrom
    rw [found, getD_some, mem_append, ih (i + 1) nodup still]
    constructor
    · rintro (mem | ⟨j, there, source, target, ne⟩)
      · split at mem
        · cases mem
        · rename_i moved
          cases mem_singleton.mp mem
          exact ⟨0, rfl, found, by rw [Nat.add_zero], moved⟩
      · refine ⟨j + 1, there, keeps there ▸ source, ?_, ne⟩
        rw [target, Nat.add_assoc, Nat.add_comm 1 j]
    · rintro ⟨j, there, source, target, ne⟩
      cases j with
      | zero =>
        obtain rfl : first = r.hash := some.inj there
        obtain rfl : old = r.source := some.inj (found.symm.trans source)
        rw [Nat.add_zero] at target
        rw [← target, if_neg ne]
        exact .inl (mem_singleton.mpr rfl)
      | succ j =>
        refine .inr ⟨j, there, (keeps there).trans source, ?_, ne⟩
        rw [target, Nat.add_assoc, Nat.add_comm 1 j]

theorem sublist_packFrom (slotBytes segmentId i : Nat) (live : List Flat) (byHash : Map Flat Placement) :
    ((packFrom slotBytes segmentId i live byHash).2.map Relocate.hash).Sublist live := by
  induction live generalizing i byHash with
  | nil => exact List.Sublist.slnil
  | cons first live ih =>
    unfold packFrom
    rw [map_append]
    split
    · exact (ih (i + 1) _).cons first
    · exact (ih (i + 1) _).cons_cons first

theorem Paired.mem_relocs (h : a.Paired) (addressed : a.Addressed) (known : id ∈ a.segments) :
    r ∈ (packFrom a.slotBytes id 0 (a.live id) a.byHash).2 ↔
      a.byHash.lookup r.hash = some r.source ∧ (a.compact id).1.byHash.lookup r.hash = some r.target ∧
        r.source ≠ r.target := by
  rw [mem_packFrom a.slotBytes id 0 (h.nodup_live id) fun hash mem => h.mem_byHash_of_live mem]
  constructor
  · rintro ⟨j, there, source, target, ne⟩
    have inside := (List.getElem?_eq_some_iff.mp there).1
    rw [Nat.zero_add, u64_of_lt (h.offset_live addressed inside)] at target
    exact ⟨source, target ▸ h.lookup_compact addressed known there, ne⟩
  · rintro ⟨source, target, ne⟩
    by_cases mem : r.hash ∈ a.live id
    · obtain ⟨j, there⟩ := mem_iff_getElem?.mp mem
      have inside := (List.getElem?_eq_some_iff.mp there).1
      rw [h.lookup_compact addressed known there] at target
      refine ⟨j, there, source, ?_, ne⟩
      rw [Nat.zero_add, u64_of_lt (h.offset_live addressed inside)]
      exact (some.inj target).symm
    · rw [lookup_compact_of_notMem mem] at target
      exact absurd (some.inj (source.symm.trans target)) ne

structure Packs (a : SegmentArena) (id : Nat) (after : SegmentArena) (relocs : List Relocate) : Prop where
  packed : after.slots id = (a.live id).map some ++
    List.replicate ((a.slots id).length - (a.live id).length) none
  order : after.live id = a.live id
  others : ∀ x, x ≠ id → after.slots x = a.slots x
  elsewhere : ∀ hash p, p.segmentId ≠ id → (after.placement hash = some p ↔ a.placement hash = some p)
  moved : ∀ r, r ∈ relocs ↔ a.placement r.hash = some r.source ∧ after.placement r.hash = some r.target ∧
    r.source ≠ r.target
  once : (relocs.map Relocate.hash).Nodup

theorem live_packed (live : List Flat) (n : Nat) :
    ((live.map some ++ replicate n none).filterMap fun slot => slot) = live := by
  rw [filterMap_append, filterMap_map, filterMap_replicate_of_none rfl, append_nil]
  exact filterMap_some

theorem Paired.packs (h : a.Paired) (addressed : a.Addressed) (known : id ∈ a.segments) :
    Packs a id (a.compact id).1 (packFrom a.slotBytes id 0 (a.live id) a.byHash).2 where
  packed := by rw [slots_compact known, if_pos rfl]
  order := by
    rw [live, slots_compact known, if_pos rfl]
    exact live_packed _ _
  others := by
    intro x ne
    rw [slots_compact known, if_neg ne]
  elsewhere := by
    intro hash p ne
    unfold placement
    by_cases mem : hash ∈ a.live id
    · obtain ⟨j, there⟩ := mem_iff_getElem?.mp mem
      obtain ⟨i, before⟩ := mem_live.mp mem
      rw [h.lookup_compact addressed known there, h.lookup_of_occupant before]
      constructor <;> rintro ⟨⟩ <;> exact absurd rfl ne
    · rw [lookup_compact_of_notMem mem]
  moved := fun _ => h.mem_relocs addressed known
  once := (h.nodup_live id).sublist (sublist_packFrom a.slotBytes id 0 (a.live id) a.byHash)

/-- Placements and slots stay a bijection over any calls; a refused `relocate` moves nothing, and `compact` packs
one segment and lists the blocks it moved. -/
theorem used_arena (a : SegmentArena) (used : a.Used) :
    (∀ hash p, a.placement hash = some p ↔ p.offset % a.slotBytes = 0 ∧ p.offset / a.slotBytes < a.capacitySlots ∧
      (a.slots p.segmentId)[p.offset / a.slotBytes]? = some (some hash)) ∧
    (∀ hash destSegment destOffset e, (a.relocate hash destSegment destOffset).2 = .error e →
      ∀ other, (a.relocate hash destSegment destOffset).1.placement other = a.placement other) ∧
    (∀ id ∈ a.segments, ∃ relocs, (a.compact id).2 = .ok relocs ∧ Packs a id (a.compact id).1 relocs) ∧
    ∀ id ∉ a.segments, (a.compact id).1 = a ∧ ∃ e, (a.compact id).2 = .error e := by
  obtain ⟨paired, addressed⟩ := used.paired
  refine ⟨?_, ?_, ?_, ?_⟩
  · intro hash p
    constructor
    · intro found
      obtain ⟨aligned, there⟩ := paired.occupant_of_lookup found
      have inside := lt_of_occupant there
      rw [paired.size _ (mem_of_occupant there)] at inside
      exact ⟨aligned, inside, join_eq_some_iff.mp there⟩
    · rintro ⟨aligned, -, there⟩
      refine (paired.placed hash p).mpr ⟨p.offset / a.slotBytes, ?_, join_eq_some_iff.mpr there⟩
      exact (Nat.div_mul_cancel (Nat.dvd_of_mod_eq_zero aligned)).symm
  · intro hash destSegment destOffset e refused other
    obtain ⟨-, ⟨e, -, same⟩ | ⟨source, answer, -, -⟩⟩ := paired.relocate hash destSegment destOffset
    · rw [placement, same, placement]
    · rw [refused] at answer
      cases answer
  · intro id known
    have packs := paired.packs addressed known
    refine ⟨_, ?_, packs⟩
    unfold compact
    rw [if_pos known]
  · intro id unknown
    unfold compact
    rw [if_neg unknown]
    exact ⟨rfl, _, rfl⟩

def compactedArena : SegmentArena :=
  [.alloc [1], .alloc [2], .free [1], .compact 1].foldl act (new 8 4)

theorem packed_block_is_in_front :
    compactedArena.placement [2] = some ⟨1, 0⟩ ∧ (compactedArena.slots 1)[0]? = some (some [2]) := by
  have used : compactedArena.Used := Reach.foldl (.start ⟨8, 4, rfl⟩) (Reach.allowed_true _ _)
  have front : compactedArena.placement [2] = some ⟨1, 0⟩ := by decide +kernel
  exact ⟨front, (((used_arena _ used).1 [2] ⟨1, 0⟩).mp front).2.2⟩

end SegmentArena

end LakeKv
