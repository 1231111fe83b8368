import LakeKv.SegmentArena

namespace LakeKv

open Finmap List Option SegmentArena

namespace SegmentArena

variable {a : SegmentArena} {hash : Flat} {id idx offset : Nat} {p : Placement} {slots : List (Option Flat)}

theorem firstFree_eq_some (h : firstFree slots = some idx) : slots[idx]? = some none := by
  obtain ⟨inside, free, -⟩ := findIdx?_eq_some_iff_getElem.mp h
  rw [getElem?_eq_getElem inside, isNone_iff_eq_none.mp free]

theorem freeSlot_eq_some (h : a.freeSlot = some (id, idx)) : id ∈ a.segments ∧ (a.slots id)[idx]? = some none := by
  obtain ⟨x, hx, found⟩ := exists_of_findSome?_eq_some h
  obtain ⟨i, first, same⟩ := map_eq_some_iff.mp found
  cases same
  exact ⟨Finmap.mem_keys.mp (Finset.mem_ascending.mp hx), firstFree_eq_some first⟩

def Addressed (a : SegmentArena) : Prop :=
  ∀ hash p, a.byHash.lookup hash = some p → p.offset < 2 ^ 64

variable {b : SegmentArena}

theorem Addressed.insert (h : a.Addressed) (room : p.offset < 2 ^ 64)
    (placed : b.byHash = a.byHash.insert hash p) : b.Addressed := by
  intro other q found
  rw [placed, lookup_insert_if] at found
  split at found
  · cases found
    exact room
  · exact h other q found

theorem Addressed.of_eq (h : a.Addressed) (same : b.byHash = a.byHash) : b.Addressed := by
  intro hash p found
  rw [same] at found
  exact h hash p found

theorem Consistent.paired (h : a.Consistent) : a.Paired :=
  ⟨h.size, h.placed⟩

theorem Consistent.offset_lt (h : a.Consistent) (inside : idx < a.capacitySlots) : idx * a.slotBytes < 2 ^ 64 := by
  have step : idx * a.slotBytes < a.capacitySlots * a.slotBytes :=
    Nat.mul_lt_mul_of_pos_right inside a.slot_pos
  exact lt_of_lt_of_le step h.fits

theorem Consistent.addressed (h : a.Consistent) : a.Addressed := by
  intro hash p found
  obtain ⟨i, offset, there⟩ := (h.placed hash p).mp found
  have inside := lt_of_occupant there
  rw [h.size _ (mem_of_occupant there)] at inside
  rw [offset]
  exact h.offset_lt inside

theorem Paired.alloc (h : a.Paired) (hash : Flat) : (a.alloc hash).1.Paired := by
  have next : ({ a with nextSeg := u64 (a.nextSeg + 1) } : SegmentArena).Paired := ⟨h.size, h.placed⟩
  fun_cases SegmentArena.alloc a hash
  case case1 => exact h
  case case2 => exact h.placeAt hash _ _
  case case3 => exact (next.ensureSeg a.nextSeg).placeAt hash _ _

theorem Consistent.mem_alloc (h : a.Consistent) (below : a.Below) (fresh : hash ∉ a.byHash) :
    hash ∈ (a.alloc hash).1.byHash := by
  have placed : ∀ {b : SegmentArena} {id i : Nat}, b.Paired → hash ∉ b.byHash →
      i < b.capacitySlots → b.occupant id i = none →
      hash ∈ (b.placeAt hash id (i * b.slotBytes)).1.byHash := by
    intro b id i hb new inside vacant
    have ok := hb.placeAt_ok new inside vacant
    rcases b.placeAt_outcome hash id (i * b.slotBytes) with ⟨e, refused, -⟩ | ⟨-, -, placed⟩
    · rw [ok] at refused
      cases refused
    · rw [placed]
      exact mem_insert.mpr (.inl rfl)
  unfold alloc
  rw [if_neg fresh]
  cases slot : a.freeSlot with
  | some place =>
    obtain ⟨known, free⟩ := freeSlot_eq_some slot
    have inside : place.2 < a.capacitySlots := by
      rw [← h.size place.1 known]
      exact (List.getElem?_eq_some_iff.mp free).1
    have vacant : a.occupant place.1 place.2 = none := by
      rw [occupant, free]
      rfl
    dsimp only
    rw [u64_of_lt (h.offset_lt inside)]
    exact placed h.paired fresh inside vacant
  | none =>
    have unknown : a.nextSeg ∉ a.segments := fun known => lt_irrefl _ (below a.nextSeg known)
    have next : ({ a with nextSeg := u64 (a.nextSeg + 1) } : SegmentArena).Paired := ⟨h.size, h.placed⟩
    have vacant : ({ a with nextSeg := u64 (a.nextSeg + 1) }.ensureSeg a.nextSeg).occupant a.nextSeg 0 = none := by
      rw [occupant_ensureSeg]
      change a.occupant a.nextSeg 0 = none
      rw [occupant, slots_of_notMem unknown]
      rfl
    have := placed (i := 0) (next.ensureSeg a.nextSeg) fresh a.capacity_pos vacant
    rwa [Nat.zero_mul] at this

variable (a)

theorem placeAt_geometry (hash : Flat) (id offset : Nat) :
    (a.placeAt hash id offset).1.slotBytes = a.slotBytes ∧
      (a.placeAt hash id offset).1.capacitySlots = a.capacitySlots := by
  fun_cases placeAt a hash id offset <;> exact ⟨rfl, rfl⟩

theorem free_geometry (hash : Flat) :
    (a.free hash).1.slotBytes = a.slotBytes ∧ (a.free hash).1.capacitySlots = a.capacitySlots := by
  fun_cases free a hash <;> exact ⟨rfl, rfl⟩

theorem alloc_geometry (hash : Flat) :
    (a.alloc hash).1.slotBytes = a.slotBytes ∧ (a.alloc hash).1.capacitySlots = a.capacitySlots := by
  unfold alloc
  split
  · exact ⟨rfl, rfl⟩
  split <;> exact placeAt_geometry _ hash _ _

theorem relocate_geometry (hash : Flat) (destSegment destOffset : Nat) :
    (a.relocate hash destSegment destOffset).1.slotBytes = a.slotBytes ∧
      (a.relocate hash destSegment destOffset).1.capacitySlots = a.capacitySlots := by
  have freed := free_geometry a hash
  have placed := placeAt_geometry (a.free hash).1 hash destSegment destOffset
  rw [freed.1, freed.2] at placed
  unfold relocate
  split
  · exact ⟨rfl, rfl⟩
  split
  · exact ⟨rfl, rfl⟩
  split
  next answer => rwa [answer] at placed
  next b e answer =>
    rw [answer] at placed
    rw [(placeAt_geometry b hash _ _).1, (placeAt_geometry b hash _ _).2]
    exact placed

variable {a}

theorem Paired.vacant_of_erased (h : a.Paired) (hb : b.Paired)
    (slot : b.slotBytes = a.slotBytes) (erased : b.byHash = a.byHash.erase hash)
    (there : a.occupant id idx = some hash) : b.occupant id idx = none := by
  cases found : b.occupant id idx with
  | none => rfl
  | some other =>
    have placed := hb.lookup_of_occupant found
    rw [erased, slot] at placed
    have before := (lookup_erase_some placed).2
    obtain ⟨i, offset, same⟩ := (h.placed other _).mp before
    have eq : idx = i := Nat.eq_of_mul_eq_mul_right a.slot_pos offset
    rw [← eq, there] at same
    cases same
    rw [lookup_erase] at placed
    cases placed

/-- `relocate` moves one block to a free slot, or no placement changes. -/
theorem Paired.relocate (h : a.Paired) (hash : Flat) (destSegment destOffset : Nat) :
    (a.relocate hash destSegment destOffset).1.Paired ∧ ((∃ e, (a.relocate hash destSegment destOffset).2 = .error e ∧
          (a.relocate hash destSegment destOffset).1.byHash = a.byHash) ∨
        ∃ source, (a.relocate hash destSegment destOffset).2 = .ok ⟨hash, source, ⟨destSegment, destOffset⟩⟩ ∧
          a.byHash.lookup hash = some source ∧ (a.relocate hash destSegment destOffset).1.byHash =
            a.byHash.insert hash ⟨destSegment, destOffset⟩) := by
  unfold SegmentArena.relocate placement
  cases found : a.byHash.lookup hash with
  | none => exact ⟨h, .inl ⟨_, rfl, rfl⟩⟩
  | some source =>
    dsimp only
    by_cases same : source.segmentId = destSegment ∧ source.offset = destOffset
    · rw [if_pos same]
      obtain ⟨rfl, rfl⟩ := same
      exact ⟨h, .inr ⟨source, rfl, rfl, (insert_of_lookup found).symm⟩⟩
    rw [if_neg same]
    have freed := h.free hash
    have gone := byHash_free a hash
    have fresh : hash ∉ (a.free hash).1.byHash := by
      rw [gone, ← lookup_eq_none]
      exact lookup_erase hash _
    cases placing : (a.free hash).1.placeAt hash destSegment destOffset with
    | mk b answer =>
      have consistent := freed.placeAt hash destSegment destOffset
      have outcome := (a.free hash).1.placeAt_outcome hash destSegment destOffset
      have geometry := placeAt_geometry (a.free hash).1 hash destSegment destOffset
      rw [placing] at consistent outcome geometry
      rcases outcome with ⟨e, refused, kept⟩ | ⟨accepted, -, placed⟩
      · dsimp only at refused kept consistent
        subst refused
        dsimp only
        -- the slot it came from is free, so it goes back there
        obtain ⟨aligned, there⟩ := h.occupant_of_lookup found
        have slot : b.slotBytes = a.slotBytes := geometry.1.trans (free_geometry a hash).1
        have capacity : b.capacitySlots = a.capacitySlots := geometry.2.trans (free_geometry a hash).2
        have inside : source.offset / a.slotBytes < b.capacitySlots := by
          rw [capacity, ← h.size _ (mem_of_occupant there)]
          exact lt_of_occupant there
        have back := consistent.placeAt_ok (kept ▸ fresh) inside
          (h.vacant_of_erased consistent slot (kept.trans gone) there)
        have offset : source.offset / a.slotBytes * b.slotBytes = source.offset := by
          rw [slot]
          exact Nat.div_mul_cancel (Nat.dvd_of_mod_eq_zero aligned)
        rw [offset] at back
        have outcome := b.placeAt_outcome hash source.segmentId source.offset
        rw [back] at outcome
        refine ⟨consistent.placeAt hash source.segmentId source.offset, .inl ⟨e, rfl, ?_⟩⟩
        rcases outcome with ⟨e, refused, -⟩ | ⟨-, -, placed⟩
        · cases refused
        · rw [placed, kept, gone]
          exact insert_erase_of_lookup found
      · dsimp only at accepted placed consistent
        subst accepted
        refine ⟨consistent, .inr ⟨source, rfl, rfl, ?_⟩⟩
        dsimp only
        rw [placed, gone]
        apply ext_lookup
        intro other
        rw [lookup_insert_if, lookup_insert_if, lookup_erase_if]
        split <;> rfl

def move (byHash : Map Flat Placement) (r : Relocate) : Map Flat Placement :=
  byHash.insert r.hash r.target

variable {live : List Flat} {byHash : Map Flat Placement} {a' : SegmentArena} {x : Flat}

variable (slotBytes segmentId i : Nat)

theorem packFrom_relocs (known : ∀ hash ∈ live, hash ∈ byHash) :
    (packFrom slotBytes segmentId i live byHash).1 =
      (packFrom slotBytes segmentId i live byHash).2.foldl move byHash := by
  induction live generalizing i byHash with
  | nil => rfl
  | cons hash live ih =>
    obtain ⟨old, found⟩ := mem_iff.mp (known hash mem_cons_self)
    have still : ∀ other ∈ live, other ∈ byHash.insert hash ⟨segmentId, u64 (i * slotBytes)⟩ := by
      intro other mem
      exact mem_insert.mpr (.inr (known other (mem_cons_of_mem hash mem)))
    have rest := ih (i + 1) still
    unfold packFrom
    rw [found, getD_some, foldl_append]
    by_cases same : old = ⟨segmentId, u64 (i * slotBytes)⟩
    · rw [if_pos same]
      rw [same] at found
      rw [insert_of_lookup found] at rest ⊢
      exact rest
    · rw [if_neg same]
      exact rest

theorem source_ne_target (live : List Flat) (byHash : Map Flat Placement) :
    ∀ r ∈ (packFrom slotBytes segmentId i live byHash).2, r.source ≠ r.target := by
  induction live generalizing i byHash with
  | nil =>
    intro r mem
    cases mem
  | cons hash live ih =>
    intro r mem
    unfold packFrom at mem
    rcases mem_append.mp mem with mem | mem
    · split at mem
      · cases mem
      · rename_i moved
        cases mem_singleton.mp mem
        exact moved
    · exact ih (i + 1) _ r mem

theorem lookup_packFrom_of_notMem (away : hash ∉ live) :
    (packFrom slotBytes segmentId i live byHash).1.lookup hash = byHash.lookup hash := by
  induction live generalizing i byHash with
  | nil => rfl
  | cons first live ih =>
    obtain ⟨ne, away⟩ := not_or.mp (mem_cons.not.mp away)
    unfold packFrom
    rw [ih (i + 1) away, lookup_insert_of_ne _ ne]

theorem lookup_packFrom (slotBytes segmentId : Nat) {i j : Nat} (nodup : live.Nodup) (there : live[j]? = some hash) :
    (packFrom slotBytes segmentId i live byHash).1.lookup hash = some ⟨segmentId, u64 ((i + j) * slotBytes)⟩ := by
  induction live generalizing i j byHash with
  | nil => cases there
  | cons first live ih =>
    obtain ⟨fresh, nodup⟩ := nodup_cons.mp nodup
    unfold packFrom
    cases j with
    | zero =>
      cases there
      rw [lookup_packFrom_of_notMem slotBytes segmentId (i + 1) fresh, lookup_insert, Nat.add_zero]
    | succ j =>
      rw [ih nodup there, Nat.add_assoc, Nat.add_comm 1 j]

theorem join_getElem?_packed (live : List Flat) (n i : Nat) :
    ((live.map some ++ replicate n none)[i]?).join = live[i]? := by
  by_cases inside : i < live.length
  · rw [getElem?_append_left (by rwa [length_map]), getElem?_map]
    cases live[i]? <;> rfl
  · have none : live[i]? = none := getElem?_eq_none (by omega)
    rw [getElem?_append_right (by rw [length_map]; omega), getElem?_replicate, none]
    split <;> rfl

theorem mem_live : hash ∈ a.live id ↔ ∃ i, a.occupant id i = some hash := by
  unfold live occupant
  rw [mem_filterMap]
  constructor
  · rintro ⟨slot, mem, rfl⟩
    obtain ⟨i, inside, eq⟩ := getElem_of_mem mem
    refine ⟨i, ?_⟩
    rw [getElem?_eq_getElem inside, eq]
    rfl
  · rintro ⟨i, there⟩
    have slot := join_eq_some_iff.mp there
    exact ⟨some hash, mem_of_getElem? slot, rfl⟩

theorem exists_slot_of_live {j : Nat}
    (h : (slots.filterMap fun slot => slot)[j]? = some hash) : ∃ i, j ≤ i ∧ slots[i]? = some (some hash) := by
  induction slots generalizing j with
  | nil => cases h
  | cons slot slots ih =>
    cases slot with
    | none =>
      obtain ⟨i, le, there⟩ := ih h
      exact ⟨i + 1, by omega, there⟩
    | some x =>
      cases j with
      | zero => exact ⟨0, le_rfl, congrArg (Option.map some) h⟩
      | succ j =>
        obtain ⟨i, le, there⟩ := ih h
        exact ⟨i + 1, by omega, there⟩

theorem slots_compact (known : id ∈ a.segments) (x : Nat) :
    (a.compact id).1.slots x = if x = id then (a.live id).map some ++
      replicate ((a.slots id).length - (a.live id).length) none else a.slots x := by
  unfold compact
  rw [if_pos known]
  exact slots_insert a.segments id x _

theorem compact_geometry (a : SegmentArena) (id : Nat) :
    (a.compact id).1.slotBytes = a.slotBytes ∧ (a.compact id).1.capacitySlots = a.capacitySlots := by
  unfold compact
  split <;> exact ⟨rfl, rfl⟩

theorem lookup_compact_of_notMem (away : hash ∉ a.live id) :
    (a.compact id).1.byHash.lookup hash = a.byHash.lookup hash := by
  unfold compact
  split
  · exact lookup_packFrom_of_notMem a.slotBytes id 0 away
  · rfl

namespace Paired

variable (h : a.Paired)
include h

theorem nodup_live (id : Nat) : (a.live id).Nodup := by
  unfold live
  apply pairwise_filterMap.mpr
  apply pairwise_iff_getElem.mpr
  intro i j hi hj lt x hx y hy same
  subst same
  have first : a.occupant id i = some x := by
    rw [occupant, getElem?_eq_getElem hi]
    exact hx
  have second : a.occupant id j = some x := by
    rw [occupant, getElem?_eq_getElem hj]
    exact hy
  have eq := (h.lookup_of_occupant first).symm.trans (h.lookup_of_occupant second)
  have offset : i * a.slotBytes = j * a.slotBytes := congrArg Placement.offset (some.inj eq)
  have := Nat.eq_of_mul_eq_mul_right a.slot_pos offset
  omega

theorem mem_byHash_of_live (mem : hash ∈ a.live id) : hash ∈ a.byHash := by
  obtain ⟨i, there⟩ := mem_live.mp mem
  exact mem_of_lookup_eq_some (h.lookup_of_occupant there)

variable (addressed : a.Addressed)
include addressed

theorem offset_live {j : Nat} (inside : j < (a.live id).length) : j * a.slotBytes < 2 ^ 64 := by
  obtain ⟨i, le, there⟩ := exists_slot_of_live (getElem?_eq_getElem inside)
  have occupied : a.occupant id i = some (a.live id)[j] := by
    rw [occupant, there]
    rfl
  have offset := addressed _ _ (h.lookup_of_occupant occupied)
  exact lt_of_le_of_lt (Nat.mul_le_mul_right a.slotBytes le) offset

theorem lookup_compact (known : id ∈ a.segments) {j : Nat}
    (there : (a.live id)[j]? = some hash) : (a.compact id).1.byHash.lookup hash = some ⟨id, j * a.slotBytes⟩ := by
  unfold compact
  rw [if_pos known]
  dsimp only
  have inside := (List.getElem?_eq_some_iff.mp there).1
  rw [lookup_packFrom a.slotBytes id (h.nodup_live id) there, Nat.zero_add, u64_of_lt (h.offset_live addressed inside)]

theorem compact (id : Nat) : (a.compact id).1.Paired := by
  by_cases known : id ∈ a.segments
  · have segments : ∀ x, x ∈ (a.compact id).1.segments → x ∈ a.segments := by
      intro x hx
      unfold SegmentArena.compact at hx
      rw [if_pos known] at hx
      rcases mem_insert.mp hx with rfl | hx
      · exact known
      · exact hx
    have occupant' : ∀ x i, (a.compact id).1.occupant x i = if x = id then (a.live id)[i]? else a.occupant x i := by
      intro x i
      rw [occupant, slots_compact known]
      split
      · exact join_getElem?_packed _ _ i
      · rfl
    refine ⟨?_, ?_⟩
    · intro x hx
      have count : (a.live id).length ≤ (a.slots id).length := length_filterMap_le _ _
      rw [slots_compact known, (compact_geometry a id).2]
      split
      · rw [length_append, length_map, length_replicate, ← h.size id known]
        omega
      · exact h.size x (segments x hx)
    · intro hash p
      rw [(compact_geometry a id).1]
      simp only [occupant']
      by_cases mem : hash ∈ a.live id
      · obtain ⟨j, there⟩ := mem_iff_getElem?.mp mem
        rw [h.lookup_compact addressed known there]
        constructor
        · intro eq
          cases eq
          exact ⟨j, rfl, (if_pos rfl).trans there⟩
        · rintro ⟨i, offset, found⟩
          split at found
          next here =>
            have inside := (List.getElem?_eq_some_iff.mp found).1
            have same : i = j := (getElem?_inj inside (h.nodup_live id)).mp (found.trans there.symm)
            rw [← here, ← same, ← offset]
          next away =>
            obtain ⟨k, before⟩ := mem_live.mp mem
            have eq := (h.lookup_of_occupant before).symm.trans (h.lookup_of_occupant found)
            exact absurd (congrArg Placement.segmentId (some.inj eq)).symm away
      · rw [lookup_compact_of_notMem mem, h.placed]
        refine exists_congr fun i => and_congr_right fun _ => ?_
        split
        next here =>
          refine iff_of_false ?_ ?_
          · intro there
            exact mem (mem_live.mpr ⟨i, here ▸ there⟩)
          · intro there
            exact mem (mem_of_getElem? there)
        · rfl
  · unfold SegmentArena.compact
    rw [if_neg known]
    exact h

theorem mem_compact (id : Nat) (hash : Flat) : hash ∈ (a.compact id).1.byHash ↔ hash ∈ a.byHash := by
  by_cases known : id ∈ a.segments
  · by_cases mem : hash ∈ a.live id
    · obtain ⟨j, there⟩ := mem_iff_getElem?.mp mem
      exact iff_of_true (mem_of_lookup_eq_some (h.lookup_compact addressed known there)) (h.mem_byHash_of_live mem)
    · rw [← lookup_isSome, lookup_compact_of_notMem mem, lookup_isSome]
  · unfold SegmentArena.compact
    rw [if_neg known]

end Paired

namespace Consistent

variable (h : a.Consistent)
include h

theorem of_paired (paired : b.Paired)
    (geometry : b.slotBytes = a.slotBytes ∧ b.capacitySlots = a.capacitySlots) : b.Consistent := by
  refine ⟨?_, paired.size, paired.placed⟩
  rw [geometry.1, geometry.2]
  exact h.fits

theorem free (hash : Flat) : (a.free hash).1.Consistent :=
  h.of_paired (h.paired.free hash) (free_geometry a hash)

theorem alloc (hash : Flat) : (a.alloc hash).1.Consistent :=
  h.of_paired (h.paired.alloc hash) (alloc_geometry a hash)

theorem compact (id : Nat) : (a.compact id).1.Consistent :=
  h.of_paired (h.paired.compact h.addressed id) (compact_geometry a id)

theorem relocate (hash : Flat) (destSegment destOffset : Nat) : (a.relocate hash destSegment destOffset).1.Consistent :=
  h.of_paired (h.paired.relocate hash destSegment destOffset).1 (relocate_geometry a hash destSegment destOffset)

end Consistent

namespace Below

variable (h : a.Below)
include h

theorem ensureSeg (room : id + 1 < 2 ^ 64) : (a.ensureSeg id).Below := by
  intro x hx
  change x < if a.nextSeg ≤ id then u64 (id + 1) else a.nextSeg
  rw [u64_of_lt room]
  rcases mem_ensureSeg.mp hx with rfl | hx
  · split <;> omega
  · have := h x hx
    split <;> omega

theorem placeAt (room : id + 1 < 2 ^ 64) : (a.placeAt hash id offset).1.Below := by
  unfold SegmentArena.placeAt
  split
  · exact h
  split
  · exact h
  split
  · exact h.ensureSeg room
  · exact h.ensureSeg room
  · intro x hx
    rcases mem_insert.mp hx with rfl | hx
    · exact h.ensureSeg room x (mem_ensureSeg.mpr (.inl rfl))
    · exact h.ensureSeg room x hx

theorem free (hash : Flat) : (a.free hash).1.Below := by
  unfold SegmentArena.free
  split
  · exact h
  intro x hx
  dsimp only at hx
  split at hx
  next known =>
    rcases mem_insert.mp hx with rfl | hx
    · exact h _ known
    · exact h x hx
  · exact h x hx

theorem alloc (room : a.nextSeg + 1 < 2 ^ 64) : (a.alloc hash).1.Below := by
  unfold SegmentArena.alloc
  split
  · exact h
  split
  next id idx slot =>
    have := h id (freeSlot_eq_some slot).1
    exact h.placeAt (by omega)
  have next : ({ a with nextSeg := u64 (a.nextSeg + 1) } : SegmentArena).Below := by
    intro x hx
    have := h x hx
    change x < u64 (a.nextSeg + 1)
    rw [u64_of_lt room]
    omega
  exact (next.ensureSeg room).placeAt room

theorem compact (id : Nat) : (a.compact id).1.Below := by
  unfold SegmentArena.compact
  split
  next known =>
    intro x hx
    rcases mem_insert.mp hx with rfl | hx
    · exact h _ known
    · exact h x hx
  · exact h

theorem relocate (consistent : a.Consistent) {destSegment destOffset : Nat}
    (room : a.nextSeg < 2 ^ 64) (dest : destSegment + 1 < 2 ^ 64) :
    (a.relocate hash destSegment destOffset).1.Below := by
  unfold SegmentArena.relocate
  cases found : a.placement hash with
  | none => exact h
  | some source =>
    dsimp only
    split
    · exact h
    have there := (consistent.paired.occupant_of_lookup found).2
    have old := h source.segmentId (mem_of_occupant there)
    have moved : ((a.free hash).1.placeAt hash destSegment destOffset).1.Below := (h.free hash).placeAt dest
    cases placing : (a.free hash).1.placeAt hash destSegment destOffset with
    | mk b answer =>
      rw [placing] at moved
      cases answer with
      | ok target => exact moved
      | error e => exact Below.placeAt moved (by omega)

end Below

theorem below_new (slotBytes capacitySlots : Nat) : (SegmentArena.new slotBytes capacitySlots).Below := by
  intro x hx
  exact absurd hx notMem_empty

structure Noted (a : SegmentArena) (hash : Flat) (a' : SegmentArena) : Prop where
  consistent : a'.Consistent
  others : ∀ x, x ≠ hash → a'.byHash.lookup x = a.byHash.lookup x
  kept : ∀ p, a.byHash.lookup hash = some p → a'.byHash.lookup hash = some p
  placed : a.Below → hash ∈ a'.byHash
  below : a.Below → a.nextSeg + 1 < 2 ^ 64 → a'.Below

structure Relaid (a a' : SegmentArena) : Prop where
  consistent : a'.Consistent
  same : a'.byHash = a.byHash
  below : a.Below → a.nextSeg + 1 < 2 ^ 64 → a'.Below

theorem Consistent.noted (h : a.Consistent) (hash : Flat) :
    Noted a hash (if (a.placement hash).isNone then (a.alloc hash).1 else a) := by
  cases found : a.placement hash with
  | some p =>
    refine ⟨h, fun _ _ => rfl, fun _ => id, fun _ => mem_of_lookup_eq_some found, fun below _ => below⟩
  | none =>
    have fresh : hash ∉ a.byHash := lookup_eq_none.mp found
    rw [if_pos isNone_none]
    refine ⟨h.alloc hash, ?_, ?_, fun below => h.mem_alloc below fresh, Below.alloc⟩
    · intro x ne
      rcases a.alloc_outcome hash with same | ⟨-, p, -, placed⟩
      · rw [same]
      · rw [placed, lookup_insert_of_ne _ ne]
    · intro p placed
      rw [placement, placed] at found
      cases found

section

variable (h : Noted a hash a')
include h

theorem Noted.mem_cases (mem : x ∈ a'.byHash) : x = hash ∨ x ∈ a.byHash := by
  by_cases same : x = hash
  · exact .inl same
  · obtain ⟨p, found⟩ := mem_iff.mp mem
    rw [h.others x same] at found
    exact .inr (mem_of_lookup_eq_some found)

theorem Noted.mem_of_mem (mem : x ∈ a.byHash) : x ∈ a'.byHash := by
  obtain ⟨p, found⟩ := mem_iff.mp mem
  by_cases same : x = hash
  · exact mem_of_lookup_eq_some (same ▸ h.kept p (same ▸ found))
  · rw [← h.others x same] at found
    exact mem_of_lookup_eq_some found

theorem Noted.forgotten (fresh : hash ∉ a.byHash) : Relaid a (a'.free hash).1 := by
  refine ⟨h.consistent.free hash, ?_, fun below room => (h.below below room).free hash⟩
  rw [byHash_free]
  apply ext_lookup
  intro x
  rw [lookup_erase_if]
  split
  next same => rw [same, lookup_eq_none.mpr fresh]
  next ne => exact h.others x ne

end

theorem Relaid.free (h : Relaid a a') (absent : hash ∉ a.byHash) : Relaid a (a'.free hash).1 := by
  refine ⟨h.consistent.free hash, ?_, fun below room => (h.below below room).free hash⟩
  rw [byHash_free, h.same]
  exact erase_of_notMem absent

end SegmentArena

end LakeKv
