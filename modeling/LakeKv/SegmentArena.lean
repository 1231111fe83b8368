import LakeKv.Wire

namespace LakeKv

open Finmap List

def u64 (n : Nat) : Nat :=
  n % 2 ^ 64

theorem u64_of_lt {n : Nat} (h : n < 2 ^ 64) : u64 n = n :=
  Nat.mod_eq_of_lt h

structure Placement where
  segmentId : Nat
  offset : Nat
  deriving DecidableEq, Repr

structure Relocate where
  hash : Flat
  source : Placement
  target : Placement
  deriving DecidableEq, Repr

/-- `SegmentArena`: where the L2 blocks lie. A segment is its slots, each free or with one block. -/
structure SegmentArena where
  slotBytes : Nat
  capacitySlots : Nat
  segments : Map Nat (List (Option Flat))
  nextSeg : Nat
  byHash : Map Flat Placement
  slot_pos : 0 < slotBytes
  capacity_pos : 0 < capacitySlots

def defaultSlotBytes : Nat := 4096

namespace SegmentArena

def new (slotBytes capacitySlots : Nat) : SegmentArena where
  slotBytes := if slotBytes = 0 then defaultSlotBytes else slotBytes
  capacitySlots := max capacitySlots 1
  segments := ∅
  nextSeg := 1
  byHash := ∅
  slot_pos := by
    split
    · decide
    · omega
  capacity_pos := by omega

def placement (a : SegmentArena) (hash : Flat) : Option Placement :=
  a.byHash.lookup hash

def slots (a : SegmentArena) (segmentId : Nat) : List (Option Flat) :=
  (a.segments.lookup segmentId).getD []

def firstFree (slots : List (Option Flat)) : Option Nat :=
  slots.findIdx? Option.isNone

def ensureSeg (a : SegmentArena) (segmentId : Nat) : SegmentArena :=
  { a with
    segments := if segmentId ∈ a.segments then a.segments
      else a.segments.insert segmentId (List.replicate a.capacitySlots none)
    nextSeg := if a.nextSeg ≤ segmentId then u64 (segmentId + 1) else a.nextSeg }

def setSlot (a : SegmentArena) (segmentId idx : Nat) (slot : Option Flat) : SegmentArena :=
  { a with segments := a.segments.insert segmentId ((a.slots segmentId).set idx slot) }

/-- `place_at`; the segment is made before the slot is looked at. -/
def placeAt (a : SegmentArena) (hash : Flat) (segmentId offset : Nat) :
    SegmentArena × Except String Placement :=
  if hash ∈ a.byHash then (a, .error "place_at: hash already placed")
  else if offset % a.slotBytes ≠ 0 then (a, .error "place_at: offset not slot-aligned")
  else
    match ((a.ensureSeg segmentId).slots segmentId)[offset / a.slotBytes]? with
    | none => (a.ensureSeg segmentId, .error "place_at: offset beyond segment capacity")
    | some (some _) => (a.ensureSeg segmentId, .error "place_at: slot occupied")
    | some none =>
      ({ (a.ensureSeg segmentId).setSlot segmentId (offset / a.slotBytes) (some hash) with
          byHash := a.byHash.insert hash ⟨segmentId, offset⟩ }, .ok ⟨segmentId, offset⟩)

def freeSlot (a : SegmentArena) : Option (Nat × Nat) :=
  a.segments.keys.ascending.findSome? fun id => (firstFree (a.slots id)).map fun idx => (id, idx)

def alloc (a : SegmentArena) (hash : Flat) : SegmentArena × Except String Placement :=
  if hash ∈ a.byHash then (a, .error "segment alloc: hash already placed")
  else
    match a.freeSlot with
    | some (id, idx) => a.placeAt hash id (u64 (idx * a.slotBytes))
    | none => ({ a with nextSeg := u64 (a.nextSeg + 1) }.ensureSeg a.nextSeg).placeAt hash a.nextSeg 0

def free (a : SegmentArena) (hash : Flat) : SegmentArena × Bool :=
  match a.byHash.lookup hash with
  | none => (a, false)
  | some p =>
    ({ a with
        segments := if p.segmentId ∈ a.segments
          then a.segments.insert p.segmentId ((a.slots p.segmentId).set (p.offset / a.slotBytes) none)
          else a.segments
        byHash := a.byHash.erase hash }, true)

/-- The loop of `compact`: the live blocks of a segment, put one after another from slot `i` on. -/
def packFrom (slotBytes segmentId : Nat) :
    Nat → List Flat → Map Flat Placement → Map Flat Placement × List Relocate
  | _, [], byHash => (byHash, [])
  | i, hash :: live, byHash =>
    ((packFrom slotBytes segmentId (i + 1) live
        (byHash.insert hash ⟨segmentId, u64 (i * slotBytes)⟩)).1,
      (if (byHash.lookup hash).getD ⟨segmentId, 0⟩ = ⟨segmentId, u64 (i * slotBytes)⟩ then []
        else [⟨hash, (byHash.lookup hash).getD ⟨segmentId, 0⟩, ⟨segmentId, u64 (i * slotBytes)⟩⟩]) ++
      (packFrom slotBytes segmentId (i + 1) live
        (byHash.insert hash ⟨segmentId, u64 (i * slotBytes)⟩)).2)

def live (a : SegmentArena) (segmentId : Nat) : List Flat :=
  (a.slots segmentId).filterMap id

def compact (a : SegmentArena) (segmentId : Nat) : SegmentArena × Except String (List Relocate) :=
  if segmentId ∈ a.segments then
    ({ a with
        segments := a.segments.insert segmentId ((a.live segmentId).map some ++
          List.replicate ((a.slots segmentId).length - (a.live segmentId).length) none)
        byHash := (packFrom a.slotBytes segmentId 0 (a.live segmentId) a.byHash).1 },
      .ok (packFrom a.slotBytes segmentId 0 (a.live segmentId) a.byHash).2)
  else (a, .error s!"compact: unknown segment {segmentId}")

/-- `relocate`; when the destination is refused, the block is put back. -/
def relocate (a : SegmentArena) (hash : Flat) (destSegment destOffset : Nat) :
    SegmentArena × Except String Relocate :=
  match a.placement hash with
  | none => (a, .error "relocate: unknown hash")
  | some source =>
    if source.segmentId = destSegment ∧ source.offset = destOffset then (a, .ok ⟨hash, source, source⟩)
    else
      match (a.free hash).1.placeAt hash destSegment destOffset with
      | (a', .ok target) => (a', .ok ⟨hash, source, target⟩)
      | (a', .error e) => ((a'.placeAt hash source.segmentId source.offset).1, .error e)

def hashesInSegment (a : SegmentArena) (segmentId : Nat) : Finset Flat :=
  a.byHash.keys.filter fun hash => (a.placement hash).map Placement.segmentId = some segmentId

def occupant (a : SegmentArena) (segmentId idx : Nat) : Option Flat :=
  ((a.slots segmentId)[idx]?).join

structure Paired (a : SegmentArena) : Prop where
  size : ∀ id ∈ a.segments, (a.slots id).length = a.capacitySlots
  placed : ∀ hash p, a.byHash.lookup hash = some p ↔
    ∃ i, p.offset = i * a.slotBytes ∧ a.occupant p.segmentId i = some hash

/-- Slots and placements tell the same, and every offset of a segment is a 64-bit number. -/
structure Consistent (a : SegmentArena) : Prop where
  fits : a.capacitySlots * a.slotBytes ≤ 2 ^ 64
  size : ∀ id ∈ a.segments, (a.slots id).length = a.capacitySlots
  placed : ∀ hash p, a.byHash.lookup hash = some p ↔
    ∃ i, p.offset = i * a.slotBytes ∧ a.occupant p.segmentId i = some hash

def Below (a : SegmentArena) : Prop :=
  ∀ id ∈ a.segments, id < a.nextSeg

variable {a b : SegmentArena} {hash other : Flat} {id idx i offset : Nat} {p : Placement}

theorem slots_insert (segments : Map Nat (List (Option Flat))) (id x : Nat) (seg : List (Option Flat)) :
    (((segments.insert id seg).lookup x).getD []) = if x = id then seg else (segments.lookup x).getD [] := by
  rw [lookup_insert_if]
  split <;> rfl

theorem slots_of_notMem (h : id ∉ a.segments) : a.slots id = [] := by
  rw [slots, lookup_eq_none.mpr h]
  rfl

theorem lt_of_occupant (h : a.occupant id i = some hash) : i < (a.slots id).length := by
  by_contra out
  rw [occupant, getElem?_eq_none (by omega)] at h
  cases h

theorem mem_of_occupant (h : a.occupant id i = some hash) : id ∈ a.segments := by
  by_contra out
  rw [occupant, slots_of_notMem out] at h
  cases h

theorem slots_ensureSeg (a : SegmentArena) (id x : Nat) : (a.ensureSeg id).slots x =
      if x = id ∧ id ∉ a.segments then List.replicate a.capacitySlots none else a.slots x := by
  unfold ensureSeg slots
  dsimp only
  by_cases known : id ∈ a.segments
  · rw [if_pos known, if_neg (by tauto)]
  rw [if_neg known, slots_insert]
  by_cases same : x = id
  · rw [if_pos same, if_pos ⟨same, known⟩]
  · rw [if_neg same, if_neg (by tauto)]

theorem occupant_ensureSeg (a : SegmentArena) (id x i : Nat) : (a.ensureSeg id).occupant x i = a.occupant x i := by
  rw [occupant, slots_ensureSeg]
  split
  next h =>
    rw [occupant, h.1, slots_of_notMem h.2, getElem?_replicate]
    split <;> rfl
  · rfl

theorem mem_ensureSeg {x : Nat} : x ∈ (a.ensureSeg id).segments ↔ x = id ∨ x ∈ a.segments := by
  unfold ensureSeg
  dsimp only
  split
  next known =>
    constructor
    · exact Or.inr
    · rintro (rfl | h)
      · exact known
      · exact h
  · exact mem_insert

variable (a)

theorem slots_setSlot (id idx x : Nat) (slot : Option Flat) :
    (a.setSlot id idx slot).slots x = if x = id then (a.slots id).set idx slot else a.slots x :=
  slots_insert a.segments id x _

theorem occupant_setSlot (id idx x i : Nat) (slot : Option Flat)
    (inside : idx < (a.slots id).length) :
    (a.setSlot id idx slot).occupant x i = if x = id ∧ i = idx then slot else a.occupant x i := by
  rw [occupant, slots_setSlot]
  by_cases same : x = id
  · subst same
    rw [if_pos rfl]
    by_cases here : i = idx
    · subst here
      rw [if_pos ⟨rfl, rfl⟩, getElem?_set_self inside]
      rfl
    · rw [if_neg (by tauto), getElem?_set_ne (Ne.symm here)]
      rfl
  · rw [if_neg same, if_neg (by tauto)]
    rfl

theorem placeAt_outcome (hash : Flat) (id offset : Nat) :
    (∃ e, (a.placeAt hash id offset).2 = .error e ∧ (a.placeAt hash id offset).1.byHash = a.byHash) ∨
      ((a.placeAt hash id offset).2 = .ok ⟨id, offset⟩ ∧ hash ∉ a.byHash ∧
        (a.placeAt hash id offset).1.byHash = a.byHash.insert hash ⟨id, offset⟩) := by
  fun_cases placeAt a hash id offset
  case case5 fresh _ _ => exact .inr ⟨rfl, fresh, rfl⟩
  all_goals exact .inl ⟨_, rfl, rfl⟩

theorem alloc_outcome (hash : Flat) : (a.alloc hash).1.byHash = a.byHash ∨
      (hash ∉ a.byHash ∧ ∃ p, p.offset < 2 ^ 64 ∧ (a.alloc hash).1.byHash = a.byHash.insert hash p) := by
  have place : ∀ (b : SegmentArena) {id offset : Nat}, offset < 2 ^ 64 →
      (b.placeAt hash id offset).1.byHash = b.byHash ∨ (hash ∉ b.byHash ∧
        ∃ p, p.offset < 2 ^ 64 ∧ (b.placeAt hash id offset).1.byHash = b.byHash.insert hash p) := by
    intro b id offset room
    rcases b.placeAt_outcome hash id offset with ⟨e, -, refused⟩ | ⟨-, fresh, placed⟩
    · exact .inl refused
    · exact .inr ⟨fresh, _, room, placed⟩
  fun_cases alloc a hash
  case case1 => exact .inl rfl
  case case2 => exact place a (Nat.mod_lt _ (by decide))
  case case3 => exact place (ensureSeg { a with nextSeg := u64 (a.nextSeg + 1) } a.nextSeg) (by decide)

theorem byHash_free (hash : Flat) : (a.free hash).1.byHash = a.byHash.erase hash := by
  fun_cases free a hash
  case case1 absent => exact (erase_of_notMem (lookup_eq_none.mp absent)).symm
  case case2 => rfl

variable {a}

namespace Paired

section

variable (h : a.Paired)
include h

theorem ensureSeg (id : Nat) : (a.ensureSeg id).Paired := by
  refine ⟨?_, ?_⟩
  · intro x hx
    rw [slots_ensureSeg]
    split
    · exact length_replicate
    next known =>
      refine h.size x ?_
      rcases mem_ensureSeg.mp hx with rfl | hx
      · by_contra fresh
        exact known ⟨rfl, fresh⟩
      · exact hx
  · intro hash p
    simp only [occupant_ensureSeg]
    exact h.placed hash p

theorem length_slots_ensureSeg (id : Nat) : ((a.ensureSeg id).slots id).length = a.capacitySlots :=
  (h.ensureSeg id).size id (mem_ensureSeg.mpr (Or.inl rfl))

theorem lookup_of_occupant (at_ : a.occupant id i = some hash) : a.byHash.lookup hash = some ⟨id, i * a.slotBytes⟩ :=
  (h.placed hash _).mpr ⟨i, rfl, at_⟩

theorem occupant_of_lookup (found : a.byHash.lookup hash = some p) :
    p.offset % a.slotBytes = 0 ∧ a.occupant p.segmentId (p.offset / a.slotBytes) = some hash := by
  obtain ⟨i, offset, there⟩ := (h.placed hash p).mp found
  rw [offset, Nat.mul_mod_left, Nat.mul_div_cancel i a.slot_pos]
  exact ⟨rfl, there⟩

theorem size_setSlot (known : id ∈ a.segments) (idx : Nat) (slot : Option Flat) :
    ∀ x ∈ (a.setSlot id idx slot).segments, ((a.setSlot id idx slot).slots x).length = a.capacitySlots := by
  intro x hx
  rw [slots_setSlot]
  by_cases same : x = id
  · rw [if_pos same, length_set]
    exact h.size id known
  rw [if_neg same]
  refine h.size x ?_
  rcases mem_insert.mp hx with hx | hx
  · exact absurd hx same
  · exact hx

theorem fill (fresh : hash ∉ a.byHash) (known : id ∈ a.segments)
    (inside : idx < (a.slots id).length) (vacant : a.occupant id idx = none) : ({ a.setSlot id idx (some hash) with
      byHash := a.byHash.insert hash ⟨id, idx * a.slotBytes⟩ } : SegmentArena).Paired := by
  refine ⟨h.size_setSlot known idx (some hash), ?_⟩
  intro other p
  have there : ∀ i, ({ a.setSlot id idx (some hash) with
      byHash := a.byHash.insert hash ⟨id, idx * a.slotBytes⟩ } : SegmentArena).occupant p.segmentId i =
      if p.segmentId = id ∧ i = idx then some hash else a.occupant p.segmentId i :=
    fun i => occupant_setSlot a id idx p.segmentId i (some hash) inside
  simp only [there]
  change (a.byHash.insert hash ⟨id, idx * a.slotBytes⟩).lookup other = some p ↔ _
  rw [lookup_insert_if]
  by_cases same : other = hash
  · subst same
    rw [if_pos rfl]
    constructor
    · intro eq
      cases eq
      exact ⟨idx, rfl, if_pos ⟨rfl, rfl⟩⟩
    · rintro ⟨i, offset, at_⟩
      split at at_
      next here =>
        obtain ⟨segment, slot⟩ := here
        have offset' : p.offset = i * a.slotBytes := offset
        rw [← segment, ← slot, ← offset']
      have := h.lookup_of_occupant at_
      exact absurd (mem_of_lookup_eq_some this) fresh
  · rw [if_neg same, h.placed other p]
    refine exists_congr fun i => and_congr_right fun _ => ?_
    split
    next here =>
      rw [here.1, here.2, vacant]
      constructor
      · intro none
        cases none
      · intro eq
        exact absurd (Option.some.inj eq).symm same
    · rfl

theorem clear (found : a.byHash.lookup hash = some p) :
    ({ a.setSlot p.segmentId (p.offset / a.slotBytes) none with byHash := a.byHash.erase hash } :
      SegmentArena).Paired := by
  obtain ⟨aligned, there⟩ := h.occupant_of_lookup found
  have inside := lt_of_occupant there
  refine ⟨h.size_setSlot (mem_of_occupant there) _ none, ?_⟩
  intro other q
  have cleared : ∀ i, ({ a.setSlot p.segmentId (p.offset / a.slotBytes) none with
      byHash := a.byHash.erase hash } : SegmentArena).occupant q.segmentId i =
      if q.segmentId = p.segmentId ∧ i = p.offset / a.slotBytes then none
      else a.occupant q.segmentId i :=
    fun i => occupant_setSlot a p.segmentId _ q.segmentId i none inside
  simp only [cleared]
  change (a.byHash.erase hash).lookup other = some q ↔ _
  rw [lookup_erase_if]
  by_cases same : other = hash
  · subst same
    rw [if_pos rfl]
    constructor
    · intro none
      cases none
    · rintro ⟨i, offset, at_⟩
      split at at_
      · cases at_
      next away =>
        -- the block is in one slot only
        have only := h.lookup_of_occupant at_
        rw [found] at only
        cases only
        exact absurd ⟨rfl, (Nat.mul_div_cancel i a.slot_pos).symm⟩ away
  · rw [if_neg same, h.placed other q]
    refine exists_congr fun i => and_congr_right fun _ => ?_
    split
    next here =>
      rw [here.1, here.2, there]
      constructor
      · intro eq
        exact absurd (Option.some.inj eq).symm same
      · intro none
        cases none
    · rfl

end

theorem new (slotBytes capacitySlots : Nat) : (SegmentArena.new slotBytes capacitySlots).Paired := by
  refine ⟨?_, ?_⟩
  · intro id known
    exact absurd known notMem_empty
  · intro hash p
    constructor
    · intro found
      cases found
    · rintro ⟨i, -, there⟩
      cases there

variable (h : a.Paired)
include h

theorem placeAt (hash : Flat) (id offset : Nat) : (a.placeAt hash id offset).1.Paired := by
  fun_cases SegmentArena.placeAt a hash id offset
  case case1 | case2 => exact h
  case case3 | case4 => exact h.ensureSeg id
  case case5 fresh aligned slot =>
    have inside := (List.getElem?_eq_some_iff.mp slot).1
    have vacant : (a.ensureSeg id).occupant id (offset / a.slotBytes) = none := by
      rw [occupant, slot]
      rfl
    have filled := (h.ensureSeg id).fill fresh (mem_ensureSeg.mpr (Or.inl rfl)) inside vacant
    have offset' : offset / a.slotBytes * (a.ensureSeg id).slotBytes = offset :=
      Nat.div_mul_cancel (Nat.dvd_of_mod_eq_zero (not_not.mp aligned))
    rw [offset'] at filled
    exact filled

theorem placeAt_ok (fresh : hash ∉ a.byHash) (inside : idx < a.capacitySlots) (vacant : a.occupant id idx = none) :
    (a.placeAt hash id (idx * a.slotBytes)).2 = .ok ⟨id, idx * a.slotBytes⟩ := by
  have slot : ((a.ensureSeg id).slots id)[idx]? = some none := by
    have bound := h.length_slots_ensureSeg id
    rw [← occupant_ensureSeg a id, occupant] at vacant
    rw [getElem?_eq_getElem (by omega)] at vacant ⊢
    exact congrArg some vacant
  unfold SegmentArena.placeAt
  rw [if_neg fresh, if_neg (not_not.mpr (Nat.mul_mod_left idx a.slotBytes)), Nat.mul_div_cancel idx a.slot_pos, slot]

theorem free (hash : Flat) : (a.free hash).1.Paired := by
  fun_cases SegmentArena.free a hash
  case case1 => exact h
  case case2 p found =>
    have there := (h.occupant_of_lookup found).2
    rw [if_pos (mem_of_occupant there)]
    exact h.clear found

end Paired

end SegmentArena

end LakeKv
