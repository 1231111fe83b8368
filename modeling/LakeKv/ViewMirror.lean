import LakeKv.Checkpoint

namespace LakeKv

open Finmap Function List

structure MirrorNsKey where
  modelId : String
  revision : String
  poolKind : Int
  deriving DecidableEq, Repr

structure MirrorEntry where
  locations : List Location
  l3Present : Bool
  blockKind : Int
  deriving DecidableEq, Repr

structure ViewMirror where
  lastSeq : Nat
  blocks : Map MirrorNsKey (Map Flat MirrorEntry)

structure ViewGapError where
  want : Nat
  got : Nat
  deriving DecidableEq, Repr

def mirrorKeyOf (id : KvBlockId) : MirrorNsKey :=
  ⟨id.modelId, id.revision, id.poolKind⟩

namespace ViewMirror

def new : ViewMirror := ⟨0, ∅⟩

def upsertLocked (m : ViewMirror) (ev : ViewEvent) : ViewMirror :=
  match ev.id with
  | none => m
  | some id =>
    let pool := (m.blocks.lookup (mirrorKeyOf id)).getD ∅
    let old := (pool.lookup id.blockHash).getD ⟨[], false, 0⟩
    let entry : MirrorEntry :=
      ⟨ev.locations, ev.l3Present, if ev.kind = .registered then ev.blockKind else old.blockKind⟩
    { m with blocks := m.blocks.insert (mirrorKeyOf id) (pool.insert id.blockHash entry) }

def deleteLocked (m : ViewMirror) (id : Option KvBlockId) : ViewMirror :=
  match id with
  | none => m
  | some id =>
    match m.blocks.lookup (mirrorKeyOf id) with
    | none => m
    | some pool =>
      let pool' := pool.erase id.blockHash
      { m with blocks :=
          if pool'.keys = ∅ then m.blocks.erase (mirrorKeyOf id)
          else m.blocks.insert (mirrorKeyOf id) pool' }

def applyEvent (m : ViewMirror) (ev : ViewEvent) : ViewMirror :=
  if ev.kind = .invalidated then m.deleteLocked ev.id else m.upsertLocked ev

def applyEvents (m : ViewMirror) (events : List ViewEvent) : ViewMirror :=
  events.foldl applyEvent m

def apply (m : ViewMirror) (u : ViewUpdate) : Except ViewGapError ViewMirror :=
  if u.seq = 0 then .ok (u.events.foldl upsertLocked ⟨0, ∅⟩)
  else if u.events = [] then .ok (if m.lastSeq < u.seq then { m with lastSeq := u.seq } else m)
  else if u.seq ≤ m.lastSeq then .ok m
  else if u.seq ≠ m.lastSeq + 1 then .error ⟨m.lastSeq + 1, u.seq⟩
  else .ok ({ m with lastSeq := u.seq }.applyEvents u.events)

end ViewMirror

abbrev BlockView := List Location × Bool

abbrev View := BlockKey → Option BlockView

namespace View

def keyOf (id : KvBlockId) : BlockKey :=
  ⟨id.modelId, id.revision, id.poolKind, id.blockHash⟩

def empty : View := fun _ => none

def applyEvent (v : View) (ev : ViewEvent) : View :=
  match ev.id with
  | none => v
  | some id => Function.update v (keyOf id)
      (if ev.kind = .invalidated then none else some (ev.locations, ev.l3Present))

def applyEvents (v : View) (events : List ViewEvent) : View :=
  events.foldl applyEvent v

theorem applyEvents_append (v : View) (es fs : List ViewEvent) :
    v.applyEvents (es ++ fs) = (v.applyEvents es).applyEvents fs :=
  foldl_append

end View

def ViewMirror.view (m : ViewMirror) : View := fun k =>
  (((m.blocks.lookup ⟨k.modelId, k.revision, k.poolKind⟩).bind fun pool => pool.lookup k.flat).map
    fun e => (e.locations, e.l3Present))

def Authority.view {B : Backend} (a : Authority B) : View := fun k =>
  (a.block? k).map fun e => (e.blockMeta.locations, e.blockMeta.l3Present)

namespace ViewMirror

theorem view_new : new.view = View.empty := by
  funext k
  simp [view, new, View.empty]

variable (m : ViewMirror)
include m

theorem view_upsertLocked {ev : ViewEvent} {id : KvBlockId} (h : ev.id = some id) :
    (m.upsertLocked ev).view = Function.update m.view (View.keyOf id) (some (ev.locations, ev.l3Present)) := by
  funext k
  obtain ⟨km, kr, kp, kf⟩ := k
  simp only [upsertLocked, h, view, lookup_insert_if, update_apply, View.keyOf,
    mirrorKeyOf, BlockKey.mk.injEq, MirrorNsKey.mk.injEq]
  by_cases hns : km = id.modelId ∧ kr = id.revision ∧ kp = id.poolKind
  · obtain ⟨rfl, rfl, rfl⟩ := hns
    by_cases hf : kf = id.blockHash
    · simp [hf, lookup_insert_if]
    · cases hp : m.blocks.lookup ⟨id.modelId, id.revision, id.poolKind⟩ <;> simp [hf]
  · rw [if_neg hns, if_neg fun hk => hns ⟨hk.1, hk.2.1, hk.2.2.1⟩]

theorem view_deleteLocked (id : KvBlockId) :
    (m.deleteLocked (some id)).view = Function.update m.view (View.keyOf id) none := by
  funext k
  obtain ⟨km, kr, kp, kf⟩ := k
  rw [update_apply]
  simp only [deleteLocked, View.keyOf, BlockKey.mk.injEq]
  by_cases hns : km = id.modelId ∧ kr = id.revision ∧ kp = id.poolKind
  · obtain ⟨rfl, rfl, rfl⟩ := hns
    cases hp : m.blocks.lookup (mirrorKeyOf id) with
    | none => simp [view, show m.blocks.lookup ⟨id.modelId, id.revision, id.poolKind⟩ = none from hp]
    | some pool =>
      have hp' : m.blocks.lookup ⟨id.modelId, id.revision, id.poolKind⟩ = some pool := hp
      by_cases he : (pool.erase id.blockHash).keys = ∅
      · -- The last block of the pool: nothing else was there.
        have hnone : (pool.erase id.blockHash).lookup kf = none := by
          rw [lookup_eq_none, ← Finmap.mem_keys, he]
          simp
        rw [lookup_erase_if] at hnone
        simp only [he, ↓reduceIte, view, hp', lookup_erase_if, mirrorKeyOf]
        by_cases hf : kf = id.blockHash
        · simp [hf]
        · simp [hf] at hnone
          simp [hf, hnone]
      · simp only [he, ↓reduceIte, view, hp', lookup_insert_if, mirrorKeyOf]
        by_cases hf : kf = id.blockHash <;> simp [hf, lookup_erase_if]
  · rw [if_neg fun hk => hns ⟨hk.1, hk.2.1, hk.2.2.1⟩]
    cases hp : m.blocks.lookup (mirrorKeyOf id) with
    | none => rfl
    | some pool =>
      have hne : (⟨km, kr, kp⟩ : MirrorNsKey) ≠ mirrorKeyOf id := by
        intro h
        simp only [mirrorKeyOf, MirrorNsKey.mk.injEq] at h
        exact hns h
      simp only [view]
      split
      · rw [lookup_erase_ne hne]
      · rw [lookup_insert_of_ne _ hne]

theorem view_applyEvent (ev : ViewEvent) : (m.applyEvent ev).view = m.view.applyEvent ev := by
  unfold applyEvent View.applyEvent
  cases hid : ev.id with
  | none => split <;> simp [deleteLocked, upsertLocked, hid]
  | some id =>
    split
    · exact view_deleteLocked m id
    · exact view_upsertLocked m hid

theorem view_applyEvents (events : List ViewEvent) : (m.applyEvents events).view = m.view.applyEvents events := by
  induction events generalizing m with
  | nil => rfl
  | cons ev evs ih =>
    have hstep := ih (m.applyEvent ev)
    rw [view_applyEvent] at hstep
    exact hstep

end ViewMirror

end LakeKv
