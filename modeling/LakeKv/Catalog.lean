import Mathlib.Tactic.Ring
import LakeKv.KeyedBlocks

namespace LakeKv

open Finset Saturating

structure BlockRecord where
  blockMeta : BlockMeta
  prefixChain : List Flat
  deriving DecidableEq, Repr

namespace ModelDescriptor

def key (m : ModelDescriptor) : NamespaceKey :=
  ⟨m.modelId, m.revision⟩

def Valid (m : ModelDescriptor) : Prop :=
  m.modelId.isEmpty = false ∧ m.quota.elim (.ok ()) validateQuota = .ok ()

instance decidableValid (m : ModelDescriptor) : Decidable m.Valid :=
  inferInstanceAs (Decidable (_ ∧ _))

theorem Valid.hardBytes_nonneg {m : ModelDescriptor} (h : m.Valid) : 0 ≤ (quotaOrDefault m.quota).hardBytes := by
  have hq := h.2
  cases hquota : m.quota with
  | none => simp [quotaOrDefault]
  | some q =>
    rw [hquota] at hq
    simp only [Option.elim_some, validateQuota] at hq
    split at hq
    · simp at hq
    next hneg =>
      simp only [quotaOrDefault, Option.getD_some]
      omega

theorem eq_of_identityEq {d m : ModelDescriptor} (h : descriptorIdentityEq d m = true) :
    { d with quota := m.quota } = m := by
  obtain ⟨_, _, _, _, _, _⟩ := d
  obtain ⟨_, _, _, _, _, _⟩ := m
  simp only [descriptorIdentityEq, Bool.and_eq_true, beq_iff_eq] at h
  obtain ⟨⟨⟨⟨rfl, rfl⟩, rfl⟩, rfl⟩, rfl⟩ := h
  rfl

end ModelDescriptor

def ImportRow.record (row : ImportRow) (id : KvBlockId) : BlockRecord :=
  ⟨{ row.blockMeta with locations := row.blockMeta.locations.map (fillNode row.nodeId) },
    chainAt row.chain id.blockHash⟩

/-- The models and the blocks of a pool, without what serves them: no references, no inactive lists,
no events. Each model is filed under its own key and each block belongs to a model. -/
structure Catalog where
  models : Map NamespaceKey ModelDescriptor
  blocks : Map BlockKey BlockRecord
  described : ∀ key m, models.lookup key = some m → m.key = key ∧ m.Valid
  homed : ∀ k ∈ blocks, k.ns ∈ models

namespace Catalog

def empty : Catalog where
  models := ∅
  blocks := ∅
  described key m h := by simp at h
  homed k h := absurd h Finmap.notMem_empty

def blocksOf (c : Catalog) (key : NamespaceKey) : Finset BlockKey :=
  c.blocks.keys.filter fun k => k.ns = key

def bytesFor (m : ModelDescriptor) (n : Nat) : Int :=
  min i64Max (m.bytesPerBlock * n)

def usage (c : Catalog) (m : ModelDescriptor) : Int :=
  bytesFor m (c.blocksOf m.key).card

def totalUsage (c : Catalog) : Int :=
  c.models.total c.usage

def AdmitsModel (c : Catalog) (m : ModelDescriptor) : Prop :=
  m.Valid ∧ (c.models.lookup m.key).all (descriptorIdentityEq · m) = true

instance decidableAdmitsModel (c : Catalog) (m : ModelDescriptor) : Decidable (c.AdmitsModel m) :=
  inferInstanceAs (Decidable (_ ∧ _))

/-- There is room for another block of a model: it is within the model's hard quota, and what the model
then borrows is free in a pool of `capacity` bytes. -/
def HasRoom (capacity : Int) (c : Catalog) (m : ModelDescriptor) : Prop :=
  let quota := quotaOrDefault m.quota
  let projected := bytesFor m ((c.blocksOf m.key).card + 1)
  (0 < quota.hardBytes → projected ≤ quota.hardBytes) ∧
    (0 < capacity → quota.borrowEnabled = true → 0 < quota.softBytes →
      projected - quota.softBytes ≤ max (capacity - c.totalUsage) 0)

instance decidableHasRoom (capacity : Int) (c : Catalog) (m : ModelDescriptor) :
    Decidable (c.HasRoom capacity m) :=
  inferInstanceAs (Decidable (_ ∧ _))

/-- A block may be entered if it has a location or is in L3, its model is there, and it is either entered
already or there is room for it. -/
def Admits (capacity : Int) (c : Catalog) (k : BlockKey) (m : BlockMeta) : Prop :=
  durableFirst m = true ∧ k.ns ∈ c.models ∧
    (c.models.lookup k.ns).all (fun d => decide (k ∈ c.blocks ∨ c.HasRoom capacity d)) = true

instance decidableAdmits (capacity : Int) (c : Catalog) (k : BlockKey) (m : BlockMeta) :
    Decidable (c.Admits capacity k m) :=
  inferInstanceAs (Decidable (_ ∧ _ ∧ _))

def addModel (c : Catalog) (m : ModelDescriptor) (h : m.Valid) : Catalog where
  models := c.models.insert m.key m
  blocks := c.blocks
  described key d hd := by
    rw [Finmap.lookup_insert_if] at hd
    split at hd
    next hk =>
      cases hd
      exact ⟨hk.symm, h⟩
    next => exact c.described key d hd
  homed k hk := Finmap.mem_insert.mpr (.inr (c.homed k hk))

def addBlock (c : Catalog) (k : BlockKey) (r : BlockRecord) (h : k.ns ∈ c.models) : Catalog where
  models := c.models
  blocks := c.blocks.insert k r
  described := c.described
  homed k' hk' := by
    rcases Finmap.mem_insert.mp hk' with rfl | hk'
    · exact h
    · exact c.homed k' hk'

section

variable (m : ModelDescriptor)
include m

variable (n : Nat)

theorem bytesFor_nonneg : 0 ≤ bytesFor m n := by
  have hb := m.bytesPerBlock_pos
  have hmul : 0 ≤ m.bytesPerBlock * n := mul_nonneg hb.le (by omega)
  simp only [bytesFor, i64Max]
  omega

theorem bytesFor_le : bytesFor m n ≤ i64Max :=
  min_le_left _ _

theorem satAdd_bytesFor : satAdd (bytesFor m n) m.bytesPerBlock = bytesFor m (n + 1) := by
  have hb := m.bytesPerBlock_pos
  have hmul : 0 ≤ m.bytesPerBlock * n := mul_nonneg hb.le (by omega)
  have hsucc : m.bytesPerBlock * (n + 1 : Nat) = m.bytesPerBlock * n + m.bytesPerBlock := by
    push_cast
    ring
  simp only [satAdd, clamp, bytesFor, hsucc, i64Max, i64Min]
  omega

end

theorem blocksOf_addBlock (c : Catalog) (k : BlockKey) (r : BlockRecord) (hk : k.ns ∈ c.models)
    (key : NamespaceKey) : ((c.addBlock k r hk).blocksOf key).card =
      (c.blocksOf key).card + if k.ns = key ∧ k ∉ c.blocks then 1 else 0 := by
  simp only [blocksOf, addBlock, Finmap.keys_insert, filter_insert]
  by_cases hns : k.ns = key
  · by_cases hin : k ∈ c.blocks
    · have hmem : k ∈ c.blocks.keys.filter fun k => k.ns = key :=
        mem_filter.mpr ⟨Finmap.mem_keys.mpr hin, hns⟩
      simp [hns, hin, insert_eq_of_mem hmem]
    · have hout : k ∉ c.blocks.keys.filter fun k => k.ns = key := fun hmem =>
        hin (Finmap.mem_keys.mp (mem_filter.mp hmem).1)
      simp [hns, hin, card_insert_of_notMem hout]
  · simp [hns]

def restoreModel (c : Catalog) (m : ModelDescriptor) : Option Catalog :=
  if h : c.AdmitsModel m then some (c.addModel m h.1) else none

def restoreRow (capacity : Int) (c : Catalog) (cb : CheckpointBlock) : Option Catalog :=
  match importRow cb with
  | .error _ => none
  | .ok none => some c
  | .ok (some row) => row.blockMeta.id.bind fun id =>
    if h : c.Admits capacity (View.keyOf id) row.blockMeta then
      some (c.addBlock (View.keyOf id) (row.record id) h.2.1)
    else none

/-- The catalogue of a snapshot's entries up to the first one that is refused, and whether none is. -/
def restore (capacity : Int) (snap : CheckpointSnapshot) : Catalog × Bool :=
  let models := takeSteps restoreModel empty snap.models
  if models.2 then takeSteps (restoreRow capacity) models.1 (Authority.importOrder snap.blocks) else models

def Accepts (capacity : Int) (snap : CheckpointSnapshot) : Prop :=
  (restore capacity snap).2 = true

instance decidableAccepts (capacity : Int) (snap : CheckpointSnapshot) : Decidable (Accepts capacity snap) :=
  inferInstanceAs (Decidable (_ = _))

end Catalog

end LakeKv
