import Mathlib.Tactic.Positivity
import Mathlib.Tactic.Ring
import LakeKv.BlockCounts

namespace LakeKv

open Finmap List Namespace PoolView Saturating

variable {B : Backend}

variable {ns : Namespace B}

namespace Namespace

def blockSet (ns : Namespace B) : Finset (Int × Flat) :=
  ns.pools.keys.biUnion fun pk =>
    (((ns.pools.lookup pk).map fun p : PoolView B => p.byFlat.keys).getD ∅).image fun f => (pk, f)

theorem mem_blockSet {pk : Int} {f : Flat} :
    (pk, f) ∈ ns.blockSet ↔ ∃ p, ns.pools.lookup pk = some p ∧ f ∈ p.byFlat := by
  simp only [blockSet, Finset.mem_biUnion, Finset.mem_image, Prod.mk.injEq]
  constructor
  · rintro ⟨pk', -, f', hf, rfl, rfl⟩
    cases hp : ns.pools.lookup pk' with
    | none => simp [hp] at hf
    | some p => exact ⟨p, rfl, Finmap.mem_keys.mp (by simpa [hp] using hf)⟩
  · rintro ⟨p, hp, hf⟩
    refine ⟨pk, Finmap.mem_keys.mpr (mem_of_lookup_eq_some hp), f, ?_, rfl, rfl⟩
    simpa [hp] using Finmap.mem_keys.mpr hf

theorem card_blockSet (ns : Namespace B) : ns.blockSet.card = ns.blockCount := by
  rw [blockSet, Finset.card_biUnion]
  · refine Finset.sum_congr rfl fun pk _ => ?_
    rw [Finset.card_image_of_injective _ fun f g h => (Prod.mk.inj h).2]
    cases ns.pools.lookup pk <;> simp
  · intro pk _ pk' _ hne
    rw [Function.onFun, Finset.disjoint_left]
    rintro ⟨k, f⟩ h h'
    obtain ⟨_, -, he⟩ := Finset.mem_image.mp h
    obtain ⟨_, -, he'⟩ := Finset.mem_image.mp h'
    cases he
    cases he'
    exact hne rfl

end Namespace

namespace Authority

variable {a : Authority B}

/-- The bytes a call adds up fit an `i64`: those of the namespace with the blocks of the batch, or
those of a snapshot's rows. -/
def BytesFit (a : Authority B) : Op → Prop
  | .register _ chain metas => ∀ key pk ns, checkBatch chain metas = .ok (key, pk) →
    a.namespaces.lookup key = some ns →
      ns.bytesPerBlock * (ns.blockCount + (batchIds metas).length : Nat) ≤ i64Max
  | .importSnapshot snap => ∀ m ∈ snap.models, m.bytesPerBlock * snap.blocks.length ≤ i64Max
  | _ => True

def BlocksWithin (a : Authority B) (op : Op) (key : NamespaceKey) (ns : Namespace B) : Prop :=
  ∀ pk f, (pk, f) ∈ ns.blockSet →
    (op.replaces = false ∧ ∃ ns₀, a.namespaces.lookup key = some ns₀ ∧ (pk, f) ∈ ns₀.blockSet) ∨
    ∃ c, op.Registers ⟨key.modelId, key.revision, pk, f⟩ c

def SizeWithin (a : Authority B) (op : Op) (key : NamespaceKey) (ns : Namespace B) : Prop :=
  (op.replaces = false ∧ ∃ ns₀, a.namespaces.lookup key = some ns₀ ∧
    ns.bytesPerBlock = ns₀.bytesPerBlock) ∨
  (∃ desc, op = .registerModel desc) ∨
  ∃ snap, op = .importSnapshot snap ∧ ∃ m ∈ snap.models, ns.bytesPerBlock = m.bytesPerBlock

variable {op : Op} {key : NamespaceKey} {act : NsAction B}

theorem blockCount_le_of_within (n : Nat)
    (hbefore : op.replaces = false → ∀ ns₀, a.namespaces.lookup key = some ns₀ → ns₀.blockCount ≤ n)
    (h : BlocksWithin a op key ns) : ns.blockCount ≤ n + op.ids.length := by
  let old : Finset (Int × Flat) :=
    if op.replaces then ∅ else ((a.namespaces.lookup key).map blockSet).getD ∅
  let new : Finset (Int × Flat) :=
    (op.ids.map fun id => ((BlockKey.fromId id).poolKind, id.blockHash)).toFinset
  have hsub : ns.blockSet ⊆ old ∪ new := by
    rintro ⟨pk, f⟩ hm
    rcases h pk f hm with ⟨hop, ns₀, hns₀, hm₀⟩ | ⟨c, hc⟩
    · exact Finset.mem_union_left _ (by simpa [old, hop, hns₀] using hm₀)
    obtain ⟨id, hid, hk⟩ := hc.mem_ids
    refine Finset.mem_union_right _ (mem_toFinset.mpr (mem_map.mpr ⟨id, hid, ?_⟩))
    rw [← hk]
    have hf : f = id.blockHash := congrArg BlockKey.flat hk
    simp [hf]
  have hold : old.card ≤ n := by
    cases hop : op.replaces with
    | true => simp [old, hop]
    | false =>
      cases hns : a.namespaces.lookup key with
      | none => simp [old, hop, hns]
      | some ns₀ => simpa [old, hop, hns, card_blockSet] using hbefore hop ns₀ hns
  have hnew : new.card ≤ op.ids.length := by
    refine (toFinset_card_le _).trans ?_
    simp
  have hcard := Finset.card_le_card hsub
  have hunion := Finset.card_union_le old new
  rw [card_blockSet] at hcard
  omega

/-- The usage of a namespace is that of its blocks, and it fits an `i64`. -/
structure UsageExact (ns : Namespace B) : Prop where
  bytes : ns.usedBytes = ns.bytesPerBlock * ns.blockCount
  fits : ns.bytesPerBlock * ns.blockCount ≤ i64Max

/-- What one call keeps of a namespace while it runs. -/
structure Accounted (S : Set (List Flat)) (a : Authority B) (op : Op) (key : NamespaceKey)
    (ns : Namespace B) : Prop where
  pools : ∀ pk p, ns.pools.lookup pk = some p → Indexed S key pk p ∧ ChainsFit op key pk p
  exact_ : UsageExact ns
  blocks : BlocksWithin a op key ns
  size : SizeWithin a op key ns

theorem bytesPerBlock_pos (ns : Namespace B) : 0 < ns.bytesPerBlock :=
  ns.descriptor.bytesPerBlock_pos

/-- A usage that fits stays exact when blocks are paid back, and no sum wraps. -/
theorem max_sub_eq {used bpb : Int} {count removed left : Nat} (h : used = bpb * count) (hfit : bpb * count ≤ i64Max)
    (hc : left + removed = count) (hb : 0 < bpb) :
    max (i64 (used - removed * bpb)) 0 = bpb * left ∧ bpb * left ≤ i64Max := by
  have hsplit : used - removed * bpb = bpb * left := by
    rw [h, ← hc]
    push_cast
    ring
  have hpos : 0 ≤ bpb * left := by positivity
  have hle : bpb * left ≤ i64Max := (mul_le_mul_of_nonneg_left (by omega) hb.le).trans hfit
  rw [hsplit, i64_eq ((by decide : i64Min ≤ 0).trans hpos) hle]
  exact ⟨max_eq_left hpos, hle⟩

theorem foldl_max_sub_eq {ι : Type} {bpb : Int} (hb : 0 < bpb) (xs : List ι) {used : Int} {left : Nat}
    (h : used = bpb * (left + xs.length : Nat)) (hfit : bpb * (left + xs.length : Nat) ≤ i64Max) :
    xs.foldl (fun used _ => max (i64 (used - bpb)) 0) used = bpb * left ∧ bpb * left ≤ i64Max := by
  induction xs generalizing used with
  | nil => exact ⟨h, hfit⟩
  | cons x xs ih =>
    have hone := max_sub_eq h hfit (rfl : left + xs.length + 1 = _) hb
    rw [Nat.cast_one, one_mul] at hone
    exact ih hone.1 hone.2

theorem BlocksWithin.apply (hB : B.Lawful) (allowed : op.May key act) (guard : act.Guard key ns)
    (h : BlocksWithin a op key ns) : BlocksWithin a op key (act.apply ns) := by
  have hpools := nsAction_pools (I := fun k pk p => k = key → ∀ f, f ∈ p.byFlat →
    (op.replaces = false ∧ ∃ ns₀, a.namespaces.lookup key = some ns₀ ∧ (pk, f) ∈ ns₀.blockSet) ∨
    ∃ c, op.Registers ⟨key.modelId, key.revision, pk, f⟩ c)
    (fun k pk cap _ f hf => by simp [PoolView.new, notMem_empty] at hf) ?_ allowed guard
    (fun pk p hp _ f hf => h pk f (mem_blockSet.mpr ⟨p, hp, hf⟩))
  · intro pk f hm
    obtain ⟨p, hp, hf⟩ := mem_blockSet.mp hm
    exact hpools pk p hp rfl f hf
  · rintro k pk p act hmay hguard hp rfl f hf
    by_cases hreg : ∃ b, act = .register b
    · obtain ⟨b, rfl⟩ := hreg
      rw [PoolAction.apply, registerPlaced, registerBlock, mem_insert] at hf
      rcases hf with rfl | hf
      · exact .inr ⟨_, poolMay_registers hmay⟩
      · exact hp rfl f hf
    · obtain ⟨e', he'⟩ := mem_iff.mp hf
      obtain ⟨e, he, -⟩ := shrinks_apply hB hguard (fun b hb => hreg ⟨b, hb⟩) f e' he'
      exact hp rfl f (mem_of_lookup_eq_some he)

theorem bytesPerBlock_apply (act : NsAction B) (ns : Namespace B) : (act.apply ns).bytesPerBlock = ns.bytesPerBlock := by
  cases act with
  | evictInactive n =>
    rw [NsAction.apply, bytesPerBlock, ns.descriptor_evictInactiveN, bytesPerBlock]
  | _ => rfl

theorem usageExact_evictInactiveN (hB : B.Lawful) (n : Nat)
    (hok : ∀ pk p, ns.pools.lookup pk = some p → p.IndexOk) (h : UsageExact ns) :
    UsageExact (ns.evictInactiveN n).1 := by
  have hcount := ns.blockCount_evictInactiveN hB n hok
  have hbpb : (ns.evictInactiveN n).1.bytesPerBlock = ns.bytesPerBlock := bytesPerBlock_apply (.evictInactive n) ns
  have hsub := max_sub_eq h.bytes h.fits hcount (bytesPerBlock_pos ns)
  refine ⟨?_, hbpb ▸ hsub.2⟩
  by_cases hn : n = 0
  · subst hn
    exact h.bytes
  · rw [hbpb, ← hsub.1]
    simp only [evictInactiveN, if_neg hn]

theorem usageExact_registerAll (pk : Int) (placed : List (PlacedBlock B)) (h : UsageExact ns)
    (hfit : ns.bytesPerBlock * ((NsAction.registerAll pk placed).apply ns).blockCount ≤ i64Max) :
    UsageExact ((NsAction.registerAll pk placed).apply ns) := by
  have hset := ns.blockCount_setPool pk ((ns.poolMut pk).registerAll placed).1
  have hcount := (ns.poolMut pk).count_registerAll placed
  have hnew : ((NsAction.registerAll pk placed).apply ns).blockCount =
      ns.blockCount + ((ns.poolMut pk).registerAll placed).2.2 := by
    show (ns.setPool pk ((ns.poolMut pk).registerAll placed).1).blockCount = _
    omega
  have hsum : ns.usedBytes + ((ns.poolMut pk).registerAll placed).2.2 * ns.bytesPerBlock =
      ns.bytesPerBlock * ((NsAction.registerAll pk placed).apply ns).blockCount := by
    rw [hnew, h.bytes]
    push_cast
    ring
  have hb := bytesPerBlock_pos ns
  have hused : 0 ≤ ns.usedBytes := h.bytes.symm ▸ mul_nonneg hb.le (by positivity)
  have hcharged : 0 ≤ ((ns.poolMut pk).registerAll placed).2.2 * ns.bytesPerBlock := mul_nonneg (by positivity) hb.le
  refine ⟨?_, hfit⟩
  show satAdd ns.usedBytes (i64 (((ns.poolMut pk).registerAll placed).2.2 * ns.bytesPerBlock)) = _
  rw [i64_eq ((by decide : i64Min ≤ 0).trans hcharged) (by omega), satAdd, hsum,
    clamp_of_le (mul_nonneg hb.le (by positivity)) hfit]
  rfl

theorem usageExact_setPool_sub {pk : Int} {p q : PoolView B} {removed : Nat}
    (hp : ns.pools.lookup pk = some p) (hcount : q.count + removed = p.count) (h : UsageExact ns) :
    UsageExact { ns.setPool pk q with usedBytes := max (i64 (ns.usedBytes - removed * ns.bytesPerBlock)) 0 } := by
  have hset := ns.blockCount_setPool pk q
  rw [poolMut_of_lookup hp] at hset
  have hleft : (ns.setPool pk q).blockCount + removed = ns.blockCount := by omega
  have hsub := max_sub_eq h.bytes h.fits hleft (bytesPerBlock_pos ns)
  exact ⟨hsub.1, hsub.2⟩

variable {S : Set (List Flat)}

theorem Accounted.apply (hB : B.Lawful) (hS : B.InjectiveOn S)
    (hone : ∀ k c c', op.Registers k c → op.Registers k c' → c = c')
    (hchains : ∀ k c, op.Registers k c → c ∈ S) (hfit : a.BytesFit op)
    (allowed : op.May key act) (guard : act.Guard key ns) (h : Accounted S a op key ns) :
    Accounted S a op key (act.apply ns) := by
  have hok : ∀ pk p, ns.pools.lookup pk = some p → p.IndexOk := fun pk p hp => (h.pools pk p hp).1.index
  have hpools := nsAction_pools (I := fun key pk p => Indexed S key pk p ∧ ChainsFit op key pk p)
    (fun pk cap _ => ⟨.new hB S key pk cap, by intro f c e _ he; simp [PoolView.new] at he⟩)
    (fun key pk p act hmay hguard hp =>
      ⟨hp.1.apply hB hS hchains hmay hguard hp.2, hp.2.apply hB hone hmay hguard⟩)
    allowed guard h.pools
  have hblocks := h.blocks.apply hB allowed guard
  have hsize : SizeWithin a op key (act.apply ns) := by
    rw [SizeWithin, bytesPerBlock_apply]
    exact h.size
  refine ⟨hpools, ?_, hblocks, hsize⟩
  cases act with
  | pool pk act =>
    obtain ⟨quiet, p, hp, hguard⟩ := guard
    have hset := ns.blockCount_setPool pk (act.apply (ns.poolMut pk))
    have hquiet := count_quiet quiet hguard
    rw [poolMut_of_lookup hp] at hset
    have hsame : (ns.setPool pk (act.apply p)).blockCount = ns.blockCount := by omega
    have hcount : (ns.setPool pk (act.apply (ns.poolMut pk))).blockCount = ns.blockCount := by
      rw [poolMut_of_lookup hp, hsame]
    exact ⟨h.exact_.bytes.trans (hcount ▸ rfl), (hcount ▸ rfl : _ = _).trans_le h.exact_.fits⟩
  | evictInactive n => exact usageExact_evictInactiveN hB n hok h.exact_
  | evictPool pk n =>
    obtain ⟨p, hp⟩ := mem_iff.mp guard
    simp only [NsAction.apply, poolMut_of_lookup hp]
    exact usageExact_setPool_sub hp (count_dropInactiveVictims hB (hok pk p hp) n) h.exact_
  | registerAll pk placed =>
    refine usageExact_registerAll pk placed h.exact_ ?_
    obtain ⟨node, chain, metas, hcheck, -, rfl | ⟨snap, cb, row, rfl, -⟩⟩ := may_registerAll allowed
    · -- A batch: the namespace was there before, with blocks of the same size.
      rcases h.size with ⟨-, ns₀, hns₀, hbpb⟩ | ⟨desc, hop⟩ | ⟨snap, hop, -⟩
      · have hle := blockCount_le_of_within ns₀.blockCount
          (fun _ ns₁ hns₁ => by cases Option.some.inj (hns₀.symm.trans hns₁); exact le_rfl) hblocks
        rw [hbpb]
        refine le_trans ?_ (hfit key pk ns₀ hcheck hns₀)
        exact mul_le_mul_of_nonneg_left (by exact_mod_cast hle) (bytesPerBlock_pos ns₀).le
      · cases hop
      · cases hop
    · -- A restore: nothing was there before, and the size is that of a model of the snapshot.
      rcases h.size with ⟨hop, -⟩ | ⟨desc, hop⟩ | ⟨snap', hop, m, hm, hbpb⟩
      · simp [Op.replaces] at hop
      · cases hop
      · cases hop
        have hle := blockCount_le_of_within 0 (fun hop => by simp [Op.replaces] at hop) hblocks
        have hids : (Op.importSnapshot snap).ids.length ≤ snap.blocks.length := length_filterMap_le _ _
        rw [hbpb]
        refine le_trans ?_ (hfit m hm)
        exact mul_le_mul_of_nonneg_left (by exact_mod_cast (by omega)) m.bytesPerBlock_pos.le
  | discard pk id e =>
    obtain ⟨p, hp, ⟨he, -⟩, -⟩ := guard
    have hcount : (p.discardEntry id.blockHash e).count + 1 = p.count := count_of_erase he rfl
    have hsub := usageExact_setPool_sub hp hcount h.exact_
    simp only [NsAction.apply, poolMut_of_lookup hp]
    rw [Nat.cast_one, one_mul] at hsub
    exact hsub
  | gcCold key' pk n =>
    obtain ⟨-, hpk⟩ := guard
    obtain ⟨p, hp⟩ := mem_iff.mp hpk
    have hcount := p.count_gcCold key' pk n
    have hset := ns.blockCount_setPool pk (p.gcCold key' pk n).pool
    simp only [NsAction.apply, poolMut_of_lookup hp] at hset ⊢
    have hleft : ns.blockCount = (ns.setPool pk (p.gcCold key' pk n).pool).blockCount +
        (p.gcCold key' pk n).discarded.length := by omega
    have hfold := foldl_max_sub_eq (bytesPerBlock_pos ns) (p.gcCold key' pk n).discarded
      (hleft ▸ h.exact_.bytes) (hleft ▸ h.exact_.fits)
    exact ⟨hfold.1, hfold.2⟩
  | setQuota q => exact ⟨h.exact_.bytes, h.exact_.fits⟩
  | create | remove | ledger => exact guard.elim

theorem Accounted.new (S : Set (List Flat)) {desc : ModelDescriptor}
    (cap : Nat) (allowed : op.May (B := B) ⟨desc.modelId, desc.revision⟩ (.create desc)) :
    Accounted S a op ⟨desc.modelId, desc.revision⟩ (Namespace.new B desc cap) where
  pools := by simp [Namespace.new]
  exact_ := by constructor <;> simp [Namespace.new, Namespace.blockCount, total_empty, i64Max]
  blocks := by
    intro pk f hm
    obtain ⟨p, hp, -⟩ := Namespace.mem_blockSet.mp hm
    simp [Namespace.new] at hp
  size := by
    rcases may_create allowed with rfl | ⟨snap, rfl, hm⟩
    · exact .inr (.inl ⟨_, rfl⟩)
    · exact .inr (.inr ⟨_, rfl, _, hm, rfl⟩)

def Accounts (S : Set (List Flat)) (a : Authority B) (op : Op) : Prop :=
  KeepsChainsIn S a op ∧ a.BytesFit op

/-- After an operation that fits, `used_bytes` counts the blocks again. -/
theorem step_usageExact (hB : B.Lawful) (hS : B.InjectiveOn S) (hok : Accounts S a op)
    (hpools : ∀ key pk p, a.pool? key pk = some p → Indexed S key pk p)
    (h : ∀ key ns, a.namespaces.lookup key = some ns → UsageExact ns) :
    ∀ key ns, (a.step op).namespaces.lookup key = some ns → UsageExact ns := by
  obtain ⟨⟨⟨hone, hsame⟩, hchains⟩, hfit⟩ := hok
  have hact : ∀ key ns (act : NsAction B), op.May key act → act.Guard key ns → Accounted S a op key ns →
      Accounted S a op key (act.apply ns) :=
    fun _ _ _ allowed guard hns => hns.apply hB hS hone hchains hfit allowed guard
  intro key ns hns
  cases hop : op.replaces with
  | false =>
    refine ((step_run a hop).namespaces (I := Accounted S a op)
      (fun desc cap allowed _ _ => .new S cap allowed) hact ?_ key ns hns).exact_
    intro key ns hns
    refine ⟨fun pk p hp => ⟨hpools key pk p (pool?_eq_some.mpr ⟨ns, hns, hp⟩), ?_⟩, h key ns hns, ?_, ?_⟩
    · intro f c e hc he
      refine hsame hop _ c e hc ?_
      simp [block?, pool?, BlockKey.ns, hns, hp, he]
    · exact fun pk f hm => .inl ⟨hop, ns, hns, hm⟩
    · exact .inl ⟨hop, ns, hns, rfl⟩
  | true =>
    cases op with
    | importSnapshot snap =>
      refine ((importSnapshot_run a snap).namespaces (I := Accounted S a (.importSnapshot snap))
        (fun desc cap allowed _ _ => .new S cap allowed) hact ?_ key ns hns).exact_
      intro key ns hns
      simp [cleared] at hns
    | commitViewEvents =>
      rw [step, a.commitViewEvents_namespaces] at hns
      exact h key ns hns
    | _ => simp [Op.replaces] at hop

theorem reachableBy_usageExact (hB : B.Lawful) (hS : B.InjectiveOn S)
    (h : ReachableBy (Accounts S) a) : ∀ key ns, a.namespaces.lookup key = some ns → UsageExact ns := by
  have hboth := Reach.invariant (I := fun a : Authority B =>
    (∀ key pk p, a.pool? key pk = some p → Indexed S key pk p) ∧
    ∀ key ns, a.namespaces.lookup key = some ns → UsageExact ns) ?_ ?_ h
  · exact hboth.2
  · rintro s ⟨cap, rfl⟩
    constructor <;> simp [withInactiveCap, pool?]
  · intro s op hI hok
    exact ⟨step_indexed hB hS hok.1.1 hok.1.2 hI.1, step_usageExact hB hS hok hI.1 hI.2⟩

/-- No removal takes a namespace below zero: neither an eviction of any size, from the namespace or
from one pool, nor the discard of a block, nor cold GC. -/
structure ClampsIdle (key : NamespaceKey) (ns : Namespace B) : Prop where
  evictInactive : ∀ n, 0 ≤ ns.usedBytes - (ns.evictInactiveN n).2.length * ns.bytesPerBlock
  evictPool : ∀ pk p n, ns.pools.lookup pk = some p →
    0 ≤ ns.usedBytes - (p.dropInactiveVictims n).2.length * ns.bytesPerBlock
  discard : ∀ pk p f e, ns.pools.lookup pk = some p → p.byFlat.lookup f = some e →
    0 ≤ ns.usedBytes - ns.bytesPerBlock
  gcCold : ∀ pk p n, ns.pools.lookup pk = some p →
    0 ≤ ns.usedBytes - (p.gcCold key pk n).discarded.length * ns.bytesPerBlock

theorem clampsIdle_of_exact (hB : B.Lawful)
    (hok : ∀ pk p, ns.pools.lookup pk = some p → p.IndexOk) (h : UsageExact ns) : ClampsIdle key ns := by
  have hsub : ∀ removed : Nat, removed ≤ ns.blockCount → 0 ≤ ns.usedBytes - removed * ns.bytesPerBlock := by
    intro removed hle
    have hb := bytesPerBlock_pos ns
    rw [h.bytes, mul_comm (removed : Int), ← mul_sub]
    exact mul_nonneg hb.le (by omega)
  have hpool : ∀ pk p, ns.pools.lookup pk = some p → p.count ≤ ns.blockCount := by
    intro pk p hp
    have hset := ns.blockCount_setPool pk (PoolView.new B 0)
    rw [poolMut_of_lookup hp] at hset
    have hzero : (PoolView.new B 0).count = 0 := rfl
    omega
  refine ⟨fun n => hsub _ ?_, fun pk p n hp => hsub _ ?_, fun pk p f e hp he => ?_, fun pk p n hp => hsub _ ?_⟩
  · have hcount := ns.blockCount_evictInactiveN hB n hok
    omega
  · have hcount := count_dropInactiveVictims hB (hok pk p hp) n
    have hle := hpool pk p hp
    omega
  · have hle := hpool pk p hp
    have hone : (p.discardEntry f e).count + 1 = p.count := count_of_erase he rfl
    have hbound := hsub 1 (by omega)
    rwa [Nat.cast_one, one_mul] at hbound
  · have hcount := p.count_gcCold key pk n
    have hle := hpool pk p hp
    omega

/-- In every run that keeps the chains of its blocks, with a lineage hash that tells these chains
apart and bytes that fit an `i64`, the usage of every namespace is that of its blocks and no clamp
takes effect. -/
theorem usage_exact (hB : B.Lawful) {S : Set (List Flat)} (hS : B.InjectiveOn S)
    (h : ReachableBy (Accounts S) a) {key : NamespaceKey} {ns : Namespace B}
    (hns : a.namespaces.lookup key = some ns) :
    ns.usedBytes = ns.bytesPerBlock * ns.blockCount ∧ ClampsIdle key ns := by
  have hexact := reachableBy_usageExact hB hS h key ns hns
  have hpools := reachableBy_indexed hB hS (fun _ _ ho => ho.1) h
  refine ⟨hexact.bytes, clampsIdle_of_exact hB (fun pk p hp => ?_) hexact⟩
  exact (hpools key pk p (pool?_eq_some.mpr ⟨ns, hns, hp⟩)).index

/-- A batch of two blocks, of which one is referenced, released and evicted. -/
def evictedRun : List Op :=
  [.registerModel (sampleModel 0 0), .register "n" [[1], [9]] [sampleMeta 1, sampleMeta 9],
    .reportRefs [sampleRef 9 1 "n", sampleRef 9 (-1) "n"], .evictN "m" "r" poolTarget 1]

theorem usage_exact_evictedRun : ∃ ns, (sampleRun evictedRun).namespaces.lookup sampleKey = some ns ∧
      ns.usedBytes = ns.bytesPerBlock * ns.blockCount ∧ ClampsIdle sampleKey ns := by
  have hS : sampleBackend.InjectiveOn {[[1]], [[1], [9]]} := by
    rintro c (rfl | rfl) d (rfl | rfl) - h <;> first | rfl | exact absurd h (by decide)
  have hbatch : (sampleRun [.registerModel (sampleModel 0 0)]).BytesFit
      (.register "n" [[1], [9]] [sampleMeta 1, sampleMeta 9]) := by
    intro key pk ns hcheck hns
    have hkey : checkBatch [[1], [9]] [sampleMeta 1, sampleMeta 9] = .ok (sampleKey, poolTarget) := by decide
    cases Except.ok.inj (hkey.symm.trans hcheck)
    have hbytes : ((sampleRun [.registerModel (sampleModel 0 0)]).namespaces.lookup sampleKey).map
        (fun ns => (ns.bytesPerBlock, ns.blockCount)) = some (10, 0) := by decide
    rw [hns, Option.map_some, Option.some.injEq, Prod.mk.injEq] at hbytes
    rw [hbytes.1, hbytes.2]
    decide
  have hrun : ReachableBy (Accounts {[[1]], [[1], [9]]}) (sampleRun evictedRun) := by
    refine sampleRun_reachableBy evictedRun
      ⟨⟨?_, trivial⟩, ⟨?_, hbatch⟩, ⟨?_, trivial⟩, ⟨?_, trivial⟩, trivial⟩
    · exact keepsChainsIn_of_not_registers fun k c hc => by cases hc
    · exact keepsChainsIn_register (by decide) (by decide)
    · exact keepsChainsIn_of_not_registers fun k c hc => by cases hc
    · exact keepsChainsIn_of_not_registers fun k c hc => by cases hc
  obtain ⟨ns, hns⟩ := Option.isSome_iff_exists.mp
    (by decide : ((sampleRun evictedRun).namespaces.lookup sampleKey).isSome = true)
  exact ⟨ns, hns, usage_exact sampleBackend_lawful hS hrun hns⟩

/-- A block goes inactive under one chain and again under another; then both of its lineage hashes
are evicted while another block stays. -/
def doublyEvictedRun : Authority sampleBackend :=
  sampleRun [.registerModel (sampleModel 0 0), .register "n" [[1], [9]] [sampleMeta 9],
    .reportRefs [sampleRef 9 1 "n", sampleRef 9 (-1) "n"], .register "n" [[2], [9]] [sampleMeta 9],
    .reportRefs [sampleRef 9 1 "n", sampleRef 9 (-1) "n"], .register "n" [[7]] [sampleMeta 7],
    .evictN "m" "r" poolTarget 2]

/-- One block of ten bytes is left and no byte is in use: the block evicted twice was paid back twice. -/
theorem doubly_evicted_block_underflows_usage :
    sampleBackend.Lawful ∧ sampleBackend.InjectiveOn {[[1], [9]], [[2], [9]], [[7]]} ∧
      doublyEvictedRun.Reachable ∧ ∃ ns, doublyEvictedRun.namespaces.lookup sampleKey = some ns ∧
        ns.usedBytes = 0 ∧ ns.bytesPerBlock * ns.blockCount = 10 := by
  have hS : sampleBackend.InjectiveOn {[[1], [9]], [[2], [9]], [[7]]} := by
    rintro c (rfl | rfl | rfl) d (rfl | rfl | rfl) - h <;> first | rfl | exact absurd h (by decide)
  refine ⟨sampleBackend_lawful, hS, sampleRun_reachable _, ?_⟩
  have hfacts : (doublyEvictedRun.namespaces.lookup sampleKey).map
      (fun ns => (ns.usedBytes, ns.bytesPerBlock * (ns.blockCount : Int))) = some (0, 10) := by decide
  obtain ⟨ns, hns, heq⟩ := Option.map_eq_some_iff.mp hfacts
  exact ⟨ns, hns, (Prod.mk.inj heq).1, (Prod.mk.inj heq).2⟩

end Authority

end LakeKv
