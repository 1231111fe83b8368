import LakeKv.PoolIndex
import LakeKv.SampleBackend

namespace LakeKv

open BlockKey Finmap List Option PoolView

/-- The blocks a call registers, and the chain it registers each under. -/
inductive Op.Registers : Op → BlockKey → List Flat → Prop
  | register {node chain metas id} (h : id ∈ batchIds metas) :
      Registers (.register node chain metas) (.fromId id) (chainAt chain id.blockHash)
  | importSnapshot {snap cb row id} (hmem : cb ∈ snap.blocks) (hrow : importRow cb = .ok (some row))
      (hid : row.blockMeta.id = some id) :
      Registers (.importSnapshot snap) (.fromId id) (chainAt row.chain id.blockHash)

def CheckpointBlock.importId (cb : CheckpointBlock) : Option KvBlockId :=
  match importRow cb with
  | .ok (some row) => row.blockMeta.id
  | _ => none

def Op.ids : Op → List KvBlockId
  | .register _ _ metas => batchIds metas
  | .importSnapshot snap => snap.blocks.filterMap CheckpointBlock.importId
  | _ => []

theorem Op.Registers.mem_ids {op : Op} {k : BlockKey} {c : List Flat} (h : op.Registers k c) :
    ∃ id ∈ op.ids, k = .fromId id := by
  cases h with
  | register hid => exact ⟨_, hid, rfl⟩
  | importSnapshot hmem hrow hid =>
    refine ⟨_, mem_filterMap.mpr ⟨_, hmem, ?_⟩, rfl⟩
    simpa [CheckpointBlock.importId, hrow] using hid

/-- A call registers no block under two chains, and none that is registered under another chain
than it has. A restore starts from nothing, so only its own rows count. -/
def Authority.KeepsChains {B : Backend} (a : Authority B) (op : Op) : Prop :=
  (∀ k c c', op.Registers k c → op.Registers k c' → c = c') ∧
    (op.replaces = false → ∀ k c e, op.Registers k c → a.block? k = some e → e.prefixChain = c)

variable {B : Backend}

structure PoolView.IndexConsistent (p : PoolView B) : Prop where
  filed : ∀ f e, p.byFlat.lookup f = some e →
    p.seqToFlat.lookup e.seqHash = some f ∧ e.seqHash ∈ p.handles
  owned : ∀ s, s ∈ p.seqToFlat ∨ s ∈ p.handles ∨ s ∈ B.nodes p.inactive ∨ (p.refsOf s).total ≠ 0 →
    ∃ f e, p.byFlat.lookup f = some e ∧ e.seqHash = s
  idle : ∀ s, s ∈ B.nodes p.inactive → (p.refsOf s).total = 0

theorem PoolView.IndexOk.consistent {p : PoolView B} (h : p.IndexOk) : p.IndexConsistent where
  filed := h.filed
  owned := by
    intro s hs
    have hf : ∃ f, p.seqToFlat.lookup s = some f := by
      rcases hs with hs | hs | hs | hs
      · exact mem_iff.mp hs
      · exact h.handled s hs
      · obtain ⟨b, hb⟩ := mem_iff.mp hs
        obtain ⟨f, _, hf, -, -⟩ := h.inactive s b hb
        exact ⟨f, hf⟩
      · exact h.referenced s hs
    obtain ⟨f, hf⟩ := hf
    obtain ⟨e, he, heq⟩ := h.owned s f hf
    exact ⟨f, e, he, heq⟩
  idle := h.idle

theorem poolMay_registers {op : Op} {key : NamespaceKey} {pk : Int} {b : PlacedBlock B}
    (h : PoolMay op.May key pk (.register b)) :
    op.Registers ⟨key.modelId, key.revision, pk, b.id.blockHash⟩ b.chain := by
  obtain ⟨placed, hmay, hb⟩ := h
  obtain ⟨node, chain, metas, hcheck, rfl, hop⟩ := may_registerAll hmay
  obtain ⟨m, hm, hplace⟩ := mem_filterMap.mp hb
  obtain ⟨id, hid, hbid, hchain, -⟩ := placeBlock_eq_some hplace
  have hmem : id ∈ batchIds metas := mem_filterMap.mpr ⟨m, hm, hid⟩
  obtain ⟨hkey, hkind, -⟩ := checkBatch_eq_ok hcheck hmem
  have hk : (⟨key.modelId, key.revision, pk, b.id.blockHash⟩ : BlockKey) = .fromId id := by
    rw [fromId_of_resolve hkind, ← hkey, hbid]
    rfl
  rw [hk, hchain]
  rcases hop with rfl | ⟨snap, cb, row, rfl, hcb, hrow, rfl, rfl, rfl⟩
  · exact .register hmem
  · cases List.mem_singleton.mp hm
    exact .importSnapshot hcb hrow hid

namespace Authority

/-- What a call that keeps the chains may rely on in a pool while it runs: the blocks it is going to
register are there under those chains or not at all. -/
def ChainsFit (op : Op) (key : NamespaceKey) (pk : Int) (p : PoolView B) : Prop :=
  ∀ f c e, op.Registers ⟨key.modelId, key.revision, pk, f⟩ c → p.byFlat.lookup f = some e →
    e.prefixChain = c

variable {op : Op} {key : NamespaceKey} {pk : Int} {p : PoolView B} {act : PoolAction B}

/-- Where the chain of a block is from: the registration of the block, or the block that was there. -/
theorem chain_apply (hB : B.Lawful) (guard : act.Guard p) {f : Flat} {e' : Entry B}
    (he' : (act.apply p).byFlat.lookup f = some e') :
    (∃ b, act = .register b ∧ f = b.id.blockHash ∧ e'.prefixChain = b.chain) ∨
      ∃ e, p.byFlat.lookup f = some e ∧ e'.prefixChain = e.prefixChain := by
  by_cases hreg : ∃ b, act = .register b
  · obtain ⟨b, rfl⟩ := hreg
    rw [PoolAction.apply, registerPlaced, registerBlock, lookup_insert_if] at he'
    split at he'
    next hf =>
      cases he'
      exact .inl ⟨b, rfl, hf, rfl⟩
    · exact .inr ⟨e', he', rfl⟩
  · obtain ⟨e, he, hs⟩ := shrinks_apply hB guard (fun b hb => hreg ⟨b, hb⟩) f e' he'
    exact .inr ⟨e, he, hs.prefixChain⟩

theorem ChainsFit.apply (hB : B.Lawful) (hone : ∀ k c c', op.Registers k c → op.Registers k c' → c = c')
    (hmay : PoolMay op.May key pk act) (guard : act.Guard p) (h : ChainsFit op key pk p) :
    ChainsFit op key pk (act.apply p) := by
  intro f c e' hc he'
  rcases chain_apply hB guard he' with ⟨b, rfl, rfl, hchain⟩ | ⟨e, he, hchain⟩
  · rw [hchain]
    exact hone _ _ _ (poolMay_registers hmay) hc
  · rw [hchain]
    exact h f c e hc he

/-- What the runs below keep of every pool: the blocks are keyed, under chains of `S`, and the
index holds. -/
structure Indexed (S : Set (List Flat)) (key : NamespaceKey) (pk : Int) (p : PoolView B) : Prop where
  keyed : ∀ f e, p.byFlat.lookup f = some e → e.Keyed key pk f
  chains : ∀ f e, p.byFlat.lookup f = some e → e.prefixChain ∈ S
  index : p.IndexOk

variable {S : Set (List Flat)}

/-- With distinct lineage hashes for distinct chains, a registration that keeps the chains does not
cut across the index. -/
theorem Indexed.register_fits (hS : B.InjectiveOn S) {b : PlacedBlock B} (hchains : ∀ k c, op.Registers k c → c ∈ S)
    (hmay : PoolMay op.May key pk (.register b)) (hfit : ChainsFit op key pk p) (h : Indexed S key pk p) :
    (∀ e, p.byFlat.lookup b.id.blockHash = some e → e.seqHash = b.seq) ∧
      ∀ f, p.seqToFlat.lookup b.seq = some f → f = b.id.blockHash := by
  have hb := poolMay_register_fits hmay
  have hc := poolMay_registers hmay
  have hne : b.chain ≠ [] := by
    intro hnil
    have hlast := hb.last
    simp [hnil] at hlast
  constructor
  · intro e he
    have hline := (h.keyed _ e he).lineage
    rw [hfit _ _ e hc he, hb.lineage] at hline
    exact (some.inj hline).symm
  · intro f hf
    obtain ⟨e, he, heq⟩ := h.index.owned b.seq f hf
    have hk := h.keyed f e he
    have hsame : b.chain = e.prefixChain :=
      hS _ (hchains _ _ hc) _ (h.chains f e he) hne (by rw [hb.lineage, hk.lineage, heq])
    exact some.inj (hk.chain.symm.trans (hsame ▸ hb.last))

theorem Indexed.apply (hB : B.Lawful) (hS : B.InjectiveOn S)
    (hchains : ∀ k c, op.Registers k c → c ∈ S) (hmay : PoolMay op.May key pk act)
    (guard : act.Guard p) (hfit : ChainsFit op key pk p) (h : Indexed S key pk p) :
    Indexed S key pk (act.apply p) := by
  have hindex : (act.apply p).IndexOk :=
    h.index.apply hB guard fun b heq => h.register_fits hS hchains (heq ▸ hmay) hfit
  by_cases hreg : ∃ b, act = .register b
  · obtain ⟨b, rfl⟩ := hreg
    refine ⟨registerPlaced_keyed (poolMay_register_fits hmay) h.keyed, ?_, hindex⟩
    intro f e he
    rw [PoolAction.apply, registerPlaced, registerBlock, lookup_insert_if] at he
    split at he
    · cases he
      exact hchains _ _ (poolMay_registers hmay)
    · exact h.chains f e he
  · have hshrink := shrinks_apply hB guard fun b hb => hreg ⟨b, hb⟩
    refine ⟨?_, ?_, hindex⟩
    · intro f e' he'
      obtain ⟨e, he, hs⟩ := hshrink f e' he'
      exact (h.keyed f e he).of_sameBlock hs
    · intro f e' he'
      obtain ⟨e, he, hs⟩ := hshrink f e' he'
      rw [hs.prefixChain]
      exact h.chains f e he

theorem Indexed.new (hB : B.Lawful) (S : Set (List Flat)) (key : NamespaceKey) (pk : Int) (cap : Nat) :
    Indexed S key pk (PoolView.new B cap) :=
  ⟨by simp [PoolView.new], by simp [PoolView.new], .new hB cap⟩

variable {a : Authority B}

theorem step_indexed (hB : B.Lawful) (hS : B.InjectiveOn S)
    (hkeep : a.KeepsChains op) (hchains : ∀ k c, op.Registers k c → c ∈ S)
    (h : ∀ key pk p, a.pool? key pk = some p → Indexed S key pk p) :
    ∀ key pk p, (a.step op).pool? key pk = some p → Indexed S key pk p := by
  have hnew : ∀ key pk cap, Indexed S key pk (PoolView.new B cap) ∧ ChainsFit op key pk (PoolView.new B cap) :=
    fun key pk cap => ⟨.new hB S key pk cap, by intro f c e _ he; simp [PoolView.new] at he⟩
  have hact : ∀ key pk p act, PoolMay op.May key pk act → act.Guard p → Indexed S key pk p ∧ ChainsFit op key pk p →
      Indexed S key pk (act.apply p) ∧ ChainsFit op key pk (act.apply p) :=
    fun key pk p act hmay guard hp =>
      ⟨hp.1.apply hB hS hchains hmay guard hp.2, hp.2.apply hB hkeep.1 hmay guard⟩
  intro key pk p hp
  cases hop : op.replaces with
  | false =>
    refine ((step_run a hop).pools hnew hact (fun key pk p hp => ⟨h key pk p hp, ?_⟩) key pk p hp).1
    intro f c e hc he
    refine hkeep.2 hop _ c e hc ?_
    simp [block?, BlockKey.ns, hp, he]
  | true =>
    cases op with
    | importSnapshot snap =>
      refine ((importSnapshot_run a snap).pools hnew hact (fun key pk p hp => ?_) key pk p hp).1
      simp [cleared, pool?] at hp
    | commitViewEvents =>
      rw [step, pool?_congr a.commitViewEvents_namespaces] at hp
      exact h key pk p hp
    | _ => simp [Op.replaces] at hop

/-- The runs in which every call keeps the chains, all of which are in `S`. -/
def KeepsChainsIn (S : Set (List Flat)) (a : Authority B) (op : Op) : Prop :=
  a.KeepsChains op ∧ ∀ k c, op.Registers k c → c ∈ S

theorem reachableBy_indexed (hB : B.Lawful) (hS : B.InjectiveOn S)
    {ok : Authority B → Op → Prop} (hok : ∀ a op, ok a op → KeepsChainsIn S a op)
    (h : ReachableBy ok a) : ∀ key pk p, a.pool? key pk = some p → Indexed S key pk p := by
  refine Reach.invariant (I := fun a => ∀ key pk p, a.pool? key pk = some p → Indexed S key pk p) ?_ ?_ h
  · intro s hs key pk p hp
    simp [initial_pool? hs] at hp
  · exact fun s op hI ho => step_indexed hB hS (hok s op ho).1 (hok s op ho).2 hI

/-- In every run that keeps the chains of its blocks, with a lineage hash that tells these chains
apart, the maps of every pool stay consistent. -/
theorem pool_index_consistent (hB : B.Lawful) {S : Set (List Flat)} (hS : B.InjectiveOn S)
    {a : Authority B} (h : ReachableBy (KeepsChainsIn S) a) :
    ∀ key pk p, a.pool? key pk = some p → p.IndexConsistent :=
  fun key pk p hp => (reachableBy_indexed hB hS (fun _ _ ho => ho) h key pk p hp).index.consistent

theorem keepsChainsIn_register {node : String} {chain : List Flat}
    {metas : List BlockMeta} (fit : ∀ id ∈ batchIds metas, ((a.block? (.fromId id)).map Entry.prefixChain).getD
      (chainAt chain id.blockHash) = chainAt chain id.blockHash)
    (chains : ∀ id ∈ batchIds metas, chainAt chain id.blockHash ∈ S) :
    KeepsChainsIn S a (.register node chain metas) := by
  refine ⟨⟨?_, ?_⟩, ?_⟩
  · intro k c c' hc hc'
    cases hc with
    | @register _ _ _ id _ =>
      generalize hk : fromId id = k' at hc'
      cases hc' with
      | @register _ _ _ id' _ =>
        have hflat : id.blockHash = id'.blockHash := congrArg flat hk
        rw [hflat]
  · intro _ k c e hc he
    cases hc with
    | register hid => simpa [he] using fit _ hid
  · intro k c hc
    cases hc with
    | register hid => exact chains _ hid

theorem keepsChainsIn_of_not_registers (h : ∀ k c, ¬op.Registers k c) : KeepsChainsIn S a op :=
  ⟨⟨fun k c _ hc => absurd hc (h k c), fun _ k c _ hc => absurd hc (h k c)⟩, fun k c hc => absurd hc (h k c)⟩

theorem pool_index_consistent_sample :
    ∃ p, (sampleRun [.registerModel (sampleModel 0 0), .register "n" [[1], [9]] [sampleMeta 9],
      .reportRefs [sampleRef 9 1 "n"], .register "n" [[1], [9]] [sampleMeta 9]]).pool? sampleKey poolTarget =
        some p ∧ p.IndexConsistent := by
  have hS : sampleBackend.InjectiveOn {[[1], [9]]} := by
    rintro c rfl d rfl - -
    rfl
  refine Exists.imp (fun p hp => ⟨hp, pool_index_consistent sampleBackend_lawful hS ?_ sampleKey poolTarget p hp⟩)
    (isSome_iff_exists.mp (by decide))
  refine sampleRun_reachableBy _ ⟨?_, ?_, ?_, ?_, trivial⟩
  · exact keepsChainsIn_of_not_registers fun k c hc => by cases hc
  · exact keepsChainsIn_register (by decide) (by decide)
  · exact keepsChainsIn_of_not_registers fun k c hc => by cases hc
  · exact keepsChainsIn_register (by decide) (by decide)

/-- A block goes inactive under one chain, comes back under another and is referenced there. -/
def rechainedRun : Authority sampleBackend :=
  sampleRun [.registerModel (sampleModel 0 0), .register "n" [[1], [9]] [sampleMeta 9],
    .reportRefs [sampleRef 9 1 "n", sampleRef 9 (-1) "n"], .register "n" [[2], [9]] [sampleMeta 9],
    .reportRefs [sampleRef 9 1 "n"], .evictN "m" "r" poolTarget 1]

/-- The old lineage hash is still a victim to evict, and takes the referenced block with it. -/
theorem rechained_block_breaks_index :
    sampleBackend.Lawful ∧ sampleBackend.InjectiveOn {[[1], [9]], [[2], [9]]} ∧ rechainedRun.Reachable ∧
      ∃ p, rechainedRun.pool? sampleKey poolTarget = some p ∧ (p.refsOf [2, 9]).total = 1 ∧
        p.byFlat.keys = ∅ ∧ ¬p.IndexConsistent := by
  have hS : sampleBackend.InjectiveOn {[[1], [9]], [[2], [9]]} := by
    rintro c (rfl | rfl) d (rfl | rfl) - h
    · rfl
    · exact absurd h (by decide)
    · exact absurd h (by decide)
    · rfl
  refine ⟨sampleBackend_lawful, hS, sampleRun_reachable _, ?_⟩
  obtain ⟨p, hp⟩ : ∃ p, rechainedRun.pool? sampleKey poolTarget = some p :=
    isSome_iff_exists.mp (by decide)
  have hfacts : (rechainedRun.pool? sampleKey poolTarget).map
      (fun p => ((p.refsOf [2, 9]).total, p.byFlat.keys)) = some (1, ∅) := by decide
  rw [hp, map_some, some.injEq, Prod.mk.injEq] at hfacts
  refine ⟨p, hp, hfacts.1, hfacts.2, fun hc => ?_⟩
  obtain ⟨f, e, he, -⟩ := hc.owned [2, 9] (.inr (.inr (.inr (by rw [hfacts.1]; decide))))
  have hf : f ∈ p.byFlat.keys := Finmap.mem_keys.mpr (mem_of_lookup_eq_some he)
  simp [hfacts.2] at hf

end Authority

end LakeKv
