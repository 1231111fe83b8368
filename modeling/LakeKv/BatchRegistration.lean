import LakeKv.AuthorityPort

namespace LakeKv

open Finmap List PoolView

variable {B : Backend}

section Chains

variable {h : Flat} {chain : List Flat}

theorem lastIndexOf_of_notMem (out : h ∉ chain) : lastIndexOf h chain = none := by
  cases found : lastIndexOf h chain with
  | none => rfl
  | some i =>
    have here := lastIndexOf_getElem? found
    exact absurd (mem_of_getElem? here) out

theorem lastIndexOf_of_nodup (nodup : chain.Nodup) (mem : h ∈ chain) : lastIndexOf h chain = some (chain.idxOf h) := by
  induction chain with
  | nil => cases mem
  | cons x xs ih =>
    obtain ⟨out, nodup⟩ := nodup_cons.mp nodup
    unfold lastIndexOf
    by_cases same : x = h
    · subst same
      rw [lastIndexOf_of_notMem out, idxOf_cons_self]
      exact if_pos rfl
    · have tail : h ∈ xs := (mem_cons.mp mem).resolve_left (Ne.symm same)
      rw [ih nodup tail, idxOf_cons_ne xs same]

theorem map_idxOf (nodup : chain.Nodup) : chain.map (fun h => chain.idxOf h) = range chain.length := by
  refine ext_getElem ?_ ?_
  · rw [length_map, length_range]
  · intro i _ _
    rw [getElem_map, getElem_range]
    exact nodup.idxOf_getElem i _

theorem contiguous_range' (first n : Nat) : contiguous (range' first n) = true := by
  induction n generalizing first with
  | zero => rfl
  | succ n ih =>
    have tail := ih (first + 1)
    rw [range'_succ]
    cases n with
    | zero => rfl
    | succ n =>
      rw [range'_succ] at tail ⊢
      simp only [contiguous, beq_self_eq_true, Bool.true_and]
      exact tail

theorem contiguous_range (n : Nat) : contiguous (((range n).insertionSort (· ≤ ·)).destutter (· ≠ ·)) = true := by
  have sorted : (range n).Pairwise (· ≤ ·) := by
    exact pairwise_lt_range.imp fun lt => Nat.le_of_lt lt
  have steps : (range n).IsChain (· ≠ ·) := by
    exact (pairwise_lt_range.imp fun lt => Nat.ne_of_lt lt).isChain
  rw [sorted.insertionSort_eq, destutter_of_isChain (R := (· ≠ ·)) _ steps, range_eq_range']
  exact contiguous_range' 0 n

end Chains

/-- The batch of a session as `put_start` fills it: all blocks of one namespace and the target pool, in the order
of their chain. -/
structure WholeChain (key : NamespaceKey) (chain : List Flat) (metas : List BlockMeta) : Prop where
  ids : batchIds metas = chain.map (publicId key poolTarget)
  distinct : chain.Nodup
  some : chain ≠ []

namespace WholeChain

variable {key : NamespaceKey} {chain : List Flat} {metas : List BlockMeta}

variable (whole : WholeChain key chain metas)
include whole

theorem hashes : (batchIds metas).map KvBlockId.blockHash = chain := by
  rw [whole.ids, map_map]
  exact map_id chain

theorem check : checkBatch chain metas = .ok (key, poolTarget) := by
  have kind : resolvePoolKind poolTarget = .ok poolTarget := rfl
  have block : ∀ id ∈ batchIds metas, checkBlock key poolTarget chain id = .ok (chain.idxOf id.blockHash) := by
    intro id mem
    rw [whole.ids] at mem
    obtain ⟨h, own, rfl⟩ := mem_map.mp mem
    have last := lastIndexOf_of_nodup whole.distinct own
    simp [checkBlock, publicId, kind, last]
  have positions : (batchIds metas).mapM (checkBlock key poolTarget chain) = .ok (range chain.length) := by
    rw [mapM_eq_ok block, ← map_idxOf whole.distinct]
    conv => rhs; rw [← whole.hashes]
    rw [map_map]
    simp only [whole.hashes]
    rfl
  have first : ∃ h rest, chain = h :: rest := exists_cons_of_ne_nil whole.some
  obtain ⟨h, rest, eq⟩ := first
  have ids : batchIds metas = publicId key poolTarget h :: rest.map (publicId key poolTarget) := by
    rw [whole.ids, eq]
    rfl
  unfold checkBatch
  rw [ids] at positions ⊢
  have target : (publicId key poolTarget h).poolKind = poolTarget := rfl
  have ns : NamespaceKey.fromId (publicId key poolTarget h) = key := rfl
  simp only [target, kind, ns, if_neg whole.some, positions]
  rw [if_pos (contiguous_range chain.length)]

end WholeChain

namespace PoolView

variable {p : PoolView B} {b : PlacedBlock B} {bs : List (PlacedBlock B)}

theorem mem_registerAll_handles {seq : B.Seq} (mem : seq ∈ p.handles) : seq ∈ (p.registerAll bs).1.handles := by
  induction bs generalizing p with
  | nil => exact mem
  | cons b bs ih =>
    refine ih ?_
    exact mem_insert.mpr (.inr mem)

theorem registerAll_lookup_of_notMem {flat : Flat} (out : flat ∉ bs.map fun b => b.id.blockHash) :
    (p.registerAll bs).1.byFlat.lookup flat = p.byFlat.lookup flat := by
  induction bs generalizing p with
  | nil => rfl
  | cons b bs ih =>
    have ne : flat ≠ b.id.blockHash := ne_of_not_mem_cons out
    have tail := ih (p := p.registerPlaced b) (not_mem_of_not_mem_cons out)
    exact tail.trans (lookup_insert_of_ne _ ne)

theorem registerAll_lookup (distinct : (bs.map fun b => b.id.blockHash).Nodup) (mem : b ∈ bs) :
    ∃ e, (p.registerAll bs).1.byFlat.lookup b.id.blockHash = some e ∧
      e.seqHash ∈ (p.registerAll bs).1.handles ∧ e.blockMeta = b.blockMeta := by
  induction bs generalizing p with
  | nil => cases mem
  | cons c bs ih =>
    obtain ⟨out, distinct⟩ := nodup_cons.mp distinct
    rcases mem_cons.mp mem with rfl | mem
    · have later : ((p.registerPlaced b).registerAll bs).1.byFlat.lookup b.id.blockHash =
          (p.registerPlaced b).byFlat.lookup b.id.blockHash := registerAll_lookup_of_notMem out
      have handle : b.seq ∈ (p.registerPlaced b).handles := mem_insert.mpr (.inl rfl)
      have last : b.seq ∈ ((p.registerPlaced b).registerAll bs).1.handles := mem_registerAll_handles handle
      exact ⟨_, later.trans (lookup_insert _), last, rfl⟩
    · exact ih distinct mem

end PoolView

namespace Authority

variable {a : Authority B} {key : NamespaceKey} {ns : Namespace B} {chain : List Flat} {metas : List BlockMeta}

def storedMeta (nodeId : String) (key : NamespaceKey) (h : Flat) (m : BlockMeta) : BlockMeta :=
  { m with id := some (publicId key poolTarget h), locations := m.locations.map (fillNode nodeId) }

def chainKeys (key : NamespaceKey) (chain : List Flat) : Set BlockKey :=
  { k | ∃ h ∈ chain, k = ⟨key.modelId, key.revision, poolTarget, h⟩ }

structure Filed (a : Authority B) (nodeId : String) (key : NamespaceKey) (chain : List Flat) (metas : List BlockMeta)
    (b : Authority B) : Prop where
  own : ∀ m ∈ metas, ∀ h, m.id = some (publicId key poolTarget h) →
    b.filed ⟨key.modelId, key.revision, poolTarget, h⟩ = some (storedMeta nodeId key h m)
  others : Refiles a b (chainKeys key chain)

/-- A batch for a whole chain is accepted and filed block by block. -/
theorem insertBatch_filed (nodeId : String) (found : a.namespaces.lookup key = some ns)
    (whole : WholeChain key chain metas) : ∃ b, a.insertBatch nodeId key poolTarget chain metas = (b, .ok .accepted) ∧
      Filed a nodeId key chain metas b := by
  have placed : (metas.filterMap (placeBlock B nodeId poolTarget chain)).map (fun b => b.id.blockHash) = chain := by
    rw [placed_hashes whole.check]
    exact whole.hashes
  generalize pools : (ns.poolMut poolTarget).registerAll (metas.filterMap (placeBlock B nodeId poolTarget chain)) = done
  have answer : ∃ b, a.insertBatch nodeId key poolTarget chain metas = (b, .ok .accepted) ∧
      ∀ key' pk', b.pool? key' pk' = if key' = key ∧ pk' = poolTarget then some done.1 else a.pool? key' pk' := by
    unfold insertBatch
    rw [found]
    dsimp only
    rw [pools]
    refine ⟨_, rfl, ?_⟩
    intro key' pk'
    simp only [pool?, emit, setNs, Namespace.setPool, lookup_insert_if]
    by_cases same : key' = key
    · subst same
      by_cases kind : pk' = poolTarget
      · subst kind
        simp
      · simp [kind, found]
    · simp [same]
  obtain ⟨b, answer, pool⟩ := answer
  refine ⟨b, answer, ?_, ?_⟩
  · intro m mem h hid
    have own : h ∈ chain := by
      have known : publicId key poolTarget h ∈ batchIds metas := mem_filterMap.mpr ⟨m, mem, hid⟩
      rw [← whole.hashes]
      exact mem_map.mpr ⟨_, known, rfl⟩
    have last := lastIndexOf_of_nodup whole.distinct own
    have lt : chain.idxOf h < (B.lineageFromPrefix chain).length := by
      rw [Backend.lineageFromPrefix_length]
      exact lastIndexOf_lt last
    have placing : ∃ c, placeBlock B nodeId poolTarget chain m = some c := by
      simp [placeBlock, hid, publicId, last, getElem?_eq_getElem lt]
    obtain ⟨c, placing⟩ := placing
    obtain ⟨id, hid', cid, -, -, -, cmeta⟩ := placeBlock_eq_some placing
    cases hid.symm.trans hid'
    have among : c ∈ metas.filterMap (placeBlock B nodeId poolTarget chain) :=
      mem_filterMap.mpr ⟨m, mem, placing⟩
    have distinct : ((metas.filterMap (placeBlock B nodeId poolTarget chain)).map fun b => b.id.blockHash).Nodup := by
      rw [placed]
      exact whole.distinct
    obtain ⟨e, entry, handle, same⟩ := registerAll_lookup (p := ns.poolMut poolTarget) distinct among
    rw [pools] at entry handle
    rw [cid] at entry cmeta
    have here : b.pool? key poolTarget = some done.1 := by rw [pool, if_pos ⟨rfl, rfl⟩]
    exact filed_eq_some.mpr ⟨done.1, e, here, entry, handle, same.trans cmeta⟩
  · intro k m out on
    obtain ⟨p, e, here, entry, handle, same⟩ := filed_eq_some.mp on
    by_cases own : k.ns = key ∧ k.poolKind = poolTarget
    · have mine : ns.poolMut poolTarget = p := by
        obtain ⟨rfl, kind⟩ := own
        rw [kind] at here
        obtain ⟨ns', found', hp⟩ := pool?_eq_some.mp here
        cases found'.symm.trans found
        exact poolMut_of_lookup hp
      have foreign : k.flat ∉ (metas.filterMap (placeBlock B nodeId poolTarget chain)).map fun b => b.id.blockHash := by
        rw [placed]
        intro mem
        refine out ⟨k.flat, mem, ?_⟩
        obtain ⟨rfl, kind⟩ := own
        rw [← kind]
        rfl
      have later := registerAll_lookup_of_notMem (p := ns.poolMut poolTarget) foreign
      rw [pools, mine, entry] at later
      have held : e.seqHash ∈ done.1.handles := by
        rw [← pools, mine]
        exact mem_registerAll_handles handle
      refine filed_eq_some.mpr ⟨done.1, e, ?_, later, held, same⟩
      rw [pool, if_pos own]
    · refine filed_eq_some.mpr ⟨p, e, ?_, entry, handle, same⟩
      rw [pool, if_neg own]
      exact here

theorem register_filed {reclaim : Int} (nodeId : String) (found : a.namespaces.lookup key = some ns)
    (whole : WholeChain key chain metas) (little : reclaim ≤ 0)
    (plan : a.planAdmit key (newFlats (ns.pools.lookup poolTarget) chain).card = .ok (.accept 0 reclaim))
    (durable : ∀ m ∈ metas, durableFirst m = true) :
    ∃ b, a.register nodeId chain metas = (b, .ok .accepted) ∧ Filed a nodeId key chain metas b := by
  obtain ⟨b, answer, filed⟩ := insertBatch_filed nodeId found whole
  refine ⟨b, ?_, filed⟩
  have nonempty : metas ≠ [] := by
    rintro rfl
    have hashes := whole.hashes
    exact whole.some hashes.symm
  have admitted : a.admitRegisterBytes key (newFlats (ns.pools.lookup poolTarget) chain).card = (a, .ok .accepted) := by
    have idle : a.commitAdmit key 0 reclaim = a := if_neg (not_lt.mpr little)
    rw [admitRegisterBytes, plan]
    dsimp only
    rw [idle]
  rw [register, if_neg nonempty, whole.check]
  dsimp only
  rw [found]
  dsimp only
  rw [whole.hashes, admitted]
  dsimp only
  rw [if_pos (all_eq_true.mpr durable)]
  exact answer

end Authority

end LakeKv
