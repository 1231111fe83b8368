import LakeKv.BatchRegistration
import LakeKv.CheckpointRoundTrip
import LakeKv.Evictions

namespace LakeKv

open Backend Entry Finmap List

variable {B : Backend}

namespace PoolView

variable {p : PoolView B}

def seq? (p : PoolView B) (f : Flat) : Option B.Seq :=
  (p.byFlat.lookup f).map Entry.seqHash

/-- A lookup goes on for as long as the pool has the blocks of the chain under the chain's lineage. -/
theorem le_length_lookupLoop_iff (requester : String) {steps : List (Flat × B.Seq)} {k : Nat} (le : k ≤ steps.length) :
    k ≤ (p.lookupLoop requester steps).1.length ↔ ∀ step ∈ steps.take k, p.seq? step.1 = some step.2 := by
  induction steps generalizing k with
  | nil =>
    cases Nat.le_zero.mp le
    exact ⟨nofun, fun _ => Nat.zero_le _⟩
  | cons step rest ih =>
    obtain ⟨f, s⟩ := step
    cases k with
    | zero => exact ⟨nofun, fun _ => Nat.zero_le _⟩
    | succ k =>
      have tail := ih (Nat.le_of_succ_le_succ le)
      rw [take_succ_cons, forall_mem_cons, ← tail]
      cases found : p.byFlat.lookup f with
      | none => simp [lookupLoop, seq?, found]
      | some e =>
        by_cases same : e.seqHash = s
        · simp [lookupLoop, seq?, found, same]
        · simp [lookupLoop, seq?, found, same]

theorem length_lookupLoop_le (p : PoolView B) (requester : String) (steps : List (Flat × B.Seq)) :
    (p.lookupLoop requester steps).1.length ≤ steps.length := by
  induction steps with
  | nil => exact le_rfl
  | cons step rest ih =>
    obtain ⟨f, s⟩ := step
    unfold lookupLoop
    split
    · exact Nat.zero_le _
    split
    · exact Nat.zero_le _
    rw [length_cons, length_cons]
    exact Nat.succ_le_succ ih

/-- What the loop leaves of a block, as far as it is decided by the block's place in the chain. -/
theorem map_registerAll {α : Type} (value : Entry B → α) (valueOf : Flat → Option α) (placed : List (PlacedBlock B))
    (placedAs : ∀ b ∈ placed, ∀ e : Entry B, e.seqHash = b.seq → e.prefixChain = b.chain →
      some (value e) = valueOf b.id.blockHash) (p : PoolView B) (f : Flat) :
    ((p.registerAll placed).1.byFlat.lookup f).map value =
      if f ∈ placed.map (fun b => b.id.blockHash) then valueOf f else (p.byFlat.lookup f).map value := by
  induction placed generalizing p with
  | nil => rfl
  | cons b rest ih =>
    have tail := ih (fun b mem => placedAs b (mem_cons_of_mem _ mem)) (p.registerPlaced b)
    have here : ((p.registerPlaced b).byFlat.lookup f).map value =
        if f = b.id.blockHash then valueOf b.id.blockHash else (p.byFlat.lookup f).map value := by
      unfold registerPlaced registerBlock
      rw [lookup_insert_if]
      split
      · exact placedAs b mem_cons_self _ rfl rfl
      · rfl
    unfold registerAll
    dsimp only
    rw [tail, here, map_cons]
    by_cases later : f ∈ rest.map (fun b => b.id.blockHash)
    · rw [if_pos later, if_pos (mem_cons_of_mem _ later)]
    rw [if_neg later]
    by_cases same : f = b.id.blockHash
    · rw [if_pos same, if_pos (same ▸ mem_cons_self), same]
    · rw [if_neg same, if_neg fun mem => (mem_cons.mp mem).elim same later]

end PoolView

def chainSeq (B : Backend) (chain : List Flat) (f : Flat) : Option B.Seq :=
  (lastIndexOf f chain).bind fun i => (B.lineageFromPrefix chain)[i]?

theorem chainSeq_placed {node : String} {pk : Int} {chain : List Flat} {metas : List BlockMeta} {b : PlacedBlock B}
    (mem : b ∈ metas.filterMap (placeBlock B node pk chain)) : chainSeq B chain b.id.blockHash = some b.seq := by
  obtain ⟨m, -, placed⟩ := mem_filterMap.mp mem
  unfold placeBlock at placed
  simp only [Option.bind_eq_bind, Option.bind_eq_some_iff, Option.pure_def, Option.some.injEq] at placed
  obtain ⟨id, -, pos, found, seq, here, rfl⟩ := placed
  unfold chainSeq
  rw [found]
  exact here

theorem chainSeq_zip {chain : List Flat} (nodup : chain.Nodup) {step : Flat × B.Seq}
    (mem : step ∈ chain.zip (B.lineageFromPrefix chain)) : chainSeq B chain step.1 = some step.2 := by
  obtain ⟨i, lt, eq⟩ := getElem_of_mem mem
  rw [getElem_zip] at eq
  subst eq
  unfold chainSeq
  have bound : i < chain.length := by
    rw [length_zip] at lt
    omega
  rw [lastIndexOf_of_nodup nodup (getElem_mem bound), nodup.idxOf_getElem i bound, Option.bind_some]
  exact getElem?_eq_getElem _

section Steps

variable {chain : List Flat} {seqs : List B.Seq} {k : Nat} {step : Flat × B.Seq}

theorem mem_take_of_zip (mem : step ∈ (chain.zip seqs).take k) : step.1 ∈ chain.take k := by
  rw [zip_eq_zipWith, take_zipWith, ← zip_eq_zipWith] at mem
  exact (of_mem_zip mem).1

theorem mem_take_zip (mem : step ∈ chain.zip seqs) (early : step.1 ∉ chain.drop k) : step ∈ (chain.zip seqs).take k := by
  rw [← take_append_drop k (chain.zip seqs)] at mem
  rcases mem_append.mp mem with here | late
  · exact here
  · rw [zip_eq_zipWith, drop_zipWith, ← zip_eq_zipWith] at late
    exact absurd (of_mem_zip late).1 early

theorem zip_of_mem_take {f : Flat} (mem : f ∈ chain.take k) :
    ∃ s, (f, s) ∈ (chain.zip (B.lineageFromPrefix chain)).take k := by
  have hashes : (chain.zip (B.lineageFromPrefix chain)).map Prod.fst = chain :=
    map_fst_zip (lineageFromPrefix_length chain).ge
  rw [← hashes, ← map_take] at mem
  obtain ⟨step, early, rfl⟩ := mem_map.mp mem
  exact ⟨step.2, early⟩

end Steps

namespace Namespace

theorem byFlat_poolMut (ns : Namespace B) (pk : Int) (f : Flat) : (ns.poolMut pk).byFlat.lookup f = ns.entryAt pk f := by
  unfold poolMut entryAt
  cases ns.pools.lookup pk with
  | none | some => rfl

end Namespace

namespace Authority

variable {a : Authority B} {m r : String} {raw pk : Int} {chain : List Flat} {metas : List BlockMeta} {k : Nat}

structure SuffixBatch (m r : String) (pk : Int) (chain : List Flat) (k : Nat) (metas : List BlockMeta) : Prop where
  ids : ∀ id ∈ batchIds metas, id.modelId = m ∧ id.revision = r ∧ resolvePoolKind id.poolKind = .ok pk
  hashes : ∀ f, f ∈ (batchIds metas).map KvBlockId.blockHash ↔ f ∈ chain.drop k

/-- The blocks that admission of a batch evicts from the batch's own namespace. -/
def admissionVictims (a : Authority B) (key : NamespaceKey) (pk : Int) (metas : List BlockMeta) : List (Int × Flat) :=
  match a.namespaces.lookup key with
  | none => []
  | some ns =>
    let new := newFlats (ns.pools.lookup pk) ((batchIds metas).map KvBlockId.blockHash)
    (ns.evictInactiveN (ns.plannedEvictions new.card)).2.map fun r => (r.1, r.2.2)

theorem admissionVictims_nil (key : NamespaceKey) : a.admissionVictims key pk [] = [] := by
  unfold admissionVictims
  split
  · rfl
  · rfl

theorem SuffixBatch.target (batch : SuffixBatch m r pk chain k metas) {key : NamespaceKey} {pk' : Int}
    (check : checkBatch chain metas = .ok (key, pk')) : (⟨m, r⟩ : NamespaceKey) = key ∧ pk = pk' := by
  cases ids : batchIds metas with
  | nil =>
    unfold checkBatch at check
    rw [ids] at check
    cases check
  | cons id rest =>
    have mem : id ∈ batchIds metas := ids ▸ mem_cons_self
    obtain ⟨there, kind', -⟩ := checkBatch_eq_ok check mem
    obtain ⟨rfl, rfl, kind⟩ := batch.ids id mem
    exact ⟨there, Except.ok.inj (kind.symm.trans kind')⟩

theorem le_hits_iff (kind : resolvePoolKind raw = .ok pk) (le : k ≤ chain.length) (requester : String) :
    k ≤ (a.lookupPrefix m r raw chain requester).2.1 ↔ ∀ step ∈ (chain.zip (B.lineageFromPrefix chain)).take k,
        (a.block? ⟨m, r, pk, step.1⟩).map seqHash = some step.2 := by
  have steps : (chain.zip (B.lineageFromPrefix chain)).length = chain.length := by
    rw [length_zip, lineageFromPrefix_length, Nat.min_self]
  by_cases empty : chain = []
  · subst empty
    cases Nat.le_zero.mp le
    exact ⟨nofun, fun _ => Nat.zero_le _⟩
  · rw [lookupPrefix_of_resolve kind empty]
    dsimp only
    rw [PoolView.le_length_lookupLoop_iff requester (steps.symm ▸ le)]
    refine forall₂_congr fun step _ => ?_
    have pool : (a.block? ⟨m, r, pk, step.1⟩) = (a.pool? ⟨m, r⟩ pk).bind fun p => p.byFlat.lookup step.1 := rfl
    rw [pool]
    cases a.pool? ⟨m, r⟩ pk with
    | none | some => exact Iff.rfl

theorem hits_le (requester : String) : (a.lookupPrefix m r raw chain requester).2.1 ≤ chain.length := by
  unfold lookupPrefix
  split
  · exact Nat.zero_le _
  split
  · exact Nat.zero_le _
  next p _ =>
    have le := p.length_lookupLoop_le requester (chain.zip (B.lineageFromPrefix chain))
    rw [length_zip, lineageFromPrefix_length, Nat.min_self] at le
    exact le

theorem hits_eq_length_iff (kind : resolvePoolKind raw = .ok pk) (requester : String) :
    (a.lookupPrefix m r raw chain requester).2.1 = chain.length ↔ ∀ step ∈ chain.zip (B.lineageFromPrefix chain),
        (a.block? ⟨m, r, pk, step.1⟩).map seqHash = some step.2 := by
  have all := le_hits_iff (a := a) (m := m) (r := r) kind (le_refl chain.length) requester
  rw [take_of_length_le (by rw [length_zip]; exact Nat.min_le_left _ _)] at all
  rw [← all]
  exact ⟨fun eq => eq.ge, fun ge => le_antisymm (hits_le requester) ge⟩

variable {ns : Namespace B} {reclaim : Int} {n : Nat}

theorem block?_of_namespace (found : a.namespaces.lookup ⟨m, r⟩ = some ns) (pk : Int) (f : Flat) :
    a.block? ⟨m, r, pk, f⟩ = ns.entryAt pk f := by
  unfold block? pool? Namespace.entryAt
  dsimp only [BlockKey.ns]
  rw [found]
  rfl

section

variable (admits : a.Admits chain metas ⟨m, r⟩ pk ns n reclaim)
include admits

theorem Admits.victims : a.admissionVictims ⟨m, r⟩ pk metas = (ns.evictInactiveN n).2.map fun r => (r.1, r.2.2) := by
  unfold admissionVictims
  rw [admits.found, planAdmit_eq_accept admits.found admits.plan]

theorem Admits.seqHash (node : String) (f : Flat) :
    (((a.commitAdmit ⟨m, r⟩ n reclaim).insertBatch node ⟨m, r⟩ pk chain metas).1.block? ⟨m, r, pk, f⟩).map seqHash =
      if f ∈ (batchIds metas).map KvBlockId.blockHash then chainSeq B chain f
      else if (pk, f) ∈ a.admissionVictims ⟨m, r⟩ pk metas then none
      else (a.block? ⟨m, r, pk, f⟩).map seqHash := by
  have after := commitAdmit_lookup admits.found n reclaim
  have stored : ((a.commitAdmit ⟨m, r⟩ n reclaim).insertBatch node ⟨m, r⟩ pk chain metas).1.block? ⟨m, r, pk, f⟩ =
      (((ns.evictInactiveN n).1.poolMut pk).registerAll (metas.filterMap (placeBlock B node pk chain))).1.byFlat.lookup f := by
    unfold insertBatch
    rw [after]
    unfold block? pool?
    simp [emit, setNs, Namespace.setPool, BlockKey.ns]
  have seq := PoolView.map_registerAll Entry.seqHash (chainSeq B chain) (metas.filterMap (placeBlock B node pk chain))
    (fun b mem e here _ => here ▸ (chainSeq_placed mem).symm) ((ns.evictInactiveN n).1.poolMut pk) f
  rw [(ns.evictInactiveN n).1.byFlat_poolMut, ns.entryAt_evictInactiveN n pk f, apply_ite (Option.map Entry.seqHash)] at seq
  rw [stored, seq, placed_hashes admits.check, admits.victims, block?_of_namespace admits.found]
  rfl

end

/-- Registering the rest of a chain makes all of it a hit, exactly if admission evicts none of the blocks before it. -/
theorem suffix_extends_hit_iff (a : Authority B) (kind : resolvePoolKind raw = .ok pk) (nodup : chain.Nodup)
    (le : k ≤ chain.length) (requester node : String) (hit : k ≤ (a.lookupPrefix m r raw chain requester).2.1)
    (batch : SuffixBatch m r pk chain k metas) (accepted : (a.register node chain metas).2 = .ok .accepted) :
    ((a.register node chain metas).1.lookupPrefix m r raw chain requester).2.1 = chain.length ↔
      ∀ f ∈ chain.take k, (pk, f) ∉ a.admissionVictims ⟨m, r⟩ pk metas := by
  have before := (le_hits_iff kind le requester).mp hit
  rcases a.register_cases node chain metas with ⟨rfl, same⟩ | ⟨key, pk', ns, n, reclaim, admits⟩ | ⟨-, refused⟩
  · -- no blocks: the whole chain was a hit, and nothing is evicted
    have whole : chain.length ≤ k := by
      refine drop_eq_nil_iff.mp (eq_nil_iff_forall_not_mem.mpr fun f mem => ?_)
      exact absurd ((batch.hashes f).mpr mem) not_mem_nil
    have hits : (a.lookupPrefix m r raw chain requester).2.1 ≤ chain.length := hits_le requester
    rw [same]
    refine iff_of_true ?_ fun f _ => ?_
    · dsimp only
      omega
    · rw [admissionVictims_nil]
      exact not_mem_nil
  · obtain ⟨rfl, rfl⟩ := batch.target admits.check
    have durable : metas.all durableFirst = true := by
      by_contra missing
      rw [admits.register node, if_neg missing] at accepted
      cases accepted
    rw [hits_eq_length_iff kind, admits.register node, if_pos durable]
    simp only [admits.seqHash]
    constructor
    · intro found f mem victim
      obtain ⟨s, step⟩ := zip_of_mem_take mem
      have here := found (f, s) (mem_of_mem_take step)
      have other : f ∉ (batchIds metas).map KvBlockId.blockHash := fun mem' =>
        disjoint_take_drop nodup le_rfl mem ((batch.hashes f).mp mem')
      rw [if_neg other, if_pos victim] at here
      cases here
    · intro kept step mem
      split
      next => exact chainSeq_zip nodup mem
      next other =>
        have early : step ∈ (chain.zip (B.lineageFromPrefix chain)).take k :=
          mem_take_zip mem fun late => other ((batch.hashes _).mpr late)
        rw [if_neg (kept step.1 (mem_take_of_zip early))]
        exact before step early
  · exact absurd accepted refused

end Authority

/-- At the hard quota the rest of a chain is accepted in the place of the chain's first block. -/
theorem suffix_evicts_its_chain : (sampleRun Authority.fullRun).Reachable ∧
      ((sampleRun Authority.fullRun).lookupPrefix "m" "r" poolTarget [[1], [3]] "n").2.1 = 1 ∧
      ((sampleRun Authority.fullRun).register "n" [[1], [3]] [sampleMeta 3]).2 = .ok .accepted ∧
      (((sampleRun Authority.fullRun).register "n" [[1], [3]] [sampleMeta 3]).1.lookupPrefix "m" "r" poolTarget
        [[1], [3]] "n").2.1 = 0 := by
  refine ⟨sampleRun_reachable _, ?_⟩
  decide +kernel

/-- Behind the block that is in use the same happens to the inactive one, and the chain is extended. -/
theorem suffix_evicts_another :
    (((sampleRun Authority.fullRun).register "n" [[2], [3]] [sampleMeta 3]).1.lookupPrefix "m" "r" poolTarget
        [[2], [3]] "n").2.1 = 2 ∧
      ((sampleRun Authority.fullRun).register "n" [[2], [3]] [sampleMeta 3]).1.block? ⟨"m", "r", poolTarget, [1]⟩ = none := by
  refine ⟨?_, by decide +kernel⟩
  refine (Authority.suffix_extends_hit_iff (k := 1) (sampleRun Authority.fullRun) rfl ?_ ?_ "n" "n" ?_
    ⟨?_, fun _ => Iff.rfl⟩ ?_).mpr ?_
  all_goals decide +kernel

end LakeKv
