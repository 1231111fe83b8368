import LakeKv.AdmissionRules

namespace LakeKv

open Finmap List PoolView

variable {B : Backend}

namespace PoolView

variable {p : PoolView B}

variable (hB : B.Lawful)
include hB

theorem nodes_dropInactiveVictims {s : B.Seq} (out : s ∉ B.nodes p.inactive) (n : Nat) :
    s ∉ B.nodes (p.dropInactiveVictims n).1.inactive := by
  rw [inactive_dropInactiveVictims, mem_nodes_allocate hB]
  exact fun mem => out mem.1

theorem exists_dropped {n : Nat} (pos : 0 < n) (some : 0 < B.len p.inactive) :
    ∃ s, s ∈ B.nodes p.inactive ∧ s ∉ B.nodes (p.dropInactiveVictims n).1.inactive := by
  have length := hB.allocate_length p.inactive n
  cases victims : (B.allocate p.inactive n).1 with
  | nil =>
    rw [victims, length_nil] at length
    omega
  | cons v vs =>
    obtain ⟨s, b⟩ := v
    have mem : (s, b) ∈ (B.allocate p.inactive n).1 := victims ▸ mem_cons_self
    refine ⟨s, mem_nodes_of_victim hB (mem_map_of_mem mem), ?_⟩
    rw [inactive_dropInactiveVictims, mem_nodes_allocate hB]
    exact fun stays => stays.2 (mem_map_of_mem mem)

theorem dropped_eq_nil (none : B.len p.inactive = 0) (n : Nat) : (p.dropInactiveVictims n).2 = [] := by
  have length := hB.allocate_length p.inactive n
  have victims : (B.allocate p.inactive n).1 = [] := eq_nil_of_length_eq_zero (by omega)
  unfold dropInactiveVictims
  dsimp only
  rw [victims]
  rfl

end PoolView

namespace Namespace

variable {ns : Namespace B}

def entryAt (ns : Namespace B) (pk : Int) (f : Flat) : Option (Entry B) :=
  (ns.pools.lookup pk).bind fun p => p.byFlat.lookup f

def Holds (ns : Namespace B) (pk : Int) (s : B.Seq) : Prop :=
  ∃ p, ns.pools.lookup pk = some p ∧ s ∈ B.nodes p.inactive

theorem entryAt_setPool (ns : Namespace B) (pk pk' : Int) (p : PoolView B) (f : Flat) :
    (ns.setPool pk p).entryAt pk' f = if pk' = pk then p.byFlat.lookup f else ns.entryAt pk' f := by
  unfold entryAt setPool
  rw [lookup_insert_if]
  split <;> rfl

theorem entryAt_evictKinds (kinds : List Int) (ns : Namespace B) (left : Nat) (pk : Int) (f : Flat) :
    (ns.evictKinds kinds left).1.entryAt pk f =
      if (pk, f) ∈ (ns.evictKinds kinds left).2.map (fun r => (r.1, r.2.2)) then none else ns.entryAt pk f := by
  induction kinds generalizing ns left with
  | nil => rfl
  | cons k ks ih =>
    unfold evictKinds
    split
    · rfl
    split
    · exact ih ns left
    next pool found =>
      dsimp only
      have here : ns.entryAt k f = pool.byFlat.lookup f := by
        unfold entryAt
        rw [found]
        rfl
      rw [ih, entryAt_setPool, map_append, map_map]
      by_cases later : (pk, f) ∈ ((ns.setPool k (pool.dropInactiveVictims left).1).evictKinds ks
          (left - (pool.dropInactiveVictims left).2.length)).2.map (fun r => (r.1, r.2.2))
      · rw [if_pos later, if_pos (mem_append_right _ later)]
      · rw [if_neg later]
        by_cases same : pk = k
        · subst same
          rw [if_pos rfl, byFlat_dropInactiveVictims, here]
          by_cases now : f ∈ (pool.dropInactiveVictims left).2.map Prod.snd
          · rw [if_pos now, if_pos]
            obtain ⟨r, mem, rfl⟩ := mem_map.mp now
            exact mem_append_left _ (mem_map.mpr ⟨r, mem, rfl⟩)
          · rw [if_neg now, if_neg]
            intro mem
            rcases mem_append.mp mem with mem | mem
            · obtain ⟨r, mem, eq⟩ := mem_map.mp mem
              exact now (mem_map.mpr ⟨r, mem, (Prod.mk.inj eq).2⟩)
            · exact later mem
        · rw [if_neg same, if_neg]
          intro mem
          rcases mem_append.mp mem with mem | mem
          · obtain ⟨r, -, eq⟩ := mem_map.mp mem
            exact same (Prod.mk.inj eq).1.symm
          · exact later mem

theorem entryAt_evictInactiveN (ns : Namespace B) (n : Nat) (pk : Int) (f : Flat) :
    (ns.evictInactiveN n).1.entryAt pk f =
      if (pk, f) ∈ (ns.evictInactiveN n).2.map (fun r => (r.1, r.2.2)) then none else ns.entryAt pk f := by
  unfold evictInactiveN
  split
  · rfl
  · exact entryAt_evictKinds _ ns n pk f

variable {s : B.Seq} {pk : Int}

theorem holds_setPool {pk k : Int} {p : PoolView B} :
    (ns.setPool k p).Holds pk s ↔ if pk = k then s ∈ B.nodes p.inactive else ns.Holds pk s := by
  unfold Holds setPool
  simp only [lookup_insert_if]
  split
  · exact ⟨fun ⟨_, eq, mem⟩ => Option.some.inj eq ▸ mem, fun mem => ⟨p, rfl, mem⟩⟩
  · exact Iff.rfl

theorem not_holds_evictKinds (hB : B.Lawful) (kinds : List Int) (ns : Namespace B) (left : Nat)
    (out : ¬ ns.Holds pk s) : ¬ (ns.evictKinds kinds left).1.Holds pk s := by
  induction kinds generalizing ns left with
  | nil => exact out
  | cons k ks ih =>
    unfold evictKinds
    split
    · exact out
    split
    · exact ih ns left out
    next pool found =>
      refine ih _ _ ?_
      rw [holds_setPool]
      split
      next same => exact nodes_dropInactiveVictims hB (fun mem => out ⟨pool, same ▸ found, mem⟩) left
      · exact out

theorem evictKinds_releases (hB : B.Lawful) (kinds : List Int) (ns : Namespace B) {left : Nat} (pos : 0 < left)
    {k : Int} {p : PoolView B} (mem : k ∈ kinds) (found : ns.pools.lookup k = some p) (some : 0 < B.len p.inactive) :
    ∃ pk s, ns.Holds pk s ∧ ¬ (ns.evictKinds kinds left).1.Holds pk s := by
  induction kinds generalizing ns with
  | nil => exact absurd mem not_mem_nil
  | cons k' ks ih =>
    unfold evictKinds
    rw [if_neg (by omega)]
    split
    next none =>
      rcases mem_cons.mp mem with rfl | mem
      · cases found.symm.trans none
      · exact ih ns mem found
    next pool here =>
      by_cases empty : B.len pool.inactive = 0
      · -- nothing goes here, and the loop moves on with as much to evict as before
        have ne : k ≠ k' := by
          rintro rfl
          cases found.symm.trans here
          omega
        have dropped := dropped_eq_nil hB empty left
        dsimp only
        rw [dropped, length_nil, Nat.sub_zero]
        have found' : (ns.setPool k' (pool.dropInactiveVictims left).1).pools.lookup k = Option.some p := by
          rw [setPool, lookup_insert_of_ne _ ne]
          exact found
        obtain ⟨pk, s, held, gone⟩ :=
          ih (ns.setPool k' (pool.dropInactiveVictims left).1) ((mem_cons.mp mem).resolve_left ne) found'
        refine ⟨pk, s, ?_, gone⟩
        rw [holds_setPool] at held
        split at held
        next same =>
          by_contra out
          exact nodes_dropInactiveVictims hB (fun mem => out ⟨pool, same ▸ here, mem⟩) left held
        · exact held
      · obtain ⟨s, held, gone⟩ := exists_dropped hB pos (Nat.pos_of_ne_zero empty)
        refine ⟨k', s, ⟨pool, here, held⟩, not_holds_evictKinds hB ks _ _ ?_⟩
        rw [holds_setPool, if_pos rfl]
        exact gone

theorem not_holds_evictInactiveN (hB : B.Lawful) (n : Nat) (out : ¬ ns.Holds pk s) :
    ¬ (ns.evictInactiveN n).1.Holds pk s := by
  unfold evictInactiveN
  split
  · exact out
  · exact not_holds_evictKinds hB _ ns n out

theorem inactiveLen_pos_iff : 0 < ns.inactiveLen ↔ ∃ k p, ns.pools.lookup k = some p ∧ 0 < B.len p.inactive := by
  unfold inactiveLen total
  rw [Nat.pos_iff_ne_zero, Ne, Finset.sum_eq_zero_iff]
  constructor
  · intro some
    obtain ⟨k, some⟩ := not_forall.mp some
    obtain ⟨-, some⟩ := Classical.not_imp.mp some
    cases found : ns.pools.lookup k with
    | none =>
      rw [found] at some
      exact absurd rfl some
    | some p =>
      rw [found] at some
      exact ⟨k, p, found, Nat.pos_of_ne_zero some⟩
  · rintro ⟨k, p, found, pos⟩ zero
    have none := zero k (mem_keys.mpr (mem_of_lookup_eq_some found))
    rw [found] at none
    exact absurd none (Nat.pos_iff_ne_zero.mp pos)

variable (hB : B.Lawful)
include hB

theorem evictInactiveN_releases {n : Nat} (pos : 0 < n) (some : 0 < ns.inactiveLen) :
    ∃ pk s, ns.Holds pk s ∧ ¬ (ns.evictInactiveN n).1.Holds pk s := by
  obtain ⟨k, p, found, len⟩ := inactiveLen_pos_iff.mp some
  unfold evictInactiveN
  rw [if_neg (by omega)]
  exact evictKinds_releases hB _ ns pos (Finset.mem_ascending.mpr (mem_keys.mpr (mem_of_lookup_eq_some found))) found len

theorem evicted_eq_nil (none : ns.inactiveLen = 0) (n : Nat) : (ns.evictInactiveN n).2 = [] := by
  have loop : ∀ (kinds : List Int) (ns : Namespace B) (left : Nat),
      (∀ k p, ns.pools.lookup k = some p → B.len p.inactive = 0) → (ns.evictKinds kinds left).2 = [] := by
    intro kinds
    induction kinds with
    | nil => exact fun _ _ _ => rfl
    | cons k ks ih =>
      intro ns left empty
      unfold evictKinds
      split
      · rfl
      split
      · exact ih ns left empty
      next pool found =>
        have dropped := dropped_eq_nil hB (empty k pool found) left
        dsimp only
        rw [dropped, map_nil, nil_append]
        refine ih _ _ fun k' p' found' => ?_
        rw [setPool, lookup_insert_if] at found'
        split at found'
        · obtain rfl := Option.some.inj found'
          have len := hB.len_eq (pool.dropInactiveVictims left).1.inactive
          rw [len, Finset.card_eq_zero, Finset.eq_empty_iff_forall_notMem]
          intro s mem
          refine nodes_dropInactiveVictims hB (fun held => ?_) left (mem_keys.mp mem)
          have card := (hB.len_eq pool.inactive).symm.trans (empty k pool found)
          exact absurd (mem_keys.mpr held) (Finset.eq_empty_iff_forall_notMem.mp (Finset.card_eq_zero.mp card) s)
        · exact empty k' p' found'
  unfold evictInactiveN
  split
  · rfl
  refine loop _ ns n fun k p found => ?_
  by_contra pos
  have some := inactiveLen_pos_iff.mpr ⟨k, p, found, Nat.pos_of_ne_zero pos⟩
  omega

end Namespace

namespace Authority

variable {a : Authority B} {chain : List Flat} {metas : List BlockMeta} {key : NamespaceKey}

/-- What a registration passes before anything changes: the checks of the batch, its namespace and an accepting plan. -/
structure Admits (a : Authority B) (chain : List Flat) (metas : List BlockMeta) (key : NamespaceKey) (pk : Int)
    (ns : Namespace B) (n : Nat) (reclaim : Int) : Prop where
  batch : metas ≠ []
  check : checkBatch chain metas = .ok (key, pk)
  found : a.namespaces.lookup key = some ns
  plan : a.planAdmit key (newFlats (ns.pools.lookup pk) ((batchIds metas).map KvBlockId.blockHash)).card =
    .ok (.accept n reclaim)

theorem Admits.register {pk : Int} {ns : Namespace B} {n : Nat} {reclaim : Int}
    (admits : a.Admits chain metas key pk ns n reclaim) (node : String) : a.register node chain metas =
      if metas.all durableFirst then (a.commitAdmit key n reclaim).insertBatch node key pk chain metas
      else (a.commitAdmit key n reclaim,
        .error (.err "RegisterBlocks: need L2 location or l3_present (durable first)")) := by
  unfold Authority.register
  simp only [if_neg admits.batch, admits.check, admits.found, admitRegisterBytes, admits.plan]

theorem insertBatch_accepted {ns : Namespace B} (found : a.namespaces.lookup key = some ns)
    (node : String) (pk : Int) : (a.insertBatch node key pk chain metas).2 = .ok .accepted := by
  unfold insertBatch
  rw [found]

theorem register_cases (a : Authority B) (node : String) (chain : List Flat) (metas : List BlockMeta) :
    (metas = [] ∧ a.register node chain metas = (a, .ok .accepted)) ∨
      (∃ key pk ns n reclaim, a.Admits chain metas key pk ns n reclaim) ∨
      ((a.register node chain metas).1 = a ∧ (a.register node chain metas).2 ≠ .ok .accepted) := by
  by_cases batch : metas = []
  · refine .inl ⟨batch, ?_⟩
    unfold register
    rw [if_pos batch]
  refine .inr ?_
  by_cases admits : ∃ key pk ns n reclaim, a.Admits chain metas key pk ns n reclaim
  · exact .inl admits
  refine .inr ?_
  unfold register
  rw [if_neg batch]
  split
  · exact ⟨rfl, nofun⟩
  next key pk check =>
    split
    · exact ⟨rfl, nofun⟩
    next ns found =>
      dsimp only
      unfold admitRegisterBytes
      cases plan : a.planAdmit key (newFlats (ns.pools.lookup pk) ((batchIds metas).map KvBlockId.blockHash)).card with
      | error => exact ⟨rfl, nofun⟩
      | ok plan' =>
        cases plan' with
        | reject => exact ⟨rfl, nofun⟩
        | accept n reclaim => exact absurd ⟨key, pk, ns, n, reclaim, batch, check, found, plan⟩ admits

end Authority

end LakeKv
