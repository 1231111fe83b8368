import LakeKv.SampleBackend
import LakeKv.ShardOwnership

theorem List.nodup_flatMap_of_tag {α β : Type} {l : List α} {f : α → List β} (tag : β → α)
    (nodup : l.Nodup) (each : ∀ x ∈ l, (f x).Nodup) (tagged : ∀ x ∈ l, ∀ y ∈ f x, tag y = x) :
    (l.flatMap f).Nodup := by
  refine nodup_flatMap.mpr ⟨each, ?_⟩
  refine nodup.pairwise_of_forall_ne ?_
  intro x hx x' hx' ne y hy hy'
  exact ne ((tagged x hx y hy).symm.trans (tagged x' hx' y hy'))

theorem List.map_filterMap_sublist {α β γ : Type} {f : α → Option β} {g : β → γ} {h : α → γ}
    (eq : ∀ x y, f x = some y → g y = h x) (xs : List α) : ((xs.filterMap f).map g).Sublist (xs.map h) := by
  induction xs with
  | nil => exact List.Sublist.refl _
  | cons x xs ih =>
    cases hx : f x with
    | none =>
      rw [filterMap_cons_none hx]
      exact ih.cons (h x)
    | some y =>
      rw [filterMap_cons_some hx, map_cons, map_cons, eq x y hx]
      exact ih.cons_cons (h x)

namespace LakeKv

open Authority BlockKey Finmap Function List Option

namespace Authority

variable {B : Backend} {a : Authority B}

section BlockKeys

variable {key : NamespaceKey} {pk : Int} {p : PoolView B} {ns : Namespace B} {x : Flat × KvBlockId} {e : Entry B}

theorem mem_poolBlockKeys (hB : B.Lawful) : x ∈ poolBlockKeys key pk p ↔
      ∃ e, p.byFlat.lookup x.1 = some e ∧ x.2 = listedId key pk x.1 e := by
  obtain ⟨flat, id⟩ := x
  simp only [poolBlockKeys, mem_filterMap, map_eq_some_iff, Prod.mk.injEq]
  constructor
  · rintro ⟨f, -, e, he, rfl, rfl⟩
    exact ⟨e, he, rfl⟩
  · rintro ⟨e, he, rfl⟩
    have listed : flat ∈ B.flatOrder p.byFlat.keys :=
      ((hB.flatOrder _).2 flat).mpr (Finmap.mem_keys.mpr (mem_iff.mpr ⟨e, he⟩))
    exact ⟨flat, listed, e, he, rfl, rfl⟩

theorem mem_nsBlockKeys (hB : B.Lawful) : x ∈ nsBlockKeys key ns ↔
      ∃ pk p e, ns.pools.lookup pk = some p ∧ p.byFlat.lookup x.1 = some e ∧ x.2 = listedId key pk x.1 e := by
  simp only [nsBlockKeys, mem_flatMap, Finset.mem_ascending]
  constructor
  · rintro ⟨pk, -, hx⟩
    cases hp : ns.pools.lookup pk with
    | none => simp [hp] at hx
    | some p =>
      simp only [hp, map_some, getD_some] at hx
      obtain ⟨e, he, hid⟩ := (mem_poolBlockKeys hB).mp hx
      exact ⟨pk, p, e, hp, he, hid⟩
  · rintro ⟨pk, p, e, hp, he, hid⟩
    refine ⟨pk, Finmap.mem_keys.mpr (mem_iff.mpr ⟨p, hp⟩), ?_⟩
    simp only [hp, map_some, getD_some]
    exact (mem_poolBlockKeys hB).mpr ⟨e, he, hid⟩

theorem mem_allBlockKeys (hB : B.Lawful) : x ∈ a.allBlockKeys ↔
      ∃ k e, a.block? k = some e ∧ x = (k.flat, listedId k.ns k.poolKind k.flat e) := by
  obtain ⟨flat, id⟩ := x
  simp only [allBlockKeys, mem_insertionSort, mem_flatMap, Finset.mem_ascending, Prod.mk.injEq]
  constructor
  · rintro ⟨key, -, hx⟩
    cases hns : a.namespaces.lookup key with
    | none => simp [hns] at hx
    | some ns =>
      simp only [hns, map_some, getD_some] at hx
      obtain ⟨pk, p, e, hp, he, hid⟩ := (mem_nsBlockKeys hB).mp hx
      refine ⟨⟨key.modelId, key.revision, pk, flat⟩, e, ?_, rfl, hid⟩
      exact block?_eq_some.mpr ⟨p, by simp [pool?, BlockKey.ns, hns, hp], he⟩
  · rintro ⟨k, e, hk, rfl, rfl⟩
    obtain ⟨p, hp, he⟩ := block?_eq_some.mp hk
    obtain ⟨ns, hns, hp⟩ := bind_eq_some_iff.mp hp
    refine ⟨k.ns, Finmap.mem_keys.mpr (mem_iff.mpr ⟨ns, hns⟩), ?_⟩
    simp only [hns, map_some, getD_some]
    exact (mem_nsBlockKeys hB).mpr ⟨k.poolKind, p, e, hp, he, rfl⟩

theorem keyed_listedId {flat : Flat} (h : e.Keyed key pk flat) :
    e.blockMeta.id = some (listedId key pk flat e) ∧ NamespaceKey.fromId (listedId key pk flat e) = key ∧
      (listedId key pk flat e).poolKind = pk ∧ (listedId key pk flat e).blockHash = flat := by
  obtain ⟨id, hid, facts⟩ := h.id
  have eq : listedId key pk flat e = id := by simp [listedId, hid]
  rw [eq]
  exact ⟨hid, facts⟩

theorem Keyed.fromId_listedId (hk : a.Keyed) {k : BlockKey} (he : a.block? k = some e) :
    e.blockMeta.id = some (listedId k.ns k.poolKind k.flat e) ∧ fromId (listedId k.ns k.poolKind k.flat e) = k := by
  obtain ⟨p, hp, hf⟩ := block?_eq_some.mp he
  have keyed := hk k.ns k.poolKind p hp k.flat e hf
  obtain ⟨hid, hns, hkind, hflat⟩ := keyed_listedId keyed
  refine ⟨hid, ?_⟩
  have nonzero : k.poolKind ≠ 0 := by
    rcases keyed.kind with h | h
    · rw [h]
      decide
    · rw [h]
      decide
  have hmodel := congrArg NamespaceKey.modelId hns
  have hrevision := congrArg NamespaceKey.revision hns
  simp only [NamespaceKey.fromId, BlockKey.ns] at hmodel hrevision
  rw [fromId, hkind, hflat, if_neg nonzero]
  exact congrArg₂ (fun m r => BlockKey.mk m r k.poolKind k.flat) hmodel hrevision

variable (hB : B.Lawful)
include hB

theorem nodup_poolBlockKeys (hk : ∀ flat e, p.byFlat.lookup flat = some e → e.Keyed key pk flat) :
    ((poolBlockKeys key pk p).map Prod.snd).Nodup := by
  rw [poolBlockKeys, map_filterMap]
  refine (hB.flatOrder p.byFlat.keys).1.filterMap ?_
  intro flat flat' id h h'
  simp only [Option.mem_def, Option.map_map, map_eq_some_iff, comp_apply] at h h'
  obtain ⟨e, he, rfl⟩ := h
  obtain ⟨e', he', eq⟩ := h'
  have first := (keyed_listedId (hk flat e he)).2.2.2
  have second := (keyed_listedId (hk flat' e' he')).2.2.2
  rw [← first, ← second, eq]

theorem nodup_nsBlockKeys (hk : ∀ pk p, ns.pools.lookup pk = some p →
      ∀ flat e, p.byFlat.lookup flat = some e → e.Keyed key pk flat) : ((nsBlockKeys key ns).map Prod.snd).Nodup := by
  rw [nsBlockKeys, map_flatMap]
  refine nodup_flatMap_of_tag KvBlockId.poolKind (Finset.nodup_ascending _) ?_ ?_
  · intro pk _
    cases hp : ns.pools.lookup pk with
    | none => simp
    | some p => exact nodup_poolBlockKeys hB (hk pk p hp)
  · intro pk _ id hid
    cases hp : ns.pools.lookup pk with
    | none => simp [hp] at hid
    | some p =>
      simp only [hp, map_some, getD_some, List.mem_map] at hid
      obtain ⟨x, hx, rfl⟩ := hid
      obtain ⟨e, he, eq⟩ := (mem_poolBlockKeys hB).mp hx
      rw [eq]
      exact (keyed_listedId (hk pk p hp x.1 e he)).2.2.1

theorem Keyed.nodup_allBlockKeys (hk : a.Keyed) : (a.allBlockKeys.map Prod.snd).Nodup := by
  have perm := (perm_insertionSort (fun x y : Flat × KvBlockId => x.1 ≤ y.1)
    (a.namespaces.keys.ascending.flatMap fun key =>
      ((a.namespaces.lookup key).map (nsBlockKeys key)).getD [])).map Prod.snd
  refine perm.nodup_iff.mpr ?_
  have pools : ∀ key ns, a.namespaces.lookup key = some ns → ∀ pk p, ns.pools.lookup pk = some p →
      ∀ flat e, p.byFlat.lookup flat = some e → e.Keyed key pk flat := by
    intro key ns hns pk p hp
    exact hk key pk p (by simp [pool?, hns, hp])
  rw [map_flatMap]
  refine nodup_flatMap_of_tag NamespaceKey.fromId (Finset.nodup_ascending _) ?_ ?_
  · intro key _
    cases hns : a.namespaces.lookup key with
    | none => simp
    | some ns => exact nodup_nsBlockKeys hB (pools key ns hns)
  · intro key _ id hid
    cases hns : a.namespaces.lookup key with
    | none => simp [hns] at hid
    | some ns =>
      simp only [hns, map_some, getD_some, List.mem_map] at hid
      obtain ⟨x, hx, rfl⟩ := hid
      obtain ⟨pk, p, e, hp, he, eq⟩ := (mem_nsBlockKeys hB).mp hx
      rw [eq]
      exact (keyed_listedId (pools key ns hns pk p hp x.1 e he)).2.1

end BlockKeys

end Authority

namespace ShardHash

variable {H : ShardHash} {B : Backend} {a a' : Authority B} {r r' : ShardRing} {nodeId : String}
  {vnodeCount : Nat} {keys : List (Flat × KvBlockId)} {k : Flat × KvBlockId}
  {migrations : List ShardMigration} {map : ShardMap} {b : Bool}

theorem join_lookup_ownersOf (h : k ∈ keys) : ((H.ownersOf r keys).lookup k.1).join = H.ownerOf r k.1 := by
  have owners := lookup_foldl_insert (fun k : Flat × KvBlockId => k.1) (fun flat => H.ownerOf r flat) keys ∅ k.1
  rw [if_pos (mem_map_of_mem h)] at owners
  rw [ownersOf, owners, join_some]

variable {m : ShardMigration}

theorem joinMigration_eq_some (h : k ∈ keys) : H.joinMigration nodeId (H.ownersOf r keys) r' k = some m ↔
      ∃ source, H.ownerOf r k.1 = some source ∧ H.ownerOf r' k.1 = some nodeId ∧ source ≠ nodeId ∧
        m = ⟨some k.2, source, nodeId, false⟩ := by
  unfold joinMigration
  rw [join_lookup_ownersOf h]
  cases hold : H.ownerOf r k.1 with
  | none => simp
  | some source =>
    by_cases hnew : H.ownerOf r' k.1 = some nodeId
    · simp [hnew, eq_comm]
    · simp [hnew]

theorem drainMigration_eq_some : H.drainMigration nodeId r' k = some m ↔
      ∃ target, H.ownerOf r' k.1 = some target ∧ target ≠ nodeId ∧ m = ⟨some k.2, nodeId, target, true⟩ := by
  simp only [drainMigration, map_eq_some_iff, filter_eq_some_iff, decide_eq_true_eq]
  constructor
  · rintro ⟨target, ⟨howner, other⟩, rfl⟩
    exact ⟨target, howner, other, rfl⟩
  · rintro ⟨target, howner, other, rfl⟩
    exact ⟨target, ⟨howner, other⟩, rfl⟩

/-- The dedupe by identity passes every block when no identity is listed twice. -/
theorem migrations_foldl_drainBlock {before : Map Flat (Option String)} {plan : DrainPlan}
    (nodup : (keys.map fun k => blockIdentityKey k.2).Nodup)
    (fresh : ∀ k ∈ keys, blockIdentityKey k.2 ∉ plan.pushSeen) :
    (keys.foldl (H.drainBlock nodeId before r') plan).migrations = plan.migrations ++
        (keys.filter fun k => (before.lookup k.1).join = some nodeId).filterMap (H.drainMigration nodeId r') := by
  induction keys generalizing plan with
  | nil => simp
  | cons k keys ih =>
    have apart := nodup_cons.mp nodup
    have freshTail := (forall_mem_cons.mp fresh).2
    rw [foldl_cons]
    by_cases owned : (before.lookup k.1).join = some nodeId
    · have new := (forall_mem_cons.mp fresh).1
      have freshNext : ∀ x ∈ keys, blockIdentityKey x.2 ∉ insert (blockIdentityKey k.2) plan.pushSeen := by
        intro x hx seen
        rcases Finset.mem_insert.mp seen with eq | seen
        · exact apart.1 (mem_map.mpr ⟨x, hx, eq⟩)
        · exact freshTail x hx seen
      have taken : H.drainBlock nodeId before r' plan k =
          ⟨insert (blockIdentityKey k.2) plan.pushSeen, plan.pushL2 ++ [k.2],
            plan.migrations ++ (H.drainMigration nodeId r' k).toList⟩ := by
        simp [drainBlock, owned, new]
      rw [taken, ih apart.2 freshNext]
      cases hm : H.drainMigration nodeId r' k <;> simp [owned, hm]
    · have skipped : H.drainBlock nodeId before r' plan k = plan := by
        simp [drainBlock, owned]
      rw [skipped, ih apart.2 freshTail]
      simp [owned]

theorem migrations_foldl_pushPlaced (ids : List KvBlockId) (plan : DrainPlan) :
    (ids.foldl pushPlaced plan).migrations = plan.migrations := by
  induction ids generalizing plan with
  | nil => rfl
  | cons id ids ih =>
    rw [foldl_cons, ih, pushPlaced]
    split <;> rfl

theorem nodup_identityKeys (nodup : (keys.map Prod.snd).Nodup)
    (distinct : ∀ k ∈ keys, ∀ k' ∈ keys, blockIdentityKey k.2 = blockIdentityKey k'.2 → k.2 = k'.2) :
    (keys.map fun k => blockIdentityKey k.2).Nodup := by
  have eq : (keys.map fun k => blockIdentityKey k.2) = (keys.map Prod.snd).map blockIdentityKey := by
    rw [List.map_map]
    rfl
  rw [eq]
  refine nodup.map_on ?_
  intro x hx y hy same
  obtain ⟨k, hk, rfl⟩ := mem_map.mp hx
  obtain ⟨k', hk', rfl⟩ := mem_map.mp hy
  exact distinct k hk k' hk' same

theorem listed_eq_of_block (hB : B.Lawful) (hk : a.Keyed) {x y : Flat × KvBlockId}
    (hx : x ∈ a.allBlockKeys) (hy : y ∈ a.allBlockKeys)
    (same : fromId x.2 = fromId y.2) : x.2 = y.2 := by
  obtain ⟨k, e, he, rfl⟩ := (mem_allBlockKeys hB).mp hx
  obtain ⟨k', e', he', rfl⟩ := (mem_allBlockKeys hB).mp hy
  rw [(hk.fromId_listedId he).2, (hk.fromId_listedId he').2] at same
  subst same
  rw [he] at he'
  cases he'
  rfl

/-- A migration list names the registered blocks whose owner changed from one node to another,
each once, with both owners. -/
structure Lists (H : ShardHash) (a : Authority B) (r r' : ShardRing) (pushL2First : Bool)
    (migrations : List ShardMigration) : Prop where
  named : ∀ m, m ∈ migrations ↔ ∃ k e id source target, a.block? k = some e ∧
    e.blockMeta.id = some id ∧ BlockKey.fromId id = k ∧ H.ownerOf r k.flat = some source ∧
    H.ownerOf r' k.flat = some target ∧ source ≠ target ∧
    m = ⟨some id, source, target, pushL2First⟩
  once : (migrations.map fun m => m.id.map BlockKey.fromId).Nodup

theorem Lists.sort (h : Lists H a r r' b migrations) : Lists H a r r' b (sortMigrations migrations) where
  named m := by
    rw [sortMigrations, mem_insertionSort]
    exact h.named m
  once := ((perm_insertionSort _ migrations).map _).nodup_iff.mpr h.once

theorem once_of_filterMap (hB : B.Lawful) (hk : a.Keyed) (hkeys : keys.Sublist a.allBlockKeys)
    {f : Flat × KvBlockId → Option ShardMigration} (hid : ∀ k m, f k = some m → m.id = some k.2) :
    ((keys.filterMap f).map fun m => m.id.map fromId).Nodup := by
  have sub : ((keys.filterMap f).map fun m => m.id.map fromId).Sublist
      (a.allBlockKeys.map fun k => some (fromId k.2)) := by
    refine (map_filterMap_sublist ?_ keys).trans (hkeys.map _)
    intro k m hm
    rw [hid k m hm, map_some]
  refine sub.nodup ?_
  have blocks : (a.allBlockKeys.map fun k => some (fromId k.2)) =
      (a.allBlockKeys.map Prod.snd).map fun id => some (fromId id) := by
    rw [List.map_map]
    rfl
  rw [blocks]
  refine (hk.nodup_allBlockKeys hB).map_on ?_
  intro x hx y hy same
  obtain ⟨x', hx', rfl⟩ := mem_map.mp hx
  obtain ⟨y', hy', rfl⟩ := mem_map.mp hy
  exact listed_eq_of_block hB hk hx' hy' (some.inj same)

theorem joinShardNode_eq_ok (h : H.joinShardNode a nodeId vnodeCount = .ok (a', map, migrations)) :
    ∃ r', H.join a.shard nodeId vnodeCount = .ok r' ∧ a' = { a with shard := r' } ∧
      migrations = sortMigrations (a.allBlockKeys.filterMap
        (H.joinMigration nodeId (H.ownersOf a.shard a.allBlockKeys) r')) := by
  unfold joinShardNode at h
  obtain ⟨r', hj, h⟩ := bind_eq_ok h
  cases h
  exact ⟨r', hj, rfl, rfl⟩

theorem drainShardNode_eq_ok {push : List KvBlockId} (h : H.drainShardNode a nodeId = .ok (a', map, migrations, push)) :
    ∃ r', H.markDrain a.shard nodeId = .ok r' ∧ a' = { a with shard := r' } ∧
      migrations = sortMigrations (H.drainPlan a nodeId r').migrations := by
  unfold drainShardNode at h
  split at h
  · cases h
  · obtain ⟨r', hj, h⟩ := bind_eq_ok h
    cases h
    exact ⟨r', hj, rfl, rfl⟩

theorem lists_joinMigration (hB : B.Lawful) (hk : a.Keyed)
    (moves : ∀ key, H.ownerOf r' key = H.ownerOf r key ∨ H.ownerOf r' key = some nodeId) : Lists H a r r' false
      (a.allBlockKeys.filterMap (H.joinMigration nodeId (H.ownersOf r a.allBlockKeys) r')) where
  named m := by
    rw [mem_filterMap]
    constructor
    · rintro ⟨x, hx, hm⟩
      obtain ⟨source, hold, hnew, ne, rfl⟩ := (joinMigration_eq_some hx).mp hm
      obtain ⟨k, e, he, rfl⟩ := (Authority.mem_allBlockKeys hB).mp hx
      obtain ⟨hid, hkey⟩ := hk.fromId_listedId he
      exact ⟨k, e, _, source, nodeId, he, hid, hkey, hold, hnew, ne, rfl⟩
    · rintro ⟨k, e, id, source, target, he, hid, -, hold, hnew, ne, rfl⟩
      have listed := (hk.fromId_listedId he).1
      rw [hid] at listed
      cases listed
      have hx := (Authority.mem_allBlockKeys hB).mpr ⟨k, e, he, rfl⟩
      -- an owner that changed is the node that joins
      have target_eq : target = nodeId := by
        rcases moves k.flat with same | joined
        · rw [hold, hnew] at same
          exact absurd (some.inj same).symm ne
        · rw [hnew] at joined
          exact some.inj joined
      subst target_eq
      exact ⟨_, hx, (joinMigration_eq_some hx).mpr ⟨source, hold, hnew, ne, rfl⟩⟩
  once := by
    refine once_of_filterMap hB hk (List.Sublist.refl _) ?_
    intro k m hm
    unfold joinMigration at hm
    split at hm
    · obtain ⟨source, -, rfl⟩ := map_eq_some_iff.mp hm
      rfl
    · cases hm

/-- The plan of a drain lists the blocks that change owners, and no others. -/
theorem lists_drainPlan (hB : B.Lawful) (hk : a.Keyed)
    (moves : ∀ key, H.ownerOf r' key = H.ownerOf a.shard key ∨ H.ownerOf a.shard key = some nodeId) :
    Lists H a a.shard r' true (H.drainPlan a nodeId r').migrations := by
  have plan : (H.drainPlan a nodeId r').migrations = (a.allBlockKeys.filter fun k =>
        ((H.ownersOf a.shard a.allBlockKeys).lookup k.1).join = some nodeId).filterMap (H.drainMigration nodeId r') := by
    rw [drainPlan, migrations_foldl_pushPlaced, migrations_foldl_drainBlock]
    · exact nil_append _
    · refine nodup_identityKeys (hk.nodup_allBlockKeys hB) ?_
      intro x hx y hy same
      refine listed_eq_of_block hB hk hx hy ?_
      simp only [blockIdentityKey, Prod.mk.injEq] at same
      simp [fromId, same]
    · simp
  rw [plan]
  refine ⟨?_, ?_⟩
  · intro m
    simp only [mem_filterMap, mem_filter, decide_eq_true_eq]
    constructor
    · rintro ⟨x, ⟨hx, hold⟩, hm⟩
      rw [join_lookup_ownersOf hx] at hold
      obtain ⟨target, hnew, ne, rfl⟩ := drainMigration_eq_some.mp hm
      obtain ⟨k, e, he, rfl⟩ := (mem_allBlockKeys hB).mp hx
      obtain ⟨hid, hkey⟩ := hk.fromId_listedId he
      exact ⟨k, e, _, nodeId, target, he, hid, hkey, hold, hnew, ne.symm, rfl⟩
    · rintro ⟨k, e, id, source, target, he, hid, -, hold, hnew, ne, rfl⟩
      have listed := (hk.fromId_listedId he).1
      rw [hid] at listed
      cases listed
      have hx := (mem_allBlockKeys hB).mpr ⟨k, e, he, rfl⟩
      -- an owner that changed is the node that drains
      have source_eq : source = nodeId := by
        rcases moves k.flat with same | drained
        · rw [hold, hnew] at same
          exact absurd (some.inj same).symm ne
        · rw [hold] at drained
          exact some.inj drained
      subst source_eq
      refine ⟨_, ⟨hx, ?_⟩, drainMigration_eq_some.mpr ⟨target, hnew, ne.symm, rfl⟩⟩
      rw [join_lookup_ownersOf hx]
      exact hold
  · refine once_of_filterMap hB hk filter_sublist ?_
    intro k m hm
    obtain ⟨target, -, -, rfl⟩ := drainMigration_eq_some.mp hm
    rfl

/-- Ownership is a function of the ready nodes, moves only to a node that joins and from a node
that drains, and the migration lists say which blocks move from one node to another. -/
theorem ownership_moves (lawful : ListsOnce H.nodeOrder) {J : Set (String × Nat)}
    (apart : H.Apart J) (built : H.Built J r) :
    (∀ r', H.Built J r' → r.ready = r'.ready → ∀ key, H.ownerOf r key = H.ownerOf r' key) ∧
    (∀ nodeId vnodeCount r', (nodeId, countFor r vnodeCount) ∈ J →
      H.join r nodeId vnodeCount = .ok r' →
      (∀ key, H.ownerOf r' key = H.ownerOf r key ∨ H.ownerOf r' key = some nodeId) ∧
      ∃ drained removed, H.markDrain r' nodeId = .ok drained ∧
        H.remove drained nodeId = .ok removed ∧ ∀ key, H.ownerOf removed key = H.ownerOf r key) ∧
    (∀ nodeId r', H.markDrain r nodeId = .ok r' →
      ∀ key, H.ownerOf r' key = H.ownerOf r key ∨ H.ownerOf r key = some nodeId) ∧
    ∀ (B : Backend), B.Lawful → ∀ a : Authority B, a.Reachable → a.shard = r →
      (∀ nodeId vnodeCount a' map migrations, (nodeId, countFor r vnodeCount) ∈ J →
        H.joinShardNode a nodeId vnodeCount = .ok (a', map, migrations) →
        Lists H a r a'.shard false migrations) ∧
      ∀ nodeId a' map migrations push,
        H.drainShardNode a nodeId = .ok (a', map, migrations, push) →
        Lists H a r a'.shard true migrations := by
  have hp := built.placed lawful
  refine ⟨?_, ?_, ?_, ?_⟩
  · intro r' built' same key
    exact ownerOf_congr lawful apart hp (built'.placed lawful) same key
  · intro nodeId vnodeCount r' mem hjoin
    refine ⟨ownerOf_join lawful apart hp mem hjoin, ?_⟩
    obtain ⟨drained, removed, hdrain, hremove, same⟩ := join_markDrain_remove hjoin
    have hp' := ((hp.join mem hjoin).markDrain hdrain).remove hremove
    exact ⟨drained, removed, hdrain, hremove, ownerOf_congr lawful apart hp' hp same⟩
  · intro nodeId r' hdrain key
    exact ownerOf_markDrain lawful apart hp hdrain key
  · rintro B hB a ha rfl
    have hk := ha.keyed hB
    constructor
    · intro nodeId vnodeCount a' map migrations mem hjoin
      obtain ⟨r', hr', rfl, rfl⟩ := joinShardNode_eq_ok hjoin
      exact (lists_joinMigration hB hk (ownerOf_join lawful apart hp mem hr')).sort
    · intro nodeId a' map migrations push hdrain
      obtain ⟨r', hr', rfl, rfl⟩ := drainShardNode_eq_ok hdrain
      exact (lists_drainPlan hB hk (ownerOf_markDrain lawful apart hp hr')).sort

def sampleShardHash : ShardHash :=
  ⟨fun bytes => (bytes.headD 0).toUInt64, Finset.ascending⟩

def sampleNodes : Set (String × Nat) :=
  {("a", 1), ("c", 1)}

theorem sampleShardHash_apart : sampleShardHash.Apart sampleNodes := by
  have first : sampleShardHash.vnodeHashesFor "a" 1 = some [97] := by decide +kernel
  have second : sampleShardHash.vnodeHashesFor "c" 1 = some [99] := by decide +kernel
  rintro n c hs m d hs' (hn | hn) (hm | hm) hhs hhs' v hv hv' <;> cases hn <;> cases hm
  · rfl
  · simp_all
  · simp_all
  · rfl

def sampleBlocks : List Op :=
  [.registerModel (sampleModel 100 100), .register "n" [[98]] [sampleMeta 98]]

def sampleSharded : Authority sampleBackend :=
  sampleRun (sampleBlocks ++ [.setShard (sampleShardHash.step (.new 64) (.join "a" 1))])

theorem sampleSharded_built : sampleShardHash.Built sampleNodes sampleSharded.shard := by
  have empty : sampleShardHash.Built sampleNodes (.new 64) := Reach.start ⟨64, rfl⟩
  have joins : Joins sampleNodes (.new 64) (.join "a" 1) := Or.inl rfl
  exact empty.next joins

theorem owner_ready_joined : sampleShardHash.ownerOf sampleSharded.shard [98] = some "a" ∧
    ∃ c, ("a", c) ∈ sampleSharded.shard.ready := by
  have owned : sampleShardHash.ownerOf sampleSharded.shard [98] = some "a" := by decide +kernel
  exact ⟨owned, (owner_ready listsOnce_ascending sampleShardHash_apart sampleSharded_built [98]).1 "a" owned⟩

theorem ownership_moves_second_node : ∃ a' map, sampleShardHash.joinShardNode sampleSharded "c" 1 =
        .ok (a', map, [⟨some (sampleId 98), "a", "c", false⟩]) ∧
      Lists sampleShardHash sampleSharded sampleSharded.shard a'.shard false
        [⟨some (sampleId 98), "a", "c", false⟩] := by
  have moved : (sampleShardHash.joinShardNode sampleSharded "c" 1).toOption.map (·.2.2) =
      some [⟨some (sampleId 98), "a", "c", false⟩] := by decide +kernel
  cases hjoin : sampleShardHash.joinShardNode sampleSharded "c" 1 with
  | error e => simp [hjoin, Except.toOption] at moved
  | ok result =>
    obtain ⟨a', map, migrations⟩ := result
    have eq : migrations = [⟨some (sampleId 98), "a", "c", false⟩] := by
      simpa [hjoin, Except.toOption] using moved
    subst eq
    have parts := (ownership_moves listsOnce_ascending sampleShardHash_apart sampleSharded_built).2.2.2
      sampleBackend sampleBackend_lawful sampleSharded (sampleRun_reachable _) rfl
    exact ⟨a', map, rfl, parts.1 "c" 1 a' map _ (Or.inr rfl) hjoin⟩

/-- The first node of a ring becomes the owner of every block, and no migration says so. -/
theorem first_join_unlisted :
    ∃ a' map, sampleShardHash.joinShardNode (sampleRun sampleBlocks) "a" 1 = .ok (a', map, []) ∧
      ((sampleRun sampleBlocks).block? (BlockKey.fromId (sampleId 98))).isSome ∧
      sampleShardHash.ownerOf (sampleRun sampleBlocks).shard [98] = none ∧
      sampleShardHash.ownerOf a'.shard [98] = some "a" := by
  have outcome : (sampleShardHash.joinShardNode (sampleRun sampleBlocks) "a" 1).toOption.map
      (fun x => (x.2.2, sampleShardHash.ownerOf x.1.shard [98])) = some ([], some "a") := by
    decide +kernel
  cases hjoin : sampleShardHash.joinShardNode (sampleRun sampleBlocks) "a" 1 with
  | error e => simp [hjoin, Except.toOption] at outcome
  | ok result =>
    obtain ⟨a', map, migrations⟩ := result
    have facts : migrations = [] ∧ sampleShardHash.ownerOf a'.shard [98] = some "a" := by
      simpa [hjoin, Except.toOption] using outcome
    obtain ⟨rfl, howner⟩ := facts
    exact ⟨a', map, rfl, by decide +kernel, by decide +kernel, howner⟩

end ShardHash

end LakeKv
