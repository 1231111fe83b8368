import LakeKv.SoftQuotas
import LakeKv.SuffixHits

namespace LakeKv

open Finmap List Option PoolView

variable {B : Backend}

def ProperAncestor (c d : List Flat) : Prop :=
  c <+: d ∧ c ≠ d

instance (c d : List Flat) : Decidable (ProperAncestor c d) :=
  inferInstanceAs (Decidable (_ ∧ _))

theorem ProperAncestor.length_lt {c d : List Flat} (ancestor : ProperAncestor c d) : c.length < d.length :=
  lt_of_le_of_ne ancestor.1.length_le fun same => ancestor.2 (ancestor.1.eq_of_length same)

/-- The contract of `LineageBackend` on the order of victims. `insert_inner` links a block to the slot of its parent and
`allocate` hands out leaves, so a block goes after its inactive children (hash fragments that collide apart). Blocks
further below it are linked to it only through those between. -/
def Backend.LeafFirst (B : Backend) : Prop :=
  ∀ i n s h, s ∈ (B.allocate i n).1.map Prod.fst → B.extend s h ∈ B.nodes i →
    B.extend s h ∈ (B.allocate i n).1.map Prod.fst

namespace PoolView

variable {p : PoolView B} {s : B.Seq} {f g : Flat} {n : Nat} {c d : List Flat}

/-- An inactive lineage hash that an eviction drops when it gets to it, with the block it names. -/
structure Evictable (p : PoolView B) (s : B.Seq) (f : Flat) : Prop where
  inactive : s ∈ B.nodes p.inactive
  idle : (p.refsOf s).total ≤ 0
  names : p.seqToFlat.lookup s = some f

theorem mem_dropInactiveVictims (hB : B.Lawful) (p : PoolView B) (n : Nat) :
    (s, f) ∈ (p.dropInactiveVictims n).2 ↔ s ∈ (B.allocate p.inactive n).1.map Prod.fst ∧ p.Evictable s f := by
  refine (mem_dropVictims (hB.allocate_nodup _ _) _).trans (and_congr_right fun victim => ?_)
  exact ⟨fun now => ⟨mem_nodes_of_victim hB victim, now.1, now.2⟩, fun now => ⟨now.idle, now.names⟩⟩

theorem notMem_dropInactiveVictims_zero (hB : B.Lawful) (p : PoolView B) (r : B.Seq × Flat) :
    r ∉ (p.dropInactiveVictims 0).2 := by
  intro mem
  have first := ((mem_dropInactiveVictims hB p 0).mp mem).1
  have none := List.length_eq_zero_iff.mp ((hB.allocate_length p.inactive 0).trans (Nat.zero_min _))
  rw [none] at first
  exact not_mem_nil first

def chain? (p : PoolView B) (f : Flat) : Option (List Flat) :=
  (p.byFlat.lookup f).map Entry.prefixChain

theorem chain?_dropInactiveVictims (p : PoolView B) (n : Nat) : (p.dropInactiveVictims n).1.chain? f = some c ↔
      p.chain? f = some c ∧ ∀ s, (s, f) ∉ (p.dropInactiveVictims n).2 := by
  unfold chain?
  rw [byFlat_dropInactiveVictims]
  split
  next gone =>
    obtain ⟨r, mem, rfl⟩ := List.mem_map.mp gone
    exact ⟨nofun, fun stays => absurd mem (stays.2 r.1)⟩
  next stays => exact ⟨fun found => ⟨found, fun s mem => stays (List.mem_map.mpr ⟨_, mem, rfl⟩)⟩, fun found => found.1⟩

/-- Of the blocks registered behind the chain `c`, the one of the chain `d` is a next one. -/
structure NextBehind (p : PoolView B) (c d : List Flat) : Prop where
  behind : ProperAncestor c d
  next : ∀ u b, p.chain? u = some b → ProperAncestor c b → ¬ ProperAncestor b d

/-- The block `g` is inactive as a child of the lineage hash `s`, so that the index has it before `s`. -/
def Linked (p : PoolView B) (s : B.Seq) (g : Flat) : Prop :=
  ∃ h, p.Evictable (B.extend s h) g

/-- Next behind each victim stand only victims, if the index does not see to that already. -/
def Spares (p : PoolView B) (victim : B.Seq → Flat → Prop) : Prop :=
  ∀ s f g c d, victim s f → p.chain? f = some c → p.chain? g = some d → p.NextBehind c d → ¬ p.Linked s g →
    ∃ s', victim s' g

/-- Then all that stands behind a victim goes with it. -/
theorem Spares.behind (hB : B.Lawful) (leaf : B.LeafFirst) {victim : B.Seq → Flat → Prop}
    (dropped : ∀ s f, victim s f ↔ (s, f) ∈ (p.dropInactiveVictims n).2) (spares : p.Spares victim)
    (gone : victim s f) (here : p.chain? f = some c) (there : p.chain? g = some d) (ancestor : ProperAncestor c d) :
    ∃ s', victim s' g := by
  -- on the distance of the two blocks: a block between them is behind the first and before the second
  induction distance : d.length - c.length using Nat.strong_induction_on generalizing s f g c d with
  | _ k ih =>
    by_cases next : p.NextBehind c d
    · by_cases linked : p.Linked s g
      · obtain ⟨h, evictable⟩ := linked
        have first := ((mem_dropInactiveVictims hB p n).mp ((dropped s f).mp gone)).1
        have child := leaf p.inactive n s h first evictable.inactive
        exact ⟨_, (dropped _ g).mpr ((mem_dropInactiveVictims hB p n).mpr ⟨child, evictable⟩)⟩
      · exact spares s f g c d gone here there next linked
    · have between : ∃ u b, p.chain? u = some b ∧ ProperAncestor c b ∧ ProperAncestor b d := by
        by_contra none
        exact next ⟨ancestor, fun u b found before after => none ⟨u, b, found, before, after⟩⟩
      obtain ⟨u, b, found, before, after⟩ := between
      have shorter := before.length_lt
      have shorter' := after.length_lt
      obtain ⟨s', gone'⟩ := ih (b.length - c.length) (by omega) gone here found before rfl
      exact ih (d.length - b.length) (by omega) gone' found there after rfl

end PoolView

namespace Namespace

variable {ns : Namespace B} {pk : Int} {p : PoolView B}

theorem notMem_evictKinds {kinds : List Int} (out : pk ∉ kinds) (ns : Namespace B) (left : Nat) (r : B.Seq × Flat) :
    (pk, r) ∉ (ns.evictKinds kinds left).2 := by
  induction kinds generalizing ns left with
  | nil => exact not_mem_nil
  | cons k ks ih =>
    have rest := ih (not_mem_of_not_mem_cons out)
    unfold evictKinds
    split
    · exact not_mem_nil
    split
    · exact rest ns left
    · intro mem
      rcases mem_append.mp mem with now | later
      · obtain ⟨r', -, same⟩ := List.mem_map.mp now
        exact out (mem_cons.mpr (.inl (Prod.mk.inj same).1.symm))
      · exact rest _ _ later

/-- The loop over the pools of a namespace comes to each at most once. -/
theorem mem_evictKinds (hB : B.Lawful) {kinds : List Int} (nodup : kinds.Nodup) (ns : Namespace B) (left : Nat)
    (found : ns.pools.lookup pk = some p) :
    ∃ n, ∀ s f, (pk, s, f) ∈ (ns.evictKinds kinds left).2 ↔ (s, f) ∈ (p.dropInactiveVictims n).2 := by
  have none := notMem_dropInactiveVictims_zero hB p
  induction kinds generalizing ns left with
  | nil => exact ⟨0, fun s f => iff_of_false not_mem_nil (none _)⟩
  | cons k ks ih =>
    obtain ⟨out, nodup⟩ := nodup_cons.mp nodup
    unfold evictKinds
    split
    · exact ⟨0, fun s f => iff_of_false not_mem_nil (none _)⟩
    split
    · exact ih nodup ns left found
    next pool here =>
      dsimp only
      by_cases same : pk = k
      · subst same
        cases found.symm.trans here
        refine ⟨left, fun s f => ?_⟩
        have later := notMem_evictKinds out (ns.setPool pk (p.dropInactiveVictims left).1)
          (left - (p.dropInactiveVictims left).2.length) (s, f)
        rw [mem_append, or_iff_left later]
        simp
      · have apart : (ns.setPool k (pool.dropInactiveVictims left).1).pools.lookup pk = some p :=
          (lookup_insert_of_ne _ same).trans found
        obtain ⟨n, rest⟩ := ih nodup _ (left - (pool.dropInactiveVictims left).2.length) apart
        refine ⟨n, fun s f => ?_⟩
        rw [← rest s f, mem_append]
        refine or_iff_right fun now => ?_
        obtain ⟨r, -, eq⟩ := List.mem_map.mp now
        exact same (Prod.mk.inj eq).1.symm

theorem mem_evictInactiveN (hB : B.Lawful) (found : ns.pools.lookup pk = some p) (n : Nat) :
    ∃ m, ∀ s f, (pk, s, f) ∈ (ns.evictInactiveN n).2 ↔ (s, f) ∈ (p.dropInactiveVictims m).2 := by
  unfold evictInactiveN
  split
  · exact mem_evictKinds hB nodup_nil ns n found
  · exact mem_evictKinds hB (Finset.nodup_ascending _) ns n found

end Namespace

namespace Authority

variable {a b : Authority B} {m r : String} {raw pk : Int} {chain : List Flat} {metas : List BlockMeta}

def chain? (a : Authority B) (k : BlockKey) : Option (List Flat) :=
  (a.pool? k.ns k.poolKind).bind fun p => p.chain? k.flat

/-- A block that an eviction has removed stands before a block of the same pool that it has left, or that is there in
the end. -/
def CutsChain (before evicted after : Authority B) : Prop :=
  ∃ m r pk f g c d, before.chain? ⟨m, r, pk, f⟩ = some c ∧ evicted.chain? ⟨m, r, pk, f⟩ = none ∧
    (evicted.chain? ⟨m, r, pk, g⟩ = some d ∨ after.chain? ⟨m, r, pk, g⟩ = some d) ∧ ProperAncestor c d

/-- The eviction from `a` to `b` removes the blocks of `victim`, from each pool as one `drop_inactive_victims` does. -/
structure Drops (a b : Authority B) (victim : NamespaceKey → Int → B.Seq → Flat → Prop) : Prop where
  kept : ∀ m r pk f c, b.chain? ⟨m, r, pk, f⟩ = some c ↔
    a.chain? ⟨m, r, pk, f⟩ = some c ∧ ∀ s, ¬ victim ⟨m, r⟩ pk s f
  dropped : ∀ key pk p, a.pool? key pk = some p → ∃ n, ∀ s f, victim key pk s f ↔ (s, f) ∈ (p.dropInactiveVictims n).2

def SparesAll (a : Authority B) (victim : NamespaceKey → Int → B.Seq → Flat → Prop) : Prop :=
  ∀ key pk p, a.pool? key pk = some p → p.Spares (victim key pk)

theorem chain?_of_pool {p : PoolView B} (pool : a.pool? ⟨m, r⟩ pk = some p) (f : Flat) :
    a.chain? ⟨m, r, pk, f⟩ = p.chain? f := by
  unfold chain?
  dsimp only [BlockKey.ns]
  rw [pool, bind_some]

theorem chain?_of_namespace {ns : Namespace B} (found : a.namespaces.lookup ⟨m, r⟩ = some ns) (pk : Int) (f : Flat) :
    a.chain? ⟨m, r, pk, f⟩ = (ns.entryAt pk f).map Entry.prefixChain := by
  unfold chain? pool? Namespace.entryAt
  dsimp only [BlockKey.ns]
  rw [found, bind_eq_bind, bind_some, map_bind]
  rfl

section

variable {victim : NamespaceKey → Int → B.Seq → Flat → Prop} (drops : a.Drops b victim)
include drops

theorem Drops.gone_iff {f : Flat} {c : List Flat} (before : a.chain? ⟨m, r, pk, f⟩ = some c) :
    b.chain? ⟨m, r, pk, f⟩ = none ↔ ∃ s, victim ⟨m, r⟩ pk s f := by
  constructor
  · intro gone
    by_contra none
    cases gone.symm.trans ((drops.kept m r pk f c).mpr ⟨before, fun s gone => none ⟨s, gone⟩⟩)
  · rintro ⟨s, gone⟩
    refine eq_none_iff_forall_ne_some.mpr fun c' found => ?_
    exact ((drops.kept m r pk f c').mp found).2 s gone

theorem Drops.cuts_iff (hB : B.Lawful) (leaf : B.LeafFirst) : ¬ CutsChain a b b ↔ a.SparesAll victim := by
  constructor
  · rintro whole ⟨m, r⟩ pk p pool s f g c d gone here there next -
    by_contra stays
    rw [← chain?_of_pool pool] at here there
    refine whole ⟨m, r, pk, f, g, c, d, here, (drops.gone_iff here).mpr ⟨s, gone⟩, .inl ?_, next.behind⟩
    exact (drops.kept m r pk g d).mpr ⟨there, fun s' gone' => stays ⟨s', gone'⟩⟩
  · rintro spares ⟨m, r, pk, f, g, c, d, before, gone, has, ancestor⟩
    obtain ⟨there, stays⟩ := (drops.kept m r pk g d).mp (or_self_iff.mp has)
    obtain ⟨s, now⟩ := (drops.gone_iff before).mp gone
    obtain ⟨p, pool, here⟩ := bind_eq_some_iff.mp before
    rw [chain?_of_pool pool] at there
    obtain ⟨n, dropped⟩ := drops.dropped ⟨m, r⟩ pk p pool
    obtain ⟨s', gone'⟩ := (spares ⟨m, r⟩ pk p pool).behind hB leaf dropped now here there ancestor
    exact stays s' gone'

end

/-- The victims of `evict_n`. -/
def evictNVictim (a : Authority B) (m r : String) (raw : Int) (n : Nat) (key : NamespaceKey) (pk : Int) (s : B.Seq)
    (f : Flat) : Prop :=
  key = ⟨m, r⟩ ∧ resolvePoolKind raw = .ok pk ∧ ∃ p, a.pool? key pk = some p ∧ (s, f) ∈ (p.dropInactiveVictims n).2

/-- The victims of an accepted plan: the evictions of the batch's own namespace and the blocks reclaimed from others. -/
def planVictim (a : Authority B) (own : NamespaceKey) (n : Nat) (reclaim : Int) (key : NamespaceKey) (pk : Int)
    (s : B.Seq) (f : Flat) : Prop :=
  ∃ ns, a.namespaces.lookup key = some ns ∧ (pk, s, f) ∈ (ns.evictInactiveN (a.asks own n reclaim key)).2

variable {ns : Namespace B} {own : NamespaceKey} {n : Nat} {reclaim : Int}

theorem evictN_pool? (a : Authority B) (m r : String) (raw : Int) (n : Nat) (key : NamespaceKey) (pk : Int) :
    (a.evictN m r raw n).1.pool? key pk =
      if key = ⟨m, r⟩ ∧ resolvePoolKind raw = .ok pk then (a.pool? key pk).map fun p => (p.dropInactiveVictims n).1
      else a.pool? key pk := by
  unfold evictN
  dsimp only
  split
  next pk' ns kind found =>
    have here : ∀ pk, a.pool? ⟨m, r⟩ pk = ns.pools.lookup pk := fun pk => by simp [pool?, found]
    split
    next none =>
      split
      next target =>
        obtain ⟨rfl, target⟩ := target
        cases Except.ok.inj (kind.symm.trans target)
        rw [here, none]
        rfl
      · rfl
    next p pool =>
      simp only [pool?, emit, setNs, Namespace.setPool, lookup_insert_if]
      by_cases there : key = ⟨m, r⟩
      · subst there
        rw [if_pos rfl, bind_eq_bind, bind_some, lookup_insert_if, found, bind_some]
        by_cases same : pk = pk'
        · subst same
          rw [if_pos rfl, if_pos ⟨rfl, kind⟩, pool]
          rfl
        · rw [if_neg same, if_neg fun target => same (Except.ok.inj (target.2.symm.trans kind))]
      · rw [if_neg there, if_neg fun target => there target.1]
  next none =>
    split
    next target =>
      obtain ⟨rfl, target⟩ := target
      have missing : a.pool? ⟨m, r⟩ pk = Option.none := by
        cases found : a.namespaces.lookup ⟨m, r⟩ with
        | none => simp [pool?, found]
        | some ns => exact absurd found (none pk ns target)
      rw [missing]
      rfl
    · rfl

theorem evictN_drops (hB : B.Lawful) (a : Authority B) (m r : String) (raw : Int) (n : Nat) :
    a.Drops (a.evictN m r raw n).1 (a.evictNVictim m r raw n) where
  kept := by
    intro m' r' pk f c
    unfold chain? evictNVictim
    dsimp only [BlockKey.ns]
    rw [evictN_pool?]
    cases pool : a.pool? ⟨m', r'⟩ pk with
    | none => simp
    | some p =>
      by_cases target : (⟨m', r'⟩ : NamespaceKey) = ⟨m, r⟩ ∧ resolvePoolKind raw = .ok pk
      · simp [target, chain?_dropInactiveVictims]
      · rw [if_neg target]
        exact ⟨fun found => ⟨found, fun s victim => target ⟨victim.1, victim.2.1⟩⟩, fun found => found.1⟩
  dropped := by
    intro key pk p pool
    unfold evictNVictim
    by_cases target : key = ⟨m, r⟩ ∧ resolvePoolKind raw = .ok pk
    · exact ⟨n, fun s f => by simp [target, target.1 ▸ pool]⟩
    · refine ⟨0, fun s f => iff_of_false (fun victim => target ⟨victim.1, victim.2.1⟩) ?_⟩
      exact notMem_dropInactiveVictims_zero hB p _

theorem commitAdmit_drops (hB : B.Lawful) (found : a.namespaces.lookup own = some ns) (n : Nat) (reclaim : Int) :
    a.Drops (a.commitAdmit own n reclaim) (a.planVictim own n reclaim) where
  kept := by
    intro m r pk f c
    unfold planVictim
    have after := commitAdmit_asks found n reclaim ⟨m, r⟩
    cases here : a.namespaces.lookup ⟨m, r⟩ with
    | none =>
      rw [here, map_none] at after
      simp [chain?, pool?, BlockKey.ns, here, after]
    | some ns' =>
      rw [here, map_some] at after
      rw [chain?_of_namespace after, chain?_of_namespace here, ns'.entryAt_evictInactiveN]
      split
      next gone =>
        obtain ⟨⟨pk', s, f'⟩, mem, same⟩ := List.mem_map.mp gone
        cases same
        exact ⟨by simp, fun stays => absurd ⟨ns', rfl, mem⟩ (stays.2 s)⟩
      next stays =>
        refine ⟨fun chain => ⟨chain, ?_⟩, fun chain => chain.1⟩
        rintro s ⟨ns'', same, mem⟩
        cases same
        exact stays (List.mem_map.mpr ⟨_, mem, rfl⟩)
  dropped := by
    intro key pk p pool
    obtain ⟨ns, here, inside⟩ := pool?_eq_some.mp pool
    obtain ⟨m, same⟩ := Namespace.mem_evictInactiveN hB inside (a.asks own n reclaim key)
    refine ⟨m, fun s f => ?_⟩
    rw [← same]
    constructor
    · rintro ⟨ns', here', mem⟩
      cases here.symm.trans here'
      exact mem
    · exact fun mem => ⟨ns, here, mem⟩

/-- None of the victims in the batch's pool stands before a block of the batch. -/
def SparesBatch (a : Authority B) (chain : List Flat) (metas : List BlockMeta) (m r : String) (pk : Int)
    (victim : B.Seq → Flat → Prop) : Prop :=
  ∀ s f c, victim s f → a.chain? ⟨m, r, pk, f⟩ = some c →
    ∀ id ∈ batchIds metas, ¬ ProperAncestor c (chainAt chain id.blockHash)

theorem Admits.chain?_insertBatch (admits : a.Admits chain metas ⟨m, r⟩ pk ns n reclaim) (node m' r' : String) (pk' : Int)
    (g : Flat) :
    ((a.commitAdmit ⟨m, r⟩ n reclaim).insertBatch node ⟨m, r⟩ pk chain metas).1.chain? ⟨m', r', pk', g⟩ =
      if (m' = m ∧ r' = r ∧ pk' = pk) ∧ g ∈ (batchIds metas).map KvBlockId.blockHash then some (chainAt chain g)
      else (a.commitAdmit ⟨m, r⟩ n reclaim).chain? ⟨m', r', pk', g⟩ := by
  have evicted := commitAdmit_lookup admits.found n reclaim
  have placedAs : ∀ b ∈ metas.filterMap (placeBlock B node pk chain), ∀ e : Entry B, e.seqHash = b.seq →
      e.prefixChain = b.chain → some e.prefixChain = some (chainAt chain b.id.blockHash) := by
    intro b mem e _ here
    obtain ⟨m, -, placed⟩ := mem_filterMap.mp mem
    obtain ⟨id, -, same, at', -⟩ := placeBlock_eq_some placed
    rw [here, at', same]
  unfold insertBatch
  rw [evicted]
  dsimp only
  by_cases there : (⟨m', r'⟩ : NamespaceKey) = ⟨m, r⟩
  · cases there
    rw [chain?_of_namespace evicted, chain?_of_namespace (lookup_insert _)]
    refine (congrArg (Option.map Entry.prefixChain) (Namespace.entryAt_setPool (ns.evictInactiveN n).1 pk pk' _ g)).trans ?_
    by_cases same : pk' = pk
    · subst same
      rw [if_pos rfl, map_registerAll Entry.prefixChain (fun g => some (chainAt chain g)) _ placedAs,
        placed_hashes admits.check, Namespace.byFlat_poolMut]
      simp
    · rw [if_neg same, if_neg fun here => same here.1.2.2]
  · rw [if_neg fun here => there (by rw [here.1.1, here.1.2.1])]
    unfold chain? pool?
    dsimp only [BlockKey.ns, setNs, emit]
    rw [lookup_insert_of_ne _ there]

theorem register_cuts_iff (hB : B.Lawful) (leaf : B.LeafFirst) (admits : a.Admits chain metas ⟨m, r⟩ pk ns n reclaim)
    (node : String) : ¬ CutsChain a (a.commitAdmit ⟨m, r⟩ n reclaim) (a.register node chain metas).1 ↔
      a.SparesAll (a.planVictim ⟨m, r⟩ n reclaim) ∧
        (metas.all durableFirst → a.SparesBatch chain metas m r pk (a.planVictim ⟨m, r⟩ n reclaim ⟨m, r⟩ pk)) := by
  have drops := commitAdmit_drops hB admits.found n reclaim
  rw [← drops.cuts_iff hB leaf, admits.register node]
  split
  next durable =>
    have after := admits.chain?_insertBatch node
    constructor
    · intro whole
      refine ⟨fun cut => whole ?_, fun _ s f c gone here block mem ancestor => whole ?_⟩
      · obtain ⟨m', r', pk', f, g, c, d, before, gone, has, ancestor⟩ := cut
        exact ⟨m', r', pk', f, g, c, d, before, gone, .inl (or_self_iff.mp has), ancestor⟩
      · refine ⟨m, r, pk, f, block.blockHash, c, _, here, (drops.gone_iff here).mpr ⟨s, gone⟩, .inr ?_, ancestor⟩
        rw [after, if_pos ⟨⟨rfl, rfl, rfl⟩, mem_map_of_mem mem⟩]
    · rintro ⟨whole, spares⟩ ⟨m', r', pk', f, g, c, d, before, gone, has, ancestor⟩
      by_cases batch : (m' = m ∧ r' = r ∧ pk' = pk) ∧ g ∈ (batchIds metas).map KvBlockId.blockHash ∧ d = chainAt chain g
      · obtain ⟨⟨rfl, rfl, rfl⟩, mem, rfl⟩ := batch
        obtain ⟨block, among, rfl⟩ := List.mem_map.mp mem
        obtain ⟨s, now⟩ := (drops.gone_iff before).mp gone
        exact spares durable s f c now before block among ancestor
      · refine whole ⟨m', r', pk', f, g, c, d, before, gone, .inl ?_, ancestor⟩
        rcases has with left | inserted
        · exact left
        · rw [after] at inserted
          split at inserted
          next here => exact absurd ⟨here.1, here.2, (some.inj inserted).symm⟩ batch
          · exact inserted
  next missing =>
    exact ⟨fun whole => ⟨whole, fun durable => absurd durable missing⟩, fun whole => whole.1⟩

end Authority

theorem sampleVictims_extend {i : Map (List Nat) BlockId} {n x : Nat} {s : List Nat} (victim : s ∈ sampleVictims i n)
    (mem : s ++ [x] ∈ i) : s ++ [x] ∈ sampleVictims i n := by
  have less : s < s ++ [x] := by
    clear victim mem
    induction s with
    | nil => exact List.Lex.nil
    | cons y ys ih => exact List.Lex.cons ih
  have all : s ++ [x] ∈ i.keys.ascending.reverse :=
    mem_reverse.mpr (Finset.mem_ascending.mpr (Finmap.mem_keys.mpr mem))
  have sorted : i.keys.ascending.reverse.Pairwise (fun x y => y ≤ x) :=
    pairwise_reverse.mpr (Finset.pairwise_ascending _)
  unfold sampleVictims at victim ⊢
  rw [← take_append_drop n i.keys.ascending.reverse] at all sorted
  rcases mem_append.mp all with early | late
  · exact early
  · exact absurd ((pairwise_append.mp sorted).2.2 s victim _ late) (not_le.mpr less)

theorem sampleBackend_leafFirst : sampleBackend.LeafFirst := by
  intro i n s h victim mem
  have victims : (sampleBackend.allocate i n).1.map Prod.fst = sampleVictims i n := sampleAllocate_fst i n
  rw [victims] at victim ⊢
  exact sampleVictims_extend victim mem

def releasedParentRun : List Op :=
  [.registerModel (sampleModel 0 0), .register "n" [[1], [2]] [sampleMeta 1, sampleMeta 2],
    .reportRefs [sampleRef 1 1 "n", sampleRef 1 (-1) "n"]]

def releasedSuffixRun : List Op :=
  [.registerModel (sampleModel 0 0), .register "n" [[1], [2], [3]] [sampleMeta 1, sampleMeta 2, sampleMeta 3],
    .reportRefs [sampleRef 2 1 "n", sampleRef 2 (-1) "n", sampleRef 3 1 "n", sampleRef 3 (-1) "n"]]

end LakeKv
