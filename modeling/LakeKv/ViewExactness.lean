import LakeKv.SampleBackend
import LakeKv.ViewEvents

namespace LakeKv

open Authority BlockKey Finmap Function List PoolView View

variable {B : Backend}

def Namespace.shown (ns : Namespace B) : Int → Flat → Option BlockView :=
  fun pk => (ns.poolMut pk).shown

namespace View

def withNs (v : View) (key : NamespaceKey) (g : Int → Flat → Option BlockView) : View :=
  fun k => if k.ns = key then g k.poolKind k.flat else v k

variable {v : View} {key : NamespaceKey}

theorem withNs_withPool (g : Int → Flat → Option BlockView) (pk : Int) (h : Flat → Option BlockView) :
    (v.withNs key g).withPool key pk h = v.withNs key (update g pk h) := by
  funext k
  simp only [withPool, withNs, update_apply]
  by_cases hk : k.ns = key
  · by_cases hp : k.poolKind = pk <;> simp [hk, hp]
  · simp [hk]

theorem applyEvents_invalidated (ids : List KvBlockId) (v : View) (k : BlockKey) :
    v.applyEvents (ids.map invalidatedEvent) k = if k ∈ ids.map keyOf then none else v k := by
  induction ids generalizing v with
  | nil => rfl
  | cons id ids ih =>
    have hone : v.applyEvent (invalidatedEvent id) = update v (keyOf id) none := rfl
    rw [map_cons, applyEvents, foldl_cons, hone]
    refine (ih _).trans ?_
    simp only [map_cons, mem_cons, update_apply]
    by_cases hm : k ∈ ids.map keyOf
    · simp [hm]
    · by_cases hk : k = keyOf id <;> simp [hm, hk]

end View

namespace Namespace

variable {ns ns' : Namespace B} {key : NamespaceKey} {q : PoolView B} {pk : Int}

theorem shown_of_pools (h : ns'.pools = ns.pools) : ns'.shown = ns.shown := by
  funext pk f
  simp only [shown, poolMut, h]
  cases ns.pools.lookup pk <;> rfl

theorem shown_insert (h : ns'.pools = ns.pools.insert pk q) : ns'.shown = update ns.shown pk q.shown := by
  funext pk' f
  simp only [shown, poolMut, h, lookup_insert_if, update_apply]
  split
  · rfl
  · cases ns.pools.lookup pk' <;> rfl

def Carries (key : NamespaceKey) (ns ns' : Namespace B) (es : List ViewEvent) : Prop :=
  ∀ v : View, (v.withNs key ns.shown).applyEvents es = v.withNs key ns'.shown

theorem Carries.nil (h : ns'.pools = ns.pools) : Carries key ns ns' [] := by
  intro v
  rw [shown_of_pools h]
  rfl

theorem Carries.append {ns'' : Namespace B} {es fs : List ViewEvent} (h : Carries key ns ns' es)
    (h' : Carries key ns' ns'' fs) : Carries key ns ns'' (es ++ fs) := by
  intro v
  rw [applyEvents_append, h v, h' v]

theorem Carries.of_pool {es : List ViewEvent}
    (h : PoolView.Carries key pk (ns.poolMut pk) q es) (hset : ns'.pools = ns.pools.insert pk q) :
    Carries key ns ns' es := by
  intro v
  have hself : (v.withNs key ns.shown).withPool key pk (ns.poolMut pk).shown = v.withNs key ns.shown := by
    rw [withNs_withPool]
    exact congrArg _ (update_eq_self pk ns.shown)
  rw [← hself, h, withNs_withPool, shown_insert hset]

theorem carries_evictInactiveN (ns : Namespace B) (n : Nat) :
    Carries key ns (ns.evictInactiveN n).1 (invalidatedEventsFor key (ns.evictInactiveN n).2) := by
  have hkinds : ∀ (kinds : List Int) (left : Nat) (ns : Namespace B),
      Carries key ns (ns.evictKinds kinds left).1 (invalidatedEventsFor key (ns.evictKinds kinds left).2) := by
    intro kinds
    induction kinds with
    | nil => exact fun _ _ => .nil rfl
    | cons pk kinds ih =>
      intro left ns
      unfold evictKinds
      split
      · exact .nil rfl
      split
      · exact ih left ns
      next q hq =>
        have hone : Carries key ns (ns.setPool pk (q.dropInactiveVictims left).1)
            (invalidatedEventsFor key ((q.dropInactiveVictims left).2.map fun r => (pk, r.1, r.2))) := by
          refine .of_pool ?_ rfl
          rw [poolMut_of_lookup hq]
          exact q.carries_dropInactiveVictims left
        have hboth := hone.append (ih (left - (q.dropInactiveVictims left).2.length) _)
        simpa [invalidatedEventsFor] using hboth
  unfold evictInactiveN
  split
  · exact .nil rfl
  · exact fun v => hkinds _ _ ns v

end Namespace

/-- Actions whose events name the blocks they change as the blocks are filed. -/
def NsAction.Exact (key : NamespaceKey) : NsAction B → Prop
  | .pool pk (.strip key' pk' _ _) => key' = key ∧ pk' = pk
  | .registerAll pk placed => ∀ b ∈ placed, b.Fits key pk
  | .discard pk id _ => id.poolKind = pk
  | _ => True

theorem Namespace.carries_apply {ns : Namespace B} {key : NamespaceKey} {act : NsAction B}
    (hexact : act.Exact key) (guard : act.Guard key ns)
    (hkeyed : ∀ pk p, ns.pools.lookup pk = some p → ∀ f e, p.byFlat.lookup f = some e → e.Keyed key pk f) :
    Carries key ns (act.apply ns) (act.events key ns) := by
  have hmut : ∀ pk f e, (ns.poolMut pk).byFlat.lookup f = some e → e.Keyed key pk f := by
    intro pk f e he
    cases hp : ns.pools.lookup pk with
    | none => simp [Namespace.poolMut, hp, PoolView.new] at he
    | some p =>
      rw [poolMut_of_lookup hp] at he
      exact hkeyed pk p hp f e he
  cases act with
  | pool pk act =>
    obtain ⟨hquiet, p, hp, hguard⟩ := guard
    rw [← poolMut_of_lookup hp] at hguard
    refine .of_pool (PoolView.carries_apply hquiet hguard ?_ (hmut pk)) rfl
    rintro key' pk' node flat rfl
    exact hexact
  | evictInactive n => exact ns.carries_evictInactiveN n
  | evictPool pk n => exact .of_pool (PoolView.carries_dropInactiveVictims _ n) rfl
  | registerAll pk placed => exact .of_pool (carries_registerAll placed hexact _) rfl
  | discard pk id e =>
    obtain ⟨-, -, -, -, rfl⟩ := guard
    have hid : View.Files (.fromId id) pk id.blockHash id := by
      rw [View.Files, keyOf, show id.poolKind = pk from hexact]
      rfl
    exact .of_pool (.invalidate hid rfl) rfl
  | gcCold key' pk n =>
    obtain ⟨rfl, -⟩ := guard
    exact .of_pool (carries_gcCold (hmut pk) n) rfl
  | setQuota q => exact .nil rfl
  | create | remove | ledger => exact guard.elim

namespace Authority

variable {a b : Authority B} {key : NamespaceKey} {ns : Namespace B}

theorem view_apply (a : Authority B) (k : BlockKey) :
    a.view k = (a.namespaces.lookup k.ns).elim none fun ns => ns.shown k.poolKind k.flat := by
  unfold view block? pool? Namespace.shown Namespace.poolMut shown
  cases a.namespaces.lookup k.ns with
  | none => rfl
  | some ns =>
    cases hp : ns.pools.lookup k.poolKind with
    | none => simp [hp, PoolView.new]
    | some p =>
      simp [hp]
      rfl

theorem view_congr (h : b.namespaces = a.namespaces) : b.view = a.view := by
  funext k
  rw [view_apply, view_apply, h]

theorem view_setNs (a : Authority B) (key : NamespaceKey) (ns : Namespace B) :
    (a.setNs key ns).view = a.view.withNs key ns.shown := by
  funext k
  rw [view_apply, withNs, setNs, lookup_insert_if]
  split
  · rfl
  · exact (view_apply a k).symm

theorem withNs_view (h : a.namespaces.lookup key = some ns) : a.view.withNs key ns.shown = a.view := by
  rw [← view_setNs, setNs_of_lookup h]

theorem applyEvents_namespaceGone (hB : B.Lawful) (h : a.namespaces.lookup key = some ns) :
    a.view.applyEvents (namespaceGone key ns) =
      ({ a with namespaces := a.namespaces.erase key } : Authority B).view := by
  have hids : namespaceGone key ns = ((B.poolOrder ns.pools.keys).flatMap fun pk =>
      (B.flatOrder (ns.poolMut pk).byFlat.keys).map (publicId key pk)).map invalidatedEvent := by
    rw [namespaceGone, map_flatMap]
    refine flatMap_congr fun pk hpk => ?_
    obtain ⟨p, hp⟩ := mem_iff.mp (Finmap.mem_keys.mp (((hB.poolOrder _).2 pk).mp hpk))
    rw [poolMut_of_lookup hp, hp, map_map]
    rfl
  funext k
  rw [hids, applyEvents_invalidated, view_apply, view_apply, lookup_erase_if]
  by_cases hk : k.ns = key
  · rw [if_pos hk, hk, h]
    split
    · rfl
    next hgone =>
      -- A block that is not reported is not registered.
      show (((ns.poolMut k.poolKind).byFlat.lookup k.flat).map Entry.shown) = none
      rw [Option.map_eq_none_iff, lookup_eq_none]
      intro hmem
      refine hgone (mem_map.mpr ⟨publicId key k.poolKind k.flat, ?_, ?_⟩)
      · refine mem_flatMap.mpr ⟨k.poolKind, ((hB.poolOrder _).2 _).mpr ?_, ?_⟩
        · by_contra hnone
          have hlook : ns.pools.lookup k.poolKind = none :=
            lookup_eq_none.mpr fun hm => hnone (Finmap.mem_keys.mpr hm)
          obtain ⟨e, he⟩ := mem_iff.mp hmem
          simp [Namespace.poolMut, hlook, PoolView.new] at he
        · exact mem_map.mpr ⟨k.flat, ((hB.flatOrder _).2 _).mpr (Finmap.mem_keys.mpr hmem), rfl⟩
      · subst hk
        rfl
  · rw [if_neg hk, if_neg]
    intro hm
    obtain ⟨id, hid, rfl⟩ := mem_map.mp hm
    obtain ⟨pk, -, hid⟩ := mem_flatMap.mp hid
    obtain ⟨f, -, rfl⟩ := mem_map.mp hid
    exact hk rfl

def Reports (a b : Authority B) : Prop :=
  ∃ es, b.pendingViewEvents = a.pendingViewEvents ++ es ∧ a.view.applyEvents es = b.view

theorem Reports.refl (a : Authority B) : Reports a a :=
  ⟨[], (append_nil _).symm, rfl⟩

theorem Reports.trans {c : Authority B} (h : Reports a b) (h' : Reports b c) : Reports a c := by
  obtain ⟨es, hes, hv⟩ := h
  obtain ⟨fs, hfs, hw⟩ := h'
  refine ⟨es ++ fs, ?_, ?_⟩
  · rw [hfs, hes, append_assoc]
  · rw [applyEvents_append, hv, hw]

variable {op : Op}

theorem Run.reports (hB : B.Lawful) (hexact : ∀ key act, op.May key act → act.Exact (B := B) key)
    (h : Run op.May a b) (hkeyed : a.Keyed) : Reports a b := by
  induction h with
  | refl => exact .refl a
  | @act b key ns prior x found allowed guard ih =>
    have hcarry := Namespace.carries_apply (hexact key x allowed) guard fun pk p hp =>
      (prior.keyed hB hkeyed) key pk p (pool?_eq_some.mpr ⟨ns, found, hp⟩)
    refine ih.trans ⟨x.events key ns, rfl, ?_⟩
    have hview := hcarry b.view
    rw [withNs_view found, ← view_setNs] at hview
    exact hview
  | @add b desc prior fresh allowed named valid ih =>
    refine ih.trans ⟨[], (append_nil _).symm, ?_⟩
    funext k
    rw [view_setNs, withNs]
    split
    next hk =>
      rw [applyEvents, foldl_nil, view_apply, hk, fresh]
      rfl
    · rfl
  | remove prior found allowed ih =>
    exact ih.trans ⟨_, rfl, applyEvents_namespaceGone hB found⟩
  | ledger prior allowed rows ih => exact ih.trans ⟨[], (append_nil _).symm, rfl⟩
  | frame prior same ih =>
    refine ih.trans ⟨[], ?_, ?_⟩
    · rw [same.pending, append_nil]
    · exact (view_congr same.namespaces).symm

theorem may_exact (hop : ∀ ids, op ≠ .discardBlocks ids) {act : NsAction B} (h : op.May key act) : act.Exact key := by
  cases act with
  | pool pk act =>
    cases act with
    | strip key' pk' node flat =>
      cases h with
      | strip => exact ⟨rfl, rfl⟩
      | importModel _ h | importRow _ _ h | clearRef _ h => cases h
      | orphansDead h =>
        cases h with
        | strip => exact ⟨rfl, rfl⟩
        | clearRef _ h => cases h
      | orphansGc h => cases h
    | _ => trivial
  | registerAll pk placed =>
    intro b hb
    exact poolMay_register_fits ⟨placed, h, hb⟩
  | discard pk id e =>
    cases h with
    | discard => exact absurd rfl (hop _)
    | importModel _ h | importRow _ _ h | clearRef _ h => cases h
    | orphansDead h => cases h with | clearRef _ h => cases h
    | orphansGc h => cases h
  | _ => trivial

def held? (a : Authority B) (k : BlockKey) : Option Bool :=
  (a.pool? k.ns k.poolKind).bind fun p =>
    (p.byFlat.lookup k.flat).map fun e => decide (0 < (p.refsOf e.seqHash).total)

def Refuses (a : Authority B) (id : KvBlockId) : Prop :=
  (∃ e, resolvePoolKind id.poolKind = .error e) ∨ a.held? (.fromId id) = some true

theorem view_isSome_iff (a : Authority B) (k : BlockKey) : (a.view k).isSome ↔ (a.held? k).isSome := by
  unfold view block? held?
  cases a.pool? k.ns k.poolKind with
  | none | some => simp

variable {id : KvBlockId}

/-- Removing an unreferenced block takes it out of the view. A block with the same lineage hash is
unreferenced too, so that its account may go with this one. -/
theorem discardEntry_view {pk : Int} {p : PoolView B} {e : Entry B}
    (hkey : BlockKey.fromId id = ⟨id.modelId, id.revision, pk, id.blockHash⟩)
    (hp : a.pool? (.fromId id) pk = some p) (hrefs : (p.refsOf e.seqHash).total ≤ 0)
    (hb : ∀ key' pk', b.pool? key' pk' = if key' = .fromId id ∧ pk' = pk then some (p.discardEntry id.blockHash e)
      else a.pool? key' pk') :
    b.view = update a.view (.fromId id) none ∧ b.held? = update a.held? (.fromId id) none := by
  have hrefs' : ∀ s, decide (0 < ((p.discardEntry id.blockHash e).refsOf s).total) =
      decide (0 < (p.refsOf s).total) := by
    intro s
    have hlook : (p.discardEntry id.blockHash e).refsOf s = if s = e.seqHash then .zero else p.refsOf s := by
      simp only [refsOf, discardEntry, lookup_erase_if]
      split <;> rfl
    rw [hlook]
    split
    next hs =>
      subst hs
      rw [decide_eq_decide]
      exact ⟨fun h => absurd h (by decide), fun h => absurd h (not_lt.mpr hrefs)⟩
    · rfl
  have hby : ∀ f, (p.discardEntry id.blockHash e).byFlat.lookup f =
      if f = id.blockHash then none else p.byFlat.lookup f := fun f => lookup_erase_if _ _ _
  have hk : ∀ k : BlockKey, k = .fromId id ↔ (k.ns = .fromId id ∧ k.poolKind = pk) ∧ k.flat = id.blockHash := by
    intro k
    obtain ⟨km, kr, kp, kf⟩ := k
    simp [hkey, BlockKey.ns, NamespaceKey.fromId, and_assoc]
  constructor
  · funext k
    simp only [view, block?, update_apply, hb, hk]
    by_cases hpool : k.ns = .fromId id ∧ k.poolKind = pk
    · rw [if_pos hpool, hpool.1, hpool.2, hp]
      by_cases hf : k.flat = id.blockHash <;> simp [hby, hf]
    · simp [hpool]
  · funext k
    simp only [held?, update_apply, hb, hk]
    by_cases hpool : k.ns = .fromId id ∧ k.poolKind = pk
    · rw [if_pos hpool, hpool.1, hpool.2, hp]
      by_cases hf : k.flat = id.blockHash <;> simp [hby, hf, hrefs']
    · simp [hpool]

theorem discardOne_cases (a : Authority B) (id : KvBlockId) : (a.Refuses id ∧ ∃ e, a.discardOne id = (a, .error e)) ∨
    (¬a.Refuses id ∧ a.held? (.fromId id) = none ∧ (a.discardOne id).2 = .ok false ∧ SameView a (a.discardOne id).1) ∨
    (¬a.Refuses id ∧ a.held? (.fromId id) = some false ∧ (a.discardOne id).2 = .ok true ∧
      (a.discardOne id).1.pendingViewEvents = a.pendingViewEvents ++ [invalidatedEvent id] ∧
      (a.discardOne id).1.view = update a.view (.fromId id) none ∧
      (a.discardOne id).1.held? = update a.held? (.fromId id) none) := by
  unfold discardOne
  split
  next e he => exact .inl ⟨.inl ⟨e, he⟩, _, rfl⟩
  next pk hpk =>
    have hkey := fromId_of_resolve hpk
    have hrefuse : a.Refuses id ↔ a.held? (.fromId id) = some true := by
      constructor
      · rintro (⟨e, he⟩ | h)
        · rw [hpk] at he
          simp at he
        · exact h
      · exact .inr
    have hheld : a.held? (.fromId id) = ((a.namespaces.lookup (.fromId id)).bind fun ns => ns.pools.lookup pk).bind
        fun p => (p.byFlat.lookup id.blockHash).map fun e => decide (0 < (p.refsOf e.seqHash).total) := by
      rw [hkey]
      rfl
    rw [hrefuse]
    dsimp only
    split
    next hns => exact .inr (.inl ⟨by simp [hheld, hns], by simp [hheld, hns], rfl, ⟨rfl, rfl, rfl, rfl, rfl⟩⟩)
    next ns hns =>
      split
      next hp =>
        exact .inr (.inl ⟨by simp [hheld, hns, hp], by simp [hheld, hns, hp], rfl, ⟨rfl, rfl, rfl, rfl, rfl⟩⟩)
      next p hp =>
        split
        next he =>
          exact .inr (.inl ⟨by simp [hheld, hns, hp, he], by simp [hheld, hns, hp, he], rfl, ⟨rfl, rfl, rfl, rfl, rfl⟩⟩)
        next e he =>
          split
          next hrefs => exact .inl ⟨by simpa [hheld, hns, hp, he] using hrefs, _, rfl⟩
          next hrefs =>
            have hpool := pool?_eq_some.mpr ⟨ns, hns, hp⟩
            refine .inr (.inr ⟨by simpa [hheld, hns, hp, he] using hrefs, by simpa [hheld, hns, hp, he] using hrefs,
              rfl, rfl, discardEntry_view hkey hpool (not_lt.mp hrefs) fun key' pk' => ?_⟩)
            simp only [pool?, emit, setNs, lookup_insert_if, Namespace.setPool]
            by_cases hkey' : key' = .fromId id
            · subst hkey'
              by_cases hpk' : pk' = pk <;> simp [hpk', hns, lookup_insert_if]
            · simp [hkey']

/-- The call gets as far as an unreferenced block that is named with the pool kind left open. -/
def Echoes (a : Authority B) (ids : List KvBlockId) : Prop :=
  ∃ pre id post, ids = pre ++ id :: post ∧ id.poolKind = 0 ∧ a.held? (.fromId id) = some false ∧
    ∀ x ∈ pre, ¬a.Refuses x ∧ BlockKey.fromId x ≠ .fromId id

theorem not_echoes_of_refuses (h : a.Refuses id) (ids : List KvBlockId) : ¬a.Echoes (id :: ids) := by
  rintro ⟨pre, x, post, hids, hzero, hheld, hpre⟩
  cases pre with
  | nil =>
    cases hids
    rcases h with ⟨e, he⟩ | h
    · simp [resolvePoolKind, hzero] at he
    · simp [hheld] at h
  | cons y pre =>
    cases hids
    exact (hpre id mem_cons_self).1 h

theorem echoes_cons (h : ¬a.Refuses id) (hb : b.held? = update a.held? (.fromId id) none) (ids : List KvBlockId) :
    a.Echoes (id :: ids) ↔ (id.poolKind = 0 ∧ a.held? (.fromId id) = some false) ∨ b.Echoes ids := by
  have hother : ∀ x : KvBlockId, fromId x ≠ .fromId id → b.held? (.fromId x) = a.held? (.fromId x) := by
    intro x hx
    rw [hb, update_of_ne hx]
  have hrefuses : ∀ x, ¬b.Refuses x ↔ ¬a.Refuses x := by
    intro x
    rw [not_iff_not]
    by_cases hx : fromId x = .fromId id
    · have hown : a.held? (.fromId id) ≠ some true := fun ht => h (.inr ht)
      simp [Refuses, hx, hown, hb]
    · simp [Refuses, hother x hx]
  constructor
  · rintro ⟨pre, x, post, hids, hzero, hheld, hpre⟩
    cases pre with
    | nil =>
      cases hids
      exact .inl ⟨hzero, hheld⟩
    | cons y pre =>
      cases hids
      have hx := (hpre id mem_cons_self).2
      refine .inr ⟨pre, x, post, rfl, hzero, (hother x hx.symm).trans hheld, fun z hz => ?_⟩
      obtain ⟨hz₁, hz₂⟩ := hpre z (mem_cons_of_mem _ hz)
      exact ⟨(hrefuses z).mpr hz₁, hz₂⟩
  · rintro (⟨hzero, hheld⟩ | ⟨pre, x, post, rfl, hzero, hheld, hpre⟩)
    · exact ⟨[], id, ids, rfl, hzero, hheld, by simp⟩
    · have hx : fromId x ≠ .fromId id := by
        intro hx
        simp [hx, hb] at hheld
      refine ⟨id :: pre, x, post, rfl, hzero, (hother x hx).symm.trans hheld, fun z hz => ?_⟩
      rcases mem_cons.mp hz with rfl | hz
      · exact ⟨h, hx.symm⟩
      · exact ⟨(hrefuses z).mp (hpre z hz).1, (hpre z hz).2⟩

theorem discardBlocks_cons (a : Authority B) (id : KvBlockId) (ids : List KvBlockId) :
    (a.discardBlocks (id :: ids)).1 = match (a.discardOne id).2 with
      | .error _ => (a.discardOne id).1
      | .ok _ => ((a.discardOne id).1.discardBlocks ids).1 := by
  rw [discardBlocks]
  cases hone : a.discardOne id with
  | mk a' r =>
    cases r with
    | error e => rfl
    | ok removed =>
      dsimp only
      cases hrest : a'.discardBlocks ids with
      | mk a'' r' => cases r' <;> rfl

/-- The events of a discard against any view that has the registered blocks right: it ends right exactly
if it began right and no event named a block as it is not filed. -/
theorem discardBlocks_agrees (ids : List KvBlockId) (a : Authority B) (v : View)
    (hright : ∀ k, (a.view k).isSome → v k = a.view k) (hzero : ∀ k : BlockKey, k.poolKind = 0 → a.view k = none) :
    ∃ es, (a.discardBlocks ids).1.pendingViewEvents = a.pendingViewEvents ++ es ∧
      (v.applyEvents es = (a.discardBlocks ids).1.view ↔ v = a.view ∧ ¬a.Echoes ids) := by
  induction ids generalizing a v with
  | nil =>
    have hno : ¬a.Echoes [] := by
      rintro ⟨pre, x, post, hids, -⟩
      simp at hids
    exact ⟨[], (append_nil _).symm, ⟨fun h => ⟨h, hno⟩, fun h => h.1⟩⟩
  | cons id ids ih =>
    rw [discardBlocks_cons]
    rcases a.discardOne_cases id with ⟨hrefuse, e, hone⟩ | ⟨hok, hheld, hres, hsame⟩ |
      ⟨hok, hheld, hres, hpend, hview, hheld'⟩
    · rw [hone]
      exact ⟨[], (append_nil _).symm, ⟨fun h => ⟨h, not_echoes_of_refuses hrefuse ids⟩, fun h => h.1⟩⟩
    · have hview := view_congr hsame.namespaces
      have hheld' : (a.discardOne id).1.held? = update a.held? (.fromId id) none := by
        have heq : (a.discardOne id).1.held? = a.held? := by
          funext k
          simp [held?, pool?_congr hsame.namespaces]
        rw [heq, ← hheld, update_eq_self]
      obtain ⟨es, hes, hiff⟩ := ih (a.discardOne id).1 v (by rwa [hview]) (by rwa [hview])
      rw [hres]
      refine ⟨es, by rw [hes, hsame.pending], ?_⟩
      rw [hiff, hview, echoes_cons hok hheld']
      simp [hheld]
    · have hfiled : (a.view (.fromId id)).isSome := by
        rw [view_isSome_iff, hheld]
        rfl
      have hev : v.applyEvent (invalidatedEvent id) = update v (keyOf id) none := rfl
      -- The event names the block as it is filed, unless the pool kind was left open.
      have hkey : id.poolKind ≠ 0 → keyOf id = .fromId id := by
        intro hne
        simp [keyOf, fromId, hne]
      have hright' : ∀ k, ((a.discardOne id).1.view k).isSome →
          v.applyEvent (invalidatedEvent id) k = (a.discardOne id).1.view k := by
        intro k hk
        rw [hview, update_apply] at hk ⊢
        split at hk
        · simp at hk
        next hne =>
          rw [if_neg hne, hev, update_of_ne]
          · exact hright k hk
          · rintro rfl
            by_cases h0 : id.poolKind = 0
            · rw [hzero (keyOf id) h0] at hk
              simp at hk
            · exact hne (hkey h0)
      have hzero' : ∀ k : BlockKey, k.poolKind = 0 → (a.discardOne id).1.view k = none := by
        intro k hk
        rw [hview, update_apply]
        split
        · rfl
        · exact hzero k hk
      obtain ⟨es, hes, hiff⟩ := ih (a.discardOne id).1 (v.applyEvent (invalidatedEvent id)) hright' hzero'
      rw [hres]
      refine ⟨invalidatedEvent id :: es, by rw [hes, hpend, append_assoc]; rfl, ?_⟩
      rw [applyEvents, foldl_cons]
      refine hiff.trans ?_
      rw [hview, hev, echoes_cons hok hheld', not_or, ← and_assoc]
      refine and_congr_left fun _ => ?_
      by_cases h0 : id.poolKind = 0
      · -- The view keeps the block that is gone.
        refine ⟨fun heq => ?_, fun h => absurd ⟨h0, hheld⟩ h.2⟩
        have hat := congrFun heq (.fromId id)
        have hne : fromId id ≠ keyOf id := by
          intro hk
          have hkind := congrArg poolKind hk
          simp [fromId, keyOf, h0, poolTarget] at hkind
        rw [update_self, update_of_ne hne, hright _ hfiled] at hat
        simp [hat] at hfiled
      · rw [hkey h0]
        refine ⟨fun heq => ⟨funext fun k => ?_, fun h => h0 h.1⟩, fun h => by rw [h.1]⟩
        have hat := congrFun heq k
        rw [update_apply, update_apply] at hat
        split at hat
        next hk => exact hk ▸ hright _ hfiled
        · exact hat

theorem view_of_kind_zero (h : a.Keyed) {k : BlockKey} (hk : k.poolKind = 0) : a.view k = none := by
  rw [view, Option.map_eq_none_iff, block?]
  cases hp : a.pool? k.ns k.poolKind with
  | none => rfl
  | some p =>
    by_contra hne
    obtain ⟨e, he⟩ := Option.ne_none_iff_exists'.mp hne
    have hkind := (h _ _ p hp k.flat e he).kind
    rw [hk] at hkind
    exact absurd hkind (by decide)

theorem step_reports (hB : B.Lawful) (h : a.Keyed) (hop : op.replaces = false)
    (hne : ∀ ids, op ≠ .discardBlocks ids) : Reports a (a.step op) :=
  (step_run a hop).reports hB (fun _ _ hmay => may_exact hne hmay) h

/-- The events of a call bring a mirror that agreed with the authority up to date, exactly unless the
call discards a block that its request names with the pool kind left open. -/
theorem view_events_exact_iff (hB : B.Lawful) (h : Reachable a) {op : Op} (hop : op.replaces = false)
    {m : ViewMirror} (hm : m.view = a.view) : ∃ es, (a.step op).pendingViewEvents = a.pendingViewEvents ++ es ∧
      ((m.applyEvents es).view = (a.step op).view ↔ ∀ ids, op = .discardBlocks ids → ¬a.Echoes ids) := by
  have hkeyed := h.keyed hB
  by_cases hids : ∃ ids, op = .discardBlocks ids
  · obtain ⟨ids, rfl⟩ := hids
    obtain ⟨es, hes, hiff⟩ := discardBlocks_agrees ids a m.view (fun k _ => congrFun hm k)
      fun k hk => view_of_kind_zero hkeyed hk
    refine ⟨es, hes, ?_⟩
    rw [ViewMirror.view_applyEvents]
    refine hiff.trans ⟨fun hok ids' heq => ?_, fun hok => ⟨hm, hok ids rfl⟩⟩
    cases heq
    exact hok.2
  · obtain ⟨es, hes, hv⟩ := step_reports hB hkeyed hop fun ids heq => hids ⟨ids, heq⟩
    refine ⟨es, hes, ?_⟩
    rw [ViewMirror.view_applyEvents, hm, hv]
    exact ⟨fun _ ids heq => absurd ⟨ids, heq⟩ hids, fun _ => rfl⟩

def echoAuthority : Authority sampleBackend :=
  sampleRun [.registerModel (sampleModel 0 0), .register "n" [[1]] [sampleMeta 1]]

def echoMirror : ViewMirror :=
  ViewMirror.new.applyEvents echoAuthority.pendingViewEvents

theorem echoMirror_view : echoMirror.view = echoAuthority.view := by
  let start := withInactiveCap sampleBackend 8
  have hkeyed : ∀ ops, (sampleRun ops).Keyed := fun ops => (sampleRun_reachable ops).keyed sampleBackend_lawful
  have hfirst : Reports start (start.step (.registerModel (sampleModel 0 0))) :=
    step_reports sampleBackend_lawful (hkeyed []) rfl (by simp)
  have hsecond : Reports (start.step (.registerModel (sampleModel 0 0))) echoAuthority :=
    step_reports sampleBackend_lawful (hkeyed [.registerModel (sampleModel 0 0)])
      (rfl : (Op.register "n" [[1]] [sampleMeta 1]).replaces = false) (by simp)
  obtain ⟨es, hes, hv⟩ := hfirst.trans hsecond
  have hevents : echoAuthority.pendingViewEvents = es := hes
  have hempty : start.view = empty := by
    funext k
    rw [view_apply]
    rfl
  rw [echoMirror, ViewMirror.view_applyEvents, ViewMirror.view_new, hevents, ← hempty]
  exact hv

/-- A discard that says which pool it means is mirrored. -/
theorem view_events_exact_discard : ∃ es, (echoAuthority.step (.discardBlocks [sampleId 1])).pendingViewEvents =
        echoAuthority.pendingViewEvents ++ es ∧
      (echoMirror.applyEvents es).view = (echoAuthority.step (.discardBlocks [sampleId 1])).view := by
  obtain ⟨es, hes, hiff⟩ := view_events_exact_iff sampleBackend_lawful (sampleRun_reachable _)
    (rfl : (Op.discardBlocks [sampleId 1]).replaces = false) echoMirror_view
  refine ⟨es, hes, hiff.mpr ?_⟩
  rintro ids heq ⟨pre, id, post, hids, hzero, -⟩
  cases heq
  have hid : id ∈ [sampleId 1] := hids ▸ mem_append_right _ mem_cons_self
  cases List.mem_singleton.mp hid
  exact absurd hzero (by decide)

/-- A discard that leaves the pool kind open removes the block and tells the routers to remove another,
which is not there: they keep the block. -/
theorem discard_event_misses_block : echoAuthority.Reachable ∧ echoMirror.view = echoAuthority.view ∧
      (echoMirror.applyEvents ((echoAuthority.step (.discardBlocks [{ sampleId 1 with poolKind := 0 }])).pendingViewEvents.drop
        echoAuthority.pendingViewEvents.length)).view ⟨"m", "r", poolTarget, [1]⟩ =
          some ([sampleLocation .l2 "n"], false) ∧
      (echoAuthority.step (.discardBlocks [{ sampleId 1 with poolKind := 0 }])).view ⟨"m", "r", poolTarget, [1]⟩ = none :=
  ⟨sampleRun_reachable _, echoMirror_view, by decide, by decide⟩

end Authority

end LakeKv
