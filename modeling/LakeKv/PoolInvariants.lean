import LakeKv.PoolRules

namespace LakeKv

open Finmap List Option

variable {B : Backend}

def PoolMay (may : NamespaceKey → NsAction B → Prop) (key : NamespaceKey) (pk : Int) :
    PoolAction B → Prop
  | .evict _ => True
  | .register b => ∃ placed, may key (.registerAll pk placed) ∧ b ∈ placed
  | .discard flat e => ∃ id, may key (.discard pk id e) ∧ flat = id.blockHash
  | .gcCold key' pk' n => key' = key ∧ pk' = pk ∧ may key (.gcCold key pk n)
  | act => may key (.pool pk act)

theorem PoolMay.mono {may may' : NamespaceKey → NsAction B → Prop} (le : ∀ key act, may key act → may' key act)
    {key : NamespaceKey} {pk : Int} {act : PoolAction B} (h : PoolMay may key pk act) : PoolMay may' key pk act := by
  cases act with
  | evict n => trivial
  | register b =>
    obtain ⟨placed, hmay, hb⟩ := h
    exact ⟨placed, le _ _ hmay, hb⟩
  | discard flat e =>
    obtain ⟨id, hmay, hid⟩ := h
    exact ⟨id, le _ _ hmay, hid⟩
  | gcCold key' pk' n => exact ⟨h.1, h.2.1, le _ _ h.2.2⟩
  | _ => exact le _ _ h

namespace PoolView

theorem registerAll_induct {I : PoolView B → Prop} {placed : List (PlacedBlock B)}
    (step : ∀ q, ∀ b ∈ placed, I q → I (q.registerPlaced b)) {p : PoolView B} (h : I p) :
    I (p.registerAll placed).1 := by
  induction placed generalizing p with
  | nil => exact h
  | cons b bs ih =>
    exact ih (fun q c hc => step q c (mem_cons_of_mem _ hc)) (step p b mem_cons_self h)

end PoolView

namespace Namespace

variable (ns : Namespace B)
include ns

/-- Rule for `evict_inactive_n`: every pool of the result is as it was or has been evicted from. -/
theorem evictInactiveN_pools (n : Nat) {pk : Int} {p' : PoolView B}
    (h : (ns.evictInactiveN n).1.pools.lookup pk = some p') {I : PoolView B → Prop}
    (evict : ∀ q m, I q → I (q.dropInactiveVictims m).1) (base : ∀ p, ns.pools.lookup pk = some p → I p) : I p' := by
  have hloop : ∀ (kinds : List Int) (left : Nat) (ns : Namespace B), (∀ p, ns.pools.lookup pk = some p → I p) →
      ∀ p, (ns.evictKinds kinds left).1.pools.lookup pk = some p → I p := by
    intro kinds
    induction kinds with
    | nil => exact fun _ _ hb => hb
    | cons k ks ih =>
      intro left ns hb
      unfold evictKinds
      split
      · exact hb
      split
      · exact ih left ns hb
      next q hq =>
        refine ih _ _ fun p hp => ?_
        rw [setPool, lookup_insert_if] at hp
        split at hp
        next he =>
          cases hp
          exact evict q left (hb q (he ▸ hq))
        · exact hb p hp
  unfold evictInactiveN at h
  split at h
  · exact base p' h
  · exact hloop _ _ ns base p' h

theorem descriptor_evictInactiveN (n : Nat) : (ns.evictInactiveN n).1.descriptor = ns.descriptor := by
  have hloop : ∀ (kinds : List Int) (left : Nat) (ns : Namespace B),
      (ns.evictKinds kinds left).1.descriptor = ns.descriptor := by
    intro kinds
    induction kinds with
    | nil => exact fun _ _ => rfl
    | cons k ks ih =>
      intro left ns
      unfold evictKinds
      split
      · rfl
      split
      · exact ih left ns
      · exact ih _ _
  unfold evictInactiveN
  split
  · rfl
  · exact hloop _ _ ns

theorem apply_keepsPools (act : NsAction B) {pk : Int} (h : pk ∈ ns.pools) : pk ∈ (act.apply ns).pools := by
  have hset : ∀ (ns : Namespace B) (pk' : Int) (q : PoolView B), pk ∈ ns.pools → pk ∈ (ns.setPool pk' q).pools :=
    fun _ _ _ hm => mem_insert.mpr (.inr hm)
  have hkinds : ∀ (kinds : List Int) (left : Nat) (ns : Namespace B), pk ∈ ns.pools →
      pk ∈ (ns.evictKinds kinds left).1.pools := by
    intro kinds
    induction kinds with
    | nil => exact fun _ _ hm => hm
    | cons k ks ih =>
      intro left ns hm
      unfold evictKinds
      split
      · exact hm
      split
      · exact ih left ns hm
      · exact ih _ _ (hset _ _ _ hm)
  cases act with
  | evictInactive n =>
    rw [NsAction.apply, evictInactiveN]
    split
    · exact h
    · exact hkinds _ _ ns h
  | pool pk' act | evictPool pk' n | registerAll pk' placed | discard pk' id e => exact hset ns pk' _ h
  | gcCold key pk' n => exact hset ns pk' _ h
  | _ => exact h

end Namespace

namespace Authority

variable {may : NamespaceKey → NsAction B → Prop} {a b : Authority B}
  {I : NamespaceKey → Int → PoolView B → Prop}

variable {key : NamespaceKey}

theorem nsAction_pools {ns : Namespace B} (new : ∀ pk cap, ns.pools.lookup pk = none → I key pk (PoolView.new B cap))
    (keep : ∀ key pk p act, PoolMay may key pk act → act.Guard p → I key pk p → I key pk (act.apply p))
    {act : NsAction B} (allowed : may key act)
    (guard : act.Guard key ns) (base : ∀ pk p, ns.pools.lookup pk = some p → I key pk p) :
    ∀ pk p, (act.apply ns).pools.lookup pk = some p → I key pk p := by
  -- A pool that is not there yet is an empty one.
  have hmut : ∀ pk, I key pk (ns.poolMut pk) := by
    intro pk
    unfold Namespace.poolMut
    cases hp : ns.pools.lookup pk with
    | none => exact new pk _ hp
    | some p => exact base pk p hp
  have hset : ∀ pk q, I key pk q → ∀ pk' p, (ns.setPool pk q).pools.lookup pk' = some p → I key pk' p := by
    intro pk q hq pk' p hp
    rw [Namespace.setPool, lookup_insert_if] at hp
    split at hp
    next he =>
      cases hp
      exact he ▸ hq
    · exact base pk' p hp
  cases act with
  | pool pk act =>
    obtain ⟨hquiet, p, hp, hguard⟩ := guard
    have hmay : PoolMay may key pk act := by
      cases act <;> first | exact allowed | simp [PoolAction.quiet] at hquiet
    refine hset pk _ ?_
    rw [poolMut_of_lookup hp]
    exact keep key pk p act hmay hguard (base pk p hp)
  | evictInactive n =>
    intro pk p hp
    exact ns.evictInactiveN_pools n hp (fun q m => keep key pk q (.evict m) trivial trivial) (base pk)
  | evictPool pk n => exact hset pk _ (keep key pk _ (.evict n) trivial trivial (hmut pk))
  | registerAll pk placed =>
    refine hset pk _ (PoolView.registerAll_induct (fun q b hb hq => ?_) (hmut pk))
    exact keep key pk q (.register b) ⟨placed, allowed, hb⟩ trivial hq
  | discard pk id e =>
    obtain ⟨p, hp, hguard, -⟩ := guard
    refine hset pk _ ?_
    rw [poolMut_of_lookup hp]
    exact keep key pk p (.discard id.blockHash e) ⟨id, allowed, rfl⟩ hguard (base pk p hp)
  | gcCold key' pk n =>
    obtain ⟨rfl, -⟩ := guard
    exact hset pk _ (keep key' pk _ (.gcCold key' pk n) ⟨rfl, rfl, allowed⟩ trivial (hmut pk))
  | setQuota q => exact base
  | create | remove | ledger => exact guard.elim

theorem pool?_congr (h : b.namespaces = a.namespaces) (key : NamespaceKey) (pk : Int) :
    b.pool? key pk = a.pool? key pk := by
  simp [pool?, h]

section

variable (new : ∀ key pk cap, I key pk (PoolView.new B cap))
include new

theorem Run.pools (keep : ∀ key pk p act, PoolMay may key pk act → act.Guard p → I key pk p → I key pk (act.apply p))
    (h : Run may a b) (base : ∀ key pk p, a.pool? key pk = some p → I key pk p) :
    ∀ key pk p, b.pool? key pk = some p → I key pk p := by
  have hns := h.namespaces (I := fun key ns => ∀ pk p, ns.pools.lookup pk = some p → I key pk p)
    (fun desc cap _ _ _ pk p hp => by simp [Namespace.new] at hp)
    (fun key ns act allowed guard hb => nsAction_pools (fun pk cap _ => new key pk cap) keep allowed guard hb)
    (fun key ns hk pk p hp => base key pk p (pool?_eq_some.mpr ⟨ns, hk, hp⟩))
  intro key pk p hp
  obtain ⟨ns, hk, hp⟩ := pool?_eq_some.mp hp
  exact hns key ns hk pk p hp

theorem Run.evicted (evict : ∀ key pk p n, I key pk p → I key pk (p.dropInactiveVictims n).1)
    (h : Run Evicts a b) (base : ∀ key pk p, a.pool? key pk = some p → I key pk p) :
    ∀ key pk p, b.pool? key pk = some p → I key pk p := by
  refine h.pools new (fun key pk p act hmay _ hp => ?_) base
  cases act with
  | evict n => exact evict key pk p n hp
  | register | discard =>
    obtain ⟨_, ⟨n, hn⟩, -⟩ := hmay
    cases hn
  | gcCold key' pk' n =>
    obtain ⟨-, -, m, hm⟩ := hmay
    cases hm
  | _ =>
    obtain ⟨n, hn⟩ := hmay
    cases hn

end

theorem insertBatch_pool? {node : String} {key key' : NamespaceKey} {pk pk' : Int} {chain : List Flat}
    {metas : List BlockMeta} {q : PoolView B} (h : (b.insertBatch node key pk chain metas).1.pool? key' pk' = some q) :
    b.pool? key' pk' = some q ∨ ∃ ns, b.namespaces.lookup key = some ns ∧ key' = key ∧ pk' = pk ∧
      q = ((ns.poolMut pk).registerAll (metas.filterMap (placeBlock B node pk chain))).1 := by
  unfold insertBatch at h
  split at h
  · exact .inl h
  next ns hns =>
    simp only [pool?, emit, setNs, lookup_insert_if, Namespace.setPool] at h
    by_cases hkey : key' = key
    · subst hkey
      simp only [↓reduceIte, bind_eq_bind, bind_some, lookup_insert_if] at h
      split at h
      next hk => exact .inr ⟨ns, hns, rfl, hk, (some.inj h).symm⟩
      · exact .inl (pool?_eq_some.mpr ⟨ns, hns, h⟩)
    · rw [if_neg hkey] at h
      exact .inl h

/-- The same for runs that remove no namespace. Their pools stay, so only a pool that was not there at
the start is a new one. -/
theorem Run.pools_kept (stay : ∀ key, ¬may key .remove)
    (new : ∀ key pk cap, a.pool? key pk = none → I key pk (PoolView.new B cap))
    (keep : ∀ key pk p act, PoolMay may key pk act → act.Guard p → I key pk p → I key pk (act.apply p))
    (h : Run may a b) (base : ∀ key pk p, a.pool? key pk = some p → I key pk p) :
    (∀ key pk, (a.pool? key pk).isSome → (b.pool? key pk).isSome) ∧
      ∀ key pk p, b.pool? key pk = some p → I key pk p := by
  induction h with
  | refl => exact ⟨fun _ _ hp => hp, base⟩
  | @act b key ns _ x found allowed guard ih =>
    obtain ⟨hstay, hI⟩ := ih
    have hpool : ∀ key' pk, ((b.setNs key (x.apply ns)).emit (x.events key ns)).pool? key' pk =
        if key' = key then (x.apply ns).pools.lookup pk else b.pool? key' pk := by
      intro key' pk
      simp only [pool?, emit, setNs, lookup_insert_if]
      split <;> rfl
    have hns : ∀ pk, b.pool? key pk = ns.pools.lookup pk := by
      intro pk
      simp [pool?, found]
    refine ⟨fun key' pk hp => ?_, fun key' pk p hp => ?_⟩
    · have hb := hstay key' pk hp
      rw [hpool]
      split
      next he =>
        rw [he, hns] at hb
        exact isSome_iff_exists.mpr (mem_iff.mp (ns.apply_keepsPools x (mem_iff.mpr (isSome_iff_exists.mp hb))))
      · exact hb
    · rw [hpool] at hp
      split at hp
      next he =>
        subst he
        refine nsAction_pools (fun pk cap hnone => new key' pk cap ?_) keep allowed guard
          (fun pk p hp => hI key' pk p ((hns pk).trans hp)) pk p hp
        by_contra hne
        have hb := hstay key' pk (isSome_iff_ne_none.mpr hne)
        rw [hns, hnone] at hb
        simp at hb
      · exact hI key' pk p hp
  | @add b desc _ fresh allowed named valid ih =>
    obtain ⟨hstay, hI⟩ := ih
    have hpool : ∀ key' pk, (b.setNs ⟨desc.modelId, desc.revision⟩
        (Namespace.new B desc b.inactiveCap)).pool? key' pk = b.pool? key' pk := by
      intro key' pk
      simp only [pool?, setNs, lookup_insert_if]
      split
      next he =>
        subst he
        simp [fresh, Namespace.new]
      · rfl
    refine ⟨fun key' pk hp => ?_, fun key' pk p hp => ?_⟩
    · rw [hpool]
      exact hstay key' pk hp
    · rw [hpool] at hp
      exact hI key' pk p hp
  | remove _ _ allowed _ => exact absurd allowed (stay _)
  | ledger _ _ _ ih => exact ih
  | frame _ same ih =>
    have hpool := fun key pk => pool?_congr same.namespaces key pk
    refine ⟨fun key pk hp => ?_, fun key pk p hp => ?_⟩
    · rw [hpool]
      exact ih.1 key pk hp
    · rw [hpool] at hp
      exact ih.2 key pk p hp

theorem Run.namespaces_eq (h : Run (fun _ _ => False) a b) : b.namespaces = a.namespaces := by
  induction h with
  | refl => rfl
  | act _ _ _ allowed | add _ _ allowed | remove _ _ allowed | ledger _ allowed => exact allowed.elim
  | frame _ same ih => exact same.namespaces.trans ih

theorem Run.nodeRefs (hl : ∀ key, ¬may key .ledger) (h : Run may a b) : b.nodeRefs = a.nodeRefs := by
  induction h with
  | refl => rfl
  | act _ _ _ _ _ ih | add _ _ _ _ _ ih | remove _ _ _ ih => exact ih
  | ledger _ allowed _ _ => exact absurd allowed (hl _)
  | frame _ same ih => exact same.nodeRefs.trans ih

theorem commitViewEvents_namespaces (a : Authority B) : a.commitViewEvents.1.namespaces = a.namespaces := by
  unfold commitViewEvents
  split <;> rfl

variable {op : Op}

theorem poolMay_foundIn {pk : Int} {act : PoolAction B}
    (h : PoolMay (fun key act => op.May key act ∧ a.FoundIn key act) key pk act) : a.FoundIn key (.pool pk act) := by
  cases act with
  | publish | setL3 | relocate => exact And.right h
  | _ => trivial

section

variable (new : ∀ key pk cap, I key pk (PoolView.new B cap))
include new

/-- Rule for one call: what holds of empty pools and is kept by every action the call may take, on a block
as it was before the call, holds of all pools after it, if it held of all pools before. -/
theorem step_pools_found (keep : ∀ key pk p act, PoolMay op.May key pk act → a.FoundIn key (.pool pk act) → act.Guard p →
      I key pk p → I key pk (act.apply p)) (base : ∀ key pk p, a.pool? key pk = some p → I key pk p) :
    ∀ key pk p, (a.step op).pool? key pk = some p → I key pk p := by
  cases hop : op.replaces with
  | false =>
    refine (step_run_found a hop).pools new (fun key pk p act hmay => ?_) base
    exact keep key pk p act (hmay.mono fun _ _ hm => hm.1) (poolMay_foundIn hmay)
  | true =>
    cases op with
    | importSnapshot snap =>
      refine (importSnapshot_run a snap).pools new (fun key pk p act hmay => keep key pk p act hmay ?_)
        fun key pk p hp => ?_
      · -- A restore changes no single block.
        cases act <;> trivial
      · simp [cleared, pool?] at hp
    | commitViewEvents =>
      intro key pk p hp
      rw [step, pool?_congr a.commitViewEvents_namespaces] at hp
      exact base key pk p hp
    | _ => simp [Op.replaces] at hop

theorem step_pools (keep : ∀ key pk p act, PoolMay op.May key pk act → act.Guard p → I key pk p → I key pk (act.apply p))
    (base : ∀ key pk p, a.pool? key pk = some p → I key pk p) :
    ∀ key pk p, (a.step op).pool? key pk = some p → I key pk p :=
  step_pools_found new (fun key pk p act hmay _ => keep key pk p act hmay) base

end

theorem initial_pool? (h : Initial a) (key : NamespaceKey) (pk : Int) : a.pool? key pk = none := by
  obtain ⟨cap, rfl⟩ := h
  simp [withInactiveCap, pool?]

end Authority

end LakeKv
