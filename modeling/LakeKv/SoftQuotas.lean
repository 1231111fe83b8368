import LakeKv.Evictions

namespace LakeKv

open Finmap List Saturating

variable {B : Backend}

namespace Namespace

/-- The number of blocks that a turn of `reclaim_borrowed_bytes` asks of a namespace, when `freed` of the wanted bytes
are freed already. -/
def asked (ns : Namespace B) (want freed : Int) : Nat :=
  let borrowed := borrowedBytes ns.usedBytes ns.quota.softBytes
  if want ≤ freed ∨ borrowed ≤ 0 then 0
  else asUsize (max (blocksFor (min (i64 (want - freed)) borrowed) ns.bytesPerBlock) 1)

/-- The usage when `n` evictions were asked for and removed `victims` blocks. -/
def usageWithout (ns : Namespace B) (n victims : Nat) : Int :=
  if n = 0 then ns.usedBytes else max (i64 (ns.usedBytes - victims * ns.bytesPerBlock)) 0

theorem usedBytes_evictInactiveN (ns : Namespace B) (n : Nat) :
    (ns.evictInactiveN n).1.usedBytes = ns.usageWithout n (ns.evictInactiveN n).2.length := by
  unfold evictInactiveN usageWithout
  split
  · rfl
  · rfl

end Namespace

namespace Authority

variable {a b : Authority B} {k key : NamespaceKey} {ns ns' : Namespace B} {want freed : Int}

/-- The number of blocks that `reclaim_borrowed_bytes` asks of the namespace `k` on its way through `keys`, with the
bytes that are freed before it counted on the state before the call. -/
def askedFrom (a : Authority B) (want : Int) (k : NamespaceKey) : List NamespaceKey → Int → Nat
  | [], _ => 0
  | key :: rest, freed =>
    match a.namespaces.lookup key with
    | none => a.askedFrom want k rest freed
    | some ns =>
      let n := ns.asked want freed
      if key = k then n else a.askedFrom want k rest (i64 (freed + (ns.evictInactiveN n).2.length * ns.bytesPerBlock))

theorem askedFrom_congr {keys : List NamespaceKey} (same : ∀ key ∈ keys, b.namespaces.lookup key = a.namespaces.lookup key) :
    b.askedFrom want k keys freed = a.askedFrom want k keys freed := by
  induction keys generalizing freed with
  | nil => rfl
  | cons key keys ih =>
    have rest : ∀ freed, _ = a.askedFrom want k keys freed := fun _ => ih fun key' mem => same key' (mem_cons_of_mem key mem)
    unfold askedFrom
    rw [same key mem_cons_self]
    split
    · exact rest freed
    · dsimp only
      rw [rest]

/-- A turn that asks for nothing frees nothing. -/
theorem freed_of_asked_eq_zero (none : ns.asked want freed = 0) (range : i64Min ≤ freed ∧ freed ≤ i64Max) :
    i64 (freed + (ns.evictInactiveN (ns.asked want freed)).2.length * ns.bytesPerBlock) = freed := by
  rw [none]
  have nothing : (ns.evictInactiveN 0).2.length = 0 := rfl
  rw [nothing, Nat.cast_zero, zero_mul, add_zero, i64_eq range.1 range.2]

theorem askedFrom_of_le (done : want ≤ freed) (range : i64Min ≤ freed ∧ freed ≤ i64Max) (keys : List NamespaceKey) :
    a.askedFrom want k keys freed = 0 := by
  have none : ∀ ns : Namespace B, ns.asked want freed = 0 := fun ns => if_pos (.inl done)
  induction keys with
  | nil => rfl
  | cons key keys ih =>
    unfold askedFrom
    split
    · exact ih
    next ns _ =>
      dsimp only
      rw [freed_of_asked_eq_zero (none ns) range, none, ih, ite_self]

theorem askedFrom_of_not_borrows (found : a.namespaces.lookup k = some ns)
    (lends : borrowedBytes ns.usedBytes ns.quota.softBytes ≤ 0) (keys : List NamespaceKey) :
    a.askedFrom want k keys freed = 0 := by
  induction keys generalizing freed with
  | nil => rfl
  | cons key keys ih =>
    unfold askedFrom
    split
    · exact ih
    next other here =>
      dsimp only
      split
      next same =>
        cases found.symm.trans (same ▸ here)
        exact if_pos (.inr lends)
      · exact ih

theorem i64_range (x : Int) : i64Min ≤ i64 x ∧ i64 x ≤ i64Max := by
  simp only [i64, i64Min, i64Max]
  omega

theorem map_evictInactiveN_zero (found : Option (Namespace B)) : (found.map fun ns => (ns.evictInactiveN 0).1) = found := by
  cases found with
  | none | some => rfl

/-- A reclaim takes from each borrower what it asks of it, counted before the call. -/
theorem reclaimFrom_lookup (keys : List NamespaceKey) (nodup : keys.Nodup) (a : Authority B)
    (range : i64Min ≤ freed ∧ freed ≤ i64Max) (k : NamespaceKey) :
    (a.reclaimFrom want keys freed).namespaces.lookup k =
      (a.namespaces.lookup k).map fun ns => (ns.evictInactiveN (a.askedFrom want k keys freed)).1 := by
  induction keys generalizing a freed with
  | nil => exact (map_evictInactiveN_zero _).symm
  | cons key keys ih =>
    obtain ⟨out, nodup⟩ := nodup_cons.mp nodup
    unfold reclaimFrom
    split
    next done => rw [askedFrom_of_le done range, map_evictInactiveN_zero]
    next missing =>
      unfold askedFrom
      cases here : a.namespaces.lookup key with
      | none => exact ih nodup a range
      | some other =>
        dsimp only
        by_cases borrows : borrowedBytes other.usedBytes other.quota.softBytes ≤ 0
        · have none : other.asked want freed = 0 := if_pos (.inr borrows)
          rw [if_pos borrows, freed_of_asked_eq_zero none range, none]
          by_cases same : key = k
          · subst same
            rw [if_pos rfl, reclaimFrom_lookup_of_notMem out, map_evictInactiveN_zero]
          · rw [if_neg same]
            exact ih nodup a range
        · have count : other.asked want freed = _ := if_neg (not_or.mpr ⟨missing, borrows⟩)
          rw [if_neg borrows, ← count]
          generalize other.asked want freed = n
          by_cases same : key = k
          · -- its turn, and the loop does not come back to it
            subst same
            rw [if_pos rfl, reclaimFrom_lookup_of_notMem out, here]
            exact lookup_insert _
          · rw [if_neg same]
            have apart : ∀ key' ≠ key, ((a.setNs key (other.evictInactiveN n).1).emit
                (invalidatedEventsFor key (other.evictInactiveN n).2)).namespaces.lookup key' =
                  a.namespaces.lookup key' := fun key' ne => lookup_insert_of_ne _ ne
            rw [← askedFrom_congr fun key' mem => apart key' (ne_of_mem_of_not_mem mem out), ← apart k (Ne.symm same)]
            exact ih nodup _ (i64_range _)

/-- The evictions of a namespace's own leave the borrowers among the others as they are. -/
theorem borrowers_evictOwn (found : a.namespaces.lookup key = some ns) (n : Nat) :
    (a.evictOwn key n).borrowers key = a.borrowers key := by
  have keys : (a.evictOwn key n).namespaces.keys = a.namespaces.keys := by
    ext k
    rw [Finmap.mem_keys, Finmap.mem_keys, ← lookup_isSome, ← lookup_isSome, evictOwn_lookup found]
    split
    next same => rw [same, found]; rfl
    · rfl
  unfold borrowers
  rw [keys]
  refine filter_congr fun k _ => ?_
  rw [evictOwn_lookup found]
  by_cases same : k = key
  · simp [same]
  · rw [if_neg same]

/-- The number of blocks that an accepted plan asks of the namespace `k`: the planned evictions of the batch's own
namespace, or what the bytes to reclaim ask of another one. -/
def asks (a : Authority B) (key : NamespaceKey) (n : Nat) (reclaim : Int) (k : NamespaceKey) : Nat :=
  if k = key then n else a.askedFrom reclaim k (a.borrowers key) 0

/-- What `commit_admit` does to every namespace, over the state before the call. -/
theorem commitAdmit_asks (own : a.namespaces.lookup key = some ns) (n : Nat) (reclaim : Int) (k : NamespaceKey) :
    (a.commitAdmit key n reclaim).namespaces.lookup k =
      (a.namespaces.lookup k).map fun ns => (ns.evictInactiveN (a.asks key n reclaim k)).1 := by
  unfold asks
  by_cases there : k = key
  · subst there
    rw [if_pos rfl, commitAdmit_lookup own n reclaim, own]
    rfl
  rw [if_neg there]
  have apart : ∀ k' ≠ key, (if 0 < n then a.evictOwn key n else a).namespaces.lookup k' = a.namespaces.lookup k' := by
    intro k' ne
    split
    · rw [evictOwn_lookup own, if_neg ne]
    · rfl
  have same : (if 0 < n then a.evictOwn key n else a).borrowers key = a.borrowers key := by
    split
    · exact borrowers_evictOwn own n
    · rfl
  unfold commitAdmit reclaimBorrowedBytes
  dsimp only
  by_cases pos : 0 < reclaim
  · have congr : (if 0 < n then a.evictOwn key n else a).askedFrom reclaim k (a.borrowers key) 0 =
        a.askedFrom reclaim k (a.borrowers key) 0 := by
      refine askedFrom_congr fun k' mem => ?_
      have ne := (mem_filter.mp mem).2
      exact apart k' (of_decide_eq_true ne).1
    have once : (a.borrowers key).Nodup := (Finset.nodup_ascending _).filter _
    rw [if_pos pos, if_neg (by omega), same, reclaimFrom_lookup _ once _ ⟨by decide, by decide⟩, congr, apart k there]
  · rw [if_neg pos, askedFrom_of_le (by omega) (by decide), map_evictInactiveN_zero, apart k there]

/-- What a registration leaves of another namespace: all of it, or what the plan does not take. -/
theorem register_other (node : String) {chain : List Flat} {metas : List BlockMeta}
    (other : ∀ pk, checkBatch chain metas ≠ .ok (k, pk)) :
    ((a.register node chain metas).1 = a ∧ ¬∃ key pk ns₀ n reclaim, a.Admits chain metas key pk ns₀ n reclaim) ∨
      ∃ key pk ns₀ n reclaim, a.Admits chain metas key pk ns₀ n reclaim ∧ k ≠ key ∧
        (a.register node chain metas).1.namespaces.lookup k =
          (a.namespaces.lookup k).map fun ns => (ns.evictInactiveN (a.asks key n reclaim k)).1 := by
  by_cases passes : ∃ key pk ns₀ n reclaim, a.Admits chain metas key pk ns₀ n reclaim
  · obtain ⟨key, pk, ns₀, n, reclaim, admits⟩ := passes
    have ne : k ≠ key := by
      rintro rfl
      exact other pk admits.check
    refine .inr ⟨key, pk, ns₀, n, reclaim, admits, ne, ?_⟩
    rw [← commitAdmit_asks admits.found, admits.register node]
    split
    · unfold insertBatch
      rw [commitAdmit_lookup admits.found n reclaim]
      exact lookup_insert_of_ne _ ne
    · rfl
  · refine .inl ⟨?_, passes⟩
    rcases a.register_cases node chain metas with ⟨-, same⟩ | admits | ⟨same, -⟩
    · rw [same]
    · exact absurd admits passes
    · exact same

/-- The plan is a function of the call: what holds of all of a call's plans holds of its one plan. -/
theorem Admits.forall_iff {chain : List Flat} {metas : List BlockMeta} {pk : Int} {n : Nat} {reclaim : Int}
    {P : NamespaceKey → Int → Nat → Int → Prop} (admits : a.Admits chain metas key pk ns n reclaim) :
    (∀ key pk ns n reclaim, a.Admits chain metas key pk ns n reclaim → P key pk n reclaim) ↔ P key pk n reclaim := by
  refine ⟨fun all => all _ _ _ _ _ admits, fun one key' pk' ns' n' reclaim' admits' => ?_⟩
  cases Except.ok.inj (admits'.check.symm.trans admits.check)
  cases admits'.found.symm.trans admits.found
  cases Except.ok.inj (admits'.plan.symm.trans admits.plan)
  exact one

/-- What the call takes from `k`, the victims of as many evictions as the bytes its plan reclaims ask for, leaves it its
soft quota. -/
def KeepsSoft (a : Authority B) (chain : List Flat) (metas : List BlockMeta) (k : NamespaceKey) (ns : Namespace B) : Prop :=
  ∀ key pk ns₀ n reclaim, a.Admits chain metas key pk ns₀ n reclaim →
    let asked := a.asks key n reclaim k
    ns.quota.softBytes ≤ ns.usageWithout asked (ns.evictInactiveN asked).2.length

/-- A registration leaves another namespace that has borrowed nothing as it is. One that has borrowed keeps its soft
quota if and only if the blocks that are taken from it hold no more bytes than it has borrowed. -/
theorem register_keeps_soft_quotas (a : Authority B) (node : String) (chain : List Flat) (metas : List BlockMeta)
    (k : NamespaceKey) (ns : Namespace B) (found : a.namespaces.lookup k = some ns)
    (other : ∀ pk, checkBatch chain metas ≠ .ok (k, pk)) :
    (ns.quota.softBytes ≤ 0 ∨ (ns.usedBytes ≤ ns.quota.softBytes ∧ i64Min ≤ ns.usedBytes - ns.quota.softBytes) →
      (a.register node chain metas).1.namespaces.lookup k = some ns) ∧
    (0 < ns.quota.softBytes → ns.quota.softBytes < ns.usedBytes →
      ((∃ ns', (a.register node chain metas).1.namespaces.lookup k = some ns' ∧ ns.quota.softBytes ≤ ns'.usedBytes) ↔
        a.KeepsSoft chain metas k ns)) := by
  rcases register_other node other with ⟨same, refused⟩ | ⟨key, pk, ns₀, n, reclaim, admits, ne, after⟩
  · rw [same, found]
    refine ⟨fun _ => rfl, fun _ borrows => iff_of_true ⟨ns, rfl, borrows.le⟩ ?_⟩
    exact fun key pk ns₀ n reclaim admits => absurd ⟨key, pk, ns₀, n, reclaim, admits⟩ refused
  rw [after, found, Option.map_some]
  constructor
  · intro none
    have lends : borrowedBytes ns.usedBytes ns.quota.softBytes ≤ 0 := by
      unfold borrowedBytes
      split
      · omega
      · rw [i64_eq (by omega) (by simp only [i64Max]; omega)]
        omega
    rw [asks, if_neg ne, askedFrom_of_not_borrows found lends]
    rfl
  · intro soft borrows
    unfold KeepsSoft
    rw [admits.forall_iff]
    dsimp only
    rw [← ns.usedBytes_evictInactiveN]
    constructor
    · rintro ⟨ns', same, keeps⟩
      exact Option.some.inj same ▸ keeps
    · exact fun keeps => ⟨_, rfl, keeps⟩

end Authority

def borrowingModel : ModelDescriptor :=
  ⟨"a", "r", 1, some ⟨16, 15⟩, 0, some ⟨10, 0, true⟩⟩

def borrowingMeta : BlockMeta :=
  ⟨some ⟨"a", [9], poolTarget, "public", "r"⟩, 0, [sampleLocation .l2 "n"], false, 0⟩

/-- A full pool of twenty bytes in two blocks of one model, one of them inactive, beside a model that may borrow. -/
def fullPoolRun (soft : Int) : List Op :=
  [.setPoolCapacityBytes 20, .registerModel (sampleModel soft 0), .registerModel borrowingModel,
    .register "n" [[1]] [sampleMeta 1], .register "n" [[2]] [sampleMeta 2],
    .reportRefs [sampleRef 1 1 "n", sampleRef 1 (-1) "n"]]

/-- Five bytes are wanted, and of the model that has five too many a block of ten is taken. -/
theorem reclaim_passes_soft_quota : (sampleRun (fullPoolRun 15)).Reachable ∧
      ((sampleRun (fullPoolRun 15)).namespaces.lookup sampleKey).map (fun ns => (ns.quota.softBytes, ns.usedBytes)) =
        some (15, 20) ∧ ((sampleRun (fullPoolRun 15)).register "n" [[9]] [borrowingMeta]).2 = .ok .accepted ∧
      (((sampleRun (fullPoolRun 15)).register "n" [[9]] [borrowingMeta]).1.namespaces.lookup sampleKey).map
        (fun ns => (ns.quota.softBytes, ns.usedBytes)) = some (15, 10) := by
  refine ⟨sampleRun_reachable _, ?_⟩
  decide +kernel

/-- With a soft quota of whole blocks the same request leaves it. -/
theorem reclaim_keeps_whole_blocks : ∃ ns, (sampleRun (fullPoolRun 10)).namespaces.lookup sampleKey = some ns ∧
      ns.quota.softBytes < ns.usedBytes ∧ (sampleRun (fullPoolRun 10)).KeepsSoft [[9]] [borrowingMeta] sampleKey ns ∧
      ∃ ns', ((sampleRun (fullPoolRun 10)).register "n" [[9]] [borrowingMeta]).1.namespaces.lookup sampleKey = some ns' ∧
        ns'.usedBytes < ns.usedBytes ∧ ns.quota.softBytes ≤ ns'.usedBytes := by
  have before : ((sampleRun (fullPoolRun 10)).namespaces.lookup sampleKey).map
      (fun ns => (ns.quota.softBytes, ns.usedBytes)) = some (10, 20) := by decide +kernel
  have after : (((sampleRun (fullPoolRun 10)).register "n" [[9]] [borrowingMeta]).1.namespaces.lookup sampleKey).map
      (fun ns => ns.usedBytes) = some 10 := by decide +kernel
  obtain ⟨ns, found, facts⟩ := Option.map_eq_some_iff.mp before
  obtain ⟨ns', found', less⟩ := Option.map_eq_some_iff.mp after
  obtain ⟨soft, used⟩ := Prod.mk.inj facts
  have target : checkBatch [[9]] [borrowingMeta] = .ok (⟨"a", "r"⟩, poolTarget) := by decide +kernel
  have other : ∀ pk, checkBatch [[9]] [borrowingMeta] ≠ .ok (sampleKey, pk) := by
    intro pk same
    have key := (Prod.mk.inj (Except.ok.inj (target.symm.trans same))).1
    exact absurd key (by decide)
  have kept := Authority.register_keeps_soft_quotas (sampleRun (fullPoolRun 10)) "n" [[9]] [borrowingMeta] sampleKey ns
    found other
  have keeps := (kept.2 (by omega) (by omega)).mp ⟨ns', found', by omega⟩
  exact ⟨ns, found, by omega, keeps, ns', found', by omega, by omega⟩

end LakeKv
