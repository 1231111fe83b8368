import LakeKv.HardQuota

namespace LakeKv

open Finmap List Namespace Option Saturating

variable {B : Backend}

/-- At least one block is asked for: a quotient of `i64`s fits a `usize`. -/
theorem asUsize_pos (need : Int) {bpb : Int} (pos : 0 < bpb) : asUsize (max (blocksFor need bpb) 1) ≠ 0 := by
  have most : blocksFor need bpb ≤ i64Max := by
    unfold blocksFor
    have word : i64 (need + bpb - 1) ≤ i64Max := by
      simp only [i64, i64Max]
      omega
    rcases le_total 0 (i64 (need + bpb - 1)) with up | down
    · exact (Int.tdiv_le_self _ up).trans word
    · have up := Int.tdiv_nonneg (neg_nonneg.mpr down) pos.le
      rw [Int.neg_tdiv] at up
      exact (neg_nonneg.mp up).trans (by decide)
  unfold asUsize
  unfold i64Max at most
  omega

namespace Authority

variable {a b : Authority B}

/-- Two states with the same blocks, usage, references and inactive entries in every namespace, and the same events to
be published. -/
structure Unaffected (a b : Authority B) : Prop where
  blocks : ∀ key pk, (b.pool? key pk).map PoolView.byFlat = (a.pool? key pk).map PoolView.byFlat
  usedBytes : ∀ key, (b.namespaces.lookup key).map Namespace.usedBytes =
    (a.namespaces.lookup key).map Namespace.usedBytes
  refs : ∀ key pk, (b.pool? key pk).map PoolView.globalRefs = (a.pool? key pk).map PoolView.globalRefs
  inactive : ∀ key pk, (b.pool? key pk).map (fun p => B.nodes p.inactive) =
    (a.pool? key pk).map fun p => B.nodes p.inactive
  pending : b.pendingViewEvents = a.pendingViewEvents

theorem Unaffected.refl (a : Authority B) : Unaffected a a :=
  ⟨fun _ _ => rfl, fun _ => rfl, fun _ _ => rfl, fun _ _ => rfl, rfl⟩

def Holds (a : Authority B) (key : NamespaceKey) (pk : Int) (s : B.Seq) : Prop :=
  ∃ ns, a.namespaces.lookup key = some ns ∧ ns.Holds pk s

variable {key : NamespaceKey} {pk : Int} {s : B.Seq}

theorem holds_iff : a.Holds key pk s ↔ ∃ p, a.pool? key pk = some p ∧ s ∈ B.nodes p.inactive := by
  constructor
  · rintro ⟨ns, found, p, pool, mem⟩
    exact ⟨p, pool?_eq_some.mpr ⟨ns, found, pool⟩, mem⟩
  · rintro ⟨p, pool, mem⟩
    obtain ⟨ns, found, pool⟩ := pool?_eq_some.mp pool
    exact ⟨ns, found, p, pool, mem⟩

theorem not_unaffected (held : a.Holds key pk s) (gone : ¬ b.Holds key pk s) : ¬ Unaffected a b := by
  intro same
  obtain ⟨p, pool, mem⟩ := holds_iff.mp held
  have nodes := same.inactive key pk
  rw [pool, map_some] at nodes
  obtain ⟨q, pool', eq⟩ := map_eq_some_iff.mp nodes
  exact gone (holds_iff.mpr ⟨q, pool', eq ▸ mem⟩)

variable {ns : Namespace B} {reclaim : Int} {new n : Nat}

theorem holds_setNs {key' : NamespaceKey} {events : List ViewEvent} :
    ((a.setNs key ns).emit events).Holds key' pk s ↔ if key' = key then ns.Holds pk s else a.Holds key' pk s := by
  unfold Holds emit setNs
  simp only [lookup_insert_if]
  split
  · exact ⟨fun ⟨_, eq, held⟩ => some.inj eq ▸ held, fun held => ⟨ns, rfl, held⟩⟩
  · exact Iff.rfl

theorem not_holds_reclaimFrom (hB : B.Lawful) (want : Int)
    (keys : List NamespaceKey) (a : Authority B) (freed : Int) (out : ¬ a.Holds key pk s) :
    ¬ (a.reclaimFrom want keys freed).Holds key pk s := by
  induction keys generalizing a freed with
  | nil => exact out
  | cons k ks ih =>
    unfold reclaimFrom
    split
    · exact out
    split
    · exact ih a freed out
    next ns found =>
      dsimp only
      split
      · exact ih a freed out
      refine ih _ _ ?_
      rw [holds_setNs]
      split
      next same =>
        subst same
        exact ns.not_holds_evictInactiveN hB _ fun held => out ⟨ns, found, held⟩
      · exact out

/-- A reclaim takes a block, if a borrower has inactive ones. -/
theorem reclaimFrom_releases (hB : B.Lawful) {want : Int} (keys : List NamespaceKey) (a : Authority B) {freed : Int}
    (pos : freed < want) (range : i64Min ≤ freed ∧ freed ≤ i64Max) {k : NamespaceKey} (mem : k ∈ keys) (found : a.namespaces.lookup k = some ns)
    (borrows : 0 < borrowedBytes ns.usedBytes ns.quota.softBytes) (inactive : 0 < ns.inactiveLen) :
    ∃ key pk s, a.Holds key pk s ∧ ¬ (a.reclaimFrom want keys freed).Holds key pk s := by
  induction keys generalizing a with
  | nil => exact absurd mem not_mem_nil
  | cons k' ks ih =>
    unfold reclaimFrom
    rw [if_neg (by omega)]
    split
    next none =>
      rcases mem_cons.mp mem with rfl | mem
      · cases found.symm.trans none
      · exact ih a mem found
    next ns' here =>
      dsimp only
      split
      next under =>
        rcases mem_cons.mp mem with rfl | mem
        · cases found.symm.trans here
          omega
        · exact ih a mem found
      by_cases empty : ns'.inactiveLen = 0
      · -- nothing is freed here, and the loop moves on with as much to free as before
        have ne : k ≠ k' := by
          rintro rfl
          cases found.symm.trans here
          omega
        rw [evicted_eq_nil hB empty, length_nil, Nat.cast_zero, zero_mul, add_zero, i64_eq range.1 range.2]
        have found' : ∀ other events, ((a.setNs k' other).emit events).namespaces.lookup k = Option.some ns :=
          fun _ _ => (lookup_insert_of_ne _ ne).trans found
        obtain ⟨key, pk, s, held, gone⟩ := ih _ ((mem_cons.mp mem).resolve_left ne) (found' _ _)
        refine ⟨key, pk, s, ?_, gone⟩
        rw [holds_setNs] at held
        split at held
        next same =>
          subst same
          by_contra out
          exact ns'.not_holds_evictInactiveN hB _ (fun held => out ⟨ns', here, held⟩) held
        · exact held
      · obtain ⟨pk, s, held, gone⟩ := evictInactiveN_releases hB
          (Nat.pos_of_ne_zero (asUsize_pos (min (i64 (want - freed)) (borrowedBytes ns'.usedBytes ns'.quota.softBytes))
            ns'.descriptor.bytesPerBlock_pos)) (Nat.pos_of_ne_zero empty)
        refine ⟨k', pk, s, ⟨ns', here, held⟩, not_holds_reclaimFrom hB _ _ _ _ ?_⟩
        rw [holds_setNs, if_pos rfl]
        exact gone

theorem reclaimable_pos {except : NamespaceKey} (pos : 0 < a.reclaimableBorrowedBytes except) :
    ∃ k ns, k ≠ except ∧ a.namespaces.lookup k = some ns ∧ 0 < borrowedBytes ns.usedBytes ns.quota.softBytes ∧
      0 < ns.inactiveLen := by
  by_contra nobody
  have nothing : a.reclaimableBorrowedBytes except ≤ 0 := by
    unfold reclaimableBorrowedBytes
    refine List.foldlRecOn (motive := fun total : Int => total ≤ 0) _ _ le_rfl ?_
    intro total le k _
    split
    · exact le
    next ne =>
      split
      · exact le
      next ns found =>
        dsimp only
        split
        · exact le
        next borrows =>
          have empty : ns.inactiveLen = 0 := by
            by_contra pos
            exact nobody ⟨k, ns, ne, found, by omega, Nat.pos_of_ne_zero pos⟩
          have bytes : ns.inactiveBytes = 0 := by
            unfold inactiveBytes
            rw [empty, Nat.cast_zero, satMul, zero_mul]
            decide
          have least : min (borrowedBytes ns.usedBytes ns.quota.softBytes) ns.inactiveBytes = 0 := by omega
          rw [least, satAdd, add_zero]
          simp only [clamp, i64Max, i64Min]
          omega
  omega

theorem planBorrow_reclaims {q : Quota} {bpb projected reclaim : Int} {n : Nat}
    (plan : a.planBorrow key q bpb n projected = .ok reclaim) (pos : 0 < reclaim) :
    0 < a.reclaimableBorrowedBytes key := by
  have zero : (.ok 0 : Except AdmitWrite Int) ≠ .ok reclaim := by
    intro eq
    have := Except.ok.inj eq
    omega
  unfold planBorrow at plan
  split at plan
  · dsimp only at plan
    generalize (if 0 < a.poolCapacityBytes then max (a.freeBytes + satMul n bpb) 0 else a.freeBytes) = free at plan
    split at plan
    · split at plan
      · cases plan
      have least := Except.ok.inj plan
      omega
    · exact absurd plan zero
  · exact absurd plan zero

theorem planAdmit_reclaims (plan : a.planAdmit key new = .ok (.accept n reclaim)) (pos : 0 < reclaim) :
    0 < a.reclaimableBorrowedBytes key := by
  have rejects : ∀ w, rejectWith key w ≠ .ok (.accept n reclaim) := by
    intro w eq
    unfold rejectWith at eq
    split at eq <;> cases eq
  unfold planAdmit at plan
  split at plan
  · obtain ⟨-, rfl⟩ := AdmitPlan.accept.inj (Except.ok.inj plan)
    omega
  split at plan
  · cases plan
  dsimp only at plan
  split at plan
  · exact absurd plan (rejects _)
  split at plan
  · exact absurd plan (rejects _)
  next reclaimBytes borrowed =>
    split at plan
    · obtain ⟨-, rfl⟩ := AdmitPlan.accept.inj (Except.ok.inj plan)
      exact planBorrow_reclaims borrowed pos
    · obtain ⟨-, rfl⟩ := AdmitPlan.accept.inj (Except.ok.inj plan)
      exact planBorrow_reclaims borrowed pos
    · exact absurd plan (rejects _)

/-- An accepted plan that evicts or reclaims takes a block. -/
theorem commitAdmit_releases (hB : B.Lawful)
    (found : a.namespaces.lookup key = some ns) (plan : a.planAdmit key new = .ok (.accept n reclaim))
    (evicts : 0 < n ∨ 0 < reclaim) :
    ∃ key' pk s, a.Holds key' pk s ∧ ¬ (a.commitAdmit key n reclaim).Holds key' pk s := by
  have later : ∀ (b : Authority B) {key' pk s}, ¬ b.Holds key' pk s → ¬ (b.reclaimBorrowedBytes key reclaim).Holds key' pk s := by
    intro b key' pk s out
    unfold reclaimBorrowedBytes
    split
    · exact out
    · exact not_holds_reclaimFrom hB _ _ _ _ out
  by_cases own : 0 < n
  · have planned := planAdmit_eq_accept found plan
    have inactive : 0 < ns.inactiveLen := by
      unfold plannedEvictions at planned
      split at planned
      · omega
      dsimp only at planned
      omega
    obtain ⟨pk, s, held, gone⟩ := evictInactiveN_releases hB own inactive
    refine ⟨key, pk, s, ⟨ns, found, held⟩, ?_⟩
    have evicted : ¬ (a.evictOwn key n).Holds key pk s := by
      unfold evictOwn
      rw [found]
      dsimp only
      rw [holds_setNs, if_pos rfl]
      exact gone
    unfold commitAdmit
    rw [if_pos own]
    dsimp only
    split
    · exact later _ evicted
    · exact evicted
  · have reclaims : 0 < reclaim := evicts.resolve_left own
    obtain ⟨k, other, ne, there, borrows, inactive⟩ := reclaimable_pos (planAdmit_reclaims plan reclaims)
    unfold commitAdmit reclaimBorrowedBytes
    rw [if_neg own]
    dsimp only
    rw [if_pos reclaims, if_neg (by omega)]
    refine reclaimFrom_releases hB _ a reclaims (by decide) ?_ there borrows inactive
    unfold borrowers
    refine mem_filter.mpr ⟨?_, ?_⟩
    · exact Finset.mem_ascending.mpr (Finmap.mem_keys.mpr (mem_of_lookup_eq_some there))
    · rw [decide_eq_true_eq, there, map_some, getD_some, decide_eq_true_eq]
      exact ⟨ne, borrows⟩

/-- Whether the plan of admission for a batch evicts blocks of its namespace or reclaims blocks of others. -/
def PlansEviction (a : Authority B) (chain : List Flat) (metas : List BlockMeta) : Prop :=
  ∃ key pk ns n reclaim, a.Admits chain metas key pk ns n reclaim ∧ (0 < n ∨ 0 < reclaim)

/-- A registration that does not succeed leaves everything as it was, exactly if every block of the batch has a durable
copy or admission has nothing to evict: that check comes after the evictions. -/
theorem register_failed_unaffected_iff (hB : B.Lawful) (a : Authority B) (node : String) (chain : List Flat)
    (metas : List BlockMeta) :
    ((a.register node chain metas).2 ≠ .ok .accepted → Unaffected a (a.register node chain metas).1) ↔
      (metas.all durableFirst = true ∨ ¬ a.PlansEviction chain metas) := by
  constructor
  · intro unaffected
    by_contra not
    obtain ⟨notDurable, plans⟩ := not_or.mp not
    obtain ⟨key, pk, ns, n, reclaim, admits, evicts⟩ := not_not.mp plans
    have result := admits.register node
    rw [if_neg notDurable] at result
    rw [result] at unaffected
    obtain ⟨key', pk', s, held, gone⟩ := commitAdmit_releases hB admits.found admits.plan evicts
    exact not_unaffected held gone (unaffected nofun)
  · intro either refused
    rcases a.register_cases node chain metas with ⟨-, accepted⟩ | ⟨key, pk, ns, n, reclaim, admits⟩ | ⟨same, -⟩
    · rw [accepted] at refused
      exact absurd rfl refused
    · have result := admits.register node
      by_cases durable : metas.all durableFirst = true
      · rw [if_pos durable] at result
        rw [result] at refused
        exact absurd (insertBatch_accepted (commitAdmit_lookup admits.found n reclaim) node pk) refused
      · have nothing : ¬ (0 < n ∨ 0 < reclaim) := fun evicts =>
          either.resolve_left durable ⟨key, pk, ns, n, reclaim, admits, evicts⟩
        rw [if_neg durable] at result
        have same : a.commitAdmit key n reclaim = a := by
          unfold commitAdmit
          rw [if_neg (fun own => nothing (.inl own))]
          dsimp only
          rw [if_neg (fun others => nothing (.inr others))]
        rw [result, same]
        exact .refl a
    · rw [same]
      exact .refl a

end Authority

def copylessMeta (f : UInt8) : BlockMeta :=
  ⟨some (sampleId f), 0, [], false, 0⟩

/-- At the hard quota a refused batch has already cost the namespace its inactive block. -/
theorem refused_batch_evicts : sampleBackend.Lawful ∧ (sampleRun Authority.fullRun).Reachable ∧
      ((sampleRun Authority.fullRun).register "n" [[3]] [copylessMeta 3]).2 =
        .error (.err "RegisterBlocks: need L2 location or l3_present (durable first)") ∧
      ((sampleRun Authority.fullRun).block? ⟨"m", "r", poolTarget, [1]⟩).isSome = true ∧
      (((sampleRun Authority.fullRun).register "n" [[3]] [copylessMeta 3]).1.block? ⟨"m", "r", poolTarget, [1]⟩).isSome = false := by
  refine ⟨sampleBackend_lawful, sampleRun_reachable _, ?_⟩
  decide +kernel

/-- A namespace with room for one more block beside an inactive one. -/
def roomyRun : List Op :=
  [.registerModel (sampleModel 0 20), .register "n" [[1]] [sampleMeta 1],
    .reportRefs [sampleRef 1 1 "n", sampleRef 1 (-1) "n"]]

/-- The same batch is refused without harm while the quota has room. -/
theorem refused_batch_keeps :
    ((sampleRun roomyRun).block? ⟨"m", "r", poolTarget, [1]⟩).isSome = true ∧
      ((sampleRun roomyRun).register "n" [[3]] [copylessMeta 3]).2 ≠ .ok .accepted ∧
      Authority.Unaffected (sampleRun roomyRun) ((sampleRun roomyRun).register "n" [[3]] [copylessMeta 3]).1 := by
  have refused : ((sampleRun roomyRun).register "n" [[3]] [copylessMeta 3]).2 ≠ .ok .accepted := by decide +kernel
  refine ⟨by decide +kernel, refused, (Authority.register_failed_unaffected_iff sampleBackend_lawful _ _ _ _).mpr (.inr ?_) refused⟩
  rintro ⟨key, pk, ns, n, reclaim, admits, evicts⟩
  have check : checkBatch [[3]] [copylessMeta 3] = .ok (sampleKey, poolTarget) := by decide +kernel
  have target := Except.ok.inj (check.symm.trans admits.check)
  cases target
  have one : ((sampleRun roomyRun).namespaces.lookup sampleKey).map
      (fun ns => (newFlats (ns.pools.lookup poolTarget) ((batchIds [copylessMeta 3]).map KvBlockId.blockHash)).card) =
      some 1 := by decide +kernel
  rw [admits.found, map_some] at one
  have plan := admits.plan
  rw [some.inj one] at plan
  have room : (sampleRun roomyRun).planAdmit sampleKey 1 = .ok (.accept 0 0) := by decide +kernel
  cases room.symm.trans plan
  omega

end LakeKv
