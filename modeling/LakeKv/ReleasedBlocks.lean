import LakeKv.InactiveCoverage

namespace LakeKv

open Authority Finmap List NsAction PoolView

variable {B : Backend}

/-- The lineage hashes in the inactive index of a pool, with those of some of its blocks. -/
def PoolView.releasing (p : PoolView B) (R : Flat → Bool) : Finset B.Seq :=
  (B.nodes p.inactive).keys ∪ (p.byFlat.keys.filter fun f => R f).biUnion fun f =>
    (p.byFlat.lookup f).elim ∅ fun e => {e.seqHash}

def Op.keepsNamespaces : Op → Bool
  | .deregisterModel _ _ => false
  | .importSnapshot _ => false
  | .reconcileOrphans _ _ _ => false
  | _ => true

namespace Authority

/-- The blocks a call may take the last reference of. -/
def releasedKeys (a : Authority B) : Op → List BlockKey
  | .reportRefs ds => ds.filterMap fun d => if d.delta < 0 then d.id.map BlockKey.fromId else none
  | .reconcileDeadNode node =>
    (B.blockOrder ((a.nodeRefs.lookup node).getD ∅).keys).map fun k => BlockKey.fromId k.toId
  | _ => []

/-- A pool in which a call may release blocks has room for them all in its inactive index. -/
def RoomToRelease (a : Authority B) (op : Op) : Prop :=
  ∀ k ∈ a.releasedKeys op, ∀ p ∈ a.pool? k.ns k.poolKind,
    (p.releasing fun f => decide ({ k with flat := f } ∈ a.releasedKeys op)).card ≤ p.inactiveCap

instance roomToReleaseDecidable (a : Authority B) (op : Op) : Decidable (a.RoomToRelease op) :=
  inferInstanceAs (Decidable (∀ k ∈ a.releasedKeys op, ∀ p ∈ a.pool? k.ns k.poolKind,
    (p.releasing fun f => decide ({ k with flat := f } ∈ a.releasedKeys op)).card ≤ p.inactiveCap))

def applyRefsStates (a : Authority B) : List RefDelta → List (Authority B)
  | [] => []
  | d :: ds =>
    match a.reportRef d with
    | (a', .ok ()) => a' :: a'.applyRefsStates ds
    | (a', .error _) => [a']

def between (a : Authority B) : Op → List (Authority B)
  | .reportRefs ds =>
    match a.projectRefs ⟨∅, ∅⟩ 0 ds with
    | .error _ => []
    | .ok () => a.applyRefsStates ds
  | _ => []

def Referenced (a : Authority B) (k : BlockKey) (b : BlockId) : Prop :=
  ∃ p e, a.pool? k.ns k.poolKind = some p ∧ p.byFlat.lookup k.flat = some e ∧ e.blockId = b ∧
    0 < (p.refsOf e.seqHash).total

/-- `b` has the pools of `a` with one reference reported: booked, or refused with its account opened. -/
inductive Reported (a : Authority B) (d : RefDelta) (b : Authority B) : Prop
  | refused {id pk p e} (named : d.id = some id) (kind : resolvePoolKind id.poolKind = .ok pk)
      (found : a.pool? (.fromId id) pk = some p) (block : p.byFlat.lookup id.blockHash = some e)
      (pools : b.namespaces = (a.setPool (.fromId id) pk (p.touchRefs e.seqHash)).namespaces)
  | booked {id pk p e kind after} (named : d.id = some id) (resolved : resolvePoolKind id.poolKind = .ok pk)
      (found : a.pool? (.fromId id) pk = some p) (block : p.byFlat.lookup id.blockHash = some e)
      (supported : kind = .request ∨ kind = .writeback)
      (fits : bucketAfter (p.refsOf e.seqHash) kind d.delta = .ok after)
      (pools : b.namespaces = (a.setPool (.fromId id) pk (p.setRef e.seqHash e.blockId kind after)).namespaces)

variable {d : RefDelta} {kind : RefKind}

theorem applyRef_reported {a : Authority B} {t : RefTarget B} {id : KvBlockId}
    (track : Bool) (ht : a.refTarget d = .ok t) (hid : d.id = some id) (hk : kind = .request ∨ kind = .writeback) :
    Reported a d (a.applyRef t id kind d track).1 := by
  obtain ⟨id', p, e, hid', hkey, hpk, hp, he, hseq⟩ := refTarget_eq_ok ht
  cases hid.symm.trans hid'
  have hfound : a.pool? (.fromId id) t.poolKind = some p := hkey ▸ hp
  cases hafter : bucketAfter (p.refsOf e.seqHash) kind d.delta with
  | error bound =>
    refine .refused hid hpk hfound he ?_
    simp only [applyRef, hkey, hfound, he, ← hseq, hafter]
  | ok after =>
    refine .booked hid hpk hfound he hk hafter ?_
    simp only [applyRef, hkey, hfound, he, ← hseq, hafter]
    cases track <;> rfl

theorem reportRefRaw_reported (a : Authority B) (d : RefDelta) (track : Bool) :
    (a.reportRefRaw d track).1.namespaces = a.namespaces ∨ Reported a d (a.reportRefRaw d track).1 := by
  unfold reportRefRaw
  split
  · exact .inl rfl
  · exact .inl rfl
  next t id ht hid =>
    split
    · exact .inl rfl
    next kind hkind =>
      have hk := resolveRefKind_eq_ok hkind
      split
      · split
        · exact .inl rfl
        · exact .inr (applyRef_reported true ht hid hk)
      · exact .inr (applyRef_reported false ht hid hk)

/-- What holds of an authority whose blocks of `H` have been referenced: the pools are in order, their
inactive indexes have the idle blocks of `H`, and no block of `H` is in a pool to come. -/
structure Reclaimable (S : Set (List Flat)) (H : BlockKey → BlockId → Prop) (a : Authority B) : Prop where
  indexed : ∀ key pk p, a.pool? key pk = some p → Indexed S key pk p
  covered : ∀ key pk p, a.pool? key pk = some p →
    p.Covered fun f b => H ⟨key.modelId, key.revision, pk, f⟩ b
  pools : ∀ k b, H k b → (a.pool? k.ns k.poolKind).isSome

variable {S : Set (List Flat)} {H : BlockKey → BlockId → Prop} {a b : Authority B}

theorem Reclaimable.congr (h : a.Reclaimable S H) (hns : b.namespaces = a.namespaces) : b.Reclaimable S H where
  indexed key pk p hp := h.indexed key pk p ((pool?_congr hns key pk).symm.trans hp)
  covered key pk p hp := h.covered key pk p ((pool?_congr hns key pk).symm.trans hp)
  pools k c hc := by
    rw [pool?_congr hns]
    exact h.pools k c hc

theorem Reclaimable.widen (h : a.Reclaimable S H) : a.Reclaimable S fun k c => H k c ∨ a.Referenced k c where
  indexed := h.indexed
  covered key pk p hp := by
    refine (h.covered key pk p hp).widen fun f c hc => ?_
    rcases hc with hc | ⟨q, e, hq, he, hid, hpos⟩
    · exact .inl hc
    · have hq' : a.pool? key pk = some q := hq
      cases hp.symm.trans hq'
      exact .inr ⟨e, he, hid, hpos⟩
  pools k c hc := by
    rcases hc with hc | ⟨p, -, hp, -⟩
    · exact h.pools k c hc
    · rw [hp]
      rfl

variable {key : NamespaceKey} {pk : Int}

theorem Indexed.lineages {p : PoolView B} (h : Indexed S key pk p) :
    ∀ f e, p.byFlat.lookup f = some e → ∃ c ∈ S, B.lineageOf c = some e.seqHash :=
  fun f e he => ⟨e.prefixChain, h.chains f e he, (h.keyed f e he).lineage⟩

variable {op : Op}

theorem Reclaimable.run (hB : B.Lawful) (hS : B.InjectiveOn S) (hslots : B.SlotsApart S)
    {may : NamespaceKey → NsAction B → Prop} (hmay : ∀ key act, may key act → op.May key act)
    (stay : ∀ key, ¬may key .remove) (noref : ∀ key pk f e kind value, ¬may key (.pool pk (.setRef f e kind value)))
    (hkeep : ∀ k c c', op.Registers k c → op.Registers k c' → c = c') (hchains : ∀ k c, op.Registers k c → c ∈ S)
    (hfit : ∀ key pk p, a.pool? key pk = some p → ChainsFit op key pk p) (hrun : Run may a b)
    (h : a.Reclaimable S H) : b.Reclaimable S H := by
  obtain ⟨hpools, hall⟩ := hrun.pools_kept (I := fun key pk p => Indexed S key pk p ∧ ChainsFit op key pk p ∧
      p.Covered fun f b => H ⟨key.modelId, key.revision, pk, f⟩ b) stay
    (fun key pk cap hnone => by
      refine ⟨.new hB S key pk cap, by intro f c e _ he; simp [PoolView.new] at he, .new hB cap ?_⟩
      intro f c hc
      have hsome : (a.pool? key pk).isSome := h.pools _ c hc
      simp [hnone] at hsome)
    (fun key pk p act hact guard hp => by
      have hact' := hact.mono hmay
      obtain ⟨hidx, hcf, hcov⟩ := hp
      have hreg : ∀ b, act = .register b → _ := fun b heq =>
        hidx.register_fits hS hchains (heq ▸ hact') hcf
      refine ⟨hidx.apply hB hS hchains hact' guard hcf, hcf.apply hB hkeep hact' guard, ?_⟩
      refine hcov.apply hB hslots hidx.index hidx.lineages guard (fun b heq => (hreg b heq).1) ?_
      rintro f e kind value rfl
      exact absurd hact (noref key pk f e kind value))
    (fun key pk p hp => ⟨h.indexed key pk p hp, hfit key pk p hp, h.covered key pk p hp⟩)
  refine ⟨fun key pk p hp => (hall key pk p hp).1, fun key pk p hp => (hall key pk p hp).2.2, ?_⟩
  exact fun k c hc => hpools _ _ (h.pools k c hc)

/-- The pools have room in `U` for the blocks that `R` says may be released. -/
structure Roomy (R : BlockKey → Prop) (U : NamespaceKey → Int → Finset B.Seq) (a : Authority B) : Prop where
  within : ∀ key pk p, a.pool? key pk = some p → ∀ s, s ∈ B.nodes p.inactive → s ∈ U key pk
  card : ∀ key pk p, a.pool? key pk = some p → (U key pk).card ≤ p.inactiveCap
  named : ∀ key pk p, a.pool? key pk = some p → ∀ f e, p.byFlat.lookup f = some e →
    R ⟨key.modelId, key.revision, pk, f⟩ → e.seqHash ∈ U key pk

variable {R : BlockKey → Prop} {U : NamespaceKey → Int → Finset B.Seq} {p q : PoolView B}

theorem Roomy.congr (h : a.Roomy R U) (hns : b.namespaces = a.namespaces) : b.Roomy R U where
  within key pk p hp := h.within key pk p ((pool?_congr hns key pk).symm.trans hp)
  card key pk p hp := h.card key pk p ((pool?_congr hns key pk).symm.trans hp)
  named key pk p hp := h.named key pk p ((pool?_congr hns key pk).symm.trans hp)

theorem total_setBucket {r : RefAccounts} (hk : kind = .request ∨ kind = .writeback)
    (value : Int) : (r.setBucket kind value).total = r.total + (value - r.bucket kind) := by
  rcases hk with rfl | rfl
  · simp only [RefAccounts.setBucket, RefAccounts.total, RefAccounts.bucket]
    omega
  · simp only [RefAccounts.setBucket, RefAccounts.total, RefAccounts.bucket]
    omega

theorem Reclaimable.setPool (h : a.Reclaimable S H) (hp : a.pool? key pk = some p) (hidx : Indexed S key pk q)
    (hcov : q.Covered fun f b => H ⟨key.modelId, key.revision, pk, f⟩ b) : (a.setPool key pk q).Reclaimable S H where
  indexed key' pk' p' hp' := by
    rw [pool?_setPool_if hp] at hp'
    split at hp'
    next heq =>
      obtain ⟨rfl, rfl⟩ := heq
      cases hp'
      exact hidx
    · exact h.indexed key' pk' p' hp'
  covered key' pk' p' hp' := by
    rw [pool?_setPool_if hp] at hp'
    split at hp'
    next heq =>
      obtain ⟨rfl, rfl⟩ := heq
      cases hp'
      exact hcov
    · exact h.covered key' pk' p' hp'
  pools k c hc := by
    rw [pool?_setPool_if hp]
    split
    · rfl
    · exact h.pools k c hc

theorem Roomy.setPool (h : a.Roomy R U)
    (hp : a.pool? key pk = some p) (hnodes : ∀ s, s ∈ B.nodes q.inactive → s ∈ U key pk)
    (hcap : q.inactiveCap = p.inactiveCap) (hby : q.byFlat = p.byFlat) : (a.setPool key pk q).Roomy R U where
  within key' pk' p' hp' := by
    rw [pool?_setPool_if hp] at hp'
    split at hp'
    next heq =>
      obtain ⟨rfl, rfl⟩ := heq
      cases hp'
      exact hnodes
    · exact h.within key' pk' p' hp'
  card key' pk' p' hp' := by
    rw [pool?_setPool_if hp] at hp'
    split at hp'
    next heq =>
      obtain ⟨rfl, rfl⟩ := heq
      cases hp'
      rw [hcap]
      exact h.card _ _ p hp
    · exact h.card key' pk' p' hp'
  named key' pk' p' hp' := by
    rw [pool?_setPool_if hp] at hp'
    split at hp'
    next heq =>
      obtain ⟨rfl, rfl⟩ := heq
      cases hp'
      rw [hby]
      exact h.named _ _ p hp
    · exact h.named key' pk' p' hp'

section

variable (hB : B.Lawful)
include hB

variable (hslots : B.SlotsApart S)
include hslots

theorem Reclaimable.reported (h : a.Reclaimable S H)
    (hroom : a.Roomy R U) (hneg : ∀ id, d.id = some id → d.delta < 0 → R (.fromId id))
    (hd : Reported a d b) : b.Reclaimable S H ∧ b.Roomy R U := by
  cases hd with
  | @refused id pk p e named resolved found block pools =>
    have hidx := h.indexed _ _ p found
    have hs := p.touchRefs_sameIndex e.seqHash
    have hslots' : p.SameSlots (p.touchRefs e.seqHash) := ⟨rfl, rfl, rfl⟩
    have hidx' : Indexed S (.fromId id) pk (p.touchRefs e.seqHash) :=
      ⟨hidx.keyed, hidx.chains, hidx.index.of_sameIndex hs⟩
    have hnodes : ∀ s, s ∈ B.nodes (p.touchRefs e.seqHash).inactive → s ∈ U (.fromId id) pk :=
      hroom.within _ _ p found
    exact ⟨(h.setPool found hidx' ((h.covered _ _ p found).of_frame hslots' hs.back hs.refs)).congr pools,
      (hroom.setPool found hnodes rfl rfl).congr pools⟩
  | @booked id pk p e kind after named resolved found block supported fits pools =>
    have hidx := h.indexed _ _ p found
    obtain ⟨hafter, hpos⟩ := bucketAfter_eq_ok fits
    have hby : (p.setRef e.seqHash e.blockId kind after).byFlat = p.byFlat := by rw [setRef_eq]
    have hcap : (p.setRef e.seqHash e.blockId kind after).inactiveCap = p.inactiveCap := by
      rw [setRef_eq]
    -- A release is by a negative delta, and there is room for it.
    have hmember : 0 < (p.refsOf e.seqHash).total → ((p.refsOf e.seqHash).setBucket kind after).total = 0 →
        e.seqHash ∈ U (.fromId id) pk := by
      intro hbefore hzero
      rw [total_setBucket supported] at hzero
      refine hroom.named _ _ p found _ e block ?_
      have hkey := hneg id named (by omega)
      rw [BlockKey.fromId_of_resolve resolved] at hkey
      exact hkey
    have hrelease : 0 < (p.refsOf e.seqHash).total → ((p.refsOf e.seqHash).setBucket kind after).total = 0 →
        (B.nodes p.inactive).keys.card < p.inactiveCap := by
      intro hbefore hzero
      have hout : e.seqHash ∉ B.nodes p.inactive := by
        intro hmem
        have hidle := hidx.index.idle _ hmem
        omega
      refine lt_of_lt_of_le (Finset.card_lt_card ?_) (hroom.card _ _ p found)
      refine Finset.ssubset_iff_of_subset (fun s hs => hroom.within _ _ p found s (mem_keys.mp hs)) |>.mpr ?_
      exact ⟨e.seqHash, hmember hbefore hzero, fun hmem => hout (mem_keys.mp hmem)⟩
    refine ⟨(h.setPool found ⟨?_, ?_, hidx.index.setRef hB block kind hpos⟩ ?_).congr pools,
      (hroom.setPool found ?_ hcap hby).congr pools⟩
    · rw [hby]
      exact hidx.keyed
    · rw [hby]
      exact hidx.chains
    · exact (h.covered _ _ p found).setRef hB hslots hidx.index hidx.lineages block kind hpos hrelease
    · intro s hs
      obtain ⟨c, hc⟩ := mem_iff.mp hs
      rcases nodes_setRef hB p _ _ kind after hc with ⟨rfl, -, hbefore, hzero⟩ | ⟨hin, -⟩
      · exact hmember hbefore hzero
      · exact hroom.within _ _ p found s (mem_of_lookup_eq_some hin)

theorem Reclaimable.reportRefRaw (h : a.Reclaimable S H)
    (hroom : a.Roomy R U) (hneg : ∀ id, d.id = some id → d.delta < 0 → R (.fromId id)) (track : Bool) :
    (a.reportRefRaw d track).1.Reclaimable S H ∧ (a.reportRefRaw d track).1.Roomy R U := by
  rcases reportRefRaw_reported a d track with hsame | hd
  · exact ⟨h.congr hsame, hroom.congr hsame⟩
  · exact h.reported hB hslots hroom hneg hd

theorem Reclaimable.applyRefs (ds : List RefDelta) (h : a.Reclaimable S H) (hroom : a.Roomy R U)
    (hneg : ∀ d ∈ ds, ∀ id, d.id = some id → d.delta < 0 → R (.fromId id)) :
    (a.applyRefs ds).1.Reclaimable S fun k c => H k c ∨ ∃ s ∈ a.applyRefsStates ds, s.Referenced k c := by
  induction ds generalizing a H with
  | nil =>
    have hsame : (fun k c => H k c ∨ ∃ s ∈ a.applyRefsStates [], s.Referenced k c) = H := by
      funext k c
      simp [applyRefsStates]
    rw [hsame]
    exact h
  | cons d ds ih =>
    obtain ⟨hone, hroom'⟩ := h.reportRefRaw hB hslots hroom (hneg d mem_cons_self) true
    unfold applyRefs applyRefsStates
    rw [← reportRef] at hone hroom'
    cases hd : a.reportRef d with
    | mk a' result =>
      rw [hd] at hone hroom'
      cases result with
      | error fault =>
        have hsame : (fun k c => H k c ∨ ∃ s ∈ [a'], s.Referenced k c) = fun k c => H k c ∨ a'.Referenced k c := by
          funext k c
          simp
        simp only [hsame]
        exact hone.widen
      | ok _ =>
        have hrest := ih hone.widen hroom' fun d' hd' => hneg d' (mem_cons_of_mem _ hd')
        have hsame : (fun k c => H k c ∨ ∃ s ∈ a' :: a'.applyRefsStates ds, s.Referenced k c) =
            fun k c => (H k c ∨ a'.Referenced k c) ∨ ∃ s ∈ a'.applyRefsStates ds, s.Referenced k c := by
          funext k c
          simp [or_assoc]
        simp only [hsame]
        exact hrest

theorem Reclaimable.clearRef {k : BlockKey} (hk : R (.fromId k.toId))
    (kind : RefKind) (fuel : Nat) (remaining : Int) (h : a.Reclaimable S H) (hroom : a.Roomy R U) :
    (a.clearRef k kind fuel remaining).Reclaimable S H ∧ (a.clearRef k kind fuel remaining).Roomy R U := by
  induction fuel generalizing a remaining with
  | zero => exact ⟨h, hroom⟩
  | succ fuel ih =>
    unfold clearRef
    split
    · exact ⟨h, hroom⟩
    obtain ⟨hone, hroom'⟩ := h.reportRefRaw hB hslots hroom (d := ⟨some k.toId, kind.toWire, -min remaining i32Max, ""⟩)
      (fun id hid _ => Option.some.inj hid ▸ hk) false
    exact ih _ hone hroom'

theorem Reclaimable.clearHeld (held : Map BlockKey RefAccounts)
    (ks : List BlockKey) (hks : ∀ k ∈ ks, R (.fromId k.toId)) (h : a.Reclaimable S H) (hroom : a.Roomy R U) :
    (a.clearHeld held ks).Reclaimable S H ∧ (a.clearHeld held ks).Roomy R U := by
  induction ks generalizing a with
  | nil => exact ⟨h, hroom⟩
  | cons k ks ih =>
    have hk := hks k mem_cons_self
    have hrest := fun b (hb : Authority.Reclaimable S H b) hb' =>
      ih (a := b) (fun k' hk' => hks k' (mem_cons_of_mem _ hk')) hb hb'
    unfold clearHeld
    dsimp only
    split
    · exact hrest a h hroom
    obtain ⟨hreq, hreq'⟩ := h.clearRef hB hslots hk .request ((held.lookup k).getD .zero).request.toNat
      ((held.lookup k).getD .zero).request hroom
    obtain ⟨hwb, hwb'⟩ := hreq.clearRef hB hslots hk .writeback ((held.lookup k).getD .zero).writeback.toNat
      ((held.lookup k).getD .zero).writeback hreq'
    exact hrest _ hwb hwb'

end

theorem RoomToRelease.roomy (hroom : a.RoomToRelease op) (h : a.Reclaimable S H) :
    a.Roomy (fun k => k ∈ a.releasedKeys op) fun key pk => (a.pool? key pk).elim ∅ fun p =>
      p.releasing fun f => decide (⟨key.modelId, key.revision, pk, f⟩ ∈ a.releasedKeys op) where
  within key pk p hp s hs := by
    rw [hp]
    exact Finset.mem_union_left _ (mem_keys.mpr hs)
  card key pk p hp := by
    rw [hp]
    by_cases hany : ∃ k ∈ a.releasedKeys op, k.ns = key ∧ k.poolKind = pk
    · obtain ⟨k, hk, rfl, rfl⟩ := hany
      exact hroom k hk p hp
    · -- Without a block to release only the index counts.
      have hnone : (p.byFlat.keys.filter fun f =>
          decide ((⟨key.modelId, key.revision, pk, f⟩ : BlockKey) ∈ a.releasedKeys op)) = ∅ := by
        refine Finset.filter_eq_empty_iff.mpr fun f _ hf => hany ⟨_, of_decide_eq_true hf, rfl, rfl⟩
      show (p.releasing fun f =>
        decide ((⟨key.modelId, key.revision, pk, f⟩ : BlockKey) ∈ a.releasedKeys op)).card ≤ _
      rw [releasing, hnone, Finset.biUnion_empty, Finset.union_empty]
      exact (h.covered key pk p hp).room
  named key pk p hp f e he hR := by
    rw [hp]
    refine Finset.mem_union_right _ (Finset.mem_biUnion.mpr ⟨f, ?_, ?_⟩)
    · exact Finset.mem_filter.mpr ⟨mem_keys.mpr (mem_of_lookup_eq_some he), decide_eq_true hR⟩
    · simp [he]

def ReleasesWithRoom (S : Set (List Flat)) (a : Authority B) (op : Op) : Prop :=
  KeepsChainsIn S a op ∧ op.keepsNamespaces = true ∧ a.RoomToRelease op

variable (hB : B.Lawful)
include hB

variable (hS : B.InjectiveOn S)
include hS

variable (hslots : B.SlotsApart S)
include hslots

theorem Reclaimable.step_run
    (hkeep : KeepsChainsIn S a op) (hop : op.replaces = false) (stay : ∀ key, ¬op.May (B := B) key .remove)
    (noref : ∀ key pk f e kind value, ¬op.May (B := B) key (.pool pk (.setRef f e kind value)))
    (h : a.Reclaimable S H) : (a.step op).Reclaimable S H := by
  refine h.run hB hS hslots (fun _ _ hm => hm) stay noref hkeep.1.1 hkeep.2 (fun key pk p hp => ?_)
    (Authority.step_run a hop)
  intro f c e hc he
  refine hkeep.1.2 hop _ c e hc ?_
  simp [block?, BlockKey.ns, hp, he]

theorem Reclaimable.reconcileDeadNode
    {node : String} (hroom : a.RoomToRelease (.reconcileDeadNode node)) (h : a.Reclaimable S H) :
    (a.reconcileDeadNode node).1.Reclaimable S H := by
  unfold Authority.reconcileDeadNode
  split
  · exact h
  have hcleared := Reclaimable.clearHeld hB hslots ((a.nodeRefs.lookup node).getD ∅)
    (B.blockOrder ((a.nodeRefs.lookup node).getD ∅).keys)
    (fun k hk => mem_map.mpr ⟨k, hk, rfl⟩)
    (h.congr (b := { a with nodeRefs := a.nodeRefs.erase node }) rfl) ((hroom.roomy h).congr rfl)
  have hnone : ∀ k c, ¬(Op.reconcileDeadNode node).Registers k c := by
    intro k c hc
    cases hc
  -- The locations of the node go after its references.
  have hstrip : Run (fun key act => ∃ pk, (∃ f, act = pool pk (.strip key pk node f)) ∨
      act = pool pk (.clearMarks node)) _ _ :=
    stripNamespaces_run (fun key pk f => ⟨pk, .inl ⟨f, rfl⟩⟩) (fun key pk => ⟨pk, .inr rfl⟩)
      (({ a with nodeRefs := a.nodeRefs.erase node } : Authority B).clearHeld
        ((a.nodeRefs.lookup node).getD ∅) (B.blockOrder ((a.nodeRefs.lookup node).getD ∅).keys))
      (B.namespaceOrder (({ a with nodeRefs := a.nodeRefs.erase node } : Authority B).clearHeld
        ((a.nodeRefs.lookup node).getD ∅)
        (B.blockOrder ((a.nodeRefs.lookup node).getD ∅).keys)).namespaces.keys)
  have hmay : ∀ key (act : NsAction B), (∃ pk, (∃ f, act = pool pk (.strip key pk node f)) ∨
      act = pool pk (.clearMarks node)) → (Op.reconcileDeadNode node).May key act := by
    rintro key act ⟨pk, ⟨f, rfl⟩ | rfl⟩
    · exact .strip
    · exact .clearMarks
  refine hcleared.1.run hB hS hslots hmay ?_ ?_
    (fun k c _ hc => absurd hc (hnone k c)) (fun k c hc => absurd hc (hnone k c))
    (fun key pk p _ f c e hc => absurd hc (hnone _ c)) hstrip
  · rintro key ⟨pk, ⟨f, hf⟩ | hf⟩ <;> cases hf
  · rintro key pk f e kind value ⟨pk', ⟨f', hf⟩ | hf⟩ <;> cases hf

theorem step_reclaimable (hok : ReleasesWithRoom S a op) (h : a.Reclaimable S H) :
    (a.step op).Reclaimable S fun k c => H k c ∨ ∃ s ∈ a.between op, s.Referenced k c := by
  obtain ⟨hkeep, hns, hroom⟩ := hok
  have hsilent : a.between op = [] → (a.step op).Reclaimable S H → (a.step op).Reclaimable S fun k c =>
      H k c ∨ ∃ s ∈ a.between op, s.Referenced k c := by
    intro hnil hstep
    have hsame : (fun k c => H k c ∨ ∃ s ∈ a.between op, s.Referenced k c) = H := by
      funext k c
      simp [hnil]
    rwa [hsame]
  cases op with
  | deregisterModel | importSnapshot | reconcileOrphans => simp [Op.keepsNamespaces] at hns
  | commitViewEvents => exact hsilent rfl (h.congr a.commitViewEvents_namespaces)
  | reconcileDeadNode node => exact hsilent rfl (h.reconcileDeadNode hB hS hslots hroom)
  | reportRefs ds =>
    cases hproject : a.projectRefs ⟨∅, ∅⟩ 0 ds with
    | error e => exact hsilent (by simp [between, hproject]) (by simpa [step, reportRefs, hproject] using h)
    | ok _ =>
      have hbatch := h.applyRefs hB hslots ds (hroom.roomy h) fun d hd id hid hneg =>
        mem_filterMap.mpr ⟨d, hd, by simp [hneg, hid]⟩
      simpa only [step, between, reportRefs, hproject] using hbatch
  | _ =>
    refine hsilent rfl (h.step_run hB hS hslots hkeep rfl ?_ ?_)
    · intro key hm
      cases hm
    · intro key pk f e kind value hm
      cases hm

end Authority

structure Traced (B : Backend) where
  now : Authority B
  past : List (Authority B)

namespace Traced

def start (a : Authority B) : Traced B :=
  ⟨a, [a]⟩

def step (t : Traced B) (op : Op) : Traced B :=
  ⟨t.now.step op, t.past ++ t.now.between op ++ [t.now.step op]⟩

def ReachableBy (ok : Authority B → Op → Prop) : Traced B → Prop :=
  Reach step (fun t => ∃ a, a.Initial ∧ t = start a) fun t op => ok t.now op

/-- The block has been referenced at some time since it was registered under this id. -/
def WasReferenced (t : Traced B) (k : BlockKey) (b : BlockId) : Prop :=
  ∃ s ∈ t.past, s.Referenced k b

theorem reachableBy_reclaimable (hB : B.Lawful) {S : Set (List Flat)} (hS : B.InjectiveOn S)
    (hslots : B.SlotsApart S) {t : Traced B} (h : ReachableBy (Authority.ReleasesWithRoom S) t) :
    t.now.Reclaimable S t.WasReferenced := by
  refine Reach.invariant (I := fun t => t.now.Reclaimable S t.WasReferenced) ?_ ?_ h
  · rintro t ⟨a, ha, rfl⟩
    refine ⟨fun key pk p hp => ?_, fun key pk p hp => ?_, ?_⟩
    · simp [start, initial_pool? ha] at hp
    · simp [start, initial_pool? ha] at hp
    · rintro k c ⟨s, hs, p, e, hp, -⟩
      cases List.mem_singleton.mp hs
      simp [initial_pool? ha] at hp
  · intro t op ht hok
    have hstep := (step_reclaimable hB hS hslots hok ht).widen
    have hsame : (t.step op).WasReferenced = fun k c => (t.WasReferenced k c ∨
        ∃ s ∈ t.now.between op, s.Referenced k c) ∨ (t.now.step op).Referenced k c := by
      funext k c
      simp [WasReferenced, step, or_and_right, exists_or, or_assoc]
    rw [hsame]
    exact hstep

/-- In every run whose releases find room, a block that had a reference once and has none now is in
the inactive index, or the index is at capacity. -/
theorem released_blocks_inactive (hB : B.Lawful) {S : Set (List Flat)} (hS : B.InjectiveOn S)
    (hslots : B.SlotsApart S) {t : Traced B} (h : ReachableBy (Authority.ReleasesWithRoom S) t)
    {key : NamespaceKey} {pk : Int} {p : PoolView B} {f : Flat} {e : Entry B}
    (hp : t.now.pool? key pk = some p) (he : p.byFlat.lookup f = some e)
    (held : t.WasReferenced ⟨key.modelId, key.revision, pk, f⟩ e.blockId) (free : (p.refsOf e.seqHash).total = 0) :
    e.seqHash ∈ B.nodes p.inactive ∨ p.inactiveCap ≤ B.len p.inactive :=
  .inl (((reachableBy_reclaimable hB hS hslots h).covered key pk p hp).idle f e he held free)

def sample (cap : Nat) (ops : List Op) : Traced sampleBackend :=
  ops.foldl step (start (.withInactiveCap sampleBackend cap))

variable (cap : Nat)

theorem sample_reachableBy {ok : Authority sampleBackend → Op → Prop} (ops : List Op)
    (h : Reach.Allowed step (fun t op => ok t.now op) (start (.withInactiveCap sampleBackend cap)) ops) :
    ReachableBy ok (sample cap ops) :=
  (Reach.start ⟨_, ⟨cap, rfl⟩, rfl⟩).foldl h

theorem sampleBackend_slotsApart (S : Set (List Flat)) : sampleBackend.SlotsApart S :=
  fun _ _ _ _ _ hs => if_neg hs

theorem sample_mem_past (ops more : List Op) : (sample cap ops).now ∈ (sample cap (ops ++ more)).past := by
  have hnow : ∀ (ops : List Op) (t : Traced sampleBackend), t.now ∈ t.past →
      (ops.foldl step t).now ∈ (ops.foldl step t).past := by
    intro ops
    induction ops with
    | nil => exact fun _ ht => ht
    | cons op ops ih => exact fun t _ => ih _ (mem_append_right _ (mem_singleton_self _))
  have hkeep : ∀ (ops : List Op) (t : Traced sampleBackend) (s : Authority sampleBackend), s ∈ t.past →
      s ∈ (ops.foldl step t).past := by
    intro ops
    induction ops with
    | nil => exact fun _ _ hs => hs
    | cons op ops ih =>
      exact fun t s hs => ih _ s (mem_append_left _ (mem_append_left _ hs))
  rw [sample, sample, foldl_append]
  exact hkeep more _ _ (hnow ops _ (mem_singleton_self _))

def referencedOps : List Op :=
  [.registerModel (sampleModel 0 0), .register "n" [[1], [2]] [sampleMeta 1, sampleMeta 2],
    .reportRefs [sampleRef 1 1 "n", sampleRef 2 1 "n"]]

def releaseOps : List Op :=
  [.reportRefs [sampleRef 1 (-1) "n", sampleRef 2 (-1) "n"]]

theorem referencedOps_referenced (hcap : cap = 1 ∨ cap = 2) :
    (sample cap referencedOps).now.Referenced (.fromId (sampleId 2)) 2 := by
  have hfacts : ((sample cap referencedOps).now.pool? sampleKey poolTarget).map (fun p =>
      (p.byFlat.lookup [2]).map fun e => (e.blockId, decide (0 < (p.refsOf e.seqHash).total))) =
        some (some (2, true)) := by
    rcases hcap with rfl | rfl <;> decide
  obtain ⟨p, hp, hblock⟩ := Option.map_eq_some_iff.mp hfacts
  obtain ⟨e, he, hids⟩ := Option.map_eq_some_iff.mp hblock
  rw [Prod.mk.injEq] at hids
  exact ⟨p, e, hp, he, hids.1, of_decide_eq_true hids.2⟩

/-- With room for both, the second block is in the inactive index after its release. -/
theorem released_blocks_inactive_two :
    ∃ p e, (sample 2 (referencedOps ++ releaseOps)).now.pool? sampleKey poolTarget = some p ∧
      p.byFlat.lookup [2] = some e ∧ (p.refsOf e.seqHash).total = 0 ∧
      (e.seqHash ∈ sampleBackend.nodes p.inactive ∨ p.inactiveCap ≤ sampleBackend.len p.inactive) := by
  have hfacts : ((sample 2 (referencedOps ++ releaseOps)).now.pool? sampleKey poolTarget).map (fun p =>
      (p.byFlat.lookup [2]).map fun e => (e.blockId, (p.refsOf e.seqHash).total)) = some (some (2, 0)) := by
    decide
  obtain ⟨p, hp, hblock⟩ := Option.map_eq_some_iff.mp hfacts
  obtain ⟨e, he, hids⟩ := Option.map_eq_some_iff.mp hblock
  rw [Prod.mk.injEq] at hids
  have hS : sampleBackend.InjectiveOn {[[1]], [[1], [2]]} := by
    rintro c (rfl | rfl) d (rfl | rfl) - h
    · rfl
    · exact absurd h (by decide)
    · exact absurd h (by decide)
    · rfl
  have hrun : ReachableBy (Authority.ReleasesWithRoom {[[1]], [[1], [2]]})
      (sample 2 (referencedOps ++ releaseOps)) := by
    have hnone : ∀ (a : Authority sampleBackend) (ds : List RefDelta),
        Authority.KeepsChainsIn {[[1]], [[1], [2]]} a (.reportRefs ds) :=
      fun a ds => keepsChainsIn_of_not_registers fun k c hc => by cases hc
    refine sample_reachableBy 2 _ ⟨⟨?_, rfl, by decide⟩, ⟨?_, rfl, by decide⟩, ⟨hnone _ _, rfl, by decide⟩,
      ⟨hnone _ _, rfl, by decide⟩, trivial⟩
    · exact keepsChainsIn_of_not_registers fun k c hc => by cases hc
    · exact keepsChainsIn_register (by decide) (by decide)
  have held : (sample 2 (referencedOps ++ releaseOps)).WasReferenced (.fromId (sampleId 2)) e.blockId :=
    ⟨_, sample_mem_past 2 referencedOps releaseOps, hids.1.symm ▸ referencedOps_referenced 2 (.inr rfl)⟩
  exact ⟨p, e, hp, he, hids.2, released_blocks_inactive sampleBackend_lawful hS (sampleBackend_slotsApart _) hrun
    hp he held hids.2⟩

/-- The index is full when the second block is released; the eviction that makes room does not bring
it in. -/
def skippedOps : List Op :=
  referencedOps ++ (releaseOps ++ [.evictN "m" "r" poolTarget 1])

theorem skipped_block_unreclaimable : sampleBackend.Lawful ∧ ReachableBy (fun _ _ => True) (sample 1 skippedOps) ∧
    ∃ p e, (sample 1 skippedOps).now.pool? sampleKey poolTarget = some p ∧ p.byFlat.lookup [2] = some e ∧
      (sample 1 skippedOps).WasReferenced (.fromId (sampleId 2)) e.blockId ∧
      (p.refsOf e.seqHash).total = 0 ∧ e.seqHash ∉ sampleBackend.nodes p.inactive ∧
      sampleBackend.len p.inactive < p.inactiveCap := by
  refine ⟨sampleBackend_lawful, sample_reachableBy 1 _ (Reach.allowed_true _ _), ?_⟩
  have hfacts : ((sample 1 skippedOps).now.pool? sampleKey poolTarget).map (fun p =>
      (p.byFlat.lookup [2]).map fun e => (e.blockId, (p.refsOf e.seqHash).total,
        decide (e.seqHash ∈ sampleBackend.nodes p.inactive),
        decide (sampleBackend.len p.inactive < p.inactiveCap))) = some (some (2, 0, false, true)) := by
    decide
  obtain ⟨p, hp, hblock⟩ := Option.map_eq_some_iff.mp hfacts
  obtain ⟨e, he, hids⟩ := Option.map_eq_some_iff.mp hblock
  simp only [Prod.mk.injEq, decide_eq_false_iff_not, decide_eq_true_eq] at hids
  obtain ⟨hid, hfree, hout, hlen⟩ := hids
  have held : (sample 1 skippedOps).WasReferenced (.fromId (sampleId 2)) e.blockId :=
    ⟨_, sample_mem_past 1 referencedOps _, hid.symm ▸ referencedOps_referenced 1 (.inl rfl)⟩
  exact ⟨p, e, hp, he, held, hfree, hout, hlen⟩

end Traced

end LakeKv
