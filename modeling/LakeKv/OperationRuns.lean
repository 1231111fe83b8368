import LakeKv.Actions

namespace LakeKv

open Finmap List NsAction Option PoolView

inductive Op.May {B : Backend} : Op → NamespaceKey → NsAction B → Prop
  | registerModel {desc key q} : May (.registerModel desc) key (.setQuota q)
  | create {desc key} : May (.registerModel desc) key (.create desc)
  | deregisterModel {m r} : May (.deregisterModel m r) ⟨m, r⟩ .remove
  | setModelQuota {m r quota key q} : May (.setModelQuota m r quota) key (.setQuota q)
  | evictForBatch {node chain metas key n} : May (.register node chain metas) key (.evictInactive n)
  | insert {node chain metas key pk} (h : checkBatch chain metas = .ok (key, pk)) :
      May (.register node chain metas) key
        (.registerAll pk (metas.filterMap (placeBlock B node pk chain)))
  | importModel {snap desc key act} (hmem : desc ∈ snap.models)
      (h : May (.registerModel desc) key act) : May (.importSnapshot snap) key act
  | importRow {snap cb row key act} (hmem : cb ∈ snap.blocks) (hrow : importRow cb = .ok (some row))
      (h : May (.register row.nodeId row.chain [row.blockMeta]) key act) :
      May (.importSnapshot snap) key act
  | preplace {m r raw chain pk home plan} :
      May (.preplaceOnRegister m r raw chain) ⟨m, r⟩ (.pool pk (.markPlaced home plan))
  | hit {node ids key pk flat} : May (.reportHits node ids) key (.pool pk (.recordHit flat node))
  | follow {node ids key pk plan} : May (.reportHits node ids) key (.pool pk (.markPlaced node plan))
  | warmup {node k key pk plan} : May (.warmupPlan node k) key (.pool pk (.markPlaced node plan))
  | touch {m r raw chain requester pk hits lineage} :
      May (.lookupPrefix m r raw chain requester) ⟨m, r⟩ (.pool pk (.touchHits hits lineage))
  | setRef {ds key pk flat e kind value} :
      May (.reportRefs ds) key (.pool pk (.setRef flat e kind value))
  | touchRefs {ds key pk flat e} : May (.reportRefs ds) key (.pool pk (.touchRefs flat e))
  | ledger {ds key} : May (.reportRefs ds) key .ledger
  | evictN {m r raw n pk} (h : resolvePoolKind raw = .ok pk) :
      May (.evictN m r raw n) ⟨m, r⟩ (.evictPool pk n)
  | discard {ids id pk e} (h : id ∈ ids) (hpk : resolvePoolKind id.poolKind = .ok pk) :
      May (.discardBlocks ids) (.fromId id) (.discard pk id e)
  | discardRows {ids key} : May (.discardBlocks ids) key .ledger
  | gcCold {m r raw n key pk} (h : resolvePoolKind raw = .ok pk) :
      May (.gcCold m r raw n) ⟨m, r⟩ (.gcCold key pk n)
  | clearRef {node key act} (ds : List RefDelta) (h : May (.reportRefs ds) key act) :
      May (.reconcileDeadNode node) key act
  | strip {node key pk flat} :
      May (.reconcileDeadNode node) key (.pool pk (.strip key pk node flat))
  | clearMarks {node key pk} : May (.reconcileDeadNode node) key (.pool pk (.clearMarks node))
  | orphansDead {now₁ now₂ req key act} (h : May (.reconcileDeadNode req.deadNodeId) key act) :
      May (.reconcileOrphans now₁ now₂ req) key act
  | orphansGc {now₁ now₂ req key act}
      (h : May (.gcCold req.gcModelId req.gcRevision req.gcPoolKind req.gcColdLimit) key act) :
      May (.reconcileOrphans now₁ now₂ req) key act
  | publish {m r raw flat tier node seg off present pk e} (h : resolvePoolKind raw = .ok pk) :
      May (.publishLocationAt m r raw flat tier node seg off present) ⟨m, r⟩
        (.pool pk (.publish flat e tier node seg off present))
  | setL3 {m r raw flat present pk e} (h : resolvePoolKind raw = .ok pk) :
      May (.setL3Present m r raw flat present) ⟨m, r⟩ (.pool pk (.setL3 flat e present))
  | relocate {m r raw flat tier node seg off pk e} (h : resolvePoolKind raw = .ok pk) :
      May (.relocateInView m r raw flat tier node seg off) ⟨m, r⟩
        (.pool pk (.relocate flat e tier node seg off))

/-- Whether a call replaces the state or empties the event queue. -/
def Op.replaces : Op → Bool
  | .importSnapshot _ => true
  | .commitViewEvents => true
  | _ => false

namespace Authority

variable {B : Backend} {may : NamespaceKey → NsAction B → Prop} {a b : Authority B}

@[simp] theorem emit_nil (a : Authority B) : a.emit [] = a := by
  simp [emit]

@[simp] theorem emit_emit (a : Authority B) (es fs : List ViewEvent) : (a.emit es).emit fs = a.emit (es ++ fs) := by
  simp [emit]

@[simp] theorem namespaces_emit (a : Authority B) (es : List ViewEvent) : (a.emit es).namespaces = a.namespaces := rfl

variable {pk : Int} {p : PoolView B} {ns : Namespace B}

theorem poolMut_of_lookup (h : ns.pools.lookup pk = some p) : ns.poolMut pk = p := by
  simp [Namespace.poolMut, h]

variable {key : NamespaceKey}

theorem pool?_eq_some : a.pool? key pk = some p ↔
      ∃ ns, a.namespaces.lookup key = some ns ∧ ns.pools.lookup pk = some p := by
  simp [pool?, bind_eq_some_iff]

variable {k : BlockKey} {q : PoolView B} {kind : RefKind} {e : Entry B} {raw : Int} {op : Op} (nodeId : String)

theorem block?_eq_some :
    a.block? k = some e ↔ ∃ p, a.pool? k.ns k.poolKind = some p ∧ p.byFlat.lookup k.flat = some e := by
  simp [block?, bind_eq_some_iff]

namespace Run

theorem pool
    (prior : Run may a b) (act : PoolAction B) (found : b.pool? key pk = some p) (allowed : may key (.pool pk act))
    (quiet : act.quiet = true) (guard : act.Guard p) :
    Run may a ((b.setPool key pk (act.apply p)).emit (act.events key pk p)) := by
  obtain ⟨ns, hns, hp⟩ := pool?_eq_some.mp found
  have hrun := prior.act (.pool pk act) hns allowed ⟨quiet, p, hp, guard⟩
  simpa [apply, events, poolMut_of_lookup hp, setPool, hns] using hrun

theorem silent
    (prior : Run may a b) (act : PoolAction B) (found : b.pool? key pk = some p) (allowed : may key (.pool pk act))
    (quiet : act.quiet = true) (guard : act.Guard p) (nothing : act.events key pk p = []) :
    Run may a (b.setPool key pk (act.apply p)) := by
  simpa [nothing] using prior.pool act found allowed quiet guard

end Run

theorem Run.foldl {α : Type} {f : Authority B → α → Authority B} (one : ∀ b x, Run may b (f b x)) (xs : List α)
    (a : Authority B) : Run may a (xs.foldl f a) := by
  induction xs generalizing a with
  | nil => exact .refl
  | cons x xs ih => exact (one a x).trans (ih _)

theorem registerModel_run (a : Authority B) (desc : ModelDescriptor)
    (h : ∀ key act, Op.May (.registerModel desc) key act → may key act) : Run may a (a.registerModel desc).1 := by
  fun_cases registerModel a desc
  case case4 named valid key ns found same =>
    have hrun := Run.refl.act (.setQuota desc.quota) found (h _ _ .registerModel) valid
    simpa [apply, events] using hrun
  case case5 named valid key fresh => exact Run.refl.add fresh (h _ _ .create) (by simpa using named) valid
  all_goals exact .refl

theorem deregisterModel_run (a : Authority B) (m r : String) (h : may ⟨m, r⟩ .remove) :
    Run may a (a.deregisterModel m r).1 := by
  fun_cases deregisterModel a m r
  case case3 named key ns found => exact Run.refl.remove found h
  all_goals exact .refl

theorem setModelQuota_run (a : Authority B) (m r : String) (quota : Quota)
    (hq : ∀ key q, may key (.setQuota q)) : Run may a (a.setModelQuota m r quota).1 := by
  fun_cases setModelQuota a m r quota
  case case4 named valid key ns found =>
    have hrun := Run.refl.act (.setQuota (some quota)) found (hq _ (some quota)) valid
    simpa [apply, events] using hrun
  all_goals exact .refl

section Admission

variable (hevict : ∀ key n, may key (.evictInactive n))
include hevict

theorem evictOwn_run (a : Authority B) (key : NamespaceKey) (n : Nat) : Run may a (a.evictOwn key n) := by
  unfold evictOwn
  split
  · exact .refl
  next ns hns => exact Run.refl.act (.evictInactive n) hns (hevict key n) trivial

theorem reclaimFrom_run (a : Authority B) (want : Int) (keys : List NamespaceKey) (freed : Int) :
    Run may a (a.reclaimFrom want keys freed) := by
  fun_induction reclaimFrom a want keys freed
  case case5 a key keys freed want ns found borrowed some blocks evicted ih =>
    exact (Run.refl.act (.evictInactive _) found (hevict key _) trivial).trans ih
  all_goals first | assumption | exact .refl

theorem commitAdmit_run (a : Authority B) (key : NamespaceKey) (n : Nat) (bytes : Int) :
    Run may a (a.commitAdmit key n bytes) := by
  unfold commitAdmit reclaimBorrowedBytes
  have hown : Run may a (if 0 < n then a.evictOwn key n else a) := by
    split
    · exact evictOwn_run hevict a key n
    · exact .refl
  dsimp only
  split
  · split
    · exact hown
    · exact hown.trans (reclaimFrom_run hevict _ _ _ _)
  · exact hown

theorem admitRegisterBytes_run (a : Authority B) (key : NamespaceKey) (n : Nat) :
    Run may a (a.admitRegisterBytes key n).1 := by
  unfold admitRegisterBytes
  split
  · exact .refl
  · exact .refl
  · exact commitAdmit_run hevict a key _ _

end Admission

theorem insertBatch_run (a : Authority B) (nodeId : String) (key : NamespaceKey) (pk : Int)
    (chain : List Flat) (metas : List BlockMeta)
    (h : may key (.registerAll pk (metas.filterMap (placeBlock B nodeId pk chain)))) :
    Run may a (a.insertBatch nodeId key pk chain metas).1 := by
  unfold insertBatch
  split
  · exact .refl
  next ns hns =>
    refine (Run.refl.act (.registerAll pk _) hns h trivial).frame ?_
    exact ⟨rfl, rfl, rfl, rfl, rfl⟩

def Evicts (_ : NamespaceKey) (act : NsAction B) : Prop :=
  ∃ n, act = .evictInactive n

theorem register_split (a : Authority B) (nodeId : String) (chain : List Flat) (metas : List BlockMeta) :
    Run Evicts a (a.register nodeId chain metas).1 ∨
      ∃ key pk b, checkBatch chain metas = .ok (key, pk) ∧ Run Evicts a b ∧
        (a.register nodeId chain metas).1 = (b.insertBatch nodeId key pk chain metas).1 := by
  unfold register
  split
  · exact .inl .refl
  split
  · exact .inl .refl
  next key pk hcheck =>
    split
    · exact .inl .refl
    next ns hns =>
      dsimp only
      have hadmitted : Run Evicts a _ := admitRegisterBytes_run (fun _ n => ⟨n, rfl⟩) a key
        (newFlats (ns.pools.lookup pk) ((batchIds metas).map KvBlockId.blockHash)).card
      split
      next heq => exact .inl (by rwa [heq] at hadmitted)
      next heq => exact .inl (by rwa [heq] at hadmitted)
      next a' heq =>
        rw [heq] at hadmitted
        split
        · exact .inr ⟨key, pk, a', hcheck, hadmitted, rfl⟩
        · exact .inl hadmitted

theorem register_run (a : Authority B) (nodeId : String) (chain : List Flat) (metas : List BlockMeta)
    (h : ∀ key act, Op.May (.register nodeId chain metas) key act → may key act) :
    Run may a (a.register nodeId chain metas).1 := by
  have hevict : ∀ key act, Evicts key act → may key act := by
    rintro key act ⟨n, rfl⟩
    exact h key _ .evictForBatch
  rcases register_split a nodeId chain metas with hrun | ⟨key, pk, b, hcheck, hrun, heq⟩
  · exact hrun.mono hevict
  · rw [heq]
    exact (hrun.mono hevict).trans (insertBatch_run b nodeId key pk chain metas (h _ _ (.insert hcheck)))

theorem refTarget_eq_ok {d : RefDelta} {t : RefTarget B} (h : a.refTarget d = .ok t) :
    ∃ id p e, d.id = some id ∧ t.key = .fromId id ∧ resolvePoolKind id.poolKind = .ok t.poolKind ∧
      a.pool? t.key t.poolKind = some p ∧ p.byFlat.lookup id.blockHash = some e ∧ e.seqHash = t.seq := by
  revert h
  fun_cases refTarget a d
  case case6 id hid pk hpk key ns hns p hp e he =>
    rintro ⟨⟩
    exact ⟨id, p, e, hid, rfl, hpk, pool?_eq_some.mpr ⟨ns, hns, hp⟩, he, rfl⟩
  all_goals nofun

theorem bucketAfter_eq_ok {r : RefAccounts} {delta after : Int}
    (h : bucketAfter r kind delta = .ok after) : after = r.bucket kind + delta ∧ 0 ≤ after := by
  revert h
  fun_cases bucketAfter r kind delta
  case case3 x hx hle =>
    rintro ⟨⟩
    exact ⟨Saturating.checkedAdd_eq_some hx, by omega⟩
  all_goals nofun

theorem resolveRefKind_eq_ok (h : resolveRefKind raw = .ok kind) : kind = .request ∨ kind = .writeback := by
  unfold resolveRefKind at h
  split at h
  · simp at h
  · exact .inl (Except.ok.inj h).symm
  · exact .inr (Except.ok.inj h).symm
  · simp at h

section Refs

variable {ds : List RefDelta} (h : ∀ key act, Op.May (.reportRefs ds) key act → may key act)
include h

theorem applyRef_run {d : RefDelta} {t : RefTarget B} {id : KvBlockId} {kind : RefKind} {track : Bool}
    (ht : a.refTarget d = .ok t) (hid : d.id = some id) (hk : kind = .request ∨ kind = .writeback) :
    Run may a (a.applyRef t id kind d track).1 := by
  obtain ⟨id', p, e, hid', -, -, hp, he, hseq⟩ := refTarget_eq_ok ht
  cases hid.symm.trans hid'
  simp only [applyRef, hp, he, ← hseq]
  split
  · exact Run.refl.silent (.touchRefs id.blockHash e) hp (h _ _ .touchRefs) rfl he rfl
  next after hafter =>
    have hset := Run.refl.silent (.setRef id.blockHash e kind after) hp (h _ _ .setRef) rfl
      ⟨he, (bucketAfter_eq_ok hafter).2, hk⟩ rfl
    split
    · exact hset.ledger (h t.key _ .ledger) _
    · exact hset

theorem reportRefRaw_run (a : Authority B) (d : RefDelta) (trackNode : Bool) :
    Run may a (a.reportRefRaw d trackNode).1 := by
  fun_cases reportRefRaw a d trackNode
  case case5 hid ht _ hkind _ _ _ | case6 hid ht _ hkind _ =>
    exact applyRef_run h ht hid (resolveRefKind_eq_ok hkind)
  all_goals exact .refl

theorem applyRefs_run (a : Authority B) (es : List RefDelta) : Run may a (a.applyRefs es).1 := by
  induction es generalizing a with
  | nil => exact .refl
  | cons d es ih =>
    have hone := reportRefRaw_run h a d true
    unfold applyRefs
    split
    next a' heq =>
      rw [reportRef] at heq
      rw [heq] at hone
      exact hone.trans (ih a')
    next a' _ heq =>
      rw [reportRef] at heq
      rwa [heq] at hone

theorem reportRefs_run (a : Authority B) (es : List RefDelta) : Run may a (a.reportRefs es).1 := by
  unfold reportRefs
  split
  · exact .refl
  · exact applyRefs_run h a es

theorem clearRef_run (a : Authority B) (k : BlockKey) (kind : RefKind) (fuel : Nat) (remaining : Int) :
    Run may a (a.clearRef k kind fuel remaining) := by
  induction fuel generalizing a remaining with
  | zero => exact .refl
  | succ fuel ih =>
    unfold clearRef
    split
    · exact .refl
    · exact (reportRefRaw_run h a _ false).trans (ih _ _)

theorem clearHeld_run (a : Authority B) (held : Map BlockKey RefAccounts) (ks : List BlockKey) :
    Run may a (a.clearHeld held ks) := by
  induction ks generalizing a with
  | nil => exact .refl
  | cons k ks ih =>
    unfold clearHeld
    dsimp only
    refine Run.trans ?_ (ih _)
    split
    · exact .refl
    · exact (clearRef_run h a k _ _ _).trans (clearRef_run h _ k _ _ _)

end Refs

theorem evictN_run (a : Authority B) (m r : String) (raw : Int) (n : Nat)
    (h : ∀ pk, resolvePoolKind raw = .ok pk → may ⟨m, r⟩ (.evictPool pk n)) : Run may a (a.evictN m r raw n).1 := by
  fun_cases evictN a m r raw n
  case case2 pk ns hns hpk p hp _ _ =>
    have hrun := Run.refl.act (.evictPool pk n) hns (h pk hpk) (mem_of_lookup_eq_some hp)
    simpa [apply, events, poolMut_of_lookup hp] using hrun
  all_goals exact .refl

theorem discardOne_run (a : Authority B) (id : KvBlockId)
    (h : ∀ pk e, resolvePoolKind id.poolKind = .ok pk → may (.fromId id) (.discard pk id e))
    (hl : ∀ key, may key .ledger) : Run may a (a.discardOne id).1 := by
  fun_cases discardOne a id
  case case4 => exact Run.refl.frame ⟨rfl, rfl, rfl, rfl, rfl⟩
  case case6 pk hpk key ns hns p hp e he hrefs _ =>
    have hguard : NsAction.Guard (.fromId id) ns (.discard pk id e) := ⟨p, hp, ⟨he, by omega⟩, hpk, rfl⟩
    have hrun := Run.refl.act (.discard pk id e) hns (h pk e hpk) hguard
    rw [apply, events, poolMut_of_lookup hp] at hrun
    exact (hrun.ledger (hl (.fromId id)) _).frame ⟨rfl, rfl, rfl, rfl, rfl⟩
  all_goals exact .refl

theorem discardBlocks_run (a : Authority B) (ids : List KvBlockId)
    (h : ∀ id ∈ ids, ∀ pk e, resolvePoolKind id.poolKind = .ok pk → may (.fromId id) (.discard pk id e))
    (hl : ∀ key, may key .ledger) : Run may a (a.discardBlocks ids).1 := by
  induction ids generalizing a with
  | nil => exact .refl
  | cons id ids ih =>
    have hone := discardOne_run a id (h id mem_cons_self) hl
    have hrest := fun a' => ih a' fun x hx => h x (mem_cons_of_mem _ hx)
    unfold discardBlocks
    split
    next heq => rwa [heq] at hone
    next a' _ heq =>
      rw [heq] at hone
      split
      next heq' => exact hone.trans (by simpa [heq'] using hrest a')
      next heq' => exact hone.trans (by simpa [heq'] using hrest a')

theorem gcCold_run (a : Authority B) (m r : String) (raw : Int) (n : Nat)
    (h : ∀ pk, resolvePoolKind raw = .ok pk → may ⟨m, r⟩ (.gcCold ⟨m, r⟩ pk n)) :
    Run may a (a.gcCold m r raw n).1 := by
  fun_cases gcCold a m r raw n
  case case5 limit pk hpk ns hns p hp _ _ _ =>
    have hguard : NsAction.Guard ⟨m, r⟩ ns (.gcCold ⟨m, r⟩ pk n : NsAction B) :=
      ⟨rfl, mem_of_lookup_eq_some hp⟩
    have hrun := Run.refl.act (.gcCold ⟨m, r⟩ pk n) hns (h pk hpk) hguard
    rw [apply, events, poolMut_of_lookup hp] at hrun
    exact hrun.frame ⟨rfl, rfl, rfl, rfl, rfl⟩
  all_goals exact .refl

theorem setNs_of_lookup (h : a.namespaces.lookup key = some ns) : a.setNs key ns = a := by
  rw [setNs, insert_of_lookup h]

theorem setPool_of_lookup (pk : Int) (p : PoolView B)
    (h : a.namespaces.lookup key = some ns) : a.setPool key pk p = a.setNs key (ns.setPool pk p) := by
  simp [setPool, h]

section

variable (h : a.pool? key pk = some p)
include h

theorem setPool_of_pool? : a.setPool key pk p = a := by
  obtain ⟨ns, hns, hp⟩ := pool?_eq_some.mp h
  have hself : ns.setPool pk p = ns := by rw [Namespace.setPool, insert_of_lookup hp]
  rw [setPool_of_lookup pk p hns, hself, setNs_of_lookup hns]

theorem pool?_setPool_if (key' : NamespaceKey) (pk' : Int) :
    (a.setPool key pk q).pool? key' pk' = if key' = key ∧ pk' = pk then some q else a.pool? key' pk' := by
  obtain ⟨ns, hns, -⟩ := pool?_eq_some.mp h
  rw [setPool_of_lookup pk q hns]
  simp only [pool?, setNs, Namespace.setPool, lookup_insert_if]
  by_cases hkey : key' = key
  · subst hkey
    by_cases hpk : pk' = pk <;> simp [hpk, hns, lookup_insert_if]
  · simp [hkey]

theorem pool?_setPool : (a.setPool key pk q).pool? key pk = some q := by
  rw [pool?_setPool_if h, if_pos ⟨rfl, rfl⟩]

theorem setPool_setPool {q r : PoolView B} : (a.setPool key pk q).setPool key pk r = a.setPool key pk r := by
  obtain ⟨ns, hns, -⟩ := pool?_eq_some.mp h
  simp [setPool, hns, setNs, Namespace.setPool, insert_insert]

end

theorem emit_setPool (a : Authority B) (es : List ViewEvent) (key : NamespaceKey) (pk : Int)
    (p : PoolView B) : (a.emit es).setPool key pk p = (a.setPool key pk p).emit es := by
  unfold setPool
  simp only [namespaces_emit]
  split <;> rfl

theorem stripNamespaces_emit (a : Authority B) (nodeId : String) (es : List ViewEvent) (keys : List NamespaceKey) :
    (a.emit es).stripNamespaces nodeId keys =
      ((a.stripNamespaces nodeId keys).1.emit es, (a.stripNamespaces nodeId keys).2) := by
  induction keys generalizing a with
  | nil => rfl
  | cons key keys ih =>
    simp only [stripNamespaces, namespaces_emit]
    split
    · exact ih a
    next ns hns =>
      have hswap : ∀ ns', (a.emit es).setNs key ns' = (a.setNs key ns').emit es := fun _ => rfl
      simp only [hswap, ih]

section Strip

variable {nodeId : String}
  (hstrip : ∀ key pk flat, may key (.pool pk (.strip key pk nodeId flat)))
  (hmarks : ∀ key pk, may key (.pool pk (.clearMarks nodeId)))
include hstrip

theorem stripFlats_run (fs : List Flat) (h : a.pool? key pk = some p) :
    Run may a ((a.setPool key pk (p.stripFlats key pk nodeId fs).1).emit (p.stripFlats key pk nodeId fs).2) := by
  induction fs generalizing a p with
  | nil =>
    simp only [stripFlats, emit_nil, setPool_of_pool? h]
    exact .refl
  | cons f fs ih =>
    have hone := Run.refl.pool (.strip key pk nodeId f) h (hstrip key pk f) rfl trivial
    simp only [PoolAction.apply, PoolAction.events] at hone
    have hrest := ih (a := (a.setPool key pk (stripFlat key pk nodeId p f).1).emit
      (stripFlat key pk nodeId p f).2) (pool?_setPool h)
    rw [emit_setPool, setPool_setPool h, emit_emit] at hrest
    exact hone.trans hrest

include hmarks

theorem stripNode_run (h : a.pool? key pk = some p) :
    Run may a ((a.setPool key pk (p.stripNode key pk nodeId).1).emit (p.stripNode key pk nodeId).2) := by
  have hflats := stripFlats_run hstrip (B.flatOrder p.byFlat.keys) h
  have hclear := hflats.silent (.clearMarks nodeId) (pool?_setPool h) (hmarks key pk) rfl trivial rfl
  rw [emit_setPool, setPool_setPool h] at hclear
  exact hclear

theorem stripPools_run (pks : List Int) (h : a.namespaces.lookup key = some ns) :
    Run may a ((a.setNs key (stripPools key nodeId ns pks).1).emit (stripPools key nodeId ns pks).2) := by
  induction pks generalizing a ns with
  | nil =>
    simp only [stripPools, emit_nil, setNs_of_lookup h]
    exact .refl
  | cons pk pks ih =>
    unfold stripPools
    split
    · exact ih h
    next p hp =>
      have hone := stripNode_run hstrip hmarks (pool?_eq_some.mpr ⟨ns, h, hp⟩)
      rw [setPool_of_lookup pk _ h] at hone
      have hrest := ih (a := (a.setNs key (ns.setPool pk (p.stripNode key pk nodeId).1)).emit
        (p.stripNode key pk nodeId).2) (lookup_insert _)
      refine hone.trans ?_
      simpa [setNs, emit, insert_insert] using hrest

theorem stripNamespaces_run (a : Authority B) (keys : List NamespaceKey) :
    Run may a ((a.stripNamespaces nodeId keys).1.emit (a.stripNamespaces nodeId keys).2) := by
  induction keys generalizing a with
  | nil =>
    rw [stripNamespaces, emit_nil]
    exact .refl
  | cons key keys ih =>
    unfold stripNamespaces
    split
    · exact ih a
    next ns hns =>
      have hone := stripPools_run hstrip hmarks (B.poolOrder ns.pools.keys) hns
      have hrest := ih ((a.setNs key (stripPools key nodeId ns (B.poolOrder ns.pools.keys)).1).emit
        (stripPools key nodeId ns (B.poolOrder ns.pools.keys)).2)
      rw [stripNamespaces_emit] at hrest
      refine hone.trans ?_
      simpa using hrest

end Strip

theorem reconcileDeadNode_run (a : Authority B) (nodeId : String)
    (h : ∀ key act, Op.May (.reconcileDeadNode nodeId) key act → may key act) :
    Run may a (a.reconcileDeadNode nodeId).1 := by
  unfold reconcileDeadNode
  split
  · exact .refl
  have hdrop : Run may a { a with nodeRefs := a.nodeRefs.erase nodeId } :=
    Run.refl.ledger (h ⟨"", ""⟩ _ (.clearRef [] .ledger)) _
  have hclear := hdrop.trans (clearHeld_run (fun _ _ hm => h _ _ (.clearRef [] hm)) _
    ((a.nodeRefs.lookup nodeId).getD ∅) (B.blockOrder ((a.nodeRefs.lookup nodeId).getD ∅).keys))
  exact hclear.trans (stripNamespaces_run (fun _ _ _ => h _ _ .strip) (fun _ _ => h _ _ .clearMarks) _ _)

theorem reportOrphans_run (a : Authority B) (nowMs : Nat) (reports : List OrphanReport) :
    Run may a (a.reportOrphans nowMs reports) := by
  refine Run.foldl (fun b r => Run.foldl (fun b id => ?_) r.ids b) reports a
  unfold reportOrphan
  dsimp only
  split <;> exact Run.refl.frame ⟨rfl, rfl, rfl, rfl, rfl⟩

theorem discardOne_of_not_blockInView (h : a.blockInView k = false) :
    SameView a (a.discardOne k.toId).1 ∧ (a.discardOne k.toId).2 ≠ .ok true := by
  fun_cases discardOne a k.toId
  case case5 pk hpk _ ns hns p hp e he _ | case6 pk hpk _ ns hns p hp e he _ _ =>
    have hpool : a.pool? k.ns pk = some p := pool?_eq_some.mpr ⟨ns, hns, hp⟩
    have hmem : k.flat ∈ p.byFlat := mem_of_lookup_eq_some he
    have hpk' : resolvePoolKind k.poolKind = .ok pk := hpk
    simp [blockInView, hpk', hpool, hmem] at h
  all_goals exact ⟨⟨rfl, rfl, rfl, rfl, rfl⟩, by simp⟩

theorem sweepOrphan_run (a : Authority B) (k : BlockKey) : Run may a (a.sweepOrphan k).1 := by
  unfold sweepOrphan
  split
  · exact Run.refl.frame ⟨rfl, rfl, rfl, rfl, rfl⟩
  next hview =>
    have hsame := discardOne_of_not_blockInView (by simpa using hview : a.blockInView k = false)
    split
    next heq => exact absurd (by rw [heq]) hsame.2
    next a' _ _ heq =>
      have hs : SameView a a' := by simpa [heq] using hsame.1
      exact Run.refl.frame ⟨hs.namespaces, hs.inactiveCap, hs.nodeRefs, hs.viewLog, hs.pending⟩

theorem sweepOrphans_run (a : Authority B) (nowMs ttlMs : Nat) : Run may a (a.sweepOrphans nowMs ttlMs).1 := by
  have hall : ∀ (ks : List BlockKey) (b : Authority B), Run may b (b.sweepExpired ks).1 := by
    intro ks
    induction ks with
    | nil => exact fun _ => .refl
    | cons k ks ih => exact fun b => (sweepOrphan_run b k).trans (ih _)
  exact hall _ a

theorem reconcileOrphans_run (a : Authority B) (now₁ now₂ : Nat) (req : ReconcileOrphansRequest)
    (h : ∀ key act, Op.May (.reconcileOrphans now₁ now₂ req) key act → may key act) :
    Run may a (a.reconcileOrphans now₁ now₂ req).1 := by
  have hswept : Run may a _ := (reportOrphans_run a now₁ req.reports).trans (sweepOrphans_run _ now₂ req.orphanTtlMs)
  have hdead := reconcileDeadNode_run ((a.reportOrphans now₁ req.reports).sweepOrphans now₂ req.orphanTtlMs).1
    req.deadNodeId fun key act hm => h key act (.orphansDead hm)
  unfold reconcileOrphans
  dsimp only
  split
  next a' _ heq =>
    split at heq
    · simp at heq
    · exact hswept.trans (by simpa [heq] using hdead)
  next a' _ _ heq =>
    have ha' : Run may a a' := by
      split at heq
      · cases heq
        exact hswept
      · exact hswept.trans (by simpa [heq] using hdead)
    have hgc := gcCold_run a' req.gcModelId req.gcRevision req.gcPoolKind req.gcColdLimit
      fun pk hpk => h _ _ (.orphansGc (.gcCold hpk))
    split
    · split
      next heq' => exact ha'.trans (by simpa [heq'] using hgc)
      next heq' => exact ha'.trans (by simpa [heq'] using hgc)
    · exact ha'

theorem findBlock_eq_ok {call m r : String} {flat : Flat} (h : a.findBlock call m r raw flat = .ok (pk, p, e)) :
    resolvePoolKind raw = .ok pk ∧ a.pool? ⟨m, r⟩ pk = some p ∧ p.byFlat.lookup flat = some e := by
  revert h
  fun_cases findBlock a call m r raw flat
  case case5 pk hpk key ns hns p hp e he =>
    rintro ⟨⟩
    exact ⟨hpk, pool?_eq_some.mpr ⟨ns, hns, hp⟩, he⟩
  all_goals nofun

theorem publishLocationAt_run (a : Authority B) (m r : String) (raw : Int) (flat : Flat) (tier : Tier)
    (node : String) (seg off : Nat) (present : Bool)
    (h : ∀ pk e, resolvePoolKind raw = .ok pk → a.block? ⟨m, r, pk, flat⟩ = some e →
      may ⟨m, r⟩ (.pool pk (.publish flat e tier node seg off present))) :
    Run may a (a.publishLocationAt m r raw flat tier node seg off present).1 := by
  unfold publishLocationAt
  split
  · exact .refl
  next pk p e hfind =>
    obtain ⟨hpk, hp, he⟩ := findBlock_eq_ok hfind
    split
    next hh =>
      have hmay := h pk e hpk (block?_eq_some.mpr ⟨p, hp, he⟩)
      exact Run.refl.pool (.publish flat e tier node seg off present) hp hmay rfl ⟨he, hh⟩
    · exact .refl

theorem setL3Present_run (a : Authority B) (m r : String) (raw : Int) (flat : Flat) (present : Bool)
    (h : ∀ pk e, resolvePoolKind raw = .ok pk → a.block? ⟨m, r, pk, flat⟩ = some e →
      may ⟨m, r⟩ (.pool pk (.setL3 flat e present))) : Run may a (a.setL3Present m r raw flat present).1 := by
  unfold setL3Present
  split
  · exact .refl
  next pk p e hfind =>
    obtain ⟨hpk, hp, he⟩ := findBlock_eq_ok hfind
    exact Run.refl.pool (.setL3 flat e present) hp (h pk e hpk (block?_eq_some.mpr ⟨p, hp, he⟩)) rfl he

theorem relocateInView_run (a : Authority B) (m r : String) (raw : Int) (flat : Flat) (tier : Tier)
    (node : String) (seg off : Nat) (h : ∀ pk e, resolvePoolKind raw = .ok pk → a.block? ⟨m, r, pk, flat⟩ = some e →
      may ⟨m, r⟩ (.pool pk (.relocate flat e tier node seg off))) :
    Run may a (a.relocateInView m r raw flat tier node seg off).1 := by
  unfold relocateInView
  split
  · exact .refl
  next pk p e hfind =>
    obtain ⟨hpk, hp, he⟩ := findBlock_eq_ok hfind
    have hmay := h pk e hpk (block?_eq_some.mpr ⟨p, hp, he⟩)
    exact Run.refl.pool (.relocate flat e tier node seg off) hp hmay rfl he

theorem lookupTouch_run (a : Authority B) (m r : String) (raw : Int) (chain : List Flat) (requester : String)
    (h : ∀ pk hits lineage, may ⟨m, r⟩ (.pool pk (.touchHits hits lineage))) :
    Run may a (a.lookupTouch m r raw chain requester) := by
  unfold lookupTouch
  split
  · exact .refl
  next pk _ =>
    split
    · exact .refl
    next p hp => exact Run.refl.silent (.touchHits _ _) hp (h _ _ _) rfl trivial rfl

theorem placementPlan_guard (key : NamespaceKey) (pk : Int) (p : PoolView B) (home : String)
    (chain : List Flat) : (PoolAction.markPlaced home (p.placementPlan key pk home chain)).Guard p := by
  intro id hid
  obtain ⟨flat, -, hplan⟩ := mem_filterMap.mp hid
  split at hplan
  · simp at hplan
  next e he =>
    split at hplan
    · simp at hplan
    split at hplan
    · simp at hplan
    cases hplan
    refine ⟨flat, e, he, ?_⟩
    cases hstored : e.blockMeta.id with
    | none => exact .inr rfl
    | some id => exact .inl rfl

theorem preplaceOnRegister_run (a : Authority B) (m r : String) (raw : Int) (chain : List Flat)
    (h : ∀ pk home plan, may ⟨m, r⟩ (.pool pk (.markPlaced home plan))) :
    Run may a (a.preplaceOnRegister m r raw chain).1 := by
  fun_cases preplaceOnRegister a m r raw chain
  case case6 pk _ _ p hp _ _ =>
    exact Run.refl.silent (.markPlaced _ _) hp (h _ _ _) rfl (placementPlan_guard _ pk p _ chain) rfl
  all_goals exact .refl

theorem reportHit_run (h : ∀ key pk flat, may key (.pool pk (.recordHit flat nodeId)))
    (a : Authority B) (id : KvBlockId) : Run may a (reportHit nodeId a id) := by
  fun_cases reportHit nodeId a id
  case case3 p hp hmem => exact Run.refl.silent (.recordHit _ _) hp (h _ _ _) rfl hmem rfl
  all_goals exact .refl

theorem block?_addMark (a : Authority B) (k k' : BlockKey) :
    (addMark nodeId a k).block? k' = a.block? k' := by
  unfold addMark
  split
  · rfl
  next p hp =>
    simp only [block?, pool?_setPool_if hp]
    split
    next heq =>
      rw [heq.1, heq.2, hp]
      rfl
    · rfl

theorem addMark_run {nodeId : String} (h : ∀ key pk plan, may key (.pool pk (.markPlaced nodeId plan)))
    (hk : (a.block? k).isSome) : Run may a (addMark nodeId a k) := by
  unfold addMark
  split
  · exact .refl
  next p hp =>
    obtain ⟨e, he⟩ := isSome_iff_exists.mp hk
    obtain ⟨p', hp', he⟩ := block?_eq_some.mp he
    cases hp.symm.trans hp'
    refine Run.refl.silent (.markPlaced nodeId [k.toId]) hp (h _ _ _) rfl (fun id hid => ?_) rfl
    cases List.mem_singleton.mp hid
    exact ⟨k.flat, e, he, .inr rfl⟩

theorem followBlock_marks (a : Authority B) (nodeId : String) {f : FollowPass} (k : BlockKey)
    (h : ∀ k' ∈ f.marks, (a.block? k').isSome) : ∀ k' ∈ (a.followBlock nodeId f k).marks, (a.block? k').isSome := by
  unfold followBlock
  split
  · exact h
  next p hp =>
    split
    · exact h
    next entry _ =>
      have hchain : ∀ (chain : List Flat) (f : FollowPass), (∀ k' ∈ f.marks, (a.block? k').isSome) →
          ∀ k' ∈ (chain.foldl (FollowPass.ancestor nodeId p k) f).marks, (a.block? k').isSome := by
        intro chain
        induction chain with
        | nil => exact fun _ hf => hf
        | cons anc chain ih =>
          intro f hf
          refine ih _ ?_
          unfold FollowPass.ancestor
          split
          · exact hf
          next e he =>
            split
            · exact hf
            intro k' hk'
            rcases mem_append.mp hk' with hk' | hk'
            · exact hf k' hk'
            · cases List.mem_singleton.mp hk'
              exact isSome_iff_exists.mpr ⟨e, block?_eq_some.mpr ⟨p, hp, he⟩⟩
      exact hchain entry.prefixChain f h

theorem reportHits_run (a : Authority B) (nodeId : String) (ids : List KvBlockId)
    (hit : ∀ key pk flat, may key (.pool pk (.recordHit flat nodeId)))
    (mark : ∀ key pk plan, may key (.pool pk (.markPlaced nodeId plan))) : Run may a (a.reportHits nodeId ids).1 := by
  have hmarks : ∀ (ks : List BlockKey) (a : Authority B), (∀ k ∈ ks, (a.block? k).isSome) →
      Run may a (ks.foldl (addMark nodeId) a) := by
    intro ks
    induction ks with
    | nil => exact fun _ _ => .refl
    | cons k ks ih =>
      intro a hks
      refine (addMark_run mark (hks k mem_cons_self)).trans (ih _ fun k' hk' => ?_)
      rw [block?_addMark]
      exact hks k' (mem_cons_of_mem _ hk')
  have hpass : ∀ (a : Authority B) (cand : List (Nat × BlockKey)) (f : FollowPass),
      (∀ k ∈ f.marks, (a.block? k).isSome) →
      ∀ k ∈ (cand.foldl (fun f c => a.followBlock nodeId f c.2) f).marks, (a.block? k).isSome := by
    intro a cand
    induction cand with
    | nil => exact fun _ hf => hf
    | cons c cand ih => exact fun f hf => ih _ (followBlock_marks a nodeId c.2 hf)
  refine (Run.foldl (reportHit_run nodeId hit) ids a).trans ?_
  unfold reportHits followTrafficPlans
  split
  · exact .refl
  · exact hmarks _ _ (hpass _ _ _ (by simp))

theorem markWarm_run (plan : List KvBlockId) (key : NamespaceKey)
    (h : ∀ key pk plan, may key (.pool pk (.markPlaced nodeId plan))) (a : Authority B) (pk : Int) :
    Run may a (markWarm nodeId plan key a pk) := by
  unfold markWarm
  split
  · exact .refl
  next p hp =>
    refine Run.refl.silent (.markPlaced _ _) hp (h _ _ _) rfl (fun id hid => ?_) rfl
    have hmem : id.blockHash ∈ p.byFlat := by simpa using (mem_filter.mp hid).2
    obtain ⟨e, he⟩ := mem_iff.mp hmem
    exact ⟨id.blockHash, e, he, .inr rfl⟩

variable (a)

theorem warmupPlan_run (nodeId : String) (k : Nat)
    (h : ∀ key pk plan, may key (.pool pk (.markPlaced nodeId plan))) : Run may a (a.warmupPlan nodeId k).1 := by
  refine Run.foldl (fun b key => ?_) _ a
  cases hns : b.namespaces.lookup key with
  | none => exact .refl
  | some ns => exact Run.foldl (markWarm_run nodeId _ key h) _ b

theorem importModels_run (ms : List ModelDescriptor)
    (h : ∀ m ∈ ms, ∀ key act, Op.May (.registerModel m) key act → may key act) : Run may a (a.importModels ms).1 := by
  induction ms generalizing a with
  | nil => exact .refl
  | cons m ms ih =>
    have hone := registerModel_run a m (h m mem_cons_self)
    unfold importModels
    split
    next heq => rwa [heq] at hone
    next a' heq =>
      rw [heq] at hone
      exact hone.trans (ih a' fun m' hm' => h m' (mem_cons_of_mem _ hm'))

theorem importBlock_run (cb : CheckpointBlock) (h : ∀ row, importRow cb = .ok (some row) → ∀ key act,
      Op.May (.register row.nodeId row.chain [row.blockMeta]) key act → may key act) :
    Run may a (a.importBlock cb).1 := by
  unfold importBlock
  split
  · exact .refl
  · exact .refl
  next row hrow =>
    have hone := register_run a row.nodeId row.chain [row.blockMeta] (h row hrow)
    split
    next heq => rwa [heq] at hone
    next heq => rwa [heq] at hone
    next heq => rwa [heq] at hone

theorem importBlocks_run (rows : List CheckpointBlock)
    (h : ∀ cb ∈ rows, ∀ row, importRow cb = .ok (some row) → ∀ key act,
      Op.May (.register row.nodeId row.chain [row.blockMeta]) key act → may key act) :
    Run may a (a.importBlocks rows).1 := by
  induction rows generalizing a with
  | nil => exact .refl
  | cons cb rows ih =>
    have hone := importBlock_run a cb (h cb mem_cons_self)
    unfold importBlocks
    split
    next heq => rwa [heq] at hone
    next a' heq =>
      rw [heq] at hone
      exact hone.trans (ih a' fun c hc => h c (mem_cons_of_mem _ hc))

theorem importSnapshot_run (snap : CheckpointSnapshot) :
    Run (Op.May (.importSnapshot snap)) (a.cleared snap.seq) (a.importSnapshot snap).1 := by
  have hmodels : Run (Op.May (.importSnapshot snap)) _ _ := importModels_run (a.cleared snap.seq) snap.models
    fun _ hm _ _ h => .importModel hm h
  unfold importSnapshot
  split
  next heq => rwa [heq] at hmodels
  next a' heq =>
    rw [heq] at hmodels
    refine hmodels.trans (importBlocks_run a' _ fun cb hcb row hrow key act hm => ?_)
    exact .importRow ((mem_insertionSort _).mp hcb) hrow hm

/-- What a call does, said once: actions it may take, on namespaces it may take them on. -/
theorem step_run (h : op.replaces = false) : Run (Op.May op) a (a.step op) := by
  cases op with
  | registerModel desc => exact registerModel_run a desc fun _ _ hm => hm
  | deregisterModel m r => exact deregisterModel_run a m r .deregisterModel
  | setModelQuota m r q => exact setModelQuota_run a m r q fun _ _ => .setModelQuota
  | setPoolCapacityBytes bytes => exact Run.refl.frame ⟨rfl, rfl, rfl, rfl, rfl⟩
  | register node chain metas => exact register_run a node chain metas fun _ _ hm => hm
  | preplaceOnRegister m r raw chain =>
    exact preplaceOnRegister_run a m r raw chain fun _ _ _ => .preplace
  | reportHits node ids => exact reportHits_run a node ids (fun _ _ _ => .hit) fun _ _ _ => .follow
  | warmupPlan node k => exact warmupPlan_run a node k fun _ _ _ => .warmup
  | lookupPrefix m r raw chain requester =>
    exact lookupTouch_run a m r raw chain requester fun _ _ _ => .touch
  | reportRefs ds => exact reportRefs_run (fun _ _ hm => hm) a ds
  | evictN m r raw n => exact evictN_run a m r raw n fun _ hpk => .evictN hpk
  | discardBlocks ids => exact discardBlocks_run a ids (fun _ hid _ _ hpk => .discard hid hpk) fun _ => .discardRows
  | gcCold m r raw n => exact gcCold_run a m r raw n fun _ hpk => .gcCold hpk
  | reconcileDeadNode node => exact reconcileDeadNode_run a node fun _ _ hm => hm
  | reportOrphans now reports => exact reportOrphans_run a now reports
  | sweepOrphans now ttl => exact sweepOrphans_run a now ttl
  | reconcileOrphans now₁ now₂ req => exact reconcileOrphans_run a now₁ now₂ req fun _ _ hm => hm
  | publishLocationAt m r raw flat tier node seg off present =>
    exact publishLocationAt_run a m r raw flat tier node seg off present fun _ _ hpk _ => .publish hpk
  | setL3Present m r raw flat present =>
    exact setL3Present_run a m r raw flat present fun _ _ hpk _ => .setL3 hpk
  | relocateInView m r raw flat tier node seg off =>
    exact relocateInView_run a m r raw flat tier node seg off fun _ _ hpk _ => .relocate hpk
  | completeBarrier req node =>
    simp only [step, completeBarrier]
    split
    · exact .refl
    split
    · exact .refl
    · exact Run.refl.frame ⟨rfl, rfl, rfl, rfl, rfl⟩
  | setShard | saveCheckpoint => exact Run.refl.frame ⟨rfl, rfl, rfl, rfl, rfl⟩
  | importSnapshot | commitViewEvents => simp [Op.replaces] at h

/-- A call that changes one block acts on the block as it was before the call. -/
def FoundIn (a : Authority B) (key : NamespaceKey) : NsAction B → Prop
  | .pool pk (.publish flat e _ _ _ _ _) => a.block? ⟨key.modelId, key.revision, pk, flat⟩ = some e
  | .pool pk (.setL3 flat e _) => a.block? ⟨key.modelId, key.revision, pk, flat⟩ = some e
  | .pool pk (.relocate flat e _ _ _ _) => a.block? ⟨key.modelId, key.revision, pk, flat⟩ = some e
  | _ => True

theorem step_run_found (h : op.replaces = false) :
    Run (fun key act => op.May key act ∧ a.FoundIn key act) a (a.step op) := by
  have hrun := step_run a h
  cases op with
  | publishLocationAt m r raw flat tier node seg off present =>
    exact publishLocationAt_run a m r raw flat tier node seg off present fun _ _ hpk he => ⟨.publish hpk, he⟩
  | setL3Present m r raw flat present =>
    exact setL3Present_run a m r raw flat present fun _ _ hpk he => ⟨.setL3 hpk, he⟩
  | relocateInView m r raw flat tier node seg off =>
    exact relocateInView_run a m r raw flat tier node seg off fun _ _ hpk he => ⟨.relocate hpk, he⟩
  | _ =>
    -- No other call takes these actions.
    refine hrun.mono fun key act hmay => ⟨hmay, ?_⟩
    unfold FoundIn
    split <;> trivial

end Authority

end LakeKv
