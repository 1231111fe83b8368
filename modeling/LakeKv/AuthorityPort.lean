import LakeKv.CommitOutcomes
import LakeKv.KeyedBlocks

namespace LakeKv

open Finmap Namespace Option PoolView

/-- What the caller of a failed call reads; a panic ends the call as an error does. -/
def Fault.text : Fault → String
  | .err text => text
  | .panicked text => text

inductive PortCall
  | admission
  | registration
  | refs
  | barrier
  | location
  | l3Flag
  deriving DecidableEq, Repr

/-- What becomes of a call: it is answered, it fails before it has any effect, or its answer is lost. -/
inductive Reply
  | answered
  | refused
  | lost
  deriving DecidableEq, Repr

namespace Authority

variable {B : Backend} {a b : Authority B} {key : NamespaceKey} {ns : Namespace B} {k : BlockKey} {m : BlockMeta}

def preflightRegister (a : Authority B) (modelId revision : String) (poolKind : Int) (hashes : List Flat) :
    Except Fault RegisterStatus :=
  match resolvePoolKind poolKind with
  | .error e => .error (.err e)
  | .ok pk =>
    match a.namespaces.lookup ⟨modelId, revision⟩ with
    | none =>
      .error (.err ("preflight: model not registered (" ++ modelId ++ ", rev=" ++ revision.quote ++ ")"))
    | some ns => (a.planAdmit ⟨modelId, revision⟩ (newFlats (ns.pools.lookup pk) hashes).card).map AdmitPlan.status

def statusAnswer (call : String) : Except Fault RegisterStatus → Except String Unit
  | .error e => .error e.text
  | .ok .accepted => .ok ()
  | .ok (.rejectedHardQuota bp) =>
    .error (call ++ ": admission rejected reason=" ++ bp.reason ++ s!" deficit={bp.deficitBytes}")

/-- `admit_register_blocks`, with the keys `admit_keys_from_request` reads: those of the first identity. -/
def admitRegisterBlocks (req : RegisterBlocksRequest) (a : Authority B) : Authority B × Except String Unit :=
  match batchIds req.blocks with
  | [] => (a, .error "AdmitRegister: no KVBlockID")
  | id :: ids =>
    (a, statusAnswer "AdmitRegister"
      (a.preflightRegister id.modelId id.revision id.poolKind ((id :: ids).map KvBlockId.blockHash)))

theorem admitRegisterBlocks_state (req : RegisterBlocksRequest) (a : Authority B) :
    (admitRegisterBlocks req a).1 = a := by
  unfold admitRegisterBlocks
  split <;> rfl

def registerBlocks (req : RegisterBlocksRequest) (a : Authority B) : Authority B × Except String Unit :=
  let r := a.register req.nodeId req.prefixHashes req.blocks
  (r.1, statusAnswer "RegisterBlocks" r.2)

theorem statusAnswer_eq_ok {call : String} {answer : Except Fault RegisterStatus} :
    statusAnswer call answer = .ok () ↔ answer = .ok .accepted := by
  constructor
  · intro ok
    cases answer with
    | error e => cases ok
    | ok status =>
      cases status with
      | accepted => rfl
      | rejectedHardQuota bp => cases ok
  · rintro rfl
    rfl

theorem preflightRegister_accepts {hashes : List Flat}
    (ok : a.preflightRegister key.modelId key.revision poolTarget hashes = .ok .accepted) :
    ∃ ns evict reclaim, a.namespaces.lookup key = some ns ∧
      a.planAdmit key (newFlats (ns.pools.lookup poolTarget) hashes).card = .ok (.accept evict reclaim) := by
  have kind : resolvePoolKind poolTarget = .ok poolTarget := rfl
  unfold preflightRegister at ok
  rw [kind] at ok
  cases found : a.namespaces.lookup key with
  | none => simp [found] at ok
  | some ns =>
    simp only [found] at ok
    cases plan : a.planAdmit key (newFlats (ns.pools.lookup poolTarget) hashes).card with
    | error e =>
      rw [plan] at ok
      cases ok
    | ok admission =>
      rw [plan] at ok
      cases admission with
      | accept evict reclaim => exact ⟨ns, evict, reclaim, rfl, plan⟩
      | reject bp => cases ok

def plainAnswer (r : Authority B × Except Fault Unit) : Authority B × Except String Unit :=
  (r.1, r.2.mapError Fault.text)

def carried (replies : PortCall → Nat → Reply) (call : PortCall)
    (f : Authority B → Authority B × Except String Unit) (st : Authority B × Nat) :
    (Authority B × Nat) × Except String Unit :=
  match replies call st.2 with
  | .answered => (((f st.1).1, st.2 + 1), (f st.1).2)
  | .refused => ((st.1, st.2 + 1), .error "unavailable")
  | .lost => (((f st.1).1, st.2 + 1), .error "unavailable")

def asPort (replies : PortCall → Nat → Reply) : ControlPlanePort (Authority B × Nat) where
  admitRegisterBlocks req := carried replies .admission (admitRegisterBlocks req)
  registerBlocks req := carried replies .registration (registerBlocks req)
  reportRefs ds := carried replies .refs fun a => plainAnswer (a.reportRefs ds)
  requestBarrier req := carried replies .barrier fun a => plainAnswer (a.completeBarrier req.requestId req.nodeId)
  publishLocation modelId revision poolKind flat tier nodeId present := carried replies .location
    fun a => plainAnswer (a.publishLocation modelId revision poolKind flat tier nodeId present)
  setL3Present modelId revision poolKind flat present := carried replies .l3Flag
    fun a => plainAnswer (a.setL3Present modelId revision poolKind flat present)

variable {f : Authority B → Authority B × Except String Unit} {replies : PortCall → Nat → Reply} {call : PortCall}

theorem carried_ok {st st' : Authority B × Nat}
    (ok : carried replies call f st = (st', .ok ())) : f st.1 = (st'.1, .ok ()) := by
  unfold carried at ok
  cases reply : replies call st.2 with
  | answered =>
    rw [reply] at ok
    have state := congrArg (fun r => r.1.1) ok
    have answer := congrArg Prod.snd ok
    exact Prod.ext state answer
  | refused | lost =>
    rw [reply] at ok
    cases ok

theorem carried_answered {n : Nat}
    (reply : replies call n = .answered) (f : Authority B → Authority B × Except String Unit) (a : Authority B) :
    carried replies call f (a, n) = (((f a).1, n + 1), (f a).2) := by
  unfold carried
  dsimp only
  rw [reply]

theorem carried_state {P : Authority B → Prop} (replies : PortCall → Nat → Reply) (call : PortCall)
    {st : Authority B × Nat} (idle : P st.1) (done : P (f st.1).1) : P (carried replies call f st).1.1 := by
  unfold carried
  cases replies call st.2 with
  | answered => exact done
  | refused => exact idle
  | lost => exact done

def filed (a : Authority B) (k : BlockKey) : Option BlockMeta := do
  let p ← a.pool? k.ns k.poolKind
  let e ← p.byFlat.lookup k.flat
  if e.seqHash ∈ p.handles then some e.blockMeta else none

theorem filed_eq_some : a.filed k = some m ↔ ∃ p e, a.pool? k.ns k.poolKind = some p ∧
    p.byFlat.lookup k.flat = some e ∧ e.seqHash ∈ p.handles ∧ e.blockMeta = m := by
  simp [filed, bind_eq_some_iff]

/-- Whatever is filed in `a` is filed in `b` as it was, but for the keys of `s`. -/
def Refiles (a b : Authority B) (s : Set BlockKey) : Prop :=
  ∀ k m, k ∉ s → a.filed k = some m → b.filed k = some m

namespace Refiles

variable {c : Authority B} {s t : Set BlockKey}

theorem refl (a : Authority B) (s : Set BlockKey) : Refiles a a s :=
  fun _ _ _ => id

theorem trans (first : Refiles a b s) (second : Refiles b c s) : Refiles a c s := by
  intro k m out on
  exact second k m out (first k m out on)

theorem mono (refiles : Refiles a b s) (sub : s ⊆ t) : Refiles a b t := by
  intro k m out on
  exact refiles k m (fun mem => out (sub mem)) on

theorem of_namespaces (same : b.namespaces = a.namespaces) : Refiles a b s := by
  intro k m _ on
  unfold filed at on ⊢
  rw [pool?_congr same]
  exact on

theorem setPool {pk : Int} {p q : PoolView B} (found : a.pool? key pk = some p)
    (entries : ∀ flat, (⟨key.modelId, key.revision, pk, flat⟩ : BlockKey) ∉ s →
      q.byFlat.lookup flat = p.byFlat.lookup flat)
    (handles : ∀ seq, seq ∈ p.handles → seq ∈ q.handles) : Refiles a (a.setPool key pk q) s := by
  intro k m out on
  obtain ⟨p', e, here, entry, handle, rfl⟩ := filed_eq_some.mp on
  by_cases same : k.ns = key ∧ k.poolKind = pk
  · obtain ⟨rfl, rfl⟩ := same
    cases here.symm.trans found
    exact filed_eq_some.mpr ⟨q, e, pool?_setPool found, (entries k.flat out).trans entry, handles _ handle, rfl⟩
  · refine filed_eq_some.mpr ⟨p', e, ?_, entry, handle, rfl⟩
    rw [pool?_setPool_if found, if_neg same]
    exact here

end Refiles

section References

variable {s : Set BlockKey}

variable (a)

theorem applyRef_refiles (t : RefTarget B) (id : KvBlockId) (kind : RefKind) (d : RefDelta)
    (track : Bool) : Refiles a (a.applyRef t id kind d track).1 s := by
  unfold applyRef
  split
  · exact .refl a s
  next p found =>
    split
    · exact .refl a s
    next e entry =>
      split
      · exact .setPool found (fun _ _ => rfl) fun _ handle => handle
      next after _ =>
        have set : Refiles a (a.setPool t.key t.poolKind (p.setRef t.seq e.blockId kind after)) s := by
          rw [setRef_eq]
          exact .setPool found (fun _ _ => rfl) fun _ handle => handle
        split
        · exact set.trans (.of_namespaces rfl)
        · exact set

theorem reportRefRaw_refiles (d : RefDelta) (trackNode : Bool) :
    Refiles a (a.reportRefRaw d trackNode).1 s := by
  unfold reportRefRaw
  split
  · exact .refl a s
  · exact .refl a s
  next t id _ _ =>
    split
    · exact .refl a s
    next kind _ =>
      split
      · split
        · exact .refl a s
        · exact applyRef_refiles a t id kind d true
      · exact applyRef_refiles a t id kind d false

theorem applyRefs_refiles (ds : List RefDelta) : Refiles a (a.applyRefs ds).1 s := by
  induction ds generalizing a with
  | nil => exact .refl a s
  | cons d ds ih =>
    have one : Refiles a (a.reportRef d).1 s := reportRefRaw_refiles a d true
    unfold applyRefs
    rcases answer : a.reportRef d with ⟨a', result⟩
    rw [answer] at one
    cases result with
    | ok u => exact one.trans (ih a')
    | error e => exact one

theorem reportRefs_refiles (ds : List RefDelta) : Refiles a (a.reportRefs ds).1 s := by
  unfold reportRefs
  split
  · exact .refl a s
  · exact applyRefs_refiles a ds

theorem completeBarrier_refiles (requestId nodeId : String) :
    Refiles a (a.completeBarrier requestId nodeId).1 s := by
  unfold completeBarrier
  split
  · exact .refl a s
  split
  · exact .refl a s
  · exact .of_namespaces rfl

end References

def Namespace.digest (ns : Namespace B) : ModelDescriptor × Int × Nat :=
  (ns.descriptor, ns.usedBytes, ns.inactiveLen)

structure SameBooks (a b : Authority B) : Prop where
  capacity : b.poolCapacityBytes = a.poolCapacityBytes
  keys : b.namespaces.keys = a.namespaces.keys
  digest : ∀ key, (b.namespaces.lookup key).map Namespace.digest = (a.namespaces.lookup key).map Namespace.digest
  known : ∀ key pk hashes, newFlats (b.pool? key pk) hashes = newFlats (a.pool? key pk) hashes

namespace SameBooks

variable {c : Authority B}

theorem refl (a : Authority B) : SameBooks a a :=
  ⟨rfl, rfl, fun _ => rfl, fun _ _ _ => rfl⟩

theorem trans (first : SameBooks a b) (second : SameBooks b c) : SameBooks a c where
  capacity := second.capacity.trans first.capacity
  keys := second.keys.trans first.keys
  digest key := (second.digest key).trans (first.digest key)
  known key pk hashes := (second.known key pk hashes).trans (first.known key pk hashes)

section

variable (same : SameBooks a b)
include same

theorem totalUsedBytes : b.totalUsedBytes = a.totalUsedBytes := by
  have used : ∀ key, (b.namespaces.lookup key).map usedBytes = (a.namespaces.lookup key).map usedBytes := by
    intro key
    have digest := congrArg (Option.map fun d => d.2.1) (same.digest key)
    rw [map_map, map_map] at digest
    exact digest
  unfold Authority.totalUsedBytes Finmap.total
  rw [same.keys]
  refine Finset.sum_congr rfl ?_
  intro key _
  rw [used key]

theorem lookup (found : a.namespaces.lookup key = some ns) :
    ∃ ns', b.namespaces.lookup key = some ns' ∧ ns'.descriptor = ns.descriptor ∧ ns'.usedBytes = ns.usedBytes ∧
      ns'.inactiveLen = ns.inactiveLen := by
  have digest := same.digest key
  rw [found] at digest
  obtain ⟨ns', found', eq⟩ := map_eq_some_iff.mp digest
  obtain ⟨descriptor, rest⟩ := Prod.ext_iff.mp eq
  obtain ⟨used, inactive⟩ := Prod.ext_iff.mp rest
  exact ⟨ns', found', descriptor, used, inactive⟩

theorem lookup_none (absent : a.namespaces.lookup key = none) : b.namespaces.lookup key = none := by
  have digest := same.digest key
  rw [absent] at digest
  exact map_eq_none_iff.mp digest

theorem reclaimable (except : NamespaceKey) : b.reclaimableBorrowedBytes except = a.reclaimableBorrowedBytes except := by
  unfold reclaimableBorrowedBytes
  rw [same.keys]
  congr 1
  funext total key
  split
  · rfl
  cases found : a.namespaces.lookup key with
  | none => rw [same.lookup_none found]
  | some ns =>
    obtain ⟨ns', found', descriptor, used, inactive⟩ := same.lookup found
    simp only [found', quota, inactiveBytes, bytesPerBlock, descriptor, used, inactive]
    rfl

theorem planAdmit (key : NamespaceKey) (newBlocks : Nat) : b.planAdmit key newBlocks = a.planAdmit key newBlocks := by
  have free : b.freeBytes = a.freeBytes := by
    unfold freeBytes
    rw [same.capacity, same.totalUsedBytes]
  have borrow : b.planBorrow key = a.planBorrow key := by
    funext q bpb ownEvictN projected
    unfold planBorrow
    rw [free, same.capacity, same.reclaimable]
  unfold Authority.planAdmit
  split
  · rfl
  cases found : a.namespaces.lookup key with
  | none => rw [same.lookup_none found]
  | some ns =>
    obtain ⟨ns', found', descriptor, used, inactive⟩ := same.lookup found
    simp only [found', borrow, quota, inactiveBytes, bytesPerBlock, descriptor, used, inactive]
    rfl

end

theorem setPool {pk : Int} {p q : PoolView B} (found : a.pool? key pk = some p) (inactive : q.inactive = p.inactive)
    (blocks : ∀ flat, flat ∈ q.byFlat ↔ flat ∈ p.byFlat) : SameBooks a (a.setPool key pk q) := by
  obtain ⟨ns, hns, hp⟩ := pool?_eq_some.mp found
  have len : (ns.setPool pk q).inactiveLen = ns.inactiveLen := by
    have total := total_insert_of_lookup (f := fun p : PoolView B => B.len p.inactive) (b := q) hp
    rw [inactive] at total
    exact Nat.add_left_cancel total
  refine ⟨?_, ?_, ?_, ?_⟩
  · rw [setPool_of_lookup pk q hns]
    rfl
  · rw [setPool_of_lookup pk q hns]
    exact keys_insert_of_mem (mem_of_lookup_eq_some hns)
  · intro key'
    rw [setPool_of_lookup pk q hns, setNs, lookup_insert_if]
    split
    next same =>
      subst same
      rw [hns]
      exact congrArg (fun n => some (ns.descriptor, ns.usedBytes, n)) len
    · rfl
  · intro key' pk' hashes
    rw [pool?_setPool_if found]
    split
    next same =>
      obtain ⟨rfl, rfl⟩ := same
      rw [found]
      unfold newFlats
      simp only [map_some, getD_some, blocks]
    · rfl

theorem emit (same : SameBooks a b) (es : List ViewEvent) : SameBooks a (b.emit es) :=
  ⟨same.capacity, same.keys, same.digest, same.known⟩

end SameBooks

section Locations

variable {modelId revision : String} {h : Flat}

theorem findBlock_filed (call : String) (on : a.filed ⟨modelId, revision, poolTarget, h⟩ = some m) :
    ∃ p e, a.pool? ⟨modelId, revision⟩ poolTarget = some p ∧ p.byFlat.lookup h = some e ∧
      e.seqHash ∈ p.handles ∧ e.blockMeta = m ∧
      a.findBlock call modelId revision poolTarget h = .ok (poolTarget, p, e) := by
  obtain ⟨p, e, found, entry, handle, same⟩ := filed_eq_some.mp on
  refine ⟨p, e, found, entry, handle, same, ?_⟩
  obtain ⟨ns, hns, hp⟩ := pool?_eq_some.mp found
  have kind : resolvePoolKind poolTarget = .ok poolTarget := rfl
  change a.namespaces.lookup ⟨modelId, revision⟩ = some ns at hns
  simp only [findBlock, kind, hns]
  change ns.pools.lookup poolTarget = some p at hp
  change p.byFlat.lookup h = some e at entry
  simp only [hp, entry]

/-- What a call about one block of the target pool does to it, when it changes nothing but its metadata. -/
structure Rewrites (a : Authority B) (modelId revision : String) (h : Flat) (m : BlockMeta) (b : Authority B) :
    Prop where
  here : b.filed ⟨modelId, revision, poolTarget, h⟩ = some m
  elsewhere : Refiles a b {⟨modelId, revision, poolTarget, h⟩}
  books : SameBooks a b

theorem rewrites_setPool {p q : PoolView B} {e : Entry B} {es : List ViewEvent}
    (found : a.pool? ⟨modelId, revision⟩ poolTarget = some p) (entry : p.byFlat.lookup h = some e)
    (handle : e.seqHash ∈ p.handles) (change : q.byFlat = p.byFlat.insert h { e with blockMeta := m })
    (handles : ∀ seq, seq ∈ q.handles ↔ seq ∈ p.handles) (inactive : q.inactive = p.inactive) :
    Rewrites a modelId revision h m ((a.setPool ⟨modelId, revision⟩ poolTarget q).emit es) := by
  refine ⟨?_, ?_, ?_⟩
  · have now : q.byFlat.lookup h = some { e with blockMeta := m } := by
      rw [change]
      exact lookup_insert _
    exact filed_eq_some.mpr ⟨q, _, pool?_setPool found, now, (handles _).mpr handle, rfl⟩
  · have set : Refiles a (a.setPool ⟨modelId, revision⟩ poolTarget q) {⟨modelId, revision, poolTarget, h⟩} := by
      refine .setPool found ?_ fun seq => (handles seq).mpr
      intro flat out
      have ne : flat ≠ h := by
        rintro rfl
        exact out rfl
      rw [change, lookup_insert_of_ne _ ne]
    exact set.trans (.of_namespaces rfl)
  · refine (SameBooks.setPool found inactive ?_).emit es
    intro flat
    rw [change]
    exact mem_insert_of_lookup entry

variable (on : a.filed ⟨modelId, revision, poolTarget, h⟩ = some m)
include on

theorem publishLocation_filed (nodeId : String) :
    ∃ b, a.publishLocation modelId revision poolTarget h .l2 nodeId false = (b, .ok ()) ∧ Rewrites a modelId revision h
        { m with locations := publishedLocations .l2 nodeId 1 0 false m.locations } b := by
  obtain ⟨p, e, found, entry, handle, rfl, block⟩ := findBlock_filed "publish_location" on
  have change := publish_byFlat .l2 nodeId 1 0 false entry
  have same := p.publish_redescribes h e .l2 nodeId 1 0 false
  have answer : a.publishLocation modelId revision poolTarget h .l2 nodeId false =
      ((a.setPool ⟨modelId, revision⟩ poolTarget (p.publish h e .l2 nodeId 1 0 false)).emit
        (if false || hasTierOn e.blockMeta.locations .l2 nodeId then
          (p.publish h e .l2 nodeId 1 0 false).movedEvent ⟨modelId, revision⟩ poolTarget h else []), .ok ()) := by
    rw [publishLocation, publishLocationAt, block]
    exact if_pos handle
  exact ⟨_, answer, rewrites_setPool found entry handle change same.handles same.inactive⟩

theorem setL3Present_filed : ∃ b, a.setL3Present modelId revision poolTarget h true = (b, .ok ()) ∧
      Rewrites a modelId revision h { m with l3Present := true } b := by
  obtain ⟨p, e, found, entry, handle, rfl, block⟩ := findBlock_filed "set_l3_present" on
  have answer : a.setL3Present modelId revision poolTarget h true = ((a.setPool ⟨modelId, revision⟩ poolTarget
        (p.setMeta h e { e.blockMeta with l3Present := true })).emit
        ((p.setMeta h e { e.blockMeta with l3Present := true }).movedEvent ⟨modelId, revision⟩ poolTarget h),
        .ok ()) := by
    rw [setL3Present, block]
  exact ⟨_, answer, rewrites_setPool found entry handle rfl (fun _ => Iff.rfl) rfl⟩

end Locations

end Authority

end LakeKv
