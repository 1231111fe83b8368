import LakeKv.PutEnd
import LakeKv.Runs

namespace LakeKv

open Commit List PutEndSession Std.Do

set_option mvcgen.warning false

variable {σ P : Type} {S : TierStore σ} {C : ControlPlanePort P}

/-- From a state in `I`, a call that succeeds ends in `Q`, and one that fails in `R`. -/
abbrev Leads {α : Type} (I : Committing σ P → Prop) (x : Commit σ P α) (Q R : Committing σ P → Prop) : Prop :=
  ⦃fun st => ⌜I st⌝⦄ x ⦃post⟨fun _ st => ⌜Q st⌝, fun _ st => ⌜R st⌝⟩⦄

theorem RefKind.toWire_injective : Function.Injective RefKind.toWire := by
  intro k k' h
  cases k <;> cases k' <;> first | rfl | exact absurd h (by decide)

def refAmount (ds : List RefDelta) (id : KvBlockId) (kind : RefKind) : Int :=
  ((ds.filter fun d => d.id = some id ∧ d.kind = kind.toWire).map RefDelta.delta).sum

namespace PutEndSession

def multiplicity (s : PutEndSession) (id : KvBlockId) : Nat :=
  s.blocks.countP fun b => b.id = id

def isOpen (s : PutEndSession) : RefKind → Bool
  | .writeback => s.writebackOpen
  | .request => s.registerHoldOpen
  | _ => false

theorem refAmount_refDeltas (s : PutEndSession) (kind : RefKind) (delta : Int) (id : KvBlockId) (kind' : RefKind) :
    refAmount (s.refDeltas kind delta) id kind' = if kind' = kind then s.multiplicity id * delta else 0 := by
  have hloop : ∀ bs : List PendingBlock, refAmount (bs.map fun b => ⟨some b.id, kind.toWire, delta, s.nodeId⟩) id kind' =
        if kind' = kind then (bs.countP fun b => b.id = id : Nat) * delta else 0 := by
    intro bs
    induction bs with
    | nil => simp [refAmount]
    | cons b bs ih =>
      rw [refAmount] at ih ⊢
      rw [map_cons, filter_cons, countP_cons]
      by_cases hkind : kind' = kind
      · subst hkind
        simp only [if_true, and_true, decide_eq_true_eq, Option.some.injEq] at ih ⊢
        by_cases hid : b.id = id
        · simp only [hid, if_true, map_cons, sum_cons, ih]
          push_cast
          ring
        · simp only [hid, if_false, ih, Nat.add_zero]
      · have hwire : kind.toWire ≠ kind'.toWire := fun h => hkind (RefKind.toWire_injective h.symm)
        simpa [hkind, hwire] using ih
  exact hloop s.blocks

end PutEndSession

structure Audited (P : Type) where
  cp : P
  calls : List (P × List RefDelta)

def Audited.pass (call : P → P × Except String Unit) (st : Audited P) : Audited P × Except String Unit :=
  ({ st with cp := (call st.cp).1 }, (call st.cp).2)

def ControlPlanePort.audited (C : ControlPlanePort P) : ControlPlanePort (Audited P) where
  admitRegisterBlocks req := Audited.pass (C.admitRegisterBlocks req)
  registerBlocks req := Audited.pass (C.registerBlocks req)
  reportRefs ds st := (⟨(C.reportRefs ds st.cp).1, st.calls ++ [(st.cp, ds)]⟩, (C.reportRefs ds st.cp).2)
  requestBarrier req := Audited.pass (C.requestBarrier req)
  publishLocation m r pk flat tier node present := Audited.pass (C.publishLocation m r pk flat tier node present)
  setL3Present m r pk flat present := Audited.pass (C.setL3Present m r pk flat present)

/-- The references that a session has on a control plane. A call that fails changes none, and only
`report_refs` changes any. -/
structure RefLedger (C : ControlPlanePort P) where
  held : P → KvBlockId → RefKind → Int
  reported : ∀ ds cp, (C.reportRefs ds cp).2 = .ok () →
    ∀ id kind, held (C.reportRefs ds cp).1 id kind = held cp id kind + refAmount ds id kind
  refused : ∀ ds cp e, (C.reportRefs ds cp).2 = .error e → held (C.reportRefs ds cp).1 = held cp
  admission : ∀ req cp, held (C.admitRegisterBlocks req cp).1 = held cp
  register : ∀ req cp, held (C.registerBlocks req cp).1 = held cp
  barrier : ∀ req cp, held (C.requestBarrier req cp).1 = held cp
  publish : ∀ m r pk flat tier node present cp,
    held (C.publishLocation m r pk flat tier node present cp).1 = held cp
  setL3 : ∀ m r pk flat present cp, held (C.setL3Present m r pk flat present cp).1 = held cp

def RefLedger.Covers (L : RefLedger C) (call : P × List RefDelta) : Prop :=
  ∀ id kind, refAmount call.2 id kind < 0 → -refAmount call.2 id kind ≤ L.held call.1 id kind

/-- The session has its blocks, its flags say what it holds, and it never took back more than it held. -/
structure Honest (L : RefLedger C) (m : KvBlockId → Nat) (st : Committing σ (Audited P)) : Prop where
  blocks : st.session.multiplicity = m
  held : ∀ id kind, L.held st.cp.cp id kind = if st.session.isOpen kind then (m id : Int) else 0
  covered : ∀ call ∈ st.cp.calls, L.Covers call

namespace Honest

variable {L : RefLedger C} {m : KvBlockId → Nat} {st st' : Committing σ (Audited P)} {kind : RefKind}

variable (h : Honest L m st)
include h

theorem covers {delta : Int} (hdelta : delta = 1 ∨ delta = -1 ∧ st.session.isOpen kind = true) :
    L.Covers (st.cp.cp, st.session.refDeltas kind delta) := by
  intro id kind' hneg
  rw [refAmount_refDeltas] at hneg ⊢
  by_cases hkind : kind' = kind
  · subst hkind
    rcases hdelta with rfl | ⟨rfl, hopen⟩
    · simp only [if_true, mul_one] at hneg
      omega
    · rw [h.held, hopen, h.blocks]
      simp
  · simp [hkind] at hneg

theorem covered_snoc {delta : Int} (hdelta : delta = 1 ∨ delta = -1 ∧ st.session.isOpen kind = true)
    (hcalls : st'.cp.calls = st.cp.calls ++ [(st.cp.cp, st.session.refDeltas kind delta)]) :
    ∀ call ∈ st'.cp.calls, L.Covers call := by
  rw [hcalls]
  intro call hcall
  rcases mem_append.mp hcall with hcall | hcall
  · exact h.covered call hcall
  · cases List.mem_singleton.mp hcall
    exact h.covers hdelta

theorem of_same (hopen : st'.session.isOpen = st.session.isOpen)
    (hblocks : st'.session.multiplicity = st.session.multiplicity) (hheld : L.held st'.cp.cp = L.held st.cp.cp)
    (hcalls : st'.cp.calls = st.cp.calls) : Honest L m st' where
  blocks := hblocks.trans h.blocks
  held id kind := by rw [hheld, hopen, h.held]
  covered := by
    rw [hcalls]
    exact h.covered

end Honest

section Spec

variable (L : RefLedger C)

structure Reported (ds : List RefDelta) (st st' : Committing σ (Audited P)) : Prop where
  session : st'.session = st.session
  calls : st'.cp.calls = st.cp.calls ++ [(st.cp.cp, ds)]
  held : ∀ id kind, L.held st'.cp.cp id kind = L.held st.cp.cp id kind + refAmount ds id kind

structure Refused (ds : List RefDelta) (st st' : Committing σ (Audited P)) : Prop where
  session : st'.session = st.session
  calls : st'.cp.calls = st.cp.calls ++ [(st.cp.cp, ds)]
  held : L.held st'.cp.cp = L.held st.cp.cp

structure Passed (st st' : Committing σ (Audited P)) : Prop where
  session : st'.session = st.session
  calls : st'.cp.calls = st.cp.calls
  held : L.held st'.cp.cp = L.held st.cp.cp

theorem pass_spec (call : Audited P → Audited P × Except String Unit)
    (hcall : ∀ cp, (call cp).1.calls = cp.calls ∧ L.held (call cp).1.cp = L.held cp.cp)
    (st₀ : Committing σ (Audited P)) : Leads (· = st₀) (port call) (Passed L st₀) (Passed L st₀) := by
  mvcgen [port]
  case vc1.h_1 st heq answer _ =>
    subst heq
    exact ⟨rfl, (hcall st.cp).1, (hcall st.cp).2⟩
  case vc2.h_2 st heq answer _ _ =>
    subst heq
    exact ⟨rfl, (hcall st.cp).1, (hcall st.cp).2⟩

theorem reportRefs_spec (ds : List RefDelta) (st₀ : Committing σ (Audited P)) :
    Leads (· = st₀) (port (C.audited.reportRefs ds)) (Reported L ds st₀) (Refused L ds st₀) := by
  mvcgen [port]
  case vc1.h_1 st heq answer hok =>
    subst heq
    exact ⟨rfl, rfl, L.reported ds st.cp.cp hok⟩
  case vc2.h_2 st heq answer e herr =>
    subst heq
    exact ⟨rfl, rfl, L.refused ds st.cp.cp e herr⟩

end Spec

namespace Honest

variable {L : RefLedger C} {m : KvBlockId → Nat} {st st' : Committing σ (Audited P)} {delta : Int}

variable (h : Honest L m st)
include h

variable (kind : RefKind) (now : Bool)

theorem refused (hdelta : delta = 1 ∨ delta = -1 ∧ st.session.isOpen kind = true)
    (hr : Refused L (st.session.refDeltas kind delta) st st') : Honest L m st' where
  blocks := hr.session ▸ h.blocks
  held id kind := by rw [hr.held, hr.session, h.held]
  covered := h.covered_snoc hdelta hr.calls

theorem passed (hp : Passed L st st') : Honest L m st' :=
  h.of_same (by rw [hp.session]) (by rw [hp.session]) hp.held hp.calls

theorem reported (hdelta : delta = 1 ∧ st.session.isOpen kind = false ∨ delta = -1 ∧ st.session.isOpen kind = true)
    (hr : Reported L (st.session.refDeltas kind delta) st st') {s : PutEndSession}
    (hs : ∀ k, s.isOpen k = if k = kind then !st.session.isOpen kind else st.session.isOpen k)
    (hblocks : s.multiplicity = st.session.multiplicity) : Honest L m { st' with session := s } where
  blocks := hblocks.trans h.blocks
  held id k := by
    rw [hr.held, h.held, refAmount_refDeltas, hs, h.blocks]
    by_cases hk : k = kind
    · subst hk
      rcases hdelta with ⟨rfl, hopen⟩ | ⟨rfl, hopen⟩ <;> simp [hopen]
    · simp [hk]
  covered := h.covered_snoc (hdelta.imp And.left id) hr.calls

theorem registerHold (hwas : st.session.registerHoldOpen = !now)
    (hr : Reported L (st.session.requestDeltas (if now then 1 else -1)) st st') :
    Honest L m { st' with session := { st'.session with registerHoldOpen := now } } := by
  refine h.reported .request ?_ hr (fun k => ?_) (by rw [hr.session]; rfl)
  · cases now <;> simpa [isOpen] using hwas
  · cases k <;> simp [isOpen, hwas, hr.session]

theorem writeback (hwas : st.session.writebackOpen = !now)
    (hr : Reported L (st.session.writebackDeltas (if now then 1 else -1)) st st') :
    Honest L m { st' with session := { st'.session with writebackOpen := now } } := by
  refine h.reported .writeback ?_ hr (fun k => ?_) (by rw [hr.session]; rfl)
  · cases now <;> simpa [isOpen] using hwas
  · cases k <;> simp [isOpen, hwas, hr.session]

end Honest

section Steps

variable (L : RefLedger C) (m : KvBlockId → Nat)

theorem releaseRegisterHold_spec :
    Leads (Honest L m) (releaseRegisterHold (σ := σ) C.audited) (Honest L m) (Honest L m) := by
  have report := reportRefs_spec (σ := σ) L
  mvcgen [releaseRegisterHold, session, modifySession, report]
  case vc1.isTrue.post.success st h _ hopen _ st' hr t => exact h.registerHold false hopen hr
  case vc2.isTrue.post.except.handle st h _ hopen _ st' hr => exact h.refused .request (.inr ⟨rfl, hopen⟩) hr

theorem holdRegister_spec : Leads (Honest L m) (holdRegister S C.audited) (Honest L m) (Honest L m) := by
  have report := reportRefs_spec (σ := σ) L
  mvcgen [holdRegister, session, modifySession, orUnpin, report, unpinAll, modifyStore]
  case vc2.isFalse.post.success st h hopen _ st' hr t =>
    exact h.registerHold true (by simpa using hopen) hr
  case vc3.isFalse.post.except.handle st h hopen _ st' hr t =>
    exact (h.refused .request (.inl rfl) hr).of_same rfl rfl rfl rfl

theorem openWriteback_spec :
    Leads (Honest L m) (openWriteback S C.audited)
      (fun st => Honest L m st ∧ st.session.writebackOpen = true) (Honest L m) := by
  have report := reportRefs_spec (σ := σ) L
  have release := releaseRegisterHold_spec (σ := σ) L m
  mvcgen [openWriteback, session, modifySession, report, release, unpinAll, modifyStore]
  case vc2.isFalse.post.success st h hopen _ st' hr t =>
    exact ⟨h.writeback true (by simpa using hopen) hr, rfl⟩
  case vc3.isFalse.post.except.handle.pre st h hopen _ st' hr => exact h.refused .writeback (.inl rfl) hr
  case vc4.isFalse.post.except.handle.post.success st h hopen _ _ _ _ st' h' t =>
    exact h'.of_same rfl rfl rfl rfl

theorem passBarrier_spec :
    Leads (fun st => Honest L m st ∧ st.session.writebackOpen = true) (passBarrier S C.audited)
      (Honest L m) (Honest L m) := by
  have report := reportRefs_spec (σ := σ) L
  have barrier := fun req => pass_spec (σ := σ) L (C.audited.requestBarrier req) fun cp => ⟨rfl, L.barrier req cp.cp⟩
  mvcgen [passBarrier, session, modifySession, report, unpinAll, modifyStore, barrier]
  case vc1.post.success st h _ st' => exact h.1.passed
  case vc2.post.except.handle.post.success st h _ st₁ hpass _ st' hr _ t =>
    rw [← hpass.session] at hr
    exact ((h.1.passed hpass).writeback false (hpass.session ▸ h.2) hr).of_same rfl rfl rfl rfl
  case vc3.post.except.handle.post.except.handle st h _ st₁ hpass _ st' hr t =>
    rw [← hpass.session] at hr
    exact ((h.1.passed hpass).refused .writeback (.inr ⟨rfl, hpass.session ▸ h.2⟩) hr).of_same rfl rfl rfl rfl

theorem closeWriteback_spec :
    Leads (Honest L m) (closeWriteback S C.audited)
      (fun st => Honest L m st ∧ st.session.writebackOpen = false) (Honest L m) := by
  have report := reportRefs_spec (σ := σ) L
  have release := releaseRegisterHold_spec (σ := σ) L m
  mvcgen [closeWriteback, session, modifySession, report, release, unpinAll, modifyStore]
  case vc1.isTrue.post.success st h hopen _ st' hr t => exact ⟨h.writeback false hopen hr, rfl⟩
  case vc2.isTrue.post.except.handle.pre st h hopen _ st' hr => exact h.refused .writeback (.inr ⟨rfl, hopen⟩) hr
  case vc3.isTrue.post.except.handle.post.success st h hopen _ _ _ _ st' h' t _ =>
    exact h'.of_same rfl rfl rfl rfl
  case vc4.isFalse st h hopen => exact ⟨h, by simpa using hopen⟩

theorem closeRegisterHold_spec :
    Leads (fun st => Honest L m st ∧ st.session.writebackOpen = false) (closeRegisterHold S C.audited)
      (fun st => Honest L m st ∧ st.session.writebackOpen = false ∧ st.session.registerHoldOpen = false) (Honest L m) := by
  have report := reportRefs_spec (σ := σ) L
  mvcgen [closeRegisterHold, session, modifySession, report, unpinAll, modifyStore]
  case vc1.isTrue.post.success st h hopen _ st' hr t =>
    refine ⟨h.1.registerHold false hopen hr, ?_, rfl⟩
    rw [← h.2, ← hr.session]
  case vc2.isTrue.post.except.handle st h hopen _ st' hr t =>
    exact (h.1.refused .request (.inr ⟨rfl, hopen⟩) hr).of_same rfl rfl rfl rfl
  case vc3.isFalse st h hopen => exact ⟨h.1, h.2, by simpa using hopen⟩

theorem orUnpin_spec (call : Audited P → Audited P × Except String Unit)
    (hcall : ∀ cp, (call cp).1.calls = cp.calls ∧ L.held (call cp).1.cp = L.held cp.cp) :
    Leads (Honest L m) (orUnpin S (port call)) (Honest L m) (Honest L m) := by
  have pass := pass_spec (σ := σ) L call hcall
  mvcgen [orUnpin, session, pass, unpinAll, modifyStore]
  case vc1.post.success st h _ st' => exact h.passed
  case vc2.post.except.handle st h _ st' hpass t => exact (h.passed hpass).of_same rfl rfl rfl rfl

theorem multiplicity_map (s : PutEndSession) {blocks : List PendingBlock}
    (h : blocks.map PendingBlock.id = s.blocks.map PendingBlock.id) :
    PutEndSession.multiplicity { s with blocks } = s.multiplicity := by
  have hcount : ∀ bs : List PendingBlock, ∀ id, (bs.countP fun b => b.id = id) =
      (bs.map PendingBlock.id).countP fun i => i = id := by
    intro bs id
    rw [countP_map]
    rfl
  funext id
  rw [PutEndSession.multiplicity, PutEndSession.multiplicity, hcount, hcount, h]

theorem flushBlock_spec (b : PendingBlock) (i : Nat) :
    Leads (Honest L m) (flushBlock S b i) (Honest L m) (Honest L m) := by
  have hids : ∀ (bs : List PendingBlock) (durable : Bool),
      (bs.modify i fun b => { b with durable }).map PendingBlock.id = bs.map PendingBlock.id := by
    intro bs durable
    refine ext_getElem? fun j => ?_
    rw [getElem?_map, getElem?_map, getElem?_modify]
    by_cases hij : i = j <;> cases bs[j]? <;> simp [hij]
  mvcgen [flushBlock, session, modifySession, storeCall, store]
  case vc1.h_1.isTrue st h _ _ _ durable t _ _ =>
    exact h.of_same rfl (multiplicity_map st.session (hids st.session.blocks durable)) rfl rfl
  case vc2.h_1.isFalse st h _ _ _ durable t _ _ =>
    exact h.of_same rfl (multiplicity_map st.session (hids st.session.blocks durable)) rfl rfl
  case vc3.h_2 st h _ _ _ => exact h.of_same rfl rfl rfl rfl

theorem flushDurable_spec : Leads (Honest L m) (flushDurable S) (Honest L m) (Honest L m) := by
  have flush := flushBlock_spec (S := S) L m
  mvcgen [flushDurable, session, flush] invariants
  · post⟨fun _ st => ⌜Honest L m st⌝, fun _ st => ⌜Honest L m st⌝⟩

theorem publishLocation_spec (model revision : String) (pk : Int) (flat : Flat) (tier : Tier) (node : String)
    (present : Bool) :
    Leads (Honest L m) (orUnpin S (port (C.audited.publishLocation model revision pk flat tier node present)))
      (Honest L m) (Honest L m) :=
  orUnpin_spec L m _ fun cp => ⟨rfl, L.publish model revision pk flat tier node present cp.cp⟩

theorem setL3Present_spec (model revision : String) (pk : Int) (flat : Flat) (present : Bool) :
    Leads (Honest L m) (orUnpin S (port (C.audited.setL3Present model revision pk flat present)))
      (Honest L m) (Honest L m) :=
  orUnpin_spec L m _ fun cp => ⟨rfl, L.setL3 model revision pk flat present cp.cp⟩

theorem publishDemoted_spec (demoted : List Flat) :
    Leads (Honest L m) (publishDemoted S C.audited demoted) (Honest L m) (Honest L m) := by
  have publish := publishLocation_spec (S := S) L m
  have setL3 := setL3Present_spec (S := S) L m
  mvcgen [publishDemoted, session, publish, setL3] invariants
  · post⟨fun _ st => ⌜Honest L m st⌝, fun _ st => ⌜Honest L m st⌝⟩

theorem registerBlocks_spec : Leads (Honest L m) (registerBlocks S C.audited) (Honest L m) (Honest L m) := by
  have register := fun req => pass_spec (σ := σ) L (C.audited.registerBlocks req) fun cp => ⟨rfl, L.register req cp.cp⟩
  mvcgen [registerBlocks, session, store, modifySession, discardSession, modifyStore, register]
  case vc1.post.success st h _ _ st' => exact h.passed
  case vc2.post.except.handle st h _ _ st' hpass _ t =>
    refine (h.passed hpass).of_same rfl (multiplicity_map st'.session ?_) rfl rfl
    exact map_map

theorem publishSettled_spec : Leads (Honest L m) (publishSettled S C.audited) (Honest L m) (Honest L m) := by
  have publish := publishLocation_spec (S := S) L m
  have setL3 := setL3Present_spec (S := S) L m
  mvcgen [publishSettled, session, store, publish, setL3] invariants
  · post⟨fun _ st => ⌜Honest L m st⌝, fun _ st => ⌜Honest L m st⌝⟩

theorem storeCall_spec {α : Type} (call : σ → σ × Except String α) (I : PutEndSession → Prop) :
    Leads (fun st => Honest L m st ∧ I st.session) (storeCall call)
      (fun st => Honest L m st ∧ I st.session) (fun st => Honest L m st ∧ I st.session) := by
  mvcgen [storeCall]
  case vc1.h_1 st h _ _ _ => exact ⟨h.1.of_same rfl rfl rfl rfl, h.2⟩
  case vc2.h_2 st h _ _ _ => exact ⟨h.1.of_same rfl rfl rfl rfl, h.2⟩

theorem commitThrough_spec :
    Leads (Honest L m) (commitThrough S C.audited)
      (fun st => Honest L m st ∧ st.session.writebackOpen = false ∧ st.session.registerHoldOpen = false) (Honest L m) := by
  have admission := fun req => pass_spec (σ := σ) L (C.audited.admitRegisterBlocks req)
    fun cp => ⟨rfl, L.admission req cp.cp⟩
  have flush := flushDurable_spec (S := S) L m
  have demoted := publishDemoted_spec (S := S) L m
  have register := registerBlocks_spec (S := S) L m
  have settled := publishSettled_spec (S := S) L m
  have hold := holdRegister_spec (S := S) L m
  have writeback := openWriteback_spec (S := S) L m
  have barrier := passBarrier_spec (S := S) L m
  have close := closeWriteback_spec (S := S) L m
  have release := closeRegisterHold_spec (S := S) L m
  have unpin := fun call => storeCall_spec (σ := σ) (α := Unit) L m call
    fun s => s.writebackOpen = false ∧ s.registerHoldOpen = false
  mvcgen [commitThrough, session, store, modifyStore, admission, flush, demoted, register, settled, hold, writeback,
    barrier, close, release, unpin] invariants
  · post⟨fun _ st => ⌜Honest L m st ∧ st.session.writebackOpen = false ∧ st.session.registerHoldOpen = false⌝,
      fun _ st => ⌜Honest L m st⌝⟩
  case vc1.post.success.pre st h _ st' hpass => exact h.passed hpass
  case vc2.post.success.post.success.isTrue.pre h _ _ _ => exact h.of_same rfl rfl rfl rfl
  case vc12.step.post.except.handle => exact fun _ h _ _ => h
  case vc17.post.except.handle st h _ _ => exact h.passed

end Steps

theorem run_of_triple {ε τ α : Type} {x : ExceptT ε (StateM τ) α} {I : τ → Prop} {Q : α → τ → Prop} {R : ε → τ → Prop}
    (h : ⦃fun t => ⌜I t⌝⦄ x ⦃post⟨fun a t => ⌜Q a t⌝, fun e t => ⌜R e t⌝⟩⦄) {t : τ} (ht : I t) :
    (∀ a, (x.run.run t).1 = .ok a → Q a (x.run.run t).2) ∧ ∀ e, (x.run.run t).1 = .error e → R e (x.run.run t).2 := by
  have hrun := h t ht
  simp only [wp, PredTrans.apply_pushExcept, PredTrans.apply_pushArg, PredTrans.apply_Pure_pure] at hrun
  constructor
  · intro a ha
    change (StateT.run (ExceptT.run x) t).run.1 = _ at ha
    rw [ha] at hrun
    exact hrun
  · intro e he
    change (StateT.run (ExceptT.run x) t).run.1 = _ at he
    rw [he] at hrun
    exact hrun

theorem Honest.attempt {L : RefLedger C} {m : KvBlockId → Nat} {st : Committing σ (Audited P)}
    (h : Honest L m st) : Honest L m (st.attempt S C.audited).1 ∧ ((st.attempt S C.audited).2 = .ok () →
      (st.attempt S C.audited).1.session.writebackOpen = false ∧
        (st.attempt S C.audited).1.session.registerHoldOpen = false) := by
  obtain ⟨hok, herror⟩ := run_of_triple (commitThrough_spec (S := S) L m) h
  refine ⟨?_, fun hdone => (hok () hdone).2⟩
  cases hresult : ((commitThrough S C.audited).run.run st).1 with
  | ok u => exact (hok u hresult).1
  | error e => exact herror e hresult

def PutEndSession.opened (requestId nodeId modelId revision : String) (puts : List (Flat × List UInt8)) :
    PutEndSession :=
  puts.foldl (fun s b => s.putStart b.1 b.2) (.withRevision requestId nodeId modelId revision)

theorem PutEndSession.opened_closed (requestId nodeId modelId revision : String) (puts : List (Flat × List UInt8))
    (kind : RefKind) : (opened requestId nodeId modelId revision puts).isOpen kind = false := by
  have hloop : ∀ (puts : List (Flat × List UInt8)) (s : PutEndSession),
      (puts.foldl (fun s b => s.putStart b.1 b.2) s).isOpen kind = s.isOpen kind := by
    intro puts
    induction puts with
    | nil => exact fun _ => rfl
    | cons b puts ih =>
      intro s
      rw [foldl_cons, ih]
      cases kind <;> rfl
  rw [opened, hloop]
  cases kind <;> rfl

/-- What happens to a session: an attempt to commit, or whatever others do to the store and the control
plane meanwhile. -/
inductive PutEndMove (σ P : Type)
  | attempt
  | elsewhere (store : σ) (cp : P)

namespace Committing

def move (S : TierStore σ) (C : ControlPlanePort P) (st : Committing σ (Audited P)) :
    PutEndMove σ P → Committing σ (Audited P)
  | .attempt => (st.attempt S C.audited).1
  | .elsewhere store cp => { st with store, cp := { st.cp with cp } }

def Starts (L : RefLedger C) (s : PutEndSession) (st : Committing σ (Audited P)) : Prop :=
  st.session = s ∧ st.cp.calls = [] ∧ ∀ id kind, L.held st.cp.cp id kind = 0

def Apart (L : RefLedger C) (st : Committing σ (Audited P)) : PutEndMove σ P → Prop
  | .attempt => True
  | .elsewhere _ cp => L.held cp = L.held st.cp.cp

/-- After any attempts, whichever of their calls failed, the session holds a WRITEBACK reference for each
of its blocks if `writeback_open` and none otherwise, the same of REQUEST references and
`register_hold_open`; it never took back more than it held; and after an attempt that succeeds it
holds nothing. -/
theorem putend_refs_honest (L : RefLedger C) (requestId nodeId modelId revision : String)
    (puts : List (Flat × List UInt8)) {st : Committing σ (Audited P)}
    (h : Reach (move S C) (Starts L (.opened requestId nodeId modelId revision puts)) (Apart L) st) :
    (∀ id, L.held st.cp.cp id .writeback = if st.session.writebackOpen then
        ((PutEndSession.opened requestId nodeId modelId revision puts).multiplicity id : Int) else 0) ∧
      (∀ id, L.held st.cp.cp id .request = if st.session.registerHoldOpen then
        ((PutEndSession.opened requestId nodeId modelId revision puts).multiplicity id : Int) else 0) ∧
      (∀ call ∈ st.cp.calls, L.Covers call) ∧
      ((st.attempt S C.audited).2 = .ok () → ∀ id, L.held (st.attempt S C.audited).1.cp.cp id .writeback = 0 ∧
        L.held (st.attempt S C.audited).1.cp.cp id .request = 0) := by
  have hinv : Honest L (opened requestId nodeId modelId revision puts).multiplicity st := by
    refine Reach.invariant ?_ ?_ h
    · rintro st ⟨hs, hcalls, hheld⟩
      refine ⟨by rw [hs], fun id kind => ?_, by simp [hcalls]⟩
      rw [hheld, hs, opened_closed]
      rfl
    · intro st o hI hok
      cases o with
      | attempt => exact hI.attempt.1
      | elsewhere store cp => exact hI.of_same rfl rfl hok rfl
  refine ⟨fun id => hinv.held id .writeback, fun id => hinv.held id .request, hinv.covered, fun hdone id => ?_⟩
  obtain ⟨hafter, hflags⟩ := hinv.attempt (S := S)
  obtain ⟨hwriteback, hhold⟩ := hflags hdone
  rw [hafter.held, hafter.held]
  simp [isOpen, hwriteback, hhold]

def scriptedCall (ds : List RefDelta) :
    List Bool × List RefDelta → (List Bool × List RefDelta) × Except String Unit
  | (false :: script, record) => ((script, record), .error "unavailable")
  | (true :: script, record) => ((script, record ++ ds), .ok ())
  | ([], record) => (([], record ++ ds), .ok ())

def scriptedPort : ControlPlanePort (List Bool × List RefDelta) where
  admitRegisterBlocks _ := scriptedCall []
  registerBlocks _ := scriptedCall []
  reportRefs := scriptedCall
  requestBarrier _ := scriptedCall []
  publishLocation _ _ _ _ _ _ _ := scriptedCall []
  setL3Present _ _ _ _ _ := scriptedCall []

theorem refAmount_append (ds ds' : List RefDelta) (id : KvBlockId) (kind : RefKind) :
    refAmount (ds ++ ds') id kind = refAmount ds id kind + refAmount ds' id kind := by
  simp [refAmount]

theorem scriptedCall_silent : ∀ cp : List Bool × List RefDelta, (scriptedCall [] cp).1.2 = cp.2
  | (false :: _, _) => rfl
  | (true :: _, record) => append_nil record
  | ([], record) => append_nil record

def scriptedLedger : RefLedger scriptedPort where
  held cp := refAmount cp.2
  reported
    | _, (false :: _, _), hok => by cases hok
    | ds, (true :: _, record), _ => refAmount_append record ds
    | ds, ([], record), _ => refAmount_append record ds
  refused
    | _, (false :: _, _), _, _ => rfl
    | _, (true :: _, _), _, herr => by cases herr
    | _, ([], _), _, herr => by cases herr
  admission _ cp := congrArg refAmount (scriptedCall_silent cp)
  register _ cp := congrArg refAmount (scriptedCall_silent cp)
  barrier _ cp := congrArg refAmount (scriptedCall_silent cp)
  publish _ _ _ _ _ _ _ cp := congrArg refAmount (scriptedCall_silent cp)
  setL3 _ _ _ _ _ cp := congrArg refAmount (scriptedCall_silent cp)

def settledStore : TierStore Unit where
  putDurable _ _ _ := ((), .ok [])
  isSettled _ _ := true
  isL2Durable _ _ := true
  l2Placement _ _ := none
  l3Present _ _ := false
  pin _ _ := ()
  unpin _ _ := ((), .ok ())
  discardSettled _ _ := ()

/-- A session that puts one block twice; the barrier of its first attempt fails, and the rollback too. -/
def unluckyStart : Committing Unit (Audited (List Bool × List RefDelta)) :=
  ⟨.opened "q" "n" "m" "r" [([1], []), ([1], [])], (), ⟨([true, true, true, true, false, false], []), []⟩⟩

theorem putend_refs_honest_unlucky : (unluckyStart.attempt settledStore scriptedPort.audited).2 =
        .error "unavailable; writeback rollback failed after barrier error: unavailable" ∧
      scriptedLedger.held (unluckyStart.attempt settledStore scriptedPort.audited).1.cp.cp
        ⟨"m", [1], poolTarget, "public", "r"⟩ .writeback = 2 := by
  have hstart : Reach (move settledStore scriptedPort)
      (Starts scriptedLedger (.opened "q" "n" "m" "r" [([1], []), ([1], [])])) (Apart scriptedLedger)
      unluckyStart :=
    .start ⟨rfl, rfl, fun _ _ => rfl⟩
  have hreach := hstart.next (o := PutEndMove.attempt) trivial
  have hheld := (putend_refs_honest scriptedLedger "q" "n" "m" "r" _ hreach).1 ⟨"m", [1], poolTarget, "public", "r"⟩
  exact ⟨rfl, hheld.trans (by decide)⟩

end Committing

end LakeKv
