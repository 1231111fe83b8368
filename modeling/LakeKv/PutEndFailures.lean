import LakeKv.TierFlush

namespace LakeKv

open Finmap List

namespace LocalTierEngine

variable {e e' e₁ : LocalTierEngine} {s : PutEndSession} {demoted : List Flat} {h : Flat} {x : Bytes}

/-- The bytes that a settled block has: those on L2, or else those on L3. -/
def settledBytes (e : LocalTierEngine) (h : Flat) : Option Bytes :=
  (e.l2.lookup h).or (e.l3.lookup h)

/-- What a failed PutEnd should leave alone: what was settled is settled with the same bytes, and the pins are as they
were. -/
structure Undamaged (e e' : LocalTierEngine) : Prop where
  bytes : ∀ h x, e.settledBytes h = some x → e'.settledBytes h = some x
  pins : ∀ h, e'.pinCount h = e.pinCount h

def Fresh (e : LocalTierEngine) (hs : List Flat) : Prop :=
  ∀ h ∈ hs, e.isSettled h = false ∧ e.pinCount h = 0

instance (e : LocalTierEngine) (hs : List Flat) : Decidable (e.Fresh hs) :=
  inferInstanceAs (Decidable (∀ h ∈ hs, _))

theorem isSettled_congr (same : e.SamePlaces e') (h : Flat) : e'.isSettled h = e.isSettled h := by
  unfold isSettled
  rw [same.l2, same.l3]

theorem SamePlaces.trans (first : e.SamePlaces e₁) (second : e₁.SamePlaces e') : e.SamePlaces e' :=
  ⟨second.l2.trans first.l2, second.l3.trans first.l3⟩

theorem settledBytes_congr (same : e.SamePlaces e') (h : Flat) : e'.settledBytes h = e.settledBytes h := by
  unfold settledBytes
  rw [same.l2, same.l3]

theorem settledBytes_none_iff : e.settledBytes h = none ↔ e.isSettled h = false := by
  unfold settledBytes isSettled
  rw [Option.or_eq_none_iff, lookup_eq_none, lookup_eq_none]
  simp

/-- The puts of a flush, each with the blocks that it moves to L3. A refused one ends it. -/
def puts (e : LocalTierEngine) : List PendingBlock → List (PendingBlock × List Flat)
  | [] => []
  | b :: bs =>
    let put := asStore.flushOne (e, []) b
    if put.2.isOk then (b, put.1.2) :: puts put.1.1 bs else []

/-- The copies of a block after the puts, one by one. -/
def afterPuts (h : Flat) : Option Bytes × Option Bytes → List (PendingBlock × List Flat) → Option Bytes × Option Bytes :=
  foldl fun held put => afterPut h put.1.id.blockHash put.1.bytes put.2 held

def bytesAfter (e : LocalTierEngine) (s : PutEndSession) (h : Flat) : Option Bytes :=
  let held := afterPuts h (e.copies h) (e.puts s.blocks)
  held.1.or held.2

/-- The puts leave every settled block its bytes. -/
def FlushKeeps (e : LocalTierEngine) (s : PutEndSession) : Prop :=
  ∀ h x, e.settledBytes h = some x → e.bytesAfter s h = some x

theorem copies_runAll (sound : e.Sound) (bs : List PendingBlock) (before : List Flat) (h : Flat) :
    (runAll asStore.flushOne (e, before) bs).1.1.copies h = afterPuts h (e.copies h) (e.puts bs) := by
  induction bs generalizing e before with
  | nil => rfl
  | cons b bs ih =>
    unfold puts
    rcases sound.flushOne_cases b with ⟨e₁, demoted, step, eq⟩ | ⟨e', msg, refused, eq⟩
    · have keeps : Keeps (fun _ _ => True) e.Roomy e e₁ := .settles sound trivial step
      rw [runAll_cons_ok (eq before), eq [], ih keeps.sound, step.copies]
      rfl
    · rw [runAll_cons_error (eq before), eq []]
      obtain ⟨a, -, rfl⟩ := refused.relaid
      rfl

theorem settledBytes_flush (sound : e.Sound) (h : Flat) :
    (asStore.flush e s.blocks).1.1.settledBytes h = e.bytesAfter s h :=
  congrArg (fun held : Option Bytes × Option Bytes => held.1.or held.2) (copies_runAll sound s.blocks [] h)

/-- Every copy of a block has the same bytes: on L2, on L3 and in the session. -/
def Agrees (e : LocalTierEngine) (s : PutEndSession) : Prop :=
  ∀ h x, e.settledBytes h = some x → (∀ y, e.l3.lookup h = some y → y = x) ∧
    ∀ b ∈ s.blocks, b.id.blockHash = h → b.bytes = x

theorem mem_puts {bs : List PendingBlock} {p : PendingBlock × List Flat} (mem : p ∈ e.puts bs) : p.1 ∈ bs := by
  induction bs generalizing e with
  | nil => cases mem
  | cons b bs ih =>
    unfold puts at mem
    dsimp only at mem
    split at mem
    · rcases mem_cons.mp mem with rfl | mem
      · exact mem_cons_self
      · exact mem_cons_of_mem b (ih mem)
    · cases mem

/-- The block is settled with the bytes `x`, and a copy on L3 has them too. -/
def Uniform (x : Bytes) (held : Option Bytes × Option Bytes) : Prop :=
  held.1.or held.2 = some x ∧ ∀ y, held.2 = some y → y = x

theorem Uniform.afterPut {k : Flat} {bytes : Bytes} (own : k = h → bytes = x) (moved : List Flat)
    {held : Option Bytes × Option Bytes} (holds : Uniform x held) : Uniform x (afterPut h k bytes moved held) := by
  obtain ⟨l2, l3⟩ := held
  obtain ⟨settled, onL3⟩ := holds
  unfold Uniform LocalTierEngine.afterPut
  by_cases same : h = k
  · rw [if_pos same, own same.symm]
    cases l3 <;> by_cases here : h ∈ moved <;> simp_all
  · rw [if_neg same]
    cases l2 <;> cases l3 <;> by_cases here : h ∈ moved <;> simp_all

theorem flushKeeps_of_agrees (agrees : e.Agrees s) : e.FlushKeeps s := by
  intro h x found
  obtain ⟨onL3, own⟩ := agrees h x found
  have first : Uniform x (e.copies h) := ⟨found, onL3⟩
  exact (foldlRecOn (e.puts s.blocks) _ first fun _ holds put mem => holds.afterPut (own put.1 (mem_puts mem)) put.2).1

theorem pinCount_flush (sound : e.Sound) (s : PutEndSession) (h : Flat) :
    (asStore.flush e s.blocks).1.1.pinCount h = e.pinCount h := by
  rcases sound.flush_cases s.blocks with ⟨e', demoted, flushes, flush⟩ | ⟨done, b, rest, e₁, e', demoted, msg, split, first, refused, flush⟩
  · rw [flush]
    exact flushes.pinCount h
  · rw [flush]
    obtain ⟨a, -, rfl⟩ := refused.relaid
    exact first.pinCount h

theorem pinCount_pinAll_of_notMem {hs : List Flat} (e : LocalTierEngine) (out : h ∉ hs) :
    (asStore.pinAll e hs).pinCount h = e.pinCount h := by
  induction hs generalizing e with
  | nil => rfl
  | cons x hs ih =>
    change (asStore.pinAll (e.pin x) hs).pinCount h = _
    rw [ih (e.pin x) (not_mem_of_not_mem_cons out), pinCount_pin, if_neg (ne_of_not_mem_cons out)]

variable {P : Type} {C : ControlPlanePort P} {cp cp' : P} {result : Except String Unit} {msg : String}

/-- The control plane lets the session pass until `register_blocks`, which it refuses. -/
def RefusesRegistration (C : ControlPlanePort P) (s : PutEndSession) (e : LocalTierEngine) (cp : P) : Prop :=
  ∃ cp₁ cp₂ cp₃ f msg, C.admitRegisterBlocks (s.registerRequest asStore e) cp = (cp₁, .ok ()) ∧
    asStore.flush e s.blocks = (f, .ok ()) ∧ runAll (C.publishMoved s) cp₁ f.2 = (cp₂, .ok ()) ∧
    C.registerBlocks (s.registerRequest asStore (asStore.pinAll f.1 s.hashes)) cp₂ = (cp₃, .error msg)

section

variable (sound : e.Sound)
include sound

theorem undamaged_flush_iff : Undamaged e (asStore.flush e s.blocks).1.1 ↔ e.FlushKeeps s :=
  ⟨fun same h x found => (settledBytes_flush sound h).symm.trans (same.bytes h x found), fun keeps =>
    ⟨fun h x found => (settledBytes_flush sound h).trans (keeps h x found), pinCount_flush sound s⟩⟩

variable (few : ∀ h ∈ s.hashes, e.pinCount h + s.hashes.count h < 2 ^ 32)
include few

theorem undamaged_released_iff {f : LocalTierEngine × List Flat} (flush : asStore.flush e s.blocks = (f, .ok ())) :
    Undamaged e (asStore.releaseAll (asStore.pinAll f.1 s.hashes) s.hashes) ↔ e.FlushKeeps s := by
  have fits : ∀ h ∈ s.hashes, f.1.pinCount h + s.hashes.count h < 2 ^ 32 := by
    intro h mem
    have pins := pinCount_flush sound s h
    rw [flush] at pins
    rw [pins]
    exact few h mem
  have same := (samePlaces_pinAll f.1 s.hashes).trans (samePlaces_releaseAll (asStore.pinAll f.1 s.hashes) s.hashes)
  rw [← undamaged_flush_iff sound, flush]
  constructor
  · refine fun h => ⟨fun x b found => ?_, fun x => ?_⟩
    · rw [← settledBytes_congr same]
      exact h.bytes x b found
    · rw [← pinCount_released fits]
      exact h.pins x
  · refine fun h => ⟨fun x b found => ?_, fun x => ?_⟩
    · rw [settledBytes_congr same]
      exact h.bytes x b found
    · rw [pinCount_released fits]
      exact h.pins x

omit few in
theorem undamaged_dropped_iff {f : LocalTierEngine × List Flat} (flush : asStore.flush e s.blocks = (f, .ok ()))
    (gone : Dropped (asStore.pinAll f.1 s.hashes) s.hashes e') :
    Undamaged e e' ↔ e.FlushKeeps s ∧ e.Fresh s.hashes := by
  have pinned := samePlaces_pinAll f.1 s.hashes
  have inside : ∀ h ∈ s.hashes, e'.settledBytes h = none := by
    intro h mem
    unfold settledBytes
    rw [gone.l2, gone.l3, if_pos mem, if_pos mem]
    rfl
  have outside : ∀ h, h ∉ s.hashes → e'.settledBytes h = e.bytesAfter s h := by
    intro h out
    rw [← settledBytes_flush sound, flush]
    unfold settledBytes
    rw [gone.l2, gone.l3, if_neg out, if_neg out, pinned.l2, pinned.l3]
  constructor
  · intro same
    have fresh : e.Fresh s.hashes := by
      intro h mem
      constructor
      · rw [← settledBytes_none_iff]
        cases found : e.settledBytes h with
        | none => rfl
        | some x => cases (inside h mem).symm.trans (same.bytes h x found)
      · rw [← same.pins h, gone.pins, if_pos mem]
    refine ⟨fun h x found => ?_, fresh⟩
    by_cases mem : h ∈ s.hashes
    · cases (settledBytes_none_iff.mpr (fresh h mem).1).symm.trans found
    · exact (outside h mem).symm.trans (same.bytes h x found)
  · rintro ⟨keeps, fresh⟩
    constructor
    · intro h x found
      by_cases mem : h ∈ s.hashes
      · cases (settledBytes_none_iff.mpr (fresh h mem).1).symm.trans found
      · exact (outside h mem).trans (keeps h x found)
    · intro h
      have pins := pinCount_flush sound s h
      rw [flush] at pins
      rw [gone.pins]
      by_cases mem : h ∈ s.hashes
      · rw [if_pos mem, (fresh h mem).2]
      · rw [if_neg mem, pinCount_pinAll_of_notMem f.1 mem]
        exact pins

/-- The condition, outcome by outcome. -/
theorem Outcome.undamaged_iff (ends : Outcome asStore C s e cp e' cp' result) (failed : result = .error msg) :
    Undamaged e e' ↔ (C.admitRegisterBlocks (s.registerRequest asStore e) cp).2 ≠ .ok () ∨
      (e.FlushKeeps s ∧ (RefusesRegistration C s e cp → e.Fresh s.hashes)) := by
  -- after an admission, and with the registration refused or not, one side of the condition is left
  have passed : ∀ {cp₁}, C.admitRegisterBlocks (s.registerRequest asStore e) cp = (cp₁, .ok ()) →
      ¬ (C.admitRegisterBlocks (s.registerRequest asStore e) cp).2 ≠ .ok () := by
    intro cp₁ admission
    rw [admission]
    exact not_not.mpr rfl
  have kept : ∀ {cp₁}, C.admitRegisterBlocks (s.registerRequest asStore e) cp = (cp₁, .ok ()) →
      ¬ RefusesRegistration C s e cp → ((C.admitRegisterBlocks (s.registerRequest asStore e) cp).2 ≠ .ok () ∨
        (e.FlushKeeps s ∧ (RefusesRegistration C s e cp → e.Fresh s.hashes)) ↔ e.FlushKeeps s) := by
    intro cp₁ admission registered
    rw [or_iff_right (passed admission), and_iff_left fun refused => absurd refused registered]
  cases ends with
  | unadmitted admission =>
    refine iff_of_true ⟨fun _ _ => id, fun _ => rfl⟩ (.inl ?_)
    rw [admission]
    exact nofun
  | unflushed admission flush =>
    rw [kept admission]
    · have whole := undamaged_flush_iff (s := s) sound
      rw [flush] at whole
      exact whole
    · rintro ⟨-, -, -, g, -, -, flush', -⟩
      cases flush.symm.trans flush'
  | unpublished admission flush publish =>
    rw [kept admission]
    · exact undamaged_released_iff sound few flush
    · rintro ⟨c₁, c₂, c₃, g, m, admission', flush', publish', -⟩
      cases flush.symm.trans flush'
      cases admission.symm.trans admission'
      cases publish.symm.trans publish'
  | unregistered admission flush publish register =>
    have refused : RefusesRegistration C s e cp := ⟨_, _, _, _, _, admission, flush, publish, register⟩
    rw [or_iff_right (passed admission), forall_prop_of_true refused]
    exact undamaged_dropped_iff sound flush (dropped_dropAll _ _)
  | undone admission flush publish register =>
    rw [kept admission]
    · exact undamaged_released_iff sound few flush
    · rintro ⟨c₁, c₂, c₃, g, m, admission', flush', publish', register'⟩
      cases flush.symm.trans flush'
      cases admission.symm.trans admission'
      cases publish.symm.trans publish'
      cases register.symm.trans register'
  | @finished cp₁ cp₂ cp₃ cp₄ f admission flush publish register =>
    have fits : ∀ x ∈ s.hashes, f.1.pinCount x + s.hashes.count x < 2 ^ 32 := by
      intro x mem
      have pins := pinCount_flush sound s x
      rw [flush] at pins
      rw [pins]
      exact few x mem
    have enough : ∀ x ∈ s.hashes, s.hashes.count x ≤ (asStore.pinAll f.1 s.hashes).pinCount x := by
      intro x mem
      rw [pinCount_pinAll fits]
      omega
    rw [unpinEach_eq enough] at failed
    cases failed

end

/-- A PutEnd that fails, with any control plane and whatever it answers, damages nothing if and only if admission was
refused, or the flush leaves the bytes of what was settled and, where the registration is refused, none of the
session's blocks was in the store or pinned before. The flush does so where hashes determine bytes. -/
theorem failed_putend (sound : e.Sound) (s : PutEndSession)
    (few : ∀ h ∈ s.hashes, e.pinCount h + s.hashes.count h < 2 ^ 32) {P : Type} (C : ControlPlanePort P) (cp : P)
    {msg : String} (failed : ((⟨s, e, cp⟩ : Committing LocalTierEngine P).attempt asStore C).2 = .error msg) :
    (Undamaged e ((⟨s, e, cp⟩ : Committing LocalTierEngine P).attempt asStore C).1.store ↔
      (C.admitRegisterBlocks (s.registerRequest asStore e) cp).2 ≠ .ok () ∨
        (e.FlushKeeps s ∧ (RefusesRegistration C s e cp → e.Fresh s.hashes))) ∧ (e.Agrees s → e.FlushKeeps s) :=
  ⟨Outcome.undamaged_iff sound few (Committing.attempt_ends asStore C ⟨s, e, cp⟩) failed, flushKeeps_of_agrees⟩

def refusing : ControlPlanePort Unit where
  admitRegisterBlocks _ cp := (cp, .ok ())
  registerBlocks _ cp := (cp, .error "rejected")
  reportRefs _ cp := (cp, .ok ())
  requestBarrier _ cp := (cp, .ok ())
  publishLocation _ _ _ _ _ _ _ cp := (cp, .ok ())
  setL3Present _ _ _ _ _ cp := (cp, .ok ())

def oneBlock (n : UInt8) : PutEndSession :=
  (PutEndSession.withRevision "r" "n" "m" "").putStart [n] [n]

/-- A block that is new to the store goes again when its registration is refused, and the other stays. -/
theorem failed_putend_new_block : Undamaged ((withCaps {}).act (letter 1))
      ((⟨oneBlock 2, (withCaps {}).act (letter 1), ()⟩ : Committing LocalTierEngine Unit).attempt asStore
        refusing).1.store := by
  have empty : (withCaps {}).Empty := ⟨{}, defaultSlotBytes, 64, 2, rfl⟩
  have sound : ((withCaps {}).act (letter 1)).Sound := empty.sound.act (letter 1)
  have fresh : ((withCaps {}).act (letter 1)).Fresh (oneBlock 2).hashes := by decide +kernel
  have few : ∀ h ∈ (oneBlock 2).hashes, ((withCaps {}).act (letter 1)).pinCount h + (oneBlock 2).hashes.count h < 2 ^ 32 := by
    decide +kernel
  have agrees : ((withCaps {}).act (letter 1)).Agrees (oneBlock 2) := by
    intro h x found
    refine ⟨fun y held => (by cases held), fun b mem same => ?_⟩
    cases mem_singleton.mp mem
    cases same
    cases found
  have main := failed_putend sound (oneBlock 2) few refusing () (by decide +kernel : _ = Except.error "rejected")
  exact main.1.mpr (.inr ⟨main.2 agrees, fun _ => fresh⟩)

/-- A block that was put and settled is put once more, and the registration is refused: it is gone. -/
theorem shared_block_lost : ((withCaps {}).act (letter 1)).isSettled [1] = true ∧
      ((⟨oneBlock 1, (withCaps {}).act (letter 1), ()⟩ : Committing LocalTierEngine Unit).attempt asStore
        refusing).2 = .error "rejected" ∧
      ((⟨oneBlock 1, (withCaps {}).act (letter 1), ()⟩ : Committing LocalTierEngine Unit).attempt asStore
        refusing).1.store.isSettled [1] = false := by
  decide +kernel

/-- A flush that fails at its second block has replaced the bytes of the first. -/
example :
    let e := (((withCaps { l2 := 1 }).act (letter 1)).pin [1]).pin [2]
    let s := ((PutEndSession.withRevision "r" "n" "m" "").putStart [1] [9]).putStart [2] [2]
    let done := (⟨s, e, ()⟩ : Committing LocalTierEngine Unit).attempt asStore refusing
    done.2.isOk = false ∧ e.settledBytes [1] = some [1] ∧ done.1.store.settledBytes [1] = some [9] := by
  decide +kernel

end LocalTierEngine

end LakeKv
