import LakeKv.CommitOutcomes
import LakeKv.DurablePuts

namespace LakeKv

open Finmap List TierStore

namespace LocalTierEngine

variable {e e' e₁ e₂ : LocalTierEngine} {h x : Flat} {bytes y : Bytes} {demoted more : List Flat}

def asStore : TierStore LocalTierEngine where
  putDurable h bytes e := ((e.putDurable h bytes).1, (e.putDurable h bytes).2.map fun r => r.2.l2DemotedToL3)
  isSettled e h := e.isSettled h
  isL2Durable e h := e.isL2Durable h
  l2Placement e h := (e.l2Placement h).map fun place => (place.segmentId, place.offset)
  l3Present e h := e.l3Present h
  pin h e := e.pin h
  unpin h e := e.unpin h
  discardSettled h e := e.discardSettled h

/-- The copies of a block on L2 and on L3. -/
def copies (e : LocalTierEngine) (x : Flat) : Option Bytes × Option Bytes :=
  (e.l2.lookup x, e.l3.lookup x)

/-- What a put leaves of the copies of a block. The put block has the new bytes on L2. A block that is moved leaves L2,
and a copy that it has on L3 stays. -/
def afterPut (x h : Flat) (bytes : Bytes) (moved : List Flat) (held : Option Bytes × Option Bytes) :
    Option Bytes × Option Bytes :=
  let onL2 := if x = h then some bytes else held.1
  if moved.contains x then (none, held.2.or onL2) else (onL2, held.2)

namespace SettlesL2

variable (step : SettlesL2 e h bytes e' demoted)
include step

theorem copies (x : Flat) : e'.copies x = afterPut x h bytes demoted (e.copies x) := by
  have of : ∀ {moved e'}, Demotes e h bytes moved e' → e'.copies x = afterPut x h bytes moved (e.copies x) := by
    intro moved e' demotes
    unfold LocalTierEngine.copies afterPut
    rw [demotes.l2, demotes.l3, lookup_insert_if]
    by_cases on : x ∈ moved <;> simp [on]
  cases step with
  | stays room => exact of (.none e _ _)
  | swaps full absent on loose =>
    refine of (.one ?_)
    rw [l2_enterL2]
    exact mem_insert.mpr (.inr (mem_of_lookup_eq_some on))
  | passes full absent pinned loose relaid =>
    unfold LocalTierEngine.copies afterPut
    rw [lookup_keepL3_if]
    by_cases same : x = h
    · cases same
      simp [lookup_eq_none.mpr absent]
    · simp [same]

theorem demoted_mem (moved : x ∈ demoted) : x ∈ e.l2 ∨ x = h := by
  cases step with
  | stays room => cases moved
  | swaps full absent on loose =>
    cases mem_singleton.mp moved
    exact .inl (mem_of_lookup_eq_some on)
  | passes full absent pinned loose relaid => exact .inr (mem_singleton.mp moved)

theorem mem_l2 (x : Flat) : x ∈ e'.l2 ↔ (x ∈ e.l2 ∨ x = h) ∧ x ∉ demoted := by
  have now : e'.l2.lookup x = _ := congrArg Prod.fst (step.copies x)
  rw [← lookup_isSome, now]
  unfold afterPut
  by_cases moved : x ∈ demoted
  · simp [moved]
  · rw [if_neg (mt contains_iff_mem.mp moved), and_iff_left moved]
    split
    next same => exact iff_of_true rfl (.inr same)
    next other => exact lookup_isSome.trans (or_iff_left other).symm

theorem mem_l3 (x : Flat) : x ∈ e'.l3 ↔ x ∈ e.l3 ∨ x ∈ demoted := by
  have now : e'.l3.lookup x = _ := congrArg Prod.snd (step.copies x)
  rw [← lookup_isSome, now]
  unfold afterPut
  by_cases moved : x ∈ demoted
  · have on : (if x = h then some bytes else e.l2.lookup x).isSome = true := by
      split
      · rfl
      next other => exact lookup_isSome.mpr ((step.demoted_mem moved).resolve_right other)
    simp [moved, LocalTierEngine.copies, on]
  · simp [moved, LocalTierEngine.copies, lookup_isSome]

theorem pins_caps : e'.pins = e.pins ∧ e'.caps = e.caps := by
  cases step with
  | stays room =>
    rw [enterL2_eq]
    exact ⟨rfl, rfl⟩
  | swaps full absent on loose =>
    rw [swap_eq on absent]
    exact ⟨rfl, rfl⟩
  | passes full absent pinned loose relaid => exact ⟨rfl, rfl⟩

end SettlesL2

/-- Blocks are put one after another, and each is settled. The blocks that went to L3 are listed. -/
inductive Flushes : LocalTierEngine → List PendingBlock → LocalTierEngine → List Flat → Prop
  | nil {e : LocalTierEngine} : Flushes e [] e []
  | cons {e e₁ e₂ : LocalTierEngine} {b : PendingBlock} {bs : List PendingBlock} {demoted more : List Flat}
      (step : SettlesL2 e b.id.blockHash b.bytes e₁ demoted) (rest : Flushes e₁ bs e₂ more) :
      Flushes e (b :: bs) e₂ (demoted ++ more)

def hashesOf (blocks : List PendingBlock) : List Flat :=
  blocks.map fun b => b.id.blockHash

namespace Flushes

variable {blocks : List PendingBlock}

variable (flushes : Flushes e blocks e' demoted)
include flushes

theorem keeps (sound : e.Sound) : e'.Sound ∧ ∀ x, e.isSettled x = true → e'.isSettled x = true := by
  induction flushes with
  | nil => exact ⟨sound, fun _ => id⟩
  | @cons e e₁ e₂ b bs demoted more step rest ih =>
    have one : Keeps (fun _ _ => True) e.Roomy e e₁ := .settles sound trivial step
    obtain ⟨sound', settled⟩ := ih one.sound
    exact ⟨sound', fun x on => settled x (one.settled x on)⟩

theorem pins : e'.pins = e.pins := by
  induction flushes with
  | nil => rfl
  | cons step rest ih => exact ih.trans step.pins_caps.1

theorem pinCount (x : Flat) : e'.pinCount x = e.pinCount x := by
  unfold LocalTierEngine.pinCount
  rw [flushes.pins]

end Flushes

theorem Sound.flushOne_cases (sound : e.Sound) (b : PendingBlock) :
    (∃ e' demoted, SettlesL2 e b.id.blockHash b.bytes e' demoted ∧
        ∀ before, asStore.flushOne (e, before) b = ((e', before ++ demoted), .ok ())) ∨
      ∃ e' msg, RefusesL2 e b.id.blockHash e' ∧
        ∀ before, asStore.flushOne (e, before) b = ((e', before), .error msg) := by
  rcases sound.putDurable_cases b.id.blockHash b.bytes with ⟨e', tier, demoted, step, eq⟩ | ⟨e', msg, refused, eq⟩
  · refine .inl ⟨e', demoted, step, fun before => ?_⟩
    have put : asStore.putDurable b.id.blockHash b.bytes e = (e', .ok demoted) := by
      change ((e.putDurable b.id.blockHash b.bytes).1, _) = _
      rw [eq]
      rfl
    have settled : asStore.isSettled e' b.id.blockHash = true := step.settled
    unfold flushOne
    rw [put]
    dsimp only
    rw [if_pos settled]
  · refine .inr ⟨e', msg, refused, fun before => ?_⟩
    have put : asStore.putDurable b.id.blockHash b.bytes e = (e', .error msg) := by
      change ((e.putDurable b.id.blockHash b.bytes).1, _) = _
      rw [eq]
      rfl
    unfold flushOne
    rw [put]

theorem Sound.flush_cases (sound : e.Sound) (blocks : List PendingBlock) :
    (∃ e' demoted, Flushes e blocks e' demoted ∧ asStore.flush e blocks = ((e', demoted), .ok ())) ∨
      ∃ done b rest e₁ e' demoted msg, blocks = done ++ b :: rest ∧ Flushes e done e₁ demoted ∧
        RefusesL2 e₁ b.id.blockHash e' ∧ asStore.flush e blocks = ((e', demoted), .error msg) := by
  -- the loop starts with what earlier blocks have moved
  have loop : ∀ (blocks : List PendingBlock) (e : LocalTierEngine) (before : List Flat), e.Sound →
      (∃ e' demoted, Flushes e blocks e' demoted ∧
          runAll asStore.flushOne (e, before) blocks = ((e', before ++ demoted), .ok ())) ∨
        ∃ done b rest e₁ e' demoted msg, blocks = done ++ b :: rest ∧ Flushes e done e₁ demoted ∧
          RefusesL2 e₁ b.id.blockHash e' ∧
            runAll asStore.flushOne (e, before) blocks = ((e', before ++ demoted), .error msg) := by
    intro blocks
    induction blocks with
    | nil =>
      intro e before sound
      refine .inl ⟨e, [], .nil, ?_⟩
      rw [append_nil]
      rfl
    | cons b blocks ih =>
      intro e before sound
      rcases sound.flushOne_cases b with ⟨e₁, demoted, step, eq⟩ | ⟨e', msg, refused, eq⟩
      · have keeps : Keeps (fun _ _ => True) e.Roomy e e₁ := .settles sound trivial step
        rw [runAll_cons_ok (eq before)]
        rcases ih e₁ (before ++ demoted) keeps.sound with ⟨e', more, rest, eq'⟩ |
          ⟨done, b', rest, e₂, e', more, msg, split, first, refused, eq'⟩
        · refine .inl ⟨e', demoted ++ more, .cons step rest, ?_⟩
          rw [eq', append_assoc]
        · refine .inr ⟨b :: done, b', rest, e₂, e', demoted ++ more, msg, ?_, .cons step first, refused, ?_⟩
          · rw [split]
            rfl
          · rw [eq', append_assoc]
      · refine .inr ⟨[], b, blocks, e, e', [], msg, rfl, .nil, refused, ?_⟩
        rw [runAll_cons_error (eq before), append_nil]
  exact loop blocks e [] sound

theorem pinCount_pin (e : LocalTierEngine) (h x : Flat) :
    (e.pin h).pinCount x = if x = h then u32 (e.pinCount h + 1) else e.pinCount x := by
  unfold pinCount pin
  dsimp only
  rw [lookup_insert_if]
  split <;> rfl

theorem pinCount_unpin (e : LocalTierEngine) (h x : Flat) :
    (e.unpin h).1.pinCount x = if x = h then e.pinCount h - 1 else e.pinCount x := by
  unfold unpin
  cases found : e.pins.lookup h with
  | none =>
    have zero : e.pinCount h = 0 := by simp [pinCount, found]
    by_cases same : x = h
    · rw [if_pos same, zero, same]
      exact zero
    · rw [if_neg same]
  | some c =>
    have count : e.pinCount h = c := by simp [pinCount, found]
    rw [count]
    unfold pinCount
    dsimp only
    by_cases last : c - 1 = 0
    · rw [if_pos last]
      by_cases same : x = h
      · subst same
        rw [if_pos rfl, lookup_erase, last]
        rfl
      · rw [if_neg same, lookup_erase_ne same]
    · rw [if_neg last, lookup_insert_if]
      split <;> rfl

variable {hs : List Flat}

theorem pinCount_pinAll (fits : ∀ x ∈ hs, e.pinCount x + hs.count x < 2 ^ 32) (x : Flat) :
    (asStore.pinAll e hs).pinCount x = e.pinCount x + hs.count x := by
  induction hs generalizing e with
  | nil => rfl
  | cons h hs ih =>
    have one := pinCount_pin e h
    have here : u32 (e.pinCount h + 1) = e.pinCount h + 1 := by
      have := fits h mem_cons_self
      rw [count_cons_self] at this
      exact Nat.mod_eq_of_lt (by omega)
    have rest : ∀ x ∈ hs, (e.pin h).pinCount x + hs.count x < 2 ^ 32 := by
      intro x mem
      have bound := fits x (mem_cons_of_mem h mem)
      rw [one x]
      by_cases same : x = h
      · subst same
        rw [count_cons_self] at bound
        rw [if_pos rfl, here]
        omega
      · rw [count_cons_of_ne (Ne.symm same)] at bound
        rw [if_neg same]
        exact bound
    have after : (asStore.pinAll (e.pin h) hs).pinCount x = (e.pin h).pinCount x + hs.count x := ih rest
    change (asStore.pinAll (e.pin h) hs).pinCount x = _
    rw [after, one x]
    by_cases same : x = h
    · subst same
      rw [if_pos rfl, here, count_cons_self]
      omega
    · rw [if_neg same, count_cons_of_ne (Ne.symm same)]

theorem pinCount_releaseAll (e : LocalTierEngine) (hs : List Flat) (x : Flat) :
    (asStore.releaseAll e hs).pinCount x = e.pinCount x - hs.count x := by
  induction hs generalizing e with
  | nil => rfl
  | cons h hs ih =>
    change (asStore.releaseAll (e.unpin h).1 hs).pinCount x = _
    rw [ih, pinCount_unpin]
    by_cases same : x = h
    · subst same
      rw [if_pos rfl, count_cons_self]
      omega
    · rw [if_neg same, count_cons_of_ne (Ne.symm same)]

theorem unpinEach_eq (enough : ∀ x ∈ hs, hs.count x ≤ e.pinCount x) :
    asStore.unpinEach e hs = (asStore.releaseAll e hs, .ok ()) := by
  induction hs generalizing e with
  | nil => rfl
  | cons h hs ih =>
    have passes : asStore.unpin h e = ((e.unpin h).1, .ok ()) := by
      have held := enough h mem_cons_self
      rw [count_cons_self] at held
      change e.unpin h = _
      unfold unpin
      unfold pinCount at held
      cases found : e.pins.lookup h with
      | none =>
        rw [found] at held
        simp at held
      | some c => rfl
    have rest : ∀ x ∈ hs, hs.count x ≤ (e.unpin h).1.pinCount x := by
      intro x mem
      have bound := enough x (mem_cons_of_mem h mem)
      rw [pinCount_unpin]
      by_cases same : x = h
      · subst same
        rw [count_cons_self] at bound
        rw [if_pos rfl]
        omega
      · rw [count_cons_of_ne (Ne.symm same)] at bound
        rw [if_neg same]
        exact bound
    rw [unpinEach, runAll_cons_ok passes]
    exact ih rest

structure SamePlaces (e e' : LocalTierEngine) : Prop where
  l2 : e'.l2 = e.l2
  l3 : e'.l3 = e.l3

theorem samePlaces_pinAll (e : LocalTierEngine) (hs : List Flat) : e.SamePlaces (asStore.pinAll e hs) := by
  induction hs generalizing e with
  | nil => exact ⟨rfl, rfl⟩
  | cons h hs ih => exact ⟨(ih (e.pin h)).l2, (ih (e.pin h)).l3⟩

theorem unpin_places (e : LocalTierEngine) (h : Flat) : e.SamePlaces (e.unpin h).1 := by
  unfold unpin
  split <;> exact ⟨rfl, rfl⟩

theorem samePlaces_releaseAll (e : LocalTierEngine) (hs : List Flat) : e.SamePlaces (asStore.releaseAll e hs) := by
  induction hs generalizing e with
  | nil => exact ⟨rfl, rfl⟩
  | cons h hs ih =>
    have first := unpin_places e h
    have rest := ih (e.unpin h).1
    exact ⟨rest.l2.trans first.l2, rest.l3.trans first.l3⟩

theorem pinCount_released (fits : ∀ x ∈ hs, e.pinCount x + hs.count x < 2 ^ 32) (x : Flat) :
    (asStore.releaseAll (asStore.pinAll e hs) hs).pinCount x = e.pinCount x := by
  rw [pinCount_releaseAll, pinCount_pinAll fits]
  omega

/-- What throwing blocks away leaves: nothing of them, and the rest as it was. -/
structure Dropped (e : LocalTierEngine) (hs : List Flat) (e' : LocalTierEngine) : Prop where
  l2 : ∀ x, e'.l2.lookup x = if x ∈ hs then none else e.l2.lookup x
  l3 : ∀ x, e'.l3.lookup x = if x ∈ hs then none else e.l3.lookup x
  pins : ∀ x, e'.pinCount x = if x ∈ hs then 0 else e.pinCount x

theorem dropped_one (e : LocalTierEngine) (h : Flat) : Dropped e [h] ((e.unpin h).1.discardSettled h) := by
  have first := unpin_places e h
  have erased : ∀ {m m' : TierMap}, m' = m → ∀ x, (m'.erase h).lookup x = if x ∈ [h] then none else m.lookup x := by
    rintro m m' rfl x
    by_cases same : x = h
    · subst same
      simp
    · simp [same, lookup_erase_ne same]
  refine ⟨erased first.l2, erased first.l3, ?_⟩
  intro x
  have count := pinCount_unpin e h x
  unfold pinCount at count ⊢
  by_cases same : x = h
  · subst same
    rw [if_pos mem_cons_self]
    change (((e.unpin x).1.pins.erase x).lookup x).getD 0 = 0
    rw [lookup_erase]
    rfl
  · rw [if_neg same] at count
    rw [if_neg (by simpa using same)]
    change (((e.unpin h).1.pins.erase h).lookup x).getD 0 = _
    rw [lookup_erase_ne same]
    exact count

theorem Dropped.trans {hs hs' : List Flat} (first : Dropped e hs e₁) (second : Dropped e₁ hs' e₂) :
    Dropped e (hs ++ hs') e₂ := by
  have join : ∀ {α : Type} (x : Flat) (a b : α),
      (if x ∈ hs' then a else if x ∈ hs then a else b) = if x ∈ hs ++ hs' then a else b := by
    intro α x a b
    simp only [mem_append]
    by_cases mem : x ∈ hs <;> by_cases mem' : x ∈ hs' <;> simp [mem, mem']
  refine ⟨?_, ?_, ?_⟩ <;> intro x
  · rw [second.l2, first.l2, join]
  · rw [second.l3, first.l3, join]
  · rw [second.pins, first.pins, join]

theorem dropped_dropAll (e : LocalTierEngine) (hs : List Flat) : Dropped e hs (asStore.dropAll e hs) := by
  induction hs generalizing e with
  | nil => exact ⟨fun _ => rfl, fun _ => rfl, fun _ => rfl⟩
  | cons h hs ih => exact (dropped_one e h).trans (ih ((e.unpin h).1.discardSettled h))

section Moves

variable {blocks : List PendingBlock}

/-- L2 has room for the blocks without moving any. -/
def RoomFor (e : LocalTierEngine) (hs : List Flat) : Prop :=
  e.caps.l2 = 0 ∨ (e.l2.keys ∪ hs.toFinset).card ≤ e.caps.l2

instance (e : LocalTierEngine) (hs : List Flat) : Decidable (e.RoomFor hs) :=
  inferInstanceAs (Decidable (_ ∨ _))

theorem SettlesL2.stays_of_room (step : SettlesL2 e h bytes e' demoted) (mem : h ∈ hs)
    (room : e.RoomFor hs) : demoted = [] ∧ e'.RoomFor hs := by
  have full : e.caps.l2 ≠ 0 ∧ e.l2.len = e.caps.l2 → h ∈ e.l2 := by
    rintro ⟨bounded, full⟩
    have fits := room.resolve_left bounded
    have all : e.l2.keys = e.l2.keys ∪ hs.toFinset :=
      Finset.eq_of_subset_of_card_le Finset.subset_union_left (fits.trans full.ge)
    have : h ∈ e.l2.keys := by
      rw [all]
      exact Finset.mem_union_right _ (mem_toFinset.mpr mem)
    exact mem_keys.mp this
  have caps := step.pins_caps.2
  have on2 := step.mem_l2
  cases step with
  | stays _ =>
    refine ⟨rfl, ?_⟩
    have same : (e.enterL2 h bytes).l2.keys ∪ hs.toFinset = e.l2.keys ∪ hs.toFinset := by
      ext x
      simp only [Finset.mem_union, Finmap.mem_keys, mem_toFinset, on2, not_mem_nil, not_false_eq_true, and_true]
      constructor
      · rintro ((on | rfl) | own)
        · exact .inl on
        · exact .inr mem
        · exact .inr own
      · rintro (on | own)
        · exact .inl (.inl on)
        · exact .inr own
    unfold RoomFor
    rw [caps, same]
    exact room
  | swaps full' absent on loose | passes full' absent pinned loose relaid => exact absurd (full full') absent

namespace Flushes

variable (flushes : Flushes e blocks e' demoted)
include flushes

theorem demoted_nil (own : ∀ h ∈ hashesOf blocks, h ∈ hs) (room : e.RoomFor hs) : demoted = [] := by
  induction flushes with
  | nil => rfl
  | @cons e e₁ e₂ b bs demoted more step rest ih =>
    obtain ⟨rfl, room₁⟩ := step.stays_of_room (own _ mem_cons_self) room
    exact ih (fun h mem => own h (mem_cons_of_mem _ mem)) room₁

theorem foreign (out : x ∉ hashesOf blocks) :
    (x ∈ e'.l2 ↔ x ∈ e.l2 ∧ x ∉ demoted) ∧ (x ∈ e'.l3 ↔ x ∈ e.l3 ∨ x ∈ demoted) := by
  induction flushes with
  | nil => simp
  | @cons e e₁ e₂ b bs demoted more step rest ih =>
    have ne : x ≠ b.id.blockHash := ne_of_not_mem_cons out
    obtain ⟨on2, on3⟩ := ih (not_mem_of_not_mem_cons out)
    have one2 : x ∈ e₁.l2 ↔ x ∈ e.l2 ∧ x ∉ demoted := by
      rw [step.mem_l2 x, or_iff_left ne]
    have one3 := step.mem_l3 x
    rw [on2, on3, one2, one3, mem_append, not_or, and_assoc, or_assoc]
    exact ⟨Iff.rfl, Iff.rfl⟩

theorem demoted_mem (moved : x ∈ demoted) (out : x ∉ hashesOf blocks) : x ∈ e.l2 := by
  induction flushes with
  | nil => cases moved
  | @cons e e₁ e₂ b bs demoted more step rest ih =>
    have ne : x ≠ b.id.blockHash := ne_of_not_mem_cons out
    rcases mem_append.mp moved with moved | moved
    · exact (step.demoted_mem moved).resolve_right ne
    · have on := ih moved (not_mem_of_not_mem_cons out)
      exact (((step.mem_l2 x).mp on).1).resolve_right ne

theorem settled (sound : e.Sound) (own : x ∈ hashesOf blocks) : e'.isSettled x = true := by
  induction flushes with
  | nil => cases own
  | @cons e e₁ e₂ b bs demoted more step rest ih =>
    have one : Keeps (fun _ _ => True) e.Roomy e e₁ := .settles sound trivial step
    rcases mem_cons.mp own with rfl | own
    · exact (rest.keeps one.sound).2 _ step.settled
    · exact ih one.sound own

end Flushes

theorem Sound.pinAll (sound : e.Sound) (hs : List Flat) : (asStore.pinAll e hs).Sound := by
  induction hs generalizing e with
  | nil => exact sound
  | cons h hs ih => exact ih (sound.act (.pin h))

theorem Sound.releaseAll (sound : e.Sound) (hs : List Flat) : (asStore.releaseAll e hs).Sound := by
  induction hs generalizing e with
  | nil => exact sound
  | cons h hs ih => exact ih (sound.act (.unpin h))

theorem Sound.dropAll (sound : e.Sound) (hs : List Flat) : (asStore.dropAll e hs).Sound := by
  induction hs generalizing e with
  | nil => exact sound
  | cons h hs ih => exact ih ((sound.act (.unpin h)).act (.discardSettled h))

end Moves

end LocalTierEngine

end LakeKv
