import LakeKv.TierRules

namespace LakeKv

open Finmap SegmentArena

namespace LocalTierEngine

open Recency

variable {ok : Flat → Bytes → Prop} {room : Prop} {e e' e'' : LocalTierEngine} {h v x : Flat}
  {bytes b : Bytes} {demoted : List Flat}

def Holds (e : LocalTierEngine) (x : Flat) (b : Bytes) : Prop :=
  e.l0.lookup x = some b ∨ e.l1.lookup x = some b ∨ e.l2.lookup x = some b ∨ e.l3.lookup x = some b

/-- Every block of L2 has its place in the layout, and new segments get new numbers. -/
structure Placed (e : LocalTierEngine) : Prop where
  below : e.l2Arena.Below
  all : ∀ h ∈ e.l2, h ∈ e.l2Arena.byHash

def Roomy (e : LocalTierEngine) : Prop :=
  e.l2Arena.nextSeg + 1 < 2 ^ 64

variable {f : LocalTierEngine}

theorem Laid.drops (laid : e.Laid) (l2 : f.l2 = e.l2.erase h) (arena : f.l2Arena = (e.l2Arena.free h).1) : f.Laid := by
  refine ⟨arena ▸ laid.arena.free h, ?_⟩
  rw [l2, arena, byHash_free]
  intro x placed
  obtain ⟨other, placed⟩ := mem_erase.mp placed
  exact mem_erase.mpr ⟨other, laid.onL2 x placed⟩

theorem Placed.drops (placed : e.Placed) (l2 : f.l2 = e.l2.erase h)
    (arena : f.l2Arena = (e.l2Arena.free h).1) : f.Placed := by
  refine ⟨arena ▸ placed.below.free h, ?_⟩
  rw [l2, arena, byHash_free]
  intro x on
  obtain ⟨other, on⟩ := mem_erase.mp on
  exact mem_erase.mpr ⟨other, placed.all x on⟩

/-- What every move of blocks keeps. New copies are copies of what was there, or as `ok` says; `room` is
what the layout needs. -/
structure Keeps (ok : Flat → Bytes → Prop) (room : Prop) (e e' : LocalTierEngine) : Prop where
  sound : e'.Sound
  copies : ∀ x b, e'.Holds x b → e.Holds x b ∨ ok x b
  settled : ∀ x, e.isSettled x = true → e'.isSettled x = true
  laid : e.Laid → e'.Laid
  placed : room → e.Laid → e.Placed → e'.Placed

namespace Keeps

theorem refl (sound : e.Sound) : Keeps ok room e e :=
  ⟨sound, fun _ _ => Or.inl, fun _ => id, id, fun _ _ => id⟩

theorem trans (first : Keeps ok room e e') (second : Keeps ok True e' e'') : Keeps ok room e e'' where
  sound := second.sound
  copies x b held := by
    rcases second.copies x b held with before | fine
    · exact first.copies x b before
    · exact .inr fine
  settled x before := second.settled x (first.settled x before)
  laid before := second.laid (first.laid before)
  placed free laid before := second.placed trivial (first.laid laid) (first.placed free laid before)

theorem flags (sound : e.Sound) (pins hitCounts : Map Flat Nat) (promoteAdmitAfter : Nat)
    (oneShot promoteInflight : Finset Flat) (stats : HitStats) :
    Keeps ok room e { e with pins, hitCounts, promoteAdmitAfter, oneShot, promoteInflight, stats } where
  sound := ⟨sound.order0, sound.order1, sound.order2, sound.cap0, sound.cap1, sound.cap2⟩
  copies _ _ := .inl
  settled _ := id
  laid before := ⟨before.arena, before.onL2⟩
  placed _ _ before := ⟨before.below, before.all⟩

variable {a : SegmentArena}

variable (sound : e.Sound)
include sound

theorem layout (consistent : e.Laid → a.Consistent)
    (same : e.Laid → ∀ x, x ∈ a.byHash ↔ x ∈ e.l2Arena.byHash) (below : room → e.Laid → e.l2Arena.Below → a.Below) :
    Keeps ok room e { e with l2Arena := a } where
  sound := ⟨sound.order0, sound.order1, sound.order2, sound.cap0, sound.cap1, sound.cap2⟩
  copies _ _ := .inl
  settled _ := id
  laid before := ⟨consistent before, fun x placed => before.onL2 x ((same before x).mp placed)⟩
  placed free laid before :=
    ⟨below free laid before.below, fun x on => (same laid x).mpr (before.all x on)⟩

theorem touchL0 (on : h ∈ e.l0) : Keeps ok room e { e with l0Order := e.l0Order.touch h } where
  sound := ⟨sound.order0.touch_of_mem (Finmap.mem_keys.mpr on), sound.order1, sound.order2, sound.cap0,
    sound.cap1, sound.cap2⟩
  copies _ _ := .inl
  settled _ := id
  laid before := ⟨before.arena, before.onL2⟩
  placed _ _ before := ⟨before.below, before.all⟩

theorem leaveL0 (h : Flat) : Keeps ok room e (e.leaveL0 h) where
  sound := by
    refine ⟨?_, sound.order1, sound.order2, ?_, sound.cap1, sound.cap2⟩
    · change Enumerates (e.l0Order.remove h) (e.l0.erase h).keys
      rw [keys_erase]
      exact sound.order0.remove h
    · intro bounded
      have cap := sound.cap0 bounded
      change (e.l0.erase h).keys.card ≤ e.caps.l0
      rw [keys_erase]
      exact (Finset.card_erase_le).trans cap
  copies x b held := by
    rcases held with held | held
    · exact .inl (.inl (lookup_erase_some held).2)
    · exact .inl (.inr held)
  settled _ := id
  laid before := ⟨before.arena, before.onL2⟩
  placed _ _ before := ⟨before.below, before.all⟩

theorem enterL0 (absent : h ∉ e.l0) (few : e.caps.l0 = 0 ∨ e.l0.len < e.caps.l0)
    (fine : ok h bytes) : Keeps ok room e { e with l0 := e.l0.insert h bytes, l0Order := e.l0Order.touch h } where
  sound := by
    refine ⟨?_, sound.order1, sound.order2, ?_, sound.cap1, sound.cap2⟩
    · change Enumerates (e.l0Order.touch h) (e.l0.insert h bytes).keys
      rw [keys_insert]
      exact sound.order0.touch h
    · intro bounded
      change TierMap.len (e.l0.insert h bytes) ≤ e.caps.l0
      rw [len_insert_of_notMem absent]
      have := few.resolve_left bounded
      omega
  copies x b held := by
    rcases held with held | held
    · dsimp only at held
      rcases lookup_insert_some held with ⟨rfl, rfl⟩ | ⟨-, held⟩
      · exact .inr fine
      · exact .inl (.inl held)
    · exact .inl (.inr held)
  settled _ := id
  laid before := ⟨before.arena, before.onL2⟩
  placed _ _ before := ⟨before.below, before.all⟩

theorem fillL1 (fine : ok h bytes) : Keeps ok room e (e.fillL1 h bytes) := by
  obtain ⟨l1, order, eq, listed, few, kept⟩ := sound.fillL1_eq h bytes
  rw [eq]
  refine ⟨⟨sound.order0, listed, sound.order2, sound.cap0, few, sound.cap2⟩, ?_, fun _ => id,
    fun before => ⟨before.arena, before.onL2⟩, fun _ _ before => ⟨before.below, before.all⟩⟩
  intro x b held
  rcases held with held | held | held
  · exact .inl (.inl held)
  · rcases kept x b held with held | ⟨rfl, rfl⟩
    · exact .inl (.inr (.inl held))
    · exact .inr fine
  · exact .inl (.inr (.inr held))

theorem stays (few : e.caps.l2 = 0 ∨ h ∈ e.l2 ∨ e.l2.len < e.caps.l2)
    (fine : ok h bytes) : Keeps ok e.Roomy e (e.enterL2 h bytes) := by
  have noted := fun laid : e.Laid => laid.noted h bytes
  have order := sound.order_entered h bytes
  have fits := (sound.fits_entered_iff h bytes).mpr few
  rw [enterL2_eq] at order fits ⊢
  refine ⟨⟨sound.order0, sound.order1, order, sound.cap0, sound.cap1, fits.resolve_left⟩, ?_, ?_, ?_, ?_⟩
  · intro x b held
    rcases held with held | held | held | held
    · exact .inl (.inl held)
    · exact .inl (.inr (.inl held))
    · dsimp only at held
      rcases lookup_insert_some held with ⟨rfl, rfl⟩ | ⟨-, held⟩
      · exact .inr fine
      · exact .inl (.inr (.inr (.inl held)))
    · exact .inl (.inr (.inr (.inr held)))
  · intro x before
    rcases settled_iff.mp before with on | on
    · exact settled_iff.mpr (.inl (mem_insert.mpr (.inr on)))
    · exact settled_iff.mpr (.inr on)
  · intro laid
    refine ⟨(noted laid).consistent, ?_⟩
    intro x placed
    rcases (noted laid).mem_cases placed with same | placed
    · exact mem_insert.mpr (.inl same)
    · exact mem_insert.mpr (.inr (laid.onL2 x placed))
  · intro roomy laid before
    refine ⟨(noted laid).below before.below roomy, ?_⟩
    intro x on
    rcases mem_insert.mp on with rfl | on
    · exact (noted laid).placed before.below
    · exact (noted laid).mem_of_mem (before.all x on)

theorem swaps {old : Bytes} (full : e.caps.l2 ≠ 0 ∧ e.l2.len = e.caps.l2)
    (absent : h ∉ e.l2) (on : e.l2.lookup v = some old) (fine : ok h bytes) :
    Keeps ok e.Roomy e ((e.enterL2 h bytes).moveToL3 v) := by
  have noted := fun laid : e.Laid => laid.noted h bytes
  have order := (sound.order2.touch h).remove v
  have mem : v ∈ e.l2 := mem_of_lookup_eq_some on
  rw [swap_eq on absent]
  refine ⟨⟨sound.order0, sound.order1, ?_, sound.cap0, sound.cap1, ?_⟩, ?_, ?_, ?_, ?_⟩
  · dsimp only
    rw [keys_erase, keys_insert]
    exact order
  · intro _
    have one : TierMap.len ((e.l2.insert h bytes).erase v) + 1 = TierMap.len (e.l2.insert h bytes) :=
      len_erase_of_mem (mem_insert.mpr (.inr mem))
    rw [len_insert_of_notMem absent] at one
    change TierMap.len ((e.l2.insert h bytes).erase v) ≤ e.caps.l2
    omega
  · intro x b held
    rcases held with held | held | held | held
    · exact .inl (.inl held)
    · exact .inl (.inr (.inl held))
    · have held := (lookup_erase_some held).2
      rcases lookup_insert_some held with ⟨rfl, rfl⟩ | ⟨-, held⟩
      · exact .inr fine
      · exact .inl (.inr (.inr (.inl held)))
    · rcases lookup_keepL3 held with held | ⟨rfl, rfl⟩
      · exact .inl (.inr (.inr (.inr held)))
      · exact .inl (.inr (.inr (.inl on)))
  · intro x before
    apply settled_iff.mpr
    by_cases same : x = v
    · exact .inr (same ▸ mem_keepL3 e v old)
    · rcases settled_iff.mp before with on | on
      · exact .inl (mem_erase.mpr ⟨same, mem_insert.mpr (.inr on)⟩)
      · exact .inr (mem_keepL3_of_mem on)
  · intro laid
    refine ⟨(noted laid).consistent.free v, ?_⟩
    intro x placed
    rw [byHash_free] at placed
    obtain ⟨other, placed⟩ := mem_erase.mp placed
    refine mem_erase.mpr ⟨other, ?_⟩
    rcases (noted laid).mem_cases placed with same | placed
    · exact mem_insert.mpr (.inl same)
    · exact mem_insert.mpr (.inr (laid.onL2 x placed))
  · intro roomy laid before
    refine ⟨((noted laid).below before.below roomy).free v, ?_⟩
    intro x on
    obtain ⟨other, on⟩ := mem_erase.mp on
    change x ∈ (SegmentArena.free _ v).1.byHash
    rw [byHash_free]
    refine mem_erase.mpr ⟨other, ?_⟩
    rcases mem_insert.mp on with rfl | on
    · exact (noted laid).placed before.below
    · exact (noted laid).mem_of_mem (before.all x on)

theorem relaid (again : e.Laid → e.l2Arena.Relaid a) : Keeps ok e.Roomy e { e with l2Arena := a } :=
  layout sound (fun laid => (again laid).consistent) (fun laid x => by rw [(again laid).same])
    fun roomy laid below => (again laid).below below roomy

theorem settles (fine : ok h bytes) (step : SettlesL2 e h bytes e' demoted) : Keeps ok e.Roomy e e' := by
  cases step with
  | stays few => exact stays sound few fine
  | swaps full absent on loose => exact swaps sound full absent on fine
  | passes full absent pinned loose again =>
    have step : Keeps ok e.Roomy e { e with l2Arena := _ } := relaid sound again
    refine ⟨⟨sound.order0, sound.order1, sound.order2, sound.cap0, sound.cap1, sound.cap2⟩, ?_, ?_,
      fun laid => ⟨(step.laid laid).arena, (step.laid laid).onL2⟩,
      fun roomy laid before => ⟨(step.placed roomy laid before).below, (step.placed roomy laid before).all⟩⟩
    · intro x b held
      rcases held with held | held | held | held
      · exact .inl (.inl held)
      · exact .inl (.inr (.inl held))
      · exact .inl (.inr (.inr (.inl held)))
      · rcases lookup_keepL3 held with held | ⟨rfl, rfl⟩
        · exact .inl (.inr (.inr (.inr held)))
        · exact .inr fine
    · intro x before
      apply settled_iff.mpr
      rcases settled_iff.mp before with on | on
      · exact .inl on
      · exact .inr (mem_keepL3_of_mem on)

theorem refuses (refused : RefusesL2 e h e') : Keeps ok e.Roomy e e' := by
  obtain ⟨a, again, rfl⟩ := refused.relaid
  exact relaid sound again

theorem demoteL2 (on : e.l2.lookup h = some bytes) : Keeps ok room e (noteL2Absent { e with
        l2 := e.l2.erase h
        l2Order := e.l2Order.remove h
        l3 := e.l3.insert h bytes } h) := by
  refine ⟨⟨sound.order0, sound.order1, ?_, sound.cap0, sound.cap1, ?_⟩, ?_, ?_, ?_, ?_⟩
  · change Enumerates (e.l2Order.remove h) (e.l2.erase h).keys
    rw [keys_erase]
    exact sound.order2.remove h
  · intro bounded
    have cap := sound.cap2 bounded
    change (e.l2.erase h).keys.card ≤ e.caps.l2
    rw [keys_erase]
    exact (Finset.card_erase_le).trans cap
  · intro x b held
    rcases held with held | held | held | held
    · exact .inl (.inl held)
    · exact .inl (.inr (.inl held))
    · exact .inl (.inr (.inr (.inl (lookup_erase_some held).2)))
    · change (e.l3.insert h bytes).lookup x = some b at held
      rcases lookup_insert_some held with ⟨rfl, rfl⟩ | ⟨-, held⟩
      · exact .inl (.inr (.inr (.inl on)))
      · exact .inl (.inr (.inr (.inr held)))
  · intro x before
    apply settled_iff.mpr
    by_cases same : x = h
    · exact .inr (mem_insert.mpr (.inl same))
    · rcases settled_iff.mp before with on | on
      · exact .inl (mem_erase.mpr ⟨same, on⟩)
      · exact .inr (mem_insert.mpr (.inr on))
  · exact fun laid => laid.drops rfl rfl
  · exact fun _ _ before => before.drops rfl rfl

end Keeps

theorem Keeps.absorb (keeps : Keeps (fun x b => ok x b ∨ e.Holds x b) room e e') : Keeps ok room e e' where
  sound := keeps.sound
  copies x b held := by
    rcases keeps.copies x b held with before | fine | before
    · exact .inl before
    · exact .inr fine
    · exact .inl before
  settled := keeps.settled
  laid := keeps.laid
  placed := keeps.placed

theorem Sound.keeps_putDurable (sound : e.Sound) (fine : ok h bytes) : Keeps ok e.Roomy e (e.putDurable h bytes).1 := by
  rcases sound.putDurable_cases h bytes with ⟨e', tier, demoted, step, eq⟩ | ⟨e', msg, refused, eq⟩
  · rw [eq]
    exact .settles sound fine step
  · rw [eq]
    exact .refuses sound refused

theorem Sound.keeps_fillL2 (sound : e.Sound) (fine : ok h bytes) :
    Keeps ok e.Roomy e (e.fillL2 h bytes).1 ∧ (e.fillL2 h bytes).1.l0 = e.l0 := by
  by_cases needed : h ∉ e.l2 ∧ h ∈ e.l3
  · rcases sound.fillL2_cases needed.1 needed.2 bytes with ⟨e', demoted, step, eq⟩ | ⟨e', msg, refused, eq⟩
    · rw [eq]
      refine ⟨.settles sound fine step, ?_⟩
      cases step with
      | stays => rw [enterL2_eq]
      | @swaps v old full absent on loose =>
        rw [swap_eq on absent]
      | passes => rfl
    · rw [eq]
      obtain ⟨a, -, rfl⟩ := refused.relaid
      exact ⟨.refuses sound refused, rfl⟩
  · unfold fillL2
    rw [if_neg needed]
    exact ⟨.refl sound, rfl⟩

theorem Sound.keeps_enterL0 (sound : e.Sound) (absent : h ∉ e.l0) (fine : ok h bytes) (n : Nat)
    (demoted : List Flat) : Keeps ok True e (e.enterL0 h bytes n demoted).1 := by
  unfold LocalTierEngine.enterL0
  rcases sound.ensureL0Room_cases with ⟨few, eq⟩ | ⟨full, ⟨v, on, -, -, eq⟩ | ⟨msg, eq⟩⟩
  · rw [eq]
    exact .enterL0 sound absent few fine
  · rw [eq]
    have left : Keeps ok True e (e.leaveL0 v) := .leaveL0 sound v
    have less := len_erase_of_mem on
    refine left.trans (.enterL0 left.sound ?_ (.inr ?_) fine)
    · intro mem
      exact absent (mem_erase.mp mem).2
    · change TierMap.len (e.l0.erase v) < e.caps.l0
      omega
  · rw [eq]
    exact .refl sound

theorem holds_of_get (found : e.get h = some bytes) : e.Holds h bytes := by
  unfold get at found
  unfold Holds
  rcases Option.or_eq_some_iff.mp found with found | ⟨-, found⟩
  · rcases Option.or_eq_some_iff.mp found with found | ⟨-, found⟩
    · rcases Option.or_eq_some_iff.mp found with found | ⟨-, found⟩
      · exact .inl found
      · exact .inr (.inl found)
    · exact .inr (.inr (.inl found))
  · exact .inr (.inr (.inr found))

variable (sound : e.Sound)
include sound

variable (h)

theorem Sound.keeps_promoteToL0 : Keeps ok e.Roomy e (e.promoteToL0 h).1 := by
  unfold promoteToL0
  by_cases on : h ∈ e.l0
  · rw [if_pos on]
    exact .touchL0 sound on
  rw [if_neg on]
  cases found : e.get h with
  | none => exact .refl sound
  | some bytes =>
    apply Keeps.absorb
    have fine : ok h bytes ∨ e.Holds h bytes := .inr (holds_of_get found)
    have both : Keeps (fun x b => ok x b ∨ e.Holds x b) e.Roomy e (e.fillL2 h bytes).1 ∧
        (e.fillL2 h bytes).1.l0 = e.l0 := sound.keeps_fillL2 fine
    obtain ⟨filled, same⟩ := both
    dsimp only
    cases fill : e.fillL2 h bytes with
    | mk e' answer =>
      rw [fill] at filled same
      cases answer with
      | error msg => exact filled
      | ok demoted =>
        have second : Keeps (fun x b => ok x b ∨ e.Holds x b) True e' (e'.fillL1 h bytes) :=
          .fillL1 filled.sound fine
        have absent : h ∉ (e'.fillL1 h bytes).l0 := by
          obtain ⟨l1, order, eq, -⟩ := filled.sound.fillL1_eq h bytes
          rw [eq]
          change h ∉ e'.l0
          rw [show e'.l0 = e.l0 from same]
          exact on
        exact (filled.trans second).trans (second.sound.keeps_enterL0 absent fine _ demoted)

theorem Sound.keeps_fillReadMiss : Keeps ok e.Roomy e (e.fillReadMiss h).1 := by
  unfold fillReadMiss
  by_cases on : h ∈ e.l0
  · rw [if_pos on]
    exact .touchL0 sound on
  · rw [if_neg on]
    exact sound.keeps_promoteToL0 h

theorem Sound.keeps_promoteToL0Admitted : Keeps ok e.Roomy e (e.promoteToL0Admitted h).1 := by
  have promoted : Keeps ok e.Roomy e (e.promoteToL0 h).1 := sound.keeps_promoteToL0 h
  unfold promoteToL0Admitted
  cases promote : e.promoteToL0 h with
  | mk e' answer =>
    rw [promote] at promoted
    cases answer with
    | error msg => exact promoted
    | ok r => exact promoted.trans (.flags promoted.sound _ _ _ _ _ _)

theorem Sound.keeps_finishPromote : Keeps ok e.Roomy e (e.finishPromote h).1 := by
  have cleared : Keeps ok True e { e with promoteInflight := e.promoteInflight.erase h } :=
    .flags sound _ _ _ _ _ _
  have finished : Keeps ok e.Roomy { e with promoteInflight := e.promoteInflight.erase h } (e.finishPromote h).1 :=
    cleared.sound.keeps_promoteToL0Admitted h
  refine ⟨finished.sound, ?_, ?_, ?_, ?_⟩
  · intro x b held
    exact finished.copies x b held
  · intro x before
    exact finished.settled x before
  · intro laid
    exact finished.laid (cleared.laid laid)
  · intro free laid before
    exact finished.placed free (cleared.laid laid) (cleared.placed trivial laid before)

theorem Sound.keeps_beginPromote : Keeps ok room e (e.beginPromote h).1 := by
  unfold beginPromote
  split
  · exact .refl sound
  split
  · exact .refl sound
  split
  · exact .refl sound
  · exact .flags sound _ _ _ _ _ _

theorem Sound.keeps_demoteL0 : Keeps ok room e (e.demoteL0 h).1 := by
  unfold demoteL0
  split
  · exact .refl sound
  split
  · exact .refl sound
  · exact .leaveL0 sound h

theorem Sound.keeps_evictL0Pressure : Keeps ok room e e.evictL0Pressure.1 := by
  rcases evictL0Pressure_cases e with ⟨-, eq⟩ | ⟨-, ⟨v, -, -, -, eq⟩ | ⟨msg, eq⟩⟩
  · rw [eq]
    exact .refl sound
  · rw [eq]
    exact .leaveL0 sound v
  · rw [eq]
    exact .refl sound

theorem Sound.keeps_demoteL2ToL3 (h : Flat) : Keeps ok room e (e.demoteL2ToL3 h).1 := by
  unfold demoteL2ToL3
  split
  · exact .refl sound
  cases on : e.l2.lookup h with
  | none => exact .refl sound
  | some bytes => exact .demoteL2 sound on

theorem Sound.keeps_unpin (h : Flat) : Keeps ok room e (e.unpin h).1 := by
  unfold unpin
  cases e.pins.lookup h with
  | none => exact .refl sound
  | some c => exact .flags sound _ _ _ _ _ _

theorem Sound.keeps_probe (h : Flat) : Keeps ok room e (e.probe h).1 := by
  unfold probe
  split <;> exact .flags sound _ _ _ _ _ _

theorem Sound.keeps_compactL2Segment (segmentId : Nat) : Keeps ok room e (e.compactL2Segment segmentId).1 := by
  unfold compactL2Segment
  split
  · exact .refl sound
  · exact .layout sound (fun laid => laid.arena.compact segmentId)
      (fun laid => laid.arena.paired.mem_compact laid.arena.addressed segmentId) fun _ _ below => below.compact segmentId

theorem Sound.keeps_colocateL2Move (h : Flat) (destSegment destOffset : Nat) :
    Keeps ok (e.Roomy ∧ destSegment + 1 < 2 ^ 64) e (e.colocateL2Move h destSegment destOffset).1 := by
  unfold colocateL2Move
  split
  · exact .refl sound
  split
  · exact .refl sound
  refine .layout sound (fun laid => laid.arena.relocate h destSegment destOffset) ?_ ?_
  · intro laid x
    rcases (laid.arena.paired.relocate h destSegment destOffset).2 with ⟨msg, -, same⟩ | ⟨source, -, found, placed⟩
    · rw [same]
    rw [placed, mem_insert]
    constructor
    · rintro (rfl | mem)
      · exact mem_of_lookup_eq_some found
      · exact mem
    · exact .inr
  · intro free laid below
    have roomy : e.l2Arena.nextSeg + 1 < 2 ^ 64 := free.1
    exact below.relocate laid.arena (by omega) free.2

end LocalTierEngine

end LakeKv
