import LakeKv.TierPipeline

namespace LakeKv

open Finmap List SegmentArena

structure Seen where
  l0 : Bool
  l2 : Bool
  l3 : Bool
  place : Option Placement
  deriving DecidableEq

abbrev TierView := Flat → Seen

namespace TierView

/-- One event, applied. L1 is in no view. -/
def apply (view : TierView) : LocationEvent → TierView
  | .present hash .l0 => Function.update view hash { view hash with l0 := true }
  | .present hash .l2 => Function.update view hash { view hash with l2 := true }
  | .present hash .l3 => Function.update view hash { view hash with l3 := true }
  | .absent hash .l0 => Function.update view hash { view hash with l0 := false }
  | .absent hash .l2 => Function.update view hash { view hash with l2 := false, place := none }
  | .absent hash .l3 => Function.update view hash { view hash with l3 := false }
  | .moved hash .l2 segmentId offset _ =>
    Function.update view hash { view hash with place := some ⟨segmentId, offset⟩ }
  | _ => view

def applyAll (view : TierView) (events : List LocationEvent) : TierView :=
  events.foldl apply view

theorem applyAll_append (view : TierView) (events more : List LocationEvent) :
    view.applyAll (events ++ more) = (view.applyAll events).applyAll more :=
  foldl_append

end TierView

namespace LocalTierEngine

variable {e e' : LocalTierEngine} {h v x : Flat} {bytes : Bytes} (nodeId : String)

def seen (e : LocalTierEngine) : TierView := fun h =>
  ⟨(e.l0.lookup h).isSome, (e.l2.lookup h).isSome, (e.l3.lookup h).isSome, e.l2Placement h⟩

theorem seen_congr (l0 : e'.l0 = e.l0) (l2 : e'.l2 = e.l2) (l3 : e'.l3 = e.l3)
    (layout : e'.l2Arena.byHash = e.l2Arena.byHash) : e'.seen = e.seen := by
  funext x
  unfold seen l2Placement placement
  rw [l0, l2, l3, layout]

theorem seen_enterL0 (e : LocalTierEngine) (h : Flat) (bytes : Bytes) (order : Recency Flat) :
    { e with l0 := e.l0.insert h bytes, l0Order := order }.seen = e.seen.apply (.present h .l0) := by
  funext x
  by_cases same : x = h
  · subst same
    simp [seen, TierView.apply, l2Placement]
  · simp [seen, TierView.apply, l2Placement, same, lookup_insert_of_ne _ same]

theorem seen_leaveL0 (e : LocalTierEngine) (v : Flat) : (e.leaveL0 v).seen = e.seen.apply (.absent v .l0) := by
  funext x
  by_cases same : x = v
  · subst same
    simp [seen, TierView.apply, l2Placement, leaveL0]
  · simp [seen, TierView.apply, l2Placement, leaveL0, same, lookup_erase_ne same]

theorem seen_present (on : h ∈ e.l0) : e.seen.apply (.present h .l0) = e.seen := by
  funext x
  by_cases same : x = h
  · subst same
    simp [seen, TierView.apply, lookup_isSome.mpr on]
  · simp [seen, TierView.apply, same]

theorem seen_demoteL2 (e : LocalTierEngine) (h : Flat) (bytes : Bytes) (order : Recency Flat) :
    (noteL2Absent { e with l2 := e.l2.erase h, l2Order := order, l3 := e.l3.insert h bytes } h).seen =
      e.seen.applyAll [.absent h .l2, .present h .l3] := by
  have freed := e.l2Arena.byHash_free h
  funext x
  by_cases same : x = h
  · subst same
    simp [seen, TierView.applyAll, TierView.apply, l2Placement, noteL2Absent, placement, freed]
  · simp [seen, TierView.applyAll, TierView.apply, l2Placement, noteL2Absent, placement, freed,
      same, lookup_erase_ne same, lookup_insert_of_ne _ same]

theorem seen_fillL1 (sound : e.Sound) (h : Flat) (bytes : Bytes) : (e.fillL1 h bytes).seen = e.seen := by
  obtain ⟨l1, order, eq, -⟩ := sound.fillL1_eq h bytes
  rw [eq]
  rfl

def seenAt (e : LocalTierEngine) (byHash : Map Flat Placement) : TierView := fun h =>
  ⟨(e.l0.lookup h).isSome, (e.l2.lookup h).isSome, (e.l3.lookup h).isSome, byHash.lookup h⟩

theorem seenAt_move (e : LocalTierEngine) (byHash : Map Flat Placement) (r : Relocate) (nodeId : String) :
    e.seenAt (move byHash r) =
      (e.seenAt byHash).apply (.moved r.hash .l2 r.target.segmentId r.target.offset nodeId) := by
  funext x
  by_cases same : x = r.hash
  · subst same
    simp [seenAt, TierView.apply, move]
  · simp [seenAt, TierView.apply, move, same, lookup_insert_of_ne _ same]

theorem seenAt_relocs (e : LocalTierEngine) (nodeId : String) {relocs : List Relocate}
    (real : ∀ r ∈ relocs, r.source ≠ r.target) (byHash : Map Flat Placement) :
    (e.seenAt byHash).applyAll (eventsFromRelocs relocs nodeId) = e.seenAt (relocs.foldl move byHash) := by
  have all : relocs.filter (fun r => decide (r.source ≠ r.target)) = relocs :=
    filter_eq_self.mpr fun r mem => decide_eq_true (real r mem)
  unfold eventsFromRelocs
  rw [all]
  clear all
  induction relocs generalizing byHash with
  | nil => rfl
  | cons r relocs ih =>
    have rest := ih (fun r' mem => real r' (mem_cons_of_mem r mem)) (move byHash r)
    rw [foldl_cons, ← rest, seenAt_move e byHash r nodeId]
    rfl

theorem Sound.enterL0_cases (sound : e.Sound) (h : Flat) (bytes : Bytes) (n : Nat) (demoted : List Flat) :
    (∃ msg, e.enterL0 h bytes n demoted = (e, .error msg)) ∨
      ∃ (e₁ : LocalTierEngine) (out : List Flat), e.enterL0 h bytes n demoted =
          ({ e₁ with l0 := e₁.l0.insert h bytes, l0Order := e₁.l0Order.touch h }, .ok (n, ⟨out, demoted⟩)) ∧
        e₁.seen = e.seen.applyAll (out.map (.absent · .l0)) ∧
        e₁.l2 = e.l2 ∧ e₁.l3 = e.l3 ∧ e₁.l2Arena = e.l2Arena := by
  unfold enterL0
  rcases sound.ensureL0Room_cases with ⟨-, eq⟩ | ⟨-, ⟨v, -, -, -, eq⟩ | ⟨msg, eq⟩⟩
  · refine .inr ⟨e, [], ?_, rfl, rfl, rfl, rfl⟩
    simp only [eq, append_nil]
  · refine .inr ⟨e.leaveL0 v, [v], ?_, seen_leaveL0 e v, rfl, rfl, rfl⟩
    simp only [eq, append_nil]
  · refine .inl ⟨msg, ?_⟩
    simp only [eq]

theorem Laid.seen_gone (laid : e.Laid) (absent : h ∉ e.l2) (on3 : h ∈ e.l3) :
    e.seen.applyAll [.absent h .l2, .present h .l3] = e.seen := by
  have unplaced : e.l2Placement h = none := lookup_eq_none.mpr (laid.notMem absent)
  funext x
  by_cases same : x = h
  · subst same
    simp [seen, TierView.applyAll, TierView.apply, unplaced, lookup_eq_none.mpr absent, lookup_isSome.mpr on3]
  · simp [TierView.applyAll, TierView.apply, same]

theorem l2_applyAll {view : TierView} {events : List LocationEvent}
    (other : ∀ event ∈ events, event ≠ .present h .l2 ∧ event ≠ .absent h .l2) :
    (view.applyAll events h).l2 = (view h).l2 := by
  induction events generalizing view with
  | nil => rfl
  | cons event events ih =>
    have rest : ((view.apply event).applyAll events h).l2 = (view.apply event h).l2 :=
      ih fun event' mem => other event' (mem_cons_of_mem event mem)
    have here := other event mem_cons_self
    change ((view.apply event).applyAll events h).l2 = (view h).l2
    rw [rest]
    cases event with
    | present hash tier | absent hash tier =>
      by_cases same : h = hash
      · subst same
        cases tier <;> simp_all [TierView.apply]
      · cases tier <;> simp [TierView.apply, same]
    | moved hash tier segmentId offset nodeId =>
      by_cases same : h = hash
      · subst same
        cases tier <;> simp [TierView.apply]
      · cases tier <;> simp [TierView.apply, same]

/-- A promotion that fills L2 from L3 and leaves the block there, of which no event tells. -/
def SilentFill (e : LocalTierEngine) (h : Flat) : Prop :=
  h ∉ e.l0 ∧ h ∉ e.l2 ∧ h ∈ e.l3 ∧
    (e.caps.l2 = 0 ∨ e.l2.len < e.caps.l2 ∨ ∃ v ∈ e.l2.keys, e.pinCount v = 0)

instance (e : LocalTierEngine) (h : Flat) : Decidable (e.SilentFill h) :=
  inferInstanceAs (Decidable (_ ∧ _ ∧ _ ∧ (_ ∨ _ ∨ ∃ v ∈ e.l2.keys, _)))

def toldOf (h : Flat) (r : LocalTierEngine × Except String (Nat × TierSideEffects)) : List LocationEvent :=
  match r.2 with
  | .ok (_, fx) => PipelineAction.promoted h r.1 fx
  | .error _ => []

theorem promoted_of_on {fx : TierSideEffects} (on : h ∈ e.l0) :
    PipelineAction.promoted h e fx = eventsFromEffects fx ++ [.present h .l0] := by
  unfold PipelineAction.promoted localTier
  rw [if_pos on, if_pos rfl]

theorem not_silentFill (full : e.caps.l2 ≠ 0 ∧ e.l2.len = e.caps.l2) (pinned : ∀ x ∈ e.l2, 0 < e.pinCount x) :
    ¬ e.SilentFill h := by
  rintro ⟨-, -, -, unbounded | less | ⟨v, mem, free⟩⟩
  · exact full.1 unbounded
  · have := full.2
    omega
  · have := pinned v (Finmap.mem_keys.mp mem)
    omega

section

variable (sound : e.Sound)
include sound

theorem Sound.told_enterL0 (h : Flat) (bytes : Bytes) (n : Nat) :
    e.seen.applyAll (toldOf h (e.enterL0 h bytes n [])) = (e.enterL0 h bytes n []).1.seen := by
  rcases sound.enterL0_cases h bytes n [] with ⟨msg, eq⟩ | ⟨e₁, out, eq, left, -⟩
  · rw [eq]
    rfl
  have on : h ∈ { e₁ with l0 := e₁.l0.insert h bytes, l0Order := e₁.l0Order.touch h }.l0 :=
    mem_insert.mpr (.inl rfl)
  rw [eq, seen_enterL0, left]
  unfold toldOf
  dsimp only
  rw [promoted_of_on on, TierView.applyAll_append]
  unfold eventsFromEffects
  dsimp only
  rw [flatMap_nil, append_nil]
  rfl

theorem Sound.told_enterL0_passed (laid : e.Laid) (absent : h ∉ e.l2) (on3 : h ∈ e.l3) (bytes : Bytes) (n : Nat) :
    e.seen.applyAll (toldOf h (e.enterL0 h bytes n [h])) = (e.enterL0 h bytes n [h]).1.seen := by
  rcases sound.enterL0_cases h bytes n [h] with ⟨msg, eq⟩ | ⟨e₁, out, eq, left, l2, l3, layout⟩
  · rw [eq]
    rfl
  have on : h ∈ { e₁ with l0 := e₁.l0.insert h bytes, l0Order := e₁.l0Order.touch h }.l0 :=
    mem_insert.mpr (.inl rfl)
  have laid₁ : e₁.Laid := by
    refine ⟨layout ▸ laid.arena, ?_⟩
    rw [layout, l2]
    exact laid.onL2
  have gone := laid₁.seen_gone (h := h) (l2 ▸ absent) (l3 ▸ on3)
  rw [eq, seen_enterL0]
  unfold toldOf
  dsimp only
  rw [promoted_of_on on, TierView.applyAll_append]
  unfold eventsFromEffects
  dsimp only
  rw [TierView.applyAll_append, ← left, flatMap_singleton, gone]
  rfl

theorem Sound.not_told {demoted : List Flat} {view : TierView} (unseen : (view h).l2 = false)
    (on : h ∈ e.l2) (others : h ∉ demoted) (bytes : Bytes) (n : Nat) :
    view.applyAll (toldOf h (e.enterL0 h bytes n demoted)) ≠ (e.enterL0 h bytes n demoted).1.seen := by
  intro same
  have silent : ((view.applyAll (toldOf h (e.enterL0 h bytes n demoted))) h).l2 = (view h).l2 := by
    apply l2_applyAll
    intro event mem
    rcases sound.enterL0_cases h bytes n demoted with ⟨msg, eq⟩ | ⟨e₁, out, eq, -⟩
    · rw [eq] at mem
      cases mem
    have on' : h ∈ { e₁ with l0 := e₁.l0.insert h bytes, l0Order := e₁.l0Order.touch h }.l0 :=
      mem_insert.mpr (.inl rfl)
    rw [eq] at mem
    unfold toldOf at mem
    dsimp only at mem
    rw [promoted_of_on on'] at mem
    unfold eventsFromEffects at mem
    simp only [mem_append, mem_map, mem_flatMap, mem_cons, not_mem_nil, or_false] at mem
    rcases mem with (⟨v, -, rfl⟩ | ⟨v, mem, rfl | rfl⟩) | rfl
    · exact ⟨by simp, by simp⟩
    · refine ⟨by simp, ?_⟩
      intro eq
      cases eq
      exact others mem
    · exact ⟨by simp, by simp⟩
    · exact ⟨by simp, by simp⟩
  have shown : ((e.enterL0 h bytes n demoted).1.seen h).l2 = true := by
    rcases sound.enterL0_cases h bytes n demoted with ⟨msg, eq⟩ | ⟨e₁, out, eq, -, l2, -, -⟩
    · rw [eq]
      exact lookup_isSome.mpr on
    rw [eq]
    change (e₁.l2.lookup h).isSome = true
    rw [l2]
    exact lookup_isSome.mpr on
  rw [same, shown, unseen] at silent
  cases silent

/-- Of a fill that settles the block, the control plane learns only if the block stays on L3. -/
theorem Sound.told_settles_iff (laid : e.Laid) (on : h ∉ e.l0) (absent : h ∉ e.l2) (on3 : h ∈ e.l3)
    {demoted : List Flat} (step : SettlesL2 e h bytes e' demoted) (n : Nat) :
    e.seen.applyAll (toldOf h ((e'.fillL1 h bytes).enterL0 h bytes n demoted)) =
      ((e'.fillL1 h bytes).enterL0 h bytes n demoted).1.seen ↔ ¬ e.SilentFill h := by
  have unseen : (e.seen h).l2 = false := by
    change (e.l2.lookup h).isSome = false
    rw [lookup_eq_none.mpr absent]
    rfl
  have keeps : Keeps (fun _ _ => True) e.Roomy e e' := .settles sound trivial step
  have filled : Keeps (fun _ _ => True) True e' (e'.fillL1 h bytes) := .fillL1 keeps.sound trivial
  have same := seen_fillL1 keeps.sound h bytes
  have l2 : (e'.fillL1 h bytes).l2 = e'.l2 := by
    obtain ⟨l1, order, eq, -⟩ := keeps.sound.fillL1_eq h bytes
    rw [eq]
  cases step with
  | stays room =>
    refine iff_of_false ?_ (not_not.mpr ⟨on, absent, on3, ?_⟩)
    · refine filled.sound.not_told unseen ?_ not_mem_nil bytes _
      rw [l2, l2_enterL2]
      exact mem_insert.mpr (.inl rfl)
    · rcases room with unbounded | mem | less
      · exact .inl unbounded
      · exact absurd mem absent
      · exact .inr (.inl less)
  | @swaps v old full _ swapped loose =>
    have mem : v ∈ e.l2 := mem_of_lookup_eq_some swapped
    refine iff_of_false ?_ (not_not.mpr ⟨on, absent, on3, .inr (.inr ⟨v, Finmap.mem_keys.mpr mem, loose⟩)⟩)
    refine filled.sound.not_told unseen ?_ ?_ bytes _
    · rw [l2]
      exact mem_l2_swapped absent mem bytes
    · intro listed
      cases List.mem_singleton.mp listed
      exact absent mem
  | @passes a full _ pinned loose relaid =>
    have kept : e.keepL3 h bytes = e.l3 := if_pos on3
    have before : ({ e with l3 := e.keepL3 h bytes, l2Arena := a } : LocalTierEngine).seen = e.seen :=
      seen_congr rfl rfl kept (relaid laid).same
    refine iff_of_true ?_ (not_silentFill full pinned)
    rw [← before, ← same]
    refine filled.sound.told_enterL0_passed (filled.laid (keeps.laid laid)) ?_ ?_ bytes _
    · rw [l2]
      exact absent
    · obtain ⟨l1, order, eq, -⟩ := keeps.sound.fillL1_eq h bytes
      rw [eq]
      exact mem_keepL3 e h bytes

/-- A promotion tells the control plane all it does, unless it fills L2 from L3 in silence. -/
theorem Sound.told_promote_iff (laid : e.Laid) (h : Flat) :
    e.seen.applyAll (toldOf h (e.promoteToL0 h)) = (e.promoteToL0 h).1.seen ↔ ¬ e.SilentFill h := by
  unfold promoteToL0
  by_cases on : h ∈ e.l0
  · rw [if_pos on]
    refine iff_of_true ?_ fun silent => silent.1 on
    have on' : h ∈ { e with l0Order := e.l0Order.touch h }.l0 := on
    unfold toldOf
    dsimp only
    rw [promoted_of_on on']
    exact seen_present on
  rw [if_neg on]
  cases found : e.get h with
  | none =>
    refine iff_of_true rfl ?_
    rintro ⟨-, -, on3, -⟩
    obtain ⟨bytes, held⟩ := holds_of_settled (settled_iff.mpr (.inr on3))
    rw [found] at held
    cases held
  | some bytes =>
    dsimp only
    by_cases needed : h ∉ e.l2 ∧ h ∈ e.l3
    · obtain ⟨absent, on3⟩ := needed
      rcases sound.fillL2_cases absent on3 bytes with ⟨e', demoted, step, eq⟩ | ⟨e', msg, refused, eq⟩
      · simp only [eq]
        exact sound.told_settles_iff laid on absent on3 step _
      · obtain ⟨a, relaid, rfl⟩ := refused.relaid
        simp only [eq]
        have before : ({ e with l2Arena := a } : LocalTierEngine).seen = e.seen :=
          seen_congr rfl rfl rfl (relaid laid).same
        exact iff_of_true before.symm (not_silentFill refused.full refused.pinned)
    · have none : e.fillL2 h bytes = (e, .ok []) := by
        unfold fillL2
        rw [if_neg needed]
      have filled : Keeps (fun _ _ => True) True e (e.fillL1 h bytes) := .fillL1 sound trivial
      simp only [none]
      refine iff_of_true ?_ fun silent => needed ⟨silent.2.1, silent.2.2.1⟩
      rw [← seen_fillL1 sound h bytes]
      exact filled.sound.told_enterL0 h bytes _

end

variable (e : LocalTierEngine)

theorem fillReadMiss_eq (h : Flat) : e.fillReadMiss h = e.promoteToL0 h := by
  unfold fillReadMiss promoteToL0
  split <;> rfl

def Silent (e : LocalTierEngine) : PipelineAction → Prop
  | .promote h => e.SilentFill h
  | .fillMiss h => e.SilentFill h
  | _ => False

instance (e : LocalTierEngine) : ∀ action, Decidable (e.Silent action)
  | .promote h => inferInstanceAs (Decidable (e.SilentFill h))
  | .fillMiss h => inferInstanceAs (Decidable (e.SilentFill h))
  | .demoteL0 _ => instDecidableFalse
  | .demoteL2 _ => instDecidableFalse
  | .compactSegment _ => instDecidableFalse
  | .coLocateMove _ _ _ => instDecidableFalse

def told (nodeId : String) (e : LocalTierEngine) (action : PipelineAction) : List LocationEvent :=
  (action.events nodeId e).toOption.getD []

theorem told_promote (h : Flat) :
    told nodeId e (.promote h) = toldOf h (e.promoteToL0 h) := by
  unfold told PipelineAction.events toldOf
  dsimp only
  cases (e.promoteToL0 h).2 <;> rfl

theorem told_fillMiss (h : Flat) :
    told nodeId e (.fillMiss h) = toldOf h (e.promoteToL0 h) := by
  unfold told PipelineAction.events toldOf
  dsimp only
  rw [fillReadMiss_eq]
  cases (e.promoteToL0 h).2 <;> rfl

theorem told_demoteL0 (h : Flat) :
    e.seen.applyAll (told nodeId e (.demoteL0 h)) = (e.demoteL0 h).1.seen := by
  unfold told PipelineAction.events demoteL0
  dsimp only
  split
  · rfl
  split
  · rfl
  · exact (seen_leaveL0 e h).symm

theorem told_demoteL2 (nodeId : String) (h : Flat) :
    e.seen.applyAll (told nodeId e (.demoteL2 h)) = (e.demoteL2ToL3 h).1.seen := by
  unfold told PipelineAction.events demoteL2ToL3
  dsimp only
  split
  · rfl
  cases e.l2.lookup h with
  | none => rfl
  | some bytes => exact (e.seen_demoteL2 h bytes _).symm

variable {e}

theorem Laid.told_compactSegment (laid : e.Laid) (nodeId : String) (segmentId : Nat) :
    e.seen.applyAll (told nodeId e (.compactSegment segmentId)) = (e.compactL2Segment segmentId).1.seen := by
  unfold told PipelineAction.events compactL2Segment
  dsimp only
  split
  · rfl
  unfold compact
  by_cases known : segmentId ∈ e.l2Arena.segments
  · rw [if_pos known]
    have known : ∀ hash ∈ e.l2Arena.live segmentId, hash ∈ e.l2Arena.byHash :=
      fun hash mem => laid.arena.paired.mem_byHash_of_live mem
    have real := source_ne_target e.l2Arena.slotBytes segmentId 0 (e.l2Arena.live segmentId) e.l2Arena.byHash
    have shown := seenAt_relocs e nodeId real e.l2Arena.byHash
    rw [← packFrom_relocs e.l2Arena.slotBytes segmentId 0 known] at shown
    exact shown
  · rw [if_neg known]
    rfl

theorem Laid.told_coLocateMove (laid : e.Laid) (nodeId : String) (h : Flat) (destSegment destOffset : Nat) :
    e.seen.applyAll (told nodeId e (.coLocateMove h destSegment destOffset)) =
      (e.colocateL2Move h destSegment destOffset).1.seen := by
  unfold told PipelineAction.events colocateL2Move
  dsimp only
  split
  · rfl
  split
  · rfl
  rcases (laid.arena.paired.relocate h destSegment destOffset).2 with ⟨msg, answer, same⟩ |
    ⟨source, answer, found, placed⟩
  · have before : ({ e with l2Arena := (e.l2Arena.relocate h destSegment destOffset).1 } :
        LocalTierEngine).seen = e.seen := seen_congr rfl rfl rfl same
    simp only [answer]
    exact before.symm
  · have after : ({ e with l2Arena := (e.l2Arena.relocate h destSegment destOffset).1 } :
        LocalTierEngine).seen = e.seenAt (e.l2Arena.byHash.insert h ⟨destSegment, destOffset⟩) := by
      rw [← placed]
      rfl
    simp only [answer]
    rw [after]
    by_cases stays : source = ⟨destSegment, destOffset⟩
    · subst stays
      rw [insert_of_lookup found]
      have none : eventsFromRelocs [⟨h, ⟨destSegment, destOffset⟩, ⟨destSegment, destOffset⟩⟩] nodeId = [] := by
        simp [eventsFromRelocs]
      change e.seen.applyAll (eventsFromRelocs _ nodeId) = _
      rw [none]
      rfl
    · have real : ∀ r ∈ [(⟨h, source, ⟨destSegment, destOffset⟩⟩ : Relocate)], r.source ≠ r.target := by
        intro r mem
        cases List.mem_singleton.mp mem
        exact stays
      exact seenAt_relocs e nodeId real e.l2Arena.byHash

/-- The events of an action tell what it did to the tiers, whether it succeeds or fails, exactly if it is no
silent fill. -/
theorem Sound.told_iff (sound : e.Sound) (laid : e.Laid) (nodeId : String) (action : PipelineAction) :
    e.seen.applyAll (told nodeId e action) = (e.act action.op).seen ↔ ¬ e.Silent action := by
  cases action with
  | promote h =>
    rw [told_promote]
    exact sound.told_promote_iff laid h
  | fillMiss h =>
    rw [told_fillMiss]
    change _ = (e.fillReadMiss h).1.seen ↔ _
    rw [fillReadMiss_eq]
    exact sound.told_promote_iff laid h
  | demoteL0 h => exact iff_of_true (told_demoteL0 nodeId e h) id
  | demoteL2 h => exact iff_of_true (e.told_demoteL2 nodeId h) id
  | compactSegment segmentId => exact iff_of_true (laid.told_compactSegment nodeId segmentId) id
  | coLocateMove h destSegment destOffset =>
    exact iff_of_true (laid.told_coLocateMove nodeId h destSegment destOffset) id

end LocalTierEngine

namespace TierPipeline

open LocalTierEngine

variable {q0 n m : Nat} {t : Ticking} {action : PipelineAction} {p p' : TierPipeline} {view : TierView}

/-- No action that is attempted, in so many attempts, is silent in the state it is attempted in. -/
def Telling (q0 : Nat) : Nat → Ticking → Prop
  | 0, _ => True
  | n + 1, t => ∀ action p, t.pipeline.takeAction = some (action, p) →
      ¬ p.engine.Silent action ∧ ((carryOut q0 t action p).2 = true → Telling q0 n (carryOut q0 t action p).1)

theorem tickLoop_stopped (stopped : t.pipeline.takeAction = none) (n : Nat) : tickLoop q0 n t = t := by
  cases n with
  | zero => rfl
  | succ n => rw [tickLoop, stopped]

theorem tickLoop_taken (taken : t.pipeline.takeAction = some (action, p)) (n : Nat) :
    tickLoop q0 (n + 1) t = if (carryOut q0 t action p).2 = true then tickLoop q0 n (carryOut q0 t action p).1
      else (carryOut q0 t action p).1 := by
  rw [tickLoop, taken]

theorem engine_takeAction (taken : p.takeAction = some (action, p')) : p'.engine = p.engine := by
  unfold takeAction at taken
  cases queued : p.queue with
  | nil =>
    rw [queued] at taken
    cases taken
  | cons head rest =>
    rw [queued] at taken
    dsimp only at taken
    split at taken
    · cases taken
      rfl
    split at taken
    · cases taken
      rfl
    · cases taken

theorem engine_carryOut : (carryOut q0 t action p).1.pipeline.engine = p.engine.act action.op := by
  unfold carryOut
  cases action.events p.nodeId p.engine <;> rfl

theorem events_carryOut : (carryOut q0 t action p).1.events = t.events ++ told p.nodeId p.engine action := by
  unfold carryOut told
  cases action.events p.nodeId p.engine with
  | ok events => rfl
  | error _ => exact (append_nil t.events).symm

def Tells (view : TierView) (t : Ticking) : Prop :=
  view.applyAll t.events = t.pipeline.engine.seen

theorem tells_carryOut (q0 : Nat) (sound : t.pipeline.engine.Sound) (laid : t.pipeline.engine.Laid)
    (tells : Tells view t) (taken : t.pipeline.takeAction = some (action, p)) :
    Tells view (carryOut q0 t action p).1 ↔ ¬ p.engine.Silent action := by
  have same := engine_takeAction taken
  unfold Tells at tells ⊢
  rw [events_carryOut, engine_carryOut, TierView.applyAll_append, tells, ← same]
  rw [← same] at sound laid
  exact sound.told_iff laid p.nodeId action

/-- Induction on the attempts: the first one is judged by itself, the others in the state it leaves. -/
theorem tells_tickLoop (q0 : Nat) (sound : t.pipeline.engine.Sound) (laid : t.pipeline.engine.Laid)
    (tells : Tells view t) (m : Nat) : (∀ n ≤ m, Tells view (tickLoop q0 n t)) ↔ Telling q0 m t := by
  induction m generalizing t with
  | zero =>
    refine iff_of_true ?_ trivial
    intro n none
    rw [Nat.le_zero.mp none]
    exact tells
  | succ m ih =>
    cases taken : t.pipeline.takeAction with
    | none =>
      refine iff_of_true ?_ ?_
      · intro n _
        rw [tickLoop_stopped taken]
        exact tells
      · intro action p some
        rw [taken] at some
        cases some
    | some taking =>
      obtain ⟨action, p⟩ := taking
      have first := tells_carryOut q0 sound laid tells taken
      have same := engine_takeAction taken
      rw [← same] at sound laid
      have sound' : (carryOut q0 t action p).1.pipeline.engine.Sound := by
        rw [engine_carryOut]
        exact sound.act action.op
      have laid' : (carryOut q0 t action p).1.pipeline.engine.Laid := by
        rw [engine_carryOut]
        exact laid.act sound action.op
      constructor
      · intro all action' p' again
        rw [taken] at again
        cases again
        have after : Tells view (carryOut q0 t action p).1 := by
          have one := all 1 (by omega)
          rw [tickLoop_taken taken] at one
          split at one <;> exact one
        refine ⟨first.mp after, ?_⟩
        intro goes
        refine (ih sound' laid' after).mp ?_
        intro n le
        have next := all (n + 1) (by omega)
        rw [tickLoop_taken taken, if_pos goes] at next
        exact next
      · intro telling n le
        obtain ⟨loud, rest⟩ := telling action p taken
        have after := first.mpr loud
        cases n with
        | zero => exact tells
        | succ n =>
          rw [tickLoop_taken taken]
          split
          next goes => exact (ih sound' laid' after).mpr (rest goes) n (by omega)
          · exact after

/-- A view that agrees with the engine before `tick` agrees with it after, with any number of attempts up to
`maxSteps`, exactly if no attempted action is a promotion that silently fills L2 from L3. -/
theorem tick_tells (run : ReachedFitting p.engine) (view : TierView) (agrees : view = p.engine.seen)
    (maxSteps : Nat) : (∀ n ≤ maxSteps, view.applyAll (p.tick n).events = (p.tick n).pipeline.engine.seen) ↔
      Telling (max p.queue.length 1) maxSteps ⟨p, 0, [], 0⟩ := by
  have start : Tells view ⟨p, 0, [], 0⟩ := agrees
  have loop := tells_tickLoop (max p.queue.length 1) run.both.1 run.both.2 start maxSteps
  exact loop

def warmStart : TierPipeline :=
  { TierPipeline.new ((withCaps {}).act (letter 1)) (.new 4096) with queue := [.promote [1]] }

theorem tick_tells_warm_promotion : (warmStart.tick 1).events = [.present [1] .l0] ∧
      warmStart.engine.seen.applyAll (warmStart.tick 1).events = (warmStart.tick 1).pipeline.engine.seen := by
  have empty : (withCaps {}).EmptyFitting := ⟨⟨{}, defaultSlotBytes, 64, 2, rfl⟩, by decide⟩
  have run : ReachedFitting ((withCaps {}).act (letter 1)) := Reach.next (Reach.start empty) trivial
  have taken : warmStart.takeAction.map (·.1) = some (.promote [1]) := by decide +kernel
  have loud : ¬ warmStart.engine.Silent (.promote [1]) := by decide +kernel
  refine ⟨by decide +kernel, (tick_tells (p := warmStart) run _ rfl 1).mpr ?_ 1 le_rfl⟩
  intro action p took
  have which : action = .promote [1] := by
    rw [took] at taken
    exact Option.some.inj taken
  refine ⟨?_, fun _ => trivial⟩
  rw [engine_takeAction took, which]
  exact loud

def coldStart : TierPipeline :=
  { TierPipeline.new ([letter 1, .demoteL2ToL3 [1]].foldl act (withCaps {})) (.new 4096) with
    queue := [.promote [1]] }

/-- The promotion puts the block on L2, L1 and L0 and tells of L0 alone. -/
theorem cold_promotion_silent : (coldStart.tick 1).events = [.present [1] .l0] ∧
      coldStart.engine.seen.applyAll (coldStart.tick 1).events [1] ≠ (coldStart.tick 1).pipeline.engine.seen [1] := by
  decide +kernel

end TierPipeline

end LakeKv
