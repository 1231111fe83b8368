import LakeKv.TierRuns

namespace LakeKv

open Finmap List Option SegmentArena

namespace LocalTierEngine

variable {e e' : LocalTierEngine} {h v x : Flat} {bytes : Bytes} {victims : List Flat}

/-- The blocks that are not pinned, the coldest first and the one that enters last. -/
def loose (e : LocalTierEngine) (h : Flat) : List Flat :=
  (e.l2Order.touch h).filter fun x => e.pinCount x = 0

/-- The blocks that have to leave L2 for the one that enters: as many as it has too many, the coldest first. -/
def coldest (e : LocalTierEngine) (h : Flat) (bytes : Bytes) : List Flat :=
  (e.loose h).take (TierMap.len (e.l2.insert h bytes) - e.caps.l2)

/-- The block has entered L2 and the victims have gone to L3, where a copy that was there stays. -/
structure Demotes (e : LocalTierEngine) (h : Flat) (bytes : Bytes) (victims : List Flat)
    (e' : LocalTierEngine) : Prop where
  order : e'.l2Order = (e.l2Order.touch h).filter (· ∉ victims)
  l2 : ∀ x, e'.l2.lookup x = if x ∈ victims then none else (e.l2.insert h bytes).lookup x
  l3 : ∀ x, e'.l3.lookup x =
    if x ∈ victims then (e.l3.lookup x).or ((e.l2.insert h bytes).lookup x) else e.l3.lookup x

theorem Demotes.none (e : LocalTierEngine) (h : Flat) (bytes : Bytes) : Demotes e h bytes [] (e.enterL2 h bytes) := by
  rw [enterL2_eq]
  exact ⟨by simp, by simp, by simp⟩

theorem lookup_keepL3_if (e : LocalTierEngine) (v : Flat) (old : Bytes) (x : Flat) :
    (e.keepL3 v old).lookup x = if x = v then (e.l3.lookup x).or (some old) else e.l3.lookup x := by
  unfold keepL3
  by_cases on : v ∈ e.l3
  · obtain ⟨b, found⟩ := lookup_of_mem on
    rw [if_pos on]
    split
    next same => rw [same, found, some_or]
    · rfl
  · rw [if_neg on, lookup_insert_if]
    split
    next same => rw [same, lookup_eq_none.mpr on, none_or]
    · rfl

theorem Demotes.one (on : v ∈ (e.enterL2 h bytes).l2) : Demotes e h bytes [v] ((e.enterL2 h bytes).moveToL3 v) := by
  obtain ⟨old, found⟩ := lookup_of_mem on
  have entered : (e.l2.insert h bytes).lookup v = some old := by
    rw [l2_enterL2] at found
    exact found
  rw [moveToL3_eq found, enterL2_eq]
  refine ⟨?_, ?_, ?_⟩
  · simp only [List.mem_singleton]
    rfl
  · intro x
    simp only [List.mem_singleton]
    exact lookup_erase_if _ _ _
  · intro x
    refine (lookup_keepL3_if _ v old x).trans ?_
    simp only [List.mem_singleton]
    split
    next same => rw [same, entered]
    · rfl

theorem Demotes.settled (demotes : Demotes e h bytes victims e') : h ∈ e'.l2 ∨ h ∈ e'.l3 := by
  have l2 := demotes.l2 h
  have l3 := demotes.l3 h
  rw [lookup_insert] at l2 l3
  by_cases gone : h ∈ victims
  · refine .inr (lookup_isSome.mp ?_)
    rw [l3, if_pos gone]
    simp
  · refine .inl (lookup_isSome.mp ?_)
    rw [l2, if_neg gone]
    rfl

theorem putDurable_of_settled (settled : (e.enterL2 h bytes).settleL2 = .ok (e', victims))
    (demotes : Demotes e h bytes victims e') :
    ∃ tier e'', e.putDurable h bytes = (e'', .ok (tier, { l2DemotedToL3 := victims })) ∧
      Demotes e h bytes victims e'' := by
  unfold putDurable
  simp only [settled]
  by_cases on : h ∈ e'.l2
  · rw [if_pos on]
    exact ⟨.l2, _, rfl, demotes⟩
  · rw [if_neg on, if_pos (demotes.settled.resolve_left on)]
    exact ⟨.l3, _, rfl, demotes.order, demotes.l2, demotes.l3⟩

theorem placement_undone (bytes : Bytes) (absent : h ∉ e.l2) (x : Flat) :
    (undoPut e (e.enterL2 h bytes) h).l2Placement x = e.l2Placement x := by
  unfold undoPut enterL2
  rw [lookup_eq_none.mpr absent, noteL2Present_eq]
  unfold l2Placement placement
  cases known : e.l2Arena.byHash.lookup h with
  | some p => simp
  | none =>
    have fresh := lookup_eq_none.mp known
    simp only [isSome_none, Bool.false_eq_true, if_false, isNone_none, if_true]
    change ((e.l2Arena.alloc h).1.free h).1.byHash.lookup x = _
    rw [byHash_free]
    rcases e.l2Arena.alloc_outcome h with same | ⟨-, p, -, placed⟩
    · rw [same, erase_of_notMem fresh]
    · rw [placed, erase_insert_of_notMem fresh]

theorem loose_eq (e : LocalTierEngine) (h : Flat) (bytes : Bytes) :
    (e.enterL2 h bytes).l2Order.find? (fun x => (e.enterL2 h bytes).pinCount x = 0) = (e.loose h).head? := by
  simp only [pinCount_enterL2]
  rw [enterL2_eq, loose, head?_filter]

structure Unmoved (e e' : LocalTierEngine) : Prop where
  l2 : e'.l2 = e.l2
  l3 : e'.l3 = e.l3
  order : e'.l2Order = e.l2Order
  pins : e'.pins = e.pins
  placements : ∀ x, e'.l2Placement x = e.l2Placement x

/-- The coldest loose blocks go to L3. With too few of them the put fails and moves nothing. -/
theorem Sound.putDurable_exact (sound : e.Sound) (bounded : 0 < e.caps.l2) (h : Flat) (bytes : Bytes) :
    (TierMap.len (e.l2.insert h bytes) - e.caps.l2 ≤ (e.loose h).length ∧
      ∃ tier e', e.putDurable h bytes = (e', .ok (tier, { l2DemotedToL3 := e.coldest h bytes })) ∧
        Demotes e h bytes (e.coldest h bytes) e') ∨
    ((e.loose h).length < TierMap.len (e.l2.insert h bytes) - e.caps.l2 ∧
      ∃ msg e', e.putDurable h bytes = (e', .error msg) ∧ Unmoved e e') := by
  have count : (e.enterL2 h bytes).l2.len = TierMap.len (e.l2.insert h bytes) := by rw [l2_enterL2]
  have cap : (e.enterL2 h bytes).caps.l2 = e.caps.l2 := by rw [enterL2_eq]
  have first := e.loose_eq h bytes
  have excess := sound.one_over h bytes
  rw [count, cap] at excess
  have unfit : ¬(e.enterL2 h bytes).FitsL2 → TierMap.len (e.l2.insert h bytes) - e.caps.l2 = 1 := by
    unfold FitsL2
    rw [count, cap]
    omega
  rcases settleL2_cases (sound.order_entered h bytes) (sound.one_over h bytes) with
    ⟨fit, ok⟩ | ⟨many, v, on, found, ok⟩ | ⟨many, pinned, msg, stuck⟩
  · have none : TierMap.len (e.l2.insert h bytes) - e.caps.l2 = 0 := by
      unfold FitsL2 at fit
      rw [count, cap] at fit
      omega
    have empty : e.coldest h bytes = [] := by rw [coldest, none, take_zero]
    rw [empty]
    exact .inl ⟨by omega, putDurable_of_settled ok (.none e h bytes)⟩
  · rw [first] at found
    obtain ⟨rest, listed⟩ := head?_eq_some_iff.mp found
    have one : e.coldest h bytes = [v] := by
      rw [coldest, unfit many, listed]
      rfl
    rw [one, unfit many, listed]
    exact .inl ⟨by simp, putDurable_of_settled ok (.one on)⟩
  · -- nothing is loose, and the call is undone
    have empty : e.loose h = [] := by
      rw [← head?_eq_none_iff, ← first, find?_eq_none]
      intro x listed
      have held := pinned x (Finmap.mem_keys.mp (((sound.order_entered h bytes).mem_iff x).mp listed))
      simpa using Nat.ne_of_gt held
    refine .inr ⟨by rw [unfit many, empty]; exact Nat.one_pos, ?_⟩
    rcases sound.putDurable_cases h bytes with ⟨e', tier, demoted, -, answer⟩ | ⟨e', msg, refuses, answer⟩
    · unfold putDurable at answer
      simp only [stuck] at answer
      cases answer
    · obtain ⟨a, -, same⟩ := refuses.relaid
      refine ⟨msg, e', answer, ?_⟩
      have undone : undoPut e (e.enterL2 h bytes) h = e' := by
        unfold putDurable at answer
        simp only [stuck] at answer
        exact congrArg Prod.fst answer
      have placements := placement_undone bytes refuses.absent
      rw [undone] at placements
      rw [same] at placements ⊢
      exact ⟨rfl, rfl, rfl, rfl, placements⟩

/-- `put_durable` refuses a block exactly if L2 has more blocks too many than blocks that are not pinned, and then
nothing has changed. Otherwise the coldest of those go to L3, as many as there are too many. -/
theorem put_durable_exact (run : Reached e) (bounded : 0 < e.caps.l2) (h : Flat) (bytes : Bytes) :
    ((∃ msg, (e.putDurable h bytes).2 = .error msg) ↔ e.caps.l2 < TierMap.len (e.l2.insert h bytes) ∧
      (e.loose h).length < TierMap.len (e.l2.insert h bytes) - e.caps.l2) ∧
    (∀ msg, (e.putDurable h bytes).2 = .error msg → Unmoved e (e.putDurable h bytes).1) ∧
    ∀ tier effects, (e.putDurable h bytes).2 = .ok (tier, effects) →
      effects = { l2DemotedToL3 := e.coldest h bytes } ∧
        Demotes e h bytes (e.coldest h bytes) (e.putDurable h bytes).1 := by
  rcases run.sound.putDurable_exact bounded h bytes with
    ⟨enough, tier, e', answer, demotes⟩ | ⟨few, msg, e', answer, unmoved⟩
  · rw [answer]
    refine ⟨⟨?_, fun short => by omega⟩, ?_, ?_⟩
    · rintro ⟨msg, error⟩
      cases error
    · rintro msg ⟨⟩
    · rintro tier' effects ⟨⟩
      exact ⟨rfl, demotes⟩
  · rw [answer]
    refine ⟨⟨fun _ => ⟨by omega, few⟩, fun _ => ⟨msg, rfl⟩⟩, fun _ _ => unmoved, ?_⟩
    rintro tier effects ⟨⟩

def crowded : LocalTierEngine :=
  [letter 1, letter 2, .pin [1]].foldl act (withCaps { l2 := 2 })

theorem pinned_block_is_passed : crowded.coldest [3] [3] = [[2]] ∧
    Demotes crowded [3] [3] [[2]] (crowded.putDurable [3] [3]).1 := by
  have reached : crowded.Reached :=
    Reach.foldl (.start ⟨{ l2 := 2 }, defaultSlotBytes, 64, 2, rfl⟩) (Reach.allowed_true _ _)
  have coldest : crowded.coldest [3] [3] = [[2]] := by decide +kernel
  have accepted : (crowded.putDurable [3] [3]).2 = .ok (.l2, { l2DemotedToL3 := [[2]] }) := by decide +kernel
  refine ⟨coldest, ?_⟩
  rw [← coldest]
  exact ((put_durable_exact reached (by decide) [3] [3]).2.2 _ _ accepted).2

end LocalTierEngine

end LakeKv
