import LakeKv.TierEngine

namespace LakeKv

open Finmap List

namespace LocalTierEngine

open Recency

variable {e e' : LocalTierEngine} {h v x : Flat} {bytes b : Bytes}

/-- What is true of the tiers in every state: the queues list the blocks of their tiers, and the bounds
are kept. -/
structure Sound (e : LocalTierEngine) : Prop where
  order0 : Enumerates e.l0Order e.l0.keys
  order1 : Enumerates e.l1Order e.l1.keys
  order2 : Enumerates e.l2Order e.l2.keys
  cap0 : e.caps.l0 ≠ 0 → e.l0.len ≤ e.caps.l0
  cap1 : e.caps.l1 ≠ 0 → e.l1.len ≤ e.caps.l1
  cap2 : e.caps.l2 ≠ 0 → e.l2.len ≤ e.caps.l2

/-- The layout is consistent and has blocks of L2 only. -/
structure Laid (e : LocalTierEngine) : Prop where
  arena : e.l2Arena.Consistent
  onL2 : ∀ h ∈ e.l2Arena.byHash, h ∈ e.l2

theorem Laid.notMem (laid : e.Laid) (absent : h ∉ e.l2) : h ∉ e.l2Arena.byHash :=
  fun placed => absent (laid.onL2 h placed)

section Lengths

variable {m : TierMap}

theorem len_insert_of_notMem (new : h ∉ m) : TierMap.len (m.insert h bytes) = m.len + 1 := by
  rw [TierMap.len, keys_insert, Finset.card_insert_of_notMem (mem_keys.not.mpr new)]
  rfl

theorem len_insert_of_mem (old : h ∈ m) : TierMap.len (m.insert h bytes) = m.len := by
  rw [TierMap.len, keys_insert_of_mem old]
  rfl

theorem len_erase_of_mem (old : h ∈ m) : TierMap.len (m.erase h) + 1 = m.len :=
  card_erase old

end Lengths

variable {order : List Flat}

section

variable (on : ∀ x ∈ order, x ∈ e.l2)
include on

theorem scanL2_none (pinned : ∀ x ∈ order, 0 < e.pinCount x) {n : Nat} (many : e.caps.l2 < n) :
    e.scanL2 n order = (n, order.map (·, .keep)) := by
  induction order with
  | nil => rfl
  | cons x order ih =>
    have rest := ih (fun y hy => on y (mem_cons_of_mem x hy)) (fun y hy => pinned y (mem_cons_of_mem x hy))
    rw [scanL2, if_neg (by omega), if_neg (not_not.mpr (on x mem_cons_self)), if_pos (pinned x mem_cons_self), rest]
    rfl

theorem scanL2_some (nodup : order.Nodup) (first : order.find? (fun x => e.pinCount x = 0) = some v) :
    e.scanL2 (e.caps.l2 + 1) order = (e.caps.l2, order.map fun x => (x, if x = v then .demote else .keep)) := by
  induction order with
  | nil => cases first
  | cons x order ih =>
    obtain ⟨fresh, nodup⟩ := nodup_cons.mp nodup
    rw [scanL2, if_neg (by omega), if_neg (not_not.mpr (on x mem_cons_self))]
    by_cases pinned : 0 < e.pinCount x
    · have skip : order.find? (fun x => e.pinCount x = 0) = some v := by
        rwa [find?_cons_of_neg (by simp; omega)] at first
      have ne : x ≠ v := by
        rintro rfl
        exact fresh (mem_of_find?_eq_some skip)
      rw [if_pos pinned, ih (fun y hy => on y (mem_cons_of_mem x hy)) nodup skip, map_cons, if_neg ne]
    · have here : x = v := by
        rw [find?_cons_of_pos (by simp; omega)] at first
        exact Option.some.inj first
      have others : order.map (fun y => (y, if y = v then Mark.demote else Mark.keep)) = order.map (·, .keep) := by
        apply map_congr_left
        intro y hy
        rw [if_neg]
        rintro rfl
        exact fresh (here ▸ hy)
      have stop : e.scanL2 e.caps.l2 order = (e.caps.l2, order.map (·, .keep)) := by
        cases order with
        | nil => rfl
        | cons y order => rw [scanL2, if_pos (le_refl _)]
      rw [if_neg pinned, Nat.add_sub_cancel, stop, map_cons, others, if_pos here]

end

theorem marked_all_keep (order : List Flat) :
    marked (order.map (·, .keep)) .keep = order ∧ marked (order.map (·, .keep)) .demote = [] := by
  unfold marked
  rw [filter_map, map_map, filter_map, map_map]
  constructor
  · simp [Function.comp_def]
  · simp [Function.comp_def]

theorem marked_one (nodup : order.Nodup) (mem : v ∈ order) :
    marked (order.map fun x => (x, if x = v then Mark.demote else .keep)) .keep = Recency.remove order v ∧
      marked (order.map fun x => (x, if x = v then Mark.demote else .keep)) .demote = [v] := by
  unfold marked
  rw [filter_map, map_map, filter_map, map_map]
  constructor
  · simp [Function.comp_def, Recency.remove]
  · have demote : ∀ x, (decide ((if x = v then Mark.demote else Mark.keep) = .demote)) = (x == v) := by
      intro x
      by_cases same : x = v <;> simp [same]
    simp only [Function.comp_def, demote, map_id']
    rw [filter_beq, count_eq_one_of_mem nodup mem]
    rfl

def FitsL2 (e : LocalTierEngine) : Prop :=
  e.caps.l2 = 0 ∨ e.l2.len ≤ e.caps.l2

instance (e : LocalTierEngine) : Decidable e.FitsL2 :=
  inferInstanceAs (Decidable (_ ∨ _))

def moveToL3 (e : LocalTierEngine) (v : Flat) : LocalTierEngine :=
  noteL2Absent { e.demoteVictim v with l2Order := e.l2Order.remove v } v

theorem settleL2_fits (fits : e.FitsL2) : e.settleL2 = .ok (e, []) := by
  unfold settleL2 ensureL2Cap
  by_cases unbounded : e.caps.l2 = 0
  · rw [if_pos unbounded]
    rfl
  have few : e.l2.len ≤ e.caps.l2 := fits.resolve_left unbounded
  have scan : e.scanL2 e.l2.len e.l2Order = (e.l2.len, e.l2Order.map (·, .keep)) := by
    cases e.l2Order with
    | nil => rfl
    | cons x order => rw [scanL2, if_pos few]
  obtain ⟨keep, demote⟩ := marked_all_keep e.l2Order
  rw [if_neg unbounded, scan, if_neg (by dsimp only; omega)]
  dsimp only
  rw [keep, demote]
  rfl

theorem settleL2_full (order : Enumerates e.l2Order e.l2.keys) (bounded : e.caps.l2 ≠ 0)
    (full : e.l2.len = e.caps.l2 + 1)
    (first : e.l2Order.find? (fun x => e.pinCount x = 0) = some v) :
    e.settleL2 = .ok (e.moveToL3 v, [v]) := by
  have on : ∀ x ∈ e.l2Order, x ∈ e.l2 := fun x hx => mem_keys.mp ((order.mem_iff x).mp hx)
  have mem := mem_of_find?_eq_some first
  have scan := scanL2_some on order.nodup first
  obtain ⟨keep, demote⟩ := marked_one order.nodup mem
  unfold settleL2 ensureL2Cap
  rw [if_neg bounded, full, scan, if_neg (lt_irrefl _)]
  dsimp only
  rw [keep, demote]
  rfl

theorem settleL2_stuck (order : Enumerates e.l2Order e.l2.keys) (unfit : ¬ e.FitsL2)
    (pinned : ∀ x ∈ e.l2, 0 < e.pinCount x) : ∃ msg, e.settleL2 = .error msg := by
  have on : ∀ x ∈ e.l2Order, x ∈ e.l2 := fun x hx => mem_keys.mp ((order.mem_iff x).mp hx)
  obtain ⟨bounded, many⟩ := not_or.mp unfit
  have scan := scanL2_none on (fun x hx => pinned x (on x hx)) (not_le.mp many)
  unfold settleL2 ensureL2Cap
  rw [if_neg bounded, scan, if_pos (not_le.mp many)]
  exact ⟨_, rfl⟩

theorem settleL2_cases (order : Enumerates e.l2Order e.l2.keys) (one : e.caps.l2 ≠ 0 → e.l2.len ≤ e.caps.l2 + 1) :
    (e.FitsL2 ∧ e.settleL2 = .ok (e, [])) ∨
      (¬ e.FitsL2 ∧ ∃ v ∈ e.l2, e.l2Order.find? (fun x => e.pinCount x = 0) = some v ∧
        e.settleL2 = .ok (e.moveToL3 v, [v])) ∨
      (¬ e.FitsL2 ∧ (∀ x ∈ e.l2, 0 < e.pinCount x) ∧ ∃ msg, e.settleL2 = .error msg) := by
  by_cases fits : e.FitsL2
  · exact .inl ⟨fits, settleL2_fits fits⟩
  obtain ⟨bounded, many⟩ := not_or.mp fits
  have full : e.l2.len = e.caps.l2 + 1 := by
    have := one bounded
    omega
  cases first : e.l2Order.find? (fun x => e.pinCount x = 0) with
  | some v =>
    have mem := mem_keys.mp ((order.mem_iff v).mp (mem_of_find?_eq_some first))
    exact .inr (.inl ⟨fits, v, mem, rfl, settleL2_full order bounded full first⟩)
  | none =>
    have pinned : ∀ x ∈ e.l2, 0 < e.pinCount x := by
      intro x hx
      have := find?_eq_none.mp first x ((order.mem_iff x).mpr (mem_keys.mpr hx))
      simpa [Nat.pos_iff_ne_zero] using this
    exact .inr (.inr ⟨fits, pinned, settleL2_stuck order fits pinned⟩)

theorem noteL2Present_eq (e : LocalTierEngine) (h : Flat) : e.noteL2Present h = { e with
      l2Arena := if (e.l2Arena.placement h).isNone then (e.l2Arena.alloc h).1 else e.l2Arena } := by
  unfold noteL2Present
  split <;> rfl

theorem enterL2_eq (e : LocalTierEngine) (h : Flat) (bytes : Bytes) : e.enterL2 h bytes = { e with
      l2 := e.l2.insert h bytes
      l2Order := e.l2Order.touch h
      l2Arena := (e.enterL2 h bytes).l2Arena } := by
  unfold enterL2
  rw [noteL2Present_eq]

theorem Laid.noted (laid : e.Laid) (h : Flat) (bytes : Bytes) :
    SegmentArena.Noted e.l2Arena h (e.enterL2 h bytes).l2Arena := by
  unfold enterL2
  rw [noteL2Present_eq]
  exact laid.arena.noted h

def keepL3 (e : LocalTierEngine) (v : Flat) (bytes : Bytes) : TierMap :=
  if v ∈ e.l3 then e.l3 else e.l3.insert v bytes

variable {old : Bytes} {demoted : List Flat}

theorem moveToL3_eq (on : e.l2.lookup v = some old) : e.moveToL3 v = { e with
      l2 := e.l2.erase v
      l3 := e.keepL3 v old
      l2Order := e.l2Order.remove v
      l2Arena := (e.l2Arena.free v).1 } := by
  unfold moveToL3 demoteVictim
  rw [on]
  rfl

theorem swap_eq (on : e.l2.lookup v = some old) (absent : h ∉ e.l2) (bytes : Bytes) :
    (e.enterL2 h bytes).moveToL3 v = { e with
      l2 := (e.l2.insert h bytes).erase v
      l3 := e.keepL3 v old
      l2Order := (e.l2Order.touch h).remove v
      l2Arena := ((e.enterL2 h bytes).l2Arena.free v).1 } := by
  have still : (e.enterL2 h bytes).l2.lookup v = some old := by
    rw [enterL2_eq]
    exact (lookup_insert_of_ne _ (ne_of_mem_of_not_mem (mem_of_lookup_eq_some on) absent)).trans on
  rw [moveToL3_eq still, enterL2_eq]
  rfl

/-- How a block comes to be settled: it has room on L2, another block makes room for it, or it goes on to
L3 because every block on L2 is pinned. The blocks that go to L3 are listed. -/
inductive SettlesL2 (e : LocalTierEngine) (h : Flat) (bytes : Bytes) : LocalTierEngine → List Flat → Prop
  | stays (room : e.caps.l2 = 0 ∨ h ∈ e.l2 ∨ e.l2.len < e.caps.l2) :
      SettlesL2 e h bytes (e.enterL2 h bytes) []
  | swaps {v : Flat} {old : Bytes} (full : e.caps.l2 ≠ 0 ∧ e.l2.len = e.caps.l2) (absent : h ∉ e.l2)
      (on : e.l2.lookup v = some old) (loose : e.pinCount v = 0) :
      SettlesL2 e h bytes ((e.enterL2 h bytes).moveToL3 v) [v]
  | passes {a : SegmentArena} (full : e.caps.l2 ≠ 0 ∧ e.l2.len = e.caps.l2) (absent : h ∉ e.l2)
      (pinned : ∀ x ∈ e.l2, 0 < e.pinCount x) (loose : e.pinCount h = 0)
      (relaid : e.Laid → e.l2Arena.Relaid a) :
      SettlesL2 e h bytes { e with l3 := e.keepL3 h bytes, l2Arena := a } [h]

structure RefusesL2 (e : LocalTierEngine) (h : Flat) (e' : LocalTierEngine) : Prop where
  full : e.caps.l2 ≠ 0 ∧ e.l2.len = e.caps.l2
  absent : h ∉ e.l2
  pinned : ∀ x ∈ e.l2, 0 < e.pinCount x
  held : 0 < e.pinCount h
  relaid : ∃ a, (e.Laid → e.l2Arena.Relaid a) ∧ e' = { e with l2Arena := a }

theorem pinCount_enterL2 (e : LocalTierEngine) (h : Flat) (bytes : Bytes) (x : Flat) :
    (e.enterL2 h bytes).pinCount x = e.pinCount x := by
  rw [enterL2_eq]
  rfl

theorem l2_enterL2 (e : LocalTierEngine) (h : Flat) (bytes : Bytes) : (e.enterL2 h bytes).l2 = e.l2.insert h bytes := by
  rw [enterL2_eq]

section

variable (sound : e.Sound)
include sound

theorem Sound.order_entered (h : Flat) (bytes : Bytes) :
    Enumerates (e.enterL2 h bytes).l2Order (e.enterL2 h bytes).l2.keys := by
  rw [enterL2_eq]
  dsimp only
  rw [keys_insert]
  exact sound.order2.touch h

theorem Sound.fits_entered_iff (h : Flat) (bytes : Bytes) :
    (e.enterL2 h bytes).FitsL2 ↔ e.caps.l2 = 0 ∨ h ∈ e.l2 ∨ e.l2.len < e.caps.l2 := by
  have cap := sound.cap2
  rw [enterL2_eq, FitsL2]
  dsimp only
  by_cases on : h ∈ e.l2
  · rw [len_insert_of_mem on]
    by_cases unbounded : e.caps.l2 = 0
    · simp [unbounded]
    · have := cap unbounded
      simp [on]
      omega
  · rw [len_insert_of_notMem on]
    simp only [on, false_or]
    omega

theorem Sound.one_over (h : Flat) (bytes : Bytes) (bounded : (e.enterL2 h bytes).caps.l2 ≠ 0) :
    (e.enterL2 h bytes).l2.len ≤ (e.enterL2 h bytes).caps.l2 + 1 := by
  rw [enterL2_eq] at bounded ⊢
  have cap := sound.cap2 bounded
  dsimp only
  by_cases on : h ∈ e.l2
  · rw [len_insert_of_mem on]
    omega
  · rw [len_insert_of_notMem on]
    omega

theorem Sound.settle_cases (h : Flat) (bytes : Bytes) :
    ((e.caps.l2 = 0 ∨ h ∈ e.l2 ∨ e.l2.len < e.caps.l2) ∧ (e.enterL2 h bytes).settleL2 = .ok (e.enterL2 h bytes, [])) ∨
      ((e.caps.l2 ≠ 0 ∧ e.l2.len = e.caps.l2) ∧ h ∉ e.l2 ∧
        ((∃ v ∈ e.l2, e.pinCount v = 0 ∧ (e.enterL2 h bytes).settleL2 = .ok ((e.enterL2 h bytes).moveToL3 v, [v])) ∨
          ((∀ x ∈ e.l2, 0 < e.pinCount x) ∧ e.pinCount h = 0 ∧
            (e.enterL2 h bytes).settleL2 = .ok ((e.enterL2 h bytes).moveToL3 h, [h])) ∨
          ((∀ x ∈ e.l2, 0 < e.pinCount x) ∧ 0 < e.pinCount h ∧ ∃ msg, (e.enterL2 h bytes).settleL2 = .error msg))) := by
  have order := sound.order_entered h bytes
  have fits := sound.fits_entered_iff h bytes
  have unfit : ¬ (e.enterL2 h bytes).FitsL2 → (e.caps.l2 ≠ 0 ∧ e.l2.len = e.caps.l2) ∧ h ∉ e.l2 := by
    rw [fits]
    intro none
    obtain ⟨bounded, none⟩ := not_or.mp none
    obtain ⟨absent, none⟩ := not_or.mp none
    have := sound.cap2 bounded
    exact ⟨⟨bounded, by omega⟩, absent⟩
  rcases settleL2_cases order (sound.one_over h bytes) with ⟨fit, ok⟩ | ⟨many, v, mem, first, ok⟩ | ⟨many, pinned, stuck⟩
  · exact .inl ⟨fits.mp fit, ok⟩
  · obtain ⟨full, absent⟩ := unfit many
    refine .inr ⟨full, absent, ?_⟩
    have loose : e.pinCount v = 0 := by
      have := find?_some first
      rw [pinCount_enterL2] at this
      exact of_decide_eq_true this
    have touched : (e.enterL2 h bytes).l2Order = e.l2Order.touch h := by rw [enterL2_eq]
    rw [touched] at first
    rcases find?_touch first with ⟨rfl, others⟩ | ⟨listed, ne⟩
    · refine .inr (.inl ⟨?_, loose, ok⟩)
      intro x hx
      have ne : x ≠ v := ne_of_mem_of_not_mem hx absent
      have := others x ((sound.order2.mem_iff x).mpr (mem_keys.mpr hx)) ne
      rw [pinCount_enterL2] at this
      exact Nat.pos_of_ne_zero (of_decide_eq_false this)
    · exact .inl ⟨v, mem_keys.mp ((sound.order2.mem_iff v).mp listed), loose, ok⟩
  · obtain ⟨full, absent⟩ := unfit many
    rw [l2_enterL2] at pinned
    simp only [pinCount_enterL2] at pinned
    refine .inr ⟨full, absent, .inr (.inr ⟨?_, pinned h (mem_insert.mpr (.inl rfl)), stuck⟩)⟩
    intro x hx
    exact pinned x (mem_insert.mpr (.inr hx))

end

theorem Laid.forgotten (laid : e.Laid) (absent : h ∉ e.l2) (bytes : Bytes) :
    e.l2Arena.Relaid ((e.enterL2 h bytes).l2Arena.free h).1 :=
  (laid.noted h bytes).forgotten (laid.notMem absent)

theorem Sound.notMem_order (sound : e.Sound) (absent : h ∉ e.l2) : h ∉ e.l2Order :=
  fun listed => absent (Finmap.mem_keys.mp ((sound.order2.mem_iff h).mp listed))

theorem Sound.pass_eq (sound : e.Sound) (absent : h ∉ e.l2) (bytes : Bytes) : (e.enterL2 h bytes).moveToL3 h =
      { e with l3 := e.keepL3 h bytes, l2Arena := ((e.enterL2 h bytes).l2Arena.free h).1 } := by
  have on : (e.enterL2 h bytes).l2.lookup h = some bytes := by
    rw [l2_enterL2]
    exact lookup_insert _
  rw [moveToL3_eq on, enterL2_eq]
  dsimp only
  rw [erase_insert_of_notMem absent, remove_touch (sound.notMem_order absent)]
  rfl

theorem mem_keepL3 (e : LocalTierEngine) (v : Flat) (bytes : Bytes) : v ∈ e.keepL3 v bytes := by
  unfold keepL3
  split
  next on => exact on
  · exact mem_insert.mpr (.inl rfl)

theorem settled_iff : e.isSettled x = true ↔ x ∈ e.l2 ∨ x ∈ e.l3 :=
  decide_eq_true_iff

theorem lookup_keepL3 (found : (e.keepL3 v old).lookup x = some b) : e.l3.lookup x = some b ∨ (x = v ∧ b = old) := by
  unfold keepL3 at found
  split at found
  · exact .inl found
  · rcases lookup_insert_some found with same | ⟨-, found⟩
    · exact .inr same
    · exact .inl found

theorem mem_keepL3_of_mem (mem : x ∈ e.l3) : x ∈ e.keepL3 v old := by
  unfold keepL3
  split
  · exact mem
  · exact mem_insert.mpr (.inr mem)

theorem lookup_of_mem {m : TierMap} (mem : h ∈ m) : ∃ bytes, m.lookup h = some bytes :=
  mem_iff.mp mem

theorem mem_l2_swapped (absent : h ∉ e.l2) (on : v ∈ e.l2) (bytes : Bytes) :
    h ∈ ((e.enterL2 h bytes).moveToL3 v).l2 := by
  have ne : h ≠ v := (ne_of_mem_of_not_mem on absent).symm
  obtain ⟨old, found⟩ := lookup_of_mem on
  rw [swap_eq found absent]
  exact mem_erase.mpr ⟨ne, mem_insert.mpr (.inl rfl)⟩

theorem SettlesL2.settled (step : SettlesL2 e h bytes e' demoted) : e'.isSettled h = true := by
  apply decide_eq_true
  cases step with
  | stays _ =>
    rw [l2_enterL2]
    exact .inl (mem_insert.mpr (.inl rfl))
  | swaps _ absent on _ => exact .inl (mem_l2_swapped absent (mem_of_lookup_eq_some on) bytes)
  | passes => exact .inr (mem_keepL3 e h bytes)

theorem Sound.fillL2_cases (sound : e.Sound) (absent : h ∉ e.l2) (on3 : h ∈ e.l3) (bytes : Bytes) :
    (∃ e' demoted, SettlesL2 e h bytes e' demoted ∧ e.fillL2 h bytes = (e', .ok demoted)) ∨
      ∃ e' msg, RefusesL2 e h e' ∧ e.fillL2 h bytes = (e', .error msg) := by
  have forgotten := fun laid : e.Laid => laid.forgotten absent bytes
  unfold fillL2
  rw [if_pos ⟨absent, on3⟩]
  rcases sound.settle_cases h bytes with ⟨room, ok⟩ | ⟨full, -, ⟨v, mem, loose, ok⟩ | ⟨pinned, loose, ok⟩ |
    ⟨pinned, held, msg, stuck⟩⟩
  · have settled : (e.enterL2 h bytes).isSettled h = true := by
      apply decide_eq_true
      rw [l2_enterL2]
      exact .inl (mem_insert.mpr (.inl rfl))
    refine .inl ⟨_, _, .stays room, ?_⟩
    simp only [ok]
    rw [if_pos settled]
  · obtain ⟨old, on⟩ := lookup_of_mem mem
    have settled : ((e.enterL2 h bytes).moveToL3 v).isSettled h = true :=
      decide_eq_true (.inl (mem_l2_swapped absent mem bytes))
    refine .inl ⟨_, _, .swaps full absent on loose, ?_⟩
    simp only [ok]
    rw [if_pos settled]
  · have settled : ((e.enterL2 h bytes).moveToL3 h).isSettled h = true := by
      apply decide_eq_true
      rw [sound.pass_eq absent]
      exact .inr (mem_keepL3 e h bytes)
    refine .inl ⟨_, _, .passes full absent pinned loose forgotten, ?_⟩
    simp only [ok]
    rw [if_pos settled, sound.pass_eq absent]
  · refine .inr ⟨_, msg, ⟨full, absent, pinned, held, _, forgotten, rfl⟩, ?_⟩
    simp only [stuck]
    rw [enterL2_eq]
    unfold noteL2Absent
    dsimp only
    rw [erase_insert_of_notMem absent, remove_touch (sound.notMem_order absent)]

/-- A put settles its block, or L2 is full of pinned blocks and refuses it. -/
theorem Sound.putDurable_cases (sound : e.Sound) (h : Flat) (bytes : Bytes) :
    (∃ e' tier demoted, SettlesL2 e h bytes e' demoted ∧
        e.putDurable h bytes = (e', .ok (tier, { l2DemotedToL3 := demoted }))) ∨
      ∃ e' msg, RefusesL2 e h e' ∧ e.putDurable h bytes = (e', .error msg) := by
  unfold putDurable
  rcases sound.settle_cases h bytes with ⟨room, ok⟩ | ⟨full, absent, ⟨v, mem, loose, ok⟩ |
    ⟨pinned, loose, ok⟩ | ⟨pinned, held, msg, stuck⟩⟩
  · have on : h ∈ (e.enterL2 h bytes).l2 := by
      rw [l2_enterL2]
      exact mem_insert.mpr (.inl rfl)
    refine .inl ⟨_, .l2, _, .stays room, ?_⟩
    simp only [ok]
    rw [if_pos on]
  · obtain ⟨old, on⟩ := lookup_of_mem mem
    refine .inl ⟨_, .l2, _, .swaps full absent on loose, ?_⟩
    simp only [ok]
    rw [if_pos (mem_l2_swapped absent mem bytes)]
  · have forgotten := fun laid : e.Laid => (laid.forgotten absent bytes).free (laid.notMem absent)
    refine .inl ⟨_, .l3, _, .passes full absent pinned loose forgotten, ?_⟩
    simp only [ok]
    rw [sound.pass_eq absent, if_neg absent, if_pos (mem_keepL3 e h bytes)]
    rfl
  · have unlisted : e.l2Order.idxOf? h = none := idxOf?_eq_none_iff.mpr (sound.notMem_order absent)
    have order : restoreOrder (e.l2Order.touch h) h none = e.l2Order := by
      unfold restoreOrder
      rw [dropLast_touch, remove_of_notMem (sound.notMem_order absent)]
    refine .inr ⟨undoPut e (e.enterL2 h bytes) h, msg, ⟨full, absent, pinned, held, ?_⟩, by simp only [stuck]⟩
    unfold undoPut
    rw [lookup_eq_none.mpr absent]
    dsimp only
    rw [unlisted]
    by_cases known : (e.l2Arena.placement h).isSome = true
    · rw [if_pos known, enterL2_eq]
      dsimp only
      rw [erase_insert_of_notMem absent, order]
      refine ⟨_, fun laid => ?_, rfl⟩
      exact absurd (lookup_isSome.mp known) (laid.notMem absent)
    · rw [if_neg known, enterL2_eq]
      unfold noteL2Absent
      dsimp only
      rw [erase_insert_of_notMem absent, order]
      exact ⟨_, fun laid => laid.forgotten absent bytes, rfl⟩

theorem roomL1_spec {cap : Nat} (pos : 0 < cap) {order : Recency Flat} {m : TierMap} (listed : Enumerates order m.keys) :
    Enumerates (roomL1 cap order m).1 (roomL1 cap order m).2.keys ∧ (roomL1 cap order m).2.len < cap ∧
      ∀ x b, (roomL1 cap order m).2.lookup x = some b → m.lookup x = some b := by
  induction order generalizing m with
  | nil =>
    have none := listed.length_eq
    refine ⟨listed, ?_, fun _ _ => id⟩
    rw [length_nil] at none
    change m.keys.card < cap
    omega
  | cons v order ih =>
    unfold roomL1
    by_cases full : cap ≤ m.len
    · obtain ⟨fresh, nodup⟩ := nodup_cons.mp listed.nodup
      have rest : Enumerates order (m.erase v).keys := by
        refine ⟨nodup, ?_⟩
        intro x
        rw [keys_erase, Finset.mem_erase, ← listed.mem_iff x, mem_cons]
        constructor
        · intro hx
          refine ⟨?_, .inr hx⟩
          rintro rfl
          exact fresh hx
        · rintro ⟨ne, eq | hx⟩
          · exact absurd eq ne
          · exact hx
      rw [if_pos full]
      obtain ⟨step, room, kept⟩ := ih rest
      exact ⟨step, room, fun x b found => (lookup_erase_some (kept x b found)).2⟩
    · rw [if_neg full]
      exact ⟨listed, not_le.mp full, fun _ _ => id⟩

theorem Sound.fillL1_eq (sound : e.Sound) (h : Flat) (bytes : Bytes) :
    ∃ l1 order, e.fillL1 h bytes = { e with l1 := l1, l1Order := order } ∧ Enumerates order l1.keys ∧
      (e.caps.l1 ≠ 0 → TierMap.len l1 ≤ e.caps.l1) ∧
      ∀ x b, l1.lookup x = some b → e.l1.lookup x = some b ∨ (x = h ∧ b = bytes) := by
  unfold fillL1
  by_cases on : h ∈ e.l1
  · rw [if_pos on]
    exact ⟨e.l1, e.l1Order, rfl, sound.order1, sound.cap1, fun _ _ => Or.inl⟩
  rw [if_neg on]
  have room : ∃ l1 order, e.ensureL1Room = { e with l1 := l1, l1Order := order } ∧
      Enumerates order l1.keys ∧ (e.caps.l1 ≠ 0 → TierMap.len l1 < e.caps.l1) ∧
      ∀ x b, l1.lookup x = some b → e.l1.lookup x = some b := by
    unfold ensureL1Room
    by_cases unbounded : e.caps.l1 = 0
    · rw [if_pos unbounded]
      exact ⟨e.l1, e.l1Order, rfl, sound.order1, fun bounded => absurd unbounded bounded, fun _ _ => id⟩
    · rw [if_neg unbounded]
      obtain ⟨listed, few, kept⟩ := roomL1_spec (Nat.pos_of_ne_zero unbounded) sound.order1
      exact ⟨_, _, rfl, listed, fun _ => few, kept⟩
  obtain ⟨l1, order, eq, listed, few, kept⟩ := room
  have absent : h ∉ l1 := by
    intro mem
    obtain ⟨b, found⟩ := lookup_of_mem mem
    exact on (mem_of_lookup_eq_some (kept h b found))
  refine ⟨l1.insert h bytes, Recency.touch order h, by rw [eq], ?_, ?_, ?_⟩
  · rw [keys_insert]
    exact listed.touch h
  · intro bounded
    have := few bounded
    rw [len_insert_of_notMem absent]
    omega
  · intro x b found
    rcases lookup_insert_some found with same | ⟨-, found⟩
    · exact .inr same
    · exact .inl (kept x b found)

theorem victimL0_spec (found : e.victimL0 = some v) : v ∈ e.l0Order ∧ e.pinCount v = 0 ∧ e.isSettled v = true := by
  have both : ∀ {order : List Flat} {p : Flat → Bool}, order.find? p = some v →
      (∀ x, p x = true → e.evictable x = true) → v ∈ order ∧ e.pinCount v = 0 ∧ e.isSettled v = true := by
    intro order p first implies
    have test := implies v (find?_some first)
    unfold evictable hasDurableBacking at test
    exact ⟨mem_of_find?_eq_some first, of_decide_eq_true test⟩
  unfold victimL0 at found
  rcases Option.or_eq_some_iff.mp found with first | ⟨-, first⟩
  · refine both first ?_
    intro x hx
    exact (of_decide_eq_true hx).2
  · exact both first fun _ => id

def leaveL0 (e : LocalTierEngine) (v : Flat) : LocalTierEngine :=
  { e with l0 := e.l0.erase v, l0Order := e.l0Order.remove v, oneShot := e.oneShot.erase v }

theorem demoteL0_ok (loose : e.pinCount v = 0) (settled : e.isSettled v = true) :
    e.demoteL0 v = (e.leaveL0 v, .ok (e.l0Nbytes v)) := by
  unfold demoteL0 hasDurableBacking
  rw [if_neg (by omega), if_neg (not_not.mpr settled)]
  rfl

theorem evictL0Pressure_cases (e : LocalTierEngine) :
    ((e.caps.l0 = 0 ∨ e.l0.len < e.caps.l0) ∧ e.evictL0Pressure = (e, .ok none)) ∨
      ((e.caps.l0 ≠ 0 ∧ e.caps.l0 ≤ e.l0.len) ∧ ((∃ v, v ∈ e.l0Order ∧ e.pinCount v = 0 ∧ e.isSettled v = true ∧
            e.evictL0Pressure = (e.leaveL0 v, .ok (some v))) ∨
          ∃ msg, e.evictL0Pressure = (e, .error msg))) := by
  unfold evictL0Pressure
  by_cases room : e.caps.l0 = 0 ∨ e.l0.len < e.caps.l0
  · rw [if_pos room]
    exact .inl ⟨room, rfl⟩
  rw [if_neg room]
  refine .inr ⟨by omega, ?_⟩
  cases found : e.victimL0 with
  | none => exact .inr ⟨_, rfl⟩
  | some v =>
    obtain ⟨listed, loose, settled⟩ := victimL0_spec found
    simp only [demoteL0_ok loose settled]
    exact .inl ⟨v, listed, loose, settled, rfl⟩

theorem Sound.ensureL0Room_cases (sound : e.Sound) :
    ((e.caps.l0 = 0 ∨ e.l0.len < e.caps.l0) ∧ e.ensureL0Room = (e, .ok {})) ∨
      ((e.caps.l0 ≠ 0 ∧ e.l0.len = e.caps.l0) ∧ ((∃ v ∈ e.l0, e.pinCount v = 0 ∧ e.isSettled v = true ∧
            e.ensureL0Room = (e.leaveL0 v, .ok { l0Demoted := [v] })) ∨
          ∃ msg, e.ensureL0Room = (e, .error msg))) := by
  unfold ensureL0Room
  by_cases unbounded : e.caps.l0 = 0
  · rw [if_pos unbounded]
    exact .inl ⟨.inl unbounded, rfl⟩
  rw [if_neg unbounded]
  have cap := sound.cap0 unbounded
  have count : e.l0Order.length = e.l0.len := sound.order0.length_eq
  rw [roomL0]
  by_cases room : e.l0.len < e.caps.l0
  · rw [if_pos room]
    exact .inl ⟨.inr room, rfl⟩
  rw [if_neg room]
  refine .inr ⟨⟨unbounded, by omega⟩, ?_⟩
  rcases evictL0Pressure_cases e with ⟨none, -⟩ | ⟨-, ⟨v, listed, loose, settled, ok⟩ | ⟨msg, stuck⟩⟩
  · omega
  · have on : v ∈ e.l0 := mem_keys.mp ((sound.order0.mem_iff v).mp listed)
    have less := len_erase_of_mem on
    obtain ⟨fuel, hfuel⟩ : ∃ fuel, e.l0Order.length = fuel + 1 := ⟨e.l0Order.length - 1, by omega⟩
    refine .inl ⟨v, on, loose, settled, ?_⟩
    simp only [ok]
    rw [hfuel, roomL0, if_pos]
    · rfl
    · change TierMap.len (e.l0.erase v) < e.caps.l0
      omega
  · simp only [stuck]
    exact .inr ⟨msg, rfl⟩

end LocalTierEngine

end LakeKv
