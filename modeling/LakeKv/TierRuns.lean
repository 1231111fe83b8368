import LakeKv.Runs
import LakeKv.TierMoves

namespace LakeKv

open Finmap List SegmentArena

inductive TierOp
  | putDurable (h : Flat) (bytes : Bytes)
  | promoteToL0 (h : Flat)
  | promoteToL0Admitted (h : Flat)
  | beginPromote (h : Flat)
  | finishPromote (h : Flat)
  | fillReadMiss (h : Flat)
  | demoteL0 (h : Flat)
  | evictL0Pressure
  | demoteL2ToL3 (h : Flat)
  | pin (h : Flat)
  | unpin (h : Flat)
  | probe (h : Flat)
  | compactL2Segment (segmentId : Nat)
  | colocateL2Move (h : Flat) (destSegment destOffset : Nat)
  | discardSettled (h : Flat)

namespace LocalTierEngine

variable {ok : Flat → Bytes → Prop} {e : LocalTierEngine} {op : TierOp} {h : Flat} {bytes : Bytes}

def act (e : LocalTierEngine) : TierOp → LocalTierEngine
  | .putDurable h bytes => (e.putDurable h bytes).1
  | .promoteToL0 h => (e.promoteToL0 h).1
  | .promoteToL0Admitted h => (e.promoteToL0Admitted h).1
  | .beginPromote h => (e.beginPromote h).1
  | .finishPromote h => (e.finishPromote h).1
  | .fillReadMiss h => (e.fillReadMiss h).1
  | .demoteL0 h => (e.demoteL0 h).1
  | .evictL0Pressure => e.evictL0Pressure.1
  | .demoteL2ToL3 h => (e.demoteL2ToL3 h).1
  | .pin h => e.pin h
  | .unpin h => (e.unpin h).1
  | .probe h => (e.probe h).1
  | .compactL2Segment segmentId => (e.compactL2Segment segmentId).1
  | .colocateL2Move h destSegment destOffset => (e.colocateL2Move h destSegment destOffset).1
  | .discardSettled h => e.discardSettled h

def Numbered (e : LocalTierEngine) : TierOp → Prop
  | .colocateL2Move _ destSegment _ => e.Roomy ∧ destSegment + 1 < 2 ^ 64
  | _ => e.Roomy

instance (e : LocalTierEngine) : Decidable e.Roomy :=
  inferInstanceAs (Decidable (_ < _))

instance (e : LocalTierEngine) (op : TierOp) : Decidable (e.Numbered op) := by
  unfold Numbered
  split <;> infer_instance

/-- The bytes an operation brings in are as `ok` says, and it throws nothing away. -/
def Brings (ok : Flat → Bytes → Prop) : TierOp → Prop
  | .putDurable h bytes => ok h bytes
  | .discardSettled _ => False
  | _ => True

theorem Sound.keeps (sound : e.Sound) (brings : Brings ok op) : Keeps ok (e.Numbered op) e (e.act op) := by
  cases op with
  | putDurable h bytes => exact sound.keeps_putDurable brings
  | promoteToL0 h => exact sound.keeps_promoteToL0 h
  | promoteToL0Admitted h => exact sound.keeps_promoteToL0Admitted h
  | beginPromote h => exact sound.keeps_beginPromote h
  | finishPromote h => exact sound.keeps_finishPromote h
  | fillReadMiss h => exact sound.keeps_fillReadMiss h
  | demoteL0 h => exact sound.keeps_demoteL0 h
  | evictL0Pressure => exact sound.keeps_evictL0Pressure
  | demoteL2ToL3 h => exact sound.keeps_demoteL2ToL3 h
  | pin h => exact .flags sound _ _ _ _ _ _
  | unpin h => exact sound.keeps_unpin h
  | probe h => exact sound.keeps_probe h
  | compactL2Segment segmentId => exact sound.keeps_compactL2Segment segmentId
  | colocateL2Move h destSegment destOffset => exact sound.keeps_colocateL2Move h destSegment destOffset
  | discardSettled h => exact brings.elim

theorem Sound.discardSettled (sound : e.Sound) (h : Flat) : (e.discardSettled h).Sound := by
  have shrink : ∀ {m : TierMap} {cap : Nat}, m.len ≤ cap → TierMap.len (m.erase h) ≤ cap := by
    intro m cap few
    rw [TierMap.len, keys_erase]
    exact Finset.card_erase_le.trans few
  have drop : ∀ {m : TierMap} {order : Recency Flat}, Recency.Enumerates order m.keys →
      Recency.Enumerates (order.remove h) (m.erase h).keys := by
    intro m order listed
    rw [keys_erase]
    exact listed.remove h
  exact ⟨drop sound.order0, drop sound.order1, drop sound.order2, fun bounded => shrink (sound.cap0 bounded),
    fun bounded => shrink (sound.cap1 bounded), fun bounded => shrink (sound.cap2 bounded)⟩

theorem Laid.discardSettled (laid : e.Laid) (h : Flat) : (e.discardSettled h).Laid :=
  laid.drops rfl rfl

theorem Placed.discardSettled (placed : e.Placed) (h : Flat) : (e.discardSettled h).Placed :=
  placed.drops rfl rfl

theorem brings_or_discards (op : TierOp) : Brings (fun _ _ => True) op ∨ ∃ h, op = .discardSettled h := by
  cases op with
  | discardSettled h => exact .inr ⟨h, rfl⟩
  | _ => exact .inl trivial

theorem Sound.act (sound : e.Sound) (op : TierOp) : (e.act op).Sound := by
  rcases brings_or_discards op with brings | ⟨h, rfl⟩
  · exact (sound.keeps brings).sound
  · exact sound.discardSettled h

theorem Laid.act (laid : e.Laid) (sound : e.Sound) (op : TierOp) : (e.act op).Laid := by
  rcases brings_or_discards op with brings | ⟨h, rfl⟩
  · exact (sound.keeps brings).laid laid
  · exact laid.discardSettled h

theorem Placed.act (placed : e.Placed) (sound : e.Sound) (laid : e.Laid) (numbered : e.Numbered op) :
    (e.act op).Placed := by
  rcases brings_or_discards op with brings | ⟨h, rfl⟩
  · exact (sound.keeps brings).placed numbered laid placed
  · exact placed.discardSettled h

def Empty (e : LocalTierEngine) : Prop :=
  ∃ caps slotBytes capacitySlots n,
    e = (withCapsArena caps (.new slotBytes capacitySlots)).withPromoteAdmitAfter n

def EmptyFitting (e : LocalTierEngine) : Prop :=
  e.Empty ∧ e.l2Arena.capacitySlots * e.l2Arena.slotBytes ≤ 2 ^ 64

theorem Empty.sound (empty : e.Empty) : e.Sound := by
  obtain ⟨caps, slotBytes, capacitySlots, n, rfl⟩ := empty
  exact ⟨.empty, .empty, .empty, fun _ => Nat.zero_le _, fun _ => Nat.zero_le _, fun _ => Nat.zero_le _⟩

theorem EmptyFitting.laid (empty : e.EmptyFitting) : e.Laid := by
  obtain ⟨⟨caps, slotBytes, capacitySlots, n, rfl⟩, fits⟩ := empty
  refine ⟨⟨fits, (SegmentArena.Paired.new _ _).size, (SegmentArena.Paired.new _ _).placed⟩, ?_⟩
  intro h placed
  exact absurd placed notMem_empty

theorem EmptyFitting.placed (empty : e.EmptyFitting) : e.Placed := by
  obtain ⟨⟨caps, slotBytes, capacitySlots, n, rfl⟩, -⟩ := empty
  refine ⟨below_new slotBytes capacitySlots, ?_⟩
  intro h on
  exact absurd on notMem_empty

def Reached : LocalTierEngine → Prop :=
  Reach act Empty fun _ _ => True

theorem Reached.sound (run : Reached e) : e.Sound := by
  refine Reach.invariant (I := Sound) ?_ ?_ run
  · intro e empty
    exact Empty.sound empty
  · intro e op sound _
    exact sound.act op

def ReachedFitting : LocalTierEngine → Prop :=
  Reach act EmptyFitting fun _ _ => True

theorem ReachedFitting.both (run : ReachedFitting e) : e.Sound ∧ e.Laid := by
  refine Reach.invariant (I := fun e => e.Sound ∧ e.Laid) ?_ ?_ run
  · intro e empty
    exact ⟨empty.1.sound, empty.laid⟩
  · intro e op ⟨sound, laid⟩ _
    exact ⟨sound.act op, laid.act sound op⟩

/-- In every state the queues list their tiers, each block once, and the bounds are kept. While the offsets
fit into a segment, the layout has blocks of L2 only, and it has all of them if segment numbers never come
to the last one. -/
theorem representation (e : LocalTierEngine) : (Reached e → (e.l0Order.Nodup ∧ ∀ h, h ∈ e.l0Order ↔ h ∈ e.l0) ∧
      (e.l1Order.Nodup ∧ ∀ h, h ∈ e.l1Order ↔ h ∈ e.l1) ∧ (e.l2Order.Nodup ∧ ∀ h, h ∈ e.l2Order ↔ h ∈ e.l2) ∧
      (e.caps.l0 ≠ 0 → e.l0.len ≤ e.caps.l0) ∧ (e.caps.l1 ≠ 0 → e.l1.len ≤ e.caps.l1) ∧
      (e.caps.l2 ≠ 0 → e.l2.len ≤ e.caps.l2)) ∧ (ReachedFitting e → ∀ h, (e.l2Placement h).isSome → h ∈ e.l2) ∧
    (Reach act EmptyFitting Numbered e → ∀ h, (e.l2Placement h).isSome ↔ h ∈ e.l2) := by
  have listed : ∀ {order : Recency Flat} {m : TierMap}, Recency.Enumerates order m.keys →
      order.Nodup ∧ ∀ h, h ∈ order ↔ h ∈ m := by
    intro order m enumerates
    exact ⟨enumerates.nodup, fun h => (enumerates.mem_iff h).trans Finmap.mem_keys⟩
  refine ⟨?_, ?_, ?_⟩
  · intro run
    have sound := run.sound
    exact ⟨listed sound.order0, listed sound.order1, listed sound.order2, sound.cap0, sound.cap1, sound.cap2⟩
  · intro run h placed
    exact run.both.2.onL2 h (lookup_isSome.mp placed)
  · intro run h
    obtain ⟨-, laid, placed⟩ : e.Sound ∧ e.Laid ∧ e.Placed := by
      refine Reach.invariant (I := fun e => e.Sound ∧ e.Laid ∧ e.Placed) ?_ ?_ run
      · intro e empty
        exact ⟨empty.1.sound, empty.laid, empty.placed⟩
      · intro e op ⟨sound, laid, placed⟩ numbered
        exact ⟨sound.act op, laid.act sound op, placed.act sound laid numbered⟩
    constructor
    · intro known
      exact laid.onL2 h (lookup_isSome.mp known)
    · intro on
      exact lookup_isSome.mpr (placed.all h on)

def narrow : LocalTierEngine :=
  withCapsArena {} (.new defaultSlotBytes 1)

theorem narrow_empty : narrow.EmptyFitting :=
  ⟨⟨{}, defaultSlotBytes, 1, 2, rfl⟩, by decide⟩

def letter (n : UInt8) : TierOp :=
  .putDurable [n] [n]

theorem representation_two_blocks : ((narrow.act (letter 1)).act (letter 2)).l2Placement [2] = some ⟨2, 0⟩ ∧
      ∀ h, (((narrow.act (letter 1)).act (letter 2)).l2Placement h).isSome ↔
        h ∈ ((narrow.act (letter 1)).act (letter 2)).l2 := by
  refine ⟨by decide +kernel, (representation _).2.2 ?_⟩
  exact .next (.next (.start narrow_empty) (by decide +kernel)) (by decide +kernel)

/-- A block moved to the last segment number makes the count of numbers wrap. The next new segment then gets
the number 2 once more, and its block is on L2 without a place. -/
theorem last_segment_number :
    [4] ∈ ([letter 1, letter 2, .colocateL2Move [1] (2 ^ 64 - 1) 0, letter 3, letter 4].foldl act narrow).l2 ∧
      ([letter 1, letter 2, .colocateL2Move [1] (2 ^ 64 - 1) 0, letter 3, letter 4].foldl
        act narrow).l2Placement [4] = none := by
  decide +kernel

def accepted (e : LocalTierEngine) (before : List Flat) : TierOp → List Flat
  | .putDurable h bytes => if (e.putDurable h bytes).2.isOk then h :: before else before
  | _ => before

def note (x : LocalTierEngine × List Flat) (op : TierOp) : LocalTierEngine × List Flat :=
  (x.1.act op, x.1.accepted x.2 op)

theorem Sound.settled_of_accepted (sound : e.Sound) {before : List Flat} (op : TierOp)
    (mem : h ∈ e.accepted before op) : h ∈ before ∨ (e.act op).isSettled h = true := by
  cases op with
  | putDurable h' bytes =>
    unfold accepted at mem
    dsimp only at mem
    split at mem
    next accept =>
      rcases mem_cons.mp mem with rfl | mem
      · rcases sound.putDurable_cases h bytes with ⟨e', tier, demoted, step, eq⟩ | ⟨e', msg, -, eq⟩
        · refine .inr ?_
          change (e.putDurable h bytes).1.isSettled h = true
          rw [eq]
          exact step.settled
        · rw [eq] at accept
          cases accept
      · exact .inl mem
    · exact .inl mem
  | _ => exact .inl mem

theorem holds_of_settled (settled : e.isSettled h = true) : ∃ b, e.get h = some b := by
  have some : (e.get h).isSome = true := by
    unfold get
    rcases settled_iff.mp settled with on | on
    · simp [lookup_isSome.mpr on]
    · simp [lookup_isSome.mpr on]
  exact Option.isSome_iff_exists.mp some

/-- Once `put_durable` has accepted a block, it stays settled, and every copy of it is the bytes it was given:
in every run of the other operations that gives the same bytes for the same block. -/
theorem durable_bytes (content : Flat → Bytes) {x : LocalTierEngine × List Flat}
    (run : Reach note (fun x => x.1.Empty ∧ x.2 = []) (fun _ => Brings fun h bytes => bytes = content h) x) :
    ∀ h ∈ x.2, x.1.isSettled h = true ∧ x.1.get h = some (content h) ∧
      ∀ bytes, x.1.Holds h bytes → bytes = content h := by
  obtain ⟨-, copies, settled⟩ : x.1.Sound ∧ (∀ h bytes, x.1.Holds h bytes → bytes = content h) ∧
      ∀ h ∈ x.2, x.1.isSettled h = true := by
    refine Reach.invariant (I := fun x => x.1.Sound ∧ (∀ h bytes, x.1.Holds h bytes → bytes = content h) ∧
      ∀ h ∈ x.2, x.1.isSettled h = true) ?_ ?_ run
    · rintro ⟨e, before⟩ ⟨empty, none⟩
      refine ⟨empty.sound, ?_, ?_⟩
      · intro h bytes held
        obtain ⟨caps, slotBytes, capacitySlots, n, rfl⟩ := empty
        rcases held with held | held | held | held <;> cases held
      · intro h mem
        have : before = [] := none
        rw [this] at mem
        cases mem
    · rintro ⟨e, before⟩ op ⟨sound, copies, settled⟩ brings
      have keeps := sound.keeps brings
      refine ⟨keeps.sound, ?_, ?_⟩
      · intro h bytes held
        rcases keeps.copies h bytes held with held | fine
        · exact copies h bytes held
        · exact fine
      · intro h mem
        rcases sound.settled_of_accepted op mem with mem | now
        · exact keeps.settled h (settled h mem)
        · exact now
  intro h mem
  obtain ⟨bytes, found⟩ := holds_of_settled (settled h mem)
  refine ⟨settled h mem, ?_, copies h⟩
  rw [found, copies h bytes (holds_of_get found)]

/-- A block that another one has driven from L2 to L3 is still there, with its bytes. -/
theorem durable_bytes_driven_out : (([letter 1, letter 2, .promoteToL0 [1]].foldl note
        (withCaps { l0 := 1, l1 := 1, l2 := 1 }, [])).1.get [1]) = some [1] := by
  have start : (withCaps { l0 := 1, l1 := 1, l2 := 1 }).Empty := ⟨_, defaultSlotBytes, 64, 2, rfl⟩
  have first : Brings (fun h bytes => bytes = id h) (letter 1) := rfl
  have second : Brings (fun h bytes => bytes = id h) (letter 2) := rfl
  have third : Brings (fun h bytes => bytes = id h) (.promoteToL0 [1]) := trivial
  refine (durable_bytes id (.next (.next (.next (.start ⟨start, rfl⟩) first) second) third) [1] ?_).2.1
  decide +kernel

end LocalTierEngine

end LakeKv
