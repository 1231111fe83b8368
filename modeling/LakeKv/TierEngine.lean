import LakeKv.ArenaMoves
import LakeKv.Recency

namespace LakeKv

/-- `TierCaps`: block counts, 0 for no bound. -/
structure TierCaps where
  l0 : Nat := 64
  l1 : Nat := 256
  l2 : Nat := 1024

inductive LocalTier
  | l0
  | l1
  | l2
  | l3
  deriving DecidableEq, Repr

inductive BeginPromote
  | started
  | alreadyInFlight
  | alreadyL0
  | missing
  deriving DecidableEq, Repr

/-- Moves of other blocks that the control plane has to learn of. -/
structure TierSideEffects where
  l0Demoted : List Flat := []
  l2DemotedToL3 : List Flat := []
  deriving DecidableEq, Repr

inductive AccessKind
  | l0Hit
  | l1Hit
  | l2Hit
  | l3Hit
  | miss
  deriving DecidableEq, Repr

def AccessKind.cost : AccessKind → Nat
  | .l0Hit => 1
  | .l1Hit => 4
  | .l2Hit => 20
  | .l3Hit => 200
  | .miss => 1000

structure HitStats where
  l0 : Nat := 0
  l1 : Nat := 0
  l2 : Nat := 0
  l3 : Nat := 0
  miss : Nat := 0
  totalCost : Nat := 0

def HitStats.record (s : HitStats) (kind : AccessKind) : HitStats where
  l0 := if kind = .l0Hit then u64 (s.l0 + 1) else s.l0
  l1 := if kind = .l1Hit then u64 (s.l1 + 1) else s.l1
  l2 := if kind = .l2Hit then u64 (s.l2 + 1) else s.l2
  l3 := if kind = .l3Hit then u64 (s.l3 + 1) else s.l3
  miss := if kind = .miss then u64 (s.miss + 1) else s.miss
  totalCost := u64 (s.totalCost + kind.cost)

abbrev Bytes := List UInt8

abbrev TierMap := Map Flat Bytes

def TierMap.len (m : TierMap) : Nat :=
  m.keys.card

def u32 (n : Nat) : Nat :=
  n % 2 ^ 32

structure LocalTierEngine where
  caps : TierCaps
  l0 : TierMap
  l1 : TierMap
  l2 : TierMap
  l3 : TierMap
  l0Order : Recency Flat
  l1Order : Recency Flat
  l2Order : Recency Flat
  pins : Map Flat Nat
  hitCounts : Map Flat Nat
  promoteAdmitAfter : Nat
  oneShot : Finset Flat
  promoteInflight : Finset Flat
  l2Arena : SegmentArena
  stats : HitStats

namespace LocalTierEngine

def withCapsArena (caps : TierCaps) (l2Arena : SegmentArena) : LocalTierEngine :=
  ⟨caps, ∅, ∅, ∅, ∅, [], [], [], ∅, ∅, 2, ∅, ∅, l2Arena, {}⟩

def withCaps (caps : TierCaps) : LocalTierEngine :=
  withCapsArena caps (.new defaultSlotBytes 64)

def withPromoteAdmitAfter (e : LocalTierEngine) (n : Nat) : LocalTierEngine :=
  { e with promoteAdmitAfter := max n 1 }

section Queries

variable (e : LocalTierEngine) (h : Flat)

def hitCount : Nat :=
  (e.hitCounts.lookup h).getD 0

def l2Placement : Option Placement :=
  e.l2Arena.placement h

def isL2Durable : Bool :=
  h ∈ e.l2

def l3Present : Bool :=
  h ∈ e.l3

def isSettled : Bool :=
  h ∈ e.l2 ∨ h ∈ e.l3

def hasDurableBacking : Bool :=
  e.isSettled h

def pinCount : Nat :=
  (e.pins.lookup h).getD 0

def get : Option Bytes :=
  (((e.l0.lookup h).or (e.l1.lookup h)).or (e.l2.lookup h)).or (e.l3.lookup h)

def localTier : Option LocalTier :=
  if h ∈ e.l0 then some .l0
  else if h ∈ e.l1 then some .l1
  else if h ∈ e.l2 then some .l2
  else if h ∈ e.l3 then some .l3
  else none

def l0Nbytes : Nat :=
  ((e.l0.lookup h).map List.length).getD 0

def l2Nbytes : Nat :=
  ((e.l2.lookup h).map List.length).getD 0

def promoteHops : Nat :=
  1 + (if h ∈ e.l1 then 0 else 1) + (if h ∉ e.l2 ∧ h ∈ e.l3 then 1 else 0)

def estimatePromoteCost : Nat :=
  match e.get h with
  | none => 0
  | some bytes => if h ∈ e.l0 then 0 else u64 (bytes.length * e.promoteHops h)

end Queries

section Pins

variable (e : LocalTierEngine) (h : Flat)

def pin : LocalTierEngine :=
  { e with pins := e.pins.insert h (u32 (e.pinCount h + 1)) }

def unpin : LocalTierEngine × Except String Unit :=
  match e.pins.lookup h with
  | none => (e, .error "unpin: not pinned")
  | some c =>
    ({ e with pins := if c - 1 = 0 then e.pins.erase h else e.pins.insert h (c - 1) }, .ok ())

end Pins

section Layout

variable (e : LocalTierEngine) (h : Flat)

def noteL2Present : LocalTierEngine :=
  if (e.l2Arena.placement h).isNone then { e with l2Arena := (e.l2Arena.alloc h).1 } else e

def noteL2Absent : LocalTierEngine :=
  { e with l2Arena := (e.l2Arena.free h).1 }

def compactL2Segment (segmentId : Nat) : LocalTierEngine × Except String (List Relocate) :=
  if ∃ hash ∈ e.l2Arena.hashesInSegment segmentId, 0 < e.pinCount hash then
    (e, .error "compact: pinned block in segment")
  else
    ({ e with l2Arena := (e.l2Arena.compact segmentId).1 }, (e.l2Arena.compact segmentId).2)

def colocateL2Move (destSegment destOffset : Nat) : LocalTierEngine × Except String Relocate :=
  if 0 < e.pinCount h then (e, .error "colocate: pinned")
  else if h ∉ e.l2 then (e, .error "colocate: not on L2")
  else
    ({ e with l2Arena := (e.l2Arena.relocate h destSegment destOffset).1 },
      (e.l2Arena.relocate h destSegment destOffset).2)

end Layout

def discardSettled (e : LocalTierEngine) (h : Flat) : LocalTierEngine :=
  noteL2Absent
    { e with
      l0 := e.l0.erase h
      l1 := e.l1.erase h
      l2 := e.l2.erase h
      l3 := e.l3.erase h
      l0Order := e.l0Order.remove h
      l1Order := e.l1Order.remove h
      l2Order := e.l2Order.remove h
      pins := e.pins.erase h
      oneShot := e.oneShot.erase h
      promoteInflight := e.promoteInflight.erase h
      hitCounts := e.hitCounts.erase h } h

inductive Mark
  | keep
  | stale
  | demote
  deriving DecidableEq

/-- The scan: the blocks that would be left on L2, and the marks. It stops once they are few enough. -/
def scanL2 (e : LocalTierEngine) : Nat → List Flat → Nat × List (Flat × Mark)
  | evictable, [] => (evictable, [])
  | evictable, h :: hs =>
    if evictable ≤ e.caps.l2 then (evictable, (h :: hs).map (·, .keep))
    else if h ∉ e.l2 then ((scanL2 e evictable hs).1, (h, .stale) :: (scanL2 e evictable hs).2)
    else if 0 < e.pinCount h then ((scanL2 e evictable hs).1, (h, .keep) :: (scanL2 e evictable hs).2)
    else ((scanL2 e (evictable - 1) hs).1, (h, .demote) :: (scanL2 e (evictable - 1) hs).2)

/-- One victim goes from L2 to L3; a copy that L3 has already stays. -/
def demoteVictim (e : LocalTierEngine) (victim : Flat) : LocalTierEngine :=
  match e.l2.lookup victim with
  | none => e
  | some bytes =>
    { e with
      l2 := e.l2.erase victim
      l3 := if victim ∈ e.l3 then e.l3 else e.l3.insert victim bytes }

def marked (marks : List (Flat × Mark)) (mark : Mark) : List Flat :=
  (marks.filter (·.2 = mark)).map Prod.fst

def ensureL2Cap (e : LocalTierEngine) : Except String (LocalTierEngine × List Flat) :=
  if e.caps.l2 = 0 then .ok (e, [])
  else if e.caps.l2 < (e.scanL2 e.l2.len e.l2Order).1 then
    .error (s!"l2 over cap ({e.l2.len}>" ++
      s!"{e.caps.l2}): all victims pinned — unpin before put")
  else
    .ok ({ (marked (e.scanL2 e.l2.len e.l2Order).2 .demote).foldl demoteVictim e with
        l2Order := marked (e.scanL2 e.l2.len e.l2Order).2 .keep },
      marked (e.scanL2 e.l2.len e.l2Order).2 .demote)

def settleL2 (e : LocalTierEngine) : Except String (LocalTierEngine × List Flat) :=
  e.ensureL2Cap.map fun r => (r.2.foldl noteL2Absent r.1, r.2)

def restoreOrder (order : Recency Flat) (h : Flat) : Option Nat → Recency Flat
  | none => order.dropLast
  | some pos => order.dropLast.insertIdx pos h

def enterL2 (e : LocalTierEngine) (h : Flat) (bytes : Bytes) : LocalTierEngine :=
  noteL2Present { e with l2 := e.l2.insert h bytes, l2Order := e.l2Order.touch h } h

/-- The insertion is undone: `before` is the state of the call, `e` the one after the insertion. -/
def undoPut (before e : LocalTierEngine) (h : Flat) : LocalTierEngine :=
  match before.l2.lookup h with
  | some old =>
    { e with
      l2 := e.l2.insert h old
      l2Order := restoreOrder e.l2Order h (before.l2Order.idxOf? h) }
  | none =>
    { (if (before.l2Arena.placement h).isSome then { e with l2 := e.l2.erase h }
        else noteL2Absent { e with l2 := e.l2.erase h } h) with
      l2Order := restoreOrder e.l2Order h (before.l2Order.idxOf? h) }

def putDurable (e : LocalTierEngine) (h : Flat) (bytes : Bytes) :
    LocalTierEngine × Except String (LocalTier × TierSideEffects) :=
  match (e.enterL2 h bytes).settleL2 with
  | .error msg => (undoPut e (e.enterL2 h bytes) h, .error msg)
  | .ok (e', demoted) =>
    if h ∈ e'.l2 then (e', .ok (.l2, { l2DemotedToL3 := demoted }))
    else if h ∈ e'.l3 then
      -- the block itself went on to L3 at once
      (e'.noteL2Absent h, .ok (.l3, { l2DemotedToL3 := demoted }))
    else (e', .error "put_durable: block lost after L2 cap demote")

def accessKind (e : LocalTierEngine) (h : Flat) : AccessKind :=
  match e.localTier h with
  | some .l0 => .l0Hit
  | some .l1 => .l1Hit
  | some .l2 => .l2Hit
  | some .l3 => .l3Hit
  | none => .miss

def probe (e : LocalTierEngine) (h : Flat) : LocalTierEngine × AccessKind :=
  if e.accessKind h = .miss then ({ e with stats := e.stats.record .miss }, .miss)
  else
    ({ e with
        hitCounts := e.hitCounts.insert h (u32 (e.hitCount h + 1))
        -- a block hit often enough is not the first to be evicted any more
        oneShot := if e.accessKind h = .l0Hit ∧ h ∈ e.oneShot ∧
          e.promoteAdmitAfter ≤ u32 (e.hitCount h + 1) then e.oneShot.erase h else e.oneShot
        stats := e.stats.record (e.accessKind h) }, e.accessKind h)

def demoteL0 (e : LocalTierEngine) (h : Flat) : LocalTierEngine × Except String Nat :=
  if 0 < e.pinCount h then (e, .error "demote_l0: pinned (lock_ref)")
  else if ¬ e.hasDurableBacking h then (e, .error "demote_l0: need L2 or L3 durable backing")
  else
    ({ e with
        l0 := e.l0.erase h
        l0Order := e.l0Order.remove h
        oneShot := e.oneShot.erase h }, .ok (e.l0Nbytes h))

def evictable (e : LocalTierEngine) (h : Flat) : Bool :=
  e.pinCount h = 0 ∧ e.hasDurableBacking h

def victimL0 (e : LocalTierEngine) : Option Flat :=
  (e.l0Order.find? fun h => h ∈ e.oneShot ∧ e.evictable h).or (e.l0Order.find? e.evictable)

def evictL0Pressure (e : LocalTierEngine) : LocalTierEngine × Except String (Option Flat) :=
  if e.caps.l0 = 0 ∨ e.l0.len < e.caps.l0 then (e, .ok none)
  else
    match e.victimL0 with
    | none => (e, .error "evict_l0: no durable unpinned victim (pin/writeback first)")
    | some victim =>
      match e.demoteL0 victim with
      | (e', .error msg) => (e', .error msg)
      | (e', .ok _) => (e', .ok (some victim))

/-- The loop of `ensure_l0_room`. Each turn takes a block off the queue, which bounds the turns. -/
def roomL0 : Nat → LocalTierEngine → List Flat → LocalTierEngine × Except String TierSideEffects
  | 0, e, _ => (e, .error "l0 full: cannot make room")
  | fuel + 1, e, demoted =>
    if e.l0.len < e.caps.l0 then (e, .ok { l0Demoted := demoted })
    else
      match e.evictL0Pressure with
      | (e', .error msg) => (e', .error msg)
      | (e', .ok none) => (e', .error "l0 full: cannot make room")
      | (e', .ok (some v)) => roomL0 fuel e' (demoted ++ [v])

def ensureL0Room (e : LocalTierEngine) : LocalTierEngine × Except String TierSideEffects :=
  if e.caps.l0 = 0 then (e, .ok {}) else roomL0 (e.l0Order.length + 1) e []

def roomL1 (cap : Nat) : Recency Flat → TierMap → Recency Flat × TierMap
  | [], l1 => ([], l1)
  | v :: order, l1 => if cap ≤ l1.len then roomL1 cap order (l1.erase v) else (v :: order, l1)

def ensureL1Room (e : LocalTierEngine) : LocalTierEngine :=
  if e.caps.l1 = 0 then e
  else
    { e with
      l1 := (roomL1 e.caps.l1 e.l1Order e.l1).2
      l1Order := (roomL1 e.caps.l1 e.l1Order e.l1).1 }

/-- The fill of L2 from L3: the blocks that go to L3 for it. -/
def fillL2 (e : LocalTierEngine) (h : Flat) (bytes : Bytes) : LocalTierEngine × Except String (List Flat) :=
  if h ∉ e.l2 ∧ h ∈ e.l3 then
    match (e.enterL2 h bytes).settleL2 with
    | .error msg =>
      (noteL2Absent
        { e.enterL2 h bytes with
          l2 := (e.enterL2 h bytes).l2.erase h
          l2Order := (e.enterL2 h bytes).l2Order.remove h } h, .error msg)
    | .ok (e', demoted) =>
      if e'.isSettled h then (e', .ok demoted)
      else (e', .error "promote: lost durable backing under L2 cap")
  else (e, .ok [])

def fillL1 (e : LocalTierEngine) (h : Flat) (bytes : Bytes) : LocalTierEngine :=
  if h ∈ e.l1 then e
  else
    { e.ensureL1Room with
      l1 := e.ensureL1Room.l1.insert h bytes
      l1Order := e.ensureL1Room.l1Order.touch h }

def enterL0 (e : LocalTierEngine) (h : Flat) (bytes : Bytes) (n : Nat) (l2Demoted : List Flat) :
    LocalTierEngine × Except String (Nat × TierSideEffects) :=
  match e.ensureL0Room with
  | (e', .error msg) => (e', .error msg)
  | (e', .ok fx) =>
    ({ e' with l0 := e'.l0.insert h bytes, l0Order := e'.l0Order.touch h },
      .ok (n, { l0Demoted := fx.l0Demoted, l2DemotedToL3 := l2Demoted ++ fx.l2DemotedToL3 }))

def promoteToL0 (e : LocalTierEngine) (h : Flat) :
    LocalTierEngine × Except String (Nat × TierSideEffects) :=
  if h ∈ e.l0 then ({ e with l0Order := e.l0Order.touch h }, .ok (0, {}))
  else
    match e.get h with
    | none => (e, .error "promote: block missing all tiers")
    | some bytes =>
      match e.fillL2 h bytes with
      | (e', .error msg) => (e', .error msg)
      | (e', .ok demoted) =>
        (e'.fillL1 h bytes).enterL0 h bytes (max (e.estimatePromoteCost h) bytes.length) demoted

def fillReadMiss (e : LocalTierEngine) (h : Flat) :
    LocalTierEngine × Except String (Nat × TierSideEffects) :=
  if h ∈ e.l0 then ({ e with l0Order := e.l0Order.touch h }, .ok (0, {})) else e.promoteToL0 h

def promoteToL0Admitted (e : LocalTierEngine) (h : Flat) :
    LocalTierEngine × Except String (Nat × TierSideEffects) :=
  match e.promoteToL0 h with
  | (e', .error msg) => (e', .error msg)
  | (e', .ok r) =>
    ({ e' with
        oneShot := if e.promoteAdmitAfter ≤ e.hitCount h then e'.oneShot.erase h else insert h e'.oneShot },
      .ok r)

def beginPromote (e : LocalTierEngine) (h : Flat) : LocalTierEngine × BeginPromote :=
  if h ∈ e.l0 then (e, .alreadyL0)
  else if (e.get h).isNone then (e, .missing)
  else if h ∈ e.promoteInflight then (e, .alreadyInFlight)
  else ({ e with promoteInflight := insert h e.promoteInflight }, .started)

def finishPromote (e : LocalTierEngine) (h : Flat) :
    LocalTierEngine × Except String (Nat × TierSideEffects) :=
  { e with promoteInflight := e.promoteInflight.erase h }.promoteToL0Admitted h

def demoteL2ToL3 (e : LocalTierEngine) (h : Flat) : LocalTierEngine × Except String Nat :=
  if 0 < e.pinCount h then (e, .error "demote_l2: pinned")
  else
    match e.l2.lookup h with
    | none => (e, .error "demote_l2: not on L2")
    | some bytes =>
      (noteL2Absent
        { e with
          l2 := e.l2.erase h
          l2Order := e.l2Order.remove h
          l3 := e.l3.insert h bytes } h, .ok bytes.length)

end LocalTierEngine

end LakeKv
