import LakeKv.Wire

namespace LakeKv

/-- `view::ViewLog`: the bounded replay buffer; sequence numbers start at 1, 0 is a snapshot's. -/
structure ViewLog where
  updates : List ViewUpdate
  cap : Nat
  nextSeq : Nat
  deriving DecidableEq, Repr

namespace ViewLog

def new : ViewLog := ⟨[], 1024, 1⟩

def commit (log : ViewLog) (events : List ViewEvent) : ViewUpdate × ViewLog :=
  let u : ViewUpdate := ⟨log.nextSeq, events⟩
  let updates := log.updates ++ [u]
  -- `pop_front` while the buffer is over its capacity.
  (u, { log with updates := updates.drop (updates.length - log.cap), nextSeq := log.nextSeq + 1 })

def lastSeq (log : ViewLog) : Nat :=
  log.nextSeq - 1

def floor (log : ViewLog) : Nat :=
  (log.updates.head?.map ViewUpdate.seq).getD log.nextSeq

def replayAfter (log : ViewLog) (fromSeq : Nat) : Option (List ViewUpdate) :=
  if fromSeq = 0 ∨ log.nextSeq ≤ fromSeq then none
  else if fromSeq + 1 < log.floor then none
  else some (log.updates.filter fun u => fromSeq < u.seq)

def reset (log : ViewLog) : ViewLog :=
  { log with updates := [] }

end ViewLog

def upsertEvent (kind : ViewKind) (id : KvBlockId) (locations : List Location) (l3Present : Bool)
    (blockKind : Int) : ViewEvent :=
  ⟨kind, some id, locations, l3Present, blockKind⟩

def invalidatedEvent (id : KvBlockId) : ViewEvent :=
  ⟨.invalidated, some id, [], false, 0⟩

end LakeKv
