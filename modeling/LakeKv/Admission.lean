import LakeKv.Authority

namespace LakeKv

open Saturating

inductive RegisterStatus
  | accepted
  | rejectedHardQuota (signal : BackpressureSignal)
  deriving DecidableEq, Repr

inductive AdmitPlan
  | accept (ownEvictN : Nat) (reclaimBytes : Int)
  | reject (signal : BackpressureSignal)
  deriving DecidableEq, Repr

def AdmitPlan.status : AdmitPlan → RegisterStatus
  | accept _ _ => .accepted
  | reject bp => .rejectedHardQuota bp

/-- `(need + bpb - 1) / bpb`; the sum wraps, and the quotient is negative then. -/
def blocksFor (need bpb : Int) : Int :=
  (i64 (need + bpb - 1)).tdiv bpb

/-- The cast `as usize`. -/
def asUsize (x : Int) : Nat :=
  (x % 2 ^ 64).toNat

/-- Blocks to evict so that `projected` bytes fit `limit`; none when the limit is off. -/
def evictFor (limit projected bpb : Int) : Nat :=
  if 0 < limit ∧ limit < projected then asUsize (blocksFor (projected - limit) bpb) else 0

namespace Authority

variable {B : Backend}

def reclaimableBorrowedBytes (a : Authority B) (except : NamespaceKey) : Int :=
  (B.namespaceOrder a.namespaces.keys).foldl (fun total key =>
    if key = except then total
    else match a.namespaces.lookup key with
      | none => total
      | some ns =>
        let borrowed := borrowedBytes ns.usedBytes ns.quota.softBytes
        if borrowed ≤ 0 then total else satAdd total (min borrowed ns.inactiveBytes)) 0

/-- The borrow branch of `plan_admit`: the bytes to reclaim from other namespaces, or the
signal of a pool without room. -/
def planBorrow (a : Authority B) (key : NamespaceKey) (q : Quota) (bpb : Int) (ownEvictN : Nat)
    (projected : Int) : Except AdmitWrite Int :=
  if q.borrowEnabled = true ∧ 0 < q.softBytes ∧ q.softBytes < projected then
    let needBorrow := projected - q.softBytes
    let free := if 0 < a.poolCapacityBytes then max (a.freeBytes + satMul ownEvictN bpb) 0 else a.freeBytes
    if free < needBorrow then
      let want := needBorrow - free
      let avail := a.reclaimableBorrowedBytes key
      if avail < want ∧ 0 < a.poolCapacityBytes ∧ (q.hardBytes = 0 ∨ projected ≤ q.hardBytes) then
        .error (.poolCapacity projected q.softBytes q.hardBytes (want - avail))
      else .ok (min want avail)
    else .ok 0
  else .ok 0

/-- `AdmitWrite::backpressure(..).expect(..)`. -/
def rejectWith (key : NamespaceKey) (w : AdmitWrite) : Except Fault AdmitPlan :=
  match w.backpressure key.modelId key.revision with
  | some bp => .ok (.reject bp)
  | none => .error (.panicked "backpressure")

def planAdmit (a : Authority B) (key : NamespaceKey) (newBlocks : Nat) : Except Fault AdmitPlan :=
  if newBlocks = 0 then .ok (.accept 0 0)
  else match a.namespaces.lookup key with
    | none => .error (unknownNamespace "admit: " key)
    | some ns =>
      let q := ns.quota
      let bpb := ns.bytesPerBlock
      let used := ns.usedBytes
      let delta := satMul newBlocks bpb
      let projected := satAdd used delta
      let inactiveBytes := ns.inactiveBytes
      if 0 < q.hardBytes ∧ q.hardBytes < projected ∧ inactiveBytes < projected - q.hardBytes then
        rejectWith key
          (.hardQuota used q.softBytes q.hardBytes (projected - q.hardBytes - inactiveBytes))
      else
        let ownEvictN := min
          (max (evictFor q.hardBytes projected bpb) (evictFor q.softBytes projected bpb)) ns.inactiveLen
        let simUsed := satSub used (satMul ownEvictN bpb)
        match a.planBorrow key q bpb ownEvictN (satAdd simUsed delta) with
        | .error w => rejectWith key w
        | .ok reclaimBytes =>
          match classifyWrite simUsed delta q with
          | .withinSoft => .ok (.accept ownEvictN reclaimBytes)
          | .overSoft => .ok (.accept ownEvictN reclaimBytes)
          | w => rejectWith key w

def evictOwn (a : Authority B) (key : NamespaceKey) (n : Nat) : Authority B :=
  match a.namespaces.lookup key with
  | none => a
  | some ns =>
    let evicted := ns.evictInactiveN n
    (a.setNs key evicted.1).emit (invalidatedEventsFor key evicted.2)

/-- The loop of `reclaim_borrowed_bytes` over the borrowers, with the bytes freed so far. -/
def reclaimFrom (a : Authority B) (wantBytes : Int) : List NamespaceKey → Int → Authority B
  | [], _ => a
  | key :: keys, freed =>
    if wantBytes ≤ freed then a
    else match a.namespaces.lookup key with
      | none => a.reclaimFrom wantBytes keys freed
      | some ns =>
        let borrowed := borrowedBytes ns.usedBytes ns.quota.softBytes
        if borrowed ≤ 0 then a.reclaimFrom wantBytes keys freed
        else
          let wantBlocks := max (blocksFor (min (i64 (wantBytes - freed)) borrowed) ns.bytesPerBlock) 1
          let evicted := ns.evictInactiveN (asUsize wantBlocks)
          ((a.setNs key evicted.1).emit (invalidatedEventsFor key evicted.2)).reclaimFrom wantBytes
            keys (i64 (freed + evicted.2.length * ns.bytesPerBlock))

def borrowers (a : Authority B) (except : NamespaceKey) : List NamespaceKey :=
  a.namespaces.keys.ascending.filter fun key =>
    key ≠ except ∧ ((a.namespaces.lookup key).map fun ns =>
      decide (0 < borrowedBytes ns.usedBytes ns.quota.softBytes)).getD false = true

def reclaimBorrowedBytes (a : Authority B) (except : NamespaceKey) (wantBytes : Int) : Authority B :=
  if wantBytes ≤ 0 then a else a.reclaimFrom wantBytes (a.borrowers except) 0

def commitAdmit (a : Authority B) (key : NamespaceKey) (ownEvictN : Nat) (reclaimBytes : Int) :
    Authority B :=
  let evicted := if 0 < ownEvictN then a.evictOwn key ownEvictN else a
  if 0 < reclaimBytes then evicted.reclaimBorrowedBytes key reclaimBytes else evicted

def admitRegisterBytes (a : Authority B) (key : NamespaceKey) (newBlocks : Nat) :
    Authority B × Except Fault RegisterStatus :=
  match a.planAdmit key newBlocks with
  | .error e => (a, .error e)
  | .ok (.reject bp) => (a, .ok (.rejectedHardQuota bp))
  | .ok (.accept ownEvictN reclaimBytes) => (a.commitAdmit key ownEvictN reclaimBytes, .ok .accepted)

end Authority

end LakeKv
