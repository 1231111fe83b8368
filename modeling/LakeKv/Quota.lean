import LakeKv.Saturating
import LakeKv.Wire

namespace LakeKv

open Saturating

inductive AdmitWrite
  | withinSoft
  | overSoft
  | hardQuota (usedBytes softBytes hardBytes deficitBytes : Int)
  | poolCapacity (usedBytes softBytes hardBytes deficitBytes : Int)
  deriving DecidableEq, Repr

def AdmitWrite.backpressure (modelId revision : String) : AdmitWrite → Option BackpressureSignal
  | hardQuota used soft hard deficit =>
    some ⟨modelId, revision, used, soft, hard, deficit, "HARD_QUOTA"⟩
  | poolCapacity used soft hard deficit =>
    some ⟨modelId, revision, used, soft, hard, deficit, "POOL_CAPACITY"⟩
  | withinSoft => none
  | overSoft => none

def quotaOrDefault (q : Option Quota) : Quota :=
  q.getD ⟨0, 0, false⟩

/-- Zero means unlimited on that side. -/
def validateQuota (q : Quota) : Except String Unit :=
  if q.softBytes < 0 ∨ q.hardBytes < 0 then
    .error "quota: soft/hard_bytes must be non-negative"
  else if 0 < q.hardBytes ∧ q.hardBytes < q.softBytes then
    .error "quota: soft_bytes must be <= hard_bytes when hard>0"
  else .ok ()

def borrowedBytes (used soft : Int) : Int :=
  if soft ≤ 0 then 0 else max (i64 (used - soft)) 0

def classifyWrite (used delta : Int) (quota : Quota) : AdmitWrite :=
  let projected := satAdd used delta
  if 0 < quota.hardBytes ∧ quota.hardBytes < projected then
    .hardQuota used quota.softBytes quota.hardBytes (projected - quota.hardBytes)
  else if 0 < quota.softBytes ∧ quota.softBytes < projected then .overSoft
  else .withinSoft

def asI64 (n : Nat) : Int :=
  if n % 2 ^ 64 < 2 ^ 63 then (n % 2 ^ 64 : Nat) else (n % 2 ^ 64 : Nat) - 2 ^ 64

/-- `Namespace::bytes_per_block`: at least one byte. -/
def ModelDescriptor.bytesPerBlock (d : ModelDescriptor) : Int :=
  max ((d.blockSpec.map fun s => asI64 s.bytesPerBlock).getD 0) 1

theorem ModelDescriptor.bytesPerBlock_pos (d : ModelDescriptor) : 0 < d.bytesPerBlock := by
  unfold ModelDescriptor.bytesPerBlock
  omega

theorem ModelDescriptor.bytesPerBlock_le (m : ModelDescriptor) : m.bytesPerBlock ≤ i64Max := by
  have hcast : ∀ n, asI64 n ≤ i64Max := by
    intro n
    simp only [asI64, i64Max]
    split <;> omega
  unfold ModelDescriptor.bytesPerBlock
  cases m.blockSpec with
  | none => simp [i64Max]
  | some s => exact max_le (hcast s.bytesPerBlock) (by simp [i64Max])

end LakeKv
