import Mathlib.Order.Lattice
import Mathlib.Algebra.Order.Ring.Int

namespace Saturating

def i64Max : Int := 9223372036854775807

def i64Min : Int := -9223372036854775808

def clamp (x : Int) : Int :=
  max i64Min (min i64Max x)

def satAdd (x y : Int) : Int :=
  clamp (x + y)

def satSub (x y : Int) : Int :=
  clamp (x - y)

def satMul (x y : Int) : Int :=
  clamp (x * y)

def checkedAdd (x y : Int) : Option Int :=
  if i64Min ≤ x + y ∧ x + y ≤ i64Max then some (x + y) else none

/-- What is left of a sum or product that does not saturate: it wraps, as in a release build. -/
def i64 (x : Int) : Int :=
  (x + 9223372036854775808) % 18446744073709551616 - 9223372036854775808

theorem i64_eq {x : Int} (least : i64Min ≤ x) (most : x ≤ i64Max) : i64 x = x := by
  simp only [i64, i64Min, i64Max] at *
  omega

theorem clamp_of_nonneg {x : Int} (h : 0 ≤ x) : clamp x = min i64Max x := by
  simp only [clamp, i64Max, i64Min]
  omega

theorem clamp_of_le {x : Int} (h : 0 ≤ x) (hx : x ≤ i64Max) : clamp x = x := by
  rw [clamp_of_nonneg h, min_eq_right hx]

/-- A saturated sum is within a limit when the sum is, or when the limit is out of reach. -/
theorem satAdd_le_iff {x y limit : Int} (h : 0 ≤ limit) : satAdd x y ≤ limit ↔ i64Max ≤ limit ∨ x + y ≤ limit := by
  simp only [satAdd, clamp, i64Max, i64Min]
  omega

theorem checkedAdd_eq_some {x y z : Int} (h : checkedAdd x y = some z) : z = x + y := by
  unfold checkedAdd at h
  split at h
  · exact (Option.some.inj h).symm
  · simp at h

end Saturating
