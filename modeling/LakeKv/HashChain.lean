import Mathlib.Data.List.Basic
import Mathlib.Data.Set.Function
import Mathlib.Tactic.Ring

namespace LakeKv

open List

/-! Lists cut into blocks, and chains in which the digest of a block covers the digest before it. -/

variable {α β : Type}

/-- The first blocks of a list, of `size` each but for a shorter last one. -/
def cutBlocks (size : Nat) : Nat → List α → List (List α)
  | 0, _ => []
  | left + 1, xs => if xs.isEmpty then [] else xs.take size :: cutBlocks size left (xs.drop size)

def blocksOf (size : Nat) (xs : List α) : List (List α) := cutBlocks size xs.length xs

def agreement [DecidableEq α] : List α → List α → Nat
  | x :: xs, y :: ys => if x = y then agreement xs ys + 1 else 0
  | _, _ => 0

theorem agreement_cons [DecidableEq α] (x y : α) (xs ys : List α) :
    agreement (x :: xs) (y :: ys) = if x = y then agreement xs ys + 1 else 0 := rfl

theorem take_eq_of_le_agreement [DecidableEq α] {xs ys : List α} {h : Nat} (le : h ≤ agreement xs ys) :
    xs.take h = ys.take h := by
  induction xs, ys using agreement.induct generalizing h with
  | case1 xs y ys ih =>
    cases h with
    | zero => rfl
    | succ h =>
      rw [agreement_cons, if_pos rfl] at le
      rw [take_succ_cons, take_succ_cons, ih (Nat.le_of_succ_le_succ le)]
  | case2 x xs y ys ne =>
    rw [agreement_cons, if_neg ne] at le
    obtain rfl := Nat.le_zero.mp le
    rfl
  | case3 xs ys none =>
    have zero : agreement xs ys = 0 := by
      unfold agreement
      split
      next x xs y ys => exact (none x xs y ys rfl rfl).elim
      · rfl
    obtain rfl := Nat.le_zero.mp (zero ▸ le)
    rfl

section Blocks

variable {size : Nat} {xs : List α}

theorem cutBlocks_of_le (pos : 1 ≤ size) {left : Nat} (le : xs.length ≤ left) :
    cutBlocks size left xs = blocksOf size xs := by
  unfold blocksOf
  induction left using Nat.strong_induction_on generalizing xs with
  | _ left ih =>
    cases xs with
    | nil => cases left <;> rfl
    | cons x xs =>
      cases left with
      | zero => exact absurd le (by simp)
      | succ left =>
        have shorter : ((x :: xs).drop size).length ≤ xs.length := by
          rw [length_drop, length_cons]
          omega
        have le : xs.length ≤ left := Nat.le_of_succ_le_succ le
        change _ :: cutBlocks size left _ = _ :: cutBlocks size xs.length _
        rw [ih left (Nat.lt_succ_self left) (by omega), ih xs.length (by omega) shorter]

theorem blocksOf_nil : blocksOf size ([] : List α) = [] := rfl

variable (pos : 1 ≤ size)
include pos

theorem blocksOf_eq_cons (ne : xs ≠ []) : blocksOf size xs = xs.take size :: blocksOf size (xs.drop size) := by
  cases xs with
  | nil => exact absurd rfl ne
  | cons x xs =>
    have shorter : ((x :: xs).drop size).length ≤ xs.length := by
      rw [length_drop, length_cons]
      omega
    rw [← cutBlocks_of_le pos shorter]
    rfl

theorem blocksOf_of_length_le (ne : xs ≠ []) (le : xs.length ≤ size) : blocksOf size xs = [xs] := by
  rw [blocksOf_eq_cons pos ne, take_of_length_le le, drop_of_length_le le, blocksOf_nil]

theorem cutBlocks_eq_take (left : Nat) (xs : List α) : cutBlocks size left xs = (blocksOf size xs).take left := by
  induction left generalizing xs with
  | zero => rw [take_zero, cutBlocks]
  | succ left ih =>
    by_cases empty : xs = []
    · subst empty
      rfl
    · rw [blocksOf_eq_cons pos empty, take_succ_cons, ← ih, cutBlocks, if_neg]
      rw [List.isEmpty_iff]
      exact empty

theorem block_induction {motive : List α → Prop} (nil : motive [])
    (step : ∀ xs, xs ≠ [] → motive (xs.drop size) → motive xs) (xs : List α) : motive xs := by
  induction len : xs.length using Nat.strong_induction_on generalizing xs with
  | _ n ih =>
    by_cases empty : xs = []
    · exact empty ▸ nil
    · have longer := length_pos_iff.mpr empty
      have shorter : (xs.drop size).length = n - size := by rw [length_drop, len]
      exact step xs empty (ih (n - size) (by omega) _ shorter)

theorem length_blocksOf (xs : List α) : (blocksOf size xs).length = (xs.length + size - 1) / size := by
  induction xs using block_induction pos with
  | nil =>
    have none : (0 + size - 1) / size = 0 := Nat.div_eq_of_lt (by omega)
    exact none.symm
  | step xs ne ih =>
    have longer := length_pos_iff.mpr ne
    rw [blocksOf_eq_cons pos ne, length_cons, ih, length_drop, ← Nat.add_div_right _ pos]
    by_cases more : size ≤ xs.length
    · have same : xs.length - size + size - 1 + size = xs.length + size - 1 := by omega
      rw [same]
    · have one : xs.length + size - 1 = xs.length - 1 + size := by omega
      rw [one, Nat.add_div_right _ pos, Nat.add_div_right _ pos, Nat.div_eq_of_lt (by omega), Nat.div_eq_of_lt (by omega)]

theorem flatten_take_blocksOf (xs : List α) (h : Nat) : ((blocksOf size xs).take h).flatten = xs.take (h * size) := by
  induction h generalizing xs with
  | zero => rw [Nat.zero_mul, take_zero, take_zero, flatten_nil]
  | succ h ih =>
    by_cases empty : xs = []
    · rw [empty, blocksOf_nil, take_nil, take_nil, flatten_nil]
    · rw [blocksOf_eq_cons pos empty, take_succ_cons, flatten_cons, ih, Nat.succ_mul, Nat.add_comm, take_add]

theorem mem_blocksOf {xs b : List α} (mem : b ∈ blocksOf size xs) : b ≠ [] ∧ b.length ≤ size := by
  induction xs using block_induction pos with
  | nil => exact absurd mem not_mem_nil
  | step xs ne ih =>
    rw [blocksOf_eq_cons pos ne] at mem
    rcases mem_cons.mp mem with rfl | mem
    · refine ⟨?_, length_take_le size xs⟩
      rw [Ne, take_eq_nil_iff]
      rintro (none | none)
      · omega
      · exact ne none
    · exact ih mem

theorem take_eq_of_blocks {xs ys : List α} {h : Nat}
    (same : (blocksOf size xs).take h = (blocksOf size ys).take h) : xs.take (h * size) = ys.take (h * size) := by
  rw [← flatten_take_blocksOf pos, ← flatten_take_blocksOf pos, same]

end Blocks

theorem take_min_length {xs ys : List α} {n : Nat} (same : xs.take n = ys.take n) :
    xs.take (min n xs.length) = ys.take (min n xs.length) := by
  by_cases within : n ≤ xs.length
  · rw [min_eq_left within, same]
  rw [min_eq_right (by omega)]
  have le : xs.length ≤ n := by omega
  rw [take_of_length_le le] at same
  have length := congrArg List.length same
  rw [length_take] at length
  rw [take_of_length_le (Nat.le_refl _), same, length_take, take_of_length_le (by omega), take_of_length_le (by omega)]

section Chain

variable (sha : List β → List β) (bytes : List α → List β)

def hashed : List β → List (List α) → List (List β)
  | _, [] => []
  | parent, b :: bs => (parent ++ bytes b) :: hashed (sha (parent ++ bytes b)) bs

def chain (parent : List β) (bs : List (List α)) : List (List β) := (hashed sha bytes parent bs).map sha

variable {sha bytes} {bs cs : List (List α)} (parent : List β)

@[simp]
theorem length_hashed (parent : List β) (bs : List (List α)) : (hashed sha bytes parent bs).length = bs.length := by
  induction bs generalizing parent with
  | nil => rfl
  | cons b bs ih => rw [hashed, length_cons, ih, length_cons]

theorem chain_cons (b : List α) (bs : List (List α)) :
    chain sha bytes parent (b :: bs) = sha (parent ++ bytes b) :: chain sha bytes (sha (parent ++ bytes b)) bs := rfl

/-- The digests agree exactly as far as the blocks do. -/
theorem agreement_chain [DecidableEq α] [DecidableEq β]
    (free : Set.InjOn sha {x | x ∈ hashed sha bytes parent bs ∨ x ∈ hashed sha bytes parent cs})
    (inj : ∀ b ∈ bs, ∀ c ∈ cs, bytes b = bytes c → b = c) :
    agreement (chain sha bytes parent bs) (chain sha bytes parent cs) = agreement bs cs := by
  induction bs generalizing parent cs with
  | nil => rfl
  | cons b bs ih =>
    cases cs with
    | nil => rfl
    | cons c cs =>
      rw [chain_cons, chain_cons, agreement_cons, agreement_cons]
      by_cases same : b = c
      · subst same
        have rest := ih (sha (parent ++ bytes b))
          (free.mono fun x mem => mem.imp (mem_cons_of_mem _) (mem_cons_of_mem _))
          fun b mb c mc => inj b (mem_cons_of_mem _ mb) c (mem_cons_of_mem _ mc)
        rw [if_pos rfl, if_pos rfl, rest]
      · rw [if_neg same, if_neg]
        intro digests
        have strings := free (.inl mem_cons_self) (.inr mem_cons_self) digests
        exact same (inj b mem_cons_self c mem_cons_self (append_cancel_left strings))

theorem hashed_cases {bs : List (List α)} {i : Nat} {x parent : List β} (at_ : (hashed sha bytes parent bs)[i]? = some x) :
    ∃ b, bs[i]? = some b ∧ ((i = 0 ∧ x = parent ++ bytes b) ∨
      ∃ k z, i = k + 1 ∧ (hashed sha bytes parent bs)[k]? = some z ∧ x = sha z ++ bytes b) := by
  induction bs generalizing i parent with
  | nil => exact absurd at_ (by rw [hashed, getElem?_nil]; nofun)
  | cons c bs ih =>
    cases i with
    | zero =>
      rw [hashed, getElem?_cons_zero] at at_
      exact ⟨c, rfl, .inl ⟨rfl, (Option.some.inj at_).symm⟩⟩
    | succ i =>
      rw [hashed, getElem?_cons_succ] at at_
      obtain ⟨b, block, ⟨rfl, eq⟩ | ⟨k, z, rfl, before, eq⟩⟩ := ih at_
      · exact ⟨b, block, .inr ⟨0, parent ++ bytes c, rfl, rfl, eq⟩⟩
      · exact ⟨b, block, .inr ⟨k + 1, z, rfl, before, eq⟩⟩

/-- Where no block is as long as a digest with a block behind it, a digest determines its position and all blocks up
to it. -/
theorem chain_position {width : Nat} (digest : ∀ x, (sha x).length = width)
    (free : Set.InjOn sha {x | x ∈ hashed sha bytes [] bs ∨ x ∈ hashed sha bytes [] cs})
    (inj : ∀ b ∈ bs, ∀ c ∈ cs, bytes b = bytes c → b = c)
    (short : ∀ b, b ∈ bs ∨ b ∈ cs → 0 < (bytes b).length ∧ (bytes b).length ≤ width) {i j : Nat} {d : List β}
    (first : (chain sha bytes [] bs)[i]? = some d) (second : (chain sha bytes [] cs)[j]? = some d) :
    i = j ∧ bs.take (i + 1) = cs.take (i + 1) := by
  unfold chain at first second
  rw [getElem?_map, Option.map_eq_some_iff] at first second
  obtain ⟨x, atX, hashX⟩ := first
  obtain ⟨y, atY, hashY⟩ := second
  have digests : sha x = sha y := hashX.trans hashY.symm
  clear hashX hashY d
  induction i generalizing j x y with
  | zero =>
    have same := free (.inl (mem_of_getElem? atX)) (.inr (mem_of_getElem? atY)) digests
    obtain ⟨b, block, ⟨-, rfl⟩ | ⟨k, z, eq, -⟩⟩ := hashed_cases atX
    · obtain ⟨c, other, ⟨rfl, rfl⟩ | ⟨k, z, rfl, -, rfl⟩⟩ := hashed_cases atY
      · have eq := inj b (mem_of_getElem? block) c (mem_of_getElem? other) same
        rw [take_add_one, take_add_one, block, other, eq]
        exact ⟨rfl, rfl⟩
      · have lengths := congrArg List.length same
        have shortB := short b (.inl (mem_of_getElem? block))
        have longC := short c (.inr (mem_of_getElem? other))
        rw [nil_append, length_append, digest] at lengths
        omega
    · omega
  | succ i ih =>
    have same := free (.inl (mem_of_getElem? atX)) (.inr (mem_of_getElem? atY)) digests
    obtain ⟨b, block, ⟨eq, -⟩ | ⟨k, z, eq, before, rfl⟩⟩ := hashed_cases atX
    · omega
    · obtain rfl : i = k := by omega
      obtain ⟨c, other, ⟨rfl, rfl⟩ | ⟨l, w, rfl, beforeW, rfl⟩⟩ := hashed_cases atY
      · have lengths := congrArg List.length same
        have longB := short b (.inl (mem_of_getElem? block))
        have shortC := short c (.inr (mem_of_getElem? other))
        rw [nil_append, length_append, digest] at lengths
        omega
      · obtain ⟨parents, blocks⟩ := append_inj same (by rw [digest, digest])
        obtain ⟨rfl, earlier⟩ := ih z before w beforeW parents
        have eq := inj b (mem_of_getElem? block) c (mem_of_getElem? other) blocks
        rw [take_add_one, take_add_one (l := cs), earlier, block, other, eq]
        exact ⟨rfl, rfl⟩

end Chain

end LakeKv
