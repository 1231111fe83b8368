import LakeKv.HashChain
import LakeKv.Shard
import Mathlib.Tactic.IntervalCases

namespace LakeKv

open List

variable {sha : List UInt8 → List UInt8} (t : UInt32)

def putUint32 (v : UInt32) : List UInt8 :=
  [v.toUInt8, (v >>> 8).toUInt8, (v >>> 16).toUInt8, (v >>> 24).toUInt8]

namespace Router

def defaultBlockSize : Nat := 8

/-- The loop of Go `ChainBlockHashes` at index `i`, with the number of turns that are left to it. -/
def chainLoop (sha : List UInt8 → List UInt8) (tokenIDs : List UInt32) (blockSize : Nat) :
    Nat → Nat → List UInt8 → List (List UInt8)
  | 0, _, _ => []
  | left + 1, i, parent =>
    if i < tokenIDs.length then
      let stop := if tokenIDs.length < i + blockSize then tokenIDs.length else i + blockSize
      let digest := sha (parent ++ ((tokenIDs.drop i).take (stop - i)).flatMap putUint32)
      digest :: chainLoop sha tokenIDs blockSize left (i + blockSize) digest
    else []

/-- Go `ChainBlockHashes`. The index grows in every turn, so that there are no more turns than tokens. -/
def chainBlockHashes (sha : List UInt8 → List UInt8) (tokenIDs : List UInt32) (blockSize : Int) : List (List UInt8) :=
  chainLoop sha tokenIDs (if blockSize ≤ 0 then defaultBlockSize else blockSize.toNat) tokenIDs.length 0 []

end Router

namespace GrpcSkeleton

def range (stop step : Nat) : List Nat := List.range' 0 ((stop + step - 1) / step) step

def chainLoop (sha : List UInt8 → List UInt8) (tokenIds : List UInt32) (blockSize : Nat) :
    List Nat → List UInt8 → List (List UInt8)
  | [], _ => []
  | i :: rest, parent =>
    let chunk := (tokenIds.drop i).take blockSize
    if chunk.isEmpty then []
    else
      let digest := sha (parent ++ chunk.flatMap fun t => leBytes 4 t.toNat)
      digest :: chainLoop sha tokenIds blockSize rest digest

def chainBlockHashes (sha : List UInt8 → List UInt8) (tokenIds : List UInt32) (blockSize : Nat) : List (List UInt8) :=
  chainLoop sha tokenIds blockSize (range tokenIds.length blockSize) []

end GrpcSkeleton

def tokenBytes (tokens : List UInt32) : List UInt8 := tokens.flatMap putUint32

def hashedStrings (sha : List UInt8 → List UInt8) (size : Nat) (tokens : List UInt32) : List (List UInt8) :=
  hashed sha tokenBytes [] (blocksOf size tokens)

theorem byte_eq_shift {k : Nat} (lt : k < 4) :
    (t.toNat / 256 ^ k).toUInt8 = (t >>> (8 * UInt32.ofNat k)).toUInt8 := by
  apply UInt8.toNat_inj.mp
  rw [UInt32.toNat_toUInt8, UInt32.toNat_shiftRight, Nat.shiftRight_eq_div_pow]
  interval_cases k <;> simp

theorem leBytes_eq_putUint32 : leBytes 4 t.toNat = putUint32 t := by
  have zero : t >>> (8 * UInt32.ofNat 0) = t := UInt32.shiftRight_zero
  change [(t.toNat / 256 ^ 0).toUInt8, (t.toNat / 256 ^ 1).toUInt8, (t.toNat / 256 ^ 2).toUInt8,
    (t.toNat / 256 ^ 3).toUInt8] = _
  rw [byte_eq_shift t (by omega), byte_eq_shift t (by omega), byte_eq_shift t (by omega), byte_eq_shift t (by omega), zero]
  rfl

theorem putUint32_injective : Function.Injective putUint32 := by
  intro s t same
  rw [← leBytes_eq_putUint32, ← leBytes_eq_putUint32] at same
  injection same with byte0 rest
  injection rest with byte1 rest
  injection rest with byte2 rest
  injection rest with byte3 rest
  have nat0 := congrArg UInt8.toNat byte0
  have nat1 := congrArg UInt8.toNat byte1
  have nat2 := congrArg UInt8.toNat byte2
  have nat3 := congrArg UInt8.toNat byte3
  simp only [Nat.toUInt8, UInt8.toNat_ofNat'] at nat0 nat1 nat2 nat3
  have ls := s.toNat_lt
  have lt := t.toNat_lt
  apply UInt32.toNat_inj.mp
  omega

theorem length_tokenBytes (tokens : List UInt32) : (tokenBytes tokens).length = 4 * tokens.length := by
  induction tokens with
  | nil => rfl
  | cons t tokens ih =>
    unfold tokenBytes at ih ⊢
    rw [flatMap_cons, length_append, ih, length_cons]
    change 4 + _ = _
    ring

theorem tokenBytes_injective : Function.Injective tokenBytes := by
  intro xs
  induction xs with
  | nil =>
    intro ys same
    have lengths := congrArg length same
    rw [length_tokenBytes, length_tokenBytes] at lengths
    exact (length_eq_zero_iff.mp (by rw [length_nil] at lengths; omega)).symm
  | cons x xs ih =>
    intro ys same
    cases ys with
    | nil =>
      have lengths := congrArg length same
      rw [length_tokenBytes, length_tokenBytes, length_cons, length_nil] at lengths
      omega
    | cons y ys =>
      obtain ⟨first, rest⟩ := append_inj (show putUint32 x ++ tokenBytes xs = putUint32 y ++ tokenBytes ys from same) rfl
      rw [putUint32_injective first, ih rest]

namespace Router

theorem chainLoop_eq {size : Nat} (tokens : List UInt32) (left i : Nat) (parent : List UInt8) :
    chainLoop sha tokens size left i parent = chain sha tokenBytes parent (cutBlocks size left (tokens.drop i)) := by
  induction left generalizing i parent with
  | zero => rfl
  | succ left ih =>
    unfold chainLoop cutBlocks
    by_cases more : i < tokens.length
    · have some : (tokens.drop i).isEmpty = false := by
        rw [isEmpty_eq_false_iff, Ne, drop_eq_nil_iff]
        omega
      have slice : (tokens.drop i).take ((if tokens.length < i + size then tokens.length else i + size) - i) =
          (tokens.drop i).take size := by
        split
        · have rest : (tokens.drop i).length = tokens.length - i := length_drop
          rw [take_of_length_le (by omega), take_of_length_le (by omega)]
        · rw [Nat.add_sub_cancel_left]
      dsimp only
      rw [if_pos more, some, if_neg Bool.false_ne_true, slice, ih, ← drop_drop]
      rfl
    · have none : (tokens.drop i).isEmpty = true := by
        rw [List.isEmpty_iff, drop_eq_nil_iff]
        omega
      rw [if_neg more, none, if_pos rfl]
      rfl

theorem chainBlockHashes_eq {size : Nat} (pos : 1 ≤ size) (tokens : List UInt32) :
    chainBlockHashes sha tokens size = chain sha tokenBytes [] (blocksOf size tokens) := by
  unfold chainBlockHashes
  rw [if_neg (by omega), Int.toNat_natCast, chainLoop_eq]
  rfl

end Router

namespace GrpcSkeleton

theorem chainLoop_eq {size : Nat} (pos : 1 ≤ size) (tokens : List UInt32) (left i : Nat) (parent : List UInt8) :
    chainLoop sha tokens size (range' i left size) parent =
      chain sha tokenBytes parent (cutBlocks size left (tokens.drop i)) := by
  induction left generalizing i parent with
  | zero => rfl
  | succ left ih =>
    rw [range'_succ]
    unfold chainLoop cutBlocks
    dsimp only
    by_cases more : (tokens.drop i).isEmpty = true
    · rw [isEmpty_iff.mp more, take_nil]
      rfl
    have some : ((tokens.drop i).take size).isEmpty = false := by
      rw [isEmpty_eq_false_iff, Ne, take_eq_nil_iff]
      rintro (zero | none)
      · omega
      · exact more (isEmpty_iff.mpr none)
    rw [some, if_neg Bool.false_ne_true, if_neg more, ih, drop_drop, funext leBytes_eq_putUint32]
    rfl

theorem chainBlockHashes_eq {size : Nat} (pos : 1 ≤ size) (tokens : List UInt32) :
    chainBlockHashes sha tokens size = chain sha tokenBytes [] (blocksOf size tokens) := by
  unfold chainBlockHashes range
  rw [chainLoop_eq pos, drop_zero, cutBlocks_eq_take pos, ← length_blocksOf pos, take_length]

end GrpcSkeleton

/-- Both languages hash a prompt alike, to one entry for each block; two chains agree as far as the prompts have
their blocks in common, and a hit of `h` blocks means that the tokens of these are the same. -/
theorem chains_agree_as_blocks (P Q : List UInt32) {B : Nat} (pos : 1 ≤ B)
    (free : Set.InjOn sha {x | x ∈ hashedStrings sha B P ∨ x ∈ hashedStrings sha B Q}) :
    Router.chainBlockHashes sha P B = GrpcSkeleton.chainBlockHashes sha P B ∧
    (Router.chainBlockHashes sha P B).length = (P.length + B - 1) / B ∧
    agreement (Router.chainBlockHashes sha P B) (Router.chainBlockHashes sha Q B) =
      agreement (blocksOf B P) (blocksOf B Q) ∧
    ∀ h ≤ agreement (Router.chainBlockHashes sha P B) (Router.chainBlockHashes sha Q B),
      P.take (min (h * B) P.length) = Q.take (min (h * B) P.length) := by
  rw [Router.chainBlockHashes_eq pos, Router.chainBlockHashes_eq pos, GrpcSkeleton.chainBlockHashes_eq pos]
  have agree := agreement_chain [] free fun b _ c _ same => tokenBytes_injective same
  refine ⟨rfl, ?_, agree, ?_⟩
  · rw [chain, length_map, length_hashed, length_blocksOf pos]
  · intro h le
    rw [agree] at le
    exact take_min_length (take_eq_of_blocks pos (take_eq_of_le_agreement le))

/-- A prompt of two blocks, the second one shorter, with a hash that returns the string itself. -/
theorem chains_agree_as_blocks_tail :
    agreement (Router.chainBlockHashes id [1, 2, 3] 2) (Router.chainBlockHashes id [1, 2, 4] 2) = 1 ∧
      (Router.chainBlockHashes id [1, 2, 3] 2).length = 2 := by
  obtain ⟨-, entries, agree, -⟩ := chains_agree_as_blocks [1, 2, 3] [1, 2, 4] (B := 2) (by decide) (Set.injOn_id _)
  exact ⟨agree.trans (by decide), entries⟩

/-- With digests of 32 bytes and no collision among the strings that are hashed for two prompts, an entry of both
chains stands at one position, and the prompts are the same up to the end of its block. -/
def PositionsKept (B : Nat) : Prop :=
  ∀ sha : List UInt8 → List UInt8, (∀ x, (sha x).length = 32) → ∀ P Q : List UInt32,
    Set.InjOn sha {x | x ∈ hashedStrings sha B P ∨ x ∈ hashedStrings sha B Q} → ∀ i j d,
      (Router.chainBlockHashes sha P B)[i]? = some d → (Router.chainBlockHashes sha Q B)[j]? = some d →
        i = j ∧ P.take ((i + 1) * B) = Q.take ((i + 1) * B)

theorem positionsKept_of_le {B : Nat} (pos : 1 ≤ B) (le : B ≤ 8) : PositionsKept B := by
  intro sha digest P Q free i j d first second
  rw [Router.chainBlockHashes_eq pos] at first second
  have short : ∀ b, b ∈ blocksOf B P ∨ b ∈ blocksOf B Q → 0 < (tokenBytes b).length ∧ (tokenBytes b).length ≤ 32 := by
    intro b mem
    have block : b ≠ [] ∧ b.length ≤ B := by
      rcases mem with mem | mem <;> exact mem_blocksOf pos mem
    have some := length_pos_iff.mpr block.1
    have most := block.2
    rw [length_tokenBytes]
    omega
  obtain ⟨rfl, blocks⟩ :=
    chain_position digest free (fun b _ c _ same => tokenBytes_injective same) short first second
  exact ⟨rfl, take_eq_of_blocks pos blocks⟩

section Spelled

/-- A hash with two values, zeros for the bytes of `B` zero tokens and ones for all other strings. -/
def twoValuedSha (B : Nat) (x : List UInt8) : List UInt8 :=
  if x = tokenBytes (List.replicate B 0) then List.replicate 32 0 else List.replicate 32 1

def spelledPrompt : List UInt32 := [0, 0, 0, 0, 0, 0, 0, 0, 1]

def zerosPrompt (B : Nat) : List UInt32 := List.replicate B 0 ++ [1]

theorem putUint32_surjective (a b c d : UInt8) : ∃ t, putUint32 t = [a, b, c, d] := by
  have la := a.toNat_lt
  have lb := b.toNat_lt
  have lc := c.toNat_lt
  have ld := d.toNat_lt
  let n := a.toNat + 256 * b.toNat + 256 ^ 2 * c.toNat + 256 ^ 3 * d.toNat
  have word : (UInt32.ofNat n).toNat = n := UInt32.toNat_ofNat_of_lt' (by simp only [n, UInt32.size]; omega)
  refine ⟨UInt32.ofNat n, ?_⟩
  have byte : ∀ (k : Nat) (x : UInt8), n / 256 ^ k % 256 = x.toNat → (n / 256 ^ k).toUInt8 = x := by
    intro k x eq
    apply UInt8.toNat_inj.mp
    rw [← eq]
    simp [Nat.toUInt8]
  rw [← leBytes_eq_putUint32, word]
  change [(n / 256 ^ 0).toUInt8, (n / 256 ^ 1).toUInt8, (n / 256 ^ 2).toUInt8, (n / 256 ^ 3).toUInt8] = _
  rw [byte 0 a, byte 1 b, byte 2 c, byte 3 d] <;> simp only [n] <;> omega

/-- Every string of whole words is the bytes of some tokens. -/
theorem exists_tokens (k : Nat) (bytes : List UInt8) (length : bytes.length = 4 * k) :
    ∃ tokens, tokens.length = k ∧ tokenBytes tokens = bytes := by
  induction k generalizing bytes with
  | zero => exact ⟨[], rfl, (length_eq_zero_iff.mp length).symm⟩
  | succ k ih =>
    match bytes, length with
    | a :: b :: c :: d :: rest, length =>
      obtain ⟨t, first⟩ := putUint32_surjective a b c d
      obtain ⟨tokens, count, same⟩ := ih rest (by simp only [length_cons] at length; omega)
      refine ⟨t :: tokens, by rw [length_cons, count], ?_⟩
      change putUint32 t ++ tokenBytes tokens = _
      rw [first, same]
      rfl

variable {B : Nat} (large : 9 ≤ B)
include large

/-- Whatever the hash is, some prompt of one block hashes the string that another one hashes for its second block: its
tokens spell the digest of the first block. -/
theorem first_block_spells (digest : ∀ x, (sha x).length = 32) : ∃ P, (1 : UInt32) ∈ P ∧
    hashedStrings sha B P = [tokenBytes P] ∧
      hashedStrings sha B (zerosPrompt B) = [tokenBytes (replicate B 0), tokenBytes P] := by
  obtain ⟨spelled, count, bytes⟩ := exists_tokens 8 (sha (tokenBytes (replicate B 0))) (digest _)
  have ne : zerosPrompt B ≠ [] := append_ne_nil_of_right_ne_nil _ (by decide)
  have length : (replicate B (0 : UInt32)).length = B := length_replicate
  have full : (zerosPrompt B).take B = replicate B 0 := take_left' length
  have rest : (zerosPrompt B).drop B = [1] := drop_left' length
  refine ⟨spelled ++ [1], by simp, ?_, ?_⟩
  · unfold hashedStrings
    rw [blocksOf_of_length_le (by omega) (by simp) (by rw [length_append, count]; exact large)]
    rfl
  · unfold hashedStrings
    rw [blocksOf_eq_cons (by omega) ne, full, rest, blocksOf_of_length_le (by omega) (by decide) (by change 1 ≤ B; omega)]
    rw [hashed, hashed, hashed, nil_append, ← bytes]
    unfold tokenBytes
    rw [flatMap_append]

/-- The first entry of that prompt is the second entry of the other. -/
theorem spelled_entries (digest : ∀ x, (sha x).length = 32) : ∃ P, (1 : UInt32) ∈ P ∧
    (∀ x, x ∈ hashedStrings sha B P ∨ x ∈ hashedStrings sha B (zerosPrompt B) →
      x = tokenBytes (replicate B 0) ∨ x = tokenBytes P) ∧
    (Router.chainBlockHashes sha P B)[0]? = some (sha (tokenBytes P)) ∧
      (Router.chainBlockHashes sha (zerosPrompt B) B)[1]? = some (sha (tokenBytes P)) := by
  obtain ⟨P, one, first, second⟩ := first_block_spells large digest
  refine ⟨P, one, ?_, ?_, ?_⟩
  · intro x mem
    rw [first, second] at mem
    simp only [mem_cons, not_mem_nil, or_false] at mem
    tauto
  · rw [Router.chainBlockHashes_eq (by omega), chain, ← hashedStrings, first]
    rfl
  · rw [Router.chainBlockHashes_eq (by omega), chain, ← hashedStrings, second]
    rfl

theorem not_positionsKept : ¬ PositionsKept B := by
  intro kept
  have digest : ∀ x, (twoValuedSha B x).length = 32 := by
    intro x
    unfold twoValuedSha
    split <;> rfl
  obtain ⟨P, one, strings, first, second⟩ := spelled_entries large digest
  have ne : tokenBytes P ≠ tokenBytes (replicate B 0) := by
    intro same
    rw [tokenBytes_injective same] at one
    exact absurd (eq_of_mem_replicate one) (by decide)
  have differ : twoValuedSha B (tokenBytes (replicate B 0)) ≠ twoValuedSha B (tokenBytes P) := by
    unfold twoValuedSha
    rw [if_pos rfl, if_neg ne]
    decide
  have free : Set.InjOn (twoValuedSha B) {x | x ∈ hashedStrings (twoValuedSha B) B P ∨
      x ∈ hashedStrings (twoValuedSha B) B (zerosPrompt B)} := by
    intro x memX y memY same
    rcases strings x memX with rfl | rfl <;> rcases strings y memY with rfl | rfl
    · rfl
    · exact absurd same differ
    · exact absurd same.symm differ
    · rfl
  exact absurd (kept _ digest _ _ free 0 1 _ first second).1 (by decide)

end Spelled

/-- Entries are tied to their positions exactly for blocks that are no longer than a digest. -/
theorem positions_kept_iff {B : Nat} (pos : 1 ≤ B) : PositionsKept B ↔ B ≤ 8 := by
  constructor
  · intro kept
    by_contra large
    exact not_positionsKept (by omega) kept
  · exact positionsKept_of_le pos

theorem positions_kept_iff_sizes : PositionsKept 8 ∧ ¬ PositionsKept 128 :=
  ⟨(positions_kept_iff (by decide)).mpr (by decide), fun kept => absurd ((positions_kept_iff (by decide)).mp kept) (by decide)⟩

theorem first_block_spells_second : (Router.chainBlockHashes (twoValuedSha 9) spelledPrompt 9)[0]? =
        (Router.chainBlockHashes (twoValuedSha 9) (zerosPrompt 9) 9)[1]? ∧
      (Router.chainBlockHashes (twoValuedSha 9) spelledPrompt 9)[0]? = some (List.replicate 32 1) ∧
      (Router.chainBlockHashes (twoValuedSha 9) (zerosPrompt 9) 9)[0]? = some (List.replicate 32 0) := by
  refine ⟨by decide +kernel, by decide +kernel, by decide +kernel⟩

end LakeKv
