import LakeKv.Runs
import Mathlib.Data.List.Basic

namespace LakeKv

open List

/-! The key side of a copy: which keys a prefix has, and which segment of the target each key goes to. -/

/-- What the key computation takes from outside the repository: the environment variable it reads, the block
hash and its text, the text of a pool key, the regular expression that finds the rank in a key, and how
Python prints a string. -/
structure Upstream where
  pythonHashSeed : Option String
  hashBlockTokens : Option (List UInt8) → List Int → List UInt8
  blockHashToStr : List UInt8 → String
  poolKey : String → String → Nat → String
  searchRank : String → Option Nat
  repr : String → String

namespace Upstream

variable (U : Upstream)

def reprList (xs : List String) : String := "[" ++ ", ".intercalate (xs.map U.repr) ++ "]"

def hashBlocks : Option (List UInt8) → List (List Int) → List (List UInt8)
  | _, [] => []
  | parent, chunk :: chunks =>
    let h := U.hashBlockTokens parent chunk
    h :: hashBlocks (some h) chunks

/-- `hash_token_block_chain`: only full blocks are hashed. -/
def hashTokenBlockChain (tokenIds : List Int) (blockSize : Nat) : Except String (List (List UInt8)) :=
  if U.pythonHashSeed ≠ some "0" then
    .error ("PYTHONHASHSEED must be '0' to reproduce the engine's block-hash " ++
      "chain (vllm init_none_hash salts with os.urandom when unset). " ++
      "Export PYTHONHASHSEED=0 and rerun.")
  else if blockSize = 0 then .error "integer division or modulo by zero"
  else
    .ok (U.hashBlocks none
      ((List.range (tokenIds.length / blockSize)).map fun i => (tokenIds.drop (i * blockSize)).take blockSize))

def hashTokenBlocks (tokenIds : List Int) (blockSize : Nat) : Except String (List String) :=
  (U.hashTokenBlockChain tokenIds blockSize).map fun hashes => hashes.map U.blockHashToStr

/-- `expand_store_keys` with the sizes a `KeyComputer` leaves at one. -/
def expandStoreKeys (modelName : String) (chunkHashes : List String) (tpSize putStep : Nat) : List String :=
  let headOrTpRanks := max (tpSize / max putStep 1) 1
  chunkHashes.flatMap fun chunkHash => (List.range headOrTpRanks).map fun rank => U.poolKey modelName chunkHash rank

def parseKeyRank (key : String) : Except String Nat :=
  match U.searchRank key with
  | none => .error ("key missing @head_or_tp_rank:<n>@: " ++ U.repr key)
  | some rank => .ok rank

end Upstream

structure KeyComputer where
  modelName : String
  blockSize : Nat
  tpSize : Nat
  peerTpSize : Option Nat
  putStep : Nat

namespace KeyComputer

variable (K : KeyComputer) (U : Upstream)

def peerTp : Nat := K.peerTpSize.getD 0

def effectiveTp : Nat := if K.peerTp ≠ 0 ∧ K.peerTp ≠ K.tpSize then max K.tpSize K.peerTp else K.tpSize

def keysForTokens (tokenIds : List Int) : Except String (List String) :=
  (U.hashTokenBlocks tokenIds K.blockSize).map fun hexes =>
    U.expandStoreKeys K.modelName hexes K.effectiveTp K.putStep

/-- The targets `build_plan` indexes by rank: those given, or each repeated when the target has fewer ranks
than the keys. -/
def rankTargets (maxRank : Nat) (targets : List String) : Except String (List String) :=
  if maxRank < targets.length then .ok targets
  else
    let eff := max K.tpSize K.peerTp
    let nSub := if K.tpSize = 0 then 1 else eff / K.tpSize
    if K.peerTp ≠ 0 ∧ K.tpSize < K.peerTp ∧ 0 < K.tpSize ∧ eff % K.tpSize = 0 ∧ targets.length = K.tpSize ∧
        maxRank + 1 = eff then
      .ok ((List.range eff).map fun i => targets.getD (i / nSub) "")
    else
      .error ("key rank max=" ++ toString maxRank ++ " but only " ++ toString targets.length ++
        " targets (need targets[0.." ++ toString maxRank ++ "])")

def buildPlan (keys targets : List String) : Except String (List (String × String)) := do
  let ranks ← keys.mapM U.parseKeyRank
  match ranks.max? with
  | none => .ok []
  | some 0 =>
    match targets with
    | [target] => .ok (keys.map fun k => (k, target))
    | _ =>
      .error ("all keys are rank 0 but " ++ toString targets.length ++ " targets given (targets=" ++
        U.reprList targets ++ ") — single-rank target should resolve to exactly one segment; dirty locate result?")
  | some maxRank =>
    let targets ← K.rankTargets maxRank targets
    -- The ranks are at most `maxRank`, so the source's check for unknown ranks finds none here.
    if maxRank + 1 < targets.length then
      .error ("extra segments beyond rank " ++ toString maxRank ++ ": " ++
        U.reprList (targets.drop (maxRank + 1)))
    else .ok (keys.zipWith (fun k rank => (k, targets.getD rank "")) ranks)

theorem keysForTokens_nil {keys : List String} (found : K.keysForTokens U [] = .ok keys) : keys = [] := by
  unfold keysForTokens Upstream.hashTokenBlocks Upstream.hashTokenBlockChain at found
  split at found
  · cases found
  split at found
  · cases found
  · simp only [length_nil, Nat.zero_div, range_zero, map_nil, Upstream.hashBlocks, Except.map,
      Upstream.expandStoreKeys, flatMap_nil] at found
    exact (Except.ok.inj found).symm

end KeyComputer

end LakeKv
