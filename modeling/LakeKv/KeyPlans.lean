import LakeKv.KeyComputer

namespace LakeKv

open List

/-! The plans for two sides with different numbers of ranks, over the keys as the repository writes them itself. -/

/-- `KeySpec.to_string` without a layer, with the fields that `expand` leaves at their defaults. -/
def keySpec (modelName chunkHash : String) (rank : Nat) : String :=
  modelName ++ "@pcp:0@dcp:0@head_or_tp_rank:" ++ toString rank ++
    "@pp_rank:0@group:0@cache_role:kv@cache_family:default@" ++ chunkHash

def digitsAt (text : List Char) : Option Nat :=
  if text.takeWhile Char.isDigit ≠ [] ∧ (text.dropWhile Char.isDigit).head? = some '@' then
    some (Nat.ofDigitChars 10 (text.takeWhile Char.isDigit) 0)
  else none

/-- A match of `@head_or_tp_rank:(\d+)@` at the front. -/
def rankAt (text : List Char) : Option Nat :=
  if "@head_or_tp_rank:".toList.isPrefixOf text then digitsAt (text.drop 17) else none

/-- The leftmost match. -/
def findRank : List Char → Option Nat
  | [] => none
  | c :: cs => (rankAt (c :: cs)).or (findRank cs)

theorem findRank_skip {before : List Char} (plain : '@' ∉ before) (text : List Char) :
    findRank (before ++ text) = findRank text := by
  induction before with
  | nil => rfl
  | cons c cs ih =>
    have other : ¬ '@' = c := fun same => plain (same ▸ mem_cons_self)
    have here : rankAt (c :: (cs ++ text)) = none := by
      simp [rankAt, isPrefixOf, other]
    rw [cons_append, findRank, here, Option.none_or]
    exact ih fun mem => plain (mem_cons_of_mem c mem)

theorem rankAt_digits (rank : Nat) (more : List Char) :
    rankAt ("@head_or_tp_rank:".toList ++ (Nat.toDigits 10 rank ++ '@' :: more)) = some rank := by
  have digits : ∀ c ∈ Nat.toDigits 10 rank, c.isDigit = true := fun c mem =>
    Nat.isDigit_of_mem_toDigits (by decide) (by decide) mem
  have drop : ("@head_or_tp_rank:".toList ++ (Nat.toDigits 10 rank ++ '@' :: more)).drop 17 =
      Nat.toDigits 10 rank ++ '@' :: more := rfl
  have taken : (Nat.toDigits 10 rank ++ '@' :: more).takeWhile Char.isDigit = Nat.toDigits 10 rank := by
    rw [takeWhile_append_of_pos digits, takeWhile_cons_of_neg (by decide), append_nil]
  have left : (Nat.toDigits 10 rank ++ '@' :: more).dropWhile Char.isDigit = '@' :: more := by
    rw [dropWhile_append_of_pos digits, dropWhile_cons_of_neg (by decide)]
  have front : "@head_or_tp_rank:".toList.isPrefixOf
      ("@head_or_tp_rank:".toList ++ (Nat.toDigits 10 rank ++ '@' :: more)) = true := rfl
  rw [rankAt, if_pos front, drop, digitsAt, taken, left, if_pos ⟨Nat.toDigits_ne_nil, rfl⟩,
    Nat.ofDigitChars_ten_toDigits]

theorem findRank_of_front {text : List Char} {rank : Nat} (front : rankAt text = some rank) :
    findRank text = some rank := by
  cases text with
  | nil => cases front
  | cons c cs => rw [findRank, front, Option.some_or]

theorem findRank_keySpec {modelName : String} (plain : '@' ∉ modelName.toList) (chunkHash : String) (rank : Nat) :
    findRank (keySpec modelName chunkHash rank).toList = some rank := by
  have text : (keySpec modelName chunkHash rank).toList = modelName.toList ++ ("@pcp:0@dcp:0".toList ++
      ("@head_or_tp_rank:".toList ++ (Nat.toDigits 10 rank ++
        '@' :: ("pp_rank:0@group:0@cache_role:kv@cache_family:default@".toList ++ chunkHash.toList)))) := by
    have digits : (toString rank).toList = Nat.toDigits 10 rank := Nat.toList_repr
    unfold keySpec
    rw [String.toList_append, String.toList_append, String.toList_append, String.toList_append, digits]
    simp only [append_assoc]
    rfl
  have start (more : List Char) : findRank ("@pcp:0@dcp:0".toList ++ more) = findRank more := by
    change findRank ('@' :: 'p' :: 'c' :: 'p' :: ':' :: '0' :: '@' :: 'd' :: 'c' :: 'p' :: ':' :: '0' :: more) = _
    simp [findRank, rankAt, isPrefixOf]
  rw [text, findRank_skip plain, start]
  exact findRank_of_front (rankAt_digits rank _)

/-- The key text and the rank search of the repository itself. -/
def Upstream.builtIn (U : Upstream) : Upstream :=
  { U with poolKey := keySpec, searchRank := fun key => findRank key.toList }

namespace KeyComputer

def expand (K : KeyComputer) (U : Upstream) (chunkHashes : List String) : List String :=
  U.expandStoreKeys K.modelName chunkHashes K.effectiveTp K.putStep

def sized (modelName : String) (blockSize tp peer : Nat) : KeyComputer :=
  ⟨modelName, blockSize, tp, some peer, 1⟩

section Ranks

variable {K : KeyComputer} {U : Upstream} {keys targets full : List String} {rank : String → Nat} {top : Nat}

theorem rankTargets_ok (found : K.rankTargets top targets = .ok full) : full = targets ∧ top < targets.length ∨
    targets.length ≤ top ∧ 0 < targets.length ∧ K.tpSize < K.peerTp ∧ targets.length = K.tpSize := by
  unfold rankTargets at found
  dsimp only at found
  generalize (if K.tpSize = 0 then 1 else max K.tpSize K.peerTp / K.tpSize) = n at found
  split at found
  next enough => exact .inl ⟨(Except.ok.inj found).symm, enough⟩
  next few =>
    split at found
    next given => exact .inr ⟨by omega, by omega, given.2.1, given.2.2.2.2.1⟩
    · cases found

variable (parsed : ∀ k ∈ keys, U.parseKeyRank k = .ok (rank k))
include parsed

variable (highest : (keys.map rank).max? = some top)
include highest

theorem buildPlan_ok (found : K.rankTargets top targets = .ok full) (length : full.length = top + 1) :
    K.buildPlan U keys targets = .ok (keys.map fun k => (k, full.getD (rank k) "")) := by
  unfold buildPlan
  rw [mapM_eq_ok parsed]
  simp only [bind, Except.bind]
  split
  next none => cases highest.symm.trans none
  next zero =>
    obtain rfl := Option.some.inj (highest.symm.trans zero)
    obtain rfl : full = targets := by
      rcases rankTargets_ok found with h | h
      · exact h.1
      · omega
    obtain ⟨target, rfl⟩ := length_eq_one_iff.mp length
    refine congrArg Except.ok (map_congr_left fun k mem => ?_)
    have low := (max?_eq_some_iff.mp highest).2 _ (mem_map_of_mem mem)
    rw [Nat.le_zero.mp low]
    rfl
  next m _ is =>
    obtain rfl := Option.some.inj (is.symm.trans highest)
    rw [found]
    dsimp only
    rw [if_neg (by omega), zipWith_map_right, zipWith_self]

theorem buildPlan_error (refused : ∀ full, K.rankTargets top targets = .ok full → top + 1 < full.length) :
    ∃ e, K.buildPlan U keys targets = .error e := by
  unfold buildPlan
  rw [mapM_eq_ok parsed]
  simp only [bind, Except.bind]
  split
  next none => cases highest.symm.trans none
  next zero =>
    obtain rfl := Option.some.inj (highest.symm.trans zero)
    split
    next target => exact absurd (refused [target] rfl) (by simp)
    · exact ⟨_, rfl⟩
  next m _ is =>
    obtain rfl := Option.some.inj (is.symm.trans highest)
    cases found : K.rankTargets m targets with
    | error e => exact ⟨e, rfl⟩
    | ok full =>
      dsimp only
      rw [if_pos (refused full found)]
      exact ⟨_, rfl⟩

end Ranks

section Plans

variable (U : Upstream) (modelName : String) (blockSize tp peer : Nat) (hashes targets : List String)

/-- `build_plan(expand(hashes), targets)`. -/
def planFor : Except String (List (String × String)) :=
  (sized modelName blockSize tp peer).buildPlan U.builtIn
    ((sized modelName blockSize tp peer).expand U.builtIn hashes) targets

/-- The keys in order, that of rank `i` with the target at `i * targets.length / ranks`. -/
def spread (ranks : Nat) : List (String × String) :=
  hashes.flatMap fun h => (List.range ranks).map fun i =>
    (keySpec modelName h i, targets.getD (i * targets.length / ranks) "")

end Plans

variable {U : Upstream} {modelName : String} {blockSize tp peer : Nat} {hashes targets : List String}

theorem expand_sized (htp : 0 < tp) (hpeer : 0 < peer) : (sized modelName blockSize tp peer).expand U.builtIn hashes =
      hashes.flatMap fun h => (range (max tp peer)).map (keySpec modelName h) := by
  have eff : (sized modelName blockSize tp peer).effectiveTp = max tp peer := by
    unfold effectiveTp peerTp sized
    dsimp only [Option.getD_some]
    split <;> omega
  have ranks : max (max tp peer / max 1 1) 1 = max tp peer := by
    rw [Nat.max_self, Nat.div_one]
    omega
  unfold expand Upstream.expandStoreKeys
  rw [eff]
  change (hashes.flatMap fun h => (range (max (max tp peer / max 1 1) 1)).map (keySpec modelName h)) = _
  rw [ranks]

section Keys

variable (htp : 0 < tp) (hpeer : 0 < peer) (plain : '@' ∉ modelName.toList)

def keyRank (key : String) : Nat := (findRank key.toList).getD 0

include plain in
theorem keyRank_keySpec (h : String) (i : Nat) : keyRank (keySpec modelName h i) = i := by
  rw [keyRank, findRank_keySpec plain]
  rfl

include plain in
theorem parsed_keys : ∀ key ∈ hashes.flatMap fun h => (range (max tp peer)).map (keySpec modelName h),
    U.builtIn.parseKeyRank key = .ok (keyRank key) := by
  intro key mem
  obtain ⟨h, -, mem⟩ := mem_flatMap.mp mem
  obtain ⟨i, -, rfl⟩ := mem_map.mp mem
  rw [keyRank_keySpec plain]
  unfold Upstream.parseKeyRank Upstream.builtIn
  dsimp only
  rw [findRank_keySpec plain]

include htp plain in
theorem highest_key (nonempty : hashes ≠ []) :
    ((hashes.flatMap fun h => (range (max tp peer)).map (keySpec modelName h)).map keyRank).max? =
      some (max tp peer - 1) := by
  rw [max?_eq_some_iff]
  refine ⟨?_, fun i mem => ?_⟩
  · obtain ⟨h, mem⟩ := exists_mem_of_ne_nil hashes nonempty
    refine mem_map.mpr ⟨keySpec modelName h (max tp peer - 1), ?_, keyRank_keySpec plain h _⟩
    exact mem_flatMap.mpr ⟨h, mem, mem_map_of_mem (mem_range.mpr (by omega))⟩
  · obtain ⟨key, listed, rfl⟩ := mem_map.mp mem
    obtain ⟨h, -, listed⟩ := mem_flatMap.mp listed
    obtain ⟨i, below, rfl⟩ := mem_map.mp listed
    rw [keyRank_keySpec plain]
    have := mem_range.mp below
    omega

include htp hpeer plain

variable (nonempty : hashes ≠ [])
include nonempty

theorem planFor_of_targets {full : List String}
    (found : (sized modelName blockSize tp peer).rankTargets (max tp peer - 1) targets = .ok full)
    (length : full.length = max tp peer)
    (at_rank : ∀ i < max tp peer, full.getD i "" = targets.getD (i * targets.length / max tp peer) "") :
    planFor U modelName blockSize tp peer hashes targets = .ok (spread modelName hashes targets (max tp peer)) := by
  unfold planFor spread
  rw [expand_sized htp hpeer, buildPlan_ok (parsed_keys plain) (highest_key htp plain nonempty) found (by omega),
    map_flatMap]
  refine congrArg Except.ok (flatMap_congr fun h _ => ?_)
  rw [map_map]
  refine map_congr_left fun i mem => ?_
  rw [Function.comp_apply, keyRank_keySpec plain, at_rank i (mem_range.mp mem)]

theorem planFor_full (length : targets.length = max tp peer) :
    planFor U modelName blockSize tp peer hashes targets = .ok (spread modelName hashes targets (max tp peer)) := by
  have found : (sized modelName blockSize tp peer).rankTargets (max tp peer - 1) targets = .ok targets := by
    rw [rankTargets, if_pos (by omega)]
  refine planFor_of_targets htp hpeer plain nonempty found length fun i _ => ?_
  rw [length, Nat.mul_div_cancel _ (by omega)]

theorem planFor_fewer (fewer : tp < peer) (divides : tp ∣ peer) (length : targets.length = tp) :
    planFor U modelName blockSize tp peer hashes targets = .ok (spread modelName hashes targets (max tp peer)) := by
  obtain ⟨n, rfl⟩ := divides
  have eff : max tp (tp * n) = tp * n := by omega
  have sub : tp * n / tp = n := Nat.mul_div_cancel_left n htp
  have given : (sized modelName blockSize tp (tp * n)).rankTargets (max tp (tp * n) - 1) targets =
      .ok ((range (tp * n)).map fun i => targets.getD (i / n) "") := by
    unfold rankTargets peerTp sized
    dsimp only [Option.getD_some]
    rw [eff, if_neg (by omega), if_pos ⟨by omega, fewer, htp, Nat.mul_mod_right tp n, length, by omega⟩,
      if_neg (by omega), sub]
  refine planFor_of_targets htp hpeer plain nonempty given (by rw [length_map, length_range, eff]) fun i hi => ?_
  rw [eff] at hi ⊢
  rw [length, Nat.mul_comm i tp, Nat.mul_div_mul_left i n htp]
  simp [hi]

theorem planFor_refused (full : targets.length ≠ max tp peer) (other : ¬ (tp < peer ∧ targets.length = tp)) :
    ∃ e, planFor U modelName blockSize tp peer hashes targets = .error e := by
  unfold planFor
  rw [expand_sized htp hpeer]
  refine buildPlan_error (parsed_keys plain) (highest_key htp plain nonempty) fun found given => ?_
  rcases rankTargets_ok given with ⟨rfl, enough⟩ | ⟨-, -, less, length⟩
  · omega
  · exact absurd ⟨less, length⟩ other

end Keys

/-- With as many targets as one side has ranks, the plan is as it should be if the side given as `tp` is not the
larger one with too few targets, and it is the same from both sides only if every rank has a target. With any
other number of targets there is none. -/
theorem plans_balanced_iff (U : Upstream) (modelName : String) (blockSize tp peer : Nat) (htp : 0 < tp)
    (hpeer : 0 < peer) (divides : tp ∣ peer ∨ peer ∣ tp) (plain : '@' ∉ modelName.toList) (hashes targets : List String) :
    (targets.length = tp ∨ targets.length = peer →
      (planFor U modelName blockSize tp peer hashes targets = .ok (spread modelName hashes targets (max tp peer)) ↔
        hashes = [] ∨ tp ≤ peer ∨ targets.length = tp) ∧
      (planFor U modelName blockSize tp peer hashes targets = planFor U modelName blockSize peer tp hashes targets ↔
        hashes = [] ∨ targets.length = max tp peer)) ∧
    (targets.length ≠ tp → targets.length ≠ peer → hashes ≠ [] →
      ∃ e, planFor U modelName blockSize tp peer hashes targets = .error e) := by
  by_cases nonempty : hashes = []
  · subst nonempty
    exact ⟨fun _ => ⟨iff_of_true rfl (.inl rfl), iff_of_true rfl (.inl rfl)⟩, fun _ _ h => absurd rfl h⟩
  refine ⟨fun count => ?_, fun h h' _ => planFor_refused htp hpeer plain nonempty (by omega) (by omega)⟩
  by_cases full : targets.length = max tp peer
  · rw [planFor_full htp hpeer plain nonempty full, planFor_full hpeer htp plain nonempty (by omega), Nat.max_comm peer]
    exact ⟨iff_of_true rfl (.inr (by omega)), iff_of_true rfl (.inr full)⟩
  rcases Nat.lt_or_gt_of_ne (show tp ≠ peer by omega) with less | more
  · have divides : tp ∣ peer := divides.resolve_right fun h => by
      have := Nat.le_of_dvd htp h
      omega
    have theirs : ∃ e, planFor U modelName blockSize peer tp hashes targets = .error e :=
      planFor_refused hpeer htp plain nonempty (by omega) (by omega)
    obtain ⟨e, theirs⟩ := theirs
    rw [planFor_fewer htp hpeer plain nonempty less divides (by omega), theirs]
    exact ⟨iff_of_true rfl (.inr (.inl (Nat.le_of_lt less))), iff_of_false nofun (by simp [nonempty, full])⟩
  · have divides : peer ∣ tp := divides.resolve_left fun h => by
      have := Nat.le_of_dvd hpeer h
      omega
    have mine : ∃ e, planFor U modelName blockSize tp peer hashes targets = .error e :=
      planFor_refused htp hpeer plain nonempty full (by omega)
    obtain ⟨e, mine⟩ := mine
    rw [mine, planFor_fewer hpeer htp plain nonempty more divides (by omega)]
    exact ⟨iff_of_false nofun (by simp [nonempty]; omega), iff_of_false nofun (by simp [nonempty, full])⟩

def offline : Upstream :=
  ⟨some "0", fun _ _ => [], fun _ => "", fun _ _ _ => "", fun _ => none, id⟩

theorem plans_balanced_two_four :
    planFor offline "m" 128 2 4 ["h"] ["a", "b"] = .ok (spread "m" ["h"] ["a", "b"] 4) ∧
      spread "m" ["h"] ["a", "b"] 4 =
        [(keySpec "m" "h" 0, "a"), (keySpec "m" "h" 1, "a"), (keySpec "m" "h" 2, "b"), (keySpec "m" "h" 3, "b")] := by
  have both := plans_balanced_iff offline "m" 128 2 4 (by decide) (by decide) (.inl (by decide)) (by decide) ["h"]
    ["a", "b"]
  exact ⟨(both.1 (.inl rfl)).1.mpr (.inr (.inl (by decide))), rfl⟩

/-- The same two targets for the same two sides, but with the larger side given first. -/
theorem plans_balanced_four_two :
    planFor offline "m" 128 4 2 ["h"] ["a", "b"] =
      .error "key rank max=3 but only 2 targets (need targets[0..3])" := by
  rfl

end KeyComputer

end LakeKv
