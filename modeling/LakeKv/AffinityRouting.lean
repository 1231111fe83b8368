import LakeKv.Argmax
import LakeKv.Autoscale
import LakeKv.Shard

namespace LakeKv

open List

def anchorDepth : Nat := 8

/-- Go `prefixAnchorHash`; of no hashes it is an empty slice. -/
def prefixAnchorHash (hashes : List Flat) : Flat :=
  if hashes.length = 0 then []
  else hashes.getD ((if anchorDepth < hashes.length then anchorDepth else hashes.length) - 1) []

def putUint64 (v : UInt64) : List UInt8 :=
  [v.toUInt8, (v >>> 8).toUInt8, (v >>> 16).toUInt8, (v >>> 24).toUInt8, (v >>> 32).toUInt8, (v >>> 40).toUInt8,
    (v >>> 48).toUInt8, (v >>> 56).toUInt8]

def fnvWrite (h : UInt64) (data : List UInt8) : UInt64 :=
  data.foldl (fun h c => (h ^^^ c.toUInt64) * 1099511628211) h

def fnv1a64 (key : Flat) (node : String) : UInt64 :=
  let h := fnvWrite 14695981039346656037 (putUint64 key.length.toUInt64)
  fnvWrite (fnvWrite h key) node.toUTF8.toList

structure MirrorBlock where
  locations : List Location
  l3Present : Bool
  blockKind : Int
  localHit : Bool
  deriving DecidableEq, Repr

/-- The loop of Go `PrefixLookup`: it ends at the first hash that the pool does not have. -/
def ViewMirror.walkChain (pool : Map Flat MirrorEntry) (requesterNodeId : String) :
    List Flat → List MirrorBlock × Bool
  | [] => ([], true)
  | h :: hs =>
    match pool.lookup h with
    | none => ([], false)
    | some e =>
      let localHit := hasTierOn e.locations .l0 requesterNodeId
      let rest := walkChain pool requesterNodeId hs
      (⟨e.locations, e.l3Present, e.blockKind, localHit⟩ :: rest.1, localHit && rest.2)

/-- Go `PrefixLookup`: the blocks that are hit, their number, and whether the whole chain is on the node. -/
def ViewMirror.prefixLookup (m : ViewMirror) (modelId revision : String) (poolKind : Int) (hashes : List Flat)
    (requesterNodeId : String) : List MirrorBlock × Nat × Bool :=
  let walk := walkChain ((m.blocks.lookup ⟨modelId, revision, poolKind⟩).getD ∅) requesterNodeId hashes
  (walk.1, walk.1.length, walk.1.length ≠ 0 && walk.2)

def NodeRegistry.readyIDs (r : NodeRegistry) : List String :=
  r.ready.insertionSort (· ≤ ·)

/-- What `pickNodeForRequest` reads of `Server`: the nodes, their loads, the guard as it is configured, and the
mirror. -/
structure Routing where
  nodes : Option NodeRegistry
  inFlight : String → Int
  affinityInFlightGuard : Int
  mirror : Option ViewMirror

namespace Routing

variable (s : Routing)

def guard : Int :=
  if s.affinityInFlightGuard ≤ 0 then 8 else s.affinityInFlightGuard

def score (model : String) (hashes : List Flat) (id : String) : Nat :=
  match s.mirror with
  | none => 0
  | some m => ((m.prefixLookup model "" 1 hashes id).1.takeWhile MirrorBlock.localHit).length

def candidates (model : String) (hashes : List Flat) (ids : List String) : List String :=
  (ids.filter fun id => 0 < s.score model hashes id).insertionSort fun a b =>
    s.score model hashes b < s.score model hashes a ∨ s.score model hashes a = s.score model hashes b ∧ a ≤ b

def Beats (scoreOf : String → UInt64) (a b : String) : Prop :=
  scoreOf b < scoreOf a ∨ scoreOf a = scoreOf b ∧ a < b

instance (scoreOf : String → UInt64) : DecidableRel (Beats scoreOf) :=
  fun a b => inferInstanceAs (Decidable (scoreOf b < scoreOf a ∨ scoreOf a = scoreOf b ∧ a < b))

/-- The cold path: the best score of those below the guard, or of all if none is. -/
def coldPath (routingKey : Flat) (ids : List String) : String :=
  let below := ids.filter fun id => s.inFlight id < s.guard
  match if below = [] then ids else below with
  | [] => "worker-0"
  | best :: rest => scanBest (Beats (fnv1a64 routingKey)) best rest

def pickNodeForRequest (model : String) (hashes : List Flat) (routingKey : Flat) : String :=
  match s.nodes with
  | none => "worker-0"
  | some r =>
    match r.readyIDs with
    | [] => "worker-0"
    | [id] => id
    | ids =>
      match (s.candidates model hashes ids).find? fun id => s.inFlight id < s.guard with
      | some id => id
      | none => s.coldPath routingKey ids

theorem putUint64_eq (v : UInt64) : putUint64 v = toLeBytes v := by
  have zero : v >>> (8 * (0 : UInt64)) = v := UInt64.shiftRight_zero
  change _ = [(v >>> (8 * (0 : UInt64))).toUInt8, _, _, _, _, _, _, _]
  rw [zero]
  rfl

theorem fnv1a64_eq (key : Flat) : fnv1a64 key = hrwScore key := by
  funext node
  unfold fnv1a64
  rw [putUint64_eq]
  rfl

/-- The two languages take the same block of a chain for its anchor; of no blocks the router takes an empty key, and
the pool takes none. -/
theorem prefixAnchorHash_eq (hashes : List Flat) : prefixAnchorHash hashes = (chainAnchor hashes).getD [] := by
  unfold prefixAnchorHash chainAnchor
  have depth : (if anchorDepth < hashes.length then anchorDepth else hashes.length) = min hashes.length anchorDepthCap := by
    unfold anchorDepth anchorDepthCap
    split <;> omega
  rw [depth, getD_eq_getElem?_getD]
  split
  next empty =>
    rw [eq_nil_of_length_eq_zero empty]
    rfl
  · rfl

instance (scoreOf : String → UInt64) : IsStrictTotalOrder String (Beats scoreOf) where
  trichotomous a b := by
    unfold Beats
    intro above below
    rcases lt_trichotomy (scoreOf a) (scoreOf b) with lt | eq | gt
    · exact absurd (.inl lt) below
    · rcases lt_trichotomy a b with lt | same | gt
      · exact absurd (.inr ⟨eq, lt⟩) above
      · exact same
      · exact absurd (.inr ⟨eq.symm, gt⟩) below
    · exact absurd (.inl gt) above
  irrefl a := by
    rintro (lt | ⟨_, lt⟩)
    · exact lt_irrefl _ lt
    · exact lt_irrefl _ lt
  trans a b c := by
    rintro (first | ⟨eq, first⟩) (second | ⟨eq', second⟩)
    · exact .inl (lt_trans second first)
    · exact .inl (eq' ▸ first)
    · exact .inl (eq ▸ second)
    · exact .inr ⟨eq.trans eq', lt_trans first second⟩

section Home

variable {scoreOf : String → UInt64} {ids : List String} {home : String}

theorem wins_pickHome (found : pickHome scoreOf ids = some home) : Wins (Beats scoreOf) ids home := by
  induction ids generalizing home with
  | nil => cases found
  | cons n ns ih =>
    unfold pickHome at found
    cases rest : pickHome scoreOf ns with
    | none =>
      rw [rest] at found
      cases found
      have empty : ns = [] := by
        cases ns with
        | nil => rfl
        | cons m ms =>
          unfold pickHome at rest
          split at rest
          · cases rest
          · split at rest <;> cases rest
      rw [empty]
      exact .singleton n
    | some best =>
      rw [rest] at found
      dsimp only at found
      split at found
      next better =>
        cases found
        exact (ih rest).cons_of_beats better
      next not =>
        cases found
        refine (ih rest).cons_of_beaten fun ne => ?_
        rcases trichotomous_of (Beats scoreOf) n home with wins | same | wins
        · exact absurd wins not
        · exact absurd same ne
        · exact wins

theorem pickHome_some (scoreOf : String → UInt64) (nonempty : ids ≠ []) : ∃ home, pickHome scoreOf ids = some home := by
  cases ids with
  | nil => exact absurd rfl nonempty
  | cons n ns =>
    unfold pickHome
    split
    · exact ⟨n, rfl⟩
    next best _ =>
      split
      · exact ⟨n, rfl⟩
      · exact ⟨best, rfl⟩

theorem pickHome_eq (wins : Wins (Beats scoreOf) ids home) : pickHome scoreOf ids = some home := by
  obtain ⟨found, eq⟩ := pickHome_some scoreOf (ne_nil_of_mem wins.1)
  rw [eq, (wins_pickHome eq).unique wins]

end Home

section Picks

variable {s : Routing} {r : NodeRegistry} {model : String} {hashes : List Flat}

/-- No node of the registry is loaded to the guard, and none has the head of the chain. -/
structure Cold (s : Routing) (r : NodeRegistry) (model : String) (hashes : List Flat) : Prop where
  loads : ∀ n ∈ r.ready, s.inFlight n < s.guard
  absent : ∀ n ∈ r.ready, s.score model hashes n = 0

theorem mem_readyIDs (r : NodeRegistry) (n : String) : n ∈ r.readyIDs ↔ n ∈ r.ready :=
  (perm_insertionSort _ _).mem_iff

theorem wins_coldPath {ids : List String} (nonempty : ids ≠ []) (loads : ∀ n ∈ ids, s.inFlight n < s.guard)
    (routingKey : Flat) : Wins (Beats (fnv1a64 routingKey)) ids (s.coldPath routingKey ids) := by
  have all : (ids.filter fun id => decide (s.inFlight id < s.guard)) = ids :=
    filter_eq_self.mpr fun n mem => decide_eq_true (loads n mem)
  unfold coldPath
  dsimp only
  rw [all, if_neg nonempty]
  cases ids with
  | nil => exact absurd rfl nonempty
  | cons best rest => exact .scanBest best rest

theorem candidates_nil {ids : List String} (absent : ∀ n ∈ ids, s.score model hashes n = 0) :
    s.candidates model hashes ids = [] := by
  have none : (ids.filter fun id => decide (0 < s.score model hashes id)) = [] := by
    refine filter_eq_nil_iff.mpr ?_
    intro n mem
    have zero := absent n mem
    simp only [decide_eq_true_eq]
    omega
  unfold candidates
  rw [none]
  rfl

theorem wins_pick (nodes : s.nodes = some r) (nonempty : r.ready ≠ []) (cold : s.Cold r model hashes)
    (routingKey : Flat) :
    Wins (Beats (fnv1a64 routingKey)) r.ready (s.pickNodeForRequest model hashes routingKey) := by
  have same := mem_readyIDs r
  refine Wins.congr same ?_
  have loads : ∀ n ∈ r.readyIDs, s.inFlight n < s.guard := fun n mem => cold.loads n ((same n).mp mem)
  have absent : ∀ n ∈ r.readyIDs, s.score model hashes n = 0 := fun n mem => cold.absent n ((same n).mp mem)
  have some_ready : r.readyIDs ≠ [] := by
    obtain ⟨n, mem⟩ := exists_mem_of_ne_nil _ nonempty
    exact ne_nil_of_mem ((same n).mpr mem)
  unfold pickNodeForRequest
  rw [nodes]
  dsimp only
  generalize r.readyIDs = ids at loads absent some_ready
  split
  · exact absurd rfl some_ready
  next id => exact .singleton id
  rw [candidates_nil absent]
  exact wins_coldPath some_ready loads routingKey

/-- Without a candidate and below the guard, the router picks the home that the pool places a chain on, over the same
nodes in any order; and with one more node it picks the same or the new one. -/
theorem router_picks_home (nodes : s.nodes = some r) (nonempty : r.ready ≠ []) (cold : s.Cold r model hashes) :
    (∀ ids, (∀ n, n ∈ ids ↔ n ∈ r.ready) → pickHome (hrwScore ((chainAnchor hashes).getD [])) ids =
        some (s.pickNodeForRequest model hashes (prefixAnchorHash hashes))) ∧
    (∀ {B : Backend} (a : Authority B), (∀ n, n ∈ a.shard.readyNodes ↔ n ∈ r.ready) →
      ∀ modelId revision poolKind home plan, (a.preplaceOnRegister modelId revision poolKind hashes).2 = some (home, plan) →
        home = s.pickNodeForRequest model hashes (prefixAnchorHash hashes)) ∧
    ∀ r' n, (∀ m, m ∈ r'.ready ↔ m = n ∨ m ∈ r.ready) → s.Cold r' model hashes →
      { s with nodes := some r' }.pickNodeForRequest model hashes (prefixAnchorHash hashes) = n ∨
      { s with nodes := some r' }.pickNodeForRequest model hashes (prefixAnchorHash hashes) =
        s.pickNodeForRequest model hashes (prefixAnchorHash hashes) := by
  have pick := wins_pick nodes nonempty cold (prefixAnchorHash hashes)
  have home : ∀ ids, (∀ n, n ∈ ids ↔ n ∈ r.ready) →
      pickHome (hrwScore ((chainAnchor hashes).getD [])) ids =
        some (s.pickNodeForRequest model hashes (prefixAnchorHash hashes)) := by
    intro ids same
    rw [← prefixAnchorHash_eq, ← fnv1a64_eq]
    exact pickHome_eq (pick.congr fun n => (same n).symm)
  refine ⟨home, ?_, ?_⟩
  · intro B a same modelId revision poolKind target plan placed
    unfold Authority.preplaceOnRegister at placed
    cases anchor : chainAnchor hashes with
    | none =>
      rw [anchor] at placed
      cases placed
    | some key =>
      have found := home a.shard.readyNodes same
      rw [anchor] at placed found
      dsimp only [Option.getD_some] at placed found
      rw [found] at placed
      dsimp only at placed
      split at placed
      next => cases placed
      split at placed
      next => cases placed
      split at placed
      next => cases placed
      cases placed
      rfl
  · intro r' n same cold'
    have more := wins_pick (s := { s with nodes := some r' }) rfl
      (ne_nil_of_mem ((same n).mpr (.inl rfl))) ⟨cold'.loads, cold'.absent⟩ (prefixAnchorHash hashes)
    rcases more.of_insert same with new | old
    · exact .inl new
    · exact .inr (old.unique pick)

def sampleRegistry : NodeRegistry :=
  ⟨["worker-1", "worker-0"], ∅, 1⟩

def sampleRouting : Routing :=
  ⟨some sampleRegistry, fun _ => 3, 0, some .new⟩

theorem router_picks_home_two_nodes : pickHome (hrwScore [7]) ["worker-0", "worker-1"] =
      some (sampleRouting.pickNodeForRequest "m" [[5], [7]] (prefixAnchorHash [[5], [7]])) := by
  have cold : sampleRouting.Cold sampleRegistry "m" [[5], [7]] := by
    have below : (3 : Int) < 8 := by decide
    refine ⟨fun _ _ => below, ?_⟩
    intro n mem
    rcases mem_cons.mp mem with rfl | mem
    · decide +kernel
    · cases List.mem_singleton.mp mem
      decide +kernel
  refine (router_picks_home rfl (by decide) cold).1 ["worker-0", "worker-1"] ?_
  intro n
  exact (List.Perm.swap "worker-1" "worker-0" []).mem_iff

end Picks

end Routing

end LakeKv
