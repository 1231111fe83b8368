import LakeKv.AffinityRouting
import LakeKv.CheckpointRoundTrip
import LakeKv.ViewExactness

namespace LakeKv

open List Option ViewMirror

variable {B : Backend}

def ReusableBlock.shown (b : ReusableBlock) : List Location × Bool :=
  ((b.blockMeta.map BlockMeta.locations).getD [], b.localHit)

def MirrorBlock.shown (b : MirrorBlock) : List Location × Bool :=
  (b.locations, b.localHit)

/-- The pool of the mirror has the blocks of the authority's pool, where that has them. -/
def PoolView.MirroredBy (p : PoolView B) (pool : Map Flat MirrorEntry) : Prop :=
  ∀ f, (pool.lookup f).map MirrorEntry.locations = (p.byFlat.lookup f).map fun e => e.blockMeta.locations

namespace PoolView.MirroredBy

variable {p : PoolView B} {pool : Map Flat MirrorEntry} {f : Flat} {e : Entry B}

variable (mirrored : p.MirroredBy pool)
include mirrored

theorem none (absent : p.byFlat.lookup f = none) : pool.lookup f = none := by
  have same := mirrored f
  rw [absent] at same
  exact map_eq_none_iff.mp same

theorem some (found : p.byFlat.lookup f = some e) :
    ∃ x, pool.lookup f = some x ∧ x.locations = e.blockMeta.locations := by
  have same := mirrored f
  rw [found] at same
  exact map_eq_some_iff.mp same

variable (requester : String) (steps : List (Flat × B.Seq))

/-- The walk of the mirror finds what the loop of the authority finds, where no block fails the test of its lineage. -/
theorem walkChain (chained : ∀ s ∈ steps, ∀ e, p.byFlat.lookup s.1 = .some e → e.seqHash = s.2) :
    (walkChain pool requester (steps.map Prod.fst)).1.map MirrorBlock.shown =
        (p.lookupLoop requester steps).1.map ReusableBlock.shown ∧
      (walkChain pool requester (steps.map Prod.fst)).2 = (p.lookupLoop requester steps).2 := by
  induction steps with
  | nil => exact ⟨rfl, rfl⟩
  | cons s rest ih =>
    obtain ⟨f, seq⟩ := s
    obtain ⟨shown, flag⟩ := ih fun s mem => chained s (mem_cons_of_mem _ mem)
    cases found : p.byFlat.lookup f with
    | none => simp [ViewMirror.walkChain, lookupLoop, found, mirrored.none found]
    | some e =>
      obtain ⟨x, there, locations⟩ := mirrored.some found
      have lineage : e.seqHash = seq := chained (f, seq) List.mem_cons_self e found
      simp [ViewMirror.walkChain, lookupLoop, found, there, lineage, locations, shown, flag, MirrorBlock.shown,
        ReusableBlock.shown]

theorem length_le : (p.lookupLoop requester steps).1.length ≤
      (ViewMirror.walkChain pool requester (steps.map Prod.fst)).1.length := by
  induction steps with
  | nil => exact le_rfl
  | cons s rest ih =>
    obtain ⟨f, seq⟩ := s
    cases found : p.byFlat.lookup f with
    | none => simp [lookupLoop, found]
    | some e =>
      obtain ⟨x, there, -⟩ := mirrored.some found
      by_cases lineage : e.seqHash = seq
      · simp [ViewMirror.walkChain, lookupLoop, found, there, lineage, ih]
      · simp [lookupLoop, found, lineage]

end PoolView.MirroredBy

namespace Authority

variable {a : Authority B} {m : ViewMirror}

/-- Every registered block of the chain has the chain up to it. -/
def QueriedUnder (a : Authority B) (model revision : String) (pk : Int) (hashes : List Flat) : Prop :=
  ∀ i f e, hashes[i]? = some f → a.block? ⟨model, revision, pk, f⟩ = some e → e.prefixChain = hashes.take (i + 1)

theorem QueriedUnder.chained {model revision : String} {pk : Int} {hashes : List Flat} (keyed : a.Keyed)
    (queried : a.QueriedUnder model revision pk hashes) {s : Flat × B.Seq}
    (mem : s ∈ hashes.zip (B.lineageFromPrefix hashes)) {e : Entry B}
    (found : a.block? ⟨model, revision, pk, s.1⟩ = some e) : e.seqHash = s.2 := by
  obtain ⟨i, at_i⟩ := mem_iff_getElem?.mp mem
  obtain ⟨hash, seq⟩ := List.getElem?_zip_eq_some.mp at_i
  have inside : i < hashes.length := (List.getElem?_eq_some_iff.mp hash).1
  obtain ⟨p, pool, entry⟩ := block?_eq_some.mp found
  have lineage := (keyed _ _ p pool _ e entry).lineage
  rw [queried i s.1 e hash found, ← Backend.lineageFromPrefix_getElem? inside, seq] at lineage
  exact (some.inj lineage).symm

theorem mirroredBy_of_view (same : m.view = a.view) (model revision : String) (pk : Int) :
    ((a.pool? ⟨model, revision⟩ pk).getD (PoolView.new B 0)).MirroredBy
      ((m.blocks.lookup ⟨model, revision, pk⟩).getD ∅) := by
  intro f
  have shown := congrArg (Option.map Prod.fst) (congrFun same ⟨model, revision, pk, f⟩)
  rw [lookup_pool?_getD]
  unfold ViewMirror.view view at shown
  rw [Option.map_map, Option.map_map] at shown
  cases there : m.blocks.lookup ⟨model, revision, pk⟩ with
  | none =>
    rw [there] at shown
    exact shown
  | some pool =>
    rw [there] at shown
    exact shown

/-- A mirror with the blocks of the authority answers a lookup as the authority does, if every registered block of the
chain has this chain. If not, it finds at least as much of the chain. -/
theorem mirror_lookup (hB : B.Lawful) (h : a.Reachable) (same : m.view = a.view) (model revision : String) {pk : Int}
    (kind : pk = poolTarget ∨ pk = poolDraft) (hashes : List Flat) (requester : String) :
    (a.QueriedUnder model revision pk hashes →
      (m.prefixLookup model revision pk hashes requester).1.map MirrorBlock.shown =
          (a.lookupPrefix model revision pk hashes requester).1.map ReusableBlock.shown ∧
        (m.prefixLookup model revision pk hashes requester).2 = (a.lookupPrefix model revision pk hashes requester).2) ∧
    (a.lookupPrefix model revision pk hashes requester).2.1 ≤
      (m.prefixLookup model revision pk hashes requester).2.1 := by
  by_cases none : hashes = []
  · subst none
    exact ⟨fun _ => ⟨rfl, rfl⟩, le_rfl⟩
  have resolved : resolvePoolKind pk = .ok pk := by
    rcases kind with rfl | rfl <;> rfl
  have mirrored := mirroredBy_of_view same model revision pk
  have chain : (hashes.zip (B.lineageFromPrefix hashes)).map Prod.fst = hashes :=
    map_fst_zip (Backend.lineageFromPrefix_length hashes).ge
  rw [lookupPrefix_of_resolve resolved none]
  unfold prefixLookup
  dsimp only
  constructor
  · intro queried
    have walk := mirrored.walkChain requester (hashes.zip (B.lineageFromPrefix hashes)) fun s mem e found =>
      queried.chained (h.keyed hB) mem ((lookup_pool?_getD a model revision pk s.1).symm.trans found)
    rw [chain] at walk
    have length := congrArg length walk.1
    rw [length_map, length_map] at length
    refine ⟨walk.1, Prod.ext length ?_⟩
    dsimp only
    rw [length, walk.2, Bool.and_comm]
    simp [Nat.pos_iff_ne_zero]
  · have walk := mirrored.length_le requester (hashes.zip (B.lineageFromPrefix hashes))
    rw [chain] at walk
    exact walk

/-- The registered block is found, and what stands behind it is not. -/
theorem mirror_lookup_registered :
    (echoMirror.prefixLookup "m" "r" poolTarget [[1], [2]] "n").1.map MirrorBlock.shown =
        [([sampleLocation .l2 "n"], false)] ∧
      (echoMirror.prefixLookup "m" "r" poolTarget [[1], [2]] "n").2 = (1, false) := by
  have queried : echoAuthority.QueriedUnder "m" "r" poolTarget [[1], [2]] := by
    have chain : (echoAuthority.block? ⟨"m", "r", poolTarget, [1]⟩).map Entry.prefixChain = some [[1]] := by decide
    have absent : (echoAuthority.block? ⟨"m", "r", poolTarget, [2]⟩).isNone = true := by decide
    rintro (_ | _ | i) f e hash found
    · cases hash
      rw [found] at chain
      exact some.inj chain
    · cases hash
      rw [found] at absent
      cases absent
    · cases hash
  have both := (mirror_lookup sampleBackend_lawful (sampleRun_reachable _) echoMirror_view "m" "r" (.inl rfl)
    [[1], [2]] "n").1 queried
  have answer : (echoAuthority.lookupPrefix "m" "r" poolTarget [[1], [2]] "n").1.map ReusableBlock.shown =
        [([sampleLocation .l2 "n"], false)] ∧
      (echoAuthority.lookupPrefix "m" "r" poolTarget [[1], [2]] "n").2 = (1, false) := by decide
  exact ⟨both.1.trans answer.1, both.2.trans answer.2⟩

end Authority

end LakeKv
