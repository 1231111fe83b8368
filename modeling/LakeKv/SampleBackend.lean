import LakeKv.Operations

namespace LakeKv

open Finmap Finset List

instance blockKeyOrder : LinearOrder BlockKey :=
  LinearOrder.lift' (fun k => toLex (k.modelId, toLex (k.revision, toLex (k.poolKind, k.flat))))
    fun a b h => by
      cases a
      cases b
      simpa using h

def sampleHash (f : Flat) : UInt64 :=
  f.foldl (fun h b => h * 256 + b.toUInt64) 0

def sampleVictims (i : Map (List Nat) BlockId) (n : Nat) : List (List Nat) :=
  i.keys.ascending.reverse.take n

theorem nodup_sampleVictims (i : Map (List Nat) BlockId) (n : Nat) : (sampleVictims i n).Nodup :=
  (nodup_reverse.mpr (nodup_ascending _)).sublist (take_sublist _ _)

variable {i : Map (List Nat) BlockId} (ops : List Op)

theorem mem_of_mem_sampleVictims {n : Nat} {s : List Nat} (h : s ∈ sampleVictims i n) : s ∈ i := by
  have hs : s ∈ i.keys := mem_ascending.mp (mem_reverse.mp (mem_of_mem_take h))
  exact Finmap.mem_keys.mp hs

def sampleAllocate (i : Map (List Nat) BlockId) (n : Nat) : List (List Nat × BlockId) × Map (List Nat) BlockId :=
  ((sampleVictims i n).filterMap fun s => (i.lookup s).map (s, ·),
    (sampleVictims i n).foldl (fun i s => i.erase s) i)

theorem sampleAllocate_fst (i : Map (List Nat) BlockId) (n : Nat) :
    (sampleAllocate i n).1.map Prod.fst = sampleVictims i n := by
  have hall : ∀ ss : List (List Nat), (∀ s ∈ ss, s ∈ i) →
      ((ss.filterMap fun s => (i.lookup s).map (s, ·)).map Prod.fst) = ss := by
    intro ss
    induction ss with
    | nil => exact fun _ => rfl
    | cons s ss ih =>
      intro hmem
      obtain ⟨b, hb⟩ := mem_iff.mp (hmem s mem_cons_self)
      simp [hb, ih fun x hx => hmem x (mem_cons_of_mem _ hx)]
  exact hall _ fun _ hs => mem_of_mem_sampleVictims hs

theorem sampleAllocate_length (i : Map (List Nat) BlockId) (n : Nat) :
    (sampleAllocate i n).1.length = min n i.keys.card := by
  rw [← length_map Prod.fst, sampleAllocate_fst, sampleVictims, length_take,
    length_reverse, ← toFinset_card_of_nodup (nodup_ascending i.keys)]
  congr 2
  ext s
  simp [mem_ascending]

theorem sampleAllocate_mem {n : Nat} {s : List Nat} {b : BlockId}
    (h : (s, b) ∈ (sampleAllocate i n).1) : i.lookup s = some b := by
  obtain ⟨x, -, hx⟩ := mem_filterMap.mp h
  obtain ⟨c, hc, he⟩ := Option.map_eq_some_iff.mp hx
  cases he
  exact hc

/-- A backend that can be run: a lineage is the list of its block hashes, the index is a map, and
every walk is in ascending order. -/
def sampleBackend : Backend where
  Seq := List Nat
  decSeq := inferInstance
  flatToBlockHash := sampleHash
  root h := [h.toNat]
  extend p h := p ++ [h.toNat]
  Index := Map (List Nat) BlockId
  withFrequency _ := ∅
  nodes i := i
  allocate := sampleAllocate
  insert i s b := if s ∈ i then i else i.insert s b
  len i := i.keys.card
  has i s := decide (s ∈ i)
  take i s b := (decide (i.lookup s = some b), if i.lookup s = some b then i.erase s else i)
  touch i _ := i
  namespaceOrder := Finset.ascending
  poolOrder := Finset.ascending
  flatOrder := Finset.ascending
  blockOrder := Finset.ascending

theorem listsOnce_ascending {α : Type} [LinearOrder α] : ListsOnce (α := α) ascending :=
  fun s => ⟨s.nodup_ascending, fun _ => mem_ascending⟩

theorem sampleBackend_lawful : sampleBackend.Lawful where
  nodes_withFrequency _ := rfl
  len_eq _ := rfl
  has_iff (i : Map (List Nat) BlockId) (s : List Nat) := decide_eq_true_iff (p := s ∈ i)
  nodes_insert (i : Map (List Nat) BlockId) s b := by
    by_cases hs : s ∈ i
    · exact .inl (if_pos hs)
    · exact .inr ⟨hs, if_neg hs⟩
  nodes_take _ _ _ := rfl
  take_iff _ _ _ := decide_eq_true_iff
  allocate_mem _ _ _ _ h := sampleAllocate_mem h
  allocate_nodup i n := (sampleAllocate_fst i n).symm ▸ nodup_sampleVictims i n
  allocate_length i n := sampleAllocate_length i n
  nodes_allocate i n s := by
    have hout := lookup_foldl_erase (fun s => s) (sampleVictims i n) i s
    rw [map_id'] at hout
    exact (sampleAllocate_fst i n).symm ▸ hout
  nodes_touch _ _ := rfl
  namespaceOrder := listsOnce_ascending
  poolOrder := listsOnce_ascending
  flatOrder := listsOnce_ascending
  blockOrder := listsOnce_ascending

def sampleModel (soft hard : Int) : ModelDescriptor :=
  ⟨"m", "r", 1, some ⟨16, 10⟩, 0, some ⟨soft, hard, false⟩⟩

def sampleKey : NamespaceKey := ⟨"m", "r"⟩

def sampleId (f : UInt8) : KvBlockId :=
  ⟨"m", [f], poolTarget, "public", "r"⟩

def sampleLocation (tier : Tier) (node : String) : Location :=
  ⟨tier.toWire, node, 1, 0⟩

def sampleMeta (f : UInt8) : BlockMeta :=
  ⟨some (sampleId f), 0, [sampleLocation .l2 "n"], false, 0⟩

def sampleRef (f : UInt8) (delta : Int) (node : String) : RefDelta :=
  ⟨some (sampleId f), RefKind.request.toWire, delta, node⟩

def sampleRun (ops : List Op) : Authority sampleBackend :=
  ops.foldl Authority.step (Authority.withInactiveCap sampleBackend 8)

theorem sampleRun_reachableBy {ok : Authority sampleBackend → Op → Prop}
    (h : Reach.Allowed Authority.step ok (Authority.withInactiveCap sampleBackend 8) ops) :
    Authority.ReachableBy ok (sampleRun ops) :=
  (Reach.start ⟨8, rfl⟩).foldl h

theorem sampleRun_reachable : (sampleRun ops).Reachable :=
  sampleRun_reachableBy ops (Reach.allowed_true _ ops)

/-- A namespace at its hard quota of two blocks, one of them inactive. -/
def Authority.fullRun : List Op :=
  [.registerModel (sampleModel 0 20), .register "n" [[1]] [sampleMeta 1], .register "n" [[2]] [sampleMeta 2],
    .reportRefs [sampleRef 1 1 "n", sampleRef 1 (-1) "n"]]

end LakeKv
