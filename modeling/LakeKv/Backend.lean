import LakeKv.Wire

namespace LakeKv

structure NamespaceKey where
  modelId : String
  revision : String
  deriving DecidableEq, Repr

instance namespaceKeyOrder : LinearOrder NamespaceKey :=
  LinearOrder.lift' (fun k => toLex (k.modelId, k.revision)) fun a b h => by
    cases a
    cases b
    simpa using h

def NamespaceKey.fromId (id : KvBlockId) : NamespaceKey :=
  ⟨id.modelId, id.revision⟩

/-- `reconcile::BlockKey`: the identity of a block without its scope. -/
structure BlockKey where
  modelId : String
  revision : String
  poolKind : Int
  flat : Flat
  deriving DecidableEq, Repr

def BlockKey.ns (k : BlockKey) : NamespaceKey :=
  ⟨k.modelId, k.revision⟩

def BlockKey.fromId (id : KvBlockId) : BlockKey where
  modelId := id.modelId
  revision := id.revision
  poolKind := if id.poolKind = 0 then poolTarget else id.poolKind
  flat := id.blockHash

def BlockKey.toId (k : BlockKey) : KvBlockId where
  modelId := k.modelId
  blockHash := k.flat
  poolKind := k.poolKind
  scope := "public"
  revision := k.revision

abbrev BlockId := Nat

/-- What the control plane takes from outside its own code: the lineage hash
(`dynamo_tokens` over `xxh3_64`), the inactive index with its frequency tracker
(`kvbm_logical`, `LineageBackend::with_frequency`), and the order in which a
`HashMap` is walked where the code does not sort. -/
structure Backend where
  Seq : Type
  decSeq : DecidableEq Seq
  flatToBlockHash : Flat → UInt64
  root : UInt64 → Seq
  extend : Seq → UInt64 → Seq
  Index : Type
  withFrequency : Nat → Index
  /-- The blocks an index holds: what the laws below speak about. -/
  nodes : Index → Map Seq BlockId
  allocate : Index → Nat → List (Seq × BlockId) × Index
  insert : Index → Seq → BlockId → Index
  len : Index → Nat
  has : Index → Seq → Bool
  take : Index → Seq → BlockId → Bool × Index
  touch : Index → Seq → Index
  namespaceOrder : Finset NamespaceKey → List NamespaceKey
  poolOrder : Finset Int → List Int
  flatOrder : Finset Flat → List Flat
  blockOrder : Finset BlockKey → List BlockKey

instance (B : Backend) : DecidableEq B.Seq := B.decSeq

def ListsOnce {α : Type} (order : Finset α → List α) : Prop :=
  ∀ s, (order s).Nodup ∧ ∀ x, x ∈ order s ↔ x ∈ s

/-- The contract of `InactiveIndex` as `LineageBackend` keeps it. A full-hash match decides
`has` and `take`; `insert` skips a node whose slot is taken (a duplicate or a fragment
collision); `allocate` hands out as many blocks as it is asked for while it has any; a
frequency touch moves no block in or out. -/
structure Backend.Lawful (B : Backend) : Prop where
  nodes_withFrequency : ∀ cap, B.nodes (B.withFrequency cap) = ∅
  len_eq : ∀ i, B.len i = (B.nodes i).keys.card
  has_iff : ∀ i s, B.has i s = true ↔ s ∈ B.nodes i
  nodes_insert : ∀ i s b, B.nodes (B.insert i s b) = B.nodes i ∨
    (s ∉ B.nodes i ∧ B.nodes (B.insert i s b) = (B.nodes i).insert s b)
  nodes_take : ∀ i s b, B.nodes (B.take i s b).2 =
    if (B.nodes i).lookup s = some b then (B.nodes i).erase s else B.nodes i
  take_iff : ∀ i s b, (B.take i s b).1 = true ↔ (B.nodes i).lookup s = some b
  allocate_mem : ∀ i n s b, (s, b) ∈ (B.allocate i n).1 → (B.nodes i).lookup s = some b
  allocate_nodup : ∀ i n, ((B.allocate i n).1.map Prod.fst).Nodup
  allocate_length : ∀ i n, (B.allocate i n).1.length = min n (B.len i)
  nodes_allocate : ∀ i n s, (B.nodes (B.allocate i n).2).lookup s =
    if s ∈ (B.allocate i n).1.map Prod.fst then none else (B.nodes i).lookup s
  nodes_touch : ∀ i s, B.nodes (B.touch i s) = B.nodes i
  namespaceOrder : ListsOnce B.namespaceOrder
  poolOrder : ListsOnce B.poolOrder
  flatOrder : ListsOnce B.flatOrder
  blockOrder : ListsOnce B.blockOrder

namespace Backend

variable {B : Backend} (p : Option B.Seq) (c : List Flat)

/-- The loop of `lineage_from_prefix`, with the lineage hash of the block before. -/
def lineageAfter (B : Backend) : Option B.Seq → List Flat → List B.Seq
  | _, [] => []
  | none, f :: fs =>
    B.root (B.flatToBlockHash f) :: B.lineageAfter (some (B.root (B.flatToBlockHash f))) fs
  | some p, f :: fs =>
    B.extend p (B.flatToBlockHash f) :: B.lineageAfter (some (B.extend p (B.flatToBlockHash f))) fs

def lineageFromPrefix (B : Backend) (prefixHashes : List Flat) : List B.Seq :=
  B.lineageAfter none prefixHashes

def lineageOf (B : Backend) (chain : List Flat) : Option B.Seq :=
  (B.lineageFromPrefix chain).getLast?

theorem lineageAfter_length : (B.lineageAfter p c).length = c.length := by
  induction c generalizing p with
  | nil => cases p <;> rfl
  | cons f fs ih => cases p <;> simp [lineageAfter, ih]

theorem lineageAfter_take (n : Nat) :
    B.lineageAfter p (c.take n) = (B.lineageAfter p c).take n := by
  induction c generalizing p n with
  | nil => cases p <;> simp [lineageAfter]
  | cons f fs ih =>
    cases n with
    | zero => cases p <;> simp [lineageAfter]
    | succ n => cases p <;> simp [lineageAfter, ih]

theorem lineageFromPrefix_length : (B.lineageFromPrefix c).length = c.length :=
  lineageAfter_length none c

theorem lineageFromPrefix_getElem? {c : List Flat} {i : Nat} (h : i < c.length) :
    (B.lineageFromPrefix c)[i]? = B.lineageOf (c.take (i + 1)) := by
  have hl : i < (B.lineageFromPrefix c).length := by rwa [lineageFromPrefix_length]
  have ht : B.lineageFromPrefix (c.take (i + 1)) = (B.lineageFromPrefix c).take (i + 1) :=
    lineageAfter_take none c (i + 1)
  rw [lineageOf, ht, List.getLast?_take]
  simp [hl]

/-- Collision-freedom of the lineage hash on the chains of a set. -/
def InjectiveOn (B : Backend) (chains : Set (List Flat)) : Prop :=
  ∀ c ∈ chains, ∀ d ∈ chains, c ≠ [] → B.lineageOf c = B.lineageOf d → c = d

end Backend

end LakeKv
