import LakeKv.KeyedBlocks
import LakeKv.Shard

namespace LakeKv

open Finmap List

namespace ShardRing

def ready (r : ShardRing) : Set (String × Nat) :=
  { p | ∃ st, r.nodes.lookup p.1 = some st ∧ st.draining = false ∧ st.vnodeCount = p.2 }

end ShardRing

inductive RingCall
  | join (nodeId : String) (vnodeCount : Nat)
  | markDrain (nodeId : String)
  | remove (nodeId : String)

namespace ShardHash

variable (H : ShardHash)

def call (r : ShardRing) : RingCall → Except Fault ShardRing
  | .join nodeId vnodeCount => H.join r nodeId vnodeCount
  | .markDrain nodeId => H.markDrain r nodeId
  | .remove nodeId => H.remove r nodeId

def step (r : ShardRing) (c : RingCall) : ShardRing :=
  match H.call r c with
  | .ok r' => r'
  | .error _ => r

/-- A node that joins, does so with a vnode count of `J`. -/
def Joins (J : Set (String × Nat)) (r : ShardRing) : RingCall → Prop
  | .join nodeId vnodeCount => (nodeId, countFor r vnodeCount) ∈ J
  | _ => True

def Fresh (r : ShardRing) : Prop :=
  ∃ vnodeCount, r = .new vnodeCount

def Built (J : Set (String × Nat)) : ShardRing → Prop :=
  Reach H.step Fresh (Joins J)

def Apart (J : Set (String × Nat)) : Prop :=
  ∀ n c hs m d hs', (n, c) ∈ J → (m, d) ∈ J → H.vnodeHashesFor n c = some hs →
    H.vnodeHashesFor m d = some hs' → ∀ v, v ∈ hs → v ∈ hs' → n = m

/-- What the calls keep: the hashes are those of the node and its count, and the ring is up to
date with the nodes. -/
structure Placed (J : Set (String × Nat)) (r : ShardRing) : Prop where
  joined : ∀ n st, r.nodes.lookup n = some st → (n, st.vnodeCount) ∈ J
  hashes : ∀ n st, r.nodes.lookup n = some st →
    H.vnodeHashesFor n st.vnodeCount = some st.vnodeHashes
  ring : r.ring = (H.rebuildRing r).ring

def Vnode (S : Set (String × Nat)) (v : UInt64) (n : String) : Prop :=
  ∃ c hs, (n, c) ∈ S ∧ H.vnodeHashesFor n c = some hs ∧ v ∈ hs

variable {H} {J : Set (String × Nat)} {r r' : ShardRing} {nodeId : String} {vnodeCount : Nat}

theorem join_eq_ok (h : H.join r nodeId vnodeCount = .ok r') :
    r.nodes.lookup nodeId = none ∧ ∃ hs, H.vnodeHashesFor nodeId (countFor r vnodeCount) = some hs ∧
      r' = H.regenerate { r with nodes := r.nodes.insert nodeId ⟨countFor r vnodeCount, false, hs⟩ } := by
  unfold join at h
  split at h
  · cases h
  split at h
  · cases h
  · rename_i absent
    refine ⟨lookup_eq_none.mpr absent, ?_⟩
    cases hv : H.vnodeHashesFor nodeId (countFor r vnodeCount) with
    | none => simp [hv] at h
    | some hs =>
      refine ⟨hs, rfl, ?_⟩
      simp only [hv, Except.ok.injEq] at h
      exact h.symm

theorem markDrain_eq_ok (h : H.markDrain r nodeId = .ok r') :
    ∃ st, r.nodes.lookup nodeId = some st ∧ st.draining = false ∧
      r' = H.regenerate { r with nodes := r.nodes.insert nodeId { st with draining := true } } := by
  unfold markDrain at h
  cases hst : r.nodes.lookup nodeId with
  | none => simp [hst] at h
  | some st =>
    cases hd : st.draining with
    | true => simp [hst, hd] at h
    | false =>
      simp only [hst, hd, Bool.false_eq_true, if_false, Except.ok.injEq] at h
      exact ⟨st, rfl, hd, h.symm⟩

theorem remove_eq_ok (h : H.remove r nodeId = .ok r') : ∃ st, r.nodes.lookup nodeId = some st ∧ st.draining = true ∧
      r' = H.regenerate { r with nodes := r.nodes.erase nodeId } := by
  unfold remove at h
  cases hst : r.nodes.lookup nodeId with
  | none => simp [hst] at h
  | some st =>
    cases hd : st.draining with
    | false => simp [hst, hd] at h
    | true =>
      simp only [hst, hd, Bool.not_true, Bool.false_eq_true, if_false, Except.ok.injEq] at h
      exact ⟨st, rfl, hd, h.symm⟩

theorem ready_join (h : H.join r nodeId vnodeCount = .ok r') :
    r'.ready = insert (nodeId, countFor r vnodeCount) r.ready := by
  obtain ⟨absent, hs, -, rfl⟩ := join_eq_ok h
  ext ⟨n, c⟩
  simp only [ShardRing.ready, regenerate, rebuildRing, lookup_insert_if, Set.mem_ofPred_eq,
    Set.mem_insert_iff, Prod.mk.injEq]
  by_cases hn : n = nodeId
  · subst hn
    constructor
    · rintro ⟨st, hst, -, rfl⟩
      simp only [if_true, Option.some.injEq] at hst
      exact Or.inl ⟨rfl, hst ▸ rfl⟩
    · rintro (⟨-, rfl⟩ | ⟨st, hst, -⟩)
      · exact ⟨_, if_pos rfl, rfl, rfl⟩
      · rw [absent] at hst
        cases hst
  · simp [hn]

theorem ready_markDrain (h : H.markDrain r nodeId = .ok r') : r'.ready = r.ready \ { p | p.1 = nodeId } := by
  obtain ⟨st, hst, -, rfl⟩ := markDrain_eq_ok h
  ext ⟨n, c⟩
  simp only [ShardRing.ready, regenerate, rebuildRing, lookup_insert_if, Set.mem_ofPred_eq, Set.mem_sdiff]
  by_cases hn : n = nodeId <;> simp [hn]

theorem ready_remove (h : H.remove r nodeId = .ok r') : r'.ready = r.ready := by
  obtain ⟨st, hst, hd, rfl⟩ := remove_eq_ok h
  ext ⟨n, c⟩
  simp only [ShardRing.ready, regenerate, rebuildRing, lookup_erase_if, Set.mem_ofPred_eq]
  by_cases hn : n = nodeId
  · subst hn
    simp [hst, hd]
  · simp [hn]

theorem placed_regenerate (joined : ∀ n st, r.nodes.lookup n = some st → (n, st.vnodeCount) ∈ J)
    (hashes : ∀ n st, r.nodes.lookup n = some st →
      H.vnodeHashesFor n st.vnodeCount = some st.vnodeHashes) : H.Placed J (H.regenerate r) :=
  ⟨joined, hashes, rfl⟩

theorem placed_new (lawful : ListsOnce H.nodeOrder) (d : Nat) : H.Placed J (.new d) := by
  have nothing : H.nodeOrder (∅ : Finset String) = [] := by
    apply eq_nil_iff_forall_not_mem.mpr
    intro n hn
    have := ((lawful ∅).2 n).mp hn
    simp at this
  refine ⟨?_, ?_, ?_⟩
  · intro n st hst
    simp [ShardRing.new] at hst
  · intro n st hst
    simp [ShardRing.new] at hst
  · simp [rebuildRing, ShardRing.new, nothing]

theorem Placed.join (hp : H.Placed J r) (mem : (nodeId, countFor r vnodeCount) ∈ J)
    (h : H.join r nodeId vnodeCount = .ok r') : H.Placed J r' := by
  obtain ⟨-, hs, hhs, rfl⟩ := join_eq_ok h
  apply placed_regenerate
  · intro n st hst
    rcases lookup_insert_some hst with ⟨rfl, rfl⟩ | ⟨-, hst⟩
    · exact mem
    · exact hp.joined n st hst
  · intro n st hst
    rcases lookup_insert_some hst with ⟨rfl, rfl⟩ | ⟨-, hst⟩
    · exact hhs
    · exact hp.hashes n st hst

theorem Placed.markDrain (hp : H.Placed J r) (h : H.markDrain r nodeId = .ok r') : H.Placed J r' := by
  obtain ⟨st₀, hst₀, -, rfl⟩ := markDrain_eq_ok h
  apply placed_regenerate
  · intro n st hst
    rcases lookup_insert_some hst with ⟨rfl, rfl⟩ | ⟨-, hst⟩
    · exact hp.joined _ st₀ hst₀
    · exact hp.joined n st hst
  · intro n st hst
    rcases lookup_insert_some hst with ⟨rfl, rfl⟩ | ⟨-, hst⟩
    · exact hp.hashes _ st₀ hst₀
    · exact hp.hashes n st hst

theorem Placed.remove (hp : H.Placed J r) (h : H.remove r nodeId = .ok r') : H.Placed J r' := by
  obtain ⟨-, -, -, rfl⟩ := remove_eq_ok h
  apply placed_regenerate
  · intro n st hst
    exact hp.joined n st (lookup_erase_some hst).2
  · intro n st hst
    exact hp.hashes n st (lookup_erase_some hst).2

theorem Built.placed (lawful : ListsOnce H.nodeOrder) (h : H.Built J r) : H.Placed J r := by
  refine Reach.invariant ?_ ?_ h
  · rintro _ ⟨d, rfl⟩
    exact placed_new lawful d
  · intro r c hp hc
    cases hr : H.call r c with
    | error e => simpa [step, hr] using hp
    | ok r' =>
      have next : H.Placed J r' := by
        cases c with
        | join n vc => exact hp.join hc hr
        | markDrain n => exact hp.markDrain hr
        | remove n => exact hp.remove hr
      simpa [step, hr] using next

section Rebuild

variable {nodes : Map String NodeState} {v : UInt64} {n m : String}

def Carries (nodes : Map String NodeState) (v : UInt64) (n : String) : Prop :=
  ∃ st, nodes.lookup n = some st ∧ st.draining = false ∧ v ∈ st.vnodeHashes

theorem lookup_insertNode_of_carries (h : Carries nodes v n) (ring : Map UInt64 String) :
    (insertNode nodes ring n).lookup v = some n := by
  obtain ⟨st, hst, hd, hv⟩ := h
  have fold := lookup_foldl_insert (fun h => h) (fun _ => n) st.vnodeHashes ring v
  rw [map_id'] at fold
  simp [insertNode, hst, hd, fold, hv]

theorem lookup_insertNode_of_not (h : ¬ Carries nodes v n) (ring : Map UInt64 String) :
    (insertNode nodes ring n).lookup v = ring.lookup v := by
  unfold insertNode
  cases hst : nodes.lookup n with
  | none => rfl
  | some st =>
    cases hd : st.draining with
    | true => simp [hd]
    | false =>
      have out : v ∉ st.vnodeHashes := fun hv => h ⟨st, hst, hd, hv⟩
      have fold := lookup_foldl_insert (fun h => h) (fun _ => n) st.vnodeHashes ring v
      rw [map_id'] at fold
      simp [hd, fold, out]

theorem lookup_foldl_insertNode (one : ∀ n m, Carries nodes v n → Carries nodes v m → n = m)
    (ns : List String) (ring : Map UInt64 String) : (ns.foldl (insertNode nodes) ring).lookup v = some m ↔
      (m ∈ ns ∧ Carries nodes v m) ∨ ((∀ n ∈ ns, ¬ Carries nodes v n) ∧ ring.lookup v = some m) := by
  induction ns generalizing ring with
  | nil => simp
  | cons n ns ih =>
    rw [foldl_cons, ih]
    by_cases hn : Carries nodes v n
    · rw [lookup_insertNode_of_carries hn]
      constructor
      · rintro (⟨mem, hm⟩ | ⟨-, eq⟩)
        · exact Or.inl ⟨mem_cons_of_mem n mem, hm⟩
        · cases eq
          exact Or.inl ⟨mem_cons_self, hn⟩
      · rintro (⟨-, hm⟩ | ⟨none, -⟩)
        · have eq := one n m hn hm
          by_cases later : m ∈ ns
          · exact Or.inl ⟨later, hm⟩
          · refine Or.inr ⟨?_, congrArg some eq⟩
            intro x hx carried
            exact later (one m x hm carried ▸ hx)
        · exact absurd hn (none n mem_cons_self)
    · rw [lookup_insertNode_of_not hn]
      constructor
      · rintro (⟨mem, hm⟩ | ⟨none, eq⟩)
        · exact Or.inl ⟨mem_cons_of_mem n mem, hm⟩
        · exact Or.inr ⟨forall_mem_cons.mpr ⟨hn, none⟩, eq⟩
      · rintro (⟨mem, hm⟩ | ⟨none, eq⟩)
        · rcases mem_cons.mp mem with rfl | mem
          · exact absurd hm hn
          · exact Or.inl ⟨mem, hm⟩
        · exact Or.inr ⟨(forall_mem_cons.mp none).2, eq⟩

theorem Placed.carries_iff (hp : H.Placed J r) : Carries r.nodes v n ↔ H.Vnode r.ready v n := by
  constructor
  · rintro ⟨st, hst, hd, hv⟩
    exact ⟨st.vnodeCount, st.vnodeHashes, ⟨st, hst, hd, rfl⟩, hp.hashes n st hst, hv⟩
  · rintro ⟨c, hs, ⟨st, hst, hd, hc⟩, hhs, hv⟩
    have known := hp.hashes n st hst
    rw [hc, hhs] at known
    cases known
    exact ⟨st, hst, hd, hv⟩

theorem Placed.carries_unique (apart : H.Apart J) (hp : H.Placed J r) (hn : Carries r.nodes v n)
    (hm : Carries r.nodes v m) : n = m := by
  obtain ⟨st, hst, -, hv⟩ := hn
  obtain ⟨st', hst', -, hv'⟩ := hm
  exact apart _ _ _ _ _ _ (hp.joined n st hst) (hp.joined m st' hst') (hp.hashes n st hst)
    (hp.hashes m st' hst') v hv hv'

theorem Placed.lookup_ring (lawful : ListsOnce H.nodeOrder) (apart : H.Apart J)
    (hp : H.Placed J r) : r.ring.lookup v = some n ↔ H.Vnode r.ready v n := by
  rw [hp.ring, rebuildRing, lookup_foldl_insertNode (fun _ _ => hp.carries_unique apart), hp.carries_iff]
  constructor
  · rintro (⟨-, h⟩ | ⟨-, h⟩)
    · exact h
    · simp at h
  · intro h
    obtain ⟨st, hst, -⟩ := hp.carries_iff.mpr h
    have listed : n ∈ H.nodeOrder r.nodes.keys :=
      ((lawful _).2 n).mpr (Finmap.mem_keys.mpr (mem_iff.mpr ⟨st, hst⟩))
    exact Or.inl ⟨listed, h⟩

end Rebuild

theorem ownerOf_eq_label (r : ShardRing) (key : Flat) : H.ownerOf r key = Clockwise.label? r.ring (H.xxh3 key) := by
  unfold ownerOf
  split
  next empty =>
    have nowhere : Clockwise.next? r.ring.keys (H.xxh3 key) = none := by
      cases hn : Clockwise.next? r.ring.keys (H.xxh3 key) with
      | none => rfl
      | some y => simpa [empty] using (Clockwise.isNext_of_next? hn).mem
    simp [Clockwise.label?, nowhere]
  · rfl

section

variable (lawful : ListsOnce H.nodeOrder)
include lawful

variable (apart : H.Apart J)
include apart

variable (hp : H.Placed J r)
include hp

theorem ownerOf_congr
    (hp' : H.Placed J r') (same : r.ready = r'.ready) (key : Flat) : H.ownerOf r key = H.ownerOf r' key := by
  have rings : r.ring = r'.ring := by
    apply ext_lookup
    intro v
    apply Option.ext
    intro n
    rw [hp.lookup_ring lawful apart, hp'.lookup_ring lawful apart, same]
  rw [ownerOf_eq_label, ownerOf_eq_label, rings]

theorem ownerOf_of_subset (hp' : H.Placed J r') (sub : r.ready ⊆ r'.ready) (key : Flat) :
    H.ownerOf r' key = H.ownerOf r key ∨ ∃ n c, H.ownerOf r' key = some n ∧ (n, c) ∈ r'.ready ∧ (n, c) ∉ r.ready := by
  rw [ownerOf_eq_label, ownerOf_eq_label]
  have le : ∀ v n, r.ring.lookup v = some n → r'.ring.lookup v = some n := by
    intro v n hv
    obtain ⟨c, hs, mem, hhs, hin⟩ := (hp.lookup_ring lawful apart).mp hv
    exact (hp'.lookup_ring lawful apart).mpr ⟨c, hs, sub mem, hhs, hin⟩
  rcases Clockwise.label?_of_le le (H.xxh3 key) with same | ⟨v, n, hlabel, hnew, hold⟩
  · exact Or.inl same
  obtain ⟨c, hs, mem, hhs, hin⟩ := (hp'.lookup_ring lawful apart).mp hnew
  refine Or.inr ⟨n, c, hlabel, mem, ?_⟩
  intro before
  have := (hp.lookup_ring lawful apart).mpr ⟨c, hs, before, hhs, hin⟩
  rw [hold] at this
  cases this

theorem ownerOf_join (mem : (nodeId, countFor r vnodeCount) ∈ J) (h : H.join r nodeId vnodeCount = .ok r')
    (key : Flat) : H.ownerOf r' key = H.ownerOf r key ∨ H.ownerOf r' key = some nodeId := by
  have sub : r.ready ⊆ r'.ready := by
    rw [ready_join h]
    exact Set.subset_insert _ _
  rcases ownerOf_of_subset lawful apart hp (hp.join mem h) sub key with same | ⟨n, c, hn, hin, hout⟩
  · exact Or.inl same
  rw [ready_join h] at hin
  rcases hin with eq | before
  · cases eq
    exact Or.inr hn
  · exact absurd before hout

variable (h : H.markDrain r nodeId = .ok r')
include h

theorem ownerOf_markDrain (key : Flat) : H.ownerOf r' key = H.ownerOf r key ∨ H.ownerOf r key = some nodeId := by
  have sub : r'.ready ⊆ r.ready := by
    rw [ready_markDrain h]
    exact Set.sdiff_subset
  rcases ownerOf_of_subset lawful apart (hp.markDrain h) hp sub key with same | ⟨n, c, hn, hin, hout⟩
  · exact Or.inl same.symm
  have gone : n = nodeId := by
    by_contra other
    apply hout
    rw [ready_markDrain h]
    exact ⟨hin, other⟩
  exact Or.inr (gone ▸ hn)

end

/-- In every ring that calls have built a key belongs to a node that does not drain, and to none only if no such node has
a vnode. -/
theorem owner_ready (lawful : ListsOnce H.nodeOrder) (apart : H.Apart J) (built : H.Built J r) (key : Flat) :
    (∀ n, H.ownerOf r key = some n → ∃ c, (n, c) ∈ r.ready) ∧
      (H.ownerOf r key = none ↔ ∀ v n, ¬H.Vnode r.ready v n) := by
  have ring (v : UInt64) (n : String) := (built.placed lawful).lookup_ring (v := v) (n := n) lawful apart
  rw [ownerOf_eq_label, Clockwise.label?]
  refine ⟨fun n owned => ?_, fun none v n has => ?_, fun empty => ?_⟩
  · obtain ⟨v, -, here⟩ := Option.bind_eq_some_iff.mp owned
    obtain ⟨c, hs, mem, -⟩ := (ring v n).mp here
    exact ⟨c, mem⟩
  · have listed : v ∈ r.ring.keys := Finmap.mem_keys.mpr (mem_iff.mpr ⟨n, (ring v n).mpr has⟩)
    cases next : Clockwise.next? r.ring.keys (H.xxh3 key) with
    | none => simp [Clockwise.next?_eq_none next] at listed
    | some w =>
      obtain ⟨m, here⟩ := mem_iff.mp (Finmap.mem_keys.mp (Clockwise.isNext_of_next? next).mem)
      simp [next, here] at none
  · refine Option.bind_eq_none_iff.mpr fun w _ => Option.eq_none_iff_forall_ne_some.mpr fun n here => ?_
    exact empty w n ((ring w n).mp here)

theorem join_markDrain_remove (h : H.join r nodeId vnodeCount = .ok r') :
    ∃ drained removed, H.markDrain r' nodeId = .ok drained ∧ H.remove drained nodeId = .ok removed ∧
      removed.ready = r.ready := by
  obtain ⟨absent, hs, -, eq⟩ := join_eq_ok h
  have joined : r'.nodes.lookup nodeId = some ⟨countFor r vnodeCount, false, hs⟩ := by
    rw [eq]
    simp [regenerate, rebuildRing]
  obtain ⟨drained, hdrain⟩ : ∃ drained, H.markDrain r' nodeId = .ok drained := by
    simp [markDrain, joined]
  obtain ⟨st, hst, -, eqd⟩ := markDrain_eq_ok hdrain
  have draining : drained.nodes.lookup nodeId = some { st with draining := true } := by
    rw [eqd]
    simp [regenerate, rebuildRing]
  obtain ⟨removed, hremove⟩ : ∃ removed, H.remove drained nodeId = .ok removed := by
    simp [remove, draining]
  refine ⟨drained, removed, hdrain, hremove, ?_⟩
  rw [ready_remove hremove, ready_markDrain hdrain, ready_join h]
  ext ⟨n, c⟩
  constructor
  · rintro ⟨mem, other⟩
    rcases mem with eq | mem
    · cases eq
      exact absurd rfl other
    · exact mem
  · intro mem
    refine ⟨Or.inr mem, ?_⟩
    rintro rfl
    obtain ⟨st, hst, -⟩ := mem
    rw [absent] at hst
    cases hst

end ShardHash

end LakeKv
