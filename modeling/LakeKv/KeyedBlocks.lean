import LakeKv.PoolInvariants

namespace LakeKv

open Finmap List NamespaceKey PoolView

variable {B : Backend}

def chainAt (prefixHashes : List Flat) (h : Flat) : List Flat :=
  prefixHashes.take ((lastIndexOf h prefixHashes).getD 0 + 1)

/-- Two versions of one block: only its locations and its L3 flag may differ. -/
structure Entry.SameBlock (e e' : Entry B) : Prop where
  seqHash : e'.seqHash = e.seqHash
  blockId : e'.blockId = e.blockId
  prefixChain : e'.prefixChain = e.prefixChain
  id : e'.blockMeta.id = e.blockMeta.id

namespace Entry.SameBlock

theorem refl (e : Entry B) : e.SameBlock e :=
  ⟨rfl, rfl, rfl, rfl⟩

theorem trans {e e' e'' : Entry B} (h : e.SameBlock e') (h' : e'.SameBlock e'') : e.SameBlock e'' :=
  ⟨h'.1.trans h.1, h'.2.trans h.2, h'.3.trans h.3, h'.4.trans h.4⟩

end Entry.SameBlock

namespace PoolView

def Shrinks (p q : PoolView B) : Prop :=
  ∀ flat e', q.byFlat.lookup flat = some e' → ∃ e, p.byFlat.lookup flat = some e ∧ e.SameBlock e'

namespace Shrinks

variable {p q r : PoolView B}

theorem of_eq (h : q.byFlat = p.byFlat) : p.Shrinks q := by
  intro flat e' he'
  exact ⟨e', h ▸ he', .refl _⟩

theorem trans (h : p.Shrinks q) (h' : q.Shrinks r) : p.Shrinks r := by
  intro flat e'' he''
  obtain ⟨e', he', hs'⟩ := h' flat e'' he''
  obtain ⟨e, he, hs⟩ := h flat e' he'
  exact ⟨e, he, hs.trans hs'⟩

theorem of_erase (flat : Flat) (h : q.byFlat = p.byFlat.erase flat) : p.Shrinks q := by
  intro f e' he'
  rw [h, lookup_erase_if] at he'
  split at he'
  · simp at he'
  · exact ⟨e', he', .refl _⟩

theorem of_insert {flat : Flat} {e e' : Entry B} (he : p.byFlat.lookup flat = some e)
    (h : q.byFlat = p.byFlat.insert flat e') (hs : e.SameBlock e') : p.Shrinks q := by
  intro f x hx
  rw [h, lookup_insert_if] at hx
  split at hx
  next hf =>
    cases hx
    exact ⟨e, hf ▸ he, hs⟩
  · exact ⟨x, hx, .refl _⟩

end Shrinks

variable (p : PoolView B) (seq : B.Seq) (o : Option Marker)

theorem dropVictim_shrinks : p.Shrinks (p.dropVictim seq).1 := by
  unfold dropVictim
  split
  · exact .of_eq rfl
  dsimp only
  split
  · exact .of_eq rfl
  next flat _ => exact .of_erase flat rfl

theorem elim_markPresent_byFlat :
    (o.elim p (p.markPresent seq)).byFlat = p.byFlat := by
  cases o <;> simp

theorem elim_markAbsent_byFlat :
    (o.elim p (p.markAbsent seq)).byFlat = p.byFlat := by
  cases o <;> simp

def publishedLocations (tier : Tier) (node : String) (seg off : Nat) (present : Bool)
    (ls : List Location) : List Location :=
  if present && !hasTierOn ls tier node then ls ++ [⟨tier.toWire, node, seg, off⟩]
  else if present then refreshFirst tier.toWire node seg off ls
  else if hasTierOn ls tier node then ls.filter fun l => ¬(l.tier = tier.toWire ∧ l.nodeId = node)
  else ls

theorem publish_byFlat {p : PoolView B} {flat : Flat} {e : Entry B} (tier : Tier) (node : String)
    (seg off : Nat) (present : Bool) (he : p.byFlat.lookup flat = some e) :
    (p.publish flat e tier node seg off present).byFlat = p.byFlat.insert flat { e with blockMeta := { e.blockMeta with
          locations := publishedLocations tier node seg off present e.blockMeta.locations } } := by
  unfold publish publishedLocations
  dsimp only
  split
  · exact elim_markPresent_byFlat _ _ _
  split
  · rfl
  split
  · split <;> exact elim_markAbsent_byFlat _ _ _
  · exact (insert_of_lookup he).symm

def relocatedLocations (tier : Tier) (node : String) (seg off : Nat) (ls : List Location) : List Location :=
  if hasTierOn ls tier node then refreshFirst tier.toWire node seg off ls
  else ls ++ [⟨tier.toWire, node, seg, off⟩]

theorem relocate_byFlat (flat : Flat) (e : Entry B) (tier : Tier) (node : String) (seg off : Nat) :
    (p.relocate flat e tier node seg off).byFlat = p.byFlat.insert flat { e with blockMeta := { e.blockMeta with
          locations := relocatedLocations tier node seg off e.blockMeta.locations } } := by
  unfold relocate relocatedLocations
  dsimp only
  split
  · rfl
  split
  · exact markPresent_byFlat _ _ _
  · rfl

theorem stripFlat_shrinks (key : NamespaceKey) (pk : Int) (node : String) (flat : Flat) :
    p.Shrinks (stripFlat key pk node p flat).1 := by
  unfold stripFlat
  split
  · exact .of_eq rfl
  next e he =>
    split
    · exact .of_eq rfl
    · exact .of_insert he (markAbsent_byFlat _ _ _) ⟨rfl, rfl, rfl, rfl⟩

theorem shrinks_apply (hB : B.Lawful) {p : PoolView B} {act : PoolAction B} (guard : act.Guard p)
    (h : ∀ b, act ≠ .register b) : p.Shrinks (act.apply p) := by
  cases act with
  | evict n =>
    exact dropInactiveVictims_induct hB (.of_eq rfl) fun q seq _ hq => hq.trans (q.dropVictim_shrinks seq)
  | register b => exact absurd rfl (h b)
  | discard flat e => exact .of_erase flat rfl
  | gcCold key pk n =>
    refine gcCold_induct hB key pk (.of_eq rfl) ?_ ?_ ?_
    · intro q v flat e _ hq _ he
      exact hq.trans (.of_insert he (q.peel_byFlat flat v.1 e) ⟨rfl, rfl, rfl, rfl⟩)
    · intro q seq flat e hq _ _ _ _
      exact hq.trans (.of_erase flat rfl)
    · intro q v flat e _ hq _ _
      exact hq.trans (.of_eq (q.reinsertCold_frame v).2)
  | setRef flat e kind value =>
    refine .of_eq ?_
    rw [PoolAction.apply, setRef_eq]
  | touchRefs flat e => exact .of_eq rfl
  | strip key pk node flat => exact p.stripFlat_shrinks key pk node flat
  | clearMarks node => exact .of_eq rfl
  | publish flat e tier node seg off present =>
    exact .of_insert guard.1 (publish_byFlat tier node seg off present guard.1) ⟨rfl, rfl, rfl, rfl⟩
  | setL3 flat e present => exact .of_insert guard rfl ⟨rfl, rfl, rfl, rfl⟩
  | relocate flat e tier node seg off =>
    exact .of_insert guard (p.relocate_byFlat flat e tier node seg off) ⟨rfl, rfl, rfl, rfl⟩
  | touchHits | markPlaced | recordHit => exact .of_eq rfl

end PoolView

/-- A stored block has the identity it is filed under, its pool is of a supported kind, and its lineage
hash is that of the chain it was registered with, which ends in it. -/
structure Entry.Keyed (key : NamespaceKey) (pk : Int) (flat : Flat) (e : Entry B) : Prop where
  id : ∃ id, e.blockMeta.id = some id ∧ NamespaceKey.fromId id = key ∧ id.poolKind = pk ∧
    id.blockHash = flat
  kind : pk = poolTarget ∨ pk = poolDraft
  chain : e.prefixChain.getLast? = some flat
  lineage : B.lineageOf e.prefixChain = some e.seqHash

variable {key : NamespaceKey} {pk : Int}

theorem Entry.Keyed.of_sameBlock {flat : Flat} {e e' : Entry B}
    (h : e.Keyed key pk flat) (hs : e.SameBlock e') : e'.Keyed key pk flat where
  id := hs.id ▸ h.id
  kind := h.kind
  chain := hs.prefixChain ▸ h.chain
  lineage := by
    rw [hs.prefixChain, hs.seqHash]
    exact h.lineage

variable {chain : List Flat} {b : PlacedBlock B}

theorem placeBlock_eq_some {nodeId : String} {m : BlockMeta} (h : placeBlock B nodeId pk chain m = some b) :
    ∃ id, m.id = some id ∧ b.id = { id with poolKind := pk } ∧ b.chain = chainAt chain id.blockHash ∧
      b.chain.getLast? = some id.blockHash ∧ B.lineageOf b.chain = some b.seq ∧
      b.blockMeta = { m with id := some b.id, locations := m.locations.map (fillNode nodeId) } := by
  simp only [placeBlock, Option.bind_eq_bind, Option.bind_eq_some_iff, Option.pure_def, Option.some.injEq] at h
  obtain ⟨id, hid, pos, hpos, seq, hseq, rfl⟩ := h
  refine ⟨id, hid, rfl, ?_, lastIndexOf_take_getLast? hpos, ?_, rfl⟩
  · simp [chainAt, hpos]
  · rw [← Backend.lineageFromPrefix_getElem? (lastIndexOf_lt hpos)]
    exact hseq

variable {op : Op}

theorem may_registerAll {placed : List (PlacedBlock B)} (h : op.May key (.registerAll pk placed)) :
    ∃ node chain metas, checkBatch chain metas = .ok (key, pk) ∧ placed = metas.filterMap (placeBlock B node pk chain) ∧
      (op = .register node chain metas ∨ ∃ snap cb row, op = .importSnapshot snap ∧ cb ∈ snap.blocks ∧
        importRow cb = .ok (some row) ∧ node = row.nodeId ∧ chain = row.chain ∧ metas = [row.blockMeta]) := by
  cases h with
  | insert hcheck => exact ⟨_, _, _, hcheck, rfl, .inl rfl⟩
  | importRow hmem hrow h =>
    cases h with
    | insert hcheck => exact ⟨_, _, _, hcheck, rfl, .inr ⟨_, _, _, rfl, hmem, hrow, rfl, rfl, rfl⟩⟩
  | importModel hmem h | clearRef ds h => cases h
  | orphansDead h => cases h with | clearRef ds h => cases h
  | orphansGc h => cases h

theorem may_create {desc : ModelDescriptor} (h : op.May (B := B) key (.create desc)) :
    op = .registerModel desc ∨ ∃ snap, op = .importSnapshot snap ∧ desc ∈ snap.models := by
  cases h with
  | create => exact .inl rfl
  | importModel hmem h => cases h with | create => exact .inr ⟨_, rfl, hmem⟩
  | importRow _ _ h | clearRef _ h => cases h
  | orphansDead h => cases h with | clearRef _ h => cases h
  | orphansGc h => cases h

theorem mapM_ok_of_mem {α β ε : Type} {f : α → Except ε β} {xs : List α} {ys : List β}
    (h : xs.mapM f = .ok ys) {x : α} (hx : x ∈ xs) : ∃ y, f x = .ok y := by
  induction xs generalizing ys with
  | nil => simp at hx
  | cons z zs ih =>
    rw [mapM_cons] at h
    obtain ⟨y, hz, h⟩ := bind_eq_ok h
    obtain ⟨ws, hzs, -⟩ := bind_eq_ok h
    rcases mem_cons.mp hx with rfl | hx
    · exact ⟨y, hz⟩
    · exact ih hzs hx

variable {id : KvBlockId}

theorem checkBlock_eq_ok {pos : Nat} (h : checkBlock key pk chain id = .ok pos) :
    fromId id = key ∧ resolvePoolKind id.poolKind = .ok pk ∧ lastIndexOf id.blockHash chain = some pos := by
  unfold checkBlock at h
  split at h
  · simp at h
  next hm =>
    split at h
    · simp at h
    next hr =>
      split at h
      · simp at h
      next pk' hpk =>
        split at h
        · simp at h
        next he =>
          split at h
          · simp at h
          next pos' hpos =>
            cases Except.ok.inj h
            refine ⟨?_, ?_, hpos⟩
            · rw [fromId, not_ne_iff.mp hm, not_ne_iff.mp hr]
            · rw [hpk, not_ne_iff.mp he]

variable {metas : List BlockMeta} {node : String} {raw : Int}

theorem checkBatch_eq_ok (h : checkBatch chain metas = .ok (key, pk)) (hid : id ∈ batchIds metas) :
    fromId id = key ∧ resolvePoolKind id.poolKind = .ok pk ∧ ∃ pos, lastIndexOf id.blockHash chain = some pos := by
  unfold checkBatch at h
  split at h
  · simp at h
  next id₀ ids hids =>
    split at h
    · simp at h
    next pk₀ hpk =>
      split at h
      · simp at h
      split at h
      · simp at h
      next positions hpos =>
        split at h
        · cases Except.ok.inj h
          obtain ⟨pos, hblock⟩ := mapM_ok_of_mem hpos (hids ▸ hid)
          obtain ⟨hkey, hkind, hlast⟩ := checkBlock_eq_ok hblock
          exact ⟨hkey, hkind, pos, hlast⟩
        · simp at h

structure PlacedBlock.Fits (b : PlacedBlock B) (key : NamespaceKey) (pk : Int) : Prop where
  ns : NamespaceKey.fromId b.id = key
  kind : b.id.poolKind = pk
  resolved : pk = poolTarget ∨ pk = poolDraft
  stored : b.blockMeta.id = some b.id
  last : b.chain.getLast? = some b.id.blockHash
  lineage : B.lineageOf b.chain = some b.seq

theorem resolvePoolKind_eq_ok (h : resolvePoolKind raw = .ok pk) :
    (raw = 0 ∧ pk = poolTarget) ∨ (raw = pk ∧ (pk = poolTarget ∨ pk = poolDraft)) := by
  unfold resolvePoolKind at h
  split at h
  next h0 => exact .inl ⟨h0, (Except.ok.inj h).symm⟩
  split at h
  next hk =>
    cases Except.ok.inj h
    exact .inr ⟨rfl, hk⟩
  · simp at h

theorem resolvePoolKind_range (h : resolvePoolKind raw = .ok pk) : pk = poolTarget ∨ pk = poolDraft := by
  rcases resolvePoolKind_eq_ok h with ⟨-, h⟩ | ⟨-, h⟩
  · exact .inl h
  · exact h

theorem BlockKey.fromId_of_resolve (h : resolvePoolKind id.poolKind = .ok pk) :
    BlockKey.fromId id = ⟨id.modelId, id.revision, pk, id.blockHash⟩ := by
  rcases resolvePoolKind_eq_ok h with ⟨h0, rfl⟩ | ⟨heq, hk⟩
  · simp [BlockKey.fromId, h0]
  · have hne : pk ≠ 0 := by rcases hk with rfl | rfl <;> decide
    simp [BlockKey.fromId, hne, heq]

section

variable (hcheck : checkBatch chain metas = .ok (key, pk))
include hcheck

theorem placed_fits (hb : b ∈ metas.filterMap (placeBlock B node pk chain)) : b.Fits key pk := by
  obtain ⟨m, hm, hplace⟩ := mem_filterMap.mp hb
  obtain ⟨id, hid, hbid, -, hlast, hline, hmeta⟩ := placeBlock_eq_some hplace
  obtain ⟨hkey, hkind, -⟩ := checkBatch_eq_ok hcheck (mem_filterMap.mpr ⟨m, hm, hid⟩)
  exact
    { ns := by rw [← hkey, hbid]; rfl
      kind := by rw [hbid]
      resolved := resolvePoolKind_range hkind
      stored := by rw [hmeta]
      last := by rw [hlast, hbid]
      lineage := hline }

theorem placed_hashes : (metas.filterMap (placeBlock B node pk chain)).map (fun b => b.id.blockHash) =
      (batchIds metas).map KvBlockId.blockHash := by
  have hplace : ∀ m ∈ metas, (placeBlock B node pk chain m).map (fun b => b.id.blockHash) =
      m.id.map KvBlockId.blockHash := by
    intro m hm
    cases hid : m.id with
    | none => simp [placeBlock, hid]
    | some id =>
      have hmem : id ∈ batchIds metas := mem_filterMap.mpr ⟨m, hm, hid⟩
      obtain ⟨-, -, pos, hpos⟩ := checkBatch_eq_ok hcheck hmem
      have hlt : pos < (B.lineageFromPrefix chain).length := by
        rw [Backend.lineageFromPrefix_length]
        exact lastIndexOf_lt hpos
      simp [placeBlock, hid, hpos, getElem?_eq_getElem hlt]
  rw [batchIds, map_filterMap, map_filterMap]
  exact filterMap_congr hplace

end

theorem poolMay_register_fits (h : PoolMay op.May key pk (.register b)) : b.Fits key pk := by
  obtain ⟨placed, hmay, hb⟩ := h
  obtain ⟨node, chain, metas, hcheck, rfl, -⟩ := may_registerAll hmay
  exact placed_fits hcheck hb

namespace Authority

variable {a : Authority B}

theorem registerPlaced_keyed {p : PoolView B}
    (hfit : b.Fits key pk) (h : ∀ flat e, p.byFlat.lookup flat = some e → e.Keyed key pk flat) :
    ∀ flat e, (p.registerPlaced b).byFlat.lookup flat = some e → e.Keyed key pk flat := by
  intro flat e he
  rw [registerPlaced, registerBlock, lookup_insert_if] at he
  split at he
  next hf =>
    cases he
    subst hf
    exact ⟨⟨b.id, hfit.stored, hfit.ns, hfit.kind, rfl⟩, hfit.resolved, hfit.last, hfit.lineage⟩
  · exact h flat e he

variable {op : Op}

theorem keyed_apply (hB : B.Lawful) {p : PoolView B}
    {act : PoolAction B} (hmay : PoolMay op.May key pk act) (guard : act.Guard p)
    (h : ∀ flat e, p.byFlat.lookup flat = some e → e.Keyed key pk flat) :
    ∀ flat e, (act.apply p).byFlat.lookup flat = some e → e.Keyed key pk flat := by
  by_cases hreg : ∃ b, act = .register b
  · obtain ⟨b, rfl⟩ := hreg
    exact registerPlaced_keyed (poolMay_register_fits hmay) h
  · intro flat e' he'
    obtain ⟨e, he, hs⟩ := shrinks_apply hB guard (fun b hb => hreg ⟨b, hb⟩) flat e' he'
    exact (h flat e he).of_sameBlock hs

def Keyed (a : Authority B) : Prop :=
  ∀ key pk p, a.pool? key pk = some p → ∀ flat e, p.byFlat.lookup flat = some e → e.Keyed key pk flat

variable (hB : B.Lawful)
include hB

theorem Run.keyed {b : Authority B} (h : Run op.May a b) (base : a.Keyed) : b.Keyed := by
  refine h.pools (I := fun key pk p => ∀ flat e, p.byFlat.lookup flat = some e → e.Keyed key pk flat)
    ?_ (fun key pk p act => keyed_apply hB) base
  intro key pk cap flat e he
  simp [PoolView.new] at he

theorem step_keyed (h : a.Keyed) : (a.step op).Keyed := by
  refine step_pools (I := fun key pk p => ∀ flat e, p.byFlat.lookup flat = some e → e.Keyed key pk flat)
    ?_ (fun key pk p act => keyed_apply hB) h
  intro key pk cap flat e he
  simp [PoolView.new] at he

theorem Reachable.keyed (h : Reachable a) : a.Keyed := by
  refine Reach.invariant (I := Keyed) ?_ (fun s op hI _ => step_keyed hB hI) h
  intro s hs key pk p hp
  simp [initial_pool? hs] at hp

end Authority

end LakeKv
