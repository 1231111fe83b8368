import LakeKv.LineageIndex

namespace LakeKv

open Finmap Option PoolView RefAccounts Saturating

abbrev NodeRows := Map String (Map BlockKey RefAccounts)

def owed (rows : NodeRows) (k : BlockKey) (kind : RefKind) : Int :=
  rows.total fun held => ((held.lookup k).getD .zero).bucket kind

structure RowOk (k : BlockKey) (r : RefAccounts) : Prop where
  request : 0 ≤ r.request
  writeback : 0 ≤ r.writeback
  total : 0 < r.total
  kind : resolvePoolKind k.poolKind = .ok k.poolKind

def RowsOk (rows : NodeRows) : Prop :=
  ∀ n held k r, rows.lookup n = some held → held.lookup k = some r → RowOk k r

def credit (o : BlockKey → RefKind → Int) (k : BlockKey) (kind : RefKind) (delta : Int) :
    BlockKey → RefKind → Int :=
  fun k' kind' => if k' = k ∧ kind' = kind then o k' kind' + delta else o k' kind'

@[simp] theorem bucket_zero (kind : RefKind) : zero.bucket kind = 0 := by
  cases kind <;> rfl

theorem bucket_setBucket {kind : RefKind} (hk : kind = .request ∨ kind = .writeback) (r : RefAccounts)
    (value : Int) (kind' : RefKind) :
    (r.setBucket kind value).bucket kind' = if kind' = kind then value else r.bucket kind' := by
  rcases hk with rfl | rfl <;> cases kind' <;> rfl

variable {r : RefAccounts}

theorem bucket_nonneg (hr : 0 ≤ r.request) (hw : 0 ≤ r.writeback) (kind : RefKind) : 0 ≤ r.bucket kind := by
  cases kind <;> simp [bucket, hr, hw]

theorem bucket_of_total_nonpos (hr : 0 ≤ r.request) (hw : 0 ≤ r.writeback)
    (ht : r.total ≤ 0) (kind : RefKind) : r.bucket kind = 0 := by
  unfold RefAccounts.total at ht
  cases kind <;> simp only [RefAccounts.bucket] <;> omega

section Rows

variable {rows : NodeRows} {k : BlockKey} {kind : RefKind} {held : Map BlockKey RefAccounts}

section

variable (h : RowsOk rows)
include h

theorem RowsOk.held_nonneg {n : String} (hn : rows.lookup n = some held) (k : BlockKey) (kind : RefKind) :
    0 ≤ ((held.lookup k).getD .zero).bucket kind := by
  cases hr : held.lookup k with
  | none => simp
  | some r =>
    have hrow := h n held k r hn hr
    exact bucket_nonneg hrow.request hrow.writeback kind

theorem RowsOk.owed_nonneg (k : BlockKey) (kind : RefKind) : 0 ≤ owed rows k kind :=
  total_nonneg fun _ _ hn => h.held_nonneg hn k kind

theorem RowsOk.bucket_le_owed {n : String} (hn : rows.lookup n = some held) (k : BlockKey) (kind : RefKind) :
    ((held.lookup k).getD .zero).bucket kind ≤ owed rows k kind :=
  Finmap.le_total (f := fun held => ((held.lookup k).getD .zero).bucket kind) (fun _ _ hm => h.held_nonneg hm k kind) hn

theorem RowsOk.owed_pos {n : String} {r : RefAccounts} (hn : rows.lookup n = some held) (hr : held.lookup k = some r) :
    0 < owed rows k .request ∨ 0 < owed rows k .writeback := by
  have hrow := h n held k r hn hr
  have hreq := h.bucket_le_owed hn k .request
  have hwb := h.bucket_le_owed hn k .writeback
  have ht := hrow.total
  simp only [hr, getD_some, RefAccounts.bucket] at hreq hwb
  unfold RefAccounts.total at ht
  omega

theorem RowsOk.erase (n : String) : RowsOk (rows.erase n) := by
  intro n' held k r hn hr
  rw [lookup_erase_if] at hn
  split at hn
  · simp at hn
  · exact h n' held k r hn hr

end

theorem owed_empty (k : BlockKey) (kind : RefKind) : owed ∅ k kind = 0 :=
  total_empty _

theorem owed_erase (rows : NodeRows) (n : String) (k : BlockKey) (kind : RefKind) : owed rows k kind =
      owed (rows.erase n) k kind + ((((rows.lookup n).getD ∅).lookup k).getD .zero).bucket kind := by
  cases hn : rows.lookup n with
  | none =>
    have hsame : rows.erase n = rows := by
      apply ext_lookup
      intro x
      rw [lookup_erase_if]
      split
      next hx => rw [hx, hn]
      · rfl
    simp [hsame]
  | some held =>
    have hsplit := total_erase (f := fun held : Map BlockKey RefAccounts =>
      ((held.lookup k).getD .zero).bucket kind) hn
    simp only [owed, getD_some]
    omega

theorem owed_insert (rows : NodeRows) (n : String) (held : Map BlockKey RefAccounts) (k : BlockKey) (kind : RefKind) :
    owed (rows.insert n held) k kind = owed (rows.erase n) k kind + ((held.lookup k).getD .zero).bucket kind := by
  have herase : (rows.insert n held).erase n = rows.erase n := by
    apply ext_lookup
    intro x
    rw [lookup_erase_if, lookup_erase_if, lookup_insert_if]
    split <;> rfl
  rw [owed_erase _ n, herase, lookup_insert]
  rfl

theorem RowsOk.dropRows (h : RowsOk rows) (hzero : ∀ kind, owed rows k kind = 0) :
    rows.mapVal (fun _ (held : Map BlockKey RefAccounts) => held.erase k) = rows := by
  apply ext_lookup
  intro n
  rw [lookup_mapVal]
  cases hn : rows.lookup n with
  | none => rfl
  | some held =>
    have habsent : held.lookup k = none := by
      cases hr : held.lookup k with
      | none => rfl
      | some r =>
        have hpos := h.owed_pos hn hr
        have hreq := hzero .request
        have hwb := hzero .writeback
        omega
    have hsame : held.erase k = held := by
      apply ext_lookup
      intro x
      rw [lookup_erase_if]
      split
      next hx => rw [hx, habsent]
      · rfl
    simp [hsame]

end Rows

namespace Authority

variable {B : Backend} {a : Authority B}

theorem nodeRow_nonneg (h : RowsOk a.nodeRefs) (n : String) (k : BlockKey) :
    0 ≤ (a.nodeRow n k).request ∧ 0 ≤ (a.nodeRow n k).writeback := by
  unfold nodeRow
  cases hn : a.nodeRefs.lookup n with
  | none => simp [zero]
  | some held =>
    cases hr : held.lookup k with
    | none => simp [hr, zero]
    | some r =>
      have hrow := h n held k r hn hr
      simpa [hr] using ⟨hrow.request, hrow.writeback⟩

theorem nodeRow_eq (a : Authority B) (n : String) (k : BlockKey) :
    a.nodeRow n k = ((((a.nodeRefs.lookup n).getD ∅).lookup k)).getD .zero := by
  unfold nodeRow
  cases a.nodeRefs.lookup n <;> rfl

theorem addNodeRef_row {n : String} {k : BlockKey} {kind : RefKind} {delta after : Int}
    (hafter : bucketAfter (a.nodeRow n k) kind delta = .ok after) :
    satAdd ((a.nodeRow n k).bucket kind) delta = after := by
  unfold bucketAfter at hafter
  split at hafter
  · simp at hafter
  next x hx =>
    split at hafter
    · simp at hafter
    next hpos =>
      cases Except.ok.inj hafter
      unfold checkedAdd at hx
      split at hx
      next hrange =>
        cases hx
        exact clamp_of_le (by omega) hrange.2
      · simp at hx

variable {n : String} {k : BlockKey} {kind : RefKind} {delta after : Int}

theorem addNodeRef_nodeRefs (hafter : bucketAfter (a.nodeRow n k) kind delta = .ok after) :
    (a.addNodeRef n k kind delta).nodeRefs = a.nodeRefs.insert n
      (if ((a.nodeRow n k).setBucket kind after).total ≤ 0 then ((a.nodeRefs.lookup n).getD ∅).erase k
        else ((a.nodeRefs.lookup n).getD ∅).insert k ((a.nodeRow n k).setBucket kind after)) := by
  have hrow := addNodeRef_row hafter
  unfold addNodeRef
  dsimp only
  rw [← nodeRow_eq, hrow]

theorem owed_addNodeRef (h : RowsOk a.nodeRefs) (hk : kind = .request ∨ kind = .writeback)
    (hafter : bucketAfter (a.nodeRow n k) kind delta = .ok after) :
    owed (a.addNodeRef n k kind delta).nodeRefs = credit (owed a.nodeRefs) k kind delta := by
  obtain ⟨heq, hpos⟩ := bucketAfter_eq_ok hafter
  have hnew := bucket_setBucket_nonneg kind (nodeRow_nonneg h n k) hpos
  funext k' kind'
  rw [addNodeRef_nodeRefs hafter, owed_insert, credit, owed_erase a.nodeRefs n]
  -- The share of the other nodes is the same on both sides; only the row of `k` moves.
  have hshare : (((if ((a.nodeRow n k).setBucket kind after).total ≤ 0 then ((a.nodeRefs.lookup n).getD ∅).erase k
        else ((a.nodeRefs.lookup n).getD ∅).insert k ((a.nodeRow n k).setBucket kind after)).lookup k').getD
          .zero).bucket kind' =
      if k' = k then ((a.nodeRow n k).setBucket kind after).bucket kind'
      else ((((a.nodeRefs.lookup n).getD ∅).lookup k').getD .zero).bucket kind' := by
    split
    next hgone =>
      rw [lookup_erase_if]
      split
      · exact (bucket_zero kind').trans (bucket_of_total_nonpos hnew.1 hnew.2 hgone kind').symm
      · rfl
    rw [lookup_insert_if]
    split <;> rfl
  rw [hshare]
  by_cases hkk : k' = k
  · subst hkk
    rw [if_pos rfl, bucket_setBucket hk, ← nodeRow_eq]
    by_cases hkind : kind' = kind
    · subst hkind
      rw [if_pos rfl, if_pos ⟨rfl, rfl⟩]
      omega
    · rw [if_neg hkind, if_neg fun hc => hkind hc.2]
  · rw [if_neg hkk, if_neg fun hc => hkk hc.1]

theorem rowsOk_addNodeRef (h : RowsOk a.nodeRefs) (hkey : resolvePoolKind k.poolKind = .ok k.poolKind)
    (hafter : bucketAfter (a.nodeRow n k) kind delta = .ok after) :
    RowsOk (a.addNodeRef n k kind delta).nodeRefs := by
  obtain ⟨-, hpos⟩ := bucketAfter_eq_ok hafter
  have hnew := bucket_setBucket_nonneg kind (nodeRow_nonneg h n k) hpos
  have hold : ∀ k' r, ((a.nodeRefs.lookup n).getD ∅).lookup k' = some r → RowOk k' r := by
    intro k' r hr
    cases hn : a.nodeRefs.lookup n with
    | none => simp [hn] at hr
    | some held => exact h n held k' r hn (by simpa [hn] using hr)
  intro n' held' k' r hn' hr
  rw [addNodeRef_nodeRefs hafter, lookup_insert_if] at hn'
  split at hn'
  · cases hn'
    split at hr
    · rw [lookup_erase_if] at hr
      split at hr
      · simp at hr
      · exact hold k' r hr
    next hleft =>
      rw [lookup_insert_if] at hr
      split at hr
      next hkk =>
        cases hr
        subst hkk
        exact ⟨hnew.1, hnew.2, by omega, hkey⟩
      · exact hold k' r hr
  · exact h n' held' k' r hn' hr

end Authority

variable {B : Backend}

def NsAction.keepsRefs : NsAction B → Bool
  | .pool _ (.setRef _ _ _ _) => false
  | .remove => false
  | .ledger => false
  | _ => true

/-- Every block of a pool is booked what `o` says it is owed. When the pool is one of those that `o`
is about, every block that is owed something is there. -/
structure PoolView.Balanced (o : BlockKey → RefKind → Int) (there : Prop) (key : NamespaceKey) (pk : Int)
    (p : PoolView B) : Prop where
  booked : ∀ f e, p.byFlat.lookup f = some e → ∀ kind,
    (p.refsOf e.seqHash).bucket kind = o ⟨key.modelId, key.revision, pk, f⟩ kind
  held : there → ∀ f kind, o ⟨key.modelId, key.revision, pk, f⟩ kind ≠ 0 → f ∈ p.byFlat

namespace PoolView

variable {o : BlockKey → RefKind → Int} {there : Prop} {key : NamespaceKey} {pk : Int} {p q : PoolView B}

theorem Balanced.of_sameIndex (h : p.Balanced o there key pk) (hs : p.SameIndex q) : q.Balanced o there key pk where
  booked := by
    intro f e' he' kind
    obtain ⟨e, he, hsame⟩ := hs.back f e' he'
    rw [hs.refs, hsame.seqHash]
    exact h.booked f e he kind
  held := by
    intro hthere f kind hne
    obtain ⟨e, he⟩ := mem_iff.mp (h.held hthere f kind hne)
    obtain ⟨e', he', -⟩ := hs.forth f e he
    exact mem_of_lookup_eq_some he'

theorem Balanced.of_without (hok : p.IndexOk) (h : p.Balanced o there key pk) {seq : B.Seq} {flat : Flat}
    (hf : p.seqToFlat.lookup seq = some flat) (hfree : (p.refsOf seq).total ≤ 0)
    (hw : p.Without q seq flat) : q.Balanced o there key pk := by
  obtain ⟨e₀, he₀, hseq₀⟩ := hok.owned seq flat hf
  have hzero : ∀ kind, o ⟨key.modelId, key.revision, pk, flat⟩ kind = 0 := by
    intro kind
    obtain ⟨hr, hwb⟩ := hok.nonneg seq
    rw [← h.booked flat e₀ he₀ kind, hseq₀]
    exact bucket_of_total_nonpos hr hwb hfree kind
  constructor
  · intro f e he kind
    rw [hw.byFlat, lookup_erase_if] at he
    split at he
    · simp at he
    next hne =>
      have hother : e.seqHash ≠ seq := by
        intro heq
        have hfiled := (hok.filed f e he).1
        rw [heq] at hfiled
        exact hne (some.inj (hfiled.symm.trans hf))
      rw [hw.refsOf, if_neg hother]
      exact h.booked f e he kind
  · intro hthere f kind hne
    rw [hw.byFlat, mem_erase]
    refine ⟨?_, h.held hthere f kind hne⟩
    rintro rfl
    exact hne (hzero kind)

theorem Balanced.dropVictim (hok : p.IndexOk) (h : p.Balanced o there key pk) {seq : B.Seq}
    (hout : seq ∉ B.nodes p.inactive) : (p.dropVictim seq).1.Balanced o there key pk := by
  have hnodes : ∀ s b, (B.nodes p.inactive).lookup s = some b → s ≠ seq ∧ (B.nodes p.inactive).lookup s = some b :=
    fun s b hb => ⟨ne_of_mem_of_not_mem (mem_of_lookup_eq_some hb) hout, hb⟩
  unfold PoolView.dropVictim
  split
  · exact h
  next hrefs =>
    dsimp only
    split
    next hnone =>
      -- The lineage hash of no block: its account is nobody's.
      refine ⟨fun f e he kind => ?_, h.held⟩
      have hother : e.seqHash ≠ seq := by
        rintro rfl
        rw [(hok.filed f e he).1] at hnone
        simp at hnone
      rw [← h.booked f e he kind, refsOf, refsOf, lookup_erase_if, if_neg hother]
    next flat hf => exact h.of_without hok hf (by omega) ⟨rfl, rfl, rfl, rfl, hnodes⟩

theorem Balanced.registerPlaced (hok : p.IndexOk) (h : p.Balanced o there key pk) {b : PlacedBlock B}
    (same : ∀ e, p.byFlat.lookup b.id.blockHash = some e → e.seqHash = b.seq)
    (free : ∀ f, p.seqToFlat.lookup b.seq = some f → f = b.id.blockHash)
    (fresh : ¬there → ∀ f kind, o ⟨key.modelId, key.revision, pk, f⟩ kind = 0) :
    (p.registerPlaced b).Balanced o there key pk := by
  have hrefs : ∀ s, (p.registerPlaced b).refsOf s = p.refsOf s := fun _ => rfl
  have hby := p.lookup_registerPlaced b
  constructor
  · intro f e he kind
    rw [hby] at he
    split at he
    next hf =>
      cases he
      rw [hrefs, hf]
      cases hold : p.byFlat.lookup b.id.blockHash with
      | some e₀ =>
        have hb := h.booked _ e₀ hold kind
        rwa [same e₀ hold] at hb
      | none =>
        have hunused : p.refsOf b.seq = .zero := by
          apply hok.refsOf_eq_zero
          by_contra hne
          obtain ⟨f', hf'⟩ := hok.referenced b.seq hne
          obtain ⟨e', he', -⟩ := hok.owned b.seq f' hf'
          rw [free f' hf', hold] at he'
          simp at he'
        have howed : o ⟨key.modelId, key.revision, pk, b.id.blockHash⟩ kind = 0 := by
          by_contra hne
          by_cases hthere : there
          · exact lookup_eq_none.mp hold (h.held hthere _ kind hne)
          · exact hne (fresh hthere _ kind)
        rw [hunused, bucket_zero, howed]
    rw [hrefs]
    exact h.booked f e he kind
  · intro hthere f kind hne
    have hold := h.held hthere f kind hne
    exact mem_insert.mpr (.inr hold)

theorem Balanced.new (o : BlockKey → RefKind → Int) (hthere : ¬there) (key : NamespaceKey) (pk : Int)
    (cap : Nat) : (PoolView.new B cap).Balanced o there key pk :=
  ⟨by simp [PoolView.new], fun ht => absurd ht hthere⟩

theorem Balanced.apply (hB : B.Lawful) (hok : p.IndexOk) (h : p.Balanced o there key pk)
    {act : PoolAction B} (guard : act.Guard p) (hact : ∀ flat e kind value, act ≠ .setRef flat e kind value)
    (reg : ∀ b, act = .register b → (∀ e, p.byFlat.lookup b.id.blockHash = some e → e.seqHash = b.seq) ∧
      ∀ f, p.seqToFlat.lookup b.seq = some f → f = b.id.blockHash)
    (fresh : ¬there → ∀ f kind, o ⟨key.modelId, key.revision, pk, f⟩ kind = 0) :
    (act.apply p).Balanced o there key pk := by
  have halloc : ∀ n, ({ p with inactive := (B.allocate p.inactive n).2 } : PoolView B).Balanced o there key pk :=
    fun n => ⟨h.booked, h.held⟩
  cases act with
  | evict n =>
    have hboth := dropInactiveVictims_induct hB (p := p) (n := n)
      (I := fun q => q.IndexOk ∧ q.Balanced o there key pk) ⟨hok.allocate hB n, halloc n⟩
      fun q seq hout hq => ⟨hq.1.dropVictim hout, hq.2.dropVictim hq.1 hout⟩
    exact hboth.2
  | register b => exact h.registerPlaced hok (reg b rfl).1 (reg b rfl).2 fresh
  | discard flat e =>
    exact h.of_without hok (hok.filed flat e guard.1).1 guard.2
      ⟨rfl, rfl, rfl, rfl, fun _ _ hb => hok.take hB guard.1 hb⟩
  | gcCold key' pk' n =>
    refine (hok.gcCold_induct hB (I := fun q => q.Balanced o there key pk) key' pk' n (halloc n)
      (fun q v flat e _ _ hq _ he => hq.of_sameIndex (peel_sameIndex v.1 he)) ?_ ?_).2
    · intro q seq flat e hq hb hc he hout
      obtain ⟨hn, hseq, hrefs, hby⟩ := removeCold_frame hB flat e hout
      refine hb.of_without hq hc.filed hc.free ⟨hby, hseq, rfl, hrefs, fun s b hs => ?_⟩
      rw [hn] at hs
      exact ⟨ne_of_mem_of_not_mem (mem_of_lookup_eq_some hs) hout, hs⟩
    · intro q v _ hb
      unfold reinsertCold
      split
      · exact hb
      split
      · exact ⟨hb.booked, hb.held⟩
      · exact hb
  | setRef flat e kind value => exact absurd rfl (hact flat e kind value)
  | _ => exact h.of_sameIndex (apply_sameIndex hB guard trivial)

end PoolView

namespace Authority

variable {a b : Authority B} {o : BlockKey → RefKind → Int}

/-- Every registered block is booked what `o` says it is owed, and nothing else is owed. -/
structure Balanced (o : BlockKey → RefKind → Int) (a : Authority B) : Prop where
  booked : ∀ key pk p, a.pool? key pk = some p → ∀ f e, p.byFlat.lookup f = some e → ∀ kind,
    (p.refsOf e.seqHash).bucket kind = o ⟨key.modelId, key.revision, pk, f⟩ kind
  held : ∀ k kind, o k kind ≠ 0 → (a.block? k).isSome
  bounded : ∀ k kind, o k kind ≤ i64Max

theorem Balanced.congr (h : a.Balanced o) (hns : b.namespaces = a.namespaces) : b.Balanced o where
  booked key pk p hp := h.booked key pk p ((pool?_congr hns key pk).symm.trans hp)
  held k kind hne := by
    have ha := h.held k kind hne
    simpa [block?, pool?, hns] using ha
  bounded := h.bounded

/-- The pools of a call that keeps the chains: indexed, and fit for the blocks it registers. -/
def Fit (S : Set (List Flat)) (op : Op) (a : Authority B) : Prop :=
  ∀ key pk p, a.pool? key pk = some p → Indexed S key pk p ∧ ChainsFit op key pk p

theorem Run.balanced (hB : B.Lawful) {S : Set (List Flat)} (hS : B.InjectiveOn S) {op : Op}
    (hone : ∀ k c c', op.Registers k c → op.Registers k c' → c = c') (hchains : ∀ k c, op.Registers k c → c ∈ S)
    (h : Run (fun key act => op.May key act ∧ act.keepsRefs = true) a b) (hfit : Fit S op a)
    (hbal : a.Balanced o) : Fit S op b ∧ b.Balanced o := by
  have hfresh : ∀ key pk, ¬(a.pool? key pk).isSome → ∀ f kind, o ⟨key.modelId, key.revision, pk, f⟩ kind = 0 := by
    intro key pk hnone f kind
    by_contra hne
    have hblock := hbal.held _ kind hne
    have hpool : a.pool? key pk = none := by simpa using hnone
    simp [block?, BlockKey.ns, hpool] at hblock
  have hkeep : ∀ key pk (p : PoolView B) (act : PoolAction B),
      PoolMay (fun key act => op.May key act ∧ act.keepsRefs = true) key pk act → act.Guard p →
      (Indexed S key pk p ∧ ChainsFit op key pk p) ∧ p.Balanced o (a.pool? key pk).isSome key pk →
      (Indexed S key pk (act.apply p) ∧ ChainsFit op key pk (act.apply p)) ∧
        (act.apply p).Balanced o (a.pool? key pk).isSome key pk := by
    intro key pk p act hmay guard hp
    have hplain : PoolMay op.May key pk act ∧ ∀ flat e kind value, act ≠ .setRef flat e kind value := by
      cases act <;> simp_all [PoolMay, NsAction.keepsRefs]
    exact ⟨⟨hp.1.1.apply hB hS hchains hplain.1 guard hp.1.2, hp.1.2.apply hB hone hplain.1 guard⟩,
      hp.2.apply hB hp.1.1.index guard hplain.2
        (fun b heq => hp.1.1.register_fits hS hchains (heq ▸ hplain.1) hp.1.2) (hfresh key pk)⟩
  have hbase : ∀ key pk p, a.pool? key pk = some p →
      (Indexed S key pk p ∧ ChainsFit op key pk p) ∧ p.Balanced o (a.pool? key pk).isSome key pk := by
    intro key pk p hp
    refine ⟨hfit key pk p hp, hbal.booked key pk p hp, fun _ f kind hne => ?_⟩
    have hblock := hbal.held _ kind hne
    cases he : p.byFlat.lookup f with
    | none => simp [block?, BlockKey.ns, hp, he] at hblock
    | some e => exact mem_of_lookup_eq_some he
  obtain ⟨hstay, hall⟩ := h.pools_kept (fun key hm => by simp [NsAction.keepsRefs] at hm)
    (fun key pk cap hnone => ⟨⟨.new hB S key pk cap, by intro f c e _ he; simp [PoolView.new] at he⟩,
      .new o (by simp [hnone]) key pk cap⟩) hkeep hbase
  refine ⟨fun key pk p hp => (hall key pk p hp).1, fun key pk p hp => (hall key pk p hp).2.booked, ?_, hbal.bounded⟩
  intro k kind hne
  have hold := hbal.held k kind hne
  have hpool : (a.pool? k.ns k.poolKind).isSome := by
    cases hp : a.pool? k.ns k.poolKind with
    | none => simp [block?, hp] at hold
    | some p => rfl
  obtain ⟨q, hq⟩ := isSome_iff_exists.mp (hstay _ _ hpool)
  have hmem := (hall _ _ q hq).2.held hpool k.flat kind hne
  obtain ⟨e, he⟩ := mem_iff.mp hmem
  simp [block?, hq, he]

end Authority

end LakeKv
