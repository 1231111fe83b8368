import LakeKv.RefBalance

namespace LakeKv

open Authority BlockKey Finmap List NsAction Option PoolView RefAccounts Saturating

def Op.NamesNodes : Op → Prop
  | .reportRefs ds => ∀ d ∈ ds, d.nodeId.isEmpty = false
  | _ => True

variable {B : Backend}

namespace Authority

variable {a b : Authority B} {o : BlockKey → RefKind → Int}

theorem bucketAfter_bounds {r : RefAccounts} {kind : RefKind} {delta after : Int}
    (h : bucketAfter r kind delta = .ok after) : after = r.bucket kind + delta ∧ 0 ≤ after ∧ after ≤ i64Max := by
  obtain ⟨heq, hpos⟩ := bucketAfter_eq_ok h
  refine ⟨heq, hpos, ?_⟩
  unfold bucketAfter at h
  split at h
  · simp at h
  next x hx =>
    unfold checkedAdd at hx
    split at hx
    next hrange => omega
    · simp at hx

/-- The books of an authority: pools in order, and accounts that balance with `o`. -/
structure Books (S : Set (List Flat)) (o : BlockKey → RefKind → Int) (a : Authority B) : Prop where
  indexed : ∀ key pk p, a.pool? key pk = some p → Indexed S key pk p
  balanced : a.Balanced o

theorem Books.congr {S : Set (List Flat)} (h : a.Books S o) (hns : b.namespaces = a.namespaces) : b.Books S o :=
  ⟨fun key pk p hp => h.indexed key pk p ((pool?_congr hns key pk).symm.trans hp), h.balanced.congr hns⟩

theorem credit_zero (o : BlockKey → RefKind → Int) (k : BlockKey) (kind : RefKind) : credit o k kind 0 = o := by
  funext k' kind'
  simp [credit]

section Booking

variable {S : Set (List Flat)} {key : NamespaceKey} {pk : Int} {p : PoolView B} {flat : Flat}
  {e : Entry B} {kind : RefKind}

theorem Books.touchRefs (h : a.Books S o) (hp : a.pool? key pk = some p) (seq : B.Seq) :
    (a.setPool key pk (p.touchRefs seq)).Books S o := by
  have hs := p.touchRefs_sameIndex seq
  have hidx := h.indexed key pk p hp
  refine ⟨fun key' pk' q hq => ?_, fun key' pk' q hq => ?_, fun k kind hne => ?_, h.balanced.bounded⟩
  · rw [pool?_setPool_if hp] at hq
    split at hq
    next heq =>
      obtain ⟨rfl, rfl⟩ := heq
      cases hq
      exact ⟨hidx.keyed, hidx.chains, hidx.index.of_sameIndex hs⟩
    · exact h.indexed key' pk' q hq
  · rw [pool?_setPool_if hp] at hq
    split at hq
    next heq =>
      obtain ⟨rfl, rfl⟩ := heq
      cases hq
      intro f e he kind
      rw [hs.refs]
      exact h.balanced.booked _ _ p hp f e he kind
    · exact h.balanced.booked key' pk' q hq
  · have hold := h.balanced.held k kind hne
    simp only [block?, pool?_setPool_if hp] at hold ⊢
    split
    next heq => simpa [heq.1, heq.2, hp, PoolView.touchRefs] using hold
    · exact hold

variable (hB : B.Lawful)
include hB

theorem Books.setRef (h : a.Books S o) (hp : a.pool? key pk = some p)
    (he : p.byFlat.lookup flat = some e) (hk : kind = .request ∨ kind = .writeback) {delta after : Int}
    (hafter : after = (p.refsOf e.seqHash).bucket kind + delta) (hpos : 0 ≤ after) (hmax : after ≤ i64Max) :
    (a.setPool key pk (p.setRef e.seqHash e.blockId kind after)).Books S
      (credit o ⟨key.modelId, key.revision, pk, flat⟩ kind delta) := by
  have hidx := h.indexed key pk p hp
  have hby : (p.setRef e.seqHash e.blockId kind after).byFlat = p.byFlat := by rw [setRef_eq]
  have hold := h.balanced.booked key pk p hp flat e he
  refine ⟨fun key' pk' q hq => ?_, fun key' pk' q hq => ?_, fun k kind' hne => ?_, fun k kind' => ?_⟩
  · rw [pool?_setPool_if hp] at hq
    split at hq
    next heq =>
      obtain ⟨rfl, rfl⟩ := heq
      cases hq
      exact ⟨by rw [hby]; exact hidx.keyed, by rw [hby]; exact hidx.chains, hidx.index.setRef hB he kind hpos⟩
    · exact h.indexed key' pk' q hq
  · rw [pool?_setPool_if hp] at hq
    split at hq
    next heq =>
      obtain ⟨rfl, rfl⟩ := heq
      cases hq
      intro f e' he' kind'
      rw [hby] at he'
      rw [refsOf_setRef, credit]
      by_cases hf : f = flat
      · subst hf
        cases he'.symm.trans he
        rw [if_pos rfl, bucket_setBucket hk]
        by_cases hkind : kind' = kind
        · subst hkind
          rw [if_pos rfl, if_pos ⟨rfl, rfl⟩, hafter, hold]
        · rw [if_neg hkind, if_neg fun hc => hkind hc.2, hold]
      · rw [if_neg (hidx.index.seqHash_ne he he' hf), if_neg fun hc => hf (congrArg BlockKey.flat hc.1)]
        exact h.balanced.booked _ _ p hp f e' he' kind'
    next hne =>
      intro f e' he' kind'
      have hapart : ¬((⟨key'.modelId, key'.revision, pk', f⟩ : BlockKey) =
          ⟨key.modelId, key.revision, pk, flat⟩ ∧ kind' = kind) := by
        rintro ⟨hc, -⟩
        cases key'
        cases key
        simp only [BlockKey.mk.injEq] at hc
        exact hne ⟨by rw [hc.1, hc.2.1], hc.2.2.1⟩
      rw [credit, if_neg hapart]
      exact h.balanced.booked key' pk' q hq f e' he' kind'
  · have hthere : (a.block? k).isSome := by
      by_cases hc : k = ⟨key.modelId, key.revision, pk, flat⟩ ∧ kind' = kind
      · obtain ⟨rfl, -⟩ := hc
        simp [block?, BlockKey.ns, hp, he]
      · rw [credit, if_neg hc] at hne
        exact h.balanced.held k kind' hne
    simp only [block?, pool?_setPool_if hp] at hthere ⊢
    split
    next heq => simpa [heq.1, heq.2, hp, hby] using hthere
    · exact hthere
  · rw [credit]
    split
    next hc =>
      rw [hc.1, hc.2, ← hold kind]
      omega
    · exact h.balanced.bounded k kind'

/-- A delta on the books alone, as `reconcile_dead_node` sends it, when the account covers it. -/
theorem Books.reportRefRaw_clear (h : a.Books S o) {k : BlockKey}
    (hkey : resolvePoolKind k.poolKind = .ok k.poolKind) (hk : kind = .request ∨ kind = .writeback)
    {step : Int} (hstep : 0 < step) (hle : step ≤ o k kind) :
    (a.reportRefRaw ⟨some k.toId, kind.toWire, -step, ""⟩ false).1.Books S (credit o k kind (-step)) ∧
      (a.reportRefRaw ⟨some k.toId, kind.toWire, -step, ""⟩ false).1.nodeRefs = a.nodeRefs := by
  have hblock := h.balanced.held k kind (by omega)
  obtain ⟨p, hp, hblock⟩ : ∃ p, a.pool? k.ns k.poolKind = some p ∧ (p.byFlat.lookup k.flat).isSome := by
    cases hp : a.pool? k.ns k.poolKind with
    | none => simp [block?, hp] at hblock
    | some p => exact ⟨p, rfl, by simpa [block?, hp] using hblock⟩
  obtain ⟨e, he⟩ := isSome_iff_exists.mp hblock
  obtain ⟨ns, hns, hpool⟩ := pool?_eq_some.mp hp
  have hbucket : (p.refsOf e.seqHash).bucket kind = o k kind := h.balanced.booked k.ns k.poolKind p hp k.flat e he kind
  have htarget : a.refTarget ⟨some k.toId, kind.toWire, -step, ""⟩ = .ok ⟨k.ns, k.poolKind, e.seqHash⟩ := by
    have hid : NamespaceKey.fromId k.toId = k.ns := rfl
    simp only [refTarget, toId, hkey]
    simp only [toId] at hid
    rw [hid, hns]
    simp [hpool, he]
  have hresolve : resolveRefKind kind.toWire = .ok kind := by rcases hk with rfl | rfl <;> rfl
  have hafter : bucketAfter (p.refsOf e.seqHash) kind (-step) = .ok (o k kind - step) := by
    have hmax := h.balanced.bounded k kind
    have hrange : i64Min ≤ o k kind + -step ∧ o k kind + -step ≤ i64Max := by
      have hmin : i64Min ≤ 0 := by decide
      omega
    rw [bucketAfter, hbucket, checkedAdd, if_pos hrange]
    have hpos : ¬o k kind + -step < 0 := by omega
    simp [hpos, sub_eq_add_neg]
  have hsum : o k kind - step = (p.refsOf e.seqHash).bucket kind + -step := by
    rw [hbucket]
    omega
  have hbound : o k kind - step ≤ i64Max := by
    have hmax := h.balanced.bounded k kind
    omega
  have hset := h.setRef hB hp he hk hsum (by omega) hbound
  have hentry : p.byFlat.lookup k.toId.blockHash = some e := he
  simp only [reportRefRaw, htarget, hresolve, Bool.false_and, Bool.false_eq_true, ↓reduceIte, applyRef, hp,
    hentry, hafter]
  refine ⟨hset, ?_⟩
  rw [setPool_of_lookup _ _ hns]
  rfl

/-- A report for a node moves the pool's ledger and the node's together. -/
theorem Books.reportRefRaw_tracked (h : a.Books S (owed a.nodeRefs)) (hrows : RowsOk a.nodeRefs)
    {d : RefDelta} (hnode : d.nodeId.isEmpty = false) :
    (a.reportRefRaw d true).1.Books S (owed (a.reportRefRaw d true).1.nodeRefs) ∧
      RowsOk (a.reportRefRaw d true).1.nodeRefs := by
  unfold reportRefRaw
  split
  · exact ⟨h, hrows⟩
  · exact ⟨h, hrows⟩
  next t id ht hid =>
    split
    · exact ⟨h, hrows⟩
    next kind hkind =>
      have hk := resolveRefKind_eq_ok hkind
      obtain ⟨id', p, e, hid', hkey, hpk, hp, he, hseq⟩ := refTarget_eq_ok ht
      cases hid.symm.trans hid'
      obtain ⟨ns, hns, -⟩ := pool?_eq_some.mp hp
      have hfrom : fromId id = ⟨t.key.modelId, t.key.revision, t.poolKind, id.blockHash⟩ := by
        rw [fromId_of_resolve hpk, hkey]
        rfl
      have hrange : resolvePoolKind (fromId id).poolKind = .ok (fromId id).poolKind := by
        rw [hfrom]
        rcases resolvePoolKind_range hpk with heq | heq <;> rw [heq] <;> rfl
      have hrefs : ∀ q, (a.setPool t.key t.poolKind q).nodeRefs = a.nodeRefs := by
        intro q
        rw [setPool_of_lookup _ _ hns]
        rfl
      split
      next htracks =>
        split
        · exact ⟨h, hrows⟩
        next row hrow =>
          simp only [applyRef, hp, he, ← hseq]
          split
          · refine ⟨?_, by rw [hrefs]; exact hrows⟩
            rw [hrefs]
            exact h.touchRefs hp e.seqHash
          next after hafter =>
            obtain ⟨heq, hpos, hmax⟩ := bucketAfter_bounds hafter
            -- Both ledgers move by the delta, so they still agree.
            have hset := h.setRef hB hp he hk heq hpos hmax
            simp only [↓reduceIte]
            have hrow' : bucketAfter ((a.setPool t.key t.poolKind
                (p.setRef e.seqHash e.blockId kind after)).nodeRow d.nodeId (.fromId id)) kind d.delta = .ok row := by
              rw [nodeRow, hrefs]
              exact hrow
            have hrows' : RowsOk (a.setPool t.key t.poolKind (p.setRef e.seqHash e.blockId kind after)).nodeRefs := by
              rw [hrefs]
              exact hrows
            refine ⟨?_, rowsOk_addNodeRef hrows' hrange hrow'⟩
            rw [owed_addNodeRef hrows' hk hrow', hrefs, hfrom]
            exact hset.congr rfl
      next htracks =>
        -- A node is named, so the delta is zero and moves nothing.
        have hzero : d.delta = 0 := by simpa [tracksNode, hnode] using htracks
        simp only [applyRef, hp, he, ← hseq]
        split
        · refine ⟨?_, by rw [hrefs]; exact hrows⟩
          rw [hrefs]
          exact h.touchRefs hp e.seqHash
        next after hafter =>
          obtain ⟨heq, hpos, hmax⟩ := bucketAfter_bounds hafter
          have hset := h.setRef hB hp he hk heq hpos hmax
          rw [hzero, credit_zero] at hset
          simp only [Bool.false_eq_true, ↓reduceIte]
          rw [hrefs]
          exact ⟨hset, hrows⟩

end Booking

section Clearing

variable {S : Set (List Flat)} {k : BlockKey} {kind : RefKind}

theorem credit_credit (o : BlockKey → RefKind → Int) (k : BlockKey) (kind : RefKind) (x y : Int) :
    credit (credit o k kind x) k kind y = credit o k kind (x + y) := by
  funext k' kind'
  by_cases hc : k' = k ∧ kind' = kind
  · simp only [credit, if_pos hc]
    omega
  · simp only [credit, if_neg hc]

variable (hB : B.Lawful)
include hB

/-- The loop clears the whole account: each turn takes at least one reference, so the fuel lasts. -/
theorem Books.clearRef (hkey : resolvePoolKind k.poolKind = .ok k.poolKind)
    (hk : kind = .request ∨ kind = .writeback) (fuel : Nat) {remaining : Int} (h : a.Books S o)
    (hpos : 0 ≤ remaining) (hle : remaining ≤ o k kind) (hfuel : remaining.toNat ≤ fuel) :
    (a.clearRef k kind fuel remaining).Books S (credit o k kind (-remaining)) ∧
      (a.clearRef k kind fuel remaining).nodeRefs = a.nodeRefs := by
  induction fuel generalizing a o remaining with
  | zero =>
    have hzero : remaining = 0 := by omega
    rw [hzero, clearRef, neg_zero, credit_zero]
    exact ⟨h, rfl⟩
  | succ fuel ih =>
    unfold clearRef
    split
    next hdone =>
      have hzero : remaining = 0 := by omega
      rw [hzero, neg_zero, credit_zero]
      exact ⟨h, rfl⟩
    next hleft =>
      have hmax : (0 : Int) < i32Max := by decide
      have hstep : 0 < min remaining i32Max ∧ min remaining i32Max ≤ remaining := by omega
      obtain ⟨hone, hrefs⟩ := h.reportRefRaw_clear hB hkey hk hstep.1 (by omega)
      have hrest : remaining - min remaining i32Max ≤ credit o k kind (-min remaining i32Max) k kind := by
        simp only [credit, and_self, ↓reduceIte]
        omega
      obtain ⟨hall, hrefs'⟩ := ih hone (by omega) hrest (by omega)
      have hsum : -min remaining i32Max + -(remaining - min remaining i32Max) = -remaining := by omega
      rw [credit_credit, hsum] at hall
      exact ⟨hall, hrefs'.trans hrefs⟩

theorem Books.clearRow {r : RefAccounts} (hrow : RowOk k r) (h : a.Books S o) (hle : ∀ kind, r.bucket kind ≤ o k kind) :
    (a.clearRow k r).Books S (fun k' kind' => if k' = k then o k' kind' - r.bucket kind' else o k' kind') ∧
      (a.clearRow k r).nodeRefs = a.nodeRefs := by
  obtain ⟨hreq, hrefs⟩ := h.clearRef hB hrow.kind (.inl rfl) r.request.toNat hrow.request (hle .request) le_rfl
  have hleft : r.writeback ≤ credit o k .request (-r.request) k .writeback := by
    simpa [credit, bucket] using hle .writeback
  obtain ⟨hwb, hrefs'⟩ := hreq.clearRef hB hrow.kind (.inr rfl) r.writeback.toNat hrow.writeback hleft le_rfl
  refine ⟨?_, hrefs'.trans hrefs⟩
  have hsame : credit (credit o k .request (-r.request)) k .writeback (-r.writeback) =
      fun k' kind' => if k' = k then o k' kind' - r.bucket kind' else o k' kind' := by
    funext k' kind'
    by_cases hkk : k' = k <;> cases kind' <;> simp [credit, hkk, bucket, sub_eq_add_neg]
  exact hsame ▸ hwb

/-- While a dead node's rows are cleared, the books balance with what the others are owed and the rows
still to come. -/
theorem Books.clearHeld {base : BlockKey → RefKind → Int} (hbase : ∀ k kind, 0 ≤ base k kind)
    {held : Map BlockKey RefAccounts} (hheld : ∀ k r, held.lookup k = some r → RowOk k r)
    {ks : List BlockKey} (hnodup : ks.Nodup) (hks : ∀ k ∈ ks, k ∈ held)
    (h : a.Books S fun k kind => base k kind + if k ∈ ks then ((held.lookup k).getD .zero).bucket kind else 0) :
    (a.clearHeld held ks).Books S base ∧ (a.clearHeld held ks).nodeRefs = a.nodeRefs := by
  induction ks generalizing a with
  | nil =>
    have hsame : (fun k kind => base k kind + if k ∈ ([] : List BlockKey) then
        ((held.lookup k).getD .zero).bucket kind else 0) = base := by
      funext k kind
      simp
    rw [hsame] at h
    exact ⟨h, rfl⟩
  | cons k ks ih =>
    obtain ⟨hout, hnodup⟩ := nodup_cons.mp hnodup
    obtain ⟨r, hr⟩ := mem_iff.mp (hks k mem_cons_self)
    have hrow := hheld k r hr
    have hle : ∀ kind, r.bucket kind ≤ base k kind +
        if k ∈ k :: ks then ((held.lookup k).getD .zero).bucket kind else 0 := by
      intro kind
      have hb := hbase k kind
      simp only [mem_cons_self, ↓reduceIte, hr, getD_some]
      omega
    obtain ⟨hone, hrefs⟩ := h.clearRow hB hrow hle
    have hrest : (a.clearRow k r).Books S fun k' kind =>
        base k' kind + if k' ∈ ks then ((held.lookup k').getD .zero).bucket kind else 0 := by
      have hsame : (fun k' kind' => if k' = k then
            (base k' kind' + if k' ∈ k :: ks then ((held.lookup k').getD .zero).bucket kind' else 0) - r.bucket kind'
          else base k' kind' + if k' ∈ k :: ks then ((held.lookup k').getD .zero).bucket kind' else 0) =
          fun k' kind' => base k' kind' + if k' ∈ ks then ((held.lookup k').getD .zero).bucket kind' else 0 := by
        funext k' kind'
        by_cases hkk : k' = k
        · subst hkk
          simp [hout, hr]
        · simp [hkk]
      exact hsame ▸ hone
    obtain ⟨hall, hrefs'⟩ := ih hnodup (fun k' hk' => hks k' (mem_cons_of_mem _ hk')) hrest
    have hturn : (if r.total = 0 then a else a.clearRow k r) = a.clearRow k r := by
      have ht := hrow.total
      rw [if_neg (by omega)]
    simp only [clearHeld, hr, getD_some, hturn]
    exact ⟨hall, hrefs'.trans hrefs⟩

end Clearing

structure Ledgers (S : Set (List Flat)) (a : Authority B) : Prop where
  books : a.Books S (owed a.nodeRefs)
  rows : RowsOk a.nodeRefs

section Calls

variable {S : Set (List Flat)} {op : Op}

theorem Ledgers.congr (h : a.Ledgers S) (hns : b.namespaces = a.namespaces) (hrefs : b.nodeRefs = a.nodeRefs) :
    b.Ledgers S :=
  ⟨hrefs ▸ h.books.congr hns, hrefs ▸ h.rows⟩

theorem Ledgers.of_empty (hns : a.namespaces = ∅) (hrefs : a.nodeRefs = ∅) : a.Ledgers S := by
  have hzero : ∀ k kind, owed a.nodeRefs k kind = 0 := by
    intro k kind
    rw [hrefs]
    exact owed_empty k kind
  refine ⟨⟨?_, ?_, fun k kind hne => absurd (hzero k kind) hne, fun k kind => ?_⟩, ?_⟩
  · simp [pool?, hns]
  · simp [pool?, hns]
  · have hmax : (0 : Int) ≤ i64Max := by decide
    exact (hzero k kind).trans_le hmax
  · intro n held k r hn
    simp [hrefs] at hn

theorem Books.fit (h : a.Books S o) (hnone : ∀ k c, ¬op.Registers k c) : Fit S op a :=
  fun key pk p hp => ⟨h.indexed key pk p hp, fun _ c _ hc => absurd hc (hnone _ c)⟩

section

variable (hB : B.Lawful)
include hB

theorem Ledgers.run (hS : B.InjectiveOn S) (hone : ∀ k c c', op.Registers k c → op.Registers k c' → c = c')
    (hchains : ∀ k c, op.Registers k c → c ∈ S) (hfit : Fit S op a)
    (hrun : Run (fun key act => op.May key act ∧ act.keepsRefs = true) a b) (h : a.Ledgers S) : b.Ledgers S := by
  have hrefs := hrun.nodeRefs fun key hm => by simp [keepsRefs] at hm
  obtain ⟨hfit', hbal⟩ := hrun.balanced hB hS hone hchains hfit h.books.balanced
  rw [← hrefs] at hbal
  exact ⟨⟨fun key pk p hp => (hfit' key pk p hp).1, hbal⟩, hrefs ▸ h.rows⟩

theorem Ledgers.run_of_not_registers (hS : B.InjectiveOn S) (hnone : ∀ k c, ¬op.Registers k c)
    (hrun : Run (fun key act => op.May key act ∧ act.keepsRefs = true) a b) (h : a.Ledgers S) : b.Ledgers S :=
  h.run hB hS (fun k c _ hc => absurd hc (hnone k c)) (fun k c hc => absurd hc (hnone k c)) (h.books.fit hnone) hrun

theorem Ledgers.reportRefs (h : a.Ledgers S) {ds : List RefDelta}
    (hnodes : ∀ d ∈ ds, d.nodeId.isEmpty = false) : (a.reportRefs ds).1.Ledgers S := by
  have hloop : ∀ (ds : List RefDelta) (a : Authority B), a.Ledgers S → (∀ d ∈ ds, d.nodeId.isEmpty = false) →
      (a.applyRefs ds).1.Ledgers S := by
    intro ds
    induction ds with
    | nil => exact fun _ ha _ => ha
    | cons d ds ih =>
      intro a ha hd
      obtain ⟨hbooks, hrows⟩ := ha.books.reportRefRaw_tracked hB ha.rows (hd d mem_cons_self)
      unfold applyRefs
      split
      next a' heq =>
        rw [reportRef] at heq
        rw [heq] at hbooks hrows
        exact ih a' ⟨hbooks, hrows⟩ fun d' hd' => hd d' (mem_cons_of_mem _ hd')
      next a' _ heq =>
        rw [reportRef] at heq
        rw [heq] at hbooks hrows
        exact ⟨hbooks, hrows⟩
  unfold Authority.reportRefs
  split
  · exact h
  · exact hloop ds a h hnodes

variable (hS : B.InjectiveOn S)
include hS

variable (h : a.Ledgers S)
include h

theorem Ledgers.discardOne (id : KvBlockId) : (a.discardOne id).1.Ledgers S := by
  unfold Authority.discardOne
  split
  · exact h
  next pk hpk =>
    dsimp only
    split
    · exact h
    next ns hns =>
      split
      · exact h
      next p hp =>
        split
        · exact h.congr rfl rfl
        next e he =>
          split
          · exact h
          next hrefs =>
            have hpool : a.pool? (.fromId id) pk = some p := pool?_eq_some.mpr ⟨ns, hns, hp⟩
            have hguard : NsAction.Guard (.fromId id) ns (.discard pk id e) := ⟨p, hp, ⟨he, by omega⟩, hpk, rfl⟩
            have hrun : Run (fun key act => Op.May (.discardBlocks [id]) key act ∧ act.keepsRefs = true) a _ :=
              Run.refl.act (.discard pk id e) hns ⟨.discard mem_cons_self hpk, rfl⟩ hguard
            have hafter := h.run_of_not_registers hB hS (fun k c hc => by cases hc) hrun
            rw [apply, events, poolMut_of_lookup hp] at hafter
            have hzero : ∀ kind, owed a.nodeRefs (.fromId id) kind = 0 := by
              intro kind
              have hidx := (h.books.indexed _ _ p hpool).index.nonneg e.seqHash
              have hb := h.books.balanced.booked _ _ p hpool id.blockHash e he kind
              rw [bucket_of_total_nonpos hidx.1 hidx.2 (by omega)] at hb
              rw [fromId_of_resolve hpk]
              exact hb.symm
            have hsame := h.rows.dropRows hzero
            exact hafter.congr rfl hsame

theorem Ledgers.discardBlocks (ids : List KvBlockId) : (a.discardBlocks ids).1.Ledgers S := by
  induction ids generalizing a with
  | nil => exact h
  | cons id ids ih =>
    have hone := h.discardOne hB hS id
    unfold discardBlocks
    split
    next heq => rwa [heq] at hone
    next a' _ heq =>
      rw [heq] at hone
      have hrest := ih hone
      split
      next heq' => rwa [heq'] at hrest
      next heq' => rwa [heq'] at hrest

theorem Ledgers.reconcileDeadNode (node : String) : (a.reconcileDeadNode node).1.Ledgers S ∧
      (node.isEmpty = false → (a.reconcileDeadNode node).1.nodeRefs = a.nodeRefs.erase node) := by
  unfold Authority.reconcileDeadNode
  split
  next hempty => exact ⟨h, fun hne => by simp [hne] at hempty⟩
  have hrows := h.rows.erase node
  have hheld : ∀ k r, ((a.nodeRefs.lookup node).getD ∅).lookup k = some r → RowOk k r := by
    intro k r hr
    cases hn : a.nodeRefs.lookup node with
    | none => simp [hn] at hr
    | some held => exact h.rows node held k r hn (by simpa [hn] using hr)
  obtain ⟨hnodup, hmem⟩ := hB.blockOrder ((a.nodeRefs.lookup node).getD ∅).keys
  have hstart : ({ a with nodeRefs := a.nodeRefs.erase node } : Authority B).Books S fun k kind =>
      owed (a.nodeRefs.erase node) k kind + if k ∈ B.blockOrder ((a.nodeRefs.lookup node).getD ∅).keys then
          ((((a.nodeRefs.lookup node).getD ∅).lookup k).getD .zero).bucket kind else 0 := by
    have hsame : (fun k kind => owed (a.nodeRefs.erase node) k kind +
        if k ∈ B.blockOrder ((a.nodeRefs.lookup node).getD ∅).keys then
          ((((a.nodeRefs.lookup node).getD ∅).lookup k).getD .zero).bucket kind else 0) = owed a.nodeRefs := by
      funext k kind
      rw [owed_erase a.nodeRefs node]
      split
      · rfl
      next hout =>
        rw [hmem, Finmap.mem_keys] at hout
        simp [lookup_eq_none.mpr hout]
    rw [hsame]
    exact h.books.congr rfl
  obtain ⟨hclear, hrefs⟩ := hstart.clearHeld hB hrows.owed_nonneg hheld hnodup
    fun k hk => Finmap.mem_keys.mp ((hmem k).mp hk)
  have hledgers : (({ a with nodeRefs := a.nodeRefs.erase node } : Authority B).clearHeld
      ((a.nodeRefs.lookup node).getD ∅)
      (B.blockOrder ((a.nodeRefs.lookup node).getD ∅).keys)).Ledgers S :=
    ⟨hrefs ▸ hclear, hrefs ▸ hrows⟩
  -- Stripping the node's locations books nothing.
  have hstrip : ∀ (b : Authority B) keys, Run (fun key act =>
      Op.May (.reconcileDeadNode node) key act ∧ act.keepsRefs = true) b
      ((b.stripNamespaces node keys).1.emit (b.stripNamespaces node keys).2) :=
    stripNamespaces_run (fun _ _ _ => ⟨.strip, rfl⟩) (fun _ _ => ⟨.clearMarks, rfl⟩)
  refine ⟨hledgers.run_of_not_registers hB hS (fun k c hc => by cases hc) (hstrip _ _), fun _ => ?_⟩
  exact ((hstrip _ _).nodeRefs fun key hm => by simp [keepsRefs] at hm).trans hrefs

end

theorem owed_ne_zero {rows : NodeRows} {k : BlockKey} {kind : RefKind} (h : owed rows k kind ≠ 0) :
    ∃ n held, rows.lookup n = some held ∧ k ∈ held := by
  obtain ⟨n, hn, hne⟩ := Finset.exists_ne_zero_of_sum_ne_zero h
  obtain ⟨held, hheld⟩ := mem_iff.mp (Finmap.mem_keys.mp hn)
  refine ⟨n, held, hheld, ?_⟩
  by_contra hout
  simp [hheld, lookup_eq_none.mpr hout] at hne

/-- No node has a row of a block in a namespace that is deregistered. -/
def RowsReleased (a : Authority B) : Op → Prop
  | .deregisterModel m r => ∀ n held k, a.nodeRefs.lookup n = some held → k ∈ held → k.ns ≠ ⟨m, r⟩
  | _ => True

theorem Ledgers.deregisterModel (h : a.Ledgers S) {m r : String}
    (hfree : a.RowsReleased (.deregisterModel m r)) : (a.deregisterModel m r).1.Ledgers S := by
  unfold Authority.deregisterModel
  split
  · exact h
  dsimp only
  split
  · exact h
  next ns hns =>
    have hpool : ∀ key pk, ({ a with namespaces := a.namespaces.erase ⟨m, r⟩ }.emit
        (namespaceGone ⟨m, r⟩ ns)).pool? key pk = if key = ⟨m, r⟩ then none else a.pool? key pk := by
      intro key pk
      simp only [pool?, emit, lookup_erase_if]
      split <;> rfl
    refine ⟨⟨fun key pk p hp => ?_, fun key pk p hp => ?_, fun k kind hne => ?_, h.books.balanced.bounded⟩, h.rows⟩
    · rw [hpool] at hp
      split at hp
      · simp at hp
      · exact h.books.indexed key pk p hp
    · rw [hpool] at hp
      split at hp
      · simp at hp
      · exact h.books.balanced.booked key pk p hp
    · obtain ⟨n, held, hn, hk⟩ := owed_ne_zero hne
      have hold := h.books.balanced.held k kind hne
      simpa only [block?, hpool, if_neg (hfree n held k hn hk)] using hold

theorem Ledgers.reconcileOrphans (hB : B.Lawful) (hS : B.InjectiveOn S) (h : a.Ledgers S) (now₁ now₂ : Nat)
    (req : ReconcileOrphansRequest) : (a.reconcileOrphans now₁ now₂ req).1.Ledgers S := by
  have hswept : Run (fun key act => Op.May (.reconcileOrphans now₁ now₂ req) key act ∧ act.keepsRefs = true) a _ :=
    (reportOrphans_run a now₁ req.reports).trans (sweepOrphans_run _ now₂ req.orphanTtlMs)
  have hstart := h.run_of_not_registers hB hS (fun k c hc => by cases hc) hswept
  have hdead := (hstart.reconcileDeadNode hB hS req.deadNodeId).1
  have hgc : ∀ b : Authority B, b.Ledgers S →
      (b.gcCold req.gcModelId req.gcRevision req.gcPoolKind req.gcColdLimit).1.Ledgers S := by
    intro b hb
    have hrun : Run (fun key act => Op.May (.gcCold req.gcModelId req.gcRevision req.gcPoolKind req.gcColdLimit)
        key act ∧ act.keepsRefs = true) b _ :=
      gcCold_run b req.gcModelId req.gcRevision req.gcPoolKind req.gcColdLimit fun _ hpk => ⟨.gcCold hpk, rfl⟩
    exact hb.run_of_not_registers hB hS (fun k c hc => by cases hc) hrun
  have hmiddle : (if req.deadNodeId.isEmpty then
      (((a.reportOrphans now₁ req.reports).sweepOrphans now₂ req.orphanTtlMs).1, Except.ok (0, []))
      else ((a.reportOrphans now₁ req.reports).sweepOrphans now₂ req.orphanTtlMs).1.reconcileDeadNode
        req.deadNodeId).1.Ledgers S := by
    split
    · exact hstart
    · exact hdead
  unfold Authority.reconcileOrphans
  dsimp only
  split
  next heq => rwa [heq] at hmiddle
  next a' _ _ heq =>
    rw [heq] at hmiddle
    have hcold := hgc a' hmiddle
    split
    · split
      next heq' => rwa [heq'] at hcold
      next heq' => rwa [heq'] at hcold
    · exact hmiddle

/-- The calls under which the ledgers stay in agreement: blocks keep their chains, references name
their node, and a namespace goes only when no node has a row of its blocks. -/
def KeepsLedgers (S : Set (List Flat)) (a : Authority B) (op : Op) : Prop :=
  KeepsChainsIn S a op ∧ op.NamesNodes ∧ a.RowsReleased op

theorem fit_of_keepsChains (hkeep : a.KeepsChains op) (hop : op.replaces = false)
    (h : ∀ key pk p, a.pool? key pk = some p → Indexed S key pk p) : Fit S op a := by
  intro key pk p hp
  refine ⟨h key pk p hp, fun f c e hc he => hkeep.2 hop _ c e hc ?_⟩
  simp [block?, BlockKey.ns, hp, he]

theorem step_ledgers (hB : B.Lawful) (hS : B.InjectiveOn S) (hok : KeepsLedgers S a op) (h : a.Ledgers S) :
    (a.step op).Ledgers S := by
  obtain ⟨⟨hkeep, hchains⟩, hnodes, hfree⟩ := hok
  -- All calls but five book nothing.
  have hplain : op.replaces = false → (∀ key (act : NsAction B), op.May key act → act.keepsRefs = true) →
      (a.step op).Ledgers S := by
    intro hop hquiet
    exact h.run hB hS hkeep.1 hchains (fit_of_keepsChains hkeep hop h.books.indexed)
      ((step_run a hop).mono fun key act hm => ⟨hm, hquiet key act hm⟩)
  cases op with
  | deregisterModel m r => exact h.deregisterModel hfree
  | reportRefs ds => exact h.reportRefs hB hnodes
  | discardBlocks ids => exact h.discardBlocks hB hS ids
  | reconcileDeadNode node => exact (h.reconcileDeadNode hB hS node).1
  | reconcileOrphans now₁ now₂ req => exact h.reconcileOrphans hB hS now₁ now₂ req
  | importSnapshot snap =>
    have hempty : (a.cleared snap.seq).Ledgers S := .of_empty rfl rfl
    refine hempty.run hB hS hkeep.1 hchains (fun key pk p hp => ?_)
      ((importSnapshot_run a snap).mono fun key act hm => ⟨hm, ?_⟩)
    · simp [cleared, pool?] at hp
    · cases hm with
      | importModel _ hm | importRow _ _ hm => cases hm <;> rfl
  | commitViewEvents =>
    refine h.congr a.commitViewEvents_namespaces ?_
    rw [step]
    unfold commitViewEvents
    split <;> rfl
  | _ => exact hplain rfl fun key act hm => by cases hm <;> rfl

theorem reachableBy_ledgers (hB : B.Lawful) (hS : B.InjectiveOn S) (h : ReachableBy (KeepsLedgers S) a) :
    a.Ledgers S := by
  refine Reach.invariant (I := fun a => a.Ledgers S) ?_ (fun s op hI ho => step_ledgers hB hS ho hI) h
  rintro s ⟨cap, rfl⟩
  exact .of_empty rfl rfl

end Calls

def twoNodesRun : List Op :=
  [.registerModel (sampleModel 0 0), .register "n" [[9]] [sampleMeta 9],
    .reportRefs [sampleRef 9 1 "n1", sampleRef 9 1 "n2"]]

/-- A model is deregistered while node `n1` references its block, comes back, and its block is
referenced from node `n2`; then `n1` dies. -/
def staleRowRun : List Op :=
  [.registerModel (sampleModel 0 0), .register "n" [[9]] [sampleMeta 9], .reportRefs [sampleRef 9 1 "n1"],
    .deregisterModel "m" "r", .registerModel (sampleModel 0 0), .register "n" [[9]] [sampleMeta 9],
    .reportRefs [sampleRef 9 1 "n2"], .reconcileDeadNode "n1"]

end Authority

end LakeKv
