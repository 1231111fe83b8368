import LakeKv.CompositeCalls
import LakeKv.RefBalance

namespace LakeKv

open Authority Bool Finmap List Option PoolView

namespace Authority

variable {B : Backend} {a b : Authority B} {key : NamespaceKey} {pk : Int}

def reportEach (a : Authority B) : List RefDelta → Option (Authority B)
  | [] => some a
  | d :: ds =>
    match a.reportRef d with
    | (b, .ok ()) => b.reportEach ds
    | (_, .error _) => none

def RowsNonneg (a : Authority B) : Prop :=
  ∀ n k, 0 ≤ (a.nodeRow n k).request ∧ 0 ≤ (a.nodeRow n k).writeback

def ledgerRefs (a : Authority B) (t : RefTarget B) : RefAccounts :=
  ((a.pool? t.key t.poolKind).map fun p => p.refsOf t.seq).getD .zero

theorem refTarget_setPool {p q : PoolView B} (found : a.pool? key pk = some p)
    (same : q.byFlat = p.byFlat) (d : RefDelta) : (a.setPool key pk q).refTarget d = a.refTarget d := by
  obtain ⟨ns, hns, hp⟩ := pool?_eq_some.mp found
  rw [setPool_of_lookup pk q hns]
  unfold refTarget
  split
  · rfl
  next id hid =>
    split
    · rfl
    next pk' hpk =>
      simp only [setNs, lookup_insert_if]
      by_cases hkey : NamespaceKey.fromId id = key
      · rw [if_pos hkey, hkey, hns]
        simp only [Namespace.setPool, lookup_insert_if]
        by_cases hkind : pk' = pk
        · rw [if_pos hkind, hkind, hp]
          simp only [same]
        · rw [if_neg hkind]
      · rw [if_neg hkey]

theorem nodeRow_setPool (key : NamespaceKey) (pk : Int) (q : PoolView B) (n : String) (k : BlockKey) :
    (a.setPool key pk q).nodeRow n k = a.nodeRow n k := by
  unfold setPool
  split <;> rfl

variable {kind : RefKind} {n : String}

theorem nodeRow_addNodeRef {k : BlockKey} {delta after : Int}
    (nonneg : 0 ≤ (a.nodeRow n k).request ∧ 0 ≤ (a.nodeRow n k).writeback)
    (checked : bucketAfter (a.nodeRow n k) kind delta = .ok after) (n' : String) (k' : BlockKey) :
    (a.addNodeRef n k kind delta).nodeRow n' k' =
      if (n', k') = (n, k) then (a.nodeRow n k).setBucket kind after else a.nodeRow n' k' := by
  have left := bucket_setBucket_nonneg kind nonneg (bucketAfter_eq_ok checked).2
  have rows : ∀ r : RefAccounts, 0 ≤ r.request ∧ 0 ≤ r.writeback → r.total ≤ 0 → r = .zero := by
    rintro ⟨request, writeback⟩ ⟨hr, hw⟩ gone
    unfold RefAccounts.total at gone
    dsimp only at hr hw gone
    have zeroR : request = 0 := by omega
    have zeroW : writeback = 0 := by omega
    rw [zeroR, zeroW]
    rfl
  rw [nodeRow_eq, addNodeRef_nodeRefs checked, lookup_insert_if]
  by_cases hn : n' = n
  · subst hn
    rw [if_pos rfl, getD_some]
    split
    next gone =>
      rw [lookup_erase_if]
      by_cases hk : k' = k
      · subst hk
        rw [if_pos rfl, if_pos rfl, rows _ left gone]
        rfl
      · rw [if_neg hk, if_neg fun same => hk (Prod.mk.inj same).2, nodeRow_eq]
    rw [lookup_insert_if]
    by_cases hk : k' = k
    · subst hk
      rw [if_pos rfl, if_pos rfl]
      rfl
    · rw [if_neg hk, if_neg fun same => hk (Prod.mk.inj same).2, nodeRow_eq]
  · rw [if_neg hn, if_neg fun same => hn (Prod.mk.inj same).1, nodeRow_eq]

/-- `b` is what `a` has become when the deltas that `pr` projects have been reported. -/
structure Projects (a b : Authority B) (pr : RefProjection B) : Prop where
  targets : ∀ d, b.refTarget d = a.refTarget d
  refs : ∀ t, b.ledgerRefs t = (pr.refs.lookup t).getD (a.ledgerRefs t)
  rows : ∀ n k, b.nodeRow n k = (pr.nodes.lookup (n, k)).getD (a.nodeRow n k)
  nonneg : b.RowsNonneg

theorem Projects.start (nonneg : a.RowsNonneg) : Projects a a ⟨∅, ∅⟩ :=
  ⟨fun _ => rfl, fun _ => by rw [lookup_empty]; rfl, fun _ _ => by rw [lookup_empty]; rfl, nonneg⟩

theorem ledgerRefs_setRef {p : PoolView B} (found : a.pool? key pk = some p)
    (seq : B.Seq) (blockId : BlockId) (kind : RefKind) (after : Int) (t : RefTarget B) :
    (a.setPool key pk (p.setRef seq blockId kind after)).ledgerRefs t =
      if t = ⟨key, pk, seq⟩ then (a.ledgerRefs ⟨key, pk, seq⟩).setBucket kind after else a.ledgerRefs t := by
  obtain ⟨key', pk', seq'⟩ := t
  unfold ledgerRefs
  rw [pool?_setPool_if found]
  by_cases here : key' = key ∧ pk' = pk
  · obtain ⟨rfl, rfl⟩ := here
    rw [if_pos ⟨rfl, rfl⟩, found]
    change (p.setRef seq blockId kind after).refsOf seq' = _
    rw [refsOf_setRef]
    by_cases hs : seq' = seq
    · subst hs
      rw [if_pos rfl, if_pos rfl]
      rfl
    · rw [if_neg hs, if_neg fun same => hs (RefTarget.mk.inj same).2.2]
      rfl
  · rw [if_neg here, if_neg fun same => here ⟨(RefTarget.mk.inj same).1, (RefTarget.mk.inj same).2.1⟩]

/-- When one delta is reported without an error: its block is registered, its kind is booked, and neither ledger
leaves its bounds. -/
structure Bookable (a : Authority B) (d : RefDelta) (t : RefTarget B) (id : KvBlockId) (kind : RefKind) (after : Int) :
    Prop where
  target : a.refTarget d = .ok t
  named : d.id = some id
  supported : resolveRefKind d.kind = .ok kind
  fits : bucketAfter (a.ledgerRefs t) kind d.delta = .ok after
  fitsNode : tracksNode d = true → ∃ row, bucketAfter (a.nodeRow d.nodeId (.fromId id)) kind d.delta = .ok row

variable {d : RefDelta} {t : RefTarget B} {id : KvBlockId} {after : Int}

theorem applyRef_ok
    (target : a.refTarget d = .ok t) (named : d.id = some id) (fits : bucketAfter (a.ledgerRefs t) kind d.delta = .ok after)
    (track : Bool) : ∃ p blockId, a.pool? t.key t.poolKind = some p ∧ a.applyRef t id kind d track =
      (let booked := a.setPool t.key t.poolKind (p.setRef t.seq blockId kind after)
       if track then booked.addNodeRef d.nodeId (.fromId id) kind d.delta else booked, .ok ()) := by
  obtain ⟨id', p, e, named', -, -, found, block, -⟩ := refTarget_eq_ok target
  cases named.symm.trans named'
  have refs : a.ledgerRefs t = p.refsOf t.seq := by
    unfold ledgerRefs
    rw [found]
    rfl
  refine ⟨p, e.blockId, found, ?_⟩
  rw [refs] at fits
  unfold applyRef
  simp only [found, block, fits]

theorem applyRef_error {bound : RefBound} (target : a.refTarget d = .ok t) (named : d.id = some id)
    (breaks : bucketAfter (a.ledgerRefs t) kind d.delta = .error bound) (track : Bool) :
    (a.applyRef t id kind d track).2 ≠ .ok () := by
  obtain ⟨id', p, e, named', -, -, found, block, -⟩ := refTarget_eq_ok target
  cases named.symm.trans named'
  have refs : a.ledgerRefs t = p.refsOf t.seq := by
    unfold ledgerRefs
    rw [found]
    rfl
  rw [refs] at breaks
  unfold applyRef
  simp only [found, block, breaks]
  nofun

theorem Bookable.reportRef
    (bookable : a.Bookable d t id kind after) : ∃ p blockId, a.pool? t.key t.poolKind = some p ∧ a.reportRef d =
      (let booked := a.setPool t.key t.poolKind (p.setRef t.seq blockId kind after)
       if tracksNode d then booked.addNodeRef d.nodeId (.fromId id) kind d.delta else booked, .ok ()) := by
  have named := bookable.named
  obtain ⟨p, blockId, found, applied⟩ := applyRef_ok bookable.target named bookable.fits (tracksNode d)
  refine ⟨p, blockId, found, ?_⟩
  unfold Authority.reportRef reportRefRaw
  simp only [bookable.target, named, bookable.supported, Bool.true_and]
  cases tracked : tracksNode d with
  | false =>
    rw [tracked] at applied
    rw [if_neg Bool.false_ne_true]
    exact applied
  | true =>
    obtain ⟨row, fitsRow⟩ := bookable.fitsNode tracked
    rw [tracked] at applied
    rw [if_pos rfl, fitsRow]
    exact applied

theorem bookable_of_ok (ok : (a.reportRef d).2 = .ok ()) : ∃ t id kind after, a.Bookable d t id kind after := by
  unfold reportRef reportRefRaw at ok
  split at ok
  · cases ok
  · cases ok
  next t id target named =>
    split at ok
    · cases ok
    next kind supported =>
      cases fits : bucketAfter (a.ledgerRefs t) kind d.delta with
      | error bound =>
        split at ok
        · split at ok
          · cases ok
          · exact absurd ok (applyRef_error target named fits true)
        · exact absurd ok (applyRef_error target named fits false)
      | ok after =>
        refine ⟨t, id, kind, after, target, named, supported, fits, fun tracked => ?_⟩
        rw [Bool.true_and, if_pos tracked] at ok
        split at ok
        · cases ok
        next row fitsRow => exact ⟨row, fitsRow⟩

variable {pr : RefProjection B}

theorem Projects.book (h : Projects a b pr) (bookable : b.Bookable d t id kind after) :
    ∃ c, b.reportRef d = (c, .ok ()) ∧ Projects a c ⟨pr.refs.insert t ((b.ledgerRefs t).setBucket kind after),
        if tracksNode d then pr.nodes.insert (d.nodeId, .fromId id)
          ((b.nodeRow d.nodeId (.fromId id)).setBucket kind ((b.nodeRow d.nodeId (.fromId id)).bucket kind + d.delta))
        else pr.nodes⟩ := by
  obtain ⟨p, blockId, found, eq⟩ := bookable.reportRef
  refine ⟨_, eq, ?_⟩
  have blocks : (p.setRef t.seq blockId kind after).byFlat = p.byFlat := by rw [setRef_eq]
  have booked : Projects a (b.setPool t.key t.poolKind (p.setRef t.seq blockId kind after))
      ⟨pr.refs.insert t ((b.ledgerRefs t).setBucket kind after), pr.nodes⟩ := by
    refine ⟨?_, ?_, ?_, ?_⟩
    · intro e
      rw [refTarget_setPool found blocks, h.targets]
    · intro t'
      rw [ledgerRefs_setRef found, lookup_insert_if]
      split
      · rfl
      · exact h.refs t'
    · intro n k
      rw [nodeRow_setPool, h.rows]
    · intro n k
      rw [nodeRow_setPool]
      exact h.nonneg n k
  dsimp only
  cases tracked : tracksNode d with
  | false => exact booked
  | true =>
    obtain ⟨row, fitsRow⟩ := bookable.fitsNode tracked
    have value := bucketAfter_eq_ok fitsRow
    have fitsHere := fitsRow
    rw [← nodeRow_setPool t.key t.poolKind (p.setRef t.seq blockId kind after)] at fitsHere
    have rows := nodeRow_addNodeRef (booked.nonneg d.nodeId (.fromId id)) fitsHere
    simp only [nodeRow_setPool] at rows
    rw [if_pos rfl, if_pos rfl]
    refine ⟨booked.targets, booked.refs, ?_, ?_⟩
    · intro n k
      rw [rows, lookup_insert_if, value.1]
      split
      · rfl
      · exact h.rows n k
    · intro n k
      rw [rows]
      split
      · exact bucket_setBucket_nonneg kind (h.nonneg _ _) value.2
      · exact h.nonneg n k

theorem Projects.projectRef_eq (h : Projects a b pr) (i : Nat)
    (target : b.refTarget d = .ok t) (named : d.id = some id) (supported : resolveRefKind d.kind = .ok kind) :
    a.projectRef pr i d = match bucketAfter (b.ledgerRefs t) kind d.delta with
      | .error bound => .error (batchFault i (bound.text "ref_count" kind))
      | .ok after =>
        let refs := pr.refs.insert t ((b.ledgerRefs t).setBucket kind after)
        if tracksNode d then
          match bucketAfter (b.nodeRow d.nodeId (.fromId id)) kind d.delta with
          | .error bound => .error (batchFault i (bound.text "node_ref" kind))
          | .ok after => .ok ⟨refs, pr.nodes.insert (d.nodeId, .fromId id)
              ((b.nodeRow d.nodeId (.fromId id)).setBucket kind after)⟩
        else .ok ⟨refs, pr.nodes⟩ := by
  rw [h.targets] at target
  unfold projectRef
  rw [h.refs, h.rows]
  simp only [target, named, supported]
  rfl

variable {i : Nat} {e : String}

theorem Projects.projectRef_ok {pr' : RefProjection B} (h : Projects a b pr)
    (ok : a.projectRef pr i d = .ok pr') : ∃ c, b.reportRef d = (c, .ok ()) ∧ Projects a c pr' := by
  cases target : b.refTarget d with
  | error e =>
    rw [h.targets] at target
    unfold projectRef at ok
    simp only [target] at ok
    cases ok
  | ok t =>
    obtain ⟨id, -, -, named, -⟩ := refTarget_eq_ok target
    cases supported : resolveRefKind d.kind with
    | error e =>
      rw [h.targets] at target
      unfold projectRef at ok
      simp only [target, named, supported] at ok
      cases ok
    | ok kind =>
      rw [h.projectRef_eq i target named supported] at ok
      cases fits : bucketAfter (b.ledgerRefs t) kind d.delta with
      | error bound =>
        rw [fits] at ok
        cases ok
      | ok after =>
        rw [fits] at ok
        dsimp only at ok
        cases tracked : tracksNode d with
        | false =>
          rw [tracked, if_neg Bool.false_ne_true] at ok
          obtain rfl := Except.ok.inj ok
          obtain ⟨c, reported, projects⟩ :=
            h.book ⟨target, named, supported, fits, fun on => absurd (tracked.symm.trans on) Bool.false_ne_true⟩
          rw [tracked, if_neg Bool.false_ne_true] at projects
          exact ⟨c, reported, projects⟩
        | true =>
          rw [tracked, if_pos rfl] at ok
          cases fitsRow : bucketAfter (b.nodeRow d.nodeId (.fromId id)) kind d.delta with
          | error bound =>
            rw [fitsRow] at ok
            cases ok
          | ok row =>
            rw [fitsRow] at ok
            obtain rfl := Except.ok.inj ok
            obtain ⟨c, reported, projects⟩ := h.book ⟨target, named, supported, fits, fun _ => ⟨row, fitsRow⟩⟩
            rw [tracked, if_pos rfl, ← (bucketAfter_eq_ok fitsRow).1] at projects
            exact ⟨c, reported, projects⟩

theorem Projects.projectRef_error (h : Projects a b pr)
    (error : a.projectRef pr i d = .error e) : (b.reportRef d).2 ≠ .ok () := by
  intro ok
  obtain ⟨t, id, kind, after, bookable⟩ := bookable_of_ok ok
  rw [h.projectRef_eq i bookable.target bookable.named bookable.supported, bookable.fits] at error
  dsimp only at error
  split at error
  next tracked =>
    obtain ⟨row, fitsRow⟩ := bookable.fitsNode tracked
    rw [fitsRow] at error
    cases error
  · cases error

variable {ds : List RefDelta}

theorem Projects.projectRefs_ok (h : Projects a b pr)
    (ok : a.projectRefs pr i ds = .ok ()) : ∃ c, b.reportEach ds = some c ∧ b.applyRefs ds = (c, .ok ()) := by
  induction ds generalizing b pr i with
  | nil => exact ⟨b, rfl, rfl⟩
  | cons d ds ih =>
    unfold projectRefs at ok
    split at ok
    · cases ok
    next pr' one =>
      obtain ⟨c, reported, projects⟩ := h.projectRef_ok one
      obtain ⟨last, each, applied⟩ := ih projects ok
      refine ⟨last, ?_, ?_⟩
      · unfold reportEach
        rw [reported]
        exact each
      · unfold applyRefs
        rw [reported]
        exact applied

theorem Projects.projectRefs_error
    (h : Projects a b pr) (error : a.projectRefs pr i ds = .error e) : b.reportEach ds = none := by
  induction ds generalizing b pr i with
  | nil => cases error
  | cons d ds ih =>
    unfold projectRefs at error
    unfold reportEach
    split at error
    next one =>
      have fails := h.projectRef_error one
      split
      next reported => exact absurd (congrArg Prod.snd reported) fails
      · rfl
    next pr' one =>
      obtain ⟨c, reported, projects⟩ := h.projectRef_ok one
      rw [reported]
      exact ih projects error

theorem reportRefs_spec (nonneg : a.RowsNonneg) (ds : List RefDelta) :
    (∀ b, a.reportEach ds = some b → a.reportRefs ds = (b, .ok ())) ∧
      (a.reportEach ds = none → ∃ text, a.reportRefs ds = (a, .error (.err text))) := by
  have start := Projects.start nonneg
  unfold reportRefs
  cases check : a.projectRefs ⟨∅, ∅⟩ 0 ds with
  | error e =>
    have none := start.projectRefs_error check
    refine ⟨fun b each => ?_, fun _ => ⟨e, rfl⟩⟩
    rw [none] at each
    cases each
  | ok u =>
    obtain ⟨c, each, applied⟩ := start.projectRefs_ok check
    refine ⟨fun b each' => ?_, fun fails => ?_⟩
    · obtain rfl := some.inj (each.symm.trans each')
      exact applied
    · rw [each] at fails
      cases fails

theorem RowsNonneg.congr (h : a.RowsNonneg) (refs : b.nodeRefs = a.nodeRefs) : b.RowsNonneg := by
  intro n k
  have same : b.nodeRow n k = a.nodeRow n k := by
    unfold nodeRow
    rw [refs]
  rw [same]
  exact h n k

theorem rowsNonneg_of_empty (empty : a.nodeRefs = ∅) : a.RowsNonneg := by
  intro n k
  have zero : a.nodeRow n k = .zero := by
    unfold nodeRow
    rw [empty]
    rfl
  rw [zero]
  exact ⟨le_rfl, le_rfl⟩

theorem RowsNonneg.reportEach (h : a.RowsNonneg) (each : a.reportEach ds = some b) : b.RowsNonneg := by
  induction ds generalizing a with
  | nil => exact some.inj each ▸ h
  | cons d ds ih =>
    unfold reportEach at each
    split at each
    next c reported =>
      obtain ⟨t, id, kind, after, bookable⟩ := bookable_of_ok (congrArg Prod.snd reported)
      obtain ⟨c', reported', projects⟩ := (Projects.start h).book bookable
      obtain ⟨rfl, -⟩ := Prod.mk.inj (reported.symm.trans reported')
      exact ih projects.nonneg each
    · cases each

theorem RowsNonneg.reportRefs (h : a.RowsNonneg) (ds : List RefDelta) : (a.reportRefs ds).1.RowsNonneg := by
  have spec := reportRefs_spec h ds
  cases each : a.reportEach ds with
  | none =>
    obtain ⟨text, eq⟩ := spec.2 each
    rw [eq]
    exact h
  | some b =>
    rw [spec.1 b each]
    exact h.reportEach each

/-- What an authority keeps beside its namespaces: the ledgers of the nodes and the orphan marks. -/
def aside (a : Authority B) : Map String (Map BlockKey RefAccounts) × Map BlockKey OrphanEntry :=
  (a.nodeRefs, a.orphans)

theorem aside_setPool (key : NamespaceKey) (pk : Int) (q : PoolView B) : (a.setPool key pk q).aside = a.aside := by
  unfold setPool
  split <;> rfl

theorem aside_reportRefRaw (a : Authority B) (d : RefDelta) : (a.reportRefRaw d false).1.aside = a.aside := by
  have applied : ∀ t id kind, (a.applyRef t id kind d false).1.aside = a.aside := by
    intro t id kind
    fun_cases applyRef a t id kind d false
    all_goals first | rfl | exact aside_setPool _ _ _
  unfold reportRefRaw
  split
  · rfl
  · rfl
  split
  · rfl
  rw [Bool.false_and, if_neg Bool.false_ne_true]
  exact applied _ _ _

theorem aside_clearRef (k : BlockKey) (kind : RefKind) (fuel : Nat) (a : Authority B) (remaining : Int) :
    (a.clearRef k kind fuel remaining).aside = a.aside := by
  induction fuel generalizing a remaining with
  | zero => rfl
  | succ fuel ih =>
    unfold clearRef
    split
    · rfl
    · rw [ih, aside_reportRefRaw]

theorem aside_clearHeld (held : Map BlockKey RefAccounts) (ks : List BlockKey) (a : Authority B) :
    (a.clearHeld held ks).aside = a.aside := by
  induction ks generalizing a with
  | nil => rfl
  | cons k ks ih =>
    unfold clearHeld
    dsimp only
    rw [ih]
    split
    · rfl
    · rw [clearRow, aside_clearRef, aside_clearRef]

theorem aside_stripNamespaces (n : String) (keys : List NamespaceKey) (a : Authority B) :
    (a.stripNamespaces n keys).1.aside = a.aside := by
  induction keys generalizing a with
  | nil => rfl
  | cons key keys ih =>
    unfold stripNamespaces
    split
    · exact ih a
    · exact ih _

theorem aside_reconcileDeadNode (hn : n.isEmpty = false) (a : Authority B) :
    (a.reconcileDeadNode n).1.aside = (a.nodeRefs.erase n, a.orphans) := by
  simp only [reconcileDeadNode, hn, false_eq_true, if_false]
  exact (aside_stripNamespaces _ _ _).trans (aside_clearHeld _ _ _)

section

variable (h : a.RowsNonneg)
include h

theorem RowsNonneg.reconcileDeadNode (nodeId : String) : (a.reconcileDeadNode nodeId).1.RowsNonneg := by
  cases hn : nodeId.isEmpty with
  | true =>
    rw [Authority.reconcileDeadNode, if_pos hn]
    exact h
  | false =>
    have refs := congrArg Prod.fst (a.aside_reconcileDeadNode hn)
    intro n k
    have row : (a.reconcileDeadNode nodeId).1.nodeRow n k = if n = nodeId then .zero else a.nodeRow n k := by
      unfold nodeRow
      rw [show (a.reconcileDeadNode nodeId).1.nodeRefs = _ from refs, lookup_erase_if]
      split <;> rfl
    rw [row]
    split
    · exact ⟨le_rfl, le_rfl⟩
    · exact h n k

theorem RowsNonneg.discardOne (id : KvBlockId) : (a.discardOne id).1.RowsNonneg := by
  unfold Authority.discardOne
  split
  · exact h
  dsimp only
  split
  · exact h
  split
  · exact h
  split
  · exact h.congr rfl
  split
  · exact h
  intro n k
  have row : ∀ (c : Authority B), c.nodeRefs = a.nodeRefs.mapVal (fun _ held => held.erase (.fromId id)) →
      c.nodeRow n k = if k = .fromId id then .zero else a.nodeRow n k := by
    intro c refs
    rw [nodeRow_eq, nodeRow_eq, refs, lookup_mapVal]
    cases a.nodeRefs.lookup n with
    | none =>
      split <;> rfl
    | some held =>
      rw [map_some, getD_some, getD_some, lookup_erase_if]
      split <;> rfl
  rw [row _ rfl]
  split
  · exact ⟨le_rfl, le_rfl⟩
  · exact h n k

theorem RowsNonneg.discardBlocks (ids : List KvBlockId) : (a.discardBlocks ids).1.RowsNonneg := by
  induction ids generalizing a with
  | nil => exact h
  | cons id ids ih =>
    have one := h.discardOne id
    unfold discardBlocks
    split
    next b e eq =>
      rw [eq] at one
      exact one
    next b removed eq =>
      rw [eq] at one
      have rest := ih one
      split
      next eq' =>
        rw [eq'] at rest
        exact rest
      next eq' =>
        rw [eq'] at rest
        exact rest

theorem RowsNonneg.step_of_not_ledger {op : Op} (kept : op.replaces = false)
    (no : ∀ key, ¬ Op.May (B := B) op key .ledger) : (a.step op).RowsNonneg :=
  h.congr ((step_run a kept).nodeRefs no)

theorem RowsNonneg.reconcileOrphans (now₁ now₂ : Nat) (req : ReconcileOrphansRequest) :
    (a.reconcileOrphans now₁ now₂ req).1.RowsNonneg := by
  rw [reconcileOrphans_calls]
  have each : ∀ op ∈ orphanCalls now₁ now₂ req, ∀ s : Authority B, s.RowsNonneg → (s.step op).RowsNonneg := by
    intro op mem s kept
    unfold orphanCalls at mem
    rcases mem_append.mp mem with mem | mem
    · rcases mem_append.mp mem with mem | mem
      · rcases mem_cons.mp mem with rfl | mem
        · exact kept.step_of_not_ledger rfl fun key no => by cases no
        · obtain rfl := List.mem_singleton.mp mem
          exact kept.step_of_not_ledger rfl fun key no => by cases no
      · split at mem
        · exact absurd mem not_mem_nil
        · obtain rfl := List.mem_singleton.mp mem
          exact kept.reconcileDeadNode _
    · split at mem
      · obtain rfl := List.mem_singleton.mp mem
        exact kept.step_of_not_ledger rfl fun key no => by cases no
      · exact absurd mem not_mem_nil
  revert each h
  generalize orphanCalls now₁ now₂ req = ops
  intro h each
  induction ops generalizing a with
  | nil => exact h
  | cons op ops ih =>
    exact ih (each op mem_cons_self a h) fun op' mem => each op' (mem_cons_of_mem _ mem)

theorem RowsNonneg.step (op : Op) : (a.step op).RowsNonneg := by
  cases op with
  | reportRefs ds => exact h.reportRefs ds
  | discardBlocks ids => exact h.discardBlocks ids
  | reconcileDeadNode node => exact h.reconcileDeadNode node
  | reconcileOrphans now₁ now₂ req => exact h.reconcileOrphans now₁ now₂ req
  | importSnapshot snap =>
    have run := importSnapshot_run a snap
    exact (rowsNonneg_of_empty rfl).congr (run.nodeRefs fun key no => by cases no with
      | importModel _ h => cases h
      | importRow _ _ h => cases h)
  | commitViewEvents =>
    refine h.congr ?_
    change (a.commitViewEvents).1.nodeRefs = _
    unfold commitViewEvents
    split <;> rfl
  | _ => exact h.step_of_not_ledger rfl fun key no => by cases no

end

theorem Reachable.rowsNonneg (h : Reachable a) : a.RowsNonneg := by
  refine Reach.invariant (I := RowsNonneg) ?_ (fun _ op kept _ => kept.step op) h
  rintro s ⟨cap, rfl⟩
  exact rowsNonneg_of_empty rfl

end Authority

def heldRun : List Op :=
  [.registerModel (sampleModel 0 0), .register "n" [[1]] [sampleMeta 1], .reportRefs [sampleRef 1 1 "n"]]

end LakeKv
