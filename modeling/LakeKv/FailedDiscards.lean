import LakeKv.FailedRestore
import LakeKv.RefBatches
import LakeKv.ViewExactness

namespace LakeKv

open BlockKey Entry Finmap Function List Option

variable {B : Backend}

def OrphanReport.mark (nowMs : Nat) (r : OrphanReport) (k : BlockKey) : OrphanEntry :=
  ⟨k.toId, r.nodeId, if r.markedAtMs = 0 then nowMs else r.markedAtMs⟩

def Entry.stripped (n : String) (e : Entry B) : Entry B :=
  { e with blockMeta := { e.blockMeta with
      locations := e.blockMeta.locations.filter fun l => ¬(l.tier = Tier.l0.toWire ∧ l.nodeId = n) } }

theorem Entry.stripped_eq_iff {n : String} {e : Entry B} :
    e.stripped n = e ↔ hasTierOn e.blockMeta.locations .l0 n = false := by
  obtain ⟨seq, ⟨id, kind, locations, l3, refs⟩, blockId, chain⟩ := e
  simp [stripped, hasTierOn, filter_eq_self, imp_iff_not_or]

theorem Entry.stripped_stripped (n : String) (e : Entry B) : (e.stripped n).stripped n = e.stripped n := by
  simp [stripped]

namespace PoolView

variable {key : NamespaceKey} {pk : Int} {n : String} (p : PoolView B)

theorem lookup_stripFlat (g f : Flat) : (stripFlat key pk n p g).1.byFlat.lookup f =
    if f = g then (p.byFlat.lookup f).map (stripped n) else p.byFlat.lookup f := by
  by_cases hf : f = g
  · subst hf
    rw [if_pos rfl]
    fun_cases stripFlat key pk n p f
    case case1 hnone => rw [hnone, map_none]
    case case2 e he hl0 =>
      rw [he, map_some, stripped_eq_iff.mpr (by simpa using hl0)]
    case case3 e he hl0 m =>
      rw [markAbsent_byFlat, setMeta, lookup_insert, he]
      rfl
  · rw [if_neg hf]
    fun_cases stripFlat key pk n p g
    case case3 e he hl0 m => rw [markAbsent_byFlat, setMeta, lookup_insert_of_ne _ hf]
    all_goals rfl

theorem lookup_stripFlats (fs : List Flat) (p : PoolView B) (f : Flat) : (stripFlats key pk n p fs).1.byFlat.lookup f =
    if f ∈ fs then (p.byFlat.lookup f).map (stripped n) else p.byFlat.lookup f := by
  induction fs generalizing p with
  | nil => simp [stripFlats]
  | cons g fs ih =>
    simp only [stripFlats, ih, lookup_stripFlat, mem_cons]
    by_cases hg : f = g
    · cases p.byFlat.lookup f <;> simp [hg, stripped_stripped]
    · simp [hg]

theorem lookup_stripNode (hB : B.Lawful) (p : PoolView B) (f : Flat) :
    (p.stripNode key pk n).1.byFlat.lookup f = (p.byFlat.lookup f).map (stripped n) := by
  refine (lookup_stripFlats _ p f).trans ?_
  split
  · rfl
  next hf =>
    rw [(hB.flatOrder _).2, Finmap.mem_keys] at hf
    rw [lookup_eq_none.mpr hf]
    rfl

theorem globalRefs_stripNode : (p.stripNode key pk n).1.globalRefs = p.globalRefs := by
  have hloop : ∀ (fs : List Flat) (p : PoolView B), (stripFlats key pk n p fs).1.globalRefs = p.globalRefs := by
    intro fs
    induction fs with
    | nil => exact fun _ => rfl
    | cons g fs ih =>
      intro p
      exact (ih _).trans (p.stripFlat_redescribes key pk n g).globalRefs
  exact hloop _ p

end PoolView

namespace Authority

variable {a b : Authority B}

def refs? (a : Authority B) (key : NamespaceKey) (pk : Int) (seq : B.Seq) : Option RefAccounts :=
  (a.pool? key pk).bind fun p => p.globalRefs.lookup seq

structure SameBlocks (a b : Authority B) : Prop where
  blocks : ∀ k, b.block? k = a.block? k
  refs : ∀ key pk seq, b.refs? key pk seq = a.refs? key pk seq
  nodeRefs : b.nodeRefs = a.nodeRefs
  orphans : b.orphans = a.orphans

theorem SameBlocks.refl (a : Authority B) : SameBlocks a a :=
  ⟨fun _ => rfl, fun _ _ _ => rfl, rfl, rfl⟩

theorem SameBlocks.symm (h : SameBlocks a b) : SameBlocks b a :=
  ⟨fun k => (h.blocks k).symm, fun key pk seq => (h.refs key pk seq).symm, h.nodeRefs.symm, h.orphans.symm⟩

theorem SameBlocks.trans {c : Authority B} (h : SameBlocks a b) (h' : SameBlocks b c) : SameBlocks a c :=
  ⟨fun k => (h'.blocks k).trans (h.blocks k), fun key pk seq => (h'.refs key pk seq).trans (h.refs key pk seq),
    h'.nodeRefs.trans h.nodeRefs, h'.orphans.trans h.orphans⟩

section Discard

variable {id : KvBlockId} {c : Authority B}

def Inert (a : Authority B) (id : KvBlockId) : Prop :=
  ∀ pk p, resolvePoolKind id.poolKind = .ok pk → a.pool? (.fromId id) pk = some p →
    id.blockHash ∉ p.byFlat ∧ BlockKey.fromId id ∉ a.orphans

/-- Nothing is found to discard in front of the first id that is refused. -/
def StopsFirst (a : Authority B) : List KvBlockId → Prop
  | [] => True
  | id :: ids => a.Refuses id ∨ a.Inert id ∧ a.StopsFirst ids

structure Fewer (a b : Authority B) : Prop where
  view : ∀ k, a.view k = none → b.view k = none
  orphans : ∀ k, k ∉ a.orphans → k ∉ b.orphans

theorem Fewer.trans (h : Fewer a b) (h' : Fewer b c) : Fewer a c :=
  ⟨fun k hk => h'.view k (h.view k hk), fun k hk => h'.orphans k (h.orphans k hk)⟩

def Loses (a b : Authority B) : Prop :=
  ∃ k, (a.view k ≠ none ∧ b.view k = none) ∨ (k ∈ a.orphans ∧ k ∉ b.orphans)

theorem Loses.of_fewer (h : Loses a b) (hbc : Fewer b c) : Loses a c := by
  obtain ⟨k, ⟨hk, hgone⟩ | ⟨hk, hgone⟩⟩ := h
  · exact ⟨k, .inl ⟨hk, hbc.view k hgone⟩⟩
  · exact ⟨k, .inr ⟨hk, hbc.orphans k hgone⟩⟩

theorem SameBlocks.not_loses (h : SameBlocks a b) : ¬Loses a b := by
  rintro ⟨k, ⟨hk, hgone⟩ | ⟨hk, hgone⟩⟩
  · refine hk ?_
    rw [← hgone, view, view, h.blocks]
  · rw [h.orphans] at hgone
    exact hgone hk

theorem orphans_discardOne (a : Authority B) (id : KvBlockId) (k : BlockKey) (hk : k ∉ a.orphans) :
    k ∉ (a.discardOne id).1.orphans := by
  have herase : k ∉ a.orphans.erase (.fromId id) := fun hmem => hk (mem_erase.mp hmem).2
  fun_cases discardOne a id
  case case4 | case6 => exact herase
  all_goals exact hk

theorem discardOne_fewer (a : Authority B) (id : KvBlockId) : Fewer a (a.discardOne id).1 := by
  refine ⟨fun k hk => ?_, orphans_discardOne a id⟩
  rcases discardOne_cases a id with ⟨-, e, heq⟩ | ⟨-, -, -, hsame⟩ | ⟨-, -, -, -, hview, -⟩
  · rw [heq]
    exact hk
  · rw [view_congr hsame.namespaces]
    exact hk
  · rw [hview, update_apply]
    split
    · rfl
    · exact hk

theorem discardOne_of_unregistered {pk : Int} (hpk : resolvePoolKind id.poolKind = .ok pk)
    (hout : ∀ p, a.pool? (.fromId id) pk = some p → id.blockHash ∉ p.byFlat) :
    a.discardOne id = (if (a.pool? (.fromId id) pk).isSome then { a with orphans := a.orphans.erase (.fromId id) }
      else a, .ok false) := by
  simp only [discardOne, hpk]
  cases hns : a.namespaces.lookup (.fromId id) with
  | none => simp [pool?, hns]
  | some ns =>
    cases hp : ns.pools.lookup pk with
    | none => simp [pool?, hns, hp]
    | some p =>
      have hpool : a.pool? (.fromId id) pk = some p := pool?_eq_some.mpr ⟨ns, hns, hp⟩
      simp [hp, hpool, lookup_eq_none.mpr (hout p hpool)]

theorem discardOne_of_inert (h : ¬a.Refuses id) (hinert : a.Inert id) : a.discardOne id = (a, .ok false) := by
  cases hpk : resolvePoolKind id.poolKind with
  | error e => exact absurd (.inl ⟨e, hpk⟩) h
  | ok pk =>
    rw [discardOne_of_unregistered hpk fun p hp => (hinert pk p hpk hp).1]
    cases hp : a.pool? (.fromId id) pk with
    | none => rfl
    | some p =>
      rw [erase_of_notMem (hinert pk p hpk hp).2]
      rfl

theorem discardOne_loses (h : ¬a.Refuses id) (hinert : ¬a.Inert id) : Loses a (a.discardOne id).1 := by
  rcases discardOne_cases a id with ⟨hr, -⟩ | ⟨-, hheld, -, -⟩ | ⟨-, hheld, -, -, hview, -⟩
  · exact absurd hr h
  · -- The block is not registered, so that its mark is what is lost.
    have hout : ∀ pk p, resolvePoolKind id.poolKind = .ok pk → a.pool? (.fromId id) pk = some p →
        id.blockHash ∉ p.byFlat := by
      intro pk p hpk hp hmem
      obtain ⟨e, he⟩ := mem_iff.mp hmem
      rw [fromId_of_resolve hpk] at hheld
      have hpool : a.pool? (BlockKey.ns ⟨id.modelId, id.revision, pk, id.blockHash⟩) pk = some p := hp
      simp [held?, hpool, he] at hheld
    have hmark : fromId id ∈ a.orphans := by
      by_contra hmark
      exact hinert fun pk p hpk hp => ⟨hout pk p hpk hp, hmark⟩
    obtain ⟨pk, p, hpk, hp⟩ : ∃ pk p, resolvePoolKind id.poolKind = .ok pk ∧ a.pool? (.fromId id) pk = some p := by
      by_contra hnone
      exact hinert fun pk p hpk hp => absurd ⟨pk, p, hpk, hp⟩ hnone
    refine ⟨.fromId id, .inr ⟨hmark, ?_⟩⟩
    rw [discardOne_of_unregistered hpk fun p => hout pk p hpk, hp]
    exact fun hmem => (mem_erase.mp hmem).1 rfl
  · refine ⟨.fromId id, .inl ⟨?_, ?_⟩⟩
    · rw [ne_none_iff_isSome, view_isSome_iff, hheld]
      rfl
    · rw [hview, update_self]

theorem discardBlocks_fewer (a : Authority B) (ids : List KvBlockId) : Fewer a (a.discardBlocks ids).1 := by
  induction ids generalizing a with
  | nil => exact ⟨fun _ hk => hk, fun _ hk => hk⟩
  | cons id ids ih =>
    rw [discardBlocks_cons]
    split
    · exact a.discardOne_fewer id
    · exact (a.discardOne_fewer id).trans (ih _)

theorem discardBlocks_same_iff {ids : List KvBlockId} {e : Fault} (h : (a.discardBlocks ids).2 = .error e) :
    SameBlocks a (a.discardBlocks ids).1 ↔ a.StopsFirst ids := by
  induction ids generalizing a with
  | nil => cases h
  | cons id ids ih =>
    by_cases hr : a.Refuses id
    · rcases discardOne_cases a id with ⟨-, e, heq⟩ | ⟨hnot, -⟩ | ⟨hnot, -⟩
      · rw [discardBlocks_cons, heq]
        exact iff_of_true (.refl a) (.inl hr)
      · exact absurd hr hnot
      · exact absurd hr hnot
    by_cases hi : a.Inert id
    · have hone := discardOne_of_inert hr hi
      have hrest : (a.discardBlocks ids).2 = .error e := by
        rw [discardBlocks, hone] at h
        dsimp only at h
        split at h
        next heq => rwa [heq]
        · cases h
      rw [discardBlocks_cons, hone]
      refine (ih hrest).trans ⟨fun hstops => .inr ⟨hi, hstops⟩, ?_⟩
      rintro (hr' | ⟨-, hstops⟩)
      · exact absurd hr' hr
      · exact hstops
    · refine iff_of_false (fun hsame => hsame.not_loses ?_) ?_
      · rw [discardBlocks_cons]
        split
        · exact discardOne_loses hr hi
        · exact (discardOne_loses hr hi).of_fewer (discardBlocks_fewer _ ids)
      · rintro (hr' | ⟨hi', -⟩)
        · exact hr hr'
        · exact hi hi'

end Discard

section Reconcile

variable {now₁ now₂ : Nat} {req : ReconcileOrphansRequest}

theorem blockInView_congr (h : b.namespaces = a.namespaces) (k : BlockKey) : b.blockInView k = a.blockInView k := by
  unfold blockInView
  simp only [pool?_congr h]

/-- What the last report of a block says of it; the mark it has if no report names it. -/
def markAfter (a : Authority B) (nowMs : Nat) (reports : List OrphanReport) (k : BlockKey) : Option OrphanEntry :=
  (reports.reverse.find? fun r => decide (k ∈ r.ids.map BlockKey.fromId)).elim (a.orphans.lookup k) fun r =>
    if a.blockInView k then none else some (r.mark nowMs k)

theorem reportOrphan_spec (now : Nat) (r : OrphanReport) (a : Authority B) (id : KvBlockId) (k : BlockKey) :
    (reportOrphan now r a id).namespaces = a.namespaces ∧ (reportOrphan now r a id).orphans.lookup k =
      if k = .fromId id then if a.blockInView k then none else some (r.mark now k) else a.orphans.lookup k := by
  unfold reportOrphan
  dsimp only
  split
  next hview =>
    refine ⟨rfl, ?_⟩
    rw [lookup_erase_if]
    by_cases hk : k = .fromId id <;> simp [hk, hview]
  next hview =>
    refine ⟨rfl, ?_⟩
    rw [lookup_insert_if]
    by_cases hk : k = .fromId id <;> simp [hk, hview, OrphanReport.mark]

theorem foldl_reportOrphan (r : OrphanReport) (ids : List KvBlockId) (a : Authority B) (k : BlockKey) :
    (ids.foldl (reportOrphan now₁ r) a).orphans.lookup k = if k ∈ ids.map fromId then
      if a.blockInView k then none else some (r.mark now₁ k) else a.orphans.lookup k := by
  induction ids generalizing a with
  | nil => simp
  | cons id ids ih =>
    obtain ⟨hns, hlook⟩ := reportOrphan_spec now₁ r a id k
    rw [foldl_cons, ih, hlook, blockInView_congr hns]
    by_cases hk : k = .fromId id
    · simp [hk]
    · simp [hk]

theorem lookup_reportOrphans (a : Authority B) (reports : List OrphanReport) (k : BlockKey) :
    (a.reportOrphans now₁ reports).orphans.lookup k = a.markAfter now₁ reports k := by
  induction reports using List.reverseRecOn with
  | nil => rfl
  | append_singleton reports r ih =>
    have hrun : Run (fun _ _ => False) a (a.reportOrphans now₁ reports) := reportOrphans_run a now₁ reports
    have hns := hrun.namespaces_eq
    have hlast : a.reportOrphans now₁ (reports ++ [r]) =
        r.ids.foldl (reportOrphan now₁ r) (a.reportOrphans now₁ reports) := by
      unfold reportOrphans
      rw [foldl_append]
      rfl
    rw [hlast, foldl_reportOrphan, ih, blockInView_congr hns]
    unfold markAfter
    rw [reverse_append, reverse_singleton, singleton_append, find?_cons]
    by_cases hk : k ∈ r.ids.map fromId
    · rw [if_pos hk, decide_eq_true hk]
      rfl
    · rw [if_neg hk, decide_eq_false hk]

/-- The marks that go with an expired one: its own, and that under the pool kind it stands for. -/
def clears (a : Authority B) (k x : BlockKey) : Bool :=
  x = k || (x = .fromId k.toId && !a.blockInView k && ((resolvePoolKind k.poolKind).toOption.bind (a.pool? k.ns)).isSome)

theorem orphans_discardOne_stray {k : BlockKey} (h : a.blockInView k = false) (x : BlockKey) :
    ((a.discardOne k.toId).1.orphans.erase k).lookup x = if a.clears k x then none else a.orphans.lookup x := by
  rw [lookup_erase_if]
  cases hpk : resolvePoolKind k.poolKind with
  | error e =>
    have hid : resolvePoolKind k.toId.poolKind = .error e := hpk
    simp [clears, discardOne, hpk, hid, Except.toOption]
  | ok pk =>
    have hout : ∀ p, a.pool? (.fromId k.toId) pk = some p → k.toId.blockHash ∉ p.byFlat := by
      intro p hp hmem
      have hpool : a.pool? k.ns pk = some p := hp
      have hin : k.flat ∈ p.byFlat := hmem
      simp [blockInView, hpk, hpool, hin] at h
    rw [discardOne_of_unregistered hpk hout]
    have hpool : a.pool? (.fromId k.toId) pk = a.pool? k.ns pk := rfl
    rw [hpool]
    simp only [clears, hpk, h, Except.toOption, bind_some]
    cases hp : a.pool? k.ns pk with
    | none => simp
    | some p =>
      simp only [isSome_some, if_true, lookup_erase_if]
      by_cases hx : x = k <;> by_cases hx' : x = .fromId k.toId <;> simp [hx, hx']

theorem lookup_sweepOrphan (a : Authority B) (k x : BlockKey) :
    (a.sweepOrphan k).1.orphans.lookup x = if a.clears k x then none else a.orphans.lookup x := by
  unfold sweepOrphan
  split
  next hview =>
    rw [lookup_erase_if]
    simp [clears, hview]
  next hview =>
    have hout : a.blockInView k = false := by simpa using hview
    split
    next heq => exact absurd (by rw [heq]) (discardOne_of_not_blockInView hout).2
    next heq =>
      have hstray := orphans_discardOne_stray hout x
      rwa [heq] at hstray

theorem lookup_sweepExpired (ks : List BlockKey) (a : Authority B) (x : BlockKey) :
    (a.sweepExpired ks).1.orphans.lookup x = if ks.any (a.clears · x) then none else a.orphans.lookup x := by
  induction ks generalizing a with
  | nil => rfl
  | cons k ks ih =>
    have hrun : Run (fun _ _ => False) a (a.sweepOrphan k).1 := sweepOrphan_run a k
    have hns := hrun.namespaces_eq
    have hclears : ∀ y, (a.sweepOrphan k).1.clears y x = a.clears y x := by
      intro y
      simp only [clears, blockInView_congr hns, funext (pool?_congr hns y.ns)]
    simp only [sweepExpired, ih, hclears, lookup_sweepOrphan, any_cons]
    by_cases hk : a.clears k x <;> simp [hk]

/-- The mark of a block has expired when the sweep comes to it, or a mark has that is cleared with it. -/
def Swept (a : Authority B) (now₁ now₂ : Nat) (req : ReconcileOrphansRequest) (x : BlockKey) : Prop :=
  ∃ k m, a.markAfter now₁ req.reports k = some m ∧
    (if req.orphanTtlMs = 0 then defaultOrphanTtlMs else req.orphanTtlMs) ≤ now₂ - m.markedAtMs ∧ a.clears k x = true

def reaped (a : Authority B) (now₁ now₂ : Nat) (req : ReconcileOrphansRequest) : Authority B :=
  ((a.reportOrphans now₁ req.reports).sweepOrphans now₂ req.orphanTtlMs).1

theorem reaped_run (a : Authority B) : Run (fun _ _ => False) a (a.reaped now₁ now₂ req) :=
  (reportOrphans_run a now₁ req.reports).trans (sweepOrphans_run _ now₂ req.orphanTtlMs)

theorem lookup_reaped (hB : B.Lawful) (a : Authority B) (x : BlockKey) :
    (a.Swept now₁ now₂ req x → (a.reaped now₁ now₂ req).orphans.lookup x = none) ∧
      (¬a.Swept now₁ now₂ req x → (a.reaped now₁ now₂ req).orphans.lookup x = a.markAfter now₁ req.reports x) := by
  have hrun : Run (fun _ _ => False) a (a.reportOrphans now₁ req.reports) := reportOrphans_run a now₁ req.reports
  have hns := hrun.namespaces_eq
  have hclears : ∀ k, (a.reportOrphans now₁ req.reports).clears k x = a.clears k x := by
    intro k
    simp only [clears, blockInView_congr hns, funext (pool?_congr hns k.ns)]
  have hmem : ∀ k, k ∈ B.blockOrder (a.reportOrphans now₁ req.reports).orphans.keys ↔
      ∃ m, a.markAfter now₁ req.reports k = some m := by
    intro k
    rw [(hB.blockOrder _).2, Finmap.mem_keys, mem_iff, lookup_reportOrphans]
  have hlook : (a.reaped now₁ now₂ req).orphans.lookup x = _ := lookup_sweepExpired _ _ x
  unfold Swept
  generalize (if req.orphanTtlMs = 0 then defaultOrphanTtlMs else req.orphanTtlMs) = ttl at hlook ⊢
  rw [hlook]
  split
  next hany =>
    obtain ⟨k, hk, hx⟩ := List.any_eq_true.mp hany
    obtain ⟨hk, hold⟩ := mem_filter.mp hk
    obtain ⟨m, hm⟩ := (hmem k).mp hk
    rw [lookup_reportOrphans, hm] at hold
    exact ⟨fun _ => rfl, fun hnot => absurd ⟨k, m, hm, of_decide_eq_true hold, (hclears k).symm.trans hx⟩ hnot⟩
  next hany =>
    refine ⟨?_, fun _ => lookup_reportOrphans a _ x⟩
    rintro ⟨k, m, hm, hold, hx⟩
    refine absurd (List.any_eq_true.mpr ⟨k, mem_filter.mpr ⟨(hmem k).mpr ⟨m, hm⟩, ?_⟩, (hclears k).trans hx⟩) hany
    rw [lookup_reportOrphans, hm]
    exact decide_eq_true hold

variable {e : Fault}

theorem gcCold_error {m r : String} {raw : Int} {n : Nat} (h : (a.gcCold m r raw n).2 = .error e) :
    (a.gcCold m r raw n).1 = a := by
  revert h
  fun_cases gcCold a m r raw n
  case case2 | case3 => exact fun _ => rfl
  all_goals rintro ⟨⟩

theorem reconcileOrphans_error (h : (a.reconcileOrphans now₁ now₂ req).2 = .error e) :
    (a.reconcileOrphans now₁ now₂ req).1 = if req.deadNodeId.isEmpty then a.reaped now₁ now₂ req
      else ((a.reaped now₁ now₂ req).reconcileDeadNode req.deadNodeId).1 := by
  have hgc : ∀ {b b' : Authority B} {m r raw n e}, b.gcCold m r raw n = (b', .error e) → b' = b := by
    intro b b' m r raw n e heq
    have hsame := gcCold_error (congrArg Prod.snd heq)
    rwa [heq] at hsame
  revert h
  fun_cases reconcileOrphans a now₁ now₂ req
  case case1 swept dead a' e hdead =>
    intro _
    change _ = if _ then swept.1 else (swept.1.reconcileDeadNode req.deadNodeId).1
    rw [← congrArg Prod.fst hdead]
    exact apply_ite Prod.fst _ _ _
  case case2 swept dead a' n ids hdead hcold a'' e hgcold =>
    intro _
    change _ = if _ then swept.1 else (swept.1.reconcileDeadNode req.deadNodeId).1
    rw [hgc hgcold, ← congrArg Prod.fst hdead]
    exact apply_ite Prod.fst _ _ _
  all_goals rintro ⟨⟩

/-- A request that changes nothing before its cold GC: a mark that expires was not there before, the reports say what
is marked already, and the dead node holds no reference and no copy in L0. -/
structure Unaltered (a : Authority B) (now₁ now₂ : Nat) (req : ReconcileOrphansRequest) : Prop where
  swept : ∀ k, a.Swept now₁ now₂ req k → k ∉ a.orphans
  marks : ∀ k, ¬a.Swept now₁ now₂ req k → a.markAfter now₁ req.reports k = a.orphans.lookup k
  refs : req.deadNodeId.isEmpty = false → req.deadNodeId ∉ a.nodeRefs
  copies : req.deadNodeId.isEmpty = false → ∀ k e, a.block? k = some e →
    hasTierOn e.blockMeta.locations .l0 req.deadNodeId = false

def released (a : Authority B) (n : String) : Authority B :=
  let held := (a.nodeRefs.lookup n).getD ∅
  { a with nodeRefs := a.nodeRefs.erase n }.clearHeld held (B.blockOrder held.keys)

section

variable (hB : B.Lawful)
include hB

theorem released_of_notMem {n : String} (h : n ∉ a.nodeRefs) : (a.released n).namespaces = a.namespaces := by
  have hnone : B.blockOrder (∅ : Map BlockKey RefAccounts).keys = [] :=
    eq_nil_iff_forall_not_mem.mpr fun k hk => Finset.notMem_empty k (((hB.blockOrder _).2 k).mp hk)
  unfold released
  dsimp only
  rw [lookup_eq_none.mpr h, getD_none, hnone]
  rfl

theorem pool?_reconcileDeadNode {n : String} (hn : n.isEmpty = false) (a : Authority B)
    (key : NamespaceKey) (pk : Int) : (a.reconcileDeadNode n).1.pool? key pk =
      ((a.released n).pool? key pk).map fun p => (p.stripNode key pk n).1 := by
  rw [← pool?_stripNamespaces hB]
  unfold reconcileDeadNode
  rw [if_neg (by simp [hn])]
  rfl

theorem block?_reconcileDeadNode {n : String} (hn : n.isEmpty = false) (a : Authority B) (k : BlockKey) :
    (a.reconcileDeadNode n).1.block? k = ((a.released n).block? k).map (stripped n) := by
  simp only [block?, pool?_reconcileDeadNode hB hn]
  cases (a.released n).pool? k.ns k.poolKind with
  | none => rfl
  | some p => exact PoolView.lookup_stripNode hB p k.flat

theorem refs?_reconcileDeadNode {n : String} (hn : n.isEmpty = false) (a : Authority B)
    (key : NamespaceKey) (pk : Int) (seq : B.Seq) :
    (a.reconcileDeadNode n).1.refs? key pk seq = (a.released n).refs? key pk seq := by
  simp only [refs?, pool?_reconcileDeadNode hB hn]
  cases (a.released n).pool? key pk with
  | none => rfl
  | some p => exact congrArg (·.lookup seq) (PoolView.globalRefs_stripNode p)

theorem reconcileDeadNode_same_iff {n : String} (hn : n.isEmpty = false) (a : Authority B) :
    SameBlocks a (a.reconcileDeadNode n).1 ↔
      n ∉ a.nodeRefs ∧ ∀ k e, a.block? k = some e → hasTierOn e.blockMeta.locations .l0 n = false := by
  have haside := a.aside_reconcileDeadNode hn
  constructor
  · intro hsame
    refine ⟨fun hn' => ?_, fun k e he => ?_⟩
    · have herase : a.nodeRefs.erase n = a.nodeRefs := (congrArg Prod.fst haside).symm.trans hsame.nodeRefs
      rw [← herase] at hn'
      exact notMem_erase_self hn'
    · have hblock := hsame.blocks k
      rw [block?_reconcileDeadNode hB hn, he] at hblock
      obtain ⟨e', -, rfl⟩ := map_eq_some_iff.mp hblock
      exact stripped_eq_iff.mp (stripped_stripped n e')
  · rintro ⟨hrefs, hcopies⟩
    have hns := released_of_notMem hB hrefs
    refine ⟨fun k => ?_, fun key pk seq => ?_, ?_, congrArg Prod.snd haside⟩
    · have hblock : (a.released n).block? k = a.block? k := by rw [block?, block?, pool?_congr hns]
      rw [block?_reconcileDeadNode hB hn, hblock]
      cases he : a.block? k with
      | none => rfl
      | some e => exact congrArg some (stripped_eq_iff.mpr (hcopies k e he))
    · rw [refs?_reconcileDeadNode hB hn, refs?, refs?, pool?_congr hns]
    · exact (congrArg Prod.fst haside).trans (erase_of_notMem hrefs)

end

theorem reaped_same (h : (a.reaped now₁ now₂ req).orphans = a.orphans) : SameBlocks a (a.reaped now₁ now₂ req) := by
  have hns : (a.reaped now₁ now₂ req).namespaces = a.namespaces := a.reaped_run.namespaces_eq
  refine ⟨fun k => ?_, fun key pk seq => ?_, a.reaped_run.nodeRefs fun _ => not_false, h⟩
  · rw [block?, block?, pool?_congr hns]
  · rw [refs?, refs?, pool?_congr hns]

theorem reaped_same_iff (hB : B.Lawful) (a : Authority B) : SameBlocks a (a.reaped now₁ now₂ req) ↔
    (∀ k, a.Swept now₁ now₂ req k → k ∉ a.orphans) ∧
      ∀ k, ¬a.Swept now₁ now₂ req k → a.markAfter now₁ req.reports k = a.orphans.lookup k := by
  constructor
  · intro hsame
    have hlook : ∀ k, a.orphans.lookup k = (a.reaped now₁ now₂ req).orphans.lookup k :=
      fun k => congrArg (·.lookup k) hsame.orphans.symm
    exact ⟨fun k hk => lookup_eq_none.mp ((hlook k).trans ((lookup_reaped hB a k).1 hk)),
      fun k hk => ((hlook k).trans ((lookup_reaped hB a k).2 hk)).symm⟩
  · rintro ⟨hswept, hmarks⟩
    refine reaped_same (ext_lookup fun k => ?_)
    by_cases hk : a.Swept now₁ now₂ req k
    · rw [(lookup_reaped hB a k).1 hk, lookup_eq_none.mpr (hswept k hk)]
    · rw [(lookup_reaped hB a k).2 hk, hmarks k hk]

theorem reconcileOrphans_same_iff (hB : B.Lawful) (h : (a.reconcileOrphans now₁ now₂ req).2 = .error e) :
    SameBlocks a (a.reconcileOrphans now₁ now₂ req).1 ↔ a.Unaltered now₁ now₂ req := by
  rw [reconcileOrphans_error h]
  cases hn : req.deadNodeId.isEmpty with
  | true =>
    rw [if_pos rfl, reaped_same_iff hB]
    exact ⟨fun ⟨hswept, hmarks⟩ => ⟨hswept, hmarks, by simp [hn], by simp [hn]⟩, fun hun => ⟨hun.swept, hun.marks⟩⟩
  | false =>
    rw [if_neg Bool.false_ne_true]
    have hdead := reconcileDeadNode_same_iff hB hn (a.reaped now₁ now₂ req)
    constructor
    · intro hsame
      have horphans := congrArg Prod.snd ((a.reaped now₁ now₂ req).aside_reconcileDeadNode hn)
      have hreaped := reaped_same (horphans.symm.trans hsame.orphans)
      obtain ⟨hswept, hmarks⟩ := (reaped_same_iff hB a).mp hreaped
      obtain ⟨hrefs, hcopies⟩ := hdead.mp (hreaped.symm.trans hsame)
      rw [hreaped.nodeRefs] at hrefs
      exact ⟨hswept, hmarks, fun _ => hrefs, fun _ k e he => hcopies k e ((hreaped.blocks k).trans he)⟩
    · intro hun
      have hreaped := (reaped_same_iff hB a).mpr ⟨hun.swept, hun.marks⟩
      refine hreaped.trans (hdead.mpr ⟨?_, fun k e he => hun.copies hn k e ((hreaped.blocks k).symm.trans he)⟩)
      rw [hreaped.nodeRefs]
      exact hun.refs hn

end Reconcile

/-- What `discard_blocks` and `reconcile_orphans` leave behind when they fail: the state before the call exactly if
nothing was there to change in front of the id, or of the cold GC, that is refused. -/
theorem failed_calls_unchanged_iff (hB : B.Lawful) (a : Authority B) :
    (∀ ids e, (a.discardBlocks ids).2 = .error e → (SameBlocks a (a.discardBlocks ids).1 ↔ a.StopsFirst ids)) ∧
      ∀ now₁ now₂ req e, (a.reconcileOrphans now₁ now₂ req).2 = .error e →
        (SameBlocks a (a.reconcileOrphans now₁ now₂ req).1 ↔ a.Unaltered now₁ now₂ req) :=
  ⟨fun _ _ h => discardBlocks_same_iff h, fun _ _ _ _ h => reconcileOrphans_same_iff hB h⟩

def heldRun : List Op :=
  [.registerModel (sampleModel 0 0), .register "n" [[1]] [{ sampleMeta 1 with locations := [sampleLocation .l0 "n"] }],
    .register "n" [[2]] [sampleMeta 2], .reportRefs [sampleRef 2 1 "n"]]

def deadNodeRequest (n : String) : ReconcileOrphansRequest :=
  ⟨[], n, 0, "unknown", "r", poolTarget, 1⟩

theorem failed_calls_unchanged_in_front : (sampleRun heldRun).Reachable ∧
    ((sampleRun heldRun).discardBlocks [sampleId 2, sampleId 1]).2 =
      .error (.err "DiscardBlocks: block has global_refs > 0") ∧
    SameBlocks (sampleRun heldRun) ((sampleRun heldRun).discardBlocks [sampleId 2, sampleId 1]).1 ∧
    ((sampleRun heldRun).reconcileOrphans 0 0 (deadNodeRequest "")).2 =
      .error (unknownNamespace "gc_cold: " ⟨"unknown", "r"⟩) ∧
    SameBlocks (sampleRun heldRun) ((sampleRun heldRun).reconcileOrphans 0 0 (deadNodeRequest "")).1 := by
  obtain ⟨hdiscard, hreconcile⟩ := failed_calls_unchanged_iff sampleBackend_lawful (sampleRun heldRun)
  have hrefused : ((sampleRun heldRun).discardBlocks [sampleId 2, sampleId 1]).2 =
      .error (.err "DiscardBlocks: block has global_refs > 0") := by decide
  have hunknown : ((sampleRun heldRun).reconcileOrphans 0 0 (deadNodeRequest "")).2 =
      .error (unknownNamespace "gc_cold: " ⟨"unknown", "r"⟩) := rfl
  refine ⟨sampleRun_reachable _, hrefused, (hdiscard _ _ hrefused).mpr (.inl (.inr (by decide))), hunknown,
    (hreconcile _ _ _ _ hunknown).mpr ⟨?_, fun _ _ => rfl, nofun, nofun⟩⟩
  -- No block is marked, so no mark expires.
  rintro k ⟨x, m, hm, -⟩
  have hempty : (sampleRun heldRun).orphans = ∅ := by decide
  have hmark : (sampleRun heldRun).orphans.lookup x = some m := hm
  rw [hempty, lookup_empty] at hmark
  cases hmark

/-- The id in front of the referenced one is gone for good, and the copy on the dead node too. -/
theorem failed_calls_lose_blocks : (sampleRun heldRun).Reachable ∧
    ((sampleRun heldRun).discardBlocks [sampleId 1, sampleId 2]).2.isOk = false ∧
      ((sampleRun heldRun).block? (.fromId (sampleId 1))).isSome = true ∧
      (((sampleRun heldRun).discardBlocks [sampleId 1, sampleId 2]).1.block? (.fromId (sampleId 1))).isSome = false ∧
    ((sampleRun heldRun).reconcileOrphans 0 0 (deadNodeRequest "n")).2.isOk = false ∧
      ((sampleRun heldRun).block? (.fromId (sampleId 1))).map (·.blockMeta.locations) =
        some [sampleLocation .l0 "n"] ∧
      (((sampleRun heldRun).reconcileOrphans 0 0 (deadNodeRequest "n")).1.block? (.fromId (sampleId 1))).map
        (·.blockMeta.locations) = some [] := by
  refine ⟨sampleRun_reachable _, ?_⟩
  decide

end Authority

end LakeKv
