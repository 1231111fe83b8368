import LakeKv.MooncakeTasks

namespace LakeKv

open Finmap Function List Mooncake TaskRecord

/-! What ties the handles a backend tracks to the rows of the ledger, along every run of its calls. -/

/-- A group that a restart is to pick up: a running row, and as many rows as the plan computed anew. -/
def Restorable (S : BackendSite) (ledger : List TaskRecord) (handleId : String) : Prop :=
  ∃ r ∈ ledger, r.handleId = handleId ∧ r.status = .running ∧
    ∃ plan, S.recompute ⟨r.modelId, r.tokenIds⟩ r.target = .ok plan ∧
      (listTasksByHandle ledger handleId).length = plan.length

section Rows

variable {ledger : List TaskRecord} {ids : List String} {status : TaskRowStatus} {id : String} {r : TaskRecord}

theorem marked_of_notMem (out : r.taskId ∉ ids) : r.marked ids status = r := if_neg out

theorem marked_status_of_mem (mem : r.taskId ∈ ids) : (r.marked ids status).status = status := by
  rw [marked, if_pos mem]

theorem map_taskId_marked (ledger : List TaskRecord) :
    (ledger.map (marked ids status)).map taskId = ledger.map taskId := by
  rw [map_map]
  exact map_congr_left fun r _ => marked_taskId ids r

theorem listTasksByHandle_marked (ledger : List TaskRecord) (id : String) :
    listTasksByHandle (ledger.map (marked ids status)) id = (listTasksByHandle ledger id).map (marked ids status) := by
  unfold listTasksByHandle
  rw [filter_map]
  refine congrArg _ (filter_congr fun r _ => ?_)
  simp only [comp, marked_handleId]

theorem mem_listTasksByHandle : r ∈ listTasksByHandle ledger id ↔ r ∈ ledger ∧ r.handleId = id := by
  simp only [listTasksByHandle, mem_filter, decide_eq_true_eq]

theorem listTasksByHandle_marked_of_ne {other : String} (nodup : (ledger.map taskId).Nodup)
    (inside : ∀ t ∈ ids, ∃ r ∈ ledger, r.taskId = t ∧ r.handleId = id) (ne : other ≠ id) :
    listTasksByHandle (ledger.map (marked ids status)) other = listTasksByHandle ledger other := by
  rw [listTasksByHandle_marked]
  conv_rhs => rw [← map_id (listTasksByHandle ledger other)]
  refine map_congr_left fun r mem => ?_
  obtain ⟨rMem, rGroup⟩ := mem_listTasksByHandle.mp mem
  refine marked_of_notMem fun marked => ne ?_
  obtain ⟨r', mem', same, group⟩ := inside r.taskId marked
  rw [← rGroup, ← group, inj_on_of_nodup_map nodup mem' rMem same]

theorem restorable_of_marked {S : BackendSite} (ended : status ≠ .running)
    (h : Restorable S (ledger.map (marked ids status)) id) : Restorable S ledger id := by
  obtain ⟨r', mem', group, running, plan, planned, length⟩ := h
  obtain ⟨r, mem, rfl⟩ := mem_map.mp mem'
  have out : r.taskId ∉ ids := fun inside => ended ((marked_status_of_mem inside).symm.trans running)
  rw [marked_of_notMem out] at group running planned
  rw [listTasksByHandle_marked, length_map] at length
  exact ⟨r, mem, group, running, plan, planned, length⟩

theorem filter_marked {wanted : TaskRowStatus} {keep : String → Bool} {rows : List TaskRecord}
    (agree : ∀ r ∈ rows, decide ((marked ids status r).status = wanted) =
      (keep r.taskId && decide (r.status = .running))) :
    ((rows.map (marked ids status)).filter fun r => r.status = wanted).map taskId =
      ((rows.filter fun r => r.status = .running).map taskId).filter keep := by
  rw [filter_map, map_map, filter_map, filter_filter]
  have same : rows.filter ((fun r : TaskRecord => decide (r.status = wanted)) ∘ marked ids status) =
      rows.filter fun r => (keep ∘ taskId) r && decide (r.status = .running) := filter_congr agree
  rw [same]
  exact map_congr_left fun r _ => marked_taskId ids r

theorem running_marked (ended : status ≠ .running) (rows : List TaskRecord) :
    ((rows.map (marked ids status)).filter fun r => r.status = .running).map taskId =
      ((rows.filter fun r => r.status = .running).map taskId).filter fun t => !ids.contains t := by
  refine filter_marked fun r _ => ?_
  by_cases mem : r.taskId ∈ ids
  · simp [marked_status_of_mem mem, mem, ended]
  · simp [marked_of_notMem mem, mem]

theorem failed_marked {rows : List TaskRecord} (none : ∀ r ∈ rows, r.status ≠ .failed)
    (running : ∀ r ∈ rows, r.taskId ∈ ids → r.status = .running) :
    ((rows.map (marked ids .failed)).filter fun r => r.status = .failed).map taskId =
      ((rows.filter fun r => r.status = .running).map taskId).filter fun t => ids.contains t := by
  refine filter_marked fun r rMem => ?_
  by_cases mem : r.taskId ∈ ids
  · simp [marked_status_of_mem mem, mem, running r rMem mem]
  · simp [marked_of_notMem mem, mem, none r rMem]

theorem filter_mem_of_sublist {α : Type} [DecidableEq α] {xs ys : List α} (nodup : ys.Nodup) (sub : xs.Sublist ys) :
    ys.filter (fun y => xs.contains y) = xs := by
  induction sub with
  | slnil => rfl
  | @cons xs ys y sub ih =>
    rw [nodup_cons] at nodup
    have out : xs.contains y = false := by
      rw [← Bool.not_eq_true, contains_iff_mem]
      exact fun mem => nodup.1 (sub.subset mem)
    rw [filter_cons, out, if_neg (by simp), ih nodup.2]
  | @cons_cons xs ys y sub ih =>
    rw [nodup_cons] at nodup
    rw [filter_cons, if_pos (by simp)]
    refine congrArg _ (Eq.trans (filter_congr fun z mem => ?_) (ih nodup.2))
    have ne : z ≠ y := fun h => nodup.1 (h ▸ mem)
    simp [ne]

end Rows

theorem encodeTaskId_mem_map {int : String → Option Int} (reads : ReadsDigits int) {t : TaskId} {tids : List TaskId}
    (numbered : t.Numbered) (all : ∀ u ∈ tids, u.Numbered) : encodeTaskId t ∈ tids.map encodeTaskId ↔ t ∈ tids := by
  refine ⟨fun mem => ?_, fun mem => mem_map_of_mem mem⟩
  obtain ⟨u, uMem, same⟩ := mem_map.mp mem
  rwa [← encodeTaskId_inj reads (all u uMem) numbered same]

namespace Mooncake

variable {S : BackendSite} {b : Mooncake} {h : TaskHandle} {e : TrackedPlan}

theorem record_plans (b : Mooncake) (h : TaskHandle) (status : TaskRowStatus) (tids : List TaskId) :
    (b.record h status tids).plans = b.plans := by
  unfold record
  split <;> rfl

theorem record_watch (b : Mooncake) (h : TaskHandle) (status : TaskRowStatus) (tids : List TaskId) :
    (b.record h status tids).watch = b.watch := by
  unfold record
  split <;> rfl

/-- The rows of a tracked handle: those outside its conflicts are running, its conflicts are recorded as
failed, and the plan is the one a restart computes once all of its tasks have a row. -/
structure Grouped (S : BackendSite) (b : Mooncake) (h : TaskHandle) (e : TrackedPlan) : Prop where
  named : e.handleId ≠ ""
  kind : h.op = .copy ∨ h.op = .move
  tokens : e.pre.tokenIds ≠ []
  numbered : ∀ t ∈ h.taskIds, t.Numbered
  conflictsNumbered : ∀ t ∈ b.conflicts h, t.Numbered
  nodup : h.taskIds.Nodup
  fields : ∀ r ∈ listTasksByHandle b.ledger e.handleId,
    r.op = h.op ∧ r.target = e.target ∧ r.modelId = e.pre.modelId ∧ r.tokenIds = e.pre.tokenIds
  running : ((listTasksByHandle b.ledger e.handleId).filter fun r => r.status = .running).map TaskRecord.taskId =
    (b.rest h).map encodeTaskId
  failed : ((listTasksByHandle b.ledger e.handleId).filter fun r => r.status = .failed).map TaskRecord.taskId =
    (b.conflicts h).map encodeTaskId
  planned : ∃ plan, S.recompute e.pre e.target = .ok plan ∧
    ((listTasksByHandle b.ledger e.handleId).length = plan.length → e.plan = plan)

structure Tracking (S : BackendSite) (b : Mooncake) : Prop where
  ids : (b.ledger.map TaskRecord.taskId).Nodup
  grouped : ∀ h e, b.plans.lookup h = some e → Grouped S b h e
  distinct : ∀ h e h' e', b.plans.lookup h = some e → b.plans.lookup h' = some e' →
    e.handleId = e'.handleId → h = h'
  watched : ∀ h ids, b.watch.lookup h = some ids → ids ≠ [] ∧ h.taskIds ≠ [] ∧ h ∈ b.plans
  covered : ∀ id, Restorable S b.ledger id → ∃ h e, b.plans.lookup h = some e ∧ e.handleId = id

theorem Grouped.frame {b' : Mooncake} (g : Grouped S b h e)
    (rows : listTasksByHandle b'.ledger e.handleId = listTasksByHandle b.ledger e.handleId)
    (watch : b'.watch.lookup h = b.watch.lookup h) : Grouped S b' h e := by
  have conflicts : b'.conflicts h = b.conflicts h := by rw [conflicts, watch]; rfl
  have rest : b'.rest h = b.rest h := by rw [rest, conflicts]; rfl
  exact ⟨g.named, g.kind, g.tokens, g.numbered, conflicts ▸ g.conflictsNumbered, g.nodup, rows ▸ g.fields,
    by rw [rows, rest]; exact g.running, by rw [rows, conflicts]; exact g.failed, rows ▸ g.planned⟩

variable {t : TaskId}

theorem mem_rest : t ∈ b.rest h ↔ t ∈ h.taskIds ∧ t ∉ b.conflicts h := by
  simp [rest]

theorem rest_of_not_watched (none : b.watch.lookup h = none) : b.rest h = h.taskIds := by
  simp [rest, conflicts, none]

section

variable (g : Grouped S b h e)
include g

theorem Grouped.row_of_rest (mem : t ∈ b.rest h) :
    ∃ r ∈ b.ledger, r.taskId = encodeTaskId t ∧ r.handleId = e.handleId ∧ r.status = .running := by
  have listed : encodeTaskId t ∈ (b.rest h).map encodeTaskId := mem_map_of_mem mem
  rw [← g.running] at listed
  obtain ⟨r, rMem, same⟩ := mem_map.mp listed
  obtain ⟨inGroup, running⟩ := mem_filter.mp rMem
  obtain ⟨inLedger, group⟩ := mem_listTasksByHandle.mp inGroup
  exact ⟨r, inLedger, same, group, by simpa using running⟩

theorem Grouped.row_of_mem (mem : t ∈ h.taskIds) : encodeTaskId t ∈ b.ledger.map taskId := by
  by_cases conflict : t ∈ b.conflicts h
  · have listed : encodeTaskId t ∈ (b.conflicts h).map encodeTaskId := mem_map_of_mem conflict
    rw [← g.failed] at listed
    obtain ⟨r, rMem, same⟩ := mem_map.mp listed
    have inLedger := (mem_listTasksByHandle.mp (mem_filter.mp rMem).1).1
    exact mem_map.mpr ⟨r, inLedger, same⟩
  · obtain ⟨r, inLedger, same, _⟩ := g.row_of_rest (mem_rest.mpr ⟨mem, conflict⟩)
    exact mem_map.mpr ⟨r, inLedger, same⟩

theorem Grouped.rest_of_running {r : TaskRecord} (mem : r ∈ b.ledger)
    (group : r.handleId = e.handleId) (running : r.status = .running) :
    ∃ t ∈ b.rest h, r.taskId = encodeTaskId t := by
  have listed : r.taskId ∈ (b.rest h).map encodeTaskId := by
    rw [← g.running]
    refine mem_map_of_mem (mem_filter.mpr ⟨mem_listTasksByHandle.mpr ⟨mem, group⟩, ?_⟩)
    simpa using running
  obtain ⟨t, tMem, same⟩ := mem_map.mp listed
  exact ⟨t, tMem, same.symm⟩

end

section Writes

variable {status : TaskRowStatus} {tids : List TaskId}

theorem record_known (found : b.plans.lookup h = some e) (known : ∀ t ∈ tids, encodeTaskId t ∈ b.ledger.map taskId) :
    (b.record h status tids).ledger = b.ledger.map (marked (tids.map encodeTaskId) status) := by
  simp only [record, found]
  refine upsertTasks_known fun s mem => ?_
  obtain ⟨t, tMem, rfl⟩ := mem_map.mp mem
  exact known t tMem

def close (b : Mooncake) (h : TaskHandle) (status : TaskRowStatus) : Mooncake :=
  { plans := b.plans.erase h
    watch := b.watch.erase h
    ledger := b.ledger.map (TaskRecord.marked ((b.rest h).map encodeTaskId) status) }

theorem Tracking.inside (t : Tracking S b) (found : b.plans.lookup h = some e) (sub : tids ⊆ b.rest h) :
    ∀ s ∈ tids.map encodeTaskId, ∃ r ∈ b.ledger, r.taskId = s ∧ r.handleId = e.handleId := by
  intro s mem
  obtain ⟨u, uMem, rfl⟩ := mem_map.mp mem
  obtain ⟨r, inLedger, same, group, _⟩ := (t.grouped h e found).row_of_rest (sub uMem)
  exact ⟨r, inLedger, same, group⟩

theorem Tracking.rows_other (t : Tracking S b) (found : b.plans.lookup h = some e) (sub : tids ⊆ b.rest h)
    {h' : TaskHandle} {e' : TrackedPlan} (found' : b.plans.lookup h' = some e') (ne : h' ≠ h) :
    listTasksByHandle (b.ledger.map (marked (tids.map encodeTaskId) status)) e'.handleId =
      listTasksByHandle b.ledger e'.handleId :=
  listTasksByHandle_marked_of_ne t.ids (t.inside found sub) fun same => ne (t.distinct h' e' h e found' found same)

theorem Tracking.close (t : Tracking S b) (found : b.plans.lookup h = some e) (ended : status ≠ .running) :
    Tracking S (b.close h status) := by
  have other : ∀ {h' e'}, (b.close h status).plans.lookup h' = some e' → h' ≠ h ∧ b.plans.lookup h' = some e' := by
    intro h' e' found'
    rw [Mooncake.close, lookup_erase_if] at found'
    split at found'
    · cases found'
    · exact ⟨‹_›, found'⟩
  refine ⟨?_, ?_, ?_, ?_, ?_⟩
  · rw [Mooncake.close, map_taskId_marked]
    exact t.ids
  · intro h' e' found'
    obtain ⟨ne, found'⟩ := other found'
    refine (t.grouped h' e' found').frame (t.rows_other found (List.Subset.refl _) found' ne) ?_
    rw [Mooncake.close, lookup_erase_if, if_neg ne]
  · intro h₁ e₁ h₂ e₂ found₁ found₂ same
    exact t.distinct h₁ e₁ h₂ e₂ (other found₁).2 (other found₂).2 same
  · intro h' ids watched
    rw [Mooncake.close, lookup_erase_if] at watched
    split at watched
    · cases watched
    · obtain ⟨ne, tasks, tracked⟩ := t.watched h' ids watched
      exact ⟨ne, tasks, mem_erase.mpr ⟨‹_›, tracked⟩⟩
  · intro id restorable
    obtain ⟨h', e', found', rfl⟩ := t.covered id (restorable_of_marked ended restorable)
    refine ⟨h', e', ?_, rfl⟩
    rw [Mooncake.close, lookup_erase_if, if_neg]
    · exact found'
    -- the group of `h` itself has no running row left
    · rintro rfl
      obtain rfl : e' = e := Option.some.inj (found'.symm.trans found)
      obtain ⟨r', mem', group, running, _⟩ := restorable
      obtain ⟨r, mem, rfl⟩ := mem_map.mp mem'
      have out : r.taskId ∉ (b.rest h').map encodeTaskId :=
        fun inside => ended ((marked_status_of_mem inside).symm.trans running)
      rw [marked_of_notMem out] at group running
      obtain ⟨u, uMem, same⟩ := (t.grouped h' e' found').rest_of_running mem group running
      exact out (mem_map.mpr ⟨u, uMem, same.symm⟩)

theorem Grouped.enterWatch (reads : ReadsDigits S.int) {b' : Mooncake} (g : Grouped S b h e)
    (off : b.watch.lookup h = none) (sub : tids.Sublist h.taskIds) (nodup : (b.ledger.map taskId).Nodup)
    (ledger : b'.ledger = b.ledger.map (marked (tids.map encodeTaskId) .failed))
    (watch : b'.watch.lookup h = some tids) : Grouped S b' h e := by
  have all : b.rest h = h.taskIds := rest_of_not_watched off
  have before : b.conflicts h = [] := by rw [conflicts, off]; rfl
  have after : b'.conflicts h = tids := by rw [conflicts, watch]; rfl
  have numbered : ∀ t ∈ tids, t.Numbered := fun t mem => g.numbered t (sub.subset mem)
  have rows : listTasksByHandle b'.ledger e.handleId =
      (listTasksByHandle b.ledger e.handleId).map (marked (tids.map encodeTaskId) .failed) := by
    rw [ledger, listTasksByHandle_marked]
  have running := g.running
  rw [all] at running
  refine ⟨g.named, g.kind, g.tokens, g.numbered, after ▸ numbered, g.nodup, ?_, ?_, ?_, ?_⟩
  · intro r' mem
    rw [rows] at mem
    obtain ⟨r, rMem, rfl⟩ := mem_map.mp mem
    have fields := g.fields r rMem
    unfold marked
    split
    · exact fields
    · exact fields
  · rw [rows, running_marked (by decide), running, filter_map, rest, after]
    refine congrArg _ (filter_congr fun t mem => ?_)
    have same := encodeTaskId_mem_map reads (g.numbered t mem) numbered
    simp only [comp, contains_eq_mem, same]
  · have none : ∀ r ∈ listTasksByHandle b.ledger e.handleId, r.status ≠ .failed := by
      intro r mem failed
      have listed := g.failed
      rw [before, map_nil, map_eq_nil_iff, filter_eq_nil_iff] at listed
      exact listed r mem (by simpa using failed)
    have live : ∀ r ∈ listTasksByHandle b.ledger e.handleId, r.taskId ∈ tids.map encodeTaskId → r.status = .running := by
      intro r mem marked
      obtain ⟨t, tMem, same⟩ := mem_map.mp marked
      obtain ⟨r', mem', same', _, running'⟩ := g.row_of_rest (all ▸ sub.subset tMem)
      rw [inj_on_of_nodup_map nodup (mem_listTasksByHandle.mp mem).1 mem' (same.symm.trans same'.symm)]
      exact running'
    rw [rows, failed_marked none live, running, filter_map, after]
    have picked := filter_mem_of_sublist g.nodup sub
    conv_rhs => rw [← picked]
    refine congrArg _ (filter_congr fun t mem => ?_)
    have same := encodeTaskId_mem_map reads (g.numbered t mem) numbered
    simp only [comp, contains_eq_mem, same]
  · rw [rows, length_map]
    exact g.planned

theorem Tracking.enterWatch (reads : ReadsDigits S.int) (t : Tracking S b) (found : b.plans.lookup h = some e)
    (off : b.watch.lookup h = none) (sub : tids.Sublist h.taskIds) (ne : tids ≠ []) :
    Tracking S (b.enterWatch h tids) := by
  have g := t.grouped h e found
  have inside : tids ⊆ b.rest h := by
    rw [rest_of_not_watched off]
    exact sub.subset
  have ledger : (b.enterWatch h tids).ledger = b.ledger.map (marked (tids.map encodeTaskId) .failed) :=
    record_known (b := { b with watch := b.watch.insert h tids }) found fun u mem => g.row_of_mem (sub.subset mem)
  have plans : (b.enterWatch h tids).plans = b.plans := record_plans _ h .failed tids
  have watch : (b.enterWatch h tids).watch = b.watch.insert h tids := record_watch _ h .failed tids
  refine ⟨?_, ?_, ?_, ?_, ?_⟩
  · rw [ledger, map_taskId_marked]
    exact t.ids
  · intro h' e' found'
    rw [plans] at found'
    by_cases same : h' = h
    · subst h'
      obtain rfl : e' = e := Option.some.inj (found'.symm.trans found)
      refine g.enterWatch reads off sub t.ids ledger ?_
      rw [watch, lookup_insert]
    · refine (t.grouped h' e' found').frame ?_ ?_
      · rw [ledger]
        exact t.rows_other found inside found' same
      · rw [watch, lookup_insert_of_ne _ same]
  · rw [plans]
    exact t.distinct
  · intro h' ids watched
    rw [watch, lookup_insert_if] at watched
    rw [plans]
    split at watched
    next same =>
      subst h'
      obtain rfl := Option.some.inj watched
      refine ⟨ne, fun empty => ?_, mem_of_lookup_eq_some found⟩
      rw [empty] at sub
      exact ne (sublist_nil.mp sub)
    · exact t.watched h' ids watched
  · intro id restorable
    rw [plans]
    rw [ledger] at restorable
    exact t.covered id (restorable_of_marked (by decide) restorable)

structure Fresh (b : Mooncake) (tids : List TaskId) (handleId : String) : Prop where
  numbered : ∀ t ∈ tids, t.Numbered
  nodup : tids.Nodup
  newTasks : ∀ t ∈ tids, encodeTaskId t ∉ b.ledger.map TaskRecord.taskId
  named : handleId ≠ ""
  newGroup : ∀ r ∈ b.ledger, r.handleId ≠ handleId
  newEntry : ∀ h e, b.plans.lookup h = some e → e.handleId ≠ handleId

theorem encode_nodup {int : String → Option Int} (reads : ReadsDigits int) (numbered : ∀ t ∈ tids, t.Numbered)
    (nodup : tids.Nodup) : (tids.map encodeTaskId).Nodup :=
  List.Nodup.map_on (fun t tMem u uMem same => encodeTaskId_inj reads (numbered t tMem) (numbered u uMem) same) nodup

def newRow (h : TaskHandle) (e : TrackedPlan) (t : TaskId) : TaskRecord :=
  ⟨encodeTaskId t, e.handleId, h.op, e.target, .running, e.pre.modelId, e.pre.tokenIds⟩

theorem track_ledger (reads : ReadsDigits S.int) (fresh : Fresh b h.taskIds e.handleId) :
    (b.track h e).ledger = b.ledger ++ h.taskIds.map (newRow h e) := by
  have found : ({ b with plans := b.plans.insert h e } : Mooncake).plans.lookup h = some e := lookup_insert _
  simp only [track, record, found]
  rw [upsertTasks_new (encode_nodup reads fresh.numbered fresh.nodup), map_map]
  · rfl
  · intro s mem
    obtain ⟨t, tMem, rfl⟩ := mem_map.mp mem
    exact fresh.newTasks t tMem

theorem rows_track_other {id : String} (ne : id ≠ e.handleId) :
    listTasksByHandle (b.ledger ++ h.taskIds.map (newRow h e)) id = listTasksByHandle b.ledger id := by
  unfold listTasksByHandle
  rw [filter_append, append_right_eq_self, filter_eq_nil_iff]
  intro r mem
  obtain ⟨t, _, rfl⟩ := mem_map.mp mem
  rw [decide_eq_true_eq]
  exact Ne.symm ne

theorem rows_track_self (fresh : Fresh b h.taskIds e.handleId) :
    listTasksByHandle (b.ledger ++ h.taskIds.map (newRow h e)) e.handleId = h.taskIds.map (newRow h e) := by
  have before : listTasksByHandle b.ledger e.handleId = [] := by
    refine filter_eq_nil_iff.mpr fun r mem => ?_
    simpa using fresh.newGroup r mem
  have after : listTasksByHandle (h.taskIds.map (newRow h e)) e.handleId = h.taskIds.map (newRow h e) := by
    refine filter_eq_self.mpr fun r mem => ?_
    obtain ⟨t, _, rfl⟩ := mem_map.mp mem
    simp [newRow]
  unfold listTasksByHandle at before after ⊢
  rw [filter_append, before, after, nil_append]

theorem Tracking.not_tracked (t : Tracking S b) {id : String} (fresh : Fresh b h.taskIds id) (ne : h.taskIds ≠ []) :
    b.plans.lookup h = none := by
  cases found : b.plans.lookup h with
  | none => rfl
  | some e' =>
    obtain ⟨u, mem⟩ := exists_mem_of_ne_nil _ ne
    exact (fresh.newTasks u mem ((t.grouped h e' found).row_of_mem mem)).elim

theorem Tracking.not_watched (t : Tracking S b) {id : String} (fresh : Fresh b h.taskIds id) :
    b.watch.lookup h = none := by
  cases found : b.watch.lookup h with
  | none => rfl
  | some ids =>
    obtain ⟨_, tasks, tracked⟩ := t.watched h ids found
    obtain ⟨e', found'⟩ := mem_iff.mp tracked
    rw [t.not_tracked fresh tasks] at found'
    cases found'

theorem Tracking.track (reads : ReadsDigits S.int) (t : Tracking S b) (fresh : Fresh b h.taskIds e.handleId)
    (kind : h.op = .copy ∨ h.op = .move) (tokens : e.pre.tokenIds ≠ [])
    (planned : ∃ plan, S.recompute e.pre e.target = .ok plan ∧ (h.taskIds.length = plan.length → e.plan = plan)) :
    Tracking S (b.track h e) := by
  have ledger := track_ledger reads fresh
  have plans : (b.track h e).plans = b.plans.insert h e := record_plans _ h .running h.taskIds
  have watch : (b.track h e).watch = b.watch := record_watch _ h .running h.taskIds
  have off := t.not_watched fresh
  have conflicts : (b.track h e).conflicts h = [] := by rw [conflicts, watch, off]; rfl
  have all : (b.track h e).rest h = h.taskIds := rest_of_not_watched (by rw [watch, off])
  refine ⟨?_, ?_, ?_, ?_, ?_⟩
  · rw [ledger, map_append, map_map]
    refine t.ids.append (encode_nodup reads fresh.numbered fresh.nodup) fun s old new => ?_
    obtain ⟨u, uMem, rfl⟩ := mem_map.mp new
    exact fresh.newTasks u uMem old
  · intro h' e' found'
    rw [plans, lookup_insert_if] at found'
    split at found'
    next same =>
      subst h'
      obtain rfl := Option.some.inj found'
      have rows : listTasksByHandle (b.track h e).ledger e.handleId = h.taskIds.map (newRow h e) := by
        rw [ledger, rows_track_self fresh]
      refine ⟨fresh.named, kind, tokens, fresh.numbered, by simp [conflicts], fresh.nodup, ?_, ?_, ?_, ?_⟩
      · intro r mem
        rw [rows] at mem
        obtain ⟨u, _, rfl⟩ := mem_map.mp mem
        exact ⟨rfl, rfl, rfl, rfl⟩
      · rw [rows, all, filter_eq_self.mpr, map_map]
        · rfl
        · intro r mem
          obtain ⟨u, _, rfl⟩ := mem_map.mp mem
          rfl
      · rw [rows, conflicts, filter_eq_nil_iff.mpr]
        · rfl
        · intro r mem
          obtain ⟨u, _, rfl⟩ := mem_map.mp mem
          simp [newRow]
      · rw [rows, length_map]
        exact planned
    next ne =>
      refine (t.grouped h' e' found').frame ?_ (by rw [watch])
      rw [ledger, rows_track_other (fresh.newEntry h' e' found')]
  · intro h₁ e₁ h₂ e₂ found₁ found₂ same
    rw [plans, lookup_insert_if] at found₁ found₂
    split at found₁
    next first =>
      obtain rfl := Option.some.inj found₁
      split at found₂
      next second => rw [first, second]
      · exact (fresh.newEntry h₂ e₂ found₂ same.symm).elim
    split at found₂
    · obtain rfl := Option.some.inj found₂
      exact (fresh.newEntry h₁ e₁ found₁ same).elim
    · exact t.distinct h₁ e₁ h₂ e₂ found₁ found₂ same
  · intro h' ids watched
    rw [watch] at watched
    rw [plans]
    obtain ⟨ne, tasks, tracked⟩ := t.watched h' ids watched
    exact ⟨ne, tasks, mem_insert.mpr (.inr tracked)⟩
  · intro id restorable
    rw [plans]
    by_cases same : id = e.handleId
    · exact ⟨h, e, lookup_insert _, same.symm⟩
    obtain ⟨r, mem, group, running, plan, recomputed, length⟩ := restorable
    rw [ledger, rows_track_other same] at length
    rw [ledger] at mem
    have old : r ∈ b.ledger := by
      rcases mem_append.mp mem with old | new
      · exact old
      · obtain ⟨u, _, rfl⟩ := mem_map.mp new
        exact (same group.symm).elim
    obtain ⟨h', e', found', rfl⟩ := t.covered id ⟨r, old, group, running, plan, recomputed, length⟩
    refine ⟨h', e', ?_, rfl⟩
    rw [lookup_insert_of_ne _]
    · exact found'
    -- a group with a running row has a task, so its handle is not the new one
    · rintro rfl
      obtain ⟨u, uMem, _⟩ := (t.grouped h' e' found').rest_of_running old group running
      have tasks : h'.taskIds ≠ [] := ne_nil_of_mem (mem_rest.mp uMem).1
      rw [t.not_tracked fresh tasks] at found'
      cases found'

end Writes

end Mooncake

end LakeKv
