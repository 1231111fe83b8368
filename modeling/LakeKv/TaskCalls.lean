import LakeKv.TaskTracking
import Mathlib.Data.List.ReduceOption

namespace LakeKv

open Finmap List Mooncake TaskRecord

/-! The runs of a backend: every call, and every restart, keeps its handles tied to the rows of the ledger. -/

namespace Mooncake

variable {S : BackendSite}

/-- The calls on a backend, and the crash that replaces it by a new one over the same ledger. -/
inductive TaskCall
  | copy (pre : Prefix) (target : String) (admitted : Except String Unit) (created : Nat → Option TaskId)
    (how : Submission) (handleId : String)
  | move (pre : Prefix) (target source : String) (admitted : Except String Unit) (created : Nat → Option TaskId)
    (how : Submission) (handleId : String)
  | query (h : TaskHandle) (a : PollAnswers)
  | cut (h : TaskHandle) (a : PollAnswers)
  | abandon (h : TaskHandle)
  | restart

def step (S : BackendSite) (b : Mooncake) : TaskCall → Mooncake
  | .copy pre target admitted created how handleId => (b.copy S pre target admitted created how handleId).1
  | .move pre target source admitted created how handleId => (b.move S pre target source admitted created how handleId).1
  | .query h a => (queryTask S a b h).1
  | .cut h a => queryCut a b h
  | .abandon h => (b.abandon h).getD b
  | .restart => (rebuild S b.ledger).1

/-- The store hands out new pairs of non-negative integers, and `uuid4` a new group id. -/
def NewNumbers (S : BackendSite) (b : Mooncake) : TaskCall → Prop
  | .copy pre target _ created _ handleId =>
    ∀ plan, S.submitPlan pre target = .ok plan →
      Fresh b ((List.range plan.length).map created).reduceOption handleId
  | .move pre target source _ created _ handleId =>
    ∀ plan sourcePlan, S.submitPlan pre target = .ok plan → S.submitPlan pre source = .ok sourcePlan →
      Fresh b ((List.range (min plan.length sourcePlan.length)).map created).reduceOption handleId
  | _ => True

def Reachable (S : BackendSite) : Mooncake → Prop := Reach (step S) (· = ⟨∅, ∅, []⟩) (NewNumbers S)

section Submissions

variable {b : Mooncake} {pre : Prefix} {target : String} {plan : List (String × String)}

theorem submitPlan_ok (planned : S.submitPlan pre target = .ok plan) :
    S.recompute pre target = .ok plan ∧ pre.tokenIds ≠ [] := by
  unfold BackendSite.submitPlan at planned
  unfold BackendSite.recompute
  cases keys : S.keys.keysForTokens S.upstream pre.tokenIds with
  | error e => rw [keys] at planned; cases planned
  | ok ks =>
    rw [keys] at planned
    simp only [bind, Except.bind] at planned ⊢
    split at planned
    · cases planned
    next some =>
      refine ⟨planned, fun empty => some ?_⟩
      rw [empty] at keys
      exact KeyComputer.keysForTokens_nil S.keys S.upstream keys

variable {slots : List (Option TaskId)}

theorem partialPlan_eq (short : slots.length ≤ plan.length)
    (full : slots.reduceOption.length = plan.length) : partialPlan plan slots = plan := by
  induction plan generalizing slots with
  | nil => rfl
  | cons p plan ih =>
    cases slots with
    | nil => cases full
    | cons slot slots =>
      have bound := reduceOption_length_le slots
      rw [length_cons, length_cons] at short
      cases slot with
      | none =>
        rw [reduceOption_cons_of_none, length_cons] at full
        omega
      | some t =>
        rw [reduceOption_cons_of_some, length_cons, length_cons] at full
        have rest : partialPlan plan slots = plan := ih (by omega) (by omega)
        unfold partialPlan at rest ⊢
        rw [zip_cons_cons, filterMap_cons, rest]
        rfl

theorem Tracking.submitted (reads : ReadsDigits S.int) (t : Tracking S b) {op : OpKind}
    (kind : op = .copy ∨ op = .move) (planned : S.submitPlan pre target = .ok plan)
    (short : slots.length ≤ plan.length) {handleId : String} (fresh : Fresh b slots.reduceOption handleId)
    (how : Submission) : Tracking S (submitted S b op pre target plan slots how handleId).1 := by
  obtain ⟨recomputed, tokens⟩ := submitPlan_ok planned
  have whole : Tracking S (b.track ⟨op, slots.reduceOption⟩ ⟨pre, target, plan, handleId⟩) :=
    t.track reads fresh kind tokens ⟨plan, recomputed, fun _ => rfl⟩
  have part : Tracking S (b.track ⟨op, slots.reduceOption⟩ ⟨pre, target, partialPlan plan slots, handleId⟩) :=
    t.track reads fresh kind tokens ⟨plan, recomputed, fun full => partialPlan_eq short full⟩
  have interrupted : Tracking S (if slots.reduceOption = [] then b else
      b.track ⟨op, slots.reduceOption⟩ ⟨pre, target, partialPlan plan slots, handleId⟩) := by
    split
    · exact t
    · exact part
  cases how with
  | complete => exact whole
  | failed text => exact interrupted
  | cancelled =>
    simp only [Mooncake.submitted]
    split
    · exact interrupted
    · exact interrupted

end Submissions

section Polls

variable {a : PollAnswers} {b : Mooncake} {h : TaskHandle} {e : TrackedPlan} {plan : List (String × String)}

theorem map_fst_zip_sublist {α β : Type} (xs : List α) (ys : List β) : ((xs.zip ys).map Prod.fst).Sublist xs := by
  induction xs generalizing ys with
  | nil => exact List.Sublist.refl _
  | cons x xs ih =>
    cases ys with
    | nil => exact nil_sublist _
    | cons y ys => exact (ih ys).cons_cons x

theorem tasksSay_conflict {tids ids : List TaskId} (say : tasksSay a tids = .conflict ids) :
    ids.Sublist tids ∧ ids ≠ [] := by
  unfold tasksSay at say
  split at say
  · cases say
  next resps _ =>
    dsimp only at say
    split at say
    next failed =>
      split at say
      next length =>
        obtain rfl := TasksSay.conflict.inj say
        refine ⟨(filter_sublist.map Prod.fst).trans (map_fst_zip_sublist tids resps), fun empty => failed ?_⟩
        rw [empty, length_nil] at length
        exact length_eq_zero_iff.mp length.symm
      · cases say
    · split at say
      · cases say
      · cases say

theorem settle_eq_close (t : Tracking S b) (found : b.plans.lookup h = some e) (status : TaskRowStatus) :
    b.settle h status = b.close h status := by
  have g := t.grouped h e found
  have known : ∀ u ∈ b.rest h, encodeTaskId u ∈ b.ledger.map taskId :=
    fun u mem => g.row_of_mem (mem_rest.mp mem).1
  have ledger : (({ b with watch := b.watch.erase h } : Mooncake).record h status (b.rest h)).ledger =
      b.ledger.map (marked ((b.rest h).map encodeTaskId) status) := record_known found known
  by_cases empty : b.rest h = []
  · have unmarked : b.ledger = b.ledger.map (marked (List.map encodeTaskId []) status) := by
      conv_lhs => rw [← map_id b.ledger]
      exact map_congr_left fun r _ => (marked_of_notMem not_mem_nil).symm
    simp only [settle, close, empty, if_true]
    exact congrArg (Mooncake.mk _ _) unmarked
  · simp only [settle, close, empty, if_false, record_watch, record_plans, ledger]

theorem finish_eq_close (t : Tracking S b) (found : b.plans.lookup h = some e) (off : b.watch.lookup h = none)
    (status : TaskRowStatus) : b.finish h status = b.close h status := by
  have g := t.grouped h e found
  have ledger : (b.record h status h.taskIds).ledger = b.ledger.map (marked (h.taskIds.map encodeTaskId) status) :=
    record_known found fun u mem => g.row_of_mem mem
  simp only [finish, close, rest_of_not_watched off, record_watch, record_plans, ledger]

theorem Tracking.verifyWatch (t : Tracking S b) (found : b.plans.lookup h = some e) :
    Tracking S (verifyWatch S a b h plan).1 := by
  have tracked : h ∈ b.plans := mem_of_lookup_eq_some found
  unfold Mooncake.verifyWatch
  split
  · exact t
  · exact t
  · rw [if_neg (not_not_intro tracked), settle_eq_close t found]
    exact t.close found (by decide)

theorem not_watched_iff : h ∉ b.watch ↔ b.watch.lookup h = none := lookup_eq_none.symm

theorem Tracking.queryTask (reads : ReadsDigits S.int) (t : Tracking S b) (h : TaskHandle) :
    Tracking S (queryTask S a b h).1 := by
  unfold Mooncake.queryTask
  split
  · exact t
  cases found : b.plans.lookup h with
  | none => exact t
  | some e =>
    dsimp only
    split
    · exact t.verifyWatch found
    next off =>
      rw [not_watched_iff] at off
      cases say : tasksSay a h.taskIds with
      | error | pending => exact t
      | conflict ids =>
        obtain ⟨sub, ne⟩ := tasksSay_conflict say
        have entered := t.enterWatch reads found off sub ne
        refine entered.verifyWatch (e := e) ?_
        rw [Mooncake.enterWatch, record_plans]
        exact found
      | failed =>
        dsimp only
        rw [finish_eq_close t found off]
        exact t.close found (by decide)
      | success =>
        dsimp only
        split
        · exact t
        · rw [finish_eq_close t found off]
          exact t.close found (by decide)
        · rw [finish_eq_close t found off]
          exact t.close found (by decide)

theorem Tracking.queryCut (reads : ReadsDigits S.int) (t : Tracking S b) (h : TaskHandle) :
    Tracking S (queryCut a b h) := by
  unfold Mooncake.queryCut
  split
  · exact t
  next open_ =>
    simp only [not_or, not_not] at open_
    obtain ⟨_, tracked, off⟩ := open_
    obtain ⟨e, found⟩ := mem_iff.mp tracked
    split
    next ids say =>
      obtain ⟨sub, ne⟩ := tasksSay_conflict say
      exact t.enterWatch reads found (not_watched_iff.mp off) sub ne
    · exact t

theorem Tracking.abandon (t : Tracking S b) (h : TaskHandle) : Tracking S ((b.abandon h).getD b) := by
  unfold Mooncake.abandon
  split
  · exact t
  next tracked =>
    obtain ⟨e, found⟩ := mem_iff.mp (not_not.mp tracked)
    rw [Option.getD_some, settle_eq_close t found]
    exact t.close found (by decide)

end Polls

section Rebuild

variable {b : Mooncake} {ledger : List TaskRecord} {id : String} {g : Restored} {rows : List TaskRecord}

theorem nodup_eraseDups (xs : List String) : xs.eraseDups.Nodup := by
  induction hn : xs.length using Nat.strong_induction_on generalizing xs with
  | _ n ih =>
    cases xs with
    | nil => exact nodup_nil
    | cons x xs =>
      rw [eraseDups_cons, nodup_cons]
      have shorter : (xs.filter fun y => !y == x).length < n := by
        have bound := length_filter_le (fun y => !y == x) xs
        rw [length_cons] at hn
        omega
      refine ⟨fun mem => ?_, ih _ shorter _ rfl⟩
      have kept := (mem_filter.mp (mem_eraseDups.mp mem)).2
      simp at kept

def runningRows (ledger : List TaskRecord) (id : String) : List TaskRecord :=
  (listRunningTasks ledger).filter fun r => r.handleId = id

theorem runningRows_eq (ledger : List TaskRecord) (id : String) :
    runningRows ledger id = (listTasksByHandle ledger id).filter fun r => r.status = .running := by
  unfold runningRows listRunningTasks listTasksByHandle
  rw [filter_filter, filter_filter]
  exact filter_congr fun r _ => Bool.and_comm _ _

theorem restoreGroup_eq_some (restored : restoreGroup S ledger id rows = some g) :
    ∃ r0 ∈ rows, ∃ plan, S.recompute ⟨r0.modelId, r0.tokenIds⟩ r0.target = .ok plan ∧
      (listTasksByHandle ledger id).length = plan.length ∧
      g.handle = ⟨r0.op, rows.map fun r => decodeTaskId S.int r.taskId⟩ ∧
      g.entry = ⟨⟨r0.modelId, r0.tokenIds⟩, r0.target, plan, id⟩ ∧
      g.conflicted = ((listTasksByHandle ledger id).filter fun r => r.status = .failed).map
        fun r => decodeTaskId S.int r.taskId := by
  unfold restoreGroup at restored
  split at restored
  · cases restored
  next r0 rows =>
    split at restored
    · cases restored
    split at restored
    · cases restored
    next plan planned =>
      split at restored
      · cases restored
      next counted =>
        rw [not_or, not_not] at counted
        obtain rfl := Option.some.inj restored
        exact ⟨r0, mem_cons_self, plan, planned, counted.2, rfl, rfl, rfl⟩

theorem mem_restoredGroups : g ∈ restoredGroups S ledger ↔
    restoreGroup S ledger g.entry.handleId (runningRows ledger g.entry.handleId) = some g := by
  unfold restoredGroups
  rw [mem_filterMap]
  constructor
  · rintro ⟨id, _, restored⟩
    obtain ⟨_, _, _, _, _, _, entry, _⟩ := restoreGroup_eq_some restored
    rw [entry]
    exact restored
  · intro restored
    obtain ⟨r0, mem, _⟩ := restoreGroup_eq_some restored
    obtain ⟨running, group⟩ := mem_filter.mp mem
    rw [decide_eq_true_eq] at group
    exact ⟨g.entry.handleId, mem_eraseDups.mpr (mem_map.mpr ⟨r0, running, group⟩), restored⟩

theorem eq_of_handleId_eq {g' : Restored} (mem : g ∈ restoredGroups S ledger) (mem' : g' ∈ restoredGroups S ledger)
    (same : g.entry.handleId = g'.entry.handleId) : g = g' := by
  have restored := mem_restoredGroups.mp mem
  rw [same, mem_restoredGroups.mp mem'] at restored
  exact (Option.some.inj restored).symm

theorem restoredGroups_nodup (S : BackendSite) (ledger : List TaskRecord) : (restoredGroups S ledger).Nodup := by
  refine List.Nodup.filterMap ?_ (nodup_eraseDups _)
  intro id id' g restored restored'
  obtain ⟨_, _, _, _, _, _, entry, _⟩ := restoreGroup_eq_some restored
  obtain ⟨_, _, _, _, _, _, entry', _⟩ := restoreGroup_eq_some restored'
  exact congrArg TrackedPlan.handleId (entry.symm.trans entry')

/-- A restored group is that of a tracked handle: the same registration, its tasks outside the conflicts, and
the same conflicts. -/
structure Revives (b : Mooncake) (g : Restored) (h : TaskHandle) (e : TrackedPlan) : Prop where
  found : b.plans.lookup h = some e
  entry : g.entry = e
  op : g.handle.op = h.op
  tasks : g.handle.taskIds = b.rest h
  conflicted : g.conflicted = b.conflicts h
  live : b.rest h ≠ []

theorem map_decode_encode (reads : ReadsDigits S.int) {tids : List TaskId} (numbered : ∀ t ∈ tids, t.Numbered)
    (listed : rows.map TaskRecord.taskId = tids.map encodeTaskId) :
    (rows.map fun r => decodeTaskId S.int r.taskId) = tids := by
  have decoded : (rows.map taskId).map (decodeTaskId S.int) = tids := by
    rw [listed, map_map]
    conv_rhs => rw [← map_id tids]
    exact map_congr_left fun t mem => decodeTaskId_encodeTaskId reads (numbered t mem)
  rwa [map_map] at decoded

theorem Tracking.revives (reads : ReadsDigits S.int) (t : Tracking S b) (mem : g ∈ restoredGroups S b.ledger) :
    ∃ h e, Revives b g h e := by
  obtain ⟨r0, r0Mem, plan, planned, length, handle, entry, conflicted⟩ :=
    restoreGroup_eq_some (mem_restoredGroups.mp mem)
  rw [runningRows_eq] at r0Mem handle
  obtain ⟨inGroup, running⟩ := mem_filter.mp r0Mem
  obtain ⟨inLedger, group⟩ := mem_listTasksByHandle.mp inGroup
  rw [decide_eq_true_eq] at running
  obtain ⟨h, e, found, same⟩ :=
    t.covered g.entry.handleId ⟨r0, inLedger, group, running, plan, planned, length⟩
  have gr := t.grouped h e found
  rw [← same] at inGroup length handle conflicted entry
  obtain ⟨op, target, modelId, tokenIds⟩ := gr.fields r0 inGroup
  obtain ⟨plan', planned', whole⟩ := gr.planned
  rw [modelId, tokenIds, target, planned'] at planned
  obtain rfl := Except.ok.inj planned
  have restNumbered : ∀ u ∈ b.rest h, u.Numbered := fun u uMem => gr.numbered u (mem_rest.mp uMem).1
  obtain ⟨u, uMem, _⟩ := gr.rest_of_running inLedger (group.trans same.symm) running
  refine ⟨h, e, found, ?_, ?_, ?_, ?_, ne_nil_of_mem uMem⟩
  · rw [entry, modelId, tokenIds, target, ← whole length]
  · rw [handle]
    exact op
  · rw [handle]
    exact map_decode_encode reads restNumbered gr.running
  · rw [conflicted]
    exact map_decode_encode reads gr.conflictsNumbered gr.failed

theorem Tracking.restored (t : Tracking S b) (restorable : Restorable S b.ledger id) :
    ∃ g ∈ restoredGroups S b.ledger, g.entry.handleId = id := by
  obtain ⟨h, e, found, rfl⟩ := t.covered id restorable
  obtain ⟨r, mem, group, running, plan, planned, length⟩ := restorable
  have gr := t.grouped h e found
  have rMem : r ∈ runningRows b.ledger e.handleId := by
    rw [runningRows_eq]
    exact mem_filter.mpr ⟨mem_listTasksByHandle.mpr ⟨mem, group⟩, by simpa using running⟩
  obtain ⟨_, targetR, modelR, tokensR⟩ := gr.fields r (mem_listTasksByHandle.mpr ⟨mem, group⟩)
  rw [modelR, tokensR, targetR] at planned
  cases rows : runningRows b.ledger e.handleId with
  | nil => rw [rows] at rMem; cases rMem
  | cons r0 rest =>
    have r0Mem : r0 ∈ listTasksByHandle b.ledger e.handleId := by
      have first : r0 ∈ runningRows b.ledger e.handleId := rows ▸ mem_cons_self
      rw [runningRows_eq] at first
      exact (mem_filter.mp first).1
    obtain ⟨op, target, modelId, tokenIds⟩ := gr.fields r0 r0Mem
    have nonempty : plan ≠ [] := by
      rintro rfl
      rw [length_nil, length_eq_zero_iff] at length
      rw [length] at r0Mem
      cases r0Mem
    have kind : ¬ (e.handleId = "" ∨ (r0.op ≠ .copy ∧ r0.op ≠ .move) ∨ r0.tokenIds = []) := by
      rw [op, tokenIds]
      rintro (empty | ⟨notCopy, notMove⟩ | empty)
      · exact gr.named empty
      · exact gr.kind.elim notCopy notMove
      · exact gr.tokens empty
    have recomputed : S.recompute ⟨r0.modelId, r0.tokenIds⟩ r0.target = .ok plan := by
      rw [modelId, tokenIds, target]
      exact planned
    refine ⟨⟨⟨r0.op, (r0 :: rest).map fun r => decodeTaskId S.int r.taskId⟩,
      ⟨⟨r0.modelId, r0.tokenIds⟩, r0.target, plan, e.handleId⟩,
      ((listTasksByHandle b.ledger e.handleId).filter fun r => r.status = .failed).map
        fun r => decodeTaskId S.int r.taskId⟩, mem_restoredGroups.mpr ?_, rfl⟩
    simp only [rows, restoreGroup, if_neg kind, recomputed, nonempty, length, ne_eq, not_true_eq_false, or_false,
      if_false]

theorem Tracking.handles_nodup (reads : ReadsDigits S.int) (t : Tracking S b) :
    ((restoredGroups S b.ledger).map Restored.handle).Nodup := by
  refine List.Nodup.map_on (fun g mem g' mem' same => ?_) (restoredGroups_nodup S b.ledger)
  obtain ⟨h, e, rev⟩ := t.revives reads mem
  obtain ⟨h', e', rev'⟩ := t.revives reads mem'
  -- a task of both handles has one row, and so both groups have one id
  obtain ⟨u, uMem⟩ := exists_mem_of_ne_nil _ rev.live
  have uMem' : u ∈ b.rest h' := by rw [← rev'.tasks, ← same, rev.tasks]; exact uMem
  obtain ⟨r, rMem, rId, rGroup, _⟩ := (t.grouped h e rev.found).row_of_rest uMem
  obtain ⟨r', rMem', rId', rGroup', _⟩ := (t.grouped h' e' rev'.found).row_of_rest uMem'
  have sameRow := inj_on_of_nodup_map t.ids rMem rMem' (rId.trans rId'.symm)
  refine eq_of_handleId_eq mem mem' ?_
  rw [rev.entry, rev'.entry, ← rGroup, ← rGroup', sameRow]

theorem foldl_restore_ledger (gs : List Restored) (b : Mooncake) : (gs.foldl restore b).ledger = b.ledger := by
  induction gs generalizing b with
  | nil => rfl
  | cons g gs ih => exact ih (b.restore g)

variable {gs : List Restored}

theorem foldl_restore_other {h : TaskHandle} (out : h ∉ gs.map Restored.handle) (b : Mooncake) :
    (gs.foldl restore b).plans.lookup h = b.plans.lookup h ∧ (gs.foldl restore b).watch.lookup h = b.watch.lookup h := by
  induction gs generalizing b with
  | nil => exact ⟨rfl, rfl⟩
  | cons g gs ih =>
    rw [map_cons, mem_cons, not_or] at out
    obtain ⟨plans, watch⟩ := ih out.2 (b.restore g)
    rw [foldl_cons, plans, watch]
    refine ⟨lookup_insert_of_ne _ out.1, ?_⟩
    unfold restore
    split
    · rfl
    · exact lookup_insert_of_ne _ out.1

theorem foldl_restore_mem (nodup : (gs.map Restored.handle).Nodup) (mem : g ∈ gs) (b : Mooncake)
    (off : b.watch.lookup g.handle = none) : (gs.foldl restore b).plans.lookup g.handle = some g.entry ∧
      (gs.foldl restore b).watch.lookup g.handle = if g.conflicted = [] then none else some g.conflicted := by
  induction gs generalizing b with
  | nil => cases mem
  | cons first gs ih =>
    rw [map_cons, nodup_cons] at nodup
    rw [foldl_cons]
    rcases mem_cons.mp mem with rfl | later
    · obtain ⟨plans, watch⟩ := foldl_restore_other nodup.1 (b.restore g)
      rw [plans, watch]
      refine ⟨lookup_insert _, ?_⟩
      unfold restore
      split
      · exact off
      · exact lookup_insert _
    · have ne : g.handle ≠ first.handle := fun same => nodup.1 (same ▸ mem_map_of_mem later)
      refine ih nodup.2 later (b.restore first) ?_
      unfold restore
      split
      · exact off
      · rw [lookup_insert_of_ne _ ne, off]

theorem rebuild_ledger (S : BackendSite) (ledger : List TaskRecord) : (rebuild S ledger).1.ledger = ledger :=
  foldl_restore_ledger _ _

theorem rebuild_lookup (nodup : ((restoredGroups S ledger).map Restored.handle).Nodup)
    (mem : g ∈ restoredGroups S ledger) : (rebuild S ledger).1.plans.lookup g.handle = some g.entry ∧
      (rebuild S ledger).1.watch.lookup g.handle = if g.conflicted = [] then none else some g.conflicted :=
  foldl_restore_mem nodup mem _ (lookup_empty _)

theorem rebuild_only (h : TaskHandle) : (∃ g ∈ restoredGroups S ledger, g.handle = h) ∨
      (rebuild S ledger).1.plans.lookup h = none ∧ (rebuild S ledger).1.watch.lookup h = none := by
  by_cases mem : h ∈ (restoredGroups S ledger).map Restored.handle
  · exact .inl (mem_map.mp mem)
  obtain ⟨plans, watch⟩ := foldl_restore_other mem ⟨∅, ∅, ledger⟩
  refine .inr ⟨?_, ?_⟩
  · rw [rebuild, plans]
    exact lookup_empty _
  · rw [rebuild, watch]
    exact lookup_empty _

theorem exists_group {h : TaskHandle} {e : TrackedPlan} (nodup : ((restoredGroups S ledger).map Restored.handle).Nodup)
    (found : (rebuild S ledger).1.plans.lookup h = some e) :
    ∃ g ∈ restoredGroups S ledger, g.handle = h ∧ g.entry = e := by
  rcases rebuild_only h with ⟨g, mem, rfl⟩ | ⟨plans, _⟩
  · rw [(rebuild_lookup nodup mem).1] at found
    exact ⟨g, mem, rfl, Option.some.inj found⟩
  · rw [plans] at found
    cases found

theorem Revives.rebuilt {h : TaskHandle} {e : TrackedPlan} (rev : Revives b g h e)
    (nodup : ((restoredGroups S b.ledger).map Restored.handle).Nodup) (mem : g ∈ restoredGroups S b.ledger) :
    (rebuild S b.ledger).1.conflicts g.handle = b.conflicts h ∧ (rebuild S b.ledger).1.rest g.handle = b.rest h := by
  have conflicts : (rebuild S b.ledger).1.conflicts g.handle = b.conflicts h := by
    rw [conflicts, (rebuild_lookup nodup mem).2, ← rev.conflicted]
    split
    next empty => rw [empty]; rfl
    · rfl
  refine ⟨conflicts, ?_⟩
  rw [rest, conflicts, rev.tasks, rest, filter_filter]
  exact filter_congr fun u _ => Bool.and_self _

theorem Tracking.restart (reads : ReadsDigits S.int) (t : Tracking S b) : Tracking S (rebuild S b.ledger).1 := by
  have nodup := t.handles_nodup reads
  have ledger := rebuild_ledger S b.ledger
  refine ⟨?_, ?_, ?_, ?_, ?_⟩
  · rw [ledger]
    exact t.ids
  · intro h' e' found'
    obtain ⟨g, mem, rfl, rfl⟩ := exists_group nodup found'
    obtain ⟨h, e, rev⟩ := t.revives reads mem
    obtain ⟨conflicts, rest⟩ := rev.rebuilt nodup mem
    have gr := t.grouped h e rev.found
    have numbered : ∀ u ∈ b.rest h, u.Numbered := fun u uMem => gr.numbered u (mem_rest.mp uMem).1
    rw [rev.entry]
    refine ⟨gr.named, rev.op ▸ gr.kind, gr.tokens, rev.tasks ▸ numbered, conflicts ▸ gr.conflictsNumbered, ?_, ?_, ?_,
      ?_, ?_⟩
    · rw [rev.tasks]
      exact gr.nodup.filter _
    · rw [ledger, rev.op]
      exact gr.fields
    · rw [ledger, rest]
      exact gr.running
    · rw [ledger, conflicts]
      exact gr.failed
    · rw [ledger]
      exact gr.planned
  · intro h₁ e₁ h₂ e₂ found₁ found₂ same
    obtain ⟨g₁, mem₁, rfl, rfl⟩ := exists_group nodup found₁
    obtain ⟨g₂, mem₂, rfl, rfl⟩ := exists_group nodup found₂
    rw [eq_of_handleId_eq mem₁ mem₂ same]
  · intro h' ids watched
    rcases rebuild_only h' with ⟨g, mem, rfl⟩ | ⟨_, off⟩
    · obtain ⟨h, e, rev⟩ := t.revives reads mem
      obtain ⟨plans, watch⟩ := rebuild_lookup nodup mem
      rw [watch] at watched
      split at watched
      · cases watched
      next ne =>
        obtain rfl := Option.some.inj watched
        exact ⟨ne, rev.tasks ▸ rev.live, mem_of_lookup_eq_some plans⟩
    · rw [off] at watched
      cases watched
  · intro id restorable
    rw [ledger] at restorable
    obtain ⟨g, mem, same⟩ := t.restored restorable
    exact ⟨g.handle, g.entry, (rebuild_lookup nodup mem).1, same⟩

end Rebuild

theorem Tracking.empty (S : BackendSite) : Tracking S ⟨∅, ∅, []⟩ := by
  refine ⟨nodup_nil, ?_, ?_, ?_, ?_⟩
  · intro h e found
    rw [lookup_empty] at found
    cases found
  · intro h e h' e' found
    rw [lookup_empty] at found
    cases found
  · intro h ids found
    rw [lookup_empty] at found
    cases found
  · rintro id ⟨r, mem, _⟩
    cases mem

theorem Reachable.tracking (reads : ReadsDigits S.int) {b : Mooncake} (run : Reachable S b) : Tracking S b := by
  refine Reach.invariant (I := Tracking S) ?_ ?_ run
  · rintro b rfl
    exact Tracking.empty S
  · intro b call t new
    cases call with
    | copy pre target admitted created how handleId =>
      simp only [step, copy]
      split
      · exact t
      next plan planned =>
        split
        · exact t
        · exact t.submitted reads (.inl rfl) planned (by simp) (new plan planned) how
    | move pre target source admitted created how handleId =>
      simp only [step, move]
      split
      · exact t
      next plan planned =>
        split
        · exact t
        next sourcePlan sourcePlanned =>
          split
          · exact t
          · exact t.submitted reads (.inr rfl) planned (by simp) (new plan sourcePlan planned sourcePlanned) how
    | query h a => exact t.queryTask reads h
    | cut h a => exact t.queryCut reads h
    | abandon h => exact t.abandon h
    | restart => exact t.restart reads

def plainSite : BackendSite where
  keys := ⟨"m", 1, 1, none, 1⟩
  upstream :=
    { pythonHashSeed := some "0"
      hashBlockTokens := fun _ chunk => chunk.map fun t => t.toNat.toUInt8
      blockHashToStr := fun hash => toString (hash.map UInt8.toNat)
      poolKey := fun _ chunkHash _ => chunkHash
      searchRank := fun _ => some 0
      repr := fun s => s }
  locate := fun _ => .ok ["seg"]
  int := fun s => some (Nat.ofDigitChars 10 s.toList 0)
  reprIds := fun _ => ""
  hasAdmin := true

end Mooncake

end LakeKv
