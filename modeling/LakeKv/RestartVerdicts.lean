import LakeKv.TaskCalls

namespace LakeKv

open Finmap List Mooncake

/-! A restart does not change what later polls find. -/

namespace Mooncake

variable {S : BackendSite}

def polls (S : BackendSite) : List PollAnswers → Mooncake → TaskHandle → List (PollOutcome × List TaskRecord)
  | [], _, _ => []
  | a :: as, b, h =>
    let polled := queryTask S a b h
    (polled.2, polled.1.ledger) :: polls S as polled.1 h

/-- Two backends that no poll tells apart at their handles: one ledger, one registration, and while the
handles are tracked the same mode and the same tasks outside the conflicts. -/
structure Twin (b : Mooncake) (h : TaskHandle) (b' : Mooncake) (h' : TaskHandle) : Prop where
  tasks : h.taskIds ≠ []
  tasks' : h'.taskIds ≠ []
  op : h.op = h'.op
  ledger : b.ledger = b'.ledger
  entry : b.plans.lookup h = b'.plans.lookup h'
  mode : h ∈ b.plans → (h ∈ b.watch ↔ h' ∈ b'.watch)
  rest : h ∈ b.plans → b.rest h = b'.rest h'
  same : h ∈ b.plans → h ∉ b.watch → h = h'

section Twins

variable {a : PollAnswers} {b b' : Mooncake} {h h' : TaskHandle}

theorem record_ledger_congr (b b' : Mooncake) (op : h.op = h'.op) (ledger : b.ledger = b'.ledger)
    (entry : b.plans.lookup h = b'.plans.lookup h') (status : TaskRowStatus) (tids : List TaskId) :
    (b.record h status tids).ledger = (b'.record h' status tids).ledger := by
  unfold record
  rw [← entry, ← ledger, ← op]
  cases b.plans.lookup h with
  | none => exact ledger
  | some e => rfl

theorem Twin.gone (tw : Twin b h b' h') {c c' : Mooncake} (ledger : c.ledger = c'.ledger)
    (off : c.plans.lookup h = none) (off' : c'.plans.lookup h' = none) : Twin c h c' h' := by
  have out : h ∉ c.plans := lookup_eq_none.mp off
  exact ⟨tw.tasks, tw.tasks', tw.op, ledger, off.trans off'.symm, fun mem => (out mem).elim, fun mem => (out mem).elim,
    fun mem => (out mem).elim⟩

theorem settle_plans_lookup (b : Mooncake) (h : TaskHandle) (status : TaskRowStatus) :
    (b.settle h status).plans.lookup h = none := by
  simp only [settle]
  exact lookup_eq_none.mpr fun mem => (mem_erase.mp mem).1 rfl

theorem finish_plans_lookup (b : Mooncake) (h : TaskHandle) (status : TaskRowStatus) :
    (b.finish h status).plans.lookup h = none := by
  simp only [finish]
  exact lookup_eq_none.mpr fun mem => (mem_erase.mp mem).1 rfl

variable (tw : Twin b h b' h')
include tw

theorem Twin.settle (tracked : h ∈ b.plans) (status : TaskRowStatus) :
    Twin (b.settle h status) h (b'.settle h' status) h' := by
  refine tw.gone ?_ (settle_plans_lookup b h status) (settle_plans_lookup b' h' status)
  simp only [Mooncake.settle]
  rw [tw.rest tracked]
  split
  · exact tw.ledger
  · exact record_ledger_congr { b with watch := b.watch.erase h } { b' with watch := b'.watch.erase h' } tw.op tw.ledger
      tw.entry status _

theorem Twin.finish (same : h = h') (status : TaskRowStatus) : Twin (b.finish h status) h (b'.finish h' status) h' := by
  refine tw.gone ?_ (finish_plans_lookup b h status) (finish_plans_lookup b' h' status)
  simp only [Mooncake.finish]
  rw [record_ledger_congr b b' tw.op tw.ledger tw.entry, same]

theorem Twin.enterWatch (same : h = h') (ids : List TaskId) : Twin (b.enterWatch h ids) h (b'.enterWatch h' ids) h' := by
  have watch : ∀ (c : Mooncake) (k : TaskHandle), (c.enterWatch k ids).watch = c.watch.insert k ids :=
    fun c k => record_watch _ k .failed ids
  have plans : ∀ (c : Mooncake) (k : TaskHandle), (c.enterWatch k ids).plans = c.plans :=
    fun c k => record_plans _ k .failed ids
  have conflicts : ∀ (c : Mooncake) (k : TaskHandle), (c.enterWatch k ids).conflicts k = ids := by
    intro c k
    rw [conflicts, watch, lookup_insert]
    rfl
  refine ⟨tw.tasks, tw.tasks', tw.op, ?_, ?_, fun _ => ?_, fun _ => ?_, fun _ _ => same⟩
  · exact record_ledger_congr { b with watch := b.watch.insert h ids } { b' with watch := b'.watch.insert h' ids } tw.op
      tw.ledger tw.entry .failed ids
  · rw [plans, plans]
    exact tw.entry
  · rw [watch, watch]
    exact ⟨fun _ => mem_insert.mpr (.inl rfl), fun _ => mem_insert.mpr (.inl rfl)⟩
  · rw [Mooncake.rest, conflicts, Mooncake.rest, conflicts, same]

theorem Twin.verifyWatch (tracked : h ∈ b.plans) (plan : List (String × String)) :
    (verifyWatch S a b h plan).2 = (verifyWatch S a b' h' plan).2 ∧
      Twin (verifyWatch S a b h plan).1 h (verifyWatch S a b' h' plan).1 h' := by
  have tracked' : h' ∈ b'.plans := by
    obtain ⟨e, found⟩ := mem_iff.mp tracked
    exact mem_of_lookup_eq_some (tw.entry ▸ found)
  unfold Mooncake.verifyWatch
  split
  · exact ⟨rfl, tw⟩
  · exact ⟨rfl, tw⟩
  · rw [if_neg (not_not_intro tracked), if_neg (not_not_intro tracked')]
    exact ⟨rfl, tw.settle tracked .ready⟩

theorem Twin.queryTask :
    (queryTask S a b h).2 = (queryTask S a b' h').2 ∧ Twin (queryTask S a b h).1 h (queryTask S a b' h').1 h' := by
  unfold Mooncake.queryTask
  rw [if_neg tw.tasks, if_neg tw.tasks', ← tw.entry]
  cases found : b.plans.lookup h with
  | none => exact ⟨rfl, tw⟩
  | some e =>
    have tracked : h ∈ b.plans := mem_of_lookup_eq_some found
    by_cases watched : h ∈ b.watch
    · have watched' : h' ∈ b'.watch := (tw.mode tracked).mp watched
      simp only [if_pos watched, if_pos watched']
      exact tw.verifyWatch tracked e.plan
    · have off' : h' ∉ b'.watch := fun mem => watched ((tw.mode tracked).mpr mem)
      have same := tw.same tracked watched
      simp only [if_neg watched, if_neg off', ← congrArg TaskHandle.taskIds same]
      cases tasksSay a h.taskIds with
      | error | pending => exact ⟨rfl, tw⟩
      | failed => exact ⟨rfl, tw.finish same .failed⟩
      | conflict ids =>
        refine (tw.enterWatch same ids).verifyWatch ?_ e.plan
        rw [Mooncake.enterWatch, record_plans]
        exact tracked
      | success =>
        dsimp only
        split
        · exact ⟨rfl, tw⟩
        · exact ⟨rfl, tw.finish same .ready⟩
        · exact ⟨rfl, tw.finish same .failed⟩

theorem Twin.polls (as : List PollAnswers) : polls S as b h = polls S as b' h' := by
  induction as generalizing b b' with
  | nil => rfl
  | cons a as ih =>
    obtain ⟨outcome, after⟩ := tw.queryTask (S := S) (a := a)
    simp only [polls]
    rw [outcome, after.ledger, ih after]

end Twins

theorem Tracking.twin (reads : ReadsDigits S.int) {b : Mooncake} (t : Tracking S b) {g : Restored} {h : TaskHandle}
    {e : TrackedPlan} (mem : g ∈ restoredGroups S b.ledger) (rev : Revives b g h e) :
    Twin b h (rebuild S b.ledger).1 g.handle := by
  have nodup := t.handles_nodup reads
  obtain ⟨plans, watch⟩ := rebuild_lookup nodup mem
  obtain ⟨conflicts, rest⟩ := rev.rebuilt nodup mem
  have tasks : h.taskIds ≠ [] := by
    obtain ⟨u, uMem⟩ := exists_mem_of_ne_nil _ rev.live
    exact ne_nil_of_mem (mem_rest.mp uMem).1
  have empty_iff : h ∉ b.watch ↔ g.conflicted = [] := by
    rw [rev.conflicted, not_watched_iff, Mooncake.conflicts]
    cases found : b.watch.lookup h with
    | none => exact ⟨fun _ => rfl, fun _ => rfl⟩
    | some ids =>
      exact ⟨fun none => (Option.some_ne_none ids none).elim, fun empty => ((t.watched h ids found).1 empty).elim⟩
  have off_iff : g.handle ∉ (rebuild S b.ledger).1.watch ↔ g.conflicted = [] := by
    rw [not_watched_iff, watch]
    split
    next empty => exact ⟨fun _ => empty, fun _ => rfl⟩
    next ne => exact ⟨fun none => (Option.some_ne_none _ none).elim, fun empty => (ne empty).elim⟩
  refine ⟨tasks, rev.tasks ▸ rev.live, rev.op.symm, (rebuild_ledger S b.ledger).symm, ?_, fun _ => ?_,
    fun _ => rest.symm, fun _ off => ?_⟩
  · rw [plans, rev.entry]
    exact rev.found
  · rw [← not_iff_not, empty_iff, off_iff]
  · have whole := rest_of_not_watched (not_watched_iff.mp off)
    have sameTasks : h.taskIds = g.handle.taskIds := by rw [rev.tasks, whole]
    exact TaskHandle.ext rev.op.symm sameTasks

/-- After a crash, `rebuild` restores one handle for each group with a running row and as many rows as its plan
computed anew, and no other; and polled with any answers each restored handle gives the outcomes that the handle
it replaces would have given, and leaves the ledger as that one would have left it. -/
theorem restart_keeps_verdicts (S : BackendSite) (reads : ReadsDigits S.int) {b : Mooncake} (run : Reachable S b) :
    (rebuild S b.ledger).2.Nodup ∧
    (∀ h' ∈ (rebuild S b.ledger).2, ∃ e', (rebuild S b.ledger).1.plans.lookup h' = some e' ∧
      Restorable S b.ledger e'.handleId) ∧ (∀ id, Restorable S b.ledger id → ∃! h', h' ∈ (rebuild S b.ledger).2 ∧
      ((rebuild S b.ledger).1.plans.lookup h').map TrackedPlan.handleId = some id) ∧
    ∀ h' e', (rebuild S b.ledger).1.plans.lookup h' = some e' →
      (∃ h e, b.plans.lookup h = some e ∧ e.handleId = e'.handleId) ∧
      ∀ h e, b.plans.lookup h = some e → e.handleId = e'.handleId →
        ∀ answers, polls S answers (rebuild S b.ledger).1 h' = polls S answers b h := by
  have t := run.tracking reads
  have nodup := t.handles_nodup reads
  refine ⟨nodup, ?_, ?_, ?_⟩
  · intro h' mem
    obtain ⟨g, gMem, rfl⟩ := mem_map.mp mem
    refine ⟨g.entry, (rebuild_lookup nodup gMem).1, ?_⟩
    obtain ⟨r0, r0Mem, plan, planned, length, _⟩ := restoreGroup_eq_some (mem_restoredGroups.mp gMem)
    rw [runningRows_eq] at r0Mem
    obtain ⟨inGroup, running⟩ := mem_filter.mp r0Mem
    obtain ⟨inLedger, group⟩ := mem_listTasksByHandle.mp inGroup
    exact ⟨r0, inLedger, group, by simpa using running, plan, planned, length⟩
  · intro id restorable
    obtain ⟨g, gMem, rfl⟩ := t.restored restorable
    refine ⟨g.handle, ⟨mem_map_of_mem gMem, ?_⟩, ?_⟩
    · rw [(rebuild_lookup nodup gMem).1]
      rfl
    · rintro h' ⟨mem', group⟩
      obtain ⟨g', gMem', rfl⟩ := mem_map.mp mem'
      rw [(rebuild_lookup nodup gMem').1] at group
      rw [eq_of_handleId_eq gMem' gMem (Option.some.inj group)]
  · intro h' e' found'
    obtain ⟨g, gMem, rfl, rfl⟩ := exists_group nodup found'
    obtain ⟨h₀, e₀, rev⟩ := t.revives reads gMem
    have sameId : e₀.handleId = g.entry.handleId := by rw [rev.entry]
    refine ⟨⟨h₀, e₀, rev.found, sameId⟩, fun h e found group answers => ?_⟩
    obtain rfl : h = h₀ := t.distinct h e h₀ e₀ found rev.found (group.trans sameId.symm)
    exact ((t.twin reads gMem rev).polls answers).symm

def plainCopy : TaskCall :=
  .copy ⟨"m", [1, 2]⟩ "node" (.ok ()) (fun i => some (.pair 1 i)) .complete "group"

def conflictAnswers : PollAnswers where
  queryTask t := .ok (if t = .pair 1 0 then ⟨.failed, "OBJECT_HAS_REPLICATION_TASK"⟩ else ⟨.processing, ""⟩)
  batchQueryKeys _ := .error "unreachable"

def conflictedRun : Mooncake :=
  step plainSite (step plainSite ⟨∅, ∅, []⟩ plainCopy) (.cut ⟨.copy, [.pair 1 0, .pair 1 1]⟩ conflictAnswers)

theorem plainSite_readsDigits : ReadsDigits plainSite.int := by
  intro n
  have digits : (toString (n : Int)).toList = Nat.toDigits 10 n := Nat.toList_repr
  simp only [plainSite, digits, Nat.ofDigitChars_ten_toDigits]

theorem conflictedRun_reachable : Reachable plainSite conflictedRun := by
  refine Reach.next (Reach.next (Reach.start rfl) ?_) trivial
  intro plan planned
  have two : plan.length = 2 := by
    have known : plainSite.submitPlan ⟨"m", [1, 2]⟩ "node" = .ok [("[1]", "seg"), ("[2]", "seg")] := by
      decide +kernel
    rw [known] at planned
    rw [← Except.ok.inj planned]
    rfl
  rw [two]
  refine ⟨?_, by decide, by decide, by decide, by decide, ?_⟩
  · intro t mem
    have cases_ : t = .pair 1 0 ∨ t = .pair 1 1 := by simpa [List.range, List.range.loop, List.reduceOption] using mem
    rcases cases_ with rfl | rfl
    · exact ⟨1, 0, rfl⟩
    · exact ⟨1, 1, rfl⟩
  · intro h e found
    rw [lookup_empty] at found
    cases found

/-- The restored handle has the task under way only, and polls as the one that had both. -/
theorem conflicted_copy_restarts : (rebuild plainSite conflictedRun.ledger).2 = [⟨.copy, [.pair 1 1]⟩] ∧
      ∀ answers, polls plainSite answers (rebuild plainSite conflictedRun.ledger).1 ⟨.copy, [.pair 1 1]⟩ =
        polls plainSite answers conflictedRun ⟨.copy, [.pair 1 0, .pair 1 1]⟩ := by
  have kept := (restart_keeps_verdicts plainSite plainSite_readsDigits conflictedRun_reachable).2.2.2
    ⟨.copy, [.pair 1 1]⟩ ⟨⟨"m", [1, 2]⟩, "node", [("[1]", "seg"), ("[2]", "seg")], "group"⟩ (by decide +kernel)
  refine ⟨by decide +kernel, kept.2 ⟨.copy, [.pair 1 0, .pair 1 1]⟩
    ⟨⟨"m", [1, 2]⟩, "node", [("[1]", "seg"), ("[2]", "seg")], "group"⟩ (by decide +kernel) rfl⟩

end Mooncake

end LakeKv
