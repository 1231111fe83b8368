import LakeKv.IntentLifecycle
import Mathlib.Data.Finset.Card

namespace LakeKv

open EventLoop Function List TaskEngine

namespace TaskEngine

variable {α : Type} {cfg : EngineConfig} {intentId : α → String} {args : Nat → α} {s t : TaskEngine α}

/-- The ids that got a receipt after the last receipt of an id. -/
def othersAfter (id : String) (log : List String) : Finset String :=
  (log.takeWhile (· ≠ id)).toFinset

theorem othersAfter_cons (id other : String) (log : List String) :
    othersAfter id (other :: log) = if other = id then ∅ else insert other (othersAfter id log) := by
  unfold othersAfter
  rw [takeWhile_cons]
  by_cases h : other = id <;> simp [h]

structure Receipts (cfg : EngineConfig) (intentId : α → String) (args : Nat → α) (s : TaskEngine α) : Prop where
  known : ∀ i, s.submits i = .inserted ∨ s.submits i = .returned →
    intentId (args i) ∈ s.records.map Prod.fst ∨ intentId (args i) ∈ s.log
  written : ∀ r status detail k, s.loop = .finish .trim r status detail k ∨ s.loop = .finish .drop r status detail k →
    intentId (s.heap r).args ∈ s.log
  kept : ∀ id ∈ s.log, id ∈ s.finished.map Prod.fst ∨ max 1 cfg.finishedMax ≤ (othersAfter id s.log).card
  nodup : (s.finished.map Prod.fst).Nodup
  recent : (s.finished.map Prod.fst).Pairwise fun a b => b ∈ othersAfter a s.log

section

variable (h : s.Receipts cfg intentId args)
include h

theorem Receipts.frame (finished : t.finished = s.finished) (log : t.log = s.log)
    (records : ∀ id ∈ s.records.map Prod.fst, id ∈ t.records.map Prod.fst ∨ id ∈ s.log)
    (submits : ∀ i, t.submits i = .inserted ∨ t.submits i = .returned → s.submits i = .inserted ∨
      s.submits i = .returned ∨ intentId (args i) ∈ t.records.map Prod.fst)
    (written : ∀ r status detail k, t.loop = .finish .trim r status detail k ∨ t.loop = .finish .drop r status detail k →
      intentId (t.heap r).args ∈ s.log) : t.Receipts cfg intentId args := by
  refine ⟨fun i hi => ?_, log ▸ written, ?_, finished ▸ h.nodup, ?_⟩
  · rw [log]
    rcases submits i hi with hs | hs | hin
    · exact (h.known i (.inl hs)).elim (records _) .inr
    · exact (h.known i (.inr hs)).elim (records _) .inr
    · exact .inl hin
  · rw [log, finished]
    exact h.kept
  · rw [log, finished]
    exact h.recent

theorem Receipts.goes (finished : t.finished = s.finished) (log : t.log = s.log)
    (records : ∃ more, t.records = s.records ++ more) (submits : t.submits = s.submits)
    (loop : ∀ r status detail k, t.loop ≠ .finish .trim r status detail k ∧ t.loop ≠ .finish .drop r status detail k) :
    t.Receipts cfg intentId args := by
  obtain ⟨more, hmore⟩ := records
  refine h.frame finished log (fun id hid => .inl ?_) (fun i hi => ?_) fun r status detail k hl => ?_
  · rw [hmore, map_append]
    exact mem_append_left _ hid
  · rw [submits] at hi
    exact hi.imp_right .inl
  · exact (hl.elim (loop r status detail k).1 (loop r status detail k).2).elim

theorem Receipts.submitIntent (ht : s.Tracked intentId args) (i : Nat) :
    (s.submitIntent intentId args i).Receipts cfg intentId args := by
  have called : ∀ {pc : SubmitIntentPc}, (pc = .inserted ∨ pc = .returned → s.submits i = .inserted ∨
      intentId (args i) ∈ s.records.map Prod.fst) → ∀ i', (s.setSubmit i pc).submits i' = .inserted ∨
      (s.setSubmit i pc).submits i' = .returned → s.submits i' = .inserted ∨ s.submits i' = .returned ∨
      intentId (args i') ∈ s.records.map Prod.fst := by
    intro pc hpc i' hi'
    simp only [setSubmit, update_apply] at hi'
    split at hi'
    next heq =>
      subst heq
      exact (hpc hi').imp_right .inr
    · exact hi'.imp_right .inl
  have hwritten : ∀ r status detail k, s.loop = .finish .trim r status detail k ∨ s.loop = .finish .drop r status detail k →
      intentId (s.heap r).args ∈ s.log := h.written
  cases hpc : s.submits i with simp only [TaskEngine.submitIntent, hpc]
  | fresh =>
    refine h.frame rfl rfl (fun _ => .inl) (called fun hpc' => ?_) hwritten
    split at hpc' <;> simp at hpc'
  | checked =>
    cases hslot : s.records.lookup (intentId (args i)) with
    | some r =>
      refine h.frame rfl rfl (fun _ => .inl) (called fun _ => .inr ?_) hwritten
      exact mem_map.mpr ⟨_, AssocList.mem_of_lookup hslot, rfl⟩
    | none =>
      obtain ⟨φ, ht⟩ := ht
      refine h.frame rfl rfl (fun id hid => .inl ?_) (fun i' hi' => ?_) fun r status detail k hl => ?_
      · simp only [setSubmit, install, map_append]
        exact mem_append_left _ hid
      · simp only [setSubmit, install, setRecord, update_apply, map_append] at hi' ⊢
        split at hi'
        next heq => exact .inr (.inr (mem_append_right _ (by simp [heq])))
        · exact hi'.imp_right .inl
      · have hclosing : s.loop.closing = some r := by
          rcases hl with hl | hl <;> rw [show s.loop = _ from hl] <;> rfl
        have hphase := (ht.closing r).mpr hclosing
        have hne : r ≠ s.next := fun heq => by simp [(ht.absent r).mpr (heq ▸ Nat.le_refl _)] at hphase
        simp only [setSubmit, install, setRecord, update_of_ne hne]
        exact hwritten r status detail k hl
  | inserted =>
    refine h.frame rfl rfl (fun _ => .inl) (fun i' hi' => ?_) hwritten
    simp only [setSubmit, update_apply] at hi'
    split at hi'
    next heq => exact .inl (heq ▸ hpc)
    · exact hi'.imp_right .inl
  | returned | raised =>
    exact h

end

variable {r : Nat} {a : α}

section

variable (h : s.Receipts cfg intentId args)
include h

theorem Receipts.write {fin : Finished}
    (finished : t.finished = (s.finished.filter fun p => p.1 ≠ intentId (s.heap r).args) ++
      [(intentId (s.heap r).args, fin)]) (log : t.log = intentId (s.heap r).args :: s.log)
    (records : t.records = s.records) (submits : t.submits = s.submits)
    (loop : ∀ r' status detail k, t.loop = .finish .trim r' status detail k ∨ t.loop = .finish .drop r' status detail k →
      intentId (t.heap r').args = intentId (s.heap r).args) : t.Receipts cfg intentId args := by
  have hkeys : t.finished.map Prod.fst = ((s.finished.map Prod.fst).filter fun id => id ≠ intentId (s.heap r).args) ++
      [intentId (s.heap r).args] := by
    rw [finished, map_append, filter_map]
    rfl
  refine ⟨fun i hi => ?_, fun r' status detail k hl => ?_, fun id hid => ?_, ?_, ?_⟩
  · rw [submits] at hi
    rw [records, log]
    exact (h.known i hi).imp_right (mem_cons_of_mem _)
  · rw [log, loop r' status detail k hl]
    exact mem_cons_self
  · rw [hkeys, log, othersAfter_cons]
    by_cases heq : id = intentId (s.heap r).args
    · exact .inl (by simp [heq])
    rw [log] at hid
    rw [if_neg (Ne.symm heq)]
    rcases h.kept id ((mem_cons.mp hid).resolve_left heq) with hin | hcard
    · exact .inl (by simp [heq, mem_map.mp hin])
    · exact .inr (hcard.trans (Finset.card_le_card (Finset.subset_insert _ _)))
  · rw [hkeys]
    exact (perm_append_singleton _ _).nodup_iff.mpr (nodup_cons.mpr ⟨by simp, h.nodup.sublist filter_sublist⟩)
  · rw [hkeys, log, pairwise_append]
    refine ⟨?_, pairwise_singleton _ _, fun a ha b hb => ?_⟩
    · refine (h.recent.sublist filter_sublist).imp_of_mem fun ha _ hab => ?_
      have hne := of_decide_eq_true (mem_filter.mp ha).2
      rw [othersAfter_cons, if_neg (Ne.symm hne)]
      exact Finset.mem_insert_of_mem hab
    · have hne := of_decide_eq_true (mem_filter.mp ha).2
      rw [List.mem_singleton.mp hb, othersAfter_cons, if_neg (Ne.symm hne)]
      exact Finset.mem_insert_self _ _

theorem Receipts.evict (hlong : max 1 cfg.finishedMax < s.finished.length) :
    ({ s with finished := s.finished.tail } : TaskEngine α).Receipts cfg intentId args := by
  obtain ⟨p, rest, hfin⟩ : ∃ p rest, s.finished = p :: rest :=
    exists_cons_of_length_pos (Nat.lt_of_le_of_lt (Nat.zero_le _) hlong)
  have hnodup := h.nodup
  have hrecent := h.recent
  rw [hfin, map_cons] at hnodup hrecent
  refine ⟨h.known, h.written, fun id hid => ?_, ?_, ?_⟩
  · rcases h.kept id hid with hin | hcard
    · rw [hfin, map_cons] at hin
      rcases mem_cons.mp hin with rfl | hin
      · -- All that remain got their receipts after the one that goes.
        have hsub : (rest.map Prod.fst).toFinset ⊆ othersAfter p.1 s.log := fun b hb =>
          (pairwise_cons.mp hrecent).1 b (mem_toFinset.mp hb)
        have hcard := Finset.card_le_card hsub
        rw [toFinset_card_of_nodup (nodup_cons.mp hnodup).2, length_map] at hcard
        rw [hfin, length_cons] at hlong
        exact .inr ((Nat.lt_succ_iff.mp hlong).trans hcard)
      · exact .inl (by simpa [hfin] using hin)
    · exact .inr hcard
  · simpa [hfin] using (nodup_cons.mp hnodup).2
  · simpa [hfin] using (pairwise_cons.mp hrecent).2

theorem Receipts.finish {stage : FinishStage} {status : IntentStatus} {detail : String} {k : FinishThen}
    (hloop : s.loop = .finish stage r status detail k) :
    (s.finish cfg intentId stage r status detail k).Receipts cfg intentId args := by
  cases stage with
  | check =>
    simp only [TaskEngine.finish]
    split_ifs
    · exact h.goes rfl rfl ⟨[], (append_nil _).symm⟩ rfl (by simp)
    · exact h.goes rfl rfl ⟨[], (append_nil _).symm⟩ rfl (by simp)
  | receipt =>
    refine h.write rfl rfl rfl rfl fun r' status' detail' k' hl => ?_
    rcases hl with hl | hl <;> cases hl
    rfl
  | trim =>
    simp only [TaskEngine.finish]
    split_ifs with hlong
    · exact h.evict hlong
    · refine h.frame rfl rfl (fun _ => .inl) (fun _ hi => hi.imp_right .inl) fun r' status' detail' k' hl => ?_
      rcases hl with hl | hl <;> cases hl
      exact h.written r status detail k (.inl hloop)
  | drop =>
    refine h.frame rfl rfl (fun id hid => ?_) (fun _ hi => hi.imp_right .inl) fun r' status' detail' k' hl => ?_
    · by_cases heq : id = intentId (s.heap r).args
      · exact .inr (heq ▸ h.written r status detail k (.inr hloop))
      · obtain ⟨p, hp, rfl⟩ := mem_map.mp hid
        exact .inl (mem_map.mpr ⟨p, mem_filter.mpr ⟨hp, decide_eq_true heq⟩, rfl⟩)
    · rcases hl with hl | hl <;> cases hl

theorem Receipts.putNowait (finished : t.finished = s.finished)
    (log : t.log = s.log) (records : ∃ more, t.records = s.records ++ more) (submits : t.submits = s.submits) :
    (t.putNowait cfg r).Receipts cfg intentId args := by
  unfold TaskEngine.putNowait
  split_ifs
  · exact h.goes finished log records submits (by simp)
  · exact h.goes finished log records submits (by simp)

theorem Receipts.admitIntent {rest : List α} (hidle : s.loop = .idle) :
    ({ s with callbacks := rest }.admitIntent cfg intentId a).Receipts cfg intentId args := by
  have same : ∃ more, s.records = s.records ++ more := ⟨[], (append_nil _).symm⟩
  unfold TaskEngine.admitIntent
  split
  · exact h.goes rfl rfl same rfl (by simp)
  split_ifs
  · exact h.goes rfl rfl same rfl (by simp [hidle])
  · exact h.putNowait rfl rfl same rfl
  · exact h.goes rfl rfl same rfl (by simp [hidle])
  · exact h.goes rfl rfl same rfl (by simp)

theorem Receipts.admitMissing : (s.admitMissing cfg intentId a).Receipts cfg intentId args := by
  unfold TaskEngine.admitMissing
  split
  · exact h.goes rfl rfl ⟨[], (append_nil _).symm⟩ rfl (by simp)
  split_ifs
  · exact h.putNowait rfl rfl ⟨_, rfl⟩ rfl
  · exact h.goes rfl rfl ⟨_, rfl⟩ rfl (by simp)

end

structure Sound (cfg : EngineConfig) (intentId : α → String) (args : Nat → α) (s : TaskEngine α) : Prop where
  tracked : s.Tracked intentId args
  ruled : s.Ruled cfg
  receipts : s.Receipts cfg intentId args

theorem Started.sound (h : s.Started) : s.Sound cfg intentId args := by
  obtain ⟨hnext, hrec, hfin, hqueue, hcb, haccept, _, hloop, hlog, hcons, hcancel, hsub, hshut⟩ := h
  refine ⟨⟨fun _ => .absent, ?_⟩, ?_, ?_⟩
  · constructor <;> simp_all [EventLoop.held, closing, unswept, Phase.inTable, Phase.live]
  · refine ⟨?_, ?_, ?_, ?_, ?_, ?_, ?_, ?_, fun _ => ⟨0, cfg.consumers_pos, ?_⟩⟩ <;> simp_all [owner, stopping, sweeping]
  · constructor <;> simp_all

variable (h : s.Sound cfg intentId args)
include h

theorem Sound.advance : (s.advance cfg intentId).Sound cfg intentId args := by
  have same : ∃ more, s.records = s.records ++ more := ⟨[], (append_nil _).symm⟩
  obtain ⟨ht, hr, hc⟩ := h
  unfold TaskEngine.advance
  cases hloop : s.loop with
  | idle => exact ⟨ht, hr, hc⟩
  | admitMissing a => exact ⟨ht.admitMissing hloop, hr.admitMissing hloop, hc.admitMissing⟩
  | finish stage r status detail k =>
    exact ⟨ht.finish hloop (hr.verdict _ _ _ _ _ hloop), hr.finish hloop, hc.finish hloop⟩
  | resume k =>
    refine ⟨ht.resume hr hloop, hr.resume hloop, ?_⟩
    cases k with
    | blamed c =>
      simp only [resume]
      split_ifs <;> exact hc.goes rfl rfl same rfl (by simp [setConsumer])
    | _ => exact hc.goes rfl rfl same rfl (by simp [resume, setConsumer])
  | drain k =>
    refine ⟨ht.failNeverStarted hr hloop, hr.failNeverStarted hloop, ?_⟩
    simp only [failNeverStarted]
    split
    · exact hc.goes rfl rfl same rfl (by simp)
    · split <;> exact hc.goes rfl rfl same rfl (by simp [setConsumer])
  | sweep rest j =>
    refine ⟨ht.sweep hloop, hr.sweep hloop, ?_⟩
    cases rest with
    | nil => exact hc.goes rfl rfl same rfl (by simp [sweep, setShutdown])
    | cons r rest =>
      simp only [sweep]
      split_ifs <;> exact hc.goes rfl rfl same rfl (by simp)

/-- Every move of the engine keeps its invariants. -/
theorem Sound.step (m : EngineMove) : (s.step cfg intentId args m).Sound cfg intentId args := by
  have same : ∃ more, s.records = s.records ++ more := ⟨[], (append_nil _).symm⟩
  have ⟨ht, hr, hc⟩ := h
  unfold TaskEngine.step
  split
  next i => exact ⟨ht.submitIntent i, hr.submitIntent i, hc.submitIntent ht i⟩
  · exact h.advance
  next hidle =>
    split
    next a rest hcb => exact ⟨ht.admitIntent hidle hcb, hr.admitIntent hidle, hc.admitIntent hidle⟩
    · exact h
  next c hidle =>
    split_ifs with hlt
    · refine ⟨ht.take c, hr.take hlt, ?_⟩
      unfold take
      split
      · exact hc.goes rfl rfl same rfl (by simp [setConsumer, hidle])
      · exact hc
    · exact h
  next c hidle =>
    split_ifs with hlt
    · refine ⟨ht.dismiss c, hr.dismiss c, ?_⟩
      unfold dismiss
      split
      · exact hc.goes rfl rfl same rfl (by simp [setConsumer, hidle])
      · exact hc
    · exact h
  next c o hidle =>
    split_ifs with hlt
    · refine ⟨ht.outcome hidle c o, hr.outcome hidle hlt o, ?_⟩
      unfold outcome
      split
      · cases o with
        | cancelled =>
          simp only
          split_ifs
          · exact hc.goes rfl rfl same rfl (by simp)
          · exact hc
        | _ => exact hc.goes rfl rfl same rfl (by simp)
      · exact hc
    · exact h
  next j hidle =>
    refine ⟨ht.shutdown hidle j, hr.shutdown hidle j, ?_⟩
    unfold shutdown
    split
    · exact hc.goes rfl rfl same rfl (by simp [setShutdown, hidle])
    · split_ifs
      · exact hc.goes rfl rfl same rfl (by simp [setShutdown])
      · exact hc
    · exact hc
    · exact hc
  · exact h

end TaskEngine

end LakeKv
