import LakeKv.IntentReceipts

namespace LakeKv

open List Reach

namespace TaskEngine

variable {α : Type} {cfg : EngineConfig} {intentId : α → String} {args : Nat → α} {s t : TaskEngine α}

/-- What a step leaves of the records and of the log. -/
structure Leaves (intentId : α → String) (s t : TaskEngine α) : Prop where
  /-- Only `_finish` settles a record, and only a pending one. -/
  heap : ∀ x < s.next, ((t.heap x).status = (s.heap x).status ∧ (t.heap x).detail = (s.heap x).detail) ∨
    (s.heap x).status = .pending ∧ ∃ status detail k, s.loop = .finish .check x status detail k
  /-- Only the end of `_finish` takes entries out, those of its id. -/
  records : ∀ p ∈ s.records, p ∈ t.records ∨
    ∃ r status detail k, s.loop = .finish .drop r status detail k ∧ p.1 = intentId (s.heap r).args
  log : s.log <:+ t.log

theorem Leaves.of_eq (heap : t.heap = s.heap) (records : t.records = s.records) (log : t.log = s.log) :
    Leaves intentId s t :=
  ⟨fun x _ => .inl (by simp [heap]), fun p hp => .inl (records ▸ hp), log ▸ suffix_rfl⟩

theorem Leaves.installed {a : α} {queued : Bool} (heap : t.heap = (s.install intentId a queued).heap)
    (records : t.records = (s.install intentId a queued).records) (log : t.log = s.log) : Leaves intentId s t := by
  refine ⟨fun x hx => .inl ?_, fun p hp => .inl ?_, log ▸ suffix_rfl⟩
  · have hne : x ≠ s.next := Nat.ne_of_lt hx
    rw [heap]
    simp [install, setRecord, hne]
  · rw [records]
    exact mem_append_left _ hp

variable {r : Nat} {status : IntentStatus} {stage : FinishStage} {detail : String} {k : FinishThen}

theorem Leaves.putNowait (h : Leaves intentId s t) : Leaves intentId s (t.putNowait cfg r) := by
  unfold TaskEngine.putNowait
  split_ifs <;> exact ⟨h.heap, h.records, h.log⟩

theorem leaves_submitIntent (s : TaskEngine α) (i : Nat) : Leaves intentId s (s.submitIntent intentId args i) := by
  unfold submitIntent
  split
  case h_2 =>
    split
    · exact .of_eq rfl rfl rfl
    · exact .installed rfl rfl rfl
  all_goals exact .of_eq rfl rfl rfl

theorem leaves_admitIntent (s : TaskEngine α) (rest : List α) (a : α) :
    Leaves intentId s ({ s with callbacks := rest }.admitIntent cfg intentId a) := by
  unfold admitIntent
  split
  · exact .of_eq rfl rfl rfl
  next r _ =>
    split_ifs
    · exact .of_eq rfl rfl rfl
    · refine Leaves.putNowait ⟨fun x _ => .inl ?_, fun _ => .inl, suffix_rfl⟩
      by_cases hx : x = r <;> simp [setRecord, hx]
    · exact .of_eq rfl rfl rfl
    · exact .of_eq rfl rfl rfl

theorem leaves_admitMissing (s : TaskEngine α) (a : α) : Leaves intentId s (s.admitMissing cfg intentId a) := by
  unfold admitMissing
  split
  · exact .of_eq rfl rfl rfl
  split_ifs
  · exact Leaves.putNowait (.installed rfl rfl rfl)
  · exact .installed rfl rfl rfl

theorem leaves_finish (hloop : s.loop = .finish stage r status detail k) :
    Leaves intentId s (s.finish cfg intentId stage r status detail k) := by
  cases stage with
  | check =>
    simp only [finish]
    split_ifs with hpass
    · refine ⟨fun x _ => ?_, fun _ => .inl, suffix_rfl⟩
      by_cases hx : x = r
      · exact .inr ⟨hx ▸ hpass.2, status, detail, k, hx ▸ hloop⟩
      · exact .inl (by simp [setRecord, hx])
    · exact .of_eq rfl rfl rfl
  | receipt => exact ⟨fun _ _ => .inl ⟨rfl, rfl⟩, fun _ => .inl, suffix_cons _ _⟩
  | trim =>
    simp only [finish]
    split_ifs <;> exact .of_eq rfl rfl rfl
  | drop =>
    refine ⟨fun _ _ => .inl ⟨rfl, rfl⟩, fun p hp => ?_, suffix_rfl⟩
    by_cases heq : p.1 = intentId (s.heap r).args
    · exact .inr ⟨r, status, detail, k, hloop, heq⟩
    · exact .inl (mem_filter.mpr ⟨hp, decide_eq_true heq⟩)

theorem leaves_step (cfg : EngineConfig) (intentId : α → String) (args : Nat → α) (s : TaskEngine α) (m : EngineMove) :
    Leaves intentId s (s.step cfg intentId args m) := by
  unfold step
  split
  next i => exact leaves_submitIntent s i
  · unfold advance
    cases hloop : s.loop with
    | idle => exact .of_eq rfl rfl rfl
    | admitMissing a => exact leaves_admitMissing s a
    | finish stage r status detail k => exact leaves_finish hloop
    | resume k =>
      cases k with
      | blamed c =>
        simp only [resume]
        split_ifs <;> exact .of_eq rfl rfl rfl
      | _ => exact .of_eq rfl rfl rfl
    | drain k =>
      simp only [failNeverStarted]
      split
      · exact .of_eq rfl rfl rfl
      · split <;> exact .of_eq rfl rfl rfl
    | sweep rest j =>
      cases rest with
      | nil => exact .of_eq rfl rfl rfl
      | cons r rest =>
        simp only [sweep]
        split_ifs <;> exact .of_eq rfl rfl rfl
  · split
    next a rest _ => exact leaves_admitIntent s rest a
    · exact .of_eq rfl rfl rfl
  next c _ =>
    split_ifs
    · unfold take
      split <;> exact .of_eq rfl rfl rfl
    · exact .of_eq rfl rfl rfl
  next c _ =>
    split_ifs
    · unfold dismiss
      split <;> exact .of_eq rfl rfl rfl
    · exact .of_eq rfl rfl rfl
  next c o _ =>
    split_ifs
    · unfold outcome
      split
      · cases o with
        | cancelled =>
          simp only
          split_ifs <;> exact .of_eq rfl rfl rfl
        | _ => exact .of_eq rfl rfl rfl
      · exact .of_eq rfl rfl rfl
    · exact .of_eq rfl rfl rfl
  next j _ =>
    unfold shutdown
    split
    · exact .of_eq rfl rfl rfl
    · split_ifs <;> exact .of_eq rfl rfl rfl
    · exact .of_eq rfl rfl rfl
    · exact .of_eq rfl rfl rfl
  · exact .of_eq rfl rfl rfl

def EngineReach (cfg : EngineConfig) (intentId : α → String) (args : Nat → α) : TaskEngine α → Prop :=
  Reach (step cfg intentId args) Started fun _ _ => True

def Later (cfg : EngineConfig) (intentId : α → String) (args : Nat → α) (s : TaskEngine α) : TaskEngine α → Prop :=
  Reach (step cfg intentId args) (· = s) fun _ _ => True

theorem EngineReach.sound (h : EngineReach cfg intentId args s) : s.Sound cfg intentId args :=
  invariant (fun _ hs => hs.sound) (fun _ m hs _ => hs.step m) h

theorem Later.sound (hs : s.Sound cfg intentId args) (h : Later cfg intentId args s t) : t.Sound cfg intentId args :=
  invariant (fun _ ht => ht ▸ hs) (fun _ m ht _ => ht.step m) h

theorem Later.log (h : Later cfg intentId args s t) : s.log <:+ t.log :=
  invariant (I := fun t => s.log <:+ t.log) (fun _ ht => ht ▸ suffix_rfl)
    (fun t m ht _ => ht.trans (leaves_step cfg intentId args t m).log) h

/-- All consumers have ended, all callbacks have run, no `submit_intent` call has a callback still to post, and no
`shutdown` is under way. -/
structure Quiet (cfg : EngineConfig) (s : TaskEngine α) : Prop where
  ended : ∀ c < cfg.consumerCount, s.consumers c = .ended
  ran : s.callbacks = [] ∧ s.loop = .idle
  posted : ∀ i, s.submits i ≠ .inserted
  stopped : ∀ j, s.shutdowns j ≠ .waiting

section

variable (h : s.Sound cfg intentId args)
include h

theorem Sound.executes_alone {c c' r r' : Nat} (hc : s.consumers c = .executing r)
    (hc' : s.consumers c' = .executing r') (hid : intentId (s.heap r).args = intentId (s.heap r').args) : c = c' := by
  obtain ⟨φ, ht⟩ := h.tracked
  have hr := (ht.executing r c).mpr hc
  have hr' := (ht.executing r' c').mpr hc'
  have hslot := ht.lookup.mpr ⟨by rw [hr]; rfl, hid⟩
  have hslot' := ht.lookup.mpr ⟨by rw [hr']; rfl, rfl⟩
  have heq : r = r' := Option.some.inj (hslot.symm.trans hslot')
  rw [heq, hr'] at hr
  exact (Phase.executing.inj hr).symm

theorem Sound.settled (hq : s.Quiet cfg) (hr : r < s.next) : (s.heap r).status ≠ .pending := by
  obtain ⟨φ, ht⟩ := h.tracked
  have hpresent : φ r ≠ .absent := fun habs => absurd hr (Nat.not_lt.mpr ((ht.absent r).mp habs))
  intro hpending
  have hlive := (ht.pending r hpresent).mp hpending
  cases hphase : φ r with
  | absent | closing | gone => simp [hphase, Phase.live] at hlive
  | announced =>
    rcases ht.announced r hphase with ⟨i, hi, -⟩ | ⟨a, ha, -⟩
    · exact hq.posted i hi
    · simp [hq.ran.1] at ha
  | enqueued =>
    have hin := (ht.enqueued r).mp hphase
    have hstop : s.accepting = false := by
      by_contra haccept
      obtain ⟨c, hc, hne⟩ := h.ruled.alive (eq_true_of_ne_false haccept)
      exact hne (hq.ended c hc)
    rcases h.ruled.drained hstop with hnil | ⟨j, hj⟩ | hdrain
    · simp [hnil] at hin
    · exact hq.stopped j hj
    · simp [hq.ran.2, EventLoop.draining] at hdrain
  | executing c =>
    have hc := (ht.executing r c).mp hphase
    simp [hq.ended c (h.ruled.takers c r hc)] at hc
  | held =>
    have hheld := (ht.held r).mp hphase
    simp [hq.ran.2, EventLoop.held] at hheld

theorem Sound.status_known {i : Nat} (hi : s.submits i = .returned)
    (ht : Later cfg intentId args s t) (hnone : s.intentStatus t (intentId (args i)) = none) :
    cfg.finishedMax ≤ (othersAfter (intentId (args i)) t.log).card := by
  unfold intentStatus at hnone
  cases hslot : s.records.lookup (intentId (args i)) with
  | some r => simp [hslot] at hnone
  | none =>
    simp only [hslot, Option.map_eq_none_iff] at hnone
    have hlog := (h.receipts.known i (.inr hi)).resolve_left (AssocList.lookup_eq_none_iff.mp hslot)
    have hkept := (ht.sound h).receipts.kept _ (ht.log.subset hlog)
    have hcard := hkept.resolve_left (AssocList.lookup_eq_none_iff.mp hnone)
    exact (Nat.le_max_right _ _).trans hcard

theorem Sound.others_stay (m : EngineMove) (hloop : s.loop = .finish stage r status detail k) {x : Nat}
    (hx : x < s.next) (hne : x ≠ r) : ((s.step cfg intentId args m).heap x).status = (s.heap x).status ∧
      ((s.step cfg intentId args m).heap x).detail = (s.heap x).detail ∧
        ∀ id, (id, x) ∈ s.records → (id, x) ∈ (s.step cfg intentId args m).records := by
  have hleaves := leaves_step cfg intentId args s m
  have hheap := (hleaves.heap x hx).resolve_right fun ⟨_, status', detail', k', hl⟩ => by
    rw [hloop] at hl
    cases hl
    exact hne rfl
  refine ⟨hheap.1, hheap.2, fun id hid => (hleaves.records _ hid).resolve_right ?_⟩
  rintro ⟨r', status', detail', k', hl, hkey⟩
  rw [hloop] at hl
  cases hl
  obtain ⟨φ, ht⟩ := h.tracked
  have hphase : φ r = .closing := (ht.closing r).mpr (by rw [hloop]; rfl)
  have hslot := ht.lookup.mpr ⟨by rw [hphase]; rfl, rfl⟩
  obtain ⟨hin, heq⟩ := (ht.table id x).mp hid
  exact ht.other_id hslot hin hne (heq.trans hkey)

end

/-- Intents are executed one at a time for each id, are settled once, and none is lost. -/
theorem intents_settled_once (cfg : EngineConfig) (intentId : α → String) (args : Nat → α) {s : TaskEngine α}
    (h : EngineReach cfg intentId args s) :
    (∀ c c' r r', s.consumers c = .executing r → s.consumers c' = .executing r' →
      intentId (s.heap r).args = intentId (s.heap r').args → c = c') ∧
    (∀ m, ∀ r < s.next, (s.heap r).status ≠ .pending →
      ((s.step cfg intentId args m).heap r).status = (s.heap r).status ∧
        ((s.step cfg intentId args m).heap r).detail = (s.heap r).detail) ∧
    (∀ m stage r status detail k, s.loop = .finish stage r status detail k → ∀ x < s.next, x ≠ r →
      ((s.step cfg intentId args m).heap x).status = (s.heap x).status ∧
        ((s.step cfg intentId args m).heap x).detail = (s.heap x).detail ∧
          ∀ id, (id, x) ∈ s.records → (id, x) ∈ (s.step cfg intentId args m).records) ∧
    (∀ i t, s.submits i = .returned → Later cfg intentId args s t → s.intentStatus t (intentId (args i)) = none →
      cfg.finishedMax ≤ (othersAfter (intentId (args i)) t.log).card) ∧
    (s.Quiet cfg → ∀ r < s.next, (s.heap r).status ≠ .pending) := by
  have hs := h.sound
  refine ⟨fun c c' r r' => hs.executes_alone, fun m r hr hne => ?_, fun m stage r status detail k hl x hx hne =>
    hs.others_stay m hl hx hne, fun i t hi ht => hs.status_known hi ht, fun hq r hr => hs.settled hq hr⟩
  exact ((leaves_step cfg intentId args s m).heap r hr).resolve_right fun hp => hne hp.1

def sampleEngine : TaskEngine String where
  heap := fun _ => ⟨"", .pending, "", false⟩
  next := 0
  records := []
  finished := []
  queue := []
  callbacks := []
  accepting := true
  programmingErrors := 0
  loop := .idle
  consumers := fun _ => .waiting
  cancelling := fun _ => false
  submits := fun _ => .fresh
  shutdowns := fun _ => .fresh
  log := []

theorem sampleEngine_started : sampleEngine.Started :=
  ⟨rfl, rfl, rfl, rfl, rfl, rfl, rfl, rfl, rfl, fun _ => rfl, fun _ => rfl, fun _ => rfl, fun _ => rfl⟩

def sampleEngineConfig : EngineConfig :=
  ⟨1, 0, 1, Nat.one_pos⟩

def sampleIntent : Nat → String :=
  fun _ => "prefix|instance"

def sampleAfter (moves : List EngineMove) : TaskEngine String :=
  moves.foldl (step sampleEngineConfig id sampleIntent) sampleEngine

theorem sampleAfter_reach (moves : List EngineMove) :
    EngineReach sampleEngineConfig id sampleIntent (sampleAfter moves) :=
  foldl (.start sampleEngine_started) (allowed_true _ _)

def sampleDay : List EngineMove :=
  List.replicate 3 (.submitIntent 0) ++ [.callback, .take 0] ++ List.replicate 2 (.submitIntent 1) ++
    [.outcome 0 .success] ++ List.replicate 5 .loop ++ [.shutdown 0, .dismiss 0, .shutdown 0, .loop, .loop]

theorem intents_settled_once_sample : ∃ s : TaskEngine String, EngineReach sampleEngineConfig id sampleIntent s ∧
    s.Quiet sampleEngineConfig ∧ s.next = 1 ∧ (s.heap 0).status ≠ .pending := by
  have hquiet : (sampleAfter sampleDay).Quiet sampleEngineConfig := by
    refine ⟨by decide, ⟨by decide, by decide⟩, fun i => ?_, fun j => ?_⟩
    · match i with
      | 0 => decide
      | 1 => decide
      | i + 2 => exact SubmitIntentPc.noConfusion
    · match j with
      | 0 => decide
      | j + 1 => exact ShutdownPc.noConfusion
  have hall := intents_settled_once sampleEngineConfig id sampleIntent (sampleAfter_reach sampleDay)
  exact ⟨_, sampleAfter_reach sampleDay, hquiet, by decide, hall.2.2.2.2 hquiet 0 (by decide)⟩

/-- A call tests `_accepting` before the shutdown and inserts its record after it. -/
def sampleLateInsert : List EngineMove :=
  [.submitIntent 0, .shutdown 0, .dismiss 0, .shutdown 0, .loop, .loop, .submitIntent 0]

/-- The only consumer has ended, and the shutdown has not come to the record that still waits in the queue. -/
def sampleUnswept : List EngineMove :=
  List.replicate 3 (.submitIntent 0) ++ [.callback, .shutdown 0, .dismiss 0]

/-- In each of the two states one condition of `Quiet` fails, and a record is pending. -/
theorem late_insert_pending :
    (∃ s : TaskEngine String, EngineReach sampleEngineConfig id sampleIntent s ∧
      (∀ c < sampleEngineConfig.consumerCount, s.consumers c = .ended) ∧ s.callbacks = [] ∧ s.loop = .idle ∧
        s.shutdowns 0 = .done ∧ ∃ r, ("prefix|instance", r) ∈ s.records ∧ (s.heap r).status = .pending) ∧
    ∃ s : TaskEngine String, EngineReach sampleEngineConfig id sampleIntent s ∧
      (∀ c < sampleEngineConfig.consumerCount, s.consumers c = .ended) ∧ s.callbacks = [] ∧ s.loop = .idle ∧
        s.submits 0 = .returned ∧ s.shutdowns 0 = .waiting ∧
          ∃ r, ("prefix|instance", r) ∈ s.records ∧ (s.heap r).status = .pending :=
  ⟨⟨_, sampleAfter_reach sampleLateInsert, by decide, by decide, by decide, by decide, 0, by decide, by decide⟩,
    _, sampleAfter_reach sampleUnswept, by decide, by decide, by decide, by decide, by decide, 0, by decide, by decide⟩

end TaskEngine

end LakeKv
