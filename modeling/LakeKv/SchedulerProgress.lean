import LakeKv.SchedulerProcess

namespace LakeKv

open List Option

namespace NodeScheduler

variable {role : RoleConfig} {model : ModelConfig} {s t : Scheduler} {rid : String} {req : Req}
  {it : Scheduled}

structure Turning (role : RoleConfig) (s : Scheduler) : Prop where
  inv : Inv role s
  room : s.resultQueue.length ≤ if role.enableOverlap then 1 else 0
  distinct : ∀ batch ∈ s.resultQueue, (batch.items.map Scheduled.reqId).Nodup

inductive Advance (role : RoleConfig) (model : ModelConfig) (s t : Scheduler) : Prop
  | rest (idle : s.hasWork = false) (same : t = s)
  | drain (none : (s.schedule role).2 = []) (empty : t.resultQueue = [])
      (kept : Kept role (s.fillRunning role) t)
  | launch (some : (s.schedule role).2 ≠ []) (kept : Kept role (launched role model s) t)

theorem total_eq_zero_iff (h : Inv role s) :
    Scheduler.totalNumScheduledTokens (s.schedule role).2 = 0 ↔ (s.schedule role).2 = [] := by
  have positive : ∀ it ∈ (s.schedule role).2, 0 < it.numTokens :=
    fun it hit => (h.planInv.allowed it hit).positive
  constructor
  · intro zero
    cases items : (s.schedule role).2 with
    | nil => rfl
    | cons it rest =>
      rw [items] at zero positive
      have first := positive it mem_cons_self
      have others : 0 ≤ (rest.map Scheduled.numTokens).sum := by
        apply sum_nonneg
        intro n hn
        obtain ⟨x, hx, rfl⟩ := mem_map.mp hn
        exact (positive x (mem_cons_of_mem it hx)).le
      have sum : it.numTokens + (rest.map Scheduled.numTokens).sum = 0 := zero
      omega
  · intro none
    rw [none]
    rfl

theorem schedule_of_nil (h : Inv role s) (none : (s.schedule role).2 = []) :
    (s.schedule role).1 = s.fillRunning role := by
  have same : ((s.fillRunning role).planStep role).inflightDecode = s.inflightDecode := by
    funext rid
    apply h.planInv.kept rid
    intro it hit
    have : it ∈ (s.schedule role).2 := hit
    rw [none] at this
    cases this
  unfold Scheduler.schedule
  rw [same]
  rfl

section

variable (h : Turning role s)
include h

theorem Turning.drain (none : (s.schedule role).2 = []) :
    ∃ t, (s.schedule role).1.drainResults role = .ok t ∧ Turning role t ∧ Advance role model s t := by
  have inv : Inv role (s.schedule role).1 := by
    rw [schedule_of_nil h.inv none]
    exact h.inv.fillRunning
  obtain ⟨t, hdrain, empty, inv', kept⟩ := drainResults_spec inv
  rw [schedule_of_nil h.inv none] at kept
  refine ⟨t, hdrain, ⟨inv', ?_, ?_⟩, .drain none empty kept⟩
  · rw [empty]
    exact Nat.zero_le _
  · rw [empty]
    exact fun _ hb => absurd hb not_mem_nil

theorem launched_distinct (model : ModelConfig) :
    ∀ batch ∈ (launched role model s).resultQueue, (batch.items.map Scheduled.reqId).Nodup := by
  intro batch hb
  rcases mem_append.mp hb with hb | hb
  · exact h.distinct batch hb
  · rw [mem_singleton.mp hb]
    exact h.inv.planInv.nodup

theorem Turning.pop (some : (s.schedule role).2 ≠ []) :
    ∃ t, (launched role model s).popAndProcess role = .ok t ∧ Turning role t ∧ Advance role model s t := by
  have inv := h.inv.launched model
  have distinct := launched_distinct h model
  cases queue : (launched role model s).resultQueue with
  | nil =>
    have : s.resultQueue ++ _ = [] := queue
    simp at this
  | cons batch more =>
    obtain ⟨t, hpop, hqueue, inv', kept⟩ := popAndProcess_spec queue inv
    have length : s.resultQueue.length + 1 = more.length + 1 := by
      have := congrArg length queue
      simpa [launched] using this
    refine ⟨t, hpop, ⟨inv', ?_, ?_⟩, .launch some kept⟩
    · rw [hqueue]
      have := h.room
      omega
    · rw [hqueue]
      intro b hb
      exact distinct b (queue ▸ mem_cons_of_mem batch hb)

theorem Turning.turnOverlap (overlap : role.enableOverlap = true) (fits : Fits (s.schedule role).2) :
    ∃ t, Scheduler.turnOverlap role model s = .ok t ∧ Turning role t ∧ Advance role model s t := by
  unfold Scheduler.turnOverlap
  by_cases none : (s.schedule role).2 = []
  · rw [if_pos ((total_eq_zero_iff h.inv).mpr none)]
    exact h.drain none
  rw [if_neg fun zero => none ((total_eq_zero_iff h.inv).mp zero), runBatch_schedule h.inv fits]
  change ∃ t, (if 1 < (launched role model s).resultQueue.length then
      (launched role model s).popAndProcess role else .ok (launched role model s)) = .ok t ∧ _
  by_cases full : 1 < (launched role model s).resultQueue.length
  · rw [if_pos full]
    exact h.pop none
  rw [if_neg full]
  refine ⟨_, rfl, ⟨h.inv.launched model, ?_, launched_distinct h model⟩, .launch none (Kept.refl role _)⟩
  rw [if_pos overlap]
  omega

theorem Turning.turnNormal (fits : Fits (s.schedule role).2) :
    ∃ t, Scheduler.turnNormal role model s = .ok t ∧ Turning role t ∧ Advance role model s t := by
  unfold Scheduler.turnNormal
  by_cases idle : s.hasWork = false
  · rw [if_pos (by simp [idle])]
    exact ⟨s, rfl, h, .rest idle rfl⟩
  rw [if_neg (by simpa using idle)]
  by_cases none : (s.schedule role).2 = []
  · rw [if_pos ((total_eq_zero_iff h.inv).mpr none)]
    exact h.drain none
  · rw [if_neg fun zero => none ((total_eq_zero_iff h.inv).mp zero), runBatch_schedule h.inv fits]
    exact h.pop none

theorem Turning.turn (model : ModelConfig) (fits : Fits (s.schedule role).2) :
    ∃ t, Scheduler.turn role model s = .ok t ∧ Turning role t ∧ Advance role model s t := by
  unfold Scheduler.turn
  cases overlap : role.enableOverlap with
  | true => exact h.turnOverlap overlap fits
  | false => exact h.turnNormal fits

end

theorem Fine.schedulable (fine : Fine role req (s.inflightDecode rid) (s.mockRemaining rid) [])
    (found : s.reqs rid = some req) (unfinished : req.finished = false) (empty : s.resultQueue = []) :
    Scheduler.decodeOne role s (Scheduler.startPlan role s) rid ≠ Scheduler.startPlan role s ∨
      Scheduler.extendOne role s (Scheduler.startPlan role s) rid ≠ Scheduler.startPlan role s := by
  have tokens : (0 : Int) < role.maxNumScheduledTokens := by exact_mod_cast role.tokens_pos
  have budget : 0 < (Scheduler.startPlan role s).budget := tokens
  have maxNew := fine.maxNew_pos
  cases fine.stage with
  | prompt computing =>
    right
    have processed : s.hasUnprocessedPrompt rid req.promptLen = false := by
      simp [Scheduler.hasUnprocessedPrompt, empty]
    have chunk : 0 < Scheduler.chunkFor role req (Scheduler.startPlan role s).budget := by
      have length := fine.length
      unfold Scheduler.chunkFor Scheduler.capBy
      split <;> split <;> omega
    have fresh : ∀ it ∈ (Scheduler.startPlan role s).items, it.reqId ≠ rid := by
      simp [Scheduler.startPlan]
    rw [Scheduler.extendOne_eq budget fresh found unfinished computing processed chunk]
    intro same
    have := congrArg Scheduler.Plan.items same
    simp [Scheduler.addExtend] at this
  | generating computed inflight _ finished =>
    left
    have zero : s.inflightDecode rid = 0 := inflight
    have more : ¬ req.maxNewTokens ≤ req.numOutputTokens := by
      rw [unfinished] at finished
      simpa using finished.symm
    have left : 0 < Scheduler.leftToGenerate role s rid req (s.inflightDecode rid) := by
      rw [fine.leftToGenerate_eq]
      omega
    have room : 0 < Scheduler.roomFor role req (s.inflightDecode rid) (Scheduler.startPlan role s).budget
        (Scheduler.leftToGenerate role s rid req (s.inflightDecode rid)) := by
      have length := fine.length
      unfold Scheduler.roomFor
      split <;> omega
    rw [Scheduler.decodeOne_eq budget found unfinished (by omega) left room]
    intro same
    have := congrArg Scheduler.Plan.items same
    simp [Scheduler.addDecode] at this

theorem schedule_ne_nil (h : Inv role s) (empty : s.resultQueue = []) (work : s.hasWork = true) :
    (s.schedule role).2 ≠ [] := by
  intro none
  have stuck := Scheduler.planStep_items_nil (s := s.fillRunning role) none
  have some_running : (s.fillRunning role).running ≠ [] := by
    have slots := role.running_pos
    intro nobody
    obtain ⟨running, taken⟩ := append_eq_nil_iff.mp nobody
    have waiting : s.waiting = [] := by
      rw [running, length_nil] at taken
      cases hw : s.waiting with
      | nil => rfl
      | cons x xs =>
        obtain ⟨n, hn⟩ := Nat.exists_eq_succ_of_ne_zero (by omega : role.maxRunningReqs - 0 ≠ 0)
        rw [hw, hn] at taken
        cases taken
    simp [Scheduler.hasWork, running, waiting, empty] at work
  obtain ⟨rid, hrid⟩ := exists_mem_of_ne_nil _ some_running
  obtain ⟨req, found, unfinished⟩ :=
    (h.fillRunning.unfinished rid).mp (mem_append_right _ hrid)
  have fine := h.fillRunning.fine rid req found
  have idle : (s.fillRunning role).pending rid = [] := by
    have : (s.fillRunning role).resultQueue = [] := empty
    simp [Scheduler.pending, this]
  rw [idle] at fine
  rcases fine.schedulable found unfinished empty with moved | moved
  · exact moved (stuck rid hrid).1
  · exact moved (stuck rid hrid).2

/-- The tokens no step has scheduled, over the requests that are not finished. -/
def left (s : Scheduler) : Int :=
  ((s.waiting ++ s.running).map s.todo).sum

theorem Inv.todo_nonneg (h : Inv role s) (rid : String) : 0 ≤ s.todo rid := by
  unfold Scheduler.todo
  cases found : s.reqs rid with
  | none => exact le_rfl
  | some req =>
    have fine := h.fine rid req found
    rw [map_some, getD_some]
    cases fine.stage with
    | prompt computing _ _ _ part =>
      rcases part with empty | ⟨it, hpend, -, -, within⟩
      · rw [empty, map_nil, sum_nil]
        omega
      · rw [hpend, map_cons, map_nil, sum_cons, sum_nil]
        dsimp only
        omega
    | generating computed _ bound _ tokens =>
      have ones : ((s.pending rid).map fun entry => entry.1.numTokens).sum = (s.pending rid).length := by
        have all : ((s.pending rid).map fun entry => entry.1.numTokens) = (s.pending rid).map fun _ => (1 : Int) :=
          map_congr_left fun p hp => (tokens p hp).1
        rw [all]
        simp
      rw [ones]
      omega

theorem left_nonneg (h : Inv role s) : 0 ≤ left s := by
  apply sum_nonneg
  intro n hn
  obtain ⟨rid, -, rfl⟩ := mem_map.mp hn
  exact h.todo_nonneg rid

theorem left_fillRunning (role : RoleConfig) (s : Scheduler) : left (s.fillRunning role) = left s :=
  ((fillRunning_perm role s).map s.todo).sum_eq

theorem Kept.left_le (kept : Kept role s t) (h : Inv role s) : left t ≤ left s := by
  have todo : t.todo = s.todo := funext kept.todo
  have sub : (t.waiting ++ t.running).Sublist (s.waiting ++ s.running) := by
    rw [kept.waiting]
    exact (List.Sublist.refl _).append kept.running
  unfold left
  rw [todo]
  refine (sub.map s.todo).sum_le_sum ?_
  intro n hn
  obtain ⟨rid, -, rfl⟩ := mem_map.mp hn
  exact h.todo_nonneg rid

theorem todo_launched (h : Inv role s) (model : ModelConfig) (rid : String) :
    (launched role model s).todo rid ≤ s.todo rid ∧
      ((∃ it ∈ (s.schedule role).2, it.reqId = rid) → (launched role model s).todo rid < s.todo rid) := by
  have reqs : (launched role model s).reqs rid = s.reqs rid := rfl
  rcases h.launched_cases model rid with ⟨-, hpend, none⟩ |
    ⟨req, it, token, found, -, -, -, -, one, -, -, -, hpend⟩ |
    ⟨req, it, found, -, -, -, -, positive, -, -, -, hpend⟩
  · unfold Scheduler.todo
    rw [reqs, hpend]
    refine ⟨le_rfl, ?_⟩
    rintro ⟨it, hit, same⟩
    exact absurd same (none it hit)
  all_goals
    have lower : (launched role model s).todo rid < s.todo rid := by
      unfold Scheduler.todo
      rw [reqs, hpend, found, map_some, map_some, getD_some, getD_some,
        map_append, sum_append, map_cons, map_nil, sum_cons, sum_nil]
      dsimp only
      omega
    exact ⟨lower.le, fun _ => lower⟩

theorem left_launched (h : Inv role s) (model : ModelConfig) (some : (s.schedule role).2 ≠ []) :
    left (launched role model s) < left s := by
  obtain ⟨it, hit⟩ := exists_mem_of_ne_nil _ some
  rw [← left_fillRunning role s]
  refine sum_lt_sum _ _ (fun rid _ => (todo_launched h model rid).1) ⟨it.reqId, ?_, ?_⟩
  · exact mem_append_right _ (h.planInv.running it hit)
  · exact (todo_launched h model it.reqId).2 ⟨it, hit, rfl⟩

theorem Advance.measure (h : Turning role s) (turning : Turning role t) (work : s.hasWork = true)
    (adv : Advance role model s t) : 2 * left t + t.resultQueue.length < 2 * left s + s.resultQueue.length := by
  cases adv with
  | rest idle => rw [idle] at work; cases work
  | drain none empty kept =>
    have le := kept.left_le h.inv.fillRunning
    rw [left_fillRunning] at le
    have waits : s.resultQueue ≠ [] := fun hq => schedule_ne_nil h.inv hq work none
    have := length_pos_of_ne_nil waits
    rw [empty, length_nil]
    omega
  | launch some kept =>
    have le := kept.left_le (h.inv.launched model)
    have lt := left_launched h.inv model some
    have room := turning.room
    split at room <;> omega

theorem Turning.settles (h : Turning role s)
    (fits : ∀ n t, Scheduler.turns role model n s = .ok t → Fits (t.schedule role).2) :
    ∃ n t, Scheduler.turns role model n s = .ok t ∧ t.hasWork = false := by
  obtain ⟨m, hm⟩ : ∃ m : Nat, 2 * left s + s.resultQueue.length ≤ m := by
    have := left_nonneg h.inv
    exact ⟨(2 * left s + s.resultQueue.length).toNat, by omega⟩
  induction m generalizing s with
  | zero =>
    refine ⟨0, s, rfl, ?_⟩
    by_contra work
    obtain ⟨t, -, turning, adv⟩ := h.turn model (fits 0 s rfl)
    have lower := adv.measure h turning (by simpa using work)
    have := left_nonneg turning.inv
    omega
  | succ m ih =>
    by_cases idle : s.hasWork = false
    · exact ⟨0, s, rfl, idle⟩
    obtain ⟨t, hturn, turning, adv⟩ := h.turn model (fits 0 s rfl)
    have lower := adv.measure h turning (by simpa using idle)
    have later : ∀ n, Scheduler.turns role model (n + 1) s = Scheduler.turns role model n t := by
      intro n
      rw [Scheduler.turns, hturn]
      rfl
    obtain ⟨n, u, hu, hidle⟩ := ih turning (fun n u hu => fits (n + 1) u ((later n).trans hu)) (by omega)
    exact ⟨n + 1, u, (later n).trans hu, hidle⟩

end NodeScheduler

end LakeKv
