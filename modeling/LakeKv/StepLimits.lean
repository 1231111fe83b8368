import LakeKv.SchedulerTurns

namespace LakeKv

open List

namespace NodeScheduler

open Scheduler

variable {role : RoleConfig} {model : ModelConfig} {s t u : Scheduler} {rid : String} {plan : Plan}
  {items : List Scheduled}

/-- `slot_mapping_by_req` of a pool that grants the step: the places of each write range. -/
def slotMapping (items : List Scheduled) (rid : String) : Option (List Int) :=
  (items.find? (·.reqId == rid)).map fun it =>
    (List.range (it.queryEnd - it.queryStart).toNat).map fun (i : Nat) => it.queryStart + i

def checkSlots (slots : String → Option (List Int)) (row : InputRow) : Except String Unit :=
  match slots row.reqId with
  | none => .ok ()
  | some taken =>
    if (taken.length : Int) = max 0 (row.queryEnd - row.queryStart) then .ok ()
    else
      .error (s!"slot_mapping len mismatch req={row.reqId}: {taken.length} != " ++
        toString (max 0 (row.queryEnd - row.queryStart)))

/-- `_run_batch` with the slots of the pool; they are looked at after the sizes of all rows. -/
def runGranted (role : RoleConfig) (model : ModelConfig) (s : Scheduler) (items : List Scheduled) :
    Except String Scheduler := do
  let done ← runBatch role model s items
  (prepareInputs items s.reqs).forM (checkSlots (slotMapping items))
  .ok done

def releaseReq (s : Scheduler) (rid : String) : Scheduler :=
  { s with reqs := Function.update s.reqs rid none }

def abandonReq (s : Scheduler) (rid : String) : Scheduler :=
  { s with
    reqs := Function.update s.reqs rid none
    waiting := s.waiting.erase rid
    running := s.running.erase rid
    mockRemaining := Function.update s.mockRemaining rid []
    inflightDecode := Function.update s.inflightDecode rid 0 }

inductive Serving (role : RoleConfig) (model : ModelConfig) : Scheduler → Prop
  | new : Serving role model .new
  | add {s t : Scheduler} {rid : String} {req : Req} {hint : Option PrefixHint} (served : Serving role model s)
      (prompt : req.promptTokenIds ≠ []) (added : s.addRequest role rid req hint = .ok t) :
      Serving role model t
  | turn {s t : Scheduler} (served : Serving role model s) (turned : s.turn role model = .ok t) :
      Serving role model t
  | release {s : Scheduler} {rid : String} (served : Serving role model s)
      (left : rid ∉ s.waiting ++ s.running) : Serving role model (releaseReq s rid)
  | abandon {s : Scheduler} (rid : String) (served : Serving role model s) :
      Serving role model (abandonReq s rid)

structure Seated (role : RoleConfig) (s : Scheduler) : Prop where
  nodup : (s.waiting ++ s.running).Nodup
  known : ∀ rid ∈ s.waiting ++ s.running, (s.reqs rid).isSome
  seats : s.running.length ≤ role.maxRunningReqs

/-- Requests may leave `running`; no other queue or entry is given up. -/
structure Thins (s t : Scheduler) : Prop where
  waiting : t.waiting = s.waiting
  running : t.running.Sublist s.running
  known : ∀ rid, (s.reqs rid).isSome → (t.reqs rid).isSome

theorem Thins.refl (s : Scheduler) : Thins s s :=
  ⟨rfl, List.Sublist.refl _, fun _ => id⟩

theorem Thins.of_same (h : Thins s t) (waiting : s.waiting = u.waiting) (running : s.running = u.running)
    (reqs : s.reqs = u.reqs) : Thins u t :=
  ⟨h.waiting.trans waiting, running ▸ h.running, reqs ▸ h.known⟩

theorem Thins.trans (h : Thins s t) (h' : Thins t u) : Thins s u :=
  ⟨h'.waiting.trans h.waiting, h'.running.trans h.running, fun rid k => h'.known rid (h.known rid k)⟩

theorem Thins.seated (h : Thins s t) (seated : Seated role s) : Seated role t := by
  have sub : (t.waiting ++ t.running).Sublist (s.waiting ++ s.running) := by
    rw [h.waiting]
    exact h.running.append_left _
  exact ⟨sub.nodup seated.nodup, fun rid hr => h.known rid (seated.known rid (sub.subset hr)),
    h.running.length_le.trans seated.seats⟩

theorem known_update {reqs : String → Option Req} (req : Req) {x : String} (h : (reqs x).isSome) :
    (Function.update reqs rid (some req) x).isSome := by
  rw [Function.update_apply]
  split
  · rfl
  · exact h

theorem thins_closeReq (s : Scheduler) (rid : String) (req : Req) : Thins s (closeReq s rid req) := by
  unfold closeReq
  split
  · exact ⟨rfl, erase_sublist, fun _ => known_update _⟩
  · exact ⟨rfl, List.Sublist.refl _, fun _ => known_update _⟩

variable {it : Scheduled}

theorem thins_processOne {tokens : String → List Int} (h : processOne role tokens s it = .ok t) : Thins s t := by
  revert h
  fun_cases processOne role tokens s it
  case case1 =>
    rintro ⟨⟩
    exact .refl _
  case case2 => exact nofun
  case case3 =>
    rintro ⟨⟩
    exact ⟨rfl, List.Sublist.refl _, fun _ => known_update _⟩
  case case4 req _ _ =>
    rintro ⟨⟩
    unfold processDecode
    split
    · exact (thins_closeReq _ _ _).of_same rfl rfl rfl
    · exact (thins_closeReq _ _ _).of_same rfl rfl rfl

theorem thins_processBatchResult {batch : BatchResult} (h : processBatchResult role s batch = .ok t) : Thins s t := by
  obtain ⟨items, tokens⟩ := batch
  change items.foldlM (processOne role tokens) s = .ok t at h
  induction items generalizing s with
  | nil =>
    cases h
    exact .refl _
  | cons it items ih =>
    rw [foldlM_cons] at h
    obtain ⟨mid, first, h⟩ := bind_eq_ok h
    exact (thins_processOne first).trans (ih h)

theorem thins_popAndProcess (h : s.popAndProcess role = .ok t) : Thins s t := by
  unfold popAndProcess at h
  split at h
  · cases h
    exact .refl _
  · exact (thins_processBatchResult h).of_same rfl rfl rfl

theorem thins_drainFrom {batches : List BatchResult} (h : drainFrom role batches s = .ok t) : Thins s t := by
  induction batches generalizing s with
  | nil =>
    cases h
    exact .refl _
  | cons batch rest ih =>
    unfold drainFrom at h
    obtain ⟨mid, first, h⟩ := bind_eq_ok h
    exact ((thins_processBatchResult first).trans (ih h)).of_same rfl rfl rfl

theorem thins_runBatch (h : runBatch role model s items = .ok t) : Thins s t := by
  obtain ⟨tokens, -, h⟩ := bind_eq_ok h
  cases h
  exact (Thins.refl _).of_same rfl rfl rfl

theorem Seated.schedule (h : Seated role s) : Seated role (s.schedule role).1 := by
  have perm := fillRunning_perm role s
  refine ⟨perm.nodup_iff.mpr h.nodup, fun rid hr => h.known rid (perm.mem_iff.mp hr), ?_⟩
  have seats := h.seats
  change (s.running ++ s.waiting.take (role.maxRunningReqs - s.running.length)).length ≤ _
  rw [length_append, length_take]
  omega

theorem Seated.turn (h : Seated role s) (turned : s.turn role model = .ok t) : Seated role t := by
  have after {mid : Scheduler} (run : runBatch role model (s.schedule role).1 (s.schedule role).2 = .ok mid) :
      Seated role mid := (thins_runBatch run).seated h.schedule
  unfold Scheduler.turn turnOverlap turnNormal at turned
  split at turned
  · split at turned
    · exact (thins_drainFrom turned).seated h.schedule
    · obtain ⟨mid, run, turned⟩ := bind_eq_ok turned
      split at turned
      · exact (thins_popAndProcess turned).seated (after run)
      · cases turned
        exact after run
  · split at turned
    · cases turned
      exact h
    · split at turned
      · exact (thins_drainFrom turned).seated h.schedule
      · obtain ⟨mid, run, turned⟩ := bind_eq_ok turned
        exact (thins_popAndProcess turned).seated (after run)

theorem Serving.seated (h : Serving role model s) : Seated role s := by
  induction h with
  | new => exact ⟨nodup_nil, nofun, Nat.zero_le _⟩
  | @add s t rid req hint _ _ added ih =>
    unfold addRequest at added
    split at added
    · cases added
    next fresh =>
      split at added
      · cases added
      cases added
      have new : rid ∉ s.waiting ++ s.running := fun hr => fresh (ih.known rid hr)
      have perm : (s.waiting ++ [rid] ++ s.running).Perm (rid :: (s.waiting ++ s.running)) := by
        rw [append_assoc]
        exact perm_middle
      refine ⟨perm.nodup_iff.mpr (nodup_cons.mpr ⟨new, ih.nodup⟩), ?_, ih.seats⟩
      intro x hx
      rcases mem_cons.mp (perm.mem_iff.mp hx) with rfl | hx
      · dsimp only
        rw [Function.update_self]
        rfl
      · exact known_update _ (ih.known x hx)
  | turn _ turned ih => exact ih.turn turned
  | @release s rid _ left ih =>
    refine ⟨ih.nodup, fun x hx => ?_, ih.seats⟩
    have other : x ≠ rid := fun same => left (same ▸ hx)
    change (Function.update s.reqs rid none x).isSome
    rw [Function.update_of_ne other]
    exact ih.known x hx
  | @abandon s rid _ ih =>
    have apart := nodup_append.mp ih.nodup
    have sub : (s.waiting.erase rid ++ s.running.erase rid).Sublist (s.waiting ++ s.running) :=
      erase_sublist.append erase_sublist
    refine ⟨sub.nodup ih.nodup, fun x hx => ?_, erase_sublist.length_le.trans ih.seats⟩
    have other : x ≠ rid := by
      rintro rfl
      rcases mem_append.mp hx with hx | hx
      · exact apart.1.not_mem_erase hx
      · exact apart.2.1.not_mem_erase hx
    change (Function.update s.reqs rid none x).isSome
    rw [Function.update_of_ne other]
    exact ih.known x (sub.subset hx)

structure Spends (role : RoleConfig) (plan : Plan) : Prop where
  spent : totalNumScheduledTokens plan.items + plan.budget = role.maxNumScheduledTokens
  left : 0 ≤ plan.budget
  narrow : 0 < role.longPrefillTokenThreshold →
    ∀ it ∈ plan.items, it.numTokens ≤ role.longPrefillTokenThreshold

section

variable (h : Spends role plan)
include h

theorem Spends.add {after : Plan}
    (items : after.items = plan.items ++ [it]) (budget : after.budget = plan.budget - it.numTokens)
    (within : it.numTokens ≤ plan.budget)
    (narrow : 0 < role.longPrefillTokenThreshold → it.numTokens ≤ role.longPrefillTokenThreshold) :
    Spends role after := by
  have spent := h.spent
  refine ⟨?_, by omega, ?_⟩
  · have total : totalNumScheduledTokens after.items = totalNumScheduledTokens plan.items + it.numTokens := by
      rw [items]
      simp [totalNumScheduledTokens]
    omega
  · intro on x hx
    rw [items] at hx
    rcases mem_append.mp hx with hx | hx
    · exact h.narrow on x hx
    · exact List.mem_singleton.mp hx ▸ narrow on

theorem Spends.decodeOne (rid : String) : Spends role (s.decodeOne role plan rid) := by
  rcases decodeOne_cases role s plan rid with same | ⟨req, -, -, -, -, budget, eq⟩
  · rw [same]
    exact h
  · rw [eq]
    exact h.add rfl rfl (by dsimp only; omega) fun on => by dsimp only; omega

theorem Spends.extendOne (rid : String) : Spends role (s.extendOne role plan rid) := by
  rcases extendOne_cases role s plan rid with same | ⟨req, -, -, -, -, -, -, eq⟩
  · rw [same]
    exact h
  rw [eq]
  refine h.add rfl rfl (chunkFor_le role req plan.budget).2 fun on => ?_
  dsimp only
  unfold chunkFor capBy
  rw [if_pos on]
  split <;> omega

end

theorem spends_planStep (role : RoleConfig) (s : Scheduler) : Spends role (s.planStep role) := by
  have start : Spends role ⟨role.maxNumScheduledTokens, [], s.inflightDecode⟩ :=
    ⟨by simp [totalNumScheduledTokens], by simp, nofun⟩
  unfold planStep
  refine List.foldlRecOn _ _ ?_ fun plan h rid _ => Spends.extendOne h rid
  exact List.foldlRecOn _ _ start fun plan h rid _ => Spends.decodeOne h rid

/-- What the role has to say for its steps to fit the runner's buffers. -/
def RoleConfig.Bounded (role : RoleConfig) : Prop :=
  min role.maxRunningReqs role.maxNumScheduledTokens ≤ maxNumReqs ∧
    (role.maxNumScheduledTokens ≤ maxNumTokens ∨
      0 < role.longPrefillTokenThreshold ∧
        role.maxRunningReqs * role.longPrefillTokenThreshold ≤ maxNumTokens)

instance (role : RoleConfig) : Decidable role.Bounded :=
  inferInstanceAs (Decidable (_ ∧ _))

theorem fits_schedule (bounded : role.Bounded) (h : Seated role s) : Fits (s.schedule role).2 := by
  have inv : PlanInv role (s.fillRunning role) ((s.fillRunning role).planStep role) :=
    planInv_planStep (nodup_append.mp h.schedule.nodup).2.1
  have spends := spends_planStep role (s.fillRunning role)
  have seats : (s.schedule role).2.length ≤ role.maxRunningReqs := by
    have sub : (s.schedule role).2.map Scheduled.reqId ⊆ (s.fillRunning role).running := by
      intro rid hr
      obtain ⟨it, hit, rfl⟩ := mem_map.mp hr
      exact inv.running it hit
    have few := (subperm_of_subset inv.nodup sub).length_le
    rw [length_map] at few
    exact few.trans h.schedule.seats
  have least : ((s.schedule role).2.length : Int) ≤ totalNumScheduledTokens (s.schedule role).2 := by
    have each : ∀ n ∈ (s.schedule role).2.map Scheduled.numTokens, 1 ≤ n := by
      intro n hn
      obtain ⟨it, hit, rfl⟩ := mem_map.mp hn
      exact (inv.allowed it hit).positive
    simpa [totalNumScheduledTokens] using card_nsmul_le_sum _ 1 each
  have total : totalNumScheduledTokens (s.schedule role).2 ≤ role.maxNumScheduledTokens := by
    have := spends.spent
    have := spends.left
    change totalNumScheduledTokens ((s.fillRunning role).planStep role).items ≤ _
    omega
  refine ⟨by have := bounded.1; omega, ?_⟩
  rcases bounded.2 with tokens | ⟨on, wide⟩
  · exact total.trans tokens
  have each : ∀ n ∈ (s.schedule role).2.map Scheduled.numTokens, n ≤ role.longPrefillTokenThreshold := by
    intro n hn
    obtain ⟨it, hit, rfl⟩ := mem_map.mp hn
    exact spends.narrow on it hit
  have most := sum_le_card_nsmul _ _ each
  rw [length_map, nsmul_eq_mul] at most
  calc totalNumScheduledTokens (s.schedule role).2
      ≤ (s.schedule role).2.length * role.longPrefillTokenThreshold := most
    _ ≤ role.maxRunningReqs * role.longPrefillTokenThreshold := by
      exact mul_le_mul_of_nonneg_right (by exact_mod_cast seats) on.le
    _ ≤ maxNumTokens := wide

theorem slotMapping_of_mem (nodup : (items.map Scheduled.reqId).Nodup) (h : it ∈ items) : slotMapping items it.reqId =
      some ((List.range (it.queryEnd - it.queryStart).toNat).map fun (i : Nat) => it.queryStart + i) := by
  unfold slotMapping
  rw [← head?_filter, filter_reqId nodup h]
  rfl

theorem Scheduler.Allowed.width (h : s.Allowed role it) : it.queryEnd - it.queryStart = it.numTokens := by
  cases h with
  | decode _ _ _ _ one _ width | extend _ _ _ _ _ _ _ query => omega

theorem checkSlots_ok (allowed : ∀ it ∈ items, s.Allowed role it) (nodup : (items.map Scheduled.reqId).Nodup) :
    ∀ row ∈ prepareInputs items s.reqs, checkSlots (slotMapping items) row = .ok () := by
  intro row hrow
  obtain ⟨it, hit, made⟩ := mem_filterMap.mp hrow
  obtain ⟨req, found, width⟩ := (allowed it hit).row
  have positive := (allowed it hit).positive
  have own := (allowed it hit).width
  rw [if_neg (by omega), found] at made
  cases made
  have name : (prepareRow req it).reqId = it.reqId := by
    unfold prepareRow
    split <;> rfl
  unfold checkSlots
  rw [name, slotMapping_of_mem nodup hit, width]
  dsimp only
  rw [length_map, length_range, if_pos (by omega)]

theorem forM_ok {α : Type} {f : α → Except String Unit} {l : List α} (h : ∀ x ∈ l, f x = .ok ()) :
    l.forM f = .ok () := by
  induction l with
  | nil => rfl
  | cons x l ih =>
    change (do f x; l.forM f) = Except.ok ()
    rw [h x mem_cons_self, ih fun y hy => h y (mem_cons_of_mem x hy)]
    rfl

/-- A worker whose role is bounded never builds a batch that its runner refuses. -/
theorem batches_run (bounded : role.Bounded) (served : Serving role model s) :
    ∃ t, runGranted role model (s.schedule role).1 (s.schedule role).2 = .ok t := by
  have seated := served.seated
  have inv : PlanInv role (s.fillRunning role) ((s.fillRunning role).planStep role) :=
    planInv_planStep (nodup_append.mp seated.schedule.nodup).2.1
  have run := executeModel_ok model (s.schedule role).1.stepId inv.allowed (fits_schedule bounded seated)
  have slots := forM_ok (checkSlots_ok inv.allowed inv.nodup)
  have run' : executeModel role model _ _ (s.schedule role).2 (s.schedule role).1.reqs = .ok _ := run
  have slots' : (prepareInputs (s.schedule role).2 (s.schedule role).1.reqs).forM
      (checkSlots (slotMapping (s.schedule role).2)) = .ok () := slots
  unfold runGranted runBatch
  rw [run', slots']
  exact ⟨_, rfl⟩

def sampleConfig : ModelConfig :=
  ⟨8, 0, 1, Nat.succ_pos 7⟩

/-- Prompts are taken two tokens at a time. -/
def chunkingRole : RoleConfig :=
  { longPrefillTokenThreshold := 2, running_pos := Nat.succ_pos 7, tokens_pos := Nat.succ_pos 8191 }

def twoRequests : Except String Scheduler := do
  let s ← Scheduler.new.addRequest chunkingRole "long" ⟨[1, 2, 3, 4, 5], 1, 0, [], false, none⟩ none
  s.addRequest chunkingRole "short" ⟨[1], 2, 0, [], false, none⟩ none

def twoTurns : Except String Scheduler := do
  let s ← twoRequests
  turns chunkingRole sampleConfig 2 s

/-- A decode of one request and the second chunk of the other's prompt share a step. -/
theorem batches_run_chunk_and_decode : chunkingRole.Bounded ∧
      ∃ s, twoTurns = .ok s ∧
        (s.schedule chunkingRole).2.map (fun it => (it.reqId, it.queryStart, it.queryEnd)) =
          [("short", 0, 1), ("long", 2, 4)] ∧
        ∃ t, runGranted chunkingRole sampleConfig (s.schedule chunkingRole).1 (s.schedule chunkingRole).2 = .ok t := by
  have served : ∀ s, twoTurns = .ok s → Serving chunkingRole sampleConfig s := by
    intro s run
    obtain ⟨s₂, added, run⟩ := bind_eq_ok run
    obtain ⟨s₁, long, short⟩ := bind_eq_ok added
    obtain ⟨s₃, first, run⟩ := bind_eq_ok run
    obtain ⟨s₄, second, run⟩ := bind_eq_ok run
    cases run
    exact .turn (.turn (.add (.add .new (by simp) long) (by simp) short) first) second
  refine ⟨by decide, _, rfl, by decide +kernel, ?_⟩
  exact batches_run (by decide) (served _ rfl)

def wideRole : RoleConfig :=
  { maxNumScheduledTokens := 8193, running_pos := Nat.succ_pos 7, tokens_pos := Nat.succ_pos 8192 }

theorem long_prompt_row {prompt : List Int} (long : prompt.length = 8193)
    (added : Scheduler.new.addRequest wideRole "r" ⟨prompt, 1, 0, [], false, none⟩ none = .ok s) :
    prepareInputs (s.schedule wideRole).2 (s.schedule wideRole).1.reqs = [⟨"r", 0, 8193, true⟩] := by
  cases added
  simp [schedule, fillRunning, planStep, decodeOne, extendOne, Scheduler.new,
    wideRole, Req.promptLen, long, chunkFor, capBy, hasUnprocessedPrompt, prepareInputs, prepareRow, placeHint]

/-- The budget of the role lets a prompt of 8193 tokens into one step; the runner has room for 8192. -/
theorem long_prompt_fails_step :
    ∃ s, Scheduler.new.addRequest wideRole "r" ⟨List.replicate 8193 0, 1, 0, [], false, none⟩ none = .ok s ∧
      Serving wideRole sampleConfig s ∧
      runGranted wideRole sampleConfig (s.schedule wideRole).1 (s.schedule wideRole).2 =
        .error "num_tokens=8193 exceeds max_num_tokens=8192" := by
  have long : (List.replicate 8193 (0 : Int)).length = 8193 := length_replicate
  generalize List.replicate 8193 (0 : Int) = prompt at long ⊢
  obtain ⟨s, added⟩ : ∃ s, Scheduler.new.addRequest wideRole "r" ⟨prompt, 1, 0, [], false, none⟩ none = .ok s :=
    ⟨_, rfl⟩
  refine ⟨s, added, .add .new ?_ added, ?_⟩
  · rintro rfl
    cases long
  · unfold runGranted runBatch executeModel materialize
    rw [if_pos rfl, long_prompt_row long added]
    rfl

end NodeScheduler

end LakeKv
