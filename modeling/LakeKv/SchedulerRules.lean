import LakeKv.NodeScheduler
import Mathlib.Algebra.Order.BigOperators.Group.List
import Mathlib.Data.List.Nodup

namespace LakeKv

open Function List

namespace NodeScheduler

theorem greedyFrom_of_le {vs : List Nat} {best : Nat} (low : ∀ v ∈ vs, v ≤ best) (i bestI : Nat) :
    greedyFrom i bestI best vs = bestI := by
  induction vs generalizing i with
  | nil => rfl
  | cons v vs ih =>
    have here : ¬ best < v := by
      have := low v mem_cons_self
      omega
    rw [greedyFrom, if_neg here]
    exact ih (fun w hw => low w (mem_cons_of_mem v hw)) (i + 1)

theorem greedyFrom_set {n t : Nat} (h : t < n) (i bestI : Nat) :
    greedyFrom i bestI 0 ((replicate n 0).set t 1) = i + t := by
  induction n generalizing t i with
  | zero => omega
  | succ n ih =>
    cases t with
    | zero =>
      have low : ∀ v ∈ replicate n 0, v ≤ 1 := by
        intro v hv
        have := eq_of_mem_replicate hv
        omega
      rw [replicate_succ, set_cons_zero, greedyFrom, if_pos (by omega)]
      exact greedyFrom_of_le low _ _
    | succ t =>
      rw [replicate_succ, set_cons_succ, greedyFrom, if_neg (by omega), ih (by omega)]
      omega

variable (model)

theorem greedySample_dummyModelLogits (context : List Int) :
    (greedySample (dummyModelLogits model context) : Int) = dummyModelToken model context := by
  have pos : (0 : Int) < model.vocabSize := by exact_mod_cast model.vocab_pos
  have nonneg : 0 ≤ dummyModelToken model context := Int.emod_nonneg _ (by omega)
  have below : dummyModelToken model context < model.vocabSize := Int.emod_lt_of_pos _ pos
  obtain ⟨t, ht⟩ := Int.eq_ofNat_of_zero_le nonneg
  have hlt : t < model.vocabSize := by omega
  unfold greedySample dummyModelLogits
  rw [ht, Int.toNat_natCast]
  cases t with
  | zero =>
    obtain ⟨n, hn⟩ := Nat.exists_eq_succ_of_ne_zero (by omega : model.vocabSize ≠ 0)
    rw [hn, Nat.succ_eq_add_one, replicate_succ, set_cons_zero, headD_cons]
    rw [greedyFrom_of_le]
    intro v hv
    rcases mem_cons.mp hv with rfl | hv
    · exact le_rfl
    · have := eq_of_mem_replicate hv
      omega
  | succ t =>
    obtain ⟨n, hn⟩ := Nat.exists_eq_succ_of_ne_zero (by omega : model.vocabSize ≠ 0)
    have head : ((replicate model.vocabSize 0).set (t + 1) 1).headD 0 = 0 := by
      rw [hn, Nat.succ_eq_add_one, replicate_succ, set_cons_succ, headD_cons]
    rw [head, greedyFrom_set hlt]
    omega

def modelTokens (model : ModelConfig) (prompt : List Int) : Nat → List Int
  | 0 => []
  | n + 1 => modelTokens model prompt n ++
      [dummyModelToken model (prompt ++ modelTokens model prompt n)]

@[simp] theorem length_modelTokens (prompt : List Int) (n : Nat) :
    (modelTokens model prompt n).length = n := by
  induction n with
  | zero => rfl
  | succ n ih => simp [modelTokens, ih]

theorem take_modelTokens (prompt : List Int) {k n : Nat} (h : k ≤ n) :
    (modelTokens model prompt n).take k = modelTokens model prompt k := by
  induction n with
  | zero =>
    have : k = 0 := by omega
    subst this
    rfl
  | succ n ih =>
    by_cases hk : k = n + 1
    · subst hk
      exact take_of_length_le (by simp)
    · rw [modelTokens, take_append_of_le_length (by simp; omega)]
      exact ih (by omega)

theorem dummyModelToken_append (context : List Int) :
    dummyModelToken model (context ++ [dummyModelToken model context]) = dummyModelToken model context ↔
      (model.vocabSize : Int) ∣ context.length + model.numHiddenLayers + 1 := by
  have last : (context ++ [dummyModelToken model context]).getLastD model.bosTokenId =
      dummyModelToken model context := by
    simp [getLastD_eq_getLast?]
  have length : ((context ++ [dummyModelToken model context]).length : Int) = context.length + 1 := by
    simp
  have next : dummyModelToken model (context ++ [dummyModelToken model context]) =
      (context.getLastD model.bosTokenId + context.length + model.numHiddenLayers +
        (context.length + model.numHiddenLayers + 1)) % model.vocabSize := by
    rw [dummyModelToken, last, length, dummyModelToken, add_assoc (_ % _), Int.emod_add_emod]
    congr 1
    omega
  rw [next, dummyModelToken, Int.emod_eq_emod_iff_emod_sub_eq_zero, add_sub_cancel_left, Int.dvd_iff_emod_eq_zero]

def BatchResult.entries (batch : BatchResult) (rid : String) : List (Scheduled × List Int) :=
  (batch.items.filter (·.reqId == rid)).map fun it => (it, batch.nextTokenIds rid)

def Scheduler.pending (s : Scheduler) (rid : String) : List (Scheduled × List Int) :=
  s.resultQueue.flatMap fun batch => batch.entries rid

/-- Where a request stands, with its tokens in flight and its entries in the queue: in its prompt, of which
one part at most is in the queue, or past it, with one token for each entry. -/
inductive Stage (role : RoleConfig) (req : Req) (inflight : Int)
    (pending : List (Scheduled × List Int)) : Prop
  | prompt (computing : req.numComputedTokens < req.promptLen) (outputs : req.outputTokenIds = [])
      (unfinished : req.finished = false) (idle : inflight = 0)
      (part : pending = [] ∨ ∃ it, pending = [(it, [])] ∧ it.computedAt = req.numComputedTokens ∧
        0 < it.numTokens ∧ req.numComputedTokens + it.numTokens ≤ req.promptLen)
  | generating (computed : req.numComputedTokens = req.promptLen + req.numOutputTokens)
      (inflight_eq : inflight = pending.length)
      (bound : req.numOutputTokens + pending.length ≤ req.maxNewTokens)
      (finished : req.finished = decide (req.maxNewTokens ≤ req.numOutputTokens))
      (tokens : ∀ p ∈ pending, p.1.numTokens = 1 ∧ req.promptLen ≤ p.1.computedAt ∧
        ∃ token, p.2 = [token])

structure Fine (role : RoleConfig) (req : Req) (inflight : Int) (remaining : List Int)
    (pending : List (Scheduled × List Int)) : Prop where
  prompt_pos : 0 < req.promptLen
  maxNew_pos : 0 < req.maxNewTokens
  length : 0 < role.maxModelLength → req.promptLen + req.maxNewTokens ≤ role.maxModelLength
  computed_nonneg : 0 ≤ req.numComputedTokens
  mock : role.modelBackend = .mock →
    req.outputTokenIds ++ remaining = mockDecodeTokens req.promptTokenIds req.maxNewTokens
  stage : Stage role req inflight pending

structure Inv (role : RoleConfig) (s : Scheduler) : Prop where
  nodup : (s.waiting ++ s.running).Nodup
  unfinished : ∀ rid, rid ∈ s.waiting ++ s.running ↔
    ∃ req, s.reqs rid = some req ∧ req.finished = false
  fine : ∀ rid req, s.reqs rid = some req →
    Fine role req (s.inflightDecode rid) (s.mockRemaining rid) (s.pending rid)
  absent : ∀ rid, s.reqs rid = none → s.inflightDecode rid = 0 ∧ s.pending rid = []
  started : ∀ rid, s.pending rid ≠ [] → rid ∈ s.running

variable {role : RoleConfig} {model : ModelConfig} {s : Scheduler} {rid : String} {req : Req}
  {plan : Scheduler.Plan}

namespace Scheduler

inductive Allowed (role : RoleConfig) (s : Scheduler) (it : Scheduled) : Prop
  | decode {req : Req} (found : s.reqs it.reqId = some req) (unfinished : req.finished = false)
      (computed : req.promptLen ≤ req.numComputedTokens)
      (left : 0 < leftToGenerate role s it.reqId req (s.inflightDecode it.reqId))
      (one : it.numTokens = 1) (start : it.computedAt = req.numComputedTokens)
      (width : it.queryEnd = it.queryStart + 1)
  | extend {req : Req} (found : s.reqs it.reqId = some req) (unfinished : req.finished = false)
      (computing : req.numComputedTokens < req.promptLen)
      (processed : s.hasUnprocessedPrompt it.reqId req.promptLen = false)
      (positive : 0 < it.numTokens) (start : it.computedAt = req.numComputedTokens)
      (within : req.numComputedTokens + it.numTokens ≤ req.promptLen)
      (query : it.queryStart = it.computedAt ∧ it.queryEnd = it.computedAt + it.numTokens)

def Generates (s : Scheduler) (it : Scheduled) : Prop :=
  ∃ req, s.reqs it.reqId = some req ∧ req.promptLen ≤ it.computedAt

theorem decodeOne_eq (budget : 0 < plan.budget) (found : s.reqs rid = some req)
    (unfinished : req.finished = false) (computed : req.promptLen ≤ req.numComputedTokens)
    (left : 0 < leftToGenerate role s rid req (plan.inflightDecode rid))
    (room : 0 < roomFor role req (plan.inflightDecode rid) plan.budget
      (leftToGenerate role s rid req (plan.inflightDecode rid))) :
    decodeOne role s plan rid = addDecode plan rid req 1 := by
  have one : min (min (min 1 (leftToGenerate role s rid req (plan.inflightDecode rid))) plan.budget)
      (roomFor role req (plan.inflightDecode rid) plan.budget
        (leftToGenerate role s rid req (plan.inflightDecode rid))) = 1 := by
    omega
  have hnot : ¬ (req.finished = true ∨ req.numComputedTokens < req.promptLen) := by
    rintro (h | h)
    · rw [unfinished] at h
      cases h
    · omega
  unfold decodeOne
  rw [if_neg (by omega)]
  simp only [found]
  rw [if_neg hnot, if_neg (by omega), if_neg (by omega), one]

theorem decodeOne_cases (role : RoleConfig) (s : Scheduler) (plan : Plan) (rid : String) :
    decodeOne role s plan rid = plan ∨
      ∃ req, s.reqs rid = some req ∧ req.finished = false ∧ req.promptLen ≤ req.numComputedTokens ∧
        0 < leftToGenerate role s rid req (plan.inflightDecode rid) ∧ 0 < plan.budget ∧
        decodeOne role s plan rid = addDecode plan rid req 1 := by
  fun_cases decodeOne role s plan rid
  case case6 hb req hreq hf hl hr =>
    obtain ⟨unfinished, computed⟩ := not_or.mp hf
    refine .inr ⟨req, hreq, by simpa using unfinished, by omega, by omega, by omega, ?_⟩
    congr 1
    omega
  all_goals exact .inl rfl

theorem chunkFor_le (role : RoleConfig) (req : Req) (budget : Int) :
    chunkFor role req budget ≤ req.promptLen - req.numComputedTokens ∧ chunkFor role req budget ≤ budget := by
  unfold chunkFor capBy
  split <;> split <;> omega

def addExtend (role : RoleConfig) (plan : Plan) (rid : String) (req : Req) : Plan :=
  { plan with
    budget := plan.budget - chunkFor role req plan.budget
    items := plan.items ++ [⟨rid, chunkFor role req plan.budget, req.numComputedTokens,
      req.numComputedTokens, req.numComputedTokens + chunkFor role req plan.budget⟩] }

theorem extendOne_eq (budget : 0 < plan.budget) (fresh : ∀ it ∈ plan.items, it.reqId ≠ rid)
    (found : s.reqs rid = some req) (unfinished : req.finished = false)
    (computing : req.numComputedTokens < req.promptLen) (processed : s.hasUnprocessedPrompt rid req.promptLen = false)
    (chunk : 0 < chunkFor role req plan.budget) : extendOne role s plan rid = addExtend role plan rid req := by
  have hnot : ¬ (req.finished = true ∨ req.promptLen ≤ req.numComputedTokens) := by
    rintro (h | h)
    · rw [unfinished] at h
      cases h
    · omega
  have hany : ¬ (plan.items.any (·.reqId == rid)) = true := by
    simpa using fresh
  unfold extendOne
  rw [if_neg (by omega), if_neg hany]
  simp only [found]
  rw [if_neg hnot, if_neg (by simp [processed]), if_neg (by omega)]
  rfl

theorem extendOne_cases (role : RoleConfig) (s : Scheduler) (plan : Plan) (rid : String) :
    extendOne role s plan rid = plan ∨
      ∃ req, s.reqs rid = some req ∧ req.finished = false ∧ req.numComputedTokens < req.promptLen ∧
        (∀ it ∈ plan.items, it.reqId ≠ rid) ∧
        s.hasUnprocessedPrompt rid req.promptLen = false ∧ 0 < chunkFor role req plan.budget ∧
        extendOne role s plan rid = addExtend role plan rid req := by
  fun_cases extendOne role s plan rid
  case case7 hb hany req hreq hf hu hc =>
    obtain ⟨unfinished, computing⟩ := not_or.mp hf
    exact .inr ⟨req, hreq, by simpa using unfinished, by omega, by simpa using hany, by simpa using hu, by omega, rfl⟩
  all_goals exact .inl rfl

structure PlanInv (role : RoleConfig) (s : Scheduler) (plan : Plan) : Prop where
  nodup : (plan.items.map Scheduled.reqId).Nodup
  running : ∀ it ∈ plan.items, it.reqId ∈ s.running
  allowed : ∀ it ∈ plan.items, Allowed role s it
  taken : ∀ it ∈ plan.items, s.Generates it →
    plan.inflightDecode it.reqId = s.inflightDecode it.reqId + 1
  kept : ∀ rid, (∀ it ∈ plan.items, it.reqId = rid → ¬ s.Generates it) →
    plan.inflightDecode rid = s.inflightDecode rid

theorem planInv_nil (role : RoleConfig) (s : Scheduler) (budget : Int) :
    PlanInv role s ⟨budget, [], s.inflightDecode⟩ := by
  constructor <;> simp

section

variable (h : PlanInv role s plan)
include h

theorem PlanInv.add {plan' : Plan} {it : Scheduled}
    (items : plan'.items = plan.items ++ [it]) (fresh : ∀ x ∈ plan.items, x.reqId ≠ it.reqId)
    (mem : it.reqId ∈ s.running) (allowed : Allowed role s it)
    (others : ∀ rid, rid ≠ it.reqId → plan'.inflightDecode rid = plan.inflightDecode rid)
    (taken : s.Generates it → plan'.inflightDecode it.reqId = s.inflightDecode it.reqId + 1)
    (kept : ¬ s.Generates it → plan'.inflightDecode it.reqId = plan.inflightDecode it.reqId) :
    PlanInv role s plan' := by
  have split : ∀ {P : Scheduled → Prop}, (∀ x ∈ plan.items, P x) → P it → ∀ x ∈ plan'.items, P x := by
    intro P old new x hx
    rw [items] at hx
    rcases mem_append.mp hx with hx | hx
    · exact old x hx
    · exact mem_singleton.mp hx ▸ new
  refine ⟨?_, split h.running mem, split h.allowed allowed, split ?_ taken, ?_⟩
  · rw [items, map_append, map_cons, map_nil]
    refine nodup_append.mpr ⟨h.nodup, nodup_singleton _, ?_⟩
    intro x hx y hy
    obtain ⟨old, hold, rfl⟩ := mem_map.mp hx
    rw [mem_singleton.mp hy]
    exact fresh old hold
  · intro x hx gen
    rw [others _ (fresh x hx)]
    exact h.taken x hx gen
  · intro rid none
    rw [items] at none
    have before := h.kept rid fun x hx => none x (mem_append_left _ hx)
    by_cases same : rid = it.reqId
    · subst same
      rw [kept (none it (mem_append_right _ (mem_singleton_self _)) rfl), before]
    · rw [others rid same, before]

theorem PlanInv.decodeOne (fresh : ∀ it ∈ plan.items, it.reqId ≠ rid)
    (mem : rid ∈ s.running) : PlanInv role s (decodeOne role s plan rid) := by
  rcases decodeOne_cases role s plan rid with same | ⟨req, found, unfinished, computed, left, -, eq⟩
  · rw [same]
    exact h
  have before : plan.inflightDecode rid = s.inflightDecode rid :=
    h.kept rid fun it hit hrid => absurd hrid (fresh it hit)
  rw [before] at left
  rw [eq]
  refine h.add rfl fresh mem (.decode found unfinished computed left rfl rfl rfl) ?_ ?_ ?_
  · exact fun other ne => update_of_ne ne _ _
  · intro _
    simp [addDecode, before]
  · exact fun quiet => absurd ⟨req, found, computed⟩ quiet

theorem PlanInv.extendOne (mem : rid ∈ s.running) : PlanInv role s (extendOne role s plan rid) := by
  rcases extendOne_cases role s plan rid with
    same | ⟨req, found, unfinished, computing, fresh, processed, chunk, eq⟩
  · rw [same]
    exact h
  have bound := (chunkFor_le role req plan.budget).1
  rw [eq]
  refine h.add rfl fresh mem ?_ (fun _ _ => rfl) ?_ fun _ => rfl
  · exact .extend found unfinished computing processed chunk rfl (by dsimp only; omega) ⟨rfl, rfl⟩
  · rintro ⟨req', found', computed⟩
    rw [found] at found'
    cases found'
    dsimp only at computed
    omega

end

variable {rids : List String}

theorem PlanInv.foldl_decodeOne (h : PlanInv role s plan) (nodup : rids.Nodup)
    (fresh : ∀ rid ∈ rids, ∀ it ∈ plan.items, it.reqId ≠ rid) (mem : ∀ rid ∈ rids, rid ∈ s.running) :
    PlanInv role s (rids.foldl (Scheduler.decodeOne role s) plan) := by
  induction rids generalizing plan with
  | nil => exact h
  | cons rid rids ih =>
    rw [foldl_cons]
    have hnodup := nodup_cons.mp nodup
    refine ih (h.decodeOne (fresh rid mem_cons_self) (mem rid mem_cons_self)) hnodup.2 ?_ ?_
    · intro other hother it hit
      have old := fresh other (mem_cons_of_mem rid hother)
      rcases decodeOne_cases role s plan rid with same | ⟨req, -, -, -, -, -, eq⟩
      · rw [same] at hit
        exact old it hit
      rw [eq] at hit
      rcases mem_append.mp hit with hit | hit
      · exact old it hit
      · rw [mem_singleton.mp hit]
        rintro rfl
        exact hnodup.1 hother
    · exact fun other hother => mem other (mem_cons_of_mem rid hother)

theorem PlanInv.foldl_extendOne (h : PlanInv role s plan) (mem : ∀ rid ∈ rids, rid ∈ s.running) :
    PlanInv role s (rids.foldl (Scheduler.extendOne role s) plan) := by
  induction rids generalizing plan with
  | nil => exact h
  | cons rid rids ih =>
    rw [foldl_cons]
    exact ih (h.extendOne (mem rid mem_cons_self)) fun other hother =>
      mem other (mem_cons_of_mem rid hother)

theorem planInv_planStep (nodup : s.running.Nodup) : PlanInv role s (s.planStep role) := by
  refine PlanInv.foldl_extendOne ?_ fun _ => id
  exact (planInv_nil role s _).foldl_decodeOne nodup (by simp) fun _ => id

theorem foldl_of_items_nil {f : Plan → String → Plan} (grows : ∀ p x, f p x = p ∨ (f p x).items ≠ [])
    (h : (rids.foldl f plan).items = []) :
    rids.foldl f plan = plan ∧ ∀ x ∈ rids, f plan x = plan := by
  have later : ∀ (xs : List String) p, p.items ≠ [] → (xs.foldl f p).items ≠ [] := by
    intro xs
    induction xs with
    | nil => exact fun _ hp => hp
    | cons x xs ih =>
      intro p hp
      refine ih (f p x) ?_
      rcases grows p x with same | grown
      · rwa [same]
      · exact grown
  induction rids with
  | nil => exact ⟨rfl, by simp⟩
  | cons x xs ih =>
    rw [foldl_cons] at h ⊢
    rcases grows plan x with same | grown
    · rw [same] at h ⊢
      obtain ⟨hend, hall⟩ := ih h
      exact ⟨hend, forall_mem_cons.mpr ⟨same, hall⟩⟩
    · exact absurd h (later xs _ grown)

theorem decodeOne_grows (role : RoleConfig) (s : Scheduler) (plan : Plan) (rid : String) :
    decodeOne role s plan rid = plan ∨ (decodeOne role s plan rid).items ≠ [] := by
  rcases decodeOne_cases role s plan rid with same | ⟨req, -, -, -, -, -, eq⟩
  · exact Or.inl same
  · right
    rw [eq]
    simp [addDecode]

theorem extendOne_grows (role : RoleConfig) (s : Scheduler) (plan : Plan) (rid : String) :
    extendOne role s plan rid = plan ∨ (extendOne role s plan rid).items ≠ [] := by
  rcases extendOne_cases role s plan rid with same | ⟨req, -, -, -, -, -, -, eq⟩
  · exact Or.inl same
  · right
    rw [eq]
    simp [addExtend]

def startPlan (role : RoleConfig) (s : Scheduler) : Plan :=
  ⟨role.maxNumScheduledTokens, [], s.inflightDecode⟩

theorem planStep_items_nil (h : (s.planStep role).items = []) :
    ∀ rid ∈ s.running, decodeOne role s (startPlan role s) rid = startPlan role s ∧
      extendOne role s (startPlan role s) rid = startPlan role s := by
  obtain ⟨eqE, allE⟩ := foldl_of_items_nil (extendOne_grows role s) h
  unfold planStep at h
  rw [eqE] at h
  obtain ⟨eqD, allD⟩ := foldl_of_items_nil (decodeOne_grows role s) h
  rw [eqD] at allE
  exact fun rid hrid => ⟨allD rid hrid, allE rid hrid⟩

end Scheduler

end NodeScheduler

end LakeKv
