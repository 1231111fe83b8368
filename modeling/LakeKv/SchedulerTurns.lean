import LakeKv.SchedulerRules
import LakeKv.Runs

namespace LakeKv

open List

namespace NodeScheduler

variable {role : RoleConfig} {model : ModelConfig} {s t : Scheduler} {rid : String} {req : Req}
  {it : Scheduled} {items : List Scheduled} {inflight : Int} {remaining : List Int}
  {pending : List (Scheduled × List Int)} {tokens : String → List Int}

theorem filter_reqId (nodup : (items.map Scheduled.reqId).Nodup) (h : it ∈ items) :
    items.filter (·.reqId == it.reqId) = [it] := by
  induction items with
  | nil => cases h
  | cons x xs ih =>
    rw [map_cons] at nodup
    have hnodup := nodup_cons.mp nodup
    rcases mem_cons.mp h with rfl | h
    · have others : xs.filter (·.reqId == it.reqId) = [] := by
        apply filter_eq_nil_iff.mpr
        intro y hy same
        have eq : y.reqId = it.reqId := by simpa using same
        exact hnodup.1 (eq ▸ mem_map_of_mem hy)
      rw [filter_cons_of_pos (by simp), others]
    · have ne : x.reqId ≠ it.reqId := by
        intro same
        exact hnodup.1 (same ▸ mem_map_of_mem h)
      rw [filter_cons_of_neg (by simpa using ne)]
      exact ih hnodup.2 h

theorem entries_of_mem (nodup : (items.map Scheduled.reqId).Nodup) (h : it ∈ items) :
    (BatchResult.mk items tokens).entries it.reqId = [(it, tokens it.reqId)] := by
  simp only [BatchResult.entries]
  rw [filter_reqId nodup h]
  rfl

theorem entries_of_not (h : ∀ it ∈ items, it.reqId ≠ rid) : (BatchResult.mk items tokens).entries rid = [] := by
  have none : items.filter (·.reqId == rid) = [] := by
    apply filter_eq_nil_iff.mpr
    intro y hy
    simpa using h y hy
  simp [BatchResult.entries, none]

theorem entries_cons_same (tokens : String → List Int) : (BatchResult.mk (it :: items) tokens).entries it.reqId =
      (it, tokens it.reqId) :: (BatchResult.mk items tokens).entries it.reqId := by
  simp [BatchResult.entries]

theorem entries_cons_other (tokens : String → List Int) (h : it.reqId ≠ rid) :
    (BatchResult.mk (it :: items) tokens).entries rid = (BatchResult.mk items tokens).entries rid := by
  simp [BatchResult.entries, h]

theorem hasUnprocessedPrompt_of_pending {entry : Scheduled × List Int} (h : entry ∈ s.pending rid)
    {promptLen : Int} (before : entry.1.computedAt < promptLen) : s.hasUnprocessedPrompt rid promptLen = true := by
  obtain ⟨batch, hbatch, hentry⟩ := mem_flatMap.mp h
  obtain ⟨it, hit, rfl⟩ := mem_map.mp hentry
  obtain ⟨hmem, hrid⟩ := mem_filter.mp hit
  refine any_eq_true.mpr ⟨batch, hbatch, any_eq_true.mpr ⟨it, hmem, ?_⟩⟩
  simpa using ⟨by simpa using hrid, before⟩

theorem fillRunning_perm (role : RoleConfig) (s : Scheduler) :
    ((s.fillRunning role).waiting ++ (s.fillRunning role).running).Perm (s.waiting ++ s.running) := by
  have parts := take_append_drop (role.maxRunningReqs - s.running.length) s.waiting
  have moved : ((s.fillRunning role).waiting ++ (s.fillRunning role).running).Perm
      (s.running ++ s.waiting.take (role.maxRunningReqs - s.running.length) ++
        s.waiting.drop (role.maxRunningReqs - s.running.length)) := perm_append_comm
  rw [append_assoc, parts] at moved
  exact moved.trans perm_append_comm

theorem Inv.fillRunning (h : Inv role s) : Inv role (s.fillRunning role) where
  nodup := (fillRunning_perm role s).nodup_iff.mpr h.nodup
  unfinished rid := (fillRunning_perm role s).mem_iff.trans (h.unfinished rid)
  fine := h.fine
  absent := h.absent
  started rid hrid := mem_append_left _ (h.started rid hrid)

theorem Inv.running_nodup (h : Inv role s) : s.running.Nodup :=
  (nodup_append.mp h.nodup).2.1

theorem length_mockDecodeTokens (prompt : List Int) (maxNew : Nat) :
    (mockDecodeTokens prompt maxNew).length = maxNew := by
  simp [mockDecodeTokens]

theorem Fine.length_remaining (h : Fine role req inflight remaining pending)
    (mock : role.modelBackend = .mock) : req.numOutputTokens + remaining.length = req.maxNewTokens := by
  have eq := congrArg List.length (h.mock mock)
  rw [length_append, length_mockDecodeTokens] at eq
  exact eq

theorem Fine.leftToGenerate_eq (h : Fine role req inflight (s.mockRemaining rid) pending) (i : Int) :
    Scheduler.leftToGenerate role s rid req i = req.maxNewTokens - req.numOutputTokens - i := by
  unfold Scheduler.leftToGenerate
  cases hb : role.modelBackend with
  | qwen3 => rfl
  | mock =>
    have := h.length_remaining hb
    simp only
    omega

theorem Fine.launch_decode (h : Fine role req inflight remaining pending)
    (computed : req.promptLen ≤ req.numComputedTokens)
    (left : 0 < (req.maxNewTokens : Int) - req.numOutputTokens - inflight)
    (one : it.numTokens = 1) (start : it.computedAt = req.numComputedTokens) (token : Int) :
    Fine role req (inflight + 1) remaining (pending ++ [(it, [token])]) := by
  refine { h with stage := ?_ }
  cases h.stage with
  | prompt computing => omega
  | generating hcomputed hinflight hbound hfinished htokens =>
    refine .generating hcomputed ?_ ?_ hfinished ?_
    · rw [length_append, length_singleton, hinflight]
      push_cast
      rfl
    · rw [length_append, length_singleton]
      omega
    · intro p hp
      rcases mem_append.mp hp with hp | hp
      · exact htokens p hp
      · rw [List.mem_singleton.mp hp]
        exact ⟨one, start ▸ computed, token, rfl⟩

theorem Fine.launch_extend (h : Fine role req inflight remaining (s.pending rid))
    (computing : req.numComputedTokens < req.promptLen) (processed : s.hasUnprocessedPrompt rid req.promptLen = false)
    (positive : 0 < it.numTokens) (start : it.computedAt = req.numComputedTokens)
    (within : req.numComputedTokens + it.numTokens ≤ req.promptLen) :
    Fine role req inflight remaining (s.pending rid ++ [(it, [])]) := by
  refine { h with stage := ?_ }
  cases h.stage with
  | prompt _ outputs unfinished idle part =>
    have empty : s.pending rid = [] := by
      rcases part with empty | ⟨old, hold, hstart, -, -⟩
      · exact empty
      have mem : (old, []) ∈ s.pending rid := by
        rw [hold]
        exact mem_singleton_self _
      have found := hasUnprocessedPrompt_of_pending mem (hstart ▸ computing)
      rw [processed] at found
      cases found
    rw [empty]
    exact .prompt computing outputs unfinished idle (Or.inr ⟨it, rfl, start, positive, within⟩)
  | generating computed =>
    have : (0 : Int) ≤ req.numOutputTokens := by omega
    omega

def Fits (items : List Scheduled) : Prop :=
  items.length ≤ maxNumReqs ∧ Scheduler.totalNumScheduledTokens items ≤ maxNumTokens

instance (items : List Scheduled) : Decidable (Fits items) :=
  inferInstanceAs (Decidable (_ ∧ _))

def nextTokens (role : RoleConfig) (model : ModelConfig) (items : List Scheduled)
    (host : String → Option Req) : String → List Int :=
  match role.modelBackend with
  | .qwen3 => forwardModel model host (prepareInputs items host)
  | .mock => fun rid => if generates (prepareInputs items host) rid then [0] else []

theorem Scheduler.Allowed.positive (h : s.Allowed role it) : 0 < it.numTokens := by
  cases h with
  | decode _ _ _ _ one => omega
  | extend _ _ _ _ positive => exact positive

theorem Scheduler.Allowed.row (h : s.Allowed role it) : ∃ req, s.reqs it.reqId = some req ∧
      (prepareRow req it).queryEnd - (prepareRow req it).queryStart = it.numTokens := by
  cases h with
  | @decode req found _ computed _ one start width =>
    have past : ¬ it.computedAt < req.promptLen := by omega
    refine ⟨req, found, ?_⟩
    rw [prepareRow, if_neg past]
    dsimp only
    omega
  | @extend req found _ computing _ _ start within query =>
    have before : it.computedAt < req.promptLen := by omega
    refine ⟨req, found, ?_⟩
    rw [prepareRow, if_pos before]
    dsimp only
    omega

theorem materializeRows_ok (allowed : ∀ it ∈ items, s.Allowed role it) (cursor : Int)
    (room : cursor + Scheduler.totalNumScheduledTokens items ≤ maxNumTokens) :
    ∃ stop, materializeRows cursor (prepareInputs items s.reqs) = .ok stop := by
  induction items generalizing cursor with
  | nil => exact ⟨cursor, rfl⟩
  | cons it items ih =>
    have here := allowed it mem_cons_self
    have later := fun x hx => allowed x (mem_cons_of_mem it hx)
    have rest_nonneg : 0 ≤ Scheduler.totalNumScheduledTokens items := by
      apply sum_nonneg
      intro n hn
      obtain ⟨x, hx, rfl⟩ := mem_map.mp hn
      exact (later x hx).positive.le
    have total : Scheduler.totalNumScheduledTokens (it :: items) =
        it.numTokens + Scheduler.totalNumScheduledTokens items := rfl
    have positive := here.positive
    obtain ⟨req, found, width⟩ := here.row
    have rows : prepareInputs (it :: items) s.reqs = prepareRow req it :: prepareInputs items s.reqs := by
      have taken : ¬ it.numTokens ≤ 0 := by omega
      simp [prepareInputs, taken, found]
    have step : max 0 ((prepareRow req it).queryEnd - (prepareRow req it).queryStart) = it.numTokens := by
      omega
    rw [rows, materializeRows, step, if_neg (by omega)]
    exact ih later _ (by omega)

theorem length_prepareInputs_le (items : List Scheduled) (host : String → Option Req) :
    (prepareInputs items host).length ≤ items.length :=
  length_filterMap_le _ _

theorem executeModel_ok (model : ModelConfig) (n : Nat) (allowed : ∀ it ∈ items, s.Allowed role it) (fits : Fits items) :
    executeModel role model n n items s.reqs = .ok (nextTokens role model items s.reqs) := by
  have few : ¬ maxNumReqs < (prepareInputs items s.reqs).length := by
    have := length_prepareInputs_le items s.reqs
    have := fits.1
    omega
  obtain ⟨stop, hstop⟩ := materializeRows_ok allowed 0 (by have := fits.2; omega)
  unfold executeModel materialize nextTokens
  rw [if_pos rfl, if_neg few, hstop]
  cases role.modelBackend <;> rfl

theorem generates_iff (allowed : ∀ it ∈ items, s.Allowed role it) :
    generates (prepareInputs items s.reqs) rid = true ↔ ∃ it ∈ items, it.reqId = rid ∧ s.Generates it := by
  have row_id : ∀ req it, (prepareRow req it).reqId = it.reqId := by
    intro req it
    unfold prepareRow
    split <;> rfl
  constructor
  · intro h
    obtain ⟨row, hrow, hgen⟩ := any_eq_true.mp h
    obtain ⟨it, hit, hsome⟩ := mem_filterMap.mp hrow
    split at hsome
    · cases hsome
    obtain ⟨req, found, rfl⟩ := Option.map_eq_some_iff.mp hsome
    rw [row_id] at hgen
    obtain ⟨hid, hphase⟩ : it.reqId = rid ∧ (prepareRow req it).isPromptPhase = false := by
      simpa using hgen
    refine ⟨it, hit, hid, req, found, ?_⟩
    unfold prepareRow at hphase
    split at hphase
    · cases hphase
    · omega
  · rintro ⟨it, hit, rfl, req, found, past⟩
    have taken : ¬ it.numTokens ≤ 0 := by
      have := (allowed it hit).positive
      omega
    have mem : prepareRow req it ∈ prepareInputs items s.reqs := by
      refine mem_filterMap.mpr ⟨it, hit, ?_⟩
      rw [if_neg taken, found]
      rfl
    refine any_eq_true.mpr ⟨_, mem, ?_⟩
    rw [row_id, prepareRow, if_neg (by omega)]
    simp

theorem nextTokens_qwen3 (model : ModelConfig) (backend : role.modelBackend = .qwen3)
    (allowed : ∀ it ∈ items, s.Allowed role it) (hit : it ∈ items)
    (found : s.reqs it.reqId = some req) (past : req.promptLen ≤ it.computedAt) :
    nextTokens role model items s.reqs it.reqId = [dummyModelToken model req.allTokenIds] := by
  have gen := (generates_iff allowed).mpr ⟨it, hit, rfl, req, found, past⟩
  simp [nextTokens, backend, forwardModel, gen, found, greedySample_dummyModelLogits]

section

variable (allowed : ∀ it ∈ items, s.Allowed role it)
include allowed

theorem nextTokens_of_generates (hit : it ∈ items)
    (found : s.reqs it.reqId = some req) (past : req.promptLen ≤ it.computedAt) :
    ∃ token, nextTokens role model items s.reqs it.reqId = [token] := by
  cases backend : role.modelBackend with
  | qwen3 => exact ⟨_, nextTokens_qwen3 model backend allowed hit found past⟩
  | mock =>
    have gen := (generates_iff allowed).mpr ⟨it, hit, rfl, req, found, past⟩
    exact ⟨0, by simp [nextTokens, backend, gen]⟩

theorem nextTokens_of_not
    (none : ∀ it ∈ items, it.reqId = rid → ¬ s.Generates it) : nextTokens role model items s.reqs rid = [] := by
  have quiet : ¬ generates (prepareInputs items s.reqs) rid = true := by
    intro gen
    obtain ⟨it, hit, hid, hgen⟩ := (generates_iff allowed).mp gen
    exact none it hit hid hgen
  unfold nextTokens
  cases role.modelBackend with
  | qwen3 => simp [forwardModel, quiet]
  | mock => simp [quiet]

end

def launched (role : RoleConfig) (model : ModelConfig) (s : Scheduler) : Scheduler :=
  { (s.schedule role).1 with
    resultQueue := s.resultQueue ++
      [⟨(s.schedule role).2, nextTokens role model (s.schedule role).2 s.reqs⟩] }

theorem Inv.planInv (h : Inv role s) :
    Scheduler.PlanInv role (s.fillRunning role) ((s.fillRunning role).planStep role) :=
  Scheduler.planInv_planStep h.fillRunning.running_nodup

theorem runBatch_schedule (h : Inv role s) (fits : Fits (s.schedule role).2) :
    Scheduler.runBatch role model (s.schedule role).1 (s.schedule role).2 = .ok (launched role model s) := by
  have run := executeModel_ok model (s.schedule role).1.stepId h.planInv.allowed fits
  have run' : executeModel role model _ _ (s.schedule role).2 (s.schedule role).1.reqs =
      .ok (nextTokens role model (s.schedule role).2 s.reqs) := run
  unfold Scheduler.runBatch
  rw [run']
  rfl

theorem pending_launched (role : RoleConfig) (model : ModelConfig) (s : Scheduler) (rid : String) :
    (launched role model s).pending rid = s.pending rid ++
      (BatchResult.mk (s.schedule role).2 (nextTokens role model (s.schedule role).2 s.reqs)).entries rid := by
  simp [Scheduler.pending, launched]

theorem Inv.launched_cases (h : Inv role s) (model : ModelConfig) (rid : String) :
    ((launched role model s).inflightDecode rid = s.inflightDecode rid ∧
      (launched role model s).pending rid = s.pending rid ∧
      ∀ it ∈ (s.schedule role).2, it.reqId ≠ rid) ∨
    (∃ req it token, s.reqs rid = some req ∧ it ∈ (s.schedule role).2 ∧ it.reqId = rid ∧
      req.promptLen ≤ req.numComputedTokens ∧
      0 < Scheduler.leftToGenerate role s rid req (s.inflightDecode rid) ∧ it.numTokens = 1 ∧
      it.computedAt = req.numComputedTokens ∧
      (role.modelBackend = .qwen3 → token = dummyModelToken model req.allTokenIds) ∧
      (launched role model s).inflightDecode rid = s.inflightDecode rid + 1 ∧
      (launched role model s).pending rid = s.pending rid ++ [(it, [token])]) ∨
    (∃ req it, s.reqs rid = some req ∧ it ∈ (s.schedule role).2 ∧ it.reqId = rid ∧
      req.numComputedTokens < req.promptLen ∧
      s.hasUnprocessedPrompt rid req.promptLen = false ∧ 0 < it.numTokens ∧
      it.computedAt = req.numComputedTokens ∧ req.numComputedTokens + it.numTokens ≤ req.promptLen ∧
      (launched role model s).inflightDecode rid = s.inflightDecode rid ∧
      (launched role model s).pending rid = s.pending rid ++ [(it, [])]) := by
  have hplan := h.planInv
  have nodup : ((s.schedule role).2.map Scheduled.reqId).Nodup := hplan.nodup
  by_cases hsome : ∃ it ∈ (s.schedule role).2, it.reqId = rid
  · obtain ⟨it, hit, rfl⟩ := hsome
    have allowed := hplan.allowed it hit
    have only : ∀ x ∈ (s.schedule role).2, x.reqId = it.reqId → x = it := by
      intro x hx same
      exact inj_on_of_nodup_map nodup hx hit same
    have pend := pending_launched role model s it.reqId
    rw [entries_of_mem nodup hit] at pend
    cases allowed with
    | @decode req found _ computed left one start _ =>
      have gen : (s.fillRunning role).Generates it := ⟨req, found, start ▸ computed⟩
      have counted := hplan.taken it hit gen
      obtain ⟨token, htoken⟩ : ∃ token, nextTokens role model (s.schedule role).2 s.reqs it.reqId = [token] :=
        nextTokens_of_generates (s := s.fillRunning role) hplan.allowed hit found (start ▸ computed)
      refine Or.inr (Or.inl ⟨req, it, token, found, hit, rfl, computed, left, one, start, ?_, counted, ?_⟩)
      · intro backend
        have eq := nextTokens_qwen3 (s := s.fillRunning role) model backend hplan.allowed hit found (start ▸ computed)
        exact singleton_inj.mp (htoken.symm.trans eq)
      · rw [pend, htoken]
    | @extend req found _ computing processed positive start within _ =>
      have quiet : ∀ x ∈ (s.schedule role).2, x.reqId = it.reqId → ¬ (s.fillRunning role).Generates x := by
        intro x hx same gen
        rw [only x hx same] at gen
        obtain ⟨req', found', past⟩ := gen
        rw [found] at found'
        cases found'
        omega
      have silent : nextTokens role model (s.schedule role).2 s.reqs it.reqId = [] :=
        nextTokens_of_not (s := s.fillRunning role) hplan.allowed quiet
      refine Or.inr (Or.inr ⟨req, it, found, hit, rfl, computing, processed, positive, start, within, ?_, ?_⟩)
      · exact hplan.kept it.reqId quiet
      · rw [pend, silent]
  · have none : ∀ it ∈ (s.schedule role).2, it.reqId ≠ rid := by
      intro it hit same
      exact hsome ⟨it, hit, same⟩
    refine Or.inl ⟨?_, ?_, none⟩
    · exact hplan.kept rid fun it hit same => absurd same (none it hit)
    · rw [pending_launched, entries_of_not none, append_nil]

theorem Inv.launched (h : Inv role s) (model : ModelConfig) : Inv role (launched role model s) where
  nodup := h.fillRunning.nodup
  unfinished := h.fillRunning.unfinished
  fine rid req found := by
    have hreq : s.reqs rid = some req := found
    have old := h.fine rid req hreq
    rcases h.launched_cases model rid with ⟨hin, hpend, -⟩ |
      ⟨req', it, token, hreq', -, -, computed, left, one, start, -, hin, hpend⟩ |
      ⟨req', it, hreq', -, -, computing, processed, positive, start, within, hin, hpend⟩
    · rw [hin, hpend]
      exact old
    · rw [hreq] at hreq'
      cases hreq'
      rw [old.leftToGenerate_eq] at left
      rw [hin, hpend]
      exact old.launch_decode computed left one start token
    · rw [hreq] at hreq'
      cases hreq'
      rw [hin, hpend]
      exact old.launch_extend computing processed positive start within
  absent rid missing := by
    have hreq : s.reqs rid = none := missing
    have old := h.absent rid hreq
    rcases h.launched_cases model rid with ⟨hin, hpend, -⟩ | ⟨req', _, _, hreq', -⟩ | ⟨req', _, hreq', -⟩
    · rw [hin, hpend]
      exact old
    · rw [hreq] at hreq'
      cases hreq'
    · rw [hreq] at hreq'
      cases hreq'
  started rid hrid := by
    rcases h.launched_cases model rid with ⟨-, hpend, -⟩ | ⟨_, it, _, -, hit, hid, -⟩ | ⟨_, it, -, hit, hid, -⟩
    · rw [hpend] at hrid
      exact h.fillRunning.started rid hrid
    · exact hid ▸ h.planInv.running it hit
    · exact hid ▸ h.planInv.running it hit

end NodeScheduler

end LakeKv
