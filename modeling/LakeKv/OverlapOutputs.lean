import LakeKv.SchedulerProgress

namespace LakeKv

open Function List Option Reach

namespace NodeScheduler

variable {role : RoleConfig} {model : ModelConfig} {s t : Scheduler} {rid : String} {req : Req}
  {it : Scheduled}

/-- The step decodes a request of which a token is in flight, and the model would not give the same
token twice. -/
def lagging (model : ModelConfig) (s : Scheduler) (it : Scheduled) : Bool :=
  match s.reqs it.reqId with
  | none => false
  | some req =>
    decide (req.promptLen ≤ it.computedAt) && decide (s.inflightDecode it.reqId ≠ 0) &&
      !decide ((model.vocabSize : Int) ∣ req.allTokenIds.length + model.numHiddenLayers + 1)

/-- No entry of the step lags behind its tokens in flight; the mock backend reads no context. -/
def inStep (role : RoleConfig) (model : ModelConfig) (s : Scheduler) : Bool :=
  role.modelBackend == .mock || (s.schedule role).2.all fun it => !lagging model s it

def Right (model : ModelConfig) (s : Scheduler) : Prop :=
  ∀ rid prompt out, s.line rid = some (prompt, out) → out = modelTokens model prompt out.length

theorem Right.of_line (same : ∀ rid, t.line rid = s.line rid) : Right model t ↔ Right model s := by
  unfold Right
  simp only [same]

theorem eq_modelTokens_of_append {prompt out more : List Int}
    (h : out ++ more = modelTokens model prompt (out ++ more).length) :
    out = modelTokens model prompt out.length := by
  have front := congrArg (List.take out.length) h
  rw [take_left] at front
  rw [take_modelTokens model prompt (by simp)] at front
  exact front

theorem append_eq_modelTokens_iff {prompt out : List Int} {token : Int} (h : out = modelTokens model prompt out.length) :
    out ++ [token] = modelTokens model prompt (out ++ [token]).length ↔
      token = dummyModelToken model (prompt ++ out) := by
  rw [length_append, length_singleton, modelTokens, ← h]
  simp

theorem length_entries_le (batch : BatchResult) (nodup : (batch.items.map Scheduled.reqId).Nodup)
    (rid : String) : (batch.entries rid).length ≤ 1 := by
  obtain ⟨items, tokens⟩ := batch
  by_cases hsome : ∃ it ∈ items, it.reqId = rid
  · obtain ⟨it, hit, rfl⟩ := hsome
    rw [entries_of_mem nodup hit]
    exact le_rfl
  · rw [entries_of_not fun it hit same => hsome ⟨it, hit, same⟩]
    exact Nat.zero_le _

theorem Turning.length_pending_le (h : Turning role s) (rid : String) : (s.pending rid).length ≤ 1 := by
  have room : s.resultQueue.length ≤ 1 := by
    have := h.room
    split at this <;> omega
  unfold Scheduler.pending
  cases queue : s.resultQueue with
  | nil => exact Nat.zero_le _
  | cons batch more =>
    have empty : more = [] := by
      rw [queue, length_cons] at room
      exact eq_nil_of_length_eq_zero (by omega)
    rw [empty, flatMap_singleton]
    exact length_entries_le batch (h.distinct batch (queue ▸ mem_cons_self)) rid

/-- The token a step computes is the model's next one exactly if the step does not lag. -/
theorem Turning.token_iff (h : Turning role s) (found : s.reqs it.reqId = some req)
    (past : req.promptLen ≤ it.computedAt) (computed : req.promptLen ≤ req.numComputedTokens)
    (right : ∀ prompt out, s.line it.reqId = some (prompt, out) → out = modelTokens model prompt out.length) :
    dummyModelToken model req.allTokenIds = dummyModelToken model (req.promptTokenIds ++
        (req.outputTokenIds ++ (s.pending it.reqId).flatMap Prod.snd)) ↔ lagging model s it = false := by
  have few := h.length_pending_le it.reqId
  have fine := h.inv.fine it.reqId req found
  have line := right req.promptTokenIds
    (req.outputTokenIds ++ (s.pending it.reqId).flatMap Prod.snd) (by rw [Scheduler.line, found]; rfl)
  cases fine.stage with
  | prompt computing => omega
  | generating _ inflight _ _ tokens =>
    unfold lagging
    simp only [found]
    cases hpend : s.pending it.reqId with
    | nil =>
      have none : s.inflightDecode it.reqId = 0 := by
        rw [inflight, hpend]
        rfl
      rw [none]
      simp [Req.allTokenIds]
    | cons entry rest =>
      rw [hpend, length_cons] at few
      have empty : rest = [] := eq_nil_of_length_eq_zero (by omega)
      subst empty
      obtain ⟨-, -, token, htoken⟩ := tokens entry (hpend ▸ mem_cons_self)
      have flying : s.inflightDecode it.reqId ≠ 0 := by
        rw [inflight, hpend]
        exact one_ne_zero
      -- the token in flight is the model's answer to the context the step reads
      rw [hpend, flatMap_singleton, htoken] at line
      have before := eq_modelTokens_of_append line
      have same := (append_eq_modelTokens_iff before).mp line
      rw [flatMap_singleton, htoken, same]
      have context : req.promptTokenIds ++ (req.outputTokenIds ++
          [dummyModelToken model (req.promptTokenIds ++ req.outputTokenIds)]) =
          req.allTokenIds ++ [dummyModelToken model req.allTokenIds] := by
        rw [Req.allTokenIds, append_assoc]
      rw [context, eq_comm, dummyModelToken_append]
      simp [past, flying]

theorem line_of_found (found : s.reqs rid = some req) :
    s.line rid = some (req.promptTokenIds, req.outputTokenIds ++ (s.pending rid).flatMap Prod.snd) := by
  rw [Scheduler.line, found]
  rfl

section

variable (h : Turning role s)
include h

variable (backend : role.modelBackend = .qwen3)
include backend

theorem Turning.right_launched
    (order : inStep role model s = true) (right : Right model s) : Right model (launched role model s) := by
  intro rid prompt out hline
  have reqs : (launched role model s).reqs rid = s.reqs rid := rfl
  have inOrder : ∀ it ∈ (s.schedule role).2, lagging model s it = false := by
    simpa [inStep, backend] using order
  rcases h.inv.launched_cases model rid with ⟨-, hpend, -⟩ |
    ⟨req, it, token, found, hit, rfl, computed, -, -, start, htoken, -, hpend⟩ |
    ⟨req, it, found, -, rfl, -, -, -, -, -, -, hpend⟩
  · rw [Scheduler.line, reqs, hpend] at hline
    exact right rid prompt out hline
  · rw [line_of_found (reqs.trans found), hpend, flatMap_append, flatMap_singleton, ← append_assoc] at hline
    cases hline
    have before := right it.reqId _ _ (line_of_found found)
    refine (append_eq_modelTokens_iff before).mpr ?_
    rw [htoken backend]
    exact (h.token_iff found (start ▸ computed) computed fun p o => right it.reqId p o).mpr (inOrder it hit)
  · rw [line_of_found (reqs.trans found), hpend, flatMap_append, flatMap_singleton, append_nil] at hline
    exact right it.reqId prompt out ((line_of_found found).trans hline)

theorem Turning.right_of_launched
    (right : Right model (launched role model s)) : Right model s ∧ inStep role model s = true := by
  have reqs : ∀ rid, (launched role model s).reqs rid = s.reqs rid := fun _ => rfl
  have before : Right model s := by
    intro rid prompt out hline
    rcases h.inv.launched_cases model rid with ⟨-, hpend, -⟩ |
      ⟨req, it, token, found, -, -, -, -, -, -, -, -, hpend⟩ |
      ⟨req, it, found, -, -, -, -, -, -, -, -, hpend⟩
    · refine right rid prompt out ?_
      rw [Scheduler.line, reqs, hpend]
      exact hline
    all_goals
      rw [line_of_found found] at hline
      cases hline
      have after := right rid _ _ (line_of_found ((reqs rid).trans found))
      rw [hpend, flatMap_append, ← append_assoc] at after
      exact eq_modelTokens_of_append after
  refine ⟨before, ?_⟩
  have inOrder : ∀ it ∈ (s.schedule role).2, lagging model s it = false := by
    intro it hit
    rcases h.inv.launched_cases model it.reqId with ⟨-, -, none⟩ |
      ⟨req, it', token, found, hit', same, computed, -, -, start, htoken, -, hpend⟩ |
      ⟨req, it', found, hit', same, computing, -, -, start, -, -, -⟩
    · exact absurd rfl (none it hit)
    · have eq := inj_on_of_nodup_map h.inv.planInv.nodup hit' hit same
      subst eq
      have after := right it'.reqId _ _ (line_of_found ((reqs it'.reqId).trans found))
      rw [hpend, flatMap_append, flatMap_singleton, ← append_assoc] at after
      have next := (append_eq_modelTokens_iff (eq_modelTokens_of_append after)).mp after
      rw [htoken backend] at next
      exact (h.token_iff found (start ▸ computed) computed fun p o => before it'.reqId p o).mp next
    · have eq := inj_on_of_nodup_map h.inv.planInv.nodup hit' hit same
      subst eq
      have early : ¬ req.promptLen ≤ it'.computedAt := by omega
      simp [lagging, found, early]
  simpa [inStep, backend] using inOrder

/-- After a turn the outputs are right exactly if they were and the step was in order. -/
theorem Turning.right_iff
    (adv : Advance role model s t) : Right model t ↔ Right model s ∧ inStep role model s = true := by
  cases adv with
  | rest idle same =>
    have none : (s.schedule role).2 = [] := by
      have empty : s.waiting = [] ∧ s.running = [] := by
        simp [Scheduler.hasWork] at idle
        exact idle.1
      simp [Scheduler.schedule, Scheduler.planStep, Scheduler.fillRunning, empty]
    rw [same]
    simp [inStep, none]
  | drain none _ kept =>
    have same : ∀ rid, t.line rid = s.line rid := kept.line backend
    rw [Right.of_line same]
    simp [inStep, none]
  | launch _ kept =>
    rw [Right.of_line (kept.line backend)]
    exact ⟨h.right_of_launched backend, fun both => h.right_launched backend both.2 both.1⟩

end

variable {hint : Option PrefixHint} {prompt : List Int}

theorem placeHint_facts (prompt : List Int) (maxNew : Nat)
    (nonneg : ∀ h ∈ hint, 0 ≤ h.computedTokens) : ∃ computed : Int, 0 ≤ computed ∧ computed ≤ prompt.length ∧
      Scheduler.placeHint ⟨prompt, maxNew, 0, [], false, none⟩ hint = ⟨prompt, maxNew, computed, [], false, none⟩ := by
  cases hint with
  | none => exact ⟨0, le_rfl, by omega, rfl⟩
  | some hint =>
    have low := nonneg hint rfl
    simp only [Scheduler.placeHint]
    by_cases full : fullLocalHit hint (Req.promptLen ⟨prompt, maxNew, 0, [], false, none⟩) = true
    · rw [if_pos full]
      exact ⟨prompt.length, by omega, le_rfl, rfl⟩
    · rw [if_neg full]
      exact ⟨min hint.computedTokens prompt.length, by omega, by omega, rfl⟩

theorem fine_new {maxNew : Nat} {computed : Int} {remaining : List Int}
    (nonempty : prompt ≠ []) (positive : 0 < maxNew) (low : 0 ≤ computed) (high : computed ≤ prompt.length)
    (length : 0 < role.maxModelLength → (prompt.length : Int) + maxNew ≤ role.maxModelLength)
    (mock : role.modelBackend = .mock → remaining = mockDecodeTokens prompt maxNew) :
    Fine role ⟨prompt, maxNew, computed, [], false, none⟩ 0 remaining [] := by
  have pos := length_pos_of_ne_nil nonempty
  refine ⟨?_, positive, length, low, mock, ?_⟩
  · change (0 : Int) < prompt.length
    omega
  · by_cases computing : computed < prompt.length
    · exact .prompt computing rfl rfl rfl (Or.inl rfl)
    · refine .generating ?_ rfl (Nat.zero_le _) ?_ (by simp)
      · change computed = (prompt.length : Int) + (0 : Nat)
        omega
      · change false = decide (maxNew ≤ 0)
        simp
        omega

/-- An accepted request starts with its prompt and no token; the others keep theirs. -/
theorem Turning.addRequest (h : Turning role s) {maxNew : Nat}
    (nonempty : prompt ≠ []) (positive : 0 < maxNew) (nonneg : ∀ h ∈ hint, 0 ≤ h.computedTokens)
    (ok : s.addRequest role rid ⟨prompt, maxNew, 0, [], false, none⟩ hint = .ok t) :
    Turning role t ∧ (∀ other, other ≠ rid → t.line other = s.line other) ∧
      s.reqs rid = none ∧ t.line rid = some (prompt, []) := by
  obtain ⟨computed, low, high, placed⟩ := placeHint_facts prompt maxNew nonneg
  unfold Scheduler.addRequest at ok
  split at ok
  · cases ok
  rename_i unknown
  split at ok
  · cases ok
  rename_i short
  have missing : s.reqs rid = none := by simpa using unknown
  obtain ⟨idle, empty⟩ := h.inv.absent rid missing
  rw [placed] at ok
  have length : 0 < role.maxModelLength → (prompt.length : Int) + maxNew ≤ role.maxModelLength := by
    intro bounded
    by_contra longer
    exact short ⟨bounded, not_le.mp longer⟩
  have fresh : rid ∉ s.waiting ++ s.running := by
    intro mem
    obtain ⟨req, found, -⟩ := (h.inv.unfinished rid).mp mem
    rw [missing] at found
    cases found
  -- the fields of the new state, one by one
  have state := Except.ok.inj ok
  have reqs : t.reqs = update s.reqs rid (some ⟨prompt, maxNew, computed, [], false, none⟩) := by
    rw [← state]
  have waiting : t.waiting = s.waiting ++ [rid] := by rw [← state]
  have running : t.running = s.running := by rw [← state]
  have mock : t.mockRemaining = update s.mockRemaining rid
      (Scheduler.mockTokensFor role ⟨prompt, maxNew, 0, [], false, none⟩) := by rw [← state]
  have inflight : t.inflightDecode = s.inflightDecode := by rw [← state]
  have queue : t.resultQueue = s.resultQueue := by rw [← state]
  have pend : ∀ other, t.pending other = s.pending other := by
    intro other
    rw [Scheduler.pending, Scheduler.pending, queue]
  have here : t.reqs rid = some ⟨prompt, maxNew, computed, [], false, none⟩ := by
    rw [reqs, update_self]
  have there : ∀ other, other ≠ rid → t.reqs other = s.reqs other := by
    intro other ne
    rw [reqs, update_of_ne ne]
  refine ⟨⟨⟨?_, ?_, ?_, ?_, ?_⟩, queue ▸ h.room, queue ▸ h.distinct⟩, ?_, missing, ?_⟩
  · have perm : (s.waiting ++ [rid] ++ s.running).Perm (rid :: (s.waiting ++ s.running)) := by
      rw [append_assoc, singleton_append]
      exact perm_middle
    rw [waiting, running]
    exact perm.nodup_iff.mpr (nodup_cons.mpr ⟨fresh, h.inv.nodup⟩)
  · intro other
    have mem : other ∈ t.waiting ++ t.running ↔ other = rid ∨ other ∈ s.waiting ++ s.running := by
      rw [waiting, running]
      simp only [mem_append, List.mem_singleton]
      tauto
    rw [mem]
    by_cases same : other = rid
    · subst same
      exact iff_of_true (Or.inl rfl) ⟨_, here, rfl⟩
    · rw [there other same, ← h.inv.unfinished other]
      simp only [same, false_or]
  · intro other req found
    rw [pend, inflight, mock]
    by_cases same : other = rid
    · subst same
      rw [here] at found
      cases found
      rw [empty, idle, update_self]
      refine fine_new nonempty positive low high length ?_
      intro backend
      simp [Scheduler.mockTokensFor, backend]
    · rw [there other same] at found
      rw [update_of_ne same]
      exact h.inv.fine other req found
  · intro other hnone
    rw [pend, inflight]
    by_cases same : other = rid
    · subst same
      rw [here] at hnone
      cases hnone
    · rw [there other same] at hnone
      exact h.inv.absent other hnone
  · intro other some
    rw [running]
    rw [pend] at some
    exact h.inv.started other some
  · intro other ne
    rw [Scheduler.line, Scheduler.line, there other ne, pend]
  · rw [line_of_found here, pend, empty]
    rfl

theorem Right.addRequest (same : ∀ other, other ≠ rid → t.line other = s.line other)
    (missing : s.reqs rid = none) (new : ∃ prompt, t.line rid = some (prompt, [])) :
    Right model t ↔ Right model s := by
  obtain ⟨fresh, hfresh⟩ := new
  constructor
  · intro right other prompt out hline
    by_cases eq : other = rid
    · subst eq
      rw [Scheduler.line, missing] at hline
      cases hline
    · exact right other prompt out ((same other eq).trans hline)
  · intro right other prompt out hline
    by_cases eq : other = rid
    · subst eq
      rw [hfresh] at hline
      cases hline
      rfl
    · exact right other prompt out ((same other eq).symm.trans hline)

section Runs

inductive Event
  | arrive (rid : String) (prompt : List Int) (maxNew : Nat) (hint : Option PrefixHint)
  | turn

/-- The scheduler after an event, and whether every step so far was in order. -/
def step (role : RoleConfig) (model : ModelConfig) (x : Scheduler × Bool) : Event → Scheduler × Bool
  | .arrive rid prompt maxNew hint =>
    ((x.1.addRequest role rid ⟨prompt, maxNew, 0, [], false, none⟩ hint).toOption.getD x.1, x.2)
  | .turn => ((x.1.turn role model).toOption.getD x.1, x.2 && inStep role model x.1)

/-- Prompts are not empty, at least one token is asked for, a hint counts tokens, and a step fits into the
runner's buffers. -/
def Meets (role : RoleConfig) (x : Scheduler × Bool) : Event → Prop
  | .arrive _ prompt maxNew hint => prompt ≠ [] ∧ 0 < maxNew ∧ ∀ h ∈ hint, 0 ≤ h.computedTokens
  | .turn => Fits (x.1.schedule role).2

def Starts (x : Scheduler × Bool) : Prop :=
  x = (Scheduler.new, true)

def Served (role : RoleConfig) (model : ModelConfig) : Scheduler × Bool → Prop :=
  Reach (step role model) Starts (Meets role)

theorem turning_new (role : RoleConfig) : Turning role Scheduler.new := by
  refine ⟨⟨nodup_nil, ?_, ?_, ?_, ?_⟩, Nat.zero_le _, ?_⟩
  · intro rid
    simp [Scheduler.new]
  · intro rid req found
    cases found
  · intro rid _
    exact ⟨rfl, rfl⟩
  · intro rid some
    exact absurd rfl some
  · intro batch mem
    cases mem

variable {x : Scheduler × Bool} {events : List Event} {e : Event}

theorem step_spec (model : ModelConfig) (h : Turning role x.1) (ok : Meets role x e) :
    Turning role (step role model x e).1 ∧ (role.modelBackend = .qwen3 → (x.2 = true ↔ Right model x.1) →
        ((step role model x e).2 = true ↔ Right model (step role model x e).1)) := by
  cases e with
  | arrive rid prompt maxNew hint =>
    obtain ⟨nonempty, positive, nonneg⟩ := ok
    cases hadd : x.1.addRequest role rid ⟨prompt, maxNew, 0, [], false, none⟩ hint with
    | error e =>
      simp only [step, hadd, Except.toOption, getD_none]
      exact ⟨h, fun _ => id⟩
    | ok t =>
      obtain ⟨turning, same, missing, new⟩ := h.addRequest nonempty positive nonneg hadd
      simp only [step, hadd, Except.toOption, getD_some]
      exact ⟨turning, fun _ iff => iff.trans (Right.addRequest same missing ⟨prompt, new⟩).symm⟩
  | turn =>
    obtain ⟨t, hturn, turning, adv⟩ := h.turn model ok
    simp only [step, hturn, Except.toOption, getD_some]
    refine ⟨turning, fun backend iff => ?_⟩
    rw [h.right_iff backend adv, Bool.and_eq_true, iff]

theorem Served.turning (h : Served role model x) : Turning role x.1 := by
  refine invariant (I := fun x => Turning role x.1) ?_ ?_ h
  · rintro _ rfl
    exact turning_new role
  · intro x e turning ok
    exact (step_spec model turning ok).1

theorem Served.right_iff (h : Served role model x)
    (backend : role.modelBackend = .qwen3) : x.2 = true ↔ Right model x.1 := by
  refine (invariant (I := fun x => Turning role x.1 ∧ (x.2 = true ↔ Right model x.1)) ?_ ?_ h).2
  · rintro _ rfl
    refine ⟨turning_new role, iff_of_true rfl ?_⟩
    intro rid prompt out hline
    cases hline
  · intro x e ⟨turning, iff⟩ ok
    obtain ⟨next, kept⟩ := step_spec model turning ok
    exact ⟨next, kept backend iff⟩

theorem Turning.inStep_of_normal (h : Turning role s)
    (plain : role.enableOverlap = false ∨ role.modelBackend = .mock) : inStep role model s = true := by
  rcases plain with normal | mock
  · have empty : s.resultQueue = [] := by
      have := h.room
      rw [normal] at this
      exact eq_nil_of_length_eq_zero (Nat.le_zero.mp this)
    have none : ∀ rid, s.pending rid = [] := by
      intro rid
      simp [Scheduler.pending, empty]
    have quiet : ∀ it ∈ (s.schedule role).2, lagging model s it = false := by
      intro it _
      unfold lagging
      cases found : s.reqs it.reqId with
      | none => rfl
      | some req =>
        have fine := h.inv.fine it.reqId req found
        have zero : s.inflightDecode it.reqId = 0 := by
          rw [none] at fine
          cases fine.stage with
          | prompt _ _ _ idle => exact idle
          | generating _ inflight => exact inflight
        simp [zero]
    unfold inStep
    rw [Bool.or_eq_true]
    right
    simpa using quiet
  · simp [inStep, mock]

theorem Served.flag_of_normal (h : Served role model x)
    (plain : role.enableOverlap = false ∨ role.modelBackend = .mock) : x.2 = true := by
  refine (invariant (I := fun x => Turning role x.1 ∧ x.2 = true) ?_ ?_ h).2
  · rintro _ rfl
    exact ⟨turning_new role, rfl⟩
  · intro x e ⟨turning, flag⟩ ok
    refine ⟨(step_spec model turning ok).1, ?_⟩
    cases e with
    | arrive rid prompt maxNew hint => exact flag
    | turn =>
      change (x.2 && inStep role model x.1) = true
      rw [flag, turning.inStep_of_normal plain]
      rfl

def expected (role : RoleConfig) (model : ModelConfig) (req : Req) : List Int :=
  match role.modelBackend with
  | .qwen3 => modelTokens model req.promptTokenIds req.maxNewTokens
  | .mock => mockDecodeTokens req.promptTokenIds req.maxNewTokens

theorem Turning.all_out (h : Turning role s) (idle : s.hasWork = false) (found : s.reqs rid = some req) :
    req.numOutputTokens = req.maxNewTokens ∧ s.pending rid = [] := by
  have parts : (s.waiting = [] ∧ s.running = []) ∧ s.resultQueue = [] := by
    simpa [Scheduler.hasWork] using idle
  have none : s.pending rid = [] := by simp [Scheduler.pending, parts.2]
  have done : req.finished = true := by
    by_contra unfinished
    have mem := (h.inv.unfinished rid).mpr ⟨req, found, by simpa using unfinished⟩
    rw [parts.1.1, parts.1.2] at mem
    cases mem
  have fine := h.inv.fine rid req found
  refine ⟨?_, none⟩
  cases fine.stage with
  | prompt _ _ unfinished =>
    rw [done] at unfinished
    cases unfinished
  | generating _ _ bound finished =>
    rw [done] at finished
    have := of_decide_eq_true finished.symm
    omega

theorem Served.outputs_iff (h : Served role model x) (idle : x.1.hasWork = false) :
    x.2 = true ↔ ∀ rid req, x.1.reqs rid = some req → req.outputTokenIds = expected role model req := by
  have turning := h.turning
  cases backend : role.modelBackend with
  | mock =>
    refine iff_of_true (h.flag_of_normal (Or.inr backend)) ?_
    intro rid req found
    have fine := turning.inv.fine rid req found
    have count := fine.length_remaining backend
    have all := (turning.all_out idle found).1
    have none : x.1.mockRemaining rid = [] := eq_nil_of_length_eq_zero (by omega)
    have eq := fine.mock backend
    rw [none, append_nil] at eq
    rw [eq, expected, backend]
  | qwen3 =>
    rw [h.right_iff backend]
    constructor
    · intro right rid req found
      obtain ⟨all, none⟩ := turning.all_out idle found
      have line := right rid _ _ (line_of_found found)
      rw [none, flatMap_nil, append_nil] at line
      rw [expected, backend, ← all]
      exact line
    · intro outputs rid prompt out hline
      obtain ⟨req, found, eq⟩ := map_eq_some_iff.mp hline
      obtain ⟨-, none⟩ := turning.all_out idle found
      rw [none, flatMap_nil, append_nil] at eq
      cases eq
      have := outputs rid req found
      rw [this, expected, backend]
      dsimp only
      rw [length_modelTokens]

def requested (role : RoleConfig) (known : String → Option (List Int × Nat)) :
    Event → String → Option (List Int × Nat)
  | .arrive rid prompt maxNew _ =>
    if (known rid).isSome ∨
        (0 < role.maxModelLength ∧ role.maxModelLength < (prompt.length : Int) + maxNew) then known
    else Function.update known rid (some (prompt, maxNew))
  | .turn => known

theorem Advance.asked (adv : Advance role model s t) : t.asked = s.asked := by
  cases adv with
  | rest _ same => rw [same]
  | drain _ _ kept | launch _ kept => exact funext kept.asked

theorem placeHint_asked (req : Req) (hint : Option PrefixHint) :
    (Scheduler.placeHint req hint).promptTokenIds = req.promptTokenIds ∧
      (Scheduler.placeHint req hint).maxNewTokens = req.maxNewTokens := by
  cases hint with
  | none => exact ⟨rfl, rfl⟩
  | some hint =>
    unfold Scheduler.placeHint
    dsimp only
    split <;> exact ⟨rfl, rfl⟩

theorem addRequest_asked (s : Scheduler) (rid : String) (req : Req) (hint : Option PrefixHint) :
    ((s.addRequest role rid req hint).toOption.getD s).asked = if (s.asked rid).isSome ∨
          (0 < role.maxModelLength ∧ role.maxModelLength < req.promptLen + req.maxNewTokens) then s.asked
      else update s.asked rid (some (req.promptTokenIds, req.maxNewTokens)) := by
  have known : (s.asked rid).isSome = (s.reqs rid).isSome := isSome_map
  unfold Scheduler.addRequest
  rw [known]
  by_cases dup : (s.reqs rid).isSome = true
  · rw [if_pos dup, if_pos (Or.inl dup)]
    rfl
  rw [if_neg dup]
  by_cases long : 0 < role.maxModelLength ∧ role.maxModelLength < req.promptLen + req.maxNewTokens
  · rw [if_pos long, if_pos (Or.inr long)]
    rfl
  rw [if_neg long, if_neg (by tauto)]
  obtain ⟨prompt, count⟩ := placeHint_asked req hint
  funext other
  by_cases same : other = rid
  · subst same
    simp [Except.toOption, Scheduler.asked, prompt, count]
  · simp [Except.toOption, Scheduler.asked, same]

theorem step_asked (h : Turning role x.1) (ok : Meets role x e) :
    (step role model x e).1.asked = requested role x.1.asked e := by
  cases e with
  | arrive rid prompt maxNew hint => exact addRequest_asked x.1 rid _ hint
  | turn =>
    obtain ⟨t, hturn, -, adv⟩ := h.turn model ok
    simp only [step, hturn, Except.toOption, getD_some]
    exact adv.asked

def Event.arrives : Event → Bool
  | .arrive _ _ _ _ => true
  | .turn => false

def ran (role : RoleConfig) (model : ModelConfig) (events : List Event) : Scheduler × Bool :=
  events.foldl (step role model) (Scheduler.new, true)

def Fair (role : RoleConfig) (model : ModelConfig) (events : List Event) : Prop :=
  Reach.Allowed (step role model) (Meets role) (Scheduler.new, true) events

theorem Fair.served (h : Fair role model events) : Served role model (ran role model events) :=
  foldl (.start (show Starts _ from rfl)) h

theorem foldl_step_asked (h : Turning role x.1)
    (ok : Reach.Allowed (step role model) (Meets role) x events) : (events.foldl (step role model) x).1.asked =
      (events.filter Event.arrives).foldl (requested role) x.1.asked := by
  induction events generalizing x with
  | nil => rfl
  | cons e events ih =>
    rw [foldl_cons, ih (step_spec model h ok.1).1 ok.2, step_asked h ok.1]
    cases e <;> rfl

theorem Fair.asked_eq {role' : RoleConfig} {events events' : List Event} (h : Fair role model events)
    (h' : Fair role' model events') (length : role.maxModelLength = role'.maxModelLength)
    (arrivals : events.filter Event.arrives = events'.filter Event.arrives) :
    (ran role model events).1.asked = (ran role' model events').1.asked := by
  have rule : requested role = requested role' := by
    funext known e
    cases e with
    | arrive rid prompt maxNew hint => simp only [requested, length]
    | turn => rfl
  have left := foldl_step_asked (turning_new role) h
  have right := foldl_step_asked (turning_new role') h'
  rw [arrivals, rule] at left
  exact left.trans right.symm

theorem expected_congr {role role' : RoleConfig} {req req' : Req} (backend : role.modelBackend = role'.modelBackend)
    (same : (req.promptTokenIds, req.maxNewTokens) = (req'.promptTokenIds, req'.maxNewTokens)) :
    expected role model req = expected role' model req' := by
  obtain ⟨prompt, count⟩ := Prod.mk.inj same
  unfold expected
  rw [backend, prompt, count]

/-- Two runs that are at their end and were asked for the same give the same tokens exactly if the
outputs of the first are the expected ones, when those of the second are. -/
theorem outputs_eq_iff {role role' : RoleConfig}
    (backend : role.modelBackend = role'.modelBackend) (requests : s.asked = t.asked)
    (second : ∀ rid req, t.reqs rid = some req → req.outputTokenIds = expected role' model req) :
    (∀ rid req, s.reqs rid = some req → req.outputTokenIds = expected role model req) ↔
      ∀ rid req req', s.reqs rid = some req → t.reqs rid = some req' → req.outputTokenIds = req'.outputTokenIds := by
  have both : ∀ {rid req}, s.reqs rid = some req → ∃ req', t.reqs rid = some req' ∧
      expected role model req = expected role' model req' := by
    intro rid req found
    have here := congrFun requests rid
    rw [Scheduler.asked, Scheduler.asked, found] at here
    obtain ⟨req', found', same⟩ := map_eq_some_iff.mp here.symm
    exact ⟨req', found', expected_congr backend same.symm⟩
  constructor
  · intro first rid req req' found found'
    obtain ⟨_, other, same⟩ := both found
    rw [found'] at other
    cases other
    rw [first rid req found, second rid req' found', same]
  · intro equal rid req found
    obtain ⟨req', found', same⟩ := both found
    rw [equal rid req req' found found', second rid req' found', same]

def overlapping (role : RoleConfig) : RoleConfig :=
  { role with enableOverlap := true }

def plain (role : RoleConfig) : RoleConfig :=
  { role with enableOverlap := false }

/-- Every run whose steps fit comes to its end, and there the outputs are the model's, one token after
another, exactly if no step decoded a request with a token in flight (vocabulary sizes that divide the
length apart); so it is without overlap. For the same arrivals the two loops then agree exactly if the
overlapping one was in order. -/
theorem overlap_outputs (role : RoleConfig) (model : ModelConfig) :
    (∀ events, Fair role model events →
      ((∀ n t, Scheduler.turns role model n (ran role model events).1 = .ok t →
          Fits (t.schedule role).2) →
        ∃ n t, Scheduler.turns role model n (ran role model events).1 = .ok t ∧ t.hasWork = false) ∧
      (role.enableOverlap = false → (ran role model events).2 = true) ∧
      ((ran role model events).1.hasWork = false →
        ((ran role model events).2 = true ↔ ∀ rid req, (ran role model events).1.reqs rid = some req →
          req.outputTokenIds = expected role model req))) ∧
    (∀ events events', Fair (overlapping role) model events → Fair (plain role) model events' →
      events.filter Event.arrives = events'.filter Event.arrives →
      (ran (overlapping role) model events).1.asked = (ran (plain role) model events').1.asked ∧
      ((ran (overlapping role) model events).1.hasWork = false →
        (ran (plain role) model events').1.hasWork = false →
        ((ran (overlapping role) model events).2 = true ↔ ∀ rid req req',
          (ran (overlapping role) model events).1.reqs rid = some req →
          (ran (plain role) model events').1.reqs rid = some req' →
          req.outputTokenIds = req'.outputTokenIds))) := by
  constructor
  · intro events fair
    have served := fair.served
    exact ⟨served.turning.settles, fun normal => served.flag_of_normal (Or.inl normal), served.outputs_iff⟩
  · intro events events' overlap normal arrivals
    have requests := overlap.asked_eq normal rfl arrivals
    refine ⟨requests, ?_⟩
    intro idle idle'
    have normalOut := (normal.served.outputs_iff idle').mp (normal.served.flag_of_normal (Or.inl rfl))
    rw [overlap.served.outputs_iff idle]
    exact outputs_eq_iff rfl requests normalOut

def sampleRole : RoleConfig := {}

def sampleModel : ModelConfig where
  vocabSize := 100
  bosTokenId := 1
  numHiddenLayers := 1
  vocab_pos := by decide

def oneRequest (maxNew turns : Nat) : List Event :=
  .arrive "r" [5] maxNew none :: List.replicate turns .turn

instance (role : RoleConfig) (x : Scheduler × Bool) : ∀ e, Decidable (Meets role x e)
  | .arrive _ prompt maxNew none => decidable_of_iff (prompt ≠ [] ∧ 0 < maxNew) (by simp [Meets])
  | .arrive _ prompt maxNew (some hint) =>
    decidable_of_iff (prompt ≠ [] ∧ 0 < maxNew ∧ 0 ≤ hint.computedTokens) (by simp [Meets])
  | .turn => inferInstanceAs (Decidable (Fits _))

instance (events : List Event) : Decidable (Fair role model events) :=
  inferInstanceAs (Decidable (Reach.Allowed _ _ _ _))

def outputOf (x : Scheduler × Bool) : Option (List Int) :=
  (x.1.reqs "r").map Req.outputTokenIds

/-- With three tokens in the vocabulary both tokens of "r" are the same. -/
def smallModel : ModelConfig :=
  { sampleModel with vocabSize := 3, vocab_pos := by decide }

def besideOne (turns : Nat) : List Event :=
  .arrive "s" [2] 1 none :: oneRequest 2 turns

/-- Two requests, and two steps of one of them in flight at once. -/
theorem overlap_outputs_two_requests : ∀ rid req req',
      (ran (overlapping sampleRole) smallModel (besideOne 5)).1.reqs rid = some req →
      (ran (plain sampleRole) smallModel (besideOne 3)).1.reqs rid = some req' →
      req.outputTokenIds = req'.outputTokenIds := by
  have order : (ran (overlapping sampleRole) smallModel (besideOne 5)).2 = true := by decide +kernel
  have same := (overlap_outputs sampleRole smallModel).2 (besideOne 5) (besideOne 3)
    (by decide +kernel) (by decide +kernel) rfl
  exact (same.2 (by decide +kernel) (by decide +kernel)).mp order

/-- The second token of a request is computed before the first has reached it. -/
theorem second_token_repeated : Fair (overlapping sampleRole) sampleModel (oneRequest 2 5) ∧
      Fair (plain sampleRole) sampleModel (oneRequest 2 3) ∧
      (ran (overlapping sampleRole) sampleModel (oneRequest 2 5)).1.hasWork = false ∧
      (ran (plain sampleRole) sampleModel (oneRequest 2 3)).1.hasWork = false ∧
      outputOf (ran (overlapping sampleRole) sampleModel (oneRequest 2 5)) = some [7, 7] ∧
      outputOf (ran (plain sampleRole) sampleModel (oneRequest 2 3)) = some [7, 10] := by
  decide +kernel

end Runs

end NodeScheduler

end LakeKv
