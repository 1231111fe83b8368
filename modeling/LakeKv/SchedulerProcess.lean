import LakeKv.SchedulerTurns

namespace LakeKv

open List Option

namespace NodeScheduler

namespace Scheduler

/-- The prompt of a request, and its outputs followed by its tokens in the queue. -/
def line (s : Scheduler) (rid : String) : Option (List Int × List Int) :=
  (s.reqs rid).map fun req =>
    (req.promptTokenIds, req.outputTokenIds ++ (s.pending rid).flatMap Prod.snd)

def asked (s : Scheduler) (rid : String) : Option (List Int × Nat) :=
  (s.reqs rid).map fun req => (req.promptTokenIds, req.maxNewTokens)

def todo (s : Scheduler) (rid : String) : Int :=
  ((s.reqs rid).map fun req => req.promptLen + req.maxNewTokens - req.numComputedTokens -
    ((s.pending rid).map fun entry => entry.1.numTokens).sum).getD 0

def under (s : Scheduler) (batch : BatchResult) : Scheduler :=
  { s with resultQueue := batch :: s.resultQueue }

theorem pending_under (s : Scheduler) (batch : BatchResult) (rid : String) :
    (s.under batch).pending rid = batch.entries rid ++ s.pending rid :=
  rfl

end Scheduler

variable {role : RoleConfig} {s t u : Scheduler} {rid : String} {req req' : Req} {it : Scheduled}
  {items : List Scheduled} {inflight : Int} {remaining : List Int} {taken : List Int}
  {rest : List (Scheduled × List Int)} {tokens : String → List Int}

structure Kept (role : RoleConfig) (s t : Scheduler) : Prop where
  line : role.modelBackend = .qwen3 → ∀ rid, t.line rid = s.line rid
  asked : ∀ rid, t.asked rid = s.asked rid
  todo : ∀ rid, t.todo rid = s.todo rid
  waiting : t.waiting = s.waiting
  running : t.running.Sublist s.running

theorem Kept.refl (role : RoleConfig) (s : Scheduler) : Kept role s s :=
  ⟨fun _ _ => rfl, fun _ => rfl, fun _ => rfl, rfl, List.Sublist.refl _⟩

theorem Kept.trans (h : Kept role s t) (h' : Kept role t u) : Kept role s u where
  line backend rid := (h'.line backend rid).trans (h.line backend rid)
  asked rid := (h'.asked rid).trans (h.asked rid)
  todo rid := (h'.todo rid).trans (h.todo rid)
  waiting := h'.waiting.trans h.waiting
  running := h'.running.trans h.running

structure Only (r : String) (s t : Scheduler) : Prop where
  reqs : ∀ rid, rid ≠ r → t.reqs rid = s.reqs rid
  inflight : ∀ rid, rid ≠ r → t.inflightDecode rid = s.inflightDecode rid
  mock : ∀ rid, rid ≠ r → t.mockRemaining rid = s.mockRemaining rid
  pending : ∀ rid, rid ≠ r → t.pending rid = s.pending rid
  waiting : t.waiting = s.waiting

/-- A request that has run on, or is finished and leaves the running ones. -/
inductive Goes (r : String) (s t : Scheduler) (req' : Req) : Prop
  | on (unfinished : req'.finished = false) (running : t.running = s.running)
  | out (finished : req'.finished = true) (running : t.running = s.running.erase r)
      (empty : t.pending r = [])

/-- A step that touches one running request keeps the invariant of all. -/
theorem Inv.replace {r : String} (h : Inv role s) (only : Only r s t) (started : r ∈ s.running)
    (found : t.reqs r = some req') (fine : Fine role req' (t.inflightDecode r) (t.mockRemaining r) (t.pending r))
    (goes : Goes r s t req') : Inv role t := by
  have split := nodup_append.mp h.nodup
  have notWaiting : r ∉ s.waiting := fun hw => split.2.2 r hw r started rfl
  have fineAll : ∀ rid req, t.reqs rid = some req →
      Fine role req (t.inflightDecode rid) (t.mockRemaining rid) (t.pending rid) := by
    intro rid req hreq
    by_cases hr : rid = r
    · subst hr
      rw [found] at hreq
      cases hreq
      exact fine
    · rw [only.reqs rid hr] at hreq
      rw [only.inflight rid hr, only.mock rid hr, only.pending rid hr]
      exact h.fine rid req hreq
  have absentAll : ∀ rid, t.reqs rid = none → t.inflightDecode rid = 0 ∧ t.pending rid = [] := by
    intro rid hnone
    by_cases hr : rid = r
    · subst hr
      rw [found] at hnone
      cases hnone
    · rw [only.reqs rid hr] at hnone
      rw [only.inflight rid hr, only.pending rid hr]
      exact h.absent rid hnone
  cases goes with
  | on unfinished running =>
    refine ⟨?_, ?_, fineAll, absentAll, ?_⟩
    · rw [only.waiting, running]
      exact h.nodup
    · intro rid
      rw [only.waiting, running]
      by_cases hr : rid = r
      · subst hr
        exact ⟨fun _ => ⟨req', found, unfinished⟩, fun _ => mem_append_right _ started⟩
      · rw [only.reqs rid hr]
        exact h.unfinished rid
    · intro rid hrid
      rw [running]
      by_cases hr : rid = r
      · exact hr ▸ started
      · rw [only.pending rid hr] at hrid
        exact h.started rid hrid
  | out finished running empty =>
    refine ⟨?_, ?_, fineAll, absentAll, ?_⟩
    · rw [only.waiting, running]
      refine nodup_append.mpr ⟨split.1, split.2.1.erase r, ?_⟩
      intro x hx y hy
      exact split.2.2 x hx y (mem_of_mem_erase hy)
    · intro rid
      rw [only.waiting, running]
      by_cases hr : rid = r
      · subst hr
        constructor
        · intro mem
          rcases mem_append.mp mem with hw | hr
          · exact absurd hw notWaiting
          · exact absurd rfl (split.2.1.mem_erase_iff.mp hr).1
        · rintro ⟨req, hreq, unfinished⟩
          rw [found] at hreq
          cases hreq
          rw [finished] at unfinished
          cases unfinished
      · rw [only.reqs rid hr, ← h.unfinished rid, mem_append, mem_append, mem_erase_of_ne hr]
    · intro rid hrid
      rw [running]
      have hr : rid ≠ r := by
        rintro rfl
        exact hrid empty
      rw [only.pending rid hr] at hrid
      exact (mem_erase_of_ne hr).mpr (h.started rid hrid)

theorem Kept.of_only {r : String} (only : Only r s t)
    (line : role.modelBackend = .qwen3 → t.line r = s.line r) (asked : t.asked r = s.asked r)
    (todo : t.todo r = s.todo r) (goes : Goes r s t req') : Kept role s t where
  line backend rid := by
    by_cases hr : rid = r
    · exact hr ▸ line backend
    · rw [Scheduler.line, Scheduler.line, only.reqs rid hr, only.pending rid hr]
  asked rid := by
    by_cases hr : rid = r
    · exact hr ▸ asked
    · rw [Scheduler.asked, Scheduler.asked, only.reqs rid hr]
  todo rid := by
    by_cases hr : rid = r
    · exact hr ▸ todo
    · rw [Scheduler.todo, Scheduler.todo, only.reqs rid hr, only.pending rid hr]
  waiting := only.waiting
  running := by
    cases goes with
    | on _ running => rw [running]
    | out _ running _ =>
      rw [running]
      exact erase_sublist

theorem Fine.process_prompt (h : Fine role req inflight remaining ((it, taken) :: rest))
    (before : it.computedAt < req.promptLen) :
    min req.promptLen (it.computedAt + it.numTokens) = req.numComputedTokens + it.numTokens ∧
      0 ≤ req.numComputedTokens + it.numTokens ∧ taken = [] ∧ rest = [] ∧ req.finished = false ∧
      Fine role { req with numComputedTokens := req.numComputedTokens + it.numTokens } inflight remaining rest := by
  cases h.stage with
  | prompt computing outputs unfinished idle part =>
    rcases part with empty | ⟨old, hold, hstart, positive, within⟩
    · cases empty
    cases hold
    have nonneg := h.computed_nonneg
    refine ⟨by omega, by omega, rfl, rfl, unfinished, ?_⟩
    refine ⟨h.prompt_pos, h.maxNew_pos, h.length, by dsimp only; omega, h.mock, ?_⟩
    by_cases more : req.numComputedTokens + it.numTokens < req.promptLen
    · exact .prompt more outputs unfinished idle (Or.inl rfl)
    have none : req.numOutputTokens = 0 := by simp [Req.numOutputTokens, outputs]
    have pos := h.maxNew_pos
    refine .generating ?_ ?_ ?_ ?_ (by simp)
    · have : (req.numOutputTokens : Int) = 0 := by omega
      change req.numComputedTokens + it.numTokens = req.promptLen + req.numOutputTokens
      omega
    · simpa using idle
    · change req.numOutputTokens + 0 ≤ req.maxNewTokens
      omega
    · change req.finished = decide (req.maxNewTokens ≤ req.numOutputTokens)
      rw [unfinished, none]
      simp only [false_eq_decide_iff, not_le]
      exact pos
  | generating _ _ _ _ htokens =>
    have past : req.promptLen ≤ it.computedAt := (htokens _ mem_cons_self).2.1
    omega

theorem numOutputTokens_append (req : Req) (token : Int) :
    (Scheduler.appendTokens req [token]).numOutputTokens = req.numOutputTokens + 1 := by
  simp [Scheduler.appendTokens, Req.numOutputTokens]

section

variable (h : Fine role req inflight remaining ((it, taken) :: rest))
include h

variable (past : ¬ it.computedAt < req.promptLen)
include past

theorem Fine.decode_entry : it.numTokens = 1 ∧ inflight = rest.length + 1 ∧
      req.numOutputTokens + rest.length + 1 ≤ req.maxNewTokens ∧ req.finished = false ∧ ∃ seen, taken = [seen] := by
  cases h.stage with
  | prompt computing _ _ _ part =>
    rcases part with empty | ⟨old, hold, hstart, -, -⟩
    · cases empty
    · cases hold
      omega
  | generating _ hinflight hbound hfinished htokens =>
    obtain ⟨one, -, seen⟩ := htokens _ mem_cons_self
    rw [length_cons] at hinflight hbound
    refine ⟨one, by omega, by omega, ?_, seen⟩
    rw [hfinished]
    exact decide_eq_false (by omega)

theorem Fine.process_decode (token : Int) (left : List Int)
    (mock : role.modelBackend = .mock → remaining = token :: left) :
    Fine role { Scheduler.appendTokens req [token] with
      finished := decide (req.maxNewTokens ≤ (Scheduler.appendTokens req [token]).numOutputTokens) }
      rest.length left rest := by
  obtain ⟨-, -, bound, -⟩ := h.decode_entry past
  have count := numOutputTokens_append req token
  have nonneg := h.computed_nonneg
  refine ⟨h.prompt_pos, h.maxNew_pos, h.length, ?_, ?_, ?_⟩
  · change 0 ≤ req.numComputedTokens + (1 : Nat)
    omega
  · intro backend
    have eq := h.mock backend
    rw [mock backend] at eq
    simpa [Scheduler.appendTokens] using eq
  · cases h.stage with
    | prompt computing _ _ _ part =>
      rcases part with empty | ⟨old, hold, hstart, -, -⟩
      · cases empty
      · cases hold
        omega
    | generating hcomputed _ _ _ htokens =>
      refine .generating ?_ rfl ?_ rfl ?_
      · change req.numComputedTokens + (1 : Nat) =
          req.promptLen + ((Scheduler.appendTokens req [token]).numOutputTokens : Nat)
        rw [count]
        push_cast
        omega
      · change (Scheduler.appendTokens req [token]).numOutputTokens + rest.length ≤ req.maxNewTokens
        omega
      · intro p hp
        exact htokens p (mem_cons_of_mem _ hp)

end

theorem Fine.of_reason {pending : List (Scheduled × List Int)} {done : Bool} {reason : Option String}
    (h : Fine role { req with finished := done } inflight remaining pending) :
    Fine role { req with finished := done, finishReason := reason } inflight remaining pending := by
  refine ⟨h.prompt_pos, h.maxNew_pos, h.length, h.computed_nonneg, h.mock, ?_⟩
  cases h.stage with
  | prompt computing outputs unfinished idle part => exact .prompt computing outputs unfinished idle part
  | generating computed inflight bound finished tokens =>
    exact .generating computed inflight bound finished tokens

theorem pending_front (t : Scheduler) (it : Scheduled) (items : List Scheduled) (tokens : String → List Int) :
    (t.under ⟨it :: items, tokens⟩).pending it.reqId =
      (it, tokens it.reqId) :: (t.under ⟨items, tokens⟩).pending it.reqId := by
  rw [Scheduler.pending_under, Scheduler.pending_under, entries_cons_same, cons_append]

theorem pending_behind (t : Scheduler) (items : List Scheduled) (tokens : String → List Int) (ne : rid ≠ it.reqId) :
    (t.under ⟨it :: items, tokens⟩).pending rid = (t.under ⟨items, tokens⟩).pending rid := by
  rw [Scheduler.pending_under, Scheduler.pending_under, entries_cons_other tokens (Ne.symm ne)]

structure Processed (role : RoleConfig) (tokens : String → List Int) (it : Scheduled)
    (items : List Scheduled) (t t' : Scheduler) : Prop where
  queue : t'.resultQueue = t.resultQueue
  inv : Inv role (t'.under ⟨items, tokens⟩)
  kept : Kept role (t.under ⟨it :: items, tokens⟩) (t'.under ⟨items, tokens⟩)

section

variable (h : Inv role (t.under ⟨it :: items, tokens⟩))
include h

theorem Processed.intro {t' : Scheduler} (before : t.reqs it.reqId = some req) (found : t'.reqs it.reqId = some req')
    (queue : t'.resultQueue = t.resultQueue)
    (reqs : ∀ rid, rid ≠ it.reqId → t'.reqs rid = t.reqs rid)
    (inflight : ∀ rid, rid ≠ it.reqId → t'.inflightDecode rid = t.inflightDecode rid)
    (mock : ∀ rid, rid ≠ it.reqId → t'.mockRemaining rid = t.mockRemaining rid)
    (waiting : t'.waiting = t.waiting)
    (fine : Fine role req' (t'.inflightDecode it.reqId) (t'.mockRemaining it.reqId)
      ((t.under ⟨items, tokens⟩).pending it.reqId))
    (goes : (req'.finished = false ∧ t'.running = t.running) ∨
      (req'.finished = true ∧ t'.running = t.running.erase it.reqId ∧ (t.under ⟨items, tokens⟩).pending it.reqId = []))
    (prompt : req'.promptTokenIds = req.promptTokenIds) (maxNew : req'.maxNewTokens = req.maxNewTokens)
    (computed : req'.numComputedTokens = req.numComputedTokens + it.numTokens)
    (outputs : role.modelBackend = .qwen3 → req'.outputTokenIds = req.outputTokenIds ++ tokens it.reqId) :
    Processed role tokens it items t t' := by
  have same : ∀ rid, (t'.under ⟨items, tokens⟩).pending rid = (t.under ⟨items, tokens⟩).pending rid := by
    intro rid
    rw [Scheduler.pending_under, Scheduler.pending_under, Scheduler.pending, Scheduler.pending, queue]
  have front := pending_front t it items tokens
  have only : Only it.reqId (t.under ⟨it :: items, tokens⟩) (t'.under ⟨items, tokens⟩) :=
    ⟨reqs, inflight, mock, fun rid ne => by rw [same, pending_behind t items tokens ne], waiting⟩
  have started : it.reqId ∈ (t.under ⟨it :: items, tokens⟩).running := by
    apply h.started
    rw [front]
    exact cons_ne_nil _ _
  have hgoes : Goes it.reqId (t.under ⟨it :: items, tokens⟩) (t'.under ⟨items, tokens⟩) req' := by
    rcases goes with ⟨unfinished, running⟩ | ⟨finished, running, empty⟩
    · exact .on unfinished running
    · exact .out finished running ((same _).trans empty)
  have old : (t.under ⟨it :: items, tokens⟩).reqs it.reqId = some req := before
  have new : (t'.under ⟨items, tokens⟩).reqs it.reqId = some req' := found
  refine ⟨queue, h.replace only started found ?_ hgoes, Kept.of_only only ?_ ?_ ?_ hgoes⟩
  · rw [same]
    exact fine
  · intro backend
    rw [Scheduler.line, Scheduler.line, new, old, same, front, map_some, map_some,
      outputs backend, prompt, flatMap_cons, append_assoc]
  · rw [Scheduler.asked, Scheduler.asked, new, old, map_some, map_some, prompt, maxNew]
  · have promptLen : req'.promptLen = req.promptLen := by rw [Req.promptLen, Req.promptLen, prompt]
    rw [Scheduler.todo, Scheduler.todo, new, old, same, front, map_some, map_some,
      getD_some, getD_some, map_cons, sum_cons, promptLen, maxNew, computed]
    dsimp only
    omega

section

variable (found : t.reqs it.reqId = some req)
include found

theorem Processed.prompt (before : it.computedAt < req.promptLen) :
    ∃ t', Scheduler.processOne role tokens t it = .ok t' ∧ Processed role tokens it items t t' := by
  have fine := h.fine it.reqId req found
  rw [pending_front] at fine
  obtain ⟨hmin, nonneg, htaken, -, unfinished, fine'⟩ := fine.process_prompt before
  refine ⟨{ t with
    reqs := Function.update t.reqs it.reqId
      (some { req with numComputedTokens := req.numComputedTokens + it.numTokens }) }, ?_, ?_⟩
  · unfold Scheduler.processOne
    simp only [found]
    rw [if_pos before, hmin, if_neg (by omega)]
  · refine Processed.intro h found (Function.update_self _ _ _) rfl
      (fun rid ne => Function.update_of_ne ne _ _) (fun _ _ => rfl) (fun _ _ => rfl) rfl fine'
      (Or.inl ⟨unfinished, rfl⟩) rfl rfl rfl ?_
    intro _
    rw [htaken, append_nil]

variable (past : ¬ it.computedAt < req.promptLen)
include past

theorem Processed.close {w : Scheduler} {token : Int}
    (mock : role.modelBackend = .mock → t.mockRemaining it.reqId = token :: w.mockRemaining it.reqId)
    (qwen3 : role.modelBackend = .qwen3 → tokens it.reqId = [token])
    (queue : w.resultQueue = t.resultQueue) (reqs : w.reqs = t.reqs)
    (inflight : w.inflightDecode = Function.update t.inflightDecode it.reqId
      (max 0 (t.inflightDecode it.reqId - it.numTokens)))
    (others : ∀ rid, rid ≠ it.reqId → w.mockRemaining rid = t.mockRemaining rid)
    (waiting : w.waiting = t.waiting) (running : w.running = t.running) : Processed role tokens it items t
      (Scheduler.closeReq w it.reqId (Scheduler.appendTokens req [token])) := by
  have fine := h.fine it.reqId req found
  rw [pending_front] at fine
  obtain ⟨one, flying, bound, unfinished, -⟩ := fine.decode_entry past
  have fine' := fine.process_decode past token (w.mockRemaining it.reqId) mock
  have flying' : t.inflightDecode it.reqId = ((t.under ⟨items, tokens⟩).pending it.reqId).length + 1 :=
    flying
  have count := numOutputTokens_append req token
  have landed : w.inflightDecode it.reqId = ((t.under ⟨items, tokens⟩).pending it.reqId).length := by
    rw [inflight, Function.update_self]
    omega
  have elsewhere : ∀ rid, rid ≠ it.reqId → w.inflightDecode rid = t.inflightDecode rid := by
    intro rid ne
    rw [inflight, Function.update_of_ne ne]
  have computed : (Scheduler.appendTokens req [token]).numComputedTokens = req.numComputedTokens + it.numTokens := by
    rw [one]
    rfl
  have outputs : role.modelBackend = .qwen3 →
      (Scheduler.appendTokens req [token]).outputTokenIds = req.outputTokenIds ++ tokens it.reqId := by
    intro backend
    rw [qwen3 backend]
    rfl
  unfold Scheduler.closeReq
  by_cases all : req.maxNewTokens ≤ (Scheduler.appendTokens req [token]).numOutputTokens
  · have last : (t.under ⟨items, tokens⟩).pending it.reqId = [] := by
      apply eq_nil_of_length_eq_zero
      omega
    rw [decide_eq_true all, last] at fine'
    rw [if_pos (show (Scheduler.appendTokens req [token]).maxNewTokens ≤ _ from all)]
    refine Processed.intro h found (Function.update_self _ _ _) queue ?_ ?_ others waiting ?_
      (Or.inr ⟨rfl, congrArg (List.erase · it.reqId) running, last⟩) rfl rfl computed outputs
    · intro rid ne
      exact (Function.update_of_ne ne _ _).trans (congrFun reqs rid)
    · intro rid ne
      exact (Function.update_of_ne ne _ _).trans (elsewhere rid ne)
    · rw [last]
      simp only [Scheduler.finishReq, Function.update_self]
      exact fine'.of_reason
  · rw [decide_eq_false all] at fine'
    rw [if_neg (show ¬ (Scheduler.appendTokens req [token]).maxNewTokens ≤ _ from all)]
    have running_on : { Scheduler.appendTokens req [token] with finished := false } =
        Scheduler.appendTokens req [token] := by
      rw [← unfinished]
      rfl
    rw [running_on] at fine'
    refine Processed.intro h found (Function.update_self _ _ _) queue ?_ elsewhere others waiting ?_
      (Or.inl ⟨unfinished, running⟩) rfl rfl computed outputs
    · intro rid ne
      exact (Function.update_of_ne ne _ _).trans (congrFun reqs rid)
    · dsimp only
      rw [landed]
      exact fine'

theorem Processed.decode :
    ∃ t', Scheduler.processOne role tokens t it = .ok t' ∧ Processed role tokens it items t t' := by
  have fine := h.fine it.reqId req found
  rw [pending_front] at fine
  obtain ⟨-, -, bound, -, seen, hseen⟩ := fine.decode_entry past
  have step : Scheduler.processOne role tokens t it = .ok (Scheduler.processDecode role t it req (tokens it.reqId)) := by
    unfold Scheduler.processOne
    simp only [found]
    rw [if_neg past]
  refine ⟨_, step, ?_⟩
  unfold Scheduler.processDecode
  cases backend : role.modelBackend with
  | qwen3 =>
    have whole : (tokens it.reqId).take (req.maxNewTokens - req.numOutputTokens) = [seen] := by
      rw [hseen]
      exact take_of_length_le (by simp only [length_singleton]; omega)
    simp only [whole]
    exact Processed.close h found past (by simp [backend]) (fun _ => hseen) rfl rfl rfl (fun _ _ => rfl) rfl rfl
  | mock =>
    have count : req.numOutputTokens + (t.mockRemaining it.reqId).length = req.maxNewTokens :=
      fine.length_remaining backend
    obtain ⟨token, left, hrem⟩ : ∃ token left, t.mockRemaining it.reqId = token :: left := by
      cases hrem : t.mockRemaining it.reqId with
      | nil =>
        rw [hrem, length_nil] at count
        omega
      | cons token left => exact ⟨token, left, rfl⟩
    simp only [hrem, head?_cons, toList_some, tail_cons]
    refine Processed.close h found past ?_ (by simp [backend]) rfl rfl rfl ?_ rfl rfl
    · intro _
      dsimp only
      rw [hrem, Function.update_self]
    · intro rid ne
      exact Function.update_of_ne ne _ _

end

theorem processOne_spec :
    ∃ t', Scheduler.processOne role tokens t it = .ok t' ∧ Processed role tokens it items t t' := by
  cases found : t.reqs it.reqId with
  | none =>
    have empty := (h.absent it.reqId found).2
    rw [pending_front] at empty
    cases empty
  | some req =>
    by_cases before : it.computedAt < req.promptLen
    · exact Processed.prompt h found before
    · exact Processed.decode h found before

end

variable {batch : BatchResult}

theorem processBatch_spec (h : Inv role (t.under batch)) :
    ∃ t', Scheduler.processBatchResult role t batch = .ok t' ∧ t'.resultQueue = t.resultQueue ∧
      Inv role t' ∧ Kept role (t.under batch) t' := by
  obtain ⟨items, tokens⟩ := batch
  induction items generalizing t with
  | nil =>
    refine ⟨t, rfl, rfl, ⟨h.nodup, h.unfinished, h.fine, h.absent, h.started⟩, ?_⟩
    exact ⟨fun _ _ => rfl, fun _ => rfl, fun _ => rfl, rfl, List.Sublist.refl _⟩
  | cons it items ih =>
    obtain ⟨t₁, hstep, done⟩ := processOne_spec h
    obtain ⟨t', hrest, hqueue, inv, kept⟩ := ih done.inv
    refine ⟨t', ?_, hqueue.trans done.queue, inv, done.kept.trans kept⟩
    unfold Scheduler.processBatchResult at hrest ⊢
    rw [foldlM_cons, hstep]
    exact hrest

theorem popAndProcess_spec {more : List BatchResult} (queue : s.resultQueue = batch :: more) (h : Inv role s) :
    ∃ t, s.popAndProcess role = .ok t ∧ t.resultQueue = more ∧ Inv role t ∧ Kept role s t := by
  have front : ({ s with resultQueue := more } : Scheduler).under batch = s := by
    obtain ⟨_, _, _, _, _, _, _⟩ := s
    subst queue
    rfl
  obtain ⟨t, hstep, hqueue, inv, kept⟩ := processBatch_spec (front.symm ▸ h)
  rw [front] at kept
  refine ⟨t, ?_, hqueue, inv, kept⟩
  unfold Scheduler.popAndProcess
  rw [queue]
  exact hstep

theorem drainResults_spec (h : Inv role s) :
    ∃ t, s.drainResults role = .ok t ∧ t.resultQueue = [] ∧ Inv role t ∧ Kept role s t := by
  have all : ∀ batches s, s.resultQueue = batches → Inv role s →
      ∃ t, Scheduler.drainFrom role batches s = .ok t ∧ t.resultQueue = [] ∧ Inv role t ∧ Kept role s t := by
    intro batches
    induction batches with
    | nil => exact fun s queue h => ⟨s, rfl, queue, h, Kept.refl role s⟩
    | cons batch more ih =>
      intro s queue h
      obtain ⟨t₁, hstep, hqueue, inv, kept⟩ := popAndProcess_spec queue h
      obtain ⟨t, hrest, empty, inv', kept'⟩ := ih t₁ hqueue inv
      refine ⟨t, ?_, empty, inv', kept.trans kept'⟩
      unfold Scheduler.popAndProcess at hstep
      simp only [queue] at hstep
      unfold Scheduler.drainFrom
      rw [hstep]
      exact hrest
  exact all s.resultQueue s rfl h

end NodeScheduler

end LakeKv
