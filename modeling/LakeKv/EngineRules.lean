import LakeKv.TaskEngine

namespace LakeKv

open EventLoop Function TaskEngine

def DrainThen.owner : DrainThen → Option Nat
  | .dies c => some c
  | .shutdown _ => none

def FinishThen.owner : FinishThen → Option Nat
  | .succeeded c => some c
  | .failed c => some c
  | .cancelled c => some c
  | .blamed c => some c
  | .drain k => k.owner
  | _ => none

def EventLoop.owner {α : Type} : EventLoop α → Option Nat
  | .finish _ _ _ _ k => k.owner
  | .resume k => k.owner
  | .drain k => k.owner
  | _ => none

def FinishThen.stopping : FinishThen → Bool
  | .cancelled _ => true
  | .drain _ => true
  | .sweep _ _ => true
  | _ => false

/-- The event loop is in the middle of something that only a stop brings. -/
def EventLoop.stopping {α : Type} : EventLoop α → Bool
  | .finish _ _ _ _ k => k.stopping
  | .resume k => k.stopping
  | .drain _ => true
  | .sweep _ _ => true
  | _ => false

def EventLoop.draining {α : Type} : EventLoop α → Bool
  | .finish _ _ _ _ (.drain _) => true
  | .resume (.drain _) => true
  | .drain _ => true
  | _ => false

def EventLoop.sweeping {α : Type} : EventLoop α → Bool
  | .finish _ _ _ _ (.sweep _ _) => true
  | .resume (.sweep _ _) => true
  | .sweep _ _ => true
  | _ => false

theorem EventLoop.stopping_of_sweeping {α : Type} {l : EventLoop α} (h : l.sweeping = true) : l.stopping = true := by
  unfold sweeping at h
  split at h <;> first | rfl | cases h

namespace TaskEngine

variable {α : Type} {cfg : EngineConfig} {intentId : α → String} {args : Nat → α} {s t : TaskEngine α}

/-- Whose code the event loop is in the middle of, what `_finish` is called with, and what stopping means: no record
is queued any more, and none waits in the queue for good. -/
structure Ruled (cfg : EngineConfig) (s : TaskEngine α) : Prop where
  owner : ∀ c, s.consumers c = .settling ↔ s.loop.owner = some c
  in_range : ∀ c, s.loop.owner = some c → c < cfg.consumerCount
  takers : ∀ c r, s.consumers c = .executing r → c < cfg.consumerCount
  verdict : ∀ stage r status detail k, s.loop = .finish stage r status detail k → status ≠ .pending
  cancels : ∀ c, s.cancelling c = true → s.accepting = false
  stopping : s.loop.stopping = true → s.accepting = false
  drained : s.accepting = false → s.queue = [] ∨ (∃ j, s.shutdowns j = .waiting) ∨ s.loop.draining = true
  swept : s.loop.sweeping = true → s.queue = []
  alive : s.accepting = true → ∃ c < cfg.consumerCount, s.consumers c ≠ .ended

theorem Ruled.submitIntent (h : s.Ruled cfg) (i : Nat) : (s.submitIntent intentId args i).Ruled cfg := by
  obtain ⟨howner, hrange, htakers, hverdict, hcancels, hstopping, hdrained, hswept, halive⟩ := h
  unfold TaskEngine.submitIntent
  split
  case h_2 => split <;> exact ⟨howner, hrange, htakers, hverdict, hcancels, hstopping, hdrained, hswept, halive⟩
  all_goals exact ⟨howner, hrange, htakers, hverdict, hcancels, hstopping, hdrained, hswept, halive⟩

theorem Ruled.starts (h : s.Ruled cfg) (hs : s.loop.owner = none) (hcons : t.consumers = s.consumers)
    (hcancel : t.cancelling = s.cancelling) (haccept : t.accepting = s.accepting) (hshut : t.shutdowns = s.shutdowns)
    (howner : t.loop.owner = none) (hstop : t.loop.stopping = false) (hsd : s.loop.draining = false)
    (hverdict : ∀ stage r status detail k, t.loop = .finish stage r status detail k → status ≠ .pending)
    (hqueue : t.queue = s.queue ∨ s.accepting = true) : t.Ruled cfg := by
  refine ⟨fun c => ?_, by simp [howner], hcons ▸ h.takers, hverdict, fun c => ?_, fun ht => ?_, fun ht => ?_, fun ht => ?_, fun ht => ?_⟩
  · rw [hcons, h.owner, hs, howner]
  · rw [hcancel, haccept]
    exact h.cancels c
  · simp [hstop] at ht
  · rw [haccept] at ht
    have hq : t.queue = s.queue := hqueue.resolve_right (by simp [ht])
    rw [hq, hshut]
    have := h.drained ht
    simp only [hsd, Bool.false_eq_true, or_false] at this
    exact this.imp_right .inl
  · simp [stopping_of_sweeping ht] at hstop
  · rw [hcons]
    exact h.alive (haccept ▸ ht)

theorem Ruled.continues (h : s.Ruled cfg) (hcons : t.consumers = s.consumers) (hcancel : t.cancelling = s.cancelling)
    (haccept : t.accepting = s.accepting) (hshut : t.shutdowns = s.shutdowns) (hqueue : t.queue = s.queue)
    (howner : t.loop.owner = s.loop.owner) (hstop : t.loop.stopping = s.loop.stopping)
    (hdrain : t.loop.draining = s.loop.draining) (hsweep : t.loop.sweeping = s.loop.sweeping)
    (hverdict : ∀ stage r status detail k, t.loop = .finish stage r status detail k → status ≠ .pending) :
    t.Ruled cfg := by
  refine ⟨fun c => ?_, howner ▸ h.in_range, hcons ▸ h.takers, hverdict, ?_, ?_, ?_, ?_, ?_⟩
  · rw [hcons, howner]
    exact h.owner c
  · rw [hcancel, haccept]
    exact h.cancels
  · rw [hstop, haccept]
    exact h.stopping
  · rw [haccept, hqueue, hshut, hdrain]
    exact h.drained
  · rw [hsweep, hqueue]
    exact h.swept
  · rw [haccept, hcons]
    exact h.alive

variable {status : IntentStatus} {r : Nat} {a : α}

theorem failed_ne_pending {stage stage' : FinishStage} {r r' : Nat} {detail detail' : String}
    {k k' : FinishThen} (h : (EventLoop.finish stage r .failed detail k : EventLoop α) = .finish stage' r' status detail' k') :
    status ≠ .pending := by
  cases h
  simp

section

variable (h : s.Ruled cfg)
include h

theorem Ruled.putNowait (hs : s.loop.owner = none) (hsd : s.loop.draining = false)
    (haccept : s.accepting = true) (hcons : t.consumers = s.consumers) (hcancel : t.cancelling = s.cancelling)
    (ht : t.accepting = s.accepting) (hshut : t.shutdowns = s.shutdowns) : (t.putNowait cfg r).Ruled cfg := by
  unfold TaskEngine.putNowait
  split_ifs
  · exact h.starts hs hcons hcancel ht hshut rfl rfl hsd (fun _ _ _ _ _ => failed_ne_pending) (.inr haccept)
  · exact h.starts hs hcons hcancel ht hshut rfl rfl hsd (fun _ _ _ _ _ hl => by cases hl) (.inr haccept)

theorem Ruled.admitIntent {rest : List α} (hidle : s.loop = .idle) :
    ({ s with callbacks := rest }.admitIntent cfg intentId a).Ruled cfg := by
  have hs : s.loop.owner = none := by rw [hidle]; rfl
  have hsd : s.loop.draining = false := by rw [hidle]; rfl
  have skips : ({ s with callbacks := rest } : TaskEngine α).Ruled cfg :=
    h.continues rfl rfl rfl rfl rfl rfl rfl rfl rfl h.verdict
  unfold TaskEngine.admitIntent
  split
  · exact h.starts hs rfl rfl rfl rfl rfl rfl hsd (fun _ _ _ _ _ hl => by cases hl) (.inl rfl)
  next r _ =>
    split_ifs with haccept
    · exact skips
    · exact h.putNowait hs hsd haccept rfl rfl rfl rfl
    · exact skips
    · exact h.starts hs rfl rfl rfl rfl rfl rfl hsd (fun _ _ _ _ _ => failed_ne_pending) (.inl rfl)

theorem Ruled.admitMissing (hloop : s.loop = .admitMissing a) : (s.admitMissing cfg intentId a).Ruled cfg := by
  have hs : s.loop.owner = none := by rw [hloop]; rfl
  have hsd : s.loop.draining = false := by rw [hloop]; rfl
  unfold TaskEngine.admitMissing
  split
  · exact h.starts hs rfl rfl rfl rfl rfl rfl hsd (fun _ _ _ _ _ hl => by cases hl) (.inl rfl)
  split_ifs with haccept
  · exact h.putNowait hs hsd haccept rfl rfl rfl rfl
  · exact h.starts hs rfl rfl rfl rfl rfl rfl hsd (fun _ _ _ _ _ => failed_ne_pending) (.inl rfl)

theorem Ruled.finish {stage : FinishStage} {detail : String} {k : FinishThen}
    (hloop : s.loop = .finish stage r status detail k) :
    (s.finish cfg intentId stage r status detail k).Ruled cfg := by
  have hverdict : ∀ {stage'}, ∀ stage₁ r₁ status₁ detail₁ k₁,
      (EventLoop.finish stage' r status detail k : EventLoop α) = .finish stage₁ r₁ status₁ detail₁ k₁ →
        status₁ ≠ .pending := by
    rintro _ _ _ _ _ _ ⟨⟩
    exact h.verdict _ _ _ _ _ hloop
  have goes : ∀ {t : TaskEngine α} {stage' : FinishStage}, t.consumers = s.consumers → t.cancelling = s.cancelling →
      t.accepting = s.accepting → t.shutdowns = s.shutdowns → t.queue = s.queue →
      t.loop = .finish stage' r status detail k → t.Ruled cfg := by
    intro t stage' hcons hcancel haccept hshut hqueue hl
    refine h.continues hcons hcancel haccept hshut hqueue ?_ ?_ ?_ ?_ (hl ▸ hverdict) <;> rw [hl, hloop]
    · rfl
    · rfl
    · cases k <;> rfl
    · cases k <;> rfl
  have resumes : ∀ {t : TaskEngine α}, t.consumers = s.consumers → t.cancelling = s.cancelling →
      t.accepting = s.accepting → t.shutdowns = s.shutdowns → t.queue = s.queue → t.loop = .resume k → t.Ruled cfg := by
    intro t hcons hcancel haccept hshut hqueue hl
    refine h.continues hcons hcancel haccept hshut hqueue ?_ ?_ ?_ ?_ (fun _ _ _ _ _ hf => by rw [hl] at hf; cases hf) <;>
      rw [hl, hloop]
    · rfl
    · rfl
    · cases k <;> rfl
    · cases k <;> rfl
  cases stage with
  | check =>
    simp only [TaskEngine.finish]
    split_ifs
    · exact goes rfl rfl rfl rfl rfl rfl
    · exact resumes rfl rfl rfl rfl rfl rfl
  | receipt => exact goes rfl rfl rfl rfl rfl rfl
  | trim =>
    simp only [TaskEngine.finish]
    split_ifs
    · exact goes rfl rfl rfl rfl rfl hloop
    · exact goes rfl rfl rfl rfl rfl rfl
  | drop => exact resumes rfl rfl rfl rfl rfl rfl

end

variable {c : Nat}

variable (h : s.Ruled cfg)
include h

theorem Ruled.hands_back {pc : ConsumerPc} (hs : s.loop.owner = some c)
    (hcons : t.consumers = update s.consumers c pc) (hpc : pc ≠ .settling) (hexec : ∀ r, pc ≠ .executing r)
    (hcancel : t.cancelling = s.cancelling) (haccept : t.accepting = s.accepting) (hshut : t.shutdowns = s.shutdowns)
    (hqueue : t.queue = s.queue) (hloop : t.loop = .idle) (hdrain : s.loop.draining = true → s.queue = [])
    (halive : s.accepting = true → pc ≠ .ended ∨
      ∃ c' < cfg.consumerCount, c' ≠ c ∧ s.consumers c' ≠ .ended) : t.Ruled cfg := by
  refine ⟨fun c' => ?_, by simp [hloop, EventLoop.owner], fun c' r hc' => ?_, by simp [hloop], ?_, fun hst => ?_, fun ht => ?_,
    by simp [hloop, EventLoop.sweeping], fun ht => ?_⟩
  · have hc' := h.owner c'
    rw [hcons, hloop, update_apply]
    split
    next heq => simp [hpc, EventLoop.owner]
    next hne =>
      rw [hc', hs]
      simp [EventLoop.owner, Ne.symm hne]
  · rw [hcons, update_apply] at hc'
    split at hc'
    · exact absurd hc' (hexec r)
    · exact h.takers c' r hc'
  · rw [hcancel, haccept]
    exact h.cancels
  · simp [hloop, EventLoop.stopping] at hst
  · rw [hqueue, hshut, hloop]
    rcases h.drained (haccept ▸ ht) with hq | hw | hd
    · exact .inl hq
    · exact .inr (.inl hw)
    · exact .inl (hdrain hd)
  · rw [hcons]
    rcases halive (haccept ▸ ht) with hne | ⟨c', hlt, hne, halive⟩
    · exact ⟨c, h.in_range c hs, by rw [update_self]; exact hne⟩
    · exact ⟨c', hlt, by rw [update_of_ne hne]; exact halive⟩

theorem Ruled.resume {k : FinishThen} (hloop : s.loop = .resume k) : (s.resume cfg k).Ruled cfg := by
  have hsd : (∀ k', k ≠ .drain k') → s.loop.draining = true → s.queue = [] := by
    intro hk hd
    rw [hloop] at hd
    cases k <;> first | exact absurd rfl (hk _) | cases hd
  cases k with
  | callback =>
    refine h.continues rfl rfl rfl rfl rfl ?_ ?_ ?_ ?_ (fun _ _ _ _ _ hl => by cases hl) <;> rw [hloop] <;> rfl
  | succeeded c | failed c =>
    exact h.hands_back (by rw [hloop]; rfl) rfl (by simp) (by simp) rfl rfl rfl rfl rfl (hsd (by simp)) fun _ => .inl (by simp)
  | cancelled c =>
    have hstop : s.accepting = false := h.stopping (by rw [hloop]; rfl)
    exact h.hands_back (by rw [hloop]; rfl) rfl (by simp) (by simp) rfl rfl rfl rfl rfl (hsd (by simp)) fun ht => by
      simp [hstop] at ht
  | blamed c =>
    simp only [TaskEngine.resume]
    split_ifs with hlast
    · refine ⟨fun c' => ?_, fun c' hc' => h.in_range c' (by rw [hloop]; exact hc'), h.takers, by simp, fun _ _ => rfl, fun _ => rfl,
        fun _ => .inr (.inr rfl), by simp [sweeping], fun ht => by cases ht⟩
      rw [h.owner, hloop]
      rfl
    · rw [not_or] at hlast
      obtain ⟨c', hc'⟩ := not_forall.mp hlast.2
      simp only [Classical.not_imp] at hc'
      exact h.hands_back (by rw [hloop]; rfl) rfl (by simp) (by simp) rfl rfl rfl rfl rfl (hsd (by simp)) fun _ => .inr ⟨c', hc'⟩
  | drain | sweep =>
    refine h.continues rfl rfl rfl rfl rfl ?_ ?_ ?_ ?_ (fun _ _ _ _ _ hl => by cases hl) <;> rw [hloop] <;> rfl

theorem Ruled.failNeverStarted {k : DrainThen} (hloop : s.loop = .drain k) : (s.failNeverStarted k).Ruled cfg := by
  have hstop : s.accepting = false := h.stopping (by rw [hloop]; rfl)
  unfold TaskEngine.failNeverStarted
  split
  next r rest hq =>
    refine ⟨fun c => ?_, fun c hc => h.in_range c (by rw [hloop]; exact hc), h.takers, fun _ _ _ _ _ => failed_ne_pending, h.cancels,
      fun _ => hstop, fun _ => .inr (.inr rfl), by simp [sweeping], fun ht => by rw [hstop] at ht; cases ht⟩
    rw [h.owner, hloop]
    rfl
  next hq =>
    split
    next c =>
      exact h.hands_back (by rw [hloop]; rfl) rfl (by simp) (by simp) rfl rfl rfl rfl rfl (fun _ => hq) fun ht => by
        simp [hstop] at ht
    next j =>
      refine ⟨fun c => ?_, by simp [EventLoop.owner], h.takers, by simp, h.cancels, fun _ => hstop, fun _ => .inl hq, fun _ => hq,
        fun ht => ?_⟩
      · rw [h.owner, hloop]
        rfl
      · rw [hstop] at ht
        cases ht

theorem Ruled.sweep {rest : List Nat} {j : Nat} (hloop : s.loop = .sweep rest j) : (s.sweep rest j).Ruled cfg := by
  have hq : s.queue = [] := h.swept (by rw [hloop]; rfl)
  cases rest with
  | nil =>
    refine ⟨fun c => ?_, by simp [TaskEngine.sweep, setShutdown, EventLoop.owner], h.takers,
      by simp [TaskEngine.sweep, setShutdown],
      h.cancels, by simp [TaskEngine.sweep, setShutdown, EventLoop.stopping], fun _ => .inl hq, fun _ => hq, h.alive⟩
    exact (h.owner c).trans (by rw [hloop]; rfl)
  | cons r rest =>
    simp only [TaskEngine.sweep]
    split_ifs
    · refine h.continues rfl rfl rfl rfl rfl ?_ ?_ ?_ ?_ (fun _ _ _ _ _ => failed_ne_pending) <;> rw [hloop] <;> rfl
    · refine h.continues rfl rfl rfl rfl rfl ?_ ?_ ?_ ?_ (fun _ _ _ _ _ hl => by cases hl) <;> rw [hloop] <;> rfl

theorem Ruled.take (hc : c < cfg.consumerCount) : (s.take c).Ruled cfg := by
  unfold TaskEngine.take
  split
  next r rest hwait _ hq =>
    refine ⟨fun c' => ?_, h.in_range, fun c' r' hc' => ?_, h.verdict, h.cancels, h.stopping, fun ht => ?_, fun ht => ?_,
      fun _ => ⟨c, hc, ?_⟩⟩
    · have hc' := h.owner c'
      simp only [setConsumer, update_apply]
      grind
    · simp only [setConsumer, update_apply] at hc'
      split at hc'
      next heq => exact heq ▸ hc
      · exact h.takers c' r' hc'
    · refine (h.drained ht).imp_left fun hnil => ?_
      rw [hq] at hnil
      cases hnil
    · rw [h.swept ht] at hq
      cases hq
    · simp [setConsumer]
  · exact h

theorem Ruled.dismiss (c : Nat) : (s.dismiss c).Ruled cfg := by
  unfold TaskEngine.dismiss
  split
  next hwait hcancel =>
    have hstop := h.cancels c hcancel
    refine ⟨fun c' => ?_, h.in_range, fun c' r' hc' => ?_, h.verdict, h.cancels, h.stopping, h.drained, h.swept,
      fun ht => ?_⟩
    · have hc' := h.owner c'
      simp only [setConsumer, update_apply]
      grind
    · simp only [setConsumer, update_apply] at hc'
      split at hc'
      · cases hc'
      · exact h.takers c' r' hc'
    · rw [setConsumer, hstop] at ht
      cases ht
  · exact h

theorem Ruled.outcome (hidle : s.loop = .idle) (hc : c < cfg.consumerCount)
    (o : PrefetchOutcome) : (s.outcome c o).Ruled cfg := by
  have leaves : ∀ {t : TaskEngine α} {r status detail k}, t.consumers = update s.consumers c .settling →
      t.cancelling = update s.cancelling c false → t.accepting = s.accepting → t.shutdowns = s.shutdowns →
      t.queue = s.queue → t.loop = .finish .check r status detail k → status ≠ .pending → k.owner = some c →
      (k.stopping = true → s.cancelling c = true) → t.Ruled cfg := by
    intro t r status detail k hcons hcancel haccept hshut hqueue hloop hstatus hk hkstop
    refine ⟨fun c' => ?_, fun c' hc' => ?_, fun c' r' hc' => ?_, fun stage r' status' detail' k' hl => ?_, fun c' => ?_, fun ht => ?_, fun ht => ?_,
      fun ht => ?_, fun _ => ⟨c, hc, ?_⟩⟩
    · have hc' := h.owner c'
      rw [hidle] at hc'
      rw [hcons, hloop, update_apply, EventLoop.owner, hk]
      grind [EventLoop.owner]
    · rw [hloop, EventLoop.owner, hk] at hc'
      exact Option.some.inj hc' ▸ hc
    · rw [hcons, update_apply] at hc'
      split at hc'
      · cases hc'
      · exact h.takers c' r' hc'
    · rw [hloop] at hl
      cases hl
      exact hstatus
    · rw [hcancel, haccept, update_apply]
      split
      · simp
      · exact h.cancels c'
    · rw [hloop] at ht
      exact haccept ▸ h.cancels c (hkstop ht)
    · rw [hqueue, hshut]
      rcases h.drained (haccept ▸ ht) with hq | hw | hd
      · exact .inl hq
      · exact .inr (.inl hw)
      · rw [hidle] at hd
        cases hd
    · rw [hloop] at ht
      cases k <;> simp [sweeping, FinishThen.owner] at ht hk
    · simp [hcons]
  unfold TaskEngine.outcome
  split
  next r _ =>
    cases o with
    | success => exact leaves rfl rfl rfl rfl rfl rfl (by simp) rfl (by simp [FinishThen.stopping])
    | expected | programming => exact leaves rfl rfl rfl rfl rfl rfl (by simp) rfl (by simp [FinishThen.stopping])
    | cancelled =>
      simp only
      split_ifs with hcancel
      · exact leaves rfl rfl rfl rfl rfl rfl (by simp) rfl fun _ => hcancel
      · exact h
  · exact h

theorem Ruled.shutdown (hidle : s.loop = .idle) (j : Nat) : (s.shutdown cfg j).Ruled cfg := by
  unfold TaskEngine.shutdown
  split
  · exact ⟨h.owner, h.in_range, h.takers, h.verdict, fun _ _ => rfl, fun _ => rfl,
      fun _ => .inr (.inl ⟨j, update_self _ _ _⟩), h.swept, fun ht => by cases ht⟩
  · split_ifs with hended
    · have hstop : s.accepting = false := by
        by_contra haccept
        obtain ⟨c, hc, hne⟩ := h.alive (eq_true_of_ne_false haccept)
        exact hne (hended c hc)
      refine ⟨fun c => ?_, by simp [setShutdown, EventLoop.owner, DrainThen.owner], h.takers,
        by simp [setShutdown], h.cancels, fun _ => hstop,
        fun _ => .inr (.inr rfl), by simp [setShutdown, EventLoop.sweeping],
        fun ht => by rw [setShutdown, hstop] at ht; cases ht⟩
      exact (h.owner c).trans (by rw [hidle]; rfl)
    · exact h
  · exact h
  · exact h

end TaskEngine

end LakeKv
