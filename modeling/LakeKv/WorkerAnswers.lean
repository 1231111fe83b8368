import LakeKv.AssocList
import LakeKv.WorkerEngine

namespace LakeKv

open Function List Option

/-- The items the loop thread has in hand, outside the queue and the table. -/
def LoopPc.held {ρ : Type} : LoopPc ρ → List Nat
  | .register i _ => [i]
  | .answer i _ _ => [i]
  | .requeue i => [i]
  | .deliver i _ => [i]
  | .failItems _ items _ => items
  | .rejectItem i _ _ => [i]
  | _ => []

def LoopPc.entry {ρ : Type} : LoopPc ρ → Option Nat
  | .add i _ => some i
  | .unadd i _ _ => some i
  | _ => none

/-- How far the loop thread is on its way out: still in the loop; in the last `_reject_inbound`, which an
exception of the step loop may have led to; between that and the last `_fail_inflight`; after both. -/
inductive Stage
  | looping
  | rejecting (crashed : Bool)
  | failing
  | cleared
  deriving DecidableEq, Repr

def LoopPc.stage {ρ : Type} : LoopPc ρ → Stage
  | .reject _ (.final crashed) => .rejecting crashed
  | .rejectItem _ _ (.final crashed) => .rejecting crashed
  | .fail _ (.final _) => .failing
  | .failItems _ _ (.final _) => .cleared
  | .exited => .cleared
  | _ => .looping

/-- Two places of the loop thread that differ in neither the items in hand, nor the entry it works on, nor the
stage. -/
structure LoopPc.Alike {ρ : Type} (pc pc' : LoopPc ρ) : Prop where
  held : pc'.held = pc.held
  entry : pc'.entry = none ∨ pc'.entry = pc.entry
  stage : pc'.stage = pc.stage

theorem DrainedTo.alike_next {ρ : Type} {pc : LoopPc ρ} (held : pc.held = []) (stage : pc.stage = .looping)
    (k : DrainedTo) : pc.Alike k.next := by
  cases k <;> exact ⟨held.symm, .inl rfl, stage.symm⟩

def SubmitPc.inLock : SubmitPc → Bool
  | locked => true
  | running => true
  | accepted => true
  | _ => false

def StopPc.inLock : StopPc → Bool
  | locked => true
  | draining => true
  | flagged => true
  | _ => false

namespace Worker

variable {ρ : Type} {reqId : ρ → String} {req : Nat → ρ} {s t : Worker ρ}

def Put (s : Worker ρ) (i : Nat) : Prop :=
  s.submits i = .waiting ∨ s.submits i = .returned

def Between (s : Worker ρ) (i : Nat) : Prop :=
  s.submits i = .running ∨ s.submits i = .accepted

def places (s : Worker ρ) : List Nat :=
  s.inbound.reduceOption ++ (s.inflight.map Prod.snd ++ s.pc.held)

/-- What a step does with the items: nothing, or one is put, or one is answered. -/
inductive Hands (s t : Worker ρ) : Prop
  | keep (places : t.places.Perm s.places) (items : t.items = s.items) (put : ∀ i, t.Put i ↔ s.Put i)
  | put (i : Nat) (fresh : ¬s.Put i) (places : t.places.Perm (i :: s.places)) (items : t.items = s.items)
      (put : ∀ j, t.Put j ↔ s.Put j ∨ j = i)
  | answer (i : Nat) (x : Inbound ρ) (places : s.places.Perm (i :: t.places))
      (items : t.items = Function.update s.items i x) (answered : s.items i = .empty → x.Answered)
      (put : ∀ j, t.Put j ↔ s.Put j)

/-- Every item is in one place untouched until it is answered. -/
structure Custody (s : Worker ρ) : Prop where
  nodup : s.places.Nodup
  put : ∀ i ∈ s.places, s.Put i
  untouched : ∀ i, i ∈ s.places ∨ ¬s.Put i → s.items i = .empty
  answered : ∀ i, s.Put i → i ∉ s.places → (s.items i).Answered

theorem Custody.hands (hs : s.Custody) (h : Hands s t) : t.Custody := by
  cases h with
  | keep places items put =>
    refine ⟨places.nodup_iff.mpr hs.nodup, fun i hi => (put i).mpr (hs.put i (places.mem_iff.mp hi)),
      fun i hi => ?_, fun i hi hout => ?_⟩
    · rw [items]
      exact hs.untouched i (hi.imp places.mem_iff.mp (mt (put i).mpr))
    · rw [items]
      exact hs.answered i ((put i).mp hi) (mt places.mem_iff.mpr hout)
  | put i fresh places items put =>
    have hout : i ∉ s.places := mt (hs.put i) fresh
    refine ⟨places.nodup_iff.mpr (nodup_cons.mpr ⟨hout, hs.nodup⟩), fun j hj => ?_, fun j hj => ?_, fun j hj hnot => ?_⟩
    · rw [put]
      exact (mem_cons.mp (places.mem_iff.mp hj)).symm.imp_left (hs.put j)
    · rw [items]
      apply hs.untouched
      rcases hj with hj | hj
      · rcases mem_cons.mp (places.mem_iff.mp hj) with rfl | hj
        · exact .inr fresh
        · exact .inl hj
      · exact .inr fun hput => hj ((put j).mpr (.inl hput))
    · rw [items]
      have hnot' := mt places.mem_iff.mpr hnot
      rw [mem_cons, not_or] at hnot'
      exact hs.answered j (((put j).mp hj).resolve_right hnot'.1) hnot'.2
  | answer i x places items answered put =>
    obtain ⟨hout, hnodup⟩ := nodup_cons.mp (places.nodup_iff.mp hs.nodup)
    have hin : i ∈ s.places := places.mem_iff.mpr mem_cons_self
    have hrest : ∀ j, j ∈ t.places → j ∈ s.places := fun j hj =>
      places.mem_iff.mpr (mem_cons_of_mem _ hj)
    refine ⟨hnodup, fun j hj => (put j).mpr (hs.put j (hrest j hj)), fun j hj => ?_, fun j hj hnot => ?_⟩
    · have hne : j ≠ i := by
        rintro rfl
        exact hj.elim hout fun hnot => hnot ((put j).mpr (hs.put j hin))
      rw [items, update_of_ne hne]
      exact hs.untouched j (hj.imp (hrest j) (mt (put j).mpr))
    · rw [items]
      by_cases heq : j = i
      · subst heq
        rw [update_self]
        exact answered (hs.untouched j (.inl hin))
      · rw [update_of_ne heq]
        refine hs.answered j ((put j).mp hj) fun hmem => ?_
        exact (mem_cons.mp (places.mem_iff.mp hmem)).elim heq hnot

end Worker

namespace Inbound

variable {ρ : Type} {x : Inbound ρ}

variable (h : x = .empty)
include h

theorem answered_fail (e : EngineError) : (x.fail e).Answered := by
  subst h
  exact ⟨rfl, .inl ⟨rfl, rfl⟩⟩

theorem answered_succeed (req : ρ) : (x.succeed req).Answered := by
  subst h
  exact ⟨rfl, .inr ⟨rfl, rfl⟩⟩

theorem answered_failUnlessDone (e : EngineError) : (x.failUnlessDone e).Answered := by
  subst h
  exact ⟨rfl, .inl ⟨rfl, rfl⟩⟩

end Inbound

namespace Worker

variable {ρ : Type} {reqId : ρ → String} {req : Nat → ρ} {s t : Worker ρ}

inductive LoopStep (reqId : ρ → String) (req : Nat → ρ) (s : Worker ρ) : Worker ρ → Prop
  | stay : LoopStep reqId req s s
  | goto {pc : LoopPc ρ} (alike : s.pc.Alike pc) : LoopStep reqId req s { s with pc := pc }
  | leave (held : s.pc.held = []) (stage : s.pc.stage = .looping) (flag : s.stopSet = true) :
    LoopStep reqId req s { s with pc := .reject .stopped (.final false) }
  | crash (held : s.pc.held = []) :
    LoopStep reqId req s { s with stopSet := true, pc := .reject .stopped (.final true) }
  | close {e : EngineError} {crashed : Bool} {pc : LoopPc ρ} (at_reject : s.pc = .reject e (.final crashed))
      (empty : s.inbound = []) (goes : pc = .exited ∧ s.inflight = [] ∨ pc = .fail e (.final crashed)) :
    LoopStep reqId req s { s with pc := pc }
  | takeHead {x : Option Nat} {rest : List (Option Nat)} {pc : LoopPc ρ} (head : s.inbound = x :: rest)
      (free : s.pc.held = []) (held : pc.held = x.toList) (entry : pc.entry = none)
      (stage : pc.stage = s.pc.stage) : LoopStep reqId req s { s with inbound := rest, pc := pc }
  | requeue {i : Nat} (held : s.pc = .requeue i) :
    LoopStep reqId req s { s with inbound := s.inbound ++ [some i], pc := .test }
  | enter {i : Nat} {k : DrainedTo} (held : s.pc = .register i k)
      (fresh : s.inflight.lookup (reqId (req i)) = none) :
    LoopStep reqId req s { s with inflight := s.inflight ++ [(reqId (req i), i)], pc := .add i k }
  | takeEntry {i : Nat} {k : String} {pc : LoopPc ρ}
      (found : s.pc.entry = some i ∧ k = reqId (req i) ∨ s.inflight.lookup k = some i) (free : s.pc.held = [])
      (held : pc.held = [i]) (entry : pc.entry = none) (stage : pc.stage = .looping)
      (from_loop : s.pc.stage = .looping) :
    LoopStep reqId req s { s with inflight := s.inflight.filter fun p => p.1 ≠ k, pc := pc }
  | clear {e : EngineError} {p : CleanUp} (at_fail : s.pc = .fail e p) :
    LoopStep reqId req s { s with inflight := [], pc := .failItems e (s.inflight.map Prod.snd) p }
  | answer {i : Nat} {rest : List Nat} {x : Inbound ρ} {pc : LoopPc ρ} (held : s.pc.held = i :: rest)
      (left : pc.held = rest) (entry : pc.entry = none) (stage : pc.stage = s.pc.stage)
      (answered : s.items i = .empty → x.Answered) : LoopStep reqId req s { s.setItem i x with pc := pc }

/-- Everything one step of the loop thread can do. -/
theorem loop_cases (s : Worker ρ) (c : LoopChoice ρ) : LoopStep reqId req s (s.loop reqId req c) := by
  obtain ⟨inbound, inflight, lock, stopSet, started, life, pc, submits, stops, items⟩ := s
  cases pc <;> simp only [loop]
  case unlaunched | exited =>
    exact .stay
  case test =>
    split
    next hflag => exact .leave rfl rfl hflag
    · exact .goto ⟨rfl, .inl rfl, rfl⟩
  case sentinelExit =>
    split
    next hflag => exact .leave rfl rfl hflag.1
    · exact .goto ⟨rfl, .inl rfl, rfl⟩
  case hasWork | coalesce =>
    exact .goto (by split <;> exact ⟨rfl, .inl rfl, rfl⟩)
  case setStop =>
    exact .crash rfl
  case sentinel k =>
    refine .goto ?_
    split
    · exact k.alike_next rfl rfl
    · exact ⟨rfl, .inl rfl, rfl⟩
  case drain k =>
    split
    · exact .goto (k.alike_next rfl rfl)
    · exact .takeHead rfl rfl rfl rfl rfl
    · exact .takeHead rfl rfl rfl rfl rfl
  case register i k =>
    split_ifs with _ hdup
    · exact .stay
    · exact .answer rfl rfl rfl rfl (Inbound.answered_fail · _)
    · exact .enter rfl (not_isSome_iff_eq_none.mp fun h => hdup (.inl h))
  case add i k =>
    split
    · exact .goto ⟨rfl, .inl rfl, rfl⟩
    · exact .goto ⟨rfl, .inr rfl, rfl⟩
  case unadd i e k =>
    split_ifs
    · exact .stay
    · exact .takeEntry (.inl ⟨rfl, rfl⟩) rfl rfl rfl rfl rfl
  case answer i e k =>
    exact .answer rfl rfl rfl rfl (Inbound.answered_fail · e)
  case idle =>
    split
    · exact .goto ⟨rfl, .inl rfl, rfl⟩
    · exact .takeHead rfl rfl rfl rfl rfl
    · exact .takeHead rfl rfl rfl rfl rfl
  case requeue i =>
    exact .requeue rfl
  case stepping =>
    split <;> exact .goto ⟨rfl, .inl rfl, rfl⟩
  case finish r =>
    split_ifs
    · exact .stay
    · split
      · exact .goto ⟨rfl, .inl rfl, rfl⟩
      next i hi => exact .takeEntry (.inr hi) rfl rfl rfl rfl rfl
  case deliver i r =>
    exact .answer rfl rfl rfl rfl (Inbound.answered_succeed · _)
  case fail e p =>
    split_ifs
    · exact .stay
    · exact .clear rfl
  case failItems e items p =>
    cases items with
    | nil =>
      refine .goto ?_
      cases p <;> exact ⟨rfl, .inl rfl, rfl⟩
    | cons i items =>
      refine .answer rfl rfl rfl ?_ (Inbound.answered_failUnlessDone · e)
      cases p <;> rfl
  case reject e p =>
    split
    · exact .takeHead rfl rfl rfl rfl rfl
    · refine .takeHead rfl rfl rfl rfl ?_
      cases p <;> rfl
    · cases p with
      | crash => exact .goto ⟨rfl, .inl rfl, rfl⟩
      | final crashed =>
        refine .close rfl rfl ?_
        by_cases hin : inflight = []
        · exact .inl ⟨by simp [hin], hin⟩
        · exact .inr (by simp [hin])
  case rejectItem i e p =>
    refine .answer rfl rfl rfl ?_ (Inbound.answered_failUnlessDone · e)
    cases p <;> rfl

structure Tabled (reqId : ρ → String) (req : Nat → ρ) (s : Worker ρ) : Prop where
  keys : (s.inflight.map Prod.fst).Nodup
  entry : ∀ i, s.pc.entry = some i → (reqId (req i), i) ∈ s.inflight

theorem Tabled.loopStep (hs : s.Tabled reqId req) (h : LoopStep reqId req s t) : t.Tabled reqId req := by
  have noEntry : ∀ {pc : LoopPc ρ} {i : Nat}, pc.entry = none → pc.entry = some i → False :=
    fun hnone hsome => by simp [hnone] at hsome
  cases h with
  | stay => exact hs
  | goto alike =>
    refine ⟨hs.keys, fun i hi => ?_⟩
    exact alike.entry.elim (fun hnone => (noEntry hnone hi).elim) fun heq => hs.entry i (heq ▸ hi)
  | leave | crash | requeue => exact ⟨hs.keys, fun i hi => (noEntry rfl hi).elim⟩
  | close _ _ goes =>
    refine ⟨hs.keys, fun i hi => ?_⟩
    obtain ⟨rfl, -⟩ | rfl := goes <;> exact (noEntry rfl hi).elim
  | takeHead _ _ _ entry _ => exact ⟨hs.keys, fun i hi => (noEntry entry hi).elim⟩
  | @enter i k _ fresh =>
    refine ⟨?_, fun j hj => ?_⟩
    · rw [map_append]
      refine (perm_append_singleton _ _).nodup_iff.mpr ?_
      exact nodup_cons.mpr ⟨AssocList.lookup_eq_none_iff.mp fresh, hs.keys⟩
    · cases hj
      exact mem_append_right _ mem_cons_self
  | takeEntry _ _ _ entry =>
    exact ⟨hs.keys.sublist (filter_sublist.map Prod.fst), fun i hi => (noEntry entry hi).elim⟩
  | clear => exact ⟨nodup_nil, fun i hi => (noEntry rfl hi).elim⟩
  | answer _ _ entry => exact ⟨hs.keys, fun i hi => (noEntry entry hi).elim⟩

theorem LoopStep.hands (hs : s.Tabled reqId req) (h : LoopStep reqId req s t) : Hands s t := by
  have moved : ∀ {t : Worker ρ}, t.places.Perm s.places → t.items = s.items → t.submits = s.submits → Hands s t :=
    fun hplaces hitems hsub => .keep hplaces hitems fun i => by rw [Put, Put, hsub]
  cases h with
  | stay => exact moved .rfl rfl rfl
  | goto alike => exact moved (.of_eq (by rw [places, places, alike.held])) rfl rfl
  | leave held | crash held => exact moved (.of_eq (by rw [places, places, held]; rfl)) rfl rfl
  | close at_reject _ goes =>
    refine moved (.of_eq ?_) rfl rfl
    rw [places, places, at_reject]
    obtain ⟨rfl, -⟩ | rfl := goes <;> rfl
  | @takeHead x rest pc head free held =>
    refine moved ?_ rfl rfl
    rw [places, places, free, held, head, append_nil, ← append_assoc]
    refine perm_append_comm.trans ?_
    cases x <;> exact .rfl
  | requeue held =>
    refine moved ?_ rfl rfl
    rw [places, places, held, reduceOption_append, append_assoc]
    exact List.Perm.append_left _ (perm_append_comm.trans (.of_eq (by simp [LoopPc.held])))
  | enter held => exact moved (.of_eq (by simp [places, held, LoopPc.held])) rfl rfl
  | @takeEntry i k pc found free held =>
    have hmem : (k, i) ∈ s.inflight := by
      rcases found with ⟨hentry, rfl⟩ | hlook
      · exact hs.entry i hentry
      · exact AssocList.mem_of_lookup hlook
    refine moved ?_ rfl rfl
    rw [places, places, free, held, append_nil]
    have hperm := (AssocList.perm_cons_filter hs.keys hmem).map Prod.snd
    exact ((perm_append_singleton _ _).trans hperm.symm).append_left _
  | clear at_fail => exact moved (.of_eq (by simp [places, at_fail, LoopPc.held])) rfl rfl
  | @answer i rest x pc held left _ _ answered =>
    refine .answer i x ?_ rfl answered fun _ => Iff.rfl
    have hplaces : ({ s.setItem i x with pc := pc } : Worker ρ).places =
        s.inbound.reduceOption ++ (s.inflight.map Prod.snd ++ rest) := by
      rw [← left]
      rfl
    rw [hplaces, places, held, ← append_assoc, ← append_assoc]
    exact perm_middle

theorem LoopStep.calls (h : LoopStep reqId req s t) : t.submits = s.submits ∧ t.stops = s.stops ∧ t.lock = s.lock := by
  cases h <;> exact ⟨rfl, rfl, rfl⟩

inductive SubmitStep (s : Worker ρ) (i : Nat) : Worker ρ → Prop
  | stay : SubmitStep s i s
  | acquire (was : s.submits i = .fresh) (free : s.lock = none) :
    SubmitStep s i ({ s with lock := some (.submit i) }.setSubmit i .locked)
  | refuse (was : (s.submits i).inLock = true) : SubmitStep s i ({ s with lock := none }.setSubmit i .raised)
  | pass (was : s.submits i = .locked) (flag : s.stopSet = false) : SubmitStep s i (s.setSubmit i .running)
  | accept (was : s.submits i = .running) : SubmitStep s i (s.setSubmit i .accepted)
  | put (was : s.submits i = .accepted) :
    SubmitStep s i ({ s with inbound := s.inbound ++ [some i], lock := none }.setSubmit i .waiting)
  | wake (was : s.submits i = .waiting) : SubmitStep s i (s.setSubmit i .returned)

variable (s)

theorem submit_cases (i : Nat) : SubmitStep s i (s.submit i) := by
  cases hpc : s.submits i with simp only [submit, hpc]
  | fresh =>
    split_ifs with hlock
    · exact .stay
    · exact .acquire hpc (not_isSome_iff_eq_none.mp hlock)
  | locked =>
    split_ifs with hflag
    · exact .refuse (by rw [hpc]; rfl)
    · exact .pass hpc (eq_false_of_ne_true fun h => hflag (.inl h))
  | running =>
    split_ifs
    · exact .accept hpc
    · exact .refuse (by rw [hpc]; rfl)
  | accepted =>
    exact .put hpc
  | waiting =>
    split_ifs
    · exact .wake hpc
    · exact .stay
  | raised | returned =>
    exact .stay

inductive StopStep (s : Worker ρ) (j : Nat) : Worker ρ → Prop
  | stay : StopStep s j s
  | acquire (was : s.stops j = .fresh) (free : s.lock = none) :
    StopStep s j ({ s with lock := some (.stop j) }.setStops j .locked)
  | release {life : WorkerState} {pc : StopPc} (was : (s.stops j).inLock = true) (out : pc.inLock = false) :
    StopStep s j ({ s with life := life, lock := none }.setStops j pc)
  | drain (was : s.stops j = .locked) : StopStep s j ({ s with life := .drain }.setStops j .draining)
  | flag (was : s.stops j = .draining) : StopStep s j ({ s with stopSet := true }.setStops j .flagged)
  | sentinel (was : s.stops j = .flagged) :
    StopStep s j ({ s with inbound := s.inbound ++ [none], lock := none }.setStops j .joining)
  | finish {life : WorkerState} (was : s.stops j = .joining) :
    StopStep s j ({ s with life := life }.setStops j .finished)

theorem stop_cases (j : Nat) (joined : Bool) : StopStep s j (s.stop j joined) := by
  cases hpc : s.stops j with simp only [stop, hpc]
  | fresh =>
    split_ifs with hlock
    · exact .stay
    · exact .acquire hpc (not_isSome_iff_eq_none.mp hlock)
  | locked =>
    have was : (s.stops j).inLock = true := by rw [hpc]; rfl
    split_ifs
    · exact .release was rfl
    · exact .release was rfl
    · exact .release was rfl
    · exact .drain hpc
  | draining =>
    exact .flag hpc
  | flagged =>
    exact .sentinel hpc
  | joining =>
    split
    · exact .finish hpc
    · exact .stay
    · exact .finish hpc
  | finished =>
    exact .stay

def Owns (s : Worker ρ) : Holder → Prop
  | .submit i => (s.submits i).inLock = true
  | .stop j => (s.stops j).inLock = true

def Locked (s : Worker ρ) : Prop :=
  ∀ h, s.Owns h → s.lock = some h

/-- What the stage of the loop thread says about the queue, the table and the calls. -/
structure Closing (s : Worker ρ) : Prop where
  flag : s.pc.stage ≠ .looping → s.stopSet = true
  kept_out : s.stopSet = true → s.pc.stage = .rejecting true ∨ ∀ i, ¬s.Between i
  emptied : s.pc.stage = .failing ∨ s.pc.stage = .cleared → s.inbound.reduceOption = [] ∧ ∀ i, ¬s.Between i
  cleared : s.pc.stage = .cleared → s.inflight = []

/-- When the loop thread finds the queue empty for the last time after an exception of the step loop, no call
stands between its test of the stop flag and its put. -/
def Clear (s : Worker ρ) (m : WorkerMove ρ) : Prop :=
  ∀ c e, m = .loop c → s.pc = .reject e (.final true) → s.inbound = [] → ∀ i, ¬s.Between i

theorem setSubmit_submits (i : Nat) (pc : SubmitPc) (i' : Nat) :
    (s.setSubmit i pc).submits i' = if i' = i then pc else s.submits i' :=
  update_apply _ _ _ _

theorem setStops_stops (j : Nat) (pc : StopPc) (j' : Nat) :
    (s.setStops j pc).stops j' = if j' = j then pc else s.stops j' :=
  update_apply _ _ _ _

variable {s}

variable {i : Nat}

theorem SubmitStep.hands (h : SubmitStep s i t) : Hands s t := by
  have unput : ∀ {u : Worker ρ} {pc : SubmitPc}, u.submits = s.submits → ¬s.Put i → pc ≠ .waiting →
      pc ≠ .returned → ∀ i', (u.setSubmit i pc).Put i' ↔ s.Put i' := by
    intro u pc hu hnot hw hr i'
    rw [Put, setSubmit_submits, hu]
    split
    next heq =>
      subst heq
      simp [hw, hr, hnot]
    · rfl
  cases h with
  | stay => exact .keep .rfl rfl fun _ => Iff.rfl
  | acquire was =>
    exact .keep .rfl rfl (unput rfl (by simp [Put, was]) (by simp) (by simp))
  | refuse was =>
    have hnot : ¬s.Put i := by
      rintro (hput | hput) <;> rw [hput] at was <;> cases was
    exact .keep .rfl rfl (unput rfl hnot (by simp) (by simp))
  | pass was | accept was =>
    exact .keep .rfl rfl (unput rfl (by simp [Put, was]) (by simp) (by simp))
  | put was =>
    refine .put i (by simp [Put, was]) ?_ rfl fun i' => ?_
    · have hplaces : ({ s with inbound := s.inbound ++ [some i], lock := none }.setSubmit i .waiting).places =
          s.inbound.reduceOption ++ i :: (s.inflight.map Prod.snd ++ s.pc.held) := by
        simp [places, setSubmit, reduceOption_append]
      rw [hplaces]
      exact perm_middle
    · rw [Put, setSubmit_submits]
      split
      next heq => simp [heq]
      next hne => simp [Put, hne]
  | wake was =>
    refine .keep .rfl rfl fun i' => ?_
    rw [Put, setSubmit_submits]
    split
    next heq =>
      subst heq
      simp [Put, was]
    · rfl

variable {j : Nat}

theorem StopStep.hands (h : StopStep s j t) : Hands s t := by
  cases h with
  | sentinel => exact .keep (.of_eq (by simp [places, setStops, reduceOption_append])) rfl fun _ => Iff.rfl
  | _ => exact .keep .rfl rfl fun _ => Iff.rfl

theorem Locked.keep (hs : s.Locked) (lock : t.lock = s.lock) (owns : ∀ h, t.Owns h → s.Owns h) : t.Locked :=
  fun h hh => lock ▸ hs h (owns h hh)

theorem Locked.acquire {h₀ : Holder} (hs : s.Locked) (free : s.lock = none) (lock : t.lock = some h₀)
    (owns : ∀ h, h ≠ h₀ → t.Owns h → s.Owns h) : t.Locked := by
  intro h hh
  by_cases heq : h = h₀
  · rw [lock, heq]
  · have := hs h (owns h heq hh)
    simp [free] at this

theorem Locked.release (hs : s.Locked) (h₀ : Holder) (had : s.Owns h₀) (out : ¬t.Owns h₀)
    (owns : ∀ h, h ≠ h₀ → t.Owns h → s.Owns h) : t.Locked := by
  intro h hh
  have hne : h ≠ h₀ := fun heq => out (heq ▸ hh)
  have hsame := (hs h (owns h hne hh)).symm.trans (hs h₀ had)
  exact absurd (some.inj hsame) hne

variable {pc : SubmitPc} {m : WorkerMove ρ} {h : Holder}

theorem owns_setSubmit (hne : h ≠ .submit i) (hh : (s.setSubmit i pc).Owns h) : s.Owns h := by
  cases h with
  | submit i' =>
    have hi : i' ≠ i := fun heq => hne (heq ▸ rfl)
    simpa [Owns, setSubmit_submits, hi] using hh
  | stop j => exact hh

theorem owns_setSubmit_self : (s.setSubmit i pc).Owns (.submit i) ↔ pc.inLock = true := by
  simp [Owns, setSubmit_submits]

theorem owns_setStops {pc : StopPc} (hne : h ≠ .stop j) (hh : (s.setStops j pc).Owns h) : s.Owns h := by
  cases h with
  | submit i => exact hh
  | stop j' =>
    have hj : j' ≠ j := fun heq => hne (heq ▸ rfl)
    simpa [Owns, setStops_stops, hj] using hh

theorem owns_setStops_self {pc : StopPc} : (s.setStops j pc).Owns (.stop j) ↔ pc.inLock = true := by
  simp [Owns, setStops_stops]

theorem Locked.submitStep (hs : s.Locked) (h : SubmitStep s i t) : t.Locked := by
  have inside : ∀ {pc : SubmitPc}, (s.submits i).inLock = true → (s.setSubmit i pc).Locked := by
    intro pc was
    refine hs.keep rfl fun h hh => ?_
    by_cases heq : h = .submit i
    · exact heq ▸ was
    · exact owns_setSubmit heq hh
  cases h with
  | stay => exact hs
  | acquire _ free => exact hs.acquire free rfl fun h hne hh => owns_setSubmit hne hh
  | refuse was =>
    exact hs.release (.submit i) was (fun hown => by cases owns_setSubmit_self.mp hown) fun h hne hh => owns_setSubmit hne hh
  | pass was | accept was => exact inside (by rw [was]; rfl)
  | put was =>
    have hown : s.Owns (.submit i) := by
      rw [Owns, was]
      rfl
    exact hs.release _ hown (fun hown => by cases owns_setSubmit_self.mp hown) fun h hne hh => owns_setSubmit hne hh
  | wake =>
    refine hs.keep rfl fun h hh => ?_
    by_cases heq : h = .submit i
    · subst heq
      cases owns_setSubmit_self.mp hh
    · exact owns_setSubmit heq hh

theorem Locked.stopStep (hs : s.Locked) (h : StopStep s j t) : t.Locked := by
  cases h with
  | stay => exact hs
  | acquire _ free => exact hs.acquire free rfl fun h hne hh => owns_setStops hne hh
  | release was out =>
    refine hs.release (.stop j) was (fun hown => ?_) fun h hne hh => owns_setStops hne hh
    rw [owns_setStops_self, out] at hown
    cases hown
  | drain was | flag was =>
    refine hs.keep rfl fun h hh => ?_
    by_cases heq : h = .stop j
    · subst heq
      rw [Owns, was]
      rfl
    · exact owns_setStops heq hh
  | sentinel was =>
    have hown : s.Owns (.stop j) := by
      rw [Owns, was]
      rfl
    exact hs.release _ hown (fun hown => by cases owns_setStops_self.mp hown) fun h hne hh => owns_setStops hne hh
  | finish =>
    refine hs.keep rfl fun h hh => ?_
    by_cases heq : h = .stop j
    · subst heq
      cases owns_setStops_self.mp hh
    · exact owns_setStops heq hh

theorem Between.owns (h : s.Between i) : s.Owns (.submit i) := by
  rcases h with h | h <;> rw [Owns, h] <;> rfl

theorem Closing.of_running (flag : s.stopSet = false) (stage : s.pc.stage = .looping) : s.Closing := by
  refine ⟨fun hne => absurd stage hne, fun hflag => ?_, fun hst => ?_, fun hst => ?_⟩
  · simp [flag] at hflag
  · simp [stage] at hst
  · simp [stage] at hst

theorem Closing.calls (hs : s.Closing) (pc : t.pc = s.pc) (inflight : t.inflight = s.inflight)
    (flag : t.stopSet = s.stopSet) (between : ∀ i, t.Between i → s.Between i)
    (inbound : t.inbound.reduceOption = s.inbound.reduceOption ∨ ∃ i, s.Between i) : t.Closing := by
  refine ⟨?_, ?_, ?_, ?_⟩
  · rw [pc, flag]
    exact hs.flag
  · rw [pc, flag]
    exact fun hflag => (hs.kept_out hflag).imp_right fun hout i hi => hout i (between i hi)
  · rw [pc]
    intro hst
    obtain ⟨hempty, hout⟩ := hs.emptied hst
    rcases inbound with hin | ⟨i, hi⟩
    · exact ⟨hin ▸ hempty, fun i hi => hout i (between i hi)⟩
    · exact absurd hi (hout i)
  · rw [pc, inflight]
    exact hs.cleared

theorem between_setSubmit {i i' : Nat} (hpc : pc = .running ∨ pc = .accepted → s.Between i)
    (h : (s.setSubmit i pc).Between i') : s.Between i' := by
  rw [Between, setSubmit_submits] at h
  split at h
  next heq => exact heq ▸ hpc h
  · exact h

section

variable (hs : s.Closing)
include hs

theorem Closing.submitStep (h : SubmitStep s i t) : t.Closing := by
  cases h with
  | stay => exact hs
  | acquire | refuse => exact hs.calls rfl rfl rfl (fun i' h => between_setSubmit (s := s) (by simp) h) (.inl rfl)
  | pass _ flag =>
    refine .of_running flag ?_
    by_contra hst
    simp [hs.flag hst] at flag
  | accept was =>
    exact hs.calls rfl rfl rfl (fun i' h => between_setSubmit (fun _ => .inl was) h) (.inl rfl)
  | put was =>
    exact hs.calls rfl rfl rfl (fun i' h => between_setSubmit (s := s) (by simp) h) (.inr ⟨i, .inr was⟩)
  | wake => exact hs.calls rfl rfl rfl (fun i' h => between_setSubmit (by simp) h) (.inl rfl)

theorem Closing.stopStep (hlock : s.Locked) (h : StopStep s j t) : t.Closing := by
  cases h with
  | flag was =>
    have hown : s.Owns (.stop j) := by
      rw [Owns, was]
      rfl
    -- The `stop` call has the lock, so no `submit` call is inside its section.
    have hout : ∀ i, ¬s.Between i := fun i hi => by
      cases (hlock _ hown).symm.trans (hlock _ hi.owns)
    exact ⟨fun _ => rfl, fun _ => .inr hout, hs.emptied, hs.cleared⟩
  | sentinel => exact hs.calls rfl rfl rfl (fun _ h => h) (.inl (by simp [setStops, reduceOption_append]))
  | _ => exact hs.calls rfl rfl rfl (fun _ h => h) (.inl rfl)

theorem Closing.same_stage (stage : t.pc.stage = s.pc.stage) (flag : t.stopSet = s.stopSet)
    (submits : t.submits = s.submits)
    (inbound : s.pc.stage ≠ .looping → s.inbound.reduceOption = [] → t.inbound.reduceOption = [])
    (inflight : s.pc.stage ≠ .looping → s.inflight = [] → t.inflight = []) : t.Closing := by
  have between : ∀ i, ¬s.Between i → ¬t.Between i := fun i => by
    rw [Between, Between, submits]
    exact id
  refine ⟨?_, ?_, ?_, ?_⟩ <;> rw [stage]
  · rw [flag]
    exact hs.flag
  · rw [flag]
    exact fun hflag => (hs.kept_out hflag).imp_right fun hout i => between i (hout i)
  · intro hst
    obtain ⟨hempty, hout⟩ := hs.emptied hst
    have hne : s.pc.stage ≠ .looping := by rcases hst with hst | hst <;> simp [hst]
    exact ⟨inbound hne hempty, fun i => between i (hout i)⟩
  · exact fun hst => inflight (by simp [hst]) (hs.cleared hst)

theorem Closing.loopStep (h : LoopStep reqId req s t)
    (hclear : ∀ e, s.pc = .reject e (.final true) → s.inbound = [] → ∀ i, ¬s.Between i) : t.Closing := by
  cases h with
  | stay => exact hs
  | goto alike => exact hs.same_stage alike.stage rfl rfl (fun _ => id) fun _ => id
  | leave _ stage flag =>
    have hout : ∀ i, ¬s.Between i := (hs.kept_out flag).resolve_left (by simp [stage])
    exact ⟨fun _ => flag, fun _ => .inr hout, fun hst => by simp [LoopPc.stage] at hst,
      fun hst => by simp [LoopPc.stage] at hst⟩
  | crash =>
    exact ⟨fun _ => rfl, fun _ => .inl rfl, fun hst => by simp [LoopPc.stage] at hst,
      fun hst => by simp [LoopPc.stage] at hst⟩
  | @close e crashed pc at_reject empty goes =>
    have hflag : s.stopSet = true := hs.flag (by simp [at_reject, LoopPc.stage])
    have hout : ∀ i, ¬s.Between i := by
      cases crashed with
      | true => exact hclear e at_reject empty
      | false => exact (hs.kept_out hflag).resolve_left (by simp [at_reject, LoopPc.stage])
    refine ⟨fun _ => hflag, fun _ => .inr hout, fun _ => ⟨by simp [empty], hout⟩, fun hst => ?_⟩
    obtain ⟨-, hin⟩ | rfl := goes
    · exact hin
    · simp [LoopPc.stage] at hst
  | @takeHead x rest pc head _ _ _ stage =>
    refine hs.same_stage stage rfl rfl (fun _ hnil => ?_) fun _ => id
    rw [head] at hnil
    cases x with
    | none => exact hnil
    | some i => simp at hnil
  | requeue was | enter was =>
    have hst : s.pc.stage = .looping := by rw [was]; rfl
    exact hs.same_stage hst.symm rfl rfl (fun hne => absurd hst hne) fun hne => absurd hst hne
  | takeEntry _ _ _ _ stage from_loop =>
    exact hs.same_stage (stage.trans from_loop.symm) rfl rfl (fun _ => id) fun hne => absurd from_loop hne
  | @clear e p at_fail =>
    cases p with
    | crash =>
      have hst : s.pc.stage = .looping := by rw [at_fail]; rfl
      exact hs.same_stage hst.symm rfl rfl (fun _ => id) fun _ _ => rfl
    | final crashed =>
      have hst : s.pc.stage = .failing := by rw [at_fail]; rfl
      exact ⟨fun _ => hs.flag (by simp [hst]), fun _ => .inr (hs.emptied (.inl hst)).2,
        fun _ => hs.emptied (.inl hst), fun _ => rfl⟩
  | answer _ _ _ stage => exact hs.same_stage stage rfl rfl (fun _ => id) fun _ => id

end

def Initial (s : Worker ρ) : Prop :=
  s = new

theorem initial_new : Initial (new : Worker ρ) := rfl

structure Sound (reqId : ρ → String) (req : Nat → ρ) (s : Worker ρ) : Prop where
  tabled : s.Tabled reqId req
  custody : s.Custody
  locked : s.Locked
  closing : s.Closing

theorem Sound.new : (new : Worker ρ).Sound reqId req where
  tabled := ⟨nodup_nil, fun i hi => by cases hi⟩
  custody := ⟨nodup_nil, fun i hi => by simp [places, Worker.new, LoopPc.held] at hi, fun _ _ => rfl,
    fun i hi => by rcases hi with hi | hi <;> cases hi⟩
  locked := fun h hh => by cases h <;> cases hh
  closing := .of_running rfl rfl

section

variable (hs : s.Sound reqId req)
include hs

theorem Sound.start (loads : Bool) : (s.start loads).Sound reqId req := by
  unfold Worker.start
  split_ifs
  all_goals exact ⟨⟨hs.tabled.keys, hs.tabled.entry⟩, hs.custody.hands (.keep .rfl rfl fun _ => Iff.rfl),
    hs.locked.keep rfl fun _ => id, hs.closing.calls rfl rfl rfl (fun _ => id) (.inl rfl)⟩

theorem Sound.loopStep (h : LoopStep reqId req s t)
    (hclear : ∀ e, s.pc = .reject e (.final true) → s.inbound = [] → ∀ i, ¬s.Between i) : t.Sound reqId req := by
  obtain ⟨hsub, hstop, hlock⟩ := h.calls
  refine ⟨hs.tabled.loopStep h, hs.custody.hands (h.hands hs.tabled), hs.locked.keep hlock fun h hh => ?_,
    hs.closing.loopStep h hclear⟩
  cases h with
  | submit i =>
    rw [Owns, ← hsub]
    exact hh
  | stop j =>
    rw [Owns, ← hstop]
    exact hh

theorem Sound.launch : s.launch.Sound reqId req := by
  unfold Worker.launch
  split
  next hpc _ =>
    exact hs.loopStep (.goto (by rw [hpc]; exact ⟨rfl, .inl rfl, rfl⟩)) fun e h => by cases hpc.symm.trans h
  · exact hs

end

/-- What the calls leave to the loop thread. -/
structure LoopAlone (s t : Worker ρ) : Prop where
  inflight : t.inflight = s.inflight
  pc : t.pc = s.pc
  items : t.items = s.items

theorem SubmitStep.loop_alone (h : SubmitStep s i t) : LoopAlone s t := by
  cases h <;> exact ⟨rfl, rfl, rfl⟩

theorem StopStep.loop_alone (h : StopStep s j t) : LoopAlone s t := by
  cases h <;> exact ⟨rfl, rfl, rfl⟩

theorem Tabled.calls (hs : s.Tabled reqId req) (h : LoopAlone s t) : t.Tabled reqId req := by
  obtain ⟨hin, hpc, -⟩ := h
  exact ⟨hin ▸ hs.keys, fun i hi => hin ▸ hs.entry i (hpc ▸ hi)⟩

theorem Sound.step (hs : s.Sound reqId req) (hclear : s.Clear m) : (s.step reqId req m).Sound reqId req := by
  cases m with
  | start loads => exact hs.start loads
  | launch => exact hs.launch
  | submit i =>
    have h := submit_cases s i
    exact ⟨hs.tabled.calls h.loop_alone, hs.custody.hands h.hands, hs.locked.submitStep h, hs.closing.submitStep h⟩
  | stop j joined =>
    have h := stop_cases s j joined
    exact ⟨hs.tabled.calls h.loop_alone, hs.custody.hands h.hands, hs.locked.stopStep h, hs.closing.stopStep hs.locked h⟩
  | loop c => exact hs.loopStep (loop_cases s c) fun e => hclear c e rfl

theorem Sound.reach (h : Reach (Worker.step reqId req) Initial Clear s) : s.Sound reqId req :=
  h.invariant (fun _ hs => hs ▸ Sound.new) fun _ _ hs hclear => hs.step hclear

/-- Once the loop thread has ended, every item that was put is answered with one result or one error. -/
theorem submits_answered (reqId : ρ → String) (req : Nat → ρ) {s : Worker ρ}
    (h : Reach (step reqId req) Initial Clear s) (hexit : s.pc = .exited) (i : Nat) (hput : s.Put i) :
    (s.items i).Answered := by
  have hs : s.Sound reqId req := .reach h
  have hst : s.pc.stage = .cleared := by
    rw [hexit]
    rfl
  refine hs.custody.answered i hput ?_
  rw [places, (hs.closing.emptied (.inr hst)).1, hs.closing.cleared hst, hexit]
  exact not_mem_nil

def scheduling (event : SchedEvent String) : WorkerMove String :=
  .loop ⟨false, true, none, false, event, none⟩

def looping (n : Nat) : List (WorkerMove String) :=
  List.replicate n (scheduling .returned)

def submitting (i n : Nat) : List (WorkerMove String) :=
  List.replicate n (.submit i)

def sampleReq : Nat → String
  | 0 => "first"
  | _ => "second"

def sampleServing : List (WorkerMove String) :=
  [.start true, .launch] ++ submitting 0 4 ++ looping 7

def sampleStopped : List (WorkerMove String) :=
  sampleServing ++ [scheduling (.finished "first")] ++ looping 2 ++ submitting 1 4 ++ List.replicate 4 (.stop 0 true) ++
    looping 6

theorem clear_of_stage (h : s.pc.stage ≠ .rejecting true) : s.Clear m := by
  intro _ e _ hpc
  exact absurd (by rw [hpc]; rfl) h

theorem submits_answered_stopped : ∃ s : Worker String, Reach (step id sampleReq) Initial Clear s ∧
    s.pc = .exited ∧ (s.Put 0 ∧ (s.items 0).Answered) ∧ s.Put 1 ∧ (s.items 1).Answered := by
  have hcalm : Reach.Allowed (step id sampleReq) (fun s _ => s.pc.stage ≠ .rejecting true) new sampleStopped := by
    decide
  have hrun : Reach (step id sampleReq) Initial (fun s _ => s.pc.stage ≠ .rejecting true)
      (sampleStopped.foldl (step id sampleReq) new) := Reach.foldl (.start initial_new) hcalm
  have hreach := hrun.mono fun s m h => (clear_of_stage h : s.Clear m)
  have hexit : (sampleStopped.foldl (step id sampleReq) new).pc = .exited := by decide
  have hput : ∀ i < 2, (sampleStopped.foldl (step id sampleReq) new).Put i := fun i hi =>
    .inl ((by decide : ∀ i < 2, (sampleStopped.foldl (step id sampleReq) new).submits i = .waiting) i hi)
  exact ⟨_, hreach, hexit, ⟨hput 0 (by decide), submits_answered id sampleReq hreach hexit 0 (hput 0 (by decide))⟩,
    hput 1 (by decide), submits_answered id sampleReq hreach hexit 1 (hput 1 (by decide))⟩

theorem step_exited (reqId : ρ → String) (req : Nat → ρ) (h : s.pc = .exited) (m : WorkerMove ρ) :
    (s.step reqId req m).pc = .exited ∧ (s.step reqId req m).items = s.items := by
  cases m with
  | start loads =>
    simp only [step, start]
    split_ifs <;> exact ⟨h, rfl⟩
  | launch => simp [step, launch, h]
  | submit i =>
    have halone := (submit_cases s i).loop_alone
    exact ⟨halone.pc.trans h, halone.items⟩
  | stop j joined =>
    have halone := (stop_cases s j joined).loop_alone
    exact ⟨halone.pc.trans h, halone.items⟩
  | loop c => simp [step, loop, h]

theorem foldl_exited (h : s.pc = .exited) (moves : List (WorkerMove ρ)) :
    (moves.foldl (step reqId req) s).items = s.items := by
  induction moves generalizing s with
  | nil => rfl
  | cons m moves ih =>
    obtain ⟨hpc, hitems⟩ := step_exited reqId req h m
    exact (ih hpc).trans hitems

/-- The scheduler raises. A second call tests the flag before it is set, and puts its item after the queue was
found empty. -/
def sampleCrashed : List (WorkerMove String) :=
  sampleServing ++ [scheduling (.raised "step failed")] ++ looping 4 ++ submitting 1 3 ++ looping 2 ++ submitting 1 1

theorem submit_unanswered : ∃ s : Worker String, Reach (step id sampleReq) Initial (fun _ _ => True) s ∧
    s.pc = .exited ∧ (∀ i, ¬s.Owns (.submit i)) ∧ s.submits 1 = .waiting ∧
      ∀ moves : List (WorkerMove String), ((moves.foldl (step id sampleReq) s).items 1).done = false := by
  have hexit : (sampleCrashed.foldl (step id sampleReq) new).pc = .exited := by decide
  refine ⟨sampleCrashed.foldl (step id sampleReq) new, Reach.foldl (.start initial_new) (Reach.allowed_true _ _), hexit,
    fun i => ?_, by decide, fun moves => ?_⟩
  · match i with
    | 0 | 1 | i + 2 => exact Bool.false_ne_true
  · rw [foldl_exited hexit]
    decide

end Worker

end LakeKv
