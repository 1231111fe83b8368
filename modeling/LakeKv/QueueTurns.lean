import LakeKv.PriorityQueue
import Mathlib.Logic.Relation
import Mathlib.Tactic.Common

namespace LakeKv

open Function List PqRequest

/-- What `finishOne` is at with a request that it has received. -/
inductive Handling
  | examining
  | settling
  | delivering
  deriving DecidableEq, Repr

def RunPhase.handling (phase : RunPhase) (id : Nat) : Option Handling :=
  match phase with
  | .examining i => if i = id then some .examining else none
  | .settling i => if i = id then some .settling else none
  | .delivering i => if i = id then some .delivering else none
  | _ => none

/-- What the scheduler has of one request: how often it is in the queue and in flight, the goroutines of its `exec`
that run and that have ended, what `finishOne` does with it, and the request itself. -/
@[ext]
structure RequestView where
  waits : Nat
  flies : Nat
  runs : Nat
  ended : Nat
  handling : Option Handling
  request : PqRequest
  known : Bool

def PqScheduler.view (st : PqScheduler) (id : Nat) : RequestView where
  waits := st.queue.count id
  flies := st.inFlight.count id
  runs := st.running.count id
  ended := st.finished.count id
  handling := st.phase.handling id
  request := st.requests id
  known := id < st.submitted

namespace PqRequest

variable {r r' : PqRequest}

/-- What happens to a request between the steps of its own life: its context may be cancelled, and `Submit` may go on
to wait or to return the result. -/
structure Evolves (r r' : PqRequest) : Prop where
  priority : r'.priority = r.priority
  seq : r'.seq = r.seq
  err : r'.err = r.err
  done : r'.done = r.done
  dropped : r'.dropped = r.dropped
  abandoned : r'.abandoned = r.abandoned
  runs : r'.runs = r.runs
  started : r'.execCtx.isSome = r.execCtx.isSome
  cause : r.cause.isSome = true → r'.cause = r.cause
  gone : r'.submitter = .cancelled ↔ r.submitter = .cancelled

namespace Evolves

theorem refl (r : PqRequest) : Evolves r r :=
  ⟨rfl, rfl, rfl, rfl, rfl, rfl, rfl, rfl, fun _ => rfl, Iff.rfl⟩

theorem wasPreempted (evolves : Evolves r r') (ended : r.cause.isSome = true) : r'.wasPreempted = r.wasPreempted := by
  unfold PqRequest.wasPreempted
  rw [evolves.err, evolves.cause ended]

end Evolves

variable (r : PqRequest)

theorem cause_cancel (cause : PqError) (ended : r.cause.isSome = true) :
    (r.cancel cause).cause = r.cause := by
  unfold PqRequest.cause PqRequest.cancel at *
  cases ctx : r.execCtx with
  | none =>
    rw [ctx] at ended
    cases ended
  | some ctx' =>
    rw [ctx] at ended
    change (ctx'.cause.or (some cause)) = ctx'.cause
    obtain ⟨first, eq⟩ := Option.isSome_iff_exists.mp ended
    change ctx'.cause = some first at eq
    rw [eq]
    rfl

theorem isSome_cause_cancel (cause : PqError) : (r.cancel cause).cause.isSome = r.execCtx.isSome := by
  unfold PqRequest.cause PqRequest.cancel
  cases ctx : r.execCtx with
  | none => rfl
  | some ctx' =>
    change (ctx'.cause.or (some cause)).isSome = true
    cases ctx'.cause <;> rfl

theorem isSome_cancel (cause : PqError) : (r.cancel cause).execCtx.isSome = r.execCtx.isSome :=
  Option.isSome_map

theorem evolves_cancel (cause : PqError) : Evolves r (r.cancel cause) :=
  ⟨rfl, rfl, rfl, rfl, rfl, rfl, rfl, r.isSome_cancel cause, r.cause_cancel cause, Iff.rfl⟩

theorem evolves_submitter {next : Submitter} (stays : r.submitter ≠ .cancelled)
    (still : next ≠ .cancelled) : Evolves r { r with submitter := next } :=
  ⟨rfl, rfl, rfl, rfl, rfl, rfl, rfl, rfl, fun _ => rfl, iff_of_false still stays⟩

structure Abandoned (r r' : PqRequest) : Prop where
  err : r'.err = r.err
  done : r'.done = r.done
  dropped : r'.dropped = r.dropped
  runs : r'.runs = r.runs
  started : r'.execCtx.isSome = r.execCtx.isSome
  cause : r.cause.isSome = true → r'.cause = r.cause
  gone : r'.submitter = .cancelled
  flag : r.execCtx.isSome = true → r'.abandoned = true

theorem abandoned_abandon : Abandoned r r.abandon := by
  unfold abandon
  split
  · exact ⟨rfl, rfl, rfl, rfl, isSome_cancel _ _, cause_cancel _ _, rfl, fun _ => rfl⟩
  next none => exact ⟨rfl, rfl, rfl, rfl, rfl, fun _ => rfl, rfl, fun started => absurd started none⟩

end PqRequest

/-- Everything that a step can do to one request. `leaving` says that the step is the one in which its client goes. -/
inductive Turn (leaving : Prop) (v : RequestView) : RequestView → Prop
  | stays {r : PqRequest} (evolves : v.request.Evolves r) : Turn leaving v { v with request := r }
  | enters {r : PqRequest} (new : v.known = false) (here : r.submitter = .inserted)
      (blank : r.done = [] ∧ r.dropped = false ∧ r.abandoned = false ∧ r.execCtx = none) :
      Turn leaving v { v with waits := v.waits + 1, request := r, known := true }
  | starts {waits : Nat} (waiting : v.waits = waits + 1) (now : Int) (stopped : Bool) : Turn leaving v
      ⟨waits, v.flies + 1, v.runs + 1, v.ended, v.handling, v.request.start now stopped, v.known⟩
  | returns {runs : Nat} (running : v.runs = runs + 1) (err : Option PqError) : Turn leaving v
      ⟨v.waits, v.flies, runs, v.ended + 1, v.handling, v.request.finish err, v.known⟩
  | received {ended : Nat} (sends : v.ended = ended + 1) (idle : v.handling = none) :
      Turn leaving v { v with ended := ended, handling := some .examining }
  | forgotten (handling : v.handling = some .examining) (abandoned : v.request.abandoned = true) : Turn leaving v
      ⟨v.waits, v.flies - 1, v.runs, v.ended, none, { v.request with dropped := true }, v.known⟩
  | examined (handling : v.handling = some .examining) (wanted : v.request.abandoned = false) :
      Turn leaving v { v with flies := v.flies - 1, handling := some .settling }
  | requeued (handling : v.handling = some .settling) (preempted : v.request.wasPreempted = true) (now : Int) :
      Turn leaving v ⟨v.waits + 1, v.flies, v.runs, v.ended, none, { v.request with enqueuedAt := now }, v.known⟩
  | settled (handling : v.handling = some .settling) (final : v.request.wasPreempted = false) :
      Turn leaving v { v with handling := some .delivering }
  | delivered (handling : v.handling = some .delivering) : Turn leaving v
      ⟨v.waits, v.flies, v.runs, v.ended, none, { v.request with done := v.request.done ++ [v.request.err] }, v.known⟩
  | withdrawn {waits : Nat} (waiting : v.waits = waits + 1) (left : leaving)
      (client : v.request.submitter = .waiting) :
      Turn leaving v { v with waits := waits, request := v.request.withdraw }
  | abandons (absent : v.waits = 0) (left : leaving) (client : v.request.submitter = .waiting) :
      Turn leaving v { v with request := v.request.abandon }

theorem Turn.idle {leaving : Prop} (v : RequestView) : Turn leaving v v :=
  .stays (.refl v.request)

namespace PqScheduler

variable {st : PqScheduler} {id i : Nat} {now : Int} {ids : List Nat}

theorem requests_modify (st : PqScheduler) (id : Nat) (f : PqRequest → PqRequest) (i : Nat) :
    (st.modify id f).requests i = if i = id then f (st.requests id) else st.requests i := by
  unfold modify
  by_cases same : i = id
  · subst same
    simp
  · simp [same]

theorem perm_insertLocked (st : PqScheduler) (id : Nat) : ((st.insertLocked id).queue).Perm (st.queue ++ [id]) :=
  perm_insertionSort _ _

theorem count_concat (ids : List Nat) (id : Nat) : (ids ++ [id]).count id = ids.count id + 1 := by
  rw [count_append, count_singleton_self]

theorem count_concat_of_ne (other : i ≠ id) : (ids ++ [id]).count i = ids.count i := by
  rw [count_append, count_eq_zero.mpr (List.mem_singleton.not.mpr other), Nat.add_zero]

theorem count_eq_erase (mem : id ∈ ids) : ids.count id = (ids.erase id).count id + 1 := by
  have here := count_pos_iff.mpr mem
  rw [count_erase_self]
  omega

theorem view_handling (st : PqScheduler) (id : Nat) : (st.view id).handling = st.phase.handling id :=
  rfl

section Turns

variable {leaving : Prop}

theorem turn_modify {f : PqRequest → PqRequest} (evolves : (st.requests id).Evolves (f (st.requests id))) (i : Nat) :
    Turn leaving (st.view i) ((st.modify id f).view i) := by
  have own : (st.requests i).Evolves ((st.modify id f).requests i) := by
    rw [requests_modify]
    split
    next same =>
      subst same
      exact evolves
    · exact .refl _
  exact .stays own

theorem turn_own {st' : PqScheduler} {v : RequestView} (turn : i = id → Turn leaving (st.view id) v)
    (own : st'.view id = v) (others : ∀ i ≠ id, st'.view i = st.view i) : Turn leaving (st.view i) (st'.view i) := by
  by_cases same : i = id
  · subst same
    rw [own]
    exact turn rfl
  · rw [others i same]
    exact .idle _

theorem turn_submit (st : PqScheduler) (priority : Int) (model : String) (now : Int) (i : Nat) :
    Turn leaving (st.view i) ((st.submit priority model now).view i) := by
  have known : (st.view st.submitted).known = false := decide_eq_false (lt_irrefl _)
  refine turn_own (fun _ => .enters known rfl ⟨rfl, rfl, rfl, rfl⟩)
    (RequestView.ext ?_ rfl rfl rfl rfl (update_self _ _ _) ?_)
    (fun i other => RequestView.ext ?_ rfl rfl rfl rfl (update_of_ne other _ _) ?_)
  · exact ((perm_insertLocked _ _).count_eq _).trans (count_concat _ _)
  · exact decide_eq_true (Nat.lt_succ_self _)
  · exact ((perm_insertLocked _ _).count_eq _).trans (count_concat_of_ne other)
  · have iff : i < st.submitted + 1 ↔ i < st.submitted := by omega
    exact decide_eq_decide.mpr iff

theorem evolves_maybePreempt (st : PqScheduler) (priority : Int) (model : String) (order : List Nat) (now : Int)
    (i : Nat) : (st.requests i).Evolves ((st.maybePreempt priority model order now).requests i) := by
  fun_cases maybePreempt st priority model order now
  case case4 v _ _ =>
    rw [requests_modify]
    split
    next same =>
      subst same
      exact evolves_cancel _ _
    · exact .refl _
  all_goals exact .refl _

theorem maybePreempt_eq (st : PqScheduler) (priority : Int) (model : String) (order : List Nat) (now : Int) :
    st.maybePreempt priority model order now =
      { st with requests := (st.maybePreempt priority model order now).requests } := by
  fun_cases maybePreempt st priority model order now <;> rfl

theorem turn_start (mem : id ∈ st.queue) (now : Int) (i : Nat) :
    Turn leaving (st.view i) ((st.start id now).view i) := by
  exact turn_own (fun _ => .starts (count_eq_erase mem) now st.stopped)
    (RequestView.ext rfl (count_concat _ _) (count_concat _ _) rfl rfl (update_self _ _ _) rfl)
    (fun i other => RequestView.ext (count_erase_of_ne other) (count_concat_of_ne other) (count_concat_of_ne other)
      rfl rfl (update_of_ne other _ _) rfl)

theorem eligible_mem (found : st.eligible now = some id) : id ∈ st.queue := by
  unfold eligible at found
  split at found
  · exact mem_of_find?_eq_some found
  · cases found

theorem turns_startLoop (now : Int) (n : Nat) (st : PqScheduler) (i : Nat) :
    Relation.ReflTransGen (Turn leaving) (st.view i) ((startLoop now n st).view i) := by
  induction n generalizing st with
  | zero => exact .refl
  | succ n ih =>
    unfold startLoop
    split
    · exact .refl
    next id found =>
      have one : Turn leaving (st.view i) ((st.start id now).view i) := turn_start (eligible_mem found) now i
      exact .head one (ih (st.start id now))

theorem startLoop_phase (now : Int) (n : Nat) (st : PqScheduler) : (startLoop now n st).phase = st.phase := by
  induction n generalizing st with
  | zero => rfl
  | succ n ih =>
    unfold startLoop
    split
    · rfl
    next id _ => exact ih (st.start id now)

theorem turn_reap (idle : st.phase = .selecting) (mem : id ∈ st.finished) (i : Nat) : Turn leaving (st.view i)
      ({ st with finished := st.finished.erase id, phase := .examining id }.view i) := by
  have before (i : Nat) : (st.view i).handling = none := by
    rw [view_handling, idle]
    rfl
  exact turn_own (fun _ => .received (count_eq_erase mem) (before id)) (RequestView.ext rfl rfl rfl rfl (if_pos rfl) rfl rfl)
    (fun i other => RequestView.ext rfl rfl rfl (count_erase_of_ne other)
      ((if_neg (Ne.symm other)).trans (before i).symm) rfl rfl)

theorem handling_own (st : PqScheduler) (id : Nat) (what : Handling)
    (here : ∀ i, st.phase.handling i = if id = i then some what else none) :
    (st.view id).handling = some what ∧ ∀ i ≠ id, none = (st.view i).handling :=
  ⟨(here id).trans (if_pos rfl), fun i other => ((here i).trans (if_neg (Ne.symm other))).symm⟩

theorem turn_examine (here : st.phase = .examining id) (i : Nat) : Turn leaving (st.view i) ((st.examine id).view i) := by
  obtain ⟨own, others⟩ := handling_own st id .examining fun i => by rw [here]; rfl
  fun_cases examine st id
  case case1 abandoned =>
    exact turn_own (fun _ => .forgotten own abandoned)
      (RequestView.ext rfl count_erase_self rfl rfl rfl (update_self _ _ _) rfl)
      (fun i other => RequestView.ext rfl (count_erase_of_ne other) rfl rfl (others i other)
        (update_of_ne other _ _) rfl)
  case case2 wanted =>
    exact turn_own (fun _ => .examined own (Bool.eq_false_iff.mpr wanted))
      (RequestView.ext rfl count_erase_self rfl rfl (if_pos rfl) rfl rfl)
      (fun i other => RequestView.ext rfl (count_erase_of_ne other) rfl rfl
        ((if_neg (Ne.symm other)).trans (others i other)) rfl rfl)

theorem turn_settle (here : st.phase = .settling id) (now : Int) (i : Nat) :
    Turn leaving (st.view i) ((st.settle id now).view i) := by
  obtain ⟨own, others⟩ := handling_own st id .settling fun i => by rw [here]; rfl
  fun_cases settle st id now
  case case1 preempted =>
    exact turn_own (fun _ => .requeued own preempted now)
      (RequestView.ext (((perm_insertLocked _ _).count_eq _).trans (count_concat _ _)) rfl rfl rfl rfl
        (update_self _ _ _) rfl)
      (fun i other => RequestView.ext (((perm_insertLocked _ _).count_eq _).trans (count_concat_of_ne other))
        rfl rfl rfl (others i other) (update_of_ne other _ _) rfl)
  case case2 final =>
    exact turn_own (fun _ => .settled own (Bool.eq_false_iff.mpr final))
      (RequestView.ext rfl rfl rfl rfl (if_pos rfl) rfl rfl)
      (fun i other => RequestView.ext rfl rfl rfl rfl ((if_neg (Ne.symm other)).trans (others i other)) rfl rfl)

theorem turn_deliver (here : st.phase = .delivering id) (i : Nat) : Turn leaving (st.view i) ((st.deliver id).view i) := by
  obtain ⟨own, others⟩ := handling_own st id .delivering fun i => by rw [here]; rfl
  exact turn_own (fun _ => .delivered own) (RequestView.ext rfl rfl rfl rfl rfl (update_self _ _ _) rfl)
    (fun i other => RequestView.ext rfl rfl rfl rfl (others i other) (update_of_ne other _ _) rfl)

theorem turn_execReturns (mem : id ∈ st.running) (err : Option PqError) (i : Nat) :
    Turn leaving (st.view i) ((st.execReturns id err).view i) := by
  exact turn_own (fun _ => .returns (count_eq_erase mem) err)
    (RequestView.ext rfl rfl rfl (count_concat _ _) rfl (update_self _ _ _) rfl)
    (fun i other => RequestView.ext rfl rfl (count_erase_of_ne other) (count_concat_of_ne other) rfl
      (update_of_ne other _ _) rfl)

theorem turn_cancelSubmit (client : (st.requests id).submitter = .waiting) (i : Nat) :
    Turn (PqOp.cancel id = .cancel i) (st.view i) ((st.cancelSubmit id).view i) := by
  fun_cases cancelSubmit st id
  case case1 waiting =>
    have mem := contains_iff_mem.mp waiting
    exact turn_own (fun same => .withdrawn (count_eq_erase mem) (congrArg _ same.symm) client)
      (RequestView.ext rfl rfl rfl rfl rfl (update_self _ _ _) rfl)
      (fun i other => RequestView.ext (count_erase_of_ne other) rfl rfl rfl rfl (update_of_ne other _ _) rfl)
  case case2 absent =>
    have out : (st.view id).waits = 0 := count_eq_zero.mpr fun mem => absent (contains_iff_mem.mpr mem)
    exact turn_own (fun same => .abandons out (congrArg _ same.symm) client)
      (RequestView.ext rfl rfl rfl rfl rfl (update_self _ _ _) rfl)
      (fun i other => RequestView.ext rfl rfl rfl rfl rfl (update_of_ne other _ _) rfl)

end Turns

theorem idle_turns {leaving : Prop} {st' : PqScheduler} (before : st.phase.handling i = none)
    (same : st'.view i = { st.view i with handling := none }) :
    Relation.ReflTransGen (Turn leaving) (st.view i) (st'.view i) := by
  have after : st'.view i = st.view i := by
    rw [same]
    exact RequestView.ext rfl rfl rfl rfl before.symm rfl rfl
  rw [after]

/-- What a step does to one request is a run of turns. -/
theorem step_turns (st : PqScheduler) (op : PqOp) (i : Nat) :
    Relation.ReflTransGen (Turn (op = .cancel i)) (st.view i) ((st.step op).view i) := by
  cases op with dsimp only [step]
  | submit priority model now => exact .single (turn_submit st priority model now i)
  | maybePreempt id order now =>
    split
    next ready =>
      have first := evolves_maybePreempt st (st.requests id).priority (st.requests id).model order now
      have same := maybePreempt_eq st (st.requests id).priority (st.requests id).model order now
      generalize st.maybePreempt (st.requests id).priority (st.requests id).model order now = st' at first same
      have present : (st'.requests id).submitter ≠ .cancelled := by
        intro gone
        rw [(first id).gone, ready.1] at gone
        cases gone
      have one : Turn (PqOp.maybePreempt id order now = .cancel i) (st.view i) (st'.view i) := by
        rw [same]
        exact .stays (first i)
      have two : Turn (PqOp.maybePreempt id order now = .cancel i) (st'.view i)
          ((st'.modify id fun r => { r with submitter := .waiting }).view i) :=
        turn_modify (evolves_submitter _ present (by simp)) i
      exact (Relation.ReflTransGen.single one).tail two
    · exact .refl
  | receive id =>
    split
    next err _ client _ =>
      have here : (st.requests id).submitter ≠ .cancelled := by
        rw [client]
        simp
      exact .single (turn_modify (evolves_submitter _ here (by simp)) i)
    · exact .refl
  | cancel id =>
    split
    next client => exact .single (turn_cancelSubmit client i)
    · exact .refl
  | setMaxInFlight | setBackpressure => exact .refl
  | startEligible now =>
    split
    next here =>
      have loop : Relation.ReflTransGen (Turn (PqOp.startEligible now = .cancel i)) (st.view i)
          ((st.startEligible now).view i) := turns_startLoop now st.queue.length st i
      have phase := startLoop_phase now st.queue.length st
      have after : { st.startEligible now with phase := .arming }.view i = (st.startEligible now).view i := by
        refine RequestView.ext rfl rfl rfl rfl ?_ rfl rfl
        change none = (startLoop now st.queue.length st).phase.handling i
        rw [phase, here]
        rfl
      rw [after]
      exact loop
    · exact .refl
  | arm now =>
    split
    next here => exact idle_turns (by rw [here]; rfl) rfl
    · exact .refl
  | notified | expired =>
    split
    next here => exact idle_turns (by rw [here.1]; rfl) rfl
    · exact .refl
  | reap id =>
    split
    next here => exact .single (turn_reap here.1 (contains_iff_mem.mp here.2) i)
    · exact .refl
  | examine =>
    split
    next id here => exact .single (turn_examine here i)
    · exact .refl
  | settle now =>
    split
    next id here => exact .single (turn_settle here now i)
    · exact .refl
  | deliver =>
    split
    next id here => exact .single (turn_deliver here i)
    · exact .refl
  | execReturns id err =>
    split
    next running => exact .single (turn_execReturns (contains_iff_mem.mp running) err i)
    · exact .refl
  | stop => exact .single (.stays (evolves_cancel (st.requests i) .canceled))
  | quit =>
    split
    next here => exact idle_turns (by rw [here.1]; rfl) rfl
    · exact .refl

end PqScheduler

end LakeKv
