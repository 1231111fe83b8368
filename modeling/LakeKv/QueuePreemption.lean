import LakeKv.QueueConservation

namespace LakeKv

open Function List PqRequest

namespace PqScheduler

variable {st : PqScheduler} {op : PqOp} {ops : List PqOp} {id v : Nat} {cause : PqError}

def Open (st : PqScheduler) (id : Nat) : Prop :=
  id ∈ st.inFlight ∧ (st.requests id).cause = none

/-- `maybePreempt` for an urgent request: the scheduler is full, the model is not under backpressure, and an open
request has a lower priority. -/
def urgent (st : PqScheduler) : PqOp → Bool
  | .maybePreempt id order now => decide
    (((st.requests id).submitter = .inserted ∧ id < st.submitted ∧ order.Perm st.inFlight) ∧
      st.maxInFlight ≤ st.inFlight.length ∧ st.underBackpressure (st.requests id).model now = false ∧
      ∃ u ∈ st.inFlight, (st.requests u).cause = none ∧ (st.requests u).priority < (st.requests id).priority)
  | _ => false

def urgents : PqScheduler → List PqOp → Nat
  | _, [] => 0
  | st, op :: ops => (st.urgent op).toNat + urgents (st.step op) ops

/-- Some open request stands below every one in flight that is preempted or cancelled already. -/
def Fresh (st : PqScheduler) : Prop :=
  ∃ u ∈ st.inFlight, (st.requests u).cause = none ∧
    ∀ c ∈ st.inFlight, (st.requests c).cause ≠ none → (st.requests c).before (st.requests u)

def Spares (st : PqScheduler) (op : PqOp) : Prop :=
  (∀ id err, op ≠ .execReturns id err) ∧ (st.urgent op = true → st.Fresh)

theorem foldl_worse (st : PqScheduler) (order : List Nat) (v : Nat) :
    ∃ w ∈ v :: order, order.foldl st.worse (some v) = some w ∧
      ∀ c ∈ v :: order, ¬(st.requests w).before (st.requests c) := by
  induction order generalizing v with
  | nil =>
    refine ⟨v, mem_cons_self, rfl, ?_⟩
    intro c mem
    cases List.mem_singleton.mp mem
    exact or_self_iff.mp (before_total _ _)
  | cons r order ih =>
    rw [foldl_cons, worse]
    split
    next below =>
      obtain ⟨w, mem, found, last⟩ := ih r
      refine ⟨w, mem_cons_of_mem v mem, found, ?_⟩
      intro c seen
      rcases mem_cons.mp seen with rfl | seen
      · have rest := last r mem_cons_self
        unfold before at rest ⊢
        omega
      · exact last c seen
    next above =>
      obtain ⟨w, mem, found, last⟩ := ih v
      refine ⟨w, ?_, found, ?_⟩
      · rcases mem_cons.mp mem with rfl | mem
        · exact mem_cons_self
        · exact mem_cons_of_mem v (mem_cons_of_mem r mem)
      · intro c seen
        rcases mem_cons.mp seen with rfl | seen
        · exact last c mem_cons_self
        rcases mem_cons.mp seen with rfl | seen
        · have rest := last v mem_cons_self
          unfold before at rest ⊢
          omega
        · exact last c (mem_cons_of_mem v seen)

theorem cause_cancel_open {r : PqRequest} (started : r.execCtx.isSome = true) (none : r.cause = none) :
    (r.cancel .preempted).cause = some .preempted := by
  obtain ⟨ctx, eq⟩ := Option.isSome_iff_exists.mp started
  unfold cause at none
  rw [eq] at none
  change ctx.cause = _ at none
  unfold cancel cause ExecCtx.cancel
  rw [eq]
  change ctx.cause.or _ = _
  rw [none]
  rfl

theorem preempts (kept : st.Kept) (urgent : st.urgent op = true) (fresh : st.Fresh) :
    ∃ v, st.Open v ∧ ((st.step op).requests v).cause = some .preempted := by
  cases op with
  | maybePreempt id order now =>
    obtain ⟨ready, full, calm, u, flies, -, lower⟩ := of_decide_eq_true urgent
    obtain ⟨f, fliesF, openF, below⟩ := fresh
    obtain ⟨v, known, found, last⟩ : ∃ v ∈ order, order.foldl st.worse none = some v ∧
        ∀ c ∈ order, ¬(st.requests v).before (st.requests c) := by
      cases order with
      | nil => exact absurd (ready.2.2.mem_iff.mpr flies) not_mem_nil
      | cons r order => exact st.foldl_worse order r
    have mem := ready.2.2.mem_iff.mp known
    have none : (st.requests v).cause = none := by
      by_contra cancelled
      exact last f (ready.2.2.mem_iff.mpr fliesF) (below v mem cancelled)
    have low : (st.requests v).priority < (st.requests id).priority := by
      have rest := last u (ready.2.2.mem_iff.mpr flies)
      unfold before at rest
      omega
    have started := (kept.accounted v).started (.inl (count_pos_iff.mpr mem))
    refine ⟨v, ⟨mem, none⟩, ?_⟩
    have hit : ((st.maybePreempt (st.requests id).priority (st.requests id).model order now).requests v).cause =
        some .preempted := by
      unfold maybePreempt
      rw [if_neg (by omega), if_neg (by simp [calm]), found]
      dsimp only
      rw [if_pos low, requests_modify, if_pos rfl]
      exact cause_cancel_open started none
    dsimp only [step]
    rw [if_pos ready]
    change (((st.maybePreempt (st.requests id).priority (st.requests id).model order now).modify id
      fun r => { r with submitter := .waiting }).requests v).cause = _
    rw [requests_modify]
    split
    next same => exact same ▸ hit
    · exact hit
  | _ => cases urgent

def Caught (st : PqScheduler) (id : Nat) (cause : PqError) : Prop :=
  id ∈ st.running ∧ (st.requests id).cause = some cause

theorem flies_of_runs (kept : st.Kept) (runs : v ∈ st.running) : v ∈ st.inFlight := by
  have flies := ((kept.accounted v).flying (Nat.add_pos_left (count_pos_iff.mpr runs) _)).2.1
  exact count_pos_iff.mp (Nat.lt_of_lt_of_eq Nat.one_pos flies.symm)

theorem runs_of_open (kept : st.Kept) (here : st.Open v) : v ∈ st.running := by
  have acc := kept.accounted v
  have flies : 0 < (st.view v).flies := count_pos_iff.mpr here.1
  have goroutines := acc.goroutines
  have grounded : ¬(0 < (st.view v).ended ∨ (st.view v).handling ≠ none ∨ (st.view v).request.done ≠ []) := by
    intro ended
    have cancelled := acc.ended ended
    rw [show (st.view v).request.cause = none from here.2] at cancelled
    cases cancelled
  obtain ⟨still, rest⟩ := not_or.mp grounded
  have free := not_not.mp (not_or.mp rest).1
  rw [free] at goroutines
  change (st.view v).flies = (st.view v).runs + (st.view v).ended + 0 at goroutines
  refine count_pos_iff.mp ?_
  change 0 < (st.view v).runs
  omega

/-- A running request goes on running, and a cancelled one keeps its cause. -/
def RunsOn (v : Nat) (st st' : PqScheduler) : Prop :=
  v ∈ st'.running ∧ ((st.requests v).cause.isSome = true → (st'.requests v).cause = (st.requests v).cause)

theorem RunsOn.trans {st' st'' : PqScheduler} (first : RunsOn v st st') (second : RunsOn v st' st'') :
    RunsOn v st st'' := by
  refine ⟨second.1, fun cancelled => ?_⟩
  have same := first.2 cancelled
  exact (second.2 (by rw [same]; exact cancelled)).trans same

theorem runsOn_modify (f : PqRequest → PqRequest) (keeps : ∀ r, r.cause.isSome = true → (f r).cause = r.cause)
    (runs : v ∈ st.running) : RunsOn v st (st.modify id f) := by
  refine ⟨runs, fun cancelled => ?_⟩
  rw [requests_modify]
  split
  next same =>
    subst same
    exact keeps _ cancelled
  · rfl

theorem startLoop_runsOn (now : Int) (n : Nat) (absent : v ∉ st.queue) (runs : v ∈ st.running) :
    RunsOn v st (startLoop now n st) := by
  induction n generalizing st with
  | zero => exact ⟨runs, fun _ => rfl⟩
  | succ n ih =>
    unfold startLoop
    split
    · exact ⟨runs, fun _ => rfl⟩
    next id found =>
      have ne : v ≠ id := by
        rintro rfl
        exact absent (eligible_mem found)
      have first : RunsOn v st (st.start id now) :=
        ⟨mem_append_left _ runs, fun _ => congrArg PqRequest.cause (update_of_ne ne _ _)⟩
      exact first.trans (ih (fun mem => absent (mem_of_mem_erase mem)) first.1)

theorem runsOn_step (kept : st.Kept) (busy : ∀ id err, op ≠ .execReturns id err) (runs : v ∈ st.running) :
    RunsOn v st (st.step op) := by
  have acc := kept.accounted v
  have flying := acc.flying (Nat.add_pos_left (count_pos_iff.mpr runs) _)
  have absent : v ∉ st.queue := count_eq_zero.mp flying.1
  have still : RunsOn v st st := ⟨runs, fun _ => rfl⟩
  cases op with dsimp only [step]
  | submit priority model now =>
    have ne : v ≠ st.submitted := by
      rintro rfl
      have once := acc.once
      have flies := flying.2.1
      have unknown : (st.view st.submitted).known = false := decide_eq_false (lt_irrefl _)
      unfold RequestView.places at once
      rw [unknown, Bool.toNat_false] at once
      omega
    exact ⟨runs, fun _ => congrArg PqRequest.cause (update_of_ne ne _ _)⟩
  | maybePreempt id order now =>
    split
    · have evolves := evolves_maybePreempt st (st.requests id).priority (st.requests id).model order now v
      have first : RunsOn v st (st.maybePreempt (st.requests id).priority (st.requests id).model order now) := by
        rw [maybePreempt_eq]
        exact ⟨runs, evolves.cause⟩
      exact first.trans (runsOn_modify (fun r => { r with submitter := .waiting }) (fun _ _ => rfl) first.1)
    · exact still
  | receive id =>
    split
    next err _ _ _ => exact runsOn_modify (fun r => { r with submitter := .answered err }) (fun _ _ => rfl) runs
    · exact still
  | cancel id =>
    dsimp only [cancelSubmit]
    split
    · split
      · exact runsOn_modify withdraw (fun _ _ => rfl) runs
      · exact runsOn_modify abandon (fun r => r.abandoned_abandon.cause) runs
    · exact still
  | startEligible now =>
    split
    · exact startLoop_runsOn now _ absent runs
    · exact still
  | examine =>
    dsimp only [examine]
    split
    · split
      · exact runsOn_modify (fun r => { r with dropped := true }) (fun _ _ => rfl) runs
      · exact still
    · exact still
  | settle now =>
    dsimp only [settle]
    split
    · split
      · exact runsOn_modify (fun r => { r with enqueuedAt := now }) (fun _ _ => rfl) runs
      · exact still
    · exact still
  | deliver =>
    split
    · exact runsOn_modify (fun r => { r with done := r.done ++ [r.err] }) (fun _ _ => rfl) runs
    · exact still
  | execReturns id err => exact absurd rfl (busy id err)
  | stop => exact ⟨runs, cause_cancel _ _⟩
  | setMaxInFlight | setBackpressure => exact still
  | arm | notified | expired | reap | quit =>
    split <;> exact still

theorem caught_step (kept : st.Kept) (busy : ∀ id err, op ≠ .execReturns id err) (caught : st.Caught v cause) :
    (st.step op).Caught v cause := by
  have goes := runsOn_step kept busy caught.1
  exact ⟨goes.1, (goes.2 (by rw [caught.2]; rfl)).trans caught.2⟩

theorem caught_steps (kept : st.Kept) (spares : Reach.Allowed step Spares st ops) (caught : st.Caught v cause) :
    (ops.foldl step st).Caught v cause := by
  induction ops generalizing st with
  | nil => exact caught
  | cons op ops ih => exact ih (kept.step op) spares.2 (caught_step kept spares.1.1 caught)

/-- As long as no `exec` returns and every urgent request finds an open request at the bottom, each of them cancels one
more request in flight by a preemption. -/
theorem preempts_each (kept : st.Kept) (spares : Reach.Allowed step Spares st ops) :
    ∃ victims : List Nat, victims.Nodup ∧ victims.length = urgents st ops ∧
      ∀ v ∈ victims, (v ∈ st.running → (st.requests v).cause = none) ∧ (ops.foldl step st).Caught v .preempted := by
  induction ops generalizing st with
  | nil => exact ⟨[], nodup_nil, rfl, fun v mem => absurd mem not_mem_nil⟩
  | cons op ops ih =>
    obtain ⟨victims, nodup, count, fresh⟩ := ih (kept.step op) spares.2
    -- what a later request preempts was open before this step too
    have before : ∀ v ∈ victims, v ∈ st.running → (st.requests v).cause = none := by
      intro v mem runs
      cases cause : (st.requests v).cause with
      | none => rfl
      | some c =>
        have caught := caught_step kept spares.1.1 ⟨runs, cause⟩
        exact absurd ((fresh v mem).1 caught.1) (by rw [caught.2]; exact Option.some_ne_none c)
    cases urgent : st.urgent op with
    | false =>
      refine ⟨victims, nodup, ?_, fun v mem => ⟨before v mem, (fresh v mem).2⟩⟩
      rw [count, urgents, urgent, Bool.toNat_false, Nat.zero_add]
    | true =>
      obtain ⟨v, here, hit⟩ := preempts kept urgent (spares.1.2 urgent)
      have caught : (st.step op).Caught v .preempted := by
        refine ⟨?_, hit⟩
        have runs := runs_of_open kept here
        cases op with
        | maybePreempt id order now =>
          dsimp only [step]
          rw [if_pos (of_decide_eq_true urgent).1, maybePreempt_eq]
          exact runs
        | _ => cases urgent
      have last := caught_steps (kept.step op) spares.2 caught
      refine ⟨v :: victims, nodup_cons.mpr ⟨?_, nodup⟩, ?_, ?_⟩
      · intro mem
        exact absurd ((fresh v mem).1 caught.1) (by rw [hit]; exact Option.some_ne_none _)
      · rw [length_cons, count, urgents, urgent, Bool.toNat_true, Nat.add_comm]
      · intro u mem
        rcases mem_cons.mp mem with rfl | mem
        · exact ⟨fun _ => here.2, last⟩
        · exact ⟨before u mem, (fresh u mem).2⟩

/-- `maybePreempt` for a request above all of `low`, in a full scheduler without backpressure. -/
def presses (low : List Nat) (st : PqScheduler) : PqOp → Bool
  | .maybePreempt id order now => decide
    (((st.requests id).submitter = .inserted ∧ id < st.submitted ∧ order.Perm st.inFlight) ∧
      st.maxInFlight ≤ st.inFlight.length ∧ st.underBackpressure (st.requests id).model now = false ∧
      ∀ u ∈ low, (st.requests u).priority < (st.requests id).priority)
  | _ => false

def pressings (low : List Nat) : PqScheduler → List PqOp → Nat
  | _, [] => 0
  | st, op :: ops => (st.presses low op).toNat + pressings low (st.step op) ops

theorem urgents_or_caught {low : List Nat} (kept : st.Kept) (spares : Reach.Allowed step Spares st ops)
    (runs : ∀ v ∈ low, v ∈ st.running) :
    pressings low st ops ≤ urgents st ops ∨ ∀ v ∈ low, ∃ cause, (ops.foldl step st).Caught v cause := by
  induction ops generalizing st with
  | nil => exact .inl (Nat.le_refl 0)
  | cons op ops ih =>
    rcases ih (kept.step op) spares.2 fun v mem => (runsOn_step kept spares.1.1 (runs v mem)).1 with fewer | caught
    · by_cases free : ∃ v ∈ low, (st.requests v).cause = none
      · have urgent : st.presses low op = true → st.urgent op = true := by
          intro pressed
          cases op with
          | maybePreempt id order now =>
            obtain ⟨ready, full, calm, above⟩ := of_decide_eq_true pressed
            obtain ⟨v, mem, here⟩ := free
            exact decide_eq_true ⟨ready, full, calm, v, flies_of_runs kept (runs v mem), here, above v mem⟩
          | _ => cases pressed
        exact .inl (Nat.add_le_add (Bool.toNat_le_toNat urgent) fewer)
      · refine .inr fun v mem => ?_
        cases cause : (st.requests v).cause with
        | none => exact absurd ⟨v, mem, cause⟩ free
        | some c => exact ⟨c, caught_steps kept spares ⟨runs v mem, cause⟩⟩
    · exact .inr caught

theorem kept_of_reach {maxInFlight bpTTL : Int} (run : Reach step (· = new maxInFlight bpTTL) (fun _ _ => True) st) :
    st.Kept := by
  refine run.invariant ?_ fun st op kept _ => kept.step op
  rintro _ rfl
  exact kept_new maxInFlight bpTTL

/-- In every state and over any steps in which no `exec` returns and every urgent request finds an open request at the
bottom, there are as many requests in flight newly cancelled by a preemption as there were urgent requests. -/
theorem one_victim_each {maxInFlight bpTTL : Int} (run : Reach step (· = new maxInFlight bpTTL) (fun _ _ => True) st)
    (spares : Reach.Allowed step Spares st ops) :
    ∃ victims : List Nat, victims.Nodup ∧ victims.length = urgents st ops ∧
      ∀ v ∈ victims, (v ∈ st.running → (st.requests v).cause = none) ∧ v ∈ (ops.foldl step st).inFlight ∧
        ((ops.foldl step st).requests v).cause = some .preempted := by
  have kept := kept_of_reach run
  obtain ⟨victims, nodup, count, caught⟩ := preempts_each kept spares
  have after : (ops.foldl step st).Kept := List.foldlRecOn ops step kept fun st kept op _ => kept.step op
  exact ⟨victims, nodup, count, fun v mem =>
    ⟨(caught v mem).1, flies_of_runs after (caught v mem).2.1, (caught v mem).2.2⟩⟩

/-- For `k` open requests in flight and `k` urgent ones above them that find the scheduler full, there are `k` victims,
unless one of the open requests is cancelled by other means. -/
theorem victims_of_pressings {maxInFlight bpTTL : Int} {low : List Nat}
    (run : Reach step (· = new maxInFlight bpTTL) (fun _ _ => True) st) (spares : Reach.Allowed step Spares st ops)
    (nodup : low.Nodup) (free : ∀ v ∈ low, st.Open v)
    (only : ∀ v ∈ low, ∀ cause, ((ops.foldl step st).requests v).cause = some cause → cause = .preempted)
    (enough : pressings low st ops ≤ low.length) :
    ∃ victims : List Nat, victims.Nodup ∧ pressings low st ops ≤ victims.length ∧
      ∀ v ∈ victims, (v ∈ st.running → (st.requests v).cause = none) ∧ (ops.foldl step st).Caught v .preempted := by
  have kept := kept_of_reach run
  rcases urgents_or_caught kept spares fun v mem => runs_of_open kept (free v mem) with fewer | caught
  · obtain ⟨victims, nodup, count, caught⟩ := preempts_each kept spares
    exact ⟨victims, nodup, count ▸ fewer, caught⟩
  · refine ⟨low, nodup, enough, fun v mem => ⟨fun _ => (free v mem).2, ?_⟩⟩
    obtain ⟨cause, runs, named⟩ := caught v mem
    exact ⟨runs, only v mem cause named ▸ named⟩

def fullOfTwo : PqScheduler :=
  [.submit 0 "m" 0, .maybePreempt 0 [] 0, .submit 0 "m" 0, .maybePreempt 1 [] 0, .startEligible 0].foldl step (new 2 10)

theorem fullOfTwo_reached : Reach step (· = new 2 10) (fun _ _ => True) fullOfTwo := by
  refine Reach.foldl (.start ?_) (Reach.allowed_true _ _)
  rfl

/-- A request of low priority is submitted and waits. An urgent one comes, and the later of the two in flight is preempted
for it. Then the limit is raised, both are started, and a second urgent one comes. -/
def raisedBetween : List PqOp :=
  [.submit (-1) "m" 1, .maybePreempt 2 [0, 1] 1, .submit 5 "m" 1, .maybePreempt 3 [0, 1] 1, .setMaxInFlight 4, .arm 1,
    .notified, .startEligible 1, .submit 6 "m" 2, .maybePreempt 4 [0, 1, 2, 3] 2]

/-- The second one finds the scheduler full again, and the request of low priority at the bottom. -/
theorem one_victim_each_raised : ∃ u v, u ≠ v ∧ ∀ w ∈ [u, v], w ∈ (raisedBetween.foldl step fullOfTwo).inFlight ∧
    ((raisedBetween.foldl step fullOfTwo).requests w).cause = some .preempted := by
  have first : ((raisedBetween.take 3).foldl step fullOfTwo).Fresh :=
    ⟨1, by decide +kernel, by decide +kernel, by decide +kernel⟩
  have second : ((raisedBetween.take 9).foldl step fullOfTwo).Fresh :=
    ⟨2, by decide +kernel, by decide +kernel, by decide +kernel⟩
  have calm : ((raisedBetween.take 1).foldl step fullOfTwo).urgent (.maybePreempt 2 [0, 1] 1) = false := by
    decide +kernel
  have spares : Reach.Allowed step Spares fullOfTwo raisedBetween := by
    refine ⟨⟨by simp, nofun⟩, ⟨by simp, fun now => ?_⟩, ⟨by simp, nofun⟩, ⟨by simp, fun _ => first⟩, ⟨by simp, nofun⟩,
      ⟨by simp, nofun⟩, ⟨by simp, nofun⟩, ⟨by simp, nofun⟩, ⟨by simp, nofun⟩, ⟨by simp, fun _ => second⟩, trivial⟩
    exact absurd (calm.symm.trans now) Bool.false_ne_true
  have count : urgents fullOfTwo raisedBetween = 2 := by decide +kernel
  obtain ⟨victims, nodup, length, caught⟩ := one_victim_each fullOfTwo_reached spares
  obtain ⟨u, v, rfl⟩ := length_eq_two.mp (length.trans count)
  exact ⟨u, v, by simpa using nodup, fun w mem => (caught w mem).2⟩

/-- Two urgent requests come at once: both find the same victim, and the other request in flight goes on. -/
theorem same_victim_twice :
    let st := [.submit 5 "m" 1, .maybePreempt 2 [0, 1] 1, .submit 5 "m" 1, .maybePreempt 3 [0, 1] 1].foldl step fullOfTwo
    Reach step (· = new 2 10) (fun _ _ => True) fullOfTwo ∧ fullOfTwo.inFlight = [0, 1] ∧ fullOfTwo.maxInFlight = 2 ∧
      (∀ v ∈ [0, 1], (fullOfTwo.requests v).cause = none ∧ (fullOfTwo.requests v).priority < 5) ∧
      st.running = [0, 1] ∧ (st.requests 1).cause = some .preempted ∧ (st.requests 0).cause = none :=
  ⟨fullOfTwo_reached, by decide +kernel, by decide +kernel, by decide +kernel, by decide +kernel, by decide +kernel,
    by decide +kernel⟩

end PqScheduler

end LakeKv
