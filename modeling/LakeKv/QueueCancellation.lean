import LakeKv.QueueConservation

namespace LakeKv

open Reach

namespace RequestView

variable {v w : RequestView} {leaving : Prop}

/-- A request whose client has gone neither waits nor will: if it is in flight it is marked, and if `finishOne` has
found it unmarked, it will not be put back. -/
structure Gone (v : RequestView) : Prop where
  absent : v.waits = 0
  marked : 0 < v.flies → v.request.abandoned = true
  final : v.handling = some .settling → v.request.wasPreempted = false

theorem Accounted.ended_of_settling (acc : v.Accounted) (here : v.handling = some .settling) :
    v.request.cause.isSome = true := by
  refine acc.ended (.inr (.inl ?_))
  rw [here]
  exact Option.some_ne_none _

theorem Accounted.flies_of_examining (acc : v.Accounted) (here : v.handling = some .examining) : 0 < v.flies := by
  have goroutines := acc.goroutines
  rw [here] at goroutines
  change v.flies = v.runs + v.ended + 1 at goroutines
  omega

/-- A client that goes leaves such a request, unless the request stands between the two sections of `finishOne` and is
about to be put back. -/
theorem Gone.abandons (acc : v.Accounted) (absent : v.waits = 0)
    (careful : v.handling = some .settling → v.request.wasPreempted = false) :
    Gone { v with request := v.request.abandon } := by
  have left := v.request.abandoned_abandon
  refine ⟨absent, ?_, ?_⟩
  · intro flies
    exact left.flag (acc.started (.inl flies))
  · intro here
    have final := careful here
    dsimp only
    unfold PqRequest.wasPreempted at final ⊢
    rw [left.err, left.cause (acc.ended_of_settling here)]
    exact final

theorem Gone.turn (gone : v.Gone) (acc : v.Accounted) (known : v.known = true)
    (left : v.request.submitter = .cancelled) (turn : Turn leaving v w) :
    w.Gone ∧ w.known = true ∧ w.request.submitter = .cancelled ∧ w.request.runs = v.request.runs := by
  have absent := gone.absent
  cases turn with
  | stays evolves =>
    refine ⟨⟨absent, ?_, ?_⟩, known, evolves.gone.mpr left, evolves.runs⟩
    · intro flies
      exact evolves.abandoned.trans (gone.marked flies)
    · intro here
      exact (evolves.wasPreempted (acc.ended_of_settling here)).trans (gone.final here)
  | enters new => exact absurd known (new ▸ Bool.false_ne_true)
  | starts waiting => omega
  | returns running err =>
    have free := (acc.flying (by omega)).2.2.2.1
    refine ⟨⟨absent, gone.marked, ?_⟩, known, left, rfl⟩
    intro here
    exact absurd (free.symm.trans here) (Option.some_ne_none _).symm
  | received sends idle => exact ⟨⟨absent, gone.marked, fun here => nomatch here⟩, known, left, rfl⟩
  | forgotten handling abandoned => exact ⟨⟨absent, fun _ => abandoned, fun here => nomatch here⟩, known, left, rfl⟩
  | examined handling wanted =>
    have marked := gone.marked (acc.flies_of_examining handling)
    exact absurd marked (wanted ▸ Bool.false_ne_true)
  | requeued handling preempted now => exact absurd preempted (gone.final handling ▸ Bool.false_ne_true)
  | settled | delivered => exact ⟨⟨absent, gone.marked, fun here => nomatch here⟩, known, left, rfl⟩
  | withdrawn waiting _ client => omega
  | abandons _ _ client => exact absurd (client.symm.trans left) (by decide)

/-- A request is accounted for, and once its client has gone it is left alone. -/
structure Followed (v : RequestView) : Prop where
  accounted : v.Accounted
  gone : v.known = true → v.request.submitter = .cancelled → v.Gone

theorem Followed.turn (followed : v.Followed) (turn : Turn leaving v w)
    (careful : leaving → v.handling = some .settling → v.request.wasPreempted = false) : w.Followed := by
  have acc := followed.accounted
  refine ⟨acc.turn turn, ?_⟩
  intro known gone
  have taken := turn
  cases turn with
  | stays evolves =>
    have before := evolves.gone.mp gone
    exact ((followed.gone known before).turn acc known before taken).1
  | enters new here blank => exact absurd (here.symm.trans gone) (by decide)
  | withdrawn waiting left client =>
    obtain ⟨once, flies, _, _, free, _⟩ := acc.waiting (by omega)
    refine ⟨by dsimp only; omega, ?_, ?_⟩
    · intro flying
      dsimp only at flying
      omega
    · intro here
      exact absurd (free.symm.trans here) (Option.some_ne_none _).symm
  | abandons absent left client => exact .abandons acc absent (careful left)
  | _ => exact ((followed.gone known gone).turn acc known gone taken).1

end RequestView

namespace PqScheduler

variable {st st' : PqScheduler} {id i : Nat}

/-- The client of a request does not go while `finishOne` stands before its second section with that request preempted:
it would put the request back without looking again. -/
def Careful (st : PqScheduler) : PqOp → Prop
  | .cancel id => ¬ (st.phase = .settling id ∧ (st.requests id).wasPreempted = true)
  | _ => True

instance (st : PqScheduler) (op : PqOp) : Decidable (st.Careful op) :=
  match op with
  | .cancel id => inferInstanceAs (Decidable (¬ (st.phase = .settling id ∧ (st.requests id).wasPreempted = true)))
  | .submit .. | .maybePreempt .. | .receive .. | .setMaxInFlight .. | .setBackpressure .. | .startEligible .. | .arm ..
  | .notified | .expired | .reap .. | .examine | .settle .. | .deliver | .execReturns .. | .stop | .quit => .isTrue trivial

theorem handling_settling {phase : RunPhase} (here : phase.handling id = some .settling) : phase = .settling id := by
  unfold RunPhase.handling at here
  split at here
  · split at here <;> cases here
  next i =>
    split at here
    next same => rw [same]
    · cases here
  · split at here <;> cases here
  · cases here

theorem followed_step (followed : (st.view i).Followed) (op : PqOp) (careful : st.Careful op) :
    ((st.step op).view i).Followed := by
  by_cases leaving : op = .cancel i
  · subst leaving
    dsimp only [step]
    split
    next client =>
      refine followed.turn (turn_cancelSubmit client i) ?_
      intro _ here
      exact Bool.eq_false_iff.mpr fun preempted => careful ⟨handling_settling here, preempted⟩
    · exact followed
  · refine Turn.invariant ?_ (step_turns st op i) followed
    intro v w followed turn
    exact followed.turn turn fun left => absurd left leaving

theorem followed_new (maxInFlight bpTTL : Int) (i : Nat) : ((new maxInFlight bpTTL).view i).Followed := by
  refine ⟨(kept_new maxInFlight bpTTL).accounted i, ?_⟩
  intro _ gone
  have here : Submitter.inserted = .cancelled := gone
  cases here

theorem gone_step (followed : (st.view i).Followed) (op : PqOp) (known : i < st.submitted)
    (gone : (st.requests i).submitter = .cancelled) :
    i < (st.step op).submitted ∧ ((st.step op).requests i).submitter = .cancelled ∧
      ((st.step op).requests i).runs = (st.requests i).runs := by
  have full : (st.view i).known = true := decide_eq_true known
  have base : (st.view i).Accounted ∧ (st.view i).Gone ∧ (st.view i).known = true ∧
      (st.view i).request.submitter = .cancelled ∧ (st.view i).request.runs = (st.requests i).runs :=
    ⟨followed.accounted, followed.gone full gone, full, gone, rfl⟩
  have after := Turn.invariant (I := fun v => v.Accounted ∧ v.Gone ∧ v.known = true ∧
    v.request.submitter = .cancelled ∧ v.request.runs = (st.requests i).runs) ?_ (step_turns st op i) base
  · obtain ⟨_, _, known', gone', runs⟩ := after
    exact ⟨of_decide_eq_true known', gone', runs⟩
  · rintro v w ⟨acc, left, known, gone, runs⟩ turn
    obtain ⟨left', known', gone', same⟩ := left.turn acc known gone turn
    exact ⟨acc.turn turn, left', known', gone', same.trans runs⟩

/-- Once `Submit` has returned because its client had gone, `exec` of that request is not started again, in every
interleaving in which no client goes at the one moment that `finishOne` does not see. -/
theorem cancelled_never_run {maxInFlight bpTTL : Int} (run : Reach step (· = new maxInFlight bpTTL) Careful st)
    (known : id < st.submitted) (gone : (st.requests id).submitter = .cancelled)
    (later : Reach step (· = st) Careful st') : (st'.requests id).runs = (st.requests id).runs := by
  have followed : (st.view id).Followed := by
    refine run.invariant (I := fun st => (st.view id).Followed) ?_ ?_
    · rintro _ rfl
      exact followed_new maxInFlight bpTTL id
    · intro st op followed careful
      exact followed_step followed op careful
  have after : (st'.view id).Followed ∧ id < st'.submitted ∧ (st'.requests id).submitter = .cancelled ∧
      (st'.requests id).runs = (st.requests id).runs := by
    refine later.invariant (I := fun st' => (st'.view id).Followed ∧ id < st'.submitted ∧
      (st'.requests id).submitter = .cancelled ∧ (st'.requests id).runs = (st.requests id).runs) ?_ ?_
    · rintro _ rfl
      exact ⟨followed, known, gone, rfl⟩
    · rintro st' op ⟨followed, known, gone, runs⟩ careful
      obtain ⟨known', gone', same⟩ := gone_step followed op known gone
      exact ⟨followed_step followed op careful, known', gone', same.trans runs⟩
  exact after.2.2.2

def goesInTime : List PqOp :=
  [.submit 0 "m" 0, .maybePreempt 0 [] 0, .startEligible 0, .arm 0, .submit 5 "m" 1, .maybePreempt 1 [0] 1,
    .execReturns 0 (some .canceled), .reap 0, .cancel 0]

def freesTheSlot : List PqOp :=
  [.settle 2, .startEligible 2, .arm 2, .execReturns 1 none, .reap 1, .examine, .settle 3, .deliver, .startEligible 3]

theorem cancelled_never_run_in_time :
    (((.examine :: freesTheSlot).foldl step (goesInTime.foldl step (new 1 10))).requests 0).runs = 1 := by
  have run : Reach step (· = new 1 10) Careful (goesInTime.foldl step (new 1 10)) := by
    refine foldl (.start ?_) (by decide +kernel)
    rfl
  have later : Reach step (· = goesInTime.foldl step (new 1 10)) Careful
      ((.examine :: freesTheSlot).foldl step (goesInTime.foldl step (new 1 10))) := by
    refine foldl (.start ?_) (by decide +kernel)
    rfl
  exact (cancelled_never_run run (by decide +kernel) (by decide +kernel) later).trans (by decide +kernel)

/-- The same request, whose client goes between the two sections of `finishOne`. -/
def goesTooLate : List PqOp :=
  [.submit 0 "m" 0, .maybePreempt 0 [] 0, .startEligible 0, .arm 0, .submit 5 "m" 1, .maybePreempt 1 [0] 1,
    .execReturns 0 (some .canceled), .reap 0, .examine, .cancel 0]

theorem cancelled_run_again :
    let st := goesTooLate.foldl step (new 1 10)
    let st' := freesTheSlot.foldl step st
    Reach step (· = new 1 10) (fun _ _ => True) st ∧ (st.requests 0).submitter = .cancelled ∧
      (st.requests 0).runs = 1 ∧ Reach step (· = st) (fun _ _ => True) st' ∧ (st'.requests 0).runs = 2 := by
  refine ⟨?_, by decide +kernel, by decide +kernel, ?_, by decide +kernel⟩
  · refine foldl (.start ?_) (allowed_true _ _)
    rfl
  · refine foldl (.start ?_) (allowed_true _ _)
    rfl

end PqScheduler

end LakeKv
