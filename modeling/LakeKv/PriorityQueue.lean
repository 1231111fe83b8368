import LakeKv.FiniteMap
import LakeKv.Runs

namespace LakeKv

/-- The errors that matter to the scheduler: `errPreempted`, `errAbandoned`, `context.Canceled`, and the others that
`exec` can return. -/
inductive PqError
  | preempted
  | abandoned
  | canceled
  | other (text : String)
  deriving DecidableEq, Repr

/-- A context made by `context.WithCancelCause`: its cause, once it is cancelled. -/
structure ExecCtx where
  cause : Option PqError
  deriving DecidableEq, Repr

def ExecCtx.cancel (ctx : ExecCtx) (cause : PqError) : ExecCtx :=
  ⟨ctx.cause.or (some cause)⟩

/-- Where a call of `Submit` is: it has inserted its request, it waits, or it has returned. -/
inductive Submitter
  | inserted
  | waiting
  | answered (err : Option PqError)
  | cancelled
  deriving DecidableEq, Repr

structure PqRequest where
  priority : Int
  seq : Nat
  model : String
  execCtx : Option ExecCtx
  err : Option PqError
  abandoned : Bool
  enqueuedAt : Int
  queueWait : Int
  submitter : Submitter
  /-- All that was ever sent on `done`. -/
  done : List (Option PqError)
  /-- Whether the scheduler has let go of the request because its client had gone. -/
  dropped : Bool
  /-- How often `exec` was started. -/
  runs : Nat

namespace PqRequest

def cancel (r : PqRequest) (cause : PqError) : PqRequest :=
  { r with execCtx := r.execCtx.map fun ctx => ctx.cancel cause }

def cause (r : PqRequest) : Option PqError :=
  r.execCtx.bind ExecCtx.cause

/-- What `finishOne` calls preempted: it did not finish, and its context was cancelled by `errPreempted`. -/
def wasPreempted (r : PqRequest) : Bool :=
  r.err.isSome && r.cause == some .preempted

def start (r : PqRequest) (now : Int) (stopped : Bool) : PqRequest :=
  { r with
    queueWait := now - r.enqueuedAt
    execCtx := some ⟨if stopped then some .canceled else none⟩
    runs := r.runs + 1 }

def finish (r : PqRequest) (err : Option PqError) : PqRequest :=
  { r with err := err }.cancel (err.getD .canceled)

def withdraw (r : PqRequest) : PqRequest :=
  { r with dropped := true, submitter := .cancelled }

def abandon (r : PqRequest) : PqRequest :=
  if r.execCtx.isSome then { r with abandoned := true, submitter := .cancelled }.cancel .abandoned
  else { r with submitter := .cancelled }

def before (r r' : PqRequest) : Prop :=
  r'.priority < r.priority ∨ r.priority = r'.priority ∧ r.seq < r'.seq

instance (r r' : PqRequest) : Decidable (r.before r') :=
  inferInstanceAs (Decidable (_ ∨ _))

end PqRequest

/-- Where the goroutine of `Run` is. The last three are inside `finishOne`: before its first critical section, before
its second one, and before it sends the result. -/
inductive RunPhase
  | starting
  | arming
  | selecting
  | returned
  | examining (id : Nat)
  | settling (id : Nat)
  | delivering (id : Nat)
  deriving DecidableEq, Repr

/-- `PQScheduler`. A request is known by the number of its `Submit`, and `running` and `finished` are the goroutines
that run `exec` and that wait to send on the channel `finished`. -/
structure PqScheduler where
  maxInFlight : Nat
  bpTTL : Int
  submitted : Nat
  requests : Nat → PqRequest
  queue : List Nat
  inFlight : List Nat
  seq : Nat
  bp : Map String Int
  notify : Bool
  expiry : Bool
  waitSamples : List Int
  running : List Nat
  finished : List Nat
  phase : RunPhase
  /-- Whether the context of `Run` is cancelled. -/
  stopped : Bool

/-- The critical sections of `PQScheduler` and what its goroutines do between them. The time is that of the clock,
and `order` is the order in which `range` walks the requests in flight. -/
inductive PqOp
  | submit (priority : Int) (model : String) (now : Int)
  | maybePreempt (id : Nat) (order : List Nat) (now : Int)
  | receive (id : Nat)
  | cancel (id : Nat)
  | setMaxInFlight (n : Int)
  | setBackpressure (model : String) (now : Int)
  | startEligible (now : Int)
  | arm (now : Int)
  | notified
  | expired
  | reap (id : Nat)
  | examine
  | settle (now : Int)
  | deliver
  | execReturns (id : Nat) (err : Option PqError)
  | stop
  | quit

namespace PqScheduler

def blank : PqRequest :=
  ⟨0, 0, "", none, none, false, 0, 0, .inserted, [], false, 0⟩

def new (maxInFlight : Int) (bpTTL : Int) : PqScheduler where
  maxInFlight := if maxInFlight ≤ 0 then 1 else maxInFlight.toNat
  bpTTL := bpTTL
  submitted := 0
  requests _ := blank
  queue := []
  inFlight := []
  seq := 0
  bp := ∅
  notify := false
  expiry := false
  waitSamples := []
  running := []
  finished := []
  phase := .starting
  stopped := false

variable (st : PqScheduler)

def modify (id : Nat) (f : PqRequest → PqRequest) : PqScheduler :=
  { st with requests := Function.update st.requests id (f (st.requests id)) }

def signal : PqScheduler :=
  { st with notify := true }

def underBackpressure (model : String) (now : Int) : Bool :=
  match st.bp.lookup model with
  | none => false
  | some deadline => now < deadline

def sorted (ids : List Nat) : List Nat :=
  ids.insertionSort fun a b => ¬ (st.requests b).before (st.requests a)

def insertLocked (id : Nat) : PqScheduler :=
  { st with queue := st.sorted (st.queue ++ [id]) }

def submit (priority : Int) (model : String) (now : Int) : PqScheduler :=
  let seq := (st.seq + 1) % 2 ^ 64
  let req := { blank with priority := priority, seq := seq, model := model, enqueuedAt := now }
  { st with
    seq := seq
    submitted := st.submitted + 1
    requests := Function.update st.requests st.submitted req }.insertLocked st.submitted

def worse (victim : Option Nat) (r : Nat) : Option Nat :=
  match victim with
  | none => some r
  | some v =>
    if (st.requests r).priority < (st.requests v).priority ∨
        (st.requests r).priority = (st.requests v).priority ∧ (st.requests v).seq < (st.requests r).seq then some r
    else some v

def maybePreempt (newPriority : Int) (model : String) (order : List Nat) (now : Int) : PqScheduler :=
  if st.inFlight.length < st.maxInFlight then st
  else if st.underBackpressure model now then st
  else match order.foldl st.worse none with
    | none => st
    | some v => if (st.requests v).priority < newPriority then st.modify v fun r => r.cancel .preempted else st

def cancelSubmit (id : Nat) : PqScheduler :=
  if st.queue.contains id then
    { st with queue := st.queue.erase id }.modify id PqRequest.withdraw
  else st.modify id PqRequest.abandon

def setMaxInFlight (n : Int) : PqScheduler :=
  { st with maxInFlight := if n ≤ 0 then 1 else n.toNat }.signal

def setBackpressure (model : String) (now : Int) : PqScheduler :=
  { st with bp := st.bp.insert model (now + st.bpTTL) }.signal

def start (id : Nat) (now : Int) : PqScheduler :=
  { st with
    queue := st.queue.erase id
    inFlight := st.inFlight ++ [id]
    running := st.running ++ [id] }.modify id fun r => r.start now st.stopped

def eligible (now : Int) : Option Nat :=
  if st.inFlight.length < st.maxInFlight then
    st.queue.find? fun id => !st.underBackpressure (st.requests id).model now
  else none

def startLoop (now : Int) : Nat → PqScheduler → PqScheduler
  | 0, st => st
  | n + 1, st =>
    match st.eligible now with
    | none => st
    | some id => startLoop now n (st.start id now)

/-- `startEligible`. Every turn takes a request from the queue. -/
def startEligible (now : Int) : PqScheduler :=
  startLoop now st.queue.length st

def examine (id : Nat) : PqScheduler :=
  let left := { st with inFlight := st.inFlight.erase id }
  if (st.requests id).abandoned then
    { left with phase := .starting }.modify id fun r => { r with dropped := true }
  else { left with phase := .settling id }

def sample (wait : Int) : List Int :=
  (if 4096 ≤ st.waitSamples.length then st.waitSamples.drop 1 else st.waitSamples) ++ [wait]

/-- The second critical section of `finishOne`: the request goes back to the queue, or its wait is noted. -/
def settle (id : Nat) (now : Int) : PqScheduler :=
  if (st.requests id).wasPreempted then
    ({ st with phase := .starting }.modify id fun r => { r with enqueuedAt := now }).insertLocked id |>.signal
  else { st with waitSamples := st.sample (st.requests id).queueWait, phase := .delivering id }

def deliver (id : Nat) : PqScheduler :=
  { st with phase := .starting }.modify id fun r => { r with done := r.done ++ [r.err] }

def execReturns (id : Nat) (err : Option PqError) : PqScheduler :=
  { st with running := st.running.erase id, finished := st.finished ++ [id] }.modify id fun r => r.finish err

def step : PqOp → PqScheduler
  | .submit priority model now => st.submit priority model now
  | .maybePreempt id order now =>
    if (st.requests id).submitter = .inserted ∧ id < st.submitted ∧ order.Perm st.inFlight then
      ((st.maybePreempt (st.requests id).priority (st.requests id).model order now).modify id fun r =>
        { r with submitter := .waiting }).signal
    else st
  | .receive id =>
    match (st.requests id).submitter, (st.requests id).done with
    | .waiting, err :: _ => st.modify id fun r => { r with submitter := .answered err }
    | _, _ => st
  | .cancel id => if (st.requests id).submitter = .waiting then st.cancelSubmit id else st
  | .setMaxInFlight n => st.setMaxInFlight n
  | .setBackpressure model now => st.setBackpressure model now
  | .startEligible now =>
    if st.phase = .starting then { st.startEligible now with phase := .arming } else st
  | .arm now =>
    if st.phase = .arming then
      { st with
        expiry := st.queue.any fun id => st.underBackpressure (st.requests id).model now
        phase := .selecting }
    else st
  | .notified => if st.phase = .selecting ∧ st.notify then { st with notify := false, phase := .starting } else st
  | .expired => if st.phase = .selecting ∧ st.expiry then { st with phase := .starting } else st
  | .reap id =>
    if st.phase = .selecting ∧ st.finished.contains id then
      { st with finished := st.finished.erase id, phase := .examining id }
    else st
  | .examine =>
    match st.phase with
    | .examining id => st.examine id
    | _ => st
  | .settle now =>
    match st.phase with
    | .settling id => st.settle id now
    | _ => st
  | .deliver =>
    match st.phase with
    | .delivering id => st.deliver id
    | _ => st
  | .execReturns id err => if st.running.contains id then st.execReturns id err else st
  | .stop => { st with stopped := true, requests := fun id => (st.requests id).cancel .canceled }
  | .quit => if st.phase = .selecting ∧ st.stopped then { st with phase := .returned } else st

end PqScheduler

end LakeKv
