import LakeKv.Runs
import Mathlib.Data.List.Basic
import Mathlib.Logic.Function.Basic

namespace LakeKv

inductive IntentStatus
  | pending
  | ready
  | failed
  deriving DecidableEq, Repr

/-- `_IntentRecord`; `args` are the prefix, the target and the times of the call. -/
structure IntentRecord (α : Type) where
  args : α
  status : IntentStatus
  detail : String
  queued : Bool
  deriving DecidableEq, Repr

structure Finished where
  status : IntentStatus
  detail : String
  deriving DecidableEq, Repr

/-- How `_run_prefetch` ends: normally, with one of the errors of an intent, with any other error, or
cancelled. -/
inductive PrefetchOutcome
  | success
  | expected (text : String)
  | programming (text : String)
  | cancelled
  deriving DecidableEq, Repr

/-- Where a `submit_intent` call stands: before its test of `_accepting`, before the `setdefault`, before
the `call_soon_threadsafe`, or over. -/
inductive SubmitIntentPc
  | fresh
  | checked
  | inserted
  | returned
  | raised
  deriving DecidableEq, Repr

/-- Where a consumer stands: in `_queue.get()`, in `_run_prefetch`, in what follows it, or over. -/
inductive ConsumerPc
  | waiting
  | executing (r : Nat)
  | settling
  | ended
  deriving DecidableEq, Repr

inductive ShutdownPc
  | fresh
  | waiting
  | sweeping
  | done
  deriving DecidableEq, Repr

inductive DrainThen
  | dies (c : Nat)
  | shutdown (j : Nat)
  deriving DecidableEq, Repr

inductive FinishThen
  | callback
  | succeeded (c : Nat)
  | failed (c : Nat)
  | cancelled (c : Nat)
  | blamed (c : Nat)
  | drain (k : DrainThen)
  | sweep (rest : List Nat) (j : Nat)
  deriving DecidableEq, Repr

/-- Where `_finish` stands: before its tests, before the receipt is written, before the oldest receipts are
thrown out, before the record leaves the table. -/
inductive FinishStage
  | check
  | receipt
  | trim
  | drop
  deriving DecidableEq, Repr

/-- What the event loop is in the middle of, where other threads may come between. -/
inductive EventLoop (α : Type)
  | idle
  | admitMissing (a : α)
  | finish (stage : FinishStage) (r : Nat) (status : IntentStatus) (detail : String) (k : FinishThen)
  | resume (k : FinishThen)
  | drain (k : DrainThen)
  | sweep (rest : List Nat) (j : Nat)
  deriving DecidableEq, Repr

structure EngineConfig where
  consumerCount : Nat
  queueSize : Nat
  finishedMax : Nat
  consumers_pos : 0 < consumerCount

/-- A started `TaskEngine` with the calls made on it. A record is known by its number: those below `next` have
been in the table. `log` has the ids in the order of their receipts, the newest first; the source does not
keep it. -/
structure TaskEngine (α : Type) where
  heap : Nat → IntentRecord α
  next : Nat
  records : List (String × Nat)
  finished : List (String × Finished)
  queue : List Nat
  callbacks : List α
  accepting : Bool
  programmingErrors : Nat
  loop : EventLoop α
  consumers : Nat → ConsumerPc
  cancelling : Nat → Bool
  submits : Nat → SubmitIntentPc
  shutdowns : Nat → ShutdownPc
  log : List String

/-- The steps of the threads and of the event loop. -/
inductive EngineMove
  | submitIntent (i : Nat)
  | callback
  | take (c : Nat)
  | dismiss (c : Nat)
  | outcome (c : Nat) (o : PrefetchOutcome)
  | shutdown (j : Nat)
  | loop
  deriving DecidableEq, Repr

def neverStarted : String :=
  "cancelled (shutdown, never started)"

def clipDetail (text : String) : String :=
  String.ofList (text.toList.take 500)

namespace TaskEngine

variable {α : Type}

def Started (s : TaskEngine α) : Prop :=
  s.next = 0 ∧ s.records = [] ∧ s.finished = [] ∧ s.queue = [] ∧ s.callbacks = [] ∧ s.accepting = true ∧
    s.programmingErrors = 0 ∧ s.loop = .idle ∧ s.log = [] ∧ (∀ c, s.consumers c = .waiting) ∧
      (∀ c, s.cancelling c = false) ∧ (∀ i, s.submits i = .fresh) ∧ ∀ j, s.shutdowns j = .fresh

def setSubmit (s : TaskEngine α) (i : Nat) (pc : SubmitIntentPc) : TaskEngine α :=
  { s with submits := Function.update s.submits i pc }

def setConsumer (s : TaskEngine α) (c : Nat) (pc : ConsumerPc) : TaskEngine α :=
  { s with consumers := Function.update s.consumers c pc }

def setShutdown (s : TaskEngine α) (j : Nat) (pc : ShutdownPc) : TaskEngine α :=
  { s with shutdowns := Function.update s.shutdowns j pc }

def setRecord (s : TaskEngine α) (r : Nat) (rec : IntentRecord α) : TaskEngine α :=
  { s with heap := Function.update s.heap r rec }

section Calls

variable (cfg : EngineConfig) (intentId : α → String) (args : Nat → α)

def install (s : TaskEngine α) (a : α) (queued : Bool) : TaskEngine α :=
  { s.setRecord s.next ⟨a, .pending, "", queued⟩ with
    next := s.next + 1, records := s.records ++ [(intentId a, s.next)] }

def submitIntent (s : TaskEngine α) (i : Nat) : TaskEngine α :=
  match s.submits i with
  | .fresh => s.setSubmit i (if s.accepting then .checked else .raised)
  | .checked =>
    match s.records.lookup (intentId (args i)) with
    | some _ => s.setSubmit i .returned
    | none => (s.install intentId (args i) false).setSubmit i .inserted
  | .inserted => { s with callbacks := s.callbacks ++ [args i] }.setSubmit i .returned
  | .returned => s
  | .raised => s

def putNowait (s : TaskEngine α) (r : Nat) : TaskEngine α :=
  if cfg.queueSize ≠ 0 ∧ cfg.queueSize ≤ s.queue.length then
    { s with loop := .finish .check r .failed "rejected (queue full)" .callback }
  else { s with queue := s.queue ++ [r], loop := .idle }

def admitIntent (s : TaskEngine α) (a : α) : TaskEngine α :=
  match s.records.lookup (intentId a) with
  | none => { s with loop := .admitMissing a }
  | some r =>
    if s.accepting then
      if (s.heap r).queued then s
      else putNowait cfg (s.setRecord r { s.heap r with queued := true }) r
    else if (s.heap r).queued ∨ (s.heap r).status ≠ .pending then s
    else { s with loop := .finish .check r .failed neverStarted .callback }

def admitMissing (s : TaskEngine α) (a : α) : TaskEngine α :=
  match s.records.lookup (intentId a) with
  | some _ => { s with loop := .idle }
  | none =>
    if s.accepting then putNowait cfg (s.install intentId a true) s.next
    else { s.install intentId a false with loop := .finish .check s.next .failed neverStarted .callback }

/-- The next step of `_finish`. Only the event loop looks at the order of the receipts, so the move of a receipt
to the end is one step with its writing. -/
def finish (s : TaskEngine α) (stage : FinishStage) (r : Nat) (status : IntentStatus) (detail : String)
    (k : FinishThen) : TaskEngine α :=
  let id := intentId (s.heap r).args
  match stage with
  | .check =>
    if s.records.lookup id = some r ∧ (s.heap r).status = .pending then
      { s.setRecord r { s.heap r with status := status, detail := detail } with
        loop := .finish .receipt r status detail k }
    else { s with loop := .resume k }
  | .receipt =>
    { s with
      finished := (s.finished.filter fun p => p.1 ≠ id) ++ [(id, ⟨status, detail⟩)]
      log := id :: s.log
      loop := .finish .trim r status detail k }
  | .trim =>
    if max 1 cfg.finishedMax < s.finished.length then { s with finished := s.finished.tail }
    else { s with loop := .finish .drop r status detail k }
  | .drop => { s with records := s.records.filter fun p => p.1 ≠ id, loop := .resume k }

def resume (s : TaskEngine α) : FinishThen → TaskEngine α
  | .callback => { s with loop := .idle }
  | .succeeded c => { s with programmingErrors := 0, loop := .idle }.setConsumer c .waiting
  | .failed c => { s with loop := .idle }.setConsumer c .waiting
  | .cancelled c => { s with loop := .idle }.setConsumer c .ended
  | .blamed c =>
    if 3 ≤ s.programmingErrors + 1 ∨ ∀ c' < cfg.consumerCount, c' ≠ c → s.consumers c' = .ended then
      { s with programmingErrors := s.programmingErrors + 1, accepting := false, loop := .drain (.dies c) }
    else { s with programmingErrors := s.programmingErrors + 1, loop := .idle }.setConsumer c .ended
  | .drain k => { s with loop := .drain k }
  | .sweep rest j => { s with loop := .sweep rest j }

def failNeverStarted (s : TaskEngine α) (k : DrainThen) : TaskEngine α :=
  match s.queue with
  | r :: rest => { s with queue := rest, loop := .finish .check r .failed neverStarted (.drain k) }
  | [] =>
    match k with
    | .dies c => { s with loop := .idle }.setConsumer c .ended
    | .shutdown j => { s with loop := .sweep (s.records.map Prod.snd) j }

def sweep (s : TaskEngine α) (rest : List Nat) (j : Nat) : TaskEngine α :=
  match rest with
  | [] => { s with loop := .idle }.setShutdown j .done
  | r :: rest =>
    if (s.heap r).status = .pending ∧ (s.heap r).queued = false then
      { s with loop := .finish .check r .failed neverStarted (.sweep rest j) }
    else { s with loop := .sweep rest j }

def advance (s : TaskEngine α) : TaskEngine α :=
  match s.loop with
  | .idle => s
  | .admitMissing a => s.admitMissing cfg intentId a
  | .finish stage r status detail k => s.finish cfg intentId stage r status detail k
  | .resume k => s.resume cfg k
  | .drain k => s.failNeverStarted k
  | .sweep rest j => s.sweep rest j

def take (s : TaskEngine α) (c : Nat) : TaskEngine α :=
  match s.consumers c, s.cancelling c, s.queue with
  | .waiting, false, r :: rest => { s with queue := rest }.setConsumer c (.executing r)
  | _, _, _ => s

def dismiss (s : TaskEngine α) (c : Nat) : TaskEngine α :=
  match s.consumers c, s.cancelling c with
  | .waiting, true => s.setConsumer c .ended
  | _, _ => s

/-- `_run_prefetch` of a consumer is over. Only a consumer that `shutdown` has cancelled ends cancelled; what it
does with the cancellation otherwise is left open. -/
def outcome (s : TaskEngine α) (c : Nat) (o : PrefetchOutcome) : TaskEngine α :=
  match s.consumers c with
  | .executing r =>
    let s' := { s with cancelling := Function.update s.cancelling c false }.setConsumer c .settling
    match o with
    | .success => { s' with loop := .finish .check r .ready "" (.succeeded c) }
    | .expected text =>
      { s' with programmingErrors := 0, loop := .finish .check r .failed (clipDetail text) (.failed c) }
    | .programming text => { s' with loop := .finish .check r .failed (clipDetail text) (.blamed c) }
    | .cancelled =>
      if s.cancelling c then { s' with loop := .finish .check r .failed "cancelled (shutdown)" (.cancelled c) }
      else s
  | _ => s

def shutdown (s : TaskEngine α) (j : Nat) : TaskEngine α :=
  match s.shutdowns j with
  | .fresh => { s with accepting := false, cancelling := fun _ => true }.setShutdown j .waiting
  | .waiting =>
    if ∀ c < cfg.consumerCount, s.consumers c = .ended then
      { s with loop := .drain (.shutdown j) }.setShutdown j .sweeping
    else s
  | .sweeping => s
  | .done => s

def step (s : TaskEngine α) (m : EngineMove) : TaskEngine α :=
  match m, s.loop with
  | .submitIntent i, _ => s.submitIntent intentId args i
  | .loop, _ => s.advance cfg intentId
  | .callback, .idle =>
    match s.callbacks with
    | a :: rest => { s with callbacks := rest }.admitIntent cfg intentId a
    | [] => s
  | .take c, .idle => if c < cfg.consumerCount then s.take c else s
  | .dismiss c, .idle => if c < cfg.consumerCount then s.dismiss c else s
  | .outcome c o, .idle => if c < cfg.consumerCount then s.outcome c o else s
  | .shutdown j, .idle => s.shutdown cfg j
  | _, _ => s

end Calls

def intentStatus (first second : TaskEngine α) (id : String) : Option IntentStatus :=
  match first.records.lookup id with
  | some r => some (second.heap r).status
  | none => (second.finished.lookup id).map Finished.status

end TaskEngine

end LakeKv
