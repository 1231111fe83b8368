import LakeKv.Runs
import Mathlib.Data.List.ReduceOption
import Mathlib.Logic.Function.Basic

namespace LakeKv

inductive WorkerState
  | idle
  | boot
  | warm
  | ready
  | serving
  | drain
  | terminate
  deriving DecidableEq, Repr

def WorkerState.acceptsNewRequests : WorkerState → Bool
  | ready => true
  | serving => true
  | _ => false

inductive EngineError
  | duplicate (reqId : String)
  | raised (text : String)
  | stopped
  deriving DecidableEq, Repr

structure Inbound (ρ : Type) where
  done : Bool
  error : List EngineError
  result : List ρ
  deriving DecidableEq, Repr

namespace Inbound

variable {ρ : Type}

def empty : Inbound ρ :=
  ⟨false, [], []⟩

def fail (x : Inbound ρ) (e : EngineError) : Inbound ρ :=
  { x with error := x.error ++ [e], done := true }

def succeed (x : Inbound ρ) (req : ρ) : Inbound ρ :=
  { x with result := x.result ++ [req], done := true }

def failUnlessDone (x : Inbound ρ) (e : EngineError) : Inbound ρ :=
  if x.done then x else x.fail e

def Answered (x : Inbound ρ) : Prop :=
  x.done = true ∧ (x.error.length = 1 ∧ x.result = [] ∨ x.error = [] ∧ x.result.length = 1)

end Inbound

/-- Where a `submit` call stands: before the lock, inside it (before the test of `_stop`, before the
test of the state, before the put), waiting, or over. -/
inductive SubmitPc
  | fresh
  | locked
  | running
  | accepted
  | waiting
  | raised
  | returned
  deriving DecidableEq, Repr

inductive StopPc
  | fresh
  | locked
  | draining
  | flagged
  | joining
  | finished
  deriving DecidableEq, Repr

inductive Holder
  | submit (i : Nat)
  | stop (j : Nat)
  deriving DecidableEq, Repr

inductive DrainedTo
  | top
  | sentinel
  | coalesce
  | stepping
  deriving DecidableEq, Repr

/-- What the clean-up belongs to: the handler of an exception, or the end of the loop, and whether
that was reached through the handler. -/
inductive CleanUp
  | crash
  | final (crashed : Bool)
  deriving DecidableEq, Repr

inductive LoopPc (ρ : Type)
  | unlaunched
  | test
  | drain (k : DrainedTo)
  | sentinel (k : DrainedTo)
  | register (i : Nat) (k : DrainedTo)
  | add (i : Nat) (k : DrainedTo)
  | unadd (i : Nat) (e : EngineError) (k : DrainedTo)
  | answer (i : Nat) (e : EngineError) (k : DrainedTo)
  | hasWork
  | idle
  | sentinelExit
  | requeue (i : Nat)
  | coalesce
  | stepping
  | finish (req : ρ)
  | deliver (i : Nat) (req : ρ)
  | fail (e : EngineError) (p : CleanUp)
  | failItems (e : EngineError) (items : List Nat) (p : CleanUp)
  | reject (e : EngineError) (p : CleanUp)
  | rejectItem (i : Nat) (e : EngineError) (p : CleanUp)
  | setStop
  | exited
  deriving DecidableEq, Repr

def DrainedTo.next {ρ : Type} : DrainedTo → LoopPc ρ
  | top => .hasWork
  | sentinel => .sentinelExit
  | coalesce => .coalesce
  | stepping => .stepping

/-- What the scheduler does next inside `run_until_idle`. -/
inductive SchedEvent (ρ : Type)
  | beforeSchedule
  | finished (req : ρ)
  | raised (text : String)
  | returned
  deriving DecidableEq, Repr

/-- What the scheduler and the clock decide at a step of the loop thread. -/
structure LoopChoice (ρ : Type) where
  hasReq : Bool
  hasWork : Bool
  addFails : Option String
  coalesces : Bool
  event : SchedEvent ρ
  released : Option ρ

/-- A worker with its calls; the `i`-th `submit` call has the `i`-th request. -/
structure Worker (ρ : Type) where
  inbound : List (Option Nat)
  inflight : List (String × Nat)
  lock : Option Holder
  stopSet : Bool
  started : Bool
  life : WorkerState
  pc : LoopPc ρ
  submits : Nat → SubmitPc
  stops : Nat → StopPc
  items : Nat → Inbound ρ

namespace Worker

variable {ρ : Type}

def new : Worker ρ :=
  ⟨[], [], none, false, false, .idle, .unlaunched, fun _ => .fresh, fun _ => .fresh, fun _ => .empty⟩

def setItem (s : Worker ρ) (i : Nat) (x : Inbound ρ) : Worker ρ :=
  { s with items := Function.update s.items i x }

def setSubmit (s : Worker ρ) (i : Nat) (pc : SubmitPc) : Worker ρ :=
  { s with submits := Function.update s.submits i pc }

def setStops (s : Worker ρ) (j : Nat) (pc : StopPc) : Worker ρ :=
  { s with stops := Function.update s.stops j pc }

def start (s : Worker ρ) (loads : Bool) : Worker ρ :=
  if s.lock.isSome ∨ s.started ∨ s.life ≠ .idle then s
  else if loads then { s with started := true, life := .serving }
  else { s with life := .warm }

def launch (s : Worker ρ) : Worker ρ :=
  match s.pc, s.started with
  | .unlaunched, true => { s with pc := .test }
  | _, _ => s

/-- The next step of the `i`-th `submit` call. The put and the end of the lock section are one step. -/
def submit (s : Worker ρ) (i : Nat) : Worker ρ :=
  match s.submits i with
  | .fresh => if s.lock.isSome then s else { s with lock := some (.submit i) }.setSubmit i .locked
  | .locked =>
    if s.stopSet ∨ s.started = false then { s with lock := none }.setSubmit i .raised
    else s.setSubmit i .running
  | .running =>
    if s.life.acceptsNewRequests then s.setSubmit i .accepted
    else { s with lock := none }.setSubmit i .raised
  | .accepted => { s with inbound := s.inbound ++ [some i], lock := none }.setSubmit i .waiting
  | .waiting => if (s.items i).done then s.setSubmit i .returned else s
  | .raised => s
  | .returned => s

/-- The next step of the `j`-th `stop` call; `joined` says whether the loop thread ended in time. -/
def stop (s : Worker ρ) (j : Nat) (joined : Bool) : Worker ρ :=
  match s.stops j with
  | .fresh => if s.lock.isSome then s else { s with lock := some (.stop j) }.setStops j .locked
  | .locked =>
    if s.life = .terminate then { s with lock := none }.setStops j .finished
    else if s.started = false then { s with life := .terminate, lock := none }.setStops j .finished
    else if s.stopSet then { s with lock := none }.setStops j .joining
    else { s with life := .drain }.setStops j .draining
  | .draining => { s with stopSet := true }.setStops j .flagged
  | .flagged => { s with inbound := s.inbound ++ [none], lock := none }.setStops j .joining
  | .joining =>
    match joined, s.pc with
    | true, .exited => { s with life := .terminate }.setStops j .finished
    | true, _ => s
    | false, _ => s.setStops j .finished
  | .finished => s

section Loop

variable (reqId : ρ → String) (req : Nat → ρ)

/-- The next step of the loop thread. A step that needs the lock waits while another thread has it. -/
def loop (s : Worker ρ) (c : LoopChoice ρ) : Worker ρ :=
  match s.pc with
  | .unlaunched => s
  | .test => { s with pc := if s.stopSet then .reject .stopped (.final false) else .drain .top }
  -- `_drain_inbound`
  | .drain k =>
    match s.inbound with
    | [] => { s with pc := k.next }
    | none :: rest => { s with inbound := rest, pc := .sentinel k }
    | some i :: rest => { s with inbound := rest, pc := .register i k }
  | .sentinel k => { s with pc := if s.stopSet then k.next else .drain k }
  | .register i k =>
    if s.lock.isSome then s
    else if (s.inflight.lookup (reqId (req i))).isSome ∨ c.hasReq then
      { s.setItem i ((s.items i).fail (.duplicate (reqId (req i)))) with pc := .drain k }
    else { s with inflight := s.inflight ++ [(reqId (req i), i)], pc := .add i k }
  | .add i k =>
    match c.addFails with
    | none => { s with pc := .drain k }
    | some text => { s with pc := .unadd i (.raised text) k }
  | .unadd i e k =>
    if s.lock.isSome then s
    else { s with inflight := s.inflight.filter fun p => p.1 ≠ reqId (req i), pc := .answer i e k }
  | .answer i e k => { s.setItem i ((s.items i).fail e) with pc := .drain k }
  -- `_loop`
  | .hasWork => { s with pc := if c.hasWork then .coalesce else .idle }
  | .idle =>
    match s.inbound with
    | [] => { s with pc := .test }
    | none :: rest => { s with inbound := rest, pc := .drain .sentinel }
    | some i :: rest => { s with inbound := rest, pc := .requeue i }
  | .sentinelExit =>
    { s with pc := if s.stopSet ∧ c.hasWork = false then .reject .stopped (.final false) else .test }
  | .requeue i => { s with inbound := s.inbound ++ [some i], pc := .test }
  | .coalesce => { s with pc := if c.coalesces then .drain .coalesce else .stepping }
  -- `run_until_idle` and its callbacks
  | .stepping =>
    match c.event with
    | .beforeSchedule => { s with pc := .drain .stepping }
    | .finished req => { s with pc := .finish req }
    | .raised text => { s with pc := .fail (.raised text) .crash }
    | .returned => { s with pc := .test }
  | .finish req =>
    if s.lock.isSome then s
    else match s.inflight.lookup (reqId req) with
      | none => { s with pc := .stepping }
      | some i => { s with
          inflight := s.inflight.filter fun p => p.1 ≠ reqId req, pc := .deliver i req }
  | .deliver i req => { s.setItem i ((s.items i).succeed (c.released.getD req)) with pc := .stepping }
  -- `_fail_inflight` and `_reject_inbound`
  | .fail e p =>
    if s.lock.isSome then s
    else { s with inflight := [], pc := .failItems e (s.inflight.map Prod.snd) p }
  | .failItems e (i :: items) p =>
    { s.setItem i ((s.items i).failUnlessDone e) with pc := .failItems e items p }
  | .failItems e [] p => { s with pc := if p = .crash then .reject e p else .exited }
  | .reject e p =>
    match s.inbound with
    | none :: rest => { s with inbound := rest }
    | some i :: rest => { s with inbound := rest, pc := .rejectItem i e p }
    | [] => { s with pc :=
        if p = .crash then .setStop else if s.inflight = [] then .exited else .fail e p }
  | .rejectItem i e p => { s.setItem i ((s.items i).failUnlessDone e) with pc := .reject e p }
  | .setStop => { s with stopSet := true, pc := .reject .stopped (.final true) }
  | .exited => s

end Loop

end Worker

inductive WorkerMove (ρ : Type)
  | start (loads : Bool)
  | launch
  | submit (i : Nat)
  | stop (j : Nat) (joined : Bool)
  | loop (c : LoopChoice ρ)

def Worker.step {ρ : Type} (reqId : ρ → String) (req : Nat → ρ) (s : Worker ρ) : WorkerMove ρ → Worker ρ
  | .start loads => s.start loads
  | .launch => s.launch
  | .submit i => s.submit i
  | .stop j joined => s.stop j joined
  | .loop c => s.loop reqId req c

end LakeKv
