import LakeKv.FiniteMap
import LakeKv.KeyComputer
import LakeKv.TaskLedger

namespace LakeKv

/-! The task-tracking part of the store backend: `copy` and `move` submit one task for each key of a prefix,
`query_task` polls them, `abandon` stops tracking them, and `rebuild` picks the tracking up again from the
ledger after a restart. -/

@[ext]
structure TaskHandle where
  op : OpKind
  taskIds : List TaskId
  deriving DecidableEq, Repr

structure TrackedPlan where
  pre : Prefix
  target : String
  plan : List (String × String)
  handleId : String
  deriving DecidableEq, Repr

structure BackendSite where
  keys : KeyComputer
  upstream : Upstream
  locate : String → Except String (List String)
  /-- Python's `int` on a string. -/
  int : String → Option Int
  /-- How Python prints a list of task numbers. -/
  reprIds : List TaskId → String
  hasAdmin : Bool

/-- The dictionaries of a backend, and the ledger it writes. -/
structure Mooncake where
  plans : Map TaskHandle TrackedPlan
  watch : Map TaskHandle (List TaskId)
  ledger : List TaskRecord

inductive StoreTaskStatus
  | pending
  | processing
  | success
  | failed
  deriving DecidableEq, Repr

structure TaskResp where
  status : StoreTaskStatus
  message : String
  deriving DecidableEq, Repr

structure KeyRow where
  ok : Bool
  error : String
  memory : List String
  deriving DecidableEq, Repr

/-- What the store and the admin port answer during one poll. -/
structure PollAnswers where
  queryTask : TaskId → Except String TaskResp
  batchQueryKeys : List String → Except String (String → Option KeyRow)

inductive PollOutcome
  | running
  | ready
  | failed
  | verifyError (text : String)
  | queryError (text : String)
  | keyError
  | valueError
  deriving DecidableEq, Repr

namespace BackendSite

variable (S : BackendSite)

def recompute (pre : Prefix) (target : String) : Except String (List (String × String)) := do
  let keys ← S.keys.keysForTokens S.upstream pre.tokenIds
  let segs ← S.locate target
  S.keys.buildPlan S.upstream keys segs

def submitPlan (pre : Prefix) (target : String) : Except String (List (String × String)) := do
  let keys ← S.keys.keysForTokens S.upstream pre.tokenIds
  if keys = [] then .error "prefix expands to no keys (shorter than one block?)"
  else do
    let segs ← S.locate target
    S.keys.buildPlan S.upstream keys segs

end BackendSite

def requireAdminRows (keys : List String) (parsed : String → Option KeyRow) : Except String Unit :=
  let missing := keys.filter fun k => (parsed k).isNone
  if missing ≠ [] then .error ("batch_query_keys 短回，缺 key: " ++ ", ".intercalate (missing.take 4))
  else
    let failed := keys.filterMap fun k =>
      match parsed k with
      | some row => if row.ok then none else some (k ++ "(" ++ (if row.error = "" then "ok=false" else row.error) ++ ")")
      | none => none
    if failed ≠ [] then .error ("batch_query_keys 查询失败: " ++ ", ".intercalate (failed.take 4)) else .ok ()

def missingReplicas (U : Upstream) (plan : List (String × String)) (parsed : String → Option KeyRow) : List String :=
  plan.filterMap fun p =>
    let endpoints := ((parsed p.1).map KeyRow.memory).getD []
    if p.2 ∈ endpoints then none
    else
      some (p.1 ++ " missing on " ++ p.2 ++ " (have=" ++
        U.reprList (endpoints.mergeSort fun x y => decide (x ≤ y)) ++ ")")

def verifyMissing (S : BackendSite) (a : PollAnswers) (plan : List (String × String)) : Except String (List String) :=
  if !S.hasAdmin then .error "副本核验需要主线 GET /batch_query_keys，未配置 admin"
  else do
    let parsed ← a.batchQueryKeys (plan.map Prod.fst)
    requireAdminRows (plan.map Prod.fst) parsed
    return missingReplicas S.upstream plan parsed

def TaskResp.isConflict (r : TaskResp) : Bool :=
  r.status = .failed ∧ "OBJECT_HAS_REPLICATION_TASK".toList <:+: r.message.toList

/-- What the answers about the tasks of a handle amount to. -/
inductive TasksSay
  | error (text : String)
  | conflict (ids : List TaskId)
  | failed
  | pending
  | success

/-- The task queries of `query_task` and the tests on their answers. When several queries fail, the source
raises the first to fail in time; here it is the first in the handle. -/
def tasksSay (a : PollAnswers) (taskIds : List TaskId) : TasksSay :=
  match taskIds.mapM a.queryTask with
  | .error e => .error e
  | .ok resps =>
    let failed := resps.filter fun r => r.status = .failed
    if failed ≠ [] then
      let conflicted := ((taskIds.zip resps).filter fun x => x.2.isConflict).map Prod.fst
      if conflicted.length = failed.length then .conflict conflicted else .failed
    else if resps.all fun r => r.status = .success then .success
    else .pending

namespace Mooncake

def record (b : Mooncake) (h : TaskHandle) (status : TaskRowStatus) (tids : List TaskId) : Mooncake :=
  match b.plans.lookup h with
  | none => b
  | some entry =>
    { b with
      ledger := upsertTasks b.ledger (tids.map encodeTaskId) entry.handleId h.op entry.pre entry.target status }

def finish (b : Mooncake) (h : TaskHandle) (status : TaskRowStatus) : Mooncake :=
  let b := b.record h status h.taskIds
  { b with watch := b.watch.erase h, plans := b.plans.erase h }

def conflicts (b : Mooncake) (h : TaskHandle) : List TaskId := (b.watch.lookup h).getD []

def rest (b : Mooncake) (h : TaskHandle) : List TaskId := h.taskIds.filter fun t => !(b.conflicts h).contains t

def enterWatch (b : Mooncake) (h : TaskHandle) (conflicted : List TaskId) : Mooncake :=
  ({ b with watch := b.watch.insert h conflicted } : Mooncake).record h .failed conflicted

/-- The end of tracking in `_verify_watch` and `abandon`: the conflicts keep their rows, the other tasks get
the status given. -/
def settle (b : Mooncake) (h : TaskHandle) (status : TaskRowStatus) : Mooncake :=
  let rest := b.rest h
  let b := { b with watch := b.watch.erase h }
  let b := if rest = [] then b else b.record h status rest
  { b with plans := b.plans.erase h }

def verifyWatch (S : BackendSite) (a : PollAnswers) (b : Mooncake) (h : TaskHandle) (plan : List (String × String)) :
    Mooncake × PollOutcome :=
  match verifyMissing S a plan with
  | .error e => (b, .queryError e)
  | .ok (_ :: _) => (b, .running)
  | .ok [] => if h ∉ b.plans then ({ b with watch := b.watch.erase h }, .ready) else (b.settle h .ready, .ready)

def queryTask (S : BackendSite) (a : PollAnswers) (b : Mooncake) (h : TaskHandle) : Mooncake × PollOutcome :=
  if h.taskIds = [] then (b, .valueError)
  else
    match b.plans.lookup h with
    | none => (b, .keyError)
    | some entry =>
      if h ∈ b.watch then verifyWatch S a b h entry.plan
      else
        match tasksSay a h.taskIds with
        | .error e => (b, .queryError e)
        | .conflict ids => verifyWatch S a (b.enterWatch h ids) h entry.plan
        | .failed => (b.finish h .failed, .failed)
        | .pending => (b, .running)
        | .success =>
          match verifyMissing S a entry.plan with
          | .error e => (b, .queryError e)
          | .ok [] => (b.finish h .ready, .ready)
          | .ok (m :: missing) =>
            (b.finish h .failed,
              .verifyError ("task(s) succeeded but replica verify failed:\n  " ++
                "\n  ".intercalate (m :: missing)))

def queryCut (a : PollAnswers) (b : Mooncake) (h : TaskHandle) : Mooncake :=
  if h.taskIds = [] ∨ h ∉ b.plans ∨ h ∈ b.watch then b
  else
    match tasksSay a h.taskIds with
    | .conflict ids => b.enterWatch h ids
    | _ => b

def abandon (b : Mooncake) (h : TaskHandle) : Option Mooncake :=
  if h ∉ b.plans then none else some (b.settle h .abandoned)

/-- How the submission of the tasks of a copy or a move goes: all calls return, one of them fails, or the
call is cancelled. -/
inductive Submission
  | complete
  | failed (text : String)
  | cancelled
  deriving DecidableEq, Repr

inductive SubmitOutcome
  | handle (h : TaskHandle)
  | submitError (text : String) (handed : Option TaskHandle)
  | raised (text : String)
  | cancelled
  deriving DecidableEq, Repr

def track (b : Mooncake) (h : TaskHandle) (entry : TrackedPlan) : Mooncake :=
  ({ b with plans := b.plans.insert h entry } : Mooncake).record h .running h.taskIds

def partialPlan (plan : List (String × String)) (slots : List (Option TaskId)) : List (String × String) :=
  (plan.zip slots).filterMap fun p => p.2.map fun _ => p.1

/-- What `copy` and `move` do once their calls have ended, with the numbers the calls left in the slots. A
cancelled `copy` gives back the handle of the numbers it has, a cancelled `move` does not. -/
def submitted (S : BackendSite) (b : Mooncake) (op : OpKind) (pre : Prefix) (target : String)
    (plan : List (String × String)) (slots : List (Option TaskId)) (how : Submission) (handleId : String) :
    Mooncake × SubmitOutcome :=
  let taskIds := slots.reduceOption
  let h : TaskHandle := ⟨op, taskIds⟩
  match how with
  | .complete => (b.track h ⟨pre, target, plan, handleId⟩, .handle h)
  | _ =>
    let b := if taskIds = [] then b else b.track h ⟨pre, target, partialPlan plan slots, handleId⟩
    let handed := if taskIds = [] then none else some h
    match how with
    | .failed text =>
      (b, .submitError ((if op = .move then "move" else "copy") ++ " submit failed after " ++
        toString taskIds.length ++ "/" ++ toString plan.length ++ " tasks (submitted ids: " ++ S.reprIds taskIds ++
        "): " ++ text) handed)
    | _ =>
      match op, handed with
      | .copy, some h => (b, .handle h)
      | _, _ => (b, .cancelled)

/-- `copy`; `admitted` is the outcome of `_admit_new_bytes`, and `created` has the numbers the calls return. -/
def copy (S : BackendSite) (b : Mooncake) (pre : Prefix) (target : String)
    (admitted : Except String Unit) (created : Nat → Option TaskId) (how : Submission) (handleId : String) :
    Mooncake × SubmitOutcome :=
  match S.submitPlan pre target with
  | .error e => (b, .raised e)
  | .ok plan =>
    match admitted with
    | .error e => (b, .raised e)
    | .ok () => submitted S b .copy pre target plan ((List.range plan.length).map created) how handleId

def move (S : BackendSite) (b : Mooncake) (pre : Prefix) (target source : String)
    (admitted : Except String Unit) (created : Nat → Option TaskId) (how : Submission) (handleId : String) :
    Mooncake × SubmitOutcome :=
  match S.submitPlan pre target with
  | .error e => (b, .raised e)
  | .ok plan =>
    match S.submitPlan pre source with
    | .error e => (b, .raised e)
    | .ok sourcePlan =>
      match admitted with
      | .error e => (b, .raised e)
      | .ok () =>
        submitted S b .move pre target plan ((List.range (min plan.length sourcePlan.length)).map created) how handleId

structure Restored where
  handle : TaskHandle
  entry : TrackedPlan
  conflicted : List TaskId

def restoreGroup (S : BackendSite) (ledger : List TaskRecord) (handleId : String) (rows : List TaskRecord) :
    Option Restored :=
  match rows with
  | [] => none
  | r0 :: _ =>
    if handleId = "" ∨ (r0.op ≠ .copy ∧ r0.op ≠ .move) ∨ r0.tokenIds = [] then none
    else
      match S.recompute ⟨r0.modelId, r0.tokenIds⟩ r0.target with
      | .error _ => none
      | .ok plan =>
        if plan = [] ∨ (listTasksByHandle ledger handleId).length ≠ plan.length then none
        else
          some {
            handle := ⟨r0.op, rows.map fun r => decodeTaskId S.int r.taskId⟩
            entry := ⟨⟨r0.modelId, r0.tokenIds⟩, r0.target, plan, handleId⟩
            conflicted := ((listTasksByHandle ledger handleId).filter fun r => r.status = .failed).map
              fun r => decodeTaskId S.int r.taskId }

/-- The groups of running rows that `rebuild` restores, in the order in which their first rows stand. -/
def restoredGroups (S : BackendSite) (ledger : List TaskRecord) : List Restored :=
  let running := listRunningTasks ledger
  (running.map TaskRecord.handleId).eraseDups.filterMap fun id =>
    restoreGroup S ledger id (running.filter fun r => r.handleId = id)

def restore (b : Mooncake) (g : Restored) : Mooncake :=
  { b with
    plans := b.plans.insert g.handle g.entry
    watch := if g.conflicted = [] then b.watch else b.watch.insert g.handle g.conflicted }

def rebuild (S : BackendSite) (ledger : List TaskRecord) : Mooncake × List TaskHandle :=
  let groups := restoredGroups S ledger
  (groups.foldl restore ⟨∅, ∅, ledger⟩, groups.map Restored.handle)

end Mooncake

end LakeKv
