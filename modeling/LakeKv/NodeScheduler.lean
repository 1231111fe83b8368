import Mathlib.Algebra.Order.Ring.Int
import Mathlib.Data.List.Basic
import Mathlib.Logic.Function.Basic

namespace LakeKv

namespace NodeScheduler

inductive ModelBackend
  | qwen3
  | mock
  deriving DecidableEq, Repr

/-- `RoleConfig`, as far as the scheduler reads it, with what `__post_init__` checks. -/
structure RoleConfig where
  enableOverlap : Bool := true
  maxRunningReqs : Nat := 8
  maxNumScheduledTokens : Nat := 8192
  longPrefillTokenThreshold : Int := 0
  maxModelLength : Int := 0
  modelBackend : ModelBackend := .qwen3
  running_pos : 0 < maxRunningReqs := by decide
  tokens_pos : 0 < maxNumScheduledTokens := by decide

structure ModelConfig where
  vocabSize : Nat
  bosTokenId : Int
  numHiddenLayers : Nat
  vocab_pos : 0 < vocabSize

structure PrefixHint where
  computedTokens : Int := 0
  localHit : Bool := false
  prebuilt : Bool := false

structure Req where
  promptTokenIds : List Int
  maxNewTokens : Nat
  numComputedTokens : Int := 0
  outputTokenIds : List Int := []
  finished : Bool := false
  finishReason : Option String := none

namespace Req

def promptLen (req : Req) : Int :=
  req.promptTokenIds.length

def numOutputTokens (req : Req) : Nat :=
  req.outputTokenIds.length

def allTokenIds (req : Req) : List Int :=
  req.promptTokenIds ++ req.outputTokenIds

def applyPrefixHint (req : Req) (hint : PrefixHint) : Req :=
  { req with numComputedTokens := min hint.computedTokens req.promptLen }

end Req

def fullLocalHit (hint : PrefixHint) (promptLen : Int) : Bool :=
  0 < promptLen && (hint.prebuilt || (hint.localHit && promptLen ≤ hint.computedTokens))

def mockDecodeTokens (prompt : List Int) (maxNew : Nat) : List Int :=
  (List.range maxNew).map fun (i : Nat) => (prompt.getLastD 0 + i + 1) % 1000 + 1000

def dummyModelToken (model : ModelConfig) (context : List Int) : Int :=
  (context.getLastD model.bosTokenId + context.length + model.numHiddenLayers) % model.vocabSize

def dummyModelLogits (model : ModelConfig) (context : List Int) : List Nat :=
  (List.replicate model.vocabSize 0).set (dummyModelToken model context).toNat 1

def greedyFrom : Nat → Nat → Nat → List Nat → Nat
  | _, bestI, _, [] => bestI
  | i, bestI, bestV, v :: vs =>
    if bestV < v then greedyFrom (i + 1) i v vs else greedyFrom (i + 1) bestI bestV vs

def greedySample (logits : List Nat) : Nat :=
  greedyFrom 0 0 (logits.headD 0) logits

structure Scheduled where
  reqId : String
  numTokens : Int
  computedAt : Int
  queryStart : Int
  queryEnd : Int

structure InputRow where
  reqId : String
  queryStart : Int
  queryEnd : Int
  isPromptPhase : Bool

def prepareRow (req : Req) (it : Scheduled) : InputRow :=
  if it.computedAt < req.promptLen then
    ⟨it.reqId, it.queryStart, min req.promptLen it.queryEnd, true⟩
  else ⟨it.reqId, it.queryStart, it.queryEnd, false⟩

def prepareInputs (items : List Scheduled) (host : String → Option Req) : List InputRow :=
  items.filterMap fun it =>
    if it.numTokens ≤ 0 then none else (host it.reqId).map fun req => prepareRow req it

/-- The sizes of the runner's `InputBuffers`. -/
def maxNumReqs : Nat := 64

def maxNumTokens : Int := 8192

def materializeRows : Int → List InputRow → Except String Int
  | cursor, [] => .ok cursor
  | cursor, row :: rows =>
    if maxNumTokens < cursor + max 0 (row.queryEnd - row.queryStart) then
      .error ("num_tokens=" ++ toString (cursor + max 0 (row.queryEnd - row.queryStart)) ++
        s!" exceeds max_num_tokens={maxNumTokens}")
    else materializeRows (cursor + max 0 (row.queryEnd - row.queryStart)) rows

def materialize (rows : List InputRow) : Except String Int :=
  if maxNumReqs < rows.length then
    .error (s!"num_reqs={rows.length}" ++ s!" exceeds max_num_reqs={maxNumReqs}")
  else materializeRows 0 rows

def generates (rows : List InputRow) (rid : String) : Bool :=
  rows.any fun row => row.reqId == rid && !row.isPromptPhase

def forwardModel (model : ModelConfig) (host : String → Option Req) (rows : List InputRow)
    (rid : String) : List Int :=
  if generates rows rid then
    ((host rid).map fun req => [(greedySample (dummyModelLogits model req.allTokenIds) : Int)]).getD []
  else []

def executeModel (role : RoleConfig) (model : ModelConfig) (ready step : Nat) (items : List Scheduled)
    (host : String → Option Req) : Except String (String → List Int) := do
  unless ready = step do throw s!"ready/output step mismatch: {ready} vs {step}"
  let _ ← materialize (prepareInputs items host)
  match role.modelBackend with
  | .qwen3 => .ok (forwardModel model host (prepareInputs items host))
  | .mock => .ok fun rid => if generates (prepareInputs items host) rid then [0] else []

structure BatchResult where
  items : List Scheduled
  nextTokenIds : String → List Int

structure Scheduler where
  reqs : String → Option Req
  waiting : List String
  running : List String
  stepId : Nat
  mockRemaining : String → List Int
  inflightDecode : String → Int
  resultQueue : List BatchResult

def Scheduler.new : Scheduler :=
  ⟨fun _ => none, [], [], 0, fun _ => [], fun _ => 0, []⟩

namespace Scheduler

def hasWork (s : Scheduler) : Bool :=
  !s.waiting.isEmpty || !s.running.isEmpty || !s.resultQueue.isEmpty

def placeHint (req : Req) : Option PrefixHint → Req
  | none => req
  | some hint =>
    if fullLocalHit hint req.promptLen then
      { req.applyPrefixHint hint with numComputedTokens := req.promptLen }
    else req.applyPrefixHint hint

def mockTokensFor (role : RoleConfig) (req : Req) : List Int :=
  match role.modelBackend with
  | .mock => mockDecodeTokens req.promptTokenIds req.maxNewTokens
  | .qwen3 => []

def addRequest (role : RoleConfig) (s : Scheduler) (rid : String) (req : Req)
    (hint : Option PrefixHint) : Except String Scheduler :=
  if (s.reqs rid).isSome then .error s!"duplicate req_id={rid}"
  else if 0 < role.maxModelLength ∧ role.maxModelLength < req.promptLen + req.maxNewTokens then
    .error ("request length " ++ toString (req.promptLen + req.maxNewTokens) ++
      s!" exceeds max_model_length={role.maxModelLength} " ++
      s!"(prompt={req.promptLen} max_new={req.maxNewTokens})")
  else
    .ok { s with
      reqs := Function.update s.reqs rid (some (placeHint req hint))
      waiting := s.waiting ++ [rid]
      mockRemaining := Function.update s.mockRemaining rid (mockTokensFor role req) }

structure Plan where
  budget : Int
  items : List Scheduled
  inflightDecode : String → Int

/-- The tokens a request has left to generate, those in flight apart. -/
def leftToGenerate (role : RoleConfig) (s : Scheduler) (rid : String) (req : Req) (inflight : Int) :
    Int :=
  match role.modelBackend with
  | .qwen3 => req.maxNewTokens - req.numOutputTokens - inflight
  | .mock => (s.mockRemaining rid).length - inflight

def roomFor (role : RoleConfig) (req : Req) (inflight budget left : Int) : Int :=
  if 0 < role.maxModelLength then role.maxModelLength - (req.numComputedTokens + inflight)
  else budget + left

def addDecode (plan : Plan) (rid : String) (req : Req) (n : Int) : Plan where
  budget := plan.budget - n
  items := plan.items ++ [⟨rid, n, req.numComputedTokens,
    max 0 (req.allTokenIds.length + plan.inflightDecode rid - 1),
    max 0 (req.allTokenIds.length + plan.inflightDecode rid - 1) + n⟩]
  inflightDecode := Function.update plan.inflightDecode rid (plan.inflightDecode rid + n)

def decodeOne (role : RoleConfig) (s : Scheduler) (plan : Plan) (rid : String) : Plan :=
  if plan.budget ≤ 0 then plan
  else match s.reqs rid with
    | none => plan
    | some req =>
      if req.finished ∨ req.numComputedTokens < req.promptLen then plan
      else if leftToGenerate role s rid req (plan.inflightDecode rid) ≤ 0 then plan
      else if roomFor role req (plan.inflightDecode rid) plan.budget
          (leftToGenerate role s rid req (plan.inflightDecode rid)) ≤ 0 then plan
      else
        -- the least of one, left, budget and room, all positive here
        addDecode plan rid req
          (min (min (min 1 (leftToGenerate role s rid req (plan.inflightDecode rid))) plan.budget)
            (roomFor role req (plan.inflightDecode rid) plan.budget
              (leftToGenerate role s rid req (plan.inflightDecode rid))))

def hasUnprocessedPrompt (s : Scheduler) (rid : String) (promptLen : Int) : Bool :=
  s.resultQueue.any fun batch => batch.items.any fun it => it.reqId == rid && it.computedAt < promptLen

/-- A bound that is off when it is not positive. -/
def capBy (cap bound n : Int) : Int :=
  if 0 < cap then min n bound else n

def chunkFor (role : RoleConfig) (req : Req) (budget : Int) : Int :=
  capBy role.maxModelLength (role.maxModelLength - req.numComputedTokens)
    (capBy role.longPrefillTokenThreshold role.longPrefillTokenThreshold
      (min (req.promptLen - req.numComputedTokens) budget))

def extendOne (role : RoleConfig) (s : Scheduler) (plan : Plan) (rid : String) : Plan :=
  if plan.budget ≤ 0 then plan
  else if plan.items.any (·.reqId == rid) then plan
  else match s.reqs rid with
    | none => plan
    | some req =>
      if req.finished ∨ req.promptLen ≤ req.numComputedTokens then plan
      else if s.hasUnprocessedPrompt rid req.promptLen then plan
      else if chunkFor role req plan.budget ≤ 0 then plan
      else
        { plan with
          budget := plan.budget - chunkFor role req plan.budget
          items := plan.items ++ [⟨rid, chunkFor role req plan.budget, req.numComputedTokens,
            req.numComputedTokens, req.numComputedTokens + chunkFor role req plan.budget⟩] }

def fillRunning (role : RoleConfig) (s : Scheduler) : Scheduler :=
  { s with
    stepId := s.stepId + 1
    waiting := s.waiting.drop (role.maxRunningReqs - s.running.length)
    running := s.running ++ s.waiting.take (role.maxRunningReqs - s.running.length) }

def planStep (role : RoleConfig) (s : Scheduler) : Plan :=
  s.running.foldl (extendOne role s)
    (s.running.foldl (decodeOne role s) ⟨role.maxNumScheduledTokens, [], s.inflightDecode⟩)

def schedule (role : RoleConfig) (s : Scheduler) : Scheduler × List Scheduled :=
  ({ s.fillRunning role with
      inflightDecode := ((s.fillRunning role).planStep role).inflightDecode },
    ((s.fillRunning role).planStep role).items)

def totalNumScheduledTokens (items : List Scheduled) : Int :=
  (items.map Scheduled.numTokens).sum

def finishReq (s : Scheduler) (rid : String) : Scheduler :=
  { s with
    running := s.running.erase rid
    inflightDecode := Function.update s.inflightDecode rid 0 }

def closeReq (s : Scheduler) (rid : String) (req : Req) : Scheduler :=
  if req.maxNewTokens ≤ req.numOutputTokens then
    finishReq
      { s with
        reqs := Function.update s.reqs rid
          (some { req with finished := true, finishReason := some "length" }) } rid
  else { s with reqs := Function.update s.reqs rid (some req) }

def appendTokens (req : Req) (tokens : List Int) : Req :=
  { req with
    outputTokenIds := req.outputTokenIds ++ tokens
    numComputedTokens := req.numComputedTokens + tokens.length }

def landDecode (s : Scheduler) (it : Scheduled) : Scheduler :=
  { s with
    inflightDecode := Function.update s.inflightDecode it.reqId
      (max 0 (s.inflightDecode it.reqId - it.numTokens)) }

def processDecode (role : RoleConfig) (s : Scheduler) (it : Scheduled) (req : Req)
    (produced : List Int) : Scheduler :=
  match role.modelBackend with
  | .qwen3 =>
    closeReq (s.landDecode it) it.reqId
      (appendTokens req (produced.take (req.maxNewTokens - req.numOutputTokens)))
  | .mock =>
    closeReq
      { s.landDecode it with
        mockRemaining := Function.update s.mockRemaining it.reqId (s.mockRemaining it.reqId).tail }
      it.reqId (appendTokens req (s.mockRemaining it.reqId).head?.toList)

/-- `_process_batch_result` for one request; `commit_write_extent` refuses a negative extent. -/
def processOne (role : RoleConfig) (tokens : String → List Int) (s : Scheduler) (it : Scheduled) :
    Except String Scheduler :=
  match s.reqs it.reqId with
  | none => .ok s
  | some req =>
    if it.computedAt < req.promptLen then
      if min req.promptLen (it.computedAt + it.numTokens) < 0 then
        .error ("INVALID_ARG: token_end must be >=0: " ++
          toString (min req.promptLen (it.computedAt + it.numTokens)))
      else
        .ok { s with
          reqs := Function.update s.reqs it.reqId
            (some { req with numComputedTokens := min req.promptLen (it.computedAt + it.numTokens) }) }
    else .ok (processDecode role s it req (tokens it.reqId))

def processBatchResult (role : RoleConfig) (s : Scheduler) (batch : BatchResult) :
    Except String Scheduler :=
  batch.items.foldlM (processOne role batch.nextTokenIds) s

def popAndProcess (role : RoleConfig) (s : Scheduler) : Except String Scheduler :=
  match s.resultQueue with
  | [] => .ok s
  | batch :: rest => processBatchResult role { s with resultQueue := rest } batch

def drainFrom (role : RoleConfig) : List BatchResult → Scheduler → Except String Scheduler
  | [], s => .ok s
  | batch :: rest, s => do
    let s ← processBatchResult role { s with resultQueue := rest } batch
    drainFrom role rest s

def drainResults (role : RoleConfig) (s : Scheduler) : Except String Scheduler :=
  drainFrom role s.resultQueue s

section Loops

variable (role : RoleConfig) (model : ModelConfig)

/-- The pool's handle for a step carries the number of that step. -/
def runBatch (s : Scheduler) (items : List Scheduled) : Except String Scheduler := do
  let tokens ← executeModel role model s.stepId s.stepId items s.reqs
  .ok { s with resultQueue := s.resultQueue ++ [⟨items, tokens⟩] }

def turnNormal (s : Scheduler) : Except String Scheduler :=
  if !s.hasWork then .ok s
  else if totalNumScheduledTokens (s.schedule role).2 = 0 then
    (s.schedule role).1.drainResults role
  else do
    let s ← runBatch role model (s.schedule role).1 (s.schedule role).2
    s.popAndProcess role

/-- One turn of `_event_loop_overlap`: the batch before is processed after this one has run. -/
def turnOverlap (s : Scheduler) : Except String Scheduler :=
  if totalNumScheduledTokens (s.schedule role).2 = 0 then
    (s.schedule role).1.drainResults role
  else do
    let s ← runBatch role model (s.schedule role).1 (s.schedule role).2
    if 1 < s.resultQueue.length then s.popAndProcess role else .ok s

def turn (s : Scheduler) : Except String Scheduler :=
  if role.enableOverlap then turnOverlap role model s else turnNormal role model s

def turns : Nat → Scheduler → Except String Scheduler
  | 0, s => .ok s
  | n + 1, s => do
    let s ← turn role model s
    turns n s

end Loops

end Scheduler

end NodeScheduler

end LakeKv
