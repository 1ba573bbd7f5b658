import VllmAscend.Sched.Preempting

/-!
# The recompute scheduler between its steps

`add_request` and `update_from_output` of `RecomputeScheduler`, around its
`schedule`. The methods that they inherit from vLLM's `Scheduler` are a
parameter.
-/

namespace VllmAscend.Sched

open Python

structure NodeConfig extends RecomputeScheduler.Config where
  numSpecTokens : Nat := 0
  recomputeKvLoadFailures : Bool := false

/-- `self.requests` has the `registered` requests, which are unfinished, and the `delayed` ones, which are finished
and whose KV is still sent. -/
structure Node extends Queues where
  registered : List RequestId := []
  delayed : List RequestId := []
  recomputedReqs : List RecomputeReqInfo := []

def Node.setRequest (node : Node) (r : RequestId) (req : Request) : Node :=
  { node with requests := Function.update node.requests r req }

structure StepOutput where
  numScheduledTokens : List (RequestId × Int)
  scheduledSpecDecodeTokens : List (RequestId × List Int) := []
  nodup : (numScheduledTokens.map Prod.fst).Nodup

structure KvConnectorOutput where
  invalidBlockIds : List Nat := []

/-- `pooled` are the requests with a pooler output, `rejected` those whose grammar refuses their tokens. -/
structure ModelRunnerOutput where
  sampledTokenIds : RequestId → List Int := fun _ => []
  pooled : RequestId → Bool := fun _ => false
  rejected : RequestId → Bool := fun _ => false
  kvConnectorOutput : Option KvConnectorOutput := none

/-- What vLLM's methods do to the state that is modelled. `ω` is whatever else they look at. -/
structure Vllm (ω : Type) where
  streamingUpdate : Request → Option Nat
  updateRequestAsSession : ω → Request → Nat → Request
  enqueueWaitingRequest : ω → Node → RequestId → Node
  finishRequests : ω → Node → List RequestId → Node
  updateAfterSchedule : ω → Node → List (RequestId × Int) → Node
  handleInvalidBlocks : ω → Node → List Nat → List (RequestId × Int) → Node × List RequestId
  updateRequestWithOutput : ω → Request → List Int → Request × List Int × Bool
  handleStoppedRequest : ω → Node → RequestId → Node × Bool
  freeRequest : ω → Node → RequestId → Node
  updateFromKvXferFinished : ω → Node → KvConnectorOutput → Node

namespace Node

def newRequest (cfg : NodeConfig) (req : Request) : Request :=
  let req := if req.resumable then { req with streamingQueue := some [] } else req
  if cfg.isMtpKvConsumer ∧ req.numTokens + cfg.numSpecTokens ≤ cfg.maxModelLen
  then { req with specTokenIds := List.replicate cfg.numSpecTokens (-1) } else req

section
variable {ω : Type} (vllm : Vllm ω) (cfg : NodeConfig) (o : ω)

def addRequest (node : Node) (r : RequestId) (req : Request) : Except PyError Node :=
  if r ∈ node.registered ∨ r ∈ node.delayed then
    let existing := node.requests r
    let update := vllm.streamingUpdate req
    if existing.status ≠ .waitingForStreamingReq then
      match existing.streamingQueue with
      | none => .error (.assertionError "duplicate request id")
      | some queue => .ok (node.setRequest r { existing with streamingQueue := some (queue ++ [update]) })
    else
      match update with
      | some update => .ok (node.setRequest r (vllm.updateRequestAsSession o existing update))
      | none => .ok (vllm.finishRequests o node [r])
  else
    .ok { vllm.enqueueWaitingRequest o (node.setRequest r (newRequest cfg req)) r with
      registered := node.registered ++ [r] }

def schedule (node : Node) (world : Nat → Answers) : Except PyError (Option Node) := do
  let p ← RecomputeScheduler.schedule cfg.toConfig world node.toQueues
  pure (p.map fun p => vllm.updateAfterSchedule o
    { node with toQueues := p.toQueues, recomputedReqs := p.recomputed } p.numScheduledTokens)

/-! ## The result of a step -/

def minusRejected (n : Nat) (numRejected : Int) : Nat := if 0 < n then (n - numRejected).toNat else n

def dropRejected (output : StepOutput) (result : ModelRunnerOutput) (r : RequestId) (req : Request) : Request :=
  let tokens := result.sampledTokenIds r
  let drafts := (dictGet r output.scheduledSpecDecodeTokens).getD []
  let numRejected : Int := drafts.length - (tokens.length - 1)
  if drafts = [] ∨ tokens = [] then req
  else { req with
    numComputedTokens := minusRejected req.numComputedTokens numRejected
    numOutputPlaceholders := minusRejected req.numOutputPlaceholders numRejected }

def checkStop (result : ModelRunnerOutput) (r : RequestId) (req : Request) : Request × List Int × Bool :=
  let tokens := result.sampledTokenIds r
  if tokens ≠ [] then vllm.updateRequestWithOutput o req tokens
  else if result.pooled r then ({ req with status := .finished }, [], true)
  else (req, [], false)

/-- The request with the tokens of the step, and whether it stops. -/
def takeOutput (output : StepOutput) (result : ModelRunnerOutput) (r : RequestId) (req : Request) : Request × Bool :=
  let (req, tokens, stopped) := checkStop vllm o result r (dropRejected output result r req)
  if tokens ≠ [] ∧ result.rejected r then ({ req with status := .finished, resumable := false }, true)
  else (req, stopped)

structure Stopped where
  node : Node
  running : List RequestId := []
  preempted : List RequestId := []

def stop (acc : Stopped) (r : RequestId) (req : Request) : Stopped :=
  let (node, finished) := vllm.handleStoppedRequest o (acc.node.setRequest r req) r
  let node := if finished then vllm.freeRequest o node r else node
  if (acc.node.requests r).status = .running then { acc with node, running := acc.running ++ [r] }
  else { acc with node, preempted := acc.preempted ++ [r] }

def readRequest (output : StepOutput) (result : ModelRunnerOutput) (failed : List RequestId) (acc : Stopped)
    (item : RequestId × Int) : Except PyError Stopped :=
  let r := item.1
  if item.2 ≤ 0 then .error (.assertionError "")
  else if r ∈ failed ∨ r ∉ acc.node.registered then .ok acc
  else
    let (req, stopped) := takeOutput vllm o output result r (acc.node.requests r)
    if stopped then .ok (stop vllm o acc r req) else .ok { acc with node := acc.node.setRequest r req }

def failedKvLoads (node : Node) (output : StepOutput) (result : ModelRunnerOutput) : Node × List RequestId :=
  match result.kvConnectorOutput with
  | some kv =>
    if kv.invalidBlockIds = [] then (node, [])
    else vllm.handleInvalidBlocks o node kv.invalidBlockIds output.numScheduledTokens
  | none => (node, [])

def finishFailed (node : Node) (failed : List RequestId) : Except PyError Node :=
  if failed = [] ∨ cfg.recomputeKvLoadFailures then .ok node
  else if ∀ r ∈ failed, r ∈ node.registered ∨ r ∈ node.delayed then .ok (vllm.finishRequests o node failed)
  else .error (.keyError "")

def updateFromOutput (node : Node) (output : StepOutput) (result : ModelRunnerOutput) : Except PyError Node := do
  let (node, failed) := node.failedKvLoads vllm o output result
  let acc ← output.numScheduledTokens.foldlM (readRequest vllm o output result failed) { node }
  let node ← finishFailed vllm cfg o { acc.node with
    running := acc.node.running.filter (· ∉ acc.running)
    waiting := acc.node.waiting.filter (· ∉ acc.preempted) } failed
  match result.kvConnectorOutput with
  | some kv => return vllm.updateFromKvXferFinished o node kv
  | none => return node

end

end Node

inductive NodeEvent (ω : Type) where
  | addRequest (o : ω) (r : RequestId) (req : Request)
  | schedule (o : ω) (world : Nat → Answers)
  | updateFromOutput (o : ω) (output : StepOutput) (result : ModelRunnerOutput)

section
variable {ω : Type} (vllm : Vllm ω) (cfg : NodeConfig)

def Node.step? (node : Node) : NodeEvent ω → Option Node
  | .addRequest o r req => (node.addRequest vllm cfg o r req).toOption
  | .schedule o world => (node.schedule vllm cfg o world).toOption.join
  | .updateFromOutput o output result => (node.updateFromOutput vllm cfg o output result).toOption

def Node.step (node : Node) (event : NodeEvent ω) : Node := (node.step? vllm cfg event).getD node

end

end VllmAscend.Sched
