import Mathlib.Data.List.Sort
import Mathlib.Data.Prod.Lex
import VllmAscend.Lib.Python
import VllmAscend.Lib.Run

/-!
# One pass of a scheduler

What the three schedulers of the repository share: the requests and their
queues, the local variables of `schedule`, and the two loops over the running
and the waiting requests.
-/

namespace VllmAscend.Sched

open Python Run

abbrev RequestId := Nat

inductive RequestStatus where
  | waiting
  | waitingForStructuredOutput
  | waitingForRemoteKvs
  | waitingForStreamingReq
  | running
  | preempted
  | finished
deriving DecidableEq

def RequestStatus.blocked : RequestStatus → Bool
  | .waitingForStructuredOutput | .waitingForRemoteKvs | .waitingForStreamingReq => true
  | _ => false

/-- `streamingQueue` has the early input chunks by their number of tokens, `none` for the end of the session. -/
structure Request where
  status : RequestStatus := .waiting
  priority : Int := 0
  arrivalTime : ℚ := 0
  numPromptTokens : Nat := 0
  numTokens : Nat := 0
  maxTokens : Nat := 0
  numComputedTokens : Nat := 0
  numOutputPlaceholders : Nat := 0
  numPreemptions : Nat := 0
  specTokenIds : List Int := []
  outputTokenIds : List Int := []
  hasEncoderInputs : Bool := false
  lora : Option Nat := none
  clientIndex : Nat := 0
  resumable : Bool := false
  streamingQueue : Option (List (Option Nat)) := none

namespace Request

def numTokensWithSpec (req : Request) : Nat := req.numTokens + req.specTokenIds.length

def preempt (req : Request) : Request :=
  { req with status := .preempted, numComputedTokens := 0, specTokenIds := [],
             numPreemptions := req.numPreemptions + 1 }

end Request

/-! ## Queues -/

inductive SchedulingPolicy where
  | fcfs
  | priority
deriving DecidableEq

inductive QueueName where
  | waiting
  | skippedWaiting
deriving DecidableEq

def earlier (requests : RequestId → Request) (r r' : RequestId) : Prop :=
  toLex ((requests r).priority, toLex ((requests r).arrivalTime, r)) ≤
    toLex ((requests r').priority, toLex ((requests r').arrivalTime, r'))

instance (requests : RequestId → Request) : DecidableRel (earlier requests) :=
  fun r r' => inferInstanceAs (Decidable (toLex (_, toLex (_, r)) ≤ toLex (_, toLex (_, r'))))

def prependRequest (policy : SchedulingPolicy) (requests : RequestId → Request) (queue : List RequestId)
    (r : RequestId) : List RequestId :=
  match policy with
  | .fcfs => r :: queue
  | .priority => queue.orderedInsert (earlier requests) r

def prependRequests (policy : SchedulingPolicy) (requests : RequestId → Request) (queue others : List RequestId) :
    List RequestId :=
  others.foldl (prependRequest policy requests) queue

/-! ## The outside -/

structure EncoderPlan where
  inputs : List Nat := []
  externalInputs : List Nat := []
  budget : Int

structure Answers where
  allocateSlots : RequestId → Int → Option (List Nat)
  getBlocks : RequestId → List Nat := fun _ => []
  pickVictim : List RequestId → RequestId
  updateStateBeforePreempt : RequestId → Bool := fun _ => false
  tryScheduleEncoderInputs : RequestId → Int → Int → Int × EncoderPlan := fun _ n budget => (n, ⟨[], [], budget⟩)
  mambaBlockAlignedSplit : RequestId → Int → Int := fun _ n => n
  predictChunkSize : Nat → Option Int := fun _ => none
  predictTime : Int → Nat → ℚ := fun _ _ => 0
  selectQueue : List RequestId → List RequestId → QueueName
  grammar : RequestId → Bool := fun _ => false
  tryPromote : Request → Option Request := fun _ => none
  getComputedBlocks : RequestId → Nat := fun _ => 0
  getNumNewMatchedTokens : RequestId → Nat → Option Nat × Bool := fun _ _ => (some 0, false)
  pickVictim_mem : ∀ running, running ≠ [] → pickVictim running ∈ running
  selectQueue_nonempty : ∀ waiting skipped, waiting ≠ [] ∨ skipped ≠ [] →
    (match selectQueue waiting skipped with | .waiting => waiting | .skippedWaiting => skipped) ≠ []

/-! ## The state of a pass -/

inductive PauseState where
  | unpaused
  | pausedNew
  | pausedAll
deriving DecidableEq

structure SchedulerConfig where
  policy : SchedulingPolicy := .fcfs
  maxNumScheduledTokens : Nat
  maxNumRunningReqs : Nat
  maxModelLen : Nat
  longPrefillTokenThreshold : Nat := 0
  enableChunkedPrefill : Bool := true
  maxNumEncoderInputTokens : Nat := 0
  maxLoras : Option Nat := none
  hasConnector : Bool := false
  needMambaBlockAlignedSplit : Bool := false
  pauseState : PauseState := .unpaused

/-- `long_prefill_token_threshold`, if set, bounds the tokens of one step. -/
def SchedulerConfig.cutPrefill (cfg : SchedulerConfig) (n : Int) : Int :=
  if 0 < cfg.longPrefillTokenThreshold ∧ (cfg.longPrefillTokenThreshold : Int) < n
  then cfg.longPrefillTokenThreshold else n

structure Queues where
  requests : RequestId → Request
  waiting : List RequestId
  skippedWaiting : List RequestId
  running : List RequestId

structure Pending where
  request : RequestId
  numNewTokens : Int
  encoder : EncoderPlan

inductive Stage where
  | fetch
  | allocate (pending : Pending)
  | done

structure PreemptedRequestData where
  reqId : RequestId
  blockIds : List Nat
  numComputedTokens : Nat
deriving DecidableEq

structure RecomputeReqInfo where
  requestId : RequestId
  outputTokenIds : List Int
  clientIndex : Nat
deriving DecidableEq

/-- `timeBudget` is the profiling scheduler's, `none` for `inf`; `stage` is the place in the loop. -/
structure Pass extends Queues where
  turn : Nat := 0
  stage : Stage := .fetch
  reqIndex : Nat := 0
  tokenBudget : Int
  encoderBudget : Int
  timeBudget : Option ℚ := none
  scheduledNew : List RequestId := []
  scheduledResumed : List RequestId := []
  scheduledRunning : List RequestId := []
  preempted : List RequestId := []
  preemptedData : List PreemptedRequestData := []
  recomputed : List RecomputeReqInfo := []
  reqToNewBlocks : List (RequestId × List Nat) := []
  numScheduledTokens : List (RequestId × Int) := []
  scheduledSpecDecodeTokens : List (RequestId × List Int) := []
  scheduledEncoderInputs : List (RequestId × List Nat) := []
  scheduledLoras : List Nat := []
  stepSkippedWaiting : List RequestId := []

namespace Pass

def setRequest (p : Pass) (r : RequestId) (req : Request) : Pass :=
  { p with requests := Function.update p.requests r req }

def queue (p : Pass) : QueueName → List RequestId
  | .waiting => p.waiting
  | .skippedWaiting => p.skippedWaiting

def peek (p : Pass) (name : QueueName) : Except PyError RequestId :=
  match p.queue name with
  | r :: _ => .ok r
  | [] => .error (.indexError "peek from an empty queue")

def pop (p : Pass) (name : QueueName) : Except PyError (RequestId × Pass) :=
  match name, p.queue name with
  | .waiting, r :: rest => .ok (r, { p with waiting := rest })
  | .skippedWaiting, r :: rest => .ok (r, { p with skippedWaiting := rest })
  | _, [] => .error (.indexError "pop from an empty deque")

def numNewTokens (cfg : SchedulerConfig) (p : Pass) (r : RequestId) : Int :=
  let req := p.requests r
  let n := cfg.cutPrefill (req.numTokensWithSpec + req.numOutputPlaceholders - req.numComputedTokens)
  min (min n p.tokenBudget) ((cfg.maxModelLen : Int) - 1 - req.numComputedTokens)

def encoderPlan (answers : Answers) (p : Pass) (r : RequestId) (n : Int) : Int × EncoderPlan :=
  if (p.requests r).hasEncoderInputs then answers.tryScheduleEncoderInputs r n p.encoderBudget
  else (n, ⟨[], [], p.encoderBudget⟩)

def waitingEncoderPlan (answers : Answers) (p : Pass) (r : RequestId) (req : Request) (n : Int) : Int × EncoderPlan :=
  if req.hasEncoderInputs then answers.tryScheduleEncoderInputs r n p.encoderBudget else (n, ⟨[], [], p.encoderBudget⟩)

def moveToWaiting (cfg : SchedulerConfig) (p : Pass) (v : RequestId) (req : Request) : Pass :=
  let p := p.setRequest v req
  { p with running := p.running.erase v, waiting := prependRequest cfg.policy p.requests p.waiting v,
           preempted := p.preempted ++ [v] }

def charge (p : Pass) (pending : Pending) (blocks : List Nat) : Pass :=
  { p with scheduledRunning := p.scheduledRunning ++ [pending.request],
           reqToNewBlocks := dictSet pending.request blocks p.reqToNewBlocks,
           numScheduledTokens := dictSet pending.request pending.numNewTokens p.numScheduledTokens,
           tokenBudget := p.tokenBudget - pending.numNewTokens, reqIndex := p.reqIndex + 1, stage := .fetch }

def chargeEncoder (p : Pass) (r : RequestId) (encoder : EncoderPlan) : Pass :=
  if encoder.inputs = [] then p
  else { p with scheduledEncoderInputs := dictSet r encoder.inputs p.scheduledEncoderInputs,
                encoderBudget := encoder.budget }

end Pass

/-! ## The loop over the running requests -/

inductive Choice where
  | skip
  | stop
  | take (numNewTokens : Int) (encoder : EncoderPlan)

inductive PassEvent where
  | considered (r : RequestId)
  | evicted (victim : RequestId) (scheduled : Bool)
  | allocated (r : RequestId)
  | examined (queue : QueueName) (r : RequestId) (pendingGrammar : Bool) (popped : RequestId)
deriving DecidableEq

structure Start where
  numNewTokens : Int
  encoder : EncoderPlan
  spec : List Int := []
  cost : ℚ := 0
  computed : Nat

inductive Outcome where
  | skip (queue : QueueName)
  | stop
  | load (computed : Nat)
  | start (start : Start)

structure Rules where
  /-- the budgets are not used up -/
  inBudget : Pass → Bool
  choose : Answers → Pass → RequestId → Choice
  /-- a victim, taken out of the running list -/
  evict : Answers → Pass → Except PyError (RequestId × Pass)
  /-- what follows an allocation -/
  record : Answers → Pass → Pending → Pass
  /-- the decision on a waiting request, and what it makes of the request -/
  examine : Answers → QueueName → Pass → RequestId → Except PyError (Request × Outcome)

section
variable (rules : Rules) (world : Nat → Answers)

/-- One turn of the loop over the running requests, an allocation attempt of its inner loop being a turn too. -/
def runningTurn (p : Pass) : Except PyError (Turn Pass Pass PassEvent) :=
  let answers := world p.turn
  let p := { p with turn := p.turn + 1 }
  match p.stage with
  | .done => .ok (.stop p)
  | .fetch =>
    match p.running[p.reqIndex]? with
    | none => .ok (.stop p)
    | some r =>
      if rules.inBudget p then
        match rules.choose answers p r with
        | .skip => .ok (.next { p with reqIndex := p.reqIndex + 1 } (.considered r))
        | .stop => .ok (.next { p with stage := .done } (.considered r))
        | .take n encoder => .ok (.next { p with stage := .allocate ⟨r, n, encoder⟩ } (.considered r))
      else .ok (.stop p)
  | .allocate pending =>
    match answers.allocateSlots pending.request pending.numNewTokens with
    | some blocks =>
      .ok (.next (rules.record answers (p.charge pending blocks) pending) (.allocated pending.request))
    | none => do
      let (victim, p') ← rules.evict answers p
      let event := .evicted victim (decide (victim ∈ p.scheduledRunning))
      if victim = pending.request then pure (.next { p' with stage := .done } event) else pure (.next p' event)

/-! ## The loop over the waiting requests -/

/-- Here and by the connector, and whether the latter are still to be loaded; `none` if it cannot tell yet. -/
def computedTokens (cfg : SchedulerConfig) (answers : Answers) (r : RequestId) (req : Request) :
    Option (Nat × Nat × Bool) :=
  if req.numComputedTokens = 0 then
    let numLocal := answers.getComputedBlocks r
    if cfg.hasConnector then
      match answers.getNumNewMatchedTokens r numLocal with
      | (none, _) => none
      | (some numExternal, loadKvAsync) => some (numLocal, numExternal, loadKvAsync)
    else some (numLocal, 0, false)
  else some (req.numComputedTokens, 0, false)

def exceedsLoras (cfg : SchedulerConfig) (p : Pass) (req : Request) : Bool :=
  match cfg.maxLoras, req.lora with
  | some maxLoras, some lora => p.scheduledLoras.length == maxLoras && !p.scheduledLoras.contains lora
  | _, _ => false

def examineWith (cfg : SchedulerConfig) (answers : Answers) (queue : QueueName) (p : Pass) (req : Request)
    (tryStart : Request → Except PyError (Request × Outcome)) : Except PyError (Request × Outcome) :=
  match if req.status.blocked then answers.tryPromote req else some req with
  | none => .ok (req, .skip queue)
  | some req => if exceedsLoras cfg p req then .ok (req, .skip queue) else tryStart req

def Pass.enlist (p : Pass) (r : RequestId) : Except PyError Pass :=
  match (p.requests r).status with
  | .waiting => .ok { p with running := p.running ++ [r], scheduledNew := p.scheduledNew ++ [r] }
  | .preempted => .ok { p with running := p.running ++ [r], scheduledResumed := p.scheduledResumed ++ [r] }
  | _ => .error (.runtimeError "Invalid request status")

def Pass.start (cfg : SchedulerConfig) (answers : Answers) (p : Pass) (r : RequestId) (start : Start) :
    Except PyError Pass := do
  let req := p.requests r
  let p ← p.enlist r
  let p := p.setRequest r { req with status := .running, numComputedTokens := start.computed }
  pure (Pass.chargeEncoder { p with
    scheduledLoras := if cfg.maxLoras.isSome then p.scheduledLoras ∪ req.lora.toList else p.scheduledLoras
    reqToNewBlocks := dictSet r (answers.getBlocks r) p.reqToNewBlocks
    numScheduledTokens := dictSet r start.numNewTokens p.numScheduledTokens
    scheduledSpecDecodeTokens :=
      if start.spec = [] then p.scheduledSpecDecodeTokens else dictSet r start.spec p.scheduledSpecDecodeTokens
    tokenBudget := p.tokenBudget - start.numNewTokens
    timeBudget := p.timeBudget.map (· - start.cost) } r start.encoder)

def Pass.skip (cfg : SchedulerConfig) (p : Pass) (r : RequestId) : Pass :=
  { p with stepSkippedWaiting := prependRequest cfg.policy p.requests p.stepSkippedWaiting r }

def waitingTurn (cfg : SchedulerConfig) (p : Pass) : Except PyError (Turn Pass Pass PassEvent) :=
  let answers := world p.turn
  let p := { p with turn := p.turn + 1 }
  if (p.waiting = [] ∧ p.skippedWaiting = []) ∨ rules.inBudget p = false ∨
      p.running.length = cfg.maxNumRunningReqs then .ok (.stop p)
  else do
    let queue := answers.selectQueue p.waiting p.skippedWaiting
    let r ← p.peek queue
    let pendingGrammar := decide ((p.requests r).status = .waitingForStructuredOutput) && !answers.grammar r
    let (req, outcome) ← rules.examine answers queue p r
    let p := p.setRequest r req
    match outcome with
    | .stop => pure (.stop p)
    | .skip name =>
      let (popped, p) ← p.pop name
      pure (.next (p.skip cfg r) (.examined queue r pendingGrammar popped))
    | .load computed =>
      let (popped, p) ← p.pop queue
      let p := p.setRequest popped { req with status := .waitingForRemoteKvs, numComputedTokens := computed }
      pure (.next (p.skip cfg popped) (.examined queue r pendingGrammar popped))
    | .start start =>
      let (popped, p) ← p.pop queue
      let p ← p.start cfg answers popped start
      pure (.next p (.examined queue r pendingGrammar popped))

end

/-! ## The whole call -/

def Queues.runningFuel (s : Queues) : Nat := 4 * s.running.length + 4

def Queues.waitingFuel (s : Queues) : Nat := s.waiting.length + s.skippedWaiting.length + 1

def Pass.recordLoras (cfg : SchedulerConfig) (p : Pass) : Except PyError Pass :=
  match cfg.maxLoras with
  | none => .ok p
  | some maxLoras =>
    let loras := (p.scheduledRunning.filterMap fun r => (p.requests r).lora.filter (0 < ·)).dedup
    if loras.length ≤ maxLoras then .ok { p with scheduledLoras := loras } else .error (.assertionError "")

def Pass.requeue (cfg : SchedulerConfig) (p : Pass) : Pass :=
  { p with skippedWaiting := prependRequests cfg.policy p.requests p.skippedWaiting p.stepSkippedWaiting }

def Pass.constraints (cfg : SchedulerConfig) (p : Pass) : Bool :=
  (p.numScheduledTokens.map Prod.snd).sum ≤ cfg.maxNumScheduledTokens && 0 ≤ p.tokenBudget &&
    p.running.length ≤ cfg.maxNumRunningReqs &&
    p.scheduledNew.length + p.scheduledResumed.length + p.scheduledRunning.length ≤ p.running.length

def schedulePass (rules : Rules) (world : Nat → Answers) (cfg : SchedulerConfig) (toWaiting : Pass → Bool)
    (p : Pass) : Except PyError (Option Pass) := do
  match ← loop (runningTurn rules world) p.runningFuel p with
  | none => pure none
  | some p =>
    let p ← p.recordLoras cfg
    if toWaiting p then
      match ← loop (waitingTurn rules world cfg) p.waitingFuel p with
      | none => pure none
      | some p =>
        let p := p.requeue cfg
        if p.constraints cfg then pure (some p) else throw (.assertionError "")
    else if p.constraints cfg then pure (some p) else throw (.assertionError "")

end VllmAscend.Sched
