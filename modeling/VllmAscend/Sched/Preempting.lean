import VllmAscend.Sched.Pass

/-!
# The recompute and the profiling-chunk scheduler

`RecomputeScheduler.schedule` and `ProfilingChunkScheduler.schedule`. Both undo
what a preempted request was given in the same step.
-/

namespace VllmAscend.Sched

open Python Run

/-! ## What the two share -/

def atMaxTokens (req : Request) : Bool :=
  decide (0 < req.numOutputPlaceholders) &&
    decide (req.numPromptTokens + req.maxTokens + req.numOutputPlaceholders ≤ req.numComputedTokens + 2)

def mambaSplit (cfg : SchedulerConfig) (answers : Answers) (r : RequestId) (n : Int) : Int :=
  if cfg.needMambaBlockAlignedSplit then answers.mambaBlockAlignedSplit r n else n

def rollBack (embeds : RequestId → Nat → Int) (p : Pass) (v : RequestId) : Except PyError Pass :=
  if v ∈ p.scheduledRunning then
    match dictGet v p.numScheduledTokens, dictGet v p.reqToNewBlocks with
    | some n, some _ =>
      .ok { p with
        scheduledRunning := p.scheduledRunning.erase v
        tokenBudget := p.tokenBudget + n
        numScheduledTokens := dictPop v p.numScheduledTokens
        reqToNewBlocks := dictPop v p.reqToNewBlocks
        scheduledSpecDecodeTokens := dictPop v p.scheduledSpecDecodeTokens
        scheduledEncoderInputs := dictPop v p.scheduledEncoderInputs
        encoderBudget := p.encoderBudget + (((dictGet v p.scheduledEncoderInputs).getD []).map (embeds v)).sum
        reqIndex := p.reqIndex - 1 }
    | _, _ => .error (.keyError "")
  else .ok p

def evictVictim (cfg : SchedulerConfig) (embeds : RequestId → Nat → Int) (answers : Answers) (p : Pass) :
    Except PyError (RequestId × Pass) := do
  let victim := answers.pickVictim p.running
  let p ← rollBack embeds p victim
  pure (victim, p.moveToWaiting cfg victim (p.requests victim).preempt)

def recordSpec (p : Pass) (r : RequestId) (n : Int) : Pass :=
  let req := p.requests r
  if req.specTokenIds = [] then p
  else
    let numScheduledSpecTokens := n + req.numComputedTokens - req.numTokens - req.numOutputPlaceholders
    let p := p.setRequest r { req with specTokenIds := [] }
    if 0 < numScheduledSpecTokens then
      { p with scheduledSpecDecodeTokens :=
          dictSet r (req.specTokenIds.take numScheduledSpecTokens.toNat) p.scheduledSpecDecodeTokens }
    else p

/-! ## The recompute scheduler -/

namespace RecomputeScheduler

structure Config extends SchedulerConfig where
  isKvConsumerRecomputePath : Bool := false
  isMtpKvConsumer : Bool := false
  numEncoderEmbeds : RequestId → Nat → Int := fun _ _ => 0

def choose (cfg : Config) (answers : Answers) (p : Pass) (r : RequestId) : Choice :=
  if atMaxTokens (p.requests r) then .skip
  else
    let (n, encoder) := p.encoderPlan answers r (p.numNewTokens cfg.toSchedulerConfig r)
    let n := mambaSplit cfg.toSchedulerConfig answers r n
    if n = 0 then .skip else .take n encoder

def evictLast (cfg : Config) (answers : Answers) (p : Pass) : Except PyError (RequestId × Pass) :=
  match p.running.getLast? with
  | none => .error (.indexError "pop from empty list")
  | some r =>
    let req := p.requests r
    if answers.updateStateBeforePreempt r then
      let p : Pass := { p with preemptedData := p.preemptedData ++ [⟨r, answers.getBlocks r, req.numComputedTokens⟩] }
      .ok (r, p.moveToWaiting cfg.toSchedulerConfig r req.preempt)
    else
      .ok (r, { p with running := p.running.dropLast,
                       recomputed := p.recomputed ++ [⟨r, req.outputTokenIds, req.clientIndex⟩] })

def evict (cfg : Config) (answers : Answers) (p : Pass) : Except PyError (RequestId × Pass) :=
  if cfg.isKvConsumerRecomputePath then evictLast cfg answers p
  else evictVictim cfg.toSchedulerConfig cfg.numEncoderEmbeds answers p

def record (_ : Answers) (p : Pass) (pending : Pending) : Pass :=
  (recordSpec p pending.request pending.numNewTokens).chargeEncoder pending.request pending.encoder

def wantedTokens (cfg : Config) (req : Request) : Nat :=
  if cfg.isMtpKvConsumer then req.numTokensWithSpec else req.numTokens

def startSpec (cfg : Config) (req : Request) (n : Int) : Request × List Int :=
  let numScheduledSpecTokens := n + req.numComputedTokens - req.numTokens - req.numOutputPlaceholders
  if cfg.isMtpKvConsumer then ({ req with specTokenIds := [] }, req.specTokenIds.take numScheduledSpecTokens.toNat)
  else (req, [])

def tryStart (cfg : Config) (answers : Answers) (queue : QueueName) (p : Pass) (r : RequestId) (req : Request) :
    Except PyError (Request × Outcome) :=
  match computedTokens cfg.toSchedulerConfig answers r req with
  | none => .ok (req, .skip queue)
  | some (numLocal, numExternal, loadKvAsync) =>
    let computed := numLocal + numExternal
    if req.numComputedTokens = 0 ∧ req.numTokens < computed then .error (.assertionError "")
    else if loadKvAsync then
      if 0 < numExternal then
        match answers.allocateSlots r 0 with
        | none => .ok (req, .stop)
        | some _ => .ok (req, .load computed)
      else .error (.assertionError "")
    else
      let n := cfg.cutPrefill (wantedTokens cfg req - computed)
      if cfg.enableChunkedPrefill = false ∧ p.tokenBudget < n then .ok (req, .stop)
      else
        let n := min n p.tokenBudget
        if n ≤ 0 then .error (.assertionError "")
        else
          let (n, encoder) := p.waitingEncoderPlan answers r req n
          let n' := mambaSplit cfg.toSchedulerConfig answers r n
          if req.hasEncoderInputs ∧ n = 0 ∨ cfg.needMambaBlockAlignedSplit ∧ n' = 0 then .ok (req, .stop)
          else
            match answers.allocateSlots r n' with
            | none => .ok (req, .stop)
            | some _ =>
              let (req, spec) := startSpec cfg req n'
              .ok (req, .start { numNewTokens := n', encoder, spec, computed })

def rules (cfg : Config) : Rules where
  inBudget p := 0 < p.tokenBudget
  choose := choose cfg
  evict := evict cfg
  record := record
  examine answers queue p r :=
    examineWith cfg.toSchedulerConfig answers queue p (p.requests r) (tryStart cfg answers queue p r)

def start (cfg : Config) (s : Queues) : Pass where
  toQueues := s
  tokenBudget := if cfg.pauseState = .pausedAll then 0 else cfg.maxNumScheduledTokens
  encoderBudget := cfg.maxNumEncoderInputTokens

def toWaiting (cfg : Config) (p : Pass) : Bool :=
  p.preempted.isEmpty && p.recomputed.isEmpty && decide (cfg.pauseState = .unpaused)

def schedule (cfg : Config) (world : Nat → Answers) (s : Queues) : Except PyError (Option Pass) :=
  schedulePass (rules cfg) world cfg.toSchedulerConfig (toWaiting cfg) (start cfg s)

end RecomputeScheduler

/-! ## The profiling-chunk scheduler -/

namespace ProfilingChunkScheduler

structure Config extends SchedulerConfig where
  targetLatency : Option ℚ := none
  isReady : Bool := false
  needTiming : Bool := false
  numEncoderEmbeds : RequestId → Nat → Int := fun _ _ => 0

/-- The chunk that is predicted to fit the time left; `none` ends the loop. -/
def cutChunk (cfg : Config) (answers : Answers) (p : Pass) (req : Request) (computed : Nat) (n : Int) : Option Int :=
  if cfg.isReady ∧ req.numComputedTokens < req.numPromptTokens ∧ (0 < req.numComputedTokens ∨ cfg.needTiming = false)
  then
    match answers.predictChunkSize computed with
    | some chunk =>
      if 0 < chunk then some (min chunk n)
      else if cfg.needTiming ∨ p.timeBudget.isSome ∧ p.timeBudget = cfg.targetLatency then some n else none
    | none => if cfg.needTiming ∨ p.timeBudget.isSome ∧ p.timeBudget = cfg.targetLatency then some n else none
  else some n

def choose (cfg : Config) (answers : Answers) (p : Pass) (r : RequestId) : Choice :=
  let req := p.requests r
  if atMaxTokens req then .skip
  else
    let (n, encoder) := p.encoderPlan answers r (p.numNewTokens cfg.toSchedulerConfig r)
    match cutChunk cfg answers p req req.numComputedTokens n with
    | none => .stop
    | some n =>
      let n := mambaSplit cfg.toSchedulerConfig answers r n
      if n = 0 then .skip else .take n encoder

def chargeTime (answers : Answers) (p : Pass) (req : Request) (n : Int) : Pass :=
  if req.numComputedTokens < req.numPromptTokens then
    { p with timeBudget := p.timeBudget.map (· - answers.predictTime n req.numComputedTokens) }
  else p

def record (answers : Answers) (p : Pass) (pending : Pending) : Pass :=
  let r := pending.request
  (recordSpec (chargeTime answers p (p.requests r) pending.numNewTokens) r pending.numNewTokens).chargeEncoder r
    pending.encoder

def tryStart (cfg : Config) (answers : Answers) (queue : QueueName) (p : Pass) (r : RequestId) (req : Request) :
    Except PyError (Request × Outcome) :=
  match computedTokens cfg.toSchedulerConfig answers r req with
  | none => .ok (req, .skip queue)
  | some (numLocal, numExternal, loadKvAsync) =>
    let computed := numLocal + numExternal
    if req.numComputedTokens = 0 ∧ req.numTokens < computed then .error (.assertionError "")
    else if loadKvAsync then
      if 0 < numExternal then
        let n := mambaSplit cfg.toSchedulerConfig answers r 0
        if cfg.needMambaBlockAlignedSplit ∧ n = 0 then .ok (req, .stop)
        else
          match answers.allocateSlots r n with
          | none => .ok (req, .stop)
          | some _ => .ok (req, .load computed)
      else .error (.assertionError "")
    else
      match cutChunk cfg answers p req computed (cfg.cutPrefill (req.numTokens - computed)) with
      | none => .ok (req, .stop)
      | some n =>
        if cfg.enableChunkedPrefill = false ∧ p.tokenBudget < n then .ok (req, .stop)
        else
          let n := min n p.tokenBudget
          if n ≤ 0 then .error (.assertionError "")
          else
            let (n, encoder) := p.waitingEncoderPlan answers r req n
            let n' := mambaSplit cfg.toSchedulerConfig answers r n
            if req.hasEncoderInputs ∧ n = 0 ∨ cfg.needMambaBlockAlignedSplit ∧ n' = 0 then .ok (req, .stop)
            else
              match answers.allocateSlots r n' with
              | none => .ok (req, .stop)
              | some _ =>
                let cost := if req.numComputedTokens < req.numPromptTokens
                  then answers.predictTime n' req.numComputedTokens else 0
                .ok (req, .start { numNewTokens := n', encoder, cost, computed })

def rules (cfg : Config) : Rules where
  inBudget p := decide (0 < p.tokenBudget) && p.timeBudget.all (decide <| 0 < ·)
  choose := choose cfg
  evict := evictVictim cfg.toSchedulerConfig cfg.numEncoderEmbeds
  record := record
  examine answers queue p r :=
    examineWith cfg.toSchedulerConfig answers queue p (p.requests r) (tryStart cfg answers queue p r)

def start (cfg : Config) (s : Queues) : Pass where
  toQueues := s
  tokenBudget := if cfg.pauseState = .pausedAll then 0 else cfg.maxNumScheduledTokens
  encoderBudget := cfg.maxNumEncoderInputTokens
  timeBudget := cfg.targetLatency

def toWaiting (cfg : Config) (p : Pass) : Bool := p.preempted.isEmpty && decide (cfg.pauseState = .unpaused)

def schedule (cfg : Config) (world : Nat → Answers) (s : Queues) : Except PyError (Option Pass) :=
  schedulePass (rules cfg) world cfg.toSchedulerConfig (toWaiting cfg) (start cfg s)

end ProfilingChunkScheduler

end VllmAscend.Sched
