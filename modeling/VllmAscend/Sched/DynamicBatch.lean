import VllmAscend.Sched.Pass

/-!
# The dynamic-batch scheduler

`SchedulerDynamicBatch.schedule`: the budget is refined from a table of profiled
chunk sizes, the decoding requests go before the prefilling ones, and a request
that cannot be given a token ends the loop.
-/

namespace VllmAscend.Sched

open Python Run

/-! ## The token budget -/

/-- The largest chunk for a context length and a number of decodes, and the keys in the order the sets are walked. -/
structure BudgetRefiner where
  enabled : Bool := false
  defaultBudget : Int := 0
  lookup : List ((Nat × Nat) × Int) := []
  contextKeys : List Nat := []
  dnumKeys : List Nat := []

namespace BudgetRefiner

def alignKey (value : ℚ) (validKeys : List Nat) : Option Nat := validKeys.find? fun k => value ≤ k

def getMaxBudget (refiner : BudgetRefiner) (numDecodeTokens : ℚ) (numDecode : Nat) : Int :=
  match alignKey numDecodeTokens refiner.contextKeys, alignKey numDecode refiner.dnumKeys with
  | some alignedCtx, some alignedDnum => (dictGet (alignedCtx, alignedDnum) refiner.lookup).getD refiner.defaultBudget
  | _, _ => refiner.defaultBudget

def refineBudget (refiner : BudgetRefiner) (running : List Request) (budget : Int) : Int :=
  let numDecodeTokenLst := (running.filter fun req => decide (req.numPromptTokens ≤ req.numComputedTokens)).map
    Request.numTokensWithSpec
  if refiner.enabled = false ∨ numDecodeTokenLst = [] then budget
  else refiner.getMaxBudget ((numDecodeTokenLst.sum : ℚ) / numDecodeTokenLst.length) numDecodeTokenLst.length

end BudgetRefiner

namespace SchedulerDynamicBatch

/-! ## The running requests -/

def choose (cfg : SchedulerConfig) (answers : Answers) (p : Pass) (r : RequestId) : Choice :=
  let (n, encoder) := p.encoderPlan answers r (p.numNewTokens cfg r)
  if n = 0 then .stop else .take n encoder

def evict (cfg : SchedulerConfig) (answers : Answers) (p : Pass) : Except PyError (RequestId × Pass) :=
  let victim := answers.pickVictim p.running
  .ok (victim, Pass.moveToWaiting cfg { p with scheduledRunning := p.scheduledRunning.erase victim } victim
    { p.requests victim with status := .preempted, numComputedTokens := 0 })

/-- The draft tokens of the request are cut to those that are scheduled. -/
def record (_ : Answers) (p : Pass) (pending : Pending) : Pass :=
  let r := pending.request
  let req := p.requests r
  let numScheduledSpecTokens := pending.numNewTokens + req.numComputedTokens - req.numTokens
  let p :=
    if req.specTokenIds ≠ [] ∧ 0 < numScheduledSpecTokens then
      let spec := req.specTokenIds.take numScheduledSpecTokens.toNat
      { p.setRequest r { req with specTokenIds := spec } with
        scheduledSpecDecodeTokens := dictSet r spec p.scheduledSpecDecodeTokens }
    else p
  p.chargeEncoder r pending.encoder

/-! ## The waiting requests -/

def tryStart (cfg : SchedulerConfig) (answers : Answers) (queue : QueueName) (p : Pass) (r : RequestId)
    (req : Request) : Except PyError (Request × Outcome) :=
  match computedTokens cfg answers r req with
  | none => .ok (req, .skip queue)
  | some (numLocal, numExternal, true) =>
    if 0 < numExternal then
      match answers.allocateSlots r numExternal with
      | none => .ok (req, .stop)
      | some _ => .ok (req, .load (numLocal + numExternal))
    else .error (.assertionError "")
  | some (numLocal, numExternal, false) =>
    let n := cfg.cutPrefill (req.numTokens - (numLocal + numExternal : Nat))
    if cfg.enableChunkedPrefill = false ∧ p.tokenBudget < n then .ok (req, .skip queue)
    else
      let n := min n p.tokenBudget
      if n ≤ 0 then .error (.assertionError "")
      else
        let (n, encoder) := p.waitingEncoderPlan answers r req n
        if req.hasEncoderInputs ∧ n = 0 then .ok (req, .stop)
        else
          match answers.allocateSlots r (n + numExternal) with
          | none => .ok (req, .stop)
          | some _ => .ok (req, .start { numNewTokens := n, encoder, computed := numLocal + numExternal })

/-- A request still waiting for its grammar is taken off `self.waiting`, whatever queue it was found in. -/
def examine (cfg : SchedulerConfig) (answers : Answers) (queue : QueueName) (p : Pass) (r : RequestId) :
    Except PyError (Request × Outcome) :=
  let req := p.requests r
  if req.status = .waitingForStructuredOutput then
    if answers.grammar r then
      examineWith cfg answers queue p { req with status := .waiting } (tryStart cfg answers queue p r)
    else .ok (req, .skip .waiting)
  else examineWith cfg answers queue p req (tryStart cfg answers queue p r)

def rules (cfg : SchedulerConfig) : Rules where
  inBudget p := 0 < p.tokenBudget
  choose := choose cfg
  evict := evict cfg
  record := record
  examine := examine cfg

def start (cfg : SchedulerConfig) (refiner : BudgetRefiner) (s : Queues) : Pass where
  requests := s.requests
  waiting := s.waiting
  skippedWaiting := s.skippedWaiting
  running :=
    s.running.filter (fun r => decide ((s.requests r).numPromptTokens ≤ (s.requests r).numComputedTokens)) ++
      s.running.filter fun r => decide ((s.requests r).numComputedTokens < (s.requests r).numPromptTokens)
  tokenBudget := refiner.refineBudget (s.running.map s.requests) cfg.maxNumScheduledTokens
  encoderBudget := cfg.maxNumEncoderInputTokens

def schedule (cfg : SchedulerConfig) (refiner : BudgetRefiner) (world : Nat → Answers) (s : Queues) :
    Except PyError (Option Pass) :=
  schedulePass (rules cfg) world cfg (fun p => p.preempted.isEmpty) (start cfg refiner s)

end SchedulerDynamicBatch

end VllmAscend.Sched
