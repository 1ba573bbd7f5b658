import Mathlib.Data.List.Sort
import VllmAscend.Lib.Python

/-!
# The PEARL controller

`PEARLEngine` of `api.py`: the controller that hands batches to the worker
processes and collects their replies, one per worker and command, over pipes.
Nothing on a pipe says which command a reply belongs to.
-/

namespace VllmAscend.Controller

open Python

inductive Mode where
  | pearl
  | targetAr
  | bench (numPearlSteps : Nat)
deriving DecidableEq

def Mode.name : Mode → String
  | .pearl => "pearl"
  | .targetAr => "target_ar"
  | .bench _ => "bench"

def Mode.operation (mode : Mode) : String := mode.name ++ " generation"

structure Request where
  id : Nat
  prompt : List Nat
  maxTokens : Nat
deriving DecidableEq

structure Config where
  maxModelLen : Nat
  maxNumSeqs : Nat
  maxNumBatchedTokens : Nat
  gamma : Option Nat
  enableContinuousBatching : Bool
  worldSize : Nat
  targetLeaderRank : Nat
  leader_lt : targetLeaderRank < worldSize

/-! ## Workers -/

structure Command where
  ticket : Nat
  mode : Mode
  chunk : List Request
deriving DecidableEq

structure Result where
  ticket : Nat
  request : Nat
  completionTokenIds : List Nat
deriving DecidableEq

inductive Reply where
  | result (payload : Option (List Result))
  | error
deriving DecidableEq

/-- A process that has failed closes its connection and then exits. -/
inductive Status where
  | running
  | closing
  | dead
deriving DecidableEq

structure Worker where
  status : Status
  inbox : List Command
  outbox : List Reply
deriving DecidableEq

def answer (cfg : Config) (rank : Nat) (command : Command) (completions : List (List Nat)) : Option (List Result) :=
  if rank = cfg.targetLeaderRank then
    some ((command.chunk.zip completions).map fun p => ⟨command.ticket, p.1.id, p.2⟩)
  else none

def Worker.work (cfg : Config) (rank : Nat) (completions : List (List Nat)) (k : Worker) : Worker :=
  match k.inbox with
  | [] => k
  | command :: inbox =>
    { k with inbox := inbox, outbox := k.outbox ++ [.result (answer cfg rank command completions)] }

def Worker.fail (k : Worker) : Worker := ⟨.closing, [], k.outbox ++ [.error]⟩

/-! ## Calls -/

inductive Failure where
  | raised (error : PyError)
  | timeout (operation : String) (pendingRanks : List Nat)
  | brokenPipe

/-- How a call of `generate` ended; `since` is the first ticket that was free when it began. -/
inductive Outcome where
  | returned (requests : List Nat) (since : Nat) (results : List Result)
  | failed (failure : Failure)

structure Call where
  mode : Mode
  since : Nat
  requests : List Request
  chunk : List Request
  rest : List (List Request)
  outputs : List (Nat × Result)
  pending : List Nat
  replies : List (Nat × Reply)

def Call.received (call : Call) (rank : Nat) (payload : Option (List Result)) : Call :=
  { call with pending := call.pending.erase rank, replies := dictSet rank (.result payload) call.replies }

inductive Phase where
  | idle
  | receiving (call : Call)

structure World where
  requests : List Request
  nextRequestId : Nat
  phase : Phase
  workers : Nat → Worker
  sent : Nat
  outcomes : List Outcome
  timedOut : Bool

def World.init : World where
  requests := []
  nextRequestId := 0
  phase := .idle
  workers := fun _ => ⟨.running, [], []⟩
  sent := 0
  outcomes := []
  timedOut := false

section
variable (cfg : Config)

def refused (mode : Mode) (requests : List Request) : Option PyError :=
  match mode, cfg.gamma with
  | .pearl, some gamma =>
    if requests.any fun r => cfg.maxModelLen < r.prompt.length + r.maxTokens + gamma then
      some (.valueError "Prompt plus the PEARL verification window exceeds max_model_len.")
    else none
  | .bench steps, gamma =>
    if steps = 0 then some (.valueError "num_pearl_steps must be positive.")
    else match gamma with
      | some gamma =>
        if requests.any fun r => cfg.maxModelLen < r.prompt.length + 1 + (steps + 2) * gamma then
          some (.valueError "The fixed PEARL benchmark steps exceed max_model_len.")
        else none
      | none => none
  | _, _ => none

def requestChunksFrom : List Request → Nat → List Request → Except PyError (List (List Request))
  | current, _, [] => .ok (if current = [] then [] else [current])
  | current, currentTokens, request :: requests =>
    if cfg.maxNumBatchedTokens < request.prompt.length then
      .error (.valueError "A PEARL prompt exceeds max_num_batched_tokens.")
    else if current ≠ [] ∧ (current.length = cfg.maxNumSeqs ∨
        cfg.maxNumBatchedTokens < currentTokens + request.prompt.length) then
      (requestChunksFrom [request] request.prompt.length requests).map (current :: ·)
    else requestChunksFrom (current ++ [request]) (currentTokens + request.prompt.length) requests

def requestChunks (mode : Mode) (requests : List Request) : Except PyError (List (List Request)) :=
  if mode = .pearl ∧ cfg.enableContinuousBatching then .ok [requests] else requestChunksFrom cfg [] 0 requests

namespace World

def raise (w : World) (requests : List Request) (failure : Failure) : World :=
  { w with phase := .idle, requests := requests ++ w.requests, outcomes := w.outcomes ++ [.failed failure] }

def sendAll (w : World) (command : Command) (broken : Option Nat) : World :=
  { w with
    sent := w.sent + 1
    workers := fun k =>
      if k < broken.getD cfg.worldSize then { w.workers k with inbox := (w.workers k).inbox ++ [command] }
      else w.workers k }

def finish (w : World) (call : Call) : World :=
  let outputs := call.outputs.insertionSort fun a b => a.1 ≤ b.1
  { w with
    phase := .idle
    outcomes := w.outcomes ++ [.returned (call.requests.map (·.id)) call.since (outputs.map Prod.snd)] }

def nextChunk (w : World) (call : Call) (broken : Option Nat) : World :=
  match call.rest with
  | [] => w.finish call
  | chunk :: rest =>
    let w' := w.sendAll cfg ⟨w.sent, call.mode, chunk⟩ broken
    let call' := { call with chunk := chunk, rest := rest, pending := List.range cfg.worldSize, replies := [] }
    if broken.isSome then w'.raise call.requests .brokenPipe else { w' with phase := .receiving call' }

def generate (w : World) (mode : Mode) (broken : Option Nat) : World :=
  match refused cfg mode w.requests with
  | some e => { w with outcomes := w.outcomes ++ [.failed (.raised e)] }
  | none =>
    if w.requests = [] then { w with outcomes := w.outcomes ++ [.returned [] w.sent []] }
    else
      match requestChunks cfg mode w.requests with
      | .error e => ({ w with requests := [] }).raise w.requests (.raised e)
      | .ok chunks =>
        ({ w with requests := [] }).nextChunk cfg
          { mode := mode, since := w.sent, requests := w.requests, chunk := [], rest := chunks, outputs := [],
            pending := [], replies := [] } broken

def addRequest (w : World) (prompt : List Nat) (maxTokens : Nat) : World :=
  if prompt = [] ∨ cfg.maxModelLen < prompt.length + maxTokens then w
  else { w with
    requests := w.requests ++ [⟨w.nextRequestId, prompt, maxTokens⟩]
    nextRequestId := w.nextRequestId + 1 }

def leaderPayloads (call : Call) : List (List Result) :=
  (List.range cfg.worldSize).filterMap fun rank =>
    match dictGet rank call.replies with
    | some (.result payload) => payload
    | _ => none

def endChunk (w : World) (call : Call) (broken : Option Nat) : World :=
  match leaderPayloads cfg call with
  | [results] =>
    w.nextChunk cfg { call with outputs := call.outputs ++ (call.chunk.map (·.id)).zip results } broken
  | _ => w.raise call.requests
      (.raised (.runtimeError "PEARL target leader did not return exactly one result batch."))

def popped (w : World) (rank : Nat) (outbox : List Reply) : World :=
  { w with workers := Function.update w.workers rank { w.workers rank with outbox := outbox } }

def receive (w : World) (call : Call) (rank : Nat) (broken : Option Nat) : World :=
  match (w.workers rank).outbox with
  | [] => w
  | .error :: outbox =>
    let operation := call.mode.operation
    (w.popped rank outbox).raise call.requests
      (.raised (.runtimeError s!"PEARL rank {rank} failed during {operation}"))
  | .result payload :: outbox =>
    let call' := call.received rank payload
    if call'.pending = [] then (w.popped rank outbox).endChunk cfg call' broken
    else { w.popped rank outbox with phase := .receiving call' }

def setWorker (w : World) (rank : Nat) (worker : Worker) : World :=
  { w with workers := Function.update w.workers rank worker }

end World

/-! ## Runs -/

inductive Event where
  | addRequest (prompt : List Nat) (maxTokens : Nat)
  | generate (mode : Mode) (broken : Option Nat)
  | work (rank : Nat) (completions : List (List Nat))
  | fail (rank : Nat)
  | die (rank : Nat)
  | receive (rank : Nat) (broken : Option Nat)
  | gone (rank : Nat)
  | deadline

def World.inCall (w : World) (f : Call → World) : World :=
  match w.phase with
  | .idle => w
  | .receiving call => f call

def World.step (w : World) : Event → World
  | .addRequest prompt maxTokens => w.addRequest cfg prompt maxTokens
  | .generate mode broken => w.generate cfg mode broken
  | .work rank completions => w.setWorker rank ((w.workers rank).work cfg rank completions)
  | .fail rank => w.setWorker rank (w.workers rank).fail
  | .die rank => w.setWorker rank { w.workers rank with status := .dead }
  | .receive rank broken => w.inCall fun call => w.receive cfg call rank broken
  | .gone rank => w.inCall fun call =>
      let operation := call.mode.operation
      w.raise call.requests (.raised (.runtimeError s!"PEARL rank {rank} exited during {operation}"))
  | .deadline => w.inCall fun call =>
      { w with timedOut := true }.raise call.requests (.timeout call.mode.operation call.pending)

def Breaks (w : World) (broken : Option Nat) : Prop :=
  ∀ k, broken = some k → k < cfg.worldSize ∧ (w.workers k).status ≠ .running

/-- One caller; a worker takes its commands in order; dead processes are looked for before a read. -/
def Allowed (w : World) : Event → Prop
  | .addRequest _ _ => w.phase = .idle
  | .generate _ broken => w.phase = .idle ∧ Breaks cfg w broken
  | .work rank completions => rank < cfg.worldSize ∧ (w.workers rank).status = .running ∧
      ∃ command inbox, (w.workers rank).inbox = command :: inbox ∧ completions.length = command.chunk.length
  | .fail rank => rank < cfg.worldSize ∧ (w.workers rank).status = .running ∧ (w.workers rank).inbox ≠ []
  | .die rank => rank < cfg.worldSize
  | .receive rank broken => rank < cfg.worldSize ∧ ∃ call, w.phase = .receiving call ∧ rank ∈ call.pending ∧
      (w.workers rank).outbox ≠ [] ∧ (∀ k ∈ call.pending, (w.workers k).status ≠ .dead) ∧ Breaks cfg w broken
  | .gone rank => rank < cfg.worldSize ∧ ∃ call, w.phase = .receiving call ∧ rank ∈ call.pending ∧
      ((w.workers rank).status = .dead ∨ (w.workers rank).status = .closing ∧ (w.workers rank).outbox = [])
  | .deadline => ∃ call, w.phase = .receiving call

end

end VllmAscend.Controller
