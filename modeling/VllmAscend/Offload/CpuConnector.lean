import VllmAscend.Lib.Batch

/-!
# The CPU offloading connector

`CPUOffloadingConnector` on the scheduler and on every rank of a tensor parallel
group: the metadata of a step, the record that each rank keeps of a request, the
saves of finished requests, and the count by which rank 0 knows that a request
is saved everywhere.
-/

namespace VllmAscend.Offload

open Python Batch

abbrev RequestId := Nat

/-- An element of a list of block ids: an id, or, where a whole group was put in, a list. -/
inductive BlockEntry where
  | id (block : Nat)
  | group (blocks : List Nat)
deriving DecidableEq, Repr

structure ReqMeta where
  gpuBlockIds : List BlockEntry
  cpuBlockIds : List Nat
  numScheduledTokens : Nat
  numComputedTokens : Nat
  numGpuComputedTokens : Nat
  numCpuComputedTokens : Nat
deriving DecidableEq

def ReqMeta.update (self other : ReqMeta) : ReqMeta where
  gpuBlockIds := self.gpuBlockIds ++ other.gpuBlockIds
  cpuBlockIds := self.cpuBlockIds ++ other.cpuBlockIds
  numScheduledTokens := other.numScheduledTokens
  numComputedTokens := other.numComputedTokens
  numGpuComputedTokens := other.numGpuComputedTokens
  numCpuComputedTokens := min self.numCpuComputedTokens other.numCpuComputedTokens

structure Metadata where
  requests : List (RequestId × ReqMeta) := []
  finishedReqIds : List RequestId := []

/-! ## The scheduler's output -/

structure NewRequestData where
  reqId : RequestId
  blockIds : List (List Nat)
  numComputedTokens : Nat

/-- `resumed` is membership in `resumed_req_ids`: the new blocks then are all the blocks of the request. -/
structure CachedRequest where
  reqId : RequestId
  newBlockIds : Option (List (List Nat))
  numComputedTokens : Nat
  resumed : Bool := false

structure SchedulerOutput where
  scheduledNewReqs : List NewRequestData := []
  scheduledCachedReqs : List CachedRequest := []
  numScheduledTokens : List (RequestId × Nat) := []
  preemptedReqIds : List RequestId := []

def lookup {β : Type} (key : RequestId) (d : List (RequestId × β)) : Except PyError β :=
  match dictGet key d with
  | some value => pure value
  | none => throw (.keyError (toString key))

/-! ## The scheduler side -/

structure ConnectorScheduler where
  numGpuComputedTokens : List (RequestId × Nat) := []
  numCpuComputedTokens : List (RequestId × Nat) := []
  finishedReqIds : List RequestId := []

namespace ConnectorScheduler

def getNumNewMatchedTokens (swapInThreshold : Int) (s : ConnectorScheduler) (r : RequestId)
    (numComputedTokens numCpuComputedTokens : Nat) : ConnectorScheduler × Int :=
  ({ s with
    numGpuComputedTokens := dictSet r numComputedTokens s.numGpuComputedTokens
    numCpuComputedTokens := dictSet r numCpuComputedTokens s.numCpuComputedTokens },
    let matched := (numCpuComputedTokens : Int) - numComputedTokens
    if swapInThreshold ≤ matched then matched else 0)

def firstGroup : List (List Nat) → Except PyError (List Nat)
  | [] => throw (.indexError "tuple index out of range")
  | group :: _ => pure group

def newReqMeta (s : ConnectorScheduler) (output : SchedulerOutput) (newCpuBlockIds : List (RequestId × List Nat))
    (req : NewRequestData) : Except PyError (RequestId × ReqMeta) := do
  let gpuBlockIds ← firstGroup req.blockIds
  let numScheduledTokens ← lookup req.reqId output.numScheduledTokens
  let numGpuComputedTokens ← lookup req.reqId s.numGpuComputedTokens
  let numCpuComputedTokens ← lookup req.reqId s.numCpuComputedTokens
  pure (req.reqId, {
    gpuBlockIds := gpuBlockIds.map .id
    cpuBlockIds := listAt req.reqId newCpuBlockIds
    numScheduledTokens, numComputedTokens := req.numComputedTokens, numGpuComputedTokens, numCpuComputedTokens })

/-- The groups of a continued request's new blocks go into the list as they are. -/
def cachedReqMeta (output : SchedulerOutput) (newCpuBlockIds : List (RequestId × List Nat)) (req : CachedRequest) :
    Except PyError (RequestId × ReqMeta) := do
  let numScheduledTokens ← lookup req.reqId output.numScheduledTokens
  pure (req.reqId, {
    gpuBlockIds := (req.newBlockIds.getD []).map .group
    cpuBlockIds := listAt req.reqId newCpuBlockIds
    numScheduledTokens
    numComputedTokens := req.numComputedTokens
    numGpuComputedTokens := req.numComputedTokens
    numCpuComputedTokens := req.numComputedTokens })

/-- `build_connector_meta`; the manager's answer to `allocate_slots` is `newCpuBlockIds`. -/
def buildConnectorMeta (s : ConnectorScheduler) (output : SchedulerOutput)
    (newCpuBlockIds : List (RequestId × List Nat)) : Except PyError (ConnectorScheduler × Metadata) := do
  let newReqs ← output.scheduledNewReqs.mapM (s.newReqMeta output newCpuBlockIds)
  let cachedReqs ← output.scheduledCachedReqs.mapM (cachedReqMeta output newCpuBlockIds)
  pure ({}, {
    requests := (newReqs ++ cachedReqs).foldl (fun requests req => dictSet req.1 req.2 requests) []
    finishedReqIds := s.finishedReqIds.dedup })

def requestFinished (s : ConnectorScheduler) (r : RequestId) : ConnectorScheduler :=
  { s with finishedReqIds := s.finishedReqIds ++ [r] }

end ConnectorScheduler

/-! ## A rank -/

structure Config where
  blockSize : Nat
  useMla : Bool := false
  swapInThreshold : Int := 0

abbrev BlockPair := Nat × BlockEntry

structure Worker where
  requests : List (RequestId × ReqMeta) := []
  loadBlockMapping : List BlockPair := []
  saveInputQueue : List (RequestId × ReqMeta) := []
  saveOutputQueue : List RequestId := []
  doneSendingCount : List (RequestId × Nat) := []

def blockPairLocality : List BlockPair → Except PyError Unit
  | [] => pure ()
  | [_] => pure ()
  | (_, .id _) :: pairs => blockPairLocality pairs
  | (_, .group _) :: _ :: _ => throw (.typeError "can only concatenate list (not \"int\") to list")

def copyBlock : BlockPair → Except PyError Unit
  | (_, .id _) => pure ()
  | (_, .group [_]) => pure ()
  | (_, .group _) => throw (.runtimeError "The size of tensor a must match the size of tensor b")

namespace Worker

def indexError : PyError := .indexError "list index out of range"

def loadPair (req : ReqMeta) (i : Nat) : Except PyError BlockPair :=
  match req.cpuBlockIds[i]?, req.gpuBlockIds[i]? with
  | some cpu, some gpu => pure (cpu, gpu)
  | _, _ => throw indexError

def loadPairs (cfg : Config) (req : ReqMeta) : Except PyError (List BlockPair) :=
  (List.range' (req.numGpuComputedTokens / cfg.blockSize)
    (req.numComputedTokens / cfg.blockSize - req.numGpuComputedTokens / cfg.blockSize)).mapM (loadPair req)

def bindRequest (cfg : Config) (w : Worker) (entry : RequestId × ReqMeta) : Except PyError Worker := do
  let req := match dictGet entry.1 w.requests with
    | some old => old.update entry.2
    | none => entry.2
  let pairs ← loadPairs cfg req
  pure { w with
    requests := dictSet entry.1 req w.requests
    loadBlockMapping := w.loadBlockMapping ++ pairs }

def queueSave (w : Worker) (r : RequestId) : Worker :=
  match dictGet r w.requests with
  | some req => { w with saveInputQueue := w.saveInputQueue ++ [(r, req)] }
  | none => w

def bindConnectorMetadata (cfg : Config) (w : Worker) (metadata : Metadata) : Except PyError Worker := do
  let w ← metadata.requests.foldlM (bindRequest cfg) w
  blockPairLocality w.loadBlockMapping
  pure (metadata.finishedReqIds.foldl queueSave w)

def savePairs (cfg : Config) (tpRank tpWorldSize : Nat) (req : ReqMeta) : List BlockPair :=
  let start := req.numCpuComputedTokens / cfg.blockSize
  let pairs := ((req.cpuBlockIds.zip req.gpuBlockIds).take
    ((req.numComputedTokens + req.numScheduledTokens) / cfg.blockSize)).drop start
  if cfg.useMla then
    pairs.zipIdx.filterMap fun pair => if pair.2 % tpWorldSize = tpRank then some pair.1 else none
  else pairs

def saveReq (cfg : Config) (tpRank tpWorldSize : Nat) (w : Worker) (entry : RequestId × ReqMeta) :
    Except PyError Worker := do
  let pairs := savePairs cfg tpRank tpWorldSize entry.2
  blockPairLocality pairs
  pairs.forM copyBlock
  pure { w with saveOutputQueue := w.saveOutputQueue ++ [entry.1] }

def forget (requests : List (RequestId × ReqMeta)) (r : RequestId) : Except PyError (List (RequestId × ReqMeta)) := do
  let _ ← lookup r requests
  pure (dictPop r requests)

def drainSaves (cfg : Config) (tpRank tpWorldSize : Nat) (w : Worker) : Except PyError (Worker × List RequestId) := do
  let w ← w.saveInputQueue.foldlM (saveReq cfg tpRank tpWorldSize) w
  let doneSending := w.saveOutputQueue.dedup
  let requests ← doneSending.foldlM forget w.requests
  pure ({ w with requests, saveInputQueue := [], saveOutputQueue := [] }, doneSending)

def countDone (counts : List (RequestId × Nat)) (r : RequestId) : List (RequestId × Nat) :=
  dictSet r ((dictGet r counts).getD 0 + 1) counts

def gatherDone (tpWorldSize : Nat) (w : Worker) (doneSending : List RequestId) (others : List (List RequestId)) :
    Worker × List RequestId :=
  let counts := (doneSending ++ others.flatten).foldl countDone w.doneSendingCount
  ({ w with doneSendingCount := counts.filter fun count => count.2 ≠ tpWorldSize },
    (counts.filter fun count => count.2 = tpWorldSize).map Prod.fst)

def clear (w : Worker) : Worker :=
  { w with loadBlockMapping := [] }

end Worker

/-! ## The group -/

/-- `inFlight` are calls of `cache_and_free_slots` still to be made; `finished`, `reported` and `freed` are logs. -/
structure World (n : Nat) where
  scheduler : ConnectorScheduler := {}
  workers : Fin (n + 1) → Worker := fun _ => {}
  reqToFree : List RequestId := []
  inFlight : List RequestId := []
  remaining : List (RequestId × Nat) := []
  blocks : List (RequestId × List (List Nat)) := []
  finished : List RequestId := []
  reported : List RequestId := []
  freed : List RequestId := []

inductive Event where
  | matched (r : RequestId) (numComputedTokens numCpuComputedTokens : Nat)
  | finished (r : RequestId)
  | bind (output : SchedulerOutput) (newCpuBlockIds : List (RequestId × List Nat))
  | getFinished
  | cacheAndFreeSlots

namespace World

variable {n : Nat}

def assign (blocks : List (RequestId × List (List Nat))) (output : SchedulerOutput) :
    List (RequestId × List (List Nat)) :=
  let blocks := output.preemptedReqIds.foldl (fun blocks r => dictPop r blocks) blocks
  let blocks := output.scheduledNewReqs.foldl (fun blocks req => dictSet req.reqId req.blockIds blocks) blocks
  output.scheduledCachedReqs.foldl (fun blocks req =>
    match req.newBlockIds, dictGet req.reqId blocks with
    | some new, some old => dictSet req.reqId (if req.resumed then new else List.zipWith (· ++ ·) old new) blocks
    | some new, none => dictSet req.reqId new blocks
    | none, _ => blocks) blocks

def bind (cfg : Config) (w : World n) (output : SchedulerOutput) (newCpuBlockIds : List (RequestId × List Nat)) :
    Except PyError (World n) := do
  let (scheduler, metadata) ← w.scheduler.buildConnectorMeta output newCpuBlockIds
  let workers ← collect fun rank => (w.workers rank).bindConnectorMetadata cfg metadata
  pure { w with scheduler, workers, blocks := assign w.blocks output }

/-- The aggregation of the ranks' reports: a request is finished when the last rank has reported it. -/
def aggregate (tpWorldSize : Nat) (state : List (RequestId × Nat) × List RequestId) (r : RequestId) :
    List (RequestId × Nat) × List RequestId :=
  let left := (dictGet r state.1).getD tpWorldSize - 1
  if left = 0 then (dictPop r state.1, state.2 ++ [r]) else (dictSet r left state.1, state.2)

def getFinished (cfg : Config) (w : World n) : Except PyError (World n) := do
  let drained ← collect fun rank => (w.workers rank).drainSaves cfg rank (n + 1)
  let workers := fun rank => (drained rank).1
  let done := fun rank => (drained rank).2
  let (first, reports) :=
    if n = 0 then (workers 0, done 0)
    else (workers 0).gatherDone (n + 1) (done 0) (List.ofFn fun i : Fin n => done i.succ)
  let outputs := reports ++ (List.ofFn fun i : Fin n => done i.succ).flatten
  let (remaining, finishedSending) := outputs.foldl (aggregate (n + 1)) (w.remaining, [])
  pure { w with
    workers := fun rank => (if rank = 0 then first else workers rank).clear
    inFlight := if n = 0 then w.inFlight else w.inFlight ++ reports
    remaining
    blocks := finishedSending.foldl (fun blocks r => dictPop r blocks) w.blocks
    reported := w.reported ++ finishedSending }

def cacheAndFreeSlots (w : World n) : World n :=
  match w.inFlight with
  | [] => w
  | r :: inFlight => { w with inFlight, reqToFree := w.reqToFree.erase r, freed := w.freed ++ [r] }

def step (cfg : Config) (w : World n) : Event → Except PyError (World n)
  | .matched r numComputedTokens numCpuComputedTokens =>
    .ok { w with scheduler :=
      (w.scheduler.getNumNewMatchedTokens cfg.swapInThreshold r numComputedTokens numCpuComputedTokens).1 }
  | .finished r => .ok { w with
      scheduler := w.scheduler.requestFinished r
      reqToFree := if r ∈ w.reqToFree then w.reqToFree else w.reqToFree ++ [r]
      finished := w.finished ++ [r] }
  | .bind output newCpuBlockIds => w.bind cfg output newCpuBlockIds
  | .getFinished => w.getFinished cfg
  | .cacheAndFreeSlots => .ok w.cacheAndFreeSlots

end World

end VllmAscend.Offload
