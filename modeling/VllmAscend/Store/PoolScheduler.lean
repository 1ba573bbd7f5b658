import VllmAscend.Store.ConfigData

/-!
# The scheduler side of the KV pool

`KVPoolScheduler` of `pool_scheduler.py`: the external hits of a waiting
request, and `build_connector_meta`, which at every step brings the request
trackers up to date and hands the workers what to load and to save.
-/

namespace VllmAscend.Store

open Python

structure Request where
  promptLen : Nat
  numTokens : Nat
  numComputedTokens : Nat
  blockHashes : List BlockHash

structure NewRequest where
  reqId : RequestId
  promptLen : Nat
  blockIds : List (List Nat)
  numComputedTokens : Nat

structure CachedRequest where
  reqId : RequestId
  newBlockIds : Option (List (List Nat))
  numComputedTokens : Nat

structure SchedulerOutput where
  finishedReqIds : List RequestId := []
  preemptedReqIds : List RequestId := []
  scheduledNewReqs : List NewRequest := []
  scheduledCachedReqs : List CachedRequest := []
  numScheduledTokens : RequestId → Nat

def SchedulerOutput.scheduledIds (out : SchedulerOutput) : List RequestId :=
  out.scheduledNewReqs.map NewRequest.reqId ++ out.scheduledCachedReqs.map CachedRequest.reqId

structure PoolConfig where
  cacheTransferGranularity : Nat
  discardPartialChunks : Bool := true
  kvConsumer : Bool := false
  consumerIsToLoad : Bool := false
  consumerIsToPut : Bool := false
  loadAsync : Bool := false
  useLayerwise : Bool := false
  numGroups : Nat := 1
  useHybrid : Bool := false
  mambaGroupIds : List Nat := []
  numSpeculativeBlocks : Nat := 0
  groupedBlockSize : List Nat

structure Metadata where
  unfinishedRequestIds : List RequestId
  preemptedReqIds : List RequestId
  requests : List ReqMeta

structure PoolScheduler where
  loadSpecs : List (RequestId × LoadSpec) := []
  requestTrackers : List (RequestId × RequestTracker) := []
  preemptedReqIds : List RequestId := []
  /-- The blocks a request was given for its external tokens; the request itself is the engine's. -/
  unfinishedRequests : List (RequestId × List (List Nat)) := []
  unfinishedRequestIds : List RequestId := []
  sendingEventId : Nat := 0
  sendingEvents : List (Nat × Nat) := []
  sendingBlocks : List (Nat × List Nat) := []

namespace PoolConfig

variable (cfg : PoolConfig)

def floorToCacheTransferGranularity (tokenLen : Nat) : Nat :=
  tokenLen / cfg.cacheTransferGranularity * cfg.cacheTransferGranularity

def forceSkipSave : Bool := cfg.kvConsumer && !cfg.consumerIsToPut

def lastChunkTokensNum (promptLen : Nat) : Nat :=
  if cfg.discardPartialChunks then cfg.floorToCacheTransferGranularity promptLen else promptLen

def newTracker (reqId : RequestId) (tokenLen promptLen : Nat) (blockIds : List (List Nat)) : RequestTracker where
  reqId
  tokenLen
  allocatedBlockIdsByGroup := blockIds
  numPromptTokens := promptLen
  mambaGroupIds := cfg.mambaGroupIds
  numSpeculativeBlocks := cfg.numSpeculativeBlocks
  blockSizes := cfg.groupedBlockSize

end PoolConfig

namespace PoolScheduler

/-! ## Requests that wait -/

def getNumNewMatchedTokens (cfg : PoolConfig) (s : PoolScheduler) (r : RequestId) (req : Request)
    (numComputedTokens hit : Nat) : PoolScheduler × Nat × Bool :=
  if cfg.kvConsumer ∧ ¬ cfg.consumerIsToLoad then (s, 0, false)
  else if cfg.lastChunkTokensNum req.promptLen < cfg.cacheTransferGranularity then (s, 0, false)
  else
    let numExternalHitTokens := if hit = req.numTokens then hit - 1 else hit
    let needToAllocate := numExternalHitTokens - numComputedTokens
    if needToAllocate = 0 then (s, 0, false)
    else
      ({ s with loadSpecs := dictSet r ⟨numComputedTokens, numExternalHitTokens, false⟩ s.loadSpecs },
        needToAllocate, cfg.loadAsync && !cfg.useLayerwise)

def updateStateAfterAlloc (cfg : PoolConfig) (s : PoolScheduler) (r : RequestId) (blockIds : List (List Nat))
    (numExternalTokens : Nat) : Except PyError PoolScheduler :=
  let localBlockIds := if 0 < numExternalTokens then blockIds else List.replicate cfg.numGroups []
  let s := { s with
    unfinishedRequests := dictSet r localBlockIds s.unfinishedRequests
    unfinishedRequestIds := s.unfinishedRequestIds.insert r }
  match dictGet r s.loadSpecs with
  | none => .ok s
  | some spec =>
    if numExternalTokens = 0 then .ok { s with loadSpecs := dictSet r { spec with canLoad := false } s.loadSpecs }
    else if (numExternalTokens : Int) ≠ spec.kvpoolCachedTokens - spec.vllmCachedTokens then
      let cached := spec.kvpoolCachedTokens
      let computed := spec.vllmCachedTokens
      .error (.assertionError
        s!"Mismatch in number of tokens: {numExternalTokens} vs {cached} - {computed} for request {r}")
    else .ok { s with loadSpecs := dictSet r { spec with canLoad := true } s.loadSpecs }

/-! ## A step of the engine -/

def touchSendingMambaBlocks (cfg : PoolConfig) (s : PoolScheduler) (req : ReqMeta) : PoolScheduler × ReqMeta :=
  if ¬ cfg.useHybrid ∨ cfg.mambaGroupIds = [] ∨ ¬ req.canSave then (s, req)
  else
    let blocks := cfg.mambaGroupIds.flatMap fun group => (req.blockIdsByGroup.getD group []).filter (0 < ·)
    ({ s with
        sendingEventId := s.sendingEventId + 1
        sendingEvents := dictSet s.sendingEventId 0 s.sendingEvents
        sendingBlocks := dictSet s.sendingEventId blocks s.sendingBlocks },
      { req with eventId := some s.sendingEventId })

def addRequest (cfg : PoolConfig) (s : PoolScheduler) : Option ReqMeta → PoolScheduler × Option ReqMeta
  | none => (s, none)
  | some req => ((s.touchSendingMambaBlocks cfg req).1, some (s.touchSendingMambaBlocks cfg req).2)

def emit (cfg : PoolConfig) (s : PoolScheduler) (tr : RequestTracker) (loadSpec : Option LoadSpec) (skipSave : Bool)
    (blockHashes : List BlockHash) (isLastChunk : Option Bool) : PoolScheduler × Option ReqMeta :=
  let made := ReqMeta.fromRequestTracker tr cfg.cacheTransferGranularity loadSpec skipSave blockHashes isLastChunk
    cfg.discardPartialChunks
  { s with requestTrackers := dictSet tr.reqId made.1 s.requestTrackers }.addRequest cfg made.2

def isLastChunk (cfg : PoolConfig) (tr : RequestTracker) (promptLen : Nat) : Option Bool :=
  some (decide (cfg.lastChunkTokensNum promptLen ≤ tr.tokenLen))

def notSubscriptable : PyError := .typeError "'NoneType' object is not subscriptable"

def popLoadSpec (s : PoolScheduler) (r : RequestId) : Option LoadSpec × PoolScheduler :=
  (dictGet r s.loadSpecs, { s with loadSpecs := dictPop r s.loadSpecs })

def newRequest (cfg : PoolConfig) (requests : RequestId → Request) (scheduled : RequestId → Nat) (s : PoolScheduler)
    (req : NewRequest) : Except PyError (PoolScheduler × Option ReqMeta) :=
  let (loadSpec, s) := s.popLoadSpec req.reqId
  if req.reqId ∉ s.unfinishedRequests.map Prod.fst then .error notSubscriptable
  else
    let tr := cfg.newTracker req.reqId (req.numComputedTokens + scheduled req.reqId) req.promptLen req.blockIds
    .ok (s.emit cfg tr loadSpec cfg.forceSkipSave (requests req.reqId).blockHashes (isLastChunk cfg tr req.promptLen))

def resumedRequest (cfg : PoolConfig) (requests : RequestId → Request) (scheduled : RequestId → Nat)
    (s : PoolScheduler) (r : RequestId) (newBlockIds : List (List Nat)) :
    Except PyError (PoolScheduler × Option ReqMeta) :=
  let (loadSpec, s) := { s with preemptedReqIds := s.preemptedReqIds.filter (· ≠ r) }.popLoadSpec r
  if r ∉ s.unfinishedRequests.map Prod.fst then .error notSubscriptable
  else
    let req := requests r
    let tr := cfg.newTracker r (req.numComputedTokens + scheduled r) req.promptLen newBlockIds
    .ok (s.emit cfg tr loadSpec cfg.forceSkipSave req.blockHashes (isLastChunk cfg tr req.promptLen))

def runningRequest (cfg : PoolConfig) (requests : RequestId → Request) (scheduled : RequestId → Nat)
    (s : PoolScheduler) (r : RequestId) (newBlockIds : List (List Nat)) (numComputedTokens : Nat) :
    Except PyError (PoolScheduler × Option ReqMeta) :=
  match dictGet r s.requestTrackers with
  | none => .error (.keyError s!"{r}")
  | some tr =>
    if r ∉ s.unfinishedRequests.map Prod.fst then
      .error (.valueError s!"Request {r} is not in _unfinished_requests, but it is scheduled to be cached")
    else
      let req := requests r
      -- `all_token_ids` ends at the tokens that are known.
      let newTokens := min (scheduled r) (req.numTokens - tr.tokenLen)
      let tr := { tr with tokenLen := tr.tokenLen + newTokens }
      if req.promptLen ≤ numComputedTokens then
        .ok ({ s with requestTrackers := dictSet r tr s.requestTrackers }, none)
      else
        let tr := tr.update newBlockIds req.numComputedTokens
        .ok (s.emit cfg tr none cfg.forceSkipSave req.blockHashes (isLastChunk cfg tr req.promptLen))

def cachedRequest (cfg : PoolConfig) (requests : RequestId → Request) (scheduled : RequestId → Nat)
    (s : PoolScheduler) (req : CachedRequest) : Except PyError (PoolScheduler × Option ReqMeta) :=
  match req.newBlockIds with
  | none => .ok (s, none)
  | some newBlockIds =>
    if req.reqId ∈ s.preemptedReqIds then s.resumedRequest cfg requests scheduled req.reqId newBlockIds
    else s.runningRequest cfg requests scheduled req.reqId newBlockIds req.numComputedTokens

def waitingRequest (cfg : PoolConfig) (requests : RequestId → Request) (scheduledIds : List RequestId)
    (s : PoolScheduler) (item : RequestId × List (List Nat)) : Except PyError (PoolScheduler × Option ReqMeta) :=
  if item.1 ∈ scheduledIds then .ok (s, none)
  else
    match s.popLoadSpec item.1 with
    | (none, s) => .ok (s, none)
    | (some spec, s) =>
      let req := requests item.1
      let cached := spec.kvpoolCachedTokens
      let tokens := if cached % cfg.cacheTransferGranularity ≠ 0 ∧ cached + 1 = req.promptLen then cached + 1 else cached
      .ok (s.emit cfg (cfg.newTracker item.1 tokens req.promptLen item.2) (some spec) false req.blockHashes none)

def collect {α : Type} (turn : PoolScheduler → α → Except PyError (PoolScheduler × Option ReqMeta)) :
    PoolScheduler → List α → Except PyError (PoolScheduler × List ReqMeta)
  | s, [] => .ok (s, [])
  | s, a :: l => do
    let (s, meta?) ← turn s a
    let (s, metas) ← collect turn s l
    return (s, meta?.toList ++ metas)

def finish (s : PoolScheduler) (r : RequestId) : PoolScheduler :=
  { s with
    requestTrackers := dictPop r s.requestTrackers
    unfinishedRequests := dictPop r s.unfinishedRequests
    unfinishedRequestIds := s.unfinishedRequestIds.filter (· ≠ r)
    preemptedReqIds := s.preemptedReqIds.filter (· ≠ r) }

def preempt (s : PoolScheduler) (r : RequestId) : PoolScheduler :=
  { s with
    preemptedReqIds := s.preemptedReqIds.insert r
    requestTrackers := dictPop r s.requestTrackers
    unfinishedRequests := dictPop r s.unfinishedRequests }

def buildConnectorMeta (cfg : PoolConfig) (s : PoolScheduler) (requests : RequestId → Request)
    (out : SchedulerOutput) : Except PyError (PoolScheduler × Metadata) := do
  let s := out.preemptedReqIds.foldl preempt (out.finishedReqIds.foldl finish s)
  let (s, new) ← collect (newRequest cfg requests out.numScheduledTokens) s out.scheduledNewReqs
  let (s, cached) ← collect (cachedRequest cfg requests out.numScheduledTokens) s
    (if cfg.forceSkipSave then [] else out.scheduledCachedReqs)
  let (s, waiting) ← collect (waitingRequest cfg requests out.scheduledIds) s s.unfinishedRequests
  return (s, ⟨s.unfinishedRequestIds, out.preemptedReqIds, new ++ cached ++ waiting⟩)

end PoolScheduler

end VllmAscend.Store
