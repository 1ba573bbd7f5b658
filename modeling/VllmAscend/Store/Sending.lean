import VllmAscend.Store.ConfigData

/-!
# Saving to the KV pool

`KVCacheStoreSendingThread` of `kv_transfer.py` and the worker that feeds it:
`wait_for_save` counts a request and queues it, and waits until the queue is
done.
-/

namespace VllmAscend.Store

open Python

structure GroupAnswer where
  /-- What `exists` returns; `none` if it raises. -/
  existing : Option (List Int)
  putRaises : Bool
deriving DecidableEq

structure Answers where
  group : Nat → GroupAnswer
  storeMask : Option (List (List Bool)) := none

structure SendingConfig where
  db : TokenDatabase
  tpRank : Nat
  dcpSize : Nat
  putStep : Nat
  groupUsesAlignState : List Bool

structure Put where
  chunk : Chunk
  blockId : Nat
deriving DecidableEq

namespace SendingConfig

variable (cfg : SendingConfig)

def shard {α : Type} (l : List α) : List α :=
  l.zipIdx.filterMap fun (x, i) =>
    if cfg.tpRank % cfg.putStep ≤ i ∧ (i - cfg.tpRank % cfg.putStep) % cfg.putStep = 0 then some x else none

def usesAlignState (group : Nat) : Bool := cfg.groupUsesAlignState.getD group false

def groupChunks (req : ReqMeta) (storeMask : Option (List (List Bool))) (group : Nat) : List Put :=
  let blockIds := req.blockIdsByGroup.getD group []
  let chunks := cfg.db.processTokensWithBlockIds req.tokenLenChunk req.blockHashes blockIds 0 group
    (cfg.usesAlignState group)
  let allowed := chunks.filter fun item => cfg.db.maskAllowsChunk storeMask group item.1.start
  let puts := allowed.map fun item => ⟨item.1, item.2⟩
  if cfg.dcpSize ≤ 1 ∧ req.disableTpKeySharding = false ∧ cfg.usesAlignState group = false then cfg.shard puts else puts

end SendingConfig

def lookup (existing : Option (List Int)) (numKeys : Nat) : List Bool :=
  match existing with
  | none => List.replicate numKeys false
  | some res =>
    if res.length ≤ numKeys then (res.map fun value => decide (value = 1)) ++ List.replicate (numKeys - res.length) false
    else List.replicate numKeys false

def missing (puts : List Put) (existing : Option (List Int)) : List Put :=
  (puts.zip (lookup existing puts.length)).filterMap fun (put, found) => if found then none else some put

def ReqMeta.groups (req : ReqMeta) : List Nat := if req.kvCacheGroupIds = [] then [0] else req.kvCacheGroupIds

/-- The groups one after the other, up to a `put` that raises: what is put, and whether one has raised. -/
def storeGroups (cfg : SendingConfig) (req : ReqMeta) (answers : Answers) : List Nat → List Put × Bool
  | [] => ([], false)
  | group :: groups =>
    let puts := missing (cfg.groupChunks req answers.storeMask group) (answers.group group).existing
    if puts = [] then storeGroups cfg req answers groups
    else if (answers.group group).putRaises then (puts, true)
    else
      let (rest, raised) := storeGroups cfg req answers groups
      (puts ++ rest, raised)

/-- A request that the thread has taken, and how often it was marked done and its counter decremented. -/
structure Handled where
  req : ReqMeta
  taskDones : Nat
  decrements : Nat
deriving DecidableEq

/-! ## Counters -/

/-- `finishedSending` is the log of the reports. -/
structure StoreCounters where
  storedRequests : List (RequestId × Int) := []
  finishedStoreReq : List RequestId := []
  finishedSending : List RequestId := []

namespace StoreCounters

def addStoredRequest (c : StoreCounters) (r : RequestId) : StoreCounters :=
  { c with storedRequests := dictSet r ((dictGet r c.storedRequests).getD 0 + 1) c.storedRequests }

def decStoredRequest (c : StoreCounters) (r : RequestId) : StoreCounters :=
  match dictGet r c.storedRequests with
  | none => c
  | some n => { c with storedRequests := dictSet r (n - 1) c.storedRequests }

def deleteFinishedStoredRequest (c : StoreCounters) (r : RequestId) : StoreCounters :=
  { c with storedRequests := dictPop r c.storedRequests }

def sendFinishedStores : List RequestId → StoreCounters → StoreCounters
  | [], c => c
  | r :: rs, c =>
    if dictGet r c.storedRequests = some 0 ∧ r ∈ c.finishedStoreReq then
      sendFinishedStores rs { c.deleteFinishedStoredRequest r with
        finishedStoreReq := c.finishedStoreReq.erase r
        finishedSending := c.finishedSending ++ [r] }
    else sendFinishedStores rs c

def sendFinishedRequests : List RequestId → StoreCounters → StoreCounters
  | [], c => c
  | r :: rs, c =>
    match dictGet r c.storedRequests with
    | none => sendFinishedRequests rs c
    | some remaining =>
      if remaining = 0 then
        sendFinishedRequests rs { c.deleteFinishedStoredRequest r with finishedSending := c.finishedSending ++ [r] }
      else sendFinishedRequests rs { c with finishedStoreReq := c.finishedStoreReq.insert r }

def getAndClearFinishedRequests (c : StoreCounters) (finishedReqIds preemptedReqIds : List RequestId) : StoreCounters :=
  let c := preemptedReqIds.foldl deleteFinishedStoredRequest c
  sendFinishedRequests finishedReqIds (sendFinishedStores (c.storedRequests.map Prod.fst) c)

end StoreCounters

/-! ## The thread -/

/-- The thread and its queue. `handled` and `puts` are logs. -/
structure SendingThread where
  requestQueue : List ReqMeta := []
  unfinishedTasks : Nat := 0
  counters : StoreCounters := {}
  completedEvents : List Nat := []
  handled : List Handled := []
  puts : List (RequestId × Put) := []

namespace SendingThread

def markCompletedEvents (s : SendingThread) (eventId : Option Nat) : SendingThread :=
  { s with completedEvents := s.completedEvents ++ eventId.toList }

def taskDone (s : SendingThread) : SendingThread := { s with unfinishedTasks := s.unfinishedTasks - 1 }

def save (s : SendingThread) (req : ReqMeta) : SendingThread :=
  if req.canSave then
    { s with
      counters := s.counters.addStoredRequest req.reqId
      requestQueue := s.requestQueue ++ [req]
      unfinishedTasks := s.unfinishedTasks + 1 }
  else s

/-- `_handle_request`. An exception passes through `finally` and skips what comes after it. -/
def handleRequest (cfg : SendingConfig) (s : SendingThread) (req : ReqMeta) (answers : Answers) : SendingThread :=
  if req.reqId ∉ s.counters.storedRequests.map Prod.fst then
    { (s.taskDone.markCompletedEvents req.eventId) with handled := s.handled ++ [⟨req, 1, 0⟩] }
  else
    let (puts, raised) := storeGroups cfg req answers req.groups
    let s' := { s.markCompletedEvents req.eventId with puts := s.puts ++ puts.map fun put => (req.reqId, put) }
    if raised then { s' with handled := s.handled ++ [⟨req, 0, 0⟩] }
    else { s'.taskDone with
      counters := s.counters.decStoredRequest req.reqId
      handled := s.handled ++ [⟨req, 1, 1⟩] }

def runOnce (cfg : SendingConfig) (s : SendingThread) (answers : Answers) : SendingThread :=
  match s.requestQueue with
  | [] => s
  | req :: rest => handleRequest cfg { s with requestQueue := rest } req answers

inductive Event where
  | save (req : ReqMeta)
  | handle (answers : Answers)
  | getFinished (finishedReqIds preemptedReqIds : List RequestId)

def step (cfg : SendingConfig) (s : SendingThread) : Event → SendingThread
  | .save req => s.save req
  | .handle answers => s.runOnce cfg answers
  | .getFinished finishedReqIds preemptedReqIds =>
    { s with counters := s.counters.getAndClearFinishedRequests finishedReqIds preemptedReqIds }

/-- `wait_for_save` joins the queue before the worker goes on to `get_finished`. -/
def Allowed (s : SendingThread) : Event → Prop
  | .getFinished _ _ => s.unfinishedTasks = 0
  | _ => True

end SendingThread

end VllmAscend.Store
