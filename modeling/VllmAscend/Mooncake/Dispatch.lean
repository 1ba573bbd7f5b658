import Mathlib.Data.Finset.Basic
import VllmAscend.Lib.Python

/-!
# Dispatch of transfer tasks to peers

`KVCacheRecvingThread` of `mooncake_connector.py`: the thread takes tasks off
its queue and puts each into the queue of its peer, and a pool of workers runs
one handler for each peer that has tasks.
-/

namespace VllmAscend.Mooncake

open Python

abbrev RequestId := Nat

abbrev PeerKey := String × Nat

structure Task where
  requestId : RequestId
  peer : PeerKey
  localBlockIds : List (List Nat)
  allTaskDone : Bool
deriving DecidableEq

/-! ## Requests that are waited for -/

structure TaskTracker where
  finishedRequests : List RequestId := []
  delayedFreeRequests : List (RequestId × Nat) := []
  reqsToProcess : Finset RequestId := ∅

namespace TaskTracker

def addReqToProcess (t : TaskTracker) (r : RequestId) : TaskTracker :=
  { t with reqsToProcess := insert r t.reqsToProcess }

def updateDoneTaskCount (t : TaskTracker) (r : RequestId) : TaskTracker :=
  if r ∈ t.reqsToProcess then
    { finishedRequests := t.finishedRequests.insert r
      delayedFreeRequests := dictPop r t.delayedFreeRequests
      reqsToProcess := t.reqsToProcess.erase r }
  else t

def expired (abortRequestTimeout now : Nat) : List (RequestId × Nat) → List RequestId
  | [] => []
  | (r, delayStartTime) :: rest =>
    if now - delayStartTime > abortRequestTimeout then r :: expired abortRequestTimeout now rest else []

def getAndClearFinishedRequests (t : TaskTracker) (abortRequestTimeout now : Nat) : TaskTracker × List RequestId :=
  let expired := expired abortRequestTimeout now t.delayedFreeRequests
  ({ finishedRequests := []
     delayedFreeRequests := t.delayedFreeRequests.drop expired.length
     reqsToProcess := t.reqsToProcess \ expired.toFinset },
    expired ∪ t.finishedRequests)

end TaskTracker

/-! ## The threads -/

inductive Submitter where
  | idle
  /-- The task is counted and not yet in its peer's queue. -/
  | marked (task : Task)
  /-- A handler for the peer is about to be submitted. -/
  | starting (peer : PeerKey)
deriving DecidableEq

/-- Where a run of `_handle_peer_requests` is; `handled` is `requests_handled`. -/
inductive Handler where
  | scheduled (peer : PeerKey)
  | looping (peer : PeerKey) (handled : Nat)
  | transferring (peer : PeerKey) (handled : Nat) (task : Task)
  /-- The transfer is over, `_mark_request_task_done` comes next. -/
  | marking (peer : PeerKey) (handled : Nat) (task : Task)
  /-- The last task of a request is done, the tracker is told next. -/
  | finishing (peer : PeerKey) (handled : Nat) (task : Task)
  | resubmitting (peer : PeerKey)
deriving DecidableEq

def maxRequestsPerPeerHandler : Nat := 5

/-- `taken` logs the tasks as submitted, `handled` as transferred, `reported` what was returned as finished. -/
structure RecvingThread where
  requestQueue : List Task := []
  submitter : Submitter := .idle
  handlers : List Handler := []
  peerRequestQueues : List (PeerKey × List Task) := []
  activePeerRequestHandlers : Finset PeerKey := ∅
  requestTaskCounts : List (RequestId × Nat) := []
  finishedRequestMarkers : Finset RequestId := ∅
  failedRecvRequests : Finset RequestId := ∅
  invalidBlockIds : Finset Nat := ∅
  taskTracker : TaskTracker := {}
  taken : List Task := []
  handled : List Task := []
  reported : List RequestId := []

namespace RecvingThread

/-! ## Counting the tasks of a request -/

def markRequestTaskSubmitted (s : RecvingThread) (t : Task) : RecvingThread :=
  { s with
    requestTaskCounts :=
      dictSet t.requestId ((dictGet t.requestId s.requestTaskCounts).getD 0 + 1) s.requestTaskCounts
    finishedRequestMarkers :=
      if t.allTaskDone then insert t.requestId s.finishedRequestMarkers else s.finishedRequestMarkers }

def markRequestTaskDone (s : RecvingThread) (r : RequestId) (allTaskDone : Bool) : RecvingThread × Bool :=
  match dictGet r s.requestTaskCounts with
  | none => (s, allTaskDone)
  | some pendingCount =>
    if pendingCount - 1 > 0 then
      ({ s with requestTaskCounts := dictSet r (pendingCount - 1) s.requestTaskCounts }, false)
    else
      ({ s with
          requestTaskCounts := dictPop r s.requestTaskCounts
          finishedRequestMarkers := s.finishedRequestMarkers.erase r },
        r ∈ s.finishedRequestMarkers)

/-! ## Transfers -/

def markFailedRecvRequest (s : RecvingThread) (t : Task) : RecvingThread :=
  { s with
    failedRecvRequests := insert t.requestId s.failedRecvRequests
    invalidBlockIds := s.invalidBlockIds ∪ (t.localBlockIds.headD []).toFinset }

/-- The transfer part of `_handle_request`: a request that has failed is not tried again. -/
def transfer (s : RecvingThread) (t : Task) (ok : Bool) : RecvingThread :=
  if t.requestId ∈ s.failedRecvRequests then s.markFailedRecvRequest t
  else if ok then s
  else s.markFailedRecvRequest t

/-! ## Submitting and handling -/

def submit (s : RecvingThread) : RecvingThread :=
  match s.submitter with
  | .idle =>
    match s.requestQueue with
    | [] => s
    | t :: rest =>
      { s.markRequestTaskSubmitted t with requestQueue := rest, submitter := .marked t, taken := s.taken ++ [t] }
  | .marked t =>
    let queues := dictAppend t.peer t s.peerRequestQueues
    if t.peer ∈ s.activePeerRequestHandlers then { s with peerRequestQueues := queues, submitter := .idle }
    else
      { s with
        peerRequestQueues := queues
        activePeerRequestHandlers := insert t.peer s.activePeerRequestHandlers
        submitter := .starting t.peer }
  | .starting p => { s with submitter := .idle, handlers := s.handlers ++ [.scheduled p] }

def release (s : RecvingThread) (p : PeerKey) : RecvingThread :=
  { s with
    peerRequestQueues := dictPop p s.peerRequestQueues
    activePeerRequestHandlers := s.activePeerRequestHandlers.erase p }

def advance (s : RecvingThread) (ok : Bool) : Handler → RecvingThread × Option Handler
  | .scheduled p => (s, some (.looping p 0))
  | .looping p handled =>
    match listAt p s.peerRequestQueues with
    | [] => (s.release p, none)
    | t :: rest =>
      if handled < maxRequestsPerPeerHandler then
        ({ s with peerRequestQueues := dictSet p rest s.peerRequestQueues }, some (.transferring p (handled + 1) t))
      else (s, some (.resubmitting p))
  | .transferring p handled t => ({ s.transfer t ok with handled := s.handled ++ [t] }, some (.marking p handled t))
  | .marking p handled t =>
    let (s', finished) := s.markRequestTaskDone t.requestId t.allTaskDone
    (s', some (if finished then .finishing p handled t else .looping p handled))
  | .finishing p handled t =>
    ({ s with
        taskTracker := s.taskTracker.updateDoneTaskCount t.requestId
        failedRecvRequests := s.failedRecvRequests.erase t.requestId },
      some (.looping p handled))
  | .resubmitting p => (s, some (.scheduled p))

def handle (s : RecvingThread) (i : Nat) (ok : Bool) : RecvingThread :=
  match s.handlers[i]? with
  | none => s
  | some h =>
    let (s', next) := s.advance ok h
    { s' with handlers := s.handlers.eraseIdx i ++ next.toList }

inductive Event where
  | addReqToProcess (r : RequestId)
  | addRequest (t : Task)
  | submit
  | handle (i : Nat) (ok : Bool)
  | getFinished (abortRequestTimeout now : Nat)
deriving DecidableEq

def step (s : RecvingThread) : Event → RecvingThread
  | .addReqToProcess r => { s with taskTracker := s.taskTracker.addReqToProcess r }
  | .addRequest t => { s with requestQueue := s.requestQueue ++ [t] }
  | .submit => s.submit
  | .handle i ok => s.handle i ok
  | .getFinished abortRequestTimeout now =>
    let (tracker, finished) := s.taskTracker.getAndClearFinishedRequests abortRequestTimeout now
    { s with taskTracker := tracker, reported := s.reported ++ finished }

end RecvingThread

end VllmAscend.Mooncake
