import Mathlib.Data.Finset.Card
import VllmAscend.Layerwise.Sender

/-!
# The receiving side of the layerwise connector

`KVCacheRecvingLayerThread` counts the prefill ranks that have said `DONE` for a
request, and `get_finished` of the worker hands the requests on.
-/

namespace VllmAscend.Layerwise

open Python

structure ReqId where
  external : RequestId
  suffix : Nat
deriving DecidableEq

abbrev SideChannelPath := Nat

structure RecvThread where
  doneRequests : List RequestId := []
  failedRequests : List RequestId := []
  taskTracker : List (RequestId × Finset SideChannelPath) := []

namespace RecvThread

def updateFailedTask (t : RecvThread) (r : RequestId) : RecvThread :=
  let tracker := if r ∈ t.taskTracker.map Prod.fst then t.taskTracker else dictSet r ∅ t.taskTracker
  { t with taskTracker := dictPop r tracker, failedRequests := t.failedRequests.insert r }

def updateDoneTask (t : RecvThread) (r : RequestId) (transCount : Nat) (path : SideChannelPath) : RecvThread :=
  let paths := insert path ((dictGet r t.taskTracker).getD ∅)
  if paths.card = transCount then
    { t with taskTracker := dictPop r t.taskTracker, doneRequests := t.doneRequests.insert r }
  else { t with taskTracker := dictSet r paths t.taskTracker }

inductive Message where
  | done (r : RequestId) (transCount : Nat) (path : SideChannelPath)
  | failed (r : RequestId) (path : SideChannelPath)
deriving DecidableEq

def handle (t : RecvThread) : Message → RecvThread
  | .done r transCount path => t.updateDoneTask r transCount path
  | .failed r _ => t.updateFailedTask r

end RecvThread

open RecvThread (Message)

/-- `received` and `failed` log what `get_finished` has found done and failed. -/
structure Decoder where
  thread : RecvThread := {}
  requestMap : List (RequestId × ReqId) := []
  recvingMetadata : List (ReqId × List (List Nat)) := []
  virtualRequest : List ReqId := []
  invalidBlockIds : List Nat := []
  received : List ReqId := []
  failed : List ReqId := []

namespace Decoder

def startLoadKv (w : Decoder) (req : ReqId) (localBlockIds : List (List Nat)) (doVirtual : Bool) : Decoder :=
  if doVirtual then { w with virtualRequest := w.virtualRequest.insert req }
  else { w with
    requestMap := dictSet req.external req w.requestMap
    recvingMetadata := dictSet req localBlockIds w.recvingMetadata }

def doneRecving (w : Decoder) : List ReqId :=
  (w.thread.doneRequests.filterMap (dictGet · w.requestMap) ++ w.virtualRequest).dedup

def failedRecving (w : Decoder) (failedRequests : List RequestId) : List ReqId :=
  failedRequests.filterMap (dictGet · w.requestMap)

/-- `late` are the messages that the thread handles between the two sets being taken from it. -/
def getFinished (w : Decoder) (late : List Message) : Decoder :=
  let thread := late.foldl RecvThread.handle { w.thread with doneRequests := [] }
  let doneRecving := w.doneRecving
  let failedRecving := w.failedRecving thread.failedRequests
  let invalid := failedRecving.flatMap fun req => ((dictGet req w.recvingMetadata).getD []).flatten
  let finished := doneRecving ++ failedRecving
  { thread := { thread with failedRequests := [] }
    requestMap := (finished.map ReqId.external).foldl (fun m r => dictPop r m) w.requestMap
    recvingMetadata := finished.foldl (fun m req => dictPop req m) w.recvingMetadata
    virtualRequest := []
    invalidBlockIds := w.invalidBlockIds ∪ invalid
    received := w.received ++ doneRecving
    failed := w.failed ++ failedRecving }

inductive Event where
  | message (m : Message)
  | startLoad (req : ReqId) (localBlockIds : List (List Nat)) (doVirtual : Bool)
  | getFinished (late : List Message)
deriving DecidableEq

def step (w : Decoder) : Event → Decoder
  | .message m => { w with thread := w.thread.handle m }
  | .startLoad req localBlockIds doVirtual => w.startLoadKv req localBlockIds doVirtual
  | .getFinished late => w.getFinished late

def Event.messages : Event → List Message
  | .message m => [m]
  | .startLoad _ _ _ => []
  | .getFinished late => late

end Decoder

end VllmAscend.Layerwise
