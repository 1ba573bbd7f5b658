import Mathlib.Data.Finset.Basic
import VllmAscend.Lib.Python

/-!
# The sending thread of the layerwise connector

`KVCacheSendingLayerThread` of `mooncake_layerwise_connector.py`: a task names
the requests whose blocks of one layer are sent.
-/

namespace VllmAscend.Layerwise

open Python

abbrev RequestId := Nat

abbrev SessionId := String × Nat

structure Transfer where
  src : Nat
  dst : Nat
  length : Nat
deriving DecidableEq

structure SendMeta where
  remoteHost : String
  remoteTeRpcPort : Nat
  transfers : List Transfer
  chunkFinish : Bool

def SendMeta.sessionId (req : SendMeta) : SessionId := (req.remoteHost, req.remoteTeRpcPort)

/-- `save_kv_layer` leaves out the requests that have no block in the group of the layer. -/
structure SendTask where
  sendRequest : List (RequestId × SendMeta)
  layerIdx : Nat
  nodup : (sendRequest.map Prod.fst).Nodup
  moving : ∀ req ∈ sendRequest, req.2.transfers ≠ []

structure TransferMeta where
  transfers : List Transfer := []
  reqIds : List RequestId := []

inductive Signal where
  | done
  | failed
deriving DecidableEq, Repr

/-- `signals` logs the calls of `callback_func`. -/
structure Sender where
  failedReqs : Finset RequestId := ∅
  signals : List (RequestId × Signal) := []

def addTransfers (sessions : List (SessionId × TransferMeta)) (req : RequestId × SendMeta) :
    List (SessionId × TransferMeta) :=
  let old := (dictGet req.2.sessionId sessions).getD {}
  dictSet req.2.sessionId ⟨old.transfers ++ req.2.transfers, old.reqIds ++ [req.1]⟩ sessions

def SendTask.sessionMeta (task : SendTask) : List (SessionId × TransferMeta) :=
  task.sendRequest.foldl addTransfers []

/-- The signal of a request after the last layer. The loop variable of the caller is overwritten. -/
def SendTask.signal (task : SendTask) (s : Option RequestId × Sender) (r : RequestId) : Option RequestId × Sender :=
  (some r,
    if (dictGet r task.sendRequest).any (·.chunkFinish) then
      if r ∈ s.2.failedReqs then ⟨s.2.failedReqs.erase r, s.2.signals ++ [(r, .failed)]⟩
      else { s.2 with signals := s.2.signals ++ [(r, .done)] }
    else s.2)

def charge (s : Option RequestId × Sender) : Option RequestId × Sender :=
  (s.1, s.1.elim s.2 fun r => { s.2 with failedReqs := insert r s.2.failedReqs })

/-- The transfer of one session. A failure is charged to the request in the loop variable `req_id`. -/
def SendTask.sendSession (totalLayers : Nat) (task : SendTask) (ret : SessionId → Int) (s : Option RequestId × Sender)
    (session : SessionId × TransferMeta) : Option RequestId × Sender :=
  if session.2.transfers = [] then s
  else
    let charged := if ret session.1 < 0 then charge s else s
    if task.layerIdx + 1 = totalLayers then session.2.reqIds.foldl task.signal charged else charged

/-- `ret` is what the transfer call of a session returns; a call that raises is not modelled. -/
def Sender.transferKvCache (totalLayers : Nat) (s : Sender) (task : SendTask) (ret : SessionId → Int) : Sender :=
  (task.sessionMeta.foldl (task.sendSession totalLayers ret) (task.sendRequest.getLast?.map Prod.fst, s)).2

structure Handled where
  task : SendTask
  ret : SessionId → Int

def Sender.run (totalLayers : Nat) (history : List Handled) : Sender :=
  history.foldl (fun s h => s.transferKvCache totalLayers h.task h.ret) {}

/-! ## What a request is to be told -/

def Handled.ownFailed (h : Handled) (r : RequestId) : Bool :=
  h.task.sendRequest.any fun req => req.1 = r && decide (h.ret req.2.sessionId < 0)

def Handled.finishes (totalLayers : Nat) (h : Handled) (r : RequestId) : Bool :=
  decide (h.task.layerIdx + 1 = totalLayers) && (dictGet r h.task.sendRequest).any (·.chunkFinish)

end VllmAscend.Layerwise
