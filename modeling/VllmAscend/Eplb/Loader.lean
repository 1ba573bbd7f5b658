import VllmAscend.Eplb.Placement
import VllmAscend.Eplb.Updator
import VllmAscend.Lib.Batch

/-!
# The D2D loader

`D2DExpertWeightLoader` on every rank, with the part of the adaptor that it
reads and writes: the rank's map, the tensors of each slot of each layer, and
the buffers, which all layers with one weight key share.
-/

namespace VllmAscend.Eplb

open Python Batch

inductive ExpertWeightUpdateState where
  | waiting
  | ready
  | transferring
deriving DecidableEq

variable {n : Nat} {κ τ : Type} [DecidableEq κ]

structure Adaptor (κ τ : Type) where
  expertMapPerLayerCpu : List Table
  expertParamPerLayer : List (List (List τ))
  expertWeightKeyPerLayer : List κ
  bufferTensorList : κ → List (List τ)

abbrev BufferTensor := Nat × Nat

structure Loader (n : Nat) (κ τ : Type) where
  adaptor : Adaptor κ τ
  state : ExpertWeightUpdateState := .waiting
  commOpList : List (Op (Fin n) BufferTensor τ) := []
  updatedExpertMap : Table := []
  layerId : Nat := 0
  recvExpertList : List (Option Nat × Nat) := []

def pyGet {α : Type} (l : List α) (i : Nat) : Except PyError α :=
  match l[i]? with
  | some a => pure a
  | none => throw (.indexError "list index out of range")

def slotIndex (length : Nat) (entry : Option Nat) : Nat :=
  entry.getD (length - 1)

def sendOps (adaptor : Adaptor κ τ) (layerId : Nat) (send : Fin n × Nat) :
    Except PyError (List (Op (Fin n) BufferTensor τ)) := do
  let expertMap ← pyGet adaptor.expertMapPerLayerCpu layerId
  let localExpertId ← pyGet expertMap send.2
  let params ← pyGet adaptor.expertParamPerLayer layerId
  let tensors ← pyGet params (slotIndex params.length localExpertId)
  pure (tensors.map (.send send.1))

def recvOps (adaptor : Adaptor κ τ) (updatedExpertMap : Table) (layerId : Nat) (recv : (Fin n × Nat) × Nat) :
    Except PyError (List (Op (Fin n) BufferTensor τ) × Option Nat × Nat) := do
  let ((recvRank, globalExpertIdToRecv), bufferTensorId) := recv
  let expertWeightKey ← pyGet adaptor.expertWeightKeyPerLayer layerId
  let buffer ← pyGet (adaptor.bufferTensorList expertWeightKey) bufferTensorId
  let localExpertToReplace ← pyGet updatedExpertMap globalExpertIdToRecv
  pure ((List.range buffer.length).map fun i => .recv recvRank (bufferTensorId, i),
    localExpertToReplace, bufferTensorId)

def generateExpertD2DTransferTask (loader : Loader n κ τ) (info : PackedInfo n) : Except PyError (Loader n κ τ) := do
  if loader.state ≠ .waiting then return loader
  let sends ← info.sendInfo.mapM (sendOps loader.adaptor info.layerId)
  let recvs ← info.recvInfo.zipIdx.mapM (recvOps loader.adaptor info.expertMap info.layerId)
  pure { loader with
    updatedExpertMap := info.expertMap
    layerId := info.layerId
    commOpList := sends.flatten ++ recvs.flatMap Prod.fst
    recvExpertList := loader.recvExpertList ++ recvs.map Prod.snd
    state := .ready }

def asynExpertWeightTransfer (loader : Loader n κ τ) : Loader n κ τ × List (Op (Fin n) BufferTensor τ) :=
  if loader.state ≠ .ready then (loader, [])
  else ({ loader with state := .transferring }, loader.commOpList)

def writeBuffer (buffers : List (List τ)) (message : BufferTensor × τ) : List (List τ) :=
  buffers.modify message.1.1 fun buffer => buffer.set message.1.2 message.2

def copyTensors (expert buffer : List τ) : List τ :=
  buffer.take expert.length ++ expert.drop buffer.length

def doUpdateExpertWeight (buffers : List (List τ)) (params : List (List τ)) (recv : Option Nat × Nat) :
    Except PyError (List (List τ)) := do
  let slot := slotIndex params.length recv.1
  let expert ← pyGet params slot
  let buffer ← pyGet buffers recv.2
  pure (params.set slot (copyTensors expert buffer))

def updateExpertMapAndWeight (loader : Loader n κ τ) (messages : List (BufferTensor × τ)) :
    Except PyError (Loader n κ τ) := do
  if loader.state ≠ .transferring then return loader
  let adaptor := loader.adaptor
  let expertWeightKey ← pyGet adaptor.expertWeightKeyPerLayer loader.layerId
  let buffers := messages.foldl writeBuffer (adaptor.bufferTensorList expertWeightKey)
  let _ ← pyGet adaptor.expertMapPerLayerCpu loader.layerId
  let params ← pyGet adaptor.expertParamPerLayer loader.layerId
  let params ← loader.recvExpertList.foldlM (doUpdateExpertWeight buffers) params
  pure { loader with
    adaptor := { adaptor with
      expertMapPerLayerCpu := adaptor.expertMapPerLayerCpu.set loader.layerId loader.updatedExpertMap
      expertParamPerLayer := adaptor.expertParamPerLayer.set loader.layerId params
      bufferTensorList := Function.update adaptor.bufferTensorList expertWeightKey buffers }
    commOpList := []
    recvExpertList := []
    updatedExpertMap := []
    layerId := 0
    state := .waiting }

/-! ## All ranks -/

def finishLayer (posted : Fin n → List (Op (Fin n) BufferTensor τ)) (loader : Loader n κ τ) (rank : Fin n) :
    Except Fault (Loader n κ τ) :=
  match received posted rank with
  | none => .error .blocked
  | some messages => (updateExpertMapAndWeight loader messages).mapError .raised

def executeLayer (loaders : Fin n → Loader n κ τ) (info : UpdateInfo n) : Except Fault (Fin n → Loader n κ τ) := do
  let ready ← collect fun rank =>
    (generateExpertD2DTransferTask (loaders rank) (packUpdateInfo rank info)).mapError .raised
  let posted := fun rank => asynExpertWeightTransfer (ready rank)
  collect fun rank => finishLayer (fun src => (posted src).2) (posted rank).1 rank

def execute (loaders : Fin n → Loader n κ τ) (plan : List (UpdateInfo n)) : Except Fault (Fin n → Loader n κ τ) :=
  plan.foldlM executeLayer loaders

end VllmAscend.Eplb
