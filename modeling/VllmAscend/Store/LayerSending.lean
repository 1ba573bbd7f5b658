import VllmAscend.Store.LayerAddresses
import VllmAscend.Store.Sending

/-!
# Saving to the KV pool layer by layer

`KVCacheStoreLayerSendingThread` of `kv_transfer.py`, and `save_kv_layer` with
the generators `store_layer` of the worker.
-/

namespace VllmAscend.Store

open Python

/-- `buffers` are the cache tensors of group 0 and `size` the bytes of a chunk, from its tokens and a block length. -/
structure LayerConfig extends SendingConfig where
  finalLayerId : Nat
  buffers : List CacheTensor
  size : Nat → Nat → Nat

structure LayerReq where
  req : ReqMeta
  chunks : List Chunk
  layerId : Nat

/-- A generator of `store_layer`: the layers before `nextLayer` are queued. -/
structure LayerStorer where
  req : ReqMeta
  chunks : List Chunk
  nextLayer : Nat := 0

namespace LayerStorer

def start (cfg : LayerConfig) (req : ReqMeta) : LayerStorer :=
  ⟨req, cfg.db.processTokens req.tokenLenChunk req.blockHashes 0 0, 0⟩

def next (st : LayerStorer) : LayerStorer × Option LayerReq :=
  ({ st with nextLayer := st.nextLayer + 1 }, if st.chunks = [] then none else some ⟨st.req, st.chunks, st.nextLayer⟩)

end LayerStorer

/-- The thread with its queue, and what the worker keeps. `saved`, `taken` and `puts` are logs. -/
structure LayerThread where
  requestQueue : List LayerReq := []
  unfinishedTasks : Nat := 0
  counters : StoreCounters := {}
  finishedRequests : List RequestId := []
  currentLayer : Nat := 0
  layerwiseStorers : List LayerStorer := []
  saved : List ReqMeta := []
  taken : List (LayerReq × GroupAnswer) := []
  puts : List (Nat × PoolKey × List (Nat × Nat)) := []

namespace LayerThread

/-! ## The worker -/

def startLoadKv (s : LayerThread) : LayerThread := { s with currentLayer := 0 }

def beginSave (cfg : LayerConfig) (s : LayerThread) (requests : List ReqMeta) : LayerThread :=
  let saving := requests.filter ReqMeta.canSave
  { s with
    counters := saving.foldl (fun c req => c.addStoredRequest req.reqId) s.counters
    layerwiseStorers := saving.map (LayerStorer.start cfg)
    saved := s.saved ++ saving }

def nextLayers (s : LayerThread) : LayerThread :=
  let items := s.layerwiseStorers.filterMap fun st => st.next.2
  { s with
    layerwiseStorers := s.layerwiseStorers.map fun st => st.next.1
    requestQueue := s.requestQueue ++ items
    unfinishedTasks := s.unfinishedTasks + items.length
    currentLayer := s.currentLayer + 1 }

def saveKvLayer (cfg : LayerConfig) (s : LayerThread) (requests : List ReqMeta) : LayerThread :=
  nextLayers (if s.currentLayer = 0 then s.beginSave cfg requests else s)

/-! ## The thread -/

def ownChunks (cfg : LayerConfig) (chunks : List Chunk) : List Chunk :=
  if cfg.dcpSize ≤ 1 then cfg.shard chunks else chunks

def close (cfg : LayerConfig) (s : LayerThread) (item : LayerReq) : LayerThread :=
  let s' := { s with unfinishedTasks := s.unfinishedTasks - 1 }
  if item.req.isLastChunk = some true ∧ item.layerId = cfg.finalLayerId then
    { s' with
      counters := s.counters.decStoredRequest item.req.reqId
      finishedRequests := s.finishedRequests.insert item.req.reqId }
  else s'

def missing (cfg : LayerConfig) (item : LayerReq) (existing : Option (List Int)) : List Chunk :=
  let chunks := ownChunks cfg item.chunks
  (chunks.zip (lookup existing chunks.length)).filterMap fun (chunk, found) => if found then none else some chunk

def prepare (cfg : LayerConfig) (item : LayerReq) (chunk : Chunk) :
    Except PyError (Nat × PoolKey × List (Nat × Nat)) := do
  let blockIds ← listItem item.req.blockIdsByGroup 0
  let size := cfg.size (chunk.stop - chunk.start)
  let (parts, _) ← prepareValueLayer cfg.db size cfg.buffers chunk.start blockIds item.layerId
  return (item.layerId, chunk.key, parts)

/-- `none`: it raises. -/
def handleRequest (cfg : LayerConfig) (s : LayerThread) (item : LayerReq) (answer : GroupAnswer) : Option LayerThread :=
  if item.req.reqId ∉ s.counters.storedRequests.map Prod.fst then
    some { s with unfinishedTasks := s.unfinishedTasks - 1 }
  else if ownChunks cfg item.chunks = [] then some (s.close cfg item)
  else
    let missing := missing cfg item answer.existing
    if missing = [] then some (s.close cfg item)
    else
      match missing.mapM (prepare cfg item) with
      | .error _ => none
      | .ok puts => if answer.putRaises then none else some ({ s with puts := s.puts ++ puts }.close cfg item)

/-- One turn of `run`, which logs what `_handle_request` raises and goes on. -/
def runOnce (cfg : LayerConfig) (s : LayerThread) (answer : GroupAnswer) : LayerThread :=
  match s.requestQueue with
  | [] => s
  | item :: rest =>
    let s := { s with requestQueue := rest, taken := s.taken ++ [(item, answer)] }
    (handleRequest cfg s item answer).getD s

inductive Event where
  | startLoadKv
  | saveKvLayer (requests : List ReqMeta)
  | handle (answer : GroupAnswer)
  | getFinished (finishedReqIds preemptedReqIds : List RequestId)

def step (cfg : LayerConfig) (s : LayerThread) : Event → LayerThread
  | .startLoadKv => s.startLoadKv
  | .saveKvLayer requests => s.saveKvLayer cfg requests
  | .handle answer => s.runOnce cfg answer
  | .getFinished finishedReqIds preemptedReqIds =>
    { s with counters := s.counters.getAndClearFinishedRequests finishedReqIds preemptedReqIds }

end LayerThread

end VllmAscend.Store
