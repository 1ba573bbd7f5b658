import VllmAscend.Lib.Python
import VllmAscend.Lib.Streams

/-!
# The mapped offload handler

`MappedOffloadingHandler`: stores and loads of KV blocks as asynchronous work on
device streams, with pools of streams, events, descriptor buffers and id
buffers, and the record of a submission that failed half way.
-/

namespace VllmAscend.Mapped

open Python Streams

abbrev JobId := Nat

/-- `MAPPED_GATHER_ID_BUFFER_CACHE_SIZE` and `MAPPED_GATHER_MAX_CACHED_IDS`. -/
def idBufferCacheSize : Nat := 4
def maxCachedIds : Nat := 256 * 1024

/-! ## The plan of a transfer -/

structure DataRef where
  tensorIdx : Nat
  pageSizeBytes : Nat

structure Layout where
  groupRefs : List (List DataRef)
  cpuRows : List Nat
  npuRows : List Nat

structure BlockIds where
  ids : List Int
  ndim : Nat := 1
  integerType : Bool := true

structure Spec where
  npu : BlockIds
  groupSizes : List Int
  numBlockIndices : Nat
  cpu : Option BlockIds

structure Plan where
  srcBlocks : List Int
  dstBlocks : List Int
  groupSizes : List Nat
  numCopyOps : Nat
  numTransferBytes : Nat

def checkGroupSizes : Nat → List Int → Except PyError Unit
  | _, [] => .ok ()
  | i, size :: sizes =>
    if size < 0 then .error (.valueError s!"KV group {i} has negative size {size}") else checkGroupSizes (i + 1) sizes

def Layout.makeTransferPlan (layout : Layout) (src dst : BlockIds) (spec : Spec) : Except PyError Plan :=
  if src.ndim ≠ 1 ∨ dst.ndim ≠ 1 then .error (.valueError "source and destination block IDs must be 1D")
  else if spec.groupSizes.length ≠ layout.groupRefs.length then
    .error (.valueError "group_sizes does not match canonical KV groups")
  else if spec.numBlockIndices ≠ layout.groupRefs.length then
    .error (.valueError "block_indices does not match canonical KV groups")
  else do
    checkGroupSizes 0 spec.groupSizes
    let sizes := spec.groupSizes.map Int.toNat
    return {
      srcBlocks := src.ids
      dstBlocks := dst.ids
      groupSizes := sizes
      numCopyOps := ((sizes.zip layout.groupRefs).map fun (size, refs) => size * refs.length).sum
      numTransferBytes :=
        ((sizes.zip layout.groupRefs).map fun (size, refs) => size * (refs.map DataRef.pageSizeBytes).sum).sum }

/-- The loop of `_prepare_store_descriptors`, from block `offset` and descriptor `opIdx` on. -/
def storeGroups (plan : Plan) : Nat → Nat → Nat → List (Nat × List DataRef) → Except PyError (Nat × Nat)
  | _, offset, opIdx, [] => .ok (offset, opIdx)
  | i, offset, opIdx, (size, refs) :: groups =>
    if size = 0 then storeGroups plan (i + 1) offset opIdx groups
    else if plan.srcBlocks.length < offset + size ∨ plan.dstBlocks.length < offset + size then
      .error (.valueError s!"store group {i} exceeds its block-ID array")
    else storeGroups plan (i + 1) (offset + size) (opIdx + size * refs.length) groups

def Layout.checkStoreDescriptors (layout : Layout) (plan : Plan) : Except PyError Unit := do
  let (offset, opIdx) ← storeGroups plan 0 0 0 (plan.groupSizes.zip layout.groupRefs)
  if offset ≠ plan.srcBlocks.length ∨ offset ≠ plan.dstBlocks.length then
    throw (.valueError "store groups do not consume all block IDs")
  if opIdx ≠ plan.numCopyOps then throw (.valueError "copy descriptor count does not match the plan")

def Layout.validateGroup (layout : Layout) (i : Nat) (src dst : List Int) (refs : List DataRef) :
    Except PyError Unit := do
  if src.any (· < 0) ∨ dst.any (· < 0) then
    throw (.valueError s!"mapped-gather group {i} contains negative block IDs")
  let srcMax := src.foldl max 0
  let dstMax := dst.foldl max 0
  if 2 ^ 31 - 1 < srcMax ∨ 2 ^ 31 - 1 < dstMax then
    throw (.valueError s!"mapped-gather group {i} block IDs exceed int32 range")
  refs.forM fun ref => do
    let srcRows := layout.cpuRows.getD ref.tensorIdx 0
    let dstRows := layout.npuRows.getD ref.tensorIdx 0
    let tensor := ref.tensorIdx
    if (srcRows : Int) ≤ srcMax then
      throw (.valueError s!"mapped-gather group {i} source block ID {srcMax} is out of bounds for tensor {tensor} with {srcRows} rows")
    if (dstRows : Int) ≤ dstMax then
      throw (.valueError s!"mapped-gather group {i} destination block ID {dstMax} is out of bounds for tensor {tensor} with {dstRows} rows")

def Layout.validateGroups (layout : Layout) (plan : Plan) :
    Nat → Nat → List (Nat × List DataRef) → Except PyError Nat
  | _, offset, [] => .ok offset
  | i, offset, (size, refs) :: groups =>
    if plan.srcBlocks.length < offset + size ∨ plan.dstBlocks.length < offset + size then
      .error (.valueError s!"mapped-gather group {i} exceeds its block-ID array")
    else do
      if size ≠ 0 then
        layout.validateGroup i ((plan.srcBlocks.drop offset).take size) ((plan.dstBlocks.drop offset).take size) refs
      layout.validateGroups plan (i + 1) (offset + size) groups

def Layout.validateMappedIds (layout : Layout) (src dst : BlockIds) (plan : Plan) : Except PyError Unit := do
  if ¬ src.integerType ∨ ¬ dst.integerType then
    throw (.valueError "mapped-gather block IDs must have an integer dtype")
  let offset ← layout.validateGroups plan 0 0 (plan.groupSizes.zip layout.groupRefs)
  if offset ≠ plan.srcBlocks.length ∨ offset ≠ plan.dstBlocks.length then
    throw (.valueError "mapped-gather group sizes do not consume all block IDs")

/-! ## State -/

structure Descriptor where
  id : Nat
  numel : Nat
deriving DecidableEq, Repr

structure MappedIdBuffers where
  id : Nat
  capacity : Nat
deriving DecidableEq, Repr

structure Transfer where
  jobId : JobId
  stream : Nat
  startEvent : Nat
  endEvent : Nat
  numBytes : Nat
  batch : Option Descriptor
  mappedIdBuffers : Option MappedIdBuffers
  success : Bool := true
  needsStreamSync : Bool := false
deriving DecidableEq, Repr

def Transfer.resources (t : Transfer) : List Nat :=
  t.stream :: t.startEvent :: t.endEvent ::
    ((t.batch.map Descriptor.id).toList ++ (t.mappedIdBuffers.map MappedIdBuffers.id).toList)

inductive Direction where
  | store
  | load
deriving DecidableEq, Repr

/-- A pool that is popped from its end is kept with its end first. -/
structure AsyncState where
  transferEvents : List (JobId × Nat) := []
  transfers : List Transfer := []
  streamPool : List Nat := []
  eventPool : List Nat := []
  poisoned : Bool := false
deriving DecidableEq, Repr

/-- `registered` are the leases that are not released. `gathers` is a log of the tensors, each with what was
registered then. -/
structure Handler where
  closed : Bool := false
  storeState : AsyncState := {}
  loadState : AsyncState := {}
  storeDescriptorPool : List Descriptor := []
  loadIdPool : List MappedIdBuffers := []
  mappedHandles : List Nat := []
  gatherActive : Bool := true
  nextId : Nat := 0
  device : Device := []
  released : List Nat := []
  registered : List Nat := []
  gathers : List (Nat × List Nat) := []

structure TransferResult where
  jobId : JobId
  success : Bool
  transferSize : Nat

/-- What the device says to the calls of a submission, in their order; a call that fails raises `error`. -/
structure Launch where
  currentBusy : Bool := false
  /-- `wait_stream` records an event on the current stream. -/
  waitOk : Bool := true
  startOk : Bool := true
  copyOk : Bool := true
  /-- How much a failing copy queued. -/
  launched : Nat := 0
  endOk : Bool := true
  /-- The stream context is left. -/
  exitOk : Bool := true
  retryOk : Bool := true
  syncOk : Bool := true
  error : PyError := .runtimeError ""

/-- What the copy queues of its work. -/
def Launch.queued (a : Launch) (works : List α) : List α :=
  if ¬ a.startOk then [] else if a.copyOk then works else works.take a.launched

theorem Launch.queued_subset (a : Launch) (works : List α) : a.queued works ⊆ works := by
  unfold queued
  split
  · exact List.nil_subset _
  split
  · exact List.Subset.refl _
  · exact List.take_subset _ _

namespace Handler

def state (h : Handler) : Direction → AsyncState
  | .store => h.storeState
  | .load => h.loadState

def setState (h : Handler) (dir : Direction) (st : AsyncState) : Handler :=
  match dir with
  | .store => { h with storeState := st }
  | .load => { h with loadState := st }

def release (h : Handler) (ids : List Nat) : Handler := { h with released := h.released ++ ids }

def logGathers (h : Handler) (tensors : List Nat) : Handler :=
  { h with gathers := h.gathers ++ tensors.map (·, h.registered) }

def enqueue (h : Handler) (stream : Nat) (works : List Work) : Handler :=
  { h with device := h.device ++ works.map (⟨stream, ·⟩) }

/-! ## Pools -/

def popStream (h : Handler) (dir : Direction) : Nat × Handler :=
  match (h.state dir).streamPool with
  | [] => (h.nextId, { h with nextId := h.nextId + 1 })
  | s :: pool => (s, h.setState dir { h.state dir with streamPool := pool })

def popEvent (h : Handler) (dir : Direction) : Nat × Handler :=
  match (h.state dir).eventPool with
  | [] => (h.nextId, { h with nextId := h.nextId + 1 })
  | e :: pool => (e, h.setState dir { h.state dir with eventPool := pool })

def newDescriptor (h : Handler) (numCopyOps : Nat) : Descriptor × Handler :=
  (⟨h.nextId, numCopyOps⟩, { h with nextId := h.nextId + 1 })

/-- The buffers that `_prepare_store_descriptors` fills; one from the pool that is too small is let go. -/
def takeDescriptor (h : Handler) (numCopyOps : Nat) : Descriptor × Handler :=
  match h.storeDescriptorPool with
  | [] => h.newDescriptor numCopyOps
  | b :: pool =>
    if b.numel < numCopyOps then
      ({ h with storeDescriptorPool := pool }.release [b.id]).newDescriptor numCopyOps
    else (b, { h with storeDescriptorPool := pool })

def bestFit (numIds : Nat) : List MappedIdBuffers → Option MappedIdBuffers → Option MappedIdBuffers
  | [], best => best
  | b :: pool, best =>
    bestFit numIds pool (if numIds ≤ b.capacity ∧ best.all (b.capacity < ·.capacity) then some b else best)

def bitLength (n : Nat) : Nat := if n = 0 then 0 else n.log2 + 1

def idCapacity (numIds : Nat) : Nat :=
  if numIds ≤ maxCachedIds then min (2 ^ bitLength (numIds - 1)) maxCachedIds else numIds

def acquireMappedIds (h : Handler) (numIds : Nat) : MappedIdBuffers × Handler :=
  match bestFit numIds h.loadIdPool none with
  | some b => (b, { h with loadIdPool := h.loadIdPool.erase b })
  | none => (⟨h.nextId, idCapacity numIds⟩, { h with nextId := h.nextId + 1 })

def releaseMappedIds (h : Handler) (b : MappedIdBuffers) : Handler :=
  if b.capacity ≤ maxCachedIds ∧ h.loadIdPool.length < idBufferCacheSize then
    { h with loadIdPool := h.loadIdPool ++ [b] }
  else h.release [b.id]

def queueWaits (h : Handler) (dir : Direction) (stream : Nat) (waitForCurrentStream : Bool) (a : Launch) : Handler :=
  let current := if waitForCurrentStream ∧ a.currentBusy then [Work.wait] else []
  let previous :=
    if (h.state dir).transfers.getLast?.any (fun t => ! h.device.query t.endEvent) then [Work.wait] else []
  h.enqueue stream (current ++ previous)

def acquireAsyncResources (h : Handler) (dir : Direction) (waitForCurrentStream : Bool) (a : Launch) :
    Handler × Except PyError (Nat × Nat × Nat) :=
  if (h.state dir).poisoned then
    (h, .error (.runtimeError
      "cannot submit after a failed transfer left device work unsynchronized; retry handler shutdown"))
  else
    let (stream, h) := h.popStream dir
    let (startEvent, h) := h.popEvent dir
    let (endEvent, h) := h.popEvent dir
    if waitForCurrentStream ∧ ¬ a.waitOk then (h.release [stream, startEvent, endEvent], .error a.error)
    else (h.queueWaits dir stream waitForCurrentStream a, .ok (stream, startEvent, endEvent))

/-! ## Transfers -/

def trackSubmission (h : Handler) (dir : Direction) (t : Transfer) : Handler :=
  h.setState dir { h.state dir with
    transferEvents := dictSet t.jobId t.endEvent (h.state dir).transferEvents
    transfers := (h.state dir).transfers ++ [t] }

def recycleBatch (h : Handler) : Option Descriptor → Handler
  | none => h
  | some b => { h with storeDescriptorPool := b :: h.storeDescriptorPool }

def recycleIds (h : Handler) : Option MappedIdBuffers → Handler
  | none => h
  | some b => h.releaseMappedIds b

def recycleTransferResources (h : Handler) (dir : Direction) (t : Transfer) : Handler :=
  ((h.setState dir { h.state dir with
    streamPool := t.stream :: (h.state dir).streamPool
    eventPool := t.startEvent :: t.endEvent :: (h.state dir).eventPool }).recycleBatch t.batch).recycleIds
      t.mappedIdBuffers

def poison (h : Handler) (dir : Direction) (t : Transfer) : Handler :=
  h.setState dir { h.state dir with
    poisoned := true
    transfers := (h.state dir).transfers ++ [{ t with needsStreamSync := true }] }

def preserveFailedSubmission (h : Handler) (dir : Direction) (transfer : Transfer)
    (workMayBeInflight completionRecorded : Bool) (a : Launch) : Handler :=
  let t := { transfer with success := false }
  if workMayBeInflight ∧ ¬ completionRecorded then
    if a.retryOk then (h.enqueue t.stream [.record t.endEvent]).trackSubmission dir t
    else if a.syncOk then { h with device := h.device.syncStream t.stream }.recycleTransferResources dir t
    else h.poison dir t
  else if completionRecorded then h.trackSubmission dir t
  else h.recycleTransferResources dir t

/-- The `try` of both submissions; the copy queues `kernels` and then raises `raised`, if anything. -/
def launch (h : Handler) (dir : Direction) (t : Transfer) (kernels : List Work) (raised : Option PyError) (a : Launch) :
    Handler × Except PyError Unit :=
  if ¬ a.startOk then (h.preserveFailedSubmission dir t false false a, .error a.error)
  else
    let h := h.enqueue t.stream (.record t.startEvent :: a.queued kernels)
    if kernels ≠ [] ∧ ¬ a.copyOk then (h.preserveFailedSubmission dir t true false a, .error a.error)
    else
      match raised with
      | some e => (h.preserveFailedSubmission dir t true false a, .error e)
      | none =>
        if ¬ a.endOk then (h.preserveFailedSubmission dir t true false a, .error a.error)
        else
          let h := h.enqueue t.stream [.record t.endEvent]
          if ¬ a.exitOk then (h.preserveFailedSubmission dir t true true a, .error a.error)
          else (h.trackSubmission dir t, .ok ())

def submitStore (layout : Layout) (h : Handler) (jobId : JobId) (spec : Spec) (a : Launch) :
    Handler × Except PyError Unit :=
  if h.closed then (h, .error (.runtimeError "cannot submit to a shut down mapped worker"))
  else
    match spec.cpu with
    | none => (h, .error (.typeError "CPU KV store requires a block-ID destination spec"))
    | some cpu =>
      match layout.makeTransferPlan spec.npu cpu spec with
      | .error e => (h, .error e)
      | .ok plan =>
        let (batch, h) := h.takeDescriptor plan.numCopyOps
        match layout.checkStoreDescriptors plan with
        | .error e => (h.release [batch.id], .error e)
        | .ok () =>
          match h.acquireAsyncResources .store true a with
          | (h, .error e) => (h.release [batch.id], .error e)
          | (h, .ok (stream, startEvent, endEvent)) =>
            let kernels := if 0 < plan.numCopyOps then [Work.kernel batch.id] else []
            h.launch .store ⟨jobId, stream, startEvent, endEvent, plan.numTransferBytes, some batch, none, true, false⟩
              kernels none a

/-- The kernels, each with the tensor that it gathers from. -/
def runMappedGather (layout : Layout) (h : Handler) (plan : Plan) (b : MappedIdBuffers) :
    List (Work × Option Nat) × Option PyError :=
  if ¬ h.gatherActive ∨ h.mappedHandles = [] then ([], some (.runtimeError "mapped CPU pool is not active"))
  else
    let gathers := (plan.groupSizes.zip layout.groupRefs).flatMap fun (size, refs) =>
      if size = 0 then [] else refs.map fun ref => (Work.kernel b.id, some ref.tensorIdx)
    ((.kernel b.id, none) :: (.kernel b.id, none) :: gathers,
      if ((plan.groupSizes.zip layout.groupRefs).map Prod.fst).sum ≠ plan.srcBlocks.length then
        some (.valueError "mapped-gather groups do not consume all block IDs")
      else none)

def takeMappedIds (h : Handler) (plan : Plan) : Option MappedIdBuffers × Handler :=
  if 0 < plan.srcBlocks.length then
    let (b, h) := h.acquireMappedIds plan.srcBlocks.length
    (some b, h)
  else (none, h)

def checkLoad (layout : Layout) (src dst : BlockIds) (plan : Plan) : Except PyError Unit := do
  if plan.groupSizes.sum ≠ plan.srcBlocks.length ∨ plan.srcBlocks.length ≠ plan.dstBlocks.length then
    throw (.valueError "mapped gather requires one canonical ID per block")
  if 0 < plan.srcBlocks.length then layout.validateMappedIds src dst plan

def loadKernels (layout : Layout) (h : Handler) (plan : Plan) :
    Option MappedIdBuffers → List (Work × Option Nat) × Option PyError
  | some b => if 0 < plan.numCopyOps then runMappedGather layout h plan b else ([], none)
  | none => if 0 < plan.numCopyOps then ([], some (.assertionError "")) else ([], none)

def submitLoad (layout : Layout) (h : Handler) (jobId : JobId) (spec : Spec) (a : Launch) :
    Handler × Except PyError Unit :=
  if h.closed then (h, .error (.runtimeError "cannot submit to a shut down mapped worker"))
  else
    match spec.cpu with
    | none => (h, .error (.typeError "CPU KV load requires a block-ID source spec"))
    | some cpu =>
      match layout.makeTransferPlan cpu spec.npu spec with
      | .error e => (h, .error e)
      | .ok plan =>
        match checkLoad layout cpu spec.npu plan with
        | .error e => (h, .error e)
        | .ok () =>
          let (ids, h) := h.takeMappedIds plan
          match h.acquireAsyncResources .load false a with
          | (h, .error e) => (h.release (ids.map MappedIdBuffers.id).toList, .error e)
          | (h, .ok (stream, startEvent, endEvent)) =>
            let (kernels, raised) := loadKernels layout h plan ids
            let (h, result) := h.launch .load
              ⟨jobId, stream, startEvent, endEvent, plan.numTransferBytes, none, ids, true, false⟩
              (kernels.map Prod.fst) raised a
            (h.logGathers ((a.queued kernels).filterMap Prod.snd), result)

/-! ## The end of transfers -/

def popTransfer (h : Handler) (dir : Direction) (t : Transfer) : Handler :=
  h.setState dir { h.state dir with
    transfers := (h.state dir).transfers.tail
    transferEvents := dictPop t.jobId (h.state dir).transferEvents }

def finishLoop (dir : Direction) : Nat → Handler → Handler × List TransferResult
  | 0, h => (h, [])
  | fuel + 1, h =>
    match (h.state dir).transfers with
    | [] => (h, [])
    | t :: _ =>
      if t.needsStreamSync ∨ ¬ h.device.query t.endEvent then (h, [])
      else
        let (h', results) := finishLoop dir fuel ((h.popTransfer dir t).recycleTransferResources dir t)
        (h', ⟨t.jobId, t.success, t.numBytes⟩ :: results)

def getFinished (h : Handler) : Handler × List TransferResult :=
  let (h, stored) := finishLoop .store h.storeState.transfers.length h
  let (h, loaded) := finishLoop .load h.loadState.transfers.length h
  (h, stored ++ loaded)

def waitLoop : List (Direction × JobId) → List Bool → Handler → Handler × Bool
  | [], _, h => (h, true)
  | (dir, job) :: jobs, answers, h =>
    match dictGet job (h.state dir).transferEvents with
    | none => waitLoop jobs answers h
    | some event =>
      if answers.headD true then waitLoop jobs answers.tail { h with device := Device.syncEvent event h.device }
      else (h, false)

def wait (h : Handler) (jobIds : List JobId) (answers : List Bool) : Handler × Bool :=
  waitLoop (jobIds.map (Direction.store, ·) ++ jobIds.map (Direction.load, ·)) answers h

def freePools (h : Handler) : List Nat :=
  (h.storeState.streamPool ++ h.storeState.eventPool) ++ (h.loadState.streamPool ++ h.loadState.eventPool) ++
    h.storeDescriptorPool.map Descriptor.id ++ h.loadIdPool.map MappedIdBuffers.id

def drainLoop (dir : Direction) : Nat → List Bool → Handler → Handler × List Bool × Bool
  | 0, answers, h => (h, answers, true)
  | fuel + 1, answers, h =>
    match (h.state dir).transfers with
    | [] => (h, answers, true)
    | t :: _ =>
      if answers.headD true then
        let device := if t.needsStreamSync then h.device.syncStream t.stream else Device.syncEvent t.endEvent h.device
        drainLoop dir fuel answers.tail (({ h with device := device }.popTransfer dir t).release t.resources)
      else (h, answers.tail, false)

def drain (h : Handler) (dir : Direction) (answers : List Bool) : Handler × List Bool × Bool :=
  let (h, answers, ok) := drainLoop dir (h.state dir).transfers.length answers h
  (if ok then h.setState dir { h.state dir with poisoned := false } else h, answers, ok)

def closeMappedPool (h : Handler) (unregister : Nat → Bool) : Handler × Option PyError :=
  if h.mappedHandles = [] then ({ h with gatherActive := false }, none)
  else if ¬ h.gatherActive then (h, some (.runtimeError "mapped CPU pool has handles but no unregister op"))
  else
    let failed := h.mappedHandles.reverse.filter fun handle => ! unregister handle
    let count := failed.length
    let h := { h with registered := h.registered.filter fun handle => handle ∉ h.mappedHandles ∨ ! unregister handle }
    if failed ≠ [] then
      ({ h with mappedHandles := failed }, some (.runtimeError s!"failed to unregister {count} mapped CPU pool leases"))
    else ({ h with mappedHandles := [], gatherActive := false }, none)

def clearPools (h : Handler) : Handler :=
  { h.release h.freePools with
    storeState := { h.storeState with transferEvents := [], streamPool := [], eventPool := [] }
    loadState := { h.loadState with transferEvents := [], streamPool := [], eventPool := [] }
    storeDescriptorPool := []
    loadIdPool := []
    closed := true }

/-- `shutdown`; `answers` says of each synchronisation whether it returns and `unregister` of each lease. -/
def shutdown (h : Handler) (answers : List Bool) (unregister : Nat → Bool) (error : PyError) :
    Handler × Option PyError :=
  if h.closed then (h, none)
  else
    match h.drain .store answers with
    | (h, _, false) => (h, some error)
    | (h, answers, true) =>
      match h.drain .load answers with
      | (h, _, false) => (h, some error)
      | (h, _, true) =>
        match h.closeMappedPool unregister with
        | (h, some e) => (h, some e)
        | (h, none) => (h.clearPools, none)

/-! ## Runs -/

inductive Event where
  | submitStore (jobId : JobId) (spec : Spec) (a : Launch)
  | submitLoad (jobId : JobId) (spec : Spec) (a : Launch)
  | getFinished
  | wait (jobIds : List JobId) (answers : List Bool)
  | shutdown (answers : List Bool) (unregister : Nat → Bool) (error : PyError)
  | advance (stream : Nat)

def step (layout : Layout) (h : Handler) : Event → Handler
  | .submitStore jobId spec a => (submitStore layout h jobId spec a).1
  | .submitLoad jobId spec a => (submitLoad layout h jobId spec a).1
  | .getFinished => h.getFinished.1
  | .wait jobIds answers => (h.wait jobIds answers).1
  | .shutdown answers unregister error => (h.shutdown answers unregister error).1
  | .advance stream => { h with device := h.device.advance stream }

end Handler

end VllmAscend.Mapped
