import VllmAscend.Lib.Python

/-!
# Chunks, request trackers and request metadata of the KV pool

`config_data.py` of the AscendStore connector. A chunk of a cache group is
`block_size` times the compress ratio of its cache family; its key is the hash
of its tokens.
-/

namespace VllmAscend.Store

open Python

abbrev RequestId := Nat
abbrev BlockHash := Nat

abbrev ChunkHash := List BlockHash

def getBlockHashes (blockHashes : List BlockHash) (groupBlockSize hashBlockSize : Nat) : List ChunkHash :=
  if groupBlockSize = hashBlockSize then blockHashes.map fun h => [h]
  else
    let scaleFactor := groupBlockSize / hashBlockSize
    (List.range (blockHashes.length / scaleFactor)).map fun i => (blockHashes.drop (i * scaleFactor)).take scaleFactor

/-- The rank fields of a key are those of the worker. -/
structure PoolKey where
  kvCacheGroupId : Nat
  chunkHash : ChunkHash
deriving DecidableEq

structure Chunk where
  start : Nat
  stop : Nat
  key : PoolKey
deriving DecidableEq

/-- `ChunkedTokenDatabase`; `cacheFamilyRatios` has `infer_cache_family_ratio` of each group's family. -/
structure TokenDatabase where
  blockSize : List Nat
  cacheFamilyRatios : List Nat
  hashBlockSize : Nat

namespace TokenDatabase

variable (db : TokenDatabase)

def getBlockSize (kvCacheGroupId : Nat) : Nat :=
  db.blockSize.getD kvCacheGroupId (db.blockSize.headD 0)

def cacheFamilyRatio (kvCacheGroupId : Nat) : Nat := max (db.cacheFamilyRatios.getD kvCacheGroupId 1) 1

def chunkSize (kvCacheGroupId : Nat) : Nat := db.getBlockSize kvCacheGroupId * db.cacheFamilyRatio kvCacheGroupId

def processTokens (tokenLen : Nat) (blockHashes : List BlockHash) (maskNum kvCacheGroupId : Nat) : List Chunk :=
  let ratio := db.cacheFamilyRatio kvCacheGroupId
  let size := db.chunkSize kvCacheGroupId
  let hashes := getBlockHashes blockHashes size db.hashBlockSize
  (hashes.zipIdx.takeWhile fun item => item.2 * size < tokenLen).filterMap fun item =>
    let startIdx := item.2 * size
    let endIdx := min (startIdx + size) tokenLen
    if startIdx < maskNum then none
    else if endIdx / ratio ≤ startIdx / ratio then none
    else some ⟨startIdx / ratio, endIdx / ratio, ⟨kvCacheGroupId, item.1⟩⟩

def processTokensWithBlockIds (tokenLen : Nat) (blockHashes : List BlockHash) (blockIds : List Nat)
    (maskNum kvCacheGroupId : Nat) (skipNullBlocks : Bool) : List (Chunk × Nat) :=
  match (db.processTokens tokenLen blockHashes 0 kvCacheGroupId).getLast? with
  | none => []
  | some last =>
    let groupBlockSize := db.getBlockSize kvCacheGroupId
    let numLogicalBlocks := last.start / groupBlockSize + 1
    let blockIdOffset := numLogicalBlocks - blockIds.length
    (db.processTokens tokenLen blockHashes maskNum kvCacheGroupId).filterMap fun chunk =>
      let block := chunk.start / groupBlockSize
      if block < blockIdOffset then none
      else match blockIds[block - blockIdOffset]? with
        | none => none
        | some blockId => if skipNullBlocks && blockId = 0 then none else some (chunk, blockId)

def maskAllowsChunk (masks : Option (List (List Bool))) (kvCacheGroupId start : Nat) : Bool :=
  match masks.bind fun masks => masks[kvCacheGroupId]? with
  | none => true
  | some groupMask => groupMask.getD (start / db.getBlockSize kvCacheGroupId) false

end TokenDatabase

/-! ## Requests -/

structure LoadSpec where
  vllmCachedTokens : Nat
  kvpoolCachedTokens : Nat
  canLoad : Bool
deriving DecidableEq

structure RequestTracker where
  reqId : RequestId
  tokenLen : Nat
  allocatedBlockIdsByGroup : List (List Nat)
  numSavedTokens : Nat := 0
  numPromptTokens : Nat
  mambaGroupIds : List Nat := []
  numSpeculativeBlocks : Nat := 0
  blockSizes : List Nat := []

namespace RequestTracker

def setSlice (ids : List Nat) (i j : Nat) (values : List Nat) : List Nat := ids.take i ++ values ++ ids.drop j

def updateMambaSpecBlocks (tr : RequestTracker) (allocated blockIds : List Nat)
    (kvCacheGroupId numComputedTokens : Nat) : List Nat :=
  if kvCacheGroupId ∈ tr.mambaGroupIds then
    let numSkippedBlocks := min allocated.length
      ((numComputedTokens - tr.numSpeculativeBlocks - 1) / tr.blockSizes.getD kvCacheGroupId 1)
    let allocated := setSlice allocated 0 numSkippedBlocks (List.replicate numSkippedBlocks 0)
    if blockIds = [] ∨ tr.numSpeculativeBlocks = 0 then allocated
    else
      let maskSpecCount := min (blockIds.length - 1) tr.numSpeculativeBlocks
      let first := allocated.length - tr.numSpeculativeBlocks
      if maskSpecCount ≥ tr.numSpeculativeBlocks then
        setSlice allocated first allocated.length (List.replicate tr.numSpeculativeBlocks 0)
      else
        setSlice allocated first (max first (allocated.length - (tr.numSpeculativeBlocks - maskSpecCount)))
          (List.replicate maskSpecCount 0)
  else allocated

def update (tr : RequestTracker) (newBlockIds : List (List Nat)) (numComputedTokens : Nat) : RequestTracker :=
  let allocated := tr.allocatedBlockIdsByGroup ++
    List.replicate (newBlockIds.length - tr.allocatedBlockIdsByGroup.length) []
  { tr with
    allocatedBlockIdsByGroup := allocated.zipIdx.map fun (ids, group) =>
      match newBlockIds[group]? with
      | none => ids
      | some new => tr.updateMambaSpecBlocks ids new group numComputedTokens ++ new }

end RequestTracker

structure ReqMeta where
  reqId : RequestId
  tokenLenChunk : Nat
  blockIdsByGroup : List (List Nat)
  blockHashes : List BlockHash
  canSave : Bool
  loadSpec : Option LoadSpec
  isLastChunk : Option Bool
  kvCacheGroupIds : List Nat
  numPromptTokens : Nat
  disableTpKeySharding : Bool := false
  eventId : Option Nat := none
deriving DecidableEq

def ReqMeta.fromRequestTracker (tr : RequestTracker) (cacheTransferGranularity : Nat) (loadSpec : Option LoadSpec)
    (skipSave : Bool) (blockHashes : List BlockHash) (isLastChunk : Option Bool) (discardPartialChunks : Bool) :
    RequestTracker × Option ReqMeta :=
  let chunkBoundary := if discardPartialChunks then
    ceilDiv (tr.numSavedTokens + 1) cacheTransferGranularity * cacheTransferGranularity else 0
  let numTokensToSave := if discardPartialChunks then
    tr.tokenLen / cacheTransferGranularity * cacheTransferGranularity else tr.tokenLen
  let skipSave := skipSave || decide (numTokensToSave < chunkBoundary)
  if skipSave ∧ loadSpec = none then (tr, none)
  else
    (if skipSave then tr else { tr with numSavedTokens := numTokensToSave },
      some
        { reqId := tr.reqId
          tokenLenChunk := numTokensToSave
          blockIdsByGroup := tr.allocatedBlockIdsByGroup
          blockHashes
          canSave := !skipSave
          loadSpec := loadSpec.filter LoadSpec.canLoad
          isLastChunk
          kvCacheGroupIds := List.range tr.allocatedBlockIdsByGroup.length
          numPromptTokens := if tr.numPromptTokens = 0 then tr.tokenLen else tr.numPromptTokens })

end VllmAscend.Store
