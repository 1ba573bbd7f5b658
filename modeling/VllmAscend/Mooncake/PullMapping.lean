import VllmAscend.Mooncake.PortMapping

/-!
# What a decode rank pulls

`_get_kv_split_metadata` with context parallelism on one of the two sides. The
blocks of a prompt are dealt to the prefill ranks block after block, and to the
decode ranks in decode blocks, which can be larger or smaller.
-/

namespace VllmAscend.Mooncake.Pull

open Python

/-- A cache group; for attention with `block_size_scale`, the kernel blocks in a block. -/
inductive Group where
  | mamba
  | attention (localScale : Nat)
deriving DecidableEq

structure Worker where
  heads : Heads
  isDeepseekMla : Bool
  isHmaRequired : Bool
  side : Side
  blockSize : Nat
  groups : List Group

structure Rank where
  tpRank : Nat
  pcpRank : Nat

structure ReqMeta where
  remote : Side
  remoteBlockSize : Option Nat
  numExternalTokens : Nat
  numPromptBlocks : Nat
  localBlockIds : List (List Nat)
  remoteBlockIds : List (List Nat)

def Worker.remoteBlockSize (w : Worker) (m : ReqMeta) : Nat :=
  match m.remoteBlockSize with
  | none | some 0 => w.blockSize
  | some n => n

def Worker.dcpRank (w : Worker) (rank : Rank) : Nat := rank.tpRank % w.side.dcpSize

def Worker.localCpRank (w : Worker) (rank : Rank) : Nat := w.dcpRank rank + rank.pcpRank * w.side.dcpSize

def Worker.handshakePort (w : Worker) (rank : Rank) : Nat := w.side.port + (rank.pcpRank * w.side.tpSize + rank.tpRank)

def blockRatio (blockSize remoteBlockSize : Nat) : Nat :=
  if remoteBlockSize < blockSize then blockSize / remoteBlockSize else 1

def checkBlockSizes (blockSize remoteBlockSize localCpSize remoteCpSize : Nat) : Except PyError Unit := do
  if remoteBlockSize ≠ blockSize then
    if ¬ (blockSize % remoteBlockSize = 0 ∨ remoteBlockSize % blockSize = 0) then
      throw (.assertionError
        s!"Block sizes of P ({remoteBlockSize}) and D ({blockSize}) must be divisible by each other.")
    if 1 < localCpSize then
      if blockSize % remoteBlockSize ≠ 0 then
        throw (.assertionError
          s!"D node DCP not support P node block_size({remoteBlockSize}) > D block_size({blockSize})")
      let r := blockSize / remoteBlockSize
      if remoteCpSize / localCpSize % r ≠ 0 then
        throw (.assertionError (s!"remote_cp_size({remoteCpSize}) must be an integer multiple of" ++
          s!"r({r}) * local_cp_size({localCpSize})"))

def checkGroup (blockSize remoteBlockSize : Nat) : Group → Except PyError Unit
  | .mamba => .ok ()
  | .attention localScale => do
    let kernelSize := blockSize / localScale
    if remoteBlockSize % kernelSize ≠ 0 then
      throw (.assertionError s!"remote_block_size({remoteBlockSize}) not divisible by kernel_size({kernelSize})")

def expandBlockIds (blockIds : List Nat) (scale : Nat) : List Nat :=
  blockIds.flatMap fun bid => (List.range scale).map fun offset => bid * scale + offset

structure Geometry where
  blockSize : Nat
  remoteBlockSize : Nat
  localCpSize : Nat
  remoteCpSize : Nat
  numPrefixPBlocks : Nat
  firstD : Nat

def Geometry.rBlk (geo : Geometry) : Nat := blockRatio geo.blockSize geo.remoteBlockSize

def localKernelIds (geo : Geometry) (kernelSize : Nat) (localBlockIds : List Nat) (globalPBlock : Nat) : List Nat :=
  let kernelsPerDBlock := geo.blockSize / kernelSize
  let kernelsPerPBlock := geo.remoteBlockSize / kernelSize
  if geo.blockSize < geo.remoteBlockSize then
    let pBlockTokenStart := (globalPBlock - geo.numPrefixPBlocks) * geo.remoteBlockSize
    -- the loop ends at the first kernel block without a place
    ((List.range kernelsPerPBlock).takeWhile fun kernelIdx =>
      pBlockTokenStart + kernelIdx * kernelSize < localBlockIds.length * geo.blockSize).map fun kernelIdx =>
        let tokenOffset := pBlockTokenStart + kernelIdx * kernelSize
        localBlockIds.getD (tokenOffset / geo.blockSize) 0 * kernelsPerDBlock + tokenOffset % geo.blockSize / kernelSize
  else
    let dBlockLocalIdx := (globalPBlock / geo.rBlk - geo.firstD) / geo.localCpSize
    match localBlockIds[dBlockLocalIdx]? with
    | none => []
    | some dBlock =>
      let firstKernelInDBlock := globalPBlock % geo.rBlk * geo.remoteBlockSize / kernelSize
      (List.range kernelsPerPBlock).map fun kernelIdx => dBlock * kernelsPerDBlock + firstKernelInDBlock + kernelIdx

def localKernelIdsForShard (geo : Geometry) (shardFirstPBlock numBlocksToPull shardCpRank kernelSize : Nat)
    (localBlockIds : List Nat) : List Nat :=
  (List.range numBlocksToPull).flatMap fun blockIdx =>
    localKernelIds geo kernelSize localBlockIds ((shardFirstPBlock + blockIdx) * geo.remoteCpSize + shardCpRank)

def remoteFirst (numPrefixPBlocks remoteCpSize shardCpRank : Nat) : Nat :=
  (numPrefixPBlocks + remoteCpSize - 1 - shardCpRank) / remoteCpSize

def remoteBlockNum (numPromptBlocks numPrefixPBlocks remoteCpSize cpRank : Nat) : Nat :=
  let num := numPromptBlocks / remoteCpSize + if cpRank < numPromptBlocks % remoteCpSize then 1 else 0
  let num := num - numPrefixPBlocks / remoteCpSize
  num - if cpRank < numPrefixPBlocks % remoteCpSize then 1 else 0

def shardBlocks (geo : Geometry) (m : ReqMeta) (shardCpRank : Nat) (isFinalShard : Bool) (groupIdx : Nat) :
    Group → List Nat × List Nat
  | .mamba =>
    if isFinalShard then (m.remoteBlockIds.getD groupIdx [], m.localBlockIds.getD groupIdx []) else ([], [])
  | .attention localScale =>
    let kernelSize := geo.blockSize / localScale
    let remoteScale := geo.remoteBlockSize / kernelSize
    let first := remoteFirst geo.numPrefixPBlocks geo.remoteCpSize shardCpRank
    let numBlocksToPull := remoteBlockNum m.numPromptBlocks geo.numPrefixPBlocks geo.remoteCpSize shardCpRank
    let remoteLogical := ((m.remoteBlockIds.getD groupIdx []).drop first).take numBlocksToPull
    let kernelRemote := expandBlockIds remoteLogical remoteScale
    let kernelLocal := localKernelIdsForShard geo first numBlocksToPull shardCpRank kernelSize
      (m.localBlockIds.getD groupIdx [])
    let numKernelBlocks := min kernelRemote.length kernelLocal.length
    (kernelRemote.take numKernelBlocks, kernelLocal.take numKernelBlocks)

structure Shard where
  ports : List Nat
  blocks : List (List Nat × List Nat)

def moveToEnd {α : Type} (i : Nat) (l : List α) : List α := l.eraseIdx i ++ l[i]?.toList

def Worker.tpNumNeedPulls (w : Worker) (prefillTpSize : Nat) : Nat :=
  if w.isDeepseekMla then 1
  else max 1 (w.heads.numKeyValueHeads / w.side.tpSize) / max 1 (w.heads.numKeyValueHeads / prefillTpSize)

def sequenceGroupIdx (groups : List Group) : Nat := (groups.findIdx? (· ≠ .mamba)).getD 0

def Worker.geometry (w : Worker) (rank : Rank) (m : ReqMeta) : Geometry :=
  let remoteBlockSize := w.remoteBlockSize m
  let numPrefixPBlocks := m.numPromptBlocks - ceilDiv m.numExternalTokens remoteBlockSize
  let numPrefixDBlocks := numPrefixPBlocks / blockRatio w.blockSize remoteBlockSize
  { blockSize := w.blockSize
    remoteBlockSize
    localCpSize := w.side.cpSize
    remoteCpSize := m.remote.cpSize
    numPrefixPBlocks
    firstD := numPrefixDBlocks +
      (((w.localCpRank rank : Int) - numPrefixDBlocks) % (w.side.cpSize : Int)).toNat }

def Worker.portMapping (w : Worker) (rank : Rank) (m : ReqMeta) : Except PyError (List (List Nat)) := do
  let mappings ← getLocalRemoteBlockPortMappings w.heads m.remote w.side (blockRatio w.blockSize (w.remoteBlockSize m))
  match dictGet (w.handshakePort rank) mappings with
  | none => throw (.keyError (toString (w.handshakePort rank)))
  | some mapping => return mapping

def Worker.checkBlocks (w : Worker) (m : ReqMeta) : Except PyError Unit := do
  let numExternalBlocks := ceilDiv m.numExternalTokens w.blockSize
  let localBlockIdsLen := (m.localBlockIds.getD (sequenceGroupIdx w.groups) []).length
  if ceilDiv numExternalBlocks w.side.cpSize ≠ localBlockIdsLen then
    throw (.assertionError (s!"num_external_blocks({numExternalBlocks}), cp_size({w.side.cpSize}), " ++
      s!"local_block_ids_len ({localBlockIdsLen})"))
  let numPromptBlocks := m.numPromptBlocks
  if numPromptBlocks < ceilDiv m.numExternalTokens (w.remoteBlockSize m) then
    throw (.assertionError (s!"meta.num_prompt_blocks({numPromptBlocks}), " ++
      s!"num_external_blocks({numExternalBlocks})"))

def lastBlockLocation (numPromptBlocks remoteCpSize : Nat) : Nat :=
  (numPromptBlocks % remoteCpSize + remoteCpSize - 1) % remoteCpSize

def Worker.pulledCpRanks (w : Worker) (rank : Rank) (m : ReqMeta) : List Nat :=
  shardRanks (blockRatio w.blockSize (w.remoteBlockSize m)) w.side.cpSize m.remote.cpSize (w.localCpRank rank)

def Worker.finalBlockIdx (w : Worker) (rank : Rank) (m : ReqMeta) : Option Nat :=
  (w.pulledCpRanks rank m).findIdx? (· = lastBlockLocation m.numPromptBlocks m.remote.cpSize)

def moveFinal {α : Type} (finalBlockIdx : Option Nat) (l : List α) : List α :=
  match finalBlockIdx with
  | none => l
  | some i => moveToEnd i l

def Worker.shardCpRanks (w : Worker) (rank : Rank) (m : ReqMeta) : List Nat :=
  moveFinal (w.finalBlockIdx rank m) (w.pulledCpRanks rank m)

def checkPrefixBlocks (geo : Geometry) : Except PyError Unit :=
  let numPrefixPBlocks := geo.numPrefixPBlocks
  let rBlk := geo.rBlk
  if 1 < rBlk ∧ numPrefixPBlocks % rBlk ≠ 0 then
    .error (.assertionError s!"P0({numPrefixPBlocks}) should be  r_blk({rBlk}) integer multiple ")
  else .ok ()

def Worker.remoteHandshakePortList (w : Worker) (rank : Rank) (chosenTpList : List Nat) (m : ReqMeta)
    (mapping : List (List Nat)) : Except PyError (List (List Nat)) :=
  let mapping := mapping.map (moveFinal (w.finalBlockIdx rank m))
  let portList := (List.range (mapping.headD []).length).map fun idx => mapping.map fun ports => ports.getD idx 0
  if w.isHmaRequired ∧ ¬ w.heads.useMla then
    setHmaSharedPort w.heads m.remote w.side.tpSize rank.tpRank chosenTpList portList
  else .ok portList

def Worker.checkPulls (w : Worker) (m : ReqMeta) (portList : List (List Nat)) : Except PyError Unit :=
  let tpNumNeedPulls := w.tpNumNeedPulls m.remote.tpSize
  let len := (portList.headD []).length
  if if w.isHmaRequired then tpNumNeedPulls ≤ len else tpNumNeedPulls = len then .ok ()
  else .error (.assertionError
    s!"tp_num_need_pulls: {tpNumNeedPulls}, remote_handshake_port_list: {portList}")

def Worker.shard (w : Worker) (rank : Rank) (m : ReqMeta) (portList : List (List Nat)) (remoteKvId : Nat) : Shard where
  ports := portList.getD remoteKvId []
  blocks := w.groups.mapIdx fun groupIdx group =>
    shardBlocks (w.geometry rank m) m ((w.shardCpRanks rank m).getD remoteKvId 0) (remoteKvId + 1 = portList.length)
      groupIdx group

/-- `_get_kv_split_metadata` if one of the context parallel sizes is above one. -/
def Worker.getKvSplitMetadata (w : Worker) (rank : Rank) (chosenTpList : List Nat) (m : ReqMeta) :
    Except PyError (List Shard) := do
  checkBlockSizes w.blockSize (w.remoteBlockSize m) w.side.cpSize m.remote.cpSize
  w.groups.forM (checkGroup w.blockSize (w.remoteBlockSize m))
  let mapping ← w.portMapping rank m
  w.checkBlocks m
  checkPrefixBlocks (w.geometry rank m)
  let portList ← w.remoteHandshakePortList rank chosenTpList m mapping
  w.checkPulls m portList
  return (List.range portList.length).map (w.shard rank m portList)

end VllmAscend.Mooncake.Pull
