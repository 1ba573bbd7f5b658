import VllmAscend.Lib.Interleave
import VllmAscend.Lib.Packed
import VllmAscend.Lib.Python

/-!
# Slots under context parallelism

`BlockTable` of `block_table.py`. The positions of a request are dealt to the
ranks `cp_kv_cache_interleave_size` at a time, and a rank finds the slot of a
position it owns through the blocks of the request, which the table lists as
kernel blocks.
-/

namespace VllmAscend.Worker

open Python Interleave Packed
open Nat hiding count
open List hiding getElem?_eq_some_iff

structure BlockTable where
  physicalBlockSize : Nat
  /-- The kernel's. -/
  blockSize : Nat
  kernelSizes : Option (List Nat) := none
  maxNumBlocksPerReq : Nat
  maxNumBatchedTokens : Nat
  pcpWorldSize : Nat
  dcpWorldSize : Nat
  pcpRank : Nat := 0
  dcpRank : Nat := 0
  interleave : Nat
  blockTable : Nat → List Nat := fun _ => []
  numBlocksPerRow : Nat → Nat := fun _ => 0

def padSlotId : Int := -1

namespace BlockTable
variable (t : BlockTable)

def blocksPerPhysBlock : Nat := t.physicalBlockSize / t.blockSize

def cpWorldSize : Nat := t.dcpWorldSize * t.pcpWorldSize

def currentRank : Nat := t.dcpWorldSize * t.pcpRank + t.dcpRank

/-! ## Rows -/

def convertPhysicalToLogicalBlocks (physicalBlocks : List Nat) : List Nat :=
  if t.blocksPerPhysBlock > 1 then
    physicalBlocks.flatMap fun b => List.range' (b * t.blocksPerPhysBlock) t.blocksPerPhysBlock
  else physicalBlocks

def appendRow (blockIds : List Nat) (rowIdx : Nat) : BlockTable :=
  if blockIds = [] then t else
    let ids := t.convertPhysicalToLogicalBlocks blockIds
    let start := t.numBlocksPerRow rowIdx
    let row := t.blockTable rowIdx
    { t with
      blockTable := Function.update t.blockTable rowIdx (row.take start ++ ids ++ row.drop (start + ids.length))
      numBlocksPerRow := Function.update t.numBlocksPerRow rowIdx (start + ids.length) }

def addRow (blockIds : List Nat) (rowIdx : Nat) : BlockTable :=
  { t with numBlocksPerRow := Function.update t.numBlocksPerRow rowIdx 0 }.appendRow blockIds rowIdx

def rowStride : Nat := t.maxNumBlocksPerReq * t.blocksPerPhysBlock

/-- `block_table.ravel()[index]`. -/
def entry (index : Nat) : Nat := (t.blockTable (index / t.rowStride)).getD (index % t.rowStride) 0

/-! ## Slots -/

/-- The mask of `_compute_pcp_dcp_slot_mapping`. -/
def Owns (position : Nat) : Prop :=
  position % (t.physicalBlockSize * t.cpWorldSize) / t.interleave % t.cpWorldSize = t.currentRank

instance : DecidablePred t.Owns := fun _ => inferInstanceAs (Decidable (_ = _))

def pcpDcpSlot (req position : Nat) : Int :=
  let physicalBlockIdx := position / (t.physicalBlockSize * t.cpWorldSize)
  let offset := position % (t.physicalBlockSize * t.cpWorldSize)
  let localOffset := offset / (t.cpWorldSize * t.interleave) * t.interleave + offset % t.interleave
  let logicalBlockIdx := physicalBlockIdx * t.blocksPerPhysBlock + localOffset / t.blockSize
  if t.Owns position then
    (t.entry (req * t.rowStride + logicalBlockIdx) * t.blockSize + localOffset % t.blockSize : Nat)
  else padSlotId

def computePcpDcpSlotMapping (reqIndices positions : List Nat) : List Int :=
  List.zipWith t.pcpDcpSlot reqIndices positions

def plainSlot (req position : Nat) : Int :=
  (t.entry (req * t.rowStride + position / t.blockSize) * t.blockSize + position % t.blockSize : Nat)

def fallbackSlot (req position : Nat) : Int :=
  if t.cpWorldSize > 1 then
    let virtualBlockSize := t.blockSize * t.dcpWorldSize * t.pcpWorldSize
    let offset := position % virtualBlockSize
    let blockOffset := offset / (t.cpWorldSize * t.interleave) * t.interleave + offset % t.interleave
    if offset / t.interleave % t.cpWorldSize = t.currentRank then
      (t.entry (req * t.rowStride + position / virtualBlockSize) * t.blockSize + blockOffset : Nat)
    else padSlotId
  else t.plainSlot req position

def reqIndices (numReqs : Nat) (queryStartLoc : List Nat) : List Nat :=
  let loc := queryStartLoc.take (numReqs + 1)
  ((List.range numReqs).zip (List.zipWith (· - ·) loc.tail loc)).flatMap fun (req, count) => List.replicate count req

def computeSlotMappingFallback (numReqs : Nat) (queryStartLoc positions : List Nat) : Except PyError (List Int) := do
  let numTokens := positions.length
  if numTokens = 0 then
    return List.replicate t.maxNumBatchedTokens padSlotId
  let reqs := reqIndices numReqs queryStartLoc
  let numReqTokens := reqs.length
  if numReqTokens ≠ numTokens then
    throw (.valueError
      s!"query_start_loc and positions describe different token counts: {numReqTokens} != {numTokens}")
  return List.zipWith t.fallbackSlot reqs positions ++ List.replicate (t.maxNumBatchedTokens - numTokens) padSlotId

def computeSlotMappingDraft (reqIndices positions : List Nat) : Except PyError (List Int) :=
  if t.cpWorldSize > 1 then .ok (t.computePcpDcpSlotMapping reqIndices positions)
  else if (t.kernelSizes.bind List.head?) = some t.blockSize then .ok (List.zipWith t.plainSlot reqIndices positions)
  else .error (.assertionError "")

end BlockTable

def cpLocalSeqLen (worldSize interleave seqLen rank : Nat) : Nat :=
  let base := seqLen / interleave / worldSize * interleave
  base + min (seqLen - base * worldSize - rank * interleave) interleave

def getCpLocalSeqLens (seqLens : List Nat) (pcpWorldSize dcpWorldSize interleave : Nat) : List (List (List Nat)) :=
  seqLens.map fun seqLen => (List.range pcpWorldSize).map fun pcp => (List.range dcpWorldSize).map fun dcp =>
    cpLocalSeqLen (pcpWorldSize * dcpWorldSize) interleave seqLen (pcp * dcpWorldSize + dcp)

/-! ## A table with its blocks -/

namespace BlockTable

structure Fits (t : BlockTable) : Prop where
  blockSize : 0 < t.blockSize
  physical : t.blockSize ∣ t.physicalBlockSize
  physicalPos : 0 < t.physicalBlockSize
  interleave : t.interleave ∣ t.physicalBlockSize
  cp : 1 < t.cpWorldSize

def Holds (t : BlockTable) (blocks : List (List Nat)) : Prop :=
  ∀ i ids, blocks[i]? = some ids → ids.length ≤ t.maxNumBlocksPerReq ∧
    t.convertPhysicalToLogicalBlocks ids <+: t.blockTable i

def Covers (t : BlockTable) (blocks : List (List Nat)) (req position : Nat) : Prop :=
  ∃ ids, blocks[req]? = some ids ∧ position < ids.length * (t.physicalBlockSize * t.cpWorldSize)

def onRank (t : BlockTable) (rank : Nat × Nat) : BlockTable := { t with pcpRank := rank.1, dcpRank := rank.2 }

def IsRank (t : BlockTable) (rank : Nat × Nat) : Prop := rank.1 < t.pcpWorldSize ∧ rank.2 < t.dcpWorldSize

section
variable {t : BlockTable} {bs : List (List Nat)} {ids : List Nat} {i pos : Nat} {rank : Nat × Nat}

theorem addRow_row (hi : ids ≠ []) : t.convertPhysicalToLogicalBlocks ids <+: (t.addRow ids i).blockTable i := by
  simp [addRow, appendRow, hi, convertPhysicalToLogicalBlocks, blocksPerPhysBlock]

theorem Fits.blocksPerPhysBlock_mul (h : t.Fits) : t.blockSize * t.blocksPerPhysBlock = t.physicalBlockSize :=
  Nat.mul_div_cancel' h.physical

theorem Fits.blocksPerPhysBlock_pos (h : t.Fits) : 0 < t.blocksPerPhysBlock :=
  div_pos (le_of_dvd h.physicalPos h.physical) h.blockSize

theorem Fits.interleave_pos (h : t.Fits) : 0 < t.interleave := pos_of_dvd_of_pos h.interleave h.physicalPos

theorem Fits.onRank (h : t.Fits) : (t.onRank rank).Fits := ⟨h.1, h.2, h.3, h.4, h.5⟩

theorem IsRank.lt (h : t.IsRank rank) : (t.onRank rank).currentRank < t.cpWorldSize := by
  have hr := mul_le_mul_left t.dcpWorldSize h.1
  rw [succ_eq_add_one, mul_add] at hr
  have := h.2
  simp only [currentRank, BlockTable.onRank, cpWorldSize]
  omega

theorem Fits.convert (h : t.Fits) : t.convertPhysicalToLogicalBlocks ids =
    ids.flatMap fun b => range' (b * t.blocksPerPhysBlock) t.blocksPerPhysBlock := by
  rw [convertPhysicalToLogicalBlocks]
  split
  · rfl
  · obtain ho : t.blocksPerPhysBlock = 1 := by have := h.blocksPerPhysBlock_pos; omega
    simp [ho]

theorem Fits.getElem?_convert (h : t.Fits) (rest : List Nat) (hb : ids[j / t.blocksPerPhysBlock]? = some b) :
    (t.convertPhysicalToLogicalBlocks ids ++ rest)[j]? = some (b * t.blocksPerPhysBlock + j % t.blocksPerPhysBlock) := by
  have hm := mod_lt j h.blocksPerPhysBlock_pos
  have hr := congrArg (·[j % t.blocksPerPhysBlock]?) (rowAt_flatMap t.blocksPerPhysBlock
    (fun b => range' (b * t.blocksPerPhysBlock) t.blocksPerPhysBlock) rest (fun _ _ => length_range') hb)
  simpa only [← h.convert, rowAt, getElem?_take_of_lt hm, getElem?_drop, div_add_mod',
    getElem?_range' hm, one_mul] using hr

theorem Holds.entry (hbl : t.Holds bs) (h : t.Fits) (hi : bs[i]? = some ids)
    (hb : ids[j / t.blocksPerPhysBlock]? = some b) :
    t.entry (i * t.rowStride + j) = b * t.blocksPerPhysBlock + j % t.blocksPerPhysBlock := by
  obtain ⟨hl, rest, hr⟩ := hbl i ids hi
  have hj : j < t.rowStride := (div_lt_iff_lt_mul h.blocksPerPhysBlock_pos).mp (lt_of_lt_of_le (lt_of_getElem? hb) hl)
  rw [BlockTable.entry, add_comm, add_mul_div_right _ _ (zero_lt_of_lt hj), div_eq_of_lt hj, zero_add,
    add_mul_mod_self_right, mod_eq_of_lt hj, ← hr, getD_eq_getElem?_getD, h.getElem?_convert rest hb,
    Option.getD_some]

/-! ## One slot -/

def localIndex (t : BlockTable) (position : Nat) : Nat := place t.cpWorldSize t.interleave position

def slotAt (t : BlockTable) (req index : Nat) : Nat :=
  t.entry (req * t.rowStride + index / t.blockSize) * t.blockSize + index % t.blockSize

/-- The slot of a rank-local index in the kernel blocks of a request. -/
def expandedSlot (t : BlockTable) (ids : List Nat) (index : Nat) : Nat :=
  (t.convertPhysicalToLogicalBlocks ids).getD (index / t.blockSize) 0 * t.blockSize + index % t.blockSize

theorem Holds.slotAt_eq (hbl : t.Holds bs) (h : t.Fits) (hi : bs[i]? = some ids)
    (hb : ids[g / t.blockSize / t.blocksPerPhysBlock]? = some b) : t.slotAt i g = t.expandedSlot ids g := by
  have hg := h.getElem?_convert [] hb
  rw [append_nil] at hg
  rw [slotAt, expandedSlot, hbl.entry h hi hb, getD_eq_getElem?_getD, hg, Option.getD_some]

theorem Fits.owns_iff (h : t.Fits) : t.Owns pos ↔ pos / t.interleave % t.cpWorldSize = t.currentRank := by
  obtain ⟨m, hm⟩ := h.interleave
  rw [Owns, hm, (place_block h.interleave_pos m pos).2.2]

theorem Fits.pcpDcpSlot_eq (h : t.Fits) :
    t.pcpDcpSlot i pos = if t.Owns pos then (t.slotAt i (t.localIndex pos) : Int) else padSlotId := by
  obtain ⟨m, hm⟩ := h.interleave
  obtain ⟨hd, hmod, -⟩ := place_block (n := t.cpWorldSize) h.interleave_pos m pos
  rw [← hm] at hd hmod
  simp only [pcpDcpSlot, slotAt, localIndex, hd, hmod]
  rw [← h.blocksPerPhysBlock_mul, ← Nat.div_div_eq_div_mul, mod_mul_right_div_self, div_add_mod',
    mod_mul_right_mod]

theorem Fits.fallbackSlot_eq (h : t.Fits) (hdv : t.interleave ∣ t.blockSize) :
    t.fallbackSlot i pos = if t.Owns pos then (t.slotAt i (t.localIndex pos) : Int) else padSlotId := by
  obtain ⟨m, hm⟩ := hdv
  obtain ⟨hd, hmod, ho⟩ := place_block (n := t.cpWorldSize) h.interleave_pos m pos
  rw [← hm] at hd hmod ho
  have hv : t.blockSize * t.dcpWorldSize * t.pcpWorldSize = t.blockSize * t.cpWorldSize := mul_assoc ..
  simp only [fallbackSlot, if_pos h.cp, hv, slotAt, localIndex, hd, hmod, ho, h.owns_iff]

theorem Fits.count_owns (h : t.Fits) (hr : t.currentRank < t.cpWorldSize) (n : Nat) :
    Nat.count t.Owns n = cpLocalSeqLen t.cpWorldSize t.interleave n t.currentRank := by
  have hb : n / t.interleave / t.cpWorldSize = n / (t.interleave * t.cpWorldSize) := Nat.div_div_eq_div_mul ..
  have hrest := div_add_mod' n (t.interleave * t.cpWorldSize)
  rw [← Nat.mul_assoc] at hrest
  rw [count_congr (fun _ => h.owns_iff), count_chunks hr h.interleave_pos, cpLocalSeqLen, hb]
  congr 3
  omega

theorem Fits.localIndex_eq (h : t.Fits) (hr : t.currentRank < t.cpWorldSize) (ho : t.Owns pos) :
    t.localIndex pos = Nat.count t.Owns pos := by
  rw [count_congr (fun _ => h.owns_iff), count_chunks_self hr h.interleave_pos (h.owns_iff.mp ho), localIndex]

theorem Covers.getElem? (hc : t.Covers bs i pos) (h : t.Fits) : ∃ ids b, bs[i]? = some ids ∧
    ids[t.localIndex pos / t.blockSize / t.blocksPerPhysBlock]? = some b := by
  obtain ⟨ids, hi, hlt⟩ := hc
  obtain ⟨m, hm⟩ := h.interleave
  have hb : t.localIndex pos / t.blockSize / t.blocksPerPhysBlock = pos / (t.physicalBlockSize * t.cpWorldSize) := by
    rw [Nat.div_div_eq_div_mul, h.blocksPerPhysBlock_mul, hm, (place_block h.interleave_pos m pos).1]
    rfl
  have hidx : pos / (t.physicalBlockSize * t.cpWorldSize) < ids.length :=
    (div_lt_iff_lt_mul (mul_pos h.physicalPos (zero_lt_of_lt h.cp))).mpr hlt
  exact ⟨ids, _, hi, by rw [hb]; exact getElem?_eq_getElem hidx⟩

/-! ## Distinct slots -/

theorem eq_of_getElem?_flatten (hnod : bs.flatten.Nodup) {i' a a' b : Nat}
    (hid : bs[i]? = some ids) (hid' : bs[i']? = some ids') (hb : ids[a]? = some b) (hb' : ids'[a']? = some b) :
    i = i' ∧ a = a' := by
  obtain ⟨hone, hdi⟩ := nodup_flatten.mp hnod
  obtain ⟨hi, rfl⟩ := getElem?_eq_some_iff.mp hid
  obtain ⟨hi', rfl⟩ := getElem?_eq_some_iff.mp hid'
  have hmem := mem_of_getElem? hb
  have hmem' := mem_of_getElem? hb'
  rcases lt_trichotomy i i' with hlt | rfl | hlt
  · exact absurd hmem' (pairwise_iff_getElem.mp hdi i i' hi hi' hlt hmem)
  · have hinj := getElem?_inj (j := a') (lt_of_getElem? hb) (hone _ (getElem_mem hi))
    exact ⟨rfl, hinj.mp (hb.trans hb'.symm)⟩
  · exact absurd hmem (pairwise_iff_getElem.mp hdi i' i hi' hi hlt hmem')

theorem digits_inj (hn : 0 < n) (heq : x * n + y % n = x' * n + y' % n) : x = x' ∧ y % n = y' % n := by
  have hd := congrArg (· / n) heq
  have hm := congrArg (· % n) heq
  simp only [mul_add_mod_self_right, mod_mod] at hm
  simp only [add_comm (_ * n), add_mul_div_right _ _ hn, div_eq_of_lt (mod_lt _ hn), zero_add] at hd
  exact ⟨hd, hm⟩

theorem Holds.slotAt_inj (hbl : t.Holds bs) (h : t.Fits) (hnod : bs.flatten.Nodup) {i' g g' b b' : Nat} (hid : bs[i]? = some ids) (hb : ids[g / t.blockSize / t.blocksPerPhysBlock]? = some b)
    (hid' : bs[i']? = some ids') (hb' : ids'[g' / t.blockSize / t.blocksPerPhysBlock]? = some b')
    (heq : t.slotAt i g = t.slotAt i' g') : i = i' ∧ g = g' := by
  rw [slotAt, slotAt, hbl.entry h hid hb, hbl.entry h hid' hb'] at heq
  obtain ⟨hen, hof⟩ := digits_inj h.blockSize heq
  obtain ⟨rfl, hpa⟩ := digits_inj h.blocksPerPhysBlock_pos hen
  obtain ⟨rfl, hidx⟩ := eq_of_getElem?_flatten hnod hid hid' hb hb'
  have hbo : g / t.blockSize = g' / t.blockSize := by
    rw [← div_add_mod (g / t.blockSize) t.blocksPerPhysBlock, hidx, hpa, div_add_mod]
  refine ⟨rfl, ?_⟩
  rw [← div_add_mod g t.blockSize, hbo, hof, div_add_mod]

/-! ## All ranks -/

theorem Fits.exists_owner (h : t.Fits) (pos : Nat) : ∃! rank, t.IsRank rank ∧ (t.onRank rank).Owns pos := by
  have hlt : pos / t.interleave % t.cpWorldSize < t.dcpWorldSize * t.pcpWorldSize := mod_lt _ (zero_lt_of_lt h.cp)
  have hdc : 0 < t.dcpWorldSize := Nat.pos_of_mul_pos_right (zero_lt_of_lt hlt)
  refine ⟨(pos / t.interleave % t.cpWorldSize / t.dcpWorldSize, pos / t.interleave % t.cpWorldSize % t.dcpWorldSize),
    ⟨⟨Nat.div_lt_of_lt_mul hlt, mod_lt _ hdc⟩, h.onRank.owns_iff.mpr (div_add_mod ..).symm⟩, ?_⟩
  rintro ⟨pcp, dcp⟩ ⟨⟨-, hd⟩, ho⟩
  obtain ⟨hq, hr⟩ := (Nat.div_mod_unique hdc).mpr ⟨(Nat.add_comm ..).trans (h.onRank.owns_iff.mp ho).symm, hd⟩
  exact Prod.ext hq.symm hr.symm

structure SlotsOk (t : BlockTable) (blocks : List (List Nat)) : Prop where
  owner : ∀ pos, ∃! rank, t.IsRank rank ∧ (t.onRank rank).Owns pos
  slot : ∀ rank, t.IsRank rank → ∀ req pos, t.Covers blocks req pos → ∀ ids, blocks[req]? = some ids →
    (t.onRank rank).pcpDcpSlot req pos =
      if (t.onRank rank).Owns pos then (t.expandedSlot ids (Nat.count (t.onRank rank).Owns pos) : Int) else padSlotId
  distinct : ∀ rank, t.IsRank rank → ∀ req pos req' pos', t.Covers blocks req pos → t.Covers blocks req' pos' →
    (t.onRank rank).Owns pos → (t.onRank rank).Owns pos' →
    (t.onRank rank).pcpDcpSlot req pos = (t.onRank rank).pcpDcpSlot req' pos' → req = req' ∧ pos = pos'
  localLens : ∀ seqLens, getCpLocalSeqLens seqLens t.pcpWorldSize t.dcpWorldSize t.interleave =
    seqLens.map fun n => (List.range t.pcpWorldSize).map fun pcp => (List.range t.dcpWorldSize).map fun dcp =>
      Nat.count (t.onRank (pcp, dcp)).Owns n
  same : ∀ rank, t.IsRank rank → ∀ numReqs queryStartLoc positions,
    (reqIndices numReqs queryStartLoc).length = positions.length →
    (∀ token ∈ (reqIndices numReqs queryStartLoc).zip positions, t.Covers blocks token.1 token.2) →
    let slots := (t.onRank rank).computePcpDcpSlotMapping (reqIndices numReqs queryStartLoc) positions
    (t.onRank rank).computeSlotMappingDraft (reqIndices numReqs queryStartLoc) positions = .ok slots ∧
    (t.onRank rank).computeSlotMappingFallback numReqs queryStartLoc positions =
      .ok (slots ++ List.replicate (t.maxNumBatchedTokens - positions.length) padSlotId)

theorem Fits.same (h : t.Fits) (hd : t.interleave ∣ t.blockSize)
    (hl : (reqIndices numReqs queryStartLoc).length = positions.length) :
    t.computeSlotMappingFallback numReqs queryStartLoc positions =
      .ok (t.computePcpDcpSlotMapping (reqIndices numReqs queryStartLoc) positions ++
        replicate (t.maxNumBatchedTokens - positions.length) padSlotId) := by
  have hs : t.fallbackSlot = t.pcpDcpSlot := by
    funext req pos
    rw [h.fallbackSlot_eq hd, h.pcpDcpSlot_eq]
  simp only [computeSlotMappingFallback, computePcpDcpSlotMapping, hs, hl]
  rcases positions with _ | ⟨pos, positions⟩
  · simp [pure, Except.pure]
  · simp [pure, Except.pure]

theorem Fits.dvd_of_same (h : t.Fits) (hbl : t.Holds bs) (hnod : bs.flatten.Nodup)
    (hid : bs[0]? = some ids) (hne : ids ≠ []) (hrank : t.currentRank = 0) (hlt : t.blockSize < t.physicalBlockSize)
    (hco : t.Covers bs 0 (t.blockSize * t.cpWorldSize))
    (hsame : t.fallbackSlot 0 (t.blockSize * t.cpWorldSize) = t.pcpDcpSlot 0 (t.blockSize * t.cpWorldSize)) :
    t.interleave ∣ t.blockSize := by
  have hS := h.cp
  have hvi : t.blockSize * t.dcpWorldSize * t.pcpWorldSize = t.blockSize * t.cpWorldSize := mul_assoc ..
  have hpos : 0 < t.blockSize * t.cpWorldSize := Nat.mul_pos h.blockSize (by omega)
  have hfa : t.fallbackSlot 0 (t.blockSize * t.cpWorldSize) = t.slotAt 0 t.blockSize := by
    simp [fallbackSlot, hS, hvi, hrank, slotAt, Nat.div_self hpos, Nat.div_self h.blockSize]
  rw [hfa, h.pcpDcpSlot_eq] at hsame
  split at hsame
  · rename_i hon
    obtain ⟨ids', b', hid', hb'⟩ := hco.getElem? h
    have hm : 1 < t.blocksPerPhysBlock := by
      by_contra hno
      have := h.blocksPerPhysBlock_mul
      rw [show t.blocksPerPhysBlock = 1 by have := h.blocksPerPhysBlock_pos; omega, mul_one] at this
      omega
    have hb : ids[t.blockSize / t.blockSize / t.blocksPerPhysBlock]? = some (ids.head hne) := by
      rw [Nat.div_self h.blockSize, div_eq_of_lt hm]
      exact head?_eq_getElem? ▸ head?_eq_some_head hne
    have hind := (hbl.slotAt_inj h hnod hid hb hid' hb' (Int.ofNat.inj hsame)).2
    -- the remainder of the block would be its own multiple
    have hfi := ((div_mod_eq h.interleave_pos _).mp (h.owns_iff.mp hon)).2
    have hre : t.blockSize * t.cpWorldSize % (t.interleave * t.cpWorldSize) = t.blockSize % t.interleave * t.cpWorldSize :=
      mul_mod_mul_right ..
    rw [hrank, zero_mul, zero_add, hre] at hfi
    have hmod : t.blockSize * t.cpWorldSize % t.interleave = t.blockSize % t.interleave * t.cpWorldSize := by
      rw [← mod_mod_of_dvd _ (Nat.dvd_mul_right t.interleave t.cpWorldSize), hre, mod_eq_of_lt hfi]
    rw [localIndex, place, Nat.mul_div_mul_right _ _ (by omega), hmod] at hind
    have hself := div_add_mod' t.blockSize t.interleave
    refine dvd_of_mod_eq_zero ?_
    nlinarith
  · cases hsame

theorem slot_mapping_iff (h : t.Fits) (hblocks : t.Holds blocks) (hnodup : blocks.flatten.Nodup) (hne : blocks ≠ [])
    (hfull : ∀ ids ∈ blocks, ids ≠ []) : t.SlotsOk blocks ↔ t.interleave ∣ t.blockSize := by
  constructor
  · intro hok
    by_contra hno
    have hlt : t.blockSize < t.physicalBlockSize :=
      lt_of_le_of_ne (le_of_dvd h.physicalPos h.physical) fun e => hno (e ▸ h.interleave)
    have hrank : t.IsRank (0, 0) := by
      obtain ⟨rank, ⟨hr, -⟩, -⟩ := h.exists_owner 0
      exact ⟨zero_lt_of_lt hr.1, zero_lt_of_lt hr.2⟩
    obtain ⟨ids, rest, rfl⟩ := exists_cons_of_ne_nil hne
    have hid : ids ≠ [] := hfull ids (mem_cons_self ..)
    have hco : t.Covers (ids :: rest) 0 (t.blockSize * t.cpWorldSize) :=
      ⟨ids, rfl, lt_of_lt_of_le (Nat.mul_lt_mul_of_pos_right hlt (Nat.zero_lt_of_lt h.cp))
        (Nat.le_mul_of_pos_left _ (length_pos_iff.mpr hid))⟩
    obtain ⟨-, hsame⟩ := hok.same (0, 0) hrank 1 [0, 1] [t.blockSize * t.cpWorldSize] rfl (by
      intro token htok
      cases mem_singleton.mp htok
      exact hco)
    exact hno (Fits.dvd_of_same (t := t.onRank (0, 0)) h.onRank hblocks hnodup rfl hid rfl hlt hco
      (List.cons.inj (Except.ok.inj hsame)).1)
  · intro hdv
    refine ⟨h.exists_owner, fun rank hr req pos hc ids hid => ?_, fun rank hr req pos req' pos' hc hc' hon hon' heq => ?_,
      fun seqLens => ?_, fun rank hr numReqs queryStartLoc positions hlen _ => ⟨if_pos h.cp, h.onRank.same hdv hlen⟩⟩
    · rw [h.onRank.pcpDcpSlot_eq]
      by_cases hon : (t.onRank rank).Owns pos
      · obtain ⟨ids', b, hid', hb⟩ := hc.getElem? h
        cases hid.symm.trans hid'
        rw [if_pos hon, if_pos hon, ← h.onRank.localIndex_eq hr.lt hon]
        exact congrArg Int.ofNat (hblocks.slotAt_eq h hid hb)
      · rw [if_neg hon, if_neg hon]
    · rw [h.onRank.pcpDcpSlot_eq, h.onRank.pcpDcpSlot_eq, if_pos hon, if_pos hon'] at heq
      obtain ⟨ids, b, hid, hb⟩ := hc.getElem? h
      obtain ⟨ids', b', hid', hb'⟩ := hc'.getElem? h
      obtain ⟨hreq, hind⟩ := hblocks.slotAt_inj h hnodup hid hb hid' hb' (Int.ofNat.inj heq)
      refine ⟨hreq, count_injective hon hon' ?_⟩
      rw [← h.onRank.localIndex_eq hr.lt hon, ← h.onRank.localIndex_eq hr.lt hon']
      exact hind
    · refine map_congr_left fun n _ => map_congr_left fun pcp hpc => map_congr_left fun dcp hdc => ?_
      have hr : t.IsRank (pcp, dcp) := ⟨mem_range.mp hpc, mem_range.mp hdc⟩
      rw [h.onRank.count_owns hr.lt, mul_comm t.pcpWorldSize, mul_comm pcp]
      rfl

end

def emptyTable (interleave : Nat) : BlockTable := ⟨4, 2, none, 1, 4, 1, 2, 0, 0, interleave, fun _ => [0, 0], fun _ => 0⟩

def smallTable (interleave : Nat) : BlockTable := (emptyTable interleave).addRow [3] 0

theorem slot_mapping_iff_small : (smallTable 2).SlotsOk [[3]] := by
  refine (slot_mapping_iff ⟨by decide, by decide, by decide, by decide, by decide⟩ (fun i ids hi => ?_) (by decide)
    (by decide) (by decide)).mpr (by decide)
  rcases i with _ | i
  · cases hi
    exact ⟨le_rfl, addRow_row (t := emptyTable 2) (cons_ne_nil 3 [])⟩
  · cases hi

/-- With an interleave size of two kernel blocks the fallback gives position 4 to rank 0, the other to rank 1. -/
theorem slot_mappings_differ :
    [(0, 0), (0, 1)].map (fun rank => ((smallTable 4).onRank rank).computePcpDcpSlotMapping [0] [4]) = [[-1], [12]] ∧
    ((smallTable 4).onRank (0, 0)).computeSlotMappingFallback 1 [0, 1] [4] = .ok [14, -1, -1, -1] ∧
    ((smallTable 4).onRank (0, 1)).computeSlotMappingFallback 1 [0, 1] [4] = .ok [-1, -1, -1, -1] :=
  ⟨by decide, rfl, rfl⟩

end BlockTable
end VllmAscend.Worker
