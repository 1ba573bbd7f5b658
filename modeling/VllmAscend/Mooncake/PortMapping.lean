import VllmAscend.Lib.Interleave
import VllmAscend.Lib.Python

/-!
# Who pulls from whom

With context parallelism the blocks of a prompt are dealt to the ranks of a
context parallel group, on both sides, and the heads to groups of tensor
parallel ranks.
-/

namespace VllmAscend.Mooncake.Pull

open Python Nat
open List hiding getElem?_eq_some_iff

structure Side where
  tpSize : Nat
  pcpSize : Nat
  dcpSize : Nat
  port : Nat
deriving DecidableEq

def Side.cpSize (side : Side) : Nat := side.pcpSize * side.dcpSize

/-- The heads of the model; `useMla` stands for `use_mla or use_sparse`. -/
structure Heads where
  useMla : Bool
  numKeyValueHeads : Nat
deriving DecidableEq

def contextParallelParametersCheck (m : Heads) (p d : Side) : Except PyError Unit := do
  if p.pcpSize * p.dcpSize % (d.pcpSize * d.dcpSize) ≠ 0 then throw (.assertionError "")
  if ¬ m.useMla then
    let pNodeHeadsPerRank := ceilDiv m.numKeyValueHeads p.tpSize
    let dNodeHeadsPerRank := ceilDiv m.numKeyValueHeads d.tpSize
    if dNodeHeadsPerRank % pNodeHeadsPerRank ≠ 0 then throw (.assertionError "")

def getKvHeadGroups (m : Heads) (tpSize : Nat) : Except PyError (List (List Nat)) :=
  if m.useMla then .ok [[0]]
  else if 1 ≤ m.numKeyValueHeads / tpSize then
    .ok ((List.range tpSize).map fun tpRank => (List.range (m.numKeyValueHeads / tpSize)).map fun headIdx =>
      headIdx + tpRank * (m.numKeyValueHeads / tpSize))
  else if 1 < tpSize / m.numKeyValueHeads then .ok ((List.range m.numKeyValueHeads).map fun head => [head])
  -- the function ends without a value
  else .error (.typeError "object of type 'NoneType' has no len()")

structure HeadGroup where
  heads : List Nat
  cpGroups : List (List Nat)

def cpGroup (side : Side) (offset : Nat) : List Nat :=
  (List.range side.pcpSize).flatMap fun pcpRank => (List.range side.dcpSize).map fun dcpRank =>
    dcpRank + side.port + side.tpSize * pcpRank + offset

def getCpGroupMeta (m : Heads) (side : Side) : Except PyError (List HeadGroup) := do
  let kvHeadGroups ← getKvHeadGroups m side.tpSize
  let span := side.tpSize / kvHeadGroups.length
  return kvHeadGroups.mapIdx fun kvHeadGroupIdx heads =>
    { heads
      cpGroups := (List.range (span / side.dcpSize)).map fun dcpRepeatIdx =>
        cpGroup side (side.dcpSize * dcpRepeatIdx + span * kvHeadGroupIdx) }

def remotePorts (rBlk cpSize dIdx : Nat) (pCpGroup : List Nat) : List Nat :=
  (pCpGroup.zipIdx.filter fun item => item.2 / rBlk % cpSize = dIdx).map Prod.fst

abbrev Mappings := List (Nat × List (List Nat))

def mapCpGroup (rBlk : Nat) (pCpGroup dCpGroup : List Nat) (mappings : Mappings) : Mappings :=
  dCpGroup.zipIdx.foldl (fun mappings item =>
    dictSet item.1 ((dictGet item.1 mappings).getD [] ++ [remotePorts rBlk dCpGroup.length item.2 pCpGroup]) mappings)
    mappings

structure Selection where
  selectCpGroupsId : List Nat → Nat := fun _ => 0
  mappings : Mappings := []

def mapHeadGroup (rBlk : Nat) (d p : HeadGroup) (s : Selection) : Except PyError Selection :=
  d.cpGroups.foldlM (fun s dCpGroup =>
    let id := s.selectCpGroupsId p.heads
    match p.cpGroups[id]? with
    | none => .error (.indexError "list index out of range")
    | some pCpGroup => .ok {
        selectCpGroupsId := Function.update s.selectCpGroupsId p.heads (if id + 1 < p.cpGroups.length then id + 1 else 0)
        mappings := mapCpGroup rBlk pCpGroup dCpGroup s.mappings }) s

def getLocalRemoteBlockPortMappings (m : Heads) (p d : Side) (rBlk : Nat) : Except PyError Mappings := do
  contextParallelParametersCheck m p d
  let pMeta ← getCpGroupMeta m p
  let dMeta ← getCpGroupMeta m d
  let s ← dMeta.foldlM (fun s dGroup => pMeta.foldlM (fun s pGroup =>
    if pGroup.heads ⊆ dGroup.heads then mapHeadGroup rBlk dGroup pGroup s else .ok s) s) {}
  return s.mappings

def getRemotePortSendNum (p : Side) (mappings : Mappings) : List (Nat × Nat) :=
  (List.range (p.tpSize * p.pcpSize)).map fun i =>
    (p.port + i, ((mappings.flatMap Prod.snd).flatten).count (p.port + i))

/-! ## Hybrid models -/

def swapReplica (p : Side) (groupSpan nReplica chosen port : Nat) : Nat :=
  let remoteDcp := max p.dcpSize 1
  let tpOff := (port - p.port) % p.tpSize
  let pcpSeg := port - p.port - tpOff
  let groupOff := tpOff / groupSpan * groupSpan
  let dcpPart := (tpOff - groupOff) % remoteDcp
  let replica := chosen / remoteDcp % nReplica
  p.port + pcpSeg + groupOff + replica * remoteDcp + dcpPart

def appendMambaPorts (p : Side) (dTpSize tpRank : Nat) (finalPorts : List Nat) : List Nat :=
  let k := p.tpSize / dTpSize
  let pcpSeg := (finalPorts.headD 0 - p.port) / p.tpSize * p.tpSize
  (List.range k).foldl (fun finalPorts j =>
    let port := p.port + pcpSeg + tpRank * k + j
    if port ∈ finalPorts then finalPorts else finalPorts ++ [port]) finalPorts

/-- `_set_hma_shared_port`, where it does something; `chosenTpList` is what `_get_remote_rank` has drawn. -/
def setHmaSharedPort (m : Heads) (p : Side) (dTpSize tpRank : Nat) (chosenTpList : List Nat)
    (portList : List (List Nat)) : Except PyError (List (List Nat)) := do
  let groups ← getKvHeadGroups m p.tpSize
  let groupSpan := p.tpSize / groups.length
  let nReplica := max (groupSpan / max p.dcpSize 1) 1
  let portList := if 1 < nReplica then
      portList.map fun shardPorts => shardPorts.mapIdx fun i port =>
        swapReplica p groupSpan nReplica (chosenTpList.getD (i % chosenTpList.length) 0) port
    else portList
  return portList.dropLast ++ portList.getLast?.toList.map (appendMambaPorts p dTpSize tpRank)

/-! ## Ranks of ports -/

section
variable {m : Heads} {side p d : Side} {rBlk : Nat}

def Side.cpRank (side : Side) (port : Nat) : Nat :=
  (port - side.port) / side.tpSize * side.dcpSize + (port - side.port) % side.tpSize % side.dcpSize

def Side.IsPort (side : Side) (port : Nat) : Prop :=
  side.port ≤ port ∧ port < side.port + side.tpSize * side.pcpSize

def Heads.groupCount (m : Heads) (tpSize : Nat) : Nat :=
  if m.useMla then 1 else if 1 ≤ m.numKeyValueHeads / tpSize then tpSize else m.numKeyValueHeads

/-- The sizes of a side: every head group has as many ranks, in whole dcp groups. -/
structure Side.Fits (side : Side) (m : Heads) : Prop where
  tpPos : 0 < side.tpSize
  pcpPos : 0 < side.pcpSize
  dcpPos : 0 < side.dcpSize
  even : m.groupCount side.tpSize ∣ side.tpSize
  divides : side.dcpSize ∣ side.tpSize / m.groupCount side.tpSize

theorem Side.Fits.cpSize_pos (h : side.Fits m) : 0 < side.cpSize := mul_pos h.pcpPos h.dcpPos

theorem length_getKvHeadGroups (h : getKvHeadGroups m tpSize = .ok groups) : groups.length = m.groupCount tpSize := by
  unfold getKvHeadGroups at h
  unfold Heads.groupCount
  split at h
  · rename_i hm
    cases h
    rw [if_pos hm]
    rfl
  · rename_i hm
    rw [if_neg hm]
    split at h
    · rename_i hma
      cases h
      rw [if_pos hma, length_map, length_range]
    rename_i hf
    rw [if_neg hf]
    split at h
    · cases h
      rw [length_map, length_range]
    · cases h

def Side.IsOffset (side : Side) (offset : Nat) : Prop := side.dcpSize ∣ offset ∧ offset + side.dcpSize ≤ side.tpSize

theorem Side.Fits.isOffset (h : side.Fits m) (hi : idx < m.groupCount side.tpSize)
    (hr : rep < side.tpSize / m.groupCount side.tpSize / side.dcpSize) :
    side.IsOffset (side.dcpSize * rep + side.tpSize / m.groupCount side.tpSize * idx) := by
  obtain ⟨k, hk⟩ := h.divides
  rw [hk, Nat.mul_div_cancel_left k h.dcpPos] at hr
  refine ⟨Nat.dvd_add (Nat.dvd_mul_right _ rep) ?_, ?_⟩
  · rw [hk]
    exact ⟨k * idx, by rw [mul_assoc]⟩
  · have hb : side.dcpSize * rep + side.dcpSize ≤ side.dcpSize * k := by
      exact mul_le_mul_left _ hr
    have hs : side.tpSize / m.groupCount side.tpSize * idx + side.tpSize / m.groupCount side.tpSize ≤ side.tpSize := by
      exact (mul_le_mul_left _ hi).trans (div_mul_le_self ..)
    omega

variable {offset port : Nat} {grp : List Nat} {mps : Mappings}

theorem cpRank_port (ho : side.IsOffset offset) (hd : dcr < side.dcpSize) :
    side.cpRank (dcr + side.port + side.tpSize * pcr + offset) = pcr * side.dcpSize + dcr := by
  obtain ⟨⟨k, rfl⟩, hr⟩ := ho
  have hlt : side.dcpSize * k + dcr < side.tpSize := by omega
  have hs : dcr + side.port + side.tpSize * pcr + side.dcpSize * k - side.port =
      side.tpSize * pcr + (side.dcpSize * k + dcr) := by omega
  rw [Side.cpRank, hs, mul_add_div (zero_lt_of_lt hlt), mul_add_mod, div_eq_of_lt hlt,
    mod_eq_of_lt hlt, mul_add_mod, mod_eq_of_lt hd, add_zero]

theorem map_cpRank_cpGroup (ho : side.IsOffset offset) : (cpGroup side offset).map side.cpRank = range side.cpSize := by
  rw [cpGroup, Side.cpSize, Interleave.range_mul, map_flatMap]
  refine flatMap_congr fun pcr _ => ?_
  rw [map_map]
  exact map_congr_left fun dcr hd => cpRank_port ho (mem_range.mp hd)

theorem isPort_of_mem_cpGroup (ho : side.IsOffset offset) (h : port ∈ cpGroup side offset) : side.IsPort port := by
  simp only [cpGroup, mem_flatMap, mem_range, mem_map] at h
  obtain ⟨pcr, hp, dcr, hd, rfl⟩ := h
  have hro : side.tpSize * pcr + side.tpSize ≤ side.tpSize * side.pcpSize := by
    exact mul_le_mul_left _ hp
  have hr := ho.2
  exact ⟨by omega, by omega⟩

structure Side.IsGroup (side : Side) (group : List Nat) : Prop where
  ranks : group.map side.cpRank = List.range side.cpSize
  ports : ∀ port ∈ group, side.IsPort port

theorem isGroup_of_getCpGroupMeta (hf : side.Fits m) (h : getCpGroupMeta m side = .ok groups) (hg : g ∈ groups)
    (hgr : grp ∈ g.cpGroups) : side.IsGroup grp := by
  obtain ⟨kvHeadGroups, hh, h⟩ := bind_ok.mp h
  cases h
  have hl := length_getKvHeadGroups hh
  obtain ⟨idx, hi, rfl⟩ := mem_mapIdx.mp hg
  simp only [mem_map, mem_range, hl] at hgr
  obtain ⟨rep, hr, rfl⟩ := hgr
  have ho := hf.isOffset (hl ▸ hi) hr
  exact ⟨map_cpRank_cpGroup ho, fun port => isPort_of_mem_cpGroup ho⟩

/-! ## The mappings -/

def shardRanks (rBlk localCpSize remoteCpSize localCpRank : Nat) : List Nat :=
  (List.range remoteCpSize).filter fun cpRank => cpRank / rBlk % localCpSize = localCpRank

theorem map_zipIdx_filter : ∀ {l : List Nat} {k : Nat}, l.map f = range' k l.length →
    (((l.zipIdx k).filter fun item => P item.2).map Prod.fst).map f = (range' k l.length).filter P
  | [], _, _ => rfl
  | x :: l, k, h => by
    rw [map_cons, length_cons, range'_succ, cons.injEq] at h
    rw [zipIdx_cons, filter_cons, length_cons, range'_succ, filter_cons]
    have ih := map_zipIdx_filter (P := P) h.2
    cases P k with
    | true => simp only [if_true, map_cons, h.1, ih]
    | false => simpa using ih

theorem remotePorts_ranks (h : p.IsGroup grp) (lcs lcr : Nat) :
    (remotePorts rBlk lcs lcr grp).map p.cpRank = shardRanks rBlk lcs p.cpSize lcr := by
  have hl : grp.length = p.cpSize := by
    have := congrArg length h.ranks
    rwa [length_map, length_range] at this
  have hr : grp.map p.cpRank = range' 0 grp.length := by
    rw [h.ranks, hl, range_eq_range']
  rw [remotePorts, map_zipIdx_filter (P := fun i => i / rBlk % lcs = lcr) hr, hl,
    ← range_eq_range', shardRanks]

def Pulls (rBlk : Nat) (p d : Side) (dPort : Nat) (ports : List Nat) : Prop :=
  ports.map p.cpRank = shardRanks rBlk d.cpSize p.cpSize (d.cpRank dPort) ∧ ∀ port ∈ ports, p.IsPort port

def Mapped (rBlk : Nat) (p d : Side) (mappings : Mappings) : Prop :=
  ∀ item ∈ mappings, item.2 ≠ [] ∧ ∀ ports ∈ item.2, Pulls rBlk p d item.1 ports

theorem mem_remotePorts (h : port ∈ remotePorts rBlk lcs lcr grp) : port ∈ grp := by
  simp only [remotePorts, mem_map, mem_filter] at h
  obtain ⟨item, ⟨hi, -⟩, rfl⟩ := h
  exact fst_mem_of_mem_zipIdx hi

theorem Mapped.mapCpGroup (h : Mapped rBlk p d mps)
    (hp : p.IsGroup pCpGroup) (hd : d.IsGroup dCpGroup) : Mapped rBlk p d (mapCpGroup rBlk pCpGroup dCpGroup mps) := by
  have hlen : dCpGroup.length = d.cpSize := by
    have := congrArg length hd.ranks
    rwa [length_map, length_range] at this
  refine foldlRecOn dCpGroup.zipIdx _ h fun mps h en hen item hie => ?_
  -- the rank of a port is its place in the grp
  have hrank : d.cpRank en.1 = en.2 := by
    have hget := mem_zipIdx_iff_getElem?.mp hen
    have hmap : (dCpGroup.map d.cpRank)[en.2]? = some (d.cpRank en.1) := by
      rw [getElem?_map, hget]
      rfl
    rw [hd.ranks] at hmap
    obtain ⟨hlt, hrank⟩ := getElem?_eq_some_iff.mp hmap
    rwa [getElem_range, eq_comm] at hrank
  have hnew : Pulls rBlk p d en.1 (remotePorts rBlk dCpGroup.length en.2 pCpGroup) := by
    refine ⟨?_, fun port hpr => hp.ports port (mem_remotePorts hpr)⟩
    rw [remotePorts_ranks hp, hlen, hrank]
  rcases mem_dictSet hie with rfl | hie
  · refine ⟨by simp, fun ports hpo => ?_⟩
    rcases mem_append.mp hpo with hold | hsi
    · cases hget : dictGet en.1 mps with
      | none =>
        rw [hget] at hold
        cases hold
      | some old =>
        rw [hget] at hold
        exact (h _ (mem_of_dictGet hget)).2 ports hold
    · cases mem_singleton.mp hsi
      exact hnew
  · exact h item hie

theorem Mapped.mapHeadGroup (hs : Mapped rBlk p d s.mappings)
    (hp : ∀ grp ∈ pGroup.cpGroups, p.IsGroup grp) (hd : ∀ grp ∈ dGroup.cpGroups, d.IsGroup grp)
    (h : mapHeadGroup rBlk dGroup pGroup s = .ok s') : Mapped rBlk p d s'.mappings := by
  refine foldlM_inv (P := fun s : Selection => Mapped rBlk p d s.mappings) ?_ hs h
  intro dCpGroup hdG s s' hs hstep
  dsimp only at hstep
  split at hstep
  · cases hstep
  rename_i pCpGroup hg
  cases hstep
  exact hs.mapCpGroup (hp _ (mem_of_getElem? hg)) (hd _ hdG)

theorem mapped_getLocalRemoteBlockPortMappings (hp : p.Fits m) (hd : d.Fits m)
    (h : getLocalRemoteBlockPortMappings m p d rBlk = .ok mps) : Mapped rBlk p d mps := by
  obtain ⟨-, -, h⟩ := bind_ok.mp h
  obtain ⟨pMeta, hpM, h⟩ := bind_ok.mp h
  obtain ⟨dMeta, hdM, h⟩ := bind_ok.mp h
  obtain ⟨s, hs, h⟩ := bind_ok.mp h
  cases h
  refine foldlM_inv (P := fun s : Selection => Mapped rBlk p d s.mappings) ?_ (by simp [Mapped]) hs
  intro dGroup hdG s s' hs hi
  refine foldlM_inv (P := fun s : Selection => Mapped rBlk p d s.mappings) ?_ hs hi
  intro pGroup hpG s s' hs hstep
  split at hstep
  · exact hs.mapHeadGroup (fun grp => isGroup_of_getCpGroupMeta hp hpM hpG)
      (fun grp => isGroup_of_getCpGroupMeta hd hdM hdG) hstep
  · cases hstep
    exact hs

/-! ## Other replicas -/

theorem Side.Fits.swapReplica_spec (h : p.Fits m) {span nReplica : Nat} (chosen : Nat)
    (hsp : span = p.tpSize / m.groupCount p.tpSize) (hrel : nReplica = max (span / max p.dcpSize 1) 1)
    (hpo : p.IsPort port) :
    p.cpRank (swapReplica p span nReplica chosen port) = p.cpRank port ∧
      p.IsPort (swapReplica p span nReplica chosen port) := by
  have hdc : max p.dcpSize 1 = p.dcpSize := Nat.max_eq_left h.dcpPos
  have hsm : span * m.groupCount p.tpSize = p.tpSize := hsp ▸ Nat.div_mul_cancel h.even
  have hspP : 0 < span := Nat.pos_of_ne_zero fun hzero => by
    rw [hzero, Nat.zero_mul] at hsm
    exact ne_of_gt h.tpPos hsm.symm
  obtain ⟨k, hk⟩ : p.dcpSize ∣ span := hsp ▸ h.divides
  have hkp : 0 < k := pos_of_ne_zero fun hzero => by
    rw [hzero, mul_zero] at hk
    exact ne_of_gt hspP hk
  have hn : nReplica = k := by
    rw [hrel, hdc, hk, Nat.mul_div_cancel_left _ h.dcpPos, Nat.max_eq_left hkp]
  obtain ⟨off, rfl⟩ := Nat.exists_eq_add_of_le hpo.1
  have hof : off < p.tpSize * p.pcpSize := Nat.lt_of_add_lt_add_left hpo.2
  obtain ⟨tpOff, hto⟩ : ∃ tpOff, tpOff = off % p.tpSize := ⟨_, rfl⟩
  obtain ⟨replica, hre⟩ : ∃ replica, replica = chosen / p.dcpSize % k := ⟨_, rfl⟩
  have htl : tpOff < p.tpSize := hto ▸ mod_lt _ h.tpPos
  have hrl : replica < k := hre ▸ mod_lt _ hkp
  -- the new place within the rank's pcp segment
  obtain ⟨x, hx⟩ : ∃ x, x = tpOff / span * span + replica * p.dcpSize + (tpOff - tpOff / span * span) % p.dcpSize :=
    ⟨_, rfl⟩
  have hgr : tpOff / span < m.groupCount p.tpSize := Nat.div_lt_of_lt_mul (by rw [hsm]; exact htl)
  have hxl : x < p.tpSize := by
    have hmod := mod_lt (tpOff - tpOff / span * span) h.dcpPos
    have hwi : replica * p.dcpSize + p.dcpSize ≤ span := by
      rw [hk, mul_comm p.dcpSize, ← succ_mul]
      exact mul_le_mul_right _ hrl
    have hro : tpOff / span * span + span ≤ p.tpSize := by
      rw [← succ_mul, ← hsm, mul_comm span]
      exact mul_le_mul_right _ hgr
    omega
  have hxm : x % p.dcpSize = tpOff % p.dcpSize := by
    have hrest : tpOff - tpOff / span * span = tpOff % span := by
      have := div_add_mod' tpOff span
      omega
    have hsh : x = p.dcpSize * (k * (tpOff / span) + replica) + tpOff % span % p.dcpSize := by
      rw [hx, hrest, mul_add, ← mul_assoc, ← hk, mul_comm span, mul_comm replica]
    rw [hsh, mul_add_mod, mod_mod, mod_mod_of_dvd _ ⟨k, hk⟩]
  have hnew : swapReplica p span nReplica chosen (p.port + off) = p.port + (off / p.tpSize * p.tpSize + x) := by
    unfold swapReplica
    dsimp only
    rw [hdc, Nat.add_sub_cancel_left, hn, ← hto, ← hre, hx]
    have hse : off - tpOff = off / p.tpSize * p.tpSize := by
      rw [hto, Nat.mul_comm]
      have := div_add_mod off p.tpSize
      omega
    omega
  rw [hnew]
  constructor
  · rw [Side.cpRank, Side.cpRank, Nat.add_sub_cancel_left, Nat.add_sub_cancel_left, Nat.mul_comm (off / p.tpSize),
      mul_add_div h.tpPos, mul_add_mod, div_eq_of_lt hxl, mod_eq_of_lt hxl, hxm, hto, Nat.add_zero]
  · have hrow : off / p.tpSize < p.pcpSize := Nat.div_lt_of_lt_mul hof
    have hrw : off / p.tpSize * p.tpSize + p.tpSize ≤ p.tpSize * p.pcpSize := by
      rw [← succ_mul, Nat.mul_comm p.tpSize]
      exact mul_le_mul_right _ hrow
    exact ⟨by omega, by omega⟩

end

end VllmAscend.Mooncake.Pull
