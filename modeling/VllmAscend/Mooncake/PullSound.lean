import VllmAscend.Lib.Ragged
import VllmAscend.Mooncake.PullMapping

/-!
# Every kernel block is pulled to its place

The kernel blocks of a prompt are numbered in the order of the tokens; each has
a place on the prefill side and, unless it belongs to the prefix, on the decode
side.
-/

namespace VllmAscend.Mooncake.Pull

open Python Worker Nat
open List hiding getElem?_eq_some_iff

variable {h gi localScale q lr kernelSize cached : Nat} {w : Worker} {geo : Geometry}

/-! ## The shards of a rank -/

section
variable {p : Side} {ranks : List Nat} {pl : List (List Nat)}

def Carries (p : Side) (ranks : List Nat) (h : Nat) (portList : List (List Nat)) : Prop :=
  portList.length = ranks.length ∧ ∀ idx q, ranks[idx]? = some q →
    ∃ port, (portList.getD idx [])[h]? = some port ∧ p.cpRank port = q ∧ p.IsPort port

theorem map_moveToEnd {α β : Type} (f : α → β) (i : Nat) (l : List α) :
    (moveToEnd i l).map f = moveToEnd i (l.map f) := by
  rw [moveToEnd, moveToEnd, map_append, eraseIdx_map, getElem?_map]
  cases l[i]? <;> rfl

theorem mem_of_mem_moveToEnd {α : Type} {l : List α} {x : α} (hx : x ∈ moveToEnd i l) : x ∈ l := by
  rcases mem_append.mp hx with hx | hx
  · exact mem_of_mem_eraseIdx hx
  · rw [Option.mem_toList] at hx
    exact mem_of_getElem? hx

theorem carries_transpose {mapping : List (List Nat)} (hh : h < mapping.length)
    (hmap : ∀ po ∈ mapping, po.map p.cpRank = ranks ∧ ∀ port ∈ po, p.IsPort port) :
    Carries p ranks h ((range (mapping.headD []).length).map fun idx => mapping.map fun po => po.getD idx 0) := by
  have hlen : ∀ po ∈ mapping, po.length = ranks.length := fun po hpo => by
    rw [← (hmap po hpo).1, length_map]
  have hhead : (mapping.headD []).length = ranks.length := by
    cases mapping with
    | nil => cases hh
    | cons po mapping => exact hlen po (by simp)
  refine ⟨by rw [length_map, length_range, hhead], fun idx q hq => ?_⟩
  obtain ⟨po, hpo⟩ : ∃ po, mapping[h]? = some po := ⟨_, getElem?_eq_getElem hh⟩
  have hmem := mem_of_getElem? hpo
  have hidx : idx < ranks.length := lt_of_getElem? hq
  have hpr : po[idx]? = some (po.getD idx 0) := by
    rw [getD, getElem?_eq_getElem (by rw [hlen po hmem]; exact hidx)]
    rfl
  refine ⟨po.getD idx 0, ?_, ?_, (hmap po hmem).2 _ (mem_of_getElem? hpr)⟩
  · have hget : ((range (mapping.headD []).length).map fun idx =>
        mapping.map fun po => po.getD idx 0).getD idx [] = mapping.map fun po => po.getD idx 0 := by
      rw [getD, getElem?_map, getElem?_range (by rw [hhead]; exact hidx)]
      rfl
    rw [hget, getElem?_map, hpo]
    rfl
  · have hrank := (hmap po hmem).1 ▸ hq
    rw [getElem?_map, hpr] at hrank
    exact Option.some.inj hrank

theorem appendMambaPorts_extends (dts tpr : Nat) (fp : List Nat) :
    fp <+: appendMambaPorts p dts tpr fp := by
  refine foldlRecOn (motive := fun po => fp <+: po) _ _ (prefix_refl _) fun po hp j _ => ?_
  dsimp only
  split
  · exact hp
  · exact hp.trans (prefix_append _ _)

section
variable (hf : p.Fits m) (hs : setHmaSharedPort m p dts tpr chosenTpList pl = .ok portList')
include hf hs

theorem setHmaSharedPort_ok : ∃ swap : Nat → Nat → Nat,
    (∀ i port, p.IsPort port → p.cpRank (swap i port) = p.cpRank port ∧ p.IsPort (swap i port)) ∧
    ∃ sw, sw = pl.map (·.mapIdx swap) ∧
      portList' = sw.dropLast ++ sw.getLast?.toList.map (appendMambaPorts p dts tpr) := by
  obtain ⟨groups, hg, hs⟩ := bind_ok.mp hs
  cases hs
  rw [length_getKvHeadGroups hg]
  split
  · exact ⟨_, fun i port => hf.swapReplica_spec _ rfl rfl, _, rfl, rfl⟩
  · exact ⟨fun _ port => port, fun i port hp => ⟨rfl, hp⟩, pl, by simp [mapIdx_eq_zipIdx_map], rfl⟩

theorem Carries.setHmaSharedPort (hca : Carries p ranks h pl) : Carries p ranks h portList' := by
  obtain ⟨swap, hsp, sw, hsw, rfl⟩ := setHmaSharedPort_ok hf hs
  have hsa : Carries p ranks h sw := by
    subst hsw
    refine ⟨by rw [length_map]; exact hca.1, fun idx q hq => ?_⟩
    obtain ⟨port, hpo, hrank, hip⟩ := hca.2 idx q hq
    have hidx : idx < pl.length := hca.1 ▸ lt_of_getElem? hq
    refine ⟨_, ?_, (hsp h port hip).1.trans hrank, (hsp h port hip).2⟩
    rw [getD, getElem?_eq_getElem hidx, Option.getD_some] at hpo
    rw [getD, getElem?_map, getElem?_eq_getElem hidx, Option.map_some, Option.getD_some, getElem?_mapIdx, hpo]
    rfl
  -- the last shard only gets longer
  cases hlast : sw.getLast? with
  | none =>
    rw [getLast?_eq_none_iff] at hlast
    subst hlast
    exact hsa
  | some last =>
    obtain ⟨init, rfl⟩ := getLast?_eq_some_iff.mp hlast
    rw [dropLast_concat]
    refine ⟨?_, fun idx q hq => ?_⟩
    · have := hsa.1
      simpa using this
    · obtain ⟨port, hpo, hsp⟩ := hsa.2 idx q hq
      refine ⟨port, ?_, hsp⟩
      have hidx : idx < init.length + 1 := by
        have := lt_of_getElem? hq
        rw [← hsa.1] at this
        simpa using this
      rcases Nat.lt_succ_iff_lt_or_eq.mp hidx with hlt | rfl
      · rw [getD, getElem?_append_left hlt] at hpo ⊢
        exact hpo
      rw [getD, getElem?_append_right (Nat.le_refl _), Nat.sub_self] at hpo ⊢
      have hpo : last[h]? = some port := hpo
      obtain ⟨rest, hrest⟩ := appendMambaPorts_extends dts tpr last
      change (appendMambaPorts p dts tpr last)[h]? = some port
      rw [← hrest, getElem?_append_left (lt_of_getElem? hpo)]
      exact hpo

end

end

abbrev Pair := (Nat × Nat) × (Nat × Nat)

def Shard.pairs (shard : Shard) (p : Side) (h groupIdx localRank : Nat) : List Pair :=
  match shard.ports[h]? with
  | none => []
  | some port =>
    let blocks := shard.blocks.getD groupIdx ([], [])
    (blocks.1.zip blocks.2).map fun block => ((p.cpRank port, block.1), (localRank, block.2))

def kernelPairs (geo : Geometry) (m : ReqMeta) (groupIdx localScale shardCpRank : Nat) : List (Nat × Nat) :=
  let kernelSize := geo.blockSize / localScale
  let first := remoteFirst geo.numPrefixPBlocks geo.remoteCpSize shardCpRank
  let num := remoteBlockNum m.numPromptBlocks geo.numPrefixPBlocks geo.remoteCpSize shardCpRank
  (expandBlockIds (((m.remoteBlockIds.getD groupIdx []).drop first).take num) (geo.remoteBlockSize / kernelSize)).zip
    (localKernelIdsForShard geo first num shardCpRank kernelSize (m.localBlockIds.getD groupIdx []))

theorem cpRank_handshakePort (htp : rank.tpRank < w.side.tpSize) :
    w.side.cpRank (w.handshakePort rank) = w.localCpRank rank := by
  have hp : 0 < w.side.tpSize := zero_lt_of_lt htp
  rw [Side.cpRank, handshakePort, Nat.add_sub_cancel_left, Nat.mul_comm rank.pcpRank, mul_add_div hp,
    mul_add_mod, div_eq_of_lt htp, mod_eq_of_lt htp, add_zero, add_comm]
  rfl

theorem map_moveFinal {α β : Type} (f : α → β) (i : Option Nat) (l : List α) :
    (moveFinal i l).map f = moveFinal i (l.map f) := by
  cases i with
  | none => rfl
  | some i => exact map_moveToEnd f i l

theorem mem_of_mem_moveFinal {α : Type} {l : List α} {x : α} (hx : x ∈ moveFinal i l) : x ∈ l := by
  cases i with
  | none => exact hx
  | some i => exact mem_of_mem_moveToEnd hx

theorem portMapping_pulls (hp : m.remote.Fits w.heads) (hd : w.side.Fits w.heads) (htp : rank.tpRank < w.side.tpSize)
    (hmap : w.portMapping rank m = .ok mapping) : mapping ≠ [] ∧ ∀ po ∈ mapping.map (moveFinal (w.finalBlockIdx rank m)),
      po.map m.remote.cpRank = w.shardCpRanks rank m ∧ ∀ port ∈ po, m.remote.IsPort port := by
  obtain ⟨mappings, hmp, hmap⟩ := bind_ok.mp hmap
  cases hget : dictGet (w.handshakePort rank) mappings with
  | none =>
    rw [hget] at hmap
    cases hmap
  | some mapping' =>
    rw [hget] at hmap
    cases hmap
    obtain ⟨hne, hpu⟩ := mapped_getLocalRemoteBlockPortMappings hp hd hmp _ (mem_of_dictGet hget)
    refine ⟨hne, fun _ hmem => ?_⟩
    obtain ⟨po, hpo, rfl⟩ := mem_map.mp hmem
    refine ⟨?_, fun port hpr => (hpu po hpo).2 port (mem_of_mem_moveFinal hpr)⟩
    rw [map_moveFinal, (hpu po hpo).1, cpRank_handshakePort htp]
    rfl

theorem carries_remoteHandshakePortList (hp : m.remote.Fits w.heads) (hd : w.side.Fits w.heads)
    (htp : rank.tpRank < w.side.tpSize) (hm : w.portMapping rank m = .ok mapping) (hh : h < mapping.length)
    {pl : List (List Nat)} (hpl : w.remoteHandshakePortList rank chosenTpList m mapping = .ok pl) :
    Carries m.remote (w.shardCpRanks rank m) h pl := by
  have hc := carries_transpose (by rw [length_map]; exact hh) (portMapping_pulls hp hd htp hm).2
  unfold remoteHandshakePortList at hpl
  split at hpl
  · exact hc.setHmaSharedPort hp hpl
  · cases hpl
    exact hc

theorem getKvSplitMetadata_ok (hp : m.remote.Fits w.heads) (hd : w.side.Fits w.heads)
    (htp : rank.tpRank < w.side.tpSize) (hgr : w.groups[gi]? = some (.attention localScale))
    (hmap : w.portMapping rank m = .ok mapping) (hh : h < mapping.length)
    (hok : w.getKvSplitMetadata rank chosenTpList m = .ok shards) :
    checkBlockSizes w.blockSize (w.remoteBlockSize m) w.side.cpSize m.remote.cpSize = .ok () ∧
      checkGroup w.blockSize (w.remoteBlockSize m) (.attention localScale) = .ok () ∧ w.checkBlocks m = .ok () ∧
      shards.flatMap (·.pairs m.remote h gi (w.localCpRank rank)) =
        (w.shardCpRanks rank m).flatMap fun shardCpRank =>
          (kernelPairs (w.geometry rank m) m gi localScale shardCpRank).map fun blk =>
            ((shardCpRank, blk.1), (w.localCpRank rank, blk.2)) := by
  obtain ⟨⟨⟩, hsi, hok⟩ := bind_ok.mp hok
  obtain ⟨⟨⟩, hgu, hok⟩ := bind_ok.mp hok
  obtain ⟨mapping', hmap', hok⟩ := bind_ok.mp hok
  cases hmap.symm.trans hmap'
  obtain ⟨⟨⟩, hbl, hok⟩ := bind_ok.mp hok
  obtain ⟨⟨⟩, -, hok⟩ := bind_ok.mp hok
  obtain ⟨pl, hpl, hok⟩ := bind_ok.mp hok
  obtain ⟨⟨⟩, -, hok⟩ := bind_ok.mp hok
  cases hok
  refine ⟨hsi, forM_ok.mp hgu _ (mem_of_getElem? hgr), hbl, ?_⟩
  have hca := carries_remoteHandshakePortList hp hd htp hmap hh hpl
  rw [flatMap_map, hca.1, ← Ragged.flatMap_range_getD (w.shardCpRanks rank m) 0]
  refine flatMap_congr fun idx hidx => ?_
  have hlt := mem_range.mp hidx
  obtain ⟨port, hpr, hrank, -⟩ := hca.2 idx _ (getElem?_eq_getElem hlt)
  have hbe : (w.shard rank m pl idx).blocks.getD gi ([], []) =
      shardBlocks (w.geometry rank m) m ((w.shardCpRanks rank m).getD idx 0) (idx + 1 = pl.length) gi
        (.attention localScale) := by
    rw [shard, getD, getElem?_mapIdx, hgr]
    rfl
  have hq : (w.shardCpRanks rank m).getD idx 0 = m.remote.cpRank port := by
    rw [getD, getElem?_eq_getElem hlt, hrank]
    rfl
  have hpo : (w.shard rank m pl idx).ports[h]? = some port := hpr
  simp only [Shard.pairs, hpo, hbe, hq]
  rw [shardBlocks]
  rw [← zip_eq_zip_take_min]
  rfl

/-! ## The prefill blocks of a shard -/

theorem lt_ceilDiv_iff (hb : 0 < b) : x < ceilDiv n b ↔ x * b < n := by
  rw [ceilDiv, lt_iff_add_one_le, le_div_iff_mul_le hb, succ_mul]
  omega

theorem mul_add_div_mod (p : Nat) (hj : j < k) : (p * k + j) / k = p ∧ (p * k + j) % k = j :=
  (Nat.div_mod_unique (zero_lt_of_lt hj)).mpr ⟨by rw [mul_comm, add_comm], hj⟩

section
variable {npb npp rcp : Nat}

theorem remoteFirst_eq (hq : q < rcp) : remoteFirst npp rcp q =
    npp / rcp + if q < npp % rcp then 1 else 0 := by
  have hp : 0 < rcp := zero_lt_of_lt hq
  refine eq_of_forall_lt_iff fun k => ?_
  rw [Interleave.lt_share_iff hq, remoteFirst, lt_iff_add_one_le, le_div_iff_mul_le hp, succ_mul]
  omega

def shardBlock (numPrefixPBlocks remoteCpSize q i : Nat) : Nat :=
  (remoteFirst numPrefixPBlocks remoteCpSize q + i) * remoteCpSize + q

theorem lt_remoteBlockNum_iff (hq : q < rcp) (i : Nat) :
    i < remoteBlockNum npb npp rcp q ↔
      shardBlock npp rcp q i < npb := by
  rw [shardBlock, ← Interleave.lt_share_iff hq, remoteFirst_eq hq, remoteBlockNum]
  omega

theorem le_shardBlock (hq : q < rcp) (i : Nat) : npp ≤ shardBlock npp rcp q i := by
  rw [← not_lt, shardBlock, ← Interleave.lt_share_iff hq, remoteFirst_eq hq]
  omega

theorem shardBlock_mod (hq : q < rcp) (i : Nat) : shardBlock npp rcp q i % rcp = q := by
  rw [shardBlock, mul_add_mod_self_right, mod_eq_of_lt hq]

theorem shardBlock_div (hq : q < rcp) (i : Nat) :
    shardBlock npp rcp q i / rcp = remoteFirst npp rcp q + i := by
  rw [shardBlock, (mul_add_div_mod _ hq).1]

theorem exists_shardBlock (hp : 0 < rcp) (hle : npp ≤ p) :
    ∃ i, shardBlock npp rcp (p % rcp) i = p := by
  have hq := mod_lt p hp
  have hfi : remoteFirst npp rcp (p % rcp) ≤ p / rcp := by
    rw [← not_lt, remoteFirst_eq hq, Interleave.lt_share_iff hq, div_add_mod']
    exact not_lt.mpr hle
  refine ⟨p / rcp - remoteFirst npp rcp (p % rcp), ?_⟩
  rw [shardBlock, Nat.add_sub_cancel' hfi, div_add_mod']

end

/-! ## The kernel blocks of a prefill block -/

theorem mul_div_of_dvd (hs : 0 < s) (hd : s ∣ b) (k : Nat) : k * s / b = k / (b / s) := by
  obtain ⟨c, rfl⟩ := hd
  rw [mul_comm s, Nat.mul_div_mul_right _ _ hs, Nat.mul_div_cancel _ hs]

structure Cut (geo : Geometry) (localRank kernelSize cached : Nat) : Prop where
  kernelPos : 0 < kernelSize
  localPos : 0 < geo.blockSize
  remotePos : 0 < geo.remoteBlockSize
  remote_dvd : kernelSize ∣ geo.remoteBlockSize
  local_dvd : kernelSize ∣ geo.blockSize
  remoteCpPos : 0 < geo.remoteCpSize
  rank_lt : localRank < geo.localCpSize
  sizes : geo.remoteBlockSize ∣ geo.blockSize ∨
    geo.blockSize < geo.remoteBlockSize ∧ geo.blockSize ∣ geo.remoteBlockSize ∧ geo.localCpSize = 1
  aligned : geo.localCpSize = 1 ∨ geo.localCpSize * geo.rBlk ∣ geo.remoteCpSize
  whole : geo.blockSize * geo.localCpSize ∣ cached
  prefixBlocks : geo.numPrefixPBlocks * geo.remoteBlockSize = cached
  firstD : geo.remoteBlockSize ∣ geo.blockSize → geo.firstD = cached / geo.blockSize + localRank

def localKernel (geo : Geometry) (kernelSize cached : Nat) (localBlockIds : List Nat) (kernel : Nat) : Nat :=
  let kernelsPerDBlock := geo.blockSize / kernelSize
  localBlockIds.getD (kernel / kernelsPerDBlock / geo.localCpSize - cached / (geo.blockSize * geo.localCpSize)) 0 *
    kernelsPerDBlock + kernel % kernelsPerDBlock

def reach (geo : Geometry) (kernelSize numLocal p kernelIdx : Nat) : Bool :=
  decide (geo.blockSize < geo.remoteBlockSize →
    (p - geo.numPrefixPBlocks) * geo.remoteBlockSize + kernelIdx * kernelSize < numLocal * geo.blockSize)

theorem rBlk_mul (geo : Geometry) (hdv : geo.remoteBlockSize ∣ geo.blockSize) (hp : 0 < geo.blockSize) :
    geo.rBlk * geo.remoteBlockSize = geo.blockSize := by
  unfold Geometry.rBlk blockRatio
  split
  · exact Nat.div_mul_cancel hdv
  · have := le_of_dvd hp hdv
    omega

section
variable (cut : Cut geo lr kernelSize cached)
include cut

theorem Cut.kernels_remote :
    geo.remoteBlockSize / kernelSize * kernelSize = geo.remoteBlockSize := Nat.div_mul_cancel cut.remote_dvd

theorem Cut.kernels_local : geo.blockSize / kernelSize * kernelSize = geo.blockSize := Nat.div_mul_cancel cut.local_dvd

section
variable (hdv : geo.remoteBlockSize ∣ geo.blockSize)
include hdv

theorem Cut.kernelsPerD_eq : geo.blockSize / kernelSize = geo.remoteBlockSize / kernelSize * geo.rBlk := by
  rw [Nat.mul_comm, ← Nat.mul_div_assoc _ cut.remote_dvd, rBlk_mul geo hdv cut.localPos]

theorem Cut.div_kernels (kn : Nat) :
    kn / (geo.blockSize / kernelSize) = kn / (geo.remoteBlockSize / kernelSize) / geo.rBlk := by
  rw [cut.kernelsPerD_eq hdv, Nat.div_div_eq_div_mul]

theorem Cut.kernel_mod (hj : j < geo.remoteBlockSize / kernelSize) :
    (p * (geo.remoteBlockSize / kernelSize) + j) % (geo.blockSize / kernelSize) =
      p % geo.rBlk * geo.remoteBlockSize / kernelSize + j := by
  rw [cut.kernelsPerD_eq hdv, mod_mul, (mul_add_div_mod p hj).1, (mul_add_div_mod p hj).2,
    Nat.mul_div_assoc _ cut.remote_dvd, Nat.mul_comm, Nat.add_comm]

theorem Cut.localIdx (ho : d % geo.localCpSize = lr) :
    (d - geo.firstD) / geo.localCpSize = d / geo.localCpSize - cached / (geo.blockSize * geo.localCpSize) := by
  obtain ⟨u, hu⟩ := cut.whole
  have hp : 0 < geo.localCpSize := zero_lt_of_lt cut.rank_lt
  have hfi : geo.firstD = geo.localCpSize * u + lr := by
    rw [cut.firstD hdv, hu, Nat.mul_assoc, Nat.mul_div_cancel_left _ cut.localPos]
  have hd : d = geo.localCpSize * (d / geo.localCpSize) + lr := by
    have := div_add_mod d geo.localCpSize
    omega
  rw [hu, Nat.mul_div_cancel_left _ (Nat.mul_pos cut.localPos hp), hfi]
  conv_lhs => rw [hd, Nat.add_sub_add_right, ← Nat.mul_sub, Nat.mul_div_cancel_left _ hp]

theorem Cut.localKernelIds_small (ho : p / geo.rBlk % geo.localCpSize = lr)
    (hi : p / geo.rBlk / geo.localCpSize - cached / (geo.blockSize * geo.localCpSize) < lbs.length) :
    localKernelIds geo kernelSize lbs p =
      ((range (geo.remoteBlockSize / kernelSize)).takeWhile
        (reach geo kernelSize lbs.length p)).map fun j =>
          localKernel geo kernelSize cached lbs (p * (geo.remoteBlockSize / kernelSize) + j) := by
  have hn : ¬ geo.blockSize < geo.remoteBlockSize := not_lt.mpr (le_of_dvd cut.localPos hdv)
  have hr : (range (geo.remoteBlockSize / kernelSize)).takeWhile
      (reach geo kernelSize lbs.length p) = range (geo.remoteBlockSize / kernelSize) :=
    takeWhile_eq_self_iff.mpr fun j _ => decide_eq_true fun hlt => absurd hlt hn
  have hg := getElem?_eq_getElem hi
  unfold localKernelIds
  dsimp only
  rw [if_neg hn, cut.localIdx hdv ho, hg, hr]
  refine map_congr_left fun j hj => ?_
  have hj := mem_range.mp hj
  rw [localKernel, cut.div_kernels hdv, (mul_add_div_mod p hj).1, cut.kernel_mod hdv hj, getD, hg]
  exact add_assoc ..

end

theorem Cut.offset_eq (hle : geo.numPrefixPBlocks ≤ p) :
    (p - geo.numPrefixPBlocks) * geo.remoteBlockSize + j * kernelSize =
      (p * (geo.remoteBlockSize / kernelSize) + j) * kernelSize - cached := by
  rw [Nat.sub_mul, cut.prefixBlocks, Nat.add_mul, Nat.mul_assoc, cut.kernels_remote]
  have : cached ≤ p * geo.remoteBlockSize := by
    rw [← cut.prefixBlocks]
    exact mul_le_mul_right _ hle
  omega

theorem Cut.localKernelIds_large
    (hlt : geo.blockSize < geo.remoteBlockSize) (hcp : geo.localCpSize = 1) (hle : geo.numPrefixPBlocks ≤ p) :
    localKernelIds geo kernelSize lbs p =
      ((range (geo.remoteBlockSize / kernelSize)).takeWhile
        (reach geo kernelSize lbs.length p)).map fun j =>
          localKernel geo kernelSize cached lbs (p * (geo.remoteBlockSize / kernelSize) + j) := by
  have hr : reach geo kernelSize lbs.length p = fun j => decide
      ((p - geo.numPrefixPBlocks) * geo.remoteBlockSize + j * kernelSize < lbs.length * geo.blockSize) := by
    funext j
    exact decide_eq_decide.mpr ⟨fun h => h hlt, fun h _ => h⟩
  unfold localKernelIds
  dsimp only
  rw [if_pos hlt, hr]
  refine map_congr_left fun j _ => ?_
  -- the prefix is a whole number of decode blocks, so only the quotient moves
  obtain ⟨u, hu⟩ := cut.whole
  rw [hcp, mul_one] at hu
  rw [localKernel, cut.offset_eq hle, hcp, Nat.mul_one, Nat.div_one, hu, Nat.mul_div_cancel_left _ cut.localPos,
    sub_mul_div, sub_mul_mod]
  · generalize p * (geo.remoteBlockSize / kernelSize) + j = kn
    have hm : kn * kernelSize % geo.blockSize / kernelSize = kn % (geo.blockSize / kernelSize) := by
      conv_lhs => rw [← cut.kernels_local, mul_mod_mul_right]
      exact Nat.mul_div_cancel _ cut.kernelPos
    rw [mul_div_of_dvd cut.kernelPos cut.local_dvd, hm]
  · rw [← hu, ← cut.prefixBlocks, add_mul, mul_assoc, cut.kernels_remote]
    exact le_add_right_of_le (mul_le_mul_right _ hle)

theorem Cut.owner (hm : p % geo.remoteCpSize = q) (hq : q / geo.rBlk % geo.localCpSize = lr) :
    p / geo.rBlk % geo.localCpSize = lr := by
  rcases cut.aligned with ho | ha
  · rw [← hq, ho, mod_one, mod_one]
  · rw [← hq, ← hm, ← mod_mul_right_div_self, ← mod_mul_right_div_self, mul_comm geo.rBlk, mod_mod_of_dvd _ ha]

end

/-! ## The kernel blocks of a shard -/

def remoteKernel (geo : Geometry) (kernelSize : Nat) (remoteBlockIds : List Nat) (kernel : Nat) : Nat :=
  let kernelsPerPBlock := geo.remoteBlockSize / kernelSize
  remoteBlockIds.getD (kernel / kernelsPerPBlock / geo.remoteCpSize) 0 * kernelsPerPBlock + kernel % kernelsPerPBlock

def shardKernels (geo : Geometry) (kernelSize numLocal numPromptBlocks q : Nat) : List Nat :=
  (List.range (remoteBlockNum numPromptBlocks geo.numPrefixPBlocks geo.remoteCpSize q)).flatMap fun i =>
    ((List.range (geo.remoteBlockSize / kernelSize)).takeWhile
      (reach geo kernelSize numLocal (shardBlock geo.numPrefixPBlocks geo.remoteCpSize q i))).map fun j =>
        shardBlock geo.numPrefixPBlocks geo.remoteCpSize q i * (geo.remoteBlockSize / kernelSize) + j

theorem succ_lt_of_mem_dropLast_range (h : i ∈ (range n).dropLast) : i + 1 < n := by
  cases n with
  | zero => cases h
  | succ n =>
    rw [range_succ, dropLast_concat, mem_range] at h
    exact succ_lt_succ h

theorem take_drop_remoteBlockIds {rbs : List Nat} (hq : q < geo.remoteCpSize)
    (hl : ceilDiv npb geo.remoteCpSize ≤ rbs.length) :
    (rbs.drop (remoteFirst geo.numPrefixPBlocks geo.remoteCpSize q)).take
        (remoteBlockNum npb geo.numPrefixPBlocks geo.remoteCpSize q) =
      (range (remoteBlockNum npb geo.numPrefixPBlocks geo.remoteCpSize q)).map fun i =>
        rbs.getD (shardBlock geo.numPrefixPBlocks geo.remoteCpSize q i / geo.remoteCpSize) 0 := by
  have hidx : ∀ i < remoteBlockNum npb geo.numPrefixPBlocks geo.remoteCpSize q,
      remoteFirst geo.numPrefixPBlocks geo.remoteCpSize q + i < rbs.length := by
    intro i hi
    rw [lt_remoteBlockNum_iff hq, shardBlock] at hi
    exact lt_of_lt_of_le ((lt_ceilDiv_iff (zero_lt_of_lt hq)).mpr (by omega)) hl
  refine ext_getElem ?_ fun i hi hi' => ?_
  · rw [length_take, length_drop, length_map, length_range, min_eq_left]
    by_contra hlt
    have := hidx (rbs.length - remoteFirst geo.numPrefixPBlocks geo.remoteCpSize q) (by omega)
    omega
  · rw [length_map, length_range] at hi'
    have hlt := hidx i hi'
    simp only [getElem_take, getElem_drop, getElem_map, getElem_range]
    rw [shardBlock_div hq, getD, getElem?_eq_getElem hlt]
    rfl

theorem Cut.kernelPairs_eq (cut : Cut geo lr (geo.blockSize / localScale) cached) (hq : q < geo.remoteCpSize)
    (hon : q / geo.rBlk % geo.localCpSize = lr)
    (hre : ceilDiv m.numPromptBlocks geo.remoteCpSize ≤ (m.remoteBlockIds.getD gi []).length)
    (hsm : geo.remoteBlockSize ∣ geo.blockSize → ∀ p < m.numPromptBlocks, geo.numPrefixPBlocks ≤ p →
      p / geo.rBlk / geo.localCpSize - cached / (geo.blockSize * geo.localCpSize) <
        (m.localBlockIds.getD gi []).length)
    (hla : geo.blockSize < geo.remoteBlockSize →
      (m.numPromptBlocks - 1 - geo.numPrefixPBlocks) * geo.remoteBlockSize ≤
        (m.localBlockIds.getD gi []).length * geo.blockSize) :
    kernelPairs geo m gi localScale q =
      (shardKernels geo (geo.blockSize / localScale) (m.localBlockIds.getD gi []).length m.numPromptBlocks q).map
        fun kn => (remoteKernel geo (geo.blockSize / localScale) (m.remoteBlockIds.getD gi []) kn,
          localKernel geo (geo.blockSize / localScale) cached (m.localBlockIds.getD gi []) kn) := by
  generalize hks : geo.blockSize / localScale = kernelSize at cut
  generalize hid : m.remoteBlockIds.getD gi [] = rbs at hre
  generalize hli : m.localBlockIds.getD gi [] = lbs at hsm hla
  have hlo : ∀ i < remoteBlockNum m.numPromptBlocks geo.numPrefixPBlocks geo.remoteCpSize q,
      localKernelIds geo kernelSize lbs (shardBlock geo.numPrefixPBlocks geo.remoteCpSize q i) =
        ((range (geo.remoteBlockSize / kernelSize)).takeWhile
          (reach geo kernelSize lbs.length (shardBlock geo.numPrefixPBlocks geo.remoteCpSize q i))).map
            fun j => localKernel geo kernelSize cached lbs
              (shardBlock geo.numPrefixPBlocks geo.remoteCpSize q i * (geo.remoteBlockSize / kernelSize) + j) := by
    intro i hi
    rcases cut.sizes with hdv | ⟨hlt, -, hcp⟩
    · exact cut.localKernelIds_small hdv (cut.owner (shardBlock_mod hq i) hon)
        (hsm hdv _ ((lt_remoteBlockNum_iff hq i).mp hi) (le_shardBlock hq i))
    · exact cut.localKernelIds_large hlt hcp (le_shardBlock hq i)
  -- only the last blk of the prompt can be cut short
  have hfu : ∀ i ∈ (range (remoteBlockNum m.numPromptBlocks geo.numPrefixPBlocks geo.remoteCpSize q)).dropLast,
      (range (geo.remoteBlockSize / kernelSize)).takeWhile
        (reach geo kernelSize lbs.length (shardBlock geo.numPrefixPBlocks geo.remoteCpSize q i)) =
          range (geo.remoteBlockSize / kernelSize) := by
    intro i hi
    refine takeWhile_eq_self_iff.mpr fun j hj => decide_eq_true fun hlt => ?_
    have hnext := (lt_remoteBlockNum_iff hq (i + 1)).mp (succ_lt_of_mem_dropLast_range hi)
    have hstep : shardBlock geo.numPrefixPBlocks geo.remoteCpSize q (i + 1) =
        shardBlock geo.numPrefixPBlocks geo.remoteCpSize q i + geo.remoteCpSize := by
      rw [shardBlock, shardBlock, ← add_assoc, succ_mul]
      omega
    have hle : geo.numPrefixPBlocks ≤ shardBlock geo.numPrefixPBlocks geo.remoteCpSize q i := le_shardBlock hq i
    have hke : j * kernelSize < geo.remoteBlockSize := by
      rw [← cut.kernels_remote]
      exact mul_lt_mul_of_pos_right (mem_range.mp hj) cut.kernelPos
    have hrow : (shardBlock geo.numPrefixPBlocks geo.remoteCpSize q i - geo.numPrefixPBlocks) * geo.remoteBlockSize +
        geo.remoteBlockSize ≤ (m.numPromptBlocks - 1 - geo.numPrefixPBlocks) * geo.remoteBlockSize := by
      rw [← succ_mul]
      exact mul_le_mul_right _ (by omega)
    omega
  unfold kernelPairs localKernelIdsForShard expandBlockIds
  dsimp only
  rw [hks, hid, hli, take_drop_remoteBlockIds hq hre, flatMap_map, shardKernels, map_flatMap]
  rw [Ragged.zip_flatMap]
  · refine flatMap_congr fun i hi => ?_
    rw [← shardBlock, hlo i (mem_range.mp hi), Ragged.zip_map_takeWhile, map_map]
    refine map_congr_left fun j hj => ?_
    have hj := mem_range.mp (takeWhile_sublist _ |>.subset hj)
    simp only [Function.comp, remoteKernel]
    rw [(mul_add_div_mod _ hj).1, (mul_add_div_mod _ hj).2]
  · intro i hi
    rw [← shardBlock, hlo i (mem_range.mp (dropLast_subset _ hi)), hfu i hi]
    simp

theorem reach_down (hij : i ≤ j) (h : reach geo kernelSize nl p j = true) :
    reach geo kernelSize nl p i = true := by
  refine decide_eq_true fun hlt => ?_
  have hj := of_decide_eq_true h hlt
  have := mul_le_mul_right kernelSize hij
  omega

theorem mem_shardKernels (hk : 0 < geo.remoteBlockSize / kernelSize) (hq : q < geo.remoteCpSize) :
    kn ∈ shardKernels geo kernelSize nl npb q ↔
      kn / (geo.remoteBlockSize / kernelSize) % geo.remoteCpSize = q ∧
        geo.numPrefixPBlocks ≤ kn / (geo.remoteBlockSize / kernelSize) ∧
        kn / (geo.remoteBlockSize / kernelSize) < npb ∧
        reach geo kernelSize nl (kn / (geo.remoteBlockSize / kernelSize))
          (kn % (geo.remoteBlockSize / kernelSize)) = true := by
  simp only [shardKernels, mem_flatMap, mem_range, mem_map, Ragged.mem_takeWhile_range reach_down]
  constructor
  · rintro ⟨i, hi, j, ⟨hj, hr⟩, rfl⟩
    rw [(mul_add_div_mod _ hj).1, (mul_add_div_mod _ hj).2]
    exact ⟨shardBlock_mod hq i, le_shardBlock hq i, (lt_remoteBlockNum_iff hq i).mp hi, hr⟩
  · rintro ⟨rfl, hle, hlt, hr⟩
    obtain ⟨i, hi⟩ := exists_shardBlock (zero_lt_of_lt hq) hle
    refine ⟨i, (lt_remoteBlockNum_iff hq i).mpr (by rw [hi]; exact hlt),
      kn % (geo.remoteBlockSize / kernelSize), ⟨mod_lt _ hk, ?_⟩, ?_⟩
    · rw [hi]
      exact hr
    · rw [hi, div_add_mod']

theorem nodup_shardKernels (hq : q < geo.remoteCpSize)
    (nl npb : Nat) : (shardKernels geo kernelSize nl npb q).Nodup := by
  refine nodup_flatMap.mpr ⟨fun i _ => ?_, ?_⟩
  · exact (nodup_range.sublist (takeWhile_sublist _)).map fun a b hab => add_left_cancel hab
  · refine nodup_range.imp fun {i i'} hne => ?_
    intro kn hk hk'
    -- the blk of a kn blk tells its place
    have hd : ∀ i'', kn ∈ (((range (geo.remoteBlockSize / kernelSize)).takeWhile
        (reach geo kernelSize nl (shardBlock geo.numPrefixPBlocks geo.remoteCpSize q i''))).map fun j =>
          shardBlock geo.numPrefixPBlocks geo.remoteCpSize q i'' * (geo.remoteBlockSize / kernelSize) + j) →
        kn / (geo.remoteBlockSize / kernelSize) / geo.remoteCpSize =
          remoteFirst geo.numPrefixPBlocks geo.remoteCpSize q + i'' := by
      intro i'' hm
      obtain ⟨j, hj, rfl⟩ := mem_map.mp hm
      have hj := mem_range.mp ((takeWhile_sublist _).subset hj)
      rw [(mul_add_div_mod _ hj).1, shardBlock_div hq]
    have := (hd i hk).symm.trans (hd i' hk')
    omega

/-! ## The shards of a context parallel group -/

theorem moveFinal_perm {α : Type} (i : Option Nat) (l : List α) : (moveFinal i l).Perm l := by
  cases i with
  | none => exact .refl l
  | some i =>
    rw [moveFinal, moveToEnd]
    by_cases hi : i < l.length
    · rw [getElem?_eq_getElem hi]
      exact perm_append_singleton _ _ |>.trans (getElem_cons_eraseIdx_perm hi)
    · rw [getElem?_eq_none (not_lt.mp hi), eraseIdx_of_length_le (not_lt.mp hi)]
      exact .of_eq (append_nil l)

def Worker.rankOf (w : Worker) (replica localRank : Nat) : Rank where
  tpRank := replica * w.side.dcpSize + localRank % w.side.dcpSize
  pcpRank := localRank / w.side.dcpSize

section
variable {m : ReqMeta} {replica : Nat}

theorem localCpRank_rankOf : w.localCpRank (w.rankOf replica lr) = lr := by
  rw [localCpRank, dcpRank, rankOf, mul_add_mod_self_right, mod_mod, mod_add_div']

theorem tpRank_rankOf_lt (hd : 0 < w.side.dcpSize) (hr : replica < w.side.tpSize / w.side.dcpSize) (lr : Nat) :
    (w.rankOf replica lr).tpRank < w.side.tpSize := by
  have hm := mod_lt lr hd
  have hle : (replica + 1) * w.side.dcpSize ≤ w.side.tpSize := (mul_le_mul_right _ hr).trans (div_mul_le_self ..)
  rw [succ_mul] at hle
  change replica * w.side.dcpSize + lr % w.side.dcpSize < w.side.tpSize
  omega

def Worker.groupShards (w : Worker) (m : ReqMeta) (replica : Nat) : List Nat :=
  (List.range w.side.cpSize).flatMap fun localRank => w.shardCpRanks (w.rankOf replica localRank) m

theorem mem_shardCpRanks : q ∈ w.shardCpRanks (w.rankOf replica lr) m ↔
    q < m.remote.cpSize ∧ q / blockRatio w.blockSize (w.remoteBlockSize m) % w.side.cpSize = lr := by
  rw [shardCpRanks, (moveFinal_perm _ _).mem_iff, pulledCpRanks, shardRanks, localCpRank_rankOf]
  simp

theorem nodup_shardCpRanks : (w.shardCpRanks rank m).Nodup := (moveFinal_perm _ _).nodup_iff.mpr (nodup_range.filter _)

theorem mem_groupShards (hcp : 0 < w.side.cpSize) : q ∈ w.groupShards m replica ↔ q < m.remote.cpSize := by
  simp only [groupShards, mem_flatMap, mem_range, mem_shardCpRanks]
  constructor
  · rintro ⟨-, -, hq, -⟩
    exact hq
  · intro hq
    exact ⟨_, mod_lt _ hcp, hq, rfl⟩

theorem nodup_groupShards : (w.groupShards m replica).Nodup := by
  refine nodup_flatMap.mpr ⟨fun _ _ => nodup_shardCpRanks, nodup_range.imp fun {ρ ρ'} hne q hq hq' => ?_⟩
  exact hne ((mem_shardCpRanks.mp hq).2.symm.trans (mem_shardCpRanks.mp hq').2)

end

end VllmAscend.Mooncake.Pull
