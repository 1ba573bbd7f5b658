import VllmAscend.Mooncake.PullSound

/-!
# Every kernel block is pulled to its place

The kernel blocks of a prompt are numbered in the order of the tokens; each has
a place on the prefill side and, unless it belongs to the cached tokens, on the
decode side.
-/

namespace VllmAscend.Mooncake.Pull

open Python Worker Nat
open Option hiding map map_map
open List hiding getElem?_eq_some_iff

def Worker.remotePlace (w : Worker) (m : ReqMeta) (groupIdx localScale kernel : Nat) : Option (Nat × Nat) :=
  let kernels := w.remoteBlockSize m / (w.blockSize / localScale)
  let block := kernel / kernels
  (m.remoteBlockIds.getD groupIdx [])[block / m.remote.cpSize]?.map fun id =>
    (block % m.remote.cpSize, id * kernels + kernel % kernels)

/-- The same on the decode side, which is given the blocks after the cached tokens. -/
def Worker.localPlace (w : Worker) (m : ReqMeta) (groupIdx localScale cached kernel : Nat) : Option (Nat × Nat) :=
  if kernel * (w.blockSize / localScale) < cached then none
  else
    let kernels := w.blockSize / (w.blockSize / localScale)
    let block := kernel / kernels
    (m.localBlockIds.getD groupIdx [])[block / w.side.cpSize - cached / (w.blockSize * w.side.cpSize)]?.map fun id =>
      (block % w.side.cpSize, id * kernels + kernel % kernels)

def Worker.place (w : Worker) (m : ReqMeta) (groupIdx localScale cached kernel : Nat) : Option Pair :=
  (w.remotePlace m groupIdx localScale kernel).bind fun remote =>
    (w.localPlace m groupIdx localScale cached kernel).map fun here => (remote, here)

/-- Every kernel block with a token that is not cached is pulled once, and nothing is pulled to a wrong place. -/
structure Worker.Placed (w : Worker) (m : ReqMeta) (groupIdx localScale prompt cached : Nat) (pairs : List Pair) :
    Prop where
  once : ∀ kernel, cached < (kernel + 1) * (w.blockSize / localScale) → kernel * (w.blockSize / localScale) < prompt →
    ∃ pair, w.place m groupIdx localScale cached kernel = some pair ∧ pairs.count pair = 1
  matched : ∀ pair ∈ pairs, ∃ kernel, w.place m groupIdx localScale cached kernel = some pair

def Worker.pulled (w : Worker) (m : ReqMeta) (shards : Nat → List Shard) (h groupIdx : Nat) : List Pair :=
  (List.range w.side.cpSize).flatMap fun localRank =>
    (shards localRank).flatMap (·.pairs m.remote h groupIdx localRank)

/-- A request with `prompt` tokens of which `cached` are there, and the blocks of an attention group. -/
structure Prompt (w : Worker) (m : ReqMeta) (groupIdx localScale prompt cached : Nat) : Prop where
  group : w.groups[groupIdx]? = some (.attention localScale)
  blockPos : 0 < w.blockSize
  scale : localScale ∣ w.blockSize
  remoteFits : m.remote.Fits w.heads
  localFits : w.side.Fits w.heads
  cached_le : cached ≤ prompt
  whole : w.blockSize * w.side.cpSize ∣ cached
  external : m.numExternalTokens = prompt - cached
  promptBlocks : m.numPromptBlocks = ceilDiv prompt (w.remoteBlockSize m)
  localLength : (m.localBlockIds.getD groupIdx []).length =
    ceilDiv (ceilDiv m.numExternalTokens w.blockSize) w.side.cpSize
  localNodup : (m.localBlockIds.getD groupIdx []).Nodup
  remoteLength : ceilDiv m.numPromptBlocks m.remote.cpSize ≤ (m.remoteBlockIds.getD groupIdx []).length
  remoteNodup : (m.remoteBlockIds.getD groupIdx []).Nodup

def Accepted (w : Worker) (m : ReqMeta) (replica : Nat) (chosenTpLists : Nat → List Nat) (h : Nat)
    (shards : Nat → List Shard) : Prop :=
  ∀ localRank < w.side.cpSize, ∃ mapping, w.portMapping (w.rankOf replica localRank) m = .ok mapping ∧
    h < mapping.length ∧
      w.getKvSplitMetadata (w.rankOf replica localRank) (chosenTpLists localRank) m = .ok (shards localRank)

abbrev Worker.remoteKernels (w : Worker) (m : ReqMeta) (localScale : Nat) : Nat :=
  w.remoteBlockSize m / (w.blockSize / localScale)

abbrev Worker.localKernels (w : Worker) (localScale : Nat) : Nat := w.blockSize / (w.blockSize / localScale)

/-! ## Sizes -/

section
variable {w : Worker} {m : ReqMeta} {gi ls pr cached replica h : Nat}

theorem Prompt.remotePos (hpm : Prompt w m gi ls pr cached) : 0 < w.remoteBlockSize m := by
  unfold remoteBlockSize
  split
  · exact hpm.blockPos
  · exact hpm.blockPos
  · rename_i n hne _
    exact Nat.pos_of_ne_zero hne

theorem Prompt.kernelPos (hpm : Prompt w m gi ls pr cached) : 0 < w.blockSize / ls :=
  Nat.div_pos (le_of_dvd hpm.blockPos hpm.scale) (pos_of_dvd_of_pos hpm.scale hpm.blockPos)

variable {blockSize remoteBlockSize b lr p kn : Nat}

theorem checkBlockSizes_ok (h : checkBlockSizes blockSize remoteBlockSize lcs remoteCpSize = .ok ()) :
    remoteBlockSize = blockSize ∨ (remoteBlockSize ∣ blockSize ∨ blockSize ∣ remoteBlockSize) ∧
      (1 < lcs → remoteBlockSize ∣ blockSize ∧ blockSize / remoteBlockSize ∣ remoteCpSize / lcs) := by
  by_cases heq : remoteBlockSize = blockSize
  · exact .inl heq
  refine .inr ?_
  simp only [checkBlockSizes, ne_eq, heq, not_false_eq_true, if_true] at h
  by_cases hd : blockSize % remoteBlockSize = 0 ∨ remoteBlockSize % blockSize = 0
  · refine ⟨hd.imp dvd_of_mod_eq_zero dvd_of_mod_eq_zero, fun hcp => ?_⟩
    simp only [hd, not_true_eq_false, if_false, hcp, if_true] at h
    by_cases hmod : blockSize % remoteBlockSize = 0
    · by_cases hr : remoteCpSize / lcs % (blockSize / remoteBlockSize) = 0
      · exact ⟨dvd_of_mod_eq_zero hmod, dvd_of_mod_eq_zero hr⟩
      · simp [hmod, hr, throw, throwThe, MonadExceptOf.throw] at h
    · simp [hmod, throw, throwThe, MonadExceptOf.throw] at h
  · simp [hd, throw, throwThe, MonadExceptOf.throw] at h

theorem checkGroup_ok (h : checkGroup blockSize remoteBlockSize (.attention ls) = .ok ()) :
    blockSize / ls ∣ remoteBlockSize := by
  simp only [checkGroup] at h
  by_cases hmod : remoteBlockSize % (blockSize / ls) = 0
  · exact dvd_of_mod_eq_zero hmod
  · simp [hmod, throw, throwThe, MonadExceptOf.throw] at h

theorem localCp_dvd_of_portMapping (hmap : w.portMapping rank m = .ok mapping) : w.side.cpSize ∣ m.remote.cpSize := by
  obtain ⟨mappings, hmp, -⟩ := bind_ok.mp hmap
  obtain ⟨⟨⟩, hc, -⟩ := bind_ok.mp hmp
  unfold contextParallelParametersCheck at hc
  refine dvd_of_mod_eq_zero ?_
  by_contra hmod
  simp [Side.cpSize] at hmod
  simp [hmod, throw, throwThe, MonadExceptOf.throw] at hc

theorem sub_ceilDiv (hb : 0 < b) (hle : cached ≤ pr) (hd : b ∣ cached) :
    ceilDiv pr b - ceilDiv (pr - cached) b = cached / b := by
  obtain ⟨c, rfl⟩ := hd
  obtain ⟨x, rfl⟩ := Nat.exists_eq_add_of_le hle
  have hsp : ceilDiv (b * c + x) b = c + ceilDiv x b := by
    rw [ceilDiv, Nat.add_assoc, Nat.add_sub_assoc (by omega), mul_add_div hb]
    rfl
  rw [Nat.add_sub_cancel_left, hsp, Nat.add_sub_cancel, Nat.mul_div_cancel_left _ hb]

structure Sizes (w : Worker) (m : ReqMeta) (localScale : Nat) : Prop where
  cpPos : 0 < w.side.cpSize
  remoteCpPos : 0 < m.remote.cpSize
  kernel_dvd : w.blockSize / localScale ∣ w.remoteBlockSize m
  sizes : w.remoteBlockSize m ∣ w.blockSize ∨
    w.blockSize < w.remoteBlockSize m ∧ w.blockSize ∣ w.remoteBlockSize m ∧ w.side.cpSize = 1
  aligned : w.side.cpSize = 1 ∨ w.side.cpSize * blockRatio w.blockSize (w.remoteBlockSize m) ∣ m.remote.cpSize

def Worker.skipped (w : Worker) (m : ReqMeta) : Nat :=
  (m.numPromptBlocks - ceilDiv m.numExternalTokens (w.remoteBlockSize m)) * w.remoteBlockSize m

section
variable (hpm : Prompt w m gi ls pr cached)
include hpm

theorem Prompt.sizes
    (hrp : replica < w.side.tpSize / w.side.dcpSize) (hac : Accepted w m replica chosenTpLists h shards) :
    Sizes w m ls := by
  have hpos := hpm.localFits.cpSize_pos
  obtain ⟨mapping, hmap, hh, hok⟩ := hac 0 hpos
  have htp := tpRank_rankOf_lt hpm.localFits.dcpPos hrp 0
  obtain ⟨hs, hgr, -, -⟩ := getKvSplitMetadata_ok hpm.remoteFits hpm.localFits htp hpm.group hmap hh hok
  have hcp := localCp_dvd_of_portMapping hmap
  refine ⟨hpos, hpm.remoteFits.cpSize_pos, checkGroup_ok hgr, ?_, ?_⟩
  · rcases checkBlockSizes_ok hs with heq | ⟨hd, hmo⟩
    · exact .inl (heq ▸ Nat.dvd_refl _)
    by_cases hre : w.remoteBlockSize m ∣ w.blockSize
    · exact .inl hre
    have hlo := hd.resolve_left hre
    refine .inr ⟨?_, hlo, ?_⟩
    · refine Nat.lt_of_le_of_ne (le_of_dvd hpm.remotePos hlo) fun heq => hre ?_
      rw [← heq]
    · by_contra hne
      exact hre (hmo (by omega)).1
  · by_cases hone : w.side.cpSize = 1
    · exact .inl hone
    refine .inr ?_
    rcases checkBlockSizes_ok hs with heq | ⟨-, hmo⟩
    · rw [heq, blockRatio, if_neg (Nat.lt_irrefl _), Nat.mul_one]
      exact hcp
    obtain ⟨hre, hra⟩ := hmo (by omega)
    unfold blockRatio
    split
    · rw [← Nat.mul_div_cancel' hcp]
      exact Nat.mul_dvd_mul_left _ hra
    · rw [Nat.mul_one]
      exact hcp

theorem Prompt.skipped_eq (hd : w.remoteBlockSize m ∣ cached) : w.skipped m = cached := by
  rw [skipped, hpm.promptBlocks, hpm.external, sub_ceilDiv hpm.remotePos hpm.cached_le hd, Nat.div_mul_cancel hd]

theorem Prompt.dvd_of_small (hsm : w.remoteBlockSize m ∣ w.blockSize) : w.remoteBlockSize m ∣ cached :=
  hsm.trans ((Nat.dvd_mul_right _ _).trans hpm.whole)

theorem Prompt.whole_skipped (hs : Sizes w m ls) : w.blockSize * w.side.cpSize ∣ w.skipped m := by
  rcases hs.sizes with hsm | ⟨-, hla, hcp⟩
  · rw [hpm.skipped_eq (hpm.dvd_of_small hsm)]
    exact hpm.whole
  · rw [hcp, Nat.mul_one]
    exact hla.mul_left _

theorem Prompt.cut (hs : Sizes w m ls) (replica : Nat) (hrank : lr < w.side.cpSize) :
    Cut (w.geometry (w.rankOf replica lr) m) lr (w.blockSize / ls) (w.skipped m) where
  kernelPos := hpm.kernelPos
  localPos := hpm.blockPos
  remotePos := hpm.remotePos
  remote_dvd := hs.kernel_dvd
  local_dvd := div_dvd_of_dvd hpm.scale
  remoteCpPos := hs.remoteCpPos
  rank_lt := hrank
  sizes := hs.sizes
  aligned := hs.aligned
  whole := hpm.whole_skipped hs
  prefixBlocks := rfl
  firstD := by
    intro hsm
    obtain ⟨u, hu⟩ := hpm.whole_skipped hs
    have hdiv : w.skipped m / w.blockSize = w.side.cpSize * u := by
      rw [hu, Nat.mul_assoc, Nat.mul_div_cancel_left _ hpm.blockPos]
    have hra : blockRatio w.blockSize (w.remoteBlockSize m) * w.remoteBlockSize m = w.blockSize :=
      rBlk_mul _ hsm hpm.blockPos
    have hbl : (w.geometry (w.rankOf replica lr) m).numPrefixPBlocks /
        blockRatio w.blockSize (w.remoteBlockSize m) = w.side.cpSize * u := by
      rw [← Nat.mul_div_mul_right _ _ hpm.remotePos, hra]
      exact hdiv
    change (w.geometry (w.rankOf replica lr) m).numPrefixPBlocks /
      blockRatio w.blockSize (w.remoteBlockSize m) + (((w.localCpRank (w.rankOf replica lr) : Int) -
        ((w.geometry (w.rankOf replica lr) m).numPrefixPBlocks /
          blockRatio w.blockSize (w.remoteBlockSize m) : Nat)) % (w.side.cpSize : Int)).toNat = _
    rw [hbl, localCpRank_rankOf]
    -- the first decode block of the rank is as far from a whole round as the rank
    have hmod : ((lr : Int) - ((w.side.cpSize * u : Nat) : Int)) % (w.side.cpSize : Int) = lr := by
      rw [cast_mul, Int.sub_mul_emod_self_left]
      exact Int.emod_eq_of_lt (Int.natCast_nonneg _) (by exact_mod_cast hrank)
    rw [hmod, Int.toNat_natCast, ← hdiv]
    rfl

end

/-! ## The kernel blocks that are pulled -/

def Worker.groupKernels (w : Worker) (m : ReqMeta) (replica groupIdx localScale : Nat) : List Nat :=
  (w.groupShards m replica).flatMap (shardKernels (w.geometry (w.rankOf replica 0) m) (w.blockSize / localScale)
    (m.localBlockIds.getD groupIdx []).length m.numPromptBlocks)

def Worker.pairOf (w : Worker) (m : ReqMeta) (replica groupIdx localScale cached kernel : Nat) : Pair :=
  let geo := w.geometry (w.rankOf replica 0) m
  let kernelSize := w.blockSize / localScale
  ((kernel / (w.remoteBlockSize m / kernelSize) % m.remote.cpSize,
      remoteKernel geo kernelSize (m.remoteBlockIds.getD groupIdx []) kernel),
    (kernel / (w.blockSize / kernelSize) % w.side.cpSize,
      localKernel geo kernelSize cached (m.localBlockIds.getD groupIdx []) kernel))

theorem mul_add_inj (hx : x < k) (hy : y < k) (h : a * k + x = b * k + y) : a = b ∧ x = y := by
  have hdiv := congrArg (· / k) h
  have hmod := congrArg (· % k) h
  simp only [mul_add_div_mod _ hx, mul_add_div_mod _ hy] at hdiv hmod
  exact ⟨hdiv, hmod⟩

section
variable (hpm : Prompt w m gi ls pr cached)
include hpm

theorem Prompt.pulled_shards
    (hre : replica < w.side.tpSize / w.side.dcpSize) (hac : Accepted w m replica chosenTpLists h shards) :
    w.pulled m shards h gi = (range w.side.cpSize).flatMap fun lr =>
      (w.shardCpRanks (w.rankOf replica lr) m).flatMap fun q =>
        (kernelPairs (w.geometry (w.rankOf replica lr) m) m gi ls q).map fun block =>
          ((q, block.1), (lr, block.2)) := by
  refine flatMap_congr fun lr hrank => ?_
  obtain ⟨mapping, hmap, hh, hok⟩ := hac lr (mem_range.mp hrank)
  have htp := tpRank_rankOf_lt hpm.localFits.dcpPos hre lr
  have hpa := (getKvSplitMetadata_ok hpm.remoteFits hpm.localFits htp hpm.group hmap hh hok).2.2.2
  rwa [localCpRank_rankOf] at hpa

section
variable (hs : Sizes w m ls)
include hs

theorem Prompt.kernels_pos : 0 < w.remoteKernels m ls :=
  Nat.div_pos (le_of_dvd hpm.remotePos hs.kernel_dvd) hpm.kernelPos

theorem Prompt.localIdx_lt (hsm : w.remoteBlockSize m ∣ w.blockSize) (hlt : p < m.numPromptBlocks)
    (hle : m.numPromptBlocks - ceilDiv m.numExternalTokens (w.remoteBlockSize m) ≤ p) :
    p / blockRatio w.blockSize (w.remoteBlockSize m) / w.side.cpSize - w.skipped m / (w.blockSize * w.side.cpSize) <
      (m.localBlockIds.getD gi []).length := by
  have hra : blockRatio w.blockSize (w.remoteBlockSize m) * w.remoteBlockSize m = w.blockSize :=
    rBlk_mul (w.geometry ⟨0, 0⟩ m) hsm hpm.blockPos
  have hsk := hpm.skipped_eq (hpm.dvd_of_small hsm)
  have hca : w.skipped m ≤ p * w.remoteBlockSize m := Nat.mul_le_mul_right _ hle
  rw [hpm.localLength, lt_ceilDiv_iff hs.cpPos, lt_ceilDiv_iff hpm.blockPos, hpm.external]
  rw [hpm.promptBlocks, lt_ceilDiv_iff hpm.remotePos] at hlt
  generalize blockRatio w.blockSize (w.remoteBlockSize m) = r at hra ⊢
  have hbl : p / r * w.blockSize ≤ p * w.remoteBlockSize m := by
    rw [← hra, ← Nat.mul_assoc]
    exact Nat.mul_le_mul_right _ (div_mul_le_self ..)
  have hro : p / r / w.side.cpSize * w.side.cpSize * w.blockSize ≤ p / r * w.blockSize :=
    Nat.mul_le_mul_right _ (div_mul_le_self ..)
  have hdiv : w.skipped m / (w.blockSize * w.side.cpSize) * w.side.cpSize * w.blockSize = w.skipped m := by
    rw [Nat.mul_assoc, Nat.mul_comm w.side.cpSize, Nat.div_mul_cancel (hpm.whole_skipped hs)]
  rw [Nat.sub_mul, Nat.sub_mul, hdiv]
  omega

theorem Prompt.external_le (hl : w.blockSize < w.remoteBlockSize m) :
    m.numExternalTokens ≤ (m.localBlockIds.getD gi []).length * w.blockSize := by
  have hcp : w.side.cpSize = 1 := by
    rcases hs.sizes with hd | ⟨-, -, hcp⟩
    · exact absurd (le_of_dvd hpm.blockPos hd) (Nat.not_le.mpr hl)
    · exact hcp
  rw [← Nat.not_lt, ← lt_ceilDiv_iff hpm.blockPos, hpm.localLength, hcp]
  have hself := (lt_ceilDiv_iff Nat.one_pos).not.mp
    (Nat.lt_irrefl (ceilDiv (ceilDiv m.numExternalTokens w.blockSize) 1))
  rwa [Nat.mul_one] at hself

theorem Prompt.room (hl : w.blockSize < w.remoteBlockSize m) (rank : Rank) :
    (m.numPromptBlocks - 1 - (w.geometry rank m).numPrefixPBlocks) * w.remoteBlockSize m ≤
      (m.localBlockIds.getD gi []).length * w.blockSize := by
  refine Nat.le_trans ?_ (hpm.external_le hs hl)
  change (m.numPromptBlocks - 1 - (m.numPromptBlocks - ceilDiv m.numExternalTokens (w.remoteBlockSize m))) *
    w.remoteBlockSize m ≤ _
  have hle : m.numPromptBlocks - 1 - (m.numPromptBlocks - ceilDiv m.numExternalTokens (w.remoteBlockSize m)) ≤
      ceilDiv m.numExternalTokens (w.remoteBlockSize m) - 1 := by omega
  refine (Nat.mul_le_mul_right _ hle).trans ?_
  rcases Nat.eq_zero_or_pos (ceilDiv m.numExternalTokens (w.remoteBlockSize m)) with hz | hp
  · rw [hz, Nat.zero_sub, Nat.zero_mul]
    exact Nat.zero_le _
  · exact Nat.le_of_lt ((lt_ceilDiv_iff hpm.remotePos).mp (sub_lt hp Nat.one_pos))

theorem Prompt.localRank_eq (hrank : lr < w.side.cpSize)
    (hq : kn / w.remoteKernels m ls % m.remote.cpSize = q)
    (hoe : q / blockRatio w.blockSize (w.remoteBlockSize m) % w.side.cpSize = lr) :
    kn / w.localKernels ls % w.side.cpSize = lr := by
  rcases hs.sizes with hsm | ⟨-, -, hcp⟩
  · have cut := hpm.cut hs 0 hrank
    exact (congrArg (· % w.side.cpSize) (cut.div_kernels hsm kn)).trans (cut.owner hq hoe)
  · rw [hcp, mod_one]
    omega

theorem Prompt.pulled_eq (hre : replica < w.side.tpSize / w.side.dcpSize)
    (hac : Accepted w m replica chosenTpLists h shards) : w.pulled m shards h gi =
      (w.groupKernels m replica gi ls).map (w.pairOf m replica gi ls (w.skipped m)) := by
  rw [hpm.pulled_shards hre hac, groupKernels, groupShards, flatMap_assoc, map_flatMap]
  refine flatMap_congr fun lr hrank => ?_
  have hrank := mem_range.mp hrank
  rw [map_flatMap]
  refine flatMap_congr fun q hq => ?_
  obtain ⟨hq, hon⟩ := mem_shardCpRanks.mp hq
  rw [Cut.kernelPairs_eq (hpm.cut hs replica hrank) hq hon hpm.remoteLength
    (fun hsm p hlt hle => hpm.localIdx_lt hs hsm hlt hle) (fun hla => hpm.room hs hla _), map_map]
  refine map_congr_left fun kn hke => ?_
  have hm := ((mem_shardKernels (hpm.kernels_pos hs) hq).mp hke).1
  have hlo := hpm.localRank_eq hs hrank hm hon
  simp only [Function.comp, pairOf]
  rw [hlo]
  exact Prod.ext (Prod.ext hm.symm rfl) rfl

theorem Prompt.mem_groupKernels : kn ∈ w.groupKernels m replica gi ls ↔
      (w.geometry (w.rankOf replica 0) m).numPrefixPBlocks ≤ kn / w.remoteKernels m ls ∧
        kn / w.remoteKernels m ls < m.numPromptBlocks ∧
        reach (w.geometry (w.rankOf replica 0) m) (w.blockSize / ls) (m.localBlockIds.getD gi []).length
          (kn / w.remoteKernels m ls) (kn % w.remoteKernels m ls) = true := by
  simp only [groupKernels, mem_flatMap, mem_groupShards hs.cpPos]
  constructor
  · rintro ⟨q, hq, hm⟩
    exact ((mem_shardKernels (hpm.kernels_pos hs) hq).mp hm).2
  · intro h
    have hq := mod_lt (kn / w.remoteKernels m ls) hs.remoteCpPos
    exact ⟨_, hq, (mem_shardKernels (hpm.kernels_pos hs) hq).mpr ⟨rfl, h⟩⟩

theorem Prompt.nodup_groupKernels : (w.groupKernels m replica gi ls).Nodup := by
  refine nodup_flatMap.mpr ⟨fun q hq => ?_, ?_⟩
  · exact nodup_shardKernels ((mem_groupShards hs.cpPos).mp hq) _ _
  · refine List.Pairwise.imp_of_mem (fun {q q'} hq hq' hne kn hm hm' => hne ?_) nodup_groupShards
    have hq := (mem_groupShards hs.cpPos).mp hq
    have hq' := (mem_groupShards hs.cpPos).mp hq'
    exact ((mem_shardKernels (hpm.kernels_pos hs) hq).mp hm).1.symm.trans
      ((mem_shardKernels (hpm.kernels_pos hs) hq').mp hm').1

section
variable (hm : kn ∈ w.groupKernels m replica gi ls)
include hm

theorem Prompt.remoteIdx_lt : kn / w.remoteKernels m ls / m.remote.cpSize <
    (m.remoteBlockIds.getD gi []).length := by
  refine Nat.lt_of_lt_of_le ?_ hpm.remoteLength
  rw [lt_ceilDiv_iff hs.remoteCpPos]
  exact Nat.lt_of_le_of_lt (div_mul_le_self ..) ((hpm.mem_groupKernels hs).mp hm).2.1

theorem Prompt.localIdx_lt_of_mem :
    kn / w.localKernels ls / w.side.cpSize - w.skipped m / (w.blockSize * w.side.cpSize) <
      (m.localBlockIds.getD gi []).length := by
  obtain ⟨hle, hlt, hre⟩ := (hpm.mem_groupKernels hs).mp hm
  have cut := hpm.cut hs replica hs.cpPos
  rcases hs.sizes with hsm | ⟨hla, -, hcp⟩
  · rw [show kn / w.localKernels ls = _ from cut.div_kernels hsm kn]
    exact hpm.localIdx_lt hs hsm hlt hle
  · -- within the tokens that the decode blocks hold
    have hof := of_decide_eq_true hre hla
    rw [cut.offset_eq hle] at hof
    have hof : kn * (w.blockSize / ls) - w.skipped m <
        w.blockSize * (m.localBlockIds.getD gi []).length := by
      rw [Nat.mul_comm w.blockSize]
      exact div_add_mod' kn _ ▸ hof
    obtain ⟨u, hu⟩ := hpm.whole_skipped hs
    rw [hcp, Nat.mul_one] at hu
    rw [hcp, Nat.mul_one, Nat.div_one, ← mul_div_of_dvd hpm.kernelPos (div_dvd_of_dvd hpm.scale), hu,
      Nat.mul_div_cancel_left _ hpm.blockPos, ← sub_mul_div, ← hu]
    exact Nat.div_lt_of_lt_mul hof

theorem Prompt.skipped_le_of_mem : w.skipped m ≤ kn * (w.blockSize / ls) := by
  have hle := ((hpm.mem_groupKernels hs).mp hm).1
  rwa [← mul_div_of_dvd hpm.kernelPos hs.kernel_dvd, Nat.le_div_iff_mul_le hpm.remotePos] at hle

theorem Prompt.place_of_mem : w.place m gi ls (w.skipped m) kn =
    some (w.pairOf m replica gi ls (w.skipped m) kn) := by
  have hr := hpm.remoteIdx_lt hs hm
  have hl := hpm.localIdx_lt_of_mem hs hm
  have hc := Nat.not_lt.mpr (hpm.skipped_le_of_mem hs hm)
  simp only [place, remotePlace, localPlace, if_neg hc, getElem?_eq_getElem hr, getElem?_eq_getElem hl, map_some,
    bind_some, ← getD_eq_getElem _ 0 hr, ← getD_eq_getElem _ 0 hl]
  rfl

end

theorem Prompt.place_inj (h : w.place m gi ls cached kn = some x)
    (h' : w.place m gi ls cached' kernel' = some x) : kn = kernel' := by
  obtain ⟨remote, hr, hl⟩ := bind_eq_some_iff.mp h
  obtain ⟨_, -, rfl⟩ := map_eq_some_iff.mp hl
  obtain ⟨remote', hr', hl'⟩ := bind_eq_some_iff.mp h'
  obtain ⟨_, -, heq⟩ := map_eq_some_iff.mp hl'
  obtain rfl : remote' = remote := congrArg Prod.fst heq
  have hke : 0 < w.remoteBlockSize m / (w.blockSize / ls) := hpm.kernels_pos hs
  unfold remotePlace at hr hr'
  generalize w.remoteBlockSize m / (w.blockSize / ls) = kernels at hr hr' hke
  obtain ⟨id, hid, rfl⟩ := map_eq_some_iff.mp hr
  obtain ⟨id', hid', heq⟩ := map_eq_some_iff.mp hr'
  obtain ⟨hrank, hpl⟩ := Prod.mk.inj heq
  obtain ⟨rfl, hmod⟩ := mul_add_inj (mod_lt _ hke) (mod_lt _ hke) hpl
  -- equal ids are at equal indices
  have hidx := (getElem?_inj (lt_of_getElem? hid) hpm.remoteNodup).mp (hid.trans hid'.symm)
  have hbl : kn / kernels = kernel' / kernels := by
    rw [← div_add_mod (kn / kernels) m.remote.cpSize, hidx, ← hrank, div_add_mod]
  rw [← div_add_mod kn kernels, hbl, ← hmod, div_add_mod]

theorem Prompt.mem_of_needed (hsk : w.skipped m = cached) (hca : cached ≤ kn * (w.blockSize / ls))
    (hbe : kn * (w.blockSize / ls) < pr) :
    kn ∈ w.groupKernels m replica gi ls := by
  have hpr : (w.geometry (w.rankOf replica 0) m).numPrefixPBlocks ≤ kn / w.remoteKernels m ls := by
    rw [← mul_div_of_dvd hpm.kernelPos hs.kernel_dvd, Nat.le_div_iff_mul_le hpm.remotePos]
    exact hsk.trans_le hca
  refine (hpm.mem_groupKernels hs).mpr ⟨hpr, ?_, decide_eq_true fun hla => ?_⟩
  · rw [hpm.promptBlocks, lt_ceilDiv_iff hpm.remotePos, ← mul_div_of_dvd hpm.kernelPos hs.kernel_dvd]
    exact Nat.lt_of_le_of_lt (div_mul_le_self ..) hbe
  · rw [(hpm.cut hs replica hs.cpPos).offset_eq hpr]
    have hro := hpm.external_le hs hla
    rw [hpm.external] at hro
    have hof : kn * (w.blockSize / ls) - w.skipped m <
        (m.localBlockIds.getD gi []).length * w.blockSize := by omega
    exact (div_add_mod' kn _).symm ▸ hof

end

theorem Prompt.cached_le_of_lt (haf : cached < (kn + 1) * (w.blockSize / ls)) :
    cached ≤ kn * (w.blockSize / ls) := by
  obtain ⟨c, hc⟩ := (div_dvd_of_dvd hpm.scale).trans ((Nat.dvd_mul_right _ _).trans hpm.whole)
  rw [hc, Nat.mul_comm] at haf ⊢
  exact Nat.mul_le_mul_right _ (Nat.lt_succ_iff.mp (Nat.lt_of_mul_lt_mul_right haf))

section
variable (hs : Sizes w m ls) (hre : replica < w.side.tpSize / w.side.dcpSize)
  (hac : Accepted w m replica chosenTpLists h shards)
include hs hre hac

theorem Prompt.placed_of_dvd (hd : w.remoteBlockSize m ∣ cached) :
    w.Placed m gi ls pr cached (w.pulled m shards h gi) := by
  have hsk := hpm.skipped_eq hd
  have hpl : ∀ kn ∈ w.groupKernels m replica gi ls, w.place m gi ls cached kn =
      some (w.pairOf m replica gi ls cached kn) := fun kn hm => hsk ▸ hpm.place_of_mem hs hm
  rw [hpm.pulled_eq hs hre hac, hsk]
  refine ⟨fun kn haf hbe => ?_, fun pair hpa => ?_⟩
  · have hm : kn ∈ w.groupKernels m replica gi ls :=
      hpm.mem_of_needed hs hsk (hpm.cached_le_of_lt haf) hbe
    refine ⟨_, hpl kn hm, count_eq_one_of_mem ?_ (mem_map_of_mem hm)⟩
    exact (hpm.nodup_groupKernels hs).map_on fun kn hke kernel' hke' heq =>
      hpm.place_inj hs (hpl kn hke) (heq ▸ hpl kernel' hke')
  · obtain ⟨kn, hke, rfl⟩ := mem_map.mp hpa
    exact ⟨kn, hpl kn hke⟩

theorem Prompt.placed_of_nothing (hnot : m.numExternalTokens = 0) :
    w.Placed m gi ls pr cached (w.pulled m shards h gi) := by
  have hext := hpm.external
  have hle := hpm.cached_le
  have hnil : w.groupKernels m replica gi ls = [] := by
    refine eq_nil_iff_forall_not_mem.mpr fun kn hm => ?_
    obtain ⟨hpr, hlt, -⟩ := (hpm.mem_groupKernels hs).mp hm
    have hz : ceilDiv m.numExternalTokens (w.remoteBlockSize m) = 0 := Nat.eq_zero_of_not_pos fun hpos => by
      rw [lt_ceilDiv_iff hpm.remotePos] at hpos
      omega
    have hpr : m.numPromptBlocks - ceilDiv m.numExternalTokens (w.remoteBlockSize m) ≤ _ := hpr
    omega
  rw [hpm.pulled_eq hs hre hac, hnil]
  refine ⟨fun kn haf hbe => ?_, fun _ hpa => absurd hpa not_mem_nil⟩
  have := hpm.cached_le_of_lt haf
  omega

theorem Prompt.dvd_of_placed (hpc : w.Placed m gi ls pr cached (w.pulled m shards h gi))
    (hsome : 0 < m.numExternalTokens) : w.remoteBlockSize m ∣ cached := by
  rcases hs.sizes with hsm | ⟨hla, -, hcp⟩
  · exact hpm.dvd_of_small hsm
  have hke := hpm.kernels_pos hs
  have hro := hpm.external_le hs hla
  have hlt : (w.geometry (w.rankOf replica 0) m).numPrefixPBlocks < m.numPromptBlocks := by
    refine sub_lt ?_ ((lt_ceilDiv_iff hpm.remotePos).mpr (by omega))
    rw [hpm.promptBlocks, lt_ceilDiv_iff hpm.remotePos]
    have hext := hpm.external
    omega
  have hm : (w.geometry (w.rankOf replica 0) m).numPrefixPBlocks * w.remoteKernels m ls ∈
      w.groupKernels m replica gi ls := by
    rw [hpm.mem_groupKernels hs, Nat.mul_div_cancel _ hke, mul_mod_left]
    refine ⟨Nat.le_refl _, hlt, decide_eq_true fun _ => ?_⟩
    rw [Nat.sub_self, Nat.zero_mul, Nat.zero_mul]
    exact Nat.lt_of_lt_of_le hsome hro
  have hst : (w.geometry (w.rankOf replica 0) m).numPrefixPBlocks * w.remoteKernels m ls *
      (w.blockSize / ls) = w.skipped m := by
    rw [Nat.mul_assoc, Nat.div_mul_cancel hs.kernel_dvd]
    rfl
  have hpl := hpm.place_of_mem hs hm
  obtain ⟨kn, hpl'⟩ := hpc.matched _ (hpm.pulled_eq hs hre hac ▸ mem_map_of_mem hm)
  obtain rfl := hpm.place_inj hs hpl' hpl
  obtain ⟨_, -, hpl⟩ := bind_eq_some_iff.mp hpl
  obtain ⟨here, hl, heq⟩ := map_eq_some_iff.mp hpl
  obtain ⟨_, -, hpl'⟩ := bind_eq_some_iff.mp hpl'
  obtain ⟨here', hl', heq'⟩ := map_eq_some_iff.mp hpl'
  obtain rfl : here' = here := congrArg Prod.snd (heq'.trans heq.symm)
  unfold localPlace at hl hl'
  rw [hst] at hl hl'
  split at hl'
  · cases hl'
  rename_i hca
  rw [if_neg (Nat.lt_irrefl _)] at hl
  obtain ⟨id, hid, rfl⟩ := map_eq_some_iff.mp hl
  obtain ⟨id', hid', heq⟩ := map_eq_some_iff.mp hl'
  have hkd : 0 < w.localKernels ls :=
    Nat.div_pos (le_of_dvd hpm.blockPos (div_dvd_of_dvd hpm.scale)) hpm.kernelPos
  obtain ⟨rfl, -⟩ := mul_add_inj (mod_lt _ hkd) (mod_lt _ hkd) (Prod.mk.inj heq).2
  have hidx := (getElem?_inj (lt_of_getElem? hid) hpm.localNodup).mp (hid.trans hid'.symm)
  rw [hcp, Nat.mul_one, Nat.div_one, ← mul_div_of_dvd hpm.kernelPos (div_dvd_of_dvd hpm.scale), hst] at hidx
  obtain ⟨u, hu⟩ := hpm.whole
  obtain ⟨v, hv⟩ := hpm.whole_skipped hs
  rw [hcp, Nat.mul_one] at hu hv
  rw [hu, hv, Nat.mul_div_cancel_left _ hpm.blockPos, Nat.mul_div_cancel_left _ hpm.blockPos, Nat.sub_self] at hidx
  have hle : w.blockSize * v ≤ w.blockSize * u := Nat.mul_le_mul_left _ (by omega)
  obtain rfl : cached = w.skipped m := by omega
  exact Nat.dvd_mul_left ..

end

end

end

/-- Exactly if there is nothing to pull or the cached tokens are whole prefill blocks. -/
theorem placed_iff (w : Worker) (m : ReqMeta) (groupIdx localScale prompt cached replica h : Nat)
    (chosenTpLists : Nat → List Nat) (shards : Nat → List Shard)
    (hprompt : Prompt w m groupIdx localScale prompt cached) (hreplica : replica < w.side.tpSize / w.side.dcpSize)
    (haccepted : Accepted w m replica chosenTpLists h shards) :
    w.Placed m groupIdx localScale prompt cached (w.pulled m shards h groupIdx) ↔
      m.numExternalTokens = 0 ∨ w.remoteBlockSize m ∣ cached := by
  have hs := hprompt.sizes hreplica haccepted
  constructor
  · intro hp
    rcases Nat.eq_zero_or_pos m.numExternalTokens with hz | hsome
    · exact .inl hz
    · exact .inr (hprompt.dvd_of_placed hs hreplica haccepted hp hsome)
  · rintro (hz | hd)
    · exact hprompt.placed_of_nothing hs hreplica haccepted hz
    · exact hprompt.placed_of_dvd hs hreplica haccepted hd

def shardsOf (w : Worker) (m : ReqMeta) (replica localRank : Nat) : List Shard :=
  ((w.getKvSplitMetadata (w.rankOf replica localRank) [] m).toOption).getD []

def dealtWorker : Worker where
  heads := ⟨true, 1⟩
  isDeepseekMla := true
  isHmaRequired := false
  side := ⟨1, 2, 1, 500⟩
  blockSize := 4
  groups := [.attention 2]

def dealtMeta : ReqMeta where
  remote := ⟨2, 2, 2, 700⟩
  remoteBlockSize := some 2
  numExternalTokens := 10
  numPromptBlocks := 9
  localBlockIds := [[3, 4]]
  remoteBlockIds := [[5, 6, 7]]

theorem dealt_prompt : Prompt dealtWorker dealtMeta 0 2 18 8 :=
  ⟨rfl, by decide, by decide, ⟨by decide, by decide, by decide, by decide, by decide⟩,
    ⟨by decide, by decide, by decide, by decide, by decide⟩, by decide, by decide, rfl, rfl, rfl, by decide, by decide,
    by decide⟩

theorem dealt_accepted : Accepted dealtWorker dealtMeta 0 (fun _ => []) 0 (shardsOf dealtWorker dealtMeta 0) := by
  intro lr hlt
  obtain rfl | rfl : lr = 0 ∨ lr = 1 := by
    have : lr < 2 := hlt
    omega
  · exact ⟨[[700, 701]], rfl, by decide, rfl⟩
  · exact ⟨[[702, 703]], rfl, by decide, rfl⟩

theorem placed_iff_dealt : dealtWorker.Placed dealtMeta 0 2 18 8
    (dealtWorker.pulled dealtMeta (shardsOf dealtWorker dealtMeta 0) 0 0) :=
  (placed_iff dealtWorker dealtMeta 0 2 18 8 0 0 (fun _ => []) _ dealt_prompt
    (by decide) dealt_accepted).mpr (.inr (by decide))

def roundedWorker : Worker where
  heads := ⟨true, 1⟩
  isDeepseekMla := true
  isHmaRequired := false
  side := ⟨1, 1, 1, 500⟩
  blockSize := 2
  groups := [.attention 1]

def roundedMeta : ReqMeta where
  remote := ⟨1, 2, 1, 700⟩
  remoteBlockSize := some 4
  numExternalTokens := 4
  numPromptBlocks := 2
  localBlockIds := [[7, 8]]
  remoteBlockIds := [[5]]

theorem rounded_prompt : Prompt roundedWorker roundedMeta 0 1 6 2 :=
  ⟨rfl, by decide, by decide, ⟨by decide, by decide, by decide, by decide, by decide⟩,
    ⟨by decide, by decide, by decide, by decide, by decide⟩, by decide, by decide, rfl, rfl, rfl, by decide, by decide,
    by decide⟩

theorem rounded_accepted : Accepted roundedWorker roundedMeta 0 (fun _ => []) 0 (shardsOf roundedWorker roundedMeta 0) := by
  intro lr hlt
  obtain rfl : lr = 0 := by
    have : lr < 1 := hlt
    omega
  exact ⟨[[700, 701]], rfl, by decide, rfl⟩

/-- Tokens four and five are written where two and three belong, and these are not pulled. -/
theorem rounded_prefix_misplaced : Prompt roundedWorker roundedMeta 0 1 6 2 ∧
      Accepted roundedWorker roundedMeta 0 (fun _ => []) 0 (shardsOf roundedWorker roundedMeta 0) ∧
      roundedWorker.pulled roundedMeta (shardsOf roundedWorker roundedMeta 0) 0 0 =
        [((1, 10), (0, 7)), ((1, 11), (0, 8))] ∧
      roundedWorker.place roundedMeta 0 1 2 1 = some ((0, 11), (0, 7)) ∧
      ¬ roundedWorker.Placed roundedMeta 0 1 6 2
        (roundedWorker.pulled roundedMeta (shardsOf roundedWorker roundedMeta 0) 0 0) := by
  have hp : roundedWorker.pulled roundedMeta (shardsOf roundedWorker roundedMeta 0) 0 0 =
      [((1, 10), (0, 7)), ((1, 11), (0, 8))] := rfl
  refine ⟨rounded_prompt, rounded_accepted, hp, rfl, fun hpl => ?_⟩
  obtain ⟨pair, hpa, hc⟩ := hpl.once 1 (by decide) (by decide)
  obtain rfl : ((0, 11), (0, 7)) = pair := Option.some.inj hpa
  revert hc
  decide

end VllmAscend.Mooncake.Pull
