import VllmAscend.Worker.SlotMapping

/-!
# The decode mask under context parallelism

`generate_mtp_attention_mask_for_decode` of `pcp_utils.py`: which keys of a rank
the scheduled tokens of a decode request may not attend. The mask takes every
`cp_size`-th position to be the rank's, and masks nothing for a query before the
rank's first key.
-/

namespace VllmAscend.Worker

open Interleave Packed List Nat

structure DecodeRequest where
  numComputedTokens : Nat
  numScheduledTokens : Nat

namespace DecodeRequest
variable (cpSize cpRank : Nat) (req : DecodeRequest)

def totalLen : Nat := req.numComputedTokens + req.numScheduledTokens

def valid : Bool := cpRank ≤ (req.totalLen : Int) - 1

def kLen : Nat := if req.valid cpRank then (req.totalLen - 1 - cpRank) / cpSize + 1 else 0

def kUpper (q : Nat) : Int := ((req.numComputedTokens : Int) + q - cpRank) / cpSize

/-- `full_mask`. -/
def masks (q k : Nat) : Bool :=
  req.kUpper cpSize cpRank q < k && 0 ≤ req.kUpper cpSize cpRank q && req.valid cpRank &&
    q < req.numScheduledTokens && k < req.kLen cpSize cpRank

end DecodeRequest

/-- The cells of the mask's buffer after the call; the rows of the batch are zeroed only if a request is valid. -/
def generateMtpAttentionMaskForDecode (cpSize cpRank : Nat) (reqs : List DecodeRequest)
    (buffer : Nat → Nat → Nat → Bool) : Nat → Nat → Nat → Bool :=
  let rows := reqs.filter (·.valid cpRank)
  let maxQ := (rows.map (·.numScheduledTokens)).foldl max 0
  let maxK := (rows.map (·.kLen cpSize cpRank)).foldl max 0
  if rows = [] then buffer else fun i q k =>
    match reqs[i]? with
    | some req => q < maxQ && k < maxK && req.masks cpSize cpRank q k
    | none => buffer i q k

/-- A key of a rank is masked exactly for the queries before it; `Nat.count` is its place among the rank's keys. -/
def Causal (t : BlockTable) (reqs : List DecodeRequest) : Prop :=
  ∀ buffer i req, reqs[i]? = some req → ∀ q < req.numScheduledTokens, ∀ pos < req.totalLen, t.Owns pos →
    generateMtpAttentionMaskForDecode t.cpWorldSize t.currentRank reqs buffer i q (Nat.count t.Owns pos) =
      decide (req.numComputedTokens + q < pos)

section
variable {req : DecodeRequest} {reqs : List DecodeRequest} {t : BlockTable}

theorem mask_eq (hreq : reqs[i]? = some req) (hv : req.valid cpRank = true) (buffer : Nat → Nat → Nat → Bool) :
    generateMtpAttentionMaskForDecode cpSize cpRank reqs buffer i q k = req.masks cpSize cpRank q k := by
  have hm : req ∈ reqs.filter (·.valid cpRank) := mem_filter.mpr ⟨mem_of_getElem? hreq, hv⟩
  have hq := le_foldl_max (mem_map_of_mem (f := (·.numScheduledTokens)) hm)
  have hk := le_foldl_max (mem_map_of_mem (f := (·.kLen cpSize cpRank)) hm)
  rw [generateMtpAttentionMaskForDecode, if_neg (ne_nil_of_mem hm), hreq]
  rw [Bool.eq_iff_iff]
  simp only [DecodeRequest.masks, Bool.and_eq_true, decide_eq_true_eq]
  constructor
  · exact fun h => h.2
  · exact fun h => ⟨⟨by omega, by omega⟩, h⟩

theorem masks_iff (hS : 0 < cpSize) (hlt : cpRank < req.totalLen) (hq : q < req.numScheduledTokens) :
    req.masks cpSize cpRank q k = true ↔ cpRank ≤ req.numComputedTokens + q ∧
      req.numComputedTokens + q < cpRank + k * cpSize ∧ cpRank + k * cpSize < req.totalLen := by
  have hva : req.valid cpRank = true := by
    simp only [DecodeRequest.valid, decide_eq_true_eq]
    omega
  have hkey : k < req.kLen cpSize cpRank ↔ cpRank + k * cpSize < req.totalLen := by
    rw [DecodeRequest.kLen, if_pos hva, Nat.lt_succ_iff, Nat.le_div_iff_mul_le hS]
    omega
  have hsize : (0 : Int) < cpSize := by exact_mod_cast hS
  simp only [DecodeRequest.masks, DecodeRequest.kUpper, Bool.and_eq_true, decide_eq_true_eq, hva, hq, hkey, and_true,
    Int.ediv_lt_iff_lt_mul hsize, Int.ediv_nonneg_iff_of_pos hsize]
  omega

/-- The key at `pos`, which the mask takes to be at `assumed`, is in the history and not taken to be among the
scheduled tokens, or it is not the rank's first key and at the place where it is taken to be. -/
def KeyOk (t : BlockTable) (req : DecodeRequest) (pos : Nat) : Prop :=
  let assumed := t.currentRank + Nat.count t.Owns pos * t.cpWorldSize
  pos ≤ req.numComputedTokens ∧ (assumed ≤ req.numComputedTokens ∨ req.totalLen ≤ assumed) ∨
    0 < Nat.count t.Owns pos ∧ assumed = pos

variable (h : t.Fits) (hr : t.currentRank < t.cpWorldSize)
include h hr

omit hr in
theorem first_le (ho : t.Owns pos) : t.currentRank * t.interleave ≤ pos := by
  have hmod := ((div_mod_eq h.interleave_pos _).mp (h.owns_iff.mp ho)).1
  exact hmod.trans (mod_le ..)

omit hr in
theorem currentRank_le (ho : t.Owns pos) : t.currentRank ≤ pos :=
  (Nat.le_mul_of_pos_right _ h.interleave_pos).trans (first_le h ho)

theorem first_owns : t.Owns (t.currentRank * t.interleave) ∧ Nat.count t.Owns (t.currentRank * t.interleave) = 0 := by
  have ho : t.Owns (t.currentRank * t.interleave) := by
    rw [h.owns_iff, Nat.mul_div_cancel _ h.interleave_pos, Nat.mod_eq_of_lt hr]
  refine ⟨ho, ?_⟩
  rw [← h.localIndex_eq hr ho, BlockTable.localIndex, place, Nat.mul_mod_left, Nat.mul_comm t.interleave,
    Nat.mul_div_mul_right _ _ h.interleave_pos, Nat.div_eq_of_lt hr, Nat.zero_mul]

theorem mask_eq_causal_iff (hreq : reqs[i]? = some req) (hq : q < req.numScheduledTokens)
    (hlt : pos < req.totalLen) (ho : t.Owns pos) :
    generateMtpAttentionMaskForDecode t.cpWorldSize t.currentRank reqs buffer i q (Nat.count t.Owns pos) =
        decide (req.numComputedTokens + q < pos) ↔
      (t.currentRank ≤ req.numComputedTokens + q ∧
        req.numComputedTokens + q < t.currentRank + Nat.count t.Owns pos * t.cpWorldSize ∧
        t.currentRank + Nat.count t.Owns pos * t.cpWorldSize < req.totalLen ↔ req.numComputedTokens + q < pos) := by
  have hlt' := (currentRank_le h ho).trans_lt hlt
  have hva : req.valid t.currentRank = true := by
    simp only [DecodeRequest.valid, decide_eq_true_eq]
    omega
  rw [mask_eq hreq hva, Bool.eq_iff_iff, masks_iff (zero_lt_of_lt hr) hlt' hq, decide_eq_true_eq]

theorem causal_iff : Causal t reqs ↔ ∀ req ∈ reqs, 0 < req.numScheduledTokens →
    ∀ pos < req.totalLen, t.Owns pos → KeyOk t req pos := by
  constructor
  · intro hca req hmem hs pos hlt ho
    obtain ⟨i, hreq⟩ := mem_iff_getElem?.mp hmem
    have hat : ∀ q < req.numScheduledTokens, _ := fun q hq =>
      (mask_eq_causal_iff h hr hreq hq hlt ho).mp (hca (fun _ _ _ => false) i req hreq q hq pos hlt ho)
    have hle := currentRank_le h ho
    have hlen : req.totalLen = req.numComputedTokens + req.numScheduledTokens := rfl
    have hzero := hat 0 hs
    have hcount : 0 < Nat.count t.Owns pos * t.cpWorldSize → 0 < Nat.count t.Owns pos := Nat.pos_of_mul_pos_right
    unfold KeyOk
    by_cases hpc : pos ≤ req.numComputedTokens
    · exact .inl ⟨hpc, by omega⟩
    refine .inr ⟨hcount (by omega), ?_⟩
    -- a query between the two places is masked by one of them only
    rcases lt_trichotomy (t.currentRank + Nat.count t.Owns pos * t.cpWorldSize) pos with hl | heq | hg
    · have := hat (t.currentRank + Nat.count t.Owns pos * t.cpWorldSize - req.numComputedTokens) (by omega)
      omega
    · exact heq
    · have := hat (pos - req.numComputedTokens) (by omega)
      omega
  · intro hok buffer i req hreq q hq pos hlt ho
    rw [mask_eq_causal_iff h hr hreq hq hlt ho]
    have hs := zero_lt_of_lt hq
    have hkey := hok req (mem_of_getElem? hreq) hs
    obtain ⟨hfo, hfc⟩ := first_owns h hr
    have hfirst := hkey _ ((first_le h ho).trans_lt hlt) hfo
    have hle := currentRank_le h hfo
    have hpos := hkey pos hlt ho
    simp only [KeyOk, hfc, lt_irrefl, false_and, or_false] at hfirst
    unfold KeyOk at hpos
    omega

theorem causal_iff_of_single (hone : t.interleave = 1) : Causal t reqs ↔ ∀ req ∈ reqs,
    t.currentRank ≤ req.numComputedTokens ∨ req.totalLen ≤ t.currentRank := by
  rw [causal_iff h hr]
  refine forall₂_congr fun req _ => ⟨fun hok => ?_, fun hfi hs pos hlt ho => ?_⟩
  · by_contra hno
    have hlen : req.totalLen = req.numComputedTokens + req.numScheduledTokens := rfl
    have hself : t.currentRank * t.interleave = t.currentRank := by rw [hone, Nat.mul_one]
    obtain ⟨hfo, hfc⟩ := first_owns h hr
    rw [hself] at hfo hfc
    have hfirst := hok (by omega) _ (by omega) hfo
    simp only [KeyOk, hfc, lt_irrefl, false_and, or_false] at hfirst
    omega
  · have hmod : pos % t.cpWorldSize = t.currentRank := by
      have := h.owns_iff.mp ho
      rwa [hone, Nat.div_one] at this
    have hco : Nat.count t.Owns pos = pos / t.cpWorldSize := by
      rw [← h.localIndex_eq hr ho, BlockTable.localIndex, place, hone, mod_one, Nat.one_mul, Nat.mul_one, Nat.add_zero]
    have hdiv := div_add_mod' pos t.cpWorldSize
    have hpos : t.cpWorldSize ≤ pos → 0 < pos / t.cpWorldSize := fun hle => Nat.div_pos hle (zero_lt_of_lt hr)
    have hsmall : pos < t.cpWorldSize → pos = t.currentRank := fun hlt => by rw [← hmod, Nat.mod_eq_of_lt hlt]
    unfold KeyOk
    rw [hco]
    omega

/-- For every batch only on the first two ranks, and only if positions are dealt one at a time. -/
theorem mtp_mask_causal : ((∀ reqs : List DecodeRequest, (∀ req ∈ reqs, 1 ≤ req.numComputedTokens) → Causal t reqs) ↔
      t.interleave = 1 ∧ t.currentRank ≤ 1) ∧
    (t.interleave = 1 → ∀ reqs, Causal t reqs ↔ ∀ req ∈ reqs,
      t.currentRank ≤ req.numComputedTokens ∨ req.totalLen ≤ t.currentRank) ∧
    ∀ reqs, Causal t reqs ↔ ∀ req ∈ reqs, 0 < req.numScheduledTokens →
      ∀ pos < req.totalLen, t.Owns pos → KeyOk t req pos := by
  refine ⟨⟨fun hall => ?_, fun ⟨hone, hle⟩ reqs hre => ?_⟩, fun hone reqs => causal_iff_of_single h hr hone,
    fun reqs => causal_iff h hr⟩
  · have hI := h.interleave_pos
    have hS := h.cp
    have hba : ∀ computed scheduled, 1 ≤ computed → Causal t [⟨computed, scheduled⟩] := fun computed scheduled hc =>
      hall _ fun req hmem => mem_singleton.mp hmem ▸ hc
    by_cases hone : t.interleave = 1
    · have hfi := (causal_iff_of_single h hr hone).mp (hba 1 t.currentRank le_rfl) _ (mem_singleton_self _)
      simp only [DecodeRequest.totalLen] at hfi
      omega
    exfalso
    rcases Nat.eq_zero_or_pos t.currentRank with hzero | hpos
    · -- the rank's second key is position 1, not `cp_size`
      have ho : t.Owns 1 := by
        rw [h.owns_iff, Nat.div_eq_of_lt (by omega), Nat.zero_mod, hzero]
      have hco : Nat.count t.Owns 1 = 1 := by
        rw [← h.localIndex_eq hr ho, BlockTable.localIndex, place, Nat.div_eq_of_lt (by nlinarith),
          Nat.mod_eq_of_lt (by omega), Nat.zero_mul]
      have hkey := (causal_iff h hr).mp (hba 1 t.cpWorldSize le_rfl) _ (mem_singleton_self _) (by simp only; omega) 1
        (by simp only [DecodeRequest.totalLen]; omega) ho
      simp only [KeyOk, hco, DecodeRequest.totalLen] at hkey
      omega
    · -- the rank's first key comes after more than one position of each rank before it
      have hmul : t.currentRank * 2 ≤ t.currentRank * t.interleave := Nat.mul_le_mul_left _ (by omega)
      obtain ⟨hfo, hfc⟩ := first_owns h hr
      have hkey := (causal_iff h hr).mp (hba (t.currentRank * t.interleave - 1) 2 (by omega)) _
        (mem_singleton_self _) two_pos _ (by simp only [DecodeRequest.totalLen]; omega) hfo
      simp only [KeyOk, hfc] at hkey
      omega
  · exact (causal_iff_of_single h hr hone).mpr fun req hmem => .inl (hle.trans (hre req hmem))

end

def singleTable (dcpRank interleave : Nat) : BlockTable :=
  { physicalBlockSize := 4, blockSize := 4, maxNumBlocksPerReq := 1, maxNumBatchedTokens := 4, pcpWorldSize := 1
    dcpWorldSize := 4, dcpRank, interleave }

theorem mtp_mask_causal_second : Causal (singleTable 1 1) [⟨1, 3⟩, ⟨9, 2⟩] :=
  ((mtp_mask_causal (t := singleTable 1 1) ⟨by decide, by decide, by decide, by decide, by decide⟩ (by decide)).1.mpr
    ⟨rfl, le_rfl⟩) _ (by decide)

/-- A query at position 1 attends the key of position 3, or of position 2. -/
theorem mtp_mask_leaks : (singleTable 3 1).Owns 3 ∧ Nat.count (singleTable 3 1).Owns 3 = 0 ∧
    generateMtpAttentionMaskForDecode 4 3 [⟨1, 3⟩] (fun _ _ _ => false) 0 0 0 = false ∧
    (singleTable 1 2).Owns 2 ∧ Nat.count (singleTable 1 2).Owns 2 = 0 ∧
    generateMtpAttentionMaskForDecode 4 1 [⟨1, 3⟩] (fun _ _ _ => false) 0 0 0 = false := by
  decide

end VllmAscend.Worker
