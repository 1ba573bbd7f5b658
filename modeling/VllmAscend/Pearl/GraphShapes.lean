import VllmAscend.Pearl.VerdictSound

/-!
# Graph shapes

The target's graphs are compiled before the first request, one for each number
of tokens that a batch padded to a configured post-verify count can have. The
runtime pads by its own loop; both end at the same counts.
-/

namespace VllmAscend

open Python Packed List

def normalizeTargetGraphPostCounts (configuredPostCounts : List (Nat × List Nat)) :
    Except PyError (List (Nat × List Nat)) := do
  let normalized ← configuredPostCounts.foldlM (fun normalized (batchSize, postCounts) => do
    if batchSize = 0 then
      throw (.valueError "PEARL target graph post-count batch sizes must be positive.")
    if normalized.any (·.1 = batchSize) then
      throw (.valueError "PEARL target graph post-count batch sizes must be unique.")
    if postCounts.head? ≠ some 0 ∨ postCounts.getLast? ≠ some batchSize ∨ ¬ postCounts.IsChain (· < ·) then
      throw (.valueError
        "PEARL target graph post counts must be strictly increasing from zero through their batch size.")
    return normalized ++ [(batchSize, postCounts)]) []
  return normalized.mergeSort (·.1 ≤ ·.1)

def precompileCase (gamma numBuckets : Nat) (configured : List (Nat × List Nat)) (batchSize postVerifyCount : Nat) :
    Except PyError (Nat × Nat × Nat) := do
  let preVerify := replicate postVerifyCount false ++ replicate (batchSize - postVerifyCount) true
  let (modelWidths, _) ← bucketTargetVerificationWidths preVerify gamma numBuckets configured
  return (modelWidths.sum, batchSize, postVerifyCount)

/-- `shape_cases.setdefault`, case by case: the first layout with a number of tokens represents it. -/
def shapeCases : List (Nat × Nat × Nat) → List (Nat × Nat × Nat) → List (Nat × Nat × Nat)
  | shapes, [] => shapes
  | shapes, c :: cases => shapeCases (if shapes.any (·.1 = c.1) then shapes else shapes ++ [c]) cases

def precompileBatch (gamma numBuckets : Nat) (configured : List (Nat × List Nat)) (batchSize : Nat) :
    Except PyError (List (Nat × Nat × Nat)) :=
  if batchSize = 0 then .error (.valueError "PEARL graph precompile batch sizes must be positive.")
  else (targetGraphPostCountsForBatch batchSize numBuckets configured).mapM
    (precompileCase gamma numBuckets configured batchSize)

def targetGraphPrecompileShapes (batchSizes : List Nat) (gamma numBuckets : Nat) (configured : List (Nat × List Nat)) :
    Except PyError (List (Nat × Nat × Nat)) := do
  let cases ← batchSizes.mapM (precompileBatch gamma numBuckets configured)
  return (shapeCases [] cases.flatten).mergeSort (·.1 ≤ ·.1)

theorem normalize_ok (h : normalizeTargetGraphPostCounts raw = .ok configured) : PostCountsOk configured := by
  obtain ⟨normalized, hn, h⟩ := bind_ok.mp h
  cases h
  have : PostCountsOk normalized := by
    refine foldlM_inv (P := PostCountsOk) (fun p _ s s' hs hp => ?_) (by simp [PostCountsOk]) hn
    simp only at hp
    split at hp
    · cases hp
    split at hp
    · cases hp
    split at hp
    · cases hp
    rename_i hk
    simp only [not_or, not_not] at hk
    cases hp
    intro q hq
    rcases mem_append.mp hq with hq | hq
    · exact hs q hq
    · rw [mem_singleton] at hq
      subst hq
      exact ⟨hk.1, hk.2.1, isChain_iff_pairwise.mp hk.2.2⟩
  exact fun p hp => this p (mem_mergeSort.mp hp)

/-! ## Number of tokens -/

theorem bucketWidthsLoop_sum (γ : Nat) : ∀ (preVerify : List Bool) (padded off : Nat),
    padded ≤ preVerify.countP id →
    (bucketWidthsLoop γ preVerify padded off).1.sum + (preVerify.countP (!·) + padded) =
      (preVerify.countP (!·) + padded) * γ + preVerify.length
  | [], padded, _, h => by
    obtain rfl : padded = 0 := by simpa using h
    simp [bucketWidthsLoop]
  | false :: rest, padded, off, h => by
    have := bucketWidthsLoop_sum γ rest padded (off + γ) (by simpa using h)
    grind [bucketWidthsLoop]
  | true :: rest, 0, off, h => by
    have := bucketWidthsLoop_sum γ rest 0 (off + 1) (Nat.zero_le _)
    grind [bucketWidthsLoop]
  | true :: rest, padded + 1, off, h => by
    have := bucketWidthsLoop_sum γ rest padded (off + γ) (by simpa using h)
    grind [bucketWidthsLoop]

section
variable {γ numBuckets : Nat} {configured : List (Nat × List Nat)}
  (hg : 0 < γ) (hb : 0 < numBuckets) (hc : PostCountsOk configured)

include hc in
theorem targetGraphPostCounts_sorted (b : Nat) :
    (targetGraphPostCountsForBatch b numBuckets configured).Pairwise (· < ·) ∧
      ∀ n ∈ targetGraphPostCountsForBatch b numBuckets configured, n ≤ b := by
  unfold targetGraphPostCountsForBatch
  split
  · rename_i b' postCounts hf
    obtain rfl : b' = b := by simpa using find?_some hf
    obtain ⟨-, hl, hp⟩ := hc _ (mem_of_find?_eq_some hf)
    refine ⟨hp, fun n hn => ?_⟩
    obtain ⟨l, hl⟩ := getLast?_eq_some_iff.mp hl
    simp only at hl hp
    rw [hl] at hn hp
    rcases mem_append.mp hn with hn | hn
    · exact ((pairwise_append.mp hp).2.2 _ hn _ (by simp)).le
    · exact (mem_singleton.mp hn).le
  · refine ⟨pairwise_lt_range.filter _, fun n hn => ?_⟩
    exact Nat.lt_succ_iff.mp (mem_range.mp (mem_filter.mp hn).1)

include hg hb hc in
theorem bucketTarget_sum (preVerify : List Bool) : ∃ widths valid count,
    bucketTargetVerificationWidths preVerify γ numBuckets configured = .ok (widths, valid) ∧
    (targetGraphPostCountsForBatch preVerify.length numBuckets configured).find? (preVerify.countP (!·) ≤ ·) =
      some count ∧
    widths.sum = count * γ + (preVerify.length - count) := by
  obtain ⟨count, hf, h⟩ := bucketTarget_ok hg hb hc preVerify
  refine ⟨_, _, count, h, hf, ?_⟩
  have hle := (targetGraphPostCounts_sorted hc _).2 _ (mem_of_find?_eq_some hf)
  have hpo : preVerify.countP (!·) ≤ count := by simpa using find?_some hf
  have hlen : preVerify.length = preVerify.countP id + preVerify.countP (!·) := by
    simpa using length_eq_countP_add_countP id
  have hs := bucketWidthsLoop_sum γ preVerify (count - preVerify.countP (!·)) 0 (by omega)
  rw [Nat.add_sub_cancel' hpo] at hs
  omega

theorem find?_of_sorted : ∀ {l : List Nat} {n : Nat}, l.Pairwise (· < ·) → n ∈ l → l.find? (n ≤ ·) = some n
  | a :: l, n, h, hn => by
    rw [pairwise_cons] at h
    rcases mem_cons.mp hn with rfl | hn
    · simp
    · have hlt : ¬ n ≤ a := not_le.mpr (h.1 n hn)
      rw [find?_cons_of_neg (by simpa using hlt), find?_of_sorted h.2 hn]

/-! ## Precompilation -/

theorem mem_shapeCases : ∀ (cases shapes : List (Nat × Nat × Nat)),
    n ∈ shapes.map (·.1) ∨ n ∈ cases.map (·.1) → n ∈ (shapeCases shapes cases).map (·.1)
  | [], _, h => by simpa [shapeCases] using h
  | c :: cases, shapes, h => by
    refine mem_shapeCases cases _ ?_
    split
    · rename_i ha
      obtain ⟨d, hd, hdc⟩ := any_eq_true.mp ha
      grind
    · grind

def batchCases (gamma numBuckets : Nat) (configured : List (Nat × List Nat)) (b : Nat) : List (Nat × Nat × Nat) :=
  (targetGraphPostCountsForBatch b numBuckets configured).map fun count => (count * gamma + (b - count), b, count)

include hg hb hc in
theorem precompileBatch_ok {b : Nat} (hp : 0 < b) :
    precompileBatch γ numBuckets configured b = .ok (batchCases γ numBuckets configured b) := by
  rw [precompileBatch, if_neg hp.ne']
  refine mapM_ok fun count hm => ?_
  obtain ⟨hs, hle⟩ := targetGraphPostCounts_sorted hc b
  obtain ⟨widths, valid, _, h, hf, hsum⟩ :=
    bucketTarget_sum hg hb hc (replicate count false ++ replicate (b - count) true)
  simp only [length_append, length_replicate, countP_append, countP_replicate, Nat.add_sub_cancel' (hle count hm),
    Bool.not_false, Bool.not_true, if_true, Bool.false_eq_true, if_false, Nat.add_zero] at hf hsum
  cases (find?_of_sorted hs hm).symm.trans hf
  rw [precompileCase, h, ← hsum]
  rfl

include hg hb hc in
theorem precompile_ok {batchSizes : List Nat} (hp : ∀ b ∈ batchSizes, 0 < b) :
    targetGraphPrecompileShapes batchSizes γ numBuckets configured =
      .ok ((shapeCases [] (batchSizes.map (batchCases γ numBuckets configured)).flatten).mergeSort (·.1 ≤ ·.1)) := by
  rw [targetGraphPrecompileShapes, mapM_ok fun b hm => precompileBatch_ok hg hb hc (hp b hm)]
  rfl

end

/-- The padded rows hold the real ones, and the number of tokens is one that was compiled for. -/
theorem bucketing_sound {raw configured : List (Nat × List Nat)} {gamma numBuckets : Nat} {sizes : List Nat}
    (hg : 0 < gamma) (hb : 0 < numBuckets) (hc : normalizeTargetGraphPostCounts raw = .ok configured)
    (hs : ∀ n ∈ sizes, 0 < n ∧ n ≤ gamma) :
    ∃ widths valid, bucketVariableTargetVerificationWidths sizes gamma numBuckets configured = .ok (widths, valid) ∧
      Forall₂ (· ≤ ·) sizes widths ∧
      (∀ rows : List (List Int), rows.map length = widths →
        gather 0 rows.flatten valid = (rows.zip sizes).flatMap fun p => p.1.take p.2) ∧
      ∀ batchSizes : List Nat, (∀ b ∈ batchSizes, 0 < b) → sizes.length ∈ batchSizes →
        ∃ shapes, targetGraphPrecompileShapes batchSizes gamma numBuckets configured = .ok shapes ∧
          widths.sum ∈ shapes.map (·.1) := by
  have hc := normalize_ok hc
  obtain ⟨widths, valid, ht, hv, hf⟩ := bucketVariable_ok hg hb hc hs
  refine ⟨widths, _, hv, hf.imp fun _ _ h => h.1, fun rows hr => ?_, fun batchSizes hp hm => ?_⟩
  · subst hr
    have hl : rows.length = sizes.length := by rw [hf.length_eq, length_map]
    have hfit : ∀ p ∈ rows.zip sizes, p.1.length = p.1.length ∧ p.2 ≤ p.1.length := fun p hp =>
      ⟨rfl, ((forall₂_zip (forall₂_map_right_iff.mp hf).flip) hp).1⟩
    have := gather_validTokenIndices 0 (·.2) (·.1.length) (·.1) (rows.zip sizes) hfit
    rwa [map_snd_zip hl.ge, flatMap_def, map_fst_zip hl.le, ← Function.comp_def length, ← map_map,
      map_fst_zip hl.le] at this
  · obtain ⟨_, _, count, h, hfc, hsum⟩ := bucketTarget_sum hg hb hc _
    cases ht.symm.trans h
    rw [length_map] at hfc hsum
    refine ⟨_, precompile_ok hg hb hc hp, ?_⟩
    rw [((mergeSort_perm _ _).map _).mem_iff, hsum]
    refine mem_shapeCases _ _ (.inr (mem_map.mpr ⟨(_, sizes.length, count), mem_flatten.mpr ⟨_, mem_map_of_mem hm, ?_⟩, rfl⟩))
    exact mem_map_of_mem (mem_of_find?_eq_some hfc)

theorem bucketing_sound_three :
    ∃ widths valid, bucketVariableTargetVerificationWidths [1, 2, 1] 4 2 [(3, [0, 2, 3])] = .ok (widths, valid) ∧
      Forall₂ (· ≤ ·) [1, 2, 1] widths :=
  (@bucketing_sound [(3, [0, 2, 3])] _ _ _ _ (by decide) (by decide) (by decide +kernel) (by decide)).imp fun _ h =>
    h.imp fun _ h => ⟨h.1, h.2.1⟩

end VllmAscend
