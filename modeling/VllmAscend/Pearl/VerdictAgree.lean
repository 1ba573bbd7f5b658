import VllmAscend.Pearl.Stochastic

/-!
# Greedy verdicts agree

Four pieces of code find how far a greedy window matches the target: two over
packed vectors, one for any acceptance mask, and the verifier, which crops the
logits to the draft vocabulary. All return what a loop over each window would.
-/

namespace VllmAscend

open Python Packed List

/-! ## The loop -/

def sequentialVerdict : List Int → List Int → Nat × Option Int
  | t :: target, c :: candidates =>
    if t = c then ((sequentialVerdict target candidates).1 + 1, (sequentialVerdict target candidates).2)
    else (0, some t)
  | _, _ => (0, none)

def packedVerdict (v : Nat × Option Int) : Nat × Int := (v.1, v.2.getD (-1))

/-! ## The code -/

def buildGreedyVerdict (targetTokens draftTokens : List Int) (verificationSizes : List Nat) (gamma : Nat) :
    Except PyError (List (Nat × Int)) :=
  if gamma = 0 ∨ verificationSizes.any fun size => size = 0 ∨ gamma < size then
    .error (.valueError "PEARL verification windows must have length in [1, gamma].")
  else if targetTokens.length ≠ verificationSizes.sum ∨ draftTokens.length ≠ verificationSizes.sum then
    .error (.valueError "PEARL target and draft token tensors must match the packed verification size.")
  else buildVerdictFromAcceptance (matchMask targetTokens draftTokens) targetTokens verificationSizes gamma

structure PearlVocabProjection where
  draftVocabSize : Nat
  targetVocabSize : Nat
  draft_pos : 0 < draftVocabSize
  draft_le : draftVocabSize ≤ targetVocabSize

namespace PearlVocabProjection

variable (p : PearlVocabProjection)

def projectTargetLogits (targetLogits : List (List ℚ)) : Except PyError (List (List ℚ)) :=
  match targetLogits.find? (·.length ≠ p.targetVocabSize) with
  | some row =>
    let got := row.length
    let expected := p.targetVocabSize
    .error (.valueError s!"PEARL target logits have an unexpected vocabulary size: got {got}, expected {expected}.")
  | none => .ok (targetLogits.map (List.take p.draftVocabSize))

def validateDraftTokenIds (tokenIds : List Int) : Except PyError Unit :=
  match tokenIds.min?, tokenIds.max? with
  | some minimum, some maximum =>
    if minimum < 0 ∨ p.draftVocabSize ≤ maximum then
      let size := p.draftVocabSize
      .error (.valueError
        s!"PEARL draft token IDs must be in the projected vocabulary range [0, {size}); got [{minimum}, {maximum}].")
    else .ok ()
  | _, _ => .ok ()

end PearlVocabProjection

structure PearlTargetVerifier where
  vocabProjection : PearlVocabProjection
  eosTokenIds : List Int
  eos_nonneg : ∀ t ∈ eosTokenIds, 0 ≤ t

/-- The index of the first of the largest entries. -/
def argmax (row : List ℚ) : Int := row.findIdx fun x => row.all (· ≤ x)

/-- `verify` at temperature zero. -/
def PearlTargetVerifier.verify (v : PearlTargetVerifier) (candidateRows : List (List Int))
    (targetLogits : List (List ℚ)) : Except PyError (List VerificationRow) := do
  let candidateIds := candidateRows.flatten
  let count := candidateIds.length
  if targetLogits.length ≠ count then
    let rows := targetLogits.length
    let columns := (targetLogits.headD []).length
    throw (.valueError s!"PEARL target logits must have shape ({count}, target_vocab_size); got ({rows}, {columns}).")
  v.vocabProjection.validateDraftTokenIds candidateIds
  let projectedLogits ← v.vocabProjection.projectTargetLogits targetLogits
  let correctionIds := projectedLogits.map argmax
  return verifyRows v.eosTokenIds candidateRows (matchMask correctionIds candidateIds) correctionIds

/-! ## One window -/

theorem rowVerdict_sequential : ∀ {t d : List Int}, t.length = d.length →
    rowVerdict (matchMask t d) t = packedVerdict (sequentialVerdict t d)
  | [], [], _ => rfl
  | t :: ts, d :: ds, h => by
    have ih := rowVerdict_sequential (t := ts) (d := ds) (by simpa using h)
    simp only [rowVerdict, matchMask, packedVerdict, Prod.mk.injEq] at ih
    by_cases heq : t = d
    · simp [rowVerdict, matchMask, packedVerdict, sequentialVerdict, heq, findIdx_cons, ih.1, ← ih.2]
    · simp [rowVerdict, matchMask, packedVerdict, sequentialVerdict, heq, findIdx_cons]

theorem findIdx_sequential : ∀ {t d : List Int}, t.length = d.length →
    (matchMask t d).findIdx (!·) = (sequentialVerdict t d).1 ∧
      (if (matchMask t d).findIdx (!·) = d.length then none else t[(matchMask t d).findIdx (!·)]?) =
        (sequentialVerdict t d).2
  | [], [], _ => ⟨rfl, rfl⟩
  | t :: ts, d :: ds, h => by
    obtain ⟨hl, ht⟩ := findIdx_sequential (t := ts) (d := ds) (by simpa using h)
    by_cases heq : t = d
    · simp only [matchMask] at hl ht
      simp [matchMask, sequentialVerdict, heq, findIdx_cons, hl, ← ht]
    · simp [matchMask, sequentialVerdict, heq, findIdx_cons]

/-! ## The batch -/

section
variable {rows : List (List Int × List Int)} (h : ∀ w ∈ rows, w.1.length = w.2.length)
include h

theorem matchMask_flatMap :
    matchMask (rows.flatMap Prod.fst) (rows.flatMap Prod.snd) = rows.flatMap fun w => matchMask w.1 w.2 :=
  zipWith_flatMap _ Prod.fst Prod.snd rows h

theorem map_rowVerdict : (rows.map fun w => rowVerdict (matchMask w.1 w.2) w.1) =
    (rows.map fun w => sequentialVerdict w.1 w.2).map packedVerdict := by
  rw [map_map]
  exact map_congr_left fun w hw => rowVerdict_sequential (h w hw)

theorem length_flatMap_fst : (rows.flatMap Prod.fst).length = (rows.map (·.2.length)).sum := length_flatMap_sum h

theorem verifyRows_sequential (eosTokenIds : List Int) :
    (verifyRows eosTokenIds (rows.map Prod.snd) (rows.flatMap fun w => matchMask w.1 w.2) (rows.flatMap Prod.fst)).map
      (fun r => (r.acceptedPrefixLength, r.correctionTokenId)) = rows.map fun w => sequentialVerdict w.1 w.2 := by
  induction rows with
  | nil => rfl
  | cons w rows ih =>
    obtain ⟨hw, hr⟩ := forall_mem_cons.mp h
    have hm : (matchMask w.1 w.2).length = w.2.length := by simp [matchMask, hw]
    obtain ⟨hl, ht⟩ := findIdx_sequential hw
    simp only [map_cons, verifyRows, flatMap_cons, take_left' hm, drop_left' hm, drop_left' hw, ih hr]
    refine congrArg (· :: _) (Prod.ext hl ?_)
    rw [← ht]
    split
    · rfl
    rename_i hne
    have hle : (matchMask w.1 w.2).findIdx (!·) ≤ w.2.length := hm ▸ findIdx_le_length
    exact getElem?_append_left (by omega)

end

theorem flatMap_skip : ∀ {windows : List (List Int × List Int)},
    (∀ w ∈ windows, w.2 = [] → f w = []) → windows.flatMap f = (windows.filter (·.2 ≠ [])).flatMap f
  | [], _ => rfl
  | w :: windows, h => by
    obtain ⟨hw, hwi⟩ := forall_mem_cons.mp h
    by_cases hn : w.2 = []
    · simp [hn, hw hn, flatMap_skip hwi]
    · simp [hn, flatMap_skip hwi]

theorem validateDraftTokenIds_ok {p : PearlVocabProjection} {ids : List Int}
    (h : ∀ c ∈ ids, 0 ≤ c ∧ c < p.draftVocabSize) : p.validateDraftTokenIds ids = .ok () := by
  unfold PearlVocabProjection.validateDraftTokenIds
  cases hmin : ids.min? with
  | none => rfl
  | some minimum =>
    cases hm : ids.max? with
    | none => rfl
    | some maximum =>
      have hl := h minimum (min?_mem hmin)
      have hh := h maximum (max?_mem hm)
      exact if_neg (by omega)

theorem projectTargetLogits_ok {p : PearlVocabProjection} (h : ∀ row ∈ logits, row.length = p.targetVocabSize) :
    p.projectTargetLogits logits = .ok (logits.map (take p.draftVocabSize)) := by
  have hn : logits.find? (·.length ≠ p.targetVocabSize) = none := find?_eq_none.mpr (by simpa using h)
  rw [PearlVocabProjection.projectTargetLogits, hn]

theorem verify_sequential {v : PearlTargetVerifier} {rows : List (List Int × List Int)}
    (h : ∀ w ∈ rows, w.1.length = w.2.length) (hl : ∀ row ∈ logits, row.length = v.vocabProjection.targetVocabSize)
    (ht : (logits.map fun row => argmax (row.take v.vocabProjection.draftVocabSize)) = rows.flatMap Prod.fst)
    (hd : ∀ c ∈ rows.flatMap Prod.snd, 0 ≤ c ∧ c < v.vocabProjection.draftVocabSize) :
    (v.verify (rows.map Prod.snd) logits).map (·.map fun r => (r.acceptedPrefixLength, r.correctionTokenId)) =
      .ok (rows.map fun w => sequentialVerdict w.1 w.2) := by
  have hi : (rows.map Prod.snd).flatten = rows.flatMap Prod.snd := flatMap_def.symm
  have hc : logits.length = (rows.flatMap Prod.snd).length := by
    rw [← length_map, ht, length_flatMap_fst h, length_flatMap]
  have hp : (logits.map (take v.vocabProjection.draftVocabSize)).map argmax = rows.flatMap Prod.fst := by
    rw [map_map]
    exact ht
  unfold PearlTargetVerifier.verify
  simp only [hi]
  rw [if_neg (not_not.mpr hc), validateDraftTokenIds_ok hd, projectTargetLogits_ok hl]
  change Except.ok _ = _
  rw [hp, matchMask_flatMap h]
  exact congrArg _ (verifyRows_sequential h _)

/-- A window without candidates is not passed on; the logits are those whose cropped argmax are the target's tokens. -/
theorem greedy_verdicts_sequential (gamma : Nat) (hgamma : 0 < gamma) (windows : List (List Int × List Int))
    (hwindows : ∀ w ∈ windows, w.1.length = w.2.length ∧ w.2.length ≤ gamma) (verifier : PearlTargetVerifier)
    (logits : List (List ℚ)) (hlogits : ∀ row ∈ logits, row.length = verifier.vocabProjection.targetVocabSize)
    (htarget : (logits.map fun row => argmax (row.take verifier.vocabProjection.draftVocabSize)) =
      windows.flatMap Prod.fst)
    (hdraft : ∀ c ∈ windows.flatMap Prod.snd, 0 ≤ c ∧ c < verifier.vocabProjection.draftVocabSize) :
    let rows := windows.filter (·.2 ≠ [])
    let target := rows.flatMap Prod.fst
    let draft := rows.flatMap Prod.snd
    let sizes := rows.map (·.2.length)
    let verdicts := rows.map fun w => sequentialVerdict w.1 w.2
    buildGreedyVerdictWithLayout target draft (buildVerificationLayout sizes gamma) gamma = verdicts.map packedVerdict ∧
    buildGreedyVerdict target draft sizes gamma = .ok (verdicts.map packedVerdict) ∧
    buildVerdictFromAcceptance (matchMask target draft) target sizes gamma = .ok (verdicts.map packedVerdict) ∧
    (verifier.verify (rows.map Prod.snd) logits).map (·.map fun r => (r.acceptedPrefixLength, r.correctionTokenId)) =
      .ok verdicts := by
  intro rows target draft sizes verdicts
  have hro : ∀ w ∈ rows, w.1.length = w.2.length := fun w hw => (hwindows w (mem_of_mem_filter hw)).1
  have hle : ∀ w ∈ rows, w.2.length ≤ gamma := fun w hw => (hwindows w (mem_of_mem_filter hw)).2
  have hsi : ¬ (gamma = 0 ∨ (sizes.any fun size => decide (size = 0 ∨ gamma < size)) = true) := by
    simp only [sizes, any_map, any_eq_true, Function.comp_apply, decide_eq_true_eq, not_or, not_exists, not_and]
    refine ⟨by omega, fun w hw => ⟨?_, Nat.not_lt.mpr (hle w hw)⟩⟩
    have hne : w.2 ≠ [] := by simpa using of_mem_filter hw
    simpa using hne
  have hma : ∀ w ∈ rows, (matchMask w.1 w.2).length = w.2.length := fun w hw => by simp [matchMask, hro w hw]
  have hlen : target.length = sizes.sum := length_flatMap_fst hro
  have hdl : draft.length = sizes.sum := length_flatMap
  have hfr : buildVerdictFromAcceptance (matchMask target draft) target sizes gamma =
      .ok (verdicts.map packedVerdict) := by
    have hall := verdictRows_rows gamma Prod.fst (fun w => matchMask w.1 w.2) rows fun w hw => by
      rw [hma w hw]
      exact ⟨hro w hw, hle w hw⟩
    rw [map_congr_left hma, ← matchMask_flatMap hro, map_rowVerdict hro] at hall
    rw [buildVerdictFromAcceptance, if_neg hsi, if_neg (by simp [matchMask, hlen, hdl])]
    exact congrArg _ hall
  refine ⟨?_, ?_, hfr, ?_⟩
  · rw [← map_rowVerdict hro]
    exact buildGreedyVerdictWithLayout_rows gamma Prod.fst Prod.snd rows fun w hw => ⟨hro w hw, hle w hw⟩
  · rw [buildGreedyVerdict, if_neg hsi, if_neg (by simp [hlen, hdl]), hfr]
  · rw [flatMap_skip fun w hw hnil => by simpa [hnil] using (hwindows w hw).1] at htarget
    rw [flatMap_skip fun w _ hnil => hnil] at hdraft
    exact verify_sequential hro hlogits htarget hdraft

theorem greedy_verdicts_sequential_small :
    let verifier : PearlTargetVerifier := ⟨⟨3, 4, by decide, by decide⟩, [2], by decide⟩
    let rows : List (List Int × List Int) := [([1, 2], [1, 0]), ([2], [2])]
    buildGreedyVerdict (rows.flatMap Prod.fst) (rows.flatMap Prod.snd) [2, 1] 2 = .ok [(1, 2), (1, -1)] ∧
    (verifier.verify [[1, 0], [2]] [[0, 1, 0, 0], [0, 0, 1, 5], [0, 0, 1, 0]]).map
      (·.map fun r => (r.acceptedPrefixLength, r.correctionTokenId)) = .ok [(1, some 2), (1, none)] :=
  have h := greedy_verdicts_sequential 2 (by decide) [([1, 2], [1, 0]), ([], []), ([2], [2])] (by decide)
    ⟨⟨3, 4, by decide, by decide⟩, [2], by decide⟩ [[0, 1, 0, 0], [0, 0, 1, 5], [0, 0, 1, 0]] (by decide) (by decide)
    (by decide)
  ⟨h.2.1, h.2.2.2⟩

end VllmAscend
