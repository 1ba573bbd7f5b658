import VllmAscend.Lib.Packed
import VllmAscend.Lib.Python

/-!
# Packed verification

The tensor code between the two models, on flat vectors: how a batch of
verification windows of different widths is padded to a graph shape and read
back, and how the target's tokens and the candidates become one
`(accepted, correction)` row per request, with `-1` for no correction.
-/

namespace VllmAscend

open Python Packed

/-! ## Graph widths -/

def targetGraphPostCountsForBatch (batchSize numBuckets : Nat) (configured : List (Nat × List Nat)) : List Nat :=
  match configured.find? (·.1 = batchSize) with
  | some (_, postCounts) => postCounts
  | none =>
    let bucketWidth := max 1 ((batchSize + numBuckets - 1) / numBuckets)
    (List.range (batchSize + 1)).filter fun value => value % bucketWidth = 0 ∨ value = batchSize

/-- `_normalize_target_graph_post_counts`: configured counts run from zero through their batch size. -/
def PostCountsOk (configured : List (Nat × List Nat)) : Prop :=
  ∀ p ∈ configured, p.2.head? = some 0 ∧ p.2.getLast? = some p.1 ∧ p.2.Pairwise (· < ·)

/-- The loop of `_bucket_target_verification_widths`: `padded` pre-verify rows are still to be widened. -/
def bucketWidthsLoop (gamma : Nat) : List Bool → Nat → Nat → List Nat × List Nat
  | [], _, _ => ([], [])
  | isPreVerify :: rest, padded, offset =>
    if !isPreVerify then
      let (widths, valid) := bucketWidthsLoop gamma rest padded (offset + gamma)
      (gamma :: widths, (List.range gamma).map (offset + ·) ++ valid)
    else if 0 < padded then
      let (widths, valid) := bucketWidthsLoop gamma rest (padded - 1) (offset + gamma)
      (gamma :: widths, offset :: valid)
    else
      let (widths, valid) := bucketWidthsLoop gamma rest padded (offset + 1)
      (1 :: widths, offset :: valid)

def bucketTargetVerificationWidths (preVerify : List Bool) (gamma numBuckets : Nat) (configured : List (Nat × List Nat)) :
    Except PyError (List Nat × List Nat) :=
  if gamma = 0 ∨ numBuckets = 0 then
    .error (.valueError "PEARL verification gamma and graph bucket count must be positive.")
  else if preVerify = [] then .ok ([], [])
  else
    let postVerifyCount := preVerify.countP (!·)
    let postVerifyCounts := targetGraphPostCountsForBatch preVerify.length numBuckets configured
    match postVerifyCounts.find? (postVerifyCount ≤ ·) with
    | none => .error .stopIteration
    | some padded => .ok (bucketWidthsLoop gamma preVerify (padded - postVerifyCount) 0)

def validTokenIndices : List Nat → List Nat → Nat → List Nat
  | size :: sizes, width :: widths, offset =>
    (List.range size).map (offset + ·) ++ validTokenIndices sizes widths (offset + width)
  | _, _, _ => []

def bucketVariableTargetVerificationWidths (verificationSizes : List Nat) (gamma numBuckets : Nat)
    (configured : List (Nat × List Nat)) : Except PyError (List Nat × List Nat) := do
  if verificationSizes.any fun size => size = 0 ∨ gamma < size then
    throw (.valueError "PEARL verification sizes must be in [1, gamma].")
  let (modelWidths, _) ←
    bucketTargetVerificationWidths (verificationSizes.map fun size => !decide (1 < size)) gamma numBuckets configured
  return (modelWidths, validTokenIndices verificationSizes modelWidths 0)

/-! ## Verdicts -/

def argmaxBool (l : List Bool) : Nat := (l.findIdx? id).getD 0

structure VerificationLayout where
  expectedSizes : List Nat
  densePositions : List Nat
  correctionPositions : List (List Nat)

def packedPositions (gamma : Nat) : List Nat → Nat → List (List Nat)
  | [], _ => []
  | size :: sizes, offset =>
    let row := (List.range size).map (offset + ·)
    (row ++ List.replicate (gamma - size) (row.getLastD 0)) :: packedPositions gamma sizes (offset + size)

def buildVerificationLayout (verificationSizes : List Nat) (gamma : Nat) : VerificationLayout where
  expectedSizes := verificationSizes
  densePositions := verificationSizes.zipIdx.flatMap fun p => (List.range p.1).map fun column => p.2 * gamma + column
  correctionPositions := packedPositions gamma verificationSizes 0

def verdictRow (gamma expected : Nat) (row : List Bool) (correctionAt : Nat → Int) : Nat × Int :=
  let allMatch := row.all id
  let accepted := if allMatch then expected else argmaxBool (row.map (!·))
  (accepted, if allMatch then -1 else correctionAt (min accepted (gamma - 1)))

def buildGreedyVerdictWithLayout (targetTokens draftTokens : List Int) (layout : VerificationLayout) (gamma : Nat) :
    List (Nat × Int) :=
  let matched := List.zipWith (fun t d => decide (t = d)) targetTokens draftTokens
  let rows := layout.expectedSizes.length
  let matchMatrix :=
    reshape gamma rows (scatter (List.replicate (rows * gamma) true) layout.densePositions matched)
  List.zipWith (fun row p => verdictRow gamma p.1 row fun column => targetTokens.getD (p.2.getD column 0) 0)
    matchMatrix (layout.expectedSizes.zip layout.correctionPositions)

def verdictRows (gamma : Nat) : List Nat → List Bool → List Int → List (Nat × Int)
  | [], _, _ => []
  | size :: sizes, accepted, corrections =>
    let row := accepted.take size ++ List.replicate (gamma - size) true
    let tokens := corrections.take size ++ List.replicate (gamma - size) 0
    verdictRow gamma size row (tokens.getD · 0) :: verdictRows gamma sizes (accepted.drop size) (corrections.drop size)

def buildVerdictFromAcceptance (acceptedTokens : List Bool) (correctionTokens : List Int)
    (verificationSizes : List Nat) (gamma : Nat) : Except PyError (List (Nat × Int)) :=
  if gamma = 0 ∨ verificationSizes.any fun size => size = 0 ∨ gamma < size then
    .error (.valueError "PEARL verification windows must have length in [1, gamma].")
  else if acceptedTokens.length ≠ verificationSizes.sum ∨ correctionTokens.length ≠ verificationSizes.sum then
    .error (.valueError "PEARL verification tensors must match the packed verification size.")
  else .ok (verdictRows gamma verificationSizes acceptedTokens correctionTokens)

end VllmAscend
