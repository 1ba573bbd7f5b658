import VllmAscend.Pearl.State
import VllmAscend.Pearl.Verdict

/-!
# One verification round

The draft group proposes a window per request, the target group runs its own
tokens, the proposals cross over, the target's verdict crosses back. The models
are functions of the token prefix a row is run on; sampling is an oracle.
-/

namespace VllmAscend

open Python Packed

inductive Fault where
  | raised (e : PyError)
  | desync
deriving DecidableEq, Repr

/-- `draft` may depend on the round and the request; `accept` and `correction` are the sampled verdict at a position. -/
structure PearlModels where
  target : List Int → Nat
  draft : Nat → Nat → List Int → Nat
  sample : Nat → Nat → Nat
  accept : Nat → Nat → Bool
  correction : Nat → Nat → Nat

structure ForwardRow where
  sequence : Nat
  position : Nat
  token : Int
  prefixIds : List Int

abbrev States := Nat → PearlPipelineState

/-! ## The draft side -/

def draftStep (draft : Nat → List Int → Nat) (states : States) (rows : List (Nat × Nat)) (windows : List (List Int))
    (step : Nat) : List (List Int) :=
  List.zipWith (fun row window =>
    if step < row.2 then window.set step (draft row.1 ((states row.1).tokenIds ++ window.take step)) else window)
    rows windows

def draftForward (states : States) (rows : List (Nat × Nat)) (windows : List (List Int)) (step : Nat) :
    List ForwardRow :=
  ((rows.zip windows).filter fun p => step < p.1.2).map fun p =>
    let tokens := (states p.1.1).tokenIds ++ p.2.take step
    { sequence := p.1.1, position := (states p.1.1).tokenIds.length - 1 + step, token := tokens.getLastD 0,
      prefixIds := tokens }

def draftWindows (draft : Nat → List Int → Nat) (gamma : Nat) (states : States) (rows : List (Nat × Nat)) :
    List (List Int) :=
  (List.range ((rows.map (·.2)).foldl max 0)).foldl (draftStep draft states rows)
    (List.replicate rows.length (List.replicate gamma (-1)))

def draftForwards (states : States) (rows : List (Nat × Nat)) (windows : List (List Int)) : List (List ForwardRow) :=
  (List.range ((rows.map (·.2)).foldl max 0)).map (draftForward states rows windows)

def verificationIndices (states : States) : List (Nat × Nat) → Nat → List Nat × List Int × List Nat
  | [], _ => ([], [], [])
  | (i, size) :: rows, offset =>
    let (previous, tokens, current) := verificationIndices states rows (offset + size)
    if !(states i).preVerify ∧ 1 < size then
      ((List.range (size - 1)).map (offset + ·) ++ previous, lastN (size - 1) (states i).tokenIds ++ tokens,
        (offset + size - 1) :: current)
    else (previous, tokens, (offset + size - 1) :: current)

def verificationTensor (states : States) (rows : List (Nat × Nat)) (windows : List (List Int)) : List Int :=
  let (previous, tokens, current) := verificationIndices states rows 0
  let base := List.replicate (rows.map (·.2)).sum 0
  scatter (scatter base previous tokens) current (windows.map (·.headD (-1)))

structure DraftRound where
  verification : List Int
  windows : List (List Int)
  forwards : List (List ForwardRow)

def draftRoundDeviceBatch (draft : Nat → List Int → Nat) (gamma : Nat) (states : States) (active : List Nat)
    (draftBudgets : Option (List Nat) := none) : Except PyError DraftRound :=
  let budgets := draftBudgets.getD (List.replicate active.length gamma)
  if budgets.length ≠ active.length ∨ budgets.any fun value => value = 0 ∨ gamma < value then
    .error (.valueError "PEARL draft budgets must contain one value in [1, gamma] per request.")
  else
    let windows := draftWindows draft gamma states (active.zip budgets)
    let sizes := active.map fun i => (states i).windowSize gamma
    .ok { verification := verificationTensor states (active.zip sizes) windows
          windows := windows
          forwards := draftForwards states (active.zip budgets) windows }

/-! ## The target side -/

def targetWindow (s : PearlPipelineState) (valid width : Nat) : List Int :=
  let tokens := lastN valid s.tokenIds
  if valid < width then tokens ++ List.replicate (width - valid) (tokens.getLastD 0) else tokens

def targetRows (i : Nat) (s : PearlPipelineState) (valid width : Nat) : List ForwardRow :=
  let start := s.tokenIds.length - valid
  let window := targetWindow s valid width
  (List.range window.length).map fun j =>
    { sequence := i, position := start + j, token := window.getD j 0,
      prefixIds := s.tokenIds.take start ++ window.take (j + 1) }

structure TargetRound where
  tokens : List Int
  forward : List ForwardRow

/-- With a positive temperature it returns logits, of which the verdict keeps what the oracle samples. -/
def targetRoundOutputsBatch (target : List Int → Nat) (gamma numBuckets : Nat) (postCounts : List (Nat × List Nat))
    (states : States) (active : List Nat) (verificationSizes : Option (List Nat) := none) :
    Except PyError TargetRound := do
  let sizes := verificationSizes.getD (active.map fun i => (states i).windowSize gamma)
  if sizes.length ≠ active.length ∨ sizes.any fun value => value = 0 ∨ gamma < value then
    throw (.valueError "PEARL target verification sizes must be in [1, gamma].")
  let (widths, valid) ← bucketVariableTargetVerificationWidths sizes gamma numBuckets postCounts
  let forward := (active.zip (sizes.zip widths)).flatMap fun p => targetRows p.1 (states p.1) p.2.1 p.2.2
  let tokens := forward.map fun row => (target row.prefixIds : Int)
  return { tokens := if valid.length ≠ forward.length then gather 0 tokens valid else tokens, forward := forward }

/-! ## Exchange and verdict -/

def exchangeDraftDeviceWindows (gamma : Nat) (verification : List Int) (windows : List (List Int))
    (draftSizes targetSizes : List Nat) : Except Fault (List Int) :=
  if verification.length ≠ draftSizes.sum then
    .error (.raised (.runtimeError "PEARL draft verification window has an unexpected shape."))
  else if windows.length ≠ draftSizes.length ∨ windows.any fun window => window.length ≠ gamma then
    .error (.raised (.runtimeError "PEARL draft continuation window has an unexpected shape."))
  else if draftSizes.sum + gamma * draftSizes.length ≠ targetSizes.sum + gamma * targetSizes.length then
    .error .desync
  else .ok (verification ++ windows.flatten)

def verifyTargetTokensBatch (models : PearlModels) (round gamma : Nat) (targetTokens message : List Int)
    (verificationSizes : List Nat) (temperatures : List ℚ) : Except PyError (List (Nat × Int)) :=
  let verificationSize := verificationSizes.sum
  let packedTemperatures := (temperatures.zip verificationSizes).flatMap fun p => List.replicate p.2 p.1
  if packedTemperatures.all (· = 0) then
    if targetTokens.length ≠ verificationSize then
      .error (.runtimeError "PEARL target and draft verification windows differ in length.")
    else
      .ok (buildGreedyVerdictWithLayout targetTokens (message.take verificationSize)
        (buildVerificationLayout verificationSizes gamma) gamma)
  else if targetTokens.length ≠ verificationSize then
    .error (.runtimeError "PEARL target logits do not match the packed verification window.")
  else if (message.take verificationSize).length ≠ verificationSize ∨ packedTemperatures.length ≠ verificationSize then
    .error (.valueError "PEARL draft tokens and temperatures must match the packed verification size.")
  else if !packedTemperatures.all (0 < ·) then
    .error (.valueError "Stochastic PEARL verification requires positive target temperatures.")
  else
    buildVerdictFromAcceptance ((List.range verificationSize).map (models.accept round))
      ((List.range verificationSize).map fun k => (models.correction round k : Int)) verificationSizes gamma

structure RoundResult where
  accepted : List Int
  corrections : List (Option Int)
  nextWindows : List (List Int)

def decodeRoundResult (gamma batchSize : Nat) (verdict continuation : List Int)
    (nextWindowSizes : Option (List Nat) := none) : Except PyError RoundResult :=
  let values := verdict ++ continuation
  let verdictValues := values.take (batchSize * 2)
  let continuationValues := values.drop (batchSize * 2)
  let windowSizes := nextWindowSizes.getD (List.replicate batchSize gamma)
  if windowSizes.length ≠ batchSize ∨ windowSizes.any fun value => value = 0 ∨ gamma < value then
    .error (.runtimeError "PEARL synchronized continuation lengths are invalid.")
  else
    .ok { accepted := evens verdictValues
          corrections := (odds verdictValues).map fun value => if value = -1 then none else some value
          nextWindows := windowSizes.zipIdx.map fun p => (continuationValues.drop (p.2 * gamma)).take p.1 }

/-- The draft side has its own windows, the target side those of the message. -/
def broadcastDeviceRoundResult (gamma : Nat) (verdict : List (Nat × Int)) (message : List Int)
    (verificationSize targetBatch draftBatch : Nat) (draftWindows : List (List Int))
    (targetWindowSizes draftWindowSizes : Option (List Nat) := none) : Except Fault (RoundResult × RoundResult) :=
  let flat := verdict.flatMap fun row => [(row.1 : Int), row.2]
  if flat.length ≠ draftBatch * 2 then .error .desync
  else if draftWindows.length ≠ draftBatch ∨ draftWindows.any fun window => window.length ≠ gamma then
    .error (.raised (.runtimeError "A PEARL draft rank did not retain its local continuation window."))
  else
    match decodeRoundResult gamma draftBatch flat draftWindows.flatten draftWindowSizes,
        decodeRoundResult gamma targetBatch flat (message.drop verificationSize) targetWindowSizes with
    | .ok draftResult, .ok targetResult => .ok (draftResult, targetResult)
    | .error e, _ => .error (.raised e)
    | _, .error e => .error (.raised e)

end VllmAscend
