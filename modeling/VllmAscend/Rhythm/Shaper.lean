import Mathlib.Data.List.Sort
import Mathlib.Data.Prod.Lex
import VllmAscend.Lib.Python

/-!
# The SpecRhythm budget shaper

The runtime accounting of a request and `SpecRhythmBudgetShaper` of
`spec_rhythm.py`: the roofline lookup and the two-stage allocation of draft
tokens to normal and eager proposals.
-/

namespace VllmAscend

open Python

def clamp (value : ℚ) (lower : ℚ := 0) (upper : ℚ := 1) : ℚ := max lower (min upper value)

structure SpecRhythmRuntimeState where
  requestIndex : Nat
  homeBatchId : Fin 2
  sloTpotMs : Option ℚ := none
  maxGamma : Option Nat := none
  deliveredTokens : Nat := 0
  decodeElapsedMs : ℚ := 0
  acceptanceEma : ℚ := 1
  draftConfidenceEma : ℚ := 1
  prefixEpoch : Nat := 0
  verificationRounds : Nat := 0
  sloTpotMs_pos : ∀ x, sloTpotMs = some x → 0 < x := by first | exact noneRat_pos | simp
  maxGamma_pos : ∀ n, maxGamma = some n → 0 < n := by first | exact noneNat_pos | simp
deriving DecidableEq

namespace SpecRhythmRuntimeState

def expectedAcceptanceBenefit (s : SpecRhythmRuntimeState) : ℚ := s.acceptanceEma * s.draftConfidenceEma

def projectedProgressGap (s : SpecRhythmRuntimeState) (projectedWaitMs : ℚ) : Nat :=
  match s.sloTpotMs with
  | none => 0
  | some slo => ⌈max 0 ((s.decodeElapsedMs + max 0 projectedWaitMs) / slo - s.deliveredTokens)⌉.toNat

def urgency (s : SpecRhythmRuntimeState) (projectedWaitMs : ℚ) : ℚ :=
  match s.sloTpotMs with
  | none => 0
  | some slo => max 0 ((s.decodeElapsedMs + max 0 projectedWaitMs) / max 1 (s.deliveredTokens : ℚ) / slo)

def addDecodeTime (s : SpecRhythmRuntimeState) (elapsedMs : ℚ) : SpecRhythmRuntimeState :=
  { s with decodeElapsedMs := s.decodeElapsedMs + max 0 elapsedMs }

def recordVerification (s : SpecRhythmRuntimeState) (proposedTokens acceptedTokens deliveredTokens : Int)
    (draftConfidence : Option ℚ) (emaAlpha : ℚ) : SpecRhythmRuntimeState :=
  let proposed := max 0 proposedTokens
  let accepted := max 0 (min acceptedTokens proposed)
  let alpha := clamp emaAlpha (1 / 1000000)
  { s with
    acceptanceEma :=
      if proposed ≠ 0 then alpha * ((accepted : ℚ) / proposed) + (1 - alpha) * s.acceptanceEma else s.acceptanceEma
    draftConfidenceEma := match draftConfidence with
      | some c => alpha * clamp c + (1 - alpha) * s.draftConfidenceEma
      | none => s.draftConfidenceEma
    deliveredTokens := s.deliveredTokens + deliveredTokens.toNat
    verificationRounds := s.verificationRounds + 1
    prefixEpoch := s.prefixEpoch + 1 }

end SpecRhythmRuntimeState

/-! ## Plans -/

structure SpecRhythmBudgetPlan where
  planId : Nat
  normalBudgets : List (Nat × Nat)
  eagerBudgets : List (Nat × Nat)
  progressGaps : List (Nat × Nat)
  eagerPriorities : List (Nat × ℚ)
  verificationRoof : Nat
  draftTokenBudget : Nat
  allocatedDraftTokens : Nat

def tokensOf (budgets : List (Nat × Nat)) : Nat := (budgets.map (·.2)).sum

def SpecRhythmBudgetPlan.validated (plan : SpecRhythmBudgetPlan) : Except PyError SpecRhythmBudgetPlan := do
  let normalTokens := tokensOf plan.normalBudgets
  let eagerTokens := tokensOf plan.eagerBudgets
  if plan.normalBudgets.any fun p => p.1 ∈ plan.eagerBudgets.map (·.1) then
    throw (.valueError "Normal and eager SpecRhythm draft sets must be disjoint.")
  if (plan.normalBudgets ++ plan.eagerBudgets).any fun p => p.2 = 0 then
    throw (.valueError "Every allocated SpecRhythm proposal must contain a token.")
  if plan.verificationRoof < normalTokens then
    throw (.valueError "Normal proposals exceed the target verification roofline.")
  if plan.verificationRoof < eagerTokens then
    throw (.valueError "Eager proposals exceed the target verification roofline.")
  if plan.verificationRoof < normalTokens + eagerTokens then
    throw (.valueError "Normal and eager proposals exceed the global target verification roofline.")
  if plan.allocatedDraftTokens ≠ normalTokens + eagerTokens then
    throw (.valueError "SpecRhythm allocated draft-token accounting is inconsistent.")
  if plan.draftTokenBudget < plan.allocatedDraftTokens then
    throw (.valueError "SpecRhythm proposals exceed the available draft window.")
  return plan

/-! ## The shaper -/

/-- The keys under which a roofline is looked up: `"b:c"`, `"batch:b"` and `"default"`. -/
inductive RooflineKey where
  | bucket (batchSize contextBucket : Nat)
  | batch (batchSize : Nat)
  | default
deriving DecidableEq

theorem noRoofline_pos : ∀ (_ : RooflineKey) (n : Nat), none = some n → 0 < n := fun _ => noneNat_pos

structure SpecRhythmBudgetShaper where
  minGamma : Nat
  maxGamma : Nat
  acceptanceFloor : ℚ := 2 / 5
  roofline : RooflineKey → Option Nat := fun _ => none
  minGamma_pos : 0 < minGamma
  minGamma_le : minGamma ≤ maxGamma
  roofline_pos : ∀ key n, roofline key = some n → 0 < n := by first | exact noRoofline_pos | simp

namespace SpecRhythmBudgetShaper

def contextBucket (contextLen : Nat) : Nat := max 1 ((max 1 contextLen + 511) / 512)

def verificationRoof (shaper : SpecRhythmBudgetShaper) (batchSize contextLen : Nat) : Nat :=
  let batchSize := max 1 batchSize
  match shaper.roofline (.bucket batchSize (contextBucket contextLen)) with
  | some n => max batchSize n
  | none => match shaper.roofline (.batch batchSize) with
    | some n => max batchSize n
    | none => match shaper.roofline .default with
      | some n => max batchSize n
      | none => batchSize * shaper.maxGamma

structure Allocation where
  normal : List (Nat × Nat)
  eager : List (Nat × Nat)
  roof : Nat
  draft : Nat

section
variable (shaper : SpecRhythmBudgetShaper) (state : Nat → SpecRhythmRuntimeState) (wait : ℚ)

def cap (i : Nat) : Nat := min shaper.maxGamma ((state i).maxGamma.getD shaper.maxGamma)

def urgentKey (i : Nat) : ℚ ×ₗ ℚ ×ₗ ℤ :=
  toLex (((state i).projectedProgressGap wait : ℚ) * (state i).expectedAcceptanceBenefit,
    toLex ((state i).urgency wait, -(i : ℤ)))

def urgent (requested : List Nat) : List Nat :=
  requested.insertionSort fun i j => urgentKey state wait j ≤ urgentKey state wait i

def grantGap (a : Allocation) (i : Nat) : Allocation :=
  let gap := (state i).projectedProgressGap wait
  match a.normal.lookup i with
  | some current =>
    let wanted := min (shaper.cap state i) gap - current
    let grant := min wanted (min a.roof a.draft)
    { a with normal := dictSet i (current + grant) a.normal, roof := a.roof - grant, draft := a.draft - grant }
  | none =>
    let wanted := min (shaper.cap state i) (max shaper.minGamma gap)
    let grant := min wanted (min a.roof a.draft)
    { a with
      eager := if 0 < grant then dictSet i grant a.eager else a.eager
      roof := a.roof - grant, draft := a.draft - grant }

def closeGaps : List Nat → Allocation → Allocation
  | [], a => a
  | i :: rest, a =>
    if (state i).projectedProgressGap wait = 0 ∨ (state i).expectedAcceptanceBenefit < shaper.acceptanceFloor then
      closeGaps rest a
    else
      let a' := shaper.grantGap state wait a i
      if a'.draft = 0 then a' else closeGaps rest a'

structure Candidate where
  marginal : ℚ
  request : Nat
  isNormal : Bool

def Candidate.key (c : Candidate) : ℚ ×ₗ ℤ ×ₗ Bool := toLex (c.marginal, toLex (-(c.request : ℤ), c.isNormal))

def candidatesOf (isNormal : Bool) (budgets : List (Nat × Nat)) (indices : List Nat) : List Candidate :=
  indices.filterMap fun i =>
    let current := (budgets.lookup i).getD 0
    let benefit := (state i).expectedAcceptanceBenefit
    if shaper.cap state i ≤ current then none
    else if !isNormal ∧ benefit < shaper.acceptanceFloor then none
    else some ⟨(1 + (state i).urgency wait) * benefit ^ (current + 1), i, isNormal⟩

def best : List Candidate → Option Candidate
  | [] => none
  | c :: rest => match best rest with
    | none => some c
    | some d => if c.key < d.key then some d else some c

def addToken (a : Allocation) (c : Candidate) : Allocation :=
  let a := if c.isNormal then { a with normal := dictSet c.request ((a.normal.lookup c.request).getD 0 + 1) a.normal }
    else { a with eager := dictSet c.request ((a.eager.lookup c.request).getD 0 + 1) a.eager }
  { a with roof := a.roof - 1, draft := a.draft - 1 }

def spendResidual (normal eager : List Nat) : Nat → Allocation → Allocation
  | 0, a => a
  | fuel + 1, a =>
    let candidates := if a.roof = 0 then []
      else shaper.candidatesOf state wait true a.normal normal ++ shaper.candidatesOf state wait false a.eager eager
    match best candidates with
    | none => a
    | some c => spendResidual normal eager fuel (addToken a c)

end

def stateOf (states : Nat → Option SpecRhythmRuntimeState) (i : Nat) : SpecRhythmRuntimeState :=
  (states i).getD { requestIndex := i, homeBatchId := 0 }

def shape (shaper : SpecRhythmBudgetShaper) (planId : Nat) (normalIndices eagerIndices : List Nat)
    (states : Nat → Option SpecRhythmRuntimeState) (projectedWaitMs : ℚ) (contextLen : Nat)
    (draftTokenBudget : Option Int := none) (batchSize : Option Nat := none) : Except PyError SpecRhythmBudgetPlan := do
  let normal := normalIndices.eraseDups
  let eager := eagerIndices.eraseDups
  if normal.any (· ∈ eager) then
    throw (.valueError "A request cannot be both a normal and eager draft in one step.")
  let requested := normal ++ eager
  if requested.any fun i => (states i).isNone then
    throw (.valueError "SpecRhythm cannot shape an unregistered request.")
  let state := stateOf states
  let roof := shaper.verificationRoof (batchSize.getD (max requested.length 1)) contextLen
  let availableDraft := match draftTokenBudget with
    | none => 2 * roof
    | some budget => budget.toNat
  let normalBudgets := normal.map fun i => (i, min shaper.minGamma (shaper.cap state i))
  let minimumNeeded := tokensOf normalBudgets
  if roof < minimumNeeded ∨ availableDraft < minimumNeeded then
    throw (.valueError "The SpecRhythm roofline cannot fit the minimum normal proposal budget.")
  let start : Allocation := ⟨normalBudgets, [], roof - minimumNeeded, availableDraft - minimumNeeded⟩
  let closed := shaper.closeGaps state projectedWaitMs (urgent state projectedWaitMs requested) start
  let spent := shaper.spendResidual state projectedWaitMs normal eager closed.draft closed
  SpecRhythmBudgetPlan.validated
    { planId := planId
      normalBudgets := spent.normal
      eagerBudgets := spent.eager
      progressGaps := requested.map fun i => (i, (state i).projectedProgressGap projectedWaitMs)
      eagerPriorities := eager.map fun i =>
        (i, (state i).projectedProgressGap projectedWaitMs * (state i).expectedAcceptanceBenefit)
      verificationRoof := roof
      draftTokenBudget := availableDraft
      allocatedDraftTokens := tokensOf spent.normal + tokensOf spent.eager }

end SpecRhythmBudgetShaper

end VllmAscend
