import Mathlib.Data.List.Sort
import Mathlib.Data.Prod.Lex
import VllmAscend.Lib.Run
import VllmAscend.Pearl.Round

/-!
# The PEARL decode loop

`generate_batch`: admission, prefill, and the loop that picks the requests of
the next round and runs it, on the draft and on the target replica side by side.
-/

namespace VllmAscend

open Python Run

/-! ## Configuration and admission -/

structure PearlConfig where
  maxModelLen : Nat
  maxTokens : Nat
  maxNumSeqs : Nat := 1
  prefillChunkSize : Option Nat := none
  maxNumQueuedSeqs : Option Nat := none
  maxNumBatchedTokens : Nat := 16384
  targetVerificationGraphBuckets : Nat := 8
  targetVerificationGraphPostCounts : List (Nat × List Nat) := []
  enableContinuousBatching : Bool := false
  enablePreemptiveScheduling : Bool := false
  padFinishedRequests : Bool := false
  maxModelLen_pos : 0 < maxModelLen
  maxTokens_pos : 0 < maxTokens
  maxNumSeqs_pos : 0 < maxNumSeqs
  prefillChunkSize_ok : ∀ n, prefillChunkSize = some n → 0 < n ∧ n ≤ maxNumSeqs
  maxNumQueuedSeqs_ok : ∀ n, maxNumQueuedSeqs = some n → maxNumSeqs ≤ n
  maxNumBatchedTokens_ok : maxModelLen ≤ maxNumBatchedTokens
  buckets_pos : 0 < targetVerificationGraphBuckets
  postCounts_ok : PostCountsOk targetVerificationGraphPostCounts
  preemptive_ok : enablePreemptiveScheduling → enableContinuousBatching

/-! The checks pass for the defaults, and for two rows. -/

theorem defaultTokens_pos : 0 < 64 := by decide

theorem defaultBuckets_pos : 0 < 8 := by decide

theorem noPostCounts_ok : PostCountsOk [] := by simp [PostCountsOk]

theorem twoRows_pos : 0 < 2 := by decide

theorem noChunk_ok : ∀ n, none = some n → 0 < n ∧ n ≤ 2 := by simp

theorem queueOfThree_ok : ∀ n, some 3 = some n → 2 ≤ n := by simp

inductive SamplingArg where
  | default
  | shared (params : NativeSamplingParams)
  | perRequest (params : List NativeSamplingParams)

def SamplingArg.toList (batchSize : Nat) (cfg : PearlConfig) : SamplingArg → List NativeSamplingParams
  | .default => List.replicate batchSize
      { temperature := 0, maxTokens := cfg.maxTokens, temperature_nonneg := zeroRat_nonneg,
        draftTemperature_nonneg := zeroRat_nonneg, maxTokens_pos := cfg.maxTokens_pos }
  | .shared p => List.replicate batchSize p
  | .perRequest ps => ps

def normalizeSamplingParams (batchSize : Nat) (arg : SamplingArg) (cfg : PearlConfig) :
    Except PyError (List NativeSamplingParams) :=
  let params := arg.toList batchSize cfg
  if params.length ≠ batchSize then .error (.valueError "PEARL requires one SamplingParams value per prompt.")
  else if params.all (·.temperature = 0) ∨ params.all (0 < ·.temperature) then .ok params
  else .error (.valueError "A PEARL batch requires temperatures that are either all zero or all non-zero.")

def continuousBatching (cfg : PearlConfig) (requests : Nat) (maxRounds : Option Nat) : Bool :=
  cfg.enableContinuousBatching && maxRounds.isNone && decide (cfg.maxNumSeqs < requests)

def prefillChunks (size : Nat) (prompts : List (List Nat)) : List (List (List Nat)) :=
  (List.range ((prompts.length + size - 1) / size)).map fun k => (prompts.drop (k * size)).take size

/-- What `generate_batch` checks before it prefills, in order; it returns the normalised parameters. -/
def admitBatch (cfg : PearlConfig) (gamma : Nat) (prompts : List (List Nat)) (arg : SamplingArg)
    (maxRounds : Option Nat) : Except PyError (List NativeSamplingParams) := do
  let continuous := continuousBatching cfg prompts.length maxRounds
  if prompts = [] ∨ (cfg.maxNumSeqs < prompts.length ∧ !continuous) then
    throw (.valueError "PEARL batch size must fit max_num_seqs unless continuous batching is enabled.")
  if prompts.any fun prompt => cfg.maxNumBatchedTokens < prompt.length then
    throw (.valueError "A PEARL prompt exceeds max_num_batched_tokens.")
  if continuous ∧ cfg.maxNumQueuedSeqs.getD cfg.maxNumSeqs < prompts.length then
    throw (.valueError "PEARL continuous requests exceed max_num_queued_seqs.")
  let params ← normalizeSamplingParams prompts.length arg cfg
  if maxRounds = some 0 then throw (.valueError "PEARL max_rounds must be positive when supplied.")
  (prompts.zip params).forM fun p => do
    if p.1 = [] then throw (.valueError "PEARL generation requires non-empty prompts.")
    let completionCapacity := match maxRounds with
      | none => p.2.maxTokens
      | some rounds => 1 + (rounds + 1) * gamma
    if cfg.maxModelLen < p.1.length + completionCapacity + gamma then
      throw (.valueError "Prompt plus PEARL completion exceeds max_model_len.")
  if (prefillChunks (cfg.prefillChunkSize.getD cfg.maxNumSeqs) prompts).any fun chunk =>
      cfg.maxNumBatchedTokens < (chunk.map List.length).sum then
    throw (.valueError "A PEARL prefill chunk exceeds max_num_batched_tokens.")
  return params

/-! ## The loop's state on one replica -/

structure PearlRank where
  states : States
  completedStates : Nat → Option PearlPipelineState
  completedRequestStates : Nat → Option PearlPipelineState
  activeRequestIndices : List Nat
  nextRequestIndex : Nat
  recentSchedulingTokenGains : Nat → List Nat
  roundCount : Nat

/-- `order` is the order in which preemptive scheduling ranks the unfinished requests. -/
structure PearlRun where
  cfg : PearlConfig
  gamma : Nat
  eos : Finset Int
  models : PearlModels
  requests : Nat
  maxRounds : Option Nat
  order : States → (Nat → List Nat) → List Nat → List Nat

namespace PearlRun

def continuous (run : PearlRun) : Bool := continuousBatching run.cfg run.requests run.maxRounds

def initialBatchSize (run : PearlRun) : Nat := min run.requests run.cfg.maxNumSeqs

end PearlRun

/-! ## Choosing the requests of a round -/

def continuousBucketSize (unfinished initialBatchSize : Nat) : Nat :=
  let tailBucketSize := max 1 (initialBatchSize / 2)
  if tailBucketSize < unfinished then initialBatchSize else tailBucketSize

def continuousBucketIndices (requests : Nat) (unfinished : List Nat) (completed : Nat → Option PearlPipelineState)
    (initialBatchSize : Nat) : Except PyError (List Nat) :=
  if unfinished = [] then .ok []
  else
    let bucketSize := continuousBucketSize unfinished.length initialBatchSize
    if bucketSize ≤ unfinished.length then .ok unfinished
    else
      let paddingCount := bucketSize - unfinished.length
      let padding := ((List.range requests).filter fun i => (completed i).isSome ∧ i ∉ unfinished).take paddingCount
      if padding.length ≠ paddingCount then
        .error (.runtimeError "PEARL continuous batching cannot fill its ACLGraph tail bucket.")
      else .ok (unfinished ++ padding)

/-- Without latency targets: requests still being explored, then the largest estimate of remaining rounds. -/
def preemptivePriority (states : States) (gains : Nat → List Nat) (unfinished : List Nat) (i : Nat) :
    ℚ ×ₗ ℚ ×ₗ ℚ ×ₗ ℚ :=
  let observedTokens := (unfinished.map fun j => (states j).committedCompletionTokenIds.length - 1).sum
  let observedRounds := (unfinished.map fun j => (states j).verificationRounds).sum
  let globalRate : ℚ := if observedRounds = 0 then 1 else observedTokens / observedRounds
  let s := states i
  let rounds : ℚ := s.verificationRounds
  if s.verificationRounds < 8 then toLex (0, toLex (rounds, toLex ((i : ℚ), 0)))
  else
    let generated := min s.maxTokens s.committedCompletionTokenIds.length
    let rate := (((generated - 1 : Nat) : ℚ) + 8 * globalRate) / (rounds + 8)
    let recent := gains i
    let rate := if recent = [] then rate else min rate (((recent.sum : ℚ) + 8 * globalRate) / (recent.length + 8))
    let remaining := ((s.maxTokens : ℚ) - generated) / max rate (1 / 1000000)
    toLex (1, toLex (-remaining, toLex (rounds, (i : ℚ))))

def preemptiveOrder (states : States) (gains : Nat → List Nat) (unfinished : List Nat) : List Nat :=
  unfinished.insertionSort fun i j =>
    preemptivePriority states gains unfinished i ≤ preemptivePriority states gains unfinished j

def selectPreemptiveContinuousIndices (order : States → (Nat → List Nat) → List Nat → List Nat) (r : PearlRank)
    (unfinished : List Nat) (maxActive : Nat) : List Nat :=
  (order r.states r.recentSchedulingTokenGains unfinished).take maxActive

def restoreCompletedStates (eos : Finset Int) (requests : Nat) (r : PearlRank) : PearlRank :=
  { r with
    states := fun i => if i < requests then (r.completedStates i).getD (r.states i) else r.states i
    completedStates := fun i =>
      if i < requests ∧ r.completedStates i = none ∧ finished eos (r.states i) then some (r.states i)
      else r.completedStates i }

def replayedStates (r : PearlRank) : States := fun i => (r.completedRequestStates i).getD (r.states i)

def finishedRequests (run : PearlRun) (r : PearlRank) : List Nat :=
  let candidates := if run.cfg.enablePreemptiveScheduling then List.range run.requests else r.activeRequestIndices
  candidates.filter fun i => (r.completedRequestStates i).isNone ∧ finished run.eos (replayedStates r i)

def snapshotFinished (run : PearlRun) (r : PearlRank) : PearlRank :=
  { r with
    states := replayedStates r
    completedRequestStates := fun i =>
      if i ∈ finishedRequests run r then some (replayedStates r i) else r.completedRequestStates i }

def refill (run : PearlRun) (r : PearlRank) : PearlRank :=
  let r' := snapshotFinished run r
  if run.cfg.enablePreemptiveScheduling then
    let unfinished := (List.range run.requests).filter fun i => (r'.completedRequestStates i).isNone
    { r' with
      activeRequestIndices := selectPreemptiveContinuousIndices run.order r' unfinished run.initialBatchSize }
  else if finishedRequests run r ≠ [] then
    let replacementCount := min (finishedRequests run r).length (run.requests - r.nextRequestIndex)
    { r' with
      activeRequestIndices := r.activeRequestIndices.filter (· ∉ finishedRequests run r) ++
        (List.range replacementCount).map (r.nextRequestIndex + ·)
      nextRequestIndex := r.nextRequestIndex + replacementCount }
  else r'

def allCompleted (run : PearlRun) (r : PearlRank) : Bool :=
  (List.range run.requests).all fun i => (r.completedRequestStates i).isSome

def canonicalActiveIndices (states : States) (active : List Nat) : List Nat :=
  active.filter (fun i => !(states i).preVerify) ++ active.filter fun i => (states i).preVerify

def schedule (run : PearlRun) (r : PearlRank) : Except PyError (PearlRank × List Nat) := do
  let r := if run.continuous then refill run r else r
  if run.continuous ∧ allCompleted run r then return (r, [])
  match run.maxRounds with
  | none =>
    let r := if run.cfg.padFinishedRequests ∧ !run.continuous then restoreCompletedStates run.eos run.requests r else r
    if run.continuous then
      let active ← continuousBucketIndices run.requests r.activeRequestIndices r.completedRequestStates
        run.initialBatchSize
      return (r, canonicalActiveIndices r.states active)
    else
      let unfinished := (List.range run.requests).filter fun i => !finished run.eos (r.states i)
      let active := if unfinished ≠ [] ∧ run.cfg.padFinishedRequests then List.range run.requests else unfinished
      return (r, canonicalActiveIndices r.states active)
  | some maxRounds =>
    let active := if r.roundCount < maxRounds then List.range run.requests else []
    return (r, canonicalActiveIndices r.states active)

/-! ## A round -/

structure VerdictRow where
  sequence : Nat
  committedBefore : Nat
  accepted : Int
  correction : Option Int
  next : List Int

def verdictUpdates (r : PearlRank) (active : List Nat) (result : RoundResult) : List VerdictRow :=
  (active.zip (result.accepted.zip (result.corrections.zip result.nextWindows))).map fun p =>
    ⟨p.1, (r.states p.1).committedLength, p.2.1, p.2.2.1, p.2.2.2⟩

def applyRow (gamma : Nat) (isDraft : Bool) (s : PearlPipelineState) (row : VerdictRow) :
    Except PyError PearlPipelineState :=
  if isDraft then (s.extend row.next).applyDraftVerification gamma row.accepted row.correction row.next
  else s.applyTargetVerification gamma row.accepted row.correction row.next

def appendGain (run : PearlRun) (r : PearlRank) (i gain : Nat) : Nat → List Nat :=
  if run.continuous ∧ (r.completedRequestStates i).isNone then
    let gains := r.recentSchedulingTokenGains i ++ [gain]
    Function.update r.recentSchedulingTokenGains i (gains.drop (gains.length - 32))
  else r.recentSchedulingTokenGains

def updateRow (run : PearlRun) (isDraft : Bool) (r : PearlRank) (row : VerdictRow) : Except PyError PearlRank := do
  let s ← applyRow run.gamma isDraft (r.states row.sequence) row
  return { r with
    states := Function.update r.states row.sequence s
    recentSchedulingTokenGains := appendGain run r row.sequence (s.committedLength - row.committedBefore) }

def verificationSizes (gamma : Nat) (states : States) (active : List Nat) : List Nat :=
  active.map fun i => if (states i).preVerify then 1 else gamma

structure RoundForwards where
  draft : List (List ForwardRow)
  target : List ForwardRow

def pearlRound (run : PearlRun) (d t : PearlRank) (draftActive targetActive : List Nat) :
    Except Fault (PearlRank × PearlRank × RoundForwards) := do
  let draftRound ← (draftRoundDeviceBatch (run.models.draft d.roundCount) run.gamma d.states draftActive).mapError
    .raised
  let targetRound ← (targetRoundOutputsBatch run.models.target run.gamma run.cfg.targetVerificationGraphBuckets
    run.cfg.targetVerificationGraphPostCounts t.states targetActive).mapError .raised
  let draftSizes := verificationSizes run.gamma d.states draftActive
  let targetSizes := verificationSizes run.gamma t.states targetActive
  let message ← exchangeDraftDeviceWindows run.gamma draftRound.verification draftRound.windows draftSizes targetSizes
  let verdict ← (verifyTargetTokensBatch run.models t.roundCount run.gamma targetRound.tokens message targetSizes
    (targetActive.map fun i => (t.states i).temperature)).mapError .raised
  let (draftResult, targetResult) ← broadcastDeviceRoundResult run.gamma verdict message targetSizes.sum
    targetActive.length draftActive.length draftRound.windows
  let d' ← ((verdictUpdates d draftActive draftResult).foldlM (updateRow run true) d).mapError .raised
  let t' ← ((verdictUpdates t targetActive targetResult).foldlM (updateRow run false) t).mapError .raised
  return ({ d' with roundCount := d.roundCount + 1 }, { t' with roundCount := t.roundCount + 1 },
    ⟨draftRound.forwards, targetRound.forward⟩)

def pearlIteration (run : PearlRun) (ranks : PearlRank × PearlRank) :
    Except Fault (Turn (PearlRank × PearlRank) (PearlRank × PearlRank) RoundForwards) := do
  let (d, draftActive) ← (schedule run ranks.1).mapError .raised
  let (t, targetActive) ← (schedule run ranks.2).mapError .raised
  if draftActive = [] ∧ targetActive = [] then return .stop (d, t)
  -- one group waits in the exchange of a round the other has not entered
  if draftActive = [] ∨ targetActive = [] then throw .desync
  let (d, t, forwards) ← pearlRound run d t draftActive targetActive
  return .next (d, t) forwards

/-! ## The whole generation -/

def firstToken (models : PearlModels) (params : NativeSamplingParams) (i : Nat) (tokens : List Int) : Int :=
  if params.temperature = 0 then models.target tokens else models.sample 0 i

def prefilled (models : PearlModels) (prompts : List (List Nat)) (params : List NativeSamplingParams) : States :=
  fun i =>
    match prompts[i]?, params[i]? with
    | some prompt, some p =>
      let tokens := prompt.map Int.ofNat
      (PearlPipelineState.new tokens p).commitToken (firstToken models p i tokens)
    | _, _ => { tokenIds := [], promptLength := 0, committedLength := 0 }

def PearlRun.init (run : PearlRun) (states : States) : PearlRank where
  states := states
  completedStates := fun _ => none
  completedRequestStates := fun _ => none
  activeRequestIndices := List.range run.initialBatchSize
  nextRequestIndex := run.initialBatchSize
  recentSchedulingTokenGains := fun _ => []
  roundCount := 0

def resultState (run : PearlRun) (t : PearlRank) (i : Nat) : PearlPipelineState :=
  if run.continuous then (t.completedRequestStates i).getD (t.states i)
  else if run.cfg.padFinishedRequests then (t.completedStates i).getD (t.states i)
  else t.states i

def completionTokenIds (run : PearlRun) (s : PearlPipelineState) : List Int :=
  match run.maxRounds with
  | none => truncateCompletion run.eos s.maxTokens s.ignoreEos s.committedCompletionTokenIds
  | some _ => truncateCompletion run.eos s.committedCompletionTokenIds.length true s.committedCompletionTokenIds

def generateBatch (run : PearlRun) (prompts : List (List Nat)) (arg : SamplingArg) (fuel : Nat) :
    Except Fault (Option (List (List Int))) := do
  let params ← (admitBatch run.cfg run.gamma prompts arg run.maxRounds).mapError .raised
  let start := run.init (prefilled run.models prompts params)
  let ended ← loop (pearlIteration run) fuel (start, start)
  return ended.map fun p => (List.range run.requests).map fun i => completionTokenIds run (resultState run p.2 i)

/-! ## The autoregressive baseline -/

def admitTargetArBatch (cfg : PearlConfig) (prompts : List (List Nat)) (arg : SamplingArg) :
    Except PyError (List NativeSamplingParams) := do
  if prompts = [] ∨ cfg.maxNumSeqs < prompts.length then
    throw (.valueError "PEARL batch size must be between one and max_num_seqs.")
  if cfg.maxNumBatchedTokens < (prompts.map List.length).sum then
    throw (.valueError "PEARL prompts exceed max_num_batched_tokens.")
  let params ← normalizeSamplingParams prompts.length arg cfg
  (prompts.zip params).forM fun p => do
    if p.1 = [] then throw (.valueError "Target AR generation requires non-empty prompts.")
    if cfg.maxModelLen < p.1.length + p.2.maxTokens then
      throw (.valueError "Prompt plus target completion exceeds max_model_len.")
  return params

def targetArStep (models : PearlModels) (step : Nat) (active : List Nat) (states : States) : States :=
  active.foldl (fun states i =>
    let s := states i
    let token : Int := if s.temperature = 0 then models.target s.tokenIds else models.sample step i
    Function.update states i (s.commitToken token)) states

def targetArIteration (models : PearlModels) (eos : Finset Int) (requests : Nat) (s : Nat × States) :
    Except Fault (Turn (Nat × States) States Unit) :=
  let active := (List.range requests).filter fun i => !finished eos (s.2 i)
  if active = [] then .ok (.stop s.2)
  else .ok (.next (s.1 + 1, targetArStep models s.1 active s.2) ())

def generateTargetArBatch (cfg : PearlConfig) (models : PearlModels) (eos : Finset Int) (prompts : List (List Nat))
    (arg : SamplingArg) (fuel : Nat) : Except Fault (Option (List (List Int))) := do
  let params ← (admitTargetArBatch cfg prompts arg).mapError .raised
  let ended ← loop (targetArIteration models eos prompts.length) fuel (1, prefilled models prompts params)
  return ended.map fun states => (List.range prompts.length).map fun i =>
    truncateCompletion eos (states i).maxTokens (states i).ignoreEos (states i).committedCompletionTokenIds

end VllmAscend
