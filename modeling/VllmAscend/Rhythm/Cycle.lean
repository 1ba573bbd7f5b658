import VllmAscend.Pearl.Loop
import VllmAscend.Rhythm.Controller

/-!
# The SpecRhythm decode loop

`_generate_spec_rhythm_decode`: one home batch is verified while the other
drafts, and a request under verification may draft on as if its window were
accepted.
-/

namespace VllmAscend

open Python Packed Run

abbrev BudgetPolicy := Nat → List Nat → List Nat → (Nat → Option SpecRhythmRuntimeState) → ℚ → Nat → Nat →
  Except PyError SpecRhythmBudgetPlan

structure SpecRhythmConfig (gamma : Nat) where
  minGamma : Nat := 1
  maxEagerTokens : Nat := 0
  urgencyThreshold : ℚ := 3 / 4
  acceptanceFloor : ℚ := 2 / 5
  acceptanceEmaAlpha : ℚ := 1 / 5
  roofline : RooflineKey → Option Nat := fun _ => none
  draftTokenBudget : Option Nat := none
  minGamma_ok : 0 < minGamma ∧ minGamma ≤ gamma
  maxEagerTokens_le : maxEagerTokens ≤ gamma
  roofline_pos : ∀ key n, roofline key = some n → 0 < n := by first | exact noRoofline_pos | simp

namespace SpecRhythmConfig

def shaper {gamma : Nat} (cfg : SpecRhythmConfig gamma) : SpecRhythmBudgetShaper where
  minGamma := cfg.minGamma
  maxGamma := gamma
  acceptanceFloor := clamp cfg.acceptanceFloor
  roofline := cfg.roofline
  minGamma_pos := cfg.minGamma_ok.1
  minGamma_le := cfg.minGamma_ok.2
  roofline_pos := cfg.roofline_pos

def policy {gamma : Nat} (cfg : SpecRhythmConfig gamma) : BudgetPolicy :=
  fun planId normal eager states wait contextLen batchSize =>
    cfg.shaper.shape planId normal eager states wait contextLen (cfg.draftTokenBudget.map Int.ofNat) (some batchSize)

end SpecRhythmConfig

structure RhythmRun where
  cfg : PearlConfig
  gamma : Nat
  rhythm : SpecRhythmConfig gamma
  eos : Finset Int
  models : PearlModels
  requests : Nat
  maxRounds : Option Nat
  params : Nat → NativeSamplingParams
  shape : BudgetPolicy
  confidence : Nat → Nat → ℚ
  clock : Nat → ℚ
  elapsed : Nat → ℚ

structure DevicePayload where
  ticket : SpecRhythmProposalTicket
  verificationTokens : List Int
  nextTokens : List Int
  verificationSize : Nat
  draftConfidence : ℚ

def DevicePayload.validateFor (p : DevicePayload) (s : PearlPipelineState) : Except PyError Unit :=
  let request := p.ticket.requestIndex
  let required := p.ticket.requiredPrefixEpoch
  let current := s.continuationEpoch
  let expectedSize :=
    if s.preVerify then 1 else if s.pendingWindowSize = 0 then p.ticket.gamma else s.pendingWindowSize
  if required ≠ current then
    .error (.runtimeError (s!"SpecRhythm refused a stale device mailbox proposal: request={request}, " ++
      s!"required_epoch={required}, current_epoch={current}."))
  else if p.verificationTokens.length ≠ p.verificationSize then
    .error (.runtimeError "SpecRhythm mailbox verification tensor has an invalid shape.")
  else if p.verificationSize = 0 then
    .error (.runtimeError "SpecRhythm mailbox verification width must be positive.")
  else if p.verificationSize ≠ expectedSize then
    .error (.runtimeError "SpecRhythm mailbox verification width does not match the request prefix.")
  else if p.nextTokens.length ≠ p.ticket.gamma then
    .error (.runtimeError "SpecRhythm mailbox continuation tensor has an invalid shape.")
  else if ¬ (0 ≤ p.draftConfidence ∧ p.draftConfidence ≤ 1) then
    .error (.runtimeError "SpecRhythm mailbox confidence must be finite and in [0, 1].")
  else .ok ()

/-- The locals of the loop on one model group; `ticks` counts the readings of the wall clock. -/
structure RhythmRank where
  controller : SpecRhythmPipelineController
  states : States
  activeIndices : List Nat
  pendingAdmission : List Nat
  completedStates : Nat → Option PearlPipelineState
  payloads : Nat → Option DevicePayload
  lastCycleMs : ℚ
  roundCount : Nat
  ticks : Nat

/-! ## Admission -/

namespace RhythmRun

def continuous (run : RhythmRun) : Bool := continuousBatching run.cfg run.requests run.maxRounds

def initialBatchSize (run : RhythmRun) : Nat := min run.requests run.cfg.maxNumSeqs

def arrived (run : RhythmRun) (now : ℚ) (i : Nat) : Bool := (run.params i).arrivalTs.all (· ≤ now)

end RhythmRun

def RhythmRank.admitRequest (run : RhythmRun) (now : ℚ) (r : RhythmRank) (i : Nat) : RhythmRank :=
  let home : Fin 2 :=
    if r.activeIndices.countP (r.controller.homeIs 0) ≤ r.activeIndices.countP (r.controller.homeIs 1) then 0 else 1
  let entered := fun state : SpecRhythmRuntimeState =>
    { state with
      homeBatchId := home
      decodeElapsedMs := match (run.params i).arrivalTs with
        | some arrival => max state.decodeElapsedMs ((now - arrival) * 1000)
        | none => state.decodeElapsedMs }
  { r with
    pendingAdmission := r.pendingAdmission.erase i
    controller := { r.controller with
      requestStates := Function.update r.controller.requestStates i ((r.controller.requestStates i).map entered) }
    activeIndices := r.activeIndices ++ [i] }

def admitLoop (run : RhythmRun) (now : ℚ) : Nat → RhythmRank → RhythmRank
  | 0, r => r
  | free + 1, r =>
    match r.pendingAdmission.find? (run.arrived now) with
    | none => r
    | some i => admitLoop run now free (r.admitRequest run now i)

def admitReady (run : RhythmRun) (now : ℚ) (r : RhythmRank) : RhythmRank :=
  admitLoop run now (run.initialBatchSize - r.activeIndices.length) r

/-! ## Planning a cycle -/

structure WorkRow where
  request : Nat
  budget : Nat
  eager : Bool
  verificationSize : Nat
  verificationPrefix : Option (List Int)
deriving Inhabited

structure CyclePlan where
  controller : SpecRhythmPipelineController
  targets : List Nat
  targetPayloads : List DevicePayload
  work : List WorkRow
  tickets : List SpecRhythmProposalTicket

def targetPayload (r : RhythmRank) (controller : SpecRhythmPipelineController) (i : Nat) :
    Except PyError DevicePayload :=
  match controller.ready i with
  | none => .error (.keyError (toString i))
  | some ticket =>
    match r.payloads ticket.proposalId with
    | none => .error (.runtimeError "SpecRhythm controller referenced a missing device payload.")
    | some payload =>
      match payload.validateFor (r.states i) with
      | .error e => .error e
      | .ok () => .ok payload

def projectedWaitMs (r : RhythmRank) : ℚ := max (r.lastCycleMs * 2) (1 / 1000000)

def eagerCandidates (run : RhythmRun) (r : RhythmRank) (controller : SpecRhythmPipelineController)
    (candidates : List Nat) : List Nat :=
  if run.rhythm.maxEagerTokens = 0 then []
  else candidates.filter fun i => (controller.requestStates i).any fun state =>
    run.rhythm.urgencyThreshold ≤ state.urgency (projectedWaitMs r) ∧
      run.rhythm.acceptanceFloor ≤ state.expectedAcceptanceBenefit

def contextLen (r : RhythmRank) : Nat := (r.activeIndices.map fun i => (r.states i).tokenIds.length).foldl max 0

def normalRow (run : RhythmRun) (r : RhythmRank) (item : Nat × Nat) : WorkRow :=
  ⟨item.1, item.2, false, (r.states item.1).windowSize run.gamma, none⟩

def eagerRow (targets : List Nat) (targetPayloads : List DevicePayload) (item : Nat × Nat) : Except PyError WorkRow :=
  match (targets.zip targetPayloads).lookup item.1 with
  | none => .error (.keyError (toString item.1))
  | some parent => .ok ⟨item.1, item.2, true, parent.ticket.gamma, some (parent.nextTokens.drop 1)⟩

def shapedBudgets (run : RhythmRun) (r : RhythmRank) (controller : SpecRhythmPipelineController)
    (plan : SpecRhythmExecutionPlan) : Except PyError SpecRhythmBudgetPlan :=
  run.shape plan.planId plan.normalDraftRequestIndices
    (eagerCandidates run r controller plan.eagerCandidateIndices) controller.requestStates (projectedWaitMs r)
    (contextLen r) r.activeIndices.length

def cappedEagerBudgets (run : RhythmRun) (budgets : SpecRhythmBudgetPlan) : List (Nat × Nat) :=
  (budgets.eagerBudgets.map fun item => (item.1, min item.2 run.rhythm.maxEagerTokens)).filter (0 < ·.2)

def planWork (run : RhythmRun) (r : RhythmRank) (controller : SpecRhythmPipelineController)
    (plan : SpecRhythmExecutionPlan) (targetPayloads : List DevicePayload) : Except PyError (List WorkRow) := do
  if plan.normalDraftRequestIndices = [] ∧ eagerCandidates run r controller plan.eagerCandidateIndices = [] then
    return []
  let budgets ← shapedBudgets run r controller plan
  let eagerRows ← (cappedEagerBudgets run budgets).mapM (eagerRow plan.targetRequestIndices targetPayloads)
  return budgets.normalBudgets.map (normalRow run r) ++ eagerRows

def newTickets : List WorkRow → SpecRhythmPipelineController →
    Except PyError (List SpecRhythmProposalTicket × SpecRhythmPipelineController)
  | [], c => .ok ([], c)
  | row :: rows, c => do
    let (ticket, c) ← c.newTicket row.request row.budget row.eager
    let (tickets, c) ← newTickets rows c
    return (ticket :: tickets, c)

def planCycle (run : RhythmRun) (r : RhythmRank) : Except PyError CyclePlan := do
  let (plan, controller) ← r.controller.buildPlan r.activeIndices
  if plan.phase = .complete then
    throw (.runtimeError "SpecRhythm has active requests but no verifiable or draftable proposal.")
  let targetPayloads ← plan.targetRequestIndices.mapM (targetPayload r controller)
  let work ← planWork run r controller plan targetPayloads
  let (tickets, controller) ← newTickets work controller
  return ⟨controller, plan.targetRequestIndices, targetPayloads, work, tickets⟩

/-! ## Drafting -/

structure DraftProposals where
  verification : List Int
  windows : List (List Int)
  confidences : List ℚ
  forwards : List (List ForwardRow)

def verificationBefore (states : States) (row : WorkRow) : List Int :=
  match row.verificationPrefix with
  | some tokens => tokens
  | none => if 1 < row.verificationSize then lastN (row.verificationSize - 1) (states row.request).tokenIds else []

def verificationPart (gamma : Nat) (states : States) (row : WorkRow) (window : List Int) :
    Except PyError (List Int) :=
  let size := row.verificationSize
  let before := verificationBefore states row
  if size = 0 ∨ gamma < size then .error (.valueError "SpecRhythm verification sizes must be in [1, gamma].")
  else if before.length ≠ size - 1 then
    .error (.valueError "SpecRhythm eager verification prefix does not match its parent window.")
  else .ok (before ++ window.take 1)

def draftSpecRhythmDeviceBatch (draft : Nat → List Int → Nat) (confidence : Nat → ℚ) (gamma : Nat)
    (states : States) (work : List WorkRow) : Except PyError DraftProposals :=
  let rows := work.map fun row => (row.request, row.budget)
  if work.any fun row => row.budget = 0 ∨ gamma < row.budget then
    .error (.valueError "SpecRhythm draft budgets must be in [1, gamma].")
  else do
    let windows := draftWindows draft gamma states rows
    let parts ← (work.zip windows).mapM fun p => verificationPart gamma states p.1 p.2
    return ⟨parts.flatten, windows, work.map fun row => confidence row.request, draftForwards states rows windows⟩

def extendDraft (work : List WorkRow) (windows : List (List Int)) (r : RhythmRank) : RhythmRank :=
  { r with states := (work.zip windows).foldl (fun states p i =>
      if i = p.1.request then (states i).extend (p.2.take p.1.budget) else states i) r.states }

/-! ## The envelope -/

def metadataWidth : Nat := 7

def metadataRow (ticket : SpecRhythmProposalTicket) (size : Nat) : List Int :=
  [ticket.proposalId, ticket.requestIndex, ticket.homeBatchId.val, size, ticket.gamma, ticket.requiredPrefixEpoch]

def quantize (confidence : ℚ) : Int := pyRound (confidence * 1000000)

def messageSize (gamma : Nat) (sizes : List Nat) : Nat :=
  metadataWidth * sizes.length + sizes.sum + sizes.length * gamma

/-- A verification worker checks the envelope against its own tickets and reads the confidences. -/
def readEnvelope (tickets : List SpecRhythmProposalTicket) (sizes : List Nat) (message : List Int) :
    Except PyError (List ℚ) :=
  let rows := reshape metadataWidth tickets.length (message.take (metadataWidth * tickets.length))
  if rows.map (·.take 6) ≠ List.zipWith metadataRow tickets sizes then
    .error (.runtimeError "SpecRhythm received a misrouted or stale HCCL mailbox envelope.")
  else .ok (rows.map fun row => ((row.getD 6 0 : Int) : ℚ) / 1000000)

def envelopeRow (p : SpecRhythmProposalTicket × Nat × ℚ) : List Int := metadataRow p.1 p.2.1 ++ [quantize p.2.2]

def proposalEnvelope (drafted : DraftProposals) (tickets : List SpecRhythmProposalTicket) (sizes : List Nat) :
    List Int :=
  (tickets.zip (sizes.zip drafted.confidences)).flatMap envelopeRow ++
    (drafted.verification ++ drafted.windows.flatten)

def exchangeSpecRhythmDeviceProposals (gamma : Nat) (drafted : DraftProposals)
    (draftTickets targetTickets : List SpecRhythmProposalTicket) (draftSizes targetSizes : List Nat) :
    Except Fault (List Int × List ℚ × List ℚ) := do
  if draftTickets = [] ∧ targetTickets = [] then return ([], [], [])
  if draftTickets = [] ∨ targetTickets = [] then throw .desync
  if drafted.confidences.length ≠ draftTickets.length then
    throw (.raised (.runtimeError "SpecRhythm draft confidence tensor has an invalid shape."))
  if drafted.verification.length ≠ draftSizes.sum then
    throw (.raised (.runtimeError "SpecRhythm verification payload has an invalid shape."))
  if drafted.windows.length ≠ draftTickets.length ∨ drafted.windows.any fun window => window.length ≠ gamma then
    throw (.raised (.runtimeError "SpecRhythm continuation payload has an invalid shape."))
  let message := proposalEnvelope drafted draftTickets draftSizes
  -- the receivers allocate the message by their own sizes
  if message.length ≠ messageSize gamma targetSizes then throw .desync
  let draftConfidences ← (readEnvelope draftTickets draftSizes message).mapError .raised
  let targetConfidences ← (readEnvelope targetTickets targetSizes message).mapError .raised
  return (message, draftConfidences, targetConfidences)

def materializeRows :
    List (SpecRhythmProposalTicket × Nat × ℚ) → List Int → List (List Int) → Nat → List DevicePayload
  | (ticket, size, confidence) :: rows, verification, continuation :: continuations, offset =>
    ⟨ticket, (verification.drop offset).take size, continuation.take ticket.gamma, size, confidence⟩ ::
      materializeRows rows verification continuations (offset + size)
  | _, _, _, _ => []

def materializeSpecRhythmPayloads (tickets : List SpecRhythmProposalTicket) (sizes : List Nat) (verification : List Int)
    (continuations : List (List Int)) (confidences : List ℚ) : List DevicePayload :=
  materializeRows (tickets.zip (sizes.zip confidences)) verification continuations 0

def receivedTensors (gamma : Nat) (sizes : List Nat) (message : List Int) : List Int × List (List Int) :=
  let metadataSize := sizes.length * metadataWidth
  ((message.drop metadataSize).take sizes.sum, reshape gamma sizes.length (message.drop (metadataSize + sizes.sum)))

def publishProposals (r : RhythmRank) (plan : CyclePlan) (newPayloads : List DevicePayload) :
    Except PyError RhythmRank :=
  match plan.controller.publish plan.tickets with
  | (.error e, _) => .error e
  | (.ok (), controller) => .ok { r with
      controller := controller
      payloads := newPayloads.foldl (fun m p => Function.update m p.ticket.proposalId (some p)) r.payloads }

/-! ## Verification -/

def continuationRows (gamma : Nat) (payloads : List DevicePayload) : List (List Int) :=
  payloads.map fun p => p.nextTokens ++ List.replicate (gamma - p.ticket.gamma) (-1)

structure VerifiedRow where
  request : Nat
  payload : DevicePayload
  accepted : Int
  correction : Option Int
  next : List Int

def verifiedRows (plan : CyclePlan) (result : RoundResult) : List VerifiedRow :=
  (plan.targets.zip (plan.targetPayloads.zip (result.accepted.zip (result.corrections.zip result.nextWindows)))).map
    fun p => ⟨p.1, p.2.1, p.2.2.1, p.2.2.2.1, p.2.2.2.2⟩

def discardEager (eagerTicket : Option SpecRhythmProposalTicket) (row : VerifiedRow) (s : PearlPipelineState) :
    PearlPipelineState :=
  match eagerTicket with
  | some ticket =>
    if row.accepted ≠ row.payload.verificationSize then { s with tokenIds := delLast ticket.gamma s.tokenIds } else s
  | none => s

def verifyState (gamma : Nat) (isDraft : Bool) (eagerTicket : Option SpecRhythmProposalTicket) (s : PearlPipelineState)
    (row : VerifiedRow) : Except PyError PearlPipelineState :=
  let expected := row.payload.verificationSize
  if isDraft then
    (discardEager eagerTicket row s).applyDraftVerification gamma row.accepted row.correction row.next (some expected)
  else s.applyTargetVerification gamma row.accepted row.correction row.next (some expected)

def verificationOf (run : RhythmRun) (row : VerifiedRow) : SpecRhythmPipelineController.Verification :=
  let expected := row.payload.verificationSize
  { fullyAccepted := row.accepted = expected
    proposedTokens := expected
    acceptedTokens := row.accepted
    deliveredTokens := row.accepted + if row.accepted = expected then 0 else 1
    draftConfidence := some row.payload.draftConfidence
    emaAlpha := run.rhythm.acceptanceEmaAlpha }

def popPayloads (payloads : Nat → Option DevicePayload) (row : VerifiedRow)
    (eagerTicket promoted : Option SpecRhythmProposalTicket) : Nat → Option DevicePayload :=
  let payloads := Function.update payloads row.payload.ticket.proposalId none
  match eagerTicket, promoted with
  | some ticket, none => Function.update payloads ticket.proposalId none
  | _, _ => payloads

def finishRow (run : RhythmRun) (isDraft : Bool) (acc : RhythmRank × List Nat) (row : VerifiedRow) :
    Except PyError (RhythmRank × List Nat) := do
  let (r, finishedThisCycle) := acc
  let i := row.request
  let eagerTicket := r.controller.stagedEager i
  let s ← verifyState run.gamma isDraft eagerTicket (r.states i) row
  match r.controller.finishVerification i (verificationOf run row) with
  | (.error e, _) => .error e
  | (.ok promoted, controller) =>
    return ({ r with
        states := Function.update r.states i s
        controller := controller
        payloads := popPayloads r.payloads row eagerTicket promoted },
      if finished run.eos s then finishedThisCycle ++ [i] else finishedThisCycle)

def RhythmRank.invalidate (r : RhythmRank) (i : Nat) : RhythmRank :=
  { r with
    controller := r.controller.invalidateRequest i
    payloads := fun pid => (r.payloads pid).filter fun p => p.ticket.requestIndex ≠ i }

def completeRequest (r : RhythmRank) (i : Nat) : RhythmRank :=
  { r with completedStates := Function.update r.completedStates i (some (r.states i)) }.invalidate i

def endCycle (run : RhythmRun) (r : RhythmRank) (finishedThisCycle : List Nat) : RhythmRank :=
  let ms := run.elapsed r.roundCount
  let booked := fun i =>
    if i ∈ r.activeIndices then (r.controller.requestStates i).map (·.addDecodeTime ms)
    else r.controller.requestStates i
  let timed := { r with lastCycleMs := ms, controller := { r.controller with requestStates := booked } }
  let left := { finishedThisCycle.foldl completeRequest timed with
    activeIndices := r.activeIndices.filter (· ∉ finishedThisCycle) }
  { admitReady run (run.clock r.ticks) left with ticks := r.ticks + 1, roundCount := r.roundCount + 1 }

/-! ## A cycle -/

def verifyCycle (run : RhythmRun) (d t : RhythmRank) (draftPlan targetPlan : CyclePlan) (outputs : TargetRound) :
    Except Fault ((RhythmRank × List Nat) × (RhythmRank × List Nat)) := do
  let sizes := targetPlan.targetPayloads.map (·.verificationSize)
  let verification := targetPlan.targetPayloads.flatMap (·.verificationTokens)
  let message := verification ++ (continuationRows run.gamma targetPlan.targetPayloads).flatten
  let verdict ← (verifyTargetTokensBatch run.models t.roundCount run.gamma outputs.tokens message sizes
    (targetPlan.targets.map fun i => (t.states i).temperature)).mapError .raised
  let (draftResult, targetResult) ← broadcastDeviceRoundResult run.gamma verdict message sizes.sum
    targetPlan.targets.length draftPlan.targets.length (continuationRows run.gamma draftPlan.targetPayloads)
    (some (targetPlan.targetPayloads.map (·.ticket.gamma))) (some (draftPlan.targetPayloads.map (·.ticket.gamma)))
  let d ← ((verifiedRows draftPlan draftResult).foldlM (finishRow run true) (d, [])).mapError .raised
  let t ← ((verifiedRows targetPlan targetResult).foldlM (finishRow run false) (t, [])).mapError .raised
  return (d, t)

def rhythmCycle (run : RhythmRun) (d t : RhythmRank) : Except Fault (RhythmRank × RhythmRank × RoundForwards) := do
  let draftPlan ← (planCycle run d).mapError .raised
  let targetPlan ← (planCycle run t).mapError .raised
  let drafted ← (draftSpecRhythmDeviceBatch (run.models.draft d.roundCount) (run.confidence d.roundCount) run.gamma
    d.states draftPlan.work).mapError .raised
  let d := extendDraft draftPlan.work drafted.windows d
  let outputs ← if targetPlan.targets = [] then pure ⟨[], []⟩
    else (targetRoundOutputsBatch run.models.target run.gamma run.cfg.targetVerificationGraphBuckets
      run.cfg.targetVerificationGraphPostCounts t.states targetPlan.targets
      (some (targetPlan.targetPayloads.map (·.verificationSize)))).mapError .raised
  let draftSizes := draftPlan.work.map (·.verificationSize)
  let targetSizes := targetPlan.work.map (·.verificationSize)
  let (message, draftConfidences, targetConfidences) ← exchangeSpecRhythmDeviceProposals run.gamma drafted
    draftPlan.tickets targetPlan.tickets draftSizes targetSizes
  let received := receivedTensors run.gamma targetSizes message
  let d ← (publishProposals d draftPlan (materializeSpecRhythmPayloads draftPlan.tickets draftSizes
    drafted.verification drafted.windows draftConfidences)).mapError .raised
  let t ← (publishProposals t targetPlan (materializeSpecRhythmPayloads targetPlan.tickets targetSizes
    received.1 received.2 targetConfidences)).mapError .raised
  if draftPlan.targets = [] ∧ targetPlan.targets = [] then
    return (endCycle run d [], endCycle run t [], ⟨drafted.forwards, []⟩)
  -- one group waits for a verdict, the other at the barrier of a warmup step
  if draftPlan.targets = [] ∨ targetPlan.targets = [] then throw .desync
  let ((d, draftFinished), (t, targetFinished)) ← verifyCycle run d t draftPlan targetPlan outputs
  return (endCycle run d draftFinished, endCycle run t targetFinished, ⟨drafted.forwards, outputs.forward⟩)

def idleTurn (run : RhythmRun) (r : RhythmRank) : Except PyError RhythmRank :=
  if r.pendingAdmission.all fun i => (run.params i).arrivalTs.isNone then
    .error (.valueError "min() arg is an empty sequence")
  else .ok { admitReady run (run.clock (r.ticks + 1)) r with ticks := r.ticks + 2 }

def rhythmContinues (run : RhythmRun) (r : RhythmRank) : Bool :=
  (r.activeIndices ≠ [] ∨ r.pendingAdmission ≠ []) ∧ run.maxRounds.all (r.roundCount < ·)

def rhythmIteration (run : RhythmRun) (ranks : RhythmRank × RhythmRank) :
    Except Fault (Turn (RhythmRank × RhythmRank) (RhythmRank × RhythmRank) RoundForwards) := do
  let (d, t) := ranks
  match rhythmContinues run d, rhythmContinues run t with
  | false, false => return .stop (d, t)
  | true, true =>
    if d.activeIndices = [] ∧ t.activeIndices = [] then
      let d ← (idleTurn run d).mapError .raised
      let t ← (idleTurn run t).mapError .raised
      return .next (d, t) ⟨[], []⟩
    else if d.activeIndices = [] ∨ t.activeIndices = [] then throw .desync
    else
      let (d, t, forwards) ← rhythmCycle run d t
      return .next (d, t) forwards
  | _, _ => throw .desync

/-! ## The whole generation -/

def RhythmRun.runtimeState (run : RhythmRun) (i : Nat) : Option SpecRhythmRuntimeState :=
  if i < run.requests then
    some { requestIndex := i, homeBatchId := if i % 2 = 0 then 0 else 1, sloTpotMs := (run.params i).sloTpotMs,
           maxGamma := (run.params i).specRhythmMaxGamma, sloTpotMs_pos := (run.params i).sloTpotMs_pos,
           maxGamma_pos := (run.params i).specRhythmMaxGamma_pos }
  else none

def RhythmRun.init (run : RhythmRun) (states : States) : RhythmRank :=
  let r : RhythmRank :=
    { controller := { requestStates := run.runtimeState }
      states := states
      activeIndices := []
      pendingAdmission := List.range run.requests
      completedStates := fun _ => none
      payloads := fun _ => none
      lastCycleMs := 0
      roundCount := 0
      ticks := 1 }
  admitReady run (run.clock 0) r

def rhythmResultState (run : RhythmRun) (t : RhythmRank) (i : Nat) : PearlPipelineState :=
  if run.continuous then (t.completedStates i).getD (t.states i) else t.states i

def rhythmCompletionTokenIds (run : RhythmRun) (s : PearlPipelineState) : List Int :=
  match run.maxRounds with
  | none => truncateCompletion run.eos s.maxTokens s.ignoreEos s.committedCompletionTokenIds
  | some _ => truncateCompletion run.eos s.committedCompletionTokenIds.length true s.committedCompletionTokenIds

def generateSpecRhythmDecode (run : RhythmRun) (states : States) (fuel : Nat) :
    Except Fault (Option (List (List Int))) := do
  let ended ← loop (rhythmIteration run) fuel (run.init states, run.init states)
  return ended.map fun p => (List.range run.requests).map fun i =>
    rhythmCompletionTokenIds run (rhythmResultState run p.2 i)

end VllmAscend
