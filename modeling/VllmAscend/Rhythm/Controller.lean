import VllmAscend.Rhythm.Shaper

/-!
# The SpecRhythm mailboxes

`SpecRhythmPipelineController` and `SpecRhythmScheduler` of `spec_rhythm.py`:
two home batches that take turns at the target, a mailbox of proposals ready to
verify and one of eager continuations.
-/

namespace VllmAscend

open Python

structure SpecRhythmProposalTicket where
  proposalId : Nat
  requestIndex : Nat
  homeBatchId : Fin 2
  gamma : Nat
  requiredPrefixEpoch : Nat
  eager : Bool
  gamma_pos : 0 < gamma
deriving DecidableEq

inductive PipelinePhase where
  | warmup
  | steady
  | drain
  | complete
deriving DecidableEq

structure SpecRhythmExecutionPlan where
  planId : Nat
  phase : PipelinePhase
  targetHomeBatchId : Option (Fin 2)
  draftHomeBatchId : Option (Fin 2)
  targetRequestIndices : List Nat
  normalDraftRequestIndices : List Nat
  eagerCandidateIndices : List Nat
deriving DecidableEq

structure SpecRhythmPipelineController where
  requestStates : Nat → Option SpecRhythmRuntimeState
  nextTargetHomeBatchId : Fin 2 := 0
  planId : Nat := 0
  nextProposalId : Nat := 0
  ready : Nat → Option SpecRhythmProposalTicket := fun _ => none
  stagedEager : Nat → Option SpecRhythmProposalTicket := fun _ => none

namespace SpecRhythmPipelineController

def homeIs (c : SpecRhythmPipelineController) (home : Fin 2) (i : Nat) : Bool :=
  (c.requestStates i).any (·.homeBatchId = home)

def invalidateRequest (c : SpecRhythmPipelineController) (i : Nat) : SpecRhythmPipelineController :=
  { c with ready := Function.update c.ready i none, stagedEager := Function.update c.stagedEager i none }

def discardInactivePayloads (c : SpecRhythmPipelineController) (active : List Nat) : SpecRhythmPipelineController :=
  { c with
    ready := fun i => if i ∈ active then c.ready i else none
    stagedEager := fun i => if i ∈ active then c.stagedEager i else none }

def targetHome (c : SpecRhythmPipelineController) (active : List Nat) : Option (Fin 2) :=
  let isReadyHome := fun home => active.any fun i => c.homeIs home i ∧ (c.ready i).isSome
  if isReadyHome c.nextTargetHomeBatchId then some c.nextTargetHomeBatchId
  else if isReadyHome 0 then some 0
  else if isReadyHome 1 then some 1
  else none

def draftHome (c : SpecRhythmPipelineController) (active : List Nat) : Fin 2 :=
  match c.targetHome active with
  | some home => 1 - home
  | none =>
    if active.any (c.homeIs c.nextTargetHomeBatchId) then c.nextTargetHomeBatchId else 1 - c.nextTargetHomeBatchId

def targetIndices (c : SpecRhythmPipelineController) (active : List Nat) : List Nat :=
  active.filter fun i => (c.targetHome active).any (c.homeIs · i) ∧ (c.ready i).isSome

def normalIndices (c : SpecRhythmPipelineController) (active : List Nat) : List Nat :=
  active.filter fun i => c.homeIs (c.draftHome active) i ∧ (c.ready i).isNone ∧ (c.stagedEager i).isNone

def eagerIndices (c : SpecRhythmPipelineController) (active : List Nat) : List Nat :=
  (c.targetIndices active).filter fun i => (c.stagedEager i).isNone

def phaseOf (c : SpecRhythmPipelineController) (active : List Nat) : PipelinePhase :=
  if c.targetIndices active ≠ [] then .steady
  else if c.normalIndices active ≠ [] then .warmup
  -- nothing outside `active` is left in the mailbox by now
  else if active.any fun i => (c.ready i).isSome then .drain
  else .complete

def buildPlan (c : SpecRhythmPipelineController) (activeRequestIndices : List Nat) :
    Except PyError (SpecRhythmExecutionPlan × SpecRhythmPipelineController) :=
  let active := activeRequestIndices.eraseDups
  if active.any fun i => (c.requestStates i).isNone then
    .error (.valueError "SpecRhythm cannot schedule an unregistered request.")
  else
    let c := c.discardInactivePayloads active
    let normal := c.normalIndices active
    let eager := c.eagerIndices active
    .ok ({ planId := c.planId
           phase := c.phaseOf active
           targetHomeBatchId := c.targetHome active
           draftHomeBatchId := if normal ≠ [] ∨ eager ≠ [] then some (c.draftHome active) else none
           targetRequestIndices := c.targetIndices active
           normalDraftRequestIndices := normal
           eagerCandidateIndices := eager }, { c with planId := c.planId + 1 })

def newTicket (c : SpecRhythmPipelineController) (i gamma : Nat) (eager : Bool) :
    Except PyError (SpecRhythmProposalTicket × SpecRhythmPipelineController) :=
  match c.requestStates i with
  | none => .error (.keyError (toString i))
  | some state =>
    if h : 0 < gamma then
      .ok (⟨c.nextProposalId, i, state.homeBatchId, gamma, state.prefixEpoch + eager.toNat, eager, h⟩,
        { c with nextProposalId := c.nextProposalId + 1 })
    else .error (.valueError "SpecRhythm proposal identifiers and gamma must be positive.")

def publishTicket (c : SpecRhythmPipelineController) (ticket : SpecRhythmProposalTicket) :
    Except PyError Unit × SpecRhythmPipelineController :=
  let i := ticket.requestIndex
  if ticket.eager then
    if (c.stagedEager i).isSome then
      (.error (.runtimeError "SpecRhythm request already has a staged eager continuation."), c)
    else (.ok (), { c with stagedEager := Function.update c.stagedEager i (some ticket) })
  else if (c.ready i).isSome then
    (.error (.runtimeError "SpecRhythm request already has an available proposal."), c)
  else match c.requestStates i with
    | none => (.error (.keyError (toString i)), c)
    | some state =>
      if ticket.requiredPrefixEpoch ≠ state.prefixEpoch then
        (.error (.runtimeError "SpecRhythm normal proposal was built from a stale prefix."), c)
      else (.ok (), { c with ready := Function.update c.ready i (some ticket) })

def publish : List SpecRhythmProposalTicket → SpecRhythmPipelineController →
    Except PyError Unit × SpecRhythmPipelineController
  | [], c => (.ok (), c)
  | ticket :: tickets, c =>
    match c.publishTicket ticket with
    | (.error e, c') => (.error e, c')
    | (.ok (), c') => publish tickets c'

structure Verification where
  fullyAccepted : Bool
  proposedTokens : Int
  acceptedTokens : Int
  deliveredTokens : Int
  draftConfidence : Option ℚ
  emaAlpha : ℚ

def finishVerification (c : SpecRhythmPipelineController) (i : Nat) (v : Verification) :
    Except PyError (Option SpecRhythmProposalTicket) × SpecRhythmPipelineController :=
  match c.ready i with
  | none => (.error (.runtimeError "SpecRhythm target attempted to consume a missing proposal."), c)
  | some current =>
    let c := { c with ready := Function.update c.ready i none }
    match c.requestStates i with
    | none => (.error (.keyError (toString i)), c)
    | some state =>
      if current.requiredPrefixEpoch ≠ state.prefixEpoch then
        (.error (.runtimeError "SpecRhythm target attempted to verify a stale proposal."), c)
      else
        let state := state.recordVerification v.proposedTokens v.acceptedTokens v.deliveredTokens v.draftConfidence
          v.emaAlpha
        let promoted := (c.stagedEager i).filter fun eager =>
          v.fullyAccepted ∧ eager.requiredPrefixEpoch = state.prefixEpoch
        (.ok promoted, { c with
          requestStates := Function.update c.requestStates i (some state)
          stagedEager := Function.update c.stagedEager i none
          ready := Function.update c.ready i promoted
          nextTargetHomeBatchId := 1 - state.homeBatchId })

end SpecRhythmPipelineController

/-! ## The scheduler -/

structure SpecRhythmSchedule where
  execution : SpecRhythmExecutionPlan
  budget : SpecRhythmBudgetPlan

structure SpecRhythmScheduler where
  shaper : SpecRhythmBudgetShaper
  maxNumSeqs : Nat := 512
  active : List Nat := []
  controller : SpecRhythmPipelineController := { requestStates := fun _ => none }
  maxNumSeqs_pos : 0 < maxNumSeqs := by decide

namespace SpecRhythmScheduler

def defaultHome (s : SpecRhythmScheduler) : Fin 2 :=
  if s.active.countP (s.controller.homeIs 0) ≤ s.active.countP (s.controller.homeIs 1) then 0 else 1

def admitRequest (s : SpecRhythmScheduler) (i : Nat) (homeBatchId : Option (Fin 2) := none) (sloTpotMs : Option ℚ := none)
    (maxGamma : Option Nat := none) : Except PyError SpecRhythmRuntimeState × SpecRhythmScheduler :=
  if (s.controller.requestStates i).isSome then
    (.error (.valueError s!"SpecRhythm request {i} is already registered"), s)
  else if s.maxNumSeqs ≤ s.active.length then
    (.error (.runtimeError "SpecRhythm scheduler has no free request slots"), s)
  else if hs : ∀ x ∈ sloTpotMs, 0 < x then
    if hm : ∀ n ∈ maxGamma, 0 < n then
      let state : SpecRhythmRuntimeState :=
        { requestIndex := i, homeBatchId := homeBatchId.getD s.defaultHome, sloTpotMs := sloTpotMs, maxGamma := maxGamma,
          sloTpotMs_pos := hs, maxGamma_pos := hm }
      (.ok state, { s with
        active := s.active ++ [i]
        controller := { s.controller with requestStates := Function.update s.controller.requestStates i (some state) } })
    else (.error (.valueError "SpecRhythm per-request max gamma must be positive."), s)
  else (.error (.valueError "SpecRhythm TPOT SLO must be positive when supplied."), s)

def preempt (s : SpecRhythmScheduler) (i : Nat) : Except PyError Unit × SpecRhythmScheduler :=
  if (s.controller.requestStates i).isNone then (.error (.keyError (toString i)), s)
  else (.ok (), { s with controller := s.controller.invalidateRequest i, active := s.active.filter (· ≠ i) })

def reactivate (s : SpecRhythmScheduler) (i : Nat) : Except PyError Unit × SpecRhythmScheduler :=
  if (s.controller.requestStates i).isNone then (.error (.keyError (toString i)), s)
  else if i ∈ s.active then (.ok (), s)
  else if s.maxNumSeqs ≤ s.active.length then
    (.error (.runtimeError "SpecRhythm scheduler has no free request slots"), s)
  else (.ok (), { s with active := s.active ++ [i] })

def remove (s : SpecRhythmScheduler) (i : Nat) : Except PyError Unit × SpecRhythmScheduler :=
  match s.preempt i with
  | (.error e, s) => (.error e, s)
  | (.ok (), s) => (.ok (), { s with
      controller := { s.controller with requestStates := Function.update s.controller.requestStates i none } })

def schedule (s : SpecRhythmScheduler) (projectedWaitMs : ℚ) (contextLen : Nat) (draftTokenBudget : Option Int := none)
    (batchSize : Option Nat := none) : Except PyError SpecRhythmSchedule × SpecRhythmScheduler :=
  match s.controller.buildPlan s.active with
  | .error e => (.error e, s)
  | .ok (execution, controller) =>
    let s := { s with controller := controller }
    match s.shaper.shape execution.planId execution.normalDraftRequestIndices execution.eagerCandidateIndices
        controller.requestStates projectedWaitMs contextLen draftTokenBudget batchSize with
    | .error e => (.error e, s)
    | .ok budget => (.ok ⟨execution, budget⟩, s)

def onController {α : Type} (s : SpecRhythmScheduler)
    (f : SpecRhythmPipelineController → Except PyError α × SpecRhythmPipelineController) :
    Except PyError α × SpecRhythmScheduler :=
  ((f s.controller).1, { s with controller := (f s.controller).2 })

end SpecRhythmScheduler

end VllmAscend
