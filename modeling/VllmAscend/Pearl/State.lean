import Mathlib.Data.Finset.Basic
import VllmAscend.Lib.Python

/-!
# The pipeline state of one request

`PearlPipelineState` of `native_engine.py`: the tokens of a request with the
length that is committed, the verification transition on either model group, and
the tests that end a request and cut its completion.
-/

namespace VllmAscend

open Python

structure PearlPipelineState where
  tokenIds : List Int
  promptLength : Nat
  preVerify : Bool := true
  acceptedDraftTokens : Nat := 0
  verifiedDraftTokens : Nat := 0
  verificationRounds : Nat := 0
  committedLength : Nat
  temperature : ℚ := 0
  draftTemperature : ℚ := 0
  maxTokens : Nat := 64
  ignoreEos : Bool := false
  numAccTokens : List Nat := []
  curAccTokens : Nat := 0
  pendingWindowSize : Nat := 0
  continuationEpoch : Nat := 0
deriving DecidableEq

structure NativeSamplingParams where
  temperature : ℚ := 1
  draftTemperature : ℚ := 0
  maxTokens : Nat := 64
  ignoreEos : Bool := false
  sloTpotMs : Option ℚ := none
  specRhythmMaxGamma : Option Nat := none
  arrivalTs : Option ℚ := none
  temperature_nonneg : 0 ≤ temperature
  draftTemperature_nonneg : 0 ≤ draftTemperature
  maxTokens_pos : 0 < maxTokens
  sloTpotMs_pos : ∀ x, sloTpotMs = some x → 0 < x := by first | exact noneRat_pos | simp
  specRhythmMaxGamma_pos : ∀ n, specRhythmMaxGamma = some n → 0 < n := by first | exact noneNat_pos | simp

namespace PearlPipelineState

def new (tokens : List Int) (params : NativeSamplingParams) : PearlPipelineState where
  tokenIds := tokens
  promptLength := tokens.length
  committedLength := tokens.length
  temperature := params.temperature
  draftTemperature := params.draftTemperature
  maxTokens := params.maxTokens
  ignoreEos := params.ignoreEos

def extend (s : PearlPipelineState) (tokens : List Int) : PearlPipelineState :=
  { s with tokenIds := s.tokenIds ++ tokens }

def commitToken (s : PearlPipelineState) (token : Int) : PearlPipelineState :=
  { s with tokenIds := s.tokenIds ++ [token], committedLength := s.committedLength + 1 }

def committedCompletionTokenIds (s : PearlPipelineState) : List Int :=
  (s.tokenIds.take s.committedLength).drop s.promptLength

/-- `1 if pre_verify else (pending_window_size or gamma)`. -/
def windowSize (s : PearlPipelineState) (gamma : Nat) : Nat :=
  if s.preVerify then 1 else if s.pendingWindowSize = 0 then gamma else s.pendingWindowSize

def verificationSize (s : PearlPipelineState) (gamma : Nat) (size : Option Nat) : Except PyError Nat :=
  let expected :=
    if s.preVerify then 1
    else match size with
      | some n => n
      | none => if s.pendingWindowSize = 0 then gamma else s.pendingWindowSize
  if expected = 0 ∨ gamma < expected then
    .error (.valueError "PEARL verification size must be in [1, gamma].")
  else .ok expected

def validateVerification (gamma expected : Nat) (accepted : Int) (correction : Option Int) (next : List Int) :
    Except PyError Unit :=
  if next.length = 0 ∨ gamma < next.length then
    .error (.valueError "Every PEARL next-round window must contain 1..gamma draft tokens.")
  else if accepted < 0 ∨ (expected : Int) < accepted then
    .error (.valueError "PEARL accepted length is outside the verification window.")
  else if accepted = expected ∧ correction.isSome then
    .error (.valueError "A fully accepted PEARL window cannot include a correction token.")
  else if accepted < expected ∧ correction = none then
    .error (.valueError "A rejected PEARL window requires a target correction token.")
  else .ok ()

def recordVerdict (s : PearlPipelineState) (expected accepted : Nat) : PearlPipelineState :=
  { s with
    committedLength := s.committedLength + (accepted + if accepted < expected then 1 else 0)
    acceptedDraftTokens := s.acceptedDraftTokens + accepted
    verifiedDraftTokens := s.verifiedDraftTokens + expected
    verificationRounds := s.verificationRounds + 1
    continuationEpoch := s.continuationEpoch + 1
    numAccTokens := if accepted = expected then s.numAccTokens else s.numAccTokens ++ [s.curAccTokens + accepted + 1]
    curAccTokens := if accepted = expected then s.curAccTokens + accepted else 0 }

def rollback (preVerify : Bool) (expected accepted : Nat) (tokens : List Int) : List Int :=
  if !preVerify ∧ 1 < expected - accepted then delLast (expected - accepted - 1) tokens else tokens

def applyVerification (onAccept onReject : List Int → List Int) (s : PearlPipelineState) (gamma : Nat) (accepted : Int)
    (correction : Option Int) (next : List Int) (size : Option Nat) : Except PyError PearlPipelineState := do
  let expected ← s.verificationSize gamma size
  validateVerification gamma expected accepted correction next
  let a := accepted.toNat
  let s' := s.recordVerdict expected a
  if a = expected then
    return { s' with tokenIds := onAccept s.tokenIds, preVerify := false, pendingWindowSize := next.length }
  else
    let kept := rollback s.preVerify expected a (onReject s.tokenIds)
    return { s' with tokenIds := kept ++ correction.toList, preVerify := true, pendingWindowSize := 0 }

def applyTargetVerification (s : PearlPipelineState) (gamma : Nat) (accepted : Int) (correction : Option Int)
    (next : List Int) (size : Option Nat := none) : Except PyError PearlPipelineState :=
  applyVerification (· ++ next) id s gamma accepted correction next size

def applyDraftVerification (s : PearlPipelineState) (gamma : Nat) (accepted : Int) (correction : Option Int)
    (next : List Int) (size : Option Nat := none) : Except PyError PearlPipelineState :=
  applyVerification id (delLast next.length) s gamma accepted correction next size

end PearlPipelineState

def finished (eos : Finset Int) (s : PearlPipelineState) : Bool :=
  let completion := s.committedCompletionTokenIds
  s.maxTokens ≤ completion.length || (!s.ignoreEos && completion.any (· ∈ eos))

def truncateCompletion (eos : Finset Int) (maxTokens : Nat) (ignoreEos : Bool) (completion : List Int) : List Int :=
  let truncated := completion.take maxTokens
  if ignoreEos then truncated
  else match truncated.findIdx? (· ∈ eos) with
    | some i => truncated.take (i + 1)
    | none => truncated

end VllmAscend
