import Mathlib.Data.List.Range
import VllmAscend.Lib.Python

/-!
# The EPLB cycle

`EplbUpdator`: one counter that runs through the collection of expert heat, the
execution of the algorithm and the update of one MoE layer a forward, and the
intervals as `EplbConfig` checks them.
-/

namespace VllmAscend.Eplb

open Python

structure EplbConfig where
  expertHeatCollectionInterval : Int := 600
  algorithmExecutionInterval : Int := 50
  numRedundantExperts : Int := 0
  eplbPolicyType : Int := 2
  eplbHeatCollectionStage : String := "all"

namespace EplbConfig

def validateInterval (key : String) (value : Int) : Except PyError Unit :=
  if value < 0 then throw (.valueError (key ++ " must greater than 0; got " ++ toString value ++ " instead"))
  else pure ()

def validate (cfg : EplbConfig) : Except PyError Unit := do
  validateInterval "expert_heat_collection_interval" cfg.expertHeatCollectionInterval
  validateInterval "algorithm_execution_interval" cfg.algorithmExecutionInterval
  validateInterval "num_redundant_experts" cfg.numRedundantExperts
  if cfg.eplbPolicyType ∉ ([0, 1, 2, 3] : List Int) then
    throw (.valueError "eplb_policy_type must in [0, 1, 2, 3]")
  if cfg.eplbHeatCollectionStage ∉ ["all", "prefill", "decode"] then
    throw (.valueError "eplb_heat_collection_stage must be one of [\"all\", \"prefill\", \"decode\"]")

end EplbConfig

inductive Fault where
  | blocked
  | raised (e : PyError)
deriving DecidableEq

inductive UpdatorEvent where
  | wakeup
  | get
  | pop (layer : Nat)
  | reset
deriving DecidableEq

/-- `wakeups` are the tokens in `planner_q` not yet answered, `updateInfoAll` the layers of the entries left. -/
structure Updator where
  curIterations : Int := 0
  updateInfoAll : List Nat := []
  wakeups : Nat := 0
deriving DecidableEq

namespace Updator

section
variable (cfg : EplbConfig) (numMoeLayers : Nat)

def getUpdateInfoFlag (u : Updator) : Bool :=
  u.curIterations = cfg.expertHeatCollectionInterval + cfg.algorithmExecutionInterval - 1

def wakeupEplbWorkerFlag (u : Updator) : Bool :=
  u.curIterations = cfg.expertHeatCollectionInterval - 1

def updateExpertWeightFlag (u : Updator) : Bool :=
  let weightUpdateCounter := u.curIterations - (cfg.expertHeatCollectionInterval + cfg.algorithmExecutionInterval)
  0 ≤ weightUpdateCounter && weightUpdateCounter < numMoeLayers

def updateIteration (u : Updator) : Updator × List UpdatorEvent :=
  if u.curIterations + 1 =
      cfg.expertHeatCollectionInterval + cfg.algorithmExecutionInterval + numMoeLayers then
    ({ u with curIterations := 0 }, [.reset])
  else ({ u with curIterations := u.curIterations + 1 }, [])

def takeInfo (u : Updator) : Except Fault (Updator × List UpdatorEvent) :=
  if u.getUpdateInfoFlag cfg then
    match u.wakeups with
    | 0 => .error .blocked
    | wakeups + 1 => .ok ({ u with updateInfoAll := List.range numMoeLayers, wakeups }, [.get])
  else .ok (u, [])

def popInfo (u : Updator) : Except Fault (Updator × List UpdatorEvent) :=
  if u.updateExpertWeightFlag cfg numMoeLayers then
    match u.updateInfoAll with
    | [] => .error (.raised (.indexError "pop from empty list"))
    | layer :: rest => .ok ({ u with updateInfoAll := rest }, [.pop layer])
  else .ok (u, [])

def forwardBefore (u : Updator) : Except Fault (Updator × List UpdatorEvent) := do
  let (u, taken) ← u.takeInfo cfg numMoeLayers
  let (u, popped) ← u.popInfo cfg numMoeLayers
  pure (u, taken ++ popped)

def forwardEnd (u : Updator) (eplbHeatCollectionStatus : Bool) : Updator × List UpdatorEvent :=
  let (u, woken) := if u.wakeupEplbWorkerFlag cfg then ({ u with wakeups := u.wakeups + 1 }, [.wakeup]) else (u, [])
  if cfg.expertHeatCollectionInterval - 1 ≤ u.curIterations ∨ eplbHeatCollectionStatus then
    let (u, ended) := u.updateIteration cfg numMoeLayers
    (u, woken ++ ended)
  else (u, woken)

def forward (u : Updator) (eplbHeatCollectionStatus : Bool) : Except Fault (Updator × List UpdatorEvent) := do
  let (u, before) ← u.forwardBefore cfg numMoeLayers
  let (u, after) := u.forwardEnd cfg numMoeLayers eplbHeatCollectionStatus
  pure (u, before ++ after)

def run (u : Updator) : List Bool → Except Fault (Updator × List UpdatorEvent)
  | [] => .ok (u, [])
  | status :: statuses => do
    let (u, events) ← u.forward cfg numMoeLayers status
    let (u, rest) ← run u statuses
    pure (u, events ++ rest)

end

end Updator

end VllmAscend.Eplb
