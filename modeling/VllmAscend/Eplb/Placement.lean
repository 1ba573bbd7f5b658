import Mathlib.Data.Fintype.Basic
import VllmAscend.Lib.Python

/-!
# Expert placements and the plan of a weight update

`EplbWorker` between the policy's answer and the queue. A map gives for each
expert of a rank its slot, a placement for each slot its expert, both with `-1`
(`none`) where there is none.
-/

namespace VllmAscend.Eplb

open Python

abbrev Table := List (Option Nat)

variable {n : Nat}

/-- `full(-1)` of a width, then at each entry of the row its position. -/
def invert (width : Nat) (row : Table) : Table :=
  row.zipIdx.foldl (fun out entry => entry.1.elim out fun v => out.set v (some entry.2)) (List.replicate width none)

def global2local (numLocalExperts : Nat) (maps : Fin n → Table) : Fin n → Table :=
  fun rank => invert numLocalExperts (maps rank)

def allEntries (layer : Fin n → Table) : Table :=
  (List.finRange n).flatMap layer

def globalWidth (placement : List (Fin n → Table)) : Except PyError Nat :=
  match placement.flatMap allEntries with
  | [] => throw (.runtimeError "max(): Expected reduction dim to be specified for input.numel() == 0.")
  | entries => pure (entries.foldl (fun width entry => max width (entry.elim 0 (· + 1))) 0)

def local2global (placement : List (Fin n → Table)) : Except PyError (List (Fin n → Table)) := do
  let width ← globalWidth placement
  pure (placement.map fun layer rank => invert width (layer rank))

/-! ## The check -/

def numUnique (entries : Table) : Nat :=
  entries.dedup.length

def rankValid (old new : Table) : Bool :=
  new.length = numUnique new && ((new.zip old).filter fun slot => slot.1 ∈ old).all fun slot => slot.1 = slot.2

def checkLayer (old new : Fin n → Table) : Fin n → Table :=
  if numUnique (allEntries new) < numUnique (allEntries old) then old
  else if ∀ rank, rankValid (old rank) (new rank) then new
  else old

def checkExpertPlacement (old new : List (Fin n → Table)) : List (Fin n → Table) :=
  List.zipWith checkLayer old new

/-! ## The plan -/

/-- The cells of two maps that `torch.where` lists. -/
def cells (p : Option Nat → Option Nat → Bool) (current updated : Fin n → Table) : List (Fin n × Nat) :=
  (List.finRange n).flatMap fun rank =>
    ((List.range (current rank).length).filter fun expert =>
      p ((current rank).getD expert none) ((updated rank).getD expert none)).map fun expert => (rank, expert)

def firstRank (ranks : List (Fin n × Nat)) (expert : Nat) : Option (Fin n) :=
  (ranks.find? fun cell => cell.2 = expert).map Prod.fst

structure UpdateInfo (n : Nat) where
  sendInfo : List (Fin n × List (Fin n × Nat)) := []
  recvInfo : List (Fin n × List (Fin n × Nat)) := []
  newExpertMap : Fin n → Table
  layerId : Nat

def sourceOf (current updated : Fin n → Table) (expert : Nat) : Except PyError (Fin n) :=
  match firstRank (cells (fun c u => c.isSome && u.isNone) current updated) expert with
  | some src => pure src
  | none =>
    match firstRank (cells (fun c _ => c.isSome) current updated) expert with
    | some src => pure src
    | none => throw (.keyError (toString expert))

def addTransfer (current : Fin n → Table) (info : UpdateInfo n) (cell : Fin n × Nat) :
    Except PyError (UpdateInfo n) := do
  let src ← sourceOf current info.newExpertMap cell.2
  pure { info with
    sendInfo := dictAppend src cell info.sendInfo
    recvInfo := dictAppend cell.1 (src, cell.2) info.recvInfo }

def transfers (current updated : Fin n → Table) : List (Fin n × Nat) :=
  cells (fun c u => c.isNone && u.isSome) current updated

def composeLayer (updated current : Fin n → Table) (layerId : Nat) : Except PyError (UpdateInfo n) :=
  if updated = current then pure { newExpertMap := updated, layerId }
  else if ∃ rank, (current rank).length ≠ (updated rank).length then
    throw (.runtimeError "The size of tensor a must match the size of tensor b at non-singleton dimension 1")
  else (transfers current updated).foldlM (addTransfer current) { newExpertMap := updated, layerId }

def composeExpertUpdateInfoGreedy (updatedMaps currentMaps : List (Fin n → Table)) :
    Except PyError (List (UpdateInfo n)) :=
  (updatedMaps.zip currentMaps).zipIdx.mapM fun ((updated, current), layerId) => composeLayer updated current layerId

def doUpdate (numLocalExperts : Nat) (oldMaps newPlacement : List (Fin n → Table)) :
    Except PyError (List (Fin n → Table) × List (UpdateInfo n)) := do
  let oldPlacement := oldMaps.map (global2local numLocalExperts)
  let newMaps ← local2global (checkExpertPlacement oldPlacement newPlacement)
  let plan ← composeExpertUpdateInfoGreedy newMaps oldMaps
  pure (newMaps, plan)

/-! ## What the queue takes to a rank -/

structure PackedInfo (n : Nat) where
  sendInfo : List (Fin n × Nat)
  recvInfo : List (Fin n × Nat)
  expertMap : Table
  layerId : Nat

def packUpdateInfo (rank : Fin n) (info : UpdateInfo n) : PackedInfo n where
  sendInfo := listAt rank info.sendInfo
  recvInfo := listAt rank info.recvInfo
  expertMap := info.newExpertMap rank
  layerId := info.layerId

end VllmAscend.Eplb
