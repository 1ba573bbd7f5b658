import VllmAscend.Lib.Python
import VllmAscend.Lib.Ragged

/-!
# The SimLLM patch of the model runner

A step of the runner as the patch sees it. The scheduler's output lists running
and new requests; a new one that resembles a cached task is matched.
-/

namespace VllmAscend.SimLlm

open Python

/-! ## The scheduler's output and the batch -/

structure CachedReq where
  reqId : Nat
  numComputedTokens : Nat
  numScheduledTokens : Nat
  resumed : Bool := false
deriving DecidableEq, Repr

structure NewReq where
  reqId : Nat
  promptLen : Nat
  numComputedTokens : Nat
  numScheduledTokens : Nat
deriving DecidableEq, Repr

structure SchedulerOutput where
  cachedReqs : List CachedReq
  newReqs : List NewReq
deriving DecidableEq, Repr

structure Entry where
  reqId : Nat
  numComputedTokens : Nat
  numScheduledTokens : Nat
deriving DecidableEq, Repr

def CachedReq.entry (r : CachedReq) : Entry := ⟨r.reqId, r.numComputedTokens, r.numScheduledTokens⟩

def NewReq.entry (r : NewReq) : Entry := ⟨r.reqId, r.numComputedTokens, r.numScheduledTokens⟩

/-- `_update_states`: new requests go behind the running ones. -/
def SchedulerOutput.batch (out : SchedulerOutput) : List Entry :=
  out.cachedReqs.map CachedReq.entry ++ out.newReqs.map NewReq.entry

def queryStart (batch : List Entry) (i : Nat) : Nat := Ragged.start (batch.map Entry.numScheduledTokens) i

/-- `_prepare_inputs`: the batch index of each row and its position. -/
def batchRows (batch : List Entry) : List (Nat × Nat) :=
  (Ragged.cells (batch.map Entry.numScheduledTokens)).map fun (i, j) =>
    (i, (batch.map Entry.numComputedTokens).getD i 0 + j)

/-! ## Matches -/

structure CachedKv (κ : Type*) where
  k : List κ
  v : List κ
  sameLength : v.length = k.length

structure MatchResult (κ : Type*) where
  matched : Bool
  cached : Option (CachedKv κ)

def MatchResult.covered {κ : Type*} (m : MatchResult κ) (promptLen : Nat) : Option Nat :=
  if m.matched then m.cached.map fun c => min c.k.length promptLen else none

section
variable {κ : Type*}

def MatchResult.rewrite (m : MatchResult κ) (r : NewReq) : NewReq :=
  match m.covered r.promptLen with
  | none => r
  | some covered => if covered ≤ 1 then r else { r with numComputedTokens := covered - 1 }

def rewriteSchedulerOutput (matchResults : List (Nat × MatchResult κ)) (out : SchedulerOutput) : SchedulerOutput :=
  { out with newReqs := matchResults.foldl (fun reqs item => reqs.modify item.1 item.2.rewrite) out.newReqs }

/-! ## Injection -/

structure Injection (κ : Type*) where
  kFlat : List κ
  vFlat : List κ
  tokStart : Nat
  covered : Nat

def alignLength [Zero κ] (rows : List κ) (targetLen : Nat) : List κ :=
  rows.take targetLen ++ List.replicate (targetLen - rows.length) 0

def injectionOf [Zero κ] (newReqs : List NewReq) (b : Nat) (m : MatchResult κ) : Option (Injection κ) :=
  if m.matched then
    match m.cached, newReqs[b]? with
    | some c, some r =>
      let covered := min c.k.length r.promptLen
      if covered = 0 then none
      else some ⟨alignLength c.k covered, alignLength c.v covered, Ragged.start (newReqs.map NewReq.promptLen) b, covered⟩
    | _, _ => none
  else none

def buildInjectionMap [Zero κ] (matchResults : List (Nat × MatchResult κ)) (newReqs : List NewReq) :
    List (Nat × Injection κ) :=
  matchResults.filterMap fun (b, m) => (injectionOf newReqs b m).map (b, ·)

/-- `rows[start:stop] = src`: a single source row is broadcast, other lengths have to agree. -/
def setSlice (rows : List κ) (start stop : Nat) (src : List κ) : Except PyError (List κ) :=
  let length := min stop rows.length - min start rows.length
  if src.length = length then .ok (rows.take start ++ src ++ rows.drop stop)
  else
    match src with
    | [a] => .ok (rows.take start ++ List.replicate length a ++ rows.drop stop)
    | _ => .error (.runtimeError "The expanded size of the tensor must match the existing size")

def injectEntry (kv : List κ × List κ) (item : Nat × Injection κ) : Except PyError (List κ × List κ) :=
  if 0 < item.2.covered then do
    let key ← setSlice kv.1 item.2.tokStart (item.2.tokStart + item.2.covered) item.2.kFlat
    let value ← setSlice kv.2 item.2.tokStart (item.2.tokStart + item.2.covered) item.2.vFlat
    .ok (key, value)
  else .ok kv

def injectIntoKv (map : List (Nat × Injection κ)) (kv : List κ × List κ) : Except PyError (List κ × List κ) :=
  map.foldlM injectEntry kv

/-! ## Slots and the cache update -/

structure SandwichConfig where
  numLayers : Nat
  bottomLayers : Nat
  topLayers : Nat
deriving DecidableEq, Repr

def SandwichConfig.keeps (cfg : SandwichConfig) (layer : Nat) : Bool :=
  layer < cfg.bottomLayers || (cfg.numLayers - cfg.topLayers ≤ layer && layer < cfg.numLayers)

def isMatched (matchResults : List (Nat × MatchResult κ)) (i : Nat) : Bool :=
  (dictGet i matchResults).any MatchResult.matched

def clearSlots {σ : Type*} (slots : List (Option σ)) (start stop : Nat) : List (Option σ) :=
  slots.mapIdx fun row slot => if start ≤ row ∧ row < stop then none else slot

/-- In one layer; the slot of a row is the position in its request's blocks. -/
def applySandwichSlots (cfg : SandwichConfig) (matchResults : List (Nat × MatchResult κ)) (batch : List Entry)
    (layer : Nat) (slots : List (Option (Nat × Nat))) : List (Option (Nat × Nat)) :=
  if cfg.keeps layer then slots
  else
    batch.zipIdx.foldl (fun slots (e, i) =>
      if isMatched matchResults i then slots
      else
        let seqLen := e.numComputedTokens + e.numScheduledTokens
        if seqLen = 0 then slots else clearSlots slots (queryStart batch i) (queryStart batch i + seqLen)) slots

def doKvCacheUpdate (map : List (Nat × Injection κ)) (slots : List (Option (Nat × Nat))) (kv : List κ × List κ) :
    Except PyError (List ((Nat × Nat) × κ × κ)) := do
  let kv ← injectIntoKv map kv
  .ok ((slots.zip (kv.1.zip kv.2)).filterMap fun (slot, row) => slot.map (·, row))

end

end VllmAscend.SimLlm
