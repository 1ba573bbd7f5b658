import VllmAscend.Lib.Ragged
import VllmAscend.Pearl.Tree

/-!
# Verifying a tree in the model runner

`_apply_tree_verification_positions` and `_build_tree_verification_mask` of
`model_runner_v1.py`: the positions of a request's root and of the nodes that
were scheduled for it, and the mask they attend through.
-/

namespace VllmAscend.Worker

open Python Forest List

/-- A request of the batch; `scheduledNodes` counts its entry in `scheduled_spec_decode_tokens`. -/
structure VerifyRequest where
  scheduledNodes : Option Nat
  numScheduledTokens : Nat
  optimisticSeqLen : Nat
  covers : ∀ n ∈ scheduledNodes, n + 1 ≤ numScheduledTokens
  computed : numScheduledTokens ≤ optimisticSeqLen

def VerifyRequest.prefixLen (req : VerifyRequest) : Nat := req.optimisticSeqLen - req.numScheduledTokens

structure TreeRunner where
  width : Nat
  depth : Nat
  maxModelLen : Nat
  makeSpineFirstTreeParents : List Int
  width_pos : 1 ≤ width
  depth_pos : 1 ≤ depth

namespace TreeRunner
variable (r : TreeRunner)

def numNodes : Nat := r.width * r.depth

def nodePositions : List Nat :=
  List.range' 1 r.depth ++ (List.range' 1 r.depth).flatMap fun level => List.replicate (r.width - 1) level

def writePositions (req : VerifyRequest) (n queryEnd : Nat) (positions : Nat → Int) (token : Nat) : Int :=
  let queryStart := queryEnd - n - 1
  let rootPosition : Int := req.optimisticSeqLen - (n + 1 : Nat)
  if queryStart ≤ token ∧ token < queryEnd then
    rootPosition + ((0 :: r.nodePositions.take n).getD (token - queryStart) 0 : Nat)
  else positions token

def applyTreeVerificationPositions : Nat → List VerifyRequest → (Nat → Int) → Except PyError (Nat → Int)
  | _, [], positions => .ok positions
  | offset, req :: reqs, positions =>
    let queryEnd := offset + req.numScheduledTokens
    match req.scheduledNodes with
    | none => applyTreeVerificationPositions queryEnd reqs positions
    | some n =>
      if n < 1 ∨ r.numNodes < n then .error (.valueError "scheduled tree node count exceeds configured shape")
      else applyTreeVerificationPositions queryEnd reqs (r.writePositions req n queryEnd positions)

def requestMask (req : VerifyRequest) : Except PyError (List (List Bool)) :=
  match req.scheduledNodes with
  | none => .ok ((List.range req.numScheduledTokens).map fun row => prefixRow (req.prefixLen + row + 1) r.maxModelLen)
  | some n =>
    if n < 1 ∨ r.numNodes < n ∨ req.numScheduledTokens ≠ n + 1 then
      .error (.valueError "scheduled tree query length exceeds configured shape")
    else maskRows r.makeSpineFirstTreeParents n req.prefixLen r.maxModelLen

/-- Rows of a shorter query are filled up with blocked ones. -/
def padded (maxQueryLen : Nat) (rows : List (List Bool)) : List (List Bool) :=
  rows ++ List.replicate (maxQueryLen - rows.length) (List.replicate r.maxModelLen true)

def maxQueryLen (reqs : List VerifyRequest) : Nat := (reqs.map (·.numScheduledTokens)).foldl max 0

/-- `mask[:, 0]`. -/
def buildTreeVerificationMask (reqs : List VerifyRequest) : Except PyError (Option (List (List (List Bool)))) := do
  if reqs.all (·.scheduledNodes.isNone) then return none
  let masks ← reqs.mapM r.requestMask
  return some (masks.map (r.padded (maxQueryLen reqs)))

def Takes (req : VerifyRequest) : Prop :=
  req.optimisticSeqLen ≤ r.maxModelLen ∧
    ∀ n ∈ req.scheduledNodes, 1 ≤ n ∧ n ≤ r.numNodes ∧ req.numScheduledTokens = n + 1

/-- Positions and mask of one request describe the first `n` nodes of the tree; `first` is its first token. -/
structure Describes (req : VerifyRequest) (n first : Nat) (positions : Nat → Int) (rows : List (List Bool)) : Prop where
  root : positions first = req.prefixLen
  node : ∀ i < n, ∃ p : Int, (spineFirstParents r.width r.depth)[i]? = some p ∧ -1 ≤ p ∧ p < i ∧
    positions (first + (i + 1)) = positions (first + (p + 1).toNat) + 1
  mask : Admitting (spineFirstParents r.width r.depth) n req.prefixLen r.maxModelLen (rows.take (n + 1))

section
variable {r} {req : VerifyRequest} {reqs : List VerifyRequest} {n off : Nat} {pos : Nat → Int}

theorem level_at (hn : n ≤ r.numNodes) (hi : i < n) : ∃ p ≤ i,
    (spineFirstParents r.width r.depth)[i]? = some ((p : Int) - 1) ∧
      (0 :: r.nodePositions.take n).getD (i + 1) 0 = (0 :: r.nodePositions.take n).getD p 0 + 1 := by
  obtain ⟨level, hl, hp⟩ := exists_parent r.width_pos r.depth_pos (hi.trans_le hn)
  obtain ⟨h1, hd, hle⟩ := level_bounds hl
  have hat : ∀ {k m}, k < n → (nodeLevels r.width r.depth)[k]? = some m →
      (0 :: r.nodePositions.take n).getD (k + 1) 0 = m := fun hk hm => by
    rw [getD_cons_succ, getD_eq_getElem?_getD, getElem?_take_of_lt hk]
    exact congrArg (·.getD 0) hm
  refine ⟨level - 1, by omega, hp.trans (congrArg some (by omega)), (hat hi hl).trans ?_⟩
  -- the parent is the spine's node one level up, or the root
  obtain ⟨k, rfl⟩ := Nat.exists_eq_add_of_le' h1
  cases k with
  | zero => rfl
  | succ k => rw [Nat.add_sub_cancel, hat (by omega) (level_spine (by omega))]

theorem writePositions_at (hq : req.numScheduledTokens = n + 1) (hj : j ≤ n) :
    r.writePositions req n (off + req.numScheduledTokens) pos (off + j) =
      req.prefixLen + ((0 :: r.nodePositions.take n).getD j 0 : Nat) := by
  have hc := req.computed
  have hs : off + req.numScheduledTokens - n - 1 = off := by omega
  have hr : (req.prefixLen : Int) = req.optimisticSeqLen - (n + 1 : Nat) := by
    rw [VerifyRequest.prefixLen]
    omega
  rw [writePositions, hs, hr, if_pos (by omega), Nat.add_sub_cancel_left]

def Placed (r : TreeRunner) (reqs : List VerifyRequest) (offset : Nat) (positions positions' : Nat → Int) : Prop :=
  (∀ token < offset, positions' token = positions token) ∧
  ∀ i req n, reqs[i]? = some req → req.scheduledNodes = some n → ∀ j ≤ n,
    positions' (offset + Ragged.start (reqs.map (·.numScheduledTokens)) i + j) =
      req.prefixLen + ((0 :: r.nodePositions.take n).getD j 0 : Nat)

theorem Placed.cons {own positions' : Nat → Int} (h : r.Placed reqs (off + req.numScheduledTokens) own positions')
    (hk : ∀ token < off, own token = pos token)
    (ho : ∀ n, req.scheduledNodes = some n → ∀ j ≤ n,
      own (off + j) = req.prefixLen + ((0 :: r.nodePositions.take n).getD j 0 : Nat)) :
    r.Placed (req :: reqs) off pos positions' := by
  refine ⟨fun token hlt => (h.1 token (by omega)).trans (hk token hlt), fun i req' n hi hn j hj => ?_⟩
  cases i with
  | zero =>
    cases hi
    have := req.covers n hn
    rw [Ragged.start, take_zero, sum_nil, Nat.add_zero, h.1 _ (by omega), ho n hn j hj]
  | succ i =>
    rw [map_cons, Ragged.start_cons_succ, ← Nat.add_assoc]
    exact h.2 i req' n hi hn j hj

theorem applyTreeVerificationPositions_ok : ∀ (reqs : List VerifyRequest) (off : Nat) (pos : Nat → Int),
    (∀ req ∈ reqs, r.Takes req) → ∃ positions',
      r.applyTreeVerificationPositions off reqs pos = .ok positions' ∧ r.Placed reqs off pos positions'
  | [], _, pos, _ => ⟨pos, rfl, fun _ _ => rfl, by simp⟩
  | req :: reqs, off, pos, h => by
    obtain ⟨ht, hs⟩ := forall_mem_cons.mp h
    rw [applyTreeVerificationPositions]
    cases hn : req.scheduledNodes with
    | none =>
      obtain ⟨positions', hok, hp⟩ := applyTreeVerificationPositions_ok reqs _ pos hs
      exact ⟨positions', hok, hp.cons (fun _ _ => rfl) fun n h => by rw [hn] at h; cases h⟩
    | some n =>
      obtain ⟨h1, hle, hq⟩ := ht.2 n hn
      obtain ⟨positions', hok, hp⟩ := applyTreeVerificationPositions_ok reqs (off + req.numScheduledTokens)
        (r.writePositions req n (off + req.numScheduledTokens) pos) hs
      simp only [if_neg (show ¬ (n < 1 ∨ r.numNodes < n) by omega)]
      refine ⟨positions', hok, hp.cons (fun token hlt => if_neg (by omega)) fun n' h' j hj => ?_⟩
      cases hn.symm.trans h'
      exact writePositions_at hq hj

theorem requestMask_ok (hv : r.makeSpineFirstTreeParents = spineFirstParents r.width r.depth) (ht : r.Takes req) :
    ∃ rows, r.requestMask req = .ok rows ∧ ∀ n, req.scheduledNodes = some n →
      Admitting (spineFirstParents r.width r.depth) n req.prefixLen r.maxModelLen rows := by
  rw [requestMask]
  cases hn : req.scheduledNodes with
  | none => exact ⟨_, rfl, fun _ h => by cases h⟩
  | some n =>
    obtain ⟨h1, hle, hq⟩ := ht.2 n hn
    have hc := req.computed
    have hfit : req.prefixLen + n < r.maxModelLen := by
      have := ht.1
      rw [VerifyRequest.prefixLen]
      omega
    obtain ⟨rows, hok, ha⟩ := maskRows_ok (wellFormed_parents r.depth_pos)
      (hle.trans (length_parents r.width_pos r.depth_pos).ge) hfit
    simp only [hv, if_neg (show ¬ (n < 1 ∨ r.numNodes < n ∨ req.numScheduledTokens ≠ n + 1) by omega)]
    exact ⟨rows, hok, fun n' h' => by cases h'; exact ha⟩

end

/-- In every batch whose requests fit the shape, positions and mask describe the tree of the spine-first parents. -/
theorem tree_layouts_agree (hv : r.makeSpineFirstTreeParents = spineFirstParents r.width r.depth) :
    (∀ m, WellFormed ((spineFirstParents r.width r.depth).take m)) ∧
    ∀ (reqs : List VerifyRequest) (positions : Nat → Int), (∀ req ∈ reqs, r.Takes req) →
      ∃ positions', r.applyTreeVerificationPositions 0 reqs positions = .ok positions' ∧
        ∀ i req n, reqs[i]? = some req → req.scheduledNodes = some n →
          ∃ masks rows, r.buildTreeVerificationMask reqs = .ok (some masks) ∧ masks[i]? = some rows ∧
            r.Describes req n (Ragged.start (reqs.map (·.numScheduledTokens)) i) positions' rows := by
  refine ⟨fun m i p hp => @wellFormed_parents r.width _ r.depth_pos i p ?_, fun reqs positions h => ?_⟩
  · rw [getElem?_take] at hp
    split at hp
    · exact hp
    · cases hp
  obtain ⟨positions', hok, -, hat⟩ := applyTreeVerificationPositions_ok reqs 0 positions h
  obtain ⟨masks, hms, hall⟩ := mapM_forall₂ fun req hm => requestMask_ok hv (h req hm)
  refine ⟨positions', hok, fun i req n hi hn => ?_⟩
  obtain ⟨-, hle, -⟩ := (h req (mem_of_getElem? hi)).2 n hn
  have hat := hat i req n hi hn
  rw [Nat.zero_add] at hat
  have hlt : i < masks.length := hall.length_eq ▸ lt_of_getElem? hi
  have hrow := getElem?_eq_getElem hlt
  have ha := forall₂_getElem? hall i req _ hi hrow n hn
  have hb : r.buildTreeVerificationMask reqs = .ok (some (masks.map (r.padded (maxQueryLen reqs)))) := by
    have hany : ¬ reqs.all (·.scheduledNodes.isNone) = true := fun hno => by
      have := all_eq_true.mp hno req (mem_of_getElem? hi)
      rw [hn] at this
      cases this
    simp only [buildTreeVerificationMask, if_neg hany, hms]
    rfl
  refine ⟨_, _, hb, by rw [getElem?_map, hrow]; rfl, by simpa using hat 0 n.zero_le, fun k hk => ?_, ?_⟩
  · obtain ⟨p, hle, hpar, hl⟩ := level_at hle hk
    refine ⟨_, hpar, by omega, by omega, ?_⟩
    rw [hat (k + 1) hk, show ((p : Int) - 1 + 1).toNat = p by omega, hat p (by omega), hl, Nat.cast_succ, Int.add_assoc]
  · rwa [padded, take_append_of_le_length ha.length.ge, take_of_length_le ha.length.le]

def pairRunner : TreeRunner := ⟨2, 2, 16, [-1, 0, -1, 0], one_le_two, one_le_two⟩

def plainRequest : VerifyRequest := ⟨none, 2, 9, by simp, by decide⟩

def treeRequest : VerifyRequest := ⟨some 3, 4, 10, by simp, by decide⟩

theorem tree_layouts_agree_pair : ∃ positions masks rows,
    pairRunner.applyTreeVerificationPositions 0 [plainRequest, treeRequest] (fun _ => 0) = .ok positions ∧
      pairRunner.buildTreeVerificationMask [plainRequest, treeRequest] = .ok (some masks) ∧ masks[1]? = some rows ∧
      pairRunner.Describes treeRequest 3 2 positions rows := by
  obtain ⟨positions, hok, h⟩ := (tree_layouts_agree pairRunner (by decide)).2 [plainRequest, treeRequest] (fun _ => 0)
    (by simp [Takes, plainRequest, treeRequest, pairRunner, numNodes])
  obtain ⟨masks, rows, hb, hr, hd⟩ := h 1 treeRequest 3 rfl rfl
  exact ⟨positions, masks, rows, hok, hb, hr, hd⟩

end TreeRunner
end VllmAscend.Worker
