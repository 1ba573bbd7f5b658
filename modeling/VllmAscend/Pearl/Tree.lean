import VllmAscend.Lib.Forest
import VllmAscend.Rhythm.Shaper

/-!
# Draft trees

A uniform tree laid out with its spine first, and the attention mask over a
prefix, the root and the tree's nodes. The mask is checked for the positions of
the nodes, which are as deep as the tree, and written at their columns, which
are as many as its nodes.
-/

namespace VllmAscend

open Python Forest List

/-! ## The layout -/

def spineFirstParents (width depth : Nat) : List Int :=
  -1 :: (List.range (depth - 1)).map (fun i : Nat => (i : Int)) ++
    (List.range depth).flatMap fun level : Nat => List.replicate (width - 1) (if level = 0 then -1 else (level : Int) - 1)

def makeSpineFirstParents (width depth : Nat) : Except PyError (List Int) :=
  if width < 1 ∨ depth < 1 then .error (.valueError "tree width and depth must be positive")
  else .ok (spineFirstParents width depth)

def nodeLevels (width depth : Nat) : List Nat :=
  List.range' 1 depth ++ (List.range' 1 depth).flatMap fun level => List.replicate (width - 1) level

/-- `mask[row, column] = False`. -/
def unblock (row : List Bool) (column : Nat) : Except PyError (List Bool) :=
  if column < row.length then .ok (row.set column false)
  else .error (.indexError "index is out of bounds for dimension with size")

def prefixRow (prefixLen maxModelLen : Nat) : List Bool :=
  (List.range maxModelLen).map fun column => decide (prefixLen ≤ column)

def maskRow (parents : List Int) (prefixLen maxModelLen node : Nat) : Except PyError (List Bool) :=
  (prefixLen :: (path parents parents.length node).map (prefixLen + · + 1)).foldlM unblock
    (prefixRow prefixLen maxModelLen)

def maskRows (parents : List Int) (nodes prefixLen maxModelLen : Nat) : Except PyError (List (List Bool)) := do
  let root ← unblock (prefixRow prefixLen maxModelLen) prefixLen
  let rows ← (List.range nodes).mapM (maskRow parents prefixLen maxModelLen)
  return root :: rows

def buildTreeAttentionMask (width depth prefixLen maxModelLen : Nat) : Except PyError (List (List Bool)) := do
  if maxModelLen = 0 then throw (.valueError "prefix_len must be non-negative and max_model_len positive")
  if maxModelLen ≤ prefixLen + depth then throw (.valueError "tree query positions exceed max_model_len")
  let parents ← makeSpineFirstParents width depth
  let mask ← maskRows parents parents.length prefixLen maxModelLen
  if (nodeLevels width depth).length ≠ parents.length then throw (.assertionError "")
  return mask

structure TreeSpeculationPlan where
  width : Nat
  depth : Nat
  candidateBudget : Nat
  prefixLen : Nat
  maxModelLen : Nat
  parentIndices : List Int
  positions : List Nat
  attentionMask : List (List Bool)

def TreeSpeculationPlan.postInit (p : TreeSpeculationPlan) : Except PyError TreeSpeculationPlan := do
  if p.candidateBudget < 1 ∨ p.width * p.depth < p.candidateBudget then
    throw (.valueError "candidate_budget must fit inside the configured tree")
  if p.parentIndices.length ≠ p.width * p.depth then throw (.valueError "parent_indices do not match tree shape")
  if p.positions.length ≠ p.width * p.depth + 1 then
    throw (.valueError "positions must include root and every tree node")
  if p.attentionMask.length ≠ p.width * p.depth + 1 ∨ ∃ row ∈ p.attentionMask, row.length ≠ p.maxModelLen then
    throw (.valueError "attention_mask does not match tree shape")
  return p

def buildTreeSpeculationPlan (width depth prefixLen maxModelLen : Nat) (candidateBudget : Option Nat) :
    Except PyError TreeSpeculationPlan := do
  if width < 1 ∨ depth < 1 then throw (.valueError "tree width and depth must be positive")
  let budget := candidateBudget.getD (width * depth)
  if ¬ (1 ≤ budget ∧ budget ≤ width * depth) then
    throw (.valueError "candidate_budget must be in [1, width * depth]")
  let parents ← makeSpineFirstParents width depth
  let mask ← buildTreeAttentionMask width depth prefixLen maxModelLen
  TreeSpeculationPlan.postInit ⟨width, depth, budget, prefixLen, maxModelLen, parents,
    (0 :: nodeLevels width depth).map (· + prefixLen), mask⟩

/-! ## Trees for requests -/

def treeBudgetFromSpecRhythm (plan : SpecRhythmBudgetPlan) (requestIndex width maxDepth : Nat) : Nat :=
  min ((dictGet requestIndex plan.normalBudgets).getD 0 + (dictGet requestIndex plan.eagerBudgets).getD 0)
    (width * maxDepth)

structure SpecRhythmTreeCoordinator where
  width : Nat
  maxDepth : Nat
  width_pos : 1 ≤ width
  maxDepth_pos : 1 ≤ maxDepth

namespace SpecRhythmTreeCoordinator

variable (c : SpecRhythmTreeCoordinator)

def depthFor (budget : Nat) : Nat := min c.maxDepth (max 1 ((budget + c.width - 1) / c.width))

def forRequest (plan : SpecRhythmBudgetPlan) (requestIndex prefixLen maxModelLen : Nat) :
    Except PyError (Option TreeSpeculationPlan) :=
  let budget := treeBudgetFromSpecRhythm plan requestIndex c.width c.maxDepth
  if budget = 0 then .ok none
  else
    let depth := c.depthFor budget
    (buildTreeSpeculationPlan c.width depth prefixLen maxModelLen (some (min budget (c.width * depth)))).map some

end SpecRhythmTreeCoordinator

/-! ## Parents and levels -/

section
variable {width depth : Nat}

theorem parents_eq (hd : 1 ≤ depth) :
    spineFirstParents width depth = (nodeLevels width depth).map fun lvl : Nat => (lvl : Int) - 2 := by
  obtain ⟨d, rfl⟩ := Nat.exists_eq_add_of_le' hd
  rw [spineFirstParents, nodeLevels, map_append, map_flatMap, range'_eq_map_range, flatMap_map, Nat.add_sub_cancel]
  congr 1
  · rw [range_succ_eq_map]
    simp [Function.comp_def]
    omega
  · refine flatMap_congr fun lvl _ => ?_
    rw [map_replicate]
    congr 1
    split <;> omega

theorem length_levels (hw : 1 ≤ width) : (nodeLevels width depth).length = width * depth := by
  obtain ⟨w, rfl⟩ := Nat.exists_eq_add_of_le' hw
  simp [nodeLevels, length_flatMap, Nat.add_mul, Nat.mul_comm w, Nat.add_comm]

theorem level_spine (hi : i < depth) : (nodeLevels width depth)[i]? = some (i + 1) := by
  rw [nodeLevels, getElem?_append_left (by simpa using hi), getElem?_range' hi]
  simp [Nat.add_comm]

theorem level_bounds (h : (nodeLevels width depth)[i]? = some lvl) : 1 ≤ lvl ∧ lvl ≤ depth ∧ lvl ≤ i + 1 := by
  by_cases hi : i < depth
  · rw [level_spine hi] at h
    cases h
    omega
  have hm : lvl ∈ nodeLevels width depth := mem_of_getElem? h
  simp only [nodeLevels, mem_append, mem_flatMap, mem_replicate, mem_range'_1] at hm
  rcases hm with hm | ⟨_, hm, -, rfl⟩ <;> omega

theorem exists_parent (hw : 1 ≤ width) (hd : 1 ≤ depth) (hi : i < width * depth) :
    ∃ lvl, (nodeLevels width depth)[i]? = some lvl ∧
      (spineFirstParents width depth)[i]? = some ((lvl : Int) - 2) := by
  have hl := getElem?_eq_getElem ((length_levels hw).symm ▸ hi)
  exact ⟨_, hl, by rw [parents_eq hd, getElem?_map, hl]; rfl⟩

theorem wellFormed_parents (hd : 1 ≤ depth) : WellFormed (spineFirstParents width depth) := by
  intro i p hp
  rw [parents_eq hd, getElem?_map] at hp
  obtain ⟨lvl, hl, rfl⟩ := Option.map_eq_some_iff.mp hp
  have := level_bounds hl
  omega

theorem length_parents (hw : 1 ≤ width) (hd : 1 ≤ depth) : (spineFirstParents width depth).length = width * depth := by
  rw [parents_eq hd, length_map, length_levels hw]

end

/-! ## Rows of the mask -/

/-- The row of `node` lets through the prefix, the root, the node and the nodes above it, and nothing else. -/
def Admits (parents : List Int) (prefixLen maxModelLen node : Nat) (row : List Bool) : Prop :=
  row.length = maxModelLen ∧ ∀ column, row[column]? = some false ↔
    column ≤ prefixLen ∨ ∃ j, Above parents j node ∧ column = prefixLen + j + 1

structure Admitting (parents : List Int) (nodes prefixLen maxModelLen : Nat) (mask : List (List Bool)) : Prop where
  length : mask.length = nodes + 1
  root : ∃ row, mask[0]? = some row ∧ row.length = maxModelLen ∧ ∀ column, row[column]? = some false ↔ column ≤ prefixLen
  node : ∀ i < nodes, ∃ row, mask[i + 1]? = some row ∧ Admits parents prefixLen maxModelLen i row

section

theorem Admitting.row_length (h : Admitting parents nds pre len mask) :
    ∀ row ∈ mask, row.length = len := by
  intro row hm
  obtain ⟨i, hi⟩ := mem_iff_getElem?.mp hm
  cases i with
  | zero =>
    obtain ⟨root, hr, hl, -⟩ := h.root
    cases hr.symm.trans hi
    exact hl
  | succ i =>
    have hlt : i < nds := by
      have := lt_of_getElem? hi
      rw [h.length] at this
      omega
    obtain ⟨row', hrow, hl, -⟩ := h.node i hlt
    cases hrow.symm.trans hi
    exact hl

theorem foldlM_unblock : ∀ {cols : List Nat} {row row' : List Bool}, cols.foldlM unblock row = .ok row' ↔
    (∀ c ∈ cols, c < row.length) ∧ row' = cols.foldl (fun row c => row.set c false) row
  | [], row, row' => by simp [pure, Except.pure, eq_comm]
  | c :: cols, row, row' => by
    rw [foldlM_cons, bind_ok, forall_mem_cons, foldl_cons]
    by_cases hc : c < row.length
    · rw [show unblock row c = .ok (row.set c false) from if_pos hc]
      simp [hc, foldlM_unblock]
    · simp [unblock, hc]

theorem length_foldl_set (cols : List Nat) (row : List Bool) :
    (cols.foldl (fun row c => row.set c false) row).length = row.length := by
  induction cols generalizing row with
  | nil => rfl
  | cons c cols ih => rw [foldl_cons, ih, length_set]

theorem foldl_set : ∀ {cols : List Nat} {row : List Bool}, (∀ c ∈ cols, c < row.length) →
    ((cols.foldl (fun row c => row.set c false) row)[col]? = some false ↔
      col ∈ cols ∨ row[col]? = some false)
  | [], row, _ => by simp
  | c :: cols, row, h => by
    obtain ⟨hc, hcs⟩ := forall_mem_cons.mp h
    rw [foldl_cons, foldl_set (by simpa using hcs), mem_cons]
    by_cases he : c = col
    · subst he
      simp [hc]
    · simp [getElem?_set_ne he, Ne.symm he]

theorem length_prefixRow : (prefixRow pre len).length = len := by simp [prefixRow]

theorem getElem?_prefixRow : (prefixRow pre len)[col]? = some false ↔
    col < len ∧ col < pre := by
  by_cases hc : col < len <;> simp [prefixRow, hc]

section
variable (hp : WellFormed parents)
include hp

theorem mem_columns (hn : node < parents.length) :
    col ∈ pre :: (path parents parents.length node).map (pre + · + 1) ↔
      col = pre ∨ ∃ j, Above parents j node ∧ col = pre + j + 1 := by
  simp only [mem_cons, mem_map, mem_path hp hn hn, eq_comm]

theorem maskRow_ok (hn : node < parents.length) (h : pre + node + 1 < len) :
    ∃ row, maskRow parents pre len node = .ok row ∧ Admits parents pre len node row := by
  have hcs : ∀ c ∈ pre :: (path parents parents.length node).map (pre + · + 1),
      c < (prefixRow pre len).length := fun c hc => by
    rw [length_prefixRow]
    rcases (mem_columns hp hn).mp hc with rfl | ⟨j, ha, rfl⟩
    · omega
    · have := ha.le hp
      omega
  refine ⟨_, foldlM_unblock.mpr ⟨hcs, rfl⟩, (length_foldl_set _ _).trans length_prefixRow, fun col => ?_⟩
  rw [foldl_set hcs, mem_columns hp hn, getElem?_prefixRow]
  constructor
  · rintro ((rfl | hj) | hc)
    · exact .inl (Nat.le_refl _)
    · exact .inr hj
    · exact .inl (Nat.le_of_lt hc.2)
  · rintro (hc | hj)
    · rcases Nat.lt_or_eq_of_le hc with hc | rfl
      · exact .inr ⟨by omega, hc⟩
      · exact .inl (.inl rfl)
    · exact .inl (.inr hj)

theorem maskRows_ok (hn : nds ≤ parents.length) (h : pre + nds < len) :
    ∃ mask, maskRows parents nds pre len = .ok mask ∧
      Admitting parents nds pre len mask := by
  have hrow : ∀ i ∈ range nds, ∃ row, maskRow parents pre len i = .ok row ∧
      Admits parents pre len i row := fun i hi => by
    have hi := mem_range.mp hi
    exact maskRow_ok hp (by omega) (by omega)
  obtain ⟨rows, hro, hall⟩ := mapM_forall₂ hrow
  have hlen : rows.length = nds := by rw [← hall.length_eq, length_range]
  have hroot : unblock (prefixRow pre len) pre = .ok ((prefixRow pre len).set pre false) :=
    if_pos (by rw [length_prefixRow]; omega)
  refine ⟨_, by rw [maskRows, hroot, hro]; rfl, by simp [hlen],
    ⟨_, rfl, by rw [length_set, length_prefixRow], fun col => ?_⟩, fun i hi => ?_⟩
  · by_cases hc : pre = col
    · subst hc
      simp [getElem?_set_self (show pre < (prefixRow pre len).length by rw [length_prefixRow]; omega)]
    · rw [getElem?_set_ne hc, getElem?_prefixRow]
      omega
  · have hr := getElem?_eq_getElem (hlen.symm ▸ hi)
    exact ⟨_, hr, forall₂_getElem? hall i i _ (getElem?_range hi) hr⟩

theorem lt_of_maskRows (hn : nds ≤ parents.length) (h : maskRows parents nds pre len = .ok mask) :
    pre + nds < len := by
  obtain ⟨root, hr, h⟩ := bind_ok.mp h
  obtain ⟨rows, hro, -⟩ := bind_ok.mp h
  cases nds with
  | zero =>
    unfold unblock at hr
    split at hr
    · next hlt => rwa [length_prefixRow] at hlt
    · cases hr
  | succ k =>
    obtain ⟨row, hrow⟩ := exists_of_mapM hro (mem_range.mpr (Nat.lt_succ_self k))
    have hlt := (foldlM_unblock.mp hrow).1 _ ((mem_columns hp (by omega)).mpr (.inr ⟨k, .self, rfl⟩))
    rwa [length_prefixRow] at hlt

end

end

/-! ## Plans -/

section
variable {width depth pre len : Nat}

def TreeChecks (width depth prefixLen maxModelLen : Nat) : Prop :=
  1 ≤ width ∧ 1 ≤ depth ∧ prefixLen + depth < maxModelLen

def MaskBuilt (width depth prefixLen maxModelLen : Nat) (result : Except PyError (Option TreeSpeculationPlan)) : Prop :=
  ∃ plan, result = .ok (some plan) ∧ plan.parentIndices = spineFirstParents width depth ∧
    Admitting plan.parentIndices (width * depth) prefixLen maxModelLen plan.attentionMask

section
variable (h : TreeChecks width depth pre len)
include h

theorem makeSpineFirstParents_ok : makeSpineFirstParents width depth = .ok (spineFirstParents width depth) :=
  if_neg (by have := h.1; have := h.2.1; omega)

theorem buildTreeAttentionMask_ok :
    buildTreeAttentionMask width depth pre len = .ok mask ↔
      maskRows (spineFirstParents width depth) (width * depth) pre len = .ok mask := by
  obtain ⟨hw, hd, hlt⟩ := h
  have hl := length_parents hw hd
  have hle : (nodeLevels width depth).length = width * depth := length_levels hw
  unfold buildTreeAttentionMask
  simp only [ite_throw_bind, makeSpineFirstParents_ok ⟨hw, hd, hlt⟩, bind_ok, Except.ok.injEq, exists_eq_left', hl, hle,
    ne_eq, not_true_eq_false, not_false_eq_true, true_and, pure, Except.pure, exists_eq_right]
  exact ⟨fun h => h.2.2, fun h => ⟨by omega, by omega, h⟩⟩

theorem buildTreeSpeculationPlan_iff
    (hb : 1 ≤ budget.getD (width * depth) ∧ budget.getD (width * depth) ≤ width * depth) :
    MaskBuilt width depth pre len ((buildTreeSpeculationPlan width depth pre len budget).map some) ↔
      pre + width * depth < len := by
  obtain ⟨hw, hd, hlt⟩ := h
  have hlen := length_parents hw hd
  have hp : WellFormed (spineFirstParents width depth) := wellFormed_parents hd
  have hbu : buildTreeSpeculationPlan width depth pre len budget =
      (buildTreeAttentionMask width depth pre len >>= fun mask => TreeSpeculationPlan.postInit
        ⟨width, depth, budget.getD (width * depth), pre, len, spineFirstParents width depth,
          (0 :: nodeLevels width depth).map (· + pre), mask⟩) := by
    unfold buildTreeSpeculationPlan
    simp only [if_neg (show ¬ (width < 1 ∨ depth < 1) by omega), hb, and_self, not_true_eq_false, if_false]
    rw [makeSpineFirstParents_ok ⟨hw, hd, hlt⟩]
    rfl
  rw [hbu]
  constructor
  · rintro ⟨plan, hok, -⟩
    cases hma : buildTreeAttentionMask width depth pre len with
    | error e => rw [hma] at hok; cases hok
    | ok mask => exact lt_of_maskRows hp hlen.ge ((buildTreeAttentionMask_ok ⟨hw, hd, hlt⟩).mp hma)
  · intro hfit
    obtain ⟨mask, hma, had⟩ := maskRows_ok hp hlen.ge hfit
    have hle : (nodeLevels width depth).length = width * depth := length_levels hw
    refine ⟨⟨width, depth, budget.getD (width * depth), pre, len, spineFirstParents width depth,
      (0 :: nodeLevels width depth).map (· + pre), mask⟩, ?_, rfl, had⟩
    have hrow : ¬ ∃ row ∈ mask, row.length ≠ len := by simpa using had.row_length
    rw [(buildTreeAttentionMask_ok ⟨hw, hd, hlt⟩).mpr hma]
    change (TreeSpeculationPlan.postInit _).map some = _
    simp only [TreeSpeculationPlan.postInit, hlen, hle, length_map, length_cons, had.length, hrow, ne_eq, not_true_eq_false,
      or_self, if_false, if_neg (show ¬ (budget.getD (width * depth) < 1 ∨ width * depth < budget.getD (width * depth)) by omega)]
    rfl

end

end

/-- A plan that passes its checks gets its mask if and only if the model has a column for every node. -/
theorem tree_mask_iff (width depth prefixLen maxModelLen : Nat) (nodeBudget : Option Nat)
    (c : SpecRhythmTreeCoordinator) (plan : SpecRhythmBudgetPlan) (requestIndex : Nat) :
    (TreeChecks width depth prefixLen maxModelLen →
      1 ≤ nodeBudget.getD (width * depth) ∧ nodeBudget.getD (width * depth) ≤ width * depth →
      (MaskBuilt width depth prefixLen maxModelLen
          ((buildTreeSpeculationPlan width depth prefixLen maxModelLen nodeBudget).map some) ↔
        prefixLen + width * depth < maxModelLen)) ∧
    let budget := treeBudgetFromSpecRhythm plan requestIndex c.width c.maxDepth
    budget ≠ 0 → prefixLen + c.depthFor budget < maxModelLen →
      (MaskBuilt c.width (c.depthFor budget) prefixLen maxModelLen
          (c.forRequest plan requestIndex prefixLen maxModelLen) ↔
        prefixLen + c.width * c.depthFor budget < maxModelLen) := by
  refine ⟨fun h hb => buildTreeSpeculationPlan_iff h hb, ?_⟩
  intro budget hne hlt
  have hd : 1 ≤ c.depthFor budget := le_min c.maxDepth_pos (le_max_left ..)
  have hpos : 1 ≤ c.width * c.depthFor budget := Nat.mul_pos c.width_pos hd
  rw [SpecRhythmTreeCoordinator.forRequest, if_neg hne]
  exact buildTreeSpeculationPlan_iff ⟨c.width_pos, hd, hlt⟩ ⟨le_min (by omega) hpos, min_le_right ..⟩

def pairCoordinator : SpecRhythmTreeCoordinator := ⟨2, 3, by decide, by decide⟩

def pairBudgets : SpecRhythmBudgetPlan := ⟨0, [(0, 3)], [(0, 1)], [], [], 0, 4, 4⟩

theorem tree_mask_iff_pairs : MaskBuilt 2 3 5 12 ((buildTreeSpeculationPlan 2 3 5 12 none).map some) ∧
      MaskBuilt 2 2 5 10 (pairCoordinator.forRequest pairBudgets 0 5 10) :=
  ⟨((tree_mask_iff 2 3 5 12 none pairCoordinator pairBudgets 0).1 ⟨by decide, by decide, by decide⟩ (by decide)).mpr
    (by decide), ((tree_mask_iff 2 3 5 10 none pairCoordinator pairBudgets 0).2 (by decide) (by decide)).mpr (by decide)⟩

/-- A root and two nodes of one level pass the checks of a model with two positions, but there is no third column. -/
theorem tree_mask_out_of_bounds : TreeChecks 2 1 0 2 ∧ raisedBy (buildTreeSpeculationPlan 2 1 0 2 none) =
      some (.indexError "index is out of bounds for dimension with size") ∧
    raisedBy (pairCoordinator.forRequest pairBudgets 0 0 3) =
      some (.indexError "index is out of bounds for dimension with size") := by
  exact ⟨⟨by decide, by decide, by decide⟩, rfl, rfl⟩

end VllmAscend
