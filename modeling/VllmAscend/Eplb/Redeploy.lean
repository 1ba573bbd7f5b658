import Mathlib.Data.List.Permutation
import Mathlib.Data.List.ReduceOption
import VllmAscend.Lib.Packed
import VllmAscend.Lib.Python

/-!
# Redeployment with experts kept in place

`minimize_redeploy_with_inner_permutation` of `policy_flashlb.py`: the rows of
the target are matched with the devices, and the slots of each row permuted so
that an expert its device already has stays in its slot.
-/

namespace VllmAscend.Eplb

open Python Packed List Function

structure SlotArray (n m : Nat) where
  rows : List (List Int)
  length_rows : rows.length = n
  length_row : ∀ row ∈ rows, row.length = m

theorem SlotArray.length_getD (t : SlotArray n m) (hi : i < n) : (t.rows.getD i []).length = m := by
  rw [← t.length_rows] at hi
  rw [getD_eq_getElem _ _ hi, t.length_row _ (getElem_mem hi)]

structure Deployment (n m : Nat) extends SlotArray n m where
  expert : ∀ row ∈ rows, ∀ v ∈ row, -1 ≤ v ∧ v < n * m

def bincount (row : List Int) (minlength : Nat) : Except PyError (List Nat) :=
  if row.any (· < 0) then .error (.valueError "'list' argument must have no negative elements")
  else
    let length := row.foldl (fun length v => max length (v.toNat + 1)) minlength
    .ok ((List.range length).map fun (k : Nat) => row.count (k : Int))

/-- The histograms of the rows as one array, which rows of different lengths do not make. -/
def expertCounts (rows : List (List Int)) (maxVal : Nat) : Except PyError (List (List Nat)) := do
  let counts ← rows.mapM fun row => bincount (row.filter (· ≠ -1)) maxVal
  if counts.any fun row => counts.any fun row' => row.length ≠ row'.length then
    throw (.valueError "setting an array element with a sequence.")
  return counts

def computeMatch (srcCounts dstCounts : List (List Nat)) (n m : Nat) : List (List Nat) :=
  (List.range n).map fun i => (List.range n).map fun j => (List.range (n * m)).foldl
    (fun total k => total + min ((srcCounts.getD i []).getD k 0) ((dstCounts.getD j []).getD k 0)) 0

/-- `linear_sum_assignment` of a square matrix: a column for each of the rows in order. -/
structure LinearSumAssignment where
  colInd : List (List Int) → List Nat
  perm : ∀ cost, (colInd cost).Perm (List.range cost.length)

/-- The slots assigned and the positions used; a value's positions stand last first, as `pop` takes them. -/
def assignExisting : List Int → (Int → List Nat) → List (Option Int) × List Nat
  | [], _ => ([], [])
  | v :: sRow, valToPositions =>
    match valToPositions v with
    | [] =>
      let (reordered, used) := assignExisting sRow valToPositions
      (none :: reordered, used)
    | dstPos :: positions =>
      let (reordered, used) := assignExisting sRow (Function.update valToPositions v positions)
      (some v :: reordered, dstPos :: used)

def fillRemaining : List (Option Int) → List Int → Except PyError (List Int)
  | [], _ => .ok []
  | some v :: slots, remaining => (fillRemaining slots remaining).map (v :: ·)
  | none :: _, [] => .error (.indexError "list index out of range")
  | none :: slots, v :: remaining => (fillRemaining slots remaining).map (v :: ·)

def positionsOf (dRow : List Int) (v : Int) : List Nat :=
  ((List.range dRow.length).filter (dRow.getD · 0 = v)).reverse

def reorderRow (sRow dRow : List Int) : Except PyError (List Int) :=
  let (reordered, used) := assignExisting sRow (positionsOf dRow)
  fillRemaining reordered (((List.range dRow.length).filter (· ∉ used)).map (dRow.getD · 0))

def minimizeRedeployWithInnerPermutation (linearSumAssignment : List (List Int) → List Nat) {n m n' m' : Nat}
    (src : SlotArray n m) (dst : SlotArray n' m') : Except PyError (List (List Int)) := do
  if (n, m) ≠ (n', m') then throw (.valueError "src and dst must have same shape (N, M)")
  let srcCounts ← expertCounts src.rows (n * m)
  let dstCounts ← expertCounts dst.rows (n * m)
  let cost := (computeMatch srcCounts dstCounts n m).map (·.map fun (count : Nat) => (m : Int) - count)
  let mapping := (List.range n).zip (linearSumAssignment cost)
  let rows ← mapping.mapM fun p => reorderRow (src.rows.getD p.1 []) (dst.rows.getD p.2 [])
  return scatter (List.replicate n []) (mapping.map Prod.fst) rows

/-! ## One row -/

section
variable {dRow : List Int}

theorem assignExisting_spec : ∀ {sRow : List Int} {positions : Int → List Nat},
    (∀ v, ∀ p ∈ positions v, dRow[p]? = some v) → (∀ v, (positions v).Nodup) →
    let r := assignExisting sRow positions
    List.Forall₂ (fun s o => o = none ∨ o = some s) sRow r.1 ∧
      (∀ v, r.1.count (some v) = min (sRow.count v) (positions v).length) ∧
      r.2.Nodup ∧ (∀ p ∈ r.2, ∃ v, p ∈ positions v) ∧ r.2.map (dRow.getD · 0) = r.1.reduceOption
  | [], _, _, _ => ⟨.nil, fun _ => (Nat.zero_min _).symm, nodup_nil, nofun, rfl⟩
  | v :: sRow, positions, hp, hn => by
    rw [assignExisting]
    cases he : positions v with
    | nil =>
      obtain ⟨hs, hc, hr⟩ := @assignExisting_spec sRow _ hp hn
      refine ⟨.cons (.inl rfl) hs, fun w => ?_, hr⟩
      rw [count_cons_of_ne (by nofun), hc]
      by_cases hw : w = v
      · rw [hw, he, length_nil, Nat.min_zero, Nat.min_zero]
      · rw [count_cons_of_ne (Ne.symm hw)]
    | cons p l =>
      have hl : ∀ w, (update positions v l w).Sublist (positions w) := by
        intro w
        by_cases hw : w = v
        · subst hw
          rw [update_self, he]
          exact sublist_cons_self p l
        · rw [update_of_ne hw]
      have hpv : p ∈ positions v := he ▸ mem_cons_self
      obtain ⟨hs, hc, hd, hm, hv⟩ := @assignExisting_spec sRow _ (fun w q hq => hp w q ((hl w).subset hq))
        fun w => (hn w).sublist (hl w)
      refine ⟨.cons (.inr rfl) hs, fun w => ?_, nodup_cons.mpr ⟨fun hin => ?_, hd⟩,
        forall_mem_cons.mpr ⟨⟨v, hpv⟩, fun q hq => (hm q hq).imp fun w hw => (hl w).subset hw⟩, ?_⟩
      · by_cases hw : w = v
        · subst hw
          rw [count_cons_self, count_cons_self, hc, update_self, he, length_cons]
          omega
        · rw [count_cons_of_ne (by simpa using Ne.symm hw), count_cons_of_ne (Ne.symm hw), hc, update_of_ne hw]
      · -- the position was taken from its value's
        obtain ⟨w, hw⟩ := hm p hin
        obtain rfl : w = v := Option.some.inj ((hp w p ((hl w).subset hw)).symm.trans (hp v p hpv))
        rw [update_self] at hw
        exact (nodup_cons.mp (he ▸ hn w)).1 hw
      · rw [map_cons, hv, reduceOption_cons_of_some, getD_eq_getElem?_getD, hp v p hpv, Option.getD_some]

theorem fillRemaining_spec : ∀ {slots : List (Option Int)} {remaining sRow : List Int},
    List.Forall₂ (fun s o => o = none ∨ o = some s) sRow slots →
    slots.reduceOption.length + remaining.length = slots.length →
    ∃ out, fillRemaining slots remaining = .ok out ∧ out.Perm (slots.reduceOption ++ remaining) ∧
      ∀ v, slots.count (some v) ≤ (sRow.zip out).count (v, v)
  | [], remaining, _, .nil, hl => by
    obtain rfl : remaining = [] := length_eq_zero_iff.mp (by simpa using hl)
    exact ⟨[], rfl, .nil, fun _ => Nat.le_refl _⟩
  | some v :: slots, remaining, s :: sRow, .cons hv hs, hl => by
    obtain rfl : v = s := by simpa using hv
    rw [reduceOption_cons_of_some, length_cons, length_cons] at hl
    obtain ⟨out, ho, hp, hc⟩ := fillRemaining_spec hs (by omega : _ + remaining.length = _)
    refine ⟨v :: out, by rw [fillRemaining, ho]; rfl, by simpa using hp, fun w => ?_⟩
    have := hc w
    rw [zip_cons_cons, count_cons, count_cons]
    by_cases hw : v = w
    · simp [hw, this]
    · simp [hw, this]
  | none :: slots, [], _, .cons _ hs, hl => by
    have := reduceOption_length_le slots
    rw [reduceOption_cons_of_none, length_nil, length_cons] at hl
    omega
  | none :: slots, x :: remaining, s :: sRow, .cons _ hs, hl => by
    rw [reduceOption_cons_of_none, length_cons, length_cons] at hl
    obtain ⟨out, ho, hp, hc⟩ := fillRemaining_spec hs (by omega : _ + remaining.length = _)
    refine ⟨x :: out, by rw [fillRemaining, ho]; rfl, ?_, fun w => ?_⟩
    · rw [reduceOption_cons_of_none]
      exact (hp.cons x).trans perm_middle.symm
    · rw [count_cons_of_ne (by nofun)]
      exact (hc w).trans (by rw [zip_cons_cons]; exact (sublist_cons_self _ _).count_le _)

theorem reorderRow_ok (hl : sRow.length = dRow.length) :
    ∃ out, reorderRow sRow dRow = .ok out ∧ out.Perm dRow ∧
      ∀ v, (sRow.zip out).count (v, v) = min (sRow.count v) (out.count v) := by
  have hrow : (range dRow.length).map (dRow.getD · 0) = dRow :=
    (gather_range 0 _ dRow (Nat.le_refl _)).trans take_length
  have hpos : ∀ v, ∀ p ∈ positionsOf dRow v, p ∈ range dRow.length ∧ dRow[p]? = some v := by
    intro v p hp
    obtain ⟨hlt, he⟩ := mem_filter.mp (mem_reverse.mp hp)
    refine ⟨hlt, ?_⟩
    rw [getElem?_eq_getElem (mem_range.mp hlt), ← of_decide_eq_true he, getD_eq_getElem]
  have hall : ∀ v, (positionsOf dRow v).length = dRow.count v := by
    intro v
    conv_rhs => rw [← hrow, count_eq_countP, countP_map]
    rw [positionsOf, length_reverse, countP_eq_length_filter]
    rfl
  obtain ⟨hs, hc, hn, hm, hv⟩ := @assignExisting_spec dRow sRow _ (fun v p hp => (hpos v p hp).2)
    fun v => pairwise_reverse.mpr ((nodup_range.filter _).imp Ne.symm)
  unfold reorderRow
  generalize assignExisting sRow (positionsOf dRow) = r at hs hc hn hm hv ⊢
  have hused : ((range dRow.length).filter (· ∈ r.2)).Perm r.2 := by
    refine (perm_ext_iff_of_nodup (nodup_range.filter _) hn).mpr fun p => ?_
    rw [mem_filter, decide_eq_true_iff]
    refine and_iff_right_of_imp fun hp => ?_
    obtain ⟨v, hp⟩ := hm p hp
    exact (hpos v p hp).1
  have hd : dRow.Perm (r.1.reduceOption ++ ((range dRow.length).filter (· ∉ r.2)).map (dRow.getD · 0)) := by
    have hp := ((filter_append_perm (· ∈ r.2) (range dRow.length)).map (dRow.getD · 0)).symm
    rw [map_append, hrow] at hp
    have hq := (hused.map (dRow.getD · 0)).append_right (((range dRow.length).filter (· ∉ r.2)).map (dRow.getD · 0))
    rw [hv] at hq
    simp only [decide_not] at hq ⊢
    exact hp.trans hq
  obtain ⟨out, ho, hp, hle⟩ := fillRemaining_spec hs (by
    rw [← length_append, ← hd.length_eq, ← hs.length_eq, hl])
  have hperm : out.Perm dRow := hp.trans hd.symm
  have hlen : out.length = sRow.length := hperm.length_eq.trans hl.symm
  refine ⟨out, ho, hperm, fun v => Nat.le_antisymm (Nat.le_min.mpr ⟨?_, ?_⟩) ?_⟩
  · have := count_le_count_map (l := sRow.zip out) (f := Prod.fst) (x := (v, v))
    rwa [map_fst_zip hlen.ge] at this
  · have := count_le_count_map (l := sRow.zip out) (f := Prod.snd) (x := (v, v))
    rwa [map_snd_zip hlen.le] at this
  · rw [hperm.count_eq, ← hall, ← hc]
    exact hle v

end

/-! ## The deployment -/

theorem expertCounts_ok (d : Deployment n m) : ∃ counts, expertCounts d.rows (n * m) = .ok counts := by
  have hrow : ∀ row ∈ d.rows, bincount (row.filter (· ≠ -1)) (n * m) =
      .ok ((range (n * m)).map fun (k : Nat) => (row.filter (· ≠ -1)).count (k : Int)) := by
    intro row hrow
    have hex : ∀ v ∈ row.filter (· ≠ -1), 0 ≤ v ∧ v.toNat + 1 ≤ n * m := by
      intro v hv
      obtain ⟨hv, hne⟩ := mem_filter.mp hv
      have hne : v ≠ -1 := of_decide_eq_true hne
      obtain ⟨hlo, hhi⟩ := d.expert row hrow v hv
      rw [← Int.natCast_mul] at hhi
      omega
    have hlen : (row.filter (· ≠ -1)).foldl (fun length v => max length (v.toNat + 1)) (n * m) = n * m :=
      foldlRecOn (motive := fun length => length = n * m) _ _ rfl fun length hl v hv => by
        rw [hl, Nat.max_eq_left (hex v hv).2]
    have hneg : ¬ (row.filter (· ≠ -1)).any (· < 0) = true := by
      rw [any_eq_true]
      rintro ⟨v, hv, hlt⟩
      exact absurd (of_decide_eq_true hlt) (Int.not_lt.mpr (hex v hv).1)
    rw [bincount, if_neg hneg, hlen]
  rw [expertCounts, mapM_ok hrow]
  simp only [ok_bind, pure_eq_ok]
  rw [if_neg (by simp)]
  exact ⟨_, rfl⟩

/-- A permuted target row for each device, with as many experts kept in their slots as can be. -/
theorem redeploy_aligned (assignment : LinearSumAssignment) {n m : Nat} (src dst : Deployment n m) :
    ∃ out device, minimizeRedeployWithInnerPermutation assignment.colInd src.toSlotArray dst.toSlotArray = .ok out ∧
      device.Perm (List.range n) ∧ List.Forall₂ (fun p row => row.Perm (dst.rows.getD p.2 []) ∧
        ∀ v, ((src.rows.getD p.1 []).zip row).count (v, v) = min ((src.rows.getD p.1 []).count v) (row.count v))
        ((List.range n).zip device) out := by
  obtain ⟨srcCounts, hsc⟩ := expertCounts_ok src
  obtain ⟨dstCounts, hdc⟩ := expertCounts_ok dst
  generalize hcost : (computeMatch srcCounts dstCounts n m).map (·.map fun (count : Nat) => (m : Int) - count) = cost
  have hlen : cost.length = n := by simp [← hcost, computeMatch]
  have hdev := assignment.perm cost
  rw [hlen] at hdev
  have hfst : ((List.range n).zip (assignment.colInd cost)).map Prod.fst = List.range n :=
    map_fst_zip (by rw [hdev.length_eq])
  obtain ⟨rows, hrows, hall⟩ := mapM_forall₂ (f := fun p : Nat × Nat =>
      reorderRow (src.rows.getD p.1 []) (dst.rows.getD p.2 [])) fun p hp => by
      obtain ⟨h1, h2⟩ := of_mem_zip hp
      refine reorderRow_ok ?_
      rw [src.length_getD (mem_range.mp h1), dst.length_getD (mem_range.mp (hdev.subset h2))]
  refine ⟨rows, assignment.colInd cost, ?_, hdev, hall⟩
  have hn : rows.length = n := by rw [← hall.length_eq, length_zip, hdev.length_eq, length_range, Nat.min_self]
  have hput := scatter_range rows (List.replicate n []) [] (by rw [length_replicate, hn])
  rw [append_nil, append_nil, hn] at hput
  simp only [minimizeRedeployWithInnerPermutation, ne_eq, not_true_eq_false, if_false, ok_bind, pure,
    Except.pure, hsc, hdc, hcost, hrows, hfst, hput]

def assignmentCost (cost : List (List Int)) (cols : List Nat) : Int := ((cost.zip cols).map fun p => p.1.getD p.2 0).sum

/-- The first assignment of least cost. -/
def leastAssignment : LinearSumAssignment where
  colInd cost := (range cost.length).permutations'.foldl
    (fun best cols => if assignmentCost cost cols < assignmentCost cost best then cols else best) (range cost.length)
  perm cost := by
    refine foldlRecOn (motive := (List.Perm · (range cost.length))) _ _ (.refl _) fun best hb cols hc => ?_
    split
    · exact mem_permutations'.mp hc
    · exact hb

def held : Deployment 2 3 := ⟨⟨[[0, 1, 1], [2, 3, -1]], rfl, by decide⟩, by decide⟩

def wanted : Deployment 2 3 := ⟨⟨[[3, 2, 0], [1, 0, 1]], rfl, by decide⟩, by decide⟩

/-- The rows change places; experts 2 and 3 go back to their slots, and expert 0 takes the empty one. -/
theorem redeploy_aligned_swapped :
    minimizeRedeployWithInnerPermutation leastAssignment.colInd held.toSlotArray wanted.toSlotArray =
      .ok [[0, 1, 1], [2, 3, 0]] ∧
    ∃ device, device.Perm [0, 1] ∧ List.Forall₂ (fun p row => row.Perm (wanted.rows.getD p.2 []))
      ([0, 1].zip device) [[0, 1, 1], [2, 3, 0]] := by
  have hout : minimizeRedeployWithInnerPermutation leastAssignment.colInd held.toSlotArray wanted.toSlotArray =
      .ok [[0, 1, 1], [2, 3, 0]] := by decide
  obtain ⟨out, device, ho, hdevice, hall⟩ := redeploy_aligned leastAssignment held wanted
  rw [hout] at ho
  cases ho
  exact ⟨hout, device, hdevice, hall.imp fun _ _ h => h.1⟩

end VllmAscend.Eplb
