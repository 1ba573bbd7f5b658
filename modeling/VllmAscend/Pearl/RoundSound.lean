import VllmAscend.Pearl.Loop
import VllmAscend.Pearl.StateSound
import VllmAscend.Lib.Rows

/-!
# A round, row by row

Every tensor of a round is a list of rows laid end to end, one per request.
Each function of the round is computed here as such a list, and the round as a
whole as one verdict per request that both replicas apply: two replicas that
enter a round alike leave it alike.
-/

namespace VllmAscend

open Python Packed Greedy Rows PearlPipelineState List Nat Function

variable {γ : Nat} {st : States} {s : PearlPipelineState} {act : List Nat} {next : Nat → List Int}

/-! ## The draft side -/

section draft
variable {draft : Nat → List Int → Nat}

def draftWindow (draft : Nat → List Int → Nat) (states : States) (i n : Nat) : List Int :=
  greedy (fun p => (draft i p : Int)) (states i).tokenIds n

@[simp] theorem length_draftWindow (i n : Nat) : (draftWindow dr st i n).length = n := length_greedy _ _ _

def paddedWindow (draft : Nat → List Int → Nat) (gamma : Nat) (states : States) (i n : Nat) : List Int :=
  draftWindow draft states i n ++ List.replicate (gamma - n) (-1)

theorem paddedWindow_step (i : Nat) (hk : k < γ) : (paddedWindow dr γ st i k).set k
        (dr i ((st i).tokenIds ++ (paddedWindow dr γ st i k).take k)) =
      paddedWindow dr γ st i (k + 1) := by
  unfold paddedWindow
  rw [take_left' (length_draftWindow i k), set_append_right _ _ (by simp), length_draftWindow, Nat.sub_self]
  obtain ⟨n, hn⟩ : ∃ n, γ - k = n + 1 := ⟨γ - k - 1, by omega⟩
  rw [hn, replicate_succ, set_cons_zero, show γ - (k + 1) = n by omega]
  unfold draftWindow
  rw [greedy_succ, append_assoc, singleton_append]

theorem foldl_draftStep (rows : List (Nat × Nat)) : ∀ k ≤ γ,
    (range k).foldl (draftStep dr st rows) (replicate rows.length (replicate γ (-1))) =
      rows.map fun row => paddedWindow dr γ st row.1 (min k row.2)
  | 0, _ => by
    exact map_const'.symm
  | k + 1, hk => by
    rw [range_succ, foldl_append, foldl_draftStep rows k (by omega), foldl_cons, foldl_nil, draftStep,
      zipWith_map_right, zipWith_self]
    refine map_congr_left fun row _ => ?_
    split
    · rename_i hlt
      rw [min_eq_left hlt.le, min_eq_left hlt]
      exact paddedWindow_step row.1 (by omega)
    · rw [min_eq_right (by omega), min_eq_right (by omega)]

theorem draftWindows_eq (hro : ∀ row ∈ rows, row.2 ≤ γ) :
    draftWindows dr γ st rows = rows.map fun row => paddedWindow dr γ st row.1 row.2 := by
  have hle : (rows.map (·.2)).foldl max 0 ≤ γ :=
    foldl_max_le fun n hn => by
      obtain ⟨row, hr, rfl⟩ := mem_map.mp hn
      exact hro row hr
  rw [draftWindows, foldl_draftStep rows _ hle]
  refine map_congr_left fun row hr => ?_
  rw [min_eq_right (le_foldl_max (mem_map_of_mem hr))]

theorem verificationIndices_shift (st : States) (k : Nat) : ∀ (rows : List (Nat × Nat)) (off : Nat), (∀ row ∈ rows, 0 < row.2) →
    verificationIndices st rows (k + off) =
      ((verificationIndices st rows off).1.map (k + ·), (verificationIndices st rows off).2.1,
        (verificationIndices st rows off).2.2.map (k + ·))
  | [], _, _ => rfl
  | (i, n) :: rows, off, h => by
    have hn : 0 < n := h (i, n) (by simp)
    have hl : k + off + n - 1 = k + (off + n - 1) := by omega
    simp only [verificationIndices]
    rw [hl, add_assoc, verificationIndices_shift st k rows (off + n) fun row hr => h row (mem_cons_of_mem _ hr)]
    split
    · simp only [map_append, map_map, map_cons, Prod.mk.injEq, and_true]
      congr 1
      exact map_congr_left fun j _ => add_assoc k off j
    · rfl

def previousRow (s : PearlPipelineState) (n : Nat) : List Nat × List Int :=
  if !s.preVerify ∧ 1 < n then (List.range (n - 1), lastN (n - 1) s.tokenIds) else ([], [])

theorem verificationTensor_cons
    (hn : 0 < n) (hlen : n ≤ (st i).tokenIds.length + 1) (hro : ∀ row ∈ rows, 0 < row.2) :
    verificationTensor st ((i, n) :: rows) (window :: ws) =
      scatter (scatter (replicate n 0) (previousRow (st i) n).1 (previousRow (st i) n).2) [n - 1]
        [window.headD (-1)] ++ verificationTensor st rows ws := by
  have hsh := verificationIndices_shift st n rows 0 hro
  rw [add_zero] at hsh
  generalize hp : previousRow (st i) n = row
  generalize hv : verificationIndices st rows 0 = rest at hsh
  have hid : verificationIndices st ((i, n) :: rows) 0 =
      (row.1 ++ rest.1.map (n + ·), row.2 ++ rest.2.1, [n - 1] ++ rest.2.2.map (n + ·)) := by
    simp only [verificationIndices, zero_add, hsh, ← hp, previousRow]
    split <;> simp
  have hsr : row.1.length = row.2.length ∧ ∀ j ∈ row.1, j < (replicate n (0 : Int)).length := by
    subst hp
    unfold previousRow
    split
    · refine ⟨by rw [length_lastN (by omega) (by omega), length_range], fun j hj => ?_⟩
      rw [length_replicate]; have := mem_range.mp hj; omega
    · exact ⟨rfl, nofun⟩
  have hprev := scatter_row _ _ _ (replicate (rows.map (·.2)).sum 0) rest.1 rest.2.1 hsr.1 hsr.2
  have hcu := scatter_row [n - 1] [window.headD (-1)] (scatter (replicate n (0 : Int)) row.1 row.2)
    (scatter (replicate (rows.map (·.2)).sum 0) rest.1 rest.2.1) rest.2.2 (ws.map (·.headD (-1))) rfl
    (by simp; omega)
  simp only [length_scatter, length_replicate, singleton_append] at hprev hcu
  simp only [verificationTensor, hid, hv, map_cons, sum_cons, ← replicate_append_replicate, hprev, singleton_append,
    hcu]

theorem scatter_candidates (h : RowOk γ s) {next : List Int} (hn : 0 < next.length) :
    scatter (scatter (replicate (s.windowSize γ) 0) (previousRow s (s.windowSize γ)).1
        (previousRow s (s.windowSize γ)).2) [s.windowSize γ - 1] [next.headD (-1)] = s.candidates next := by
  have hlen := h.length
  have hpos := h.windowSize_pos
  obtain ⟨x, rest, rfl⟩ := exists_cons_of_length_pos hn
  obtain ⟨m, hm⟩ : ∃ m, s.windowSize γ = m + 1 := ⟨s.windowSize γ - 1, by omega⟩
  have hdr : (s.tokenIds.drop s.committedLength).length = m := by rw [length_drop]; omega
  have hprev : scatter (replicate (m + 1) 0) (previousRow s (m + 1)).1 (previousRow s (m + 1)).2 =
      s.tokenIds.drop s.committedLength ++ [0] := by
    unfold previousRow
    split
    · rename_i hb
      have hl : lastN m s.tokenIds = s.tokenIds.drop s.committedLength := by
        rw [lastN_of_pos (by omega)]; congr 1; omega
      have := scatter_range (s.tokenIds.drop s.committedLength) (replicate m 0) [0] (by simp [hdr])
      rw [hdr] at this
      simp only [Nat.add_sub_cancel]
      rw [hl, replicate_succ', this]
    · rename_i hb
      have h0 : m = 0 := by
        cases hp : s.preVerify with
        | true =>
          have : s.windowSize γ = 1 := by unfold windowSize; simp [hp]
          omega
        | false =>
          rw [hp] at hb
          simp only [Bool.not_false, true_and, not_lt] at hb
          omega
      subst h0
      rw [length_eq_zero_iff.mp hdr]; rfl
  rw [hm, Nat.add_sub_cancel, hprev, scatter_cons, scatter_nil, candidates, set_append_right _ _ (by omega), hdr,
    Nat.sub_self]
  rfl

theorem verificationTensor_eq (st : States) (w : Nat × Nat → List Int) : ∀ rows : List (Nat × Nat),
    (∀ row ∈ rows, RowOk γ (st row.1) ∧ row.2 = (st row.1).windowSize γ ∧ 0 < (w row).length) →
    verificationTensor st rows (rows.map w) = rows.flatMap fun row => (st row.1).candidates (w row)
  | [], _ => rfl
  | (i, n) :: rows, h => by
    obtain ⟨hok, hsize, hw⟩ := h (i, n) (by simp)
    simp only at hok hsize hw
    have hrest : ∀ row ∈ rows, 0 < row.2 := fun row hr => by
      obtain ⟨ho, hs, -⟩ := h row (mem_cons_of_mem _ hr)
      rw [hs]; exact ho.windowSize_pos
    have hlen := hok.length
    have hpos := hok.windowSize_pos
    have hrow := scatter_candidates hok hw
    rw [← hsize] at hrow
    rw [map_cons, verificationTensor_cons (by omega) (by omega) hrest, flatMap_cons, hrow,
      verificationTensor_eq st w rows fun row hr => h row (mem_cons_of_mem _ hr)]

theorem draftRoundDeviceBatch_ok (hg : 0 < γ) (h : ∀ i ∈ act, RowOk γ (st i)) :
    draftRoundDeviceBatch dr γ st act = .ok
      { verification := act.flatMap fun i => (st i).candidates (draftWindow dr st i γ)
        windows := act.map fun i => draftWindow dr st i γ
        forwards := draftForwards st (act.map fun i => (i, γ))
          (act.map fun i => draftWindow dr st i γ) } := by
  have hz : act.zip (replicate act.length γ) = act.map fun i => (i, γ) := by
    rw [← map_const', ← map_prod_left_eq_zip]
  have hw : draftWindows dr γ st (act.map fun i => (i, γ)) =
      act.map fun i => draftWindow dr st i γ := by
    rw [draftWindows_eq (by simp), map_map]
    refine map_congr_left fun i _ => ?_
    simp [paddedWindow]
  have hv := verificationTensor_eq st (fun row => draftWindow dr st row.1 γ)
    (act.map fun i => (i, (st i).windowSize γ)) (by
      intro row hr
      obtain ⟨i, hi, rfl⟩ := mem_map.mp hr
      exact ⟨h i hi, rfl, by simpa using hg⟩)
  rw [map_map, flatMap_map] at hv
  unfold draftRoundDeviceBatch
  simp only [Option.getD_none]
  rw [if_neg (by simp only [length_replicate, ne_eq, not_true_eq_false, false_or, any_eq_true,
      mem_replicate, decide_eq_true_eq]; rintro ⟨n, ⟨-, rfl⟩, hn⟩; omega),
    hz, hw, ← map_prod_left_eq_zip]
  exact congrArg (fun v => Except.ok (DraftRound.mk v _ _)) hv

end draft

/-! ## The target side -/

section target

theorem length_targetWindow (hv : 0 < valid) (hl : valid ≤ s.tokenIds.length)
    (hw : valid ≤ wd) : (targetWindow s valid wd).length = wd := by
  unfold targetWindow
  have := length_lastN hv hl
  simp only
  split
  · rw [length_append, length_replicate]; omega
  · omega

theorem prefixIds_targetRows (h : RowOk γ s) (hw : s.windowSize γ ≤ wd) :
    ((targetRows i s (s.windowSize γ) wd).take (s.windowSize γ)).map ForwardRow.prefixIds =
      (range (s.windowSize γ)).map fun j => s.tokenIds.take (s.committedLength + j) := by
  have hlen := h.length
  have hlt := h.promptLt
  have hp := h.windowSize_pos
  have hl := length_targetWindow hp (by omega : s.windowSize γ ≤ s.tokenIds.length) hw
  simp only [targetRows, hl, ← map_take, map_map, take_range, min_eq_left hw]
  refine map_congr_left fun j hj => ?_
  have hj := mem_range.mp hj
  simp only [comp]
  have hwi : (targetWindow s (s.windowSize γ) wd).take (j + 1) =
      (s.tokenIds.drop (s.tokenIds.length - s.windowSize γ)).take (j + 1) := by
    have hlast := lastN_of_pos hp s.tokenIds
    unfold targetWindow
    rw [hlast]
    split
    · rw [take_append_of_le_length (by rw [length_drop]; omega)]
    · rfl
  rw [hwi, ← take_add]
  congr 1; omega

theorem windowSizes_range (hg : 0 < γ) (h : ∀ i ∈ act, RowOk γ (st i)) :
    ∀ n ∈ act.map fun i => (st i).windowSize γ, 0 < n ∧ n ≤ γ := by
  intro n hn
  obtain ⟨i, hi, rfl⟩ := mem_map.mp hn
  exact ⟨(h i hi).windowSize_pos, (h i hi).windowSize_le hg⟩

theorem length_flatMap_windows (h : ∀ i ∈ act, RowOk γ (st i)) (hn : ∀ i ∈ act, 0 < (next i).length) :
    (act.flatMap fun i => (st i).candidates (next i)).length =
      (act.map fun i => (st i).windowSize γ).sum :=
  length_flatMap_sum fun i hi => length_candidates (h i hi) (hn i hi)

theorem targetRoundOutputsBatch_ok (tgt : List Int → Nat) (hg : 0 < γ) (hb : 0 < numBuckets)
    (hc : PostCountsOk postCounts) (hn : act.Nodup) (h : ∀ i ∈ act, RowOk γ (st i))
    (hs : szs = none ∨ szs = some (act.map fun i => (st i).windowSize γ)) :
    ∃ wd : Nat → Nat, (∀ i ∈ act, (st i).windowSize γ ≤ wd i ∧ wd i ≤ γ) ∧
      targetRoundOutputsBatch tgt γ numBuckets postCounts st act szs = .ok
        { tokens := act.flatMap fun i => targetOutputs (fun p => (tgt p : Int)) (st i) γ
          forward := act.flatMap fun i => targetRows i (st i) ((st i).windowSize γ) (wd i) } := by
  have hsi : szs.getD (act.map fun i => (st i).windowSize γ) =
      act.map fun i => (st i).windowSize γ := by
    rcases hs with rfl | rfl <;> rfl
  have hra := windowSizes_range hg h
  obtain ⟨widths, -, -, hok, hf⟩ := bucketVariable_ok hg hb hc hra
  obtain ⟨wd, rfl⟩ := exists_map_eq hn (by simpa using hf.length_eq.symm)
  have hwi : ∀ i ∈ act, (st i).windowSize γ ≤ wd i ∧ wd i ≤ γ := by
    simpa [forall₂_map_left_iff, forall₂_map_right_iff, forall₂_same] using hf
  refine ⟨wd, hwi, ?_⟩
  have hzi : act.zip ((act.map fun i => (st i).windowSize γ).zip (act.map wd)) =
      act.map fun i => (i, (st i).windowSize γ, wd i) := by
    rw [zip_map', ← map_prod_left_eq_zip]
  let rows i := targetRows i (st i) ((st i).windowSize γ) (wd i)
  let o i : List Int := (rows i).map fun row => tgt row.prefixIds
  have hle : ∀ i ∈ act, (o i).length = wd i := by
    intro i hi
    have hlen := (h i hi).length
    have hlt := (h i hi).promptLt
    simp only [o, rows, targetRows, length_map, length_range]
    exact length_targetWindow (h i hi).windowSize_pos (by omega) (hwi i hi).1
  have hrow : ∀ i ∈ act, (o i).take ((st i).windowSize γ) =
      targetOutputs (fun p => (tgt p : Int)) (st i) γ := by
    intro i hi
    simp only [o, ← map_take]
    have := prefixIds_targetRows (i := i) (h i hi) (hwi i hi).1
    calc _ = (((rows i).take ((st i).windowSize γ)).map ForwardRow.prefixIds).map fun p => (tgt p : Int) := by
          rw [map_map]; rfl
      _ = _ := by rw [this, map_map]; rfl
  have hfl : (act.flatMap fun i => (o i).take ((st i).windowSize γ)) =
      act.flatMap fun i => targetOutputs (fun p => (tgt p : Int)) (st i) γ :=
    flatMap_congr hrow
  have hga := gather_validTokenIndices 0 _ wd o act fun i hi =>
    ⟨hle i hi, (hwi i hi).1⟩
  rw [hfl] at hga
  unfold targetRoundOutputsBatch
  rw [hsi, if_neg (by
    simp only [length_map, ne_eq, not_true_eq_false, false_or, any_eq_true, decide_eq_true_eq]
    rintro ⟨n, hn, hno⟩
    have := hra n hn
    omega), hok]
  simp only [ok_bind, pure_eq_ok, hzi, flatMap_map, map_flatMap]
  refine congrArg (fun t => Except.ok (TargetRound.mk t _)) ?_
  split
  · exact hga
  rename_i hlen
  rw [← hfl]
  refine (flatMap_take_of_length o _ act ?_).symm
  rw [hfl, ← hga, length_gather, not_not.mp hlen, ← length_map, map_flatMap]

end target

/-! ## Exchange and verdict -/

section verdict
variable {models : PearlModels} {round : Nat}

theorem exchangeDraftDeviceWindows_ok (h : ∀ i ∈ act, RowOk γ (st i)) (hn : ∀ i ∈ act,
      0 < (next i).length ∧ (next i).length = γ)
    (hs : szs = act.map fun i => (st i).windowSize γ) :
    exchangeDraftDeviceWindows γ (act.flatMap fun i => (st i).candidates (next i)) (act.map next) szs
      szs = .ok ((act.flatMap fun i => (st i).candidates (next i)) ++ act.flatMap next) := by
  subst hs
  have hl := length_flatMap_windows h fun i hi => (hn i hi).1
  unfold exchangeDraftDeviceWindows
  rw [if_neg (by simp [hl]), if_neg, if_neg (by simp)]
  · rw [← flatMap_def]
  · simp only [length_map, ne_eq, not_true_eq_false, false_or, any_map, any_eq_true, decide_eq_true_eq,
      not_exists, not_and, comp, not_not]
    exact fun i hi => (hn i hi).2

structure RowVerdictOk (models : PearlModels) (gamma : Nat) (s : PearlPipelineState) (next : List Int) (v : Nat × Int) :
    Prop where
  le : v.1 ≤ s.windowSize gamma
  correction : (decodeCorrection v.2).isSome ↔ v.1 < s.windowSize gamma
  nonneg : ∀ c, decodeCorrection v.2 = some c → 0 ≤ c
  greedy : s.temperature = 0 →
    (∀ j < v.1, (s.candidates next)[j]? = (targetOutputs (fun p => (models.target p : Int)) s gamma)[j]?) ∧
    (v.1 < s.windowSize gamma →
      decodeCorrection v.2 = (targetOutputs (fun p => (models.target p : Int)) s gamma)[v.1]?)

theorem rowVerdictOk_of
    (hm : mask.length = s.windowSize γ) (ht : ts.length = s.windowSize γ) (hpos : ∀ t ∈ ts, 0 ≤ t)
    (hgr : s.temperature = 0 → ts = targetOutputs (fun p => (ms.target p : Int)) s γ ∧
      ∀ j < (rowVerdict mask ts).1, (s.candidates nextRow)[j]? = ts[j]?) :
    RowVerdictOk ms γ s nextRow (rowVerdict mask ts) := by
  have hle := rowVerdict_le mask ts
  have hc := rowVerdict_correction (ht.trans hm.symm) hpos
  have hget : (rowVerdict mask ts).1 < mask.length →
      some (ts.getD (rowVerdict mask ts).1 0) = ts[(rowVerdict mask ts).1]? := fun hlt => by
    rw [getD_eq_getElem?_getD, getElem?_eq_getElem (by omega), Option.getD_some]
  rw [hm] at hle hc hget
  refine ⟨hle, ?_, fun c hce => ?_, fun h0 => ?_⟩
  · rw [hc]; split <;> simp_all
  · rw [hc] at hce
    split at hce
    · rename_i hlt
      rw [hget hlt] at hce
      exact hpos c (mem_of_getElem? hce)
    · cases hce
  · obtain ⟨he, hma⟩ := hgr h0
    rw [← he]
    exact ⟨hma, fun hlt => by rw [hc, if_pos hlt, hget hlt]⟩

theorem verifyTargetTokensBatch_ok (ms : PearlModels) (round : Nat) (next : Nat → List Int) (hg : 0 < γ) (hn : act.Nodup) (hne : act ≠ [])
    (h : ∀ i ∈ act, RowOk γ (st i)) (hnext : ∀ i ∈ act, 0 < (next i).length)
    (hte : (∀ i ∈ act, (st i).temperature = 0) ∨ ∀ i ∈ act, 0 < (st i).temperature) (rest : List Int) :
    ∃ v : Nat → Nat × Int,
      verifyTargetTokensBatch ms round γ
        (act.flatMap fun i => targetOutputs (fun p => (ms.target p : Int)) (st i) γ)
        ((act.flatMap fun i => (st i).candidates (next i)) ++ rest)
        (act.map fun i => (st i).windowSize γ) (act.map fun i => (st i).temperature) =
          .ok (act.map v) ∧
      ∀ i ∈ act, RowVerdictOk ms γ (st i) (next i) (v i) := by
  have hca := length_flatMap_windows h hnext
  have hlc i (hi : i ∈ act) := length_candidates (h i hi) (hnext i hi)
  have htok : (act.flatMap fun i => targetOutputs (fun p => (ms.target p : Int)) (st i) γ).length =
      (act.map fun i => (st i).windowSize γ).sum :=
    length_flatMap_sum fun i _ => length_targetOutputs _ _ _
  obtain ⟨packed, hpa, hpl, hmem⟩ : ∃ packed : List ℚ, (((act.map fun i => (st i).temperature).zip
      (act.map fun i => (st i).windowSize γ)).flatMap fun p => replicate p.2 p.1) = packed ∧
      packed.length = (act.map fun i => (st i).windowSize γ).sum ∧
      ∀ x, x ∈ packed ↔ ∃ i ∈ act, (st i).temperature = x := by
    rw [zip_map', flatMap_map]
    refine ⟨_, rfl, length_flatMap_sum fun i _ => length_replicate, fun x => ?_⟩
    simp only [mem_flatMap, mem_replicate]
    exact ⟨fun ⟨i, hi, _, e⟩ => ⟨i, hi, e.symm⟩, fun ⟨i, hi, e⟩ => ⟨i, hi, (h i hi).windowSize_pos.ne', e.symm⟩⟩
  have hsi := windowSizes_range hg h
  unfold verifyTargetTokensBatch
  simp only [hpa, htok, ne_eq, not_true_eq_false, if_false, take_left' hca]
  rcases hte with h0 | hp
  · have hall : packed.all (· = 0) = true := by
      simp only [all_eq_true, hmem, decide_eq_true_eq]
      rintro x ⟨i, hi, rfl⟩
      exact h0 i hi
    have hl i (hi : i ∈ act) := (length_targetOutputs (ms.target · : _ → Int) (st i) γ).trans (hlc i hi).symm
    rw [if_pos hall, ← map_congr_left hlc, buildGreedyVerdictWithLayout_rows γ _ _ act fun i hi =>
      ⟨hl i hi, (hlc i hi).trans_le ((h i hi).windowSize_le hg)⟩]
    refine ⟨_, rfl, fun i hi => ?_⟩
    refine rowVerdictOk_of ?_ (length_targetOutputs _ _ _) ?_ fun _ => ⟨rfl, fun j hj => rowVerdict_match (hl i hi) hj⟩
    · simp [matchMask, hlc i hi]
    · intro t ht
      obtain ⟨j, -, rfl⟩ := mem_map.mp ht
      exact Int.natCast_nonneg _
  · obtain ⟨i0, hi0⟩ := exists_mem_of_ne_nil act hne
    have hall : ¬ packed.all (· = 0) = true := by
      simp only [all_eq_true, decide_eq_true_eq, not_forall]
      exact ⟨_, (hmem _).mpr ⟨i0, hi0, rfl⟩, (hp i0 hi0).ne'⟩
    have hpos : packed.all (0 < ·) = true := by
      simp only [all_eq_true, hmem, decide_eq_true_eq]
      rintro x ⟨i, hi, rfl⟩
      exact hp i hi
    rw [if_neg hall, if_neg (by simp [hca, hpl]), if_neg (by simp [hpos])]
    unfold buildVerdictFromAcceptance
    rw [if_neg (by
      simp only [any_eq_true, decide_eq_true_eq, not_or, not_exists, not_and]
      exact ⟨by omega, fun n hm => by have := hsi n hm; omega⟩), if_neg (by simp)]
    have hsp := verdictRows_spec γ _
      ((range (act.map fun i => (st i).windowSize γ).sum).map (ms.accept round))
      ((range (act.map fun i => (st i).windowSize γ).sum).map fun k => (ms.correction round k : Int))
      (fun n hm => (hsi n hm).2) (by simp) (by simp) (by
        intro c hm
        obtain ⟨k, -, rfl⟩ := mem_map.mp hm
        exact Int.natCast_nonneg _)
    obtain ⟨v, hv⟩ := exists_map_eq hn (by simpa using hsp.length_eq.symm)
    refine ⟨v, congrArg _ hv, fun i hi => ?_⟩
    rw [hv, forall₂_map_left_iff, forall₂_map_right_iff, forall₂_same] at hsp
    obtain ⟨mask, ts, hm, ht, hnn, he⟩ := hsp i hi
    rw [he]
    exact rowVerdictOk_of hm ht hnn fun h0 => absurd h0 (hp i hi).ne'

def RoundResult.ofRows (active : List Nat) (v : Nat → Nat × Int) (next : Nat → List Int) : RoundResult where
  accepted := active.map fun i => ((v i).1 : Int)
  corrections := active.map fun i => decodeCorrection (v i).2
  nextWindows := active.map next

section
variable {size : Nat → Nat} {szs : Option (List Nat)} (hn : ∀ i ∈ act, (next i).length = γ)
  (hsize : ∀ i ∈ act, 0 < size i ∧ size i ≤ γ)
  (hs : szs.getD (List.replicate act.length γ) = act.map size) (v : Nat → Nat × Int)
include hn hsize hs

theorem decodeRoundResult_ok : decodeRoundResult γ act.length
      ((act.map v).flatMap fun row => [(row.1 : Int), row.2]) (act.flatMap next) szs =
    .ok (.ofRows act v fun i => (next i).take (size i)) := by
  have hl : ((act.map v).flatMap fun row => [(row.1 : Int), row.2]).length = act.length * 2 := by
    rw [length_pairs, length_map]
  unfold decodeRoundResult
  rw [hs]
  simp only [take_left' hl, drop_left' hl]
  rw [if_neg (by
    simp only [length_map, ne_eq, not_true_eq_false, false_or, any_map, any_eq_true, decide_eq_true_eq,
      not_exists, not_and, comp]
    exact fun i hi => by have := hsize i hi; omega), evens_pairs, odds_pairs, map_map, map_map, map_map,
    map_zipIdx_rows γ next size act fun i hi => ⟨hn i hi, (hsize i hi).2⟩]
  rfl

theorem broadcastDeviceRoundResult_ok (verification : List Int) : broadcastDeviceRoundResult γ (act.map v)
      (verification ++ act.flatMap next) verification.length act.length act.length (act.map next) szs szs =
    .ok (.ofRows act v fun i => (next i).take (size i), .ofRows act v fun i => (next i).take (size i)) := by
  unfold broadcastDeviceRoundResult
  rw [drop_left' rfl, ← flatMap_def]
  rw [if_neg (by rw [length_pairs]; simp), if_neg (by
    simp only [length_map, ne_eq, not_true_eq_false, false_or, any_map, any_eq_true, decide_eq_true_eq,
      not_exists, not_and, comp, not_not]
    exact hn), decodeRoundResult_ok hn hsize hs]

end

end verdict

/-! ## The state update -/

structure PearlRowOk (gamma : Nat) (s : PearlPipelineState) : Prop extends RowOk gamma s where
  pending : s.preVerify = false → s.pendingWindowSize = gamma

theorem PearlRowOk.windowSize_eq (h : PearlRowOk γ s) :
    (if s.preVerify then 1 else γ) = s.windowSize γ := by
  unfold windowSize
  split
  · rfl
  · rw [h.pending (by simp_all)]; split <;> rfl

theorem RowVerdictOk.verdictOk {next : List Int} (h : RowVerdictOk ms γ s next v) (hp : 0 < next.length) (hle : next.length ≤ γ) :
    VerdictOk s γ v.1 (decodeCorrection v.2) next :=
  ⟨h.le, h.correction, hp, hle⟩

section update
variable {run : PearlRun} {r : PearlRank} {v : Nat → Nat × Int}

def nextState (run : PearlRun) (r : PearlRank) (v : Nat → Nat × Int) (next : Nat → List Int) (i : Nat) :
    PearlPipelineState :=
  (r.states i).verified run.gamma (v i).1 (decodeCorrection (v i).2) (next i)

def nextGains (run : PearlRun) (r : PearlRank) (v : Nat → Nat × Int) (next : Nat → List Int) (i : Nat) : List Nat :=
  if run.continuous ∧ (r.completedRequestStates i).isNone then
    let gains := r.recentSchedulingTokenGains i ++
      [(nextState run r v next i).committedLength - (r.states i).committedLength]
    gains.drop (gains.length - 32)
  else r.recentSchedulingTokenGains i

def PearlRank.after (run : PearlRun) (r : PearlRank) (v : Nat → Nat × Int) (next : Nat → List Int) (done : List Nat) :
    PearlRank :=
  { r with
    states := patch done (nextState run r v next) r.states
    recentSchedulingTokenGains := patch done (nextGains run r v next) r.recentSchedulingTokenGains }

theorem after_nil : r.after run v next [] = r := by
  simp [PearlRank.after]

theorem appendGain_after (hi : i ∉ done) : appendGain run (r.after run v next done) i
        ((nextState run r v next i).committedLength - (r.states i).committedLength) =
      (r.after run v next (done ++ [i])).recentSchedulingTokenGains := by
  have ho : (r.after run v next done).recentSchedulingTokenGains i = r.recentSchedulingTokenGains i :=
    patch_of_notMem hi _ _
  have hn := update_patch done i (nextGains run r v next) r.recentSchedulingTokenGains
  unfold appendGain
  rw [ho]
  by_cases hc : run.continuous ∧ (r.completedRequestStates i).isNone
  · rw [show nextGains run r v next i = _ from if_pos hc] at hn
    rw [if_pos (show run.continuous ∧ ((r.after run v next done).completedRequestStates i).isNone from hc)]
    exact hn
  rw [show nextGains run r v next i = r.recentSchedulingTokenGains i from if_neg hc,
    ← patch_of_notMem hi _ r.recentSchedulingTokenGains, update_eq_self] at hn
  rw [if_neg (show ¬ (run.continuous ∧ ((r.after run v next done).completedRequestStates i).isNone) from hc)]
  exact hn

theorem applyRow_ok (isDraft : Bool) (hg : 0 < run.gamma) (h : RowOk run.gamma (r.states i))
    (hv : VerdictOk (r.states i) run.gamma (v i).1 (decodeCorrection (v i).2) (next i)) :
    applyRow run.gamma isDraft (r.states i)
      ⟨i, (r.states i).committedLength, (v i).1, decodeCorrection (v i).2, next i⟩ = .ok (nextState run r v next i) := by
  cases isDraft with
  | false => exact applyTargetVerification_ok h hv hg (.inl rfl)
  | true =>
    have := applyDraftVerification_ok h hv hg (.inl rfl) [] fun _ => rfl
    simp only [append_nil] at this
    exact this

theorem updateRow_ok (isDraft : Bool) (hg : 0 < run.gamma) (hi : i ∉ done) (h : RowOk run.gamma (r.states i))
    (hv : VerdictOk (r.states i) run.gamma (v i).1 (decodeCorrection (v i).2) (next i)) :
    updateRow run isDraft (r.after run v next done)
        ⟨i, (r.states i).committedLength, (v i).1, decodeCorrection (v i).2, next i⟩ =
      .ok (r.after run v next (done ++ [i])) := by
  have hs : (r.after run v next done).states i = r.states i := patch_of_notMem hi _ _
  have hst : update (r.after run v next done).states i (nextState run r v next i) =
      (r.after run v next (done ++ [i])).states := update_patch _ _ _ _
  unfold updateRow
  rw [hs, applyRow_ok isDraft hg h hv]
  simp only [ok_bind, pure_eq_ok, hst, appendGain_after hi]
  rfl

theorem foldlM_updateRow (isDraft : Bool) (hg : 0 < run.gamma) (hn : act.Nodup)
    (h : ∀ i ∈ act, RowOk run.gamma (r.states i))
    (hv : ∀ i ∈ act, VerdictOk (r.states i) run.gamma (v i).1 (decodeCorrection (v i).2) (next i)) :
    (verdictUpdates r act (.ofRows act v next)).foldlM (updateRow run isDraft) r =
      .ok (r.after run v next act) := by
  have hr : verdictUpdates r act (.ofRows act v next) = act.map fun i => ⟨i, (r.states i).committedLength, (v i).1, decodeCorrection (v i).2, next i⟩ := by
    unfold verdictUpdates RoundResult.ofRows
    rw [zip_map', zip_map', ← map_prod_left_eq_zip, map_map]
    rfl
  rw [hr, foldlM_map]
  have := foldlM_closed (fun r' i => updateRow run isDraft r'
      ⟨i, (r.states i).committedLength, (v i).1, decodeCorrection (v i).2, next i⟩) _ act [] hn
    fun done i hi hm => updateRow_ok isDraft hg hi (h i hm) (hv i hm)
  rwa [after_nil, nil_append] at this

end update

/-! ## The round -/

theorem pearlRound_ok (hg : 0 < run.gamma) (hn : act.Nodup)
    (hne : act ≠ []) (h : ∀ i ∈ act, PearlRowOk run.gamma (r.states i))
    (hte : (∀ i ∈ act, (r.states i).temperature = 0) ∨ ∀ i ∈ act, 0 < (r.states i).temperature) :
    ∃ (v : Nat → Nat × Int) (wd : Nat → Nat),
      let next := fun i => draftWindow (run.models.draft r.roundCount) r.states i run.gamma
      let r' := { r.after run v next act with roundCount := r.roundCount + 1 }
      (∀ i ∈ act, RowVerdictOk run.models run.gamma (r.states i) (next i) (v i)) ∧
      (∀ i ∈ act, (r.states i).windowSize run.gamma ≤ wd i ∧ wd i ≤ run.gamma) ∧
      pearlRound run r r act act = .ok (r', r',
        ⟨draftForwards r.states (act.map fun i => (i, run.gamma)) (act.map next),
          act.flatMap fun i => targetRows i (r.states i) ((r.states i).windowSize run.gamma) (wd i)⟩) := by
  have hrow : ∀ i ∈ act, RowOk run.gamma (r.states i) := fun i hi => (h i hi).toRowOk
  have hsi : verificationSizes run.gamma r.states act = act.map fun i => (r.states i).windowSize run.gamma :=
    map_congr_left fun i hi => (h i hi).windowSize_eq
  obtain ⟨wd, hwi, htr⟩ := targetRoundOutputsBatch_ok run.models.target hg run.cfg.buckets_pos
    run.cfg.postCounts_ok hn hrow (.inl rfl)
  let next := fun i => draftWindow (run.models.draft r.roundCount) r.states i run.gamma
  have hlen : ∀ i ∈ act, (next i).length = run.gamma := fun i _ => length_draftWindow _ _
  have hpos : ∀ i ∈ act, 0 < (next i).length := fun i hi => by rw [hlen i hi]; exact hg
  obtain ⟨v, hve, hv⟩ := verifyTargetTokensBatch_ok run.models r.roundCount next hg hn hne hrow hpos hte _
  refine ⟨v, wd, hv, hwi, ?_⟩
  have hec := exchangeDraftDeviceWindows_ok hrow (fun i hi => ⟨hpos i hi, hlen i hi⟩) hsi
  have hca := length_flatMap_windows hrow hpos
  have hbr := @broadcastDeviceRoundResult_ok _ _ _ _ none hlen (fun _ _ => ⟨hg, le_refl _⟩) map_const'.symm v
    (act.flatMap fun i => (r.states i).candidates (next i))
  have hta : RoundResult.ofRows act v (fun i => (next i).take run.gamma) = .ofRows act v next := by
    rw [RoundResult.ofRows, map_congr_left fun i hi => take_of_length_le (hlen i hi).le]
    rfl
  have hok : ∀ i ∈ act, VerdictOk (r.states i) run.gamma (v i).1 (decodeCorrection (v i).2) (next i) := fun i hi =>
    (hv i hi).verdictOk (hpos i hi) (hlen i hi).le
  rw [hca, hta] at hbr
  rw [hsi] at hec
  unfold pearlRound
  rw [draftRoundDeviceBatch_ok hg hrow, htr, hsi]
  simp only [bind, Except.bind, Except.mapError, pure, Except.pure]
  rw [hec]
  simp only
  rw [hve]
  simp only
  rw [hbr]
  simp only
  rw [foldlM_updateRow true hg hn hrow hok, foldlM_updateRow false hg hn hrow hok]

end VllmAscend
