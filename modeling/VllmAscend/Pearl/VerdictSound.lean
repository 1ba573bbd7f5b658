import VllmAscend.Pearl.Verdict

/-!
# Packed verification, row by row

A verdict over flat vectors is the verdict of each row on its own window, and
padding a batch to a graph shape loses no row: what is read back are the first
`size` outputs of each.
-/

namespace VllmAscend

open Python Packed List Nat

/-! ## One row -/

def rowVerdict (mask : List Bool) (tokens : List Int) : Nat × Int :=
  (mask.findIdx (!·), if mask.all id then -1 else tokens.getD (mask.findIdx (!·)) 0)

def matchMask (t d : List Int) : List Bool := List.zipWith (fun t d => decide (t = d)) t d

variable {m : List Bool}

theorem findIdx_not_lt (h : ¬ m.all id = true) : m.findIdx (!·) < m.length := by
  rw [findIdx_lt_length]
  simp only [all_eq_true, id, not_forall] at h
  obtain ⟨x, hx, hne⟩ := h
  exact ⟨x, hx, by simpa using hne⟩

theorem findIdx_not_of_all (h : m.all id = true) : m.findIdx (!·) = m.length := by
  simpa [all_eq_true] using h

def decodeCorrection (value : Int) : Option Int := if value = -1 then none else some value

theorem rowVerdict_le (mask : List Bool) (ts : List Int) : (rowVerdict mask ts).1 ≤ mask.length :=
  findIdx_le_length

theorem rowVerdict_correction (hl : ts.length = mask.length) (hp : ∀ t ∈ ts, 0 ≤ t) :
    decodeCorrection (rowVerdict mask ts).2 =
      if (rowVerdict mask ts).1 < mask.length then some (ts.getD (rowVerdict mask ts).1 0) else none := by
  unfold rowVerdict decodeCorrection
  by_cases h : mask.all id = true
  · simp [h, findIdx_not_of_all h]
  have hlt := findIdx_not_lt h
  have hm : ts.getD (mask.findIdx (!·)) 0 ∈ ts := by
    rw [getD_eq_getElem?_getD, getElem?_eq_getElem (by omega), Option.getD_some]
    exact getElem_mem _
  have := hp _ hm
  simp only [h, if_false, Bool.false_eq_true, hlt, if_true]
  rw [if_neg (by omega)]

theorem rowVerdict_match (hl : t.length = d.length) (hj : j < (rowVerdict (matchMask t d) t).1) : d[j]? = t[j]? := by
  have hle := rowVerdict_le (matchMask t d) t
  have hm : (matchMask t d).length = d.length := by simp [matchMask, hl]
  have hb := not_of_lt_findIdx hj
  have hjt : j < t.length := by omega
  have hjd : j < d.length := by omega
  simp only [matchMask, getElem_zipWith, Bool.not_eq_eq_eq_not, Bool.not_false, decide_eq_true_eq] at hb
  rw [getElem?_eq_getElem hjd, getElem?_eq_getElem hjt, hb]

theorem argmaxBool_not (h : ¬ m.all id = true) : argmaxBool ((m ++ l).map (!·)) = m.findIdx (!·) := by
  have hlt := findIdx_not_lt h
  rw [argmaxBool, findIdx?_map, findIdx?_append]
  have hs : m.findIdx? (id ∘ fun x => !x) = some (m.findIdx (!·)) := by
    rw [findIdx?_eq_some_iff_findIdx_eq]; exact ⟨hlt, rfl⟩
  rw [hs]; rfl

theorem verdictRow_padded (ts : List Int) (hm : m.length ≤ γ) (hf : ∀ c < m.length, f c = ts.getD c 0) :
    verdictRow γ m.length (m ++ replicate (γ - m.length) true) f = rowVerdict m ts := by
  have ha : (m ++ replicate (γ - m.length) true).all id = m.all id := by
    rw [all_append]; simp
  unfold verdictRow rowVerdict
  rw [ha]
  by_cases h : m.all id = true
  · simp [h, findIdx_not_of_all h]
  have hlt := findIdx_not_lt h
  simp only [h, argmaxBool_not h, if_false, Bool.false_eq_true]
  rw [min_eq_left (by omega), hf _ hlt]

/-! ## The layout -/

theorem densePositions_cons (γ size : Nat) (szs : List Nat) :
    (buildVerificationLayout (size :: szs) γ).densePositions =
      range size ++ (buildVerificationLayout szs γ).densePositions.map (γ + ·) := by
  simp only [buildVerificationLayout, zipIdx_cons, flatMap_cons, zero_mul, zero_add, map_id']
  congr 1
  rw [zipIdx_succ, flatMap_map, map_flatMap]
  refine flatMap_congr fun p _ => ?_
  rw [map_map]
  refine map_congr_left fun c _ => ?_
  simp only [Function.comp]
  rw [add_mul]; omega

theorem scatter_dense (m : ι → List Bool) : ∀ rows : List ι, (∀ r ∈ rows, (m r).length ≤ γ) →
    scatter (replicate (rows.length * γ) true)
      (buildVerificationLayout (rows.map fun r => (m r).length) γ).densePositions (rows.flatMap m) =
    rows.flatMap fun r => m r ++ replicate (γ - (m r).length) true
  | [], _ => by simp [buildVerificationLayout]
  | r :: rows, h => by
    have hm : (m r).length ≤ γ := h r (by simp)
    rw [map_cons, densePositions_cons, length_cons, flatMap_cons, flatMap_cons,
      add_mul, one_mul, add_comm, ← replicate_append_replicate]
    have hr := scatter_row (range (m r).length) (m r) (replicate γ true) (replicate (rows.length * γ) true)
      (buildVerificationLayout (rows.map fun r => (m r).length) γ).densePositions (rows.flatMap m) (by simp)
      (by simp only [mem_range, length_replicate]; omega)
    rw [length_replicate] at hr
    rw [hr, scatter_dense m rows fun r' h' => h r' (mem_cons_of_mem _ h')]
    congr 1
    conv_lhs => rw [show γ = (m r).length + (γ - (m r).length) by omega]
    rw [← replicate_append_replicate, scatter_range (m r) _ _ (by simp)]

theorem zipWith_verdictRow (t : ι → List Int) (m : ι → List Bool) : ∀ (rows : List ι) (pre : List Int),
    (∀ r ∈ rows, (t r).length = (m r).length ∧ (m r).length ≤ γ) →
    zipWith (fun row p => verdictRow γ p.1 row fun column => (pre ++ rows.flatMap t).getD (p.2.getD column 0) 0)
      (rows.map fun r => m r ++ replicate (γ - (m r).length) true)
      ((rows.map fun r => (m r).length).zip (packedPositions γ (rows.map fun r => (m r).length) pre.length)) =
    rows.map fun r => rowVerdict (m r) (t r)
  | [], _, _ => rfl
  | r :: rows, pre, h => by
    obtain ⟨hl, hle⟩ := h r (by simp)
    simp only [map_cons, packedPositions, zip_cons_cons, zipWith_cons_cons]
    congr 1
    · refine verdictRow_padded _ hle fun c hc => ?_
      have hp : ((range (m r).length).map (pre.length + ·) ++ replicate (γ - (m r).length)
          (((range (m r).length).map (pre.length + ·)).getLastD 0)).getD c 0 = pre.length + c := by
        rw [getD_append _ _ _ _ (by simpa using hc), getD_eq_getElem?_getD, getElem?_map,
          getElem?_range hc, Option.map_some, Option.getD_some]
      rw [hp, getD_append_right _ _ _ _ (by omega), Nat.add_sub_cancel_left, flatMap_cons,
        getD_append _ _ _ _ (by omega)]
    · have := zipWith_verdictRow t m rows (pre ++ t r) fun r' h' => h r' (mem_cons_of_mem _ h')
      rw [length_append, hl] at this
      rw [← this, flatMap_cons, append_assoc]

theorem buildGreedyVerdictWithLayout_rows (γ : Nat) (t d : ι → List Int) (rows : List ι)
    (h : ∀ r ∈ rows, (t r).length = (d r).length ∧ (d r).length ≤ γ) :
    buildGreedyVerdictWithLayout (rows.flatMap t) (rows.flatMap d)
        (buildVerificationLayout (rows.map fun r => (d r).length) γ) γ =
      rows.map fun r => rowVerdict (matchMask (t r) (d r)) (t r) := by
  let m := fun r => matchMask (t r) (d r)
  have hm : ∀ r ∈ rows, (m r).length = (d r).length := fun r hr => by
    simp only [m, matchMask, length_zipWith]
    have := (h r hr).1; omega
  have hle : ∀ r ∈ rows, (m r).length ≤ γ := fun r hr => by rw [hm r hr]; exact (h r hr).2
  have hs : (rows.map fun r => (d r).length) = rows.map fun r => (m r).length :=
    map_congr_left fun r hr => (hm r hr).symm
  have hsc := scatter_dense m rows hle
  have hz := zipWith_verdictRow t m rows [] fun r hr => ⟨by rw [hm r hr]; exact (h r hr).1, hle r hr⟩
  have hre := reshape_flatMap γ (fun r => m r ++ replicate (γ - (m r).length) true) rows fun r hr => by
    have := hle r hr
    simp only [length_append, length_replicate]; omega
  have hma : zipWith (fun t d => decide (t = d)) (rows.flatMap t) (rows.flatMap d) = rows.flatMap m :=
    zipWith_flatMap _ t d rows fun r hr => (h r hr).1
  unfold buildGreedyVerdictWithLayout
  rw [hma, hs]
  simp only [buildVerificationLayout, length_map, nil_append, length_nil] at hsc hz ⊢
  rw [hsc, hre, hz]

theorem verdictRows_rows (γ : Nat) (t : ι → List Int) (m : ι → List Bool) : ∀ rows : List ι,
    (∀ r ∈ rows, (t r).length = (m r).length ∧ (m r).length ≤ γ) →
    verdictRows γ (rows.map fun r => (m r).length) (rows.flatMap m) (rows.flatMap t) =
      rows.map fun r => rowVerdict (m r) (t r)
  | [], _ => rfl
  | r :: rows, h => by
    obtain ⟨⟨hl, hle⟩, hro⟩ := forall_mem_cons.mp h
    have hr := verdictRow_padded (f := ((t r ++ replicate (γ - (m r).length) 0).getD · 0)) (t r) hle
      fun c hc => getD_append _ _ _ _ (by omega)
    rw [map_cons, map_cons, verdictRows, flatMap_cons, flatMap_cons, take_left, take_left' hl, drop_left,
      drop_left' hl, verdictRows_rows γ t m rows hro, hr]

theorem verdictRows_spec (γ : Nat) : ∀ (szs : List Nat) (acc : List Bool) (corr : List Int),
    (∀ n ∈ szs, n ≤ γ) → acc.length = szs.sum → corr.length = szs.sum →
    (∀ c ∈ corr, 0 ≤ c) →
    List.Forall₂ (fun n v => ∃ mask ts, mask.length = n ∧ ts.length = n ∧ (∀ t ∈ ts, 0 ≤ t) ∧
      v = rowVerdict mask ts) szs (verdictRows γ szs acc corr)
  | [], _, _, _, _, _, _ => .nil
  | n :: szs, acc, corr, hle, ha, hc, hp => by
    rw [sum_cons] at ha hc
    have hm : (acc.take n).length = n := by rw [length_take]; omega
    have ht : (corr.take n).length = n := by rw [length_take]; omega
    refine .cons ⟨acc.take n, corr.take n, hm, ht, fun t h => hp t (mem_of_mem_take h), ?_⟩ ?_
    · have := verdictRow_padded (f := ((corr.take n ++ replicate (γ - n) 0).getD · 0))
        (corr.take n) (by rw [hm]; exact hle n (by simp) : (acc.take n).length ≤ γ)
        fun c h => getD_append _ _ _ _ (by omega)
      rwa [hm] at this
    · exact verdictRows_spec γ szs _ _ (fun m h => hle m (mem_cons_of_mem _ h)) (by rw [length_drop]; omega)
        (by rw [length_drop]; omega) fun c h => hp c (mem_of_mem_drop h)

/-! ## Graph widths -/

theorem targetGraphPostCounts_mem (h : PostCountsOk configured)
    (bs numBuckets : Nat) : bs ∈ targetGraphPostCountsForBatch bs numBuckets configured := by
  unfold targetGraphPostCountsForBatch
  split
  · rename_i b postCounts hf
    have hb : b = bs := by simpa using find?_some hf
    rw [← hb]
    exact mem_of_getLast? (h _ (mem_of_find?_eq_some hf)).2.1
  · simp

theorem bucketWidthsLoop_widths (γ : Nat) : ∀ (szs : List Nat) (padded off : Nat),
    (∀ n ∈ szs, 0 < n ∧ n ≤ γ) →
    List.Forall₂ (fun size wd => size ≤ wd ∧ wd ≤ γ) szs
      (bucketWidthsLoop γ (szs.map fun size => !decide (1 < size)) padded off).1
  | [], _, _, _ => .nil
  | n :: szs, padded, off, h => by
    have hn := h n (by simp)
    have ht := fun p o => bucketWidthsLoop_widths γ szs p o fun m hm => h m (mem_cons_of_mem _ hm)
    rw [map_cons, bucketWidthsLoop]
    split
    · exact .cons ⟨hn.2, le_refl _⟩ (ht _ _)
    rename_i hp
    have h1 : n = 1 := by simp at hp; omega
    split
    · exact .cons ⟨hn.2, le_refl _⟩ (ht _ _)
    · exact .cons ⟨h1.le, by omega⟩ (ht _ _)

theorem bucketTarget_ok (hg : 0 < γ) (hb : 0 < numBuckets) (hc : PostCountsOk configured) (pv : List Bool) :
    ∃ padded, (targetGraphPostCountsForBatch pv.length numBuckets configured).find?
        (pv.countP (!·) ≤ ·) = some padded ∧
      bucketTargetVerificationWidths pv γ numBuckets configured =
        .ok (bucketWidthsLoop γ pv (padded - pv.countP (!·)) 0) := by
  cases hf : (targetGraphPostCountsForBatch pv.length numBuckets configured).find?
      (pv.countP (!·) ≤ ·) with
  | none =>
    rw [find?_eq_none] at hf
    exact absurd countP_le_length (by simpa using hf _ (targetGraphPostCounts_mem hc _ numBuckets))
  | some padded =>
    refine ⟨padded, rfl, ?_⟩
    rw [bucketTargetVerificationWidths, if_neg (by omega)]
    cases pv with
    | nil => rfl
    | cons => simp only [if_neg (cons_ne_nil _ _), hf]

theorem bucketVariable_ok
    (hg : 0 < γ) (hb : 0 < numBuckets) (hc : PostCountsOk configured) (hs : ∀ n ∈ szs, 0 < n ∧ n ≤ γ) :
    ∃ ws valid, bucketTargetVerificationWidths (szs.map fun size => !decide (1 < size)) γ numBuckets configured =
        .ok (ws, valid) ∧
      bucketVariableTargetVerificationWidths szs γ numBuckets configured =
        .ok (ws, validTokenIndices szs ws 0) ∧
      List.Forall₂ (fun size wd => size ≤ wd ∧ wd ≤ γ) szs ws := by
  have ha : ¬ (szs.any fun size => size = 0 ∨ γ < size) = true := by
    simp only [any_eq_true, decide_eq_true_eq, not_exists, not_and]
    exact fun n hn => by have := hs n hn; omega
  obtain ⟨padded, -, h⟩ := bucketTarget_ok hg hb hc _
  refine ⟨_, _, h, ?_, bucketWidthsLoop_widths γ szs _ 0 hs⟩
  rw [bucketVariableTargetVerificationWidths, if_neg ha, h]
  rfl

theorem validTokenIndices_shift (k : Nat) : ∀ (szs ws : List Nat) (off : Nat),
    validTokenIndices szs ws (k + off) = (validTokenIndices szs ws off).map (k + ·)
  | [], _, _ => by simp [validTokenIndices]
  | _ :: _, [], _ => by simp [validTokenIndices]
  | n :: szs, w :: ws, off => by
    rw [validTokenIndices, validTokenIndices, map_append, map_map, add_assoc, validTokenIndices_shift k szs ws]
    congr 1
    refine map_congr_left fun i _ => ?_
    simp only [Function.comp]; omega

theorem gather_validTokenIndices (d : Int) (size wd : ι → Nat) (o : ι → List Int) : ∀ rows : List ι,
    (∀ r ∈ rows, (o r).length = wd r ∧ size r ≤ wd r) →
    gather d (rows.flatMap o) (validTokenIndices (rows.map size) (rows.map wd) 0) =
      rows.flatMap fun r => (o r).take (size r)
  | [], _ => rfl
  | r :: rows, h => by
    obtain ⟨hl, hle⟩ := h r (by simp)
    rw [map_cons, map_cons, validTokenIndices, zero_add, ← add_zero (wd r),
      validTokenIndices_shift, ← hl, flatMap_cons, flatMap_cons]
    simp only [zero_add, map_id']
    rw [gather_row d _ _ _ _ (by simp only [mem_range]; omega), gather_range d _ _ (by omega),
      gather_validTokenIndices d size wd o rows fun r' h' => h r' (mem_cons_of_mem _ h')]

end VllmAscend
