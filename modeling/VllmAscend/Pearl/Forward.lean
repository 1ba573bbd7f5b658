import VllmAscend.Pearl.RequestSound

/-!
# What a forward writes and reads

A forward stores the keys and values of all its rows, then each row attends the
positions up to its own. `KvCache` remembers what each position was last written
for.
-/

namespace VllmAscend

open Python Packed Rows Run PearlPipelineState List Function

variable {kv : KvCache} {st : States} {rs : List Nat}

/-- The tokens each position of each sequence was last written for, through that position. -/
abbrev KvCache := Nat → Nat → Option (List Int)

namespace KvCache

def writeRow (kv : KvCache) (row : ForwardRow) : KvCache :=
  Function.update kv row.sequence (Function.update (kv row.sequence) row.position (some row.prefixIds))

def store (kv : KvCache) (rows : List ForwardRow) : KvCache := rows.foldl writeRow kv

end KvCache

/-- Each row attends only what was written for its own tokens, and these are the request's where it has any. -/
def AttendsFresh (tokens : Nat → List Int) (kv : KvCache) (rows : List ForwardRow) : Prop :=
  ∀ row ∈ rows, row.prefixIds.length = row.position + 1 ∧ ∀ p ≤ row.position,
    kv.store rows row.sequence p = some (row.prefixIds.take (p + 1)) ∧
    (p < (tokens row.sequence).length → row.prefixIds.take (p + 1) = (tokens row.sequence).take (p + 1))

def Stored (cells : Nat → Option (List Int)) (tokens : List Int) (n : Nat) : Prop :=
  ∀ p < n, cells p = some (tokens.take (p + 1))

theorem Stored.of_take
    (h : Stored cells ts n) (hle : m ≤ n) (heq : tokens'.take m = ts.take m) : Stored cells tokens' m := by
  intro p hp
  have ht : tokens'.take (p + 1) = ts.take (p + 1) := by
    have := congrArg (take (p + 1)) heq
    rwa [take_take, take_take, Nat.min_eq_left (by omega)] at this
  rw [h p (by omega), ht]

def kvAfter (kv : KvCache × KvCache) (events : List RoundForwards) : KvCache × KvCache :=
  ((events.flatMap (·.draft)).foldl KvCache.store kv.1, (events.map (·.target)).foldl KvCache.store kv.2)

structure RoundFresh (draftTokens targetTokens : Nat → List Int) (kv : KvCache × KvCache) (e : RoundForwards) :
    Prop where
  draft : Guarded KvCache.store (AttendsFresh draftTokens) kv.1 e.draft
  target : AttendsFresh targetTokens kv.2 e.target

theorem kvAfter_concat {kv : KvCache × KvCache} :
    kvAfter kv (es ++ [e]) = (e.draft.foldl KvCache.store (kvAfter kv es).1, (kvAfter kv es).2.store e.target) := by
  simp [kvAfter, flatMap_append, foldl_append]

/-! ## Rows -/

def Reads (text : Nat → List Int) (rows : List ForwardRow) : Prop :=
  ∀ row ∈ rows, row.position < (text row.sequence).length ∧
    row.prefixIds = (text row.sequence).take (row.position + 1)

theorem store_of_notMem : ∀ {rows : List ForwardRow} {kv : KvCache},
    (∀ row ∈ rows, row.sequence = i → row.position ≠ p) → kv.store rows i p = kv i p
  | [], _, _ => rfl
  | row :: rows, kv, h => by
    have ih : KvCache.store (kv.writeRow row) rows i p = kv.writeRow row i p :=
      store_of_notMem fun row' hm => h row' (mem_cons_of_mem _ hm)
    refine ih.trans ?_
    unfold KvCache.writeRow
    by_cases hi : i = row.sequence
    · subst hi
      rw [update_self, update_of_ne (h row (mem_cons_self ..) rfl).symm]
    · rw [update_of_ne hi]

theorem store_of_mem : ∀ {rows : List ForwardRow} {kv : KvCache}, Reads text rows →
    (∃ row ∈ rows, row.sequence = i ∧ row.position = p) → kv.store rows i p = some ((text i).take (p + 1))
  | [], _, _, ⟨_, hm, _⟩ => by cases hm
  | row :: rows, kv, h, ⟨row', hm, hi, hp⟩ => by
    have hrest : Reads text rows := fun r hr => h r (mem_cons_of_mem _ hr)
    by_cases hl : ∃ r ∈ rows, r.sequence = i ∧ r.position = p
    · exact (store_of_mem hrest hl : KvCache.store (kv.writeRow row) rows i p = _)
    have hno : ∀ r ∈ rows, r.sequence = i → r.position ≠ p := fun r hr hi hp => hl ⟨r, hr, hi, hp⟩
    rcases mem_cons.mp hm with rfl | hm
    · refine (store_of_notMem hno : KvCache.store (kv.writeRow row') rows i p = _).trans ?_
      subst hi hp
      simp only [KvCache.writeRow, update_self]
      rw [(h row' (mem_cons_self ..)).2]
    · exact absurd hp (hno row' hm hi)

theorem forward_ok {low high : Nat → Nat} (hre : Reads text rows)
    (hrow : ∀ row ∈ rows, row.sequence ∈ rs ∧ row.position < high row.sequence)
    (hco : ∀ i ∈ rs, ∀ p < high i, low i ≤ p → ∃ row ∈ rows, row.sequence = i ∧ row.position = p)
    (hte : ∀ i ∈ rs, ts i <+: text i) (hlo : ∀ i ∈ rs, Stored (kv i) (text i) (low i)) :
    AttendsFresh ts kv rows ∧ (∀ i ∉ rs, kv.store rows i = kv i) ∧
      ∀ i ∈ rs, Stored (kv.store rows i) (text i) (high i) := by
  have hst : ∀ i ∈ rs, Stored (kv.store rows i) (text i) (high i) := by
    intro i hi p hp
    by_cases hm : ∃ row ∈ rows, row.sequence = i ∧ row.position = p
    · exact store_of_mem hre hm
    rw [store_of_notMem fun row hrow hi hpos => hm ⟨row, hrow, hi, hpos⟩]
    refine hlo i hi p ?_
    by_contra hge
    exact hm (hco i hi p hp (by omega))
  refine ⟨fun row hm => ?_, fun i hi => funext fun p => store_of_notMem fun row hm hse => ?_, hst⟩
  · obtain ⟨hlt, hread⟩ := hre row hm
    obtain ⟨hin, hpos⟩ := hrow row hm
    have hta : ∀ p ≤ row.position, row.prefixIds.take (p + 1) = (text row.sequence).take (p + 1) := by
      intro p hp
      rw [hread, take_take, Nat.min_eq_left (by omega)]
    refine ⟨by rw [hread, length_take]; omega, fun p hp => ⟨?_, fun hp' => ?_⟩⟩
    · rw [hta p hp]
      exact hst _ hin p (by omega)
    · obtain ⟨rest, hrest⟩ := hte _ hin
      rw [hta p hp, ← hrest, take_append_of_le_length (by omega)]
  · exact absurd (hse ▸ (hrow row hm).1) hi

/-! ## The draft model's forwards -/

section
variable {bud : Nat → Nat} {win : Nat → List Int} {step : Nat}

theorem mem_draftForward :
    row ∈ draftForward st (rs.map fun i => (i, bud i)) (rs.map win) step ↔
      ∃ i ∈ rs, step < bud i ∧ row = ⟨i, (st i).tokenIds.length - 1 + step,
        ((st i).tokenIds ++ (win i).take step).getLastD 0, (st i).tokenIds ++ (win i).take step⟩ := by
  simp only [draftForward, zip_map', mem_map, mem_filter, decide_eq_true_eq]
  constructor
  · rintro ⟨_, ⟨⟨i, hi, rfl⟩, hs⟩, rfl⟩
    exact ⟨i, hi, hs, rfl⟩
  · rintro ⟨i, hi, hs, rfl⟩
    exact ⟨_, ⟨⟨i, hi, rfl⟩, hs⟩, rfl⟩

def drafted (states : States) (budget : Nat → Nat) (step i : Nat) : Nat :=
  (states i).tokenIds.length - 1 + min step (budget i)

variable {ts : Nat → List Int} (htok : ∀ i ∈ rs, ts i = (st i).tokenIds)
  (hne : ∀ i ∈ rs, (st i).tokenIds ≠ []) (hwi : ∀ i ∈ rs, bud i ≤ (win i).length)
include hne hwi

theorem reads_draftForward : Reads (fun i => (st i).tokenIds ++ win i)
      (draftForward st (rs.map fun i => (i, bud i)) (rs.map win) step) := by
  intro row hr
  obtain ⟨i, hi, hs, rfl⟩ := mem_draftForward.mp hr
  have hp := length_pos_of_ne_nil (hne i hi)
  have hl := hwi i hi
  refine ⟨by simp only [length_append]; omega, ?_⟩
  rw [show (st i).tokenIds.length - 1 + step + 1 = (st i).tokenIds.length + step by omega,
    take_length_add_append]

include htok

theorem draftForward_ok
    (hkv : ∀ i ∈ rs, Stored (kv i) ((st i).tokenIds ++ win i) (drafted st bud step i)) :
    let rows := draftForward st (rs.map fun i => (i, bud i)) (rs.map win) step
    AttendsFresh ts kv rows ∧ (∀ i ∉ rs, kv.store rows i = kv i) ∧
      ∀ i ∈ rs, Stored (kv.store rows i) ((st i).tokenIds ++ win i) (drafted st bud (step + 1) i) := by
  refine forward_ok (reads_draftForward hne hwi) (fun row hm => ?_) (fun i hi p hp hge => ?_) (fun i hi => ?_) hkv
  · obtain ⟨i, hi, hs, rfl⟩ := mem_draftForward.mp hm
    exact ⟨hi, by simp only [drafted]; omega⟩
  · simp only [drafted] at hp hge
    refine ⟨_, mem_draftForward.mpr ⟨i, hi, ?_, rfl⟩, rfl, ?_⟩
    · omega
    · simp only
      omega
  · rw [htok i hi]
    exact prefix_append _ _

variable (hkv : ∀ i ∈ rs, Stored (kv i) (st i).tokenIds ((st i).tokenIds.length - 1))
include hkv

theorem draftSteps_ok : ∀ steps : Nat,
    let fs := (range steps).map
      (draftForward st (rs.map fun i => (i, bud i)) (rs.map win))
    Guarded KvCache.store (AttendsFresh ts) kv fs ∧
      (∀ i ∉ rs, fs.foldl KvCache.store kv i = kv i) ∧
      ∀ i ∈ rs, Stored (fs.foldl KvCache.store kv i) ((st i).tokenIds ++ win i)
        (drafted st bud steps i)
  | 0 => by
    refine ⟨trivial, fun _ _ => rfl, fun i hi => ?_⟩
    refine (hkv i hi).of_take (by simp [drafted]) ?_
    rw [take_append_of_le_length (by simp [drafted])]
  | steps + 1 => by
    obtain ⟨hfr, hf, hs⟩ := draftSteps_ok steps
    obtain ⟨hfr', hf', hs'⟩ := draftForward_ok htok hne hwi hs
    simp only [range_succ, map_append, map_cons, map_nil, foldl_append, foldl_cons, foldl_nil]
    exact ⟨guarded_append.mpr ⟨hfr, hfr', trivial⟩, fun i hi => (hf' i hi).trans (hf i hi), hs'⟩

theorem draftForwards_ok :
    let fs := draftForwards st (rs.map fun i => (i, bud i)) (rs.map win)
    Guarded KvCache.store (AttendsFresh ts) kv fs ∧
      (∀ i ∉ rs, fs.foldl KvCache.store kv i = kv i) ∧
      ∀ i ∈ rs, Stored (fs.foldl KvCache.store kv i) ((st i).tokenIds ++ win i)
        ((st i).tokenIds.length - 1 + bud i) := by
  obtain ⟨hfe, hfr, hst⟩ := draftSteps_ok htok hne hwi hkv
    (((rs.map fun i => (i, bud i)).map (·.2)).foldl max 0)
  refine ⟨hfe, hfr, fun i hi => ?_⟩
  have hle : bud i ≤ ((rs.map fun i => (i, bud i)).map (·.2)).foldl max 0 :=
    le_foldl_max (mem_map_of_mem (mem_map_of_mem hi))
  have := hst i hi
  rwa [drafted, Nat.min_eq_right hle] at this

omit htok hne hwi hkv in
theorem draftForwards_nonneg (hs : ∀ i ∈ rs, ∀ x ∈ (st i).tokenIds, 0 ≤ x)
    (hw : ∀ i ∈ rs, ∀ x ∈ (win i).take (bud i), 0 ≤ x) :
    ∀ rows ∈ draftForwards st (rs.map fun i => (i, bud i)) (rs.map win),
      ∀ row ∈ rows, ∀ x ∈ row.prefixIds, 0 ≤ x := by
  intro rows hro row hr x hx
  obtain ⟨step, -, rfl⟩ := mem_map.mp hro
  obtain ⟨i, hi, hstep, rfl⟩ := mem_draftForward.mp hr
  rcases mem_append.mp hx with hx | hx
  · exact hs i hi x hx
  · exact hw i hi x (take_subset_take_left _ hstep.le hx)

end

/-! ## The target model's forward -/

def paddedTokens (s : PearlPipelineState) (valid width : Nat) : List Int :=
  s.tokenIds.take (s.tokenIds.length - valid) ++ targetWindow s valid width

theorem prefix_paddedTokens (hv : 0 < valid) : s.tokenIds <+: paddedTokens s valid w := by
  have hl := lastN_of_pos hv s.tokenIds
  unfold paddedTokens targetWindow
  simp only [hl]
  split
  · rw [← append_assoc, take_append_drop]
    exact prefix_append _ _
  · rw [take_append_drop]

section
variable {w : Nat → Nat} (h : ∀ i ∈ rs, RowOk γ (st i))
  (hw : ∀ i ∈ rs, (st i).windowSize γ ≤ w i)
include h hw

theorem mem_targetForward :
    (row ∈ rs.flatMap fun i => targetRows i (st i) ((st i).windowSize γ) (w i)) ↔
      ∃ i ∈ rs, ∃ j < w i, row = ⟨i, (st i).committedLength - 1 + j,
        (targetWindow (st i) ((st i).windowSize γ) (w i)).getD j 0,
        (paddedTokens (st i) ((st i).windowSize γ) (w i)).take ((st i).committedLength - 1 + j + 1)⟩ := by
  have hrow : ∀ i ∈ rs, targetRows i (st i) ((st i).windowSize γ) (w i) =
      (range (w i)).map fun j => ⟨i, (st i).committedLength - 1 + j,
        (targetWindow (st i) ((st i).windowSize γ) (w i)).getD j 0,
        (paddedTokens (st i) ((st i).windowSize γ) (w i)).take
          ((st i).committedLength - 1 + j + 1)⟩ := by
    intro i hi
    have hlen := (h i hi).length
    have hpos := (h i hi).windowSize_pos
    have hlt := (h i hi).promptLt
    have hst : (st i).tokenIds.length - (st i).windowSize γ = (st i).committedLength - 1 := by omega
    have hl : ((st i).tokenIds.take ((st i).committedLength - 1)).length = (st i).committedLength - 1 := by
      rw [length_take]; omega
    have hwi := length_targetWindow hpos (by omega : (st i).windowSize γ ≤ (st i).tokenIds.length) (hw i hi)
    unfold targetRows paddedTokens
    simp only [hst, hwi]
    refine map_congr_left fun j _ => ?_
    have hsp := @take_length_add_append _ ((st i).tokenIds.take ((st i).committedLength - 1))
      (targetWindow (st i) ((st i).windowSize γ) (w i)) (j + 1)
    rw [hl, ← Nat.add_assoc] at hsp
    rw [hsp]
  simp only [mem_flatMap]
  constructor
  · rintro ⟨i, hi, hm⟩
    rw [hrow i hi] at hm
    obtain ⟨j, hj, rfl⟩ := mem_map.mp hm
    exact ⟨i, hi, j, mem_range.mp hj, rfl⟩
  · rintro ⟨i, hi, j, hj, rfl⟩
    refine ⟨i, hi, ?_⟩
    rw [hrow i hi]
    exact mem_map_of_mem (mem_range.mpr hj)

theorem targetForward_ok (htok : ∀ i ∈ rs, ts i = (st i).tokenIds)
    (hkv : ∀ i ∈ rs, Stored (kv i) (st i).tokenIds ((st i).committedLength - 1)) :
    let rows := rs.flatMap fun i => targetRows i (st i) ((st i).windowSize γ) (w i)
    AttendsFresh ts kv rows ∧ (∀ i ∉ rs, kv.store rows i = kv i) ∧
      ∀ i ∈ rs, Stored (kv.store rows i) (st i).tokenIds (st i).tokenIds.length := by
  intro rows
  let text := fun i => paddedTokens (st i) ((st i).windowSize γ) (w i)
  let low := fun i => (st i).committedLength - 1
  have hte : ∀ i ∈ rs, (st i).tokenIds <+: text i := fun i hi => prefix_paddedTokens (h i hi).windowSize_pos
  have hle : ∀ i ∈ rs, (text i).length = low i + w i := by
    intro i hi
    have hlen := (h i hi).length
    have hpos := (h i hi).windowSize_pos
    have hlt := (h i hi).promptLt
    simp only [text, paddedTokens, length_append, length_take,
      length_targetWindow hpos (by omega : (st i).windowSize γ ≤ (st i).tokenIds.length) (hw i hi), low]
    omega
  have hre : Reads text rows := by
    intro row hm
    obtain ⟨i, hi, j, hj, rfl⟩ := (mem_targetForward h hw).mp hm
    exact ⟨by rw [hle i hi]; simp only [low]; omega, rfl⟩
  have hlo : ∀ i ∈ rs, Stored (kv i) (text i) (low i) := by
    intro i hi
    obtain ⟨rest, hrest⟩ := hte i hi
    refine (hkv i hi).of_take (le_refl _) ?_
    have := (h i hi).committed_le
    rw [← hrest, take_append_of_le_length (by simp only [low]; omega)]
  have hco : ∀ i ∈ rs, ∀ p < low i + w i, low i ≤ p → ∃ row ∈ rows, row.sequence = i ∧ row.position = p := by
    intro i hi p hp hge
    refine ⟨_, (mem_targetForward h hw).mpr ⟨i, hi, p - low i, by omega, rfl⟩, rfl, ?_⟩
    simp only [low] at hge ⊢
    omega
  have hrow : ∀ row ∈ rows, row.sequence ∈ rs ∧ row.position < low row.sequence + w row.sequence := by
    intro row hm
    obtain ⟨i, hi, j, hj, rfl⟩ := (mem_targetForward h hw).mp hm
    exact ⟨hi, Nat.add_lt_add_left hj _⟩
  obtain ⟨hfr, hot, hst⟩ := forward_ok hre hrow hco (fun i hi => htok i hi ▸ hte i hi) hlo
  refine ⟨hfr, hot, fun i hi => ?_⟩
  obtain ⟨rest, hrest⟩ := hte i hi
  have hlen := (h i hi).length
  have hwi := hw i hi
  refine (hst i hi).of_take (by simp only [low]; omega) ?_
  rw [← hrest, take_append_of_le_length (le_refl _)]

theorem targetForward_nonneg (hs : ∀ i ∈ rs, ∀ x ∈ (st i).tokenIds, 0 ≤ x) :
    ∀ row ∈ rs.flatMap fun i => targetRows i (st i) ((st i).windowSize γ) (w i),
      ∀ x ∈ row.prefixIds, 0 ≤ x := by
  intro row hr x hx
  obtain ⟨i, hi, j, -, rfl⟩ := (mem_targetForward h hw).mp hr
  have hlast : ∀ y ∈ lastN ((st i).windowSize γ) (st i).tokenIds, 0 ≤ y := by
    intro y hy
    rw [lastN_of_pos (h i hi).windowSize_pos] at hy
    exact hs i hi y (mem_of_mem_drop hy)
  rcases mem_append.mp (mem_of_mem_take hx) with hx | hx
  · exact hs i hi x (mem_of_mem_take hx)
  simp only [targetWindow] at hx
  split at hx
  · rcases mem_append.mp hx with hx | hx
    · exact hlast x hx
    obtain ⟨-, rfl⟩ := mem_replicate.mp hx
    generalize lastN ((st i).windowSize γ) (st i).tokenIds = l at hlast
    cases hl : l.getLast? with
    | none => simp [getLastD_eq_getLast?, hl]
    | some y =>
      rw [getLastD_eq_getLast?, hl]
      exact hlast y (mem_of_getLast? hl)
  · exact hlast x hx

end

/-! ## After the verdict -/

section
variable {next : List Int} (h : RowOk γ s) (hv : VerdictOk s γ a corr next)
include h hv

theorem take_verified : (s.verified γ a corr next).tokenIds.take (s.committedLength + a) =
    (s.tokenIds ++ next).take (s.committedLength + a) := by
  have hl := h.length
  have hle := hv.le
  simp only [verified]
  split
  · rfl
  · rw [take_append_of_le_length (by rw [length_take]; omega), take_take, Nat.min_self,
      take_append_of_le_length (by omega)]

theorem stored_target_verified (hs : Stored cells s.tokenIds s.tokenIds.length) :
    Stored cells (s.verified γ a corr next).tokenIds
      ((s.verified γ a corr next).committedLength - 1) := by
  have hl := h.length
  have hle := hv.le
  have hc : (s.verified γ a corr next).committedLength - 1 ≤ s.committedLength + a ∧
      (s.verified γ a corr next).committedLength - 1 ≤ s.tokenIds.length := by
    simp only [verified, recordVerdict]
    split <;> omega
  refine hs.of_take hc.2 ?_
  have := congrArg (take ((s.verified γ a corr next).committedLength - 1)) (take_verified h hv)
  rwa [take_take, take_take, Nat.min_eq_left hc.1, take_append_of_le_length hc.2] at this

theorem stored_draft_verified (later : List Int) (hke : kept = if a = s.windowSize γ then later else [])
    (hs : Stored cells (s.tokenIds ++ next ++ later) ((s.tokenIds ++ next ++ later).length - 1)) :
    Stored cells ((s.verified γ a corr next).tokenIds ++ kept)
      (((s.verified γ a corr next).tokenIds ++ kept).length - 1) := by
  have hlen := h.length
  have hle := hv.le
  have hpos := hv.nextPos
  by_cases ha : a = s.windowSize γ
  · have htok : (s.verified γ a corr next).tokenIds = s.tokenIds ++ next := by
      simp [verified, ha]
    rwa [htok, hke, if_pos ha]
  obtain ⟨token, rfl⟩ := Option.isSome_iff_exists.mp (hv.correction.mpr (by omega))
  have htok : (s.verified γ a (some token) next).tokenIds = s.tokenIds.take (s.committedLength + a) ++ [token] := by
    simp [verified, ha]
  rw [hke, if_neg ha, append_nil]
  have hlg : (s.verified γ a (some token) next).tokenIds.length - 1 = s.committedLength + a := by
    rw [htok, length_append, length_take, length_singleton]
    omega
  rw [hlg]
  refine hs.of_take ?_ ?_
  · simp only [length_append]
    omega
  · rw [take_verified h hv, append_assoc, take_append_of_le_length (by omega), take_append_of_le_length (by omega)]

end

end VllmAscend
