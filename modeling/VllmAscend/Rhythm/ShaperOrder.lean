import VllmAscend.Rhythm.ShaperOptimal

/-!
# The budgets do not depend on the order of the requests

Both stages go through the requests in an order of their own, in which no two
keys are equal. So two ranks that list the same requests in different orders, or
more than once, shape the same budgets.
-/

namespace VllmAscend

open Python Rows List

variable {normal normal' eager eager' : List Nat}

/-- Both calls raise the same error, or their results are related. -/
inductive Alike (R : α → α → Prop) : Except PyError α → Except PyError α → Prop where
  | error (e : PyError) : Alike R (.error e) (.error e)
  | ok {x y : α} (h : R x y) : Alike R (.ok x) (.ok y)

theorem Alike.ite_throw {R : α → α → Prop} {c c' : Prop} [Decidable c] [Decidable c'] (hc : c ↔ c') (h : ¬ c → Alike R x y) :
    Alike R (if c then throw e >>= k else x) (if c' then throw e >>= k' else y) := by
  by_cases hc' : c
  · rw [if_pos hc', if_pos (hc.mp hc')]
    exact .error e
  · rw [if_neg hc', if_neg (mt hc.mpr hc')]
    exact h hc'

namespace SpecRhythmBudgetShaper

/-! ## Orders of the source's own -/

theorem urgentKey_injective (st : Nat → SpecRhythmRuntimeState) (wait : ℚ) : Function.Injective (urgentKey st wait) := by
  intro i j h
  simp only [urgentKey, EmbeddingLike.apply_eq_iff_eq, Prod.mk.injEq, neg_inj, Nat.cast_inj] at h
  exact h.2.2

theorem urgent_perm (st : Nat → SpecRhythmRuntimeState) (wait : ℚ) (h : l.Perm l') :
    urgent st wait l = urgent st wait l' := by
  refine List.Perm.eq_of_pairwise (fun i j _ _ hij hji => urgentKey_injective st wait (le_antisymm hji hij))
    (pairwise_insertionSort _ l) (pairwise_insertionSort _ l') ?_
  exact (perm_insertionSort _ l).trans (h.trans (perm_insertionSort _ l').symm)

theorem Candidate.key_injective : Function.Injective Candidate.key := by
  rintro ⟨m, i, k⟩ ⟨m', i', k'⟩ h
  simpa [Candidate.key] using h

theorem best_perm (h : l.Perm l') : best l = best l' := by
  cases hb : best l with
  | none =>
    rw [best_eq_none hb] at h
    rw [← h.nil_eq, best]
  | some c =>
    cases hb' : best l' with
    | none =>
      rw [best_eq_none hb'] at h
      rw [h.eq_nil] at hb
      cases hb
    | some d =>
      have hle := best_max hb' c (h.mem_iff.mp (best_mem hb))
      have hge := best_max hb d (h.mem_iff.mpr (best_mem hb'))
      rw [Candidate.key_injective (le_antisymm hle hge)]

/-! ## Budgets as mappings -/

structure Allocation.Same (a b : Allocation) : Prop where
  normal : ∀ i, a.normal.lookup i = b.normal.lookup i
  eager : ∀ i, a.eager.lookup i = b.eager.lookup i
  roof : a.roof = b.roof
  draft : a.draft = b.draft

section
variable (shaper : SpecRhythmBudgetShaper) (st : Nat → SpecRhythmRuntimeState) (wait : ℚ)

theorem Allocation.Same.grantGap (h : a.Same b) (i : Nat) :
    (shaper.grantGap st wait a i).Same (shaper.grantGap st wait b i) := by
  unfold SpecRhythmBudgetShaper.grantGap
  rw [h.normal i, h.roof, h.draft]
  cases b.normal.lookup i with
  | some n => exact ⟨fun j => by simp only [lookup_dictSet, h.normal], h.eager, rfl, rfl⟩
  | none =>
    refine ⟨h.normal, fun j => ?_, rfl, rfl⟩
    simp only
    split
    · rw [lookup_dictSet, lookup_dictSet, h.eager]
    · exact h.eager j

theorem Allocation.Same.closeGaps : ∀ (l : List Nat) {a b : Allocation}, a.Same b →
    (shaper.closeGaps st wait l a).Same (shaper.closeGaps st wait l b)
  | [], _, _, h => h
  | i :: l, a, b, h => by
    have hg := h.grantGap shaper st wait i
    unfold SpecRhythmBudgetShaper.closeGaps
    split
    · exact closeGaps l h
    simp only [hg.draft]
    split
    · exact hg
    · exact closeGaps l hg

theorem Allocation.Same.candidates (h : a.Same b) (hn : normal.Perm normal') (he : eager.Perm eager') :
    (shaper.candidates st wait normal eager a).Perm (shaper.candidates st wait normal' eager' b) := by
  unfold SpecRhythmBudgetShaper.candidates candidatesOf
  simp only [h.normal, h.eager]
  exact (hn.filterMap _).append (he.filterMap _)

theorem Allocation.Same.addToken (h : a.Same b) (c : Candidate) : (addToken a c).Same (addToken b c) := by
  unfold SpecRhythmBudgetShaper.addToken
  rw [h.normal, h.eager, h.roof, h.draft]
  split
  · exact ⟨fun j => by simp only [lookup_dictSet, h.normal], h.eager, rfl, rfl⟩
  · exact ⟨h.normal, fun j => by simp only [lookup_dictSet, h.eager], rfl, rfl⟩

theorem Allocation.Same.spendResidual (hn : normal.Perm normal') (he : eager.Perm eager') :
    ∀ (fuel : Nat) {a b : Allocation}, a.Same b →
      (shaper.spendResidual st wait normal eager fuel a).Same (shaper.spendResidual st wait normal' eager' fuel b)
  | 0, _, _, h => h
  | fuel + 1, a, b, h => by
    have hbe := best_perm (h.candidates shaper st wait hn he)
    by_cases hr : a.roof = 0
    · rw [spendResidual_stop _ (.inl hr), spendResidual_stop _ (.inl (h.roof ▸ hr))]
      exact h
    cases hb : best (shaper.candidates st wait normal' eager' b) with
    | none =>
      rw [spendResidual_stop _ (.inr (hbe.trans hb)), spendResidual_stop _ (.inr hb)]
      exact h
    | some c =>
      rw [spendResidual_some hr (hbe.trans hb), spendResidual_some (h.roof ▸ hr) hb]
      exact spendResidual hn he fuel (h.addToken c)

end

/-! ## The plan -/

structure SameBudgets (plan plan' : SpecRhythmBudgetPlan) : Prop where
  normal : ∀ i, plan.normalBudgets.lookup i = plan'.normalBudgets.lookup i
  eager : ∀ i, plan.eagerBudgets.lookup i = plan'.eagerBudgets.lookup i

section
variable (shaper : SpecRhythmBudgetShaper) (states : Nat → Option SpecRhythmRuntimeState)

theorem lookup_minimumBudgets : ∀ {l : List Nat}, (shaper.minimumBudgets states l).lookup i =
      if i ∈ l then some (min shaper.minGamma (shaper.cap (stateOf states) i)) else none
  | [] => rfl
  | j :: l => by
    have ih := lookup_minimumBudgets (i := i) (l := l)
    unfold minimumBudgets at ih ⊢
    rw [map_cons]
    by_cases h : j = i
    · simp [h]
    · rw [lookup_cons_of_ne h, ih]
      simp [Ne.symm h]

theorem tokensOf_minimumBudgets (hn : normal.Perm normal') :
    tokensOf (shaper.minimumBudgets states normal) = tokensOf (shaper.minimumBudgets states normal') :=
  ((hn.map _).map _).sum_eq

theorem same_allocated (hn : normal.Perm normal') (he : eager.Perm eager') (wait : ℚ) (roof dr : Nat) :
    (shaper.allocated states wait normal eager roof dr).Same
      (shaper.allocated states wait normal' eager' roof dr) := by
  have hg : (shaper.gapsClosed states wait normal eager roof dr).Same
      (shaper.gapsClosed states wait normal' eager' roof dr) := by
    simp only [gapsClosed, urgent_perm _ _ (hn.append he), tokensOf_minimumBudgets shaper states hn]
    refine Allocation.Same.closeGaps shaper _ wait _ ⟨fun i => ?_, fun _ => rfl, rfl, rfl⟩
    simp only [lookup_minimumBudgets, hn.mem_iff]
  have hs := Allocation.Same.spendResidual shaper (stateOf states) wait hn he
    (shaper.gapsClosed states wait normal eager roof dr).draft hg
  rw [hg.draft] at hs
  nth_rewrite 1 [← hg.draft] at hs
  exact hs

theorem Shapeable.perm {shaper states} (h : Shapeable shaper states normal eager roof dr)
    (hn : normal.Perm normal') (he : eager.Perm eager') : Shapeable shaper states normal' eager' roof dr := by
  refine ⟨fun i hi => ?_, fun i hi => ?_, ?_⟩
  · rw [← he.mem_iff]
    exact h.disjoint i (hn.mem_iff.mpr hi)
  · exact h.registered i ((hn.append he).mem_iff.mpr hi)
  · rw [← tokensOf_minimumBudgets shaper states hn]
    exact h.fits

theorem shape_perm (hn : normal.Nodup) (he : eager.Nodup) (hno : normal.Perm normal') (hea : eager.Perm eager')
    (planId : Nat) (wait : ℚ) (contextLen : Nat) (bud : Option Int) (bs : Option Nat) :
    Alike SameBudgets (shaper.shape planId normal eager states wait contextLen bud bs)
      (shaper.shape planId normal' eager' states wait contextLen bud bs) := by
  have hreq := hno.append hea
  have hn' := hno.nodup_iff.mp hn
  have he' := hea.nodup_iff.mp he
  simp only [shape, eraseDups_of_nodup, hn, he, hn', he']
  rw [← hreq.length_eq]
  generalize shaper.verificationRoof (bs.getD (max (normal ++ eager).length 1)) contextLen = roof
  have hdi : (normal.any fun i => decide (i ∈ eager)) = true ↔ (normal'.any fun i => decide (i ∈ eager')) = true := by
    simp [hno.mem_iff, hea.mem_iff]
  have hre : ((normal ++ eager).any fun i => (states i).isNone) = true ↔
      ((normal' ++ eager').any fun i => (states i).isNone) = true := by
    simp only [any_eq_true, hreq.mem_iff]
  have htok := tokensOf_minimumBudgets shaper states hno
  refine .ite_throw hdi fun hd => .ite_throw hre fun hr => .ite_throw ?_ fun hf => ?_
  · exact iff_of_eq (congrArg (fun n => roof < n ∨ availableDraft roof bud < n) htok)
  have hsh : Shapeable shaper states normal eager roof (availableDraft roof bud) := by
    obtain ⟨hro, hdr⟩ := not_or.mp hf
    refine ⟨by simpa using hd, fun i hi => ?_, Nat.le_of_not_lt hro, Nat.le_of_not_lt hdr⟩
    refine Option.isSome_iff_ne_none.mpr fun hnone => hr (any_eq_true.mpr ⟨i, hi, ?_⟩)
    rw [hnone, Option.isNone_none]
  have hsh' := hsh.perm hno hea
  have hsame := same_allocated shaper states hno hea wait roof (availableDraft roof bud)
  refine (congrArg₂ (Alike SameBudgets) (validated_ok (allocated_ok hn he hsh wait) hsh.disjoint _ _ _)
    (validated_ok (allocated_ok hn' he' hsh' wait) hsh'.disjoint _ _ _)).mpr ?_
  exact .ok ⟨hsame.normal, hsame.eager⟩

theorem shape_order (hnormal : ∀ i, i ∈ normal ↔ i ∈ normal') (heager : ∀ i, i ∈ eager ↔ i ∈ eager') (planId : Nat)
    (wait : ℚ) (contextLen : Nat) (draftTokenBudget : Option Int) (batchSize : Option Nat) :
    Alike SameBudgets (shaper.shape planId normal eager states wait contextLen draftTokenBudget batchSize)
      (shaper.shape planId normal' eager' states wait contextLen draftTokenBudget batchSize) := by
  have hp : ∀ {l l' : List Nat}, (∀ i, i ∈ l ↔ i ∈ l') → l.eraseDups.Perm l'.eraseDups := fun h =>
    (perm_ext_iff_of_nodup (nodup_eraseDups _) (nodup_eraseDups _)).mpr fun i => by simp [mem_eraseDups, h]
  have h := shape_perm shaper states (nodup_eraseDups normal) (nodup_eraseDups eager) (hp hnormal) (hp heager)
    planId wait contextLen draftTokenBudget batchSize
  rwa [shape_eraseDups, shape_eraseDups] at h

theorem shape_order_two : Alike SameBudgets (smallShaper.shape 0 [0, 1] [] twoStates 0 0 (some 3) none)
    (smallShaper.shape 0 [1, 0, 1] [] twoStates 0 0 (some 3) none) :=
  shape_order smallShaper twoStates (by simp [or_comm]) (fun _ => Iff.rfl) 0 0 0 (some 3) none

end

end SpecRhythmBudgetShaper

end VllmAscend
