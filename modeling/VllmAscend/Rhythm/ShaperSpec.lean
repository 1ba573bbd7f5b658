import VllmAscend.Rhythm.ShaperSound

/-!
# What the budget shaper guarantees

If the minimum budgets fit, shaping returns a plan: within the roof and the draft
window, between the minimum and the cap for a normal request, at or above the
acceptance floor for an eager one, and with nothing left over that a request
could still take.
-/

namespace VllmAscend

open Python Rows List

variable {shaper : SpecRhythmBudgetShaper} {nm eg : List Nat} {roof draft : Nat}

theorem lookup_dictSet : ∀ {d : List (Nat × Nat)}, (dictSet k n d).lookup i = if k = i then some n else d.lookup i
  | [] => by
    by_cases h : k = i
    · simp [dictSet, h]
    · rw [if_neg h, dictSet, lookup_cons_of_ne h]
  | p :: d => by
    unfold dictSet
    by_cases hp : p.1 = k
    · subst hp
      by_cases h : p.1 = i
      · simp [h]
      · rw [if_pos rfl, if_neg h, lookup_cons_of_ne (p := (p.1, n)) h, lookup_cons_of_ne h]
    · rw [if_neg hp]
      by_cases hi : p.1 = i
      · rw [if_neg fun h => hp (hi.trans h.symm), ← hi, lookup_cons_self, lookup_cons_self]
      · rw [lookup_cons_of_ne hi, lookup_cons_of_ne hi, lookup_dictSet]

namespace SpecRhythmBudgetShaper

section
variable {st : Nat → SpecRhythmRuntimeState} {a : Allocation}

structure Fair (shaper : SpecRhythmBudgetShaper) (state : Nat → SpecRhythmRuntimeState) (a : Allocation) : Prop where
  least : ∀ i n, a.normal.lookup i = some n → min shaper.minGamma (shaper.cap state i) ≤ n
  floor : ∀ i n, a.eager.lookup i = some n → shaper.acceptanceFloor ≤ (state i).expectedAcceptanceBenefit

theorem Fair.setNormal (h : Fair shaper st a) (hi : a.normal.lookup i = some n) :
    Fair shaper st ⟨dictSet i (n + k) a.normal, a.eager, roof, draft⟩ := by
  refine ⟨fun j m hj => ?_, h.floor⟩
  rw [lookup_dictSet] at hj
  split at hj
  · next hij =>
    cases hj
    exact hij ▸ (h.least i n hi).trans (Nat.le_add_right n k)
  · exact h.least j m hj

theorem Fair.setEager (h : Fair shaper st a) (hf : shaper.acceptanceFloor ≤ (st i).expectedAcceptanceBenefit) :
    Fair shaper st ⟨a.normal, dictSet i n a.eager, roof, draft⟩ := by
  refine ⟨h.least, fun j m hj => ?_⟩
  rw [lookup_dictSet] at hj
  split at hj
  · next hij => exact hij ▸ hf
  · exact h.floor j m hj

theorem Fair.grantGap (h : Fair shaper st a) (hf : shaper.acceptanceFloor ≤ (st i).expectedAcceptanceBenefit) :
    Fair shaper st (shaper.grantGap st wait a i) := by
  unfold SpecRhythmBudgetShaper.grantGap
  cases hl : a.normal.lookup i with
  | some n => exact h.setNormal hl
  | none =>
    simp only
    split
    · exact h.setEager hf
    · exact ⟨h.least, h.floor⟩

theorem candidate_of_mem
    (h : c ∈ shaper.candidatesOf st wait isNormal budgets indices) : c.marginal =
      (1 + (st c.request).urgency wait) * (st c.request).expectedAcceptanceBenefit ^
        ((budgets.lookup c.request).getD 0 + 1) ∧
      (isNormal = false → shaper.acceptanceFloor ≤ (st c.request).expectedAcceptanceBenefit) := by
  obtain ⟨i, -, hc⟩ := mem_filterMap.mp h
  simp only at hc
  split at hc
  · cases hc
  split at hc
  · cases hc
  rename_i hf
  cases hc
  exact ⟨rfl, fun hno => by simpa [hno] using hf⟩

theorem mem_candidates_normal (wait : ℚ) (eg : List Nat) (hi : i ∈ nm) (hc : (a.normal.lookup i).getD 0 < shaper.cap st i) :
    ⟨(1 + (st i).urgency wait) * (st i).expectedAcceptanceBenefit ^ ((a.normal.lookup i).getD 0 + 1), i, true⟩ ∈
      shaper.candidates st wait nm eg a := by
  refine mem_append_left _ (mem_filterMap.mpr ⟨i, hi, ?_⟩)
  simp [Nat.not_le.mpr hc]

theorem mem_candidates_eager (wait : ℚ) (nm : List Nat) (hi : i ∈ eg) (hc : (a.eager.lookup i).getD 0 < shaper.cap st i)
    (hf : shaper.acceptanceFloor ≤ (st i).expectedAcceptanceBenefit) :
    ⟨(1 + (st i).urgency wait) * (st i).expectedAcceptanceBenefit ^ ((a.eager.lookup i).getD 0 + 1), i, false⟩ ∈
      shaper.candidates st wait nm eg a := by
  refine mem_append_right _ (mem_filterMap.mpr ⟨i, hi, ?_⟩)
  simp [Nat.not_le.mpr hc, not_lt.mpr hf]

theorem best_eq_none (h : best l = none) : l = [] := by
  cases l with
  | nil => rfl
  | cons c l =>
    rw [best] at h
    cases hb : best l with
    | none => rw [hb] at h; cases h
    | some d =>
      rw [hb] at h
      simp only at h
      split at h <;> cases h

theorem Fair.addToken (hok : AllocationOk shaper st nm eg roof draft a)
    (h : Fair shaper st a) (hc : c ∈ shaper.candidates st wait nm eg a) :
    Fair shaper st (addToken a c) := by
  unfold SpecRhythmBudgetShaper.addToken
  rcases mem_append.mp hc with hc | hc
  · obtain ⟨hin, hk, -⟩ := mem_candidatesOf hc
    rw [← hok.normal] at hin
    obtain ⟨n, hn⟩ := mem_keys_iff.mp hin
    simp only [hk, if_true, hn, Option.getD_some]
    exact h.setNormal hn
  · simp only [(mem_candidatesOf hc).2.1, Bool.false_eq_true, if_false]
    exact h.setEager ((candidate_of_mem hc).2 rfl)

end

/-! ## The plan -/

section
variable (shaper : SpecRhythmBudgetShaper) (states : Nat → Option SpecRhythmRuntimeState)

def roofFor (normal eager : List Nat) (contextLen : Nat) (batchSize : Option Nat) : Nat :=
  shaper.verificationRoof (batchSize.getD (max (normal.eraseDups ++ eager.eraseDups).length 1)) contextLen

structure PlanSpec (requests eagers : List Nat) (roof draft : Nat) (plan : SpecRhythmBudgetPlan) : Prop where
  total : tokensOf plan.normalBudgets + tokensOf plan.eagerBudgets ≤ min roof draft
  normal : ∀ i, i ∈ requests ↔ ∃ n, plan.normalBudgets.lookup i = some n
  normalBudget : ∀ i n, plan.normalBudgets.lookup i = some n →
    min shaper.minGamma (shaper.cap (stateOf states) i) ≤ n ∧ n ≤ shaper.cap (stateOf states) i
  eagerBudget : ∀ i n, plan.eagerBudgets.lookup i = some n → i ∈ eagers ∧
    shaper.acceptanceFloor ≤ (stateOf states i).expectedAcceptanceBenefit ∧ 1 ≤ n ∧ n ≤ shaper.cap (stateOf states) i
  conserving : tokensOf plan.normalBudgets + tokensOf plan.eagerBudgets < min roof draft →
    (∀ i ∈ requests, plan.normalBudgets.lookup i = some (shaper.cap (stateOf states) i)) ∧
    ∀ i ∈ eagers, shaper.acceptanceFloor ≤ (stateOf states i).expectedAcceptanceBenefit →
      plan.eagerBudgets.lookup i = some (shaper.cap (stateOf states) i)

end

section
variable {states : Nat → Option SpecRhythmRuntimeState}

theorem shape_eraseDups (planId : Nat) (wait : ℚ) (contextLen : Nat) (draftTokenBudget : Option Int)
    (bs : Option Nat) :
    shaper.shape planId nm.eraseDups eg.eraseDups states wait contextLen draftTokenBudget bs =
      shaper.shape planId nm eg states wait contextLen draftTokenBudget bs := by
  simp only [shape, eraseDups_of_nodup (nodup_eraseDups _)]

theorem fair_gapsClosed (wait : ℚ) : Fair shaper (stateOf states) (shaper.gapsClosed states wait nm eg roof draft) := by
  have hs : Fair shaper (stateOf states) ⟨shaper.minimumBudgets states nm, [],
      roof - tokensOf (shaper.minimumBudgets states nm), draft - tokensOf (shaper.minimumBudgets states nm)⟩ := by
    refine ⟨fun i n hi => ?_, fun i n hi => by cases hi⟩
    obtain ⟨j, -, hj⟩ := mem_map.mp (mem_of_lookup hi)
    cases hj
    exact le_refl _
  exact (closeGaps_inv wait (P := fun _ => Fair shaper (stateOf states)) (fun _ _ _ h => h)
    (fun _ _ _ h hf => h.grantGap hf) _ _ hs).choose_spec

theorem allocated_spec (hn : nm.Nodup) (he : eg.Nodup) (h : Shapeable shaper states nm eg roof draft)
    (wait : ℚ) : ∃ a, shaper.allocated states wait nm eg roof draft = a ∧
      AllocationOk shaper (stateOf states) nm eg roof draft a ∧ Fair shaper (stateOf states) a ∧
      (a.roof = 0 ∨ a.draft = 0 ∨ best (shaper.candidates (stateOf states) wait nm eg a) = none) := by
  obtain ⟨a, ha, ⟨hok, hf⟩, hend⟩ := spendResidual_inv (P := fun a =>
    AllocationOk shaper (stateOf states) nm eg roof draft a ∧ Fair shaper (stateOf states) a)
    (fun a c ⟨hok, hf⟩ hb hr hd =>
      ⟨hok.addToken (best_mem hb) hr hd, hf.addToken hok (best_mem hb)⟩) _ _
    ⟨gapsClosed_ok hn he h wait, fair_gapsClosed wait⟩ rfl
  exact ⟨a, ha, hok, hf, hend⟩

theorem planSpec_of_ok
    (hok : AllocationOk shaper (stateOf states) nm eg roof draft a) (hfa : Fair shaper (stateOf states) a)
    (hend : a.roof = 0 ∨ a.draft = 0 ∨ best (shaper.candidates (stateOf states) wait nm eg a) = none)
    (hreq : ∀ i, i ∈ nm ↔ i ∈ rs) (hee : ∀ i, i ∈ eg ↔ i ∈ eagers)
    (hno : plan.normalBudgets = a.normal) (hea : plan.eagerBudgets = a.eager) :
    PlanSpec shaper states rs eagers roof draft plan := by
  have hro := hok.roof
  have hdr := hok.draft
  refine ⟨?_, fun i => ?_, fun i n hi => ?_, fun i n hi => ?_, fun hle => ?_⟩
  · rw [hno, hea]
    omega
  · rw [hno, ← hreq, ← hok.normal, mem_keys_iff]
  · rw [hno] at hi
    exact ⟨hfa.least i n hi, (hok.budget _ (mem_append_left _ (mem_of_lookup hi))).2⟩
  · rw [hea] at hi
    exact ⟨(hee i).mp (hok.eager _ (mem_of_lookup hi)), hfa.floor i n hi, hok.budget _ (mem_append_right _ (mem_of_lookup hi))⟩
  · rw [hno, hea] at hle ⊢
    have hnone : shaper.candidates (stateOf states) wait nm eg a = [] := best_eq_none (by
      rcases hend with hend | hend | hend
      · omega
      · omega
      · exact hend)
    have hfu : ∀ i n, (i, n) ∈ a.normal ++ a.eager → n ≤ shaper.cap (stateOf states) i := fun i n hi =>
      (hok.budget (i, n) hi).2
    refine ⟨fun i hi => ?_, fun i hi hfl => ?_⟩
    · have hi := (hreq i).mpr hi
      obtain ⟨n, hlo⟩ := mem_keys_iff.mp (hok.normal ▸ hi)
      have hge : shaper.cap (stateOf states) i ≤ (a.normal.lookup i).getD 0 := by
        by_contra hlt
        have hmem := mem_candidates_normal wait eg hi (Nat.not_le.mp hlt)
        rw [hnone] at hmem
        cases hmem
      rw [hlo, Option.getD_some] at hge
      rw [hlo, le_antisymm (hfu i n (mem_append_left _ (mem_of_lookup hlo))) hge]
    · have hge : shaper.cap (stateOf states) i ≤ (a.eager.lookup i).getD 0 := by
        by_contra hlt
        have hmem := mem_candidates_eager wait nm ((hee i).mpr hi) (Nat.not_le.mp hlt) hfl
        rw [hnone] at hmem
        cases hmem
      have hpos : 0 < shaper.cap (stateOf states) i := cap_pos i
      cases hlo : a.eager.lookup i with
      | none =>
        rw [hlo, Option.getD_none] at hge
        omega
      | some n =>
        rw [hlo, Option.getD_some] at hge
        rw [le_antisymm (hfu i n (mem_append_right _ (mem_of_lookup hlo))) hge]

theorem shape_spec (shaper : SpecRhythmBudgetShaper) (states : Nat → Option SpecRhythmRuntimeState)
    (normal eager : List Nat) (hdisjoint : ∀ i ∈ normal, i ∉ eager)
    (hregistered : ∀ i ∈ normal ++ eager, (states i).isSome = true) (planId : Nat) (wait : ℚ) (contextLen : Nat)
    (draftTokenBudget : Option Int) (batchSize : Option Nat) :
    let roof := shaper.roofFor normal eager contextLen batchSize
    let draft := availableDraft roof draftTokenBudget
    let needed := tokensOf (shaper.minimumBudgets states normal.eraseDups)
    let result := shaper.shape planId normal eager states wait contextLen draftTokenBudget batchSize
    (needed ≤ roof ∧ needed ≤ draft → ∃ plan, result = .ok plan ∧ PlanSpec shaper states normal eager roof draft plan) ∧
      (¬ (needed ≤ roof ∧ needed ≤ draft) → ∃ e, result = .error e) := by
  have hn := nodup_eraseDups normal
  have he := nodup_eraseDups eager
  refine ⟨fun hfi => ?_, fun hfi => ?_⟩
  · have hsp : Shapeable shaper states normal.eraseDups eager.eraseDups _ _ :=
      ⟨by simpa [mem_eraseDups] using hdisjoint, fun i hi => hregistered i (by simpa [mem_eraseDups] using hi), hfi⟩
    obtain ⟨a, ha, hok, hfa, hend⟩ := allocated_spec hn he hsp wait
    rw [← shape_eraseDups, shape_ok hn he rfl hsp, ← roofFor, ha]
    exact ⟨_, rfl, planSpec_of_ok hok hfa hend (fun _ => mem_eraseDups) (fun _ => mem_eraseDups) rfl rfl⟩
  · cases hsh : shaper.shape planId normal eager states wait contextLen draftTokenBudget batchSize with
    | error e => exact ⟨e, rfl⟩
    | ok plan =>
      rw [← shape_eraseDups] at hsh
      exact absurd (shapeable_of_ok hn he rfl hsh).fits hfi

def twoStates (i : Nat) : Option SpecRhythmRuntimeState :=
  if i < 2 then some { requestIndex := i, homeBatchId := 0 } else none

def smallShaper : SpecRhythmBudgetShaper :=
  { minGamma := 1, maxGamma := 3, minGamma_pos := Nat.one_pos, minGamma_le := Nat.le_add_right 1 2 }

theorem shape_spec_two : ∃ plan, smallShaper.shape 0 [0] [1] twoStates 0 0 (some 2) none = .ok plan ∧
    PlanSpec smallShaper twoStates [0] [1] 6 2 plan :=
  (shape_spec smallShaper twoStates [0] [1] (by decide) (by decide) 0 0 0 (some 2) none).1 (by decide)

end

end SpecRhythmBudgetShaper

end VllmAscend
