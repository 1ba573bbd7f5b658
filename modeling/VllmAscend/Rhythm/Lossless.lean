import VllmAscend.Pearl.Lossless
import VllmAscend.Rhythm.PlanAgreement

/-!
# SpecRhythm decoding is lossless

At temperature zero, and as long as the groups shape the same budgets, the loop
ends and returns the greedy continuation of each prompt under the target model,
cut by the request's own limits.
-/

namespace VllmAscend

open Filter (atTop eventually_gt_atTop eventually_all_finite eventually_atTop)
open Python Greedy Rows Run PearlPipelineState SpecRhythmBudgetShaper

section
variable {run : RhythmRun}

theorem exists_arrivals (hc : ∀ i < run.requests, ∀ᶠ k in atTop, run.arrived (run.clock k) i = true) :
    ∃ arrivals, ∀ k ≥ arrivals, ∀ i < run.requests, run.arrived (run.clock k) i = true := by
  have ha : ∀ᶠ k in atTop, ∀ i ∈ {i | i < run.requests}, run.arrived (run.clock k) i = true := by
    rw [eventually_all_finite (Set.finite_lt_nat _)]
    exact hc
  exact eventually_atTop.mp ha

end

/-- As long as both groups get the same budgets. -/
theorem generateSpecRhythmDecode_lossless (run : RhythmRun) (prompts : List (List Nat)) (arg : SamplingArg)
    {params : List NativeSamplingParams} (h : Launched run prompts arg params) (hmax : run.maxRounds = none)
    (h0 : ∀ p ∈ params, p.temperature = 0) (hpolicy : run.shape.Sound run.gamma)
    (hclock : ∀ i < run.requests, ∀ᶠ k in atTop, run.arrived (run.clock k) i = true)
    (hsame : ∀ events d t, Reach (rhythmIteration run) (run.init (prefilled run.models prompts params),
      run.init (prefilled run.models prompts params)) events (d, t) → t.activeIndices ≠ [] → SameShaping run d t) :
    ∀ᶠ fuel in atTop, generateSpecRhythmDecode run (prefilled run.models prompts params) fuel =
      .ok (some (List.zipWith (greedyCompletion run.models run.eos) prompts params)) := by
  have had := admitBatch_ok h.admitted
  obtain ⟨arrivals, har⟩ := exists_arrivals hclock
  filter_upwards [eventually_gt_atTop (rhythmWork run arrivals (run.init (prefilled run.models prompts params)))] with
    fuel hfu
  obtain ⟨d, t, hloop, hend⟩ := loop_rhythmIteration_ok h.rhythmOk hpolicy hmax h.prefilled har hsame hfu
  unfold generateSpecRhythmDecode
  simp only [hloop, ok_bind, pure_eq_ok, Option.map_some]
  rw [h.requests, map_range_eq_zipWith had.length fun i prompt p hpr hp => ?_]
  obtain ⟨hi, -⟩ := List.getElem?_eq_some_iff.mp hpr
  obtain ⟨hok, hf⟩ := hend i (h.requests ▸ hi)
  rw [h.sampling, promptOf_eq hpr, paramsOf_eq hp] at hok
  rw [rhythmCompletionTokenIds, hmax, hok.completion (h0 p (List.mem_of_getElem? hp)) hf]

/-! ## Without a roofline -/

theorem tokensOf_minimumBudgets_le (shaper : SpecRhythmBudgetShaper) (st : Nat → Option SpecRhythmRuntimeState) :
    ∀ nm : List Nat, tokensOf (shaper.minimumBudgets st nm) ≤ nm.length * shaper.maxGamma
  | [] => by simp [minimumBudgets, tokensOf]
  | i :: nm => by
    have ih := tokensOf_minimumBudgets_le shaper st nm
    have hle : min shaper.minGamma (shaper.cap (stateOf st) i) ≤ shaper.maxGamma := (min_le_right _ _).trans (cap_le i)
    have hc : tokensOf (shaper.minimumBudgets st (i :: nm)) =
        min shaper.minGamma (shaper.cap (stateOf st) i) + tokensOf (shaper.minimumBudgets st nm) := rfl
    rw [hc, List.length_cons, Nat.add_mul, Nat.one_mul]
    omega

theorem sameBudgets_of_unmeasured (hsh : run.shape = run.rhythm.policy)
    (hro : ∀ key, run.rhythm.roofline key = none) (hli : run.rhythm.draftTokenBudget = none)
    (h : Between run prompt windows draft t) : SameShaping run (t.asDraft draft completed) t := by
  intro plan controller hbu _
  obtain ⟨plan', hbu', hpl⟩ := buildPlan_ok h.toFlight h.settled
  rw [hbu] at hbu'
  cases hbu'
  have hrf : ∀ contextLen, run.rhythm.shaper.verificationRoof t.activeIndices.length contextLen =
      max 1 t.activeIndices.length * run.gamma := by
    intro contextLen
    unfold verificationRoof
    simp only [show ∀ key, run.rhythm.shaper.roofline key = none from hro]
    rfl
  have hco := shapedBudgets_congr hsh
    (show SameRoof run (t.asDraft draft completed) t from (hrf _).trans (hrf _).symm) t.controller.planMade plan
  have hca : (eagerCandidates run t t.controller.planMade plan.eagerCandidateIndices).Sublist
      plan.targetRequestIndices := by
    unfold eagerCandidates
    split
    · exact List.nil_sublist _
    · rw [hpl.eager]; exact List.filter_sublist
  have hsp : Shapeable run.rhythm.shaper t.controller.planMade.requestStates plan.normalDraftRequestIndices
      (eagerCandidates run t t.controller.planMade plan.eagerCandidateIndices)
      (max 1 t.activeIndices.length * run.gamma)
      (availableDraft (max 1 t.activeIndices.length * run.gamma) (run.rhythm.draftTokenBudget.map Int.ofNat)) := by
    have hlen : plan.normalDraftRequestIndices.length ≤ max 1 t.activeIndices.length :=
      ((hpl.normalNodup.subperm fun i hi => (hpl.normal i hi).1).length_le).trans (le_max_right _ _)
    have hfit := (tokensOf_minimumBudgets_le run.rhythm.shaper t.controller.planMade.requestStates
      plan.normalDraftRequestIndices).trans (Nat.mul_le_mul_right _ hlen)
    refine ⟨?_, ?_, hfit, hfit.trans ?_⟩
    · intro i hi he
      exact (hpl.target i (hca.subset he)).2 (hpl.normal i hi).2
    · intro i hi
      apply h.registered_active
      rcases List.mem_append.mp hi with hi | hi
      · exact (hpl.normal i hi).1
      · exact (hpl.target i (hca.subset hi)).1
    · rw [hli]
      show max 1 t.activeIndices.length * run.gamma ≤ 2 * (max 1 t.activeIndices.length * run.gamma)
      omega
  obtain ⟨budgets, hbd⟩ : ∃ budgets, shapedBudgets run t t.controller.planMade plan = .ok budgets := by
    unfold shapedBudgets
    rw [hsh]
    exact ⟨_, shape_ok hpl.normalNodup (hpl.targetNodup.sublist hca) (hrf (contextLen t)) hsp⟩
  exact ⟨budgets, hco.trans hbd, hbd⟩

def greedyParams (arrivalTs : Option ℚ) : NativeSamplingParams :=
  { temperature := 0, maxTokens := 8, arrivalTs := arrivalTs, temperature_nonneg := zeroRat_nonneg,
    draftTemperature_nonneg := zeroRat_nonneg, maxTokens_pos := defaultBuckets_pos }

def eagerParams : List NativeSamplingParams := [greedyParams none, greedyParams none, greedyParams (some 3)]

def eagerConfig : SpecRhythmConfig 3 where
  maxEagerTokens := 2
  urgencyThreshold := 0
  acceptanceFloor := 0
  minGamma_ok := by decide
  maxEagerTokens_le := by decide

def eagerRun : RhythmRun where
  cfg := { maxModelLen := 64, maxTokens := 8, maxNumSeqs := 2, maxNumQueuedSeqs := some 3, enableContinuousBatching := true,
           maxModelLen_pos := defaultTokens_pos, maxTokens_pos := defaultBuckets_pos, maxNumSeqs_pos := twoRows_pos,
           prefillChunkSize_ok := noChunk_ok, maxNumQueuedSeqs_ok := queueOfThree_ok, maxNumBatchedTokens_ok := by decide,
           buckets_pos := defaultBuckets_pos, postCounts_ok := noPostCounts_ok, preemptive_ok := by decide }
  gamma := 3
  rhythm := eagerConfig
  eos := {4}
  models := { target := fun p => p.length % 6, draft := fun _ _ p => if p.length % 3 = 0 then 7 else p.length % 6,
              sample := fun _ _ => 0, accept := fun _ _ => true, correction := fun _ _ => 0 }
  requests := 3
  maxRounds := none
  params := paramsOf eagerParams
  shape := eagerConfig.policy
  confidence := fun _ _ => 1 / 2
  clock := fun k => k
  elapsed := fun _ => 5

def eagerPrompts : List (List Nat) := [[7], [8, 9], [1, 2, 3, 4, 5]]

theorem launched_eagerRun : Launched eagerRun eagerPrompts (.perRequest eagerParams) eagerParams :=
  ⟨by decide, rfl, rfl, rfl, fun _ _ => by simp only [eagerRun]; norm_num⟩

theorem arrived_eagerRun : ∀ i < eagerRun.requests, ∀ᶠ k in atTop, eagerRun.arrived (eagerRun.clock k) i = true := by
  intro i hi
  have hi : i < 3 := hi
  filter_upwards [eventually_gt_atTop 3] with k hk
  have hk : (3 : ℚ) ≤ k := by exact_mod_cast hk.le
  rcases (by omega : i = 0 ∨ i = 1 ∨ i = 2) with rfl | rfl | rfl
  · rfl
  · rfl
  · simpa [RhythmRun.arrived, eagerRun, paramsOf, eagerParams, greedyParams] using hk

theorem generateSpecRhythmDecode_lossless_eagerRun : ∀ᶠ fuel in atTop,
    generateSpecRhythmDecode eagerRun (prefilled eagerRun.models eagerPrompts eagerParams) fuel =
      .ok (some [[1, 2, 3, 4], [2, 3, 4], [5, 0, 1, 2, 3, 4]]) := by
  have hp : eagerRun.shape.Sound eagerRun.gamma := policy_sound eagerConfig
  filter_upwards [generateSpecRhythmDecode_lossless eagerRun eagerPrompts (.perRequest eagerParams) launched_eagerRun rfl
    (by decide +kernel) hp arrived_eagerRun fun events d t hr _ => by
      obtain ⟨windows, draft, completed, hd, hb⟩ :=
        inStep_of_reach launched_eagerRun.rhythmOk hp launched_eagerRun.prefilled hr
      simp only at hd hb
      subst hd
      exact sameBudgets_of_unmeasured rfl (fun _ => rfl) rfl hb] with fuel h
  exact h.trans (by decide)

end VllmAscend
