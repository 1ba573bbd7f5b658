import VllmAscend.Lib.Marginal
import VllmAscend.Rhythm.ShaperSpec

/-!
# The residual budget is spent best

Stage two gives a token at a time to the largest marginal progress. A request's
marginal progress falls with depth, since its acceptance benefit is at most one,
so no other way to spend the residual capacity progresses further.
-/

namespace VllmAscend

open Python Rows Marginal List Function

structure SpecRhythmRuntimeState.Clamped (s : SpecRhythmRuntimeState) : Prop where
  acceptance : 0 ≤ s.acceptanceEma ∧ s.acceptanceEma ≤ 1
  confidence : 0 ≤ s.draftConfidenceEma ∧ s.draftConfidenceEma ≤ 1

theorem clamp_mem (x lower : ℚ) (h0 : 0 ≤ lower) (h1 : lower ≤ 1) : 0 ≤ clamp x lower ∧ clamp x lower ≤ 1 :=
  ⟨h0.trans (le_max_left _ _), max_le h1 (min_le_left _ _)⟩

theorem average_mem {alpha x y : ℚ} (ha : 0 ≤ alpha ∧ alpha ≤ 1) (hx : 0 ≤ x ∧ x ≤ 1) (hy : 0 ≤ y ∧ y ≤ 1) :
    0 ≤ alpha * x + (1 - alpha) * y ∧ alpha * x + (1 - alpha) * y ≤ 1 := by
  constructor <;> nlinarith [mul_nonneg ha.1 hx.1, mul_nonneg (sub_nonneg.mpr ha.2) hy.1,
    mul_nonneg ha.1 (sub_nonneg.mpr hx.2), mul_nonneg (sub_nonneg.mpr ha.2) (sub_nonneg.mpr hy.2)]

theorem SpecRhythmRuntimeState.Clamped.recordVerification {s : SpecRhythmRuntimeState} (h : s.Clamped)
    (proposed accepted delivered : Int) (confidence : Option ℚ) (alpha : ℚ) :
    (s.recordVerification proposed accepted delivered confidence alpha).Clamped := by
  have ha := clamp_mem alpha (1 / 1000000) (by norm_num) (by norm_num)
  refine ⟨?_, ?_⟩
  · simp only [SpecRhythmRuntimeState.recordVerification]
    split
    · refine average_mem ha ⟨by positivity, div_le_one_of_le₀ ?_ (by positivity)⟩ h.acceptance
      exact_mod_cast max_le (le_max_left _ _) (min_le_right _ _)
    · exact h.acceptance
  · cases confidence with
    | none => exact h.confidence
    | some c => exact average_mem ha (clamp_mem c 0 (le_refl 0) zero_le_one) h.confidence

namespace SpecRhythmBudgetShaper

def budgetIn (normal eager : List (Nat × Nat)) (i : Nat) : Nat := (normal.lookup i).getD ((eager.lookup i).getD 0)

def marginalProgress (state : Nat → SpecRhythmRuntimeState) (wait : ℚ) (i k : Nat) : ℚ :=
  (1 + (state i).urgency wait) * (state i).expectedAcceptanceBenefit ^ k

structure Feasible (shaper : SpecRhythmBudgetShaper) (state : Nat → SpecRhythmRuntimeState) (normal eager : List Nat)
    (closed : Allocation) (b : Nat → Nat) : Prop where
  budget : ∀ i ∈ normal ++ eager, budgetIn closed.normal closed.eager i ≤ b i ∧ b i ≤ shaper.cap state i
  capacity : ∑ i ∈ (normal ++ eager).toFinset, (b i - budgetIn closed.normal closed.eager i) ≤
    min closed.roof closed.draft
  floor : ∀ i ∈ eager, budgetIn closed.normal closed.eager i < b i →
    shaper.acceptanceFloor ≤ (state i).expectedAcceptanceBenefit

section
variable {sh : SpecRhythmBudgetShaper} {st : Nat → SpecRhythmRuntimeState} {wait : ℚ} {nm eg : List Nat}
  {roof dr : Nat} {a : Allocation}

theorem best_max : ∀ {l : List Candidate} {c : Candidate}, best l = some c → ∀ d ∈ l, d.key ≤ c.key
  | e :: l, c, h, d, hd => by
    unfold best at h
    cases hb : best l with
    | none =>
      rw [best_eq_none hb, mem_singleton] at hd
      rw [hb] at h
      cases h
      rw [hd]
    | some f =>
      rw [hb] at h
      simp only at h
      have hf := best_max hb
      split at h
      · next hlt =>
        cases h
        rcases mem_cons.mp hd with rfl | hd
        · exact hlt.le
        · exact hf d hd
      · next hge =>
        cases h
        rcases mem_cons.mp hd with rfl | hd
        · exact le_refl _
        · exact (hf d hd).trans (not_lt.mp hge)

variable {c : Candidate} {i : Nat} {closed : Allocation}

theorem marginal_le_of_key {d : Candidate} (h : c.key ≤ d.key) : c.marginal ≤ d.marginal := by
  rcases (Prod.Lex.le_iff).mp h with h | h
  · exact h.le
  · exact h.1.le

section
variable (hok : AllocationOk sh st nm eg roof dr a)
include hok

theorem AllocationOk.lookup_normal : i ∈ nm ↔ ∃ n, a.normal.lookup i = some n := by
  rw [← hok.normal, mem_keys_iff]

theorem AllocationOk.budget_normal (hi : i ∈ nm) : budgetIn a.normal a.eager i = (a.normal.lookup i).getD 0 := by
  obtain ⟨n, hn⟩ := hok.lookup_normal.mp hi
  simp [budgetIn, hn]

theorem AllocationOk.budget_eager (hi : i ∉ nm) : budgetIn a.normal a.eager i = (a.eager.lookup i).getD 0 := by
  cases hn : a.normal.lookup i with
  | none => simp [budgetIn, hn]
  | some n => exact absurd (hok.lookup_normal.mpr ⟨n, hn⟩) hi

theorem AllocationOk.budget_le_cap (i : Nat) : budgetIn a.normal a.eager i ≤ sh.cap st i := by
  unfold budgetIn
  cases hn : a.normal.lookup i with
  | some n => exact (hok.budget (i, n) (mem_append_left _ (mem_of_lookup hn))).2
  | none =>
    cases he : a.eager.lookup i with
    | some n => exact (hok.budget (i, n) (mem_append_right _ (mem_of_lookup he))).2
    | none => exact Nat.zero_le _

theorem candidate_spec (hd : ∀ i ∈ nm, i ∉ eg) (hc : c ∈ sh.candidates st wait nm eg a) :
    c.request ∈ nm ++ eg ∧ (c.request ∈ eg → sh.acceptanceFloor ≤
      (st c.request).expectedAcceptanceBenefit) ∧ budgetIn a.normal a.eager c.request < sh.cap st c.request ∧
      c.marginal = marginalProgress st wait c.request (budgetIn a.normal a.eager c.request + 1) ∧
      budgetIn (addToken a c).normal (addToken a c).eager = update (budgetIn a.normal a.eager)
        c.request (budgetIn a.normal a.eager c.request + 1) := by
  rcases mem_append.mp hc with hc | hc
  · obtain ⟨hin, hki, hca⟩ := mem_candidatesOf hc
    rw [hok.budget_normal hin]
    refine ⟨mem_append_left _ hin, fun he => absurd he (hd _ hin), hca, (candidate_of_mem hc).1, ?_⟩
    funext i
    by_cases hi : i = c.request
    · subst hi
      simp [addToken, hki, budgetIn, lookup_dictSet]
    · rw [update_of_ne hi]
      simp [addToken, hki, budgetIn, lookup_dictSet, Ne.symm hi]
  · obtain ⟨hin, hki, hca⟩ := mem_candidatesOf hc
    have hno : c.request ∉ nm := fun h => hd _ h hin
    rw [hok.budget_eager hno]
    refine ⟨mem_append_right _ hin, fun _ => (candidate_of_mem hc).2 rfl, hca, (candidate_of_mem hc).1, ?_⟩
    have hnone : a.normal.lookup c.request = none :=
      Option.eq_none_iff_forall_ne_some.mpr fun n hn => hno (hok.lookup_normal.mpr ⟨n, hn⟩)
    funext i
    by_cases hi : i = c.request
    · subst hi
      simp [addToken, hki, budgetIn, lookup_dictSet, hnone]
    · rw [update_of_ne hi]
      simp [addToken, hki, budgetIn, lookup_dictSet, Ne.symm hi]

end

theorem exists_candidate (wait : ℚ) (hok : AllocationOk sh st nm eg roof dr a)
    (hj : j ∈ nm ++ eg) (hc : budgetIn a.normal a.eager j < sh.cap st j)
    (hf : j ∈ nm ∨ sh.acceptanceFloor ≤ (st j).expectedAcceptanceBenefit) :
    ∃ d ∈ sh.candidates st wait nm eg a,
      d.marginal = marginalProgress st wait j (budgetIn a.normal a.eager j + 1) := by
  by_cases hn : j ∈ nm
  · rw [hok.budget_normal hn] at hc ⊢
    exact ⟨_, mem_candidates_normal wait eg hn hc, rfl⟩
  · rw [hok.budget_eager hn] at hc ⊢
    exact ⟨_, mem_candidates_eager wait nm ((mem_append.mp hj).resolve_left hn) hc (hf.resolve_left hn), rfl⟩

theorem marginalProgress_nonneg (wait : ℚ) (h : (st i).Clamped) (k : Nat) : 0 ≤ marginalProgress st wait i k := by
  have hu : 0 ≤ (st i).urgency wait := by
    unfold SpecRhythmRuntimeState.urgency
    split
    · exact le_refl _
    · exact le_max_left _ _
  exact mul_nonneg (by linarith) (pow_nonneg (mul_nonneg h.acceptance.1 h.confidence.1) k)

theorem marginalProgress_succ_le (h : (st i).Clamped) (k : Nat) :
    marginalProgress st wait i (k + 1) ≤ marginalProgress st wait i k := by
  have hb : (st i).expectedAcceptanceBenefit ≤ 1 := mul_le_one₀ h.acceptance.2 h.confidence.1 h.confidence.2
  have := mul_le_mul_of_nonneg_left hb (marginalProgress_nonneg wait h k)
  rw [mul_one] at this
  rwa [marginalProgress, pow_succ, ← mul_assoc]

def reachOf (shaper : SpecRhythmBudgetShaper) (state : Nat → SpecRhythmRuntimeState) (normal : List Nat) (b₀ : Nat → Nat)
    (i : Nat) : Nat :=
  if i ∈ normal ∨ shaper.acceptanceFloor ≤ (state i).expectedAcceptanceBenefit then shaper.cap state i else b₀ i

structure Spending (shaper : SpecRhythmBudgetShaper) (state : Nat → SpecRhythmRuntimeState) (wait : ℚ)
    (normal eager : List Nat) (roof draft : Nat) (closed a : Allocation) : Prop where
  ok : AllocationOk shaper state normal eager roof draft a
  settled : Marginal.Settled (marginalProgress state wait) (normal ++ eager).toFinset
    (reachOf shaper state normal (budgetIn closed.normal closed.eager)) (budgetIn closed.normal closed.eager)
    (budgetIn a.normal a.eager)
  within : ∀ i, budgetIn closed.normal closed.eager i ≤ budgetIn a.normal a.eager i ∧
    budgetIn a.normal a.eager i ≤ reachOf shaper state normal (budgetIn closed.normal closed.eager) i
  spent : ∑ i ∈ (normal ++ eager).toFinset, budgetIn a.normal a.eager i + a.roof =
      ∑ i ∈ (normal ++ eager).toFinset, budgetIn closed.normal closed.eager i + closed.roof ∧
    a.roof + closed.draft = closed.roof + a.draft

theorem Spending.start (hok : AllocationOk sh st nm eg roof dr closed) :
    Spending sh st wait nm eg roof dr closed closed := by
  refine ⟨hok, .start, fun i => ⟨le_refl _, ?_⟩, rfl, rfl⟩
  unfold reachOf
  split
  · exact hok.budget_le_cap i
  · exact le_refl _

theorem Spending.step (hd : ∀ i ∈ nm, i ∉ eg) (hst : ∀ i, (st i).Clamped)
    (h : Spending sh st wait nm eg roof dr closed a)
    (hbe : best (sh.candidates st wait nm eg a) = some c) (hro : 0 < a.roof) (hdr : 0 < a.draft) :
    Spending sh st wait nm eg roof dr closed (addToken a c) := by
  obtain ⟨hin, hfl, hca, hma, hbu⟩ := candidate_spec h.ok hd (best_mem hbe)
  have hre : reachOf sh st nm (budgetIn closed.normal closed.eager) c.request =
      sh.cap st c.request := if_pos ((mem_append.mp hin).imp_right hfl)
  have hfi : (addToken a c).roof = a.roof - 1 := by
    unfold SpecRhythmBudgetShaper.addToken
    split <;> rfl
  have hset := draft_addToken a c
  have hsp := h.spent
  refine ⟨h.ok.addToken (best_mem hbe) hro hdr, ?_, fun i => ?_, ?_, by omega⟩
  · rw [hbu]
    refine h.settled.step (fun i => marginalProgress_succ_le (hst i)) (mem_toFinset.mpr hin) (hre ▸ hca)
      fun j hj hlt => ?_
    have hop : j ∈ nm ∨ sh.acceptanceFloor ≤ (st j).expectedAcceptanceBenefit := by
      by_contra hno
      rw [reachOf, if_neg hno] at hlt
      exact absurd hlt (not_lt.mpr (h.within j).1)
    rw [reachOf, if_pos hop] at hlt
    obtain ⟨d, hmem, hnext⟩ := exists_candidate wait h.ok (mem_toFinset.mp hj) hlt hop
    rw [← hnext, ← hma]
    exact marginal_le_of_key (best_max hbe d hmem)
  · have := h.within i
    rw [hbu]
    by_cases hi : i = c.request
    · subst hi
      rw [update_self, hre]
      omega
    · rwa [update_of_ne hi]
  · have hmem := mem_toFinset.mpr hin
    have := Finset.add_sum_erase _ (budgetIn a.normal a.eager) hmem
    rw [hbu, Finset.sum_update_of_mem hmem, Finset.sdiff_singleton_eq_erase]
    omega

theorem Spending.optimal (hd : ∀ i ∈ nm, i ∉ eg) (hst : ∀ i, (st i).Clamped)
    (h : Spending sh st wait nm eg roof dr closed a)
    (hend : a.roof = 0 ∨ a.draft = 0 ∨ best (sh.candidates st wait nm eg a) = none) :
    Feasible sh st nm eg closed (budgetIn a.normal a.eager) ∧
      ∀ b, Feasible sh st nm eg closed b →
        gain (marginalProgress st wait) (nm ++ eg).toFinset (budgetIn closed.normal closed.eager) b ≤
          gain (marginalProgress st wait) (nm ++ eg).toFinset (budgetIn closed.normal closed.eager)
            (budgetIn a.normal a.eager) := by
  have hsum := Finset.sum_tsub_distrib (nm ++ eg).toFinset fun i _ => (h.within i).1
  have hsp := h.spent
  refine ⟨⟨fun i _ => ⟨(h.within i).1, h.ok.budget_le_cap i⟩, by rw [hsum]; omega, fun i hi hlt => ?_⟩, fun b hb => ?_⟩
  · by_contra hno
    have hre := (h.within i).2
    rw [reachOf, if_neg (not_or.mpr ⟨fun hn => hd i hn hi, hno⟩)] at hre
    exact absurd hlt (not_lt.mpr hre)
  · refine h.settled.optimal (fun i => marginalProgress_succ_le (hst i)) (fun i => marginalProgress_nonneg wait (hst i))
      (fun i _ => (h.within i).1) (fun i hi => ⟨(hb.budget i (mem_toFinset.mp hi)).1, ?_⟩) ?_
    · unfold reachOf
      split
      · exact (hb.budget i (mem_toFinset.mp hi)).2
      rename_i hno
      obtain ⟨hn, hfl⟩ := not_or.mp hno
      have he := (mem_append.mp (mem_toFinset.mp hi)).resolve_left hn
      exact not_lt.mp fun hlt => hfl (hb.floor i he hlt)
    · by_cases hnone : best (sh.candidates st wait nm eg a) = none
      · refine .inl fun i hi => ?_
        by_contra hlt
        unfold reachOf at hlt
        split at hlt
        · next hop =>
          obtain ⟨d, hmem, -⟩ := exists_candidate wait h.ok (mem_toFinset.mp hi) (not_le.mp hlt) hop
          rw [best_eq_none hnone] at hmem
          cases hmem
        · exact hlt (h.within i).1
      · have hca := hb.capacity
        refine .inr (hca.trans ?_)
        rcases hend with hend | hend | hend
        · omega
        · omega
        · exact absurd hend hnone

/-- The budgets of a plan are a way to go on from stage one, and of all these the one with the most progress. -/
theorem residual_optimal (shaper : SpecRhythmBudgetShaper) (states : Nat → Option SpecRhythmRuntimeState)
    (normal eager : List Nat) (planId : Nat) (wait : ℚ) (contextLen : Nat) (draftTokenBudget : Option Int)
    (batchSize : Option Nat) {plan : SpecRhythmBudgetPlan} (hstates : ∀ i s, states i = some s → s.Clamped)
    (h : shaper.shape planId normal eager states wait contextLen draftTokenBudget batchSize = .ok plan) :
    let roof := shaper.roofFor normal eager contextLen batchSize
    let requests := normal.eraseDups
    let eagers := eager.eraseDups
    let closed := shaper.gapsClosed states wait requests eagers roof (availableDraft roof draftTokenBudget)
    let total := gain (marginalProgress (stateOf states) wait) (requests ++ eagers).toFinset
      (budgetIn closed.normal closed.eager)
    Feasible shaper (stateOf states) requests eagers closed (budgetIn plan.normalBudgets plan.eagerBudgets) ∧
      ∀ b, Feasible shaper (stateOf states) requests eagers closed b →
        total b ≤ total (budgetIn plan.normalBudgets plan.eagerBudgets) := by
  have hn := nodup_eraseDups normal
  have he := nodup_eraseDups eager
  have hcl : ∀ i, (stateOf states i).Clamped := by
    intro i
    unfold stateOf
    cases hs : states i with
    | none => exact ⟨⟨zero_le_one, le_refl 1⟩, ⟨zero_le_one, le_refl 1⟩⟩
    | some s => exact hstates i s hs
  rw [← shape_eraseDups] at h
  have hsh := shapeable_of_ok hn he rfl h
  rw [shape_ok hn he rfl hsh] at h
  cases h
  obtain ⟨a, ha, hsp, hend⟩ := spendResidual_inv (fun a c h hbe hro hdr =>
    Spending.step hsh.disjoint hcl h hbe hro hdr) _ _ (.start (gapsClosed_ok hn he hsh wait)) rfl
  have hall : shaper.allocated states wait normal.eraseDups eager.eraseDups _ _ = a := ha
  rw [hall]
  exact hsp.optimal hsh.disjoint hcl hend

theorem twoStates_clamped (i : Nat) (s : SpecRhythmRuntimeState) (h : twoStates i = some s) : s.Clamped := by
  unfold twoStates at h
  split at h
  · cases h
    exact ⟨⟨zero_le_one, le_refl 1⟩, ⟨zero_le_one, le_refl 1⟩⟩
  · cases h

theorem residual_optimal_two : ∃ plan, smallShaper.shape 0 [0] [1] twoStates 0 0 (some 4) none = .ok plan ∧
    let closed := smallShaper.gapsClosed twoStates 0 [0] [1] 6 4
    let total := gain (marginalProgress (stateOf twoStates) 0) ([0] ++ [1]).toFinset (budgetIn closed.normal closed.eager)
    Feasible smallShaper (stateOf twoStates) [0] [1] closed (budgetIn plan.normalBudgets plan.eagerBudgets) ∧
      ∀ b, Feasible smallShaper (stateOf twoStates) [0] [1] closed b →
        total b ≤ total (budgetIn plan.normalBudgets plan.eagerBudgets) := by
  have hs : Shapeable smallShaper twoStates [0] [1] 6 4 := ⟨by decide, by decide, by decide⟩
  have hp : smallShaper.shape 0 [0] [1] twoStates 0 0 (some 4) none = .ok _ := shape_ok (by decide) (by decide) rfl hs
  exact ⟨_, hp, residual_optimal smallShaper twoStates [0] [1] 0 0 0 (some 4) none twoStates_clamped hp⟩

end

end SpecRhythmBudgetShaper

end VllmAscend
