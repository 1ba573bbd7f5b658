import VllmAscend.Lib.Rows
import VllmAscend.Rhythm.Shaper

/-!
# What the budget shaper hands out

Both stages keep one invariant: every normal request has a budget, an eager one
has at most one, each is within `[1, max_gamma]`, and what was handed out and
what is left add up to the roof and to the draft window.
-/

namespace VllmAscend

open Python Rows SpecRhythmBudgetShaper List

variable {i roof dr : Nat} {sh : SpecRhythmBudgetShaper} {wait : ℚ} {nm eg : List Nat}

/-! ## Budgets in dictionaries -/

theorem tokensOf_cons (p : Nat × Nat) (d : List (Nat × Nat)) : tokensOf (p :: d) = p.2 + tokensOf d := rfl

variable {d : List (Nat × Nat)}

theorem lookup_cons_of_ne (h : p.1 ≠ i) : (p :: d).lookup i = d.lookup i := by
  rw [lookup_cons, show (i == p.1) = false from beq_eq_false_iff_ne.mpr h.symm]

theorem tokensOf_dictSet : ∀ {d : List (Nat × Nat)}, (d.lookup i).getD 0 = n →
    tokensOf (dictSet i (n + k) d) = tokensOf d + k
  | [], h => by
    cases h
    simp [dictSet, tokensOf]
  | p :: d, h => by
    unfold dictSet
    by_cases hp : p.1 = i
    · subst hp
      rw [lookup_cons_self, Option.getD_some] at h
      rw [if_pos rfl, tokensOf_cons, tokensOf_cons]
      omega
    · rw [lookup_cons_of_ne hp] at h
      rw [if_neg hp, tokensOf_cons, tokensOf_cons, tokensOf_dictSet h, Nat.add_assoc]

theorem mem_of_lookup (h : d.lookup i = some n) : (i, n) ∈ d := by
  obtain ⟨l1, l2, rfl, -⟩ := lookup_eq_some_iff.mp h
  simp

theorem mem_keys_iff : i ∈ d.map (·.1) ↔ ∃ n, d.lookup i = some n := by
  constructor
  · intro h
    by_contra hno
    obtain ⟨p, hp, rfl⟩ := mem_map.mp h
    have hnone : d.lookup p.1 = none := Option.eq_none_iff_forall_ne_some.mpr fun n hn => hno ⟨n, hn⟩
    simpa using lookup_eq_none_iff.mp hnone p hp
  · rintro ⟨n, hn⟩
    exact mem_map.mpr ⟨_, mem_of_lookup hn, rfl⟩

namespace SpecRhythmBudgetShaper

section
variable {state : Nat → SpecRhythmRuntimeState} {a : Allocation}

theorem cap_le (i : Nat) : sh.cap state i ≤ sh.maxGamma := min_le_left _ _

theorem cap_pos (i : Nat) : 0 < sh.cap state i := by
  have hm := sh.minGamma_pos
  have hle := sh.minGamma_le
  refine lt_min (by omega) ?_
  cases h : (state i).maxGamma with
  | none => simp only [Option.getD_none]; omega
  | some n => exact (state i).maxGamma_pos n h

structure AllocationOk (shaper : SpecRhythmBudgetShaper) (state : Nat → SpecRhythmRuntimeState) (normal eager : List Nat)
    (roof draft : Nat) (a : Allocation) : Prop where
  normal : a.normal.map (·.1) = normal
  eagerNodup : (a.eager.map (·.1)).Nodup
  eager : ∀ p ∈ a.eager, p.1 ∈ eager
  budget : ∀ p ∈ a.normal ++ a.eager, 0 < p.2 ∧ p.2 ≤ shaper.cap state p.1
  roof : tokensOf a.normal + tokensOf a.eager + a.roof = roof
  draft : tokensOf a.normal + tokensOf a.eager + a.draft = draft

section
variable (h : AllocationOk sh state nm eg roof dr a) (hk : 0 < n + k) (hca : n + k ≤ sh.cap state i)
  (hro : k ≤ a.roof) (hdr : k ≤ a.draft)
include h hk hca hro hdr

theorem AllocationOk.setNormal (hi : a.normal.lookup i = some n) : AllocationOk sh state nm eg roof dr
    { a with normal := dictSet i (n + k) a.normal, roof := a.roof - k, draft := a.draft - k } := by
  have hsum : tokensOf (dictSet i (n + k) a.normal) = _ := tokensOf_dictSet (by rw [hi, Option.getD_some])
  have hr := h.roof
  have hd := h.draft
  refine ⟨?_, h.eagerNodup, h.eager, ?_, by simp only; omega, by simp only; omega⟩
  · have hkey : i ∈ a.normal.map Prod.fst := mem_keys_iff.mpr ⟨n, hi⟩
    exact (map_fst_dictSet.trans (if_pos hkey)).trans h.normal
  · intro p hp
    rcases mem_append.mp hp with hp | hp
    · rcases mem_dictSet hp with rfl | hp
      · exact ⟨hk, hca⟩
      · exact h.budget p (mem_append_left _ hp)
    · exact h.budget p (mem_append_right _ hp)

theorem AllocationOk.setEager (hi : (a.eager.lookup i).getD 0 = n) (hin : i ∈ eg) :
    AllocationOk sh state nm eg roof dr
      { a with eager := dictSet i (n + k) a.eager, roof := a.roof - k, draft := a.draft - k } := by
  have hsum : tokensOf (dictSet i (n + k) a.eager) = _ := tokensOf_dictSet hi
  have hr := h.roof
  have hd := h.draft
  refine ⟨h.normal, nodup_dictSet h.eagerNodup, ?_, ?_, by simp only; omega, by simp only; omega⟩
  · intro p hp
    rcases mem_dictSet hp with rfl | hp
    · exact hin
    · exact h.eager p hp
  · intro p hp
    rcases mem_append.mp hp with hp | hp
    · exact h.budget p (mem_append_left _ hp)
    rcases mem_dictSet hp with rfl | hp
    · exact ⟨hk, hca⟩
    · exact h.budget p (mem_append_right _ hp)

end

/-! ## Stage one -/

theorem AllocationOk.grantGap (h : AllocationOk sh state nm eg roof dr a)
    (hi : i ∈ nm ++ eg) (hnew : i ∉ a.eager.map (·.1)) :
    AllocationOk sh state nm eg roof dr (sh.grantGap state wait a i) := by
  unfold SpecRhythmBudgetShaper.grantGap
  cases hl : a.normal.lookup i with
  | some current =>
    have hcu := h.budget _ (mem_append_left _ (mem_of_lookup hl))
    simp only at hcu ⊢
    exact h.setNormal (by omega) (by omega) (by omega) (by omega) hl
  | none =>
    have hin : i ∈ eg := by
      refine (mem_append.mp hi).resolve_left fun hno => ?_
      rw [← h.normal] at hno
      obtain ⟨n, hn⟩ := mem_keys_iff.mp hno
      rw [hl] at hn
      cases hn
    have hlo : (a.eager.lookup i).getD 0 = 0 := by
      cases he : a.eager.lookup i with
      | none => rfl
      | some n => exact absurd (mem_keys_iff.mpr ⟨n, he⟩) hnew
    simp only
    generalize hgr : min (min (sh.cap state i) (max sh.minGamma ((state i).projectedProgressGap wait)))
      (min a.roof a.draft) = grant
    by_cases hpos : 0 < grant
    · rw [if_pos hpos]
      have := h.setEager (by rwa [Nat.zero_add]) (by omega) (by omega) (by omega) hlo hin
      rwa [Nat.zero_add] at this
    · rw [if_neg hpos, show grant = 0 by omega]
      exact h

theorem grantGap_eager (h : j ∈ (sh.grantGap state wait a i).eager.map (·.1)) : j = i ∨ j ∈ a.eager.map (·.1) := by
  unfold grantGap at h
  split at h
  · exact .inr h
  simp only at h
  split at h
  · rw [show (dictSet i _ a.eager).map (·.1) = _ from map_fst_dictSet] at h
    split at h
    · exact .inr h
    rcases mem_append.mp h with h | h
    · exact .inr h
    · exact .inl (mem_singleton.mp h)
  · exact .inr h

theorem closeGaps_inv (wait : ℚ) {P : List Nat → Allocation → Prop} (hs : ∀ i l a, P (i :: l) a → P l a)
    (hg : ∀ i l a, P (i :: l) a → sh.acceptanceFloor ≤ (state i).expectedAcceptanceBenefit →
      P l (sh.grantGap state wait a i)) :
    ∀ (l : List Nat) (a : Allocation), P l a → ∃ rest, P rest (sh.closeGaps state wait l a)
  | [], _, h => ⟨[], h⟩
  | i :: l, a, h => by
    unfold closeGaps
    split
    · exact closeGaps_inv wait hs hg l a (hs i l a h)
    rename_i hga
    have h' := hg i l a h (not_lt.mp (not_or.mp hga).2)
    simp only
    split
    · exact ⟨l, h'⟩
    · exact closeGaps_inv wait hs hg l _ h'

theorem AllocationOk.closeGaps (l : List Nat) (h : AllocationOk sh state nm eg roof dr a) (hn : l.Nodup)
    (hl : ∀ i ∈ l, i ∈ nm ++ eg ∧ i ∉ a.eager.map (·.1)) :
    AllocationOk sh state nm eg roof dr (sh.closeGaps state wait l a) := by
  obtain ⟨-, hc, -⟩ := closeGaps_inv wait (P := fun l a =>
    AllocationOk sh state nm eg roof dr a ∧ l.Nodup ∧
      ∀ i ∈ l, i ∈ nm ++ eg ∧ i ∉ a.eager.map Prod.fst)
    (fun i l a ⟨h, hn, hl⟩ => ⟨h, (nodup_cons.mp hn).2, fun j hj => hl j (mem_cons_of_mem _ hj)⟩)
    (fun i l a ⟨h, hn, hl⟩ _ => by
      obtain ⟨hi, hn⟩ := nodup_cons.mp hn
      obtain ⟨hin, hnew⟩ := hl i (by simp)
      refine ⟨h.grantGap hin hnew, hn, fun j hj => ⟨(hl j (mem_cons_of_mem _ hj)).1, fun hno => ?_⟩⟩
      rcases grantGap_eager hno with rfl | hno
      · exact hi hj
      · exact (hl j (mem_cons_of_mem _ hj)).2 hno) l a ⟨h, hn, hl⟩
  exact hc

/-! ## Stage two -/

theorem best_mem : ∀ {l : List Candidate} {c : Candidate}, best l = some c → c ∈ l
  | d :: l, c, h => by
    unfold best at h
    cases hb : best l with
    | none =>
      rw [hb] at h
      simp only [Option.some.injEq] at h
      exact h ▸ mem_cons_self
    | some e =>
      rw [hb] at h
      simp only at h
      split at h
      · cases h
        exact mem_cons_of_mem _ (best_mem hb)
      · cases h
        exact mem_cons_self

theorem mem_candidatesOf (h : c ∈ sh.candidatesOf state wait isNormal budgets indices) :
    c.request ∈ indices ∧ c.isNormal = isNormal ∧ (budgets.lookup c.request).getD 0 < sh.cap state c.request := by
  obtain ⟨i, hi, hc⟩ := mem_filterMap.mp h
  simp only at hc
  split at hc
  · cases hc
  rename_i hca
  split at hc
  · cases hc
  · cases hc
    exact ⟨hi, rfl, Nat.lt_of_not_le hca⟩

theorem AllocationOk.addToken (h : AllocationOk sh state nm eg roof dr a)
    (hc : c ∈ sh.candidatesOf state wait true a.normal nm ++ sh.candidatesOf state wait false a.eager eg)
    (hr : 0 < a.roof) (hd : 0 < a.draft) : AllocationOk sh state nm eg roof dr (addToken a c) := by
  unfold SpecRhythmBudgetShaper.addToken
  rcases mem_append.mp hc with hc | hc
  · obtain ⟨hin, hk, hca⟩ := mem_candidatesOf hc
    rw [← h.normal] at hin
    obtain ⟨n, hn⟩ := mem_keys_iff.mp hin
    rw [hn, Option.getD_some] at hca
    simp only [hk, if_true, hn, Option.getD_some]
    exact h.setNormal (Nat.succ_pos n) hca hr hd hn
  · obtain ⟨hin, hk, hca⟩ := mem_candidatesOf hc
    simp only [hk, Bool.false_eq_true, if_false]
    exact h.setEager (Nat.succ_pos _) hca hr hd rfl hin

def candidates (shaper : SpecRhythmBudgetShaper) (state : Nat → SpecRhythmRuntimeState) (wait : ℚ)
    (normal eager : List Nat) (a : Allocation) : List Candidate :=
  shaper.candidatesOf state wait true a.normal normal ++ shaper.candidatesOf state wait false a.eager eager

theorem draft_addToken (a : Allocation) (c : Candidate) : (addToken a c).draft = a.draft - 1 := by
  unfold addToken
  split <;> rfl

theorem spendResidual_stop (fuel : Nat) (h : a.roof = 0 ∨ best (sh.candidates state wait nm eg a) = none) :
    sh.spendResidual state wait nm eg fuel a = a := by
  cases fuel with
  | zero => rfl
  | succ fuel =>
    rw [spendResidual]
    rcases h with h | h
    · rw [if_pos h]
      rfl
    by_cases hr : a.roof = 0
    · rw [if_pos hr]
      rfl
    · rw [candidates] at h
      rw [if_neg hr, h]

theorem spendResidual_some (hr : a.roof ≠ 0) (h : best (sh.candidates state wait nm eg a) = some c) :
    sh.spendResidual state wait nm eg (fuel + 1) a =
      sh.spendResidual state wait nm eg fuel (addToken a c) := by
  rw [candidates] at h
  rw [spendResidual, if_neg hr, h]

theorem spendResidual_inv {P : Allocation → Prop} (hs : ∀ a c, P a →
      best (sh.candidates state wait nm eg a) = some c → 0 < a.roof → 0 < a.draft → P (addToken a c)) :
    ∀ (fuel : Nat) (a : Allocation), P a → fuel = a.draft →
      ∃ b, sh.spendResidual state wait nm eg fuel a = b ∧ P b ∧
        (b.roof = 0 ∨ b.draft = 0 ∨ best (sh.candidates state wait nm eg b) = none)
  | 0, a, h, hf => ⟨a, rfl, h, .inr (.inl hf.symm)⟩
  | fuel + 1, a, h, hf => by
    by_cases hr : a.roof = 0
    · exact ⟨a, spendResidual_stop _ (.inl hr), h, .inl hr⟩
    cases hb : best (sh.candidates state wait nm eg a) with
    | none => exact ⟨a, spendResidual_stop _ (.inr hb), h, .inr (.inr hb)⟩
    | some c =>
      rw [spendResidual_some hr hb]
      exact spendResidual_inv hs fuel _ (hs a c h hb (Nat.pos_of_ne_zero hr) (by omega)) (by rw [draft_addToken]; omega)

theorem AllocationOk.spendResidual (h : AllocationOk sh state nm eg roof dr a) :
    AllocationOk sh state nm eg roof dr (sh.spendResidual state wait nm eg a.draft a) := by
  obtain ⟨_, rfl, hok, -⟩ := spendResidual_inv (fun _ _ h hb hr hd =>
    h.addToken (best_mem hb) hr hd) _ a h rfl
  exact hok

end

/-! ## The plan -/

section
variable {st : Nat → Option SpecRhythmRuntimeState}

def availableDraft (roof : Nat) (draftTokenBudget : Option Int) : Nat :=
  match draftTokenBudget with
  | none => 2 * roof
  | some budget => budget.toNat

def minimumBudgets (shaper : SpecRhythmBudgetShaper) (states : Nat → Option SpecRhythmRuntimeState) (normal : List Nat) :
    List (Nat × Nat) :=
  normal.map fun i => (i, min shaper.minGamma (shaper.cap (stateOf states) i))

structure Shapeable (shaper : SpecRhythmBudgetShaper) (states : Nat → Option SpecRhythmRuntimeState)
    (normal eager : List Nat) (roof draft : Nat) : Prop where
  disjoint : ∀ i ∈ normal, i ∉ eager
  registered : ∀ i ∈ normal ++ eager, (states i).isSome = true
  fits : tokensOf (shaper.minimumBudgets states normal) ≤ roof ∧ tokensOf (shaper.minimumBudgets states normal) ≤ draft

def gapsClosed (shaper : SpecRhythmBudgetShaper) (states : Nat → Option SpecRhythmRuntimeState) (wait : ℚ)
    (normal eager : List Nat) (roof draft : Nat) : Allocation :=
  let minimum := shaper.minimumBudgets states normal
  shaper.closeGaps (stateOf states) wait (urgent (stateOf states) wait (normal ++ eager))
    ⟨minimum, [], roof - tokensOf minimum, draft - tokensOf minimum⟩

def allocated (shaper : SpecRhythmBudgetShaper) (states : Nat → Option SpecRhythmRuntimeState) (wait : ℚ)
    (normal eager : List Nat) (roof draft : Nat) : Allocation :=
  let closed := shaper.gapsClosed states wait normal eager roof draft
  shaper.spendResidual (stateOf states) wait normal eager closed.draft closed

theorem gapsClosed_ok (hn : nm.Nodup) (he : eg.Nodup)
    (h : Shapeable sh st nm eg roof dr) (wait : ℚ) :
    AllocationOk sh (stateOf st) nm eg roof dr
      (sh.gapsClosed st wait nm eg roof dr) := by
  have hfi := h.fits
  have hst : AllocationOk sh (stateOf st) nm eg roof dr ⟨sh.minimumBudgets st nm, [],
      roof - tokensOf (sh.minimumBudgets st nm), dr - tokensOf (sh.minimumBudgets st nm)⟩ := by
    refine ⟨?_, nodup_nil, by simp, ?_, ?_, ?_⟩
    · simp [minimumBudgets, Function.comp_def]
    · intro p hp
      simp only [append_nil, minimumBudgets, mem_map] at hp
      obtain ⟨i, -, rfl⟩ := hp
      exact ⟨lt_min sh.minGamma_pos (cap_pos i), min_le_right _ _⟩
    · exact Nat.add_sub_cancel' hfi.1
    · exact Nat.add_sub_cancel' hfi.2
  have hperm : (urgent (stateOf st) wait (nm ++ eg)).Perm (nm ++ eg) := perm_insertionSort _ _
  have hnod : (nm ++ eg).Nodup := nodup_append.mpr ⟨hn, he, fun i hi j hj hij => h.disjoint i hi (hij ▸ hj)⟩
  refine hst.closeGaps _ (hperm.nodup_iff.mpr hnod) ?_
  intro i hi
  exact ⟨hperm.mem_iff.mp hi, by simp⟩

theorem allocated_ok (hn : nm.Nodup) (he : eg.Nodup)
    (h : Shapeable sh st nm eg roof dr) (wait : ℚ) :
    AllocationOk sh (stateOf st) nm eg roof dr
      (sh.allocated st wait nm eg roof dr) :=
  (gapsClosed_ok hn he h wait).spendResidual

theorem validated_ok
    (h : AllocationOk sh state nm eg roof dr a) (hd : ∀ i ∈ nm, i ∉ eg) (planId : Nat)
    (gaps : List (Nat × Nat)) (prio : List (Nat × ℚ)) :
    SpecRhythmBudgetPlan.validated ⟨planId, a.normal, a.eager, gaps, prio, roof, dr,
        tokensOf a.normal + tokensOf a.eager⟩ =
      .ok ⟨planId, a.normal, a.eager, gaps, prio, roof, dr, tokensOf a.normal + tokensOf a.eager⟩ := by
  have hr := h.roof
  have hdr := h.draft
  simp only [SpecRhythmBudgetPlan.validated, ite_throw_bind]
  refine ⟨?_, ?_, by omega, by omega, by omega, by omega, by omega, rfl⟩
  · simp only [any_eq_true, decide_eq_true_eq, not_exists, not_and]
    intro p hp hno
    obtain ⟨q, hq, heq⟩ := mem_map.mp hno
    refine hd p.1 ?_ (heq ▸ h.eager q hq)
    rw [← h.normal]
    exact mem_map_of_mem hp
  · simp only [any_eq_true, decide_eq_true_eq, not_exists, not_and]
    intro p hp hno
    have := (h.budget p hp).1
    omega

variable (hn : nm.Nodup) (he : eg.Nodup) {contextLen : Nat}
include hn he

theorem shape_ok (hr : sh.verificationRoof (bs.getD (max (nm ++ eg).length 1)) contextLen =
    roof) (h : Shapeable sh st nm eg roof (availableDraft roof bud)) :
    sh.shape planId nm eg st wait contextLen bud bs =
      let a := sh.allocated st wait nm eg roof (availableDraft roof bud)
      .ok ⟨planId, a.normal, a.eager, (nm ++ eg).map fun i => (i, (stateOf st i).projectedProgressGap wait),
        eg.map fun i =>
          (i, (stateOf st i).projectedProgressGap wait * (stateOf st i).expectedAcceptanceBenefit),
        roof, availableDraft roof bud, tokensOf a.normal + tokensOf a.eager⟩ := by
  have hok := allocated_ok hn he h wait
  simp only [shape, eraseDups_of_nodup hn, eraseDups_of_nodup he, hr]
  simp only [ite_throw_bind]
  refine ⟨?_, ?_, ?_, validated_ok hok h.disjoint _ _ _⟩
  · simpa [any_eq_true] using h.disjoint
  · simp only [any_eq_true, not_exists, not_and, Bool.not_eq_true]
    intro i hi
    simpa using h.registered i hi
  · have := h.fits
    exact not_or.mpr ⟨Nat.not_lt.mpr this.1, Nat.not_lt.mpr this.2⟩

theorem shapeable_of_ok
    (hro : sh.verificationRoof (bs.getD (max (nm ++ eg).length 1)) contextLen = roof)
    (h : sh.shape planId nm eg st wait contextLen bud bs = .ok plan) :
    Shapeable sh st nm eg roof (availableDraft roof bud) := by
  simp only [shape, eraseDups_of_nodup hn, eraseDups_of_nodup he, hro, ite_throw_bind] at h
  obtain ⟨hd, hr, hf, -⟩ := h
  refine ⟨?_, ?_, ?_⟩
  · simpa [any_eq_true] using hd
  · intro i hi
    simp only [any_eq_true, not_exists, not_and, Bool.not_eq_true] at hr
    simpa using hr i hi
  · obtain ⟨h1, h2⟩ := not_or.mp hf
    exact ⟨Nat.le_of_not_lt h1, Nat.le_of_not_lt h2⟩

end

end SpecRhythmBudgetShaper

end VllmAscend
