import Mathlib.Algebra.BigOperators.Intervals
import Mathlib.Algebra.BigOperators.Ring.Finset
import Mathlib.Algebra.Order.BigOperators.Group.Finset
import Mathlib.Tactic.Linarith
import Mathlib.Tactic.Ring

/-!
# Units with decreasing gains

Units are given out one at a time, each to whoever gains the most from one more.
If nobody gains more from a later unit than from an earlier one, what was given
out gains the most in total.
-/

namespace Marginal

open Finset Function

variable {ι : Type*} (g : ι → ℕ → ℚ) (s : Finset ι) (limit b₀ : ι → ℕ)

def gain (b : ι → ℕ) : ℚ := ∑ i ∈ s, ∑ k ∈ Finset.Ioc (b₀ i) (b i), g i k

/-- Every unit given out gains at least as much as any unit that could be next. -/
def Settled (b : ι → ℕ) : Prop :=
  ∀ i ∈ s, b₀ i < b i → ∀ j ∈ s, b j < limit j → g j (b j + 1) ≤ g i (b i)

variable {g s limit b₀} {b b' : ι → ℕ}

theorem Settled.start : Settled g s limit b₀ b₀ := fun _ _ h => absurd h (lt_irrefl _)

section
variable (hg : ∀ i k, g i (k + 1) ≤ g i k)
include hg

theorem Settled.step [DecidableEq ι] (h : Settled g s limit b₀ b) {i : ι} (hi : i ∈ s)
    (hlt : b i < limit i) (hbe : ∀ j ∈ s, b j < limit j → g j (b j + 1) ≤ g i (b i + 1)) :
    Settled g s limit b₀ (update b i (b i + 1)) := by
  intro j hj hgi k hk hop
  -- the next unit of `k` gains no more than it did before
  have hnext : b k < limit k ∧ g k (update b i (b i + 1) k + 1) ≤ g k (b k + 1) := by
    by_cases hki : k = i
    · subst hki
      rw [update_self]
      exact ⟨hlt, hg k _⟩
    · rw [update_of_ne hki] at hop ⊢
      exact ⟨hop, le_refl _⟩
  refine hnext.2.trans ?_
  by_cases hji : j = i
  · subst hji
    rw [update_self]
    exact hbe k hk hnext.1
  · rw [update_of_ne hji] at hgi ⊢
    exact h j hj hgi k hk hnext.1

theorem sum_Ioc_le {i : ι} {c : ℚ} (hb : b₀ i ≤ b i) (hb' : b₀ i ≤ b' i)
    (hmo : b i < b' i → g i (b i + 1) ≤ c) (hls : b' i < b i → c ≤ g i (b i)) :
    ∑ k ∈ Finset.Ioc (b₀ i) (b' i), g i k ≤ ∑ k ∈ Finset.Ioc (b₀ i) (b i), g i k + c * ((b' i : ℚ) - b i) := by
  have han : ∀ {k l : ℕ}, k ≤ l → g i l ≤ g i k := fun hkl => antitone_nat_of_succ_le (hg i) hkl
  rcases le_or_gt (b i) (b' i) with hle | hlt
  · rw [← sum_Ioc_consecutive _ hb hle]
    have hsum := sum_le_card_nsmul (Finset.Ioc (b i) (b' i)) (g i) c fun k hk => by
      obtain ⟨h1, h2⟩ := mem_Ioc.mp hk
      exact (han h1).trans (hmo (h1.trans_le h2))
    rw [Nat.card_Ioc, nsmul_eq_mul, Nat.cast_sub hle] at hsum
    linarith
  · rw [← sum_Ioc_consecutive _ hb' hlt.le]
    have hsum := card_nsmul_le_sum (Finset.Ioc (b' i) (b i)) (g i) c fun k hk =>
      (hls hlt).trans (han (mem_Ioc.mp hk).2)
    rw [Nat.card_Ioc, nsmul_eq_mul, Nat.cast_sub hlt.le] at hsum
    linarith

theorem Settled.optimal (hpos : ∀ i k, 0 ≤ g i k) (h : Settled g s limit b₀ b)
    (hb : ∀ i ∈ s, b₀ i ≤ b i) (hb' : ∀ i ∈ s, b₀ i ≤ b' i ∧ b' i ≤ limit i)
    (hend : (∀ i ∈ s, limit i ≤ b i) ∨ ∑ i ∈ s, (b' i - b₀ i) ≤ ∑ i ∈ s, (b i - b₀ i)) :
    gain g s b₀ b' ≤ gain g s b₀ b := by
  by_cases hfu : ∀ i ∈ s, limit i ≤ b i
  · refine sum_le_sum fun i hi => sum_le_sum_of_subset_of_nonneg ?_ fun k _ _ => hpos i k
    exact Finset.Ioc_subset_Ioc_right ((hb' i hi).2.trans (hfu i hi))
  have hsp := hend.resolve_left hfu
  obtain ⟨j0, hj0⟩ : (s.filter fun j => b j < limit j).Nonempty := by
    simp only [not_forall, not_le] at hfu
    obtain ⟨j, hj, hlt⟩ := hfu
    exact ⟨j, mem_filter.mpr ⟨hj, hlt⟩⟩
  -- the price is what the best next unit gains
  obtain ⟨j, hj, hmax⟩ := exists_max_image _ (fun j => g j (b j + 1)) ⟨j0, hj0⟩
  obtain ⟨hjs, hop⟩ := mem_filter.mp hj
  have hpa : gain g s b₀ b' ≤ ∑ i ∈ s, (∑ k ∈ Finset.Ioc (b₀ i) (b i), g i k + g j (b j + 1) * ((b' i : ℚ) - b i)) := by
    refine sum_le_sum fun i hi => sum_Ioc_le hg (hb i hi) (hb' i hi).1 (fun hlt => ?_) fun hlt => ?_
    · exact hmax i (mem_filter.mpr ⟨hi, hlt.trans_le (hb' i hi).2⟩)
    · exact h i hi ((hb' i hi).1.trans_lt hlt) j hjs hop
  rw [sum_add_distrib, ← mul_sum] at hpa
  have hca : ∑ i ∈ s, ((b' i : ℚ) - b i) ≤ 0 := by
    have hsub : ∀ i ∈ s, (b' i : ℚ) - b i = ((b' i - b₀ i : ℕ) : ℚ) - ((b i - b₀ i : ℕ) : ℚ) := fun i hi => by
      rw [Nat.cast_sub (hb' i hi).1, Nat.cast_sub (hb i hi)]
      ring
    rw [sum_congr rfl hsub, sum_sub_distrib, sub_nonpos]
    exact_mod_cast hsp
  have := mul_nonpos_of_nonneg_of_nonpos (hpos j (b j + 1)) hca
  unfold gain at hpa ⊢
  linarith

end

end Marginal
