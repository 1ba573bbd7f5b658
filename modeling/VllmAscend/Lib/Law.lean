import Mathlib.Algebra.BigOperators.Ring.List
import Mathlib.Algebra.Order.BigOperators.Group.List
import Mathlib.Tactic.FieldSimp
import Mathlib.Tactic.Linarith
import Mathlib.Tactic.Ring

/-!
# Laws with finitely many outcomes

A random value as a list of outcomes with their weights. Two laws are the same if
every function of the outcome has the same mean, and so every event the same
probability; independent values may be drawn in any order.
-/

structure Law (α : Type*) where
  outcomes : List (α × ℚ)
  nonneg : ∀ p ∈ outcomes, 0 ≤ p.2
  mass : (outcomes.map Prod.snd).sum = 1

namespace Law

open List

variable {α β γ : Type*}

def mean (l : Law α) (f : α → ℚ) : ℚ := (l.outcomes.map fun p => p.2 * f p.1).sum

def Same (l m : Law α) : Prop := ∀ f, l.mean f = m.mean f

def All (l : Law α) (P : α → Prop) : Prop := ∀ p ∈ l.outcomes, P p.1

theorem sum_smul (w : ℚ) (l : List (α × ℚ)) (f : α → ℚ) :
    (l.map fun p => w * p.2 * f p.1).sum = w * (l.map fun p => p.2 * f p.1).sum := by
  rw [← sum_map_mul_left]
  simp only [mul_assoc]

theorem mean_const (l : Law α) (c : ℚ) : (l.mean fun _ => c) = c := by
  rw [mean, sum_map_mul_right, l.mass, one_mul]

theorem mean_congr {l : Law α} {P : α → Prop} (hl : l.All P) {f g : α → ℚ} (h : ∀ a, P a → f a = g a) :
    l.mean f = l.mean g := by
  refine congrArg List.sum (map_congr_left fun p hp => ?_)
  rw [h p.1 (hl p hp)]

/-! ## Building laws -/

def pure (a : α) : Law α := ⟨[(a, 1)], by simp, by simp⟩

theorem mean_pure (a : α) (f : α → ℚ) : (pure a).mean f = f a := by simp [pure, mean]

theorem all_pure {P : α → Prop} {a : α} (h : P a) : (pure a).All P := by simpa [pure, All] using h

theorem sum_flatMap (l : List (α × ℚ)) (k : α → Law β) (f : β → ℚ) :
    ((l.flatMap fun p => (k p.1).outcomes.map fun q => (q.1, p.2 * q.2)).map fun q => q.2 * f q.1).sum =
      (l.map fun p => p.2 * (k p.1).mean f).sum := by
  induction l with
  | nil => rfl
  | cons p l ih =>
    rw [flatMap_cons, map_append, sum_append, ih, map_map, map_cons, sum_cons]
    congr 1
    exact sum_smul p.2 _ f

def bind (l : Law α) (k : α → Law β) : Law β where
  outcomes := l.outcomes.flatMap fun p => (k p.1).outcomes.map fun q => (q.1, p.2 * q.2)
  nonneg := by
    intro q hq
    obtain ⟨p, hp, hq⟩ := List.mem_flatMap.mp hq
    obtain ⟨r, hr, rfl⟩ := List.mem_map.mp hq
    exact mul_nonneg (l.nonneg p hp) ((k p.1).nonneg r hr)
  mass := by
    have h := sum_flatMap l.outcomes k fun _ => 1
    simp only [mul_one, mean_const] at h
    rw [h, l.mass]

theorem mean_bind (l : Law α) (k : α → Law β) (f : β → ℚ) : (l.bind k).mean f = l.mean fun a => (k a).mean f :=
  sum_flatMap l.outcomes k f

theorem all_bind {P : α → Prop} {Q : β → Prop} {l : Law α} {k : α → Law β} (hl : l.All P) (hk : ∀ a, P a → (k a).All Q) :
    (l.bind k).All Q := by
  intro q hq
  obtain ⟨p, hp, hq⟩ := mem_flatMap.mp hq
  obtain ⟨r, hr, rfl⟩ := mem_map.mp hq
  exact hk p.1 (hl p hp) r hr

def map (f : α → β) (l : Law α) : Law β := l.bind fun a => pure (f a)

theorem mean_map (f : α → β) (l : Law α) (g : β → ℚ) : (l.map f).mean g = l.mean fun a => g (f a) := by
  simp only [map, mean_bind, mean_pure]

theorem all_map {P : α → Prop} {Q : β → Prop} {l : Law α} {f : α → β} (hl : l.All P) (h : ∀ a, P a → Q (f a)) :
    (l.map f).All Q :=
  all_bind hl fun a ha => all_pure (h a ha)

theorem mean_comm (l : Law α) (m : Law β) (f : α → β → ℚ) :
    (l.mean fun a => m.mean (f a)) = m.mean fun b => l.mean fun a => f a b := by
  unfold mean
  induction l.outcomes with
  | nil => simp
  | cons p l ih =>
    simp only [map_cons, sum_cons, mul_add, sum_map_add, ih]
    congr 1
    rw [← sum_map_mul_left]
    exact congrArg List.sum (map_congr_left fun q _ => by ring)

/-! ## Coins, and a value left out -/

def flip (q : ℚ) (h₀ : 0 ≤ q) (h₁ : q ≤ 1) : Law Bool :=
  ⟨[(true, q), (false, 1 - q)], by simpa using ⟨h₀, h₁⟩, by simp⟩

theorem mean_flip {q : ℚ} (h₀ : 0 ≤ q) (h₁ : q ≤ 1) (f : Bool → ℚ) :
    (flip q h₀ h₁).mean f = q * f true + (1 - q) * f false := by
  simp [flip, mean]

variable [DecidableEq α]

def prob (l : Law α) (a : α) : ℚ := ((l.outcomes.filter (·.1 = a)).map Prod.snd).sum

theorem sum_split (l : List (α × ℚ)) (a : α) (f : α → ℚ) : (l.map fun p => p.2 * f p.1).sum =
    ((l.filter (·.1 = a)).map Prod.snd).sum * f a + ((l.filter (¬ ·.1 = a)).map fun p => p.2 * f p.1).sum := by
  induction l with
  | nil => simp
  | cons p l ih =>
    by_cases h : p.1 = a
    · simp [h, ih]
      ring
    · simp [h, ih]
      ring

theorem rest_mass (l : Law α) (a : α) : ((l.outcomes.filter (¬ ·.1 = a)).map Prod.snd).sum = 1 - l.prob a := by
  have h := sum_split l.outcomes a fun _ => 1
  simp only [mul_one, l.mass] at h
  rw [prob]
  linarith

omit [DecidableEq α] in
theorem filter_nonneg (l : Law α) (P : α × ℚ → Bool) : ∀ x ∈ (l.outcomes.filter P).map Prod.snd, 0 ≤ x := by
  intro x hx
  obtain ⟨p, hp, rfl⟩ := mem_map.mp hx
  exact l.nonneg p (mem_of_mem_filter hp)

theorem prob_nonneg (l : Law α) (a : α) : 0 ≤ l.prob a := sum_nonneg (l.filter_nonneg _)

theorem prob_le_one (l : Law α) (a : α) : l.prob a ≤ 1 := by
  linarith [l.rest_mass a, sum_nonneg (l.filter_nonneg (¬ ·.1 = a))]

/-- The law without one value, with weights that add up to one again. -/
def without (l : Law α) (a : α) (h : l.prob a ≠ 1) : Law α where
  outcomes := (l.outcomes.filter (¬ ·.1 = a)).map fun p => (p.1, p.2 / (1 - l.prob a))
  nonneg := by
    intro q hq
    obtain ⟨p, hp, rfl⟩ := List.mem_map.mp hq
    exact div_nonneg (l.filter_nonneg _ _ (List.mem_map_of_mem hp)) (sub_nonneg.mpr (l.prob_le_one a))
  mass := by
    simp only [List.map_map, Function.comp_def, div_eq_mul_inv, List.sum_map_mul_right]
    rw [rest_mass]
    exact mul_inv_cancel₀ (sub_ne_zero.mpr (Ne.symm h))

theorem mean_split (l : Law α) (a : α) (h : l.prob a ≠ 1) (f : α → ℚ) :
    l.mean f = l.prob a * f a + (1 - l.prob a) * (l.without a h).mean f := by
  rw [mean, sum_split l.outcomes a f, ← prob]
  congr 1
  simp only [mean, without, map_map, Function.comp_def]
  rw [← sum_map_mul_left]
  refine congrArg List.sum (map_congr_left fun p _ => ?_)
  field_simp

theorem mean_of_prob_one (l : Law α) (a : α) (h : l.prob a = 1) (f : α → ℚ) : l.mean f = f a := by
  have hr := l.rest_mass a
  rw [h, sub_self] at hr
  have hz : ((l.outcomes.filter (¬ ·.1 = a)).map fun p => p.2 * f p.1).sum = 0 := by
    refine sum_eq_zero fun x hx => ?_
    obtain ⟨p, hp, rfl⟩ := mem_map.mp hx
    have hp : p.2 ∈ (l.outcomes.filter (¬ ·.1 = a)).map Prod.snd := mem_map_of_mem hp
    have hle := single_le_sum (l.filter_nonneg (¬ ·.1 = a)) p.2 hp
    rw [le_antisymm (hle.trans_eq hr) (l.filter_nonneg _ _ hp), zero_mul]
  rw [mean, sum_split l.outcomes a f, ← prob, h, hz]
  ring

end Law
