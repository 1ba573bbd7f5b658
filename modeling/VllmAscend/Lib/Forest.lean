import Mathlib.Data.List.Basic

/-!
# Parent arrays

A forest as the list of its nodes' parents, each an earlier node or `-1` for
the root above all, and the walk from a node to the root.
-/

namespace Forest

open List

variable {parents : List Int} {i j fuel : Nat}

def WellFormed (parents : List Int) : Prop := ∀ (i : Nat) p, parents[i]? = some p → -1 ≤ p ∧ p < i

inductive Above (parents : List Int) (j : Nat) : Nat → Prop
  | self : Above parents j j
  | step {i p : Nat} : parents[i]? = some (p : Int) → Above parents j p → Above parents j i

def path (parents : List Int) : Nat → Int → List Nat
  | 0, _ => []
  | fuel + 1, current =>
    if current < 0 then [] else current.toNat :: path parents fuel (parents.getD current.toNat (-1))

theorem path_root : path parents fuel (-1) = [] := by
  cases fuel <;> rfl

theorem path_succ {p : Int} (hp : parents[i]? = some p) :
    path parents (fuel + 1) (i : Int) = i :: path parents fuel p := by
  simp [path, getD_eq_getElem?_getD, hp]

theorem above_iff {p : Int} (hp : parents[i]? = some p) :
    Above parents j i ↔ j = i ∨ ∃ q : Nat, p = q ∧ Above parents j q := by
  constructor
  · intro ha
    cases ha with
    | self => exact .inl rfl
    | @step _ q hq ha => exact .inr ⟨q, Option.some.inj (hp.symm.trans hq), ha⟩
  · rintro (rfl | ⟨q, rfl, ha⟩)
    · exact .self
    · exact .step hp ha

theorem Above.le (h : WellFormed parents) (ha : Above parents j i) : j ≤ i := by
  induction ha with
  | self => exact Nat.le_refl j
  | @step i p hp _ ih =>
    have := (h i p hp).2
    omega

theorem mem_path (h : WellFormed parents) : ∀ {fuel i : Nat}, i < parents.length → i < fuel →
    (j ∈ path parents fuel (i : Int) ↔ Above parents j i)
  | fuel + 1, i, hi, hf => by
    have hp := getElem?_eq_getElem hi
    obtain ⟨hlo, hlt⟩ := h i _ hp
    rw [path_succ hp, above_iff hp, mem_cons]
    refine or_congr_right ?_
    by_cases hr : parents[i] = -1
    · rw [hr, path_root]
      exact iff_of_false not_mem_nil fun ⟨q, hq, _⟩ => by omega
    obtain ⟨q, hq⟩ := Int.eq_ofNat_of_zero_le (show 0 ≤ parents[i] by omega)
    have ih : j ∈ path parents fuel (q : Int) ↔ Above parents j q := mem_path h (by omega) (by omega)
    simp only [hq, ih, Int.ofNat_inj, exists_eq_left']

end Forest
