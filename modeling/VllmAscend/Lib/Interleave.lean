import Mathlib.Data.Int.CardIntervalMod

/-!
# Dealing in turn

Numbers dealt to `n` ranks in turn: rank `j` gets those with remainder `j`, and
the place of a number in its rank's hand is its quotient. A rank can have two
coordinates, the second of which runs faster, and numbers can be dealt several
at a time.
-/

namespace Interleave

open List Nat

theorem count_congr {p q : Nat → Prop} [DecidablePred p] [DecidablePred q] (h : ∀ x, p x ↔ q x) (b : Nat) :
    Nat.count p b = Nat.count q b := by
  simp only [count_eq_card_filter_range, h]

theorem lt_share_iff {n j : Nat} (hj : j < n) (b k : Nat) :
    k < b / n + (if j < b % n then 1 else 0) ↔ k * n + j < b := by
  have hb := div_add_mod' b n
  rcases lt_trichotomy k (b / n) with hlt | rfl | hgt
  · have hr : k * n + n ≤ b / n * n := by
      rw [← succ_mul]
      exact Nat.mul_le_mul_right n hlt
    exact iff_of_true (Nat.lt_add_right _ hlt) (by omega)
  · split <;> omega
  · have hr : b / n * n + n ≤ k * n := by
      rw [← succ_mul]
      exact mul_le_mul_right n hgt
    have hm := mod_lt b (zero_lt_of_lt hj)
    refine iff_of_false ?_ (by omega)
    split <;> omega

theorem range_mul (m n : Nat) : List.range (m * n) = (List.range m).flatMap fun i => (List.range n).map (i * n + ·) := by
  induction m with
  | zero => simp
  | succ m ih => rw [succ_mul, range_add, ih, range_succ, flatMap_append]; simp

/-! ## Several at a time -/

section
variable {n c j : Nat}

/-- A number's place in its rank's hand when the ranks are dealt `c` numbers at a time. -/
def place (n c x : Nat) : Nat := x / (c * n) * c + x % c

theorem div_mod_eq (hc : 0 < c) (x : Nat) : x / c % n = j ↔ j * c ≤ x % (c * n) ∧ x % (c * n) < j * c + c := by
  rw [← mod_mul_right_div_self, Nat.div_eq_iff hc]
  omega

theorem count_chunks (hj : j < n) (hc : 0 < c) : ∀ b, Nat.count (fun x => x / c % n = j) b =
    b / (c * n) * c + min (b % (c * n) - j * c) c
  | 0 => by simp
  | b + 1 => by
    have hle : j * c + c ≤ c * n := by
      rw [← succ_mul, mul_comm c n]
      exact mul_le_mul_right c hj
    have hpos : 0 < c * n := by omega
    have hb := div_add_mod b (c * n)
    have hlt := mod_lt b hpos
    simp only [count_succ, count_chunks hj hc b, div_mod_eq hc b]
    rcases lt_or_ge (b % (c * n) + 1) (c * n) with hnext | hwr
    · have hsu : (b + 1) / (c * n) = b / (c * n) ∧ (b + 1) % (c * n) = b % (c * n) + 1 :=
        (Nat.div_mod_unique hpos).mpr ⟨by omega, hnext⟩
      rw [hsu.1, hsu.2]
      split <;> omega
    · have hsu : (b + 1) / (c * n) = b / (c * n) + 1 ∧ (b + 1) % (c * n) = 0 :=
        (Nat.div_mod_unique hpos).mpr ⟨by rw [mul_succ]; omega, hpos⟩
      rw [hsu.1, hsu.2, succ_mul]
      split <;> omega

theorem count_chunks_self (hj : j < n) (hc : 0 < c) {x : Nat} (hx : x / c % n = j) :
    Nat.count (fun y => y / c % n = j) x = place n c x := by
  have hlt := mod_lt x hc
  rw [count_chunks hj hc, place, mod_mul, hx, Nat.mul_comm c j, Nat.add_sub_cancel, Nat.min_eq_left hlt.le]

theorem place_div (hc : 0 < c) (x : Nat) : place n c x / c = x / (c * n) := by
  rw [place, add_comm, add_mul_div_right _ _ hc, div_eq_of_lt (mod_lt x hc), zero_add]

theorem place_mod (x : Nat) : place n c x % c = x % c := by
  rw [place, mul_add_mod_self_right, mod_mod]

theorem place_block (hc : 0 < c) (m x : Nat) : x / (c * m * n) = place n c x / (c * m) ∧
    x % (c * m * n) / (n * c) * c + x % (c * m * n) % c = place n c x % (c * m) ∧
    x % (c * m * n) / c % n = x / c % n := by
  have hb : c * m * n = c * n * m := by ring
  refine ⟨?_, ?_, ?_⟩
  · rw [← Nat.div_div_eq_div_mul (place n c x), place_div hc, Nat.div_div_eq_div_mul, hb]
  · rw [mod_mul (x := place n c x), place_div hc, place_mod, hb, Nat.mul_comm n c, mod_mul_right_div_self,
      mod_mod_of_dvd x (by rw [Nat.mul_assoc]; exact Nat.dvd_mul_right ..), Nat.mul_comm, Nat.add_comm]
  · rw [mul_assoc, mod_mul_right_div_self, mod_mul_left_mod]

end

end Interleave
