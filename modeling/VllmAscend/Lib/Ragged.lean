import Mathlib.Data.List.TakeWhile
import VllmAscend.Lib.Packed

/-!
# Rows of different lengths, stored one after another

`cells` lists the cells of a ragged table in storage order, and `start` is where
a row begins: the cumulative sums that batches of sequences are indexed by.
-/

namespace Ragged

open List

def start (sizes : List Nat) (i : Nat) : Nat := (sizes.take i).sum

def cellsFrom (k : Nat) : List Nat → List (Nat × Nat)
  | [] => []
  | n :: sizes => (List.range n).map (k, ·) ++ cellsFrom (k + 1) sizes

def cells (sizes : List Nat) : List (Nat × Nat) := cellsFrom 0 sizes

theorem start_cons_succ (n : Nat) (sizes : List Nat) (i : Nat) : start (n :: sizes) (i + 1) = n + start sizes i := by
  simp [start]

theorem length_cellsFrom (k : Nat) (sizes : List Nat) : (cellsFrom k sizes).length = sizes.sum := by
  induction sizes generalizing k with
  | nil => rfl
  | cons n sizes ih => simp [cellsFrom, ih]

variable {k t i j : Nat} {sizes : List Nat}

theorem getElem?_cellsFrom : (cellsFrom k sizes)[t]? = some (i, j) ↔
      ∃ m n, i = k + m ∧ sizes[m]? = some n ∧ j < n ∧ t = start sizes m + j := by
  induction sizes generalizing k t with
  | nil => simp [cellsFrom]
  | cons n sizes ih =>
    rw [cellsFrom]
    by_cases ht : t < n
    · rw [getElem?_append_left (by simpa using ht)]
      constructor
      · intro h
        simp only [getElem?_map, getElem?_range ht, Option.map_some, Option.some.injEq, Prod.mk.injEq] at h
        exact ⟨0, n, h.1.symm, rfl, h.2 ▸ ht, by simp [start, h.2]⟩
      · rintro ⟨m, n', rfl, hm, hj, rfl⟩
        cases m with
        | zero =>
          cases hm
          simp [start, hj]
        | succ m =>
          rw [start_cons_succ] at ht
          omega
    · rw [getElem?_append_right (by simpa using ht), length_map, length_range, ih]
      constructor
      · rintro ⟨m, n', rfl, hm, hj, htm⟩
        exact ⟨m + 1, n', by omega, by simpa using hm, hj, by rw [start_cons_succ]; omega⟩
      · rintro ⟨m, n', rfl, hm, hj, rfl⟩
        cases m with
        | zero =>
          cases hm
          exact absurd (by simpa [start] using hj) ht
        | succ m =>
          refine ⟨m, n', by omega, by simpa using hm, hj, ?_⟩
          rw [start_cons_succ]
          omega

theorem length_cells (sizes : List Nat) : (cells sizes).length = sizes.sum := length_cellsFrom 0 sizes

theorem getElem?_cells : (cells sizes)[t]? = some (i, j) ↔ ∃ n, sizes[i]? = some n ∧ j < n ∧ t = start sizes i + j := by
  rw [cells, getElem?_cellsFrom]
  constructor
  · rintro ⟨m, n, rfl, h⟩
    rw [Nat.zero_add]
    exact ⟨n, h⟩
  · rintro ⟨n, h⟩
    exact ⟨i, n, (Nat.zero_add i).symm, h⟩

theorem start_add_le {n : Nat} (hi : sizes[i]? = some n) (hik : i < k) : start sizes i + n ≤ start sizes k := by
  induction sizes generalizing i k with
  | nil => simp at hi
  | cons m sizes ih =>
    obtain _ | k := k
    · omega
    rw [start_cons_succ]
    cases i with
    | zero =>
      cases hi
      simp [start]
    | succ i =>
      have := ih (by simpa using hi) (Nat.succ_lt_succ_iff.mp hik)
      rw [start_cons_succ]
      omega

/-! ## Rows side by side -/

section
variable {α β γ : Type*}

theorem zip_flatMap {f : α → List β} {g : α → List γ} : ∀ {l : List α},
    (∀ x ∈ l.dropLast, (f x).length = (g x).length) →
    (l.flatMap f).zip (l.flatMap g) = l.flatMap fun x => (f x).zip (g x)
  | [], _ => rfl
  | [x], _ => by simp
  | x :: y :: l, h => by
    rw [dropLast_cons_cons, forall_mem_cons] at h
    have hf : (x :: y :: l).flatMap f = f x ++ (y :: l).flatMap f := flatMap_cons
    have hg : (x :: y :: l).flatMap g = g x ++ (y :: l).flatMap g := flatMap_cons
    rw [hf, hg, zip_append h.1, zip_flatMap h.2]
    rfl

theorem zip_map_takeWhile {f : α → β} {g : α → γ} {p : α → Bool} {l : List α} :
    (l.map f).zip ((l.takeWhile p).map g) = (l.takeWhile p).map fun x => (f x, g x) := by
  induction l with
  | nil => rfl
  | cons x l ih =>
    rw [takeWhile_cons]
    cases p x with
    | true => simp [ih]
    | false => simp

theorem mem_takeWhile_range {p : Nat → Bool} (hd : ∀ {i j}, i ≤ j → p j = true → p i = true) {n j : Nat} :
    j ∈ (range n).takeWhile p ↔ j < n ∧ p j = true := by
  constructor
  · intro h
    exact ⟨mem_range.mp ((takeWhile_sublist p).subset h), mem_takeWhile_imp h⟩
  · rintro ⟨hlt, hj⟩
    obtain ⟨k, rfl⟩ := Nat.exists_eq_add_of_le hlt
    have ha : ∀ i ∈ range (j + 1), p i = true := fun i hi =>
      hd (Nat.lt_succ_iff.mp (mem_range.mp hi)) hj
    rw [range_add, takeWhile_append_of_pos ha]
    exact mem_append_left _ (mem_range.mpr (Nat.lt_succ_self j))

theorem flatMap_range_getD {f : α → List β} (l : List α) (default : α) :
    ((range l.length).flatMap fun i => f (l.getD i default)) = l.flatMap f := by
  have hm := (Packed.gather_range default l.length l (Nat.le_refl _)).trans take_length
  conv_rhs => rw [← hm, Packed.gather, flatMap_map]

end

end Ragged
