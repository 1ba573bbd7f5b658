import Mathlib.Algebra.BigOperators.Group.List.Basic
import Mathlib.Algebra.GroupWithZero.Nat
import Mathlib.Data.List.Fold
import Mathlib.Data.List.GetD
import Mathlib.Data.List.MinMax
import Mathlib.Order.Nat

/-!
# Ragged rows in one flat vector

Rows of different widths laid end to end, and the index arithmetic that reads
and writes them: `scatter` and `gather` at computed positions, row-major
reshapes, and strided slices.
-/

namespace Packed

open List

variable {α β : Type*}

/-! ## Scatter and gather -/

def scatter (base : List α) (idx : List Nat) (src : List α) : List α :=
  (idx.zip src).foldl (fun l p => l.set p.1 p.2) base

def gather (d : α) (src : List α) (idx : List Nat) : List α := idx.map fun i => src.getD i d

@[simp] theorem scatter_nil (base : List α) (src : List α) : scatter base [] src = base := rfl

@[simp] theorem scatter_cons (base : List α) (i : Nat) (idx : List Nat) (a : α) (src : List α) :
    scatter base (i :: idx) (a :: src) = scatter (base.set i a) idx src := rfl

@[simp] theorem length_scatter : ∀ (idx : List Nat) (src base : List α), (scatter base idx src).length = base.length
  | [], _, _ => rfl
  | _ :: _, [], _ => rfl
  | i :: idx, a :: src, base => by rw [scatter_cons, length_scatter, length_set]

theorem scatter_append_idx : ∀ {idx : List Nat} {src : List α} (base : List α) (idx' : List Nat) (src' : List α),
    idx.length = src.length → scatter base (idx ++ idx') (src ++ src') = scatter (scatter base idx src) idx' src'
  | [], [], _, _, _, _ => rfl
  | i :: idx, a :: src, base, idx', src', h => by
    simp only [cons_append, scatter_cons]
    exact scatter_append_idx _ idx' src' (by simpa using h)

theorem scatter_inside : ∀ (idx : List Nat) (src a b : List α), (∀ i ∈ idx, i < a.length) →
    scatter (a ++ b) idx src = scatter a idx src ++ b
  | [], _, _, _, _ => rfl
  | _ :: _, [], _, _, _ => rfl
  | i :: idx, x :: src, a, b, h => by
    rw [scatter_cons, scatter_cons, set_append_left _ _ (h i (by simp))]
    exact scatter_inside idx src _ b fun j hj => by rw [length_set]; exact h j (mem_cons_of_mem _ hj)

theorem scatter_past : ∀ (idx : List Nat) (src a b : List α),
    scatter (a ++ b) (idx.map (a.length + ·)) src = a ++ scatter b idx src
  | [], _, _, _ => rfl
  | _ :: _, [], _, _ => rfl
  | i :: idx, x :: src, a, b => by
    rw [map_cons, scatter_cons, scatter_cons, set_append_right _ _ (by omega), Nat.add_sub_cancel_left]
    exact scatter_past idx src a _

theorem scatter_row (idx : List Nat) (src a b : List α) (idx' : List Nat) (src' : List α)
    (hl : idx.length = src.length) (hi : ∀ i ∈ idx, i < a.length) :
    scatter (a ++ b) (idx ++ idx'.map (a.length + ·)) (src ++ src') = scatter a idx src ++ scatter b idx' src' := by
  rw [scatter_append_idx _ _ _ hl, scatter_inside idx src a b hi]
  have := scatter_past idx' src' (scatter a idx src) b
  rwa [length_scatter] at this

theorem scatter_range : ∀ (src a b : List α), a.length = src.length → scatter (a ++ b) (range src.length) src = src ++ b
  | [], [], _, _ => rfl
  | x :: src, y :: a, b, h => by
    have ha : a.length = src.length := by simpa using h
    rw [length_cons, range_succ_eq_map, scatter_cons, cons_append, set_cons_zero]
    have := scatter_past (range src.length) src [x] (a ++ b)
    simp only [length_singleton, singleton_append] at this
    rw [show (range src.length).map Nat.succ = (range src.length).map (1 + ·) from
      map_congr_left fun i _ => Nat.add_comm i 1, this, scatter_range src a b ha, cons_append]

@[simp] theorem length_gather (d : α) (src : List α) (idx : List Nat) : (gather d src idx).length = idx.length := by
  simp [gather]

theorem gather_row (d : α) (a b : List α) (idx idx' : List Nat) (hidx : ∀ i ∈ idx, i < a.length) :
    gather d (a ++ b) (idx ++ idx'.map (a.length + ·)) = gather d a idx ++ gather d b idx' := by
  rw [gather, map_append, map_map]
  congr 1
  · refine map_congr_left fun i hi => ?_
    rw [getD_append _ _ _ _ (hidx i hi)]
  · refine map_congr_left fun i _ => ?_
    simp only [Function.comp]
    rw [getD_append_right _ _ _ _ (by omega), Nat.add_sub_cancel_left]

theorem gather_range (d : α) : ∀ (n : Nat) (l : List α), n ≤ l.length → gather d l (range n) = l.take n
  | 0, _, _ => by simp [gather]
  | n + 1, x :: l, h => by
    have := gather_range d n l (by simpa using h)
    rw [gather] at this ⊢
    rw [range_succ_eq_map, map_cons, map_map, take_succ_cons, ← this]
    rfl

/-! ## Equal rows -/

def rowAt (cols r : Nat) (l : List α) : List α := (l.drop (r * cols)).take cols

def reshape (cols n : Nat) (l : List α) : List (List α) := (List.range n).map fun r => rowAt cols r l

theorem length_flatMap_sum {f : β → List α} {size : β → Nat} {rows : List β} (h : ∀ r ∈ rows, (f r).length = size r) :
    (rows.flatMap f).length = (rows.map size).sum := by
  rw [length_flatMap]
  exact congrArg sum (map_congr_left h)

theorem length_flatMap_rows {cols : Nat} {f : β → List α} : ∀ {rows : List β}, (∀ r ∈ rows, (f r).length = cols) →
    (rows.flatMap f).length = rows.length * cols
  | [], _ => by simp
  | r :: rows, h => by
    rw [flatMap_cons, length_append, h r (by simp),
      length_flatMap_rows fun r hr => h r (mem_cons_of_mem _ hr), length_cons, Nat.add_mul, Nat.one_mul,
      Nat.add_comm]

theorem rowAt_succ (cols r : Nat) {a : List α} (b : List α) (ha : a.length = cols) :
    rowAt cols (r + 1) (a ++ b) = rowAt cols r b := by
  rw [rowAt, rowAt, Nat.add_mul, Nat.one_mul, Nat.add_comm, ← drop_drop, drop_left' ha]

theorem rowAt_zero (cols : Nat) {a : List α} (b : List α) (ha : a.length = cols) : rowAt cols 0 (a ++ b) = a := by
  rw [rowAt, Nat.zero_mul, drop_zero, ← ha, take_left' rfl]

theorem take_drop_eq_rowAt {cols n : Nat} (hn : n ≤ cols) (r : Nat) (l : List α) :
    (l.drop (r * cols)).take n = (rowAt cols r l).take n := by
  rw [rowAt, take_take, Nat.min_eq_left hn]

theorem rowAt_flatMap (cols : Nat) (f : β → List α) (rest : List α) : ∀ {rows : List β} {k : Nat} {r : β},
    (∀ r ∈ rows, (f r).length = cols) → rows[k]? = some r → rowAt cols k (rows.flatMap f ++ rest) = f r
  | r :: rows, 0, _, h, hk => by
    cases hk
    rw [flatMap_cons, append_assoc, rowAt_zero cols _ (h r (by simp))]
  | r :: rows, k + 1, _, h, hk => by
    rw [flatMap_cons, append_assoc, rowAt_succ cols k _ (h r (by simp))]
    exact rowAt_flatMap cols f rest (fun r hr => h r (mem_cons_of_mem _ hr)) (by simpa using hk)

theorem take_reshape_flatMap (cols n : Nat) (f : β → List α) (rows : List β) (rest : List α)
    (h : ∀ r ∈ rows, (f r).length = cols) :
    (reshape cols n (rows.flatMap f ++ rest)).take rows.length = (rows.map f).take n := by
  refine ext_getElem? fun k => ?_
  rw [getElem?_take, getElem?_take, reshape, getElem?_map, getElem?_map]
  by_cases hk : k < rows.length
  · rw [if_pos hk, getElem?_eq_getElem hk]
    by_cases hn : k < n
    · rw [if_pos hn, getElem?_range hn, Option.map_some, Option.map_some,
        rowAt_flatMap cols f rest h (getElem?_eq_getElem hk)]
    · rw [if_neg hn, getElem?_eq_none (by simpa using hn)]; rfl
  · rw [if_neg hk, getElem?_eq_none (by simpa using hk)]
    split <;> rfl

theorem reshape_flatMap_append (cols : Nat) (f : β → List α) (rows : List β) (rest : List α)
    (h : ∀ r ∈ rows, (f r).length = cols) : reshape cols rows.length (rows.flatMap f ++ rest) = rows.map f := by
  have := take_reshape_flatMap cols rows.length f rows rest h
  rwa [take_of_length_le (by simp [reshape]), take_of_length_le (by simp)] at this

theorem reshape_flatMap (cols : Nat) (f : β → List α) (rows : List β) (h : ∀ r ∈ rows, (f r).length = cols) :
    reshape cols rows.length (rows.flatMap f) = rows.map f := by
  simpa using reshape_flatMap_append cols f rows [] h

theorem reshape_take (cols n : Nat) (l : List α) : reshape cols n (l.take (cols * n)) = reshape cols n l := by
  refine map_congr_left fun r hr => ?_
  have hr := mem_range.mp hr
  have hle : r * cols + cols ≤ cols * n := by
    rw [← Nat.succ_mul, Nat.mul_comm]
    exact Nat.mul_le_mul_left _ hr
  rw [rowAt, rowAt, drop_take, take_take, Nat.min_eq_left (by omega)]

theorem eq_of_take_of_sum (w : α → Nat) (hp : ∀ a, 0 < w a) : ∀ {l m : List α},
    l.take m.length = m.take l.length → (l.map w).sum = (m.map w).sum → l = m
  | [], [], _, _ => rfl
  | [], a :: m, _, hs => by
    have := hp a
    simp only [map_nil, sum_nil, map_cons, sum_cons] at hs
    omega
  | a :: l, [], _, hs => by
    have := hp a
    simp only [map_nil, sum_nil, map_cons, sum_cons] at hs
    omega
  | a :: l, b :: m, ht, hs => by
    simp only [length_cons, take_succ_cons, cons.injEq] at ht
    obtain ⟨rfl, ht⟩ := ht
    rw [eq_of_take_of_sum w hp ht (by simpa using hs)]

theorem map_zipIdx_rows (cols : Nat) (f : β → List α) (size : β → Nat) (rows : List β)
    (h : ∀ r ∈ rows, (f r).length = cols ∧ size r ≤ cols) :
    ((rows.map size).zipIdx.map fun p => ((rows.flatMap f).drop (p.2 * cols)).take p.1) =
      rows.map fun r => (f r).take (size r) := by
  have hre := reshape_flatMap cols f rows fun r hr => (h r hr).1
  refine ext_getElem (by simp) fun i h1 h2 => ?_
  have hi : i < rows.length := by simpa using h2
  simp only [getElem_map, getElem_zipIdx, Nat.zero_add]
  rw [take_drop_eq_rowAt (h _ (getElem_mem hi)).2]
  congr 1
  have hg : (reshape cols rows.length (rows.flatMap f))[i]? = (rows.map f)[i]? := by rw [hre]
  simpa [reshape, hi] using hg

theorem zipWith_flatMap {γ δ : Type*} (g : α → γ → δ) (f : β → List α) (f' : β → List γ) : ∀ rows : List β,
    (∀ r ∈ rows, (f r).length = (f' r).length) →
    zipWith g (rows.flatMap f) (rows.flatMap f') = rows.flatMap fun r => zipWith g (f r) (f' r)
  | [], _ => rfl
  | r :: rows, h => by
    rw [flatMap_cons, flatMap_cons, flatMap_cons, zipWith_append (h r (by simp)),
      zipWith_flatMap g f f' rows fun r hr => h r (mem_cons_of_mem _ hr)]

theorem length_flatMap_take_le (f : β → List α) (size : β → Nat) : ∀ rows : List β,
    (rows.flatMap fun r => (f r).take (size r)).length ≤ (rows.flatMap f).length
  | [] => Nat.le_refl _
  | r :: rows => by
    simp only [flatMap_cons, length_append]
    exact Nat.add_le_add (length_take_le' _ _) (length_flatMap_take_le f size rows)

theorem flatMap_take_of_length (f : β → List α) (size : β → Nat) : ∀ rows : List β,
    (rows.flatMap fun r => (f r).take (size r)).length = (rows.flatMap f).length →
    (rows.flatMap fun r => (f r).take (size r)) = rows.flatMap f
  | [], _ => rfl
  | r :: rows, h => by
    simp only [flatMap_cons, length_append] at h ⊢
    have hr : ((f r).take (size r)).length ≤ (f r).length := length_take_le' _ _
    have hro := length_flatMap_take_le f size rows
    rw [flatMap_take_of_length f size rows (by omega)]
    congr 1
    exact take_of_length_le (by rw [length_take] at h hr; omega)

/-! ## Strided slices -/

/-- `l[::2]`. -/
def evens : List α → List α
  | [] => []
  | [a] => [a]
  | a :: _ :: l => a :: evens l

/-- `l[1::2]`. -/
def odds (l : List α) : List α := evens l.tail

theorem length_pairs (f g : β → α) : ∀ l : List β, (l.flatMap fun x => [f x, g x]).length = l.length * 2
  | [] => rfl
  | x :: l => by
    simp; omega

theorem evens_pairs (f g : β → α) : ∀ l : List β, evens (l.flatMap fun x => [f x, g x]) = l.map f
  | [] => rfl
  | x :: l => by
    rw [flatMap_cons, map_cons, ← evens_pairs f g l]
    rfl

theorem odds_pairs (f g : β → α) : ∀ l : List β, odds (l.flatMap fun x => [f x, g x]) = l.map g
  | [] => rfl
  | x :: l => by
    rw [flatMap_cons, map_cons, ← odds_pairs f g l, odds, odds]
    cases h : l.flatMap fun x => [f x, g x] with
    | nil => rfl
    | cons a t => rfl

/-! ## The widest row -/

theorem le_foldl_max {l : List Nat} {n : Nat} (hn : n ∈ l) : n ≤ l.foldl max 0 := by
  rw [foldl_eq_foldr]
  exact le_max_of_le hn (Nat.le_refl n)

theorem foldl_max_le {l : List Nat} {b : Nat} (h : ∀ n ∈ l, n ≤ b) : l.foldl max 0 ≤ b := by
  rw [foldl_eq_foldr]
  exact max_le_of_forall_le l b h

end Packed
