import Mathlib.Algebra.Order.BigOperators.Group.Finset
import Mathlib.Data.Fintype.BigOperators
import Mathlib.Tactic.Linarith

/-!
# How replicas are given out

The replicas of `policy_flashlb.py` go one at a time to the expert with the
largest load per replica. So do the redundant experts of
`policy_swift_balancer.py`, up to one copy per rank, with weights updated by a
rule of its own.
-/

namespace VllmAscend.Eplb

open List Function Finset

variable {n : Nat}

/-- `max_idx`, `none` for `-1`, and `max_value` after the scan. -/
def maxUnit (unitValue : Fin n → ℚ) : Option (Fin n) × ℚ :=
  (finRange n).foldl (fun m idx => if m.2 < unitValue idx then (some idx, unitValue idx) else m) (none, -1)

/-- A turn of the loop; index `-1` is the last one, and none of an empty array. -/
def giveReplica (weight : Fin n → ℚ) (s : (Fin n → Nat) × (Fin n → ℚ)) : Option ((Fin n → Nat) × (Fin n → ℚ)) :=
  ((maxUnit s.2).1.or (finRange n).getLast?).map fun idx =>
    (update s.1 idx (s.1 idx + 1), update s.2 idx (weight idx / (s.1 idx + 1 : Nat)))

def replicaTurns (weight : Fin n → ℚ) : Nat → (Fin n → Nat) × (Fin n → ℚ) →
    Option ((Fin n → Nat) × List (Fin n → Nat))
  | 0, s => some (s.1, [s.1])
  | r + 1, s => (giveReplica weight s).bind fun s' => (replicaTurns weight r s').map fun out => (out.1, s.1 :: out.2)

def riskWeight (sqrt : ℚ → ℚ) (mu var : Fin n → ℚ) (zScore : ℚ) (i : Fin n) : ℚ := mu i + zScore * sqrt (var i)

def minMaxReplica (sqrt : ℚ → ℚ) (mu var : Fin n → ℚ) (numAvailableReplicas : Nat) (currentReplicas : Fin n → Nat)
    (zScore : ℚ) : Option ((Fin n → Nat) × List (Fin n → Nat)) :=
  let weight := riskWeight sqrt mu var zScore
  replicaTurns weight numAvailableReplicas (currentReplicas, fun i => weight i / currentReplicas i)

theorem foldl_maxUnit (u : Fin n → ℚ) : ∀ (l : List (Fin n)) (m : Option (Fin n) × ℚ),
    (∀ i ∈ m.1, m.2 = u i) → (m.1 = none → m.2 = -1) →
    let m' := l.foldl (fun m idx => if m.2 < u idx then (some idx, u idx) else m) m
    (∀ i ∈ m'.1, m'.2 = u i) ∧ (m'.1 = none → m'.2 = -1) ∧ m.2 ≤ m'.2 ∧ ∀ i ∈ l, u i ≤ m'.2
  | [], _, h, h' => ⟨h, h', le_refl _, fun _ hm => absurd hm not_mem_nil⟩
  | idx :: l, m, h, h' => by
    rw [foldl_cons]
    split
    · next hlt =>
      obtain ⟨h1, h2, h3, h4⟩ := foldl_maxUnit u l (some idx, u idx) (fun i hi => by cases hi; rfl) nofun
      exact ⟨h1, h2, hlt.le.trans h3, forall_mem_cons.mpr ⟨h3, h4⟩⟩
    · next hle =>
      obtain ⟨h1, h2, h3, h4⟩ := foldl_maxUnit u l m h h'
      exact ⟨h1, h2, h3, forall_mem_cons.mpr ⟨(not_lt.mp hle).trans h3, h4⟩⟩

theorem maxUnit_spec {u : Fin n → ℚ} (hu : ∀ i, 0 ≤ u i) (hn : 0 < n) :
    ∃ i, (maxUnit u).1 = some i ∧ ∀ j, u j ≤ u i := by
  obtain ⟨h1, h2, -, h4⟩ := foldl_maxUnit u (finRange n) (none, -1) nofun fun _ => rfl
  have hle : ∀ j, u j ≤ (maxUnit u).2 := fun j => h4 j (mem_finRange j)
  cases hm : (maxUnit u).1 with
  | some i => exact ⟨i, rfl, fun j => h1 i hm ▸ hle j⟩
  | none =>
    have := (hu ⟨0, hn⟩).trans ((hle ⟨0, hn⟩).trans_eq (h2 hm))
    norm_num at this

structure Dealt (w : Fin n → ℚ) (k : Nat) (s : (Fin n → Nat) × (Fin n → ℚ)) : Prop where
  unit : ∀ i, s.2 i = w i / s.1 i
  pos : ∀ i, 0 < s.1 i
  sum : ∑ i, s.1 i = k
  found : ∀ i, 1 < s.1 i → ∀ j, w j / s.1 j ≤ w i / (s.1 i - 1 : Nat)

section
variable {w : Fin n → ℚ} (hw : ∀ i, 0 ≤ w i)
include hw

theorem div_le_div_of_count {c c' : Nat} (i : Fin n) (hc : 0 < c) (hle : c ≤ c') : w i / c' ≤ w i / c :=
  div_le_div_of_nonneg_left (hw i) (Nat.cast_pos.mpr hc) (Nat.cast_le.mpr hle)

theorem Dealt.give (h : Dealt w k s) (hn : 0 < n) : ∃ s', giveReplica w s = some s' ∧ Dealt w (k + 1) s' := by
  have hu : ∀ i, 0 ≤ s.2 i := fun i => h.unit i ▸ div_nonneg (hw i) (Nat.cast_nonneg _)
  obtain ⟨i, hi, hmax⟩ := maxUnit_spec hu hn
  refine ⟨_, by rw [giveReplica, hi]; rfl, fun j => ?_, fun j => ?_, ?_, fun j hj j' => ?_⟩
  · rcases eq_or_ne j i with rfl | hj <;> simp [*, h.unit]
  · rcases eq_or_ne j i with rfl | hj <;> simp [*, h.pos]
  · rw [sum_update_of_mem (Finset.mem_univ i), ← h.sum, sum_eq_add_sum_sdiff_singleton_of_mem (Finset.mem_univ i)]
    omega
  -- the loads are no larger than before
  have hle : w j' / (update s.1 i (s.1 i + 1) j' : Nat) ≤ w j' / s.1 j' := div_le_div_of_count hw j' (h.pos j') (by
    rcases eq_or_ne j' i with rfl | hj <;> simp [*])
  refine hle.trans ?_
  rcases eq_or_ne j i with rfl | hji
  · simpa [← h.unit] using hmax j'
  · simp only [update_of_ne hji] at hj ⊢
    exact h.found j hj j'

theorem Dealt.turns (hn : 0 < n) : ∀ {r k : Nat} {s : (Fin n → Nat) × (Fin n → ℚ)}, Dealt w k s →
    ∃ c history u, replicaTurns w r s = some (c, history) ∧ Dealt w (k + r) (c, u)
  | 0, _, s, h => ⟨s.1, _, s.2, rfl, h⟩
  | r + 1, k, s, h => by
    obtain ⟨s', hs, h'⟩ := h.give hw hn
    obtain ⟨c, history, u, hr, hc⟩ := Dealt.turns hn h'
    exact ⟨c, _, u, by rw [replicaTurns, hs, Option.bind_some, hr]; rfl, Nat.add_right_comm k r 1 ▸ hc⟩

theorem Dealt.optimal (h : Dealt w k s) {c : Fin n → Nat} (hc : ∀ i, 0 < c i) (hk : ∑ i, c i = k) (j : Fin n) :
    ∃ i, w j / s.1 j ≤ w i / c i := by
  by_contra! hlt
  -- an expert with fewer replicas would have at least the load its last one found
  have hle : ∀ i ∈ univ, s.1 i ≤ c i := fun i _ => by
    by_contra! hi
    have hfo := h.found i (Nat.lt_of_le_of_lt (hc i) hi) j
    exact absurd (hfo.trans (div_le_div_of_count hw i (hc i) (Nat.le_sub_one_of_lt hi))) (not_le.mpr (hlt i))
  have heq := (sum_eq_sum_iff_of_le hle).mp (h.sum.trans hk.symm) j (Finset.mem_univ j)
  exact lt_irrefl _ (heq ▸ hlt j)

end

theorem minMaxReplica_optimal (sqrt : ℚ → ℚ) (mu var : Fin n → ℚ) (r : Nat) (zScore : ℚ)
    (hw : ∀ i, 0 ≤ riskWeight sqrt mu var zScore i) :
    (∃ c history, minMaxReplica sqrt mu var r (fun _ => 1) zScore = some (c, history) ∧ (∀ i, 1 ≤ c i) ∧
      ∑ i, c i = n + r ∧ ∀ c' : Fin n → Nat, (∀ i, 1 ≤ c' i) → ∑ i, c' i = n + r → ∀ j, ∃ i,
        riskWeight sqrt mu var zScore j / c j ≤ riskWeight sqrt mu var zScore i / c' i) ∨ n = 0 ∧ 0 < r := by
  have h : Dealt (riskWeight sqrt mu var zScore) n (fun _ => 1, fun i => riskWeight sqrt mu var zScore i / (1 : Nat)) :=
    ⟨fun _ => rfl, fun _ => Nat.one_pos, by simp, fun _ hi => absurd hi (lt_irrefl _)⟩
  rcases Nat.eq_zero_or_pos n with rfl | hn
  · rcases Nat.eq_zero_or_pos r with rfl | hr
    · exact .inl ⟨_, _, rfl, h.pos, h.sum, fun _ _ _ j => j.elim0⟩
    · exact .inr ⟨rfl, hr⟩
  · obtain ⟨c, history, u, hc, hd⟩ := h.turns hw hn
    exact .inl ⟨c, history, hc, hd.pos, hd.sum, fun c' hp hs j => hd.optimal hw hp hs j⟩

theorem minMaxReplica_optimal_two : ∃ c history, minMaxReplica id (fun i : Fin 2 => i) (fun _ => 1) 3 (fun _ => 1) 1 =
    some (c, history) ∧ ∑ i, c i = 5 := by
  obtain ⟨c, history, hc, -, hs, -⟩ :=
    (minMaxReplica_optimal id (fun i : Fin 2 => i) (fun _ => 1) 3 1 (by decide +kernel)).resolve_right nofun
  exact ⟨c, history, hc, hs⟩

/-! ## Redundant copies of SwiftBalance -/

def nextRedundant (numRanks : Nat) (s : (Fin n → ℚ≥0) × (Fin n → Nat)) : Option (Fin n) :=
  ((finRange n).mergeSort (s.1 · ≤ s.1 ·)).reverse.find? (s.2 · + 1 < numRanks)

def giveRedundant (numRanks : Nat) (s : (Fin n → ℚ≥0) × (Fin n → Nat)) : (Fin n → ℚ≥0) × (Fin n → Nat) :=
  match nextRedundant numRanks s with
  | none => s
  | some e =>
    let currentRedundancy := s.2 e + 1
    (update s.1 e (s.1 e * (currentRedundancy + 1 : Nat) / (currentRedundancy + 2 : Nat)), update s.2 e (s.2 e + 1))

def redundantTurns (initialWeights : Fin n → ℚ≥0) (numRanks turns : Nat) : (Fin n → ℚ≥0) × (Fin n → Nat) :=
  (giveRedundant numRanks)^[turns] (initialWeights, fun _ => 0)

def computeRedundantAssignments (initialWeights : Fin n → ℚ≥0) (numRedundantExperts numRanks : Nat) :
    List (Fin n × ℚ≥0) × (Fin n → ℚ≥0) :=
  let s := redundantTurns initialWeights numRanks numRedundantExperts
  (((finRange n).flatMap fun e => replicate (s.2 e) (e, s.1 e)).mergeSort (fun a b => b.2 ≤ a.2), s.1)

/-- The copies of an expert share its weight, and each was given to an expert of maximal weight. -/
structure Shared (w : Fin n → ℚ≥0) (numRedundantExperts numRanks : Nat) : Prop where
  conserved : ∀ e, (computeRedundantAssignments w numRedundantExperts numRanks).2 e *
    (1 + (redundantTurns w numRanks numRedundantExperts).2 e : Nat) = w e
  maximal : ∀ turn < numRedundantExperts, ∀ e ∈ nextRedundant numRanks (redundantTurns w numRanks turn),
    ∀ e', (redundantTurns w numRanks turn).1 e' ≤ (redundantTurns w numRanks turn).1 e

variable {numRanks : Nat} {w : Fin n → ℚ≥0}

theorem redundantTurns_succ :
    redundantTurns w numRanks (turns + 1) = giveRedundant numRanks (redundantTurns w numRanks turns) :=
  iterate_succ_apply' ..

theorem le_giveRedundant (e : Fin n) : s.2 e ≤ (giveRedundant numRanks s).2 e := by
  unfold giveRedundant
  split
  · exact le_refl _
  · rename_i e' _
    rcases eq_or_ne e e' with rfl | he <;> simp [*]

theorem redundantTurns_weight (e : Fin n) : ∀ turns : Nat, (redundantTurns w numRanks turns).1 e *
    ((redundantTurns w numRanks turns).2 e + 2 : Nat) = w e * 2
  | 0 => by simp [redundantTurns]
  | turns + 1 => by
    have ih := redundantTurns_weight e turns
    rw [redundantTurns_succ, giveRedundant]
    split
    · exact ih
    rename_i e' _
    rcases eq_or_ne e e' with rfl | he
    · simp only [update_self]
      rw [div_mul_cancel₀ _ (Nat.cast_ne_zero.mpr (Nat.succ_ne_zero _)), ← ih]
    · simpa only [update_of_ne he] using ih

theorem nextRedundant_eq_none (h : numRanks ≤ 1) : nextRedundant numRanks s = none :=
  find?_eq_none.mpr fun e _ => by simp; omega

theorem one_le_redundantTurns (h : nextRedundant numRanks (w, fun _ => 0) = some e) :
    ∀ turns : Nat, 1 ≤ (redundantTurns w numRanks (turns + 1)).2 e
  | 0 => by simp [redundantTurns, giveRedundant, h]
  | turns + 1 => by
    rw [redundantTurns_succ]
    exact (one_le_redundantTurns h turns).trans (le_giveRedundant e)

/-- The copies share the weight of an expert if and only if none is given out or there is nothing to share. -/
theorem redundant_shared (w : Fin n → ℚ≥0) (numRedundantExperts numRanks : Nat) :
    Shared w numRedundantExperts numRanks ↔ numRedundantExperts = 0 ∨ numRanks ≤ 1 ∨ ∀ e, w e = 0 := by
  constructor
  · intro h
    by_contra! hno
    obtain ⟨hsome, hranks, e, he⟩ := hno
    -- the first copy goes to an expert of maximal weight
    obtain ⟨e', he'⟩ : ∃ e', nextRedundant numRanks (w, fun _ => 0) = some e' :=
      Option.isSome_iff_exists.mp (find?_isSome.mpr ⟨e, by simp, by simpa using hranks⟩)
    have hw := (pos_iff_ne_zero.mpr he).trans_le (h.maximal 0 (Nat.pos_of_ne_zero hsome) e' he' e)
    obtain ⟨turns, rfl⟩ := Nat.exists_eq_add_one_of_ne_zero hsome
    have hcopies := one_le_redundantTurns he' turns
    have hwe := @redundantTurns_weight n numRanks w e' (turns + 1)
    have hco : (redundantTurns w numRanks (turns + 1)).1 e' * _ = _ := h.conserved e'
    rw [← hco, mul_assoc] at hwe
    have := mul_left_cancel₀ (left_ne_zero_of_mul (hco.trans_ne hw.ne')) hwe
    norm_cast at this
    omega
  · rintro (rfl | h | h)
    · exact ⟨fun e => by simp [computeRedundantAssignments, redundantTurns], nofun⟩
    · refine ⟨fun e => ?_, fun _ _ _ he => by rw [nextRedundant_eq_none h] at he; cases he⟩
      have hfix : giveRedundant numRanks (w, fun _ => 0) = (w, fun _ => 0) := by
        rw [giveRedundant, nextRedundant_eq_none h]
      simp [computeRedundantAssignments, redundantTurns, iterate_fixed hfix]
    · have hz : ∀ e turns, (redundantTurns w numRanks turns).1 e = 0 := fun e turns => by
        have hwe := @redundantTurns_weight n numRanks w e turns
        rw [h, zero_mul, mul_eq_zero] at hwe
        exact hwe.resolve_right (Nat.cast_ne_zero.mpr (Nat.succ_ne_zero _))
      exact ⟨fun e => by simp [computeRedundantAssignments, hz, h], fun _ _ e _ e' => by rw [hz, hz]⟩

/-- After its first copy an expert of weight one has two copies of weight two thirds. -/
theorem redundant_unshared : (computeRedundantAssignments (fun _ : Fin 1 => 1) 1 2).1 = [(0, 2 / 3)] ∧
    ¬ Shared (fun _ : Fin 1 => 1) 1 2 :=
  ⟨by decide +kernel, fun h => absurd (h.conserved 0) (by decide +kernel)⟩

end VllmAscend.Eplb
