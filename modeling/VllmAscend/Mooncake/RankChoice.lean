import VllmAscend.Lib.Packed
import VllmAscend.Mooncake.PortMapping

/-!
# The prefill ranks of a request without context parallelism

Both nodes draw the same sample of replica groups for a request. A decode rank
pulls from the prefill ranks dealt to it, the same ones in every pipeline stage,
and a prefill rank keeps the blocks of a request that somebody pulls from it.
-/

namespace VllmAscend.Mooncake.Pull

open Python Packed List Nat

structure Nodes where
  prefillTpSize : Nat
  decodeTpSize : Nat
  prefillPpSize : Nat

def Heads.count (m : Heads) : Nat := if m.useMla then 1 else m.numKeyValueHeads

def getTpNumNeedPulls (m : Heads) (cfg : Nodes) (tpSize : Nat) : Nat :=
  if m.useMla then 1
  else max 1 (m.numKeyValueHeads / tpSize) / max 1 (m.numKeyValueHeads / cfg.prefillTpSize)

def getRemoteTpRanks (m : Heads) (cfg : Nodes) (tpOriData randGroupIndex : List Nat) (numGroups tpNumNeedPulls : Nat) :
    List (List Nat) :=
  if m.count < cfg.prefillTpSize ∨ m.useMla then
    let rows := reshape numGroups (tpOriData.length / numGroups) tpOriData
    let flattened := rows.flatMap fun row => gather 0 row randGroupIndex
    reshape tpNumNeedPulls (ceilDiv flattened.length tpNumNeedPulls) flattened
  else reshape (cfg.prefillTpSize / cfg.decodeTpSize) cfg.decodeTpSize tpOriData

/-- `_get_remote_ranks_for_req`; `randGroupIndex` is the sample drawn for the request. -/
def getRemoteRanksForReq (m : Heads) (cfg : Nodes) (tpSize : Nat) (randGroupIndex : List Nat) : List (List Nat) :=
  if cfg.prefillTpSize = cfg.decodeTpSize then
    (List.range cfg.prefillTpSize).map fun tp => (List.range cfg.prefillPpSize).map fun pp => tp + pp * cfg.prefillTpSize
  else
    let oriData := reshape cfg.prefillTpSize cfg.prefillPpSize (List.range (cfg.prefillTpSize * cfg.prefillPpSize))
    let allResults := oriData.map fun row => getRemoteTpRanks m cfg row randGroupIndex
      (max 1 (cfg.prefillTpSize / m.count)) (getTpNumNeedPulls m cfg tpSize)
    (List.range (allResults.headD []).length).map fun group => allResults.flatMap fun ranks => ranks.getD group []

def delays (m : Heads) (cfg : Nodes) (randGroupIndex : List Nat) (tpRank : Nat) : Prop :=
  tpRank ∈ (getRemoteRanksForReq m cfg cfg.prefillTpSize randGroupIndex).flatten

def headsOf (heads tpSize rank : Nat) : List Nat :=
  (List.range (max 1 (heads / tpSize))).map (rank * heads / tpSize + ·)

structure Nodes.Fits (cfg : Nodes) (m : Heads) : Prop where
  decode : 0 < cfg.decodeTpSize
  pp : 0 < cfg.prefillPpSize
  prefill : 0 < cfg.prefillTpSize
  dvd : cfg.decodeTpSize ∣ cfg.prefillTpSize
  heads : 0 < m.count
  prefillHeads : m.count ∣ cfg.prefillTpSize ∨ cfg.prefillTpSize ∣ m.count
  decodeHeads : m.count ∣ cfg.decodeTpSize ∨ cfg.decodeTpSize ∣ m.count

/-- What `rand.sample` returns. -/
structure Nodes.Sample (cfg : Nodes) (m : Heads) (randGroupIndex : List Nat) : Prop where
  length : randGroupIndex.length = max (cfg.decodeTpSize / m.count) 1
  lt : ∀ j ∈ randGroupIndex, j < max 1 (cfg.prefillTpSize / m.count)
  nodup : randGroupIndex.Nodup

/-! ## Dealing in rows -/

section
variable {α : Type*} (F : Nat → α) (n c : Nat)

def rowsOf : List (List α) := (List.range n).map fun i => (List.range c).map fun b => F (i * c + b)

theorem flatten_rowsOf : (rowsOf F n c).flatten = (range (n * c)).map F := by
  rw [Interleave.range_mul, map_flatMap, rowsOf, ← flatMap_def]
  simp only [map_map, Function.comp_def]

theorem reshape_range : reshape c n ((range (n * c)).map F) = rowsOf F n c := by
  have h := reshape_flatMap c (fun i => (range c).map fun b => F (i * c + b)) (range n) (by simp)
  rwa [length_range, flatMap_def, ← rowsOf, flatten_rowsOf] at h

end

theorem ceilDiv_mul (hc : 0 < c) : ceilDiv (n * c) c = n := by
  rw [ceilDiv, show n * c + c - 1 = c - 1 + n * c by omega, add_mul_div_right _ _ hc, div_eq_of_lt (by omega),
    zero_add]

theorem mul_add_lt {i n b c : Nat} (hi : i < n) (hb : b < c) : i * c + b < n * c :=
  lt_of_lt_of_le (by rw [succ_mul]; omega) (mul_le_mul_right c hi)

theorem exists_factor (hb : 0 < b) (h : a ∣ b) : ∃ k, 0 < k ∧ b = a * k ∧ b / a = k ∧ a / b ≤ 1 := by
  obtain ⟨k, rfl⟩ := h
  have hk := Nat.pos_of_mul_pos_left hb
  refine ⟨k, hk, rfl, Nat.mul_div_cancel_left k (Nat.pos_of_mul_pos_right hb), Nat.div_le_of_le_mul ?_⟩
  rw [Nat.mul_one]
  exact Nat.le_mul_of_pos_right a hk

section
variable (hq : 0 < q) (rank : Nat)
include hq

theorem headsOf_own (htp : 0 < tps) : headsOf (tps * q) tps rank = (range q).map (rank * q + ·) := by
  rw [headsOf, Nat.mul_div_cancel_left q htp, Nat.max_eq_right hq, Nat.mul_left_comm, Nat.mul_div_cancel_left _ htp]

theorem headsOf_shared (hh : 0 < heads) : headsOf heads (heads * q) rank = [rank / q] := by
  obtain ⟨-, -, -, -, hle⟩ := exists_factor (Nat.mul_pos hh hq) (Nat.dvd_mul_right heads q)
  rw [headsOf, Nat.max_eq_left hle, Nat.mul_comm rank, Nat.mul_div_mul_left _ _ hh]
  simp

end

/-! ## The choice in closed form -/

section
variable {cfg : Nodes} {m : Heads} {rand : List Nat} {c n : Nat} {pick : Nat → Nat}

def dealt (cfg : Nodes) (c n : Nat) (pick : Nat → Nat) : List (List Nat) :=
  (List.range n).map fun i => (List.range cfg.prefillPpSize).flatMap fun s =>
    (List.range c).map fun b => s * cfg.prefillTpSize + pick (i * c + b)

theorem getTpNumNeedPulls_eq (tps : Nat) : getTpNumNeedPulls m cfg tps =
    max 1 (m.count / tps) / max 1 (m.count / cfg.prefillTpSize) := by
  have ho : ∀ n, max 1 (1 / n) = 1 := fun n => max_eq_left (div_le_self 1 n)
  unfold getTpNumNeedPulls Heads.count
  cases m.useMla <;> simp [ho]

theorem getRemoteRanksForReq_eq (hpp : 0 < cfg.prefillPpSize) (hne : cfg.prefillTpSize ≠ cfg.decodeTpSize)
    (h : ∀ F : Nat → Nat, getRemoteTpRanks m cfg ((range cfg.prefillTpSize).map F) rand
      (max 1 (cfg.prefillTpSize / m.count)) (getTpNumNeedPulls m cfg tps) = rowsOf (fun x => F (pick x)) n c) :
    getRemoteRanksForReq m cfg tps rand = dealt cfg c n pick := by
  obtain ⟨p, hp⟩ := exists_eq_succ_of_ne_zero hpp.ne'
  have hr := reshape_range id cfg.prefillPpSize cfg.prefillTpSize
  rw [map_id, mul_comm] at hr
  unfold getRemoteRanksForReq dealt
  rw [if_neg hne, hr, rowsOf]
  simp only [map_map, Function.comp_def, id_eq, h]
  rw [show (((range cfg.prefillPpSize).map fun s => rowsOf (fun x => s * cfg.prefillTpSize + pick x) n c).headD
    []).length = n by simp [hp, range_succ_eq_map, rowsOf]]
  refine map_congr_left fun i hi => ?_
  rw [flatMap_map]
  refine flatMap_congr fun s _ => ?_
  rw [rowsOf, getD_eq_getElem _ _ (by simpa using hi)]
  simp

theorem mem_flatten_dealt (hlt : ∀ x < n * c, pick x < cfg.prefillTpSize) {s t : Nat}
    (hs : s < cfg.prefillPpSize) (ht : t < cfg.prefillTpSize) :
    s * cfg.prefillTpSize + t ∈ (dealt cfg c n pick).flatten ↔ t ∈ (range (n * c)).map pick := by
  rw [← flatten_rowsOf]
  simp only [dealt, rowsOf, mem_flatten, mem_map, mem_range, exists_exists_and_eq_and, mem_flatMap]
  constructor
  · rintro ⟨i, hi, s', -, b, hb, heq⟩
    have hm := congrArg (· % cfg.prefillTpSize) heq
    simp only [mul_add_mod_self_right, mod_eq_of_lt (hlt _ (mul_add_lt hi hb)), mod_eq_of_lt ht] at hm
    exact ⟨i, hi, b, hb, hm⟩
  · rintro ⟨i, hi, b, hb, rfl⟩
    exact ⟨i, hi, s, hs, b, hb, rfl⟩

structure Dealing (cfg : Nodes) (m : Heads) (rand : List Nat) (c : Nat) (pick : Nat → Nat) : Prop where
  decode : getRemoteRanksForReq m cfg cfg.decodeTpSize rand = dealt cfg c cfg.decodeTpSize pick
  prefill : ∃ c' n', getRemoteRanksForReq m cfg cfg.prefillTpSize rand = dealt cfg c' n' pick ∧
    n' * c' = cfg.decodeTpSize * c
  lt : ∀ x < cfg.decodeTpSize * c, pick x < cfg.prefillTpSize
  heads : ∀ i, ((List.range c).flatMap fun b => headsOf m.count cfg.prefillTpSize (pick (i * c + b))) =
    headsOf m.count cfg.decodeTpSize i

theorem dealing_equal (h : cfg.prefillTpSize = cfg.decodeTpSize) : Dealing cfg m rand 1 id := by
  have ha : ∀ tps, getRemoteRanksForReq m cfg tps rand = dealt cfg 1 cfg.decodeTpSize id := by
    intro tps
    rw [getRemoteRanksForReq, if_pos h, dealt, h]
    refine map_congr_left fun tp _ => ?_
    simp [map_eq_flatMap, add_comm]
  exact ⟨ha _, ⟨1, _, ha _, rfl⟩, by simp [h], by simp [h]⟩

def replica (rand : List Nat) (G x : Nat) : Nat := x / rand.length * G + rand.getD (x % rand.length) 0

theorem getRemoteTpRanks_sampled (hm : m.count < cfg.prefillTpSize ∨ m.useMla) (hG0 : 0 < G)
    (hG : cfg.prefillTpSize = m.count * G) (hlt : ∀ j ∈ rand, j < G) (hc : 0 < c) (hn : m.count * rand.length = n * c)
    (F : Nat → Nat) : getRemoteTpRanks m cfg ((range cfg.prefillTpSize).map F) rand G c =
      rowsOf (fun x => F (replica rand G x)) n c := by
  have hrow : ∀ h, gather 0 ((range G).map fun b => F (h * G + b)) rand =
      (range rand.length).map fun b => F (replica rand G (h * rand.length + b)) := by
    intro h
    conv_lhs => rw [gather, ← take_length (l := rand), ← gather_range 0 _ _ (le_refl _), gather, map_map]
    refine map_congr_left fun b hb => ?_
    have hb := mem_range.mp hb
    have hj := hlt _ (getElem_mem hb)
    rw [replica, mul_comm h rand.length, mul_add_div (by omega), mul_add_mod, div_eq_of_lt hb, mod_eq_of_lt hb]
    simp [hb, hj]
  have hro : reshape G (cfg.prefillTpSize / G) ((range cfg.prefillTpSize).map F) = rowsOf F m.count G := by
    rw [hG, Nat.mul_div_cancel _ hG0, reshape_range]
  have hfl := flatten_rowsOf (fun x => F (replica rand G x)) m.count rand.length
  rw [rowsOf, ← flatMap_def] at hfl
  simp only [getRemoteTpRanks, if_pos hm, length_map, length_range, hro, rowsOf, flatMap_map, hrow]
  rw [hfl, length_map, length_range, hn, ceilDiv_mul hc, reshape_range, rowsOf]

section
variable (h : cfg.Fits m) (hne : cfg.prefillTpSize ≠ cfg.decodeTpSize)
include h hne

theorem dealing_slices (hm : ¬ (m.count < cfg.prefillTpSize ∨ m.useMla)) :
    Dealing cfg m rand (cfg.prefillTpSize / cfg.decodeTpSize) id := by
  have hle : cfg.prefillTpSize ≤ m.count := Nat.le_of_not_lt fun hlt => hm (.inl hlt)
  have hdv : cfg.prefillTpSize ∣ m.count := h.prefillHeads.elim
    (fun hd => (Nat.le_antisymm hle (Nat.le_of_dvd h.prefill hd)).dvd) id
  obtain ⟨g, hg0, hg, hgd, -⟩ := exists_factor h.prefill h.dvd
  obtain ⟨q, hq0, hq, -⟩ := exists_factor h.heads hdv
  have hall : ∀ tps, getRemoteRanksForReq m cfg tps rand = dealt cfg g cfg.decodeTpSize id := by
    refine fun tps => getRemoteRanksForReq_eq h.pp hne fun F => ?_
    rw [getRemoteTpRanks, if_neg hm, hgd, hg, reshape_range]
    rfl
  rw [hgd]
  refine ⟨hall _, ⟨g, _, hall _, rfl⟩, fun x hx => hg ▸ hx, fun i => ?_⟩
  have hde : m.count = cfg.decodeTpSize * (g * q) := by rw [hq, hg, mul_assoc]
  rw [hde, headsOf_own (mul_pos hg0 hq0) i h.decode, ← flatten_rowsOf, ← hde, hq, rowsOf, ← flatMap_def]
  simp only [headsOf_own hq0 _ h.prefill, id_eq, add_mul, mul_assoc, add_assoc]

theorem dealing_sampled (hs : cfg.Sample m rand) (hm : m.count < cfg.prefillTpSize ∨ m.useMla) :
    Dealing cfg m rand (max 1 (m.count / cfg.decodeTpSize)) (replica rand (cfg.prefillTpSize / m.count)) := by
  have hle : m.count ≤ cfg.prefillTpSize := hm.elim le_of_lt fun hm => by
    rw [Heads.count, if_pos hm]
    exact h.prefill
  have hdv : m.count ∣ cfg.prefillTpSize := h.prefillHeads.elim id
    fun hd => (le_antisymm hle (le_of_dvd h.heads hd)).dvd
  obtain ⟨G, hG0, hG, hGd, hpu⟩ := exists_factor h.prefill hdv
  have hlt := hs.lt
  rw [hGd, max_eq_right hG0] at hlt
  obtain ⟨c, hc, hc0, hn, hhe⟩ : ∃ c, max 1 (m.count / cfg.decodeTpSize) = c ∧ 0 < c ∧
      m.count * rand.length = cfg.decodeTpSize * c ∧
      ∀ i, ((range c).map fun b => (i * c + b) / rand.length) = headsOf m.count cfg.decodeTpSize i := by
    refine ⟨_, rfl, lt_of_lt_of_le one_pos (le_max_left ..), ?_⟩
    rw [hs.length]
    -- a decode rank shares its head with `k` of them, or has `k` heads of its own
    rcases h.decodeHeads with hd | hd
    · obtain ⟨k, hk0, hk, hkd, hone⟩ := exists_factor h.decode hd
      rw [max_eq_left hone, hkd, max_eq_left hk0, hk]
      exact ⟨(mul_one _).symm, fun i => by simp [headsOf_shared hk0 i h.heads]⟩
    obtain ⟨k, hk0, hk, hkd, hone⟩ := exists_factor h.heads hd
    rw [hkd, max_eq_right hone, max_eq_right hk0, hk]
    exact ⟨mul_one _, fun i => by simp [headsOf_own hk0 i h.decode]⟩
  have hj : ∀ x, rand.getD (x % rand.length) 0 < G := by
    intro x
    have hk : 0 < rand.length := by rw [hs.length]; exact lt_of_lt_of_le one_pos (le_max_right ..)
    rw [getD_eq_getElem _ _ (mod_lt _ hk)]
    exact hlt _ (getElem_mem _)
  rw [hc, hGd]
  refine ⟨?_, ⟨1, m.count * rand.length, ?_, by rw [mul_one, hn]⟩, fun x hx => ?_, fun i => ?_⟩
  · refine getRemoteRanksForReq_eq h.pp hne fun F => ?_
    rw [getTpNumNeedPulls_eq, hc, Nat.max_eq_left hpu, Nat.div_one, hGd, Nat.max_eq_right hG0]
    exact getRemoteTpRanks_sampled hm hG0 hG hlt hc0 hn F
  · refine getRemoteRanksForReq_eq h.pp hne fun F => ?_
    rw [getTpNumNeedPulls_eq, max_eq_left hpu, hGd, max_eq_right hG0]
    exact getRemoteTpRanks_sampled hm hG0 hG hlt one_pos (mul_one _).symm F
  · rw [hG]
    exact mul_add_lt (Nat.div_lt_of_lt_mul (by rw [Nat.mul_comm, hn]; exact hx)) (hj x)
  · rw [← hhe i, map_eq_flatMap]
    refine flatMap_congr fun b _ => ?_
    rw [hG, headsOf_shared hG0 _ h.heads, replica, mul_comm _ G, mul_add_div hG0, div_eq_of_lt (hj _), add_zero]

end

theorem exists_dealing (h : cfg.Fits m) (hs : cfg.Sample m rand) : ∃ c pick, Dealing cfg m rand c pick := by
  by_cases heq : cfg.prefillTpSize = cfg.decodeTpSize
  · exact ⟨_, _, dealing_equal heq⟩
  by_cases hm : m.count < cfg.prefillTpSize ∨ m.useMla
  · exact ⟨_, _, dealing_sampled h heq hs hm⟩
  · exact ⟨_, _, dealing_slices h heq hm⟩

end

/-- The ranks chosen have the heads, and a prefill worker keeps a request exactly if it is chosen. -/
theorem chosen_ranks_hold_heads (m : Heads) (cfg : Nodes) (rand : List Nat) (h : cfg.Fits m) (hs : cfg.Sample m rand) :
    (getRemoteRanksForReq m cfg cfg.decodeTpSize rand).length = cfg.decodeTpSize ∧
    (∀ i < cfg.decodeTpSize, ∃ chosen : Nat → List Nat,
      (getRemoteRanksForReq m cfg cfg.decodeTpSize rand)[i]? = some ((List.range cfg.prefillPpSize).flatMap chosen) ∧
      ∀ s, (∀ r ∈ chosen s, r / cfg.prefillTpSize = s) ∧
        ((chosen s).flatMap fun r => headsOf m.count cfg.prefillTpSize (r % cfg.prefillTpSize)) =
          headsOf m.count cfg.decodeTpSize i) ∧
    ∀ s < cfg.prefillPpSize, ∀ t < cfg.prefillTpSize, delays m cfg rand t ↔
      ∃ ranks ∈ getRemoteRanksForReq m cfg cfg.decodeTpSize rand, s * cfg.prefillTpSize + t ∈ ranks := by
  obtain ⟨c, pick, hd⟩ := exists_dealing h hs
  refine ⟨by simp [hd.decode, dealt], fun i hi => ?_, fun s hs t ht => ?_⟩
  · have hx : ∀ b ∈ List.range c, pick (i * c + b) < cfg.prefillTpSize := fun b hb =>
      hd.lt _ (mul_add_lt hi (mem_range.mp hb))
    refine ⟨fun s => (List.range c).map fun b => s * cfg.prefillTpSize + pick (i * c + b), ?_, fun s => ⟨?_, ?_⟩⟩
    · rw [hd.decode, dealt, getElem?_map, getElem?_range hi]
      rfl
    · intro r hr
      obtain ⟨b, hb, rfl⟩ := mem_map.mp hr
      rw [mul_comm, mul_add_div h.prefill, div_eq_of_lt (hx b hb), add_zero]
    · rw [flatMap_map, ← hd.heads i]
      refine flatMap_congr fun b hb => ?_
      rw [mul_add_mod_self_right, mod_eq_of_lt (hx b hb)]
  · obtain ⟨c', n', hpr, hn⟩ := hd.prefill
    have hon := mem_flatten_dealt (hn ▸ hd.lt) h.pp ht
    rw [zero_mul, zero_add, hn] at hon
    rw [delays, hpr, hon, ← mem_flatten_dealt hd.lt hs ht, hd.decode, mem_flatten]

theorem chosen_ranks_hold_heads_second : ∃ chosen : Nat → List Nat,
    (getRemoteRanksForReq ⟨false, 2⟩ ⟨4, 2, 2⟩ 2 [1])[1]? = some ((List.range 2).flatMap chosen) ∧
    ∀ s, (∀ r ∈ chosen s, r / 4 = s) ∧ ((chosen s).flatMap fun r => headsOf 2 4 (r % 4)) = headsOf 2 2 1 :=
  (chosen_ranks_hold_heads ⟨false, 2⟩ ⟨4, 2, 2⟩ [1]
    ⟨by decide, by decide, by decide, by decide, by decide, by decide, by decide⟩
    ⟨by decide, by decide, by decide⟩).2.1 1 (by decide)

end VllmAscend.Mooncake.Pull
