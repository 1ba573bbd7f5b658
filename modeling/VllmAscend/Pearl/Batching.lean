import VllmAscend.Pearl.Loop

/-!
# Batching in the PEARL loop

What the head of an iteration does with a continuous batch, whatever the
requests' states are. Requests enter from a queue, or are chosen anew from all
that are not completed; a completed one comes back only to fill a bucket.
-/

namespace VllmAscend

open Python Run List

section
variable (run : PearlRun)

structure QueueOk (r : PearlRank) : Prop where
  entered : ∀ i, i < r.nextRequestIndex ↔ i ∈ r.activeRequestIndices ∨ (r.completedRequestStates i).isSome
  disjoint : ∀ i ∈ r.activeRequestIndices, r.completedRequestStates i = none
  next_le : r.nextRequestIndex ≤ run.requests
  full : r.nextRequestIndex < run.requests → r.activeRequestIndices.length = run.initialBatchSize
  length_le : r.activeRequestIndices.length ≤ run.initialBatchSize

structure Batched (r : PearlRank) : Prop where
  nodup : r.activeRequestIndices.Nodup
  queue : run.cfg.enablePreemptiveScheduling = false → QueueOk run r

structure Refilled (r r' : PearlRank) : Prop where
  batched : Batched run r'
  live : ∀ i ∈ r'.activeRequestIndices, i < run.requests ∧ r'.completedRequestStates i = none
  length_le : r'.activeRequestIndices.length ≤ run.initialBatchSize
  full : r'.activeRequestIndices.length < run.initialBatchSize → ∀ i < run.requests,
    i ∈ r'.activeRequestIndices ∨ (r'.completedRequestStates i).isSome
  states : r'.states = replayedStates r
  completed : ∀ i, r'.completedRequestStates i =
    if i ∈ finishedRequests run r then some (r.states i) else r.completedRequestStates i
  entered : run.cfg.enablePreemptiveScheduling = false → ∀ i ∈ r'.activeRequestIndices,
    i ∈ r.activeRequestIndices ∨ finishedRequests run r ≠ [] ∧ r.nextRequestIndex ≤ i
  next_le : r.nextRequestIndex ≤ r'.nextRequestIndex
  completedStates : r'.completedStates = r.completedStates
  roundCount : r'.roundCount = r.roundCount

end

section
variable {run : PearlRun}

theorem initialBatchSize_le : run.initialBatchSize ≤ run.requests := Nat.min_le_left _ _

theorem continuous_parts (hc : run.continuous = true) : run.maxRounds = none ∧ run.cfg.maxNumSeqs < run.requests := by
  simp only [PearlRun.continuous, continuousBatching, Bool.and_eq_true, Option.isNone_iff_eq_none,
    decide_eq_true_eq] at hc
  exact ⟨hc.1.2, hc.2⟩

theorem initialBatchSize_pos (hn : 0 < run.requests) : 0 < run.initialBatchSize := by
  have := run.cfg.maxNumSeqs_pos
  unfold PearlRun.initialBatchSize
  omega

/-! ## Choosing the requests of a round -/

theorem length_add_filter_notMem {l : List Nat} (hn : l.Nodup) (hl : ∀ i ∈ l, i < n) :
    l.length + ((range n).filter (· ∉ l)).length = n := by
  have hp : ((range n).filter (· ∈ l)).Perm l := by
    rw [perm_ext_iff_of_nodup (nodup_range.filter _) hn]
    intro i
    simp only [mem_filter, mem_range, decide_eq_true_eq]
    exact ⟨fun h => h.2, fun h => ⟨hl i h, h⟩⟩
  have hs := length_eq_length_filter_add (l := range n) (fun i => decide (i ∈ l))
  rw [length_range, hp.length_eq] at hs
  rw [show ((range n).filter fun i => decide (i ∉ l)) = (range n).filter fun i => !decide (i ∈ l) from
    filter_congr fun i _ => by simp]
  omega

theorem continuousBucketSize_le (hi : 0 < initial) (n : Nat) : continuousBucketSize n initial ≤ initial := by
  unfold continuousBucketSize
  simp only
  split <;> omega

theorem continuousBucketIndices_ok
    (hn : act.Nodup) (hl : ∀ i ∈ act, i < n) (hne : act ≠ []) (hi : 0 < initial) (hin : initial ≤ n)
    (hle : act.length ≤ initial) (hfu : act.length < initial → ∀ i < n, i ∈ act ∨ (completed i).isSome) :
    ∃ pad, continuousBucketIndices n act completed initial = .ok (act ++ pad) ∧
      (act ++ pad).Nodup ∧ (∀ i ∈ pad, i < n ∧ (completed i).isSome) ∧
      (act ++ pad).length = continuousBucketSize act.length initial := by
  have hbu := continuousBucketSize_le hi act.length
  unfold continuousBucketIndices
  rw [if_neg hne]
  simp only
  split
  · rename_i hb
    refine ⟨[], by simp, by simpa using hn, by simp, ?_⟩
    rw [append_nil]
    unfold continuousBucketSize at hb ⊢
    simp only at hb ⊢
    split at hb <;> rename_i htail
    · rw [if_pos htail]; omega
    · rw [if_neg htail]; omega
  · rename_i hb
    have hlt : act.length < initial := by omega
    have hpa : ((range n).filter fun i => decide ((completed i).isSome ∧ i ∉ act)) =
        (range n).filter fun i => decide (i ∉ act) := by
      refine filter_congr fun i hm => ?_
      rcases hfu hlt i (mem_range.mp hm) with h | h <;> simp [h]
    have hco := length_add_filter_notMem hn hl
    rw [hpa, if_neg (by rw [length_take]; omega)]
    refine ⟨_, rfl, ?_, ?_, ?_⟩
    · rw [nodup_append]
      refine ⟨hn, (nodup_range.filter _).sublist (take_sublist _ _), fun a ha b hb' e => ?_⟩
      have := (mem_filter.mp (mem_of_mem_take hb')).2
      simp only [decide_eq_true_eq] at this
      exact this (e ▸ ha)
    · intro i hi'
      obtain ⟨hr, hno⟩ := mem_filter.mp (mem_of_mem_take hi')
      simp only [decide_eq_true_eq] at hno
      have hin := mem_range.mp hr
      exact ⟨hin, (hfu hlt i hin).resolve_left hno⟩
    · rw [length_append, length_take]
      omega

theorem perm_canonicalActiveIndices (st : States) (act : List Nat) :
    (canonicalActiveIndices st act).Perm act := by
  unfold canonicalActiveIndices
  have := filter_append_perm (fun i => !(st i).preVerify) act
  simpa using this

theorem canonical_eq_nil : canonicalActiveIndices st act = [] ↔ act = [] :=
  ⟨fun h => by simpa [h] using (perm_canonicalActiveIndices st act).symm, fun h => by subst h; rfl⟩

/-! ## Refilling a continuous batch -/

theorem mem_finishedRequests (hi : i ∈ finishedRequests run r) :
    r.completedRequestStates i = none ∧ finished run.eos (r.states i) = true ∧
      (run.cfg.enablePreemptiveScheduling = false → i ∈ r.activeRequestIndices) ∧
      (run.cfg.enablePreemptiveScheduling = true → i < run.requests) := by
  unfold finishedRequests at hi
  simp only [mem_filter, decide_eq_true_eq, Option.isNone_iff_eq_none] at hi
  obtain ⟨hc, hn, hf⟩ := hi
  refine ⟨hn, by simpa [replayedStates, hn] using hf, fun hp => ?_, fun hp => ?_⟩
  · simpa [hp] using hc
  · simpa [hp] using hc

theorem snapshotFinished_completed (i : Nat) : (snapshotFinished run r).completedRequestStates i =
    if i ∈ finishedRequests run r then some (r.states i) else r.completedRequestStates i := by
  simp only [snapshotFinished]
  split
  · rename_i hi
    simp [replayedStates, (mem_finishedRequests hi).1]
  · rfl

theorem refill_preemptive (ho : ∀ st gains l, (run.order st gains l).Perm l)
    (hp : run.cfg.enablePreemptiveScheduling = true) : Refilled run r (refill run r) := by
  let unf := (range run.requests).filter fun i => ((snapshotFinished run r).completedRequestStates i).isNone
  have hperm := ho (snapshotFinished run r).states (snapshotFinished run r).recentSchedulingTokenGains unf
  have hr : refill run r = { snapshotFinished run r with
      activeRequestIndices := selectPreemptiveContinuousIndices run.order (snapshotFinished run r) unf
        run.initialBatchSize } := by
    unfold refill; rw [if_pos hp]
  have hmem : ∀ i ∈ selectPreemptiveContinuousIndices run.order (snapshotFinished run r) unf run.initialBatchSize,
      i < run.requests ∧ (snapshotFinished run r).completedRequestStates i = none := by
    intro i hi
    have := hperm.mem_iff.mp (mem_of_mem_take hi)
    simpa [unf] using this
  rw [hr]
  refine ⟨⟨?_, fun hno => ?_⟩, hmem, ?_, ?_, rfl, snapshotFinished_completed, fun hno => ?_, le_refl _, rfl, rfl⟩
  · exact (hperm.nodup_iff.mpr (nodup_range.filter _)).sublist (take_sublist _ _)
  · cases hp.symm.trans hno
  · simp only [selectPreemptiveContinuousIndices, length_take]
    omega
  · intro hlt i hi
    simp only [selectPreemptiveContinuousIndices, length_take] at hlt
    rw [selectPreemptiveContinuousIndices, take_of_length_le (by omega), hperm.mem_iff]
    cases hc : (snapshotFinished run r).completedRequestStates i with
    | none => left; simp [unf, hi, hc]
    | some s => right; rfl
  · cases hp.symm.trans hno

theorem QueueOk.live (hq : QueueOk run r) : ∀ i ∈ r.activeRequestIndices,
    i < run.requests ∧ r.completedRequestStates i = none := fun i hi =>
  ⟨lt_of_lt_of_le ((hq.entered i).mpr (.inl hi)) hq.next_le, hq.disjoint i hi⟩

theorem QueueOk.covers (hq : QueueOk run r) (hl : r.activeRequestIndices.length < run.initialBatchSize) :
    ∀ i < run.requests, i ∈ r.activeRequestIndices ∨ (r.completedRequestStates i).isSome := fun i hi => by
  refine (hq.entered i).mp ?_
  by_contra hn
  have := hq.full (by omega)
  omega

theorem queueOk_replace (hn : r.activeRequestIndices.Nodup) (hq : QueueOk run r)
    (hp : run.cfg.enablePreemptiveScheduling = false)
    (hk : k = min (finishedRequests run r).length (run.requests - r.nextRequestIndex))
    (hr : r' = { snapshotFinished run r with
      activeRequestIndices := r.activeRequestIndices.filter (· ∉ finishedRequests run r) ++
        (range k).map (r.nextRequestIndex + ·)
      nextRequestIndex := r.nextRequestIndex + k }) : r'.activeRequestIndices.Nodup ∧ QueueOk run r' := by
  subst hr
  have hlt : ∀ i ∈ r.activeRequestIndices, i < r.nextRequestIndex := fun i hi => (hq.entered i).mpr (.inl hi)
  have hfi : ∀ i ∈ finishedRequests run r, i < r.nextRequestIndex := fun i hi =>
    hlt i ((mem_finishedRequests hi).2.2.1 hp)
  have hnew : ∀ i, i ∈ (range k).map (r.nextRequestIndex + ·) ↔
      r.nextRequestIndex ≤ i ∧ i < r.nextRequestIndex + k := fun i => by
    rw [← range'_eq_map_range, mem_range'_1]
  have hlen : (r.activeRequestIndices.filter (· ∉ finishedRequests run r)).length + (finishedRequests run r).length =
      r.activeRequestIndices.length := by
    obtain ⟨p, hfi⟩ : ∃ p, finishedRequests run r = r.activeRequestIndices.filter p :=
      ⟨_, by rw [finishedRequests, if_neg (by simp [hp])]⟩
    rw [hfi, length_eq_length_filter_add (l := r.activeRequestIndices) p, Nat.add_comm,
      filter_congr fun i hi => show decide (i ∉ _) = !p i by simp [hi]]
  have hnext := hq.next_le
  refine ⟨?_, ⟨fun i => ?_, fun i hi => ?_, ?_, fun hl => ?_, ?_⟩⟩
  · refine nodup_append.mpr ⟨hn.filter _, ?_, fun a ha b hb e => ?_⟩
    · exact nodup_range.map fun a b e => by simpa using e
    · have h1 := hlt a (mem_of_mem_filter ha)
      have h2 := (hnew b).mp hb
      omega
  · simp only [mem_append, mem_filter, decide_eq_true_eq, hnew, snapshotFinished_completed]
    constructor
    · intro hi
      by_cases hin : i < r.nextRequestIndex
      · by_cases hf : i ∈ finishedRequests run r
        · right; simp [hf]
        rcases (hq.entered i).mp hin with ha | hc
        · exact .inl (.inl ⟨ha, hf⟩)
        · right; simpa [hf] using hc
      · exact .inl (.inr ⟨by omega, hi⟩)
    · rintro ((⟨ha, -⟩ | ⟨-, hi⟩) | hs)
      · have := hlt i ha; omega
      · exact hi
      · split at hs
        · rename_i hf; have := hfi i hf; omega
        · have := (hq.entered i).mpr (.inr hs); omega
  · simp only [mem_append, mem_filter, decide_eq_true_eq, hnew] at hi
    simp only [snapshotFinished_completed]
    rcases hi with ⟨ha, hf⟩ | ⟨hi, -⟩
    · rw [if_neg hf]; exact hq.disjoint i ha
    rw [if_neg fun hf => by have := hfi i hf; omega]
    cases hc : r.completedRequestStates i with
    | none => rfl
    | some s => have := (hq.entered i).mpr (.inr (by simp [hc])); omega
  · simp only; omega
  · simp only at hl
    have := hq.full (by omega)
    simp only [length_append, length_map, length_range]
    omega
  · have := hq.length_le
    simp only [length_append, length_map, length_range]
    omega

theorem refill_queue (h : Batched run r) (hp : run.cfg.enablePreemptiveScheduling = false) :
    Refilled run r (refill run r) := by
  have hq := h.queue hp
  unfold refill
  rw [if_neg (by simp [hp])]
  by_cases hn : finishedRequests run r = []
  · rw [if_neg (by simp [hn])]
    have hs : (snapshotFinished run r).completedRequestStates = r.completedRequestStates := by
      funext i; rw [snapshotFinished_completed, hn]; simp
    have hq' : QueueOk run (snapshotFinished run r) := by
      refine ⟨?_, ?_, hq.next_le, hq.full, hq.length_le⟩
      · rw [hs]; exact hq.entered
      · rw [hs]; exact hq.disjoint
    exact ⟨⟨h.nodup, fun _ => hq'⟩, hq'.live, hq'.length_le, hq'.covers, rfl, snapshotFinished_completed,
      fun _ i hi => .inl hi, le_refl _, rfl, rfl⟩
  · rw [if_pos hn]
    obtain ⟨hn', hq'⟩ := queueOk_replace h.nodup hq hp rfl rfl
    refine ⟨⟨hn', fun _ => hq'⟩, hq'.live, hq'.length_le, hq'.covers, rfl, snapshotFinished_completed,
      fun _ i hi => ?_, Nat.le_add_right _ _, rfl, rfl⟩
    rcases mem_append.mp hi with hi | hi
    · exact .inl (mem_of_mem_filter hi)
    · obtain ⟨j, -, rfl⟩ := mem_map.mp hi
      exact .inr ⟨hn, Nat.le_add_right _ _⟩

theorem refilled (ho : ∀ st gains l, (run.order st gains l).Perm l) (h : Batched run r) :
    Refilled run r (refill run r) := by
  cases hp : run.cfg.enablePreemptiveScheduling with
  | true => exact refill_preemptive ho hp
  | false => exact refill_queue h hp

theorem Batched.finished_lt (h : Batched run r) (hi : i ∈ finishedRequests run r) : i < run.requests := by
  cases hp : run.cfg.enablePreemptiveScheduling with
  | true => exact (mem_finishedRequests hi).2.2.2 hp
  | false => exact ((h.queue hp).live i ((mem_finishedRequests hi).2.2.1 hp)).1

theorem Refilled.unfinished (h : Refilled run r r') (hi : i ∈ r'.activeRequestIndices)
    (hs : run.cfg.enablePreemptiveScheduling = true ∨ i ∈ r.activeRequestIndices) :
    finished run.eos (r'.states i) = false := by
  obtain ⟨hlt, hn⟩ := h.live i hi
  rw [h.completed] at hn
  split at hn
  · cases hn
  rename_i hno
  rw [h.states]
  unfold finishedRequests at hno
  cases hp : run.cfg.enablePreemptiveScheduling with
  | true => simpa [hp, hlt, hn] using hno
  | false =>
    have ho := hs.resolve_left (by simp [hp])
    simpa [hp, ho, hn] using hno

theorem Refilled.snapshot (h : Refilled run r r') (hs : r'.completedRequestStates i = some s) : r'.states i = s := by
  rw [h.completed] at hs
  rw [h.states, replayedStates]
  split at hs
  · rename_i hi
    cases hs
    rw [(mem_finishedRequests hi).1]; rfl
  · rw [hs]; rfl

/-! ## The head of an iteration -/

theorem schedule_batched (ho : ∀ st gains l, (run.order st gains l).Perm l) (hc : run.continuous = true)
    (h : Batched run r) :
    (schedule run r = .ok (refill run r, []) ∧ ∀ i < run.requests, ((refill run r).completedRequestStates i).isSome) ∨
    ∃ pad, schedule run r = .ok (refill run r, canonicalActiveIndices (refill run r).states
        ((refill run r).activeRequestIndices ++ pad)) ∧
      (refill run r).activeRequestIndices ≠ [] ∧ ((refill run r).activeRequestIndices ++ pad).Nodup ∧
      (∀ i ∈ pad, i < run.requests ∧ ((refill run r).completedRequestStates i).isSome) ∧
      ((refill run r).activeRequestIndices ++ pad).length =
        continuousBucketSize (refill run r).activeRequestIndices.length run.initialBatchSize := by
  have hre := refilled ho h
  obtain ⟨hmax, hse⟩ := continuous_parts hc
  have hpos : 0 < run.initialBatchSize := initialBatchSize_pos (by omega)
  unfold schedule
  simp only [hc, if_true, true_and, Bool.not_true, Bool.false_eq_true, and_false, if_false, hmax]
  by_cases hall : allCompleted run (refill run r) = true
  · rw [if_pos hall]
    exact .inl ⟨rfl, fun i hi => all_eq_true.mp hall i (mem_range.mpr hi)⟩
  rw [if_neg hall]
  have hne : (refill run r).activeRequestIndices ≠ [] := fun hnil => by
    refine hall (all_eq_true.mpr fun i hi => ?_)
    have := hre.full (by rw [hnil]; exact hpos) i (mem_range.mp hi)
    simpa [hnil] using this
  obtain ⟨pad, hb, hn, hpa, hlen⟩ := continuousBucketIndices_ok hre.batched.nodup
    (fun i hi => (hre.live i hi).1) hne hpos initialBatchSize_le hre.length_le hre.full
  simp only [hb, ok_bind, pure_eq_ok]
  exact .inr ⟨pad, rfl, hne, hn, hpa, hlen⟩

end

end VllmAscend
