import Mathlib.Algebra.Order.BigOperators.Group.Finset
import VllmAscend.Pearl.Batching
import VllmAscend.Pearl.RequestSound

/-!
# The PEARL loop keeps its requests

`LoopInv` is the state of one replica at the head of an iteration: every
request, live or snapshotted, is between rounds; the active requests, the
completed ones and the queue are the whole batch.
-/

namespace VllmAscend

open Python Greedy Rows Run PearlPipelineState List

/-! ## The invariant -/

structure PearlRequestOk (run : PearlRun) (prompt : List Int) (params : NativeSamplingParams) (s : PearlPipelineState) :
    Prop extends RequestOk run.models run.gamma prompt params s where
  pending : s.preVerify = false → s.pendingWindowSize = run.gamma

theorem PearlRequestOk.verified (h : PearlRequestOk run prompt params s) (hg : 0 < run.gamma)
    {next : List Int} (hl : next.length = run.gamma) (hpos : ∀ x ∈ next, 0 ≤ x)
    (hv : RowVerdictOk run.models run.gamma s next v) :
    PearlRequestOk run prompt params (s.verified run.gamma v.1 (decodeCorrection v.2) next) := by
  refine ⟨h.toRequestOk.verified ⟨hl ▸ hg, hl.le⟩ hpos hv, fun hp => ?_⟩
  have ha : v.1 = s.windowSize run.gamma := by simpa [PearlPipelineState.verified] using hp
  simp [PearlPipelineState.verified, ha, hl]

section
variable (run : PearlRun) (prompt : Nat → List Int) (params : Nat → NativeSamplingParams)

structure LoopInv (r : PearlRank) : Prop where
  rows : ∀ i < run.requests, PearlRequestOk run (prompt i) (params i) (r.states i)
  padded : ∀ i s, r.completedStates i = some s → i < run.requests ∧ PearlRequestOk run (prompt i) (params i) s ∧
    finished run.eos s = true ∧ finished run.eos (r.states i) = true
  completed : ∀ i s, r.completedRequestStates i = some s → i < run.requests ∧ PearlRequestOk run (prompt i) (params i) s ∧
    finished run.eos s = true
  nodup : r.activeRequestIndices.Nodup
  static : run.continuous = false → ∀ i, r.completedRequestStates i = none
  bounded : run.maxRounds ≠ none → ∀ i, r.completedStates i = none
  queue : run.continuous = true → run.cfg.enablePreemptiveScheduling = false → QueueOk run r

structure RunOk : Prop where
  gamma_pos : 0 < run.gamma
  requests_pos : 0 < run.requests
  order_perm : ∀ states gains l, (run.order states gains l).Perm l
  temperature : (∀ i < run.requests, (params i).temperature = 0) ∨ ∀ i < run.requests, 0 < (params i).temperature

end

section
variable {run : PearlRun} {prompt : Nat → List Int} {params : Nat → NativeSamplingParams} {r : PearlRank}

/-! ## Refilling a continuous batch -/

section
variable (h : LoopInv run prompt params r)
include h

theorem snapshotFinished_rows : ∀ i < run.requests,
    PearlRequestOk run (prompt i) (params i) ((snapshotFinished run r).states i) := fun i hi => by
  show PearlRequestOk run (prompt i) (params i) ((r.completedRequestStates i).getD (r.states i))
  cases hc : r.completedRequestStates i with
  | none => exact h.rows i hi
  | some s => exact (h.completed i s hc).2.1

theorem snapshotFinished_padded (i : Nat) (s : PearlPipelineState)
    (hs : r.completedStates i = some s) : finished run.eos ((snapshotFinished run r).states i) = true := by
  show finished run.eos ((r.completedRequestStates i).getD (r.states i)) = true
  cases hc : r.completedRequestStates i with
  | none => exact (h.padded i s hs).2.2.2
  | some s' => exact (h.completed i s' hc).2.2

theorem snapshotFinished_snapshots
    (hl : ∀ i ∈ finishedRequests run r, i < run.requests) (i : Nat) (s : PearlPipelineState)
    (hs : (snapshotFinished run r).completedRequestStates i = some s) :
    i < run.requests ∧ PearlRequestOk run (prompt i) (params i) s ∧ finished run.eos s = true := by
  rw [snapshotFinished_completed] at hs
  split at hs
  · rename_i hi
    cases hs
    exact ⟨hl i hi, h.rows i (hl i hi), (mem_finishedRequests hi).2.1⟩
  · exact h.completed i s hs

theorem LoopInv.batched (hc : run.continuous = true) : Batched run r := ⟨h.nodup, h.queue hc⟩

theorem LoopInv.refill (hc : run.continuous = true)
    (hr : Refilled run r (refill run r)) : LoopInv run prompt params (refill run r) := by
  have hro : ∀ i < run.requests, PearlRequestOk run (prompt i) (params i) ((VllmAscend.refill run r).states i) := by
    rw [hr.states]; exact snapshotFinished_rows h
  refine ⟨hro, fun i s hs => ?_, fun i s hs => ?_, hr.batched.nodup, fun hno => by simp [hc] at hno, ?_,
    fun _ => hr.batched.queue⟩
  · rw [hr.completedStates] at hs
    rw [hr.states]
    obtain ⟨h1, h2, h3, -⟩ := h.padded i s hs
    exact ⟨h1, h2, h3, snapshotFinished_padded h i s hs⟩
  · rw [hr.completed, ← snapshotFinished_completed] at hs
    exact snapshotFinished_snapshots h (fun i hi => (h.batched hc).finished_lt hi) i s hs
  · rw [hr.completedStates]; exact h.bounded

end

/-! ## The work left -/

def rowWork (run : PearlRun) (r : PearlRank) (i : Nat) : Nat :=
  if (r.completedRequestStates i).isSome then 0
  else if finished run.eos (r.states i) then 1
  else (r.states i).maxTokens + 1 - (r.states i).committedCompletionTokenIds.length

def work (run : PearlRun) (r : PearlRank) : Nat := ∑ i ∈ Finset.range run.requests, rowWork run r i

variable {r' : PearlRank}

theorem rowWork_refill (h : Refilled run r r') (i : Nat) :
    rowWork run r' i ≤ rowWork run r i ∧ (i ∈ finishedRequests run r → rowWork run r' i < rowWork run r i) := by
  unfold rowWork
  rw [h.completed i, h.states]
  by_cases hi : i ∈ finishedRequests run r
  · obtain ⟨hn, hf, -⟩ := mem_finishedRequests hi
    simp [hi, hn, hf]
  simp only [hi, if_false, false_imp_iff, and_true]
  cases hc : r.completedRequestStates i with
  | none => simp [replayedStates, hc]
  | some s => simp

theorem work_refill (h : Refilled run r r') (hl : ∀ i ∈ finishedRequests run r, i < run.requests) :
    work run r' ≤ work run r ∧ (finishedRequests run r ≠ [] → work run r' < work run r) := by
  refine ⟨Finset.sum_le_sum fun i _ => (rowWork_refill h i).1, fun hne => ?_⟩
  obtain ⟨i, hi⟩ := exists_mem_of_ne_nil _ hne
  exact Finset.sum_lt_sum (fun i _ => (rowWork_refill h i).1)
    ⟨i, Finset.mem_range.mpr (hl i hi), (rowWork_refill h i).2 hi⟩

/-! ## Scheduling -/

theorem loopInv_restore (h : LoopInv run prompt params r) (hmax : run.maxRounds = none) :
    LoopInv run prompt params (restoreCompletedStates run.eos run.requests r) ∧
      work run (restoreCompletedStates run.eos run.requests r) = work run r := by
  have hst : ∀ i < run.requests, (restoreCompletedStates run.eos run.requests r).states i =
      (r.completedStates i).getD (r.states i) := fun i hi => by simp [restoreCompletedStates, hi]
  have hro : ∀ i < run.requests,
      PearlRequestOk run (prompt i) (params i) ((restoreCompletedStates run.eos run.requests r).states i) := fun i hi => by
    rw [hst i hi]
    cases hc : r.completedStates i with
    | none => exact h.rows i hi
    | some s => exact (h.padded i s hc).2.1
  refine ⟨⟨hro, fun i s hs => ?_, h.completed, h.nodup, h.static, fun hno => absurd hmax hno, fun hc hp => ?_⟩, ?_⟩
  · have hfi : ∀ j, j < run.requests → r.completedStates j = none → finished run.eos (r.states j) = true →
        finished run.eos ((restoreCompletedStates run.eos run.requests r).states j) = true := fun j hj hc hf => by
      rw [hst j hj, hc]; exact hf
    simp only [restoreCompletedStates] at hs
    split at hs
    · rename_i hco
      cases hs
      exact ⟨hco.1, h.rows i hco.1, hco.2.2, hfi i hco.1 hco.2.1 hco.2.2⟩
    · obtain ⟨h1, h2, h3, -⟩ := h.padded i s hs
      exact ⟨h1, h2, h3, by rw [hst i h1, hs]; exact h3⟩
  · have hq := h.queue hc hp
    exact ⟨hq.entered, hq.disjoint, hq.next_le, hq.full, hq.length_le⟩
  · refine Finset.sum_congr rfl fun i hi => ?_
    have hi := Finset.mem_range.mp hi
    unfold rowWork
    rw [hst i hi]
    show (if (r.completedRequestStates i).isSome then 0 else _) = _
    cases hc : r.completedStates i with
    | none => rfl
    | some s =>
      obtain ⟨-, -, h3, h4⟩ := h.padded i s hc
      simp [h3, h4]

structure Scheduled (run : PearlRun) (prompt : Nat → List Int) (params : Nat → NativeSamplingParams) (r r' : PearlRank)
    (active : List Nat) : Prop where
  inv : LoopInv run prompt params r'
  nodup : active.Nodup
  lt : ∀ i ∈ active, i < run.requests
  states : ∀ i < run.requests, r'.states i = resultState run r i ∧ resultState run r' i = r'.states i
  work_le : work run r' ≤ work run r
  progress : run.maxRounds = none → active ≠ [] → work run r' < work run r ∨
    ∃ i ∈ active, r'.completedRequestStates i = none ∧ finished run.eos (r'.states i) = false
  ended : run.maxRounds = none → active = [] → ∀ i < run.requests,
    PearlRequestOk run (prompt i) (params i) (resultState run r' i) ∧ finished run.eos (resultState run r' i) = true
  roundCount : r'.roundCount = r.roundCount

theorem resultState_refill (h : Refilled run r r') (hc : run.continuous = true) (i : Nat) :
    r'.states i = resultState run r i ∧ resultState run r' i = r'.states i := by
  simp only [resultState, hc, if_true]
  refine ⟨by rw [h.states]; rfl, ?_⟩
  rw [h.completed i, h.states]
  by_cases hi : i ∈ finishedRequests run r
  · simp [hi, replayedStates, (mem_finishedRequests hi).1]
  · simp only [hi, if_false, replayedStates]
    cases r.completedRequestStates i <;> rfl

theorem resultState_restore (hc : run.continuous = false) (hp : run.cfg.padFinishedRequests = true)
    (hi : i < run.requests) :
    (restoreCompletedStates run.eos run.requests r).states i = resultState run r i ∧
      resultState run (restoreCompletedStates run.eos run.requests r) i =
        (restoreCompletedStates run.eos run.requests r).states i := by
  simp only [resultState, hc, hp, Bool.false_eq_true, if_false, if_true, restoreCompletedStates, hi, true_and]
  cases hs : r.completedStates i with
  | none => simp; split <;> rfl
  | some s => simp

theorem schedule_continuous (ho : RunOk run params) (h : LoopInv run prompt params r) (hc : run.continuous = true) :
    ∃ r' act, schedule run r = .ok (r', act) ∧ Scheduled run prompt params r r' act := by
  have hb := h.batched hc
  have hre := refilled ho.order_perm hb
  have hinv := h.refill hc hre
  have hwo := work_refill hre fun i hi => hb.finished_lt hi
  rcases schedule_batched ho.order_perm hc hb with ⟨hs, hall⟩ | ⟨padding, hs, hne, hn, hpa, -⟩
  · refine ⟨refill run r, [], hs, hinv, nodup_nil, by simp, fun i _ => resultState_refill hre hc i, hwo.1,
      fun _ h => absurd rfl h, fun _ _ i hi => ?_, hre.roundCount⟩
    obtain ⟨s, hs⟩ := Option.isSome_iff_exists.mp (hall i hi)
    simp only [resultState, hc, if_true, hs, Option.getD_some]
    exact (hinv.completed i s hs).2
  · have hperm := perm_canonicalActiveIndices (refill run r).states ((refill run r).activeRequestIndices ++ padding)
    refine ⟨refill run r, _, hs, hinv, hperm.nodup_iff.mpr hn, fun i hi => ?_,
      fun i _ => resultState_refill hre hc i, hwo.1, fun _ _ => ?_, fun _ hnil => ?_, hre.roundCount⟩
    · rcases mem_append.mp (hperm.mem_iff.mp hi) with hi | hi
      · exact (hre.live i hi).1
      · exact (hpa i hi).1
    · by_cases hnil : finishedRequests run r = []
      · obtain ⟨i, hi⟩ := exists_mem_of_ne_nil _ hne
        refine .inr ⟨i, hperm.mem_iff.mpr (mem_append_left _ hi), (hre.live i hi).2, hre.unfinished hi ?_⟩
        cases hp : run.cfg.enablePreemptiveScheduling with
        | true => exact .inl rfl
        | false => exact .inr ((hre.entered hp i hi).resolve_right fun hne => hne.1 hnil)
      · exact .inl (hwo.2 hnil)
    · exact absurd (append_eq_nil_iff.mp (canonical_eq_nil.mp hnil)).1 hne

theorem schedule_static (h : LoopInv run prompt params r') (hc : run.continuous = false)
    (hst : ∀ i < run.requests, r'.states i = resultState run r i ∧ resultState run r' i = r'.states i)
    (hwo : work run r' ≤ work run r) (hro : r'.roundCount = r.roundCount) :
    let unf := (List.range run.requests).filter fun i => !finished run.eos (r'.states i)
    let act := if unf ≠ [] ∧ run.cfg.padFinishedRequests then List.range run.requests else unf
    Scheduled run prompt params r r' (canonicalActiveIndices r'.states act) := by
  intro unf act
  have hperm := perm_canonicalActiveIndices r'.states act
  have hsub : ∀ i ∈ unf, i ∈ act := fun i hi => by
    simp only [act]
    split
    · exact mem_of_mem_filter hi
    · exact hi
  have hnil : act = [] → unf = [] := fun ha => eq_nil_iff_forall_not_mem.mpr fun i hi => by
    have := hsub i hi
    simp [ha] at this
  refine ⟨h, hperm.nodup_iff.mpr ?_, fun i hi => ?_, hst, hwo, fun _ hne => ?_, fun _ hnil' i hi => ?_, hro⟩
  · simp only [act]
    split
    · exact nodup_range
    · exact nodup_range.filter _
  · have := hperm.mem_iff.mp hi
    simp only [act] at this
    split at this
    · exact mem_range.mp this
    · exact mem_range.mp (mem_of_mem_filter this)
  · have hun : unf ≠ [] := fun hu => hne (canonical_eq_nil.mpr (by simp [act, hu]))
    obtain ⟨i, hi⟩ := exists_mem_of_ne_nil _ hun
    have hf := (mem_filter.mp hi).2
    exact .inr ⟨i, hperm.mem_iff.mpr (hsub i hi), h.static hc i, by simpa using hf⟩
  · have hu := hnil (canonical_eq_nil.mp hnil')
    rw [(hst i hi).2]
    refine ⟨h.rows i hi, ?_⟩
    by_contra hno
    have : i ∈ unf := mem_filter.mpr ⟨mem_range.mpr hi, by simpa using hno⟩
    simp [hu] at this

theorem resultState_static (hc : run.continuous = false) (hpa : run.cfg.padFinishedRequests = true →
    ∀ i, r.completedStates i = none) (i : Nat) : resultState run r i = r.states i := by
  simp only [resultState, hc, Bool.false_eq_true, if_false]
  split
  · rename_i hp
    rw [hpa hp i]; rfl
  · rfl

theorem schedule_ok (ho : RunOk run params) (h : LoopInv run prompt params r) :
    ∃ r' act, schedule run r = .ok (r', act) ∧ Scheduled run prompt params r r' act := by
  cases hc : run.continuous with
  | true => exact schedule_continuous ho h hc
  | false =>
    unfold schedule
    simp only [hc, Bool.false_eq_true, if_false, false_and, Bool.not_false, and_true]
    cases hm : run.maxRounds with
    | none =>
      simp only
      split
      · rename_i hp
        exact ⟨_, _, rfl, schedule_static (loopInv_restore h hm).1 hc (fun i hi => resultState_restore hc hp hi)
          (loopInv_restore h hm).2.le rfl⟩
      rename_i hp
      have hr := resultState_static (r := r) hc fun hno => absurd hno hp
      exact ⟨_, _, rfl, schedule_static h hc (fun i _ => ⟨(hr i).symm, hr i⟩) (le_refl _) rfl⟩
    | some m =>
      have hr := resultState_static (r := r) hc fun _ => h.bounded (by simp [hm])
      refine ⟨_, _, rfl, h, ?_, ?_, fun i _ => ⟨(hr i).symm, hr i⟩, le_refl _, fun hno => ?_, fun hno => ?_, rfl⟩
      · rw [(perm_canonicalActiveIndices r.states _).nodup_iff]
        split
        · exact nodup_range
        · exact nodup_nil
      · intro i hi
        have := (perm_canonicalActiveIndices r.states _).mem_iff.mp hi
        split at this
        · exact mem_range.mp this
        · cases this
      · simp [hm] at hno
      · simp [hm] at hno

/-! ## The round -/

structure RoundOk (run : PearlRun) (r : PearlRank) (active : List Nat) (v : Nat → Nat × Int) (width : Nat → Nat)
    (r' : PearlRank) (forwards : RoundForwards) : Prop where
  verdict : ∀ i ∈ active, RowVerdictOk run.models run.gamma (r.states i)
    (draftWindow (run.models.draft r.roundCount) r.states i run.gamma) (v i)
  width_le : ∀ i ∈ active, (r.states i).windowSize run.gamma ≤ width i ∧ width i ≤ run.gamma
  rank : r' = { r.after run v (fun i => draftWindow (run.models.draft r.roundCount) r.states i run.gamma) active with
    roundCount := r.roundCount + 1 }
  forwards : forwards = ⟨draftForwards r.states (active.map fun i => (i, run.gamma))
      (active.map fun i => draftWindow (run.models.draft r.roundCount) r.states i run.gamma),
    active.flatMap fun i => targetRows i (r.states i) ((r.states i).windowSize run.gamma) (width i)⟩

section
variable {fs : RoundForwards}

section
variable (h : RoundOk run r act v width r' fs)
include h

theorem RoundOk.state_of_mem (hi : i ∈ act) :
    r'.states i = (r.states i).verified run.gamma (v i).1 (decodeCorrection (v i).2)
      (draftWindow (run.models.draft r.roundCount) r.states i run.gamma) := by
  rw [h.rank]; exact patch_of_mem hi _ _

theorem RoundOk.state_of_notMem (hi : i ∉ act) : r'.states i = r.states i := by
  rw [h.rank]; exact patch_of_notMem hi _ _

theorem RoundOk.completedStates :
    r'.completedStates = r.completedStates ∧ r'.completedRequestStates = r.completedRequestStates := by
  rw [h.rank]; exact ⟨rfl, rfl⟩

theorem RoundOk.verdictOk (hg : 0 < run.gamma)
    (hi : i ∈ act) : VerdictOk (r.states i) run.gamma (v i).1 (decodeCorrection (v i).2)
      (draftWindow (run.models.draft r.roundCount) r.states i run.gamma) :=
  (h.verdict i hi).verdictOk (by rw [length_draftWindow]; exact hg) (length_draftWindow _ _).le

variable (ho : RunOk run params) (hi : LoopInv run prompt params r) (hlt : ∀ i ∈ act, i < run.requests)
include ho hi hlt

theorem RoundOk.finished (hf : finished run.eos (r.states i) = true) : finished run.eos (r'.states i) = true := by
  by_cases hm : i ∈ act
  · rw [h.state_of_mem hm]
    exact finished_of_prefix (committedCompletion_verified (hi.rows i (hlt i hm)).toRowOk (h.verdictOk ho.gamma_pos hm))
      rfl rfl hf
  · rw [h.state_of_notMem hm]; exact hf

theorem RoundOk.inv : LoopInv run prompt params r' := by
  have hr := h.rank
  subst hr
  refine ⟨fun i hr => ?_, fun i s hs => ?_, hi.completed, hi.nodup, hi.static, hi.bounded, fun hc hp => ?_⟩
  · by_cases hm : i ∈ act
    · rw [h.state_of_mem hm]
      exact (hi.rows i hr).verified ho.gamma_pos (length_draftWindow _ _) draftWindow_nonneg (h.verdict i hm)
    · rw [h.state_of_notMem hm]; exact hi.rows i hr
  · obtain ⟨h1, h2, h3, h4⟩ := hi.padded i s hs
    exact ⟨h1, h2, h3, h.finished ho hi hlt h4⟩
  · have hq := hi.queue hc hp
    exact ⟨hq.entered, hq.disjoint, hq.next_le, hq.full, hq.length_le⟩

theorem RoundOk.rowWork (i : Nat) :
    rowWork run r' i ≤ rowWork run r i ∧ (i ∈ act → r.completedRequestStates i = none →
      VllmAscend.finished run.eos (r.states i) = false → rowWork run r' i < rowWork run r i) := by
  unfold VllmAscend.rowWork
  rw [h.completedStates.2]
  by_cases hm : i ∈ act
  · have hrow := (hi.rows i (hlt i hm)).toRowOk
    have hok := h.verdictOk ho.gamma_pos hm
    have hlen := length_committedCompletion hrow
    have hlen' := length_committedCompletion (hrow.verified hok)
    have hgr : (r.states i).committedLength < (r'.states i).committedLength := by
      rw [h.state_of_mem hm]
      exact committedLength_lt_verified hrow
    have hpr := hrow.promptLt
    have hmax : (r'.states i).maxTokens = (r.states i).maxTokens := by rw [h.state_of_mem hm]; rfl
    have hp : (r'.states i).promptLength = (r.states i).promptLength := by rw [h.state_of_mem hm]; rfl
    rw [← h.state_of_mem hm] at hlen'
    cases hs : (r.completedRequestStates i).isSome with
    | true => simp [Option.isSome_iff_ne_none.mp hs]
    | false =>
      cases hf : VllmAscend.finished run.eos (r.states i) with
      | true => simp [h.finished ho hi hlt hf]
      | false =>
        have hlt' : (r.states i).committedCompletionTokenIds.length < (r.states i).maxTokens := by
          simp only [VllmAscend.finished, Bool.or_eq_false_iff, decide_eq_false_iff_not] at hf
          omega
        simp only [Bool.false_eq_true, if_false, hmax, hlen', hp]
        split <;> omega
  · rw [h.state_of_notMem hm]
    exact ⟨le_refl _, fun hno => absurd hno hm⟩

theorem RoundOk.work :
    work run r' ≤ work run r ∧ ((∃ i ∈ act, r.completedRequestStates i = none ∧
      VllmAscend.finished run.eos (r.states i) = false) → work run r' < work run r) := by
  refine ⟨Finset.sum_le_sum fun i _ => (h.rowWork ho hi hlt i).1, fun ⟨i, hm, hn, hf⟩ => ?_⟩
  exact Finset.sum_lt_sum (fun i _ => (h.rowWork ho hi hlt i).1)
    ⟨i, Finset.mem_range.mpr (hlt i hm), (h.rowWork ho hi hlt i).2 hm hn hf⟩

end

end

/-! ## An iteration -/

def Iterated (run : PearlRun) (prompt : Nat → List Int) (params : Nat → NativeSamplingParams) (r r' : PearlRank)
    (forwards : RoundForwards) : Prop :=
  ∃ scheduled active v width, Scheduled run prompt params r scheduled active ∧
    RoundOk run scheduled active v width r' forwards

theorem pearlIteration_ok (ho : RunOk run params) (h : LoopInv run prompt params r) :
    (∃ r', pearlIteration run (r, r) = .ok (.stop (r', r')) ∧ Scheduled run prompt params r r' []) ∨
    ∃ r' fs, pearlIteration run (r, r) = .ok (.next (r', r') fs) ∧ Iterated run prompt params r r' fs ∧
      LoopInv run prompt params r' ∧ (run.maxRounds = none → work run r' < work run r) := by
  obtain ⟨r1, act, hsc, hs⟩ := schedule_ok ho h
  by_cases hnil : act = []
  · subst hnil
    refine .inl ⟨r1, ?_, hs⟩
    simp [pearlIteration, hsc, Except.mapError]
  have hte : (∀ i ∈ act, (r1.states i).temperature = 0) ∨ ∀ i ∈ act, 0 < (r1.states i).temperature := by
    rcases ho.temperature with h0 | hp
    · exact .inl fun i hi => (hs.inv.rows i (hs.lt i hi)).temperature.trans (h0 i (hs.lt i hi))
    · exact .inr fun i hi => by
        rw [(hs.inv.rows i (hs.lt i hi)).temperature]; exact hp i (hs.lt i hi)
  obtain ⟨v, width, hv, hw, hro⟩ := pearlRound_ok ho.gamma_pos hs.nodup hnil
    (fun i hi => ⟨(hs.inv.rows i (hs.lt i hi)).toRowOk, (hs.inv.rows i (hs.lt i hi)).pending⟩) hte
  have hr := RoundOk.mk hv hw rfl rfl
  refine .inr ⟨_, _, ?_, ⟨r1, act, v, width, hs, hr⟩, hr.inv ho hs.inv hs.lt, fun hmax => ?_⟩
  · simp only [pearlIteration, hsc, Except.mapError, ok_bind, pure_eq_ok, hnil, and_self, or_self, if_false, hro]
  · obtain ⟨hle, hlt⟩ := hr.work ho hs.inv hs.lt
    rcases hs.progress hmax hnil with hw | hw
    · exact lt_of_le_of_lt hle hw
    · exact lt_of_lt_of_le (hlt hw) hs.work_le

theorem loop_pearlIteration_ok (ho : RunOk run params) (h : LoopInv run prompt params r) (hm : run.maxRounds = none) (hf : work run r < fuel) :
    ∃ d t, loop (pearlIteration run) fuel (r, r) = .ok (some (d, t)) ∧ ∀ i < run.requests,
      PearlRequestOk run (prompt i) (params i) (resultState run t i) ∧ finished run.eos (resultState run t i) = true := by
  obtain ⟨⟨d, t⟩, hl, hend⟩ := loop_total (pearlIteration run)
    (P := fun rks => ∃ r, rks = (r, r) ∧ LoopInv run prompt params r)
    (Q := fun rks => ∀ i < run.requests,
      PearlRequestOk run (prompt i) (params i) (resultState run rks.2 i) ∧ finished run.eos (resultState run rks.2 i) = true)
    (fun rks => work run rks.1) (by
      rintro _ ⟨r, rfl, hi⟩
      rcases pearlIteration_ok ho hi with ⟨r', he, hs⟩ | ⟨r', fs, he, -, hi', hlt⟩
      · exact .inl ⟨_, he, hs.ended hm rfl⟩
      · exact .inr ⟨_, _, he, ⟨r', rfl, hi'⟩, hlt hm⟩) fuel (r, r) ⟨r, rfl, h⟩ hf
  exact ⟨d, t, hl, hend⟩

end

end VllmAscend
