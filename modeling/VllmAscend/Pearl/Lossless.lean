import Mathlib.Order.Filter.AtTopBot.Basic
import Mathlib.Order.Filter.Finite
import VllmAscend.Pearl.LoopSound

/-!
# PEARL decoding is lossless

At temperature zero both entry points return the greedy continuation of each
prompt under the target model, cut by the request's own limits.
-/

namespace VllmAscend

open Filter (atTop eventually_gt_atTop eventually_all_finite)
open Python Greedy Rows Run PearlPipelineState
open List hiding getElem?_eq_some_iff

variable {prs : List (List Nat)} {arg : SamplingArg} {pa : List NativeSamplingParams}

/-! ## The loop from the prefill to the end -/

theorem runOk_of_admitted (hg : 0 < run.gamma) (hn : run.requests = prs.length)
    (ho : ∀ st gains l, (run.order st gains l).Perm l)
    (h : Admitted run.cfg run.gamma prs arg run.maxRounds pa) : RunOk run (paramsOf pa) := by
  have hm : ∀ i < run.requests, paramsOf pa i ∈ pa := fun i hi => by
    obtain ⟨-, p, -, hp, -⟩ := getElem?_zip_of_lt h.length (hn ▸ hi)
    rw [paramsOf_eq hp]
    exact mem_of_getElem? hp
  refine ⟨hg, ?_, ho, h.temperature.imp (fun h0 i hi => h0 _ (hm i hi)) fun hp i hi => hp _ (hm i hi)⟩
  rw [hn]; exact length_pos_of_ne_nil h.prompts_ne

theorem loopInv_init (hn : run.requests = prs.length)
    (h : Admitted run.cfg run.gamma prs arg run.maxRounds pa) :
    LoopInv run (promptOf prs) (paramsOf pa) (run.init (prefilled run.models prs pa)) := by
  refine ⟨fun i hi => ?_, fun _ _ hs => by simp [PearlRun.init] at hs, fun _ _ hs => by simp [PearlRun.init] at hs,
    nodup_range, fun _ _ => rfl, fun _ _ => rfl, fun _ _ => ?_⟩
  · obtain ⟨hok, hp⟩ := requestOk_prefilled run.models run.gamma h (hn ▸ hi)
    exact ⟨hok, fun hno => by simp [PearlRun.init, hp] at hno⟩
  · refine ⟨fun i => ?_, fun _ _ => rfl, initialBatchSize_le, fun _ => length_range, length_range.le⟩
    simp [PearlRun.init]

theorem generateBatch_greedy (hg : 0 < run.gamma) (hn : run.requests = prs.length) (hmax : run.maxRounds = none)
    (ho : ∀ st gains l, (run.order st gains l).Perm l)
    (hpa : admitBatch run.cfg run.gamma prs arg run.maxRounds = .ok pa)
    (h0 : ∀ p ∈ pa, p.temperature = 0) :
    ∀ᶠ fuel in atTop, generateBatch run prs arg fuel =
      .ok (some (zipWith (greedyCompletion run.models run.eos) prs pa)) := by
  have had := admitBatch_ok hpa
  filter_upwards [eventually_gt_atTop _] with fuel hfu
  obtain ⟨d, t, hloop, hend⟩ := loop_pearlIteration_ok (runOk_of_admitted hg hn ho had) (loopInv_init hn had) hmax hfu
  unfold generateBatch
  simp only [hpa, Except.mapError, ok_bind, pure_eq_ok, hloop, Option.map_some]
  rw [hn, map_range_eq_zipWith had.length fun i pr p hpr hp => ?_]
  obtain ⟨hi, -⟩ := getElem?_eq_some_iff.mp hpr
  obtain ⟨hok, hf⟩ := hend i (hn ▸ hi)
  rw [promptOf_eq hpr, paramsOf_eq hp] at hok
  rw [completionTokenIds, hmax, hok.toRequestOk.completion (h0 p (mem_of_getElem? hp)) hf]

/-! ## The autoregressive loop -/

section ar
variable {models : PearlModels}

structure ArOk (models : PearlModels) (prompt : List Int) (params : NativeSamplingParams) (s : PearlPipelineState) :
    Prop where
  continues : Continues (fun p => (models.target p : Int)) prompt s.committed
  length : s.committedLength = s.tokenIds.length
  promptLength : s.promptLength = prompt.length
  temperature : s.temperature = 0
  maxTokens : s.maxTokens = params.maxTokens
  ignoreEos : s.ignoreEos = params.ignoreEos

variable {s : PearlPipelineState} {st : States}

theorem ArOk.commitToken
    (h : ArOk ms pr p s) : ArOk ms pr p (s.commitToken (ms.target s.tokenIds)) := by
  have hc : s.committed = s.tokenIds := take_of_length_le h.length.ge
  refine ⟨?_, by simp [PearlPipelineState.commitToken, h.length], h.promptLength, h.temperature, h.maxTokens, h.ignoreEos⟩
  rw [committed, take_of_length_le (by simp [PearlPipelineState.commitToken, h.length])]
  have := h.continues
  rw [hc] at this
  exact this.snoc

theorem length_completion_commitToken (h : s.committedLength = s.tokenIds.length)
    (hp : s.promptLength ≤ s.committedLength) (token : Int) :
    (s.commitToken token).committedCompletionTokenIds.length = s.committedCompletionTokenIds.length + 1 := by
  simp only [committedCompletionTokenIds, commitToken, length_drop, length_take, length_append, length_singleton]
  omega

def arWork (requests : Nat) (states : States) : Nat :=
  ∑ i ∈ Finset.range requests, ((states i).maxTokens - (states i).committedCompletionTokenIds.length)

theorem targetArStep_eq (step : Nat) (hn : act.Nodup)
    (h0 : ∀ i ∈ act, (st i).temperature = 0) : targetArStep ms step act st =
      patch act (fun i => (st i).commitToken (ms.target (st i).tokenIds)) st := by
  unfold targetArStep
  have := foldl_closed (fun st i => Function.update st i ((st i).commitToken
      (if (st i).temperature = 0 then (ms.target (st i).tokenIds : Int) else ms.sample step i)))
    (fun done => patch done (fun i => (st i).commitToken _) st) act [] hn
    fun done i hi hm => by
      simp only [patch_of_notMem hi, h0 i hm, if_true]
      exact update_patch done i _ st
  simpa using this

theorem targetArIteration_ok {pr : Nat → List Int} {pa : Nat → NativeSamplingParams} (h : ∀ i < n, ArOk ms (pr i) (pa i) (st i)) :
    (targetArIteration ms eos n (step, st) = .ok (.stop st) ∧ ∀ i < n, finished eos (st i) = true) ∨
    ∃ states', targetArIteration ms eos n (step, st) = .ok (.next (step + 1, states') ()) ∧
      (∀ i < n, ArOk ms (pr i) (pa i) (states' i)) ∧ arWork n states' < arWork n st := by
  unfold targetArIteration
  set act := (range n).filter fun i => !finished eos (st i) with hact
  have hmem : ∀ i ∈ act, i < n ∧ finished eos (st i) = false := fun i hi => by simpa [hact] using hi
  by_cases hnil : act = []
  · rw [if_pos hnil]
    refine .inl ⟨rfl, fun i hi => ?_⟩
    by_contra hno
    have : i ∈ act := mem_filter.mpr ⟨mem_range.mpr hi, by simpa using hno⟩
    simp [hnil] at this
  · rw [if_neg hnil, targetArStep_eq step (nodup_range.filter _) fun i hi => (h i (hmem i hi).1).temperature]
    refine .inr ⟨_, rfl, fun i hi => ?_, ?_⟩
    · by_cases hm : i ∈ act
      · rw [patch_of_mem hm]; exact (h i hi).commitToken
      · rw [patch_of_notMem hm]; exact h i hi
    · have hlt : ∀ i ∈ act, (st i).maxTokens - ((st i).commitToken
          (ms.target (st i).tokenIds)).committedCompletionTokenIds.length <
          (st i).maxTokens - (st i).committedCompletionTokenIds.length := fun i hi => by
        obtain ⟨hin, hf⟩ := hmem i hi
        have hok := h i hin
        have hle := hok.continues.1
        rw [committed, length_take, ← hok.promptLength] at hle
        rw [length_completion_commitToken hok.length (by omega)]
        simp only [finished, Bool.or_eq_false_iff, decide_eq_false_iff_not] at hf
        omega
      obtain ⟨i, hi⟩ := exists_mem_of_ne_nil _ hnil
      refine Finset.sum_lt_sum (fun j _ => ?_) ⟨i, Finset.mem_range.mpr (hmem i hi).1, ?_⟩
      · by_cases hm : j ∈ act
        · rw [patch_of_mem hm]; exact (hlt j hm).le
        · rw [patch_of_notMem hm]
      · rw [patch_of_mem hi]; exact hlt i hi

theorem admitTargetArBatch_ok (h : admitTargetArBatch cfg prs arg = .ok pa) :
    pa.length = prs.length ∧ arg.toList prs.length cfg = pa := by
  simp only [admitTargetArBatch, ite_throw_bind, ite_throw, bind_ok, forM_ok] at h
  obtain ⟨-, -, ps, hn, -, -, heq⟩ := h
  cases heq
  exact ⟨(normalizeSamplingParams_ok hn).1, normalizeSamplingParams_eq hn⟩

theorem generateTargetArBatch_greedy (hpa : admitTargetArBatch cfg prs arg = .ok pa)
    (h0 : ∀ p ∈ pa, p.temperature = 0) :
    ∀ᶠ fuel in atTop, generateTargetArBatch cfg ms eos prs arg fuel =
      .ok (some (zipWith (greedyCompletion ms eos) prs pa)) := by
  have hlen := (admitTargetArBatch_ok hpa).1
  have hii : ∀ i < prs.length, ArOk ms (promptOf prs i) (paramsOf pa i)
      (prefilled ms prs pa i) := fun i hi => by
    obtain ⟨pr, p, hpr, hp, -⟩ := getElem?_zip_of_lt hlen hi
    rw [promptOf_eq hpr, paramsOf_eq hp]
    simp only [prefilled, hpr, hp]
    have hte := h0 p (mem_of_getElem? hp)
    refine ⟨continues_iff.mpr ⟨1, ?_⟩, by simp [commitToken, new], rfl, hte, rfl, rfl⟩
    rw [committed, take_of_length_le (by simp [commitToken, new])]
    simp [commitToken, new, firstToken, hte, greedy]
  filter_upwards [eventually_gt_atTop _] with fuel hfu
  obtain ⟨st, hloop, hend⟩ := loop_total (targetArIteration ms eos prs.length)
    (P := fun s => ∀ i < prs.length, ArOk ms (promptOf prs i) (paramsOf pa i) (s.2 i))
    (Q := fun st => ∀ i < prs.length, ArOk ms (promptOf prs i) (paramsOf pa i) (st i) ∧
      finished eos (st i) = true)
    (fun s => arWork prs.length s.2) (by
      rintro ⟨step, st⟩ hs
      rcases targetArIteration_ok hs with ⟨he, hf⟩ | ⟨states', he, hs', hlt⟩
      · exact .inl ⟨_, he, fun i hi => ⟨hs i hi, hf i hi⟩⟩
      · exact .inr ⟨_, _, he, hs', hlt⟩) fuel (1, prefilled ms prs pa) hii hfu
  unfold generateTargetArBatch
  simp only [hpa, Except.mapError, ok_bind, pure_eq_ok, hloop, Option.map_some]
  rw [map_range_eq_zipWith hlen fun i pr p hpr hp => ?_]
  obtain ⟨hi, -⟩ := getElem?_eq_some_iff.mp hpr
  obtain ⟨hok, hf⟩ := hend i hi
  rw [promptOf_eq hpr, paramsOf_eq hp] at hok
  rw [greedyCompletion, truncateCompletion_finished hok.continues hok.promptLength hf, hok.maxTokens, hok.ignoreEos]

theorem admitTargetArBatch_single (hne : pr ≠ [])
    (hl : pr.length ≤ cfg.maxNumBatchedTokens) (hf : pr.length + p.maxTokens ≤ cfg.maxModelLen)
    (h0 : p.temperature = 0) : admitTargetArBatch cfg [pr] (.shared p) = .ok [p] := by
  have hs := cfg.maxNumSeqs_pos
  have hn : normalizeSamplingParams [pr].length (.shared p) cfg = .ok [p] := by
    simp [normalizeSamplingParams, SamplingArg.toList, h0]
  simp only [admitTargetArBatch, ite_throw_bind, ite_throw, bind_ok, forM_ok]
  refine ⟨by simp; omega, by simpa using hl, [p], hn, (), fun q hq => ?_, rfl⟩
  cases mem_singleton.mp hq
  exact ⟨hne, by simpa using hf, rfl⟩

end ar

/-! ## The two loops agree -/

theorem preemptiveOrder_perm (st : States) (gains : Nat → List Nat) (l : List Nat) :
    (preemptiveOrder st gains l).Perm l := perm_insertionSort _ _

/-- Every request gets the completion that the autoregressive loop gives it. -/
theorem generateBatch_lossless (run : PearlRun) (prompts : List (List Nat)) (arg : SamplingArg)
    {params : List NativeSamplingParams} (hg : 0 < run.gamma) (hn : run.requests = prompts.length)
    (hmax : run.maxRounds = none) (ho : ∀ states gains l, (run.order states gains l).Perm l)
    (hparams : admitBatch run.cfg run.gamma prompts arg run.maxRounds = .ok params)
    (h0 : ∀ p ∈ params, p.temperature = 0) :
    ∀ᶠ fuel in atTop,
      generateBatch run prompts arg fuel =
        .ok (some (List.zipWith (greedyCompletion run.models run.eos) prompts params)) ∧
      (∀ prompt p, (prompt, p) ∈ prompts.zip params →
        generateTargetArBatch run.cfg run.models run.eos [prompt] (.shared p) fuel =
          .ok (some [greedyCompletion run.models run.eos prompt p])) ∧
      ∀ params', admitTargetArBatch run.cfg prompts arg = .ok params' →
        generateTargetArBatch run.cfg run.models run.eos prompts arg fuel = generateBatch run prompts arg fuel := by
  have had := admitBatch_ok hparams
  have hpe := generateBatch_greedy hg hn hmax ho hparams h0
  have hsi : ∀ᶠ fuel in atTop, ∀ q ∈ {q | q ∈ prompts.zip params},
      generateTargetArBatch run.cfg run.models run.eos [q.1] (.shared q.2) fuel =
        .ok (some [greedyCompletion run.models run.eos q.1 q.2]) := by
    rw [eventually_all_finite (finite_toSet _)]
    rintro ⟨prompt, p⟩ hq
    obtain ⟨hpr, hp⟩ := of_mem_zip hq
    have hfi := had.fits hmax _ hq
    exact generateTargetArBatch_greedy (admitTargetArBatch_single (had.prompt_ne _ hq) (had.batched _ hpr)
      (Nat.le_of_add_right_le hfi) (h0 p hp)) (by simpa using h0 p hp)
  have hba : ∀ᶠ fuel in atTop, ∀ params', admitTargetArBatch run.cfg prompts arg = .ok params' →
      generateTargetArBatch run.cfg run.models run.eos prompts arg fuel =
        .ok (some (List.zipWith (greedyCompletion run.models run.eos) prompts params)) := by
    by_cases hex : ∃ params', admitTargetArBatch run.cfg prompts arg = .ok params'
    · obtain ⟨params', hp⟩ := hex
      have heq : params' = params := (admitTargetArBatch_ok hp).2.symm.trans had.toList
      subst heq
      filter_upwards [generateTargetArBatch_greedy hp h0] with fuel hfu _ _ using hfu
    · exact .of_forall fun _ params' hp => absurd ⟨params', hp⟩ hex
  filter_upwards [hpe, hsi, hba] with fuel h₁ h₂ h₃
  exact ⟨h₁, fun prompt p hq => h₂ (prompt, p) hq, fun params' hp => (h₃ params' hp).trans h₁.symm⟩

def preemptiveRun : PearlRun where
  cfg := { maxModelLen := 32, maxTokens := 6, maxNumSeqs := 2, maxNumQueuedSeqs := some 3, enableContinuousBatching := true,
           enablePreemptiveScheduling := true, maxModelLen_pos := by decide, maxTokens_pos := by decide,
           maxNumSeqs_pos := twoRows_pos, prefillChunkSize_ok := noChunk_ok, maxNumQueuedSeqs_ok := queueOfThree_ok,
           maxNumBatchedTokens_ok := by decide, buckets_pos := defaultBuckets_pos, postCounts_ok := noPostCounts_ok,
           preemptive_ok := by decide }
  gamma := 3
  eos := {4}
  models := { target := fun p => p.length % 6, draft := fun _ _ p => if p.length % 2 = 0 then 0 else p.length % 6,
              sample := fun _ _ => 0, accept := fun _ _ => true, correction := fun _ _ => 0 }
  requests := 3
  maxRounds := none
  order := preemptiveOrder

theorem generateBatch_lossless_preemptiveRun : ∀ᶠ fuel in atTop,
    generateBatch preemptiveRun [[7], [8, 9], [1, 2, 3, 4, 5]] .default fuel =
      .ok (some [[1, 2, 3, 4], [2, 3, 4], [5, 0, 1, 2, 3, 4]]) := by
  filter_upwards [generateBatch_lossless preemptiveRun [[7], [8, 9], [1, 2, 3, 4, 5]] .default (by decide) rfl rfl
    preemptiveOrder_perm rfl (by simp [SamplingArg.toList])] with fuel h
  exact h.1.trans (by decide)

end VllmAscend
