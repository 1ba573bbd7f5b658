import VllmAscend.Rhythm.LoopSound
import VllmAscend.Rhythm.ShaperSound

/-!
# Whether the groups plan alike

Each rank shapes its budgets from its own replica. Controller, accounting and
batch are the same on both groups; the context length is not, because the draft
replica also counts the tokens in flight.
-/

namespace VllmAscend

open Python Rows Run PearlPipelineState SpecRhythmBudgetShaper

/-! ## The policy of the repository -/

section
variable (cfg : SpecRhythmConfig gamma)

theorem policy_sound : cfg.policy.Sound gamma := by
  intro planId nm eg st wait contextLen bs budgets hn he hs
  have hsh := shapeable_of_ok hn he rfl hs
  have hok := allocated_ok hn he hsh wait
  rw [SpecRhythmConfig.policy, shape_ok hn he rfl hsh] at hs
  cases hs
  refine ⟨hok.normal, hok.eagerNodup, hok.eager, fun item hi => ?_⟩
  obtain ⟨hp, hc⟩ := hok.budget item hi
  exact ⟨hp, hc.trans (cap_le _)⟩

theorem policy_congr {contextLen contextLen' bs : Nat}
    (h : cfg.shaper.verificationRoof bs contextLen = cfg.shaper.verificationRoof bs contextLen')
    (planId : Nat) (nm eg : List Nat) (st : Nat → Option SpecRhythmRuntimeState) (wait : ℚ) :
    cfg.policy planId nm eg st wait contextLen bs =
      cfg.policy planId nm eg st wait contextLen' bs := by
  simp only [SpecRhythmConfig.policy, shape, Option.getD_some, h]

end

/-! ## Agreement -/

def SameRoof (run : RhythmRun) (d t : RhythmRank) : Prop :=
  run.rhythm.shaper.verificationRoof t.activeIndices.length (contextLen d) =
    run.rhythm.shaper.verificationRoof t.activeIndices.length (contextLen t)

theorem shapedBudgets_congr (hs : run.shape = run.rhythm.policy) (h : SameRoof run (t.asDraft draft completed) t)
    (c : SpecRhythmPipelineController) (plan : SpecRhythmExecutionPlan) :
    shapedBudgets run (t.asDraft draft completed) c plan = shapedBudgets run t c plan := by
  unfold shapedBudgets
  rw [hs]
  exact policy_congr run.rhythm h _ _ _ _ _

theorem planCycle_agree (run : RhythmRun) (prompts : List (List Nat)) (arg : SamplingArg)
    {params : List NativeSamplingParams} (h : Launched run prompts arg params) (hshape : run.shape = run.rhythm.policy)
    {events : List RoundForwards} {d t : RhythmRank}
    (hreach : Reach (rhythmIteration run) (run.init (prefilled run.models prompts params),
      run.init (prefilled run.models prompts params)) events (d, t))
    (hne : t.activeIndices ≠ []) (hroof : SameRoof run d t) : planCycle run d = planCycle run t := by
  have hp : run.shape.Sound run.gamma := hshape ▸ policy_sound run.rhythm
  obtain ⟨windows, draft, completed, hd, hb⟩ := inStep_of_reach h.rhythmOk hp h.prefilled hreach
  simp only at hd hb
  subst hd
  exact planCycle_congr hb.toFlight hb.settled hne hp
    fun plan controller _ _ => shapedBudgets_congr hshape hroof controller plan

/-! ## Two long requests -/

def longConfig : PearlConfig where
  maxModelLen := 1024
  maxTokens := 8
  maxNumSeqs := 2
  maxModelLen_pos := by decide
  maxTokens_pos := defaultBuckets_pos
  maxNumSeqs_pos := twoRows_pos
  prefillChunkSize_ok := noChunk_ok
  maxNumQueuedSeqs_ok := by simp
  maxNumBatchedTokens_ok := by decide
  buckets_pos := defaultBuckets_pos
  postCounts_ok := noPostCounts_ok
  preemptive_ok := by decide

def longPrompts : List (List Nat) := [List.replicate 510 1, List.replicate 510 1]

def longParams : List NativeSamplingParams := SamplingArg.default.toList 2 longConfig

def longRun (rhythm : SpecRhythmConfig 4) : RhythmRun where
  cfg := longConfig
  gamma := 4
  rhythm := rhythm
  eos := ∅
  models := { target := fun _ => 1, draft := fun _ _ _ => 1, sample := fun _ _ => 0, accept := fun _ _ => true,
              correction := fun _ _ => 0 }
  requests := 2
  maxRounds := none
  params := paramsOf longParams
  shape := rhythm.policy
  confidence := fun _ _ => 1
  clock := fun _ => 0
  elapsed := fun _ => 0

theorem admitBatch_long : admitBatch longConfig 4 longPrompts .default none = .ok longParams := by
  simp only [admitBatch, ite_throw_bind, ite_throw, bind_ok, forM_ok]
  refine ⟨by decide +kernel, by decide +kernel, by decide +kernel, longParams, rfl, by decide, (), ?_, by decide +kernel,
    rfl⟩
  intro p hp
  obtain ⟨hpr, hpa⟩ := List.of_mem_zip hp
  have hl : ∀ prompt ∈ longPrompts, prompt.length = 510 := by decide +kernel
  have ht : ∀ q ∈ longParams, q.maxTokens = 8 := by decide +kernel
  rw [hl _ hpr, ht _ hpa]
  exact ⟨List.ne_nil_of_length_pos (by rw [hl _ hpr]; decide), by decide, rfl⟩

theorem launched_longRun (rhythm : SpecRhythmConfig 4) : Launched (longRun rhythm) longPrompts .default longParams :=
  ⟨by simp [longRun], rfl, rfl, admitBatch_long, fun _ _ => ⟨zero_le_one, le_refl 1⟩⟩

def longStart (rhythm : SpecRhythmConfig 4) : RhythmRank :=
  (longRun rhythm).init (prefilled (longRun rhythm).models longPrompts longParams)

def unmeasured : SpecRhythmConfig 4 where
  minGamma_ok := by decide
  maxEagerTokens_le := by decide

def measuredRoofline : RooflineKey → Option Nat
  | .bucket 2 1 => some 2
  | .bucket 2 2 => some 8
  | _ => none

def measured : SpecRhythmConfig 4 where
  roofline := measuredRoofline
  minGamma_ok := by decide
  maxEagerTokens_le := by decide
  roofline_pos := by
    intro key n h
    unfold measuredRoofline at h
    split at h <;> cases h <;> decide

def plannedBudgets (run : RhythmRun) (r : RhythmRank) : Option (List (Nat × Nat)) :=
  (planCycle run r).toOption.map fun plan => plan.work.map fun row => (row.request, row.budget)

theorem planCycle_agree_unmeasured : ∃ d t e,
    Reach (rhythmIteration (longRun unmeasured)) (longStart unmeasured, longStart unmeasured) [e] (d, t) ∧
      contextLen d = 515 ∧ contextLen t = 511 ∧ planCycle (longRun unmeasured) d = planCycle (longRun unmeasured) t := by
  obtain ⟨⟨d, t⟩, e, hr, hf⟩ := Reach.start.exists_nextOf
    (show (nextOf (rhythmIteration (longRun unmeasured)) (longStart unmeasured, longStart unmeasured)).any (fun p =>
      contextLen p.1.1 = 515 ∧ contextLen p.1.2 = 511 ∧ p.1.2.activeIndices = [0, 1]) = true by decide +kernel)
  simp only [decide_eq_true_eq] at hf
  obtain ⟨hd, ht, ha⟩ := hf
  refine ⟨d, t, e, hr, hd, ht, ?_⟩
  refine planCycle_agree _ longPrompts .default (launched_longRun unmeasured) rfl hr ?_ ?_
  · rw [ha]; decide
  · rw [SameRoof, hd, ht, ha]; decide

/-- With a roofline that grows with the context, one group plans four tokens where the other expects two. -/
theorem planCycle_disagree : ∃ d t e,
    Reach (rhythmIteration (longRun measured)) (longStart measured, longStart measured) [e] (d, t) ∧
      plannedBudgets (longRun measured) d = some [(1, 4)] ∧ plannedBudgets (longRun measured) t = some [(1, 2)] ∧
      rhythmIteration (longRun measured) (d, t) = .error (.raised
        (.runtimeError "SpecRhythm received a misrouted or stale HCCL mailbox envelope.")) := by
  obtain ⟨⟨d, t⟩, e, hr, hf⟩ := Reach.start.exists_nextOf
    (show (nextOf (rhythmIteration (longRun measured)) (longStart measured, longStart measured)).any (fun p =>
      plannedBudgets (longRun measured) p.1.1 = some [(1, 4)] ∧ plannedBudgets (longRun measured) p.1.2 = some [(1, 2)] ∧
      raisedBy (rhythmIteration (longRun measured) p.1) = some (.raised
        (.runtimeError "SpecRhythm received a misrouted or stale HCCL mailbox envelope."))) = true by decide +kernel)
  simp only [decide_eq_true_eq] at hf
  exact ⟨d, t, e, hr, hf.1, hf.2.1, eq_error_of_raisedBy hf.2.2⟩

end VllmAscend
