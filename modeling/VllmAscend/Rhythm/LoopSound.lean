import Mathlib.Algebra.Order.BigOperators.Group.Finset
import VllmAscend.Rhythm.CycleSound

/-!
# The SpecRhythm loop

From ranks that are `Between` cycles, an iteration that goes through leaves them
so, and if the groups shape the same budgets it does go through.
-/

namespace VllmAscend

open Python Packed Rows Run PearlPipelineState RhythmRank List

section
variable {run : RhythmRun} {pr : Nat → List Int} {ws windows' : Nat → List DevicePayload} {dr dr' : States}
  {t t' : RhythmRank} {co : Nat → Option PearlPipelineState} {fs : RoundForwards}

/-! ## One iteration -/

inductive Stepped (run : RhythmRun) (windows : Nat → List DevicePayload) (draft : States) (t : RhythmRank) :
    (Nat → List DevicePayload) → RhythmRank → RoundForwards → Prop where
  | idle {t' : RhythmRank} (hnil : t.activeIndices = []) (hne : t.pendingAdmission ≠ [])
      (hstates : t'.states = t.states) (hcompleted : t'.completedStates = t.completedStates)
      (hticks : t'.ticks = t.ticks + 2) : Stepped run windows draft t windows t' ⟨[], []⟩
  | cycle {cp : CyclePlan} {requests : List Nat} {rowOf : Nat → WorkRow}
      {ticketOf : Nat → SpecRhythmProposalTicket} {v : Nat → Nat × Int} {width : Nat → Nat}
      {windows' : Nat → List DevicePayload} {t' : RhythmRank} {forwards : RoundForwards}
      (h : CycleOk run windows draft t cp requests rowOf ticketOf v width windows' t' forwards) :
      Stepped run windows draft t windows' t' forwards

theorem rhythmContinues_asDraft : rhythmContinues run (t.asDraft dr co) = rhythmContinues run t := rfl

variable {rks : RhythmRank × RhythmRank} {arr : Nat} {states : States}

section
variable (ho : RhythmOk run) (hpo : run.shape.Sound run.gamma) (h : Between run pr ws dr t)
include ho h

theorem idleTurn_ok (hnil : t.activeIndices = []) (hne : t.pendingAdmission ≠ [])
    (co : Nat → Option PearlPipelineState) :
    ∃ t', idleTurn run t = .ok t' ∧ idleTurn run (t.asDraft dr co) = .ok (t'.asDraft dr co) ∧
      Between run pr ws dr t' ∧ Stepped run ws dr t ws t' ⟨[], []⟩ := by
  have har : ¬ (t.pendingAdmission.all fun i => (run.params i).arrivalTs.isNone) = true := by
    intro hall
    obtain ⟨i, hi⟩ := exists_mem_of_ne_nil _ hne
    have hnone := all_eq_true.mp hall i hi
    have := h.waiting hnil i hi
    rw [RhythmRun.arrived, Option.isNone_iff_eq_none.mp hnone] at this
    cases this
  have hm := moved_admitReady run (run.clock (t.ticks + 1)) t
  refine ⟨{ admitReady run _ t with ticks := t.ticks + 2 }, ?_, ?_, ⟨?_, h.settled, ?_⟩,
    .idle hnil hne hm.states.1 hm.states.2.1 rfl⟩
  · rw [idleTurn, if_neg har]
  · rw [idleTurn, show (t.asDraft dr co).pendingAdmission = t.pendingAdmission from rfl, if_neg har,
      admitReady_asDraft]
    rfl
  · exact h.toFlight.moved hm _ _ _
  · intro hem
    exact admitReady_waiting ho.batch_pos _ hem

include hpo

omit ho in
theorem exists_plan_of_ok (hne : t.activeIndices ≠ []) {result : RhythmRank × RhythmRank × RoundForwards}
    (hok : rhythmCycle run (t.asDraft dr co) t = .ok result) :
    ∃ cp, planCycle run (t.asDraft dr co) = .ok cp ∧ planCycle run t = .ok cp ∧ Planned run ws t cp := by
  obtain ⟨plan, hbu, hpl⟩ := buildPlan_ok h.toFlight h.settled
  unfold rhythmCycle at hok
  simp only [bind_ok, mapError_ok] at hok
  obtain ⟨dp, hd, tp, ht, drafted, -, hok⟩ := hok
  obtain ⟨sent, hec⟩ : ∃ sent, exchangeSpecRhythmDeviceProposals run.gamma drafted dp.tickets tp.tickets
      (dp.work.map (·.verificationSize)) (tp.work.map (·.verificationSize)) = .ok sent := by
    split at hok <;>
    · obtain ⟨_, -, hok⟩ := bind_ok.mp hok
      obtain ⟨sent, hse, -⟩ := bind_ok.mp hok
      exact ⟨sent, hse⟩
  have hdp := planned_of_ok h.toFlight hne hpl hbu h.settled h.aheadOf hpo hd
  have htp := planned_of_ok h.toFlight hne hpl hbu h.settled aheadOf_self hpo
    (show planCycle run (t.asDraft t.states t.completedStates) = .ok tp from ht)
  obtain rfl := plan_eq_of_exchange hdp htp hec
  exact ⟨dp, hd, ht, hdp⟩

theorem rhythmIteration_next (hb : rhythmIteration run (t.asDraft dr co, t) = .ok (.next rks fs)) :
    ∃ windows' dr' co' t', rks = (t'.asDraft dr' co', t') ∧
      Between run pr windows' dr' t' ∧ Stepped run ws dr t windows' t' fs := by
  unfold rhythmIteration at hb
  simp only [rhythmContinues_asDraft] at hb
  cases hc : rhythmContinues run t with
  | false => simp [hc, pure, Except.pure] at hb
  | true =>
    simp only [hc, show (t.asDraft dr co).activeIndices = t.activeIndices from rfl, and_self, or_self] at hb
    by_cases hnil : t.activeIndices = []
    · rw [if_pos hnil] at hb
      have hne : t.pendingAdmission ≠ [] := by
        simp only [rhythmContinues, hnil, decide_eq_true_eq] at hc
        simpa using hc.1
      obtain ⟨t', ht, hd, hbe, hstep⟩ := idleTurn_ok ho h hnil hne co
      simp only [hd, ht, Except.mapError, ok_bind, pure_eq_ok] at hb
      cases hb
      exact ⟨ws, dr, co, t', rfl, hbe, hstep⟩
    · rw [if_neg hnil, if_neg hnil] at hb
      obtain ⟨result, hre, hb⟩ := bind_ok.mp hb
      obtain ⟨cp, hd, ht, hcp⟩ := exists_plan_of_ok hpo h hnil hre
      obtain ⟨rowOf, ticketOf, hp⟩ := hcp.exists_rows
      obtain ⟨v, width, windows', dr', co', t', forwards', hcy, hbe, hok⟩ := rhythmCycle_ok ho h hcp hp hd ht
      rw [hcy] at hre
      cases hre
      cases hb
      exact ⟨windows', dr', co', t', rfl, hbe, .cycle hok⟩

theorem rhythmIteration_ok (hmax : run.maxRounds = none)
    (hsame : t.activeIndices ≠ [] → SameShaping run (t.asDraft dr co) t) :
    rhythmIteration run (t.asDraft dr co, t) = .ok (.stop (t.asDraft dr co, t)) ∧
        t.activeIndices ++ t.pendingAdmission = [] ∨
      ∃ rks fs, rhythmIteration run (t.asDraft dr co, t) = .ok (.next rks fs) := by
  unfold rhythmIteration
  simp only [rhythmContinues_asDraft, show (t.asDraft dr co).activeIndices = t.activeIndices from rfl,
    and_self, or_self]
  by_cases hnil : t.activeIndices = []
  · by_cases hne : t.pendingAdmission = []
    · have hc : rhythmContinues run t = false := by simp [rhythmContinues, hnil, hne]
      exact .inl ⟨by rw [hc]; rfl, by rw [hnil, hne]; rfl⟩
    have hc : rhythmContinues run t = true := by simp [rhythmContinues, hne, hmax]
    obtain ⟨t', ht, hd, -⟩ := idleTurn_ok ho h hnil hne co
    refine .inr ⟨(t'.asDraft dr co, t'), ⟨[], []⟩, ?_⟩
    simp only [hc, hnil, if_true, hd, ht, Except.mapError]
    rfl
  · have hc : rhythmContinues run t = true := by simp [rhythmContinues, hnil, hmax]
    obtain ⟨cp, hd, ht, hcp⟩ := planCycle_same h.toFlight h.settled hnil hpo (hsame hnil)
    obtain ⟨rowOf, ticketOf, hp⟩ := hcp.exists_rows
    obtain ⟨v, width, windows', dr', co', t', fs, hcy, -⟩ := rhythmCycle_ok ho h hcp hp hd ht
    refine .inr ⟨(t'.asDraft dr' co', t'), fs, ?_⟩
    simp only [hc, hnil, if_false, hcy]
    rfl

end

/-! ## The work left -/

def RhythmRank.verdictsLeft (t : RhythmRank) (i : Nat) : Nat :=
  if (t.completedStates i).isSome then 0
  else (t.states i).maxTokens - (t.states i).committedCompletionTokenIds.length + 1

def RhythmRank.unproposed (t : RhythmRank) (i : Nat) : Nat :=
  if (t.completedStates i).isNone ∧ (t.controller.ready i).isNone then 1 else 0

def rhythmWork (run : RhythmRun) (arrivals : Nat) (t : RhythmRank) : Nat :=
  (run.requests + 1) * (∑ i ∈ Finset.range run.requests, t.verdictsLeft i) +
    (∑ i ∈ Finset.range run.requests, t.unproposed i) + (arrivals + 1 - t.ticks)

theorem unproposed_le (t : RhythmRank) (i : Nat) : t.unproposed i ≤ 1 := by
  unfold unproposed
  split <;> omega

theorem sum_unproposed_le (run : RhythmRun) (t : RhythmRank) : ∑ i ∈ Finset.range run.requests, t.unproposed i ≤ run.requests := by
  calc ∑ i ∈ Finset.range run.requests, t.unproposed i ≤ ∑ _i ∈ Finset.range run.requests, 1 :=
        Finset.sum_le_sum fun i _ => unproposed_le t i
    _ = run.requests := by simp

theorem isNone_ready (h : Flight run pr ws dr t) (i : Nat) :
    (t.controller.ready i).isNone = (ws i).isEmpty := by
  rw [h.ready]
  cases ws i <;> rfl

section
variable {cp : CyclePlan} (h : Between run pr ws dr t)
  (hc : CycleOk run ws dr t cp rs rowOf ticketOf v width windows' t' fs)

variable {i : Nat}
include hc

theorem CycleOk.state_of_mem (hi : i ∈ cp.targets) : t'.states i = settled run (t.states i) (front ws i) (v i) :=
  (hc.states i).trans (if_pos hi)

theorem CycleOk.state_of_notMem (hi : i ∉ cp.targets) :
    t'.states i = t.states i ∧ t'.completedStates i = t.completedStates i :=
  ⟨(hc.states i).trans (if_neg hi), (hc.completed i).trans (if_neg fun hno => hi hno.1)⟩

include h

theorem CycleOk.windowFor (hi : i ∈ cp.targets) : WindowFor run.gamma i (t.states i) (front ws i) := by
  have := h.chain i
  rw [h.settled.eq_front (hc.planned.target i hi).2] at this
  exact this.1

theorem CycleOk.verdictsLeft_lt (hi : i ∈ cp.targets) : t'.verdictsLeft i < t.verdictsLeft i := by
  obtain ⟨hlt, hnone⟩ := h.active_lt (hc.planned.target i hi).1
  have hrow := (h.request i hlt).toRowOk
  have hwi := hc.windowFor h hi
  have hok := (hc.verdict i hi).verdictOk hwi.next_pos hwi.next_le
  have hlen := length_committedCompletion hrow
  have hlen' := length_committedCompletion (hrow.verified hok)
  have hpr := hrow.promptLt
  have hst := hc.state_of_mem hi
  have hgr : (t.states i).committedLength < (t'.states i).committedLength := by
    rw [hst]
    exact committedLength_lt_verified hrow
  unfold verdictsLeft
  rw [hc.completed i, hnone]
  by_cases hf : finished run.eos (t'.states i) = true
  · simp [hi, hf]
  have hmax : (t'.states i).committedCompletionTokenIds.length < (t'.states i).maxTokens := by
    simp only [finished, Bool.or_eq_true, decide_eq_true_eq, not_or] at hf
    omega
  rw [if_neg (by simp [hf])]
  rw [hst, settled] at hmax hgr ⊢
  rw [show ((t.states i).verified run.gamma (v i).1 (decodeCorrection (v i).2) (front ws i).nextTokens).maxTokens =
    (t.states i).maxTokens from rfl] at hmax ⊢
  rw [show ((t.states i).verified run.gamma (v i).1 (decodeCorrection (v i).2)
    (front ws i).nextTokens).promptLength = (t.states i).promptLength from rfl] at hlen'
  simp only [Option.isSome_none, Bool.false_eq_true, if_false]
  omega

theorem CycleOk.verdictsLeft_le (i : Nat) : t'.verdictsLeft i ≤ t.verdictsLeft i := by
  by_cases hi : i ∈ cp.targets
  · exact (hc.verdictsLeft_lt h hi).le
  obtain ⟨hs, hco⟩ := hc.state_of_notMem hi
  unfold verdictsLeft
  rw [hs, hco]

theorem CycleOk.work_lt (h' : Between run pr windows' dr' t') (arr : Nat) :
    rhythmWork run arr t' < rhythmWork run arr t := by
  have hle : ∑ i ∈ Finset.range run.requests, t'.verdictsLeft i ≤ ∑ i ∈ Finset.range run.requests, t.verdictsLeft i :=
    Finset.sum_le_sum fun i _ => hc.verdictsLeft_le h i
  have hti := hc.ticks
  unfold rhythmWork
  by_cases hno : cp.targets = []
  · have hsame : ∀ i, t'.completedStates i = t.completedStates i := fun i =>
      (hc.state_of_notMem (by simp [hno])).2
    have hwi : ∀ i, windows' i = proposedWindows run ws dr t rs rowOf ticketOf i := by
      intro i
      rw [hc.flying, if_neg (by simp [hno]), if_neg (by simp [hno])]
    obtain ⟨hem, hwo⟩ := hc.planned.progress hno
    obtain ⟨i, hi⟩ : ∃ i, i ∈ rs := by
      refine exists_mem_of_ne_nil _ fun hnil => hwo ?_
      rw [hc.rows.work, hnil]; rfl
    have hlt : ∑ i ∈ Finset.range run.requests, t'.unproposed i < ∑ i ∈ Finset.range run.requests, t.unproposed i := by
      refine Finset.sum_lt_sum (fun j _ => ?_) ⟨i, ?_, ?_⟩
      · unfold unproposed
        rw [hsame j, isNone_ready h.toFlight, hem j]
        split <;> split <;> simp_all
      · exact Finset.mem_range.mpr (h.active_lt (hc.rows.active i hi)).1
      · unfold unproposed
        rw [hsame i, isNone_ready h.toFlight, isNone_ready h'.toFlight, hwi i, hem i,
          proposedWindows_of_mem hi, (h.active_lt (hc.rows.active i hi)).2]
        simp
    have := Nat.mul_le_mul_left (run.requests + 1) hle
    omega
  · obtain ⟨i, hi⟩ := exists_mem_of_ne_nil _ hno
    have hlt : ∑ i ∈ Finset.range run.requests, t'.verdictsLeft i < ∑ i ∈ Finset.range run.requests, t.verdictsLeft i :=
      Finset.sum_lt_sum (fun j _ => hc.verdictsLeft_le h j)
        ⟨i, Finset.mem_range.mpr (h.active_lt (hc.planned.target i hi).1).1, hc.verdictsLeft_lt h hi⟩
    have hmul := Nat.mul_le_mul_left (run.requests + 1) (Nat.succ_le_of_lt hlt)
    have hsum := sum_unproposed_le run t'
    rw [Nat.succ_eq_add_one, Nat.mul_add] at hmul
    omega

end

theorem Stepped.work_lt (h : Between run pr ws dr t)
    (h' : Between run pr windows' dr' t') (hs : Stepped run ws dr t windows' t' fs)
    (har : ∀ k ≥ arr, ∀ i < run.requests, run.arrived (run.clock k) i = true) :
    rhythmWork run arr t' < rhythmWork run arr t := by
  cases hs with
  | cycle hc => exact hc.work_lt h h' arr
  | idle hnil hne hst hco hti =>
    obtain ⟨i, hi⟩ := exists_mem_of_ne_nil _ hne
    have hlt : t.ticks - 1 < arr := by
      by_contra hno
      have := har (t.ticks - 1) (by omega) i ((h.uncompleted i).mp (mem_append_right _ hi)).1
      rw [h.waiting hnil i hi] at this
      cases this
    have hve : ∀ i, t'.verdictsLeft i = t.verdictsLeft i := by
      intro i
      unfold verdictsLeft
      rw [hst, hco]
    have hun : ∀ i, t'.unproposed i = t.unproposed i := by
      intro i
      unfold unproposed
      rw [hco, isNone_ready h.toFlight, isNone_ready h'.toFlight]
    unfold rhythmWork
    simp only [hve, hun, hti]
    omega

/-! ## Runs -/

structure Prefilled (run : RhythmRun) (prompt : Nat → List Int) (states : States) : Prop where
  request : ∀ i < run.requests, RequestOk run.models run.gamma (prompt i) (run.params i) (states i)
  epoch : ∀ i < run.requests, (states i).continuationEpoch = 0

theorem between_init (ho : RhythmOk run) (hs : Prefilled run pr states) :
    Between run pr (fun _ => []) states (run.init states) := by
  have hm : Moved _ (run.init states) := moved_admitReady run (run.clock 0) _
  have hti : (run.init states).ticks = 1 := by
    obtain ⟨c, hc⟩ := hm.rank
    exact congrArg RhythmRank.ticks hc
  refine ⟨Flight.moved ?_ hm _ _ _, fun _ => Nat.zero_le _, fun hnil => ?_⟩
  swap
  · rw [hti]
    exact admitReady_waiting ho.batch_pos _ hnil
  refine ⟨rfl, fun _ => Nat.zero_le _, ?_, ?_, nodup_range, ?_, ?_, hs.request, ?_, fun _ => trivial, ?_, ?_⟩
  · intro pid p
    simp
  · simp
  · intro i
    simp
  · intro i hno
    exact absurd rfl hno
  · intro i hi
    simp only [RhythmRun.runtimeState, hi, if_true]
    exact ⟨_, rfl, (hs.epoch i hi).symm⟩
  · intro i _ _
    simp [extend, inFlight]
  · intro i s hno
    cases hno

theorem init_asDraft (run : RhythmRun) (states : States) :
    run.init states = (run.init states).asDraft states (run.init states).completedStates := by
  have hst : (run.init states).states = states := (moved_admitReady run (run.clock 0) _).states.1
  have h : run.init states = (run.init states).asDraft (run.init states).states (run.init states).completedStates := rfl
  rwa [hst] at h

def InStep (run : RhythmRun) (prompt : Nat → List Int) (ranks : RhythmRank × RhythmRank) : Prop :=
  ∃ windows draft completed, ranks.1 = ranks.2.asDraft draft completed ∧ Between run prompt windows draft ranks.2

theorem inStep_of_reach (ho : RhythmOk run) (hpo : run.shape.Sound run.gamma) (hs : Prefilled run pr states)
    (hre : Reach (rhythmIteration run) (run.init states, run.init states) es rks) : InStep run pr rks := by
  apply hre.inv
  · exact ⟨fun _ => [], states, _, init_asDraft run states, between_init ho hs⟩
  · rintro ⟨d, t⟩ ranks' e ⟨ws, dr, co, hd, hbe⟩ hb
    simp only at hd
    subst hd
    obtain ⟨windows', dr', co', t', rfl, hbe', -⟩ := rhythmIteration_next ho hpo hbe hb
    exact ⟨windows', dr', co', rfl, hbe'⟩

theorem loop_rhythmIteration_ok (ho : RhythmOk run) (hpo : run.shape.Sound run.gamma) (hmax : run.maxRounds = none)
    (hs : Prefilled run pr states) (har : ∀ k ≥ arr, ∀ i < run.requests, run.arrived (run.clock k) i = true)
    (hsame : ∀ es d t, Reach (rhythmIteration run) (run.init states, run.init states) es (d, t) →
      t.activeIndices ≠ [] → SameShaping run d t) (hfu : rhythmWork run arr (run.init states) < fuel) :
    ∃ d t, loop (rhythmIteration run) fuel (run.init states, run.init states) = .ok (some (d, t)) ∧
      ∀ i < run.requests, RequestOk run.models run.gamma (pr i) (run.params i) (rhythmResultState run t i) ∧
        finished run.eos (rhythmResultState run t i) = true := by
  obtain ⟨⟨d, t⟩, hloop, hend⟩ := loop_total (rhythmIteration run) (P := fun rks => ∃ es, Reach _ _ es rks)
    (Q := fun rks => ∀ i < run.requests,
      RequestOk run.models run.gamma (pr i) (run.params i) (rhythmResultState run rks.2 i) ∧
        finished run.eos (rhythmResultState run rks.2 i) = true)
    (fun rks => rhythmWork run arr rks.2) (by
      rintro ⟨d, t⟩ ⟨es, hre⟩
      obtain ⟨ws, dr, co, hd, h⟩ := inStep_of_reach ho hpo hs hre
      simp only at hd h
      subst hd
      rcases rhythmIteration_ok ho hpo h hmax (hsame es _ t hre) with ⟨hst, hem⟩ | ⟨rks, e, hnext⟩
      · refine .inl ⟨_, hst, fun i hi => ?_⟩
        -- nobody is active or waiting, so everybody has left
        obtain ⟨s, hs⟩ : ∃ s, t.completedStates i = some s := by
          refine Option.ne_none_iff_exists'.mp fun hnone => ?_
          have := (h.uncompleted i).mpr ⟨hi, hnone⟩
          rw [hem] at this
          cases this
        obtain ⟨rfl, hf⟩ := h.completed i s hs
        have hrs : rhythmResultState run t i = t.states i := by
          rw [rhythmResultState, hs, Option.getD_some, ite_self]
        rw [hrs]
        exact ⟨h.request i hi, hf⟩
      · obtain ⟨windows', dr', co', t', rfl, h', hstep⟩ := rhythmIteration_next ho hpo h hnext
        exact .inr ⟨_, e, hnext, ⟨_, hre.step hnext⟩, hstep.work_lt h h' har⟩)
    fuel (run.init states, run.init states) ⟨[], .start⟩ hfu
  exact ⟨d, t, hloop, hend⟩

/-! ## Admitted batches -/

structure Launched (run : RhythmRun) (prompts : List (List Nat)) (arg : SamplingArg) (params : List NativeSamplingParams) :
    Prop where
  gamma_pos : 0 < run.gamma
  requests : run.requests = prompts.length
  sampling : run.params = paramsOf params
  admitted : admitBatch run.cfg run.gamma prompts arg run.maxRounds = .ok params
  confidence : ∀ round i, 0 ≤ run.confidence round i ∧ run.confidence round i ≤ 1

section
variable (h : Launched run prompts arg params)
include h

theorem Launched.rhythmOk : RhythmOk run := by
  have had := admitBatch_ok h.admitted
  have hm : ∀ i < run.requests, run.params i ∈ params := by
    intro i hi
    obtain ⟨-, p, -, hp, -⟩ := getElem?_zip_of_lt had.length (h.requests ▸ hi)
    rw [h.sampling, paramsOf_eq hp]
    exact mem_of_getElem? hp
  refine ⟨h.gamma_pos, lt_min ?_ run.cfg.maxNumSeqs_pos, h.confidence, ?_⟩
  · rw [h.requests]
    exact length_pos_of_ne_nil had.prompts_ne
  · exact had.temperature.imp (fun h0 i hi => h0 _ (hm i hi)) fun hpos i hi => hpos _ (hm i hi)

theorem Launched.prefilled : Prefilled run (promptOf prompts) (prefilled run.models prompts params) := by
  have had := admitBatch_ok h.admitted
  refine ⟨?_, ?_⟩
  · intro i hi
    rw [h.sampling]
    exact (requestOk_prefilled run.models run.gamma had (h.requests ▸ hi)).1
  · intro i hi
    obtain ⟨pr, p, hpr, hp, -⟩ := getElem?_zip_of_lt had.length (h.requests ▸ hi)
    simp only [VllmAscend.prefilled, hpr, hp]
    rfl

end

end

end VllmAscend
