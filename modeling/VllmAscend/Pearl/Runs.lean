import VllmAscend.Pearl.Forward
import VllmAscend.Pearl.Lossless

/-!
# Along a PEARL run

From an admitted batch on, the two replicas are equal at every round boundary.
What their caches hold is good for the state each request is run from next: a
finished request goes back to its snapshot, and a round that reruns it writes
above what the snapshot needs.
-/

namespace VllmAscend

open Python Rows Run PearlPipelineState

variable {run : PearlRun} {ps : List (List Nat)} {arg : SamplingArg}

structure PearlLaunched (run : PearlRun) (prompts : List (List Nat)) (arg : SamplingArg)
    (params : List NativeSamplingParams) : Prop where
  gamma_pos : 0 < run.gamma
  requests : run.requests = prompts.length
  order : ∀ states gains l, (run.order states gains l).Perm l
  admitted : admitBatch run.cfg run.gamma prompts arg run.maxRounds = .ok params

theorem PearlLaunched.runOk (h : PearlLaunched run ps arg pa) : RunOk run (paramsOf pa) :=
  runOk_of_admitted h.gamma_pos h.requests h.order (admitBatch_ok h.admitted)

theorem PearlLaunched.loopInv (h : PearlLaunched run ps arg pa) :
    LoopInv run (promptOf ps) (paramsOf pa) (run.init (prefilled run.models ps pa)) :=
  loopInv_init h.requests (admitBatch_ok h.admitted)

section
variable {pr : Nat → List Int}

theorem pearlIteration_next (ho : RunOk run pa) (h : LoopInv run pr pa r)
    (hb : pearlIteration run (r, r) = .ok (.next rks e)) :
    ∃ r', rks = (r', r') ∧ Iterated run pr pa r r' e ∧ LoopInv run pr pa r' := by
  rcases pearlIteration_ok ho h with ⟨r', hs, -⟩ | ⟨r', e', hn, hit, hi, -⟩
  · rw [hs] at hb
    cases hb
  rw [hn] at hb
  cases hb
  exact ⟨r', rfl, hit, hi⟩

theorem equal_of_reach (ho : RunOk run pa) (h : LoopInv run pr pa r)
    (hr : Reach (pearlIteration run) (r, r) es rks) :
    ∃ r', rks = (r', r') ∧ LoopInv run pr pa r' := by
  apply hr.inv
  · exact ⟨r, rfl, h⟩
  · rintro _ ranks' e ⟨r', rfl, hi⟩ hb
    obtain ⟨r'', rfl, -, hi'⟩ := pearlIteration_next ho hi hb
    exact ⟨r'', rfl, hi'⟩

theorem resultState_round (h : RoundOk run sch act v width r' e) (i : Nat) :
    resultState run r' i = resultState run sch i ∨ resultState run r' i = r'.states i := by
  unfold resultState
  rw [h.completedStates.1, h.completedStates.2]
  split
  · cases sch.completedRequestStates i with
    | none => exact .inr rfl
    | some s => exact .inl rfl
  split
  · cases sch.completedStates i with
    | none => exact .inr rfl
    | some s => exact .inl rfl
  · exact .inr rfl

/-! ## The caches -/

/-- What the caches of the draft and the target model hold for a request in state `s`. -/
structure KvFor (draft target : Nat → Option (List Int)) (s : PearlPipelineState) : Prop where
  draft : Stored draft s.tokenIds (s.tokenIds.length - 1)
  target : Stored target s.tokenIds (s.committedLength - 1)

def KvPrefilled (requests : Nat) (prompt : Nat → List Int) (kv : KvCache) : Prop :=
  ∀ i < requests, Stored (kv i) (prompt i) (prompt i).length

theorem roundFresh_of_iterated (ho : RunOk run pa) (hit : Iterated run pr pa r r' e)
    (hkv : ∀ i < run.requests, KvFor (kv.1 i) (kv.2 i) (resultState run r i)) :
    RoundFresh (fun i => (resultState run r i).tokenIds) (fun i => (resultState run r i).tokenIds) kv e ∧
      ∀ i < run.requests, KvFor (e.draft.foldl KvCache.store kv.1 i) (kv.2.store e.target i) (resultState run r' i) := by
  obtain ⟨sch, act, v, width, hs, hro⟩ := hit
  have hrow : ∀ i ∈ act, RowOk run.gamma (sch.states i) := fun i hi =>
    (hs.inv.rows i (hs.lt i hi)).toRowOk
  have hsa : ∀ i ∈ act, resultState run r i = sch.states i := fun i hi => (hs.states i (hs.lt i hi)).1.symm
  have htok : ∀ i ∈ act, (resultState run r i).tokenIds = (sch.states i).tokenIds := fun i hi => by
    rw [hsa i hi]
  have hke : ∀ i ∈ act, KvFor (kv.1 i) (kv.2 i) (sch.states i) := fun i hi => by
    rw [← hsa i hi]
    exact hkv i (hs.lt i hi)
  obtain ⟨hfr, hfd, hsd⟩ := draftForwards_ok htok (fun i hi => (hrow i hi).tokens_ne_nil)
    (fun i _ => (length_draftWindow i run.gamma).ge)
    fun i hi => (hke i hi).draft
  obtain ⟨hfe, hft, hst⟩ := targetForward_ok hrow (fun i hi => (hro.width_le i hi).1) htok fun i hi => (hke i hi).target
  rw [hro.forwards]
  refine ⟨⟨hfr, hfe⟩, fun i hi => ?_⟩
  by_cases hm : i ∈ act
  · have hlen := (hrow i hm).committed_le
    have hwi : (draftWindow (run.models.draft sch.roundCount) sch.states i run.gamma).length = run.gamma :=
      length_draftWindow i run.gamma
    have hv := hro.verdictOk ho.gamma_pos hm
    rcases resultState_round hro i with hre | hre
    · -- it goes back to where it was, and the round wrote nothing below that
      rw [hre, (hs.states i hi).2]
      refine ⟨(hsd i hm).of_take (by omega) ?_, (hst i hm).of_take (by omega) rfl⟩
      rw [List.take_append_of_le_length (by omega)]
    · rw [hre, hro.state_of_mem hm]
      refine ⟨?_, stored_target_verified (hrow i hm) hv (hst i hm)⟩
      have hdr := stored_draft_verified (hrow i hm) hv [] rfl (by
        rw [List.append_nil, List.length_append, hwi]
        exact (hsd i hm).of_take (by omega) rfl)
      simpa using hdr
  · have hre : resultState run r' i = resultState run r i := by
      rcases resultState_round hro i with hre | hre
      · rw [hre, (hs.states i hi).2, (hs.states i hi).1]
      · rw [hre, hro.state_of_notMem hm, (hs.states i hi).1]
    rw [hre]
    exact ⟨by rw [hfd i hm]; exact (hkv i hi).draft, by rw [hft i hm]; exact (hkv i hi).target⟩

theorem kv_of_reach (kv : KvCache × KvCache) (ho : RunOk run pa) (h : LoopInv run pr pa r)
    (hkv : ∀ i < run.requests, KvFor (kv.1 i) (kv.2 i) (resultState run r i))
    (hr : Reach (pearlIteration run) (r, r) es rks) : ∃ r', rks = (r', r') ∧ LoopInv run pr pa r' ∧
      ∀ i < run.requests, KvFor ((kvAfter kv es).1 i) ((kvAfter kv es).2 i) (resultState run r' i) := by
  induction hr with
  | start => exact ⟨r, rfl, h, hkv⟩
  | step _ hb ih =>
    obtain ⟨r', rfl, hi, hkv'⟩ := ih
    obtain ⟨r'', rfl, hit, hi'⟩ := pearlIteration_next ho hi hb
    exact ⟨r'', rfl, hi', by rw [kvAfter_concat]; exact (roundFresh_of_iterated ho hit hkv').2⟩

end

theorem prefilled_ok (ms : PearlModels)
    (h : Admitted cfg gamma ps arg maxRounds pa) (hi : i < ps.length) :
    (prefilled ms ps pa i).tokenIds.take (promptOf ps i).length = promptOf ps i ∧
      (prefilled ms ps pa i).tokenIds.length = (promptOf ps i).length + 1 ∧
      (prefilled ms ps pa i).committedLength = (promptOf ps i).length + 1 := by
  obtain ⟨pr, p, hpr, hp, -⟩ := getElem?_zip_of_lt h.length hi
  rw [promptOf_eq hpr]
  simp only [prefilled, hpr, hp, commitToken, new]
  simp

theorem kvFor_prefilled (ms : PearlModels)
    (h : Admitted cfg gamma ps arg maxRounds pa) {kv : KvCache × KvCache}
    (hd : KvPrefilled ps.length (promptOf ps) kv.1)
    (hta : KvPrefilled ps.length (promptOf ps) kv.2) (hi : i < ps.length) :
    KvFor (kv.1 i) (kv.2 i) (prefilled ms ps pa i) := by
  obtain ⟨ht, hl, hc⟩ := prefilled_ok ms h hi
  refine ⟨?_, ?_⟩
  · rw [hl]
    exact (hd i hi).of_take (le_refl _) (by rw [Nat.add_sub_cancel, ht, List.take_length])
  · rw [hc]
    exact (hta i hi).of_take (le_refl _) (by rw [Nat.add_sub_cancel, ht, List.take_length])

end VllmAscend
