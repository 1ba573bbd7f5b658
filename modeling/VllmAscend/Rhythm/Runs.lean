import VllmAscend.Pearl.Runs
import VllmAscend.Rhythm.Lossless

/-!
# Along a run, under either loop

Two properties of every run, of the PEARL loop and of the SpecRhythm loop: the
replicas stay in step, the draft ahead by the tokens in flight and nothing else,
and no forward attends a cache entry that a rollback left behind.
-/

namespace VllmAscend

open Python Rows Run PearlPipelineState List Option

variable {run : RhythmRun} {windows : Nat → List DevicePayload} {draft : States} {t : RhythmRank} {e : RoundForwards}

section
variable {kv : KvCache × KvCache}

/-! ## Caches under SpecRhythm -/

def RhythmKv (run : RhythmRun) (draft : States) (t : RhythmRank) (kv : KvCache × KvCache) : Prop :=
  ∀ i < run.requests, t.completedStates i = none →
    Stored (kv.1 i) (draft i).tokenIds ((draft i).tokenIds.length - 1) ∧
    Stored (kv.2 i) (t.states i).tokenIds ((t.states i).committedLength - 1)

theorem tokenIds_draft (h : Flight run pr windows draft t) (hi : i < run.requests)
    (hn : t.completedStates i = none) : (draft i).tokenIds = (t.states i).tokenIds ++ inFlight (windows i) := by
  rw [h.ahead i hi hn]; rfl

section
variable (h : Between run pr windows draft t)
  (hc : CycleOk run windows draft t cp rs rowOf ticketOf v w windows' t' e)
include h hc

theorem CycleOk.kvDraft (hkv : RhythmKv run draft t kv) :
    Guarded KvCache.store (AttendsFresh fun i => (draft i).tokenIds) kv.1 e.draft ∧
      ∀ i < run.requests, t.completedStates i = none →
        let tokens := (t.states i).tokenIds ++ inFlight (proposedWindows run windows draft t rs rowOf ticketOf i)
        Stored (e.draft.foldl KvCache.store kv.1 i) tokens (tokens.length - 1) := by
  have hact : ∀ i ∈ rs, i < run.requests ∧ t.completedStates i = none := fun i hi =>
    h.active_lt (hc.rows.active i hi)
  have hne : ∀ i ∈ rs, (draft i).tokenIds ≠ [] := by
    intro i hi hno
    rw [tokenIds_draft h.toFlight (hact i hi).1 (hact i hi).2] at hno
    exact (h.request i (hact i hi).1).tokens_ne_nil (append_eq_nil_iff.mp hno).1
  have hwi : ∀ i ∈ rs, (rowOf i).budget ≤ (nextWindow run draft t rowOf i).length := by
    intro i hi
    rw [nextWindow, length_paddedWindow (hc.rows.row i hi).budget.2]
    exact (hc.rows.row i hi).budget.2
  obtain ⟨hfe, hfr, hst⟩ := draftForwards_ok (fun i _ => rfl) hne hwi fun i hi => (hkv i (hact i hi).1 (hact i hi).2).1
  rw [hc.forwards]
  refine ⟨hfe, fun i hi hnone => ?_⟩
  by_cases hm : i ∈ rs
  · have hnext : (proposed run windows draft t rowOf ticketOf i).nextTokens =
        (nextWindow run draft t rowOf i).take (rowOf i).budget := by
      simp only [proposed, payloadOf, nextWindow, (hc.rows.ticket i hm).gamma]
    have htok : (t.states i).tokenIds ++ inFlight (proposedWindows run windows draft t rs rowOf ticketOf i) =
        (draft i).tokenIds ++ (proposed run windows draft t rowOf ticketOf i).nextTokens := by
      rw [proposedWindows_of_mem hm, tokenIds_draft h.toFlight hi hnone]
      simp [inFlight, flatMap_append]
    simp only [htok, hnext]
    refine (hst i hm).of_take ?_ ?_
    · rw [length_append, length_take]
      omega
    · rw [take_append, take_append, take_take]
      congr 2
      rw [length_append, length_take]
      omega
  · rw [proposedWindows_of_notMem hm, ← tokenIds_draft h.toFlight hi hnone]
    have := (hkv i hi hnone).1
    rwa [← hfr i hm] at this

theorem CycleOk.kv_ok (h' : Between run pr windows' draft' t') (hkv : RhythmKv run draft t kv) :
    RoundFresh (fun i => (draft i).tokenIds) (fun i => (t.states i).tokenIds) kv e ∧
      RhythmKv run draft' t' (e.draft.foldl KvCache.store kv.1, kv.2.store e.target) := by
  obtain ⟨hfd, hdr⟩ := hc.kvDraft h hkv
  have hta : ∀ i ∈ cp.targets, i < run.requests ∧ t.completedStates i = none := fun i hi =>
    h.active_lt (hc.planned.target i hi).1
  have hrow : ∀ i ∈ cp.targets, RowOk run.gamma (t.states i) := fun i hi => (h.request i (hta i hi).1).toRowOk
  obtain ⟨hft, hfr, hso⟩ := targetForward_ok hrow (fun i hi => (hc.width_le i hi).1) (fun i _ => rfl)
    fun i hi => (hkv i (hta i hi).1 (hta i hi).2).2
  have he : e.target =
      cp.targets.flatMap fun i => targetRows i (t.states i) ((t.states i).windowSize run.gamma) (w i) := by
    rw [hc.forwards]
  rw [← he] at hft hfr hso
  refine ⟨⟨hfd, hft⟩, fun i hi hnone' => ?_⟩
  rw [tokenIds_draft h'.toFlight hi hnone']
  by_cases hm : i ∈ cp.targets
  · have hdone : ¬ finished run.eos (t'.states i) = true := by
      intro hf
      rw [hc.completed i, if_pos ⟨hm, hf⟩] at hnone'
      cases hnone'
    have hfo := hc.windowFor h hm
    have hv := (hc.verdict i hm).verdictOk hfo.next_pos hfo.next_le
    have hst : t'.states i = (t.states i).verified run.gamma (v i).1 (decodeCorrection (v i).2)
        (front windows i).nextTokens := hc.state_of_mem hm
    have hke : windows' i = surviving run.gamma (t.states i)
        (proposedWindows run windows draft t rs rowOf ticketOf i).tail (v i).1 := by
      rw [hc.flying i, if_neg fun hno => hdone hno.2, if_pos hm]
    have hd := hdr i hi (hta i hm).2
    rw [proposedWindows_target h hc.planned hm] at hd
    refine ⟨?_, ?_⟩
    · rw [hst]
      refine stored_draft_verified (hrow i hm) hv
        (inFlight (proposedWindows run windows draft t rs rowOf ticketOf i).tail) ?_ ?_
      · rw [hke, surviving]
        split <;> rfl
      · simpa [inFlight, append_assoc] using hd
    · rw [hst]
      exact stored_target_verified (hrow i hm) hv (hso i hm)
  · obtain ⟨hst, hco⟩ := hc.state_of_notMem hm
    have hnone : t.completedStates i = none := hco ▸ hnone'
    have hke : windows' i = proposedWindows run windows draft t rs rowOf ticketOf i := by
      rw [hc.flying i, if_neg fun hno => hm hno.1, if_neg hm]
    rw [hst, hke]
    refine ⟨hdr i hi hnone, ?_⟩
    have := (hkv i hi hnone).2
    rwa [← hfr i hm] at this

end

theorem Stepped.kv_ok (h : Between run pr windows draft t) (h' : Between run pr windows' draft' t')
    (hs : Stepped run windows draft t windows' t' e) (hkv : RhythmKv run draft t kv) :
    RoundFresh (fun i => (draft i).tokenIds) (fun i => (t.states i).tokenIds) kv e ∧
      RhythmKv run draft' t' (e.draft.foldl KvCache.store kv.1, kv.2.store e.target) := by
  cases hs with
  | cycle hc => exact hc.kv_ok h h' hkv
  | idle _ _ hst hco _ =>
    refine ⟨⟨trivial, fun row hr => by cases hr⟩, fun i hi hn' => ?_⟩
    have hn : t.completedStates i = none := by rw [← hco]; exact hn'
    rw [tokenIds_draft h'.toFlight hi hn', hst, ← tokenIds_draft h.toFlight hi hn]
    exact hkv i hi hn

theorem rhythmKv_of_reach (kv : KvCache × KvCache) (ho : RhythmOk run) (hpo : run.shape.Sound run.gamma)
    (hs : Prefilled run pr st) (hkv : ∀ i < run.requests, KvFor (kv.1 i) (kv.2 i) (st i))
    (hre : Reach (rhythmIteration run) (run.init st, run.init st) es rks) :
    ∃ windows draft completed, rks.1 = rks.2.asDraft draft completed ∧ Between run pr windows draft rks.2 ∧
      RhythmKv run draft rks.2 (kvAfter kv es) := by
  induction hre with
  | start =>
    have hst : (run.init st).states = st := (moved_admitReady run (run.clock 0) _).states.1
    refine ⟨fun _ => [], st, _, init_asDraft run st, between_init ho hs, fun i hi _ => ?_⟩
    rw [hst]
    exact ⟨(hkv i hi).draft, (hkv i hi).target⟩
  | @step es rks ranks' e _ hb ih =>
    obtain ⟨windows, draft, completed, hd, hbe, hkv'⟩ := ih
    obtain ⟨d, t⟩ := rks
    simp only at hd hbe hkv'
    subst hd
    obtain ⟨windows', draft', completed', t', rfl, hbe', hstep⟩ := rhythmIteration_next ho hpo hbe hb
    refine ⟨windows', draft', completed', rfl, hbe', ?_⟩
    rw [kvAfter_concat]
    exact (hstep.kv_ok hbe hbe' hkv').2

end

/-! ## No forward attends a stale entry -/

/-- Each forward attends only positions last written for the tokens its request has there. -/
theorem forwards_fresh :
    (∀ (run : PearlRun) (prompts : List (List Nat)) (arg : SamplingArg) (params : List NativeSamplingParams)
      (kv : KvCache × KvCache), PearlLaunched run prompts arg params →
      KvPrefilled prompts.length (promptOf prompts) kv.1 → KvPrefilled prompts.length (promptOf prompts) kv.2 →
      ∀ events d t ranks e, Reach (pearlIteration run) (run.init (prefilled run.models prompts params),
          run.init (prefilled run.models prompts params)) events (d, t) →
        pearlIteration run (d, t) = .ok (.next ranks e) →
        RoundFresh (fun i => (resultState run d i).tokenIds) (fun i => (resultState run t i).tokenIds)
          (kvAfter kv events) e) ∧
    (∀ (run : RhythmRun) (prompts : List (List Nat)) (arg : SamplingArg) (params : List NativeSamplingParams)
      (kv : KvCache × KvCache), Launched run prompts arg params → run.shape.Sound run.gamma →
      KvPrefilled prompts.length (promptOf prompts) kv.1 → KvPrefilled prompts.length (promptOf prompts) kv.2 →
      ∀ events d t ranks e, Reach (rhythmIteration run) (run.init (prefilled run.models prompts params),
          run.init (prefilled run.models prompts params)) events (d, t) →
        rhythmIteration run (d, t) = .ok (.next ranks e) →
        RoundFresh (fun i => (d.states i).tokenIds) (fun i => (t.states i).tokenIds) (kvAfter kv events) e) := by
  constructor
  · intro run prompts arg params kv h hdr hta events d t ranks e hre hb
    have had := admitBatch_ok h.admitted
    have hst : ∀ i < run.requests,
        resultState run (run.init (prefilled run.models prompts params)) i = prefilled run.models prompts params i := by
      intro i _
      unfold resultState
      split
      · rfl
      · split <;> rfl
    obtain ⟨r, hr, hinv, hkv⟩ := kv_of_reach kv h.runOk h.loopInv (fun i hi => by
      rw [hst i hi]
      exact kvFor_prefilled run.models had hdr hta (h.requests ▸ hi)) hre
    cases hr
    obtain ⟨r', -, hit, -⟩ := pearlIteration_next h.runOk hinv hb
    exact (roundFresh_of_iterated h.runOk hit hkv).1
  · intro run prompts arg params kv h hpo hdr hta events d t ranks e hre hb
    have had := admitBatch_ok h.admitted
    obtain ⟨windows, draft, completed, hd, hbe, hkv⟩ := rhythmKv_of_reach kv h.rhythmOk hpo h.prefilled
      (fun i hi => kvFor_prefilled run.models had hdr hta (h.requests ▸ hi)) hre
    simp only at hd hbe hkv
    subst hd
    obtain ⟨windows', draft', completed', t', -, hbe', hstep⟩ := rhythmIteration_next h.rhythmOk hpo hbe hb
    exact (hstep.kv_ok hbe hbe' hkv).1

/-- The tokens a rank's mailboxes hold for a request: the ready window, then the staged eager one. -/
def RhythmRank.mailTokens (r : RhythmRank) (i : Nat) : List Int :=
  let tokens := fun ticket : Option SpecRhythmProposalTicket =>
    ((ticket.bind fun ticket => r.payloads ticket.proposalId).map (·.nextTokens)).getD []
  tokens (r.controller.ready i) ++ tokens (r.controller.stagedEager i)

def promptCache (prompts : List (List Nat)) : KvCache := fun i p => some ((promptOf prompts i).take (p + 1))

theorem kvPrefilled_promptCache (prs : List (List Nat)) :
    KvPrefilled prs.length (promptOf prs) (promptCache prs) := fun _ _ _ _ => rfl

def preemptivePrompts : List (List Nat) := [[7], [8, 9], [1, 2, 3, 4, 5]]

def preemptiveParams : List NativeSamplingParams := SamplingArg.default.toList 3 preemptiveRun.cfg

theorem launched_preemptiveRun : PearlLaunched preemptiveRun preemptivePrompts .default preemptiveParams :=
  ⟨by decide, rfl, preemptiveOrder_perm, rfl⟩

def preemptiveStart : PearlRank := preemptiveRun.init (prefilled preemptiveRun.models preemptivePrompts preemptiveParams)

def eagerStart : RhythmRank := eagerRun.init (prefilled eagerRun.models eagerPrompts eagerParams)

theorem preemptiveRun_second : ∃ e₁ ranks1 ranks2 e2,
    Reach (pearlIteration preemptiveRun) (preemptiveStart, preemptiveStart) [e₁] ranks1 ∧
      pearlIteration preemptiveRun ranks1 = .ok (.next ranks2 e2) ∧ e2.target ≠ [] := by
  obtain ⟨ranks1, e₁, hr, hn⟩ := Reach.start.exists_nextOf
    (show (nextOf (pearlIteration preemptiveRun) (preemptiveStart, preemptiveStart)).any (fun p =>
      (nextOf (pearlIteration preemptiveRun) p.1).any fun q => !q.2.target.isEmpty) = true by decide +kernel)
  obtain ⟨ranks2, e2, hb, hne⟩ := exists_of_nextOf hn
  exact ⟨e₁, ranks1, ranks2, e2, hr, hb, by simpa using hne⟩

theorem eagerRun_second : ∃ e₁ ranks1 ranks2 e2,
    Reach (rhythmIteration eagerRun) (eagerStart, eagerStart) [e₁] ranks1 ∧
      rhythmIteration eagerRun ranks1 = .ok (.next ranks2 e2) ∧ e2.target ≠ [] ∧ ranks1.2.mailTokens 0 ≠ [] ∧
      ranks1.2.completedStates 0 = none := by
  obtain ⟨ranks1, e₁, hr, hn⟩ := Reach.start.exists_nextOf
    (show (nextOf (rhythmIteration eagerRun) (eagerStart, eagerStart)).any (fun p =>
      (nextOf (rhythmIteration eagerRun) p.1).any fun q =>
        !q.2.target.isEmpty && !(p.1.2.mailTokens 0).isEmpty && (p.1.2.completedStates 0).isNone) = true by decide +kernel)
  obtain ⟨ranks2, e2, hb, hne⟩ := exists_of_nextOf hn
  simp only [Bool.and_eq_true, Bool.not_eq_true', isEmpty_eq_false_iff, isNone_iff_eq_none] at hne
  exact ⟨e₁, ranks1, ranks2, e2, hr, hb, hne.1.1, hne.1.2, hne.2⟩

theorem forwards_fresh_second :
    (∃ e₁ d t ranks e, Reach (pearlIteration preemptiveRun) (preemptiveStart, preemptiveStart) [e₁] (d, t) ∧
      pearlIteration preemptiveRun (d, t) = .ok (.next ranks e) ∧ e.target ≠ [] ∧
      RoundFresh (fun i => (resultState preemptiveRun d i).tokenIds) (fun i => (resultState preemptiveRun t i).tokenIds)
        (kvAfter (promptCache preemptivePrompts, promptCache preemptivePrompts) [e₁]) e) ∧
    ∃ e₁ d t ranks e, Reach (rhythmIteration eagerRun) (eagerStart, eagerStart) [e₁] (d, t) ∧
      rhythmIteration eagerRun (d, t) = .ok (.next ranks e) ∧ e.target ≠ [] ∧
      RoundFresh (fun i => (d.states i).tokenIds) (fun i => (t.states i).tokenIds)
        (kvAfter (promptCache eagerPrompts, promptCache eagerPrompts) [e₁]) e := by
  obtain ⟨e₁, ⟨d, t⟩, ranks, e, hr, hb, hne⟩ := preemptiveRun_second
  obtain ⟨e₁', ⟨d', t'⟩, ranks', e', hr', hb', hne', -⟩ := eagerRun_second
  refine ⟨⟨e₁, d, t, ranks, e, hr, hb, hne, ?_⟩, e₁', d', t', ranks', e', hr', hb', hne', ?_⟩
  · exact forwards_fresh.1 preemptiveRun preemptivePrompts .default preemptiveParams _ launched_preemptiveRun
      (kvPrefilled_promptCache _) (kvPrefilled_promptCache _) _ d t ranks e hr hb
  · exact forwards_fresh.2 eagerRun eagerPrompts _ eagerParams _ launched_eagerRun
      (policy_sound eagerConfig) (kvPrefilled_promptCache _) (kvPrefilled_promptCache _) _ d' t' ranks' e' hr' hb'

/-! ## The replicas in step -/

variable {pa : NativeSamplingParams}

theorem mailTokens_eq (h : Flight run pr windows draft t) (i : Nat) : t.mailTokens i = inFlight (windows i) := by
  have hpa : ∀ p ∈ windows i, t.payloads p.ticket.proposalId = some p := fun p hp =>
    (h.payloads _ p).mpr ⟨rfl, by rwa [(h.chain i).request p hp]⟩
  have hs := h.short i
  unfold RhythmRank.mailTokens
  simp only [h.ready, h.staged]
  rcases hw : windows i with _ | ⟨p, _ | ⟨q, _ | ⟨q', ps⟩⟩⟩
  · rfl
  · simp [inFlight, hpa p (by simp [hw])]
  · simp [inFlight, hpa p (by simp [hw]), hpa q (by simp [hw])]
  · rw [hw] at hs
    simp at hs

/-- The two replicas of a request, the draft ahead by `ahead`. -/
structure InSync (d t : PearlPipelineState) (ahead : List Int) : Prop where
  tokens : d.tokenIds = t.tokenIds ++ ahead
  committed : d.committedLength = t.committedLength
  preVerify : d.preVerify = t.preVerify
  epoch : d.continuationEpoch = t.continuationEpoch
  pre : t.preVerify = true → t.tokenIds.length = t.committedLength
  post : t.preVerify = false → 0 < t.pendingWindowSize ∧
    t.tokenIds.length = t.committedLength + t.pendingWindowSize - 1
  nonneg : ∀ x ∈ d.tokenIds, 0 ≤ x

/-- A round in which no model is run on a placeholder. -/
def AttendsTokens (e : RoundForwards) : Prop :=
  (∀ rows ∈ e.draft, ∀ row ∈ rows, ∀ x ∈ row.prefixIds, 0 ≤ x) ∧ ∀ row ∈ e.target, ∀ x ∈ row.prefixIds, 0 ≤ x

theorem inSync_of_requestOk {pr : List Int} (h : RequestOk models gamma pr pa s) (ahead : List Int) (ha : ∀ x ∈ ahead, 0 ≤ x) :
    InSync (s.extend ahead) s ahead := by
  refine ⟨rfl, rfl, rfl, rfl, fun hp => (h.pre hp).1, fun hp => ?_, fun x hx => ?_⟩
  · obtain ⟨hpos, -, hl⟩ := h.post hp
    omega
  · rcases mem_append.mp hx with hx | hx
    · exact h.nonneg x hx
    · exact ha x hx

theorem truncateCompletion_subset (eos : Finset Int) (maxTokens : Nat) (ignoreEos : Bool) (l : List Int) :
    truncateCompletion eos maxTokens ignoreEos l ⊆ l := by
  intro x hx
  unfold truncateCompletion at hx
  simp only at hx
  split at hx
  · exact mem_of_mem_take hx
  split at hx
  · exact mem_of_mem_take (mem_of_mem_take hx)
  · exact mem_of_mem_take hx

theorem committedCompletion_nonneg {pr : List Int} (h : RequestOk models gamma pr pa s) :
    ∀ x ∈ s.committedCompletionTokenIds, 0 ≤ x := fun x hx =>
  h.nonneg x (mem_of_mem_take (mem_of_mem_drop hx))

theorem attendsTokens_of_iterated {run : PearlRun} {pa : Nat → NativeSamplingParams} (hit : Iterated run pr pa r r' e) : AttendsTokens e := by
  obtain ⟨sch, active, v, w, hs, hr⟩ := hit
  have hn : ∀ i ∈ active, ∀ x ∈ (sch.states i).tokenIds, 0 ≤ x := fun i hi =>
    (hs.inv.rows i (hs.lt i hi)).nonneg
  rw [hr.forwards]
  refine ⟨draftForwards_nonneg hn fun i _ x hx => draftWindow_nonneg x (mem_of_mem_take hx), ?_⟩
  exact targetForward_nonneg (fun i hi => (hs.inv.rows i (hs.lt i hi)).toRowOk) (fun i hi => (hr.width_le i hi).1) hn

theorem attendsTokens_of_stepped (h : Between run pr windows draft t)
    (hs : Stepped run windows draft t windows' t' e) : AttendsTokens e := by
  cases hs with
  | idle _ _ _ _ _ => exact ⟨by simp, by simp⟩
  | @cycle cp rs rowOf ticketOf v w windows' t' e hc =>
    rw [hc.forwards]
    refine ⟨draftForwards_nonneg ?_ ?_, ?_⟩
    · intro i hi
      obtain ⟨hlt, hn⟩ := h.active_lt (hc.rows.active i hi)
      rw [h.ahead i hlt hn]
      exact (inSync_of_requestOk (h.request i hlt) _ (h.chain i).nonneg).nonneg
    · intro i _ x hx
      rw [take_paddedWindow] at hx
      exact draftWindow_nonneg x hx
    · have hlt : ∀ i ∈ cp.targets, i < run.requests := fun i hi => (h.active_lt (hc.planned.target i hi).1).1
      exact targetForward_nonneg (fun i hi => (h.request i (hlt i hi)).toRowOk) (fun i hi => (hc.width_le i hi).1)
        fun i hi => (h.request i (hlt i hi)).nonneg

section
variable {pa : List NativeSamplingParams}

theorem pearl_inSync {run : PearlRun} (h : PearlLaunched run prs arg pa)
    {d t : PearlRank} (hre : Reach (pearlIteration run) (run.init (prefilled run.models prs pa),
      run.init (prefilled run.models prs pa)) es (d, t)) :
    (∀ i < run.requests, InSync (d.states i) (t.states i) []) ∧ ∀ e ∈ es, AttendsTokens e := by
  obtain ⟨⟨r, hr, hinv⟩, he⟩ := hre.forall_events
    (P := fun rks => ∃ r, rks = (r, r) ∧ LoopInv run (promptOf prs) (paramsOf pa) r)
    ⟨_, rfl, h.loopInv⟩ (by
      rintro _ ranks' e ⟨r, rfl, hinv⟩ hb
      obtain ⟨r', rfl, hit, hinv'⟩ := pearlIteration_next h.runOk hinv hb
      exact ⟨⟨r', rfl, hinv'⟩, attendsTokens_of_iterated hit⟩)
  cases hr
  refine ⟨fun i hi => ?_, he⟩
  have := inSync_of_requestOk (hinv.rows i hi).toRequestOk [] (by simp)
  rwa [show (d.states i).extend [] = d.states i by simp [extend]] at this

theorem generateBatch_nonneg {run : PearlRun} (h : PearlLaunched run prs arg pa) (hout : generateBatch run prs arg fuel = .ok (some out)) :
    ∀ tokens ∈ out, ∀ x ∈ tokens, 0 ≤ x := by
  unfold generateBatch at hout
  simp only [h.admitted, Except.mapError, bind, Except.bind] at hout
  split at hout
  · cases hout
  rename_i ended hloop
  simp only [pure, Except.pure, Except.ok.injEq, map_eq_some_iff] at hout
  obtain ⟨⟨d, t⟩, rfl, rfl⟩ := hout
  obtain ⟨rks, hre, hst⟩ := Reach.start.of_loop hloop
  obtain ⟨r, rfl, hinv⟩ := equal_of_reach h.runOk h.loopInv hre
  rcases pearlIteration_ok h.runOk hinv with ⟨r', hst', hs⟩ | ⟨r', e, hnext, -⟩
  · rw [hst'] at hst
    cases hst
    intro tokens htok x hx
    obtain ⟨i, hi, rfl⟩ := mem_map.mp htok
    have hi := mem_range.mp hi
    have hok := (hs.inv.rows i hi).toRequestOk
    rw [(hs.states i hi).2] at hx
    unfold completionTokenIds at hx
    split at hx <;> exact committedCompletion_nonneg hok x (truncateCompletion_subset _ _ _ _ hx)
  · rw [hnext] at hst
    cases hst

theorem rhythm_inSync (h : Launched run prs arg pa) (hpo : run.shape.Sound run.gamma)
    (hre : Reach (rhythmIteration run) (run.init (prefilled run.models prs pa),
      run.init (prefilled run.models prs pa)) es (d, t)) :
    (∀ i < run.requests, finished run.eos (t.states i) = false ∨ t.completedStates i = none →
      InSync (d.states i) (t.states i) (t.mailTokens i)) ∧ ∀ e ∈ es, AttendsTokens e := by
  have hst : InStep run (promptOf prs) (run.init (prefilled run.models prs pa),
      run.init (prefilled run.models prs pa)) := inStep_of_reach h.rhythmOk hpo h.prefilled .start
  obtain ⟨⟨windows, draft, completed, hd, hbe⟩, hev⟩ := hre.forall_events hst (by
    rintro ⟨d, t⟩ ranks' e ⟨windows, draft, completed, hd, hbe⟩ hb
    simp only at hd
    subst hd
    obtain ⟨windows', draft', completed', t', rfl, hbe', hstep⟩ := rhythmIteration_next h.rhythmOk hpo hbe hb
    exact ⟨⟨windows', draft', completed', rfl, hbe'⟩, attendsTokens_of_stepped hbe hstep⟩)
  simp only at hd hbe
  subst hd
  refine ⟨fun i hi hli => ?_, hev⟩
  have hnone : t.completedStates i = none := by
    rcases hli with hf | hnone
    · cases hs : t.completedStates i with
      | none => rfl
      | some s =>
        obtain ⟨rfl, hdone⟩ := hbe.completed i s hs
        rw [hdone] at hf
        cases hf
    · exact hnone
  show InSync (draft i) (t.states i) (t.mailTokens i)
  rw [hbe.ahead i hi hnone, mailTokens_eq hbe.toFlight]
  exact inSync_of_requestOk (hbe.request i hi) _ (hbe.chain i).nonneg

theorem rhythmIteration_stop (hs : rhythmIteration run rks = .ok (.stop ended)) : ended = rks := by
  unfold rhythmIteration at hs
  simp only at hs
  split at hs
  · cases hs; rfl
  · split at hs
    · simp only [bind_ok] at hs
      obtain ⟨_, -, _, -, hno⟩ := hs
      cases hno
    split at hs
    · cases hs
    · obtain ⟨_, -, hno⟩ := bind_ok.mp hs
      cases hno
  · cases hs

theorem generateSpecRhythmDecode_nonneg (h : Launched run prs arg pa) (hpo : run.shape.Sound run.gamma)
    (hout : generateSpecRhythmDecode run (prefilled run.models prs pa) fuel = .ok (some out)) :
    ∀ tokens ∈ out, ∀ x ∈ tokens, 0 ≤ x := by
  obtain ⟨ended, hloop, hout⟩ := bind_ok.mp hout
  simp only [pure, Except.pure, Except.ok.injEq, map_eq_some_iff] at hout
  obtain ⟨⟨d, t⟩, rfl, rfl⟩ := hout
  obtain ⟨rks, hre, hst⟩ := Reach.start.of_loop hloop
  obtain rfl := rhythmIteration_stop hst
  obtain ⟨windows, draft, completed, -, hbe⟩ := inStep_of_reach h.rhythmOk hpo h.prefilled hre
  intro tokens htok x hx
  obtain ⟨i, hi, rfl⟩ := mem_map.mp htok
  have hok := hbe.request i (mem_range.mp hi)
  have hrs : rhythmResultState run t i = t.states i := by
    cases hs : t.completedStates i with
    | none => rw [rhythmResultState, hs, getD_none, ite_self]
    | some s => rw [rhythmResultState, hs, (hbe.completed i s hs).1, getD_some, ite_self]
  simp only [hrs] at hx
  unfold rhythmCompletionTokenIds at hx
  split at hx <;> exact committedCompletion_nonneg hok x (truncateCompletion_subset _ _ _ _ hx)

end

theorem replicas_inSync :
    (∀ (run : PearlRun) (prompts : List (List Nat)) (arg : SamplingArg) (params : List NativeSamplingParams),
      PearlLaunched run prompts arg params →
      (∀ events d t, Reach (pearlIteration run) (run.init (prefilled run.models prompts params),
          run.init (prefilled run.models prompts params)) events (d, t) →
        (∀ i < run.requests, InSync (d.states i) (t.states i) []) ∧ ∀ e ∈ events, AttendsTokens e) ∧
      ∀ fuel out, generateBatch run prompts arg fuel = .ok (some out) → ∀ tokens ∈ out, ∀ x ∈ tokens, 0 ≤ x) ∧
    (∀ (run : RhythmRun) (prompts : List (List Nat)) (arg : SamplingArg) (params : List NativeSamplingParams),
      Launched run prompts arg params → run.shape.Sound run.gamma →
      (∀ events d t, Reach (rhythmIteration run) (run.init (prefilled run.models prompts params),
          run.init (prefilled run.models prompts params)) events (d, t) →
        (∀ i < run.requests, finished run.eos (t.states i) = false ∨ t.completedStates i = none →
          InSync (d.states i) (t.states i) (t.mailTokens i)) ∧ ∀ e ∈ events, AttendsTokens e) ∧
      ∀ fuel out, generateSpecRhythmDecode run (prefilled run.models prompts params) fuel = .ok (some out) →
        ∀ tokens ∈ out, ∀ x ∈ tokens, 0 ≤ x) := by
  refine ⟨fun run prompts arg params h => ⟨?_, ?_⟩, fun run prompts arg params h hp => ⟨?_, ?_⟩⟩
  · exact fun events d t hr => pearl_inSync h hr
  · exact fun fuel out ho => generateBatch_nonneg h ho
  · exact fun events d t hr => rhythm_inSync h hp hr
  · exact fun fuel out ho => generateSpecRhythmDecode_nonneg h hp ho

theorem replicas_inSync_second :
    (∃ e d t, Reach (pearlIteration preemptiveRun) (preemptiveStart, preemptiveStart) [e] (d, t) ∧
      InSync (d.states 0) (t.states 0) [] ∧ AttendsTokens e) ∧
    ∃ e d t, Reach (rhythmIteration eagerRun) (eagerStart, eagerStart) [e] (d, t) ∧ t.mailTokens 0 ≠ [] ∧
      InSync (d.states 0) (t.states 0) (t.mailTokens 0) ∧ AttendsTokens e := by
  obtain ⟨e, ⟨d, t⟩, -, -, hr, -, -⟩ := preemptiveRun_second
  obtain ⟨e', ⟨d', t'⟩, -, -, hr', -, -, hm, hn⟩ := eagerRun_second
  have hp := (replicas_inSync.1 preemptiveRun preemptivePrompts .default preemptiveParams
    launched_preemptiveRun).1 _ d t hr
  have hrh := (replicas_inSync.2 eagerRun eagerPrompts _ eagerParams launched_eagerRun
    (policy_sound eagerConfig)).1 _ d' t' hr'
  refine ⟨⟨e, d, t, hr, hp.1 0 (by decide), hp.2 e (mem_singleton_self e)⟩,
    e', d', t', hr', hm, hrh.1 0 (by decide) (.inr hn), hrh.2 e' (mem_singleton_self e')⟩

end VllmAscend
