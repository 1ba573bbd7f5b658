import VllmAscend.Rhythm.VerifySound

/-!
# A SpecRhythm cycle

Groups with the same plan draft the same proposals, verify the same windows and
book the same verdicts; finished requests leave and waiting ones enter. Each
part keeps `Flight`, and at the end of the cycle no window is left behind an
unverified one.
-/

namespace VllmAscend

open Python Packed Rows Run PearlPipelineState RhythmRank List Function

variable {cp : CyclePlan} {rs : List Nat} {rowOf : Nat → WorkRow} {ticketOf : Nat → SpecRhythmProposalTicket}

section
variable {run : RhythmRun} {pr : Nat → List Int} {ws : Nat → List DevicePayload} {dr : States}
  {t : RhythmRank} {co : Nat → Option PearlPipelineState}

/-! ## Admission -/

structure Moved (t t' : RhythmRank) : Prop where
  rank : ∃ c, t' = { t with
    controller := { t.controller with requestStates := c }
    activeIndices := t'.activeIndices
    pendingAdmission := t'.pendingAdmission }
  perm : (t'.activeIndices ++ t'.pendingAdmission).Perm (t.activeIndices ++ t.pendingAdmission)
  active : t.activeIndices ⊆ t'.activeIndices
  epoch : ∀ i, (t'.controller.requestStates i).map (·.prefixEpoch) = (t.controller.requestStates i).map (·.prefixEpoch)

theorem Moved.refl (t : RhythmRank) : Moved t t := ⟨⟨_, rfl⟩, .refl _, List.Subset.refl _, fun _ => rfl⟩

theorem Moved.trans (h : Moved t1 t2) (h' : Moved t2 t3) : Moved t1 t3 := by
  obtain ⟨c, hc⟩ := h.rank
  obtain ⟨c', hc'⟩ := h'.rank
  exact ⟨⟨c', hc'.trans (by rw [hc])⟩, h'.perm.trans h.perm, List.Subset.trans h.active h'.active,
    fun i => (h'.epoch i).trans (h.epoch i)⟩

variable {t' : RhythmRank}

theorem Moved.states (h : Moved t t') :
    t'.states = t.states ∧ t'.completedStates = t.completedStates ∧ t'.roundCount = t.roundCount := by
  obtain ⟨c, hc⟩ := h.rank
  rw [hc]; exact ⟨rfl, rfl, rfl⟩

theorem Flight.moved (h : Flight run pr ws dr t) (hm : Moved t t') (ms : ℚ) (roundCount ticks : Nat) :
    Flight run pr ws dr { t' with lastCycleMs := ms, roundCount := roundCount, ticks := ticks } := by
  obtain ⟨⟨c, hc⟩, hperm, hact, hep⟩ := hm
  rw [hc] at hep ⊢
  refine ⟨?_, h.short, h.payloads, h.fresh, hperm.nodup_iff.mpr h.nodup, ?_, ?_, h.request, ?_, h.chain, h.ahead,
    h.completed⟩
  · have hma := h.mail
    unfold SpecRhythmPipelineController.holding at hma ⊢
    simp only [SpecRhythmPipelineController.mk.injEq, true_and]
    exact ⟨congrArg SpecRhythmPipelineController.ready hma, congrArg SpecRhythmPipelineController.stagedEager hma⟩
  · intro i
    exact hperm.mem_iff.trans (h.uncompleted i)
  · intro i hi
    exact hact (h.flying i hi)
  · intro i hi
    obtain ⟨state, hst, hs⟩ := h.registered i hi
    have := hep i
    rw [hst] at this
    obtain ⟨state', hst', he⟩ := Option.map_eq_some_iff.mp this
    exact ⟨state', hst', he.trans hs⟩

theorem moved_admitRequest (now : ℚ) (hi : i ∈ t.pendingAdmission) : Moved t (t.admitRequest run now i) := by
  refine ⟨⟨_, rfl⟩, ?_, subset_append_left _ _, fun j => ?_⟩
  · show (t.activeIndices ++ [i] ++ t.pendingAdmission.erase i).Perm _
    rw [append_assoc]
    exact (perm_cons_erase hi).symm.append_left _
  · simp only [admitRequest]
    by_cases hj : j = i
    · subst hj
      rw [update_self, Option.map_map]; rfl
    · rw [update_of_ne hj]

theorem moved_admitLoop (run : RhythmRun) (now : ℚ) : ∀ (free : Nat) (t : RhythmRank), Moved t (admitLoop run now free t)
  | 0, t => .refl t
  | free + 1, t => by
    unfold admitLoop
    split
    · exact .refl t
    · rename_i i hi
      exact (moved_admitRequest now (mem_of_find?_eq_some hi)).trans (moved_admitLoop run now free _)

theorem moved_admitReady (run : RhythmRun) (now : ℚ) (t : RhythmRank) : Moved t (admitReady run now t) :=
  moved_admitLoop run now _ t

theorem admitLoop_asDraft (now : ℚ) (states : States) (co : Nat → Option PearlPipelineState) :
    ∀ (free : Nat) (t : RhythmRank), admitLoop run now free (t.asDraft states co) =
      (admitLoop run now free t).asDraft states co
  | 0, _ => rfl
  | free + 1, t => by
    unfold admitLoop
    rw [show (t.asDraft states co).pendingAdmission = t.pendingAdmission from rfl]
    split
    · rfl
    · rename_i i hi
      exact admitLoop_asDraft now states co free (t.admitRequest run now i)

theorem admitReady_asDraft (now : ℚ) (states : States) :
    admitReady run now (t.asDraft states co) = (admitReady run now t).asDraft states co :=
  admitLoop_asDraft now states co _ t

theorem admitReady_waiting (hpos : 0 < run.initialBatchSize) (now : ℚ)
    (hn : (admitReady run now t).activeIndices = []) :
    ∀ i ∈ (admitReady run now t).pendingAdmission, run.arrived now i = false := by
  have hs : t.activeIndices = [] := subset_nil.mp (hn ▸ (moved_admitReady run now t).active)
  unfold admitReady at hn ⊢
  rw [hs, length_nil, Nat.sub_zero] at hn ⊢
  obtain ⟨free, hfree⟩ := Nat.exists_eq_succ_of_ne_zero hpos.ne'
  rw [hfree] at hn ⊢
  unfold admitLoop at hn ⊢
  cases hf : t.pendingAdmission.find? (run.arrived now) with
  | none =>
    intro i hi
    simpa using find?_eq_none.mp hf i hi
  | some i =>
    rw [hf] at hn
    have hin : i ∈ (t.admitRequest run now i).activeIndices := mem_append_right _ (by simp)
    have := (moved_admitLoop run now free _).active hin
    rw [hn] at this
    cases this

/-! ## Completion -/

def RhythmRank.leaving (t : RhythmRank) (windows : Nat → List DevicePayload) (done : List Nat) : RhythmRank :=
  { t with
    controller := t.controller.holding (patch done (fun _ => []) windows)
    payloads := fun pid => (t.payloads pid).filter fun p => p.ticket.requestIndex ∉ done
    completedStates := patch done (fun i => some (t.states i)) t.completedStates }

theorem completeRequest_leaving (done : List Nat) (i : Nat) :
    completeRequest (t.leaving ws done) i = t.leaving ws (done ++ [i]) := by
  have hc : (t.leaving ws (done ++ [i])).controller = (t.leaving ws done).controller.invalidateRequest i := by
    show SpecRhythmPipelineController.holding _ _ = _
    rw [← update_patch, holding_update]
    rfl
  have hp : (t.leaving ws (done ++ [i])).payloads =
      fun pid => ((t.leaving ws done).payloads pid).filter fun p => p.ticket.requestIndex ≠ i := by
    funext pid
    simp only [leaving, Option.filter_filter]
    congr 1
    funext p
    simp [Bool.and_comm]
  have hs : (t.leaving ws (done ++ [i])).completedStates =
      update (t.leaving ws done).completedStates i (some (t.states i)) :=
    (update_patch done i _ t.completedStates).symm
  unfold completeRequest invalidate
  simp only [← hc, ← hp]
  rw [show (t.leaving ws done).states = t.states from rfl, ← hs]
  rfl

theorem foldl_completeRequest : ∀ (l done : List Nat),
    l.foldl completeRequest (t.leaving ws done) = t.leaving ws (done ++ l)
  | [], done => by rw [append_nil]; rfl
  | i :: l, done => by
    rw [foldl_cons, completeRequest_leaving, foldl_completeRequest l, append_assoc]; rfl

theorem leaving_nil (h : Flight run pr ws dr t) : t.leaving ws [] = t := by
  have hp : (fun pid => (t.payloads pid).filter fun p => p.ticket.requestIndex ∉ ([] : List Nat)) = t.payloads := by
    funext pid
    cases t.payloads pid <;> simp
  unfold leaving
  rw [patch_nil, patch_nil, ← h.mail, hp]

theorem Flight.left (h : Flight run pr ws dr t) (hsub : done ⊆ t.activeIndices)
    (hf : ∀ i ∈ done, finished run.eos (t.states i) = true) :
    Flight run pr (patch done (fun _ => []) ws) dr
      { t.leaving ws done with activeIndices := t.activeIndices.filter (· ∉ done) } := by
  have hmem : ∀ i p, p ∈ patch done (fun _ => []) ws i ↔ i ∉ done ∧ p ∈ ws i := by
    intro i p
    unfold patch
    split <;> simp [*]
  have hnone : ∀ i, patch done (fun i => some (t.states i)) t.completedStates i = none ↔
      i ∉ done ∧ t.completedStates i = none := by
    intro i
    unfold patch
    split <;> simp [*]
  refine ⟨rfl, ?_, ?_, ?_, ?_, ?_, ?_, h.request, h.registered, ?_, ?_, ?_⟩
  · intro i
    unfold patch
    split
    · exact Nat.zero_le _
    · exact h.short i
  · intro pid p
    simp only [leaving, Option.filter_eq_some_iff, decide_eq_true_eq, hmem, h.payloads pid p]
    tauto
  · intro i p hp
    exact h.fresh i p ((hmem i p).mp hp).2
  · exact h.nodup.sublist (filter_sublist.append_right _)
  · intro i
    show i ∈ t.activeIndices.filter (· ∉ done) ++ t.pendingAdmission ↔
      i < run.requests ∧ patch done (fun i => some (t.states i)) t.completedStates i = none
    have hu := h.uncompleted i
    have hdi : i ∈ done → i ∉ t.pendingAdmission := fun hd hp =>
      (nodup_append.mp h.nodup).2.2 i (hsub hd) i hp rfl
    rw [hnone]
    simp only [mem_append, mem_filter, decide_eq_true_eq] at hu ⊢
    tauto
  · intro i hi
    unfold patch at hi
    split at hi
    · exact absurd rfl hi
    · exact mem_filter.mpr ⟨h.flying i hi, by simpa⟩
  · intro i
    unfold patch
    split
    · trivial
    · exact h.chain i
  · intro i hi hc
    obtain ⟨hnot, hc⟩ := (hnone i).mp hc
    rw [patch_of_notMem hnot]
    exact h.ahead i hi hc
  · intro i s hs
    simp only [leaving, patch] at hs
    split at hs
    · cases hs
      exact ⟨rfl, hf i ‹_›⟩
    · exact h.completed i s hs

/-! ## The end of a cycle -/

def RhythmRank.booked (run : RhythmRun) (t : RhythmRank) : RhythmRank :=
  let booked := fun i =>
    if i ∈ t.activeIndices then (t.controller.requestStates i).map (·.addDecodeTime (run.elapsed t.roundCount))
    else t.controller.requestStates i
  { t with
    lastCycleMs := run.elapsed t.roundCount
    controller := { t.controller with requestStates := booked } }

theorem Flight.booked (h : Flight run pr ws dr t) : Flight run pr ws dr (t.booked run) := by
  have hm : Moved t { t with controller := (t.booked run).controller } := by
    refine ⟨⟨_, rfl⟩, .refl _, List.Subset.refl _, fun i => ?_⟩
    simp only [RhythmRank.booked]
    split
    · rw [Option.map_map]; rfl
    · rfl
  exact h.moved hm _ _ _

def RhythmRank.without (run : RhythmRun) (t : RhythmRank) (windows : Nat → List DevicePayload) (done : List Nat) :
    RhythmRank :=
  { (t.booked run).leaving windows done with activeIndices := t.activeIndices.filter (· ∉ done) }

theorem endCycle_eq (h : Flight run pr ws dr t) (done : List Nat) : endCycle run t done =
    { admitReady run (run.clock t.ticks) (t.without run ws done) with
      ticks := t.ticks + 1, roundCount := t.roundCount + 1 } := by
  have hl : done.foldl completeRequest (t.booked run) = (t.booked run).leaving ws done := by
    conv_lhs => rw [← leaving_nil h.booked]
    rw [foldl_completeRequest, nil_append]
  unfold without
  rw [← hl]
  rfl

theorem foldl_completeRequest_asDraft (dr : States) : ∀ (l : List Nat) (t : RhythmRank) (co : Nat → Option PearlPipelineState),
    ∃ co', l.foldl completeRequest (t.asDraft dr co) =
      (l.foldl completeRequest t).asDraft dr co'
  | [], _, co => ⟨co, rfl⟩
  | i :: l, t, co =>
    foldl_completeRequest_asDraft dr l (completeRequest t i) (update co i (some (dr i)))

theorem endCycle_asDraft (run : RhythmRun) (t : RhythmRank) (dr : States)
    (co : Nat → Option PearlPipelineState) (done : List Nat) : ∃ co', endCycle run (t.asDraft dr co) done =
    (endCycle run t done).asDraft dr co' := by
  obtain ⟨co', h⟩ := foldl_completeRequest_asDraft dr done (t.booked run) co
  refine ⟨co', ?_⟩
  have hr : endCycle run (t.asDraft dr co) done =
      { admitReady run (run.clock t.ticks)
          { done.foldl completeRequest ((t.booked run).asDraft dr co) with
            activeIndices := t.activeIndices.filter (· ∉ done) } with
        ticks := t.ticks + 1, roundCount := t.roundCount + 1 } := rfl
  rw [hr, h, show { (done.foldl completeRequest (t.booked run)).asDraft dr co' with
      activeIndices := t.activeIndices.filter (· ∉ done) } =
    asDraft { done.foldl completeRequest (t.booked run) with
      activeIndices := t.activeIndices.filter (· ∉ done) } dr co' from rfl, admitReady_asDraft]
  rfl

section
variable (h : Flight run pr ws dr t)
include h

theorem endCycle_states (done : List Nat) : (endCycle run t done).states = t.states ∧
    (endCycle run t done).completedStates = patch done (fun i => some (t.states i)) t.completedStates := by
  obtain ⟨hs, hc, -⟩ := (moved_admitReady run (run.clock t.ticks) _).states
  rw [endCycle_eq h]
  exact ⟨hs, hc⟩

theorem endCycle_ticks (done : List Nat) : (endCycle run t done).ticks = t.ticks + 1 := by
  rw [endCycle_eq h]

omit h in
theorem endCycle_waiting (hpos : 0 < run.initialBatchSize) (hn : (endCycle run t done).activeIndices = []) :
    ∀ i ∈ (endCycle run t done).pendingAdmission, run.arrived (run.clock t.ticks) i = false :=
  admitReady_waiting hpos _ hn

theorem Flight.endCycle (hs : done ⊆ t.activeIndices) (hf : ∀ i ∈ done, finished run.eos (t.states i) = true) :
    Flight run pr (patch done (fun _ => []) ws) dr (endCycle run t done) := by
  rw [endCycle_eq h]
  have hl : Flight run pr (patch done (fun _ => []) ws) dr (t.without run ws done) :=
    h.booked.left hs hf
  exact hl.moved (moved_admitReady run _ _) _ _ _

end

/-! ## A cycle -/

/-- Between cycles: no window is in flight behind another, and a batch is empty only if nobody has arrived. -/
structure Between (run : RhythmRun) (prompt : Nat → List Int) (windows : Nat → List DevicePayload) (draft : States)
    (t : RhythmRank) : Prop extends Flight run prompt windows draft t where
  settled : Settled windows
  waiting : t.activeIndices = [] → ∀ i ∈ t.pendingAdmission, run.arrived (run.clock (t.ticks - 1)) i = false

structure RhythmOk (run : RhythmRun) : Prop where
  gamma_pos : 0 < run.gamma
  batch_pos : 0 < run.initialBatchSize
  confidence : ∀ round i, 0 ≤ run.confidence round i ∧ run.confidence round i ≤ 1
  temperature : (∀ i < run.requests, (run.params i).temperature = 0) ∨ ∀ i < run.requests, 0 < (run.params i).temperature

theorem publishProposals_asDraft {new : List DevicePayload} (h : publishProposals t cp new = .ok t') (states : States) :
    publishProposals (t.asDraft states co) cp new = .ok (t'.asDraft states co) := by
  unfold publishProposals at h ⊢
  split at h
  · cases h
  · cases h; rfl

def proposedWindows (run : RhythmRun) (windows : Nat → List DevicePayload) (draft : States) (t : RhythmRank)
    (requests : List Nat) (rowOf : Nat → WorkRow) (ticketOf : Nat → SpecRhythmProposalTicket) :
    Nat → List DevicePayload :=
  pushed windows (proposed run windows draft t rowOf ticketOf) requests

def proposedDraft (run : RhythmRun) (windows : Nat → List DevicePayload) (draft : States) (t : RhythmRank)
    (requests : List Nat) (rowOf : Nat → WorkRow) (ticketOf : Nat → SpecRhythmProposalTicket) : States :=
  patch requests (fun i => (draft i).extend (proposed run windows draft t rowOf ticketOf i).nextTokens) draft

def proposedRank (run : RhythmRun) (windows : Nat → List DevicePayload) (draft : States) (t : RhythmRank)
    (cp : CyclePlan) (requests : List Nat) (rowOf : Nat → WorkRow) (ticketOf : Nat → SpecRhythmProposalTicket) :
    RhythmRank :=
  t.withProposals cp (proposedWindows run windows draft t requests rowOf ticketOf)
    (requests.map (proposed run windows draft t rowOf ticketOf))

def cycleForwards (run : RhythmRun) (draft : States) (round : Nat) (requests : List Nat) (rowOf : Nat → WorkRow) :
    List (List ForwardRow) :=
  draftForwards draft (requests.map fun i => (i, (rowOf i).budget))
    (requests.map fun i => paddedWindow (run.models.draft round) run.gamma draft i (rowOf i).budget)

section
variable (ho : RhythmOk run) (h : Between run pr ws dr t)
  (hd : planCycle run (t.asDraft dr co) = .ok cp) (ht : planCycle run t = .ok cp)
  (hcp : Planned run ws t cp) (hp : PlannedRows run ws t cp rs rowOf ticketOf)
include ho h hd ht hcp hp

theorem rhythmCycle_eq : rhythmCycle run (t.asDraft dr co) t = (do
    let outputs ← if cp.targets = [] then pure ⟨[], []⟩
      else (targetRoundOutputsBatch run.models.target run.gamma run.cfg.targetVerificationGraphBuckets
        run.cfg.targetVerificationGraphPostCounts t.states cp.targets
        (some (cp.targetPayloads.map (·.verificationSize)))).mapError .raised
    let t1 := proposedRank run ws dr t cp rs rowOf ticketOf
    let d1 := t1.asDraft (proposedDraft run ws dr t rs rowOf ticketOf) co
    if cp.targets = [] then
      return (endCycle run d1 [], endCycle run t1 [], ⟨cycleForwards run dr t.roundCount rs rowOf, []⟩)
    let ((d2, draftFinished), (t2, targetFinished)) ← verifyCycle run d1 t1 cp cp outputs
    return (endCycle run d2 draftFinished, endCycle run t2 targetFinished,
      ⟨cycleForwards run dr t.roundCount rs rowOf, outputs.forward⟩)) := by
  have hwi : ∀ i ∈ rs, (nextWindow run dr t rowOf i).length = run.gamma :=
    fun i hi => length_paddedWindow (hp.row i hi).budget.2
  have hca : ∀ i ∈ rs, ((tip run.gamma (t.states i) (ws i)).candidates
      (nextWindow run dr t rowOf i)).length = (rowOf i).verificationSize := by
    intro i hi
    have hrow := (h.request i (h.active_lt (hp.active i hi)).1).toRowOk
    rw [(hp.row i hi).size]
    refine length_candidates (rowOk_tip hrow (h.chain i)) ?_
    rw [hwi i hi]
    exact ho.gamma_pos
  have hsi : cp.work.map (·.verificationSize) = rs.map fun i => (rowOf i).verificationSize := by
    rw [hp.work, map_map]; rfl
  have hdr : _ = Except.ok (DraftProposals.mk _ _ _ (cycleForwards run dr t.roundCount rs rowOf)) :=
    draftSpecRhythmDeviceBatch_ok h.toFlight hp ho.gamma_pos (run.confidence t.roundCount)
  have hec := exchange_ok ticketOf (run.confidence t.roundCount) hca hwi
    (cycleForwards run dr t.roundCount rs rowOf)
  have hre := receivedTensors_ok ticketOf (run.confidence t.roundCount) hca hwi
  have hma : materializeSpecRhythmPayloads _ _ _ (rs.map (nextWindow run dr t rowOf)) _ =
      rs.map (proposed run ws dr t rowOf ticketOf) := (materialize_ok hca :)
  have hpu := publishProposals_ok h.toFlight hcp h.settled hp (proposed run ws dr t rowOf ticketOf) fun _ => rfl
  have hext : extendDraft cp.work (rs.map (nextWindow run dr t rowOf)) (t.asDraft dr co) =
      t.asDraft (proposedDraft run ws dr t rs rowOf ticketOf) co := by
    rw [extendDraft_eq hp]
    congr 1
    funext i
    unfold proposedDraft patch
    split
    · rename_i hi
      simp only [proposed, payloadOf, nextWindow, (hp.ticket i hi).gamma]
    · rfl
  unfold rhythmCycle
  simp only [hd, ht, Except.mapError, bind, Except.bind]
  rw [show (t.asDraft dr co).states = dr from rfl,
    show (t.asDraft dr co).roundCount = t.roundCount from rfl, hdr]
  simp only [hsi, hp.tickets, hext, hec, hre, hma, hpu, publishProposals_asDraft hpu, or_self, and_self]
  by_cases hno : cp.targets = []
  · simp only [hno, if_true]
    rfl
  · simp only [hno, if_false]
    rfl

end

/-- What a cycle of plan `cp` does: the verdicts `v`, the rows each group ran, and who is done. -/
structure CycleOk (run : RhythmRun) (windows : Nat → List DevicePayload) (draft : States) (t : RhythmRank)
    (cp : CyclePlan) (requests : List Nat) (rowOf : Nat → WorkRow) (ticketOf : Nat → SpecRhythmProposalTicket)
    (v : Nat → Nat × Int) (width : Nat → Nat) (windows' : Nat → List DevicePayload) (t' : RhythmRank)
    (forwards : RoundForwards) : Prop where
  planned : Planned run windows t cp
  rows : PlannedRows run windows t cp requests rowOf ticketOf
  verdict : ∀ i ∈ cp.targets, RowVerdictOk run.models run.gamma (t.states i) (front windows i).nextTokens (v i)
  width_le : ∀ i ∈ cp.targets, (t.states i).windowSize run.gamma ≤ width i ∧ width i ≤ run.gamma
  states : ∀ i, t'.states i = if i ∈ cp.targets then settled run (t.states i) (front windows i) (v i) else t.states i
  completed : ∀ i, t'.completedStates i =
    if i ∈ cp.targets ∧ finished run.eos (t'.states i) then some (t'.states i) else t.completedStates i
  flying : ∀ i, windows' i = if i ∈ cp.targets ∧ finished run.eos (t'.states i) then []
    else if i ∈ cp.targets then
      surviving run.gamma (t.states i) (proposedWindows run windows draft t requests rowOf ticketOf i).tail (v i).1
    else proposedWindows run windows draft t requests rowOf ticketOf i
  ticks : t'.ticks = t.ticks + 1
  forwards : forwards = ⟨cycleForwards run draft t.roundCount requests rowOf,
    cp.targets.flatMap fun i => targetRows i (t.states i) ((t.states i).windowSize run.gamma) (width i)⟩

section
variable (ho : RhythmOk run) (h : Between run pr ws dr t) (hcp : Planned run ws t cp)
  (hp : PlannedRows run ws t cp rs rowOf ticketOf)

theorem proposedRank_states : (proposedRank run ws dr t cp rs rowOf ticketOf).states = t.states := rfl

theorem proposedWindows_of_mem (hi : i ∈ rs) : proposedWindows run ws dr t rs rowOf ticketOf i =
      ws i ++ [proposed run ws dr t rowOf ticketOf i] := patch_of_mem hi (fun i => ws i ++ [_]) _

theorem proposedWindows_of_notMem (hi : i ∉ rs) :
    proposedWindows run ws dr t rs rowOf ticketOf i = ws i :=
  patch_of_notMem hi (fun i => ws i ++ [_]) _

include h hcp in
theorem proposedWindows_target {i : Nat} (hi : i ∈ cp.targets) :
    proposedWindows run ws dr t rs rowOf ticketOf i =
      front ws i :: (proposedWindows run ws dr t rs rowOf ticketOf i).tail := by
  have heq := h.settled.eq_front (hcp.target i hi).2
  by_cases hir : i ∈ rs
  · rw [proposedWindows_of_mem hir, heq]; rfl
  · rw [proposedWindows_of_notMem hir, heq]; rfl

theorem length_proposedWindows_le (i : Nat) :
    (proposedWindows run ws dr t rs rowOf ticketOf i).length ≤ (ws i).length + 1 := by
  by_cases hir : i ∈ rs
  · rw [proposedWindows_of_mem hir, length_append]
    exact le_refl _
  · rw [proposedWindows_of_notMem hir]
    exact Nat.le_succ _

include h hp in
theorem length_proposedWindows {i : Nat} (hi : i ∉ cp.targets) :
    (proposedWindows run ws dr t rs rowOf ticketOf i).length ≤ 1 := by
  by_cases hir : i ∈ rs
  · have hn : ws i = [] := by
      by_contra hne
      exact hi (hp.behind i hir hne)
    rw [proposedWindows_of_mem hir, hn]
    exact le_refl _
  · rw [proposedWindows_of_notMem hir]
    exact h.settled i

include ho h hcp hp in
theorem cycleOk_endCycle {v : Nat → Nat × Int} (width : Nat → Nat) {windows2 : Nat → List DevicePayload}
    {draft2 : States} {t2 : RhythmRank}
    (hv : ∀ i ∈ cp.targets, RowVerdictOk run.models run.gamma (t.states i) (front ws i).nextTokens (v i))
    (hwi : ∀ i ∈ cp.targets, (t.states i).windowSize run.gamma ≤ width i ∧ width i ≤ run.gamma)
    (hall : Verified run pr cp.targets (front ws) v
      (proposedWindows run ws dr t rs rowOf ticketOf)
      (proposedRank run ws dr t cp rs rowOf ticketOf) windows2 draft2 t2) :
    ∃ windows', Between run pr windows' draft2 (endCycle run t2
        (cp.targets.filter fun i => finished run.eos (settled run (t.states i) (front ws i) (v i)))) ∧
      CycleOk run ws dr t cp rs rowOf ticketOf v width windows' (endCycle run t2
        (cp.targets.filter fun i => finished run.eos (settled run (t.states i) (front ws i) (v i))))
        ⟨cycleForwards run dr t.roundCount rs rowOf,
          cp.targets.flatMap fun i => targetRows i (t.states i) ((t.states i).windowSize run.gamma) (width i)⟩ := by
  generalize hdone : (cp.targets.filter fun i =>
    finished run.eos (settled run (t.states i) (front ws i) (v i))) = done
  have hst : ∀ i, t2.states i =
      if i ∈ cp.targets then settled run (t.states i) (front ws i) (v i) else t.states i := hall.states
  obtain ⟨c, payloads, hfr⟩ := hall.frame
  have hact : t2.activeIndices = t.activeIndices := by rw [hfr]; rfl
  have hti : t2.ticks = t.ticks := by rw [hfr]; rfl
  have hco : t2.completedStates = t.completedStates := by rw [hfr]; rfl
  have hmem : ∀ i, i ∈ done ↔ i ∈ cp.targets ∧ finished run.eos (t2.states i) = true := by
    intro i
    rw [← hdone, mem_filter, hst]
    by_cases hi : i ∈ cp.targets
    · rw [if_pos hi]
    · simp [hi]
  have hend := endCycle_states hall.flight done
  have hsub : done ⊆ t2.activeIndices := by
    intro i hi
    rw [hact]
    exact (hcp.target i ((hmem i).mp hi).1).1
  have hfi := hall.flight.endCycle hsub fun i hi => ((hmem i).mp hi).2
  have hfl : ∀ i, patch done (fun _ => []) windows2 i = if i ∈ cp.targets ∧ finished run.eos (t2.states i) then []
      else if i ∈ cp.targets then
        surviving run.gamma (t.states i) (proposedWindows run ws dr t rs rowOf ticketOf i).tail (v i).1
      else proposedWindows run ws dr t rs rowOf ticketOf i := by
    intro i
    unfold patch
    simp only [hmem]
    rw [hall.windows]
    rfl
  refine ⟨_, ⟨hfi, ?_, ?_⟩, hcp, hp, hv, hwi, ?_, ?_, ?_, ?_, rfl⟩
  · intro i
    rw [hfl]
    split
    · exact Nat.zero_le _
    split
    · rename_i hi
      refine length_surviving_le.trans ?_
      rw [length_tail]
      exact Nat.sub_le_iff_le_add.mpr ((length_proposedWindows_le i).trans (Nat.succ_le_succ (h.settled i)))
    · rename_i hi
      exact length_proposedWindows h hp hi
  · intro hnil
    exact endCycle_waiting ho.batch_pos hnil
  · intro i
    rw [hend.1]
    exact hst i
  · intro i
    rw [hend.1, hend.2, hco]
    unfold patch
    simp only [hmem]
  · intro i
    rw [hend.1]
    exact hfl i
  · rw [endCycle_ticks hall.flight, hti]

include ho h hcp hp in
theorem rhythmCycle_ok (hd : planCycle run (t.asDraft dr co) = .ok cp) (ht : planCycle run t = .ok cp) :
    ∃ v width windows' draft' co' t' forwards,
      rhythmCycle run (t.asDraft dr co) t = .ok (t'.asDraft draft' co', t', forwards) ∧
      Between run pr windows' draft' t' ∧
      CycleOk run ws dr t cp rs rowOf ticketOf v width windows' t' forwards := by
  have hpu : Flight run pr (proposedWindows run ws dr t rs rowOf ticketOf)
      (proposedDraft run ws dr t rs rowOf ticketOf)
      (proposedRank run ws dr t cp rs rowOf ticketOf) :=
    Flight.published h.toFlight hcp h.settled hp ho.confidence
  rw [rhythmCycle_eq ho h hd ht hcp hp]
  by_cases hno : cp.targets = []
  · -- nothing to verify
    obtain ⟨windows', hbe, hok⟩ := cycleOk_endCycle ho h hcp hp (v := fun _ => (0, -1)) (fun _ => 0) (by simp [hno])
      (by simp [hno]) ⟨hpu, by simp [hno], by simp [hno], _, _, rfl⟩
    obtain ⟨co', hdr⟩ := endCycle_asDraft run (proposedRank run ws dr t cp rs rowOf ticketOf)
      (proposedDraft run ws dr t rs rowOf ticketOf) co []
    refine ⟨_, _, windows', _, co', _, _, ?_, hbe, hok⟩
    simp only [hno, if_true, hdr, flatMap_nil]
    rfl
  · have hw : ∀ i ∈ cp.targets, proposedWindows run ws dr t rs rowOf ticketOf i = _ :=
      fun i hi => proposedWindows_target h hcp hi
    have hlt : ∀ i ∈ cp.targets, i < run.requests := fun i hi => (h.active_lt (hcp.target i hi).1).1
    have hrow : ∀ i ∈ cp.targets, RowOk run.gamma (t.states i) := fun i hi => hpu.targetRow hw hi
    have hte : (∀ i ∈ cp.targets, (t.states i).temperature = 0) ∨ ∀ i ∈ cp.targets, 0 < (t.states i).temperature := by
      refine ho.temperature.imp (fun h0 i hi => ?_) fun hpos i hi => ?_
      · rw [(h.request i (hlt i hi)).temperature]
        exact h0 i (hlt i hi)
      · rw [(h.request i (hlt i hi)).temperature]
        exact hpos i (hlt i hi)
    have hsi : cp.targetPayloads.map (·.verificationSize) =
        cp.targets.map fun i => (t.states i).windowSize run.gamma := hpu.verificationSizes hw hcp.payloads
    obtain ⟨width, hwi, hout⟩ := targetRoundOutputsBatch_ok run.models.target ho.gamma_pos run.cfg.buckets_pos
      run.cfg.postCounts_ok hcp.targetNodup hrow (.inr rfl)
    obtain ⟨v, windows2, draft2, t2, hv, hve, hall⟩ := verifyCycle_ok hpu hw ho.gamma_pos hcp.targetNodup hno
      hcp.payloads hte
      (cp.targets.flatMap fun i => targetRows i (t.states i) _ (width i)) co
    simp only [proposedRank_states] at hve
    obtain ⟨windows', hbe, hok⟩ := cycleOk_endCycle ho h hcp hp width (fun i hi => (hv i hi).2) hwi hall
    obtain ⟨co', hdr⟩ := endCycle_asDraft run t2 draft2 co
      (cp.targets.filter fun i => finished run.eos (settled run (t.states i) (front ws i) (v i)))
    refine ⟨v, width, windows', draft2, co', _, _, ?_, hbe, hok⟩
    simp only [hno, if_false, hsi, hout, Except.mapError, bind, Except.bind]
    rw [hve]
    simp only [hdr]
    rfl

end

end

end VllmAscend
