import VllmAscend.Rhythm.ExchangeSound

/-!
# Verdicts on the windows in flight

The target verifies the first window of each request it was scheduled for. Both
groups apply the verdict: an accepted window moves its request on and promotes
the eager one behind it, a rejected one takes that back with it.
-/

namespace VllmAscend

open Python Packed Rows PearlPipelineState SpecRhythmPipelineController RhythmRank List Function

variable {run : RhythmRun} {pr : Nat → List Int} {wins : Nat → List DevicePayload} {t : RhythmRank}

section
variable {i : Nat} {p : DevicePayload}

/-! ## The mailboxes -/

theorem Windows.notMem_tail (h : Windows gamma i s (p :: ps)) : p ∉ ps := by
  intro hm
  obtain ⟨k, hk⟩ := mem_iff_getElem?.mp hm
  have := Windows.epoch h.2 hk
  rw [continuationEpoch_accept, h.1.epoch] at this
  omega

theorem Held.pop {payloads : Nat → Option DevicePayload} (h : Held wins payloads) (hw : wins i = p :: ps)
    (hi : p.ticket.requestIndex = i) (hp : p ∉ ps) :
    Held (update wins i ps) (update payloads p.ticket.proposalId none) := by
  have hhe : payloads p.ticket.proposalId = some p := (h _ _).mpr ⟨rfl, by rw [hi, hw]; simp⟩
  exact h.set hi (fun r hr => by simp [hw, hr]) (fun r => by simp [hp]) (by simp [hhe, eq_comm])

section
variable (h : Flight run pr wins dr t) (hw : wins i = p :: ps)
include h hw

theorem Flight.front_lt : i < run.requests ∧ t.completedStates i = none := h.active_lt (h.flying i (by rw [hw]; simp))

theorem Flight.tail_short : ps.length ≤ 1 := by
  have := h.short i
  rw [hw, length_cons] at this
  omega

theorem Flight.chain_cons : Windows run.gamma i (t.states i) (p :: ps) := hw ▸ h.chain i

theorem Flight.staged_cons : t.controller.stagedEager i = ps.head?.map (·.ticket) := by
  rw [h.staged, hw, getElem?_cons_succ, head?_eq_getElem?]

theorem finishVerification_ok (hv : v.fullyAccepted = decide (a = (t.states i).windowSize run.gamma)) :
    ∃ state home, state.prefixEpoch = (t.states i).continuationEpoch + 1 ∧
      t.controller.finishVerification i v =
        (.ok ((surviving run.gamma (t.states i) ps a).head?.map (·.ticket)),
          { t.controller with
            requestStates := update t.controller.requestStates i (some state)
            nextTargetHomeBatchId := home }.holding
              (update wins i (surviving run.gamma (t.states i) ps a))) := by
  have hch := h.chain_cons hw
  obtain ⟨state, hstt, hep⟩ := h.registered i (h.front_lt hw).1
  have hre : t.controller.ready i = some p.ticket := by rw [h.ready, hw]; rfl
  have hsa := h.staged_cons hw
  have hreq : p.ticket.requiredPrefixEpoch = state.prefixEpoch := hch.1.epoch.trans hep.symm
  generalize hst : state.recordVerification v.proposedTokens v.acceptedTokens v.deliveredTokens v.draftConfidence
    v.emaAlpha = st
  have hnext : st.prefixEpoch = state.prefixEpoch + 1 := by rw [← hst]; rfl
  have hpr : (t.controller.stagedEager i).filter (fun eager =>
        decide (v.fullyAccepted = true ∧ eager.requiredPrefixEpoch = st.prefixEpoch)) =
      (surviving run.gamma (t.states i) ps a).head?.map (·.ticket) := by
    rw [hsa, hv, surviving]
    cases ps with
    | nil => split <;> rfl
    | cons q ps =>
      have hq : q.ticket.requiredPrefixEpoch = st.prefixEpoch := by
        rw [hch.2.1.epoch, continuationEpoch_accept, hnext, hep]
      by_cases ha : a = (t.states i).windowSize run.gamma <;> simp [ha, hq]
  have hlen : (surviving run.gamma (t.states i) ps a)[1]? = none :=
    getElem?_eq_none (length_surviving_le.trans (h.tail_short hw))
  refine ⟨st, 1 - st.homeBatchId, by rw [hnext, hep], ?_⟩
  unfold finishVerification
  simp only [hre, hstt]
  rw [if_neg (not_not.mpr hreq), holding_update, hlen, ← head?_eq_getElem?]
  simp only [hst, hpr, update_idem]
  have hma := h.mail
  unfold holding at hma ⊢
  simp only [Prod.mk.injEq, true_and, SpecRhythmPipelineController.mk.injEq]
  refine ⟨?_, ?_⟩
  · exact congrArg (fun c => update (ready c) i _) hma
  · exact congrArg (fun c => update (stagedEager c) i _) hma

theorem held_popPayloads (row : VerifiedRow) (hr : row.payload = p) :
    Held (update wins i (surviving run.gamma (t.states i) ps a))
      (popPayloads t.payloads row (t.controller.stagedEager i)
        ((surviving run.gamma (t.states i) ps a).head?.map (·.ticket))) := by
  have hc := h.chain_cons hw
  have hp := h.payloads.pop hw hc.1.request hc.notMem_tail
  have hs := h.tail_short hw
  rw [h.staged, hw, getElem?_cons_succ, ← head?_eq_getElem?]
  unfold popPayloads surviving
  rw [hr]
  rcases ps with _ | ⟨q, ps⟩
  · rw [ite_self]
    exact hp
  obtain rfl : ps = [] := length_eq_zero_iff.mp (by simpa using hs)
  by_cases ha : a = (t.states i).windowSize run.gamma
  · rw [if_pos ha]
    exact hp
  -- the eager window goes with the rejected one
  have hp' := hp.pop (update_self i [q] wins) hc.2.1.request hc.2.notMem_tail
  rw [if_neg ha]
  rw [update_idem] at hp'
  exact hp'

end

/-! ## One row -/

def RhythmRank.withVerdict (t : RhythmRank) (i : Nat) (s : PearlPipelineState) (c : SpecRhythmPipelineController)
    (payloads : Nat → Option DevicePayload) : RhythmRank :=
  { t with states := Function.update t.states i s, controller := c, payloads := payloads }

def settled (run : RhythmRun) (s : PearlPipelineState) (p : DevicePayload) (v : Nat × Int) : PearlPipelineState :=
  s.verified run.gamma v.1 (decodeCorrection v.2) p.nextTokens

section
variable (h : Flight run pr wins dr t) (hw : wins i = p :: ps)
  (hv : RowVerdictOk run.models run.gamma (t.states i) p.nextTokens v)
include h hw hv

theorem Flight.verdict (home : Fin 2) {payloads : Nat → Option DevicePayload}
    (hep : state.prefixEpoch = (t.states i).continuationEpoch + 1)
    (hhe : Held (update wins i (surviving run.gamma (t.states i) ps v.1)) payloads) :
    Flight run pr (update wins i (surviving run.gamma (t.states i) ps v.1))
      (update dr i ((settled run (t.states i) p v).extend
        (inFlight (surviving run.gamma (t.states i) ps v.1))))
      (t.withVerdict i (settled run (t.states i) p v)
        ({ t.controller with
            requestStates := update t.controller.requestStates i (some state)
            nextTargetHomeBatchId := home }.holding
              (update wins i (surviving run.gamma (t.states i) ps v.1))) payloads) := by
  have hch := h.chain_cons hw
  have hlt := h.front_lt hw
  have hok := hv.verdictOk hch.1.next_pos hch.1.next_le
  have hsub : ∀ q ∈ surviving run.gamma (t.states i) ps v.1, q ∈ wins i := by
    intro q hq
    unfold surviving at hq
    split at hq
    · rw [hw]; exact mem_cons_of_mem _ hq
    · cases hq
  refine ⟨rfl, ?_, hhe, ?_, h.nodup, h.uncompleted, ?_, ?_, ?_, ?_, ?_, ?_⟩
  · refine (forall_update_iff wins fun _ ws => ws.length ≤ 2).mpr ⟨?_, fun j _ => h.short j⟩
    exact length_surviving_le.trans (Nat.le_succ_of_le (h.tail_short hw))
  · exact (forall_update_iff wins fun _ ws => ∀ q ∈ ws, q.ticket.proposalId < _).mpr
      ⟨fun q hq => h.fresh i q (hsub q hq), fun j _ => h.fresh j⟩
  · exact (forall_update_iff wins fun j ws => ws ≠ [] → j ∈ t.activeIndices).mpr
      ⟨fun _ => h.flying i (by rw [hw]; simp), fun j _ => h.flying j⟩
  · intro j hjl
    simp only [withVerdict]
    by_cases hj : j = i
    · subst hj
      rw [update_self]
      exact (h.request j hjl).verified ⟨hch.1.next_pos, hch.1.next_le⟩ hch.1.nonneg hv
    · rw [update_of_ne hj]
      exact h.request j hjl
  · intro j hjl
    simp only [withVerdict, holding]
    by_cases hj : j = i
    · subst hj
      rw [update_self, update_self]
      exact ⟨state, rfl, hep⟩
    · rw [update_of_ne hj, update_of_ne hj]
      exact h.registered j hjl
  · intro j
    simp only [withVerdict]
    by_cases hj : j = i
    · subst hj
      rw [update_self, update_self]
      exact hch.surviving hok
    · rw [update_of_ne hj, update_of_ne hj]
      exact h.chain j
  · intro j hjl hc
    simp only [withVerdict]
    by_cases hj : j = i
    · subst hj
      rw [update_self, update_self, update_self]
    · rw [update_of_ne hj, update_of_ne hj, update_of_ne hj]
      exact h.ahead j hjl hc
  · intro j s hs
    simp only [withVerdict] at hs ⊢
    by_cases hj : j = i
    · subst hj
      rw [hlt.2] at hs
      cases hs
    · rw [update_of_ne hj]
      exact h.completed j s hs

theorem finishRow_ok (hg : 0 < run.gamma) (co : Nat → Option PearlPipelineState) (done : List Nat) :
    ∃ c payloads, let t' := t.withVerdict i (settled run (t.states i) p v) c payloads
      let draft' := update dr i ((settled run (t.states i) p v).extend
        (inFlight (surviving run.gamma (t.states i) ps v.1)))
      let done' := if finished run.eos (settled run (t.states i) p v) then done ++ [i] else done
      let row : VerifiedRow := ⟨i, p, v.1, decodeCorrection v.2, p.nextTokens⟩
      finishRow run false (t, done) row = .ok (t', done') ∧
      finishRow run true (t.asDraft dr co, done) row = .ok (t'.asDraft draft' co, done') ∧
      Flight run pr (update wins i (surviving run.gamma (t.states i) ps v.1)) draft' t' := by
  have hch := h.chain_cons hw
  have hlt := h.front_lt hw
  have hrow := (h.request i hlt.1).toRowOk
  have hok := hv.verdictOk hch.1.next_pos hch.1.next_le
  have hst := h.staged_cons hw
  obtain ⟨state, home, hep, hfi⟩ := finishVerification_ok h hw (a := v.1)
    (v := verificationOf run ⟨i, p, v.1, decodeCorrection v.2, p.nextTokens⟩)
    (by simp [verificationOf, hch.1.size])
  have hhe := held_popPayloads h hw (a := v.1) ⟨i, p, v.1, decodeCorrection v.2, p.nextTokens⟩ rfl
  refine ⟨_, _, ?_, ?_, h.verdict hw hv home hep hhe⟩
  · unfold finishRow
    simp only
    rw [verifyState_target hg hrow hch hok, hfi]
    rfl
  · unfold finishRow
    simp only [asDraft]
    rw [hst, h.ahead i hlt.1 hlt.2, hw, verifyState_draft hg hrow hch hok (h.tail_short hw), hfi]
    simp only [ok_bind, finished_extend (hrow.verified hok)]
    rfl

end

end

/-! ## All rows -/

section
variable {p : Nat → DevicePayload} {v : Nat → Nat × Int}

def verdictRowOf (p : Nat → DevicePayload) (v : Nat → Nat × Int) (i : Nat) : VerifiedRow :=
  ⟨i, p i, (v i).1, decodeCorrection (v i).2, (p i).nextTokens⟩

structure Verified (run : RhythmRun) (prompt : Nat → List Int) (l : List Nat) (p : Nat → DevicePayload)
    (v : Nat → Nat × Int) (windows : Nat → List DevicePayload) (t : RhythmRank) (windows' : Nat → List DevicePayload)
    (draft' : States) (t' : RhythmRank) : Prop where
  flight : Flight run prompt windows' draft' t'
  states : ∀ j, t'.states j = if j ∈ l then settled run (t.states j) (p j) (v j) else t.states j
  windows : ∀ j, windows' j = if j ∈ l then surviving run.gamma (t.states j) (windows j).tail (v j).1 else windows j
  frame : ∃ c payloads, t' = { t with states := t'.states, controller := c, payloads := payloads }

def VerdictFor (run : RhythmRun) (windows : Nat → List DevicePayload) (t : RhythmRank) (p : Nat → DevicePayload)
    (v : Nat → Nat × Int) (i : Nat) : Prop :=
  windows i = p i :: (windows i).tail ∧ RowVerdictOk run.models run.gamma (t.states i) (p i).nextTokens (v i)

theorem finishRows_ok (hg : 0 < run.gamma) (co : Nat → Option PearlPipelineState) :
    ∀ (l : List Nat) {wins : Nat → List DevicePayload} {dr : States} {t : RhythmRank} (done : List Nat), l.Nodup →
      Flight run pr wins dr t → (∀ i ∈ l, VerdictFor run wins t p v i) →
      ∃ windows' draft' t',
        (l.map (verdictRowOf p v)).foldlM (finishRow run false) (t, done) =
          .ok (t', done ++ l.filter fun i => finished run.eos (settled run (t.states i) (p i) (v i))) ∧
        (l.map (verdictRowOf p v)).foldlM (finishRow run true) (t.asDraft dr co, done) =
          .ok (t'.asDraft draft' co,
            done ++ l.filter fun i => finished run.eos (settled run (t.states i) (p i) (v i))) ∧
        Verified run pr l p v wins t windows' draft' t'
  | [], wins, dr, t, done, _, h, _ => by
    refine ⟨wins, dr, t, ?_, ?_, h, by simp, by simp, _, _, rfl⟩
    · simp [pure, Except.pure]
    · simp [pure, Except.pure]
  | i :: l, wins, dr, t, done, hn, h, hl => by
    obtain ⟨hi, hn⟩ := nodup_cons.mp hn
    obtain ⟨hw, hv⟩ := hl i (by simp)
    obtain ⟨c, payloads, htr, hda, hfl⟩ := finishRow_ok h hw hv hg co done
    -- the rest of the rows are about other requests
    have hot : ∀ j ∈ l, j ≠ i := fun j hj => ne_of_mem_of_not_mem hj hi
    have hst : ∀ j, j ≠ i → (t.withVerdict i (settled run (t.states i) (p i) (v i)) c payloads).states j =
        t.states j := fun j hj => update_of_ne hj _ _
    obtain ⟨windows', draft', t', hta, hdr, hall⟩ := finishRows_ok hg co l
      (if finished run.eos _ then done ++ [i] else done) hn hfl (by
        intro j hj
        obtain ⟨hwj, hvj⟩ := hl j (mem_cons_of_mem _ hj)
        rw [VerdictFor, update_of_ne (hot j hj), hst j (hot j hj)]
        exact ⟨hwj, hvj⟩)
    have hfi : l.filter (fun j => finished run.eos (settled run
          ((t.withVerdict i (settled run (t.states i) (p i) (v i)) c payloads).states j) (p j) (v j))) =
        l.filter fun j => finished run.eos (settled run (t.states j) (p j) (v j)) :=
      filter_congr fun j hj => by rw [hst j (hot j hj)]
    have hdone : (if finished run.eos (settled run (t.states i) (p i) (v i)) then done ++ [i] else done) ++
          l.filter (fun j => finished run.eos (settled run (t.states j) (p j) (v j))) =
        done ++ (i :: l).filter fun j => finished run.eos (settled run (t.states j) (p j) (v j)) := by
      rw [filter_cons]
      split <;> simp
    rw [hfi, hdone] at hta hdr
    refine ⟨windows', draft', t', ?_, ?_, hall.flight, ?_, ?_, ?_⟩
    · rw [map_cons, foldlM_cons, verdictRowOf, htr]
      exact hta
    · rw [map_cons, foldlM_cons, verdictRowOf, hda]
      exact hdr
    · intro j
      rw [hall.states]
      by_cases hj : j = i
      · subst hj
        rw [if_neg hi, if_pos (by simp)]
        exact update_self ..
      · rw [hst j hj]
        simp [hj]
    · intro j
      rw [hall.windows]
      by_cases hj : j = i
      · subst hj
        rw [if_neg hi, if_pos (by simp), update_self]
      · rw [hst j hj, update_of_ne hj]
        simp [hj]
    · obtain ⟨c', payloads', he⟩ := hall.frame
      exact ⟨c', payloads', he⟩

/-! ## The verdicts of a cycle -/

def paddedNext (gamma : Nat) (p : DevicePayload) : List Int :=
  p.nextTokens ++ List.replicate (gamma - p.ticket.gamma) (-1)

section
variable {cp : CyclePlan} (h : Flight run pr wins dr t)
  (hw : ∀ i ∈ cp.targets, wins i = p i :: (wins i).tail)
include h hw

theorem Flight.windowFor (hi : i ∈ cp.targets) : WindowFor run.gamma i (t.states i) (p i) := (h.chain_cons (hw i hi)).1

theorem Flight.targetRow (hi : i ∈ cp.targets) : RowOk run.gamma (t.states i) :=
  (h.request i (h.front_lt (hw i hi)).1).toRowOk

theorem Flight.verificationSizes (hp : cp.targetPayloads = cp.targets.map p) :
    cp.targetPayloads.map (·.verificationSize) = cp.targets.map fun i => (t.states i).windowSize run.gamma := by
  rw [hp, map_map]
  exact map_congr_left fun i hi => (h.windowFor hw hi).size

theorem verifiedRows_eq (hp : cp.targetPayloads = cp.targets.map p) : verifiedRows cp
      (.ofRows cp.targets v fun i => (paddedNext run.gamma (p i)).take (p i).ticket.gamma) =
    cp.targets.map (verdictRowOf p v) := by
  rw [verifiedRows, hp, RoundResult.ofRows]
  simp only [zip_map']
  rw [← map_prod_left_eq_zip, map_map]
  refine map_congr_left fun i hi => ?_
  simp only [comp, verdictRowOf]
  rw [paddedNext, take_left' (h.windowFor hw hi).next]

theorem verifyCycle_ok (hg : 0 < run.gamma) (hn : cp.targets.Nodup) (hne : cp.targets ≠ [])
    (hp : cp.targetPayloads = cp.targets.map p)
    (hte : (∀ i ∈ cp.targets, (t.states i).temperature = 0) ∨ ∀ i ∈ cp.targets, 0 < (t.states i).temperature)
    (forward : List ForwardRow) (co : Nat → Option PearlPipelineState) :
    ∃ v windows' draft' t', (∀ i ∈ cp.targets, VerdictFor run wins t p v i) ∧
      verifyCycle run (t.asDraft dr co) t cp cp ⟨cp.targets.flatMap fun i =>
          targetOutputs (fun p => (run.models.target p : Int)) (t.states i) run.gamma, forward⟩ = .ok
        ((t'.asDraft draft' co, cp.targets.filter fun i => finished run.eos (settled run (t.states i) (p i) (v i))),
          (t', cp.targets.filter fun i => finished run.eos (settled run (t.states i) (p i) (v i)))) ∧
      Verified run pr cp.targets p v wins t windows' draft' t' := by
  have hwi := fun i (hi : i ∈ cp.targets) => h.windowFor hw hi
  have hrow := fun i (hi : i ∈ cp.targets) => h.targetRow hw hi
  have hsi := h.verificationSizes hw hp
  have hvr : cp.targetPayloads.flatMap (·.verificationTokens) =
      cp.targets.flatMap fun i => (t.states i).candidates (p i).nextTokens := by
    rw [hp, flatMap_map]
    exact flatMap_congr fun i hi => (hwi i hi).tokens
  have hco : continuationRows run.gamma cp.targetPayloads = cp.targets.map fun i => paddedNext run.gamma (p i) := by
    rw [hp, continuationRows, map_map]; rfl
  have hlen := length_flatMap_windows hrow fun i hi => (hwi i hi).next_pos
  have hpa : ∀ i ∈ cp.targets, (paddedNext run.gamma (p i)).length = run.gamma := by
    intro i hi
    have := (hwi i hi).gamma_le
    rw [paddedNext, length_append, length_replicate, (hwi i hi).next]; omega
  obtain ⟨v, hve, hv⟩ := verifyTargetTokensBatch_ok run.models t.roundCount _ hg hn hne
    hrow (fun i hi => (hwi i hi).next_pos) hte (cp.targets.flatMap fun i => paddedNext run.gamma (p i))
  have hbr := @broadcastDeviceRoundResult_ok _ _ _ _ (some _) hpa
    (fun i hi => ⟨(p i).ticket.gamma_pos, (hwi i hi).gamma_le⟩) rfl v
    (cp.targets.flatMap fun i => (t.states i).candidates (p i).nextTokens)
  have hfo : ∀ i ∈ cp.targets, VerdictFor run wins t p v i := fun i hi => ⟨hw i hi, hv i hi⟩
  obtain ⟨windows', draft', t', hta, hdr, hall⟩ := finishRows_ok hg co cp.targets [] hn h hfo
  refine ⟨v, windows', draft', t', hfo, ?_, hall⟩
  rw [hlen] at hbr
  unfold verifyCycle
  simp only [hsi, hvr, hco, ← flatMap_def, hve]
  rw [hp, map_map]
  simp only [Except.mapError, bind, Except.bind]
  rw [show ((fun x : DevicePayload => x.ticket.gamma) ∘ p) = fun i => (p i).ticket.gamma from rfl, hbr]
  simp only [verifiedRows_eq h hw hp, hdr, hta, nil_append]
  rfl

end

end

end VllmAscend
