import VllmAscend.Rhythm.PlanSound

/-!
# Proposals across the groups

The envelope names the proposals it carries. A receiver that expects other
proposals than were sent either allocates a message of another length or finds
another header, so an exchange that goes through has the same proposals at both
ends.
-/

namespace VllmAscend

open Python Packed Rows PearlPipelineState SpecRhythmPipelineController List
open Function hiding extend

variable {γ : Nat} {run : RhythmRun} {ws : Nat → List DevicePayload} {t : RhythmRank} {rs : List Nat}
  {tk : Nat → SpecRhythmProposalTicket} {dr : States} {cp : CyclePlan} {rowOf : Nat → WorkRow}
  {drafted : DraftProposals}

/-! ## What goes through -/

def headerWeight (gamma : Nat) (header : List Int) : Nat := metadataWidth + gamma + (header.getD 3 0).toNat

theorem sum_headerWeight : ∀ {tickets : List SpecRhythmProposalTicket} {sizes : List Nat}, tickets.length = sizes.length →
    ((zipWith metadataRow tickets sizes).map (headerWeight γ)).sum = messageSize γ sizes
  | [], [], _ => by simp [messageSize]
  | ticket :: tickets, size :: sizes, h => by
    have ih : _ = messageSize γ sizes := sum_headerWeight (by simpa using h : tickets.length = sizes.length)
    have hw : headerWeight γ (metadataRow ticket size) = metadataWidth + γ + size := by
      simp [headerWeight, metadataRow]
    rw [zipWith_cons_cons, map_cons, sum_cons, ih, hw]
    simp only [messageSize, length_cons, sum_cons]
    ring

theorem length_envelopeRow (p : SpecRhythmProposalTicket × Nat × ℚ) : (envelopeRow p).length = metadataWidth := rfl

theorem length_proposalEnvelope (hd : dts.length = ds.length)
    (hc : drafted.confidences.length = dts.length) (hv : drafted.verification.length = ds.sum)
    (hco : drafted.windows.length = dts.length) (hw : ∀ win ∈ drafted.windows, win.length = γ) :
    (proposalEnvelope drafted dts ds).length = messageSize γ ds := by
  have hf : drafted.windows.flatten.length = ds.length * γ := by
    rw [← flatMap_id, length_flatMap_rows (f := id) hw, hco, hd]
  rw [proposalEnvelope, length_append, length_append, length_flatMap_rows fun p _ => length_envelopeRow p, hv,
    hf, length_zip, length_zip, hc, hd, min_self, min_self, messageSize]
  ring

theorem exchange_headers (hd : dts.length = ds.length) (ht : targetTickets.length = targetSizes.length)
    (h : exchangeSpecRhythmDeviceProposals γ drafted dts targetTickets ds targetSizes = .ok result) :
    zipWith metadataRow dts ds = zipWith metadataRow targetTickets targetSizes := by
  unfold exchangeSpecRhythmDeviceProposals at h
  split at h
  · rename_i hnone
    rw [hnone.1, hnone.2]; rfl
  simp only [ite_throw_bind, bind_ok, mapError_ok, ne_eq, not_not] at h
  obtain ⟨-, hco, hve, hwi, hlen, -, -, targetConf, hread, -⟩ := h
  simp only [not_or, not_not, any_eq_true, decide_eq_true_eq, not_exists, not_and] at hwi
  have hse := length_proposalEnvelope hd hco hve hwi.1 hwi.2
  have hhe : ((dts.zip (ds.zip drafted.confidences)).map envelopeRow).map (·.take 6) =
      zipWith metadataRow dts ds := by
    refine ext_getElem (by simp [hco, hd]) fun k _ _ => ?_
    simp [envelopeRow, metadataRow]
  have hep : (reshape metadataWidth targetTickets.length (proposalEnvelope drafted dts ds)).map
      (·.take 6) = zipWith metadataRow targetTickets targetSizes := by
    unfold readEnvelope at hread
    simp only [reshape_take] at hread
    split at hread
    · cases hread
    · rename_i he
      exact not_not.mp he
  -- the headers the receiver reads begin with those that were sent
  have hbe := congrArg (map (·.take 6)) (take_reshape_flatMap metadataWidth targetTickets.length envelopeRow
    (dts.zip (ds.zip drafted.confidences)) (drafted.verification ++ drafted.windows.flatten)
    fun p _ => length_envelopeRow p)
  rw [map_take, map_take, hhe, ← proposalEnvelope, hep] at hbe
  refine eq_of_take_of_sum (headerWeight γ) (fun _ => by unfold headerWeight metadataWidth; omega) ?_ ?_
  · simpa [hco, hd, ht] using hbe.symm
  · rw [sum_headerWeight hd, sum_headerWeight ht, ← hse, hlen]

theorem row_eq_of_metadata (ha : TicketFor t.controller a ta)
    (hb : TicketFor t.controller b tb) (hra : RowFor run.gamma (t.states a.request) (ws a.request) a)
    (hrb : RowFor run.gamma (t.states b.request) (ws b.request) b)
    (h : metadataRow ta a.verificationSize = metadataRow tb b.verificationSize) : a = b := by
  simp only [metadataRow, cons.injEq, Nat.cast_inj, and_true] at h
  obtain ⟨-, hreq, -, hsize, hga, -⟩ := h
  rw [ha.request, hb.request] at hreq
  rw [ha.gamma, hb.gamma] at hga
  have hea : a.eager = b.eager := by rw [hra.eager, hrb.eager, hreq]
  have hbe : a.verificationPrefix = b.verificationPrefix := by rw [hra.before, hrb.before, hreq]
  cases a
  cases b
  simp_all

theorem work_eq_of_metadata : ∀ {as bs : List WorkRow} {tas tbs : List SpecRhythmProposalTicket},
    List.Forall₂ (TicketFor t.controller) as tas → List.Forall₂ (TicketFor t.controller) bs tbs →
    (∀ row ∈ as, RowFor run.gamma (t.states row.request) (ws row.request) row) →
    (∀ row ∈ bs, RowFor run.gamma (t.states row.request) (ws row.request) row) →
    zipWith metadataRow tas (as.map (·.verificationSize)) =
      zipWith metadataRow tbs (bs.map (·.verificationSize)) → as = bs
  | [], [], _, _, _, _, _, _, _ => rfl
  | [], _ :: _, _, _, .nil, .cons _ _, _, _, h => by simp at h
  | _ :: _, [], _, _, .cons _ _, .nil, _, _, h => by simp at h
  | a :: as, b :: bs, _, _, .cons ha has, .cons hb hbs, hra, hrb, h => by
    simp only [map_cons, zipWith_cons_cons, cons.injEq] at h
    rw [row_eq_of_metadata ha hb (hra a (by simp)) (hrb b (by simp)) h.1,
      work_eq_of_metadata has hbs (fun row hr => hra row (mem_cons_of_mem _ hr))
        (fun row hr => hrb row (mem_cons_of_mem _ hr)) h.2]

theorem plan_eq_of_exchange (hd : Planned run ws t dp) (ht : Planned run ws t tp) {drafted : DraftProposals}
    (h : exchangeSpecRhythmDeviceProposals run.gamma drafted dp.tickets tp.tickets
      (dp.work.map (·.verificationSize)) (tp.work.map (·.verificationSize)) = .ok result) : dp = tp := by
  apply hd.unique ht
  apply work_eq_of_metadata hd.tickets ht.tickets hd.rows ht.rows
  apply exchange_headers _ _ h
  · rw [length_map, hd.tickets.length_eq]
  · rw [length_map, ht.tickets.length_eq]

/-! ## What arrives -/

section
variable {size : Nat → Nat} {conf : Nat → ℚ} {candidates win : Nat → List Int}

def payloadOf (ticketOf : Nat → SpecRhythmProposalTicket) (size : Nat → Nat) (confidence : Nat → ℚ)
    (candidates window : Nat → List Int) (i : Nat) : DevicePayload :=
  ⟨ticketOf i, candidates i, (window i).take (ticketOf i).gamma, size i, (quantize (confidence i) : ℚ) / 1000000⟩

theorem materializeRows_ok (conf : Nat → ℚ) : ∀ (rs : List Nat) (before : List Int),
    (∀ i ∈ rs, (candidates i).length = size i) →
    materializeRows (rs.map fun i => (tk i, size i, conf i)) (before ++ rs.flatMap candidates)
        (rs.map win) before.length =
      rs.map fun i => ⟨tk i, candidates i, (win i).take (tk i).gamma, size i, conf i⟩
  | [], _, _ => rfl
  | i :: rs, before, h => by
    have hi := h i (by simp)
    have ih := materializeRows_ok conf rs (before ++ candidates i) fun j hj => h j (mem_cons_of_mem _ hj)
    rw [append_assoc, length_append, hi] at ih
    simp only [map_cons, flatMap_cons, materializeRows, ih, drop_left' rfl, take_left' hi]

variable (hca : ∀ i ∈ rs, (candidates i).length = size i) (hwi : ∀ i ∈ rs, (win i).length = γ)

theorem proposalEnvelope_eq : proposalEnvelope
    ⟨rs.flatMap candidates, rs.map win, rs.map conf, fs⟩ (rs.map tk)
      (rs.map size) =
    (rs.flatMap fun i => envelopeRow (tk i, size i, conf i)) ++
      (rs.flatMap candidates ++ rs.flatMap win) := by
  rw [proposalEnvelope, zip_map', zip_map', flatMap_map, flatMap_def (f := win)]

theorem readEnvelope_ok (rest : List Int) : readEnvelope (rs.map tk) (rs.map size)
      ((rs.flatMap fun i => envelopeRow (tk i, size i, conf i)) ++ rest) =
    .ok (rs.map fun i => (quantize (conf i) : ℚ) / 1000000) := by
  have hr := reshape_flatMap_append metadataWidth (fun i => envelopeRow (tk i, size i, conf i))
    rs rest fun i _ => length_envelopeRow _
  unfold readEnvelope
  simp only [reshape_take, length_map, hr, map_map]
  rw [if_neg (not_not.mpr ?_)]
  · rfl
  · rw [zipWith_map, zipWith_self]
    rfl

include hca

theorem materialize_ok : materializeSpecRhythmPayloads (rs.map tk) (rs.map size)
      (rs.flatMap candidates) (rs.map win)
      (rs.map fun i => (quantize (conf i) : ℚ) / 1000000) =
    rs.map (payloadOf tk size conf candidates win) := by
  unfold materializeSpecRhythmPayloads
  rw [zip_map', zip_map']
  exact materializeRows_ok _ rs [] hca

theorem length_flatMap_candidates : (rs.flatMap candidates).length = (rs.map size).sum :=
  length_flatMap_sum hca

variable (tk conf)
include hwi

theorem receivedTensors_ok :
    receivedTensors γ (rs.map size)
      ((rs.flatMap fun i => envelopeRow (tk i, size i, conf i)) ++
        (rs.flatMap candidates ++ rs.flatMap win)) =
      (rs.flatMap candidates, rs.map win) := by
  have hh : (rs.flatMap fun i => envelopeRow (tk i, size i, conf i)).length =
      (rs.map size).length * metadataWidth := by
    rw [length_flatMap_rows fun i _ => length_envelopeRow _, length_map]
  have hv := length_flatMap_candidates hca
  unfold receivedTensors
  simp only
  rw [← drop_drop, drop_left' hh, take_left' hv, drop_left' hv, length_map, reshape_flatMap γ win rs hwi]

theorem exchange_ok (fs : List (List ForwardRow)) :
    exchangeSpecRhythmDeviceProposals γ
        ⟨rs.flatMap candidates, rs.map win, rs.map conf, fs⟩
        (rs.map tk) (rs.map tk) (rs.map size) (rs.map size) =
      .ok ((rs.flatMap fun i => envelopeRow (tk i, size i, conf i)) ++
          (rs.flatMap candidates ++ rs.flatMap win),
        rs.map fun i => (quantize (conf i) : ℚ) / 1000000,
        rs.map fun i => (quantize (conf i) : ℚ) / 1000000) := by
  have hv := length_flatMap_candidates hca
  have hwd : ∀ w ∈ rs.map win, w.length = γ := by
    intro w hw
    obtain ⟨i, hi, rfl⟩ := mem_map.mp hw
    exact hwi i hi
  by_cases hno : rs = []
  · subst hno; rfl
  have hl : (proposalEnvelope ⟨rs.flatMap candidates, rs.map win, rs.map conf, fs⟩
      (rs.map tk) (rs.map size)).length = messageSize γ (rs.map size) :=
    length_proposalEnvelope (by simp) (by simp) hv (by simp) hwd
  rw [proposalEnvelope_eq] at hl
  unfold exchangeSpecRhythmDeviceProposals
  rw [if_neg (by simp [hno])]
  simp only [ite_throw_bind, bind_ok, mapError_ok, proposalEnvelope_eq, hl, readEnvelope_ok]
  exact ⟨by simp [hno], by simp, by simpa using hv, by simpa using hwi, by simp, _, rfl, _, rfl, rfl⟩

end

/-- Draft and target ranks materialise for every ticket what was drafted for it, the confidence rounded to millionths. -/
theorem envelope_delivers (gamma : Nat) (requests : List Nat) (ticketOf : Nat → SpecRhythmProposalTicket)
    (confidence : Nat → ℚ) (candidates window : Nat → List Int) (forwards : List (List ForwardRow))
    (hwi : ∀ i ∈ requests, (window i).length = gamma) :
    let tickets := requests.map ticketOf
    let sizes := requests.map fun i => (candidates i).length
    let payloads := requests.map fun i => (⟨ticketOf i, candidates i, (window i).take (ticketOf i).gamma,
      (candidates i).length, (pyRound (confidence i * 1000000) : ℚ) / 1000000⟩ : DevicePayload)
    ∃ message drafts targets, exchangeSpecRhythmDeviceProposals gamma
        ⟨requests.flatMap candidates, requests.map window, requests.map confidence, forwards⟩ tickets tickets sizes
        sizes = .ok (message, drafts, targets) ∧
      materializeSpecRhythmPayloads tickets sizes (requests.flatMap candidates) (requests.map window) drafts =
        payloads ∧
      materializeSpecRhythmPayloads tickets sizes (receivedTensors gamma sizes message).1
        (receivedTensors gamma sizes message).2 targets = payloads := by
  refine ⟨_, _, _, exchange_ok ticketOf confidence (fun _ _ => rfl) hwi forwards, materialize_ok fun _ _ => rfl, ?_⟩
  rw [receivedTensors_ok ticketOf confidence (fun _ _ => rfl) hwi]
  exact materialize_ok fun _ _ => rfl

def twoTickets (i : Nat) : SpecRhythmProposalTicket := ⟨i, i, 0, i + 1, 0, i = 1, i.succ_pos⟩

theorem envelope_delivers_two :
    let payloads : List DevicePayload :=
      [⟨twoTickets 0, [7], [4], 1, 333333 / 1000000⟩, ⟨twoTickets 1, [8, 9], [6, 3], 2, 333333 / 1000000⟩]
    ∃ message drafts targets,
      exchangeSpecRhythmDeviceProposals 2 ⟨[7, 8, 9], [[4, 5], [6, 3]], [1 / 3, 1 / 3], []⟩ ([0, 1].map twoTickets)
        ([0, 1].map twoTickets) [1, 2] [1, 2] = .ok (message, drafts, targets) ∧
      materializeSpecRhythmPayloads ([0, 1].map twoTickets) [1, 2] [7, 8, 9] [[4, 5], [6, 3]] drafts = payloads ∧
      materializeSpecRhythmPayloads ([0, 1].map twoTickets) [1, 2] (receivedTensors 2 [1, 2] message).1
        (receivedTensors 2 [1, 2] message).2 targets = payloads := by
  have hround : pyRound ((1 / 3 : ℚ) * 1000000) = 333333 := by decide +kernel
  have h := envelope_delivers 2 [0, 1] twoTickets (fun _ => 1 / 3) (fun i => if i = 0 then [7] else [8, 9])
    (fun i => if i = 0 then [4, 5] else [6, 3]) [] (by decide)
  simp only [hround, Int.cast_ofNat] at h
  exact h

theorem confidence_rounded : (exchangeSpecRhythmDeviceProposals 1 ⟨[7], [[4]], [1 / 3], []⟩ [twoTickets 0]
    [twoTickets 0] [1] [1]).toOption.map (·.2.2) = some [333333 / 1000000] ∧ (333333 / 1000000 : ℚ) ≠ 1 / 3 := by
  decide +kernel

/-! ## Drafting -/

theorem take_paddedWindow (dr : Nat → List Int → Nat) (γ : Nat) (st : States) (i n : Nat) :
    (paddedWindow dr γ st i n).take n = draftWindow dr st i n :=
  take_left' (length_draftWindow i n)

theorem length_paddedWindow {dr : Nat → List Int → Nat} (hn : n ≤ γ) :
    (paddedWindow dr γ st i n).length = γ := by
  rw [paddedWindow, length_append, length_draftWindow, length_replicate]; omega

theorem quantize_mem (h : 0 ≤ x ∧ x ≤ 1) : 0 ≤ (quantize x : ℚ) / 1000000 ∧ (quantize x : ℚ) / 1000000 ≤ 1 := by
  have hm := pyRound_mem (x := x * 1000000) (a := 0) (b := 1000000) (by push_cast; linarith [h.1])
    (by push_cast; linarith [h.2])
  have h0 : (0 : ℚ) ≤ quantize x := by exact_mod_cast hm.1
  have h1 : (quantize x : ℚ) ≤ 1000000 := by exact_mod_cast hm.2
  constructor
  · positivity
  · rw [div_le_one (by norm_num)]; exact h1

section
def proposed (run : RhythmRun) (windows : Nat → List DevicePayload) (draft : States) (t : RhythmRank)
    (rowOf : Nat → WorkRow) (ticketOf : Nat → SpecRhythmProposalTicket) (i : Nat) : DevicePayload :=
  payloadOf ticketOf (fun i => (rowOf i).verificationSize) (run.confidence t.roundCount)
    (fun i => (tip run.gamma (t.states i) (windows i)).candidates
      (paddedWindow (run.models.draft t.roundCount) run.gamma draft i (rowOf i).budget))
    (fun i => paddedWindow (run.models.draft t.roundCount) run.gamma draft i (rowOf i).budget) i

def nextWindow (run : RhythmRun) (draft : States) (t : RhythmRank) (rowOf : Nat → WorkRow) (i : Nat) : List Int :=
  paddedWindow (run.models.draft t.roundCount) run.gamma draft i (rowOf i).budget

variable (h : Flight run prompt ws dr t) (hs : Settled ws)
  (hp : PlannedRows run ws t cp rs rowOf tk)
include h hp

theorem draftSpecRhythmDeviceBatch_ok (hg : 0 < run.gamma) (conf : Nat → ℚ) :
    draftSpecRhythmDeviceBatch (run.models.draft t.roundCount) conf run.gamma dr cp.work = .ok
      { verification := rs.flatMap fun i => (tip run.gamma (t.states i) (ws i)).candidates (nextWindow run dr t rowOf i)
        windows := rs.map (nextWindow run dr t rowOf)
        confidences := rs.map conf
        forwards := draftForwards dr (rs.map fun i => (i, (rowOf i).budget))
          (rs.map (nextWindow run dr t rowOf)) } := by
  have hro : cp.work.map (fun row => (row.request, row.budget)) = rs.map fun i => (i, (rowOf i).budget) := by
    rw [hp.work, map_map]
    exact map_congr_left fun i hi => by rw [comp, hp.request i hi]
  have hco : (cp.work.map fun row => conf row.request) = rs.map conf := by
    rw [hp.work, map_map]
    exact map_congr_left fun i hi => by rw [comp, hp.request i hi]
  have hwd : draftWindows (run.models.draft t.roundCount) run.gamma dr
        (rs.map fun i => (i, (rowOf i).budget)) =
      rs.map (nextWindow run dr t rowOf) := by
    rw [draftWindows_eq, map_map]
    · rfl
    · intro row hrow
      obtain ⟨i, hi, rfl⟩ := mem_map.mp hrow
      exact (hp.row i hi).budget.2
  have hpa : ((cp.work.zip (rs.map (nextWindow run dr t rowOf))).mapM fun p =>
        verificationPart run.gamma dr p.1 p.2) = .ok (rs.map fun i =>
      (tip run.gamma (t.states i) (ws i)).candidates (nextWindow run dr t rowOf i)) := by
    rw [hp.work, zip_map', mapM_map]
    refine mapM_ok fun i hi => ?_
    have hact := h.active_lt (hp.active i hi)
    refine verificationPart_ok hg (h.request i hact.1).toRowOk (h.chain i) (hp.row i hi) ?_ _
    rw [hp.request i hi, h.ahead i hact.1 hact.2, tokenIds_tip]; rfl
  have hbu : ¬ (cp.work.any fun row => row.budget = 0 ∨ run.gamma < row.budget) = true := by
    simp only [any_eq_true, decide_eq_true_eq, not_exists, not_and, hp.work, mem_map]
    rintro row ⟨i, hi, rfl⟩
    have := (hp.row i hi).budget
    omega
  unfold draftSpecRhythmDeviceBatch
  simp only [hro, hwd, hco]
  rw [if_neg hbu, hpa, flatMap_def]
  rfl

include hs

theorem windowFor_proposed (hco : ∀ round i, 0 ≤ run.confidence round i ∧ run.confidence round i ≤ 1)
    (hi : i ∈ rs) :
    WindowFor run.gamma i (tip run.gamma (t.states i) (ws i)) (proposed run ws dr t rowOf tk i) := by
  have hrow := hp.row i hi
  have hti := hp.ticket i hi
  have hreq := hp.request i hi
  obtain ⟨hlt, -⟩ := h.active_lt (hp.active i hi)
  obtain ⟨st, hst, hep⟩ := h.registered i hlt
  obtain ⟨state', hst', -, hre⟩ := hti.home
  rw [hreq, hst] at hst'
  cases hst'
  have hnext : (proposed run ws dr t rowOf tk i).nextTokens =
      draftWindow (run.models.draft t.roundCount) dr i (rowOf i).budget := by
    simp only [proposed, payloadOf]
    rw [hti.gamma, take_paddedWindow]
  refine ⟨hti.request.trans hreq, ?_, hti.gamma.trans_le hrow.budget.2, ?_, hrow.size, ?_, ?_, ?_⟩
  · show (tk i).requiredPrefixEpoch = _
    rw [hre, hep, continuationEpoch_tip, hrow.eager]
    have hlen := hs i
    cases hw : ws i with
    | nil => rfl
    | cons p ps =>
      rw [hw] at hlen
      simp only [length_cons] at hlen ⊢
      rw [show ps.length = 0 by omega]; rfl
  · rw [hnext, length_draftWindow]
    exact hti.gamma.symm
  · rw [hnext]
    show PearlPipelineState.candidates _ _ = PearlPipelineState.candidates _ _
    unfold PearlPipelineState.candidates
    congr 1
    rw [← take_paddedWindow _ run.gamma, take_take, Nat.min_eq_left hrow.budget.1]
  · rw [hnext]
    exact draftWindow_nonneg
  · exact quantize_mem (hco _ _)

end

/-! ## Publishing -/

section
variable {c : SpecRhythmPipelineController} {q : Nat → DevicePayload}

def pushed (windows : Nat → List DevicePayload) (q : Nat → DevicePayload) (done : List Nat) : Nat → List DevicePayload :=
  patch done (fun i => windows i ++ [q i]) windows

theorem update_pushed (done : List Nat) (i : Nat) :
    update (pushed ws q done) i (ws i ++ [q i]) = pushed ws q (done ++ [i]) :=
  update_patch done i _ ws

structure Publishable (c : SpecRhythmPipelineController) (windows : List DevicePayload) (i : Nat)
    (ticket : SpecRhythmProposalTicket) : Prop where
  request : ticket.requestIndex = i
  eager : ticket.eager = !windows.isEmpty
  short : windows.length ≤ 1
  epoch : windows = [] → ∃ state, c.requestStates i = some state ∧ ticket.requiredPrefixEpoch = state.prefixEpoch

theorem publishTicket_ok (h : Publishable c (ws i) i (q i).ticket) :
    (c.holding ws).publishTicket (q i).ticket =
      (.ok (), c.holding (update ws i (ws i ++ [q i]))) := by
  have hl := h.short
  unfold publishTicket
  rw [h.request, h.eager, holding_update]
  cases hw : ws i with
  | nil =>
    obtain ⟨st, hstt, he⟩ := h.epoch hw
    have hst : ([] ++ [q i] : List DevicePayload)[1]?.map (·.ticket) = (c.holding ws).stagedEager i := by
      simp [holding, hw]
    rw [hst, update_eq_self]
    simp only [isEmpty_nil, Bool.not_true, Bool.false_eq_true, if_false]
    rw [if_neg (by simp [holding, hw]), show (c.holding ws).requestStates i = some st from hstt]
    simp only [he, ne_eq, not_true_eq_false, if_false]
    rfl
  | cons p ps =>
    obtain rfl : ps = [] := length_eq_zero_iff.mp (by rw [hw] at hl; simpa using hl)
    have hr : ([p] ++ [q i])[0]?.map (·.ticket) = (c.holding ws).ready i := by
      simp [holding, hw]
    rw [hr, update_eq_self]
    simp only [isEmpty_cons, Bool.not_false, if_true]
    rw [if_neg (by simp [holding, hw])]
    rfl

theorem publish_ok : ∀ (l done : List Nat), (done ++ l).Nodup → (∀ i ∈ l, Publishable c (ws i) i (q i).ticket) →
    publish (l.map fun i => (q i).ticket) (c.holding (pushed ws q done)) =
      (.ok (), c.holding (pushed ws q (done ++ l)))
  | [], done, _, _ => by rw [append_nil]; rfl
  | i :: l, done, hn, h => by
    have hi : i ∉ done := fun hm => (nodup_append.mp hn).2.2 i hm i (by simp) rfl
    have ho : pushed ws q done i = ws i := patch_of_notMem hi _ _
    have hstep : (c.holding (pushed ws q done)).publishTicket (q i).ticket = _ :=
      publishTicket_ok (ho.symm ▸ h i (by simp))
    rw [ho, update_pushed] at hstep
    rw [append_cons] at hn
    rw [map_cons, publish, hstep, append_cons done i l]
    exact publish_ok l (done ++ [i]) hn fun j hj => h j (mem_cons_of_mem _ hj)

theorem Held.set (h : Held ws payloads) (hi : p.ticket.requestIndex = i)
    (hps : ∀ r, r ≠ p → (r ∈ ps ↔ r ∈ ws i)) (he : ∀ r, entry = some r ↔ r = p ∧ p ∈ ps)
    (hown : ∀ r, payloads p.ticket.proposalId = some r → r = p) :
    Held (update ws i ps) (update payloads p.ticket.proposalId entry) := by
  intro pid r
  by_cases hr : r = p
  · subst hr
    rw [hi, update_self]
    by_cases hpi : pid = r.ticket.proposalId
    · subst hpi
      rw [update_self, he]
      simp
    · rw [update_of_ne hpi, h]
      simp [Ne.symm hpi]
  · have hm : r ∈ update ws i ps r.ticket.requestIndex ↔ r ∈ ws r.ticket.requestIndex := by
      by_cases hri : r.ticket.requestIndex = i
      · rw [hri, update_self, hps r hr]
      · rw [update_of_ne hri]
    rw [hm, ← h]
    by_cases hpi : pid = p.ticket.proposalId
    · subst hpi
      rw [update_self, he]
      exact ⟨fun he => absurd he.1 hr, fun he => absurd (hown r he) hr⟩
    · rw [update_of_ne hpi]

theorem Held.push (h : Held ws payloads)
    (hi : p.ticket.requestIndex = i) (hf : payloads p.ticket.proposalId = none) :
    Held (update ws i (ws i ++ [p])) (update payloads p.ticket.proposalId (some p)) :=
  h.set hi (fun r hr => by simp [hr]) (fun r => by simp [eq_comm]) (by simp [hf])

theorem held_foldl : ∀ (l done : List Nat) (payloads : Nat → Option DevicePayload), (done ++ l).Nodup →
    (∀ i ∈ l, (q i).ticket.requestIndex = i ∧ payloads (q i).ticket.proposalId = none) →
    (l.map fun i => (q i).ticket.proposalId).Nodup → Held (pushed ws q done) payloads →
    Held (pushed ws q (done ++ l))
      ((l.map q).foldl (fun m p => update m p.ticket.proposalId (some p)) payloads)
  | [], done, _, _, _, _, hhe => by rw [append_nil]; exact hhe
  | i :: l, done, payloads, hn, h, hid, hhe => by
    have hi : i ∉ done := fun hm => (nodup_append.mp hn).2.2 i hm i (by simp) rfl
    have hold : pushed ws q done i = ws i := patch_of_notMem hi _ _
    obtain ⟨hid, hrest⟩ := nodup_cons.mp hid
    have hstep := hhe.push (h i (by simp)).1 (h i (by simp)).2
    rw [hold, update_pushed] at hstep
    rw [append_cons] at hn
    rw [append_cons done i l, map_cons, foldl_cons]
    refine held_foldl l (done ++ [i]) _ hn (fun j hj => ⟨(h j (mem_cons_of_mem _ hj)).1, ?_⟩) hrest hstep
    rw [update_of_ne]
    · exact (h j (mem_cons_of_mem _ hj)).2
    · intro he
      exact hid (mem_map.mpr ⟨j, hj, he⟩)

end

def RhythmRank.withProposals (r : RhythmRank) (cp : CyclePlan) (windows : Nat → List DevicePayload)
    (new : List DevicePayload) : RhythmRank :=
  { r with
    controller := cp.controller.holding windows
    payloads := new.foldl (fun m p => Function.update m p.ticket.proposalId (some p)) r.payloads }

section
theorem extendDraft_eq (hp : PlannedRows run windows t cp requests rowOf ticketOf) (w : Nat → List Int)
    (completed : Nat → Option PearlPipelineState) :
    extendDraft cp.work (requests.map w) (t.asDraft draft completed) =
      t.asDraft (patch requests (fun i => (draft i).extend ((w i).take (rowOf i).budget)) draft) completed := by
  have hf := foldl_closed (fun (states : States) i j =>
      if j = (rowOf i).request then (states j).extend ((w i).take (rowOf i).budget) else states j)
    (fun done => patch done (fun i => (draft i).extend ((w i).take (rowOf i).budget)) draft) requests [] hp.nodup (by
      intro done i hi hm
      rw [← update_patch]
      funext j
      rw [hp.request i hm]
      by_cases hj : j = i
      · subst hj
        rw [if_pos rfl, update_self, patch_of_notMem hi]
      · rw [if_neg hj, update_of_ne hj])
  unfold extendDraft
  rw [hp.work, zip_map', foldl_map]
  exact congrArg (fun states => t.asDraft states completed) hf

theorem PlannedRows.proposalId_mem (hp : PlannedRows run ws t cp rs rowOf tk)
    (hi : i ∈ rs) : t.controller.nextProposalId ≤ (tk i).proposalId ∧
      (tk i).proposalId < t.controller.nextProposalId + cp.work.length := by
  have hm : (tk i).proposalId ∈ range' t.controller.nextProposalId rs.length := by
    rw [← hp.ids]
    exact mem_map_of_mem hi
  have hl : cp.work.length = rs.length := by rw [hp.work, length_map]
  rw [hl]
  simpa using hm

variable (h : Flight run prompt ws dr t) (hcp : Planned run ws t cp)

include h hcp in
theorem controller_eq_holding : cp.controller = cp.controller.holding ws := by
  have hm := h.mail
  rw [hcp.controller]
  unfold SpecRhythmPipelineController.holding at hm ⊢
  simp only [SpecRhythmPipelineController.mk.injEq, true_and]
  exact ⟨congrArg SpecRhythmPipelineController.ready hm, congrArg SpecRhythmPipelineController.stagedEager hm⟩

variable (hs : Settled ws) (hp : PlannedRows run ws t cp rs rowOf tk)
include h hcp hs hp

theorem publishProposals_ok (q : Nat → DevicePayload) (hq : ∀ i, (q i).ticket = tk i) :
    publishProposals t cp (rs.map q) = .ok (t.withProposals cp (pushed ws q rs) (rs.map q)) := by
  have hpb : ∀ i ∈ rs, Publishable cp.controller (ws i) i (q i).ticket := by
    intro i hi
    have hti := hp.ticket i hi
    have hrow := hp.row i hi
    rw [hq]
    refine ⟨hti.request.trans (hp.request i hi), hti.eager.trans hrow.eager, hs i, ?_⟩
    intro hw
    obtain ⟨st, hst, -, hep⟩ := hti.home
    refine ⟨st, ?_, ?_⟩
    · rw [hcp.controller]
      exact (hp.request i hi) ▸ hst
    · rw [hep, hrow.eager, hw]; rfl
  have hpu : publish (rs.map fun i => (q i).ticket)
      (cp.controller.holding (pushed ws q [])) = _ := publish_ok rs [] hp.nodup hpb
  rw [nil_append, show pushed ws q [] = ws from patch_nil _ _, ← controller_eq_holding h hcp,
    show (rs.map fun i => (q i).ticket) = cp.tickets by rw [hp.tickets]; simp only [hq]] at hpu
  unfold publishProposals
  rw [hpu]
  rfl

theorem Flight.published (hco : ∀ round i, 0 ≤ run.confidence round i ∧ run.confidence round i ≤ 1) :
    Flight run prompt (pushed ws (proposed run ws dr t rowOf tk) rs)
      (patch rs (fun i =>
        (dr i).extend ((proposed run ws dr t rowOf tk i).nextTokens)) dr)
      (t.withProposals cp (pushed ws (proposed run ws dr t rowOf tk) rs)
        (rs.map (proposed run ws dr t rowOf tk))) := by
  generalize hq : proposed run ws dr t rowOf tk = q
  have hfo : ∀ i ∈ rs, WindowFor run.gamma i (tip run.gamma (t.states i) (ws i)) (q i) := by
    intro i hi
    rw [← hq]
    exact windowFor_proposed h hs hp hco hi
  have hti : ∀ i, (q i).ticket = tk i := fun i => by rw [← hq]; rfl
  have hnext : (t.withProposals cp (pushed ws q rs) (rs.map q)).controller.nextProposalId =
      t.controller.nextProposalId + cp.work.length := by
    show cp.controller.nextProposalId = _
    rw [hcp.controller]
  refine ⟨rfl, ?_, ?_, ?_, h.nodup, h.uncompleted, ?_, h.request, ?_, ?_, ?_, h.completed⟩
  · intro i
    have := hs i
    unfold pushed patch
    split
    · rw [length_append, length_singleton]; omega
    · omega
  · have hfr : ∀ i ∈ rs, t.payloads (q i).ticket.proposalId = none := by
      intro i hi
      by_contra hno
      obtain ⟨p, hsome⟩ := Option.ne_none_iff_exists'.mp hno
      obtain ⟨hid, hmem⟩ := (h.payloads _ _).mp hsome
      have := h.fresh _ _ hmem
      have := (hp.proposalId_mem hi).1
      rw [hti] at hid
      omega
    have hids : (rs.map fun i => (q i).ticket.proposalId).Nodup := by
      simp only [hti, hp.ids]
      exact nodup_range'
    have hhe := held_foldl rs [] t.payloads hp.nodup (fun i hi => ⟨(hfo i hi).request, hfr i hi⟩) hids h.payloads
    exact hhe
  · intro i p hpi
    rw [hnext]
    unfold pushed patch at hpi
    split at hpi
    · rcases mem_append.mp hpi with hpi | hpi
      · exact Nat.lt_add_right _ (h.fresh i p hpi)
      obtain rfl := mem_singleton.mp hpi
      rw [hti]
      exact (hp.proposalId_mem ‹_›).2
    · exact Nat.lt_add_right _ (h.fresh i p hpi)
  · intro i hne
    unfold pushed patch at hne
    split at hne
    · exact hp.active i ‹_›
    · exact h.flying i hne
  · intro i hi
    obtain ⟨st, hst, hep⟩ := h.registered i hi
    refine ⟨st, ?_, hep⟩
    show cp.controller.requestStates i = _
    rw [hcp.controller]
    exact hst
  · intro i
    unfold pushed patch
    split
    · exact windows_append.mpr ⟨h.chain i, hfo i ‹_›, trivial⟩
    · exact h.chain i
  · intro i hi hc
    show _ = (t.states i).extend _
    unfold pushed patch
    split
    · simp [h.ahead i hi hc, extend, inFlight]
    · exact h.ahead i hi hc

end

end VllmAscend
