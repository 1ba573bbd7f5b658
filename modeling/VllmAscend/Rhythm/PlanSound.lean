import VllmAscend.Rhythm.Pipeline

/-!
# What both groups plan

`Flight` is what the two model groups have between any two operations of a
cycle: one controller, one set of payloads, and for each request the windows in
flight, which the mailboxes name and whose tokens the draft replica is ahead by.
-/

namespace VllmAscend

open Python Rows PearlPipelineState SpecRhythmPipelineController List

variable {c : SpecRhythmPipelineController} {i : Nat} {sts : States} {completed : Nat → Option PearlPipelineState}
  {plan : SpecRhythmExecutionPlan} {budgets : SpecRhythmBudgetPlan}

def RhythmRank.asDraft (t : RhythmRank) (states : States) (completed : Nat → Option PearlPipelineState) : RhythmRank :=
  { t with states := states, completedStates := completed }

def SpecRhythmPipelineController.holding (c : SpecRhythmPipelineController) (windows : Nat → List DevicePayload) :
    SpecRhythmPipelineController :=
  { c with
    ready := fun i => (windows i)[0]?.map (·.ticket)
    stagedEager := fun i => (windows i)[1]?.map (·.ticket) }

theorem holding_update (c : SpecRhythmPipelineController) (ws : Nat → List DevicePayload) (i : Nat)
    (ps : List DevicePayload) : c.holding (Function.update ws i ps) =
    { c.holding ws with
      ready := Function.update (c.holding ws).ready i (ps[0]?.map (·.ticket))
      stagedEager := Function.update (c.holding ws).stagedEager i (ps[1]?.map (·.ticket)) } := by
  have hup : ∀ n : Nat, (fun j => (Function.update ws i ps j)[n]?.map (·.ticket)) =
      Function.update (fun j => (ws j)[n]?.map (·.ticket)) i (ps[n]?.map (·.ticket)) := fun n =>
    Function.comp_update (fun ps : List DevicePayload => ps[n]?.map DevicePayload.ticket) ws i ps
  simp only [holding, hup]

def Held (windows : Nat → List DevicePayload) (payloads : Nat → Option DevicePayload) : Prop :=
  ∀ pid p, payloads pid = some p ↔ p.ticket.proposalId = pid ∧ p ∈ windows p.ticket.requestIndex

def SpecRhythmPipelineController.planMade (c : SpecRhythmPipelineController) : SpecRhythmPipelineController :=
  { c with planId := c.planId + 1 }

structure Flight (run : RhythmRun) (prompt : Nat → List Int) (windows : Nat → List DevicePayload) (draft : States)
    (t : RhythmRank) : Prop where
  mail : t.controller = t.controller.holding windows
  short : ∀ i, (windows i).length ≤ 2
  payloads : Held windows t.payloads
  fresh : ∀ i, ∀ p ∈ windows i, p.ticket.proposalId < t.controller.nextProposalId
  nodup : (t.activeIndices ++ t.pendingAdmission).Nodup
  uncompleted : ∀ i, i ∈ t.activeIndices ++ t.pendingAdmission ↔ i < run.requests ∧ t.completedStates i = none
  flying : ∀ i, windows i ≠ [] → i ∈ t.activeIndices
  request : ∀ i < run.requests, RequestOk run.models run.gamma (prompt i) (run.params i) (t.states i)
  registered : ∀ i < run.requests, ∃ state, t.controller.requestStates i = some state ∧
    state.prefixEpoch = (t.states i).continuationEpoch
  chain : ∀ i, Windows run.gamma i (t.states i) (windows i)
  ahead : ∀ i < run.requests, t.completedStates i = none → draft i = (t.states i).extend (inFlight (windows i))
  completed : ∀ i s, t.completedStates i = some s → s = t.states i ∧ finished run.eos s = true

section
variable {run : RhythmRun} {ws : Nat → List DevicePayload} {t : RhythmRank}

namespace Flight

section
variable (h : Flight run prompt ws dr t)
include h

theorem ready (i : Nat) : t.controller.ready i = (ws i)[0]?.map (·.ticket) :=
  congrFun (congrArg SpecRhythmPipelineController.ready h.mail) i

theorem staged (i : Nat) : t.controller.stagedEager i = (ws i)[1]?.map (·.ticket) :=
  congrFun (congrArg stagedEager h.mail) i

theorem active_lt (hi : i ∈ t.activeIndices) : i < run.requests ∧ t.completedStates i = none :=
  (h.uncompleted i).mp (mem_append_left _ hi)

theorem active_nodup : t.activeIndices.Nodup := h.nodup.of_append_left

end

end Flight

/-! ## The controller's plan -/

theorem homeIs_of_registered (h : c.requestStates i = some st) : c.homeIs st.homeBatchId i = true := by
  simp [homeIs, h]

theorem targetHome_of_ready (hi : i ∈ act) (hre : (c.requestStates i).isSome) (hr : (c.ready i).isSome) :
    ∃ home, c.targetHome act = some home ∧ ∃ j ∈ act, c.homeIs home j = true ∧ (c.ready j).isSome = true := by
  obtain ⟨st, hst⟩ := Option.isSome_iff_exists.mp hre
  have hany : ∀ home, (act.any fun i => decide (c.homeIs home i = true ∧ (c.ready i).isSome = true)) = true →
      ∃ j ∈ act, c.homeIs home j = true ∧ (c.ready j).isSome = true := by
    intro home h
    simpa only [any_eq_true, decide_eq_true_eq] using h
  have hself : (act.any fun j => decide (c.homeIs st.homeBatchId j = true ∧ (c.ready j).isSome = true)) = true := by
    rw [any_eq_true]
    exact ⟨i, hi, by simp [homeIs_of_registered hst, hr]⟩
  unfold targetHome
  simp only
  split
  · rename_i h
    exact ⟨_, rfl, hany _ h⟩
  split
  · rename_i h
    exact ⟨_, rfl, hany _ h⟩
  split
  · rename_i h
    exact ⟨_, rfl, hany _ h⟩
  rename_i h0 h1
  rcases (by omega : st.homeBatchId = 0 ∨ st.homeBatchId = 1) with hho | hho
  · rw [hho] at hself; exact absurd hself h0
  · rw [hho] at hself; exact absurd hself h1

theorem targetIndices_ne_nil (hi : i ∈ act) (hre : (c.requestStates i).isSome)
    (hr : (c.ready i).isSome) : c.targetIndices act ≠ [] := by
  obtain ⟨home, hh, j, hj, hjh, hjr⟩ := targetHome_of_ready hi hre hr
  apply ne_nil_of_mem (a := j)
  simp [targetIndices, hh, hj, hjh, hjr]

theorem normalIndices_ne_nil (hne : act ≠ []) (hrg : ∀ i ∈ act, (c.requestStates i).isSome)
    (hr : ∀ i ∈ act, c.ready i = none ∧ c.stagedEager i = none) : c.normalIndices act ≠ [] := by
  have hno : c.targetHome act = none := by
    have hre : ∀ home, (act.any fun i => decide (c.homeIs home i = true ∧ (c.ready i).isSome = true)) = false := by
      intro home
      rw [any_eq_false]
      intro i hi
      simp [(hr i hi).1]
    simp only [targetHome, hre, Bool.false_eq_true, if_false]
  obtain ⟨i, hi, hho⟩ : ∃ i ∈ act, c.homeIs (c.draftHome act) i = true := by
    unfold draftHome
    simp only [hno]
    by_cases h : act.any (c.homeIs c.nextTargetHomeBatchId) = true
    · rw [if_pos h]
      simpa using h
    rw [if_neg h]
    obtain ⟨i, hi⟩ := exists_mem_of_ne_nil act hne
    obtain ⟨st, hst⟩ := Option.isSome_iff_exists.mp (hrg i hi)
    have hot : c.homeIs c.nextTargetHomeBatchId i = false := by
      simp only [any_eq_true, not_exists, not_and, Bool.not_eq_true] at h
      exact h i hi
    refine ⟨i, hi, ?_⟩
    simp only [homeIs, hst, Option.any_some, decide_eq_false_iff_not, decide_eq_true_eq] at hot ⊢
    omega
  apply ne_nil_of_mem (a := i)
  simp [normalIndices, hi, hho, hr i hi]

def Settled (windows : Nat → List DevicePayload) : Prop := ∀ i, (windows i).length ≤ 1

structure PlanOk (windows : Nat → List DevicePayload) (active : List Nat) (plan : SpecRhythmExecutionPlan) : Prop where
  targetNodup : plan.targetRequestIndices.Nodup
  normalNodup : plan.normalDraftRequestIndices.Nodup
  target : ∀ i ∈ plan.targetRequestIndices, i ∈ active ∧ windows i ≠ []
  normal : ∀ i ∈ plan.normalDraftRequestIndices, i ∈ active ∧ windows i = []
  eager : plan.eagerCandidateIndices = plan.targetRequestIndices
  steady : (∃ i ∈ active, windows i ≠ []) → plan.phase = .steady ∧ plan.targetRequestIndices ≠ []
  warmup : active ≠ [] → (∀ i ∈ active, windows i = []) →
    plan.phase = .warmup ∧ plan.targetRequestIndices = [] ∧ plan.normalDraftRequestIndices ≠ []

theorem PlanOk.phase (h : PlanOk ws act plan) (hne : act ≠ []) : plan.phase ≠ .complete := by
  by_cases hw : ∃ i ∈ act, ws i ≠ []
  · rw [(h.steady hw).1]; decide
  · push Not at hw
    rw [(h.warmup hne hw).1]; decide

section
variable (h : Flight run prompt ws dr t) (hset : Settled ws)
include h

theorem Flight.registered_active : ∀ i ∈ t.activeIndices, (t.controller.requestStates i).isSome := by
  intro i hi
  obtain ⟨st, hs, -⟩ := h.registered i (h.active_lt hi).1
  rw [hs]; rfl

theorem discardInactivePayloads_eq : t.controller.discardInactivePayloads t.activeIndices = t.controller := by
  have hkeep : ∀ f : Nat → Option SpecRhythmProposalTicket, (∀ i, ws i = [] → f i = none) →
      (fun i => if i ∈ t.activeIndices then f i else none) = f := by
    intro f hf
    funext i
    by_cases hi : i ∈ t.activeIndices
    · rw [if_pos hi]
    · rw [if_neg hi, hf i (by_contra fun hne => hi (h.flying i hne))]
  unfold discardInactivePayloads
  rw [hkeep _ fun i hw => by rw [h.ready, hw]; rfl, hkeep _ fun i hw => by rw [h.staged, hw]; rfl]

include hset

theorem Settled.staged (i : Nat) : t.controller.stagedEager i = none := by
  rw [h.staged, getElem?_eq_none (hset i)]; rfl

theorem buildPlan_ok : ∃ plan, t.controller.buildPlan t.activeIndices = .ok (plan, t.controller.planMade) ∧
    PlanOk ws t.activeIndices plan := by
  have hst := Settled.staged h hset
  have hre : ∀ i, (t.controller.ready i).isSome = true ↔ ws i ≠ [] := by
    intro i
    rw [h.ready, Option.isSome_map]
    cases ws i <;> simp
  have hnone : ∀ i, t.controller.ready i = none ↔ ws i = [] := by
    intro i
    rw [h.ready]
    cases ws i <;> simp
  have hea : t.controller.eagerIndices t.activeIndices = t.controller.targetIndices t.activeIndices :=
    filter_eq_self.mpr fun i _ => by simp [hst]
  have hnot : ¬ (t.activeIndices.any fun i => (t.controller.requestStates i).isNone) = true := by
    rw [any_eq_true]
    rintro ⟨i, hi, hno⟩
    have := h.registered_active i hi
    simp_all
  refine ⟨?plan, ?built, ?ok⟩
  case built =>
    simp only [buildPlan, eraseDups_of_nodup h.active_nodup, discardInactivePayloads_eq h]
    rw [if_neg hnot]; rfl
  case ok =>
    refine ⟨h.active_nodup.filter _, h.active_nodup.filter _, ?_, ?_, hea, ?_, ?_⟩
    · intro i hi
      simp only [targetIndices, mem_filter, decide_eq_true_eq] at hi
      exact ⟨hi.1, (hre i).mp hi.2.2⟩
    · intro i hi
      simp only [normalIndices, mem_filter, decide_eq_true_eq, Option.isNone_iff_eq_none] at hi
      exact ⟨hi.1, (hnone i).mp hi.2.2.1⟩
    · rintro ⟨i, hi, hne⟩
      have hta := targetIndices_ne_nil hi (h.registered_active i hi) ((hre i).mpr hne)
      exact ⟨if_pos hta, hta⟩
    · intro hne hw
      have hnr := normalIndices_ne_nil hne h.registered_active fun i hi => ⟨(hnone i).mpr (hw i hi), hst i⟩
      have hta : t.controller.targetIndices t.activeIndices = [] := by
        refine filter_eq_nil_iff.mpr fun i hi => ?_
        simp [(hnone i).mpr (hw i hi)]
      refine ⟨?_, hta, hnr⟩
      unfold phaseOf
      rw [if_neg (by simp [hta]), if_pos hnr]

end

/-! ## The payloads to verify -/

instance : Inhabited SpecRhythmProposalTicket := ⟨⟨0, 0, 0, 1, 0, false, by decide⟩⟩

instance : Inhabited DevicePayload := ⟨⟨default, [], [], 0, 0⟩⟩

def front (windows : Nat → List DevicePayload) (i : Nat) : DevicePayload := (windows i).headD default

variable {cp : CyclePlan}

theorem Settled.eq_front (hset : Settled ws) (hi : ws i ≠ []) : ws i = [front ws i] := by
  have hl := hset i
  unfold front
  rcases hw : ws i with _ | ⟨p, ps⟩
  · exact absurd hw hi
  rw [hw] at hl
  obtain rfl : ps = [] := length_eq_zero_iff.mp (by simpa using hl)
  rfl

def AheadOf (t : RhythmRank) (states : States) : Prop :=
  ∀ i ∈ t.activeIndices, ∃ tokens, states i = (t.states i).extend tokens

theorem aheadOf_self : AheadOf t t.states := fun i _ => ⟨[], by simp [extend]⟩

theorem Flight.aheadOf (h : Flight run prompt ws dr t) : AheadOf t dr := fun i hi =>
  ⟨_, h.ahead i (h.active_lt hi).1 (h.active_lt hi).2⟩

theorem AheadOf.windowSize (ha : AheadOf t sts) (hi : i ∈ t.activeIndices) (γ : Nat) :
    (sts i).windowSize γ = (t.states i).windowSize γ := by
  obtain ⟨tokens, he⟩ := ha i hi
  rw [he]; rfl

section
variable (h : Flight run prompt ws dr t) (hset : Settled ws) (ha : AheadOf t sts)
include h hset ha

theorem targetPayload_ok (hi : i ∈ t.activeIndices) (hw : ws i ≠ []) :
    targetPayload (t.asDraft sts completed) t.controller.planMade i = .ok (front ws i) := by
  have heq := hset.eq_front hw
  have hch := h.chain i
  rw [heq] at hch
  have hre : t.controller.planMade.ready i = some (front ws i).ticket := by
    rw [show t.controller.planMade.ready i = _ from h.ready i, heq]; rfl
  have hhe : t.payloads (front ws i).ticket.proposalId = some (front ws i) := by
    refine (h.payloads _ _).mpr ⟨rfl, ?_⟩
    rw [hch.1.request, heq]; simp
  obtain ⟨tokens, he⟩ := ha i hi
  unfold targetPayload
  simp only [hre, RhythmRank.asDraft, hhe]
  rw [he, validateFor_ok (h.request i (h.active_lt hi).1).toRowOk hch.1]

end

/-! ## The work of a cycle -/

structure BudgetsOk (gamma : Nat) (normal eager : List Nat) (budgets : SpecRhythmBudgetPlan) : Prop where
  normal : budgets.normalBudgets.map (·.1) = normal
  eagerNodup : (budgets.eagerBudgets.map (·.1)).Nodup
  eager : ∀ item ∈ budgets.eagerBudgets, item.1 ∈ eager
  budget : ∀ item ∈ budgets.normalBudgets ++ budgets.eagerBudgets, 0 < item.2 ∧ item.2 ≤ gamma

def BudgetPolicy.Sound (shape : BudgetPolicy) (gamma : Nat) : Prop :=
  ∀ planId normal eager states wait contextLen batchSize budgets, normal.Nodup → eager.Nodup →
    shape planId normal eager states wait contextLen batchSize = .ok budgets → BudgetsOk gamma normal eager budgets

structure WorkOk (run : RhythmRun) (windows : Nat → List DevicePayload) (t : RhythmRank) (plan : SpecRhythmExecutionPlan)
    (work : List WorkRow) : Prop where
  nodup : (work.map (·.request)).Nodup
  active : ∀ row ∈ work, row.request ∈ t.activeIndices
  rows : ∀ row ∈ work, RowFor run.gamma (t.states row.request) (windows row.request) row
  behind : ∀ row ∈ work, windows row.request ≠ [] → row.request ∈ plan.targetRequestIndices
  normal : ∀ i ∈ plan.normalDraftRequestIndices, ∃ row ∈ work, row.request = i

def eagerRowOf (windows : Nat → List DevicePayload) (item : Nat × Nat) : WorkRow :=
  ⟨item.1, item.2, true, (front windows item.1).ticket.gamma, some ((front windows item.1).nextTokens.drop 1)⟩

theorem eagerRow_ok (ws : Nat → List DevicePayload) (hi : item.1 ∈ targets) :
    eagerRow targets (targets.map (front ws)) item = .ok (eagerRowOf ws item) := by
  unfold eagerRow
  rw [← map_prod_left_eq_zip, lookup_graph _ hi]
  rfl

def workOf (run : RhythmRun) (r : RhythmRank) (windows : Nat → List DevicePayload) (budgets : SpecRhythmBudgetPlan) :
    List WorkRow :=
  budgets.normalBudgets.map (normalRow run r) ++ (cappedEagerBudgets run budgets).map (eagerRowOf windows)

section
variable (hb : BudgetsOk run.gamma plan.normalDraftRequestIndices plan.targetRequestIndices budgets)
include hb

theorem BudgetsOk.normalItem (hi : item ∈ budgets.normalBudgets) :
    item.1 ∈ plan.normalDraftRequestIndices ∧ 0 < item.2 ∧ item.2 ≤ run.gamma := by
  refine ⟨?_, hb.budget item (mem_append_left _ hi)⟩
  rw [← hb.normal]
  exact mem_map_of_mem hi

theorem BudgetsOk.eagerItem (hi : item ∈ cappedEagerBudgets run budgets) :
    item.1 ∈ plan.targetRequestIndices ∧ 0 < item.2 ∧ item.2 ≤ run.gamma := by
  obtain ⟨hi, hpos⟩ := mem_filter.mp hi
  obtain ⟨item, hm, rfl⟩ := mem_map.mp hi
  have hle := (hb.budget item (mem_append_right _ hm)).2
  exact ⟨hb.eager item hm, by simpa using hpos, (min_le_left _ _).trans hle⟩

theorem BudgetsOk.eagerNodup_capped : ((cappedEagerBudgets run budgets).map (·.1)).Nodup := by
  have hs := (filter_sublist (p := fun item : Nat × Nat => decide (0 < item.2))
    (l := budgets.eagerBudgets.map fun item => (item.1, min item.2 run.rhythm.maxEagerTokens))).map Prod.fst
  rw [map_map] at hs
  exact hb.eagerNodup.sublist hs

variable (h : Flight run prompt ws dr t) (hset : Settled ws) (ha : AheadOf t sts)
  (hp : PlanOk ws t.activeIndices plan)
include h hset ha hp

theorem workOk_workOf : WorkOk run ws t plan (workOf run (t.asDraft sts completed) ws budgets) := by
  refine ⟨?_, ?_, ?_, ?_, ?_⟩
  · rw [workOf, map_append, map_map, map_map]
    refine nodup_append.mpr ⟨hb.normal ▸ hp.normalNodup, hb.eagerNodup_capped, ?_⟩
    intro i hi j hj hij
    obtain ⟨item, hie, rfl⟩ := mem_map.mp hi
    obtain ⟨item', hie', rfl⟩ := mem_map.mp hj
    -- one has no window in flight, the other has
    apply (hp.target _ (hb.eagerItem hie').1).2
    rw [show item'.1 = item.1 from hij.symm]
    exact (hp.normal _ (hb.normalItem hie).1).2
  · intro row hrow
    rcases mem_append.mp hrow with hrow | hrow
    · obtain ⟨item, hie, rfl⟩ := mem_map.mp hrow
      exact (hp.normal _ (hb.normalItem hie).1).1
    · obtain ⟨item, hie, rfl⟩ := mem_map.mp hrow
      exact (hp.target _ (hb.eagerItem hie).1).1
  · intro row hrow
    rcases mem_append.mp hrow with hrow | hrow
    · obtain ⟨item, hie, rfl⟩ := mem_map.mp hrow
      obtain ⟨hact, hw⟩ := hp.normal _ (hb.normalItem hie).1
      simp only [normalRow, hw]
      exact ⟨rfl, (hb.normalItem hie).2, ha.windowSize hact _, rfl⟩
    · obtain ⟨item, hie, rfl⟩ := mem_map.mp hrow
      have hch := h.chain item.1
      have heq := hset.eq_front (hp.target _ (hb.eagerItem hie).1).2
      rw [heq] at hch
      simp only [eagerRowOf, heq]
      exact ⟨rfl, (hb.eagerItem hie).2, (windowSize_accept hch.1).symm, rfl⟩
  · intro row hrow hne
    rcases mem_append.mp hrow with hrow | hrow
    · obtain ⟨item, hie, rfl⟩ := mem_map.mp hrow
      exact absurd (hp.normal _ (hb.normalItem hie).1).2 hne
    · obtain ⟨item, hie, rfl⟩ := mem_map.mp hrow
      exact (hb.eagerItem hie).1
  · intro i hi
    rw [← hb.normal] at hi
    obtain ⟨item, hie, rfl⟩ := mem_map.mp hi
    exact ⟨_, mem_append_left _ (mem_map_of_mem hie), rfl⟩

end

section
variable {r : RhythmRank}

def HasWork (run : RhythmRun) (r : RhythmRank) (c : SpecRhythmPipelineController) (plan : SpecRhythmExecutionPlan) :
    Prop :=
  ¬ (plan.normalDraftRequestIndices = [] ∧ eagerCandidates run r c plan.eagerCandidateIndices = [])

theorem planWork_none (hno : ¬ HasWork run r c plan) (payloads : List DevicePayload) :
    planWork run r c plan payloads = .ok [] := by
  unfold planWork
  rw [if_pos (not_not.mp hno)]; rfl

theorem planWork_some (hw : HasWork run r c plan)
    (hb : BudgetsOk run.gamma plan.normalDraftRequestIndices plan.targetRequestIndices budgets)
    (hs : shapedBudgets run r c plan = .ok budgets) :
    planWork run r c plan (plan.targetRequestIndices.map (front ws)) = .ok (workOf run r ws budgets) := by
  unfold planWork
  rw [if_neg hw, hs]
  simp only [ok_bind]
  rw [mapM_ok fun item hi => eagerRow_ok ws (hb.eagerItem hi).1]
  rfl

theorem budgetsOk_of_shaped (hpo : run.shape.Sound run.gamma) (hp : PlanOk ws act plan)
    (hs : shapedBudgets run r c plan = .ok budgets) :
    BudgetsOk run.gamma plan.normalDraftRequestIndices plan.targetRequestIndices budgets := by
  have hc : (eagerCandidates run r c plan.eagerCandidateIndices).Sublist plan.targetRequestIndices := by
    unfold eagerCandidates
    split
    · exact nil_sublist _
    · rw [hp.eager]; exact filter_sublist
  have hb := hpo _ _ _ _ _ _ _ _ hp.normalNodup (hp.targetNodup.sublist hc) hs
  exact ⟨hb.normal, hb.eagerNodup, fun item hi => hc.subset (hb.eager item hi), hb.budget⟩

end

/-! ## Tickets -/

structure TicketFor (c : SpecRhythmPipelineController) (row : WorkRow) (ticket : SpecRhythmProposalTicket) : Prop where
  request : ticket.requestIndex = row.request
  gamma : ticket.gamma = row.budget
  eager : ticket.eager = row.eager
  home : ∃ state, c.requestStates row.request = some state ∧ ticket.homeBatchId = state.homeBatchId ∧
    ticket.requiredPrefixEpoch = state.prefixEpoch + row.eager.toNat

theorem newTickets_ok : ∀ (work : List WorkRow) (c : SpecRhythmPipelineController),
    (∀ row ∈ work, (c.requestStates row.request).isSome = true ∧ 0 < row.budget) →
    ∃ tks, newTickets work c = .ok (tks, { c with nextProposalId := c.nextProposalId + work.length }) ∧
      List.Forall₂ (TicketFor c) work tks ∧
      tks.map (·.proposalId) = range' c.nextProposalId work.length
  | [], c, _ => ⟨[], rfl, .nil, rfl⟩
  | row :: work, c, h => by
    obtain ⟨hr, hpos⟩ := h row (by simp)
    obtain ⟨st, hs⟩ := Option.isSome_iff_exists.mp hr
    obtain ⟨tks, hok, hf, hi⟩ := newTickets_ok work { c with nextProposalId := c.nextProposalId + 1 }
      fun row hrow => h row (mem_cons_of_mem _ hrow)
    refine ⟨⟨c.nextProposalId, row.request, st.homeBatchId, row.budget, st.prefixEpoch + row.eager.toNat,
      row.eager, hpos⟩ :: tks, ?_, .cons ⟨rfl, rfl, rfl, st, hs, rfl, rfl⟩ (hf.imp ?_), ?_⟩
    · unfold newTickets newTicket
      simp only [hs, hpos, dite_true, ok_bind, hok, pure, Except.pure, length_cons, Except.ok.injEq,
        Prod.mk.injEq, true_and, SpecRhythmPipelineController.mk.injEq, and_true]
      omega
    · exact fun row ticket ht => ⟨ht.request, ht.gamma, ht.eager, ht.home⟩
    · rw [map_cons, hi, length_cons, range'_succ]

/-! ## The cycle's plan -/

structure Planned (run : RhythmRun) (windows : Nat → List DevicePayload) (t : RhythmRank) (cp : CyclePlan) : Prop where
  built : ∃ plan, t.controller.buildPlan t.activeIndices = .ok (plan, t.controller.planMade) ∧
    cp.targets = plan.targetRequestIndices
  made : newTickets cp.work t.controller.planMade = .ok (cp.tickets, cp.controller)
  targetNodup : cp.targets.Nodup
  target : ∀ i ∈ cp.targets, i ∈ t.activeIndices ∧ windows i ≠ []
  payloads : cp.targetPayloads = cp.targets.map (front windows)
  nodup : (cp.work.map (·.request)).Nodup
  active : ∀ row ∈ cp.work, row.request ∈ t.activeIndices
  rows : ∀ row ∈ cp.work, RowFor run.gamma (t.states row.request) (windows row.request) row
  behind : ∀ row ∈ cp.work, windows row.request ≠ [] → row.request ∈ cp.targets
  tickets : List.Forall₂ (TicketFor t.controller) cp.work cp.tickets
  ids : cp.tickets.map (·.proposalId) = List.range' t.controller.nextProposalId cp.work.length
  controller : cp.controller = { t.controller with
    planId := t.controller.planId + 1, nextProposalId := t.controller.nextProposalId + cp.work.length }
  progress : cp.targets = [] → (∀ i, windows i = []) ∧ cp.work ≠ []

section
variable (h : Flight run prompt ws dr t) (hne : t.activeIndices ≠ [])
  (hp : PlanOk ws t.activeIndices plan)
  (hbu : t.controller.buildPlan t.activeIndices = .ok (plan, t.controller.planMade))
include h hne hp hbu

theorem planned_of_work {work : List WorkRow} (hwo : WorkOk run ws t plan work) :
    ∃ made, newTickets work t.controller.planMade = .ok made ∧ Planned run ws t
      ⟨made.2, plan.targetRequestIndices, plan.targetRequestIndices.map (front ws), work, made.1⟩ := by
  obtain ⟨tks, hok, hfo, hid⟩ := newTickets_ok work t.controller.planMade
    fun row hrow => ⟨h.registered_active _ (hwo.active row hrow), (hwo.rows row hrow).budget.1⟩
  refine ⟨_, hok, ⟨plan, hbu, rfl⟩, hok, hp.targetNodup, hp.target, rfl, hwo.nodup, hwo.active, hwo.rows,
    hwo.behind, ?_, hid, rfl, ?_⟩
  · exact hfo.imp fun row ticket ht => ⟨ht.request, ht.gamma, ht.eager, ht.home⟩
  · intro hnone
    have hno : ∀ i ∈ t.activeIndices, ws i = [] := by
      intro i hi
      by_contra hw
      exact (hp.steady ⟨i, hi, hw⟩).2 hnone
    obtain ⟨i, hi⟩ := exists_mem_of_ne_nil _ (hp.warmup hne hno).2.2
    obtain ⟨row, hrow, -⟩ := hwo.normal i hi
    refine ⟨fun i => ?_, ne_nil_of_mem hrow⟩
    by_contra hw
    exact hw (hno i (h.flying i hw))

variable (hset : Settled ws) (ha : AheadOf t sts)
include hset ha

theorem planCycle_eq : planCycle run (t.asDraft sts completed) =
    (planWork run (t.asDraft sts completed) t.controller.planMade plan
      (plan.targetRequestIndices.map (front ws))) >>= fun work =>
    (newTickets work t.controller.planMade) >>= fun made =>
    .ok ⟨made.2, plan.targetRequestIndices, plan.targetRequestIndices.map (front ws), work, made.1⟩ := by
  have hpa : plan.targetRequestIndices.mapM (targetPayload (t.asDraft sts completed) t.controller.planMade) =
      .ok (plan.targetRequestIndices.map (front ws)) :=
    mapM_ok fun i hi => targetPayload_ok h hset ha (hp.target i hi).1 (hp.target i hi).2
  unfold planCycle
  rw [show (t.asDraft sts completed).controller.buildPlan (t.asDraft sts completed).activeIndices = _ from hbu]
  simp only [ok_bind]
  rw [if_neg (hp.phase hne), hpa]
  rfl

omit hne hbu in
theorem workOk_of_planWork (hpo : run.shape.Sound run.gamma) {work : List WorkRow}
    (hw : planWork run (t.asDraft sts completed) t.controller.planMade plan
      (plan.targetRequestIndices.map (front ws)) = .ok work) : WorkOk run ws t plan work := by
  by_cases hh : HasWork run (t.asDraft sts completed) t.controller.planMade plan
  · obtain ⟨budgets, hs, -⟩ : ∃ budgets, shapedBudgets run (t.asDraft sts completed) t.controller.planMade plan =
        .ok budgets ∧ _ := by
      unfold planWork at hw
      rw [if_neg hh] at hw
      exact bind_ok.mp hw
    have hb := budgetsOk_of_shaped hpo hp hs
    rw [planWork_some hh hb hs] at hw
    cases hw
    exact workOk_workOf hb h hset ha hp
  · rw [planWork_none hh] at hw
    cases hw
    exact ⟨nodup_nil, by simp, by simp, by simp, by simp [(not_not.mp hh).1]⟩

theorem planned_of_ok (hpo : run.shape.Sound run.gamma)
    (hcp : planCycle run (t.asDraft sts completed) = .ok cp) : Planned run ws t cp := by
  rw [planCycle_eq h hne hp hbu hset ha] at hcp
  obtain ⟨work, hwo, hcp⟩ := bind_ok.mp hcp
  obtain ⟨made, hma, hcp⟩ := bind_ok.mp hcp
  obtain ⟨made', hma', hpl⟩ := planned_of_work h hne hp hbu (workOk_of_planWork h hp hset ha hpo hwo)
  rw [hma] at hma'
  cases hma'
  cases hcp
  exact hpl

end

structure PlannedRows (run : RhythmRun) (windows : Nat → List DevicePayload) (t : RhythmRank) (cp : CyclePlan)
    (requests : List Nat) (rowOf : Nat → WorkRow) (ticketOf : Nat → SpecRhythmProposalTicket) : Prop where
  nodup : requests.Nodup
  work : cp.work = requests.map rowOf
  tickets : cp.tickets = requests.map ticketOf
  active : ∀ i ∈ requests, i ∈ t.activeIndices
  request : ∀ i ∈ requests, (rowOf i).request = i
  row : ∀ i ∈ requests, RowFor run.gamma (t.states i) (windows i) (rowOf i)
  behind : ∀ i ∈ requests, windows i ≠ [] → i ∈ cp.targets
  ticket : ∀ i ∈ requests, TicketFor t.controller (rowOf i) (ticketOf i)
  ids : (requests.map fun i => (ticketOf i).proposalId) = List.range' t.controller.nextProposalId requests.length

theorem Planned.exists_rows (hcp : Planned run ws t cp) :
    ∃ rowOf ticketOf, PlannedRows run ws t cp (cp.work.map (·.request)) rowOf ticketOf := by
  have hl := hcp.tickets.length_eq
  obtain ⟨rowOf, hro⟩ : ∃ rowOf, cp.work = (cp.work.map (·.request)).map rowOf := exists_map_eq hcp.nodup (by simp)
  obtain ⟨ticketOf, ht⟩ : ∃ ticketOf, cp.tickets = (cp.work.map (·.request)).map ticketOf :=
    exists_map_eq hcp.nodup (by simp [hl])
  have hm : ∀ i ∈ cp.work.map (·.request), rowOf i ∈ cp.work := by
    intro i hi
    rw [hro]
    exact mem_map_of_mem hi
  have hr : ∀ i ∈ cp.work.map (·.request), (rowOf i).request = i := by
    have hid := congrArg (map (·.request)) hro
    rw [map_map] at hid
    intro i hi
    exact (map_inj_left.mp ((map_id _).trans hid) i hi).symm
  refine ⟨rowOf, ticketOf, hcp.nodup, hro, ht, ?_, hr, ?_, ?_, ?_, ?_⟩
  · intro i hi
    exact hr i hi ▸ hcp.active _ (hm i hi)
  · intro i hi
    have := hcp.rows _ (hm i hi)
    rwa [hr i hi] at this
  · intro i hi
    have := hcp.behind _ (hm i hi)
    rwa [hr i hi] at this
  · have := hcp.tickets
    rw [hro, ht, forall₂_map_left_iff, forall₂_map_right_iff, forall₂_same] at this
    exact this
  · have := hcp.ids
    rw [ht, map_map] at this
    rw [length_map]
    exact this

theorem Planned.unique (hcp : Planned run ws t cp) (hcp' : Planned run ws t cp')
    (hw : cp.work = cp'.work) : cp = cp' := by
  obtain ⟨plan, hbu, ht⟩ := hcp.built
  obtain ⟨plan', hbu', ht'⟩ := hcp'.built
  have hm := hcp'.made
  rw [hbu] at hbu'
  cases hbu'
  rw [← hw, hcp.made] at hm
  have hpa := hcp.payloads
  have hpa' := hcp'.payloads
  rw [ht] at hpa
  rw [ht'] at hpa'
  obtain ⟨c, targets, payloads, work, tks⟩ := cp
  obtain ⟨c', targets', payloads', work', tickets'⟩ := cp'
  cases hm
  simp only at hw ht ht' hpa hpa'
  rw [hw, ht, ht', hpa, hpa']

def SameShaping (run : RhythmRun) (d t : RhythmRank) : Prop :=
  ∀ plan controller, t.controller.buildPlan t.activeIndices = .ok (plan, controller) → HasWork run t controller plan →
    ∃ budgets, shapedBudgets run d controller plan = .ok budgets ∧ shapedBudgets run t controller plan = .ok budgets

section
variable (h : Flight run prompt ws dr t) (hset : Settled ws) (hne : t.activeIndices ≠ [])
  (hpo : run.shape.Sound run.gamma)
include h hpo

theorem planWork_congr (hp : PlanOk ws t.activeIndices plan)
    (hsame : HasWork run t c plan → shapedBudgets run (t.asDraft dr completed) c plan = shapedBudgets run t c plan) :
    planWork run (t.asDraft dr completed) c plan (plan.targetRequestIndices.map (front ws)) =
      planWork run t c plan (plan.targetRequestIndices.map (front ws)) := by
  by_cases hha : HasWork run t c plan
  · have hd := hsame hha
    cases ht : shapedBudgets run t c plan with
    | error e =>
      unfold planWork
      rw [if_neg (show ¬ (_ ∧ eagerCandidates run (t.asDraft dr completed) c _ = []) from hha), if_neg hha, hd, ht]
      rfl
    | ok budgets =>
      rw [ht] at hd
      have hb := budgetsOk_of_shaped hpo hp ht
      have hro : workOf run (t.asDraft dr completed) ws budgets = workOf run t ws budgets := by
        unfold workOf
        congr 1
        refine map_congr_left fun item hie => ?_
        have hact := (hp.normal _ (hb.normalItem hie).1).1
        simp only [normalRow]
        rw [show (t.asDraft dr completed).states = dr from rfl, h.aheadOf.windowSize hact]
      rw [planWork_some (r := t.asDraft dr completed) hha hb hd, planWork_some hha hb ht, hro]
  · rw [planWork_none (r := t.asDraft dr completed) hha, planWork_none hha]

include hset hne

theorem planCycle_congr (hs : ∀ plan ctl, t.controller.buildPlan t.activeIndices = .ok (plan, ctl) →
      HasWork run t ctl plan →
      shapedBudgets run (t.asDraft dr completed) ctl plan = shapedBudgets run t ctl plan) :
    planCycle run (t.asDraft dr completed) = planCycle run t := by
  obtain ⟨plan, hbu, hp⟩ := buildPlan_ok h hset
  have hw := planWork_congr h hpo hp (hs plan _ hbu)
  have ht : planCycle run (t.asDraft t.states t.completedStates) = _ := planCycle_eq h hne hp hbu hset aheadOf_self
  rw [planCycle_eq h hne hp hbu hset h.aheadOf, hw]
  exact ht.symm

theorem planCycle_same (hsame : SameShaping run (t.asDraft dr completed) t) :
    ∃ cp, planCycle run (t.asDraft dr completed) = .ok cp ∧ planCycle run t = .ok cp ∧ Planned run ws t cp := by
  obtain ⟨plan, hbu, hp⟩ := buildPlan_ok h hset
  have hco : planCycle run (t.asDraft dr completed) = planCycle run t := by
    refine planCycle_congr h hset hne hpo fun plan ctl hp hha => ?_
    obtain ⟨budgets, hd, ht⟩ := hsame plan ctl hp hha
    rw [hd, ht]
  obtain ⟨work, hwo⟩ : ∃ work, planWork run t t.controller.planMade plan
      (plan.targetRequestIndices.map (front ws)) = .ok work := by
    by_cases hha : HasWork run t t.controller.planMade plan
    · obtain ⟨budgets, -, ht⟩ := hsame plan _ hbu hha
      exact ⟨_, planWork_some hha (budgetsOk_of_shaped hpo hp ht) ht⟩
    · exact ⟨[], planWork_none hha _⟩
  obtain ⟨made, hma, hpl⟩ := planned_of_work h hne hp hbu
    (workOk_of_planWork h hp hset aheadOf_self hpo
      (show planWork run (t.asDraft t.states t.completedStates) _ _ _ = .ok work from hwo))
  have hta : planCycle run (t.asDraft t.states t.completedStates) = _ := planCycle_eq h hne hp hbu hset aheadOf_self
  rw [show planWork run (t.asDraft t.states t.completedStates) t.controller.planMade plan _ = _ from hwo] at hta
  simp only [ok_bind, hma] at hta
  exact ⟨_, hco.trans hta, hta, hpl⟩

end

end

end VllmAscend
