import VllmAscend.Eplb.Placement
import VllmAscend.Eplb.Updator

/-!
# The EPLB cycle in order

If both intervals are positive, every run is a sequence of cycles: one wakeup,
its answer taken, the layers in order, then the reset.
-/

namespace VllmAscend.Eplb

open Python Updator List

def cycleEvents (numMoeLayers : Nat) : List UpdatorEvent :=
  [.wakeup, .get] ++ (List.range numMoeLayers).map .pop ++ [.reset]

def Disciplined (cfg : EplbConfig) (numMoeLayers : Nat) (statuses : List Bool) : Prop :=
  ∃ u events, Updator.run cfg numMoeLayers {} statuses = .ok (u, events) ∧
    ∃ k rest, rest <+: cycleEvents numMoeLayers ∧
      events = (List.replicate k (cycleEvents numMoeLayers)).flatten ++ rest

section
variable {cfg : EplbConfig} {num : Nat}

theorem validate_ok (h : cfg.validate = .ok ()) :
    0 ≤ cfg.expertHeatCollectionInterval ∧ 0 ≤ cfg.algorithmExecutionInterval := by
  obtain ⟨_, hh, h⟩ := bind_ok.mp h
  obtain ⟨_, ha, -⟩ := bind_ok.mp h
  exact ⟨not_lt.mp (ite_throw.mp hh).1, not_lt.mp (ite_throw.mp ha).1⟩

/-! ## The worker's answer -/

theorem layerId_composeLayer {up current : Fin n → Table} {info : UpdateInfo n}
    (h : composeLayer up current layer = .ok info) : info.layerId = layer := by
  unfold composeLayer at h
  split at h
  · cases h
    rfl
  split at h
  · cases h
  refine foldlM_inv (P := fun info => info.layerId = layer) (fun cell _ s s' hs h => ?_) rfl h
  obtain ⟨src, -, h⟩ := bind_ok.mp h
  cases h
  exact hs

theorem layerIds_compose {layers : List ((Fin n → Table) × (Fin n → Table))} {plan : List (UpdateInfo n)} :
    ∀ {k : Nat}, (layers.zipIdx k).mapM (fun ((up, current), layer) => composeLayer up current layer) = .ok plan →
      plan.map UpdateInfo.layerId = range' k layers.length := by
  induction layers generalizing plan with
  | nil =>
    intro k h
    cases h
    rfl
  | cons maps layers ih =>
    intro k h
    obtain ⟨info, rest, hinfo, hrest, rfl⟩ := mapM_cons_ok.mp h
    rw [map_cons, layerId_composeLayer hinfo, ih hrest, length_cons, range'_succ]

/-- What `takeInfo` takes are the layers of the worker's plan, in its order. -/
theorem updateInfoAll_takeInfo {oldMaps newPlacement newMaps : List (Fin n → Table)} {plan : List (UpdateInfo n)}
    {u u' : Updator}
    (hplan : doUpdate slots oldMaps newPlacement = .ok (newMaps, plan)) (hold : oldMaps.length = num)
    (hnew : newMaps.length = num) (ht : u.takeInfo cfg num = .ok (u', [.get])) :
    u'.updateInfoAll = plan.map UpdateInfo.layerId := by
  obtain ⟨maps, -, hplan⟩ := bind_ok.mp hplan
  obtain ⟨plan', hcompose, hplan⟩ := bind_ok.mp hplan
  cases hplan
  rw [layerIds_compose hcompose, length_zip, hold, hnew, Nat.min_self, ← range_eq_range']
  unfold takeInfo at ht
  split at ht
  · split at ht <;> cases ht
    rfl
  · cases ht

/-! ## The phases of a cycle -/

inductive Phase (cfg : EplbConfig) (numMoeLayers : Nat) : Updator → List UpdatorEvent → Prop where
  | collecting {cur : Int} : 0 ≤ cur → cur < cfg.expertHeatCollectionInterval →
    Phase cfg numMoeLayers ⟨cur, [], 0⟩ []
  | planning {cur : Int} : cfg.expertHeatCollectionInterval ≤ cur →
    cur < cfg.expertHeatCollectionInterval + cfg.algorithmExecutionInterval →
    Phase cfg numMoeLayers ⟨cur, [], 1⟩ [.wakeup]
  | updating {layer : Nat} : layer < numMoeLayers →
    Phase cfg numMoeLayers
      ⟨cfg.expertHeatCollectionInterval + cfg.algorithmExecutionInterval + layer,
        List.range' layer (numMoeLayers - layer), 0⟩
      ([.wakeup, .get] ++ (List.range layer).map .pop)

theorem range_split (hlt : ly ≤ num) :
    range num = range ly ++ range' ly (num - ly) := by
  have hap := @range'_append_1 0 ly (num - ly)
  rw [Nat.zero_add, Nat.add_sub_cancel' hlt] at hap
  rw [range_eq_range', range_eq_range', hap]

theorem Phase.isPrefix (h : Phase cfg num u shown) : shown <+: cycleEvents num := by
  cases h with
  | collecting => exact nil_prefix
  | planning => exact ⟨.get :: ((range num).map .pop ++ [.reset]), rfl⟩
  | @updating ly hlt =>
    refine ⟨(range' ly (num - ly)).map .pop ++ [.reset], ?_⟩
    rw [cycleEvents, range_split hlt.le, map_append]
    simp

def Phase.Advances (cfg : EplbConfig) (numMoeLayers : Nat) (u : Updator) (shown : List UpdatorEvent)
    (status : Bool) : Prop :=
  ∃ u' events, u.forward cfg numMoeLayers status = .ok (u', events) ∧
    (Phase cfg numMoeLayers u' (shown ++ events) ∨
      shown ++ events = cycleEvents numMoeLayers ∧ Phase cfg numMoeLayers u' [])

/-! ## One forward -/

section
variable {wakeups : Nat}

theorem forward_eq (h : forwardBefore cfg num ⟨cur, info, wakeups⟩ = .ok (u, before)) :
    forward cfg num ⟨cur, info, wakeups⟩ status =
      .ok ((u.forwardEnd cfg num status).1, before ++ (u.forwardEnd cfg num status).2) := by
  simp [forward, h]

variable (hhe : cfg.expertHeatCollectionInterval = heat) (hst : heat + cfg.algorithmExecutionInterval = start)
include hhe hst

theorem takeInfo_of_ne (h : cur ≠ start - 1) :
    takeInfo cfg num ⟨cur, info, wakeups⟩ = .ok (⟨cur, info, wakeups⟩, []) := by
  simp [takeInfo, getUpdateInfoFlag, hhe, hst, h]

theorem popInfo_of_lt (h : cur < start) :
    popInfo cfg num ⟨cur, info, wakeups⟩ = .ok (⟨cur, info, wakeups⟩, []) := by
  have hf : updateExpertWeightFlag cfg num ⟨cur, info, wakeups⟩ = false := by
    simp [updateExpertWeightFlag, hhe, hst, Int.not_le.mpr h]
  simp [popInfo, hf]

theorem forwardBefore_of_lt (h : cur < start - 1) :
    forwardBefore cfg num ⟨cur, info, wakeups⟩ = .ok (⟨cur, info, wakeups⟩, []) := by
  have hlt : cur < start := by omega
  simp [forwardBefore, takeInfo_of_ne hhe hst h.ne, popInfo_of_lt hhe hst hlt]

theorem forward_blocked (h : cur = start - 1) : forward cfg num ⟨cur, info, 0⟩ status = .error .blocked := by
  simp [forward, forwardBefore, takeInfo, getUpdateInfoFlag, hhe, hst, h]

theorem forwardBefore_get (h : cur = start - 1) :
    forwardBefore cfg num ⟨cur, info, wakeups + 1⟩ = .ok (⟨cur, range num, wakeups⟩, [.get]) := by
  simp [forwardBefore, takeInfo, getUpdateInfoFlag, hhe, hst, h, popInfo_of_lt hhe hst]

theorem forwardBefore_pop (hlt : ly < num) (h : cur = start + ly) :
    forwardBefore cfg num ⟨cur, first :: info, wakeups⟩ = .ok (⟨cur, info, wakeups⟩, [.pop first]) := by
  have hne : cur ≠ start - 1 := by omega
  have hf : updateExpertWeightFlag cfg num ⟨cur, first :: info, wakeups⟩ = true := by
    simp [updateExpertWeightFlag, hhe, hst, h, hlt]
  simp [forwardBefore, takeInfo_of_ne hhe hst hne, popInfo, hf]

theorem forwardEnd_collecting (h : cur < heat - 1) (hlt : cur + 1 < start + num) :
    forwardEnd cfg num ⟨cur, info, wakeups⟩ status =
      (⟨if status then cur + 1 else cur, info, wakeups⟩, []) := by
  have hle : ¬ heat ≤ cur + 1 := by omega
  cases status <;>
    simp [forwardEnd, wakeupEplbWorkerFlag, hhe, h.ne, updateIteration, hst, hlt.ne, hle]

theorem forwardEnd_wakeup (h : cur = heat - 1) (hlt : cur + 1 < start + num) :
    forwardEnd cfg num ⟨cur, info, wakeups⟩ status = (⟨cur + 1, info, wakeups + 1⟩, [.wakeup]) := by
  have hle : heat ≤ cur + 1 := by omega
  have hf : wakeupEplbWorkerFlag cfg ⟨cur, info, wakeups⟩ = true := by
    simp [wakeupEplbWorkerFlag, hhe, h]
  simp [forwardEnd, hf, hhe, hle, updateIteration, hst, hlt.ne]

theorem forwardEnd_later (h : heat ≤ cur) (hr : cur + 1 ≠ start + num) :
    forwardEnd cfg num ⟨cur, info, wakeups⟩ status = (⟨cur + 1, info, wakeups⟩, []) := by
  have hne : cur ≠ heat - 1 := by omega
  have hle : heat ≤ cur + 1 := by omega
  simp [forwardEnd, wakeupEplbWorkerFlag, hhe, hne, hle, updateIteration, hst, hr]

theorem forwardEnd_reset (h : heat ≤ cur) (heq : cur + 1 = start + num) :
    forwardEnd cfg num ⟨cur, info, wakeups⟩ status = (⟨0, info, wakeups⟩, [.reset]) := by
  have hne : cur ≠ heat - 1 := by omega
  have hle : heat - 1 ≤ cur := by omega
  simp only [forwardEnd, wakeupEplbWorkerFlag, hhe, hne, updateIteration, hst, decide_false,
    Bool.false_eq_true, if_false, if_pos (Or.inl hle), if_pos heq, nil_append]

end

section
variable (hh : 1 ≤ cfg.expertHeatCollectionInterval) (ha : 1 ≤ cfg.algorithmExecutionInterval)
include hh ha

variable {shown : List UpdatorEvent}

theorem Phase.forward (h : Phase cfg num u shown) (status : Bool) :
    Phase.Advances cfg num u shown status := by
  cases h with
  | @collecting cur h0 hlt =>
    refine ⟨_, _, forward_eq (forwardBefore_of_lt rfl rfl (by omega)), .inl ?_⟩
    by_cases hwa : cur = cfg.expertHeatCollectionInterval - 1
    · rw [forwardEnd_wakeup rfl rfl hwa (by omega)]
      exact .planning (by omega) (by omega)
    · rw [forwardEnd_collecting rfl rfl (by omega) (by omega)]
      exact .collecting (by split <;> omega) (by split <;> omega)
  | @planning cur hle hlt =>
    by_cases hget : cur = cfg.expertHeatCollectionInterval + cfg.algorithmExecutionInterval - 1
    · refine ⟨_, _, forward_eq (forwardBefore_get rfl rfl hget), ?_⟩
      rcases Nat.eq_zero_or_pos num with hzero | hpos
      · rw [forwardEnd_reset rfl rfl hle (by omega)]
        subst hzero
        exact .inr ⟨rfl, .collecting le_rfl (by omega)⟩
      rw [forwardEnd_later rfl rfl hle (by omega)]
      have hph : Phase cfg num _ _ := .updating hpos
      rw [range_eq_range', hget, sub_add_cancel]
      exact .inl (by simpa using hph)
    · refine ⟨_, _, forward_eq (forwardBefore_of_lt rfl rfl (by omega)), .inl ?_⟩
      rw [forwardEnd_later rfl rfl hle (by omega)]
      exact .planning (by omega) (by omega)
  | @updating ly hlt =>
    have hif : range' ly (num - ly) = ly :: range' (ly + 1) (num - (ly + 1)) := by
      rw [← range'_succ]
      congr 1; omega
    rw [hif]
    refine ⟨_, _, forward_eq (forwardBefore_pop rfl rfl hlt rfl), ?_⟩
    have hsh : [UpdatorEvent.wakeup, .get] ++ (range ly).map .pop ++ [.pop ly] =
        [.wakeup, .get] ++ (range (ly + 1)).map .pop := by
      rw [range_succ, map_append]; rfl
    by_cases hlast : ly + 1 = num
    · rw [forwardEnd_reset rfl rfl (by omega) (by omega), ← append_assoc, hsh, hlast, Nat.sub_self]
      exact .inr ⟨rfl, .collecting le_rfl (by omega)⟩
    rw [forwardEnd_later rfl rfl (by omega) (by omega), append_nil, hsh]
    have hnext : ly + 1 < num := by omega
    rw [add_assoc]
    exact .inl (.updating hnext)

theorem Phase.run (h : Phase cfg num u shown) :
    ∀ sts : List Bool, ∃ u' es, run cfg num u sts = .ok (u', es) ∧
      ∃ k rest, rest <+: cycleEvents num ∧
        shown ++ es = (replicate k (cycleEvents num)).flatten ++ rest := by
  intro sts
  induction sts generalizing u shown with
  | nil => exact ⟨u, [], rfl, 0, shown, h.isPrefix, by simp⟩
  | cons status sts ih =>
    obtain ⟨u1, first, hf, hp | ⟨hc, hp⟩⟩ := h.forward hh ha status
    · obtain ⟨u', es, hrun, k, rest, hr, he⟩ := ih hp
      refine ⟨u', first ++ es, ?_, k, rest, hr, by rw [← append_assoc, he]⟩
      simp [run, hf, hrun]
    · obtain ⟨u', es, hrun, k, rest, hr, he⟩ := ih hp
      refine ⟨u', first ++ es, ?_, k + 1, rest, hr, ?_⟩
      · simp [run, hf, hrun]
      · rw [nil_append] at he
        rw [← append_assoc, hc, he, replicate_succ, flatten_cons, append_assoc]

theorem disciplined_of_pos (sts : List Bool) : Disciplined cfg num sts :=
  (Phase.collecting le_rfl (by omega)).run hh ha sts

end

/-! ## Intervals of zero -/

theorem run_idle (hz : cfg.expertHeatCollectionInterval = 0 ∨ cfg.algorithmExecutionInterval = 0) :
    ∀ (n : Nat) {cur : Int}, 0 ≤ cur → cur + n = cfg.expertHeatCollectionInterval + cfg.algorithmExecutionInterval - 1 →
      run cfg num ⟨cur, [], 0⟩ (replicate (n + 1) true) = .error .blocked := by
  intro n
  induction n with
  | zero =>
    intro cur _ hc
    have hc' : cur = cfg.expertHeatCollectionInterval + cfg.algorithmExecutionInterval - 1 := by omega
    simp [run, forward_blocked rfl rfl hc']
  | succ n ih =>
    intro cur h0 hc
    have hb : forwardBefore cfg num ⟨cur, [], 0⟩ = .ok (⟨cur, [], 0⟩, []) :=
      forwardBefore_of_lt rfl rfl (by omega)
    have he : forwardEnd cfg num ⟨cur, [], 0⟩ true = (⟨cur + 1, [], 0⟩, []) := by
      rcases hz with hz | hz
      · exact forwardEnd_later rfl rfl (by omega) (by omega)
      · rw [forwardEnd_collecting rfl rfl (by omega) (by omega)]; rfl
    rw [replicate_succ, run, forward_eq hb, he]
    simp [ih (show 0 ≤ cur + 1 by omega) (by omega)]

theorem run_nothing (hh : cfg.expertHeatCollectionInterval = 0) (ha : cfg.algorithmExecutionInterval = 0) :
    ∀ (sts : List Bool) {cur : Int}, 0 ≤ cur → ∃ u, run cfg 0 ⟨cur, [], 0⟩ sts = .ok (u, []) := by
  intro sts
  induction sts with
  | nil => exact fun _ => ⟨_, rfl⟩
  | cons status sts ih =>
    intro cur h0
    obtain ⟨u, hr⟩ := ih (show 0 ≤ cur + 1 by omega)
    refine ⟨u, ?_⟩
    have hb : forwardBefore cfg 0 ⟨cur, [], 0⟩ = .ok (⟨cur, [], 0⟩, []) := by
      have hne : cur ≠ cfg.expertHeatCollectionInterval + cfg.algorithmExecutionInterval - 1 := by omega
      have hf : updateExpertWeightFlag cfg 0 ⟨cur, [], 0⟩ = false := by
        simp only [updateExpertWeightFlag, hh, ha, Bool.and_eq_false_iff, decide_eq_false_iff_not]
        omega
      simp [forwardBefore, takeInfo_of_ne rfl rfl hne, popInfo, hf]
    have he : forwardEnd cfg 0 ⟨cur, [], 0⟩ status = (⟨cur + 1, [], 0⟩, []) :=
      forwardEnd_later rfl rfl (by omega) (by omega)
    rw [run, forward_eq hb, he]
    simp [hr]

theorem forward_indexError (hh : cfg.expertHeatCollectionInterval = 0) (ha : cfg.algorithmExecutionInterval = 0)
    (hp : 0 < num) (status : Bool) :
    forward cfg num {} status = .error (.raised (.indexError "pop from empty list")) := by
  simp [forward, forwardBefore, takeInfo, getUpdateInfoFlag, popInfo, updateExpertWeightFlag, hh, ha, hp]

theorem not_disciplined_of_error
    (h : run cfg num {} sts = .error e) : ¬ Disciplined cfg num sts := by
  rintro ⟨u, es, hr, -⟩
  rw [h] at hr
  cases hr

/-- Cycle after cycle, exactly if both intervals are positive or there is nothing to do. -/
theorem run_disciplined (cfg : EplbConfig) (numMoeLayers : Nat) (hcfg : cfg.validate = .ok ()) :
    (∀ statuses, Disciplined cfg numMoeLayers statuses) ↔
      (1 ≤ cfg.expertHeatCollectionInterval ∧ 1 ≤ cfg.algorithmExecutionInterval) ∨
        (cfg.expertHeatCollectionInterval = 0 ∧ cfg.algorithmExecutionInterval = 0 ∧ numMoeLayers = 0) := by
  obtain ⟨hh, ha⟩ := validate_ok hcfg
  constructor
  · intro hall
    by_contra hnot
    by_cases hzero : cfg.expertHeatCollectionInterval = 0 ∧ cfg.algorithmExecutionInterval = 0
    · apply not_disciplined_of_error ?_ (hall [true])
      · exact .raised (.indexError "pop from empty list")
      · have herr := forward_indexError hzero.1 hzero.2 (show 0 < numMoeLayers by omega) true
        simp [Updator.run, herr]
    · obtain ⟨n, hn⟩ := Int.eq_ofNat_of_zero_le
        (show 0 ≤ cfg.expertHeatCollectionInterval + cfg.algorithmExecutionInterval - 1 by omega)
      exact not_disciplined_of_error (run_idle (by omega) n le_rfl (by omega)) (hall _)
  · rintro (⟨hh, ha⟩ | ⟨hh, ha, rfl⟩)
    · exact disciplined_of_pos hh ha
    · intro statuses
      obtain ⟨u, hrun⟩ := run_nothing hh ha statuses le_rfl
      exact ⟨u, [], hrun, 0, [], nil_prefix, rfl⟩

theorem run_disciplined_default : ({} : EplbConfig).validate = .ok () ∧ ∀ statuses, Disciplined {} 58 statuses :=
  ⟨by decide, (run_disciplined {} 58 (by decide)).mpr (.inl (by decide))⟩

/-- With no time for the algorithm, the first answer is taken before the worker is woken. -/
theorem run_not_disciplined :
    ({ expertHeatCollectionInterval := 1, algorithmExecutionInterval := 0 } : EplbConfig).validate = .ok () ∧
      Updator.run { expertHeatCollectionInterval := 1, algorithmExecutionInterval := 0 } 1 {} [true] = .error .blocked ∧
      ¬ Disciplined { expertHeatCollectionInterval := 1, algorithmExecutionInterval := 0 } 1 [true] :=
  ⟨by decide, by decide, not_disciplined_of_error (e := .blocked) (by decide)⟩

end

end VllmAscend.Eplb
