import Mathlib.Data.List.Nodup
import Mathlib.Data.List.Perm.Subperm
import VllmAscend.Store.PoolScheduler

/-!
# The blocks that a send keeps

The scheduler touches the Mamba blocks of a request that is saved, under an event
of its own, and frees them when all workers have reported the event. The reports
are counters by event, merged in any grouping before the scheduler reads them.
-/

namespace VllmAscend.Store.Sends

open List Python

def aggregate (completedEvents other : List (Nat × Nat)) : List (Nat × Nat) :=
  other.foldl (fun merged (event, count) =>
    dictSet event ((dictGet event merged).elim count (· + count)) merged) completedEvents

/-- The events and blocks of the scheduler, and the blocks it has freed, by event. -/
structure Books where
  sendingEvents : List (Nat × Nat)
  sendingBlocks : List (Nat × List Nat)
  freed : List (Nat × List Nat)

/-- Two neighbouring reports become one. -/
def mergeAt : Nat → List (List (Nat × Nat)) → List (List (Nat × Nat))
  | 0, a :: b :: metas => aggregate a b :: metas
  | i + 1, a :: metas => a :: mergeAt i metas
  | _, metas => metas

def updateEvent (workers : Nat) (b : Books) (item : Nat × Nat) : Books :=
  match dictGet item.1 b.sendingEvents with
  | none => b
  | some total =>
    if workers ≤ total + item.2 then
      { sendingEvents := dictPop item.1 b.sendingEvents
        sendingBlocks := dictPop item.1 b.sendingBlocks
        freed := b.freed ++ [(item.1, (dictGet item.1 b.sendingBlocks).getD [])] }
    else { b with sendingEvents := dictSet item.1 (total + item.2) b.sendingEvents }

def updateConnectorOutput (workers : Nat) (b : Books) (completedEvents : List (Nat × Nat)) : Books :=
  completedEvents.foldl (updateEvent workers) b

/-- `completed` and `reported` have events with workers; each completed one counts 1 in its worker's
`completed_events`. The scheduler has yet to read `metas`. -/
structure State where
  scheduler : PoolScheduler := {}
  completed : List (Nat × Nat) := []
  metas : List (List (Nat × Nat)) := []
  touched : List (Nat × List Nat) := []
  reported : List (Nat × Nat) := []
  freed : List (Nat × List Nat) := []

inductive Act
  | save (req : ReqMeta)
  | complete (event worker : Nat)
  | collect (worker : Nat)
  | merge (i : Nat)
  | update

variable {ws e n id : Nat} {b : Books} {w : State} {touched : List (Nat × List Nat)}

def State.books (w : State) : Books := ⟨w.scheduler.sendingEvents, w.scheduler.sendingBlocks, w.freed⟩

def State.done (w : State) : List (Nat × Nat) := w.completed ++ w.reported

def step (cfg : PoolConfig) (workers : Nat) (w : State) : Act → State
  | .save req =>
    let (scheduler, req) := w.scheduler.touchSendingMambaBlocks cfg { req with eventId := none }
    match req.eventId with
    | none => w
    | some event => { w with
        scheduler
        touched := w.touched ++ [(event, (dictGet event scheduler.sendingBlocks).getD [])] }
  | .complete event worker =>
    -- every worker is handed every event, and handles it once
    if worker < workers ∧ event ∈ w.touched.map Prod.fst ∧ (event, worker) ∉ w.done then
      { w with completed := (event, worker) :: w.completed }
    else w
  | .collect worker =>
    let (completed, rest) := w.completed.partition (·.2 = worker)
    { w with
      completed := rest
      metas := w.metas ++ [completed.map fun p => (p.1, 1)]
      reported := w.reported ++ completed }
  | .merge i => { w with metas := mergeAt i w.metas }
  | .update =>
    let b := w.metas.foldl (updateConnectorOutput workers) w.books
    { w with
      scheduler := { w.scheduler with sendingEvents := b.sendingEvents, sendingBlocks := b.sendingBlocks }
      metas := []
      freed := b.freed }

/-! ## The books of an event -/

def reports (e : Nat) : List (Nat × Nat) → Nat
  | [] => 0
  | item :: d => (if item.1 = e then item.2 else 0) + reports e d

theorem reports_dictSet (event count : Nat) : ∀ d : List (Nat × Nat),
    reports e (dictSet event ((dictGet event d).elim count (· + count)) d) =
      reports e d + if event = e then count else 0
  | [] => by simp [dictSet, dictGet, reports]
  | item :: d => by
    by_cases h : item.1 = event
    · subst h
      simp only [dictSet, dictGet, reports, if_true, find?_cons, decide_true, Option.map_some, Option.elim_some]
      split <;> omega
    · have hd := reports_dictSet event count d
      simp_all [dictSet, dictGet, reports, Nat.add_assoc]

theorem reports_aggregate (e : Nat) : ∀ other d : List (Nat × Nat),
    reports e (aggregate d other) = reports e d + reports e other
  | [], _ => rfl
  | item :: other, d => by
    have hr := reports_aggregate e other (dictSet item.1 ((dictGet item.1 d).elim item.2 (· + item.2)) d)
    rw [reports_dictSet, Nat.add_assoc] at hr
    exact hr

theorem reports_completed (e : Nat) : ∀ part : List (Nat × Nat),
    reports e (part.map fun p => (p.1, 1)) = part.countP (·.1 = e)
  | [] => rfl
  | p :: part => by simp [reports, reports_completed e part, countP_cons, Nat.add_comm]

/-- However they are grouped. -/
theorem sum_reports_mergeAt (e i : Nat) (metas : List (List (Nat × Nat))) :
    ((mergeAt i metas).map (reports e)).sum = (metas.map (reports e)).sum := by
  fun_induction mergeAt i metas with
  | case1 a b metas => simp [reports_aggregate, Nat.add_assoc]
  | case2 i a metas ih => simp [ih]
  | case3 => rfl

def Booked (workers id : Nat) (touched : List (Nat × List Nat)) (e n : Nat) (b : Books) : Prop :=
  if e < id ∧ n < workers then dictGet e b.sendingEvents = some n ∧ b.freed.filter (·.1 = e) = [] ∧
    touched.filter (·.1 = e) = [(e, (dictGet e b.sendingBlocks).getD [])]
  else dictGet e b.sendingEvents = none ∧ b.freed.filter (·.1 = e) = touched.filter (·.1 = e)

theorem Booked.updateEvent (item : Nat × Nat) (h : Booked ws id touched e n b) :
    Booked ws id touched e (n + if item.1 = e then item.2 else 0) (updateEvent ws b item) := by
  unfold Booked at h ⊢
  unfold Sends.updateEvent
  by_cases he : item.1 = e
  · subst he
    rw [if_pos rfl]
    split at h
    · next ho =>
      obtain ⟨hn, hf, ht⟩ := h
      rw [hn, ht]
      rcases Nat.lt_or_ge (n + item.2) ws with hw | hw
      · simpa [Nat.not_le.mpr hw, hw, ho.1, dictGet_dictSet] using hf
      · simp [hw, Nat.not_lt.mpr hw, dictGet_dictPop, hf]
    · rw [h.1, if_neg (by omega)]
      exact h
  · cases dictGet item.1 b.sendingEvents with
    | none => simpa [he] using h
    | some total =>
      by_cases hw : ws ≤ total + item.2 <;> simpa [he, hw, dictGet_dictPop, dictGet_dictSet] using h

theorem Booked.updateConnectorOutput : ∀ {d : List (Nat × Nat)} {n b}, Booked ws id touched e n b →
    Booked ws id touched e (n + reports e d) (updateConnectorOutput ws b d)
  | [], _, _, h => h
  | item :: _, _, _, h => Nat.add_assoc .. ▸ (h.updateEvent item).updateConnectorOutput

theorem Booked.foldl : ∀ {metas : List (List (Nat × Nat))} {n b}, Booked ws id touched e n b →
    Booked ws id touched e (n + (metas.map (reports e)).sum) (metas.foldl (Sends.updateConnectorOutput ws) b)
  | [], _, _, h => h
  | _ :: _, _, _, h => by simpa [Nat.add_assoc] using h.updateConnectorOutput.foldl

/-! ## Runs -/

structure Inv (workers : Nat) (w : State) : Prop where
  touched : w.touched.map Prod.fst = range w.scheduler.sendingEventId
  nodup : w.done.Nodup
  done : ∀ p ∈ w.done, p.1 < w.scheduler.sendingEventId ∧ p.2 < workers
  booked : ∀ e, ∃ n, n + (w.metas.map (reports e)).sum = w.reported.countP (·.1 = e) ∧
    Booked workers w.scheduler.sendingEventId w.touched e n w.books

theorem Inv.filter_touched (h : Inv ws w) (he : w.scheduler.sendingEventId ≤ e) :
    w.touched.filter (·.1 = e) = [] := filter_eq_nil_iff.mpr fun p hp => by
  have := mem_range.mp (h.touched ▸ mem_map_of_mem hp)
  simp only [decide_eq_true_eq]
  omega

theorem Inv.saved (h : Inv ws w) (hw : 0 < ws) (bs : List Nat) : Inv ws { w with
    scheduler := { w.scheduler with
      sendingEventId := w.scheduler.sendingEventId + 1
      sendingEvents := dictSet w.scheduler.sendingEventId 0 w.scheduler.sendingEvents
      sendingBlocks := dictSet w.scheduler.sendingEventId bs w.scheduler.sendingBlocks }
    touched := w.touched ++ [(w.scheduler.sendingEventId, bs)] } where
  touched := by simp [h.touched, range_succ]
  nodup := h.nodup
  done p hp := (h.done p hp).imp_left Nat.lt_succ_of_lt
  booked e := by
    obtain ⟨n, hn, hb⟩ := h.booked e
    refine ⟨n, hn, ?_⟩
    simp only [Booked, State.books, dictGet_dictSet, filter_append] at hb ⊢
    by_cases he : w.scheduler.sendingEventId = e
    · subst he
      have hr : w.reported.countP (·.1 = w.scheduler.sendingEventId) = 0 := countP_eq_zero.mpr fun p hp => by
        simpa using (h.done p (mem_append_right _ hp)).1.ne
      obtain rfl : n = 0 := by omega
      rw [h.filter_touched (Nat.le_refl _)] at hb ⊢
      rw [if_neg (by omega)] at hb
      simpa [hw] using hb.2
    · have hlt : e < w.scheduler.sendingEventId + 1 ↔ e < w.scheduler.sendingEventId := by omega
      simpa [he, hlt] using hb

theorem Inv.step (cfg : PoolConfig) (hw : 0 < ws) (h : Inv ws w) : ∀ act, Inv ws (step cfg ws w act)
  | .save req => by
    by_cases hc : ¬ cfg.useHybrid ∨ cfg.mambaGroupIds = [] ∨ ¬ req.canSave
    · simpa only [Sends.step, PoolScheduler.touchSendingMambaBlocks, if_pos hc] using h
    · simpa only [Sends.step, PoolScheduler.touchSendingMambaBlocks, if_neg hc, dictGet_dictSet, if_true,
        Option.getD_some] using h.saved hw _
  | .complete event worker => by
    simp only [Sends.step, h.touched, mem_range]
    split
    · next hc =>
      refine ⟨h.touched, nodup_cons.mpr ⟨hc.2.2, h.nodup⟩, ?_, h.booked⟩
      exact forall_mem_cons.mpr ⟨⟨hc.2.1, hc.1⟩, h.done⟩
    · exact h
  | .collect worker => by
    have hp : (Sends.step cfg ws w (.collect worker)).done.Perm w.done := perm_iff_count.mpr fun p => by
      have := (filter_append_perm (·.2 = worker) w.completed).count_eq p
      simp only [Sends.step, State.done, partition_eq_filter_filter, count_append, Function.comp_def] at this ⊢
      omega
    refine ⟨h.touched, hp.nodup_iff.mpr h.nodup, fun p hm => h.done p (hp.mem_iff.mp hm), fun e => ?_⟩
    obtain ⟨n, hn, hb⟩ := h.booked e
    refine ⟨n, ?_, hb⟩
    simp only [Sends.step, map_append, sum_append, map_singleton, sum_singleton, reports_completed, countP_append]
    omega
  | .merge i => by
    refine ⟨h.touched, h.nodup, h.done, fun e => ?_⟩
    obtain ⟨n, hn, hb⟩ := h.booked e
    exact ⟨n, (congrArg (n + ·) (sum_reports_mergeAt e i w.metas)).trans hn, hb⟩
  | .update => by
    refine ⟨h.touched, h.nodup, h.done, fun e => ?_⟩
    obtain ⟨n, hn, hb⟩ := h.booked e
    exact ⟨_, hn, hb.foldl⟩

theorem Inv.run (cfg : PoolConfig) (hw : 0 < ws) : ∀ (acts : List Act) {w : State}, Inv ws w →
    Inv ws (acts.foldl (Sends.step cfg ws) w)
  | [], _, h => h
  | act :: acts, _, h => (h.step cfg hw act).run cfg hw acts

theorem Inv.reported_iff (h : Inv ws w) :
    (∀ i < ws, (e, i) ∈ w.reported) ↔ ws ≤ w.reported.countP (·.1 = e) := by
  have hn : (w.reported.filter (·.1 = e)).Nodup := (h.nodup.sublist (sublist_append_right _ _)).filter _
  have hr : ((range ws).map (Prod.mk e)).Nodup := Nodup.map (Prod.mk_right_injective e) nodup_range
  have hs : w.reported.filter (·.1 = e) <+~ (range ws).map (Prod.mk e) := hn.subperm fun p hp => by
    have := (h.done p (mem_append_right _ (mem_filter.mp hp).1)).2
    simp_all [Prod.ext_iff]
  rw [countP_eq_length_filter]
  constructor
  · intro ha
    have hsub : (range ws).map (Prod.mk e) ⊆ w.reported.filter (·.1 = e) := fun p hp => by
      obtain ⟨i, hi, rfl⟩ := mem_map.mp hp
      exact mem_filter.mpr ⟨ha i (mem_range.mp hi), by simp⟩
    simpa using (hr.subperm hsub).length_le
  · intro hle i hi
    have hp := hs.perm_of_length_le (by simpa using hle)
    exact (mem_filter.mp (hp.symm.subset (mem_map_of_mem (mem_range.mpr hi)))).1

theorem Inv.freed (h : Inv ws w) (hm : w.metas = []) :
    w.freed.Perm (w.touched.filter fun p => ∀ i < ws, (p.1, i) ∈ w.reported) := perm_iff_count.mpr fun p => by
  obtain ⟨n, hn, hb⟩ := h.booked p.1
  have hc (l : List (Nat × List Nat)) : (l.filter (·.1 = p.1)).count p = l.count p := count_filter (by simp)
  have hiff := h.reported_iff (e := p.1)
  rw [← hn, hm, map_nil, sum_nil, Nat.add_zero] at hiff
  unfold Booked at hb
  by_cases ha : ∀ i < ws, (p.1, i) ∈ w.reported
  · rw [if_neg (by have := hiff.mp ha; omega)] at hb
    rw [count_filter (by simpa using ha), ← hc w.freed, ← hc w.touched]
    exact congrArg (count p) hb.2
  · refine Eq.trans ?_ (count_eq_zero.mpr fun hp => ha (by simpa using (mem_filter.mp hp).2)).symm
    rw [← hc]
    split at hb
    · exact congrArg (count p) hb.2.1
    · have hlt := mt hiff.mpr ha
      exact congrArg (count p) (hb.2.trans (h.filter_touched (by omega)))

theorem sends_freed_once (cfg : PoolConfig) (others : Nat) (acts : List Act) :
    let w := step cfg (others + 1) (acts.foldl (step cfg (others + 1)) {}) .update
    (w.touched.map Prod.fst).Nodup ∧
      w.freed.Perm (w.touched.filter fun p => ∀ i < others + 1, (p.1, i) ∈ w.reported) := by
  have h0 : Inv (others + 1) {} := ⟨rfl, .nil, nofun, fun e => ⟨0, rfl, by simp [Booked, State.books, dictGet]⟩⟩
  have h := (h0.run cfg (Nat.succ_pos _) acts).step cfg (Nat.succ_pos _) .update
  exact ⟨h.touched ▸ nodup_range, h.freed rfl⟩

end VllmAscend.Store.Sends
