import VllmAscend.Mooncake.DispatchPeers
import VllmAscend.Lib.Run

/-!
# The dispatch of transfer tasks

The count of a request is the number of its tasks between the two marks, so the
mark that brings it to zero after the last task has been submitted comes once,
and it comes after every transfer of the request.
-/

namespace VllmAscend.Mooncake

open Python RecvingThread Handler Submitter List

namespace RecvingThread

variable {s : RecvingThread} {p : PeerKey} {h : Handler} {t : Task}

/-! ## Requests -/

section
variable {r : RequestId}

def tasksOf (r : RequestId) (l : List Task) : Nat := l.countP fun t => t.requestId = r

theorem tasksOf_append : tasksOf r (l ++ l') = tasksOf r l + tasksOf r l' := countP_append

theorem tasksOf_nil : tasksOf r [] = 0 := rfl

theorem tasksOf_singleton : tasksOf r [t] = if t.requestId = r then 1 else 0 := by simp [tasksOf, countP_singleton]

def pending (s : RecvingThread) (r : RequestId) : Nat :=
  tasksOf r s.submitter.tasks + tasksOf r (s.peerRequestQueues.flatMap Prod.snd) +
    tasksOf r (s.handlers.flatMap Handler.unmarked)

def closed (s : RecvingThread) (r : RequestId) : Bool :=
  s.taken.any fun t => t.requestId = r && t.allTaskDone

def ends (s : RecvingThread) (r : RequestId) : Nat :=
  tasksOf r (s.handlers.flatMap Handler.ending) + s.taskTracker.finishedRequests.count r + s.reported.count r

def LastIsLast (tasks : List Task) : Prop :=
  tasks.Pairwise fun t t' => t.requestId = t'.requestId → t.allTaskDone = false

structure RequestInv (s : RecvingThread) : Prop where
  nodup : (s.peerRequestQueues.map Prod.fst).Nodup
  counts : ∀ r, dictGet r s.requestTaskCounts = if s.pending r = 0 then none else some (s.pending r)
  markers : ∀ r, r ∈ s.finishedRequestMarkers ↔ s.closed r = true ∧ 0 < s.pending r
  ended : ∀ r, s.ends r = if s.closed r = true ∧ s.pending r = 0 then 1 else 0
  undelayed : s.taskTracker.delayedFreeRequests = []
  waited : ∀ t ∈ s.taken ++ s.requestQueue, s.taskTracker.finishedRequests.count t.requestId +
    s.reported.count t.requestId = 0 → t.requestId ∈ s.taskTracker.reqsToProcess
  order : LastIsLast (s.taken ++ s.requestQueue)

variable {next : Option Handler} {handled i : Nat} {es : List Event}

theorem tasksOf_flatMap_split :
    tasksOf r ((l1 ++ h :: l2).flatMap f) = tasksOf r ((l1 ++ l2).flatMap f) + tasksOf r (f h) := by
  simp only [flatMap_append, flatMap_cons, tasksOf_append]
  omega

theorem tasksOf_flatMap_next : tasksOf r ((l1 ++ l2 ++ next.toList).flatMap f) =
      tasksOf r ((l1 ++ l2).flatMap f) + tasksOf r (next.toList.flatMap f) := by
  rw [flatMap_append, tasksOf_append]

section
variable (hinv : RequestInv s)
include hinv

theorem RequestInv.congr (hn : (queues.map Prod.fst).Nodup)
    (hpe : ∀ r, s.pending r =
      tasksOf r sub.tasks + tasksOf r (queues.flatMap Prod.snd) + tasksOf r (hands.flatMap unmarked))
    (hend : ∀ r, tasksOf r (s.handlers.flatMap ending) = tasksOf r (hands.flatMap ending)) :
    RequestInv { s with
      submitter := sub, handlers := hands, peerRequestQueues := queues, activePeerRequestHandlers := active
      failedRecvRequests := failed, invalidBlockIds := invalid, handled := done } := by
  refine ⟨hn, fun r => ?_, fun r => ?_, fun r => ?_, hinv.undelayed, hinv.waited, hinv.order⟩
  · have hr := hinv.counts r
    rwa [hpe] at hr
  · have hr := hinv.markers r
    rwa [hpe] at hr
  · have hr := hinv.ended r
    rwa [ends, hend, hpe] at hr

theorem RequestInv.moved (hs : s.handlers = l1 ++ h :: l2) (hn : (queues.map Prod.fst).Nodup)
    (hpe : ∀ r, tasksOf r (queues.flatMap Prod.snd) + tasksOf r (next.toList.flatMap unmarked) =
      tasksOf r (s.peerRequestQueues.flatMap Prod.snd) + tasksOf r h.unmarked)
    (hend : next.toList.flatMap ending = h.ending) : RequestInv { s with
      handlers := l1 ++ l2 ++ next.toList, peerRequestQueues := queues, activePeerRequestHandlers := active
      failedRecvRequests := failed, invalidBlockIds := invalid, handled := done } := by
  refine hinv.congr hn (fun r => ?_) fun r => ?_
  · have hr := hpe r
    rw [pending, hs, tasksOf_flatMap_split, tasksOf_flatMap_next]
    omega
  · rw [hs, tasksOf_flatMap_split, tasksOf_flatMap_next, hend]

/-! ### The marks -/

theorem RequestInv.marked {cts : List (RequestId × Nat)} {markers : Finset RequestId} (next : Handler)
    (hs : s.handlers = l1 ++ .marking p handled t :: l2) (hun : next.unmarked = []) (hpos : 0 < s.pending t.requestId)
    (hco : dictGet t.requestId cts =
      if s.pending t.requestId = 1 then none else some (s.pending t.requestId - 1))
    (hm : t.requestId ∈ markers ↔ t.requestId ∈ s.finishedRequestMarkers ∧ s.pending t.requestId ≠ 1)
    (hot : ∀ r, t.requestId ≠ r → dictGet r cts = dictGet r s.requestTaskCounts ∧
      (r ∈ markers ↔ r ∈ s.finishedRequestMarkers))
    (hend : next.ending = if t.requestId ∈ s.finishedRequestMarkers ∧ s.pending t.requestId = 1 then [t] else [])
    (hs' : s' = { s with
      requestTaskCounts := cts, finishedRequestMarkers := markers, handlers := l1 ++ l2 ++ [next] }) :
    RequestInv s' := by
  have hpe : ∀ r, s'.pending r = s.pending r - if t.requestId = r then 1 else 0 := fun r => by
    simp only [pending, hs, hs', flatMap_append, flatMap_cons, flatMap_nil, hun, tasksOf_append, tasksOf_nil]
    rw [unmarked, tasksOf_singleton]
    omega
  have hen : ∀ r, s'.ends r = s.ends r + tasksOf r next.ending := fun r => by
    simp only [ends, hs, hs', flatMap_append, flatMap_cons, flatMap_nil, ending, tasksOf_append, tasksOf_nil]
    omega
  have hcl : ∀ r, s'.closed r = s.closed r := fun r => by rw [hs']; rfl
  subst hs'
  refine ⟨hinv.nodup, fun r => ?_, fun r => ?_, fun r => ?_, hinv.undelayed, hinv.waited, hinv.order⟩
  · by_cases hr : t.requestId = r
    · subst hr
      rw [hpe, if_pos rfl]
      refine hco.trans ?_
      by_cases hone : s.pending t.requestId = 1
      · rw [if_pos hone, if_pos (by omega)]
      · rw [if_neg hone, if_neg (by omega)]
    · rw [hpe, if_neg hr, Nat.sub_zero]
      exact (hot r hr).1.trans (hinv.counts r)
  · by_cases hr : t.requestId = r
    · subst hr
      rw [hpe, hcl, if_pos rfl]
      refine hm.trans ?_
      rw [hinv.markers]
      constructor
      · rintro ⟨⟨hc, -⟩, hne⟩
        exact ⟨hc, by omega⟩
      · rintro ⟨hc, hlt⟩
        exact ⟨⟨hc, hpos⟩, by omega⟩
    · rw [hpe, hcl, if_neg hr, Nat.sub_zero]
      exact (hot r hr).2.trans (hinv.markers r)
  · rw [hen, hinv.ended, hpe, hcl, hend]
    by_cases hr : t.requestId = r
    · subst hr
      rw [if_pos rfl, if_neg (fun h => by omega)]
      simp only [hinv.markers]
      by_cases hlast : s.closed t.requestId = true ∧ s.pending t.requestId = 1
      · rw [if_pos ⟨⟨hlast.1, hpos⟩, hlast.2⟩, if_pos ⟨hlast.1, by omega⟩, tasksOf_singleton, if_pos rfl]
      · rw [if_neg (fun h => hlast ⟨h.1.1, h.2⟩), if_neg (fun h => hlast ⟨h.1, by omega⟩)]
        rfl
    · rw [if_neg hr, Nat.sub_zero, apply_ite (tasksOf r), tasksOf_singleton, if_neg hr, tasksOf_nil, ite_self,
        Nat.add_zero]

theorem RequestInv.marking (ok : Bool) (hs : s.handlers = l1 ++ .marking p handled t :: l2) :
    RequestInv { (s.advance ok (.marking p handled t)).1 with
      handlers := l1 ++ l2 ++ (s.advance ok (.marking p handled t)).2.toList } := by
  have hpos : 0 < s.pending t.requestId := by
    rw [pending, hs, tasksOf_flatMap_split, unmarked, tasksOf_singleton, if_pos rfl]
    omega
  have hget : dictGet t.requestId s.requestTaskCounts = some (s.pending t.requestId) := by
    rw [hinv.counts, if_neg (by omega)]
  simp only [advance, markRequestTaskDone, hget]
  by_cases hmo : s.pending t.requestId - 1 > 0
  · rw [if_pos hmo]
    refine hinv.marked (.looping p handled) hs rfl hpos ?_ ?_ (fun r hr => ⟨?_, Iff.rfl⟩) ?_ rfl
    · rw [dictGet_dictSet, if_pos rfl, if_neg (by omega)]
    · exact ⟨fun h => ⟨h, by omega⟩, fun h => h.1⟩
    · rw [dictGet_dictSet, if_neg hr]
    · rw [if_neg (fun h => by omega)]
      rfl
  · have hone : s.pending t.requestId = 1 := by omega
    simp only [if_neg hmo, decide_eq_true_eq]
    refine hinv.marked _ hs ?_ hpos ?_ ?_ (fun r hr => ⟨?_, ?_⟩) ?_ rfl
    · split <;> rfl
    · rw [dictGet_dictPop, if_pos rfl, if_pos hone]
    · exact ⟨fun h => absurd h (Finset.notMem_erase _ _), fun h => absurd hone h.2⟩
    · rw [dictGet_dictPop, if_neg hr]
    · simp [Ne.symm hr]
    · by_cases hmem : t.requestId ∈ s.finishedRequestMarkers
      · rw [if_pos hmem, if_pos ⟨hmem, hone⟩]
        rfl
      · rw [if_neg hmem, if_neg (fun h => hmem h.1)]
        rfl

theorem RequestInv.waits (hr : 0 < tasksOf r (s.handlers.flatMap ending)) :
    r ∈ s.taskTracker.reqsToProcess ∧ r ∉ s.taskTracker.finishedRequests ∧ s.reported.count r = 0 := by
  have he := hinv.ended r
  rw [ends] at he
  split at he
  · next hl =>
    obtain ⟨t, ht, hc⟩ := any_eq_true.mp hl.1
    rw [Bool.and_eq_true, decide_eq_true_eq] at hc
    have hf : s.taskTracker.finishedRequests.count r = 0 := by omega
    have hre : s.reported.count r = 0 := by omega
    refine ⟨?_, count_eq_zero.mp hf, hre⟩
    rw [← hc.1] at hf hre ⊢
    exact hinv.waited t (mem_append_left _ ht) (by omega)
  · omega

theorem RequestInv.finishing (hs : s.handlers = l1 ++ .finishing p handled t :: l2)
    (hs' : s' = { s with
      taskTracker := s.taskTracker.updateDoneTaskCount t.requestId, failedRecvRequests := failed
      handlers := l1 ++ l2 ++ [.looping p handled] }) : RequestInv s' := by
  obtain ⟨hwa, hfr, -⟩ := hinv.waits (r := t.requestId) (by
    rw [hs, tasksOf_flatMap_split, ending, tasksOf_singleton, if_pos rfl]
    omega)
  rw [TaskTracker.updateDoneTaskCount, if_pos hwa, hinv.undelayed, insert_of_not_mem hfr] at hs'
  have hpe : ∀ r, s'.pending r = s.pending r := fun r => by
    simp [pending, hs, hs', tasksOf_append, unmarked]
  have hcl : ∀ r, s'.closed r = s.closed r := fun r => by rw [hs']; rfl
  have hen : ∀ r, s'.ends r = s.ends r := fun r => by
    simp only [ends, hs, hs', flatMap_append, flatMap_cons, flatMap_nil, ending, tasksOf_append, tasksOf_singleton,
      tasksOf_nil, count_cons, beq_iff_eq]
    omega
  subst hs'
  refine ⟨hinv.nodup, fun r => ?_, fun r => ?_, fun r => ?_, rfl, fun t' ht' hzero => ?_, hinv.order⟩
  · rw [hpe]
    exact hinv.counts r
  · rw [hpe, hcl]
    exact hinv.markers r
  · rw [hpe, hcl, hen, hinv.ended]
  · simp only [count_cons] at hzero
    by_cases hr : t.requestId = t'.requestId
    · simp [hr] at hzero
    · exact Finset.mem_erase.mpr ⟨Ne.symm hr, hinv.waited t' ht' (by omega)⟩

theorem RequestInv.handle : RequestInv (s.handle i ok) := by
  unfold RecvingThread.handle
  split
  · exact hinv
  rename_i h hget
  obtain ⟨l1, l2, hs, hea⟩ := split_of_getElem? hget
  rw [hea]
  cases h with
  | scheduled | resubmitting => exact hinv.moved hs hinv.nodup (fun _ => rfl) rfl
  | finishing p handled t => exact hinv.finishing hs rfl
  | marking p handled t => exact hinv.marking ok hs
  | transferring p handled t =>
    simp only [advance, transfer]
    split
    · exact hinv.moved hs hinv.nodup (fun _ => rfl) rfl
    · split <;> exact hinv.moved hs hinv.nodup (fun _ => rfl) rfl
  | looping p handled =>
    cases hq : listAt p s.peerRequestQueues with
    | nil =>
      rw [advance_looping_nil hq]
      refine hinv.moved hs ?_ (fun r => ?_) rfl
      · exact nodup_dictPop hinv.nodup
      · have hpop := @countP_dictPop _ _ _ p (fun t : Task => t.requestId = r) _ hinv.nodup
        rw [hq] at hpop
        exact hpop
    | cons t rest =>
      by_cases hlt : handled < maxRequestsPerPeerHandler
      · rw [advance_looping_lt hq hlt]
        refine hinv.moved hs ?_ (fun r => ?_) rfl
        · exact nodup_dictSet hinv.nodup
        · have hset := @countP_dictSet _ _ _ p (fun t : Task => t.requestId = r) rest s.peerRequestQueues
          rw [hq, show t :: rest = [t] ++ rest from rfl, countP_append] at hset
          simp only [tasksOf, Option.toList_some, flatMap_cons, flatMap_nil, append_nil, unmarked, countP_nil]
          omega
      · rw [advance_looping_ge hq hlt]
        exact hinv.moved hs hinv.nodup (fun _ => rfl) rfl

end

/-! ### Submitting -/

theorem not_closed_of_order (ho : LastIsLast (s.taken ++ t :: rest)) : s.closed t.requestId = false := by
  rw [closed, any_eq_false]
  intro t' ht'
  have hr := (pairwise_append.mp ho).2.2 t' ht' t mem_cons_self
  rw [Bool.and_eq_true, decide_eq_true_eq, not_and, Bool.not_eq_true]
  exact hr

theorem RequestInv.take (hinv : RequestInv s) (hidle : s.submitter = .idle)
    (hq : s.requestQueue = t :: rest) (hs' : s' = { s.markRequestTaskSubmitted t with
      requestQueue := rest, submitter := .marked t, taken := s.taken ++ [t] }) : RequestInv s' := by
  have hor := hinv.order
  rw [hq] at hor
  have hop := not_closed_of_order hor
  have hpe : ∀ r, s'.pending r = s.pending r + if t.requestId = r then 1 else 0 := fun r => by
    simp only [pending, hs', hidle, tasks, tasksOf_singleton, tasksOf_nil, markRequestTaskSubmitted]
    omega
  have hcl : ∀ r, s'.closed r = (s.closed r || (decide (t.requestId = r) && t.allTaskDone)) := fun r => by
    simp [closed, hs', any_append]
  have hmem : ∀ t', t' ∈ s.taken ++ [t] ++ rest ↔ t' ∈ s.taken ++ s.requestQueue := fun t' => by
    rw [hq, append_assoc]
    rfl
  subst hs'
  refine ⟨hinv.nodup, fun r => ?_, fun r => ?_, fun r => ?_, hinv.undelayed, fun t' ht' => ?_, ?_⟩
  · rw [hpe, markRequestTaskSubmitted]
    simp only [dictGet_dictSet]
    by_cases hr : t.requestId = r
    · subst hr
      rw [if_pos rfl, if_pos rfl, if_neg (by omega), hinv.counts]
      by_cases hzero : s.pending t.requestId = 0
      · rw [if_pos hzero, hzero]
        rfl
      · rw [if_neg hzero]
        rfl
    · rw [if_neg hr, if_neg hr, Nat.add_zero]
      exact hinv.counts r
  · rw [hpe, hcl]
    by_cases hr : t.requestId = r
    · subst hr
      have hnot : t.requestId ∉ s.finishedRequestMarkers := fun h => by
        rw [hinv.markers, hop] at h
        cases h.1
      rw [hop, if_pos rfl]
      cases hlast : t.allTaskDone with
      | true => simp [markRequestTaskSubmitted, hlast]
      | false => simp [markRequestTaskSubmitted, hlast, hnot]
    · have hm : r ∈ (s.markRequestTaskSubmitted t).finishedRequestMarkers ↔ r ∈ s.finishedRequestMarkers := by
        simp only [markRequestTaskSubmitted]
        split
        · simp [Ne.symm hr]
        · exact Iff.rfl
      simp only [hr, decide_false, Bool.false_and, Bool.or_false, if_false, Nat.add_zero]
      exact hm.trans (hinv.markers r)
  · rw [hpe, hcl]
    refine (hinv.ended r).trans ?_
    by_cases hr : t.requestId = r
    · subst hr
      rw [if_neg (fun h => by rw [hop] at h; cases h.1), if_pos rfl, if_neg (fun h => by omega)]
    · simp only [hr, decide_false, Bool.false_and, Bool.or_false, if_false, Nat.add_zero]
  · exact hinv.waited t' ((hmem t').mp ht')
  · have heq : s.taken ++ [t] ++ rest = s.taken ++ t :: rest := by simp
    exact heq.symm ▸ hor

theorem RequestInv.submit (hinv : RequestInv s) : RequestInv s.submit := by
  unfold RecvingThread.submit
  cases hs : s.submitter with
  | idle =>
    cases hq : s.requestQueue with
    | nil => exact hinv
    | cons t rest => exact hinv.take hs hq rfl
  | marked t =>
    have hp : ∀ r, tasksOf r (tasks .idle) + tasksOf r ((dictAppend t.peer t s.peerRequestQueues).flatMap Prod.snd) =
        tasksOf r s.submitter.tasks + tasksOf r (s.peerRequestQueues.flatMap Prod.snd) := fun r => by
      have hset := @countP_dictSet _ _ _ t.peer (fun t : Task => t.requestId = r)
        (listAt t.peer s.peerRequestQueues ++ [t]) s.peerRequestQueues
      rw [countP_append] at hset
      simp only [tasksOf, dictAppend, hs, tasks, countP_nil]
      omega
    simp only
    split
    · refine hinv.congr (nodup_dictSet hinv.nodup) (fun r => ?_) fun _ => rfl
      have hr := hp r
      simp only [pending]
      omega
    · refine hinv.congr (nodup_dictSet hinv.nodup) (fun r => ?_) fun _ => rfl
      have hr := hp r
      have hnone : tasksOf r (Submitter.starting t.peer).tasks = tasksOf r (tasks .idle) := rfl
      simp only [pending, hnone]
      omega
  | starting p =>
    refine hinv.congr hinv.nodup (fun r => ?_) fun r => ?_
    · have hnone : tasksOf r s.submitter.tasks = tasksOf r (tasks .idle) := by rw [hs]; rfl
      simp [pending, hnone, flatMap_append, unmarked]
    · simp [flatMap_append, ending]

/-! ### Whole runs -/

/-- `start_load_kv`: a request is registered before its first task, and nothing follows its last task. -/
def Allowed (s : RecvingThread) : Event → Prop
  | .addRequest t =>
    (∀ t' ∈ s.taken ++ s.requestQueue, t'.requestId = t.requestId → t'.allTaskDone = false) ∧
    ((∀ t' ∈ s.taken ++ s.requestQueue, t'.requestId ≠ t.requestId) → t.requestId ∈ s.taskTracker.reqsToProcess)
  | _ => True

theorem RequestInv.addRequest (hinv : RequestInv s) (hall : s.Allowed (.addRequest t)) :
    RequestInv (s.step (.addRequest t)) := by
  obtain ⟨hop, hfi⟩ := hall
  refine ⟨hinv.nodup, hinv.counts, hinv.markers, hinv.ended, hinv.undelayed, fun t' ht' hzero => ?_, ?_⟩
  · have hmem : t' ∈ s.taken ++ s.requestQueue ∨ t' = t := by simpa [step, or_assoc] using ht'
    rcases hmem with hmem | rfl
    · exact hinv.waited t' hmem hzero
    -- Either an earlier task of the request is waited for, or this is its first one.
    by_cases hnew : ∀ t'' ∈ s.taken ++ s.requestQueue, t''.requestId ≠ t'.requestId
    · exact hfi hnew
    push Not at hnew
    obtain ⟨t'', ht'', heq⟩ := hnew
    rw [← heq] at hzero ⊢
    exact hinv.waited t'' ht'' hzero
  · have hass : s.taken ++ (s.requestQueue ++ [t]) = s.taken ++ s.requestQueue ++ [t] := by simp
    rw [step, LastIsLast, hass, pairwise_append]
    refine ⟨hinv.order, pairwise_singleton _ _, fun t' ht' t'' ht'' => ?_⟩
    rw [mem_singleton.mp ht'']
    exact hop t' ht'

theorem RequestInv.step (e : Event) (hinv : RequestInv s) (hall : s.Allowed e) : RequestInv (s.step e) := by
  cases e with
  | addReqToProcess r =>
    refine ⟨hinv.nodup, hinv.counts, hinv.markers, hinv.ended, hinv.undelayed, fun t ht hzero => ?_, hinv.order⟩
    exact Finset.mem_insert_of_mem (hinv.waited t ht hzero)
  | addRequest t => exact hinv.addRequest hall
  | submit => exact hinv.submit
  | handle i ok => exact hinv.handle
  | getFinished tmo now =>
    have hem : TaskTracker.expired tmo now s.taskTracker.delayedFreeRequests = [] := by
      rw [hinv.undelayed]
      rfl
    have hcn : ∀ r, ([] : List RequestId).count r + (s.reported ++ ([] ∪ s.taskTracker.finishedRequests)).count r =
        s.taskTracker.finishedRequests.count r + s.reported.count r := fun r => by
      rw [nil_union, count_append, count_nil]
      omega
    simp only [RecvingThread.step, TaskTracker.getAndClearFinishedRequests, hem]
    refine ⟨hinv.nodup, hinv.counts, hinv.markers, fun r => ?_, ?_, fun t ht hzero => ?_, hinv.order⟩
    · have hsum := hcn r
      have hend := hinv.ended r
      simp only [ends] at hend ⊢
      exact Eq.trans (by omega) hend
    · simp [hinv.undelayed]
    · simp only [toFinset_nil, Finset.sdiff_empty]
      exact hinv.waited t ht ((hcn t.requestId).symm.trans hzero)

theorem requestInv_start : RequestInv {} where
  nodup := nodup_nil
  counts _ := rfl
  markers r := by simp [closed]
  ended _ := rfl
  undelayed := rfl
  waited t ht := by cases ht
  order := List.Pairwise.nil

theorem requestInv_run (h : Run.Guarded step Allowed {} es) : RequestInv (es.foldl step {}) :=
  Run.Guarded.inv (fun _ e hinv ha => hinv.step e ha) requestInv_start h

def Event.put : Event → Option Task
  | .addRequest t => some t
  | _ => none

theorem queued_submit : s.submit.taken ++ s.submit.requestQueue = s.taken ++ s.requestQueue := by
  unfold submit
  cases s.submitter with
  | idle =>
    cases hq : s.requestQueue with
    | nil => rw [hq]
    | cons t rest => simp
  | marked t =>
    simp only
    split <;> rfl
  | starting p => rfl

theorem queued_handle : (s.handle i ok).taken = s.taken ∧ (s.handle i ok).requestQueue = s.requestQueue := by
  unfold handle
  split
  · exact ⟨rfl, rfl⟩
  · exact ⟨(advance_submission ..).1, (advance_submission ..).2.1⟩

theorem queued_run : (es.foldl step s).taken ++
    (es.foldl step s).requestQueue = s.taken ++ s.requestQueue ++ es.filterMap Event.put := by
  induction es generalizing s with
  | nil => simp
  | cons e es ih =>
    rw [foldl_cons, ih]
    cases e with
    | addRequest t => simp [step, Event.put]
    | submit => rw [step, queued_submit]; rfl
    | handle i ok => rw [step, queued_handle.1, queued_handle.2]; rfl
    | _ => rfl

/-! ### Progress -/

def Quiet (s : RecvingThread) : Prop := s.requestQueue = [] ∧ s.submitter = .idle ∧ s.handlers = []

instance : Decidable s.Quiet := inferInstanceAs (Decidable (_ ∧ _ ∧ _))

def Enabled (s : RecvingThread) : Event → Prop
  | .submit => s.requestQueue ≠ [] ∨ s.submitter ≠ .idle
  | .handle i _ => i < s.handlers.length
  | _ => False

def weight (s : RecvingThread) : Nat :=
  12 * s.requestQueue.length + s.submitter.weight +
    7 * (s.peerRequestQueues.flatMap Prod.snd).countP (fun _ => true) + (s.handlers.map Handler.weight).sum

theorem looping_weight_le : Handler.weight (.looping p handled) ≤ 4 := by
  rw [Handler.weight]
  split <;> omega

theorem submit_lt (h : s.Enabled .submit) : s.submit.weight < s.weight := by
  unfold submit
  cases hs : s.submitter with
  | idle =>
    cases hq : s.requestQueue with
    | nil => rcases h with h | h <;> contradiction
    | cons t rest =>
      simp only [weight, hs, hq, markRequestTaskSubmitted, Submitter.weight, length_cons]
      omega
  | marked t =>
    have hset := @countP_dictSet _ _ _ t.peer (fun _ : Task => true)
      (listAt t.peer s.peerRequestQueues ++ [t]) s.peerRequestQueues
    rw [countP_append, countP_singleton] at hset
    simp only
    split
    · simp only [weight, hs, Submitter.weight, dictAppend]
      simp only [if_true] at hset
      omega
    simp only [weight, hs, Submitter.weight, dictAppend]
    simp only [if_true] at hset
    omega
  | starting p =>
    simp only [weight, hs, Submitter.weight, map_append, sum_append, map_cons, map_nil,
      sum_cons, sum_nil, Handler.weight]
    omega

theorem advance_lt (hinv : RequestInv s) (ok : Bool) (h : Handler) :
    7 * ((s.advance ok h).1.peerRequestQueues.flatMap Prod.snd).countP (fun _ => true) +
      ((s.advance ok h).2.toList.map Handler.weight).sum <
    7 * (s.peerRequestQueues.flatMap Prod.snd).countP (fun _ => true) + h.weight := by
  cases h with
  | scheduled p => simp [advance, Handler.weight, maxRequestsPerPeerHandler]
  | resubmitting p => simp [advance, Handler.weight]
  | finishing p handled t =>
    have hle := @looping_weight_le p handled
    simp only [advance, Option.toList_some, map_cons, map_nil, sum_cons, sum_nil]
    simp only [Handler.weight] at hle ⊢
    omega
  | marking p handled t =>
    have hle := @looping_weight_le p handled
    obtain ⟨-, -, hqu⟩ := @peers_markRequestTaskDone s t.requestId t.allTaskDone
    simp only [advance, Option.toList_some, map_cons, map_nil, sum_cons, sum_nil, hqu]
    split
    · simp only [Handler.weight]
      omega
    · simp only [Handler.weight] at hle ⊢
      omega
  | transferring p handled t =>
    obtain ⟨-, hqu⟩ := @peers_transfer s t ok
    simp [advance, hqu, Handler.weight]
  | looping p handled =>
    cases hq : listAt p s.peerRequestQueues with
    | nil =>
      have hpop := @countP_dictPop _ _ _ p (fun _ : Task => true) _ hinv.nodup
      rw [advance_looping_nil hq]
      simp only [release, Option.toList_none, map_nil, sum_nil, Handler.weight]
      split <;> omega
    | cons t rest =>
      by_cases hlt : handled < maxRequestsPerPeerHandler
      · have hset := @countP_dictSet _ _ _ p (fun _ : Task => true) rest s.peerRequestQueues
        rw [hq, countP_cons] at hset
        rw [advance_looping_lt hq hlt]
        simp only [Option.toList_some, map_cons, map_nil, sum_cons, sum_nil, Handler.weight, if_pos hlt]
        simp only [if_true] at hset
        omega
      · rw [advance_looping_ge hq hlt]
        simp [Handler.weight, hlt]

theorem handle_lt (hinv : RequestInv s) (h : s.Enabled (.handle i ok)) : (s.handle i ok).weight < s.weight := by
  have hi : i < s.handlers.length := h
  have hget : s.handlers[i]? = some s.handlers[i] := getElem?_eq_getElem hi
  have hq := (@queued_handle s i ok).2
  obtain ⟨l1, l2, hs, hea⟩ := split_of_getElem? hget
  have hlt := advance_lt hinv ok s.handlers[i]
  have hold : (s.handlers.map Handler.weight).sum = ((l1 ++ l2).map Handler.weight).sum + s.handlers[i].weight := by
    conv_lhs => rw [hs]
    simp only [map_append, map_cons, sum_append, sum_cons]
    omega
  rw [weight, weight, hq, hold]
  simp only [handle, hget, hea, (advance_submission ..).2.2, map_append, sum_append]
  omega

theorem enabled_of_not_quiet (h : ¬ s.Quiet) : ∃ e, s.Enabled e := by
  by_cases hq : s.requestQueue = []
  · by_cases hs : s.submitter = .idle
    · refine ⟨.handle 0 true, ?_⟩
      have hne : s.handlers ≠ [] := fun heq => h ⟨hq, hs, heq⟩
      exact length_pos_iff.mpr hne
    · exact ⟨.submit, .inr hs⟩
  · exact ⟨.submit, .inl hq⟩

theorem step_lt (hinv : RequestInv s) (h : s.Enabled e) : (s.step e).weight < s.weight := by
  cases e with
  | submit => exact submit_lt h
  | handle i ok => exact handle_lt hinv h
  | addReqToProcess r => cases h
  | addRequest t => cases h
  | getFinished tmo now => cases h

/-! ### What is reported -/

theorem handled_of_pending (hpe : PeerInv s) (hzero : s.pending r = 0) (p : PeerKey) :
    (onPeer p s.taken).filter (fun t => t.requestId = r) = (onPeer p s.handled).filter fun t => t.requestId = r := by
  have hsub : ∀ l l' : List Task, (∀ t ∈ l, t ∈ l') → tasksOf r l' = 0 → l.filter (fun t => t.requestId = r) = [] :=
    fun l l' hmem hl => by
      rw [filter_eq_nil_iff]
      intro t ht
      exact countP_eq_zero.mp hl t (hmem t ht)
  rw [pending] at hzero
  have hih := hsub ((handlersOf p s.handlers).flatMap inHand)
    (s.handlers.flatMap unmarked) (fun t ht => by
      obtain ⟨h, hh, ht⟩ := mem_flatMap.mp ht
      exact mem_flatMap.mpr ⟨h, (mem_filter.mp hh).1, h.unmarked_of_inHand ht⟩) (by omega)
  have hq := hsub (listAt p s.peerRequestQueues) _ (fun t ht => mem_flatMap_of_mem_listAt ht) (by omega)
  have hsum := hsub (onPeer p s.submitter.tasks) s.submitter.tasks (fun t ht => (mem_filter.mp ht).1) (by omega)
  rw [hpe.fifo p, filter_append, filter_append, filter_append, hih, hq, hsum]
  simp

theorem not_pending_of_mem_reported (hinv : RequestInv s) (hr : r ∈ s.reported) :
    s.closed r = true ∧ s.pending r = 0 := by
  have he := hinv.ended r
  have hp := count_pos_iff.mpr hr
  rw [ends] at he
  split at he
  · assumption
  · omega

theorem filter_requestQueue_of_closed (hinv : RequestInv s) (hc : s.closed r = true) (p : PeerKey) :
    (onPeer p s.requestQueue).filter (fun t => t.requestId = r) = [] := by
  obtain ⟨t, ht, hl⟩ := any_eq_true.mp hc
  rw [Bool.and_eq_true, decide_eq_true_eq] at hl
  rw [filter_eq_nil_iff]
  intro t' ht' heq
  rw [decide_eq_true_eq] at heq
  have hr := (pairwise_append.mp hinv.order).2.2 t ht t' (mem_filter.mp ht').1 (hl.1.trans heq.symm)
  rw [hl.2] at hr
  cases hr

theorem queue_of_quiet (hp : PeerInv s) (hqu : s.Quiet) (p : PeerKey) : listAt p s.peerRequestQueues = [] := by
  obtain ⟨-, hs, hh⟩ := hqu
  refine hp.idle p fun ha => ?_
  have ho := hp.one p
  rw [hs, hh, if_pos ha] at ho
  cases ho

theorem handled_of_quiet (hp : PeerInv s) (hqu : s.Quiet) (p : PeerKey) :
    onPeer p s.handled = onPeer p (s.taken ++ s.requestQueue) := by
  obtain ⟨hq, hs, hh⟩ := hqu
  rw [hq, append_nil, hp.fifo p, queue_of_quiet hp ⟨hq, hs, hh⟩, hs, hh]
  simp [handlersOf, tasks, onPeer]

theorem flatMap_queues_of_quiet (hinv : RequestInv s) (hp : PeerInv s) (hqu : s.Quiet) :
    s.peerRequestQueues.flatMap Prod.snd = [] := by
  rw [flatMap_eq_nil_iff]
  rintro ⟨p, l⟩ hmem
  have hg := dictGet_of_mem hinv.nodup hmem
  have hq := queue_of_quiet hp hqu p
  rw [listAt, hg] at hq
  exact hq

theorem reported_of_quiet (hinv : RequestInv s) (hpe : PeerInv s) (hqu : s.Quiet)
    (hlast : ∃ t ∈ s.taken ++ s.requestQueue, t.requestId = r ∧ t.allTaskDone = true) (tmo now : Nat) :
    (s.step (.getFinished tmo now)).reported.count r = 1 := by
  obtain ⟨hq, hsub, hha⟩ := id hqu
  have hcl : s.closed r = true := by
    obtain ⟨t, ht, hr, hdone⟩ := hlast
    rw [hq, append_nil] at ht
    exact any_eq_true.mpr ⟨t, ht, by simp [hr, hdone]⟩
  have hzero : s.pending r = 0 := by
    rw [pending, flatMap_queues_of_quiet hinv hpe hqu, hsub, hha]
    rfl
  have hen := (hinv.step (.getFinished tmo now) trivial).ended r
  have hend : tasksOf r ((s.step (.getFinished tmo now)).handlers.flatMap ending) = 0 := by
    rw [show (s.step (.getFinished tmo now)).handlers = s.handlers from rfl, hha]
    rfl
  have hfi : (s.step (.getFinished tmo now)).taskTracker.finishedRequests.count r = 0 := rfl
  rw [ends, hend, hfi, if_pos ⟨hcl, hzero⟩] at hen
  omega

theorem dispatch {events : List Event} (h : Run.Guarded RecvingThread.step Allowed {} events) :
    let s := events.foldl RecvingThread.step {}
    let puts := events.filterMap Event.put
    (∀ p, (handlersOf p s.handlers).length ≤ 1) ∧
    (∀ p, listAt p s.peerRequestQueues ≠ [] → (handlersOf p s.handlers).length = 1 ∨ s.submitter = .starting p) ∧
    (∀ p, onPeer p s.handled <+: onPeer p puts) ∧
    (s.Quiet → ∀ p, onPeer p s.handled = onPeer p puts) ∧
    (¬ s.Quiet → ∃ e, s.Enabled e) ∧ (∀ e, s.Enabled e → (s.step e).weight < s.weight) ∧
    (∀ r, s.reported.count r ≤ 1) ∧
    (∀ r ∈ s.reported, (∃ t ∈ puts, t.requestId = r ∧ t.allTaskDone = true) ∧ ∀ p,
      (onPeer p puts).filter (fun t => t.requestId = r) = (onPeer p s.handled).filter fun t => t.requestId = r) ∧
    (s.Quiet → ∀ r, (∃ t ∈ puts, t.requestId = r ∧ t.allTaskDone = true) →
      ∀ timeout now, (s.step (.getFinished timeout now)).reported.count r = 1) := by
  intro s puts
  have hinv : RequestInv s := requestInv_run h
  have hpe : PeerInv s := peerInv_run events
  have hpu : s.taken ++ s.requestQueue = puts := queued_run
  have hone : ∀ p, (handlersOf p s.handlers).length ≤ 1 := fun p => by
    have hp := hpe.one p
    split at hp <;> omega
  refine ⟨hone, fun p hp => ?_, fun p => ?_, fun hqu p => ?_, enabled_of_not_quiet, fun e => step_lt hinv,
    fun r => ?_, fun r hr => ⟨?_, fun p => ?_⟩, fun hqu r hlast => ?_⟩
  · have hact : p ∈ s.activePeerRequestHandlers := by
      by_contra hne
      exact hp (hpe.idle p hne)
    have hp' := hpe.one p
    rw [if_pos hact] at hp'
    cases hsub : s.submitter with
    | starting p' =>
      by_cases heq : p' = p
      · exact .inr (by rw [heq])
      · rw [hsub, Submitter.starts, if_neg heq] at hp'
        exact .inl hp'
    | idle => rw [hsub] at hp'; exact .inl hp'
    | marked t => rw [hsub] at hp'; exact .inl hp'
  · rw [← hpu, onPeer_append, hpe.fifo p, append_assoc, append_assoc, append_assoc]
    exact prefix_append _ _
  · rw [← hpu]
    exact handled_of_quiet hpe hqu p
  · have hend := hinv.ended r
    rw [ends] at hend
    split at hend <;> omega
  · obtain ⟨t, ht, hlast⟩ := any_eq_true.mp (not_pending_of_mem_reported hinv hr).1
    rw [Bool.and_eq_true, decide_eq_true_eq] at hlast
    exact ⟨t, hpu ▸ mem_append_left _ ht, hlast⟩
  · obtain ⟨hcl, hzero⟩ := not_pending_of_mem_reported hinv hr
    rw [← hpu, onPeer_append, filter_append, handled_of_pending hpe hzero,
      filter_requestQueue_of_closed hinv hcl, append_nil]
  · exact reported_of_quiet hinv hpe hqu (hpu ▸ hlast)

def twoPeers : List Event :=
  [.addReqToProcess 7, .addRequest ⟨7, ("prefill", 1), [[0]], false⟩, .addRequest ⟨7, ("prefill", 2), [[1]], true⟩,
    .submit, .submit, .submit, .handle 0 true, .handle 0 true, .handle 0 false, .handle 0 true, .submit, .submit,
    .submit, .handle 0 true, .handle 0 true, .handle 0 true, .handle 0 true, .handle 0 true, .handle 0 true,
    .handle 0 true]

theorem dispatch_twoPeers : (twoPeers.foldl RecvingThread.step {}).Quiet ∧
    ((twoPeers.foldl RecvingThread.step {}).step (.getFinished 60 0)).reported.count 7 = 1 := by
  have hg : Run.Guarded RecvingThread.step Allowed {} twoPeers := by
    refine ⟨trivial, ⟨by decide, fun _ => by decide⟩, ⟨by decide, fun _ => by decide⟩, ?_⟩
    simp [Run.Guarded, Allowed]
  have hqu : (twoPeers.foldl RecvingThread.step {}).Quiet := by decide
  obtain ⟨-, -, -, -, -, -, -, -, hre⟩ := dispatch hg
  exact ⟨hqu, hre hqu 7 ⟨⟨7, ("prefill", 2), [[1]], true⟩, by decide, rfl, rfl⟩ 60 0⟩

end

end RecvingThread

end VllmAscend.Mooncake
