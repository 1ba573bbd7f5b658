import VllmAscend.Lib.Run
import VllmAscend.Offload.CpuConnector

/-!
# The ranks of the CPU offloading connector in lockstep

All ranks get the same metadata, so they track the same requests and save them
in the same step; rank 0 and the aggregation then count every request once for
each rank.
-/

namespace VllmAscend.Offload

open Python Batch Run World List

variable {trk qd : List RequestId} {output : SchedulerOutput} {ids : List (RequestId × List Nat)}

variable {n : Nat} {cfg : Config}

/-! ## What a rank does -/

def addKey (tracked : List RequestId) (r : RequestId) : List RequestId :=
  if r ∈ tracked then tracked else tracked ++ [r]

theorem nodup_addKey (h : trk.Nodup) (r : RequestId) : (addKey trk r).Nodup := by
  unfold addKey
  split
  · exact h
  · rename_i hr
    exact h.append (nodup_singleton r) (by simpa using hr)

namespace Worker

variable {w w' : Worker}

theorem bindRequest_ok (h : w.bindRequest cfg ent = .ok w') : ∃ prs, w' = { w with
      requests := dictSet ent.1 (((dictGet ent.1 w.requests).map (·.update ent.2)).getD ent.2) w.requests
      loadBlockMapping := w.loadBlockMapping ++ prs } := by
  obtain ⟨prs, -, h⟩ := bind_ok.mp h
  cases h
  refine ⟨prs, ?_⟩
  cases dictGet ent.1 w.requests <;> rfl

theorem foldlM_bindRequest_ok : ∀ {en : List (RequestId × ReqMeta)} {w w' : Worker},
    en.foldlM (bindRequest cfg) w = .ok w' →
    w'.requests.map Prod.fst = (en.map Prod.fst).foldl addKey (w.requests.map Prod.fst) ∧
      w'.saveInputQueue = w.saveInputQueue ∧ w'.saveOutputQueue = w.saveOutputQueue ∧
      w'.doneSendingCount = w.doneSendingCount
  | [], w, w', h => by cases h; exact ⟨rfl, rfl, rfl, rfl⟩
  | ent :: en, w, w', h => by
    obtain ⟨w₁, hb, h⟩ := bind_ok.mp h
    obtain ⟨prs, rfl⟩ := bindRequest_ok hb
    obtain ⟨hk, hr⟩ := foldlM_bindRequest_ok h
    refine ⟨?_, hr⟩
    rw [hk, map_cons, foldl_cons, map_fst_dictSet]
    rfl

theorem dictGet_foldlM_bindRequest : ∀ {en : List (RequestId × ReqMeta)} {w w' : Worker},
    (en.map Prod.fst).Nodup → en.foldlM (bindRequest cfg) w = .ok w' →
    dictGet r w'.requests = match dictGet r en with
      | some new => some (((dictGet r w.requests).map (·.update new)).getD new)
      | none => dictGet r w.requests
  | [], w, w', _, h => by cases h; rfl
  | ent :: en, w, w', hn, h => by
    obtain ⟨w₁, hb, h⟩ := bind_ok.mp h
    obtain ⟨prs, rfl⟩ := bindRequest_ok hb
    rw [map_cons, nodup_cons] at hn
    rw [dictGet_foldlM_bindRequest hn.2 h]
    by_cases hr : ent.1 = r
    · subst hr
      have hrest : dictGet ent.1 en = none := dictGet_eq_none hn.1
      have hf : dictGet ent.1 (ent :: en) = some ent.2 := by simp [dictGet]
      simp only [hrest, hf, dictGet_dictSet, if_true]
    · have hf : dictGet r (ent :: en) = dictGet r en := by simp [dictGet, hr]
      rw [hf, dictGet_dictSet, if_neg hr]

theorem queueSave_eq (w : Worker) (r : RequestId) :
    ∃ en : List (RequestId × ReqMeta), w.queueSave r = { w with saveInputQueue := w.saveInputQueue ++ en } ∧
      en.map Prod.fst = [r].filter (· ∈ w.requests.map Prod.fst) := by
  unfold queueSave
  cases hg : dictGet r w.requests with
  | some req =>
    have hm : r ∈ w.requests.map Prod.fst := dictGet_isSome.mp (by rw [hg]; rfl)
    exact ⟨[(r, req)], rfl, by simp only [map_cons, map_nil, filter_singleton, hm]; rfl⟩
  | none =>
    have hm : r ∉ w.requests.map Prod.fst := fun h => by simpa [hg] using dictGet_isSome.mpr h
    exact ⟨[], by simp, by simp only [map_nil, filter_singleton, hm]; rfl⟩

theorem foldl_queueSave_eq : ∀ (finished : List RequestId) (w : Worker), ∃ en : List (RequestId × ReqMeta),
      finished.foldl queueSave w = { w with saveInputQueue := w.saveInputQueue ++ en } ∧
      en.map Prod.fst = finished.filter (· ∈ w.requests.map Prod.fst)
  | [], w => ⟨[], by simp, rfl⟩
  | r :: finished, w => by
    obtain ⟨en, hs, hi⟩ := queueSave_eq w r
    obtain ⟨entries', hr, hi'⟩ := foldl_queueSave_eq finished (w.queueSave r)
    refine ⟨en ++ entries', ?_, ?_⟩
    · rw [foldl_cons, hr, hs]
      simp
    · rw [hs] at hi'
      rw [map_append, hi, hi', ← filter_append]
      rfl

theorem foldlM_saveReq_ok : ∀ {q : List (RequestId × ReqMeta)} {w w' : Worker},
    q.foldlM (saveReq cfg rank size) w = .ok w' →
    w' = { w with saveOutputQueue := w.saveOutputQueue ++ q.map Prod.fst }
  | [], w, w', h => by cases h; simp
  | ent :: q, w, w', h => by
    obtain ⟨w₁, hs, h⟩ := bind_ok.mp h
    obtain ⟨_, -, hs⟩ := bind_ok.mp hs
    obtain ⟨_, -, hs⟩ := bind_ok.mp hs
    cases hs
    rw [foldlM_saveReq_ok h]
    simp

theorem foldlM_forget_ok : ∀ {done : List RequestId} {requests rs' : List (RequestId × ReqMeta)},
    done.foldlM forget requests = .ok rs' → rs' = requests.filter fun req => req.1 ∉ done
  | [], requests, rs', h => by cases h; simp
  | r :: done, requests, rs', h => by
    obtain ⟨requests1, hf, h⟩ := bind_ok.mp h
    obtain ⟨_, -, hf⟩ := bind_ok.mp hf
    cases hf
    rw [foldlM_forget_ok h, dictPop, filter_filter]
    refine filter_congr fun req _ => ?_
    simp [mem_cons, not_or, Bool.and_comm]

theorem drainSaves_ok (ho : w.saveOutputQueue = []) (h : w.drainSaves cfg rank size = .ok (w', done)) :
    done = (w.saveInputQueue.map Prod.fst).dedup ∧
      w' = { w with requests := w.requests.filter fun req => req.1 ∉ done, saveInputQueue := [] } := by
  obtain ⟨w₁, hs, h⟩ := bind_ok.mp h
  obtain ⟨requests, hf, h⟩ := bind_ok.mp h
  cases h
  rw [foldlM_saveReq_ok hs] at hf ⊢
  rw [ho, nil_append] at hf ⊢
  exact ⟨rfl, by rw [foldlM_forget_ok hf]⟩

theorem gatherDone_eq (hc : w.doneSendingCount = []) (hd : done.Nodup) (m : Nat) :
    w.gatherDone (m + 1) done (List.replicate m done) = ({ w with doneSendingCount := [] }, done) := by
  have hco : ∀ k, (List.replicate k done).flatten.foldl countDone (done.map fun r => (r, 1)) =
      done.map fun r => (r, k + 1) := by
    intro k
    induction k with
    | zero => rfl
    | succ k ih =>
      rw [replicate_succ', flatten_append, foldl_append, ih, flatten_singleton]
      exact foldl_dictSet_map (fun count => count.getD 0 + 1) (some (k + 1)) done [] hd
  have hf : done.foldl countDone [] = done.map fun r => (r, 1) :=
    foldl_dictSet_map (fun count => count.getD 0 + 1) none done [] hd
  rw [gatherDone, hc, foldl_append, hf, hco]
  simp [filter_map, Function.comp_def]

end Worker

/-! ## What the aggregation reports -/

theorem aggregate_of_two_le {remaining : List (RequestId × Nat)} (h : 2 ≤ (dictGet r remaining).getD size) :
    aggregate size (remaining, acc) r = (dictSet r ((dictGet r remaining).getD size - 1) remaining, acc) := by
  rw [aggregate, if_neg (by simp only; omega)]

theorem foldl_aggregate_eq : ∀ {done : List RequestId} {d : List (RequestId × Nat)}, done.Nodup →
    (∀ r ∈ done, 2 ≤ (dictGet r d).getD size) → done.foldl (aggregate size) (d, acc) =
      (done.foldl (fun d r => dictSet r ((dictGet r d).getD size - 1) d) d, acc)
  | [], _, _, _ => rfl
  | r :: done, d, hn, h => by
    obtain ⟨hr, hn⟩ := nodup_cons.mp hn
    obtain ⟨h2, hs⟩ := forall_mem_cons.mp h
    rw [foldl_cons, foldl_cons, aggregate_of_two_le h2]
    refine foldl_aggregate_eq hn fun r' hm => ?_
    rw [dictGet_dictSet, if_neg fun (e : r = r') => hr (e ▸ hm)]
    exact hs r' hm

theorem foldl_aggregate_last : ∀ {done : List RequestId} {acc : List RequestId}, done.Nodup →
    done.foldl (aggregate size) (done.map fun r => (r, 1), acc) = ([], acc ++ done)
  | [], acc, _ => by simp
  | r :: done, acc, h => by
    have hr : r ∉ (done.map fun r => (r, 1)).map Prod.fst := by
      rw [map_map]; simpa using (nodup_cons.mp h).1
    have hs : aggregate size ((r :: done).map fun r => (r, 1), acc) r = (done.map fun r => (r, 1), acc ++ [r]) := by
      rw [aggregate, map_cons]
      simp [dictGet, dictPop_cons (p := (r, 1)) hr]
    rw [foldl_cons, hs, foldl_aggregate_last (nodup_cons.mp h).2, append_assoc]
    rfl

theorem foldl_aggregate_one : ∀ {done : List RequestId} {acc : List RequestId},
    done.foldl (aggregate 1) ([], acc) = ([], acc ++ done)
  | [], acc => by simp
  | r :: done, acc => by
    have hs : aggregate 1 ([], acc) r = ([], acc ++ [r]) := rfl
    rw [foldl_cons, hs, foldl_aggregate_one, append_assoc]
    rfl

theorem foldl_aggregate (hd : done.Nodup) (m : Nat) :
    (done ++ (List.replicate m done).flatten).foldl (aggregate (m + 1)) ([], []) = ([], done) := by
  cases m with
  | zero =>
    rw [replicate_zero, flatten_nil, append_nil]
    exact foldl_aggregate_one
  | succ m =>
    have hrest : ∀ k, (List.replicate (k + 1) done).flatten.foldl (aggregate (m + 2))
        (done.map fun r => (r, k + 1), []) = ([], done) := by
      intro k
      induction k with
      | zero =>
        rw [replicate_one, flatten_singleton]
        exact foldl_aggregate_last hd
      | succ k ih =>
        rw [replicate_succ, flatten_cons, foldl_append]
        have hp := foldl_dictSet_map (fun count => count.getD (m + 2) - 1) (some (k + 2)) done [] hd
        rw [foldl_aggregate_eq hd fun r hr => by rw [dictGet_map_self, if_pos hr]; simp]
        exact .trans (congrArg (fun d => foldl _ (d, []) _) hp) ih
    have hf := foldl_dictSet_map (fun count => count.getD (m + 2) - 1) none done [] hd
    rw [foldl_append, foldl_aggregate_eq hd fun r _ => by simp [dictGet]]
    exact .trans (congrArg (fun d => foldl _ (d, []) _) hf) (hrest m)

/-! ## All ranks -/

structure Lockstep (w : World n) (tracked queued : List RequestId) : Prop where
  nodup : tracked.Nodup
  requests : ∀ rank, (w.workers rank).requests.map Prod.fst = tracked
  queue : ∀ rank, (w.workers rank).saveInputQueue.map Prod.fst = queued
  output : ∀ rank, (w.workers rank).saveOutputQueue = []
  counts : (w.workers 0).doneSendingCount = []
  remaining : w.remaining = []

section
variable {w w' : World n}

def scheduledIds (output : SchedulerOutput) : List RequestId :=
  output.scheduledNewReqs.map (·.reqId) ++ output.scheduledCachedReqs.map (·.reqId)

theorem map_fst_mapM {α : Type} {f : α → Except PyError (RequestId × ReqMeta)} {id : α → RequestId}
    (hf : ∀ a b, f a = .ok b → b.1 = id a) : ∀ {l : List α} {bs : List (RequestId × ReqMeta)},
    l.mapM f = .ok bs → bs.map Prod.fst = l.map id
  | [], bs, h => by cases h; rfl
  | a :: l, bs, h => by
    rw [mapM_cons] at h
    obtain ⟨b, hb, h⟩ := bind_ok.mp h
    obtain ⟨bs', hbs, h⟩ := bind_ok.mp h
    cases h
    rw [map_cons, map_cons, hf a b hb, map_fst_mapM hf hbs]

theorem buildConnectorMeta_ok {s s' : ConnectorScheduler}
    (h : s.buildConnectorMeta output ids = .ok (s', md)) :
    s' = {} ∧ md.finishedReqIds = s.finishedReqIds.dedup ∧
      ∃ nr cr, output.scheduledNewReqs.mapM (s.newReqMeta output ids) = .ok nr ∧
        output.scheduledCachedReqs.mapM (ConnectorScheduler.cachedReqMeta output ids) = .ok cr ∧
        md.requests = (nr ++ cr).foldl (fun requests req => dictSet req.1 req.2 requests) [] := by
  obtain ⟨nr, hn, h⟩ := bind_ok.mp h
  obtain ⟨cr, hc, h⟩ := bind_ok.mp h
  cases h
  exact ⟨rfl, rfl, nr, cr, hn, hc, rfl⟩

theorem Lockstep.bind (h : Lockstep w trk qd) (hbind : w.bind cfg output ids = .ok w') :
    ∃ md, w.scheduler.buildConnectorMeta output ids = .ok ({}, md) ∧
      (∀ rank, (w.workers rank).bindConnectorMetadata cfg md = .ok (w'.workers rank)) ∧
      w' = { w with scheduler := {}, workers := w'.workers, blocks := assign w.blocks output } ∧
      Lockstep w' ((md.requests.map Prod.fst).foldl addKey trk) (qd ++
        md.finishedReqIds.filter (· ∈ (md.requests.map Prod.fst).foldl addKey trk)) := by
  obtain ⟨⟨s', md⟩, hbu, hbind⟩ := bind_ok.mp hbind
  obtain ⟨workers, hwo, hbind⟩ := bind_ok.mp hbind
  cases hbind
  obtain ⟨rfl, -, -⟩ := buildConnectorMeta_ok hbu
  have hwo := ok_of_collect hwo
  have hrank : ∀ rank, (workers rank).requests.map Prod.fst = (md.requests.map Prod.fst).foldl addKey trk ∧
      (workers rank).saveInputQueue.map Prod.fst = qd ++
        md.finishedReqIds.filter (· ∈ (md.requests.map Prod.fst).foldl addKey trk) ∧
      (workers rank).saveOutputQueue = [] ∧
      (workers rank).doneSendingCount = (w.workers rank).doneSendingCount := by
    intro rank
    obtain ⟨w₁, hfo, hrest⟩ := bind_ok.mp (hwo rank)
    obtain ⟨_, -, hrest⟩ := bind_ok.mp hrest
    obtain ⟨hke, hqu, hout, hco⟩ := Worker.foldlM_bindRequest_ok hfo
    obtain ⟨en, hsave, hid⟩ := Worker.foldl_queueSave_eq md.finishedReqIds w₁
    rw [hsave] at hrest
    rw [h.requests] at hke
    rw [← Except.ok.inj hrest]
    refine ⟨hke, ?_, hout.trans (h.output rank), hco⟩
    rw [map_append, hqu, h.queue, hid, hke]
  refine ⟨md, hbu, hwo, rfl, ?_, fun rank => (hrank rank).1, fun rank => (hrank rank).2.1,
    fun rank => (hrank rank).2.2.1, (hrank 0).2.2.2.trans h.counts, h.remaining⟩
  exact List.foldlRecOn _ addKey h.nodup fun _ hnod r _ => nodup_addKey hnod r

theorem Lockstep.getFinished (h : Lockstep w trk qd) (hget : w.getFinished cfg = .ok w') :
    Lockstep w' (trk.filter (· ∉ qd.dedup)) [] ∧
      (∀ rank, w'.workers rank = { w.workers rank with
        requests := (w.workers rank).requests.filter fun req => req.1 ∉ qd.dedup
        saveInputQueue := []
        loadBlockMapping := [] }) ∧
      w' = { w with
        workers := w'.workers
        inFlight := if n = 0 then w.inFlight else w.inFlight ++ qd.dedup
        remaining := []
        blocks := qd.dedup.foldl (fun blocks r => dictPop r blocks) w.blocks
        reported := w.reported ++ qd.dedup } := by
  obtain ⟨drained, hdr, hget⟩ := bind_ok.mp hget
  have hdr := ok_of_collect hdr
  have hrank : ∀ rank, (drained rank).2 = qd.dedup ∧ (drained rank).1 = { w.workers rank with
      requests := (w.workers rank).requests.filter fun req => req.1 ∉ qd.dedup
      saveInputQueue := [] } := by
    intro rank
    obtain ⟨hdone, hwr⟩ := Worker.drainSaves_ok (h.output rank) (hdr rank)
    rw [h.queue] at hdone
    exact ⟨hdone, by rw [hwr, hdone]⟩
  have hot : (List.ofFn fun i : Fin n => (drained i.succ).2) = List.replicate n qd.dedup := by
    rw [← ofFn_const]
    exact congrArg List.ofFn (funext fun i => (hrank i.succ).1)
  have hco : (drained 0).1.doneSendingCount = [] := by rw [(hrank 0).2]; exact h.counts
  have hfi : (if n = 0 then ((drained 0).1, (drained 0).2)
      else (drained 0).1.gatherDone (n + 1) (drained 0).2 (List.ofFn fun i : Fin n => (drained i.succ).2)) =
      ((drained 0).1, qd.dedup) := by
    rw [hot, (hrank 0).1, Worker.gatherDone_eq hco (nodup_dedup qd), ← hco]
    split <;> rfl
  simp only [hfi] at hget
  simp only [hot, h.remaining, foldl_aggregate (nodup_dedup qd)] at hget
  cases hget
  have hwo : ∀ rank, (if rank = 0 then (drained 0).1 else (drained rank).1).clear = { w.workers rank with
      requests := (w.workers rank).requests.filter fun req => req.1 ∉ qd.dedup
      saveInputQueue := []
      loadBlockMapping := [] } := by
    intro rank
    have hsame : (if rank = 0 then (drained 0).1 else (drained rank).1) = (drained rank).1 := by
      split
      · rename_i hzero; rw [hzero]
      · rfl
    rw [hsame, (hrank rank).2]; rfl
  refine ⟨⟨h.nodup.filter _, ?_, ?_, ?_, ?_, rfl⟩, hwo, rfl⟩
  · intro rank
    simp only [hwo]
    rw [← h.requests rank, filter_map]; rfl
  · intro rank; simp only [hwo]; rfl
  · intro rank; simp only [hwo]; exact h.output rank
  · exact (congrArg Worker.doneSendingCount (hwo 0)).trans h.counts

theorem lockstep_init : Lockstep ({} : World n) [] [] := ⟨nodup_nil, fun _ => rfl, fun _ => rfl, fun _ => rfl, rfl, rfl⟩

theorem Lockstep.step (h : Lockstep w trk qd) {event : Event} (hs : w.step cfg event = .ok w') :
    ∃ tracked' queued', Lockstep w' tracked' queued' := by
  cases event with
  | matched => cases hs; exact ⟨trk, qd, h.nodup, h.requests, h.queue, h.output, h.counts, h.remaining⟩
  | finished => cases hs; exact ⟨trk, qd, h.nodup, h.requests, h.queue, h.output, h.counts, h.remaining⟩
  | bind output ids =>
    obtain ⟨md, -, -, -, h'⟩ := h.bind hs
    exact ⟨_, _, h'⟩
  | getFinished => exact ⟨_, _, (h.getFinished hs).1⟩
  | cacheAndFreeSlots =>
    cases hs
    refine ⟨trk, qd, ?_⟩
    unfold cacheAndFreeSlots
    split
    · exact h
    · exact ⟨h.nodup, h.requests, h.queue, h.output, h.counts, h.remaining⟩

end

/-! ## The block tables of the ranks -/

def TableAgrees (w : World n) : Prop :=
  ∀ rank r req, dictGet r (w.workers rank).requests = some req →
    ∃ group groups, dictGet r w.blocks = some (group :: groups) ∧ req.gpuBlockIds = group.map .id

structure Plain (w : World n) (output : SchedulerOutput) : Prop where
  nodup : (scheduledIds output).Nodup
  fresh : ∀ req ∈ output.scheduledNewReqs, ∀ rank, dictGet req.reqId (w.workers rank).requests = none
  continued : ∀ req ∈ output.scheduledCachedReqs, ∀ rank, (dictGet req.reqId (w.workers rank).requests).isSome

/-- A step that gives no continued request new blocks and preempts no request of the ranks. -/
structure Stable (w : World n) (output : SchedulerOutput) : Prop extends Plain w output where
  noNewBlocks : ∀ req ∈ output.scheduledCachedReqs, req.newBlockIds = none
  noPreemption : ∀ r ∈ output.preemptedReqIds, ∀ rank, dictGet r (w.workers rank).requests = none

section
variable {w w' : World n}

variable {s : ConnectorScheduler} {req : NewRequestData}

theorem newReqMeta_ok (h : s.newReqMeta output ids req = .ok ent) :
    ent.1 = req.reqId ∧ ∃ group groups, req.blockIds = group :: groups ∧ ent.2.gpuBlockIds = group.map .id := by
  obtain ⟨group, hg, h⟩ := bind_ok.mp h
  obtain ⟨_, -, h⟩ := bind_ok.mp h
  obtain ⟨_, -, h⟩ := bind_ok.mp h
  obtain ⟨_, -, h⟩ := bind_ok.mp h
  cases h
  refine ⟨rfl, ?_⟩
  cases hb : req.blockIds with
  | nil => rw [hb] at hg; cases hg
  | cons first groups =>
    rw [hb] at hg
    cases hg
    exact ⟨group, groups, rfl, rfl⟩

theorem cachedReqMeta_ok {req : CachedRequest} (h : ConnectorScheduler.cachedReqMeta output ids req = .ok ent) :
    ent.1 = req.reqId ∧ ent.2.gpuBlockIds = (req.newBlockIds.getD []).map .group := by
  obtain ⟨_, -, h⟩ := bind_ok.mp h
  cases h
  exact ⟨rfl, rfl⟩

theorem metadata_of_nodup {s' : ConnectorScheduler} (h : s.buildConnectorMeta output ids = .ok (s', md))
    (hnod : (scheduledIds output).Nodup) :
    md.requests.map Prod.fst = scheduledIds output ∧
      ∀ ent ∈ md.requests,
        (∃ req ∈ output.scheduledNewReqs, s.newReqMeta output ids req = .ok ent) ∨
          ∃ req ∈ output.scheduledCachedReqs, ConnectorScheduler.cachedReqMeta output ids req = .ok ent := by
  obtain ⟨-, -, nr, cr, hn, hc, hr⟩ := buildConnectorMeta_ok h
  have hi : (nr ++ cr).map Prod.fst = scheduledIds output := by
    rw [map_append, map_fst_mapM (fun _ _ h => (newReqMeta_ok h).1) hn,
      map_fst_mapM (fun _ _ h => (cachedReqMeta_ok h).1) hc]
    rfl
  rw [foldl_dictSet_items _ [] (by rw [nil_append, hi]; exact hnod), nil_append] at hr
  rw [hr]
  refine ⟨hi, fun ent he => ?_⟩
  rcases mem_append.mp he with he | he
  · exact .inl ((mem_mapM hn).mp he)
  · exact .inr ((mem_mapM hc).mp he)

theorem dictGet_foldl_new : ∀ {reqs : List NewRequestData} {blocks : List (RequestId × List (List Nat))},
    r ∉ reqs.map (·.reqId) →
    dictGet r (reqs.foldl (fun blocks req => dictSet req.reqId req.blockIds blocks) blocks) = dictGet r blocks
  | [], _, _ => rfl
  | req :: reqs, blocks, h => by
    rw [map_cons, mem_cons, not_or] at h
    rw [foldl_cons, dictGet_foldl_new h.2, dictGet_dictSet, if_neg (Ne.symm h.1)]

theorem dictGet_foldl_new_of_mem : ∀ {reqs : List NewRequestData}
    {blocks : List (RequestId × List (List Nat))}, (reqs.map (·.reqId)).Nodup → req ∈ reqs →
    dictGet req.reqId (reqs.foldl (fun blocks req => dictSet req.reqId req.blockIds blocks) blocks) = some req.blockIds
  | first :: reqs, blocks, hn, h => by
    rw [map_cons, nodup_cons] at hn
    rw [foldl_cons]
    rcases mem_cons.mp h with rfl | h
    · rw [dictGet_foldl_new hn.1, dictGet_dictSet, if_pos rfl]
    · exact dictGet_foldl_new_of_mem hn.2 h

theorem assign_of_noNewBlocks {blocks : List (RequestId × List (List Nat))}
    (h : ∀ req ∈ output.scheduledCachedReqs, req.newBlockIds = none) :
    assign blocks output = output.scheduledNewReqs.foldl (fun blocks req => dictSet req.reqId req.blockIds blocks)
      (output.preemptedReqIds.foldl (fun blocks r => dictPop r blocks) blocks) := by
  simp only [assign]
  generalize output.scheduledNewReqs.foldl (fun blocks req => dictSet req.reqId req.blockIds blocks)
    (output.preemptedReqIds.foldl (fun blocks r => dictPop r blocks) blocks) = table
  revert h
  induction output.scheduledCachedReqs with
  | nil => intro _; rfl
  | cons req reqs ih =>
    intro h
    rw [foldl_cons, h req mem_cons_self]
    exact ih fun req hr => h req (mem_cons_of_mem _ hr)

theorem tableAgrees_bind (h : Lockstep w trk qd) (hag : TableAgrees w) (hst : Stable w output) (hbind : w.bind cfg output ids = .ok w') :
    TableAgrees w' := by
  obtain ⟨md, hbu, hwo, hw', -⟩ := h.bind hbind
  obtain ⟨hid, henr⟩ := metadata_of_nodup hbu hst.nodup
  have hbl : w'.blocks = output.scheduledNewReqs.foldl (fun blocks req => dictSet req.reqId req.blockIds blocks)
      (output.preemptedReqIds.foldl (fun blocks r => dictPop r blocks) w.blocks) := by
    rw [hw', ← assign_of_noNewBlocks hst.noNewBlocks]
  -- a request that was trk and is not new keeps its blocks
  have hke : ∀ {rank r req}, dictGet r (w.workers rank).requests = some req → r ∉ output.scheduledNewReqs.map (·.reqId) →
      dictGet r w'.blocks = dictGet r w.blocks := by
    intro rank r req hget hnew
    have hpr : r ∉ output.preemptedReqIds := fun hmem => by
      rw [hst.noPreemption r hmem rank] at hget; cases hget
    rw [hbl, dictGet_foldl_new hnew, dictGet_foldl_dictPop, if_neg hpr]
  intro rank r req hget
  obtain ⟨w₁, hfo, hrest⟩ := bind_ok.mp (hwo rank)
  obtain ⟨_, -, hrest⟩ := bind_ok.mp hrest
  obtain ⟨en, hsave, -⟩ := Worker.foldl_queueSave_eq md.finishedReqIds w₁
  have hreq : (w'.workers rank).requests = w₁.requests := by rw [← Except.ok.inj hrest, hsave]
  rw [hreq, Worker.dictGet_foldlM_bindRequest (hid ▸ hst.nodup) hfo] at hget
  cases hen : dictGet r md.requests with
  | none =>
    rw [hen] at hget
    have hnew : r ∉ output.scheduledNewReqs.map (·.reqId) := by
      intro hmem
      have hkey : r ∈ md.requests.map Prod.fst := by rw [hid]; exact mem_append_left _ hmem
      simpa [hen] using dictGet_isSome.mpr hkey
    rw [hke hget hnew]
    exact hag rank r req hget
  | some ent =>
    rw [hen] at hget
    rcases henr _ (mem_of_dictGet hen) with ⟨new, hnew, hme⟩ | ⟨cached, hca, hme⟩
    · obtain ⟨hr, group, groups, hgr, hgp⟩ := newReqMeta_ok hme
      obtain rfl : r = new.reqId := hr
      rw [hst.fresh new hnew rank] at hget
      cases hget
      refine ⟨group, groups, ?_, hgp⟩
      rw [hbl, dictGet_foldl_new_of_mem (nodup_append.mp hst.nodup).1 hnew, hgr]
    · obtain ⟨hr, hgp⟩ := cachedReqMeta_ok hme
      obtain rfl : r = cached.reqId := hr
      obtain ⟨old, hold⟩ := Option.isSome_iff_exists.mp (hst.continued cached hca rank)
      rw [hold] at hget
      cases hget
      have hnew : cached.reqId ∉ output.scheduledNewReqs.map (·.reqId) := fun hmem =>
        (nodup_append.mp hst.nodup).2.2 _ hmem _ (mem_map_of_mem hca) rfl
      obtain ⟨group, groups, hgr, hold'⟩ := hag rank _ old hold
      refine ⟨group, groups, by rw [hke hold hnew, hgr], ?_⟩
      have hnone : ent.gpuBlockIds = [] := by rw [hgp, hst.noNewBlocks cached hca]; rfl
      simp [ReqMeta.update, hold', hnone]

def StableEvent (w : World n) : Event → Prop
  | .bind output _ => Stable w output
  | _ => True

/-- In every run whose steps are stable, the record of every request on every rank is the scheduler's block table. -/
theorem block_table (cfg : Config) (events : List Event) (w : World n)
    (hstable : GuardedM (World.step cfg) StableEvent ({} : World n) events)
    (hrun : events.foldlM (World.step cfg) ({} : World n) = .ok w) : TableAgrees w := by
  suffices h : (∃ tracked queued, Lockstep w tracked queued) ∧ TableAgrees w from h.2
  refine GuardedM.inv (P := fun w => (∃ tracked queued, Lockstep w tracked queued) ∧ TableAgrees w) ?_
    ⟨⟨[], [], lockstep_init⟩, fun rank r req h => by cases h⟩ hstable hrun
  rintro w event w' ⟨⟨tracked, queued, hlo⟩, hag⟩ hev hstep
  refine ⟨hlo.step hstep, ?_⟩
  cases event with
  | matched => cases hstep; exact hag
  | finished => cases hstep; exact hag
  | bind output newCpuBlockIds => exact tableAgrees_bind hlo hag hev hstep
  | getFinished =>
    obtain ⟨-, hwo, hw'⟩ := hlo.getFinished hstep
    intro rank r req hget
    rw [hwo, dictGet_filter (p := fun r => r ∉ queued.dedup)] at hget
    split at hget
    · rename_i hr
      have hr : r ∉ queued.dedup := by simpa using hr
      obtain ⟨group, groups, hgr, hgp⟩ := hag rank r req hget
      refine ⟨group, groups, ?_, hgp⟩
      rw [hw', dictGet_foldl_dictPop, if_neg hr, hgr]
    · cases hget
  | cacheAndFreeSlots =>
    cases hstep
    unfold World.cacheAndFreeSlots
    split <;> exact hag

def shortRun : List Event :=
  [.matched 0 0 0, .bind { scheduledNewReqs := [⟨0, [[1]], 0⟩], numScheduledTokens := [(0, 8)] } [(0, [5])], .getFinished,
    .bind { scheduledCachedReqs := [⟨0, none, 8, false⟩], numScheduledTokens := [(0, 1)] } [], .finished 0]

theorem block_table_shortRun : ∃ w : World 1, shortRun.foldlM (World.step ⟨16, false, 0⟩) {} = .ok w ∧
    dictGet 0 w.blocks = some [[1]] ∧ TableAgrees w := by
  have hs : GuardedM (World.step ⟨16, false, 0⟩) StableEvent ({} : World 1) shortRun := by
    refine ⟨trivial, fun w₁ h₁ => ?_⟩
    cases h₁
    refine ⟨⟨⟨by decide, ?_, ?_⟩, ?_, ?_⟩, fun w₂ h₂ => ?_⟩
    · intro req hreq rank; rfl
    · intro req hreq; cases hreq
    · intro req hreq; cases hreq
    · intro r hr; cases hr
    cases h₂
    refine ⟨trivial, fun w₃ h₃ => ?_⟩
    cases h₃
    refine ⟨⟨⟨by decide, ?_, ?_⟩, ?_, ?_⟩, fun w₄ h₄ => ⟨trivial, fun _ _ => trivial⟩⟩
    · intro req hreq; cases hreq
    · intro req hreq rank
      rw [mem_singleton.mp hreq]
      revert rank
      decide
    · intro req hreq; rw [mem_singleton.mp hreq]
    · intro r hr; cases hr
  exact ⟨_, rfl, rfl, block_table _ shortRun _ hs rfl⟩

/-- A new block of a continued request goes into the record as a list, and a resumed request keeps its old blocks. -/
theorem block_table_stale : (∃ w : World 0, [.matched 0 0 0,
        .bind { scheduledNewReqs := [⟨0, [[1]], 0⟩], numScheduledTokens := [(0, 16)] } [], .getFinished,
        .bind { scheduledCachedReqs := [⟨0, some [[2]], 16, false⟩], numScheduledTokens := [(0, 1)] } []].foldlM
          (World.step ⟨16, false, 0⟩) {} = .ok w ∧ dictGet 0 w.blocks = some [[1, 2]] ∧
        (dictGet 0 (w.workers 0).requests).map (·.gpuBlockIds) = some [.id 1, .group [2]] ∧ ¬ TableAgrees w) ∧
      ∃ w : World 0, [.matched 0 0 0,
        .bind { scheduledNewReqs := [⟨0, [[1]], 0⟩], numScheduledTokens := [(0, 16)] } [], .getFinished,
        .bind { preemptedReqIds := [0] } [], .getFinished,
        .bind { scheduledCachedReqs := [⟨0, some [[7, 8]], 0, true⟩], numScheduledTokens := [(0, 17)] } []].foldlM
          (World.step ⟨16, false, 0⟩) {} = .ok w ∧ dictGet 0 w.blocks = some [[7, 8]] ∧
        (dictGet 0 (w.workers 0).requests).map (·.gpuBlockIds) = some [.id 1, .group [7, 8]] ∧ ¬ TableAgrees w := by
  refine ⟨⟨_, rfl, rfl, rfl, fun h => ?_⟩, ⟨_, rfl, rfl, rfl, fun h => ?_⟩⟩
  all_goals
    obtain ⟨group, groups, hb, hg⟩ := h 0 0 _ rfl
    cases hb
    cases hg

end

end VllmAscend.Offload
