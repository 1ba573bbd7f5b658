import VllmAscend.Offload.CpuConnectorSound

/-!
# Finished requests are reported and freed once

`request_finished` always asks for a delayed free. From two ranks on, and if the
ranks have a record of it, a finished request is reported once by
`get_finished`, and its slots are then freed once.
-/

namespace VllmAscend.Offload

open Python Batch Run ConnectorScheduler List

variable {trk qd : List RequestId}

variable {n : Nat} {cfg : Config}

/-! ## Calls that do not raise -/

def ReqMeta.IdsOnly (req : ReqMeta) : Prop :=
  ∀ entry ∈ req.gpuBlockIds, ∃ block, entry = .id block

def ReqMeta.Covered (cfg : Config) (req : ReqMeta) : Prop :=
  ∀ i, req.numGpuComputedTokens / cfg.blockSize ≤ i → i < req.numComputedTokens / cfg.blockSize →
    i < req.cpuBlockIds.length ∧ i < req.gpuBlockIds.length

theorem ReqMeta.IdsOnly.update {req : ReqMeta} (h : req.IdsOnly) (h' : other.IdsOnly) : (req.update other).IdsOnly := by
  intro en he
  rcases mem_append.mp he with he | he
  · exact h en he
  · exact h' en he

theorem ReqMeta.Covered.update (h : other.Covered cfg) (req : ReqMeta) : (req.update other).Covered cfg := by
  intro i hg hc
  obtain ⟨hcp, hi⟩ := h i hg hc
  simp only [ReqMeta.update, length_append]
  omega

theorem blockPairLocality_ok : ∀ {prs : List BlockPair}, (∀ pair ∈ prs, ∃ blk, pair.2 = .id blk) →
    blockPairLocality prs = .ok ()
  | [], _ => rfl
  | [_], _ => rfl
  | (_, .id _) :: pair :: prs, h => by
    rw [blockPairLocality]
    · exact blockPairLocality_ok fun p hp => h p (mem_cons_of_mem _ hp)
    · simp
  | (_, .group _) :: _ :: _, h => by
    obtain ⟨_, hpa⟩ := h _ mem_cons_self
    cases hpa

theorem exists_foldlM {σ α : Type} {f : σ → α → Except PyError σ} (P : σ → Prop) {l : List α}
    (h : ∀ s a, P s → a ∈ l → ∃ s', f s a = .ok s' ∧ P s') {s : σ} (hs : P s) : ∃ s', l.foldlM f s = .ok s' ∧ P s' := by
  induction l generalizing s with
  | nil => exact ⟨s, rfl, hs⟩
  | cons a l ih =>
    obtain ⟨s1, hf, hs1⟩ := h s a hs mem_cons_self
    obtain ⟨s', hr, hs'⟩ := ih (fun s a hs ha => h s a hs (mem_cons_of_mem _ ha)) hs1
    exact ⟨s', by rw [foldlM_cons, hf]; exact hr, hs'⟩

namespace Worker

variable {w w' : Worker}

structure IdsOnly (w : Worker) : Prop where
  requests : ∀ entry ∈ w.requests, entry.2.IdsOnly
  queue : ∀ entry ∈ w.saveInputQueue, entry.2.IdsOnly
  loads : ∀ pair ∈ w.loadBlockMapping, ∃ block, pair.2 = .id block

theorem loadPair_total (hid : req.IdsOnly) (hi : i < req.cpuBlockIds.length ∧ i < req.gpuBlockIds.length) :
    ∃ pair, loadPair req i = .ok pair ∧ ∃ blk, pair.2 = .id blk := by
  rw [loadPair, getElem?_eq_getElem hi.1, getElem?_eq_getElem hi.2]
  exact ⟨_, rfl, hid _ (getElem_mem hi.2)⟩

theorem loadPairs_total (hid : req.IdsOnly) (hco : req.Covered cfg) :
    ∃ prs, loadPairs cfg req = .ok prs ∧ ∀ pair ∈ prs, ∃ blk, pair.2 = .id blk := by
  have hto : ∀ i ∈ range' (req.numGpuComputedTokens / cfg.blockSize)
      (req.numComputedTokens / cfg.blockSize - req.numGpuComputedTokens / cfg.blockSize),
      ∃ pair, loadPair req i = .ok pair ∧ ∃ blk, pair.2 = BlockEntry.id blk := by
    intro i hi
    obtain ⟨hge, hlt⟩ := mem_range'_1.mp hi
    exact loadPair_total hid (hco i hge (by omega))
  obtain ⟨prs, hpa, -⟩ := mapM_forall₂ hto
  refine ⟨prs, hpa, fun pair hpi => ?_⟩
  obtain ⟨i, hi, hload⟩ := (mem_mapM hpa).mp hpi
  obtain ⟨pair', hload', hbl⟩ := hto i hi
  rwa [Except.ok.inj (hload.symm.trans hload')]

theorem bindRequest_total (h : w.IdsOnly) (hid : en.2.IdsOnly)
    (hc : en.2.Covered cfg) : ∃ w', w.bindRequest cfg en = .ok w' ∧ w'.IdsOnly := by
  have hr : (((dictGet en.1 w.requests).map (·.update en.2)).getD en.2).IdsOnly ∧
      (((dictGet en.1 w.requests).map (·.update en.2)).getD en.2).Covered cfg := by
    cases hg : dictGet en.1 w.requests with
    | none => exact ⟨hid, hc⟩
    | some old => exact ⟨(h.requests _ (mem_of_dictGet hg)).update hid, hc.update old⟩
  obtain ⟨prs, hp, hb⟩ := loadPairs_total hr.1 hr.2
  refine ⟨{ w with
    requests := dictSet en.1 (((dictGet en.1 w.requests).map (·.update en.2)).getD en.2) w.requests
    loadBlockMapping := w.loadBlockMapping ++ prs }, ?_, ?_, h.queue, ?_⟩
  · cases hg : dictGet en.1 w.requests <;> rw [hg] at hp <;> simp only [bindRequest, hg] <;>
      exact bind_ok.mpr ⟨prs, hp, rfl⟩
  · intro item hi
    rcases mem_dictSet hi with rfl | hi
    · exact hr.1
    · exact h.requests item hi
  · intro pair hpa
    rcases mem_append.mp hpa with hpa | hpa
    · exact h.loads pair hpa
    · exact hb pair hpa

theorem IdsOnly.queueSave (h : w.IdsOnly) (r : RequestId) : (w.queueSave r).IdsOnly := by
  unfold Worker.queueSave
  split
  · rename_i req hg
    refine ⟨h.requests, fun en he => ?_, h.loads⟩
    rcases mem_append.mp he with he | he
    · exact h.queue en he
    · rw [mem_singleton.mp he]
      exact h.requests _ (mem_of_dictGet hg)
  · exact h

theorem bindConnectorMetadata_total (h : w.IdsOnly) {md : Metadata}
    (hm : ∀ en ∈ md.requests, en.2.IdsOnly ∧ en.2.Covered cfg) :
    ∃ w', w.bindConnectorMetadata cfg md = .ok w' ∧ w'.IdsOnly := by
  obtain ⟨w₁, hf, hw1⟩ := exists_foldlM IdsOnly
    (fun w en hw he => bindRequest_total hw (hm en he).1 (hm en he).2) h
  refine ⟨md.finishedReqIds.foldl Worker.queueSave w₁, ?_, ?_⟩
  · exact bind_ok.mpr ⟨w₁, hf, bind_ok.mpr ⟨(), blockPairLocality_ok hw1.loads, rfl⟩⟩
  · exact foldlRecOn _ Worker.queueSave hw1 fun _ hw r _ => hw.queueSave r

theorem mem_savePairs (h : pair ∈ savePairs cfg rank size req) : pair.2 ∈ req.gpuBlockIds := by
  have hz : pair ∈ req.cpuBlockIds.zip req.gpuBlockIds := by
    unfold savePairs at h
    split at h
    · obtain ⟨pair', hp', h⟩ := mem_filterMap.mp h
      split at h
      · cases h
        exact mem_of_mem_take (mem_of_mem_drop (fst_mem_of_mem_zipIdx hp'))
      · cases h
    · exact mem_of_mem_take (mem_of_mem_drop h)
  exact (of_mem_zip hz).2

theorem saveReq_total (hi : en.2.IdsOnly) : ∃ w', w.saveReq cfg rank size en = .ok w' := by
  have hp : ∀ pair ∈ savePairs cfg rank size en.2, ∃ blk, pair.2 = .id blk :=
    fun pair hpa => hi _ (mem_savePairs hpa)
  refine ⟨_, bind_ok.mpr ⟨(), blockPairLocality_ok hp, bind_ok.mpr ⟨(), forM_ok.mpr ?_, rfl⟩⟩⟩
  rintro ⟨cpu, gpu⟩ hpa
  obtain ⟨blk, hb⟩ := hp _ hpa
  simp only at hb
  rw [hb]
  rfl

theorem foldlM_forget_total : ∀ {done : List RequestId} {requests : List (RequestId × ReqMeta)}, done.Nodup →
    (∀ r ∈ done, r ∈ requests.map Prod.fst) → ∃ rs', done.foldlM forget requests = .ok rs'
  | [], requests, _, _ => ⟨requests, rfl⟩
  | r :: done, requests, hn, h => by
    rw [nodup_cons] at hn
    obtain ⟨req, hreq⟩ := Option.isSome_iff_exists.mp (dictGet_isSome.mpr (h r mem_cons_self))
    have hf : forget requests r = .ok (dictPop r requests) := by
      rw [forget, lookup, hreq]; rfl
    have hr : ∀ r' ∈ done, r' ∈ (dictPop r requests).map Prod.fst := by
      intro r' hr'
      obtain ⟨item, hi, rfl⟩ := mem_map.mp (h r' (mem_cons_of_mem _ hr'))
      refine mem_map_of_mem (mem_dictPop.mpr ⟨hi, ?_⟩)
      intro heq
      exact hn.1 (heq ▸ hr')
    obtain ⟨rs', hr⟩ := foldlM_forget_total hn.2 hr
    exact ⟨rs', by rw [foldlM_cons, hf]; exact hr⟩

theorem drainSaves_total (cfg : Config) (rank size : Nat) (h : w.IdsOnly) (hout : w.saveOutputQueue = [])
    (hqu : ∀ en ∈ w.saveInputQueue, en.1 ∈ w.requests.map Prod.fst) :
    ∃ w' done, w.drainSaves cfg rank size = .ok (w', done) := by
  have hsa : ∀ (w' : Worker) (en : RequestId × ReqMeta), True → en ∈ w.saveInputQueue →
      ∃ w₁, w'.saveReq cfg rank size en = .ok w₁ ∧ True := by
    intro w' en _ hen
    obtain ⟨w₁, hw1⟩ := saveReq_total (h.queue en hen)
    exact ⟨w₁, hw1, trivial⟩
  obtain ⟨w₁, hsave, -⟩ := exists_foldlM (fun _ => True) hsa trivial
  have hw1 := foldlM_saveReq_ok hsave
  rw [hout, nil_append] at hw1
  have hkn : ∀ r ∈ w₁.saveOutputQueue.dedup, r ∈ w₁.requests.map Prod.fst := by
    intro r hr
    rw [mem_dedup, hw1] at hr
    obtain ⟨en, hen, rfl⟩ := mem_map.mp hr
    rw [hw1]
    exact hqu en hen
  obtain ⟨requests, hfo⟩ := foldlM_forget_total (nodup_dedup w₁.saveOutputQueue) hkn
  exact ⟨_, _, bind_ok.mpr ⟨w₁, hsave, bind_ok.mpr ⟨requests, hfo, rfl⟩⟩⟩

end Worker

/-! ## Steps that do not raise -/

structure Bindable (cfg : Config) (w : World n) (output : SchedulerOutput) (newCpuBlockIds : List (RequestId × List Nat)) :
    Prop where
  nodup : (scheduledIds output).Nodup
  counted : ∀ r ∈ scheduledIds output, (dictGet r output.numScheduledTokens).isSome
  noNewBlocks : ∀ req ∈ output.scheduledCachedReqs, req.newBlockIds = none
  matched : ∀ req ∈ output.scheduledNewReqs, (dictGet req.reqId w.scheduler.numCpuComputedTokens).isSome
  covered : ∀ req ∈ output.scheduledNewReqs, ∃ group groups numGpuComputedTokens, req.blockIds = group :: groups ∧
    dictGet req.reqId w.scheduler.numGpuComputedTokens = some numGpuComputedTokens ∧
    ∀ i, numGpuComputedTokens / cfg.blockSize ≤ i → i < req.numComputedTokens / cfg.blockSize →
      i < (listAt req.reqId newCpuBlockIds).length ∧ i < group.length

section
variable {w w' : World n}

theorem lookup_of_isSome {β : Type} {d : List (RequestId × β)} (h : (dictGet key d).isSome) :
    ∃ value, lookup key d = .ok value := by
  obtain ⟨value, hv⟩ := Option.isSome_iff_exists.mp h
  exact ⟨value, by rw [lookup, hv]; rfl⟩

section
variable (h : Bindable cfg w output newCpuBlockIds)
include h

theorem newReqMeta_total {req : NewRequestData}
    (hreq : req ∈ output.scheduledNewReqs) : ∃ en, w.scheduler.newReqMeta output newCpuBlockIds req = .ok en ∧
      en.2.IdsOnly ∧ en.2.Covered cfg := by
  obtain ⟨group, groups, numGpu, hbl, hng, hco⟩ := h.covered req hreq
  obtain ⟨ts, htok⟩ := lookup_of_isSome (h.counted _ (mem_append_left _ (mem_map_of_mem hreq)))
  obtain ⟨numCpu, hnc⟩ := lookup_of_isSome (h.matched req hreq)
  have hng : lookup req.reqId w.scheduler.numGpuComputedTokens = .ok numGpu := by rw [lookup, hng]; rfl
  have hgr : firstGroup req.blockIds = .ok group := by rw [hbl]; rfl
  refine ⟨_, bind_ok.mpr ⟨group, hgr, bind_ok.mpr ⟨ts, htok, bind_ok.mpr ⟨numGpu, hng,
    bind_ok.mpr ⟨numCpu, hnc, rfl⟩⟩⟩⟩, ?_, ?_⟩
  · intro en hen
    obtain ⟨blk, -, rfl⟩ := mem_map.mp hen
    exact ⟨blk, rfl⟩
  · intro i hge hlt
    rw [length_map]
    exact hco i hge hlt

theorem cachedReqMeta_total {req : CachedRequest} (hr : req ∈ output.scheduledCachedReqs) :
    ∃ en, cachedReqMeta output newCpuBlockIds req = .ok en ∧ en.2.IdsOnly ∧ en.2.Covered cfg := by
  obtain ⟨ts, ht⟩ := lookup_of_isSome (h.counted _ (mem_append_right _ (mem_map_of_mem hr)))
  refine ⟨_, bind_ok.mpr ⟨ts, ht, rfl⟩, ?_, ?_⟩
  · intro en he
    rw [h.noNewBlocks req hr] at he
    cases he
  · -- the range of blocks to load is empty
    intro i hge hlt
    exact absurd hlt (Nat.not_lt.mpr hge)

theorem buildConnectorMeta_total :
    ∃ md, w.scheduler.buildConnectorMeta output newCpuBlockIds = .ok ({}, md) ∧
      md.requests.map Prod.fst = scheduledIds output ∧
      md.finishedReqIds = w.scheduler.finishedReqIds.dedup ∧
      ∀ en ∈ md.requests, en.2.IdsOnly ∧ en.2.Covered cfg := by
  obtain ⟨newReqs, hnew, -⟩ := mapM_forall₂ fun req hreq => newReqMeta_total h hreq
  obtain ⟨cr, hca, -⟩ := mapM_forall₂ fun req hreq => cachedReqMeta_total h hreq
  have hbu : ∃ md, w.scheduler.buildConnectorMeta output newCpuBlockIds = .ok ({}, md) :=
    ⟨_, bind_ok.mpr ⟨newReqs, hnew, bind_ok.mpr ⟨cr, hca, rfl⟩⟩⟩
  obtain ⟨md, hbu⟩ := hbu
  obtain ⟨hid, het⟩ := metadata_of_nodup hbu h.nodup
  refine ⟨md, hbu, hid, (buildConnectorMeta_ok hbu).2.1, fun en hen => ?_⟩
  rcases het en hen with ⟨req, hreq, hme⟩ | ⟨req, hreq, hme⟩
  · obtain ⟨entry', hme', hpl⟩ := newReqMeta_total h hreq
    rwa [Except.ok.inj (hme.symm.trans hme')]
  · obtain ⟨entry', hme', hpl⟩ := cachedReqMeta_total h hreq
    rwa [Except.ok.inj (hme.symm.trans hme')]

theorem bind_total (hi : ∀ rank, (w.workers rank).IdsOnly) :
    ∃ w', w.bind cfg output newCpuBlockIds = .ok w' ∧ ∀ rank, (w'.workers rank).IdsOnly := by
  obtain ⟨md, hb, -, -, he⟩ := buildConnectorMeta_total h
  choose workers hw hi using fun rank => Worker.bindConnectorMetadata_total (hi rank) he
  exact ⟨_, bind_ok.mpr ⟨_, hb, bind_ok.mpr ⟨workers, collect_ok hw, rfl⟩⟩, hi⟩

end

theorem getFinished_total (cfg : Config) (hlo : Lockstep w trk qd) (hid : ∀ rank, (w.workers rank).IdsOnly)
    (hqu : ∀ r ∈ qd, r ∈ trk) : ∃ w', w.getFinished cfg = .ok w' ∧ ∀ rank, (w'.workers rank).IdsOnly := by
  have hdr : ∀ rank : Fin (n + 1), ∃ drained, (w.workers rank).drainSaves cfg rank (n + 1) = .ok drained := by
    intro rank
    have hkn : ∀ en ∈ (w.workers rank).saveInputQueue, en.1 ∈ (w.workers rank).requests.map Prod.fst := by
      intro en hen
      rw [hlo.requests]
      exact hqu _ (hlo.queue rank ▸ mem_map_of_mem hen)
    obtain ⟨w', done, h⟩ := Worker.drainSaves_total cfg rank (n + 1) (hid rank) (hlo.output rank) hkn
    exact ⟨_, h⟩
  choose drained hdi using hdr
  have hget : ∃ w', w.getFinished cfg = .ok w' := ⟨_, bind_ok.mpr ⟨drained, collect_ok hdi, rfl⟩⟩
  obtain ⟨w', hget⟩ := hget
  obtain ⟨-, hwo, -⟩ := hlo.getFinished hget
  refine ⟨w', hget, fun rank => ?_⟩
  rw [hwo]
  refine ⟨fun en hen => (hid rank).requests en (mem_of_mem_filter hen), ?_, ?_⟩
  · intro en hen; cases hen
  · intro pair hpa; cases hpa

end

/-! ## The balance -/

def World.waiting (w : World n) : List RequestId :=
  w.scheduler.finishedReqIds ++ (w.workers 0).saveInputQueue.map Prod.fst

/-- A request finishes once; it then waits, or it is reported; once reported, its slots are in flight or freed. -/
structure Accounted (w : World n) : Prop where
  once : w.finished.Nodup
  finished : w.finished.Perm (w.waiting ++ w.reported)
  reported : w.reported.Perm (w.inFlight ++ w.freed)
  reqToFree : w.reqToFree.Perm (w.waiting ++ w.inFlight)

/-- What the scheduler may do: a request finishes once, and when all ranks have a record of it. -/
def Allowed (cfg : Config) (w : World n) : Event → Prop
  | .finished r => r ∉ w.finished ∧ ∀ rank, (dictGet r (w.workers rank).requests).isSome
  | .bind output newCpuBlockIds => Bindable cfg w output newCpuBlockIds
  | _ => True

structure Balanced (w : World n) (tracked queued : List RequestId) : Prop where
  lockstep : Lockstep w tracked queued
  ids : ∀ rank, (w.workers rank).IdsOnly
  accounted : Accounted w
  waiting : ∀ r ∈ w.waiting, r ∈ tracked

section
variable {w w' : World n}

theorem Lockstep.waiting_eq (h : Lockstep w trk qd) : w.waiting = w.scheduler.finishedReqIds ++ qd := by
  rw [World.waiting, h.queue]

theorem Accounted.nodup_waiting (h : Accounted w) : w.waiting.Nodup :=
  (nodup_append.mp (h.finished.nodup_iff.mp h.once)).1

theorem mem_foldl_addKey : ∀ {ids trk : List RequestId}, r ∈ trk → r ∈ ids.foldl addKey trk
  | [], _, h => h
  | id :: ids, trk, h => by
    rw [foldl_cons]
    apply mem_foldl_addKey
    unfold addKey
    split
    · exact h
    · exact mem_append_left _ h

theorem Balanced.finish (h : Balanced w trk qd) (hr : r ∉ w.finished)
    (ht : ∀ rank, (dictGet r (w.workers rank).requests).isSome) :
    Balanced { w with
      scheduler := w.scheduler.requestFinished r
      reqToFree := if r ∈ w.reqToFree then w.reqToFree else w.reqToFree ++ [r]
      finished := w.finished ++ [r] } trk qd := by
  have hm : r ∈ trk := by
    rw [← h.lockstep.requests 0]
    exact dictGet_isSome.mp (ht 0)
  have hf : r ∉ w.reqToFree := by
    intro hf
    refine hr (h.accounted.finished.mem_iff.mpr ?_)
    rcases mem_append.mp (h.accounted.reqToFree.mem_iff.mp hf) with hw | hfl
    · exact mem_append_left _ hw
    · exact mem_append_right _ (h.accounted.reported.mem_iff.mpr (mem_append_left _ hfl))
  refine ⟨⟨h.lockstep.nodup, h.lockstep.requests, h.lockstep.queue, h.lockstep.output, h.lockstep.counts,
    h.lockstep.remaining⟩, h.ids, ⟨?_, ?_, h.accounted.reported, ?_⟩, ?_⟩
  · exact h.accounted.once.append (nodup_singleton r) (by simpa using hr)
  · refine perm_iff_count.mpr fun a => ?_
    have hc := h.accounted.finished.count_eq a
    simp only [World.waiting, requestFinished, count_append] at hc ⊢
    omega
  · rw [if_neg hf]
    refine perm_iff_count.mpr fun a => ?_
    have hc := h.accounted.reqToFree.count_eq a
    simp only [World.waiting, requestFinished, count_append] at hc ⊢
    omega
  · intro r' hr'
    simp only [World.waiting, requestFinished, mem_append, mem_singleton] at hr'
    rcases hr' with (hr' | rfl) | hr'
    · exact h.waiting r' (mem_append_left _ hr')
    · exact hm
    · exact h.waiting r' (mem_append_right _ hr')

theorem Balanced.bind (h : Balanced w trk qd) (hbind : Bindable cfg w output newCpuBlockIds) :
    ∃ w' trk' qd', w.bind cfg output newCpuBlockIds = .ok w' ∧ Balanced w' trk' qd' ∧
      w'.finished = w.finished ∧ w'.scheduler.finishedReqIds = [] := by
  obtain ⟨w', hw', hid⟩ := bind_total hbind h.ids
  obtain ⟨md, hbu, -, heq, hlo⟩ := h.lockstep.bind hw'
  have hpe : w.scheduler.finishedReqIds.Nodup := (nodup_append.mp h.accounted.nodup_waiting).1
  have hqu : md.finishedReqIds.filter (· ∈ (md.requests.map Prod.fst).foldl addKey trk) =
      w.scheduler.finishedReqIds := by
    rw [(buildConnectorMeta_ok hbu).2.1, hpe.dedup]
    refine filter_eq_self.mpr fun r hr => decide_eq_true (mem_foldl_addKey ?_)
    exact h.waiting r (mem_append_left _ hr)
  rw [hqu] at hlo
  have hwa : w'.waiting = qd ++ w.scheduler.finishedReqIds := by rw [hlo.waiting_eq, heq]; rfl
  have hperm : w'.waiting.Perm w.waiting := by
    rw [hwa, h.lockstep.waiting_eq]
    exact perm_append_comm
  refine ⟨w', _, _, hw', ⟨hlo, hid, ⟨?_, ?_, ?_, ?_⟩, ?_⟩, by rw [heq], by rw [heq]⟩
  · rw [heq]; exact h.accounted.once
  · refine List.Perm.trans ?_ (hperm.symm.append_right _)
    rw [heq]; exact h.accounted.finished
  · rw [heq]; exact h.accounted.reported
  · refine List.Perm.trans ?_ (hperm.symm.append_right _)
    rw [heq]; exact h.accounted.reqToFree
  · intro r hr
    exact mem_foldl_addKey (h.waiting r (hperm.mem_iff.mp hr))

theorem Balanced.getFinished (cfg : Config) (hn : 0 < n) (h : Balanced w trk qd) :
    ∃ w' trk', w.getFinished cfg = .ok w' ∧ Balanced w' trk' [] ∧
      w'.finished = w.finished ∧ w'.scheduler = w.scheduler := by
  have hnod := h.accounted.nodup_waiting
  rw [h.lockstep.waiting_eq] at hnod
  have hwi : ∀ r ∈ w.scheduler.finishedReqIds ++ qd, r ∈ trk := h.lockstep.waiting_eq ▸ h.waiting
  obtain ⟨w', hw', hid⟩ := getFinished_total cfg h.lockstep h.ids fun r hr =>
    hwi r (mem_append_right _ hr)
  obtain ⟨hlo, -, heq⟩ := h.lockstep.getFinished hw'
  have hqu := (nodup_append.mp hnod).2.1
  rw [hqu.dedup] at heq hlo
  rw [if_neg (Nat.pos_iff_ne_zero.mp hn)] at heq
  have hwa : w'.waiting = w.scheduler.finishedReqIds := by
    rw [hlo.waiting_eq, append_nil, heq]
  have hfi := h.accounted.finished
  have hfree := h.accounted.reqToFree
  rw [h.lockstep.waiting_eq] at hfi hfree
  refine ⟨w', _, hw', ⟨hlo, hid, ⟨?_, ?_, ?_, ?_⟩, ?_⟩, by rw [heq], by rw [heq]⟩
  · rw [heq]; exact h.accounted.once
  · rw [hwa, heq]
    refine perm_iff_count.mpr fun a => ?_
    have hco := hfi.count_eq a
    simp only [count_append] at hco ⊢
    omega
  · rw [heq]
    refine perm_iff_count.mpr fun a => ?_
    have hco := h.accounted.reported.count_eq a
    simp only [count_append] at hco ⊢
    omega
  · rw [hwa, heq]
    refine perm_iff_count.mpr fun a => ?_
    have hco := hfree.count_eq a
    simp only [count_append] at hco ⊢
    omega
  · intro r hr
    rw [hwa] at hr
    refine mem_filter.mpr ⟨hwi r (mem_append_left _ hr), decide_eq_true fun hmem => ?_⟩
    exact (nodup_append.mp hnod).2.2 r hr r hmem rfl

theorem Balanced.cacheAndFreeSlots (h : Balanced w trk qd) : Balanced w.cacheAndFreeSlots trk qd := by
  unfold World.cacheAndFreeSlots
  split
  · exact h
  rename_i r inFlight hfl
  have hr := h.accounted.reported
  have hf := h.accounted.reqToFree
  rw [hfl] at hr hf
  refine ⟨⟨h.lockstep.nodup, h.lockstep.requests, h.lockstep.queue, h.lockstep.output, h.lockstep.counts,
    h.lockstep.remaining⟩, h.ids, ⟨h.accounted.once, h.accounted.finished, ?_, ?_⟩, h.waiting⟩
  · refine hr.trans (perm_iff_count.mpr fun a => ?_)
    simp only [cons_append, count_cons, count_append, count_nil]
    omega
  · have hc : (w.waiting ++ r :: inFlight).Perm (r :: (w.waiting ++ inFlight)) := perm_middle
    have he := (hf.trans hc).erase r
    rwa [erase_cons_head] at he

theorem Balanced.step (hn : 0 < n) (h : Balanced w trk qd) {event : Event} (ha : Allowed cfg w event) :
    ∃ w', w.step cfg event = .ok w' ∧ ∃ trk' qd', Balanced w' trk' qd' := by
  cases event with
  | matched r numComputedTokens numCpuComputedTokens =>
    exact ⟨_, rfl, trk, qd, ⟨h.lockstep.nodup, h.lockstep.requests, h.lockstep.queue, h.lockstep.output,
      h.lockstep.counts, h.lockstep.remaining⟩, h.ids, ⟨h.accounted.once, h.accounted.finished, h.accounted.reported,
      h.accounted.reqToFree⟩, h.waiting⟩
  | finished r => exact ⟨_, rfl, trk, qd, h.finish ha.1 ha.2⟩
  | bind output newCpuBlockIds =>
    obtain ⟨w', trk', qd', hw', h', -⟩ := h.bind ha
    exact ⟨w', hw', trk', qd', h'⟩
  | getFinished =>
    obtain ⟨w', trk', hw', h', -⟩ := h.getFinished cfg hn
    exact ⟨w', hw', trk', [], h'⟩
  | cacheAndFreeSlots => exact ⟨_, rfl, trk, qd, h.cacheAndFreeSlots⟩

theorem Balanced.freeAll (cfg : Config) : ∀ (k : Nat) {w : World n}, Balanced w trk [] → w.scheduler.finishedReqIds = [] →
    w.inFlight.length ≤ k → ∃ w', (replicate k Event.cacheAndFreeSlots).foldlM (World.step cfg) w = .ok w' ∧
      Balanced w' trk [] ∧ w'.scheduler.finishedReqIds = [] ∧ w'.finished = w.finished ∧ w'.inFlight = []
  | 0, w, h, hp, hk => ⟨w, rfl, h, hp, rfl, length_eq_zero_iff.mp (Nat.le_zero.mp hk)⟩
  | k + 1, w, h, hp, hk => by
    have hc : w.cacheAndFreeSlots.scheduler = w.scheduler ∧ w.cacheAndFreeSlots.finished = w.finished ∧
        w.cacheAndFreeSlots.inFlight = w.inFlight.tail := by
      unfold World.cacheAndFreeSlots
      split
      · rename_i hf; simp [hf]
      · rename_i hf; simp [hf]
    obtain ⟨hs, hfi, hf⟩ := hc
    obtain ⟨w', hr, h', hp', hfi', hf'⟩ := Balanced.freeAll cfg k h.cacheAndFreeSlots
      (by rw [hs, hp]) (by rw [hf, length_tail]; omega)
    exact ⟨w', hr, h', hp', hfi'.trans hfi, hf'⟩

def settle (w : World n) : List Event :=
  [.bind {} [], .getFinished] ++ List.replicate w.finished.length .cacheAndFreeSlots

theorem Balanced.settle (hn : 0 < n) (h : Balanced w trk qd) :
    ∃ w', (settle w).foldlM (World.step cfg) w = .ok w' ∧
      w'.reported.Perm w.finished ∧ w'.freed.Perm w.finished ∧ w'.reqToFree = [] := by
  have hem : Bindable cfg w {} [] := by
    refine ⟨nodup_nil, ?_, ?_, ?_, ?_⟩
    all_goals intro r hr; cases hr
  obtain ⟨w₁, tracked1, queued1, hbind, h₁, hfi1, hpe1⟩ := h.bind hem
  obtain ⟨w₂, tracked2, hget, h₂, hfi2, hsc2⟩ := h₁.getFinished cfg hn
  have hpe2 : w₂.scheduler.finishedReqIds = [] := by rw [hsc2, hpe1]
  have hlen : w₂.inFlight.length ≤ w.finished.length := by
    rw [← hfi1, ← hfi2, h₂.accounted.finished.length_eq, length_append, h₂.accounted.reported.length_eq, length_append]
    omega
  obtain ⟨w', hfree, h', hpe', hfi', hfl'⟩ := Balanced.freeAll cfg _ h₂ hpe2 hlen
  have hwa : w'.waiting = [] := by rw [h'.lockstep.waiting_eq, hpe']; rfl
  have hfi := h'.accounted.finished
  have hre := h'.accounted.reported
  have hrt := h'.accounted.reqToFree
  rw [hwa, nil_append, hfi', hfi2, hfi1] at hfi
  rw [hfl', nil_append] at hre
  rw [hwa, hfl'] at hrt
  refine ⟨w', ?_, hfi.symm, (hfi.trans hre).symm, hrt.eq_nil⟩
  have hst : ([.bind {} [], .getFinished] : List Event).foldlM (World.step cfg) w = .ok w₂ :=
    bind_ok.mpr ⟨w₁, hbind, bind_ok.mpr ⟨w₂, hget, rfl⟩⟩
  rw [VllmAscend.Offload.settle, foldlM_append, hst]
  exact hfree

end

/-- From two ranks on, if requests finish once and with a record on all ranks. -/
theorem finish_accounting (hn : 0 < n) (cfg : Config) (events : List Event)
    (hallowed : GuardedM (World.step cfg) (Allowed cfg) ({} : World n) events) :
    ∃ w, events.foldlM (World.step cfg) ({} : World n) = .ok w ∧ Accounted w ∧
      (w.waiting = [] → w.inFlight = [] → w.reqToFree = []) ∧
      ∃ w', (settle w).foldlM (World.step cfg) w = .ok w' ∧
        w'.reported.Perm w.finished ∧ w'.freed.Perm w.finished ∧ w'.reqToFree = [] := by
  have hii : Balanced ({} : World n) [] [] := by
    refine ⟨lockstep_init, fun _ => ⟨?_, ?_, ?_⟩, ⟨nodup_nil, .refl _, .refl _, .refl _⟩, ?_⟩
    all_goals intro r hr; cases hr
  obtain ⟨w, hrun, tracked, queued, h⟩ := GuardedM.total
    (P := fun w : World n => ∃ tracked queued, Balanced w tracked queued)
    (fun w event ⟨tracked, queued, h⟩ hev => h.step hn hev) ⟨[], [], hii⟩ hallowed
  refine ⟨w, hrun, h.accounted, fun hwa hfl => ?_, h.settle hn⟩
  have hfree := h.accounted.reqToFree
  rw [hwa, hfl] at hfree
  exact hfree.eq_nil

theorem finish_accounting_shortRun : ∃ w : World 1, shortRun.foldlM (World.step ⟨16, false, 0⟩) {} = .ok w ∧
    w.finished = [0] ∧ Accounted w := by
  have hall : GuardedM (World.step ⟨16, false, 0⟩) (Allowed ⟨16, false, 0⟩) ({} : World 1) shortRun := by
    refine ⟨trivial, fun w₁ h₁ => ?_⟩
    cases h₁
    refine ⟨⟨by decide, by decide, ?_, ?_, ?_⟩, fun w₂ h₂ => ?_⟩
    · intro req hr; cases hr
    · intro req hr; rw [mem_singleton.mp hr]; rfl
    · intro req hr
      rw [mem_singleton.mp hr]
      exact ⟨[1], [], 0, rfl, rfl, fun i _ hi => absurd hi (Nat.not_lt_zero i)⟩
    cases h₂
    refine ⟨trivial, fun w₃ h₃ => ?_⟩
    cases h₃
    refine ⟨⟨by decide, by decide, ?_, ?_, ?_⟩, fun w₄ h₄ => ?_⟩
    · intro req hr; rw [mem_singleton.mp hr]
    · intro req hr; cases hr
    · intro req hr; cases hr
    cases h₄
    refine ⟨⟨by decide, by decide⟩, fun _ _ => trivial⟩
  obtain ⟨w, hrun, ha, -⟩ := finish_accounting (by decide) ⟨16, false, 0⟩ shortRun hall
  refine ⟨w, hrun, ?_, ha⟩
  cases hrun
  rfl

/-- A single rank, a request that finishes before it is scheduled, and a continued request with new blocks. -/
theorem finish_accounting_fails :
    (∃ w : World 0, (shortRun ++ [Event.bind {} [], .getFinished, .cacheAndFreeSlots]).foldlM
        (World.step ⟨16, false, 0⟩) {} = .ok w ∧
        w.reported = [0] ∧ w.waiting = [] ∧ w.inFlight = [] ∧ w.freed = [] ∧ w.reqToFree = [0]) ∧
      (∃ w : World 1, [.matched 0 0 0, .finished 0, .bind {} [], .getFinished, .cacheAndFreeSlots].foldlM
        (World.step ⟨16, false, 0⟩) {} = .ok w ∧
        w.reported = [] ∧ w.waiting = [] ∧ w.inFlight = [] ∧ w.freed = [] ∧ w.reqToFree = [0]) ∧
      raisedBy ([.matched 0 0 0,
        .bind { scheduledNewReqs := [⟨0, [[1]], 0⟩], numScheduledTokens := [(0, 16)] } [(0, [5])], .getFinished,
        .bind { scheduledCachedReqs := [⟨0, some [[2]], 16, false⟩], numScheduledTokens := [(0, 16)] } [(0, [6])],
        .getFinished,
        .bind { scheduledCachedReqs := [⟨0, some [[3]], 32, false⟩], numScheduledTokens := [(0, 16)] } [(0, [7])],
        .finished 0, .bind {} [], .getFinished].foldlM (World.step ⟨16, false, 0⟩) ({} : World 1)) =
        some (.typeError "can only concatenate list (not \"int\") to list") := by
  refine ⟨⟨_, rfl, rfl, rfl, rfl, rfl, rfl⟩, ⟨_, rfl, rfl, rfl, rfl, rfl, rfl⟩, rfl⟩

end VllmAscend.Offload
