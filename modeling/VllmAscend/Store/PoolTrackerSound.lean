import VllmAscend.Store.PoolEngine

/-!
# Accuracy of the request trackers

`tracker_accuracy`: a request whose prefill steps all bring new blocks has a
tracker that counts its computed tokens, and every full chunk of its prompt is
handed to the workers by the step that completes it.
-/

namespace VllmAscend.Store

open Python PoolScheduler PoolConfig List Nat

variable {cfg : PoolConfig} {n m : Nat}

/-! ## What is saved -/

namespace PoolConfig

variable {tr : RequestTracker}

theorem lastChunkTokensNum_of_discard (h : cfg.discardPartialChunks = true) (n : Nat) :
    cfg.lastChunkTokensNum n = n / cfg.cacheTransferGranularity * cfg.cacheTransferGranularity :=
  if_pos h

theorem lastChunkTokensNum_mono (h : n ≤ m) : cfg.lastChunkTokensNum n ≤ cfg.lastChunkTokensNum m := by
  unfold lastChunkTokensNum floorToCacheTransferGranularity
  split
  · exact Nat.mul_le_mul_right _ (Nat.div_le_div_right h)
  · exact h

theorem lastChunkTokensNum_le : cfg.lastChunkTokensNum n ≤ n := by
  unfold lastChunkTokensNum floorToCacheTransferGranularity
  split
  · exact div_mul_le_self _ _
  · exact le_refl _

theorem cdiv_mul_succ (hg : 0 < g) : ceilDiv (k * g + 1) g * g = k * g + g := by
  have : (k * g + 1 + g - 1) / g = k + 1 := by
    rw [show k * g + 1 + g - 1 = g * (k + 1) from by rw [Nat.mul_comm g, Nat.add_mul]; omega]
    exact Nat.mul_div_cancel_left _ hg
  rw [ceilDiv, this, Nat.add_mul, Nat.one_mul]

section
variable (hg : 0 < cfg.cacheTransferGranularity) (hsa : tr.numSavedTokens = cfg.lastChunkTokensNum n) (hle : n ≤ tr.tokenLen)
include hg hsa hle

theorem saves_or_eq : cfg.Saves tr false ∨ cfg.lastChunkTokensNum tr.tokenLen = tr.numSavedTokens := by
  by_cases hs : cfg.Saves tr false
  · exact .inl hs
  right
  rw [Saves, not_and, not_le] at hs
  have hlt := hs rfl
  rw [chunkBoundary] at hlt
  split at hlt
  · next hd =>
    rw [hsa, lastChunkTokensNum_of_discard hd, lastChunkTokensNum_of_discard hd, cdiv_mul_succ hg] at hlt
    rw [hsa, lastChunkTokensNum_of_discard hd, lastChunkTokensNum_of_discard hd]
    have hdiv : tr.tokenLen / cfg.cacheTransferGranularity < n / cfg.cacheTransferGranularity + 1 := by
      refine Nat.lt_of_mul_lt_mul_right (a := cfg.cacheTransferGranularity) ?_
      rw [Nat.add_mul, Nat.one_mul]
      exact hlt
    have hdiv' := Nat.div_le_div_right (c := cfg.cacheTransferGranularity) hle
    rw [Nat.le_antisymm (Nat.lt_succ_iff.mp hdiv) hdiv']
  · exact absurd hlt (Nat.not_lt_zero _)

theorem metaOf_saved :
    (cfg.metaOf tr loadSpec false hashes last).1.numSavedTokens = cfg.lastChunkTokensNum tr.tokenLen := by
  by_cases hs : cfg.Saves tr false
  · rw [metaOf_of_saves hs]
  · rw [metaOf_of_not_saves hs]
    exact ((saves_or_eq hg hsa hle).resolve_left hs).symm

end

end PoolConfig

theorem exists_handed {P : ReqMeta → Prop} (hP : ∀ m, P m.strip ↔ P m) :
    (∃ m ∈ l, m.reqId = r ∧ P m) ↔ ∃ x ∈ handedTo r l, P x := by
  constructor
  · rintro ⟨m, hm, hr, hPm⟩
    exact ⟨m.strip, mem_handedTo.mpr ⟨m, hm, hr, rfl⟩, (hP m).mpr hPm⟩
  · rintro ⟨x, hx, hPx⟩
    obtain ⟨m, hm, hr, rfl⟩ := mem_handedTo.mp hx
    exact ⟨m, hm, hr, (hP m).mp hPx⟩

namespace World

variable {w w' : World} {r : RequestId} {out : SchedulerOutput} {pool : PoolScheduler} {md : Metadata} {E : Prop}

/-! ## The conditions -/

/-- The pool is one that saves, and every prefill step of the request brings new blocks. -/
def Steady (cfg : PoolConfig) (r : RequestId) (w : World) : Event → Prop
  | .build out => cfg.forceSkipSave = false ∧ ∀ q ∈ out.scheduledCachedReqs, q.reqId = r →
      (w.requests r).numComputedTokens < (w.requests r).promptLen → q.newBlockIds ≠ none
  | _ => True

def Early (cfg : PoolConfig) (r : RequestId) (w : World) : Event → Prop
  | .build out => r ∈ out.scheduledIds →
      (r ∉ w.running → (w.requests r).numComputedTokens < (w.requests r).promptLen) ∧
      (cfg.discardPartialChunks = true → (w.requests r).numComputedTokens < (w.requests r).promptLen →
        cfg.cacheTransferGranularity ≤ (w.requests r).promptLen ∧
        ((w.requests r).numComputedTokens + out.numScheduledTokens r < cfg.lastChunkTokensNum (w.requests r).promptLen ∨
          (w.requests r).promptLen ≤ (w.requests r).numComputedTokens + out.numScheduledTokens r))
  | _ => True

structure Accurate (cfg : PoolConfig) (r : RequestId) (E : Prop) (w : World) : Prop where
  counts : r ∈ w.running → (w.requests r).numComputedTokens ≤ (w.requests r).promptLen →
    ∃ tr, dictGet r w.pool.requestTrackers = some tr ∧ tr.tokenLen = (w.requests r).numComputedTokens ∧
      tr.numSavedTokens = cfg.lastChunkTokensNum (w.requests r).numComputedTokens
  logged : r ∈ w.running → (w.requests r).numComputedTokens ≤ (w.requests r).promptLen →
    0 < cfg.lastChunkTokensNum (w.requests r).numComputedTokens → ∃ m ∈ w.metas, m.reqId = r ∧ m.canSave = true ∧
      m.tokenLenChunk = cfg.lastChunkTokensNum (w.requests r).numComputedTokens
  early : E → cfg.discardPartialChunks = true → r ∈ w.running →
    (w.requests r).numComputedTokens < (w.requests r).promptLen →
    (w.requests r).numComputedTokens < cfg.lastChunkTokensNum (w.requests r).promptLen

theorem Accurate.congr (hac : Accurate cfg r E w) (hreq : w'.requests r = w.requests r)
    (hrun : r ∈ w'.running → r ∈ w.running) (hme : ∀ m ∈ w.metas, m ∈ w'.metas)
    (htr : r ∈ w'.running → dictGet r w'.pool.requestTrackers = dictGet r w.pool.requestTrackers) :
    Accurate cfg r E w' := by
  refine ⟨fun hr hle => ?_, fun hr hle hpos => ?_, fun hE hdi hr => ?_⟩
  · rw [hreq] at hle ⊢
    rw [htr hr]
    exact hac.counts (hrun hr) hle
  · rw [hreq] at hle hpos ⊢
    obtain ⟨m, hm, hfi⟩ := hac.logged (hrun hr) hle hpos
    exact ⟨m, hme m hm, hfi⟩
  · rw [hreq]
    exact hac.early hE hdi (hrun hr)

/-! ## One step -/

section
variable (hi : Inv cfg w) (ha : w.AllowedBuild out) (hst : w.Steady cfg r (.build out))
  (hok : w.pool.buildConnectorMeta cfg w.requests out = .ok (pool, md))
include hi ha hst hok

section
variable (hg : 0 < cfg.cacheTransferGranularity) (hac : Accurate cfg r E w) (hr : r ∈ out.scheduledIds)
  (hpr : (w.requests r).numComputedTokens < (w.requests r).promptLen)
include hac hr hpr

theorem Accurate.spoken : ∃ tr spec n, tr.tokenLen = (w.requests r).numComputedTokens + out.numScheduledTokens r ∧
      tr.numSavedTokens = cfg.lastChunkTokensNum n ∧
      (n = 0 ∧ r ∉ w.running ∨ n = (w.requests r).numComputedTokens ∧ r ∈ w.running) ∧
      PoolScheduler.Spoken pool md r (cfg.metaOf tr spec false (w.requests r).blockHashes
        (isLastChunk cfg tr (w.requests r).promptLen)) := by
  obtain ⟨hfo, hbl⟩ := hst
  have hcl := ha.notGone hr
  have hpe := hi.clean_preempted hfo hcl
  have hzero : (0 : Nat) = cfg.lastChunkTokensNum 0 := (le_zero.mp lastChunkTokensNum_le).symm
  rcases mem_scheduledIds.mp hr with ⟨q, hq, rfl⟩ | ⟨q, hq, rfl⟩
  · obtain ⟨⟨spec, hsp⟩, -, -⟩ := build_new_spec hok hi.keyed ha.nodup hq
    obtain ⟨hnew, -, hpo, hco, -⟩ := ha.new q hq
    rw [hfo, hpo, hco] at hsp
    exact ⟨_, spec, 0, rfl, hzero, .inl ⟨rfl, hnew⟩, hsp⟩
  · obtain ⟨hco, hsta, hkn⟩ := ha.cached q hq
    obtain ⟨bs, hsome⟩ := Option.ne_none_iff_exists'.mp (hbl q hq rfl hpr)
    by_cases hrun : q.reqId ∈ w.running
    · obtain ⟨tr, htr, hlen, hsa⟩ := hac.counts hrun (le_of_lt hpr)
      have hnot := hi.notPreempted hfo hcl hrun
      obtain ⟨hsp, -, -⟩ := build_running_spec hok hi.keyed ha.nodup hq hfo hsome hnot
        ((Inv.clean_tracker hcl).trans htr)
      rw [if_neg (by rw [hco]; exact not_le.mpr hpr), hfo] at hsp
      refine ⟨(grown w.requests out.numScheduledTokens tr q.reqId).update bs
        (w.requests q.reqId).numComputedTokens, none, _, ?_, hsa, .inr ⟨rfl, hrun⟩, hsp⟩
      show tr.tokenLen + min (out.numScheduledTokens q.reqId) ((w.requests q.reqId).numTokens - tr.tokenLen) = _
      omega
    · obtain ⟨hre, -⟩ := hsta.resolve_left hrun
      obtain ⟨⟨spec, hsp⟩, -, -⟩ := build_resumed_spec hok hi.keyed ha.nodup hq hfo hsome (hpe.mpr hre)
      rw [hfo] at hsp
      exact ⟨_, spec, 0, rfl, hzero, .inl ⟨rfl, hrun⟩, hsp⟩

include hg

theorem Accurate.prefill :
    let done := (w.requests r).numComputedTokens + out.numScheduledTokens r
    (∃ tr, dictGet r pool.requestTrackers = some tr ∧ tr.tokenLen = done ∧
      tr.numSavedTokens = cfg.lastChunkTokensNum done) ∧
    (0 < cfg.lastChunkTokensNum done → ∃ m ∈ w.metas ++ md.requests, m.reqId = r ∧ m.canSave = true ∧
      m.tokenLenChunk = cfg.lastChunkTokensNum done) := by
  intro done
  obtain ⟨tr, spec, n, hlen, hsa, hn, hsp⟩ := hac.spoken hi ha hst hok hr hpr
  have hle : n ≤ tr.tokenLen := by rcases hn with ⟨rfl, -⟩ | ⟨rfl, -⟩ <;> omega
  refine ⟨⟨_, hsp.tracker, metaOf_tokenLen.trans hlen, ?_⟩, fun hpos => ?_⟩
  · rw [metaOf_saved hg hsa hle, hlen]
  · by_cases hse : cfg.Saves tr false
    · have hme := hsp.handed
      rw [metaOf_of_saves hse] at hme
      have hin : cfg.metaWith tr spec true (w.requests r).blockHashes
          (isLastChunk cfg tr (w.requests r).promptLen) ∈ handedTo r md.requests := by
        rw [hme]
        exact mem_singleton_self _
      obtain ⟨m, hm, hmr, hfi⟩ := (exists_handed (P := fun m => m.canSave = true ∧
          m.tokenLenChunk = cfg.lastChunkTokensNum done) fun _ => Iff.rfl).mpr
        ⟨_, hin, rfl, congrArg cfg.lastChunkTokensNum hlen⟩
      exact ⟨m, mem_append_right _ hm, hmr, hfi⟩
    · -- Nothing new: the same chunks were saved before the step.
      have heq := (saves_or_eq hg hsa hle).resolve_left hse
      rw [hlen, hsa] at heq
      rw [show done = _ from rfl, heq] at hpos ⊢
      rcases hn with ⟨rfl, -⟩ | ⟨rfl, hrun⟩
      · exact absurd hpos (not_lt.mpr lastChunkTokensNum_le)
      · obtain ⟨m, hm, hfi⟩ := hac.logged hrun (le_of_lt hpr) hpos
        exact ⟨m, mem_append_left _ hm, hfi⟩

theorem Accurate.marked (hE : E) (hea : w.Early cfg r (.build out)) :
    (∃ m ∈ md.requests, m.reqId = r ∧ m.isLastChunk = some true) ↔
      (w.requests r).promptLen ≤ (w.requests r).numComputedTokens + out.numScheduledTokens r := by
  obtain ⟨tr, spec, n, hlen, hsa, hn, hsp⟩ := hac.spoken hi ha hst hok hr hpr
  have hle : n ≤ tr.tokenLen := by rcases hn with ⟨rfl, -⟩ | ⟨rfl, -⟩ <;> omega
  rw [exists_handed (P := fun m => m.isLastChunk = some true) fun _ => Iff.rfl, hsp.handed, ← hlen]
  have hlast : isLastChunk cfg tr (w.requests r).promptLen = some true ↔
      cfg.lastChunkTokensNum (w.requests r).promptLen ≤ tr.tokenLen := by
    simp [isLastChunk]
  constructor
  · rintro ⟨x, hx, hma⟩
    obtain ⟨canSave, -, rfl⟩ := metaOf_meta (Option.mem_toList.mp hx)
    have hre := hlast.mp hma
    cases hdi : cfg.discardPartialChunks with
    | true =>
      have := ((hea hr).2 hdi hpr).2
      omega
    | false =>
      rw [lastChunkTokensNum, hdi] at hre
      exact hre
  · intro hdone
    have hre := hlast.mpr (le_trans lastChunkTokensNum_le hdone)
    have hse : cfg.Saves tr false := by
      cases hdi : cfg.discardPartialChunks with
      | false =>
        refine ⟨rfl, ?_⟩
        rw [chunkBoundary, hdi]
        exact zero_le _
      | true =>
        -- What was saved before ends below the last boundary of the prompt.
        refine (saves_or_eq hg hsa hle).resolve_right fun heq => ?_
        have hmo := @lastChunkTokensNum_mono cfg _ _ hdone
        have hn' : cfg.lastChunkTokensNum n ≤ n := lastChunkTokensNum_le
        rcases hn with ⟨rfl, -⟩ | ⟨rfl, hrun⟩
        · have hfu := ((hea hr).2 hdi hpr).1
          have hch := @lastChunkTokensNum_mono cfg _ _ hfu
          rw [lastChunkTokensNum_of_discard hdi cfg.cacheTransferGranularity, Nat.div_self hg, Nat.one_mul] at hch
          omega
        · have := hac.early hE hdi hrun hpr
          omega
    rw [metaOf_of_saves hse]
    exact ⟨_, mem_singleton_self _, hre⟩

end

theorem Accurate.unmarked (hea : w.Early cfg r (.build out))
    (hr : r ∉ out.scheduledIds ∨ (w.requests r).promptLen ≤ (w.requests r).numComputedTokens) :
    ¬ ∃ m ∈ md.requests, m.reqId = r ∧ m.isLastChunk = some true := by
  rw [exists_handed (P := fun m => m.isLastChunk = some true) fun _ => Iff.rfl]
  rintro ⟨x, hx, hma⟩
  by_cases hs : r ∈ out.scheduledIds
  · -- A request behind its prompt goes on running, and nothing is said of it.
    have hde := hr.resolve_left (not_not.mpr hs)
    have hrun : r ∈ w.running := by
      by_contra hnot
      exact not_lt.mpr hde ((hea hs).1 hnot)
    have hcl := ha.notGone hs
    rcases mem_scheduledIds.mp hs with ⟨q, hq, rfl⟩ | ⟨q, hq, rfl⟩
    · exact absurd hrun (ha.new q hq).1
    cases hbl : q.newBlockIds with
    | none =>
      rw [(build_passed hok hi.keyed ha.nodup hq hst.1 hbl).2] at hx
      exact absurd hx not_mem_nil
    | some bs =>
      have hnot := hi.notPreempted hst.1 hcl hrun
      obtain ⟨tr, htr, -⟩ := (hi.tracked hst.1 _ hrun).tracker
      obtain ⟨hsp, -, -⟩ := build_running_spec hok hi.keyed ha.nodup hq hst.1 hbl
        hnot ((Inv.clean_tracker hcl).trans htr)
      rw [if_pos ((ha.cached q hq).1 ▸ hde)] at hsp
      rw [hsp.handed] at hx
      exact absurd hx not_mem_nil
  · rw [SchedulerOutput.scheduledIds, mem_append, not_or] at hs
    obtain ⟨s2, waiting, -, -, hwa, hha⟩ := build_unscheduled hok hi.keyed hs.1 (.inr hs.2)
    rw [hha] at hx
    obtain ⟨m, hm, -, rfl⟩ := mem_handedTo.mp hx
    rw [show m.strip.isLastChunk = m.isLastChunk from rfl, (waiting_meta hwa m hm).2] at hma
    cases hma

/-! ## Runs -/

theorem Accurate.built (hg : 0 < cfg.cacheTransferGranularity) (hac : Accurate cfg r E w)
    (hea : E → w.Early cfg r (.build out)) : Accurate cfg r E (w.built out pool md) := by
  by_cases hs : r ∈ out.scheduledIds
  · obtain ⟨hco, hpr⟩ : ((w.built out pool md).requests r).numComputedTokens = _ ∧
        ((w.built out pool md).requests r).promptLen = _ := advance_of_mem w.requests hs
    have hpos := (ha.present r hs).2.2
    have hstep := fun hlt => hac.prefill hi ha hst hok hg hs hlt
    constructor <;> rw [hco, hpr]
    · exact fun _ hle => (hstep (by omega)).1
    · exact fun _ hle => (hstep (by omega)).2
    · intro hE hdi _ hlt
      exact ((hea hE hs).2 hdi (by omega)).2.resolve_right (not_le.mpr hlt)
  · have hrun : r ∈ (w.built out pool md).running →
        r ∈ w.running ∧ r ∉ out.finishedReqIds ∧ r ∉ out.preemptedReqIds := fun hr => (mem_running.mp hr).resolve_right hs
    refine hac.congr (if_neg hs) (fun hr => (hrun hr).1) (fun _ => mem_append_left _) fun hr => ?_
    obtain ⟨hr, hcl⟩ := hrun hr
    have hload := (hi.tracked hst.1 r hr).noLoad
    exact (build_apart hok hi.keyed hs hload).1.tracker.trans (Inv.clean_tracker hcl)

end

variable {requests : RequestId → Request}

theorem Accurate.engine (hac : Accurate cfg r E w)
    (ha : w.Allowed (.engine requests)) : Accurate cfg r E { w with requests } := by
  by_cases hr : r ∈ w.running
  · obtain ⟨hpr, hp, hd⟩ := ha r hr
    by_cases hle : (w.requests r).numComputedTokens ≤ (w.requests r).promptLen
    · refine ⟨?_, ?_, ?_⟩ <;> simp only [hpr, hp hle]
      · exact hac.counts
      · exact hac.logged
      · exact hac.early
    · have hb := hd (not_le.mp hle)
      refine ⟨fun _ h => ?_, fun _ h => ?_, fun _ _ _ h => ?_⟩ <;> simp only at h <;> omega
  · exact ⟨fun h => absurd h hr, fun h => absurd h hr, fun _ _ h => absurd h hr⟩

theorem Accurate.step (hg : 0 < cfg.cacheTransferGranularity) (e : Event) (hac : Accurate cfg r E w) (hi : Inv cfg w)
    (ha : w.Allowed e) (hst : w.Steady cfg r e) (hea : E → w.Early cfg r e) :
    ∃ w', w.step cfg e = .ok w' ∧ Inv cfg w' ∧ Accurate cfg r E w' := by
  obtain ⟨w', hok, hi'⟩ := hi.step e ha
  refine ⟨w', hok, hi', ?_⟩
  cases e with
  | matched r' n hit =>
    cases hok
    obtain ⟨-, htr, -⟩ := @matched_same cfg r' w.pool n (r' + 1) (w.requests r') hit (ne_add_one r')
    exact hac.congr rfl id (fun _ => id) fun _ => congrArg (dictGet r) htr
  | allocated r' blockIds n =>
    obtain ⟨specs, bs, ids, hca, -⟩ := @allocated_ok cfg r' w.pool n blockIds ha.2
    rw [World.step, hca] at hok
    cases hok
    exact hac.congr rfl id (fun _ => id) fun _ => rfl
  | build out =>
    obtain ⟨pool, md, hbu⟩ := hi.build_ok ha
    rw [step_build hbu] at hok
    cases hok
    exact hac.built hi ha hst hbu hg hea
  | engine requests =>
    cases hok
    exact hac.engine ha

theorem accurate_start : Accurate cfg r E (start requests) where
  counts hr := absurd hr not_mem_nil
  logged hr := absurd hr not_mem_nil
  early _ _ hr := absurd hr not_mem_nil

theorem accurate_run (hg : 0 < cfg.cacheTransferGranularity)
    (hrun : Run.GuardedM (World.step cfg) (fun w e => (w.Allowed e ∧ w.Steady cfg r e) ∧ (E → w.Early cfg r e))
      (start requests) (events ++ [.build out])) :
    ∃ w pool md, events.foldlM (World.step cfg) (start requests) = .ok w ∧
      w.pool.buildConnectorMeta cfg w.requests out = .ok (pool, md) ∧ Inv cfg w ∧ Accurate cfg r E w ∧
      w.AllowedBuild out ∧ w.Steady cfg r (.build out) ∧ (E → w.Early cfg r (.build out)) := by
  obtain ⟨w, hfo, ⟨hi, hac⟩, ⟨⟨ha, hst⟩, hea⟩, -⟩ :=
    Run.GuardedM.total_append (P := fun w => Inv cfg w ∧ Accurate cfg r E w)
      (fun _ e hw he => hw.2.step hg e hw.1 he.1.1 he.1.2 he.2) ⟨inv_start, accurate_start⟩ hrun
  obtain ⟨pool, md, hok⟩ := hi.build_ok ha
  exact ⟨w, pool, md, hfo, hok, hi, hac, ha, hst, hea⟩

/-- Where every prefill step brings new blocks and none ends between the last chunk boundary and the prompt's end. -/
theorem tracker_accuracy {requests : RequestId → Request} {events : List Event} (hg : 0 < cfg.cacheTransferGranularity)
    (hrun : Run.GuardedM (World.step cfg) (fun w e => w.Allowed e ∧ w.Steady cfg r e) (start requests)
      (events ++ [.build out])) :
    ∃ w pool md, events.foldlM (World.step cfg) (start requests) = .ok w ∧
      w.pool.buildConnectorMeta cfg w.requests out = .ok (pool, md) ∧
      (r ∈ out.scheduledIds → (w.requests r).numComputedTokens < (w.requests r).promptLen →
        (∃ tr, dictGet r pool.requestTrackers = some tr ∧
          tr.tokenLen = (w.requests r).numComputedTokens + out.numScheduledTokens r) ∧
        ((w.requests r).promptLen ≤ (w.requests r).numComputedTokens + out.numScheduledTokens r →
          0 < cfg.lastChunkTokensNum (w.requests r).promptLen →
          ∃ m ∈ w.metas ++ md.requests, m.reqId = r ∧ m.canSave = true ∧
            cfg.lastChunkTokensNum (w.requests r).promptLen ≤ m.tokenLenChunk)) ∧
      (Run.GuardedM (World.step cfg) (fun w e => w.Early cfg r e) (start requests) (events ++ [.build out]) →
        ((∃ m ∈ md.requests, m.reqId = r ∧ m.isLastChunk = some true) ↔
          r ∈ out.scheduledIds ∧ (w.requests r).numComputedTokens < (w.requests r).promptLen ∧
          (w.requests r).promptLen ≤ (w.requests r).numComputedTokens + out.numScheduledTokens r)) := by
  obtain ⟨w, pool, md, hfo, hok, hi, hac, ha, hst, -⟩ := accurate_run hg (hrun.imp fun _ _ h => ⟨h, False.elim⟩)
  refine ⟨w, pool, md, hfo, hok, fun hr hpr => ?_, fun hea => ?_⟩
  · obtain ⟨⟨tr, htr, hlen, -⟩, hha⟩ := hac.prefill hi ha hst hok hg hr hpr
    refine ⟨⟨tr, htr, hlen⟩, fun hdone hpos => ?_⟩
    have hmo := @PoolConfig.lastChunkTokensNum_mono cfg _ _ hdone
    obtain ⟨m, hm, hid, hsave, hch⟩ := hha (lt_of_lt_of_le hpos hmo)
    exact ⟨m, hm, hid, hsave, hch ▸ hmo⟩
  · obtain ⟨w', pool', md', hfo', hok', -, hac, -, -, hea⟩ :=
      accurate_run hg ((hrun.and hea).imp fun _ _ h => ⟨h.1, fun _ => h.2⟩)
    cases hfo.symm.trans hfo'
    have hea := hea trivial
    by_cases hr : r ∈ out.scheduledIds ∧ (w.requests r).numComputedTokens < (w.requests r).promptLen
    · rw [hac.marked hi ha hst hok hg hr.1 hr.2 trivial hea]
      exact ⟨fun hdone => ⟨hr.1, hr.2, hdone⟩, fun h => h.2.2⟩
    refine iff_of_false (Accurate.unmarked hi ha hst hok hea ?_) fun h => hr ⟨h.1, h.2.1⟩
    rw [not_and_or, not_lt] at hr
    exact hr

/-! ## A prompt in two steps -/

def fourTokens : PoolConfig where
  cacheTransferGranularity := 4
  groupedBlockSize := [4]

def prompt (n m : Nat) (_ : RequestId) : Request := ⟨n + m, n + m, 0, List.range ((n + m) / 4)⟩

def firstStep (n m : Nat) : SchedulerOutput where
  scheduledNewReqs := [⟨0, n + m, [[1, 2]], 0⟩]
  numScheduledTokens _ := n

def secondStep (n m : Nat) (newBlockIds : Option (List (List Nat))) : SchedulerOutput where
  scheduledCachedReqs := [⟨0, newBlockIds, n⟩]
  numScheduledTokens _ := m

def firstCalls (n m : Nat) : List Event := [.allocated 0 [] 0, .build (firstStep n m)]

def allCalls (n m : Nat) (newBlockIds : Option (List (List Nat))) : List Event :=
  firstCalls n m ++ [.build (secondStep n m newBlockIds)]

theorem firstStep_allowed (hn : 0 < n) (hrun : w.running = []) (hp : w.preempted = [])
    (hr : w.requests 0 = prompt n m 0) (hk : 0 ∈ w.pool.unfinishedRequests.map Prod.fst) :
    w.AllowedBuild (firstStep n m) := by
  constructor <;> simp [firstStep, SchedulerOutput.scheduledIds, hrun, hp, hr, prompt, hn]
  simpa using hk

theorem secondStep_allowed (hm : 0 < m) (hr : 0 ∈ w.running)
    (hc : (w.requests 0).numComputedTokens = n) (ht : (w.requests 0).numTokens = n + m)
    (hk : 0 ∈ w.pool.unfinishedRequests.map Prod.fst) : w.AllowedBuild (secondStep n m newBlockIds) := by
  constructor <;> simp [secondStep, SchedulerOutput.scheduledIds, hr, hc, hm, ht]
  simpa using hk

theorem tracker_accuracy_twoSteps : ∃ w pool md,
    (firstCalls 4 4).foldlM (World.step fourTokens) (start (prompt 4 4)) = .ok w ∧
    w.pool.buildConnectorMeta fourTokens w.requests (secondStep 4 4 (some [[3]])) = .ok (pool, md) ∧
    (∃ tr, dictGet 0 pool.requestTrackers = some tr ∧ tr.tokenLen = 8) ∧
    (∃ m ∈ w.metas ++ md.requests, m.reqId = 0 ∧ m.canSave = true ∧ 8 ≤ m.tokenLenChunk) ∧
    ∃ m ∈ md.requests, m.reqId = 0 ∧ m.isLastChunk = some true := by
  obtain ⟨w, pool, md, hf, hok, hp, hm⟩ := @tracker_accuracy fourTokens 0 (secondStep 4 4 (some [[3]]))
    (prompt 4 4) (firstCalls 4 4) (by decide) (by
      refine ⟨⟨⟨not_mem_nil, fun _ h => by cases h⟩, trivial⟩, fun w₁ h₁ => ?_⟩
      cases h₁
      refine ⟨⟨firstStep_allowed (by decide) rfl rfl rfl (by decide), rfl, fun q hq => absurd hq not_mem_nil⟩,
        fun w₂ h₂ => ?_⟩
      cases h₂
      refine ⟨⟨secondStep_allowed (by decide) (by decide) rfl rfl (by decide), rfl, fun q hq _ _ => ?_⟩,
        fun _ _ => trivial⟩
      rw [mem_singleton.mp hq]
      exact Option.some_ne_none _)
  have hm := hm (by
    refine ⟨trivial, fun w₁ h₁ => ?_⟩
    cases h₁
    refine ⟨fun _ => by decide, fun w₂ h₂ => ?_⟩
    cases h₂
    exact ⟨fun _ => by decide, fun _ _ => trivial⟩)
  cases hf
  obtain ⟨ht, hh⟩ := hp (by decide) (by decide)
  exact ⟨_, pool, md, rfl, hok, ht, hh (by decide) (by decide), hm.mpr (by decide)⟩

/-- Two steps share a block, and the chunk is never handed out; the last chunk is marked a step too early. -/
theorem tracker_behind :
    (Run.GuardedM (World.step fourTokens) (fun w e => w.Allowed e) (start (prompt 2 2)) (allCalls 2 2 none) ∧
      ∃ w, (allCalls 2 2 none).foldlM (World.step fourTokens) (start (prompt 2 2)) = .ok w ∧
        (w.requests 0).numComputedTokens = 4 ∧ (dictGet 0 w.pool.requestTrackers).map (·.tokenLen) = some 2 ∧
        w.metas = []) ∧
    Run.GuardedM (World.step fourTokens) (fun w e => w.Allowed e) (start (prompt 8 2)) (allCalls 8 2 (some [[3]])) ∧
      ∃ w, (firstCalls 8 2).foldlM (World.step fourTokens) (start (prompt 8 2)) = .ok w ∧
        (w.requests 0).numComputedTokens = 8 ∧ w.metas.map (·.isLastChunk) = [some true] ∧
        ∃ w', w.step fourTokens (.build (secondStep 8 2 (some [[3]]))) = .ok w' ∧
          (w'.requests 0).numComputedTokens = 10 ∧ w'.metas.map (·.isLastChunk) = [some true] := by
  refine ⟨⟨?_, _, rfl, by decide, by decide, by decide⟩, ?_, _, rfl, by decide, by decide, _, rfl, by decide, by decide⟩
  all_goals
    refine ⟨⟨not_mem_nil, fun _ h => by cases h⟩, fun w₁ h₁ => ?_⟩
    cases h₁
    refine ⟨firstStep_allowed (by decide) rfl rfl rfl (by decide), fun w₂ h₂ => ?_⟩
    cases h₂
    exact ⟨secondStep_allowed (by decide) (by decide) rfl rfl (by decide), fun _ _ => trivial⟩

end World

end VllmAscend.Store
