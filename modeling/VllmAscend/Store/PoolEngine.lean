import VllmAscend.Lib.Run
import VllmAscend.Store.PoolSchedulerStep

/-!
# The pool scheduler in its engine

The calls of an engine to the scheduler side of the pool, and what it keeps to
(`Allowed`): a request runs until it is preempted or finished, a step adds what
it schedules to the computed tokens, and only tokens after the prompt are taken
back.
-/

namespace VllmAscend.Store

open Python PoolScheduler List

structure World where
  pool : PoolScheduler := {}
  requests : RequestId → Request
  running : List RequestId := []
  preempted : List RequestId := []
  metas : List ReqMeta := []

namespace World

inductive Event where
  | matched (r : RequestId) (numComputedTokens hit : Nat)
  | allocated (r : RequestId) (blockIds : List (List Nat)) (numExternalTokens : Nat)
  | build (out : SchedulerOutput)
  | engine (requests : RequestId → Request)

def advance (requests : RequestId → Request) (out : SchedulerOutput) (r : RequestId) : Request :=
  if r ∈ out.scheduledIds then
    { requests r with numComputedTokens := (requests r).numComputedTokens + out.numScheduledTokens r }
  else requests r

def step (cfg : PoolConfig) (w : World) : Event → Except PyError World
  | .matched r numComputedTokens hit =>
    .ok { w with pool := (w.pool.getNumNewMatchedTokens cfg r (w.requests r) numComputedTokens hit).1 }
  | .allocated r blockIds numExternalTokens => do
    let pool ← w.pool.updateStateAfterAlloc cfg r blockIds numExternalTokens
    return { w with pool }
  | .build out => do
    let (pool, md) ← w.pool.buildConnectorMeta cfg w.requests out
    return {
      pool
      requests := advance w.requests out
      running := w.running.filter (fun r => r ∉ out.finishedReqIds ∧ r ∉ out.preemptedReqIds) ++ out.scheduledIds
      preempted := (w.preempted ++ out.preemptedReqIds).filter fun r =>
        r ∉ out.finishedReqIds ∧ r ∉ out.scheduledIds
      metas := w.metas ++ md.requests }
  | .engine requests => .ok { w with requests }

structure AllowedBuild (w : World) (out : SchedulerOutput) : Prop where
  nodup : out.scheduledIds.Nodup
  present : ∀ r ∈ out.scheduledIds, r ∉ out.finishedReqIds ∧ r ∉ out.preemptedReqIds ∧ 0 < out.numScheduledTokens r
  preempted : ∀ r ∈ out.preemptedReqIds, r ∉ out.finishedReqIds
  known : ∀ r ∈ out.scheduledIds, r ∈ w.pool.unfinishedRequests.map Prod.fst
  new : ∀ q ∈ out.scheduledNewReqs, q.reqId ∉ w.running ∧ q.reqId ∉ w.preempted ∧
    q.promptLen = (w.requests q.reqId).promptLen ∧ q.numComputedTokens = (w.requests q.reqId).numComputedTokens ∧
    q.numComputedTokens + out.numScheduledTokens q.reqId ≤ q.promptLen
  cached : ∀ q ∈ out.scheduledCachedReqs, q.numComputedTokens = (w.requests q.reqId).numComputedTokens ∧
    (q.reqId ∈ w.running ∨ (q.reqId ∈ w.preempted ∧ q.newBlockIds ≠ none)) ∧
    (q.numComputedTokens < (w.requests q.reqId).promptLen →
      q.numComputedTokens + out.numScheduledTokens q.reqId ≤ (w.requests q.reqId).numTokens)

/-- Between two steps a running request has its tokens, but for drafts behind the prompt that are rejected. -/
structure Continues (req req' : Request) : Prop where
  promptLen : req'.promptLen = req.promptLen
  prefill : req.numComputedTokens ≤ req.promptLen → req'.numComputedTokens = req.numComputedTokens
  decode : req.promptLen < req.numComputedTokens → req.promptLen < req'.numComputedTokens

def Allowed (w : World) : Event → Prop
  | .matched r _ _ => r ∉ w.running
  | .allocated r _ numExternalTokens => r ∉ w.running ∧ ∀ spec, dictGet r w.pool.loadSpecs = some spec →
      numExternalTokens = 0 ∨ (numExternalTokens : Int) = spec.kvpoolCachedTokens - spec.vllmCachedTokens
  | .build out => w.AllowedBuild out
  | .engine requests => ∀ r ∈ w.running, Continues (w.requests r) (requests r)

/-! ## Running requests -/

structure Tracked (w : World) (r : RequestId) : Prop where
  tracker : ∃ tr, dictGet r w.pool.requestTrackers = some tr ∧
    ((w.requests r).numComputedTokens ≤ (w.requests r).promptLen → tr.tokenLen ≤ (w.requests r).numComputedTokens)
  unfinished : r ∈ w.pool.unfinishedRequests.map Prod.fst
  notPreempted : r ∉ w.pool.preemptedReqIds
  noLoad : dictGet r w.pool.loadSpecs = none

/-- A consumer that does not put follows new requests only. -/
structure Inv (cfg : PoolConfig) (w : World) : Prop where
  keyed : w.pool.Keyed
  apart : ∀ r ∈ w.running, r ∉ w.preempted
  preempted : cfg.forceSkipSave = false → ∀ r, r ∈ w.pool.preemptedReqIds ↔ r ∈ w.preempted
  tracked : cfg.forceSkipSave = false → ∀ r ∈ w.running, w.Tracked r

variable {w w' : World} {r : RequestId} {out : SchedulerOutput}

theorem Inv.congr (hinv : Inv cfg w) (hkey : w'.pool.Keyed) (hreq : w'.requests = w.requests)
    (hrun : w'.running = w.running) (hpr : w'.preempted = w.preempted)
    (hpo : ∀ r, r ∈ w'.pool.preemptedReqIds ↔ r ∈ w.pool.preemptedReqIds)
    (hsame : ∀ r ∈ w.running, dictGet r w'.pool.requestTrackers = dictGet r w.pool.requestTrackers ∧
      dictGet r w'.pool.loadSpecs = dictGet r w.pool.loadSpecs ∧
      (r ∈ w.pool.unfinishedRequests.map Prod.fst → r ∈ w'.pool.unfinishedRequests.map Prod.fst)) : Inv cfg w' := by
  refine ⟨hkey, by rw [hrun, hpr]; exact hinv.apart, fun hfo r => ?_, fun hfo r hr => ?_⟩
  · rw [hpo, hpr]
    exact hinv.preempted hfo r
  · rw [hrun] at hr
    obtain ⟨htc, hload, hun⟩ := hsame r hr
    have htr := hinv.tracked hfo r hr
    refine ⟨?_, hun htr.unfinished, fun hmem => htr.notPreempted ((hpo r).mp hmem), ?_⟩
    · rw [htc, hreq]
      exact htr.tracker
    · rw [hload]
      exact htr.noLoad

variable {requests : RequestId → Request} {pool : PoolScheduler} {md : Metadata}

theorem Inv.matched (hi : Inv cfg w) (hr : r ∉ w.running) :
    Inv cfg { w with pool := (w.pool.getNumNewMatchedTokens cfg r (w.requests r) n hit).1 } := by
  obtain ⟨-, ht, hp⟩ := @matched_same cfg r w.pool n (r + 1) (w.requests r) hit (Nat.ne_add_one r)
  refine hi.congr (fun r' tr hg => hi.keyed r' tr (ht ▸ hg)) rfl rfl rfl (fun r' => by rw [hp]) fun r' hr' => ?_
  obtain ⟨hs, -, -⟩ := @matched_same cfg r w.pool n r' (w.requests r) hit fun heq => hr (heq ▸ hr')
  exact ⟨hs.tracker, hs.loadSpec, fun hun => hs.unfinished ▸ hun⟩

theorem mem_map_fst_dictSet {α : Type} {r r' : RequestId} {x : α} {d : List (RequestId × α)} (h : r' ∈ d.map Prod.fst) :
    r' ∈ (dictSet r x d).map Prod.fst := by
  rw [map_fst_dictSet]
  split
  · exact h
  · exact mem_append_left _ h

theorem Inv.allocated {blockIds : List (List Nat)} (hi : Inv cfg w)
    (ha : w.Allowed (.allocated r blockIds n)) : ∃ w', w.step cfg (.allocated r blockIds n) = .ok w' ∧ Inv cfg w' := by
  obtain ⟨specs, bs, ids, hok, hs⟩ := @allocated_ok cfg r w.pool n blockIds ha.2
  refine ⟨{ w with pool := { w.pool with
      loadSpecs := specs, unfinishedRequests := dictSet r bs w.pool.unfinishedRequests, unfinishedRequestIds := ids } },
    by rw [World.step, hok]; rfl, hi.congr hi.keyed rfl rfl rfl (fun _ => Iff.rfl) fun r' hr' => ?_⟩
  exact ⟨rfl, hs r' fun heq => ha.1 (heq ▸ hr'), mem_map_fst_dictSet⟩

theorem Inv.engine (hinv : Inv cfg w) (hall : w.Allowed (.engine requests)) : Inv cfg { w with requests } := by
  refine ⟨hinv.keyed, hinv.apart, hinv.preempted, fun hfo r hr => ?_⟩
  have htr := hinv.tracked hfo r hr
  obtain ⟨tr, hget, hlen⟩ := htr.tracker
  obtain ⟨hpo, hpr, hde⟩ := hall r hr
  refine ⟨⟨tr, hget, fun hle => ?_⟩, htr.unfinished, htr.notPreempted, htr.noLoad⟩
  simp only at hle ⊢
  by_cases hdone : (w.requests r).numComputedTokens ≤ (w.requests r).promptLen
  · rw [hpr hdone]
    exact hlen hdone
  · have := hde (Nat.not_le.mp hdone)
    omega

/-! ## Steps -/

theorem AllowedBuild.unfinished (ha : w.AllowedBuild out) (hr : r ∈ out.scheduledIds) :
    r ∈ (w.pool.clean out).unfinishedRequests.map Prod.fst := by
  have hp := ha.present r hr
  rw [← dictGet_isSome, clean_unfinished, if_neg (not_or.mpr ⟨hp.2.1, hp.1⟩), dictGet_isSome]
  exact ha.known r hr

theorem AllowedBuild.notGone (h : w.AllowedBuild out) (hr : r ∈ out.scheduledIds) :
    r ∉ out.finishedReqIds ∧ r ∉ out.preemptedReqIds :=
  ⟨(h.present r hr).1, (h.present r hr).2.1⟩

theorem AllowedBuild.mem_cached (hq : q ∈ out.scheduledCachedReqs) : q.reqId ∈ out.scheduledIds :=
  mem_append_right _ (mem_map_of_mem hq)

theorem Inv.clean_tracker (hr : r ∉ out.finishedReqIds ∧ r ∉ out.preemptedReqIds) :
    dictGet r (w.pool.clean out).requestTrackers = dictGet r w.pool.requestTrackers := by
  rw [PoolScheduler.clean_tracker, if_neg (not_or.mpr ⟨hr.2, hr.1⟩)]

theorem Inv.clean_preempted (hi : Inv cfg w) (hf : cfg.forceSkipSave = false)
    (hr : r ∉ out.finishedReqIds ∧ r ∉ out.preemptedReqIds) :
    r ∈ (w.pool.clean out).preemptedReqIds ↔ r ∈ w.preempted := by
  rw [PoolScheduler.clean_preempted, hi.preempted hf]
  tauto

theorem Inv.build_ok (hinv : Inv cfg w) (hall : w.AllowedBuild out) :
    ∃ pool md, w.pool.buildConnectorMeta cfg w.requests out = .ok (pool, md) := by
  refine build_total hinv.keyed hall.nodup
    (fun q hq => hall.unfinished (mem_append_left _ (mem_map_of_mem hq))) fun hfo q hq _ => ⟨?_, fun hpr => ?_⟩
  · exact hall.unfinished (AllowedBuild.mem_cached hq)
  · have hps := hall.present _ (AllowedBuild.mem_cached hq)
    have hcl := hall.notGone (AllowedBuild.mem_cached hq)
    rw [hinv.clean_preempted hfo hcl] at hpr
    have hrun := (hall.cached q hq).2.1.resolve_right fun hre => hpr hre.1
    obtain ⟨tr, htr, -⟩ := (hinv.tracked hfo _ hrun).tracker
    exact ⟨tr, by rw [Inv.clean_tracker hcl, htr]⟩

theorem advance_of_mem (requests : RequestId → Request) (hr : r ∈ out.scheduledIds) :
    (advance requests out r).numComputedTokens = (requests r).numComputedTokens + out.numScheduledTokens r ∧
    (advance requests out r).promptLen = (requests r).promptLen := by
  rw [advance, if_pos hr]
  exact ⟨rfl, rfl⟩

theorem mem_scheduledIds : r ∈ out.scheduledIds ↔
    (∃ q ∈ out.scheduledNewReqs, q.reqId = r) ∨ ∃ q ∈ out.scheduledCachedReqs, q.reqId = r := by
  rw [SchedulerOutput.scheduledIds, mem_append, mem_map, mem_map]

theorem Inv.notPreempted (hinv : Inv cfg w) (hfo : cfg.forceSkipSave = false)
    (hcl : r ∉ out.finishedReqIds ∧ r ∉ out.preemptedReqIds) (hrun : r ∈ w.running) :
    r ∉ (w.pool.clean out).preemptedReqIds :=
  fun hmem => hinv.apart _ hrun ((hinv.clean_preempted hfo hcl).mp hmem)

theorem Inv.scheduled (hinv : Inv cfg w) (hall : w.AllowedBuild out)
    (hfo : cfg.forceSkipSave = false) (hok : w.pool.buildConnectorMeta cfg w.requests out = .ok (pool, md))
    (hr : r ∈ out.scheduledIds) : (∃ tr, dictGet r pool.requestTrackers = some tr ∧
      ((w.requests r).numComputedTokens ≤ (w.requests r).promptLen →
        tr.tokenLen ≤ (w.requests r).numComputedTokens + out.numScheduledTokens r)) ∧
      dictGet r pool.loadSpecs = none ∧ r ∉ pool.preemptedReqIds := by
  have hcl := hall.notGone hr
  have hpr := hinv.clean_preempted hfo hcl
  rcases mem_scheduledIds.mp hr with ⟨q, hq, rfl⟩ | ⟨q, hq, rfl⟩
  · obtain ⟨⟨spec, hsp⟩, hload, hpe⟩ := build_new_spec hok hinv.keyed hall.nodup hq
    obtain ⟨-, hnot, -, hco, -⟩ := hall.new q hq
    refine ⟨⟨_, hsp.tracker, fun _ => ?_⟩, hload, fun hmem => hnot (hpr.mp (hpe.mp hmem))⟩
    rw [PoolConfig.metaOf_tokenLen, ← hco]
    exact Nat.le_refl _
  · obtain ⟨hco, hst, hkn⟩ := hall.cached q hq
    by_cases hrun : q.reqId ∈ w.running
    · have hta := hinv.tracked hfo _ hrun
      obtain ⟨tr, htr, hlen⟩ := hta.tracker
      have hload : dictGet q.reqId (w.pool.clean out).loadSpecs = none := by
        rw [clean_loadSpecs]
        exact hta.noLoad
      have hnot := hinv.notPreempted hfo hcl hrun
      have htr' : dictGet q.reqId (w.pool.clean out).requestTrackers = some tr := (Inv.clean_tracker hcl).trans htr
      cases hbl : q.newBlockIds with
      | none =>
        obtain ⟨hsame, -⟩ := build_passed hok hinv.keyed hall.nodup hq hfo hbl
        refine ⟨⟨tr, hsame.tracker.trans htr', fun hle => ?_⟩, hsame.loadSpec.trans hload,
          fun hmem => hnot (hsame.preempted.mp hmem)⟩
        exact Nat.le_trans (hlen hle) (Nat.le_add_right _ _)
      | some bs =>
        obtain ⟨hsp, hload', hnot'⟩ := build_running_spec hok hinv.keyed hall.nodup hq hfo hbl hnot htr'
        refine ⟨?_, hload'.trans hload, hnot'⟩
        have hgr : (w.requests q.reqId).numComputedTokens ≤ (w.requests q.reqId).promptLen →
            tr.tokenLen + min (out.numScheduledTokens q.reqId) ((w.requests q.reqId).numTokens - tr.tokenLen) ≤
              (w.requests q.reqId).numComputedTokens + out.numScheduledTokens q.reqId := fun hle => by
          omega
        split at hsp
        · exact ⟨_, hsp.tracker, hgr⟩
        refine ⟨_, hsp.tracker, fun hle => ?_⟩
        rw [PoolConfig.metaOf_tokenLen]
        exact hgr hle
    · obtain ⟨hre, hsome⟩ := hst.resolve_left hrun
      obtain ⟨bs, hbl⟩ := Option.ne_none_iff_exists'.mp hsome
      obtain ⟨⟨spec, hsp⟩, hload, hnot⟩ := build_resumed_spec hok hinv.keyed hall.nodup hq hfo hbl (hpr.mpr hre)
      refine ⟨⟨_, hsp.tracker, fun _ => ?_⟩, hload, hnot⟩
      rw [PoolConfig.metaOf_tokenLen]
      exact Nat.le_refl _

def built (w : World) (out : SchedulerOutput) (pool : PoolScheduler) (md : Metadata) : World where
  pool
  requests := advance w.requests out
  running := w.running.filter (fun r => r ∉ out.finishedReqIds ∧ r ∉ out.preemptedReqIds) ++ out.scheduledIds
  preempted := (w.preempted ++ out.preemptedReqIds).filter fun r => r ∉ out.finishedReqIds ∧ r ∉ out.scheduledIds
  metas := w.metas ++ md.requests

theorem mem_running : r ∈ (w.built out pool md).running ↔
    (r ∈ w.running ∧ r ∉ out.finishedReqIds ∧ r ∉ out.preemptedReqIds) ∨ r ∈ out.scheduledIds := by
  simp [built]

theorem mem_preempted : r ∈ (w.built out pool md).preempted ↔
    (r ∈ w.preempted ∨ r ∈ out.preemptedReqIds) ∧ r ∉ out.finishedReqIds ∧ r ∉ out.scheduledIds := by
  simp [built, or_and_right]

theorem Inv.built (hinv : Inv cfg w) (hall : w.AllowedBuild out)
    (hok : w.pool.buildConnectorMeta cfg w.requests out = .ok (pool, md)) : Inv cfg (w.built out pool md) := by
  obtain ⟨hkey, hun⟩ := PoolScheduler.build_keeps hok hinv.keyed
  refine ⟨hkey, fun r hr hpr => ?_, fun hfo r => ?_, fun hfo r hr => ?_⟩
  · obtain ⟨hpr, -, hnot⟩ := mem_preempted.mp hpr
    obtain ⟨hrun, -, hke⟩ := (mem_running.mp hr).resolve_right hnot
    exact hinv.apart r hrun (hpr.resolve_right hke)
  · rw [mem_preempted]
    by_cases hr : r ∈ out.scheduledIds
    · exact iff_of_false (hinv.scheduled hall hfo hok hr).2.2 fun h => h.2.2 hr
    have hdi := hall.preempted r
    show r ∈ pool.preemptedReqIds ↔ _
    rw [PoolScheduler.build_preempted hok hinv.keyed hr, PoolScheduler.clean_preempted, hinv.preempted hfo]
    tauto
  · by_cases hs : r ∈ out.scheduledIds
    · obtain ⟨⟨tr, htr, hlen⟩, hload, hnot⟩ := hinv.scheduled hall hfo hok hs
      obtain ⟨hco, hpo⟩ := advance_of_mem w.requests hs
      refine ⟨⟨tr, htr, fun hle => ?_⟩, ?_, hnot, hload⟩
      · show tr.tokenLen ≤ (advance w.requests out r).numComputedTokens
        have hle' : (advance w.requests out r).numComputedTokens ≤ (advance w.requests out r).promptLen := hle
        rw [hco] at hle' ⊢
        exact hlen (by omega)
      · show r ∈ pool.unfinishedRequests.map Prod.fst
        rw [hun]
        exact hall.unfinished hs
    · obtain ⟨hrun, hcl⟩ := (mem_running.mp hr).resolve_right hs
      have hta := hinv.tracked hfo r hrun
      obtain ⟨hsame, -⟩ := PoolScheduler.build_apart hok hinv.keyed hs hta.noLoad
      have hreq : (w.built out pool md).requests r = w.requests r := if_neg hs
      refine ⟨?_, ?_, fun hmem => ?_, ?_⟩
      · rw [hreq]
        obtain ⟨tr, htr, hlen⟩ := hta.tracker
        exact ⟨tr, hsame.tracker.trans ((Inv.clean_tracker hcl).trans htr), hlen⟩
      · show r ∈ pool.unfinishedRequests.map Prod.fst
        rw [hun, ← dictGet_isSome, PoolScheduler.clean_unfinished, if_neg (not_or.mpr hcl.symm), dictGet_isSome]
        exact hta.unfinished
      · exact hinv.apart r hrun ((hinv.clean_preempted hfo hcl).mp (hsame.preempted.mp hmem))
      · refine hsame.loadSpec.trans ?_
        rw [PoolScheduler.clean_loadSpecs]
        exact hta.noLoad

theorem step_build (hok : w.pool.buildConnectorMeta cfg w.requests out = .ok (pool, md)) :
    w.step cfg (.build out) = .ok (w.built out pool md) := by
  rw [step, hok]
  rfl

theorem Inv.step (e : Event) (hi : Inv cfg w) (ha : w.Allowed e) : ∃ w', w.step cfg e = .ok w' ∧ Inv cfg w' := by
  cases e with
  | matched r n hit => exact ⟨_, rfl, hi.matched ha⟩
  | allocated r blockIds n => exact hi.allocated ha
  | build out =>
    obtain ⟨pool, md, hok⟩ := hi.build_ok ha
    exact ⟨_, step_build hok, hi.built ha hok⟩
  | engine requests => exact ⟨_, rfl, hi.engine ha⟩

def start (requests : RequestId → Request) : World where
  requests

theorem inv_start : Inv cfg (start requests) where
  keyed _ _ hg := by cases hg
  apart _ hr := absurd hr not_mem_nil
  preempted _ _ := Iff.rfl
  tracked _ _ hr := absurd hr not_mem_nil

end World

end VllmAscend.Store
