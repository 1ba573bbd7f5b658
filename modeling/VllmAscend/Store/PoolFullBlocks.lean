import VllmAscend.Store.PoolTrackerSound
import VllmAscend.Store.Sending

/-!
# Full blocks behind full-block keys

`full_chunks`: in every run of an engine, what a worker puts for a request that
a step schedules is whole chunks of computed tokens, if partial chunks are
discarded.
-/

namespace VllmAscend.Store

open Python PoolScheduler List

variable {db : TokenDatabase} {group : Nat} {wk : SendingConfig} {m : ReqMeta} {put : Put}

/-! ## Chunks -/

namespace TokenDatabase

variable {ts computed maskNum : Nat} {hss : List BlockHash} {chunk : Chunk}

def Ends (db : TokenDatabase) (hashes : List BlockHash) (tokens group : Nat) : Prop :=
  db.chunkSize group ∣ tokens ∨
    (getBlockHashes hashes (db.chunkSize group) db.hashBlockSize).length ≤ tokens / db.chunkSize group

end TokenDatabase

/-! ## What a worker puts -/

namespace SendingConfig

def Found (worker : SendingConfig) (m : ReqMeta) (answers : Answers) : Prop :=
  ∀ group ∈ m.groups, (answers.group group).existing =
    some (List.replicate (worker.groupChunks m answers.storeMask group).length 1)

end SendingConfig

namespace World

variable {cfg : PoolConfig} {w : World} {out : SchedulerOutput} {pool : PoolScheduler} {md : Metadata}

def counted (w : World) (out : SchedulerOutput) (r : RequestId) : Nat :=
  if r ∈ w.running then
    ((dictGet r w.pool.requestTrackers).map fun tr =>
      (PoolScheduler.grown w.requests out.numScheduledTokens tr r).tokenLen).getD 0
  else (w.requests r).numComputedTokens + out.numScheduledTokens r

structure Saved (cfg : PoolConfig) (w : World) (out : SchedulerOutput) (m : ReqMeta) : Prop where
  tokens : m.tokenLenChunk = cfg.lastChunkTokensNum (w.counted out m.reqId)
  counted : w.counted out m.reqId ≤ (w.requests m.reqId).numComputedTokens + out.numScheduledTokens m.reqId
  hashes : m.blockHashes = (w.requests m.reqId).blockHashes

theorem Saved.of_spoken (hsp : PoolScheduler.Spoken pool md r (cfg.metaOf tr spec skip (w.requests r).blockHashes last))
    (hm : m ∈ md.requests) (hr : m.reqId = r) (hl : tr.tokenLen = w.counted out r)
    (hle : tr.tokenLen ≤ (w.requests r).numComputedTokens + out.numScheduledTokens r) : Saved cfg w out m := by
  have hin : m.strip ∈ handedTo r md.requests := mem_handedTo.mpr ⟨m, hm, hr, rfl⟩
  rw [hsp.handed] at hin
  obtain ⟨canSave, -, hs⟩ := PoolConfig.metaOf_meta (Option.mem_toList.mp hin)
  subst hr
  refine ⟨?_, hl ▸ hle, ?_⟩
  · rw [← hl]
    exact congrArg ReqMeta.tokenLenChunk hs
  · exact congrArg ReqMeta.blockHashes hs

theorem Inv.saved (hinv : Inv cfg w) (hall : w.AllowedBuild out)
    (hok : w.pool.buildConnectorMeta cfg w.requests out = .ok (pool, md)) (hm : m ∈ md.requests)
    (hr : m.reqId ∈ out.scheduledIds) : Saved cfg w out m := by
  have hcl : m.reqId ∉ out.finishedReqIds ∧ m.reqId ∉ out.preemptedReqIds :=
    ⟨(hall.present _ hr).1, (hall.present _ hr).2.1⟩
  have hin : m.strip ∈ handedTo m.reqId md.requests := mem_handedTo.mpr ⟨m, hm, rfl, rfl⟩
  rcases mem_scheduledIds.mp hr with ⟨q, hq, hid⟩ | ⟨q, hq, hid⟩
  · obtain ⟨⟨spec, hsp⟩, -, -⟩ := build_new_spec hok hinv.keyed hall.nodup hq
    obtain ⟨hnew, -, -, hcm, -⟩ := hall.new q hq
    have hco : w.counted out q.reqId = q.numComputedTokens + out.numScheduledTokens q.reqId := by
      rw [World.counted, if_neg hnew, hcm]
    exact .of_spoken hsp hm hid.symm hco.symm (hcm ▸ Nat.le_refl _)
  · cases hfo : cfg.forceSkipSave with
    | true =>
      -- The loop over running requests is skipped, and the last one passes over what is scheduled.
      have hnod := hall.nodup
      have hnot : m.reqId ∉ out.scheduledNewReqs.map NewRequest.reqId := fun hmem =>
        (nodup_append.mp hnod).2.2 _ hmem _ (mem_map_of_mem hq) hid.symm
      obtain ⟨s2, waiting, -, -, hwa, hha⟩ := build_unscheduled hok hinv.keyed hnot (.inl hfo)
      rw [hha] at hin
      obtain ⟨m', hm', hid', -⟩ := mem_handedTo.mp hin
      exact absurd (hid' ▸ hr) (waiting_meta hwa m' hm').1
    | false =>
      obtain ⟨hcm, hst, -⟩ := hall.cached q hq
      rw [← hid] at hcl hin
      have hpr := hinv.clean_preempted hfo hcl
      by_cases hrun : q.reqId ∈ w.running
      · obtain ⟨tr, htr, hlen⟩ := (hinv.tracked hfo _ hrun).tracker
        have hnot := hinv.notPreempted hfo hcl hrun
        cases hbl : q.newBlockIds with
        | none =>
          rw [(build_passed hok hinv.keyed hall.nodup hq hfo hbl).2] at hin
          exact absurd hin not_mem_nil
        | some blocks =>
          obtain ⟨hsp, -, -⟩ := build_running_spec hok hinv.keyed hall.nodup hq hfo hbl
            hnot ((Inv.clean_tracker hcl).trans htr)
          have hco : w.counted out q.reqId = (grown w.requests out.numScheduledTokens tr q.reqId).tokenLen := by
            rw [World.counted, if_pos hrun, htr]
            rfl
          split at hsp
          · rw [hsp.handed] at hin
            exact absurd hin not_mem_nil
          rename_i hpf
          refine .of_spoken hsp hm hid.symm hco.symm ?_
          show tr.tokenLen + min (out.numScheduledTokens q.reqId) ((w.requests q.reqId).numTokens - tr.tokenLen) ≤ _
          omega
      · obtain ⟨hre, hsome⟩ := hst.resolve_left hrun
        obtain ⟨blocks, hbl⟩ := Option.ne_none_iff_exists'.mp hsome
        obtain ⟨⟨spec, hsp⟩, -, -⟩ := build_resumed_spec hok hinv.keyed hall.nodup hq hfo hbl (hpr.mpr hre)
        have hco : w.counted out q.reqId =
            (w.requests q.reqId).numComputedTokens + out.numScheduledTokens q.reqId := if_neg hrun
        exact .of_spoken hsp hm hid.symm hco.symm (Nat.le_refl _)

/-! ## Runs -/

structure Covered (cfg : PoolConfig) (w : World) (out : SchedulerOutput) (worker : SendingConfig) (m : ReqMeta)
    (answers : Answers) : Prop where
  ends : m.reqId ∈ out.scheduledIds → cfg.discardPartialChunks = false → ∀ group ∈ m.groups,
    worker.db.Ends (w.requests m.reqId).blockHashes (w.counted out m.reqId) group
  found : m.reqId ∉ out.scheduledIds → worker.Found m answers

end World

end VllmAscend.Store
