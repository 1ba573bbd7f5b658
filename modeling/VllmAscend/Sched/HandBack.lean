import VllmAscend.Sched.Node
import VllmAscend.Sched.PreemptingSound

/-!
# Requests handed back for recomputation

A request that is dropped stays in `self.requests` and in no queue, and its id
is refused when it comes back. As long as the connector offloads every request
that has to go, and a request that stops is still running, each unfinished
request is in exactly one queue.
-/

namespace VllmAscend.Sched

open Python Run Node Function
open List hiding isEmpty_iff

/-! ## A step of the scheduler -/

namespace RecomputeScheduler

variable {world : Nat → Answers}

theorem tryStart_skip (h : tryStart cfg ans qu p r req = .ok (req', .skip name)) : name = qu := by
  unfold tryStart at h
  split at h
  · cases h; rfl
  simp only at h
  split at h
  · cases h
  split at h
  · split at h
    · split at h <;> cases h
    · cases h
  split at h
  · cases h
  split at h
  · cases h
  split at h
  · cases h
  · split at h <;> cases h

theorem popped_of_reach (h : Reach (waitingTurn (rules cfg) world cfg.toSchedulerConfig) p0 events p)
    (hm : .examined qu r pg popped ∈ events) : popped = r := by
  have ha := (h.forall_events (P := fun _ => True)
    (Q := fun e => ∀ qu r pg popped, e = .examined qu r pg popped → popped = r)
    trivial fun s s' e _ hb => ⟨trivial, ?_⟩).2
  · exact ha _ hm _ _ _ _ rfl
  · rintro qu r pg popped rfl
    cases waitingTurn_ok hb with
    | skip hp he hpop =>
      obtain rfl := examineWith_skip (fun _ _ ht => tryStart_skip ht) he
      exact Pass.pop_eq_peek hp hpop
    | load hp _ hpop => exact Pass.pop_eq_peek hp hpop
    | start hp _ _ hpop => exact Pass.pop_eq_peek hp hpop

/-- The hook accepts each request it is asked about in a step. -/
def Offloads (cfg : Config) (world : Nat → Answers) (s : Queues) : Prop :=
  cfg.isKvConsumerRecomputePath → ∀ events p pending r, Reach (runningTurn (rules cfg) world) (start cfg s) events p →
    p.stage = .allocate pending → (world p.turn).allocateSlots pending.request pending.numNewTokens = none →
    p.running.getLast? = some r → (world p.turn).updateStateBeforePreempt r = true

theorem runningTurn_evicted (h : runningTurn (rules cfg) world p = .ok (.next q (.evicted v scheduled))) :
    ∃ pending, p.stage = .allocate pending ∧
      (world p.turn).allocateSlots pending.request pending.numNewTokens = none := by
  unfold runningTurn at h
  simp only at h
  split at h
  · cases h
  · split at h
    · cases h
    split at h
    · split at h <;> cases h
    · cases h
  · rename_i pending hst
    split at h
    · cases h
    · exact ⟨pending, hst, ‹_›⟩

theorem evict_recomputed
    (ho : cfg.isKvConsumerRecomputePath → ∀ r, p.running.getLast? = some r → ans.updateStateBeforePreempt r = true)
    (h : evict cfg ans p = .ok (v, q)) : q.recomputed = p.recomputed := by
  unfold evict at h
  split at h
  · rename_i hpath
    unfold evictLast at h
    split at h
    · cases h
    rename_i r hr
    simp only [ho hpath r hr, if_true] at h
    cases h
    rfl
  · obtain ⟨p', hr, h⟩ := bind_ok.mp h
    cases h
    exact (rollBack_ok hr).out.2

theorem recomputed_of_offloads (ho : Offloads cfg world s)
    (h : Reach (runningTurn (rules cfg) world) (start cfg s) events p) : p.recomputed = [] := by
  induction h with
  | start => rfl
  | @step events p p' e hre hb ih =>
    -- an eviction is asked for only where an allocation has failed
    have hev : ∀ {v scheduled q}, e = .evicted v scheduled → evict cfg (world p.turn) p.tick = .ok (v, q) →
        q.recomputed = [] := by
      rintro v scheduled q rfl he
      obtain ⟨pending, hst, hal⟩ := runningTurn_evicted hb
      exact (evict_recomputed (p := p.tick) (fun hpath r hr => ho hpath _ p pending r hre hst hal hr) he).trans ih
    cases runningTurn_ok hb with
    | skip | stop | take => exact ih
    | @allocated pending blocks =>
      obtain ⟨_, _, _, _, _, heq, -⟩ := (rules_lawful cfg).record (world p.turn) _ pending
      rw [heq]
      exact ih
    | evicted _ he _ => exact hev rfl he
    | lost _ he =>
      have hq := hev rfl he
      exact hq

theorem schedule_ok (hs : s.Distinct) (hli : ∀ r ∈ s.running, (s.requests r).status = .running)
    (ho : Offloads cfg world s) (h : schedule cfg world s = .ok (some p)) :
    p.ids.Perm s.ids ∧ p.recomputed = [] ∧ p.Live := by
  obtain ⟨-, p1, loras, hre, hca⟩ := schedulePass_ok h
  have hfr := start_fresh cfg s
  have hl := rules_lawful cfg
  have hinv := RunningInv.of_reach hl hs hfr.runningInv hre
  have hrc := recomputed_of_offloads ho hre
  have hli1 : p1.Live := .of_reach hl hfr hs hli hre
  rcases hca with ⟨-, rfl, -⟩ | ⟨hto, p2, requests, hre', rfl, hot⟩
  · exact ⟨hinv.ids_perm hrc, hrc, hli1⟩
  have hw : WaitingInv (start cfg s).tokenBudget { p1.tick with scheduledLoras := loras } := by
    have hbo := booked_of_reach hl (rules_undoes cfg) hfr hs hre
    simp only [toWaiting, Bool.and_eq_true, List.isEmpty_iff] at hto
    exact hinv.waitingInv hs (fun r => by rw [hbo.keys]) hbo.balance hto.1 loras
  have hke := hw.of_reach hre'
  have hli2 : p2.Live := by
    refine (hre'.inv (P := fun p => WaitingInv _ p ∧ p.Live) ⟨hw, hli1⟩ fun s s' e hs hb => ?_).2
    have ht := hs.1.tick
    exact ⟨ht.step (waitingTurn_ok hb), Pass.Live.waiting (p := s.tick) hs.2 ht.distinct (waitingTurn_ok hb)⟩
  have hall : (Pass.requeue cfg.toSchedulerConfig { p2.tick with requests }).ids.Perm s.ids :=
    hinv.ids_of_pass hrc hre' fun _ _ _ _ hm => popped_of_reach hre' hm
  refine ⟨hall, hke.kept.2, fun r hr => ?_⟩
  have hsame : requests r = p2.requests r := hot r fun hm =>
    (nodup_append.mp hke.distinct).2.2 r hr r hm rfl
  exact (congrArg Request.status hsame).trans (hli2 r hr)

end RecomputeScheduler

/-! ## The state between the calls -/

namespace Node

def InOneQueue (node : Node) : Prop := node.Distinct ∧ ∀ r ∈ node.registered, r ∈ node.ids

def HandedBack (vllm : Vllm ω) (cfg : NodeConfig) (node : Node) : Prop :=
  ∀ info ∈ node.recomputedReqs, (node.recomputedReqs.map RecomputeReqInfo.requestId).count info.requestId = 1 ∧
    info.requestId ∉ node.registered ∧
    ∀ o req, (node.addRequest vllm cfg o info.requestId req).toOption.isSome

structure Inv (node : Node) : Prop where
  distinct : node.Distinct
  ids : ∀ r, r ∈ node.ids ↔ r ∈ node.registered
  nodup : node.registered.Nodup
  live : ∀ r ∈ node.running, (node.requests r).status = .running
  recomputed : node.recomputedReqs = []

def SameStatuses (node : Node) (requests : RequestId → Request) : Prop :=
  ∀ r, (requests r).status = (node.requests r).status

/-- `waiting` and `skippedWaiting` are the node's queues with `r` put into one of them. -/
def Enqueued (node : Node) (r : RequestId) (waiting skippedWaiting : List RequestId) : Prop :=
  (waiting ++ skippedWaiting).Perm (r :: (node.waiting ++ node.skippedWaiting))

end Node

/-- What is assumed of vLLM's methods. -/
structure Vllm.Lawful (vllm : Vllm ω) : Prop where
  enqueue : ∀ o node r, ∃ waiting skippedWaiting,
    vllm.enqueueWaitingRequest o node r = { node with waiting, skippedWaiting } ∧
      node.Enqueued r waiting skippedWaiting
  /-- `finish_requests` takes requests off the queues that their statuses tell -/
  finish : ∀ o node ids, node.Inv → (∀ r ∈ ids, r ∈ node.running ∨ (node.requests r).status ≠ .running) →
    ∃ requests delayed, vllm.finishRequests o node ids =
      { node with
        requests, delayed
        registered := node.registered.filter (· ∉ ids)
        running := node.running.filter (· ∉ ids)
        waiting := node.waiting.filter (· ∉ ids)
        skippedWaiting := node.skippedWaiting.filter (· ∉ ids) } ∧
    ∀ r, r ∉ ids → requests r = node.requests r
  afterSchedule : ∀ o node items, ∃ requests, vllm.updateAfterSchedule o node items = { node with requests } ∧
    node.SameStatuses requests
  /-- `_handle_invalid_blocks` finds requests that run or wait for their KV -/
  invalidBlocks : ∀ o node blocks items, ∃ requests failed,
    vllm.handleInvalidBlocks o node blocks items = ({ node with requests }, failed) ∧ node.SameStatuses requests ∧
    ∀ r ∈ failed, r ∈ node.running ∨ (node.requests r).status = .waitingForRemoteKvs
  /-- `_update_request_with_output` sets no status if the request goes on -/
  output : ∀ o req tokens, (vllm.updateRequestWithOutput o req tokens).2.2 = false →
    (vllm.updateRequestWithOutput o req tokens).1.status = req.status
  /-- `_handle_stopped_request` lets the request end or puts it back to wait -/
  stopped : ∀ o node r, ∃ req, vllm.handleStoppedRequest o node r = (node.setRequest r req, true) ∨
    ∃ waiting skippedWaiting, vllm.handleStoppedRequest o node r =
        ({ node.setRequest r req with waiting, skippedWaiting }, false) ∧
      node.Enqueued r waiting skippedWaiting
  free : ∀ o node r, ∃ req delayed, vllm.freeRequest o node r =
    { node.setRequest r req with registered := node.registered.erase r, delayed }
  kvXfer : ∀ o node kv, ∃ delayed, vllm.updateFromKvXferFinished o node kv = { node with delayed }

namespace Node

variable {vllm : Vllm ω} {node node' : Node} {r : RequestId} {o : ω}

theorem Inv.withRequests (h : node.Inv) (hs : node.SameStatuses requests) : Inv { node with requests } where
  distinct := h.distinct
  ids := h.ids
  nodup := h.nodup
  live r hr := (hs r).trans (h.live r hr)
  recomputed := h.recomputed

theorem Inv.setRequest (h : node.Inv) (hr : r ∈ node.running → req.status = .running) :
    (node.setRequest r req).Inv where
  distinct := h.distinct
  ids := h.ids
  nodup := h.nodup
  live k hk := by
    by_cases hne : k = r
    · rw [hne, show (node.setRequest r req).requests r = req from update_self _ _ _]
      exact hr (hne ▸ hk)
    · rw [show (node.setRequest r req).requests k = node.requests k from update_of_ne hne _ _]
      exact h.live k hk
  recomputed := h.recomputed

theorem filter_stopped (hn : node.running.Nodup) (stopped : List RequestId) (r : RequestId) :
    node.running.filter (· ∉ stopped ++ [r]) = (node.running.filter (· ∉ stopped)).erase r := by
  rw [(hn.filter _).erase_eq_filter, filter_filter]
  refine filter_congr fun k _ => ?_
  by_cases hk : k = r <;> simp [hk]

theorem setRequest_setRequest (node : Node) (r : RequestId) (req req' : Request) :
    (node.setRequest r req).setRequest r req' = node.setRequest r req' := by
  simp only [Node.setRequest, update_idem]

theorem Inv.live_erase (h : node.Inv) (req : Request) (hk : k ∈ node.running.erase r) :
    (update node.requests r req k).status = .running := by
  have hrun : node.running.Nodup := List.Nodup.of_append_left h.distinct
  obtain ⟨hne, hk⟩ := hrun.mem_erase_iff.mp hk
  rw [update_of_ne hne]
  exact h.live k hk

theorem Inv.free (h : node.Inv) (hr : r ∈ node.running) (req : Request) (delayed : List RequestId) :
    Inv { node.setRequest r req with
      registered := node.registered.erase r, delayed, running := node.running.erase r } := by
  have hid : node.ids.Perm (r :: (node.running.erase r ++ (node.waiting ++ node.skippedWaiting))) :=
    (perm_cons_erase hr).append_right _
  have hnod := hid.nodup_iff.mp h.distinct
  refine ⟨hnod.of_cons, fun k => ?_, h.nodup.erase r, fun k hk => h.live_erase _ hk, h.recomputed⟩
  have hk := (h.ids k).symm.trans hid.mem_iff
  have hrn := (nodup_cons.mp hnod).1
  refine .trans ?_ h.nodup.mem_erase_iff.symm
  rw [hk, mem_cons]
  refine ⟨fun hm => ⟨fun heq => hrn (heq ▸ hm), .inr hm⟩, fun hm => hm.2.resolve_left hm.1⟩

theorem Inv.putToWait (h : node.Inv) (hr : r ∈ node.running) (req : Request)
    (hp : node.Enqueued r waiting skippedWaiting) :
    Inv { node.setRequest r req with waiting, skippedWaiting, running := node.running.erase r } := by
  have hi : (node.running.erase r ++ (waiting ++ skippedWaiting)).Perm node.ids :=
    ((hp.append_left _).trans perm_middle).trans ((perm_cons_erase hr).symm.append_right _)
  exact ⟨hi.nodup_iff.mpr h.distinct, fun k => hi.mem_iff.trans (h.ids k), h.nodup, fun _ hk => h.live_erase _ hk,
    h.recomputed⟩

section
variable (hv : vllm.Lawful) (h : node.Inv)
include hv h

theorem Inv.finishRequests (hst : ∀ r ∈ ended, r ∈ node.running ∨ (node.requests r).status ≠ .running) :
    (vllm.finishRequests o node ended).Inv := by
  obtain ⟨requests, delayed, heq, hot⟩ := hv.finish o node ended h hst
  rw [heq]
  have hid : node.running.filter (· ∉ ended) ++
      (node.waiting.filter (· ∉ ended) ++ node.skippedWaiting.filter (· ∉ ended)) =
      node.ids.filter (· ∉ ended) := by simp only [Queues.ids, filter_append]
  refine ⟨?_, fun k => ?_, h.nodup.filter _, fun k hk => ?_, h.recomputed⟩
  · exact (congrArg List.Nodup hid).mpr (h.distinct.filter _)
  · exact (iff_of_eq (congrArg (k ∈ ·) hid)).trans (by rw [mem_filter, mem_filter, h.ids])
  · obtain ⟨hk, hne⟩ := mem_filter.mp hk
    exact (congrArg Request.status (hot k (of_decide_eq_true hne))).trans (h.live k hk)

theorem Inv.addRequest (hadd : node.addRequest vllm cfg o r req = .ok node') :
    node'.Inv := by
  unfold Node.addRequest at hadd
  split at hadd
  · simp only at hadd
    split at hadd
    · split at hadd
      · cases hadd
      · cases hadd
        exact h.setRequest (h.live r)
    · rename_i hst
      have hne : (node.requests r).status ≠ .running := by
        rw [not_not.mp hst]
        decide
      split at hadd
      · cases hadd
        exact h.setRequest fun hm => absurd (h.live r hm) hne
      · cases hadd
        refine h.finishRequests hv fun k hk => ?_
        rw [mem_singleton.mp hk]
        exact .inr hne
  · rename_i hkn
    have hnew : r ∉ node.registered := fun hm => hkn (.inl hm)
    have hnot : r ∉ node.ids := fun hm => hnew ((h.ids r).mp hm)
    cases hadd
    obtain ⟨waiting, skippedWaiting, heq, hperm⟩ := hv.enqueue o (node.setRequest r (newRequest cfg req)) r
    rw [heq]
    have hset : (node.setRequest r (newRequest cfg req)).Inv :=
      h.setRequest fun hm => absurd (mem_append_left _ hm) hnot
    have hid : (node.running ++ (waiting ++ skippedWaiting)).Perm (r :: node.ids) :=
      (hperm.append_left _).trans perm_middle
    refine ⟨hid.nodup_iff.mpr (nodup_cons.mpr ⟨hnot, h.distinct⟩), fun k => ?_, ?_, hset.live, h.recomputed⟩
    · refine hid.mem_iff.trans ?_
      rw [mem_cons, mem_append, mem_singleton, h.ids, or_comm]
    · exact nodup_append'.mpr ⟨h.nodup, by simp, by simpa using hnew⟩

theorem Inv.schedule (ho : RecomputeScheduler.Offloads cfg.toConfig world node.toQueues)
    (hs : node.schedule vllm cfg o world = .ok (some node')) : node'.Inv := by
  obtain ⟨p, hp, hs⟩ := bind_ok.mp hs
  cases p with
  | none => cases hs
  | some p =>
    cases hs
    obtain ⟨hi, hre, hl⟩ := RecomputeScheduler.schedule_ok h.distinct h.live ho hp
    have hinv : Inv { node with toQueues := p.toQueues, recomputedReqs := p.recomputed } :=
      ⟨hi.nodup_iff.mpr h.distinct, fun r => hi.mem_iff.trans (h.ids r), h.nodup, hl, hre⟩
    obtain ⟨requests, heq, hst⟩ := hv.afterSchedule o
      { node with toQueues := p.toQueues, recomputedReqs := p.recomputed } p.numScheduledTokens
    exact (congrArg Inv heq).mpr (hinv.withRequests hst)

end

/-! ## What a step's result does -/

/-- The state while the result is read, with the stopped requests still in the list. -/
structure Reading (node₀ : Node) (failed : List RequestId) (acc : Stopped) : Prop where
  running : acc.node.running = node₀.running
  none : acc.preempted = []
  inv : Inv { acc.node with running := node₀.running.filter (· ∉ acc.running) }
  skipped : ∀ r ∈ failed, acc.node.requests r = node₀.requests r ∧ r ∉ acc.running

/-- Reading the output of a request leaves the others alone. -/
structure ReadOne (r : RequestId) (acc acc' : Stopped) : Prop where
  requests : ∀ k, k ≠ r → acc'.node.requests k = acc.node.requests k
  registered : ∀ k ∈ acc'.node.registered, k ∈ acc.node.registered
  running : ∀ k ∈ acc'.running, k ∈ acc.running ∨ k = r

section
variable {node₀ : Node} {failed : List RequestId} {output : StepOutput} {result : ModelRunnerOutput}
  {acc acc' : Stopped}

theorem status_dropRejected : (dropRejected output result r req).status = req.status := by
  unfold dropRejected
  simp only
  split <;> rfl

/-- A request that the step's result stops is still running. -/
def StopsRunning (vllm : Vllm ω) (o : ω) (node : Node) (output : StepOutput) (result : ModelRunnerOutput) : Prop :=
  let (node', failed) := node.failedKvLoads vllm o output result
  ∀ r ∈ output.numScheduledTokens.map Prod.fst, r ∉ failed → r ∈ node'.registered →
    (takeOutput vllm o output result r (node'.requests r)).2 = true → r ∈ node'.running

variable (hv : vllm.Lawful)
include hv

theorem takeOutput_status (h : (takeOutput vllm o output result r req).2 = false) :
    (takeOutput vllm o output result r req).1.status = req.status := by
  unfold takeOutput at h ⊢
  simp only at h ⊢
  split at h
  · cases h
  rename_i hrej
  rw [if_neg hrej]
  refine .trans ?_ (status_dropRejected : (dropRejected output result r req).status = _)
  unfold checkStop at h ⊢
  simp only at h ⊢
  split at h
  · rename_i htok
    rw [if_pos htok]
    exact hv.output o _ _ h
  rename_i htok
  rw [if_neg htok]
  split at h
  · cases h
  · rename_i hpool
    rw [if_neg hpool]

theorem stop_ok (acc : Stopped) (r : RequestId) (req : Request) : ∃ node req',
    ((∃ delayed, node =
        { acc.node.setRequest r req' with registered := acc.node.registered.erase r, delayed }) ∨
      ∃ waiting skippedWaiting, node = { acc.node.setRequest r req' with waiting, skippedWaiting } ∧
        acc.node.Enqueued r waiting skippedWaiting) ∧
    stop vllm o acc r req = if (acc.node.requests r).status = .running
      then { acc with node, running := acc.running ++ [r] }
      else { acc with node, preempted := acc.preempted ++ [r] } := by
  unfold stop
  obtain ⟨req₁, heq | ⟨waiting, skippedWaiting, heq, hen⟩⟩ := hv.stopped o (acc.node.setRequest r req) r
  · obtain ⟨req₂, delayed, hfr⟩ := hv.free o ((acc.node.setRequest r req).setRequest r req₁) r
    rw [setRequest_setRequest, setRequest_setRequest] at hfr
    rw [setRequest_setRequest] at heq
    exact ⟨_, req₂, .inl ⟨delayed, rfl⟩, by simp only [heq, if_true, hfr]; rfl⟩
  · rw [setRequest_setRequest] at heq
    exact ⟨_, req₁, .inr ⟨waiting, skippedWaiting, rfl, hen⟩, by simp only [heq, Bool.false_eq_true, if_false]⟩

theorem Reading.stop (h : Reading node₀ failed acc) (hn : node₀.running.Nodup)
    (hr : r ∈ node₀.running) (hnot : r ∉ acc.running) (hfa : r ∉ failed) :
    Reading node₀ failed (stop vllm o acc r req) := by
  have hmem : r ∈ node₀.running.filter (· ∉ acc.running) := mem_filter.mpr ⟨hr, by simpa using hnot⟩
  have hst : (acc.node.requests r).status = .running := h.inv.live r hmem
  have hsk : ∀ req' k, k ∈ failed → (acc.node.setRequest r req').requests k = node₀.requests k ∧
      k ∉ acc.running ++ [r] := by
    intro req' k hk
    have hne : k ≠ r := fun heq => hfa (heq ▸ hk)
    exact ⟨(update_of_ne hne _ _).trans (h.skipped k hk).1, by simp [hne, (h.skipped k hk).2]⟩
  obtain ⟨node, req', hnode, heq⟩ := stop_ok (o := o) hv acc r req
  rw [heq, if_pos hst]
  rcases hnode with ⟨delayed, rfl⟩ | ⟨waiting, skippedWaiting, rfl, hen⟩
  · refine ⟨h.running, h.none, ?_, hsk req'⟩
    simp only [filter_stopped hn]
    exact h.inv.free hmem req' delayed
  · refine ⟨h.running, h.none, ?_, hsk req'⟩
    simp only [filter_stopped hn]
    exact h.inv.putToWait hmem req' hen

theorem readOne_stop (acc : Stopped) (r : RequestId) (req : Request) :
    ReadOne r acc (stop vllm o acc r req) := by
  obtain ⟨node, req', hnode, heq⟩ := stop_ok (o := o) hv acc r req
  have hnode : (∀ k, k ≠ r → node.requests k = acc.node.requests k) ∧
      ∀ k ∈ node.registered, k ∈ acc.node.registered := by
    rcases hnode with ⟨delayed, rfl⟩ | ⟨waiting, skippedWaiting, rfl, -⟩
    · exact ⟨fun k hk => update_of_ne hk _ _, fun k hk => mem_of_mem_erase hk⟩
    · exact ⟨fun k hk => update_of_ne hk _ _, fun k hk => hk⟩
  rw [heq]
  split
  · exact ⟨hnode.1, hnode.2, fun k hk => (mem_append.mp hk).imp_right mem_singleton.mp⟩
  · exact ⟨hnode.1, hnode.2, fun k hk => .inl hk⟩

theorem Reading.readRequest (h : Reading node₀ failed acc) (hn : node₀.running.Nodup)
    (hr : item.1 ∉ failed → item.1 ∈ acc.node.registered →
      (takeOutput vllm o output result item.1 (acc.node.requests item.1)).2 = true → item.1 ∈ node₀.running)
    (hnot : item.1 ∉ acc.running) (hread : readRequest vllm o output result failed acc item = .ok acc') :
    Reading node₀ failed acc' ∧ ReadOne item.1 acc acc' := by
  unfold Node.readRequest at hread
  simp only at hread
  split at hread
  · cases hread
  split at hread
  · cases hread
    exact ⟨h, fun _ _ => rfl, fun _ hk => hk, fun _ hk => .inl hk⟩
  rename_i hun
  obtain ⟨hfa, hre⟩ := not_or.mp hun
  split at hread
  · rename_i hso
    cases hread
    exact ⟨h.stop hv hn (hr hfa (not_not.mp hre) hso) hnot hfa, readOne_stop hv ..⟩
  · rename_i hso
    cases hread
    have hst := takeOutput_status hv (Bool.not_eq_true _ ▸ hso)
    refine ⟨⟨h.running, h.none, h.inv.setRequest fun hm => hst.trans (h.inv.live _ hm), fun k hk => ?_⟩,
      fun k hk => update_of_ne hk _ _, fun _ hk => hk, fun _ hk => .inl hk⟩
    have hne : k ≠ item.1 := fun heq => hfa (heq ▸ hk)
    exact ⟨(update_of_ne hne _ _).trans (h.skipped k hk).1, (h.skipped k hk).2⟩

theorem Reading.foldlM (hn : node₀.running.Nodup) :
    ∀ {items : List (RequestId × Int)} {acc : Stopped}, Reading node₀ failed acc → (items.map Prod.fst).Nodup →
    (∀ r ∈ items.map Prod.fst, r ∉ acc.running) →
    (∀ r ∈ items.map Prod.fst, r ∉ failed → r ∈ acc.node.registered →
      (takeOutput vllm o output result r (acc.node.requests r)).2 = true → r ∈ node₀.running) →
    items.foldlM (Node.readRequest vllm o output result failed) acc = .ok acc' → Reading node₀ failed acc'
  | [], _, h, _, _, _, hread => by cases hread; exact h
  | item :: items, acc, h, hnod, hfr, hst, hread => by
    rw [foldlM_cons] at hread
    obtain ⟨acc₁, hone, hread⟩ := bind_ok.mp hread
    obtain ⟨hr, hnod⟩ := nodup_cons.mp hnod
    obtain ⟨h₁, hread₁⟩ := h.readRequest hv hn (hst _ mem_cons_self) (hfr _ mem_cons_self) hone
    have hne : ∀ k ∈ items.map Prod.fst, k ≠ item.1 := fun k hk heq => hr (heq ▸ hk)
    refine Reading.foldlM hn h₁ hnod (fun k hk hm => ?_) (fun k hk hfa hre hso => ?_) hread
    · exact (hread₁.running k hm).elim (hfr k (mem_cons_of_mem _ hk)) (hne k hk)
    · rw [hread₁.requests k (hne k hk)] at hso
      exact hst k (mem_cons_of_mem _ hk) hfa (hread₁.registered k hre) hso

theorem Inv.failedKvLoads (h : node.Inv)
    (hl : node.failedKvLoads vllm o output result = (node', failed)) :
    node'.Inv ∧ ∀ r ∈ failed, r ∈ node'.running ∨ (node'.requests r).status ≠ .running := by
  unfold Node.failedKvLoads at hl
  split at hl
  · split at hl
    · cases hl
      exact ⟨h, fun _ hr => absurd hr not_mem_nil⟩
    · obtain ⟨requests, failed', heq, hst, hfa⟩ := hv.invalidBlocks o node _ output.numScheduledTokens
      cases heq.symm.trans hl
      refine ⟨h.withRequests hst, fun r hr => (hfa r hr).imp_right fun hw => ?_⟩
      rw [show _ = _ from hst r, hw]
      decide
  · cases hl
    exact ⟨h, fun _ hr => absurd hr not_mem_nil⟩

theorem Inv.updateFromOutput (h : node.Inv) (hst : StopsRunning vllm o node output result)
    (hup : node.updateFromOutput vllm cfg o output result = .ok node') : node'.Inv := by
  unfold StopsRunning at hst
  unfold Node.updateFromOutput at hup
  cases hl : node.failedKvLoads vllm o output result with
  | mk node₁ failed =>
  obtain ⟨h₁, hfa⟩ := h.failedKvLoads hv hl
  rw [hl] at hst hup
  have hn : node₁.running.Nodup := List.Nodup.of_append_left h₁.distinct
  obtain ⟨acc, hread, hup⟩ := bind_ok.mp hup
  have hr : Reading node₁ failed acc := Reading.foldlM hv hn
    ⟨rfl, rfl, by simpa using h₁, fun _ _ => ⟨rfl, not_mem_nil⟩⟩ output.nodup (fun _ _ => not_mem_nil) hst hread
  have hinv : Inv { acc.node with
      running := acc.node.running.filter (· ∉ acc.running)
      waiting := acc.node.waiting.filter (· ∉ acc.preempted) } := by
    rw [hr.running, hr.none]
    simpa using hr.inv
  obtain ⟨node₂, hfi, hup⟩ := bind_ok.mp hup
  have h₂ : node₂.Inv := by
    unfold finishFailed at hfi
    split at hfi
    · cases hfi
      exact hinv
    split at hfi
    · cases hfi
      refine hinv.finishRequests hv fun r hm => ?_
      obtain ⟨hsame, hnot⟩ := hr.skipped r hm
      refine (hfa r hm).imp (fun hrun => mem_filter.mpr ⟨hr.running ▸ hrun, by simpa using hnot⟩) fun hw => ?_
      rw [show _ = _ from hsame]
      exact hw
    · cases hfi
  split at hup
  · cases hup
    obtain ⟨delayed, heq⟩ := hv.kvXfer o node₂ ‹_›
    rw [heq]
    exact ⟨h₂.distinct, h₂.ids, h₂.nodup, h₂.live, h₂.recomputed⟩
  · cases hup
    exact h₂

end

end Node

/-! ## Runs -/

section
variable {ω : Type}

/-- A call that returns. The hook accepts every request it is asked about, and what stops is still running. -/
def Node.Allowed (vllm : Vllm ω) (cfg : NodeConfig) (node : Node) (event : NodeEvent ω) : Prop :=
  (node.step? vllm cfg event).isSome ∧
    match event with
    | .addRequest .. => True
    | .schedule _ world => RecomputeScheduler.Offloads cfg.toConfig world node.toQueues
    | .updateFromOutput o output result => node.StopsRunning vllm o output result

theorem Node.Inv.step {vllm : Vllm ω} {node : Node} {event : NodeEvent ω} (hv : vllm.Lawful) (h : node.Inv)
    (ha : node.Allowed vllm cfg event) : (node.step vllm cfg event).Inv := by
  obtain ⟨hsome, ha⟩ := ha
  obtain ⟨node', hstep⟩ := Option.isSome_iff_exists.mp hsome
  rw [Node.step, hstep, Option.getD_some]
  cases event with
  | addRequest o r req => exact h.addRequest hv (toOption_eq_some.mp hstep)
  | schedule o world => exact h.schedule hv ha (toOption_eq_some.mp (Option.join_eq_some_iff.mp hstep))
  | updateFromOutput o output result => exact h.updateFromOutput hv ha (toOption_eq_some.mp hstep)

def Node.init (requests : RequestId → Request) : Node :=
  { requests, waiting := [], skippedWaiting := [], running := [] }

theorem handBack (vllm : Vllm ω) (hv : vllm.Lawful) (cfg : NodeConfig) (requests : RequestId → Request)
    (events : List (NodeEvent ω))
    (h : Guarded (Node.step vllm cfg) (Node.Allowed vllm cfg) (Node.init requests) events) :
    (events.foldl (Node.step vllm cfg) (Node.init requests)).InOneQueue ∧
      (events.foldl (Node.step vllm cfg) (Node.init requests)).HandedBack vllm cfg := by
  have hii : (Node.init requests).Inv :=
    ⟨by simp [Queues.Distinct, Queues.ids, Node.init], by simp [Queues.ids, Node.init], by simp [Node.init],
      by simp [Node.init], rfl⟩
  have hi : (events.foldl (Node.step vllm cfg) (Node.init requests)).Inv :=
    Guarded.inv (fun _ _ hinv ha => hinv.step hv ha) hii h
  refine ⟨⟨hi.distinct, fun r hr => (hi.ids r).mpr hr⟩, fun info hif => ?_⟩
  rw [hi.recomputed] at hif
  cases hif

end

/-- Methods that meet the assumptions: a stopped request ends at once. -/
def plainVllm : Vllm Unit where
  streamingUpdate req := if req.resumable then some req.numTokens else none
  updateRequestAsSession _ req _ := { req with status := .waiting }
  enqueueWaitingRequest _ node r := { node with waiting := node.waiting ++ [r] }
  finishRequests _ node ids :=
    { node with
      registered := node.registered.filter (· ∉ ids)
      running := node.running.filter (· ∉ ids)
      waiting := node.waiting.filter (· ∉ ids)
      skippedWaiting := node.skippedWaiting.filter (· ∉ ids) }
  updateAfterSchedule _ node items :=
    { node with requests := fun r =>
        { node.requests r with
          numComputedTokens := ((node.requests r).numComputedTokens + (dictGet r items).getD 0).toNat } }
  handleInvalidBlocks _ node _ _ := (node, [])
  updateRequestWithOutput _ req tokens := ({ req with status := .finished }, tokens, true)
  handleStoppedRequest _ node _ := (node, true)
  freeRequest _ node r := { node with registered := node.registered.erase r }
  updateFromKvXferFinished _ node _ := node

theorem plainVllm_lawful : plainVllm.Lawful where
  enqueue _ _ _ := ⟨_, _, rfl, by simp [Node.Enqueued]⟩
  finish _ node _ _ _ := ⟨node.requests, node.delayed, rfl, fun _ _ => rfl⟩
  afterSchedule _ _ _ := ⟨_, rfl, fun _ => rfl⟩
  invalidBlocks _ node _ _ := ⟨node.requests, [], rfl, fun _ => rfl, fun _ hr => absurd hr not_mem_nil⟩
  output _ _ _ h := by cases h
  stopped _ node r := ⟨node.requests r, .inl (by simp [plainVllm, Node.setRequest])⟩
  free _ node r := ⟨node.requests r, node.delayed, by simp [plainVllm, Node.setRequest]⟩
  kvXfer _ node _ := ⟨node.delayed, rfl⟩

def smallNode : NodeConfig where
  toSchedulerConfig := smallConfig
  isKvConsumerRecomputePath := true

def tokensOfStep : StepOutput := ⟨[(0, 10)], [], by decide⟩

/-- A prompt of 20 tokens of which 10 are computed when there is no room for the rest. -/
def twoSteps (offloads : Bool) : List (NodeEvent Unit) :=
  [.addRequest () 0 { numTokens := 20, numPromptTokens := 20 },
    .schedule () fun _ => plainAnswers true,
    .updateFromOutput () tokensOfStep {},
    .schedule () fun _ => { plainAnswers false with updateStateBeforePreempt := fun _ => offloads }]

theorem handBack_offloaded :
    Guarded (Node.step plainVllm smallNode) (Node.Allowed plainVllm smallNode) (Node.init fun _ => {}) (twoSteps true) ∧
      ((twoSteps true).foldl (Node.step plainVllm smallNode) (Node.init fun _ => {})).waiting = [0] ∧
      ((twoSteps true).foldl (Node.step plainVllm smallNode) (Node.init fun _ => {})).InOneQueue := by
  refine ⟨?guarded, by decide +kernel, (handBack plainVllm plainVllm_lawful smallNode _ (twoSteps true) ?guarded).1⟩
  refine ⟨⟨by decide +kernel, trivial⟩, ⟨by decide +kernel, ?_⟩, ⟨by decide +kernel, ?_⟩,
    ⟨by decide +kernel, fun _ _ _ _ _ _ _ _ _ => rfl⟩, trivial⟩
  · intro _ _ _ _ _ _ _ hno _
    cases hno
  · intro r hr _ _ hso
    obtain rfl := mem_singleton.mp hr
    exact absurd hso (by decide +kernel)

/-- The connector does not: the request is reported, stays registered in no queue, and is refused when it comes
back. -/
theorem handBack_dropped :
    let node := (twoSteps false).foldl (Node.step plainVllm smallNode) (Node.init fun _ => {})
    node.recomputedReqs = [⟨0, [], 0⟩] ∧ node.registered = [0] ∧ ¬ node.InOneQueue ∧
      ¬ node.HandedBack plainVllm smallNode ∧
      raisedBy (node.addRequest plainVllm smallNode () 0 { numTokens := 20, numPromptTokens := 20 }) =
        some (.assertionError "duplicate request id") := by
  intro node
  have hre : node.recomputedReqs = [⟨0, [], 0⟩] := by decide +kernel
  have hr : node.registered = [0] := by decide +kernel
  refine ⟨hre, hr, fun h => ?_, fun h => ?_, by decide +kernel⟩
  · have hm := h.2 0 (by rw [hr]; simp)
    cases hm
  · refine (h ⟨0, [], 0⟩ (by rw [hre]; simp)).2.1 ?_
    rw [hr]
    simp

end VllmAscend.Sched
