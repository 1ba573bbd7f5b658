import VllmAscend.Sched.Pass

/-!
# What a pass keeps

Inversion of the two loops' turns, and what follows for any scheduler of the
family: requests move between the queues and are not copied, the requests
scheduled so far stand before the one that is looked at, no running request is
looked at twice, and both loops end.
-/

namespace VllmAscend.Sched

open Python Run Pass Function
open List hiding getElem?_eq_some_iff

variable {p p' q : Pass} {r : RequestId} {rules : Rules} {world : Nat → Answers} {cfg : SchedulerConfig}
  {init : List RequestId} {es : List PassEvent} {ans : Answers}

/-! ## Queues -/

theorem prependRequest_perm (policy : SchedulingPolicy) (requests : RequestId → Request) (queue : List RequestId)
    (r : RequestId) : (prependRequest policy requests queue r).Perm (r :: queue) := by
  cases policy with
  | fcfs => exact .refl _
  | priority => exact perm_orderedInsert _ _ _

theorem prependRequests_perm (policy : SchedulingPolicy) (requests : RequestId → Request) :
    ∀ (others queue : List RequestId), (prependRequests policy requests queue others).Perm (others ++ queue)
  | [], _ => .refl _
  | r :: others, queue => by
    refine (prependRequests_perm policy requests others _).trans ?_
    exact ((prependRequest_perm policy requests queue r).append_left others).trans perm_middle

def Queues.ids (s : Queues) : List RequestId := s.running ++ (s.waiting ++ s.skippedWaiting)

def Queues.Distinct (s : Queues) : Prop := s.ids.Nodup

instance (s : Queues) : Decidable s.Distinct := inferInstanceAs (Decidable s.ids.Nodup)

variable {name : QueueName} {req : Request}

theorem Pass.pop_ok (h : p.pop name = .ok (r, p')) :
    ∃ waiting skippedWaiting, p' = { p with waiting, skippedWaiting } ∧
      (p.waiting ++ p.skippedWaiting).Perm (r :: (waiting ++ skippedWaiting)) ∧
      (name = .waiting ∧ p.waiting = r :: waiting ∧ p.skippedWaiting = skippedWaiting ∨
        name = .skippedWaiting ∧ p.waiting = waiting ∧ p.skippedWaiting = r :: skippedWaiting) := by
  unfold pop at h
  split at h
  · rename_i r' rest hq
    cases h
    have hq : p.waiting = r :: rest := hq
    exact ⟨rest, p.skippedWaiting, rfl, by rw [hq]; exact .refl _, .inl ⟨rfl, hq, rfl⟩⟩
  · rename_i r' rest hq
    cases h
    have hq : p.skippedWaiting = r :: rest := hq
    exact ⟨p.waiting, rest, rfl, by rw [hq]; exact perm_middle, .inr ⟨rfl, rfl, hq⟩⟩
  · cases h

theorem Pass.peek_ok (h : p.peek name = .ok r) : ∃ rest, p.queue name = r :: rest := by
  unfold peek at h
  split at h
  · rename_i r' rest hq
    cases h
    exact ⟨rest, hq⟩
  · cases h

theorem Pass.mem_of_peek (h : p.peek name = .ok r) : r ∈ p.waiting ++ p.skippedWaiting := by
  obtain ⟨rest, hrest⟩ := peek_ok h
  have hr : r ∈ p.queue name := by rw [hrest]; exact mem_cons_self
  cases name with
  | waiting => exact mem_append_left _ hr
  | skippedWaiting => exact mem_append_right _ hr

theorem Pass.pop_eq_peek (hp : p.peek name = .ok r) (hpop : (p.setRequest r req).pop name = .ok (r', p')) : r' = r := by
  obtain ⟨rest, hr⟩ := peek_ok hp
  obtain ⟨_, _, -, -, ⟨rfl, hw, -⟩ | ⟨rfl, -, hs⟩⟩ := pop_ok hpop
  · have hr : (p.setRequest r req).waiting = r :: rest := hr
    rw [hr] at hw
    exact (List.cons.inj hw).1.symm
  · have hr : (p.setRequest r req).skippedWaiting = r :: rest := hr
    rw [hr] at hs
    exact (List.cons.inj hs).1.symm

/-! ## Turns -/

def Pass.tick (p : Pass) : Pass := { p with turn := p.turn + 1 }

inductive RunningStep (rules : Rules) (answers : Answers) (p : Pass) : Pass → PassEvent → Prop where
  | skip {r : RequestId} : p.stage = .fetch → p.running[p.reqIndex]? = some r →
    RunningStep rules answers p { p with reqIndex := p.reqIndex + 1 } (.considered r)
  | stop {r : RequestId} : p.stage = .fetch → p.running[p.reqIndex]? = some r →
    RunningStep rules answers p { p with stage := .done } (.considered r)
  | take {r : RequestId} {n : Int} {encoder : EncoderPlan} : p.stage = .fetch → p.running[p.reqIndex]? = some r →
    rules.inBudget p = true → rules.choose answers p r = .take n encoder →
    RunningStep rules answers p { p with stage := .allocate ⟨r, n, encoder⟩ } (.considered r)
  | allocated {pending : Pending} {blocks : List Nat} : p.stage = .allocate pending →
    RunningStep rules answers p (rules.record answers (p.charge pending blocks) pending) (.allocated pending.request)
  | evicted {pending : Pending} {victim : RequestId} {q : Pass} : p.stage = .allocate pending →
    rules.evict answers p = .ok (victim, q) → victim ≠ pending.request →
    RunningStep rules answers p q (.evicted victim (decide (victim ∈ p.scheduledRunning)))
  | lost {pending : Pending} {q : Pass} : p.stage = .allocate pending →
    rules.evict answers p = .ok (pending.request, q) →
    RunningStep rules answers p { q with stage := .done }
      (.evicted pending.request (decide (pending.request ∈ p.scheduledRunning)))

theorem runningTurn_ok (h : runningTurn rules world p = .ok t) :
    t.Is (RunningStep rules (world p.turn) p.tick) (· = p.tick) := by
  unfold runningTurn at h
  simp only at h
  split at h
  · cases h; rfl
  · rename_i hs
    split at h
    · cases h; rfl
    rename_i r hr
    split at h
    · rename_i hb
      split at h
      · cases h; exact .skip hs hr
      · cases h; exact .stop hs hr
      · rename_i hc
        cases h; exact .take hs hr hb hc
    · cases h; rfl
  · rename_i pending hs
    split at h
    · cases h; exact .allocated hs
    obtain ⟨⟨victim, q⟩, he, h⟩ := bind_ok.mp h
    split at h
    · rename_i hv
      cases h
      exact hv ▸ .lost hs (hv ▸ he)
    rename_i hv
    cases h
    exact .evicted hs he hv

inductive WaitingStep (rules : Rules) (cfg : SchedulerConfig) (answers : Answers) (p : Pass) :
    Pass → PassEvent → Prop where
  | skip {queue name : QueueName} {r popped : RequestId} {req : Request} {q : Pass} : p.peek queue = .ok r →
    rules.examine answers queue p r = .ok (req, .skip name) → (p.setRequest r req).pop name = .ok (popped, q) →
    WaitingStep rules cfg answers p (q.skip cfg r) (.examined queue r
      (decide ((p.requests r).status = .waitingForStructuredOutput) && !answers.grammar r) popped)
  | load {queue : QueueName} {r popped : RequestId} {req req' : Request} {q : Pass} {computed : Nat} :
    p.peek queue = .ok r → rules.examine answers queue p r = .ok (req, .load computed) →
    (p.setRequest r req).pop queue = .ok (popped, q) →
    WaitingStep rules cfg answers p ((q.setRequest popped req').skip cfg popped) (.examined queue r
      (decide ((p.requests r).status = .waitingForStructuredOutput) && !answers.grammar r) popped)
  | start {queue : QueueName} {r popped : RequestId} {req : Request} {q q' : Pass} {start : Start} :
    p.peek queue = .ok r → rules.inBudget p = true → rules.examine answers queue p r = .ok (req, .start start) →
    (p.setRequest r req).pop queue = .ok (popped, q) → q.start cfg answers popped start = .ok q' →
    WaitingStep rules cfg answers p q' (.examined queue r
      (decide ((p.requests r).status = .waitingForStructuredOutput) && !answers.grammar r) popped)

theorem waitingTurn_ok (h : waitingTurn rules world cfg p = .ok t) :
    t.Is (WaitingStep rules cfg (world p.turn) p.tick) fun p' => ∃ requests, p' = { p.tick with requests } ∧
      ∀ k, k ∉ p.waiting ++ p.skippedWaiting → requests k = p.requests k := by
  unfold waitingTurn at h
  simp only at h
  split at h
  · cases h; exact ⟨p.requests, rfl, fun _ _ => rfl⟩
  rename_i hgo
  have hb : rules.inBudget p.tick = true := by
    by_contra hne
    exact hgo (.inr (.inl (Bool.not_eq_true _ ▸ hne)))
  obtain ⟨r, hpe, h⟩ := bind_ok.mp h
  obtain ⟨⟨req, outcome⟩, he, h⟩ := bind_ok.mp h
  cases outcome with
  | stop =>
    cases h
    refine ⟨_, rfl, fun k hk => update_of_ne (fun hkr => hk ?_) _ _⟩
    rw [hkr]
    exact mem_of_peek hpe
  | skip name =>
    obtain ⟨⟨po, q⟩, hp, h⟩ := bind_ok.mp h
    cases h
    exact .skip hpe he hp
  | load computed =>
    obtain ⟨⟨po, q⟩, hp, h⟩ := bind_ok.mp h
    cases h
    exact .load hpe he hp
  | start start =>
    obtain ⟨⟨po, q⟩, hp, h⟩ := bind_ok.mp h
    obtain ⟨q', hs, h⟩ := bind_ok.mp h
    cases h
    exact .start hpe hb he hp hs

theorem start_ok {start : Start} (h : p.start cfg ans r start = .ok q) :
    ∃ requests scheduledNew scheduledResumed scheduledLoras spec inputs encoderBudget timeBudget,
      q = { p with
        requests, scheduledNew, scheduledResumed, scheduledLoras, encoderBudget, timeBudget
        running := p.running ++ [r]
        reqToNewBlocks := dictSet r (ans.getBlocks r) p.reqToNewBlocks
        numScheduledTokens := dictSet r start.numNewTokens p.numScheduledTokens
        scheduledSpecDecodeTokens := spec
        scheduledEncoderInputs := inputs
        tokenBudget := p.tokenBudget - start.numNewTokens } ∧
      (scheduledNew = p.scheduledNew ++ [r] ∧ scheduledResumed = p.scheduledResumed ∨
        scheduledNew = p.scheduledNew ∧ scheduledResumed = p.scheduledResumed ++ [r]) ∧
      (requests r).status = .running ∧ ∀ k, k ≠ r → requests k = p.requests k := by
  obtain ⟨q', hq', h⟩ := bind_ok.mp h
  cases h
  unfold chargeEncoder
  unfold enlist at hq'
  have hs : ∀ {requests : RequestId → Request} {req : Request}, req.status = .running →
      (update requests r req r).status = .running := fun h => by rw [update_self, h]
  have ho : ∀ {requests : RequestId → Request} {req : Request} (k : RequestId), k ≠ r →
      update requests r req k = requests k := fun k hk => update_of_ne hk _ _
  split at hq'
  · cases hq'
    split <;> exact ⟨_, _, _, _, _, _, _, _, rfl, .inl ⟨rfl, rfl⟩, hs rfl, ho⟩
  · cases hq'
    split <;> exact ⟨_, _, _, _, _, _, _, _, rfl, .inr ⟨rfl, rfl⟩, hs rfl, ho⟩
  · cases hq'

/-! ## What the family has in common -/

def Pass.dropped (p : Pass) : List RequestId := p.recomputed.map RecomputeReqInfo.requestId

/-- `q` has the queues and the books of `p`, up to what is noted about `r`. -/
def Annotated (r : RequestId) (p q : Pass) : Prop :=
  ∃ requests spec inputs encoderBudget timeBudget,
    q = { p with requests, encoderBudget, timeBudget, scheduledSpecDecodeTokens := spec,
                 scheduledEncoderInputs := inputs } ∧
    (∀ k, (requests k).status = (p.requests k).status) ∧
    (∀ k ∈ spec.map Prod.fst, k = r ∨ k ∈ p.scheduledSpecDecodeTokens.map Prod.fst) ∧
    ∀ k ∈ inputs.map Prod.fst, k = r ∨ k ∈ p.scheduledEncoderInputs.map Prod.fst

def Evictable (p : Pass) : Prop :=
  p.running.Nodup ∧ ∃ before after, p.running = before ++ after ∧ after ≠ [] ∧ ∀ r ∈ p.scheduledRunning, r ∈ before

structure Evicted (p : Pass) (v : RequestId) (q : Pass) : Prop where
  mem : v ∈ p.running
  running : q.running = p.running.erase v
  scheduledRunning : q.scheduledRunning = p.scheduledRunning.erase v
  reqIndex : q.reqIndex = p.reqIndex ∨ v ∈ p.scheduledRunning ∧ q.reqIndex = p.reqIndex - 1
  stage : q.stage = p.stage
  skippedWaiting : q.skippedWaiting = p.skippedWaiting
  scheduledNew : q.scheduledNew = p.scheduledNew
  scheduledResumed : q.scheduledResumed = p.scheduledResumed
  stepSkippedWaiting : q.stepSkippedWaiting = p.stepSkippedWaiting
  requests : ∀ k, k ≠ v → q.requests k = p.requests k
  out : q.waiting.Perm (v :: p.waiting) ∧ q.preempted = p.preempted ++ [v] ∧ q.dropped = p.dropped ∨
    q.waiting = p.waiting ∧ q.preempted = p.preempted ∧ q.dropped = p.dropped ++ [v]

structure Rules.Lawful (rules : Rules) : Prop where
  evict : ∀ answers p v q, Evictable p → rules.evict answers p = .ok (v, q) → Evicted p v q
  record : ∀ answers p pending, Annotated pending.request p (rules.record answers p pending)

theorem noted_dictSet {β : Type} {d d' : List (RequestId × β)} {x : β}
    (h : ∀ k ∈ d.map Prod.fst, k = r ∨ k ∈ d'.map Prod.fst) :
    ∀ k ∈ (dictSet r x d).map Prod.fst, k = r ∨ k ∈ d'.map Prod.fst := by
  intro k hk
  obtain ⟨item, hm, rfl⟩ := mem_map.mp hk
  rcases mem_dictSet hm with rfl | hm
  · exact .inl rfl
  · exact h _ (mem_map_of_mem hm)

theorem Annotated.chargeEncoder (h : Annotated r p q) (encoder : EncoderPlan) :
    Annotated r p (q.chargeEncoder r encoder) := by
  obtain ⟨requests, spec, inputs, encoderBudget, timeBudget, rfl, hst, hs, hi⟩ := h
  unfold chargeEncoder
  split
  · exact ⟨_, _, _, _, _, rfl, hst, hs, hi⟩
  · exact ⟨_, _, _, _, _, rfl, hst, hs, noted_dictSet hi⟩

theorem Annotated.refl (r : RequestId) (p : Pass) : Annotated r p p :=
  ⟨_, _, _, _, _, rfl, fun _ => rfl, fun _ hk => .inr hk, fun _ hk => .inr hk⟩

theorem Annotated.setRequest (h : Annotated r p q)
    (hr : req.status = (q.requests r).status) : Annotated r p (q.setRequest r req) := by
  obtain ⟨requests, spec, inputs, encoderBudget, timeBudget, rfl, hs, hsp, hi⟩ := h
  refine ⟨_, _, _, _, _, rfl, fun k => ?_, hsp, hi⟩
  by_cases hk : k = r
  · rw [hk, update_self, hr]
    exact hs r
  · rw [update_of_ne hk]
    exact hs k

theorem Annotated.setSpec (h : Annotated r p q) (spec : List Int) :
    Annotated r p { q with scheduledSpecDecodeTokens := dictSet r spec q.scheduledSpecDecodeTokens } := by
  obtain ⟨requests, spec', inputs, encoderBudget, timeBudget, rfl, hst, hs, hi⟩ := h
  exact ⟨_, _, _, _, _, rfl, hst, noted_dictSet hs, hi⟩

structure TakenBack (p : Pass) (v : RequestId) (q : Pass) : Prop where
  queues : q.toQueues = p.toQueues
  stage : q.stage = p.stage
  scheduledRunning : q.scheduledRunning = p.scheduledRunning.erase v
  reqIndex : q.reqIndex = p.reqIndex ∨ v ∈ p.scheduledRunning ∧ q.reqIndex = p.reqIndex - 1
  out : q.preempted = p.preempted ∧ q.recomputed = p.recomputed
  fresh : q.scheduledNew = p.scheduledNew ∧ q.scheduledResumed = p.scheduledResumed ∧
    q.stepSkippedWaiting = p.stepSkippedWaiting

theorem TakenBack.moveToWaiting (h : TakenBack p v q) (hv : v ∈ p.running) :
    Evicted p v (q.moveToWaiting cfg v req) where
  mem := hv
  running := by rw [← h.queues]; rfl
  scheduledRunning := h.scheduledRunning
  reqIndex := h.reqIndex
  stage := h.stage
  skippedWaiting := by rw [← h.queues]; rfl
  scheduledNew := h.fresh.1
  scheduledResumed := h.fresh.2.1
  stepSkippedWaiting := h.fresh.2.2
  requests k hk := by rw [← h.queues]; exact update_of_ne hk _ _
  out := .inl ⟨h.queues ▸ prependRequest_perm _ _ _ _, by rw [← h.out.1]; rfl, by unfold dropped; rw [← h.out.2]; rfl⟩

/-! ## The run over the running requests -/

def consideredOf (events : List PassEvent) : List RequestId :=
  events.filterMap fun | .considered r => some r | _ => none

def Pass.current (p : Pass) : List RequestId :=
  match p.stage with
  | .allocate pending => [pending.request]
  | _ => []

structure Placed (events : List PassEvent) (p : Pass) (before after : List RequestId) : Prop where
  split : p.running = before ++ after
  nodup : p.scheduledRunning.Nodup
  scheduled : ∀ r ∈ p.scheduledRunning, r ∈ before
  considered : ∀ r ∈ consideredOf events, r ∈ p.running → r ∈ before ∨ r ∈ p.current
  index : p.stage = .done ∨ before.length ≤ p.reqIndex
  pending : ∀ pending, p.stage = .allocate pending → ∃ rest, after = pending.request :: rest

structure RunningInv (init : List RequestId) (events : List PassEvent) (p : Pass) : Prop where
  conserved : (p.ids ++ p.dropped).Perm init
  preempted : ∀ r ∈ p.preempted, r ∈ p.waiting
  placed : ∃ before after, Placed events p before after
  once : (consideredOf events).Nodup
  fresh : p.scheduledNew = [] ∧ p.scheduledResumed = [] ∧ p.stepSkippedWaiting = []

section
variable {before after : List RequestId}

section
variable (h : RunningInv init es p)
include h

theorem RunningInv.nodup (hi : init.Nodup) : p.running.Nodup :=
  ((h.conserved.nodup_iff.mpr hi).of_append_left).of_append_left

theorem RunningInv.notMem_of_waiting (hii : init.Nodup) (hr : r ∈ p.waiting) : r ∉ p.running := by
  have hi : p.ids.Nodup := (h.conserved.nodup_iff.mpr hii).of_append_left
  intro hrun
  exact (nodup_append.mp hi).2.2 r hrun r (mem_append_left _ hr) rfl

theorem RunningInv.notMem_of_dropped (hii : init.Nodup) (hr : r ∈ p.dropped) : r ∉ p.running := by
  have hi := h.conserved.nodup_iff.mpr hii
  intro hrun
  exact (nodup_append.mp hi).2.2 r (mem_append_left _ hrun) r hr rfl

theorem RunningInv.scheduled_running (hr : r ∈ p.scheduledRunning) : r ∈ p.running := by
  obtain ⟨before, after, hp⟩ := h.placed
  rw [hp.split]
  exact mem_append_left _ (hp.scheduled r hr)

theorem RunningInv.pending_new (hii : init.Nodup) (hst : p.stage = .allocate pending) :
    pending.request ∈ p.running ∧ pending.request ∉ p.scheduledRunning := by
  obtain ⟨before, after, hp⟩ := h.placed
  obtain ⟨rest, haf⟩ := hp.pending pending hst
  have hnod := h.nodup hii
  rw [hp.split, haf] at hnod ⊢
  exact ⟨by simp, fun hm => (nodup_append.mp hnod).2.2 _ (hp.scheduled _ hm) _ (by simp) rfl⟩

theorem RunningInv.tick : RunningInv init es p.tick where
  conserved := h.conserved
  preempted := h.preempted
  placed := by
    obtain ⟨before, after, hp⟩ := h.placed
    exact ⟨before, after, hp.split, hp.nodup, hp.scheduled, hp.considered, hp.index, hp.pending⟩
  once := h.once
  fresh := h.fresh

end

theorem consideredOf_append (es : List PassEvent) (e : PassEvent) :
    consideredOf (es ++ [e]) = consideredOf es ++ (match e with | .considered r => [r] | _ => []) := by
  unfold consideredOf
  rw [filterMap_append]
  cases e <;> rfl

theorem Placed.fetched (h : Placed es p before after) (hp : p.running.Nodup)
    (hst : p.stage = .fetch) (hr : p.running[p.reqIndex]? = some r) (hon : (consideredOf es).Nodup) :
    (consideredOf (es ++ [.considered r])).Nodup ∧
      ∃ rest, p.running = p.running.take p.reqIndex ++ r :: rest ∧ (∀ r' ∈ before, r' ∈ p.running.take p.reqIndex) ∧
        ∀ r' ∈ consideredOf (es ++ [.considered r]), r' ∈ p.running → r' ∈ p.running.take p.reqIndex ∨ r' ∈ [r] := by
  obtain ⟨hlt, hget⟩ := List.getElem?_eq_some_iff.mp hr
  have hsp : p.running = p.running.take p.reqIndex ++ r :: p.running.drop (p.reqIndex + 1) := by
    rw [← hget, cons_getElem_drop_succ, take_append_drop]
  have hlen : before.length ≤ p.reqIndex := h.index.resolve_left (by rw [hst]; simp)
  have hsub : ∀ r' ∈ before, r' ∈ p.running.take p.reqIndex := fun r' hr' => by
    rw [h.split, take_append, take_of_length_le hlen]
    exact mem_append_left _ hr'
  have hco : ∀ r' ∈ consideredOf es, r' ∈ p.running → r' ∈ p.running.take p.reqIndex := fun r' hc hm => by
    rcases h.considered r' hc hm with hb | hcu
    · exact hsub r' hb
    · simp [current, hst] at hcu
  rw [consideredOf_append]
  refine ⟨nodup_append'.mpr ⟨hon, by simp, ?_⟩, _, hsp, hsub, fun r' hr' hm => ?_⟩
  · rw [disjoint_singleton]
    intro hc
    have hb := hco r hc (mem_of_getElem? hr)
    rw [hsp] at hp
    exact (nodup_append.mp hp).2.2 r hb r (by simp) rfl
  · exact (mem_append.mp hr').imp_left (hco r' · hm)

theorem Evicted.conserved (h : Evicted p v q) : (q.ids ++ q.dropped).Perm (p.ids ++ p.dropped) := by
  unfold Queues.ids
  have hr := perm_cons_erase h.mem
  rw [h.running, h.skippedWaiting]
  rcases h.out with ⟨hw, -, hd⟩ | ⟨hw, -, hd⟩
  · rw [hd]
    refine List.Perm.append_right _ ?_
    calc (p.running.erase v ++ (q.waiting ++ p.skippedWaiting)).Perm
          (p.running.erase v ++ (v :: p.waiting ++ p.skippedWaiting)) := (hw.append_right _).append_left _
      _ |>.Perm _ := perm_middle
      _ |>.Perm _ := hr.symm.append_right _
  · rw [hw, hd]
    calc (p.running.erase v ++ (p.waiting ++ p.skippedWaiting) ++ (p.dropped ++ [v])).Perm
          (v :: (p.running.erase v ++ (p.waiting ++ p.skippedWaiting)) ++ p.dropped) := by
            rw [← append_assoc]; exact (perm_append_singleton _ _).trans (.refl _)
      _ |>.Perm _ := (hr.symm.append_right _).append_right _

theorem Evicted.preempted_waiting (h : Evicted p v q) (hp : ∀ r ∈ p.preempted, r ∈ p.waiting) :
    ∀ r ∈ q.preempted, r ∈ q.waiting := by
  intro r hr
  rcases h.out with ⟨hw, hpr, -⟩ | ⟨hw, hpr, -⟩
  · rw [hpr] at hr
    rw [hw.mem_iff]
    rcases mem_append.mp hr with hr | hr
    · exact mem_cons_of_mem _ (hp r hr)
    · rw [mem_singleton.mp hr]
      exact mem_cons_self
  · rw [hw]
    exact hp r (hpr ▸ hr)

theorem Evicted.placed (h : Evicted p v q) (hp : Placed es p before after) (hnod : p.running.Nodup)
    (hst : p.stage = .allocate pending) (hne : v ≠ pending.request)
    (hev : consideredOf events' = consideredOf es) : ∃ before' after', Placed events' q before' after' := by
  obtain ⟨rest, haf⟩ := hp.pending pending hst
  have hid : before.length ≤ p.reqIndex := hp.index.resolve_left (by rw [hst]; simp)
  have hcu : q.current = p.current := by unfold current; rw [h.stage]
  have hmem : ∀ {r}, r ∈ q.running → r ∈ p.running ∧ r ≠ v := fun hr => by
    rw [h.running, hnod.mem_erase_iff] at hr
    exact hr.symm
  have hco : ∀ r ∈ consideredOf events', r ∈ q.running → r ≠ v ∧ (r ∈ before ∨ r ∈ q.current) := by
    intro r hr hrun
    rw [hev] at hr
    rw [hcu]
    exact ⟨(hmem hrun).2, hp.considered r hr (hmem hrun).1⟩
  have hlen : (before.erase v).length ≤ q.reqIndex := by
    rcases h.reqIndex with hi | ⟨hm, hi⟩
    · exact hi ▸ (length_erase_le.trans hid)
    · rw [hi, length_erase_of_mem (hp.scheduled v hm)]
      omega
  refine ⟨before.erase v, if v ∈ before then after else after.erase v, ?_, ?_, ?_, ?_, .inr hlen, ?_⟩
  · rw [h.running, hp.split, erase_append]
    split
    · rfl
    · next hv => rw [erase_of_not_mem hv]
  · rw [h.scheduledRunning]
    exact hp.nodup.erase v
  · intro r hr
    rw [h.scheduledRunning, hp.nodup.mem_erase_iff] at hr
    exact (mem_erase_of_ne hr.1).mpr (hp.scheduled r hr.2)
  · intro r hr hrun
    obtain ⟨hrv, hr⟩ := hco r hr hrun
    exact hr.imp_left (mem_erase_of_ne hrv).mpr
  · intro pending' hq
    rw [h.stage, hst] at hq
    cases hq
    rw [haf, erase_cons_tail (by simpa using hne.symm)]
    split
    · exact ⟨rest, rfl⟩
    · exact ⟨rest.erase v, rfl⟩

theorem RunningInv.evictable (h : RunningInv init es p) (hi : init.Nodup)
    (hs : p.stage = .allocate pending) : Evictable p := by
  obtain ⟨before, after, hp⟩ := h.placed
  obtain ⟨rest, ha⟩ := hp.pending pending hs
  exact ⟨h.nodup hi, before, after, hp.split, by simp [ha], hp.scheduled⟩

theorem placed_done (hs : q.stage = .done) (hn : q.scheduledRunning.Nodup)
    (hsub : ∀ r ∈ q.scheduledRunning, r ∈ q.running) : Placed es q q.running [] where
  split := (append_nil _).symm
  nodup := hn
  scheduled := hsub
  considered _ _ hr := .inl hr
  index := .inl hs
  pending pending hq := by rw [hs] at hq; cases hq

variable (hl : rules.Lawful) (hii : init.Nodup) (h : RunningInv init es p) (hs : RunningStep rules ans p q e)

include hl hii h hs in
theorem RunningInv.step : RunningInv init (es ++ [e]) q := by
  have hnod := h.nodup hii
  obtain ⟨before, after, hp⟩ := h.placed
  cases hs with
  | @skip r hst hr =>
    obtain ⟨hon, rest, hsp, hbe, hco⟩ := hp.fetched hnod hst hr h.once
    refine ⟨h.conserved, h.preempted, ⟨p.running.take p.reqIndex ++ [r], rest, ?_, hp.nodup, ?_, ?_, .inr ?_, ?_⟩, hon,
      h.fresh⟩
    · simpa using hsp
    · exact fun r' hr' => mem_append_left _ (hbe r' (hp.scheduled r' hr'))
    · exact fun r' hr' hrun => .inl (mem_append.mpr (hco r' hr' hrun))
    · simp
    · intro pending hq
      rw [show p.stage = .allocate pending from hq] at hst
      cases hst
  | @stop r hst hr =>
    obtain ⟨hon, -⟩ := hp.fetched hnod hst hr h.once
    exact ⟨h.conserved, h.preempted, ⟨_, _, placed_done rfl hp.nodup fun _ => h.scheduled_running⟩, hon, h.fresh⟩
  | @take r n encoder hst hr =>
    obtain ⟨hon, rest, hsp, hbe, hco⟩ := hp.fetched hnod hst hr h.once
    refine ⟨h.conserved, h.preempted, ⟨p.running.take p.reqIndex, r :: rest, hsp, hp.nodup, ?_, hco, .inr ?_, ?_⟩, hon,
      h.fresh⟩
    · exact fun r' hr' => hbe r' (hp.scheduled r' hr')
    · simp
    · intro pending hq
      cases hq
      exact ⟨rest, rfl⟩
  | @allocated pending blocks hst =>
    obtain ⟨rest, haf⟩ := hp.pending pending hst
    have hid : before.length ≤ p.reqIndex := hp.index.resolve_left (by rw [hst]; simp)
    obtain ⟨requests, spec, inputs, encoderBudget, timeBudget, heq, -⟩ := hl.record ans _ pending
    rw [heq]
    refine ⟨h.conserved, h.preempted, ⟨before ++ [pending.request], rest, ?_, ?_, ?_, ?_, .inr ?_, ?_⟩, ?_, h.fresh⟩
    · have hsp := hp.split
      rw [haf] at hsp
      simpa [charge] using hsp
    · exact nodup_append'.mpr ⟨hp.nodup, by simp, by simpa using (h.pending_new hii hst).2⟩
    · intro r hr
      rcases mem_append.mp hr with hr | hr
      · exact mem_append_left _ (hp.scheduled r hr)
      · exact mem_append_right _ hr
    · intro r hr hrun
      rw [consideredOf_append, append_nil] at hr
      rcases hp.considered r hr hrun with hb | hc
      · exact .inl (mem_append_left _ hb)
      · rw [current, hst] at hc
        exact .inl (mem_append_right _ hc)
    · simpa [charge] using hid
    · intro pending' hq
      cases hq
    · rw [consideredOf_append, append_nil]
      exact h.once
  | @evicted pending victim q hst hei hne =>
    have hev := hl.evict ans p victim _ (h.evictable hii hst) hei
    have hee : consideredOf (es ++ [.evicted victim (decide (victim ∈ p.scheduledRunning))]) =
        consideredOf es := by rw [consideredOf_append, append_nil]
    refine ⟨hev.conserved.trans h.conserved, hev.preempted_waiting h.preempted,
      hev.placed hp hnod hst hne hee, hee ▸ h.once, ?_⟩
    rw [hev.scheduledNew, hev.scheduledResumed, hev.stepSkippedWaiting]
    exact h.fresh
  | @lost pending q hst hei =>
    have hev := hl.evict ans p pending.request _ (h.evictable hii hst) hei
    refine ⟨hev.conserved.trans h.conserved, hev.preempted_waiting h.preempted, ⟨_, _, placed_done rfl ?_ ?_⟩, ?_, ?_⟩
    · rw [show ({ q with stage := .done } : Pass).scheduledRunning = _ from hev.scheduledRunning]
      exact hp.nodup.erase _
    · intro r hr
      rw [show ({ q with stage := .done } : Pass).scheduledRunning = _ from hev.scheduledRunning,
        hp.nodup.mem_erase_iff] at hr
      rw [show ({ q with stage := .done } : Pass).running = _ from hev.running]
      exact (mem_erase_of_ne hr.1).mpr (h.scheduled_running hr.2)
    · rw [consideredOf_append, append_nil]
      exact h.once
    · exact hev.scheduledNew ▸ hev.scheduledResumed ▸ hev.stepSkippedWaiting ▸ h.fresh

theorem RunningInv.of_reach (hl : rules.Lawful) (hi : init.Nodup)
    (h0 : RunningInv init [] p0) (h : Reach (runningTurn rules world) p0 es p) : RunningInv init es p := by
  induction h with
  | start => exact h0
  | step _ hb ih => exact ih.tick.step hl hi (runningTurn_ok hb)

structure Pass.Fresh (p : Pass) : Prop where
  stage : p.stage = .fetch
  scheduled : p.scheduledRunning = [] ∧ p.scheduledNew = [] ∧ p.scheduledResumed = []
  out : p.preempted = [] ∧ p.recomputed = []
  books : p.numScheduledTokens = [] ∧ p.reqToNewBlocks = [] ∧ p.scheduledSpecDecodeTokens = [] ∧
    p.scheduledEncoderInputs = []
  skipped : p.stepSkippedWaiting = []

theorem Pass.Fresh.runningInv (h : p.Fresh) : RunningInv p.ids [] p where
  conserved := by simp [dropped, h.out.2]
  preempted r hr := by rw [h.out.1] at hr; cases hr
  placed := by
    refine ⟨[], p.running, rfl, by simp [h.scheduled.1], by simp [h.scheduled.1], ?_, .inr (Nat.zero_le _), ?_⟩
    · intro r hr
      cases hr
    · intro pending hp
      rw [h.stage] at hp
      cases hp
  once := nodup_nil
  fresh := ⟨h.scheduled.2.1, h.scheduled.2.2, h.skipped⟩

/-! ## Both loops end -/

def Pass.turnsLeft (p : Pass) : Nat :=
  p.running.length +
    match p.stage with
    | .fetch => 3 * (p.running.length - p.reqIndex) + 1
    | .allocate _ => 3 * (p.running.length - (p.reqIndex + 1)) + 2
    | .done => 0

include hl hii h hs in
theorem RunningStep.turnsLeft_lt : q.turnsLeft < p.turnsLeft := by
  cases hs with
  | skip hst hr | stop hst hr | take hst hr =>
    obtain ⟨hlt, -⟩ := List.getElem?_eq_some_iff.mp hr
    simp only [turnsLeft, hst]
    omega
  | @allocated pending blocks hst =>
    obtain ⟨requests, spec, inputs, encoderBudget, timeBudget, heq, -⟩ := hl.record ans _ pending
    rw [heq]
    simp only [turnsLeft, charge, hst]
    omega
  | @evicted pending victim q hst hei =>
    have hev := hl.evict ans p victim _ (h.evictable hii hst) hei
    have hlen := length_erase_of_mem hev.mem
    have hpos := length_pos_of_mem hev.mem
    simp only [turnsLeft, hev.stage, hst, hev.running, hlen]
    rcases hev.reqIndex with hi | ⟨-, hi⟩ <;> omega
  | @lost pending q hst hei =>
    have hev := hl.evict ans p pending.request _ (h.evictable hii hst) hei
    have hlen := length_erase_of_mem hev.mem
    simp only [turnsLeft, hst, hev.running, hlen]
    omega

end

section
theorem runningLoop_ne_none (hl : rules.Lawful) (hp : p.Fresh) (hi : p.Distinct) :
    loop (runningTurn rules world) p.runningFuel p ≠ .ok none := by
  refine loop_ne_none (P := fun q => ∃ events, RunningInv p.ids events q) turnsLeft ?_ ⟨[], hp.runningInv⟩ ?_
  · rintro s s' e ⟨events, h⟩ hb
    have hs := runningTurn_ok hb
    have hlt : s'.turnsLeft < s.tick.turnsLeft := hs.turnsLeft_lt hl hi h.tick
    exact ⟨⟨_, h.tick.step hl hi hs⟩, hlt⟩
  · simp only [turnsLeft, hp.stage, Queues.runningFuel]
    omega

theorem WaitingStep.result (hs : WaitingStep rules cfg ans p q e) :
    ∃ queue r pg po waiting skippedWaiting, e = .examined queue r pg po ∧
      (p.waiting ++ p.skippedWaiting).Perm (po :: (waiting ++ skippedWaiting)) ∧
      r ∈ p.waiting ++ p.skippedWaiting ∧
      ((∃ requests stepSkippedWaiting, q = { p with requests, waiting, skippedWaiting, stepSkippedWaiting } ∧
          stepSkippedWaiting.Perm (r :: p.stepSkippedWaiting) ∧ ∀ k, k ≠ r → requests k = p.requests k) ∨
        po = r ∧ ∃ req q' start, q' = { p.setRequest r req with waiting, skippedWaiting } ∧
          q'.start cfg ans r start = .ok q) := by
  have ho : ∀ {requests : RequestId → Request} {req : Request} {r : RequestId} (k : RequestId), k ≠ r →
      update requests r req k = requests k := fun k hk => update_of_ne hk _ _
  cases hs with
  | @skip queue name r po req q hp he hpop =>
    obtain ⟨waiting, skippedWaiting, rfl, hperm, -⟩ := pop_ok hpop
    exact ⟨queue, r, _, po, waiting, skippedWaiting, rfl, hperm, mem_of_peek hp,
      .inl ⟨_, _, rfl, prependRequest_perm _ _ _ _, ho⟩⟩
  | @load queue r po req req' q computed hp he hpop =>
    obtain rfl := pop_eq_peek hp hpop
    obtain ⟨waiting, skippedWaiting, rfl, hperm, -⟩ := pop_ok hpop
    exact ⟨queue, po, _, po, waiting, skippedWaiting, rfl, hperm, mem_of_peek hp,
      .inl ⟨_, _, rfl, prependRequest_perm _ _ _ _, fun k hk => (ho k hk).trans (ho k hk)⟩⟩
  | @start queue r po req q q' start hp _ he hpop hst =>
    obtain rfl := pop_eq_peek hp hpop
    obtain ⟨waiting, skippedWaiting, rfl, hperm, -⟩ := pop_ok hpop
    exact ⟨queue, po, _, po, waiting, skippedWaiting, rfl, hperm, mem_of_peek hp, .inr ⟨rfl, _, _, _, rfl, hst⟩⟩

theorem WaitingStep.length_lt (hs : WaitingStep rules cfg ans p q e) :
    q.waiting.length + q.skippedWaiting.length < p.waiting.length + p.skippedWaiting.length := by
  obtain ⟨_, r, _, po, waiting, skippedWaiting, -, hp, -, hc⟩ := hs.result
  have hl := hp.length_eq
  simp only [length_append, length_cons] at hl
  rcases hc with ⟨_, _, rfl, -⟩ | ⟨-, _, q', start, rfl, hst⟩
  · simp only; omega
  · obtain ⟨_, _, _, _, _, _, _, _, rfl, -⟩ := start_ok hst
    simp only; omega

theorem waitingLoop_ne_none : loop (waitingTurn rules world cfg) p.waitingFuel p ≠ .ok none := by
  refine loop_ne_none (P := fun _ => True) (fun q => q.waiting.length + q.skippedWaiting.length) ?_ trivial ?_
  · intro s s' e _ hb
    exact ⟨trivial, (waitingTurn_ok hb).length_lt⟩
  · simp only [Queues.waitingFuel]
    omega

/-! ## Where the requests go -/

variable {bud : Int}

theorem ids_of_reach (h : Reach (waitingTurn rules world cfg) p0 es p)
    (hpop : ∀ queue r pg po, .examined queue r pg po ∈ es → po = r) :
    (p.ids ++ p.stepSkippedWaiting).Perm (p0.ids ++ p0.stepSkippedWaiting) := by
  induction h with
  | start => exact .refl _
  | @step es p p' e hre hb ih =>
    have ih := ih fun queue r g po hm => hpop queue r g po (mem_append_left _ hm)
    obtain ⟨queue, r, g, po, waiting, skippedWaiting, rfl, hperm, -, hca⟩ := (waitingTurn_ok hb).result
    obtain rfl := hpop queue r g po (mem_append_right _ (mem_singleton.mpr rfl))
    have hid : p.ids.Perm (p.running ++ po :: (waiting ++ skippedWaiting)) := hperm.append_left p.running
    refine .trans ?_ ih
    rcases hca with ⟨_, skipped, rfl, hsk, -⟩ | ⟨-, req, q', start, rfl, hst⟩
    · calc (p.running ++ (waiting ++ skippedWaiting) ++ skipped).Perm
            (p.running ++ (waiting ++ skippedWaiting) ++ po :: p.stepSkippedWaiting) := hsk.append_left _
        _ |>.Perm _ := perm_middle
        _ |>.Perm _ := perm_middle.symm.append_right _
        _ |>.Perm _ := hid.symm.append_right _
    · obtain ⟨_, _, _, _, _, _, _, _, rfl, -⟩ := start_ok hst
      have hrun := append_assoc p.running [po] (waiting ++ skippedWaiting)
      exact List.Perm.append_right _ (.trans (.of_eq hrun) hid.symm)

theorem requeue_ids (p : Pass) : (p.requeue cfg).ids.Perm (p.ids ++ p.stepSkippedWaiting) := by
  have hs := (prependRequests_perm cfg.policy p.requests p.stepSkippedWaiting p.skippedWaiting).trans perm_append_comm
  refine ((hs.append_left p.waiting).append_left p.running).trans (.of_eq ?_)
  simp [Queues.ids]

theorem RunningInv.ids_perm (h : RunningInv init es p) (hd : p.recomputed = []) : p.ids.Perm init := by
  have hi := h.conserved
  rwa [dropped, hd, map_nil, append_nil] at hi

theorem RunningInv.ids_of_pass (h : RunningInv init running p0) (hd : p0.recomputed = [])
    (hr : Reach (waitingTurn rules world cfg) { p0.tick with scheduledLoras := loras } es p)
    (hpop : ∀ queue r pg po, .examined queue r pg po ∈ es → po = r) :
    (requeue cfg { p.tick with requests }).ids.Perm init := by
  refine (requeue_ids _).trans ((ids_of_reach hr hpop).trans ?_)
  have hs : p0.ids ++ p0.stepSkippedWaiting = p0.ids := by rw [h.fresh.2.2, append_nil]
  exact (List.Perm.of_eq hs).trans (h.ids_perm hd)

theorem examineWith_skip {queue name : QueueName}
    (ht : ∀ req req', tryStart req = .ok (req', .skip name) → name = queue)
    (h : examineWith cfg ans queue p req tryStart = .ok (req', .skip name)) : name = queue := by
  unfold examineWith at h
  split at h
  · cases h; rfl
  split at h
  · cases h; rfl
  · exact ht _ _ h

/-! ## The whole call -/

def runningEvents (rules : Rules) (world : Nat → Answers) (p : Pass) : List PassEvent :=
  trace (runningTurn rules world) p.runningFuel p

def waitingEvents (rules : Rules) (world : Nat → Answers) (cfg : SchedulerConfig) (toWaiting : Pass → Bool)
    (p : Pass) : List PassEvent :=
  match loop (runningTurn rules world) p.runningFuel p with
  | .ok (some p) =>
    match p.recordLoras cfg with
    | .ok p => if toWaiting p then trace (waitingTurn rules world cfg) p.waitingFuel p else []
    | .error _ => []
  | _ => []

theorem recordLoras_ok (h : p.recordLoras cfg = .ok q) : ∃ scheduledLoras, q = { p with scheduledLoras } := by
  unfold recordLoras at h
  split at h
  · cases h; exact ⟨_, rfl⟩
  simp only at h
  split at h
  · cases h; exact ⟨_, rfl⟩
  · cases h

theorem schedulePass_ne_none (hl : rules.Lawful) (hp : p.Fresh) (hi : p.Distinct) :
    schedulePass rules world cfg toWaiting p ≠ .ok none := by
  intro h
  obtain ⟨ended, hloop, h⟩ := bind_ok.mp h
  cases ended with
  | none => exact runningLoop_ne_none hl hp hi hloop
  | some p1 =>
    obtain ⟨p2, -, h⟩ := bind_ok.mp h
    split at h
    · obtain ⟨ended, hloop, h⟩ := bind_ok.mp h
      cases ended with
      | none => exact waitingLoop_ne_none hloop
      | some p3 =>
        simp only at h
        split at h <;> cases h
    · split at h <;> cases h

theorem schedulePass_ok (h : schedulePass rules world cfg toWaiting p = .ok (some q)) :
    q.constraints cfg = true ∧ ∃ p1 scheduledLoras, Reach (runningTurn rules world) p (runningEvents rules world p) p1 ∧
      (toWaiting { p1.tick with scheduledLoras } = false ∧ q = { p1.tick with scheduledLoras } ∧
          waitingEvents rules world cfg toWaiting p = [] ∨
        toWaiting { p1.tick with scheduledLoras } = true ∧ ∃ p2 requests,
          Reach (waitingTurn rules world cfg) { p1.tick with scheduledLoras }
            (waitingEvents rules world cfg toWaiting p) p2 ∧
          q = requeue cfg { p2.tick with requests } ∧
          ∀ k, k ∉ p2.waiting ++ p2.skippedWaiting → requests k = p2.requests k) := by
  unfold waitingEvents
  obtain ⟨ended, hl, h⟩ := bind_ok.mp h
  cases ended with
  | none => cases h
  | some p1' =>
    obtain ⟨p1, hr, hs⟩ := Reach.start.of_loop hl
    obtain rfl := runningTurn_ok hs
    obtain ⟨p2, hlo, h⟩ := bind_ok.mp h
    obtain ⟨scheduledLoras, rfl⟩ := recordLoras_ok hlo
    simp only [hl, hlo]
    split at h
    · rename_i hto
      obtain ⟨ended, hl', h⟩ := bind_ok.mp h
      cases ended with
      | none => cases h
      | some p3 =>
        obtain ⟨p2, hr', hs'⟩ := Reach.start.of_loop hl'
        obtain ⟨requests, rfl, ho⟩ := waitingTurn_ok hs'
        simp only at h
        split at h
        · rename_i hc
          cases h
          refine ⟨hc, p1, scheduledLoras, hr, .inr ⟨hto, p2, requests, ?_, rfl, ho⟩⟩
          rw [if_pos hto]
          simpa using hr'
        · cases h
    · rename_i hto
      split at h
      · rename_i hc
        cases h
        refine ⟨hc, p1, scheduledLoras, hr, .inl ⟨by simpa using hto, rfl, ?_⟩⟩
        rw [if_neg hto]
      · cases h

/-! ## The books of the run over the waiting requests -/

structure WaitingInv (budget : Int) (p : Pass) : Prop where
  distinct : p.Distinct
  keys : ∀ r, r ∈ p.numScheduledTokens.map Prod.fst ↔
    r ∈ p.scheduledNew ∨ r ∈ p.scheduledResumed ∨ r ∈ p.scheduledRunning
  running : ∀ r ∈ p.numScheduledTokens.map Prod.fst, r ∈ p.running
  balance : p.tokenBudget + (p.numScheduledTokens.map Prod.snd).sum = budget
  kept : p.preempted = [] ∧ p.recomputed = []

theorem WaitingInv.step (h : WaitingInv bud p) (hs : WaitingStep rules cfg ans p q e) : WaitingInv bud q := by
  obtain ⟨queue, r, grammar, po, waiting, skippedWaiting, -, hperm, -, hca⟩ := hs.result
  have hid : (p.running ++ po :: (waiting ++ skippedWaiting)).Nodup :=
    (hperm.append_left p.running).nodup_iff.mp h.distinct
  rcases hca with ⟨_, _, rfl, -⟩ | ⟨rfl, req, q', start, rfl, hst⟩
  · refine ⟨?_, h.keys, h.running, h.balance, h.kept⟩
    exact (nodup_middle.mp hid).of_cons
  have hnew : po ∉ p.numScheduledTokens.map Prod.fst := by
    intro hm
    exact (nodup_append.mp hid).2.2 _ (h.running _ hm) _ (by simp) rfl
  obtain ⟨requests, scheduledNew, scheduledResumed, _, _, _, _, _, rfl, hli, -⟩ := start_ok hst
  have hke : (dictSet po start.numNewTokens p.numScheduledTokens).map Prod.fst =
      p.numScheduledTokens.map Prod.fst ++ [po] := by rw [dictSet_of_notMem hnew, map_append]; rfl
  refine ⟨?_, ?_, ?_, ?_, h.kept⟩
  · have hmo : (p.running ++ po :: (waiting ++ skippedWaiting)).Perm
        (p.running ++ [po] ++ (waiting ++ skippedWaiting)) := by simp
    exact hmo.nodup_iff.mp hid
  · intro r'
    simp only [setRequest, hke, mem_append, mem_singleton]
    rw [h.keys r']
    rcases hli with ⟨rfl, rfl⟩ | ⟨rfl, rfl⟩ <;> simp only [mem_append, mem_singleton, setRequest] <;>
      tauto
  · intro r' hr'
    simp only [setRequest, hke, mem_append] at hr'
    exact mem_append.mpr (hr'.imp_left (h.running r'))
  · have hba := h.balance
    simp only [setRequest, dictSet_of_notMem hnew, map_append, sum_append, map_cons, map_nil, sum_cons, sum_nil]
    omega

theorem WaitingInv.tick (h : WaitingInv bud p) : WaitingInv bud p.tick :=
  ⟨h.distinct, h.keys, h.running, h.balance, h.kept⟩

theorem WaitingInv.of_reach (h0 : WaitingInv bud p0)
    (h : Reach (waitingTurn rules world cfg) p0 es p) : WaitingInv bud p := by
  exact h.inv h0 fun s s' e hs hb => hs.tick.step (waitingTurn_ok hb)

end

theorem RunningInv.keys_new (h : RunningInv init es p)
    (hk : ∀ r, r ∈ p.numScheduledTokens.map Prod.fst ↔ r ∈ p.scheduledRunning) (r : RequestId) :
    r ∈ p.numScheduledTokens.map Prod.fst ↔ r ∈ p.scheduledNew ∨ r ∈ p.scheduledResumed ∨ r ∈ p.scheduledRunning := by
  rw [hk, h.fresh.1, h.fresh.2.1]
  simp

theorem RunningInv.waitingInv (h : RunningInv init es p) (hi : init.Nodup)
    (hk : ∀ r, r ∈ p.numScheduledTokens.map Prod.fst ↔ r ∈ p.scheduledRunning)
    (hb : p.tokenBudget + (p.numScheduledTokens.map Prod.snd).sum = bud)
    (hke : p.preempted = [] ∧ p.recomputed = []) (loras : List Nat) :
    WaitingInv bud { p.tick with scheduledLoras := loras } := by
  refine ⟨(h.conserved.nodup_iff.mpr hi).of_append_left, h.keys_new hk, fun r hr => ?_, hb, hke⟩
  exact h.scheduled_running ((hk r).mp hr)

/-! ## The statuses of running requests -/

def Pass.Live (p : Pass) : Prop := ∀ r ∈ p.running, (p.requests r).status = .running

theorem Pass.Live.evicted {v : RequestId} (h : p.Live) (hev : Evicted p v q) (hn : p.running.Nodup) : q.Live := by
  intro r hr
  rw [hev.running, hn.mem_erase_iff] at hr
  rw [hev.requests r hr.1]
  exact h r hr.2

theorem recomputed_of_running (hl : rules.Lawful) (h0 : p0.recomputed = [])
    (he : ∀ {turn p v q}, rules.evict (world turn) p = .ok (v, q) → q.recomputed = p.recomputed)
    (h : Reach (runningTurn rules world) p0 es p) : p.recomputed = [] := by
  refine h.inv (P := fun p => p.recomputed = []) h0 fun p p' e hp hb => ?_
  cases runningTurn_ok hb with
  | skip | stop | take => exact hp
  | @allocated pending blocks =>
    obtain ⟨_, _, _, _, _, heq, -⟩ := hl.record (world p.turn) _ pending
    rw [heq]
    exact hp
  | evicted _ h _ => exact (he h).trans hp
  | lost _ h =>
    have hq := (he h).trans hp
    exact hq

theorem Pass.Live.running (h : p.Live) (hl : rules.Lawful) (hii : init.Nodup) (hinv : RunningInv init es p)
    (hs : RunningStep rules ans p q e) : q.Live := by
  cases hs with
  | skip | stop | take => exact h
  | @allocated pending blocks =>
    obtain ⟨requests, _, _, _, _, heq, hstt, -⟩ := hl.record ans _ pending
    rw [heq]
    exact fun r hr => (hstt r).trans (h r hr)
  | evicted hst hev _ =>
    exact h.evicted (hl.evict _ _ _ _ (hinv.evictable hii hst) hev) (hinv.nodup hii)
  | lost hst hev =>
    have hq := h.evicted (hl.evict _ _ _ _ (hinv.evictable hii hst) hev) (hinv.nodup hii)
    exact hq

theorem Pass.Live.of_reach (hl : rules.Lawful) (hf : p0.Fresh) (hi : p0.Distinct) (h0 : p0.Live)
    (h : Reach (runningTurn rules world) p0 es p) : p.Live := by
  induction h with
  | start => exact h0
  | step hr hb ih =>
    have hinv := RunningInv.of_reach hl hi hf.runningInv hr
    exact Pass.Live.running (p := tick _) ih hl hi hinv.tick (runningTurn_ok hb)

theorem Pass.Live.waiting (h : p.Live) (hdi : p.Distinct) (hs : WaitingStep rules cfg ans p q e) : q.Live := by
  obtain ⟨queue, r, grammar, po, waiting, skippedWaiting, -, -, hr, hca⟩ := hs.result
  have hne : ∀ {k}, k ∈ p.running → k ≠ r := fun hk heq =>
    (nodup_append.mp hdi).2.2 _ hk _ (heq ▸ hr) rfl
  rcases hca with ⟨requests, _, rfl, -, hot⟩ | ⟨rfl, req, q', start, rfl, hst⟩
  · intro k hk
    exact (congrArg Request.status (hot k (hne hk))).trans (h k hk)
  obtain ⟨requests, _, _, _, _, _, _, _, rfl, -, hstt, hot⟩ := start_ok hst
  intro k hk
  rcases mem_append.mp hk with hk | hk
  · have hset : update p.requests po req k = p.requests k := update_of_ne (hne hk) _ _
    exact (congrArg Request.status ((hot k (hne hk)).trans hset)).trans (h k hk)
  · rw [mem_singleton.mp hk]
    exact hstt

/-! ## Small runs -/

def plainAnswers (allocates : Bool) : Answers where
  allocateSlots _ _ := if allocates then some [] else none
  pickVictim running := running.headD 0
  selectQueue _ skipped := if skipped = [] then .waiting else .skippedWaiting
  pickVictim_mem running h := by cases running <;> simp_all
  selectQueue_nonempty waiting skipped h := by by_cases hs : skipped = [] <;> simp_all

def returned (call : Except PyError (Option Pass)) : Option Pass :=
  match call with
  | .ok p => p
  | .error _ => none

theorem exists_of_returned {P : Pass → Prop} (h : ∃ p ∈ returned call, P p) : ∃ p, call = .ok (some p) ∧ P p := by
  obtain ⟨p, hp, h⟩ := h
  refine ⟨p, ?_, h⟩
  unfold returned at hp
  split at hp
  · exact congrArg Except.ok hp
  · cases hp

def smallConfig : SchedulerConfig where
  maxNumScheduledTokens := 10
  maxNumRunningReqs := 4
  maxModelLen := 100

def twoDecodes : Queues where
  requests _ := { status := .running, numPromptTokens := 1, numTokens := 2, numComputedTokens := 1 }
  waiting := []
  skippedWaiting := []
  running := [0, 1]

end VllmAscend.Sched
