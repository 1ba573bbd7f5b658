import VllmAscend.Sched.DynamicBatch
import VllmAscend.Sched.PassSound

/-!
# What the dynamic-batch scheduler returns

A request that is preempted after it was scheduled in the same step keeps its
tokens, so the books are right exactly if no victim had been scheduled.
-/

namespace VllmAscend.Sched.SchedulerDynamicBatch

open Python Run Pass List

variable {cfg : SchedulerConfig} {refiner : BudgetRefiner} {world : Nat → Answers} {s : Queues} {p q : Pass}
  {e : PassEvent} {events : List PassEvent}

section
variable {bud : Int}

theorem rules_lawful (cfg : SchedulerConfig) : (rules cfg).Lawful where
  evict := by
    rintro ans p v q ⟨-, before, after, hs, ha, -⟩ he
    have hr : p.running ≠ [] := by
      rw [hs]
      exact append_ne_nil_of_right_ne_nil _ ha
    cases he
    exact TakenBack.moveToWaiting ⟨rfl, rfl, rfl, .inl rfl, ⟨rfl, rfl⟩, rfl, rfl, rfl⟩ (ans.pickVictim_mem _ hr)
  record := by
    intro ans p pending
    refine Annotated.chargeEncoder ?_ pending.encoder
    split
    · apply Annotated.setSpec
      apply (Annotated.refl pending.request p).setRequest
      rfl
    · exact .refl _ _

theorem start_fresh : (start cfg refiner s).Fresh := ⟨rfl, ⟨rfl, rfl, rfl⟩, ⟨rfl, rfl⟩, ⟨rfl, rfl, rfl, rfl⟩, rfl⟩

theorem start_ids : (start cfg refiner s).ids.Perm s.ids := by
  refine List.Perm.append_right _ ?_
  have hf := filter_append_perm
    (fun r => decide ((s.requests r).numPromptTokens ≤ (s.requests r).numComputedTokens)) s.running
  refine .trans (.of_eq ?_) hf
  simp only [start]
  congr 1
  refine filter_congr fun r _ => ?_
  rw [← decide_not, decide_eq_decide, Nat.not_le]

/-! ## The books -/

structure Books (budget : Int) (events : List PassEvent) (p : Pass) : Prop where
  keys : ∀ r, r ∈ p.numScheduledTokens.map Prod.fst ↔ r ∈ p.scheduledRunning ∨ .evicted r true ∈ events
  balance : p.tokenBudget + (p.numScheduledTokens.map Prod.snd).sum = budget
  evicted : ∀ r scheduled, .evicted r scheduled ∈ events → r ∈ p.preempted
  kept : p.recomputed = []

theorem Books.evict (h : Books bud events p) (hi : RunningInv init events p) (hev : Evictable p)
    (he : (rules cfg).evict ans p = .ok (v, q)) :
    Books bud (events ++ [.evicted v (decide (v ∈ p.scheduledRunning))]) q := by
  obtain ⟨before, after, hp⟩ := hi.placed
  have hs := ((rules_lawful cfg).evict _ _ _ _ hev he).scheduledRunning
  cases he
  refine ⟨fun r => ?_, h.balance, fun r sch hr => ?_, h.kept⟩
  · rw [hs, hp.nodup.mem_erase_iff, mem_append, mem_singleton, PassEvent.evicted.injEq]
    refine (h.keys r).trans ?_
    by_cases hrv : r = ans.pickVictim p.running
    · rw [hrv]; simp [or_comm]
    · simp [hrv]
  · rcases mem_append.mp hr with hr | hr
    · exact mem_append_left _ (h.evicted r sch hr)
    · cases mem_singleton.mp hr
      exact mem_append_right _ (mem_singleton.mpr rfl)

theorem mem_evicted_append (he : ∀ v b, e ≠ .evicted v b) :
    .evicted r sch ∈ events ++ [e] ↔ .evicted r sch ∈ events := by
  rw [mem_append, mem_singleton]
  exact or_iff_left fun h => he _ _ h.symm

theorem Books.step (h : Books bud events p) (hii : init.Nodup) (hinv : RunningInv init events p)
    (hs : RunningStep (rules cfg) ans p q e) : Books bud (events ++ [e]) q := by
  cases hs with
  | skip | stop | take =>
    refine ⟨fun r => ?_, h.balance, fun r b hr => h.evicted r b ?_, h.kept⟩
    · rw [mem_evicted_append (by simp)]
      exact h.keys r
    · exact (mem_evicted_append (by simp)).mp hr
  | @allocated pending blocks hst =>
    obtain ⟨hrun, hns⟩ := hinv.pending_new hii hst
    have hnew : pending.request ∉ p.numScheduledTokens.map Prod.fst := by
      rw [h.keys]
      rintro (hm | hm)
      · exact hns hm
      · exact hinv.notMem_of_waiting hii (hinv.preempted _ (h.evicted _ _ hm)) hrun
    obtain ⟨requests, spec, inputs, encoderBudget, timeBudget, heq, -⟩ := (rules_lawful cfg).record ans _ pending
    rw [heq]
    refine ⟨fun r => ?_, ?_, fun r b hr => h.evicted r b ?_, h.kept⟩
    · rw [mem_evicted_append (by simp)]
      simp only [charge, dictSet_of_notMem hnew, map_append, mem_append, h.keys r]
      simp [or_assoc, or_comm]
    · have hba := h.balance
      simp only [charge, dictSet_of_notMem hnew, map_append, sum_append, map_cons, map_nil, sum_cons, sum_nil]
      omega
    · exact (mem_evicted_append (by simp)).mp hr
  | evicted hst hev _ =>
    exact h.evict hinv (hinv.evictable hii hst) hev
  | lost hst hev =>
    have hq := h.evict hinv (hinv.evictable hii hst) hev
    exact ⟨hq.keys, hq.balance, hq.evicted, hq.kept⟩

theorem books_of_reach (hs : s.Distinct) (h : Reach (runningTurn (rules cfg) world) (start cfg refiner s) events p) :
    RunningInv (start cfg refiner s).ids events p ∧ Books (start cfg refiner s).tokenBudget events p := by
  have hi : (start cfg refiner s).ids.Nodup := start_ids.nodup_iff.mpr hs
  have hf : (start cfg refiner s).Fresh := start_fresh
  have h0 := hf.runningInv
  refine ⟨.of_reach (rules_lawful cfg) hi h0 h, ?_⟩
  induction h with
  | start => exact ⟨by simp [start], by simp [start], by simp, rfl⟩
  | step hr hb ih =>
    have hinv := RunningInv.of_reach (rules_lawful cfg) hi h0 hr
    have ht : Books _ _ (tick _) := ⟨ih.keys, ih.balance, ih.evicted, ih.kept⟩
    exact ht.step hi hinv.tick (runningTurn_ok hb)

/-! ## The output of a step -/

/-- What the output says of itself: `considered` are the running requests the loop looked at. -/
structure Consistent (budget : Int) (considered : List RequestId) (p : Pass) : Prop where
  keys : ∀ r, r ∈ p.numScheduledTokens.map Prod.fst ↔
    r ∈ p.scheduledNew ∨ r ∈ p.scheduledResumed ∨ r ∈ p.scheduledRunning
  notPreempted : ∀ r ∈ p.preempted, r ∉ p.numScheduledTokens.map Prod.fst
  once : considered.Nodup
  balance : p.tokenBudget + (p.numScheduledTokens.map Prod.snd).sum = budget

theorem Books.keys_of_kept (h : Books bud events p) (hp : p.preempted = []) (r : RequestId) :
    r ∈ p.numScheduledTokens.map Prod.fst ↔ r ∈ p.scheduledRunning := by
  refine (h.keys r).trans (or_iff_left fun hr => ?_)
  have hpr := h.evicted r true hr
  rw [hp] at hpr
  cases hpr

theorem schedule_consistent (cfg : SchedulerConfig) (refiner : BudgetRefiner) (world : Nat → Answers) (s : Queues)
    (hs : s.Distinct) :
    schedule cfg refiner world s ≠ .ok none ∧ ∀ p, schedule cfg refiner world s = .ok (some p) →
      (Consistent (start cfg refiner s).tokenBudget
          (consideredOf (runningEvents (rules cfg) world (start cfg refiner s))) p ↔
        ∀ v, .evicted v true ∉ runningEvents (rules cfg) world (start cfg refiner s)) := by
  have hii : (start cfg refiner s).ids.Nodup := start_ids.nodup_iff.mpr hs
  refine ⟨schedulePass_ne_none (rules_lawful cfg) start_fresh hii, fun p h => ?_⟩
  obtain ⟨-, p₁, loras, hre, hca⟩ := schedulePass_ok h
  obtain ⟨hinv, hbo⟩ := books_of_reach hs hre
  rcases hca with ⟨-, rfl, -⟩ | ⟨hto, p₂, requests, hre', rfl, -⟩
  · constructor
    · intro hco v hv
      exact hco.notPreempted v (hbo.evicted v true hv) ((hbo.keys v).mpr (.inr hv))
    · intro hno
      have hke : ∀ r, r ∈ p₁.numScheduledTokens.map Prod.fst ↔ r ∈ p₁.scheduledRunning :=
        fun r => (hbo.keys r).trans (or_iff_left (hno r))
      refine ⟨hinv.keys_new hke, fun r hr hk => ?_, hinv.once, hbo.balance⟩
      exact hinv.notMem_of_waiting hii (hinv.preempted r hr) (hinv.scheduled_running ((hke r).mp hk))
  · have hpr : p₁.preempted = [] := isEmpty_iff.mp hto
    have hw := (hinv.waitingInv hii (hbo.keys_of_kept hpr) hbo.balance ⟨hpr, hbo.kept⟩ loras).of_reach hre'
    refine iff_of_true ⟨hw.keys, fun r hr => ?_, hinv.once, hw.balance⟩ fun v hv => ?_
    · have hnone : p₂.preempted = [] := hw.kept.1
      rw [show (Pass.requeue cfg { p₂.tick with requests }).preempted = p₂.preempted from rfl, hnone] at hr
      cases hr
    · have hmem := hbo.evicted v true hv
      rw [hpr] at hmem
      cases hmem

end

theorem schedule_consistent_two : twoDecodes.Distinct ∧
    ∃ p, schedule smallConfig {} (fun _ => plainAnswers true) twoDecodes = .ok (some p) ∧
      p.numScheduledTokens = [(0, 1), (1, 1)] ∧
      Consistent 10 (consideredOf (runningEvents (rules smallConfig) (fun _ => plainAnswers true)
        (start smallConfig {} twoDecodes))) p := by
  have hd : twoDecodes.Distinct := by decide
  obtain ⟨-, hi⟩ := schedule_consistent smallConfig {} (fun _ => plainAnswers true) twoDecodes hd
  obtain ⟨p, hp, ht⟩ := exists_of_returned (show ∃ p ∈ returned (schedule smallConfig {} (fun _ => plainAnswers true)
    twoDecodes), p.numScheduledTokens = [(0, 1), (1, 1)] by decide +kernel)
  refine ⟨hd, p, hp, ht, (hi p hp).mpr fun v hv => ?_⟩
  have he : runningEvents (rules smallConfig) (fun _ => plainAnswers true) (start smallConfig {} twoDecodes) =
      [.considered 0, .allocated 0, .considered 1, .allocated 1] := by decide +kernel
  rw [he] at hv
  simp at hv

/-- The slots of request `1` are there only after request `0`, scheduled before it, was preempted. -/
theorem schedule_inconsistent : twoDecodes.Distinct ∧
    ∃ p, schedule smallConfig {} (fun turn => plainAnswers (turn ≠ 3)) twoDecodes = .ok (some p) ∧
      p.numScheduledTokens = [(0, 1), (1, 1)] ∧ p.scheduledRunning = [1] ∧ p.preempted = [0] ∧
      ¬ Consistent 10 (consideredOf (runningEvents (rules smallConfig) (fun turn => plainAnswers (turn ≠ 3))
        (start smallConfig {} twoDecodes))) p := by
  obtain ⟨p, hp, ht, hr, hpr⟩ := exists_of_returned (show ∃ p ∈ returned
    (schedule smallConfig {} (fun turn => plainAnswers (turn ≠ 3)) twoDecodes),
    p.numScheduledTokens = [(0, 1), (1, 1)] ∧ p.scheduledRunning = [1] ∧ p.preempted = [0] by decide +kernel)
  refine ⟨by decide, p, hp, ht, hr, hpr, fun hc => ?_⟩
  refine hc.notPreempted 0 (by rw [hpr]; simp) ?_
  rw [ht]
  simp

/-! ## Where the requests go -/

section
variable {queue name : QueueName} {r : RequestId}

theorem tryStart_skip (h : tryStart cfg ans queue p r req = .ok (req', .skip name)) : name = queue := by
  unfold tryStart at h
  split at h
  · cases h; rfl
  · split at h
    · split at h <;> cases h
    · cases h
  simp only at h
  split at h
  · cases h; rfl
  split at h
  · cases h
  split at h
  · cases h
  · split at h <;> cases h

theorem examine_skip (h : examine cfg ans queue p r = .ok (req, .skip name)) :
    (decide ((p.requests r).status = .waitingForStructuredOutput) && !ans.grammar r) = false ∧ name = queue ∨
      (decide ((p.requests r).status = .waitingForStructuredOutput) && !ans.grammar r) = true ∧
        name = .waiting := by
  unfold examine at h
  simp only at h
  split at h
  · rename_i hs
    split at h
    · rename_i hg
      exact .inl ⟨by simp [hg], examineWith_skip (fun _ _ ht => tryStart_skip ht) h⟩
    rename_i hg
    cases h
    exact .inr ⟨by simp [hs, hg], rfl⟩
  · rename_i hs
    exact .inl ⟨by simp [hs], examineWith_skip (fun _ _ ht => tryStart_skip ht) h⟩

theorem examine_ready (h : examine cfg ans queue p r = .ok (req, outcome)) (hs : ∀ name, outcome ≠ .skip name) :
    (decide ((p.requests r).status = .waitingForStructuredOutput) && !ans.grammar r) = false := by
  by_contra hne
  have hg : (p.requests r).status = .waitingForStructuredOutput ∧ ans.grammar r = false := by
    simpa using hne
  rw [examine] at h
  simp only [hg.1, hg.2, if_true, Bool.false_eq_true, if_false] at h
  cases h
  exact hs _ rfl

def Foreign : PassEvent → Prop
  | .examined queue r pendingGrammar popped => popped ≠ r ↔ queue = .skippedWaiting ∧ pendingGrammar = true
  | _ => True

theorem WaitingStep.foreign (hdi : p.Distinct) (hs : WaitingStep (rules cfg) cfg ans p q e) : Foreign e := by
  cases hs with
  | @load queue r popped req req' q computed hpe hea hpop =>
    obtain rfl := pop_eq_peek hpe hpop
    rw [examine_ready hea (by simp)]
    simp [Foreign]
  | @start queue r popped req q q' start hpe _ hea hpop hst =>
    obtain rfl := pop_eq_peek hpe hpop
    rw [examine_ready hea (by simp)]
    simp [Foreign]
  | @skip queue name r popped req q hpe hea hpop =>
    rcases examine_skip hea with ⟨hgr, rfl⟩ | ⟨hgr, rfl⟩
    · obtain rfl := pop_eq_peek hpe hpop
      rw [hgr]
      simp [Foreign]
    rw [hgr]
    cases queue with
    | waiting =>
      obtain rfl := pop_eq_peek hpe hpop
      simp [Foreign]
    | skippedWaiting =>
      -- the two queues have no request in common
      refine iff_of_true (fun heq => ?_) ⟨rfl, rfl⟩
      obtain ⟨rest, hrest⟩ := peek_ok hpe
      obtain ⟨waiting, _, -, -, ⟨-, hwa, -⟩ | ⟨hna, -⟩⟩ := pop_ok hpop
      · have hw : p.waiting = popped :: waiting := hwa
        have hs : p.skippedWaiting = r :: rest := hrest
        have hqu := (nodup_append.mp hdi).2.1
        rw [hw, hs] at hqu
        exact (nodup_append.mp hqu).2.2 popped (by simp) r (by simp) heq
      · cases hna

theorem schedule_conserves (cfg : SchedulerConfig) (refiner : BudgetRefiner) (world : Nat → Answers) (s : Queues)
    (hs : s.Distinct) :
    schedule cfg refiner world s ≠ .ok none ∧ ∀ p, schedule cfg refiner world s = .ok (some p) →
      let events := waitingEvents (rules cfg) world cfg (fun p => p.preempted.isEmpty) (start cfg refiner s)
      ((p.Distinct ∧ p.ids.Perm s.ids ∧
          ∀ queue r pendingGrammar popped, .examined queue r pendingGrammar popped ∈ events → popped = r) ↔
        ∀ r popped, .examined .skippedWaiting r true popped ∉ events) := by
  have hii : (start cfg refiner s).ids.Nodup := start_ids.nodup_iff.mpr hs
  refine ⟨schedulePass_ne_none (rules_lawful cfg) start_fresh hii, fun p h => ?_⟩
  intro events
  obtain ⟨-, p₁, loras, hre, hca⟩ := schedulePass_ok h
  obtain ⟨hinv, hbo⟩ := books_of_reach hs hre
  have hid : p₁.ids.Perm s.ids := (hinv.ids_perm hbo.kept).trans start_ids
  rcases hca with ⟨-, rfl, hev⟩ | ⟨hto, p₂, requests, hre', rfl, -⟩
  · have hnone : events = [] := hev
    refine iff_of_true ⟨hid.nodup_iff.mpr hs, hid, ?_⟩ ?_ <;> simp [hnone]
  have hpr : p₁.preempted = [] := isEmpty_iff.mp hto
  have hw := hinv.waitingInv hii (hbo.keys_of_kept hpr) hbo.balance ⟨hpr, hbo.kept⟩ loras
  have hfo := (hre'.forall_events (P := WaitingInv _) (Q := Foreign) hw fun s s' e hs hb =>
    ⟨hs.tick.step (waitingTurn_ok hb), WaitingStep.foreign hs.tick.distinct (waitingTurn_ok hb)⟩).2
  constructor
  · rintro ⟨-, -, hpop⟩ r popped hm
    exact (hfo _ hm).mpr ⟨rfl, rfl⟩ (hpop _ _ _ _ hm)
  · intro hno
    have hpop : ∀ queue r pendingGrammar popped, .examined queue r pendingGrammar popped ∈ events → popped = r := by
      intro queue r g popped hm
      by_contra hne
      obtain ⟨rfl, rfl⟩ := (hfo _ hm).mp hne
      exact hno r popped hm
    have hall : (Pass.requeue cfg { p₂.tick with requests }).ids.Perm s.ids :=
      (hinv.ids_of_pass hbo.kept hre' hpop).trans start_ids
    exact ⟨hall.nodup_iff.mpr hs, hall, hpop⟩

end

def grammarQueues : Queues where
  requests r := if r = 0 then { status := .waitingForStructuredOutput, numTokens := 2 } else { numTokens := 2 }
  waiting := [1]
  skippedWaiting := [0]
  running := []

def grammarAt (turn : Nat) (t : Nat) : Answers := { plainAnswers true with grammar := fun _ => turn ≤ t }

theorem schedule_conserves_grammar : grammarQueues.Distinct ∧
    ∃ p, schedule smallConfig {} (grammarAt 0) grammarQueues = .ok (some p) ∧ p.running = [0, 1] ∧
      p.ids.Perm grammarQueues.ids := by
  have hd : grammarQueues.Distinct := by decide
  obtain ⟨-, hi⟩ := schedule_conserves smallConfig {} (grammarAt 0) grammarQueues hd
  obtain ⟨p, hp, hr⟩ := exists_of_returned (show ∃ p ∈ returned (schedule smallConfig {} (grammarAt 0)
    grammarQueues), p.running = [0, 1] by decide +kernel)
  refine ⟨hd, p, hp, hr, ((hi p hp).mpr fun r popped hm => ?_).2.1⟩
  have he : waitingEvents (rules smallConfig) (grammarAt 0) smallConfig (fun p => p.preempted.isEmpty)
      (start smallConfig {} grammarQueues) =
      [.examined .skippedWaiting 0 false 0, .examined .waiting 1 false 1] := by decide +kernel
  rw [he] at hm
  simp at hm

/-- Request `0` is examined without its grammar and then with it: request `1` is lost. -/
theorem schedule_loses_request : grammarQueues.Distinct ∧
    raisedBy (schedule smallConfig {} (grammarAt 9) grammarQueues) = some (.indexError "pop from an empty deque") ∧
    ∃ p, schedule smallConfig {} (grammarAt 2) grammarQueues = .ok (some p) ∧
      p.running = [0] ∧ p.waiting = [] ∧ p.skippedWaiting = [0] ∧ ¬ p.ids.Perm grammarQueues.ids ∧
      .examined .skippedWaiting 0 true 1 ∈ waitingEvents (rules smallConfig) (grammarAt 2) smallConfig
        (fun p => p.preempted.isEmpty) (start smallConfig {} grammarQueues) := by
  obtain ⟨p, hp, hr, hw, hs⟩ := exists_of_returned (show ∃ p ∈ returned (schedule smallConfig {} (grammarAt 2)
    grammarQueues), p.running = [0] ∧ p.waiting = [] ∧ p.skippedWaiting = [0] by decide +kernel)
  refine ⟨by decide, by decide +kernel, p, hp, hr, hw, hs, fun hperm => ?_, by decide +kernel⟩
  have hm : 1 ∈ p.ids := hperm.mem_iff.mpr (by decide)
  rw [Queues.ids, hr, hw, hs] at hm
  simp at hm

end VllmAscend.Sched.SchedulerDynamicBatch
