import VllmAscend.Sched.PassSound
import VllmAscend.Sched.Preempting

/-!
# The books of the recompute and the profiling-chunk scheduler

Whatever a step had given to a request it then preempts is taken back: tokens,
blocks, draft tokens, encoder inputs and the place in the list. So at the end
the books hold the scheduled requests and no others.
-/

namespace VllmAscend.Sched

open Python Run Pass
open List hiding isEmpty_iff

variable {p q : Pass} {ans : Answers}

/-! ## The books during the run over the running requests -/

structure Booked (budget : Int) (p : Pass) : Prop where
  keys : p.numScheduledTokens.map Prod.fst = p.scheduledRunning
  blocks : p.reqToNewBlocks.map Prod.fst = p.scheduledRunning
  spec : ∀ r ∈ p.scheduledSpecDecodeTokens.map Prod.fst, r ∈ p.scheduledRunning
  inputs : ∀ r ∈ p.scheduledEncoderInputs.map Prod.fst, r ∈ p.scheduledRunning
  balance : p.tokenBudget + (p.numScheduledTokens.map Prod.snd).sum = budget

def Rules.Undoes (rules : Rules) : Prop :=
  ∀ answers p v q budget, Evictable p → p.scheduledRunning.Nodup → rules.evict answers p = .ok (v, q) →
    Booked budget p → Booked budget q

section
variable {bud : Int}

theorem Booked.step (hl : rules.Lawful) (hu : rules.Undoes) (hii : init.Nodup) (hinv : RunningInv init events p)
    (h : Booked bud p) (hs : RunningStep rules ans p q e) : Booked bud q := by
  obtain ⟨_, _, hp⟩ := hinv.placed
  cases hs with
  | skip | stop | take => exact ⟨h.keys, h.blocks, h.spec, h.inputs, h.balance⟩
  | @allocated pending blocks hst =>
    have hset : ∀ {β : Type} {d : List (RequestId × β)} {value : β}, d.map Prod.fst = p.scheduledRunning →
        dictSet pending.request value d = d ++ [(pending.request, value)] :=
      fun hd => dictSet_of_notMem (hd ▸ (hinv.pending_new hii hst).2)
    obtain ⟨requests, spec, inputs, encoderBudget, timeBudget, heq, -, hsp, hip⟩ := hl.record ans _ pending
    rw [heq]
    refine ⟨?_, ?_, fun r hr => ?_, fun r hr => ?_, ?_⟩
    · simp only [charge, hset h.keys, map_append, h.keys]; rfl
    · simp only [charge, hset h.blocks, map_append, h.blocks]; rfl
    · rcases hsp r hr with rfl | hr
      · exact mem_append_right _ (mem_singleton.mpr rfl)
      · exact mem_append_left _ (h.spec r hr)
    · rcases hip r hr with rfl | hr
      · exact mem_append_right _ (mem_singleton.mpr rfl)
      · exact mem_append_left _ (h.inputs r hr)
    · have hba := h.balance
      simp only [charge, hset h.keys, map_append, sum_append, map_cons, map_nil, sum_cons, sum_nil]
      omega
  | evicted hst hev _ => exact hu _ _ _ _ _ (hinv.evictable hii hst) hp.nodup hev h
  | lost hst hev =>
    have hq := hu _ _ _ _ _ (hinv.evictable hii hst) hp.nodup hev h
    exact ⟨hq.keys, hq.blocks, hq.spec, hq.inputs, hq.balance⟩

theorem booked_of_reach (hl : rules.Lawful) (hu : rules.Undoes) (hfr : p0.Fresh) (hid : p0.Distinct)
    (h : Reach (runningTurn rules world) p0 events p) : Booked p0.tokenBudget p := by
  obtain ⟨htok, hbl, hsp, hip⟩ := hfr.books
  have hsc := hfr.scheduled.1
  induction h with
  | start =>
    exact ⟨by simp [htok, hsc], by simp [hbl, hsc], by simp [hsp], by simp [hip], by simp [htok]⟩
  | step hre hb ih =>
    have hinv := RunningInv.of_reach hl hid hfr.runningInv hre
    have hti : Booked p0.tokenBudget (tick _) := ⟨ih.keys, ih.blocks, ih.spec, ih.inputs, ih.balance⟩
    exact hti.step hl hu hid hinv.tick (runningTurn_ok hb)

/-! ## The books at the end -/

/-- The books of a step: `lost` are the requests preempted or dropped in it. -/
structure Accounted (budget : Int) (maxNumScheduledTokens : Nat) (p : Pass) : Prop where
  keys : ∀ r, r ∈ p.numScheduledTokens.map Prod.fst ↔
    r ∈ p.scheduledNew ∨ r ∈ p.scheduledResumed ∨ r ∈ p.scheduledRunning
  balance : p.tokenBudget + (p.numScheduledTokens.map Prod.snd).sum = budget
  total : (p.numScheduledTokens.map Prod.snd).sum ≤ maxNumScheduledTokens
  lost : ∀ r, r ∈ p.preempted ∨ r ∈ p.dropped → r ∉ p.numScheduledTokens.map Prod.fst ∧
    r ∉ p.scheduledSpecDecodeTokens.map Prod.fst ∧ r ∉ p.scheduledEncoderInputs.map Prod.fst ∧
    r ∉ p.reqToNewBlocks.map Prod.fst

theorem schedulePass_accounted {toWaiting : Pass → Bool} (hl : rules.Lawful) (hu : rules.Undoes) (hfr : p.Fresh)
    (hid : p.Distinct)
    (hto : ∀ events p₁ scheduledLoras, Reach (runningTurn rules world) p events p₁ →
      toWaiting { p₁.tick with scheduledLoras } = true → p₁.preempted = [] ∧ p₁.recomputed = [])
    (h : schedulePass rules world cfg toWaiting p = .ok (some q)) :
    Accounted p.tokenBudget cfg.maxNumScheduledTokens q := by
  obtain ⟨hco, p₁, loras, hre, hca⟩ := schedulePass_ok h
  have hinv := RunningInv.of_reach hl hid hfr.runningInv hre
  have hbo := booked_of_reach hl hu hfr hid hre
  have htt : (q.numScheduledTokens.map Prod.snd).sum ≤ cfg.maxNumScheduledTokens := by
    simp only [constraints, Bool.and_eq_true, decide_eq_true_eq] at hco
    exact hco.1.1.1
  have hke : ∀ r, r ∈ p₁.numScheduledTokens.map Prod.fst ↔ r ∈ p₁.scheduledRunning := fun r => by rw [hbo.keys]
  rcases hca with ⟨-, rfl, -⟩ | ⟨hwa, p2, requests, hre', rfl, -⟩
  · refine ⟨hinv.keys_new hke, hbo.balance, htt, fun r hr => ?_⟩
    have hnot : r ∉ p₁.scheduledRunning := by
      intro hm
      rcases hr with hr | hr
      · exact hinv.notMem_of_waiting hid (hinv.preempted r hr) (hinv.scheduled_running hm)
      · exact hinv.notMem_of_dropped hid hr (hinv.scheduled_running hm)
    exact ⟨fun hk => hnot ((hke r).mp hk), fun hk => hnot (hbo.spec r hk), fun hk => hnot (hbo.inputs r hk),
      fun hk => hnot (hbo.blocks ▸ hk)⟩
  · have hw := (hinv.waitingInv hid hke hbo.balance (hto _ _ _ hre hwa) loras).of_reach hre'
    refine ⟨hw.keys, hw.balance, htt, fun r hr => ?_⟩
    have hnone : p2.preempted = [] ∧ p2.dropped = [] := ⟨hw.kept.1, by rw [dropped, hw.kept.2]; rfl⟩
    rcases hr with hr | hr
    · rw [show (requeue cfg { p2.tick with requests }).preempted = p2.preempted from rfl, hnone.1] at hr
      cases hr
    · rw [show (requeue cfg { p2.tick with requests }).dropped = p2.dropped from rfl, hnone.2] at hr
      cases hr

/-! ## Taking back -/

theorem Booked.rollBack (h : Booked bud p)
    (hnod : p.scheduledRunning.Nodup) (hq : rollBack embeds p v = .ok q) : Booked bud q := by
  unfold Sched.rollBack at hq
  split at hq
  · split at hq
    · rename_i n blocks hn hbl
      cases hq
      have hke : (p.numScheduledTokens.map Prod.fst).Nodup := h.keys ▸ hnod
      refine ⟨?_, ?_, fun r hr => ?_, fun r hr => ?_, ?_⟩
      · rw [map_fst_dictPop hke, h.keys]
      · rw [map_fst_dictPop (h.blocks ▸ hnod), h.blocks]
      · obtain ⟨item, hie, rfl⟩ := mem_map.mp hr
        obtain ⟨hie, hne⟩ := mem_dictPop.mp hie
        exact (mem_erase_of_ne hne).mpr (h.spec _ (mem_map_of_mem hie))
      · obtain ⟨item, hie, rfl⟩ := mem_map.mp hr
        obtain ⟨hie, hne⟩ := mem_dictPop.mp hie
        exact (mem_erase_of_ne hne).mpr (h.inputs _ (mem_map_of_mem hie))
      · have hsum := sum_dictPop hke hn
        have hba := h.balance
        simp only
        omega
    · cases hq
  · cases hq
    exact h

theorem rollBack_ok (hq : rollBack embeds p v = .ok q) : TakenBack p v q := by
  unfold rollBack at hq
  split at hq
  · rename_i hv
    split at hq
    · cases hq
      exact ⟨rfl, rfl, rfl, .inr ⟨hv, rfl⟩, ⟨rfl, rfl⟩, rfl, rfl, rfl⟩
    · cases hq
  · rename_i hv
    cases hq
    exact ⟨rfl, rfl, (erase_of_not_mem hv).symm, .inl rfl, ⟨rfl, rfl⟩, rfl, rfl, rfl⟩

theorem evictVictim_evicted (hp : Evictable p) (h : evictVictim cfg embeds ans p = .ok (v, q)) : Evicted p v q := by
  obtain ⟨-, before, after, hsp, haf, -⟩ := hp
  have hrun : p.running ≠ [] := by
    rw [hsp]
    exact append_ne_nil_of_right_ne_nil _ haf
  obtain ⟨p', hro, h⟩ := bind_ok.mp h
  cases h
  exact (rollBack_ok hro).moveToWaiting (ans.pickVictim_mem _ hrun)

theorem evictVictim_booked (hn : p.scheduledRunning.Nodup)
    (h : evictVictim cfg embeds ans p = .ok (v, q)) (hb : Booked bud p) : Booked bud q := by
  obtain ⟨p', hr, h⟩ := bind_ok.mp h
  cases h
  have hp' := hb.rollBack hn hr
  exact ⟨hp'.keys, hp'.blocks, hp'.spec, hp'.inputs, hp'.balance⟩

theorem recordSpec_annotated (h : Annotated r p0 p) (n : Int) : Annotated r p0 (recordSpec p r n) := by
  unfold recordSpec
  simp only
  split
  · exact h
  split
  · apply Annotated.setSpec
    apply h.setRequest
    rfl
  · apply h.setRequest
    rfl

end

namespace RecomputeScheduler

theorem evictLast_evicted (hp : Evictable p) (h : evictLast cfg ans p = .ok (v, q)) : Evicted p v q := by
  obtain ⟨hnod, before, after, hsp, haf, hsc⟩ := hp
  unfold evictLast at h
  split at h
  · cases h
  rename_i r hlast
  have hlast' : after.getLast? = some r := by
    rw [hsp, getLast?_append_of_ne_nil _ haf] at hlast
    exact hlast
  have hmem : r ∈ p.running := mem_of_getLast? hlast
  have hnot : r ∉ p.scheduledRunning := by
    intro hm
    rw [hsp] at hnod
    exact (nodup_append.mp hnod).2.2 r (hsc r hm) r (mem_of_getLast? hlast') rfl
  have hea : p.scheduledRunning = p.scheduledRunning.erase r := (erase_of_not_mem hnot).symm
  have hdr : p.running.dropLast = p.running.erase r := by
    have hrun := dropLast_append_getLast? r hlast
    rw [← hrun] at hnod
    have hr : r ∉ p.running.dropLast := fun hm => (nodup_append.mp hnod).2.2 r hm r (by simp) rfl
    conv_rhs => rw [← hrun, erase_append_right _ hr]
    simp
  split at h
  · cases h
    exact TakenBack.moveToWaiting ⟨rfl, rfl, hea, .inl rfl, ⟨rfl, rfl⟩, rfl, rfl, rfl⟩ hmem
  cases h
  refine ⟨hmem, hdr, hea, .inl rfl, rfl, rfl, rfl, rfl, rfl, fun _ _ => rfl, .inr ⟨rfl, rfl, ?_⟩⟩
  simp [dropped]

theorem rules_lawful (cfg : Config) : (rules cfg).Lawful where
  evict ans p v q hp h := by
    simp only [rules, evict] at h
    split at h
    · exact evictLast_evicted hp h
    · exact evictVictim_evicted hp h
  record _ p pending := (recordSpec_annotated (.refl _ p) _).chargeEncoder _

theorem rules_undoes (cfg : Config) : (rules cfg).Undoes := by
  intro ans p v q bud hp hn h hb
  simp only [rules, evict] at h
  split at h
  · -- nothing had been given to the last request
    unfold evictLast at h
    split at h
    · cases h
    · simp only at h
      split at h <;> cases h <;> exact ⟨hb.keys, hb.blocks, hb.spec, hb.inputs, hb.balance⟩
  · exact evictVictim_booked hn h hb

theorem start_fresh (cfg : Config) (s : Queues) : (start cfg s).Fresh :=
  ⟨rfl, ⟨rfl, rfl, rfl⟩, ⟨rfl, rfl⟩, ⟨rfl, rfl, rfl, rfl⟩, rfl⟩

end RecomputeScheduler

namespace ProfilingChunkScheduler

theorem rules_lawful (cfg : Config) : (rules cfg).Lawful where
  evict _ _ _ _ hp h := evictVictim_evicted hp h
  record ans p pending := by
    refine (recordSpec_annotated ?_ _).chargeEncoder _
    unfold chargeTime
    split
    · exact ⟨_, _, _, _, _, rfl, fun _ => rfl, fun _ hk => .inr hk, fun _ hk => .inr hk⟩
    · exact .refl _ _

theorem rules_undoes (cfg : Config) : (rules cfg).Undoes := fun _ _ _ _ _ _ hn h hb => evictVictim_booked hn h hb

theorem start_fresh (cfg : Config) (s : Queues) : (start cfg s).Fresh :=
  ⟨rfl, ⟨rfl, rfl, rfl⟩, ⟨rfl, rfl⟩, ⟨rfl, rfl, rfl, rfl⟩, rfl⟩

theorem recomputed_of_reach (h : Reach (runningTurn (rules cfg) world) (start cfg s) events p) : p.recomputed = [] := by
  refine recomputed_of_running (rules_lawful cfg) rfl (fun h => ?_) h
  obtain ⟨p', hr, h⟩ := bind_ok.mp h
  cases h
  exact (rollBack_ok hr).out.2

end ProfilingChunkScheduler

theorem schedule_accounted : (∀ (cfg : RecomputeScheduler.Config) (world : Nat → Answers) (s : Queues), s.Distinct →
      RecomputeScheduler.schedule cfg world s ≠ .ok none ∧
      ∀ p, RecomputeScheduler.schedule cfg world s = .ok (some p) →
        Accounted (RecomputeScheduler.start cfg s).tokenBudget cfg.maxNumScheduledTokens p) ∧
    ∀ (cfg : ProfilingChunkScheduler.Config) (world : Nat → Answers) (s : Queues), s.Distinct →
      ProfilingChunkScheduler.schedule cfg world s ≠ .ok none ∧
      ∀ p, ProfilingChunkScheduler.schedule cfg world s = .ok (some p) →
        Accounted (ProfilingChunkScheduler.start cfg s).tokenBudget cfg.maxNumScheduledTokens p := by
  constructor
  · intro cfg world s hs
    refine ⟨schedulePass_ne_none (RecomputeScheduler.rules_lawful cfg) (RecomputeScheduler.start_fresh cfg s) hs,
      fun p h => schedulePass_accounted (RecomputeScheduler.rules_lawful cfg) (RecomputeScheduler.rules_undoes cfg)
        (RecomputeScheduler.start_fresh cfg s) hs ?_ h⟩
    intro events p₁ loras _ hto
    simp only [RecomputeScheduler.toWaiting, Bool.and_eq_true, List.isEmpty_iff] at hto
    exact hto.1
  · intro cfg world s hs
    refine ⟨schedulePass_ne_none (ProfilingChunkScheduler.rules_lawful cfg)
      (ProfilingChunkScheduler.start_fresh cfg s) hs,
      fun p h => schedulePass_accounted (ProfilingChunkScheduler.rules_lawful cfg)
        (ProfilingChunkScheduler.rules_undoes cfg) (ProfilingChunkScheduler.start_fresh cfg s) hs ?_ h⟩
    intro events p₁ loras hr hto
    simp only [ProfilingChunkScheduler.toWaiting, Bool.and_eq_true, List.isEmpty_iff] at hto
    exact ⟨hto.1, ProfilingChunkScheduler.recomputed_of_reach hr⟩

theorem schedule_accounted_two : twoDecodes.Distinct ∧
    (∃ p, RecomputeScheduler.schedule ⟨smallConfig, false, false, fun _ _ => 0⟩ (fun turn => plainAnswers (turn ≠ 3))
        twoDecodes = .ok (some p) ∧
      p.numScheduledTokens = [(1, 1)] ∧ p.preempted = [0] ∧ Accounted 10 10 p) ∧
    ∃ p, ProfilingChunkScheduler.schedule ⟨smallConfig, none, false, false, fun _ _ => 0⟩
        (fun turn => plainAnswers (turn ≠ 3)) twoDecodes = .ok (some p) ∧
      p.numScheduledTokens = [(1, 1)] ∧ p.preempted = [0] ∧ Accounted 10 10 p := by
  have hd : twoDecodes.Distinct := by decide
  obtain ⟨p, hp, ht, hpr⟩ := exists_of_returned (show ∃ p ∈ returned
    (RecomputeScheduler.schedule ⟨smallConfig, false, false, fun _ _ => 0⟩ (fun turn => plainAnswers (turn ≠ 3))
      twoDecodes), p.numScheduledTokens = [(1, 1)] ∧ p.preempted = [0] by decide +kernel)
  obtain ⟨p', hp', ht', hpr'⟩ := exists_of_returned (show ∃ p ∈ returned
    (ProfilingChunkScheduler.schedule ⟨smallConfig, none, false, false, fun _ _ => 0⟩
      (fun turn => plainAnswers (turn ≠ 3)) twoDecodes), p.numScheduledTokens = [(1, 1)] ∧ p.preempted = [0] by
    decide +kernel)
  exact ⟨hd, ⟨p, hp, ht, hpr, (schedule_accounted.1 _ _ _ hd).2 p hp⟩,
    p', hp', ht', hpr', (schedule_accounted.2 _ _ _ hd).2 p' hp'⟩

end VllmAscend.Sched
