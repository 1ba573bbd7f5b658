import VllmAscend.Rhythm.PlanAgreement

/-!
# The life of a proposal

Three stores hold the proposals of a rank: the mailboxes name them, the payloads
carry their tokens, the request states say what they continue.
-/

namespace VllmAscend

open Python Rows Run PearlPipelineState

structure MailboxOk (r : RhythmRank) : Prop where
  staged : ∀ i, r.controller.stagedEager i = none
  keys : ∀ pid, (∃ payload, r.payloads pid = some payload) ↔
    ∃ i ticket, r.controller.ready i = some ticket ∧ ticket.proposalId = pid
  epoch : ∀ i ticket, r.controller.ready i = some ticket →
    ∃ state, r.controller.requestStates i = some state ∧ ticket.requiredPrefixEpoch = state.prefixEpoch
  planned : r.activeIndices ≠ [] → ∃ plan c, r.controller.buildPlan r.activeIndices = .ok (plan, c) ∧
    (∀ i ∈ plan.normalDraftRequestIndices, i ∉ plan.eagerCandidateIndices) ∧
    (plan.phase = .steady ∧ plan.targetRequestIndices ≠ [] ∨
      plan.phase = .warmup ∧ plan.normalDraftRequestIndices ≠ []) ∧
    ∀ i ∈ plan.targetRequestIndices, ∃ ticket payload, c.ready i = some ticket ∧
      r.payloads ticket.proposalId = some payload ∧ payload.validateFor (r.states i) = .ok ()

section
variable (h : Between run prompt windows draft t)
include h

theorem Between.ready_eq (hr : t.controller.ready i = some tk) :
    tk = (front windows i).ticket ∧ windows i = [front windows i] ∧
      WindowFor run.gamma i (t.states i) (front windows i) := by
  rw [h.ready] at hr
  have hne : windows i ≠ [] := by
    intro hno
    rw [hno] at hr
    cases hr
  have heq := h.settled.eq_front hne
  have hc := h.chain i
  rw [heq] at hr hc
  exact ⟨(Option.some.inj hr).symm, heq, hc.1⟩

theorem Between.keys (pid : Nat) : (∃ pl, t.payloads pid = some pl) ↔
    ∃ i tk, t.controller.ready i = some tk ∧ tk.proposalId = pid := by
  constructor
  · rintro ⟨pl, hp⟩
    obtain ⟨hid, hm⟩ := (h.payloads pid pl).mp hp
    have heq := h.settled.eq_front (List.ne_nil_of_mem hm)
    rw [heq, List.mem_singleton] at hm
    refine ⟨pl.ticket.requestIndex, pl.ticket, ?_, hid⟩
    rw [h.ready, heq, ← hm]
    rfl
  · rintro ⟨i, tk, hr, hid⟩
    obtain ⟨rfl, heq, hf⟩ := h.ready_eq hr
    refine ⟨front windows i, (h.payloads pid _).mpr ⟨hid, ?_⟩⟩
    rw [hf.request, heq]
    simp

theorem Between.mailboxOk (ha : AheadOf t st) (completed : Nat → Option PearlPipelineState) :
    MailboxOk (t.asDraft st completed) := by
  obtain ⟨plan, hbu, hpl⟩ := buildPlan_ok h.toFlight h.settled
  have hst : ∀ i, t.controller.stagedEager i = none := Settled.staged h.toFlight h.settled
  refine ⟨hst, h.keys, ?_, ?_⟩
  · intro i tk hr
    obtain ⟨rfl, heq, hfo⟩ := h.ready_eq hr
    have hact := h.flying i (by rw [heq]; simp)
    obtain ⟨state, hstt, hep⟩ := h.registered i (h.active_lt hact).1
    exact ⟨state, hstt, hfo.epoch.trans hep.symm⟩
  · intro hne
    refine ⟨plan, t.controller.planMade, hbu, ?_, ?_, ?_⟩
    · intro i hi he
      rw [hpl.eager] at he
      exact (hpl.target i he).2 (hpl.normal i hi).2
    · by_cases hw : ∃ i ∈ t.activeIndices, windows i ≠ []
      · exact .inl (hpl.steady hw)
      push Not at hw
      obtain ⟨hph, -, hno⟩ := hpl.warmup hne hw
      exact .inr ⟨hph, hno⟩
    · intro i hi
      obtain ⟨hact, hw⟩ := hpl.target i hi
      have hr : t.controller.ready i = some (front windows i).ticket := by
        rw [h.ready, h.settled.eq_front hw]; rfl
      obtain ⟨-, heq, hfo⟩ := h.ready_eq hr
      obtain ⟨tokens, hs⟩ := ha i hact
      refine ⟨(front windows i).ticket, front windows i, hr, ?_, ?_⟩
      · exact (h.payloads _ _).mpr ⟨rfl, by rw [hfo.request, heq]; simp⟩
      · show (front windows i).validateFor (st i) = .ok ()
        rw [hs]
        exact validateFor_ok (h.request i (h.active_lt hact).1).toRowOk hfo tokens

end

theorem rhythm_mailboxOk (run : RhythmRun) (prompts : List (List Nat)) (arg : SamplingArg)
    {params : List NativeSamplingParams} (h : Launched run prompts arg params) (hpolicy : run.shape.Sound run.gamma)
    {events : List RoundForwards} {d t : RhythmRank}
    (hreach : Reach (rhythmIteration run) (run.init (prefilled run.models prompts params),
      run.init (prefilled run.models prompts params)) events (d, t)) : MailboxOk d ∧ MailboxOk t := by
  obtain ⟨windows, draft, completed, hd, hb⟩ := inStep_of_reach h.rhythmOk hpolicy h.prefilled hreach
  simp only at hd hb
  subst hd
  exact ⟨hb.mailboxOk hb.aheadOf completed, hb.mailboxOk aheadOf_self t.completedStates⟩

theorem rhythm_mailboxOk_longRun : ∃ d t e,
    Reach (rhythmIteration (longRun measured)) (longStart measured, longStart measured) [e] (d, t) ∧
      (t.controller.ready 0).isSome = true ∧ MailboxOk d ∧ MailboxOk t := by
  obtain ⟨⟨d, t⟩, e, hr, hre⟩ := Reach.start.exists_nextOf
    (show (nextOf (rhythmIteration (longRun measured)) (longStart measured, longStart measured)).any (fun p =>
      (p.1.2.controller.ready 0).isSome) = true by decide +kernel)
  exact ⟨d, t, e, hr, hre,
    rhythm_mailboxOk (longRun measured) longPrompts .default (launched_longRun measured) (policy_sound measured) hr⟩

end VllmAscend
