import VllmAscend.Lib.Run
import VllmAscend.Rhythm.Controller
import VllmAscend.Rhythm.ShaperOptimal

/-!
# Late publishes

A scheduler in the hands of callers that keep every ticket they were given. The
session remembers when each ticket was made and when each request was last
admitted or verified.
-/

namespace VllmAscend

open Python Run List Function Nat

structure MailboxSession where
  scheduler : SpecRhythmScheduler
  /-- The tickets made so far, by proposal id, with the time of each. -/
  tickets : List (SpecRhythmProposalTicket × Nat) := []
  now : Nat := 1
  admitted : List Nat := []
  /-- The latest admission or finished verification of a request. -/
  resetAt : Nat → Nat := fun _ => 0

namespace MailboxSession

def controller (s : MailboxSession) : SpecRhythmPipelineController := s.scheduler.controller

inductive Call where
  | admitRequest (i : Nat) (homeBatchId : Option (Fin 2)) (sloTpotMs : Option ℚ) (maxGamma : Option Nat)
  | preempt (i : Nat)
  | reactivate (i : Nat)
  | remove (i : Nat)
  | schedule (projectedWaitMs : ℚ) (contextLen : Nat) (draftTokenBudget : Option Int) (batchSize : Option Nat)
  | newTicket (i gamma : Nat) (eager : Bool)
  | publish (proposalIds : List Nat)
  | finishVerification (i : Nat) (v : SpecRhythmPipelineController.Verification)

def chosen (s : MailboxSession) (proposalIds : List Nat) : List SpecRhythmProposalTicket :=
  proposalIds.filterMap fun k => s.tickets[k]?.map (·.1)

def effect (s : MailboxSession) : Call → MailboxSession
  | .admitRequest i home slo maxGamma =>
    match s.scheduler.admitRequest i home slo maxGamma with
    | (.ok _, sch) =>
      { s with scheduler := sch, admitted := s.admitted ++ [i], resetAt := Function.update s.resetAt i s.now }
    | (.error _, sch) => { s with scheduler := sch }
  | .preempt i => { s with scheduler := (s.scheduler.preempt i).2 }
  | .reactivate i => { s with scheduler := (s.scheduler.reactivate i).2 }
  | .remove i => { s with scheduler := (s.scheduler.remove i).2 }
  | .schedule wait contextLen budget batchSize =>
    { s with scheduler := (s.scheduler.schedule wait contextLen budget batchSize).2 }
  | .newTicket i gamma eager =>
    match s.controller.newTicket i gamma eager with
    | .ok (ticket, c) =>
      { s with scheduler := { s.scheduler with controller := c }, tickets := s.tickets ++ [(ticket, s.now)] }
    | .error _ => s
  | .publish proposalIds => { s with scheduler := (s.scheduler.onController (SpecRhythmPipelineController.publish (s.chosen proposalIds))).2 }
  | .finishVerification i v =>
    match s.scheduler.onController (·.finishVerification i v) with
    | (.ok _, sch) => { s with scheduler := sch, resetAt := Function.update s.resetAt i s.now }
    | (.error _, sch) => { s with scheduler := sch }

def call (s : MailboxSession) (c : Call) : MailboxSession := { s.effect c with now := s.now + 1 }

def start (scheduler : SpecRhythmScheduler) : MailboxSession := { scheduler := scheduler }

def run (s : MailboxSession) (calls : List Call) : MailboxSession := calls.foldl call s

/-- What `publish` puts into a mailbox was made after the request's latest admission or verification. -/
def InstallsFresh (s : MailboxSession) (proposalIds : List Nat) : Prop :=
  ∀ i ticket,
    ((s.call (.publish proposalIds)).controller.ready i = some ticket ∧ s.controller.ready i ≠ some ticket ∨
      (s.call (.publish proposalIds)).controller.stagedEager i = some ticket ∧
        s.controller.stagedEager i ≠ some ticket) →
    ∃ madeAt, s.tickets[ticket.proposalId]? = some (ticket, madeAt) ∧ s.resetAt i < madeAt

def NoOrphan (s : MailboxSession) : Prop :=
  ∀ i ∈ s.scheduler.active, ∀ eager, s.controller.stagedEager i = some eager →
    ∃ parent, s.controller.ready i = some parent ∧ eager.requiredPrefixEpoch = parent.requiredPrefixEpoch + 1

/-- No index is admitted twice, and an eager ticket is published only while the ticket it continues is ready. -/
def Allowed (s : MailboxSession) : Call → Prop
  | .admitRequest i _ _ _ => i ∉ s.admitted
  | .publish proposalIds => ∀ ticket ∈ s.chosen proposalIds, ticket.eager = true →
      ∃ parent, s.controller.ready ticket.requestIndex = some parent ∧
        ticket.requiredPrefixEpoch = parent.requiredPrefixEpoch + 1
  | _ => True

end MailboxSession

/-! ## What a publish can do -/

open SpecRhythmPipelineController MailboxSession

namespace SpecRhythmPipelineController

def mailbox (c : SpecRhythmPipelineController) : Bool → Nat → Option SpecRhythmProposalTicket
  | true => c.stagedEager
  | false => c.ready

def Takes (c : SpecRhythmPipelineController) (ticket : SpecRhythmProposalTicket) : Prop :=
  c.mailbox ticket.eager ticket.requestIndex = none ∧ (ticket.eager = false →
    ∃ state, c.requestStates ticket.requestIndex = some state ∧ ticket.requiredPrefixEpoch = state.prefixEpoch)

def install (c : SpecRhythmPipelineController) (ticket : SpecRhythmProposalTicket) : SpecRhythmPipelineController :=
  match ticket.eager with
  | true => { c with stagedEager := update c.stagedEager ticket.requestIndex (some ticket) }
  | false => { c with ready := update c.ready ticket.requestIndex (some ticket) }

end SpecRhythmPipelineController

section
variable {c c' : SpecRhythmPipelineController} {tickets : List SpecRhythmProposalTicket}

structure Published (tickets : List SpecRhythmProposalTicket) (c c' : SpecRhythmPipelineController) : Prop where
  requestStates : c'.requestStates = c.requestStates
  nextProposalId : c'.nextProposalId = c.nextProposalId
  keeps : ∀ i ticket, c.ready i = some ticket → c'.ready i = some ticket
  ready : ∀ i ticket, c'.ready i = some ticket → c.ready i = some ticket ∨
    ticket ∈ tickets ∧ ticket.requestIndex = i ∧ ticket.eager = false ∧
      ∃ state, c.requestStates i = some state ∧ ticket.requiredPrefixEpoch = state.prefixEpoch
  staged : ∀ i ticket, c'.stagedEager i = some ticket → c.stagedEager i = some ticket ∨
    ticket ∈ tickets ∧ ticket.requestIndex = i ∧ ticket.eager = true

theorem published_refl : Published tickets c c := ⟨rfl, rfl, fun _ _ h => h, fun _ _ h => .inl h, fun _ _ h => .inl h⟩

theorem publishTicket_cases (ticket : SpecRhythmProposalTicket) :
    c.Takes ticket ∧ c.publishTicket ticket = (.ok (), c.install ticket) ∨
      ¬ c.Takes ticket ∧ ∃ e, c.publishTicket ticket = (.error e, c) := by
  unfold publishTicket Takes
  cases he : ticket.eager with
  | true =>
    simp only [if_true]
    split
    · next hs => exact .inr ⟨fun h => Option.isSome_iff_ne_none.mp hs h.1, _, rfl⟩
    · next hs => exact .inl ⟨⟨Option.not_isSome_iff_eq_none.mp hs, by simp⟩, by simp [install, he]⟩
  | false =>
    simp only [Bool.false_eq_true, if_false]
    split
    · next hr => exact .inr ⟨fun h => Option.isSome_iff_ne_none.mp hr h.1, _, rfl⟩
    rename_i hr
    cases hst : c.requestStates ticket.requestIndex with
    | none => exact .inr ⟨fun h => by simpa using h.2 trivial, _, rfl⟩
    | some st =>
      by_cases hep : ticket.requiredPrefixEpoch = st.prefixEpoch
      · exact .inl ⟨⟨Option.not_isSome_iff_eq_none.mp hr, fun _ => ⟨st, rfl, hep⟩⟩, by simp [install, he, hep]⟩
      · exact .inr ⟨fun h => hep (by simpa using h.2 trivial), _, if_pos hep⟩

theorem mailbox_install (ticket : SpecRhythmProposalTicket) (eager : Bool) (i : Nat) :
    (c.install ticket).mailbox eager i =
      if (eager, i) = (ticket.eager, ticket.requestIndex) then some ticket else c.mailbox eager i := by
  cases he : ticket.eager <;> cases eager <;> simp [install, mailbox, he, update_apply]

theorem published_install (h : c.Takes ticket) : Published [ticket] c (c.install ticket) := by
  have hm := mailbox_install (c := c) ticket
  have hin : ∀ eager i t, (c.install ticket).mailbox eager i = some t → c.mailbox eager i = some t ∨
      t = ticket ∧ ticket.eager = eager ∧ ticket.requestIndex = i := by
    intro eager i t ht
    rw [hm] at ht
    split at ht
    · next heq =>
      cases heq
      exact .inr ⟨(Option.some.inj ht).symm, rfl, rfl⟩
    · exact .inl ht
  have hr : (c.install ticket).requestStates = c.requestStates := by unfold install; split <;> rfl
  refine ⟨hr, by unfold install; split <;> rfl, fun i t ht => ?_, fun i t ht => ?_, fun i t ht => ?_⟩
  · refine (hm false i).trans ((if_neg fun heq => ?_).trans ht)
    obtain ⟨he, rfl⟩ := Prod.mk.inj heq
    cases (he ▸ h.1).symm.trans ht
  · rcases hin false i t ht with ht | ⟨rfl, he, rfl⟩
    · exact .inl ht
    · exact .inr ⟨mem_singleton_self _, rfl, he, h.2 he⟩
  · rcases hin true i t ht with ht | ⟨rfl, he, rfl⟩
    · exact .inl ht
    · exact .inr ⟨mem_singleton_self _, rfl, he⟩

theorem Published.cons {ticket : SpecRhythmProposalTicket} {c'' : SpecRhythmPipelineController}
    (h₁ : Published [ticket] c c') (h₂ : Published tickets c' c'') : Published (ticket :: tickets) c c'' := by
  refine ⟨h₂.requestStates.trans h₁.requestStates, h₂.nextProposalId.trans h₁.nextProposalId,
    fun i t h => h₂.keeps i t (h₁.keeps i t h), ?_, ?_⟩
  · intro i t h
    rcases h₂.ready i t h with h | ⟨hm, h⟩
    · rcases h₁.ready i t h with h | ⟨hm, h⟩
      · exact .inl h
      · exact .inr ⟨by simp [mem_singleton.mp hm], h⟩
    · rw [h₁.requestStates] at h
      exact .inr ⟨mem_cons_of_mem _ hm, h⟩
  · intro i t h
    rcases h₂.staged i t h with h | ⟨hm, h⟩
    · rcases h₁.staged i t h with h | ⟨hm, h⟩
      · exact .inl h
      · exact .inr ⟨by simp [mem_singleton.mp hm], h⟩
    · exact .inr ⟨mem_cons_of_mem _ hm, h⟩

theorem published_publish : ∀ (tickets : List SpecRhythmProposalTicket) (c : SpecRhythmPipelineController),
    Published tickets c (publish tickets c).2
  | [], _ => published_refl
  | ticket :: tickets, c => by
    unfold publish
    rcases publishTicket_cases ticket with ⟨ht, hp⟩ | ⟨-, e, hp⟩
    · rw [hp]
      exact (published_install ht).cons (published_publish tickets _)
    · rw [hp]
      exact published_refl

end

/-! ## The invariant of a session -/

structure MailboxInv (s : MailboxSession) : Prop where
  resetBefore : ∀ i, s.resetAt i < s.now
  registered : ∀ i, (s.controller.requestStates i).isSome → i ∈ s.admitted
  count : s.tickets.length = s.controller.nextProposalId
  made : ∀ (k : Nat) ticket madeAt, s.tickets[k]? = some (ticket, madeAt) →
    ticket.proposalId = k ∧ madeAt < s.now ∧ ticket.requestIndex ∈ s.admitted
  epoch : ∀ (k : Nat) ticket madeAt, s.tickets[k]? = some (ticket, madeAt) →
    ∃ base, ticket.requiredPrefixEpoch = base + ticket.eager.toNat ∧
      ∀ state, s.controller.requestStates ticket.requestIndex = some state →
        base ≤ state.prefixEpoch ∧ (base = state.prefixEpoch → s.resetAt ticket.requestIndex < madeAt)
  ready : ∀ i ticket, s.controller.ready i = some ticket →
    ∃ state, s.controller.requestStates i = some state ∧ ticket.requiredPrefixEpoch = state.prefixEpoch
  staged : ∀ i eager, s.controller.stagedEager i = some eager →
    ∃ parent, s.controller.ready i = some parent ∧ eager.requiredPrefixEpoch = parent.requiredPrefixEpoch + 1

section
variable {s : MailboxSession}

theorem mailboxInv_start (shaper : SpecRhythmBudgetShaper) (mns : Nat) (h : 0 < mns) :
    MailboxInv (start { shaper := shaper, maxNumSeqs := mns, maxNumSeqs_pos := h }) := by
  refine ⟨fun _ => one_pos, ?_, rfl, ?_, ?_, ?_, ?_⟩ <;> simp [start, controller]

theorem MailboxInv.made_later (h : MailboxInv s) (k : Nat) (ticket madeAt) (hk : s.tickets[k]? = some (ticket, madeAt)) :
    ticket.proposalId = k ∧ madeAt < s.now + 1 ∧ ticket.requestIndex ∈ s.admitted := by
  obtain ⟨h₁, h₂, h3⟩ := h.made k ticket madeAt hk
  exact ⟨h₁, lt_succ_of_lt h₂, h3⟩

theorem MailboxInv.drop (h : MailboxInv s) (hid : sch.controller.nextProposalId = s.controller.nextProposalId)
    (hst : ∀ i, sch.controller.requestStates i = s.controller.requestStates i ∨
      sch.controller.requestStates i = none ∧ sch.controller.ready i = none)
    (hma : ∀ i, sch.controller.ready i = s.controller.ready i ∧
        sch.controller.stagedEager i = s.controller.stagedEager i ∨
      sch.controller.ready i = none ∧ sch.controller.stagedEager i = none) :
    MailboxInv { s with scheduler := sch, now := s.now + 1 } := by
  have hsome : ∀ i st, sch.controller.requestStates i = some st → s.controller.requestStates i = some st := by
    intro i st hs
    rcases hst i with he | ⟨he, -⟩
    · rwa [he] at hs
    · simp [he] at hs
  refine ⟨fun i => lt_succ_of_lt (h.resetBefore i), ?_, ?_, ?_, ?_, ?_, ?_⟩
  · intro i hs
    obtain ⟨st, hs⟩ := Option.isSome_iff_exists.mp hs
    exact h.registered i (by rw [hsome i st hs]; rfl)
  · exact h.count.trans hid.symm
  · exact h.made_later
  · intro k ticket madeAt hk
    obtain ⟨base, hb, he⟩ := h.epoch k ticket madeAt hk
    exact ⟨base, hb, fun st hs => he st (hsome _ st hs)⟩
  · intro i ticket hr
    rcases hma i with ⟨he, -⟩ | ⟨he, -⟩
    · obtain ⟨st, hs, hep⟩ := h.ready i ticket (he ▸ hr)
      rcases hst i with hk | ⟨-, hk⟩
      · exact ⟨st, hk.trans hs, hep⟩
      · exact absurd (hr.symm.trans hk) (by simp)
    · exact absurd (hr.symm.trans he) (by simp)
  · intro i eager hs
    rcases hma i with ⟨hr, he⟩ | ⟨-, he⟩
    · obtain ⟨parent, hp, hep⟩ := h.staged i eager (he ▸ hs)
      exact ⟨parent, hr.trans hp, hep⟩
    · exact absurd (hs.symm.trans he) (by simp)

theorem MailboxInv.idle (h : MailboxInv s) : MailboxInv { s with now := s.now + 1 } :=
  h.drop rfl (fun _ => .inl rfl) fun _ => .inl ⟨rfl, rfl⟩

theorem invalidateRequest_mail (c : SpecRhythmPipelineController) (i j : Nat) :
    (c.invalidateRequest i).ready j = c.ready j ∧ (c.invalidateRequest i).stagedEager j = c.stagedEager j ∨
      (c.invalidateRequest i).ready j = none ∧ (c.invalidateRequest i).stagedEager j = none := by
  by_cases hj : j = i
  · subst hj
    exact .inr (by simp [invalidateRequest])
  · exact .inl (by simp [invalidateRequest, update_of_ne hj])

section
variable (h : MailboxInv s)
include h

theorem MailboxInv.preempt (i : Nat) : MailboxInv (s.call (.preempt i)) := by
  simp only [call, effect, SpecRhythmScheduler.preempt]
  split
  · exact h.idle
  apply h.drop
  · rfl
  · exact fun _ => .inl rfl
  · exact invalidateRequest_mail s.controller i

theorem MailboxInv.remove (i : Nat) : MailboxInv (s.call (.remove i)) := by
  simp only [call, effect, SpecRhythmScheduler.remove, SpecRhythmScheduler.preempt]
  split
  · rename_i hp
    split at hp
    · cases hp; exact h.idle
    · cases hp
  · rename_i hp
    split at hp
    · cases hp
    cases hp
    apply h.drop
    · rfl
    · intro j
      by_cases hj : j = i
      · subst hj
        exact .inr (by simp [invalidateRequest])
      · exact .inl (by simp [update_of_ne hj, invalidateRequest, controller])
    · exact invalidateRequest_mail s.controller i

theorem MailboxInv.reactivate (i : Nat) : MailboxInv (s.call (.reactivate i)) := by
  simp only [call, effect, SpecRhythmScheduler.reactivate]
  split
  · exact h.idle
  split
  · exact h.idle
  split
  · exact h.idle
  · exact h.drop rfl (fun _ => .inl rfl) fun _ => .inl ⟨rfl, rfl⟩

theorem MailboxInv.schedule (wait : ℚ) (contextLen : Nat) (budget : Option Int)
    (batchSize : Option Nat) : MailboxInv (s.call (.schedule wait contextLen budget batchSize)) := by
  simp only [call, effect, SpecRhythmScheduler.schedule]
  cases hb : s.scheduler.controller.buildPlan s.scheduler.active with
  | error e => exact h.idle
  | ok p =>
    simp only [buildPlan] at hb
    split at hb
    · cases hb
    cases hb
    simp only
    split
    all_goals
      apply h.drop
      · rfl
      · exact fun _ => .inl rfl
      · intro i
        by_cases hi : i ∈ s.scheduler.active
        · exact .inl (by simp [discardInactivePayloads, hi, controller])
        · exact .inr (by simp [discardInactivePayloads, hi])

theorem MailboxInv.admitRequest (hi : i ∉ s.admitted) (home : Option (Fin 2)) (slo : Option ℚ)
    (maxGamma : Option Nat) : MailboxInv (s.call (.admitRequest i home slo maxGamma)) := by
  have hnone : s.controller.requestStates i = none := by
    by_contra hno
    exact hi (h.registered i (Option.isSome_iff_ne_none.mpr hno))
  simp only [call, effect]
  cases ha : s.scheduler.admitRequest i home slo maxGamma with
  | mk result sch =>
    unfold SpecRhythmScheduler.admitRequest at ha
    split at ha
    · cases ha; exact h.idle
    split at ha
    · cases ha; exact h.idle
    split at ha
    · split at ha
      · cases ha
        refine ⟨?_, ?_, h.count, ?_, ?_, ?_, h.staged⟩
        · intro j
          by_cases hj : j = i
          · subst hj; simp
          · simp only [update_of_ne hj]
            exact lt_succ_of_lt (h.resetBefore j)
        · intro j hj
          by_cases hji : j = i
          · subst hji; simp
          · simp only [controller, update_of_ne hji] at hj
            exact mem_append_left _ (h.registered j hj)
        · intro k ticket madeAt hk
          obtain ⟨h₁, h₂, h3⟩ := h.made k ticket madeAt hk
          exact ⟨h₁, lt_succ_of_lt h₂, mem_append_left _ h3⟩
        · intro k ticket madeAt hk
          obtain ⟨base, hb, he⟩ := h.epoch k ticket madeAt hk
          have hne : ticket.requestIndex ≠ i := fun heq => hi (heq ▸ (h.made k ticket madeAt hk).2.2)
          refine ⟨base, hb, fun st hs => ?_⟩
          simp only [controller, update_of_ne hne] at hs ⊢
          exact he st hs
        · intro j ticket hr
          obtain ⟨st, hs, he⟩ := h.ready j ticket hr
          refine ⟨st, ?_, he⟩
          have hne : j ≠ i := fun heq => by simp [heq, hnone] at hs
          simp only [controller, update_of_ne hne]
          exact hs
      · cases ha; exact h.idle
    · cases ha; exact h.idle

theorem MailboxInv.newTicket (i gamma : Nat) (eager : Bool) : MailboxInv (s.call (.newTicket i gamma eager)) := by
  simp only [call, effect]
  cases hn : s.controller.newTicket i gamma eager with
  | error e => exact h.idle
  | ok p =>
    unfold SpecRhythmPipelineController.newTicket at hn
    cases hs : s.controller.requestStates i with
    | none => simp [hs] at hn
    | some st =>
      simp only [hs] at hn
      split at hn
      · cases hn
        have hget : ∀ (k : Nat) ticket madeAt, (s.tickets ++ [((⟨s.controller.nextProposalId, i, st.homeBatchId, gamma,
              st.prefixEpoch + eager.toNat, eager, ‹_›⟩ : SpecRhythmProposalTicket), s.now)])[k]? =
              some (ticket, madeAt) → s.tickets[k]? = some (ticket, madeAt) ∨
            k = s.tickets.length ∧ ticket.proposalId = s.controller.nextProposalId ∧ ticket.requestIndex = i ∧
              ticket.requiredPrefixEpoch = st.prefixEpoch + ticket.eager.toNat ∧ madeAt = s.now := by
          intro k ticket madeAt hk
          by_cases hlt : k < s.tickets.length
          · rw [getElem?_append_left hlt] at hk
            exact .inl hk
          rw [getElem?_append_right (by omega)] at hk
          by_cases heq : k = s.tickets.length
          · subst heq
            simp only [Nat.sub_self, getElem?_cons_zero, Option.some.injEq, Prod.mk.injEq] at hk
            obtain ⟨rfl, rfl⟩ := hk
            exact .inr ⟨rfl, rfl, rfl, rfl, rfl⟩
          · rw [getElem?_eq_none (by simp; omega)] at hk
            cases hk
        have hre : i ∈ s.admitted := h.registered i (by rw [hs]; rfl)
        refine ⟨fun j => lt_succ_of_lt (h.resetBefore j), h.registered, ?_, ?_, ?_, h.ready, h.staged⟩
        · simp [controller, h.count]
        · intro k ticket madeAt hk
          rcases hget k ticket madeAt hk with hk | ⟨rfl, hid, hi, -, rfl⟩
          · exact h.made_later k ticket madeAt hk
          · exact ⟨hid.trans h.count.symm, lt_succ_self _, hi ▸ hre⟩
        · intro k ticket madeAt hk
          rcases hget k ticket madeAt hk with hk | ⟨-, -, rfl, hep, rfl⟩
          · exact h.epoch k ticket madeAt hk
          refine ⟨st.prefixEpoch, hep, fun state' hs' => ?_⟩
          have heq : st = state' := Option.some.inj (hs.symm.trans hs')
          subst heq
          exact ⟨le_refl _, fun _ => h.resetBefore _⟩
      · cases hn

theorem MailboxInv.publish (ha : s.Allowed (.publish proposalIds)) : MailboxInv (s.call (.publish proposalIds)) := by
  have hp := published_publish (s.chosen proposalIds) s.controller
  simp only [call, effect, SpecRhythmScheduler.onController]
  refine ⟨fun i => lt_succ_of_lt (h.resetBefore i), ?_, ?_, ?_, ?_, ?_, ?_⟩
  · intro i hs
    exact h.registered i (hp.requestStates ▸ hs)
  · exact h.count.trans hp.nextProposalId.symm
  · exact h.made_later
  · intro k ticket madeAt hk
    obtain ⟨base, hb, he⟩ := h.epoch k ticket madeAt hk
    exact ⟨base, hb, fun st hs => he st (hp.requestStates ▸ hs)⟩
  · intro i ticket hr
    simp only [controller]
    rw [show ((SpecRhythmPipelineController.publish (s.chosen proposalIds) s.scheduler.controller).2).requestStates =
      s.controller.requestStates from hp.requestStates]
    rcases hp.ready i ticket hr with hr | ⟨-, -, -, hst⟩
    · exact h.ready i ticket hr
    · exact hst
  · intro i eager hs
    rcases hp.staged i eager hs with hs | ⟨hm, rfl, he⟩
    · obtain ⟨parent, hpa, hep⟩ := h.staged i eager hs
      exact ⟨parent, hp.keeps i parent hpa, hep⟩
    · obtain ⟨parent, hpa, hep⟩ := ha eager hm he
      exact ⟨parent, hp.keeps _ parent hpa, hep⟩

theorem MailboxInv.finishVerification (i : Nat) (v : Verification) : MailboxInv (s.call (.finishVerification i v)) := by
  simp only [call, effect, SpecRhythmScheduler.onController]
  cases hr : s.controller.ready i with
  | none =>
    simp only [SpecRhythmPipelineController.finishVerification, show s.scheduler.controller.ready i = none from hr]
    exact h.idle
  | some cur =>
    obtain ⟨st, hs, hep⟩ := h.ready i cur hr
    simp only [SpecRhythmPipelineController.finishVerification, show s.scheduler.controller.ready i = some cur from hr,
      show s.scheduler.controller.requestStates i = some st from hs, hep, ne_eq, not_true_eq_false, if_false]
    refine ⟨?_, ?_, h.count, ?_, ?_, ?_, ?_⟩
    · intro j
      by_cases hj : j = i
      · subst hj; simp
      · simp only [update_of_ne hj]
        exact lt_succ_of_lt (h.resetBefore j)
    · intro j hj
      by_cases hji : j = i
      · subst hji; exact h.registered j (by rw [hs]; rfl)
      · simp only [controller, update_of_ne hji] at hj
        exact h.registered j hj
    · exact h.made_later
    · intro k ticket madeAt hk
      obtain ⟨base, hb, he⟩ := h.epoch k ticket madeAt hk
      refine ⟨base, hb, fun state' hs' => ?_⟩
      by_cases hi : ticket.requestIndex = i
      · -- the epoch has moved past every ticket made before
        simp only [controller, hi, update_self, Option.some.injEq] at hs'
        have hle := (he st (hi ▸ hs)).1
        subst hs'
        exact ⟨le_succ_of_le hle, fun heq => absurd heq (by simp [SpecRhythmRuntimeState.recordVerification]; omega)⟩
      · simp only [controller, update_of_ne hi] at hs' ⊢
        exact he state' hs'
    · intro j ticket hj
      by_cases hji : j = i
      · subst hji
        simp only [controller, update_self] at hj ⊢
        obtain ⟨-, hp⟩ := Option.filter_eq_some_iff.mp hj
        exact ⟨_, rfl, by simpa using (of_decide_eq_true hp).2⟩
      · simp only [controller, update_of_ne hji] at hj ⊢
        exact h.ready j ticket hj
    · intro j eager hj
      by_cases hji : j = i
      · subst hji
        simp [controller] at hj
      · simp only [controller, update_of_ne hji] at hj ⊢
        exact h.staged j eager hj

end

theorem mailboxInv_call (s : MailboxSession) (c : Call) (h : MailboxInv s) (ha : s.Allowed c) : MailboxInv (s.call c) := by
  cases c with
  | admitRequest i home slo maxGamma => exact h.admitRequest ha home slo maxGamma
  | preempt i => exact h.preempt i
  | reactivate i => exact h.reactivate i
  | remove i => exact h.remove i
  | schedule wait contextLen budget batchSize => exact h.schedule wait contextLen budget batchSize
  | newTicket i gamma eager => exact h.newTicket i gamma eager
  | publish proposalIds => exact h.publish ha
  | finishVerification i v => exact h.finishVerification i v

theorem MailboxInv.installsFresh (h : MailboxInv s) (ha : s.Allowed (.publish proposalIds)) :
    s.InstallsFresh proposalIds := by
  have hp := published_publish (s.chosen proposalIds) s.controller
  have hch : ∀ ticket ∈ s.chosen proposalIds, ∃ madeAt, s.tickets[ticket.proposalId]? = some (ticket, madeAt) := by
    intro ticket hm
    obtain ⟨k, -, hk⟩ := mem_filterMap.mp hm
    obtain ⟨⟨t, madeAt⟩, hget, rfl⟩ := Option.map_eq_some_iff.mp hk
    exact ⟨madeAt, by rw [(h.made k t madeAt hget).1]; exact hget⟩
  intro i ticket hnew
  rcases hnew with ⟨hr, hnot⟩ | ⟨hs, hnot⟩
  · rcases hp.ready i ticket hr with hr | ⟨hm, rfl, he, st, hs, hep⟩
    · exact absurd hr hnot
    obtain ⟨madeAt, hget⟩ := hch ticket hm
    obtain ⟨base, hb, hfr⟩ := h.epoch _ ticket madeAt hget
    refine ⟨madeAt, hget, (hfr st hs).2 ?_⟩
    simp only [he, Bool.toNat_false, add_zero] at hb
    exact hb.symm.trans hep
  · rcases hp.staged i ticket hs with hs | ⟨hm, rfl, he⟩
    · exact absurd hs hnot
    obtain ⟨madeAt, hget⟩ := hch ticket hm
    obtain ⟨base, hb, hfr⟩ := h.epoch _ ticket madeAt hget
    obtain ⟨parent, hpa, hco⟩ := ha ticket hm he
    obtain ⟨st, hst, hep⟩ := h.ready _ parent hpa
    refine ⟨madeAt, hget, (hfr st hst).2 ?_⟩
    simp only [he, Bool.toNat_true] at hb
    omega

end

/-- In a session whose calls are all allowed. -/
theorem mailbox_fresh (shaper : SpecRhythmBudgetShaper) (maxNumSeqs : Nat) (hpos : 0 < maxNumSeqs) (calls : List Call)
    (h : Guarded call MailboxSession.Allowed (start { shaper := shaper, maxNumSeqs := maxNumSeqs, maxNumSeqs_pos := hpos }) calls) :
    let s := start { shaper := shaper, maxNumSeqs := maxNumSeqs, maxNumSeqs_pos := hpos }
    (∀ before proposalIds after, calls = before ++ .publish proposalIds :: after →
      (s.run before).InstallsFresh proposalIds) ∧
    ∀ before after, calls = before ++ after → (s.run before).NoOrphan := by
  intro s
  have hinv : ∀ before after, calls = before ++ after → MailboxInv (s.run before) ∧
      Guarded call MailboxSession.Allowed (s.run before) after := by
    rintro before after rfl
    obtain ⟨h₁, h₂⟩ := guarded_append.mp h
    exact ⟨h₁.inv mailboxInv_call (mailboxInv_start shaper maxNumSeqs hpos), h₂⟩
  constructor
  · intro before proposalIds after he
    obtain ⟨hi, ha, -⟩ := hinv before _ he
    exact hi.installsFresh ha
  · intro before after he i _ eager hs
    exact (hinv before after he).1.staged i eager hs

theorem mailbox_fresh_promoted :
    ((start { shaper := { minGamma := 1, maxGamma := 4, minGamma_pos := by decide, minGamma_le := by decide } }).run
      [.admitRequest 0 none none none, .newTicket 0 2 false, .publish [0], .newTicket 0 2 true]).InstallsFresh [1] := by
  apply (mailbox_fresh _ 512 (by decide) _ ?_).1 _ [1] [.finishVerification 0 ⟨true, 1, 1, 1, some 1, 1⟩] rfl
  refine ⟨not_mem_nil, trivial, ?_, trivial, ?_, trivial, trivial⟩
  · intro ticket hm he
    obtain ⟨k, hk, hg⟩ := mem_filterMap.mp hm
    cases mem_singleton.mp hk
    cases hg
    cases he
  · intro ticket hm he
    obtain ⟨k, hk, hg⟩ := mem_filterMap.mp hm
    cases mem_singleton.mp hk
    cases hg
    exact ⟨_, rfl, rfl⟩

/-- An eager ticket made before a verification, and a normal one made before its request was admitted again. -/
theorem publish_stale :
    let s := start { shaper := { minGamma := 1, maxGamma := 4, minGamma_pos := by decide, minGamma_le := by decide } }
    let late := s.run [.admitRequest 0 none none none, .newTicket 0 2 false, .publish [0], .newTicket 0 2 true,
      .finishVerification 0 ⟨true, 1, 1, 1, some 1, 1⟩]
    let readmitted := s.run [.admitRequest 0 none none none, .newTicket 0 2 false, .remove 0, .admitRequest 0 none none none]
    ¬ late.InstallsFresh [1] ∧ ¬ (late.call (.publish [1])).NoOrphan ∧ ¬ readmitted.InstallsFresh [0] := by
  intro s late readmitted
  refine ⟨?_, ?_, ?_⟩
  · intro h
    obtain ⟨madeAt, hg, hlt⟩ := h 0 ⟨1, 0, 0, 2, 1, true, by decide⟩ (.inr ⟨rfl, by simp [late, s]; decide⟩)
    cases hg
    exact absurd hlt (by decide)
  · intro h
    obtain ⟨parent, hr, -⟩ := h 0 (by decide) ⟨1, 0, 0, 2, 1, true, by decide⟩ rfl
    cases hr
  · intro h
    obtain ⟨madeAt, hg, hlt⟩ := h 0 ⟨0, 0, 0, 2, 0, false, by decide⟩ (.inl ⟨rfl, by simp [readmitted, s]; decide⟩)
    cases hg
    exact absurd hlt (by decide)

/-! ## Calls that raise -/

section
variable {c : SpecRhythmPipelineController} {ticket t : SpecRhythmProposalTicket}

def SpecRhythmPipelineController.TakesAll (c : SpecRhythmPipelineController) (tickets : List SpecRhythmProposalTicket) : Prop :=
  (∀ ticket ∈ tickets, c.Takes ticket) ∧ (tickets.map fun t => (t.eager, t.requestIndex)).Nodup

theorem takes_install : (c.install ticket).Takes t ↔
    (ticket.eager, ticket.requestIndex) ≠ (t.eager, t.requestIndex) ∧ c.Takes t := by
  have hr : (c.install ticket).requestStates = c.requestStates := by unfold install; split <;> rfl
  rw [Takes, Takes, mailbox_install, hr]
  split
  · next he => simp [he]
  · next he => simp [Ne.symm he]

theorem publish_ok_iff : ∀ {tickets : List SpecRhythmProposalTicket} {c : SpecRhythmPipelineController},
    raisedBy (publish tickets c).1 = none ↔ c.TakesAll tickets
  | [], _ => by simp [publish, TakesAll, raisedBy]
  | ticket :: tickets, c => by
    rw [TakesAll, forall_mem_cons, map_cons, nodup_cons, publish]
    rcases publishTicket_cases (c := c) ticket with ⟨ht, hp⟩ | ⟨ht, e, hp⟩
    · simp only [hp, publish_ok_iff, TakesAll, takes_install, forall_and, mem_map, not_exists, not_and]
      refine ⟨fun ⟨⟨hne, hall⟩, hn⟩ => ⟨⟨ht, hall⟩, fun t hm he => hne t hm he.symm, hn⟩,
        fun ⟨⟨_, hall⟩, hne, hn⟩ => ⟨⟨fun t hm he => hne t hm he.symm, hall⟩, hn⟩⟩
    · simp [hp, ht, raisedBy]

theorem publish_keeps {eager : Bool} {i : Nat} : ∀ {tickets : List SpecRhythmProposalTicket}
    {c : SpecRhythmPipelineController}, c.mailbox eager i = some t → (publish tickets c).2.mailbox eager i = some t
  | [], _, h => h
  | ticket :: tickets, c, h => by
    rw [publish]
    rcases publishTicket_cases (c := c) ticket with ⟨ht, hp⟩ | ⟨-, e, hp⟩
    · simp only [hp]
      refine publish_keeps ((mailbox_install ..).trans ((if_neg fun he => ?_).trans h))
      obtain ⟨rfl, rfl⟩ := Prod.mk.inj he
      cases h.symm.trans ht.1
    · rw [hp]; exact h

theorem publish_atomic (tickets : List SpecRhythmProposalTicket) :
    (raisedBy (publish tickets c).1 ≠ none → (publish tickets c).2 = c) ↔
      c.TakesAll tickets ∨ ∃ ticket ∈ tickets.head?, ¬ c.Takes ticket := by
  rw [← publish_ok_iff, or_iff_not_imp_left]
  refine imp_congr_right fun hno => ?_
  cases tickets with
  | nil => exact absurd rfl hno
  | cons ticket tickets =>
    simp only [head?_cons, Option.mem_some_iff, exists_eq_left']
    rw [publish]
    rcases publishTicket_cases ticket with ⟨ht, hp⟩ | ⟨ht, e, hp⟩
    · -- the first ticket stays in its mailbox
      refine iff_of_false (fun heq => ?_) (not_not.mpr ht)
      have hk := @publish_keeps _ _ _ tickets _ ((mailbox_install (c := c) ticket ..).trans (if_pos rfl))
      rw [hp] at heq
      rw [show (publish tickets (c.install ticket)).2 = c from heq, ht.1] at hk
      cases hk
    · rw [hp]
      exact iff_of_true rfl ht

end

/-- A call that raises leaves the controller as it was exactly if nothing was installed or taken out before. -/
theorem mailbox_atomic_iff (c : SpecRhythmPipelineController) (tickets : List SpecRhythmProposalTicket) (i : Nat)
    (v : Verification) :
    ((raisedBy (publish tickets c).1 ≠ none → (publish tickets c).2 = c) ↔
      c.TakesAll tickets ∨ ∃ ticket ∈ tickets.head?, ¬ c.Takes ticket) ∧
    ((raisedBy (c.finishVerification i v).1 ≠ none → (c.finishVerification i v).2 = c) ↔
      ∀ current, c.ready i = some current →
        ∃ state, c.requestStates i = some state ∧ current.requiredPrefixEpoch = state.prefixEpoch) := by
  refine ⟨publish_atomic tickets, ?_⟩
  unfold SpecRhythmPipelineController.finishVerification
  cases hr : c.ready i with
  | none => simp
  | some current =>
    have hne : ({ c with ready := update c.ready i none } : SpecRhythmPipelineController) ≠ c := fun he => by
      have := congrArg (·.ready i) he
      simp [hr] at this
    cases hs : c.requestStates i with
    | none => simpa [hs, raisedBy] using hne
    | some state =>
      by_cases he : current.requiredPrefixEpoch = state.prefixEpoch
      · simp [hs, he, raisedBy]
      · simpa [hs, he, raisedBy] using hne

/-- Of two proposals for one request the first stays installed, and a stale proposal is gone after the error. -/
theorem publish_installs_first :
    let c := ((start { shaper := { minGamma := 1, maxGamma := 4, minGamma_pos := by decide, minGamma_le := by decide } }).run
      [.admitRequest 0 none none none]).controller
    let ticket : Nat → Nat → SpecRhythmProposalTicket := fun k epoch => ⟨k, 0, 0, 2, epoch, false, by decide⟩
    let twice := publish [ticket 0 0, ticket 1 0] c
    let stale := ({ c with ready := update c.ready 0 (some (ticket 0 1)) } : SpecRhythmPipelineController)
    let verified := stale.finishVerification 0 ⟨true, 1, 1, 1, some 1, 1⟩
    raisedBy twice.1 = some (.runtimeError "SpecRhythm request already has an available proposal.") ∧
      c.ready 0 = none ∧ twice.2.ready 0 = some (ticket 0 0) ∧
      raisedBy verified.1 = some (.runtimeError "SpecRhythm target attempted to verify a stale proposal.") ∧
      stale.ready 0 = some (ticket 0 1) ∧ verified.2.ready 0 = none := by
  refine ⟨rfl, rfl, rfl, rfl, rfl, rfl⟩

/-! ## Any session -/

namespace SpecRhythmScheduler

/-- What no call breaks, whether or not it raises. -/
structure Ok (limit : Nat) (s : SpecRhythmScheduler) : Prop where
  limit_eq : s.maxNumSeqs = limit
  nodup : s.active.Nodup
  seats : s.active.length ≤ limit
  registered : ∀ i ∈ s.active, (s.controller.requestStates i).isSome
  states : ∀ i st, s.controller.requestStates i = some st → st.requestIndex = i ∧ st.Clamped

section
variable {n : Nat} {s : SpecRhythmScheduler} {c : SpecRhythmPipelineController}

theorem Ok.join (h : Ok n { s with controller := c }) (hi : i ∉ s.active) (hl : ¬ s.maxNumSeqs ≤ s.active.length)
    (hr : (c.requestStates i).isSome) : Ok n { s with controller := c, active := s.active ++ [i] } := by
  have hn : s.maxNumSeqs = n := h.limit_eq
  refine ⟨hn, h.nodup.append (nodup_singleton i) (by simpa using hi), ?_, fun j hj => ?_, h.states⟩
  · simp only [length_append, length_singleton]
    omega
  · rcases mem_append.mp hj with hj | hj
    · exact h.registered j hj
    · rwa [mem_singleton.mp hj]

variable (h : s.Ok n)
include h

theorem Ok.keep (hc : c.requestStates = s.controller.requestStates) : Ok n { s with controller := c } :=
  ⟨h.limit_eq, h.nodup, h.seats, hc ▸ h.registered, hc ▸ h.states⟩

theorem Ok.record (hc : c.requestStates = update s.controller.requestStates i (some st))
    (hs : st.requestIndex = i ∧ st.Clamped) : Ok n { s with controller := c } := by
  refine ⟨h.limit_eq, h.nodup, h.seats, fun j hj => ?_, fun j st' hj => ?_⟩
  · simp only [hc, update_apply]
    split
    · rfl
    · exact h.registered j hj
  · simp only [hc, update_apply] at hj
    split at hj
    · next he =>
      cases hj
      exact he ▸ hs
    · exact h.states j st' hj

theorem Ok.leave (hc : ∀ j, c.requestStates j = s.controller.requestStates j ∨ j = i ∧ c.requestStates j = none) :
    Ok n { s with controller := c, active := s.active.filter (· ≠ i) } := by
  refine ⟨h.limit_eq, h.nodup.filter _, (length_filter_le _ _).trans h.seats, fun j hj => ?_, fun j st hj => ?_⟩
  · obtain ⟨hj, hne⟩ := mem_filter.mp hj
    rw [(hc j).resolve_right fun he => of_decide_eq_true hne he.1]
    exact h.registered j hj
  · rcases hc j with he | ⟨-, he⟩
    · exact h.states j st (he ▸ hj)
    · cases he.symm.trans hj

theorem Ok.buildPlan : ∃ p, s.controller.buildPlan s.active = .ok p ∧ p.2.requestStates = s.controller.requestStates := by
  have hr : ¬ s.active.eraseDups.any fun i => (s.controller.requestStates i).isNone := by
    simpa using fun i hi => Option.isSome_iff_ne_none.mp (h.registered i hi)
  exact ⟨_, if_neg hr, rfl⟩

theorem Ok.admitRequest (i : Nat) (home slo g) : (s.admitRequest i home slo g).2.Ok n := by
  unfold SpecRhythmScheduler.admitRequest
  split
  · exact h
  next hi =>
  split
  · exact h
  next hl =>
  split
  · split
    · refine (h.record rfl ?_).join (fun hm => hi (h.registered i hm)) hl (by simp)
      exact ⟨rfl, ⟨zero_le_one, le_rfl⟩, zero_le_one, le_rfl⟩
    · exact h
  · exact h

theorem Ok.finishVerification (i : Nat) (v) : Ok n { s with controller := (s.controller.finishVerification i v).2 } := by
  unfold SpecRhythmPipelineController.finishVerification
  split
  · exact h
  simp only
  split
  · exact h.keep rfl
  next hst =>
  split
  · exact h.keep rfl
  · have ho := h.states _ _ hst
    exact h.record rfl ⟨ho.1, ho.2.recordVerification _ _ _ _ _⟩

end

theorem ok_call {s : MailboxSession} (h : s.scheduler.Ok n) (c : Call) : (s.call c).scheduler.Ok n := by
  cases c with
  | admitRequest i home slo maxGamma =>
    have ho := h.admitRequest i home slo maxGamma
    simp only [call, effect]
    split <;> simpa [*] using ho
  | preempt i =>
    simp only [call, effect, preempt]
    split
    · exact h
    · exact h.leave fun _ => .inl rfl
  | reactivate i =>
    simp only [call, effect, reactivate]
    split
    · exact h
    next hr =>
    split
    · exact h
    next hi =>
    split
    · exact h
    · exact Ok.join h hi ‹_› (by simpa [Option.isSome_iff_ne_none] using hr)
  | remove i =>
    simp only [call, effect, remove, preempt]
    by_cases hr : (s.scheduler.controller.requestStates i).isNone
    · simpa [hr] using h
    simp only [hr]
    refine h.leave fun j => ?_
    by_cases hj : j = i
    · exact .inr ⟨hj, by simp [hj]⟩
    · exact .inl (update_of_ne hj _ _)
  | schedule wait contextLen budget batchSize =>
    obtain ⟨p, hp, hr⟩ := h.buildPlan
    simp only [call, effect, schedule, hp]
    split <;> exact h.keep hr
  | newTicket i gamma eager =>
    simp only [call, effect]
    split
    · next hn =>
      unfold SpecRhythmPipelineController.newTicket at hn
      split at hn
      · cases hn
      split at hn
      · cases hn
        exact h.keep rfl
      · cases hn
    · exact h
  | publish proposalIds => exact h.keep (published_publish _ _).requestStates
  | finishVerification i v =>
    have ho := h.finishVerification i v
    simp only [call, effect, onController]
    split <;> simp_all

theorem scheduler_ok (shaper : SpecRhythmBudgetShaper) (maxNumSeqs : ℕ+) (calls : List Call) :
    let s := ((start { shaper, maxNumSeqs, maxNumSeqs_pos := maxNumSeqs.pos }).run calls).scheduler
    s.Ok maxNumSeqs ∧ ∃ p, s.controller.buildPlan s.active = .ok p := by
  intro s
  have h : s.Ok maxNumSeqs := foldlRecOn (motive := fun s : MailboxSession => s.scheduler.Ok maxNumSeqs) calls _
    ⟨rfl, nodup_nil, Nat.zero_le _, by simp [start], by simp [start]⟩ fun _ h c _ => ok_call h c
  obtain ⟨p, hp, -⟩ := h.buildPlan
  exact ⟨h, p, hp⟩

end SpecRhythmScheduler

end VllmAscend
