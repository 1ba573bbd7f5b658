import VllmAscend.Pearl.RequestSound
import VllmAscend.Rhythm.Cycle

/-!
# Windows in flight

A request may have proposed windows that await their verdict, each drafted as if
the ones before it were accepted. The target replica is behind them, at `s`; the
draft replica has all their tokens, those of `tip`.
-/

namespace VllmAscend

open Python PearlPipelineState List

def accept (gamma : Nat) (s : PearlPipelineState) (p : DevicePayload) : PearlPipelineState :=
  s.verified gamma (s.windowSize gamma) none p.nextTokens

def tip (gamma : Nat) (s : PearlPipelineState) (windows : List DevicePayload) : PearlPipelineState :=
  windows.foldl (accept gamma) s

def inFlight (windows : List DevicePayload) : List Int := windows.flatMap (·.nextTokens)

structure WindowFor (gamma i : Nat) (s : PearlPipelineState) (p : DevicePayload) : Prop where
  request : p.ticket.requestIndex = i
  epoch : p.ticket.requiredPrefixEpoch = s.continuationEpoch
  gamma_le : p.ticket.gamma ≤ gamma
  next : p.nextTokens.length = p.ticket.gamma
  size : p.verificationSize = s.windowSize gamma
  tokens : p.verificationTokens = s.candidates p.nextTokens
  nonneg : ∀ x ∈ p.nextTokens, 0 ≤ x
  confidence : 0 ≤ p.draftConfidence ∧ p.draftConfidence ≤ 1

def Windows (gamma i : Nat) : PearlPipelineState → List DevicePayload → Prop
  | _, [] => True
  | s, p :: ps => WindowFor gamma i s p ∧ Windows gamma i (accept gamma s p) ps

section
variable {γ i : Nat} {s : PearlPipelineState} {ps : List DevicePayload}

theorem WindowFor.next_pos (h : WindowFor γ i s p) : 0 < p.nextTokens.length := by
  rw [h.next]; exact p.ticket.gamma_pos

theorem WindowFor.next_le (h : WindowFor γ i s p) : p.nextTokens.length ≤ γ := by
  rw [h.next]; exact h.gamma_le

@[simp] theorem tip_nil : tip γ s [] = s := rfl

@[simp] theorem tip_cons : tip γ s (p :: ps) = tip γ (accept γ s p) ps := rfl

theorem tip_concat : tip γ s (ps ++ [q]) = accept γ (tip γ s ps) q := by
  rw [tip, foldl_append]; rfl

@[simp] theorem tokenIds_accept : (accept γ s p).tokenIds = s.tokenIds ++ p.nextTokens := by
  simp [accept, verified]

@[simp] theorem continuationEpoch_accept : (accept γ s p).continuationEpoch = s.continuationEpoch + 1 := rfl

theorem tokenIds_tip : ∀ (ps : List DevicePayload) (s : PearlPipelineState),
    (tip γ s ps).tokenIds = s.tokenIds ++ inFlight ps
  | [], s => (append_nil _).symm
  | p :: ps, s => by
    rw [tip_cons, tokenIds_tip ps, tokenIds_accept, append_assoc]; rfl

theorem continuationEpoch_tip : ∀ (ps : List DevicePayload) (s : PearlPipelineState),
    (tip γ s ps).continuationEpoch = s.continuationEpoch + ps.length
  | [], _ => rfl
  | p :: ps, s => by
    rw [tip_cons, continuationEpoch_tip ps, continuationEpoch_accept, length_cons]; omega

theorem WindowFor.verdictOk (h : WindowFor γ i s p) : VerdictOk s γ (s.windowSize γ) none p.nextTokens :=
  ⟨le_refl _, by simp, h.next_pos, h.next_le⟩

theorem rowOk_tip : ∀ {ps : List DevicePayload} {s : PearlPipelineState}, RowOk γ s → Windows γ i s ps →
    RowOk γ (tip γ s ps)
  | [], _, hs, _ => hs
  | p :: _, s, hs, h => rowOk_tip (s := accept γ s p) (hs.verified h.1.verdictOk) h.2

theorem windows_append : ∀ {ps qs : List DevicePayload} {s : PearlPipelineState},
    Windows γ i s (ps ++ qs) ↔ Windows γ i s ps ∧ Windows γ i (tip γ s ps) qs
  | [], _, _ => by simp [Windows]
  | p :: ps, qs, s => by
    rw [cons_append, Windows, Windows, windows_append, and_assoc]; rfl

theorem drop_accept (hs : RowOk γ s) :
    (accept γ s p).tokenIds.drop (accept γ s p).committedLength = p.nextTokens.drop 1 := by
  have hl := hs.length
  have hc : (accept γ s p).committedLength = s.tokenIds.length + 1 := by
    simp only [accept, verified, recordVerdict]
    rw [if_neg (lt_irrefl _)]; omega
  rw [hc, tokenIds_accept, drop_append, drop_of_length_le (by omega), nil_append]
  congr 1; omega

theorem windowSize_accept (h : WindowFor γ i s p) : (accept γ s p).windowSize γ = p.ticket.gamma := by
  have hp := h.next_pos
  simp only [accept, verified, windowSize, ne_eq, not_true_eq_false, decide_false, Bool.false_eq_true, if_true, if_false]
  rw [if_neg (by omega), h.next]

theorem Windows.nonneg : ∀ {ps : List DevicePayload} {s : PearlPipelineState}, Windows γ i s ps →
    ∀ x ∈ inFlight ps, 0 ≤ x
  | [], _, _, x, hx => by cases hx
  | p :: ps, s, h, x, hx => by
    rcases mem_append.mp hx with hx | hx
    · exact h.1.nonneg x hx
    · exact Windows.nonneg h.2 x hx

theorem Windows.request : ∀ {ps : List DevicePayload} {s : PearlPipelineState}, Windows γ i s ps →
    ∀ p ∈ ps, p.ticket.requestIndex = i
  | [], _, _, _, hp => by cases hp
  | q :: ps, s, h, p, hp => by
    rcases mem_cons.mp hp with rfl | hp
    · exact h.1.request
    · exact Windows.request h.2 p hp

theorem Windows.epoch : ∀ {ps : List DevicePayload} {s : PearlPipelineState} {k : Nat} {p : DevicePayload},
    Windows γ i s ps → ps[k]? = some p → p.ticket.requiredPrefixEpoch = s.continuationEpoch + k
  | q :: ps, s, 0, p, h, hp => by
    cases hp; exact h.1.epoch
  | q :: ps, s, k + 1, p, h, hp => by
    rw [Windows.epoch h.2 (k := k) (by simpa using hp), continuationEpoch_accept]; omega

/-! ## Checks -/

theorem validateFor_ok (hs : RowOk γ s) (h : WindowFor γ i s p) (ts : List Int) :
    p.validateFor (s.extend ts) = .ok () := by
  have hpos := hs.windowSize_pos
  have hsize : (if (s.extend ts).preVerify then 1 else if (s.extend ts).pendingWindowSize = 0 then p.ticket.gamma
      else (s.extend ts).pendingWindowSize) = s.windowSize γ := by
    show (if s.preVerify then 1 else if s.pendingWindowSize = 0 then p.ticket.gamma else s.pendingWindowSize) = _
    unfold windowSize
    by_cases hp : s.preVerify = true
    · rw [if_pos hp, if_pos hp]
    · have := (hs.post (by simpa using hp)).1
      rw [if_neg hp, if_neg hp, if_neg (by omega), if_neg (by omega)]
  have he : p.ticket.requiredPrefixEpoch = (s.extend ts).continuationEpoch := h.epoch
  have hl : p.verificationTokens.length = p.verificationSize := by
    rw [h.tokens, h.size]; exact length_candidates hs h.next_pos
  simp only [DevicePayload.validateFor, hsize, he, hl, h.size, h.next, hpos.ne', h.confidence, ne_eq,
    not_true_eq_false, and_self, if_false]

structure RowFor (gamma : Nat) (s : PearlPipelineState) (ps : List DevicePayload) (row : WorkRow) : Prop where
  eager : row.eager = !ps.isEmpty
  budget : 0 < row.budget ∧ row.budget ≤ gamma
  size : row.verificationSize = (tip gamma s ps).windowSize gamma
  before : row.verificationPrefix = ps.getLast?.map (·.nextTokens.drop 1)

theorem verificationPart_ok (hg : 0 < γ) (hs : RowOk γ s) (hw : Windows γ i s ps)
    (hr : RowFor γ s ps row) (ht : (st row.request).tokenIds = (tip γ s ps).tokenIds)
    (win : List Int) : verificationPart γ st row win = .ok ((tip γ s ps).candidates win) := by
  have hti := rowOk_tip hs hw
  have hlen := hti.length
  have hpos := hti.windowSize_pos
  have hle := hti.windowSize_le hg
  have hdr : ((tip γ s ps).tokenIds.drop (tip γ s ps).committedLength).length =
      (tip γ s ps).windowSize γ - 1 := by rw [length_drop]; omega
  have hbe : verificationBefore st row = (tip γ s ps).tokenIds.drop (tip γ s ps).committedLength := by
    unfold verificationBefore
    rw [hr.before, hr.size, ht]
    -- a row behind a win in flight is handed that window's ts
    rcases eq_nil_or_concat' ps with rfl | ⟨qs, q, rfl⟩
    · simp only [getLast?_nil, Option.map_none]
      split
      · rw [lastN_of_pos (by omega)]; congr 1; omega
      · exact (length_eq_zero_iff.mp (by omega)).symm
    · have hq := windows_append.mp hw
      simp only [getLast?_append, getLast?_singleton, Option.some_or, Option.map_some]
      rw [tip_concat, drop_accept (rowOk_tip hs hq.1)]
  unfold verificationPart
  simp only [hbe]
  rw [hr.size, if_neg (by omega), if_neg (by omega)]
  rfl

/-! ## Verdicts -/

def surviving (gamma : Nat) (s : PearlPipelineState) (ps : List DevicePayload) (a : Nat) : List DevicePayload :=
  if a = s.windowSize gamma then ps else []

theorem length_surviving_le : (surviving γ s ps a).length ≤ ps.length := by
  unfold surviving
  split
  · exact le_refl _
  · exact Nat.zero_le _

theorem Windows.surviving (h : Windows γ i s (p :: ps)) (hv : VerdictOk s γ a corr p.nextTokens) :
    Windows γ i (s.verified γ a corr p.nextTokens) (surviving γ s ps a) := by
  unfold VllmAscend.surviving
  split
  · rename_i ha
    rw [hv.correction_eq_none (by omega), ha]
    exact h.2
  · trivial

section
variable (hg : 0 < γ) (hs : RowOk γ s) (hw : Windows γ i s (p :: ps))
  (hv : VerdictOk s γ a corr p.nextTokens)
include hg hs hw hv

theorem verifyState_target (eager : Option SpecRhythmProposalTicket) :
    verifyState γ false eager s ⟨i, p, a, corr, p.nextTokens⟩ =
      .ok (s.verified γ a corr p.nextTokens) :=
  applyTargetVerification_ok hs hv hg (.inr (congrArg some hw.1.size))

theorem verifyState_draft (hlen : ps.length ≤ 1) :
    verifyState γ true (ps.head?.map (·.ticket)) (s.extend (inFlight (p :: ps)))
        ⟨i, p, a, corr, p.nextTokens⟩ =
      .ok ((s.verified γ a corr p.nextTokens).extend (inFlight (VllmAscend.surviving γ s ps a))) := by
  have hsize := hw.1.size
  have hcl : discardEager (ps.head?.map (·.ticket)) ⟨i, p, a, corr, p.nextTokens⟩
        (s.extend (inFlight (p :: ps))) =
      { s with tokenIds := s.tokenIds ++ p.nextTokens ++ inFlight (VllmAscend.surviving γ s ps a) } := by
    unfold discardEager VllmAscend.surviving
    rcases ps with _ | ⟨q, ps⟩
    · simp [extend, inFlight]
    obtain rfl : ps = [] := length_eq_zero_iff.mp (by simpa using hlen)
    have hq : WindowFor γ i (accept γ s p) q := hw.2.1
    by_cases ha : a = s.windowSize γ
    · simp [extend, inFlight, ha, hsize]
    simp only [head?_cons, Option.map_some, if_neg ha, hsize]
    rw [if_pos (by omega)]
    simp only [extend, inFlight, flatMap_cons, flatMap_nil, append_nil, ← append_assoc]
    rw [delLast_append q.ticket.gamma_pos _ _ hq.next]
  have hext : a < s.windowSize γ → inFlight (VllmAscend.surviving γ s ps a) = [] := by
    intro ha
    rw [VllmAscend.surviving, if_neg (by omega)]; rfl
  unfold verifyState
  rw [hcl, hsize]
  exact applyDraftVerification_ok hs hv hg (.inr rfl) _ hext

end

theorem finished_extend (hs : RowOk γ s) (ts : List Int) : finished eos (s.extend ts) = finished eos s := by
  have hc : (s.extend ts).committedCompletionTokenIds = s.committedCompletionTokenIds := by
    unfold committedCompletionTokenIds extend
    rw [take_append_of_le_length hs.committed_le]
  unfold finished
  rw [hc]; rfl

end

end VllmAscend
