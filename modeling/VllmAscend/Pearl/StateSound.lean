import VllmAscend.Lib.Greedy
import VllmAscend.Pearl.State
import VllmAscend.Pearl.VerdictSound

/-!
# A verdict on one request

Between rounds a request holds its committed tokens and, when the last window
was accepted, all but one token of the next. `verified` says what a verdict does
to it in those terms; both replicas' transitions compute it.
-/

namespace VllmAscend

open Python Greedy List

variable {gamma a : Nat} {s : PearlPipelineState} {corr : Option Int} {next : List Int}

namespace PearlPipelineState

/-- The tokens of a request between rounds: the committed ones, then `window - 1` that await a verdict. -/
structure RowOk (gamma : Nat) (s : PearlPipelineState) : Prop where
  promptPos : 0 < s.promptLength
  promptLt : s.promptLength < s.committedLength
  pre : s.preVerify = true → s.tokenIds.length = s.committedLength ∧ s.pendingWindowSize = 0
  post : s.preVerify = false → 0 < s.pendingWindowSize ∧ s.pendingWindowSize ≤ gamma ∧
    s.tokenIds.length + 1 = s.committedLength + s.pendingWindowSize

section
section
variable (h : RowOk gamma s)
include h

theorem RowOk.windowSize_pos : 0 < s.windowSize gamma := by
  unfold windowSize
  split
  · omega
  · have := (h.post (by simp_all)).1
    rw [if_neg (by omega)]; exact this

theorem RowOk.windowSize_le (hg : 0 < gamma) : s.windowSize gamma ≤ gamma := by
  unfold windowSize
  split
  · omega
  · have := (h.post (by simp_all)).2.1
    split <;> omega

theorem RowOk.length : s.tokenIds.length + 1 = s.committedLength + s.windowSize gamma := by
  unfold windowSize
  split
  · have := (h.pre (by simp_all)).1
    omega
  · have := h.post (by simp_all)
    rw [if_neg (by omega)]; exact this.2.2

theorem RowOk.committed_le : s.committedLength ≤ s.tokenIds.length := by
  have := h.length
  have := h.windowSize_pos
  omega

theorem RowOk.tokens_ne_nil : s.tokenIds ≠ [] := by
  intro e
  have hle := h.committed_le
  have := h.promptLt
  rw [e, length_nil] at hle
  omega

theorem verificationSize_ok (hg : 0 < gamma)
    (hs : size = none ∨ size = some (s.windowSize gamma)) : s.verificationSize gamma size = .ok (s.windowSize gamma) := by
  have hp := h.windowSize_pos
  have hle := h.windowSize_le hg
  rcases hs with rfl | rfl
  · show (if s.windowSize gamma = 0 ∨ gamma < s.windowSize gamma then _ else Except.ok (s.windowSize gamma)) = _
    rw [if_neg (by omega)]
  have he : (if s.preVerify then 1 else s.windowSize gamma) = s.windowSize gamma := by
    unfold windowSize; split <;> rfl
  unfold verificationSize
  simp only [he]
  rw [if_neg (by omega)]

end

def verified (s : PearlPipelineState) (gamma a : Nat) (correction : Option Int) (next : List Int) :
    PearlPipelineState :=
  let expected := s.windowSize gamma
  { s.recordVerdict expected a with
    tokenIds := if a = expected then s.tokenIds ++ next
      else s.tokenIds.take (s.committedLength + a) ++ correction.toList
    preVerify := decide (a ≠ expected)
    pendingWindowSize := if a = expected then next.length else 0 }

structure VerdictOk (s : PearlPipelineState) (gamma a : Nat) (correction : Option Int) (next : List Int) : Prop where
  le : a ≤ s.windowSize gamma
  correction : correction.isSome ↔ a < s.windowSize gamma
  nextPos : 0 < next.length
  nextLe : next.length ≤ gamma

variable {j : Nat} {T : List Int → Int}

section
variable (h : RowOk gamma s) (hv : VerdictOk s gamma a corr next)
include hv

theorem VerdictOk.correction_eq_none (ha : ¬ a < s.windowSize gamma) : corr = none := by
  rw [← Option.not_isSome_iff_eq_none, hv.correction]; exact ha

theorem validateVerification_ok : validateVerification gamma (s.windowSize gamma) a corr next = .ok () := by
  have hle := hv.le
  have hp := hv.nextPos
  have hn := hv.nextLe
  have hc := hv.correction
  unfold validateVerification
  rw [if_neg (by omega), if_neg (by omega), if_neg, if_neg]
  · rintro ⟨hlt, rfl⟩
    have := hc.mpr (by omega)
    simp at this
  · rintro ⟨he, hs⟩
    have := hc.mp hs
    omega

include h

omit hv in
theorem rollback_eq (ha : a < s.windowSize gamma) :
    rollback s.preVerify (s.windowSize gamma) a s.tokenIds = s.tokenIds.take (s.committedLength + a) := by
  have hl := h.length
  unfold rollback
  split
  · rw [delLast_of_pos (by omega)]
    congr 1; omega
  rename_i hno
  rw [take_of_length_le]
  cases hp : s.preVerify with
  | true =>
    have h1 : s.windowSize gamma = 1 := by unfold windowSize; simp [hp]
    omega
  | false =>
    rw [hp] at hno
    simp only [Bool.not_false, true_and, not_lt] at hno
    omega

theorem applyTargetVerification_ok (hg : 0 < gamma) (hs : size = none ∨ size = some (s.windowSize gamma)) :
    s.applyTargetVerification gamma a corr next size = .ok (s.verified gamma a corr next) := by
  unfold applyTargetVerification applyVerification
  rw [verificationSize_ok h hg hs]
  simp only [ok_bind, validateVerification_ok hv, Int.toNat_natCast, id_eq]
  by_cases ha : a = s.windowSize gamma
  · simp [verified, ha, pure, Except.pure]
  · rw [if_neg ha, rollback_eq h (by have := hv.le; omega)]
    simp [verified, ha, pure, Except.pure]

theorem applyDraftVerification_ok (hg : 0 < gamma)
    (hs : size = none ∨ size = some (s.windowSize gamma)) (extra : List Int)
    (he : a < s.windowSize gamma → extra = []) :
    { s with tokenIds := s.tokenIds ++ next ++ extra }.applyDraftVerification gamma a corr next size =
      .ok { s.verified gamma a corr next with
        tokenIds := (s.verified gamma a corr next).tokenIds ++ extra } := by
  have hsize : PearlPipelineState.verificationSize { s with tokenIds := s.tokenIds ++ next ++ extra } gamma size =
      .ok _ := verificationSize_ok h hg hs
  unfold applyDraftVerification applyVerification
  rw [hsize]
  simp only [ok_bind, validateVerification_ok hv, Int.toNat_natCast]
  by_cases ha : a = s.windowSize gamma
  · simp [verified, ha, pure, Except.pure, recordVerdict]
  have hlt : a < s.windowSize gamma := by have := hv.le; omega
  rw [if_neg ha, he hlt, append_nil, delLast_append hv.nextPos _ _ rfl, rollback_eq h hlt]
  simp [verified, ha, pure, Except.pure, recordVerdict]

theorem RowOk.verified : RowOk gamma (s.verified gamma a corr next) := by
  have hl := h.length
  have hle := hv.le
  refine ⟨h.promptPos, ?_, ?_, ?_⟩
  · have := h.promptLt
    simp only [PearlPipelineState.verified, recordVerdict]; omega
  · intro hp
    have ha : a ≠ s.windowSize gamma := by simpa [PearlPipelineState.verified] using hp
    obtain ⟨c, rfl⟩ := Option.isSome_iff_exists.mp (hv.correction.mpr (by omega))
    simp only [PearlPipelineState.verified, recordVerdict, if_neg ha, length_append, length_take,
      Option.toList_some, length_singleton, and_true]
    rw [if_pos (by omega)]; omega
  · intro hp
    have ha : a = s.windowSize gamma := by simpa [PearlPipelineState.verified] using hp
    have := hv.nextPos
    have := hv.nextLe
    simp only [PearlPipelineState.verified, recordVerdict, if_pos ha, length_append]
    rw [if_neg (by omega)]; omega

/-! ## What is committed -/

omit hv

def committed (s : PearlPipelineState) : List Int := s.tokenIds.take s.committedLength

def candidates (s : PearlPipelineState) (next : List Int) : List Int :=
  s.tokenIds.drop s.committedLength ++ next.take 1

theorem length_candidates (hn : 0 < next.length) : (s.candidates next).length = s.windowSize gamma := by
  have := h.length
  have := h.committed_le
  rw [candidates, length_append, length_drop, length_take]
  omega

theorem take_candidates (hj : j < s.windowSize gamma) :
    s.committed ++ (s.candidates next).take j = s.tokenIds.take (s.committedLength + j) := by
  have := h.length
  rw [candidates, committed, take_append_of_le_length (by rw [length_drop]; omega), take_add]

theorem committed_verified (hv : VerdictOk s gamma a corr next) :
    (s.verified gamma a corr next).committed = s.committed ++ (s.candidates next).take a ++ corr.toList := by
  have hl := h.length
  have hle := hv.le
  by_cases ha : a = s.windowSize gamma
  · have hc : corr = none := hv.correction_eq_none (by omega)
    have hcl := length_candidates h hv.nextPos
    rw [hc, Option.toList_none, append_nil, take_of_length_le (by omega), committed, candidates, committed]
    simp only [verified, recordVerdict, if_pos ha]
    rw [if_neg (by omega), ← append_assoc, take_append_drop, take_append, take_of_length_le (by omega)]
    congr 2; omega
  · have hlt : a < s.windowSize gamma := by omega
    obtain ⟨c, rfl⟩ := Option.isSome_iff_exists.mp (hv.correction.mpr hlt)
    rw [take_candidates h hlt, committed]
    simp only [verified, recordVerdict, if_neg ha, if_pos hlt]
    rw [take_of_length_le]
    simp only [length_append, length_take, Option.toList_some, length_singleton]
    omega

/-! ## Greedy verdicts -/

def targetOutputs (T : List Int → Int) (s : PearlPipelineState) (gamma : Nat) : List Int :=
  (List.range (s.windowSize gamma)).map fun j => T (s.tokenIds.take (s.committedLength + j))

omit h in
@[simp] theorem length_targetOutputs (T : List Int → Int) (s : PearlPipelineState) (gamma : Nat) :
    (targetOutputs T s gamma).length = s.windowSize gamma := by
  simp [targetOutputs]

omit h in
theorem getElem?_targetOutputs (hj : j < s.windowSize gamma) :
    (targetOutputs T s gamma)[j]? = some (T (s.tokenIds.take (s.committedLength + j))) := by
  rw [targetOutputs, getElem?_map, getElem?_range hj]; rfl

theorem continues_verified (hc : Continues T p s.committed) (hv : VerdictOk s gamma a corr next)
    (hm : ∀ j < a, (s.candidates next)[j]? = (targetOutputs T s gamma)[j]?)
    (hco : a < s.windowSize gamma → corr = (targetOutputs T s gamma)[a]?) :
    Continues T p (s.verified gamma a corr next).committed := by
  have hag : Agrees T s.committed (s.candidates next) a := fun j hj => by
    have hje : j < s.windowSize gamma := by have := hv.le; omega
    rw [hm j hj, getElem?_targetOutputs hje, take_candidates h hje]
  rw [committed_verified h hv]
  by_cases ha : a < s.windowSize gamma
  · rw [hco ha, getElem?_targetOutputs ha, ← take_candidates h ha]
    exact (hc.append hag).snoc
  · rw [hv.correction_eq_none ha, Option.toList_none, append_nil]
    exact hc.append hag

end

end

end PearlPipelineState

/-! ## The end of a request -/

open PearlPipelineState

theorem committedCompletion_eq (s : PearlPipelineState) :
    s.committedCompletionTokenIds = s.committed.drop s.promptLength := rfl

theorem committedCompletion_verified (h : RowOk gamma s) (hv : VerdictOk s gamma a corr next) :
    s.committedCompletionTokenIds <+: (s.verified gamma a corr next).committedCompletionTokenIds := by
  rw [committedCompletion_eq, committedCompletion_eq, committed_verified h hv]
  have hl : s.promptLength ≤ s.committed.length := by
    have := h.committed_le
    have := h.promptLt
    rw [committed, length_take]; omega
  show _ <+: List.drop s.promptLength _
  rw [append_assoc, drop_append_of_le_length hl]
  exact prefix_append _ _

theorem length_committedCompletion (h : RowOk gamma s) :
    s.committedCompletionTokenIds.length = s.committedLength - s.promptLength := by
  rw [committedCompletion_eq, committed, length_drop, length_take, Nat.min_eq_left h.committed_le]

theorem committedLength_lt_verified (h : RowOk gamma s) :
    s.committedLength < (s.verified gamma a corr next).committedLength := by
  have := h.windowSize_pos
  simp only [verified, recordVerdict]
  split <;> omega

theorem finished_of_prefix
    (h : s.committedCompletionTokenIds <+: s'.committedCompletionTokenIds) (hm : s'.maxTokens = s.maxTokens)
    (hi : s'.ignoreEos = s.ignoreEos) (hf : finished eos s = true) : finished eos s' = true := by
  unfold finished at hf ⊢
  simp only [Bool.or_eq_true, decide_eq_true_eq, Bool.and_eq_true, any_eq_true] at hf ⊢
  rw [hm, hi]
  rcases hf with hf | ⟨hf, x, hx, he⟩
  · exact Or.inl (hf.trans h.length_le)
  · exact Or.inr ⟨hf, x, h.subset hx, he⟩

theorem truncateCompletion_greedy (T : List Int → Int) (eos : Finset Int) (p : List Int) {ignoreEos : Bool}
    (h : m ≤ k ∨ (ignoreEos = false ∧ ∃ x ∈ greedy T p k, x ∈ eos)) :
    truncateCompletion eos m ignoreEos (greedy T p k) = truncateCompletion eos m ignoreEos (greedy T p m) := by
  by_cases hk : m ≤ k
  · unfold truncateCompletion
    rw [take_greedy T p hk, take_greedy T p (le_refl m)]
  obtain ⟨rfl, x, hx, he⟩ := h.resolve_left hk
  obtain ⟨n, rfl⟩ := Nat.exists_eq_add_of_le (Nat.le_of_not_le hk)
  obtain ⟨i, hi⟩ : ∃ i, (greedy T p k).findIdx? (· ∈ eos) = some i := by
    rw [← Option.isSome_iff_exists, findIdx?_isSome, any_eq_true]
    exact ⟨x, hx, by simpa using he⟩
  have hlt : i < k := by
    have := (findIdx?_eq_some_iff_findIdx_eq.mp hi).1
    simpa using this
  unfold truncateCompletion
  simp only [Bool.false_eq_true, if_false]
  rw [take_of_length_le (by simp), take_of_length_le (by simp), greedy_add, findIdx?_append, hi]
  simp only [Option.some_or]
  rw [take_append_of_le_length (by simp; omega)]

end VllmAscend
