import VllmAscend.Pearl.RoundSound

/-!
# The requests of a batch

What holds of a request from its prefill on, whatever verdicts it is given: it
still starts with its prompt, its parameters are those it was admitted with, its
tokens are real tokens, and at temperature zero what is committed is the
target's own continuation.
-/

namespace VllmAscend

open Python Greedy Rows PearlPipelineState List

/-! ## One request -/

structure RequestOk (models : PearlModels) (gamma : Nat) (prompt : List Int) (params : NativeSamplingParams)
    (s : PearlPipelineState) : Prop extends RowOk gamma s where
  promptTokens : s.tokenIds.take s.promptLength = prompt
  promptLength : s.promptLength = prompt.length
  temperature : s.temperature = params.temperature
  maxTokens : s.maxTokens = params.maxTokens
  ignoreEos : s.ignoreEos = params.ignoreEos
  nonneg : ∀ x ∈ s.tokenIds, 0 ≤ x
  greedy : params.temperature = 0 → Continues (fun p => (models.target p : Int)) prompt s.committed

section

theorem draftWindow_nonneg : ∀ x ∈ draftWindow draft states i n, 0 ≤ x := by
  unfold draftWindow
  generalize (states i).tokenIds = p
  induction n generalizing p with
  | zero => simp [greedy]
  | succ n ih =>
    intro x hx
    rcases mem_cons.mp hx with rfl | hx
    · exact Int.natCast_nonneg _
    · exact ih _ x hx

variable {next : List Int}

theorem take_promptLength_verified (h : RowOk γ s) :
    (s.verified γ a corr next).tokenIds.take s.promptLength = s.tokenIds.take s.promptLength := by
  have hl := h.length
  have hlt := h.promptLt
  simp only [verified]
  split
  · rw [take_append_of_le_length (by omega)]
  · rw [take_append_of_le_length (by rw [length_take]; omega), take_take, Nat.min_eq_left (by omega)]

theorem RequestOk.verified (h : RequestOk ms γ pr pa s)
    (hl : 0 < next.length ∧ next.length ≤ γ) (hp : ∀ x ∈ next, 0 ≤ x) (hv : RowVerdictOk ms γ s next v) :
    RequestOk ms γ pr pa (s.verified γ v.1 (decodeCorrection v.2) next) := by
  have hok := hv.verdictOk hl.1 hl.2
  refine ⟨h.toRowOk.verified hok, ?_, h.promptLength, h.temperature, h.maxTokens, h.ignoreEos, ?_, ?_⟩
  · exact (take_promptLength_verified h.toRowOk).trans h.promptTokens
  · intro x hx
    simp only [PearlPipelineState.verified] at hx
    split at hx
    · rcases mem_append.mp hx with hx | hx
      · exact h.nonneg x hx
      · exact hp x hx
    rcases mem_append.mp hx with hx | hx
    · exact h.nonneg x (mem_of_mem_take hx)
    · exact hv.nonneg x (Option.mem_toList.mp hx)
  · intro h0
    obtain ⟨hm, hc⟩ := hv.greedy (h.temperature.trans h0)
    exact continues_verified h.toRowOk (h.greedy h0) hok hm hc

end

/-! ## Its completion -/

/-- The target model's own continuation of a prompt, cut by `_truncate_completion`. -/
def greedyCompletion (models : PearlModels) (eos : Finset Int) (prompt : List Nat) (params : NativeSamplingParams) :
    List Int :=
  truncateCompletion eos params.maxTokens params.ignoreEos
    (greedy (fun p => (models.target p : Int)) (prompt.map Int.ofNat) params.maxTokens)

theorem truncateCompletion_finished
    (hc : Continues T pr s.committed) (hp : s.promptLength = pr.length) (hf : finished eos s = true) :
    truncateCompletion eos s.maxTokens s.ignoreEos s.committedCompletionTokenIds =
      truncateCompletion eos s.maxTokens s.ignoreEos (greedy T pr s.maxTokens) := by
  have he : s.committedCompletionTokenIds = greedy T pr (s.committed.length - pr.length) := by
    rw [committedCompletion_eq, hp, hc.drop]
  simp only [finished, he, length_greedy, Bool.or_eq_true, decide_eq_true_eq, Bool.and_eq_true, Bool.not_eq_true',
    any_eq_true] at hf
  rw [he]
  exact truncateCompletion_greedy T eos pr hf

theorem RequestOk.completion (h : RequestOk ms γ (pr.map Int.ofNat) p s)
    (h0 : p.temperature = 0) (hf : finished eos s = true) : greedyCompletion ms eos pr p =
      truncateCompletion eos s.maxTokens s.ignoreEos s.committedCompletionTokenIds := by
  rw [greedyCompletion, truncateCompletion_finished (h.greedy h0) h.promptLength hf, h.maxTokens, h.ignoreEos]

/-! ## Admission -/

instance : Inhabited NativeSamplingParams :=
  ⟨{ temperature_nonneg := by decide, draftTemperature_nonneg := zeroRat_nonneg, maxTokens_pos := defaultTokens_pos }⟩

def promptOf (prompts : List (List Nat)) (i : Nat) : List Int := (prompts.getD i []).map Int.ofNat

def paramsOf (params : List NativeSamplingParams) (i : Nat) : NativeSamplingParams := params.getD i default

structure Admitted (cfg : PearlConfig) (gamma : Nat) (prompts : List (List Nat)) (arg : SamplingArg)
    (maxRounds : Option Nat) (params : List NativeSamplingParams) : Prop where
  prompts_ne : prompts ≠ []
  toList : arg.toList prompts.length cfg = params
  length : params.length = prompts.length
  temperature : (∀ p ∈ params, p.temperature = 0) ∨ ∀ p ∈ params, 0 < p.temperature
  batched : ∀ prompt ∈ prompts, prompt.length ≤ cfg.maxNumBatchedTokens
  prompt_ne : ∀ p ∈ prompts.zip params, p.1 ≠ []
  fits : maxRounds = none → ∀ p ∈ prompts.zip params, p.1.length + p.2.maxTokens + gamma ≤ cfg.maxModelLen

section
variable {prs : List (List Nat)}

theorem normalizeSamplingParams_ok (h : normalizeSamplingParams n arg cfg = .ok pa) :
    pa.length = n ∧ ((∀ p ∈ pa, p.temperature = 0) ∨ ∀ p ∈ pa, 0 < p.temperature) := by
  unfold normalizeSamplingParams at h
  simp only at h
  split at h
  · cases h
  rename_i hl
  split at h
  · rename_i ht
    cases h
    exact ⟨not_not.mp hl, by simpa using ht⟩
  · cases h

theorem normalizeSamplingParams_eq (h : normalizeSamplingParams n arg cfg = .ok pa) :
    arg.toList n cfg = pa := by
  simp only [normalizeSamplingParams] at h
  split at h
  · cases h
  split at h
  · cases h; rfl
  · cases h

theorem admitBatch_ok (h : admitBatch cfg γ prs arg maxRounds = .ok pa) :
    Admitted cfg γ prs arg maxRounds pa := by
  simp only [admitBatch, ite_throw_bind, ite_throw, bind_ok, forM_ok] at h
  obtain ⟨hbt, hba, -, ps, hnr, -, -, hro, -, heq⟩ := h
  cases heq
  obtain ⟨hlen, hte⟩ := normalizeSamplingParams_ok hnr
  refine ⟨fun hno => hbt (.inl hno), normalizeSamplingParams_eq hnr, hlen, hte, ?_, fun p hp => (hro p hp).1, ?_⟩
  · intro pr hp
    simp only [any_eq_true, decide_eq_true_eq, not_exists, not_and] at hba
    exact Nat.le_of_not_lt (hba pr hp)
  · intro hm p hp
    have := (hro p hp).2.1
    rw [hm] at this
    exact Nat.le_of_not_lt this

theorem getElem?_zip_of_lt (hl : pa.length = prs.length) (hi : i < prs.length) :
    ∃ pr p, prs[i]? = some pr ∧ pa[i]? = some p ∧ (pr, p) ∈ prs.zip pa := by
  have hi' : i < pa.length := by omega
  refine ⟨prs[i], pa[i], getElem?_eq_getElem hi, getElem?_eq_getElem hi', ?_⟩
  exact mem_of_getElem? (by
    rw [getElem?_zip_eq_some]
    exact ⟨getElem?_eq_getElem hi, getElem?_eq_getElem hi'⟩)

theorem promptOf_eq (h : prs[i]? = some pr) : promptOf prs i = pr.map Int.ofNat := by
  rw [promptOf, getD_eq_getElem?_getD, h]; rfl

theorem paramsOf_eq (h : pa[i]? = some p) : paramsOf pa i = p := by
  rw [paramsOf, getD_eq_getElem?_getD, h]; rfl

theorem requestOk_prefilled (ms : PearlModels) (γ : Nat) (h : Admitted cfg γ prs arg maxRounds pa) (hi : i < prs.length) :
    RequestOk ms γ (promptOf prs i) (paramsOf pa i) (prefilled ms prs pa i) ∧
      (prefilled ms prs pa i).preVerify = true := by
  obtain ⟨pr, p, hpr, hp, hm⟩ := getElem?_zip_of_lt h.length hi
  have hpos : 0 < pr.length := length_pos_of_ne_nil (h.prompt_ne _ hm)
  rw [promptOf_eq hpr, paramsOf_eq hp]
  simp only [prefilled, hpr, hp]
  refine ⟨⟨⟨by simpa [commitToken, new] using hpos, by simp [commitToken, new], fun _ => by simp [commitToken, new],
    ?_⟩, by simp [commitToken, new], rfl, rfl, rfl, rfl, ?_, fun h0 => ?_⟩, rfl⟩
  · intro hno
    simp [commitToken, new] at hno
  · intro x hx
    simp only [commitToken, new, mem_append, mem_map, mem_singleton] at hx
    rcases hx with ⟨n, -, rfl⟩ | rfl
    · exact Int.natCast_nonneg _
    · unfold firstToken
      split <;> exact Int.natCast_nonneg _
  · refine continues_iff.mpr ⟨1, ?_⟩
    rw [committed, take_of_length_le (by simp [commitToken, new])]
    simp [commitToken, new, firstToken, h0, greedy]

end

end VllmAscend
