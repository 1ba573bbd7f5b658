import Mathlib.Data.Fin.Basic
import VllmAscend.Lib.Collective
import VllmAscend.Lib.Python

/-!
# The remote proposer

`PearlRemoteProposer.propose` of `remote_proposer.py` on every rank of the
target's tensor-parallel group. Rank 0 asks the draft service and broadcasts its
answer, the others wait in the broadcast; every rank then checks the rows for
itself.
-/

namespace VllmAscend

open Python Collective List

inductive Json where
  | null
  | bool (value : Bool)
  | int (value : Int)
  | float (value : ℚ)
  | str (value : String)
  | list (items : List Json)
  | dict (items : List (String × Json))

namespace Remote

structure Batch where
  sampledTokenIds : List (List Int)
  numTokensNoSpec : List Int
  tokenIdsCpu : List (List Int)

abbrev Reply := Except PyError (List (String × Json))

/-! ## The request -/

def outOfBounds (index size : Nat) : PyError :=
  .indexError s!"index {index} is out of bounds for axis 0 with size {size}"

def contextOf (b : Batch) (row : List Int × Nat) : Except PyError (Nat × List Int) :=
  match b.numTokensNoSpec[row.2]? with
  | none => .error (outOfBounds row.2 b.numTokensNoSpec.length)
  | some numTokens =>
    if numTokens ≤ 0 then .error (.valueError "PEARL cannot draft from an empty target context.")
    else match b.tokenIdsCpu[row.2]? with
      | none => .error (outOfBounds row.2 b.tokenIdsCpu.length)
      | some tokens =>
        let prompt := tokens.take numTokens.toNat
        if prompt.any (· < 0) then .error (.valueError "PEARL target context contains an invalid token ID.")
        else .ok (row.2, prompt)

def activeRequests (b : Batch) : Except PyError (List (Nat × List Int)) :=
  if b.numTokensNoSpec.length < b.sampledTokenIds.length then
    .error (.valueError "PEARL received more sampled-token rows than target requests.")
  else (b.sampledTokenIds.zipIdx.filter fun row => !row.1.isEmpty).mapM (contextOf b)

/-- `_request_candidates`, given the reply; `text` is how an f-string shows a value. -/
def requestCandidates (text : Json → String) (reply : Reply) :
    Except PyError (List Json) := do
  let response ← reply
  match dictGet "ok" response with
  | some (.bool true) => pure ()
  | _ => throw (.runtimeError ("PEARL draft service rejected proposal request: " ++
      ((dictGet "error" response).elim "unknown error" text)))
  match dictGet "candidate_token_ids" response with
  | some (.list candidates) => return candidates
  | _ => throw (.runtimeError "PEARL draft service omitted candidate_token_ids.")

/-! ## The rows -/

def isTokenId : Json → Bool
  | .int n => 0 ≤ n
  | .bool _ => true
  | _ => false

def validateCandidateRow (numSpeculativeTokens : Nat) : Json → Except PyError (List Json)
  | .list row =>
    if numSpeculativeTokens < row.length then
      .error (.runtimeError "PEARL draft service returned an invalid candidate-window length.")
    else if row.any fun token => !isTokenId token then
      .error (.runtimeError "PEARL draft service returned invalid token IDs.")
    else .ok row
  | _ => .error (.runtimeError "PEARL draft service returned a non-list candidate row.")

def candidateRows (numSpeculativeTokens : Nat) (b : Batch) (active : List (Nat × List Int))
    (proposals : Option (List Json)) : Except PyError (List (List Json)) := do
  let empty := b.sampledTokenIds.map fun _ => []
  match proposals with
  | some proposals =>
    if proposals.length ≠ active.length then
      throw (.runtimeError "PEARL draft leader broadcast malformed candidate rows.")
    (active.zip proposals).foldlM (fun rows p => do
      let row ← validateCandidateRow numSpeculativeTokens p.2
      return rows.set p.1.1 row) empty
  | none => throw (.runtimeError "PEARL draft leader broadcast malformed candidate rows.")

abbrev RankProgram (followers : Nat) :=
  Program (Fin (followers + 1)) Unit (Option (List Json)) (Except PyError (List (List Json)))

def propose {followers : Nat} (numSpeculativeTokens : Nat) (text : Json → String) (reply : Reply) (b : Batch)
    (rank : Fin (followers + 1)) : RankProgram followers :=
  match activeRequests b with
  | .error e => .done (.error e)
  | .ok active =>
    if active = [] then .done (.ok (b.sampledTokenIds.map fun _ => []))
    else if rank = 0 then
      match requestCandidates text reply with
      | .error e => .done (.error e)
      | .ok candidates =>
        .broadcast () 0 (some candidates) fun x => .done (candidateRows numSpeculativeTokens b active x)
    else .broadcast () 0 none fun x => .done (candidateRows numSpeculativeTokens b active x)

/-! ## Alignment -/

def Aligned {followers : Nat} (ranks : Fin (followers + 1) → RankProgram followers) : Prop :=
  ∃ results, Ends (fun _ _ => True) ranks results ∧
    ((∃ rows, ∀ i, results i = .ok rows) ∨ ∀ i, ∃ e, results i = .error e)

def Answered (reply : Reply) : Prop :=
  ∃ response candidates, reply = .ok response ∧ dictGet "ok" response = some (.bool true) ∧
    dictGet "candidate_token_ids" response = some (.list candidates)

theorem requestCandidates_ok {text : Json → String} {reply : Reply} :
    (∃ candidates, requestCandidates text reply = .ok candidates) ↔ Answered reply := by
  unfold requestCandidates Answered
  cases reply with
  | error e => simp
  | ok response =>
    simp only [bind, Except.bind, throw, throwThe, MonadExceptOf.throw, pure, Except.pure]
    constructor
    · rintro ⟨candidates, h⟩
      split at h
      · rename_i hok
        split at h
        · rename_i items hl
          exact ⟨response, items, rfl, hok, hl⟩
        · cases h
      · cases h
    · rintro ⟨_, candidates, ⟨rfl⟩, hok, hl⟩
      rw [hok, hl]
      exact ⟨candidates, rfl⟩

/-- There is something to draft: a request with new tokens, and each of them has a context of token ids. -/
structure Drafts (b : Batch) : Prop where
  rows : b.sampledTokenIds.length ≤ b.numTokensNoSpec.length
  active : ∃ sampled ∈ b.sampledTokenIds, sampled ≠ []
  context : ∀ (i : Nat) (sampled : List Int), b.sampledTokenIds[i]? = some sampled → sampled ≠ [] → ∃ (numTokens : Int) (tokens : List Int),
    b.numTokensNoSpec[i]? = some numTokens ∧ b.tokenIdsCpu[i]? = some tokens ∧ 0 < numTokens ∧
      ∀ token ∈ tokens.take numTokens.toNat, 0 ≤ token

variable {b : Batch}

theorem contextOf_ok : (∃ context, contextOf b row = .ok context) ↔
    ∃ (numTokens : Int) (tokens : List Int), b.numTokensNoSpec[row.2]? = some numTokens ∧ b.tokenIdsCpu[row.2]? = some tokens ∧
      0 < numTokens ∧ ∀ token ∈ tokens.take numTokens.toNat, 0 ≤ token := by
  unfold contextOf
  cases b.numTokensNoSpec[row.2]? with
  | none => simp
  | some numTokens =>
    by_cases hp : numTokens ≤ 0
    · simp [hp]
    cases b.tokenIdsCpu[row.2]? with
    | none => simp [hp]
    | some tokens =>
      by_cases hne : (tokens.take numTokens.toNat).any (· < 0) = true
      · simp only [hp, hne, if_true, if_false]
        obtain ⟨token, hm, hlt⟩ := any_eq_true.mp hne
        refine ⟨fun ⟨_, h⟩ => (nomatch h), fun ⟨_, _, hn, ht, _, ha⟩ => ?_⟩
        cases hn
        cases ht
        exact absurd (ha token hm) (not_le.mpr (of_decide_eq_true hlt))
      · simp only [hp, hne, if_false]
        refine ⟨fun _ => ⟨_, _, rfl, rfl, not_le.mp hp, fun token hm => ?_⟩, fun _ => ⟨_, rfl⟩⟩
        by_contra hlt
        exact hne (any_eq_true.mpr ⟨token, hm, decide_eq_true (not_le.mp hlt)⟩)

theorem mem_active : row ∈ b.sampledTokenIds.zipIdx.filter (fun row => !row.1.isEmpty) ↔
      b.sampledTokenIds[row.2]? = some row.1 ∧ row.1 ≠ [] := by
  rw [mem_filter, mem_zipIdx_iff_getElem?]
  simp

theorem activeRequests_ok : (∃ active, activeRequests b = .ok active ∧ active ≠ []) ↔ Drafts b := by
  unfold activeRequests
  constructor
  · rintro ⟨active, h, hne⟩
    split at h
    · cases h
    rename_i hro
    have hmem := fun c => @mem_mapM _ _ _ c _ _ _ h
    refine ⟨not_lt.mp hro, ?_, fun i sampled hi hs => ?_⟩
    · obtain ⟨c, hc⟩ := exists_mem_of_ne_nil _ hne
      obtain ⟨row, hrow, -⟩ := (hmem c).mp hc
      obtain ⟨hget, hs⟩ := mem_active.mp hrow
      exact ⟨row.1, mem_of_getElem? hget, hs⟩
    · have hrow : (sampled, i) ∈ b.sampledTokenIds.zipIdx.filter fun row => !row.1.isEmpty := mem_active.mpr ⟨hi, hs⟩
      exact contextOf_ok.mp (exists_of_mapM h hrow)
  · intro h
    rw [if_neg (not_lt.mpr h.rows)]
    obtain ⟨active, hact⟩ := mapM_total fun row hrow =>
      contextOf_ok.mpr (h.context row.2 row.1 (mem_active.mp hrow).1 (mem_active.mp hrow).2)
    refine ⟨active, hact, ?_⟩
    rintro rfl
    obtain ⟨sampled, hm, hs⟩ := h.active
    obtain ⟨i, hi⟩ := getElem?_of_mem hm
    have hrow : (sampled, i) ∈ b.sampledTokenIds.zipIdx.filter fun row => !row.1.isEmpty := mem_active.mpr ⟨hi, hs⟩
    obtain ⟨c, hc⟩ := exists_of_mapM hact hrow
    exact absurd ((mem_mapM hact).mpr ⟨_, hrow, hc⟩) (not_mem_nil)

section
variable {followers numSpeculativeTokens : Nat} {text : Json → String} {reply : Reply} {b : Batch}

variable {ranks : Fin (followers + 1) → RankProgram followers}

theorem aligned_of_done (h : ∀ i, ranks i = .done result) : Aligned ranks := by
  refine ⟨fun _ => result, .done h, ?_⟩
  cases result with
  | ok rows => exact .inl ⟨rows, fun _ => rfl⟩
  | error e => exact .inr fun _ => ⟨e, rfl⟩

theorem aligned_of_broadcast (value : Fin (followers + 1) → Option (List Json))
    (rest : Option (List Json) → Except PyError (List (List Json)))
    (h : ∀ i, ranks i = .broadcast () 0 (value i) fun x => .done (rest x)) : Aligned ranks := by
  refine ⟨fun _ => rest (value 0), @ends_broadcast _ _ _ _ _ _ _ _ _ (fun _ => rest) (fun _ => trivial) h, ?_⟩
  cases rest (value 0) with
  | ok rows => exact .inl ⟨rows, fun _ => rfl⟩
  | error e => exact .inr fun _ => ⟨e, rfl⟩

/-- Exactly when nobody but rank 0 waits, nothing is drafted, or the exchange succeeds. -/
theorem propose_aligned : Aligned (fun rank : Fin (followers + 1) => propose numSpeculativeTokens text reply b rank) ↔
    followers = 0 ∨ ¬ Drafts b ∨ Answered reply := by
  rw [← activeRequests_ok, ← @requestCandidates_ok text]
  unfold propose
  cases ha : activeRequests b with
  | error e => simpa using aligned_of_done fun _ => rfl
  | ok active =>
    by_cases hn : active = []
    · simpa [hn] using aligned_of_done fun _ => rfl
    simp only [hn, if_false]
    cases hre : requestCandidates text reply with
    | ok candidates =>
      refine iff_of_true (aligned_of_broadcast (fun rank => if rank = 0 then some candidates else none)
        (candidateRows numSpeculativeTokens b active) fun rank => ?_) (.inr (.inr ⟨candidates, rfl⟩))
      by_cases hr : rank = 0 <;> simp [hr]
    | error e =>
      cases followers with
      | zero => exact iff_of_true (aligned_of_done fun rank => if_pos (Fin.fin_one_eq_zero rank)) (.inl rfl)
      | succ n =>
        refine iff_of_false (fun ⟨_, he, _⟩ => ?_) ?_
        · -- rank 1 waits in the broadcast that rank 0 has not come to
          have hne : (1 : Fin (n + 1 + 1)) ≠ 0 := by simp
          exact he.false_of_left (i := 1) (j := 0) (if_neg hne) trivial (if_pos rfl)
        · simpa using hn

end

/-! ## A service that does not answer -/

def oneRow : Batch := ⟨[[5]], [2], [[3, 5]]⟩

theorem propose_stuck : ¬ Aligned (fun rank : Fin 2 =>
    propose 4 (fun _ => "") (.error (.runtimeError "PEARL message receive failed.")) oneRow rank) := by
  rintro ⟨_, he, -⟩
  exact he.false_of_left (i := 1) (j := 0) rfl trivial rfl

end Remote

end VllmAscend
