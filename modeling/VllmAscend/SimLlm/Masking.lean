import VllmAscend.SimLlm.Isolation

/-!
# What sandwich masking clears

Rows are cleared for every batch index under which there is no match, as many as
its request has tokens, computed ones included. The matches, though, are kept by
the place among the new requests, and only scheduled tokens have rows.
-/

namespace VllmAscend.SimLlm

open Python List

section
variable {κ : Type*} {cfg : SandwichConfig} {matchResults : List (Nat × MatchResult κ)} {batch : List Entry} {ly t : Nat}

def Clears (matchResults : List (Nat × MatchResult κ)) (batch : List Entry) (t : Nat) (item : Entry × Nat) : Prop :=
  isMatched matchResults item.2 = false ∧ queryStart batch item.2 ≤ t ∧
    t < queryStart batch item.2 + (item.1.numComputedTokens + item.1.numScheduledTokens)

instance : Decidable (Clears matchResults batch t item) := inferInstanceAs (Decidable (_ ∧ _ ∧ _))

theorem getElem?_applySandwichSlots :
    (applySandwichSlots cfg matchResults batch ly sl)[t]? = sl[t]?.map fun slot =>
      if cfg.keeps ly = false ∧ ∃ item ∈ batch.zipIdx, Clears matchResults batch t item then none else slot := by
  unfold applySandwichSlots
  cases cfg.keeps ly with
  | true => simp
  | false =>
    simp only [Bool.false_eq_true, if_false, true_and]
    generalize batch.zipIdx = en
    induction en generalizing sl with
    | nil => simp
    | cons item en ih =>
      rw [foldl_cons, ih]
      simp only [exists_mem_cons_iff]
      by_cases hc : Clears matchResults batch t item
      · have ⟨hm, hr⟩ := hc
        rw [if_neg (by simp [hm]), if_neg (by omega), clearSlots, getElem?_mapIdx, Option.map_map]
        simp only [hr, hc, true_or, and_self, if_true, Function.comp_def, ite_self]
      simp only [hc, false_or]
      congr 1
      split
      · rfl
      rename_i hm
      split
      · rfl
      have hr : ¬ (queryStart batch item.2 ≤ t ∧
          t < queryStart batch item.2 + (item.1.numComputedTokens + item.1.numScheduledTokens)) :=
        fun hr => hc ⟨Bool.eq_false_iff.mpr hm, hr⟩
      simp only [clearSlots, getElem?_mapIdx, if_neg hr, Option.map_id']

theorem getElem?_of_keeps (h : cfg.keeps ly = true ∨ ∀ j, isMatched matchResults j = true ∨ t < queryStart batch j) :
    (applySandwichSlots cfg matchResults batch ly sl)[t]? = sl[t]? := by
  have hn : ¬ (cfg.keeps ly = false ∧ ∃ item ∈ batch.zipIdx, Clears matchResults batch t item) := by
    rintro ⟨hk, item, -, hm, hle, -⟩
    rcases h with h | h
    · simp [h] at hk
    rcases h item.2 with h | h
    · simp [h] at hm
    · omega
  simp only [getElem?_applySandwichSlots, if_neg hn, Option.map_id']

/-! ## Matched requests -/

variable {newIndex : Nat → Option Nat} {pad : Nat}

end

end VllmAscend.SimLlm
