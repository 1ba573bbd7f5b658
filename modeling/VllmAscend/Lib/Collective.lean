import Mathlib.Logic.Basic

/-!
# Broadcasts among ranks

A rank's program ends, or joins a broadcast of a process group and goes on with
what the source has sent. A broadcast happens only when all members of the group
have come to it.
-/

namespace Collective

inductive Program (ι γ μ ρ : Type*) where
  | done (result : ρ)
  | broadcast (group : γ) (src : ι) (value : μ) (rest : μ → Program ι γ μ ρ)

inductive Ends {ι γ μ ρ : Type*} (member : γ → ι → Prop) : (ι → Program ι γ μ ρ) → (ι → ρ) → Prop where
  | done {ranks : ι → Program ι γ μ ρ} {results : ι → ρ} (h : ∀ i, ranks i = .done (results i)) :
    Ends member ranks results
  | broadcast {ranks ranks' : ι → Program ι γ μ ρ} {results : ι → ρ} (group : γ) (src : ι) (value : ι → μ)
    (rest : ι → μ → Program ι γ μ ρ) (hsrc : member group src)
    (hjoin : ∀ i, member group i → ranks i = .broadcast group src (value i) (rest i) ∧ ranks' i = rest i (value src))
    (hother : ∀ i, ¬ member group i → ranks' i = ranks i) :
    Ends member ranks' results → Ends member ranks results

variable {ι γ μ ρ : Type*} {member : γ → ι → Prop} {ranks : ι → Program ι γ μ ρ} {results : ι → ρ}

theorem Ends.false_of_left (h : Ends member ranks results) {group : γ} {i j : ι} {src : ι} {value : μ}
    {rest : μ → Program ι γ μ ρ} {result : ρ} (hi : ranks i = .broadcast group src value rest)
    (hmj : member group j) (hj : ranks j = .done result) : False := by
  induction h with
  | done h =>
    rw [h i] at hi
    cases hi
  | broadcast group' src' value' rest' _ hjo hot _ ih =>
    have hnj : ¬ member group' j := fun hm => by
      have := (hjo j hm).1
      rw [hj] at this
      cases this
    have hni : ¬ member group' i := fun hm => by
      have := (hjo i hm).1
      rw [hi] at this
      cases this
      exact hnj hmj
    exact ih ((hot i hni).trans hi) ((hot j hnj).trans hj)

theorem ends_broadcast {group : γ} {src : ι} {value : ι → μ} {rest : ι → μ → ρ} (hm : ∀ i, member group i)
    (h : ∀ i, ranks i = .broadcast group src (value i) fun x => .done (rest i x)) :
    Ends member ranks fun i => rest i (value src) :=
  @Ends.broadcast _ _ _ _ _ _ (fun i => .done (rest i (value src))) _ group src value (fun i x => .done (rest i x)) (hm src)
    (fun i _ => ⟨h i, rfl⟩) (fun i hno => absurd (hm i) hno) (.done fun _ => rfl)

end Collective
