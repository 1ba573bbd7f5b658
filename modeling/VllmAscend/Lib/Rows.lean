import Mathlib.Data.List.Nodup

/-!
# Loops over distinct rows

A loop that visits each row of a batch once is determined by what its state is
after any set of rows: `out done` below. Its rule asks only that visiting one
more row leads from `out done` to `out (done ++ [a])`.
-/

namespace Rows

open List Function

variable {ι β σ ε : Type*}

theorem foldlM_closed (step : σ → ι → Except ε σ) (out : List ι → σ) : ∀ (l done : List ι), (done ++ l).Nodup →
      (∀ done a, a ∉ done → a ∈ l → step (out done) a = .ok (out (done ++ [a]))) →
      l.foldlM step (out done) = .ok (out (done ++ l))
  | [], done, _, _ => by rw [append_nil]; rfl
  | a :: l, done, hn, h => by
    have ha : a ∉ done := fun hm => (nodup_append.mp hn).2.2 a hm a (by simp) rfl
    rw [foldlM_cons, h done a ha (by simp)]
    rw [append_cons] at hn
    rw [append_cons done a l]
    exact foldlM_closed step out l (done ++ [a]) hn fun done b hb hbl => h done b hb (mem_cons_of_mem _ hbl)

theorem foldl_closed (step : σ → ι → σ) (out : List ι → σ) (l done : List ι) (hn : (done ++ l).Nodup)
    (h : ∀ done a, a ∉ done → a ∈ l → step (out done) a = out (done ++ [a])) : l.foldl step (out done) = out (done ++ l) :=
  Except.ok.inj (foldlM_pure.symm.trans (foldlM_closed (fun s a => (pure (step s a) : Except Unit σ)) out l done hn
    fun done a ha hl => congrArg Except.ok (h done a ha hl)))

theorem eraseDups_of_nodup [BEq ι] [LawfulBEq ι] : ∀ {l : List ι}, l.Nodup → l.eraseDups = l
  | [], _ => rfl
  | a :: l, h => by
    obtain ⟨ha, hl⟩ := nodup_cons.mp h
    rw [eraseDups_cons, filter_eq_self.mpr, eraseDups_of_nodup hl]
    intro b hb
    simpa using ne_of_mem_of_not_mem hb ha

theorem nodup_eraseDups [BEq ι] [LawfulBEq ι] : ∀ l : List ι, l.eraseDups.Nodup
  | [] => nodup_nil
  | a :: l => by
    rw [eraseDups_cons, nodup_cons]
    exact ⟨by simp [mem_eraseDups], nodup_eraseDups _⟩
termination_by l => l.length
decreasing_by exact Nat.lt_succ_of_le (List.length_filter_le ..)

theorem map_range_eq_zipWith {α β γ : Type*} {l : List α} {m : List β} {f : Nat → γ} {g : α → β → γ}
    (hlen : m.length = l.length) (h : ∀ i a b, l[i]? = some a → m[i]? = some b → f i = g a b) :
    (List.range l.length).map f = List.zipWith g l m := by
  refine ext_getElem (by simp [hlen]) fun i h1 h2 => ?_
  have hl : i < l.length := by simpa using h1
  have hm : i < m.length := by omega
  rw [getElem_map, getElem_range, getElem_zipWith]
  exact h i _ _ (getElem?_eq_getElem hl) (getElem?_eq_getElem hm)

section
variable [DecidableEq ι]

def patch (l : List ι) (g f : ι → β) : ι → β := fun i => if i ∈ l then g i else f i

@[simp] theorem patch_nil (g f : ι → β) : patch [] g f = f := by
  funext i; simp [patch]

theorem patch_of_mem {l : List ι} {i : ι} (h : i ∈ l) (g f : ι → β) : patch l g f i = g i := if_pos h

theorem patch_of_notMem {l : List ι} {i : ι} (h : i ∉ l) (g f : ι → β) : patch l g f i = f i := if_neg h

theorem update_patch (l : List ι) (a : ι) (g f : ι → β) :
    update (patch l g f) a (g a) = patch (l ++ [a]) g f := by
  funext i
  by_cases h : i = a
  · subst h; rw [update_self, patch_of_mem (by simp)]
  · rw [update_of_ne h]
    simp [patch, h]

theorem exists_map_eq [Inhabited β] : ∀ {l : List ι} {vs : List β}, l.Nodup → vs.length = l.length →
    ∃ v : ι → β, vs = l.map v
  | [], [], _, _ => ⟨fun _ => default, rfl⟩
  | a :: l, x :: vs, hn, hl => by
    obtain ⟨hnot, hn⟩ := nodup_cons.mp hn
    obtain ⟨v, rfl⟩ := exists_map_eq hn (by simpa using hl)
    refine ⟨update v a x, ?_⟩
    rw [map_cons, update_self]
    congr 1
    exact map_congr_left fun i hi => (update_of_ne (ne_of_mem_of_not_mem hi hnot) _ _).symm

end

end Rows
