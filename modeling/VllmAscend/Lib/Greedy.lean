import Mathlib.Data.List.Basic

/-!
# Greedy continuation of a sequence

A next-token function `T` continues a sequence one token at a time. A guessed
window is right through its first `a` tokens when each of them is what `T` says
after the tokens before it; then those tokens are the continuation.
-/

namespace Greedy

open List

variable {α : Type*} (T : List α → α)

def greedy : List α → Nat → List α
  | _, 0 => []
  | p, n + 1 => T p :: greedy (p ++ [T p]) n

@[simp] theorem length_greedy : ∀ (p : List α) (n : Nat), (greedy T p n).length = n
  | _, 0 => rfl
  | p, n + 1 => by rw [greedy, length_cons, length_greedy]

theorem greedy_add : ∀ (p : List α) (m n : Nat), greedy T p (m + n) = greedy T p m ++ greedy T (p ++ greedy T p m) n
  | p, 0, n => by simp [greedy]
  | p, m + 1, n => by
    rw [Nat.add_right_comm, greedy, greedy, greedy_add, cons_append, append_assoc, singleton_append]

theorem greedy_succ (p : List α) (n : Nat) : greedy T p (n + 1) = greedy T p n ++ [T (p ++ greedy T p n)] := by
  rw [greedy_add]; rfl

theorem take_greedy (p : List α) {m n : Nat} (h : m ≤ n) : (greedy T p n).take m = greedy T p m := by
  obtain ⟨k, rfl⟩ := Nat.exists_eq_add_of_le h
  rw [greedy_add, take_left' (length_greedy T p m)]

def Agrees (p w : List α) (a : Nat) : Prop := ∀ j < a, w[j]? = some (T (p ++ w.take j))

variable {T}

theorem Agrees.take {p w : List α} : ∀ {a : Nat}, Agrees T p w a → w.take a = greedy T p a
  | 0, _ => by simp [greedy]
  | a + 1, h => by
    have ih := Agrees.take (a := a) fun j hj => h j (by omega)
    have ha := h a (by omega)
    rw [take_add_one, ha, ih, greedy_succ]
    rfl

def Continues (T : List α → α) (p l : List α) : Prop := p.length ≤ l.length ∧ l = p ++ greedy T p (l.length - p.length)

theorem continues_iff {p l : List α} : Continues T p l ↔ ∃ n, l = p ++ greedy T p n := by
  constructor
  · exact fun h => ⟨_, h.2⟩
  · rintro ⟨n, rfl⟩
    simp [Continues]

theorem Continues.append {p l w : List α} {a : Nat} (h : Continues T p l) (hw : Agrees T l w a) :
    Continues T p (l ++ w.take a) := by
  obtain ⟨n, rfl⟩ := continues_iff.mp h
  exact continues_iff.mpr ⟨n + a, by rw [hw.take, greedy_add, append_assoc]⟩

theorem Continues.snoc {p l : List α} (h : Continues T p l) : Continues T p (l ++ [T l]) := by
  obtain ⟨n, rfl⟩ := continues_iff.mp h
  exact continues_iff.mpr ⟨n + 1, by rw [greedy_succ, append_assoc]⟩

theorem Continues.drop {p l : List α} (h : Continues T p l) : l.drop p.length = greedy T p (l.length - p.length) := by
  obtain ⟨n, rfl⟩ := continues_iff.mp h
  simp

end Greedy
