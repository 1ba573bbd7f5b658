import Mathlib.Order.Basic

/-!
# Loops that end themselves

A loop body either stops with a result or goes on with a new state and something
to show for it. `loop` runs it on fuel; `Reach` are the states its runs pass
through, with what they showed.
-/

namespace Run

open List

variable {σ ρ ω ε : Type*}

inductive Turn (σ ρ ω : Type*) where
  | stop (result : ρ)
  | next (state : σ) (event : ω)

def Turn.Is (P : σ → ω → Prop) (Q : ρ → Prop) : Turn σ ρ ω → Prop
  | .stop r => Q r
  | .next s e => P s e

/-- At most `fuel` turns; `none` if the loop has not stopped by then. -/
def loop (body : σ → Except ε (Turn σ ρ ω)) : Nat → σ → Except ε (Option ρ)
  | 0, _ => .ok none
  | fuel + 1, s =>
    match body s with
    | .error e => .error e
    | .ok (.stop r) => .ok (some r)
    | .ok (.next s' _) => loop body fuel s'

inductive Reach (body : σ → Except ε (Turn σ ρ ω)) (s₀ : σ) : List ω → σ → Prop where
  | start : Reach body s₀ [] s₀
  | step {events : List ω} {s s' : σ} {e : ω} :
    Reach body s₀ events s → body s = .ok (.next s' e) → Reach body s₀ (events ++ [e]) s'

variable {body : σ → Except ε (Turn σ ρ ω)}

theorem Reach.inv {P : σ → Prop} {s₀ s : σ} {events : List ω} (h : Reach body s₀ events s) (h0 : P s₀)
    (hs : ∀ s s' e, P s → body s = .ok (.next s' e) → P s') : P s := by
  induction h with
  | start => exact h0
  | step _ hb ih => exact hs _ _ _ ih hb

theorem Reach.forall_events {P : σ → Prop} {Q : ω → Prop} {s₀ s : σ} {events : List ω} (h : Reach body s₀ events s)
    (h0 : P s₀) (hs : ∀ s s' e, P s → body s = .ok (.next s' e) → P s' ∧ Q e) : P s ∧ ∀ e ∈ events, Q e := by
  induction h with
  | start => exact ⟨h0, fun e he => by cases he⟩
  | step _ hb ih =>
    obtain ⟨hp, hq⟩ := hs _ _ _ ih.1 hb
    refine ⟨hp, fun e he => ?_⟩
    rcases mem_append.mp he with he | he
    · exact ih.2 e he
    · rw [mem_singleton.mp he]
      exact hq

def nextOf (body : σ → Except ε (Turn σ ρ ω)) (s : σ) : Option (σ × ω) :=
  match body s with
  | .ok (.next s' e) => some (s', e)
  | _ => none

theorem exists_of_nextOf {s : σ} {P : σ × ω → Bool} (hn : (nextOf body s).any P = true) :
    ∃ s' e, body s = .ok (.next s' e) ∧ P (s', e) = true := by
  unfold nextOf at hn
  split at hn
  · rename_i s' e hb
    exact ⟨s', e, hb, hn⟩
  · cases hn

theorem Reach.exists_nextOf {s₀ s : σ} {events : List ω} (h : Reach body s₀ events s) {P : σ × ω → Bool}
    (hn : (nextOf body s).any P = true) : ∃ s' e, Reach body s₀ (events ++ [e]) s' ∧ P (s', e) = true := by
  obtain ⟨s', e, hb, hp⟩ := exists_of_nextOf hn
  exact ⟨s', e, h.step hb, hp⟩

def trace (body : σ → Except ε (Turn σ ρ ω)) : Nat → σ → List ω
  | 0, _ => []
  | fuel + 1, s =>
    match body s with
    | .ok (.next s' e) => e :: trace body fuel s'
    | _ => []

theorem Reach.of_loop {s₀ : σ} {r : ρ} : ∀ {fuel : Nat} {events : List ω} {s : σ}, Reach body s₀ events s →
    loop body fuel s = .ok (some r) → ∃ s', Reach body s₀ (events ++ trace body fuel s) s' ∧ body s' = .ok (.stop r)
  | 0, _, _, _, hl => by cases hl
  | fuel + 1, events, s, h, hl => by
    rw [loop] at hl
    rw [trace]
    cases hb : body s with
    | error e => rw [hb] at hl; cases hl
    | ok turn =>
      rw [hb] at hl
      cases turn with
      | stop r' =>
        cases hl
        exact ⟨s, by simpa using h, hb⟩
      | next s' e =>
        obtain ⟨s'', hr, hs⟩ := Reach.of_loop (h.step hb) hl
        exact ⟨s'', by simpa using hr, hs⟩

theorem loop_ne_none {P : σ → Prop} (μ : σ → Nat)
    (hstep : ∀ s s' e, P s → body s = .ok (.next s' e) → P s' ∧ μ s' < μ s) :
    ∀ {fuel : Nat} {s : σ}, P s → μ s < fuel → loop body fuel s ≠ .ok none
  | 0, _, _, hlt => absurd hlt (Nat.not_lt_zero _)
  | fuel + 1, s, hs, hlt => by
    rw [loop]
    cases hb : body s with
    | error e => simp
    | ok turn =>
      cases turn with
      | stop r => simp
      | next s' e =>
        obtain ⟨hs', hμ⟩ := hstep s s' e hs hb
        exact loop_ne_none μ hstep hs' (by omega)

theorem loop_total (body : σ → Except ε (Turn σ ρ ω)) {P : σ → Prop} {Q : ρ → Prop} (μ : σ → Nat)
    (h : ∀ s, P s → (∃ r, body s = .ok (.stop r) ∧ Q r) ∨ ∃ s' e, body s = .ok (.next s' e) ∧ P s' ∧ μ s' < μ s) :
    ∀ (fuel : Nat) (s : σ), P s → μ s < fuel → ∃ r, loop body fuel s = .ok (some r) ∧ Q r
  | 0, _, _, hlt => absurd hlt (Nat.not_lt_zero _)
  | fuel + 1, s, hs, hlt => by
    rcases h s hs with ⟨r, hb, hr⟩ | ⟨s', e, hb, hs', hμ⟩
    · exact ⟨r, by rw [loop, hb], hr⟩
    · obtain ⟨r, hl, hr⟩ := loop_total body μ h fuel s' hs' (by omega)
      exact ⟨r, by rw [loop, hb]; exact hl, hr⟩

/-! ## Sequences of calls -/

def Guarded {α : Type*} (step : σ → α → σ) (allowed : σ → α → Prop) : σ → List α → Prop
  | _, [] => True
  | s, a :: calls => allowed s a ∧ Guarded step allowed (step s a) calls

section
variable {α : Type*} {step : σ → α → σ} {allowed : σ → α → Prop}

theorem guarded_append : ∀ {s : σ} {l m : List α},
    Guarded step allowed s (l ++ m) ↔ Guarded step allowed s l ∧ Guarded step allowed (l.foldl step s) m
  | _, [], _ => by simp [Guarded]
  | s, a :: l, m => by simp [Guarded, guarded_append, and_assoc]

theorem guarded_of_forall (h : ∀ s a, allowed s a) : ∀ {s : σ} {calls : List α}, Guarded step allowed s calls
  | _, [] => trivial
  | s, a :: _ => ⟨h s a, guarded_of_forall h⟩

theorem Guarded.imp {allowed' : σ → α → Prop} (h : ∀ s a, allowed s a → allowed' s a) :
    ∀ {s : σ} {calls : List α}, Guarded step allowed s calls → Guarded step allowed' s calls
  | _, [], _ => trivial
  | s, a :: _, ⟨ha, hr⟩ => ⟨h s a ha, hr.imp h⟩

theorem Guarded.inv {P : σ → Prop} (hstep : ∀ s a, P s → allowed s a → P (step s a)) :
    ∀ {s : σ} {calls : List α}, P s → Guarded step allowed s calls → P (calls.foldl step s)
  | _, [], hs, _ => hs
  | s, a :: _, hs, ⟨ha, hr⟩ => Guarded.inv (s := step s a) hstep (hstep s a hs ha) hr

end

def GuardedM {α : Type*} (step : σ → α → Except ε σ) (allowed : σ → α → Prop) : σ → List α → Prop
  | _, [] => True
  | s, a :: calls => allowed s a ∧ ∀ s', step s a = .ok s' → GuardedM step allowed s' calls

section
variable {σ ε α : Type} {step : σ → α → Except ε σ} {allowed : σ → α → Prop} {P : σ → Prop}

section
variable (hstep : ∀ s a, P s → allowed s a → ∃ s', step s a = .ok s' ∧ P s')
include hstep

theorem GuardedM.total_append :
    ∀ {calls rest : List α} {s : σ}, P s → GuardedM step allowed s (calls ++ rest) →
      ∃ s', calls.foldlM step s = .ok s' ∧ P s' ∧ GuardedM step allowed s' rest
  | [], _, s, hs, hr => ⟨s, rfl, hs, hr⟩
  | a :: calls, _, s, hs, ⟨ha, hr⟩ => by
    obtain ⟨s1, hca, hs1⟩ := hstep s a hs ha
    obtain ⟨s', hc, hs', hg⟩ := GuardedM.total_append hs1 (hr s1 hca)
    exact ⟨s', by rw [foldlM_cons, hca]; exact hc, hs', hg⟩

theorem GuardedM.total {calls : List α} {s : σ} (hs : P s) (h : GuardedM step allowed s calls) :
    ∃ s', calls.foldlM step s = .ok s' ∧ P s' := by
  rw [← append_nil calls] at h
  obtain ⟨s', hc, hs', -⟩ := total_append hstep hs h
  exact ⟨s', hc, hs'⟩

end

theorem GuardedM.and {allowed' : σ → α → Prop} : ∀ {calls : List α} {s : σ}, GuardedM step allowed s calls →
    GuardedM step allowed' s calls → GuardedM step (fun s a => allowed s a ∧ allowed' s a) s calls
  | [], _, _, _ => trivial
  | _ :: _, _, ⟨ha, hr⟩, ⟨ha', hr'⟩ => ⟨⟨ha, ha'⟩, fun s' hs' => (hr s' hs').and (hr' s' hs')⟩

theorem GuardedM.imp {allowed' : σ → α → Prop} (h : ∀ s a, allowed s a → allowed' s a) :
    ∀ {calls : List α} {s : σ}, GuardedM step allowed s calls → GuardedM step allowed' s calls
  | [], _, _ => trivial
  | a :: _, s, ⟨ha, hr⟩ => ⟨h s a ha, fun s' hs' => (hr s' hs').imp h⟩

theorem GuardedM.inv (hstep : ∀ s a s', P s → allowed s a → step s a = .ok s' → P s') :
    ∀ {calls : List α} {s s' : σ}, P s → GuardedM step allowed s calls → calls.foldlM step s = .ok s' → P s'
  | [], s, s', hs, _, h => by cases h; exact hs
  | a :: calls, s, s', hs, ⟨ha, hr⟩, h => by
    rw [foldlM_cons] at h
    cases hc : step s a with
    | error e => rw [hc] at h; cases h
    | ok s1 =>
      rw [hc] at h
      exact GuardedM.inv hstep (hstep s a s1 hs ha hc) (hr s1 hc) h

theorem GuardedM.append : ∀ {calls rest : List α} {s s' : σ}, GuardedM step allowed s (calls ++ rest) →
    calls.foldlM step s = .ok s' → GuardedM step allowed s calls ∧ GuardedM step allowed s' rest
  | [], _, _, _, hrun, h => by cases h; exact ⟨trivial, hrun⟩
  | a :: calls, _, s, s', ⟨ha, hr⟩, h => by
    rw [foldlM_cons] at h
    cases hc : step s a with
    | error e => rw [hc] at h; cases h
    | ok s1 =>
      rw [hc] at h
      have haf := GuardedM.append (hr s1 hc) h
      refine ⟨⟨ha, fun s2 hs2 => ?_⟩, haf.2⟩
      cases hc.symm.trans hs2
      exact haf.1

end

end Run
