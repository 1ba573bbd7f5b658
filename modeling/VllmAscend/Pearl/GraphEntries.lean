import VllmAscend.Lib.Python

/-!
# The graph entries of the runner

`NativeACLGraphRunner` keeps the graphs it has captured in two tables, one for the
target's calls and one for the draft's, under one limit. A call with a known shape
is padded to it and replayed; any other captures a graph or is executed as it is.
-/

namespace VllmAscend.Graphs

open List Python

structure Config where
  enabled : Bool
  maxGraphTokens : Nat
  maxGraphEntries : Nat
  expectedFiaBatchSize : Option Nat
  blocksPerSequence : Nat

/-- A token with its position, slot, context length and block table. -/
abbrev Row := Int × Int × Int × Int × List Int

inductive OutputKind
  | hidden
  | greedy (vocabularySize : Nat)
deriving DecidableEq

/-- The text of an entry key; `lengths` are the query lengths of fused attention. -/
inductive Kind
  | target (output : OutputKind) (lengths : Option (List Int))
  | draft (vocabularySize steps : Nat) (lengths : Option (List Int))
deriving DecidableEq

/-- The tensors of a captured graph have `tokens` rows in each of `steps` steps. -/
structure Entry where
  tokens : Nat
  steps : Nat
  runtimeValidated : Bool := false

abbrev Table := List ((Kind × Nat) × Entry)

structure Replay where
  entry : Entry
  given : List Row
  rows : List Row
  steps : Nat

structure Runner where
  entries : Table := []
  draftEntries : Table := []
  captureAttemptCount : Nat := 0
  disabledEntryKeys : List (Kind × Nat) := []

/-- An exception before or after the graph is there, another output than the eager one, or the same. -/
inductive Outcome
  | raised (late : Bool)
  | mismatch
  | good

/-- `run` and `run_greedy`, or `run_draft_greedy` with the lengths of each step. -/
inductive Call
  | target (output : OutputKind) (inputs : List Row) (lengths : Option (List Int))
  | draft (vocabularySize : Nat) (inputs : List Row) (numPositions : Nat) (lengths : List (Option (List Int)))

variable {entry : Entry} {q : Replay} {inputs : List Row}

def isReusableFiaShape (cfg : Config) (actualSeqLengthsQ : List Int) : Bool :=
  !actualSeqLengthsQ.isEmpty && cfg.expectedFiaBatchSize.all (· == actualSeqLengthsQ.length) &&
    (0 :: actualSeqLengthsQ).IsChain (· < ·)

def padRow (cfg : Config) : Row := (0, 0, -1, 0, replicate cfg.blocksPerSequence 0)

def padInputs (cfg : Config) (inputs : List Row) (captureSize : Nat) : List Row :=
  inputs ++ replicate (captureSize - inputs.length) (padRow cfg)

def fitting (r : Runner) (kind : Kind) (numTokens : Nat) : List Nat :=
  (r.entries.filter fun p => p.1.1 = kind ∧ numTokens ≤ p.1.2).map (·.1.2)

def capture (key : Kind × Nat) (q : Replay) (table : Table) (disabled : List (Kind × Nat)) :
    Outcome → Table × List (Kind × Nat) × List Replay
  | .raised late => if late then (dictSet key q.entry table, disabled, [q]) else (table, disabled, [])
  | .mismatch => (dictPop key (dictSet key q.entry table), key :: disabled, [q])
  | .good => (dictSet key q.entry table, disabled, [q])

def replay (key : Kind × Nat) (q : Replay) (r : Runner) : Outcome → Runner × List Replay
  | .raised late => (r, if late then [q] else [])
  | .mismatch =>
    if q.entry.runtimeValidated then (r, [q])
    else ({ r with entries := dictPop key r.entries, disabledEntryKeys := key :: r.disabledEntryKeys }, [q])
  | .good => ({ r with entries := dictSet key { q.entry with runtimeValidated := true } r.entries }, [q])

def run (cfg : Config) (r : Runner) (output : OutputKind) (inputs : List Row) (lengths : Option (List Int))
    (o : Outcome) : Runner × List Replay :=
  if ¬ cfg.enabled ∨ cfg.maxGraphTokens < inputs.length ∨ lengths.any (!isReusableFiaShape cfg ·) then (r, [])
  else
    let kind := .target output lengths
    let captureSize := if lengths.isSome then inputs.length
      else (fitting r kind inputs.length).min?.getD inputs.length
    let rows := padInputs cfg inputs captureSize
    let key := (kind, captureSize)
    if key ∈ r.disabledEntryKeys then (r, [])
    else match dictGet key r.entries with
      | none =>
        if cfg.maxGraphEntries ≤ r.entries.length ∨ cfg.maxGraphEntries ≤ r.captureAttemptCount then (r, [])
        else
          let (entries, disabledEntryKeys, replays) :=
            capture key ⟨⟨rows.length, 1, false⟩, inputs, rows, 1⟩ r.entries r.disabledEntryKeys o
          ({ r with entries, disabledEntryKeys, captureAttemptCount := r.captureAttemptCount + 1 }, replays)
      | some entry => replay key ⟨entry, inputs, rows, 1⟩ r o

def runDraftGreedy (cfg : Config) (r : Runner) (vocabularySize : Nat) (inputs : List Row) (numPositions : Nat)
    (lengths : List (Option (List Int))) (o : Outcome) : Runner × List Replay :=
  -- missing or unlike steps are errors
  if numPositions = 0 ∨ numPositions ≠ lengths.length ∨ ¬ cfg.enabled ∨
      lengths.any Option.isSome ≠ lengths.all Option.isSome ∨ cfg.expectedFiaBatchSize.any (· != inputs.length) then
    (r, [])
  else
    let key := (.draft vocabularySize numPositions (lengths.headD none), inputs.length)
    if key ∈ r.disabledEntryKeys then (r, [])
    else match dictGet key r.draftEntries with
      | none =>
        if cfg.maxGraphEntries ≤ r.entries.length + r.draftEntries.length then (r, [])
        else
          let (draftEntries, disabledEntryKeys, replays) := capture key
            ⟨⟨inputs.length, numPositions, false⟩, inputs, inputs, numPositions⟩ r.draftEntries r.disabledEntryKeys o
          ({ r with draftEntries, disabledEntryKeys, captureAttemptCount := r.captureAttemptCount + 1 }, replays)
      | some entry => (r, if o matches .raised false then [] else [⟨entry, inputs, inputs, numPositions⟩])

def step (cfg : Config) (s : Runner × List Replay) (c : Call × Outcome) : Runner × List Replay :=
  let (r, replays) := match c.1 with
    | .target output inputs lengths => run cfg s.1 output inputs lengths c.2
    | .draft vocabularySize inputs numPositions lengths =>
      runDraftGreedy cfg s.1 vocabularySize inputs numPositions lengths c.2
  (r, s.2 ++ replays)

/-! ## The limit and the shapes -/

structure Replay.Fits (cfg : Config) (q : Replay) : Prop where
  tokens : q.rows.length = q.entry.tokens
  steps : q.steps = q.entry.steps
  padded : ∃ pad, q.rows = q.given ++ replicate pad (padRow cfg)

def Kind.steps : Kind → Nat
  | .target _ _ => 1
  | .draft _ steps _ => steps

def Keyed (table : Table) : Prop := ∀ p ∈ table, p.2.tokens = p.1.2 ∧ p.2.steps = p.1.1.steps

structure Inv (cfg : Config) (r : Runner) : Prop where
  room : r.entries.length + r.draftEntries.length ≤ cfg.maxGraphEntries
  attempts : r.entries.length + r.draftEntries.length ≤ r.captureAttemptCount
  entries : Keyed r.entries
  drafts : Keyed r.draftEntries

theorem length_dictSet (key : Kind × Nat) (entry : Entry) (tb : Table) : (dictSet key entry tb).length =
    if key ∈ tb.map Prod.fst then tb.length else tb.length + 1 := by
  rw [← length_map Prod.fst, map_fst_dictSet]
  split <;> simp

theorem Keyed.dictSet (h : Keyed tb) (he : entry.tokens = key.2 ∧ entry.steps = key.1.steps) :
    Keyed (dictSet key entry tb) := fun p hp => by
  rcases mem_dictSet hp with rfl | hp
  · exact he
  · exact h p hp

theorem Keyed.dictPop (h : Keyed tb) : Keyed (dictPop key tb) := fun p hp => h p (mem_dictPop.mp hp).1

theorem capture_ok (hc : capture key q tb disabled o = c) (h : Keyed tb) (hq : q.Fits cfg)
    (he : q.entry.tokens = key.2 ∧ q.entry.steps = key.1.steps) :
    c.1.length ≤ tb.length + 1 ∧ Keyed c.1 ∧ ∀ x ∈ c.2.2, x.Fits cfg := by
  subst hc
  have hl : (Python.dictSet key q.entry tb).length ≤ tb.length + 1 := by
    rw [length_dictSet]
    split <;> omega
  have hqs : ∀ x ∈ [q], x.Fits cfg := fun x hx => mem_singleton.mp hx ▸ hq
  cases o with
  | raised late =>
    cases late with
    | false => exact ⟨Nat.le_succ _, h, forall_mem_nil _⟩
    | true => exact ⟨hl, h.dictSet he, hqs⟩
  | mismatch => exact ⟨(length_filter_le _ _).trans hl, (h.dictSet he).dictPop, hqs⟩
  | good => exact ⟨hl, h.dictSet he, hqs⟩

theorem le_captureSize {lengths : Option (List Int)} : inputs.length ≤
    if lengths.isSome then inputs.length else (fitting r kind inputs.length).min?.getD inputs.length := by
  split
  · exact Nat.le_refl _
  cases hm : (fitting r kind inputs.length).min? with
  | none => exact Nat.le_refl _
  | some m =>
    obtain ⟨p, hp, rfl⟩ := mem_map.mp (min?_mem hm)
    exact (of_decide_eq_true (mem_filter.mp hp).2).2

theorem Inv.idle (h : Inv cfg r) : Inv cfg r ∧ ∀ x ∈ [], Replay.Fits cfg x := ⟨h, forall_mem_nil _⟩

theorem Inv.replay (h : Inv cfg r) (hq : q.Fits cfg) (hg : dictGet key r.entries = some q.entry) :
    Inv cfg (replay key q r o).1 ∧ ∀ x ∈ (replay key q r o).2, x.Fits cfg := by
  have hqs : ∀ x ∈ [q], x.Fits cfg := fun x hx => mem_singleton.mp hx ▸ hq
  have hmem := mem_of_dictGet hg
  cases o with
  | raised late =>
    cases late with
    | false => exact h.idle
    | true => exact ⟨h, hqs⟩
  | mismatch =>
    simp only [Graphs.replay]
    split
    · exact ⟨h, hqs⟩
    have hl : (dictPop key r.entries).length ≤ r.entries.length := length_filter_le _ _
    exact ⟨⟨(Nat.add_le_add_right hl _).trans h.room, (Nat.add_le_add_right hl _).trans h.attempts, h.entries.dictPop,
      h.drafts⟩, hqs⟩
  | good =>
    have hl : (dictSet key { q.entry with runtimeValidated := true } r.entries).length = r.entries.length := by
      rw [length_dictSet, if_pos (mem_map_of_mem hmem)]
    exact ⟨⟨hl ▸ h.room, hl ▸ h.attempts, h.entries.dictSet (h.entries _ hmem), h.drafts⟩, hqs⟩

theorem Inv.run (h : Inv cfg r) :
    Inv cfg (run cfg r output inputs lengths o).1 ∧ ∀ x ∈ (run cfg r output inputs lengths o).2, x.Fits cfg := by
  unfold Graphs.run
  split
  · exact h.idle
  simp only
  have hle := @le_captureSize inputs r (.target output lengths) lengths
  generalize (if lengths.isSome then inputs.length else _) = size at *
  have hlen : (padInputs cfg inputs size).length = size := by simp [padInputs, hle]
  split
  · exact h.idle
  split
  · split
    · exact h.idle
    rcases hc : capture _ _ _ _ o with ⟨tb, keys, replays⟩
    obtain ⟨hl, hk, hq⟩ := capture_ok hc h.entries ⟨rfl, rfl, _, rfl⟩ ⟨hlen, rfl⟩
    have := h.attempts
    exact ⟨⟨by simp only at hl ⊢; omega, by simp only at hl ⊢; omega, hk, h.drafts⟩, hq⟩
  · next entry hg =>
    obtain ⟨ht, hs⟩ := h.entries _ (mem_of_dictGet hg)
    exact h.replay ⟨hlen.trans ht.symm, hs.symm, _, rfl⟩ hg

theorem Inv.runDraftGreedy (h : Inv cfg r) :
    Inv cfg (runDraftGreedy cfg r vocabularySize inputs numPositions lengths o).1 ∧
      ∀ x ∈ (runDraftGreedy cfg r vocabularySize inputs numPositions lengths o).2, x.Fits cfg := by
  have hpad : ∃ pad, inputs = inputs ++ replicate pad (padRow cfg) := ⟨0, by simp⟩
  unfold Graphs.runDraftGreedy
  split
  · exact h.idle
  simp only
  split
  · exact h.idle
  split
  · split
    · exact h.idle
    rcases hc : capture _ _ _ _ o with ⟨tb, keys, replays⟩
    obtain ⟨hl, hk, hq⟩ := capture_ok hc h.drafts ⟨rfl, rfl, hpad⟩ ⟨rfl, rfl⟩
    have := h.attempts
    exact ⟨⟨by simp only at hl ⊢; omega, by simp only at hl ⊢; omega, h.entries, hk⟩, hq⟩
  · next entry hg =>
    obtain ⟨ht, hs⟩ := h.drafts _ (mem_of_dictGet hg)
    refine ⟨h, fun x hx => ?_⟩
    split at hx
    · cases hx
    · rw [mem_singleton.mp hx]
      exact ⟨ht.symm, hs.symm, hpad⟩

theorem graph_entries_bounded (cfg : Config) (calls : List (Call × Outcome)) :
    let (r, replays) := calls.foldl (step cfg) ({}, [])
    r.entries.length + r.draftEntries.length ≤ cfg.maxGraphEntries ∧ ∀ q ∈ replays, q.Fits cfg := by
  have h0 : Inv cfg {} := ⟨Nat.zero_le _, Nat.le_refl _, forall_mem_nil _, forall_mem_nil _⟩
  have hrun := foldlRecOn (motive := fun s : Runner × List Replay => Inv cfg s.1 ∧ ∀ q ∈ s.2, q.Fits cfg) calls
    (step cfg) (b := ({}, [])) h0.idle fun s ⟨h, hq⟩ c _ => by
      obtain ⟨_ | _, o⟩ := c
      · exact ⟨h.run.1, fun q hm => (mem_append.mp hm).elim (hq q) (h.run.2 q)⟩
      · exact ⟨h.runDraftGreedy.1, fun q hm => (mem_append.mp hm).elim (hq q) (h.runDraftGreedy.2 q)⟩
  exact ⟨hrun.1.room, hrun.2⟩

end VllmAscend.Graphs
