import Mathlib.Data.List.Nodup
import VllmAscend.Lib.Run
import VllmAscend.SimLlm.Masking

/-!
# Positions that count as computed

Steps of the runner one after another, with the slots of each request's blocks
that have been written, layer by layer. A matched request starts at the number
of tokens its match covers, less one.
-/

namespace VllmAscend.SimLlm

open Python List

section
variable {κ : Type}

/-- A step: what the scheduler put out, the matches, and the key and value rows that the forward computes in each
layer. -/
structure Step (κ : Type) where
  output : SchedulerOutput
  matchResults : List (Nat × MatchResult κ)
  rows : Nat → List κ × List κ

/-- `written` has request, layer and position, `counted` what the scheduler counts as computed after the last step. -/
structure World where
  written : List (Nat × Nat × Nat)
  counted : Nat → Option Nat
  rewritten : List Nat

def World.start : World := ⟨[], fun _ => none, []⟩

def Step.seen (s : Step κ) : SchedulerOutput := rewriteSchedulerOutput s.matchResults s.output

def Step.fresh (s : Step κ) : List (Nat × Nat) :=
  (s.output.cachedReqs.filter CachedReq.resumed).map (fun r => (r.reqId, r.numComputedTokens)) ++
    s.output.newReqs.map fun r => (r.reqId, r.numComputedTokens)

def rewrites (matchResults : List (Nat × MatchResult κ)) (b : Nat) (r : NewReq) : Bool :=
  ((dictGet b matchResults).bind fun m => m.covered r.promptLen).any (1 < ·)

def Step.rewrittenIds (s : Step κ) : List Nat :=
  (s.output.newReqs.zipIdx.filter fun (r, b) => rewrites s.matchResults b r).map fun (r, _) => r.reqId

def World.handed (cfg : SandwichConfig) (w : World) (s : Step κ) : List (Nat × Nat × Nat) :=
  (w.written.filter fun slot => slot.1 ∉ s.fresh.map Prod.fst) ++
    s.fresh.flatMap fun (reqId, hit) =>
      (List.range cfg.numLayers).flatMap fun layer => (List.range hit).map fun p => (reqId, layer, p)

def Step.writes [Zero κ] (cfg : SandwichConfig) (s : Step κ) (layer : Nat) : Except PyError (List (Nat × Nat × Nat)) := do
  let updates ← doKvCacheUpdate (buildInjectionMap s.matchResults s.seen.newReqs)
    (applySandwichSlots cfg s.matchResults s.seen.batch layer ((batchRows s.seen.batch).map some)) (s.rows layer)
  .ok (updates.map fun (slot, _) => ((s.seen.batch.map Entry.reqId).getD slot.1 0, layer, slot.2))

def Step.counts (s : Step κ) (counted : Nat → Option Nat) (reqId : Nat) : Option Nat :=
  match s.output.batch.find? fun e => e.reqId = reqId with
  | some e => some (e.numComputedTokens + e.numScheduledTokens)
  | none => counted reqId

def World.step [Zero κ] (cfg : SandwichConfig) (w : World) (s : Step κ) : Except PyError World := do
  let writes ← (List.range cfg.numLayers).mapM (s.writes cfg)
  .ok ⟨w.handed cfg s ++ writes.flatten, s.counts w.counted, w.rewritten ++ s.rewrittenIds⟩

/-! ## The scheduler's side -/

structure Scheduled (w : World) (s : Step κ) : Prop where
  matches_nodup : (s.matchResults.map Prod.fst).Nodup
  ids_nodup : (s.output.batch.map Entry.reqId).Nodup
  new_unknown : ∀ r ∈ s.output.newReqs, w.counted r.reqId = none
  running_counted : ∀ r ∈ s.output.cachedReqs, ∃ n, w.counted r.reqId = some n ∧
    (r.resumed = false → r.numComputedTokens ≤ n)
  enough_rows : ∀ layer, (batchRows s.seen.batch).length ≤ (s.rows layer).1.length ∧
    (s.rows layer).2.length = (s.rows layer).1.length

/-- No hole: what a rewritten request counts as computed has been written in every layer before the forward. -/
def NoHole (cfg : SandwichConfig) (w : World) (s : Step κ) : Prop :=
  ∀ e ∈ s.seen.batch, e.reqId ∈ w.rewritten ++ s.rewrittenIds → ∀ layer < cfg.numLayers,
    ∀ p < e.numComputedTokens, (e.reqId, layer, p) ∈ w.handed cfg s

/-- A match covers one token more than the scheduler has found, and the rewritten requests keep their slots. -/
structure Covered (cfg : SandwichConfig) (w : World) (s : Step κ) : Prop where
  exact_match : ∀ b m r c, (b, m) ∈ s.matchResults → s.output.newReqs[b]? = some r →
    m.covered r.promptLen = some c → 1 < c → c = r.numComputedTokens + 1
  slots_kept : ∀ i e, s.output.batch[i]? = some e → e.reqId ∈ w.rewritten ++ s.rewrittenIds →
    (∀ layer < cfg.numLayers, cfg.keeps layer = true) ∨ ∀ j ≤ i, isMatched s.matchResults j = true

/-! ## The cache update -/

theorem length_setSlice (hle : start ≤ stop)
    (h : setSlice rows start stop src = .ok rows') : rows'.length = rows.length := by
  simp only [setSlice] at h
  split at h
  · rename_i hl
    cases h
    simp only [length_append, length_take, length_drop]
    omega
  · split at h
    · cases h
      simp only [length_append, length_take, length_drop, length_replicate]
      omega
    · cases h

theorem length_injectIntoKv {map : List (Nat × Injection κ)}
    (h : injectIntoKv map kv = .ok kv') : kv'.1.length = kv.1.length ∧ kv'.2.length = kv.2.length := by
  induction map generalizing kv with
  | nil =>
    cases h
    exact ⟨rfl, rfl⟩
  | cons item map ih =>
    rw [injectIntoKv, foldlM_cons, bind_ok] at h
    obtain ⟨kv1, he, hr⟩ := h
    have hl : kv1.1.length = kv.1.length ∧ kv1.2.length = kv.2.length := by
      unfold injectEntry at he
      split at he
      · simp only [bind_ok] at he
        obtain ⟨key, hkey, value, hva, hkv⟩ := he
        cases hkv
        exact ⟨length_setSlice (Nat.le_add_right ..) hkey, length_setSlice (Nat.le_add_right ..) hva⟩
      · cases he
        exact ⟨rfl, rfl⟩
    obtain ⟨hk, hv⟩ := ih hr
    exact ⟨hk.trans hl.1, hv.trans hl.2⟩

theorem mem_doKvCacheUpdate {map : List (Nat × Injection κ)} (h : doKvCacheUpdate map sl kv = .ok updates) (hs : sl[t]? = some (some slot)) (hkey : t < kv.1.length)
    (hva : kv.2.length = kv.1.length) : ∃ row, (slot, row) ∈ updates := by
  simp only [doKvCacheUpdate, bind_ok] at h
  obtain ⟨kv', hr, hu⟩ := h
  cases hu
  obtain ⟨hk, hv⟩ := length_injectIntoKv hr
  have hz : (sl.zip (kv'.1.zip kv'.2))[t]? = some (some slot, (kv'.1.get ⟨t, by omega⟩, kv'.2.get ⟨t, by omega⟩)) := by
    rw [getElem?_zip_eq_some, getElem?_zip_eq_some]
    exact ⟨hs, by simp, by simp⟩
  exact ⟨_, mem_filterMap.mpr ⟨_, mem_of_getElem? hz, rfl⟩⟩

/-! ## One step -/

section
variable {cfg : SandwichConfig} {w : World} {s : Step κ}

theorem Covered.seen_eq (hd : (s.matchResults.map Prod.fst).Nodup) (h : Covered cfg w s) : s.seen = s.output := by
  have hs : ∀ b r, s.output.newReqs[b]? = some r → rewriteAt s.matchResults b r = r := by
    intro b r hr
    unfold rewriteAt
    cases hm : dictGet b s.matchResults with
    | none => rfl
    | some m =>
      simp only [MatchResult.rewrite]
      cases hc : m.covered r.promptLen with
      | none => rfl
      | some c =>
        by_cases hle : c ≤ 1
        · simp [hle]
        · have := h.exact_match b m r c (mem_of_dictGet hm) hr hc (by omega)
          simp [this]
  have hn : s.seen.newReqs = s.output.newReqs := by
    apply ext_getElem?
    intro b
    rw [Step.seen, rewriteSchedulerOutput, getElem?_foldl_rewrite hd]
    cases hr : s.output.newReqs[b]? with
    | none => rfl
    | some r => rw [Option.map_some, hs b r hr]
  exact congrArg _ hn

theorem mem_handed_fresh (h : (reqId, hit) ∈ s.fresh) (hl : ly < cfg.numLayers)
    (hp : p < hit) : (reqId, ly, p) ∈ w.handed cfg s := by
  refine mem_append_right _ (mem_flatMap.mpr ⟨_, h, ?_⟩)
  refine mem_flatMap.mpr ⟨ly, mem_range.mpr hl, ?_⟩
  exact mem_map.mpr ⟨p, mem_range.mpr hp, rfl⟩

theorem mem_handed_written (h : slot ∈ w.written) (hf : slot.1 ∉ s.fresh.map Prod.fst) : slot ∈ w.handed cfg s :=
  mem_append_left _ (mem_filter.mpr ⟨h, by simpa using hf⟩)

theorem mem_ids_of_fresh (h : reqId ∈ s.fresh.map Prod.fst) :
    (∃ r ∈ s.output.cachedReqs, r.resumed = true ∧ r.reqId = reqId) ∨ ∃ r ∈ s.output.newReqs, r.reqId = reqId := by
  rw [Step.fresh, map_append, map_map, map_map, mem_append] at h
  rcases h with h | h
  · obtain ⟨r, hr, rfl⟩ := mem_map.mp h
    obtain ⟨hm, hre⟩ := mem_filter.mp hr
    exact .inl ⟨r, hm, hre, rfl⟩
  · obtain ⟨r, hr, rfl⟩ := mem_map.mp h
    exact .inr ⟨r, hr, rfl⟩

theorem new_of_rewrittenIds (h : reqId ∈ s.rewrittenIds) : ∃ r ∈ s.output.newReqs, r.reqId = reqId := by
  obtain ⟨⟨r, b⟩, hr, rfl⟩ := mem_map.mp h
  exact ⟨r, fst_mem_of_mem_zipIdx (mem_of_mem_filter hr), rfl⟩

def Filled (cfg : SandwichConfig) (w : World) : Prop :=
  ∀ reqId ∈ w.rewritten, ∀ n, w.counted reqId = some n → ∀ layer < cfg.numLayers, ∀ p < n,
    (reqId, layer, p) ∈ w.written

theorem Scheduled.running_ne_new (h : Scheduled w s) (hr : r ∈ s.output.cachedReqs)
    (hr' : r' ∈ s.output.newReqs) : r'.reqId ≠ r.reqId := by
  have hd := h.ids_nodup
  rw [SchedulerOutput.batch, map_append] at hd
  have hdi := (nodup_append.mp hd).2.2
  intro heq
  exact hdi r.reqId (mem_map.mpr ⟨_, mem_map.mpr ⟨r, hr, rfl⟩, rfl⟩) r'.reqId
    (mem_map.mpr ⟨_, mem_map.mpr ⟨r', hr', rfl⟩, rfl⟩) heq.symm

theorem Scheduled.running_inj (h : Scheduled w s) (hr : r ∈ s.output.cachedReqs)
    (hr' : r' ∈ s.output.cachedReqs) (heq : r'.reqId = r.reqId) : r' = r := by
  have hd := h.ids_nodup
  rw [SchedulerOutput.batch, map_append, map_map] at hd
  exact inj_on_of_nodup_map (nodup_append.mp hd).1 hr' hr heq

theorem noHole_of_filled (hs : Scheduled w s) (hc : Covered cfg w s) (hw : Filled cfg w) : NoHole cfg w s := by
  intro e he hid ly hla p hp
  rw [hc.seen_eq hs.matches_nodup, SchedulerOutput.batch, mem_append] at he
  rcases he with he | he
  · obtain ⟨r, hr, rfl⟩ := mem_map.mp he
    obtain ⟨n, hn, hle⟩ := hs.running_counted r hr
    cases hre : r.resumed with
    | true =>
      refine mem_handed_fresh ?_ hla hp
      exact mem_append_left _ (mem_map.mpr ⟨r, mem_filter.mpr ⟨hr, hre⟩, rfl⟩)
    | false =>
      -- an old request in its old blocks: the sl are there from before
      have hold : r.reqId ∈ w.rewritten := (mem_append.mp hid).resolve_right fun hnew => by
        obtain ⟨r', hr', heq⟩ := new_of_rewrittenIds hnew
        exact hs.running_ne_new hr hr' heq
      refine mem_handed_written (hw r.reqId hold n hn ly hla p (Nat.lt_of_lt_of_le hp (hle hre))) ?_
      intro hfr
      rcases mem_ids_of_fresh hfr with ⟨r', hr', hre', heq⟩ | ⟨r', hr', heq⟩
      · rw [hs.running_inj hr hr' heq, hre] at hre'
        cases hre'
      · exact hs.running_ne_new hr hr' heq
  · obtain ⟨r, hr, rfl⟩ := mem_map.mp he
    exact mem_handed_fresh (mem_append_right _ (mem_map.mpr ⟨r, hr, rfl⟩)) hla hp

end

section
variable [Zero κ] {cfg : SandwichConfig} {w w' : World} {s : Step κ}

theorem mem_writes (hs : Scheduled w s) (hc : Covered cfg w s) {i j ly : Nat}
    (he : s.output.batch[i]? = some e) (hid : e.reqId ∈ w.rewritten ++ s.rewrittenIds) (hla : ly < cfg.numLayers)
    (hj : j < e.numScheduledTokens) (h : s.writes cfg ly = .ok writes) :
    (e.reqId, ly, e.numComputedTokens + j) ∈ writes := by
  simp only [Step.writes, bind_ok] at h
  obtain ⟨updates, hup, hwr⟩ := h
  cases hwr
  have hse := hc.seen_eq hs.matches_nodup
  rw [hse] at hup ⊢
  have hrow : (batchRows s.output.batch)[queryStart s.output.batch i + j]? = some (i, e.numComputedTokens + j) :=
    getElem?_batchRows.mpr ⟨e, j, he, hj, rfl, rfl⟩
  have hslot : (applySandwichSlots cfg s.matchResults s.output.batch ly ((batchRows s.output.batch).map some))[
      queryStart s.output.batch i + j]? = some (some (i, e.numComputedTokens + j)) := by
    rw [getElem?_of_keeps, getElem?_map, hrow, Option.map_some]
    rcases hc.slots_kept i e he hid with hkeep | hma
    · exact .inl (hkeep ly hla)
    refine .inr fun k => (Nat.lt_or_ge i k).symm.imp (fun hk => hma k hk) fun hk => ?_
    have hsize : (s.output.batch.map Entry.numScheduledTokens)[i]? = some e.numScheduledTokens := by simp [he]
    have := Ragged.start_add_le hsize hk
    unfold queryStart
    omega
  have hen := hs.enough_rows ly
  rw [hse] at hen
  have hlt := lt_of_getElem? hrow
  obtain ⟨row, hmem⟩ := mem_doKvCacheUpdate hup hslot (Nat.lt_of_lt_of_le hlt hen.1) hen.2
  exact mem_map.mpr ⟨_, hmem, by simp [he]⟩

theorem filled_step (hw : Filled cfg w) (hs : Scheduled w s) (hc : Covered cfg w s) (h : w.step cfg s = .ok w') :
    Filled cfg w' := by
  simp only [World.step, bind_ok] at h
  obtain ⟨writes, hwr, hw'⟩ := h
  cases hw'
  intro reqId hid n hn ly hla p hp
  simp only [Step.counts] at hn
  split at hn
  · rename_i e hfi
    cases hn
    have hreq : e.reqId = reqId := by simpa using find?_some hfi
    subst hreq
    have hmem := mem_of_find?_eq_some hfi
    rcases Nat.lt_or_ge p e.numComputedTokens with hlt | hge
    · refine mem_append_left _ (noHole_of_filled hs hc hw e ?_ hid ly hla p hlt)
      rwa [hc.seen_eq hs.matches_nodup]
    obtain ⟨j, rfl⟩ := Nat.exists_eq_add_of_le hge
    obtain ⟨i, hi⟩ := mem_iff_getElem?.mp hmem
    obtain ⟨ws, hws⟩ := exists_of_mapM hwr (mem_range.mpr hla)
    have hin : ws ∈ writes := (mem_mapM hwr).mpr ⟨ly, mem_range.mpr hla, hws⟩
    refine mem_append_right _ (mem_flatten.mpr ⟨ws, hin, ?_⟩)
    exact mem_writes hs hc hi hid hla (by omega) hws
  · rename_i hfi
    have hnone : ∀ e ∈ s.output.batch, e.reqId ≠ reqId := fun e he => by
      simpa using find?_eq_none.mp hfi e he
    have hnew : ∀ r ∈ s.output.newReqs, r.reqId ≠ reqId := fun r hr =>
      hnone r.entry (mem_append_right _ (mem_map.mpr ⟨r, hr, rfl⟩))
    have hold : reqId ∈ w.rewritten := (mem_append.mp hid).resolve_right fun h => by
      obtain ⟨r, hr, heq⟩ := new_of_rewrittenIds h
      exact hnew r hr heq
    refine mem_append_left _ (mem_handed_written (hw reqId hold n hn ly hla p hp) fun hfr => ?_)
    rcases mem_ids_of_fresh hfr with ⟨r, hr, -, heq⟩ | ⟨r, hr, heq⟩
    · exact hnone r.entry (mem_append_left _ (mem_map.mpr ⟨r, hr, rfl⟩)) heq
    · exact hnew r hr heq

/-! ## Runs -/

theorem no_holes {steps : List (Step κ)}
    (hrun : Run.GuardedM (World.step cfg) (fun w s => Scheduled w s ∧ Covered cfg w s) World.start (steps ++ [s]))
    (hw : steps.foldlM (World.step cfg) World.start = .ok w) : NoHole cfg w s := by
  obtain ⟨hse, ⟨hs, hc⟩, -⟩ := hrun.append hw
  have hst : Filled cfg World.start := fun _ h => nomatch h
  exact noHole_of_filled hs hc (hse.inv (fun _ _ _ hw ⟨hs, hc⟩ h => filled_step hw hs hc h) hst hw)

end

end

/-! ## A prompt of three tokens -/

def arrival (hit : Nat) : Step Nat := ⟨⟨[], [⟨7, 3, hit, 2⟩]⟩, [(0, taskMatch 2)], fun _ => ([5, 6], [5, 6])⟩

def decodeStep (p : Nat) : Step Nat := ⟨⟨[⟨7, p, 1, false⟩], []⟩, [], fun _ => ([8], [8])⟩

theorem scheduled_arrival (hit : Nat) : Scheduled World.start (arrival hit) where
  matches_nodup := nodup_singleton _
  ids_nodup := nodup_singleton _
  new_unknown := fun _ _ => rfl
  running_counted := fun _ h => nomatch h
  enough_rows := fun _ => ⟨Nat.le_refl 2, rfl⟩

theorem scheduled_decodeStep (h : w.counted 7 = some p) : Scheduled w (decodeStep p) where
  matches_nodup := nodup_nil
  ids_nodup := nodup_singleton _
  new_unknown := fun _ h => nomatch h
  running_counted := fun r hr => by
    cases mem_singleton.mp hr
    exact ⟨p, h, fun _ => Nat.le_refl p⟩
  enough_rows := fun _ => ⟨Nat.le_refl 1, rfl⟩

theorem no_holes_arrival : ∃ w, [arrival 1].foldlM (World.step ⟨2, 1, 1⟩) World.start = .ok w ∧ 7 ∈ w.rewritten ∧
    NoHole ⟨2, 1, 1⟩ w (decodeStep 3) := by
  have hk : ∀ layer < 2, SandwichConfig.keeps ⟨2, 1, 1⟩ layer = true := by decide
  have hf : Covered ⟨2, 1, 1⟩ World.start (arrival 1) := by
    refine ⟨fun b m r c hm hr hc _ => ?_, fun _ _ _ _ => .inl hk⟩
    cases mem_singleton.mp hm
    cases hr
    cases hc
    rfl
  refine ⟨_, rfl, by decide, @no_holes _ _ ⟨2, 1, 1⟩ _ (decodeStep 3) [arrival 1] ⟨⟨scheduled_arrival 1, hf⟩, ?_⟩ rfl⟩
  intro w hw
  cases hw
  exact ⟨⟨scheduled_decodeStep rfl, ⟨fun _ _ _ _ hm => (nomatch hm), fun _ _ _ _ => .inl hk⟩⟩, fun _ _ => trivial⟩

/-- Position 0 is never written; with a prefix hit, the rows that are decoded have no slots in the middle layer. -/
theorem hole_left : (Run.GuardedM (World.step ⟨2, 1, 1⟩) Scheduled World.start [arrival 0] ∧
      ¬ NoHole ⟨2, 1, 1⟩ World.start (arrival 0)) ∧
    Run.GuardedM (World.step ⟨3, 1, 1⟩) Scheduled World.start [arrival 1, decodeStep 3, decodeStep 4] ∧
      ∃ w, [arrival 1, decodeStep 3].foldlM (World.step ⟨3, 1, 1⟩) World.start = .ok w ∧
        ¬ NoHole ⟨3, 1, 1⟩ w (decodeStep 4) := by
  refine ⟨⟨⟨scheduled_arrival 0, fun _ _ => trivial⟩, fun h => ?_⟩, ⟨scheduled_arrival 1, ?_⟩, _, rfl, fun h => ?_⟩
  · exact absurd (h ⟨7, 1, 2⟩ (by decide) (by decide) 0 (by decide) 0 (by decide)) (by decide)
  · intro w hw
    cases hw
    refine ⟨scheduled_decodeStep rfl, fun w hw => ?_⟩
    cases hw
    exact ⟨scheduled_decodeStep rfl, fun _ _ => trivial⟩
  · exact absurd (h ⟨7, 4, 1⟩ (by decide) (by decide) 1 (by decide) 3 (by decide)) (by decide)

end VllmAscend.SimLlm
