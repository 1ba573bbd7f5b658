import VllmAscend.SimLlm.Patch

/-!
# Which rows an injection replaces

The injection map places the cached rows of a match behind the prompts of the
new requests before it; the runner places a request's rows behind all scheduled
tokens before it, from the computed tokens on, which the patch has just raised.
-/

namespace VllmAscend.SimLlm

open Python MatchResult Nat
open Option hiding map map_eq_map map_map
open List hiding getElem?_eq_some_iff

/-! ## Origins -/

inductive Origin where
  /-- The row that the forward computed. -/
  | row (r : Nat)
  /-- A row of the match of a new request. -/
  | cached (b p : Nat)
  | zero
deriving DecidableEq, Repr

instance : Zero Origin := ⟨.zero⟩

section
variable {κ : Type*}
variable {b c n t start pad : Nat} {rows src : List κ} {m : MatchResult κ} {r : NewReq}
  {ms : List (Nat × MatchResult κ)} {out : SchedulerOutput} {inj : Injection Origin}

def CachedKv.double {α : Type*} (rows : List α) : CachedKv α := ⟨rows, rows, rfl⟩

def names (b n : Nat) : List Origin := (List.range n).map (.cached b)

def MatchResult.labelled (b : Nat) (m : MatchResult κ) : MatchResult Origin :=
  ⟨m.matched, m.cached.map fun c => .double (names b c.k.length)⟩

def labels (matchResults : List (Nat × MatchResult κ)) : List (Nat × MatchResult Origin) :=
  matchResults.map fun (b, m) => (b, m.labelled b)

def ownRows (n : Nat) : List Origin := (List.range n).map .row

def stepRows (matchResults : List (Nat × MatchResult κ)) (out : SchedulerOutput) : List (Nat × Nat) :=
  batchRows (rewriteSchedulerOutput matchResults out).batch

/-- A row that is not the forward's own is that of its position in the match of its own request. -/
def Isolated (matchResults : List (Nat × MatchResult κ)) (out : SchedulerOutput) (padding : Nat) : Prop :=
  ∃ key value,
    injectIntoKv (buildInjectionMap (labels matchResults) (rewriteSchedulerOutput matchResults out).newReqs)
      (ownRows ((stepRows matchResults out).length + padding), ownRows ((stepRows matchResults out).length + padding)) =
        .ok (key, value) ∧
    ∀ r < (stepRows matchResults out).length + padding,
      (key[r]? = some (.row r) ∧ value[r]? = some (.row r)) ∨
      ∃ b p m, (b, m) ∈ matchResults ∧ m.matched = true ∧
        (stepRows matchResults out)[r]? = some (out.cachedReqs.length + b, p) ∧
        key[r]? = some (.cached b p) ∧ value[r]? = some (.cached b p)

/-- Matches of one token that fall on the first rows of their requests, or behind the tensors. -/
def Aligned (matchResults : List (Nat × MatchResult κ)) (out : SchedulerOutput) (padding : Nat) : Prop :=
  ∀ b m r covered, (b, m) ∈ matchResults → out.newReqs[b]? = some r → m.covered r.promptLen = some covered →
    0 < covered → covered = 1 ∧
      ((out.batch.map Entry.numScheduledTokens).sum + padding ≤ Ragged.start (out.newReqs.map NewReq.promptLen) b ∨
        (Ragged.start (out.newReqs.map NewReq.promptLen) b = queryStart out.batch (out.cachedReqs.length + b) ∧
          0 < r.numScheduledTokens ∧ r.numComputedTokens = 0))

/-! ## The rewritten output -/

def rewriteAt (matchResults : List (Nat × MatchResult κ)) (b : Nat) (r : NewReq) : NewReq :=
  match dictGet b matchResults with
  | some m => m.rewrite r
  | none => r

theorem MatchResult.apply_rewrite {α : Type*} {f : NewReq → α} (hf : ∀ r n, f { r with numComputedTokens := n } = f r)
    (m : MatchResult κ) (r : NewReq) : f (m.rewrite r) = f r := by
  unfold rewrite
  split
  · rfl
  · split
    · rfl
    · exact hf r _

theorem map_foldl_rewrite {α : Type*} (f : NewReq → α) (hf : ∀ r n, f { r with numComputedTokens := n } = f r)
    (ms : List (Nat × MatchResult κ)) (reqs : List NewReq) :
    (ms.foldl (fun reqs item => reqs.modify item.1 item.2.rewrite) reqs).map f = reqs.map f := by
  induction ms generalizing reqs with
  | nil => rfl
  | cons item ms ih =>
    rw [foldl_cons, ih]
    apply ext_getElem?
    intro i
    simp only [getElem?_map, getElem?_modify]
    cases reqs[i]? with
    | none => rfl
    | some r =>
      split <;> simp [apply_rewrite hf]

theorem getElem?_foldl_rewrite (hd : (ms.map Prod.fst).Nodup) (reqs : List NewReq) (b : Nat) :
    (ms.foldl (fun reqs item => reqs.modify item.1 item.2.rewrite) reqs)[b]? =
      reqs[b]?.map (rewriteAt ms b) := by
  induction ms generalizing reqs with
  | nil =>
    have : rewriteAt ([] : List (Nat × MatchResult κ)) b = id := rfl
    simp [this]
  | cons item ms ih =>
    rw [map_cons, nodup_cons] at hd
    rw [foldl_cons, ih hd.2, getElem?_modify]
    cases reqs[b]? with
    | none => rfl
    | some r =>
      obtain ⟨i, m⟩ := item
      by_cases hi : i = b
      · subst hi
        have hn : dictGet i ms = none := dictGet_eq_none hd.1
        have hs : dictGet i ((i, m) :: ms) = some m := by simp [dictGet]
        simp [rewriteAt, hn, hs]
      · have ho : dictGet b ((i, m) :: ms) = dictGet b ms := by simp [dictGet, hi]
        simp [rewriteAt, hi, ho]

theorem promptLens_rewrite :
    (rewriteSchedulerOutput ms out).newReqs.map NewReq.promptLen = out.newReqs.map NewReq.promptLen :=
  map_foldl_rewrite NewReq.promptLen (fun _ _ => rfl) _ _

theorem scheduled_rewrite : (rewriteSchedulerOutput ms out).batch.map Entry.numScheduledTokens =
      out.batch.map Entry.numScheduledTokens := by
  have h := map_foldl_rewrite NewReq.numScheduledTokens (fun _ _ => rfl) ms out.newReqs
  have hf : ∀ reqs : List NewReq,
      (reqs.map NewReq.entry).map Entry.numScheduledTokens = reqs.map NewReq.numScheduledTokens := fun reqs => by
    rw [map_map]
    rfl
  rw [SchedulerOutput.batch, SchedulerOutput.batch, map_append, map_append, hf, hf]
  exact congrArg _ h

theorem queryStart_rewrite (i : Nat) :
    queryStart (rewriteSchedulerOutput ms out).batch i = queryStart out.batch i := by
  rw [queryStart, scheduled_rewrite, queryStart]

/-! ## Rows of the batch -/

theorem getElem?_batchRows : (batchRows batch)[t]? = some (i, p) ↔
      ∃ e j, batch[i]? = some e ∧ j < e.numScheduledTokens ∧ p = e.numComputedTokens + j ∧
        t = queryStart batch i + j := by
  rw [batchRows, getElem?_map]
  constructor
  · intro h
    obtain ⟨⟨i', j⟩, hc, heq⟩ := map_eq_some_iff.mp h
    obtain ⟨rfl, rfl⟩ := Prod.mk.injEq .. ▸ heq
    obtain ⟨n, hn, hj, ht⟩ := Ragged.getElem?_cells.mp hc
    rw [getElem?_map] at hn
    obtain ⟨e, he, rfl⟩ := map_eq_some_iff.mp hn
    exact ⟨e, j, he, hj, by simp [he], ht⟩
  · rintro ⟨e, j, he, hj, rfl, rfl⟩
    have hc : (Ragged.cells (batch.map Entry.numScheduledTokens))[queryStart batch i + j]? = some (i, j) :=
      Ragged.getElem?_cells.mpr ⟨_, by simp [he], hj, rfl⟩
    simp [hc, he]

theorem length_stepRows : (stepRows ms out).length = (out.batch.map Entry.numScheduledTokens).sum := by
  rw [stepRows, batchRows, length_map, Ragged.length_cells, scheduled_rewrite]

theorem getElem?_batch_new (b : Nat) : out.batch[out.cachedReqs.length + b]? = out.newReqs[b]?.map NewReq.entry := by
  rw [SchedulerOutput.batch, getElem?_append_right (by simp)]
  simp

theorem stepRows_new_zero (hd : (ms.map Prod.fst).Nodup) (hr : out.newReqs[b]? = some r) :
    (stepRows ms out)[t]? = some (out.cachedReqs.length + b, 0) ↔
      t = queryStart out.batch (out.cachedReqs.length + b) ∧ 0 < r.numScheduledTokens ∧
        (rewriteAt ms b r).numComputedTokens = 0 := by
  have hsc : (rewriteAt ms b r).numScheduledTokens = r.numScheduledTokens := by
    unfold rewriteAt
    split
    · exact apply_rewrite (fun _ _ => rfl) _ _
    · rfl
  have hen : (rewriteSchedulerOutput ms out).batch[out.cachedReqs.length + b]? =
      some (rewriteAt ms b r).entry := by
    have h := getElem?_foldl_rewrite hd out.newReqs b
    have hnew := @getElem?_batch_new (rewriteSchedulerOutput ms out) b
    rw [hr] at h
    rw [rewriteSchedulerOutput] at hnew ⊢
    rw [hnew, h]
    rfl
  rw [stepRows, getElem?_batchRows, queryStart_rewrite, hen]
  constructor
  · rintro ⟨e, j, he, hj, hp, rfl⟩
    cases he
    have hj' : j < r.numScheduledTokens := hsc ▸ hj
    have hp' : 0 = (rewriteAt ms b r).numComputedTokens + j := hp
    exact ⟨by omega, by omega, by omega⟩
  · rintro ⟨rfl, hpos, hzero⟩
    exact ⟨_, 0, rfl, lt_of_lt_of_eq hpos hsc.symm, hzero.symm, rfl⟩

/-! ## Slices -/

def overlay (rows : List κ) (start : Nat) (src : List κ) : List κ :=
  rows.mapIdx fun r x => if start ≤ r then src.getD (r - start) x else x

@[simp] theorem length_overlay (rows : List κ) (start : Nat) (src : List κ) :
    (overlay rows start src).length = rows.length := length_mapIdx

theorem getElem?_overlay_outside {r : Nat}
    (h : r < start ∨ start + src.length ≤ r) : (overlay rows start src)[r]? = rows[r]? := by
  rw [overlay, getElem?_mapIdx]
  cases rows[r]? with
  | none => rfl
  | some x =>
    rw [map_some]
    split
    · rw [getD_eq_getElem?_getD, getElem?_eq_none (by omega), getD_none]
    · rfl

theorem getElem?_overlay_inside (hj : j < src.length)
    (h : start + j < rows.length) : (overlay rows start src)[start + j]? = src[j]? := by
  rw [overlay, getElem?_mapIdx, getElem?_eq_getElem h, map_some, if_pos (Nat.le_add_right ..),
    Nat.add_sub_cancel_left, getD_eq_getElem?_getD, getElem?_eq_getElem hj, getD_some]

theorem overlay_fit (h : start + src.length ≤ rows.length) :
    rows.take start ++ src ++ rows.drop (start + src.length) = overlay rows start src := by
  apply ext_getElem?
  intro r
  have ht : (rows.take start).length = start := by rw [length_take]; omega
  rcases lt_or_ge r start with hr | hr
  · rw [getElem?_overlay_outside (.inl hr), append_assoc, getElem?_append_left (by omega), getElem?_take_of_lt hr]
  obtain ⟨j, rfl⟩ := Nat.exists_eq_add_of_le hr
  rw [append_assoc, getElem?_append_right (by omega), ht, Nat.add_sub_cancel_left]
  rcases Nat.lt_or_ge j src.length with hj | hj
  · rw [getElem?_overlay_inside hj (by omega), getElem?_append_left hj]
  rw [getElem?_overlay_outside (.inr (by omega)), getElem?_append_right hj, getElem?_drop]
  congr 1
  omega

theorem overlay_behind (h : rows.length ≤ start) : overlay rows start src = rows := by
  apply ext_getElem?
  intro r
  rcases lt_or_ge r start with hr | hr
  · exact getElem?_overlay_outside (.inl hr)
  · rw [getElem?_eq_none (by simp; omega), getElem?_eq_none (by omega)]

theorem setSlice_ok {rows' : List κ} (hsr : 0 < src.length) :
    setSlice rows start (start + src.length) src = .ok rows' ↔
      (src.length ≤ 1 ∨ start + src.length ≤ rows.length) ∧ rows' = overlay rows start src := by
  simp only [setSlice]
  by_cases hf : start + src.length ≤ rows.length
  · rw [if_pos (by omega), overlay_fit hf, Except.ok.injEq]
    exact ⟨fun h => ⟨.inr hf, h.symm⟩, fun h => h.2.symm⟩
  rw [if_neg (by omega)]
  match src, hsr with
  | [a], _ =>
    rw [length_singleton] at hf ⊢
    have hb : rows.length ≤ start := by omega
    have hs : rows.take start ++ replicate (min (start + 1) rows.length - min start rows.length) a ++
        rows.drop (start + 1) = rows := by
      simp [hb, show rows.length ≤ start + 1 by omega, take_of_length_le hb]
    rw [overlay_behind hb]
    dsimp only
    rw [hs, Except.ok.injEq]
    exact ⟨fun h => ⟨.inl (le_refl 1), h.symm⟩, fun h => h.2.symm⟩
  | _ :: _ :: _, _ =>
    rw [length_cons, length_cons] at hf ⊢
    constructor
    · intro h
      cases h
    · intro h
      omega

/-! ## Entries of the injection map -/

@[simp] theorem length_names (b n : Nat) : (names b n).length = n := by simp [names]

theorem alignLength_of_le [Zero κ] (hn : n ≤ rows.length) :
    alignLength rows n = rows.take n := by simp [alignLength, Nat.sub_eq_zero_of_le hn]

theorem alignLength_names (hc : c ≤ n) : alignLength (names b n) c = names b c := by
  rw [alignLength_of_le (by rwa [length_names])]
  simp [names, ← map_take, take_range, min_eq_left hc]

def named (b c t : Nat) : Injection Origin := ⟨names b c, names b c, t, c⟩

theorem injectionOf_congr {α : Type*} [Zero α]
    (h : reqs'.map NewReq.promptLen = reqs.map NewReq.promptLen) (b : Nat) (m : MatchResult α) :
    injectionOf reqs' b m = injectionOf reqs b m := by
  have hb : reqs'[b]?.map NewReq.promptLen = reqs[b]?.map NewReq.promptLen := by
    rw [← getElem?_map, ← getElem?_map, h]
  unfold injectionOf
  rw [h]
  cases hr : reqs[b]? with
  | none =>
    rw [hr, map_none, map_eq_none_iff] at hb
    rw [hb]
  | some r =>
    rw [hr, map_some, map_eq_some_iff] at hb
    obtain ⟨r', hr', hl⟩ := hb
    rw [hr']
    cases m.cached with
    | none => rfl
    | some c => simp only [hl]

theorem injectionOf_labelled :
    injectionOf nr b (m.labelled b) = some inj ↔
      ∃ r c, nr[b]? = some r ∧ m.covered r.promptLen = some c ∧ 0 < c ∧
        inj = named b c (Ragged.start (nr.map NewReq.promptLen) b) := by
  obtain ⟨matched, cached⟩ := m
  simp only [injectionOf, labelled, covered]
  cases matched with
  | false => simp
  | true =>
    cases cached with
    | none => simp
    | some c =>
      cases hr : nr[b]? with
      | none => simp
      | some r =>
        simp only [if_true, map_some, CachedKv.double, length_names, alignLength_names (min_le_left ..),
          Option.some.injEq]
        constructor
        · intro h
          split at h
          · cases h
          · rename_i hp
            exact ⟨r, _, rfl, rfl, pos_of_ne_zero hp, (Option.some.inj h).symm⟩
        · rintro ⟨_, _, rfl, rfl, hp, rfl⟩
          rw [if_neg (ne_of_gt hp)]
          rfl

theorem mem_buildInjectionMap :
    item ∈ buildInjectionMap (labels ms) nr ↔
      ∃ m r c, (item.1, m) ∈ ms ∧ nr[item.1]? = some r ∧ m.covered r.promptLen = some c ∧ 0 < c ∧
        item.2 = named item.1 c (Ragged.start (nr.map NewReq.promptLen) item.1) := by
  rw [buildInjectionMap, labels, filterMap_map, mem_filterMap]
  constructor
  · rintro ⟨⟨b, m⟩, hm, h⟩
    obtain ⟨inj, hi, rfl⟩ := map_eq_some_iff.mp h
    obtain ⟨r, c, hr, hc, hp, heq⟩ := injectionOf_labelled.mp hi
    exact ⟨m, r, c, hm, hr, hc, hp, heq⟩
  · rintro ⟨m, r, c, hm, hr, hc, hp, heq⟩
    refine ⟨(item.1, m), hm, map_eq_some_iff.mpr ⟨item.2, ?_, rfl⟩⟩
    exact injectionOf_labelled.mpr ⟨r, c, hr, hc, hp, heq⟩

theorem buildInjectionMap_rewrite :
    buildInjectionMap (labels ms) (rewriteSchedulerOutput ms out).newReqs =
      buildInjectionMap (labels ms) out.newReqs := by
  simp only [buildInjectionMap, injectionOf_congr promptLens_rewrite]

/-! ## The loop -/

theorem injectEntry_named {rows : List Origin} (hc : 0 < c) :
    injectEntry (rows, rows) (b, named b c t) = .ok kv ↔
      (c ≤ 1 ∨ t + c ≤ rows.length) ∧ kv = (overlay rows t (names b c), overlay rows t (names b c)) := by
  have hs : ∀ {rows' : List Origin}, setSlice rows t (t + c) (names b c) = .ok rows' ↔
      (c ≤ 1 ∨ t + c ≤ rows.length) ∧ rows' = overlay rows t (names b c) := fun {rows'} => by
    have h := @setSlice_ok _ t rows (names b c) rows' (by rwa [length_names])
    rwa [length_names] at h
  have hco : 0 < (b, named b c t).2.covered := hc
  rw [injectEntry, if_pos hco]
  simp only [named, bind_ok]
  constructor
  · rintro ⟨key, hk, value, hv, h⟩
    obtain ⟨hf, rfl⟩ := hs.mp hk
    obtain ⟨-, rfl⟩ := hs.mp hv
    cases h
    exact ⟨hf, rfl⟩
  · rintro ⟨hf, rfl⟩
    exact ⟨_, hs.mpr ⟨hf, rfl⟩, _, hs.mpr ⟨hf, rfl⟩, rfl⟩

theorem injectIntoKv_single {welcome : Nat → Nat → Prop} {rows : List Origin}
    (hl : ∀ item ∈ l, ∃ t, item.2 = named item.1 1 t ∧ (rows.length ≤ t ∨ welcome item.1 t)) :
    ∃ rows', injectIntoKv l (rows, rows) = .ok (rows', rows') ∧
      ∀ r, rows'[r]? = rows[r]? ∨ ∃ b, welcome b r ∧ rows'[r]? = some (.cached b 0) := by
  induction l generalizing rows with
  | nil => exact ⟨rows, rfl, fun r => .inl rfl⟩
  | cons item l ih =>
    obtain ⟨b, inj⟩ := item
    obtain ⟨t, ht, hwe⟩ := hl (b, inj) mem_cons_self
    dsimp only at ht
    subst ht
    have hfi : injectEntry (rows, rows) (b, named b 1 t) =
        .ok (overlay rows t (names b 1), overlay rows t (names b 1)) :=
      (injectEntry_named one_pos).mpr ⟨.inl (le_refl 1), rfl⟩
    have hrest : ∀ item ∈ l, ∃ t', item.2 = named item.1 1 t' ∧
        ((overlay rows t (names b 1)).length ≤ t' ∨ welcome item.1 t') := by
      rw [length_overlay]
      exact fun item hi => hl item (mem_cons_of_mem _ hi)
    obtain ⟨rows', hrun, hro⟩ := ih hrest
    refine ⟨rows', ?_, fun r => ?_⟩
    · rw [injectIntoKv, foldlM_cons, hfi]
      exact hrun
    · rcases hro r with h | h
      · rw [h]
        by_cases hr : r = t ∧ t < rows.length
        · obtain ⟨rfl, hlt⟩ := hr
          have hset : (overlay rows r (names b 1))[r + 0]? = (names b 1)[0]? :=
            getElem?_overlay_inside (by simp) (by simpa using hlt)
          exact .inr ⟨b, hwe.resolve_left (by omega), hset.trans rfl⟩
        · left
          by_cases hrt : r = t
          · rw [overlay_behind (by omega)]
          · exact getElem?_overlay_outside (by rw [length_names]; omega)
      · exact .inr h

theorem injectIntoKv_spec {rows : List Origin} (hrun : injectIntoKv l (rows, rows) = .ok kv)
    (hl : ∀ item ∈ l, ∃ c' t', 0 < c' ∧ item.2 = named item.1 c' t' ∧
      ((item.1 = b ∧ c' = c ∧ t' = t) ∨ (t < t' ∨ t' + c' ≤ t))) :
    (∀ item ∈ l, item.2.covered ≤ 1 ∨ item.2.tokStart + item.2.covered ≤ rows.length) ∧
      (rows[t]? = some (.cached b 0) ∨ (t < rows.length ∧ (b, named b c t) ∈ l) → kv.1[t]? = some (.cached b 0)) := by
  induction l generalizing rows with
  | nil =>
    cases hrun
    exact ⟨nofun, fun hrow => hrow.resolve_right fun h => nomatch h.2⟩
  | cons item l ih =>
    obtain ⟨b', inj⟩ := item
    obtain ⟨c', t', hpos, hinj, hpl⟩ := hl (b', inj) mem_cons_self
    dsimp only at hinj hpl
    subst hinj
    rw [injectIntoKv, foldlM_cons, bind_ok] at hrun
    obtain ⟨kv1, hen, hrun⟩ := hrun
    obtain ⟨hfit, rfl⟩ := (injectEntry_named hpos).mp hen
    obtain ⟨hfits, hfirst⟩ := ih hrun fun item hi => hl item (mem_cons_of_mem _ hi)
    rw [length_overlay] at hfits hfirst
    refine ⟨forall_mem_cons.mpr ⟨hfit, hfits⟩, fun hrow => hfirst ?_⟩
    rcases hpl with ⟨rfl, rfl, rfl⟩ | hout
    · -- the entry itself, which sets the row
      left
      have hlt : t' < rows.length := by
        rcases hrow with h | h
        · exact lt_of_getElem? h
        · exact h.1
      have hset : (overlay rows t' (names b' c'))[t' + 0]? = (names b' c')[0]? :=
        getElem?_overlay_inside (by rwa [length_names]) (by simpa using hlt)
      rw [add_zero] at hset
      rw [hset, names, getElem?_map, getElem?_range hpos]
      rfl
    · rcases hrow with h | ⟨hlt, hin⟩
      · left
        rw [getElem?_overlay_outside (by rwa [length_names]), h]
      right
      refine ⟨hlt, (mem_cons.mp hin).resolve_left fun heq => ?_⟩
      have ht : t = t' := congrArg (fun item => item.2.tokStart) heq
      omega

/-! ## Isolation -/

theorem MatchResult.matched_of_covered (h : m.covered n = some c) : m.matched = true := by
  unfold covered at h
  split at h
  · assumption
  · cases h

theorem MatchResult.covered_le (h : m.covered n = some c) : c ≤ n := by
  unfold covered at h
  split at h
  · obtain ⟨_, _, rfl⟩ := map_eq_some_iff.mp h
    exact min_le_right ..
  · cases h

theorem rewriteAt_of_mem (hd : (ms.map Prod.fst).Nodup)
    (hm : (b, m) ∈ ms) (hc : m.covered r.promptLen = some c) :
    rewriteAt ms b r = if c ≤ 1 then r else { r with numComputedTokens := c - 1 } := by
  rw [rewriteAt, dictGet_of_mem hd hm]
  simp only [rewrite, hc]

def Welcome (matchResults : List (Nat × MatchResult κ)) (out : SchedulerOutput) (b t : Nat) : Prop :=
  (∃ m, (b, m) ∈ matchResults ∧ m.matched = true) ∧
    (stepRows matchResults out)[t]? = some (out.cachedReqs.length + b, 0)

theorem isolated_of_aligned (hd : (ms.map Prod.fst).Nodup) (h : Aligned ms out pad) :
    Isolated ms out pad := by
  have hl : ∀ item ∈ buildInjectionMap (labels ms) out.newReqs, ∃ t, item.2 = named item.1 1 t ∧
      ((ownRows ((stepRows ms out).length + pad)).length ≤ t ∨ Welcome ms out item.1 t) := by
    intro item hie
    obtain ⟨m, r, c, hm, hr, hc, hpos, hinj⟩ := mem_buildInjectionMap.mp hie
    obtain ⟨rfl, hpl⟩ := h item.1 m r c hm hr hc hpos
    refine ⟨_, hinj, ?_⟩
    rcases hpl with hbe | ⟨hst, hsc, hzero⟩
    · left
      rwa [ownRows, length_map, length_range, length_stepRows]
    · refine .inr ⟨⟨m, hm, m.matched_of_covered hc⟩, (stepRows_new_zero hd hr).mpr ⟨hst, hsc, ?_⟩⟩
      rw [rewriteAt_of_mem hd hm hc, if_pos (le_refl 1), hzero]
  obtain ⟨rows, hrun, hro⟩ := injectIntoKv_single hl
  refine ⟨rows, rows, by rw [buildInjectionMap_rewrite]; exact hrun, fun r hr => ?_⟩
  rcases hro r with hon | ⟨b, ⟨⟨m, hm, hma⟩, hrow⟩, hca⟩
  · have hself : rows[r]? = some (.row r) := by
      rw [hon, ownRows, getElem?_map, getElem?_range hr]
      rfl
    exact .inl ⟨hself, hself⟩
  · exact .inr ⟨b, 0, m, hm, hma, hrow, hca, hca⟩

theorem entries_apart {m' : MatchResult κ} (hb : b ≠ b')
    (hr : out.newReqs[b]? = some r) (hr' : out.newReqs[b']? = some r') (hc : m.covered r.promptLen = some c)
    (hc' : m'.covered r'.promptLen = some c') (hp : 0 < c) :
    Ragged.start (out.newReqs.map NewReq.promptLen) b < Ragged.start (out.newReqs.map NewReq.promptLen) b' ∨
      Ragged.start (out.newReqs.map NewReq.promptLen) b' + c' ≤ Ragged.start (out.newReqs.map NewReq.promptLen) b := by
  have hl : (out.newReqs.map NewReq.promptLen)[b]? = some r.promptLen := by simp [hr]
  have hl' : (out.newReqs.map NewReq.promptLen)[b']? = some r'.promptLen := by simp [hr']
  have hle := m.covered_le hc
  have hle' := m'.covered_le hc'
  rcases lt_or_gt_of_ne hb with hlt | hgt
  · have h := Ragged.start_add_le hl hlt
    exact .inl (by omega)
  · have h := Ragged.start_add_le hl' hgt
    exact .inr (by omega)

theorem aligned_of_isolated (hd : (ms.map Prod.fst).Nodup) (h : Isolated ms out pad) :
    Aligned ms out pad := by
  intro b m r c hm hr hc hpos
  obtain ⟨key, value, hrun, hro⟩ := h
  rw [buildInjectionMap_rewrite] at hrun
  have hmem : (b, named b c (Ragged.start (out.newReqs.map NewReq.promptLen) b)) ∈
      buildInjectionMap (labels ms) out.newReqs :=
    mem_buildInjectionMap.mpr ⟨m, r, c, hm, hr, hc, hpos, rfl⟩
  obtain ⟨hfits, hfirst⟩ := injectIntoKv_spec hrun fun item hi => by
    obtain ⟨m', r', c', hm', hr', hc', hpos', hinj⟩ := mem_buildInjectionMap.mp hi
    refine ⟨c', _, hpos', hinj, ?_⟩
    by_cases hb : item.1 = b
    · left
      rw [hb] at hm' hr'
      have hmm : m' = m := Option.some.inj ((dictGet_of_mem hd hm').symm.trans (dictGet_of_mem hd hm))
      have hrr : r' = r := Option.some.inj (hr'.symm.trans hr)
      rw [hmm, hrr] at hc'
      exact ⟨hb, Option.some.inj (hc'.symm.trans hc), by rw [hb]⟩
    · exact .inr (entries_apart (Ne.symm hb) hr hr' hc hc' hpos)
  have hft := hfits _ hmem
  have hlen : (ownRows ((stepRows ms out).length + pad)).length =
      (out.batch.map Entry.numScheduledTokens).sum + pad := by
    rw [ownRows, length_map, length_range, length_stepRows]
  rw [hlen] at hft
  rcases lt_or_ge (Ragged.start (out.newReqs.map NewReq.promptLen) b)
    ((out.batch.map Entry.numScheduledTokens).sum + pad) with hlt | hge
  · -- the entry replaces a row, which then has to be the first one of its own request
    have hfi := hfirst (.inr ⟨hlen ▸ hlt, hmem⟩)
    have hrow : (stepRows ms out)[Ragged.start (out.newReqs.map NewReq.promptLen) b]? =
        some (out.cachedReqs.length + b, 0) := by
      rw [← @length_stepRows _ ms out] at hlt
      rcases hro _ hlt with ⟨hon, -⟩ | ⟨b', p, _, -, -, hrow, hkey, -⟩
      · exact absurd (hfi.symm.trans hon) (by simp)
      have heq := Option.some.inj (hfi.symm.trans hkey)
      cases heq
      exact hrow
    obtain ⟨hst, hsc, hzero⟩ := (stepRows_new_zero hd hr).mp hrow
    rw [rewriteAt_of_mem hd hm hc] at hzero
    split at hzero
    · exact ⟨by omega, .inr ⟨hst, hsc, hzero⟩⟩
    · dsimp only at hzero
      omega
  · refine ⟨?_, .inl hge⟩
    have : c ≤ 1 ∨ Ragged.start (out.newReqs.map NewReq.promptLen) b + c ≤
      (out.batch.map Entry.numScheduledTokens).sum + pad := hft
    omega

/-! ## From names to rows -/

section
variable {α β : Type} {γ : Type}

theorem setSlice_map (f : α → β) (rows : List α) (start stop : Nat) (src : List α) :
    setSlice (rows.map f) start stop (src.map f) = (setSlice rows start stop src).map (map f) := by
  simp only [setSlice, length_map]
  split
  · simp [Except.map, map_take, map_drop]
  match src with
  | [] => rfl
  | [a] => simp [Except.map, map_take, map_drop]
  | _ :: _ :: _ => rfl

def Injection.map (f g : α → β) (inj : Injection α) : Injection β :=
  ⟨inj.kFlat.map f, inj.vFlat.map g, inj.tokStart, inj.covered⟩

theorem injectEntry_map (f g : α → β) (kv : List α × List α) (b : Nat) (inj : Injection α) :
    injectEntry (kv.1.map f, kv.2.map g) (b, inj.map f g) =
      (injectEntry kv (b, inj)).map (Prod.map (map f) (map g)) := by
  simp only [injectEntry, Injection.map, setSlice_map]
  split
  · cases setSlice kv.1 inj.tokStart (inj.tokStart + inj.covered) inj.kFlat with
    | error e => rfl
    | ok key => cases setSlice kv.2 inj.tokStart (inj.tokStart + inj.covered) inj.vFlat <;> rfl
  · rfl

theorem injectIntoKv_map (f g : α → β) (l : List (Nat × Injection α)) (kv : List α × List α) :
    injectIntoKv (l.map fun (b, inj) => (b, inj.map f g)) (kv.1.map f, kv.2.map g) =
      (injectIntoKv l kv).map (Prod.map (map f) (map g)) := by
  induction l generalizing kv with
  | nil => rfl
  | cons item l ih =>
    obtain ⟨b, inj⟩ := item
    simp only [injectIntoKv, map_cons, foldlM_cons] at ih ⊢
    rw [injectEntry_map]
    cases injectEntry kv (b, inj) with
    | error e => rfl
    | ok kv' => exact ih kv'

variable [Zero γ] {ms : List (Nat × MatchResult γ)}

def Origin.rowIn (part : CachedKv γ → List γ) (matchResults : List (Nat × MatchResult γ)) (own : List γ) : Origin → γ
  | .row r => own.getD r 0
  | .cached b p => (((dictGet b matchResults).bind MatchResult.cached).map fun c => (part c).getD p 0).getD 0
  | .zero => 0

theorem map_ownRows (part : CachedKv γ → List γ) (own : List γ) :
    (ownRows own.length).map (Origin.rowIn part ms own) = own := by
  rw [ownRows, map_map]
  exact (Packed.gather_range 0 _ own (le_refl _)).trans take_length

section
variable (hd : (ms.map Prod.fst).Nodup)
include hd

theorem map_names
    {matched : Bool} {c : CachedKv γ} (hm : (b, ⟨matched, some c⟩) ∈ ms) (hn : n ≤ (part c).length) :
    (names b n).map (Origin.rowIn part ms own) = (part c).take n := by
  rw [names, map_map, ← Packed.gather_range 0 n _ hn]
  refine map_congr_left fun p _ => ?_
  simp only [Function.comp, Origin.rowIn, dictGet_of_mem hd hm, bind_some, map_some, getD_some]

theorem injectionOf_names (nr : List NewReq) (key value : List γ) {m : MatchResult γ} (hm : (b, m) ∈ ms) :
    injectionOf nr b m = (injectionOf nr b (m.labelled b)).map
      (Injection.map (Origin.rowIn CachedKv.k ms key) (Origin.rowIn CachedKv.v ms value)) := by
  obtain ⟨matched, cached⟩ := m
  simp only [injectionOf, labelled]
  cases matched with
  | false => rfl
  | true =>
    cases cached with
    | none => rfl
    | some c =>
      cases nr[b]? with
      | none => rfl
      | some r =>
        have hle : min c.k.length r.promptLen ≤ c.k.length := min_le_left ..
        have hle' : min c.k.length r.promptLen ≤ c.v.length := c.sameLength ▸ hle
        simp only [if_true, map_some, CachedKv.double, length_names]
        split
        · rfl
        · simp only [map_some, Injection.map, alignLength_of_le hle, alignLength_of_le hle', alignLength_names hle,
            map_names hd hm hle, map_names hd hm hle']

theorem injectIntoKv_labels (nr : List NewReq) (hl : value.length = key.length) :
    injectIntoKv (buildInjectionMap ms nr) (key, value) =
      (injectIntoKv (buildInjectionMap (labels ms) nr) (ownRows key.length, ownRows key.length)).map
        (Prod.map (map (Origin.rowIn CachedKv.k ms key))
          (map (Origin.rowIn CachedKv.v ms value))) := by
  have hmap : buildInjectionMap ms nr = (buildInjectionMap (labels ms) nr).map
      fun (b, inj) => (b, inj.map (Origin.rowIn CachedKv.k ms key)
        (Origin.rowIn CachedKv.v ms value)) := by
    rw [buildInjectionMap, buildInjectionMap, labels, filterMap_map, map_filterMap]
    apply filterMap_congr
    rintro ⟨b, m⟩ hm
    simp only [Function.comp]
    rw [injectionOf_names hd nr key value hm, Option.map_map, Option.map_map]
    rfl
  rw [hmap, ← injectIntoKv_map, map_ownRows]
  rw [← hl, map_ownRows]

theorem Isolated.unchanged (h : Isolated ms out pad)
    (hkey : key.length = (stepRows ms out).length + pad) (hva : value.length = key.length) :
    ∃ key' value',
      injectIntoKv (buildInjectionMap ms (rewriteSchedulerOutput ms out).newReqs) (key, value) =
        .ok (key', value') ∧
      ∀ r i p : Nat, (stepRows ms out)[r]? = some (i, p) →
        (∀ b m, (b, m) ∈ ms → m.matched = true → i ≠ out.cachedReqs.length + b) →
        key'[r]? = key[r]? ∧ value'[r]? = value[r]? := by
  obtain ⟨ks, vs, hrun, hro⟩ := h
  rw [← hkey] at hrun hro
  refine ⟨_, _, by rw [injectIntoKv_labels hd _ hva, hrun]; rfl, fun r i p hrow hot => ?_⟩
  have hr : r < key.length := by
    have := lt_of_getElem? hrow
    omega
  rcases hro r hr with ⟨hk, hv⟩ | ⟨b, p', m, hm, hma, hrow', -⟩
  · have hr' : r < value.length := hva ▸ hr
    simp [hk, hv, Origin.rowIn, getD_eq_getElem?_getD, hr, hr']
  rw [hrow] at hrow'
  cases hrow'
  exact absurd rfl (hot b m hm hma)

end

end

/-! ## Where the injection keeps to its own rows -/

/-- Exactly if the matches are of one token and fall on the first rows of their requests. -/
theorem injection_isolated {matchResults : List (Nat × MatchResult κ)} (hd : (matchResults.map Prod.fst).Nodup)
    (out : SchedulerOutput) (padding : Nat) :
    Isolated matchResults out padding ↔ Aligned matchResults out padding :=
  ⟨aligned_of_isolated hd, isolated_of_aligned hd⟩

end

def taskMatch (n : Nat) : MatchResult Nat := ⟨true, some (.double (List.range n))⟩

theorem injection_isolated_oneToken : Isolated [(0, taskMatch 1)] ⟨[], [⟨7, 1, 0, 1⟩]⟩ 3 := by
  refine (injection_isolated (by decide) _ _).mpr fun b m r covered hm hr hc _ => ?_
  cases mem_singleton.mp hm
  cases hr
  cases hc
  exact ⟨rfl, .inr (by decide)⟩

theorem unchanged_second : ∃ kv, injectIntoKv (buildInjectionMap [(0, taskMatch 1)] [⟨7, 1, 1, 1⟩, ⟨8, 1, 0, 1⟩])
    ([4, 5], [4, 5]) = .ok kv ∧ kv.1[1]? = some 5 := by
  have ha : Aligned [(0, taskMatch 1)] ⟨[], [⟨7, 1, 0, 1⟩, ⟨8, 1, 0, 1⟩]⟩ 0 := fun b m r covered hm hr hc _ => by
    cases mem_singleton.mp hm
    cases hr
    cases hc
    exact ⟨rfl, .inr (by decide)⟩
  obtain ⟨k, v, h, hr⟩ := (isolated_of_aligned (by decide) ha).unchanged (by decide)
    (rfl : [4, 5].length = 2) (rfl : [4, 5].length = 2)
  exact ⟨(k, v), h, (hr 1 1 0 rfl (by simp)).1⟩

/-- A match of two tokens, and a match of one behind a running request. -/
theorem injection_misplaced : ¬ Isolated [(0, taskMatch 2)] ⟨[], [⟨7, 2, 0, 2⟩]⟩ 0 ∧
    ¬ Isolated [(0, taskMatch 1)] ⟨[⟨5, 9, 1, false⟩], [⟨7, 1, 0, 1⟩]⟩ 0 := by
  constructor
  all_goals
    rintro ⟨key, value, hrun, hro⟩
    cases hrun
    rcases hro 0 (by decide) with ⟨h, -⟩ | ⟨b, p, m, -, -, hr, hk, -⟩
    · cases h
    · cases hk
      cases hr

end VllmAscend.SimLlm
