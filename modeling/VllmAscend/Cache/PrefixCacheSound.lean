import Mathlib.Data.List.Count
import VllmAscend.Cache.PrefixCache

/-!
# The prefix cache keeps its pages apart

`CacheInv c held` relates the reference counts and the prefix index to the list
`held` of page references that are out, whoever holds them: a half-filled
allocation or the tables of the active batch.
-/

namespace VllmAscend

open Python Function Option Nat
open List hiding getElem?_eq_some_iff

variable {c : NativePrefixCache} {b lb bs : Nat} {tb : PageTable}

namespace NativePrefixCache

structure CacheInv (c : NativePrefixCache) (held : List Nat) : Prop where
  ref : ∀ b < c.numBlocks, (c.blocks b).refCount = held.count b
  lt : ∀ b ∈ held, b < c.numBlocks
  index : ∀ k b, c.prefixToBlock k = some b ↔ b < c.numBlocks ∧ (c.blocks b).prefixKey = some k
  unshared : ∀ b < c.numBlocks, (c.blocks b).prefixKey = none → held.count b ≤ 1

structure SameKeys (c c' : NativePrefixCache) (held : List Nat) : Prop where
  numBlocks : c'.numBlocks = c.numBlocks
  blocksPerSequence : c'.blocksPerSequence = c.blocksPerSequence
  blockSize : c'.blockSize = c.blockSize
  activeTables : c'.activeTables = c.activeTables
  keys : ∀ b ∈ held, (c'.blocks b).prefixKey = (c.blocks b).prefixKey

variable {c' : NativePrefixCache} {k pr : List Int} {key : Option (List Int)}

theorem SameKeys.rfl : SameKeys c c held := ⟨.refl _, .refl _, .refl _, .refl _, fun _ _ => .refl _⟩

theorem SameKeys.trans (h : SameKeys c1 c2 held)
    (h' : SameKeys c2 c3 held') (hs : ∀ b ∈ held, b ∈ held') : SameKeys c1 c3 held :=
  ⟨h'.numBlocks.trans h.numBlocks, h'.blocksPerSequence.trans h.blocksPerSequence,
    h'.blockSize.trans h.blockSize, h'.activeTables.trans h.activeTables,
    fun b hb => (h'.keys b (hs b hb)).trans (h.keys b hb)⟩

theorem CacheInv.perm (h : CacheInv c held) (hp : held.Perm held') : CacheInv c held' where
  ref b hb := by rw [h.ref b hb, hp.count_eq]
  lt b hb := h.lt b (hp.mem_iff.mpr hb)
  index := h.index
  unshared b hb hk := by rw [← hp.count_eq]; exact h.unshared b hb hk

theorem CacheInv.tick (h : CacheInv c held) : CacheInv { c with clock := c.clock + 1 } held :=
  ⟨h.ref, h.lt, h.index, h.unshared⟩

theorem CacheInv.mem_freeBlocks (h : CacheInv c held) (b : Nat) : b ∈ c.freeBlocks ↔ b < c.numBlocks ∧ b ∉ held := by
  unfold freeBlocks
  simp only [mem_filter, mem_range, decide_eq_true_eq]
  constructor
  · rintro ⟨hb, hr⟩
    rw [h.ref b hb] at hr
    exact ⟨hb, count_eq_zero.mp (by exact_mod_cast hr)⟩
  · rintro ⟨hb, hn⟩
    exact ⟨hb, by rw [h.ref b hb, count_eq_zero.mpr hn]; rfl⟩

/-! ## Acquiring a page -/

inductive Acquires (c : NativePrefixCache) (key : Option (List Int)) :
    Except PyError (Nat × Bool) × NativePrefixCache → Prop
  | hit {b : Nat} : key.bind c.prefixToBlock = some b → Acquires c key (.ok (b, true), c.shareBlock b)
  | miss {b : Nat} : key.bind c.prefixToBlock = none → c.freeBlocks.argmin c.reuseKey = some b →
    Acquires c key (.ok (b, false), c.takeBlock key b)
  | full {e : PyError} : c.freeBlocks = [] → Acquires c key (.error e, c)

theorem acquires (c : NativePrefixCache) (key : Option (List Int)) :
    Acquires { c with clock := c.clock + 1 } key (c.acquireBlock key) := by
  unfold acquireBlock
  simp only
  split
  · exact .hit ‹_›
  split
  · exact .full (argmin_eq_none.mp ‹_›)
  · exact .miss ‹_› ‹_›

theorem acquireBlock_untouched (ha : c.acquireBlock key = (.ok (b, hit), c')) (hne : b' ≠ b) :
    c'.blocks b' = c.blocks b' := by
  cases ha ▸ acquires c key with
  | hit _ => simp [shareBlock, update_of_ne hne]
  | miss _ _ => simp [takeBlock, update_of_ne hne]

section
variable (h : CacheInv c held)
include h

theorem CacheInv.share (hk : c.prefixToBlock k = some b) : CacheInv (c.shareBlock b) (held ++ [b]) := by
  obtain ⟨hb, hkey⟩ := (h.index k b).mp hk
  have hke : ∀ b', ((c.shareBlock b).blocks b').prefixKey = (c.blocks b').prefixKey := by
    intro b'
    by_cases e : b' = b
    · subst e; simp [shareBlock]
    · simp [shareBlock, update_of_ne e]
  refine ⟨fun b' hb' => ?_, fun b' hb' => ?_, fun k' b' => ?_, fun b' hb' hn => ?_⟩
  · by_cases e : b' = b
    · subst e; simp [shareBlock, h.ref b' hb, count_append]
    · simp [shareBlock, update_of_ne e, h.ref b' hb', count_append, Ne.symm e]
  · rcases mem_append.mp hb' with hm | hm
    · exact h.lt b' hm
    · rw [mem_singleton.mp hm]; exact hb
  · rw [hke b']; exact h.index k' b'
  · rw [hke b'] at hn
    have e : b' ≠ b := fun e => by rw [e, hkey] at hn; cases hn
    simpa [count_append, Ne.symm e] using h.unshared b' hb' hn

theorem evictBlock_iff (hb : b < c.numBlocks) (k : List Int) (b' : Nat) :
    c.evictBlock b k = some b' ↔ b' ≠ b ∧ b' < c.numBlocks ∧ (c.blocks b').prefixKey = some k := by
  unfold evictBlock
  cases hk : (c.blocks b).prefixKey with
  | none =>
    rw [h.index k b']
    refine ⟨fun hh => ⟨fun e => ?_, hh⟩, fun hh => hh.2⟩
    rw [e, hk] at hh; cases hh.2
  | some old =>
    by_cases e : k = old
    · subst e
      simp only [update_self, reduceCtorEq, false_iff]
      rintro ⟨hne, hlt, hk'⟩
      have hb' : c.prefixToBlock k = some b' := (h.index k b').mpr ⟨hlt, hk'⟩
      rw [(h.index k b).mpr ⟨hb, hk⟩] at hb'
      exact hne (some.inj hb').symm
    · simp only [update_of_ne e, h.index k b']
      refine ⟨fun hh => ⟨fun e' => ?_, hh⟩, fun hh => hh.2⟩
      rw [e', hk] at hh; exact e (some.inj hh.2).symm

theorem CacheInv.take (hb : b < c.numBlocks) (hf : b ∉ held) (hkey : key.bind c.prefixToBlock = none) :
    CacheInv (c.takeBlock key b) (held ++ [b]) := by
  have hne : ∀ b', b' ≠ b → (c.takeBlock key b).blocks b' = c.blocks b' := fun b' e => by
    simp [takeBlock, update_of_ne e]
  have hself : (c.takeBlock key b).blocks b = { prefixKey := key, refCount := 1, lastUsed := c.clock } := by
    simp [takeBlock]
  refine ⟨fun b' hb' => ?_, fun b' hb' => ?_, fun k b' => ?_, fun b' hb' hn => ?_⟩
  · by_cases e : b' = b
    · subst e; rw [hself]; simp [count_append, count_eq_zero.mpr hf]
    · rw [hne b' e, h.ref b' hb']; simp [count_append, Ne.symm e]
  · rcases mem_append.mp hb' with hm | hm
    · exact h.lt b' hm
    · rw [mem_singleton.mp hm]; exact hb
  · -- a key maps to `b` iff it is the new one, and to any other page as before the eviction
    have hold : (c.takeBlock key b).prefixToBlock k = some b' ↔
        (key = some k ∧ b' = b) ∨ (key ≠ some k ∧ b' ≠ b ∧ b' < c.numBlocks ∧ (c.blocks b').prefixKey = some k) := by
      cases key with
      | none => simpa [takeBlock] using evictBlock_iff h hb k b'
      | some k0 =>
        by_cases e : k = k0
        · subst e; simp [takeBlock, eq_comm]
        · simp only [takeBlock, update_of_ne e, evictBlock_iff h hb k b', some.injEq, Ne.symm e,
            false_and, ne_eq, not_false_eq_true, true_and, false_or]
    rw [hold]
    by_cases e : b' = b
    · subst e; rw [hself]; simp [takeBlock, hb]
    rw [hne b' e]
    constructor
    · rintro (⟨_, h2⟩ | ⟨_, _, h3⟩)
      · exact absurd h2 e
      · exact h3
    · rintro ⟨h1, h2⟩
      refine .inr ⟨fun hk => ?_, e, h1, h2⟩
      have := (h.index k b').mpr ⟨h1, h2⟩
      rw [hk, bind_some, this] at hkey; cases hkey
  · by_cases e : b' = b
    · subst e; simp [count_append, count_eq_zero.mpr hf]
    · rw [hne b' e] at hn
      simpa [count_append, Ne.symm e] using h.unshared b' hb' hn

theorem acquireBlock_ok (ha : c.acquireBlock key = (.ok (b, hit), c')) :
    CacheInv c' (held ++ [b]) ∧ SameKeys c c' held ∧ (c'.blocks b).prefixKey = key := by
  cases ha ▸ acquires c key with
  | hit hk =>
    obtain ⟨k, rfl, hk⟩ := bind_eq_some_iff.mp hk
    have hkey := (h.index k b).mp hk
    refine ⟨h.tick.share hk, ⟨rfl, rfl, rfl, rfl, fun b' _ => ?_⟩, ?_⟩
    · by_cases e : b' = b
      · subst e; simp [shareBlock]
      · simp [shareBlock, update_of_ne e]
    · simp [shareBlock, hkey.2]
  | miss hk hm =>
    obtain ⟨hb, hf⟩ := (h.tick.mem_freeBlocks b).mp (argmin_mem hm)
    refine ⟨h.tick.take hb hf hk, ⟨rfl, rfl, rfl, rfl, fun b' hb' => ?_⟩, by simp [takeBlock]⟩
    have e : b' ≠ b := fun e => hf (e ▸ hb')
    simp [takeBlock, update_of_ne e]

theorem acquireBlock_none_index (ha : c.acquireBlock none = (.ok (b, hit), c'))
    (hk : c'.prefixToBlock k = some b') : c.prefixToBlock k = some b' := by
  obtain ⟨hinv, hsame, hkey⟩ := acquireBlock_ok h ha
  obtain ⟨hlt, hkey'⟩ := (hinv.index k b').mp hk
  have hne : b' ≠ b := by
    rintro rfl
    rw [hkey] at hkey'
    cases hkey'
  rw [acquireBlock_untouched ha hne] at hkey'
  exact (h.index k b').mpr ⟨hsame.numBlocks ▸ hlt, hkey'⟩

theorem acquireBlock_error (ha : c.acquireBlock key = (.error e, c')) : CacheInv c' held ∧ SameKeys c c' held := by
  cases ha ▸ acquires c key
  exact ⟨h.tick, ⟨rfl, rfl, rfl, rfl, fun _ _ => rfl⟩⟩

end

/-! ## Dropping references -/

theorem CacheInv.drop (h : CacheInv c (b :: held)) : CacheInv (c.dropRef b) held := by
  have hb : b < c.numBlocks := h.lt b (by simp)
  have hk : ∀ b', ((c.dropRef b).blocks b').prefixKey = (c.blocks b').prefixKey := by
    intro b'
    by_cases e : b' = b
    · subst e; simp [dropRef]
    · simp [dropRef, update_of_ne e]
  refine ⟨fun b' hb' => ?_, fun b' hb' => h.lt b' (by simp [hb']), fun k b' => ?_, fun b' hb' hn => ?_⟩
  · by_cases e : b' = b
    · subst e; simp [dropRef, h.ref b' hb]
    · simp [dropRef, update_of_ne e, h.ref b' hb', Ne.symm e]
  · rw [hk b']; exact h.index k b'
  · rw [hk b'] at hn
    have := h.unshared b' hb' hn
    rw [count_cons] at this; omega

theorem CacheInv.rollback : ∀ {held : List Nat} {c : NativePrefixCache}, CacheInv c held →
    CacheInv (held.foldl dropRef c) []
  | [], _, h => h
  | _ :: _, _, h => by
    rw [foldl_cons]
    exact CacheInv.rollback h.drop

theorem rollback_fields (held : List Nat) (c : NativePrefixCache) :
    (held.foldl dropRef c).numBlocks = c.numBlocks ∧ (held.foldl dropRef c).blocksPerSequence = c.blocksPerSequence ∧
      (held.foldl dropRef c).blockSize = c.blockSize ∧ (held.foldl dropRef c).activeTables = c.activeTables := by
  induction held generalizing c with
  | nil => exact ⟨rfl, rfl, rfl, rfl⟩
  | cons b held ih => exact ih (c.dropRef b)

/-! ## Page tables -/

abbrev pages (l : List (Option Nat)) : List Nat := l.filterMap id

def TableOk (c : NativePrefixCache) (prompt : List Int) (table : PageTable) : Prop :=
  table.length = c.blocksPerSequence ∧ ∀ lb b, table[lb]? = some (some b) → ∀ k, (c.blocks b).prefixKey = some k →
    (lb + 1) * c.blockSize < prompt.length ∧ k = prompt.take ((lb + 1) * c.blockSize)

theorem TableOk.same (h : TableOk c pr tb) (hs : SameKeys c c' held) (hp : ∀ b, some b ∈ tb → b ∈ held) :
    TableOk c' pr tb := by
  refine ⟨h.1.trans hs.blocksPerSequence.symm, fun lb b hb k hk => ?_⟩
  rw [hs.keys b (hp b (mem_of_getElem? hb))] at hk
  rw [hs.blockSize]
  exact h.2 lb b hb k hk

theorem pages_set (h : tb[lb]? = some none) : (pages (tb.set lb (some b))).Perm (pages tb ++ [b]) := by
  induction tb generalizing lb with
  | nil => cases h
  | cons e tb ih =>
    cases lb with
    | zero =>
      rw [getElem?_cons_zero, some.injEq] at h
      subst h
      simpa [pages] using (perm_append_singleton b _).symm
    | succ lb =>
      have := ih h
      cases e with
      | none => simpa [pages] using this
      | some a => simpa [pages] using this

theorem blockKey_spec (hbs : 0 < bs) (h : blockKey bs enable pr lb = some k) :
    (lb + 1) * bs < pr.length ∧ k = pr.take ((lb + 1) * bs) := by
  unfold blockKey at h
  simp only at h
  split at h
  · rename_i hc
    refine ⟨?_, (some.inj h).symm⟩
    have h1 : (lb + 1) * bs ≤ pr.length - 1 := by
      rw [← le_div_iff_mul_le hbs]; exact hc.2
    have h2 : 0 < (lb + 1) * bs := mul_pos (succ_pos _) hbs
    omega
  · cases h

structure Grown (enable : Bool) (c c' : NativePrefixCache) (acquired acquired' : List Nat) : Prop where
  inv : CacheInv c' acquired'
  same : SameKeys c c' acquired
  sub : ∀ b ∈ acquired, b ∈ acquired'
  index : enable = false → ∀ k b, c'.prefixToBlock k = some b → c.prefixToBlock k = some b

theorem Grown.refl (hi : CacheInv c acq) : Grown enable c c acq acq :=
  ⟨hi, SameKeys.rfl, fun _ hb => hb, fun _ _ _ hk => hk⟩

theorem Grown.trans (h : Grown enable c1 c2 l1 l2) (h' : Grown enable c2 c3 l2 l3) : Grown enable c1 c3 l1 l3 :=
  ⟨h'.inv, h.same.trans h'.same h.sub, fun b hb => h'.sub b (h.sub b hb), fun he k b hk => h.index he k b (h'.index he k b hk)⟩

theorem fillTable_spec (hbs : 0 < c.blockSize)
    (hi : CacheInv c acq) (ht : TableOk c pr tb) (hp : ∀ b, some b ∈ tb → b ∈ acq)
    (hn : todo.Nodup) (he : ∀ lb ∈ todo, tb[lb]? = some none)
    (h : fillTable enable pr todo c acq tb cached = (r, c', acquired')) :
    Grown enable c c' acq acquired' ∧
      ∀ tb' n, r = .ok (tb', n) → TableOk c' pr tb' ∧ (∀ b, some b ∈ tb' → b ∈ acquired') ∧
        (acquired' ++ pages tb).Perm (acq ++ pages tb') ∧ (enable = false → n = cached) := by
  induction todo generalizing c acq tb cached with
  | nil =>
    obtain ⟨rfl, rfl, rfl⟩ := h
    refine ⟨.refl hi, fun tb' n e => ?_⟩
    cases e
    exact ⟨ht, hp, List.Perm.refl _, fun _ => rfl⟩
  | cons lb todo ih =>
    rw [fillTable] at h
    split at h
    · rename_i e c1 ha
      obtain ⟨rfl, rfl, rfl⟩ := h
      obtain ⟨h1, h2⟩ := acquireBlock_error hi ha
      cases ha ▸ acquires c _
      exact ⟨⟨h1, h2, fun _ hb => hb, fun _ _ _ hk => hk⟩, fun _ _ e => by cases e⟩
    · rename_i b hit c1 ha
      obtain ⟨hi1, hs1, hk1⟩ := acquireBlock_ok hi ha
      have hlb : tb[lb]? = some none := he lb (by simp)
      have hlt : lb < tb.length := lt_of_getElem? hlb
      have ht1 : TableOk c1 pr (tb.set lb (some b)) := by
        have h0 := ht.same hs1 hp
        refine ⟨by rw [length_set]; exact h0.1, fun lb' b' hb' k hk => ?_⟩
        by_cases e : lb = lb'
        · subst e
          rw [getElem?_set_self hlt] at hb'
          cases hb'
          rw [hk1] at hk
          rw [hs1.blockSize]
          exact blockKey_spec hbs hk
        · rw [getElem?_set_ne e] at hb'
          exact h0.2 lb' b' hb' k hk
      have hp1 : ∀ b', some b' ∈ tb.set lb (some b) → b' ∈ acq ++ [b] := by
        intro b' hb'
        rcases mem_or_eq_of_mem_set hb' with hm | hm
        · exact mem_append_left _ (hp b' hm)
        · cases hm; simp
      have he1 : ∀ lb' ∈ todo, (tb.set lb (some b))[lb']? = some none := by
        intro lb' hb'
        have e : lb ≠ lb' := fun e => (nodup_cons.mp hn).1 (e ▸ hb')
        rw [getElem?_set_ne e]
        exact he lb' (by simp [hb'])
      obtain ⟨g, hok⟩ := ih (by rw [hs1.blockSize]; exact hbs) hi1 ht1 hp1 (nodup_cons.mp hn).2 he1 h
      have hno : enable = false → c.acquireBlock none = (.ok (b, hit), c1) := by
        rintro rfl
        simpa [blockKey] using ha
      have g1 : Grown enable c c1 acq (acq ++ [b]) :=
        ⟨hi1, hs1, fun b' hb' => mem_append_left _ hb', fun he k b hk => acquireBlock_none_index hi (hno he) hk⟩
      refine ⟨g1.trans g, fun tb' n e => ?_⟩
      obtain ⟨f1, f2, f3, f4⟩ := hok tb' n e
      refine ⟨f1, f2, ?_, fun he => ?_⟩
      swap
      · cases hno he ▸ acquires c none with
        | hit hk => cases hk
        | miss _ _ => exact f4 he
      -- both sides gain the page `b`, which cancels
      have hset := pages_set (b := b) hlb
      have h4 : (acquired' ++ (pages tb ++ [b])).Perm (acq ++ [b] ++ pages tb') :=
        ((List.Perm.append_left acquired' hset).symm).trans f3
      have h5 : (acq ++ [b] ++ pages tb').Perm (acq ++ pages tb' ++ [b]) := by
        rw [append_assoc, append_assoc]
        exact List.Perm.append_left acq (perm_append_comm)
      have h6 := h4.trans h5
      rw [← append_assoc] at h6
      exact (perm_append_right_iff [b]).mp h6

theorem tableOk_empty (c : NativePrefixCache) (pr : List Int) :
    TableOk c pr (List.replicate c.blocksPerSequence none) := by
  refine ⟨length_replicate, fun lb b hb => ?_⟩
  have := mem_of_getElem? hb
  simp at this

theorem pages_replicate_none (n : Nat) : pages (List.replicate n none) = [] := by
  simp [pages]

theorem numPromptBlocks_le (hbs : 0 < bs) (h : ¬ pr.length > bps * bs) : numPromptBlocks bs pr ≤ bps := by
  unfold numPromptBlocks
  rw [div_le_iff_le_mul_add_pred hbs, mul_comm]
  omega

theorem fillTables_spec (hbs : 0 < c.blockSize) (hi : CacheInv c acq)
    (h : fillTables enable ps c acq = (r, c', acquired')) :
    Grown enable c c' acq acquired' ∧
      ∀ tbs cts, r = .ok (tbs, cts) → List.Forall₂ (TableOk c') ps tbs ∧
        acquired'.Perm (acq ++ pages tbs.flatten) ∧ (enable = false → ∀ n ∈ cts, n = 0) := by
  induction ps generalizing c acq r with
  | nil =>
    obtain ⟨rfl, rfl, rfl⟩ := h
    refine ⟨.refl hi, fun tbs cts e => ?_⟩
    cases e
    exact ⟨List.Forall₂.nil, by simp [pages], fun _ => nofun⟩
  | cons pr ps ih =>
    rw [fillTables] at h
    split at h
    · simp only [Prod.mk.injEq] at h
      obtain ⟨rfl, rfl, rfl⟩ := h
      exact ⟨.refl hi, fun _ _ e => by cases e⟩
    rename_i hlen
    have hem : ∀ lb ∈ List.range (numPromptBlocks c.blockSize pr),
        (List.replicate c.blocksPerSequence (none : Option Nat))[lb]? = some none := by
      intro lb hlb
      have hle := numPromptBlocks_le hbs hlen
      rw [getElem?_replicate_of_lt (by have := mem_range.mp hlb; omega)]
    have hnone : ∀ b, some b ∈ List.replicate c.blocksPerSequence (none : Option Nat) → b ∈ acq := by
      intro b hb; simp at hb
    split at h
    · rename_i e s hf
      obtain ⟨rfl, rfl⟩ := h
      obtain ⟨g, -⟩ := fillTable_spec hbs hi (tableOk_empty c pr) hnone nodup_range hem hf
      exact ⟨g, fun _ _ e => by cases e⟩
    · rename_i tb cached c1 acquired1 hf
      obtain ⟨g1, hok⟩ := fillTable_spec hbs hi (tableOk_empty c pr) hnone nodup_range hem hf
      obtain ⟨ht1, hp1, hperm1, hzero⟩ := hok tb cached rfl
      rw [pages_replicate_none, append_nil] at hperm1
      split at h
      · rename_i e s hr
        obtain ⟨rfl, rfl⟩ := h
        obtain ⟨g, -⟩ := ih (by rw [g1.same.blockSize]; exact hbs) g1.inv hr
        exact ⟨g1.trans g, fun _ _ e => by cases e⟩
      · rename_i tbs cts s hr
        obtain ⟨rfl, rfl⟩ := h
        obtain ⟨g, hok⟩ := ih (by rw [g1.same.blockSize]; exact hbs) g1.inv hr
        refine ⟨g1.trans g, fun tables' counts' e => ?_⟩
        cases e
        obtain ⟨f1, f2, f3⟩ := hok tbs cts rfl
        refine ⟨List.Forall₂.cons (ht1.same g.same hp1) f1, ?_, fun he => forall_mem_cons.mpr ⟨hzero he, f3 he⟩⟩
        rw [flatten_cons, pages, filterMap_append, ← append_assoc]
        exact f2.trans (hperm1.append_right _)

end NativePrefixCache

/-! ## Sessions -/

open NativePrefixCache

/-- The references that are out are the entries of the active tables. -/
structure SessionInv (n bs : Nat) (s : CacheSession) : Prop where
  pos : 0 < s.cache.blockSize
  numBlocks : s.cache.numBlocks = n
  blockSize : s.cache.blockSize = bs
  inv : CacheInv s.cache (pages (s.cache.activeTables.getD []).flatten)
  tables : ∀ ts, s.cache.activeTables = some ts → ∀ (i : Nat) p t, s.prompts[i]? = some p →
    ts[i]? = some t → TableOk s.cache p t

variable {i : Nat}

section

theorem sessionInv_allocate (h : SessionInv n bs s) (ps : List (List Int)) (enable : Bool) :
    SessionInv n bs (s.call (.allocate ps enable)) := by
  simp only [CacheSession.call, allocate]
  cases ha : s.cache.activeTables with
  | some ts => exact ⟨h.pos, h.numBlocks, h.blockSize, h.inv, h.tables⟩
  | none =>
    have hi : CacheInv s.cache [] := by simpa [ha, pages] using h.inv
    cases hf : fillTables enable ps s.cache [] with
    | mk r rest =>
      obtain ⟨c', acq⟩ := rest
      obtain ⟨⟨g1, g2, -, -⟩, g4⟩ := fillTables_spec h.pos hi hf
      cases r with
      | error e =>
        obtain ⟨hn, -, hb, ht⟩ := rollback_fields acq c'
        have hnone : (acq.foldl dropRef c').activeTables = none := by rw [ht, g2.activeTables, ha]
        refine ⟨by rw [hb, g2.blockSize]; exact h.pos, by rw [hn, g2.numBlocks]; exact h.numBlocks,
          by rw [hb, g2.blockSize]; exact h.blockSize, ?_, fun ts e => by simp [hnone] at e⟩
        simpa [hnone, pages] using g1.rollback
      | ok r =>
        obtain ⟨tbs, cts⟩ := r
        obtain ⟨f1, f2, -⟩ := g4 tbs cts rfl
        refine ⟨by rw [g2.blockSize]; exact h.pos, g2.numBlocks.trans h.numBlocks,
          g2.blockSize.trans h.blockSize, ?_, fun ts e => ?_⟩
        · have := g1.perm f2
          exact ⟨this.ref, this.lt, this.index, this.unshared⟩
        · cases e; exact forall₂_getElem? f1

theorem pages_flatten_set {tbs : List PageTable} (ht : tbs[i]? = some tb) (hb : tb[lb]? = some none) :
    (pages (tbs.set i (tb.set lb (some b))).flatten).Perm (pages tbs.flatten ++ [b]) := by
  induction tbs generalizing i with
  | nil => cases ht
  | cons t tbs ih =>
    cases i with
    | zero =>
      rw [getElem?_cons_zero, some.injEq] at ht
      subst ht
      rw [set_cons_zero, flatten_cons, flatten_cons, pages, pages, filterMap_append, filterMap_append, append_assoc]
      exact ((pages_set hb).append_right _).trans (by
        rw [append_assoc]; exact List.Perm.append_left _ perm_append_comm)
    | succ i =>
      rw [set_cons_succ, flatten_cons, flatten_cons, pages, pages, filterMap_append, filterMap_append, append_assoc]
      exact List.Perm.append_left _ (ih ht)

theorem pyIndex_lt {i : Int} (h : pyIndex n i = some j) : j < n := by
  unfold pyIndex at h
  split at h
  · split at h
    · cases h; assumption
    · cases h
  split at h
  · cases h; omega
  · cases h

theorem tableOk_set_none
    (h : TableOk c pr tb) (hb : (c.blocks b).prefixKey = none) : TableOk c pr (tb.set lb (some b)) := by
  refine ⟨by rw [length_set]; exact h.1, fun lb' b' hb' k hk => ?_⟩
  rw [getElem?_set] at hb'
  split at hb'
  · split at hb'
    · cases hb'; rw [hb] at hk; cases hk
    · cases hb'
  · exact h.2 lb' b' hb' k hk

def NativePrefixCache.entry (c : NativePrefixCache) (ts : List PageTable) (sequenceId position : Int) : Option (Nat × Nat) :=
  if sequenceId < 0 ∨ (ts.length : Int) ≤ sequenceId then none
  else if (c.blocksPerSequence : Int) ≤ position / c.blockSize then none
  else (pyIndex (ts.getD sequenceId.toNat []).length (position / c.blockSize)).map (sequenceId.toNat, ·)

inductive Ensured (c : NativePrefixCache) (ts : List PageTable) : Option (Nat × Nat) →
    Except PyError (Option (Nat × Int × Nat)) × NativePrefixCache → Prop
  | refused {e : PyError} : Ensured c ts none (.error e, c)
  | present {i lb b : Nat} {t : PageTable} : ts[i]? = some t → t[lb]? = some (some b) →
    Ensured c ts (some (i, lb)) (.ok none, c)
  | full {i lb : Nat} {t : PageTable} {e : PyError} {c' : NativePrefixCache} : ts[i]? = some t → t[lb]? = some none →
    c.acquireBlock none = (.error e, c') → Ensured c ts (some (i, lb)) (.error e, c')
  | taken {i lb b : Nat} {t : PageTable} {q : Int} {hit : Bool} {c' : NativePrefixCache} : ts[i]? = some t →
    t[lb]? = some none → pyIndex t.length q = some lb → c.acquireBlock none = (.ok (b, hit), c') →
    Ensured c ts (some (i, lb)) (.ok (some (i, q, b)), { c' with activeTables := some (ts.set i (t.set lb (some b))) })

theorem ensured (c : NativePrefixCache) (ts : List PageTable) (sid position : Int) :
    Ensured c ts (c.entry ts sid position) (c.ensurePage ts sid position) := by
  unfold NativePrefixCache.entry ensurePage
  split
  · exact .refused
  simp only
  split
  · exact .refused
  have hta : ts[sid.toNat]? = some (ts.getD sid.toNat []) := by
    rw [getD_eq_getElem?_getD, getElem?_eq_getElem (by omega), getD_some]
  generalize ts.getD sid.toNat [] = t at hta ⊢
  cases hlb : pyIndex t.length (position / c.blockSize) with
  | none => exact .refused
  | some lb =>
    obtain ⟨o, ho⟩ : ∃ o, t[lb]? = some o := ⟨_, getElem?_eq_getElem (pyIndex_lt hlb)⟩
    simp only [map_some, getD_eq_getElem?_getD, ho, getD_some]
    cases o with
    | some b => exact .present hta ho
    | none =>
      cases hq : c.acquireBlock none with
      | mk r c' =>
        cases r with
        | error e => exact .full hta ho hq
        | ok p => exact .taken hta ho hlb hq

theorem sessionInv_ensurePage (h : SessionInv n bs s) {ts : List PageTable}
    (ha : s.cache.activeTables = some ts) (sid position : Int) :
    SessionInv n bs ⟨(s.cache.ensurePage ts sid position).2, s.prompts⟩ ∧
      (s.cache.ensurePage ts sid position).2.activeTables.isSome := by
  have hi : CacheInv s.cache (pages ts.flatten) := by simpa [ha] using h.inv
  have hhe : ∀ (i : Nat) (t : PageTable), ts[i]? = some t → ∀ b, some b ∈ t → b ∈ pages ts.flatten :=
    fun i t ht b hb => mem_filterMap.mpr ⟨some b, mem_flatten.mpr ⟨t, mem_of_getElem? ht, hb⟩, rfl⟩
  have hen := ensured s.cache ts sid position
  generalize s.cache.ensurePage ts sid position = out at hen ⊢
  generalize s.cache.entry ts sid position = en at hen
  cases hen with
  | refused => exact ⟨h, by simp [ha]⟩
  | present => exact ⟨h, by simp [ha]⟩
  | full _ _ hq =>
    obtain ⟨g1, g2⟩ := acquireBlock_error hi hq
    refine ⟨⟨by rw [g2.blockSize]; exact h.pos, g2.numBlocks.trans h.numBlocks,
      g2.blockSize.trans h.blockSize, ?_, fun ts' e' => ?_⟩, by simp [g2.activeTables, ha]⟩
    · rw [g2.activeTables, ha]; exact g1
    · rw [g2.activeTables, ha] at e'
      cases e'
      exact fun i p t hp ht => (h.tables ts ha i p t hp ht).same g2 (hhe i t ht)
  | @taken i0 lb b t0 q hit c' hta hen hlb hq =>
    obtain ⟨g1, g2, g3⟩ := acquireBlock_ok hi hq
    refine ⟨⟨by rw [g2.blockSize]; exact h.pos, g2.numBlocks.trans h.numBlocks,
      g2.blockSize.trans h.blockSize, ?_, fun ts' e' => ?_⟩, by simp⟩
    · have := g1.perm (pages_flatten_set hta hen).symm
      exact ⟨this.ref, this.lt, this.index, this.unshared⟩
    · cases e'
      intro i p t hp ht
      rw [getElem?_set] at ht
      split at ht
      · rename_i e
        subst e
        cases ((if_pos (lt_of_getElem? hta)).symm.trans ht)
        have := (h.tables ts ha _ p _ hp hta).same g2 (hhe _ _ hta)
        exact tableOk_set_none ⟨this.1, this.2⟩ g3
      · have := (h.tables ts ha i p t hp ht).same g2 (hhe i t ht)
        exact ⟨this.1, this.2⟩

theorem ensurePages_inv {P : NativePrefixCache → Prop} (hs : ∀ c, P c → c.activeTables.isSome)
    (h : ∀ c ts sid position, P c → c.activeTables = some ts → P (c.ensurePage ts sid position).2) :
    ∀ (todo : List (Int × Int)) (c : NativePrefixCache), P c → P (ensurePages todo c).2
  | [], _, hc => hc
  | (sid, position) :: todo, c, hc => by
    obtain ⟨ts, hts⟩ := isSome_iff_exists.mp (hs c hc)
    have h1 := h c ts sid position hc hts
    simp only [ensurePages, hts, getD_some]
    cases hp : c.ensurePage ts sid position with
    | mk r c' =>
      rw [hp] at h1
      cases r with
      | error e => exact h1
      | ok u =>
        have := ensurePages_inv hs h todo c' h1
        cases hr : ensurePages todo c' with
        | mk r' c'' => cases r' <;> simpa [hr] using this

theorem sessionInv_ensurePages (ps : List (List Int)) (todo : List (Int × Int)) (c : NativePrefixCache)
    (h : SessionInv n bs ⟨c, ps⟩) (ha : c.activeTables.isSome) : SessionInv n bs ⟨(ensurePages todo c).2, ps⟩ :=
  (ensurePages_inv (P := fun c => SessionInv n bs ⟨c, ps⟩ ∧ c.activeTables.isSome) (fun _ h => h.2)
    (fun _ _ i p h hts => sessionInv_ensurePage h.1 hts i p) todo c ⟨h, ha⟩).1

theorem releasePages_ok : ∀ (l : List (Option Nat)) (c : NativePrefixCache), CacheInv c (pages l) →
    ∃ c', releasePages l c = (.ok (), c') ∧ CacheInv c' [] ∧ c'.numBlocks = c.numBlocks ∧ c'.blockSize = c.blockSize
  | [], c, h => ⟨c, rfl, h, rfl, rfl⟩
  | none :: l, c, h => releasePages_ok l c h
  | some b :: l, c, h => by
    have h1 : CacheInv (c.dropRef b) (pages l) := CacheInv.drop h
    have hb : b < (c.dropRef b).numBlocks := h.lt b (by simp [pages])
    obtain ⟨c', e, hc', hs⟩ := releasePages_ok l (c.dropRef b) h1
    refine ⟨c', ?_, hc', hs⟩
    rw [releasePages]
    simp only [h1.ref b hb]
    exact e

theorem sessionInv_call (h : SessionInv n bs s) : ∀ call : CacheCall, SessionInv n bs (s.call call)
  | .allocate ps enable => sessionInv_allocate h ps enable
  | .ensureCapacity sequenceIds positions => by
    simp only [CacheSession.call, ensureCapacity]
    split
    · exact h
    rename_i ts hts
    split
    · exact h
    · exact sessionInv_ensurePages s.prompts _ s.cache h (by simp [hts])
  | .release => by
    simp only [CacheSession.call, release]
    split
    · exact h
    rename_i ts hts
    have hi : CacheInv s.cache (pages ts.flatten) := by simpa [hts] using h.inv
    obtain ⟨c', e, hc', hn, hs⟩ := releasePages_ok ts.flatten s.cache hi
    rw [e]
    refine ⟨by rw [hs]; exact h.pos, hn.trans h.numBlocks, hs.trans h.blockSize, ?_, fun ts' e' => by cases e'⟩
    exact ⟨hc'.ref, hc'.lt, hc'.index, hc'.unshared⟩

theorem sessionInv_init (h : init n bps bs = .ok c) : SessionInv n bs ⟨c, []⟩ := by
  unfold init at h
  split at h
  · cases h
  rename_i hp
  cases h
  refine ⟨by simp only; omega, rfl, rfl, ⟨?_, ?_, ?_, ?_⟩, fun ts e => by cases e⟩ <;> simp [pages]

theorem sessionInv_run : ∀ (calls : List CacheCall) {s : CacheSession}, SessionInv n bs s →
    SessionInv n bs (calls.foldl CacheSession.call s)
  | [], _, h => h
  | call :: calls, _, h => sessionInv_run calls (sessionInv_call h call)

end

/-! ## What the tables share -/

def NativePrefixCache.pageAt (c : NativePrefixCache) (i lb : Nat) : Option Nat :=
  ((c.activeTables.getD [])[i]?.getD [])[lb]?.join

theorem pageAt_eq_some (h : c.pageAt i lb = some b) :
    ∃ t, (c.activeTables.getD [])[i]? = some t ∧ t[lb]? = some (some b) := by
  unfold pageAt at h
  rw [join_eq_some_iff] at h
  cases ht : (c.activeTables.getD [])[i]? with
  | none => simp [ht] at h
  | some t => exact ⟨t, rfl, by simpa [ht] using h⟩

theorem count_pages (b : Nat) : ∀ l : List (Option Nat), (pages l).count b = l.count (some b)
  | [] => rfl
  | none :: l => by simpa [pages] using count_pages b l
  | some a :: l => by
    have := count_pages b l
    simp only [pages, filterMap_cons, id_eq, count_cons] at this ⊢
    simp [this]

theorem count_entries {ts : List PageTable} (ht : ts[i]? = some t)
    (hb : t[lb]? = some (some b)) (ht' : ts[i']? = some t') (hb' : t'[lb']? = some (some b))
    (hne : (i, lb) ≠ (i', lb')) : 2 ≤ (pages ts.flatten).count b := by
  obtain ⟨hi, rfl⟩ := List.getElem?_eq_some_iff.mp ht
  obtain ⟨hl, hbl⟩ := List.getElem?_eq_some_iff.mp hb
  -- with the first entry blanked out, the second is still there
  have hput := pages_flatten_set (b := b) (getElem?_set_self hi) (getElem?_set_self hl)
  have hother : some b ∈ (ts.set i (ts[i].set lb none)).flatten := by
    by_cases e : i = i'
    · subst e
      cases ht.symm.trans ht'
      refine mem_flatten.mpr ⟨_, mem_of_getElem? (getElem?_set_self hi), mem_of_getElem? (i := lb') ?_⟩
      rw [getElem?_set_ne fun e => hne (by rw [e])]
      exact hb'
    · refine mem_flatten.mpr ⟨t', mem_of_getElem? (i := i') ?_, mem_of_getElem? hb'⟩
      rw [getElem?_set_ne e]
      exact ht'
  have hpos := count_pos_iff.mpr (mem_filterMap.mpr ⟨_, hother, rfl⟩ : b ∈ pages _)
  rw [set_set, set_set, ← hbl, set_getElem_self, set_getElem_self] at hput
  rw [hput.count_eq, count_append, count_singleton_self]
  exact succ_le_succ hpos

theorem sessionInv_shared {n bs : Nat} (h : SessionInv n bs s)
    (hb : s.cache.pageAt i lb = some b) (hb' : s.cache.pageAt i' lb' = some b) (hne : (i, lb) ≠ (i', lb')) :
    ∃ k, (s.cache.blocks b).prefixKey = some k ∧
      (∀ p, s.prompts[i]? = some p → (lb + 1) * s.cache.blockSize < p.length ∧
        k = p.take ((lb + 1) * s.cache.blockSize)) ∧
      (∀ p, s.prompts[i']? = some p → (lb' + 1) * s.cache.blockSize < p.length ∧
        k = p.take ((lb' + 1) * s.cache.blockSize)) := by
  obtain ⟨t, ht, hbt⟩ := pageAt_eq_some hb
  obtain ⟨t', ht', hbt'⟩ := pageAt_eq_some hb'
  have h2 := count_entries ht hbt ht' hbt' hne
  have hlt : b < s.cache.numBlocks := h.inv.lt b (mem_filterMap.mpr
    ⟨some b, mem_flatten.mpr ⟨t, mem_of_getElem? ht, mem_of_getElem? hbt⟩, rfl⟩)
  cases hk : (s.cache.blocks b).prefixKey with
  | none =>
    have := h.inv.unshared b hlt hk
    omega
  | some k =>
    cases ha : s.cache.activeTables with
    | none => simp [ha] at ht
    | some ts =>
      rw [ha, getD_some] at ht ht'
      exact ⟨k, rfl, fun p hp => (h.tables ts ha i p t hp ht).2 lb b hbt k hk,
        fun p hp => (h.tables ts ha i' p t' hp ht').2 lb' b hbt' k hk⟩

theorem nativePrefixCache_isolated {numBlocks bps bs : Nat} {c₀ : NativePrefixCache}
    (h₀ : NativePrefixCache.init numBlocks bps bs = .ok c₀) (calls : List CacheCall) :
    let s := calls.foldl CacheSession.call ⟨c₀, []⟩
    let entries := (s.cache.activeTables.getD []).flatten
    (∀ b < numBlocks, (s.cache.blocks b).refCount = entries.count (some b)) ∧
    (∀ b, b ∈ s.cache.freeBlocks ↔ b < numBlocks ∧ (s.cache.blocks b).refCount = 0) ∧
    (∀ b, some b ∈ entries → b < numBlocks) ∧
    (∀ k b, s.cache.prefixToBlock k = some b ↔ b < numBlocks ∧ (s.cache.blocks b).prefixKey = some k) ∧
    (∀ i i' lb lb' b p p', s.cache.pageAt i lb = some b → s.cache.pageAt i' lb' = some b → (i, lb) ≠ (i', lb') →
      s.prompts[i]? = some p → s.prompts[i']? = some p' →
      lb = lb' ∧ (lb + 1) * bs ≤ p.length ∧ (lb + 1) * bs ≤ p'.length ∧
        p.take ((lb + 1) * bs) = p'.take ((lb + 1) * bs)) ∧
    (∀ i i' position lb' b p, s.prompts[i]? = some p → p.length ≤ position + 1 →
      s.cache.pageAt i (position / bs) = some b → s.cache.pageAt i' lb' = some b → i' = i) := by
  intro s entries
  have h : SessionInv numBlocks bs s := sessionInv_run calls (sessionInv_init h₀)
  have hi : CacheInv s.cache (pages entries) := h.inv
  rw [← h.numBlocks, ← h.blockSize]
  have hco : ∀ b < s.cache.numBlocks, (s.cache.blocks b).refCount = entries.count (some b) := fun b hb => by
    rw [hi.ref b hb, count_pages]
  refine ⟨hco, fun b => ?_, fun b hb => hi.lt b (mem_filterMap.mpr ⟨some b, hb, rfl⟩), hi.index, ?_, ?_⟩
  · simp [freeBlocks]
  · intro i i' lb lb' b p p' hb hb' hne hp hp'
    obtain ⟨k, hk, h1, h2⟩ := sessionInv_shared h hb hb' hne
    obtain ⟨l1, e1⟩ := h1 p hp
    obtain ⟨l2, e2⟩ := h2 p' hp'
    have hlb : (lb + 1) * s.cache.blockSize = (lb' + 1) * s.cache.blockSize := by
      have := congrArg List.length (e1.symm.trans e2)
      rw [length_take, length_take] at this
      omega
    have hlb' : lb = lb' := by have := eq_of_mul_eq_mul_right h.pos hlb; omega
    subst hlb'
    exact ⟨rfl, l1.le, l2.le, e1.symm.trans e2⟩
  · intro i i' position lb' b p hp hpos hb hb'
    by_contra hne
    obtain ⟨k, hk, h1, -⟩ := sessionInv_shared h hb hb' (fun e => hne (by cases e; rfl))
    have hlt := (h1 p hp).1
    have hmod := lt_div_mul_add (a := position) h.pos
    rw [add_mul, one_mul] at hlt
    omega

theorem nativePrefixCache_isolated_shared :
    let s := [CacheCall.allocate [[1, 2, 3], [1, 2, 5]] true, .ensureCapacity [0] [2]].foldl CacheSession.call
      ⟨⟨4, 2, 2, fun _ => {}, fun _ => none, 0, none⟩, []⟩
    s.cache.pageAt 0 0 = some 0 ∧ s.cache.pageAt 1 0 = some 0 ∧ (s.cache.blocks 0).refCount = 2 ∧
      s.prompts[0]? = some [1, 2, 3] ∧ s.prompts[1]? = some [1, 2, 5] ∧
      [1, 2, 3].take ((0 + 1) * 2) = ([1, 2, 5] : List Int).take ((0 + 1) * 2) := by
  intro s
  have h₀ : NativePrefixCache.init 4 2 2 = .ok ⟨4, 2, 2, fun _ => {}, fun _ => none, 0, none⟩ := rfl
  have h := nativePrefixCache_isolated h₀ [.allocate [[1, 2, 3], [1, 2, 5]] true, .ensureCapacity [0] [2]]
  have p0 : s.cache.pageAt 0 0 = some 0 := by decide +kernel
  have p1 : s.cache.pageAt 1 0 = some 0 := by decide +kernel
  refine ⟨p0, p1, by decide +kernel, rfl, rfl, ?_⟩
  exact (h.2.2.2.2.1 0 1 0 0 0 _ _ p0 p1 (by decide) rfl rfl).2.2.2

end VllmAscend
