import Mathlib.Data.List.ReduceOption
import VllmAscend.Cache.CachedKv

/-!
# What a prefix hit is worth

A page enters the prefix index when it is acquired, and hits are counted per
block. So the reported number is good only if the index has, for each prompt, a
leading run of its blocks, none of which the call evicts, and if new pages are
written before the next batch.
-/

namespace VllmAscend

open Python NativePrefixCache Run CachedKv Function Nat
open Option hiding all_eq_true filter filter_filter
open List hiding getElem?_eq_some_iff

variable {c₀ c : NativePrefixCache} {b n bs : Nat} {write : List Int → KvWrite}

namespace NativePrefixCache

def keysOf (blockSize : Nat) (prompt : List Int) : List (Option (List Int)) :=
  (List.range (numPromptBlocks blockSize prompt)).map (blockKey blockSize true prompt)

def pageOf (c : NativePrefixCache) (key : Option (List Int)) : Option Nat := key.bind c.prefixToBlock

def missed (c : NativePrefixCache) (keys : List (Option (List Int))) : List (Option (List Int)) :=
  keys.filter fun key => (c.pageOf key).isNone

def spare (c : NativePrefixCache) (keys : List (Option (List Int))) : List Nat :=
  c.freeBlocks.filter fun b => keys.all fun key => (c.pageOf key).all fun h => c.reuseKey b < c.reuseKey h

/-- A batch the cache can take without losing a page it is about to report. -/
structure Roomy (c : NativePrefixCache) (prompts : List (List Int)) : Prop where
  fits : ∀ prompt ∈ prompts, prompt.length ≤ c.blocksPerSequence * c.blockSize
  leading : ∀ prompt ∈ prompts, ∀ lb' < numPromptBlocks c.blockSize prompt,
    (c.pageOf (blockKey c.blockSize true prompt lb')).isSome → ∀ lb < lb',
    (c.pageOf (blockKey c.blockSize true prompt lb)).isSome
  fresh : ((c.missed (prompts.flatMap (keysOf c.blockSize))).reduceOption).Nodup
  room : (c.missed (prompts.flatMap (keysOf c.blockSize))).length ≤
    (c.spare (prompts.flatMap (keysOf c.blockSize))).length

/-! ## Filling the tables -/

/-- A batch half allocated: `todo` are the lookups to come, `keys` all of them. -/
structure Filling (c₀ : NativePrefixCache) (keys : List (Option (List Int))) (c : NativePrefixCache)
    (acquired : List Nat) (todo : List (Option (List Int))) : Prop where
  inv : CacheInv c acquired
  same : SameKeys c₀ c []
  untouched : ∀ b ∉ acquired, c.blocks b = c₀.blocks b
  sub : ∀ key ∈ todo, key ∈ keys
  kept : ∀ k, some k ∈ keys → ∀ b, c₀.prefixToBlock k = some b → c.prefixToBlock k = some b
  missing : ∀ k, some k ∈ todo → c₀.prefixToBlock k = none → c.prefixToBlock k = none
  fresh : ((c₀.missed todo).reduceOption).Nodup
  room : (c₀.missed todo).length ≤ ((c₀.spare keys).filter (· ∉ acquired)).length

section
variable {keys todo : List (Option (List Int))}

theorem reuseKey_congr (h : c.blocks b = c₀.blocks b) : c.reuseKey b = c₀.reuseKey b := by
  unfold reuseKey
  rw [h]

theorem spare_nodup : (c₀.spare keys).Nodup := (nodup_range.filter _).filter _

theorem lt_of_mem_spare (hb : b ∈ c₀.spare keys) (hk : key ∈ keys) (hh : c₀.pageOf key = some h) :
    c₀.reuseKey b < c₀.reuseKey h := by
  have ha := (mem_filter.mp hb).2
  rw [all_eq_true] at ha
  simpa [hh] using ha key hk

theorem missed_cons_of_none (h : c₀.pageOf key = none) : c₀.missed (key :: todo) = key :: c₀.missed todo := by
  simp [missed, h]

theorem missed_cons_of_some (h : c₀.pageOf key = some b) : c₀.missed (key :: todo) = c₀.missed todo := by
  simp [missed, h]

theorem length_filter_notMem_concat {l a : List Nat} (hl : l.Nodup) (m : Nat) :
    (l.filter (· ∉ a)).length ≤ (l.filter (· ∉ a ++ [m])).length + 1 := by
  have heq : l.filter (fun b => decide (b ∉ a ++ [m])) = (l.filter (fun b => decide (b ∉ a))).erase m := by
    rw [List.Nodup.erase_eq_filter (hl.filter _), filter_filter]
    refine filter_congr fun b _ => ?_
    by_cases hb : b = m <;> simp [hb]
  rw [heq, length_erase]
  split <;> omega

theorem Filling.hit (h : Filling c₀ keys c acq (key :: todo)) (hb : c₀.pageOf key = some b) :
    ∃ c', c.acquireBlock key = (.ok (b, true), c') ∧ Filling c₀ keys c' (acq ++ [b]) todo := by
  obtain ⟨k, rfl, hk⟩ := bind_eq_some_iff.mp hb
  have hkey : some k ∈ keys := h.sub _ (mem_cons_self ..)
  have hkc := h.kept k hkey b hk
  have ha : c.acquireBlock (some k) = (.ok (b, true), { c with clock := c.clock + 1 }.shareBlock b) := by
    simp only [acquireBlock, bind_some, hkc]
  obtain ⟨hinv, hsame, -⟩ := acquireBlock_ok h.inv ha
  have hsp : b ∉ c₀.spare keys := fun hm => lt_irrefl _ (lt_of_mem_spare hm hkey hb)
  have hro := h.room
  rw [missed_cons_of_some hb] at hro
  refine ⟨_, ha, hinv, h.same.trans hsame (by simp), fun b' hb' => ?_, fun k' hk' => h.sub k' (mem_cons_of_mem _ hk'),
    h.kept, fun k' hk' => h.missing k' (mem_cons_of_mem _ hk'), ?_, hro.trans (le_of_eq ?_)⟩
  · have hne : b' ≠ b := fun e => hb' (by simp [e])
    rw [acquireBlock_untouched ha hne]
    exact h.untouched b' fun hm => hb' (mem_append_left _ hm)
  · have := h.fresh
    rwa [missed_cons_of_some hb] at this
  · congr 1
    refine filter_congr fun b' hb' => ?_
    have hne : b' ≠ b := fun e => hsp (e ▸ hb')
    simp [hne]

theorem Filling.miss (h : Filling c₀ keys c acq (key :: todo)) (hb : c₀.pageOf key = none) :
    ∃ b c', c.acquireBlock key = (.ok (b, false), c') ∧ Filling c₀ keys c' (acq ++ [b]) todo := by
  have hnone : key.bind c.prefixToBlock = none := by
    cases key with
    | none => rfl
    | some k => exact h.missing k (mem_cons_self ..) hb
  have hro := h.room
  rw [missed_cons_of_none hb, length_cons] at hro
  obtain ⟨r, hr⟩ : ∃ r, r ∈ (c₀.spare keys).filter (· ∉ acq) := exists_mem_of_length_pos (by omega)
  obtain ⟨hr, hfree⟩ := mem_filter.mp hr
  simp only [decide_eq_true_eq] at hfree
  have hlt : r < c.numBlocks := by
    rw [h.same.numBlocks]
    exact mem_range.mp (mem_filter.mp (mem_filter.mp hr).1).1
  have hfree' : r ∈ { c with clock := c.clock + 1 }.freeBlocks := (h.inv.tick.mem_freeBlocks r).mpr ⟨hlt, hfree⟩
  obtain ⟨m, hm⟩ : ∃ m, ({ c with clock := c.clock + 1 }.freeBlocks).argmin { c with clock := c.clock + 1 }.reuseKey =
      some m := by
    refine ne_none_iff_exists'.mp fun hno => ?_
    rw [argmin_eq_none] at hno
    rw [hno] at hfree'
    cases hfree'
  have ha : c.acquireBlock key = (.ok (m, false), { c with clock := c.clock + 1 }.takeBlock key m) := by
    simp only [acquireBlock, hnone, hm]
  obtain ⟨hinv, hsame, hke⟩ := acquireBlock_ok h.inv ha
  obtain ⟨-, hfr⟩ := (h.inv.tick.mem_freeBlocks m).mp (argmin_mem hm)
  have hle : c.reuseKey m ≤ c.reuseKey r := le_of_mem_argmin hfree' hm
  -- a page the batch will find is reused later than `r`
  have hot : ∀ k, some k ∈ keys → ∀ b, c₀.prefixToBlock k = some b → b ≠ m := by
    intro k hk b hb' e
    subst e
    rw [reuseKey_congr (h.untouched b hfr), reuseKey_congr (h.untouched r hfree)] at hle
    exact absurd (lt_of_mem_spare hr hk hb') (not_lt.mpr hle)
  refine ⟨m, _, ha, hinv, h.same.trans hsame (by simp), fun b' hb' => ?_,
    fun k' hk' => h.sub k' (mem_cons_of_mem _ hk'), fun k hk b hb' => ?_, fun k hk hk0 => ?_, ?_, ?_⟩
  · have hne : b' ≠ m := fun e => hb' (by simp [e])
    rw [acquireBlock_untouched ha hne]
    exact h.untouched b' fun hm => hb' (mem_append_left _ hm)
  · obtain ⟨hlt', hkey'⟩ := (h.inv.index k b).mp (h.kept k hk b hb')
    rw [hinv.index]
    refine ⟨hsame.numBlocks ▸ hlt', ?_⟩
    rw [acquireBlock_untouched ha (hot k hk b hb')]
    exact hkey'
  · by_contra hno
    obtain ⟨b, hb'⟩ := ne_none_iff_exists'.mp hno
    obtain ⟨hlt', hkey'⟩ := (hinv.index k b).mp hb'
    by_cases e : b = m
    · -- the key just entered would come up again
      subst e
      rw [hke] at hkey'
      have hnod := h.fresh
      rw [missed_cons_of_none hb, hkey', reduceOption_cons_of_some, nodup_cons] at hnod
      refine hnod.1 (reduceOption_mem_iff.mpr (mem_filter.mpr ⟨hk, ?_⟩))
      simp [pageOf, hk0]
    · rw [acquireBlock_untouched ha e] at hkey'
      have := (h.inv.index k b).mpr ⟨hsame.numBlocks ▸ hlt', hkey'⟩
      rw [h.missing k (mem_cons_of_mem _ hk) hk0] at this
      cases this
  · have hnod := h.fresh
    rw [missed_cons_of_none hb] at hnod
    cases key with
    | none => rwa [reduceOption_cons_of_none] at hnod
    | some k =>
      exact (nodup_cons.mp hnod).2
  · have hsp : (c₀.spare keys).Nodup := spare_nodup
    have := length_filter_notMem_concat (a := acq) hsp m
    omega

theorem Filling.next (h : Filling c₀ keys c acq (key :: todo)) :
    ∃ b c', c.acquireBlock key = (.ok (b, (c₀.pageOf key).isSome), c') ∧ Filling c₀ keys c' (acq ++ [b]) todo ∧
      ∀ b', c₀.pageOf key = some b' → b = b' := by
  cases hb : c₀.pageOf key with
  | some b =>
    obtain ⟨c', ha, h'⟩ := h.hit hb
    exact ⟨b, c', ha, h', fun b' e => Option.some.inj e⟩
  | none =>
    obtain ⟨b, c', ha, h'⟩ := h.miss hb
    exact ⟨b, c', ha, h', fun b' e => by cases e⟩

def cachedBlock (c : NativePrefixCache) (prompt : List Int) (lb : Nat) : Bool :=
  (c.pageOf (blockKey c.blockSize true prompt lb)).isSome

def cachedTokens (c : NativePrefixCache) (prompt : List Int) : Nat :=
  ((List.range (numPromptBlocks c.blockSize prompt)).filter (c.cachedBlock prompt)).length * c.blockSize

theorem Filling.fillTable (prompt : List Int) (rest : List (Option (List Int))) : ∀ (lbs : List Nat)
    (tb : PageTable) (cached : Nat) {c : NativePrefixCache} {acq : List Nat},
    Filling c₀ keys c acq (lbs.map (blockKey c₀.blockSize true prompt) ++ rest) → lbs.Nodup →
    (∀ lb ∈ lbs, lb < tb.length) →
    ∃ tb' c' acq', NativePrefixCache.fillTable true prompt lbs c acq tb cached =
        (.ok (tb', cached + (lbs.filter (c₀.cachedBlock prompt)).length * c₀.blockSize), c', acq') ∧
      Filling c₀ keys c' acq' rest ∧
      (∀ lb ∈ lbs, ∀ h, c₀.pageOf (blockKey c₀.blockSize true prompt lb) = some h → tb'[lb]? = some (some h)) ∧
      ∀ lb ∉ lbs, tb'[lb]? = tb[lb]?
  | [], tb, cached, c, acq, h, _, _ =>
    ⟨tb, c, acq, by simp [NativePrefixCache.fillTable], h, by simp, fun _ _ => rfl⟩
  | lb :: lbs, tb, cached, c, acq, h, hn, hlt => by
    obtain ⟨hlb, hn⟩ := nodup_cons.mp hn
    have hsize : c.blockSize = c₀.blockSize := h.same.blockSize
    obtain ⟨b, c1, ha, h1, hb⟩ := h.next
    obtain ⟨tb', c', acq', hf, hfi, hmem, hrest⟩ := Filling.fillTable prompt rest lbs (tb.set lb (some b))
      (if c₀.cachedBlock prompt lb then cached + c₀.blockSize else cached) h1 hn
      (fun lb' hm => by rw [length_set]; exact hlt lb' (mem_cons_of_mem _ hm))
    refine ⟨tb', c', acq', ?_, hfi, fun lb' hm h' hp' => ?_, fun lb' hno => ?_⟩
    · rw [NativePrefixCache.fillTable, hsize, ha]
      refine hf.trans ?_
      rw [filter_cons]
      cases c₀.cachedBlock prompt lb with
      | false => rfl
      | true =>
        simp only [if_true, length_cons]
        congr 3
        ring
    · rcases mem_cons.mp hm with rfl | hm
      · rw [hrest lb' hlb, getElem?_set_self (hlt lb' (mem_cons_self ..)), hb h' hp']
      · exact hmem lb' hm h' hp'
    · obtain ⟨hne, hno⟩ := not_or.mp (fun e => hno (mem_cons.mpr e))
      rw [hrest lb' hno, getElem?_set_ne (Ne.symm hne)]

theorem Filling.fillTables (hpos : 0 < c₀.blockSize) : ∀ (ps : List (List Int)) {c : NativePrefixCache}
    {acq : List Nat}, (∀ prompt ∈ ps, prompt.length ≤ c₀.blocksPerSequence * c₀.blockSize) →
    Filling c₀ keys c acq (ps.flatMap (keysOf c₀.blockSize)) →
    ∃ tbs c' acq', NativePrefixCache.fillTables true ps c acq =
        (.ok (tbs, ps.map c₀.cachedTokens), c', acq') ∧
      Filling c₀ keys c' acq' [] ∧
      List.Forall₂ (fun prompt tb => ∀ lb < numPromptBlocks c₀.blockSize prompt, ∀ h,
        c₀.pageOf (blockKey c₀.blockSize true prompt lb) = some h → tb[lb]? = some (some h)) ps tbs
  | [], c, acq, _, h => ⟨[], c, acq, rfl, h, .nil⟩
  | prompt :: ps, c, acq, hfi, h => by
    have hsize : c.blockSize = c₀.blockSize := h.same.blockSize
    have hfit : ¬ prompt.length > c₀.blocksPerSequence * c₀.blockSize := not_lt.mpr (hfi prompt (mem_cons_self ..))
    obtain ⟨tb, c1, acquired1, hf, h1, hmem, -⟩ := Filling.fillTable prompt _
      (range _) (replicate c₀.blocksPerSequence none) 0
      (by simpa [keysOf] using h) nodup_range (fun lb hlb => by
        rw [length_replicate]
        exact lt_of_lt_of_le (mem_range.mp hlb) (numPromptBlocks_le hpos hfit))
    obtain ⟨tbs, c', acq', hfs, h', hall⟩ := Filling.fillTables hpos ps
      (fun p hp => hfi p (mem_cons_of_mem _ hp)) h1
    refine ⟨tb :: tbs, c', acq', ?_, h', .cons (fun lb hlb => hmem lb (mem_range.mpr hlb)) hall⟩
    rw [NativePrefixCache.fillTables, hsize, h.same.blocksPerSequence, if_neg hfit, hf]
    simp only [hfs, map_cons, cachedTokens, zero_add]

theorem lt_length_filter_range {P : Nat → Bool} {n i : Nat} (h : ∀ j < n, P j → ∀ i < j, P i) (hi : i < n) :
    P i = true ↔ i < ((range n).filter P).length := by
  constructor
  · intro hp
    have hs : range (i + 1) ⊆ (range n).filter P := fun j hj => by
      rcases Nat.lt_succ_iff_lt_or_eq.mp (mem_range.mp hj) with hlt | rfl
      · exact mem_filter.mpr ⟨mem_range.mpr (hlt.trans hi), h i hi hp j hlt⟩
      · exact mem_filter.mpr ⟨mem_range.mpr hi, hp⟩
    have hle := (subperm_of_subset nodup_range hs).length_le
    rwa [length_range] at hle
  · intro hlt
    by_contra hp
    have hs : (range n).filter P ⊆ range i := fun j hj => by
      obtain ⟨hj, hPj⟩ := mem_filter.mp hj
      refine mem_range.mpr (lt_of_not_ge fun hle => hp ?_)
      rcases Nat.lt_or_eq_of_le hle with hlt | rfl
      · exact h j (mem_range.mp hj) hPj i hlt
      · exact hPj
    have hle := (subperm_of_subset (nodup_range.filter P) hs).length_le
    rw [length_range] at hle
    omega

theorem filling_start (hi : CacheInv c₀ []) (h : Roomy c₀ ps) :
    Filling c₀ (ps.flatMap (keysOf c₀.blockSize)) c₀ [] (ps.flatMap (keysOf c₀.blockSize)) :=
  ⟨hi, SameKeys.rfl, fun _ _ => rfl, fun _ hk => hk, fun _ _ _ hb => hb, fun _ _ hk => hk, h.fresh,
    by simpa using h.room⟩

end

end NativePrefixCache

/-! ## Written pages -/

def Written (cells : Nat → Nat → Option KvWrite) (bs : Nat) (k : List Int) (b : Nat) : Prop :=
  ∀ off < bs, cells b off = some (.prefill (k.take (k.length - bs + off + 1)))

section
variable (value : Nat → KvWrite)

theorem foldl_writeRow : ∀ (rows : List CacheRow) (cells : Nat → Nat → Option KvWrite),
    (∀ row ∈ rows, c.pageAt row.sequence (row.position / c.blockSize) = some b →
      write row.tokens = value (row.position % c.blockSize)) → ∀ off,
    (rows.foldl (writeRow c write) cells b off = cells b off ∨
      rows.foldl (writeRow c write) cells b off = some (value off)) ∧
    ((∃ row ∈ rows, c.pageAt row.sequence (row.position / c.blockSize) = some b ∧ row.position % c.blockSize = off) →
      rows.foldl (writeRow c write) cells b off = some (value off))
  | [], _, _, _ => ⟨.inl rfl, fun ⟨_, hm, _⟩ => by cases hm⟩
  | row :: rows, cells, h, off => by
    obtain ⟨hkeep, hh⟩ := foldl_writeRow rows _ (fun row' hm => h row' (mem_cons_of_mem _ hm)) off
    simp only [foldl_cons]
    have hone : writeRow c write cells row b off = cells b off ∨
        writeRow c write cells row b off = some (value off) := by
      cases hb' : c.pageAt row.sequence (row.position / c.blockSize) with
      | none => simp [writeRow, hb']
      | some b' =>
        simp only [writeRow, hb']
        by_cases e : b = b'
        · subst e
          rw [update_self]
          by_cases eo : off = row.position % c.blockSize
          · subst eo
            rw [update_self, h row (mem_cons_self ..) hb']
            exact .inr rfl
          · rw [update_of_ne eo]
            exact .inl rfl
        · rw [update_of_ne e]
          exact .inl rfl
    refine ⟨?_, fun ⟨row', hm, hp, ho⟩ => ?_⟩
    · rcases hkeep with hk | hk
      · rw [hk]; exact hone
      · exact .inr hk
    · rcases mem_cons.mp hm with rfl | hm
      · rcases hkeep with hk | hk
        · rw [hk]
          unfold writeRow
          rw [hp]
          simp only [← ho, update_self]
          rw [h row' (mem_cons_self ..) hp]
        · exact hk
      · exact hh ⟨row', hm, hp, ho⟩

end

/-! ## Pages for more positions -/

structure Extends (c c' : NativePrefixCache) : Prop where
  blockSize : c'.blockSize = c.blockSize
  isSome : c'.activeTables.isSome = c.activeTables.isSome
  length : (c'.activeTables.getD []).length = (c.activeTables.getD []).length
  index : ∀ k b, c'.prefixToBlock k = some b → c.prefixToBlock k = some b
  page : ∀ i lb b, c.pageAt i lb = some b → c'.pageAt i lb = some b ∧ (c'.blocks b).prefixKey = (c.blocks b).prefixKey

variable {s : CacheSession}

theorem Extends.rfl : Extends c c := ⟨.refl _, .refl _, .refl _, fun _ _ h => h, fun _ _ _ h => ⟨h, .refl _⟩⟩

theorem Extends.trans (h : Extends c1 c2) (h' : Extends c2 c3) : Extends c1 c3 := by
  refine ⟨h'.blockSize.trans h.blockSize, h'.isSome.trans h.isSome, h'.length.trans h.length,
    fun k b hb => h.index k b (h'.index k b hb), fun i lb b hb => ?_⟩
  obtain ⟨hp, hk⟩ := h.page i lb b hb
  obtain ⟨hp', hk'⟩ := h'.page i lb b hp
  exact ⟨hp', hk'.trans hk⟩

theorem extends_ensurePage (h : SessionInv n bs s) (ha : s.cache.activeTables = some ts) (sid position : Int) :
    Extends s.cache (s.cache.ensurePage ts sid position).2 := by
  have hi : CacheInv s.cache (pages ts.flatten) := by simpa [ha] using h.inv
  have hhe : ∀ (i lb b : Nat), s.cache.pageAt i lb = some b → b ∈ pages ts.flatten := by
    intro i lb b hb
    obtain ⟨t, ht, hbt⟩ := pageAt_eq_some hb
    rw [ha, getD_some] at ht
    exact mem_filterMap.mpr ⟨some b, mem_flatten.mpr ⟨t, mem_of_getElem? ht, mem_of_getElem? hbt⟩, rfl⟩
  have hen := ensured s.cache ts sid position
  generalize s.cache.ensurePage ts sid position = out at hen ⊢
  generalize s.cache.entry ts sid position = en at hen
  cases hen with
  | refused => exact .rfl
  | present => exact .rfl
  | full _ _ hq =>
    cases hq ▸ acquires s.cache none
    exact ⟨rfl, rfl, rfl, fun _ _ hb => hb, fun _ _ _ hb => ⟨hb, rfl⟩⟩
  | @taken i0 lb b t0 q hit c' hta hen hlb hq =>
    obtain ⟨-, g2, -⟩ := acquireBlock_ok hi hq
    refine ⟨g2.blockSize, by simp [ha], by simp [ha], fun k b' hb' => acquireBlock_none_index hi hq hb',
      fun i lb' b' hb' => ⟨?_, g2.keys b' (hhe i lb' b' hb')⟩⟩
    -- the entry that was set was empty
    obtain ⟨t, ht, hbt⟩ := pageAt_eq_some hb'
    rw [ha, getD_some] at ht
    unfold NativePrefixCache.pageAt
    simp only [getD_some, getElem?_set]
    by_cases hs : i0 = i
    · subst hs
      cases hta.symm.trans ht
      have hne : lb ≠ lb' := by
        rintro rfl
        cases hen.symm.trans hbt
      simp only [if_true, (lt_of_getElem? ht), getD_some, getElem?_set_ne hne, hbt, join_some]
    · rw [if_neg hs, ht]
      simp [hbt]

theorem extends_ensurePages (ps : List (List Int)) (todo : List (Int × Int)) (c : NativePrefixCache)
    (h : SessionInv n bs ⟨c, ps⟩) (ha : c.activeTables.isSome) : Extends c (ensurePages todo c).2 :=
  (ensurePages_inv (P := fun c' => (SessionInv n bs ⟨c', ps⟩ ∧ c'.activeTables.isSome) ∧ Extends c c')
    (fun _ h => h.1.2) (fun _ _ i p h hts => ⟨sessionInv_ensurePage h.1.1 hts i p,
      h.2.trans (extends_ensurePage h.1.1 hts i p)⟩) todo c ⟨⟨h, ha⟩, .rfl⟩).2

theorem extends_ensureCapacity (h : SessionInv n bs s) (sequenceIds positions : List Int) :
    Extends s.cache (s.cache.ensureCapacity sequenceIds positions).2 := by
  unfold ensureCapacity
  split
  · exact .rfl
  rename_i ts hts
  split
  · exact .rfl
  · exact extends_ensurePages s.prompts _ s.cache h (by simp [hts])

/-! ## The invariant -/

def Pending (bs : Nat) (s : CachedKv) (k : List Int) (b : Nat) : Prop :=
  ∃ i lb prompt cached, i ∉ s.done ∧ s.session.prompts[i]? = some prompt ∧ s.counts[i]? = some cached ∧
    s.session.cache.pageAt i lb = some b ∧ cached ≤ lb * bs ∧ (lb + 1) * bs < prompt.length ∧
    k = prompt.take ((lb + 1) * bs)

structure KvInv (n bs : Nat) (s : CachedKv) : Prop where
  session : SessionInv n bs s.session
  length : s.session.cache.activeTables.isSome → (s.session.cache.activeTables.getD []).length = s.session.prompts.length
  whole : ∀ cached ∈ s.counts, bs ∣ cached
  indexed : ∀ k b, s.session.cache.prefixToBlock k = some b → Written s.cells bs k b ∨ Pending bs s k b
  skipped : s.session.cache.activeTables.isSome → ∀ i prompt cached, s.session.prompts[i]? = some prompt →
    s.counts[i]? = some cached → ∀ lb, lb * bs < cached → ∃ b, s.session.cache.pageAt i lb = some b ∧
      (s.session.cache.blocks b).prefixKey = some (prompt.take ((lb + 1) * bs)) ∧
      Written s.cells bs (prompt.take ((lb + 1) * bs)) b

section
variable {s : CachedKv} {i lb blockSize : Nat} {k prompt : List Int} {rows : List CacheRow}
  {ps : List (List Int)}

def TablePerPrompt (t : CacheSession) : Prop :=
  t.cache.activeTables.isSome → (t.cache.activeTables.getD []).length = t.prompts.length

theorem keyedPage (h : SessionInv n bs t) (hl : TablePerPrompt t)
    (hb : t.cache.pageAt i lb = some b) (hk : (t.cache.blocks b).prefixKey = some k) :
    ∃ prompt, t.prompts[i]? = some prompt ∧ (lb + 1) * bs < prompt.length ∧ k = prompt.take ((lb + 1) * bs) := by
  obtain ⟨tb, ht, hbt⟩ := pageAt_eq_some hb
  cases ha : t.cache.activeTables with
  | none => simp [ha] at ht
  | some ts =>
    have hl := hl (by simp [ha])
    rw [ha, getD_some] at ht hl
    have hi : i < t.prompts.length := hl ▸ lt_of_getElem? ht
    have := (h.tables ts ha i _ tb (getElem?_eq_getElem hi) ht).2 lb b hbt k hk
    rw [h.blockSize] at this
    exact ⟨_, getElem?_eq_getElem hi, this⟩

def OwnRows (s : CachedKv) (write : List Int → KvWrite) (rows : List CacheRow) : Prop :=
  ∀ row ∈ rows, ∀ prompt, s.session.prompts[row.sequence]? = some prompt → row.position < prompt.length →
    write row.tokens = .prefill (prompt.take (row.position + 1))

theorem value_of_ownRows (t : CacheSession) (hpr : t.prompts = s.session.prompts) (h : SessionInv n bs t)
    (hlen : TablePerPrompt t) (hro : OwnRows s write rows)
    (hk : (t.cache.blocks b).prefixKey = some k) : ∀ row ∈ rows,
    t.cache.pageAt row.sequence (row.position / t.cache.blockSize) = some b →
      write row.tokens = .prefill (k.take (k.length - bs + row.position % t.cache.blockSize + 1)) := by
  intro row hrow hpage
  obtain ⟨prompt, hp, hlt, rfl⟩ := keyedPage h hlen hpage hk
  have hpos : 0 < bs := h.blockSize ▸ h.pos
  rw [h.blockSize] at hlt hpage ⊢
  have hmod := div_add_mod row.position bs
  have hre := mod_lt row.position hpos
  have hmul : (row.position / bs + 1) * bs = bs * (row.position / bs) + bs := by ring
  rw [hro row hrow prompt (hpr ▸ hp) (by omega), length_take, min_eq_left hlt.le, take_take]
  congr 2
  omega

theorem Written.foldl (t : CacheSession) (hp : t.prompts = s.session.prompts) (h : SessionInv n bs t)
    (hl : TablePerPrompt t) (hr : OwnRows s write rows)
    (hk : (t.cache.blocks b).prefixKey = some k) (hw : Written s.cells bs k b) :
    Written (rows.foldl (writeRow t.cache write) s.cells) bs k b := by
  intro off ho
  rcases (foldl_writeRow (fun off => .prefill (k.take (k.length - bs + off + 1))) rows s.cells
    (value_of_ownRows t hp h hl hr hk) off).1 with hkeep | hkeep
  · rw [hkeep]; exact hw off ho
  · exact hkeep

theorem KvInv.forward (h : KvInv n bs s) (hro : OwnRows s write rows) : KvInv n bs (s.forward write rows).1 := by
  have hse := sessionInv_call h.session (.ensureCapacity (rows.map fun row => (row.sequence : Int))
    (rows.map fun row => (row.position : Int)))
  have hext := extends_ensureCapacity h.session (rows.map fun row => (row.sequence : Int))
    (rows.map fun row => (row.position : Int))
  simp only [CacheSession.call] at hse
  unfold CachedKv.forward
  generalize s.session.cache.ensureCapacity (rows.map fun row => (row.sequence : Int))
    (rows.map fun row => (row.position : Int)) = res at hse hext
  obtain ⟨r, c⟩ := res
  have hlen : c.activeTables.isSome → (c.activeTables.getD []).length = s.session.prompts.length := by
    intro ha
    rw [hext.length]
    exact h.length (hext.isSome ▸ ha)
  -- the cells before and after the rows
  have hkeep : ∀ cells : Nat → Nat → Option KvWrite,
      (∀ k b, (c.blocks b).prefixKey = some k → Written s.cells bs k b → Written cells bs k b) →
      KvInv n bs { s with session := ⟨c, s.session.prompts⟩, cells := cells } := by
    intro cells hce
    refine ⟨hse, hlen, h.whole, fun k b hk => ?_, fun ha i prompt cached hp hc lb hlb => ?_⟩
    · rcases h.indexed k b (hext.index k b hk) with hw | ⟨i, lb, prompt, cached, hi, hp, hc, hpage, hrest⟩
      · exact .inl (hce k b ((hse.inv.index k b).mp hk).2 hw)
      · exact .inr ⟨i, lb, prompt, cached, hi, hp, hc, (hext.page i lb b hpage).1, hrest⟩
    · obtain ⟨b, hpage, hkey, hw⟩ := h.skipped (hext.isSome ▸ ha) i prompt cached hp hc lb hlb
      obtain ⟨hpage', hkey'⟩ := hext.page i lb b hpage
      exact ⟨b, hpage', hkey'.trans hkey, hce _ b (hkey'.trans hkey) hw⟩
  cases r with
  | error e => exact hkeep s.cells fun _ _ _ hw => hw
  | ok u => exact hkeep _ fun k b hk hw => hw.foldl ⟨c, s.session.prompts⟩ rfl hse hlen hro hk

theorem mem_prefillRows : row ∈ s.prefillRows i ↔ ∃ prompt cached,
    s.session.prompts[i]? = some prompt ∧ s.counts[i]? = some cached ∧
      cached ≤ row.position ∧ row.position < prompt.length ∧ row.sequence = i ∧
      row.tokens = prompt.take (row.position + 1) := by
  unfold prefillRows
  constructor
  · intro hr
    split at hr
    · rename_i prompt cached hp hc
      obtain ⟨p, hp', rfl⟩ := mem_map.mp hr
      obtain ⟨hle, hlt⟩ := mem_range'_1.mp hp'
      exact ⟨prompt, cached, hp, hc, hle, by simp only; omega, rfl, rfl⟩
    · cases hr
  · rintro ⟨prompt, cached, hp, hc, hle, hlt, rfl, ht⟩
    rw [hp, hc]
    refine mem_map.mpr ⟨row.position, mem_range'_1.mpr ⟨hle, by omega⟩, ?_⟩
    rw [← ht]

theorem ownRows_prefill (ids : List Nat) : OwnRows s .prefill (ids.flatMap s.prefillRows) := by
  intro row hr prompt hp _
  obtain ⟨i, -, hr⟩ := mem_flatMap.mp hr
  obtain ⟨prompt', cached, hp', -, -, -, rfl, ht⟩ := mem_prefillRows.mp hr
  rw [hp] at hp'
  cases hp'
  rw [ht]

theorem KvInv.prefill (h : KvInv n bs s) (ids : List Nat) : KvInv n bs (s.step (.prefill ids)) := by
  have hfo := h.forward (ownRows_prefill ids)
  have hse := hfo.session
  have hlen := hfo.length
  simp only [CachedKv.step]
  unfold CachedKv.forward at hfo hse hlen ⊢
  generalize s.session.cache.ensureCapacity ((ids.flatMap s.prefillRows).map fun row => (row.sequence : Int))
    ((ids.flatMap s.prefillRows).map fun row => (row.position : Int)) = res at hfo hse hlen ⊢
  obtain ⟨r, c⟩ := res
  cases r with
  | error e => exact hfo
  | ok u =>
    simp only at hfo hse hlen ⊢
    refine ⟨hse, hlen, h.whole, fun k b hk => ?_, hfo.skipped⟩
    rcases hfo.indexed k b hk with hw | ⟨i, lb, prompt, cached, hi, hp, hc, hpage, hle, hlt, hkey⟩
    · exact .inl hw
    by_cases hm : i ∈ ids
    · -- its own prefill has just written the page
      left
      intro off hof
      have hpos : 0 < bs := h.session.blockSize ▸ h.session.pos
      have hmul : (lb + 1) * bs = lb * bs + bs := by ring
      have hrow : (⟨i, lb * bs + off, prompt.take (lb * bs + off + 1)⟩ : CacheRow) ∈ ids.flatMap s.prefillRows :=
        mem_flatMap.mpr ⟨i, hm, mem_prefillRows.mpr ⟨prompt, cached, hp, hc, by simp only; omega,
          by simp only; omega, rfl, rfl⟩⟩
      refine (foldl_writeRow (fun off => .prefill (k.take (k.length - bs + off + 1))) _ s.cells
        (value_of_ownRows ⟨c, s.session.prompts⟩ rfl hse hlen (ownRows_prefill ids)
          ((hse.inv.index k b).mp hk).2) off).2 ⟨_, hrow, ?_, ?_⟩
      · simp only [show c.blockSize = bs from hse.blockSize]
        rw [add_comm, add_mul_div_right _ _ hpos, div_eq_of_lt hof, zero_add]
        exact hpage
      · simp only [show c.blockSize = bs from hse.blockSize]
        rw [add_comm, add_mul_mod_self_right, mod_eq_of_lt hof]
    · exact .inr ⟨i, lb, prompt, cached, by simp [hi, hm], hp, hc, hpage, hle, hlt, hkey⟩

/-- A batch the cache has room for, decode rows past their prompts, and no release before the prefill is complete. -/
def Allowed (s : CachedKv) : CacheEvent → Prop
  | .allocate prompts enable => enable = true → s.session.cache.activeTables = none → Roomy s.session.cache prompts
  | .prefill _ => True
  | .decode rows => ∀ row ∈ rows, ∀ prompt, s.session.prompts[row.sequence]? = some prompt → prompt.length ≤ row.position
  | .release => s.session.cache.activeTables.isSome → ∀ i < s.session.prompts.length, i ∈ s.done

theorem pageAt_none (ha : c.activeTables = none) (i lb : Nat) : c.pageAt i lb = none := by
  simp [NativePrefixCache.pageAt, ha]

theorem KvInv.written (h : KvInv n bs s) (ha : s.session.cache.activeTables = none)
    (hk : s.session.cache.prefixToBlock k = some b) : Written s.cells bs k b := by
  refine (h.indexed k b hk).resolve_right ?_
  rintro ⟨i, lb, prompt, cached, -, -, -, hp, -⟩
  rw [pageAt_none ha] at hp
  cases hp

theorem KvInv.decode (h : KvInv n bs s) (hro : Allowed s (.decode rows)) : KvInv n bs (s.step (.decode rows)) := by
  refine h.forward fun row hr prompt hp hlt => ?_
  have := hro row hr prompt hp
  omega

theorem prefixToBlock_releasePages : ∀ (l : List (Option Nat)) (c : NativePrefixCache),
    (releasePages l c).2.prefixToBlock = c.prefixToBlock
  | [], _ => rfl
  | none :: l, c => prefixToBlock_releasePages l c
  | some b :: l, c => by
    rw [releasePages]
    split
    · rfl
    · exact prefixToBlock_releasePages l (c.dropRef b)

theorem KvInv.release (h : KvInv n bs s) (hdone : Allowed s .release) : KvInv n bs (s.step .release) := by
  have hse := sessionInv_call h.session .release
  have hid : (s.session.call .release).cache.prefixToBlock = s.session.cache.prefixToBlock := by
    show s.session.cache.release.2.prefixToBlock = _
    unfold NativePrefixCache.release
    split
    · rfl
    rename_i ts _
    have := prefixToBlock_releasePages ts.flatten s.session.cache
    split
    · rename_i e; rw [e] at this; exact this
    · rename_i e; rw [e] at this; exact this
  have hnone : (s.session.call .release).cache.activeTables = none := by
    show s.session.cache.release.2.activeTables = none
    unfold NativePrefixCache.release
    split
    · assumption
    rename_i ts hts
    obtain ⟨c', e, -⟩ := releasePages_ok ts.flatten s.session.cache (by simpa [hts] using h.session.inv)
    rw [e]
  have hnot : ¬ (s.session.call .release).cache.activeTables.isSome := by simp [hnone]
  refine ⟨hse, fun hno => absurd hno hnot, fun _ hm => (not_mem_nil hm).elim, fun k b hk => .inl ?_,
    fun hno => absurd hno hnot⟩
  have hk : s.session.cache.prefixToBlock k = some b := by
    rw [← hid]; exact hk
  refine (h.indexed k b hk).resolve_right ?_
  rintro ⟨i, lb, prompt, cached, hi, hp, -, hpage, -⟩
  refine hi (hdone ?_ i (lt_of_getElem? hp))
  by_contra hno
  rw [pageAt_none (by simpa using hno)] at hpage
  cases hpage

/-! ## Allocating -/

theorem prefixToBlock_rollback (held : List Nat) (c : NativePrefixCache) :
    (held.foldl dropRef c).prefixToBlock = c.prefixToBlock := by
  induction held generalizing c with
  | nil => rfl
  | cons b held ih => exact ih (c.dropRef b)

structure Reported (c₀ : NativePrefixCache) (prompts : List (List Int)) (allocation : NativeCacheAllocation) : Prop where
  counts : allocation.numCachedTokens = prompts.map c₀.cachedTokens
  tables : List.Forall₂ (fun prompt table => ∀ lb < numPromptBlocks c₀.blockSize prompt, ∀ h,
    c₀.pageOf (blockKey c₀.blockSize true prompt lb) = some h → table[lb]? = some (some h)) prompts allocation.blockTables

theorem blockKey_of_lt (hp : 0 < blockSize)
    (he : (lb + 1) * blockSize < prompt.length) : lb < numPromptBlocks blockSize prompt ∧
    blockKey blockSize true prompt lb = some (prompt.take ((lb + 1) * blockSize)) := by
  refine ⟨?_, ?_⟩
  · unfold numPromptBlocks
    rw [lt_iff_add_one_le, le_div_iff_mul_le hp]
    omega
  · have hf : lb < (prompt.length - 1) / blockSize := by
      rw [lt_iff_add_one_le, le_div_iff_mul_le hp]
      omega
    simp [blockKey, hf]

theorem mem_keysOf (hp : 0 < blockSize) (he : (lb + 1) * blockSize < prompt.length) :
    some (prompt.take ((lb + 1) * blockSize)) ∈ keysOf blockSize prompt :=
  mem_map.mpr ⟨lb, mem_range.mpr (blockKey_of_lt hp he).1, (blockKey_of_lt hp he).2⟩

theorem exists_cachedRun (hpos : 0 < c₀.blockSize)
    (h : Roomy c₀ ps) (hp : prompt ∈ ps) : ∃ n, c₀.cachedTokens prompt = n * c₀.blockSize ∧
      (∀ lb < n, (lb + 1) * c₀.blockSize < prompt.length ∧
        ∃ b, c₀.prefixToBlock (prompt.take ((lb + 1) * c₀.blockSize)) = some b) ∧
      ∀ lb, (lb + 1) * c₀.blockSize < prompt.length →
        c₀.prefixToBlock (prompt.take ((lb + 1) * c₀.blockSize)) = none → n ≤ lb := by
  have hrun := fun lb => @lt_length_filter_range _ _ lb (h.leading prompt hp)
  have hle : ((range (numPromptBlocks c₀.blockSize prompt)).filter (c₀.cachedBlock prompt)).length ≤
      numPromptBlocks c₀.blockSize prompt := (length_filter_le ..).trans_eq length_range
  refine ⟨_, rfl, fun lb hlb => ?_, fun lb hend hnone => ?_⟩
  · have hca : (c₀.pageOf (blockKey c₀.blockSize true prompt lb)).isSome = true :=
      (hrun lb (lt_of_lt_of_le hlb hle)).mpr hlb
    obtain ⟨b, hb⟩ := isSome_iff_exists.mp hca
    obtain ⟨k, hk, hb⟩ := bind_eq_some_iff.mp hb
    obtain ⟨hend, rfl⟩ := blockKey_spec hpos hk
    exact ⟨hend, b, hb⟩
  · obtain ⟨hlt, hkey⟩ := blockKey_of_lt hpos hend
    by_contra hno
    have hca : (c₀.pageOf (blockKey c₀.blockSize true prompt lb)).isSome = true :=
      (hrun lb hlt).mpr (Nat.lt_of_not_le hno)
    rw [hkey, pageOf, bind_some, hnone] at hca
    cases hca

theorem allocate_roomy (hpos : 0 < c₀.blockSize) (hi : CacheInv c₀ [])
    (ha : c₀.activeTables = none) (hro : Roomy c₀ ps) :
    ∃ allocation c, c₀.allocate ps true = (.ok allocation, c) ∧ Reported c₀ ps allocation ∧
      c.activeTables = some allocation.blockTables ∧ c.blockSize = c₀.blockSize ∧
      List.Forall₂ (TableOk c) ps allocation.blockTables ∧
      (∀ k, some k ∈ ps.flatMap (keysOf c₀.blockSize) → ∀ b, c₀.prefixToBlock k = some b →
        c.prefixToBlock k = some b) ∧
      (∀ k b, c.prefixToBlock k = some b → c₀.prefixToBlock k = some b ∨
        c₀.prefixToBlock k = none ∧ ∃ i lb prompt, ps[i]? = some prompt ∧ c.pageAt i lb = some b ∧
          (lb + 1) * c₀.blockSize < prompt.length ∧ k = prompt.take ((lb + 1) * c₀.blockSize)) := by
  obtain ⟨tbs, c, acq, hf, hfi, hall⟩ := (filling_start hi hro).fillTables hpos ps hro.fits
  obtain ⟨⟨hinv, hsame, -, -⟩, hok⟩ := fillTables_spec hpos hi hf
  obtain ⟨hta, hperm, -⟩ := hok tbs _ rfl
  refine ⟨⟨tbs, ps.map c₀.cachedTokens⟩, { c with activeTables := some tbs }, ?_, ⟨rfl, hall⟩, rfl,
    hsame.blockSize, hta.imp fun _ _ ht => ⟨ht.1, ht.2⟩, hfi.kept, fun k b hk => ?_⟩
  · simp only [NativePrefixCache.allocate, ha, hf]
  · obtain ⟨hlt, hkey⟩ := (hinv.index k b).mp hk
    by_cases hb : b ∈ acq
    · -- an acq page is keyed by one of the batch's lookups
      obtain ⟨e, he, rfl⟩ := mem_filterMap.mp (hperm.mem_iff.mp hb)
      obtain ⟨tb, ht, hbt⟩ := mem_flatten.mp he
      obtain ⟨i, hi'⟩ := mem_iff_getElem?.mp ht
      obtain ⟨lb, hlb⟩ := mem_iff_getElem?.mp hbt
      have hlen : i < ps.length := hta.length_eq ▸ lt_of_getElem? hi'
      have hpr := getElem?_eq_getElem hlen
      obtain ⟨hend, hke⟩ := (forall₂_getElem? hta i _ tb hpr hi').2 lb b hlb k hkey
      rw [hsame.blockSize] at hend hke
      cases hk0 : c₀.prefixToBlock k with
      | none => exact .inr ⟨rfl, i, lb, _, hpr, by simp [NativePrefixCache.pageAt, hi', hlb], hend, hke⟩
      | some h =>
        have hmem : some k ∈ ps.flatMap (keysOf c₀.blockSize) :=
          mem_flatMap.mpr ⟨_, getElem_mem hlen, hke ▸ mem_keysOf hpos hend⟩
        have := hfi.kept k hmem h hk0
        rw [show c.prefixToBlock k = some b from hk] at this
        exact .inl this.symm
    · rw [hfi.untouched b hb] at hkey
      exact .inl ((hi.index k b).mpr ⟨hsame.numBlocks ▸ hlt, hkey⟩)

theorem KvInv.allocate (h : KvInv n bs s)
    (hro : Allowed s (.allocate ps enable)) : KvInv n bs (s.step (.allocate ps enable)) := by
  have hse := sessionInv_call h.session (.allocate ps enable)
  cases ha : s.session.cache.activeTables with
  | some ts =>
    -- refused: a batch is active
    have he : s.session.cache.allocate ps enable = (.error (.runtimeError
        "Release the active PEARL cache allocation before allocating another batch."), s.session.cache) := by
      simp only [NativePrefixCache.allocate, ha]
    simp only [step, he]
    exact h
  | none =>
    have hi : CacheInv s.session.cache [] := by simpa [ha, pages] using h.session.inv
    have hpos := h.session.pos
    have hbs := h.session.blockSize
    cases enable with
    | false =>
      simp only [CacheSession.call, NativePrefixCache.allocate, ha] at hse
      simp only [step, NativePrefixCache.allocate, ha]
      generalize hf : fillTables false ps s.session.cache [] = res at hse ⊢
      obtain ⟨r, c, acq⟩ := res
      obtain ⟨⟨-, hsame, -, hid⟩, hok⟩ := fillTables_spec hpos hi hf
      replace hid := hid rfl
      cases r with
      | error e =>
        have hnone : (acq.foldl dropRef c).activeTables = none := by
          rw [(rollback_fields acq c).2.2.2, hsame.activeTables, ha]
        have hnot : ¬ (acq.foldl dropRef c).activeTables.isSome := by simp [hnone]
        refine ⟨hse, fun hno => absurd hno hnot, h.whole, fun k b hk => .inl ?_, fun hno => absurd hno hnot⟩
        rw [prefixToBlock_rollback] at hk
        exact h.written ha (hid k b hk)
      | ok p =>
        obtain ⟨tbs, counts⟩ := p
        obtain ⟨hta, -, hzero⟩ := hok tbs counts rfl
        refine ⟨hse, fun _ => hta.length_eq.symm, fun m hm => hzero rfl m hm ▸ dvd_zero _,
          fun k b hk => .inl (h.written ha (hid k b hk)), fun _ i prompt cached _ hc lb hlb => ?_⟩
        rw [hzero rfl cached (mem_of_getElem? hc)] at hlb
        exact absurd hlb (not_lt_zero _)
    | true =>
      have hr := hro rfl ha
      obtain ⟨allocation, c, hall, hre, hact, -, hta, hke, hnew⟩ := allocate_roomy hpos hi ha hr
      simp only [CacheSession.call, hall] at hse
      simp only [step, hall]
      refine ⟨hse, fun _ => ?_, fun m hm => ?_, fun k b hk => ?_, fun _ i prompt cached hp hc lb hlb => ?_⟩
      · simp only [hact, getD_some]
        exact hta.length_eq.symm
      · simp only [hre.counts] at hm
        obtain ⟨prompt, -, rfl⟩ := mem_map.mp hm
        rw [← hbs]
        exact dvd_mul_left _ _
      · rcases hnew k b hk with hk0 | ⟨hk0, i, lb, prompt, hp, hpage, hend, rfl⟩
        · exact .inl (h.written ha hk0)
        obtain ⟨m, hm, -, hnext⟩ := exists_cachedRun hpos hr (mem_of_getElem? hp)
        rw [← hbs]
        refine .inr ⟨i, lb, prompt, s.session.cache.cachedTokens prompt, not_mem_nil, hp, ?_, hpage, ?_, hend, rfl⟩
        · simp only [hre.counts, getElem?_map, hp, map_some]
        · rw [hm]
          exact mul_le_mul_right _ (hnext lb hend hk0)
      · have hp : ps[i]? = some prompt := hp
        have hca : cached = s.session.cache.cachedTokens prompt := by
          simp only [hre.counts, getElem?_map, hp, map_some, Option.some.injEq] at hc
          exact hc.symm
        obtain ⟨m, hm, hrun, -⟩ := exists_cachedRun hpos hr (mem_of_getElem? hp)
        rw [hca, hm, ← hbs] at hlb
        obtain ⟨hend, b, hb⟩ := hrun lb (Nat.lt_of_mul_lt_mul_right hlb)
        have hmem : some (prompt.take ((lb + 1) * s.session.cache.blockSize)) ∈
            ps.flatMap (keysOf s.session.cache.blockSize) :=
          mem_flatMap.mpr ⟨prompt, mem_of_getElem? hp, mem_keysOf hpos hend⟩
        have hkey := ((hse.inv.index _ b).mp (hke _ hmem b hb)).2
        obtain ⟨hlt, hlo⟩ := blockKey_of_lt hpos hend
        obtain ⟨tb, htb⟩ : ∃ tb, allocation.blockTables[i]? = some tb := by
          have hi' : i < allocation.blockTables.length := hta.length_eq ▸ lt_of_getElem? hp
          exact ⟨_, getElem?_eq_getElem hi'⟩
        have hen := forall₂_getElem? hre.tables i prompt tb hp htb lb hlt b (by rw [hlo]; exact hb)
        have hwr := h.written ha hb
        rw [hbs] at hkey hwr
        exact ⟨b, by simp [NativePrefixCache.pageAt, hact, htb, hen], hkey, hwr⟩

theorem KvInv.step (h : KvInv n bs s) : ∀ event : CacheEvent, Allowed s event → KvInv n bs (s.step event)
  | .allocate _ _, ha => h.allocate ha
  | .prefill ids, _ => h.prefill ids
  | .decode _, ha => h.decode ha
  | .release, ha => h.release ha

theorem kvInv_init (hc : NativePrefixCache.init n bps bs = .ok c) : KvInv n bs { session := ⟨c, []⟩ } := by
  have hs := sessionInv_init hc
  unfold NativePrefixCache.init at hc
  split at hc
  · cases hc
  · cases hc
    exact ⟨hs, by simp, by simp, by simp, by simp⟩

end

/-! ## Hits are written -/

theorem KvInv.skipped_cells {s : CachedKv} (h : KvInv n bs s) (ha : s.session.cache.activeTables.isSome) (hp : s.session.prompts[i]? = some prompt)
    (hc : s.counts[i]? = some cached) (hlt : p < cached) :
    ∃ b, s.session.cache.pageAt i (p / bs) = some b ∧ p < prompt.length ∧
      s.cells b (p % bs) = some (.prefill (prompt.take (p + 1))) := by
  have hpos : 0 < bs := h.session.blockSize ▸ h.session.pos
  have hmod := div_add_mod p bs
  have hre := mod_lt p hpos
  have hmul : (p / bs + 1) * bs = bs * (p / bs) + bs := by ring
  obtain ⟨b, hpage, hkey, hw⟩ := h.skipped ha i prompt cached hp hc (p / bs) (by rw [mul_comm]; omega)
  obtain ⟨prompt', hp', hend, -⟩ := keyedPage h.session h.length hpage hkey
  rw [hp] at hp'
  cases hp'
  refine ⟨b, hpage, by omega, ?_⟩
  rw [hw (p % bs) hre, length_take, min_eq_left hend.le, take_take]
  congr 3
  omega

theorem activeTables_allocate (h : c.allocate ps enable = (.ok allocation, c')) :
    c'.activeTables = some allocation.blockTables := by
  unfold NativePrefixCache.allocate at h
  split at h
  · cases h
  split at h
  · cases h
  · cases h; rfl

/-- What an allocation reports as cached is written, and what a prefill skips is there when it runs. -/
theorem prefixHits_written {numBlocks bps bs : Nat} {c₀ : NativePrefixCache}
    (h₀ : NativePrefixCache.init numBlocks bps bs = .ok c₀) (events : List CacheEvent)
    (hevents : Guarded CachedKv.step Allowed { session := ⟨c₀, []⟩ } events) :
    let s := events.foldl CachedKv.step { session := ⟨c₀, []⟩ }
    (∀ (prompts : List (List Int)) (enable : Bool) (allocation : NativeCacheAllocation) (c : NativePrefixCache),
      Allowed s (.allocate prompts enable) → s.session.cache.allocate prompts enable = (.ok allocation, c) →
      ∀ (i : Nat) (prompt : List Int) (cached : Nat), prompts[i]? = some prompt →
        allocation.numCachedTokens[i]? = some cached → bs ∣ cached ∧
        ∀ p < cached, p < prompt.length ∧ ∃ table b, allocation.blockTables[i]? = some table ∧
          table[p / bs]? = some (some b) ∧ s.cells b (p % bs) = some (.prefill (prompt.take (p + 1)))) ∧
    (∀ (i : Nat) (prompt : List Int) (cached : Nat), s.session.cache.activeTables.isSome →
      s.session.prompts[i]? = some prompt → s.counts[i]? = some cached →
      ∀ p < cached, ∃ b, s.session.cache.pageAt i (p / bs) = some b ∧
        s.cells b (p % bs) = some (.prefill (prompt.take (p + 1)))) := by
  intro s
  have h : KvInv numBlocks bs s :=
    Guarded.inv (P := KvInv numBlocks bs) (fun s a hs ha => KvInv.step hs a ha) (kvInv_init h₀) hevents
  constructor
  · intro prompts enable allocation c hal hall i prompt cached hp hc
    have hnext := h.step _ hal
    simp only [CachedKv.step, hall] at hnext
    have hact := activeTables_allocate hall
    refine ⟨hnext.whole cached (mem_of_getElem? hc), fun p hlt => ?_⟩
    obtain ⟨b, hpage, hlen, hcell⟩ := hnext.skipped_cells (by simp [hact]) hp hc hlt
    obtain ⟨table, ht, hbt⟩ := pageAt_eq_some hpage
    simp only [hact, getD_some] at ht
    exact ⟨hlen, table, b, ht, hbt, hcell⟩
  · intro i prompt cached ha hp hc p hlt
    obtain ⟨b, hpage, -, hcell⟩ := h.skipped_cells ha hp hc hlt
    exact ⟨b, hpage, hcell⟩

def tinyCache (numBlocks bps : Nat) : NativePrefixCache := ⟨numBlocks, bps, 1, fun _ => {}, fun _ => none, 0, none⟩

theorem exists_of_map_toOption {α β γ ε : Type*} {x : Except ε α × β} {f : α → γ} {y : γ}
    (h : x.1.toOption.map f = some y) : ∃ a b, x = (.ok a, b) ∧ f a = y := by
  obtain ⟨r, b⟩ := x
  cases r with
  | error e => cases h
  | ok a => exact ⟨a, b, rfl, Option.some.inj h⟩

theorem prefixHits_written_second :
    let events : List CacheEvent := [.allocate [[1, 2, 3]] true, .prefill [0], .decode [⟨0, 3, [1, 2, 3, 4]⟩], .release]
    let s := events.foldl CachedKv.step { session := ⟨tinyCache 8 4, []⟩ }
    ∃ allocation c, s.session.cache.allocate [[1, 2, 5]] true = (.ok allocation, c) ∧
      allocation.numCachedTokens = [2] ∧ ∃ table b, allocation.blockTables[0]? = some table ∧
        table[1]? = some (some b) ∧ s.cells b 0 = some (.prefill [1, 2]) := by
  intro events s
  have h₀ : NativePrefixCache.init 8 4 1 = .ok (tinyCache 8 4) := rfl
  have hgu : Guarded CachedKv.step Allowed { session := ⟨tinyCache 8 4, []⟩ } events := by
    refine ⟨fun _ _ => ⟨by decide +kernel, by decide +kernel, by decide +kernel, by decide +kernel⟩, trivial, ?_, ?_,
      trivial⟩
    · intro row hrow prompt hp
      cases mem_singleton.mp hrow
      cases (show some [1, 2, 3] = some prompt from hp)
      decide
    · intro _ i hi
      have hi : i < 1 := hi
      obtain rfl : i = 0 := by omega
      decide +kernel
  have hal : Allowed s (.allocate [[1, 2, 5]] true) := fun _ _ =>
    ⟨by decide +kernel, by decide +kernel, by decide +kernel, by decide +kernel⟩
  obtain ⟨allocation, c, hall, hco⟩ := exists_of_map_toOption (show
    (s.session.cache.allocate [[1, 2, 5]] true).1.toOption.map (·.numCachedTokens) = some [2] by decide +kernel)
  have hwr := (prefixHits_written h₀ events hgu).1 _ _ allocation c hal hall 0 [1, 2, 5] 2 rfl (by rw [hco]; rfl)
  obtain ⟨-, table, b, ht, hb, hcell⟩ := hwr.2 1 (by decide)
  exact ⟨allocation, c, hall, hco, table, b, ht, hb, hcell⟩

def evictedKv : CachedKv :=
  [.allocate [[1, 2, 3]] true, .prefill [0], .release, .allocate [[5, 6]] true, .prefill [0], .release].foldl
    CachedKv.step { session := ⟨tinyCache 3 3, []⟩ }

def refusedKv : CachedKv :=
  [.allocate [[1, 2], [1, 2, 3, 4]] true].foldl CachedKv.step { session := ⟨tinyCache 8 3, []⟩ }

/-- Without room, a token is reported whose page holds another prompt's entry, and one whose page nobody has written. -/
theorem prefixHits_unwritten :
    (evictedKv.session.cache.allocate [[1, 2, 3]] true).1.toOption.map (fun a => (a.numCachedTokens, a.blockTables)) =
      some ([1], [[some 0, some 1, some 2]]) ∧
    evictedKv.cells 0 0 = some (.prefill [5, 6]) ∧
    (refusedKv.session.cache.allocate [[1, 2]] true).1.toOption.map (fun a => (a.numCachedTokens, a.blockTables)) =
      some ([1], [[some 0, some 2, none]]) ∧
    refusedKv.cells 0 0 = none := by
  decide +kernel

end VllmAscend
