import Mathlib.Data.List.Pairwise
import Mathlib.Data.List.Sort
import VllmAscend.Lib.Python

/-!
# The memory that is registered

`collect_storage_merged_register_regions` sorts the byte ranges of the cache tensors
of each storage and merges what overlaps or lies at most a gap apart.
-/

namespace VllmAscend.Register

open List Python

def registerMergeGapBytes : Nat := 4096

/-- A cache tensor; `storage` is the address of the storage it is a view of. -/
structure Tensor where
  storage : Nat
  dataPtr : Nat
  numel : Nat
  elementSize : Nat

structure RegisterRange where
  start : Nat
  stop : Nat
deriving DecidableEq

structure RegisterRegions where
  ptrs : List Nat
  lengths : List Nat
  logicalTensorCount : Nat
  logicalTotalBytes : Nat
deriving DecidableEq

def Tensor.nbytes (t : Tensor) : Nat := t.numel * t.elementSize

def Tensor.range (t : Tensor) : RegisterRange := ⟨t.dataPtr, t.dataPtr + t.nbytes⟩

def rangesByStorage (tensors : List Tensor) : List (Nat × List RegisterRange) :=
  tensors.foldl (fun d t => dictAppend t.storage t.range d) []

def sweep : RegisterRange → List RegisterRange → List RegisterRange
  | merged, [] => [merged]
  | merged, r :: ranges =>
    if r.start ≤ merged.stop + registerMergeGapBytes then sweep ⟨merged.start, max merged.stop r.stop⟩ ranges
    else merged :: sweep r ranges

def mergedRegions (ranges : List RegisterRange) : List RegisterRange :=
  match ranges.insertionSort (·.start ≤ ·.start) with
  | [] => []
  | r :: ranges => sweep r ranges

/-- The tensors are given in the order in which the caches list them. -/
def collectStorageMergedRegisterRegions (tensors : List Tensor) : RegisterRegions :=
  let tensors := tensors.filter (·.numel ≠ 0)
  let regions := (rangesByStorage tensors).flatMap fun p => mergedRegions p.2
  { ptrs := regions.map (·.start)
    lengths := regions.map fun r => r.stop - r.start
    logicalTensorCount := tensors.length
    logicalTotalBytes := (tensors.map Tensor.nbytes).sum }

/-! ## Groups of ranges -/

def RegisterRange.Inside (r region : RegisterRange) : Prop := region.start ≤ r.start ∧ r.stop ≤ region.stop

/-- The region is the smallest that has the ranges of the group inside. -/
structure Hull (group : List RegisterRange) (region : RegisterRange) : Prop where
  inside : ∀ r ∈ group, r.Inside region
  first : ∃ r ∈ group, r.start = region.start
  last : ∃ r ∈ group, r.stop = region.stop

theorem hull_singleton (r : RegisterRange) : Hull [r] r :=
  ⟨fun x hx => mem_singleton.mp hx ▸ ⟨le_rfl, le_rfl⟩, ⟨r, by simp⟩, ⟨r, by simp⟩⟩

structure Merged (ranges regions : List RegisterRange) (groups : List (List RegisterRange × RegisterRange)) : Prop where
  regions : groups.map Prod.snd = regions
  ranges : (groups.flatMap Prod.fst).Perm ranges
  hull : ∀ g ∈ groups, Hull g.1 g.2
  apart : groups.Pairwise fun g g' => g.2.stop + registerMergeGapBytes < g'.2.start

theorem sweep_merged : ∀ {ranges group : List RegisterRange} {mg : RegisterRange}, Hull group mg →
    (group ++ ranges).Pairwise (·.start ≤ ·.start) →
    ∃ groups, Merged (group ++ ranges) (sweep mg ranges) groups ∧ ∀ g ∈ groups, mg.start ≤ g.2.start
  | [], group, mg, h, _ => ⟨[(group, mg)], ⟨rfl, by simp, by simpa using h, by simp⟩, by simp⟩
  | r :: ranges, group, mg, h, hs => by
    obtain ⟨r1, h1, hfirst⟩ := h.first
    have hle : mg.start ≤ r.start := hfirst ▸ (pairwise_append.mp hs).2.2 r1 h1 r mem_cons_self
    unfold sweep
    split
    · have h' : Hull (group ++ [r]) ⟨mg.start, max mg.stop r.stop⟩ := by
        refine ⟨fun x hx => ?_, ⟨r1, mem_append_left _ h1, hfirst⟩, ?_⟩
        · rcases mem_append.mp hx with hx | hx
          · exact ⟨(h.inside x hx).1, (h.inside x hx).2.trans (le_max_left ..)⟩
          · rw [mem_singleton.mp hx]
            exact ⟨hle, le_max_right ..⟩
        · obtain ⟨r2, h2, hlast⟩ := h.last
          rcases max_cases mg.stop r.stop with hm | hm
          · exact ⟨r2, mem_append_left _ h2, hlast.trans hm.1.symm⟩
          · exact ⟨r, by simp, hm.1.symm⟩
      simpa using sweep_merged h' (by simpa using hs)
    · next hgap =>
      obtain ⟨groups, hg, hge⟩ := sweep_merged (hull_singleton r) (pairwise_append.mp hs).2.1
      refine ⟨(group, mg) :: groups, ⟨by simp [hg.regions], ?_, ?_, ?_⟩, ?_⟩
      · exact hg.ranges.append_left group
      · exact forall_mem_cons.mpr ⟨h, hg.hull⟩
      · exact pairwise_cons.mpr ⟨fun g hm => (not_le.mp hgap).trans_le (hge g hm), hg.apart⟩
      · exact forall_mem_cons.mpr ⟨le_rfl, fun g hm => hle.trans (hge g hm)⟩

theorem mergedRegions_merged (ranges : List RegisterRange) : ∃ groups, Merged ranges (mergedRegions ranges) groups := by
  have hp := perm_insertionSort (fun r r' : RegisterRange => r.start ≤ r'.start) ranges
  have : Std.Total fun r r' : RegisterRange => r.start ≤ r'.start := ⟨fun _ _ => le_total ..⟩
  have : IsTrans RegisterRange (·.start ≤ ·.start) := ⟨fun _ _ _ => le_trans⟩
  have hs := pairwise_insertionSort (fun r r' : RegisterRange => r.start ≤ r'.start) ranges
  unfold mergedRegions
  generalize ranges.insertionSort (·.start ≤ ·.start) = sorted at hp hs
  cases sorted with
  | nil => exact ⟨[], rfl, hp, by simp, .nil⟩
  | cons r rest =>
    obtain ⟨groups, hg, -⟩ := sweep_merged (hull_singleton r) hs
    exact ⟨groups, hg.regions, hg.ranges.trans hp, hg.hull, hg.apart⟩

theorem inside_one {r : RegisterRange} {ranges : List RegisterRange} (hg : Merged ranges regions groups)
    (hr : r ∈ ranges) (hle : r.start ≤ r.stop) :
    ∃ g ∈ groups, r.Inside g.2 ∧ ∀ g' ∈ groups, r.Inside g'.2 → g' = g := by
  obtain ⟨g, hm, hr⟩ := mem_flatMap.mp (hg.ranges.mem_iff.mpr hr)
  have hin := (hg.hull g hm).inside r hr
  refine ⟨g, hm, hin, fun g' hm' hin' => by_contra fun hne => ?_⟩
  -- of two regions apart, at most one has the range inside
  have hno : groups.Pairwise fun g g' => ¬ (r.Inside g.2 ∧ r.Inside g'.2) :=
    hg.apart.imp fun {g g'} hlt h => absurd (h.2.1.trans (hle.trans h.1.2)) (by omega)
  have : Std.Symm fun g g' : List RegisterRange × RegisterRange => ¬ (r.Inside g.2 ∧ r.Inside g'.2) :=
    ⟨fun _ _ h h' => h h'.symm⟩
  exact hno.forall hm' hm hne ⟨hin', hin⟩

/-- In each storage every tensor is inside one region, and each region is the hull of a group of its tensors. -/
theorem register_regions (tensors : List Tensor) :
    ∃ parts : List (Nat × List (List RegisterRange × RegisterRange)), (parts.map Prod.fst).Nodup ∧
      (let regions := (parts.flatMap Prod.snd).map Prod.snd
        let registered := collectStorageMergedRegisterRegions tensors
        registered.ptrs = regions.map (·.start) ∧ registered.lengths = regions.map fun r => r.stop - r.start) ∧
      (∀ t ∈ tensors, t.numel ≠ 0 → ∃ p ∈ parts, p.1 = t.storage ∧
        ∃ g ∈ p.2, t.range.Inside g.2 ∧ ∀ g' ∈ p.2, t.range.Inside g'.2 → g' = g) ∧
      ∀ p ∈ parts, (p.2.Pairwise fun g g' => g.2.stop + registerMergeGapBytes < g'.2.start) ∧
        (∀ g ∈ p.2, Hull g.1 g.2) ∧ (p.2.flatMap Prod.fst).Perm
          ((tensors.filter fun t => t.numel ≠ 0 ∧ t.storage = p.1).map Tensor.range) := by
  choose groups hg using mergedRegions_merged
  obtain ⟨hn, hin, hof⟩ := group_groups (f := Tensor.storage) (g := Tensor.range) (tensors.filter (·.numel ≠ 0))
  refine ⟨(rangesByStorage (tensors.filter (·.numel ≠ 0))).map fun p => (p.1, groups p.2), ?_, ?_, fun t ht hne => ?_, ?_⟩
  · simpa [Function.comp_def, rangesByStorage] using hn
  · simp [collectStorageMergedRegisterRegions, flatMap_map, map_flatMap, (hg _).regions]
  · obtain ⟨p, hp, he, hm⟩ := hin t (by simp [ht, hne])
    exact ⟨_, mem_map_of_mem hp, he, inside_one (hg _) hm (Nat.le_add_right ..)⟩
  · refine forall_mem_map.mpr fun p hp => ⟨(hg _).apart, (hg _).hull, (hg p.2).ranges.trans (.of_eq ?_)⟩
    simpa [and_comm] using (hof p hp).1

/-- Two storages overlap, and the second tensor is inside the regions of both; a tensor without elements is in none. -/
theorem register_regions_overlapping :
    let out := collectStorageMergedRegisterRegions [⟨0, 0, 8, 1⟩, ⟨4, 4, 4, 1⟩]
    (out.ptrs = [0, 4] ∧ out.lengths = [8, 4] ∧
      (⟨4, 4, 4, 1⟩ : Tensor).range.Inside ⟨0, 8⟩ ∧ (⟨4, 4, 4, 1⟩ : Tensor).range.Inside ⟨4, 8⟩) ∧
      (collectStorageMergedRegisterRegions [⟨0, 0, 0, 1⟩]).ptrs = [] :=
  ⟨⟨by decide, by decide, ⟨by decide, by decide⟩, by decide, by decide⟩, by decide⟩

end VllmAscend.Register
