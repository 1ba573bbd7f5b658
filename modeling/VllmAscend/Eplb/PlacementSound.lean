import VllmAscend.Eplb.Placement
import VllmAscend.Lib.Packed

/-!
# What a checked placement gives

The new maps of a placement that passes the check keep every expert that stays
in its slot and never put two experts into one; from such maps the plan takes
every transfer from a rank that holds the expert, and lists it in the same
order for its sender and its receiver.
-/

namespace VllmAscend.Eplb

open Python Packed
open List hiding getElem?_eq_some_iff

variable {n : Nat}

def At (row : Table) (i v : Nat) : Prop :=
  row[i]? = some (some v)

/-! ## Rows turned around -/

def Distinct (row : Table) : Prop :=
  ∀ {i j v : Nat}, At row i v → At row j v → i = j

variable {i v wd nex num ex : Nat}
  {maps pl current up : Fin n → Table} {rank : Fin n} {om np : List (Fin n → Table)}

theorem At.lt (h : At row i v) : i < row.length := lt_of_getElem? h

theorem at_append : At (row ++ [en]) i v ↔ At row i v ∨ (i = row.length ∧ en = some v) := by
  unfold At
  rcases Nat.lt_trichotomy i row.length with h | rfl | h
  · simp [getElem?_append_left h, h.ne]
  · simp
  have hr : row[i]? = none := getElem?_eq_none h.le
  have ha : (row ++ [en])[i]? = none := getElem?_eq_none (by simp; omega)
  simp [hr, ha, h.ne']

theorem at_set : At (out.set w (some k)) v i ↔ if v = w then v < out.length ∧ i = k else At out v i := by
  unfold At
  by_cases h : v = w
  · subst h
    by_cases hlt : v < out.length
    · simp [hlt, eq_comm]
    · simp [hlt]
  · rw [if_neg h, getElem?_set_ne (Ne.symm h)]

theorem invert_append (wd : Nat) (row : Table) (en : Option Nat) : invert wd (row ++ [en]) =
      en.elim (invert wd row) fun v => (invert wd row).set v (some row.length) := by
  simp [invert, zipIdx_append]

theorem length_invert (wd : Nat) (row : Table) : (invert wd row).length = wd := by
  induction row using reverseRecOn with
  | nil => simp [invert]
  | append_singleton row en ih => cases en <;> simp [invert_append, ih]

theorem at_invert (hr : Distinct row) : At (invert wd row) v i ↔ v < wd ∧ At row i v := by
  induction row using reverseRecOn with
  | nil => simp [invert, At, getElem?_replicate]
  | append_singleton row en ih =>
    have hii : Distinct row := fun hi hj => hr (at_append.mpr (.inl hi)) (at_append.mpr (.inl hj))
    rw [at_append, invert_append]
    cases en with
    | none => simpa using ih hii
    | some w =>
      rw [Option.elim_some, at_set, length_invert]
      by_cases hv : v = w
      · subst hv
        have hn : ¬ At row i v := fun hi =>
          absurd (hr (at_append.mpr (.inl hi)) (at_append.mpr (.inr ⟨rfl, rfl⟩))) hi.lt.ne
        simp [hn]
      · have hw : ¬ (some w = some v) := fun h => hv (Option.some.inj h).symm
        rw [if_neg hv, ih hii]
        simp [hw]

theorem distinct_invert (hr : Distinct row) : Distinct (invert wd row) := by
  intro i j v hi hj
  have hi := (at_invert hr).mp hi
  have hj := (at_invert hr).mp hj
  exact Option.some.inj (Option.some.inj (hi.2.symm.trans hj.2))

/-! ## The check -/

theorem distinct_of_numUnique (h : row.length = numUnique row) : Distinct row := by
  have hn : row.Nodup := by
    rw [← dedup_eq_self]
    exact (dedup_sublist row).eq_of_length h.symm
  intro i j v hi hj
  exact (getElem?_inj hi.lt hn).mp (hi.trans hj.symm)

structure Passes (old new : Table) : Prop where
  distinct : Distinct new
  stays : ∀ {i j v : Nat}, At new i v → At old j v → i = j

theorem passes_of_rankValid (ho : Distinct old) (hl : new.length = old.length)
    (h : rankValid old new) : Passes old new := by
  rw [rankValid, Bool.and_eq_true, decide_eq_true_eq, all_eq_true] at h
  refine ⟨distinct_of_numUnique h.1, ?_⟩
  intro i j v hi hj
  have hlt : i < old.length := hl ▸ hi.lt
  have hz : (some v, old[i]) ∈ new.zip old := mem_of_getElem? (getElem?_zip_eq_some.mpr ⟨hi, getElem?_eq_getElem hlt⟩)
  have hm : some v ∈ old := mem_of_getElem? hj
  have heq := h.2 _ (mem_filter.mpr ⟨hz, by simpa using hm⟩)
  have hi' : At old i v := by
    rw [At, getElem?_eq_getElem hlt]
    simpa using (of_decide_eq_true heq).symm
  exact ho hi' hj

theorem passes_of_checkLayer (ho : ∀ rank, Distinct (old rank))
    (hl : ∀ rank, (new rank).length = (old rank).length) (h : checkLayer old new = new) (rank : Fin n) :
    Passes (old rank) (new rank) := by
  by_cases heq : old = new
  · subst heq
    exact ⟨ho rank, fun hi hj => ho rank hi hj⟩
  unfold checkLayer at h
  split at h
  · exact absurd h heq
  split at h
  · rename_i hv
    exact passes_of_rankValid (ho rank) (hl rank) (hv rank)
  · exact absurd h heq

/-! ## The new maps -/

theorem some_mem_allEntries : some v ∈ allEntries ly ↔ ∃ rank i, At (ly rank) i v := by
  rw [allEntries, mem_flatMap]
  exact ⟨fun ⟨rank, _, h⟩ => ⟨rank, mem_iff_getElem?.mp h⟩,
    fun ⟨rank, h⟩ => ⟨rank, mem_finRange rank, mem_iff_getElem?.mpr h⟩⟩

structure PlacesAll (numExperts : Nat) (layer : Fin n → Table) : Prop where
  lt : ∀ {rank i v}, At (layer rank) i v → v < numExperts
  all : ∀ v < numExperts, ∃ rank i, At (layer rank) i v

theorem globalWidth_eq {pl : List (Fin n → Table)} (hpos : 0 < nex)
    (hne : pl ≠ []) (h : ∀ ly ∈ pl, PlacesAll nex ly) :
    globalWidth pl = .ok nex := by
  obtain ⟨ly, hla⟩ := exists_mem_of_ne_nil pl hne
  have hlast : some (nex - 1) ∈ pl.flatMap allEntries := by
    refine mem_flatMap.mpr ⟨ly, hla, some_mem_allEntries.mpr ?_⟩
    exact (h ly hla).all _ (by omega)
  have hle : ∀ v, some v ∈ pl.flatMap allEntries → v < nex := by
    intro v hv
    obtain ⟨ly, hla, hv⟩ := mem_flatMap.mp hv
    obtain ⟨rank, i, hi⟩ := some_mem_allEntries.mp hv
    exact (h ly hla).lt hi
  unfold globalWidth
  split
  · rename_i hnil
    rw [hnil] at hlast
    cases hlast
  refine congrArg Except.ok ?_
  have hm := mem_map_of_mem (f := fun en : Option Nat => en.elim 0 (· + 1)) hlast
  rw [← foldl_map]
  refine le_antisymm (foldl_max_le fun m hm => ?_) ?_
  · obtain ⟨_ | v, he, rfl⟩ := mem_map.mp hm
    · exact Nat.zero_le _
    · exact hle v he
  · have hlt := le_foldl_max hm
    rwa [Option.elim_some, Nat.sub_add_cancel hpos] at hlt

/-- The maps that the slots of the ranks can have: one width, and each expert somewhere. -/
structure MapsValid (numExperts numLocalExperts : Nat) (maps : Fin n → Table) : Prop where
  width : ∀ rank, (maps rank).length = numExperts
  distinct : ∀ rank, Distinct (maps rank)
  slot_lt : ∀ {rank expert slot}, At (maps rank) expert slot → slot < numLocalExperts
  held : ∀ expert < numExperts, ∃ rank slot, At (maps rank) expert slot

structure Exchangeable (numExperts numLocalExperts : Nat) (cur upd : Fin n → Table) : Prop where
  current : MapsValid numExperts numLocalExperts cur
  updated : MapsValid numExperts numLocalExperts upd
  stays : ∀ {rank : Fin n} {expert slot slot' : Nat}, At (cur rank) expert slot → At (upd rank) expert slot' →
    slot' = slot

theorem exchangeable_of_passes
    (hm : MapsValid nex num maps) (hl : ∀ rank, (pl rank).length = num)
    (hpl : PlacesAll nex pl)
    (hp : ∀ rank, Passes (global2local num maps rank) (pl rank)) :
    Exchangeable nex num maps fun rank => invert nex (pl rank) := by
  refine ⟨hm, ⟨fun _ => length_invert _ _, fun rank => distinct_invert (hp rank).distinct, ?_, ?_⟩, ?_⟩
  · intro rank ex slot h
    exact hl rank ▸ ((at_invert (hp rank).distinct).mp h).2.lt
  · intro ex he
    obtain ⟨rank, slot, h⟩ := hpl.all ex he
    exact ⟨rank, slot, (at_invert (hp rank).distinct).mpr ⟨he, h⟩⟩
  · intro rank ex slot slot' h h'
    have hs := ((at_invert (hp rank).distinct).mp h').2
    exact (hp rank).stays hs ((at_invert (hm.distinct rank)).mpr ⟨hm.slot_lt h, h⟩)

/-! ## The plan -/

theorem mem_cells :
    cell ∈ cells p current up ↔ cell.2 < (current cell.1).length ∧
      p ((current cell.1).getD cell.2 none) ((up cell.1).getD cell.2 none) := by
  obtain ⟨rank, ex⟩ := cell
  simp [cells]

theorem isSome_getD : (row.getD i none).isSome ↔ ∃ v, At row i v := by
  rw [getD_eq_getElem?_getD, Option.isSome_iff_exists]
  unfold At
  cases h : row[i]? with
  | none => simp
  | some en => simp

theorem mem_transfers (h : Exchangeable nex num current up) :
    (rank, ex) ∈ transfers current up ↔
      (∀ slot, ¬ At (current rank) ex slot) ∧ ∃ slot, At (up rank) ex slot := by
  have hn : (current rank).getD ex none = none ↔ ∀ slot, ¬ At (current rank) ex slot := by
    rw [← Option.not_isSome_iff_eq_none, isSome_getD, not_exists]
  rw [transfers, mem_cells, Bool.and_eq_true, isSome_getD, Option.isNone_iff_eq_none, hn]
  refine ⟨fun h => h.2, fun hs => ⟨?_, hs⟩⟩
  obtain ⟨slot, hslot⟩ := hs.2
  have hlt := hslot.lt
  rw [h.updated.width] at hlt
  rwa [h.current.width]

theorem nodup_transfers (current up : Fin n → Table) : (transfers current up).Nodup := by
  refine nodup_flatMap.mpr ⟨fun rank _ => ?_, ?_⟩
  · exact (nodup_range.filter _).map fun a b h => (Prod.mk.inj h).2
  · refine (nodup_finRange n).imp fun {a b} hne => ?_
    refine disjoint_left.mpr fun cell ha hb => ?_
    obtain ⟨_, _, rfl⟩ := mem_map.mp ha
    obtain ⟨_, _, heq⟩ := mem_map.mp hb
    exact hne (Prod.mk.inj heq).1.symm

theorem firstRank_of_mem (h : (rank, ex) ∈ ranks) : ∃ src, firstRank ranks ex = some src := by
  cases hf : ranks.find? fun cell => cell.2 = ex with
  | none => exact absurd (find?_eq_none.mp hf _ h) (by simp)
  | some cell => exact ⟨cell.1, by rw [firstRank, hf]; rfl⟩

theorem mem_of_firstRank (h : firstRank ranks ex = some src) : (src, ex) ∈ ranks := by
  obtain ⟨cell, hf, rfl⟩ := Option.map_eq_some_iff.mp h
  have he : cell.2 = ex := by simpa using find?_some hf
  exact he ▸ mem_of_find?_eq_some hf

structure Move (n : Nat) where
  src : Fin n
  dst : Fin n
  expert : Nat

theorem sourceOf_ok (h : Exchangeable nex num current up) (hlt : ex < nex) :
    ∃ src slot, sourceOf current up ex = .ok src ∧ At (current src) ex slot := by
  unfold sourceOf
  cases hsend : firstRank (cells (fun c u => c.isSome && u.isNone) current up) ex with
  | some src =>
    have hm := (mem_cells.mp (mem_of_firstRank hsend)).2
    obtain ⟨slot, hs⟩ := isSome_getD.mp (Bool.and_eq_true_iff.mp hm).1
    exact ⟨src, slot, rfl, hs⟩
  | none =>
    obtain ⟨rank, slot, hh⟩ := h.current.held ex hlt
    obtain ⟨src, hsr⟩ := firstRank_of_mem (mem_cells.mpr ⟨hh.lt, isSome_getD.mpr ⟨slot, hh⟩⟩ :
      (rank, ex) ∈ cells (fun c _ => c.isSome) current up)
    obtain ⟨slot, hs⟩ := isSome_getD.mp (mem_cells.mp (mem_of_firstRank hsr)).2
    exact ⟨src, slot, by rw [hsr]; rfl, hs⟩

theorem foldlM_addTransfer : ∀ {cells : List (Fin n × Nat)} (info : UpdateInfo n), info.newExpertMap = up →
    (∀ cell ∈ cells, ∃ src slot, sourceOf current up cell.2 = .ok src ∧ At (current src) cell.2 slot) →
    ∃ (mvs : List (Move n)) (info' : UpdateInfo n), cells.foldlM (addTransfer current) info = .ok info' ∧
      info'.newExpertMap = up ∧ info'.layerId = info.layerId ∧
      mvs.map (fun move => (move.dst, move.expert)) = cells ∧
      (∀ move ∈ mvs, ∃ slot, At (current move.src) move.expert slot) ∧
      (∀ rank, listAt rank info'.sendInfo = listAt rank info.sendInfo ++
        (mvs.filter fun move => move.src = rank).map fun move => (move.dst, move.expert)) ∧
      ∀ rank, listAt rank info'.recvInfo = listAt rank info.recvInfo ++
        (mvs.filter fun move => move.dst = rank).map fun move => (move.src, move.expert) := by
  intro cells
  induction cells with
  | nil => exact fun info hif _ => ⟨[], info, rfl, hif, rfl, rfl, by simp, by simp, by simp⟩
  | cons cell cells ih =>
    intro info hif hce
    obtain ⟨src, slot, hsr, hslot⟩ := hce cell (by simp)
    have hadd : addTransfer current info cell = .ok { info with
        sendInfo := dictAppend src cell info.sendInfo
        recvInfo := dictAppend cell.1 (src, cell.2) info.recvInfo } := by
      rw [addTransfer, hif, hsr]; rfl
    obtain ⟨mvs, info', hfo, hmap, hla, hmo, hhe, hsend, hrecv⟩ :=
      ih { info with
        sendInfo := dictAppend src cell info.sendInfo
        recvInfo := dictAppend cell.1 (src, cell.2) info.recvInfo } hif
        fun cell hcell => hce cell (mem_cons_of_mem _ hcell)
    refine ⟨⟨src, cell.1, cell.2⟩ :: mvs, info', ?_, hmap, hla, by simp [hmo], ?_, ?_, ?_⟩
    · rw [foldlM_cons, hadd]
      exact hfo
    · rintro move (_ | ⟨_, hmv⟩)
      · exact ⟨slot, hslot⟩
      · exact hhe move hmv
    · intro rank
      rw [hsend, listAt_dictAppend]
      by_cases h : src = rank <;> simp [h]
    · intro rank
      rw [hrecv, listAt_dictAppend]
      by_cases h : cell.1 = rank <;> simp [h]

structure Planned (current updated : Fin n → Table) (layerId : Nat) (moves : List (Move n)) (info : UpdateInfo n) :
    Prop where
  newExpertMap : info.newExpertMap = updated
  layerId : info.layerId = layerId
  transfers : moves.map (fun move => (move.dst, move.expert)) = transfers current updated
  held : ∀ move ∈ moves, ∃ slot, At (current move.src) move.expert slot
  send : ∀ rank, listAt rank info.sendInfo =
    (moves.filter fun move => move.src = rank).map fun move => (move.dst, move.expert)
  recv : ∀ rank, listAt rank info.recvInfo =
    (moves.filter fun move => move.dst = rank).map fun move => (move.src, move.expert)

theorem composeLayer_ok (h : Exchangeable nex num current up) (layerId : Nat) :
    ∃ mvs info, composeLayer up current layerId = .ok info ∧ Planned current up layerId mvs info := by
  have hwi : ¬ ∃ rank, (current rank).length ≠ (up rank).length := by
    rintro ⟨rank, hne⟩
    exact hne ((h.current.width rank).trans (h.updated.width rank).symm)
  unfold composeLayer
  by_cases heq : up = current
  · rw [if_pos heq]
    subst heq
    have hnone : transfers up up = [] := by
      refine eq_nil_iff_forall_not_mem.mpr fun cell hcell => ?_
      obtain ⟨hnot, slot, hslot⟩ := (mem_transfers h).mp hcell
      exact hnot slot hslot
    exact ⟨[], _, rfl, rfl, rfl, hnone.symm, by simp, fun _ => rfl, fun _ => rfl⟩
  · rw [if_neg heq, if_neg hwi]
    obtain ⟨mvs, info, hfo, hmap, hla, hmo, hhe, hsend, hrecv⟩ :=
      foldlM_addTransfer { newExpertMap := up, layerId } rfl
        fun cell hcell => sourceOf_ok h (by
          obtain ⟨-, slot, hslot⟩ := (mem_transfers h).mp hcell
          exact h.updated.width cell.1 ▸ hslot.lt)
    exact ⟨mvs, info, hfo, hmap, hla, hmo, hhe, hsend, hrecv⟩

structure Accepted (numExperts numLocalExperts : Nat) (oldMaps newPlacement : List (Fin n → Table)) : Prop where
  numExperts_pos : 0 < numExperts
  nonempty : oldMaps ≠ []
  length : newPlacement.length = oldMaps.length
  valid : ∀ maps ∈ oldMaps, MapsValid numExperts numLocalExperts maps
  shape : ∀ layer ∈ newPlacement, ∀ rank, (layer rank).length = numLocalExperts
  placesAll : ∀ layer ∈ newPlacement, PlacesAll numExperts layer
  passes : checkExpertPlacement (oldMaps.map (global2local numLocalExperts)) newPlacement = newPlacement

theorem Accepted.passes_rank (h : Accepted nex num om np) {ly : Nat}
    (hm : om[ly]? = some maps) (hp : np[ly]? = some pl) (rank : Fin n) :
    Passes (global2local num maps rank) (pl rank) := by
  have hv := h.valid maps (mem_of_getElem? hm)
  have hc : checkLayer (global2local num maps) pl = pl := by
    have hpa := congrArg (·[ly]?) h.passes
    simpa [checkExpertPlacement, getElem?_zipWith, hm, hp] using hpa
  refine passes_of_checkLayer (fun rank => distinct_invert (hv.distinct rank)) (fun rank => ?_) hc rank
  exact (h.shape pl (mem_of_getElem? hp) rank).trans (length_invert _ _).symm

def mapsOf (numExperts : Nat) (placement : List (Fin n → Table)) : List (Fin n → Table) :=
  placement.map fun layer rank => invert numExperts (layer rank)

def LayerPlanned (numExperts numLocalExperts : Nat) (layer : ((Fin n → Table) × (Fin n → Table)) × Nat)
    (info : UpdateInfo n) : Prop :=
  Exchangeable numExperts numLocalExperts layer.1.2 layer.1.1 ∧
    ∃ moves, Planned layer.1.2 layer.1.1 layer.2 moves info

theorem doUpdate_ok (h : Accepted nex num om np) :
    ∃ plan, doUpdate num om np = .ok (mapsOf nex np, plan) ∧
      List.Forall₂ (LayerPlanned nex num)
        ((mapsOf nex np).zip om).zipIdx plan := by
  have hne : np ≠ [] := by
    intro hnil
    have := h.length
    rw [hnil, length_nil] at this
    exact h.nonempty (length_eq_zero_iff.mp this.symm)
  have hlo : local2global np = .ok (mapsOf nex np) := by
    rw [local2global, globalWidth_eq h.numExperts_pos hne h.placesAll]; rfl
  have hla : ∀ ly ∈ ((mapsOf nex np).zip om).zipIdx,
      ∃ info, composeLayer ly.1.1 ly.1.2 ly.2 = .ok info ∧
        LayerPlanned nex num ly info := by
    rintro ⟨⟨up, current⟩, layerId⟩ hmem
    obtain ⟨hup, hcu⟩ := getElem?_zip_eq_some.mp (mem_zipIdx_iff_getElem?.mp hmem)
    rw [mapsOf, getElem?_map] at hup
    obtain ⟨pl, hpl, rfl⟩ := Option.map_eq_some_iff.mp hup
    have hmem := mem_of_getElem? hpl
    have hec := exchangeable_of_passes (h.valid current (mem_of_getElem? hcu))
      (h.shape pl hmem) (h.placesAll pl hmem) (h.passes_rank hcu hpl)
    obtain ⟨mvs, info, hco, hpn⟩ := composeLayer_ok hec layerId
    exact ⟨info, hco, hec, mvs, hpn⟩
  obtain ⟨plan, hpa, hfo⟩ := mapM_forall₂ hla
  refine ⟨plan, ?_, hfo⟩
  rw [doUpdate, h.passes, hlo]
  show (do let plan ← composeExpertUpdateInfoGreedy _ om; pure (_, plan)) = _
  rw [composeExpertUpdateInfoGreedy, hpa]; rfl

end VllmAscend.Eplb
