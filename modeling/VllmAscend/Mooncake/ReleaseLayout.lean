import VllmAscend.Mooncake.PullSound
import VllmAscend.Mooncake.Release

/-!
# The pulls of a layout

`start_load_kv` makes a task of every port of every shard. Together with the
numbers that `get_remote_port_send_num` announces, the shards of all decode
ranks are a plan of pulls.
-/

namespace VllmAscend.Mooncake

open Python
open List hiding getElem?_eq_some_iff

namespace Pull

def Worker.ranks (w : Worker) : List Rank :=
  (List.range w.side.pcpSize).flatMap fun pcpRank => (List.range w.side.tpSize).map fun tpRank => ⟨tpRank, pcpRank⟩

def Worker.tasks (w : Worker) (shards : Rank → List Shard) : List (Nat × Nat) :=
  w.ranks.flatMap fun rank => ((shards rank).flatMap Shard.ports).map fun port => (w.handshakePort rank, port)

section
variable {p d : Side} {w : Worker}

variable {pl mapping : List (List Nat)}

theorem isPort_appendMambaPorts (hrank : tpr < dts) (hne : fp ≠ []) (h : ∀ port ∈ fp, p.IsPort port) :
    ∀ port ∈ appendMambaPorts p dts tpr fp, p.IsPort port := by
  obtain ⟨port0, rest, rfl⟩ := exists_cons_of_ne_nil hne
  have hhead := h port0 (by simp)
  unfold appendMambaPorts
  dsimp only [headD_cons]
  refine foldlRecOn (motive := fun po => ∀ port ∈ po, p.IsPort port) (range (p.tpSize / dts)) _ h
    fun po hports j hj => ?_
  split
  · exact hports
  intro port hport
  rcases mem_append.mp hport with hport | hport
  · exact hports port hport
  cases mem_singleton.mp hport
  have hj := mem_range.mp hj
  -- the rank's share of the tensor parallel ranks
  have hshare : tpr * (p.tpSize / dts) + p.tpSize / dts ≤ p.tpSize := by
    rw [← Nat.succ_mul]
    exact (Nat.mul_le_mul_right _ hrank).trans (Nat.mul_div_le ..)
  have hrow : (port0 - p.port) / p.tpSize < p.pcpSize :=
    Nat.div_lt_of_lt_mul (by have := hhead.1; have := hhead.2; omega)
  have hrows : (port0 - p.port) / p.tpSize * p.tpSize + p.tpSize ≤ p.tpSize * p.pcpSize := by
    rw [← Nat.succ_mul, Nat.mul_comm p.tpSize]
    exact Nat.mul_le_mul_right _ hrow
  exact ⟨by omega, by omega⟩

def IsPortList (p : Side) (portList : List (List Nat)) : Prop :=
  ∀ ports ∈ portList, ports ≠ [] ∧ ∀ port ∈ ports, p.IsPort port

theorem IsPortList.setHmaSharedPort (hli : IsPortList p pl) (hfi : p.Fits h) (hrank : tpr < dts)
    (hset : setHmaSharedPort h p dts tpr chosenTpList pl = .ok portList') : IsPortList p portList' := by
  obtain ⟨swap, hsp, swapped, hsw, rfl⟩ := setHmaSharedPort_ok hfi hset
  have hsa : IsPortList p swapped := by
    subst hsw
    intro po hpo
    obtain ⟨po, hmem, rfl⟩ := mem_map.mp hpo
    refine ⟨by simpa using (hli po hmem).1, fun port hpr => ?_⟩
    obtain ⟨i, hi, rfl⟩ := mem_mapIdx.mp hpr
    exact (hsp i _ ((hli po hmem).2 _ (getElem_mem hi))).2
  intro po hpo
  rcases mem_append.mp hpo with hpo | hpo
  · exact hsa po (dropLast_subset _ hpo)
  obtain ⟨last, hlast, rfl⟩ := mem_map.mp hpo
  have hlast := hsa last (mem_of_getLast? (Option.mem_toList.mp hlast))
  refine ⟨?_, isPort_appendMambaPorts hrank hlast.1 hlast.2⟩
  obtain ⟨rest, hrest⟩ := appendMambaPorts_extends (p := p) dts tpr last
  rw [← hrest]
  exact append_ne_nil_of_left_ne_nil hlast.1 rest

theorem isPortList_remoteHandshakePortList (hp : m.remote.Fits w.heads) (hd : w.side.Fits w.heads)
    (htp : rank.tpRank < w.side.tpSize) (hmap : w.portMapping rank m = .ok mapping)
    (hpl : w.remoteHandshakePortList rank chosenTpList m mapping = .ok pl) :
    IsPortList m.remote pl := by
  obtain ⟨hne, hmp⟩ := portMapping_pulls hp hd htp hmap
  unfold Worker.remoteHandshakePortList at hpl
  generalize hmo : mapping.map (moveFinal (w.finalBlockIdx rank m)) = moved at hpl hmp
  have hne : moved ≠ [] := by rwa [← hmo, Ne, map_eq_nil_iff]
  have hlen : ∀ po ∈ moved, po.length = (w.shardCpRanks rank m).length := fun po hpo => by
    rw [← (hmp po hpo).1, length_map]
  have hbase : IsPortList m.remote
      ((range (moved.headD []).length).map fun idx => moved.map fun po => po.getD idx 0) := by
    intro shardPorts hsh
    obtain ⟨idx, hidx, rfl⟩ := mem_map.mp hsh
    refine ⟨by simpa using hne, fun port hpr => ?_⟩
    obtain ⟨po, hpo, rfl⟩ := mem_map.mp hpr
    have hhead : (moved.headD []).length = (w.shardCpRanks rank m).length := by
      obtain ⟨ports0, rest, rfl⟩ := exists_cons_of_ne_nil hne
      exact hlen ports0 (by simp)
    have hlt : idx < po.length := by
      rw [hlen po hpo, ← hhead]
      exact mem_range.mp hidx
    rw [getD, getElem?_eq_getElem hlt]
    exact (hmp po hpo).2 _ (getElem_mem hlt)
  split at hpl
  · exact hbase.setHmaSharedPort hp htp hpl
  · cases hpl
    exact hbase

theorem ports_of_getKvSplitMetadata (hp : m.remote.Fits w.heads) (hd : w.side.Fits w.heads)
    (htp : rank.tpRank < w.side.tpSize) (hok : w.getKvSplitMetadata rank chosenTpList m = .ok shards) :
    (∀ shard ∈ shards, ∀ port ∈ shard.ports, m.remote.IsPort port) ∧
      (w.localCpRank rank = 0 → shards.flatMap Shard.ports ≠ []) := by
  obtain ⟨⟨⟩, -, hok⟩ := bind_ok.mp hok
  obtain ⟨⟨⟩, -, hok⟩ := bind_ok.mp hok
  obtain ⟨mapping, hmap, hok⟩ := bind_ok.mp hok
  obtain ⟨⟨⟩, -, hok⟩ := bind_ok.mp hok
  obtain ⟨⟨⟩, -, hok⟩ := bind_ok.mp hok
  obtain ⟨pl, hpl, hok⟩ := bind_ok.mp hok
  obtain ⟨⟨⟩, -, hok⟩ := bind_ok.mp hok
  cases hok
  have hli := isPortList_remoteHandshakePortList hp hd htp hmap hpl
  constructor
  · intro shard hsh port hpr
    obtain ⟨idx, hidx, rfl⟩ := mem_map.mp hsh
    have hlt := mem_range.mp hidx
    have hpo : (w.shard rank m pl idx).ports ∈ pl := by
      change pl.getD idx [] ∈ pl
      rw [getD, getElem?_eq_getElem hlt]
      exact getElem_mem hlt
    exact (hli _ hpo).2 port hpr
  · intro hzero
    have hne : 0 < mapping.length := length_pos_of_ne_nil (portMapping_pulls hp hd htp hmap).1
    have hca := carries_remoteHandshakePortList hp hd htp hmap hne hpl
    -- the first prefill rank is pulled by the first decode rank
    have hmem : 0 ∈ w.shardCpRanks rank m := by
      rw [Worker.shardCpRanks, (moveFinal_perm _ _).mem_iff, Worker.pulledCpRanks, shardRanks, hzero]
      simpa using hp.cpSize_pos
    obtain ⟨idx, hidx⟩ := mem_iff_getElem?.mp hmem
    obtain ⟨port, hpr, -⟩ := hca.2 idx 0 hidx
    have hlt : idx < pl.length := hca.1 ▸ lt_of_getElem? hidx
    refine ne_nil_of_mem (a := port) (mem_flatMap.mpr ⟨w.shard rank m pl idx, ?_, ?_⟩)
    · exact mem_map_of_mem (mem_range.mpr hlt)
    · exact mem_of_getElem? hpr

end

end Pull

namespace Release

open Pull

structure Layout where
  worker : Worker
  req : ReqMeta
  remoteFits : req.remote.Fits worker.heads
  localFits : worker.side.Fits worker.heads
  mappings : Mappings
  shards : Rank → List Shard
  chosenTpLists : Rank → List Nat
  mapped : getLocalRemoteBlockPortMappings worker.heads req.remote worker.side
    (blockRatio worker.blockSize (worker.remoteBlockSize req)) = .ok mappings
  accepted : ∀ rank ∈ worker.ranks, worker.getKvSplitMetadata rank (chosenTpLists rank) req = .ok (shards rank)

namespace Layout

variable (layout : Layout)

theorem tpRank_lt (h : rank ∈ layout.worker.ranks) : rank.tpRank < layout.worker.side.tpSize := by
  simp only [Worker.ranks, mem_flatMap, mem_map, mem_range] at h
  obtain ⟨pcpRank, -, tpr, htp, rfl⟩ := h
  exact htp

theorem port_mem (h : task ∈ layout.worker.tasks layout.shards) :
    task.2 ∈ (getRemotePortSendNum layout.req.remote layout.mappings).map Prod.fst := by
  simp only [Worker.tasks, mem_flatMap, mem_map] at h
  obtain ⟨rank, hr, port, ⟨shard, hs, hp⟩, rfl⟩ := h
  have hi := (ports_of_getKvSplitMetadata layout.remoteFits layout.localFits (layout.tpRank_lt hr)
    (layout.accepted rank hr)).1 shard hs port hp
  simp only [getRemotePortSendNum, map_map, mem_map, mem_range, Function.comp]
  exact ⟨port - layout.req.remote.port, by have := hi.1; have := hi.2; omega, Nat.add_sub_cancel' hi.1⟩

def plan : Plan where
  remotePorts := (getRemotePortSendNum layout.req.remote layout.mappings).map Prod.fst
  mappings := layout.mappings
  size := (layout.worker.tasks layout.shards).length
  worker t := ((layout.worker.tasks layout.shards).get t).1
  port t := ((layout.worker.tasks layout.shards).get t).2
  first := layout.worker.side.port
  port_mem _ := layout.port_mem (List.get_mem ..)

theorem exists_first : ∃ t, layout.plan.worker t = layout.plan.first := by
  have hr : (⟨0, 0⟩ : Rank) ∈ layout.worker.ranks := by
    simp only [Worker.ranks, mem_flatMap, mem_map, mem_range]
    exact ⟨0, layout.localFits.pcpPos, 0, layout.localFits.tpPos, rfl⟩
  have hne := (ports_of_getKvSplitMetadata layout.remoteFits layout.localFits (layout.tpRank_lt hr)
    (layout.accepted _ hr)).2 (by simp [Worker.localCpRank, Worker.dcpRank])
  obtain ⟨port, hp⟩ := exists_mem_of_ne_nil _ hne
  have hm : (layout.worker.handshakePort ⟨0, 0⟩, port) ∈ layout.worker.tasks layout.shards :=
    mem_flatMap.mpr ⟨⟨0, 0⟩, hr, mem_map_of_mem hp⟩
  obtain ⟨t, ht⟩ := get_of_mem hm
  refine ⟨t, ?_⟩
  change ((layout.worker.tasks layout.shards).get t).1 = layout.worker.side.port
  rw [ht]
  simp [Worker.handshakePort]

/-- The first decode rank always has a pull, so the mark of the request is left there. -/
theorem not_released (hdone : (World.run layout.plan events).Complete) :
    ((World.run layout.plan events).decoders layout.plan.first).procNotTransfer ≠ none ∧
      ¬ (World.run layout.plan events).Released := by
  obtain ⟨t, ht⟩ := layout.exists_first
  have hleft := World.mark_left hdone ht
  refine ⟨hleft, fun hr => hleft ?_⟩
  rw [hr.2]

end Layout

def replicatedWorker : Worker where
  heads := ⟨true, 1⟩
  isDeepseekMla := true
  isHmaRequired := false
  side := ⟨1, 1, 1, 500⟩
  blockSize := 2
  groups := [.attention 1]

def replicatedMeta : ReqMeta where
  remote := ⟨2, 2, 1, 700⟩
  remoteBlockSize := some 2
  numExternalTokens := 4
  numPromptBlocks := 2
  localBlockIds := [[7, 8]]
  remoteBlockIds := [[5]]

theorem replicated_accepted : ∀ rank ∈ replicatedWorker.ranks,
    replicatedWorker.getKvSplitMetadata rank [] replicatedMeta =
      .ok [⟨[700], [([5], [7])]⟩, ⟨[702], [([5], [8])]⟩] := by
  intro rank hr
  cases mem_singleton.mp hr
  rfl

def replicatedLayout : Layout where
  worker := replicatedWorker
  req := replicatedMeta
  remoteFits := ⟨by decide, by decide, by decide, by decide, by decide⟩
  localFits := ⟨by decide, by decide, by decide, by decide, by decide⟩
  mappings := [(500, [[700, 702]])]
  shards _ := [⟨[700], [([5], [7])]⟩, ⟨[702], [([5], [8])]⟩]
  chosenTpLists _ := []
  mapped := rfl
  accepted := replicated_accepted

def replicatedEvents : List (Fin replicatedLayout.plan.size × Bool) :=
  [(⟨0, by decide⟩, true), (⟨1, by decide⟩, true)] ++ List.replicate 7 (⟨0, by decide⟩, true) ++
    List.replicate 9 (⟨1, by decide⟩, true)

theorem replicated_complete : (World.run replicatedLayout.plan replicatedEvents).Complete := by
  unfold World.Complete
  decide

theorem not_released_replicated :
    ((World.run replicatedLayout.plan replicatedEvents).decoders 500).procNotTransfer ≠ none ∧
      ¬ (World.run replicatedLayout.plan replicatedEvents).Released :=
  replicatedLayout.not_released replicated_complete

/-- The ranks that are not pulled from are told twice, and the mark of the request stays. -/
theorem told_twice : (World.run replicatedLayout.plan replicatedEvents).Complete ∧
      replicatedLayout.plan.announced 701 = 0 ∧
      ((World.run replicatedLayout.plan replicatedEvents).prefillers 701).received = 2 ∧
      ((World.run replicatedLayout.plan replicatedEvents).decoders 500).procNotTransfer = some false ∧
      ¬ (World.run replicatedLayout.plan replicatedEvents).Released := by
  have htwo : ((World.run replicatedLayout.plan replicatedEvents).prefillers 701).received = 2 := by decide
  refine ⟨replicated_complete, by decide, htwo, by decide, fun hr => ?_⟩
  have hone := (hr.1 701 (by decide)).1
  rw [htwo] at hone
  cases hone

end Release

end VllmAscend.Mooncake
