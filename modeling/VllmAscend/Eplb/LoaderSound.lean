import VllmAscend.Eplb.Loader
import VllmAscend.Eplb.PlacementSound

/-!
# The weights after an exchange

A layer's entry of the plan, executed on all ranks: the batch completes, since
every pair of ranks lists its transfers in one order, and the copies put every
expert into the slot of the new map without touching those that stay.
-/

namespace VllmAscend.Eplb

open Python Batch Function
open List hiding getElem?_eq_some_iff

variable {num layerId : Nat}

variable {n : Nat} {κ τ : Type}

theorem pyGet_ok {α : Type} {l : List α} {a : α} (h : l[i]? = some a) : pyGet l i = .ok a := by
  rw [pyGet, h]; rfl

/-! ## What a rank posts -/

section
variable (weights : Nat → List τ) (numTensors : Nat)

def postedOps (sends recvs : List (Fin n × Nat)) : List (Op (Fin n) BufferTensor τ) :=
  sends.flatMap (fun send => (weights send.2).map (.send send.1)) ++
    recvs.zipIdx.flatMap fun recv => ((List.range numTensors).map fun i => (recv.2, i)).map (.recv recv.1.1)

variable {weights numTensors} {sends rv : List (Fin n × Nat)}

def Expected (weights : Nat → List τ) (recvs : List (Fin n × Nat)) (key : BufferTensor) (x : τ) : Prop :=
  ∃ recv, recvs[key.1]? = some recv ∧ (weights recv.2)[key.2]? = some x

theorem forall₂_expected
    (hee : (rv.filter fun recv => recv.1 = src).map Prod.snd = (sends.filter fun send => send.1 = dst).map Prod.snd)
    (hlen : ∀ recv ∈ rv, (weights recv.2).length = numTensors) :
    List.Forall₂ (Expected weights rv) (keysFrom src (postedOps weights numTensors sends' rv))
      (sentTo dst (postedOps weights numTensors sends recvs')) := by
  rw [postedOps, postedOps, keysFrom_sends_recvs rfl, sentTo_sends_recvs rfl]
  have hpa : List.Forall₂ (fun (recv : (Fin n × Nat) × Nat) (send : Fin n × Nat) =>
      recv ∈ rv.zipIdx ∧ recv.1.2 = send.2) (rv.zipIdx.filter fun recv => recv.1.1 = src)
      (sends.filter fun send => send.1 = dst) := by
    refine (forall₂_and_left _ _).mpr ⟨fun recv hrecv => mem_of_mem_filter hrecv, ?_⟩
    have hfst : (rv.zipIdx.filter fun recv => recv.1.1 = src).map Prod.fst =
        rv.filter fun recv => recv.1 = src := by
      conv_rhs => rw [← zipIdx_map_fst 0 rv, filter_map]
      rfl
    rw [← hfst, map_map, ← forall₂_eq_eq_eq, forall₂_map_left_iff, forall₂_map_right_iff] at hee
    exact hee
  refine rel_flatMap hpa ?_
  rintro ⟨⟨rank, ex⟩, buf⟩ ⟨rank', expert'⟩ ⟨hmem, hep⟩
  obtain rfl : ex = expert' := hep
  have hrecv := mem_zipIdx_iff_getElem?.mp hmem
  rw [forall₂_map_left_iff]
  refine forall₂_iff_get.mpr ⟨?_, fun i hi hi' => ⟨(rank, ex), ?_, ?_⟩⟩
  · exact length_range.trans (hlen (rank, ex) (mem_of_getElem? hrecv)).symm
  · exact hrecv
  · have hlt : i < (weights ex).length := hi'
    simp [hlt]

end

/-! ## Writes -/

def readBuffer (buffers : List (List τ)) (key : BufferTensor) : Option τ :=
  buffers[key.1]?.bind fun buffer => buffer[key.2]?

theorem map_length_writeBuffer (bufs : List (List τ)) (msg : BufferTensor × τ) :
    (writeBuffer bufs msg).map length = bufs.map length := by
  refine ext_getElem? fun i => ?_
  by_cases h : msg.1.1 = i
  · simp [writeBuffer, h, Option.map_map, comp_def]
  · simp [writeBuffer, h]

variable {key : BufferTensor} {numTensors : Nat}

theorem readBuffer_writeBuffer (bufs : List (List τ)) (msg : BufferTensor × τ) :
    readBuffer (writeBuffer bufs msg) key =
      (readBuffer bufs key).map fun x => if msg.1 = key then msg.2 else x := by
  obtain ⟨⟨b, i⟩, x⟩ := msg
  obtain ⟨b', i'⟩ := key
  simp only [readBuffer, writeBuffer, getElem?_modify]
  cases bufs[b']? with
  | none => rfl
  | some buf =>
    by_cases hb : b = b' <;> by_cases hi : i = i' <;> simp [hb, hi, getElem?_set_self']
    rfl

theorem map_length_foldl_writeBuffer (msgs : List (BufferTensor × τ)) (bufs : List (List τ)) :
    (msgs.foldl writeBuffer bufs).map length = bufs.map length := by
  induction msgs generalizing bufs with
  | nil => rfl
  | cons msg msgs ih => rw [foldl_cons, ih, map_length_writeBuffer]

theorem readBuffer_foldl {x : τ} : ∀ {msgs : List (BufferTensor × τ)} {bufs : List (List τ)},
    (∀ msg ∈ msgs, msg.1 = key → msg.2 = x) → readBuffer (msgs.foldl writeBuffer bufs) key =
      (readBuffer bufs key).map fun y => if key ∈ msgs.map Prod.fst then x else y := by
  intro msgs
  induction msgs with
  | nil => intro bufs _; simp
  | cons msg msgs ih =>
    intro bufs hv
    rw [foldl_cons, ih fun m hm => hv m (mem_cons_of_mem _ hm), readBuffer_writeBuffer, Option.map_map]
    congr 1
    funext y
    by_cases hk : msg.1 = key
    · simp [hk, hv msg mem_cons_self hk]
    · simp only [comp, hk, if_false, map_cons, mem_cons, Ne.symm hk, false_or]

theorem map_length_eq_replicate {bufs : List (List τ)} :
    bufs.map length = replicate k numTensors ↔
      bufs.length = k ∧ ∀ buf ∈ bufs, buf.length = numTensors := by
  simp [eq_replicate_iff]

theorem buffers_received {weights : Nat → List τ} {msgs : List (BufferTensor × τ)}
    (hke : msgs.map Prod.fst = rv.zipIdx.flatMap fun recv => (range numTensors).map fun i => (recv.2, i))
    (hep : ∀ msg ∈ msgs, Expected weights rv msg.1 msg.2)
    (hlen : ∀ buf ∈ bufs, buf.length = numTensors) (hle : rv.length ≤ bufs.length)
    {b : Nat} {recv : Fin n × Nat} (hrecv : rv[b]? = some recv) (hwe : (weights recv.2).length = numTensors) :
    (msgs.foldl writeBuffer bufs)[b]? = some (weights recv.2) := by
  have hb : b < bufs.length := (lt_of_getElem? hrecv).trans_le hle
  obtain ⟨hsize, hrows⟩ := map_length_eq_replicate.mp
    ((map_length_foldl_writeBuffer msgs bufs).trans (map_length_eq_replicate.mpr ⟨rfl, hlen⟩))
  have hb' : b < (msgs.foldl writeBuffer bufs).length := hsize ▸ hb
  have hrow := hrows _ (getElem_mem hb')
  rw [getElem?_eq_getElem hb']
  refine congrArg some (ext_getElem (hrow.trans hwe.symm) fun i hi hi' => ?_)
  have hmem : (b, i) ∈ msgs.map Prod.fst := by
    rw [hke]
    exact mem_flatMap.mpr ⟨(recv, b), mem_zipIdx_iff_getElem?.mpr hrecv, by simp; omega⟩
  have hread := @readBuffer_foldl τ (b, i) (weights recv.2)[i] msgs bufs fun msg hme hk => by
    obtain ⟨recv', hrecv', hx⟩ := hep msg hme
    rw [hk] at hrecv' hx
    rw [hrecv, Option.some.injEq] at hrecv'
    subst hrecv'
    simpa [getElem?_eq_getElem hi'] using hx.symm
  have hi'' : i < (bufs[b]).length := by rw [hlen _ (getElem_mem hb)]; omega
  simpa [readBuffer, hb, hi'', hb', hi, hmem] using hread

theorem copyTensors_eq {ex buf : List τ} (h : ex.length = buf.length) :
    copyTensors ex buf = buf := by
  simp [copyTensors, h]

theorem foldlM_doUpdateExpertWeight (bufs : List (List τ)) :
    ∀ (cps : List (Option Nat × Nat)) {params : List (List τ)},
    (∀ ts ∈ params, ts.length = numTensors) →
    (∀ copy ∈ cps, ∃ slot buf, copy.1 = some slot ∧ slot < params.length ∧ bufs[copy.2]? = some buf ∧
      buf.length = numTensors) →
    ∃ pa', cps.foldlM (doUpdateExpertWeight bufs) params = .ok pa' ∧ pa'.length = params.length ∧
      (∀ ts ∈ pa', ts.length = numTensors) ∧
      (∀ slot, some slot ∉ cps.map Prod.fst → pa'[slot]? = params[slot]?) ∧
      ∀ slot ts, some slot ∈ cps.map Prod.fst →
        (∀ b, (some slot, b) ∈ cps → bufs[b]? = some ts) → pa'[slot]? = some ts := by
  intro cps
  induction cps with
  | nil => exact fun {params} hpa _ => ⟨params, rfl, rfl, hpa, by simp, by simp⟩
  | cons copy cps ih =>
    intro params hpa hco
    obtain ⟨slot, buf, hslot, hlt, hbu, hle⟩ := hco copy (by simp)
    have hstep : doUpdateExpertWeight bufs params copy = .ok (params.set slot buf) := by
      have hep : (params[slot]).length = buf.length := by rw [hle, hpa _ (getElem_mem hlt)]
      rw [doUpdateExpertWeight, hslot, slotIndex, Option.getD_some, pyGet_ok (getElem?_eq_getElem hlt), pyGet_ok hbu]
      simp [copyTensors_eq hep]
    have hset : ∀ ts ∈ params.set slot buf, ts.length = numTensors := by
      intro ts hte
      rcases mem_or_eq_of_mem_set hte with h | rfl
      · exact hpa ts h
      · exact hle
    obtain ⟨pa', hfo, hlen, hall, hke, hci⟩ := ih hset fun c hc => by
      obtain ⟨s, b, hs, hlt, hb⟩ := hco c (mem_cons_of_mem _ hc)
      exact ⟨s, b, hs, by rwa [length_set], hb⟩
    refine ⟨pa', ?_, hlen.trans length_set, hall, ?_, ?_⟩
    · rw [foldlM_cons, hstep]
      exact hfo
    · intro slot' hnot
      rw [map_cons, mem_cons, not_or, hslot] at hnot
      rw [hke slot' hnot.2, getElem?_set_ne fun h => hnot.1 (congrArg some h.symm)]
    · intro slot' ts hmem hte
      by_cases hla : some slot' ∈ cps.map Prod.fst
      · exact hci slot' ts hla fun b hb => hte b (mem_cons_of_mem _ hb)
      rw [map_cons, mem_cons, hslot] at hmem
      obtain rfl : slot' = slot := Option.some.inj (hmem.resolve_right hla)
      have hb := hte copy.2 (by rw [← hslot]; simp)
      rw [hbu, Option.some.injEq] at hb
      rw [hke slot' hla, getElem?_set_self hlt, hb]

/-! ## A rank -/

structure Holds (weightKeys : List κ) (numTensors : κ → Nat) (numLocalExperts : Nat) (weights : Nat → Nat → List τ)
    (maps : List (Fin n → Table)) (rank : Fin n) (loader : Loader n κ τ) : Prop where
  state : loader.state = .waiting
  recvExpertList : loader.recvExpertList = []
  expertMap : loader.adaptor.expertMapPerLayerCpu = maps.map fun layer => layer rank
  keys : loader.adaptor.expertWeightKeyPerLayer = weightKeys
  length_buffers : ∀ key ∈ weightKeys, (loader.adaptor.bufferTensorList key).length = numLocalExperts
  buffers : ∀ key ∈ weightKeys, ∀ buffer ∈ loader.adaptor.bufferTensorList key, buffer.length = numTensors key
  params : ∀ {layer : Nat} {key : κ}, weightKeys[layer]? = some key →
    ∃ slots, loader.adaptor.expertParamPerLayer[layer]? = some slots ∧
      slots.length = numLocalExperts ∧ ∀ tensors ∈ slots, tensors.length = numTensors key
  held : ∀ {layer : Nat} {layerMaps : Fin n → Table} {expert slot : Nat}, maps[layer]? = some layerMaps →
    At (layerMaps rank) expert slot →
    ∃ slots, loader.adaptor.expertParamPerLayer[layer]? = some slots ∧ slots[slot]? = some (weights layer expert)

section
variable {wks : List κ} {numTensors : κ → Nat} {weights : Nat → Nat → List τ} {maps : List (Fin n → Table)}
  {rank : Fin n} {ld : Loader n κ τ} {cur : Fin n → Table} {key : κ}

variable {slot : Nat} {rv : List (Fin n × Nat)}

section
variable (h : Holds wks numTensors num weights maps rank ld)
include h

theorem Holds.length_weights (hcu : maps[layerId]? = some cur) (hk : wks[layerId]? = some key)
    (hslot : At (cur rank) ex slot) : (weights layerId ex).length = numTensors key := by
  obtain ⟨sl, hs, hw⟩ := h.held hcu hslot
  obtain ⟨sl', hs', -, hl⟩ := h.params hk
  rw [hs, Option.some.injEq] at hs'
  exact hl _ (hs' ▸ mem_of_getElem? hw)

theorem sendOps_ok (hcu : maps[layerId]? = some cur) {send : Fin n × Nat} (hslot : At (cur rank) send.2 slot) :
    sendOps ld.adaptor layerId send = .ok ((weights layerId send.2).map (.send send.1)) := by
  obtain ⟨sl, hs, hw⟩ := h.held hcu hslot
  have hm : ld.adaptor.expertMapPerLayerCpu[layerId]? = some (cur rank) := by
    rw [h.expertMap, getElem?_map, hcu]; rfl
  rw [sendOps, pyGet_ok hm]
  simp [pyGet_ok hslot, pyGet_ok hs, slotIndex, pyGet_ok hw]

theorem recvOps_ok (hk : wks[layerId]? = some key) {up : Table}
    (hb : recv.2 < num) (hs : At up recv.1.2 slot) :
    recvOps ld.adaptor up layerId recv =
      .ok (((range (numTensors key)).map fun i => (recv.2, i)).map (.recv recv.1.1),
        up.getD recv.1.2 none, recv.2) := by
  have hm := mem_of_getElem? hk
  have hlt : recv.2 < (ld.adaptor.bufferTensorList key).length := by rwa [h.length_buffers key hm]
  have hl := h.buffers key hm _ (getElem_mem hlt)
  have hke : ld.adaptor.expertWeightKeyPerLayer[layerId]? = some key := by rw [h.keys, hk]
  have he : up.getD recv.1.2 none = some slot := by rw [getD_eq_getElem?_getD, hs]; rfl
  rw [he, recvOps]
  simp [pyGet_ok hke, pyGet_ok (getElem?_eq_getElem hlt), pyGet_ok hs, hl, comp_def]

theorem generate_ok (hcu : maps[layerId]? = some cur) (hk : wks[layerId]? = some key) (info : PackedInfo n)
    (hli : info.layerId = layerId)
    (hse : ∀ send ∈ info.sendInfo, ∃ slot, At (cur rank) send.2 slot)
    (hr : ∀ recv ∈ info.recvInfo, ∃ slot, At info.expertMap recv.2 slot)
    (hlen : info.recvInfo.length ≤ num) :
    generateExpertD2DTransferTask ld info = .ok { ld with
      updatedExpertMap := info.expertMap
      layerId
      commOpList := postedOps (weights layerId) (numTensors key) info.sendInfo info.recvInfo
      recvExpertList := info.recvInfo.zipIdx.map fun recv => (info.expertMap.getD recv.1.2 none, recv.2)
      state := .ready } := by
  have hso : info.sendInfo.mapM (sendOps ld.adaptor layerId) =
      .ok (info.sendInfo.map fun send => (weights layerId send.2).map (.send send.1)) :=
    mapM_ok fun send hsend => by
      obtain ⟨slot, hslot⟩ := hse send hsend
      exact sendOps_ok h hcu hslot
  have hro : info.recvInfo.zipIdx.mapM (recvOps ld.adaptor info.expertMap layerId) =
      .ok (info.recvInfo.zipIdx.map fun recv =>
        (((range (numTensors key)).map fun i => (recv.2, i)).map (.recv recv.1.1),
          info.expertMap.getD recv.1.2 none, recv.2)) :=
    mapM_ok fun recv hrecv => by
      have hget := mem_zipIdx_iff_getElem?.mp hrecv
      obtain ⟨slot, hslot⟩ := hr recv.1 (mem_of_getElem? hget)
      exact recvOps_ok h hk ((lt_of_getElem? hget).trans_le hlen) hslot
  rw [generateExpertD2DTransferTask, hli, hso, hro]
  simp [h.state, h.recvExpertList, postedOps, flatMap_def, comp_def]

end

structure Receives (current updated : Table) (recvs : List (Fin n × Nat)) : Prop where
  new : ∀ recv ∈ recvs, (∀ slot, ¬ At current recv.2 slot) ∧ ∃ slot, At updated recv.2 slot
  all : ∀ {expert slot : Nat}, At updated expert slot → (∀ slot, ¬ At current expert slot) →
    ∃ src, (src, expert) ∈ recvs

variable {up : Fin n → Table}

section
variable (h : Holds wks numTensors num weights maps rank ld)
  (hcu : maps[layerId]? = some cur) (hk : wks[layerId]? = some key) (hd : Distinct (up rank))
  (hsl : ∀ {ex slot}, At (up rank) ex slot → slot < num)
  (hst : ∀ {ex slot slot'}, At (cur rank) ex slot → At (up rank) ex slot' → slot' = slot)
  (hr : Receives (cur rank) (up rank) rv)
include h hcu hk hd hsl hst hr

theorem copies_ok {bufs : List (List τ)}
    (hbu : ∀ {b : Nat} {recv : Fin n × Nat}, rv[b]? = some recv → bufs[b]? = some (weights layerId recv.2))
    (hlen : ∀ recv ∈ rv, (weights layerId recv.2).length = numTensors key) :
    ∃ sl sl', ld.adaptor.expertParamPerLayer[layerId]? = some sl ∧
      (rv.zipIdx.map fun recv => ((up rank).getD recv.1.2 none, recv.2)).foldlM
        (doUpdateExpertWeight bufs) sl = .ok sl' ∧
      sl'.length = num ∧ (∀ ts ∈ sl', ts.length = numTensors key) ∧
      ∀ {ex slot}, At (up rank) ex slot → sl'[slot]? = some (weights layerId ex) := by
  obtain ⟨sl, hso, hcou, hte⟩ := h.params hk
  have hcp : ∀ {recv : Fin n × Nat} {slot : Nat}, (up rank).getD recv.2 none = some slot ↔
      At (up rank) recv.2 slot := by
    intro recv slot
    rw [getD_eq_getElem?_getD, At]
    cases (up rank)[recv.2]? <;> simp
  obtain ⟨sl', hfo, hcou', hte', hke, hco⟩ :=
    foldlM_doUpdateExpertWeight bufs
      (rv.zipIdx.map fun recv => ((up rank).getD recv.1.2 none, recv.2)) hte (by
        intro copy hmem
        obtain ⟨⟨recv, b⟩, hrecv, rfl⟩ := mem_map.mp hmem
        have hget := mem_zipIdx_iff_getElem?.mp hrecv
        have hin := mem_of_getElem? hget
        obtain ⟨-, slot, hslot⟩ := hr.new recv hin
        exact ⟨slot, _, hcp.mpr hslot, hcou ▸ hsl hslot, hbu hget, hlen recv hin⟩)
  refine ⟨sl, sl', hso, hfo, hcou'.trans hcou, hte', ?_⟩
  intro ex slot hslot
  -- a slot is copied only for the ex that the new map has there
  have hep : ∀ {recv : Fin n × Nat}, (up rank).getD recv.2 none = some slot → recv.2 = ex :=
    fun heq => hd (hcp.mp heq) hslot
  by_cases hhe : ∃ slot', At (cur rank) ex slot'
  · obtain ⟨slot', hslot'⟩ := hhe
    obtain rfl := hst hslot' hslot
    rw [hke]
    · obtain ⟨slots'', hso'', hwe⟩ := h.held hcu hslot'
      rw [hso, Option.some.injEq] at hso''
      exact hso'' ▸ hwe
    · intro hmem
      obtain ⟨⟨recv, b⟩, hrecv, heq⟩ := mem_map.mp (map_map ▸ hmem)
      have hin := mem_of_getElem? (mem_zipIdx_iff_getElem?.mp hrecv)
      have hsame := hep heq
      exact (hr.new recv hin).1 slot (hsame ▸ hslot')
  · obtain ⟨src, hsr⟩ := hr.all hslot (not_exists.mp hhe)
    obtain ⟨b, hb⟩ := mem_iff_getElem?.mp hsr
    apply hco
    · rw [map_map]
      exact mem_map.mpr ⟨((src, ex), b), mem_zipIdx_iff_getElem?.mpr hb, hcp.mpr hslot⟩
    · intro b' hmem
      obtain ⟨⟨recv, b''⟩, hrecv, heq⟩ := mem_map.mp hmem
      obtain ⟨hen, rfl⟩ := Prod.mk.inj heq
      have hb'' := hbu (mem_zipIdx_iff_getElem?.mp hrecv)
      rwa [hep hen] at hb''

theorem update_ok [DecidableEq κ] (hco : rv.length ≤ num)
    (hlen : ∀ recv ∈ rv, (weights layerId recv.2).length = numTensors key)
    {msgs : List (BufferTensor × τ)}
    (hke : msgs.map Prod.fst = rv.zipIdx.flatMap fun recv => (range (numTensors key)).map fun i => (recv.2, i))
    (hep : ∀ msg ∈ msgs, Expected (weights layerId) rv msg.1 msg.2) :
    ∃ ld', updateExpertMapAndWeight { ld with
        updatedExpertMap := up rank
        layerId
        commOpList := posted
        recvExpertList := rv.zipIdx.map fun recv => ((up rank).getD recv.1.2 none, recv.2)
        state := .transferring } msgs = .ok ld' ∧
      Holds wks numTensors num weights (maps.set layerId up) rank ld' := by
  have hmem := mem_of_getElem? hk
  have hla : layerId < maps.length := lt_of_getElem? hcu
  have hmap : ld.adaptor.expertMapPerLayerCpu[layerId]? = some (cur rank) := by
    rw [h.expertMap, getElem?_map, hcu]; rfl
  have hwk : ld.adaptor.expertWeightKeyPerLayer[layerId]? = some key := by rw [h.keys, hk]
  have hbf : ∀ {b : Nat} {recv : Fin n × Nat}, rv[b]? = some recv →
      (msgs.foldl writeBuffer (ld.adaptor.bufferTensorList key))[b]? = some (weights layerId recv.2) :=
    fun hrecv => buffers_received hke hep (h.buffers key hmem) (h.length_buffers key hmem ▸ hco) hrecv
      (hlen _ (mem_of_getElem? hrecv))
  obtain ⟨sl, sl', hso, hfo, hsol, hslt, hsh⟩ := copies_ok h hcu hk hd hsl hst hr hbf hlen
  have hpa : layerId < ld.adaptor.expertParamPerLayer.length := lt_of_getElem? hso
  have hshape : ∀ key' ∈ wks, (update ld.adaptor.bufferTensorList key
      (msgs.foldl writeBuffer (ld.adaptor.bufferTensorList key)) key').map length =
      replicate num (numTensors key') := by
    intro key' hk'
    have hold := map_length_eq_replicate.mpr ⟨h.length_buffers key' hk', h.buffers key' hk'⟩
    by_cases heq : key' = key
    · subst heq
      rwa [update_self, map_length_foldl_writeBuffer]
    · rwa [update_of_ne heq]
  let adaptor := { ld.adaptor with
    expertMapPerLayerCpu := ld.adaptor.expertMapPerLayerCpu.set layerId (up rank)
    expertParamPerLayer := ld.adaptor.expertParamPerLayer.set layerId sl'
    bufferTensorList := update ld.adaptor.bufferTensorList key
      (msgs.foldl writeBuffer (ld.adaptor.bufferTensorList key)) }
  refine ⟨{ adaptor }, ?_, ?_⟩
  · simp only [updateExpertMapAndWeight, ne_eq, not_true_eq_false, if_false, pyGet_ok hwk, pyGet_ok hmap,
      pyGet_ok hso, hfo, ok_bind, pure_eq_ok]
    rfl
  · refine ⟨rfl, rfl, ?_, h.keys, ?_, ?_, ?_, ?_⟩
    · rw [map_set, ← h.expertMap]
    · exact fun key' hk' => (map_length_eq_replicate.mp (hshape key' hk')).1
    · exact fun key' hk' => (map_length_eq_replicate.mp (hshape key' hk')).2
    · intro ly key' hk'
      by_cases heq : ly = layerId
      · subst heq
        rw [hk, Option.some.injEq] at hk'
        subst hk'
        exact ⟨sl', getElem?_set_self hpa, hsol, hslt⟩
      · obtain ⟨slots'', hso'', hrest⟩ := h.params hk'
        exact ⟨slots'', by rw [getElem?_set_ne (Ne.symm heq), hso''], hrest⟩
    · intro ly layerMaps ex slot hlm hslot
      by_cases heq : ly = layerId
      · subst heq
        rw [getElem?_set_self hla, Option.some.injEq] at hlm
        subst hlm
        exact ⟨sl', getElem?_set_self hpa, hsh hslot⟩
      · rw [getElem?_set_ne (Ne.symm heq)] at hlm
        obtain ⟨slots'', hso'', hhe⟩ := h.held hlm hslot
        exact ⟨slots'', by rw [getElem?_set_ne (Ne.symm heq), hso''], hhe⟩

end

end

/-! ## All ranks -/

section
variable {cur up : Fin n → Table} {moves : List (Move n)} {info : UpdateInfo n}

section
variable (h : Planned cur up layerId moves info)
include h

theorem mem_transfers_of_recv
    (hrecv : recv ∈ listAt rank info.recvInfo) : (rank, recv.2) ∈ transfers cur up := by
  rw [h.recv] at hrecv
  obtain ⟨move, hmo, rfl⟩ := mem_map.mp hrecv
  obtain ⟨hm, hds⟩ := mem_filter.mp hmo
  rw [← h.transfers]
  exact mem_map.mpr ⟨move, hm, by simpa using of_decide_eq_true hds⟩

theorem receives_of_planned (he : Exchangeable ne numSlots cur up) (rank : Fin n) :
    Receives (cur rank) (up rank) (listAt rank info.recvInfo) where
  new recv hrecv := (mem_transfers he).mp (mem_transfers_of_recv h hrecv)
  all {ex slot} hs hn := by
    have hm := (mem_transfers he).mpr ⟨hn, slot, hs⟩
    rw [← h.transfers] at hm
    obtain ⟨move, hmo, heq⟩ := mem_map.mp hm
    obtain ⟨hds, rfl⟩ := Prod.mk.inj heq
    refine ⟨move.src, ?_⟩
    rw [h.recv]
    exact mem_map.mpr ⟨move, mem_filter.mpr ⟨hmo, by simpa using hds⟩, rfl⟩

theorem pair_experts (src dst : Fin n) :
    ((listAt dst info.recvInfo).filter fun recv => recv.1 = src).map Prod.snd =
      ((listAt src info.sendInfo).filter fun send => send.1 = dst).map Prod.snd := by
  rw [h.recv, h.send, filter_map, filter_map, map_map, map_map, filter_filter, filter_filter]
  refine congrArg (map _) (filter_congr fun move _ => ?_)
  exact Bool.and_comm _ _

theorem length_recvInfo_le (hec : Exchangeable ne numSlots cur up) (rank : Fin n) :
    (listAt rank info.recvInfo).length ≤ numSlots := by
  have hnod := (nodup_transfers cur up).filter fun cell => cell.1 = rank
  rw [← h.transfers, filter_map] at hnod
  have hslot : ∀ move ∈ moves.filter (fun move => move.dst = rank), ∃ slot, At (up rank) move.expert slot :=
    fun move hmo => ((receives_of_planned h hec rank).new _ (h.recv rank ▸ mem_map_of_mem hmo)).2
  have hso : ((moves.filter fun move => move.dst = rank).map fun move => (up rank)[move.expert]?).Nodup := by
    refine List.Nodup.map_on ?_ hnod.of_map
    intro move hmo move' hmo' heq
    obtain ⟨slot, hslot⟩ := hslot move hmo
    have hds : move.dst = rank := by simpa using (mem_filter.mp hmo).2
    have hds' : move'.dst = rank := by simpa using (mem_filter.mp hmo').2
    exact inj_on_of_nodup_map hnod hmo hmo' (Prod.ext (hds.trans hds'.symm)
      (hec.updated.distinct rank hslot (heq.symm.trans hslot)))
  have hsub : ((moves.filter fun move => move.dst = rank).map fun move => (up rank)[move.expert]?) ⊆
      (range numSlots).map fun slot => some (some slot) := by
    intro entry hen
    obtain ⟨move, hmo, rfl⟩ := mem_map.mp hen
    obtain ⟨slot, hslot⟩ := hslot move hmo
    exact mem_map.mpr ⟨slot, mem_range.mpr (hec.updated.slot_lt hslot), hslot.symm⟩
  simpa [h.recv] using (hso.subperm hsub).length_le

end

variable [DecidableEq κ] {numTensors : κ → Nat} {lds : Fin n → Loader n κ τ} {key : κ}

theorem executeLayer_ok (h : ∀ rank, Holds wks numTensors num weights maps rank (lds rank))
    (hcu : maps[layerId]? = some cur) (hk : wks[layerId]? = some key)
    (hle : numSlots ≤ num) (hec : Exchangeable ne numSlots cur up)
    (hpl : Planned cur up layerId moves info) :
    ∃ loaders', executeLayer lds info = .ok loaders' ∧
      ∀ rank, Holds wks numTensors num weights (maps.set layerId up) rank (loaders' rank) := by
  have hco : ∀ rank, (listAt rank info.recvInfo).length ≤ num :=
    fun rank => (length_recvInfo_le hpl hec rank).trans hle
  have hlen : ∀ rank, ∀ recv ∈ listAt rank info.recvInfo, (weights layerId recv.2).length = numTensors key := by
    intro rank recv hrecv
    obtain ⟨-, slot, hslot⟩ := (receives_of_planned hpl hec rank).new recv hrecv
    obtain ⟨src, slot', hhe⟩ := hec.current.held recv.2 (hec.updated.width rank ▸ hslot.lt)
    exact (h src).length_weights hcu hk hhe
  have hge := fun rank => generate_ok (h rank) hcu hk (packUpdateInfo rank info)
    hpl.layerId (by
      intro send hsend
      rw [packUpdateInfo, hpl.send] at hsend
      obtain ⟨move, hmo, rfl⟩ := mem_map.mp hsend
      obtain ⟨hmem, hsr⟩ := mem_filter.mp hmo
      obtain ⟨slot, hslot⟩ := hpl.held move hmem
      exact ⟨slot, (show move.src = rank by simpa using hsr) ▸ hslot⟩)
    (by
      intro recv hrecv
      rw [packUpdateInfo, hpl.newExpertMap]
      exact ((receives_of_planned hpl hec rank).new recv hrecv).2)
    (hco rank)
  let posted : Fin n → List (Op (Fin n) BufferTensor τ) := fun rank =>
    postedOps (weights layerId) (numTensors key) (listAt rank info.sendInfo) (listAt rank info.recvInfo)
  let transferring : Fin n → Loader n κ τ := fun rank => { lds rank with
    updatedExpertMap := up rank
    layerId
    commOpList := posted rank
    recvExpertList := (listAt rank info.recvInfo).zipIdx.map fun recv => ((up rank).getD recv.1.2 none, recv.2)
    state := .transferring }
  have hfi : ∀ rank, ∃ ld', finishLayer posted (transferring rank) rank = .ok ld' ∧
      Holds wks numTensors num weights (maps.set layerId up) rank ld' := by
    intro rank
    obtain ⟨msgs, hre, hke, hep⟩ := received_of_forall₂ posted rank
      fun src => forall₂_expected (pair_experts hpl src rank) (hlen rank)
    rw [show posted rank = postedOps _ _ _ _ from rfl, postedOps, keys_sends_recvs rfl] at hke
    obtain ⟨ld', hup, hho⟩ := update_ok (h rank) hcu hk (hec.updated.distinct rank)
      (fun hslot => (hec.updated.slot_lt hslot).trans_le hle) (fun h h' => hec.stays h h')
      (receives_of_planned hpl hec rank) (hco rank) (hlen rank) hke hep
    refine ⟨ld', ?_, hho⟩
    rw [finishLayer, hre]
    exact mapError_ok.mpr hup
  choose loaders' hlo' hho using hfi
  refine ⟨loaders', ?_, hho⟩
  rw [executeLayer, collect_ok fun rank => mapError_ok.mpr (hge rank)]
  refine collect_ok fun rank => ?_
  rw [← hlo' rank]
  simp [asynExpertWeightTransfer, packUpdateInfo, hpl.newExpertMap, posted, transferring]

theorem execute_ok : ∀ {plan : List (UpdateInfo n)} (done : List (Fin n → Table)) {nw om : List (Fin n → Table)}
    {lds : Fin n → Loader n κ τ}, nw.length = om.length →
    (∀ rank, Holds wks numTensors num weights (done ++ om) rank (lds rank)) →
    wks.length = (done ++ om).length → numSlots ≤ num →
    List.Forall₂ (LayerPlanned ne numSlots) ((nw.zip om).zipIdx done.length) plan →
    ∃ loaders', execute lds plan = .ok loaders' ∧
      ∀ rank, Holds wks numTensors num weights (done ++ nw) rank (loaders' rank) := by
  intro plan
  induction plan with
  | nil =>
    intro done nw om lds hlen h _ _ hpa
    cases nw with
    | nil =>
      rw [length_nil, eq_comm, length_eq_zero_iff] at hlen
      exact ⟨lds, rfl, hlen ▸ h⟩
    | cons up nw =>
      cases om with
      | nil => simp at hlen
      | cons cur om => cases hpa
  | cons info plan ih =>
    intro done nw om lds hlen h hke hle hpa
    cases nw with
    | nil => cases hpa
    | cons up nw =>
      cases om with
      | nil => cases hpa
      | cons cur om =>
        rw [zip_cons_cons, zipIdx_cons, forall₂_cons] at hpa
        obtain ⟨⟨hec, moves, hpl⟩, hpa⟩ := hpa
        have hcu : (done ++ cur :: om)[done.length]? = some cur := by simp
        have hlt : done.length < wks.length := by simp [hke]
        obtain ⟨loaders1, hla, h1⟩ := executeLayer_ok h hcu (getElem?_eq_getElem hlt) hle hec hpl
        have hset : (done ++ cur :: om).set done.length up = (done ++ [up]) ++ om := by simp
        rw [hset] at h1
        obtain ⟨loaders', hrest, h'⟩ := ih (done ++ [up]) (by simpa using hlen) h1
          (by simpa using hke) hle (by simpa using hpa)
        refine ⟨loaders', ?_, by simpa using h'⟩
        rw [execute, foldlM_cons, hla]
        exact hrest

end

/-! ## The exchange -/

/-- The receives of one rank are the sends of the other, in order, from a rank that held the expert. -/
structure Matched (current : Fin n → Table) (info : UpdateInfo n) : Prop where
  pairs : ∀ src dst, ((packUpdateInfo dst info).recvInfo.filter fun recv => recv.1 = src).map Prod.snd =
    ((packUpdateInfo src info).sendInfo.filter fun send => send.1 = dst).map Prod.snd
  held : ∀ dst, ∀ recv ∈ (packUpdateInfo dst info).recvInfo, ∃ slot, At (current recv.1) recv.2 slot

theorem matched_of_planned (h : Planned cur up layerId moves info) : Matched cur info where
  pairs := pair_experts h
  held dst recv hrecv := by
    rw [packUpdateInfo, h.recv] at hrecv
    obtain ⟨move, hm, rfl⟩ := mem_map.mp hrecv
    exact h.held move (mem_of_mem_filter hm)

/-- The plan of an accepted placement goes through on all ranks and brings every expert into its slot. -/
theorem exchange_weights [DecidableEq κ] (numExperts numSlots numLocalExperts : Nat)
    (oldMaps newPlacement : List (Fin n → Table)) (weightKeys : List κ) (numTensors : κ → Nat)
    (weights : Nat → Nat → List τ) (loaders : Fin n → Loader n κ τ)
    (haccepted : Accepted numExperts numSlots oldMaps newPlacement) (hslots : numSlots ≤ numLocalExperts)
    (hkeys : weightKeys.length = oldMaps.length)
    (hholds : ∀ rank, Holds weightKeys numTensors numLocalExperts weights oldMaps rank (loaders rank)) :
    ∃ newMaps plan loaders', doUpdate numSlots oldMaps newPlacement = .ok (newMaps, plan) ∧
      execute loaders plan = .ok loaders' ∧
      (∀ rank, Holds weightKeys numTensors numLocalExperts weights newMaps rank (loaders' rank)) ∧
      (∀ layer placement rank slot expert, newPlacement[layer]? = some placement → At (placement rank) slot expert →
        ∃ slots, (loaders' rank).adaptor.expertParamPerLayer[layer]? = some slots ∧
          slots[slot]? = some (weights layer expert)) ∧
      List.Forall₂ (fun current info => Matched current info ∧
        ∀ rank, (packUpdateInfo rank info).recvInfo.length ≤ numLocalExperts) oldMaps plan := by
  obtain ⟨plan, hup, hpa⟩ := doUpdate_ok haccepted
  have hlen : (mapsOf numExperts newPlacement).length = oldMaps.length := by
    rw [mapsOf, length_map, haccepted.length]
  obtain ⟨loaders', hee, hholds'⟩ := execute_ok [] hlen hholds hkeys hslots hpa
  refine ⟨_, plan, loaders', hup, hee, hholds', ?_, ?_⟩
  · intro layer placement rank slot expert hpl hslot
    have hlt : layer < oldMaps.length := haccepted.length ▸ lt_of_getElem? hpl
    have hps := haccepted.passes_rank (List.getElem?_eq_getElem hlt) hpl rank
    have hep := (haccepted.placesAll placement (List.mem_of_getElem? hpl)).lt hslot
    have hma : (mapsOf numExperts newPlacement)[layer]? = some fun rank => invert numExperts (placement rank) := by
      rw [mapsOf, getElem?_map, hpl]; rfl
    exact (hholds' rank).held hma ((at_invert hps.distinct).mpr ⟨hep, hslot⟩)
  · have hold : ((mapsOf numExperts newPlacement).zip oldMaps).zipIdx.map (Prod.snd ∘ Prod.fst) = oldMaps := by
      rw [← map_map, zipIdx_map_fst, map_snd_zip hlen.ge]
    refine hold ▸ forall₂_map_left_iff.mpr (hpa.imp fun layer info hla => ?_)
    obtain ⟨hec, moves, hpn⟩ := hla
    exact ⟨matched_of_planned hpn, fun rank => (length_recvInfo_le hpn hec rank).trans hslots⟩

section Swap

def swapMaps (first second : Nat) : Fin 2 → Table
  | 0 => invert 2 [some first]
  | 1 => invert 2 [some second]

def swapPlacement (first second : Nat) : Fin 2 → Table
  | 0 => [some first]
  | 1 => [some second]

def swapLoader (rank : Fin 2) : Loader 2 Unit Nat where
  adaptor := {
    expertMapPerLayerCpu := [swapMaps 0 1 rank]
    expertParamPerLayer := [[[rank.val]]]
    expertWeightKeyPerLayer := [()]
    bufferTensorList := fun _ => [[7]] }

theorem at_single : At [some v] i w ↔ i = 0 ∧ v = w := by
  cases i <;> simp [At]

theorem distinct_single (v : Nat) : Distinct [some v] := by
  intro i j w hi hj
  rw [(at_single.mp hi).1, (at_single.mp hj).1]

theorem at_swapMaps :
    At (swapMaps first second rank) ex slot ↔
      ex < 2 ∧ slot = 0 ∧ (if rank = 0 then first else second) = ex := by
  match rank with
  | 0 => simp [swapMaps, at_invert (distinct_single _), at_single]
  | 1 => simp [swapMaps, at_invert (distinct_single _), at_single]

theorem swapMaps_valid : MapsValid 2 1 (swapMaps 0 1) where
  width rank := by match rank with | 0 => rfl | 1 => rfl
  distinct _ _ _ _ hi hj := (at_swapMaps.mp hi).2.2.symm.trans (at_swapMaps.mp hj).2.2
  slot_lt h := by rw [(at_swapMaps.mp h).2.1]; exact Nat.one_pos
  held ex hlt := by
    match ex, hlt with
    | 0, _ => exact ⟨0, 0, at_swapMaps.mpr (by decide)⟩
    | 1, _ => exact ⟨1, 0, at_swapMaps.mpr (by decide)⟩

theorem swapPlacement_placesAll : PlacesAll 2 (swapPlacement 1 0) where
  lt {rank} _ _ h := by
    match rank with
    | 0 => rw [← (at_single.mp h).2]; decide
    | 1 => rw [← (at_single.mp h).2]; decide
  all ex hlt := by
    match ex, hlt with
    | 0, _ => exact ⟨1, 0, rfl⟩
    | 1, _ => exact ⟨0, 0, rfl⟩

theorem swapLoader_holds (rank : Fin 2) :
    Holds [()] (fun _ => 1) 1 (fun _ ex => [ex]) [swapMaps 0 1] rank (swapLoader rank) where
  state := rfl
  recvExpertList := rfl
  expertMap := rfl
  keys := rfl
  length_buffers _ _ := rfl
  buffers _ _ buf hb := by rw [mem_singleton.mp hb]; rfl
  params {ly _} h := by
    match ly with
    | 0 => exact ⟨[[rank.val]], rfl, rfl, fun ts ht => by rw [mem_singleton.mp ht]; rfl⟩
    | _ + 1 => cases h
  held {ly _ ex slot} hm h := by
    match ly with
    | 0 =>
      cases hm
      obtain ⟨-, rfl, he⟩ := at_swapMaps.mp h
      refine ⟨[[rank.val]], rfl, ?_⟩
      match rank with
      | 0 => exact he ▸ rfl
      | 1 => exact he ▸ rfl
    | _ + 1 => cases hm

theorem exchange_weights_swap :
    ∃ newMaps plan loaders', doUpdate 1 [swapMaps 0 1] [swapPlacement 1 0] = .ok (newMaps, plan) ∧
      execute swapLoader plan = .ok loaders' ∧
      ∃ slots, (loaders' 0).adaptor.expertParamPerLayer[0]? = some slots ∧ slots[0]? = some [1] := by
  obtain ⟨newMaps, plan, loaders', hu, he, -, hs, -⟩ :=
    exchange_weights 2 1 1 [swapMaps 0 1] [swapPlacement 1 0] [()] (fun _ => 1) _ swapLoader
      ⟨by decide, by simp, rfl, by simpa using swapMaps_valid, by simpa using by decide,
        by simpa using swapPlacement_placesAll, by decide⟩ le_rfl rfl swapLoader_holds
  exact ⟨newMaps, plan, loaders', hu, he, hs 0 _ 0 0 1 rfl rfl⟩

end Swap

end VllmAscend.Eplb
