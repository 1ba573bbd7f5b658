import VllmAscend.Store.LayerSending
import VllmAscend.Store.SendingSound

/-!
# The accounts of the layerwise saving thread

Every chunk of a request that is saved adds one to its counter, but only the
last layer of a chunk that is marked as the last takes one away, a chunk without
a key queues no layer at all, and a layer that raises takes nothing away. From
the second layer on every layer raises that has something to store.
-/

namespace VllmAscend.Store

open Python LayerStorer StoreCounters List

namespace StoreCounters

variable {c : StoreCounters} {r : RequestId}

variable {finished : List RequestId} {reqs : List ReqMeta}

theorem counter_foldl_add : (reqs.foldl (fun c req => c.addStoredRequest req.reqId) c).counter r =
      c.counter r + (reqs.countP fun req => req.reqId = r : Nat) := by
  induction reqs generalizing c with
  | nil => simp
  | cons req reqs ih =>
    rw [foldl_cons, ih, counter_add, countP_cons]
    by_cases hr : req.reqId = r
    · simp only [hr, if_true, decide_true]
      omega
    · simp [hr]

theorem mem_foldl_add (h : r ∈ c.storedRequests.map Prod.fst ∨ ∃ req ∈ reqs, req.reqId = r) :
    r ∈ (reqs.foldl (fun c req => c.addStoredRequest req.reqId) c).storedRequests.map Prod.fst := by
  induction reqs generalizing c with
  | nil =>
    rcases h with h | ⟨req, hm, -⟩
    · exact h
    · cases hm
  | cons req reqs ih =>
    apply ih
    rcases h with h | ⟨req', hm, hr⟩
    · exact .inl (mem_add (.inl h))
    rcases mem_cons.mp hm with rfl | hm
    · exact .inl (mem_add (.inr hr.symm))
    · exact .inr ⟨req', hm, hr⟩

theorem finishedStoreReq_foldl_add :
    (reqs.foldl (fun c req => c.addStoredRequest req.reqId) c).finishedStoreReq = c.finishedStoreReq := by
  induction reqs generalizing c with
  | nil => rfl
  | cons req reqs ih => exact ih

end StoreCounters

namespace LayerThread

variable {cfg : LayerConfig} {s : LayerThread} {r : RequestId}

/-! ## What takes the counter down again -/

def Closes (cfg : LayerConfig) (req : ReqMeta) : Prop :=
  req.isLastChunk = some true ∧ cfg.db.processTokens req.tokenLenChunk req.blockHashes 0 0 ≠ []

instance : DecidablePred (Closes cfg) := fun _ => inferInstanceAs (Decidable (_ ∧ _))

def QueuedCloses (cfg : LayerConfig) (r : RequestId) (item : LayerReq) : Prop :=
  item.req.reqId = r ∧ item.req.isLastChunk = some true ∧ item.layerId = cfg.finalLayerId

instance : DecidablePred (QueuedCloses cfg r) := fun _ => inferInstanceAs (Decidable (_ ∧ _ ∧ _))

def StorerCloses (cfg : LayerConfig) (r : RequestId) (st : LayerStorer) : Prop :=
  st.req.reqId = r ∧ st.req.isLastChunk = some true ∧ st.chunks ≠ [] ∧ st.nextLayer ≤ cfg.finalLayerId

instance : DecidablePred (StorerCloses cfg r) := fun _ => inferInstanceAs (Decidable (_ ∧ _ ∧ _ ∧ _))

/-- Something is to be stored, and its addresses or the `put` raise. -/
def Raises (cfg : LayerConfig) (item : LayerReq) (answer : GroupAnswer) : Prop :=
  missing cfg item answer.existing ≠ [] ∧
    (((missing cfg item answer.existing).mapM (prepare cfg item)).isOk = false ∨ answer.putRaises = true)

instance : Decidable (Raises cfg item answer) := inferInstanceAs (Decidable (_ ∧ (_ ∨ _)))

/-- The items that would have taken one away, had they not raised. -/
def lostCloses (cfg : LayerConfig) (s : LayerThread) (r : RequestId) : Nat :=
  s.taken.countP fun h => QueuedCloses cfg r h.1 ∧ Raises cfg h.1 h.2

def openChunks (cfg : LayerConfig) (s : LayerThread) (r : RequestId) : Nat :=
  s.saved.countP fun req => req.reqId = r ∧ ¬ Closes cfg req

def due (cfg : LayerConfig) (s : LayerThread) (r : RequestId) : Nat :=
  s.openChunks cfg r + s.lostCloses cfg r + s.requestQueue.countP (QueuedCloses cfg r) +
    s.layerwiseStorers.countP (StorerCloses cfg r)

structure Inv (cfg : LayerConfig) (r : RequestId) (s : LayerThread) : Prop where
  counter : s.counters.counter r = s.due cfg r
  present : (∃ req ∈ s.saved, req.reqId = r) → r ∈ s.counters.storedRequests.map Prod.fst
  queued : ∀ item ∈ s.requestQueue, item.req ∈ s.saved
  storing : ∀ st ∈ s.layerwiseStorers, st.req ∈ s.saved ∧
    (s.currentLayer = 0 ∧ st.nextLayer = cfg.finalLayerId + 1 ∨ 0 < s.currentLayer ∧ st.nextLayer = s.currentLayer)
  running : r ∉ s.counters.finishedStoreReq

variable {saving requests : List ReqMeta} {s' : LayerThread} {item : LayerReq}

theorem openChunks_append (hs : s'.saved = s.saved ++ saving) :
    s'.openChunks cfg r = s.openChunks cfg r + saving.countP (fun req => req.reqId = r ∧ ¬ Closes cfg req) := by
  rw [openChunks, openChunks, hs, countP_append]

theorem countP_start : saving.countP (fun req => req.reqId = r) =
    saving.countP (fun req => req.reqId = r ∧ ¬ Closes cfg req) +
      (saving.map (start cfg)).countP (StorerCloses cfg r) := by
  induction saving with
  | nil => rfl
  | cons req saving ih =>
    have hs : StorerCloses cfg r (start cfg req) ↔ req.reqId = r ∧ Closes cfg req := by
      simp [StorerCloses, Closes, start]
    rw [map_cons, countP_cons, countP_cons, countP_cons, ih]
    simp only [hs, decide_eq_true_eq]
    by_cases hr : req.reqId = r <;> by_cases hc : Closes cfg req <;> simp [hr, hc] <;> omega

theorem countP_storers_zero {storers : List LayerStorer}
    (h : ∀ st ∈ storers, st.req.reqId = r → cfg.finalLayerId < st.nextLayer) :
    storers.countP (StorerCloses cfg r) = 0 := by
  rw [countP_eq_zero]
  intro st hst hc
  have hst' := of_decide_eq_true hc
  exact absurd (h st hst hst'.1) (Nat.not_lt.mpr hst'.2.2.2)

theorem Inv.beginSave (hinv : Inv cfg r s) (hla : s.currentLayer = 0) :
    (s.beginSave cfg requests).counters.counter r = (s.beginSave cfg requests).due cfg r := by
  have hold := hinv.counter
  have hnone := @countP_storers_zero cfg r _ fun st hst _ => by
    have := (hinv.storing st hst).2
    omega
  have hop := @openChunks_append cfg s r _ (s.beginSave cfg requests) rfl
  have hsa := @countP_start cfg r (requests.filter ReqMeta.canSave)
  rw [due, hop]
  simp only [LayerThread.beginSave, counter_foldl_add, hold, due, hnone, lostCloses]
  omega

theorem countP_next {storers : List LayerStorer} (hla : ly ≤ cfg.finalLayerId)
    (hnext : ∀ st ∈ storers, st.nextLayer = ly) : storers.countP (StorerCloses cfg r) =
    (storers.filterMap fun st => st.next.2).countP (QueuedCloses cfg r) +
      (storers.map fun st => st.next.1).countP (StorerCloses cfg r) := by
  induction storers with
  | nil => rfl
  | cons st storers ih =>
    have hst := hnext st mem_cons_self
    have hnew : StorerCloses cfg r st.next.1 ↔
        st.req.reqId = r ∧ st.req.isLastChunk = some true ∧ st.chunks ≠ [] ∧ ly + 1 ≤ cfg.finalLayerId := by
      simp [StorerCloses, LayerStorer.next, hst]
    have hold : StorerCloses cfg r st ↔ st.req.reqId = r ∧ st.req.isLastChunk = some true ∧ st.chunks ≠ [] := by
      simp [StorerCloses, hst, hla]
    rw [countP_cons, ih fun st' hst' => hnext st' (mem_cons_of_mem _ hst'), map_cons, countP_cons, filterMap_cons]
    simp only [hold, hnew, decide_eq_true_eq]
    by_cases hch : st.chunks = []
    · simp [LayerStorer.next, hch]
    have hie : st.next.2 = some ⟨st.req, st.chunks, ly⟩ := by simp [LayerStorer.next, hch, hst]
    have hqu : QueuedCloses cfg r ⟨st.req, st.chunks, ly⟩ ↔
        st.req.reqId = r ∧ st.req.isLastChunk = some true ∧ ly = cfg.finalLayerId := Iff.rfl
    simp only [hie, countP_cons, hqu, decide_eq_true_eq]
    by_cases hlast : ly = cfg.finalLayerId
    · have hnl : ¬ ly + 1 ≤ cfg.finalLayerId := by omega
      rw [if_neg (c := _ ∧ _ ∧ _ ∧ ly + 1 ≤ cfg.finalLayerId) fun h => hnl h.2.2.2]
      simp only [hch, hlast, ne_eq, not_false_eq_true, and_true]
      omega
    · have hlt : ly + 1 ≤ cfg.finalLayerId := by omega
      simp only [hch, hlast, hlt, ne_eq, not_false_eq_true, and_true, and_false, if_false]
      omega

theorem nextLayers_inv (hco : s.counters.counter r = s.due cfg r)
    (hpr : (∃ req ∈ s.saved, req.reqId = r) → r ∈ s.counters.storedRequests.map Prod.fst)
    (hqu : ∀ item ∈ s.requestQueue, item.req ∈ s.saved) (hla : s.currentLayer ≤ cfg.finalLayerId)
    (hso : ∀ st ∈ s.layerwiseStorers, st.req ∈ s.saved ∧ st.nextLayer = s.currentLayer)
    (hrun : r ∉ s.counters.finishedStoreReq) : Inv cfg r s.nextLayers := by
  refine ⟨?_, hpr, fun item hie => ?_, fun st hst => ?_, hrun⟩
  · have hnext := countP_next (r := r) hla fun st hst => (hso st hst).2
    simp only [due, nextLayers, countP_append]
    rw [hco, due, hnext]
    simp only [openChunks, lostCloses]
    omega
  · rcases mem_append.mp hie with hie | hie
    · exact hqu item hie
    obtain ⟨st, hst, hie⟩ := mem_filterMap.mp hie
    unfold LayerStorer.next at hie
    split at hie
    · cases hie
    · cases hie
      exact (hso st hst).1
  · obtain ⟨st', hst', rfl⟩ := mem_map.mp hst
    obtain ⟨hsa, hnext⟩ := hso st' hst'
    refine ⟨hsa, .inr ⟨Nat.succ_pos _, ?_⟩⟩
    simp only [LayerStorer.next, nextLayers, hnext]

theorem Inv.saveKvLayer (hinv : Inv cfg r s) (hla : s.currentLayer ≤ cfg.finalLayerId) :
    Inv cfg r (s.saveKvLayer cfg requests) := by
  unfold LayerThread.saveKvLayer
  split
  · next hzero =>
    refine nextLayers_inv (hinv.beginSave hzero) (fun hsa => mem_foldl_add ?_) (fun item hie => ?_)
      hla (fun st hst => ?_) ?_
    · obtain ⟨req, hreq, hr⟩ := hsa
      rcases mem_append.mp hreq with hreq | hreq
      · exact .inl (hinv.present ⟨req, hreq, hr⟩)
      · exact .inr ⟨req, hreq, hr⟩
    · exact mem_append_left _ (hinv.queued item hie)
    · obtain ⟨req, hreq, rfl⟩ := mem_map.mp hst
      exact ⟨mem_append_right _ hreq, hzero.symm⟩
    · rw [LayerThread.beginSave, finishedStoreReq_foldl_add]
      exact hinv.running
  · next hpos =>
    refine nextLayers_inv hinv.counter hinv.present hinv.queued hla (fun st hst => ?_) hinv.running
    obtain ⟨hsa, hnext⟩ := hinv.storing st hst
    exact ⟨hsa, by omega⟩

/-! ## Handling -/

theorem handleRequest_spec (hk : item.req.reqId ∈ s.counters.storedRequests.map Prod.fst) :
    Raises cfg item answer ∧ s.handleRequest cfg item answer = none ∨
    ¬ Raises cfg item answer ∧ ∃ puts,
      s.handleRequest cfg item answer = some ({ s with puts := puts }.close cfg item) := by
  rw [handleRequest, if_neg (not_not.mpr hk)]
  by_cases hch : ownChunks cfg item.chunks = []
  · have hno : missing cfg item answer.existing = [] := by simp [missing, hch]
    exact .inr ⟨fun h => h.1 hno, s.puts, by rw [if_pos hch]⟩
  rw [if_neg hch]
  by_cases hno : missing cfg item answer.existing = []
  · exact .inr ⟨fun h => h.1 hno, s.puts, by simp only [hno, if_true]⟩
  simp only [if_neg hno, Raises]
  cases hpr : (missing cfg item answer.existing).mapM (prepare cfg item) with
  | error e => exact .inl ⟨⟨hno, .inl rfl⟩, rfl⟩
  | ok puts =>
    cases hput : answer.putRaises with
    | true => exact .inl ⟨⟨hno, .inr rfl⟩, rfl⟩
    | false => exact .inr ⟨fun h => by simp [Except.isOk, Except.toBool] at h, s.puts ++ puts, rfl⟩

theorem close_spec : (s.close cfg item).requestQueue = s.requestQueue ∧
    (s.close cfg item).layerwiseStorers = s.layerwiseStorers ∧ (s.close cfg item).saved = s.saved ∧
    (s.close cfg item).currentLayer = s.currentLayer ∧ (s.close cfg item).taken = s.taken ∧
    (s.close cfg item).counters = if item.req.isLastChunk = some true ∧ item.layerId = cfg.finalLayerId then
      s.counters.decStoredRequest item.req.reqId else s.counters := by
  unfold close
  split <;> exact ⟨rfl, rfl, rfl, rfl, rfl, rfl⟩

theorem finishedStoreReq_dec {c : StoreCounters} : (c.decStoredRequest r).finishedStoreReq = c.finishedStoreReq := by
  unfold decStoredRequest
  split <;> rfl

theorem Inv.closed (hinv : Inv cfg r s) (hqu : s.requestQueue = item :: rest) (hqu' : s'.requestQueue = rest)
    (hst : s'.layerwiseStorers = s.layerwiseStorers) (hsa : s'.saved = s.saved)
    (hcu : s'.currentLayer = s.currentLayer) (hta : s'.taken = s.taken ++ [(item, answer)])
    (hfi : s'.counters.finishedStoreReq = s.counters.finishedStoreReq)
    (hke : r ∈ s.counters.storedRequests.map Prod.fst → r ∈ s'.counters.storedRequests.map Prod.fst)
    (hco : s'.counters.counter r = s.counters.counter r -
      if QueuedCloses cfg r item ∧ ¬ Raises cfg item answer then 1 else 0) : Inv cfg r s' := by
  have hold := hinv.counter
  rw [due, hqu, countP_cons] at hold
  have hlost : s'.lostCloses cfg r =
      s.lostCloses cfg r + if QueuedCloses cfg r item ∧ Raises cfg item answer then 1 else 0 := by
    rw [lostCloses, hta, countP_append, countP_singleton]
    simp only [lostCloses, decide_eq_true_eq]
  refine ⟨?_, by rw [hsa]; exact fun h => hke (hinv.present h), ?_, by rw [hst, hsa, hcu]; exact hinv.storing,
    by rw [hfi]; exact hinv.running⟩
  · rw [hco, due, hqu', hst, openChunks, hsa, hold, hlost, openChunks]
    by_cases hq : QueuedCloses cfg r item <;> by_cases hr : Raises cfg item answer <;> simp [hq, hr] <;> omega
  · rw [hqu', hsa]
    exact fun item' hie => hinv.queued item' (hqu ▸ mem_cons_of_mem _ hie)

theorem Inv.handle (hinv : Inv cfg r s) : Inv cfg r (s.runOnce cfg answer) := by
  unfold runOnce
  cases hqu : s.requestQueue with
  | nil => exact hinv
  | cons item rest =>
    simp only
    by_cases hkey : item.req.reqId ∈ s.counters.storedRequests.map Prod.fst
    · rcases @handleRequest_spec cfg { s with requestQueue := rest, taken := s.taken ++ [(item, answer)] } _ answer hkey
        with ⟨hr, hno⟩ | ⟨hr, puts, hcl⟩
      · rw [hno]
        exact hinv.closed hqu rfl rfl rfl rfl rfl rfl id (by rw [if_neg fun h => h.2 hr, Int.sub_zero]; rfl)
      obtain ⟨hq, hst, hsv, hcu, hta, hco⟩ :=
        @close_spec cfg { s with requestQueue := rest, taken := s.taken ++ [(item, answer)], puts := puts } item
      rw [hcl, Option.getD_some]
      refine hinv.closed hqu hq hst hsv hcu hta ?_ (fun h => ?_) ?_
      · rw [hco]
        split
        · exact finishedStoreReq_dec
        · rfl
      · rw [hco]
        split
        · exact mem_dec.mpr h
        · exact h
      · rw [hco]
        by_cases hlast : item.req.isLastChunk = some true ∧ item.layerId = cfg.finalLayerId
        · rw [if_pos hlast, counter_dec hkey]
          simp only [QueuedCloses, hlast, hr, not_false_eq_true, and_true]
        · rw [if_neg hlast, if_neg fun h => hlast h.1.2, Int.sub_zero]
    · -- The request is not counted any more, so it is another one than `r`.
      have hne : ¬ QueuedCloses cfg r item := fun h => by
        have hmem := hinv.present ⟨item.req, hinv.queued item (hqu ▸ mem_cons_self), h.1⟩
        exact hkey (h.1.symm ▸ hmem)
      rw [handleRequest, if_pos hkey]
      exact hinv.closed hqu rfl rfl rfl rfl rfl rfl id (by rw [if_neg fun h => hne h.1, Int.sub_zero]; rfl)

/-! ## Runs -/

/-- The worker calls `save_kv_layer` once for each layer of a step, and the request has not ended. -/
def Allowed (cfg : LayerConfig) (r : RequestId) (s : LayerThread) : Event → Prop
  | .startLoadKv => s.currentLayer = 0 ∨ s.currentLayer = cfg.finalLayerId + 1
  | .saveKvLayer _ => s.currentLayer ≤ cfg.finalLayerId
  | .handle _ => True
  | .getFinished finished preempted => r ∉ finished ∧ r ∉ preempted

theorem Inv.step (e : Event) (hi : Inv cfg r s) (ha : s.Allowed cfg r e) : Inv cfg r (s.step cfg e) := by
  cases e with
  | startLoadKv =>
    refine ⟨hi.counter, hi.present, hi.queued, fun st hst => ?_, hi.running⟩
    obtain ⟨hs, hn⟩ := hi.storing st hst
    refine ⟨hs, .inl ⟨rfl, ?_⟩⟩
    rcases ha with hl | hl <;> omega
  | saveKvLayer requests => exact hi.saveKvLayer ha
  | handle answer => exact hi.handle
  | getFinished finished preempted =>
    have hk := clears_getAndClear s.counters finished preempted
    have hno : ¬ (r ∈ finished ∨ r ∈ preempted ∨ r ∈ s.counters.finishedStoreReq) := by
      simp [ha.1, ha.2, hi.running]
    have hget := (hk.counter r).resolve_right fun h => hno h.1
    refine ⟨?_, fun hs => dictGet_isSome.mp ?_, hi.queued, hi.storing, fun hm => hno (hk.pending r hm)⟩
    · exact (congrArg (Option.getD · 0) hget).trans hi.counter
    · exact (congrArg Option.isSome hget).trans (dictGet_isSome.mpr (hi.present hs))

theorem inv_start : Inv cfg r {} where
  counter := rfl
  present := fun ⟨_, hr, _⟩ => absurd hr not_mem_nil
  queued := fun _ hi => absurd hi not_mem_nil
  storing := fun _ hst => absurd hst not_mem_nil
  running := not_mem_nil

def AllHandled (cfg : LayerConfig) (r : RequestId) (s : LayerThread) : Prop :=
  (∀ item ∈ s.requestQueue, item.req.reqId ≠ r) ∧
    ∀ st ∈ s.layerwiseStorers, st.req.reqId = r → cfg.finalLayerId < st.nextLayer

end LayerThread

end VllmAscend.Store
