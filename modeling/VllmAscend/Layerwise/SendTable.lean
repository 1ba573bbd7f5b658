import Mathlib.Data.List.Infix
import Mathlib.Data.List.Nodup
import VllmAscend.Lib.Python
import VllmAscend.Lib.Run

/-!
# The block table of the prefill side

The scheduler half of the layerwise connector keeps a list of blocks for each
request it will send. It takes the list over when the request is admitted and
extends it by the blocks that later steps report.
-/

namespace VllmAscend.Layerwise.SendTable

open Python Function
open List hiding getElem?_eq_some_iff

/-! ## The connector -/

structure SendReqInfo where
  localBlockIds : List (List Nat)
  localTransferredTokens : Nat
  localComputedTokens : Nat
deriving DecidableEq, Repr

structure CachedReq where
  reqId : Nat
  newBlockIds : Option (List (List Nat))
  numComputedTokens : Nat
  resumed : Bool := false
deriving DecidableEq, Repr

structure NewReq where
  reqId : Nat
  blockIds : List (List Nat)
  numComputedTokens : Nat
deriving DecidableEq, Repr

/-- A step of the scheduler. `allTokens` is the present length of `all_token_ids`. -/
structure Output where
  cachedReqs : List CachedReq
  newReqs : List NewReq
  numScheduledTokens : List (Nat × Nat)
  specDecodeTokens : Nat → Nat := fun _ => 0
  allTokens : Nat → Nat

structure Task where
  reqId : Nat
  localBlockIds : List (List Nat)
  chunkFinish : Bool
  remoteCacheTokens : Nat
  promptLen : Nat
  localComputedTokens : Nat
  localTransedTokens : Nat
deriving DecidableEq, Repr

/-- The block sizes of the cache groups, and the `remote_cached_tokens` of the requests with `do_remote_decode`. -/
structure Config where
  blockSizes : List Nat
  remoteCached : Nat → Option Nat
  nonempty : blockSizes ≠ []
  blockSize_pos : ∀ size ∈ blockSizes, 0 < size

def Config.minBlockSize (cfg : Config) : Nat := cfg.blockSizes.min cfg.nonempty

def extendBy (ids new : List (List Nat)) : List (List Nat) := ids.mapIdx fun g l => l ++ new.getD g []

def SendReqInfo.extendLocalBlockIds (info : SendReqInfo) (new : List (List Nat)) : Except PyError SendReqInfo :=
  if new.length ≤ info.localBlockIds.length then .ok { info with localBlockIds := extendBy info.localBlockIds new }
  else .error (.indexError "list index out of range")

def updateStateAfterAlloc (cfg : Config) (needSend : List (Nat × SendReqInfo)) (item : Nat × List (List Nat)) :
    List (Nat × SendReqInfo) :=
  match cfg.remoteCached item.1 with
  | none => needSend
  | some cached => dictSet item.1 ⟨item.2, cached, 0⟩ needSend

def extendEntry (needSend : List (Nat × SendReqInfo)) (req : CachedReq) : Except PyError (List (Nat × SendReqInfo)) :=
  match req.newBlockIds, dictGet req.reqId needSend with
  | some new, some info => do
    let info ← info.extendLocalBlockIds new
    .ok (dictSet req.reqId info needSend)
  | _, _ => .ok needSend

def Output.computedTokens (out : Output) (reqId : Nat) : Nat :=
  (dictGet reqId (out.cachedReqs.map (fun r => (r.reqId, r.numComputedTokens)) ++
    out.newReqs.map fun r => (r.reqId, r.numComputedTokens)).reverse).getD 0

def SendReqInfo.progress (cfg : Config) (out : Output) (info : SendReqInfo) (reqId scheduled : Nat) : SendReqInfo :=
  { info with
    localTransferredTokens := info.localComputedTokens / cfg.minBlockSize * cfg.minBlockSize
    localComputedTokens := out.computedTokens reqId + scheduled - out.specDecodeTokens reqId }

def SendReqInfo.task (info : SendReqInfo) (out : Output) (reqId remoteCached : Nat) : Task where
  reqId := reqId
  localBlockIds := info.localBlockIds
  chunkFinish := decide (out.allTokens reqId ≤ info.localComputedTokens)
  remoteCacheTokens := remoteCached
  promptLen := out.allTokens reqId
  localComputedTokens := info.localComputedTokens
  localTransedTokens := info.localTransferredTokens

/-! ## The scheduler and the connector -/

/-- `sent` are the tasks since the last admission of a request, `resumed` whether that was after a preemption. -/
structure World where
  needSend : List (Nat × SendReqInfo)
  table : Nat → List (List Nat)
  resumed : Nat → Bool
  sent : Nat → List Task
  emitted : List Task

def World.start : World := ⟨[], fun _ => [], fun _ => false, fun _ => [], []⟩

def Output.admitted (out : Output) : List (Nat × List (List Nat)) :=
  out.newReqs.map (fun r => (r.reqId, r.blockIds)) ++
    (out.cachedReqs.filter CachedReq.resumed).map fun r => (r.reqId, r.newBlockIds.getD [])

def World.admission (cfg : Config) (w : World) (out : Output) : World where
  needSend := out.admitted.foldl (updateStateAfterAlloc cfg) w.needSend
  table := fun r => (dictGet r out.admitted).getD (w.table r)
  resumed := fun r =>
    if r ∈ out.admitted.map Prod.fst then decide (r ∉ out.newReqs.map NewReq.reqId) else w.resumed r
  sent := fun r => if r ∈ out.admitted.map Prod.fst then [] else w.sent r
  emitted := []

def World.report (w : World) (req : CachedReq) : Except PyError World := do
  let needSend ← extendEntry w.needSend req
  .ok { w with
    needSend := needSend
    table := if req.resumed then w.table else
      Function.update w.table req.reqId (extendBy (w.table req.reqId) (req.newBlockIds.getD [])) }

def World.schedule (cfg : Config) (out : Output) (w : World) (item : Nat × Nat) : World :=
  match dictGet item.1 w.needSend with
  | none => w
  | some info =>
    let info := info.progress cfg out item.1 item.2
    let task := info.task out item.1 ((cfg.remoteCached item.1).getD 0)
    { w with
      needSend := if task.chunkFinish then dictPop item.1 w.needSend else dictSet item.1 info w.needSend
      sent := Function.update w.sent item.1 (w.sent item.1 ++ [task])
      emitted := w.emitted ++ [task] }

def World.received (cfg : Config) (w : World) (out : Output) : Except PyError World :=
  out.cachedReqs.foldlM World.report (w.admission cfg out)

def World.step (cfg : Config) (w : World) (out : Output) : Except PyError World := do
  let w ← w.received cfg out
  .ok (out.numScheduledTokens.foldl (World.schedule cfg out) w)

/-! ## What a worker sends -/

namespace Task

variable (t : Task) (blockSize : Nat)

/-- `transed_idx` and `to_trans_idx` of `_get_kv_split_metadata`. -/
def transedIdx : Nat := max t.remoteCacheTokens t.localTransedTokens / blockSize

def toTransIdx : Nat :=
  if t.chunkFinish then ceilDiv t.localComputedTokens blockSize else t.localComputedTokens / blockSize

def Sends (i : Nat) : Prop := t.transedIdx blockSize ≤ i ∧ i < t.toTransIdx blockSize

end Task

/-- The task names the assigned block of every logical block below the computed length. -/
def Current (cfg : Config) (w : World) (t : Task) : Prop :=
  ∀ (g size : Nat), cfg.blockSizes[g]? = some size → ∀ i < ceilDiv t.localComputedTokens size,
    ∃ assigned, (w.table t.reqId)[g]?.bind (·[i]?) = some assigned ∧
      t.localBlockIds[g]?.bind (·[i]?) = some assigned

/-- The tasks so far have sent every full block behind the remote prefix, and after the last task every block. -/
def Complete (cfg : Config) (w : World) (t : Task) : Prop :=
  ∀ size ∈ cfg.blockSizes, ∀ i, t.remoteCacheTokens / size ≤ i →
    (i < t.localComputedTokens / size ∨ (t.chunkFinish = true ∧ i < ceilDiv t.promptLen size)) →
    ∃ t' ∈ w.sent t.reqId, t'.Sends size i

def Accurate (cfg : Config) (w : World) : Prop := ∀ t ∈ w.emitted, Current cfg w t ∧ Complete cfg w t

/-- The steps of a scheduler: a request is listed once, and the scheduled ones have blocks for all their tokens. -/
structure Scheduled (cfg : Config) (w : World) (out : Output) : Prop where
  listed_once : (out.newReqs.map NewReq.reqId ++ out.cachedReqs.map CachedReq.reqId).Nodup
  enough_blocks : ∀ w', w.received cfg out = .ok w' → ∀ item ∈ out.numScheduledTokens, ∀ g size : Nat,
    cfg.blockSizes[g]? = some size → ∃ ids, (w'.table item.1)[g]? = some ids ∧
      ceilDiv (out.computedTokens item.1 + item.2 - out.specDecodeTokens item.1) size ≤ ids.length

/-- A running request whose last admission was after a preemption gets no new block. -/
def Settled (w : World) (out : Output) : Prop :=
  ∀ req ∈ out.cachedReqs, req.resumed = false → w.resumed req.reqId = true → ∀ new, req.newBlockIds = some new →
    ∀ ids ∈ new, ids = []

/-! ## Entries -/

structure Sound (cfg : Config) (w : World) (r : Nat) (info : SendReqInfo) : Prop where
  remote : (cfg.remoteCached r).isSome
  starts : List.Forall₂ (· <+: ·) (w.table r) info.localBlockIds
  same : w.resumed r = false → info.localBlockIds = w.table r
  covered : ∀ size ∈ cfg.blockSizes, ∀ i, (cfg.remoteCached r).getD 0 / size ≤ i →
    i < info.localComputedTokens / size → ∃ t ∈ w.sent r, t.Sends size i

def Good (cfg : Config) (w : World) : Prop := ∀ r info, dictGet r w.needSend = some info → Sound cfg w r info

section
variable {cfg : Config} {w w' : World} {out : Output}

variable {ids : List (List Nat)} {req : CachedReq} {size r n i : Nat} {info : SendReqInfo}

theorem extendBy_empty (h : ∀ l ∈ new, l = []) : extendBy ids new = ids := by
  have hn : ∀ g : Nat, new.getD g [] = [] := fun g => by
    rw [getD_eq_getElem?_getD]
    cases hg : new[g]? with
    | none => rfl
    | some l => exact h l (mem_of_getElem? hg)
  apply ext_getElem?
  intro g
  rw [extendBy, getElem?_mapIdx, hn]
  cases ids[g]? with
  | none => rfl
  | some l => simp

theorem forall₂_extendBy (h : List.Forall₂ (· <+: ·) table ids) (new : List (List Nat)) :
    List.Forall₂ (· <+: ·) table (extendBy ids new) := by
  rw [forall₂_iff_get] at h ⊢
  refine ⟨by simpa [extendBy] using h.1, fun g hg hg' => ?_⟩
  have ho := h.2 g hg (by simpa [extendBy] using hg')
  simp only [extendBy, get_eq_getElem, getElem_mapIdx] at ho ⊢
  exact ho.trans (prefix_append ..)

theorem Sound.congr (h : Sound cfg w r info) (ht : w'.table r = w.table r) (hr : w'.resumed r = w.resumed r)
    (hs : w'.sent r = w.sent r) : Sound cfg w' r info :=
  ⟨h.remote, by rw [ht]; exact h.starts, by rw [ht, hr]; exact h.same, by rw [hs]; exact h.covered⟩

/-! ## Admission -/

theorem dictGet_admission (hd : (admitted.map Prod.fst).Nodup) (ns : List (Nat × SendReqInfo)) (r : Nat) :
    dictGet r (admitted.foldl (updateStateAfterAlloc cfg) ns) =
      ((cfg.remoteCached r).bind fun cached => (dictGet r admitted).map fun bs => ⟨bs, cached, 0⟩).or
        (dictGet r ns) := by
  induction admitted generalizing ns with
  | nil => cases cfg.remoteCached r <;> rfl
  | cons item admitted ih =>
    obtain ⟨r', bs⟩ := item
    rw [map_cons, nodup_cons] at hd
    rw [foldl_cons, ih hd.2]
    by_cases hr : r' = r
    · subst hr
      have hn : dictGet r' admitted = none := dictGet_eq_none hd.1
      have hs : dictGet r' ((r', bs) :: admitted) = some bs := by simp [dictGet]
      rw [hn, hs]
      cases hc : cfg.remoteCached r' with
      | none => simp [updateStateAfterAlloc, hc]
      | some cached => simp [updateStateAfterAlloc, hc, dictGet_dictSet]
    · have ho : dictGet r ((r', bs) :: admitted) = dictGet r admitted := by simp [dictGet, hr]
      rw [ho]
      congr 1
      unfold updateStateAfterAlloc
      split
      · rfl
      · rw [dictGet_dictSet, if_neg hr]

theorem nodup_admitted (h : Scheduled cfg w out) : (out.admitted.map Prod.fst).Nodup := by
  refine h.listed_once.sublist ?_
  rw [Output.admitted, map_append, map_map, map_map]
  exact (List.Sublist.refl _).append (filter_sublist.map _)

theorem good_admission (hw : Good cfg w) (hs : Scheduled cfg w out) : Good cfg (w.admission cfg out) := by
  intro r info hif
  have hget : dictGet r (w.admission cfg out).needSend = _ := dictGet_admission (nodup_admitted hs) w.needSend r
  rw [hif] at hget
  cases had : dictGet r out.admitted with
  | some bs =>
    have hta : (w.admission cfg out).table r = bs := by simp [World.admission, had]
    cases hca : cfg.remoteCached r with
    | none =>
      rw [hca] at hget
      exact absurd (hw r info hget.symm).remote (by simp [hca])
    | some cached =>
      rw [hca, had] at hget
      cases hget
      refine ⟨by simp [hca], ?_, fun _ => hta.symm, fun size _ i _ hi => ?_⟩
      · rw [hta]
        exact forall₂_refl bs
      · rw [Nat.zero_div] at hi
        omega
  | none =>
    have hmem : r ∉ out.admitted.map Prod.fst := fun h => by simpa [had] using dictGet_isSome.mpr h
    have hold : dictGet r w.needSend = some info := by
      rw [had] at hget
      cases hca : cfg.remoteCached r with
      | none => rw [hca] at hget; exact hget.symm
      | some cached => rw [hca] at hget; exact hget.symm
    exact (hw r info hold).congr (by simp [World.admission, had]) (if_neg hmem) (if_neg hmem)

/-! ## Reported blocks -/

def Reported (w : World) (req : CachedReq) : Prop :=
  (req.resumed = true → w.resumed req.reqId = true) ∧
  (req.resumed = false → w.resumed req.reqId = true → ∀ new, req.newBlockIds = some new → ∀ ids ∈ new, ids = [])

theorem report_frame (h : w.report req = .ok w') :
    w'.resumed = w.resumed ∧ w'.sent = w.sent ∧ w'.emitted = w.emitted := by
  simp only [World.report, bind_ok] at h
  obtain ⟨_, _, h⟩ := h
  cases h
  exact ⟨rfl, rfl, rfl⟩

theorem dictGet_extendEntry (h : extendEntry ns req = .ok needSend')
    (hif : dictGet r needSend' = some info) : ∃ old, dictGet r ns = some old ∧ info = if req.reqId = r then
      { old with localBlockIds := extendBy old.localBlockIds (req.newBlockIds.getD []) } else old := by
  unfold extendEntry at h
  split at h
  · -- the entry is extended by the bs
    rename_i new old hnew hold
    rw [bind_ok] at h
    obtain ⟨info', hif', hset⟩ := h
    cases hset
    unfold SendReqInfo.extendLocalBlockIds at hif'
    split at hif'
    · cases hif'
      rw [dictGet_dictSet] at hif
      by_cases hr : req.reqId = r
      · subst hr
        rw [if_pos rfl] at hif
        cases hif
        exact ⟨old, hold, by rw [if_pos rfl, hnew]; rfl⟩
      · rw [if_neg hr] at hif
        exact ⟨info, hif, by rw [if_neg hr]⟩
    · cases hif'
  · -- no new bs, or no entry
    rename_i hnone
    cases h
    refine ⟨info, hif, ?_⟩
    split
    · rename_i hr
      subst hr
      cases hnew : req.newBlockIds with
      | none => rw [Option.getD_none, extendBy_empty (by simp)]
      | some new => exact absurd hif (hnone new info hnew)
    · rfl

theorem good_report (hw : Good cfg w) (hreq : Reported w req) (h : w.report req = .ok w') : Good cfg w' := by
  simp only [World.report, bind_ok] at h
  obtain ⟨ns, hext, h⟩ := h
  cases h
  intro r info hif
  obtain ⟨old, hold, rfl⟩ := dictGet_extendEntry hext hif
  have hso := hw r old hold
  by_cases hr : req.reqId = r
  · subst hr
    rw [if_pos rfl]
    cases hre : req.resumed with
    | true =>
      refine ⟨hso.remote, ?_, fun hno => ?_, hso.covered⟩
      · simpa [hre] using forall₂_extendBy hso.starts _
      · exact absurd (hreq.1 hre) (by simpa using hno)
    | false =>
      cases hlast : w.resumed req.reqId with
      | true =>
        have hem : ∀ ids ∈ req.newBlockIds.getD [], ids = [] := by
          cases hnew : req.newBlockIds with
          | none => simp
          | some new => exact hreq.2 hre hlast new hnew
        refine ⟨hso.remote, ?_, fun hno => ?_, hso.covered⟩
        · simpa [hre, extendBy_empty hem] using hso.starts
        · exact absurd hlast (by simpa using hno)
      | false =>
        refine ⟨hso.remote, ?_, fun _ => ?_, hso.covered⟩
        · simp [hso.same hlast]
        · simp [hso.same hlast]
  · rw [if_neg hr]
    refine hso.congr ?_ rfl rfl
    dsimp only
    split
    · rfl
    · exact update_of_ne (Ne.symm hr) _ _

theorem good_reports {reqs : List CachedReq} (hw : Good cfg w) (hrq : ∀ req ∈ reqs, Reported w req)
    (h : reqs.foldlM World.report w = .ok w') : Good cfg w' ∧ w'.emitted = w.emitted := by
  induction reqs generalizing w with
  | nil =>
    cases h
    exact ⟨hw, rfl⟩
  | cons req reqs ih =>
    rw [foldlM_cons, bind_ok] at h
    obtain ⟨w1, hfi, hrest⟩ := h
    obtain ⟨hre, -, hem⟩ := report_frame hfi
    have hgood := good_report hw (hrq req mem_cons_self) hfi
    have hle : ∀ req ∈ reqs, Reported w1 req := fun req hr => by
      rw [Reported, hre]
      exact hrq req (mem_cons_of_mem _ hr)
    obtain ⟨hgood', hem'⟩ := ih hgood hle hrest
    exact ⟨hgood', hem'.trans hem⟩

theorem good_received (hw : Good cfg w) (hs : Scheduled cfg w out) (hset : Settled w out)
    (h : w.received cfg out = .ok w') : Good cfg w' ∧ w'.emitted = [] := by
  refine good_reports (good_admission hw hs) (fun req hreq => ⟨fun hre => ?_, fun hrun hlast => ?_⟩) h
  · have had : req.reqId ∈ out.admitted.map Prod.fst := by
      rw [Output.admitted, map_append, map_map, map_map]
      exact mem_append_right _ (mem_map.mpr ⟨req, mem_filter.mpr ⟨hreq, hre⟩, rfl⟩)
    have hnew : req.reqId ∉ out.newReqs.map NewReq.reqId := fun hnew =>
      (nodup_append.mp hs.listed_once).2.2 _ hnew _ (mem_map_of_mem hreq) rfl
    simp only [World.admission, if_pos had]
    simpa using hnew
  · refine hset req hreq hrun ?_
    have had : req.reqId ∉ out.admitted.map Prod.fst := by
      rw [Output.admitted, map_append, map_map, map_map, mem_append, not_or]
      refine ⟨fun hnew => ?_, fun hrs => ?_⟩
      · exact (nodup_append.mp hs.listed_once).2.2 _ hnew _ (mem_map_of_mem hreq) rfl
      · obtain ⟨req', hreq', heq⟩ := mem_map.mp hrs
        obtain ⟨hmem, hre⟩ := mem_filter.mp hreq'
        have hinj := inj_on_of_nodup_map (nodup_append.mp hs.listed_once).2.1 hmem hreq heq
        rw [hinj, hrun] at hre
        cases hre
    have hke : (w.admission cfg out).resumed req.reqId = w.resumed req.reqId := if_neg had
    rwa [hke] at hlast

/-! ## Tasks -/

theorem div_le_ceilDiv (n size : Nat) (h : 0 < size) : n / size ≤ ceilDiv n size := by
  exact Nat.div_le_div_right (by omega)

theorem div_le_toTransIdx (t : Task) (h : 0 < size) : t.localComputedTokens / size ≤ t.toTransIdx size := by
  unfold Task.toTransIdx
  split
  · exact div_le_ceilDiv _ _ h
  · exact Nat.le_refl _

theorem transedIdx_task (hr : (cfg.remoteCached r).getD 0 / size ≤ i) (hi : info.localComputedTokens / size ≤ i) :
    ((info.progress cfg out r n).task out r ((cfg.remoteCached r).getD 0)).transedIdx size ≤ i := by
  have hro : info.localComputedTokens / cfg.minBlockSize * cfg.minBlockSize ≤ info.localComputedTokens :=
    Nat.div_mul_le_self ..
  rcases Nat.le_total ((cfg.remoteCached r).getD 0)
    (info.localComputedTokens / cfg.minBlockSize * cfg.minBlockSize) with h | h
  · simp only [Task.transedIdx, SendReqInfo.task, SendReqInfo.progress, Nat.max_eq_right h]
    exact (Nat.div_le_div_right hro).trans hi
  · simpa only [Task.transedIdx, SendReqInfo.task, SendReqInfo.progress, Nat.max_eq_left h] using hr

theorem sends_or (hsize : size ∈ cfg.blockSizes)
    (hso : Sound cfg w r info) (hr : (cfg.remoteCached r).getD 0 / size ≤ i)
    (hi : i < ((info.progress cfg out r n).task out r ((cfg.remoteCached r).getD 0)).toTransIdx size) :
    ∃ t ∈ w.sent r ++ [(info.progress cfg out r n).task out r ((cfg.remoteCached r).getD 0)], t.Sends size i := by
  rcases Nat.lt_or_ge i (info.localComputedTokens / size) with hlt | hge
  · obtain ⟨t, ht, hs⟩ := hso.covered size hsize i hr hlt
    exact ⟨t, mem_append_left _ ht, hs⟩
  · exact ⟨_, mem_append_right _ mem_cons_self, transedIdx_task hr hge, hi⟩

theorem good_schedule (hw : Good cfg w) (item : Nat × Nat) : Good cfg (w.schedule cfg out item) := by
  unfold World.schedule
  cases hold : dictGet item.1 w.needSend with
  | none => exact hw
  | some old =>
    intro r info hif
    have hso := hw item.1 old hold
    by_cases hr : item.1 = r
    · subst hr
      have hif' : info = old.progress cfg out item.1 item.2 := by
        dsimp only at hif
        split at hif
        · rw [dictGet_dictPop, if_pos rfl] at hif
          cases hif
        · rw [dictGet_dictSet, if_pos rfl] at hif
          exact (Option.some.inj hif).symm
      subst hif'
      refine ⟨hso.remote, hso.starts, hso.same, fun size hsize i hre hi => ?_⟩
      simp only [update_self]
      have hle := div_le_toTransIdx ((old.progress cfg out item.1 item.2).task out item.1
        ((cfg.remoteCached item.1).getD 0)) (cfg.blockSize_pos size hsize)
      exact sends_or hsize hso hre (Nat.lt_of_lt_of_le hi hle)
    · have hot : dictGet r w.needSend = some info := by
        dsimp only at hif
        split at hif
        · rwa [dictGet_dictPop, if_neg hr] at hif
        · rwa [dictGet_dictSet, if_neg hr] at hif
      exact (hw r info hot).congr rfl rfl (update_of_ne (Ne.symm hr) _ _)

def EnoughBlocks (cfg : Config) (w : World) (out : Output) (r n : Nat) : Prop :=
  ∀ g size : Nat, cfg.blockSizes[g]? = some size → ∃ ids, (w.table r)[g]? = some ids ∧
    ceilDiv (out.computedTokens r + n - out.specDecodeTokens r) size ≤ ids.length

theorem current_task (hso : Sound cfg w r info) (hen : EnoughBlocks cfg w out r n) (cached : Nat) :
    Current cfg w ((info.progress cfg out r n).task out r cached) := by
  intro g size hsize i hi
  obtain ⟨ids, hid, hlen⟩ := hen g size hsize
  have hlt : i < ids.length := Nat.lt_of_lt_of_le hi hlen
  obtain ⟨hg, rfl⟩ := getElem?_eq_some_iff.mp hid
  obtain ⟨hle, hpr⟩ := forall₂_iff_get.mp hso.starts
  have hg' : g < info.localBlockIds.length := hle ▸ hg
  refine ⟨((w.table r).get ⟨g, hg⟩).get ⟨i, hlt⟩, ?_, ?_⟩
  · have hta : (w.table ((info.progress cfg out r n).task out r cached).reqId)[g]? = some (w.table r)[g] :=
      getElem?_eq_getElem hg
    rw [hta]
    exact getElem?_eq_getElem hlt
  · have hlo : ((info.progress cfg out r n).task out r cached).localBlockIds[g]? = some info.localBlockIds[g] :=
      getElem?_eq_getElem hg'
    obtain ⟨rest, hrest⟩ := hpr g hg hg'
    simp only [get_eq_getElem] at hrest ⊢
    rw [hlo, Option.bind_some, ← hrest, getElem?_append_left hlt, getElem?_eq_getElem hlt]

theorem accurate_schedule (hw : Good cfg w) (hac : Accurate cfg w)
    (hen : EnoughBlocks cfg w out item.1 item.2) : Accurate cfg (w.schedule cfg out item) := by
  unfold World.schedule
  cases hold : dictGet item.1 w.needSend with
  | none => exact hac
  | some info =>
    have hso := hw item.1 info hold
    intro t ht
    rcases mem_append.mp ht with hin | hlast
    · refine ⟨(hac t hin).1, fun size hsize i hre hi => ?_⟩
      obtain ⟨t', ht', hse⟩ := (hac t hin).2 size hsize i hre hi
      refine ⟨t', ?_, hse⟩
      by_cases hr : t.reqId = item.1
      · simp only [hr, update_self] at ht' ⊢
        exact mem_append_left _ ht'
      · simpa only [update_of_ne hr] using ht'
    · cases mem_singleton.mp hlast
      refine ⟨current_task hso hen _, fun size hsize i hre hi => ?_⟩
      have hpos := cfg.blockSize_pos size hsize
      have hsn : ∀ s : Task, Function.update w.sent item.1 (w.sent item.1 ++ [s]) item.1 = w.sent item.1 ++ [s] :=
        fun s => update_self ..
      simp only [SendReqInfo.task, hsn]
      refine sends_or hsize hso hre ?_
      rcases hi with hi | ⟨hfi, hi⟩
      · exact Nat.lt_of_lt_of_le hi (div_le_toTransIdx _ hpos)
      -- the last task rounds up
      rw [Task.toTransIdx, if_pos hfi]
      refine Nat.lt_of_lt_of_le hi ?_
      refine Nat.div_le_div_right ?_
      have := of_decide_eq_true hfi
      exact Nat.sub_le_sub_right (Nat.add_le_add_right this _) 1

theorem table_schedule (item : Nat × Nat) : (w.schedule cfg out item).table = w.table := by
  unfold World.schedule
  cases dictGet item.1 w.needSend <;> rfl

theorem accurate_schedules {items : List (Nat × Nat)} (hw : Good cfg w) (ha : Accurate cfg w)
    (he : ∀ item ∈ items, EnoughBlocks cfg w out item.1 item.2) :
    Good cfg (items.foldl (World.schedule cfg out) w) ∧ Accurate cfg (items.foldl (World.schedule cfg out) w) := by
  induction items generalizing w with
  | nil => exact ⟨hw, ha⟩
  | cons item items ih =>
    refine ih (good_schedule hw item) (accurate_schedule hw ha (he item mem_cons_self)) fun item hi => ?_
    rw [EnoughBlocks, table_schedule]
    exact he item (mem_cons_of_mem _ hi)

/-! ## Runs -/

theorem good_step (hw : Good cfg w) (hs : Scheduled cfg w out) (hset : Settled w out) (h : w.step cfg out = .ok w') :
    Good cfg w' ∧ Accurate cfg w' := by
  simp only [World.step, bind_ok] at h
  obtain ⟨w1, hr, h⟩ := h
  cases h
  obtain ⟨hg, he⟩ := good_received hw hs hset hr
  refine accurate_schedules hg (fun t ht => ?_) (hs.enough_blocks w1 hr)
  rw [he] at ht
  cases ht

/-- Where resumed requests get no new blocks while they run. -/
theorem tasks_accurate {steps : List Output}
    (hrun : Run.GuardedM (World.step cfg) (fun w out => Scheduled cfg w out ∧ Settled w out) World.start steps)
    (hw : steps.foldlM (World.step cfg) World.start = .ok w) : Accurate cfg w := by
  have hst : Good cfg World.start ∧ Accurate cfg World.start := ⟨fun _ _ h => (nomatch h), fun _ h => (nomatch h)⟩
  exact (hrun.inv (P := fun w => Good cfg w ∧ Accurate cfg w)
    (fun _ _ _ hw ⟨hs, hset⟩ h => good_step hw.1 hs hset h) hst hw).2

end

/-! ## A resumed request with a second chunk -/

def pairs : Config := ⟨[2], fun _ => some 0, by simp, by simp⟩

def firstChunk : Output := ⟨[], [⟨3, [[1]], 0⟩], [(3, 2)], fun _ => 0, fun _ => 6⟩

def resumedChunk : Output := ⟨[⟨3, some [[5]], 0, true⟩], [], [(3, 2)], fun _ => 0, fun _ => 6⟩

def secondChunk : Output := ⟨[⟨3, some [[6]], 2, false⟩], [], [(3, 2)], fun _ => 0, fun _ => 6⟩

theorem scheduled_of_table (hli : (out.newReqs.map NewReq.reqId ++ out.cachedReqs.map CachedReq.reqId).Nodup)
    (hw' : w.received pairs out = .ok w') (hi : out.numScheduledTokens = [(3, n)]) (ht : w'.table 3 = [ids])
    (hl : ceilDiv (out.computedTokens 3 + n - out.specDecodeTokens 3) 2 ≤ ids.length) : Scheduled pairs w out := by
  refine ⟨hli, fun w'' hw'' item hie g size hs => ?_⟩
  cases hw'.symm.trans hw''
  rw [hi] at hie
  cases mem_singleton.mp hie
  have hg : g = 0 := by
    have := lt_of_getElem? hs
    simpa [pairs] using this
  subst hg
  cases hs
  exact ⟨ids, by rw [ht]; rfl, hl⟩

theorem tasks_accurate_twoChunks :
    ∃ w, [firstChunk, secondChunk].foldlM (World.step pairs) World.start = .ok w ∧ w.emitted ≠ [] ∧ Accurate pairs w := by
  refine ⟨_, rfl, by decide, @tasks_accurate pairs _ [firstChunk, secondChunk]
    ⟨⟨?_, ?_⟩, fun w hw => ⟨⟨?_, ?_⟩, fun _ _ => trivial⟩⟩ rfl⟩
  · exact scheduled_of_table (by decide) rfl rfl rfl (by decide)
  · exact fun req hr => nomatch hr
  · cases hw
    exact scheduled_of_table (by decide) rfl rfl rfl (by decide)
  · cases hw
    intro req hr _ hl
    cases mem_singleton.mp hr
    cases hl

/-- After a resumption the list has the first block twice, and the second task sends it in place of the second block. -/
theorem resumed_block_misplaced : Run.GuardedM (World.step pairs) (fun w out => Scheduled pairs w out) World.start
      [firstChunk, resumedChunk, secondChunk] ∧
    ∃ w, [firstChunk, resumedChunk, secondChunk].foldlM (World.step pairs) World.start = .ok w ∧ ¬ Accurate pairs w := by
  refine ⟨⟨?_, fun w hw => ⟨?_, fun w' hw' => ⟨?_, fun _ _ => trivial⟩⟩⟩, _, rfl, fun h => ?_⟩
  · exact scheduled_of_table (by decide) rfl rfl rfl (by decide)
  · cases hw
    exact scheduled_of_table (by decide) rfl rfl rfl (by decide)
  · cases hw
    cases hw'
    exact scheduled_of_table (by decide) rfl rfl rfl (by decide)
  · obtain ⟨assigned, ht, hl⟩ := (h _ mem_cons_self).1 0 2 rfl 1 (by decide)
    cases ht
    exact absurd hl (by decide)

end VllmAscend.Layerwise.SendTable
