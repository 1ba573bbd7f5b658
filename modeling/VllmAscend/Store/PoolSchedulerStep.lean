import VllmAscend.Store.PoolScheduler

/-!
# A step of the pool scheduler, for one request

What `build_connector_meta` does to the tracker of one request, and what it
hands out for it, whatever the other requests of the step are
(`build_spec`).
-/

namespace VllmAscend.Store

open Python SchedulerOutput List

/-! ## The metadata of a tracker -/

namespace PoolConfig

variable (cfg : PoolConfig)

def metaOf (tr : RequestTracker) (loadSpec : Option LoadSpec) (skip : Bool) (hashes : List BlockHash)
    (last : Option Bool) : RequestTracker × Option ReqMeta :=
  ReqMeta.fromRequestTracker tr cfg.cacheTransferGranularity loadSpec skip hashes last cfg.discardPartialChunks

def chunkBoundary (saved : Nat) : Nat :=
  if cfg.discardPartialChunks then ceilDiv (saved + 1) cfg.cacheTransferGranularity * cfg.cacheTransferGranularity else 0

def metaWith (tr : RequestTracker) (loadSpec : Option LoadSpec) (canSave : Bool) (hashes : List BlockHash)
    (last : Option Bool) : ReqMeta where
  reqId := tr.reqId
  tokenLenChunk := cfg.lastChunkTokensNum tr.tokenLen
  blockIdsByGroup := tr.allocatedBlockIdsByGroup
  blockHashes := hashes
  canSave
  loadSpec := loadSpec.filter LoadSpec.canLoad
  isLastChunk := last
  kvCacheGroupIds := List.range tr.allocatedBlockIdsByGroup.length
  numPromptTokens := if tr.numPromptTokens = 0 then tr.tokenLen else tr.numPromptTokens

def Saves (tr : RequestTracker) (skip : Bool) : Prop :=
  skip = false ∧ cfg.chunkBoundary tr.numSavedTokens ≤ cfg.lastChunkTokensNum tr.tokenLen

variable {cfg} {tr : RequestTracker} {ls : Option LoadSpec}

theorem metaOf_of_saves (h : cfg.Saves tr skip) : cfg.metaOf tr ls skip hss last =
    ({ tr with numSavedTokens := cfg.lastChunkTokensNum tr.tokenLen },
      some (cfg.metaWith tr ls true hss last)) := by
  obtain ⟨rfl, hb⟩ := h
  have hn := decide_eq_false (Nat.not_lt.mpr hb)
  rw [chunkBoundary, lastChunkTokensNum, floorToCacheTransferGranularity] at hn
  simp only [metaOf, ReqMeta.fromRequestTracker, hn, Bool.or_false, Bool.false_eq_true, false_and, if_false]
  rfl

theorem metaOf_of_not_saves (h : ¬ cfg.Saves tr skip) : cfg.metaOf tr ls skip hss last =
    (tr, if ls = none then none else some (cfg.metaWith tr ls false hss last)) := by
  have hsk : (skip || decide (cfg.lastChunkTokensNum tr.tokenLen < cfg.chunkBoundary tr.numSavedTokens)) = true := by
    by_cases hs : skip = false
    · exact Bool.or_eq_true_iff.mpr (.inr (decide_eq_true (Nat.not_le.mp fun hle => h ⟨hs, hle⟩)))
    · rw [Bool.eq_true_of_not_eq_false hs, Bool.true_or]
  rw [chunkBoundary, lastChunkTokensNum, floorToCacheTransferGranularity] at hsk
  simp only [metaOf, ReqMeta.fromRequestTracker, hsk, true_and, if_true]
  split <;> rfl

variable (cfg tr ls skip hss last) in
theorem metaOf_tracker : ∃ saved, (cfg.metaOf tr ls skip hss last).1 = { tr with numSavedTokens := saved } := by
  by_cases h : cfg.Saves tr skip
  · exact ⟨_, by rw [metaOf_of_saves h]⟩
  · exact ⟨tr.numSavedTokens, by rw [metaOf_of_not_saves h]⟩

theorem metaOf_tokenLen : (cfg.metaOf tr ls skip hss last).1.tokenLen = tr.tokenLen := by
  obtain ⟨saved, htr⟩ := metaOf_tracker cfg tr ls skip hss last
  rw [htr]

theorem metaOf_meta (h : m ∈ (cfg.metaOf tr ls skip hss last).2) :
    ∃ canSave, (canSave = true → skip = false) ∧ m = cfg.metaWith tr ls canSave hss last := by
  by_cases hs : cfg.Saves tr skip
  · rw [metaOf_of_saves hs] at h
    exact ⟨true, fun _ => hs.1, (Option.some.inj h).symm⟩
  rw [metaOf_of_not_saves hs] at h
  split at h
  · cases h
  · exact ⟨false, fun hf => absurd hf Bool.false_ne_true, (Option.some.inj h).symm⟩

end PoolConfig

/-! ## Turns of the loops -/

def ReqMeta.strip (m : ReqMeta) : ReqMeta := { m with eventId := none }

def handedTo (r : RequestId) (metas : List ReqMeta) : List ReqMeta :=
  (metas.filter (·.reqId = r)).map ReqMeta.strip

variable {r : RequestId}

theorem handedTo_append : handedTo r (l ++ m) = handedTo r l ++ handedTo r m := by
  rw [handedTo, filter_append, map_append]
  rfl

theorem mem_handedTo : x ∈ handedTo r l ↔ ∃ m ∈ l, m.reqId = r ∧ m.strip = x := by
  simp [handedTo, and_assoc]

namespace PoolScheduler

variable {cfg : PoolConfig} {rs : RequestId → Request} {sch : RequestId → Nat} {r : RequestId}
  {s s' s'' : PoolScheduler} {mts : List ReqMeta}

structure Same (r : RequestId) (s s' : PoolScheduler) : Prop where
  tracker : dictGet r s'.requestTrackers = dictGet r s.requestTrackers
  loadSpec : dictGet r s'.loadSpecs = dictGet r s.loadSpecs
  preempted : r ∈ s'.preemptedReqIds ↔ r ∈ s.preemptedReqIds
  unfinished : s'.unfinishedRequests = s.unfinishedRequests

theorem Same.refl : Same r s s := ⟨rfl, rfl, Iff.rfl, rfl⟩

theorem Same.trans (h : Same r s s') (h' : Same r s' s'') : Same r s s'' :=
  ⟨h'.tracker.trans h.tracker, h'.loadSpec.trans h.loadSpec, h'.preempted.trans h.preempted,
    h'.unfinished.trans h.unfinished⟩

theorem addRequest_eq (cfg : PoolConfig) (s : PoolScheduler) (made : Option ReqMeta) : ∃ id es bs,
    (s.addRequest cfg made).1 = { s with sendingEventId := id, sendingEvents := es, sendingBlocks := bs } ∧
    (s.addRequest cfg made).2.map ReqMeta.strip = made.map ReqMeta.strip := by
  cases made with
  | none => exact ⟨_, _, _, rfl, rfl⟩
  | some req =>
    unfold addRequest touchSendingMambaBlocks
    simp only
    split <;> exact ⟨_, _, _, rfl, rfl⟩

structure Emitted (tr : RequestTracker) (made : RequestTracker × Option ReqMeta) (s : PoolScheduler)
    (result : PoolScheduler × Option ReqMeta) : Prop where
  tracker : ∀ r, dictGet r result.1.requestTrackers =
    if tr.reqId = r then some made.1 else dictGet r s.requestTrackers
  loadSpecs : result.1.loadSpecs = s.loadSpecs
  preempted : result.1.preemptedReqIds = s.preemptedReqIds
  unfinished : result.1.unfinishedRequests = s.unfinishedRequests
  metas : result.2.map ReqMeta.strip = made.2
  ids : ∀ m ∈ made.2, m.reqId = tr.reqId

theorem emitted (cfg : PoolConfig) (s : PoolScheduler) (tr : RequestTracker) (ls : Option LoadSpec)
    (skip : Bool) (hss : List BlockHash) (last : Option Bool) :
    Emitted tr (cfg.metaOf tr ls skip hss last) s (s.emit cfg tr ls skip hss last) := by
  obtain ⟨id, es, bs, hs, hm⟩ := addRequest_eq cfg
    { s with requestTrackers := dictSet tr.reqId (cfg.metaOf tr ls skip hss last).1 s.requestTrackers }
    (cfg.metaOf tr ls skip hss last).2
  rw [emit]
  refine ⟨fun r => (congrArg (dictGet r ·.requestTrackers) hs).trans dictGet_dictSet, congrArg (·.loadSpecs) hs,
    congrArg (·.preemptedReqIds) hs, congrArg (·.unfinishedRequests) hs, hm.trans ?_, fun m hm => ?_⟩
  · cases h : (cfg.metaOf tr ls skip hss last).2 with
    | none => rfl
    | some m =>
      obtain ⟨canSave, -, rfl⟩ := PoolConfig.metaOf_meta h
      rfl
  · obtain ⟨canSave, -, rfl⟩ := PoolConfig.metaOf_meta hm
    rfl

section
variable (h : Emitted tr made s res)
include h

theorem Emitted.handed : handedTo r res.2.toList = if tr.reqId = r then made.2.toList else [] := by
  have heq : handedTo r res.2.toList = made.2.toList.filter (·.reqId = r) := by
    rw [← h.metas, Option.toList_map, filter_map]
    rfl
  split
  · next hr => exact heq.trans (filter_eq_self.mpr fun m hm => by simp [h.ids m (Option.mem_toList.mp hm), hr])
  · next hr => exact heq.trans (filter_eq_nil_iff.mpr fun m hm => by simp [h.ids m (Option.mem_toList.mp hm), hr])

theorem Emitted.same (hr : tr.reqId ≠ r) : Same r s res.1 :=
  ⟨(h.tracker r).trans (if_neg hr), by rw [h.loadSpecs], by rw [h.preempted], h.unfinished⟩

end

def Keyed (s : PoolScheduler) : Prop := ∀ r tr, dictGet r s.requestTrackers = some tr → tr.reqId = r

variable {tr : RequestTracker} {res : PoolScheduler × Option ReqMeta} {n : Nat}

theorem Keyed.dictSet (hs : s.Keyed) (htr : tr.reqId = r)
    (h : s'.requestTrackers = dictSet r tr s.requestTrackers) : s'.Keyed := fun r' tr' hg => by
  rw [h, dictGet_dictSet] at hg
  split at hg
  · next heq =>
    cases hg
    exact htr.trans heq
  · exact hs r' tr' hg

theorem Keyed.emit (hs : s.Keyed) : (s.emit cfg tr ls skip hss last).1.Keyed := fun r tr' hg => by
  rw [(emitted ..).tracker] at hg
  split at hg
  · next hr =>
    obtain ⟨saved, htr⟩ := PoolConfig.metaOf_tracker cfg tr ls skip hss last
    rw [htr] at hg
    cases hg
    exact hr
  · exact hs r tr' hg

structure Apart (r : RequestId) (s : PoolScheduler) (result : PoolScheduler × Option ReqMeta) : Prop where
  same : Same r s result.1
  handed : handedTo r result.2.toList = []

def Local {α : Type} (id : α → RequestId) (turn : PoolScheduler → α → Except PyError (PoolScheduler × Option ReqMeta)) :
    Prop :=
  ∀ s a result, turn s a = .ok result → s.Keyed → result.1.Keyed ∧ ∀ r, id a ≠ r → Apart r s result

theorem same_popLoadSpec (hr : r' ≠ r) : Same r s (s.popLoadSpec r').2 :=
  ⟨rfl, by rw [popLoadSpec, dictGet_dictPop, if_neg hr], Iff.rfl, rfl⟩

theorem apart_emit (h : Same r s s') (hr : tr.reqId ≠ r) : Apart r s (s'.emit cfg tr ls skip hss last) :=
  ⟨h.trans ((emitted ..).same hr), (emitted ..).handed.trans (if_neg hr)⟩

theorem newRequest_local : Local NewRequest.reqId (newRequest cfg rs sch) := fun s req res h hs => by
  unfold newRequest at h
  simp only at h
  split at h
  · cases h
  · cases h
    exact ⟨Keyed.emit hs, fun r hr => apart_emit (same_popLoadSpec hr) hr⟩

theorem cachedRequest_local : Local CachedRequest.reqId (cachedRequest cfg rs sch) := fun s req res h hs => by
  unfold cachedRequest at h
  split at h
  · cases h
    exact ⟨hs, fun r _ => ⟨.refl, rfl⟩⟩
  split at h
  · unfold resumedRequest at h
    simp only at h
    split at h
    · cases h
    cases h
    refine ⟨Keyed.emit hs, fun r hr => apart_emit ?_ hr⟩
    have hp : Same r s { s with preemptedReqIds := s.preemptedReqIds.filter (· ≠ req.reqId) } :=
      ⟨rfl, rfl, by simp [hr.symm], rfl⟩
    exact hp.trans (same_popLoadSpec hr)
  · unfold runningRequest at h
    split at h
    · cases h
    rename_i tr htr
    have hk := hs _ _ htr
    split at h
    · cases h
    simp only at h
    split at h
    · cases h
      have hk' : ∀ n, ({ tr with tokenLen := n } : RequestTracker).reqId = req.reqId := fun _ => hk
      exact ⟨hs.dictSet (hk' _) rfl, fun r hr => ⟨⟨by rw [dictGet_dictSet, if_neg hr], rfl, Iff.rfl, rfl⟩, rfl⟩⟩
    · cases h
      exact ⟨Keyed.emit hs, fun r hr => apart_emit .refl fun heq => hr (hk.symm.trans heq)⟩

section
variable (h : waitingRequest cfg rs ids s item = .ok res)
include h

theorem waitingRequest_cases :
    ((∀ r, Same r s res.1) ∧ res.1.preemptedReqIds = s.preemptedReqIds ∧ res.2 = none) ∨
    item.1 ∉ ids ∧ ∃ spec ts, dictGet item.1 s.loadSpecs = some spec ∧ res = (s.popLoadSpec item.1).2.emit cfg
      (cfg.newTracker item.1 ts (rs item.1).promptLen item.2) (some spec) false
      (rs item.1).blockHashes none := by
  unfold waitingRequest at h
  split at h
  · cases h
    exact .inl ⟨fun _ => .refl, rfl, rfl⟩
  rename_i hi
  rw [popLoadSpec] at h
  cases hsp : dictGet item.1 s.loadSpecs with
  | none =>
    rw [hsp] at h
    cases h
    refine .inl ⟨fun r => ⟨rfl, ?_, Iff.rfl, rfl⟩, rfl, rfl⟩
    rw [dictGet_dictPop]
    split
    · next heq => rw [← heq, hsp]
    · rfl
  | some spec =>
    rw [hsp] at h
    cases h
    exact .inr ⟨hi, spec, _, rfl, rfl⟩

theorem waitingRequest_apart (hs : s.Keyed) :
    res.1.Keyed ∧ ∀ r, item.1 ≠ r ∨ r ∈ ids ∨ dictGet r s.loadSpecs = none → Apart r s res := by
  rcases waitingRequest_cases h with ⟨hsame, -, hno⟩ | ⟨hi, spec, ts, hsp, rfl⟩
  · exact ⟨fun r tr hg => hs r tr ((hsame r).tracker ▸ hg), fun r _ => ⟨hsame r, by rw [hno]; rfl⟩⟩
  refine ⟨Keyed.emit hs, fun r hr => ?_⟩
  have hne : item.1 ≠ r := by
    rintro rfl
    rcases hr with hr | hr | hr
    · exact hr rfl
    · exact hi hr
    · rw [hsp] at hr
      cases hr
  exact apart_emit (same_popLoadSpec hne) hne

end

theorem waitingRequest_local : Local Prod.fst (waitingRequest cfg rs ids) :=
  fun _ _ _ h hs => ⟨(waitingRequest_apart h hs).1, fun r hr => (waitingRequest_apart h hs).2 r (.inl hr)⟩

/-! ## Loops -/

section
variable {turn : PoolScheduler → α → Except PyError (PoolScheduler × Option ReqMeta)}

theorem collect_cons {l : List α} : collect turn s (a :: l) = .ok (s'', mts) ↔
    ∃ s' made ms, turn s a = .ok (s', made) ∧ collect turn s' l = .ok (s'', ms) ∧ mts = made.toList ++ ms := by
  rw [collect, bind_ok]
  constructor
  · rintro ⟨⟨s', made⟩, ht, h⟩
    obtain ⟨⟨s2, ms⟩, hr, h⟩ := bind_ok.mp h
    cases h
    exact ⟨s', made, ms, ht, hr, rfl⟩
  · rintro ⟨s', made, ms, ht, hr, rfl⟩
    exact ⟨(s', made), ht, bind_ok.mpr ⟨(s'', ms), hr, rfl⟩⟩

theorem collect_inv {P : PoolScheduler → Prop} {Q : ReqMeta → Prop}
    (ht : ∀ s a res, turn s a = .ok res → P s → P res.1 ∧ ∀ m ∈ res.2, Q m) :
    ∀ {l : List α} {s s' : PoolScheduler} {mts : List ReqMeta}, collect turn s l = .ok (s', mts) → P s →
      P s' ∧ ∀ m ∈ mts, Q m
  | [], s, s', mts, h, hs => by
    cases h
    exact ⟨hs, fun _ hm => absurd hm not_mem_nil⟩
  | a :: l, s, s'', mts, h, hs => by
    obtain ⟨s', made, ms, hf, hr, rfl⟩ := collect_cons.mp h
    obtain ⟨hs', hma⟩ := ht s a _ hf hs
    obtain ⟨hs'', hms⟩ := collect_inv ht hr hs'
    refine ⟨hs'', fun m hm => ?_⟩
    rcases mem_append.mp hm with hm | hm
    · exact hma m (Option.mem_toList.mp hm)
    · exact hms m hm

theorem collect_ok {P : PoolScheduler → List α → Prop}
    (hok : ∀ s a l, P s (a :: l) → ∃ res, turn s a = .ok res ∧ P res.1 l) :
    ∀ {l : List α} {s : PoolScheduler}, P s l → ∃ s' mts, collect turn s l = .ok (s', mts)
  | [], s, _ => ⟨s, [], rfl⟩
  | a :: l, s, h => by
    obtain ⟨⟨s1, made⟩, hf, h1⟩ := hok s a l h
    obtain ⟨s', mts, hr⟩ := collect_ok hok h1
    exact ⟨s', made.toList ++ mts, collect_cons.mpr ⟨s1, made, mts, hf, hr, rfl⟩⟩

theorem collect_apart {C : PoolScheduler → α → Prop} (hC : ∀ s s' a, Same r s s' → C s a → C s' a)
    (ht : ∀ s a res, turn s a = .ok res → s.Keyed → res.1.Keyed ∧ (C s a → Apart r s res)) :
    ∀ {l : List α} {s s' : PoolScheduler} {mts : List ReqMeta}, collect turn s l = .ok (s', mts) → s.Keyed →
      (∀ a ∈ l, C s a) → s'.Keyed ∧ Same r s s' ∧ handedTo r mts = []
  | [], s, s', mts, h, hs, _ => by
    cases h
    exact ⟨hs, .refl, rfl⟩
  | a :: l, s, s'', mts, h, hs, hl => by
    obtain ⟨s', made, ms, hfi, hrest, rfl⟩ := collect_cons.mp h
    obtain ⟨hkey, hap⟩ := ht s a _ hfi hs
    have ha := hap (hl a mem_cons_self)
    obtain ⟨hkey', hsame, hha⟩ := collect_apart hC ht hrest hkey fun b hb =>
      hC s s' b ha.same (hl b (mem_cons_of_mem a hb))
    refine ⟨hkey', ha.same.trans hsame, ?_⟩
    rw [handedTo_append, ha.handed, hha, append_nil]

variable {id : α → RequestId} (ht : Local id turn)
include ht

theorem collect_keeps {l : List α} (h : collect turn s l = .ok (s', mts)) (hs : s.Keyed) :
    s'.Keyed ∧ s'.unfinishedRequests = s.unfinishedRequests :=
  (collect_inv (P := fun s1 => s1.Keyed ∧ s1.unfinishedRequests = s.unfinishedRequests) (Q := fun _ => True)
    (fun s1 a res hr ⟨hk, hun⟩ => by
      obtain ⟨hk', ha⟩ := ht s1 a res hr hk
      exact ⟨⟨hk', (ha _ (Nat.ne_add_one (id a))).same.unfinished.trans hun⟩, fun _ _ => trivial⟩) h ⟨hs, rfl⟩).1

theorem Local.apart {l : List α} (h : collect turn s l = .ok (s', mts)) (hs : s.Keyed) (hr : r ∉ l.map id) :
    s'.Keyed ∧ Same r s s' ∧ handedTo r mts = [] :=
  collect_apart (C := fun _ a => id a ≠ r) (fun _ _ _ _ hc => hc)
    (fun s a res hre hs => ⟨(ht s a res hre hs).1, (ht s a res hre hs).2 r⟩)
    h hs fun _ ha heq => hr (heq ▸ mem_map_of_mem ha)

theorem collect_at :
    ∀ {l : List α} {s s' : PoolScheduler} {mts : List ReqMeta} {a : α}, collect turn s l = .ok (s', mts) → s.Keyed →
      (l.map id).Nodup → a ∈ l → ∃ s1 res, Same (id a) s s1 ∧ s1.Keyed ∧ turn s1 a = .ok res ∧
        Same (id a) res.1 s' ∧ s'.Keyed ∧ handedTo (id a) mts = handedTo (id a) res.2.toList
  | b :: l, s, s'', mts, a, h, hs, hnod, ha => by
    obtain ⟨s', made, ms, hfi, hrest, rfl⟩ := collect_cons.mp h
    obtain ⟨hkey, hap⟩ := ht s b _ hfi hs
    rw [map_cons, nodup_cons] at hnod
    rcases mem_cons.mp ha with rfl | ha
    · obtain ⟨hkey', hsame, hha⟩ := ht.apart hrest hkey hnod.1
      refine ⟨s, _, .refl, hs, hfi, hsame, hkey', ?_⟩
      rw [handedTo_append, hha, append_nil]
    have hne : id b ≠ id a := fun heq => hnod.1 (heq ▸ mem_map_of_mem ha)
    obtain ⟨s1, res, hsame, hkey1, hre, haf, hkey', hha⟩ := collect_at hrest hkey hnod.2 ha
    refine ⟨s1, res, (hap _ hne).same.trans hsame, hkey1, hre, haf, hkey', ?_⟩
    rw [handedTo_append, (hap _ hne).handed, hha, nil_append]

theorem collect_total {R : PoolScheduler → α → Prop} (hre : ∀ s s' a, Same (id a) s s' → R s a → R s' a)
    (hok : ∀ s a, R s a → ∃ res, turn s a = .ok res) {l : List α} (hs : s.Keyed) (hnod : (l.map id).Nodup)
    (hl : ∀ a ∈ l, R s a) : ∃ s' mts, collect turn s l = .ok (s', mts) := by
  refine collect_ok (P := fun s l => s.Keyed ∧ (l.map id).Nodup ∧ ∀ a ∈ l, R s a) (fun s a l ⟨hs, hnod, hl⟩ => ?_)
    ⟨hs, hnod, hl⟩
  rw [map_cons, nodup_cons] at hnod
  obtain ⟨res, hfi⟩ := hok s a (hl a mem_cons_self)
  obtain ⟨hkey, hap⟩ := ht s a _ hfi hs
  exact ⟨res, hfi, hkey, hnod.2, fun b hb => hre s _ b
    (hap _ fun heq => hnod.1 (heq ▸ mem_map_of_mem hb)).same (hl b (mem_cons_of_mem a hb))⟩

end

/-! ## Requests that wait -/

theorem matched_same {req : Request} {hit : Nat} (hr : r ≠ r') :
    Same r' s (s.getNumNewMatchedTokens cfg r req n hit).1 ∧
    (s.getNumNewMatchedTokens cfg r req n hit).1.requestTrackers = s.requestTrackers ∧
    (s.getNumNewMatchedTokens cfg r req n hit).1.preemptedReqIds = s.preemptedReqIds := by
  unfold getNumNewMatchedTokens
  split
  · exact ⟨.refl, rfl, rfl⟩
  split
  · exact ⟨.refl, rfl, rfl⟩
  generalize (if hit = req.numTokens then hit - 1 else hit) = external
  simp only
  split
  · exact ⟨.refl, rfl, rfl⟩
  · exact ⟨⟨rfl, by rw [dictGet_dictSet, if_neg hr], Iff.rfl, rfl⟩, rfl, rfl⟩

theorem allocated_ok {blockIds : List (List Nat)} (hn : ∀ spec, dictGet r s.loadSpecs = some spec →
      n = 0 ∨ (n : Int) = spec.kvpoolCachedTokens - spec.vllmCachedTokens) :
    ∃ specs bs ids, s.updateStateAfterAlloc cfg r blockIds n = .ok { s with
        loadSpecs := specs, unfinishedRequests := dictSet r bs s.unfinishedRequests, unfinishedRequestIds := ids } ∧
      ∀ r', r ≠ r' → dictGet r' specs = dictGet r' s.loadSpecs := by
  unfold updateStateAfterAlloc
  simp only
  cases hs : dictGet r s.loadSpecs with
  | none => exact ⟨s.loadSpecs, _, _, rfl, fun _ _ => rfl⟩
  | some spec =>
    simp only
    by_cases hz : n = 0
    · rw [if_pos hz]
      exact ⟨_, _, _, rfl, fun r' hr => by rw [dictGet_dictSet, if_neg hr]⟩
    · rw [if_neg hz, if_neg (not_not.mpr ((hn spec hs).resolve_left hz))]
      exact ⟨_, _, _, rfl, fun r' hr => by rw [dictGet_dictSet, if_neg hr]⟩

/-! ## Finished and preempted requests -/

def clean (s : PoolScheduler) (out : SchedulerOutput) : PoolScheduler :=
  out.preemptedReqIds.foldl preempt (out.finishedReqIds.foldl finish s)

theorem mem_foldl_finish : ∀ {ids : List RequestId} {s : PoolScheduler},
    r ∈ (ids.foldl finish s).preemptedReqIds ↔ r ∈ s.preemptedReqIds ∧ r ∉ ids
  | [], s => by simp
  | q :: ids, s => by
    rw [foldl_cons, mem_foldl_finish]
    simp only [finish, mem_filter, decide_eq_true_eq, mem_cons, not_or, and_assoc]

theorem mem_foldl_preempt : ∀ {ids : List RequestId} {s : PoolScheduler},
    r ∈ (ids.foldl preempt s).preemptedReqIds ↔ r ∈ s.preemptedReqIds ∨ r ∈ ids
  | [], s => by simp
  | q :: ids, s => by
    rw [foldl_cons, mem_foldl_preempt]
    simp only [preempt, mem_insert_iff, mem_cons]
    tauto

section

theorem clean_loadSpecs : (s.clean out).loadSpecs = s.loadSpecs := by
  refine foldlRecOn (motive := fun g => loadSpecs g = _) _ preempt ?_ fun _ h _ _ => h
  exact foldlRecOn (motive := fun g => loadSpecs g = _) _ finish rfl fun _ h _ _ => h

theorem clean_dict {g : PoolScheduler → List (RequestId × β)} (hf : ∀ s r, dictPop r (g s) = g (s.finish r))
    (hp : ∀ s r, dictPop r (g s) = g (s.preempt r)) : dictGet r (g (s.clean out)) =
      if r ∈ out.preemptedReqIds ∨ r ∈ out.finishedReqIds then none else dictGet r (g s) := by
  have hom {f} := @foldl_hom _ _ _ g f fun d r => dictPop r d
  rw [clean, ← hom hp, ← hom hf, ← foldl_append, dictGet_foldl_dictPop]
  simp only [mem_append, or_comm]

theorem clean_tracker : dictGet r (s.clean out).requestTrackers =
    if r ∈ out.preemptedReqIds ∨ r ∈ out.finishedReqIds then none else dictGet r s.requestTrackers :=
  clean_dict (fun _ _ => rfl) fun _ _ => rfl

theorem clean_unfinished : dictGet r (s.clean out).unfinishedRequests =
    if r ∈ out.preemptedReqIds ∨ r ∈ out.finishedReqIds then none else dictGet r s.unfinishedRequests :=
  clean_dict (fun _ _ => rfl) fun _ _ => rfl

theorem clean_preempted : r ∈ (s.clean out).preemptedReqIds ↔
    (r ∈ s.preemptedReqIds ∧ r ∉ out.finishedReqIds) ∨ r ∈ out.preemptedReqIds := by
  rw [clean, mem_foldl_preempt, mem_foldl_finish]

theorem Keyed.clean (hs : s.Keyed) : (s.clean out).Keyed := fun r tr hg => by
  rw [clean_tracker] at hg
  split at hg
  · cases hg
  · exact hs r tr hg

end

/-! ## The whole step -/

section
variable {out : SchedulerOutput} {md : Metadata}

theorem build_ok : s.buildConnectorMeta cfg rs out = .ok (s', md) ↔ ∃ s1 new s2 cached wa,
    collect (newRequest cfg rs out.numScheduledTokens) (s.clean out) out.scheduledNewReqs = .ok (s1, new) ∧
    collect (cachedRequest cfg rs out.numScheduledTokens) s1
      (if cfg.forceSkipSave then [] else out.scheduledCachedReqs) = .ok (s2, cached) ∧
    collect (waitingRequest cfg rs out.scheduledIds) s2 s2.unfinishedRequests = .ok (s', wa) ∧
    md = ⟨s'.unfinishedRequestIds, out.preemptedReqIds, new ++ cached ++ wa⟩ := by
  unfold buildConnectorMeta
  rw [bind_ok]
  constructor
  · rintro ⟨⟨s1, new⟩, hn, h⟩
    obtain ⟨⟨s2, cached⟩, hc, h⟩ := bind_ok.mp h
    obtain ⟨⟨s3, wa⟩, hw, h⟩ := bind_ok.mp h
    cases h
    exact ⟨s1, new, s2, cached, wa, hn, hc, hw, rfl⟩
  · rintro ⟨s1, new, s2, cached, wa, hn, hc, hw, rfl⟩
    exact ⟨(s1, new), hn, bind_ok.mpr ⟨(s2, cached), hc, bind_ok.mpr ⟨(s', wa), hw, rfl⟩⟩⟩

variable {q : CachedRequest} {l : List (RequestId × List (List Nat))} {tr : RequestTracker}

theorem loop_cached_sub (hq : q ∈ if cfg.forceSkipSave then [] else out.scheduledCachedReqs) :
    q ∈ out.scheduledCachedReqs := by
  split at hq
  · exact absurd hq not_mem_nil
  · exact hq

theorem waiting_apart (h : collect (waitingRequest cfg rs ids) s l = .ok (s', mts)) (hs : s.Keyed)
    (hr : r ∈ ids ∨ dictGet r s.loadSpecs = none) : s'.Keyed ∧ Same r s s' ∧ handedTo r mts = [] :=
  collect_apart (C := fun s _ => r ∈ ids ∨ dictGet r s.loadSpecs = none)
    (fun _ _ _ hsame hc => hc.imp_right hsame.loadSpec.trans)
    (fun _ _ _ ht hs => ⟨(waitingRequest_apart ht hs).1, fun hc => (waitingRequest_apart ht hs).2 r (.inr hc)⟩)
    h hs fun _ _ => hr

structure Spoken (s' : PoolScheduler) (md : Metadata) (r : RequestId) (made : RequestTracker × Option ReqMeta) : Prop where
  tracker : dictGet r s'.requestTrackers = some made.1
  handed : handedTo r md.requests = made.2.toList

theorem spoken_of_emit (htr : tr.reqId = r) (hs : Same r (s.emit cfg tr ls skip hss last).1 s')
    (hh : handedTo r md.requests = handedTo r (s.emit cfg tr ls skip hss last).2.toList) :
    Spoken s' md r (cfg.metaOf tr ls skip hss last) :=
  ⟨hs.tracker.trans (((emitted ..).tracker r).trans (if_pos htr)), hh.trans ((emitted ..).handed.trans (if_pos htr))⟩

def grown (requests : RequestId → Request) (scheduled : RequestId → Nat) (tr : RequestTracker) (r : RequestId) :
    RequestTracker :=
  { tr with tokenLen := tr.tokenLen + min (scheduled r) ((requests r).numTokens - tr.tokenLen) }

section
variable (h : s.buildConnectorMeta cfg rs out = .ok (s', md)) (hs : s.Keyed)
include h hs

theorem build_unscheduled (hnew : r ∉ out.scheduledNewReqs.map NewRequest.reqId)
    (hca : cfg.forceSkipSave = true ∨ r ∉ out.scheduledCachedReqs.map CachedRequest.reqId) :
    ∃ s2 wa, Same r (s.clean out) s2 ∧ s2.Keyed ∧
      collect (waitingRequest cfg rs out.scheduledIds) s2 s2.unfinishedRequests = .ok (s', wa) ∧
      handedTo r md.requests = handedTo r wa := by
  obtain ⟨s1, new, s2, cached, wa, hloop, hloop', hwa, rfl⟩ := build_ok.mp h
  obtain ⟨hkey1, hsame1, hha1⟩ := newRequest_local.apart hloop hs.clean hnew
  obtain ⟨hkey2, hsame2, hha2⟩ := cachedRequest_local.apart (r := r) hloop' hkey1 fun hc => by
    obtain ⟨c, hc, heq⟩ := mem_map.mp hc
    rcases hca with hfo | hca
    · rw [if_pos hfo] at hc
      exact absurd hc not_mem_nil
    · exact hca (mem_map.mpr ⟨c, loop_cached_sub hc, heq⟩)
  refine ⟨s2, wa, hsame1.trans hsame2, hkey2, hwa, ?_⟩
  rw [handedTo_append, handedTo_append, hha1, hha2, nil_append, nil_append]

theorem build_apart (hr : r ∉ out.scheduledIds) (hload : dictGet r s.loadSpecs = none) :
    Same r (s.clean out) s' ∧ handedTo r md.requests = [] := by
  rw [scheduledIds, mem_append, not_or] at hr
  obtain ⟨s2, wa, hsame, hkey, hwa, hha⟩ := build_unscheduled h hs hr.1 (.inr hr.2)
  have hload' : dictGet r s2.loadSpecs = none := by rw [hsame.loadSpec, clean_loadSpecs, hload]
  obtain ⟨-, hsame', hnone⟩ := waiting_apart hwa hkey (.inr hload')
  exact ⟨hsame.trans hsame', hha.trans hnone⟩

theorem build_preempted (hr : r ∉ out.scheduledIds) : r ∈ s'.preemptedReqIds ↔ r ∈ (s.clean out).preemptedReqIds := by
  rw [scheduledIds, mem_append, not_or] at hr
  obtain ⟨s2, wa, hsame, hkey, hwa, -⟩ := build_unscheduled h hs hr.1 (.inr hr.2)
  have hke := (collect_inv (P := fun s => s.preemptedReqIds = s2.preemptedReqIds) (Q := fun _ => True)
    (fun s item res ht heq => ⟨by
      rcases waitingRequest_cases ht with ⟨-, hp, -⟩ | ⟨-, -, -, -, rfl⟩
      · exact hp.trans heq
      · exact (emitted ..).preempted.trans heq, fun _ _ => trivial⟩) hwa rfl).1
  rw [hke, hsame.preempted]

theorem build_keeps : s'.Keyed ∧ s'.unfinishedRequests = (s.clean out).unfinishedRequests := by
  obtain ⟨s1, new, s2, cached, wa, hn, hc, hw, rfl⟩ := build_ok.mp h
  have h1 := collect_keeps newRequest_local hn hs.clean
  have h2 := collect_keeps cachedRequest_local hc h1.1
  have h3 := collect_keeps waitingRequest_local hw h2.1
  exact ⟨h3.1, h3.2.trans (h2.2.trans h1.2)⟩

theorem build_new {q : NewRequest} (hnod : out.scheduledIds.Nodup) (hq : q ∈ out.scheduledNewReqs) : ∃ s1 res, Same q.reqId (s.clean out) s1 ∧
      newRequest cfg rs out.numScheduledTokens s1 q = .ok res ∧ Same q.reqId res.1 s' ∧
      handedTo q.reqId md.requests = handedTo q.reqId res.2.toList := by
  obtain ⟨s1, new, s2, cached, wa, hnew, hca, hwa, rfl⟩ := build_ok.mp h
  obtain ⟨hnn, -, hdi⟩ := nodup_append.mp hnod
  have hmem := mem_map_of_mem (f := NewRequest.reqId) hq
  obtain ⟨s0, res, hbe, -, ht, haf, hkey, hha⟩ := collect_at newRequest_local hnew hs.clean hnn hq
  obtain ⟨hkey2, hsame2, hha2⟩ := cachedRequest_local.apart hca hkey fun hc => by
    obtain ⟨c, hc, heq⟩ := mem_map.mp hc
    exact hdi _ hmem _ (mem_map_of_mem (loop_cached_sub hc)) heq.symm
  obtain ⟨-, hsame3, hha3⟩ := waiting_apart hwa hkey2 (.inl (mem_append_left _ hmem))
  refine ⟨s0, res, hbe, ht, haf.trans (hsame2.trans hsame3), ?_⟩
  rw [handedTo_append, handedTo_append, hha, hha2, hha3, append_nil, append_nil]

theorem build_new_spec {q : NewRequest} (hn : out.scheduledIds.Nodup) (hq : q ∈ out.scheduledNewReqs) :
    let tr := cfg.newTracker q.reqId (q.numComputedTokens + out.numScheduledTokens q.reqId) q.promptLen q.blockIds
    (∃ ls, Spoken s' md q.reqId (cfg.metaOf tr ls cfg.forceSkipSave (rs q.reqId).blockHashes
      (isLastChunk cfg tr q.promptLen))) ∧
    dictGet q.reqId s'.loadSpecs = none ∧
    (q.reqId ∈ s'.preemptedReqIds ↔ q.reqId ∈ (s.clean out).preemptedReqIds) := by
  intro tr
  obtain ⟨s1, res, hb, ht, ha, hh⟩ := build_new h hs hn hq
  unfold newRequest at ht
  simp only at ht
  split at ht
  · cases ht
  cases ht
  refine ⟨⟨_, spoken_of_emit rfl ha hh⟩, ?_, ?_⟩
  · rw [ha.loadSpec, (emitted ..).loadSpecs, popLoadSpec, dictGet_dictPop, if_pos rfl]
  · rw [ha.preempted, ← hb.preempted, (emitted ..).preempted]
    exact Iff.rfl

variable (hnod : out.scheduledIds.Nodup) (hq : q ∈ out.scheduledCachedReqs) (hfo : cfg.forceSkipSave = false)
include hnod hq hfo

theorem build_cached : ∃ s1 res, Same q.reqId (s.clean out) s1 ∧ s1.Keyed ∧
      cachedRequest cfg rs out.numScheduledTokens s1 q = .ok res ∧ Same q.reqId res.1 s' ∧
      handedTo q.reqId md.requests = handedTo q.reqId res.2.toList := by
  obtain ⟨s1, new, s2, cached, wa, hnew, hca, hwa, rfl⟩ := build_ok.mp h
  rw [if_neg (by rw [hfo]; exact Bool.false_ne_true)] at hca
  obtain ⟨-, hnc, hdi⟩ := nodup_append.mp hnod
  have hmem := mem_map_of_mem (f := CachedRequest.reqId) hq
  obtain ⟨hkey1, hsame1, hha1⟩ := newRequest_local.apart hnew hs.clean fun hc => hdi _ hc _ hmem rfl
  obtain ⟨s0, res, hbe, hkey0, ht, haf, hkey, hha⟩ := collect_at cachedRequest_local hca hkey1 hnc hq
  obtain ⟨-, hsame3, hha3⟩ := waiting_apart hwa hkey (.inl (mem_append_right _ hmem))
  refine ⟨s0, res, hsame1.trans hbe, hkey0, ht, haf.trans hsame3, ?_⟩
  rw [handedTo_append, handedTo_append, hha, hha1, hha3, append_nil, nil_append]

theorem build_resumed_spec (hbl : q.newBlockIds = some bs) (hpr : q.reqId ∈ (s.clean out).preemptedReqIds) :
    let req := rs q.reqId
    let tr := cfg.newTracker q.reqId (req.numComputedTokens + out.numScheduledTokens q.reqId) req.promptLen bs
    (∃ ls, Spoken s' md q.reqId (cfg.metaOf tr ls cfg.forceSkipSave req.blockHashes
      (isLastChunk cfg tr req.promptLen))) ∧
    dictGet q.reqId s'.loadSpecs = none ∧ q.reqId ∉ s'.preemptedReqIds := by
  intro req tr
  obtain ⟨s1, res, hbe, -, ht, haf, hha⟩ := build_cached h hs hnod hq hfo
  rw [cachedRequest, hbl] at ht
  simp only at ht
  rw [if_pos (hbe.preempted.mpr hpr)] at ht
  unfold resumedRequest at ht
  simp only at ht
  split at ht
  · cases ht
  cases ht
  refine ⟨⟨_, spoken_of_emit rfl haf hha⟩, ?_, ?_⟩
  · rw [haf.loadSpec, (emitted ..).loadSpecs, popLoadSpec, dictGet_dictPop, if_pos rfl]
  · rw [haf.preempted, (emitted ..).preempted]
    simp [popLoadSpec]

theorem build_running_spec (hbl : q.newBlockIds = some bs)
    (hpr : q.reqId ∉ (s.clean out).preemptedReqIds) (htr : dictGet q.reqId (s.clean out).requestTrackers = some tr) :
    let req := rs q.reqId
    let tr1 := grown rs out.numScheduledTokens tr q.reqId
    let tr2 := tr1.update bs req.numComputedTokens
    (if req.promptLen ≤ q.numComputedTokens then Spoken s' md q.reqId (tr1, none)
      else Spoken s' md q.reqId (cfg.metaOf tr2 none cfg.forceSkipSave req.blockHashes
        (isLastChunk cfg tr2 req.promptLen))) ∧
    dictGet q.reqId s'.loadSpecs = dictGet q.reqId (s.clean out).loadSpecs ∧ q.reqId ∉ s'.preemptedReqIds := by
  intro req tr1 tr2
  obtain ⟨s1, res, hbe, hke, ht, haf, hha⟩ := build_cached h hs hnod hq hfo
  have htr1 : dictGet q.reqId s1.requestTrackers = some tr := hbe.tracker.trans htr
  have hkey : tr.reqId = q.reqId := hke _ _ htr1
  have hpr1 : q.reqId ∉ s1.preemptedReqIds := fun hmem => hpr (hbe.preempted.mp hmem)
  rw [cachedRequest, hbl] at ht
  simp only at ht
  rw [if_neg hpr1, runningRequest, htr1] at ht
  simp only at ht
  split at ht
  · cases ht
  by_cases hdone : req.promptLen ≤ q.numComputedTokens
  · rw [if_pos hdone] at ht ⊢
    cases ht
    refine ⟨⟨haf.tracker.trans ?_, hha⟩, haf.loadSpec.trans hbe.loadSpec, ?_⟩
    · rw [dictGet_dictSet, if_pos rfl]
      rfl
    · rw [haf.preempted]
      exact hpr1
  · rw [if_neg hdone] at ht ⊢
    cases ht
    refine ⟨spoken_of_emit hkey haf hha, ?_, ?_⟩
    · rw [haf.loadSpec, (emitted ..).loadSpecs, hbe.loadSpec]
    · rw [haf.preempted, (emitted ..).preempted]
      exact hpr1

theorem build_passed (hbl : q.newBlockIds = none) : Same q.reqId (s.clean out) s' ∧ handedTo q.reqId md.requests = [] := by
  obtain ⟨s1, res, hbe, -, ht, haf, hha⟩ := build_cached h hs hnod hq hfo
  rw [cachedRequest, hbl] at ht
  cases ht
  exact ⟨hbe.trans haf, hha⟩

end

theorem waiting_meta (h : collect (waitingRequest cfg rs ids) s l = .ok (s', mts)) :
    ∀ m ∈ mts, m.reqId ∉ ids ∧ m.isLastChunk = none := by
  refine (collect_inv (P := fun _ => True) (fun s item res ht _ => ⟨trivial, fun m hm => ?_⟩) h trivial).2
  rcases waitingRequest_cases ht with ⟨-, -, hno⟩ | ⟨hi, spec, ts, -, rfl⟩
  · rw [hno] at hm
    cases hm
  have hs := Option.mem_map_of_mem ReqMeta.strip hm
  rw [(emitted ..).metas] at hs
  obtain ⟨canSave, -, hs⟩ := PoolConfig.metaOf_meta hs
  have hid : m.strip.reqId = item.1 := by rw [hs]; rfl
  have hl : m.strip.isLastChunk = none := by rw [hs]; rfl
  exact ⟨fun hmem => hi (hid ▸ hmem), hl⟩

theorem waitingRequest_ok : ∃ res, waitingRequest cfg rs ids s item = .ok res := by
  unfold waitingRequest
  split
  · exact ⟨_, rfl⟩
  · split <;> exact ⟨_, rfl⟩

def CachedReady (s : PoolScheduler) (q : CachedRequest) : Prop :=
  q.newBlockIds ≠ none → q.reqId ∈ s.unfinishedRequests.map Prod.fst ∧
    (q.reqId ∉ s.preemptedReqIds → ∃ tr, dictGet q.reqId s.requestTrackers = some tr)

theorem CachedReady.congr (hsame : Same q.reqId s s') (hq : CachedReady s q) : CachedReady s' q := fun hbl => by
  rw [hsame.unfinished, hsame.preempted, hsame.tracker]
  exact hq hbl

theorem cachedRequest_ok (hr : CachedReady s q) : ∃ res, cachedRequest cfg rs sch s q = .ok res := by
  unfold cachedRequest
  split
  · exact ⟨_, rfl⟩
  rename_i bs hb
  obtain ⟨hun, hta⟩ := hr (by rw [hb]; exact Option.some_ne_none _)
  split
  · exact ⟨_, if_neg (not_not.mpr hun)⟩
  rename_i hp
  obtain ⟨tr, htr⟩ := hta hp
  unfold runningRequest
  rw [htr]
  simp only
  rw [if_neg (not_not.mpr hun)]
  split <;> exact ⟨_, rfl⟩

theorem build_total (hs : s.Keyed) (hnod : out.scheduledIds.Nodup)
    (hnew : ∀ q ∈ out.scheduledNewReqs, q.reqId ∈ (s.clean out).unfinishedRequests.map Prod.fst)
    (hca : cfg.forceSkipSave = false → ∀ q ∈ out.scheduledCachedReqs, CachedReady (s.clean out) q) :
    ∃ s' md, s.buildConnectorMeta cfg rs out = .ok (s', md) := by
  obtain ⟨hnn, hnc, hdi⟩ := nodup_append.mp hnod
  obtain ⟨s1, new, hloop1⟩ := collect_total (R := fun s q => q.reqId ∈ s.unfinishedRequests.map Prod.fst)
    (@newRequest_local cfg rs out.numScheduledTokens) (fun _ _ _ hsame hq => by rw [hsame.unfinished]; exact hq)
    (fun s q hq => ⟨_, by rw [newRequest]; exact if_neg (not_not.mpr hq)⟩) hs.clean hnn hnew
  have hkey1 := (collect_keeps newRequest_local hloop1 hs.clean).1
  have hloop2 : ∃ s2 cached, collect (cachedRequest cfg rs out.numScheduledTokens) s1
      (if cfg.forceSkipSave then [] else out.scheduledCachedReqs) = .ok (s2, cached) := by
    cases hfo : cfg.forceSkipSave with
    | true => exact ⟨s1, [], rfl⟩
    | false =>
      refine collect_total (R := CachedReady) cachedRequest_local (fun _ _ _ hsame hq => hq.congr hsame)
        (fun _ _ hq => cachedRequest_ok hq) hkey1 hnc fun q hq => (hca hfo q hq).congr ?_
      exact (newRequest_local.apart hloop1 hs.clean fun hc => hdi _ hc _ (mem_map_of_mem hq) rfl).2.1
  obtain ⟨s2, cached, hloop2⟩ := hloop2
  obtain ⟨s', wa, hloop3⟩ := @collect_ok _ _ (fun _ _ => True)
    (fun _ _ _ _ => waitingRequest_ok.imp fun _ ht => ⟨ht, trivial⟩) s2.unfinishedRequests s2 trivial
  exact ⟨s', _, build_ok.mpr ⟨s1, new, s2, cached, wa, hloop1, hloop2, hloop3, rfl⟩⟩

end

end PoolScheduler

end VllmAscend.Store
