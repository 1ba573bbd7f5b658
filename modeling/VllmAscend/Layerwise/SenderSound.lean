import VllmAscend.Layerwise.Sender

/-!
# Which requests are told that they failed

A failure is charged to whatever request the loop variable holds: the last one
of the task, and on the last layer the last one that was signalled.
-/

namespace VllmAscend.Layerwise

open Python SendTask Sender List

variable {n : Nat} {task : SendTask} {h : Handled} {r : RequestId}

/-! ## Merged sessions -/

def mergedOf (reqs : List (RequestId × SendMeta)) (session : SessionId) : TransferMeta where
  transfers := (reqs.filter (·.2.sessionId = session)).flatMap (·.2.transfers)
  reqIds := (reqs.filter (·.2.sessionId = session)).map Prod.fst

structure Merged (reqs : List (RequestId × SendMeta)) (sessions : List (SessionId × TransferMeta)) : Prop where
  nodup : (sessions.map Prod.fst).Nodup
  served : ∀ session, session ∈ sessions.map Prod.fst ↔ ∃ req ∈ reqs, req.2.sessionId = session
  merged : ∀ session entry, dictGet session sessions = some entry → entry = mergedOf reqs session

theorem mergedOf_concat (reqs : List (RequestId × SendMeta)) (req : RequestId × SendMeta) (session : SessionId) :
    mergedOf (reqs ++ [req]) session = if req.2.sessionId = session then
      ⟨(mergedOf reqs session).transfers ++ req.2.transfers, (mergedOf reqs session).reqIds ++ [req.1]⟩
    else mergedOf reqs session := by
  by_cases hs : req.2.sessionId = session <;> simp [mergedOf, filter_append, hs]

theorem mergedOf_of_notServed (h : ∀ req ∈ reqs, req.2.sessionId ≠ session) : mergedOf reqs session = {} := by
  have hn : reqs.filter (·.2.sessionId = session) = [] := filter_eq_nil_iff.mpr fun req hr => by simpa using h req hr
  rw [mergedOf, hn]
  rfl

theorem Merged.addTransfers (h : Merged reqs ses) (req : RequestId × SendMeta) :
    Merged (reqs ++ [req]) (addTransfers ses req) := by
  have ho : (dictGet req.2.sessionId ses).getD {} = mergedOf reqs req.2.sessionId := by
    cases hg : dictGet req.2.sessionId ses with
    | some en => exact h.merged _ _ hg
    | none =>
      refine (mergedOf_of_notServed fun req' hr' heq => ?_).symm
      have hm := (h.served req.2.sessionId).mpr ⟨req', hr', heq⟩
      simpa [hg] using dictGet_isSome.mpr hm
  have ha : Layerwise.addTransfers ses req =
      dictSet req.2.sessionId (mergedOf (reqs ++ [req]) req.2.sessionId) ses := by
    rw [Layerwise.addTransfers, mergedOf_concat, if_pos rfl, ho]
  rw [ha]
  refine ⟨?_, fun session => ?_, fun session en hg => ?_⟩
  · rw [map_fst_dictSet]
    split
    · exact h.nodup
    · rename_i hn
      exact h.nodup.append (nodup_singleton _) (by simpa using hn)
  · rw [map_fst_dictSet]
    have hr : (∃ req' ∈ reqs ++ [req], req'.2.sessionId = session) ↔
        session ∈ ses.map Prod.fst ∨ req.2.sessionId = session := by
      rw [h.served]
      simp [or_and_right, exists_or]
    rw [hr]
    split
    · rename_i hm
      refine ⟨.inl, ?_⟩
      rintro (hm' | rfl)
      · exact hm'
      · exact hm
    · simp [eq_comm]
  · rw [dictGet_dictSet] at hg
    rw [mergedOf_concat]
    split at hg
    · rename_i heq
      subst heq
      cases hg
      rw [mergedOf_concat]
    · rename_i hne
      rw [if_neg hne]
      exact h.merged _ _ hg

theorem merged_sessionMeta (task : SendTask) : Merged task.sendRequest task.sessionMeta := by
  have ha : ∀ (rest done : List (RequestId × SendMeta)) (ses : List (SessionId × TransferMeta)),
      Merged done ses → Merged (done ++ rest) (rest.foldl addTransfers ses) := by
    intro rest
    induction rest with
    | nil => intro done ses h; simpa using h
    | cons req rest ih =>
      intro done ses h
      have hr := ih (done ++ [req]) _ (h.addTransfers req)
      rwa [append_assoc] at hr
  refine ha task.sendRequest [] [] ⟨nodup_nil, fun session => by simp, fun session en hg => by cases hg⟩

theorem sessionMeta_entry (he : en ∈ task.sessionMeta) :
    en.2 = mergedOf task.sendRequest en.1 ∧ ∃ req ∈ task.sendRequest, req.2.sessionId = en.1 := by
  have hm := merged_sessionMeta task
  exact ⟨hm.merged _ _ (dictGet_of_mem hm.nodup he), (hm.served _).mp (mem_map_of_mem he)⟩

theorem sessionMeta_moving (he : en ∈ task.sessionMeta) : en.2.transfers ≠ [] := by
  obtain ⟨heq, req, hr, hs⟩ := sessionMeta_entry he
  rw [heq, mergedOf]
  intro hn
  have hm : req ∈ task.sendRequest.filter (·.2.sessionId = en.1) := mem_filter.mpr ⟨hr, by simpa using hs⟩
  exact task.moving req hr (flatMap_eq_nil_iff.mp hn req hm)

/-! ## The signals of a task -/

def SendTask.signalled (task : SendTask) : List RequestId :=
  task.sessionMeta.flatMap (·.2.reqIds)

theorem mem_signalled : r ∈ task.signalled ↔ r ∈ task.sendRequest.map Prod.fst := by
  have hm := merged_sessionMeta task
  simp only [signalled, mem_flatMap, mem_map]
  constructor
  · rintro ⟨en, he, hr⟩
    rw [(sessionMeta_entry he).1, mergedOf] at hr
    obtain ⟨req, hreq, rfl⟩ := mem_map.mp hr
    exact ⟨req, mem_of_mem_filter hreq, rfl⟩
  · rintro ⟨req, hreq, rfl⟩
    obtain ⟨en, he, hs⟩ := mem_map.mp ((hm.served req.2.sessionId).mpr ⟨req, hreq, rfl⟩)
    refine ⟨en, he, ?_⟩
    rw [(sessionMeta_entry he).1, mergedOf]
    exact mem_map_of_mem (mem_filter.mpr ⟨hreq, by simpa using hs.symm⟩)

theorem eq_of_mem_sendRequest (hr : req ∈ task.sendRequest)
    (hr' : req' ∈ task.sendRequest) (heq : req.1 = req'.1) : req = req' := by
  have hg := dictGet_of_mem task.nodup hr
  rw [heq, dictGet_of_mem task.nodup hr'] at hg
  exact Prod.ext heq (Option.some.inj hg).symm

theorem nodup_signalled (task : SendTask) : task.signalled.Nodup := by
  have hm := merged_sessionMeta task
  refine nodup_flatMap.mpr ⟨fun en hen => ?_, ?_⟩
  · rw [(sessionMeta_entry hen).1]
    exact task.nodup.sublist (filter_sublist.map _)
  · refine (pairwise_map.mp hm.nodup).imp_of_mem fun {x y} hx hy hne => ?_
    intro r hrx hry
    simp only [(sessionMeta_entry hx).1, mergedOf] at hrx
    simp only [(sessionMeta_entry hy).1, mergedOf] at hry
    obtain ⟨req, hreq, rfl⟩ := mem_map.mp hrx
    obtain ⟨req', hreq', heq⟩ := mem_map.mp hry
    obtain ⟨hreq, hx'⟩ := mem_filter.mp hreq
    obtain ⟨hreq', hy'⟩ := mem_filter.mp hreq'
    rw [eq_of_mem_sendRequest hreq' hreq heq] at hy'
    simp only [decide_eq_true_eq] at hx' hy'
    exact hne (hx'.symm.trans hy')

def SendTask.ends (task : SendTask) (r : RequestId) : Bool :=
  (dictGet r task.sendRequest).any (·.chunkFinish)

def saidOf (r : RequestId) (signals : List (RequestId × Signal)) : List Signal :=
  (signals.filter (·.1 = r)).map Prod.snd

theorem saidOf_concat (r r' : RequestId) (signals : List (RequestId × Signal)) (signal : Signal) :
    saidOf r (signals ++ [(r', signal)]) = saidOf r signals ++ if r' = r then [signal] else [] := by
  by_cases hr : r' = r <;> simp [saidOf, filter_append, hr]

theorem signal_spec (task : SendTask) (s : Option RequestId × Sender) (r r' : RequestId) :
    (r ∈ (task.signal s r').2.failedReqs ↔ r ∈ s.2.failedReqs ∧ ¬ (r' = r ∧ task.ends r)) ∧
      saidOf r (task.signal s r').2.signals = saidOf r s.2.signals ++
        if r' = r ∧ task.ends r then [if r ∈ s.2.failedReqs then .failed else .done] else [] := by
  have hc : (task.signal s r').2 = if task.ends r' then
      if r' ∈ s.2.failedReqs then ⟨s.2.failedReqs.erase r', s.2.signals ++ [(r', .failed)]⟩
      else { s.2 with signals := s.2.signals ++ [(r', .done)] }
    else s.2 := rfl
  rw [hc]
  by_cases heq : r' = r
  · subst heq
    by_cases he : task.ends r'
    · by_cases hf : r' ∈ s.2.failedReqs <;> simp [he, hf, saidOf_concat]
    · simp [he]
  · have hne : r ≠ r' := fun h => heq h.symm
    by_cases he : task.ends r'
    · by_cases hf : r' ∈ s.2.failedReqs <;> simp [he, hf, heq, hne, saidOf_concat]
    · simp [he, heq]

theorem foldl_signal (task : SendTask) (r : RequestId) : ∀ {reqIds : List RequestId} {s : Option RequestId × Sender}, reqIds.Nodup →
    (r ∈ (reqIds.foldl task.signal s).2.failedReqs ↔ r ∈ s.2.failedReqs ∧ ¬ (r ∈ reqIds ∧ task.ends r)) ∧
      saidOf r (reqIds.foldl task.signal s).2.signals = saidOf r s.2.signals ++
        if r ∈ reqIds ∧ task.ends r then [if r ∈ s.2.failedReqs then .failed else .done] else []
  | [], s, _ => by simp
  | r' :: reqIds, s, hn => by
    obtain ⟨hr', hn⟩ := nodup_cons.mp hn
    have ih := foldl_signal task r (s := task.signal s r') hn
    obtain ⟨hf, hs⟩ := signal_spec task s r r'
    simp only [foldl_cons, ih.1, ih.2, hf, hs]
    by_cases heq : r' = r
    · subst heq
      by_cases he : task.ends r' <;> simp [hr', he]
    · have hne : r ≠ r' := fun h => heq h.symm
      simp [heq, hne]

theorem transferKvCache_of_ok (hok : ∀ req ∈ task.sendRequest, ¬ ret req.2.sessionId < 0) :
    (s.transferKvCache n task ret) = if task.layerIdx + 1 = n then
      (task.signalled.foldl task.signal (task.sendRequest.getLast?.map Prod.fst, s)).2 else s := by
  have hf : ∀ (ses : List (SessionId × TransferMeta)) (s : Option RequestId × Sender),
      (∀ en ∈ ses, en ∈ task.sessionMeta) →
      ses.foldl (task.sendSession n ret) s = if task.layerIdx + 1 = n then
        (ses.flatMap (·.2.reqIds)).foldl task.signal s else s := by
    intro ses
    induction ses with
    | nil => intro s _; simp
    | cons en ses ih =>
      intro s hm
      obtain ⟨-, req, hr, hs⟩ := sessionMeta_entry (hm en mem_cons_self)
      have hre : ¬ ret en.1 < 0 := hs ▸ hok req hr
      have hstep : task.sendSession n ret s en = if task.layerIdx + 1 = n then
          en.2.reqIds.foldl task.signal s else s := by
        rw [sendSession, if_neg (sessionMeta_moving (hm en mem_cons_self))]
        simp only [if_neg hre]
      rw [foldl_cons, hstep, ih _ fun e he => hm e (mem_cons_of_mem _ he)]
      split
      · rw [flatMap_cons, foldl_append]
      · rfl
  rw [transferKvCache, hf _ _ fun _ h => h, signalled]
  split <;> rfl

/-! ## Failures that are charged to the right request -/

/-- A session that fails serves the last request of the task alone; on the last layer the task has no other request. -/
def Handled.Attributable (totalLayers : Nat) (h : Handled) : Prop :=
  ∀ req ∈ h.task.sendRequest, h.ret req.2.sessionId < 0 →
    h.task.sendRequest.getLast? = some req ∧ (h.task.layerIdx + 1 = totalLayers → h.task.sendRequest = [req])

theorem charge_charge (s : Option RequestId × Sender) : charge (charge s) = charge s := by
  obtain ⟨_ | r, s⟩ := s <;> simp [charge]

theorem foldl_sendSession (hl : task.layerIdx + 1 ≠ n) :
    ∀ {ses : List (SessionId × TransferMeta)} {s : Option RequestId × Sender},
    (∀ en ∈ ses, en.2.transfers ≠ []) → ses.foldl (task.sendSession n ret) s =
      if ses.any (ret ·.1 < 0) then charge s else s
  | [], s, _ => rfl
  | en :: ses, s, hm => by
    have hs : task.sendSession n ret s en = if ret en.1 < 0 then charge s else s := by
      rw [sendSession, if_neg (hm en mem_cons_self)]
      simp only [if_neg hl]
    rw [foldl_cons, hs, foldl_sendSession hl fun e he => hm e (mem_cons_of_mem _ he)]
    rw [any_cons]
    by_cases hr : ret en.1 < 0
    · simp [hr, charge_charge]
    · simp only [decide_eq_false hr, Bool.false_or, if_neg hr]

theorem ownFailed_iff : h.ownFailed r ↔ ∃ req ∈ h.task.sendRequest, req.1 = r ∧ h.ret req.2.sessionId < 0 := by
  simp [Handled.ownFailed]

theorem finishes_iff : h.finishes n r ↔ h.task.layerIdx + 1 = n ∧ h.task.ends r := by
  rw [Handled.finishes, Bool.and_eq_true, decide_eq_true_eq]
  rfl

theorem mem_of_ends (he : task.ends r) : r ∈ task.signalled := by
  rw [mem_signalled]
  refine dictGet_isSome.mp ?_
  cases hg : dictGet r task.sendRequest with
  | some req => rfl
  | none => rw [ends, hg] at he; cases he

theorem transferKvCache_spec (hat : h.Attributable n) (s : Sender) (r : RequestId) :
    (r ∈ (s.transferKvCache n h.task h.ret).failedReqs ↔
        (r ∈ s.failedReqs ∨ h.ownFailed r) ∧ ¬ h.finishes n r) ∧
      saidOf r (s.transferKvCache n h.task h.ret).signals = saidOf r s.signals ++
        if h.finishes n r then [if r ∈ s.failedReqs ∨ h.ownFailed r then .failed else .done] else [] := by
  by_cases hok : ∀ req ∈ h.task.sendRequest, ¬ h.ret req.2.sessionId < 0
  · have hon : ¬ h.ownFailed r := fun hon => by
      obtain ⟨req, hreq, -, hre⟩ := ownFailed_iff.mp hon
      exact hok req hreq hre
    rw [transferKvCache_of_ok hok]
    simp only [finishes_iff, hon]
    by_cases hla : h.task.layerIdx + 1 = n
    · obtain ⟨hfa, hsa⟩ := foldl_signal h.task r (s := (h.task.sendRequest.getLast?.map Prod.fst, s))
        (nodup_signalled h.task)
      simp only [if_pos hla, hfa, hsa]
      have hmem : (r ∈ h.task.signalled ∧ h.task.ends r) ↔ h.task.ends r :=
        ⟨And.right, fun hen => ⟨mem_of_ends hen, hen⟩⟩
      simp [hmem, hla]
    · simp [hla]
  · push Not at hok
    obtain ⟨req, hreq, hre⟩ := hok
    obtain ⟨hlast, hol⟩ := hat req hreq hre
    have hon : h.ownFailed r ↔ r = req.1 := by
      rw [ownFailed_iff]
      constructor
      · rintro ⟨req', hreq', rfl, hre'⟩
        have hlast' := (hat req' hreq' hre').1
        rw [hlast] at hlast'
        rw [Option.some.inj hlast']
      · rintro rfl
        exact ⟨req, hreq, rfl, hre⟩
    have hch : ∀ r', r' ∈ (charge (some req.1, s)).2.failedReqs ↔ r' = req.1 ∨ r' ∈ s.failedReqs := fun r' =>
      Finset.mem_insert
    by_cases hla : h.task.layerIdx + 1 = n
    · have hsi := hol hla
      have hme : h.task.sessionMeta = [(req.2.sessionId, ⟨req.2.transfers, [req.1]⟩)] := by
        rw [sessionMeta, hsi]
        rfl
      have hsend : s.transferKvCache n h.task h.ret = (h.task.signal (charge (some req.1, s)) req.1).2 := by
        rw [transferKvCache, hme, hlast, foldl_cons, foldl_nil, sendSession, if_neg (h.task.moving req hreq)]
        simp only [if_pos hre, if_pos hla, foldl_cons, foldl_nil]
        rfl
      obtain ⟨hfa, hsa⟩ := signal_spec h.task (charge (some req.1, s)) r req.1
      have hen : h.task.ends r → req.1 = r := fun hen => by
        have hmem := mem_signalled.mp (mem_of_ends hen)
        rw [hsi] at hmem
        exact (mem_singleton.mp hmem).symm
      have hbo : (req.1 = r ∧ h.task.ends r) ↔ h.task.ends r := ⟨And.right, fun hen' => ⟨hen hen', hen'⟩⟩
      simp only [hsend, hfa, hsa, hch, finishes_iff, hon, hla, true_and, hbo, or_comm]
      rfl
    · have hany : h.task.sessionMeta.any (fun en => decide (h.ret en.1 < 0)) = true := by
        obtain ⟨en, het, hse⟩ := mem_map.mp
          (((merged_sessionMeta h.task).served req.2.sessionId).mpr ⟨req, hreq, rfl⟩)
        refine any_eq_true.mpr ⟨en, het, ?_⟩
        rw [hse]
        exact decide_eq_true hre
      have hsend : s.transferKvCache n h.task h.ret = (charge (some req.1, s)).2 := by
        rw [transferKvCache, foldl_sendSession hla fun en het => sessionMeta_moving het, if_pos hany, hlast]
        rfl
      rw [hsend, hch]
      simp only [finishes_iff, hla, hon, false_and, not_false_iff, and_true, if_false, append_nil, or_comm]
      exact ⟨trivial, rfl⟩

theorem run_failedReqs : ∀ {hi : List Handled}, (∀ h ∈ hi, h.Attributable n) →
    (∀ h ∈ hi, ¬ h.finishes n r) →
    (r ∈ (run n hi).failedReqs ↔ hi.any (·.ownFailed r)) := by
  intro hi
  induction hi using List.reverseRecOn with
  | nil => intro _ _; simp [run]
  | append_singleton hi h ih =>
    intro ha ho
    have hr := ih (fun h' hh' => ha h' (mem_append_left _ hh')) fun h' hh' => ho h' (mem_append_left _ hh')
    have hs := (transferKvCache_spec (ha h (by simp)) (run n hi) r).1
    have ho' := ho h (by simp)
    rw [run, foldl_append, foldl_cons, foldl_nil]
    refine hs.trans ?_
    rw [hr]
    simp [ho']

/-- If failures are charged to the right request, a request is told `FAILED` exactly if one of its own transfers failed.
-/
theorem failure_attribution (totalLayers : Nat) (before : List Handled) (h : Handled) (r : RequestId)
    (hattr : ∀ h' ∈ before ++ [h], h'.Attributable totalLayers) (hopen : ∀ h' ∈ before, ¬ h'.finishes totalLayers r)
    (hfinish : h.finishes totalLayers r) :
    saidOf r (Sender.run totalLayers (before ++ [h])).signals = saidOf r (Sender.run totalLayers before).signals ++
      [if (before ++ [h]).any (·.ownFailed r) then .failed else .done] := by
  have hf := run_failedReqs (fun h' hh' => hattr h' (mem_append_left _ hh')) hopen
  have hs := (transferKvCache_spec (hattr h (by simp)) (Sender.run totalLayers before) r).2
  rw [if_pos hfinish] at hs
  have hr : Sender.run totalLayers (before ++ [h]) =
      (Sender.run totalLayers before).transferKvCache totalLayers h.task h.ret := by
    rw [Sender.run, foldl_append]
    rfl
  rw [hr, hs]
  simp only [hf, any_append, any_cons, any_nil, Bool.or_false, Bool.or_eq_true]

/-! ## Two layers -/

def oneBlock (port : Nat) (chunkFinish : Bool) : SendMeta := ⟨"decode", port, [⟨0, 0, 128⟩], chunkFinish⟩

def twoSessions (layerIdx : Nat) : SendTask where
  sendRequest := [(0, oneBlock 1 true), (1, oneBlock 2 true)]
  layerIdx := layerIdx
  nodup := by decide
  moving := by decide

theorem failure_attribution_last :
    saidOf 1 (Sender.run 2 [⟨twoSessions 0, fun session => if session.2 = 2 then -1 else 0⟩,
      ⟨twoSessions 1, fun _ => 0⟩]).signals = [.failed] := by
  have ha : ∀ h ∈ [Handled.mk (twoSessions 0) fun session => if session.2 = 2 then -1 else 0] ++
      [Handled.mk (twoSessions 1) fun _ => 0], h.Attributable 2 := by
    simp only [Handled.Attributable, twoSessions, oneBlock, SendMeta.sessionId, cons_append, nil_append,
      forall_mem_cons]
    simp
  have hs := failure_attribution 2 [⟨twoSessions 0, fun session => if session.2 = 2 then -1 else 0⟩]
    ⟨twoSessions 1, fun _ => 0⟩ 1 ha (by decide) (by decide)
  exact hs.trans (by decide)

/-- The session of request 0 fails on the first layer: request 1 is told that it failed, and request 0 that it is done. -/
theorem failure_misattributed :
    (Sender.run 2 [⟨twoSessions 0, fun session => if session.2 = 1 then -1 else 0⟩, ⟨twoSessions 1, fun _ => 0⟩]).signals =
      [(0, .done), (1, .failed)] := by
  decide

end VllmAscend.Layerwise
