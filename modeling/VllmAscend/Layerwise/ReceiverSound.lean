import VllmAscend.Layerwise.Receiver

/-!
# What the decode side reports of a request

A request that is waited for is reported as received once, when all of its
senders have said `DONE`, and never when one has said `FAILED`, whatever is sent
again and however the messages mix with `get_finished`. Only a `get_finished`
that finds the request done before it is loaded loses it.
-/

namespace VllmAscend.Layerwise

open Python Decoder List

variable {r : RequestId} {senders seen : Finset SideChannelPath} {msgs : List Message} {p : SideChannelPath}

namespace RecvThread

variable {m : Message} {t : RecvThread}

def Message.request : Message → RequestId
  | .done r _ _ => r
  | .failed r _ => r

def Message.donePath (r : RequestId) : Message → Option SideChannelPath
  | .done r' _ path => if r' = r then some path else none
  | .failed _ _ => none

def donePaths (r : RequestId) (msgs : List Message) : Finset SideChannelPath :=
  (msgs.filterMap (Message.donePath r)).toFinset

variable {n : Nat} {t' : RecvThread}

theorem mem_donePaths : p ∈ donePaths r msgs ↔ ∃ n, Message.done r n p ∈ msgs := by
  rw [donePaths, mem_toFinset, mem_filterMap]
  constructor
  · rintro ⟨m, hm, hp⟩
    cases m with
    | failed r' p' => cases hp
    | done r' n p' =>
      rw [Message.donePath] at hp
      split at hp
      · next heq =>
        cases hp
        exact ⟨n, heq ▸ hm⟩
      · cases hp
  · rintro ⟨n, hm⟩
    exact ⟨_, hm, by simp [Message.donePath]⟩

theorem donePaths_append {msgs' : List Message} :
    donePaths r (msgs ++ msgs') = donePaths r msgs ∪ donePaths r msgs' := by
  simp [donePaths, filterMap_append, toFinset_append]

theorem donePaths_of_ne (h : m.request ≠ r) : donePaths r [m] = ∅ := by
  cases m with
  | failed r' p => rfl
  | done r' n p =>
    have hne : r' ≠ r := h
    simp [donePaths, Message.donePath, hne]

theorem donePaths_done : donePaths r [.done r n p] = {p} := by
  simp [donePaths, Message.donePath]

def paths (t : RecvThread) (r : RequestId) : Finset SideChannelPath :=
  (dictGet r t.taskTracker).getD ∅

/-! ## One message -/

theorem handle_failed : dictGet r (t.handle (.failed r p)).taskTracker = none := by
  exact (dictGet_dictPop).trans (if_pos rfl)

theorem handle_done_of_eq (h : (insert p (t.paths r)).card = n) :
    dictGet r (t.handle (.done r n p)).taskTracker = none ∧ r ∈ (t.handle (.done r n p)).doneRequests := by
  rw [handle, updateDoneTask]
  simp only [paths] at h
  rw [if_pos h]
  exact ⟨(dictGet_dictPop).trans (if_pos rfl), mem_insert_self⟩

theorem handle_done_of_ne (h : (insert p (t.paths r)).card ≠ n) :
    (t.handle (.done r n p)).paths r = insert p (t.paths r) ∧
      (t.handle (.done r n p)).doneRequests = t.doneRequests := by
  rw [handle, updateDoneTask]
  simp only [paths] at h
  rw [if_neg h]
  refine ⟨?_, rfl⟩
  simp only [paths]
  rw [dictGet_dictSet, if_pos rfl]
  rfl

theorem handle_of_ne (h : m.request ≠ r) : dictGet r (t.handle m).taskTracker = dictGet r t.taskTracker ∧
    (r ∈ (t.handle m).doneRequests ↔ r ∈ t.doneRequests) := by
  cases m with
  | failed r' p =>
    have hne : r' ≠ r := h
    refine ⟨?_, Iff.rfl⟩
    refine (dictGet_dictPop).trans ?_
    rw [if_neg hne]
    split
    · rfl
    · rw [dictGet_dictSet, if_neg hne]
  | done r' n p =>
    have hne : r' ≠ r := h
    rw [handle, updateDoneTask]
    split
    · refine ⟨(dictGet_dictPop).trans (if_neg hne), ?_⟩
      simp [mem_insert_iff, hne.symm]
    · exact ⟨(dictGet_dictSet).trans (if_neg hne), Iff.rfl⟩

theorem notMem_failedRequests_handle (h : ∀ p, m ≠ .failed r p) (hr : r ∉ t.failedRequests) :
    r ∉ (t.handle m).failedRequests := by
  cases m with
  | failed r' p =>
    have hne : r ≠ r' := fun heq => h p (heq ▸ rfl)
    rw [handle, updateFailedTask]
    simp [mem_insert_iff, hne, hr]
  | done r' n p =>
    rw [handle, updateDoneTask]
    split <;> exact hr

theorem mem_doneRequests_handle (h : r ∈ t.doneRequests) : r ∈ (t.handle m).doneRequests := by
  cases m with
  | failed r' p => exact h
  | done r' n p =>
    rw [handle, updateDoneTask]
    split
    · exact mem_insert_of_mem h
    · exact h

theorem mem_doneRequests_foldl (h : r ∈ t.doneRequests) : r ∈ (msgs.foldl handle t).doneRequests :=
  foldlRecOn (motive := fun t => r ∈ t.doneRequests) msgs handle h fun _ ht _ _ => mem_doneRequests_handle ht

theorem notMem_failedRequests_foldl (h : ∀ p, Message.failed r p ∉ msgs) (hr : r ∉ t.failedRequests) :
    r ∉ (msgs.foldl handle t).failedRequests :=
  foldlRecOn (motive := fun t => r ∉ t.failedRequests) msgs handle hr fun _ ht _ hm =>
    notMem_failedRequests_handle (fun p hp => h p (hp ▸ hm)) ht

theorem foldl_of_ne (h : ∀ m ∈ msgs, m.request ≠ r) :
    dictGet r (msgs.foldl handle t).taskTracker = dictGet r t.taskTracker ∧
      (r ∈ (msgs.foldl handle t).doneRequests ↔ r ∈ t.doneRequests) :=
  foldlRecOn (motive := fun t' => dictGet r t'.taskTracker = dictGet r t.taskTracker ∧
    (r ∈ t'.doneRequests ↔ r ∈ t.doneRequests)) msgs handle ⟨rfl, Iff.rfl⟩ fun _ ht m hm =>
      ⟨(handle_of_ne (h m hm)).1.trans ht.1, (handle_of_ne (h m hm)).2.trans ht.2⟩

/-! ## The entry of a request that is being collected -/

def DoneFrom (r : RequestId) (senders : Finset SideChannelPath) (msgs : List Message) : Prop :=
  ∀ n p, Message.done r n p ∈ msgs → n = senders.card ∧ p ∈ senders

theorem handle_collect (hm : DoneFrom r senders [m]) (hf : ∀ p, m ≠ .failed r p) (hse : t.paths r = seen)
    (hlt : seen ⊂ senders) :
    (seen ∪ donePaths r [m] ⊂ senders ∧ (t.handle m).paths r = seen ∪ donePaths r [m] ∧
      (r ∈ (t.handle m).doneRequests ↔ r ∈ t.doneRequests)) ∨
    seen ∪ donePaths r [m] = senders ∧ dictGet r (t.handle m).taskTracker = none ∧ r ∈ (t.handle m).doneRequests := by
  by_cases hne : m.request = r
  · cases m with
    | failed r' p => exact absurd (hne ▸ rfl) (hf p)
    | done r' n p =>
      cases (show r' = r from hne)
      obtain ⟨hn, hp⟩ := hm n p mem_cons_self
      have hsub : insert p seen ⊆ senders := Finset.insert_subset hp hlt.subset
      rw [donePaths_done, Finset.union_comm, ← Finset.insert_eq]
      by_cases hcard : (insert p seen).card = n
      · exact .inr ⟨Finset.eq_of_subset_of_card_le hsub (by rw [hcard, hn]),
          handle_done_of_eq (by rw [hse]; exact hcard)⟩
      · obtain ⟨hpa, hdone⟩ := handle_done_of_ne (by rw [hse]; exact hcard)
        refine .inl ⟨hsub.ssubset_of_ne fun heq => hcard (by rw [heq, hn]), by rw [hpa, hse], by rw [hdone]⟩
  · obtain ⟨hget, hdone⟩ := handle_of_ne hne
    rw [donePaths_of_ne hne, Finset.union_empty]
    exact .inl ⟨hlt, by rw [paths, hget]; exact hse, hdone⟩

theorem DoneFrom.mono (h : DoneFrom r senders msgs) (hs : msgs' ⊆ msgs) :
    DoneFrom r senders msgs' := fun n p hp => h n p (hs hp)

theorem foldl_collect (hm : DoneFrom r senders msgs) (hf : ∀ p, Message.failed r p ∉ msgs) (hse : t.paths r = seen)
    (hlt : seen ⊂ senders) :
    (seen ∪ donePaths r msgs ⊂ senders ∧ (msgs.foldl handle t).paths r = seen ∪ donePaths r msgs ∧
      (r ∈ (msgs.foldl handle t).doneRequests ↔ r ∈ t.doneRequests)) ∨
    senders ⊆ seen ∪ donePaths r msgs ∧ r ∈ (msgs.foldl handle t).doneRequests := by
  induction msgs generalizing t seen with
  | nil => simpa [donePaths, hse] using .inl hlt
  | cons m msgs ih =>
    have hap : donePaths r (m :: msgs) = donePaths r [m] ∪ donePaths r msgs := @donePaths_append r [m] msgs
    rw [hap, ← Finset.union_assoc, foldl_cons]
    rcases handle_collect (hm.mono (cons_subset_cons m (nil_subset _))) (fun p hp => hf p (hp ▸ mem_cons_self)) hse hlt
      with ⟨hlt', hpa, hif⟩ | ⟨hall, _, hdone⟩
    · have ih := ih (hm.mono (subset_cons_self m msgs)) (fun p hp => hf p (mem_cons_of_mem _ hp)) hpa hlt'
      rwa [hif] at ih
    · exact .inr ⟨hall ▸ Finset.subset_union_left, mem_doneRequests_foldl hdone⟩

def Collecting (r : RequestId) (senders seen : Finset SideChannelPath) (t : RecvThread) : Prop :=
  r ∈ t.doneRequests ∧ senders ⊆ seen ∨ r ∉ t.doneRequests ∧ t.paths r = seen ∧ seen ⊂ senders

theorem Collecting.foldl (hm : DoneFrom r senders msgs) (hf : ∀ p, Message.failed r p ∉ msgs)
    (h : Collecting r senders seen t) : Collecting r senders (seen ∪ donePaths r msgs) (msgs.foldl handle t) := by
  rcases h with ⟨hdone, hsub⟩ | ⟨hdone, hse, hlt⟩
  · exact .inl ⟨mem_doneRequests_foldl hdone, hsub.trans Finset.subset_union_left⟩
  rcases foldl_collect hm hf hse hlt with ⟨hlt', hpa, hif⟩ | ⟨hall, hdone'⟩
  · exact .inr ⟨mt hif.mp hdone, hpa, hlt'⟩
  · exact .inl ⟨hdone', hall⟩

def Blocked (r : RequestId) (senders : Finset SideChannelPath) (p : SideChannelPath) (t : RecvThread) : Prop :=
  r ∉ t.doneRequests ∧ t.paths r ⊆ senders.erase p

theorem Blocked.handle (hp : p ∈ senders) (hm : DoneFrom r senders [m])
    (hne : ∀ n, m ≠ .done r n p) (h : Blocked r senders p t) : Blocked r senders p (t.handle m) := by
  obtain ⟨hdone, hsub⟩ := h
  by_cases hr : m.request = r
  · cases m with
    | failed r' p' =>
      cases (show r' = r from hr)
      refine ⟨hdone, ?_⟩
      rw [paths, handle_failed]
      exact Finset.empty_subset _
    | done r' n p' =>
      cases (show r' = r from hr)
      obtain ⟨hn, hp'⟩ := hm n p' mem_cons_self
      have hpp : p' ≠ p := fun heq => hne n (heq ▸ rfl)
      have hsub' : insert p' (t.paths r) ⊆ senders.erase p :=
        Finset.insert_subset (Finset.mem_erase.mpr ⟨hpp, hp'⟩) hsub
      have hcard : (insert p' (t.paths r)).card ≠ n := by
        have hle := Finset.card_le_card hsub'
        have hlt := Finset.card_erase_lt_of_mem hp
        omega
      obtain ⟨hpa, heq⟩ := handle_done_of_ne hcard
      exact ⟨heq ▸ hdone, hpa ▸ hsub'⟩
  · obtain ⟨hget, hif⟩ := handle_of_ne hr
    exact ⟨fun hmem => hdone (hif.mp hmem), by rw [paths, hget]; exact hsub⟩

theorem Blocked.foldl (hp : p ∈ senders) (hm : DoneFrom r senders msgs)
    (hne : ∀ n, Message.done r n p ∉ msgs) (h : Blocked r senders p t) :
    Blocked r senders p (msgs.foldl RecvThread.handle t) :=
  foldlRecOn (motive := Blocked r senders p) msgs RecvThread.handle h fun _ ht _ hmem =>
    ht.handle hp (hm.mono (cons_subset.mpr ⟨hmem, nil_subset _⟩)) fun n hn => hne n (hn ▸ hmem)

/-! ## When an entry is left behind -/

/-- The request's last message is a `FAILED`, or there is none and it is a `DONE` of a rank that has not said so
before. -/
def LastClears (r : RequestId) (msgs : List Message) : Prop :=
  ∃ before m after, msgs = before ++ m :: after ∧ (∀ m' ∈ after, m'.request ≠ r) ∧
    ((∃ p, m = .failed r p) ∨
      ∃ n p, m = .done r n p ∧ (∀ p', Message.failed r p' ∉ before) ∧ ∀ n', Message.done r n' p ∉ before)

theorem dictGet_foldl_of_one (hm : DoneFrom r senders msgs) (ho : senders.card = 1)
    (hg : dictGet r t.taskTracker = none) : dictGet r (msgs.foldl handle t).taskTracker = none := by
  refine foldlRecOn (motive := fun t => dictGet r t.taskTracker = none) msgs handle hg fun t hg m hmem => ?_
  by_cases hr : m.request = r
  · cases m with
    | failed r' p =>
      cases (show r' = r from hr)
      exact handle_failed
    | done r' n p =>
      cases (show r' = r from hr)
      obtain ⟨hn, -⟩ := hm n p hmem
      refine (handle_done_of_eq ?_).1
      rw [paths, hg, hn, ho]
      rfl
  · rw [(handle_of_ne hr).1, hg]

theorem dictGet_foldl_of_lastClears (hm : DoneFrom r senders msgs)
    (hall : ∀ p ∈ senders, (∃ n, Message.done r n p ∈ msgs) ∨ Message.failed r p ∈ msgs)
    (hlast : LastClears r msgs) (hget : dictGet r t.taskTracker = none) :
    dictGet r (msgs.foldl handle t).taskTracker = none := by
  obtain ⟨before, m, after, rfl, haf, hm'⟩ := hlast
  rw [foldl_append, foldl_cons, (foldl_of_ne haf).1]
  rcases hm' with ⟨p, rfl⟩ | ⟨n, p, rfl, hfa, hfi⟩
  · exact handle_failed
  -- All senders but the last are in the entry when its message comes.
  obtain ⟨hn, hp⟩ := hm n p (by simp)
  have hbe : DoneFrom r senders before := fun n' p' h => hm n' p' (mem_append_left _ h)
  have hse : donePaths r before = senders.erase p := by
    ext p'
    rw [mem_donePaths, Finset.mem_erase]
    constructor
    · rintro ⟨n', hn'⟩
      exact ⟨fun heq => hfi n' (heq ▸ hn'), (hbe n' p' hn').2⟩
    · rintro ⟨hne, hp'⟩
      rcases hall p' hp' with ⟨n', hn'⟩ | hf
      · rcases mem_append.mp hn' with hn' | hn'
        · exact ⟨n', hn'⟩
        rcases mem_cons.mp hn' with heq | hn'
        · exact absurd (Message.done.inj heq).2.2 hne
        · exact absurd rfl (haf _ hn')
      · rcases mem_append.mp hf with hf | hf
        · exact absurd hf (hfa p')
        rcases mem_cons.mp hf with heq | hf
        · cases heq
        · exact absurd rfl (haf _ hf)
  have hco := @foldl_collect _ _ ∅ _ t hbe hfa (by rw [paths, hget]; rfl) (Finset.empty_ssubset.mpr ⟨p, hp⟩)
  rw [Finset.empty_union, hse] at hco
  obtain ⟨-, hpa, -⟩ := hco.resolve_right fun h => (Finset.erase_ssubset hp).2 h.1
  refine (handle_done_of_eq ?_).1
  rw [hpa, Finset.insert_erase hp, hn]

theorem taskTracker_handle_congr (h : t.taskTracker = t'.taskTracker) :
    (t.handle m).taskTracker = (t'.handle m).taskTracker := by
  cases m with
  | failed r p => simp only [handle, updateFailedTask, h]
  | done r n p =>
    simp only [handle, updateDoneTask, h]
    split <;> rfl

theorem taskTracker_foldl_congr (h : t.taskTracker = t'.taskTracker) :
    (msgs.foldl handle t).taskTracker = (msgs.foldl handle t').taskTracker := by
  induction msgs generalizing t t' with
  | nil => exact h
  | cons m msgs ih => exact ih (taskTracker_handle_congr h)

end RecvThread

/-! ## The worker -/

namespace Decoder

open RecvThread (Message DoneFrom Collecting Blocked LastClears donePaths paths)

variable {req : ReqId} {w : Decoder} {e : Event} {es : List Event}

def messages (events : List Event) : List Message := events.flatMap Event.messages

/-- A load of the external id of `req` is a load of `req` from remote. -/
def Event.Proper (req : ReqId) : Event → Prop
  | .startLoad req' _ doVirtual => req'.external = req.external → req' = req ∧ doVirtual = false
  | _ => True

def Event.LoadsOther (r : RequestId) : Event → Prop
  | .startLoad req _ _ => req.external ≠ r
  | _ => True

theorem Event.LoadsOther.proper (h : e.LoadsOther req.external) : e.Proper req := by
  cases e with
  | startLoad req' blocks doVirtual => exact fun heq => absurd heq h
  | message m => trivial
  | getFinished late => trivial

structure Keyed (req : ReqId) (w : Decoder) : Prop where
  keyed : ∀ {r v}, dictGet r w.requestMap = some v → v.external = r
  real : ∀ v ∈ w.virtualRequest, v.external ≠ req.external

theorem mem_doneRecving (h : Keyed req w) : req ∈ w.doneRecving ↔
    req.external ∈ w.thread.doneRequests ∧ dictGet req.external w.requestMap = some req := by
  rw [doneRecving, mem_dedup, mem_append, mem_filterMap]
  constructor
  · rintro (⟨r, hr, hg⟩ | hv)
    · cases h.keyed hg
      exact ⟨hr, hg⟩
    · exact absurd rfl (h.real req hv)
  · rintro ⟨hr, hg⟩
    exact .inl ⟨_, hr, hg⟩

theorem count_received : (w.getFinished late).received.count req =
    w.received.count req + if req ∈ w.doneRecving then 1 else 0 := by
  have hc : w.doneRecving.count req = if req ∈ w.doneRecving then 1 else 0 := (nodup_dedup _).count
  rw [getFinished, count_append, hc]

theorem external_doneRecving (h : Keyed req w) (hm : req.external ∈ w.doneRecving.map ReqId.external) :
    req.external ∈ w.thread.doneRequests := by
  obtain ⟨v, hv, heq⟩ := mem_map.mp hm
  rw [doneRecving, mem_dedup, mem_append, mem_filterMap] at hv
  rcases hv with ⟨r, hr, hg⟩ | hv
  · exact (h.keyed hg).symm.trans heq ▸ hr
  · exact absurd heq (h.real v hv)

theorem external_notMem_failedRecving {failedRequests : List RequestId} (h : Keyed req w)
    (hr : req.external ∉ failedRequests) : req.external ∉ (w.failedRecving failedRequests).map ReqId.external := by
  intro hm
  obtain ⟨v, hv, heq⟩ := mem_map.mp hm
  obtain ⟨r, hr', hg⟩ := mem_filterMap.mp hv
  exact hr ((h.keyed hg).symm.trans heq ▸ hr')

theorem Keyed.step (he : e.Proper req) (h : Keyed req w) : Keyed req (w.step e) := by
  cases e with
  | message m => exact ⟨h.keyed, h.real⟩
  | startLoad req' bs doVirtual =>
    cases doVirtual with
    | true =>
      refine ⟨h.keyed, fun v hv heq => ?_⟩
      rcases mem_insert_iff.mp hv with rfl | hv
      · cases (he heq).2
      · exact h.real v hv heq
    | false =>
      refine ⟨fun {r v} hg => ?_, h.real⟩
      have hg' : dictGet r (dictSet req'.external req' w.requestMap) = some v := hg
      rw [dictGet_dictSet] at hg'
      split at hg'
      · next heq =>
        cases hg'
        exact heq
      · exact h.keyed hg'
  | getFinished late =>
    refine ⟨fun {r v} hg => ?_, fun v hv => by cases hv⟩
    rw [step, getFinished, dictGet_foldl_dictPop] at hg
    split at hg
    · cases hg
    · exact h.keyed hg

theorem dictGet_startLoad (hne : req'.external ≠ req.external) :
    dictGet req.external (w.step (.startLoad req' bs doVirtual)).requestMap = dictGet req.external w.requestMap := by
  cases doVirtual with
  | true => rfl
  | false => exact dictGet_dictSet.trans (if_neg hne)

theorem messages_cons : messages (e :: es) = e.messages ++ messages es := flatMap_cons

theorem messages_append : messages (es ++ es') = messages es ++ messages es' := flatMap_append

theorem messages_subset (he : e ∈ es) : e.messages ⊆ messages es := fun _ hm => mem_flatMap.mpr ⟨e, he, hm⟩

/-! ## At most once -/

structure Unloaded (req : ReqId) (w : Decoder) : Prop extends Keyed req w where
  unmapped : dictGet req.external w.requestMap = none
  notReceived : req ∉ w.received

theorem notMem_doneRecving (hk : Keyed req w) (hg : dictGet req.external w.requestMap = none) :
    req ∉ w.doneRecving := by
  intro hm
  rw [((mem_doneRecving hk).mp hm).2] at hg
  cases hg

theorem unmapped_step (he : e.LoadsOther req.external) (hg : dictGet req.external w.requestMap = none) :
    dictGet req.external (w.step e).requestMap = none := by
  cases e with
  | message m => exact hg
  | startLoad req' bs doVirtual => exact (dictGet_startLoad he).trans hg
  | getFinished late => rw [step, getFinished, dictGet_foldl_dictPop, hg, ite_self]

theorem count_received_step (hd : req ∉ w.doneRecving) : (w.step e).received.count req = w.received.count req := by
  cases e with
  | message m => rfl
  | startLoad req' bs doVirtual => cases doVirtual <;> rfl
  | getFinished late => rw [step, count_received, if_neg hd, Nat.add_zero]

theorem notMem_received_step (hd : req ∉ w.doneRecving) (hr : req ∉ w.received) : req ∉ (w.step e).received := by
  rw [← count_eq_zero, count_received_step hd, count_eq_zero]
  exact hr

theorem Unloaded.step (he : e.LoadsOther req.external) (h : Unloaded req w) : Unloaded req (w.step e) :=
  { h.toKeyed.step he.proper with
    unmapped := unmapped_step he h.unmapped
    notReceived := notMem_received_step (notMem_doneRecving h.toKeyed h.unmapped) h.notReceived }

def Reported (req : ReqId) (w : Decoder) : Prop :=
  dictGet req.external w.requestMap = none ∧ w.received.count req = 1

theorem Reported.step (he : e.LoadsOther req.external) (hk : Keyed req w) (h : Reported req w) :
    Reported req (w.step e) :=
  ⟨unmapped_step he h.1, (count_received_step (notMem_doneRecving hk h.1)).trans h.2⟩

structure Once (req : ReqId) (w : Decoder) : Prop extends Keyed req w where
  once : req ∉ w.received ∨ Reported req w

theorem Once.step (he : e.LoadsOther req.external) (h : Once req w) : Once req (w.step e) := by
  refine { h.toKeyed.step he.proper with once := ?_ }
  rcases h.once with hr | hr
  · cases e with
    | message m => exact .inl hr
    | startLoad req' bs doVirtual => exact .inl (by cases doVirtual <;> exact hr)
    | getFinished late =>
      rw [← count_eq_zero, Reported, Decoder.step, count_received, count_eq_zero.mpr hr]
      by_cases hd : req ∈ w.doneRecving
      · -- It is found done, and with that popped from the map.
        refine .inr ⟨?_, by rw [if_pos hd]⟩
        rw [getFinished, dictGet_foldl_dictPop, if_pos]
        exact mem_map_of_mem (mem_append_left _ hd)
      · exact .inl (by rw [if_neg hd])
  · exact .inr (hr.step he h.toKeyed)

theorem Once.count_le (h : Once req w) : w.received.count req ≤ 1 :=
  h.once.elim (fun hr => (count_eq_zero.mpr hr).le.trans (Nat.zero_le 1)) fun hr => hr.2.le

/-! ## Never with a failure -/

structure Unfailed (req : ReqId) (w : Decoder) : Prop extends Keyed req w where
  unmarked : req.external ∉ w.thread.failedRequests
  notFailed : req ∉ w.failed

theorem Unfailed.step (he : e.Proper req) (hf : ∀ p, Message.failed req.external p ∉ e.messages)
    (h : Unfailed req w) : Unfailed req (w.step e) := by
  refine { h.toKeyed.step he with unmarked := ?_, notFailed := ?_ }
  · cases e with
    | message m => exact RecvThread.notMem_failedRequests_handle (fun p hp => hf p (hp ▸ mem_cons_self)) h.unmarked
    | startLoad req' bs doVirtual => cases doVirtual <;> exact h.unmarked
    | getFinished late => exact not_mem_nil
  · cases e with
    | message m => exact h.notFailed
    | startLoad req' bs doVirtual => cases doVirtual <;> exact h.notFailed
    | getFinished late =>
      have hun := RecvThread.notMem_failedRequests_foldl (t := { w.thread with doneRequests := [] }) hf h.unmarked
      rw [Decoder.step, getFinished, mem_append, not_or]
      exact ⟨h.notFailed, fun hm => external_notMem_failedRecving h.toKeyed hun (mem_map_of_mem hm)⟩

structure Unreported (req : ReqId) (senders : Finset SideChannelPath) (p : SideChannelPath) (w : Decoder) : Prop
    extends Keyed req w where
  blocked : Blocked req.external senders p w.thread
  notReceived : req ∉ w.received

theorem Unreported.step (hp : p ∈ senders) (he : e.Proper req)
    (hm : DoneFrom req.external senders e.messages) (hne : ∀ n, Message.done req.external n p ∉ e.messages)
    (h : Unreported req senders p w) : Unreported req senders p (w.step e) := by
  refine { h.toKeyed.step he with blocked := ?_, notReceived := ?_ }
  · cases e with
    | message m => exact @RecvThread.Blocked.foldl _ _ [m] _ _ hp hm hne h.blocked
    | startLoad req' bs doVirtual => cases doVirtual <;> exact h.blocked
    | getFinished late =>
      exact Blocked.foldl hp hm hne ⟨not_mem_nil, h.blocked.2⟩
  · exact notMem_received_step (fun hmem => h.blocked.1 ((mem_doneRecving h.toKeyed).mp hmem).1) h.notReceived

/-! ## Exactly once -/

/-- `hw`: what `get_finished` takes away is not the request's. -/
theorem collecting_step (hm : DoneFrom r senders e.messages) (hf : ∀ p, Message.failed r p ∉ e.messages)
    (hw : ∀ late, e = .getFinished late → ¬ senders ⊆ seen) (h : Collecting r senders seen w.thread) :
    Collecting r senders (seen ∪ donePaths r e.messages) (w.step e).thread := by
  cases e with
  | message m => exact @RecvThread.Collecting.foldl _ _ _ [m] _ hm hf h
  | startLoad req' bs doVirtual =>
    have hth : (w.step (.startLoad req' bs doVirtual)).thread = w.thread := by cases doVirtual <;> rfl
    rw [hth]
    simpa [Event.messages, donePaths] using h
  | getFinished late =>
    obtain ⟨-, hse, hlt⟩ := h.resolve_left fun hdone => hw late rfl hdone.2
    exact Collecting.foldl hm hf (.inr ⟨not_mem_nil, hse, hlt⟩)

/-- `hw`: `get_finished` never comes when all senders have said `DONE`. -/
theorem collecting_run (hm : DoneFrom r senders (messages es)) (hf : ∀ p, Message.failed r p ∉ messages es)
    (hw : ∀ pre late post, es = pre ++ .getFinished late :: post → ¬ senders ⊆ seen ∪ donePaths r (messages pre))
    (h : Collecting r senders seen w.thread) :
    Collecting r senders (seen ∪ donePaths r (messages es)) (es.foldl step w).thread := by
  induction es generalizing w seen with
  | nil => simpa [messages, donePaths] using h
  | cons e es ih =>
    have hfirst : ∀ late, e = .getFinished late → ¬ senders ⊆ seen := by
      rintro late rfl hsub
      exact hw [] late es rfl (hsub.trans Finset.subset_union_left)
    rw [messages_cons, RecvThread.donePaths_append, ← Finset.union_assoc]
    refine ih (hm.mono (messages_cons ▸ subset_append_right _ _))
      (fun p hp => hf p (messages_cons ▸ mem_append_right _ hp)) (fun pre late post heq => ?_)
      (collecting_step (hm.mono (messages_subset mem_cons_self))
        (fun p hp => hf p (messages_subset mem_cons_self hp)) hfirst h)
    have hpre := hw (e :: pre) late post (by rw [heq, cons_append])
    rwa [messages_cons, RecvThread.donePaths_append, ← Finset.union_assoc] at hpre

structure Tracked (req : ReqId) (senders seen : Finset SideChannelPath) (w : Decoder) : Prop
    extends Unfailed req w where
  phase : (dictGet req.external w.requestMap = some req ∧ req ∉ w.received ∧
      Collecting req.external senders seen w.thread) ∨ Reported req w

theorem Tracked.step (he : e.LoadsOther req.external) (hm : DoneFrom req.external senders e.messages)
    (hf : ∀ p, Message.failed req.external p ∉ e.messages) (h : Tracked req senders seen w) :
    Tracked req senders (seen ∪ donePaths req.external e.messages) (w.step e) := by
  refine { h.toUnfailed.step he.proper hf with phase := ?_ }
  rcases h.phase with ⟨hg, hr, hc⟩ | hone
  · by_cases hd : req ∈ (w.step e).received
    · have ho := (Once.mk h.toKeyed (.inl hr)).step he
      exact .inr (ho.once.resolve_left (not_not_intro hd))
    cases e with
    | message m => exact .inl ⟨hg, hd, collecting_step hm hf nofun hc⟩
    | startLoad req' bs doVirtual =>
      exact .inl ⟨(dictGet_startLoad he).trans hg, hd, collecting_step hm hf nofun hc⟩
    | getFinished late =>
      have hnd : req.external ∉ w.thread.doneRequests := fun hdone =>
        hd (mem_append_right _ ((mem_doneRecving h.toKeyed).mpr ⟨hdone, hg⟩))
      refine .inl ⟨?_, hd, collecting_step hm hf (fun _ _ hsub => ?_) hc⟩
      · have hfa := external_notMem_failedRecving h.toKeyed
          (RecvThread.notMem_failedRequests_foldl (t := { w.thread with doneRequests := [] }) hf h.unmarked)
        rw [Decoder.step, getFinished, dictGet_foldl_dictPop, map_append, if_neg]
        · exact hg
        · exact fun hmem => (mem_append.mp hmem).elim (fun hmem => hnd (external_doneRecving h.toKeyed hmem)) hfa
      · obtain ⟨-, -, hlt⟩ := hc.resolve_left fun hdone => hnd hdone.1
        exact hlt.2 hsub
  · exact .inr (hone.step he h.toKeyed)

theorem Tracked.run (he : ∀ e ∈ es, e.LoadsOther req.external) (hm : DoneFrom req.external senders (messages es))
    (hf : ∀ p, Message.failed req.external p ∉ messages es) (h : Tracked req senders seen w) :
    Tracked req senders (seen ∪ donePaths req.external (messages es)) (es.foldl Decoder.step w) := by
  induction es generalizing w seen with
  | nil => simpa [messages, donePaths] using h
  | cons e es ih =>
    obtain ⟨he', hes⟩ := forall_mem_cons.mp he
    rw [messages_cons, RecvThread.donePaths_append, ← Finset.union_assoc]
    exact ih hes (hm.mono (messages_cons ▸ subset_append_right _ _))
      (fun p hp => hf p (messages_cons ▸ mem_append_right _ hp))
      (h.step he' (hm.mono (messages_subset mem_cons_self)) fun p hp => hf p (messages_subset mem_cons_self hp))

theorem taskTracker_run : (es.foldl step w).thread.taskTracker =
    ((messages es).foldl RecvThread.handle w.thread).taskTracker := by
  induction es generalizing w with
  | nil => rfl
  | cons e es ih =>
    rw [foldl_cons, ih, messages_cons, foldl_append]
    apply RecvThread.taskTracker_foldl_congr
    cases e with
    | message m => rfl
    | startLoad req' bs doVirtual => cases doVirtual <;> rfl
    | getFinished late => exact RecvThread.taskTracker_foldl_congr rfl

/-! ## Whole runs -/

structure Conforms (r : RequestId) (senders : Finset SideChannelPath) (msgs : List Message) : Prop where
  done : DoneFrom r senders msgs
  failed : ∀ p, .failed r p ∈ msgs → p ∈ senders ∧ ∀ n, Message.done r n p ∉ msgs

/-- A run in which `req` is loaded from remote once. Its messages may also come before that. -/
structure Session (req : ReqId) (senders : Finset SideChannelPath) where
  before : List Event
  blocks : List (List Nat)
  after : List Event
  senders_nonempty : senders.Nonempty
  loads : ∀ e ∈ before ++ after, e.LoadsOther req.external
  conforms : Conforms req.external senders (messages before ++ messages after)

namespace Session

variable (S : Session req senders)

def events : List Event := S.before ++ .startLoad req S.blocks false :: S.after

def handled : List Message := messages S.before ++ messages S.after

def worker : Decoder := S.events.foldl Decoder.step {}

/-- No `get_finished` comes between the request's last `DONE` and its load: there it finds the request done, does not
know it, and drops it. -/
def InTime : Prop :=
  ∀ pre late post, S.before = pre ++ .getFinished late :: post → ¬ senders ⊆ donePaths req.external (messages pre)

def AllHandled : Prop :=
  ∀ p ∈ senders, (∃ n, Message.done req.external n p ∈ S.handled) ∨ Message.failed req.external p ∈ S.handled

theorem worker_eq : S.worker = S.after.foldl step ((S.before.foldl step {}).step (.startLoad req S.blocks false)) := by
  rw [worker, events, foldl_append, foldl_cons]

theorem messages_events : messages S.events = S.handled := by
  rw [events, messages_append, messages_cons]
  rfl

theorem messages_mem (he : e ∈ S.events) : e.messages ⊆ S.handled := S.messages_events ▸ messages_subset he

theorem proper (he : e ∈ S.events) : e.Proper req := by
  rcases mem_append.mp he with he | he
  · exact (S.loads e (mem_append_left _ he)).proper
  rcases mem_cons.mp he with rfl | he
  · exact fun _ => ⟨rfl, rfl⟩
  · exact (S.loads e (mem_append_right _ he)).proper

theorem keyed_empty : Keyed req {} := ⟨nofun, nofun⟩

theorem unloaded : Unloaded req (S.before.foldl step {}) :=
  foldlRecOn (motive := Unloaded req) S.before step ⟨keyed_empty, rfl, not_mem_nil⟩ fun _ h _ he =>
    h.step (S.loads _ (mem_append_left _ he))

theorem once : Once req S.worker := by
  rw [worker_eq]
  refine foldlRecOn (motive := Once req) S.after step ?_ fun _ h _ he => h.step (S.loads _ (mem_append_right _ he))
  exact ⟨S.unloaded.toKeyed.step fun _ => ⟨rfl, rfl⟩, .inl S.unloaded.notReceived⟩

theorem unfailed (hes : es ⊆ S.events) (hf : ∀ p, Message.failed req.external p ∉ S.handled) :
    Unfailed req (es.foldl step {}) :=
  foldlRecOn (motive := Unfailed req) es step ⟨keyed_empty, not_mem_nil, not_mem_nil⟩ fun _ h _ he =>
    h.step (S.proper (hes he)) fun p hp => hf p (S.messages_mem (hes he) hp)

theorem unreported (hp : Message.failed req.external p ∈ S.handled) : Unreported req senders p S.worker := by
  obtain ⟨hmem, hne⟩ := S.conforms.failed p hp
  have hblocked : Blocked req.external senders p {} := ⟨not_mem_nil, Finset.empty_subset _⟩
  exact foldlRecOn (motive := Unreported req senders p) S.events step ⟨keyed_empty, hblocked, not_mem_nil⟩
    fun _ h _ he => h.step hmem (S.proper he) (S.conforms.done.mono (S.messages_mem he)) fun n hn =>
      hne n (S.messages_mem he hn)

theorem tracked (hin : S.InTime) (hf : ∀ p, Message.failed req.external p ∉ S.handled) :
    Tracked req senders (donePaths req.external S.handled) S.worker := by
  have hbe : messages S.before ⊆ S.handled := subset_append_left _ _
  have hcollecting : Collecting req.external senders (∅ ∪ donePaths req.external (messages S.before))
      (S.before.foldl step {}).thread :=
    collecting_run (S.conforms.done.mono hbe) (fun p hp => hf p (hbe hp))
      (fun pre late post heq => by rw [Finset.empty_union]; exact hin pre late post heq)
      (.inr ⟨not_mem_nil, rfl, Finset.empty_ssubset.mpr S.senders_nonempty⟩)
  have hunfailed := S.unfailed (subset_append_left S.before _) hf
  rw [Finset.empty_union] at hcollecting
  rw [worker_eq, handled, RecvThread.donePaths_append]
  refine Tracked.run (fun e he => S.loads e (mem_append_right _ he)) (S.conforms.done.mono (subset_append_right _ _))
    (fun p hp => hf p (mem_append_right _ hp)) ?_
  refine { hunfailed.step (e := .startLoad req S.blocks false) (fun _ => ⟨rfl, rfl⟩) (fun _ => not_mem_nil) with
    phase := .inl ⟨?_, S.unloaded.notReceived, hcollecting⟩ }
  exact dictGet_dictSet.trans (if_pos rfl)

theorem received_once (hin : S.InTime) (hall : ∀ p ∈ senders, ∃ n, Message.done req.external n p ∈ S.handled) :
    (S.worker.getFinished []).received.count req = 1 := by
  have hf : ∀ p, Message.failed req.external p ∉ S.handled := fun p hp => by
    obtain ⟨hmem, hne⟩ := S.conforms.failed p hp
    obtain ⟨n, hn⟩ := hall p hmem
    exact hne n hn
  have hsub : senders ⊆ donePaths req.external S.handled := fun p hp => RecvThread.mem_donePaths.mpr (hall p hp)
  have hfi := (S.tracked hin hf).step (e := .getFinished []) trivial (fun _ _ h => absurd h not_mem_nil)
    fun _ => not_mem_nil
  rcases hfi.phase with ⟨-, -, hco⟩ | hone
  · -- It was complete before, so it is no longer waited for.
    obtain ⟨-, -, hlt⟩ := hco.resolve_left fun hdone => absurd hdone.1 not_mem_nil
    exact absurd (hsub.trans Finset.subset_union_left) hlt.2
  · exact hone.2

theorem untracked (ha : S.AllHandled) (h : senders.card = 1 ∨ LastClears req.external S.handled) :
    dictGet req.external S.worker.thread.taskTracker = none := by
  have hconf : Conforms req.external senders S.handled := S.conforms
  rw [worker, taskTracker_run, messages_events]
  rcases h with ho | hl
  · exact RecvThread.dictGet_foldl_of_one hconf.done ho rfl
  · exact RecvThread.dictGet_foldl_of_lastClears hconf.done ha hl rfl

theorem not_both : ¬ (req ∈ S.worker.received ∧ req ∈ S.worker.failed) := by
  rintro ⟨hr, hfa⟩
  by_cases hf : ∃ p, Message.failed req.external p ∈ S.handled
  · obtain ⟨p, hp⟩ := hf
    exact (S.unreported hp).notReceived hr
  · exact (S.unfailed (Subset.refl _) (not_exists.mp hf)).notFailed hfa

end Session

/-- In every run the request is reported once at most, and not with a failure. It is reported when all senders have
said `DONE` if `get_finished` does not find it before it is loaded. The entry is gone if the request has one sender or
its last message clears. -/
theorem decode_completion (S : Session req senders) : S.worker.received.count req ≤ 1 ∧
    (S.InTime → (∀ p ∈ senders, ∃ n, Message.done req.external n p ∈ S.handled) →
      (S.worker.getFinished []).received.count req = 1) ∧
    ((∃ p, Message.failed req.external p ∈ S.handled) → req ∉ S.worker.received) ∧
    ¬ (req ∈ S.worker.received ∧ req ∈ S.worker.failed) ∧
    (S.AllHandled → senders.card = 1 ∨ LastClears req.external S.handled →
      dictGet req.external S.worker.thread.taskTracker = none) := by
  refine ⟨S.once.count_le, S.received_once, ?_, S.not_both, S.untracked⟩
  rintro ⟨p, hp⟩
  exact (S.unreported hp).notReceived

/-! ## Runs of two senders -/

theorem doneFrom_two (h : msgs ⊆ [.done 7 2 1, .done 7 2 2, .failed 7 1]) : DoneFrom 7 {1, 2} msgs := by
  intro n p hm
  have hmem := h hm
  simp only [mem_cons, Message.done.injEq, not_mem_nil, or_false, true_and, reduceCtorEq] at hmem
  rcases hmem with ⟨rfl, rfl⟩ | ⟨rfl, rfl⟩ <;> decide

def twoSenders (before after : List Event) (hloads : ∀ e ∈ before ++ after, e.LoadsOther 7)
    (hmsgs : messages before ++ messages after ⊆ [.done 7 2 1, .done 7 2 2, .failed 7 1])
    (hfailed : ∀ p, .failed 7 p ∈ messages before ++ messages after →
      p ∈ ({1, 2} : Finset SideChannelPath) ∧ ∀ n, Message.done 7 n p ∉ messages before ++ messages after) :
    Session ⟨7, 0⟩ {1, 2} where
  before := before
  blocks := []
  after := after
  senders_nonempty := ⟨1, by decide⟩
  loads := hloads
  conforms := ⟨doneFrom_two hmsgs, hfailed⟩

def inOrder : Session ⟨7, 0⟩ {1, 2} :=
  twoSenders [.message (.done 7 2 1), .getFinished []] [.message (.done 7 2 1), .message (.done 7 2 2)]
    (by simp [Event.LoadsOther]) (by decide) (by simp [messages, Event.messages])

theorem decode_completion_inOrder : (inOrder.worker.getFinished []).received.count ⟨7, 0⟩ = 1 ∧
    dictGet 7 inOrder.worker.thread.taskTracker = none := by
  obtain ⟨-, ho, -, -, hl⟩ := decode_completion inOrder
  have ha : ∀ p ∈ ({1, 2} : Finset SideChannelPath), ∃ n, Message.done 7 n p ∈ inOrder.handled := by
    intro p hp
    refine ⟨2, ?_⟩
    revert p
    decide
  have hin : inOrder.InTime := by
    intro pre late post heq
    have hpre : pre = [.message (.done 7 2 1)] := by
      rcases pre with _ | ⟨e, _ | ⟨e', pre⟩⟩ <;> simp_all [inOrder, twoSenders]
    subst hpre
    decide
  refine ⟨ho hin ha, hl (fun p hp => .inl (ha p hp)) (.inr ?_)⟩
  refine ⟨[.done 7 2 1, .done 7 2 1], .done 7 2 2, [], rfl, ?_, .inr ⟨2, 2, rfl, ?_, ?_⟩⟩
  · exact fun m hm => absurd hm not_mem_nil
  · simp
  · simp

def failedFirst : Session ⟨7, 0⟩ {1, 2} :=
  twoSenders [] [.message (.failed 7 1), .message (.done 7 2 2)]
    (by simp [Event.LoadsOther]) (by decide) (by simp [messages, Event.messages])

def sentAgain : Session ⟨7, 0⟩ {1, 2} :=
  twoSenders [] [.message (.done 7 2 1), .message (.done 7 2 2), .message (.done 7 2 1)]
    (by simp [Event.LoadsOther]) (by decide) (by simp [messages, Event.messages])

def tooEarly : Session ⟨7, 0⟩ {1, 2} :=
  twoSenders [.message (.done 7 2 1), .message (.done 7 2 2), .getFinished []] []
    (by simp [Event.LoadsOther]) (by decide) (by simp [messages, Event.messages])

theorem decode_completion_fails :
    (failedFirst.AllHandled ∧ dictGet 7 failedFirst.worker.thread.taskTracker = some {2}) ∧
    (sentAgain.AllHandled ∧ dictGet 7 sentAgain.worker.thread.taskTracker = some {1}) ∧
    (∀ p ∈ ({1, 2} : Finset SideChannelPath), ∃ n, Message.done 7 n p ∈ tooEarly.handled) ∧
      ∀ n, ((fun w => w.getFinished [])^[n] tooEarly.worker).received = [] := by
  refine ⟨⟨fun p hp => ?_, by decide⟩, ⟨fun p hp => .inl ⟨2, ?_⟩, by decide⟩, fun p hp => ⟨2, ?_⟩, fun n => ?_⟩
  · rcases Finset.mem_insert.mp hp with rfl | hp
    · exact .inr (by decide)
    · cases Finset.mem_singleton.mp hp
      exact .inl ⟨2, by decide⟩
  · revert p
    decide
  · revert p
    decide
  · have hfixed : tooEarly.worker.getFinished [] = tooEarly.worker := rfl
    exact congrArg received (Function.iterate_fixed hfixed n)

end Decoder

end VllmAscend.Layerwise
