import VllmAscend.Lib.Run
import VllmAscend.Offload.Mapped

/-!
# Who holds the mapped handler's resources

`mapped_resources`: in every run each stream, event and buffer is in one pool,
in one transfer or let go, and no event or buffer that is free or let go is
referred to by unfinished work.
-/

namespace VllmAscend.Mapped

open Python Streams AsyncState Inv Handler
open List hiding count

def AsyncState.count (st : AsyncState) (r : Nat) : Nat :=
  st.streamPool.count r + st.eventPool.count r + (st.transfers.flatMap Transfer.resources).count r

namespace Handler

def transfers (h : Handler) : List Transfer := h.storeState.transfers ++ h.loadState.transfers

def holdings (h : Handler) : List Nat := h.freePools ++ h.transfers.flatMap Transfer.resources ++ h.released

variable {lay : Layout} {h h' : Handler} {dir : Direction} {t t' : Transfer} {st : AsyncState} {a : Launch}

/-! ## Counting -/

theorem count_holdings (r : Nat) : h.holdings.count r = h.storeState.count r + h.loadState.count r +
    (h.storeDescriptorPool.map Descriptor.id).count r + (h.loadIdPool.map MappedIdBuffers.id).count r +
    h.released.count r := by
  simp only [holdings, freePools, transfers, count, flatMap_append, count_append]
  omega

theorem count_setState (r : Nat) :
    (h.setState dir st).holdings.count r + (h.state dir).count r = h.holdings.count r + st.count r := by
  rw [count_holdings, count_holdings]
  cases dir <;> simp only [setState, state] <;> omega

theorem mem_transfers : t ∈ h.transfers ↔ ∃ dir, t ∈ (h.state dir).transfers := by
  rw [transfers, mem_append]
  exact ⟨fun ht => ht.elim (fun ht => ⟨.store, ht⟩) fun ht => ⟨.load, ht⟩,
    fun ⟨dir, ht⟩ => by cases dir <;> simp_all [state]⟩

theorem transfers_setState (hst : st.transfers = (h.state dir).transfers) : (h.setState dir st).transfers = h.transfers := by
  cases dir <;> simp only [transfers, setState, hst, state]

/-- The invariant, while a call has the resources `hand` in hand; if `stray`, waits may be left on any stream. -/
structure Inv (stray : Prop) (h : Handler) (hand : List Nat) : Prop where
  owned : ∀ r, h.holdings.count r + hand.count r = if r < h.nextId then 1 else 0
  working : ∀ op ∈ h.device, (stray ∧ op.work = .wait) ∨
    ∃ t ∈ h.transfers, op.stream = t.stream ∧ ∀ r ∈ op.work.refs, r ∈ t.resources
  ended : ∀ t ∈ h.transfers, t.needsStreamSync = false → h.device.EndsIn t.stream t.endEvent

variable {stray : Prop}

inductive Popped (h : Handler) (dir : Direction) : Nat × Handler → Prop
  | made : Popped h dir (h.nextId, { h with nextId := h.nextId + 1 })
  | pooled {r : Nat} {st : AsyncState} : st.transfers = (h.state dir).transfers →
    (∀ r', (h.state dir).count r' = st.count r' + [r].count r') → Popped h dir (r, h.setState dir st)

theorem popped_popStream (h : Handler) (dir : Direction) : Popped h dir (h.popStream dir) := by
  unfold popStream
  split
  · exact .made
  rename_i hp
  refine .pooled rfl fun r => ?_
  simp only [count, hp, count_cons, count_nil]
  omega

theorem popped_popEvent (h : Handler) (dir : Direction) : Popped h dir (h.popEvent dir) := by
  unfold popEvent
  split
  · exact .made
  rename_i hp
  refine .pooled rfl fun r => ?_
  simp only [count, hp, count_cons, count_nil]
  omega

section
variable (hi : Inv stray h ha)
include hi

theorem Inv.frame (hd : h'.device = h.device) (ht : h'.transfers = h.transfers)
    (ho : ∀ r, h'.holdings.count r + ha'.count r = if r < h'.nextId then 1 else 0) : Inv stray h' ha' where
  owned := ho
  working := by rw [hd, ht]; exact hi.working
  ended := by rw [hd, ht]; exact hi.ended

theorem Inv.made : Inv stray { h with nextId := h.nextId + 1 } (h.nextId :: ha) := by
  refine hi.frame rfl rfl fun r => ?_
  have hr := hi.owned r
  rw [count_holdings] at hr ⊢
  simp only [count_cons, beq_iff_eq] at hr ⊢
  by_cases heq : h.nextId = r
  · subst heq
    simp only [Nat.lt_irrefl, if_false, Nat.lt_succ_self, if_true] at hr ⊢
    omega
  have hlt : r < h.nextId + 1 ↔ r < h.nextId := by omega
  simp only [heq, if_false, hlt] at hr ⊢
  omega

theorem Inv.moved (hd : h'.device = h.device) (ht : h'.transfers = h.transfers) (hn : h'.nextId = h.nextId)
    (hc : ∀ r, h'.holdings.count r + ha'.count r = h.holdings.count r + ha.count r) : Inv stray h' ha' :=
  hi.frame hd ht fun r => by rw [hc, hn]; exact hi.owned r

theorem Inv.setState (ht : st.transfers = (h.state dir).transfers)
    (hco : ∀ r, st.count r + ha'.count r = (h.state dir).count r + ha.count r) :
    Inv stray (h.setState dir st) ha' := by
  refine hi.moved (by cases dir <;> rfl) (transfers_setState ht) (by cases dir <;> rfl) fun r => ?_
  have hs := @count_setState h dir st r
  have hc := hco r
  omega

theorem Inv.popped (hp : Popped h dir out) : Inv stray out.2 (out.1 :: ha) := by
  cases hp with
  | made => exact hi.made
  | pooled ht hc =>
    refine hi.setState ht fun r => ?_
    rw [hc r, count_cons, count_singleton, Nat.add_right_comm, Nat.add_assoc]

end

theorem Inv.release (hi : Inv stray h (ids ++ ha)) : Inv stray (h.release ids) ha := by
  refine hi.moved rfl rfl rfl fun r => ?_
  rw [count_holdings, count_holdings]
  simp only [Handler.release, count_append]
  omega

theorem Inv.takeDescriptor (hi : Inv stray h ha) (n : Nat) :
    Inv stray (h.takeDescriptor n).2 ((h.takeDescriptor n).1.id :: ha) := by
  have hpop : ∀ {b pool}, h.storeDescriptorPool = b :: pool →
      Inv stray { h with storeDescriptorPool := pool } ([b.id] ++ ha) := fun {b pool} hp => by
    refine hi.moved rfl rfl rfl fun r => ?_
    rw [count_holdings, count_holdings]
    simp only [hp, map_cons, singleton_append, count_cons]
    omega
  unfold Handler.takeDescriptor
  split
  · exact hi.made
  rename_i b pool hp
  split
  · exact (hpop hp).release.made
  · exact hpop hp

variable {n r str : Nat} {b : MappedIdBuffers}
  {wks waits kernels : List Work} {w : Bool} {spec : Spec} {handles : List Nat}

theorem bestFit_mem : ∀ {pool : List MappedIdBuffers} {best : Option MappedIdBuffers},
    bestFit n pool best = some b → b ∈ pool ∨ best = some b
  | [], _, hb => .inr hb
  | c :: pool, best, hb => by
    rw [bestFit] at hb
    rcases bestFit_mem hb with hm | hm
    · exact .inl (mem_cons_of_mem c hm)
    split at hm
    · cases hm
      exact .inl mem_cons_self
    · exact .inr hm

theorem Inv.acquireMappedIds (hi : Inv stray h ha) (n : Nat) :
    Inv stray (h.acquireMappedIds n).2 ((h.acquireMappedIds n).1.id :: ha) := by
  unfold Handler.acquireMappedIds
  split
  · next b hbe =>
    have hb : b ∈ h.loadIdPool := (bestFit_mem hbe).resolve_right (fun hn => by cases hn)
    refine hi.moved rfl rfl rfl fun r => ?_
    have hp := ((perm_cons_erase hb).map MappedIdBuffers.id).count_eq r
    rw [count_holdings, count_holdings]
    simp only [map_cons, count_cons] at hp ⊢
    omega
  · exact hi.made

theorem Inv.takeMappedIds (hi : Inv stray h []) (plan : Plan) :
    Inv stray (h.takeMappedIds plan).2 (((h.takeMappedIds plan).1.map MappedIdBuffers.id).toList) := by
  unfold Handler.takeMappedIds
  split
  · exact hi.acquireMappedIds plan.srcBlocks.length
  · exact hi

theorem Inv.releaseMappedIds (hi : Inv stray h (b.id :: ha)) : Inv stray (h.releaseMappedIds b) ha := by
  unfold Handler.releaseMappedIds
  split
  · refine hi.moved rfl rfl rfl fun r => ?_
    rw [count_holdings, count_holdings]
    simp only [map_append, map_cons, map_nil, count_append, count_cons, count_nil]
    omega
  · exact (show Inv stray h ([b.id] ++ ha) from hi).release

theorem Inv.recycleBatch {b : Option Descriptor} (hi : Inv stray h ((b.map Descriptor.id).toList ++ ha)) :
    Inv stray (h.recycleBatch b) ha := by
  cases b with
  | none => exact hi
  | some b =>
    refine hi.moved rfl rfl rfl fun r => ?_
    rw [count_holdings, count_holdings]
    simp only [Handler.recycleBatch, map_cons, Option.map_some, Option.toList_some, count_cons, count_append, count_nil]
    omega

theorem Inv.recycleIds {b : Option MappedIdBuffers} (hi : Inv stray h ((b.map MappedIdBuffers.id).toList ++ ha)) :
    Inv stray (h.recycleIds b) ha := by
  cases b with
  | none => exact hi
  | some b => exact hi.releaseMappedIds

theorem Inv.recycle (hi : Inv stray h (t.resources ++ ha)) : Inv stray (h.recycleTransferResources dir t) ha := by
  refine recycleIds (recycleBatch (hi.setState rfl fun r => ?_))
  simp only [count, Transfer.resources, count_append, count_cons]
  omega

/-! ## The device -/

theorem Inv.progress (hi : Inv stray h ha) (hp : Progress h.device d) : Inv stray { h with device := d } ha where
  owned := hi.owned
  working op hop := hi.working op (hp.mem hop)
  ended u hu hs := (hi.ended u hu hs).progress hp

theorem count_resources_le (ht : t ∈ h.transfers) (r : Nat) : t.resources.count r ≤ h.holdings.count r := by
  have hs : t.resources.Sublist (h.transfers.flatMap Transfer.resources) := by
    exact sublist_flatten_of_mem (mem_map_of_mem ht)
  have := hs.count_le r
  rw [holdings, count_append, count_append]
  omega

theorem Inv.notMem_of_hand (hi : Inv stray h ha) (hr : r ∈ ha) (ht : t ∈ h.transfers) : r ∉ t.resources := fun hm => by
  have hc := hi.owned r
  have hle := count_resources_le ht r
  have := count_pos_iff.mpr hr
  have := count_pos_iff.mpr hm
  split at hc <;> omega

theorem Inv.stream_ne (hi : Inv stray h t.resources) (hu : u ∈ h.transfers) :
    t.stream ≠ u.stream := fun heq => hi.notMem_of_hand mem_cons_self hu (heq ▸ mem_cons_self)

theorem Inv.synced (hi : Inv stray h t.resources) (hn : ∀ op ∈ new, op.stream = t.stream) :
    Inv stray { h with device := Device.syncStream (h.device ++ new) t.stream } t.resources where
  owned := hi.owned
  working op hop := by
    obtain ⟨hm, hne⟩ := mem_filter.mp hop
    rcases mem_append.mp hm with ho | hop
    · exact hi.working op ho
    · exact absurd (hn op hop) (of_decide_eq_true hne)
  ended u hu hs := by
    refine ((hi.ended u hu hs).append fun op hop => ?_).progress progress_syncStream
    rw [hn op hop]
    exact hi.stream_ne hu

theorem Inv.queued (hi : Inv stray h t.resources)
    (htr : st.transfers = (h.state dir).transfers ++ [t]) (hse : st.streamPool = (h.state dir).streamPool)
    (hev : st.eventPool = (h.state dir).eventPool)
    (hnew : ∀ op ∈ new, op.stream = t.stream ∧ ∀ r ∈ op.work.refs, r ∈ t.resources)
    (hend : t.needsStreamSync = false → Device.EndsIn (h.device ++ new) t.stream t.endEvent) :
    Inv stray ({ h with device := h.device ++ new }.setState dir st) [] := by
  set h' := ({ h with device := h.device ++ new }.setState dir st) with hh'
  have hde : h'.device = h.device ++ new := by cases dir <;> rfl
  have hmem : ∀ u, u ∈ h'.transfers ↔ u ∈ h.transfers ∨ u = t := fun u => by
    cases dir <;> simp [hh', transfers, Handler.setState, htr, state, or_comm, or_left_comm]
  refine ⟨fun r => ?_, fun op hop => ?_, fun u hu hsy => ?_⟩
  · have hset := @count_setState { h with device := h.device ++ new } dir st r
    have hnext : h'.nextId = h.nextId := by cases dir <;> rfl
    have hst : ({ h with device := h.device ++ new } : Handler).state dir = h.state dir := by cases dir <;> rfl
    have hsame : ({ h with device := h.device ++ new } : Handler).holdings = h.holdings := rfl
    have hr := hi.owned r
    rw [← hh'] at hset
    rw [hnext, ← hr]
    simp only [count, hst, hsame, htr, hse, hev, flatMap_append, count_append,
      flatMap_cons, flatMap_nil, append_nil, count_nil] at hset ⊢
    omega
  · rw [hde, mem_append] at hop
    rcases hop with hop | hop
    · rcases hi.working op hop with hwa | ⟨u, hu, hsr, hre⟩
      · exact .inl hwa
      · exact .inr ⟨u, (hmem u).mpr (.inl hu), hsr, hre⟩
    · exact .inr ⟨t, (hmem t).mpr (.inr rfl), hnew op hop⟩
  · rw [hde]
    rcases (hmem u).mp hu with hu | rfl
    · refine (hi.ended u hu hsy).append fun op hop => ?_
      rw [(hnew op hop).1]
      exact hi.stream_ne hu
    · exact hend hsy

theorem Inv.popTransfer (hi : Inv stray h ha) (hqu : (h.state dir).transfers = t :: rest)
    (hidle : h.device.onStream t.stream = []) : Inv stray (h.popTransfer dir t) (t.resources ++ ha) := by
  have hde : (h.popTransfer dir t).device = h.device := by cases dir <;> rfl
  have hmem : ∀ u, u ∈ h.transfers ↔ u = t ∨ u ∈ (h.popTransfer dir t).transfers := fun u => by
    cases dir <;> simp only [state] at hqu <;>
      simp [transfers, Handler.popTransfer, Handler.setState, state, hqu, or_left_comm]
  refine ⟨fun r => ?_, fun op hop => ?_, fun u hu hsy => ?_⟩
  · have hset := @count_setState h dir { h.state dir with
      transfers := (h.state dir).transfers.tail
      transferEvents := dictPop t.jobId (h.state dir).transferEvents } r
    have hnext : (h.popTransfer dir t).nextId = h.nextId := by cases dir <;> rfl
    have hr := hi.owned r
    rw [hnext, ← hr, Handler.popTransfer]
    simp only [count, hqu, tail_cons, flatMap_cons, count_append] at hset ⊢
    omega
  · rw [hde] at hop
    rcases hi.working op hop with hwa | ⟨u, hu, hst, hre⟩
    · exact .inl hwa
    rcases (hmem u).mp hu with rfl | hu
    · exact absurd hst (Device.onStream_eq_nil.mp hidle op hop)
    · exact .inr ⟨u, hu, hst, hre⟩
  · rw [hde]
    exact hi.ended u ((hmem u).mpr (.inr hu)) hsy

/-! ## Submissions -/

theorem queued_onStream (hop : op ∈ wks.map (⟨str, ·⟩ : Work → Op)) : op.stream = str ∧ op.work ∈ wks := by
  obtain ⟨w, hw, rfl⟩ := mem_map.mp hop
  exact ⟨rfl, hw⟩

theorem Inv.tracked (hi : Inv stray h t.resources) (hwo : ∀ w ∈ wks, ∀ r ∈ w.refs, r ∈ t.resources) :
    Inv stray ((h.enqueue t.stream (wks ++ [.record t.endEvent])).trackSubmission dir t) [] := by
  refine hi.queued rfl rfl rfl (fun op hop => ⟨(queued_onStream hop).1, ?_⟩) fun _ => ?_
  · rcases mem_append.mp (queued_onStream hop).2 with hw | hw
    · exact hwo _ hw
    rw [mem_singleton.mp hw]
    intro r hr
    rw [mem_singleton.mp hr]
    exact mem_cons_of_mem _ (mem_cons_of_mem _ mem_cons_self)
  · rw [map_append, ← append_assoc]
    exact .of_append

theorem Inv.preserved (hi : Inv stray h t.resources) (hwo : ∀ w ∈ wks, ∀ r ∈ w.refs, r ∈ t.resources) :
    Inv stray ((h.enqueue t.stream wks).preserveFailedSubmission dir t true false a) [] := by
  have hfa : Inv stray h { t with success := false }.resources := hi
  unfold preserveFailedSubmission
  simp only [Bool.false_eq_true, not_false_eq_true, and_self, if_true, if_false]
  split
  · have htr : Inv stray ((h.enqueue t.stream (wks ++ [.record t.endEvent])).trackSubmission dir
        { t with success := false }) [] := hfa.tracked hwo
    rw [enqueue, map_append, ← append_assoc] at htr
    exact htr
  · split
    · refine recycle ?_
      rw [append_nil]
      exact hfa.synced fun op hop => (queued_onStream hop).1
    · unfold poison
      have hke : Inv stray h { t with success := false, needsStreamSync := true }.resources := hi
      exact hke.queued rfl rfl rfl (fun op hop => ⟨(queued_onStream hop).1, hwo _ (queued_onStream hop).2⟩)
        fun hsn => by cases hsn

theorem Inv.unstarted (hi : Inv stray h t.resources) (hwa : ∀ w ∈ waits, w = .wait) (hs : stray ∨ waits = []) :
    Inv stray ((h.enqueue t.stream waits).preserveFailedSubmission dir t false false a) [] := by
  refine recycle ?_
  rw [append_nil]
  refine ⟨hi.owned, fun op hop => ?_, fun u hu hsy => (hi.ended u hu hsy).append fun op hop => ?_⟩
  · rcases mem_append.mp hop with hop | hop
    · exact hi.working op hop
    have hw := (queued_onStream hop).2
    rcases hs with hs | hn
    · exact .inl ⟨hs, hwa _ hw⟩
    · rw [hn] at hw
      exact absurd hw not_mem_nil
  · rw [(queued_onStream hop).1]
    exact hi.stream_ne hu

theorem enqueue_enqueue : (h.enqueue str wks).enqueue str works' = h.enqueue str (wks ++ works') := by
  simp only [enqueue, map_append, append_assoc]

theorem Inv.launch (hi : Inv stray h t.resources)
    (hwa : ∀ w ∈ waits, w = .wait) (hke : ∀ w ∈ kernels, ∀ r ∈ w.refs, r ∈ t.resources)
    (hsr : stray ∨ a.startOk = true ∨ waits = []) :
    Inv stray ((h.enqueue t.stream waits).launch dir t kernels raised a).1 [] := by
  have hwo : ∀ {ks : List Work}, ks ⊆ kernels →
      ∀ w ∈ waits ++ .record t.startEvent :: ks, ∀ r ∈ w.refs, r ∈ t.resources := fun {ks} hks w hw r hr => by
    rcases mem_append.mp hw with hw | hw
    · rw [hwa w hw] at hr
      exact absurd hr not_mem_nil
    rcases mem_cons.mp hw with rfl | hw
    · rw [mem_singleton.mp hr]
      exact mem_cons_of_mem _ mem_cons_self
    · exact hke w (hks hw) r hr
  unfold Handler.launch
  by_cases hst : a.startOk = true
  · rw [if_neg (not_not.mpr hst)]
    have hsub := hwo (a.queued_subset kernels)
    simp only
    rw [enqueue_enqueue]
    split
    · exact hi.preserved hsub
    split
    · exact hi.preserved hsub
    split
    · exact hi.preserved hsub
    rw [enqueue_enqueue]
    split
    · have hfa : Inv stray h { t with success := false }.resources := hi
      exact hfa.tracked hsub
    · exact hi.tracked hsub
  · rw [if_pos hst]
    exact hi.unstarted (a := a) hwa (hsr.imp_right fun h => h.resolve_left hst)

theorem Inv.perm (hi : Inv stray h ha) (hp : ha.Perm ha') : Inv stray h ha' :=
  hi.frame rfl rfl fun r => by rw [← hp.count_eq]; exact hi.owned r

/-- No wait is queued ahead of a start event that fails to be recorded. -/
def StartsClear (h : Handler) (dir : Direction) (waitForCurrentStream : Bool) (a : Launch) : Prop :=
  a.startOk = true ∨ ((waitForCurrentStream = true → a.currentBusy = false) ∧
    ∀ t ∈ (h.state dir).transfers.getLast?, h.device.query t.endEvent = true)

theorem Popped.frame (hp : Popped h dir out) :
    out.2.device = h.device ∧ (out.2.state dir).transfers = (h.state dir).transfers := by
  cases hp with
  | made => exact ⟨rfl, by cases dir <;> rfl⟩
  | pooled ht _ => exact ⟨by cases dir <;> rfl, by rw [← ht]; cases dir <;> rfl⟩

inductive Acquired (stray : Prop) (hand : List Nat) (a : Launch) : Handler × Except PyError (Nat × Nat × Nat) → Prop where
  | failed {h : Handler} {e : PyError} : Inv stray h hand → Acquired stray hand a (h, .error e)
  | taken {h : Handler} {stream startEvent endEvent : Nat} {waits : List Work} :
    Inv stray h (stream :: startEvent :: endEvent :: hand) → (∀ w ∈ waits, w = .wait) →
    (stray ∨ a.startOk = true ∨ waits = []) →
    Acquired stray hand a (h.enqueue stream waits, .ok (stream, startEvent, endEvent))

theorem Inv.acquired (hi : Inv stray h ha) (hcl : stray ∨ h.StartsClear dir w a) :
    Acquired stray ha a (h.acquireAsyncResources dir w a) := by
  unfold acquireAsyncResources
  split
  · exact .failed hi
  have h1 := hi.popped (popped_popStream h dir)
  have hf1 := (popped_popStream h dir).frame
  rcases hs : h.popStream dir with ⟨str, g1⟩
  rw [hs] at h1 hf1
  have h2 := h1.popped (popped_popEvent g1 dir)
  have hf2 := (popped_popEvent g1 dir).frame
  simp only
  rcases hs2 : g1.popEvent dir with ⟨sev, g2⟩
  rw [hs2] at h2 hf2
  have h3 := h2.popped (popped_popEvent g2 dir)
  have hf3 := (popped_popEvent g2 dir).frame
  rcases hs3 : g2.popEvent dir with ⟨eev, g3⟩
  rw [hs3] at h3 hf3
  have hperm : (eev :: sev :: str :: ha).Perm (str :: sev :: eev :: ha) := by
    rw [perm_iff_count]
    intro r
    simp only [count_cons]
    omega
  have hta : Inv stray g3 (str :: sev :: eev :: ha) := h3.perm hperm
  have htr : (g3.state dir).transfers = (h.state dir).transfers := hf3.2.trans (hf2.2.trans hf1.2)
  have hde : g3.device = h.device := hf3.1.trans (hf2.1.trans hf1.1)
  split
  · exact .failed (show Inv stray g3 ([str, sev, eev] ++ ha) from hta).release
  refine .taken hta (fun x hx => ?_) (hcl.imp_right (Or.imp_right fun ⟨hcr, hlast⟩ => ?_))
  · rcases mem_append.mp hx with hx | hx <;> split at hx <;> simp_all
  · rw [htr, hde]
    have hnone : (h.state dir).transfers.getLast?.any (fun u => ! h.device.query u.endEvent) = false := by
      cases hg : (h.state dir).transfers.getLast? with
      | none => rfl
      | some u => simp [hlast u hg]
    have hcu : ¬ (w = true ∧ a.currentBusy = true) := fun ⟨hw, hbusy⟩ => by
      rw [hcr hw] at hbusy
      cases hbusy
    rw [if_neg hcu, if_neg (by rw [hnone]; exact Bool.false_ne_true), append_nil]

theorem takeDescriptor_frame (n : Nat) : (h.takeDescriptor n).2.device = h.device ∧
    ∀ dir, (h.takeDescriptor n).2.state dir = h.state dir := by
  unfold takeDescriptor
  split
  · exact ⟨rfl, fun dir => by cases dir <;> rfl⟩
  · split <;> exact ⟨rfl, fun dir => by cases dir <;> rfl⟩

theorem acquireMappedIds_frame (n : Nat) : (h.acquireMappedIds n).2.device = h.device ∧
    ∀ dir, (h.acquireMappedIds n).2.state dir = h.state dir := by
  unfold acquireMappedIds
  split <;> exact ⟨rfl, fun dir => by cases dir <;> rfl⟩

theorem takeMappedIds_frame (plan : Plan) : (h.takeMappedIds plan).2.device = h.device ∧
    ∀ dir, (h.takeMappedIds plan).2.state dir = h.state dir := by
  unfold takeMappedIds
  split
  · exact acquireMappedIds_frame _
  · exact ⟨rfl, fun _ => rfl⟩

theorem StartsClear.congr (hc : h.StartsClear dir w a) (hd : h'.device = h.device)
    (hs : h'.state dir = h.state dir) : h'.StartsClear dir w a := by
  rw [StartsClear, hd, hs]
  exact hc

theorem Inv.submitStore (hi : Inv stray h [])
    (hcl : stray ∨ h.StartsClear .store true a) : Inv stray (submitStore lay h jobId spec a).1 [] := by
  unfold Handler.submitStore
  split
  · exact hi
  split
  · exact hi
  split
  · exact hi
  rename_i plan _
  have hba := hi.takeDescriptor plan.numCopyOps
  have hfr := @takeDescriptor_frame h plan.numCopyOps
  rcases hd : h.takeDescriptor plan.numCopyOps with ⟨batch, g⟩
  rw [hd] at hba hfr
  simp only
  split
  · exact (show Inv stray g ([batch.id] ++ []) from hba).release
  have hac := hba.acquired (hcl.imp_right (·.congr hfr.1 (hfr.2 _)))
  generalize g.acquireAsyncResources .store true a = outcome at hac ⊢
  cases hac with
  | failed hfa => exact (show Inv stray _ ([batch.id] ++ []) from hfa).release
  | taken hta hwa hsr =>
    refine launch (t := ⟨jobId, _, _, _, plan.numTransferBytes, some batch, none, true, false⟩) hta hwa
      (fun x hx r hr => ?_) hsr
    split at hx
    · rw [mem_singleton.mp hx] at hr
      rw [mem_singleton.mp hr]
      simp [Transfer.resources]
    · exact absurd hx not_mem_nil

theorem loadKernels_refs
    (hx : x ∈ (loadKernels lay h plan ids).1) (hr : r ∈ x.1.refs) : r ∈ (ids.map MappedIdBuffers.id).toList := by
  cases ids with
  | none =>
    rw [loadKernels] at hx
    split at hx <;> exact absurd hx not_mem_nil
  | some b =>
    have hk : x.1 = .kernel b.id := by
      rw [loadKernels, runMappedGather] at hx
      split at hx
      · split at hx
        · exact absurd hx not_mem_nil
        simp only [mem_cons, mem_flatMap] at hx
        rcases hx with rfl | rfl | ⟨group, _, hx⟩
        · rfl
        · rfl
        split at hx
        · exact absurd hx not_mem_nil
        · obtain ⟨_, _, rfl⟩ := mem_map.mp hx
          rfl
      · exact absurd hx not_mem_nil
    rw [hk] at hr
    exact hr

theorem Inv.logGathers (hi : Inv stray h []) (tensors : List Nat) : Inv stray (h.logGathers tensors) [] :=
  hi.moved rfl rfl rfl fun _ => rfl

theorem Inv.submitLoad (hi : Inv stray h [])
    (hcl : stray ∨ h.StartsClear .load false a) : Inv stray (submitLoad lay h jobId spec a).1 [] := by
  unfold Handler.submitLoad
  split
  · exact hi
  split
  · exact hi
  split
  · exact hi
  rename_i plan _
  split
  · exact hi
  have hid := hi.takeMappedIds plan
  have hfr := @takeMappedIds_frame h plan
  rcases hd : h.takeMappedIds plan with ⟨ids, g⟩
  rw [hd] at hid hfr
  have hac := hid.acquired (hcl.imp_right (·.congr hfr.1 (hfr.2 _)))
  simp only
  generalize g.acquireAsyncResources .load false a = outcome at hac ⊢
  cases hac with
  | failed hfa => exact release (by rwa [append_nil])
  | taken hta hwa hsr =>
    refine (launch (t := ⟨jobId, _, _, _, plan.numTransferBytes, none, ids, true, false⟩) hta hwa
      (fun x hx r hr => ?_) hsr).logGathers _
    obtain ⟨k, hk, rfl⟩ := mem_map.mp hx
    have hmem := loadKernels_refs hk hr
    simp only [Transfer.resources, mem_cons, mem_append]
    exact .inr (.inr (.inr (.inr hmem)))

/-! ## The end of transfers -/

theorem Inv.finishLoop : ∀ {fuel : Nat} {h : Handler}, Inv stray h [] → Inv stray (finishLoop dir fuel h).1 []
  | 0, _, hi => hi
  | fuel + 1, h, hi => by
    unfold Handler.finishLoop
    split
    · exact hi
    rename_i t rest hq
    split
    · exact hi
    rename_i hd
    simp only [not_or, Bool.not_eq_true, Bool.not_eq_false] at hd
    have hm : t ∈ h.transfers := mem_transfers.mpr ⟨dir, hq ▸ mem_cons_self⟩
    have hidle := (hi.ended t hm hd.1).eq_nil_of_query hd.2
    exact finishLoop (hi.popTransfer hq hidle).recycle

theorem Inv.getFinished (hi : Inv stray h []) : Inv stray h.getFinished.1 [] := by
  exact finishLoop (finishLoop hi)

theorem Inv.waitLoop : ∀ {jobs : List (Direction × JobId)} {ans : List Bool} {h : Handler}, Inv stray h [] →
    Inv stray (waitLoop jobs ans h).1 []
  | [], _, _, hi => hi
  | (dir, job) :: jobs, ans, h, hi => by
    unfold Handler.waitLoop
    split
    · exact waitLoop hi
    split
    · exact waitLoop (hi.progress progress_syncEvent)
    · exact hi

theorem Inv.drainLoop : ∀ {fuel : Nat} {ans : List Bool} {h : Handler}, Inv stray h [] →
    Inv stray (drainLoop dir fuel ans h).1 []
  | 0, _, _, hi => hi
  | fuel + 1, ans, h, hi => by
    unfold Handler.drainLoop
    split
    · exact hi
    rename_i t rest hq
    split
    · have hm : t ∈ h.transfers := mem_transfers.mpr ⟨dir, hq ▸ mem_cons_self⟩
      have hq' : ∀ d, (({ h with device := d } : Handler).state dir).transfers = t :: rest := fun d => by
        rw [← hq]
        cases dir <;> rfl
      cases hs : t.needsStreamSync with
      | true =>
        exact drainLoop ((hi.progress progress_syncStream).popTransfer (hq' _) Device.onStream_syncStream_self).release
      | false =>
        exact drainLoop ((hi.progress progress_syncEvent).popTransfer (hq' _)
          (Device.onStream_syncEvent_nil (hi.ended t hm hs))).release
    · exact hi

theorem Inv.drain (hi : Inv stray h []) (dir : Direction) (ans : List Bool) : Inv stray (h.drain dir ans).1 [] := by
  have hd : Inv stray (Handler.drainLoop dir (h.state dir).transfers.length ans h).1 [] := hi.drainLoop
  unfold Handler.drain
  simp only
  split
  · exact hd.setState rfl fun _ => rfl
  · exact hd

theorem Inv.clearPools (hi : Inv stray h []) : Inv stray h.clearPools [] := by
  refine hi.moved rfl rfl rfl fun r => ?_
  rw [count_holdings, count_holdings]
  simp only [Handler.clearPools, Handler.release, freePools, count, count_append, map_nil, count_nil]
  omega

theorem Inv.closeMappedPool (hi : Inv stray h []) (unregister : Nat → Bool) :
    Inv stray (h.closeMappedPool unregister).1 [] := by
  unfold Handler.closeMappedPool
  split
  · exact hi.moved rfl rfl rfl fun _ => rfl
  split
  · exact hi
  · simp only
    split <;> exact hi.moved rfl rfl rfl fun _ => rfl

theorem Inv.shutdown (hi : Inv stray h []) : Inv stray (h.shutdown ans unregister error).1 [] := by
  unfold Handler.shutdown
  split
  · exact hi
  have hs := hi.drain .store ans
  generalize h.drain .store ans = outcome at hs ⊢
  obtain ⟨g, rest, ok⟩ := outcome
  cases ok with
  | false => exact hs
  | true =>
    have hl := hs.drain .load rest
    simp only at hl ⊢
    generalize g.drain .load rest = outcome at hl ⊢
    obtain ⟨g', rest', ok⟩ := outcome
    cases ok with
    | false => exact hl
    | true =>
      have hc := hl.closeMappedPool unregister
      simp only at hc ⊢
      generalize g'.closeMappedPool unregister = outcome at hc ⊢
      obtain ⟨g'', _ | e⟩ := outcome
      · exact hc.clearPools
      · exact hc

def Clear (h : Handler) : Event → Prop
  | .submitStore _ _ a => h.StartsClear .store true a
  | .submitLoad _ _ a => h.StartsClear .load false a
  | _ => True

theorem Inv.step (e : Event) (hi : Inv stray h []) (hc : stray ∨ h.Clear e) : Inv stray (h.step lay e) [] := by
  cases e with
  | submitStore jobId spec a => exact hi.submitStore hc
  | submitLoad jobId spec a => exact hi.submitLoad hc
  | getFinished => exact hi.getFinished
  | wait jobIds ans => exact hi.waitLoop
  | shutdown ans unregister error => exact hi.shutdown
  | advance str => exact hi.progress (progress_advance str)

theorem inv_start : Inv stray { mappedHandles := handles } [] where
  owned _ := by simp [holdings, freePools, transfers]
  working _ hop := absurd hop not_mem_nil
  ended _ ht := absurd ht not_mem_nil

theorem Inv.of_run
    (hc : Run.Guarded (Handler.step lay) (fun h e => stray ∨ h.Clear e) { mappedHandles := handles } events) :
    Inv stray (events.foldl (Handler.step lay) { mappedHandles := handles }) [] :=
  Run.Guarded.inv (P := (Inv stray · [])) (fun _ e hi hc => hi.step e hc) inv_start hc

/-! ## Nothing is let go -/

def idBuffers (h : Handler) (hand : List MappedIdBuffers) : List MappedIdBuffers :=
  h.loadIdPool ++ h.transfers.filterMap Transfer.mappedIdBuffers ++ hand

structure Kept (h : Handler) (hand : List MappedIdBuffers) : Prop where
  released : h.released = []
  room : (h.idBuffers hand).length ≤ idBufferCacheSize
  small : ∀ b ∈ h.idBuffers hand, b.capacity ≤ maxCachedIds

variable {ids ids' : List MappedIdBuffers}

theorem Kept.congr (hk : Kept h ids) (hr : h'.released = h.released)
    (hp : (h'.idBuffers ids').Perm (h.idBuffers ids)) : Kept h' ids' where
  released := hr.trans hk.released
  room := hp.length_eq.symm ▸ hk.room
  small b hb := hk.small b (hp.mem_iff.mp hb)

theorem Kept.setState (hk : Kept h ids) (hst : st.transfers = (h.state dir).transfers) : Kept (h.setState dir st) ids := by
  refine hk.congr (by cases dir <;> rfl) ?_
  rw [idBuffers, idBuffers, transfers_setState hst]
  cases dir <;> exact .refl _

theorem Kept.recycleIds {b : Option MappedIdBuffers} (hk : Kept h b.toList) : Kept (h.recycleIds b) [] := by
  cases b with
  | none => exact hk
  | some b =>
    have hs := hk.small b (by simp [idBuffers])
    have hr : h.loadIdPool.length < idBufferCacheSize := by
      have := hk.room
      simp only [idBuffers, length_append, Option.toList_some, length_singleton] at this
      omega
    rw [Handler.recycleIds, releaseMappedIds, if_pos ⟨hs, hr⟩]
    refine hk.congr rfl ?_
    simp only [idBuffers, Option.toList_some, append_nil, append_assoc]
    exact perm_append_comm.append_left _

theorem Kept.recycle (hk : Kept h t.mappedIdBuffers.toList) : Kept (h.recycleTransferResources dir t) [] := by
  have hba : ∀ {g : Handler} {b : Option Descriptor}, Kept g t.mappedIdBuffers.toList →
      Kept (g.recycleBatch b) t.mappedIdBuffers.toList := fun {g b} hg => by
    cases b <;> exact hg.congr rfl (.refl _)
  exact Kept.recycleIds (hba (hk.setState rfl))

theorem filterMap_singleton : ([t] : List Transfer).filterMap Transfer.mappedIdBuffers = t.mappedIdBuffers.toList := by
  rw [filterMap_cons]
  cases t.mappedIdBuffers <;> rfl

theorem Kept.queued (hk : Kept h t.mappedIdBuffers.toList)
    (ht : st.transfers = (h.state dir).transfers ++ [t]) : Kept ({ h with device := d }.setState dir st) [] := by
  refine hk.congr (by cases dir <;> rfl) ?_
  rw [perm_iff_count]
  intro b
  cases dir <;> simp only [state] at ht <;>
    simp only [idBuffers, transfers, Handler.setState, ht, filterMap_append, filterMap_singleton,
      count_append, count_nil] <;> omega

theorem Kept.popTransfer (hk : Kept h []) (hq : (h.state dir).transfers = t :: rest) :
    Kept (h.popTransfer dir t) t.mappedIdBuffers.toList := by
  refine hk.congr (by cases dir <;> rfl) ?_
  rw [perm_iff_count]
  intro b
  have hc : (t :: rest).filterMap Transfer.mappedIdBuffers =
      t.mappedIdBuffers.toList ++ rest.filterMap Transfer.mappedIdBuffers := by
    rw [← filterMap_singleton, ← filterMap_append, singleton_append]
  cases dir <;> simp only [state] at hq <;>
    simp only [idBuffers, transfers, Handler.popTransfer, Handler.setState, state, hq, tail_cons, hc,
      filterMap_append, count_append, count_nil] <;> omega

theorem Kept.device (hk : Kept h ids) : Kept { h with device := d } ids := hk.congr rfl (.refl _)

theorem Kept.preserved (hk : Kept h t.mappedIdBuffers.toList) :
    Kept (h.preserveFailedSubmission dir t inflight recorded a) [] := by
  have hf : Kept h { t with success := false }.mappedIdBuffers.toList := hk
  unfold preserveFailedSubmission
  split
  · split
    · unfold trackSubmission
      exact hf.queued rfl
    split
    · exact hf.device.recycle
    · have hs : Kept h { t with success := false, needsStreamSync := true }.mappedIdBuffers.toList := hk
      exact hs.queued rfl
  · split
    · exact hf.queued rfl
    · exact hf.recycle

theorem Kept.launch (hk : Kept h t.mappedIdBuffers.toList) : Kept (h.launch dir t kernels raised a).1 [] := by
  have hp : ∀ wks inflight recorded,
      Kept ((h.enqueue t.stream wks).preserveFailedSubmission dir t inflight recorded a) [] :=
    fun _ _ _ => Kept.preserved hk.device
  have ht : ∀ wks, Kept ((h.enqueue t.stream wks).trackSubmission dir t) [] := fun wks => by
    exact hk.queued rfl
  unfold Handler.launch
  split
  · have hs := hp [] false false
    rw [enqueue, map_nil, append_nil] at hs
    exact hs
  have hr := hp (.record t.startEvent :: a.queued kernels) true false
  simp only
  split
  · exact hr
  split
  · exact hr
  split
  · exact hr
  rw [enqueue_enqueue]
  split
  · exact hp _ true true
  · exact ht _

theorem Kept.popped (hk : Kept h ids) (hp : Popped h dir out) : Kept out.2 ids := by
  cases hp with
  | made => exact hk.congr rfl (.refl _)
  | pooled ht _ => exact hk.setState ht

theorem Kept.acquire (hk : Kept h ids) (hp : (h.state dir).poisoned = false) (hw : w = true → a.waitOk = true) :
    ∃ h' str sev eev,
      h.acquireAsyncResources dir w a = (h', .ok (str, sev, eev)) ∧ Kept h' ids := by
  have hk := ((hk.popped (popped_popStream h dir)).popped (popped_popEvent _ dir)).popped (popped_popEvent _ dir)
  unfold acquireAsyncResources
  rw [if_neg (by rw [hp]; exact Bool.false_ne_true)]
  simp only
  rw [if_neg fun hf => hf.2 (hw hf.1)]
  exact ⟨_, _, _, _, rfl, hk.device⟩

theorem Kept.takeDescriptor (hk : Kept h ids) (hf : ∀ b ∈ h.storeDescriptorPool.head?, n ≤ b.numel) :
    Kept (h.takeDescriptor n).2 ids := by
  unfold Handler.takeDescriptor
  split
  · exact hk.congr rfl (.refl _)
  rename_i b pool hp
  rw [if_neg (Nat.not_lt.mpr (hf b (by rw [hp]; rfl)))]
  exact hk.congr rfl (.refl _)

theorem idCapacity_le (hn : n ≤ maxCachedIds) : idCapacity n ≤ maxCachedIds := by
  rw [idCapacity, if_pos hn]
  exact Nat.min_le_right _ _

theorem Kept.acquireMappedIds (hke : Kept h []) (hn : n ≤ maxCachedIds)
    (hro : bestFit n h.loadIdPool none ≠ none ∨ (h.idBuffers []).length < idBufferCacheSize) :
    Kept (h.acquireMappedIds n).2 [(h.acquireMappedIds n).1] := by
  unfold Handler.acquireMappedIds
  split
  · next b hbe =>
    have hb : b ∈ h.loadIdPool := (bestFit_mem hbe).resolve_right (fun hnone => by cases hnone)
    refine hke.congr rfl ?_
    rw [perm_iff_count]
    intro c
    have hperm := (perm_cons_erase hb).count_eq c
    have hsame : ({ h with loadIdPool := h.loadIdPool.erase b } : Handler).transfers = h.transfers := rfl
    simp only [idBuffers, hsame, count_append, count_cons, count_nil] at hperm ⊢
    omega
  · next hbe =>
    have hro' := hro.resolve_left (not_not.mpr hbe)
    have hid : ({ h with nextId := h.nextId + 1 } : Handler).idBuffers [⟨h.nextId, idCapacity n⟩] =
        h.idBuffers [] ++ [⟨h.nextId, idCapacity n⟩] := by
      rw [idBuffers, idBuffers, append_nil]
      rfl
    refine ⟨hke.released, ?_, fun b hb => ?_⟩
    · rw [hid, length_append]
      exact hro'
    · rw [hid] at hb
      rcases mem_append.mp hb with hb | hb
      · exact hke.small b hb
      · rw [mem_singleton.mp hb]
        exact idCapacity_le hn

theorem Kept.finishLoop : ∀ {fuel : Nat} {h : Handler}, Kept h [] → Kept (finishLoop dir fuel h).1 []
  | 0, _, hk => hk
  | fuel + 1, h, hk => by
    unfold Handler.finishLoop
    split
    · exact hk
    rename_i t rest hq
    split
    · exact hk
    · exact Kept.finishLoop (hk.popTransfer hq).recycle

theorem Kept.waitLoop : ∀ {jobs : List (Direction × JobId)} {ans : List Bool} {h : Handler}, Kept h [] →
    Kept (waitLoop jobs ans h).1 []
  | [], _, _, hk => hk
  | (dir, job) :: jobs, ans, h, hk => by
    unfold Handler.waitLoop
    split
    · exact Kept.waitLoop hk
    split
    · exact Kept.waitLoop hk.device
    · exact hk

/-- A submission keeps what it takes, the pool of id buffers has room for all of them, and there is no shutdown. -/
def Keeps (layout : Layout) (h : Handler) : Event → Prop
  | .submitStore _ spec a => ∀ cpu plan, h.closed = false → spec.cpu = some cpu →
      layout.makeTransferPlan spec.npu cpu spec = .ok plan →
      (∀ b ∈ h.storeDescriptorPool.head?, plan.numCopyOps ≤ b.numel) ∧
        layout.checkStoreDescriptors plan = .ok () ∧ h.storeState.poisoned = false ∧ a.waitOk = true
  | .submitLoad _ spec _ => ∀ cpu plan, h.closed = false → spec.cpu = some cpu →
      layout.makeTransferPlan cpu spec.npu spec = .ok plan → checkLoad layout cpu spec.npu plan = .ok () →
      0 < plan.srcBlocks.length → h.loadState.poisoned = false ∧ plan.srcBlocks.length ≤ maxCachedIds ∧
        (bestFit plan.srcBlocks.length h.loadIdPool none ≠ none ∨ (h.idBuffers []).length < idBufferCacheSize)
  | .shutdown .. => h.closed = true
  | _ => True

theorem Kept.submitStore (hke : Kept h []) (hkee : h.Keeps lay (.submitStore jobId spec a)) :
    Kept (submitStore lay h jobId spec a).1 [] := by
  unfold Handler.submitStore
  split
  · exact hke
  rename_i hop
  split
  · exact hke
  rename_i cpu hcp
  split
  · exact hke
  rename_i plan hpl
  obtain ⟨hfi, hch, hpo, hwa⟩ := hkee cpu plan (Bool.eq_false_iff.mpr hop) hcp hpl
  have hba := hke.takeDescriptor hfi
  have hfr := @takeDescriptor_frame h plan.numCopyOps
  generalize h.takeDescriptor plan.numCopyOps = taken at hba hfr ⊢
  obtain ⟨batch, g⟩ := taken
  have hpo' := (congrArg AsyncState.poisoned (hfr.2 .store)).trans hpo
  obtain ⟨g', str, sev, eev, hok, hac⟩ := hba.acquire hpo' fun _ : true = true => hwa
  simp only [hch, hok]
  exact Kept.launch hac

theorem Kept.submitLoad (hke : Kept h []) (hkee : h.Keeps lay (.submitLoad jobId spec a)) :
    Kept (submitLoad lay h jobId spec a).1 [] := by
  unfold Handler.submitLoad
  split
  · exact hke
  rename_i hop
  split
  · exact hke
  rename_i cpu hcp
  split
  · exact hke
  rename_i plan hpl
  split
  · exact hke
  rename_i hch
  have hkee := hkee cpu plan (Bool.eq_false_iff.mpr hop) hcp hpl hch
  rw [takeMappedIds]
  by_cases hid : 0 < plan.srcBlocks.length
  · obtain ⟨hpo, hsm, hro⟩ := hkee hid
    rw [if_pos hid]
    have hta := hke.acquireMappedIds hsm hro
    have hfr := @acquireMappedIds_frame h plan.srcBlocks.length
    generalize h.acquireMappedIds plan.srcBlocks.length = taken at hta hfr ⊢
    obtain ⟨b, g⟩ := taken
    have hpo' := (congrArg AsyncState.poisoned (hfr.2 .load)).trans hpo
    obtain ⟨g', str, sev, eev, hok, hac⟩ :=
      hta.acquire (a := a) hpo' fun hw : false = true => by cases hw
    simp only [hok]
    exact (Kept.launch (t := ⟨jobId, str, sev, eev, _, none, some b, true, false⟩) hac).congr rfl (.refl _)
  · rw [if_neg hid]
    by_cases hpo : (h.state .load).poisoned = true
    · simp only [acquireAsyncResources, if_pos hpo]
      exact hke.congr (append_nil _) (.refl _)
    · obtain ⟨g', str, sev, eev, hok, hac⟩ :=
        hke.acquire (a := a) (Bool.eq_false_iff.mpr hpo) fun hw : false = true => by cases hw
      simp only [hok]
      exact (Kept.launch (t := ⟨jobId, str, sev, eev, _, none, none, true, false⟩) hac).congr rfl (.refl _)

theorem Kept.step (e : Event) (hk : Kept h []) (hke : h.Keeps lay e) : Kept (h.step lay e) [] := by
  cases e with
  | submitStore jobId spec a => exact hk.submitStore hke
  | submitLoad jobId spec a => exact hk.submitLoad hke
  | getFinished => exact Kept.finishLoop (Kept.finishLoop hk)
  | wait jobIds ans => exact Kept.waitLoop hk
  | shutdown ans unregister error =>
    have hc : h.closed = true := hke
    rw [Handler.step, Handler.shutdown, if_pos hc]
    exact hk
  | advance str => exact hk.device

theorem kept_start : Kept { mappedHandles := handles } [] where
  released := rfl
  room := Nat.zero_le _
  small _ hb := absurd hb not_mem_nil

/-! ## The whole -/

theorem Inv.notMem_of_free (hi : Inv stray h []) (hr : r ∈ h.freePools ∨ r ∈ h.released)
    (ht : t ∈ h.transfers) : r ∉ t.resources := fun hm => by
  have hc := hi.owned r
  have hre : (h.transfers.flatMap Transfer.resources).count r ≥ 1 := count_pos_iff.mpr (mem_flatMap.mpr ⟨t, ht, hm⟩)
  rw [holdings, count_append, count_append, count_nil] at hc
  rcases hr with hr | hr <;> have := count_pos_iff.mpr hr <;> split at hc <;> omega

/-- Each resource is in one place; where start events are clear and what is taken is kept, in a pool or a transfer. -/
theorem mapped_resources (layout : Layout) (handles : List Nat) (events : List Event) :
    let h := events.foldl (Handler.step layout) { mappedHandles := handles }
    (∀ r < h.nextId, h.holdings.count r = 1) ∧
    (∀ r, r ∈ h.freePools ∨ r ∈ h.released → ∀ op ∈ h.device, r ∉ op.work.refs) ∧
    (Run.Guarded (Handler.step layout) Clear { mappedHandles := handles } events →
      ∀ r, r ∈ h.freePools ∨ r ∈ h.released → ¬ h.device.Refers r) ∧
    (Run.Guarded (Handler.step layout) (Keeps layout) { mappedHandles := handles } events →
      ∀ r < h.nextId, (h.freePools ++ h.transfers.flatMap Transfer.resources).count r = 1) := by
  intro h
  have hlo : Inv True h [] := Inv.of_run (Run.guarded_of_forall fun _ _ => .inl trivial)
  have hone : ∀ r < h.nextId, h.holdings.count r = 1 := fun r hr => by
    have := hlo.owned r
    rwa [if_pos hr, count_nil, Nat.add_zero] at this
  refine ⟨hone, fun r hr op hop hrf => ?_, fun hcl r hr ⟨op, hop, hre⟩ => ?_, fun hke r hr => ?_⟩
  · rcases hlo.working op hop with ⟨-, hwa⟩ | ⟨t, ht, -, hrs⟩
    · rw [hwa] at hrf
      exact absurd hrf not_mem_nil
    · exact hlo.notMem_of_free hr ht (hrs r hrf)
  · have hst : Inv False h [] := Inv.of_run (hcl.imp fun _ _ hc => .inr hc)
    obtain ⟨t, ht, hse, hrs⟩ := (hst.working op hop).resolve_left fun hsa => hsa.1
    refine hst.notMem_of_free hr ht ?_
    rcases hre with hre | hre
    · rw [← hre, hse]
      exact mem_cons_self
    · exact hrs r hre
  · have hkp : Kept h [] := Run.Guarded.inv (P := (Kept · [])) (fun _ e hkp hke => hkp.step e hke) kept_start hke
    have := hone r hr
    rwa [holdings, hkp.released, append_nil] at this

def oneTensor : Layout := ⟨[[⟨0, 32⟩]], [4], [4]⟩

def oneBlock : Spec := ⟨{ ids := [0] }, [1], 1, some { ids := [0] }⟩

def storeAndFinish : List Event := [.submitStore 1 oneBlock {}, .advance 1, .advance 1, .advance 1, .getFinished]

theorem mapped_resources_store : let h := storeAndFinish.foldl (Handler.step oneTensor) { mappedHandles := [9] }
    h.nextId = 4 ∧ (∀ r ∈ h.freePools, ¬ h.device.Refers r) ∧
      ∀ r < h.nextId, (h.freePools ++ h.transfers.flatMap Transfer.resources).count r = 1 := by
  obtain ⟨-, -, hidle, ho⟩ := mapped_resources oneTensor [9] storeAndFinish
  have hp : oneTensor.makeTransferPlan oneBlock.npu { ids := [0] } oneBlock = .ok ⟨[0], [0], [1], 1, 32⟩ := rfl
  have hk : Keeps oneTensor { mappedHandles := [9] } (.submitStore 1 oneBlock {}) := by
    intro cpu plan _ hc hok
    cases hc
    cases hp.symm.trans hok
    exact ⟨fun _ hb => absurd hb (Option.not_mem_none _), rfl, rfl, rfl⟩
  refine ⟨by decide, fun r hr => hidle ?_ r (.inl hr), ho ?_⟩
  · exact ⟨.inl rfl, trivial, trivial, trivial, trivial, trivial⟩
  · exact ⟨hk, trivial, trivial, trivial, trivial, trivial⟩

/-- A stream is free with a wait on it; then a stream cannot be synchronised, and a buffer of the pool is lost. -/
def failedStores : List Event :=
  [.submitStore 1 oneBlock {}, .submitStore 2 oneBlock { startOk := false }, .advance 1, .advance 1, .advance 1,
    .getFinished, .submitStore 3 oneBlock { copyOk := false, retryOk := false, syncOk := false },
    .submitStore 4 oneBlock {}]

def afterStores (n : Nat) : Handler := (failedStores.take n).foldl (Handler.step oneTensor) { mappedHandles := [9] }

theorem stream_free_behind_wait : (5 ∈ (afterStores 2).freePools ∧ (afterStores 2).device.Refers 5) ∧
    4 ∈ (afterStores 7).freePools ∧ 4 < (afterStores 8).nextId ∧
      4 ∉ (afterStores 8).freePools ++ (afterStores 8).transfers.flatMap Transfer.resources := by
  decide

end Handler

end VllmAscend.Mapped
