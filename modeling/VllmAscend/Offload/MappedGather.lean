import VllmAscend.Lib.Run
import VllmAscend.Offload.Mapped

/-!
# Gathers from registered memory

A gather reads a CPU tensor through its registration, which `shutdown` releases
lease by lease. The handler keeps the leases it could not release, and its check
before a gather is that it has any.
-/

namespace VllmAscend.Mapped.Handler

open Python Run List

/-! ## The leases of a handler -/

def leases (h : Handler) : List Nat × Bool × List Nat × List (Nat × List Nat) :=
  (h.mappedHandles, h.gatherActive, h.registered, h.gathers)

section
variable {h h' : Handler}

theorem mappedHandles_of_leases (hl : h'.leases = h.leases) : h'.mappedHandles = h.mappedHandles :=
  congrArg Prod.fst hl

@[simp] theorem leases_setState (st : AsyncState) : (h.setState dir st).leases = h.leases := by cases dir <;> rfl

@[simp] theorem leases_release (ids : List Nat) : (h.release ids).leases = h.leases := rfl

@[simp] theorem leases_enqueue (stream : Nat) (works : List Streams.Work) : (h.enqueue stream works).leases = h.leases :=
  rfl

@[simp] theorem leases_popStream : (h.popStream dir).2.leases = h.leases := by
  unfold popStream
  split
  · rfl
  · exact leases_setState _

@[simp] theorem leases_popEvent : (h.popEvent dir).2.leases = h.leases := by
  unfold popEvent
  split
  · rfl
  · exact leases_setState _

@[simp] theorem leases_takeDescriptor (n : Nat) : (h.takeDescriptor n).2.leases = h.leases := by
  unfold takeDescriptor
  split
  · rfl
  · split <;> rfl

@[simp] theorem leases_takeMappedIds (plan : Plan) : (h.takeMappedIds plan).2.leases = h.leases := by
  unfold takeMappedIds
  split
  · simp only [acquireMappedIds]
    split <;> rfl
  · rfl

@[simp] theorem leases_recycleTransferResources : (h.recycleTransferResources dir t).leases = h.leases := by
  have hb : ∀ (h : Handler) (b : Option Descriptor), (h.recycleBatch b).leases = h.leases := fun h b => by
    cases b <;> rfl
  have hi : ∀ (h : Handler) (b : Option MappedIdBuffers), (h.recycleIds b).leases = h.leases := fun h b => by
    cases b with
    | none => rfl
    | some b =>
      simp only [recycleIds, releaseMappedIds]
      split <;> rfl
  rw [recycleTransferResources, hi, hb, leases_setState]

@[simp] theorem leases_trackSubmission : (h.trackSubmission dir t).leases = h.leases := leases_setState _

theorem leases_acquireAsyncResources (w : Bool) : (h.acquireAsyncResources dir w a).1.leases = h.leases := by
  unfold acquireAsyncResources
  split
  · rfl
  simp only
  split
  · simp
  · simp [queueWaits]

theorem leases_preserveFailedSubmission (inflight recorded : Bool) :
    (h.preserveFailedSubmission dir t inflight recorded a).leases = h.leases := by
  unfold preserveFailedSubmission
  split
  · split
    · simp
    split
    · rw [leases_recycleTransferResources]; rfl
    · exact leases_setState _
  · split <;> simp

theorem leases_launch (kernels : List Streams.Work) (raised : Option PyError) :
    (h.launch dir t kernels raised a).1.leases = h.leases := by
  unfold launch
  split
  · exact leases_preserveFailedSubmission _ _
  simp only
  split
  · simp [leases_preserveFailedSubmission]
  cases raised with
  | some e => simp [leases_preserveFailedSubmission]
  | none =>
    simp only
    split
    · simp [leases_preserveFailedSubmission]
    split
    · simp [leases_preserveFailedSubmission]
    · simp

theorem leases_submitStore (lay : Layout) (jobId : JobId) (spec : Spec) :
    (submitStore lay h jobId spec a).1.leases = h.leases := by
  unfold submitStore
  split
  · rfl
  split
  · rfl
  split
  · rfl
  rename_i plan _
  have ht : (h.takeDescriptor plan.numCopyOps).2.leases = h.leases := leases_takeDescriptor _
  simp only
  split
  · exact ht
  have ha := @leases_acquireAsyncResources (h.takeDescriptor plan.numCopyOps).2 .store a true
  split <;> rename_i heq <;> rw [heq] at ha
  · exact ha.trans ht
  · rw [leases_launch]
    exact ha.trans ht

/-- A gather is only queued while the handler has a lease, and from a tensor of the layout. -/
theorem gathers_loadKernels {lay : Layout} {a : Launch}
    (ht : tensor ∈ (a.queued (loadKernels lay h plan ids).1).filterMap Prod.snd) :
    h.mappedHandles ≠ [] ∧ ∃ refs ∈ lay.groupRefs, ∃ ref ∈ refs, ref.tensorIdx = tensor := by
  obtain ⟨k, hk, ht⟩ := mem_filterMap.mp ht
  have hk := a.queued_subset _ hk
  cases ids with
  | none =>
    rw [loadKernels] at hk
    split at hk <;> cases hk
  | some b =>
    rw [loadKernels, runMappedGather] at hk
    split at hk
    · split at hk
      · cases hk
      rename_i hon
      refine ⟨fun hn => hon (.inr hn), ?_⟩
      simp only [mem_cons, mem_flatMap] at hk
      rcases hk with rfl | rfl | ⟨group, hg, hk⟩
      · cases ht
      · cases ht
      split at hk
      · cases hk
      · obtain ⟨ref, hr, rfl⟩ := mem_map.mp hk
        cases ht
        exact ⟨_, (of_mem_zip hg).2, ref, hr, rfl⟩
    · cases hk

theorem leases_logGathers (hl : h'.leases = h.leases) (tensors : List Nat) :
    (h'.logGathers tensors).leases = (h.logGathers tensors).leases := by
  simp only [leases, Prod.mk.injEq] at hl
  obtain ⟨hm, ha, hr, hg⟩ := hl
  simp only [leases, logGathers, hm, ha, hr, hg]

theorem leases_submitLoad (lay : Layout) (jobId : JobId) (spec : Spec) : ∃ tensors,
    (submitLoad lay h jobId spec a).1.leases = (h.logGathers tensors).leases ∧ ∀ tensor ∈ tensors,
      h.mappedHandles ≠ [] ∧ ∃ refs ∈ lay.groupRefs, ∃ ref ∈ refs, ref.tensorIdx = tensor := by
  have hno : h.leases = (h.logGathers []).leases := by simp [leases, logGathers]
  unfold submitLoad
  split
  · exact ⟨[], hno, nofun⟩
  split
  · exact ⟨[], hno, nofun⟩
  split
  · exact ⟨[], hno, nofun⟩
  split
  · exact ⟨[], hno, nofun⟩
  rename_i plan _ _ _
  have ht : (h.takeMappedIds plan).2.leases = h.leases := leases_takeMappedIds _
  simp only
  have ha := (@leases_acquireAsyncResources (h.takeMappedIds plan).2 .load a false).trans ht
  split <;> rename_i heq <;> rw [heq] at ha
  · exact ⟨[], ha.trans hno, nofun⟩
  · refine ⟨_, leases_logGathers ((leases_launch _ _).trans ha) _, fun tensor htensor => ?_⟩
    have hsame := mappedHandles_of_leases ha
    exact hsame ▸ gathers_loadKernels htensor

theorem leases_finishLoop : ∀ {fuel : Nat} {h : Handler}, (finishLoop dir fuel h).1.leases = h.leases
  | 0, _ => rfl
  | fuel + 1, h => by
    unfold finishLoop
    split
    · rfl
    split
    · rfl
    simp only
    rw [leases_finishLoop, leases_recycleTransferResources]
    exact leases_setState _

theorem leases_waitLoop : ∀ {jobs : List (Direction × JobId)} {answers : List Bool} {h : Handler},
    (waitLoop jobs answers h).1.leases = h.leases
  | [], _, _ => rfl
  | _ :: _, _, _ => by
    unfold waitLoop
    split
    · exact leases_waitLoop
    split
    · rw [leases_waitLoop]; rfl
    · rfl

theorem leases_drainLoop : ∀ {fuel : Nat} {answers : List Bool} {h : Handler},
    (drainLoop dir fuel answers h).1.leases = h.leases
  | 0, _, _ => rfl
  | fuel + 1, _, h => by
    unfold drainLoop
    split
    · rfl
    split
    · simp only
      rw [leases_drainLoop, leases_release]
      exact leases_setState _
    · rfl

theorem leases_drain (dir : Direction) (answers : List Bool) : (h.drain dir answers).1.leases = h.leases := by
  unfold drain
  simp only
  split
  · rw [leases_setState, leases_drainLoop]
  · exact leases_drainLoop

end

/-! ## Runs -/

def start (handles : List Nat) : Handler := { mappedHandles := handles, registered := handles }

/-- What the handler holds is registered, and so was each tensor when it was gathered from. -/
structure Safe (handles : List Nat) (h : Handler) : Prop where
  held : ∀ handle ∈ h.mappedHandles, handle ∈ h.registered
  gathers : ∀ g ∈ h.gathers, ∃ handle, handles[g.1]? = some handle ∧ handle ∈ g.2

def Whole (handles : List Nat) (h : Handler) : Event → Prop
  | .submitLoad _ _ _ => (∀ handle ∈ handles, handle ∈ h.mappedHandles) ∨ h.mappedHandles = []
  | _ => True

section
variable {lay : Layout} {handles : List Nat} {h h' : Handler}

theorem Safe.congr (hs : Safe handles h) (hl : h'.leases = h.leases) : Safe handles h' := by
  simp only [leases, Prod.mk.injEq] at hl
  obtain ⟨hm, -, hr, hg⟩ := hl
  exact ⟨by rw [hm, hr]; exact hs.held, by rw [hg]; exact hs.gathers⟩

theorem Safe.closeMappedPool (hs : Safe handles h) (unregister : Nat → Bool) :
    Safe handles (h.closeMappedPool unregister).1 := by
  unfold Handler.closeMappedPool
  split
  · exact ⟨hs.held, hs.gathers⟩
  split
  · exact hs
  simp only
  split
  · refine ⟨fun handle hm => ?_, hs.gathers⟩
    obtain ⟨hm, hno⟩ := mem_filter.mp hm
    exact mem_filter.mpr ⟨hs.held _ (mem_reverse.mp hm), by simp [hno]⟩
  · exact ⟨nofun, hs.gathers⟩

theorem Safe.shutdown (hs : Safe handles h) : Safe handles (h.shutdown answers unregister error).1 := by
  unfold Handler.shutdown
  split
  · exact hs
  have hst := hs.congr (leases_drain .store answers)
  generalize h.drain .store answers = stores at hst ⊢
  obtain ⟨h1, answers1, drained1⟩ := stores
  cases drained1 with
  | false => exact hst
  | true =>
    have hload := hst.congr (leases_drain .load answers1)
    simp only at hload ⊢
    generalize h1.drain .load answers1 = loads at hload ⊢
    obtain ⟨h2, answers2, drained2⟩ := loads
    cases drained2 with
    | false => exact hload
    | true =>
      have hclose := hload.closeMappedPool unregister
      simp only at hclose ⊢
      generalize h2.closeMappedPool unregister = outcome at hclose ⊢
      obtain ⟨h3, _ | e⟩ := outcome
      · exact hclose.congr rfl
      · exact hclose

theorem Safe.step (hl : ∀ refs ∈ lay.groupRefs, ∀ ref ∈ refs, ref.tensorIdx < handles.length) (e : Event)
    (hs : Safe handles h) (hw : Whole handles h e) : Safe handles (h.step lay e) := by
  cases e with
  | submitStore jobId spec a => exact hs.congr (leases_submitStore lay jobId spec)
  | submitLoad jobId spec a =>
    obtain ⟨tensors, hle, ht⟩ := @leases_submitLoad h a lay jobId spec
    refine Safe.congr (h := h.logGathers tensors) ⟨hs.held, fun g hm => ?_⟩ hle
    rcases mem_append.mp hm with hm | hm
    · exact hs.gathers g hm
    obtain ⟨tensor, htensor, rfl⟩ := mem_map.mp hm
    obtain ⟨hne, refs, hrefs, ref, href, rfl⟩ := ht tensor htensor
    have hlt := hl refs hrefs ref href
    exact ⟨_, getElem?_eq_getElem hlt, hs.held _ (hw.resolve_right hne _ (getElem_mem hlt))⟩
  | getFinished => exact hs.congr (leases_finishLoop.trans leases_finishLoop)
  | wait jobIds answers => exact hs.congr leases_waitLoop
  | shutdown answers unregister error => exact hs.shutdown
  | advance stream => exact hs.congr rfl

/-- As long as loads are submitted with all leases or with none, every gather is from registered memory. -/
theorem gathers_registered (layout : Layout) (handles : List Nat)
    (hl : ∀ refs ∈ layout.groupRefs, ∀ ref ∈ refs, ref.tensorIdx < handles.length) (events : List Event)
    (h : Guarded (Handler.step layout) (Whole handles) (start handles) events) :
    ∀ g ∈ (events.foldl (Handler.step layout) (start handles)).gathers,
      ∃ handle, handles[g.1]? = some handle ∧ handle ∈ g.2 := by
  have hsafe : Safe handles (events.foldl (Handler.step layout) (start handles)) :=
    Guarded.inv (fun _ e hs he => hs.step hl e he) ⟨fun _ hm => hm, nofun⟩ h
  exact hsafe.gathers

end

/-! ## Two tensors -/

def twoTensors : Layout := ⟨[[⟨0, 32⟩], [⟨1, 32⟩]], [4, 4], [4, 4]⟩

def secondGroup : Spec := ⟨{ ids := [0] }, [0, 1], 2, some { ids := [0] }⟩

def halfShutdown : Event := .shutdown [] (· = 12) (.runtimeError "")

def loadFirst : List Event := [.submitLoad 1 secondGroup {}, halfShutdown]

theorem gathers_registered_loadFirst : let h := loadFirst.foldl (Handler.step twoTensors) (start [11, 12])
    (∀ g ∈ h.gathers, ∃ handle, [11, 12][g.1]? = some handle ∧ handle ∈ g.2) ∧ h.gathers = [(1, [11, 12])] :=
  ⟨gathers_registered twoTensors [11, 12] (by decide) loadFirst ⟨.inl fun _ h => h, trivial, trivial⟩, by decide⟩

/-- After the failed shutdown the handler still accepts a load, and gathers from the second tensor. -/
theorem gather_unregistered : ([halfShutdown, .submitLoad 1 secondGroup {}].foldl (Handler.step twoTensors)
    (start [11, 12])).gathers = [(1, [11])] := by decide

end VllmAscend.Mapped.Handler
