import VllmAscend.Pearl.Lossless

/-!
# Continuous and preemptive batching

The loop of a continuous batch on one replica, with rounds that may do anything
to the requests they are given.
-/

namespace VllmAscend

open Python Run List Option

variable {run : PearlRun} {r r' : PearlRank}

/-! ## Runs of the loop -/

structure Decoded (r : PearlRank) (active : List Nat) (r' : PearlRank) : Prop where
  states : ∀ i, i ∉ active → r'.states i = r.states i
  completed : r'.completedRequestStates = r.completedRequestStates
  active : r'.activeRequestIndices = r.activeRequestIndices
  next : r'.nextRequestIndex = r.nextRequestIndex

inductive Passes (run : PearlRun) (states : States) : List PearlRank → PearlRank → Prop where
  | start : Passes run states [] (run.init states)
  | round {heads : List PearlRank} {r scheduled r' : PearlRank} {active : List Nat} :
    Passes run states heads r → schedule run r = .ok (scheduled, active) → active ≠ [] →
      Decoded scheduled active r' → Passes run states (heads ++ [r]) r'

def firstFinished (eos : Finset Int) (heads : List PearlRank) (i : Nat) : Option PearlPipelineState :=
  (heads.map fun r => r.states i).find? fun s => finished eos s

/-- Live and unfinished requests, then completed ones, as many as one of the two graph shapes. -/
structure RoundBatch (run : PearlRun) (r : PearlRank) (active : List Nat) : Prop where
  nodup : active.Nodup
  lt : ∀ i ∈ active, i < run.requests
  live : ∃ i ∈ active, r.completedRequestStates i = none
  unfinished : ∀ i ∈ active, r.completedRequestStates i = none → finished run.eos (r.states i) = false
  padding : ∀ i ∈ active, r.completedRequestStates i ≠ none → finished run.eos (r.states i) = true
  size : active.length = run.initialBatchSize ∨ active.length = max 1 (run.initialBatchSize / 2)

/-! ## The rounds of the two model groups -/

variable {active : List Nat}

theorem updateRow_decoded
    (hm : row.sequence ∈ active) (h : updateRow run isDraft r row = .ok r') : Decoded r active r' := by
  obtain ⟨s, -, h⟩ := bind_ok.mp h
  cases h
  exact ⟨fun i hi => Function.update_of_ne (fun e : i = row.sequence => hi (by rw [e]; exact hm)) _ _, rfl, rfl, rfl⟩

theorem Decoded.trans (h : Decoded r active r') (h' : Decoded r' active r'') : Decoded r active r'' :=
  ⟨fun i hi => (h'.states i hi).trans (h.states i hi), h'.completed.trans h.completed, h'.active.trans h.active,
    h'.next.trans h.next⟩

theorem foldlM_updateRow_decoded :
    ∀ {rows : List VerdictRow} {r r' : PearlRank}, (∀ row ∈ rows, row.sequence ∈ active) →
      rows.foldlM (updateRow run isDraft) r = .ok r' → Decoded r active r'
  | [], _, _, _, h => by cases h; exact ⟨fun _ _ => rfl, rfl, rfl, rfl⟩
  | row :: rows, r, r', hm, h => by
    rw [foldlM_cons] at h
    obtain ⟨r1, h1, h⟩ := bind_ok.mp h
    exact (updateRow_decoded (hm row (mem_cons_self ..)) h1).trans
      (foldlM_updateRow_decoded (fun row hr => hm row (mem_cons_of_mem _ hr)) h)

theorem mem_verdictUpdates : ∀ row ∈ verdictUpdates r active result, row.sequence ∈ active := fun row hr => by
  obtain ⟨p, hp, rfl⟩ := mem_map.mp hr
  exact (of_mem_zip hp).1

theorem pearlRound_decoded (h : pearlRound run d t draftActive targetActive = .ok (d', t', forwards)) :
    Decoded d draftActive d' ∧ Decoded t targetActive t' := by
  simp only [pearlRound, bind_ok, mapError_ok] at h
  obtain ⟨_, _, _, _, _, _, _, _, _, _, d1, hd, t1, ht, h⟩ := h
  cases h
  have hd' := foldlM_updateRow_decoded mem_verdictUpdates hd
  have ht' := foldlM_updateRow_decoded mem_verdictUpdates ht
  exact ⟨⟨hd'.states, hd'.completed, hd'.active, hd'.next⟩, ⟨ht'.states, ht'.completed, ht'.active, ht'.next⟩⟩

theorem passes_of_reach (h : Reach (pearlIteration run) (run.init draft, run.init target) events ranks) :
    (∃ heads, Passes run draft heads ranks.1) ∧ ∃ heads, Passes run target heads ranks.2 := by
  induction h with
  | start => exact ⟨⟨[], .start⟩, ⟨[], .start⟩⟩
  | step _ hb ih =>
    obtain ⟨⟨dheads, hd⟩, ⟨theads, ht⟩⟩ := ih
    simp only [pearlIteration, bind_ok, mapError_ok] at hb
    obtain ⟨⟨d1, draftActive⟩, hds, ⟨t1, targetActive⟩, hts, hb⟩ := hb
    by_cases hst : draftActive = [] ∧ targetActive = []
    · simp [hst, pure, Except.pure] at hb
    simp only [hst, if_false, ite_throw_bind, bind_ok, not_or] at hb
    obtain ⟨⟨hdn, htn⟩, ⟨d', t', forwards⟩, hro, hb⟩ := hb
    cases hb
    obtain ⟨hd', ht'⟩ := pearlRound_decoded hro
    exact ⟨⟨_, hd.round hds hdn hd'⟩, ⟨_, ht.round hts htn ht'⟩⟩

/-! ## What a run keeps -/

section
variable {st : States} {heads : List PearlRank}

structure Tracked (run : PearlRun) (heads : List PearlRank) (r : PearlRank) : Prop extends Batched run r where
  completed : ∀ i < run.requests, r.completedRequestStates i = firstFinished run.eos heads i
  queued : run.cfg.enablePreemptiveScheduling = false → ∀ i < run.requests, r.nextRequestIndex ≤ i →
    finished run.eos (r.states i) = false

theorem firstFinished_concat (eos : Finset Int) (heads : List PearlRank) (r : PearlRank) (i : Nat) :
    firstFinished eos (heads ++ [r]) i =
      (firstFinished eos heads i).or (if finished eos (r.states i) then some (r.states i) else none) := by
  simp only [firstFinished, map_append, find?_append, map_cons, map_nil, find?_cons, find?_nil]
  cases finished eos (r.states i) <;> rfl

variable {i : Nat}

theorem QueueOk.waiting (hq : QueueOk run r) (hi : i ∉ r.activeRequestIndices)
    (hc : r.completedRequestStates i = none) : r.nextRequestIndex ≤ i := by
  by_contra hlt
  rcases (hq.entered i).mp (by omega) with ha | hs
  · exact hi ha
  · simp [hc] at hs

section
variable (h : Tracked run heads r)
include h

theorem Tracked.mem_finishedRequests (hi : i < run.requests)
    (hc : r.completedRequestStates i = none) : i ∈ finishedRequests run r ↔ finished run.eos (r.states i) = true := by
  refine ⟨fun hf => (VllmAscend.mem_finishedRequests hf).2.1, fun hf => ?_⟩
  have hs : replayedStates r i = r.states i := by rw [replayedStates, hc]; rfl
  unfold finishedRequests
  rw [mem_filter]
  refine ⟨?_, by simp [hc, hs, hf]⟩
  cases hp : run.cfg.enablePreemptiveScheduling with
  | true => simpa using hi
  | false =>
    simp only [Bool.false_eq_true, if_false]
    by_contra hno
    have := h.queued hp i hi ((h.queue hp).waiting hno hc)
    simp [hf] at this

theorem Tracked.refill (hr : Refilled run r r') (hi : i < run.requests) :
    r'.completedRequestStates i = firstFinished run.eos (heads ++ [r]) i := by
  rw [hr.completed, firstFinished_concat, ← h.completed i hi]
  cases hc : r.completedRequestStates i with
  | none =>
    rw [none_or]
    by_cases hf : finished run.eos (r.states i) = true
    · rw [if_pos ((h.mem_finishedRequests hi hc).mpr hf), if_pos hf]
    · rw [if_neg fun hm => hf ((h.mem_finishedRequests hi hc).mp hm), if_neg hf]
  | some s =>
    rw [if_neg fun hm => by simp [(VllmAscend.mem_finishedRequests hm).1] at hc, some_or]

theorem Tracked.refill_queued (hr : Refilled run r r')
    (hp : run.cfg.enablePreemptiveScheduling = false) (hi : i < run.requests) (hn : r.nextRequestIndex ≤ i) :
    finished run.eos (r'.states i) = false := by
  have hq := h.queue hp
  have hc : r.completedRequestStates i = none := by
    rw [← not_isSome_iff_eq_none]
    intro hs
    have := (hq.entered i).mpr (.inr hs)
    omega
  rw [hr.states, replayedStates, hc]
  exact h.queued hp i hi hn

theorem Tracked.unfinished (hr : Refilled run r r')
    (hi : i ∈ r'.activeRequestIndices) : finished run.eos (r'.states i) = false := by
  cases hp : run.cfg.enablePreemptiveScheduling with
  | true => exact hr.unfinished hi (.inl hp)
  | false =>
    rcases hr.entered hp i hi with ho | ⟨-, hn⟩
    · exact hr.unfinished hi (.inr ho)
    · exact h.refill_queued hr hp (hr.live i hi).1 hn

end

theorem continuousBucketSize_cases (n initial : Nat) :
    continuousBucketSize n initial = initial ∨ continuousBucketSize n initial = max 1 (initial / 2) := by
  unfold continuousBucketSize
  simp only
  split
  · exact .inl rfl
  · exact .inr rfl

theorem Tracked.roundBatch (h : Tracked run heads r) (hre : Refilled run r r')
    (hne : r'.activeRequestIndices ≠ []) (hn : (r'.activeRequestIndices ++ padding).Nodup)
    (hpa : ∀ i ∈ padding, i < run.requests ∧ (r'.completedRequestStates i).isSome)
    (hlen : (r'.activeRequestIndices ++ padding).length =
      continuousBucketSize r'.activeRequestIndices.length run.initialBatchSize) :
    RoundBatch run r' (canonicalActiveIndices r'.states (r'.activeRequestIndices ++ padding)) := by
  have hperm := perm_canonicalActiveIndices r'.states (r'.activeRequestIndices ++ padding)
  have hmem : ∀ {i}, i ∈ canonicalActiveIndices r'.states (r'.activeRequestIndices ++ padding) →
      i ∈ r'.activeRequestIndices ∨ i ∈ padding := fun hi => mem_append.mp (hperm.mem_iff.mp hi)
  refine ⟨hperm.nodup_iff.mpr hn, fun i hi => ?_, ?_, fun i hi hc => ?_, fun i hi hc => ?_, ?_⟩
  · rcases hmem hi with hi | hi
    · exact (hre.live i hi).1
    · exact (hpa i hi).1
  · obtain ⟨i, hi⟩ := exists_mem_of_ne_nil _ hne
    exact ⟨i, hperm.mem_iff.mpr (mem_append_left _ hi), (hre.live i hi).2⟩
  · rcases hmem hi with hi | hi
    · exact h.unfinished hre hi
    · have := (hpa i hi).2
      simp [hc] at this
  · rcases hmem hi with hi | hi
    · exact absurd (hre.live i hi).2 hc
    obtain ⟨hlt, hs⟩ := hpa i hi
    obtain ⟨s, hs⟩ := isSome_iff_exists.mp hs
    rw [hre.snapshot hs]
    exact find?_some ((h.refill hre hlt).symm.trans hs)
  · rw [hperm.length_eq, hlen]
    exact continuousBucketSize_cases _ _

theorem Tracked.decoded (h : Tracked run heads r) (hre : Refilled run r r')
    (hact : ∀ i ∈ active, i ∈ r'.activeRequestIndices ∨ (r'.completedRequestStates i).isSome)
    (hd : Decoded r' active r'') : Tracked run (heads ++ [r]) r'' := by
  refine ⟨⟨?_, fun hp => ?_⟩, fun i hi => ?_, fun hp i hi hn => ?_⟩
  · rw [hd.active]; exact hre.batched.nodup
  · have hq := hre.batched.queue hp
    refine ⟨?_, ?_, ?_, ?_, ?_⟩
    · rw [hd.next, hd.active, hd.completed]; exact hq.entered
    · rw [hd.active, hd.completed]; exact hq.disjoint
    · rw [hd.next]; exact hq.next_le
    · rw [hd.next, hd.active]; exact hq.full
    · rw [hd.active]; exact hq.length_le
  · rw [hd.completed]; exact h.refill hre hi
  · rw [hd.next] at hn
    have hno : i ∉ active := fun hm => by
      have := ((hre.batched.queue hp).entered i).mpr (hact i hm)
      omega
    rw [hd.states i hno]
    exact h.refill_queued hre hp hi (le_trans hre.next_le hn)

theorem Tracked.start (hq : run.cfg.enablePreemptiveScheduling = true ∨
    ∀ i < run.requests, run.initialBatchSize ≤ i → finished run.eos (st i) = false) :
    Tracked run [] (run.init st) := by
  refine ⟨⟨nodup_range, fun _ => ?_⟩, fun _ _ => rfl, fun hp => ?_⟩
  · refine ⟨fun i => ?_, fun _ _ => rfl, initialBatchSize_le, fun _ => length_range, length_range.le⟩
    simp [PearlRun.init]
  · exact hq.resolve_left (by simp [hp])

theorem tracked_of_passes (ho : ∀ st gains l, (run.order st gains l).Perm l) (hc : run.continuous = true)
    (hqu : run.cfg.enablePreemptiveScheduling = true ∨
      ∀ i < run.requests, run.initialBatchSize ≤ i → finished run.eos (st i) = false)
    (h : Passes run st heads r) : Tracked run heads r := by
  induction h with
  | start => exact Tracked.start hqu
  | @round heads r scheduled r' active _ hs hne hd ih =>
    have hre := refilled ho ih.toBatched
    rcases schedule_batched ho hc ih.toBatched with ⟨hs', -⟩ | ⟨padding, hs', -, -, hpa, -⟩
    · rw [hs'] at hs
      cases hs
      exact absurd rfl hne
    rw [hs'] at hs
    cases hs
    refine ih.decoded hre (fun i hi => ?_) hd
    rcases mem_append.mp ((perm_canonicalActiveIndices _ _).mem_iff.mp hi) with hi | hi
    · exact .inl hi
    · exact .inr (hpa i hi).2

/-- If no request is finished before it leaves the queue. -/
theorem continuous_batches (ho : ∀ states gains l, (run.order states gains l).Perm l) (hc : run.continuous = true)
    (hqueued : run.cfg.enablePreemptiveScheduling = true ∨
      ∀ i < run.requests, run.initialBatchSize ≤ i → finished run.eos (states i) = false)
    (h : Passes run states heads r) :
    ∃ r' active, schedule run r = .ok (r', active) ∧ (active ≠ [] → RoundBatch run r' active) ∧
      (active = [] → ∀ i < run.requests, firstFinished run.eos (heads ++ [r]) i = some (resultState run r' i)) := by
  have ht := tracked_of_passes ho hc hqueued h
  have hre := refilled ho ht.toBatched
  rcases schedule_batched ho hc ht.toBatched with ⟨hs, hall⟩ | ⟨padding, hs, hne, hn, hpa, hlen⟩
  · refine ⟨_, _, hs, fun hno => absurd rfl hno, fun _ i hi => ?_⟩
    obtain ⟨s, hs⟩ := isSome_iff_exists.mp (hall i hi)
    rw [← ht.refill hre hi, resultState, if_pos hc, hs]
    rfl
  · refine ⟨_, _, hs, fun _ => ht.roundBatch hre hne hn hpa hlen, fun hnil => ?_⟩
    exact absurd (append_eq_nil_iff.mp (canonical_eq_nil.mp hnil)).1 hne

theorem Passes.firstFinished_start (h : Passes run st heads r)
    (hf : finished eos (st i) = true) : firstFinished eos (heads ++ [r]) i = some (st i) := by
  have hi : finished eos ((run.init st).states i) = true := hf
  induction h with
  | start =>
    rw [firstFinished_concat, if_pos hi]
    rfl
  | round _ _ _ _ ih => rw [firstFinished_concat, ih, some_or]

theorem schedule_of_stop (h : pearlIteration run ranks = .ok (.stop (d, t))) : schedule run ranks.2 = .ok (t, []) := by
  simp only [pearlIteration, bind_ok, mapError_ok] at h
  obtain ⟨⟨d1, draftActive⟩, hds, ⟨t1, targetActive⟩, hts, h⟩ := h
  by_cases hs : draftActive = [] ∧ targetActive = []
  · simp only [hs, and_self, if_true] at h
    cases h
    rw [hts, hs.2]
  simp only [hs, if_false, ite_throw_bind, bind_ok, not_or] at h
  obtain ⟨_, _, _, h⟩ := h
  cases h

end

/-! ## A request that has nothing left to decode -/

def queueRun : PearlRun :=
  { preemptiveRun with
    cfg := { preemptiveRun.cfg with enablePreemptiveScheduling := false, preemptive_ok := nofun }
    gamma := 2 }

def greedyUpTo (n : Nat) : NativeSamplingParams where
  temperature := 0
  maxTokens := n + 1
  temperature_nonneg := zeroRat_nonneg
  draftTemperature_nonneg := zeroRat_nonneg
  maxTokens_pos := Nat.succ_pos n

def queueStates (n : Nat) : States :=
  prefilled queueRun.models [[7], [8, 9], [1, 2]] [greedyUpTo 2, greedyUpTo 2, greedyUpTo n]

theorem continuous_batches_queueRun : ∃ heads r r', Passes queueRun (queueStates 1) heads r ∧
    schedule queueRun r = .ok (r', []) ∧
    ∀ i < queueRun.requests, firstFinished queueRun.eos (heads ++ [r]) i = some (resultState queueRun r' i) := by
  obtain ⟨d, t, hl⟩ : ∃ d t, loop (pearlIteration queueRun) 6
      (queueRun.init (queueStates 1), queueRun.init (queueStates 1)) = .ok (some (d, t)) := ⟨_, _, rfl⟩
  obtain ⟨ranks, hr, hst⟩ := Reach.of_loop .start hl
  obtain ⟨-, heads, hp⟩ := passes_of_reach hr
  obtain ⟨r', active, hs, -, he⟩ := continuous_batches preemptiveOrder_perm rfl (.inr (by decide)) hp
  have hs' := schedule_of_stop hst
  rw [hs] at hs'
  cases hs'
  exact ⟨heads, ranks.2, t, hp, hs, he rfl⟩

/-- With room for one token the prefill has finished the third request, and it is decoded all the same. -/
theorem queued_request_overrun : ∃ heads r r', Passes queueRun (queueStates 0) heads r ∧
    schedule queueRun r = .ok (r', []) ∧
    firstFinished queueRun.eos (heads ++ [r]) 2 = some (queueStates 0 2) ∧
    resultState queueRun r' 2 ≠ queueStates 0 2 := by
  obtain ⟨d, t, hl, ho⟩ : ∃ d t, loop (pearlIteration queueRun) 6
      (queueRun.init (queueStates 0), queueRun.init (queueStates 0)) = .ok (some (d, t)) ∧
      resultState queueRun t 2 ≠ queueStates 0 2 := ⟨_, _, rfl, by decide⟩
  obtain ⟨ranks, hr, hs⟩ := Reach.of_loop .start hl
  obtain ⟨-, heads, hp⟩ := passes_of_reach hr
  exact ⟨heads, ranks.2, t, hp, schedule_of_stop hs, hp.firstFinished_start (by decide), ho⟩

end VllmAscend
