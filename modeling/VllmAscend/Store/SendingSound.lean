import Mathlib.Data.List.Count
import VllmAscend.Lib.Run
import VllmAscend.Store.Sending

/-!
# The accounts of the saving thread

A request that is taken from the queue is marked done once and its counter is
decremented once, unless `put` raises: then it is neither, since both calls
stand behind the `finally`.
-/

namespace VllmAscend.Store

open Python StoreCounters SendingThread List

namespace StoreCounters

variable {c : StoreCounters} {r r' : RequestId}

def counter (c : StoreCounters) (r : RequestId) : Int := (dictGet r c.storedRequests).getD 0

theorem counter_add : (c.addStoredRequest r).counter r' = c.counter r' + if r = r' then 1 else 0 := by
  rw [counter, addStoredRequest, dictGet_dictSet]
  by_cases hr : r = r'
  · subst hr
    simp [counter]
  · simp [counter, hr]

theorem mem_add (h : r' ∈ c.storedRequests.map Prod.fst ∨ r' = r) :
    r' ∈ (c.addStoredRequest r).storedRequests.map Prod.fst := by
  rw [addStoredRequest, map_fst_dictSet]
  split
  · next hk =>
    rcases h with h | rfl
    · exact h
    · exact hk
  · exact mem_append.mpr (h.imp_right mem_singleton.mpr)

theorem counter_dec (h : r ∈ c.storedRequests.map Prod.fst) :
    (c.decStoredRequest r).counter r' = c.counter r' - if r = r' then 1 else 0 := by
  obtain ⟨n, hg⟩ := Option.isSome_iff_exists.mp (dictGet_isSome.mpr h)
  simp only [counter, decStoredRequest, hg, dictGet_dictSet]
  by_cases hr : r = r'
  · subst hr
    simp [hg]
  · simp [hr]

theorem mem_dec : r' ∈ (c.decStoredRequest r).storedRequests.map Prod.fst ↔ r' ∈ c.storedRequests.map Prod.fst := by
  unfold decStoredRequest
  split
  · exact Iff.rfl
  rename_i n hg
  have hk : r ∈ c.storedRequests.map Prod.fst := dictGet_isSome.mp (by rw [hg]; rfl)
  rw [map_fst_dictSet, if_pos hk]

structure Clears (P : RequestId → Prop) (c c' : StoreCounters) : Prop where
  counter : ∀ r, dictGet r c'.storedRequests = dictGet r c.storedRequests ∨ P r ∧ dictGet r c'.storedRequests = none
  pending : ∀ r ∈ c'.finishedStoreReq, P r

variable {rs : List RequestId}

theorem Clears.delete (h : Clears P c c') (hr : P r) (hs : c''.storedRequests = dictPop r c'.storedRequests)
    (hf : c''.finishedStoreReq ⊆ c'.finishedStoreReq) : Clears P c c'' := by
  refine ⟨fun r' => ?_, fun r' hm => h.pending r' (hf hm)⟩
  rw [hs, dictGet_dictPop]
  by_cases heq : r = r'
  · exact .inr ⟨heq ▸ hr, if_pos heq⟩
  · rw [if_neg heq]
    exact h.counter r'

theorem Clears.preempted (h : Clears P c c') (hr : ∀ r ∈ rs, P r) :
    Clears P c (rs.foldl deleteFinishedStoredRequest c') :=
  foldlRecOn rs _ h fun _ h r hm => h.delete (hr r hm) rfl (Subset.refl _)

theorem Clears.finishedStores (h : Clears P c c') : Clears P c (sendFinishedStores rs c') := by
  induction rs generalizing c' with
  | nil => exact h
  | cons r rs ih =>
    rw [sendFinishedStores]
    split
    · next hr => exact ih (h.delete (h.pending r hr.2) rfl (erase_subset ..))
    · exact ih h

theorem Clears.finishedRequests (h : Clears P c c') (hr : ∀ r ∈ rs, P r) : Clears P c (sendFinishedRequests rs c') := by
  induction rs generalizing c' with
  | nil => exact h
  | cons r rs ih =>
    obtain ⟨hP, hr⟩ := forall_mem_cons.mp hr
    rw [sendFinishedRequests]
    split
    · exact ih h hr
    split
    · exact ih (h.delete hP rfl (Subset.refl _)) hr
    refine ih ⟨h.counter, fun r' hm => ?_⟩ hr
    rcases mem_insert_iff.mp hm with rfl | hm
    · exact hP
    · exact h.pending r' hm

theorem clears_getAndClear (c : StoreCounters) (finished pre : List RequestId) :
    Clears (fun r => r ∈ finished ∨ r ∈ pre ∨ r ∈ c.finishedStoreReq) c
      (c.getAndClearFinishedRequests finished pre) :=
  ((Clears.preempted ⟨fun _ => .inl rfl, fun _ h => .inr (.inr h)⟩ fun _ h => .inr (.inl h)).finishedStores).finishedRequests
    fun _ => .inl

end StoreCounters

namespace SendingThread

variable {cfg : SendingConfig} {s : SendingThread} {req : ReqMeta} {answers : Answers} {r : RequestId}

def raised (s : SendingThread) : List ReqMeta :=
  (s.handled.filter fun h => h.taskDones = 0).map Handled.req

def itemsOf (r : RequestId) (l : List ReqMeta) : Nat := l.countP fun req => req.reqId = r

variable {es : List Event}

theorem itemsOf_append : itemsOf r (l ++ l') = itemsOf r l + itemsOf r l' := countP_append

theorem itemsOf_cons : itemsOf r (req :: l) = itemsOf r l + if req.reqId = r then 1 else 0 := by
  simp [itemsOf, countP_cons]

def counter (s : SendingThread) (r : RequestId) : Int := s.counters.counter r

structure Balanced (s : SendingThread) : Prop where
  unfinished : s.unfinishedTasks = s.requestQueue.length + s.raised.length
  counters : ∀ r, s.counter r = itemsOf r s.requestQueue + itemsOf r s.raised
  present : ∀ req ∈ s.requestQueue, req.reqId ∈ s.counters.storedRequests.map Prod.fst
  marks : ∀ h ∈ s.handled, h.taskDones = h.decrements ∧ h.decrements ≤ 1

/-! ## Saving -/

theorem Balanced.save (hi : Balanced s) : Balanced (s.save req) := by
  unfold SendingThread.save
  split
  · refine ⟨?_, fun r => ?_, fun req' hm => ?_, hi.marks⟩
    · have ho := hi.unfinished
      simp only [raised, length_append, length_singleton] at ho ⊢
      omega
    · have ho := hi.counters r
      simp only [counter, raised, counter_add, itemsOf_append, itemsOf_cons] at ho ⊢
      have hn : itemsOf r [] = 0 := rfl
      split <;> omega
    · refine mem_add ?_
      rcases mem_append.mp hm with hm | hm
      · exact .inl (hi.present req' hm)
      · exact .inr (congrArg _ (mem_singleton.mp hm))
  · exact hi

/-! ## Handling -/

theorem putRaises_of_storeGroups : ∀ {groups : List Nat}, (storeGroups cfg req answers groups).2 = true →
    ∃ grp, (answers.group grp).putRaises = true
  | [], h => by cases h
  | grp :: groups, h => by
    simp only [storeGroups] at h
    split at h
    · exact putRaises_of_storeGroups h
    split at h
    · next hr => exact ⟨grp, hr⟩
    · exact putRaises_of_storeGroups h

structure Marked (answers : Answers) (req : ReqMeta) (n : Nat) (s s' : SendingThread) : Prop where
  le : n ≤ 1
  put : n = 0 → ∃ group, (answers.group group).putRaises = true
  handled : s'.handled = s.handled ++ [⟨req, n, n⟩]
  queue : s'.requestQueue = s.requestQueue
  unfinished : s'.unfinishedTasks = s.unfinishedTasks - n
  counter : ∀ r, s'.counter r = s.counter r - if req.reqId = r then (n : Int) else 0
  present : ∀ r, r ∈ s'.counters.storedRequests.map Prod.fst ↔ r ∈ s.counters.storedRequests.map Prod.fst

theorem marked_of_mem (hk : req.reqId ∈ s.counters.storedRequests.map Prod.fst) :
    ∃ n, Marked answers req n s (s.handleRequest cfg req answers) := by
  unfold handleRequest
  rw [if_neg (not_not.mpr hk)]
  simp only
  split
  · next hr =>
    refine ⟨0, Nat.zero_le 1, fun _ => putRaises_of_storeGroups hr, rfl, rfl, rfl, fun r => ?_, fun _ => Iff.rfl⟩
    show s.counter r = _
    simp
  · exact ⟨1, le_refl 1, nofun, rfl, rfl, rfl, fun r => counter_dec hk, fun _ => mem_dec⟩

theorem raised_append {h : Handled} {s' : SendingThread} (hh : s'.handled = s.handled ++ [h]) :
    s'.raised = s.raised ++ if h.taskDones = 0 then [h.req] else [] := by
  rw [raised, raised, hh, filter_append, map_append]
  by_cases hz : h.taskDones = 0 <;> simp [hz]

theorem Balanced.handle (hinv : Balanced s) : Balanced (s.runOnce cfg answers) := by
  unfold runOnce
  cases hqu : s.requestQueue with
  | nil => exact hinv
  | cons req rest =>
    have hun := hinv.unfinished
    have hco := hinv.counters
    have hpr := hinv.present
    rw [hqu] at hun hco hpr
    rw [length_cons] at hun
    obtain ⟨n, hm⟩ := @marked_of_mem cfg { s with requestQueue := rest } _ answers (hpr req mem_cons_self)
    have hra := raised_append (s := s) hm.handled
    have hle := hm.le
    refine ⟨?_, fun r => ?_, ?_, ?_⟩
    · rw [hm.unfinished, hm.queue, hra, length_append]
      simp only
      split <;> simp only [length_singleton, length_nil] <;> omega
    · have hr := hco r
      rw [hm.counter, hm.queue, hra, itemsOf_append]
      rw [itemsOf_cons, counter] at hr
      have hnil : itemsOf r [] = 0 := rfl
      show s.counters.counter r - _ = ((itemsOf r rest : Nat) : Int) + _
      rw [hr]
      by_cases hz : n = 0
      · rw [if_pos hz, itemsOf_cons, hz]
        split <;> omega
      · rw [if_neg hz]
        split <;> omega
    · rw [hm.queue]
      exact fun req' hmem => (hm.present _).mpr (hpr req' (mem_cons_of_mem _ hmem))
    · rw [hm.handled]
      intro h hmem
      rcases mem_append.mp hmem with hmem | hmem
      · exact hinv.marks h hmem
      · rw [mem_singleton.mp hmem]
        exact ⟨rfl, hle⟩

theorem Balanced.clear {P : RequestId → Prop} (hinv : Balanced s) (hjo : s.unfinishedTasks = 0)
    (h : s.counters.Clears P c') : Balanced { s with counters := c' } := by
  have hun := hinv.unfinished
  have hqu : s.requestQueue = [] := eq_nil_of_length_eq_zero (by omega)
  have hnone : s.raised = [] := eq_nil_of_length_eq_zero (by omega)
  refine ⟨hun, fun r => ?_, ?_, hinv.marks⟩
  · have hr := hinv.counters r
    rw [hqu, hnone] at hr
    show c'.counter r = itemsOf r s.requestQueue + itemsOf r s.raised
    rw [hqu, hnone]
    rcases h.counter r with heq | ⟨-, hnone⟩
    · exact (congrArg (Option.getD · 0) heq).trans hr
    · exact congrArg (Option.getD · 0) hnone
  · exact fun req hmem => absurd (hqu ▸ hmem) not_mem_nil

/-! ## Runs -/

theorem Balanced.step (e : Event) (hi : Balanced s) (ha : s.Allowed e) : Balanced (s.step cfg e) := by
  cases e with
  | save req => exact hi.save
  | handle answers => exact hi.handle
  | getFinished finished pre =>
    exact hi.clear ha (clears_getAndClear ..)

theorem balanced_start : Balanced {} :=
  ⟨rfl, fun _ => rfl, fun _ hm => absurd hm not_mem_nil, fun _ hm => absurd hm not_mem_nil⟩

theorem balanced_run (h : Run.Guarded (step cfg) Allowed {} es) : Balanced (es.foldl (step cfg) {}) :=
  Run.Guarded.inv (fun _ e hi ha => hi.step e ha) balanced_start h

def Event.Puts : Event → Prop
  | .handle answers => ∀ group, (answers.group group).putRaises = false
  | _ => True

theorem raised_step {e : Event} (hinv : Balanced s) (hpu : e.Puts) (hra : s.raised = []) :
    (s.step cfg e).raised = [] := by
  cases e with
  | save req =>
    rw [step, save]
    split <;> exact hra
  | getFinished finished pre => exact hra
  | handle answers =>
    rw [step, runOnce]
    cases hqu : s.requestQueue with
    | nil => exact hra
    | cons req rest =>
      have hkey := hinv.present req (hqu ▸ mem_cons_self)
      obtain ⟨n, hm⟩ := @marked_of_mem cfg { s with requestQueue := rest } _ answers hkey
      have hz : n ≠ 0 := fun hz => by
        obtain ⟨grp, hgr⟩ := hm.put hz
        rw [hpu grp] at hgr
        cases hgr
      have hap := raised_append (s := s) hm.handled
      rwa [if_neg hz, append_nil, hra] at hap

theorem raised_run (h : Run.Guarded (step cfg) Allowed s es)
    (hp : ∀ e ∈ es, e.Puts) (hi : Balanced s) (hr : s.raised = []) :
    (es.foldl (step cfg) s).raised = [] := by
  induction es generalizing s with
  | nil => exact hr
  | cons e es ih =>
    exact ih h.2 (fun e' he' => hp e' (mem_cons_of_mem _ he')) (hi.step e h.1) (raised_step hi (hp e mem_cons_self) hr)

theorem save_accounts {events : List Event} (h : Run.Guarded (SendingThread.step cfg) Allowed {} events) :
    let s := events.foldl (SendingThread.step cfg) {}
    (s.unfinishedTasks = s.requestQueue.length + s.raised.length ∧
      ∀ r, s.counter r = itemsOf r s.requestQueue + itemsOf r s.raised) ∧
    ((∀ e ∈ events, e.Puts) → (∀ h ∈ s.handled, h.taskDones = 1 ∧ h.decrements = 1) ∧
      (s.requestQueue = [] → s.unfinishedTasks = 0 ∧ ∀ r, s.counter r = 0)) := by
  intro s
  have hinv : Balanced s := balanced_run h
  refine ⟨⟨hinv.unfinished, hinv.counters⟩, fun hpu => ?_⟩
  have hra : s.raised = [] := raised_run h hpu balanced_start rfl
  refine ⟨fun h hmem => ?_, fun hqu => ?_⟩
  · have hma := hinv.marks h hmem
    have hdone : h.taskDones ≠ 0 := fun hzero => by
      have hin : h.req ∈ s.raised := mem_map_of_mem (mem_filter.mpr ⟨hmem, by simp [hzero]⟩)
      rw [hra] at hin
      cases hin
    omega
  · have hun := hinv.unfinished
    have hco := hinv.counters
    rw [hqu, hra] at hun hco
    exact ⟨hun, hco⟩

def oneGroup : SendingConfig := ⟨⟨[4], [1], 4⟩, 0, 1, 1, [false]⟩

def oneBlockReq : ReqMeta :=
  { reqId := 7, tokenLenChunk := 4, blockIdsByGroup := [[3]], blockHashes := [11], canSave := true, loadSpec := none,
    isLastChunk := some true, kvCacheGroupIds := [0], numPromptTokens := 4 }

theorem save_accounts_oneBlock :
    let s := [Event.save oneBlockReq, .handle ⟨fun _ => ⟨none, false⟩, none⟩].foldl (SendingThread.step oneGroup) {}
    s.unfinishedTasks = 0 ∧ s.counter 7 = 0 := by
  have hg : Run.Guarded (SendingThread.step oneGroup) Allowed {}
      [.save oneBlockReq, .handle ⟨fun _ => ⟨none, false⟩, none⟩] := ⟨trivial, trivial, trivial⟩
  obtain ⟨-, ha⟩ := save_accounts hg
  obtain ⟨-, hq⟩ := ha fun e he => by
    simp only [mem_cons, not_mem_nil, or_false] at he
    rcases he with rfl | rfl
    · trivial
    · exact fun _ => rfl
  obtain ⟨hu, hc⟩ := hq (by decide)
  exact ⟨hu, hc 7⟩

/-- The store has not got the block, and `put` raises: the request stays unfinished for good. -/
theorem save_unfinished_of_put :
    let s := [Event.save oneBlockReq, .handle ⟨fun _ => ⟨some [0], true⟩, none⟩].foldl (SendingThread.step oneGroup) {}
    s.requestQueue = [] ∧ s.handled = [⟨oneBlockReq, 0, 0⟩] ∧ s.unfinishedTasks = 1 ∧ s.counter 7 = 1 := by
  decide

end SendingThread

end VllmAscend.Store
