import Mathlib.Data.List.MinMax
import VllmAscend.Lib.Python
import VllmAscend.SimLlm.KvManager

/-!
# Matching a batch with the cached tasks

`identify` looks up the bucket of every hash of a batch. A small batch takes the
candidate with the best score; a large one averages the keys and values of the bucket.
-/

namespace VllmAscend.KvManager

open List Function Python

/-! ## What is cached -/

abbrev Row := List Rat

/-- One row for each token. -/
abbrev Tensor := List Row

/-- A finished request: its hash and, for each token, the hidden state, the key and the value. -/
structure Finished where
  reqId : String
  lshHash : Int
  tokens : List (Row × Row × Row)

/-- The embedding of a cached task, which has at most one row, stands under its id. -/
structure Cache where
  manager : KVManager Tensor := {}
  embedding : String → Option Row := fun _ => none

def perRequestEmbeddings (pool : Tensor → Row) (dim : Nat) (hidden : List Tensor) : Option (List Row) :=
  let slices := hidden.filter (· ≠ [])
  let maxLen := (slices.map length).foldl max 0
  if slices = [] then none
  else some (slices.map fun s => pool (s ++ replicate (maxLen - s.length) (replicate dim 0)))

def storeBatch (pool : Tensor → Row) (dim maxCacheSize : Nat) (c : Cache) (reqs : List Finished) : Cache :=
  let embeddings := perRequestEmbeddings pool dim (reqs.map fun r => r.tokens.map (·.1))
  reqs.zipIdx.foldl (fun c (r, i) =>
    { manager := c.manager.store maxCacheSize ⟨r.reqId, r.lshHash, r.tokens.map (·.2.1), r.tokens.map (·.2.2)⟩
      embedding := update c.embedding r.reqId (embeddings.elim (some (replicate dim 0)) (·[i]?)) }) c

/-! ## Matching -/

inductive Error
  | valueError (message : String)
  | indexError
  | runtimeError
deriving DecidableEq

structure MatchResult where
  matched : Bool
  sourceTaskId : Option String := none
  cachedK : Option Tensor := none
  cachedV : Option Tensor := none
  similarityScore : Option Rat := none

def candidateScores (embedding : String → Option Row) (emb : Row) (tasks : List (CachedTask Tensor)) : List Rat :=
  (tasks.filterMap fun t => embedding t.taskId).map fun row => (zipWith (· * ·) emb row).sum

abbrev Rule := List (CachedTask Tensor) → Except Error MatchResult

def bestMatch (threshold : Rat) (embedding : String → Option Row) (emb : Row) : Rule := fun candidates =>
  if candidates.isEmpty then .ok { matched := false } else
    let scores := candidateScores embedding emb candidates
    match (range scores.length).argmax (scores.getD · 0) with
    -- no candidate has a row, and `view(0, -1)` raises
    | none => .error .runtimeError
    | some best =>
      if threshold ≤ scores.getD best 0 then
        match candidates[best]? with
        | none => .error .indexError
        | some t => .ok ⟨true, t.taskId, t.topK, t.topV, scores.getD best 0⟩
      else .ok { matched := false }

/-- The tensors are of one model and differ in their lengths only. -/
def stack (ts : List Tensor) : Except Error (List Tensor) :=
  if ∀ t ∈ ts, ∀ t' ∈ ts, t.length = t'.length then .ok ts else .error .runtimeError

def mean : List Tensor → Tensor
  | [] => []
  | t :: ts => (ts.foldl (zipWith (zipWith (· + ·))) t).map (·.map (· / (ts.length + 1)))

def mergeKv (tasks : List (CachedTask Tensor)) : Except Error (Tensor × Tensor) :=
  if tasks.isEmpty then .error (.valueError "_merge_kv requires at least one task") else do
    let ks ← stack (tasks.map (·.topK))
    let vs ← stack (tasks.map (·.topV))
    return (mean ks, mean vs)

def mergedMatch : Rule := fun candidates =>
  if candidates.isEmpty then .ok { matched := false } else do
    let merged ← mergeKv candidates
    return { matched := true, cachedK := merged.1, cachedV := merged.2 }

abbrev Results := KVManager Tensor × (Nat → Option MatchResult)

def matchTurn (s : Results) (t : Int × List Nat × Rule) : Except Error Results := do
  let found := s.1.lookupByHash t.1
  let result ← t.2.2 found.2
  return (found.1, fun i => if i ∈ t.2.1 then some result else s.2 i)

def matchTurns (threshold : Rat) (lshBatchThreshold : Nat) (c : Cache) (batch : List (Row × Int)) :
    List (Int × List Nat × Rule) :=
  if batch.length < lshBatchThreshold then
    batch.zipIdx.map fun p => (p.1.2, [p.2], bestMatch threshold c.embedding p.1.1)
  else (batch.zipIdx.foldl (fun d p => dictAppend p.1.2 p.2 d) []).map fun g => (g.1, g.2, mergedMatch)

def identify (threshold : Rat) (lshBatchThreshold : Nat) (c : Cache) (batch : List (Row × Int)) : Except Error Results :=
  (matchTurns threshold lshBatchThreshold c batch).foldlM matchTurn (c.manager, fun _ => none)

/-! ## When it returns -/

def KVManager.bucket (m : KVManager κ) (h : Int) : List (CachedTask κ) := ((m.buckets h).getD []).filterMap m.tasks

theorem lookup_spec : ∀ {ids : List String} {s : KVManager κ × List (CachedTask κ)},
    (ids.foldl lookupTurn s).1.tasks = s.1.tasks ∧ (ids.foldl lookupTurn s).1.buckets = s.1.buckets ∧
      (ids.foldl lookupTurn s).2 = s.2 ++ ids.filterMap s.1.tasks
  | [], s => by simp
  | id :: ids, s => by
    rw [foldl_cons, lookupTurn]
    split
    · next task hg => simpa [KVManager.moveToEnd, hg] using @lookup_spec κ ids (s.1.moveToEnd id, s.2 ++ [task])
    · next hg => simpa [hg] using @lookup_spec κ ids s

theorem bestMatch_ok {embedding : String → Option Row} {tasks : List (CachedTask Tensor)} :
    (∃ r, bestMatch threshold embedding emb tasks = .ok r) ↔
      tasks = [] ∨ ∃ t ∈ tasks, (embedding t.taskId).isSome := by
  by_cases he : tasks = []
  · simp [bestMatch, he]
  simp only [bestMatch, List.isEmpty_iff, he, if_false, false_or]
  have hlen : (candidateScores embedding emb tasks).length ≤ tasks.length := by
    simp [candidateScores, length_filterMap_le]
  have hnil : candidateScores embedding emb tasks = [] ↔ ¬ ∃ t ∈ tasks, (embedding t.taskId).isSome := by
    simp [candidateScores]
  generalize candidateScores embedding emb tasks = scores at hlen hnil
  split
  · next hb => simpa using hnil.mp (by simpa using argmax_eq_none.mp hb)
  · next best hb =>
    have hlt : best < scores.length := mem_range.mp (argmax_mem hb)
    refine iff_of_true ?_ (not_not.mp fun h => ?_)
    · rw [getElem?_eq_getElem (hlt.trans_le hlen)]
      split <;> exact ⟨_, rfl⟩
    · simp [hnil.mpr h] at hlt

def SameLengths (tasks : List (CachedTask Tensor)) : Prop :=
  (∀ t ∈ tasks, ∀ t' ∈ tasks, t.topK.length = t'.topK.length) ∧
    ∀ t ∈ tasks, ∀ t' ∈ tasks, t.topV.length = t'.topV.length

theorem mergedMatch_ok {tasks : List (CachedTask Tensor)} : (∃ r, mergedMatch tasks = .ok r) ↔ SameLengths tasks := by
  by_cases he : tasks = []
  · simp [mergedMatch, he, SameLengths]
  simp only [mergedMatch, mergeKv, stack, List.isEmpty_iff, he, if_false, SameLengths, forall_mem_map]
  split
  · next hk =>
    split
    · next hv => exact iff_of_true ⟨_, rfl⟩ ⟨hk, hv⟩
    · next hv => exact iff_of_false (by simp) fun h => hv h.2
  · next hk => exact iff_of_false (by simp) fun h => hk h.1

theorem matchLoop_spec {bucket : Int → List (CachedTask Tensor)} : ∀ {turns : List (Int × List Nat × Rule)}
    {s : Results}, s.1.bucket = bucket →
    ((∃ out, turns.foldlM matchTurn s = .ok out) ↔ ∀ t ∈ turns, ∃ r, t.2.2 (bucket t.1) = .ok r) ∧
      ∀ out, turns.foldlM matchTurn s = .ok out → ∀ i, ((s.2 i).isSome ∨ ∃ t ∈ turns, i ∈ t.2.1) → (out.2 i).isSome
  | [], s, _ => ⟨by simp, fun out h i hi => by cases h; simpa using hi⟩
  | t :: turns, s, hs => by
    obtain ⟨ht, hb, hr⟩ := @lookup_spec _ ((s.1.buckets t.1).getD []) (s.1, [])
    have hfound : (s.1.lookupByHash t.1).2 = bucket t.1 := hs ▸ hr
    have hs' : (s.1.lookupByHash t.1).1.bucket = bucket := by
      rw [← hs]
      funext h
      rw [KVManager.bucket, KVManager.bucket, KVManager.lookupByHash, ht, hb]
    rw [foldlM_cons, matchTurn, hfound, forall_mem_cons]
    cases t.2.2 (bucket t.1) with
    | error e => simp
    | ok r =>
      obtain ⟨hiff, hres⟩ := @matchLoop_spec bucket turns (_, fun i => if i ∈ t.2.1 then some r else s.2 i) hs'
      refine ⟨hiff.trans (by simp), fun out h i hi => hres out h i ?_⟩
      simp only [exists_mem_cons_iff] at hi
      by_cases hm : i ∈ t.2.1
      · simp [hm]
      · simpa [hm] using hi

/-- What a batch of `n` needs of a bucket: a small one an embedding, a large one tasks of one length. -/
def Answers (lshBatchThreshold : Nat) (c : Cache) (n : Nat) (tasks : List (CachedTask Tensor)) : Prop :=
  if n < lshBatchThreshold then tasks = [] ∨ ∃ t ∈ tasks, (c.embedding t.taskId).isSome else SameLengths tasks

theorem matchTurns_spec : (∀ i < batch.length, ∃ t ∈ matchTurns threshold lim c batch, i ∈ t.2.1) ∧
    ((∀ t ∈ matchTurns threshold lim c batch, ∃ r, t.2.2 (c.manager.bucket t.1) = .ok r) ↔
      ∀ p ∈ batch, Answers lim c batch.length (c.manager.bucket p.2)) := by
  have hall : ∀ P : Row × Int → Prop, (∀ p ∈ batch.zipIdx, P p.1) ↔ ∀ p ∈ batch, P p := fun P => by
    conv_rhs => rw [← zipIdx_map_fst 0 batch, forall_mem_map]
  have hidx : ∀ i < batch.length, ∃ p ∈ batch.zipIdx, p.2 = i := fun i hi =>
    ⟨(batch[i], i), by simp [mk_mem_zipIdx_iff_getElem?], rfl⟩
  unfold matchTurns Answers
  split
  · simp only [forall_mem_map, bestMatch_ok, ← hall]
    refine ⟨fun i hi => ?_, trivial⟩
    obtain ⟨p, hp, rfl⟩ := hidx i hi
    exact ⟨_, mem_map_of_mem hp, mem_singleton_self _⟩
  · obtain ⟨-, hin, hof⟩ := group_groups (f := fun p => p.1.2) (g := Prod.snd) batch.zipIdx
    simp only [forall_mem_map, mergedMatch_ok, ← hall]
    refine ⟨fun i hi => ?_, fun h p hp => ?_, fun h q hq => ?_⟩
    · obtain ⟨p, hp, rfl⟩ := hidx i hi
      obtain ⟨q, hq, -, hm⟩ := hin p hp
      exact ⟨_, mem_map_of_mem hq, hm⟩
    · obtain ⟨q, hq, he, -⟩ := hin p hp
      exact he ▸ h q hq
    · obtain ⟨p, hp, he⟩ := (hof q hq).2
      exact he ▸ h p hp

theorem identify_returns_iff (threshold : Rat) (lshBatchThreshold : Nat) (c : Cache) (batch : List (Row × Int)) :
    (∃ out, identify threshold lshBatchThreshold c batch = .ok out ∧ ∀ i < batch.length, (out.2 i).isSome) ↔
      ∀ p ∈ batch, Answers lshBatchThreshold c batch.length (c.manager.bucket p.2) := by
  obtain ⟨hiff, hres⟩ :=
    @matchLoop_spec _ (matchTurns threshold lshBatchThreshold c batch) (c.manager, fun _ => none) rfl
  refine Iff.trans ⟨fun ⟨out, h, _⟩ => ⟨out, h⟩, fun ⟨out, h⟩ => ?_⟩ (hiff.trans matchTurns_spec.2)
  exact ⟨out, h, fun i hi => hres out h i (.inr (matchTurns_spec.1 i hi))⟩

/-- Two tasks of one hash that differ in length, and a task without an embedding. -/
theorem identify_raises :
    let cached := fun reqs => storeBatch (·.headD []) 1 4 {} reqs
    raisedBy (identify (4 / 5) 32 (cached [⟨"a", 7, [([1], [1], [1])]⟩, ⟨"b", 7, replicate 2 ([1], [1], [1])⟩])
        (replicate 32 ([1], 7))) = some .runtimeError ∧
      raisedBy (identify (4 / 5) 32 (cached [⟨"a", 3, []⟩, ⟨"b", 7, [([1], [1], [1])]⟩]) [([1], 7)]) =
        some .runtimeError := by
  decide +kernel

/-! ## What a lookup returns -/

variable {κ : Type} {m : KVManager κ} {c : Call κ} {id : String}

theorem tasks_evictLru (h : m.evictLru.tasks id = some task) : m.tasks id = some task := by
  unfold KVManager.evictLru at h
  split at h
  · exact h
  · simp only [update_apply] at h
    split at h
    · cases h
    · exact h

/-- What is cached after a call was stored by it, or cached before and not overwritten. -/
theorem tasks_step (h : (step n m c).tasks id = some task) :
    c = .store task ∧ task.taskId = id ∨
      m.tasks id = some task ∧ c ≠ .clear ∧ ∀ t, c = .store t → t.taskId ≠ id := by
  cases c with
  | store t =>
    have h : (m.insert t).tasks id = some task := by
      simp only [step, KVManager.store] at h
      split at h
      · exact tasks_evictLru h
      · exact h
    simp only [KVManager.insert, KVManager.moveToEnd, update_apply] at h
    split at h
    · next he =>
      cases h
      exact .inl ⟨rfl, he.symm⟩
    · next he => exact .inr ⟨h, by simp, fun t' ht => by cases ht; exact Ne.symm he⟩
  | lookupByHash lh =>
    rw [step, KVManager.lookupByHash, lookup_spec.1] at h
    exact .inr ⟨h, by simp⟩
  | getKv x =>
    simp only [step, KVManager.getKv] at h
    split at h <;> exact .inr ⟨h, by simp⟩
  | evictLru => exact .inr ⟨tasks_evictLru h, by simp⟩
  | clear => cases h

theorem cached_latest {calls : List (Call κ)} (h : (calls.foldl (step n) {}).tasks id = some task) :
    task.taskId = id ∧ ∃ before after, calls = before ++ .store task :: after ∧
      ∀ c ∈ after, c ≠ .clear ∧ ∀ t, c = .store t → t.taskId ≠ id := by
  induction calls using reverseRecOn with
  | nil => cases h
  | append_singleton calls c ih =>
    rw [foldl_append] at h
    rcases tasks_step h with ⟨rfl, he⟩ | ⟨h, hc⟩
    · exact ⟨he, calls, [], rfl, by simp⟩
    · obtain ⟨he, before, after, rfl, ha⟩ := ih h
      refine ⟨he, before, after ++ [c], by simp, fun c' hm => ?_⟩
      rcases mem_append.mp hm with hm | hm
      · exact ha c' hm
      · exact mem_singleton.mp hm ▸ hc

/-- After any calls a lookup returns the cached tasks of the hash, each once and as it was last stored. -/
theorem lookup_latest (maxCacheSize : Nat) (calls : List (Call κ)) (lshHash : Int) :
    let m := calls.foldl (step maxCacheSize) {}
    (m.lookupByHash lshHash).2.Nodup ∧
      (∀ task, task ∈ (m.lookupByHash lshHash).2 ↔ m.tasks task.taskId = some task ∧ task.lshHash = lshHash) ∧
      ∀ id task, m.tasks id = some task → task.taskId = id ∧ ∃ before after, calls = before ++ .store task :: after ∧
        ∀ c ∈ after, c ≠ .clear ∧ ∀ t, c = .store t → t.taskId ≠ id := by
  intro m
  have hrun : Inv m ∧ m.order.length ≤ maxCacheSize :=
    foldlRecOn (motive := fun m : KVManager κ => Inv m ∧ m.order.length ≤ maxCacheSize) calls _
      ⟨inv_empty, Nat.zero_le _⟩ fun _ h c _ => h.1.step h.2 c
  obtain ⟨-, hnod, hmem⟩ := hrun.1.indexed lshHash
  have hid : ∀ id task, m.tasks id = some task → task.taskId = id := fun _ _ h => (cached_latest h).1
  rw [KVManager.lookupByHash, lookup_spec.2.2]
  refine ⟨hnod.filterMap fun a b t ha hb => (hid a t ha).symm.trans (hid b t hb), fun task => ?_,
    fun id task h => cached_latest h⟩
  simp only [nil_append, mem_filterMap, hmem, comp_apply, Option.map_eq_some_iff]
  constructor
  · rintro ⟨id, ⟨_, h, hh⟩, h'⟩
    cases h.symm.trans h'
    exact ⟨(hid id task h).symm ▸ h, hh⟩
  · exact fun ⟨h, hh⟩ => ⟨_, ⟨task, h, hh⟩, h⟩

end VllmAscend.KvManager
