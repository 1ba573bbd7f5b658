import Mathlib.Data.List.Nodup

/-!
# The cache of finished tasks

`KVManager` keeps the tasks in the order of their last use and lists the ids of
each hash in a bucket. Where a task does not fit, the least recently used goes.
-/

namespace VllmAscend.KvManager

open List Function

structure CachedTask (κ : Type) where
  taskId : String
  lshHash : Int
  topK : κ
  topV : κ

/-- `order` has the keys of the ordered dictionary; `used` records what was used, the latest first. -/
structure KVManager (κ : Type) where
  order : List String := []
  tasks : String → Option (CachedTask κ) := fun _ => none
  buckets : Int → Option (List String) := fun _ => none
  used : List String := []

variable {κ : Type} {m : KVManager κ} {task : CachedTask κ} {buckets : Int → Option (List String)} {n : Nat}
  {hash : String → Option Int} {used order : List String} {id : String}

/-- `move_to_end`; a key that is new is added there. -/
def KVManager.moveToEnd (m : KVManager κ) (id : String) : KVManager κ :=
  { m with order := m.order.erase id ++ [id], used := id :: m.used }

/-- A bucket that becomes empty is deleted. -/
def removeFromBucket (lshHash : Int) (id : String) (buckets : Int → Option (List String)) :
    Int → Option (List String) :=
  update buckets lshHash (((buckets lshHash).map (·.erase id)).filter (· ≠ []))

def KVManager.evictLru (m : KVManager κ) : KVManager κ :=
  match m.order with
  | [] => m
  | id :: order =>
    { m with
      order := order
      tasks := update m.tasks id none
      buckets := (m.tasks id).elim m.buckets fun task => removeFromBucket task.lshHash id m.buckets }

/-- `store` up to the check of the capacity. -/
def KVManager.insert (m : KVManager κ) (task : CachedTask κ) : KVManager κ :=
  let buckets := (m.tasks task.taskId).elim m.buckets fun old => removeFromBucket old.lshHash task.taskId m.buckets
  KVManager.moveToEnd { m with
    tasks := update m.tasks task.taskId (some task)
    buckets := update buckets task.lshHash (some ((buckets task.lshHash).getD [] ++ [task.taskId])) } task.taskId

def KVManager.store (maxCacheSize : Nat) (m : KVManager κ) (task : CachedTask κ) : KVManager κ :=
  let m := m.insert task
  if maxCacheSize < m.order.length then m.evictLru else m

def lookupTurn (s : KVManager κ × List (CachedTask κ)) (id : String) : KVManager κ × List (CachedTask κ) :=
  match s.1.tasks id with
  | some task => (s.1.moveToEnd id, s.2 ++ [task])
  | none => s

def KVManager.lookupByHash (m : KVManager κ) (lshHash : Int) : KVManager κ × List (CachedTask κ) :=
  ((m.buckets lshHash).getD []).foldl lookupTurn (m, [])

def KVManager.getKv (m : KVManager κ) (id : String) : KVManager κ × Option (κ × κ) :=
  match m.tasks id with
  | none => (m, none)
  | some task => (m.moveToEnd id, some (task.topK, task.topV))

inductive Call (κ : Type)
  | store (task : CachedTask κ)
  | lookupByHash (lshHash : Int)
  | getKv (id : String)
  | evictLru
  | clear

def step (maxCacheSize : Nat) (m : KVManager κ) : Call κ → KVManager κ
  | .store task => m.store maxCacheSize task
  | .lookupByHash lshHash => (m.lookupByHash lshHash).1
  | .getKv id => (m.getKv id).1
  | .evictLru => m.evictLru
  | .clear => { used := m.used }

/-! ## Buckets -/

/-- No bucket is empty, and every id stands once in the bucket of its hash and in no other. -/
def Indexed (buckets : Int → Option (List String)) (hash : String → Option Int) : Prop :=
  ∀ h, buckets h ≠ some [] ∧ ((buckets h).getD []).Nodup ∧ ∀ id, id ∈ (buckets h).getD [] ↔ hash id = some h

theorem Indexed.change (hi : Indexed buckets hash) (hold : ∀ h' ∈ hash id, h' = h) (hnew : ∀ h' ∈ v, h' = h)
    (hne : o ≠ some []) (hnod : (o.getD []).Nodup) (hmem : ∀ id', id' ∈ o.getD [] ↔ update hash id v id' = some h) :
    Indexed (update buckets h o) (update hash id v) := by
  intro h'
  by_cases he : h' = h
  · subst he
    rw [update_self]
    exact ⟨hne, hnod, hmem⟩
  rw [update_of_ne he]
  refine ⟨(hi h').1, (hi h').2.1, fun id' => ((hi h').2.2 id').trans ?_⟩
  by_cases hd : id' = id
  · subst hd
    rw [update_self]
    exact iff_of_false (fun e => he (hold h' e)) fun e => he (hnew h' e)
  · rw [update_of_ne hd]

theorem Indexed.remove (hi : Indexed buckets hash) (hh : hash id = some h) :
    Indexed (removeFromBucket h id buckets) (update hash id none) := by
  obtain ⟨-, hnod, hmem⟩ := hi h
  have hget : (((buckets h).map (·.erase id)).filter (· ≠ [])).getD [] = ((buckets h).getD []).erase id := by
    cases buckets h with
    | none => rfl
    | some bucket => by_cases he : bucket.erase id = [] <;> simp [Option.filter, he]
  refine hi.change (by simp [hh]) (by simp) (by simp [Option.filter_eq_some_iff]) ?_ fun id' => ?_
  · exact hget ▸ hnod.erase id
  · rw [hget, hnod.mem_erase_iff, hmem, update_apply]
    split <;> simp [*]

theorem Indexed.append (hi : Indexed buckets hash) (hh : hash id = none) (h : Int) :
    Indexed (update buckets h (some ((buckets h).getD [] ++ [id]))) (update hash id (some h)) := by
  obtain ⟨-, hnod, hmem⟩ := hi h
  refine hi.change (by simp [hh]) (by simp) (by simp) ?_ fun id' => ?_
  · exact hnod.append (nodup_singleton id) (by simp [hmem, hh])
  · rw [Option.getD_some, mem_append, hmem, mem_singleton, update_apply]
    split <;> simp [*]

/-! ## The order of use -/

/-- The last use of `a` is older than some use of `b`. -/
def Before (used : List String) (a b : String) : Prop := ∃ late early, used = late ++ a :: early ∧ a ∉ late ∧ b ∈ late

theorem Before.cons (h : Before used a b) (hne : a ≠ id) : Before (id :: used) a b := by
  obtain ⟨late, early, rfl, hno, hm⟩ := h
  exact ⟨id :: late, early, rfl, by simp [hne, hno], mem_cons_of_mem _ hm⟩

theorem before_cons_of_mem (h : a ∈ used) (hne : a ≠ id) : Before (id :: used) a id := by
  obtain ⟨late, early, rfl, hno⟩ := eq_append_cons_of_mem h
  exact ⟨id :: late, early, rfl, by simp [hne, hno], mem_cons_self⟩

structure Inv (m : KVManager κ) : Prop where
  indexed : Indexed m.buckets (Option.map CachedTask.lshHash ∘ m.tasks)
  cached : ∀ id, id ∈ m.order ↔ (m.tasks id).isSome
  recent : m.order.Pairwise (Before m.used)
  seen : m.order ⊆ m.used

theorem Inv.nodup (hi : Inv m) : m.order.Nodup := hi.recent.imp fun ⟨_, _, _, hno, hm⟩ e => hno (e ▸ hm)

theorem Inv.moved (hi : Inv m)
    (hb : Indexed buckets (update (Option.map CachedTask.lshHash ∘ m.tasks) id (some task.lshHash))) :
    Inv (KVManager.moveToEnd { m with tasks := update m.tasks id (some task), buckets } id) where
  indexed := (congrArg (Indexed buckets) (comp_update ..)).mpr hb
  cached id' := by
    simp only [KVManager.moveToEnd, mem_append, hi.nodup.mem_erase_iff, hi.cached, mem_singleton, update_apply]
    split <;> simp [*]
  recent := by
    refine pairwise_append.mpr ⟨?_, by simp, fun a ha b hb => ?_⟩
    · exact (hi.recent.sublist erase_sublist).imp_of_mem fun ha _ h => h.cons (hi.nodup.mem_erase_iff.mp ha).1
    · obtain ⟨hne, ha⟩ := hi.nodup.mem_erase_iff.mp ha
      rw [mem_singleton.mp hb]
      exact before_cons_of_mem (hi.seen ha) hne
  seen id' h := by
    rcases mem_append.mp h with h | h
    · exact mem_cons_of_mem _ (hi.seen (mem_of_mem_erase h))
    · exact mem_singleton.mp h ▸ mem_cons_self

theorem Inv.insert (hi : Inv m) (task : CachedTask κ) : Inv (m.insert task) := by
  refine hi.moved ?_
  rw [← update_idem (a := task.taskId) none]
  refine Indexed.append ?_ (update_self ..) _
  cases hg : m.tasks task.taskId with
  | none =>
    rw [update_eq_self_iff.mpr (by simp [hg])]
    exact hi.indexed
  | some old => exact hi.indexed.remove (by simp [hg])

theorem Inv.touch (hi : Inv m) (hg : m.tasks id = some task) :
    Inv (m.moveToEnd id) ∧ (m.moveToEnd id).order.length = m.order.length := by
  have hid := (hi.cached id).mpr (by simp [hg])
  have h := @Inv.moved κ m task m.buckets id hi
  rw [update_eq_self_iff.mpr (by simp [hg]), update_eq_self_iff.mpr hg.symm] at h
  refine ⟨h hi.indexed, ?_⟩
  have := length_pos_of_mem hid
  simp only [KVManager.moveToEnd, length_append, length_erase_of_mem hid, length_singleton]
  omega

theorem Inv.lookup : ∀ {ids : List String} {s : KVManager κ × List (CachedTask κ)}, Inv s.1 → s.1.order.length ≤ n →
    Inv (ids.foldl lookupTurn s).1 ∧ (ids.foldl lookupTurn s).1.order.length ≤ n
  | [], _, hi, hn => ⟨hi, hn⟩
  | id :: ids, s, hi, hn => by
    rw [foldl_cons, lookupTurn]
    split
    · next task hg =>
      obtain ⟨hi', hlen⟩ := hi.touch hg
      exact Inv.lookup hi' (hlen ▸ hn)
    · exact Inv.lookup hi hn

theorem Inv.evictLru (hi : Inv m) : Inv m.evictLru := by
  unfold KVManager.evictLru
  split
  · exact hi
  next id order hc =>
    obtain ⟨hno, hnod⟩ := nodup_cons.mp (hc ▸ hi.nodup)
    obtain ⟨task, hg⟩ := Option.isSome_iff_exists.mp ((hi.cached id).mp (hc ▸ mem_cons_self))
    refine ⟨?_, fun id' => ?_, (pairwise_cons.mp (hc ▸ hi.recent)).2, fun a ha => hi.seen (hc ▸ mem_cons_of_mem _ ha)⟩
    · rw [comp_update, hg]
      exact hi.indexed.remove (by simp [hg])
    · have := hi.cached id'
      rw [hc] at this
      simp only [update_apply]
      split <;> simp_all

theorem length_evictLru : m.evictLru.order.length = m.order.length - 1 := by
  unfold KVManager.evictLru
  split <;> simp [*]

theorem inv_empty : Inv ({ used } : KVManager κ) := ⟨fun _ => by simp, by simp, .nil, nil_subset _⟩

theorem Inv.step (hi : Inv m) (hn : m.order.length ≤ n) (c : Call κ) :
    Inv (step n m c) ∧ (step n m c).order.length ≤ n := by
  cases c with
  | store task =>
    have hlen : (m.insert task).order.length ≤ m.order.length + 1 := by
      simpa [KVManager.insert, KVManager.moveToEnd] using erase_sublist.length_le
    simp only [KvManager.step, KVManager.store]
    split
    · refine ⟨(hi.insert task).evictLru, ?_⟩
      rw [length_evictLru]
      omega
    · exact ⟨hi.insert task, by omega⟩
  | lookupByHash h => exact hi.lookup hn
  | getKv id =>
    simp only [KvManager.step, KVManager.getKv]
    split
    · exact ⟨hi, hn⟩
    · next hg => exact ⟨(hi.touch hg).1, (hi.touch hg).2 ▸ hn⟩
  | evictLru => exact ⟨hi.evictLru, length_evictLru ▸ Nat.le_trans (Nat.sub_le ..) hn⟩
  | clear => exact ⟨inv_empty, Nat.zero_le _⟩

/-- The buckets list every cached id once, and what a store evicts was last used before everything that stays. -/
theorem kv_manager_consistent (maxCacheSize : Nat) (calls : List (Call κ)) :
    let m := calls.foldl (step maxCacheSize) {}
    Indexed m.buckets (Option.map CachedTask.lshHash ∘ m.tasks) ∧ (∀ id, id ∈ m.order ↔ (m.tasks id).isSome) ∧
      m.order.Nodup ∧ m.order.length ≤ maxCacheSize ∧
      ∀ task, maxCacheSize < (m.insert task).order.length →
        ∃ id, (m.insert task).order = id :: (m.store maxCacheSize task).order ∧
          ∀ id' ∈ (m.store maxCacheSize task).order, Before (m.insert task).used id id' := by
  intro m
  have hrun : Inv m ∧ m.order.length ≤ maxCacheSize :=
    foldlRecOn (motive := fun m : KVManager κ => Inv m ∧ m.order.length ≤ maxCacheSize) calls _
      ⟨inv_empty, Nat.zero_le _⟩ fun _ h c _ => h.1.step h.2 c
  refine ⟨hrun.1.indexed, hrun.1.cached, hrun.1.nodup, hrun.2, fun task hover => ?_⟩
  have hre := (hrun.1.insert task).recent
  rw [KVManager.store, if_pos hover, KVManager.evictLru]
  cases hc : (m.insert task).order with
  | nil => simp [hc] at hover
  | cons id order => exact ⟨id, rfl, (pairwise_cons.mp (hc ▸ hre)).1⟩

end VllmAscend.KvManager
